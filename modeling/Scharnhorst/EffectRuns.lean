/-
An effect tree runs as the list of its leaves.

The tree says nothing but an order: its leaves from the left to the right. What the leaves come to
is defined on their list, without an evaluator that changes: the bindings so far, the diffs, and
the first failure. That the evaluator does the same is an induction on the tree. It needs that an
expression does not see the journal, since the leaves before it have written there, and that a
list of leaves may be cut anywhere.
-/
import Scharnhorst.Effects
import Scharnhorst.EntryOrder

set_option autoImplicit false

namespace Scharnhorst

open ReadOnly

/-! ## What an expression sees

The variables that it names, and neither the journal nor any other variable. -/

mutual

/-- The variables that an expression names. -/
def Expr.variables : Expr → List String
  | .Const _ | .Bool _ | .String _ | .RowId _ | .Column _ => []
  | .Var var => [var.name]
  | .Not inner => inner.variables
  | .And items | .Or items | .List items => variables_of items
  | .Compare _ lhs rhs | .Arithmetic _ lhs rhs => lhs.variables ++ rhs.variables
  | .If cond then_branch else_branch =>
    cond.variables ++ then_branch.variables ++ else_branch.variables
  | .Call _ args => entry_variables args
  | .Map entries => entry_variables entries

def variables_of : List Expr → List String
  | [] => []
  | item :: items => item.variables ++ variables_of items

def entry_variables : List (String × Expr) → List String
  | [] => []
  | (_, expr) :: entries => expr.variables ++ entry_variables entries

end

namespace RuleEvaluator

variable {Q J : Type}

/-- Only the journal and the variables differ. -/
def SameWorld (R : RuleEvaluator Q J → RuleEvaluator Q J → Prop) : Prop :=
  ∀ ev ev', R ev ev' → ∃ journal vars, ev' = { ev with journal, vars }

section Nodes

variable {R : RuleEvaluator Q J → RuleEvaluator Q J → Prop} {x y z : Evaluation Q J}
  {xs : List (Evaluation Q J)} {args : List (String × Evaluation Q J)}

theorem sees_not (h : Sees R x) : Sees R (evaluate_not x) := by
  apply h.and_then
  intro value
  split <;> exact sees_done _

/-- The operands are evaluated one after the other, until one of them decides. -/
theorem sees_each {f : List (Evaluation Q J) → Evaluation Q J} (hnil : ∃ r, f [] = done r)
    (hcons : ∀ x xs, ∃ g, f (x :: xs) = and_then x g
      ∧ ∀ value, g value = f xs ∨ ∃ r, g value = done r)
    (h : ∀ x ∈ xs, Sees R x) : Sees R (f xs) := by
  induction xs with
  | nil =>
    obtain ⟨r, hr⟩ := hnil
    rw [hr]
    exact sees_done r
  | cons x xs ih =>
    obtain ⟨hx, hxs⟩ := List.forall_mem_cons.1 h
    obtain ⟨g, hg, hnext⟩ := hcons x xs
    rw [hg]
    apply hx.and_then
    intro value
    rcases hnext value with hgo | ⟨r, hstop⟩
    · rw [hgo]
      exact ih hxs
    · rw [hstop]
      exact sees_done r

theorem sees_and (h : ∀ x ∈ xs, Sees R x) : Sees R (evaluate_and xs) := by
  refine sees_each ⟨_, rfl⟩ (fun x xs => ⟨_, rfl, ?_⟩) h
  intro value
  split
  · exact Or.inr ⟨_, rfl⟩
  · exact Or.inl rfl
  · exact Or.inr ⟨_, rfl⟩

theorem sees_or (h : ∀ x ∈ xs, Sees R x) : Sees R (evaluate_or xs) := by
  refine sees_each ⟨_, rfl⟩ (fun x xs => ⟨_, rfl, ?_⟩) h
  intro value
  split
  · exact Or.inr ⟨_, rfl⟩
  · exact Or.inl rfl
  · exact Or.inr ⟨_, rfl⟩

/-- `evaluate_compare` and `evaluate_arithmetic`. -/
theorem sees_both {f : EvalValue → EvalValue → RuleResult EvalValue}
    (hx : Sees R x) (hy : Sees R y) :
    Sees R (and_then x fun left => and_then y fun right => done (f left right)) := by
  apply hx.and_then
  intro left
  apply hy.and_then
  intro right
  exact sees_done _

theorem sees_if (hx : Sees R x) (hy : Sees R y)
    (hz : Sees R z) : Sees R (evaluate_if x y z) := by
  apply hx.and_then
  intro value
  split
  · exact hy
  · exact hz
  · exact sees_done _

theorem sees_argument (h : ∀ entry ∈ args, Sees R entry.2) (func k : String) :
    Sees R (argument func args k) := by
  unfold argument
  rcases hk : args.lookup k with _ | expr
  · exact sees_done _
  · exact h (k, expr) (Listed.mem_of_lookup hk)

theorem sees_call (hR : SameWorld R) (h : ∀ entry ∈ args, Sees R entry.2) (func : String) :
    Sees R (evaluate_call func args) := by
  have hcount : Sees R (check_arg_count func args.length) := by
    refine ⟨reads_check_arg_count func _, fun ev ev' hrel => ?_⟩
    obtain ⟨journal, vars, rfl⟩ := hR ev ev' hrel
    simp only [check_arg_count]
    rcases ev.builtin_arg_counts[func]? with _ | expected
    · rfl
    · by_cases hargs : args.length = expected
      · simp only [if_pos hargs]
      · simp only [if_neg hargs]
  apply hcount.and_then
  intro _
  have hcollect : Sees R (collect ((sorted_keys args).map (argument func args))) := by
    apply sees_collect
    intro x hx
    obtain ⟨k, -, rfl⟩ := List.mem_map.1 hx
    exact sees_argument h func k
  apply hcollect.and_then
  intro values
  refine ⟨reads_apply_builtin func values, fun ev ev' hrel => ?_⟩
  obtain ⟨journal, vars, rfl⟩ := hR ev ev' hrel
  simp only [apply_builtin]
  rcases ev.builtins[func]? with _ | f <;> rfl

theorem sees_map (h : ∀ entry ∈ args, Sees R entry.2) :
    Sees R (evaluate_map args) := by
  have hcollect : Sees R (collect (args.map evaluate_entry)) := by
    apply sees_collect
    intro x hx
    obtain ⟨entry, hentry, rfl⟩ := List.mem_map.1 hx
    exact (h entry hentry).and_then fun v => sees_done _
  exact hcollect.and_then fun values => sees_done _

theorem sees_column (hR : SameWorld R) (path : ColumnPath) : Sees R (evaluate_column path) := by
  refine ⟨reads_column path, fun ev ev' hrel => ?_⟩
  obtain ⟨journal, vars, rfl⟩ := hR ev ev' hrel
  simp only [evaluate_column]
  rcases ev.query_engine.read with e | q <;> rfl

end Nodes

section Expressions

variable {R : RuleEvaluator Q J → RuleEvaluator Q J → Prop}

mutual

/-- By induction on the expression: it sees no more than its variables do. -/
theorem sees_variables (hR : SameWorld R) : ∀ expr : Expr,
    (∀ x ∈ expr.variables, Sees R (resolve_var ⟨x⟩)) → Sees R (evaluate expr)
  | .Const _, _ | .Bool _, _ | .String _, _ | .RowId _, _ => sees_done _
  | .Column path, _ => sees_column hR path
  | .Var var, h => h var.name List.mem_cons_self
  | .Not inner, h => sees_not (sees_variables hR inner h)
  | .And items, h => sees_and (sees_items hR items h)
  | .Or items, h => sees_or (sees_items hR items h)
  | .Compare _ lhs rhs, h | .Arithmetic _ lhs rhs, h => by
    obtain ⟨hlhs, hrhs⟩ := List.forall_mem_append.1 h
    exact sees_both (sees_variables hR lhs hlhs) (sees_variables hR rhs hrhs)
  | .If cond then_branch else_branch, h => by
    obtain ⟨hbefore, helse⟩ := List.forall_mem_append.1 h
    obtain ⟨hcond, hthen⟩ := List.forall_mem_append.1 hbefore
    exact sees_if (sees_variables hR cond hcond) (sees_variables hR then_branch hthen)
      (sees_variables hR else_branch helse)
  | .Call func args, h => sees_call hR (sees_entries hR args h) func
  | .List items, h => (sees_collect (sees_items hR items h)).and_then fun _ => sees_done _
  | .Map entries, h => sees_map (sees_entries hR entries h)

theorem sees_items (hR : SameWorld R) : ∀ items : List Expr,
    (∀ x ∈ variables_of items, Sees R (resolve_var ⟨x⟩)) →
      ∀ x ∈ evaluate_items (Q := Q) (J := J) items, Sees R x
  | [], _, _, hx => nomatch hx
  | item :: items, h, x, hx => by
    obtain ⟨hitem, hitems⟩ := List.forall_mem_append.1 h
    obtain rfl | hx := List.mem_cons.1 hx
    · exact sees_variables hR item hitem
    · exact sees_items hR items hitems x hx

theorem sees_entries (hR : SameWorld R) : ∀ entries : List (String × Expr),
    (∀ x ∈ entry_variables entries, Sees R (resolve_var ⟨x⟩)) →
      ∀ entry ∈ evaluate_entries (Q := Q) (J := J) entries, Sees R entry.2
  | [], _, _, hentry => nomatch hentry
  | (k, expr) :: entries, h, entry, hentry => by
    obtain ⟨hexpr, hentries⟩ := List.forall_mem_append.1 h
    obtain rfl | hentry := List.mem_cons.1 hentry
    · exact sees_variables hR expr hexpr
    · exact sees_entries hR entries hentries entry hentry

end

/-- The values of an insert, one entry after the other. -/
theorem sees_entry_values (hR : SameWorld R) (evaluated : JsonMap) (values : List (String × Expr))
    (h : ∀ x ∈ entry_variables values, Sees R (resolve_var ⟨x⟩)) :
    Sees R (evaluate_values evaluated values) := by
  induction values generalizing evaluated with
  | nil => exact sees_done _
  | cons entry values ih =>
    obtain ⟨hentry, hvalues⟩ := List.forall_mem_append.1 h
    have hjson : Sees R (evaluate_to_json entry.2) :=
      (sees_variables hR entry.2 hentry).and_then fun _ => sees_done _
    apply hjson.and_then
    intro json_val
    exact ih _ hvalues

end Expressions

/-! ### The journal -/

/-- The same evaluator, whatever has been submitted. -/
def SameButJournal (ev ev' : RuleEvaluator Q J) : Prop := ∃ journal, ev' = { ev with journal }

theorem sameWorld_sameButJournal : SameWorld (SameButJournal (Q := Q) (J := J)) := by
  rintro ev _ ⟨journal, rfl⟩
  exact ⟨journal, ev.vars, rfl⟩

theorem sees_var (var : VarRef) : Sees SameButJournal (resolve_var (Q := Q) (J := J) var) := by
  refine ⟨reads_var var, ?_⟩
  rintro ev _ ⟨journal, rfl⟩
  simp only [resolve_var]
  rcases ev.vars[var.name]? with _ | value <;> rfl

theorem sees_evaluate (expr : Expr) : Sees SameButJournal (evaluate (Q := Q) (J := J) expr) :=
  sees_variables sameWorld_sameButJournal expr fun x _ => sees_var ⟨x⟩

theorem sees_evaluate_to_json (expr : Expr) :
    Sees SameButJournal (evaluate_to_json (Q := Q) (J := J) expr) :=
  (sees_evaluate expr).and_then fun _ => sees_done _

theorem sees_values (evaluated : JsonMap) (values : List (String × Expr)) :
    Sees SameButJournal (evaluate_values (Q := Q) (J := J) evaluated values) :=
  sees_entry_values sameWorld_sameButJournal evaluated values fun x _ => sees_var ⟨x⟩

end RuleEvaluator

/-! ## Leaves -/

/-- An effect that is no sequence. -/
inductive Leaf where
  | UpdateColumn (table column : String) (value : Expr)
  | InsertRow (table : String) (row : RowId) (values : List (String × Expr))
  | SetVariable (name : String) (value : Expr)

mutual

/-- From the left to the right. -/
def Effect.leaves : Effect → List Leaf
  | .UpdateColumn table column value => [.UpdateColumn table column value]
  | .InsertRow table row values => [.InsertRow table row values]
  | .SetVariable name value => [.SetVariable name value]
  | .Sequence effects => leaves_of effects

def leaves_of : List Effect → List Leaf
  | [] => []
  | e :: effects => e.leaves ++ leaves_of effects

end

def Leaf.effect : Leaf → Effect
  | .UpdateColumn table column value => .UpdateColumn table column value
  | .InsertRow table row values => .InsertRow table row values
  | .SetVariable name value => .SetVariable name value

/-- What a leaf does when it does not fail. -/
inductive LeafAct where
  | submits (diff : Diff)
  | binds (name : String) (value : EvalValue)

/-- What leaves come to: the diffs, the bindings after them, and whether one has failed. -/
structure LeafRun where
  diffs : List Diff
  vars : Map String EvalValue
  result : RuleResult Unit

namespace RuleEvaluator

variable {Q J : Type}

/-- A diff goes through the lock of the journal. -/
def submits (ev : RuleEvaluator Q J) (diff : Diff) : RuleResult LeafAct :=
  match ev.journal.read with
  | .error _ => .error (.JournalWrapper "poisoned lock")
  | .ok _ => .ok (.submits diff)

/-- A leaf in an evaluator: what it does, or the error with which it fails. -/
def leaf_act (ev : RuleEvaluator Q J) : Leaf → RuleResult LeafAct
  | .UpdateColumn table column value =>
    (evaluate_to_json value ev).1 >>= fun json_val =>
      ev.submits (.Update table ev.scope.row column json_val)
  | .InsertRow table row values =>
    (evaluate_values ∅ values ev).1 >>= fun evaluated => ev.submits (.Insert table row evaluated)
  | .SetVariable name value => (evaluate value ev).1.map (.binds name)

/-- Each leaf sees the bindings of those before it, and the first that fails is the last. -/
def run_leaves (ev : RuleEvaluator Q J) (vars : Map String EvalValue) : List Leaf → LeafRun
  | [] => { diffs := [], vars, result := .ok () }
  | leaf :: leaves =>
    match leaf_act { ev with vars } leaf with
    | .error e => { diffs := [], vars, result := .error e }
    | .ok (.submits diff) =>
      let run := run_leaves ev vars leaves
      { run with diffs := diff :: run.diffs }
    | .ok (.binds name value) => run_leaves ev (vars.insert name value) leaves

/-- The evaluator with these bindings, once these diffs have been submitted. -/
def written (ev : RuleEvaluator Q J) (vars : Map String EvalValue) (diffs : List Diff) :
    RuleEvaluator Q J :=
  { ev with
    vars
    journal := ev.journal.set
      { ev.journal.data with pending_diffs := ev.journal.data.pending_diffs ++ diffs } }

/-- What a run of leaves leaves behind. -/
def leafOutcome (ev : RuleEvaluator Q J) (diffs : List Diff) (run : LeafRun) :
    RuleResult Unit × RuleEvaluator Q J :=
  (run.result, ev.written run.vars (diffs ++ run.diffs))

theorem written_start (ev : RuleEvaluator Q J) : ev.written ev.vars [] = ev := by
  unfold written
  rw [List.append_nil]
  rfl

/-! ### Lists of leaves -/

/-- A list of leaves cut in two. -/
theorem run_leaves_append (ev : RuleEvaluator Q J) (vars : Map String EvalValue)
    (before after : List Leaf) :
    run_leaves ev vars (before ++ after)
      = match (run_leaves ev vars before).result with
        | .error _ => run_leaves ev vars before
        | .ok () =>
          let run := run_leaves ev (run_leaves ev vars before).vars after
          { run with diffs := (run_leaves ev vars before).diffs ++ run.diffs } := by
  induction before generalizing vars with
  | nil => rfl
  | cons leaf before ih =>
    rw [List.cons_append, run_leaves, run_leaves]
    rcases leaf_act { ev with vars } leaf with e | act
    · rfl
    · cases act with
      | submits diff =>
        rw [ih vars]
        rcases hresult : (run_leaves ev vars before).result with e | u
        · simp only [hresult]
        · rfl
      | binds name value => exact ih (vars.insert name value)

/-- Behind a leaf that goes through, the others run with the bindings it has left. -/
theorem run_leaves_step {ev : RuleEvaluator Q J} {vars : Map String EvalValue} {leaf : Leaf}
    {act : LeafAct} (hact : leaf_act { ev with vars } leaf = .ok act) :
    ∃ vars', ∀ leaves, (run_leaves ev vars (leaf :: leaves)).result = (run_leaves ev vars' leaves).result
      ∧ (run_leaves ev vars (leaf :: leaves)).vars = (run_leaves ev vars' leaves).vars := by
  cases act with
  | submits diff => exact ⟨vars, fun leaves => by simp [run_leaves, hact]⟩
  | binds name value => exact ⟨vars.insert name value, fun leaves => by simp [run_leaves, hact]⟩

/-- A failure is the failure of one leaf, all those before it having gone through. -/
theorem run_leaves_error {ev : RuleEvaluator Q J} {vars : Map String EvalValue}
    {leaves : List Leaf} {e : RuleError} :
    (run_leaves ev vars leaves).result = .error e ↔
      ∃ before leaf after, leaves = before ++ leaf :: after
        ∧ (run_leaves ev vars before).result = .ok ()
        ∧ leaf_act { ev with vars := (run_leaves ev vars before).vars } leaf = .error e := by
  constructor
  · intro h
    induction leaves generalizing vars with
    | nil => cases h
    | cons leaf leaves ih =>
      rcases hact : leaf_act { ev with vars } leaf with e' | act
      · rw [run_leaves, hact] at h
        rw [Except.error.inj h] at hact
        -- no leaf has run before it
        exact ⟨[], leaf, leaves, rfl, rfl, hact⟩
      · obtain ⟨vars', hstep⟩ := run_leaves_step hact
        rw [(hstep leaves).1] at h
        obtain ⟨before, failed, after, rfl, hok, herror⟩ := ih h
        refine ⟨leaf :: before, failed, after, rfl, ?_, ?_⟩
        · rw [(hstep before).1]
          exact hok
        · rw [(hstep before).2]
          exact herror
  · rintro ⟨before, leaf, after, rfl, hok, herror⟩
    rw [run_leaves_append, hok]
    simp only [run_leaves, herror]

/-- After leaves that went through, the rest runs from what they left. -/
theorem leafOutcome_append (ev : RuleEvaluator Q J) (vars : Map String EvalValue)
    (diffs : List Diff) (before after : List Leaf) :
    ev.leafOutcome diffs (run_leaves ev vars (before ++ after))
      = match (run_leaves ev vars before).result with
        | .error _ => ev.leafOutcome diffs (run_leaves ev vars before)
        | .ok () =>
          ev.leafOutcome (diffs ++ (run_leaves ev vars before).diffs)
            (run_leaves ev (run_leaves ev vars before).vars after) := by
  rw [run_leaves_append]
  rcases (run_leaves ev vars before).result with e | u
  · rfl
  · simp only [leafOutcome, List.append_assoc]

/-! ### One leaf -/

section Open

variable {ev : RuleEvaluator Q J} (hopen : ev.journal.data.phase = .Open)
  (vars : Map String EvalValue) (diffs : List Diff)

theorem sameButJournal_written : SameButJournal { ev with vars } (ev.written vars diffs) :=
  ⟨_, rfl⟩

include hopen in
/-- In an open journal a diff is submitted if the lock is healthy. -/
theorem submit_diff_written (diff : Diff) :
    submit_diff diff (ev.written vars diffs)
      = match ({ ev with vars } : RuleEvaluator Q J).submits diff with
        | .error e => (.error e, ev.written vars diffs)
        | .ok _ => (.ok (), ev.written vars (diffs ++ [diff])) := by
  unfold submit_diff submits written RwLock.read
  cases hpoisoned : ev.journal.poisoned
  · simp only [RwLock.poisoned_set, hpoisoned, Bool.false_eq_true, if_false, RwLock.data_set,
      Journal.submit_diff, hopen, ne_eq, not_true_eq_false]
    rw [List.append_assoc]
    rfl
  · simp only [RwLock.poisoned_set, hpoisoned, if_true]

theorem written_value {α : Type} {x : Computation (RuleEvaluator Q J) RuleError α}
    (hx : Sees SameButJournal x) (f : α → Computation (RuleEvaluator Q J) RuleError Unit) :
    and_then x f (ev.written vars diffs)
      = match (x { ev with vars }).1 with
        | .error e => (.error e, ev.written vars diffs)
        | .ok a => f a (ev.written vars diffs) := by
  have hstate := hx.reads (ev.written vars diffs)
  rw [hx.same _ _ (sameButJournal_written vars diffs)]
  unfold ReadOnly.and_then
  rcases hrun : x (ev.written vars diffs) with ⟨e | a, ev'⟩
  · rw [hrun] at hstate
    rw [show ev' = ev.written vars diffs from hstate]
  · rw [hrun] at hstate
    rw [show ev' = ev.written vars diffs from hstate]

include hopen in
/-- A leaf that comes to a diff. -/
theorem submit_leaf {leaf : Leaf} {diff : Diff}
    (hact : leaf_act { ev with vars } leaf = ({ ev with vars } : RuleEvaluator Q J).submits diff) :
    submit_diff diff (ev.written vars diffs) = ev.leafOutcome diffs (run_leaves ev vars [leaf]) := by
  rw [submit_diff_written hopen]
  simp only [run_leaves, hact]
  unfold submits
  rcases hread : ev.journal.read with e | j <;> simp [leafOutcome, written]

include hopen in
/-- What the evaluator does with a leaf is what the leaf comes to. -/
theorem evaluate_leaf (leaf : Leaf) :
    evaluate_effect leaf.effect (ev.written vars diffs)
      = ev.leafOutcome diffs (run_leaves ev vars [leaf]) := by
  cases leaf with
  | UpdateColumn table column value =>
    -- the value is computed first, and nothing is submitted if that fails
    rw [Leaf.effect, evaluate_effect, written_value vars diffs (sees_evaluate_to_json value)]
    rcases hvalue : (evaluate_to_json value { ev with vars }).1 with e | json_val
    · simp [run_leaves, leaf_act, hvalue, leafOutcome, bind, Except.bind]
    · apply submit_leaf hopen vars diffs
      rw [leaf_act, hvalue]
      rfl
  | InsertRow table row values =>
    rw [Leaf.effect, evaluate_effect, written_value vars diffs (sees_values ∅ values)]
    rcases hvalue : (evaluate_values ∅ values { ev with vars }).1 with e | evaluated
    · simp [run_leaves, leaf_act, hvalue, leafOutcome, bind, Except.bind]
    · apply submit_leaf hopen vars diffs
      rw [leaf_act, hvalue]
      rfl
  | SetVariable name value =>
    rw [Leaf.effect, evaluate_effect, written_value vars diffs (sees_evaluate value)]
    simp only [run_leaves, leaf_act]
    rcases (evaluate value { ev with vars }).1 with e | val
    · simp [leafOutcome, Except.map]
    · simp [leafOutcome, Except.map, bind_var, written]

end Open

/-! ### Trees -/

mutual

/-- By induction on the tree. -/
theorem evaluate_effect_written {ev : RuleEvaluator Q J} (hopen : ev.journal.data.phase = .Open)
    (vars : Map String EvalValue) (diffs : List Diff) :
    ∀ effect : Effect, evaluate_effect effect (ev.written vars diffs)
      = ev.leafOutcome diffs (run_leaves ev vars effect.leaves)
  | .UpdateColumn table column value =>
    evaluate_leaf hopen vars diffs (.UpdateColumn table column value)
  | .InsertRow table row values => evaluate_leaf hopen vars diffs (.InsertRow table row values)
  | .SetVariable name value => evaluate_leaf hopen vars diffs (.SetVariable name value)
  | .Sequence effects => evaluate_effects_written hopen vars diffs effects

theorem evaluate_effects_written {ev : RuleEvaluator Q J}
    (hopen : ev.journal.data.phase = .Open) (vars : Map String EvalValue) (diffs : List Diff) :
    ∀ effects : List Effect, evaluate_effects effects (ev.written vars diffs)
      = ev.leafOutcome diffs (run_leaves ev vars (leaves_of effects))
  | [] => by
    simp only [evaluate_effects, leaves_of, run_leaves, leafOutcome, List.append_nil]
    rfl
  | e :: effects => by
    rw [evaluate_effects, leaves_of, leafOutcome_append]
    unfold ReadOnly.and_then
    rw [evaluate_effect_written hopen vars diffs e]
    rcases hresult : (run_leaves ev vars e.leaves).result with error | u
    · simp only [leafOutcome, hresult]
    · simp only [leafOutcome, hresult]
      exact evaluate_effects_written hopen _ _ effects

end

/-- Whatever tree the leaves stand in, an effect submits the diffs of the leaves up to the first
that fails, in order, each leaf evaluated under the bindings of those before it; it fails exactly
if one of them does, with that one's error, and it changes nothing else. -/
theorem effect_runs_as_leaves (ev : RuleEvaluator Q J) (hopen : ev.journal.data.phase = .Open)
    (effect : Effect) :
    let run := run_leaves ev ev.vars effect.leaves
    evaluate_effect effect ev = (run.result,
        { ev with
          vars := run.vars
          journal := ev.journal.set
            { ev.journal.data with
              pending_diffs := ev.journal.data.pending_diffs ++ run.diffs } })
      ∧ (∀ e, (evaluate_effect effect ev).1 = .error e ↔
          ∃ before leaf after, effect.leaves = before ++ leaf :: after
            ∧ (run_leaves ev ev.vars before).result = .ok ()
            ∧ leaf_act { ev with vars := (run_leaves ev ev.vars before).vars } leaf = .error e)
      ∧ ∀ effect' : Effect, effect'.leaves = effect.leaves →
          evaluate_effect effect' ev = evaluate_effect effect ev := by
  have hruns : ∀ effect : Effect,
      evaluate_effect effect ev = ev.leafOutcome [] (run_leaves ev ev.vars effect.leaves) := by
    intro effect
    have h := evaluate_effect_written hopen ev.vars [] effect
    rw [written_start] at h
    exact h
  refine ⟨hruns effect, ?_, ?_⟩
  · intro e
    rw [hruns effect, leafOutcome]
    exact run_leaves_error
  · intro effect' hleaves
    rw [hruns effect', hruns effect, hleaves]

/-- A binding, a diff that reads it in a sequence below, and a variable that nothing binds. -/
def bound_then_unbound : Effect :=
  .Sequence [.SetVariable "x" (.Bool true),
    .Sequence [.UpdateColumn "province" "owned" (.Var ⟨"x"⟩), .Sequence []],
    .UpdateColumn "province" "owned" (.Var ⟨"y"⟩)]

/-- The diff of the second leaf is submitted, the third fails. -/
theorem bound_then_unbound_runs :
    (evaluate_effect bound_then_unbound empty_world).1 = .error (.UnknownVariable "y")
      ∧ (evaluate_effect bound_then_unbound empty_world).2.journal.data.pending_diffs
        = [.Update "province" 0 "owned" (.bool true)] := by
  obtain ⟨hrun, -, -⟩ := effect_runs_as_leaves empty_world rfl bound_then_unbound
  rw [hrun]
  exact ⟨rfl, rfl⟩

end RuleEvaluator

end Scharnhorst
