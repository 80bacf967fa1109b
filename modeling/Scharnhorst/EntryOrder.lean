/-
Evaluation in one order of the hash maps and in another.

Every node keeps two things of the computations that it is put together from: that they only
read, and that their outcomes are the same. So by induction on an expression its evaluation only
reads, and by induction on the way in which two expressions are listings of one, both come to the
same value or fail both. A hash map is walked at two nodes. A call sorts the keys and looks the
arguments up, and so it does not see the order. A map literal does, but what its entries come to
is a map again; only which of several errors is returned depends on the order.

That the keys of a node are distinct is what it means that they are those of a map.
-/
import Scharnhorst.Evaluation
import Scharnhorst.FixedPointArith

set_option autoImplicit false

namespace Scharnhorst

open ReadOnly

namespace RuleEvaluator

variable {Q J : Type}

/-! ## Nodes over computations that agree -/

section Nodes

variable {x y x' y' z z' : Evaluation Q J} {xs ys : List (Evaluation Q J)}

theorem alike_not (h : Alike x y) : Alike (evaluate_not x) (evaluate_not y) := by
  apply h.and_then
  intro value
  apply Reads.alike
  split <;> exact reads_done _

theorem alike_and (h : List.Forall₂ Alike xs ys) :
    Alike (evaluate_and xs) (evaluate_and ys) := by
  induction h with
  | nil => exact (reads_done _).alike
  | cons hxy _ ih =>
    apply hxy.and_then
    intro value
    -- only a `true` goes on
    split
    · exact (reads_done _).alike
    · exact ih
    · exact (reads_done _).alike

theorem alike_or (h : List.Forall₂ Alike xs ys) : Alike (evaluate_or xs) (evaluate_or ys) := by
  induction h with
  | nil => exact (reads_done _).alike
  | cons hxy _ ih =>
    apply hxy.and_then
    intro value
    split
    · exact (reads_done _).alike
    · exact ih
    · exact (reads_done _).alike

/-- `evaluate_compare` and `evaluate_arithmetic`. -/
theorem alike_both {f : EvalValue → EvalValue → RuleResult EvalValue} (hx : Alike x x')
    (hy : Alike y y') :
    Alike (and_then x fun left => and_then y fun right => done (f left right))
      (and_then x' fun left => and_then y' fun right => done (f left right)) := by
  apply hx.and_then
  intro left
  apply hy.and_then
  intro right
  exact (reads_done _).alike

theorem alike_if (hx : Alike x x') (hy : Alike y y') (hz : Alike z z') :
    Alike (evaluate_if x y z) (evaluate_if x' y' z') := by
  apply hx.and_then
  intro cond_val
  split
  · exact hy
  · exact hz
  · exact (reads_done _).alike

theorem alike_list (h : List.Forall₂ Alike xs ys) :
    Alike (evaluate_list xs) (evaluate_list ys) := by
  apply (alike_collect h).and_then
  intro values
  exact (reads_done _).alike

end Nodes

/-! ### Entries -/

section Entries

variable {args args' : List (String × Evaluation Q J)}

/-- Two entries with one key, whose values agree. -/
def AlikeEntry (entry entry' : String × Evaluation Q J) : Prop :=
  entry.1 = entry'.1 ∧ Alike entry.2 entry'.2

theorem keys_eq (h : List.Forall₂ AlikeEntry args args') :
    args.map Prod.fst = args'.map Prod.fst := by
  induction h with
  | nil => rfl
  | cons hentry _ ih => rw [List.map_cons, List.map_cons, hentry.1, ih]

theorem alike_argument (h : List.Forall₂ AlikeEntry args args') (func k : String) :
    Alike (argument func args k) (argument func args' k) := by
  induction h with
  | nil => exact (reads_done _).alike
  | cons hentry htail ih =>
    rename_i entry entry' rest rest'
    obtain ⟨name, expr⟩ := entry
    obtain ⟨name', expr'⟩ := entry'
    obtain ⟨hname, halike⟩ := hentry
    change name = name' at hname
    unfold argument at ih ⊢
    rw [Listed.lookup_cons_if, Listed.lookup_cons_if, ← hname]
    by_cases hk : k = name
    · rw [if_pos hk, if_pos hk]
      exact halike
    · rw [if_neg hk, if_neg hk]
      exact ih

theorem reads_check_arg_count (func : String) (got : Nat) :
    Reads (check_arg_count (Q := Q) (J := J) func got) := by
  intro ev
  unfold check_arg_count
  split
  · rfl
  · split <;> rfl

theorem reads_apply_builtin (func : String) (values : List EvalValue) :
    Reads (apply_builtin (Q := Q) (J := J) func values) := by
  intro ev
  unfold apply_builtin
  split <;> rfl

theorem alike_call (h : List.Forall₂ AlikeEntry args args') (func : String) :
    Alike (evaluate_call func args) (evaluate_call func args') := by
  have hkeys := keys_eq h
  have hsorted : sorted_keys args = sorted_keys args' := by rw [sorted_keys, sorted_keys, hkeys]
  unfold evaluate_call
  rw [h.length_eq, hsorted]
  apply (reads_check_arg_count func _).alike.and_then
  intro _
  -- one key after the other, in the order of the keys
  have hcollect : List.Forall₂ Alike ((sorted_keys args').map (argument func args))
      ((sorted_keys args').map (argument func args')) := by
    rw [List.forall₂_map_left_iff, List.forall₂_map_right_iff, List.forall₂_same]
    intro k _
    exact alike_argument h func k
  apply (alike_collect hcollect).and_then
  intro values
  exact (reads_apply_builtin func values).alike

/-- A call does not see the order of its arguments. -/
theorem evaluate_call_perm (hperm : args.Perm args') (hnodup : (args.map Prod.fst).Nodup)
    (func : String) : evaluate_call func args = evaluate_call func args' := by
  -- distinct keys have one order
  have hsorted : sorted_keys args = sorted_keys args' :=
    sort_by_key_perm (hperm.map Prod.fst) fun _ _ _ _ hkey => hkey
  have hargument : argument func args = argument func args' := by
    funext k
    rw [argument, argument, Listed.lookup_perm hperm hnodup]
  rw [evaluate_call, evaluate_call, hsorted, hargument, hperm.length_eq]

theorem alike_entry {entry entry' : String × Evaluation Q J} (h : AlikeEntry entry entry') :
    Alike (evaluate_entry entry) (evaluate_entry entry') := by
  unfold evaluate_entry
  rw [h.1]
  apply h.2.and_then
  intro v
  exact (reads_done _).alike

theorem alike_map (h : List.Forall₂ AlikeEntry args args') :
    Alike (evaluate_map args) (evaluate_map args') := by
  have hcollect : List.Forall₂ Alike (args.map evaluate_entry) (args'.map evaluate_entry) := by
    rw [List.forall₂_map_left_iff, List.forall₂_map_right_iff]
    exact h.imp fun _ _ => alike_entry
  apply (alike_collect hcollect).and_then
  intro values
  exact (reads_done _).alike

/-- What the entries come to has their keys. -/
theorem keys_of_mapM {ev : RuleEvaluator Q J} {values : List (String × EvalValue)}
    (hreads : ∀ entry ∈ args, Reads entry.2)
    (h : (args.map evaluate_entry).mapM (fun x => (x ev).1) = .ok values) :
    values.map Prod.fst = args.map Prod.fst := by
  induction args generalizing values with
  | nil =>
    cases h
    rfl
  | cons entry args ih =>
    obtain ⟨hentry, hargs⟩ := List.forall_mem_cons.1 hreads
    rw [List.map_cons, List.mapM_cons, bind_eq_ok] at h
    obtain ⟨value, hvalue, h⟩ := h
    obtain ⟨rest, hrest, h⟩ := bind_eq_ok.1 h
    cases h
    change (and_then entry.2 _ ev).1 = _ at hvalue
    rw [hentry.and_then_value] at hvalue
    obtain ⟨v, -, hv⟩ := bind_eq_ok.1 hvalue
    cases hv
    rw [List.map_cons, List.map_cons, ih hargs hrest]

/-- A map literal comes to one map, in whatever order its entries are evaluated. -/
theorem alike_map_perm (hperm : args.Perm args') (hnodup : (args.map Prod.fst).Nodup)
    (hreads : ∀ entry ∈ args, Reads entry.2) :
    Alike (evaluate_map args) (evaluate_map args') := by
  apply alike_collect_perm (hperm.map evaluate_entry)
  · intro x hx
    obtain ⟨entry, hentry, rfl⟩ := List.mem_map.1 hx
    exact (hreads entry hentry).and_then fun v => reads_done _
  · intro ev values values' hvalues hperm'
    apply congrArg Except.ok
    apply collect_map_perm hperm'
    rw [keys_of_mapM hreads hvalues]
    exact hnodup

end Entries

/-! ## Expressions -/

theorem evaluate_entries_eq (entries : List (String × Expr)) :
    evaluate_entries (Q := Q) (J := J) entries = entries.map fun entry => (entry.1, evaluate entry.2) := by
  induction entries with
  | nil => rfl
  | cons entry entries ih => rw [evaluate_entries, ih, List.map_cons]

theorem forall₂_alike {xs : List (Evaluation Q J)} (h : ∀ x ∈ xs, Reads x) :
    List.Forall₂ Alike xs xs :=
  List.forall₂_same.2 fun x hx => (h x hx).alike

theorem forall₂_alikeEntry {args : List (String × Evaluation Q J)}
    (h : ∀ entry ∈ args, Reads entry.2) : List.Forall₂ AlikeEntry args args :=
  List.forall₂_same.2 fun entry hentry => ⟨rfl, (h entry hentry).alike⟩

theorem reads_column (path : ColumnPath) : Reads (evaluate_column (Q := Q) (J := J) path) := by
  intro ev
  unfold evaluate_column
  split <;> rfl

theorem reads_var (var : VarRef) : Reads (resolve_var (Q := Q) (J := J) var) := by
  intro ev
  unfold resolve_var
  split <;> rfl

mutual

/-- By induction on the expression: every node only reads. -/
theorem reads_evaluate : ∀ expr : Expr, Reads (evaluate (Q := Q) (J := J) expr)
  | .Const _ | .Bool _ | .String _ | .RowId _ => reads_done _
  | .Column path => reads_column path
  | .Var var => reads_var var
  | .Not inner => (alike_not (reads_evaluate inner).alike).left
  | .And items => (alike_and (forall₂_alike (reads_items items))).left
  | .Or items => (alike_or (forall₂_alike (reads_items items))).left
  | .Compare _ lhs rhs => (alike_both (reads_evaluate lhs).alike (reads_evaluate rhs).alike).left
  | .Arithmetic _ lhs rhs => (alike_both (reads_evaluate lhs).alike (reads_evaluate rhs).alike).left
  | .If cond then_branch else_branch =>
    (alike_if (reads_evaluate cond).alike (reads_evaluate then_branch).alike
      (reads_evaluate else_branch).alike).left
  | .Call func args => (alike_call (forall₂_alikeEntry (reads_entries args)) func).left
  | .List items => (alike_list (forall₂_alike (reads_items items))).left
  | .Map entries => (alike_map (forall₂_alikeEntry (reads_entries entries))).left

theorem reads_items : ∀ items : List Expr, ∀ x ∈ evaluate_items (Q := Q) (J := J) items, Reads x
  | [], _, hx => nomatch hx
  | item :: items, x, hx => by
    obtain rfl | hx := List.mem_cons.1 hx
    · exact reads_evaluate item
    · exact reads_items items x hx

theorem reads_entries : ∀ entries : List (String × Expr),
    ∀ entry ∈ evaluate_entries (Q := Q) (J := J) entries, Reads entry.2
  | [], _, hentry => nomatch hentry
  | (k, expr) :: entries, entry, hentry => by
    obtain rfl | hentry := List.mem_cons.1 hentry
    · exact reads_evaluate expr
    · exact reads_entries entries entry hentry

end

/-! ### Listings -/

mutual

/-- Two listings of one expression: at every call and map literal the entries of the one are
those of the other in some order. -/
inductive Relisted : Expr → Expr → Prop
  | same (expr : Expr) : Relisted expr expr
  | not {inner inner' : Expr} : Relisted inner inner' → Relisted (.Not inner) (.Not inner')
  | and {items items' : List Expr} : RelistedItems items items' →
      Relisted (.And items) (.And items')
  | or {items items' : List Expr} : RelistedItems items items' → Relisted (.Or items) (.Or items')
  | compare {op : CompareOp} {lhs lhs' rhs rhs' : Expr} : Relisted lhs lhs' → Relisted rhs rhs' →
      Relisted (.Compare op lhs rhs) (.Compare op lhs' rhs')
  | arithmetic {op : ArithmeticOp} {lhs lhs' rhs rhs' : Expr} : Relisted lhs lhs' →
      Relisted rhs rhs' → Relisted (.Arithmetic op lhs rhs) (.Arithmetic op lhs' rhs')
  | if_then_else {cond cond' then_branch then_branch' else_branch else_branch' : Expr} :
      Relisted cond cond' → Relisted then_branch then_branch' →
      Relisted else_branch else_branch' →
      Relisted (.If cond then_branch else_branch) (.If cond' then_branch' else_branch')
  | call {func : String} {args listed args' : List (String × Expr)} :
      (args.map Prod.fst).Nodup → RelistedEntries args listed → listed.Perm args' →
      Relisted (.Call func args) (.Call func args')
  | list {items items' : List Expr} : RelistedItems items items' →
      Relisted (.List items) (.List items')
  | map {entries listed entries' : List (String × Expr)} :
      (entries.map Prod.fst).Nodup → RelistedEntries entries listed → listed.Perm entries' →
      Relisted (.Map entries) (.Map entries')

inductive RelistedItems : List Expr → List Expr → Prop
  | nil : RelistedItems [] []
  | cons {item item' : Expr} {items items' : List Expr} : Relisted item item' →
      RelistedItems items items' → RelistedItems (item :: items) (item' :: items')

/-- The keys stay where they are. -/
inductive RelistedEntries : List (String × Expr) → List (String × Expr) → Prop
  | nil : RelistedEntries [] []
  | cons {k : String} {expr expr' : Expr} {entries entries' : List (String × Expr)} :
      Relisted expr expr' → RelistedEntries entries entries' →
      RelistedEntries ((k, expr) :: entries) ((k, expr') :: entries')

end

theorem evaluate_entries_perm {entries entries' : List (String × Expr)}
    (h : entries.Perm entries') :
    (evaluate_entries (Q := Q) (J := J) entries).Perm (evaluate_entries entries') := by
  rw [evaluate_entries_eq, evaluate_entries_eq]
  exact h.map _

theorem keys_evaluate_entries (entries : List (String × Expr)) :
    (evaluate_entries (Q := Q) (J := J) entries).map Prod.fst = entries.map Prod.fst := by
  rw [evaluate_entries_eq, List.map_map]
  rfl

theorem RelistedEntries.keys_eq {entries entries' : List (String × Expr)} :
    RelistedEntries entries entries' → entries.map Prod.fst = entries'.map Prod.fst
  | .nil => rfl
  | .cons _ htail => congrArg (List.cons _) htail.keys_eq

mutual

/-- By induction on the listing. -/
theorem evaluate_relisted {expr expr' : Expr} :
    Relisted expr expr' → Alike (evaluate (Q := Q) (J := J) expr) (evaluate expr')
  | .same expr => (reads_evaluate expr).alike
  | .not h => alike_not (evaluate_relisted h)
  | .and h => alike_and (evaluate_relisted_items h)
  | .or h => alike_or (evaluate_relisted_items h)
  | .compare hl hr => alike_both (evaluate_relisted hl) (evaluate_relisted hr)
  | .arithmetic hl hr => alike_both (evaluate_relisted hl) (evaluate_relisted hr)
  | .if_then_else hc ht he =>
    alike_if (evaluate_relisted hc) (evaluate_relisted ht) (evaluate_relisted he)
  | .call hnodup h hperm => by
    have halike := evaluate_relisted_entries h
    rw [evaluate, evaluate, ← evaluate_call_perm (evaluate_entries_perm hperm)]
    · exact alike_call halike _
    · rw [keys_evaluate_entries, ← h.keys_eq]
      exact hnodup
  | .list h => alike_list (evaluate_relisted_items h)
  | .map hnodup h hperm => by
    have halike := evaluate_relisted_entries h
    rw [evaluate, evaluate]
    apply (alike_map halike).trans
    apply alike_map_perm (evaluate_entries_perm hperm)
    · rw [keys_evaluate_entries, ← h.keys_eq]
      exact hnodup
    · exact reads_entries _

theorem evaluate_relisted_items {items items' : List Expr} :
    RelistedItems items items' →
      List.Forall₂ Alike (evaluate_items (Q := Q) (J := J) items) (evaluate_items items')
  | .nil => .nil
  | .cons h hs => .cons (evaluate_relisted h) (evaluate_relisted_items hs)

theorem evaluate_relisted_entries {entries entries' : List (String × Expr)} :
    RelistedEntries entries entries' →
      List.Forall₂ AlikeEntry (evaluate_entries (Q := Q) (J := J) entries) (evaluate_entries entries')
  | .nil => .nil
  | .cons h hs => .cons ⟨rfl, evaluate_relisted h⟩ (evaluate_relisted_entries hs)

end

/-! ## Conjunction and disjunction -/

/-- What the item that decides makes of the whole. -/
def verdict : RuleResult EvalValue → RuleResult EvalValue
  | .ok (.Bool b) => .ok (.Bool b)
  | .ok _ => .error (.TypeMismatch "bool" "non-bool")
  | .error e => .error e

/-- From the left to the right: the first item that is not the Boolean `!decides` decides, with
`decides` or an error, and what comes after it is not asked. -/
structure ShortCircuits (decides : Bool) (value : Expr → RuleResult EvalValue)
    (result : List Expr → RuleResult EvalValue) : Prop where
  undecided : ∀ items, (∀ item ∈ items, value item = .ok (.Bool !decides)) →
    result items = .ok (.Bool !decides)
  decided : ∀ before item after, (∀ i ∈ before, value i = .ok (.Bool !decides)) →
    value item ≠ .ok (.Bool !decides) → result (before ++ item :: after) = verdict (value item)

section Items

variable {x : Evaluation Q J} {ev : RuleEvaluator Q J}

theorem evaluate_and_true (hx : Reads x) (xs : List (Evaluation Q J))
    (h : (x ev).1 = .ok (.Bool true)) : (evaluate_and (x :: xs) ev).1 = (evaluate_and xs ev).1 := by
  rw [evaluate_and, hx.and_then_value, h]
  rfl

theorem evaluate_and_decided (hx : Reads x) (xs : List (Evaluation Q J))
    (h : (x ev).1 ≠ .ok (.Bool true)) : (evaluate_and (x :: xs) ev).1 = verdict (x ev).1 := by
  rw [evaluate_and, hx.and_then_value]
  rcases hvalue : (x ev).1 with e | value
  · rfl
  · rcases value with fp | b | s | id | items | entries
    case Bool =>
      rcases b with _ | _
      · rfl
      · exact absurd hvalue h
    all_goals rfl

theorem evaluate_or_false (hx : Reads x) (xs : List (Evaluation Q J))
    (h : (x ev).1 = .ok (.Bool false)) : (evaluate_or (x :: xs) ev).1 = (evaluate_or xs ev).1 := by
  rw [evaluate_or, hx.and_then_value, h]
  rfl

theorem evaluate_or_decided (hx : Reads x) (xs : List (Evaluation Q J))
    (h : (x ev).1 ≠ .ok (.Bool false)) : (evaluate_or (x :: xs) ev).1 = verdict (x ev).1 := by
  rw [evaluate_or, hx.and_then_value]
  rcases hvalue : (x ev).1 with e | value
  · rfl
  · rcases value with fp | b | s | id | items | entries
    case Bool =>
      rcases b with _ | _
      · exact absurd hvalue h
      · rfl
    all_goals rfl

/-- Both loops, by what they do at one item. -/
theorem shortCircuits {decides : Bool} {loop : List (Evaluation Q J) → Evaluation Q J}
    (hnil : (loop [] ev).1 = .ok (.Bool !decides))
    (hnext : ∀ expr items, (evaluate expr ev).1 = .ok (.Bool !decides) →
      (loop (evaluate_items (expr :: items)) ev).1 = (loop (evaluate_items items) ev).1)
    (hdecided : ∀ expr items, (evaluate expr ev).1 ≠ .ok (.Bool !decides) →
      (loop (evaluate_items (expr :: items)) ev).1 = verdict (evaluate expr ev).1) :
    ShortCircuits decides (fun expr => (evaluate expr ev).1)
      fun items => (loop (evaluate_items items) ev).1 where
  undecided := by
    intro items hitems
    induction items with
    | nil => exact hnil
    | cons item items ih =>
      obtain ⟨hitem, hrest⟩ := List.forall_mem_cons.1 hitems
      exact (hnext item items hitem).trans (ih hrest)
  decided := by
    intro before item after hbefore hitem
    induction before with
    | nil => exact hdecided item after hitem
    | cons i before ih =>
      obtain ⟨hi, hrest⟩ := List.forall_mem_cons.1 hbefore
      exact (hnext i _ hi).trans (ih hrest)

theorem and_shortCircuits (ev : RuleEvaluator Q J) :
    ShortCircuits false (fun expr => (evaluate expr ev).1)
      fun items => (evaluate (.And items) ev).1 := by
  apply shortCircuits rfl
  · intro expr items h
    exact evaluate_and_true (reads_evaluate expr) _ h
  · intro expr items h
    exact evaluate_and_decided (reads_evaluate expr) _ h

theorem or_shortCircuits (ev : RuleEvaluator Q J) :
    ShortCircuits true (fun expr => (evaluate expr ev).1)
      fun items => (evaluate (.Or items) ev).1 := by
  apply shortCircuits rfl
  · intro expr items h
    exact evaluate_or_false (reads_evaluate expr) _ h
  · intro expr items h
    exact evaluate_or_decided (reads_evaluate expr) _ h

end Items

/-! ## Everything together -/

/-- Evaluation leaves the evaluator as it is, does not depend on the order in which hash maps list
their entries, and goes through conjunctions and disjunctions up to the item that decides. -/
theorem evaluate_pure (ev : RuleEvaluator Q J) :
    (∀ expr, (evaluate expr ev).2 = ev) ∧
      (∀ expr expr', Relisted expr expr' →
        SameOutcome (evaluate expr ev).1 (evaluate expr' ev).1) ∧
      ShortCircuits false (fun expr => (evaluate expr ev).1)
        (fun items => (evaluate (.And items) ev).1) ∧
      ShortCircuits true (fun expr => (evaluate expr ev).1)
        fun items => (evaluate (.Or items) ev).1 := by
  refine ⟨?_, ?_, and_shortCircuits ev, or_shortCircuits ev⟩
  · intro expr
    exact reads_evaluate expr ev
  · intro expr expr' h
    exact (evaluate_relisted h).same ev

/-- An evaluator at the row 0 of an empty world. -/
def empty_world : RuleEvaluator Unit Unit :=
  .new (.new (.new .new)) (.new (.new .new)) "province" 0

/-- A map with its two entries swapped, and a conjunction whose second item decides before a
variable that is not bound. -/
theorem swapped_and_decided :
    SameOutcome
        (evaluate (.Map [("a", .Bool true), ("b", .RowId 1)]) empty_world).1
        (evaluate (.Map [("b", .RowId 1), ("a", .Bool true)]) empty_world).1 ∧
      (evaluate (.And [.Bool true, .Bool false, .Var ⟨"x"⟩]) empty_world).1 = .ok (.Bool false) := by
  obtain ⟨-, hlisted, hand, -⟩ := evaluate_pure empty_world
  constructor
  · apply hlisted
    exact .map (by decide) (.cons (.same _) (.cons (.same _) .nil)) (.swap _ _ _)
  · apply hand.decided [.Bool true] (.Bool false) [.Var ⟨"x"⟩]
    · intro item hitem
      rw [List.mem_singleton.1 hitem]
      rfl
    · intro h
      cases h

end RuleEvaluator

/-! ## Unchecked arithmetic

`rescale` computes a remainder without looking for overflow, and a modifier rescales. A panic is
no result, so none may be counted as an error above. -/

section Panics

variable {α β : Type}

theorem bind_ne_error {ε : Type} {bad : ε} {r : Except ε α} {f : α → Except ε β}
    (hr : r ≠ .error bad) (hf : ∀ a, f a ≠ .error bad) : (r >>= f) ≠ .error bad := by
  rcases r with e | a
  · intro h
    cases h
    exact hr rfl
  · exact hf a

theorem ok_or_ne_panic {e : CoreError} (he : e ≠ .Panic) (o : Option α) :
    ok_or e o ≠ .error .Panic := by
  rcases o with _ | a
  · intro h
    cases h
    exact he rfl
  · intro h
    cases h

theorem core_ne_panic {r : CoreResult α} (hr : r ≠ .error .Panic) :
    r.mapError RuleError.Core ≠ .error (.Core .Panic) := by
  rcases r with e | a
  · intro h
    cases h
    exact hr rfl
  · intro h
    cases h

namespace FixedPoint

theorem ensure_same_scale_ne_panic (a b : FixedPoint) :
    ensure_same_scale a b ≠ .error .Panic := by
  unfold ensure_same_scale
  split <;> intro h <;> cases h

theorem add_ne_panic (a b : FixedPoint) : a.add b ≠ .error .Panic := by
  apply bind_ne_error (ensure_same_scale_ne_panic a b)
  intro _
  apply bind_ne_error (ok_or_ne_panic (by decide) _)
  intro raw h
  cases h

theorem mul_ne_panic (a b : FixedPoint) : a.mul b ≠ .error .Panic := by
  apply bind_ne_error (ensure_same_scale_ne_panic a b)
  intro _
  apply bind_ne_error (ok_or_ne_panic (by decide) _)
  intro product
  apply bind_ne_error (ok_or_ne_panic (by decide) _)
  intro factor
  apply bind_ne_error (ok_or_ne_panic (by decide) _)
  intro raw h
  cases h

end FixedPoint

theorem Modifier.apply_ne_panic (m : Modifier) (base : FixedPoint) :
    m.apply base ≠ .error (.Core .Panic) := by
  unfold Modifier.apply
  split
  · apply bind_ne_error (core_ne_panic (FixedPoint.rescale_ne_panic _ _))
    intro value
    exact core_ne_panic (FixedPoint.add_ne_panic base value)
  · apply bind_ne_error (core_ne_panic (FixedPoint.rescale_ne_panic _ _))
    intro value
    exact core_ne_panic (FixedPoint.mul_ne_panic base value)
  · intro h
    cases h

theorem foldlM_ne_panic (mods : List Modifier) (base : FixedPoint) :
    mods.foldlM (fun acc m => m.apply acc) base ≠ .error (.Core .Panic) := by
  induction mods generalizing base with
  | nil =>
    intro h
    cases h
  | cons m mods ih =>
    rw [List.foldlM_cons]
    exact bind_ne_error (m.apply_ne_panic base) ih

/-- Whatever modifiers a column has, none of them panics. -/
theorem ModifierRegistry.aggregate_ne_panic (self : ModifierRegistry) (table column : String)
    (base : FixedPoint) : self.aggregate table column base ≠ .error (.Core .Panic) := by
  apply bind_ne_error (foldlM_ne_panic _ base)
  intro after_add
  apply bind_ne_error (foldlM_ne_panic _ after_add)
  intro after_mul
  split
  · intro h
    cases h
  · exact Modifier.apply_ne_panic _ _

end Panics

end Scharnhorst
