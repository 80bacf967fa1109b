/-
Proofs about rules.

An effect reads the engine, which does not change while it runs, and the variables. What it writes
is handed to the journal and not seen by the leaves behind it. So an assertion is about the
variables and about the world as it will be once what has been handed in is committed; a leaf that
writes puts its diff into that world, and a leaf that binds puts its value into the variables. These
rules prove of an effect what is true of its runs, and no less.

The conditions are those of runs that go through. A leaf that fails ends the run, and what was
handed in before it is cleared by the caller.
-/
import Scharnhorst.RuleOrder
import Scharnhorst.Triples

set_option autoImplicit false

namespace Scharnhorst

open Addressing Attempt ReadOnly Triples

/-- What is said of the variables and of the world once everything handed in is committed. -/
abbrev Assertion := Map String EvalValue → World → Prop

namespace RuleEvaluator

section Logic

variable [Render] {Q J : Type}

/-! ## The rules -/

section Rules

variable (cat : Catalog) (ev : RuleEvaluator Q J)

/-- The rules for this evaluator's scope and engine, the ones for the leaves from the back. -/
inductive Provable : Assertion → Effect → Assertion → Prop
  | update (table column : String) (value : Expr) (R : Assertion) :
      Provable
        (fun vars w => ∀ json, (evaluate_to_json value { ev with vars }).1 = .ok json →
          R vars (world_step cat w (.Update table ev.scope.row column json)))
        (.UpdateColumn table column value) R
  | insert (table : String) (row : RowId) (values : List (String × Expr)) (R : Assertion) :
      Provable
        (fun vars w => ∀ evaluated, (evaluate_values ∅ values { ev with vars }).1 = .ok evaluated →
          R vars (world_step cat w (.Insert table row evaluated)))
        (.InsertRow table row values) R
  | set (name : String) (value : Expr) (R : Assertion) :
      Provable
        (fun vars w => ∀ v, (evaluate value { ev with vars }).1 = .ok v → R (vars.insert name v) w)
        (.SetVariable name value) R
  | nil (P : Assertion) : Provable P (.Sequence []) P
  | cons {P R S : Assertion} {effect : Effect} {effects : List Effect}
      (first : Provable P effect R) (rest : Provable R (.Sequence effects) S) :
      Provable P (.Sequence (effect :: effects)) S
  | weaken {P P' R R' : Assertion} {effect : Effect} (pre : ∀ vars w, P' vars w → P vars w)
      (proof : Provable P effect R) (post : ∀ vars w, R vars w → R' vars w) :
      Provable P' effect R'

/-- The evaluator on its way, from a world: what it has handed in leads to an assertion. -/
def Reached (w : World) (P : Assertion) (ev' : RuleEvaluator Q J) : Prop :=
  ∃ vars diffs, ev' = ev.written vars diffs ∧ P vars (diffs.foldl (world_step cat) w)

/-- A run that goes through leads from the one assertion to the other. -/
def Valid (P : Assertion) (effect : Effect) (R : Assertion) : Prop :=
  ∀ w, Triple (Reached cat ev w P) (evaluate_effect effect) (fun _ => Reached cat ev w R)
    fun _ _ => True

end Rules

variable {cat : Catalog} {ev : RuleEvaluator Q J} {P R : Assertion} {effect : Effect}

/-! ## Soundness -/

omit [Render] in
theorem leaves_effect (leaf : Leaf) : leaf.effect.leaves = [leaf] := by
  cases leaf <;> rfl

omit [Render] in
/-- A leaf that goes through. -/
theorem evaluate_leaf_ok (hopen : ev.journal.data.phase = .Open) {vars : Map String EvalValue}
    {diffs : List Diff} {leaf : Leaf} {u : Unit} {ev' : RuleEvaluator Q J}
    (h : evaluate_effect leaf.effect (ev.written vars diffs) = (.ok u, ev')) :
    ∃ act, leaf_act { ev with vars } leaf = .ok act
      ∧ ev' = ev.written (after_act vars act) (diffs ++ handed act) := by
  rw [evaluate_effect_written hopen, leaves_effect] at h
  obtain ⟨hresult, hstate⟩ := Prod.mk.inj h
  obtain ⟨act, hact, -⟩ := run_leaves_cons_ok hresult
  rw [run_leaves_cons hact] at hstate
  refine ⟨act, hact, ?_⟩
  rw [← hstate]
  simp [run_leaves]

/-- What a leaf needs before it. -/
def leaf_pre (cat : Catalog) (ev : RuleEvaluator Q J) (leaf : Leaf) (R : Assertion) : Assertion :=
  fun vars w => ∀ act, leaf_act { ev with vars } leaf = .ok act →
    R (after_act vars act) ((handed act).foldl (world_step cat) w)

theorem valid_leaf (hopen : ev.journal.data.phase = .Open) (leaf : Leaf) (R : Assertion) :
    Valid cat ev (leaf_pre cat ev leaf R) leaf.effect R := by
  intro w
  refine ⟨?_, fun _ _ _ _ _ => trivial⟩
  rintro _ u ev' ⟨vars, diffs, rfl, hpre⟩ hrun
  obtain ⟨act, hact, rfl⟩ := evaluate_leaf_ok hopen hrun
  refine ⟨_, _, rfl, ?_⟩
  rw [List.foldl_append]
  exact hpre act hact

theorem Valid.weaken {P' R' : Assertion} (h : Valid cat ev P effect R)
    (pre : ∀ vars w, P' vars w → P vars w) (post : ∀ vars w, R vars w → R' vars w) :
    Valid cat ev P' effect R' := by
  have hreached : ∀ {A B : Assertion}, (∀ vars w, A vars w → B vars w) → ∀ w ev',
      Reached cat ev w A ev' → Reached cat ev w B ev' := by
    rintro A B hAB w ev' ⟨vars, diffs, hsame, hA⟩
    exact ⟨vars, diffs, hsame, hAB _ _ hA⟩
  exact fun w => (h w).weaken (hreached pre w) (fun _ => hreached post w) fun _ _ h => h

/-- By induction on the proof. -/
theorem Provable.sound (hopen : ev.journal.data.phase = .Open) (h : Provable cat ev P effect R) :
    Valid cat ev P effect R := by
  -- what a leaf of the one or the other kind needs
  have hsubmits : ∀ {d : Diff} {act : LeafAct}, ∀ vars,
      ({ ev with vars } : RuleEvaluator Q J).submits d = .ok act → act = .submits d := by
    intro d act vars h
    unfold submits at h
    split at h
    · cases h
    · exact (Except.ok.inj h).symm
  induction h with
  | update table column value R =>
    refine (valid_leaf hopen (.UpdateColumn table column value) R).weaken ?_ fun _ _ h => h
    intro vars w hpre act hact
    obtain ⟨json, hjson, hsubmit⟩ := bind_eq_ok.1 hact
    rw [hsubmits vars hsubmit]
    exact hpre json hjson
  | insert table row values R =>
    refine (valid_leaf hopen (.InsertRow table row values) R).weaken ?_ fun _ _ h => h
    intro vars w hpre act hact
    obtain ⟨evaluated, hevaluated, hsubmit⟩ := bind_eq_ok.1 hact
    rw [hsubmits vars hsubmit]
    exact hpre evaluated hevaluated
  | set name value R =>
    refine (valid_leaf hopen (.SetVariable name value) R).weaken ?_ fun _ _ h => h
    intro vars w hpre act hact
    have hmap : (evaluate value { ev with vars }).1.map (.binds name) = .ok act := hact
    rcases hvalue : (evaluate value { ev with vars }).1 with e | v
    · rw [hvalue] at hmap
      cases hmap
    · rw [hvalue] at hmap
      rw [← Except.ok.inj hmap]
      exact hpre v hvalue
  | nil P =>
    intro w
    exact triple_value fun _ h => h
  | cons _ _ hfirst hrest =>
    intro w
    exact (hfirst w).and_then fun _ => hrest w
  | weaken pre _ post ih => exact ih.weaken pre post

/-! ## Completeness -/

/-- The weakest assertion before a run: whatever comes of it is what is wanted. -/
def weakest (cat : Catalog) (ev : RuleEvaluator Q J) (leaves : List Leaf) (R : Assertion) : Assertion :=
  fun vars w => (run_leaves ev vars leaves).result = .ok () →
    R (run_leaves ev vars leaves).vars ((run_leaves ev vars leaves).diffs.foldl (world_step cat) w)

theorem weakest_leaf {leaf : Leaf} (act : LeafAct) {vars : Map String EvalValue} {w : World}
    (h : weakest cat ev [leaf] R vars w) (hact : leaf_act { ev with vars } leaf = .ok act) :
    R (after_act vars act) ((handed act).foldl (world_step cat) w) := by
  unfold weakest at h
  rw [run_leaves_cons hact] at h
  simpa [run_leaves] using h

/-- What is weakest before two lists of leaves is so before the first one for the second. -/
theorem weakest_append {before after : List Leaf} {vars : Map String EvalValue} {w : World}
    (h : weakest cat ev (before ++ after) R vars w) :
    weakest cat ev before (weakest cat ev after R) vars w := by
  intro hbefore hafter
  unfold weakest at h
  simp only [run_leaves_append, hbefore, hafter, List.foldl_append, forall_const] at h
  exact h

mutual

/-- By induction on the tree. -/
theorem provable_weakest (hhealthy : ev.journal.poisoned = false) :
    ∀ (effect : Effect) (R : Assertion), Provable cat ev (weakest cat ev effect.leaves R) effect R
  | .UpdateColumn table column value, R => by
    refine (Provable.update table column value R).weaken ?_ fun _ _ h => h
    intro vars w hpre json hjson
    refine weakest_leaf (.submits (.Update table ev.scope.row column json)) hpre ?_
    simp only [leaf_act, hjson, submits, RwLock.read, hhealthy, Bool.false_eq_true, if_false]
    rfl
  | .InsertRow table row values, R => by
    refine (Provable.insert table row values R).weaken ?_ fun _ _ h => h
    intro vars w hpre evaluated hevaluated
    refine weakest_leaf (.submits (.Insert table row evaluated)) hpre ?_
    simp only [leaf_act, hevaluated, submits, RwLock.read, hhealthy, Bool.false_eq_true, if_false]
    rfl
  | .SetVariable name value, R => by
    refine (Provable.set name value R).weaken ?_ fun _ _ h => h
    intro vars w hpre v hvalue
    refine weakest_leaf (.binds name v) hpre ?_
    simp only [leaf_act, hvalue, Except.map]
  | .Sequence effects, R => provable_weakest_all hhealthy effects R

theorem provable_weakest_all (hhealthy : ev.journal.poisoned = false) :
    ∀ (effects : List Effect) (R : Assertion),
      Provable cat ev (weakest cat ev (leaves_of effects) R) (.Sequence effects) R
  | [], R => (Provable.nil R).weaken (fun _ _ h => h rfl) fun _ _ h => h
  | effect :: effects, R =>
    ((provable_weakest hhealthy effect (weakest cat ev (leaves_of effects) R)).cons
      (provable_weakest_all hhealthy effects R)).weaken (fun _ _ h => weakest_append h)
        fun _ _ h => h

end

omit [Render] in
/-- An evaluator is reached in one way. -/
theorem written_inj {vars vars' : Map String EvalValue} {diffs diffs' : List Diff}
    (h : ev.written vars diffs = ev.written vars' diffs') : vars = vars' ∧ diffs = diffs' := by
  refine ⟨congrArg RuleEvaluator.vars h, ?_⟩
  have hpending := congrArg (fun ev => ev.journal.data.pending_diffs) h
  exact List.append_cancel_left hpending

theorem Valid.provable (hopen : ev.journal.data.phase = .Open)
    (hhealthy : ev.journal.poisoned = false) (h : Valid cat ev P effect R) :
    Provable cat ev P effect R := by
  refine (provable_weakest hhealthy effect R).weaken (fun vars w hP hok => ?_) fun _ _ h => h
  have hrun := evaluate_effect_written hopen vars [] effect
  rw [leafOutcome, hok, List.nil_append] at hrun
  obtain ⟨vars', diffs', hsame, hR⟩ := (h w).ok _ _ _ ⟨vars, [], rfl, hP⟩ hrun
  obtain ⟨rfl, rfl⟩ := written_inj hsame
  exact hR

/-! ## What is committed -/

section Commits

variable {ingestor : SnapshotIngestor Q} {saver : SaveJournal J}

variable (ingestor saver) in
/-- The rules prove what is true of the runs, and nothing else. If the effect of a proof goes
through between two commits, and the commit of what it has handed in does, the tables show a world
of which the conclusion holds. -/
theorem rule_proofs_exact (ev : RuleEvaluator Q J) (hopen : ev.journal.data.phase = .Open)
    (hhealthy : ev.journal.poisoned = false) (P : Assertion) (effect : Effect) (R : Assertion) :
    (Provable cat ev P effect R ↔ Valid cat ev P effect R)
      ∧ (Provable cat ev P effect R → ∀ (count : Nat) (w : World),
        ev.journal.data.Between cat count w → P ev.vars w →
        ∀ ev', evaluate_effect effect ev = (.ok (), ev') →
        ∀ result j, ev'.journal.data.commit ingestor saver = (.ok result, j) →
        FreshCommit ev.journal.data.arrow_store
          (ev.journal.data.current_tick, ev'.journal.data.pending_diffs) →
        ∃ w', R ev'.vars w' ∧ ∀ (n : String) (lock : RwLock VersionedTable),
          j.arrow_store.tables[n]? = some lock → ShowsRows lock.data (w' n)) := by
  refine ⟨⟨Provable.sound hopen, Valid.provable hopen hhealthy⟩, ?_⟩
  intro hproof count w hbetween hP ev' hok result j hcommit hfresh
  have hstart : Reached cat ev w P ev := ⟨ev.vars, [], ev.written_start.symm, hP⟩
  obtain ⟨vars, diffs, rfl, hR⟩ := (hproof.sound hopen w).ok _ _ _ hstart hok
  refine ⟨diffs.foldl (world_step cat) w, hR, fun n lock hn => ?_⟩
  have hjournal : (ev.written vars diffs).journal.data
      = { ev.journal.data with pending_diffs := diffs } := by
    simp only [written, RwLock.data_set, hbetween.pending, List.nil_append]
  rw [hjournal] at hcommit hfresh
  have hafter := hbetween.commit hfresh hcommit
  exact (hafter.holds n lock hn).shows (hafter.shaped.tidy n lock hn).2

/-! ## Invariants of rules -/

/-- Rules are run on a journal, each by an evaluator of its own, and what they hand in is committed.
A rule that fails has the caller clear what is pending. A commit that is reached goes through. -/
inductive RuleTicks (ingestor : SnapshotIngestor Q) (saver : SaveJournal J)
    (rules : RuleEvaluator Q J → Effect → Prop) (start : Journal Q J) : Journal Q J → Prop
  | start : RuleTicks ingestor saver rules start start
  | rule {ev ev' : RuleEvaluator Q J} {effect : Effect}
      (run : RuleTicks ingestor saver rules start ev.journal.data) (hrule : rules ev effect)
      (hok : evaluate_effect effect ev = (.ok (), ev')) :
    RuleTicks ingestor saver rules start ev'.journal.data
  | fails {ev ev' : RuleEvaluator Q J} {effect : Effect} {e : RuleError}
      (run : RuleTicks ingestor saver rules start ev.journal.data) (hrule : rules ev effect)
      (herror : evaluate_effect effect ev = (.error e, ev')) :
    RuleTicks ingestor saver rules start ev'.journal.data.clear_pending.2
  | commits {j j' : Journal Q J} {result : CommitResult}
      (run : RuleTicks ingestor saver rules start j)
      (hok : j.commit ingestor saver = (.ok result, j'))
      (hfresh : FreshCommit j.arrow_store (j.current_tick, j.pending_diffs)) :
    RuleTicks ingestor saver rules start j'

/-- The tables show a world of which the invariant holds, and it holds of the next one, too. -/
def Keeps (cat : Catalog) (I : World → Prop) (j : Journal Q J) : Prop :=
  ∃ count w, { j with pending_diffs := [] }.Between cat count w ∧ I w
    ∧ I (j.pending_diffs.foldl (world_step cat) w)

theorem Keeps.rule {I : World → Prop} (h : Keeps cat I ev.journal.data)
    (hproof : Provable cat ev (fun _ w => I w) effect fun _ w => I w) {ev' : RuleEvaluator Q J}
    (hok : evaluate_effect effect ev = (.ok (), ev')) : Keeps cat I ev'.journal.data := by
  obtain ⟨count, w, hbetween, hI, hnext⟩ := h
  have hopen : ev.journal.data.phase = .Open := hbetween.phase
  have hstart : Reached cat ev (ev.journal.data.pending_diffs.foldl (world_step cat) w)
      (fun _ w => I w) ev := ⟨ev.vars, [], ev.written_start.symm, hnext⟩
  obtain ⟨vars, diffs, rfl, hafter⟩ := (hproof.sound hopen _).ok _ _ _ hstart hok
  refine ⟨count, w, hbetween, hI, ?_⟩
  simp only [written, RwLock.data_set, List.foldl_append]
  exact hafter

theorem Keeps.cleared {I : World → Prop} (h : Keeps cat I ev.journal.data) {e : RuleError}
    {ev' : RuleEvaluator Q J} (herror : evaluate_effect effect ev = (.error e, ev')) :
    Keeps cat I ev'.journal.data.clear_pending.2 := by
  obtain ⟨count, w, hbetween, hI, -⟩ := h
  have hopen : ev.journal.data.phase = .Open := hbetween.phase
  have hrun := evaluate_effect_written hopen ev.vars [] effect
  rw [written_start, herror] at hrun
  obtain ⟨-, hwritten⟩ := Prod.mk.inj hrun
  have hphase : ev'.journal.data.phase = .Open := by
    rw [hwritten]
    exact hopen
  have hclear : ∀ j : Journal Q J, j.phase = .Open →
      j.clear_pending.2 = { j with pending_commands := [], pending_diffs := [] } := by
    intro j hj
    rw [Journal.clear_pending, if_neg (not_not.2 hj)]
  rw [hclear _ hphase, hwritten]
  refine ⟨count, w, ?_, hI, hI⟩
  exact ⟨hbetween.phase, rfl, hbetween.current_tick, hbetween.shaped, hbetween.holds⟩

theorem Keeps.commit {I : World → Prop} {j j' : Journal Q J} {result : CommitResult}
    (h : Keeps cat I j) (hok : j.commit ingestor saver = (.ok result, j'))
    (hfresh : FreshCommit j.arrow_store (j.current_tick, j.pending_diffs)) : Keeps cat I j' := by
  obtain ⟨count, w, hbetween, -, hnext⟩ := h
  have hafter := hbetween.commit hfresh hok
  have hempty : j'.pending_diffs = [] := hafter.pending
  refine ⟨count + 1, _, ?_, hnext, ?_⟩
  · rw [← hempty]
    exact hafter
  · rw [hempty]
    exact hnext

/-- An invariant of the world that every rule is proved to keep, wherever its scope stands and
whatever its variables and its engine are, is never broken: after any run of rules and commits the
tables show a world of which it holds. -/
theorem rules_keep_invariant {rules : RuleEvaluator Q J → Effect → Prop} {I : World → Prop}
    {start j : Journal Q J} {count : Nat} {w : World} (hstart : start.Between cat count w) (hI : I w)
    (hproofs : ∀ ev effect, rules ev effect →
      Provable cat ev (fun _ w => I w) effect fun _ w => I w)
    (run : RuleTicks ingestor saver rules start j) :
    ∃ w', I w' ∧ ∀ (n : String) (lock : RwLock VersionedTable),
      j.arrow_store.tables[n]? = some lock → ShowsRows lock.data (w' n) := by
  have hkeeps : Keeps cat I j := by
    induction run with
    | start =>
        refine ⟨count, w, ?_, hI, ?_⟩
        · rw [← hstart.pending]
          exact hstart
        · rw [hstart.pending]
          exact hI
    | rule run hrule hok ih => exact ih.rule (hproofs _ _ hrule) hok
    | fails run hrule herror ih => exact ih.cleared herror
    | commits run hok hfresh ih => exact ih.commit hok hfresh
  obtain ⟨count', w', hbetween, hholds, -⟩ := hkeeps
  exact ⟨w', hholds, fun n lock hn =>
    (hbetween.holds n lock hn).shows (hbetween.shaped.tidy n lock hn).2⟩

end Commits

end Logic

/-! ## The stockroom again -/

section Stockroom

attribute [local instance] plain_text QueryEngine.no_merge

/-- There is no seventh item. -/
def NoSeventh (w : World) : Prop := w "items" 7 = none

/-- Items are put in, and the quantity of the scope's is set. -/
def stock (ids : List RowId) (qty : Expr) : Effect :=
  .Sequence (.SetVariable "n" qty
    :: (ids.map (fun id => insert_item id (.Var ⟨"n"⟩)) ++ [.UpdateColumn "items" "qty" qty]))

/-- None of the items is the seventh. -/
def stocking (_ : RuleEvaluator QueryEngine (List CommitRecord)) (effect : Effect) : Prop :=
  ∃ (ids : List RowId) (qty : Expr), 7 ∉ ids ∧ effect = stock ids qty

theorem stocking_keeps (cat : Catalog) (ev : RuleEvaluator QueryEngine (List CommitRecord))
    (effect : Effect) (h : stocking ev effect) :
    Provable cat ev (fun _ w => NoSeventh w) effect fun _ w => NoSeventh w := by
  obtain ⟨ids, qty, hids, rfl⟩ := h
  let keeps : Assertion := fun _ w => NoSeventh w
  have hset : Provable cat ev keeps (.SetVariable "n" qty) keeps :=
    (Provable.set "n" qty keeps).weaken (fun _ _ h _ _ => h) fun _ _ h => h
  have hinsert : ∀ id, id ≠ 7 → Provable cat ev keeps (insert_item id (.Var ⟨"n"⟩)) keeps := by
    intro id hid
    refine (Provable.insert "items" id _ keeps).weaken (fun vars w h evaluated _ => ?_)
      fun _ _ h => h
    have hother : KeyedTable.insert (w "items") id (json_row evaluated (cat "items").1) 7
        = w "items" 7 := if_neg hid
    exact (congrFun (Function.update_self ..) 7).trans (hother.trans h)
  have hupdate : Provable cat ev keeps (.UpdateColumn "items" "qty" qty) keeps := by
    refine (Provable.update "items" "qty" qty keeps).weaken (fun vars w h json _ => ?_)
      fun _ _ h => h
    refine (congrFun (Function.update_self ..) 7).trans ?_
    change KeyedTable.modify (w "items") ev.scope.row _ 7 = none
    -- an update of a row that is not there puts none in
    rw [KeyedTable.modify, show w "items" 7 = none from h, Option.map_none, ite_self]
  refine hset.cons ?_
  induction ids with
  | nil => exact hupdate.cons (.nil keeps)
  | cons id ids ih =>
    rw [List.mem_cons, not_or] at hids
    exact (hinsert id (Ne.symm hids.1)).cons (ih hids.2)

theorem items_commit_ok {j : Journal QueryEngine (List CommitRecord)}
    (h : (Journal.items_commit j).1.toOption.isSome = true) :
    ∃ result, Journal.items_commit j = (.ok result, (Journal.items_commit j).2) := by
  rcases hcommit : Journal.items_commit j with ⟨e | result, j'⟩
  · rw [hcommit] at h
    cases h
  · exact ⟨result, rfl⟩

/-- Two items, in a stockroom that has none. -/
theorem two_stocked :
    let after := evaluate_effect (stock [1, 2] (.RowId 10)) stockroom
    ∃ w : World, NoSeventh w
      ∧ ShowsRows (items_table (Journal.items_commit after.2.journal.data).2.arrow_store)
        (w "items") := by
  intro after
  have hok : after.1 = .ok () := by rfl
  obtain ⟨result, hcommit⟩ := @items_commit_ok after.2.journal.data (by decide +kernel)
  have hproof := stocking_keeps items_store.catalog stockroom (stock [1, 2] (.RowId 10))
    ⟨[1, 2], .RowId 10, by decide, rfl⟩
  obtain ⟨-, hcommits⟩ := rule_proofs_exact QueryEngine.ingestor InMemorySaveJournal stockroom rfl rfl
    (fun _ w => NoSeventh w) (stock [1, 2] (.RowId 10)) fun _ w => NoSeventh w
  obtain ⟨w, hholds, hshows⟩ := hcommits hproof 0 _ (Journal.started_new items_store_created).between
    rfl after.2 (eq_of_verdict hok) result _ hcommit (by decide +kernel)
  have htable : (Journal.items_commit after.2.journal.data).2.arrow_store.tables["items"]?.isSome := by
    decide +kernel
  exact ⟨w, hholds, hshows "items" _ (items_table_eq htable)⟩

/-- The stockroom with this journal, in the row of an item. -/
def stockroom_of (j : Journal QueryEngine (List CommitRecord)) (row : RowId) :
    RuleEvaluator QueryEngine (List CommitRecord) :=
  .new (.new (.new .new)) (.new j) "items" row

/-- With two items put in. -/
def items_handed : Journal QueryEngine (List CommitRecord) :=
  (evaluate_effect (stock [1, 2] (.RowId 10)) stockroom).2.journal.data

def next_stockroom : RuleEvaluator QueryEngine (List CommitRecord) :=
  stockroom_of (Journal.items_commit items_handed).2 2

/-- After they have been committed a rule fails. -/
def items_failed : Journal QueryEngine (List CommitRecord) :=
  (evaluate_effect (stock [3] (.Var ⟨"none"⟩)) next_stockroom).2.journal.data.clear_pending.2

/-- With the quantity of the second item set. -/
def qty_handed : Journal QueryEngine (List CommitRecord) :=
  (evaluate_effect (stock [] (.RowId 20)) (stockroom_of items_failed 2)).2.journal.data

theorem stocking_run : RuleTicks QueryEngine.ingestor InMemorySaveJournal stocking
    (Journal.items_journal items_store []) (Journal.items_commit qty_handed).2 := by
  have hstock : ∀ ids qty ev, 7 ∉ ids → stocking ev (stock ids qty) := fun ids qty _ h =>
    ⟨ids, qty, h, rfl⟩
  obtain ⟨result, hcommit⟩ := @items_commit_ok items_handed (by decide +kernel)
  obtain ⟨result', hcommit'⟩ := @items_commit_ok qty_handed (by decide +kernel)
  have hfirst : (evaluate_effect (stock [1, 2] (.RowId 10)) stockroom).1 = .ok () := by rfl
  have hfailed : (evaluate_effect (stock [3] (.Var ⟨"none"⟩)) next_stockroom).1
      = .error (.UnknownVariable "none") := by rfl
  have hsecond : (evaluate_effect (stock [] (.RowId 20)) (stockroom_of items_failed 2)).1 = .ok () := by
    rfl
  have run : RuleTicks QueryEngine.ingestor InMemorySaveJournal stocking
      (Journal.items_journal items_store []) stockroom.journal.data := .start
  have run₁ : RuleTicks QueryEngine.ingestor InMemorySaveJournal stocking
      (Journal.items_journal items_store []) items_handed :=
    run.rule (hstock [1, 2] (.RowId 10) stockroom (by decide)) (eq_of_verdict hfirst)
  have run₂ : RuleTicks QueryEngine.ingestor InMemorySaveJournal stocking
      (Journal.items_journal items_store []) next_stockroom.journal.data :=
    run₁.commits hcommit (by decide +kernel)
  have run₃ : RuleTicks QueryEngine.ingestor InMemorySaveJournal stocking
      (Journal.items_journal items_store []) (stockroom_of items_failed 2).journal.data :=
    run₂.fails (hstock [3] (.Var ⟨"none"⟩) next_stockroom (by decide)) (Prod.ext hfailed rfl)
  have run₄ : RuleTicks QueryEngine.ingestor InMemorySaveJournal stocking
      (Journal.items_journal items_store []) qty_handed :=
    run₃.rule (hstock [] (.RowId 20) (stockroom_of items_failed 2) (by decide)) (eq_of_verdict hsecond)
  exact run₄.commits hcommit' (by decide +kernel)

/-- Two items are put in and committed, a rule fails, and the quantity of one is set. -/
theorem items_stocked : ∃ w : World, NoSeventh w
    ∧ ShowsRows (items_table (Journal.items_commit qty_handed).2.arrow_store) (w "items") := by
  have hbetween : (Journal.items_journal items_store [] : Journal QueryEngine (List CommitRecord)).Between
      items_store.catalog 0 fun _ _ => none :=
    (Journal.started_new items_store_created).between
  obtain ⟨w, hholds, hshows⟩ := rules_keep_invariant hbetween (show NoSeventh _ from rfl)
    (fun ev effect => stocking_keeps _ ev effect) stocking_run
  have htable : (Journal.items_commit qty_handed).2.arrow_store.tables["items"]?.isSome := by
    decide +kernel
  exact ⟨w, hholds, hshows "items" _ (items_table_eq htable)⟩

end Stockroom

end RuleEvaluator

end Scharnhorst
