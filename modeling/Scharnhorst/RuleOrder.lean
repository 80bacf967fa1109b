/-
Effects whose order says nothing.

Two leaves of an effect tree are independent under the usual conditions: neither reads a variable
that the other binds, and they write to different places. Independent leaves can be swapped. The
effect succeeds as before, leaves the same variables, and hands in the same diffs in another order.
Diffs that write to different places commute on the tables, so what is committed shows the same
rows.
-/
import Scharnhorst.EffectRuns
import Scharnhorst.Simulation
import Scharnhorst.Traces

set_option autoImplicit false

namespace Scharnhorst

open ReadOnly Traces Addressing

/-! ## Places -/

/-- What a write goes to: a table, a row of it, or one column of a row. -/
structure Place where
  table : String
  row : Option RowId
  column : Option String

/-- Both are there, and they are not the same. -/
def Distinct {α : Type} (x y : Option α) : Prop := ∃ a ∈ x, ∃ b ∈ y, a ≠ b

instance {α : Type} [DecidableEq α] (x y : Option α) : Decidable (Distinct x y) :=
  match x, y with
  | some a, some b =>
    decidable_of_iff (a ≠ b) (by simp [Distinct])
  | none, _ => isFalse (by simp [Distinct])
  | some _, none => isFalse (by simp [Distinct])

theorem Distinct.symm {α : Type} {x y : Option α} (h : Distinct x y) : Distinct y x := by
  obtain ⟨a, ha, b, hb, hne⟩ := h
  exact ⟨b, hb, a, ha, hne.symm⟩

/-- Places that do not meet. -/
def Place.Apart (p q : Place) : Prop :=
  p.table ≠ q.table ∨ Distinct p.row q.row ∨ Distinct p.column q.column

instance (p q : Place) : Decidable (p.Apart q) := inferInstanceAs (Decidable (_ ∨ _ ∨ _))

theorem Place.Apart.symm {p q : Place} (h : p.Apart q) : q.Apart p :=
  h.imp Ne.symm (Or.imp Distinct.symm Distinct.symm)

def Diff.place : Diff → Place
  | .Update table row column _ => ⟨table, some row, some column⟩
  | .Insert table row _ => ⟨table, some row, none⟩
  | .Delete table row => ⟨table, some row, none⟩
  | .ReplaceTable table _ => ⟨table, none, none⟩

/-- Diffs that write to different places. -/
def Diff.Apart (d e : Diff) : Prop := d.place.Apart e.place

@[simp] theorem Diff.place_table (d : Diff) : d.place.table = d.table := by cases d <;> rfl

/-! ## Diffs that commute -/

section Writes

variable [Render]

/-- Two columns of one row. -/
theorem set_cell_comm (schema : Schema) {c c' : String} (hne : c ≠ c') (v v' : Json)
    (row : List Cell) :
    set_cell schema c' v' (set_cell schema c v row)
      = set_cell schema c v (set_cell schema c' v' row) := by
  unfold set_cell
  rcases h : schema.column c with _ | ⟨i, f⟩
  · rfl
  rcases h' : schema.column c' with _ | ⟨i', f'⟩
  · rfl
  exact List.set_comm _ _ (schema.column_ne h h' hne)

/-- A diff of one row reads and writes that row only. -/
theorem keyed_step_row (schema : Schema) (pk_name : Option String) {d : Diff} {r : RowId}
    (hrow : d.place.row = some r) : ∃ f : Option (List Cell) → Option (List Cell),
      ∀ t, keyed_step schema pk_name t d = Function.update t r (f (t r)) := by
  cases d with
  | Update table row column value =>
    obtain rfl := Option.some.inj hrow
    refine ⟨Option.map (set_cell schema column value), fun t => funext fun k => ?_⟩
    by_cases hk : row = k
    · subst hk
      simp [keyed_step, KeyedTable.modify]
    · simp [keyed_step, KeyedTable.modify, hk, Function.update_of_ne (Ne.symm hk)]
  | Insert table row values =>
    obtain rfl := Option.some.inj hrow
    refine ⟨fun _ => some (json_row values schema), fun t => funext fun k => ?_⟩
    by_cases hk : row = k
    · subst hk
      simp [keyed_step, KeyedTable.insert]
    · simp [keyed_step, KeyedTable.insert, hk, Function.update_of_ne (Ne.symm hk)]
  | Delete table row =>
    obtain rfl := Option.some.inj hrow
    refine ⟨fun _ => none, fun t => funext fun k => ?_⟩
    by_cases hk : row = k
    · subst hk
      simp [keyed_step, KeyedTable.delete]
    · simp [keyed_step, KeyedTable.delete, hk, Function.update_of_ne (Ne.symm hk)]
  | ReplaceTable table rows => cases hrow

theorem keyed_step_comm (schema : Schema) (pk_name : Option String) (t : Rows) {d e : Diff}
    (h : Distinct d.place.row e.place.row ∨ Distinct d.place.column e.place.column) :
    keyed_step schema pk_name (keyed_step schema pk_name t d) e
      = keyed_step schema pk_name (keyed_step schema pk_name t e) d := by
  by_cases hrow : Distinct d.place.row e.place.row
  · obtain ⟨r, hr, r', hr', hne⟩ := hrow
    obtain ⟨f, hf⟩ := keyed_step_row schema pk_name hr
    obtain ⟨g, hg⟩ := keyed_step_row schema pk_name hr'
    rw [hf, hg, hg, hf, Function.update_of_ne hne.symm, Function.update_of_ne hne,
      Function.update_comm hne]
  · -- two columns of one row
    obtain ⟨c, hc, c', hc', hne⟩ := h.resolve_left hrow
    cases d with
    | Update table row column value =>
      cases e with
      | Update table' row' column' value' =>
        obtain rfl := Option.some.inj hc
        obtain rfl := Option.some.inj hc'
        obtain rfl : row = row' := by
          by_contra hrows
          exact hrow ⟨row, rfl, row', rfl, hrows⟩
        funext k
        by_cases hk : row = k
        · subst hk
          simp only [keyed_step, KeyedTable.modify, if_pos, Option.map_map]
          congr 1
          funext cells
          exact set_cell_comm schema hne value value' cells
        · simp only [keyed_step, KeyedTable.modify, if_neg hk]
      | _ => cases hc'
    | _ => cases hc

/-- Diffs that write to different places commute. -/
theorem world_step_comm (cat : Catalog) (w : World) {d e : Diff} (h : d.Apart e) :
    world_step cat (world_step cat w d) e = world_step cat (world_step cat w e) d := by
  by_cases htable : d.table = e.table
  · have hwithin := h.resolve_left (by simpa using htable)
    unfold world_step
    rw [← htable, Function.update_self, Function.update_self, Function.update_idem,
      Function.update_idem, keyed_step_comm _ _ _ hwithin]
  · unfold world_step
    rw [Function.update_of_ne (Ne.symm htable), Function.update_of_ne htable,
      Function.update_comm htable]

end Writes

/-! ## Leaves that are independent -/

namespace Leaf

/-- The variable that a leaf binds. -/
def binds : Leaf → Option String
  | .UpdateColumn _ _ _ | .InsertRow _ _ _ => none
  | .SetVariable name _ => some name

/-- The variables that a leaf reads. -/
def reads : Leaf → List String
  | .UpdateColumn _ _ value | .SetVariable _ value => value.variables
  | .InsertRow _ _ values => entry_variables values

/-- The place that a leaf writes to, in a scope at this row. -/
def place (row : RowId) : Leaf → Option Place
  | .UpdateColumn table column _ => some ⟨table, some row, some column⟩
  | .InsertRow table row _ => some ⟨table, some row, none⟩
  | .SetVariable _ _ => none

/-- Neither reads what the other binds, and they do not write to the same place. -/
structure Independent (row : RowId) (a b : Leaf) : Prop where
  left : ∀ x ∈ a.binds, x ∉ b.reads
  right : ∀ x ∈ b.binds, x ∉ a.reads
  bound : ∀ x ∈ a.binds, x ∉ b.binds
  apart : ∀ p ∈ a.place row, ∀ q ∈ b.place row, p.Apart q

theorem Independent.symm {row : RowId} {a b : Leaf} (h : Independent row a b) :
    Independent row b a :=
  ⟨h.right, h.left, fun x hb ha => h.bound x ha hb, fun p hp q hq => (h.apart q hq p hp).symm⟩

end Leaf

def LeafAct.place : LeafAct → Option Place
  | .submits diff => some diff.place
  | .binds _ _ => none

def LeafAct.name : LeafAct → Option String
  | .submits _ => none
  | .binds name _ => some name

namespace RuleEvaluator

variable {Q J : Type}

/-- A variable that is not named is not seen. -/
theorem evaluates_unbound {α : Type} {x : Computation (RuleEvaluator Q J) RuleError α}
    {names : List String} {name : String} (hname : name ∉ names)
    (hx : ∀ {R : RuleEvaluator Q J → RuleEvaluator Q J → Prop}, SameWorld R →
      (∀ y ∈ names, Sees R (resolve_var ⟨y⟩)) → Sees R x)
    (ev : RuleEvaluator Q J) (value : EvalValue) :
    (x { ev with vars := ev.vars.insert name value }).1 = (x ev).1 := by
  let R : RuleEvaluator Q J → RuleEvaluator Q J → Prop := fun ev ev' =>
    ∃ value, ev' = { ev with vars := ev.vars.insert name value }
  have hworld : SameWorld R := by
    rintro ev _ ⟨value, rfl⟩
    exact ⟨ev.journal, _, rfl⟩
  have hvars : ∀ y ∈ names, Sees R (resolve_var ⟨y⟩) := by
    refine fun y hy => ⟨reads_var ⟨y⟩, ?_⟩
    rintro ev _ ⟨value, rfl⟩
    have hne : name ≠ y := fun h => hname (h ▸ hy)
    simp only [resolve_var, Std.ExtTreeMap.getElem?_insert, Std.compare_eq_iff_eq, if_neg hne]
    rcases ev.vars[y]? with _ | v <;> rfl
  exact ((hx hworld hvars).same ev _ ⟨value, rfl⟩).symm

/-- A leaf comes to the same with a variable that it does not read. -/
theorem leaf_act_unbound {leaf : Leaf} {name : String} (hname : name ∉ leaf.reads)
    (ev : RuleEvaluator Q J) (value : EvalValue) :
    leaf_act { ev with vars := ev.vars.insert name value } leaf = leaf_act ev leaf := by
  cases leaf with
  | UpdateColumn table column expr =>
    have hvalue : (evaluate_to_json expr { ev with vars := ev.vars.insert name value }).1 = _ :=
      evaluates_unbound hname (fun hR hvars =>
        (sees_variables hR expr hvars).and_then fun _ => sees_done _) ev value
    exact congrArg (· >>= fun json_val => ev.submits (.Update table ev.scope.row column json_val))
      hvalue
  | InsertRow table row values =>
    have hvalue := evaluates_unbound hname
      (fun hR hvars => sees_entry_values hR ∅ values hvars) ev value
    exact congrArg (· >>= fun evaluated => ev.submits (.Insert table row evaluated)) hvalue
  | SetVariable x expr =>
    have hvalue := evaluates_unbound hname (fun hR hvars => sees_variables hR expr hvars) ev value
    exact congrArg (Except.map (LeafAct.binds x)) hvalue

/-- A leaf that goes through writes to its place, or binds its variable. -/
theorem leaf_act_writes {ev : RuleEvaluator Q J} {leaf : Leaf} {act : LeafAct}
    (h : leaf_act ev leaf = .ok act) :
    leaf.place ev.scope.row = act.place ∧ leaf.binds = act.name := by
  have hsubmits : ∀ {d : Diff}, ev.submits d = .ok act → act = .submits d := by
    intro d hd
    unfold submits at hd
    split at hd
    · cases hd
    · exact (Except.ok.inj hd).symm
  cases leaf with
  | UpdateColumn table column expr =>
    obtain ⟨v, -, hv⟩ := bind_eq_ok.1 h
    rw [hsubmits hv]
    exact ⟨rfl, rfl⟩
  | InsertRow table row values =>
    obtain ⟨v, -, hv⟩ := bind_eq_ok.1 h
    rw [hsubmits hv]
    exact ⟨rfl, rfl⟩
  | SetVariable x expr =>
    have hmap : (evaluate expr ev).1.map (.binds x) = .ok act := h
    rcases hvalue : (evaluate expr ev).1 with e | v
    · rw [hvalue] at hmap
      cases hmap
    · rw [hvalue] at hmap
      rw [← Except.ok.inj hmap]
      exact ⟨rfl, rfl⟩

/-- The bindings behind a leaf. -/
def after_act (vars : Map String EvalValue) : LeafAct → Map String EvalValue
  | .submits _ => vars
  | .binds name value => vars.insert name value

/-- The diff that a leaf hands in, if it does. -/
def handed : LeafAct → List Diff
  | .submits diff => [diff]
  | .binds _ _ => []

/-- Behind a leaf that goes through, the others run with the bindings it has left. -/
theorem run_leaves_cons {ev : RuleEvaluator Q J} {vars : Map String EvalValue} {leaf : Leaf}
    {act : LeafAct} (hact : leaf_act { ev with vars } leaf = .ok act) (leaves : List Leaf) :
    run_leaves ev vars (leaf :: leaves)
      = { run_leaves ev (after_act vars act) leaves with
          diffs := handed act ++ (run_leaves ev (after_act vars act) leaves).diffs } := by
  cases act <;> simp [run_leaves, hact, after_act, handed]

theorem run_leaves_cons_ok {ev : RuleEvaluator Q J} {vars : Map String EvalValue} {leaf : Leaf}
    {leaves : List Leaf} (h : (run_leaves ev vars (leaf :: leaves)).result = .ok ()) :
    ∃ act, leaf_act { ev with vars } leaf = .ok act
      ∧ (run_leaves ev (after_act vars act) leaves).result = .ok () := by
  rcases hact : leaf_act { ev with vars } leaf with e | act
  · simp [run_leaves, hact] at h
  · rw [run_leaves_cons hact] at h
    exact ⟨act, rfl, h⟩

/-- A leaf behind another that has gone through, where the other binds nothing that it reads. -/
theorem leaf_act_behind {ev : RuleEvaluator Q J} {vars : Map String EvalValue} {a b : Leaf}
    {act : LeafAct} (ha : leaf_act { ev with vars } a = .ok act)
    (h : ∀ x ∈ a.binds, x ∉ b.reads) :
    leaf_act { ev with vars := after_act vars act } b = leaf_act { ev with vars } b := by
  cases act with
  | submits diff => rfl
  | binds name value =>
    exact leaf_act_unbound (h name (leaf_act_writes ha).2) { ev with vars } value

theorem after_act_comm {ev : RuleEvaluator Q J} {vars : Map String EvalValue} {a b : Leaf}
    {act act' : LeafAct} (ha : leaf_act { ev with vars } a = .ok act)
    (hb : leaf_act { ev with vars } b = .ok act') (hbound : ∀ x ∈ a.binds, x ∉ b.binds) :
    after_act (after_act vars act) act' = after_act (after_act vars act') act := by
  cases act with
  | submits diff => rfl
  | binds x v =>
    cases act' with
    | submits diff => rfl
    | binds y v' =>
      have hne : x ≠ y := fun h => hbound x (leaf_act_writes ha).2 (h ▸ (leaf_act_writes hb).2)
      refine Std.ExtTreeMap.ext_getElem? fun k => ?_
      simp only [after_act, Std.ExtTreeMap.getElem?_insert, Std.compare_eq_iff_eq]
      by_cases hx : x = k
      · have hy : y ≠ k := fun h => hne (hx.trans h.symm)
        simp [hx, hy]
      · simp [hx]

/-- Two neighbours swapped. -/
theorem run_leaves_swap {ev : RuleEvaluator Q J} {vars : Map String EvalValue} {a b : Leaf}
    (h : Leaf.Independent ev.scope.row a b) {leaves : List Leaf}
    (hok : (run_leaves ev vars (a :: b :: leaves)).result = .ok ()) :
    let run := run_leaves ev vars (a :: b :: leaves)
    let run' := run_leaves ev vars (b :: a :: leaves)
    run'.result = .ok () ∧ run'.vars = run.vars
      ∧ Interchange Diff.Apart run.diffs run'.diffs := by
  intro run run'
  obtain ⟨act, ha, hrest⟩ := run_leaves_cons_ok hok
  obtain ⟨act', hb', hleaves⟩ := run_leaves_cons_ok hrest
  have hb : leaf_act { ev with vars } b = .ok act' := by rw [← leaf_act_behind ha h.left, hb']
  have ha' : leaf_act { ev with vars := after_act vars act' } a = .ok act := by
    rw [leaf_act_behind hb h.right, ha]
  simp only [run, run', run_leaves_cons ha, run_leaves_cons hb', run_leaves_cons hb,
    run_leaves_cons ha', ← after_act_comm ha hb h.bound]
  refine ⟨hleaves, trivial, ?_⟩
  cases act with
  | binds x v => exact .refl _
  | submits diff =>
    cases act' with
    | binds y v => exact .refl _
    | submits diff' =>
      have hapart : diff.Apart diff' :=
        h.apart _ (leaf_act_writes ha).1 _ (leaf_act_writes hb).1
      exact .swap hapart _

/-- Leaves in another order. -/
theorem run_leaves_interchange {ev : RuleEvaluator Q J} {vars : Map String EvalValue}
    {leaves leaves' : List Leaf}
    (h : Interchange (Leaf.Independent ev.scope.row) leaves leaves')
    (hok : (run_leaves ev vars leaves).result = .ok ()) :
    (run_leaves ev vars leaves').result = .ok ()
      ∧ (run_leaves ev vars leaves').vars = (run_leaves ev vars leaves).vars
      ∧ Interchange Diff.Apart (run_leaves ev vars leaves).diffs
        (run_leaves ev vars leaves').diffs := by
  induction h generalizing vars with
  | refl leaves => exact ⟨hok, rfl, .refl _⟩
  | swap hab leaves => exact run_leaves_swap hab hok
  | cons a h ih =>
    obtain ⟨act, ha, hrest⟩ := run_leaves_cons_ok hok
    obtain ⟨hresult, hvars, hdiffs⟩ := ih hrest
    rw [run_leaves_cons ha, run_leaves_cons ha]
    refine ⟨hresult, hvars, ?_⟩
    cases act with
    | submits diff => exact hdiffs.cons diff
    | binds x v => exact hdiffs
  | trans h h' ih ih' =>
    obtain ⟨hmid, hvars, hdiffs⟩ := ih hok
    obtain ⟨hresult, hvars', hdiffs'⟩ := ih' hmid
    exact ⟨hresult, hvars'.trans hvars, hdiffs.trans hdiffs'⟩

/-! ## What is committed -/

section Commits

variable [Render] {ingestor : SnapshotIngestor Q} {saver : SaveJournal J}

/-- The commits of two lists of diffs in which independent ones are swapped. -/
theorem commit_interchange {cat : Catalog} {count : Nat} {w : World} {j j₁ j₂ : Journal Q J}
    (h : j.Between cat count w) {ds ds' : List Diff} (hds : Interchange Diff.Apart ds ds')
    {result result' : CommitResult}
    (hcommit : { j with pending_diffs := ds }.commit ingestor saver = (.ok result, j₁))
    (hcommit' : { j with pending_diffs := ds' }.commit ingestor saver = (.ok result', j₂))
    (hfresh : FreshCommit j.arrow_store (j.current_tick, ds))
    (hfresh' : FreshCommit j.arrow_store (j.current_tick, ds')) :
    result' = result ∧ j₁.Between cat (count + 1) (ds.foldl (world_step cat) w)
      ∧ j₂.Between cat (count + 1) (ds.foldl (world_step cat) w) := by
  refine ⟨?_, h.commit hfresh hcommit, ?_⟩
  · obtain ⟨saved, mid, s, snapshot, state_hash, happlies⟩ := Journal.commit_ok hcommit
    obtain ⟨saved', mid', s', snapshot', state_hash', happlies'⟩ := Journal.commit_ok hcommit'
    have hhash : state_hash = state_hash' :=
      Journal.hash_diffs_perm hds.perm happlies.hash happlies'.hash
    rw [happlies.commit] at hcommit
    rw [happlies'.commit] at hcommit'
    obtain ⟨rfl, -⟩ := Journal.deliver_ok hcommit
    obtain ⟨rfl, -⟩ := Journal.deliver_ok hcommit'
    rw [hhash, hds.perm.length_eq]
  · rw [hds.foldl (fun w d e => world_step_comm cat w) w]
    exact h.commit hfresh' hcommit'

end Commits

section Stockroom

attribute [local instance] plain_text QueryEngine.no_merge

def insert_item (id : RowId) (qty : Expr) : Effect :=
  .InsertRow "items" id [("id", .RowId id), ("qty", qty)]

def stockroom : RuleEvaluator QueryEngine (List CommitRecord) :=
  .new (.new (.new .new)) (.new (Journal.items_journal items_store [])) "items" 1

/-- A quantity that is computed once, for the first item. -/
def first_item_first : Effect :=
  .Sequence [.SetVariable "n" (.RowId 10), insert_item 1 (.Var ⟨"n"⟩), insert_item 2 (.RowId 20),
    .UpdateColumn "items" "qty" (.RowId 30)]

/-- The second item comes before the quantity. -/
def second_item_first : Effect :=
  .Sequence [insert_item 2 (.RowId 20), .SetVariable "n" (.RowId 10), insert_item 1 (.Var ⟨"n"⟩),
    .UpdateColumn "items" "qty" (.RowId 30)]

end Stockroom

end RuleEvaluator

end Scharnhorst
