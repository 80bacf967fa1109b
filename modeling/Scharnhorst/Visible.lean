/-
Deleted rows, as the readers see them.

A delete takes the row out of the position map and leaves its batch. A reader that goes
through the map does not find the row again. A reader that walks the batches of the tick
still does, and it misses every row whose batch is at an earlier tick. So the rows it
lists are those of the map only if the commit leaves no row behind at an earlier tick and
deletes none that it has put into the list of its own tick.

`Spares` and `left_by` say that of a list of diffs, and `Listing` is what it buys: apart
from the rows that are still to be cleared, the batches of the tick and the rows of the
map are one to one.
-/
import Mathlib.Data.List.FinRange
import Scharnhorst.Served
import Scharnhorst.Publication

set_option autoImplicit false

namespace Scharnhorst

open Attempt Maps Addressing

/-! ## The condition -/

/-- The live rows whose place is not in the list of the tick. -/
def unlisted (tick : Tick) (t : VersionedTable) : List RowId :=
  (t.position_map.entries.toList.filter fun e => (t.batches tick).length ≤ e.2.1).map Prod.fst

/-- Those of them that a diff leaves where they are. -/
def left_by (old : List RowId) (d : Diff) : List RowId :=
  old.filter fun r => ¬ Clears r d

/-- Unless the table is replaced later on, a delete is of an old row. -/
def Spares : List RowId → List Diff → Prop
  | _, [] => True
  | old, d :: ds =>
    ((∃ d' ∈ ds, Replaces d') ∨ ∀ name row, d = .Delete name row → row ∈ old)
      ∧ Spares (left_by old d) ds

instance (old : List RowId) (d : Diff) :
    Decidable (∀ name row, d = .Delete name row → row ∈ old) :=
  match d with
  | .Delete _ row => decidable_of_iff (row ∈ old) (by simp)
  | .Update _ _ _ _ | .Insert _ _ _ | .ReplaceTable _ _ => .isTrue (by simp)

instance Spares.decidable : ∀ (old : List RowId) (ds : List Diff), Decidable (Spares old ds)
  | _, [] => .isTrue trivial
  | old, d :: ds =>
    have : Decidable (Spares (left_by old d) ds) := Spares.decidable _ ds
    inferInstanceAs (Decidable (_ ∧ _))

/-- The diffs clear every row that is not in the list of the tick, and delete none that
is. -/
structure Clean (tick : Tick) (t : VersionedTable) (ds : List Diff) : Prop where
  cleared : ds.foldl left_by (unlisted tick t) = []
  spares : Spares (unlisted tick t) ds

instance (tick : Tick) (t : VersionedTable) (ds : List Diff) : Decidable (Clean tick t ds) :=
  decidable_of_iff (ds.foldl left_by (unlisted tick t) = [] ∧ Spares (unlisted tick t) ds)
    ⟨fun h => ⟨h.1, h.2⟩, fun h => ⟨h.1, h.2⟩⟩

/-! ## The list of the tick -/

/-- Apart from the old rows, the batches of the tick and the rows of the map are one to
one. -/
structure Listing (old : List RowId) (tick : Tick) (t : VersionedTable) : Prop where
  live : ∀ r ∈ old, ∃ b, batch_of t r = some b
  listed : ∀ r b, batch_of t r = some b → r ∉ old → b < (t.batches tick).length
  onto : ∀ b < (t.batches tick).length, ∃ r, r ∉ old ∧ batch_of t r = some b
  one : ∀ r r' b, r ∉ old → r' ∉ old → batch_of t r = some b → batch_of t r' = some b → r = r'

theorem mem_unlisted {tick : Tick} {t : VersionedTable} {r : RowId} :
    r ∈ unlisted tick t ↔ ∃ b, batch_of t r = some b ∧ (t.batches tick).length ≤ b := by
  simp only [unlisted, List.mem_map, List.mem_filter, Prod.exists,
    Std.ExtTreeMap.mem_toList_iff_getElem?_eq_some, decide_eq_true_eq, batch_of,
    RowPositionMap.position_of, Option.map_eq_some_iff]
  constructor
  · rintro ⟨r', b, o, ⟨hp, hle⟩, rfl⟩
    exact ⟨b, ⟨b, o, hp, rfl⟩, hle⟩
  · rintro ⟨b, ⟨b, o, hp, rfl⟩, hle⟩
    exact ⟨r, b, o, ⟨hp, hle⟩, rfl⟩

/-- At a tick without batches every row is an old one. -/
theorem Listing.start {tick : Tick} {t : VersionedTable} (h : t.batches tick = []) :
    Listing (unlisted tick t) tick t := by
  have hall : ∀ r b, batch_of t r = some b → r ∈ unlisted tick t := fun r b hb =>
    mem_unlisted.2 ⟨b, hb, by simp [h]⟩
  refine ⟨fun r hr => ?_, fun r b hb hr => absurd (hall r b hb) hr, fun b hb => ?_,
    fun r r' b hr _ hb _ => absurd (hall r b hb) hr⟩
  · obtain ⟨b, hb, -⟩ := mem_unlisted.1 hr
    exact ⟨b, hb⟩
  · simp [h] at hb

/-- Where every row is listed, none is old. -/
theorem Listing.unlisted_eq_nil {tick : Tick} {t : VersionedTable} (h : Listing [] tick t) :
    unlisted tick t = [] := by
  refine List.eq_nil_iff_forall_not_mem.2 fun r hr => ?_
  obtain ⟨b, hb, hle⟩ := mem_unlisted.1 hr
  exact Nat.not_lt.2 hle (h.listed r b hb (by simp))

section Steps

variable [Render] {reg : TypeRegistry} {tick : Tick} {t t' : VersionedTable} {old : List RowId}

omit [Render] in
/-- An old row that a diff clears is old no longer. -/
theorem mem_left_by {r : RowId} {d : Diff} : r ∈ left_by old d ↔ r ∈ old ∧ ¬ Clears r d := by
  simp [left_by]

/-- After a replace no row is old. -/
theorem Listing.replace {d : Diff} (hreplace : Replaces d)
    (hd : apply_to_table reg tick d t = (.ok (), t')) : Listing [] tick t' := by
  obtain ⟨hcount, hentry, -⟩ := booked_step hd
  cases d with
  | Update name row column value => exact absurd hreplace id
  | Insert name row values => exact absurd hreplace id
  | Delete name row => exact absurd hreplace id
  | ReplaceTable name rows =>
      have hat : ∀ r b, batch_of t' r = some b →
          ∃ o, replaced_entry (pk_col_name t) rows r = some (b, o) := by
        intro r b hb
        rw [batch_of, hentry r, Option.map_eq_some_iff] at hb
        obtain ⟨⟨b', o⟩, hb, rfl⟩ := hb
        exact ⟨o, hb⟩
      rw [count_move] at hcount
      refine ⟨by simp, fun r b hb _ => ?_, fun b hb => ?_, fun r r' b _ _ hb hb' => ?_⟩
      · obtain ⟨o, ho⟩ := hat r b hb
        rw [hcount]
        exact replaced_entry_lt ho
      · obtain ⟨r, hr⟩ := apply_replace_onto hd (hcount ▸ hb)
        exact ⟨r, by simp, by rw [batch_of, hr, Option.map_some]⟩
      · -- the row at an index asks for one id
        obtain ⟨o, ho⟩ := hat r b hb
        obtain ⟨o', ho'⟩ := hat r' b hb'
        obtain ⟨-, row, hrow, hkey⟩ := replaced_entry_some ho
        obtain ⟨-, row', hrow', hkey'⟩ := replaced_entry_some ho'
        obtain rfl := Option.some.inj (hrow.symm.trans hrow')
        exact Option.some.inj (hkey.symm.trans hkey')

omit [Render] in
/-- Where no row moves and no batch comes. -/
theorem Listing.congr (h : Listing old tick t) (hat : ∀ r, batch_of t' r = batch_of t r)
    (hcount : (t'.batches tick).length = (t.batches tick).length) : Listing old tick t' := by
  refine ⟨fun r hr => ?_, fun r b hb hr => ?_, fun b hb => ?_, fun r r' b hr hr' hb hb' => ?_⟩
  · rw [hat]
    exact h.live r hr
  · rw [hcount]
    exact h.listed r b (hat r ▸ hb) hr
  · obtain ⟨r, hr, hb⟩ := h.onto b (by rwa [hcount] at hb)
    exact ⟨r, hr, (hat r).trans hb⟩
  · exact h.one r r' b hr hr' (hat r ▸ hb) (hat r' ▸ hb')

omit [Render] in
/-- A new row, in a new batch. -/
theorem Listing.add {row : RowId} (h : Listing old tick t) (hnone : batch_of t row = none)
    (hat : ∀ r, batch_of t' r = if row = r then some (t.batches tick).length else batch_of t r)
    (hcount : (t'.batches tick).length = (t.batches tick).length + 1) : Listing old tick t' := by
  -- an old row is in a batch, so the new one is not among them
  have hrow : row ∉ old := fun hr => by
    obtain ⟨b, hb⟩ := h.live row hr
    rw [hnone] at hb
    cases hb
  refine ⟨fun r hr => ?_, fun r b hb hr => ?_, fun b hb => ?_, fun r r' b hr hr' hb hb' => ?_⟩
  · have hne : row ≠ r := fun heq => hrow (heq ▸ hr)
    rw [hat, if_neg hne]
    exact h.live r hr
  · rw [hcount]
    rw [hat] at hb
    split at hb
    · obtain rfl := Option.some.inj hb
      exact Nat.lt_succ_self _
    · exact Nat.lt_succ_of_lt (h.listed r b hb hr)
  · rcases Nat.lt_succ_iff_lt_or_eq.1 (hcount ▸ hb) with hlt | rfl
    · obtain ⟨r, hr, hb⟩ := h.onto b hlt
      have hne : row ≠ r := fun heq => by
        rw [← heq, hnone] at hb
        cases hb
      exact ⟨r, hr, by rw [hat, if_neg hne, hb]⟩
    · exact ⟨row, hrow, by rw [hat, if_pos rfl]⟩
  · -- the new batch is past those of the listed rows
    have hlt : ∀ r, r ∉ old → batch_of t r ≠ some (t.batches tick).length := fun r hr heq =>
      Nat.lt_irrefl _ (h.listed r _ heq hr)
    rw [hat] at hb hb'
    split at hb <;> split at hb'
    · rename_i heq heq'
      exact heq.symm.trans heq'
    · exact absurd (hb'.trans hb.symm) (hlt r' hr')
    · exact absurd (hb.trans hb'.symm) (hlt r hr)
    · exact h.one r r' b hr hr' hb hb'

omit [Render] in
/-- An old row goes, and its batch with no other. -/
theorem Listing.remove {row : RowId} {left : List RowId} (h : Listing old tick t)
    (hold : row ∈ old) (hleft : ∀ r, r ∈ left ↔ r ∈ old ∧ row ≠ r)
    (hat : ∀ r, batch_of t' r = if row = r then none else batch_of t r)
    (hcount : (t'.batches tick).length = (t.batches tick).length) : Listing left tick t' := by
  refine ⟨fun r hr => ?_, fun r b hb hr => ?_, fun b hb => ?_, fun r r' b hr hr' hb hb' => ?_⟩
  · obtain ⟨hr, hne⟩ := (hleft r).1 hr
    rw [hat, if_neg hne]
    exact h.live r hr
  · rw [hat] at hb
    split at hb
    · cases hb
    · rename_i hne
      rw [hcount]
      exact h.listed r b hb fun hr' => hr ((hleft r).2 ⟨hr', hne⟩)
  · obtain ⟨r, hr, hb⟩ := h.onto b (by rwa [hcount] at hb)
    have hne : row ≠ r := fun heq => hr (heq ▸ hold)
    exact ⟨r, fun hr' => hr ((hleft r).1 hr').1, by rw [hat, if_neg hne, hb]⟩
  · rw [hat] at hb hb'
    split at hb <;> split at hb'
    · cases hb
    · cases hb
    · cases hb'
    · rename_i hne hne'
      exact h.one r r' b (fun hin => hr ((hleft r).2 ⟨hin, hne⟩))
        (fun hin => hr' ((hleft r').2 ⟨hin, hne'⟩)) hb hb'

/-- A diff that deletes no listed row. -/
theorem Listing.step {d : Diff} (h : Listing old tick t)
    (hspares : ∀ name row, d = .Delete name row → row ∈ old)
    (hd : apply_to_table reg tick d t = (.ok (), t')) : Listing (left_by old d) tick t' := by
  obtain ⟨hcount, hentry, -⟩ := booked_step hd
  have hbatch : ∀ r, batch_of t' r = ((entry_move (pk_col_name t) (t.batches tick).length r d).getD
      (t.position_map.position_of r)).map Prod.fst := fun r => by rw [batch_of, hentry r]
  cases d with
  | Update name row column value =>
      have hleft : left_by old (.Update name row column value) = old := by simp [left_by, Clears]
      rw [hleft]
      exact h.congr hbatch hcount
  | Insert name row values =>
      have hleft : left_by old (.Insert name row values) = old := by simp [left_by, Clears]
      obtain ⟨schema, batch, -, hnew, -⟩ := apply_insert_ok hd
      rw [count_move] at hcount
      rw [hleft]
      refine h.add (by rw [batch_of, hnew, Option.map_none]) (fun r => ?_) hcount
      rw [hbatch r, entry_move]
      split <;> rfl
  | Delete name row =>
      rw [count_move] at hcount
      refine h.remove (hspares name row rfl) (fun r => mem_left_by) (fun r => ?_) hcount
      rw [hbatch r, entry_move]
      split <;> rfl
  | ReplaceTable name rows =>
      have hleft : left_by old (.ReplaceTable name rows) = [] := by simp [left_by, Clears]
      rw [hleft]
      have hreplace : Replaces (.ReplaceTable name rows) := trivial
      exact .replace hreplace hd

/-- Diffs that clear the old rows and spare the listed ones list every row. If they replace
the table, it does not matter how it was before. -/
theorem Listing.run {ds : List Diff} (h : (∃ d ∈ ds, Replaces d) ∨ Listing old tick t)
    (hspares : Spares old ds) (hrun : ArrowStore.run_table reg tick t ds = (.ok (), t')) :
    Listing (ds.foldl left_by old) tick t' := by
  induction ds generalizing t old with
  | nil =>
      obtain rfl : t = t' := by simpa [ArrowStore.run_table] using hrun
      exact h.resolve_left (by simp)
  | cons d ds ih =>
      obtain ⟨mid, hd, hds⟩ := forEach_cons_ok.1 hrun
      obtain ⟨hfirst, hrest⟩ := hspares
      refine ih ?_ hrest hds
      rcases hfirst with hreplaced | hold
      · exact .inl hreplaced
      rcases h with ⟨d', hd', hreplace⟩ | hlisting
      · rcases List.mem_cons.1 hd' with rfl | hlater
        · have hleft : left_by old d' = [] := by
            cases d' with
            | ReplaceTable name rows => simp [left_by, Clears]
            | Update name row column value => exact absurd hreplace id
            | Insert name row values => exact absurd hreplace id
            | Delete name row => exact absurd hreplace id
          exact .inr (hleft ▸ .replace hreplace hd)
        · exact .inl ⟨d', hlater, hreplace⟩
      · exact .inr (hlisting.step hold hd)

end Steps

/-! ## What is listed -/

/-- A reader lists the rows of the map: for each row id, once, the row it leads to. -/
def Reports (t : VersionedTable) (rows : List (List Cell)) : Prop :=
  ∃ ids : List RowId, ids.Nodup ∧ (∀ r, r ∈ ids ↔ t.position_map.contains r)
    ∧ List.Forall₂ (fun r row => t.resolve r = some row) ids rows

/-- As many rows as there are row ids. -/
theorem Reports.length_eq {t : VersionedTable} {rows : List (List Cell)} (h : Reports t rows) :
    rows.length = t.position_map.entries.size := by
  obtain ⟨ids, hnodup, hmem, hall⟩ := h
  have hkeys : ids.Perm t.position_map.entries.keys := by
    refine (List.perm_ext_iff_of_nodup hnodup ?_).2 fun r => ?_
    · exact Std.ExtTreeMap.nodup_keys
    · rw [hmem, Std.ExtTreeMap.mem_keys, RowPositionMap.contains, Std.ExtTreeMap.contains_iff_mem]
  rw [← hall.length_eq, hkeys.length_eq, Std.ExtTreeMap.length_keys]

/-- A row whose batch is in the list of the latest tick is read there. -/
theorem resolve_listed {schema : Schema} {tick : Tick} {t : VersionedTable} {r : RowId} {b : Nat}
    {batch : RecordBatch} (htidy : Tidy schema tick t) (hat : batch_of t r = some b)
    (hb : (t.batches tick)[b]? = some batch) : t.resolve r = some (batch.row 0) := by
  have hv := VersionedTable.versions_of_mem (List.mem_of_getElem? hb)
  obtain ⟨-, hone, -⟩ := htidy.listed (List.mem_of_getElem? hb)
  rw [htidy.resolve, hat, Option.bind_some, read_row_latest hv htidy.ticks batch hb, hone,
    if_pos Nat.one_pos]

/-- Where every row is listed, the batches of the tick hold the rows of the map. -/
theorem Listing.reports {schema : Schema} {tick : Tick} {t : VersionedTable}
    (h : Listing [] tick t) (htidy : Tidy schema tick t) :
    Reports t ((t.batches tick).flatMap RecordBatch.rows) := by
  have honto : ∀ b : Fin (t.batches tick).length, ∃ r, batch_of t r = some b.1 := fun b => by
    obtain ⟨r, -, hr⟩ := h.onto b.1 b.2
    exact ⟨r, hr⟩
  choose id_at hat using honto
  have hlive : ∀ r, t.position_map.contains r ↔ ∃ b, batch_of t r = some b := fun r => by
    simp [batch_of]
  refine ⟨List.ofFn id_at, List.nodup_ofFn.2 fun b b' heq => ?_, fun r => ?_, ?_⟩
  · have hb := hat b
    rw [heq, hat b'] at hb
    exact Fin.ext (Option.some.inj hb).symm
  · rw [List.mem_ofFn, hlive]
    constructor
    · rintro ⟨b, rfl⟩
      exact ⟨b.1, hat b⟩
    · rintro ⟨b, hb⟩
      have hlt := h.listed r b hb (by simp)
      exact ⟨⟨b, hlt⟩, h.one _ _ b (by simp) (by simp) (hat ⟨b, hlt⟩) hb⟩
  · -- every batch has one row
    have hrows : (t.batches tick).flatMap RecordBatch.rows = (t.batches tick).map (·.row 0) := by
      rw [List.map_eq_flatMap]
      refine List.flatMap_congr fun batch hbatch => ?_
      obtain ⟨-, hone, -⟩ := htidy.listed hbatch
      simp [RecordBatch.rows, hone, List.range_succ]
    rw [hrows, List.forall₂_iff_get]
    refine ⟨by simp, fun i hi hi' => ?_⟩
    rw [List.length_ofFn] at hi
    simp only [List.get_eq_getElem, List.getElem_ofFn, List.getElem_map]
    exact resolve_listed htidy (hat ⟨i, hi⟩) (List.getElem?_eq_getElem hi)

/-! ## Which rows are live -/

/-- The last of the diffs that write the entry of a row books it: the row has been
inserted, or put there by a replace, and not been removed since. -/
def alive (pk_name : Option String) (r : RowId) (ds : List Diff) : Bool :=
  ((last_entry pk_name r 0 ds).map Option.isSome).getD false

/-- Where a row is booked depends on the number of batches, whether it is does not. -/
theorem last_entry_isSome (pk_name : Option String) (r : RowId) (c c' : Nat) (ds : List Diff) :
    (last_entry pk_name r c ds).map Option.isSome
      = (last_entry pk_name r c' ds).map Option.isSome := by
  induction ds generalizing c c' with
  | nil => rfl
  | cons d ds ih =>
      have hmove : (entry_move pk_name c r d).map Option.isSome
          = (entry_move pk_name c' r d).map Option.isSome := by
        cases d with
        | Insert name row values =>
            simp only [entry_move]
            split <;> rfl
        | Update name row column value => rfl
        | Delete name row => rfl
        | ReplaceTable name rows => rfl
      rw [last_entry, last_entry, Option.map_or, Option.map_or, ih _ (count_move c' d), hmove]

theorem alive_append (pk_name : Option String) (r : RowId) (ds ds' : List Diff) :
    alive pk_name r (ds ++ ds')
      = ((last_entry pk_name r 0 ds').map Option.isSome).getD (alive pk_name r ds) := by
  have happend : ∀ c, (last_entry pk_name r c (ds ++ ds')).map Option.isSome
      = ((last_entry pk_name r 0 ds').map Option.isSome).or
        ((last_entry pk_name r c ds).map Option.isSome) := by
    induction ds with
    | nil =>
        intro c
        rw [List.nil_append, last_entry_isSome pk_name r c 0, last_entry, Option.map_none,
          Option.or_none]
    | cons d ds ih =>
        intro c
        rw [List.cons_append, last_entry, Option.map_or, ih, last_entry, Option.map_or,
          Option.or_assoc]
  rw [alive, happend, alive]
  rcases (last_entry pk_name r 0 ds').map Option.isSome with _ | b <;> rfl

/-- A run of diffs leaves in the map the rows it has kept alive. -/
theorem contains_run [Render] {reg : TypeRegistry} {tick : Tick} {t t' : VersionedTable}
    {before ds : List Diff} {r : RowId}
    (h : t.position_map.contains r = alive (pk_col_name t) r before)
    (hrun : ArrowStore.run_table reg tick t ds = (.ok (), t')) :
    t'.position_map.contains r = alive (pk_col_name t) r (before ++ ds) := by
  have hentry := (booked_run hrun).1 r
  rw [alive_append, ← h, RowPositionMap.contains_eq_isSome, RowPositionMap.contains_eq_isSome,
    hentry, last_entry_isSome _ _ _ (t.batches tick).length]
  rcases last_entry (pk_col_name t) r (t.batches tick).length ds with _ | e <;> rfl

/-! ## What the readers say -/

/-- The readers of the engine report the rows of the store's position maps. `kept` is which
rows are live. -/
structure ReadsLive [Concat] (q : QueryEngine) (store : ArrowStore)
    (kept : String → RowId → Bool) : Prop where
  live : ∀ (n : String) (lock : RwLock VersionedTable), store.tables[n]? = some lock →
    ∀ r, lock.data.position_map.contains r = kept n r
  lookup_row : ∀ (n : String) (lock : RwLock VersionedTable), store.tables[n]? = some lock →
    ∀ r, kept n r = false → ∃ e, q.lookup_row n r = .error e
  world_view : ∀ (n : String) (lock : RwLock VersionedTable), store.tables[n]? = some lock →
    ∃ view iter, q.world_view = .ok view ∧ view.iter_rows n = .ok iter
      ∧ Reports lock.data (iter.collect.map WorldViewRow.cells)
      ∧ view.row_count n = .ok iter.collect.length
  sql : ∀ (n : String) (lock : RwLock VersionedTable), store.tables[n]? = some lock →
    ∀ tables, q.sql_tables = .ok tables → (∃ batch, (n, batch) ∈ tables)
      ∧ ∀ batch, (n, batch) ∈ tables → Reports lock.data batch.rows

/-- A served store whose rows are all listed. -/
theorem Serves.reads [Concat] {cat : Catalog} {q : QueryEngine} {store : ArrowStore} {tick : Tick}
    {kept : String → RowId → Bool} (h : Serves q store tick) (hconcat : Concatenates)
    (hshape : Shaped cat tick store)
    (hlisted : ∀ (n : String) (lock : RwLock VersionedTable), store.tables[n]? = some lock →
      Listing [] tick lock.data)
    (hkept : ∀ (n : String) (lock : RwLock VersionedTable), store.tables[n]? = some lock →
      ∀ r, lock.data.position_map.contains r = kept n r) : ReadsLive q store kept := by
  have hreports : ∀ (n : String) (lock : RwLock VersionedTable), store.tables[n]? = some lock →
      Reports lock.data ((lock.data.batches tick).flatMap RecordBatch.rows) :=
    fun n lock hn => (hlisted n lock hn).reports (hshape.tidy n lock hn).2
  refine ⟨hkept, fun n lock hn r hr => ?_, fun n lock hn => ?_, fun n lock hn tables hsql => ?_⟩
  · refine h.lookup_row hn ((RowPositionMap.contains_eq_false _ _).1 ?_)
    rw [hkept n lock hn, hr]
  · obtain ⟨view, iter, hview, hiter, hrows, hcount⟩ := h.world_view hn
    exact ⟨view, iter, hview, hiter, hrows ▸ hreports n lock hn, hcount⟩
  · have hschema : ∀ b ∈ lock.data.batches tick, b.schema = (cat n).1 := fun b hb =>
      ((hshape.tidy n lock hn).2.listed hb).1
    obtain ⟨hsome, hall⟩ := h.sql_tables hconcat hn
      (fun b hb b' hb' => (hschema b hb).trans (hschema b' hb').symm) hsql
    exact ⟨hsome, fun batch hbatch => hall batch hbatch ▸ hreports n lock hn⟩

/-! ## The store -/

/-- The diffs of a commit are clean, table by table. -/
def CleanTables (tick : Tick) (s : ArrowStore) (ds : List Diff) : Prop :=
  ∀ (n : String) (lock : RwLock VersionedTable), s.tables[n]? = some lock →
    Clean tick lock.data (ArrowStore.diffs_of n ds)

instance (tick : Tick) (s : ArrowStore) (ds : List Diff) : Decidable (CleanTables tick s ds) :=
  decidable_of_iff (∀ e ∈ s.tables.toList, Clean tick e.2.data (ArrowStore.diffs_of e.1 ds)) (by
    simp only [CleanTables, Prod.forall, Std.ExtTreeMap.mem_toList_iff_getElem?_eq_some])

/-- The store between two commits, after these diffs. -/
structure Listed (cat : Catalog) (tick : Tick) (s : ArrowStore) (ds : List Diff) : Prop where
  shaped : Shaped cat tick s
  listing : ∀ (n : String) (lock : RwLock VersionedTable), s.tables[n]? = some lock →
    Listing (unlisted tick lock.data) tick lock.data
  live : ∀ (n : String) (lock : RwLock VersionedTable), s.tables[n]? = some lock →
    ∀ r, lock.data.position_map.contains r = alive (cat n).2 r (ArrowStore.diffs_of n ds)

/-- Clean diffs leave every row in the list of the tick. -/
theorem Listed.apply_diffs [Render] {cat : Catalog} {tick : Tick} {s s' : ArrowStore}
    {before ds : List Diff} (h : Listed cat tick s before) (hclean : CleanTables tick s ds)
    (hrun : s.apply_diffs tick ds = (.ok (), s')) :
    Shaped cat tick s' ∧ ∀ (n : String) (lock : RwLock VersionedTable), s'.tables[n]? = some lock →
      Listing [] tick lock.data
        ∧ ∀ r, lock.data.position_map.contains r
          = alive (cat n).2 r (ArrowStore.diffs_of n (before ++ ds)) := by
  obtain ⟨-, -, hloop⟩ := ArrowStore.apply_diffs_ok.1 hrun
  obtain ⟨hsame, htables⟩ := ArrowStore.forEach_apply_diff_ok hloop
  refine ⟨h.shaped.apply_diffs (Nat.le_refl _) hloop, fun n lock' hn' => ?_⟩
  rcases hn : s.tables[n]? with _ | lock
  · rw [((htables n).1 hn).1] at hn'
    cases hn'
  obtain ⟨t', ht', hruns, -⟩ := (htables n).2 lock hn
  obtain rfl := Option.some.inj (ht'.symm.trans hn')
  obtain ⟨hcleared, hspares⟩ := hclean n lock hn
  have hlisting := Listing.run (.inr (h.listing n lock hn)) hspares hruns
  rw [hcleared] at hlisting
  have hpk : pk_col_name lock.data = (cat n).2 := by
    rw [← h.shaped.catalog, ArrowStore.catalog_of_some hn]
  refine ⟨hlisting, fun r => ?_⟩
  rw [ArrowStore.diffs_of, List.filter_append, ← hpk]
  exact contains_run (hpk ▸ h.live n lock hn r) hruns

/-- At the next tick the rows of this one are the old ones. -/
theorem Listing.next {schema : Schema} {tick : Tick} {t : VersionedTable} (h : Listing [] tick t)
    (htidy : Tidy schema tick t) (hmax : tick ≤ Tick.MAX) :
    Listing (unlisted tick.next t) tick.next t := by
  rcases Nat.lt_or_ge tick Tick.MAX with hlt | hge
  · refine .start ?_
    rcases hv : t.versions[tick.next]? with _ | bs
    · simp [VersionedTable.batches, Std.ExtTreeMap.getD_eq_getD_getElem?, hv]
    · have hle := htidy.ticks _ bs hv
      rw [Tick.next_of_lt hlt] at hle
      exact absurd hle (Nat.not_succ_le_self tick)
  · -- the last tick follows itself
    have hnext : tick.next = tick := by
      rw [Tick.next, if_pos hge]
      exact Nat.le_antisymm hge hmax
    rw [hnext, h.unlisted_eq_nil]
    exact h

/-! ## Commits of a journal -/

namespace Journal

section Commits

variable [Render] [Concat] {J : Type} {saver : SaveJournal J} {j j' : Journal QueryEngine J}

/-- A commit of a run finds the batch clean. -/
def CleanCommit (j : Journal QueryEngine J) (ds : List Diff) : Prop :=
  CleanTables j.current_tick j.arrow_store ds

omit [Render] [Concat] in
instance (j : Journal QueryEngine J) (ds : List Diff) : Decidable (CleanCommit j ds) :=
  inferInstanceAs (Decidable (CleanTables j.current_tick j.arrow_store ds))

/-- The journal between two commits of a run, after these diffs. -/
structure Reading (cat : Catalog) (before : List Diff) (j : Journal QueryEngine J) : Prop where
  phase : j.phase = .Open
  pending : j.pending_diffs = []
  current_tick : j.current_tick ≤ Tick.MAX
  engine : j.query_engine.isSome
  store : Listed cat j.current_tick j.arrow_store before

omit [Render] [Concat] in
theorem Started.reading (h : Started j) (hengine : j.query_engine.isSome) :
    Reading j.arrow_store.catalog [] j := by
  refine ⟨h.phase, h.pending, ?_, hengine, h.created.shaped _, fun n lock hn => ?_,
    fun n lock hn r => ?_⟩
  · rw [h.current_tick]
    exact Nat.zero_le _
  · obtain ⟨-, hv, -⟩ := h.created n lock hn
    exact .start (by simp [VersionedTable.batches, hv])
  · obtain ⟨-, -, hpm⟩ := h.created n lock hn
    rw [hpm, RowPositionMap.contains_eq_isSome, RowPositionMap.position_of_new]
    rfl

/-- A clean commit: the readers report the live rows, and the run can go on. -/
theorem Reading.commit_batch {cat : Catalog} {before ds : List Diff} (h : Reading cat before j)
    (hconcat : Concatenates) (hclean : CleanCommit j ds)
    (hcommit : j.commit_batch QueryEngine.ingestor saver ds = (.ok (), j')) :
    Reading cat (before ++ ds) j' ∧ ∃ q, j'.query_engine = some q
      ∧ ReadsLive q j'.arrow_store fun n r =>
        alive (cat n).2 r (ArrowStore.diffs_of n (before ++ ds)) := by
  rw [Journal.commit_batch, submit_batch_open h.phase, h.pending, List.nil_append] at hcommit
  simp only at hcommit
  rcases hc : commit QueryEngine.ingestor saver { j with pending_diffs := ds } with ⟨e | result, j₁⟩
  · simp [hc, Except.map] at hcommit
  obtain rfl : j₁ = j' := by simpa [hc, Except.map] using hcommit
  obtain ⟨q, hq⟩ := Option.isSome_iff_exists.1 h.engine
  obtain ⟨q', hq', hserves⟩ := commit_serves (j := { j with pending_diffs := ds }) hq hc
  obtain ⟨saved, mid, s, snapshot, state_hash, happlies⟩ := commit_ok hc
  rw [happlies.commit] at hc
  obtain ⟨-, q'', sj, rfl⟩ := deliver_ok hc
  obtain ⟨-, hdo⟩ := ArrowStore.generate_snapshot_ok.1 happlies.snapshot
  obtain ⟨-, -, rfl⟩ := ArrowStore.do_generate_snapshot_ok hdo
  obtain ⟨hshape, hrows⟩ := h.store.apply_diffs hclean happlies.diffs
  refine ⟨⟨rfl, rfl, ?_, Option.isSome_iff_exists.2 ⟨q', hq'⟩, ?_, fun n lock hn => ?_,
    fun n lock hn => (hrows n lock hn).2⟩, q', hq', hserves.reads hconcat
      ⟨hshape.catalog, hshape.tidy⟩ (fun n lock hn => (hrows n lock hn).1)
      fun n lock hn => (hrows n lock hn).2⟩
  · exact Tick.next_le_max j.current_tick
  · exact Shaped.mono ⟨hshape.catalog, hshape.tidy⟩ (Tick.le_next h.current_tick)
  · exact (hrows n lock hn).1.next (hshape.tidy n lock hn).2 h.current_tick

/-- In a run of clean commits the readers report, after each of them, the rows that are
live and no others. -/
theorem Reading.run {cat : Catalog} {before : List Diff} {dss : List (List Diff)}
    {ds : List Diff} (h : Reading cat before j) (hconcat : Concatenates)
    (hclean : Guarded (Journal.commit_batch QueryEngine.ingestor saver) CleanCommit j (dss ++ [ds]))
    (hrun : forEach (Journal.commit_batch QueryEngine.ingestor saver) j (dss ++ [ds])
      = (.ok (), j')) :
    ∃ q, j'.query_engine = some q ∧ ReadsLive q j'.arrow_store fun n r =>
      alive (cat n).2 r (ArrowStore.diffs_of n (before ++ (dss ++ [ds]).flatten)) := by
  induction dss generalizing j before with
  | nil =>
      obtain ⟨mid, hds, hmid⟩ := forEach_cons_ok.1 hrun
      obtain rfl : mid = j' := by simpa using hmid
      simpa using (h.commit_batch hconcat hclean.1 hds).2
  | cons first dss ih =>
      obtain ⟨mid, hfirst, hrest⟩ := forEach_cons_ok.1 hrun
      have hlast := ih (h.commit_batch hconcat hclean.1 hfirst).1 (hclean.2 mid hfirst) hrest
      rwa [List.append_assoc] at hlast

theorem deleted_rows_invisible {dss : List (List Diff)} {ds : List Diff}
    (hconcat : Concatenates) (hstarted : Started j) (hengine : j.query_engine.isSome)
    (hclean : Guarded (commit_batch QueryEngine.ingestor saver) CleanCommit j (dss ++ [ds]))
    (hrun : forEach (commit_batch QueryEngine.ingestor saver) j (dss ++ [ds]) = (.ok (), j')) :
    ∃ q, j'.query_engine = some q ∧ ReadsLive q j'.arrow_store fun n r =>
      alive (j.arrow_store.catalog n).2 r (ArrowStore.diffs_of n (dss ++ [ds]).flatten) := by
  simpa using (hstarted.reading hengine).run hconcat hclean hrun

end Commits

/-! ## A run of each kind -/

section Items

/-- The kernel, for one batch: it is given back. -/
@[reducible] def one_batch : Concat :=
  ⟨fun _ batches =>
    match batches with
    | [batch] => .ok batch
    | _ => .error "no batches to merge"⟩

theorem one_batch_concatenates : @Concatenates one_batch := by
  refine @Concatenates.mk one_batch fun schema batches merged _ h => ?_
  rcases batches with _ | ⟨batch, _ | ⟨second, rest⟩⟩
  · cases h
  · obtain rfl : batch = merged := Except.ok.inj h
    simp
  · cases h

attribute [local instance] plain_text one_batch

/-- A row that is deleted at the next tick, as another comes, and then the table replaced. -/
def clean_batches : List (List Diff) :=
  [[.Insert "items" 1 (item 1 10)], [.Delete "items" 1, .Insert "items" 2 (item 2 20)]]

def clean_batch : List Diff := [.ReplaceTable "items" [item 3 30]]

/-- A journal over the items, with an engine that knows their table. -/
def served_journal : Journal QueryEngine (List CommitRecord) :=
  (new items_store).with_query_engine
    (.new { tables := (∅ : Map String TableSpec).insert "items" items_spec })

def served_items (batches : List (List Diff)) :
    JournalResult Unit × Journal QueryEngine (List CommitRecord) :=
  forEach (commit_batch QueryEngine.ingestor InMemorySaveJournal) served_journal batches

def items_engine (j : Journal QueryEngine (List CommitRecord)) : QueryEngine :=
  j.query_engine.getD (.new .new)

theorem clean_items_invisible :
    ∃ q, (served_items (clean_batches ++ [clean_batch])).2.query_engine = some q
      ∧ ReadsLive q (served_items (clean_batches ++ [clean_batch])).2.arrow_store fun n r =>
        alive (items_store.catalog n).2 r
          (ArrowStore.diffs_of n (clean_batches ++ [clean_batch]).flatten) := by
  have hrun : (served_items (clean_batches ++ [clean_batch])).1 = .ok () := by decide +kernel
  have hclean : Guarded (commit_batch QueryEngine.ingestor InMemorySaveJournal) CleanCommit
      served_journal (clean_batches ++ [clean_batch]) := by decide +kernel
  exact deleted_rows_invisible one_batch_concatenates
    ((started_new items_store_created).attach [] _).2 rfl hclean (eq_of_verdict hrun)

/-- A row inserted and deleted in one commit is counted, listed and registered after it. A
row of tick 0 is live at tick 1 and is none of these. -/
theorem deleted_item_reported :
    let j := (served_items [[.Insert "items" 1 (item 1 10), .Delete "items" 1]]).2
    let quiet := (served_items [[.Insert "items" 1 (item 1 10)], []]).2
    (served_items [[.Insert "items" 1 (item 1 10), .Delete "items" 1]]).1 = .ok ()
      ∧ (items_table j.arrow_store).position_map.entries.toList = []
      ∧ (items_engine j).world_view.toOption.bind (fun view =>
          (view.row_count "items").toOption) = some 1
      ∧ (items_engine j).sql_tables.map (List.map fun e => (e.1, e.2.row_count))
        = .ok [("items", 1)]
      ∧ (served_items [[.Insert "items" 1 (item 1 10)], []]).1 = .ok ()
      ∧ (items_table quiet.arrow_store).position_map.contains 1
      ∧ (items_engine quiet).world_view.toOption.bind (fun view =>
          (view.row_count "items").toOption) = some 0
      ∧ ∀ kept, ¬ ReadsLive (items_engine j) j.arrow_store kept := by
  intro j quiet
  have hcount : (items_engine j).world_view.toOption.bind (fun view =>
      (view.row_count "items").toOption) = some 1 := by decide +kernel
  have hsize : (items_table j.arrow_store).position_map.entries.size = 0 := by decide +kernel
  have htable : j.arrow_store.tables["items"]?.isSome := by decide +kernel
  refine ⟨by decide +kernel, by decide +kernel, hcount, by decide +kernel, by decide +kernel,
    by decide +kernel, by decide +kernel, fun kept hreads => ?_⟩
  obtain ⟨view, iter, hview, -, hreports, hrows⟩ :=
    hreads.world_view "items" _ (items_table_eq htable)
  have hlen := hreports.length_eq
  rw [List.length_map] at hlen
  rw [hview] at hcount
  simp only [Except.toOption, Option.bind_some, hrows, hlen] at hcount
  rw [hsize] at hcount
  cases hcount

end Items

end Journal

end Scharnhorst
