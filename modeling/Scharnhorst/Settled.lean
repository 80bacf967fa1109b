/-
Tables in which every live row can be found.

An update or a delete finds its row through two things that are written separately: the
position map, and the batches that its entries point into. A table is settled when every
entry leads to some row of the table's schema. Which row it leads to is not part of it:
rows of two ticks may share a batch index (`items_aliased`), and an update is accepted all
the same.

Every diff that goes through keeps a table settled, at any tick. A failed call does when
the entries it leaves can be found in the batches that are put back, a truncation does
when it drops no batch that is the only one an entry can be found in.
-/
import Mathlib.Data.Set.Insert
import Scharnhorst.Atomic
import Scharnhorst.History
import Scharnhorst.Legal

set_option autoImplicit false

namespace Scharnhorst

open Attempt Maps

/-! ## Live ids -/

/-- The live ids of a table after a diff. -/
def live_step (pk_name : Option String) (live : Set RowId) : Diff → Set RowId
  | .Update _ _ _ _ => live
  | .Insert _ row _ => insert row live
  | .Delete _ row => live \ {row}
  | .ReplaceTable _ rows => {r | ∃ i row, rows[i]? = some row ∧ row_key pk_name i row = some r}

/-- A replace books exactly the ids that its rows ask for. -/
theorem replaced_entry_isSome {pk_name : Option String} {rows : List JsonMap} {r : RowId} :
    (replaced_entry pk_name rows r).isSome
      ↔ ∃ i row, rows[i]? = some row ∧ row_key pk_name i row = some r := by
  rw [replaced_entry, Option.isSome_map, List.find?_isSome]
  constructor
  · rintro ⟨⟨row, i⟩, hmem, hkey⟩
    exact ⟨i, row, List.mem_zipIdx_iff_getElem?.1 hmem, by simpa using hkey⟩
  · rintro ⟨i, row, hrow, hkey⟩
    exact ⟨(row, i), List.mem_zipIdx_iff_getElem?.2 hrow, by simpa using hkey⟩

/-- They are the live ids of the keyed table. -/
theorem live_keyed_step [Render] (schema : Schema) (pk_name : Option String) (t : Rows) (d : Diff) :
    {r | (keyed_step schema pk_name t d r).isSome}
      = live_step pk_name {r | (t r).isSome} d := by
  ext r
  cases d with
  | Update name row column value =>
      simp only [keyed_step, live_step, Addressing.KeyedTable.modify, Set.mem_ofPred_eq]
      split
      · rw [Option.isSome_map]
      · rfl
  | Insert name row values =>
      simp only [keyed_step, live_step, Addressing.KeyedTable.insert, Set.mem_ofPred_eq,
        Set.mem_insert_iff]
      by_cases hr : row = r
      · simp [hr]
      · simp [hr, Ne.symm hr]
  | Delete name row =>
      simp only [keyed_step, live_step, Addressing.KeyedTable.delete, Set.mem_ofPred_eq,
        Set.mem_sdiff, Set.mem_singleton_iff]
      by_cases hr : row = r
      · simp [hr]
      · simp [hr, Ne.symm hr]
  | ReplaceTable name rows =>
      rw [Set.mem_ofPred_eq, keyed_step, replaced_rows, Option.isSome_map]
      have h : (replaced_entry pk_name rows r).isSome ↔ _ := replaced_entry_isSome
      rw [replaced_entry, Option.isSome_map] at h
      exact h

/-! ## Where a batch index is found -/

theorem loc_tick_isSome {versions : Versions} {b : Nat} :
    (loc_tick versions b).isSome
      ↔ ∃ (t : Tick) (bs : List RecordBatch), versions[t]? = some bs ∧ b < bs.length := by
  constructor
  · intro h
    obtain ⟨t, ht⟩ := Option.isSome_iff_exists.1 h
    obtain ⟨bs, hbs⟩ := (loc_tick_eq_some.1 ht).1
    exact ⟨t, bs, hbs⟩
  · rintro ⟨t, bs, hbs, hlt⟩
    rw [Option.isSome_iff_ne_none, Ne, loc_tick_eq_none]
    intro hall
    exact Nat.not_lt.2 (hall t bs hbs) hlt

/-- A list that does not get shorter loses no index. -/
theorem loc_tick_grow {versions : Versions} {tick : Tick} {bs : List RecordBatch} {b : Nat}
    (hle : (versions.getD tick []).length ≤ bs.length) (h : (loc_tick versions b).isSome) :
    (loc_tick (versions.insert tick bs) b).isSome := by
  rw [loc_tick_isSome] at h ⊢
  obtain ⟨t, bs', hbs', hlt⟩ := h
  by_cases ht : tick = t
  · subst ht
    rw [getD_versions hbs'] at hle
    exact ⟨tick, bs, Std.ExtTreeMap.getElem?_insert_self, by omega⟩
  · exact ⟨t, bs', by simp [Std.ExtTreeMap.getElem?_insert, ht, hbs'], hlt⟩

/-! ## The invariant -/

/-- Rows of a schema, each in a batch of its own. -/
def RowsOf (schema : Schema) (versions : Versions) : Prop :=
  ∀ (tick : Tick) (bs : List RecordBatch), versions[tick]? = some bs →
    ∀ b ∈ bs, schema.fields ≠ [] ∧ OneRow schema b

theorem RowsOf.insert {schema : Schema} {versions : Versions} {tick : Tick}
    {bs : List RecordBatch} (h : RowsOf schema versions)
    (hbs : ∀ b ∈ bs, schema.fields ≠ [] ∧ OneRow schema b) :
    RowsOf schema (versions.insert tick bs) := by
  intro k bs' hk
  rw [Std.ExtTreeMap.getElem?_insert] at hk
  split at hk
  · obtain rfl : bs = bs' := by simpa using hk
    exact hbs
  · exact h k bs' hk

/-- The entries of the position map are those of the live rows, and each leads to a row. -/
structure Settled (schema : Schema) (live : Set RowId) (t : VersionedTable) : Prop where
  rows : RowsOf schema t.versions
  offset : ∀ r b o, t.position_map.position_of r = some (b, o) → o = 0
  found : ∀ r b o, t.position_map.position_of r = some (b, o) → (loc_tick t.versions b).isSome
  live_iff : ∀ r, r ∈ live ↔ (t.position_map.position_of r).isSome

namespace Settled

variable {schema : Schema} {live : Set RowId} {t t' : VersionedTable} {tick : Tick} {row : RowId}
  {loc : RowLocation} {batch : RecordBatch}

theorem listed (h : Settled schema live t) {b : RecordBatch} (hb : b ∈ t.batches tick) :
    schema.fields ≠ [] ∧ OneRow schema b :=
  h.rows tick _ (VersionedTable.versions_of_mem hb) b hb

/-- A live row is found, alone in its batch. -/
theorem locate (h : Settled schema live t) (hlive : row ∈ live) :
    ∃ loc batch, t.locate row = some (loc, batch) ∧ loc.row_index = 0
      ∧ schema.fields ≠ [] ∧ OneRow schema batch := by
  obtain ⟨⟨b, o⟩, hpos⟩ := Option.isSome_iff_exists.1 ((h.live_iff row).1 hlive)
  obtain rfl := h.offset row b o hpos
  obtain ⟨k, hk⟩ := Option.isSome_iff_exists.1 (h.found row b 0 hpos)
  obtain ⟨⟨bs, hbs, hlt⟩, -⟩ := loc_tick_eq_some.1 hk
  have hrow := h.rows k bs hbs bs[b] (List.getElem_mem hlt)
  refine ⟨⟨k, b, 0, row⟩, bs[b], VersionedTable.locate_eq_some.2 ⟨hpos, hk, ?_, ?_, rfl⟩, rfl, hrow⟩
  · rw [VersionedTable.batches_of_versions hbs, List.getElem?_eq_getElem hlt]
  · rw [hrow.2.one]
    exact Nat.one_pos

/-- Any other row is not. -/
theorem not_located (h : Settled schema live t) (hlive : row ∉ live) : t.locate row = none := by
  refine VersionedTable.locate_eq_none.2 (.inl ?_)
  rw [h.live_iff] at hlive
  simpa using hlive

theorem located (h : Settled schema live t) (hloc : t.locate row = some (loc, batch)) :
    row ∈ live ∧ loc.row_index = 0 ∧ schema.fields ≠ [] ∧ OneRow schema batch := by
  obtain ⟨hpos, -, hbatch, -⟩ := VersionedTable.locate_eq_some.1 hloc
  exact ⟨(h.live_iff row).2 (by rw [hpos]; rfl), h.offset _ _ _ hpos,
    h.listed (List.mem_of_getElem? hbatch)⟩

/-- Rewriting a located batch. -/
theorem set_batch {patched : RecordBatch} {g : List Cell → List Cell} (h : Settled schema live t)
    (hloc : t.locate row = some (loc, batch)) (hr : Rewrites batch patched loc.row_index g) :
    Settled schema live (t.set_batch loc patched) := by
  obtain ⟨-, -, hne, hone⟩ := h.located hloc
  refine ⟨h.rows.insert fun b hb => ?_, h.offset, fun r b o hpos => ?_, h.live_iff⟩
  · rcases List.mem_or_eq_of_mem_set hb with hold | rfl
    · exact h.listed hold
    · exact ⟨hne, hr.schema_eq.trans hone.schema_eq, hr.row_count_eq.trans hone.one, hr.aligned⟩
  · refine loc_tick_grow ?_ (h.found r b o hpos)
    rw [List.length_set, VersionedTable.batches]

end Settled

/-! ## One diff -/

section Diffs

variable [Render] {schema : Schema} {live : Set RowId} {t t' : VersionedTable} {tick : Tick}
  {reg : TypeRegistry}

omit [Render] in
/-- The ids after a diff are those that have an entry then. -/
theorem mem_live_step {pk_name : Option String} {d : Diff} {count : Nat} {r : RowId}
    {old : Option (Nat × Nat)} (h : r ∈ live ↔ old.isSome) :
    r ∈ live_step pk_name live d ↔ ((entry_move pk_name count r d).getD old).isSome := by
  cases d with
  | Update name row column value => exact h
  | Insert name row values =>
      rw [live_step, entry_move, Set.mem_insert_iff, h]
      by_cases hr : row = r
      · simp [hr]
      · simp [hr, Ne.symm hr]
  | Delete name row =>
      rw [live_step, entry_move, Set.mem_sdiff, Set.mem_singleton_iff, h]
      by_cases hr : row = r
      · simp [hr]
      · simp [hr, Ne.symm hr]
  | ReplaceTable name rows => exact replaced_entry_isSome.symm

/-- What is built of values is a row of the schema, alone in its batch. -/
theorem one_row_of_values {values : JsonMap} {batch : RecordBatch}
    (h : json_map_to_record_batch values schema = .ok batch) :
    schema.fields ≠ [] ∧ OneRow schema batch := by
  obtain ⟨hschema, hone, haligned, -⟩ := json_map_to_record_batch_spec h
  exact ⟨(exists_row.1 ⟨batch, h⟩).1, hschema, hone, haligned⟩

/-- Every diff that goes through keeps the table settled, whatever the tick. -/
theorem Settled.step {d : Diff} (h : Settled schema live t) (hspec : t.spec.isSome)
    (hschema : table_schema reg t = schema)
    (hrun : apply_to_table reg tick d t = (.ok (), t')) :
    Settled schema (live_step (pk_col_name t) live d) t' := by
  have hlive : ∀ r, r ∈ live_step (pk_col_name t) live d ↔ (t'.position_map.position_of r).isSome := by
    intro r
    rw [(booked_step hrun).entry_eq r]
    exact mem_live_step (h.live_iff r)
  cases d with
  | Update name row column value =>
      obtain ⟨loc, batch, patched, hloc, hb, rfl⟩ := apply_update_ok tick hrun
      have hrow := (VersionedTable.locate_eq_some.1 hloc).2.2.2.1
      -- the patched batch keeps its one row, and the position map is not touched
      obtain ⟨c, f, -, -, hr⟩ := update_batch_spec hrow hb
      exact h.set_batch hloc hr
  | Insert name row values =>
      obtain ⟨s, batch, hs, -, hbatch, rfl⟩ := apply_insert_ok hrun
      obtain rfl : schema = s := hschema.symm.trans (resolve_created _ hspec hs)
      -- the batch of the row joins those of the tick; the books gain one entry
      refine ⟨h.rows.insert fun b hb => ?_, fun r b o hpos => ?_, fun r b o hpos => ?_, hlive⟩
      · rcases List.mem_append.1 hb with hold | hnew
        · exact h.listed hold
        · obtain rfl := List.mem_singleton.1 hnew
          exact one_row_of_values hbatch
      · rw [RowPositionMap.position_of_insert] at hpos
        split at hpos
        · simp_all
        · exact h.offset r b o hpos
      · rw [RowPositionMap.position_of_insert] at hpos
        split at hpos
        · -- the new row is the last of its tick
          obtain ⟨rfl, -⟩ := Prod.mk.inj (Option.some.inj hpos)
          exact loc_tick_isSome.2 ⟨tick, _, Std.ExtTreeMap.getElem?_insert_self, by simp⟩
        · refine loc_tick_grow ?_ (h.found r b o hpos)
          rw [List.length_append, VersionedTable.batches]
          exact Nat.le_add_right _ _
  | Delete name row =>
      obtain ⟨loc, batch, patched, hloc, hb, rfl⟩ := apply_delete_ok tick hrun
      have hrow := (VersionedTable.locate_eq_some.1 hloc).2.2.2.1
      obtain ⟨g, hr⟩ := delete_batch_spec hrow hb
      -- the row is nulled where it stands, and only its entry goes
      have hset := h.set_batch hloc hr
      refine ⟨hset.rows, fun r b o hpos => ?_, fun r b o hpos => ?_, hlive⟩
      · rw [RowPositionMap.position_of_remove] at hpos
        split at hpos
        · cases hpos
        · exact h.offset r b o hpos
      · rw [RowPositionMap.position_of_remove] at hpos
        split at hpos
        · cases hpos
        · exact hset.found r b o hpos
  | ReplaceTable name rows =>
      obtain ⟨s, pm, batches, hs, hall, hpm, rfl⟩ := apply_replace_ok hrun
      obtain rfl : schema = s := hschema.symm.trans (replace_created hspec hs)
      -- the old books are dropped: each entry is of a batch that the rows made
      have hentry : ∀ r b o, pm.position_of r = some (b, o) → o = 0 ∧ b < batches.length := by
        intro r b o hpos
        obtain ⟨hzero, row, hrow, -⟩ := replaced_entry_some ((hpm r).symm.trans hpos)
        refine ⟨hzero, ?_⟩
        rw [← hall.length_eq]
        exact (List.getElem?_eq_some_iff.1 hrow).1
      refine ⟨h.rows.insert fun b hb => ?_, fun r b o hpos => (hentry r b o hpos).1,
        fun r b o hpos => ?_, hlive⟩
      · obtain ⟨i, hi, rfl⟩ := List.getElem_of_mem hb
        have hi' : i < rows.length := by rw [hall.length_eq]; exact hi
        exact one_row_of_values (hall.get hi' hi)
      · exact loc_tick_isSome.2
          ⟨tick, batches, Std.ExtTreeMap.getElem?_insert_self, (hentry r b o hpos).2⟩

/-! ## A call that fails -/

omit [Render] in
/-- The rows that a diff books are at offset 0. -/
theorem last_entry_offset {pk_name : Option String} {r : RowId} {count : Nat} {ds : List Diff}
    {b o : Nat} (h : last_entry pk_name r count ds = some (some (b, o))) : o = 0 := by
  induction ds generalizing count with
  | nil => cases h
  | cons d ds ih =>
      rw [last_entry] at h
      rcases hlast : last_entry pk_name r (count_move count d) ds with _ | e
      · rw [hlast, Option.none_or] at h
        cases d with
        | Update name row column value => cases h
        | Insert name row values =>
            rw [entry_move] at h
            split at h
            · simp_all
            · cases h
        | Delete name row =>
            rw [entry_move] at h
            split at h <;> simp at h
        | ReplaceTable name rows => exact (replaced_entry_some (Option.some.inj h)).1
      · rw [hlast, Option.some_or] at h
        exact ih (hlast.trans h)

/-- What a list of diffs leaves in the position map fits the batches that the table had:
every row has an entry as before, and it leads to one of them. -/
def EntriesStay (tick : Tick) (t : VersionedTable) (ds : List Diff) : Prop :=
  ∀ r e, last_entry (pk_col_name t) r (t.batches tick).length ds = some e →
    e.isSome = (t.position_map.position_of r).isSome
      ∧ ∀ p, e = some p → (loc_tick t.versions p.1).isSome

/-- The batches go back, the position map does not. -/
theorem Settled.put_back {ds : List Diff} (h : Settled schema live t)
    (hbooked : BookedTable tick t t' ds) (hstay : EntriesStay tick t ds) :
    Settled schema live { t' with versions := t.versions } := by
  have hentry : ∀ r, t'.position_map.position_of r = t.position_map.position_of r
      ∨ ∃ e, last_entry (pk_col_name t) r (t.batches tick).length ds = some e
        ∧ t'.position_map.position_of r = e := by
    intro r
    have hr := hbooked.entry_eq r
    rcases hlast : last_entry (pk_col_name t) r (t.batches tick).length ds with _ | e
    · rw [hlast] at hr
      exact .inl hr
    · rw [hlast] at hr
      exact .inr ⟨e, rfl, hr⟩
  refine ⟨h.rows, fun r b o hpos => ?_, fun r b o hpos => ?_, fun r => ?_⟩
  · rcases hentry r with hold | ⟨e, hlast, hnew⟩
    · exact h.offset r b o (hold.symm.trans hpos)
    · obtain rfl : e = some (b, o) := hnew.symm.trans hpos
      exact last_entry_offset hlast
  · rcases hentry r with hold | ⟨e, hlast, hnew⟩
    · exact h.found r b o (hold.symm.trans hpos)
    · exact (hstay r e hlast).2 (b, o) (hnew.symm.trans hpos)
  · rw [h.live_iff]
    change _ ↔ (t'.position_map.position_of r).isSome = true
    rcases hentry r with hold | ⟨e, hlast, hnew⟩
    · rw [hold]
    · rw [hnew, (hstay r e hlast).1]

/-! ## Patches and truncation -/

omit [Render] in
/-- Patching rows by location rewrites batches, and moves none. -/
theorem Settled.patch {name : String} {locations : List RowLocation} {batch : RecordBatch}
    (h : Settled schema live t) :
    Settled schema live (apply_patch_to_versions t name tick locations batch).2 := by
  unfold apply_patch_to_versions
  split
  · exact h
  rcases hv : t.versions[tick]? with _ | versions
  · exact h
  have hkept := forEach_invariant (group_locations locations).toList (f := patch_group batch)
    (P := fun vs => vs.length = versions.length ∧ ∀ b ∈ vs, schema.fields ≠ [] ∧ OneRow schema b)
    ?_ (s := versions) ⟨rfl, h.rows tick versions hv⟩
  · refine ⟨h.rows.insert hkept.2, h.offset, fun r b o hpos => ?_, h.live_iff⟩
    refine loc_tick_grow ?_ (h.found r b o hpos)
    rw [getD_versions hv]
    exact Nat.le_of_eq hkept.1.symm
  · rintro vs ⟨k, patches⟩ - ⟨hlen, hrows⟩
    unfold patch_group
    rcases hk : vs[k]? with _ | original
    · exact ⟨hlen, hrows⟩
    dsimp only
    rcases hp : patch_record_batch original batch patches with e | patched
    · exact ⟨hlen, hrows⟩
    obtain ⟨hne, hone⟩ := hrows original (List.mem_of_getElem? hk)
    obtain ⟨hs, hn, ha⟩ := patch_record_batch_spec hp
    refine ⟨by rw [List.length_set, hlen], fun b hb => ?_⟩
    rcases List.mem_or_eq_of_mem_set hb with hold | rfl
    · exact hrows b hold
    · exact ⟨hne, hs.trans hone.schema_eq, hn.trans hone.one, ha⟩

omit [Render] in
/-- A truncation after which every located row is still found. -/
theorem Settled.truncated (h : Settled schema live t)
    (hstays : ∀ row loc batch, t.locate row = some (loc, batch) → tick ≤ loc.tick) :
    Settled schema live (t.truncated tick) := by
  refine ⟨fun k bs hk => ?_, h.offset, fun r b o hpos => ?_, h.live_iff⟩
  · rw [VersionedTable.truncated, versions_truncated] at hk
    split at hk
    · exact h.rows k bs hk
    · cases hk
  · have hlive : r ∈ live := (h.live_iff r).2 (by
      rw [show t.position_map.position_of r = some (b, o) from hpos]
      rfl)
    obtain ⟨loc, batch, hloc, -⟩ := h.locate hlive
    obtain ⟨hpos', htick, -⟩ := VersionedTable.locate_eq_some.1 hloc
    obtain rfl : b = loc.batch_index := congrArg Prod.fst (Option.some.inj (hpos.symm.trans hpos'))
    rw [VersionedTable.truncated, loc_tick_truncated, htick, Option.bind_some,
      if_pos (hstays r loc batch hloc)]
    rfl

end Diffs

end Scharnhorst
