/-
`VersionedTable`, and what a diff does to one.

A table keeps a list of batches per tick and a position map from row ids to
`(batch_idx, row_offset)`. The position says nothing about the tick. To find a row
again, `apply_update_to_table` and `apply_delete_to_table` take the latest tick whose
list is long enough to have a batch of that index, and read the row there: this is
`loc_tick`, and `locate` is the whole rule.

Each of the four functions below returns a verdict and the table it leaves, since a
`&mut VersionedTable` keeps whatever was written before an error. Of the four only
`apply_replace_to_table` writes before it fails: it clears the position map first and
fills it row by row.
-/
import Scharnhorst.Index
import Scharnhorst.Maps
import Scharnhorst.Patch

set_option autoImplicit false

namespace Scharnhorst

open Attempt Maps

/-! ## The table -/

inductive MutationMode where
  | AppendOnly
  | Patchable
  | RebuildPerTick
deriving DecidableEq

abbrev Versions := Map Tick (List RecordBatch)

structure VersionedTable where
  name : String
  mutation_mode : MutationMode
  spec : Option TableSpec
  versions : Versions
  primary_key_index : PrimaryKeyIndex
  foreign_key_indices : List ForeignKeyIndex
  partitions : PartitionMap
  position_map : RowPositionMap
deriving DecidableEq

namespace VersionedTable

def new (name : String) (mode : MutationMode) : VersionedTable :=
  { name
    mutation_mode := mode
    spec := none
    versions := ∅
    primary_key_index := .new
    foreign_key_indices := []
    partitions := .new
    position_map := .new }

def set_spec (table : VersionedTable) (spec : TableSpec) : VersionedTable :=
  { table with spec := some spec }

/-- The batches of one tick; a tick without an entry has none. -/
def batches (table : VersionedTable) (tick : Tick) : List RecordBatch :=
  table.versions.getD tick []

end VersionedTable

/-! ## Where a row is -/

/-- The latest tick whose batch list is longer than `batch_idx`: the source collects
the ticks, sorts them and takes the last. -/
def loc_tick (versions : Versions) (batch_idx : Nat) : Option Tick :=
  lastKey versions fun batches => decide (batch_idx < batches.length)

theorem loc_tick_eq_some {versions : Versions} {b : Nat} {t : Tick} :
    loc_tick versions b = some t
      ↔ (∃ bs, versions[t]? = some bs ∧ b < bs.length)
        ∧ ∀ (t' : Tick) (bs' : List RecordBatch),
            versions[t']? = some bs' → b < bs'.length → t' ≤ t := by
  simp [loc_tick, lastKey_eq_some, Nat.isLE_compare]

theorem loc_tick_eq_none {versions : Versions} {b : Nat} :
    loc_tick versions b = none
      ↔ ∀ (t : Tick) (bs : List RecordBatch), versions[t]? = some bs → bs.length ≤ b := by
  simp [loc_tick, lastKey_eq_none]

/-- `loc_tick` looks at the lengths only. -/
theorem loc_tick_congr {v w : Versions} {b : Nat}
    (h : ∀ t : Tick, v[t]?.map List.length = w[t]?.map List.length) :
    loc_tick v b = loc_tick w b := by
  have hlong : ∀ (v w : Versions), (∀ t : Tick, v[t]?.map List.length = w[t]?.map List.length) →
      ∀ (t : Tick) (bs : List RecordBatch), v[t]? = some bs → b < bs.length →
        ∃ bs', w[t]? = some bs' ∧ b < bs'.length := by
    intro v w h t bs hbs hlt
    have ht := h t
    rw [hbs, Option.map_some, eq_comm, Option.map_eq_some_iff] at ht
    obtain ⟨bs', hbs', hlen⟩ := ht
    exact ⟨bs', hbs', by omega⟩
  rcases hv : loc_tick v b with _ | t
  · rw [eq_comm, loc_tick_eq_none]
    intro t bs hbs
    by_contra hlt
    obtain ⟨bs', hbs', hlt'⟩ := hlong w v (fun t => (h t).symm) t bs hbs (by omega)
    have := loc_tick_eq_none.1 hv t bs' hbs'
    omega
  · obtain ⟨⟨bs, hbs, hlt⟩, hmax⟩ := loc_tick_eq_some.1 hv
    rw [eq_comm, loc_tick_eq_some]
    refine ⟨hlong v w h t bs hbs hlt, fun t' bs' hbs' hlt' => ?_⟩
    obtain ⟨bs'', hbs'', hlt''⟩ := hlong w v (fun t => (h t).symm) t' bs' hbs' hlt'
    exact hmax t' bs'' hbs'' hlt''

namespace VersionedTable

/-- The location the position map and `loc_tick` give a row, with the batch that is
there, if the batch is long enough. -/
def locate (table : VersionedTable) (row : RowId) : Option (RowLocation × RecordBatch) := do
  let (batch_idx, row_offset) ← table.position_map.position_of row
  let tick ← loc_tick table.versions batch_idx
  let batch ← (table.batches tick)[batch_idx]?
  if row_offset < batch.row_count then
    some ({ tick, batch_index := batch_idx, row_index := row_offset, row_id := row }, batch)
  else none

/-- The cells the row resolves to. -/
def resolve (table : VersionedTable) (row : RowId) : Option (List Cell) :=
  (table.locate row).map fun (loc, batch) => batch.row loc.row_index

/-- One batch overwritten in place. -/
def set_batch (table : VersionedTable) (loc : RowLocation) (batch : RecordBatch) :
    VersionedTable :=
  { table with
    versions := table.versions.insert loc.tick
      ((table.batches loc.tick).set loc.batch_index batch) }

theorem locate_eq_some {table : VersionedTable} {row : RowId} {loc : RowLocation}
    {batch : RecordBatch} :
    table.locate row = some (loc, batch)
      ↔ table.position_map.position_of row = some (loc.batch_index, loc.row_index)
        ∧ loc_tick table.versions loc.batch_index = some loc.tick
        ∧ (table.batches loc.tick)[loc.batch_index]? = some batch
        ∧ loc.row_index < batch.row_count ∧ loc.row_id = row := by
  simp only [locate, Option.bind_eq_bind, Option.bind_eq_some_iff, Option.ite_none_right_eq_some,
    Option.some.injEq, Prod.mk.injEq, Prod.exists]
  constructor
  · rintro ⟨b, o, hp, t, ht, batch', hb, ho, rfl, rfl⟩
    exact ⟨hp, ht, hb, ho, rfl⟩
  · rintro ⟨hp, ht, hb, ho, rfl⟩
    exact ⟨_, _, hp, _, ht, _, hb, ho, rfl, rfl⟩

theorem batches_of_versions {table : VersionedTable} {tick : Tick} {bs : List RecordBatch}
    (h : table.versions[tick]? = some bs) : table.batches tick = bs := by
  rw [batches, Std.ExtTreeMap.getD_eq_getD_getElem?, h, Option.getD_some]

/-- A tick with a batch has an entry. -/
theorem versions_of_mem {table : VersionedTable} {tick : Tick} {batch : RecordBatch}
    (h : batch ∈ table.batches tick) : table.versions[tick]? = some (table.batches tick) := by
  rcases hv : table.versions[tick]? with _ | bs
  · simp [batches, Std.ExtTreeMap.getD_eq_getD_getElem?, hv] at h
  · rw [batches_of_versions hv]

theorem versions_of_lt {table : VersionedTable} {tick : Tick} {b : Nat}
    (h : b < (table.batches tick).length) :
    table.versions[tick]? = some (table.batches tick) :=
  versions_of_mem (List.getElem_mem h)

/-- The ways of not being located: no position, no tick with so many batches, a
batch too short. -/
theorem locate_eq_none {table : VersionedTable} {row : RowId} :
    table.locate row = none
      ↔ table.position_map.position_of row = none
        ∨ ∃ b o, table.position_map.position_of row = some (b, o)
          ∧ (loc_tick table.versions b = none
            ∨ ∃ t bs, loc_tick table.versions b = some t ∧ table.versions[t]? = some bs
              ∧ (bs[b]? = none ∨ ∃ batch, bs[b]? = some batch ∧ batch.row_count ≤ o)) := by
  rcases hpos : table.position_map.position_of row with _ | ⟨b, o⟩
  · simp [locate, hpos]
  rcases ht : loc_tick table.versions b with _ | t
  · simp [locate, hpos, ht]
  obtain ⟨⟨bs, hbs, -⟩, -⟩ := loc_tick_eq_some.1 ht
  have hbatches := batches_of_versions hbs
  rcases hb : bs[b]? with _ | batch
  · simpa [locate, hpos, ht, hbatches, hbs, hb] using List.getElem?_eq_none_iff.1 hb
  · have hlt : b < bs.length := (List.getElem?_eq_some_iff.1 hb).1
    simp [locate, hpos, ht, hbatches, hbs, hb, Nat.not_le.2 hlt]

/-- The tick a row is located at has an entry. -/
theorem versions_of_locate {table : VersionedTable} {row : RowId} {loc : RowLocation}
    {batch : RecordBatch} (h : table.locate row = some (loc, batch)) :
    table.versions[loc.tick]? = some (table.batches loc.tick) := by
  obtain ⟨-, htick, -⟩ := locate_eq_some.1 h
  obtain ⟨⟨bs, hbs, -⟩, -⟩ := loc_tick_eq_some.1 htick
  rw [batches_of_versions hbs, hbs]

end VersionedTable

end Scharnhorst
