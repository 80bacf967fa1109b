/-
Key indexes and partitions: the parts of a table that sit beside its batches.

The primary-key index has a hot layer, the newest location of each key, and a cold
layer, every location ever recorded. Nothing removes from either when a row is
deleted or a commit is undone, so what an `insert` does to the index is all that
ever happens to it during simulation.
-/
import Scharnhorst.Arrow

set_option autoImplicit false

namespace Scharnhorst

/-! ## Row locations -/

structure RowLocation where
  tick : Tick
  batch_index : Nat
  row_index : Nat
  row_id : RowId
deriving DecidableEq

/-! ## Key indexes -/

structure PrimaryKeyIndex where
  latest_entries : Map String (Tick × Nat × Nat)
  /-- `none` when history is disabled. -/
  historical_entries : Option (Map String (List (Tick × Nat × Nat)))
deriving DecidableEq

namespace PrimaryKeyIndex

def new : PrimaryKeyIndex := ⟨∅, some ∅⟩

def with_history (enabled : Bool) : PrimaryKeyIndex := ⟨∅, if enabled then some ∅ else none⟩

/-- The hot layer keeps the newer of two entries, and the later of two equally new
ones; the cold layer keeps all. -/
def insert (index : PrimaryKeyIndex) (key : String) (tick : Tick) (batch_idx row_idx : Nat) :
    PrimaryKeyIndex :=
  let should_update :=
    match index.latest_entries[key]? with
    | some (existing_tick, _, _) => decide (existing_tick ≤ tick)
    | none => true
  { latest_entries :=
      if should_update then index.latest_entries.insert key (tick, batch_idx, row_idx)
      else index.latest_entries
    historical_entries :=
      index.historical_entries.map fun hist =>
        hist.insert key (hist.getD key [] ++ [(tick, batch_idx, row_idx)]) }

/-- Every location ever recorded for a key, `none` when history is disabled. -/
def lookup (index : PrimaryKeyIndex) (key : String) : Option (List (Tick × Nat × Nat)) :=
  index.historical_entries.bind fun hist => hist[key]?

/-- The newest location of a key. -/
def lookup_latest (index : PrimaryKeyIndex) (key : String) : Option (Tick × Nat × Nat) :=
  index.latest_entries[key]?

/-- Takes a key out of both layers; what it returns comes from the cold one. -/
def remove_key (index : PrimaryKeyIndex) (key : String) :
    Option (List (Tick × Nat × Nat)) × PrimaryKeyIndex :=
  (index.lookup key,
    { latest_entries := index.latest_entries.erase key
      historical_entries := index.historical_entries.map fun hist => hist.erase key })

def keys (index : PrimaryKeyIndex) : List String := index.latest_entries.keys

def is_empty (index : PrimaryKeyIndex) : Bool := index.latest_entries.isEmpty

def len (index : PrimaryKeyIndex) : Nat := index.latest_entries.size

def history_enabled (index : PrimaryKeyIndex) : Bool := index.historical_entries.isSome

end PrimaryKeyIndex

/-- The same two layers, for a column that refers to another table. -/
structure ForeignKeyIndex extends PrimaryKeyIndex where
  column_name : String
  target_table : String
deriving DecidableEq

/-! ## Partitions -/

structure Partition where
  region_id : String
  batches : List RecordBatch
deriving DecidableEq

structure PartitionMap where
  partitions : Map String Partition
deriving DecidableEq

namespace PartitionMap

def new : PartitionMap := ⟨∅⟩

def get (m : PartitionMap) (region_id : String) : ArrowStoreResult Partition :=
  match m.partitions[region_id]? with
  | some p => .ok p
  | none => .error (.PartitionNotFound region_id)

def region_ids (m : PartitionMap) : List String := m.partitions.keys

end PartitionMap

structure PartitionSnapshot where
  region_id : String
  tick : Tick
  batches : List RecordBatch
deriving DecidableEq

end Scharnhorst
