/-
`ArrowStore`: the tables behind their locks, the snapshots, and the operations of
the two phases.

The store starts in Initialization, where tables are created; `into_simulation`
moves it on for good, and from then on it changes by commits. `InitStore` and
`CommitStore` are the same store behind a token, so the operations are stated on the
store and a token is not an argument.

Two pieces of the source are the point of this file and are kept as they are
written. `apply_diffs` saves the batches of the tables it is about to touch, applies
the diffs one by one, and on an error puts the saved batches back.
`restore_table_versions`, which the journal calls for failures later in a commit,
puts back the same thing. Neither saves or restores anything else.
-/
import Scharnhorst.ApplySpec

set_option autoImplicit false

namespace Scharnhorst

open Attempt

/-! ## Snapshots -/

/-- `WorldSnapshot`: the tables as they were, under the snapshot's tick. -/
structure WorldSnapshot where
  tick : Tick
  tables : Map String VersionedTable
  partition_views : Map String (Map String PartitionSnapshot)
deriving DecidableEq

namespace WorldSnapshot

def new (tick : Tick) : WorldSnapshot := { tick, tables := ∅, partition_views := ∅ }

def table_names (snapshot : WorldSnapshot) : List String := snapshot.tables.keys

def register_table (snapshot : WorldSnapshot) (name : String) (table : VersionedTable) :
    WorldSnapshot :=
  { snapshot with tables := snapshot.tables.insert name table }

def get_table (snapshot : WorldSnapshot) (name : String) : ArrowStoreResult VersionedTable :=
  match snapshot.tables[name]? with
  | some table => .ok table
  | none => .error (.TableNotFound name)

/-- The batches of a table at the snapshot's own tick. -/
def table_batches (snapshot : WorldSnapshot) (name : String) :
    ArrowStoreResult (List RecordBatch) :=
  (snapshot.get_table name).map fun table => table.batches snapshot.tick

def register_partition_snapshot (snapshot : WorldSnapshot) (table_name : String)
    (ps : PartitionSnapshot) : WorldSnapshot :=
  { snapshot with
    partition_views := snapshot.partition_views.insert table_name
      ((snapshot.partition_views.getD table_name ∅).insert ps.region_id ps) }

end WorldSnapshot

/-! ## The store -/

structure ArrowStore where
  tables : Map String (RwLock VersionedTable)
  table_id_map : Map TableId String
  snapshots : Map Tick WorldSnapshot
  next_table_id : Nat
  generation : Nat
  type_registry : RwLock TypeRegistry
  create_drop_lock : RwLock Unit
  lifecycle : RwLock LifecycleGuard
deriving DecidableEq

namespace ArrowStore

def new : ArrowStore :=
  { tables := ∅
    table_id_map := ∅
    snapshots := ∅
    next_table_id := 0
    generation := 0
    type_registry := .new default_type_registry
    create_drop_lock := .new ()
    lifecycle := .new .new }

/-- The guard of every initialization-phase operation. -/
def check_init (s : ArrowStore) : ArrowStoreResult Unit := do
  let lifecycle ← s.lifecycle.read_store
  if lifecycle.is_simulation then
    .error (.Lifecycle "operation not allowed during simulation")

/-- The guard of every commit-phase operation. -/
def check_commit (s : ArrowStore) : ArrowStoreResult Unit := do
  let lifecycle ← s.lifecycle.read_store
  if lifecycle.is_initialization then
    .error (.Lifecycle "commit operation not allowed during initialization")

/-- Run `f` on a table under its write lock. -/
def write_table {α : Type} (s : ArrowStore) (name : String)
    (f : VersionedTable → ArrowStoreResult α × VersionedTable) :
    ArrowStoreResult α × ArrowStore :=
  match s.tables[name]? with
  | none => (.error (.TableNotFound name), s)
  | some lock =>
    let (result, lock') := lock.write_with f
    (result, { s with tables := s.tables.insert name lock' })

/-! ## Initialization -/

def create_table (s : ArrowStore) (spec : TableSpec) (mode : MutationMode) :
    ArrowStoreResult TableId × ArrowStore :=
  match s.check_init >>= fun _ => s.create_drop_lock.read_store with
  | .error e => (.error e, s)
  | .ok () =>
    if s.tables.contains spec.name then
      (.error (.TableAlreadyExists spec.name), s)
    else
      let id := s.next_table_id
      let table := (VersionedTable.new spec.name mode).set_spec spec
      (.ok id,
        { s with
          next_table_id := (id + 1) % 2 ^ 64
          tables := s.tables.insert spec.name (.new table)
          table_id_map := s.table_id_map.insert id spec.name })

/-- The rows are put into the batches and nowhere else: the position map and the key index
stay as they are. -/
def append_batches (s : ArrowStore) (name : String) (tick : Tick) (batches : List RecordBatch) :
    ArrowStoreResult Unit × ArrowStore :=
  match s.check_init with
  | .error e => (.error e, s)
  | .ok () =>
    s.write_table name fun table =>
      (.ok (),
        { table with versions := table.versions.insert tick (table.batches tick ++ batches) })

/-- `InitStore::into_simulation`, which is `advance_to_simulation`. -/
def into_simulation (s : ArrowStore) : ArrowStoreResult Unit × ArrowStore :=
  match s.lifecycle.read_store with
  | .error e => (.error e, s)
  | .ok guard =>
    match guard.advance_to_simulation with
    | .error e => (.error (.Lifecycle e), s)
    | .ok guard => (.ok (), { s with lifecycle := .new guard })

/-! ## Reads -/

def get_table (s : ArrowStore) (name : String) : ArrowStoreResult VersionedTable :=
  match s.tables[name]? with
  | none => .error (.TableNotFound name)
  | some lock => lock.read_store

def get_table_batches (s : ArrowStore) (name : String) (tick : Tick) :
    ArrowStoreResult (List RecordBatch) :=
  (s.get_table name).map fun table => table.batches tick

def get_snapshot (s : ArrowStore) (tick : Tick) : ArrowStoreResult WorldSnapshot :=
  match s.snapshots[tick]? with
  | some snapshot => .ok snapshot
  | none => .error (.SnapshotNotFound tick)

/-! ## Snapshots and truncation -/

/-- The inner loop of `do_generate_snapshot`: one partition. -/
def snapshot_partition (name : String) (table : VersionedTable) (snapshot : WorldSnapshot)
    (region_id : String) : ArrowStoreResult Unit × WorldSnapshot :=
  match table.partitions.get region_id with
  | .error e => (.error e, snapshot)
  | .ok partition =>
    (.ok (), snapshot.register_partition_snapshot name
      { region_id, tick := snapshot.tick, batches := partition.batches })

/-- The outer loop: one table. -/
def snapshot_table (snapshot : WorldSnapshot) (entry : String × RwLock VersionedTable) :
    ArrowStoreResult Unit × WorldSnapshot :=
  match entry.2.read_store with
  | .error e => (.error e, snapshot)
  | .ok table =>
    forEach (snapshot_partition entry.1 table) (snapshot.register_table entry.1 table)
      table.partitions.region_ids

/-- The generation counter moves also when a lock turns out to be poisoned. -/
def do_generate_snapshot (s : ArrowStore) (tick : Tick) :
    ArrowStoreResult WorldSnapshot × ArrowStore :=
  let s := { s with generation := (s.generation + 1) % 2 ^ 64 }
  match forEach snapshot_table (.new tick) s.tables.toList with
  | (.error e, _) => (.error e, s)
  | (.ok (), snapshot) => (.ok snapshot, { s with snapshots := s.snapshots.insert tick snapshot })

def generate_snapshot (s : ArrowStore) (tick : Tick) :
    ArrowStoreResult WorldSnapshot × ArrowStore :=
  match s.check_commit with
  | .error e => (.error e, s)
  | .ok () => s.do_generate_snapshot tick

/-- The loop of `truncate_before` over the tables. -/
def truncate_table (tick : Tick) (s : ArrowStore) (name : String) :
    ArrowStoreResult Unit × ArrowStore :=
  s.write_table name fun table =>
    (.ok (), { table with versions := table.versions.filter fun t _ => decide (tick ≤ t) })

/-- Drops snapshots and batches of earlier ticks; the position maps are not
looked at. -/
def truncate_before (s : ArrowStore) (tick : Tick) : ArrowStoreResult Unit × ArrowStore :=
  match s.check_commit with
  | .error e => (.error e, s)
  | .ok () =>
    let s := { s with snapshots := s.snapshots.filter fun t _ => decide (tick ≤ t) }
    forEach (truncate_table tick) s s.tables.keys

/-! ## Patching rows by location -/

def patch_rows (s : ArrowStore) (name : String) (tick : Tick) (locations : List RowLocation)
    (batch : RecordBatch) : ArrowStoreResult Unit × ArrowStore :=
  match s.check_commit with
  | .error e => (.error e, s)
  | .ok () =>
    if locations.isEmpty then (.ok (), s)
    else s.write_table name fun table => apply_patch_to_versions table name tick locations batch

/-! ## Applying diffs -/

section Diffs

variable [Render]

def apply_diff_update (s : ArrowStore) (tick : Tick) (table_name : String) (row : RowId)
    (column : String) (value : Json) : ArrowStoreResult Unit × ArrowStore :=
  s.write_table table_name fun table => apply_update_to_table table table_name tick row column value

def apply_diff_delete (s : ArrowStore) (tick : Tick) (table_name : String) (row : RowId) :
    ArrowStoreResult Unit × ArrowStore :=
  s.write_table table_name fun table => apply_delete_to_table table table_name tick row

def apply_diff_insert (s : ArrowStore) (tick : Tick) (table_name : String) (row : RowId)
    (values : JsonMap) : ArrowStoreResult Unit × ArrowStore :=
  match s.type_registry.read_store with
  | .error e => (.error e, s)
  | .ok type_reg =>
    s.write_table table_name fun table =>
      apply_insert_to_table table table_name tick row values type_reg

def apply_diff_replace (s : ArrowStore) (tick : Tick) (table_name : String)
    (rows : List JsonMap) : ArrowStoreResult Unit × ArrowStore :=
  match s.type_registry.read_store with
  | .error e => (.error e, s)
  | .ok type_reg =>
    s.write_table table_name fun table =>
      apply_replace_to_table table table_name tick rows type_reg

/-- The dispatch in the loop of `apply_diffs`. -/
def apply_diff (tick : Tick) (s : ArrowStore) (diff : Diff) : ArrowStoreResult Unit × ArrowStore :=
  match diff with
  | .Update table row column value => s.apply_diff_update tick table row column value
  | .Insert table row values => s.apply_diff_insert tick table row values
  | .Delete table row => s.apply_diff_delete tick table row
  | .ReplaceTable table rows => s.apply_diff_replace tick table rows

/-- One round of the saving loop; a table that does not exist is skipped. -/
def save_one (s : ArrowStore) (saved : Map String Versions) (name : String) :
    ArrowStoreResult Unit × Map String Versions :=
  match s.tables[name]? with
  | none => (.ok (), saved)
  | some lock =>
    match lock.read_store with
    | .error e => (.error e, saved)
    | .ok table => (.ok (), saved.insert name table.versions)

def save_table_versions (s : ArrowStore) (table_names : List String) :
    ArrowStoreResult (Map String Versions) :=
  match forEach s.save_one ∅ table_names with
  | (.error e, _) => .error e
  | (.ok (), saved) => .ok saved

/-- One round of the restoring loop. -/
def restore_one (s : ArrowStore) (entry : String × Versions) :
    ArrowStoreResult Unit × ArrowStore :=
  match s.tables[entry.1]? with
  | none => (.ok (), s)
  | some _ => s.write_table entry.1 fun table => (.ok (), { table with versions := entry.2 })

def restore_table_versions (s : ArrowStore) (saved : Map String Versions) :
    ArrowStoreResult Unit × ArrowStore :=
  forEach restore_one s saved.toList

/-- Applies the diffs in order. On an error the saved batches go back, skipping over
a poisoned lock, and the error is returned. -/
def apply_diffs (s : ArrowStore) (tick : Tick) (diffs : List Diff) :
    ArrowStoreResult Unit × ArrowStore :=
  match s.check_commit with
  | .error e => (.error e, s)
  | .ok () =>
    let touched_tables := (diffs.map Diff.table).dedup
    -- the source repeats the loop of `save_table_versions` here
    match s.save_table_versions touched_tables with
    | .error e => (.error e, s)
    | .ok saved_versions =>
      match forEach (apply_diff tick) s diffs with
      | (.ok (), s') => (.ok (), s')
      | (.error e, s') =>
        (.error e, saved_versions.toList.foldl (fun s entry => (restore_one s entry).2) s')

end Diffs

end ArrowStore

end Scharnhorst
