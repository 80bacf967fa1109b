/-
Checkpoints of the store: a directory per tick with one Arrow IPC file per table.

The writer takes the snapshot of the tick, or else the latest there is, and writes the
batches each of its tables has at the snapshot's own tick; a table without any gets no
file. The loader reads the files of the directory back. For a table it does not have it
makes a new one, whose spec it puts together from the schema of the first batch: the
storage type of a column is the text of its Arrow type. Nothing else is in the files, so
nothing else is restored.

The file system and `arrow::ipc` are not part of the repository. They are a parameter,
`CheckpointDisk`, over a disk of any type, and every call of it may fail.
-/
import Scharnhorst.Store

set_option autoImplicit false

namespace Scharnhorst

open Attempt

/-! ## The disk -/

/-- What the checkpoint functions ask of `std::fs` and of `arrow::ipc`. A file is named by
its path. -/
class CheckpointDisk (D : Type) where
  create_dir_all : D → String → Except String Unit × D
  is_dir : D → String → Bool
  /-- The names of the files in a directory. -/
  read_dir : D → String → Except String (List (Except String String))
  /-- `File::create`. -/
  create : D → String → Except String Unit × D
  /-- `File::open`, as far as it can fail. -/
  can_open : D → String → Except String Unit
  writer_try_new : D → String → Schema → Except String Unit × D
  writer_write : D → String → RecordBatch → Except String Unit × D
  writer_finish : D → String → Except String Unit × D
  reader_try_new : D → String → Except String (List (Except String RecordBatch))

/-- `path.extension()` is `arrow`: the `file_stem()`. A name that starts with its only dot
has no extension. -/
def arrow_stem (file_name : String) : Option String :=
  let chars := file_name.toList
  let extension := ".arrow".toList
  if extension.length < chars.length ∧ chars.drop (chars.length - extension.length) = extension then
    some (String.ofList (chars.take (chars.length - extension.length)))
  else none

/-- `WriteCheckpointToken`: whose `write_checkpoint` it is. -/
inductive WriteCheckpointToken where
  | Init
  | Commit
deriving DecidableEq

def checkpoint_dir (tick : Tick) : String := s!"checkpoint_{tick}"

namespace ArrowStore

/-! ## Writing -/

def latest_snapshot (s : ArrowStore) : ArrowStoreResult (Option WorldSnapshot) :=
  .ok (s.snapshots.keys.max?.bind (s.snapshots[·]?))

/-- The snapshot a checkpoint is written from. -/
def checkpoint_snapshot (s : ArrowStore) (tick : Tick) : Option WorldSnapshot :=
  match s.snapshots[tick]? with
  | some snapshot => some snapshot
  | none => s.snapshots.keys.max?.bind (s.snapshots[·]?)

section Disk

variable {D : Type} [CheckpointDisk D]

def write_checkpoint_batch (path : String) (disk : D) (batch : RecordBatch) :
    ArrowStoreResult Unit × D :=
  match CheckpointDisk.writer_write disk path batch with
  | (.error e, disk) => (.error (.Arrow s!"ipc write: {e}"), disk)
  | (.ok (), disk) => (.ok (), disk)

/-- One round of the loop over the snapshot's tables. -/
def write_checkpoint_table (snapshot : WorldSnapshot) (dir : String) (disk : D)
    (table_name : String) : ArrowStoreResult Unit × D :=
  match (snapshot.table_batches table_name).toOption.getD [] with
  -- no file for a table without batches; one of an earlier write stays
  | [] => (.ok (), disk)
  | first :: rest =>
    let path := s!"{dir}/{table_name}.arrow"
    match CheckpointDisk.create disk path with
    | (.error e, disk) => (.error (.Io s!"create file {path}: {e}"), disk)
    | (.ok (), disk) =>
      match CheckpointDisk.writer_try_new disk path first.schema with
      | (.error e, disk) => (.error (.Arrow s!"ipc writer: {e}"), disk)
      | (.ok (), disk) =>
        match forEach (write_checkpoint_batch path) disk (first :: rest) with
        | (.error e, disk) => (.error e, disk)
        | (.ok (), disk) =>
          match CheckpointDisk.writer_finish disk path with
          | (.error e, disk) => (.error (.Arrow s!"ipc finish: {e}"), disk)
          | (.ok (), disk) => (.ok (), disk)

/-- A store without snapshots writes nothing, and says that it went well. -/
def do_write_checkpoint (s : ArrowStore) (disk : D) (tick : Tick) : ArrowStoreResult Unit × D :=
  match s.checkpoint_snapshot tick with
  | none => (.ok (), disk)
  | some snapshot =>
    let dir := checkpoint_dir tick
    match CheckpointDisk.create_dir_all disk dir with
    | (.error e, disk) => (.error (.Io s!"create checkpoint dir: {e}"), disk)
    | (.ok (), disk) => forEach (write_checkpoint_table snapshot dir) disk snapshot.table_names

/-- `CommitStore::write_checkpoint`. -/
def write_checkpoint (s : ArrowStore) (disk : D) (tick : Tick) : ArrowStoreResult Unit × D :=
  match s.lifecycle.read_store with
  | .error e => (.error e, disk)
  | .ok lifecycle =>
    if lifecycle.is_initialization then
      (.error (.Lifecycle
        "write_checkpoint requires Simulation, but lifecycle is Initialization"), disk)
    else s.do_write_checkpoint disk tick

/-- `InitStore::write_checkpoint`: the same with the other token. -/
def init_write_checkpoint (s : ArrowStore) (disk : D) (tick : Tick) :
    ArrowStoreResult Unit × D :=
  match s.lifecycle.read_store with
  | .error e => (.error e, disk)
  | .ok lifecycle =>
    if lifecycle.is_simulation then
      (.error (.Lifecycle
        "write_checkpoint requires Initialization, but lifecycle is Simulation"), disk)
    else s.do_write_checkpoint disk tick

/-- `ArrowStore::write_checkpoint`, with the token of either handle. -/
def write_checkpoint_with (s : ArrowStore) (token : WriteCheckpointToken) (disk : D)
    (tick : Tick) : ArrowStoreResult Unit × D :=
  match token with
  | .Init => s.init_write_checkpoint disk tick
  | .Commit => s.write_checkpoint disk tick

/-! ## Loading -/

/-- One round of the loop over the directory's entries. -/
def read_checkpoint_entry (disk : D) (dir : String) (table_batches : Map String (List RecordBatch))
    (entry : Except String String) : ArrowStoreResult Unit × Map String (List RecordBatch) :=
  match entry with
  | .error e => (.error (.Io s!"read dir entry in {dir}: {e}"), table_batches)
  | .ok file_name =>
    match arrow_stem file_name with
    -- anything but an `.arrow` file is passed over
    | none => (.ok (), table_batches)
    | some table_name =>
      let path := s!"{dir}/{file_name}"
      match CheckpointDisk.can_open disk path with
      | .error e => (.error (.Io s!"open {path}: {e}"), table_batches)
      | .ok () =>
        match CheckpointDisk.reader_try_new disk path with
        | .error e => (.error (.Arrow s!"ipc reader for table {table_name}: {e}"), table_batches)
        | .ok results =>
          match results.mapM fun result => result.mapError fun e =>
              ArrowStoreError.Arrow s!"read batch from table {table_name}: {e}" with
          | .error e => (.error e, table_batches)
          | .ok batches => (.ok (), table_batches.insert table_name batches)

def read_checkpoint (disk : D) (dir : String) : ArrowStoreResult (Map String (List RecordBatch)) :=
  match CheckpointDisk.read_dir disk dir with
  | .error e => .error (.Io s!"read checkpoint dir {dir}: {e}")
  | .ok entries =>
    match forEach (read_checkpoint_entry disk dir) ∅ entries with
    | (.error e, _) => .error e
    | (.ok (), table_batches) => .ok table_batches

/-- The spec a loaded table gets: every column `Raw`, its storage type the `Display` text
of its Arrow type. A column whose name is taken is left out. -/
def checkpoint_spec (name : String) (schema : Schema) : TableSpec :=
  schema.fields.foldl (fun spec field =>
    let col := (ColumnSpec.new field.name .Raw field.data_type.to_string).with_nullable field.nullable
    match spec.with_column col with
    | .ok spec => spec
    | .error _ => spec) (.new name)

/-- A table made for a loaded file. -/
def create_loaded_table (s : ArrowStore) (name : String) : ArrowStore :=
  { s with
    tables := s.tables.insert name (.new (.new name .AppendOnly))
    table_id_map := s.table_id_map.insert s.next_table_id name
    next_table_id := (s.next_table_id + 1) % 2 ^ 64 }

/-- What is written to a table under its lock. -/
def fill_loaded_table (tick : Tick) (is_new : Bool) (batches : List RecordBatch)
    (table : VersionedTable) : VersionedTable :=
  let table :=
    match batches.head? with
    | some first => if is_new then table.set_spec (checkpoint_spec table.name first.schema) else table
    | none => table
  { table with versions := table.versions.insert tick batches }

/-- One round of the restore loop. -/
def restore_checkpoint_table (tick : Tick) (s : ArrowStore) (entry : String × List RecordBatch) :
    ArrowStoreResult Unit × ArrowStore :=
  let is_new := !s.tables.contains entry.1
  let s := if is_new then s.create_loaded_table entry.1 else s
  s.write_table entry.1 fun table => (.ok (), fill_loaded_table tick is_new entry.2 table)

/-- `InitStore::load_checkpoint`. -/
def load_checkpoint (s : ArrowStore) (disk : D) (tick : Tick) :
    ArrowStoreResult WorldSnapshot × ArrowStore :=
  match s.check_init with
  | .error e => (.error e, s)
  | .ok () =>
    let dir := checkpoint_dir tick
    if !CheckpointDisk.is_dir disk dir then
      (.error (.Io s!"checkpoint directory not found: {dir}"), s)
    else
      match read_checkpoint disk dir with
      | .error e => (.error e, s)
      | .ok table_batches =>
        if table_batches.isEmpty then
          (.error (.Io s!"no .arrow files found in checkpoint directory: {dir}"), s)
        else
          match s.create_drop_lock.read_store with
          | .error e => (.error e, s)
          | .ok () =>
            match forEach (restore_checkpoint_table tick) s table_batches.toList with
            | (.error e, s) => (.error e, s)
            | (.ok (), s) => s.do_generate_snapshot tick

end Disk

end ArrowStore

end Scharnhorst
