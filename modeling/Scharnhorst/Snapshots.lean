/-
The snapshot files of the save system: one file for each generation, in one directory.

A file is a header of JSON with its length in front, then the number of tables, and for
each table its name and its bytes, each with its length in front. The generation is in
the file's name, and that is where the listing of the directory takes it from.

The file system is a parameter, `SaveDisk`, over a disk of any type, and every call of it
may fail. So is the JSON text of a header.
-/
import Mathlib.Data.List.Sort
import Scharnhorst.Journal
import Scharnhorst.Manifest

set_option autoImplicit false

namespace Scharnhorst

open Attempt

/-! ## Errors -/

/-- `ContentError`, the variants that the modelled functions raise. -/
inductive ContentError where
  | CompilationFailed (table reason : String)
  | InvalidPhaseTransition (phase_from phase_to : String)
  | PhaseAlreadyCompleted (phase : String)
deriving DecidableEq

def ContentError.to_string : ContentError → String
  | CompilationFailed table reason => s!"compilation failed for table {table}: {reason}"
  | InvalidPhaseTransition phase_from phase_to =>
    s!"invalid lifecycle phase transition: {phase_from} -> {phase_to}"
  | PhaseAlreadyCompleted phase => s!"lifecycle phase {phase} already completed"

/-- `SaveError`, the variants that the modelled functions raise. -/
inductive SaveError where
  | SnapshotNotFound (message : String)
  | SnapshotAlreadyExists (message : String)
  | CorruptedSnapshot (message : String)
  | StateHashMismatch (expected got : UInt64)
  | JournalTruncation (message : String)
  | MigrationFailed (version_from version_to reason : String)
  | NoMigrationPath (version : String)
  | CriticalModMissing (mod_id : String)
  | InvalidPhaseTransition (phase_from phase_to : String)
  | IpcSerialization (message : String)
  | IpcDeserialization (message : String)
  | Io (message : String)
  | Generic (message : String)
  | Schema (e : SchemaError)
  | ArrowStore (e : ArrowStoreError)
  | Content (e : ContentError)
deriving DecidableEq

abbrev SaveResult := Except SaveError

/-- The `Display` text of an error. -/
def SaveError.to_string : SaveError → String
  | SnapshotNotFound message => s!"snapshot not found: {message}"
  | SnapshotAlreadyExists message => s!"snapshot already exists: {message}"
  | CorruptedSnapshot message => s!"corrupted snapshot: {message}"
  | StateHashMismatch expected got => s!"state hash mismatch: expected {expected}, got {got}"
  | JournalTruncation message => s!"journal truncation failed: {message}"
  | MigrationFailed version_from version_to reason =>
    s!"migration failed from version {version_from} to {version_to}: {reason}"
  | NoMigrationPath version => s!"no migration path from version {version}"
  | CriticalModMissing mod_id => s!"critical mod missing: {mod_id}"
  | InvalidPhaseTransition phase_from phase_to =>
    s!"invalid load phase transition: {phase_from} -> {phase_to}"
  | IpcSerialization message => s!"ipc serialization error: {message}"
  | IpcDeserialization message => s!"ipc deserialization error: {message}"
  | Io message => s!"io error: {message}"
  | Generic message => s!"generic error: {message}"
  | Schema e => e.to_string
  | ArrowStore e => e.to_string
  | Content e => e.to_string

/-! ## The disk -/

/-- What the save functions ask of `std::fs`. A file is named by its path. -/
class SaveDisk (D : Type) where
  /-- `Path::exists`. -/
  path_exists : D → String → Bool
  /-- The names of the files in a directory. -/
  read_dir : D → String → Except String (List (Except String String))
  create_dir_all : D → String → Except String Unit × D
  /-- `File::create`. -/
  create : D → String → Except String Unit × D
  /-- `write_all` to the end of the file that was created last under the path. -/
  write_all : D → String → List UInt8 → Except String Unit × D
  flush : D → String → Except String Unit × D
  rename : D → String → String → Except String Unit × D
  remove_file : D → String → Except String Unit × D
  /-- `File::open`, as far as it can fail. -/
  open_file : D → String → Except String Unit
  /-- `read_exact` of so many bytes from a position on. -/
  read_exact : D → String → Nat → Nat → Except String (List UInt8)

/-- `serde_json` of a type that is written to a file. -/
class JsonBytes (α : Type) where
  to_vec : α → Except String (List UInt8)
  from_slice : List UInt8 → Except String α

/-- `u64::to_le_bytes`. -/
def to_le_bytes (n : Nat) : List UInt8 :=
  (List.range 8).map fun i => (n / 256 ^ i).toUInt8

/-- `u64::from_le_bytes`. -/
def from_le_bytes (bytes : List UInt8) : Nat :=
  bytes.foldr (fun byte n => byte.toNat + 256 * n) 0

/-! ## Snapshots -/

structure SnapshotHeader where
  schema_manifest : SchemaManifest
  generation : Tick
  state_hash : UInt64
deriving DecidableEq

structure PersistedSnapshot where
  header : SnapshotHeader
  /-- The tables' names and bytes. -/
  table_data : Map String (List UInt8)
deriving DecidableEq

structure SnapshotPersistence where
  base_dir : String
  tier_registry : Option TierRegistry
deriving DecidableEq

/-- `str::strip_prefix`. -/
def strip_prefix (name front : String) : Option String :=
  if front.toList.isPrefixOf name.toList then
    some (String.ofList (name.toList.drop front.length))
  else none

/-- `str::strip_suffix`. -/
def strip_suffix (name ending : String) : Option String :=
  if ending.toList.isSuffixOf name.toList then
    some (String.ofList (name.toList.take (name.length - ending.length)))
  else none

/-- The generation that the name of a snapshot file stands for. -/
def snapshot_generation (file_name : String) : Option Tick := do
  let rest ← strip_prefix file_name "snapshot_gen_"
  let num ← strip_suffix rest ".arrow"
  parse_u64 num

namespace SnapshotPersistence

def new (base_dir : String) : SnapshotPersistence := { base_dir, tier_registry := none }

def with_tier_registry (p : SnapshotPersistence) (tier_registry : TierRegistry) :
    SnapshotPersistence :=
  { p with tier_registry := some tier_registry }

def snapshot_path (p : SnapshotPersistence) (generation : Tick) : String :=
  s!"{p.base_dir}/snapshot_gen_{generation}.arrow"

section Disk

variable {D : Type} [SaveDisk D]

/-- The snapshot files of the directory, sorted by generation. What is no snapshot, or
cannot be read from the directory, is passed over. -/
def list_snapshots (p : SnapshotPersistence) (disk : D) : SaveResult (List (Tick × String)) :=
  match SaveDisk.read_dir disk p.base_dir with
  | .error e => .error (.Io s!"read_dir: {e}")
  | .ok entries =>
    let results := entries.filterMap fun entry =>
      entry.toOption.bind fun file_name =>
        (snapshot_generation file_name).map fun tick => (tick, s!"{p.base_dir}/{file_name}")
    .ok (results.insertionSort fun a b => a.1 ≤ b.1)

def latest_snapshot (p : SnapshotPersistence) (disk : D) : SaveResult (Option (Tick × String)) :=
  (p.list_snapshots disk).map List.getLast?

/-- One `write_all` under the text its error carries. -/
def write_part (path what : String) (bytes : List UInt8) (disk : D) : SaveResult Unit × D :=
  match SaveDisk.write_all disk path bytes with
  | (.error e, disk) => (.error (.Io s!"{what}: {e}"), disk)
  | (.ok (), disk) => (.ok (), disk)

/-- The parts of one table. -/
def table_parts (entry : String × List UInt8) : List (String × List UInt8) :=
  let name_bytes := entry.1.toUTF8.toList
  [("write name len", to_le_bytes name_bytes.length), ("write name", name_bytes),
    ("write data len", to_le_bytes entry.2.length), ("write data", entry.2)]

/-- The parts of a file, in the order they are written in. -/
def file_parts (header_bytes : List UInt8) (tables : List (String × List UInt8)) :
    List (String × List UInt8) :=
  [("write header len", to_le_bytes header_bytes.length), ("write header", header_bytes),
    ("write table count", to_le_bytes tables.length)] ++ tables.flatMap table_parts

/-- The parts, written one after the other. -/
def write_parts (path : String) (parts : List (String × List UInt8)) (disk : D) :
    SaveResult Unit × D :=
  forEach (fun disk part => write_part path part.1 part.2 disk) disk parts

/-- Whether a table is written to the file. -/
def persists (p : SnapshotPersistence) (name : String) : Bool :=
  match p.tier_registry with
  | some tr => tr.is_authority name
  | none => true

variable [JsonBytes SnapshotHeader]

def write_snapshot (p : SnapshotPersistence) (disk : D) (snapshot : PersistedSnapshot) :
    SaveResult String × D :=
  let path := p.snapshot_path snapshot.header.generation
  if SaveDisk.path_exists disk path then
    (.error (.SnapshotAlreadyExists s!"generation {snapshot.header.generation}"), disk)
  else
    match SaveDisk.create_dir_all disk p.base_dir with
    | (.error e, disk) => (.error (.Io s!"create_dir_all: {e}"), disk)
    | (.ok (), disk) =>
      match JsonBytes.to_vec snapshot.header with
      | .error e => (.error (.IpcSerialization s!"header json: {e}"), disk)
      | .ok header_bytes =>
        match SaveDisk.create disk path with
        | (.error e, disk) => (.error (.Io s!"create: {e}"), disk)
        | (.ok (), disk) =>
          -- the only place where the tier decides what is saved
          let tables := snapshot.table_data.toList.filter fun entry => p.persists entry.1
          match write_parts path (file_parts header_bytes tables) disk with
          | (.error e, disk) => (.error e, disk)
          | (.ok (), disk) => (.ok path, disk)

/-- One `read_exact` under the text its error carries. -/
def read_part (path what : String) (disk : D) (position count : Nat) : SaveResult (List UInt8) :=
  (SaveDisk.read_exact disk path position count).mapError fun e => .Io s!"{what}: {e}"

/-- The tables of a file, from a position on. The error of a name that is no text does not
say here where it goes wrong. -/
def read_tables (path : String) (disk : D) :
    Nat → Nat → Map String (List UInt8) → SaveResult (Map String (List UInt8))
  | 0, _, table_data => .ok table_data
  | count + 1, position, table_data => do
    let name_len := from_le_bytes (← read_part path "read name len" disk position 8)
    let name_bytes ← read_part path "read name" disk (position + 8) name_len
    let name ← match String.fromUTF8? ⟨name_bytes.toArray⟩ with
      | some name => .ok name
      | none => .error (.CorruptedSnapshot "invalid utf8 name")
    let position := position + 8 + name_len
    let data_len := from_le_bytes (← read_part path "read data len" disk position 8)
    let data ← read_part path "read data" disk (position + 8) data_len
    read_tables path disk count (position + 8 + data_len) (table_data.insert name data)

def read_snapshot (p : SnapshotPersistence) (disk : D) (generation : Tick) :
    SaveResult PersistedSnapshot :=
  let path := p.snapshot_path generation
  if !SaveDisk.path_exists disk path then
    .error (.SnapshotNotFound s!"generation {generation}")
  else do
    (SaveDisk.open_file disk path).mapError fun e => .Io s!"open: {e}"
    let header_len := from_le_bytes (← read_part path "read header len" disk 0 8)
    let header_bytes ← read_part path "read header" disk 8 header_len
    let header ← (JsonBytes.from_slice header_bytes).mapError fun e =>
      .IpcDeserialization s!"header json: {e}"
    let position := 8 + header_len
    let table_count := from_le_bytes (← read_part path "read table count" disk position 8)
    let table_data ← read_tables path disk table_count (position + 8) ∅
    return { header, table_data }

omit [JsonBytes SnapshotHeader] in
def delete_snapshot (p : SnapshotPersistence) (disk : D) (generation : Tick) : SaveResult Unit × D :=
  let path := p.snapshot_path generation
  if SaveDisk.path_exists disk path then
    match SaveDisk.remove_file disk path with
    | (.error e, disk) => (.error (.Io s!"delete snapshot: {e}"), disk)
    | (.ok (), disk) => (.ok (), disk)
  else (.ok (), disk)

end Disk

end SnapshotPersistence

end Scharnhorst
