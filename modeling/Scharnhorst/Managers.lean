/-
The checkpoint manager and the snapshot manager.

Both write a snapshot and then delete the oldest files beyond their limit. The first also
removes the file of the save journal, and counts what a save journal has appended; the
second writes to a temporary file first. Neither compares the generation it has just
written with those that it deletes or keeps.
-/
import Scharnhorst.Journal
import Scharnhorst.Snapshots

set_option autoImplicit false

namespace Scharnhorst

open Attempt

variable {D : Type} [SaveDisk D]

/-- The files of the oldest generations, down to the limit. The source has this loop
twice. -/
def SnapshotPersistence.delete_oldest (p : SnapshotPersistence) (max_snapshots : Nat) (disk : D) :
    SaveResult Unit × D :=
  match p.list_snapshots disk with
  | .error e => (.error e, disk)
  | .ok snapshots =>
    if snapshots.length ≤ max_snapshots then (.ok (), disk)
    else
      let to_remove := snapshots.length - max_snapshots
      forEach p.delete_snapshot disk ((snapshots.take to_remove).map Prod.fst)

/-! ## The checkpoint manager -/

structure RetentionPolicy where
  max_snapshots : Nat
  auto_checkpoint_threshold : Nat
deriving DecidableEq

def RetentionPolicy.default_policy : RetentionPolicy :=
  { max_snapshots := 3, auto_checkpoint_threshold := 1000 }

structure CheckpointManager where
  persistence : SnapshotPersistence
  policy : RetentionPolicy
  journal_path : String
  journal_entries_since_snapshot : Nat
  tier_registry : Option TierRegistry
deriving DecidableEq

namespace CheckpointManager

def new (base_dir : String) (policy : RetentionPolicy) (journal_path : String) :
    CheckpointManager :=
  { persistence := .new base_dir
    policy
    journal_path
    journal_entries_since_snapshot := 0
    tier_registry := none }

def with_tier_registry (m : CheckpointManager) (tier_registry : TierRegistry) :
    CheckpointManager :=
  { m with
    persistence := m.persistence.with_tier_registry tier_registry
    tier_registry := some tier_registry }

def record_journal_entry (m : CheckpointManager) : CheckpointManager :=
  { m with journal_entries_since_snapshot := m.journal_entries_since_snapshot + 1 }

def reset_journal_counter (m : CheckpointManager) : CheckpointManager :=
  { m with journal_entries_since_snapshot := 0 }

def should_auto_checkpoint (m : CheckpointManager) : Bool :=
  m.policy.auto_checkpoint_threshold ≤ m.journal_entries_since_snapshot

def enforce_retention (m : CheckpointManager) (disk : D) : SaveResult Unit × D :=
  m.persistence.delete_oldest m.policy.max_snapshots disk

def try_auto_checkpoint (m : CheckpointManager) (disk : D) :
    SaveResult Bool × CheckpointManager × D :=
  if m.should_auto_checkpoint then
    match m.enforce_retention disk with
    | (.error e, disk) => (.error e, m, disk)
    | (.ok (), disk) => (.ok true, m.reset_journal_counter, disk)
  else (.ok false, m, disk)

def truncate_journal (m : CheckpointManager) (disk : D) :
    SaveResult Unit × CheckpointManager × D :=
  if SaveDisk.path_exists disk m.journal_path then
    match SaveDisk.remove_file disk m.journal_path with
    | (.error e, disk) => (.error (.JournalTruncation e), m, disk)
    | (.ok (), disk) => (.ok (), m.reset_journal_counter, disk)
  else (.ok (), m.reset_journal_counter, disk)

def write_checkpoint_snapshot [JsonBytes SnapshotHeader] (m : CheckpointManager) (disk : D)
    (snapshot : PersistedSnapshot) : SaveResult Unit × CheckpointManager × D :=
  match m.persistence.write_snapshot disk snapshot with
  | (.error e, disk) => (.error e, m, disk)
  | (.ok _, disk) =>
    match m.enforce_retention disk with
    | (.error e, disk) => (.error e, m, disk)
    | (.ok (), disk) =>
      match m.truncate_journal disk with
      | (.error e, m, disk) => (.error e, m, disk)
      | (.ok (), m, disk) => (.ok (), m.reset_journal_counter, disk)

end CheckpointManager

/-! ## The snapshot manager -/

structure SnapshotConfig where
  max_snapshots : Nat
  max_journal_diffs : Nat
deriving DecidableEq

def SnapshotConfig.default : SnapshotConfig := { max_snapshots := 3, max_journal_diffs := 1000 }

structure SnapshotManager where
  persistence : SnapshotPersistence
  config : SnapshotConfig
  journal_path : String
deriving DecidableEq

namespace SnapshotManager

def new (base_dir : String) (config : SnapshotConfig) (journal_path : String) : SnapshotManager :=
  { persistence := .new base_dir, config, journal_path }

def temp_snapshot_path (m : SnapshotManager) (generation : Tick) : String :=
  s!"{m.persistence.base_dir}/.tmp_snapshot_gen_{generation}.arrow"

/-- Into a file whose directory is that of the snapshots. All tables are written. -/
def write_snapshot_to_temp [JsonBytes SnapshotHeader] (m : SnapshotManager) (disk : D)
    (snapshot : PersistedSnapshot) (temp_path : String) : SaveResult Unit × D :=
  let (created, disk) :=
    if SaveDisk.path_exists disk m.persistence.base_dir then (.ok (), disk)
    else SaveDisk.create_dir_all disk m.persistence.base_dir
  match created with
  | .error e => (.error (.Io s!"create temp dir: {e}"), disk)
  | .ok () =>
    match JsonBytes.to_vec snapshot.header with
    | .error e => (.error (.IpcSerialization s!"header json: {e}"), disk)
    | .ok header_bytes =>
      match SaveDisk.create disk temp_path with
      | (.error e, disk) => (.error (.Io s!"create temp snapshot: {e}"), disk)
      | (.ok (), disk) =>
        let parts := SnapshotPersistence.file_parts header_bytes snapshot.table_data.toList
        match SnapshotPersistence.write_parts temp_path parts disk with
        | (.error e, disk) => (.error e, disk)
        | (.ok (), disk) =>
          match SaveDisk.flush disk temp_path with
          | (.error e, disk) => (.error (.Io s!"flush temp snapshot: {e}"), disk)
          | (.ok (), disk) => (.ok (), disk)

def cleanup_old_snapshots (m : SnapshotManager) (disk : D) : SaveResult Unit × D :=
  m.persistence.delete_oldest m.config.max_snapshots disk

def save_snapshot [JsonBytes SnapshotHeader] (m : SnapshotManager) (disk : D)
    (snapshot : PersistedSnapshot) : SaveResult String × D :=
  let temp_path := m.temp_snapshot_path snapshot.header.generation
  let final_path := m.persistence.snapshot_path snapshot.header.generation
  if SaveDisk.path_exists disk final_path then
    (.error (.SnapshotAlreadyExists s!"generation {snapshot.header.generation}"), disk)
  else
    match m.write_snapshot_to_temp disk snapshot temp_path with
    | (.error e, disk) => (.error e, disk)
    | (.ok (), disk) =>
      match SaveDisk.rename disk temp_path final_path with
      | (.error e, disk) => (.error (.Io s!"rename snapshot: {e}"), disk)
      | (.ok (), disk) =>
        match m.cleanup_old_snapshots disk with
        | (.error e, disk) => (.error e, disk)
        | (.ok (), disk) => (.ok final_path, disk)

end SnapshotManager

/-! ## The save journal of the checkpoint manager -/

/-- `CheckpointingSaveJournal`. What the manager does to the disk stays with it. -/
structure CheckpointingSaveJournal where
  inner : List CommitRecord
  manager : Option CheckpointManager

namespace CheckpointingSaveJournal

def new : CheckpointingSaveJournal := { inner := [], manager := none }

def with_manager (sj : CheckpointingSaveJournal) (manager : CheckpointManager) :
    CheckpointingSaveJournal :=
  { sj with manager := some manager }

def append (sj : CheckpointingSaveJournal) (disk : D) (record : CommitRecord) :
    JournalResult Unit × CheckpointingSaveJournal × D :=
  let sj := { sj with inner := sj.inner ++ [record] }
  match sj.manager with
  | none => (.ok (), sj, disk)
  | some manager =>
    match manager.record_journal_entry.try_auto_checkpoint disk with
    | (.error e, manager, disk) =>
      (.error (.SaveJournal e.to_string), { sj with manager := some manager }, disk)
    | (.ok _, manager, disk) => (.ok (), { sj with manager := some manager }, disk)

end CheckpointingSaveJournal

end Scharnhorst
