/-
The journal: submissions, and the commit cycle.

A commit takes the pending lists, applies the diffs to the store, generates the
snapshot and hashes the diffs, publishes to the query engine, appends to the save
journal, and advances the tick. Each of these can fail, and each failure has its own
block in the source that puts the pending lists back and opens the phase again. The
blocks are one definition here, `put_back`, and where a step has no such block the
model has none: the first of them, saving the table versions, leaves through `?`.

The query engine and the save journal are trait objects in the source. They are
`SnapshotIngestor` and `SaveJournal` here, over a state of any type, so that what is
proved about a commit holds of every implementation.
-/
import Scharnhorst.Query

set_option autoImplicit false

namespace Scharnhorst

open Attempt

/-! ## Commands -/

inductive Command where
  | TransferControl (province_id from_actor to_actor : RowId)
  | UpdateColumn (table : String) (row : RowId) (column : String) (value : Json)
  | InsertRow (table : String) (values : JsonMap)
  | DeleteRow (table : String) (row : RowId)
  | Raw (domain : String) (payload : Json)

structure CommandEnvelope where
  tick : Tick
  source : String
  command : Command

/-! ## Commits -/

structure CommitResult where
  tick : Tick
  diff_count : Nat
  command_count : Nat
  state_hash : UInt64
deriving DecidableEq

inductive CommitPhase where
  | Open
  | Committing
  | Committed
deriving DecidableEq

/-- The `Debug` text of a phase. -/
def CommitPhase.debug : CommitPhase → String
  | Open => "Open"
  | Committing => "Committing"
  | Committed => "Committed"

structure CommitRecord where
  tick : Tick
  diffs : List Diff
  commands : List CommandEnvelope
  state_hash : UInt64

def CommitRecord.with_commands (tick : Tick) (diffs : List Diff) (commands : List CommandEnvelope)
    (state_hash : UInt64) : CommitRecord :=
  { tick, diffs, commands, state_hash }

/-- `JournalError`, the variants that the journal raises or that a save journal
raises through it. -/
inductive JournalError where
  | CommitFailed (message : String)
  | SubmitFailed (message : String)
  | InvalidPhase (message : String)
  | InvalidTick (expected got : Tick)
  | SaveJournal (message : String)
  | ArrowStore (message : String)
  | Io (message : String)
  | Generic (message : String)
deriving DecidableEq

abbrev JournalResult := Except JournalError

/-! ## What a commit writes to -/

/-- `trait SnapshotIngestor`. The rollback handle of a begun ingest acts on the state
the ingestor has when it is used. -/
structure SnapshotIngestor (Q : Type) where
  begin_ingest : Q → Except String (Q → Except String Unit × Q) × Q
  ingest_snapshot : Q → Tick → String → List RecordBatch → RowPositionMap → Except String Unit × Q
  store_snapshot : Q → WorldSnapshot → Except String Unit × Q

/-- `impl SnapshotIngestor for QueryEngine`. -/
def QueryEngine.ingestor [Concat] : SnapshotIngestor QueryEngine where
  begin_ingest q :=
    let (result, q) := q.begin_ingest
    (result.map fun saved q => q.rollback saved, q)
  ingest_snapshot q tick table_name batches position_map :=
    let (result, q) := q.ingest_snapshot tick table_name batches position_map
    (result.mapError QueryError.to_string, q)
  store_snapshot q snapshot :=
    let (result, q) := q.store_world_snapshot snapshot
    (result.mapError QueryError.to_string, q)

/-- `trait SaveJournal`, the method a commit calls. -/
structure SaveJournal (J : Type) where
  append : J → CommitRecord → JournalResult Unit × J

/-- `impl SaveJournal for InMemorySaveJournal`. -/
def InMemorySaveJournal : SaveJournal (List CommitRecord) where
  append entries record := (.ok (), entries ++ [record])

/-! ## The journal -/

def MAX_COMMIT_HISTORY : Nat := 1024

/-- `Journal`. The store stands once: `arrow_store` and `commit_store` are two handles
to it. -/
structure Journal (Q J : Type) where
  current_tick : Tick
  phase : CommitPhase
  pending_commands : List CommandEnvelope
  pending_diffs : List Diff
  history : List CommitRecord
  save_journal : Option J
  arrow_store : ArrowStore
  query_engine : Option Q

namespace Journal

variable {Q J : Type}

def new (arrow_store : ArrowStore) : Journal Q J :=
  { current_tick := Tick.ZERO
    phase := .Open
    pending_commands := []
    pending_diffs := []
    history := []
    save_journal := none
    arrow_store
    query_engine := none }

def with_save_journal (j : Journal Q J) (journal : J) : Journal Q J :=
  { j with save_journal := some journal }

def with_query_engine (j : Journal Q J) (qe : Q) : Journal Q J :=
  { j with query_engine := some qe }

/-! ### Submissions -/

def submit_command (j : Journal Q J) (envelope : CommandEnvelope) :
    JournalResult Unit × Journal Q J :=
  if j.phase ≠ .Open then (.error (.SubmitFailed "commit already in progress"), j)
  else if envelope.tick ≠ j.current_tick then
    (.error (.InvalidTick j.current_tick envelope.tick), j)
  else (.ok (), { j with pending_commands := j.pending_commands ++ [envelope] })

def submit_commands (j : Journal Q J) (envelopes : List CommandEnvelope) :
    JournalResult Unit × Journal Q J :=
  forEach submit_command j envelopes

def submit_diff (j : Journal Q J) (diff : Diff) : JournalResult Unit × Journal Q J :=
  if j.phase ≠ .Open then (.error (.SubmitFailed "commit already in progress"), j)
  else (.ok (), { j with pending_diffs := j.pending_diffs ++ [diff] })

def submit_batch (j : Journal Q J) (diffs : List Diff) : JournalResult Unit × Journal Q J :=
  forEach submit_diff j diffs

def clear_pending (j : Journal Q J) : JournalResult Unit × Journal Q J :=
  if j.phase ≠ .Open then
    (.error (.InvalidPhase s!"cannot clear pending during phase {j.phase.debug}"), j)
  else (.ok (), { j with pending_commands := [], pending_diffs := [] })

/-! ### The hash -/

def fnv1a_64 (data : List UInt8) : UInt64 :=
  data.foldl (fun hash byte => (hash ^^^ byte.toUInt64) * 0x100000001b3) 0xcbf29ce484222325

/-- The hashes of the diffs, added up as they come. -/
def hash_diffs [Render] (diffs : List Diff) : JournalResult UInt64 :=
  diffs.foldlM (fun state_hash diff => do
    let json ← (Render.diff_to_string diff).mapError fun e => .Generic s!"diff serialize: {e}"
    return state_hash + fnv1a_64 json.toUTF8.toList) 0

def apply_diffs_and_hash [Render] (j : Journal Q J) (diffs : List Diff) :
    JournalResult UInt64 × Journal Q J :=
  match j.arrow_store.apply_diffs j.current_tick diffs with
  | (.error e, s) => (.error (.ArrowStore s!"apply_diffs: {e.to_string}"), { j with arrow_store := s })
  | (.ok (), s) =>
    match s.generate_snapshot j.current_tick with
    | (.error e, s) => (.error (.ArrowStore e.to_string), { j with arrow_store := s })
    | (.ok _, s) => (hash_diffs diffs, { j with arrow_store := s })

/-! ### Publication -/

/-- `begin_ingest` of the engine, if one is attached. -/
def begin_ingest (ingestor : SnapshotIngestor Q) (j : Journal Q J) :
    JournalResult (Option (Q → Except String Unit × Q)) × Journal Q J :=
  match j.query_engine with
  | none => (.ok none, j)
  | some qe =>
    let (result, qe) := ingestor.begin_ingest qe
    ((result.map some).mapError fun e => .Generic s!"begin query ingest: {e}",
      { j with query_engine := some qe })

/-- One table of the snapshot: its batches at the tick, and the position map as the
store has it now. -/
def publish_table (ingestor : SnapshotIngestor Q) (store : ArrowStore) (tick : Tick) (qe : Q)
    (table_name : String) : JournalResult Unit × Q :=
  let batches := (store.get_table_batches table_name tick).toOption.getD []
  match store.get_table table_name with
  | .error e => (.error (.ArrowStore s!"get_table for '{table_name}': {e.to_string}"), qe)
  | .ok table =>
    let (result, qe) := ingestor.ingest_snapshot qe tick table_name batches table.position_map
    (result.mapError fun e => .Generic s!"ingest snapshot for '{table_name}': {e}", qe)

/-- The snapshot of the tick, table by table, and then as a whole. -/
def publish_snapshot (ingestor : SnapshotIngestor Q) (store : ArrowStore) (tick : Tick) (qe : Q) :
    JournalResult Unit × Q :=
  match store.get_snapshot tick with
  | .error e => (.error (.ArrowStore s!"get_snapshot: {e.to_string}"), qe)
  | .ok snapshot =>
    match forEach (publish_table ingestor store tick) qe snapshot.table_names with
    | (.error e, qe) => (.error e, qe)
    | (.ok (), qe) =>
      let (result, qe) := ingestor.store_snapshot qe snapshot
      (result.mapError fun e => .Generic s!"store snapshot: {e}", qe)

def publish (ingestor : SnapshotIngestor Q) (j : Journal Q J) (tick : Tick) :
    JournalResult Unit × Journal Q J :=
  match j.query_engine with
  | none => (.ok (), j)
  | some qe =>
    let (result, qe) := publish_snapshot ingestor j.arrow_store tick qe
    (result, { j with query_engine := some qe })

/-- `if let Some(rollback) = ingest_rollback.take() { let _ = rollback.rollback(); }`. -/
def undo_ingest (rollback : Option (Q → Except String Unit × Q)) (j : Journal Q J) : Journal Q J :=
  match rollback, j.query_engine with
  | some rollback, some qe => { j with query_engine := some (rollback qe).2 }
  | _, _ => j

/-! ### The commit -/

/-- The block of a failed step: the saved batches and the pending lists go back, and
the phase is open again. -/
def put_back (saved : Map String Versions) (diffs : List Diff) (commands : List CommandEnvelope)
    (j : Journal Q J) : Journal Q J :=
  { j with
    arrow_store := (j.arrow_store.restore_table_versions saved).2
    pending_diffs := diffs
    pending_commands := commands
    phase := .Open }

/-- `append` of the save journal, if one is attached. -/
def append (saver : SaveJournal J) (j : Journal Q J) (record : CommitRecord) :
    JournalResult Unit × Journal Q J :=
  match j.save_journal with
  | none => (.ok (), j)
  | some journal =>
    let (result, journal) := saver.append journal record
    (result, { j with save_journal := some journal })

/-- `while self.history.len() > MAX_COMMIT_HISTORY { self.history.pop_front(); }`. -/
def evict : List CommitRecord → List CommitRecord
  | [] => []
  | record :: records =>
    if MAX_COMMIT_HISTORY < (record :: records).length then evict records else record :: records

/-- A commit that went through. -/
def finish (j : Journal Q J) (record : CommitRecord) : Journal Q J :=
  { j with
    history := evict (j.history ++ [record])
    current_tick := j.current_tick.next
    phase := .Open }

/-- `commit` from the point where the diffs are in the store: the engine, the save
journal, and the end. -/
def deliver (ingestor : SnapshotIngestor Q) (saver : SaveJournal J) (tick : Tick)
    (saved : Map String Versions) (diffs : List Diff) (commands : List CommandEnvelope)
    (state_hash : UInt64) (j : Journal Q J) : JournalResult CommitResult × Journal Q J :=
  match j.begin_ingest ingestor with
  | (.error e, j) => (.error e, j.put_back saved diffs commands)
  | (.ok rollback, j) =>
    match j.publish ingestor tick with
    | (.error e, j) => (.error e, (j.undo_ingest rollback).put_back saved diffs commands)
    | (.ok (), j) =>
      -- the lists are moved into the record, and go back from there
      let record := CommitRecord.with_commands tick diffs commands state_hash
      match j.append saver record with
      | (.error e, j) =>
        (.error e, (j.undo_ingest rollback).put_back saved record.diffs record.commands)
      | (.ok (), j) =>
        (.ok { tick, diff_count := diffs.length, command_count := commands.length, state_hash },
          j.finish record)

/-- `commit` from the point where the phase has been checked. -/
def commit_open [Render] (ingestor : SnapshotIngestor Q) (saver : SaveJournal J)
    (j : Journal Q J) : JournalResult CommitResult × Journal Q J :=
  let tick := j.current_tick
  let diffs := j.pending_diffs
  let commands := j.pending_commands
  let j := { j with phase := .Committing, pending_diffs := [], pending_commands := [] }
  match j.arrow_store.save_table_versions (diffs.map Diff.table) with
  -- the `?` of the source: nothing is put back
  | .error e => (.error (.ArrowStore s!"save versions: {e.to_string}"), j)
  | .ok saved =>
    match j.apply_diffs_and_hash diffs with
    | (.error e, j) => (.error e, j.put_back saved diffs commands)
    | (.ok state_hash, j) => j.deliver ingestor saver tick saved diffs commands state_hash

def commit [Render] (ingestor : SnapshotIngestor Q) (saver : SaveJournal J) (j : Journal Q J) :
    JournalResult CommitResult × Journal Q J :=
  if j.phase ≠ .Open then (.error (.CommitFailed "no open commit phase"), j)
  else j.commit_open ingestor saver

end Journal

end Scharnhorst
