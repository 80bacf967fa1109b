/-
The scheduler: one tick from the command queue to the refresh of the consumers.

A tick takes the queued commands into the journal, runs the registered systems phase by
phase, each of which hands in diffs, and commits. What fails before the commit is
followed by a rollback, except where the commands themselves are refused: there the
source leaves through `?` with the queue already drained, and the model with it.

Systems and refresh callbacks are trait objects and closures in the source, and may keep
state of their own behind `&self`. They are functions here of a state of any type that
all of them share. A hash map stands as the list of its entries, in the order in which it
is walked, so that nothing depends on that order but what does in the source.
-/
import Scharnhorst.Journal
import Scharnhorst.Rng

set_option autoImplicit false

namespace Scharnhorst

open Attempt

/-! ## Errors -/

/-- The `Display` text of a journal error. -/
def JournalError.to_string : JournalError → String
  | CommitFailed message => s!"commit failed: {message}"
  | SubmitFailed message => s!"submit failed: {message}"
  | InvalidPhase message => s!"invalid journal phase for operation: {message}"
  | InvalidTick expected got => s!"invalid tick: expected {expected}, got {got}"
  | SaveJournal message => s!"save journal error: {message}"
  | ArrowStore message => s!"arrow store error: {message}"
  | Io message => s!"io error: {message}"
  | Generic message => s!"generic error: {message}"

inductive SchedulerError where
  | SystemAlreadyRegistered (system_id : String)
  | SystemNotFound (system_id : String)
  | DependencyCycle (message : String)
  | WriteConflict (phase a b table : String)
  | CommitFailed (tick : Tick) (reason : String)
  | InvalidTick (expected got : Tick)
  | Journal (message : String)
  | ArrowStore (message : String)
  | QueryEngine (message : String)
  | Schema (message : String)
  | RefreshSignalFailed (consumer : String) (source : SchedulerError)
  | Rng (message : String)
  | Io (message : String)
  | Initialized
  | NotInitialized
  | RefreshBusLookupFailed (consumer : String)
  | SchemaNotFrozen
  | Generic (message : String)
deriving DecidableEq

abbrev SchedulerResult := Except SchedulerError

/-! ## Systems -/

inductive Phase where
  | PreTick
  | Economy
  | Diplomacy
  | Military
  | PostTick
deriving DecidableEq

def Phase.all_in_order : List Phase := [.PreTick, .Economy, .Diplomacy, .Military, .PostTick]

/-- What a consumer is called with is the tick and the generation. -/
abbrev RefreshCallback (S : Type) := S → UInt64 → UInt64 → SchedulerResult Unit × S

/-- `trait SimSystem`. What a system says of itself it says the same every time. -/
structure SimSystem (Q S : Type) where
  id : String
  phase : Phase
  read_tables : List String
  write_tables : List String
  refresh_callback : Option (RefreshCallback S) := none
  execute : S → DeterministicRng → Q → Phase → UInt64 → SchedulerResult (List Diff) × S

/-- The two hash sets of tables stand as lists, of which only the members count. -/
structure SystemRegistration (S : Type) where
  system_id : String
  phase : Phase
  read_tables : List String
  write_tables : List String
  refresh_callback : Option (RefreshCallback S)

namespace SystemRegistration

variable {Q S : Type}

def from_system (system : SimSystem Q S) : SystemRegistration S :=
  { system_id := system.id
    phase := system.phase
    read_tables := system.read_tables
    write_tables := system.write_tables
    refresh_callback := system.refresh_callback }

def conflicting_tables (reg other : SystemRegistration S) : List String :=
  reg.write_tables.filter (· ∈ other.write_tables)

def write_sets_disjoint (reg other : SystemRegistration S) : Bool :=
  (reg.conflicting_tables other).isEmpty

def has_write_conflict (reg other : SystemRegistration S) : Bool :=
  decide (reg.phase = other.phase) && !reg.write_sets_disjoint other

end SystemRegistration

/-! ## The scheduler -/

/-- `Scheduler`. The engine that systems read is the one attached to the journal, if that
is a handle to it too. -/
structure Scheduler (Q J S : Type) where
  systems : RwLock (List (String × SimSystem Q S))
  registrations : RwLock (List (String × SystemRegistration S))
  pending_commands : RwLock (List CommandEnvelope)
  journal : RwLock (Journal Q J)
  query_engine : Q
  /-- Whether the journal publishes to `query_engine`. -/
  publishes : Bool
  refresh_bus : RwLock (List (String × RefreshCallback S))
  current_tick : UInt64
  generation : UInt64
  initialized : Bool
  /-- What systems and callbacks keep. -/
  kept : S

namespace Scheduler

variable {Q J S : Type}

/-- A lock helper, with the name of the lock for its error. -/
def lock {α : Type} (name : String) (mutex : RwLock α) : SchedulerResult α :=
  mutex.read.mapError fun e => .Generic s!"{name} lock poisoned: {e}"

/-- The journal after a call that held its lock. -/
def set_journal (sch : Scheduler Q J S) (j : Journal Q J) : Scheduler Q J S :=
  { sch with journal := sch.journal.set j }

/-! ### Commands -/

def enqueue_command (sch : Scheduler Q J S) (envelope : CommandEnvelope) :
    SchedulerResult Unit × Scheduler Q J S :=
  match lock "commands" sch.pending_commands with
  | .error e => (.error e, sch)
  | .ok queue =>
    (.ok (), { sch with pending_commands := sch.pending_commands.set (queue ++ [envelope]) })

def consume_pending_commands (sch : Scheduler Q J S) :
    SchedulerResult (List CommandEnvelope) × Scheduler Q J S :=
  match lock "commands" sch.pending_commands with
  | .error e => (.error e, sch)
  | .ok drained =>
    let sch := { sch with pending_commands := sch.pending_commands.set [] }
    match lock "journal" sch.journal with
    | .error e => (.error e, sch)
    | .ok journal =>
      match journal.submit_commands drained with
      -- the `?` of the source: what was drained is gone
      | (.error e, journal) => (.error (.Journal e.to_string), sch.set_journal journal)
      | (.ok (), journal) => (.ok drained, sch.set_journal journal)

def rollback_consumed_commands (sch : Scheduler Q J S) (consumed : List CommandEnvelope) :
    SchedulerResult Unit × Scheduler Q J S :=
  let sch :=
    match lock "journal" sch.journal with
    | .ok journal => sch.set_journal journal.clear_pending.2
    | .error _ => sch
  match lock "commands" sch.pending_commands with
  | .error e => (.error e, sch)
  | .ok queue =>
    let queue := consumed.reverse.foldl (fun queue cmd => cmd :: queue) queue
    (.ok (), { sch with pending_commands := sch.pending_commands.set queue })

/-! ### Phases -/

/-- The ids of the registered systems by phase, for the phases that have any. -/
def systems_by_phase (sch : Scheduler Q J S) : SchedulerResult (List (Phase × List String)) :=
  (lock "registrations" sch.registrations).map fun registrations =>
    Phase.all_in_order.filterMap fun phase =>
      match (registrations.filter fun entry => entry.2.phase = phase).map Prod.fst with
      | [] => none
      | ids => some (phase, ids)

/-- One round of the loop over the systems of a phase. -/
def run_system (phase : Phase) (tick : UInt64) (systems : List (String × SimSystem Q S))
    (sch : Scheduler Q J S) (id : String) : SchedulerResult Unit × Scheduler Q J S :=
  match systems.lookup id with
  | none => (.error (.SystemNotFound id), sch)
  | some system =>
    match system.execute sch.kept (.new id tick) sch.query_engine phase tick with
    | (.error e, kept) => (.error e, { sch with kept })
    | (.ok diffs, kept) =>
      let sch := { sch with kept }
      match lock "journal" sch.journal with
      | .error e => (.error e, sch)
      | .ok journal =>
        match journal.submit_batch diffs with
        | (.error e, journal) => (.error (.Journal e.to_string), sch.set_journal journal)
        | (.ok (), journal) => (.ok (), sch.set_journal journal)

def run_phase (tick : UInt64) (sch : Scheduler Q J S) (entry : Phase × List String) :
    SchedulerResult Unit × Scheduler Q J S :=
  match lock "systems" sch.systems with
  | .error e => (.error e, sch)
  | .ok systems => forEach (run_system entry.1 tick systems) sch entry.2

def run_phases (sch : Scheduler Q J S) (tick : UInt64) :
    SchedulerResult Unit × Scheduler Q J S :=
  match sch.systems_by_phase with
  | .error e => (.error e, sch)
  | .ok by_phase => forEach (run_phase tick) sch by_phase

/-! ### The tick -/

section Commit

variable [Render]

def atomic_commit (ingestor : SnapshotIngestor Q) (saver : SaveJournal J)
    (sch : Scheduler Q J S) : SchedulerResult CommitResult × Scheduler Q J S :=
  match lock "journal" sch.journal with
  | .error e => (.error e, sch)
  | .ok journal =>
    let (result, journal) := journal.commit ingestor saver
    let query_engine :=
      if sch.publishes then journal.query_engine.getD sch.query_engine else sch.query_engine
    let sch := { sch.set_journal journal with query_engine }
    match result with
    | .error e => (.error (.Journal e.to_string), sch)
    | .ok result => (.ok result, { sch with generation := sch.generation + 1 })

/-- The rollback of a failed step, and the error that `tick` returns then. -/
def roll_back {α : Type} (sch : Scheduler Q J S) (consumed : List CommandEnvelope)
    (e : SchedulerError) : SchedulerResult α × Scheduler Q J S :=
  match sch.rollback_consumed_commands consumed with
  | (.error e, sch) => (.error e, sch)
  | (.ok (), sch) => (.error e, sch)

/-- `tick` up to where the commit has succeeded. -/
def tick_to_commit (ingestor : SnapshotIngestor Q) (saver : SaveJournal J)
    (sch : Scheduler Q J S) : SchedulerResult CommitResult × Scheduler Q J S :=
  if !sch.initialized then (.error .NotInitialized, sch)
  else
    match sch.consume_pending_commands with
    | (.error e, sch) => (.error e, sch)
    | (.ok consumed, sch) =>
      match sch.run_phases sch.current_tick with
      | (.error e, sch) => sch.roll_back consumed e
      | (.ok (), sch) =>
        match sch.atomic_commit ingestor saver with
        | (.error e, sch) => sch.roll_back consumed e
        | (.ok result, sch) => (.ok result, sch)

omit [Render] in
/-- `fetch_add`, which wraps. -/
def advance_tick (sch : Scheduler Q J S) : Scheduler Q J S :=
  { sch with current_tick := sch.current_tick + 1 }

/-- One round of the loop over the consumers. -/
def call_consumer (tick generation : UInt64) (kept : S) (consumer : String × RefreshCallback S) :
    SchedulerResult Unit × S :=
  match consumer.2 kept tick generation with
  | (.error e, kept) => (.error (.RefreshSignalFailed consumer.1 e), kept)
  | (.ok (), kept) => (.ok (), kept)

def broadcast_refresh (sch : Scheduler Q J S) (tick generation : UInt64) :
    SchedulerResult Unit × Scheduler Q J S :=
  match lock "refresh signal" sch.refresh_bus with
  | .error e => (.error e, sch)
  | .ok consumers =>
    let (result, kept) := forEach (call_consumer tick generation) sch.kept consumers
    (result, { sch with kept })

def tick (ingestor : SnapshotIngestor Q) (saver : SaveJournal J) (sch : Scheduler Q J S) :
    SchedulerResult CommitResult × Scheduler Q J S :=
  match sch.tick_to_commit ingestor saver with
  | (.error e, sch) => (.error e, sch)
  | (.ok result, sch) =>
    -- the commit stands: an error from here on is not rolled back
    let sch := sch.advance_tick
    match sch.broadcast_refresh result.tick.toUInt64 sch.generation with
    | (.error e, sch) => (.error e, sch)
    | (.ok (), sch) => (.ok result, sch)

end Commit

end Scheduler

end Scharnhorst
