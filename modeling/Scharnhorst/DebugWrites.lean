/-
The debug write path.

A text of SQL is parsed, becomes a diff, is put down in a ring of the last operations and goes to
the journal. A text that fails on the way leaves all three alone. The ring is the end of a log that
never forgets, however small it is: at capacity zero it still holds one operation.
-/
import Scharnhorst.Scheduler
import Scharnhorst.SqlRows
import Scharnhorst.TailWindow

set_option autoImplicit false

namespace Scharnhorst

/-! ## Operations -/

inductive DebugWriteOp where
  | Append (table : String) (tick : Tick) (row_count : Nat)
  | Patch (table : String) (tick : Tick) (row_indices : List Nat)
  | Delete (table : String) (tick : Tick) (row_indices : List Nat)
  | Rebuild (table : String) (tick : Tick) (row_count : Nat)
deriving DecidableEq

namespace DebugWriteOp

def table_name : DebugWriteOp → String
  | Append table _ _ | Patch table _ _ | Delete table _ _ | Rebuild table _ _ => table

def tick : DebugWriteOp → Tick
  | Append _ tick _ | Patch _ tick _ | Delete _ tick _ | Rebuild _ tick _ => tick

end DebugWriteOp

/-- Neither the row of an update or delete nor the rows of a replace are kept. -/
def diff_to_debug_write_op (diff : Diff) (tick : Tick) : DebugWriteOp :=
  match diff with
  | .Update table _ _ _ => .Patch table tick []
  | .Insert table _ _ => .Append table tick 1
  | .Delete table _ => .Delete table tick []
  | .ReplaceTable table _ => .Rebuild table tick 0

/-! ## The ring -/

structure JournalInner where
  capacity : Nat
  ops : List DebugWriteOp
  enabled : Bool

/-- A clone of it is the same ring, behind one lock. -/
structure DebugWriteJournal where
  inner : RwLock JournalInner

namespace DebugWriteJournal

def new (capacity : Nat) : DebugWriteJournal := ⟨.new ⟨capacity, [], true⟩⟩

def default : DebugWriteJournal := new 1024

def enabled (ring : DebugWriteJournal) : Bool :=
  match ring.inner.read with
  | .ok inner => inner.enabled
  | .error _ => false

def set_enabled (ring : DebugWriteJournal) (enabled : Bool) : DebugWriteJournal :=
  match ring.inner.read with
  | .ok inner => ⟨ring.inner.set { inner with enabled }⟩
  | .error _ => ring

/-- The oldest goes out before the newest comes in. -/
def record (ring : DebugWriteJournal) (op : DebugWriteOp) : DebugWriteJournal :=
  match ring.inner.read with
  | .ok inner =>
    if !inner.enabled then ring
    else
      let ops := if inner.ops.length ≥ inner.capacity then inner.ops.tail else inner.ops
      ⟨ring.inner.set { inner with ops := ops ++ [op] }⟩
  | .error _ => ring

def ops (ring : DebugWriteJournal) : List DebugWriteOp :=
  match ring.inner.read with
  | .ok inner => inner.ops
  | .error _ => []

def clear (ring : DebugWriteJournal) : DebugWriteJournal :=
  match ring.inner.read with
  | .ok inner => ⟨ring.inner.set { inner with ops := [] }⟩
  | .error _ => ring

def len (ring : DebugWriteJournal) : Nat := ring.ops.length

def is_empty (ring : DebugWriteJournal) : Bool := ring.len = 0

def latest (ring : DebugWriteJournal) : Option DebugWriteOp :=
  match ring.inner.read with
  | .ok inner => inner.ops.getLast?
  | .error _ => none

def ops_for_table (ring : DebugWriteJournal) (table : String) : List DebugWriteOp :=
  match ring.inner.read with
  | .ok inner => inner.ops.filter fun op => op.table_name = table
  | .error _ => []

end DebugWriteJournal

/-! ## Execution -/

/-- `impl Display for JournalError`, of an error of the parser. -/
def SqlError.to_string : SqlError → String
  | SqlParse message => s!"SQL parse error: {message}"
  | SqlUnsupported message => s!"unsupported SQL feature: {message}"

/-- Of an error of the conversion. -/
def StatementError.to_string : StatementError → String
  | SqlParse message => s!"SQL parse error: {message}"
  | SqlUnsupported message => s!"unsupported SQL feature: {message}"
  | SqlTypeError expected actual => s!"SQL type error: expected {expected}, got {actual}"

/-- `QueryError::SqlWrite`. -/
structure SqlWrite where
  message : String
deriving DecidableEq

/-- A panic of the parser, or the result. -/
abbrev SqlWriteRun := Run (Except SqlWrite Unit)

namespace QueryEngine

variable [SqlDebug] {Q J : Type}

/-- The part of the engine that a write goes through is its ring. A panic of the parser comes before
anything is written. -/
def execute_sql_write (debug_journal : DebugWriteJournal) (sql : List Char) (journal : Journal Q J)
    (tick : Tick) : SqlWriteRun × DebugWriteJournal × Journal Q J :=
  match SqlParser.parse sql with
  | .error (.Error e) =>
    (.ok (.error ⟨s!"SQL parse error: {e.to_string}"⟩), debug_journal, journal)
  | .error failure => (.error failure, debug_journal, journal)
  | .ok stmt =>
    match SqlParser.statement_to_diff stmt with
    | .error e => (.ok (.error ⟨s!"SQL to Diff error: {e.to_string}"⟩), debug_journal, journal)
    | .ok diff =>
      let debug_journal := debug_journal.record (diff_to_debug_write_op diff tick)
      match journal.submit_diff diff with
      | (.error e, journal) =>
        (.ok (.error ⟨s!"journal submit error: {e.to_string}"⟩), debug_journal, journal)
      | (.ok (), journal) => (.ok (.ok ()), debug_journal, journal)

/-- The statement of a text and its diff, if the text parses and the statement has one. -/
def understood (sql : List Char) : Option (SqlStatement × Diff) :=
  match SqlParser.parse sql with
  | .error _ => none
  | .ok stmt => (SqlParser.statement_to_diff stmt).toOption.map fun diff => (stmt, diff)

variable {debug_journal : DebugWriteJournal} {journal : Journal Q J} {sql : List Char} {tick : Tick}

omit [SqlDebug] in
theorem understood_ok [SqlDebug] {stmt : SqlStatement} {diff : Diff}
    (h : understood sql = some (stmt, diff)) :
    SqlParser.parse sql = .ok stmt ∧ SqlParser.statement_to_diff stmt = .ok diff := by
  unfold understood at h
  rcases hparse : SqlParser.parse sql with e | stmt'
  · rw [hparse] at h
    cases h
  rcases hdiff : SqlParser.statement_to_diff stmt' with e | diff'
  · simp [hparse, hdiff, Except.toOption] at h
  · simp only [hparse, hdiff, Except.toOption, Option.map_some, Option.some.injEq,
      Prod.mk.injEq] at h
    obtain ⟨rfl, rfl⟩ := h
    exact ⟨rfl, hdiff⟩

/-- A text that is not understood changes nothing. -/
theorem execute_not_understood (h : understood sql = none) :
    (execute_sql_write debug_journal sql journal tick).2 = (debug_journal, journal)
      ∧ (execute_sql_write debug_journal sql journal tick).1 ≠ .ok (.ok ()) := by
  unfold understood at h
  unfold execute_sql_write
  rcases hparse : SqlParser.parse sql with (e | _ | _) | stmt
  · simp
  · simp
  · simp
  · rcases hdiff : SqlParser.statement_to_diff stmt with e | diff
    · simp [hdiff]
    · simp [hparse, hdiff, Except.toOption] at h

/-- One that is goes to the ring and to the journal. -/
theorem execute_understood {stmt : SqlStatement} {diff : Diff} (hopen : journal.phase = .Open)
    (h : understood sql = some (stmt, diff)) :
    execute_sql_write debug_journal sql journal tick
      = (.ok (.ok ()), debug_journal.record (diff_to_debug_write_op diff tick),
        { journal with pending_diffs := journal.pending_diffs ++ [diff] }) := by
  obtain ⟨hparse, hdiff⟩ := understood_ok h
  simp only [execute_sql_write, hparse, hdiff, Journal.submit_diff, hopen, ne_eq, not_true_eq_false,
    if_false]

end QueryEngine

/-! ## The log -/

/-- Every operation since the last call of `clear`. -/
structure DebugLog where
  enabled : Bool
  ops : List DebugWriteOp

namespace DebugLog

def new : DebugLog := ⟨true, []⟩

def record (log : DebugLog) (op : DebugWriteOp) : DebugLog :=
  if log.enabled then { log with ops := log.ops ++ [op] } else log

end DebugLog

namespace DebugWriteJournal

/-- The ring holds the end of the log. -/
structure Ends (capacity : Nat) (ring : DebugWriteJournal) (log : DebugLog) : Prop where
  unpoisoned : ring.inner.poisoned = false
  capacity_eq : ring.inner.data.capacity = capacity
  enabled_eq : ring.inner.data.enabled = log.enabled
  ops_eq : ring.inner.data.ops = log.ops.rtake (max 1 capacity)

variable {capacity : Nat} {ring : DebugWriteJournal} {log : DebugLog}

theorem Ends.read (h : Ends capacity ring log) : ring.inner.read = .ok ring.inner.data := by
  unfold RwLock.read
  rw [h.unpoisoned]
  rfl

theorem ends_new : Ends capacity (new capacity) .new :=
  ⟨rfl, rfl, rfl, (List.rtake_nil _).symm⟩

/-- A full ring drops one element, and the end of the log moves on by one. -/
theorem Ends.record (h : Ends capacity ring log) (op : DebugWriteOp) :
    Ends capacity (ring.record op) (log.record op) := by
  unfold DebugWriteJournal.record DebugLog.record
  rw [h.read]
  simp only [h.enabled_eq]
  rcases henabled : log.enabled with _ | _
  · exact h
  · simp only [Bool.not_true, Bool.false_eq_true, if_false, if_true]
    refine ⟨h.unpoisoned, h.capacity_eq, rfl, ?_⟩
    rw [RwLock.data_set, ← TailWindow.rtake_push, h.capacity_eq, h.ops_eq]

theorem Ends.set_enabled (h : Ends capacity ring log) (enabled : Bool) :
    Ends capacity (ring.set_enabled enabled) { log with enabled } := by
  unfold DebugWriteJournal.set_enabled
  rw [h.read]
  exact ⟨h.unpoisoned, h.capacity_eq, rfl, h.ops_eq⟩

theorem Ends.clear (h : Ends capacity ring log) :
    Ends capacity ring.clear { log with ops := [] } := by
  unfold DebugWriteJournal.clear
  rw [h.read]
  exact ⟨h.unpoisoned, h.capacity_eq, h.enabled_eq, (List.rtake_nil _).symm⟩

theorem Ends.ops (h : Ends capacity ring log) : ring.ops = log.ops.rtake (max 1 capacity) := by
  unfold DebugWriteJournal.ops
  rw [h.read]
  exact h.ops_eq

/-- Small as the ring may be, the last operation is in it. -/
theorem Ends.latest (h : Ends capacity ring log) : ring.latest = log.ops.getLast? := by
  unfold DebugWriteJournal.latest
  rw [h.read]
  simp only [h.ops_eq]
  rcases List.eq_nil_or_concat log.ops with hnil | ⟨before, op, hops⟩
  · rw [hnil, List.rtake_nil]
  · rw [hops, List.concat_eq_append, List.getLast?_append, TailWindow.rtake_eq_drop]
    rw [List.drop_append_of_le_length, List.getLast?_append]
    · rfl
    · rw [List.length_append, List.length_singleton]
      omega

theorem Ends.ops_for_table (h : Ends capacity ring log) (table : String) :
    ring.ops_for_table table
      = (log.ops.rtake (max 1 capacity)).filter fun op => op.table_name = table := by
  unfold DebugWriteJournal.ops_for_table
  rw [h.read]
  simp only [h.ops_eq]

end DebugWriteJournal

end Scharnhorst
