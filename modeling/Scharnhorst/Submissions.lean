/-
From what is submitted to what is in the records.

A submitter knows the verdicts of its calls. A `Tally` adds them up: the accepted diffs
that a commit has taken since, those that none has taken and no clear has dropped, and
the record that each successful commit put at the end of the history. The invariant
says that the journal agrees with the tally, whatever the order of the calls and
whatever fails in between.

The journal's store and engine are shared handles, so their other holders may change
both between two calls. That is a call of its own here, which leaves anything. The
condition of the theorem is about this: no commit finds a poisoned table.
-/
import Scharnhorst.Commit

set_option autoImplicit false

namespace Scharnhorst

open Attempt

/-! ## Calls -/

inductive JournalOp (Q : Type) where
  | SubmitDiff (diff : Diff)
  | SubmitBatch (diffs : List Diff)
  | SubmitCommand (envelope : CommandEnvelope)
  | SubmitCommands (envelopes : List CommandEnvelope)
  | ClearPending
  | Commit
  | Elsewhere (arrow_store : ArrowStore) (query_engine : Option Q)

/-- A call of the journal that is no commit. -/
def JournalOp.Submits {Q : Type} : JournalOp Q → Prop
  | .Commit => False
  | .Elsewhere _ _ => False
  | _ => True

/-- What can be added up from the verdicts. -/
structure Tally where
  settled : List Diff
  waiting : List Diff
  records : List CommitRecord

def Tally.new : Tally := ⟨[], [], []⟩

/-- A save journal together with the records it took. -/
def SaveJournal.logged {J : Type} (saver : SaveJournal J) : SaveJournal (J × List CommitRecord) where
  append entry record :=
    match saver.append entry.1 record with
    | (.ok (), journal) => (.ok (), (journal, entry.2 ++ [record]))
    | (.error e, journal) => (.error e, (journal, entry.2))

namespace Journal

section Runs

variable [Render] {Q J : Type}

/-- A new journal, with or without an engine and a save journal. -/
def start (arrow_store : ArrowStore) (save_journal : Option J) (query_engine : Option Q) :
    Journal Q (J × List CommitRecord) :=
  let j := new arrow_store
  let j := save_journal.elim j fun journal => j.with_save_journal (journal, [])
  query_engine.elim j j.with_query_engine

def op (ingestor : SnapshotIngestor Q) (saver : SaveJournal J) (j : Journal Q J) :
    JournalOp Q → JournalResult Unit × Journal Q J
  | .SubmitDiff diff => j.submit_diff diff
  | .SubmitBatch diffs => j.submit_batch diffs
  | .SubmitCommand envelope => j.submit_command envelope
  | .SubmitCommands envelopes => j.submit_commands envelopes
  | .ClearPending => j.clear_pending
  | .Commit => ((j.commit ingestor saver).1.map fun _ => (), (j.commit ingestor saver).2)
  | .Elsewhere arrow_store query_engine => (.ok (), { j with arrow_store, query_engine })

/-- The diffs of a batch up to the first that is refused. -/
def accepted (j : Journal Q J) : List Diff → List Diff
  | [] => []
  | diff :: diffs =>
    match j.submit_diff diff with
    | (.ok (), j) => diff :: accepted j diffs
    | (.error _, _) => []

/-- One call, added up. The record of a commit is the one it put in the history. -/
def tally (ingestor : SnapshotIngestor Q) (saver : SaveJournal J) (j : Journal Q J) (t : Tally)
    (o : JournalOp Q) : Tally :=
  match o, j.op ingestor saver o with
  | .SubmitDiff diff, _ => { t with waiting := t.waiting ++ j.accepted [diff] }
  | .SubmitBatch diffs, _ => { t with waiting := t.waiting ++ j.accepted diffs }
  | .ClearPending, (.ok (), _) => { t with waiting := [] }
  | .Commit, (.ok (), j') =>
    { settled := t.settled ++ t.waiting
      waiting := []
      records := t.records ++ j'.history.getLast?.toList }
  | _, _ => t

/-- A run of calls, whatever their verdicts. -/
def run (ingestor : SnapshotIngestor Q) (saver : SaveJournal J) :
    Journal Q J → Tally → List (JournalOp Q) → Journal Q J × Tally
  | j, t, [] => (j, t)
  | j, t, o :: os =>
    run ingestor saver (j.op ingestor saver o).2 (j.tally ingestor saver t o) os

/-- No commit of the run finds the lock of a table poisoned that a pending diff names. -/
def CommitsHealthy (ingestor : SnapshotIngestor Q) (saver : SaveJournal J) :
    Journal Q J → List (JournalOp Q) → Prop
  | _, [] => True
  | j, o :: os =>
    (o matches .Commit → j.arrow_store.Healthy (j.pending_diffs.map Diff.table))
      ∧ CommitsHealthy ingestor saver (j.op ingestor saver o).2 os

instance CommitsHealthy.decidable (ingestor : SnapshotIngestor Q) (saver : SaveJournal J) :
    ∀ (j : Journal Q J) (os : List (JournalOp Q)), Decidable (CommitsHealthy ingestor saver j os)
  | _, [] => .isTrue trivial
  | j, o :: os =>
    have : Decidable (CommitsHealthy ingestor saver (j.op ingestor saver o).2 os) :=
      CommitsHealthy.decidable ingestor saver _ os
    inferInstanceAs (Decidable (_ ∧ _))

/-! ## The history -/

omit [Render] in
theorem evict_eq_drop (records : List CommitRecord) :
    evict records = records.drop (records.length - MAX_COMMIT_HISTORY) := by
  induction records with
  | nil => rfl
  | cons record records ih =>
      rw [evict]
      split
      · rename_i hlong
        rw [List.length_cons] at hlong ⊢
        rw [ih, show records.length + 1 - MAX_COMMIT_HISTORY
          = records.length - MAX_COMMIT_HISTORY + 1 by omega, List.drop_succ_cons]
      · rename_i hshort
        rw [Nat.sub_eq_zero_of_le (Nat.not_lt.1 hshort), List.drop_zero]

omit [Render] in
/-- Evicting as one goes leaves the same as evicting once. -/
theorem evict_push (records : List CommitRecord) (record : CommitRecord) :
    evict (records.drop (records.length - MAX_COMMIT_HISTORY) ++ [record])
      = (records ++ [record]).drop ((records ++ [record]).length - MAX_COMMIT_HISTORY) := by
  have hcount : records.length - MAX_COMMIT_HISTORY
      + (((records ++ [record]).drop (records.length - MAX_COMMIT_HISTORY)).length
        - MAX_COMMIT_HISTORY)
      = (records ++ [record]).length - MAX_COMMIT_HISTORY := by
    simp only [List.length_drop, List.length_append, List.length_singleton]
    omega
  rw [evict_eq_drop, ← List.drop_append_of_le_length (Nat.sub_le _ _), List.drop_drop, hcount]

omit [Render] in
theorem getLast?_evict (records : List CommitRecord) (record : CommitRecord) :
    (evict (records ++ [record])).getLast? = some record := by
  have hlt : (records ++ [record]).length - MAX_COMMIT_HISTORY < (records ++ [record]).length := by
    simp only [MAX_COMMIT_HISTORY, List.length_append, List.length_singleton]
    omega
  rw [evict_eq_drop, List.getLast?_drop, if_neg (Nat.not_le.2 hlt), List.getLast?_concat]

omit [Render] in
/-- One more record, of the next tick. -/
theorem ticks_concat {records : List CommitRecord} {record : CommitRecord}
    (hticks : ∀ (i : Nat) (r : CommitRecord), records[i]? = some r → r.tick = min i Tick.MAX)
    (hrecord : record.tick = min records.length Tick.MAX) (i : Nat) (r : CommitRecord)
    (hr : (records ++ [record])[i]? = some r) : r.tick = min i Tick.MAX := by
  by_cases hlt : i < records.length
  · rw [List.getElem?_append_left hlt] at hr
    exact hticks i r hr
  · have hlast : i = records.length := by
      have hle := (List.getElem?_eq_some_iff.1 hr).1
      rw [List.length_append, List.length_singleton] at hle
      omega
    subst hlast
    rw [List.getElem?_concat_length] at hr
    rw [← Option.some.inj hr]
    exact hrecord

/-! ## What the calls write -/

omit [Render] in
theorem accepted_open {j : Journal Q J} (hopen : j.phase = .Open) (diffs : List Diff) :
    j.accepted diffs = diffs := by
  induction diffs generalizing j with
  | nil => rfl
  | cons diff diffs ih =>
      have hstep : j.submit_diff diff
          = (.ok (), { j with pending_diffs := j.pending_diffs ++ [diff] }) := by
        simp [submit_diff, hopen]
      simp only [accepted, hstep, ih (j := { j with pending_diffs := j.pending_diffs ++ [diff] }) hopen]

omit [Render] in
theorem submit_command_writes (j : Journal Q J) (envelope : CommandEnvelope) :
    ∃ commands, (j.submit_command envelope).2 = { j with pending_commands := commands } := by
  unfold submit_command
  split
  · exact ⟨_, rfl⟩
  · split <;> exact ⟨_, rfl⟩

omit [Render] in
theorem submit_commands_writes (j : Journal Q J) (envelopes : List CommandEnvelope) :
    ∃ commands, (j.submit_commands envelopes).2 = { j with pending_commands := commands } := by
  refine forEach_invariant envelopes (f := submit_command)
    (P := fun k => ∃ commands, k = { j with pending_commands := commands }) ?_ ⟨_, rfl⟩
  rintro k envelope - ⟨commands, rfl⟩
  obtain ⟨commands', h⟩ := submit_command_writes { j with pending_commands := commands } envelope
  exact ⟨commands', h⟩

omit [Render] in
theorem submit_diff_writes (j : Journal Q J) (diff : Diff) :
    ∃ diffs, (j.submit_diff diff).2 = { j with pending_diffs := diffs } := by
  unfold submit_diff
  split <;> exact ⟨_, rfl⟩

omit [Render] in
theorem submit_batch_writes (j : Journal Q J) (diffs : List Diff) :
    ∃ pending, (j.submit_batch diffs).2 = { j with pending_diffs := pending } := by
  refine forEach_invariant diffs (f := submit_diff)
    (P := fun k => ∃ pending, k = { j with pending_diffs := pending }) ?_ ⟨_, rfl⟩
  rintro k diff - ⟨pending, rfl⟩
  obtain ⟨pending', h⟩ := submit_diff_writes { j with pending_diffs := pending } diff
  exact ⟨pending', h⟩

omit [Render] in
theorem clear_pending_writes (j : Journal Q J) :
    ∃ commands diffs, j.clear_pending.2
      = { j with pending_commands := commands, pending_diffs := diffs } := by
  unfold clear_pending
  split <;> exact ⟨_, _, rfl⟩

/-- All calls but the commit write to the pending lists only. -/
theorem op_submits (ingestor : SnapshotIngestor Q) (saver : SaveJournal J) (j : Journal Q J)
    {o : JournalOp Q} (h : o.Submits) :
    ∃ commands diffs, (j.op ingestor saver o).2
      = { j with pending_commands := commands, pending_diffs := diffs } := by
  cases o with
  | SubmitDiff diff =>
      obtain ⟨diffs, hwrites⟩ := submit_diff_writes j diff
      exact ⟨_, diffs, hwrites⟩
  | SubmitBatch diffs =>
      obtain ⟨pending, hwrites⟩ := submit_batch_writes j diffs
      exact ⟨_, pending, hwrites⟩
  | SubmitCommand envelope =>
      obtain ⟨commands, hwrites⟩ := submit_command_writes j envelope
      exact ⟨commands, _, hwrites⟩
  | SubmitCommands envelopes =>
      obtain ⟨commands, hwrites⟩ := submit_commands_writes j envelopes
      exact ⟨commands, _, hwrites⟩
  | ClearPending => exact clear_pending_writes j
  | Commit => exact h.elim
  | Elsewhere arrow_store query_engine => exact h.elim

/-! ## The invariant -/

/-- The journal agrees with the tally. -/
structure Agrees (attached : Bool) (j : Journal Q (J × List CommitRecord)) (t : Tally) : Prop where
  phase : j.phase = .Open
  settled : t.records.flatMap CommitRecord.diffs = t.settled
  waiting : j.pending_diffs = t.waiting
  current_tick : j.current_tick = min t.records.length Tick.MAX
  ticks : ∀ (i : Nat) (record : CommitRecord), t.records[i]? = some record →
    record.tick = min i Tick.MAX
  log : j.save_journal.map Prod.snd = if attached then some t.records else none
  history : j.history = t.records.drop (t.records.length - MAX_COMMIT_HISTORY)

variable {ingestor : SnapshotIngestor Q} {saver : SaveJournal J} {attached : Bool}
  {j : Journal Q (J × List CommitRecord)} {t : Tally}

omit [Render] in
theorem agrees_start (arrow_store : ArrowStore) (save_journal : Option J)
    (query_engine : Option Q) :
    Agrees save_journal.isSome (start arrow_store save_journal query_engine) .new := by
  cases save_journal <;> cases query_engine <;>
    exact ⟨rfl, rfl, rfl, (Nat.zero_min _).symm, by simp [Tally.new], rfl, rfl⟩

omit [Render] in
/-- A save journal that refuses a record does not log it. -/
theorem log_of_refused {sj sj' : Option (J × List CommitRecord)}
    (h : Refused saver.logged sj sj') : sj'.map Prod.snd = sj.map Prod.snd := by
  rcases h with rfl | ⟨x, y, e, record, rfl, happend, rfl⟩
  · rfl
  · simp only [SaveJournal.logged] at happend
    split at happend
    · cases happend
    · obtain ⟨-, rfl⟩ := Prod.mk.inj happend
      rfl

omit [Render] in
/-- One that takes it does. -/
theorem log_of_appended {sj sj' : Option (J × List CommitRecord)} {record : CommitRecord}
    (h : Appended saver.logged record sj sj') :
    sj'.map Prod.snd = (sj.map Prod.snd).map (· ++ [record]) := by
  rcases sj with _ | x
  · rw [h]
    rfl
  · obtain ⟨y, happend, rfl⟩ := h
    simp only [SaveJournal.logged] at happend
    split at happend
    · obtain ⟨-, rfl⟩ := Prod.mk.inj happend
      rfl
    · cases happend

/-- A commit that finds its tables healthy keeps the invariant, whether it goes through
or not. -/
theorem Agrees.commit (h : Agrees attached j t)
    (hhealthy : j.arrow_store.Healthy (j.pending_diffs.map Diff.table)) :
    Agrees attached (j.op ingestor saver.logged .Commit).2
      (j.tally ingestor saver.logged t .Commit) := by
  have hending := commit_ending ingestor saver.logged h.phase
  unfold tally op
  generalize j.commit ingestor saver.logged = ending at hending
  obtain ⟨result, j'⟩ := ending
  cases hending with
  | lost hpoisoned => exact absurd hhealthy hpoisoned
  | recovered _ hrefused =>
      exact ⟨rfl, h.settled, h.waiting, h.current_tick, h.ticks,
        (log_of_refused hrefused).trans h.log, h.history⟩
  | @committed record _ _ sj _ htick hdiffs hcommands happended =>
      have hlast : (evict (j.history ++ [record])).getLast?.toList = [record] := by
        rw [getLast?_evict, Option.toList_some]
      simp only [Except.map, hlast]
      refine ⟨rfl, ?_, rfl, ?_, fun i r hr => ?_, ?_, ?_⟩
      · simp [h.settled, hdiffs, h.waiting]
      · rw [h.current_tick, Tick.next_min, List.length_append, List.length_singleton]
      · exact ticks_concat h.ticks (htick.trans h.current_tick) i r hr
      · rw [log_of_appended happended, h.log]
        cases attached <;> rfl
      · simp only
        rw [h.history, evict_push]

/-- Every call keeps it. -/
theorem Agrees.op (h : Agrees attached j t) (o : JournalOp Q)
    (hhealthy : o matches .Commit → j.arrow_store.Healthy (j.pending_diffs.map Diff.table)) :
    Agrees attached (j.op ingestor saver.logged o).2 (j.tally ingestor saver.logged t o) := by
  obtain ⟨hphase, hsettled, hwaiting, htick, hticks, hlog, hhistory⟩ := h
  cases o with
  | Commit => exact Agrees.commit ⟨hphase, hsettled, hwaiting, htick, hticks, hlog, hhistory⟩ (hhealthy rfl)
  | SubmitDiff diff =>
      have hsubmit : j.submit_diff diff
          = (.ok (), { j with pending_diffs := j.pending_diffs ++ [diff] }) := by
        simp [submit_diff, hphase]
      simp only [Journal.op, tally, hsubmit, accepted_open hphase]
      exact ⟨hphase, hsettled, by simp [hwaiting], htick, hticks, hlog, hhistory⟩
  | SubmitBatch diffs =>
      simp only [Journal.op, tally, submit_batch_open hphase, accepted_open hphase]
      exact ⟨hphase, hsettled, by simp [hwaiting], htick, hticks, hlog, hhistory⟩
  | SubmitCommand envelope =>
      obtain ⟨commands, hsubmit⟩ := submit_command_writes j envelope
      simp only [Journal.op, tally, hsubmit]
      exact ⟨hphase, hsettled, hwaiting, htick, hticks, hlog, hhistory⟩
  | SubmitCommands envelopes =>
      obtain ⟨commands, hsubmit⟩ := submit_commands_writes j envelopes
      simp only [Journal.op, tally, hsubmit]
      exact ⟨hphase, hsettled, hwaiting, htick, hticks, hlog, hhistory⟩
  | ClearPending =>
      have hclear : j.clear_pending
          = (.ok (), { j with pending_commands := [], pending_diffs := [] }) := by
        simp [clear_pending, hphase]
      simp only [Journal.op, tally, hclear]
      exact ⟨hphase, hsettled, rfl, htick, hticks, hlog, hhistory⟩
  | Elsewhere arrow_store query_engine =>
      exact ⟨hphase, hsettled, hwaiting, htick, hticks, hlog, hhistory⟩

theorem Agrees.run (h : Agrees attached j t) {ops : List (JournalOp Q)}
    (hops : CommitsHealthy ingestor saver.logged j ops) :
    Agrees attached (Journal.run ingestor saver.logged j t ops).1
      (Journal.run ingestor saver.logged j t ops).2 := by
  induction ops generalizing j t with
  | nil => exact h
  | cons o os ih => exact ih (h.op o hops.1) hops.2

/-- Nothing is lost, repeated or reordered: the records of the successful commits, and
then the pending list, are the accepted diffs that no clear has dropped. -/
theorem submissions_conserved {arrow_store : ArrowStore} {save_journal : Option J}
    {query_engine : Option Q} {ops : List (JournalOp Q)}
    (hops : CommitsHealthy ingestor saver.logged (start arrow_store save_journal query_engine) ops) :
    let j := (run ingestor saver.logged (start arrow_store save_journal query_engine) .new ops).1
    let t := (run ingestor saver.logged (start arrow_store save_journal query_engine) .new ops).2
    t.records.flatMap CommitRecord.diffs ++ j.pending_diffs = t.settled ++ t.waiting
      ∧ (∀ (i : Nat) (record : CommitRecord), t.records[i]? = some record → i ≤ Tick.MAX →
          record.tick = i)
      ∧ j.save_journal.map Prod.snd = save_journal.map (fun _ => t.records)
      ∧ j.history
        = t.records.drop (t.records.length - min MAX_COMMIT_HISTORY t.records.length) := by
  intro j t
  have h : Agrees save_journal.isSome j t := (agrees_start _ _ _).run hops
  refine ⟨by rw [h.settled, h.waiting], fun i record hi hle => ?_, ?_, ?_⟩
  · rw [h.ticks i record hi, Nat.min_eq_left hle]
  · rw [h.log]
    cases save_journal <;> rfl
  · have hcount : t.records.length - min MAX_COMMIT_HISTORY t.records.length
        = t.records.length - MAX_COMMIT_HISTORY := by omega
    rw [h.history, hcount]

end Runs

/-! ## Two runs -/

section Items

attribute [local instance] plain_text QueryEngine.no_merge

/-- Two commits, with a failed one and a clear between them. -/
def items_calls : List (JournalOp QueryEngine) :=
  [.SubmitBatch [.Insert "items" 1 (item 1 10), .Insert "items" 2 (item 2 20)], .Commit,
    .SubmitDiff (set_qty "missing"), .Commit, .ClearPending, .SubmitDiff (set_qty "items"), .Commit]

def items_calls_run (s : ArrowStore) (calls : List (JournalOp QueryEngine)) :
    Journal QueryEngine (List CommitRecord × List CommitRecord) × Tally :=
  run QueryEngine.ingestor InMemorySaveJournal.logged (start s (some []) none) .new calls

theorem items_calls_conserved :
    (items_calls_run items_store items_calls).2.records.length = 2
      ∧ (items_calls_run items_store items_calls).2.records.flatMap CommitRecord.diffs
          ++ (items_calls_run items_store items_calls).1.pending_diffs
        = (items_calls_run items_store items_calls).2.settled
          ++ (items_calls_run items_store items_calls).2.waiting :=
  ⟨by decide +kernel, (@submissions_conserved _ _ _ QueryEngine.ingestor InMemorySaveJournal items_store
    (some []) none items_calls (by decide +kernel)).1⟩

/-- Over a poisoned table the accepted diff is in no record and not pending. -/
theorem poisoned_calls_lose :
    (items_calls_run poisoned_items [.SubmitDiff (set_qty "items"), .Commit]).2.records.flatMap
        CommitRecord.diffs
        ++ (items_calls_run poisoned_items [.SubmitDiff (set_qty "items"), .Commit]).1.pending_diffs
      ≠ (items_calls_run poisoned_items [.SubmitDiff (set_qty "items"), .Commit]).2.settled
        ++ (items_calls_run poisoned_items [.SubmitDiff (set_qty "items"), .Commit]).2.waiting := by
  intro heq
  have hlen := congrArg List.length heq
  revert hlen
  decide +kernel

end Items

end Journal

end Scharnhorst
