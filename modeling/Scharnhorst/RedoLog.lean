/-
The save journal as a redo log.

Every commit appends its record to the save journal, with its diffs and its commands. Here the
records are put through a second journal that has started where the first one did, has no engine to
publish to and no save journal of its own: the commands of a record are submitted again, then its
diffs, and the commit is made again. Nothing in this depends on what else the scheduler has gone
through, so each commit says again what it has said before, and in the end the stores are the same,
down to the batches.

The commands of a record are accepted again because the journal only keeps commands of its own tick.
-/
import Scharnhorst.Lockstep
import Scharnhorst.Simulation

set_option autoImplicit false

namespace Scharnhorst

open Attempt

/-! ## Resubmission -/

namespace Journal

variable {Q J Q' J' : Type} [Render]

/-- What a record says is submitted and committed. -/
def resubmit (ingestor : SnapshotIngestor Q) (saver : SaveJournal J) (j : Journal Q J)
    (record : CommitRecord) : JournalResult CommitResult × Journal Q J :=
  match j.submit_commands record.commands with
  | (.error e, j) => (.error e, j)
  | (.ok (), j) =>
    match j.submit_batch record.diffs with
    | (.error e, j) => (.error e, j)
    | (.ok (), j) => j.commit ingestor saver

/-- One record after the other, up to the first that is refused. -/
def resubmit_all (ingestor : SnapshotIngestor Q) (saver : SaveJournal J) :
    Journal Q J → List CommitRecord → JournalResult (List CommitResult) × Journal Q J
  | j, [] => (.ok [], j)
  | j, record :: records =>
    match j.resubmit ingestor saver record with
    | (.error e, j) => (.error e, j)
    | (.ok result, j) =>
      let (results, j) := resubmit_all ingestor saver j records
      (results.map (result :: ·), j)

section Resubmission

variable {ingestor : SnapshotIngestor Q} {saver : SaveJournal J} {ingestor' : SnapshotIngestor Q'}
  {saver' : SaveJournal J'} {j j' : Journal Q J} {k k' : Journal Q' J'}

theorem resubmit_submitted {record : CommitRecord} {mid filled : Journal Q J}
    (hcommands : j.submit_commands record.commands = (.ok (), mid))
    (hdiffs : mid.submit_batch record.diffs = (.ok (), filled)) :
    j.resubmit ingestor saver record = filled.commit ingestor saver := by
  simp only [resubmit, hcommands, hdiffs]

theorem resubmit_all_snoc {records : List CommitRecord} {record : CommitRecord}
    {results : List CommitResult} {result : CommitResult} {mid : Journal Q J}
    (hall : j.resubmit_all ingestor saver records = (.ok results, mid))
    (hlast : mid.resubmit ingestor saver record = (.ok result, j')) :
    j.resubmit_all ingestor saver (records ++ [record]) = (.ok (results ++ [result]), j') := by
  induction records generalizing j results with
  | nil =>
      obtain ⟨hresults, rfl⟩ := Prod.mk.inj hall
      obtain rfl : [] = results := Except.ok.inj hresults
      simp only [List.nil_append, resubmit_all, hlast, Except.map]
  | cons first records ih =>
      rcases hfirst : j.resubmit ingestor saver first with ⟨e | r, next⟩
      · rw [resubmit_all, hfirst] at hall
        cases (Prod.mk.inj hall).1
      rcases hrest : next.resubmit_all ingestor saver records with ⟨e | rs, last⟩
      · simp only [resubmit_all, hfirst, hrest, Except.map] at hall
        cases (Prod.mk.inj hall).1
      · simp only [resubmit_all, hfirst, hrest, Except.map] at hall
        obtain ⟨hresults, rfl⟩ := Prod.mk.inj hall
        obtain rfl : r :: rs = results := Except.ok.inj hresults
        rw [List.cons_append, resubmit_all, hfirst]
        simp only [ih hrest, Except.map, List.cons_append]

/-- Open and empty, where the first one is, with nothing to publish to or to save to. -/
structure Double (j : Journal Q J) (k : Journal Q' J') : Prop where
  phase : k.phase = .Open
  pending_commands : k.pending_commands = []
  pending_diffs : k.pending_diffs = []
  current_tick : k.current_tick = j.current_tick
  history : k.history = j.history
  arrow_store : k.arrow_store = j.arrow_store
  query_engine : k.query_engine = none
  save_journal : k.save_journal = none

omit [Render] in
/-- With nothing to deliver to, a delivery goes through. -/
theorem deliver_alone (hengine : k.query_engine = none) (hsave : k.save_journal = none)
    (tick : Tick) (saved : Map String Versions) (diffs : List Diff) (commands : List CommandEnvelope)
    (state_hash : UInt64) :
    k.deliver ingestor' saver' tick saved diffs commands state_hash
      = (.ok ⟨tick, diffs.length, commands.length, state_hash⟩,
        k.finish (.with_commands tick diffs commands state_hash)) := by
  obtain ⟨current_tick, phase, pending_commands, pending_diffs, history, sj, store, q⟩ := k
  simp only at hengine hsave
  subst hengine hsave
  rfl

variable (ingestor' saver') in
/-- The record of a commit, resubmitted to the double, makes the same commit. -/
theorem Double.commit (h : Double j k) {commands : List CommandEnvelope} {diffs : List Diff}
    {result : CommitResult} (hticks : ∀ envelope ∈ commands, envelope.tick = j.current_tick)
    (hcommit : { j with pending_commands := commands, pending_diffs := diffs }.commit ingestor saver
      = (.ok result, j')) :
    ∃ record, Appended saver record j.save_journal j'.save_journal ∧ record.result = result
      ∧ ∃ k', k.resubmit ingestor' saver' record = (.ok result, k') ∧ Double j' k' := by
  obtain ⟨saved, mid, s, snapshot, state_hash, hleft⟩ := commit_ok hcommit
  rw [hleft.commit] at hcommit
  obtain ⟨e, q, sj, -, herr⟩ | ⟨q, sj, happended, hok⟩ := deliver_cases ingestor saver
    ({ j with pending_commands := commands, pending_diffs := diffs }.applied s) j.current_tick saved
    diffs commands state_hash
  · cases (Prod.mk.inj (hcommit.symm.trans herr)).1
  obtain ⟨hresult, rfl⟩ := Prod.mk.inj (hcommit.symm.trans hok)
  obtain rfl := Except.ok.inj hresult
  refine ⟨.with_commands j.current_tick diffs commands state_hash, happended, rfl, ?_⟩
  have hcommands : k.submit_commands commands
      = (.ok (), { k with pending_commands := commands }) := by
    refine submit_commands_ok.2 ⟨fun envelope hmem => ⟨h.phase, ?_⟩, ?_⟩
    · rw [h.current_tick]
      exact hticks envelope hmem
    · rw [h.pending_commands, List.nil_append]
  have hdiffs : submit_batch { k with pending_commands := commands } diffs
      = (.ok (), { k with pending_commands := commands, pending_diffs := diffs }) := by
    rw [submit_batch_open (by exact h.phase), h.pending_diffs, List.nil_append]
  -- the same store, tick and diffs, and so the same first half
  have hright : Applies { k with pending_commands := commands, pending_diffs := diffs } saved mid s
      snapshot state_hash := by
    refine ⟨h.phase, ?_, ?_, ?_, hleft.hash⟩
    · simpa only [h.arrow_store] using hleft.saved
    · simpa only [h.arrow_store, h.current_tick] using hleft.diffs
    · simpa only [h.current_tick] using hleft.snapshot
  have hcommit' : { k with pending_commands := commands, pending_diffs := diffs }.commit ingestor'
      saver' = (.ok ⟨j.current_tick, diffs.length, commands.length, state_hash⟩,
        (applied { k with pending_commands := commands, pending_diffs := diffs } s).finish
          (.with_commands j.current_tick diffs commands state_hash)) := by
    rw [hright.commit, ← h.current_tick]
    exact deliver_alone (by exact h.query_engine) (by exact h.save_journal) _ _ _ _ _
  refine ⟨(applied { k with pending_commands := commands, pending_diffs := diffs } s).finish
      (.with_commands j.current_tick diffs commands state_hash), ?_, ?_⟩
  · rw [resubmit_submitted hcommands hdiffs]
    exact hcommit'
  · exact
      { phase := rfl
        pending_commands := rfl
        pending_diffs := rfl
        current_tick := congrArg Tick.next h.current_tick
        history := congrArg (fun history => evict (history ++ _)) h.history
        arrow_store := rfl
        query_engine := h.query_engine
        save_journal := h.save_journal }

end Resubmission

end Journal

/-! ## Runs of a scheduler -/

namespace Journal

variable {Q J : Type} {j : Journal Q J}

/-- The commands that wait are of the journal's own tick. -/
def Current (j : Journal Q J) : Prop :=
  ∀ envelope ∈ j.pending_commands, envelope.tick = j.current_tick

theorem Current.submit_commands (h : j.Current) (envelopes : List CommandEnvelope) :
    (j.submit_commands envelopes).2.Current := by
  refine forEach_invariant envelopes (fun j envelope _ hj => ?_) h
  unfold submit_command
  split
  · exact hj
  · split
    · exact hj
    · rename_i htick
      intro other hmem
      rcases List.mem_append.1 hmem with hbefore | hlast
      · exact hj other hbefore
      · obtain rfl := List.mem_singleton.1 hlast
        exact not_not.1 htick

end Journal

namespace Scheduler

section Runs

variable {Q J S Q' J' : Type} [Render] {ingestor : SnapshotIngestor Q} {saver : SaveJournal J}
  {start sch sch' : Scheduler Q J S}

/-- Calls of `tick` with commands queued in between, where a commit that is reached goes through,
and what the commits have reported. -/
inductive Played (ingestor : SnapshotIngestor Q) (saver : SaveJournal J) (start : Scheduler Q J S) :
    Scheduler Q J S → List CommitResult → Prop
  | start : Played ingestor saver start start []
  | enqueue {sch : Scheduler Q J S} {reports : List CommitResult}
      (run : Played ingestor saver start sch reports) (envelope : CommandEnvelope) :
    Played ingestor saver start (sch.enqueue_command envelope).2 reports
  | returns {sch : Scheduler Q J S} {reports : List CommitResult}
      (run : Played ingestor saver start sch reports) (hnone : sch.to_commit = none) :
    Played ingestor saver start (sch.tick ingestor saver).2 reports
  | commits {sch sch' : Scheduler Q J S} {reports : List CommitResult} {result : CommitResult}
      (run : Played ingestor saver start sch reports)
      (hok : sch.tick_to_commit ingestor saver = (.ok result, sch')) :
    Played ingestor saver start (sch.tick ingestor saver).2 (reports ++ [result])

omit [Render] in
theorem Resting.current_consumed (h : sch.Resting) (hcurrent : sch.journal.data.Current) :
    sch.consume_pending_commands.2.journal.data.Current := by
  have hsubmitted := hcurrent.submit_commands sch.pending_commands.data
  simp only [consume_pending_commands, lock_healthy h.unpoisoned.queue,
    lock_healthy h.unpoisoned.journal]
  rcases hsubmit : sch.journal.data.submit_commands sch.pending_commands.data with ⟨e | ⟨⟩, j⟩
  all_goals
    rw [hsubmit] at hsubmitted
    exact hsubmitted

/-- A call that commits nothing leaves no command of another tick in the journal. -/
theorem Resting.current_returned (h : sch.Resting) (hcurrent : sch.journal.data.Current)
    (hnone : sch.to_commit = none) {e : SchedulerError}
    (hcall : sch.tick_to_commit ingestor saver = (.error e, sch')) :
    sch'.journal.data.Current := by
  unfold tick_to_commit at hcall
  rcases hinit : sch.initialized with _ | _
  · simp only [hinit, Bool.not_false, if_true] at hcall
    obtain ⟨-, rfl⟩ := Prod.mk.inj hcall
    exact hcurrent
  simp only [hinit, Bool.not_true, Bool.false_eq_true, if_false] at hcall
  rcases hconsume : sch.consume_pending_commands with ⟨e' | consumed, mid⟩
  · have hconsumed := h.current_consumed hcurrent
    rw [hconsume] at hcall hconsumed
    obtain ⟨-, rfl⟩ := Prod.mk.inj hcall
    exact hconsumed
  · obtain ⟨hunpoisoned, hrun⟩ := h.run_consumed hconsume
    obtain ⟨-, -, rfl, htaken, -⟩ := consume_ok hconsume
    have hall : ∀ envelope ∈ sch.pending_commands.data,
        envelope.tick = sch.journal.data.current_tick :=
      fun envelope hmem => (htaken envelope hmem).2
    unfold to_commit at hnone
    rw [if_pos ⟨hinit, hall⟩] at hnone
    rcases hemit : sch.emissions sch.current_tick with ⟨e' | ⟨⟩, diffs, kept⟩
    · -- a system has failed: what has been taken is in the queue again
      rw [hemit] at hrun
      simp only [hconsume, hrun] at hcall
      have hback : (mid.ran diffs kept).roll_back sch.pending_commands.data e'
          = ((.error e' : SchedulerResult CommitResult), _) :=
        roll_back_eq hunpoisoned.queue hunpoisoned.journal
      obtain ⟨-, rfl⟩ := Prod.mk.inj (hback.symm.trans hcall)
      have hopen : (mid.ran diffs kept).journal.data.phase = .Open := by
        obtain ⟨-, -, -, -, rfl⟩ := consume_ok hconsume
        exact h.phase
      intro envelope hmem
      simp [set_journal, Journal.clear_pending, hopen] at hmem
    · rw [hemit] at hnone
      cases hnone

/-- After every call the double that has been given the records of the save journal is where the
journal is, and it has reported what the scheduler has. -/
structure Redone (ingestor' : SnapshotIngestor Q') (saver' : SaveJournal J') (k : Journal Q' J')
    (sch : Scheduler Q (List CommitRecord) S) (reports : List CommitResult) : Prop where
  resting : sch.Resting
  current : sch.journal.data.Current
  redone : ∃ records k', sch.journal.data.save_journal = some records
    ∧ k.resubmit_all ingestor' saver' records = (.ok reports, k') ∧ sch.journal.data.Double k'

variable {start sch sch' : Scheduler Q (List CommitRecord) S} {k : Journal Q' J'}
  {ingestor' : SnapshotIngestor Q'} {saver' : SaveJournal J'} {reports : List CommitResult}

theorem Redone.returned (h : Redone ingestor' saver' k sch reports) (hreturned : Returned sch sch')
    (hcurrent : sch'.journal.data.Current) : Redone ingestor' saver' k sch' reports := by
  obtain ⟨queue, commands, kept, rfl⟩ := hreturned
  obtain ⟨hsystems, hregistrations, hqueue, hjournal⟩ := h.resting.unpoisoned
  obtain ⟨records, k', hrecords, hresubmit, hdouble⟩ := h.redone
  exact ⟨⟨⟨hsystems, hregistrations, hqueue, hjournal⟩, h.resting.phase, rfl⟩, hcurrent, records,
    k', hrecords, hresubmit, { hdouble with }⟩

theorem Redone.commits (h : Redone ingestor' saver' k sch reports) {result : CommitResult}
    (hok : sch.tick_to_commit ingestor InMemorySaveJournal = (.ok result, sch')) :
    Redone ingestor' saver' k (sch.tick ingestor InMemorySaveJournal).2 (reports ++ [result]) := by
  obtain ⟨diffs, hdiffs⟩ : ∃ diffs, sch.to_commit = some diffs := by
    rcases hnone : sch.to_commit with _ | diffs
    · obtain ⟨e, after, hcall, -⟩ := h.resting.call_returns ingestor InMemorySaveJournal hnone
      cases (Prod.mk.inj (hok.symm.trans hcall)).1
    · exact ⟨diffs, rfl⟩
  have hqueue : ∀ envelope ∈ sch.pending_commands.data,
      envelope.tick = sch.journal.data.current_tick := by
    unfold to_commit at hdiffs
    split at hdiffs
    · rename_i hready
      exact hready.2
    · cases hdiffs
  obtain ⟨j, kept, hcommit, rfl⟩ := h.resting.call_commits hdiffs hok
  obtain ⟨records, k', hrecords, hresubmit, hdouble⟩ := h.redone
  have hticks : ∀ envelope ∈ sch.journal.data.pending_commands ++ sch.pending_commands.data,
      envelope.tick = sch.journal.data.current_tick := by
    intro envelope hmem
    rcases List.mem_append.1 hmem with hbefore | hqueued
    · exact h.current envelope hbefore
    · exact hqueue envelope hqueued
  obtain ⟨record, happended, -, k'', hone, hdouble'⟩ :=
    hdouble.commit ingestor' saver' hticks hcommit
  obtain ⟨-, -, -, -, hopen, hempty, -⟩ := Journal.commit_takes hcommit
  obtain ⟨last, hafter⟩ := tick_of_commit hok
  obtain ⟨hsystems, hregistrations, hhealthy, hjournal⟩ := h.resting.unpoisoned
  have hsaved : j.save_journal = some (records ++ [record]) := by
    rw [hrecords] at happended
    obtain ⟨y, happend, hy⟩ := happended
    rw [hy, ← (Prod.mk.inj happend).2]
  rw [hafter]
  refine ⟨⟨⟨hsystems, hregistrations, hhealthy, hjournal⟩, hopen, Journal.commit_empties hcommit⟩,
    ?_, _, k'', hsaved, Journal.resubmit_all_snoc hresubmit hone, { hdouble' with }⟩
  intro envelope hmem
  have hnone : envelope ∈ j.pending_commands := hmem
  rw [hempty] at hnone
  cases hnone

theorem Played.redone (hstart : Redone ingestor' saver' k start [])
    (run : Played ingestor InMemorySaveJournal start sch reports) :
    Redone ingestor' saver' k sch reports := by
  induction run with
  | start => exact hstart
  | enqueue run envelope ih =>
      refine ih.returned (enqueue_returned ih.resting.pending envelope) ?_
      have hjournal : ∀ sch : Scheduler Q (List CommitRecord) S,
          (sch.enqueue_command envelope).2.journal = sch.journal := by
        intro sch
        unfold enqueue_command
        split <;> rfl
      rw [hjournal]
      exact ih.current
  | returns run hnone ih =>
      obtain ⟨e, sch', hcall, hreturned⟩ :=
        ih.resting.call_returns ingestor InMemorySaveJournal hnone
      simp only [tick, hcall]
      exact ih.returned hreturned (ih.resting.current_returned ih.current hnone hcall)
  | commits run hok ih => exact ih.commits hok

end Runs

/-! ## The warehouse again -/

section Warehouse

attribute [local instance] plain_text Journal.one_batch

/-- The warehouse, with a save journal. -/
def logged : Scheduler QueryEngine (List CommitRecord) Nat :=
  warehouse.set_journal { warehouse.journal.data with save_journal := some [] }

/-- A journal that nobody listens to, over the store that the warehouse began with. -/
def spare_journal : Journal Unit Unit := .new warehouse.journal.data.arrow_store

def no_saver : SaveJournal Unit where
  append journal _ := (.error (.Generic "no journal"), journal)

end Warehouse

end Scheduler

end Scharnhorst
