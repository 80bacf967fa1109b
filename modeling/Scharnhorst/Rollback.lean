/-
What a failed tick leaves.

Up to the commit a tick writes little: the queue, the journal's pending lists, and what
the systems keep. The rollback puts the queue back and empties the pending lists, so that
the next tick starts from nothing. The journal's own recovery has put them back just
before, and has no part in the outcome.
-/
import Scharnhorst.Commit
import Scharnhorst.Scheduler
import Scharnhorst.Submissions

set_option autoImplicit false

namespace Scharnhorst

open Attempt

namespace Journal

variable {Q J : Type} {j j' : Journal Q J}

/-- Commands are accepted together when the journal is open and they are all of its tick,
and they are then at the end of the pending list. -/
theorem submit_commands_ok {envelopes : List CommandEnvelope} :
    j.submit_commands envelopes = (.ok (), j')
      ↔ (∀ envelope ∈ envelopes, j.phase = .Open ∧ envelope.tick = j.current_tick)
        ∧ j' = { j with pending_commands := j.pending_commands ++ envelopes } := by
  unfold submit_commands
  induction envelopes generalizing j with
  | nil => simp [eq_comm]
  | cons envelope envelopes ih =>
      rw [forEach_cons_ok, List.forall_mem_cons]
      constructor
      · rintro ⟨mid, hfirst, hrest⟩
        unfold submit_command at hfirst
        split at hfirst
        · cases (Prod.mk.inj hfirst).1
        split at hfirst
        · cases (Prod.mk.inj hfirst).1
        rename_i hopen htick
        obtain ⟨-, rfl⟩ := Prod.mk.inj hfirst
        obtain ⟨hall, rfl⟩ := ih.1 hrest
        exact ⟨⟨⟨not_not.1 hopen, not_not.1 htick⟩, hall⟩, by simp⟩
      · rintro ⟨⟨⟨hopen, htick⟩, hall⟩, rfl⟩
        refine ⟨{ j with pending_commands := j.pending_commands ++ [envelope] }, ?_, ?_⟩
        · simp [submit_command, hopen, htick]
        · exact ih.2 ⟨hall, by simp⟩

/-- A closed journal takes no diffs. -/
theorem submit_batch_closed (hclosed : j.phase ≠ .Open) (diffs : List Diff) :
    (j.submit_batch diffs).2 = j := by
  refine forEach_invariant diffs (f := submit_diff) (P := fun k => k = j) ?_ rfl
  rintro k diff - rfl
  simp [submit_diff, hclosed]

/-- A commit that fails leaves the tick and the history, and what is still pending is
gone after a clear. -/
theorem clear_after_commit [Render] {ingestor : SnapshotIngestor Q} {saver : SaveJournal J}
    {e : JournalError} (hopen : j.phase = .Open)
    (h : j.commit ingestor saver = (.error e, j')) :
    j'.history = j.history ∧ j'.clear_pending.2.history = j.history
      ∧ j'.clear_pending.2.pending_commands = [] ∧ j'.clear_pending.2.pending_diffs = [] := by
  have hending := commit_ending ingestor saver hopen
  rw [h] at hending
  cases hending with
  | lost hpoisoned => exact ⟨rfl, rfl, rfl, rfl⟩
  | recovered hhealthy hrefused => exact ⟨rfl, rfl, rfl, rfl⟩

end Journal

namespace Scheduler

variable {Q J S : Type} {sch sch' mid : Scheduler Q J S}

theorem lock_ok {α : Type} {name : String} {mutex : RwLock α} {a : α}
    (h : lock name mutex = .ok a) : mutex.poisoned = false ∧ a = mutex.data := by
  unfold lock at h
  rcases hread : mutex.read with e | b
  · rw [hread] at h
    cases h
  · obtain ⟨hhealthy, rfl⟩ := RwLock.read_ok.1 hread
    rw [hread] at h
    exact ⟨hhealthy, (Except.ok.inj h).symm⟩

theorem lock_healthy {α : Type} {name : String} {mutex : RwLock α} (h : mutex.poisoned = false) :
    lock name mutex = .ok mutex.data := by
  simp [lock, RwLock.read_healthy h, Except.mapError]

/-! ## What the steps write -/

/-- What the systems may change: the pending diffs of an open journal, and what they keep. -/
def Ran (sch sch' : Scheduler Q J S) : Prop :=
  ∃ kept diffs,
    sch' = { sch.set_journal { sch.journal.data with pending_diffs := diffs } with kept }
      ∧ (sch.journal.data.phase ≠ .Open → diffs = sch.journal.data.pending_diffs)

theorem Ran.refl (sch : Scheduler Q J S) : Ran sch sch := ⟨_, _, rfl, fun _ => rfl⟩

theorem Ran.trans {a b c : Scheduler Q J S} (hab : Ran a b) (hbc : Ran b c) : Ran a c := by
  obtain ⟨kept, diffs, rfl, hdiffs⟩ := hab
  obtain ⟨kept', diffs', rfl, hdiffs'⟩ := hbc
  exact ⟨kept', diffs', rfl, fun hclosed => (hdiffs' hclosed).trans (hdiffs hclosed)⟩

theorem run_system_ran (phase : Phase) (tick : UInt64) (systems : List (String × SimSystem Q S))
    (sch : Scheduler Q J S) (id : String) : Ran sch (run_system phase tick systems sch id).2 := by
  unfold run_system
  split
  · exact .refl sch
  split
  · exact ⟨_, _, rfl, fun _ => rfl⟩
  rename_i diffs kept _
  rcases hlock : lock "journal" sch.journal with e | journal
  · exact ⟨kept, _, by simp only [hlock]; rfl, fun _ => rfl⟩
  · obtain ⟨-, rfl⟩ := lock_ok hlock
    obtain ⟨pending, hwrites⟩ := Journal.submit_batch_writes sch.journal.data diffs
    have hclosed : sch.journal.data.phase ≠ .Open → pending = sch.journal.data.pending_diffs := by
      intro hclosed
      have hsame := Journal.submit_batch_closed hclosed diffs
      rw [hwrites] at hsame
      exact congrArg Journal.pending_diffs hsame
    rcases hsubmit : sch.journal.data.submit_batch diffs with ⟨e | ⟨⟩, journal⟩ <;>
      · rw [hsubmit] at hwrites
        obtain rfl : journal = _ := hwrites
        exact ⟨kept, pending, by simp only [hlock, hsubmit]; rfl, hclosed⟩

theorem run_phases_ran (sch : Scheduler Q J S) (tick : UInt64) : Ran sch (sch.run_phases tick).2 := by
  unfold run_phases
  split
  · exact .refl sch
  rename_i by_phase _
  refine forEach_invariant by_phase (P := Ran sch) (fun k entry _ hk => hk.trans ?_) (.refl sch)
  unfold run_phase
  split
  · exact .refl k
  · rename_i systems _
    exact forEach_invariant entry.2 (P := Ran k)
      (fun k' id _ hk' => hk'.trans (run_system_ran entry.1 tick systems k' id)) (.refl k)

/-- What taking the commands writes when it goes through. -/
theorem consume_ok {consumed : List CommandEnvelope}
    (h : sch.consume_pending_commands = (.ok consumed, mid)) :
    sch.pending_commands.poisoned = false ∧ sch.journal.poisoned = false
      ∧ consumed = sch.pending_commands.data
      ∧ (∀ envelope ∈ consumed, sch.journal.data.phase = .Open
        ∧ envelope.tick = sch.journal.data.current_tick)
      ∧ mid = { sch.set_journal { sch.journal.data with
          pending_commands := sch.journal.data.pending_commands ++ consumed } with
        pending_commands := sch.pending_commands.set [] } := by
  unfold consume_pending_commands at h
  rcases hcommands : lock "commands" sch.pending_commands with e | drained
  · simp only [hcommands] at h
    cases (Prod.mk.inj h).1
  rcases hjournal : lock "journal" sch.journal with e | journal
  · simp only [hcommands, hjournal] at h
    cases (Prod.mk.inj h).1
  obtain ⟨hhealthy, rfl⟩ := lock_ok hcommands
  obtain ⟨hhealthy', rfl⟩ := lock_ok hjournal
  simp only [hcommands, hjournal] at h
  rcases hsubmit : sch.journal.data.submit_commands sch.pending_commands.data with
    ⟨e | ⟨⟩, journal⟩
  · simp only [hsubmit] at h
    cases (Prod.mk.inj h).1
  · simp only [hsubmit] at h
    obtain ⟨hconsumed, rfl⟩ := Prod.mk.inj h
    obtain rfl := Except.ok.inj hconsumed
    obtain ⟨htaken, rfl⟩ := Journal.submit_commands_ok.1 hsubmit
    exact ⟨hhealthy, hhealthy', rfl, htaken, rfl⟩

/-- The rollback, once both locks have been taken. -/
theorem roll_back_eq {α : Type} {consumed : List CommandEnvelope} {e : SchedulerError}
    (hcommands : sch.pending_commands.poisoned = false) (hjournal : sch.journal.poisoned = false) :
    (sch.roll_back consumed e : SchedulerResult α × Scheduler Q J S)
      = (.error e, { sch.set_journal sch.journal.data.clear_pending.2 with
          pending_commands := sch.pending_commands.set (consumed ++ sch.pending_commands.data) }) := by
  have hqueue : consumed.reverse.foldl (fun queue cmd => cmd :: queue) sch.pending_commands.data
      = consumed ++ sch.pending_commands.data := by
    simp
  simp only [roll_back, rollback_consumed_commands, lock_healthy hcommands, lock_healthy hjournal,
    set_journal, hqueue]

/-- Taking the commands writes the queue and the pending commands, and nothing else. -/
theorem consume_writes (sch : Scheduler Q J S) : ∃ queue commands,
    sch.consume_pending_commands.2
      = { sch.set_journal { sch.journal.data with pending_commands := commands } with
          pending_commands := sch.pending_commands.set queue } := by
  unfold consume_pending_commands
  rcases hcommands : lock "commands" sch.pending_commands with e | drained
  · exact ⟨sch.pending_commands.data, _, rfl⟩
  rcases hjournal : lock "journal" sch.journal with e | journal
  · exact ⟨[], sch.journal.data.pending_commands, by simp only [hjournal]; rfl⟩
  obtain ⟨-, rfl⟩ := lock_ok hjournal
  obtain ⟨commands, hwrites⟩ := Journal.submit_commands_writes sch.journal.data drained
  refine ⟨[], commands, ?_⟩
  rcases hsubmit : sch.journal.data.submit_commands drained with ⟨e | ⟨⟩, journal⟩ <;>
    · rw [hsubmit] at hwrites
      obtain rfl : journal = _ := hwrites
      simp only [hjournal, hsubmit]
      rfl

/-! ## A failed tick -/

/-- What the rollback leaves: the queue as it was, and nothing pending in a journal that
accepts submissions. -/
structure RolledBack (sch sch' : Scheduler Q J S) : Prop where
  queue : sch'.pending_commands.data = sch.pending_commands.data
  cleared : sch.journal.data.phase = .Open →
    sch'.journal.data.pending_commands = [] ∧ sch'.journal.data.pending_diffs = []
  closed : sch.journal.data.phase ≠ .Open →
    sch'.journal.data.pending_commands = sch.journal.data.pending_commands
      ∧ sch'.journal.data.pending_diffs = sch.journal.data.pending_diffs

/-- What no failure before the commit touches. -/
structure SameClock (sch sch' : Scheduler Q J S) : Prop where
  current_tick : sch'.current_tick = sch.current_tick
  generation : sch'.generation = sch.generation
  history : sch'.journal.data.history = sch.journal.data.history

section Ticks

variable [Render] {ingestor : SnapshotIngestor Q} {saver : SaveJournal J}

omit [Render] in
/-- A rollback from a journal that has been filled since. -/
theorem rolled_back {α : Type} {consumed : List CommandEnvelope} {e e' : SchedulerError}
    {after : Scheduler Q J S} (hconsume : sch.consume_pending_commands = (.ok consumed, mid))
    (h : (after.roll_back consumed e : SchedulerResult α × Scheduler Q J S) = (.error e', sch'))
    (hqueue : after.pending_commands = mid.pending_commands)
    (hhealthy : after.journal.poisoned = false)
    (hclock : SameClock sch after)
    (hcleared : sch.journal.data.phase = .Open →
      after.journal.data.clear_pending.2.pending_commands = []
        ∧ after.journal.data.clear_pending.2.pending_diffs = [])
    (hclosed : sch.journal.data.phase ≠ .Open → after.journal.data = sch.journal.data) :
    SameClock sch sch' ∧ RolledBack sch sch' := by
  obtain ⟨hcommands, hjournal, rfl, -, rfl⟩ := consume_ok hconsume
  rw [roll_back_eq (by rw [hqueue]; exact hcommands) hhealthy] at h
  obtain ⟨-, rfl⟩ := Prod.mk.inj h
  have hhistory : after.journal.data.clear_pending.2.history = after.journal.data.history := by
    obtain ⟨commands, diffs, hwrites⟩ := Journal.clear_pending_writes after.journal.data
    rw [hwrites]
  refine ⟨⟨hclock.current_tick, hclock.generation, hhistory.trans hclock.history⟩, ?_, hcleared, ?_⟩
  · simp [hqueue]
  · intro hphase
    have hsame := hclosed hphase
    have hclear : after.journal.data.clear_pending.2 = sch.journal.data := by
      rw [hsame]
      simp [Journal.clear_pending, hphase]
    simp [set_journal, hclear]

/-- A commit that fails writes the journal and the engine it publishes to. -/
theorem atomic_commit_error {e : SchedulerError} (hjournal : sch.journal.poisoned = false)
    (h : sch.atomic_commit ingestor saver = (.error e, sch')) :
    ∃ e' j q, sch.journal.data.commit ingestor saver = (.error e', j)
      ∧ sch' = { sch.set_journal j with query_engine := q } := by
  unfold atomic_commit at h
  simp only [lock_healthy hjournal] at h
  rcases hcommit : sch.journal.data.commit ingestor saver with ⟨e' | result, j⟩
  · simp only [hcommit] at h
    exact ⟨e', j, _, rfl, (Prod.mk.inj h).2.symm⟩
  · simp only [hcommit] at h
    cases (Prod.mk.inj h).1

omit [Render] in
/-- What the systems leave when they run after the commands have been taken. -/
theorem run_after_consume {consumed : List CommandEnvelope} {run : Scheduler Q J S}
    (hconsume : sch.consume_pending_commands = (.ok consumed, mid)) (hran : Ran mid run) :
    run.pending_commands = mid.pending_commands ∧ run.journal.poisoned = false
      ∧ SameClock sch run ∧ run.journal.data.phase = sch.journal.data.phase
      ∧ (sch.journal.data.phase ≠ .Open → run.journal.data = sch.journal.data) := by
  obtain ⟨-, hjournal, -, htaken, rfl⟩ := consume_ok hconsume
  obtain ⟨kept, diffs, rfl, hdiffs⟩ := hran
  refine ⟨rfl, hjournal, ⟨rfl, rfl, rfl⟩, rfl, fun hclosed => ?_⟩
  -- a closed journal has refused every command, so there was none
  have hnone : consumed = [] :=
    List.eq_nil_iff_forall_not_mem.2 fun envelope hmem => hclosed (htaken envelope hmem).1
  rw [hdiffs hclosed]
  simp [set_journal, hnone]

/-- However a tick fails before its commit has succeeded, the tick, the generation and the
history are as before. If it fails after it has taken the queued commands, they are in the
queue again, and nothing is pending in the journal. -/
theorem tick_rolls_back {e : SchedulerError}
    (h : sch.tick_to_commit ingestor saver = (.error e, sch')) :
    sch.tick ingestor saver = (.error e, sch') ∧ SameClock sch sch'
      ∧ (sch.initialized = false → sch' = sch)
      ∧ (sch.initialized = true → ∀ consumed mid,
          sch.consume_pending_commands = (.ok consumed, mid) → RolledBack sch sch') := by
  refine ⟨by simp only [tick, h], ?_⟩
  unfold tick_to_commit at h
  rcases hinit : sch.initialized with _ | _
  · simp only [hinit, Bool.not_false, if_true] at h
    obtain ⟨-, rfl⟩ := Prod.mk.inj h
    exact ⟨⟨rfl, rfl, rfl⟩, fun _ => rfl, nofun⟩
  simp only [hinit, Bool.not_true, Bool.false_eq_true, if_false] at h
  rcases hconsume : sch.consume_pending_commands with ⟨e' | consumed, mid⟩
  · obtain ⟨queue, commands, hwrites⟩ := consume_writes sch
    simp only [hconsume] at h hwrites
    obtain ⟨-, rfl⟩ := Prod.mk.inj h
    rw [hwrites]
    exact ⟨⟨rfl, rfl, rfl⟩, nofun, fun _ _ _ hok => by simp at hok⟩
  simp only [hconsume] at h
  -- from here on the queued commands have been taken, and every way out puts them back
  suffices hrolled : SameClock sch sch' ∧ RolledBack sch sch' from
    ⟨hrolled.1, nofun, fun _ _ _ _ => hrolled.2⟩
  have hran := run_phases_ran mid mid.current_tick
  rcases hphases : mid.run_phases mid.current_tick with ⟨e' | ⟨⟩, run⟩
  · simp only [hphases] at h hran
    obtain ⟨hqueue, hhealthy, hclock, hfilled, hclosed⟩ := run_after_consume hconsume hran
    refine rolled_back hconsume h hqueue hhealthy hclock ?_ hclosed
    intro hopen
    simp [Journal.clear_pending, hfilled, hopen]
  · simp only [hphases] at h hran
    obtain ⟨hqueue, hhealthy, hclock, hfilled, hclosed⟩ := run_after_consume hconsume hran
    -- the phases went through: what is left to fail is the commit
    rcases hcommit : run.atomic_commit ingestor saver with ⟨e' | result, after⟩
    · simp only [hcommit] at h
      obtain ⟨e'', j, q, hrefused, rfl⟩ := atomic_commit_error hhealthy hcommit
      by_cases hopen : sch.journal.data.phase = .Open
      · obtain ⟨hhistory, -, hcommands, hdiffs⟩ :=
          Journal.clear_after_commit (hfilled.trans hopen) hrefused
        refine rolled_back hconsume h hqueue hhealthy ?_ (fun _ => ⟨hcommands, hdiffs⟩)
          (fun hphase => absurd hopen hphase)
        exact ⟨hclock.current_tick, hclock.generation, hhistory.trans hclock.history⟩
      · -- the journal was closed all along, and has refused the commit as it stands
        have hsame := hclosed hopen
        rw [hsame] at hrefused
        obtain rfl : sch.journal.data = j := by
          simpa [Journal.commit, hopen] using congrArg Prod.snd hrefused
        exact rolled_back hconsume h hqueue hhealthy
          ⟨hclock.current_tick, hclock.generation, rfl⟩ (fun hphase => absurd hphase hopen)
          (fun _ => rfl)
    · simp only [hcommit] at h
      cases (Prod.mk.inj h).1

end Ticks

/-! ## A system that fails at the commit -/

section Items

open Journal

attribute [local instance] plain_text QueryEngine.no_merge

/-- A system whose only diff names a table that is not there. -/
def misspelt : SimSystem QueryEngine Unit where
  id := "misspelt"
  phase := .Economy
  read_tables := []
  write_tables := ["items"]
  execute := fun kept _ _ _ _ => (.ok [set_qty "missing"], kept)

def clear_items : CommandEnvelope := ⟨0, "player", .DeleteRow "items" 1⟩

/-- A scheduler over the items, with one command queued. -/
def items_scheduler (diffs : List Diff) :
    Scheduler QueryEngine (List CommitRecord) Unit where
  systems := .new [("misspelt", misspelt)]
  registrations := .new [("misspelt", .from_system misspelt)]
  pending_commands := .new [clear_items]
  journal := .new (items_journal one_item diffs)
  query_engine := .new .new
  publishes := false
  refresh_bus := .new []
  current_tick := 0
  generation := 0
  initialized := true
  kept := ()

def items_tick (sch : Scheduler QueryEngine (List CommitRecord) Unit) :
    SchedulerResult CommitResult × Scheduler QueryEngine (List CommitRecord) Unit :=
  sch.tick QueryEngine.ingestor InMemorySaveJournal

/-- The tick fails in its commit, and the command is queued again. -/
theorem misspelt_rolls_back :
    RolledBack (items_scheduler []) (items_tick (items_scheduler [])).2 := by
  have herr : ((items_scheduler []).tick_to_commit QueryEngine.ingestor InMemorySaveJournal).1
      = .error (.Journal "arrow store error: apply_diffs: table not found: missing") := by
    decide +kernel
  have hconsume : ∃ consumed, (items_scheduler []).consume_pending_commands.1 = .ok consumed :=
    ⟨_, rfl⟩
  obtain ⟨consumed, hconsume⟩ := hconsume
  obtain ⟨htick, -, -, hrolled⟩ := @tick_rolls_back _ _ _ (items_scheduler []) _ _
    QueryEngine.ingestor InMemorySaveJournal _ (Prod.ext herr rfl)
  rw [items_tick, htick]
  exact hrolled rfl consumed _ (Prod.ext hconsume rfl)

/-- A diff handed in before the tick is not pending any more after it. -/
theorem pending_diff_cleared :
    let sch := items_scheduler [set_qty "items"]
    (items_tick sch).1
        = .error (.Journal "arrow store error: apply_diffs: table not found: missing")
      ∧ sch.journal.data.pending_diffs.length = 1
      ∧ (items_tick sch).2.journal.data.pending_diffs.length = 0 := by
  decide +kernel

end Items

end Scheduler

end Scharnhorst
