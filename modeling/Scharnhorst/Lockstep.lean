/-
The clocks of the scheduler and of its journal.

There are three of them: the scheduler's tick, the journal's tick and the generation. Each
is advanced in a place of its own, the journal's inside the commit, the generation after it
and the scheduler's tick last of all. Whatever fails, fails before the first of the three or
after the last, and so they count the same thing: the commits that went through.
-/
import Scharnhorst.Registration

set_option autoImplicit false

namespace Scharnhorst

open Attempt

/-- What a commit says of the record that it puts in the history. -/
def CommitRecord.result (record : CommitRecord) : CommitResult :=
  ⟨record.tick, record.diffs.length, record.commands.length, record.state_hash⟩

namespace Scheduler

variable {Q J S : Type} {sch sch' mid : Scheduler Q J S}

/-! ## What a call leaves where it was -/

/-- Neither a clock nor the history has moved. -/
structure Unmoved (sch sch' : Scheduler Q J S) : Prop where
  current_tick : sch'.current_tick = sch.current_tick
  generation : sch'.generation = sch.generation
  journal_tick : sch'.journal.data.current_tick = sch.journal.data.current_tick
  history : sch'.journal.data.history = sch.journal.data.history

theorem Unmoved.refl (sch : Scheduler Q J S) : Unmoved sch sch := ⟨rfl, rfl, rfl, rfl⟩

theorem Unmoved.trans {a b c : Scheduler Q J S} (hab : Unmoved a b) (hbc : Unmoved b c) :
    Unmoved a c :=
  ⟨hbc.current_tick.trans hab.current_tick, hbc.generation.trans hab.generation,
    hbc.journal_tick.trans hab.journal_tick, hbc.history.trans hab.history⟩

/-- The record of a commit is in the history, and the journal and the generation have moved
on. The scheduler's tick has not, yet. -/
structure Moved (sch sch' : Scheduler Q J S) (record : CommitRecord) : Prop where
  current_tick : sch'.current_tick = sch.current_tick
  generation : sch'.generation = sch.generation + 1
  journal_tick : sch'.journal.data.current_tick = sch.journal.data.current_tick.next
  history : sch'.journal.data.history = Journal.evict (sch.journal.data.history ++ [record])
  tick : record.tick = sch.journal.data.current_tick

theorem Unmoved.moved {record : CommitRecord} (h : Unmoved sch mid)
    (hmoved : Moved mid sch' record) : Moved sch sch' record where
  current_tick := hmoved.current_tick.trans h.current_tick
  generation := by rw [hmoved.generation, h.generation]
  journal_tick := by rw [hmoved.journal_tick, h.journal_tick]
  history := by rw [hmoved.history, h.history]
  tick := hmoved.tick.trans h.journal_tick

theorem consume_unmoved (sch : Scheduler Q J S) : Unmoved sch sch.consume_pending_commands.2 := by
  obtain ⟨queue, commands, hwrites⟩ := consume_writes sch
  rw [hwrites]
  exact ⟨rfl, rfl, rfl, rfl⟩

theorem Ran.unmoved (h : Ran sch sch') : Unmoved sch sch' := by
  obtain ⟨kept, diffs, rfl, -⟩ := h
  exact ⟨rfl, rfl, rfl, rfl⟩

/-- Clearing the journal and filling the queue again moves nothing, whichever of the two
locks is poisoned. -/
theorem rollback_consumed_unmoved (sch : Scheduler Q J S) (consumed : List CommandEnvelope) :
    Unmoved sch (sch.rollback_consumed_commands consumed).2 := by
  unfold rollback_consumed_commands
  rcases hlock : lock "journal" sch.journal with e | journal
  · dsimp only
    rcases lock "commands" sch.pending_commands with e | queue
    · exact .refl sch
    · exact ⟨rfl, rfl, rfl, rfl⟩
  · obtain ⟨-, rfl⟩ := lock_ok hlock
    obtain ⟨commands, diffs, hwrites⟩ := Journal.clear_pending_writes sch.journal.data
    dsimp only
    rw [hwrites]
    rcases lock "commands" _ with e | queue
    · exact ⟨rfl, rfl, rfl, rfl⟩
    · exact ⟨rfl, rfl, rfl, rfl⟩

theorem roll_back_unmoved {α : Type} (sch : Scheduler Q J S) (consumed : List CommandEnvelope)
    (e : SchedulerError) :
    Unmoved sch (sch.roll_back consumed e : SchedulerResult α × Scheduler Q J S).2 := by
  have hback := rollback_consumed_unmoved sch consumed
  unfold roll_back
  rcases hroll : sch.rollback_consumed_commands consumed with ⟨e' | ⟨⟩, after⟩
  · rw [hroll] at hback
    exact hback
  · rw [hroll] at hback
    exact hback

section Ticks

variable [Render] {ingestor : SnapshotIngestor Q} {saver : SaveJournal J}

/-! ## The commit of a call -/

variable (ingestor saver) in
/-- The commits that a call of `tick` has the journal make, with what the journal answers. -/
def journal_commits (sch : Scheduler Q J S) : List (JournalResult CommitResult) :=
  if !sch.initialized then []
  else
    match sch.consume_pending_commands with
    | (.error _, _) => []
    | (.ok _, sch) =>
      match sch.run_phases sch.current_tick with
      | (.error _, _) => []
      | (.ok (), sch) =>
        match lock "journal" sch.journal with
        | .error _ => []
        | .ok journal => [(journal.commit ingestor saver).1]

variable (ingestor saver) in
/-- Those that go through. -/
def commits (sch : Scheduler Q J S) : List CommitResult :=
  (sch.journal_commits ingestor saver).filterMap Except.toOption

/-- A commit moves the journal and then the generation, or neither. -/
theorem atomic_commit_moves (ingestor : SnapshotIngestor Q) (saver : SaveJournal J)
    (sch : Scheduler Q J S) :
    (∃ e, (sch.atomic_commit ingestor saver).1 = .error e
        ∧ Unmoved sch (sch.atomic_commit ingestor saver).2
        ∧ ∀ journal, lock "journal" sch.journal = .ok journal →
          ∃ e', (journal.commit ingestor saver).1 = .error e')
      ∨ ∃ record, (sch.atomic_commit ingestor saver).1 = .ok record.result
        ∧ Moved sch (sch.atomic_commit ingestor saver).2 record
        ∧ lock "journal" sch.journal = .ok sch.journal.data
        ∧ (sch.journal.data.commit ingestor saver).1 = .ok record.result := by
  unfold atomic_commit
  rcases hlock : lock "journal" sch.journal with e | journal
  · exact .inl ⟨e, rfl, .refl sch, fun journal h => by cases h⟩
  obtain ⟨-, rfl⟩ := lock_ok hlock
  simp only
  by_cases hopen : sch.journal.data.phase = .Open
  · have hending := Journal.commit_ending ingestor saver hopen
    rcases hcommit : sch.journal.data.commit ingestor saver with ⟨result, j⟩
    rw [hcommit] at hending
    -- the generation is counted up only when the journal has committed
    cases hending with
    | lost hpoisoned =>
        refine .inl ⟨_, rfl, ⟨rfl, rfl, rfl, rfl⟩, fun journal h => ?_⟩
        rw [← Except.ok.inj h, hcommit]
        exact ⟨_, rfl⟩
    | recovered hhealthy hrefused =>
        refine .inl ⟨_, rfl, ⟨rfl, rfl, rfl, rfl⟩, fun journal h => ?_⟩
        rw [← Except.ok.inj h, hcommit]
        exact ⟨_, rfl⟩
    | committed hhealthy htick hdiffs hcommands happended =>
        exact .inr ⟨_, rfl, ⟨rfl, rfl, rfl, rfl, htick⟩, trivial, rfl⟩
  -- a closed journal refuses, and stays as it is
  · have hcommit : sch.journal.data.commit ingestor saver
        = (.error (.CommitFailed "no open commit phase"), sch.journal.data) := by
      simp [Journal.commit, hopen]
    simp only [hcommit]
    refine .inl ⟨_, rfl, ⟨rfl, rfl, rfl, rfl⟩, fun journal h => ?_⟩
    rw [← Except.ok.inj h, hcommit]
    exact ⟨_, rfl⟩

/-- A tick that fails before its commit has succeeded commits nothing and moves nothing. One
that gets further has committed once. -/
theorem tick_to_commit_moves (ingestor : SnapshotIngestor Q) (saver : SaveJournal J)
    (sch : Scheduler Q J S) :
    (∃ e, (sch.tick_to_commit ingestor saver).1 = .error e ∧ sch.commits ingestor saver = []
        ∧ Unmoved sch (sch.tick_to_commit ingestor saver).2)
      ∨ ∃ record, (sch.tick_to_commit ingestor saver).1 = .ok record.result
        ∧ sch.commits ingestor saver = [record.result]
        ∧ Moved sch (sch.tick_to_commit ingestor saver).2 record := by
  unfold commits journal_commits tick_to_commit
  rcases hinit : sch.initialized with _ | _
  · exact .inl ⟨_, rfl, rfl, .refl sch⟩
  have hconsumed := sch.consume_unmoved
  rcases hconsume : sch.consume_pending_commands with ⟨e | consumed, mid⟩
  · rw [hconsume] at hconsumed
    exact .inl ⟨e, rfl, rfl, hconsumed⟩
  rw [hconsume] at hconsumed
  simp only [Bool.not_true, Bool.false_eq_true, if_false]
  have hran := (run_phases_ran mid mid.current_tick).unmoved
  rcases hphases : mid.run_phases mid.current_tick with ⟨e | ⟨⟩, run⟩
  · rw [hphases] at hran
    simp only
    -- a phase failed: the commands go back, and no commit was made
    have hback := hconsumed.trans (hran.trans
      (roll_back_unmoved (α := CommitResult) run consumed e))
    rcases hroll : (run.roll_back consumed e : SchedulerResult CommitResult × _) with
      ⟨e' | result, after⟩
    · rw [hroll] at hback
      exact .inl ⟨e', rfl, rfl, hback⟩
    · unfold roll_back at hroll
      split at hroll <;> cases hroll
  rw [hphases] at hran
  simp only
  obtain ⟨e, herror, hsame, hnone⟩ | ⟨record, hok, hmoved, hlock, hcommit⟩ :=
    atomic_commit_moves ingestor saver run
  -- the commit was refused, or failed and the journal has undone it
  · rcases hatomic : run.atomic_commit ingestor saver with ⟨result, after⟩
    rw [hatomic] at herror hsame
    obtain rfl : result = .error e := herror
    simp only
    have hback := hconsumed.trans (hran.trans (hsame.trans
      (roll_back_unmoved (α := CommitResult) after consumed e)))
    have hempty : (match lock "journal" run.journal with
        | .error _ => []
        | .ok journal => [(journal.commit ingestor saver).1]).filterMap Except.toOption = [] := by
      rcases hlock : lock "journal" run.journal with e' | journal
      · rfl
      · obtain ⟨e', hrefused⟩ := hnone journal hlock
        simp [hrefused, Except.toOption]
    rcases hroll : (after.roll_back consumed e : SchedulerResult CommitResult × _) with
      ⟨e' | result, back⟩
    · rw [hroll] at hback
      exact .inl ⟨e', rfl, hempty, hback⟩
    · unfold roll_back at hroll
      split at hroll <;> cases hroll
  -- the commit went through, and what follows it cannot take it back
  · rcases hatomic : run.atomic_commit ingestor saver with ⟨result, after⟩
    rw [hatomic] at hok hmoved
    obtain rfl : result = .ok record.result := hok
    refine .inr ⟨record, rfl, ?_, hconsumed.moved (hran.moved hmoved)⟩
    simp [hlock, hcommit, Except.toOption]

/-! ## Runs -/

/-- Between two ticks other calls may be made, of the scheduler, of its journal and of the
engine, as long as they do not commit and leave the clocks alone: systems and consumers come
and go, commands are queued, the scheduler is initialized, a lock is poisoned. -/
inductive Ticking (ingestor : SnapshotIngestor Q) (saver : SaveJournal J) :
    Scheduler Q J S → List CommitResult → Prop
  | new (arrow_store : ArrowStore) (save_journal : Option J) (published : Option Q)
      (query_engine : Q) (publishes : Bool) (kept : S) :
    Ticking ingestor saver
      (.new { (Journal.new arrow_store : Journal Q J) with save_journal, query_engine := published }
        query_engine publishes kept) []
  | between {sch sch' : Scheduler Q J S} {done : List CommitResult}
      (run : Ticking ingestor saver sch done) (h : Unmoved sch sch') :
    Ticking ingestor saver sch' done
  | tick {sch : Scheduler Q J S} {done : List CommitResult}
      (run : Ticking ingestor saver sch done)
      (below : sch.journal.data.current_tick < Tick.MAX) :
    Ticking ingestor saver (sch.tick ingestor saver).2 (done ++ sch.commits ingestor saver)

/-- All three clocks count the commits. -/
structure InLockstep (sch : Scheduler Q J S) (done : List CommitResult) : Prop where
  current_tick : sch.current_tick.toNat = done.length
  journal_tick : sch.journal.data.current_tick = done.length
  generation : sch.generation.toNat = done.length
  /-- Each tick is committed once, in order. -/
  ticks : done.map CommitResult.tick = List.range done.length

/-- What a call of `tick` commits is one record at most, and this record is what the history
gets. -/
structure CommitsOnce (ingestor : SnapshotIngestor Q) (saver : SaveJournal J)
    (sch : Scheduler Q J S) : Prop where
  once : (sch.commits ingestor saver).length ≤ 1
  history : ∃ records : List CommitRecord,
    records.map CommitRecord.result = sch.commits ingestor saver
      ∧ (sch.tick ingestor saver).2.journal.data.history
        = Journal.evict (sch.journal.data.history ++ records)

/-- One call: nothing, or everything. -/
theorem tick_moves (ingestor : SnapshotIngestor Q) (saver : SaveJournal J)
    (sch : Scheduler Q J S) :
    (sch.commits ingestor saver = [] ∧ Unmoved sch (sch.tick ingestor saver).2)
      ∨ ∃ record mid, sch.commits ingestor saver = [record.result] ∧ Moved sch mid record
        ∧ Unmoved mid.advance_tick (sch.tick ingestor saver).2 := by
  obtain ⟨e, herror, hnone, hsame⟩ | ⟨record, hok, hone, hmoved⟩ :=
    tick_to_commit_moves ingestor saver sch
  · rcases hcall : sch.tick_to_commit ingestor saver with ⟨result, after⟩
    rw [hcall] at herror hsame
    obtain rfl : result = .error e := herror
    refine .inl ⟨hnone, ?_⟩
    simp only [tick, hcall]
    exact hsame
  · rcases hcall : sch.tick_to_commit ingestor saver with ⟨result, mid⟩
    rw [hcall] at hok hmoved
    obtain rfl : result = .ok record.result := hok
    refine .inr ⟨record, mid, hone, hmoved, ?_⟩
    rw [tick_broadcasts hcall]
    exact ⟨rfl, rfl, rfl, rfl⟩

theorem commits_once (hfull : Journal.evict sch.journal.data.history = sch.journal.data.history) :
    CommitsOnce ingestor saver sch := by
  obtain ⟨hnone, hsame⟩ | ⟨record, mid, hone, hmoved, hsame⟩ := tick_moves ingestor saver sch
  · refine ⟨?_, [], ?_, ?_⟩
    · rw [hnone]
      exact Nat.zero_le _
    · rw [hnone]
      rfl
    · rw [hsame.history, List.append_nil, hfull]
  · refine ⟨?_, [record], ?_, ?_⟩
    · rw [hone]
      exact Nat.le_refl _
    · rw [hone]
      rfl
    · rw [hsame.history]
      exact hmoved.history

omit [Render] in
theorem evict_evict (records : List CommitRecord) :
    Journal.evict (Journal.evict records) = Journal.evict records := by
  have hshort : (Journal.evict records).length - MAX_COMMIT_HISTORY = 0 := by
    rw [Journal.evict_eq_drop, List.length_drop]
    omega
  rw [Journal.evict_eq_drop (Journal.evict records), hshort, List.drop_zero]

omit [Render] in
theorem toNat_succ {clock : UInt64} {n : Nat} (h : clock.toNat = n) (hn : n < Tick.MAX) :
    (clock + 1).toNat = n + 1 := by
  have hbelow : n + 1 < 2 ^ 64 := by
    unfold Tick.MAX u64_MAX at hn
    omega
  rw [UInt64.toNat_add, h]
  exact Nat.mod_eq_of_lt hbelow

omit [Render] in
theorem InLockstep.unmoved {done : List CommitResult} (h : InLockstep sch done)
    (hsame : Unmoved sch sch') : InLockstep sch' done where
  current_tick := by rw [hsame.current_tick, h.current_tick]
  journal_tick := hsame.journal_tick.trans h.journal_tick
  generation := by rw [hsame.generation, h.generation]
  ticks := h.ticks

omit [Render] in
/-- The commit moves two of the clocks, and `advance_tick` the third. -/
theorem InLockstep.moved {done : List CommitResult} {record : CommitRecord}
    (h : InLockstep sch done) (below : sch.journal.data.current_tick < Tick.MAX)
    (hmoved : Moved sch mid record) : InLockstep mid.advance_tick (done ++ [record.result]) := by
  have hbelow : done.length < Tick.MAX := by
    rw [← h.journal_tick]
    exact below
  refine ⟨?_, ?_, ?_, ?_⟩
  · rw [List.length_append, List.length_singleton]
    refine toNat_succ ?_ hbelow
    rw [hmoved.current_tick, h.current_tick]
  · have hnext : mid.journal.data.current_tick = done.length + 1 := by
      rw [hmoved.journal_tick, Tick.next_of_lt below, h.journal_tick]
    rw [List.length_append, List.length_singleton]
    exact hnext
  · have hgeneration : mid.generation = sch.generation + 1 := hmoved.generation
    rw [List.length_append, List.length_singleton]
    show mid.generation.toNat = done.length + 1
    rw [hgeneration]
    exact toNat_succ h.generation hbelow
  · have htick : record.tick = done.length := hmoved.tick.trans h.journal_tick
    rw [List.map_append, h.ticks, List.length_append, List.length_singleton, List.range_succ]
    simp only [List.map_cons, List.map_nil, CommitRecord.result, htick]

theorem Ticking.invariant {done : List CommitResult} (run : Ticking ingestor saver sch done) :
    InLockstep sch done
      ∧ Journal.evict sch.journal.data.history = sch.journal.data.history := by
  induction run with
  | new arrow_store save_journal published query_engine publishes kept =>
      exact ⟨⟨rfl, rfl, rfl, rfl⟩, rfl⟩
  | between run hsame ih =>
      refine ⟨ih.1.unmoved hsame, ?_⟩
      rw [hsame.history]
      exact ih.2
  | @tick sch done run below ih =>
      obtain ⟨hnone, hsame⟩ | ⟨record, mid, hone, hmoved, hsame⟩ :=
        tick_moves ingestor saver sch
      · rw [hnone, List.append_nil]
        refine ⟨ih.1.unmoved hsame, ?_⟩
        rw [hsame.history]
        exact ih.2
      · rw [hone]
        refine ⟨(ih.1.moved below hmoved).unmoved hsame, ?_⟩
        have hhistory : (sch.tick ingestor saver).2.journal.data.history
            = Journal.evict (sch.journal.data.history ++ [record]) :=
          hsame.history.trans hmoved.history
        rw [hhistory, evict_evict]

/-- After any run of ticks the scheduler's tick, the journal's tick and the generation are
the number of commits that went through, and the next call commits once at most. -/
theorem ticking_in_lockstep {done : List CommitResult}
    (run : Ticking ingestor saver sch done) :
    InLockstep sch done ∧ CommitsOnce ingestor saver sch :=
  ⟨run.invariant.1, commits_once run.invariant.2⟩

end Ticks

/-! ## A commit, and then an error -/

section Bridge

attribute [local instance] plain_text QueryEngine.no_merge

/-- A scheduler over the items, whose only consumer never acknowledges. -/
def unheard : Scheduler QueryEngine (List CommitRecord) Unit :=
  { Scheduler.new (.new one_item) (.new .new) false () with
    refresh_bus := .new [("bridge", refuse)]
    initialized := true }

/-- The call returns the bridge's error, and the commit counts. -/
theorem unheard_in_lockstep :
    let called := unheard.tick QueryEngine.ingestor InMemorySaveJournal
    called.1 = .error (.RefreshSignalFailed "bridge" (.Generic "stale"))
      ∧ ∃ done, done.length = 1 ∧ InLockstep called.2 done
        ∧ CommitsOnce QueryEngine.ingestor InMemorySaveJournal called.2 := by
  have run : Ticking QueryEngine.ingestor InMemorySaveJournal unheard [] :=
    (Ticking.new one_item none none (.new .new) false ()).between ⟨rfl, rfl, rfl, rfl⟩
  exact ⟨by decide +kernel, _, by decide +kernel, ticking_in_lockstep (run.tick (by decide))⟩

end Bridge

end Scheduler

end Scharnhorst
