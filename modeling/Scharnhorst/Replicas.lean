/-
Two schedulers that never diverge.

Replicas have the same systems, each in the order of its own hash maps, and are given the same
commands. What they do not share is everything that a machine has to itself: the save journal, the
consumers, and what systems and callbacks keep. They go on from the same store, engine and queue, so
a tick that both of them commit gives both the same report, the same store and the same engine, and
a tick that both refuse leaves the same commands behind.
-/
import Scharnhorst.PhaseOrder
import Scharnhorst.Simulation

set_option autoImplicit false

namespace Scharnhorst

open Attempt

/-! ## Journals -/

namespace Journal

variable {Q J : Type} {j k j' k' : Journal Q J}

/-- What is left of submitted commands goes by the phase, the tick and the commands before. -/
theorem submit_commands_same (hphase : k.phase = j.phase) (htick : k.current_tick = j.current_tick)
    (hcommands : k.pending_commands = j.pending_commands) (envelopes : List CommandEnvelope) :
    (k.submit_commands envelopes).1 = (j.submit_commands envelopes).1 ∧ ∃ commands,
      (j.submit_commands envelopes).2 = { j with pending_commands := commands }
        ∧ (k.submit_commands envelopes).2 = { k with pending_commands := commands } := by
  obtain ⟨tick, phase, commands, diffs, history, sj, store, q⟩ := j
  obtain ⟨tick', phase', commands', diffs', history', sj', store', q'⟩ := k
  simp only at hphase htick hcommands
  subst hphase htick hcommands
  let R : Journal Q J → Journal Q J → Prop := fun a b => ∃ commands,
    a = ⟨tick', phase', commands, diffs, history, sj, store, q⟩
      ∧ b = ⟨tick', phase', commands, diffs', history', sj', store', q'⟩
  have hstep : ∀ a b envelope, envelope ∈ envelopes → R a b →
      (submit_command a envelope).1 = (submit_command b envelope).1
        ∧ R (submit_command a envelope).2 (submit_command b envelope).2 := by
    rintro _ _ envelope - ⟨commands, rfl, rfl⟩
    simp only [submit_command]
    split
    · exact ⟨rfl, commands, rfl, rfl⟩
    · split
      · exact ⟨rfl, commands, rfl, rfl⟩
      · exact ⟨rfl, commands ++ [envelope], rfl, rfl⟩
  obtain ⟨hverdict, commands, hj, hk⟩ := forEach_congr hstep ⟨commands', rfl, rfl⟩
  exact ⟨hverdict.symm, commands, hj, hk⟩

section Engine

variable {ingestor : SnapshotIngestor Q} {saver : SaveJournal J}

theorem begin_ingest_state (ingestor : SnapshotIngestor Q) (j : Journal Q J) :
    (j.begin_ingest ingestor).2
    = { j with query_engine := j.query_engine.map (fun q => (ingestor.begin_ingest q).2) } := by
  obtain ⟨tick, phase, commands, diffs, history, sj, store, q⟩ := j
  cases q <;> rfl

theorem publish_query_engine (ingestor : SnapshotIngestor Q) (j : Journal Q J) (tick : Tick) :
    (publish ingestor j tick).2.query_engine
      = j.query_engine.map fun q => (publish_snapshot ingestor j.arrow_store tick q).2 := by
  obtain ⟨_, phase, commands, diffs, history, sj, store, q⟩ := j
  cases q <;> rfl

/-- The engine that a delivery leaves goes by the store and the engine before. -/
theorem deliver_engine {tick : Tick} {saved : Map String Versions} {diffs : List Diff}
    {commands : List CommandEnvelope} {state_hash : UInt64} {result : CommitResult}
    (h : j.deliver ingestor saver tick saved diffs commands state_hash = (.ok result, j')) :
    j'.query_engine = j.query_engine.map fun q =>
      (publish_snapshot ingestor j.arrow_store tick (ingestor.begin_ingest q).2).2 := by
  unfold deliver at h
  have hbegun := begin_ingest_state ingestor j
  rcases hbegin : j.begin_ingest ingestor with ⟨e | rollback, j₁⟩
  · rw [hbegin] at h
    cases (Prod.mk.inj h).1
  rw [hbegin] at hbegun
  have hpublished := publish_query_engine ingestor j₁ tick
  rcases hpublish : publish ingestor j₁ tick with ⟨e | ⟨⟩, j₂⟩
  · simp only [hbegin, hpublish] at h
    cases (Prod.mk.inj h).1
  rw [hpublish] at hpublished
  rcases happend : j₂.append saver (.with_commands tick diffs commands state_hash)
    with ⟨e | ⟨⟩, j₃⟩
  · simp only [hbegin, hpublish, happend] at h
    cases (Prod.mk.inj h).1
  -- an append writes to the save journal only
  obtain ⟨sj, -, rfl⟩ := append_ok happend
  simp only [hbegin, hpublish, happend] at h
  obtain rfl : j₁ = _ := hbegun
  rw [← (Prod.mk.inj h).2]
  change j₂.query_engine = _
  rw [hpublished, Option.map_map]
  rfl

/-- Two commits that leave the same store leave the same engine. -/
theorem commit_same_engine [Render] (hsame : SameByTable j.pending_diffs k.pending_diffs)
    (htick : k.current_tick = j.current_tick) (hstore : k.arrow_store = j.arrow_store)
    (hengine : k.query_engine = j.query_engine) {result result' : CommitResult}
    (h : j.commit ingestor saver = (.ok result, j'))
    (h' : k.commit ingestor saver = (.ok result', k')) : k'.query_engine = j'.query_engine := by
  obtain ⟨saved, mid, s, snapshot, state_hash, hleft⟩ := commit_ok h
  obtain ⟨saved', mid', s', snapshot', state_hash', hright⟩ := commit_ok h'
  have hdiffs := hright.diffs
  rw [hstore, htick] at hdiffs
  obtain rfl := ArrowStore.apply_diffs_by_table hsame hleft.diffs hdiffs
  have hsnapshot := hright.snapshot
  rw [htick, hleft.snapshot] at hsnapshot
  obtain ⟨-, rfl⟩ := Prod.mk.inj hsnapshot
  rw [hleft.commit] at h
  rw [hright.commit] at h'
  rw [deliver_engine h, deliver_engine h', htick]
  exact congrArg _ hengine

end Engine

end Journal

/-! ## Schedulers -/

namespace Scheduler

variable {Q J S : Type} {sch sch' : Scheduler Q J S}
  {emits : String → DeterministicRng → Q → Phase → UInt64 → List Diff}

/-- Between two calls, with the same systems, over the same store, engine, tick and commands. -/
structure Replicas (emits : String → DeterministicRng → Q → Phase → UInt64 → List Diff)
    (sch sch' : Scheduler Q J S) : Prop where
  resting : sch.Resting ∧ sch'.Resting
  enrolled : sch.Enrolled ∧ sch'.Enrolled
  dutiful : sch.Dutiful emits
  systems : sch.systems.data.Perm sch'.systems.data
  registrations : sch.registrations.data.Perm sch'.registrations.data
  store : sch'.journal.data.arrow_store = sch.journal.data.arrow_store
  journal_tick : sch'.journal.data.current_tick = sch.journal.data.current_tick
  submitted : sch'.journal.data.pending_commands = sch.journal.data.pending_commands
  queue : sch'.pending_commands.data = sch.pending_commands.data
  published : sch'.journal.data.query_engine = sch.journal.data.query_engine
  publishes : sch'.publishes = sch.publishes
  query_engine : sch'.query_engine = sch.query_engine
  current_tick : sch'.current_tick = sch.current_tick
  initialized : sch'.initialized = sch.initialized

/-! ### What a tick commits -/

/-- The tick gets to its commit. -/
def TakesCommands (sch : Scheduler Q J S) : Prop :=
  sch.initialized = true
    ∧ ∀ envelope ∈ sch.pending_commands.data, envelope.tick = sch.journal.data.current_tick

/-- Systems that do not fail have their diffs committed, if the commands are taken. -/
theorem to_commit_dutiful (h : sch.Resting) (henrolled : sch.Enrolled)
    (hdutiful : sch.Dutiful emits) (htakes : sch.TakesCommands) : sch.to_commit
      = some (Phase.all_in_order.flatMap (sch.phase_diffs emits sch.current_tick)) := by
  obtain ⟨kept, hran⟩ := run_phases_ran_diffs henrolled hdutiful h.unpoisoned.journal h.phase
    sch.current_tick
  have hemits := run_phases_emits h.unpoisoned h.phase sch.current_tick
  rw [hran] at hemits
  obtain ⟨hverdict, hstate⟩ := Prod.mk.inj hemits
  have hdiffs : (sch.emissions sch.current_tick).2.1
      = Phase.all_in_order.flatMap (sch.phase_diffs emits sch.current_tick) := by
    have hpending := congrArg (fun k => k.journal.data.pending_diffs) hstate
    simpa only [ran, set_journal, RwLock.data_set, h.pending, List.nil_append] using hpending.symm
  have hready : sch.initialized = true
      ∧ ∀ envelope ∈ sch.pending_commands.data, envelope.tick = sch.journal.data.current_tick :=
    htakes
  unfold to_commit
  rw [if_pos hready]
  rcases hall : sch.emissions sch.current_tick with ⟨verdict, diffs, kept'⟩
  rw [hall] at hverdict hdiffs
  obtain rfl : Except.ok () = verdict := hverdict
  exact congrArg some hdiffs

theorem to_commit_none (h : ¬ sch.TakesCommands) : sch.to_commit = none := if_neg h

theorem Replicas.takes (h : Replicas emits sch sch') : sch'.TakesCommands ↔ sch.TakesCommands := by
  unfold TakesCommands
  rw [h.initialized, h.queue, h.journal_tick]

/-- One replica, with its maps in the order of the other's. -/
theorem Replicas.reordered (h : Replicas emits sch sch') : Reordered sch { sch with
    systems := sch.systems.set sch'.systems.data
    registrations := sch.registrations.set sch'.registrations.data } :=
  ⟨h.systems, h.registrations, rfl⟩

theorem Replicas.both_dutiful (h : Replicas emits sch sch') : sch'.Dutiful emits := by
  obtain ⟨hexecute, hdeclared⟩ := h.reordered.dutiful h.enrolled.1 h.dutiful
  exact ⟨hexecute, hdeclared⟩

/-- The diffs of both, each in its own order. -/
theorem Replicas.diffs (h : Replicas emits sch sch') (tick : UInt64) :
    SameByTable (Phase.all_in_order.flatMap (sch.phase_diffs emits tick))
      (Phase.all_in_order.flatMap (sch'.phase_diffs emits tick)) := by
  have hturned := run_diffs_same h.enrolled.1 h.dutiful h.reordered tick Phase.all_in_order
  have hphase : sch'.phase_diffs emits tick = phase_diffs { sch with
      systems := sch.systems.set sch'.systems.data
      registrations := sch.registrations.set sch'.registrations.data } emits tick := by
    funext phase
    unfold phase_diffs
    rw [h.query_engine]
    rfl
  rw [hphase]
  exact hturned

/-! ### Steps -/

/-- A command for both. -/
theorem Replicas.enqueued (h : Replicas emits sch sch') (envelope : CommandEnvelope) :
    Replicas emits (sch.enqueue_command envelope).2 (sch'.enqueue_command envelope).2 := by
  have hleft := h.resting.1.unpoisoned
  have hright := h.resting.2.unpoisoned
  have hqueue := congrArg (· ++ [envelope]) h.queue
  simp only [enqueue_command, lock_healthy hleft.queue, lock_healthy hright.queue]
  exact { h with
    resting := ⟨⟨⟨hleft.systems, hleft.registrations, hleft.queue, hleft.journal⟩,
      h.resting.1.phase, h.resting.1.pending⟩,
      ⟨⟨hright.systems, hright.registrations, hright.queue, hright.journal⟩,
        h.resting.2.phase, h.resting.2.pending⟩⟩
    enrolled := ⟨h.enrolled.1.congr rfl rfl, h.enrolled.2.congr rfl rfl⟩
    dutiful := ⟨h.dutiful.execute, h.dutiful.declared⟩
    queue := hqueue }

section Ticks

variable [Render] {ingestor : SnapshotIngestor Q} {saver : SaveJournal J}
  {mid mid' : Scheduler Q J S}

/-- A tick with commands that are not taken. -/
theorem tick_not_taken (h : sch.Resting) (hnot : ¬ sch.TakesCommands) :
    (sch.tick ingestor saver).2 =
      if sch.initialized then
        { sch.set_journal (sch.journal.data.submit_commands sch.pending_commands.data).2 with
          pending_commands := sch.pending_commands.set [] }
      else sch := by
  unfold tick tick_to_commit
  by_cases hinit : sch.initialized = true
  · rcases hsubmit : sch.journal.data.submit_commands sch.pending_commands.data
      with ⟨e | ⟨⟩, j⟩
    · simp only [hinit, Bool.not_true, Bool.false_eq_true, if_false, if_true,
        consume_pending_commands, lock_healthy h.unpoisoned.queue,
        lock_healthy h.unpoisoned.journal, hsubmit, set_journal]
    · obtain ⟨htaken, -⟩ := Journal.submit_commands_ok.1 hsubmit
      exact absurd ⟨hinit, fun envelope hmem => (htaken envelope hmem).2⟩ hnot
  · simp only [hinit]
    rfl

theorem Replicas.not_taken (h : Replicas emits sch sch') (hnot : ¬ sch.TakesCommands) :
    Replicas emits (sch.tick ingestor saver).2 (sch'.tick ingestor saver).2 := by
  have hnot' : ¬ sch'.TakesCommands := fun htakes => hnot (h.takes.1 htakes)
  rw [tick_not_taken h.resting.1 hnot, tick_not_taken h.resting.2 hnot', h.initialized]
  split
  · have hleft := h.resting.1.unpoisoned
    have hright := h.resting.2.unpoisoned
    have hphases : sch'.journal.data.phase = sch.journal.data.phase :=
      h.resting.2.phase.trans h.resting.1.phase.symm
    obtain ⟨-, commands, hj, hk⟩ := Journal.submit_commands_same hphases h.journal_tick h.submitted
      sch.pending_commands.data
    rw [h.queue, hj, hk]
    exact { h with
      resting := ⟨⟨⟨hleft.systems, hleft.registrations, hleft.queue, hleft.journal⟩,
        h.resting.1.phase, h.resting.1.pending⟩,
        ⟨⟨hright.systems, hright.registrations, hright.queue, hright.journal⟩,
          h.resting.2.phase, h.resting.2.pending⟩⟩
      enrolled := ⟨h.enrolled.1.congr rfl rfl, h.enrolled.2.congr rfl rfl⟩
      dutiful := ⟨h.dutiful.execute, h.dutiful.declared⟩
      submitted := rfl
      queue := rfl }
  · exact h

/-- A tick that both commit. -/
theorem Replicas.commits (h : Replicas emits sch sch') {result result' : CommitResult}
    (hok : sch.tick_to_commit ingestor saver = (.ok result, mid))
    (hok' : sch'.tick_to_commit ingestor saver = (.ok result', mid')) :
    result' = result ∧ Replicas emits (sch.tick ingestor saver).2 (sch'.tick ingestor saver).2 := by
  have htakes : sch.TakesCommands := by
    by_contra hnot
    obtain ⟨e, after, hcall, -⟩ := h.resting.1.call_returns ingestor saver (to_commit_none hnot)
    cases (Prod.mk.inj (hok.symm.trans hcall)).1
  have hdiffs := to_commit_dutiful h.resting.1 h.enrolled.1 h.dutiful htakes
  have hdiffs' := to_commit_dutiful h.resting.2 h.enrolled.2 h.both_dutiful (h.takes.2 htakes)
  rw [h.current_tick] at hdiffs'
  obtain ⟨j, kept, hcommit, rfl⟩ := h.resting.1.call_commits hdiffs hok
  obtain ⟨j', kept', hcommit', rfl⟩ := h.resting.2.call_commits hdiffs' hok'
  have hsame := h.diffs sch.current_tick
  have hcommands : sch'.journal.data.pending_commands ++ sch'.pending_commands.data
      = sch.journal.data.pending_commands ++ sch.pending_commands.data := by
    rw [h.submitted, h.queue]
  obtain ⟨rfl, hstore⟩ :=
    Journal.commit_same (by exact hsame) (by exact hcommands) (by exact h.journal_tick)
      (by exact h.store) hcommit hcommit'
  have hengine :=
    Journal.commit_same_engine (by exact hsame) (by exact h.journal_tick) (by exact h.store)
      (by exact h.published) hcommit hcommit'
  obtain ⟨-, -, -, -, hopen, hempty, hnext⟩ := Journal.commit_takes hcommit
  obtain ⟨-, -, -, -, hopen', hempty', hnext'⟩ := Journal.commit_takes hcommit'
  obtain ⟨last, hafter⟩ := tick_of_commit hok
  obtain ⟨last', hafter'⟩ := tick_of_commit hok'
  have hleft := h.resting.1.unpoisoned
  have hright := h.resting.2.unpoisoned
  rw [hafter, hafter']
  refine ⟨rfl, { h with
    resting := ⟨⟨⟨hleft.systems, hleft.registrations, hleft.queue, hleft.journal⟩, hopen,
      Journal.commit_empties hcommit⟩,
      ⟨⟨hright.systems, hright.registrations, hright.queue, hright.journal⟩, hopen',
        Journal.commit_empties hcommit'⟩⟩
    enrolled := ⟨h.enrolled.1.congr rfl rfl, h.enrolled.2.congr rfl rfl⟩
    dutiful := ⟨h.dutiful.execute, h.dutiful.declared⟩
    store := hstore
    journal_tick := ?_
    submitted := hempty'.trans hempty.symm
    queue := rfl
    published := hengine
    query_engine := ?_
    current_tick := ?_ }⟩
  · exact hnext'.trans ((congrArg Tick.next h.journal_tick).trans hnext.symm)
  · simp only [advance_tick, hengine, h.publishes, h.query_engine]
  · exact congrArg (· + 1) h.current_tick

/-! ### Runs -/

variable {start start' : Scheduler Q J S}

/-- The same calls for both: commands, and ticks. A tick either is one that the first replica has no
commands for, or is committed by both, and then both report. -/
inductive SideBySide (ingestor : SnapshotIngestor Q) (saver : SaveJournal J)
    (start start' : Scheduler Q J S) :
    Scheduler Q J S → Scheduler Q J S → List (CommitResult × CommitResult) → Prop
  | start : SideBySide ingestor saver start start' start start' []
  | enqueue {sch sch' : Scheduler Q J S} {reports : List (CommitResult × CommitResult)}
      (run : SideBySide ingestor saver start start' sch sch' reports) (envelope : CommandEnvelope) :
    SideBySide ingestor saver start start' (sch.enqueue_command envelope).2
      (sch'.enqueue_command envelope).2 reports
  | refused {sch sch' : Scheduler Q J S} {reports : List (CommitResult × CommitResult)}
      (run : SideBySide ingestor saver start start' sch sch' reports) (hnot : ¬ sch.TakesCommands) :
    SideBySide ingestor saver start start' (sch.tick ingestor saver).2 (sch'.tick ingestor saver).2
      reports
  | commits {sch sch' mid mid' : Scheduler Q J S} {reports : List (CommitResult × CommitResult)}
      {result result' : CommitResult}
      (run : SideBySide ingestor saver start start' sch sch' reports)
      (hok : sch.tick_to_commit ingestor saver = (.ok result, mid))
      (hok' : sch'.tick_to_commit ingestor saver = (.ok result', mid')) :
    SideBySide ingestor saver start start' (sch.tick ingestor saver).2 (sch'.tick ingestor saver).2
      (reports ++ [(result, result')])

theorem SideBySide.replicas {reports : List (CommitResult × CommitResult)}
    (hstart : Replicas emits start start')
    (run : SideBySide ingestor saver start start' sch sch' reports) :
    Replicas emits sch sch' ∧ ∀ report ∈ reports, report.2 = report.1 := by
  induction run with
  | start => exact ⟨hstart, nofun⟩
  | enqueue run envelope ih => exact ⟨ih.1.enqueued envelope, ih.2⟩
  | refused run hnot ih => exact ⟨ih.1.not_taken hnot, ih.2⟩
  | @commits sch sch' mid mid' reports result result' run hok hok' ih =>
      obtain ⟨hsame, hreplicas⟩ := ih.1.commits hok hok'
      refine ⟨hreplicas, fun report hmem => ?_⟩
      rcases List.mem_append.1 hmem with hbefore | hlast
      · exact ih.2 report hbefore
      · obtain rfl := List.mem_singleton.1 hlast
        exact hsame

/-- Two schedulers with the same systems, whose maps list them in different orders, that are given
the same calls: as long as both commit, each commit reports the same tick, counts and hash on both,
and after any number of calls they hold the same store, publish the same engine and take the same
commands. -/
theorem replicas_agree {reports : List (CommitResult × CommitResult)}
    (hstart : Replicas emits start start')
    (run : SideBySide ingestor saver start start' sch sch' reports) :
    (∀ report ∈ reports, report.2 = report.1)
      ∧ sch'.journal.data.arrow_store = sch.journal.data.arrow_store
      ∧ sch'.query_engine = sch.query_engine
      ∧ sch'.current_tick = sch.current_tick
      ∧ sch'.pending_commands.data = sch.pending_commands.data
      ∧ (sch'.TakesCommands ↔ sch.TakesCommands) := by
  obtain ⟨hreplicas, hreports⟩ := run.replicas hstart
  exact ⟨hreports, hreplicas.store, hreplicas.query_engine, hreplicas.current_tick, hreplicas.queue,
    hreplicas.takes⟩

end Ticks

/-! ### Two clerks -/

section Clerks

attribute [local instance] plain_text

/-- The two clerks, ready for their first tick. -/
def open_shop (sch : Scheduler Unit (List CommitRecord) Unit) :
    Scheduler Unit (List CommitRecord) Unit :=
  (sch.registration (fun _ => .ok true) .Initialize).2

def shop_tick (sch : Scheduler Unit (List CommitRecord) Unit) :
    Scheduler Unit (List CommitRecord) Unit :=
  (sch.tick absent InMemorySaveJournal).2

/-- For a tick that is still to come. -/
def early : CommandEnvelope := ⟨7, "client", .DeleteRow "items" 1⟩

/-- The ticks before and after the refused command commit. -/
theorem clerks_agree :
    let listed := shop_tick (shop_tick ((shop_tick (open_shop two_clerks)).enqueue_command early).2)
    let turned :=
      shop_tick (shop_tick ((shop_tick (open_shop two_clerks_turned)).enqueue_command early).2)
    turned.journal.data.arrow_store = listed.journal.data.arrow_store
      ∧ turned.current_tick = listed.current_tick ∧ listed.current_tick = 2 := by
  intro listed turned
  have hturned : Reordered (open_shop two_clerks) (open_shop two_clerks_turned) :=
    ⟨(List.reverse_perm _).symm, (List.reverse_perm _).symm, rfl⟩
  have run : Enrolling (fun _ => .ok true) (open_shop two_clerks) :=
    (((Enrolling.new _ _ _ _).call _).call _).call _
  have hstart : Replicas clerk_diffs (open_shop two_clerks) (open_shop two_clerks_turned) :=
    { resting := ⟨⟨⟨rfl, rfl, rfl, rfl⟩, rfl, rfl⟩, ⟨⟨rfl, rfl, rfl, rfl⟩, rfl, rfl⟩⟩
      enrolled := ⟨run.enrolled, hturned.enrolled run.enrolled⟩
      dutiful := ⟨two_clerks_dutiful.execute, two_clerks_dutiful.declared⟩
      systems := hturned.systems
      registrations := hturned.registrations
      store := rfl
      journal_tick := rfl
      submitted := rfl
      queue := rfl
      published := rfl
      publishes := rfl
      query_engine := rfl
      current_tick := rfl
      initialized := rfl }
  obtain ⟨r₁, s₁, h₁⟩ :=
    committed_of_isSome absent InMemorySaveJournal (open_shop two_clerks) (by decide +kernel)
  obtain ⟨r₂, s₂, h₂⟩ :=
    committed_of_isSome absent InMemorySaveJournal (open_shop two_clerks_turned) (by decide +kernel)
  obtain ⟨r₃, s₃, h₃⟩ := committed_of_isSome absent InMemorySaveJournal
    (shop_tick ((shop_tick (open_shop two_clerks)).enqueue_command early).2) (by decide +kernel)
  obtain ⟨r₄, s₄, h₄⟩ := committed_of_isSome absent InMemorySaveJournal
    (shop_tick ((shop_tick (open_shop two_clerks_turned)).enqueue_command early).2)
    (by decide +kernel)
  have hnot : ¬ ((shop_tick (open_shop two_clerks)).enqueue_command early).2.TakesCommands := by
    unfold TakesCommands
    decide +kernel
  obtain ⟨-, hstore, -, htick, -⟩ := replicas_agree hstart
    ((((SideBySide.start.commits h₁ h₂).enqueue early).refused hnot).commits h₃ h₄)
  exact ⟨hstore, htick, by decide +kernel⟩

end Clerks

end Scheduler

end Scharnhorst
