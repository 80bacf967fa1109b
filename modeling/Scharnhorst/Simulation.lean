/-
Whole ticks, and the world that they compute.

A tick is taken apart twice. The systems run away from the journal first: what they hand in is a
list of diffs, and a system that fails hands in nothing more. The scheduler does the same with a
journal in between, so a call of `tick` either stops before its commit, and the world is as it was,
or commits this list.

A commit that is reached and fails is not in these runs: what is left of it is another matter.
-/
import Scharnhorst.Driver
import Scharnhorst.PhaseOrder
import Scharnhorst.Publication
import Scharnhorst.Served
import Scharnhorst.Visible

set_option autoImplicit false

namespace Scharnhorst

open Attempt

namespace Scheduler

variable {Q J S : Type} {sch sch' : Scheduler Q J S}

/-! ## What the systems of a tick hand in -/

/-- One system, away from the journal. -/
def emit_system (phase : Phase) (tick : UInt64) (systems : List (String × SimSystem Q S))
    (query_engine : Q) (handed : List Diff × S) (id : String) :
    SchedulerResult Unit × (List Diff × S) :=
  match systems.lookup id with
  | none => (.error (.SystemNotFound id), handed)
  | some system =>
    match system.execute handed.2 (.new id tick) query_engine phase tick with
    | (.error e, kept) => (.error e, handed.1, kept)
    | (.ok diffs, kept) => (.ok (), handed.1 ++ diffs, kept)

def emit_phase (sch : Scheduler Q J S) (tick : UInt64) (handed : List Diff × S)
    (entry : Phase × List String) : SchedulerResult Unit × (List Diff × S) :=
  forEach (emit_system entry.1 tick sch.systems.data sch.query_engine) handed entry.2

/-- The diffs of all the systems in the order of the phases, and what the systems keep then. -/
def emissions (sch : Scheduler Q J S) (tick : UInt64) :
    SchedulerResult Unit × (List Diff × S) :=
  forEach (sch.emit_phase tick) ([], sch.kept) (sch.listed_phases Phase.all_in_order)

/-- The diffs that a call of `tick` has the journal commit, if it gets that far. -/
def to_commit (sch : Scheduler Q J S) : Option (List Diff) :=
  if sch.initialized
      ∧ ∀ envelope ∈ sch.pending_commands.data, envelope.tick = sch.journal.data.current_tick then
    match sch.emissions sch.current_tick with
    | (.ok (), diffs, _) => some diffs
    | (.error _, _) => none
  else none

/-! ## The systems, with a journal -/

/-- The locks of a scheduler that no panic has poisoned. -/
structure Unpoisoned (sch : Scheduler Q J S) : Prop where
  systems : sch.systems.poisoned = false
  registrations : sch.registrations.poisoned = false
  queue : sch.pending_commands.poisoned = false
  journal : sch.journal.poisoned = false

theorem run_system_emits (hjournal : sch.journal.poisoned = false)
    (hopen : sch.journal.data.phase = .Open) (phase : Phase) (tick : UInt64) (id : String)
    (handed : List Diff × S) :
    let emitted := emit_system phase tick sch.systems.data sch.query_engine handed id
    run_system phase tick sch.systems.data (sch.ran handed.1 handed.2) id
      = (emitted.1, sch.ran emitted.2.1 emitted.2.2) := by
  intro emitted
  rcases hsystem : sch.systems.data.lookup id with _ | system
  · simp only [emitted, run_system, emit_system, hsystem]
  rcases hexecute : system.execute handed.2 (.new id tick) sch.query_engine phase tick
    with ⟨e | diffs, kept⟩
  all_goals
    have hrun : system.execute (sch.ran handed.1 handed.2).kept (.new id tick)
        (sch.ran handed.1 handed.2).query_engine phase tick = _ := hexecute
  · simp only [emitted, run_system, emit_system, hsystem, hrun, hexecute]
    rfl
  · have hlock : lock "journal" (sch.ran handed.1 handed.2).journal
        = .ok { sch.journal.data with
            pending_diffs := sch.journal.data.pending_diffs ++ handed.1 } := lock_healthy hjournal
    have hbatch := Journal.submit_batch_open
      (j := { sch.journal.data with pending_diffs := sch.journal.data.pending_diffs ++ handed.1 })
      hopen diffs
    simp only [emitted, run_system, emit_system, hsystem, hrun, hexecute, hlock, hbatch]
    simp [ran, set_journal, RwLock.set]

/-- Running the phases is handing in what the systems emit, up to the first that fails. -/
theorem run_phases_emits (h : sch.Unpoisoned) (hopen : sch.journal.data.phase = .Open)
    (tick : UInt64) : sch.run_phases tick
      = ((sch.emissions tick).1, sch.ran (sch.emissions tick).2.1 (sch.emissions tick).2.2) := by
  let R : Scheduler Q J S → List Diff × S → Prop := fun k handed => k = sch.ran handed.1 handed.2
  have hphase : ∀ k handed entry, R k handed →
      (run_phase tick k entry).1 = (sch.emit_phase tick handed entry).1
        ∧ R (run_phase tick k entry).2 (sch.emit_phase tick handed entry).2 := by
    rintro k handed entry rfl
    have hlock : lock "systems" (sch.ran handed.1 handed.2).systems = .ok sch.systems.data :=
      lock_healthy h.systems
    simp only [run_phase, hlock]
    refine forEach_congr (R := R) ?_ rfl
    rintro k' handed' id - rfl
    have hone := run_system_emits h.journal hopen entry.1 tick id handed'
    exact ⟨congrArg Prod.fst hone, congrArg Prod.snd hone⟩
  have hstart : R sch ([], sch.kept) := by
    simp [R, ran, set_journal, RwLock.set]
  have hall := forEach_congr
    (fun k handed entry (_ : entry ∈ sch.listed_phases Phase.all_in_order) hR =>
      hphase k handed entry hR) hstart
  simp only [run_phases, systems_by_phase, lock_healthy h.registrations, Except.map]
  exact Prod.ext hall.1 hall.2

/-! ## One call -/

/-- A scheduler between two calls. -/
structure Resting (sch : Scheduler Q J S) : Prop where
  unpoisoned : sch.Unpoisoned
  phase : sch.journal.data.phase = .Open
  pending : sch.journal.data.pending_diffs = []

/-- And over a store that holds a world. -/
structure Idle (cat : Catalog) (count : Nat) (sch : Scheduler Q J S) (w : World) : Prop where
  unpoisoned : sch.Unpoisoned
  between : sch.journal.data.Between cat count w

/-- The queue, the pending commands and what the systems keep are written, and nothing else. -/
def Returned (sch sch' : Scheduler Q J S) : Prop :=
  ∃ queue commands kept, sch' = { sch.set_journal { sch.journal.data with
      pending_commands := commands, pending_diffs := [] } with
    pending_commands := sch.pending_commands.set queue, kept }

variable {cat : Catalog} {count : Nat} {w : World}

theorem Idle.resting (h : sch.Idle cat count w) : sch.Resting :=
  ⟨h.unpoisoned, h.between.phase, h.between.pending⟩

theorem Idle.returned (h : sch.Idle cat count w) (hreturned : Returned sch sch') :
    sch'.Idle cat count w := by
  obtain ⟨queue, commands, kept, rfl⟩ := hreturned
  obtain ⟨hsystems, hregistrations, hqueue, hjournal⟩ := h.unpoisoned
  exact ⟨⟨hsystems, hregistrations, hqueue, hjournal⟩, h.between.phase, rfl,
    h.between.current_tick, h.between.shaped, h.between.holds⟩

/-- With the commands taken, the systems hand in what they would have before. -/
theorem Resting.run_consumed {consumed : List CommandEnvelope} {mid : Scheduler Q J S}
    (h : sch.Resting) (hconsume : sch.consume_pending_commands = (.ok consumed, mid)) :
    mid.Unpoisoned ∧ mid.run_phases mid.current_tick
      = ((sch.emissions sch.current_tick).1,
        mid.ran (sch.emissions sch.current_tick).2.1 (sch.emissions sch.current_tick).2.2) := by
  obtain ⟨-, -, -, -, rfl⟩ := consume_ok hconsume
  obtain ⟨hsystems, hregistrations, hqueue, hjournal⟩ := h.unpoisoned
  have hunpoisoned : Unpoisoned
      { sch.set_journal { sch.journal.data with
          pending_commands := sch.journal.data.pending_commands ++ consumed } with
        pending_commands := sch.pending_commands.set [] } :=
    ⟨hsystems, hregistrations, hqueue, hjournal⟩
  exact ⟨hunpoisoned, run_phases_emits hunpoisoned h.phase sch.current_tick⟩

section Calls

variable [Render] {ingestor : SnapshotIngestor Q} {saver : SaveJournal J}

variable (ingestor saver) in
/-- A call with nothing to commit. -/
theorem Resting.call_returns (h : sch.Resting) (hnone : sch.to_commit = none) :
    ∃ e sch', sch.tick_to_commit ingestor saver = (.error e, sch') ∧ Returned sch sch' := by
  have hopen := h.phase
  have hpending := h.pending
  unfold tick_to_commit
  by_cases hinit : sch.initialized
  · rcases hconsume : sch.consume_pending_commands with ⟨e | consumed, mid⟩
    · -- a command of another tick: the queue is drained all the same
      obtain ⟨queue, commands, hwrites⟩ := consume_writes sch
      rw [hconsume] at hwrites
      simp only [hinit, Bool.not_true, Bool.false_eq_true, if_false]
      have hjournal : { sch.journal.data with pending_commands := commands }
          = { sch.journal.data with pending_commands := commands, pending_diffs := [] } := by
        rw [← hpending]
      refine ⟨e, mid, rfl, queue, commands, sch.kept, ?_⟩
      rw [← hjournal]
      exact hwrites
    · obtain ⟨hunpoisoned, hrun⟩ := h.run_consumed hconsume
      obtain ⟨-, -, rfl, htaken, hmid⟩ := consume_ok hconsume
      have hall : ∀ envelope ∈ sch.pending_commands.data,
          envelope.tick = sch.journal.data.current_tick :=
        fun envelope hmem => (htaken envelope hmem).2
      unfold to_commit at hnone
      rw [if_pos ⟨hinit, hall⟩] at hnone
      -- the commands are taken, so it is a system that fails
      rcases hemit : sch.emissions sch.current_tick with ⟨e | ⟨⟩, diffs, kept⟩
      · rw [hemit] at hrun
        simp only [hinit, Bool.not_true, Bool.false_eq_true, if_false, hrun]
        have hback : (mid.ran diffs kept).roll_back sch.pending_commands.data e
            = ((.error e : SchedulerResult CommitResult), _) :=
          roll_back_eq hunpoisoned.queue hunpoisoned.journal
        rw [hback]
        refine ⟨e, _, rfl, sch.pending_commands.data, [], kept, ?_⟩
        simp [hmid, ran, set_journal, RwLock.set, Journal.clear_pending, hopen]
      · rw [hemit] at hnone
        cases hnone
  · simp only [hinit, Bool.not_false, if_true]
    refine ⟨_, _, rfl, sch.pending_commands.data, sch.journal.data.pending_commands, sch.kept, ?_⟩
    rw [← hpending]
    rfl

variable (ingestor saver) in
theorem committed_of_isSome (sch : Scheduler Q J S)
    (h : (sch.tick_to_commit ingestor saver).1.toOption.isSome = true) :
    ∃ result sch', sch.tick_to_commit ingestor saver = (.ok result, sch') := by
  obtain ⟨result, hresult⟩ := ok_of_isSome h
  exact ⟨result, _, eq_of_verdict hresult⟩

/-- The engine that the systems read is the one that the commit has published to, if the scheduler
knows it as such. -/
theorem atomic_commit_publishes {result : CommitResult}
    (h : sch.atomic_commit ingestor saver = (.ok result, sch')) :
    ∃ j, sch.journal.data.commit ingestor saver = (.ok result, j)
      ∧ sch' = { sch.set_journal j with
          query_engine :=
            if sch.publishes then j.query_engine.getD sch.query_engine else sch.query_engine
          generation := sch.generation + 1 } := by
  unfold atomic_commit at h
  rcases hlock : lock "journal" sch.journal with e | journal
  · rw [hlock] at h
    cases (Prod.mk.inj h).1
  obtain ⟨-, rfl⟩ := lock_ok hlock
  rcases hcommit : sch.journal.data.commit ingestor saver with ⟨e | result', j⟩
  · simp only [hlock, hcommit] at h
    cases (Prod.mk.inj h).1
  · simp only [hlock, hcommit] at h
    obtain ⟨hresult, rfl⟩ := Prod.mk.inj h
    rw [Except.ok.inj hresult]
    exact ⟨j, rfl, rfl⟩

/-- A call that gets to its commit commits what the systems have handed in. -/
theorem Resting.call_commits {diffs : List Diff} {result : CommitResult}
    (h : sch.Resting) (hdiffs : sch.to_commit = some diffs)
    (hok : sch.tick_to_commit ingestor saver = (.ok result, sch')) : ∃ j kept,
      { sch.journal.data with
          pending_commands := sch.journal.data.pending_commands ++ sch.pending_commands.data
          pending_diffs := diffs }.commit ingestor saver = (.ok result, j)
        ∧ sch' = { sch.set_journal j with
            pending_commands := sch.pending_commands.set []
            query_engine :=
              if sch.publishes then j.query_engine.getD sch.query_engine else sch.query_engine
            generation := sch.generation + 1
            kept } := by
  unfold to_commit at hdiffs
  split at hdiffs
  · rename_i hready
    obtain ⟨hinit, hall⟩ := hready
    rcases hemit : sch.emissions sch.current_tick with ⟨e | ⟨⟩, emitted, kept⟩
    · rw [hemit] at hdiffs
      cases hdiffs
    rw [hemit] at hdiffs
    obtain rfl := Option.some.inj hdiffs
    obtain ⟨mid, hconsume⟩ := consume_taken h.unpoisoned.queue h.unpoisoned.journal
      h.phase hall
    obtain ⟨-, -, -, -, hmid⟩ := consume_ok hconsume
    have hrun := (h.run_consumed hconsume).2
    rw [hemit] at hrun
    have hatomic : (mid.ran emitted kept).atomic_commit ingestor saver = (.ok result, sch') := by
      unfold tick_to_commit at hok
      simp only [hinit, Bool.not_true, Bool.false_eq_true, if_false, hconsume, hrun] at hok
      rcases hcommit : (mid.ran emitted kept).atomic_commit ingestor saver with ⟨e | r, after⟩
      · rw [hcommit] at hok
        exact absurd hok roll_back_ne_ok
      · rw [hcommit] at hok
        exact hok
    obtain ⟨j, hcommit, rfl⟩ := atomic_commit_publishes hatomic
    -- nothing was pending, so the systems' diffs are all that is
    have hjournal : (mid.ran emitted kept).journal.data
        = { sch.journal.data with
            pending_commands := sch.journal.data.pending_commands ++ sch.pending_commands.data
            pending_diffs := emitted } := by
      simp [hmid, ran, set_journal, h.pending]
    rw [hjournal] at hcommit
    refine ⟨j, kept, hcommit, ?_⟩
    simp [hmid, ran, set_journal, RwLock.set]
  · cases hdiffs

end Calls

end Scheduler

/-! ## The world -/

namespace Journal

variable [Render] {Q J : Type} {ingestor : SnapshotIngestor Q} {saver : SaveJournal J}
  {j j' : Journal Q J}

theorem commit_empties {result : CommitResult}
    (h : j.commit ingestor saver = (.ok result, j')) : j'.pending_diffs = [] := by
  obtain ⟨saved, mid, s, snapshot, state_hash, happlies⟩ := commit_ok h
  rw [happlies.commit] at h
  obtain ⟨-, q, sj, rfl⟩ := deliver_ok h
  rfl

/-- A commit in which every insert is given a free batch index. -/
theorem Between.commit {cat : Catalog} {count : Nat} {w : World} {diffs : List Diff}
    {commands : List CommandEnvelope} {result : CommitResult} (h : Between cat count j w)
    (hfresh : FreshCommit j.arrow_store (j.current_tick, diffs))
    (hcommit : { j with pending_commands := commands, pending_diffs := diffs }.commit ingestor
      saver = (.ok result, j')) :
    Between cat (count + 1) j' (diffs.foldl (world_step cat) w) := by
  obtain ⟨saved, mid, s, snapshot, state_hash, happlies⟩ := commit_ok hcommit
  rw [happlies.commit] at hcommit
  obtain ⟨-, q, sj, rfl⟩ := deliver_ok hcommit
  obtain ⟨-, hdo⟩ := ArrowStore.generate_snapshot_ok.1 happlies.snapshot
  obtain ⟨-, -, rfl⟩ := ArrowStore.do_generate_snapshot_ok hdo
  have happlied : apply_commit j.arrow_store (j.current_tick, diffs) = (.ok (), mid) :=
    happlies.diffs
  obtain ⟨hshape, hholds⟩ := h.holds.apply_commit h.shaped (Nat.le_refl _) hfresh happlied
  have hle : j.current_tick ≤ j.current_tick.next := by
    refine Tick.le_next ?_
    rw [h.current_tick]
    exact Nat.min_le_right _ _
  refine ⟨rfl, rfl, ?_, Shaped.mono ⟨hshape.catalog, hshape.tidy⟩ hle, hholds⟩
  rw [← Tick.next_min, ← h.current_tick]
  rfl

end Journal

namespace Scheduler

section Runs

variable [Render] {Q J S : Type} {ingestor : SnapshotIngestor Q} {saver : SaveJournal J}
  {start sch sch' : Scheduler Q J S}

/-- Calls of `tick`, with commands queued in between, and the diffs that have been committed. In a
commit each insert is given a batch index that no live row has. -/
inductive Simulation (ingestor : SnapshotIngestor Q) (saver : SaveJournal J)
    (start : Scheduler Q J S) : Scheduler Q J S → List (Tick × List Diff) → Prop
  | start : Simulation ingestor saver start start []
  | enqueue {sch : Scheduler Q J S} {committed : List (Tick × List Diff)}
      (run : Simulation ingestor saver start sch committed) (envelope : CommandEnvelope) :
    Simulation ingestor saver start (sch.enqueue_command envelope).2 committed
  | returns {sch : Scheduler Q J S} {committed : List (Tick × List Diff)}
      (run : Simulation ingestor saver start sch committed) (hnone : sch.to_commit = none) :
    Simulation ingestor saver start (sch.tick ingestor saver).2 committed
  | commits {sch sch' : Scheduler Q J S} {committed : List (Tick × List Diff)}
      {diffs : List Diff} {result : CommitResult}
      (run : Simulation ingestor saver start sch committed)
      (hdiffs : sch.to_commit = some diffs)
      (hok : sch.tick_to_commit ingestor saver = (.ok result, sch'))
      (hfresh : FreshCommit sch.journal.data.arrow_store (sch.journal.data.current_tick, diffs)) :
    Simulation ingestor saver start (sch.tick ingestor saver).2
      (committed ++ [(sch.journal.data.current_tick, diffs)])

omit [Render] in
theorem enqueue_returned (h : sch.journal.data.pending_diffs = []) (envelope : CommandEnvelope) :
    Returned sch (sch.enqueue_command envelope).2 := by
  refine ⟨(sch.enqueue_command envelope).2.pending_commands.data,
    sch.journal.data.pending_commands, sch.kept, ?_⟩
  unfold enqueue_command
  rw [← h]
  split <;> rfl

/-- The world that the diffs of a run compute. -/
def world_of (start : Scheduler Q J S) (committed : List (Tick × List Diff)) : World :=
  world_run start.journal.data.arrow_store.catalog (fun _ _ => none) committed

omit [Render] in
theorem ticks_snoc {committed : List (Tick × List Diff)} {tick : Tick}
    (h : tick = min committed.length Tick.MAX) (diffs : List Diff)
    (hticks : committed.map Prod.fst = (List.range committed.length).map (min · Tick.MAX)) :
    (committed ++ [(tick, diffs)]).map Prod.fst
      = (List.range (committed.length + 1)).map (min · Tick.MAX) := by
  rw [List.map_append, hticks, List.range_succ, List.map_append, List.map_singleton,
    List.map_singleton, h]

/-- After every call the store holds the world of the diffs that have been committed, one list for
each tick from zero on. -/
theorem Simulation.idle {committed : List (Tick × List Diff)} (hstart : start.Unpoisoned)
    (hstarted : start.journal.data.Started) (run : Simulation ingestor saver start sch committed) :
    sch.Idle start.journal.data.arrow_store.catalog committed.length (start.world_of committed)
      ∧ committed.map Prod.fst = (List.range committed.length).map (min · Tick.MAX) := by
  induction run with
  | start => exact ⟨⟨hstart, hstarted.between⟩, rfl⟩
  | enqueue run envelope ih =>
      exact ⟨ih.1.returned (enqueue_returned ih.1.between.pending envelope), ih.2⟩
  | returns run hnone ih =>
      obtain ⟨e, sch', hcall, hreturned⟩ := ih.1.resting.call_returns ingestor saver hnone
      simp only [tick, hcall]
      exact ⟨ih.1.returned hreturned, ih.2⟩
  | commits run hdiffs hok hfresh ih =>
      obtain ⟨j, kept, hcommit, rfl⟩ := ih.1.resting.call_commits hdiffs hok
      obtain ⟨kept', hafter⟩ := tick_of_commit hok
      have hbetween := ih.1.between.commit hfresh hcommit
      obtain ⟨hsystems, hregistrations, hqueue, hjournal⟩ := ih.1.unpoisoned
      rw [hafter, world_of, world_run, List.foldl_append, List.length_append, List.length_singleton]
      exact ⟨⟨⟨hsystems, hregistrations, hqueue, hjournal⟩, hbetween⟩,
        ticks_snoc ih.1.between.current_tick _ ih.2⟩

end Runs

/-! ## What the systems read -/

section Engine

variable [Render] [Concat] {J S : Type} {saver : SaveJournal J}
  {start sch sch' : Scheduler QueryEngine J S}

/-- The journal publishes to the engine that the systems read. -/
structure Attached (sch : Scheduler QueryEngine J S) : Prop where
  publishes : sch.publishes = true
  engine : sch.journal.data.query_engine = some sch.query_engine

omit [Render] [Concat] in
theorem Attached.returned (h : sch.Attached) (hreturned : Returned sch sch') : sch'.Attached
    ∧ sch'.query_engine = sch.query_engine
    ∧ sch'.journal.data.arrow_store = sch.journal.data.arrow_store := by
  obtain ⟨queue, commands, kept, rfl⟩ := hreturned
  exact ⟨⟨h.publishes, h.engine⟩, rfl, rfl⟩

theorem Simulation.serves {committed : List (Tick × List Diff)} (hstart : start.Unpoisoned)
    (hstarted : start.journal.data.Started) (hattached : start.Attached)
    (run : Simulation QueryEngine.ingestor saver start sch committed) :
    sch.Attached ∧ ∀ last ∈ committed.getLast?,
      Serves sch.query_engine sch.journal.data.arrow_store last.1 := by
  induction run with
  | start => exact ⟨hattached, nofun⟩
  | enqueue run envelope ih =>
      have hidle := (run.idle hstart hstarted).1
      obtain ⟨hsame, hengine, hstore⟩ :=
        ih.1.returned (enqueue_returned hidle.between.pending envelope)
      rw [hengine, hstore]
      exact ⟨hsame, ih.2⟩
  | returns run hnone ih =>
      have hidle := (run.idle hstart hstarted).1
      obtain ⟨e, sch', hcall, hreturned⟩ :=
        hidle.resting.call_returns QueryEngine.ingestor saver hnone
      obtain ⟨hsame, hengine, hstore⟩ := ih.1.returned hreturned
      simp only [tick, hcall]
      rw [hengine, hstore]
      exact ⟨hsame, ih.2⟩
  | @commits sch sch' committed diffs result run hdiffs hok hfresh ih =>
      have hidle := (run.idle hstart hstarted).1
      obtain ⟨j, kept, hcommit, rfl⟩ := hidle.resting.call_commits hdiffs hok
      obtain ⟨kept', hafter⟩ := tick_of_commit hok
      obtain ⟨q, hq, hserves⟩ := Journal.commit_serves
        (j := { sch.journal.data with
          pending_commands := sch.journal.data.pending_commands ++ sch.pending_commands.data
          pending_diffs := diffs })
        ih.1.engine hcommit
      have hengine : (if sch.publishes then j.query_engine.getD sch.query_engine
          else sch.query_engine) = q := by
        rw [ih.1.publishes, if_pos rfl, hq, Option.getD_some]
      rw [hafter, hengine]
      refine ⟨⟨ih.1.publishes, hq⟩, ?_⟩
      intro last hlast
      rw [List.getLast?_concat] at hlast
      obtain rfl := Option.some.inj hlast
      exact hserves

/-- After any run of ticks the tables show the world that the committed diffs compute, one list for
each tick. The systems of the next tick read the engine as the last commit has left it, and find no
row there that the world does not have. -/
theorem simulation_refines {committed : List (Tick × List Diff)} (hstart : start.Unpoisoned)
    (hstarted : start.journal.data.Started) (hattached : start.Attached)
    (run : Simulation QueryEngine.ingestor saver start sch committed) :
    committed.map Prod.fst = (List.range committed.length).map (min · Tick.MAX)
      ∧ (∀ (n : String) (lock : RwLock VersionedTable),
          sch.journal.data.arrow_store.tables[n]? = some lock →
            ShowsRows lock.data (start.world_of committed n))
      ∧ ∀ last ∈ committed.getLast?,
          Serves sch.query_engine sch.journal.data.arrow_store last.1
            ∧ ∀ (n : String) (r : RowId), n ∈ sch.journal.data.arrow_store.tables →
              start.world_of committed n r = none →
                ∃ e, sch.query_engine.lookup_row n r = .error e := by
  obtain ⟨hidle, hticks⟩ := run.idle hstart hstarted
  obtain ⟨-, hserves⟩ := run.serves hstart hstarted hattached
  have hshows : ∀ (n : String) (lock : RwLock VersionedTable),
      sch.journal.data.arrow_store.tables[n]? = some lock →
        ShowsRows lock.data (start.world_of committed n) :=
    fun n lock hn =>
      (hidle.between.holds n lock hn).shows (hidle.between.shaped.tidy n lock hn).2
  refine ⟨hticks, hshows, fun last hlast => ⟨hserves last hlast, fun n r hn hnone => ?_⟩⟩
  obtain ⟨lock, hlock⟩ := Std.ExtTreeMap.mem_iff_isSome_getElem?.1 hn |> Option.isSome_iff_exists.1
  refine (hserves last hlast).lookup_row hlock ?_
  have hdead := (hshows n lock hlock r).1
  rw [hnone, RowPositionMap.contains_eq_isSome] at hdead
  exact Option.isSome_eq_false_iff.1 hdead |> Option.isNone_iff_eq_none.1

end Engine

/-! ## Every other tick -/

section Stock

attribute [local instance] plain_text Journal.one_batch

/-- A system that puts the stock down anew, and fails at every other call. -/
def stocktaking : SimSystem QueryEngine Nat where
  id := "stock"
  phase := .Economy
  read_tables := []
  write_tables := ["items"]
  refresh_callback := none
  execute := fun calls _ _ _ _ =>
    (if calls % 2 = 0 then .ok [.ReplaceTable "items" [item 1 10, item 2 20], .Delete "items" 2]
      else .error (.Generic "closed"), calls + 1)

def warehouse : Scheduler QueryEngine (List CommitRecord) Nat :=
  let sch := Scheduler.new Journal.served_journal (Journal.items_engine Journal.served_journal)
    true 0
  let sch := (sch.registration (fun _ => .ok true) (.RegisterSystem stocktaking)).2
  (sch.registration (fun _ => .ok true) .Initialize).2

/-- One call of `tick`. -/
def called (sch : Scheduler QueryEngine (List CommitRecord) Nat) :
    Scheduler QueryEngine (List CommitRecord) Nat :=
  (sch.tick QueryEngine.ingestor InMemorySaveJournal).2

def handed_in (sch : Scheduler QueryEngine (List CommitRecord) Nat) : List Diff :=
  sch.to_commit.getD []

theorem to_commit_eq_handed_in {sch : Scheduler QueryEngine (List CommitRecord) Nat}
    (hsome : sch.to_commit.isSome = true) : sch.to_commit = some (handed_in sch) := by
  obtain ⟨diffs, hdiffs⟩ := Option.isSome_iff_exists.1 hsome
  rw [handed_in, hdiffs, Option.getD_some]

theorem warehouse_started : warehouse.journal.data.Started :=
  ((Journal.started_new items_store_created).attach [] _).2

/-- The second call fails, and the third commits at tick 1. -/
theorem warehouse_refines :
    let sch := called (called (called warehouse))
    let committed := [(0, handed_in warehouse), (1, handed_in (called (called warehouse)))]
    ShowsRows (items_table sch.journal.data.arrow_store) (warehouse.world_of committed "items")
      ∧ Serves sch.query_engine sch.journal.data.arrow_store 1
      ∧ ∃ e, sch.query_engine.lookup_row "items" 2 = .error e := by
  intro sch committed
  obtain ⟨r₁, s₁, h₁⟩ :=
    committed_of_isSome QueryEngine.ingestor InMemorySaveJournal warehouse (by decide +kernel)
  obtain ⟨r₃, s₃, h₃⟩ :=
    committed_of_isSome QueryEngine.ingestor InMemorySaveJournal (called (called warehouse))
      (by decide +kernel)
  have run : Simulation QueryEngine.ingestor InMemorySaveJournal warehouse sch committed :=
    ((Simulation.start.commits (to_commit_eq_handed_in (by decide +kernel)) h₁
      (by decide +kernel)).returns (Option.isNone_iff_eq_none.1 (by decide +kernel))).commits
        (to_commit_eq_handed_in (by decide +kernel)) h₃ (by decide +kernel)
  obtain ⟨-, hshows, hserves⟩ := simulation_refines ⟨rfl, rfl, rfl, rfl⟩ warehouse_started
    ⟨rfl, rfl⟩ run
  obtain ⟨hserved, hlookup⟩ := hserves (1, handed_in (called (called warehouse))) rfl
  have htable : sch.journal.data.arrow_store.tables["items"]?.isSome := by decide +kernel
  refine ⟨hshows "items" _ (items_table_eq htable), hserved, ?_⟩
  refine hlookup "items" 2 (Std.ExtTreeMap.mem_iff_isSome_getElem?.2 htable) ?_
  exact Option.isNone_iff_eq_none.1 (by decide +kernel)

end Stock

end Scheduler

end Scharnhorst
