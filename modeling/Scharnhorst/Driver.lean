/-
The driver: frames, boundary drains and ticks, in whatever order they fall.

Before every tick the driver drains the input buffer and queues what it got. Frames tell
the buffer the scheduler's tick and push commands all the while. A command keeps the
stamp of its push, the journal takes commands of its own tick only, and so a command that
is pushed after one tick's drain, under that tick's stamp, makes the next tick fail.
-/
import Scharnhorst.InputBuffer
import Scharnhorst.Rollback

set_option autoImplicit false

namespace Scharnhorst

open Attempt

/-! ## Frames -/

inductive FrameOp where
  /-- A frame starts, and tells the buffer the tick. -/
  | Frame
  | Push (command : Command)
  | PushWithSource (source : CommandSource) (command : Command)

namespace FrameOp

def run (tick : Tick) (b : InputCommandBuffer) : FrameOp → InputCommandBuffer
  | Frame => b.set_tick tick
  | Push command => b.push command
  | PushWithSource source command => (b.push_with_source source command).2

/-- What the call pushes, with the source that its envelope will name. -/
def pushed (player_id : UInt64) : FrameOp → Option (String × Command)
  | Frame => none
  | Push command => some (s!"player_{player_id}", command)
  | PushWithSource source command =>
    if source.is_player then some (source.to_source_string, command) else none

end FrameOp

def pushes (player_id : UInt64) (ops : List FrameOp) : List (String × Command) :=
  ops.filterMap (FrameOp.pushed player_id)

def stamp (tick : Tick) (push : String × Command) : CommandEnvelope := ⟨tick, push.1, push.2⟩

/-- A stretch of calls, all while the scheduler is at `tick`. -/
def frames (tick : Tick) (ops : List FrameOp) (b : InputCommandBuffer) : InputCommandBuffer :=
  ops.foldl (FrameOp.run tick) b

/-- No push comes before the first frame. -/
def FrameFirst : List FrameOp → Prop
  | [] => True
  | .Frame :: _ => True
  | .Push _ :: _ => False
  | .PushWithSource source _ :: ops => source.is_player = false ∧ FrameFirst ops

/-! ## Rounds -/

/-- What frames do around one tick. Nothing that a tick does but its advance touches the
buffer or the scheduler's tick, so three stretches tell every order of the calls apart. -/
structure Round where
  /-- Since the scheduler's tick has last advanced. -/
  before : List FrameOp
  /-- Between the two calls of the boundary drain. -/
  aligning : List FrameOp
  /-- From the boundary drain until the tick advances. -/
  running : List FrameOp

structure Driver (Q J S : Type) where
  buffer : InputCommandBuffer
  scheduler : Scheduler Q J S

variable {Q J S : Type}

/-- The record that a tick commits. -/
def Scheduler.committed [Render] (ingestor : SnapshotIngestor Q) (saver : SaveJournal J)
    (sch : Scheduler Q J S) : Option CommitRecord :=
  match sch.tick_to_commit ingestor saver with
  | (.ok _, sch) => sch.journal.data.history.getLast?
  | (.error _, _) => none

/-- A tick whose commands are accepted gets through its systems and its commit. -/
def Scheduler.Completes [Render] (ingestor : SnapshotIngestor Q) (saver : SaveJournal J)
    (sch : Scheduler Q J S) : Prop :=
  ∀ consumed mid, sch.consume_pending_commands = (.ok consumed, mid) →
    ∃ result, (sch.tick_to_commit ingestor saver).1 = .ok result

namespace Driver

/-- Up to the tick: the boundary drain, and what it got queued in order. -/
def boundary (d : Driver Q J S) (r : Round) : Driver Q J S :=
  let tick := d.scheduler.current_tick.toNat
  let buffer := frames tick r.before d.buffer
  match buffer.consume_commands tick (frames tick r.aligning) with
  | (.error _, buffer) => { d with buffer }
  | (.ok batch, buffer) =>
    { buffer, scheduler := (forEach Scheduler.enqueue_command d.scheduler batch.commands).2 }

variable [Render]

/-- One round, and the record that its tick committed. -/
def round (ingestor : SnapshotIngestor Q) (saver : SaveJournal J) (d : Driver Q J S) (r : Round) :
    Option CommitRecord × Driver Q J S :=
  let d := d.boundary r
  (d.scheduler.committed ingestor saver,
    { buffer := frames d.scheduler.current_tick.toNat r.running d.buffer
      scheduler := (d.scheduler.tick ingestor saver).2 })

def run (ingestor : SnapshotIngestor Q) (saver : SaveJournal J) :
    Driver Q J S → List Round → List (Option CommitRecord) × Driver Q J S
  | d, [] => ([], d)
  | d, r :: rounds =>
    let (record, d) := d.round ingestor saver r
    let (records, d) := run ingestor saver d rounds
    (record :: records, d)

end Driver

/-! ## What should be delivered -/

/-- The commands of each tick's record: what was pushed since the drain before, in the
order of the pushes, `held` being left over from then. -/
def deliveries (player_id : UInt64) :
    Tick → List (String × Command) → List Round → List (Tick × List CommandEnvelope)
  | _, _, [] => []
  | tick, held, r :: rounds =>
    (tick, (held ++ pushes player_id r.before ++ pushes player_id r.aligning).map (stamp tick))
      :: deliveries player_id (tick + 1) (pushes player_id r.running) rounds

/-- No command is pushed from a tick's drain until the first frame after its advance. -/
def Timely (player_id : UInt64) (r next : Round) : Prop :=
  pushes player_id r.running = [] ∧ FrameFirst next.before

/-! ## Stretches of frames -/

@[simp] theorem pushes_nil (player_id : UInt64) : pushes player_id [] = [] := rfl

@[simp] theorem pushes_cons (player_id : UInt64) (op : FrameOp) (ops : List FrameOp) :
    pushes player_id (op :: ops) = (op.pushed player_id).toList ++ pushes player_id ops := by
  unfold pushes
  rcases hop : op.pushed player_id with _ | push
  · rw [List.filterMap_cons_none hop]
    rfl
  · rw [List.filterMap_cons_some hop]
    rfl

@[simp] theorem frames_nil (tick : Tick) (b : InputCommandBuffer) : frames tick [] b = b := rfl

@[simp] theorem frames_cons (tick : Tick) (op : FrameOp) (ops : List FrameOp)
    (b : InputCommandBuffer) : frames tick (op :: ops) b = frames tick ops (op.run tick b) := rfl

section Frames

variable {b : InputCommandBuffer} {tick : Tick} {ops : List FrameOp}

/-- A call stamps with the tick that the buffer knows, and may tell it the tick. -/
theorem FrameOp.run_eq (op : FrameOp) (tick : Tick) (b : InputCommandBuffer) :
    ∃ t, (t = b.current_tick ∨ t = tick) ∧ op.run tick b
      = { b with
          queue := b.queue ++ (op.pushed b.player_id).toList.map (stamp b.current_tick)
          current_tick := t } := by
  cases op with
  | Frame => exact ⟨tick, .inr rfl, by simp [run, pushed, InputCommandBuffer.set_tick]⟩
  | Push command => exact ⟨b.current_tick, .inl rfl, rfl⟩
  | PushWithSource source command =>
      refine ⟨b.current_tick, .inl rfl, ?_⟩
      rcases hplayer : source.is_player with _ | _ <;>
        simp [run, pushed, InputCommandBuffer.push_with_source, hplayer, stamp]

/-- A buffer that knows the tick stamps every push with it. -/
theorem frames_stamped (ops : List FrameOp) (h : b.current_tick = tick) :
    frames tick ops b
      = { b with queue := b.queue ++ (pushes b.player_id ops).map (stamp tick) } := by
  induction ops generalizing b with
  | nil => simp
  | cons op ops ih =>
      obtain ⟨t, ht, hrun⟩ := op.run_eq tick b
      have hknown : t = tick := by
        rcases ht with rfl | rfl
        · exact h
        · rfl
      rw [frames_cons, hrun, ih (by exact hknown)]
      simp [h, hknown]

/-- Whatever the buffer knows, calls only add to the queue. -/
theorem frames_adds (tick : Tick) (ops : List FrameOp) (b : InputCommandBuffer) :
    ∃ more t, (t = b.current_tick ∨ t = tick)
      ∧ frames tick ops b = { b with queue := b.queue ++ more, current_tick := t } := by
  induction ops generalizing b with
  | nil => exact ⟨[], b.current_tick, .inl rfl, by simp⟩
  | cons op ops ih =>
      obtain ⟨t, ht, hrun⟩ := op.run_eq tick b
      rw [frames_cons, hrun]
      obtain ⟨more, t', ht', hframes⟩ := ih { b with
        queue := b.queue ++ (op.pushed b.player_id).toList.map (stamp b.current_tick)
        current_tick := t }
      refine ⟨_, t', ?_, hframes.trans (by rw [List.append_assoc])⟩
      rcases ht' with rfl | rfl
      · exact ht
      · exact .inr rfl

/-- A stretch without a push before its first frame stamps as one that knows the tick. -/
theorem frames_framed (tick : Tick) (b : InputCommandBuffer) (h : FrameFirst ops) :
    ∃ t, (t = b.current_tick ∨ t = tick) ∧ frames tick ops b
      = { b with
          queue := b.queue ++ (pushes b.player_id ops).map (stamp tick)
          current_tick := t } := by
  induction ops generalizing b with
  | nil => exact ⟨b.current_tick, .inl rfl, by simp [frames]⟩
  | cons op ops ih =>
      cases op with
      | Frame =>
          have hknown : (b.set_tick tick).current_tick = tick := rfl
          exact ⟨tick, .inr rfl, frames_stamped ops hknown⟩
      | Push command => exact absurd h id
      | PushWithSource source command =>
          have hrun : (FrameOp.PushWithSource source command).run tick b = b := by
            simp [FrameOp.run, InputCommandBuffer.push_with_source, h.1]
          obtain ⟨t, ht, hframes⟩ := ih b h.2
          refine ⟨t, ht, ?_⟩
          rw [frames_cons, hrun, hframes]
          simp [FrameOp.pushed, h.1]

/-- From an empty queue, and up to the boundary. -/
theorem frames_known (hqueue : b.queue = []) (h : b.current_tick = tick ∨ FrameFirst ops) :
    (frames tick ops b).queue = (pushes b.player_id ops).map (stamp tick) := by
  rcases h with hknown | hframed
  · rw [frames_stamped ops hknown, hqueue, List.nil_append]
  · obtain ⟨t, -, hframes⟩ := frames_framed tick b hframed
    rw [hframes, hqueue, List.nil_append]

/-- Else the push before it is under the tick that the buffer knew. -/
theorem frames_stale (h : ¬ FrameFirst ops) (hne : b.current_tick ≠ tick) :
    ∃ envelope ∈ (frames tick ops b).queue, envelope.tick ≠ tick := by
  -- a pushed command stays in the queue, whatever follows
  have hpush : ∀ op ops push, op.pushed b.player_id = some push →
      ∃ envelope ∈ (frames tick (op :: ops) b).queue, envelope.tick ≠ tick := by
    intro op ops push hop
    obtain ⟨t, -, hrun⟩ := op.run_eq tick b
    rw [frames_cons, hrun]
    obtain ⟨more, t', -, hframes⟩ := frames_adds tick ops { b with
      queue := b.queue ++ (op.pushed b.player_id).toList.map (stamp b.current_tick)
      current_tick := t }
    refine ⟨stamp b.current_tick push, ?_, hne⟩
    rw [hframes, hop]
    simp
  induction ops with
  | nil => exact absurd trivial h
  | cons op ops ih =>
      cases op with
      | Frame => exact absurd trivial h
      | Push command => exact hpush _ ops _ rfl
      | PushWithSource source command =>
          rcases hplayer : source.is_player with _ | _
          · rw [frames_cons]
            simp only [FrameOp.run, InputCommandBuffer.push_with_source, hplayer, Bool.not_false,
              if_true]
            exact ih fun hfirst => h ⟨hplayer, hfirst⟩
          · exact hpush _ ops (source.to_source_string, command) (by simp [FrameOp.pushed, hplayer])

end Frames

/-! ## A boundary -/

namespace Journal

variable [Render] {ingestor : SnapshotIngestor Q} {saver : SaveJournal J} {j j' : Journal Q J}

/-- A commit takes the pending commands into its record. -/
theorem commit_takes {result : CommitResult} (h : j.commit ingestor saver = (.ok result, j')) :
    ∃ record, j'.history.getLast? = some record ∧ record.tick = j.current_tick
      ∧ record.commands = j.pending_commands ∧ j'.phase = .Open ∧ j'.pending_commands = []
      ∧ j'.current_tick = j.current_tick.next := by
  have hopen : j.phase = .Open := by
    by_contra hclosed
    simp [commit, hclosed] at h
  have hending := commit_ending ingestor saver hopen
  rw [h] at hending
  cases hending with
  | committed hhealthy htick hdiffs hcommands happended =>
      exact ⟨_, getLast?_evict _ _, htick, hcommands, rfl, rfl, rfl⟩

end Journal

namespace Scheduler

variable {sch sch' mid : Scheduler Q J S}

theorem enqueue_commands_eq (h : sch.pending_commands.poisoned = false)
    (envelopes : List CommandEnvelope) :
    forEach enqueue_command sch envelopes
      = (.ok (), { sch with
          pending_commands := sch.pending_commands.set (sch.pending_commands.data ++ envelopes) }) := by
  induction envelopes generalizing sch with
  | nil => simp [RwLock.set]
  | cons envelope envelopes ih =>
      have hfirst : sch.enqueue_command envelope = (.ok (), { sch with
          pending_commands := sch.pending_commands.set (sch.pending_commands.data ++ [envelope]) }) := by
        simp [enqueue_command, lock_healthy h]
      rw [forEach_cons_of_ok hfirst, ih (by exact h)]
      simp [RwLock.set]

/-- Between two ticks: nothing queued, and an open journal at `tick` with no commands. -/
structure Steady (sch : Scheduler Q J S) (tick : Tick) : Prop where
  initialized : sch.initialized = true
  queue_healthy : sch.pending_commands.poisoned = false
  queue : sch.pending_commands.data = []
  journal_healthy : sch.journal.poisoned = false
  phase : sch.journal.data.phase = .Open
  pending_commands : sch.journal.data.pending_commands = []
  tick : sch.journal.data.current_tick = tick

/-- Commands are taken when they are all of the journal's own tick. -/
theorem consume_taken (hqueue : sch.pending_commands.poisoned = false)
    (hjournal : sch.journal.poisoned = false) (hopen : sch.journal.data.phase = .Open)
    (hticks : ∀ envelope ∈ sch.pending_commands.data,
      envelope.tick = sch.journal.data.current_tick) :
    ∃ mid, sch.consume_pending_commands = (.ok sch.pending_commands.data, mid) := by
  have hsubmit : sch.journal.data.submit_commands sch.pending_commands.data = (.ok (), _) :=
    Journal.submit_commands_ok.2 ⟨fun envelope hmem => ⟨hopen, hticks envelope hmem⟩, rfl⟩
  simp only [consume_pending_commands, lock_healthy hqueue, lock_healthy hjournal, hsubmit]
  exact ⟨_, rfl⟩

section Commits

variable [Render] {ingestor : SnapshotIngestor Q} {saver : SaveJournal J}

/-- One of another tick is refused, and the tick with it. -/
theorem committed_stale (hstale : ∃ envelope ∈ sch.pending_commands.data,
    envelope.tick ≠ sch.journal.data.current_tick) : sch.committed ingestor saver = none := by
  obtain ⟨envelope, hmem, hne⟩ := hstale
  unfold committed tick_to_commit
  by_cases hinit : sch.initialized
  · rcases hconsume : sch.consume_pending_commands with ⟨e | consumed, mid⟩
    · simp [hinit]
    · obtain ⟨-, -, rfl, htaken, -⟩ := consume_ok hconsume
      exact absurd (htaken envelope hmem).2 hne
  · simp [hinit]

omit [Render] in
/-- A rollback returns an error. -/
theorem roll_back_ne_ok {α : Type} {consumed : List CommandEnvelope} {e : SchedulerError} {a : α} :
    (sch.roll_back consumed e : SchedulerResult α × Scheduler Q J S) ≠ (.ok a, sch') := by
  unfold roll_back
  split <;> simp

/-- A commit that goes through writes the journal, the engine and the generation. -/
theorem atomic_commit_ok {result : CommitResult}
    (h : sch.atomic_commit ingestor saver = (.ok result, sch')) :
    ∃ j q, sch.journal.data.commit ingestor saver = (.ok result, j)
      ∧ sch' = { sch.set_journal j with query_engine := q, generation := sch.generation + 1 } := by
  unfold atomic_commit at h
  rcases hlock : lock "journal" sch.journal with e | journal
  · simp only [hlock] at h
    cases (Prod.mk.inj h).1
  obtain ⟨-, rfl⟩ := lock_ok hlock
  rcases hcommit : sch.journal.data.commit ingestor saver with ⟨e | result', j⟩
  · simp only [hlock, hcommit] at h
    cases (Prod.mk.inj h).1
  · simp only [hlock, hcommit] at h
    obtain ⟨hresult, rfl⟩ := Prod.mk.inj h
    obtain rfl := Except.ok.inj hresult
    exact ⟨j, _, rfl, rfl⟩

/-- A tick that commits: the record, and what the scheduler is then. -/
theorem tick_to_commit_ok {result : CommitResult}
    (h : sch.tick_to_commit ingestor saver = (.ok result, sch')) :
    ∃ record, sch'.journal.data.history.getLast? = some record
      ∧ record.tick = sch.journal.data.current_tick
      ∧ record.commands = sch.journal.data.pending_commands ++ sch.pending_commands.data
      ∧ sch'.Steady sch.journal.data.current_tick.next ∧ sch'.current_tick = sch.current_tick := by
  unfold tick_to_commit at h
  split at h
  · cases (Prod.mk.inj h).1
  rename_i hinit
  rcases hconsume : sch.consume_pending_commands with ⟨e | consumed, mid⟩
  · simp only [hconsume] at h
    cases (Prod.mk.inj h).1
  obtain ⟨hqueue, hjournal, rfl, -, hmid⟩ := consume_ok hconsume
  have hran := run_phases_ran mid mid.current_tick
  rcases hphases : mid.run_phases mid.current_tick with ⟨e | ⟨⟩, run⟩
  · simp only [hconsume, hphases] at h
    exact absurd h roll_back_ne_ok
  -- a failed step would have been rolled back, with an error
  rcases hatomic : run.atomic_commit ingestor saver with ⟨e | result', after⟩
  · simp only [hconsume, hphases, hatomic] at h
    exact absurd h roll_back_ne_ok
  simp only [hconsume, hphases, hatomic] at h
  rw [hphases] at hran
  obtain ⟨-, rfl⟩ := Prod.mk.inj h
  obtain ⟨j, q, hcommit, rfl⟩ := atomic_commit_ok hatomic
  obtain ⟨kept, diffs, rfl, -⟩ := hran
  subst hmid
  obtain ⟨record, hlast, htick, hcommands, hopen, hnone, hnext⟩ := Journal.commit_takes hcommit
  refine ⟨record, hlast, htick, hcommands, ?_, rfl⟩
  have hinit' : sch.initialized = true := by simpa using hinit
  exact { initialized := hinit'
          queue_healthy := hqueue
          queue := rfl
          journal_healthy := hjournal
          phase := hopen
          pending_commands := hnone
          tick := hnext }

omit [Render] in
theorem broadcast_refresh_writes (sch : Scheduler Q J S) (tick generation : UInt64) :
    ∃ kept, (sch.broadcast_refresh tick generation).2 = { sch with kept } := by
  unfold broadcast_refresh
  split
  · exact ⟨sch.kept, rfl⟩
  · exact ⟨_, rfl⟩

/-- After the commit a tick writes the scheduler's tick and what the callbacks keep. -/
theorem tick_of_commit {result : CommitResult}
    (h : sch.tick_to_commit ingestor saver = (.ok result, sch')) :
    ∃ kept, (sch.tick ingestor saver).2 = { sch'.advance_tick with kept } := by
  obtain ⟨kept, hwrites⟩ := broadcast_refresh_writes sch'.advance_tick result.tick.toUInt64
    sch'.advance_tick.generation
  refine ⟨kept, ?_⟩
  simp only [tick, h]
  rw [← hwrites]
  split <;> simp [*]

/-- A tick over commands of its own number commits a record of them. -/
theorem tick_steady {tick : Tick} {queue : List CommandEnvelope} (hsteady : sch.Steady tick)
    (hticks : ∀ envelope ∈ queue, envelope.tick = tick) :
    let filled := { sch with pending_commands := sch.pending_commands.set queue }
    filled.Completes ingestor saver →
      (∃ record, filled.committed ingestor saver = some record ∧ record.tick = tick
          ∧ record.commands = queue)
        ∧ (filled.tick ingestor saver).2.Steady tick.next
        ∧ (filled.tick ingestor saver).2.current_tick = sch.current_tick + 1 := by
  intro filled hworks
  -- the commands carry the number of the tick, so the journal takes them
  have hown : ∀ envelope ∈ filled.pending_commands.data,
      envelope.tick = filled.journal.data.current_tick := by
    intro envelope hmem
    rw [hticks envelope hmem]
    exact hsteady.tick.symm
  have hqueue : filled.pending_commands.poisoned = false := hsteady.queue_healthy
  obtain ⟨mid, hconsume⟩ := consume_taken hqueue hsteady.journal_healthy hsteady.phase hown
  obtain ⟨result, hresult⟩ := hworks _ mid hconsume
  have hcommit := eq_of_verdict hresult
  obtain ⟨record, hlast, htick, hcommands, hnext, hclock⟩ := tick_to_commit_ok hcommit
  obtain ⟨kept, hafter⟩ := tick_of_commit hcommit
  rw [hafter]
  refine ⟨⟨record, ?_, htick.trans hsteady.tick, ?_⟩, ?_, congrArg (· + 1) hclock⟩
  · simp only [committed]
    rw [hcommit]
    exact hlast
  · rw [hcommands]
    simp [filled, hsteady.pending_commands]
  · have hsame : filled.journal.data.current_tick = tick := hsteady.tick
    rw [hsame] at hnext
    exact { initialized := hnext.initialized
            queue_healthy := hnext.queue_healthy
            queue := hnext.queue
            journal_healthy := hnext.journal_healthy
            phase := hnext.phase
            pending_commands := hnext.pending_commands
            tick := hnext.tick }

end Commits

end Scheduler

namespace Driver

variable {d : Driver Q J S}

/-- The drain goes through when the buffer is not ahead of the scheduler, and queues what
was in the buffer and what came in between. -/
theorem boundary_eq (hle : d.buffer.current_tick ≤ d.scheduler.current_tick.toNat)
    (hhealthy : d.scheduler.pending_commands.poisoned = false) (r : Round) :
    let tick := d.scheduler.current_tick.toNat
    let held := (frames tick r.before d.buffer).queue
      ++ (pushes d.buffer.player_id r.aligning).map (stamp tick)
    d.boundary r
      = { buffer := { d.buffer with
            queue := [], current_tick := tick, last_consumed_tick := tick, tick_prepared := false }
          scheduler := { d.scheduler with
            pending_commands := d.scheduler.pending_commands.set
              (d.scheduler.pending_commands.data ++ held) } } := by
  intro tick held
  obtain ⟨more, t, ht, hframes⟩ := frames_adds tick r.before d.buffer
  have hbehind : ¬ tick < t := by
    rcases ht with rfl | rfl
    · exact Nat.not_lt.2 hle
    · exact Nat.lt_irrefl _
  have hconsume : (frames tick r.before d.buffer).consume_commands tick (frames tick r.aligning)
      = (.ok ⟨tick, held⟩, { d.buffer with
          queue := [], current_tick := tick, last_consumed_tick := tick, tick_prepared := false }) := by
    simp only [held, hframes, InputCommandBuffer.consume_commands,
      InputCommandBuffer.prepare_for_tick, if_neg hbehind]
    rw [frames_stamped (b := { d.buffer with
      queue := d.buffer.queue ++ more, current_tick := tick, tick_prepared := true }) r.aligning rfl]
    simp [InputCommandBuffer.drain_commands]
  simp only [boundary, tick] at hconsume ⊢
  simp only [hconsume, Scheduler.enqueue_commands_eq hhealthy]

/-! ## A round -/

section Rounds

variable [Render] {ingestor : SnapshotIngestor Q} {saver : SaveJournal J} {r : Round}

/-- What a boundary leaves in the queue decides about the tick. -/
theorem round_stale (hsteady : d.scheduler.Steady d.scheduler.current_tick.toNat)
    (hle : d.buffer.current_tick ≤ d.scheduler.current_tick.toNat)
    (hstale : ∃ envelope ∈ (frames d.scheduler.current_tick.toNat r.before d.buffer).queue,
      envelope.tick ≠ d.scheduler.current_tick.toNat) :
    (d.round ingestor saver r).1 = none := by
  obtain ⟨envelope, hmem, hne⟩ := hstale
  simp only [round, boundary_eq hle hsteady.queue_healthy]
  refine Scheduler.committed_stale ⟨envelope, ?_, ?_⟩
  · simp [hmem]
  · simpa [hsteady.tick] using hne

/-- What was pushed while the tick before ran still carries that tick's number. -/
theorem round_after_pushes {tick : Nat} {pushed : List (String × Command)}
    (hsteady : d.scheduler.Steady d.scheduler.current_tick.toNat)
    (hclock : d.scheduler.current_tick.toNat = tick + 1) (hbuffer : d.buffer.current_tick = tick)
    (hqueue : d.buffer.queue = pushed.map (stamp tick)) (hpushed : pushed ≠ []) :
    (d.round ingestor saver r).1 = none := by
  have hle : d.buffer.current_tick ≤ d.scheduler.current_tick.toNat := by
    rw [hbuffer, hclock]
    exact Nat.le_succ _
  refine round_stale hsteady hle ?_
  obtain ⟨push, hpush⟩ := List.exists_mem_of_ne_nil _ hpushed
  obtain ⟨more, t, -, hframes⟩ :=
    frames_adds d.scheduler.current_tick.toNat r.before d.buffer
  refine ⟨stamp tick push, ?_, ?_⟩
  · rw [hframes, hqueue]
    exact List.mem_append_left _ (List.mem_map_of_mem hpush)
  · rw [hclock]
    exact Nat.ne_of_lt (Nat.lt_succ_self _)

/-- A tick of commands that all carry its number commits a record of them. -/
theorem round_delivers {held : List (String × Command)}
    (hsteady : d.scheduler.Steady d.scheduler.current_tick.toNat)
    (hle : d.buffer.current_tick ≤ d.scheduler.current_tick.toNat)
    (hlt : d.scheduler.current_tick.toNat < Tick.MAX)
    (hheld : (frames d.scheduler.current_tick.toNat r.before d.buffer).queue
      = held.map (stamp d.scheduler.current_tick.toNat))
    (hworks : (d.boundary r).scheduler.Completes ingestor saver) :
    let tick := d.scheduler.current_tick.toNat
    let next := (d.round ingestor saver r).2
    (∃ record, (d.round ingestor saver r).1 = some record ∧ record.tick = tick
        ∧ record.commands = (held ++ pushes d.buffer.player_id r.aligning).map (stamp tick))
      ∧ next.scheduler.Steady next.scheduler.current_tick.toNat
      ∧ next.scheduler.current_tick.toNat = tick + 1
      ∧ next.buffer.current_tick = tick ∧ next.buffer.player_id = d.buffer.player_id
      ∧ next.buffer.queue = (pushes d.buffer.player_id r.running).map (stamp tick) := by
  intro tick next
  -- the boundary drains the buffer into the scheduler before the tick starts
  let queue := (held ++ pushes d.buffer.player_id r.aligning).map (stamp tick)
  let drained := { d.buffer with
    queue := [], current_tick := tick, last_consumed_tick := tick, tick_prepared := false }
  let filled := { d.scheduler with pending_commands := d.scheduler.pending_commands.set queue }
  have hboundary : d.boundary r = ⟨drained, filled⟩ := by
    have hqueued := boundary_eq hle hsteady.queue_healthy r
    simpa only [hheld, hsteady.queue, List.nil_append, ← List.map_append] using hqueued
  have hround : d.round ingestor saver r = (filled.committed ingestor saver,
      ⟨frames tick r.running drained, (filled.tick ingestor saver).2⟩) := by
    simp only [round, hboundary]
    rfl
  rw [hboundary] at hworks
  have hstamped : ∀ envelope ∈ queue, envelope.tick = tick := by
    intro envelope hmem
    obtain ⟨push, -, rfl⟩ := List.mem_map.1 hmem
    rfl
  obtain ⟨hrecord, hnext, hclock⟩ := Scheduler.tick_steady hsteady hstamped hworks
  -- the counter is a `u64`: it does not wrap below the maximum
  have hsucc : (d.scheduler.current_tick + 1).toNat = tick + 1 := by
    have hsmall : tick + 1 < 2 ^ 64 := by
      simp only [Tick.MAX, u64_MAX] at hlt
      omega
    rw [UInt64.toNat_add]
    exact Nat.mod_eq_of_lt hsmall
  have hlater : next.scheduler.current_tick.toNat = tick + 1 := by
    simp only [next, hround]
    rw [hclock, hsucc]
  -- the frames after the tick still stamp the number of the tick that has run
  have hframes := frames_stamped (b := drained) r.running rfl
  have hbuffer : next.buffer = { drained with
      queue := (pushes d.buffer.player_id r.running).map (stamp tick) } := by
    simp only [next, hround]
    exact hframes
  refine ⟨?_, ?_, hlater, by rw [hbuffer], by rw [hbuffer], by rw [hbuffer]⟩
  · rw [hround]
    exact hrecord
  · rw [hlater, ← Tick.next_of_lt hlt]
    simp only [next, hround]
    exact hnext

/-! ## A run -/

/-- In a run, the ticks whose commands are accepted commit. -/
def Completes (ingestor : SnapshotIngestor Q) (saver : SaveJournal J) :
    Driver Q J S → List Round → Prop
  | _, [] => True
  | d, r :: rounds => (d.boundary r).scheduler.Completes ingestor saver
    ∧ Completes ingestor saver (d.round ingestor saver r).2 rounds

/-- What a run starts from: between two ticks, with an empty buffer that knows the tick. -/
structure Ready (d : Driver Q J S) : Prop where
  scheduler : d.scheduler.Steady d.scheduler.current_tick.toNat
  buffer_tick : d.buffer.current_tick = d.scheduler.current_tick.toNat
  buffer_queue : d.buffer.queue = []

/-- The tick and the commands of a record, if there is one. -/
def taken (record : Option CommitRecord) : Option (Tick × List CommandEnvelope) :=
  record.map fun record => (record.tick, record.commands)

theorem run_cons (d : Driver Q J S) (r : Round) (rounds : List Round) :
    (d.run ingestor saver (r :: rounds)).1
      = (d.round ingestor saver r).1
        :: ((d.round ingestor saver r).2.run ingestor saver rounds).1 := rfl

/-- Every push is delivered when the buffer knows the tick of each. -/
theorem run_delivers_iff {rounds : List Round}
    (hsteady : d.scheduler.Steady d.scheduler.current_tick.toNat) (hqueue : d.buffer.queue = [])
    (hle : d.buffer.current_tick ≤ d.scheduler.current_tick.toNat)
    (hlen : d.scheduler.current_tick.toNat + rounds.length ≤ Tick.MAX)
    (hworks : d.Completes ingestor saver rounds) :
    (d.run ingestor saver rounds).1.map taken
        = (deliveries d.buffer.player_id d.scheduler.current_tick.toNat [] rounds).map some
      ↔ (d.buffer.current_tick = d.scheduler.current_tick.toNat
          ∨ ∀ r ∈ rounds.head?, FrameFirst r.before)
        ∧ rounds.IsChain (Timely d.buffer.player_id) := by
  induction rounds generalizing d with
  | nil => simp [run, deliveries]
  | cons r rounds ih =>
      obtain ⟨hfirst, hrest⟩ := hworks
      rw [List.length_cons] at hlen
      have hlt : d.scheduler.current_tick.toNat < Tick.MAX := by
        refine Nat.lt_of_lt_of_le ?_ hlen
        omega
      rw [run_cons, deliveries, List.map_cons, List.map_cons, List.cons_eq_cons]
      -- what stands in the queue at the drain carries the tick the buffer knew
      by_cases hknown : d.buffer.current_tick = d.scheduler.current_tick.toNat
        ∨ FrameFirst r.before
      · have hheld := frames_known hqueue hknown
        obtain ⟨⟨record, hrecord, htick, hcommands⟩, hnext, hclock, hbuffer, hid, hleft⟩ :=
          round_delivers hsteady hle hlt hheld hfirst
        have htaken : taken (d.round ingestor saver r).1
            = some (d.scheduler.current_tick.toNat,
              ([] ++ pushes d.buffer.player_id r.before
                ++ pushes d.buffer.player_id r.aligning).map
                (stamp d.scheduler.current_tick.toNat)) := by
          simp only [taken, hrecord, Option.map_some, htick, hcommands, List.nil_append]
        rcases rounds with _ | ⟨next, rest⟩
        · simp [run, deliveries, htaken, hknown]
        by_cases hnone : pushes d.buffer.player_id r.running = []
        · -- the rest of the run starts as this one did, with a buffer one tick behind
          have hempty : (d.round ingestor saver r).2.buffer.queue = [] := by
            rw [hleft, hnone, List.map_nil]
          have hle' : (d.round ingestor saver r).2.buffer.current_tick
              ≤ (d.round ingestor saver r).2.scheduler.current_tick.toNat := by
            rw [hbuffer, hclock]
            exact Nat.le_succ _
          have hlen' : (d.round ingestor saver r).2.scheduler.current_tick.toNat
              + (next :: rest).length ≤ Tick.MAX := by
            rw [hclock, Nat.add_assoc, Nat.add_comm 1]
            exact hlen
          have hlater := ih hnext hempty hle' hlen' hrest
          rw [hid, hclock] at hlater
          rw [hnone, hlater, hbuffer]
          simp [htaken, hknown, Timely, hnone]
        · -- what was pushed in between carries this tick's number
          have hstale : ((d.round ingestor saver r).2.round ingestor saver next).1 = none :=
            round_after_pushes hnext hclock hbuffer hleft hnone
          rw [run_cons, deliveries]
          simp [taken, hstale, Timely, hnone]
      -- the first push carries an older number, and the tick refuses it
      · rw [not_or] at hknown
        have hnone : (d.round ingestor saver r).1 = none :=
          round_stale hsteady hle (frames_stale hknown.2 hknown.1)
        simp [taken, hnone, hknown]

/-- A run delivers every push exactly when none falls between a tick's drain and the first
frame after its advance. -/
theorem pushes_delivered_iff {rounds : List Round} (hready : d.Ready)
    (hlen : d.scheduler.current_tick.toNat + rounds.length ≤ Tick.MAX)
    (hworks : d.Completes ingestor saver rounds) :
    (d.run ingestor saver rounds).1.map taken
        = (deliveries d.buffer.player_id d.scheduler.current_tick.toNat [] rounds).map some
      ↔ rounds.IsChain (Timely d.buffer.player_id) := by
  rw [run_delivers_iff hready.scheduler hready.buffer_queue (Nat.le_of_eq hready.buffer_tick) hlen
    hworks]
  simp [hready.buffer_tick]

end Rounds

/-! ## Two runs -/

section Items

attribute [local instance] plain_text QueryEngine.no_merge

/-- A driver over the items, with no systems. -/
def items_driver : Driver QueryEngine (List CommitRecord) Unit where
  buffer := .new
  scheduler := { Scheduler.items_scheduler [] with
    systems := .new [], registrations := .new [], pending_commands := .new [] }

def items_round (d : Driver QueryEngine (List CommitRecord) Unit) (r : Round) :
    Option CommitRecord × Driver QueryEngine (List CommitRecord) Unit :=
  d.round QueryEngine.ingestor InMemorySaveJournal r

def items_run (rounds : List Round) :
    List (Option CommitRecord) × Driver QueryEngine (List CommitRecord) Unit :=
  items_driver.run QueryEngine.ingestor InMemorySaveJournal rounds

def clear_row : FrameOp := .Push (.DeleteRow "items" 1)

/-- Frames before each boundary, and a push between the two calls of a drain. -/
def timely_rounds : List Round := [⟨[clear_row], [], [.Frame]⟩, ⟨[.Frame, clear_row], [clear_row], []⟩]

theorem timely_delivered :
    (items_run timely_rounds).1.map taken = (deliveries 0 0 [] timely_rounds).map some := by
  have hworks : items_driver.Completes QueryEngine.ingestor InMemorySaveJournal timely_rounds :=
    ⟨fun _ _ _ => ⟨⟨0, 0, 1, 0⟩, by decide +kernel⟩, fun _ _ _ => ⟨⟨1, 0, 2, 0⟩, by decide +kernel⟩,
      trivial⟩
  have hready : items_driver.Ready := ⟨⟨rfl, rfl, rfl, rfl, rfl, rfl, rfl⟩, rfl, rfl⟩
  refine (@pushes_delivered_iff _ _ _ items_driver _ QueryEngine.ingestor InMemorySaveJournal
    timely_rounds hready (by decide) hworks).2 ?_
  exact List.isChain_cons_cons.2 ⟨⟨rfl, trivial⟩, .singleton _⟩

/-- A push while the tick runs, and a frame before the next boundary. -/
def late_rounds : List Round := [⟨[], [], [clear_row]⟩, ⟨[.Frame], [], []⟩]

/-- The next tick fails because of it, and the command is nowhere any more. -/
theorem late_push_lost :
    let d := (items_round items_driver ⟨[], [], [clear_row]⟩).2.boundary ⟨[.Frame], [], []⟩
    let after := (items_run late_rounds).2
    (d.scheduler.tick QueryEngine.ingestor InMemorySaveJournal).1
        = .error (.Journal "invalid tick: expected 1, got 0")
      ∧ (items_run late_rounds).1.map taken ≠ (deliveries 0 0 [] late_rounds).map some
      ∧ after.buffer.queue.length = 0 ∧ after.scheduler.pending_commands.data.length = 0
      ∧ after.scheduler.journal.data.pending_commands.length = 0 := by
  intro d after
  refine ⟨by decide +kernel, fun heq => ?_, by decide +kernel, by decide +kernel, by decide +kernel⟩
  have hcommitted := congrArg (List.map Option.isSome) heq
  revert hcommitted
  decide +kernel

end Items

end Driver

end Scharnhorst
