/-
What the input buffer is given, and what its drains give back.

The buffer has one tick, and both sides write it: frames with `set_tick`, which checks
nothing, and the scheduler with `prepare_for_tick`. A drain is checked against this tick
alone. No command is lost or doubled however the calls fall, but a frame that sets another
tick between a prepare and its drain lets a drain through that nobody has prepared, and one
that sets the tick back lets the drains go back too.
-/
import Scharnhorst.InputBuffer
import Mathlib.Data.List.Basic

set_option autoImplicit false

namespace Scharnhorst

open InputCommandBuffer

/-! ## Calls -/

/-- The frame's side. -/
inductive FrameCall where
  | SetTick (tick : Tick)
  | Push (command : Command)
  /-- And `submit_player_command`. -/
  | PushWithSource (source : CommandSource) (command : Command)

/-- Both sides. What frames do while `consume_commands` does not hold the mutex is told with
the call. -/
inductive BufferCall where
  | Frame (call : FrameCall)
  | PrepareForTick (tick : Tick)
  | DrainCommands (tick : Tick)
  | ConsumeCommands (tick : Tick) (between : List FrameCall)

namespace FrameCall

def run (b : InputCommandBuffer) : FrameCall → BevyBridgeResult Unit × InputCommandBuffer
  | SetTick tick => (.ok (), b.set_tick tick)
  | Push command => (.ok (), b.push command)
  | PushWithSource source command => b.push_with_source source command

def all (b : InputCommandBuffer) (calls : List FrameCall) : InputCommandBuffer :=
  calls.foldl (fun b call => (call.run b).2) b

end FrameCall

/-- What a call returns: the batch, if it is a drain. -/
def BufferCall.run (b : InputCommandBuffer) :
    BufferCall → BevyBridgeResult (Option CommandBatch) × InputCommandBuffer
  | Frame call =>
    let (result, b) := call.run b
    (result.map fun _ => none, b)
  | PrepareForTick tick =>
    let (result, b) := b.prepare_for_tick tick
    (result.map fun _ => none, b)
  | DrainCommands tick =>
    let (result, b) := b.drain_commands tick
    (result.map some, b)
  | ConsumeCommands tick between =>
    let (result, b) := b.consume_commands tick fun b => FrameCall.all b between
    (result.map some, b)

/-- What frames have done by the end of a call, whatever becomes of it. -/
def BufferCall.frames : BufferCall → List FrameCall
  | ConsumeCommands _ between => between
  | _ => []

/-! ## The ledger -/

/-- The commands that the buffer took, by source, the batches that it gave back, and the tick
of the latest prepare that went through since. -/
structure Ledger where
  accepted : List (String × Command)
  drained : List CommandBatch
  prepared : Option Tick

namespace Ledger

def empty : Ledger := ⟨[], [], none⟩

def accept (l : Ledger) (source : String) (command : Command) : Ledger :=
  { l with accepted := l.accepted ++ [(source, command)] }

def frame (player_id : UInt64) (l : Ledger) : FrameCall → Ledger
  | .SetTick _ => l
  | .Push command => l.accept s!"player_{player_id}" command
  | .PushWithSource source command =>
    if source.is_player then l.accept source.to_source_string command else l

def frames (player_id : UInt64) (l : Ledger) (calls : List FrameCall) : Ledger :=
  calls.foldl (frame player_id) l

def prepare (tick : Tick) (l : Ledger) : BevyBridgeResult Unit → Ledger
  | .ok () => { l with prepared := some tick }
  | .error _ => l

def drain (l : Ledger) : BevyBridgeResult CommandBatch → Ledger
  | .ok batch => { l with drained := l.drained ++ [batch], prepared := none }
  | .error _ => l

/-- A call that the buffer answers. A consume is a prepare, what frames do, and a drain. -/
def call (b : InputCommandBuffer) (l : Ledger) : BufferCall → Ledger
  | .Frame call => l.frame b.player_id call
  | .PrepareForTick tick => l.prepare tick (b.prepare_for_tick tick).1
  | .DrainCommands tick => l.drain (b.drain_commands tick).1
  | .ConsumeCommands tick between =>
    ((l.prepare tick (b.prepare_for_tick tick).1).frames b.player_id between).drain
      (b.consume_commands tick fun b => FrameCall.all b between).1

end Ledger

/-! ## Frames that keep in step -/

/-- The tick that a frame sets is the one that the buffer is at, or no prepare waits for its
drain and the tick is not before the last one that was drained. -/
def FrameCall.InStep (b : InputCommandBuffer) : FrameCall → Prop
  | SetTick tick =>
    tick = b.current_tick ∨ (b.tick_prepared = false ∧ b.last_consumed_tick ≤ tick)
  | _ => True

def FrameCall.AllInStep : InputCommandBuffer → List FrameCall → Prop
  | _, [] => True
  | b, call :: calls => call.InStep b ∧ AllInStep (call.run b).2 calls

def BufferCall.InStep (b : InputCommandBuffer) : BufferCall → Prop
  | Frame call => call.InStep b
  | ConsumeCommands tick between => FrameCall.AllInStep (b.prepare_for_tick tick).2 between
  | _ => True

/-- What has come of a new buffer by calls in which frames keep in step. -/
inductive Buffering (player_id : UInt64) : InputCommandBuffer → Ledger → Prop
  | new : Buffering player_id (InputCommandBuffer.new.set_player_id player_id) .empty
  | call {b : InputCommandBuffer} {l : Ledger} (run : Buffering player_id b l)
      (call : BufferCall) (in_step : call.InStep b) :
    Buffering player_id (call.run b).2 (l.call b call)

/-! ## What the buffer promises -/

/-- The command of an envelope, with its source. -/
def unstamped (envelope : CommandEnvelope) : String × Command :=
  (envelope.source, envelope.command)

structure DeliversAll (b : InputCommandBuffer) (l : Ledger) : Prop where
  /-- What was accepted has been drained once, or is queued, in the order of the pushes. -/
  fifo : l.accepted = (l.drained.flatMap CommandBatch.commands ++ b.queue).map unstamped
  ordered : (l.drained.map CommandBatch.tick).Pairwise (· ≤ ·)
  /-- And the next drain goes on from there. -/
  next_drain : ∀ tick batch b', b.drain_commands tick = (.ok batch, b') →
    batch.tick = tick ∧ l.prepared = some tick ∧ ∀ earlier ∈ l.drained, earlier.tick ≤ tick
  next_consume : ∀ tick between batch b', (BufferCall.ConsumeCommands tick between).InStep b →
    b.consume_commands tick (fun b => FrameCall.all b between) = (.ok batch, b') →
      batch.tick = tick ∧ ∀ earlier ∈ l.drained, earlier.tick ≤ tick
  /-- A call that fails leaves what the frames have made of the buffer meanwhile. -/
  unchanged : ∀ call : BufferCall, call.InStep b → ∀ e b', call.run b = (.error e, b') →
    b' = FrameCall.all b call.frames

/-! ## One call -/

/-- The buffer agrees with the ledger: it is prepared for the tick it is at, and no drain was
for a later one. -/
structure InputCommandBuffer.Agrees (b : InputCommandBuffer) (l : Ledger) : Prop where
  fifo : l.accepted = (l.drained.flatMap CommandBatch.commands ++ b.queue).map unstamped
  ordered : (l.drained.map CommandBatch.tick).Pairwise (· ≤ ·)
  prepared : b.tick_prepared = true → l.prepared = some b.current_tick
  behind : b.last_consumed_tick ≤ b.current_tick
  last : ∀ batch ∈ l.drained, batch.tick ≤ b.last_consumed_tick

variable {b b' : InputCommandBuffer} {l : Ledger} {player_id : UInt64}

theorem agrees_new (player_id : UInt64) :
    (InputCommandBuffer.new.set_player_id player_id).Agrees .empty where
  fifo := rfl
  ordered := List.Pairwise.nil
  prepared h := by cases h
  behind := Nat.le_refl _
  last _ h := by cases h

/-- A push goes to the end of the queue, and moves nothing else. -/
theorem InputCommandBuffer.Agrees.accept (h : b.Agrees l) (source : String) (command : Command) :
    { b with queue := b.queue ++ [⟨b.current_tick, source, command⟩] : InputCommandBuffer }.Agrees
      (l.accept source command) where
  fifo := by
    have hfifo := h.fifo
    simp only [Ledger.accept, hfifo, List.map_append, List.map_cons, List.map_nil, unstamped,
      List.append_assoc]
  ordered := h.ordered
  prepared := h.prepared
  behind := h.behind
  last := h.last

theorem InputCommandBuffer.Agrees.frame (h : b.Agrees l) {call : FrameCall}
    (in_step : call.InStep b) : (call.run b).2.Agrees (l.frame b.player_id call) := by
  cases call with
  | SetTick tick =>
      refine ⟨h.fifo, h.ordered, ?_, ?_, h.last⟩
      · intro hprepared
        -- the tick may change only where no prepare waits for its drain
        obtain rfl | ⟨hidle, -⟩ := in_step
        · exact h.prepared hprepared
        · have hidle' : b.tick_prepared = true := hprepared
          rw [hidle] at hidle'
          cases hidle'
      · obtain rfl | ⟨-, hlater⟩ := in_step
        · exact h.behind
        · exact hlater
  | Push command => exact h.accept _ command
  | PushWithSource source command =>
      rcases hplayer : source.is_player with _ | _
      · simp only [FrameCall.run, push_with_source, Ledger.frame, hplayer, Bool.not_false, if_true,
          Bool.false_eq_true, if_false]
        exact h
      · simp only [FrameCall.run, push_with_source, Ledger.frame, hplayer, Bool.not_true, if_true,
          Bool.false_eq_true, if_false]
        exact h.accept _ command

theorem FrameCall.player_id_run (b : InputCommandBuffer) (call : FrameCall) :
    (call.run b).2.player_id = b.player_id := by
  cases call with
  | SetTick tick => rfl
  | Push command => rfl
  | PushWithSource source command =>
      simp only [run, push_with_source]
      split <;> rfl

theorem InputCommandBuffer.Agrees.frames {calls : List FrameCall} (h : b.Agrees l)
    (in_step : FrameCall.AllInStep b calls) :
    (FrameCall.all b calls).Agrees (l.frames b.player_id calls) := by
  induction calls generalizing b l with
  | nil => exact h
  | cons call calls ih =>
      have hrest := ih (h.frame in_step.1) in_step.2
      rwa [FrameCall.player_id_run] at hrest

/-- Frames in step leave a prepared buffer prepared, for the same tick. -/
theorem FrameCall.prepared_all {calls : List FrameCall} (hprepared : b.tick_prepared = true)
    (in_step : AllInStep b calls) :
    (all b calls).tick_prepared = true ∧ (all b calls).current_tick = b.current_tick := by
  induction calls generalizing b with
  | nil => exact ⟨hprepared, rfl⟩
  | cons call calls ih =>
      -- a frame in step that sets a tick now sets the one that is prepared
      have hone : (call.run b).2.tick_prepared = true
          ∧ (call.run b).2.current_tick = b.current_tick := by
        cases call with
        | SetTick tick =>
            obtain rfl | ⟨hidle, -⟩ := in_step.1
            · exact ⟨hprepared, rfl⟩
            · rw [hprepared] at hidle
              cases hidle
        | Push command => exact ⟨hprepared, rfl⟩
        | PushWithSource source command =>
            simp only [run, push_with_source]
            split <;> exact ⟨hprepared, rfl⟩
      have hrest := ih hone.1 in_step.2
      exact ⟨hrest.1, hrest.2.trans hone.2⟩

theorem prepare_error {tick : Tick} {e : BevyBridgeError}
    (h : b.prepare_for_tick tick = (.error e, b')) : b' = b := by
  unfold prepare_for_tick at h
  split at h
  · exact (Prod.mk.inj h).2.symm
  · cases h

theorem prepare_ok {tick : Tick} (h : b.prepare_for_tick tick = (.ok (), b')) :
    b.current_tick ≤ tick ∧ b' = { b with current_tick := tick, tick_prepared := true } := by
  unfold prepare_for_tick at h
  split at h
  · cases h
  · rename_i hback
    exact ⟨Nat.le_of_not_lt hback, (Prod.mk.inj h).2.symm⟩

theorem drain_error {tick : Tick} {e : BevyBridgeError}
    (h : b.drain_commands tick = (.error e, b')) : b' = b := by
  unfold drain_commands at h
  split at h
  · exact (Prod.mk.inj h).2.symm
  split at h
  · exact (Prod.mk.inj h).2.symm
  · cases h

theorem drain_ok {tick : Tick} {batch : CommandBatch}
    (h : b.drain_commands tick = (.ok batch, b')) :
    b.tick_prepared = true ∧ b.current_tick = tick ∧ batch = ⟨tick, b.queue⟩
      ∧ b' = { b with queue := [], last_consumed_tick := tick, tick_prepared := false } := by
  unfold drain_commands at h
  split at h
  · cases h
  rename_i hprepared
  split at h
  · cases h
  rename_i hsame
  obtain ⟨hbatch, rfl⟩ := Prod.mk.inj h
  exact ⟨by simpa using hprepared, (not_not.1 hsame).symm, (Except.ok.inj hbatch).symm, rfl⟩

theorem drain_prepared {tick : Tick} (hprepared : b.tick_prepared = true)
    (hsame : b.current_tick = tick) : b.drain_commands tick = (.ok ⟨tick, b.queue⟩,
      { b with queue := [], last_consumed_tick := tick, tick_prepared := false }) := by
  simp [drain_commands, hprepared, hsame]

theorem InputCommandBuffer.Agrees.prepare (h : b.Agrees l) (tick : Tick) :
    (b.prepare_for_tick tick).2.Agrees (l.prepare tick (b.prepare_for_tick tick).1) := by
  rcases hrun : b.prepare_for_tick tick with ⟨e | ⟨⟩, b'⟩
  · rw [prepare_error hrun]
    exact h
  · obtain ⟨hlater, rfl⟩ := prepare_ok hrun
    exact ⟨h.fifo, h.ordered, fun _ => rfl, Nat.le_trans h.behind hlater, h.last⟩

/-- A drain that goes through gives back the whole queue, at the tick that was prepared. -/
theorem InputCommandBuffer.Agrees.drain (h : b.Agrees l) (tick : Tick) :
    (b.drain_commands tick).2.Agrees (l.drain (b.drain_commands tick).1) := by
  rcases hrun : b.drain_commands tick with ⟨e | batch, b'⟩
  · rw [drain_error hrun]
    exact h
  · obtain ⟨-, hsame, rfl, rfl⟩ := drain_ok hrun
    have hbehind : b.last_consumed_tick ≤ tick := by
      rw [← hsame]
      exact h.behind
    -- the queue goes into the drained part as a whole, and the flag is taken back
    refine ⟨?_, ?_, (fun hprepared => by cases hprepared), ?_, ?_⟩
    · have hfifo := h.fifo
      simp only [Ledger.drain, hfifo, List.flatMap_append, List.flatMap_cons, List.flatMap_nil,
        List.append_nil]
    · simp only [Ledger.drain, List.map_append, List.map_cons, List.map_nil]
      refine List.pairwise_append.2 ⟨h.ordered, List.pairwise_singleton _ _, ?_⟩
      intro earlier hearlier later hlater
      obtain ⟨batch, hbatch, rfl⟩ := List.mem_map.1 hearlier
      rw [List.mem_singleton.1 hlater]
      exact Nat.le_trans (h.last batch hbatch) hbehind
    · exact Nat.le_of_eq hsame.symm
    · intro batch hbatch
      obtain hold | hnew := List.mem_append.1 hbatch
      · exact Nat.le_trans (h.last batch hold) hbehind
      · obtain rfl := List.mem_singleton.1 hnew
        exact Nat.le_refl _

/-- A consume whose prepare is refused does nothing more, and otherwise goes on to the drain. -/
theorem consume_eq (b : InputCommandBuffer) (tick : Tick)
    (between : InputCommandBuffer → InputCommandBuffer) :
    (∃ e, b.prepare_for_tick tick = (.error e, b)
        ∧ b.consume_commands tick between = (.error e, between b))
      ∨ ∃ b', b.prepare_for_tick tick = (.ok (), b')
        ∧ b.consume_commands tick between = (between b').drain_commands tick := by
  unfold consume_commands
  rcases hrun : b.prepare_for_tick tick with ⟨e | ⟨⟩, b'⟩
  · obtain rfl := prepare_error hrun
    exact .inl ⟨e, rfl, rfl⟩
  · exact .inr ⟨b', rfl, rfl⟩

theorem InputCommandBuffer.Agrees.call (h : b.Agrees l) {call : BufferCall}
    (in_step : call.InStep b) : (call.run b).2.Agrees (l.call b call) := by
  cases call with
  | Frame call => exact h.frame in_step
  | PrepareForTick tick => exact h.prepare tick
  | DrainCommands tick => exact h.drain tick
  | ConsumeCommands tick between =>
      have hprepared := h.prepare tick
      simp only [BufferCall.InStep] at in_step
      obtain ⟨e, hrefused, hconsume⟩ | ⟨b', hran, hconsume⟩ :=
        consume_eq b tick fun b => FrameCall.all b between
      · rw [hrefused] at in_step
        simp only [BufferCall.run, Ledger.call, hrefused, hconsume, Ledger.prepare, Ledger.drain]
        exact h.frames in_step
      · rw [hran] at in_step hprepared
        have hplayer : b'.player_id = b.player_id := by
          obtain ⟨-, rfl⟩ := prepare_ok hran
          rfl
        have hframes := hprepared.frames in_step
        rw [hplayer] at hframes
        simp only [BufferCall.run, Ledger.call, hran, hconsume]
        exact hframes.drain tick

/-! ## All calls -/

theorem Buffering.agrees (run : Buffering player_id b l) : b.Agrees l := by
  induction run with
  | new => exact agrees_new player_id
  | call _ call in_step ih => exact ih.call in_step

/-- A call in step that fails has done nothing. -/
theorem unchanged_of_error {call : BufferCall} (in_step : call.InStep b) {e : BevyBridgeError}
    (h : call.run b = (.error e, b')) : b' = FrameCall.all b call.frames := by
  cases call with
  | Frame call =>
      cases call with
      | SetTick tick => cases (Prod.mk.inj h).1
      | Push command => cases (Prod.mk.inj h).1
      | PushWithSource source command =>
          simp only [BufferCall.run, FrameCall.run, push_with_source] at h
          split at h
          · exact (Prod.mk.inj h).2.symm
          · cases (Prod.mk.inj h).1
  | PrepareForTick tick =>
      rcases hrun : b.prepare_for_tick tick with ⟨e' | ⟨⟩, after⟩
      · simp only [BufferCall.run, hrun] at h
        obtain ⟨-, rfl⟩ := Prod.mk.inj h
        exact prepare_error hrun
      · simp only [BufferCall.run, hrun] at h
        cases (Prod.mk.inj h).1
  | DrainCommands tick =>
      rcases hrun : b.drain_commands tick with ⟨e' | batch, after⟩
      · simp only [BufferCall.run, hrun] at h
        obtain ⟨-, rfl⟩ := Prod.mk.inj h
        exact drain_error hrun
      · simp only [BufferCall.run, hrun] at h
        cases (Prod.mk.inj h).1
  | ConsumeCommands tick between =>
      obtain ⟨e', -, hconsume⟩ | ⟨after, hran, hconsume⟩ :=
        consume_eq b tick fun b => FrameCall.all b between
      · simp only [BufferCall.run, hconsume] at h
        exact (Prod.mk.inj h).2.symm
      · -- the drain that follows finds the tick that has just been prepared
        simp only [BufferCall.InStep, hran] at in_step
        obtain ⟨-, rfl⟩ := prepare_ok hran
        obtain ⟨hprepared, hsame⟩ := FrameCall.prepared_all rfl in_step
        simp only [BufferCall.run, hconsume, drain_prepared hprepared hsame] at h
        cases (Prod.mk.inj h).1

/-- As long as frames keep in step with the scheduler, every command that is accepted comes
back from one drain, or is waiting for it, and the drains are those that were prepared. -/
theorem buffering_delivers (run : Buffering player_id b l) : DeliversAll b l := by
  have h := run.agrees
  refine ⟨h.fifo, h.ordered, ?_, ?_, fun call in_step e b' => unchanged_of_error in_step⟩
  · intro tick batch b' hdrain
    obtain ⟨hprepared, rfl, rfl, -⟩ := drain_ok hdrain
    exact ⟨rfl, h.prepared hprepared,
      fun earlier hearlier => Nat.le_trans (h.last earlier hearlier) h.behind⟩
  · intro tick between batch b' in_step hran
    obtain ⟨e, -, hconsume⟩ | ⟨after, hprepare, hconsume⟩ :=
      consume_eq b tick fun b => FrameCall.all b between
    · rw [hconsume] at hran
      cases (Prod.mk.inj hran).1
    · rw [hconsume] at hran
      obtain ⟨-, -, rfl, -⟩ := drain_ok hran
      obtain ⟨hlater, -⟩ := prepare_ok hprepare
      exact ⟨rfl, fun earlier hearlier =>
        Nat.le_trans (h.last earlier hearlier) (Nat.le_trans h.behind hlater)⟩

/-- A frame out of step lets a drain through that it should not: one that nobody has
prepared, or one for a tick before the last that was drained. -/
theorem out_of_step_defeats {tick : Tick} (h : ¬ (FrameCall.SetTick tick).InStep b) :
    (b.tick_prepared = true ∧ b.current_tick ≠ tick
        ∧ ((b.set_tick tick).drain_commands tick).1 = .ok ⟨tick, b.queue⟩)
      ∨ (tick < b.last_consumed_tick ∧ ∃ b', (b.set_tick tick).prepare_for_tick tick = (.ok (), b')
        ∧ (b'.drain_commands tick).1 = .ok ⟨tick, b.queue⟩) := by
  obtain ⟨hne, hlate⟩ := not_or.1 h
  rcases hprepared : b.tick_prepared with _ | _
  · refine .inr ⟨Nat.lt_of_not_le fun hle => hlate ⟨hprepared, hle⟩,
      { b with current_tick := tick, tick_prepared := true }, ?_, ?_⟩
    · simp [prepare_for_tick, set_tick]
    · simp [drain_commands]
  · exact .inl ⟨rfl, Ne.symm hne, by simp [drain_commands, set_tick, hprepared]⟩

/-! ## A frame between the prepare and the drain -/

/-- Two pushes, one on either side of a boundary, and a frame that tells the buffer again
what tick it is at. -/
theorem two_pushes_delivered : ∃ (b : InputCommandBuffer) (l : Ledger),
    DeliversAll b l ∧ l.drained.map CommandBatch.tick = [3] ∧ l.accepted.length = 2
      ∧ b.queue.length = 1 := by
  have run₀ : Buffering 7 _ _ := .new
  have run₁ := run₀.call (.Frame (.Push (.DeleteRow "items" 1))) trivial
  have run₂ := run₁.call (.ConsumeCommands 3 [.SetTick 3]) ⟨.inl rfl, trivial⟩
  have run₃ := run₂.call (.Frame (.Push (.DeleteRow "items" 2))) trivial
  exact ⟨_, _, buffering_delivers run₃, rfl, rfl, rfl⟩

/-- The buffer is prepared for tick 5, a frame sets tick 7, and tick 7 is drained; the same
frame inside a consume of tick 5 makes it fail after its prepare; and a frame that sets tick 3
after this drain makes the next one go back. -/
theorem drained_unprepared :
    let prepared := (InputCommandBuffer.new.prepare_for_tick 5).2
    let (batch, drained) := (prepared.set_tick 7).drain_commands 7
    let (consumed, failed) := InputCommandBuffer.new.consume_commands 5 (set_tick 7)
    (InputCommandBuffer.new.prepare_for_tick 5).1 = .ok ()
      ∧ batch.map CommandBatch.tick = .ok 7
      ∧ consumed.map CommandBatch.tick = .error (.TickAlignmentError 7 5 "tick mismatch")
      ∧ failed.tick_prepared = true ∧ (InputCommandBuffer.new.set_tick 7).tick_prepared = false
      ∧ drained.last_consumed_tick = 7
      ∧ ((drained.set_tick 3).prepare_for_tick 3).1 = .ok ()
      ∧ (((drained.set_tick 3).prepare_for_tick 3).2.drain_commands 3).1.map CommandBatch.tick
        = .ok 3 :=
  ⟨rfl, rfl, rfl, rfl, rfl, rfl, rfl, rfl⟩

end Scharnhorst
