/-
The input buffer: what frames push, and what the driver drains at a tick boundary.

A command is stamped when it is pushed, with the tick that the buffer was last told of.
The buffer is told of a tick by a frame, through `set_tick`, or by the driver, through
`prepare_for_tick`. No call unwinds while it holds the mutex of the source, so the mutex
is never poisoned, and the buffer stands here without it.
-/
import Scharnhorst.Journal

set_option autoImplicit false

namespace Scharnhorst

/-! ## Sources and batches -/

inductive CommandSource where
  | Player (player_id : UInt64)
  | Ai (ai_id : String)
  | Internal (system : String)
deriving DecidableEq

namespace CommandSource

def is_player : CommandSource → Bool
  | Player _ => true
  | _ => false

def to_source_string : CommandSource → String
  | Player player_id => s!"player_{player_id}"
  | Ai ai_id => s!"ai_{ai_id}"
  | Internal system => s!"internal_{system}"

end CommandSource

structure CommandBatch where
  tick : Tick
  commands : List CommandEnvelope

/-- `BevyBridgeError`, as far as the buffer raises it. -/
inductive BevyBridgeError where
  | NonPlayerCommandRejected
  | TickAlignmentError (expected actual : Tick) (reason : String)
deriving DecidableEq

abbrev BevyBridgeResult := Except BevyBridgeError

/-! ## The buffer -/

structure InputCommandBuffer where
  queue : List CommandEnvelope
  current_tick : Tick
  player_id : UInt64
  last_consumed_tick : Tick
  tick_prepared : Bool

namespace InputCommandBuffer

def new : InputCommandBuffer :=
  { queue := []
    current_tick := .ZERO
    player_id := 0
    last_consumed_tick := .ZERO
    tick_prepared := false }

def set_player_id (player_id : UInt64) (b : InputCommandBuffer) : InputCommandBuffer :=
  { b with player_id }

def set_tick (tick : Tick) (b : InputCommandBuffer) : InputCommandBuffer :=
  { b with current_tick := tick }

def prepare_for_tick (tick : Tick) (b : InputCommandBuffer) :
    BevyBridgeResult Unit × InputCommandBuffer :=
  if tick < b.current_tick then
    (.error (.TickAlignmentError b.current_tick tick "tick cannot go backwards"), b)
  else (.ok (), { b with current_tick := tick, tick_prepared := true })

def push (command : Command) (b : InputCommandBuffer) : InputCommandBuffer :=
  { b with queue := b.queue ++ [⟨b.current_tick, s!"player_{b.player_id}", command⟩] }

/-- `push_with_source`, and `submit_player_command`, which is the same. -/
def push_with_source (source : CommandSource) (command : Command) (b : InputCommandBuffer) :
    BevyBridgeResult Unit × InputCommandBuffer :=
  if !source.is_player then (.error .NonPlayerCommandRejected, b)
  else
    let envelope := ⟨b.current_tick, source.to_source_string, command⟩
    (.ok (), { b with queue := b.queue ++ [envelope] })

def drain_commands (tick : Tick) (b : InputCommandBuffer) :
    BevyBridgeResult CommandBatch × InputCommandBuffer :=
  if !b.tick_prepared then
    (.error (.TickAlignmentError tick b.current_tick
      "prepare_for_tick must be called before drain_commands"), b)
  else if tick ≠ b.current_tick then
    (.error (.TickAlignmentError b.current_tick tick "tick mismatch"), b)
  else
    (.ok { tick, commands := b.queue },
      { b with queue := [], last_consumed_tick := tick, tick_prepared := false })

/-- `consume_commands`. It takes the mutex twice, and `between` is what others do to the
buffer after the first time. -/
def consume_commands (tick : Tick) (between : InputCommandBuffer → InputCommandBuffer)
    (b : InputCommandBuffer) : BevyBridgeResult CommandBatch × InputCommandBuffer :=
  match b.prepare_for_tick tick with
  | (.error e, b) => (.error e, between b)
  | (.ok (), b) => (between b).drain_commands tick

end InputCommandBuffer

end Scharnhorst
