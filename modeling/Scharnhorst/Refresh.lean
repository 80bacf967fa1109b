/-
Which consumers a broadcast reaches.

The bus calls its consumers one after the other, in the order in which a hash map lists
them, and leaves at the first one that fails. The consumers that the map lists after it are
not called for this commit, and the next broadcast is that of the next one.
-/
import Scharnhorst.Rollback

set_option autoImplicit false

namespace Scharnhorst

open Attempt

variable {Q J S : Type}

namespace RefreshSignalBus

/-- `RefreshSignalBus::broadcast`, over the consumers in the order in which they are listed. -/
def broadcast (consumers : RwLock (List (String × RefreshCallback S))) (tick generation : UInt64)
    (kept : S) : SchedulerResult Unit × S :=
  match Scheduler.lock "refresh signal" consumers with
  | .error e => (.error e, kept)
  | .ok snapshot => forEach (Scheduler.call_consumer tick generation) kept snapshot

end RefreshSignalBus

open RefreshSignalBus

theorem Scheduler.broadcast_refresh_eq (sch : Scheduler Q J S) (tick generation : UInt64) :
    sch.broadcast_refresh tick generation
      = ((broadcast sch.refresh_bus tick generation sch.kept).1,
          { sch with kept := (broadcast sch.refresh_bus tick generation sch.kept).2 }) := by
  unfold broadcast_refresh broadcast
  rcases lock "refresh signal" sch.refresh_bus with e | consumers <;> rfl

/-- A tick that has committed broadcasts once, the tick it committed. -/
theorem Scheduler.tick_broadcasts [Render] {ingestor : SnapshotIngestor Q} {saver : SaveJournal J}
    {sch mid : Scheduler Q J S} {result : CommitResult}
    (h : sch.tick_to_commit ingestor saver = (.ok result, mid)) :
    (sch.tick ingestor saver).2 = { mid.advance_tick with
      kept := (broadcast mid.refresh_bus result.tick.toUInt64 mid.generation mid.kept).2 } := by
  have hbroadcast := mid.advance_tick.broadcast_refresh_eq result.tick.toUInt64 mid.generation
  simp only [tick, h]
  rcases hrun : mid.advance_tick.broadcast_refresh result.tick.toUInt64 mid.advance_tick.generation
    with ⟨e | ⟨⟩, after⟩
  all_goals exact congrArg Prod.snd (hrun.symm.trans hbroadcast)

/-! ## A record of the calls -/

/-- One call of a callback: whose, with what, and whether it acknowledged. -/
structure RefreshCall where
  consumer : String
  tick : UInt64
  generation : UInt64
  acknowledged : Bool
deriving DecidableEq

/-- A consumer whose calls are written down. -/
def on_record (consumer : String × RefreshCallback S) :
    String × RefreshCallback (S × List RefreshCall) :=
  (consumer.1, fun kept tick generation =>
    let (result, s) := consumer.2 kept.1 tick generation
    (result, (s, kept.2 ++ [⟨consumer.1, tick, generation, result.isOk⟩])))

/-- The calls that a broadcast makes. -/
def refresh_calls (consumers : RwLock (List (String × RefreshCallback S)))
    (tick generation : UInt64) (kept : S) : List RefreshCall :=
  (broadcast ⟨consumers.data.map on_record, consumers.poisoned⟩ tick generation (kept, [])).2.2

/-- One consumer: its callback is called, and what it says is what the round says. -/
theorem call_recorded (tick generation : UInt64) (kept : S) (calls : List RefreshCall)
    (consumer : String × RefreshCallback S) :
    let result := Scheduler.call_consumer tick generation kept consumer
    Scheduler.call_consumer tick generation (kept, calls) (on_record consumer)
      = (result.1, (result.2, calls ++ [⟨consumer.1, tick, generation, result.1.isOk⟩])) := by
  rcases hcall : consumer.2 kept tick generation with ⟨e | ⟨⟩, s⟩
  all_goals simp [Scheduler.call_consumer, on_record, hcall, Except.isOk, Except.toBool]

/-! ## Everyone is called -/

/-- Every consumer with another one listed after it acknowledges when its turn comes. -/
def HeardOut (tick generation : UInt64) : S → List (String × RefreshCallback S) → Prop
  | _, [] => True
  | _, [_] => True
  | kept, consumer :: next :: rest =>
    (consumer.2 kept tick generation).1 = .ok ()
      ∧ HeardOut tick generation (consumer.2 kept tick generation).2 (next :: rest)

/-- Each consumer is called once, with the tick and the generation, and the broadcast goes
through exactly when all of them acknowledge. -/
structure RefreshesAll (consumers : RwLock (List (String × RefreshCallback S)))
    (tick generation : UInt64) (kept : S) : Prop where
  called : (refresh_calls consumers tick generation kept).map
      (fun call => (call.consumer, call.tick, call.generation))
    = consumers.data.map fun consumer => (consumer.1, tick, generation)
  verdict : (broadcast consumers tick generation kept).1 = .ok ()
    ↔ ∀ call ∈ refresh_calls consumers tick generation kept, call.acknowledged = true

/-- The calls that the loop makes: up to the first consumer that fails. -/
def calls_made (tick generation : UInt64) : S → List (String × RefreshCallback S) →
    List RefreshCall
  | _, [] => []
  | kept, consumer :: rest =>
    let (result, s) := Scheduler.call_consumer tick generation kept consumer
    ⟨consumer.1, tick, generation, result.isOk⟩
      :: if result.isOk then calls_made tick generation s rest else []

theorem forEach_recorded (tick generation : UInt64) (kept : S) (calls : List RefreshCall)
    (consumers : List (String × RefreshCallback S)) :
    forEach (Scheduler.call_consumer tick generation) (kept, calls) (consumers.map on_record)
      = ((forEach (Scheduler.call_consumer tick generation) kept consumers).1,
          (forEach (Scheduler.call_consumer tick generation) kept consumers).2,
          calls ++ calls_made tick generation kept consumers) := by
  induction consumers generalizing kept calls with
  | nil => simp [calls_made]
  | cons consumer rest ih =>
      have hcall := call_recorded tick generation kept calls consumer
      rw [List.map_cons]
      unfold calls_made
      rcases hrun : Scheduler.call_consumer tick generation kept consumer with ⟨e | ⟨⟩, s⟩
      · rw [hrun] at hcall
        rw [forEach_cons_of_error hcall, forEach_cons_of_error hrun]
        rfl
      · rw [hrun] at hcall
        rw [forEach_cons_of_ok hcall, forEach_cons_of_ok hrun, ih]
        simp [Except.isOk, Except.toBool]

theorem refresh_calls_eq {consumers : RwLock (List (String × RefreshCallback S))}
    (tick generation : UInt64) (kept : S) (h : consumers.poisoned = false) :
    refresh_calls consumers tick generation kept
      = calls_made tick generation kept consumers.data := by
  have hlock : Scheduler.lock "refresh signal" ⟨consumers.data.map on_record, consumers.poisoned⟩
      = .ok (consumers.data.map on_record) := Scheduler.lock_healthy h
  unfold refresh_calls broadcast
  rw [hlock]
  simp only [forEach_recorded, List.nil_append]

/-- The loop stops at a call that fails, and at no other place. -/
theorem loop_ok_iff (tick generation : UInt64) (kept : S)
    (consumers : List (String × RefreshCallback S)) :
    (forEach (Scheduler.call_consumer tick generation) kept consumers).1 = .ok ()
      ↔ ∀ call ∈ calls_made tick generation kept consumers, call.acknowledged = true := by
  induction consumers generalizing kept with
  | nil => simp [calls_made]
  | cons consumer rest ih =>
      unfold calls_made
      rcases hrun : Scheduler.call_consumer tick generation kept consumer with ⟨e | ⟨⟩, s⟩
      · rw [forEach_cons_of_error hrun]
        simp [Except.isOk, Except.toBool]
      · rw [forEach_cons_of_ok hrun, ih]
        simp [Except.isOk, Except.toBool]

theorem call_consumer_isOk (tick generation : UInt64) (kept : S)
    (consumer : String × RefreshCallback S) :
    (Scheduler.call_consumer tick generation kept consumer).1.isOk = true
        ↔ (consumer.2 kept tick generation).1 = .ok ()
      := by
  unfold Scheduler.call_consumer
  rcases consumer.2 kept tick generation with ⟨e | ⟨⟩, s⟩ <;> simp [Except.isOk, Except.toBool]

theorem call_consumer_kept (tick generation : UInt64) (kept : S)
    (consumer : String × RefreshCallback S) :
    (Scheduler.call_consumer tick generation kept consumer).2
      = (consumer.2 kept tick generation).2 := by
  unfold Scheduler.call_consumer
  rcases consumer.2 kept tick generation with ⟨e | ⟨⟩, s⟩ <;> rfl

theorem calls_made_all_iff (tick generation : UInt64) (kept : S)
    (consumers : List (String × RefreshCallback S)) :
    (calls_made tick generation kept consumers).map
        (fun call => (call.consumer, call.tick, call.generation))
      = consumers.map (fun consumer => (consumer.1, tick, generation))
      ↔ HeardOut tick generation kept consumers := by
  induction consumers generalizing kept with
  | nil => simp [calls_made, HeardOut]
  | cons consumer rest ih =>
      rcases rest with _ | ⟨next, rest⟩
      · unfold calls_made
        simp [HeardOut, calls_made]
      · unfold calls_made HeardOut
        rw [← call_consumer_isOk, ← call_consumer_kept, ← ih]
        by_cases hok : (Scheduler.call_consumer tick generation kept consumer).1.isOk = true
        · simp [hok]
        · simp [hok]

/-- Every consumer is refreshed exactly when the lock of the bus is healthy and none fails
that another one is listed after. -/
theorem refreshes_all_iff (consumers : RwLock (List (String × RefreshCallback S)))
    (tick generation : UInt64) (kept : S) :
    RefreshesAll consumers tick generation kept
      ↔ consumers.poisoned = false ∧ HeardOut tick generation kept consumers.data := by
  rcases hpoisoned : consumers.poisoned with _ | _
  · have hcalls := refresh_calls_eq tick generation kept hpoisoned
    have hbroadcast : (broadcast consumers tick generation kept).1
        = (forEach (Scheduler.call_consumer tick generation) kept consumers.data).1 := by
      unfold broadcast
      rw [Scheduler.lock_healthy hpoisoned]
    constructor
    · intro h
      have hcalled := h.called
      rw [hcalls] at hcalled
      exact ⟨rfl, (calls_made_all_iff tick generation kept consumers.data).1 hcalled⟩
    · rintro ⟨-, hheard⟩
      refine ⟨?_, ?_⟩
      · rw [hcalls]
        exact (calls_made_all_iff tick generation kept consumers.data).2 hheard
      · rw [hcalls, hbroadcast]
        exact loop_ok_iff tick generation kept consumers.data
  · -- nobody is called, and nobody has refused
    refine ⟨fun h => ?_, fun h => by cases h.1⟩
    have hnone : refresh_calls consumers tick generation kept = [] := by
      simp [refresh_calls, broadcast, Scheduler.lock, RwLock.read, hpoisoned, Except.mapError]
    have hverdict := h.verdict.2 (by simp [hnone])
    simp [broadcast, Scheduler.lock, RwLock.read, hpoisoned, Except.mapError] at hverdict

/-! ## A consumer that fails -/

/-- The bridge has lost the lock of its cache, and the evaluator has not. -/
def two_consumers : List (String × RefreshCallback Unit) :=
  [("bridge", fun kept _ _ => (.error (.Generic "cache lock poisoned"), kept)),
    ("evaluator", fun kept _ _ => (.ok (), kept))]

theorem evaluator_not_refreshed :
    refresh_calls (.new two_consumers) 0 1 () = [⟨"bridge", 0, 1, false⟩]
      ∧ ¬ RefreshesAll (.new two_consumers) 0 1 () := by
  have hcalls : refresh_calls (.new two_consumers) 0 1 () = [⟨"bridge", 0, 1, false⟩] := rfl
  refine ⟨hcalls, fun h => ?_⟩
  have hlength := congrArg List.length h.called
  rw [hcalls] at hlength
  simp [two_consumers, RwLock.new] at hlength

/-- Listed the other way round they are both called. -/
example : (refresh_calls (.new two_consumers.reverse) 0 1 ()).length = 2 := rfl

end Scharnhorst
