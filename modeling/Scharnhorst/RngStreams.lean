/-
The words that one random stream gives, and the streams of one system at different ticks.

The state of a stream walks by an odd step, so it meets every word before it comes back, and
an output is a one-to-one mix of the state. The seed is found the same way: each byte of the
system's id changes the state by an xor and a step, and neither forgets the tick.
-/
import Scharnhorst.Rng
import Scharnhorst.WordMixing

set_option autoImplicit false

namespace Scharnhorst

open WordMixing

/-! ## One step -/

namespace SplitMix64

/-- What `next_u64` does to the state after its step. -/
def mix (z : UInt64) : UInt64 :=
  let z := (z ^^^ (z >>> 30)) * 0xbf58476d1ce4e5b9
  let z := (z ^^^ (z >>> 27)) * 0x94d049bb133111eb
  z ^^^ (z >>> 31)

@[simp] theorem next_u64_output (sm : SplitMix64) :
    sm.next_u64.1 = mix (sm.state + 0x9e3779b97f4a7c15) := rfl

@[simp] theorem next_u64_state (sm : SplitMix64) :
    sm.next_u64.2.state = sm.state + 0x9e3779b97f4a7c15 := rfl

theorem xor_shift_injective {k : UInt64} (hk : 0 < k.toNat % 64) :
    Function.Injective fun z : UInt64 => z ^^^ (z >>> k) := by
  intro x y h
  apply UInt64.eq_of_toBitVec_eq
  have hbits := congrArg UInt64.toBitVec h
  simp only [UInt64.toBitVec_xor, UInt64.toBitVec_shiftRight, BitVec.ushiftRight_eq'] at hbits
  refine xor_ushiftRight_injective ?_ hbits
  simpa using hk

theorem mul_injective {c : UInt64} (hc : Odd c.toNat) :
    Function.Injective fun z : UInt64 => z * c := by
  intro x y h
  apply UInt64.eq_of_toBitVec_eq
  have hbits := congrArg UInt64.toBitVec h
  simp only [UInt64.toBitVec_mul] at hbits
  exact mul_injective_of_odd hc hbits

theorem mix_injective : Function.Injective mix := by
  have first := mul_injective (c := 0xbf58476d1ce4e5b9) (by decide)
  have second := mul_injective (c := 0x94d049bb133111eb) (by decide)
  have shift30 := xor_shift_injective (k := 30) (by decide)
  have shift27 := xor_shift_injective (k := 27) (by decide)
  have shift31 := xor_shift_injective (k := 31) (by decide)
  exact shift31.comp (second.comp (shift27.comp (first.comp shift30)))

end SplitMix64

/-! ## The seed -/

namespace DeterministicRng

open SplitMix64

/-- The seed from the bytes of the id. -/
def seed_of_bytes (bytes : List UInt8) (tick : UInt64) : UInt64 :=
  let sm := bytes.foldl (fun (sm : SplitMix64) byte =>
    let sm : SplitMix64 := ⟨sm.state ^^^ byte.toUInt64 * 0x9e3779b97f4a7c15⟩
    sm.next_u64.2) (SplitMix64.new tick)
  sm.next_u64.1

/-- Two states that differ before a byte differ after it. -/
theorem byte_step_injective (byte : UInt8) :
    Function.Injective fun sm : SplitMix64 =>
      (SplitMix64.mk (sm.state ^^^ byte.toUInt64 * 0x9e3779b97f4a7c15)).next_u64.2 := by
  intro x y h
  have hstate := congrArg SplitMix64.state h
  simp only [next_u64_state] at hstate
  have hxor := (UInt64.add_left_inj _).mp hstate
  have heq : x.state = y.state := (UInt64.xor_left_inj _).mp hxor
  cases x
  cases y
  exact congrArg SplitMix64.mk heq

theorem seed_of_bytes_injective (bytes : List UInt8) : Function.Injective (seed_of_bytes bytes) := by
  have hfold : Function.Injective fun sm : SplitMix64 =>
      bytes.foldl (fun (sm : SplitMix64) byte =>
        (SplitMix64.mk (sm.state ^^^ byte.toUInt64 * 0x9e3779b97f4a7c15)).next_u64.2) sm := by
    induction bytes with
    | nil => exact Function.injective_id
    | cons byte bytes ih => exact ih.comp (byte_step_injective byte)
  intro s t h
  have hmixed := mix_injective h
  have hstate := (UInt64.add_left_inj _).mp hmixed
  have hsm := hfold (congrArg SplitMix64.mk hstate)
  exact congrArg SplitMix64.state hsm

/-! ## The stream -/

def next_u64 (rng : DeterministicRng) : UInt64 × DeterministicRng :=
  (rng.rng.next_u64.1, { rng with rng := rng.rng.next_u64.2 })

/-- The stream after `n` calls of `next_u64`. -/
def after (rng : DeterministicRng) : Nat → DeterministicRng
  | 0 => rng
  | n + 1 => (rng.after n).next_u64.2

/-- What call number `n` gives, the first being number 0. -/
def output (rng : DeterministicRng) (n : Nat) : UInt64 := (rng.after n).next_u64.1

theorem after_state (rng : DeterministicRng) (n : Nat) :
    (rng.after n).rng.state.toBitVec
      = rng.rng.state.toBitVec + BitVec.ofNat 64 n * 0x9e3779b97f4a7c15#64 := by
  induction n with
  | zero => simp [after]
  | succ n ih =>
    have hstep : (rng.after (n + 1)).rng.state
        = (rng.after n).rng.state + 0x9e3779b97f4a7c15 := rfl
    rw [hstep, UInt64.toBitVec_add, ih, BitVec.ofNat_add, BitVec.add_mul, BitVec.add_assoc]
    simp

theorem output_injOn (rng : DeterministicRng) : Set.InjOn rng.output (Set.Iio (2 ^ 64)) := by
  intro m hm n hn h
  have hmixed := mix_injective h
  have hstate := (UInt64.add_left_inj _).mp hmixed
  have hbits := congrArg UInt64.toBitVec hstate
  rw [after_state, after_state] at hbits
  exact walk_injOn _ (by decide) hm hn hbits

/-- At two ticks a system gets two seeds and two first outputs, and no stream repeats
itself before its 2^64 words are all given. -/
theorem streams_differ (system_id : String) (bytes : List UInt8) (stream : DeterministicRng) :
    (Function.Injective fun tick => (new system_id tick).rng.state)
      ∧ (Function.Injective fun tick => (new system_id tick).output 0)
      ∧ Function.Injective (seed_of_bytes bytes)
      ∧ (Function.Injective fun tick => (SplitMix64.new (seed_of_bytes bytes tick)).next_u64.1)
      ∧ Set.InjOn stream.output (Set.Iio (2 ^ 64)) := by
  have hfirst : ∀ bytes : List UInt8, Function.Injective fun tick =>
      (SplitMix64.new (seed_of_bytes bytes tick)).next_u64.1 := by
    intro bytes s t h
    have hmixed := mix_injective h
    exact seed_of_bytes_injective bytes ((UInt64.add_left_inj _).mp hmixed)
  refine ⟨?_, ?_, seed_of_bytes_injective bytes, hfirst bytes, output_injOn stream⟩
  · exact seed_of_bytes_injective system_id.toUTF8.toList
  · exact hfirst system_id.toUTF8.toList

end DeterministicRng

end Scharnhorst
