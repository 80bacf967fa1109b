/-
The deterministic random streams that systems draw from: SplitMix64, seeded from the
system's id and the tick.
-/
import Mathlib.Init

set_option autoImplicit false

namespace Scharnhorst

structure SplitMix64 where
  state : UInt64
deriving DecidableEq

namespace SplitMix64

def new (seed : UInt64) : SplitMix64 := ⟨seed⟩

def next_u64 (sm : SplitMix64) : UInt64 × SplitMix64 :=
  let state := sm.state + 0x9e3779b97f4a7c15
  let z := (state ^^^ (state >>> 30)) * 0xbf58476d1ce4e5b9
  let z := (z ^^^ (z >>> 27)) * 0x94d049bb133111eb
  (z ^^^ (z >>> 31), ⟨state⟩)

/-- `(x as u128).wrapping_mul(bound as u128)`. -/
def u128_product (x bound : UInt64) : BitVec 128 :=
  x.toBitVec.setWidth 128 * bound.toBitVec.setWidth 128

/-- The multiply-shift method: the high word of the product, as a `usize` of 64 bits. -/
def multiply_shift (x bound : UInt64) : UInt64 := ⟨(u128_product x bound >>> 64).setWidth 64⟩

/-- Without a number to give it gives 0, and draws nothing. -/
def next_usize (sm : SplitMix64) (bound : UInt64) : UInt64 × SplitMix64 :=
  if bound = 0 then (0, sm)
  else
    let (x, sm) := sm.next_u64
    (multiply_shift x bound, sm)

end SplitMix64

structure DeterministicRng where
  rng : SplitMix64
  tick : UInt64
  system_id : String
deriving DecidableEq

namespace DeterministicRng

def compute_seed (system_id : String) (tick : UInt64) : UInt64 :=
  let sm := system_id.toUTF8.toList.foldl (fun (sm : SplitMix64) byte =>
    let sm : SplitMix64 := ⟨sm.state ^^^ byte.toUInt64 * 0x9e3779b97f4a7c15⟩
    sm.next_u64.2) (SplitMix64.new tick)
  sm.next_u64.1

def new (system_id : String) (tick : UInt64) : DeterministicRng :=
  { rng := .new (compute_seed system_id tick), tick, system_id }

def next_usize (rng : DeterministicRng) (bound : UInt64) : UInt64 × DeterministicRng :=
  let (drawn, sm) := rng.rng.next_usize bound
  (drawn, { rng with rng := sm })

end DeterministicRng

end Scharnhorst
