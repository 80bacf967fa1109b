/-
`FixedPoint`, the engine's decimal numbers.

A value is an `i64` and a number of digits after the point. Addition, multiplication and the
others want one scale and are written with `checked_` operators; comparison and hashing take
any two scales, the one by scaling up in `i128`, the other by taking trailing zeros off.

A `checked_` operator answers with the mathematical result, or with nothing if the type has no
such value. The operators that `rescale` uses unchecked are checked here too, and end in
`Panic` where they overflow, as they do in a build that looks.
-/
import Mathlib.Tactic.Common
import Scharnhorst.Decimal

set_option autoImplicit false

namespace Scharnhorst

/-! ## Checked integers -/

def InI64 (v : Int) : Prop := -2 ^ 63 ≤ v ∧ v < 2 ^ 63

instance (v : Int) : Decidable (InI64 v) :=
  inferInstanceAs (Decidable (_ ∧ _))

def InI128 (v : Int) : Prop := -2 ^ 127 ≤ v ∧ v < 2 ^ 127

instance (v : Int) : Decidable (InI128 v) :=
  inferInstanceAs (Decidable (_ ∧ _))

theorem in_i64 (r : Int64) : InI64 r.toInt :=
  ⟨r.le_toInt, r.toInt_lt⟩

/-- The `i64` with this value. -/
def i64_of_int (v : Int) : Option Int64 :=
  if InI64 v then some (.ofInt v) else none

theorem i64_of_int_eq_some {v : Int} {r : Int64} : i64_of_int v = some r ↔ r.toInt = v := by
  unfold i64_of_int
  constructor
  · intro h
    split at h
    · rename_i hv
      rw [← Option.some.inj h]
      exact Int64.toInt_ofInt_of_le hv.1 hv.2
    · cases h
  · intro h
    rw [← h, if_pos (in_i64 r), Int64.ofInt_toInt]

theorem i64_of_int_in {v : Int} (h : InI64 v) : ∃ r, i64_of_int v = some r ∧ r.toInt = v :=
  ⟨.ofInt v, if_pos h, Int64.toInt_ofInt_of_le h.1 h.2⟩

@[simp] theorem i64_of_int_toInt (r : Int64) : i64_of_int r.toInt = some r :=
  i64_of_int_eq_some.2 rfl

theorem i64_of_int_out {v : Int} (h : ¬ InI64 v) : i64_of_int v = none := if_neg h

/-- Of an `i128` only the value is kept. -/
def i128_of_int (v : Int) : Option Int :=
  if InI128 v then some v else none

theorem i128_of_int_in {v : Int} (h : InI128 v) : i128_of_int v = some v := if_pos h

theorem i128_of_int_out {v : Int} (h : ¬ InI128 v) : i128_of_int v = none := if_neg h

namespace I64

def checked_add (a b : Int64) : Option Int64 := i64_of_int (a.toInt + b.toInt)

def checked_sub (a b : Int64) : Option Int64 := i64_of_int (a.toInt - b.toInt)

def checked_mul (a b : Int64) : Option Int64 := i64_of_int (a.toInt * b.toInt)

/-- Towards zero. -/
def checked_div (a b : Int64) : Option Int64 :=
  if b = 0 then none else i64_of_int (a.toInt.tdiv b.toInt)

/-- The least value over `-1` has no remainder either. -/
def checked_rem (a b : Int64) : Option Int64 :=
  if b = 0 ∨ ¬ InI64 (a.toInt.tdiv b.toInt) then none
  else i64_of_int (a.toInt.tmod b.toInt)

def checked_neg (a : Int64) : Option Int64 := i64_of_int (-a.toInt)

def checked_abs (a : Int64) : Option Int64 := i64_of_int |a.toInt|

def checked_pow (base : Int64) (exp : UInt32) : Option Int64 :=
  i64_of_int (base.toInt ^ exp.toNat)

end I64

namespace I128

def checked_mul (a b : Int) : Option Int := i128_of_int (a * b)

def checked_pow (base : Int) (exp : UInt32) : Option Int := i128_of_int (base ^ exp.toNat)

end I128

/-! ## Errors -/

/-- The variants that a fixed-point number raises, and `Panic` for unchecked arithmetic. -/
inductive CoreError where
  | InvalidFormat (message : String)
  | ArithmeticOverflow
  | DivisionByZero
  | InvalidFixedPointScale (expected got : UInt32)
  | Panic
deriving DecidableEq

/-- The `Display` text. A panic has none. -/
def CoreError.to_string : CoreError → String
  | InvalidFormat message => s!"invalid format: {message}"
  | ArithmeticOverflow => "arithmetic overflow"
  | DivisionByZero => "division by zero"
  | InvalidFixedPointScale expected got =>
    s!"invalid fixed-point scale: expected {expected}, got {got}"
  | Panic => ""

abbrev CoreResult := Except CoreError

/-- `ok_or` and `?`. -/
def ok_or {α : Type} (error : CoreError) : Option α → CoreResult α
  | some a => .ok a
  | none => .error error

section
variable {α β : Type} {e e' : CoreError} {o : Option α} {f : α → CoreResult β} {a : α} {b : β}

@[simp] theorem ok_or_bind_some : (ok_or e (some a) >>= f) = f a := rfl

@[simp] theorem ok_or_bind_none : (ok_or e none >>= f) = .error e := rfl

theorem ok_or_bind_ok : (ok_or e o >>= f) = .ok b ↔ ∃ a, o = some a ∧ f a = .ok b := by
  rcases o with _ | a
  · constructor
    · intro h
      cases h
    · rintro ⟨a, h, -⟩
      cases h
  · constructor
    · intro h
      exact ⟨a, rfl, h⟩
    · rintro ⟨a', h, hf⟩
      rw [Option.some.inj h]
      exact hf

end

/-! ## Fixed-point numbers -/

structure FixedPoint where
  raw : Int64
  scale : UInt32
deriving DecidableEq

namespace FixedPoint

def new (raw : Int64) (scale : UInt32) : FixedPoint := { raw, scale }

/-- What the source says that a value is: `raw` over `10^scale`. -/
def value (x : FixedPoint) : ℚ := Decimal.decimal x.raw.toInt x.scale.toNat

def from_i64 (value : Int64) (scale : UInt32) : CoreResult FixedPoint := do
  let factor ← ok_or .ArithmeticOverflow (I64.checked_pow 10 scale)
  let raw ← ok_or .ArithmeticOverflow (I64.checked_mul value factor)
  return new raw scale

/-- `raw` cut off at the factor, moved by one if the digits that went weigh more than half, or
half and the result is odd. -/
def rescale (self : FixedPoint) (new_scale : UInt32) : CoreResult FixedPoint :=
  match compare new_scale self.scale with
  | .eq => .ok self
  | .gt => do
    let delta := new_scale - self.scale
    let factor ← ok_or .ArithmeticOverflow (I64.checked_pow 10 delta)
    let raw ← ok_or .ArithmeticOverflow (I64.checked_mul self.raw factor)
    return new raw new_scale
  | .lt => do
    let delta := self.scale - new_scale
    let factor ← ok_or .ArithmeticOverflow (I64.checked_pow 10 delta)
    let raw ← ok_or .ArithmeticOverflow (I64.checked_div self.raw factor)
    -- from here to `needs_round` the source checks nothing
    let remainder ← ok_or .Panic (I64.checked_rem self.raw factor)
    let cut ← ok_or .Panic (I64.checked_abs remainder)
    let twice ← ok_or .Panic (I64.checked_mul cut 2)
    let whole ← ok_or .Panic (I64.checked_abs factor)
    let odd ← ok_or .Panic (I64.checked_rem raw 2)
    let needs_round := whole < twice || (twice == whole && odd != 0)
    let adjusted :=
      if needs_round then
        if 0 ≤ self.raw then I64.checked_add raw 1 else I64.checked_sub raw 1
      else some raw
    let adjusted ← ok_or .ArithmeticOverflow adjusted
    return new adjusted new_scale

def ensure_same_scale (lhs rhs : FixedPoint) : CoreResult Unit :=
  if lhs.scale ≠ rhs.scale then .error (.InvalidFixedPointScale lhs.scale rhs.scale)
  else .ok ()

/-! ### Comparing and hashing -/

/-- The value with the smaller scale is brought to the larger one. Where the power leaves
`i128` its sign decides; where only the product does there is no answer. -/
def cmp_normalized (self other : FixedPoint) : Option Ordering :=
  let a := self.raw.toInt
  let b := other.raw.toInt
  if self.scale = other.scale then some (compare a b)
  else if self.scale < other.scale then
    let delta := other.scale - self.scale
    match I128.checked_pow 10 delta with
    | some pow => (I128.checked_mul a pow).map fun a_scaled => compare a_scaled b
    | none =>
      some (match compare a 0 with
        | .gt => .gt
        | .lt => .lt
        | .eq => compare 0 b)
  else
    let delta := self.scale - other.scale
    match I128.checked_pow 10 delta with
    | some pow => (I128.checked_mul b pow).map fun b_scaled => compare a b_scaled
    | none =>
      some (match compare b 0 with
        | .gt => .lt
        | .lt => .gt
        | .eq => compare a 0)

/-- `PartialEq`. -/
def eq (self other : FixedPoint) : Bool :=
  match self.cmp_normalized other with
  | some o => o.isEq
  | none => false

/-- `Ord`. -/
def cmp (self other : FixedPoint) : Ordering :=
  (self.cmp_normalized other).getD .eq

/-- The loop of `canonical_form`, which ends at the scale zero if not before. -/
def strip_zeros (raw : Int64) : Nat → Int64 × Nat
  | 0 => (raw, 0)
  | scale + 1 =>
    if raw ≠ 0 ∧ raw % 10 = 0 then strip_zeros (raw / 10) scale
    else (raw, scale + 1)

/-- What `Hash` feeds to the hasher. -/
def canonical_form (self : FixedPoint) : Int64 × UInt32 :=
  let (raw, scale) := strip_zeros self.raw self.scale.toNat
  (raw, .ofNat scale)

/-! ### Arithmetic -/

def add (self rhs : FixedPoint) : CoreResult FixedPoint := do
  ensure_same_scale self rhs
  let raw ← ok_or .ArithmeticOverflow (I64.checked_add self.raw rhs.raw)
  return new raw self.scale

def sub (self rhs : FixedPoint) : CoreResult FixedPoint := do
  ensure_same_scale self rhs
  let raw ← ok_or .ArithmeticOverflow (I64.checked_sub self.raw rhs.raw)
  return new raw self.scale

def mul (self rhs : FixedPoint) : CoreResult FixedPoint := do
  ensure_same_scale self rhs
  let product ← ok_or .ArithmeticOverflow (I64.checked_mul self.raw rhs.raw)
  let factor ← ok_or .ArithmeticOverflow (I64.checked_pow 10 self.scale)
  let raw ← ok_or .ArithmeticOverflow (I64.checked_div product factor)
  return new raw self.scale

def div (self rhs : FixedPoint) : CoreResult FixedPoint := do
  ensure_same_scale self rhs
  if rhs.raw = 0 then throw .DivisionByZero
  let factor ← ok_or .ArithmeticOverflow (I64.checked_pow 10 self.scale)
  let scaled ← ok_or .ArithmeticOverflow (I64.checked_mul self.raw factor)
  let raw ← ok_or .ArithmeticOverflow (I64.checked_div scaled rhs.raw)
  return new raw self.scale

def neg (self : FixedPoint) : CoreResult FixedPoint := do
  let raw ← ok_or .ArithmeticOverflow (I64.checked_neg self.raw)
  return new raw self.scale

end FixedPoint

/-! ## Powers of ten -/

/-- Between two neighbouring powers of ten, a bound admits those up to the lower one. -/
theorem pow_ten_within {bound : Int} {m k : Nat} (hlow : 10 ^ m < bound)
    (hhigh : bound ≤ 10 ^ (m + 1)) : -bound ≤ 10 ^ k ∧ 10 ^ k < bound ↔ k ≤ m := by
  constructor
  · intro h
    by_contra hlt
    have hmono : (10 : Int) ^ (m + 1) ≤ 10 ^ k := pow_le_pow_right₀ (by decide) (by omega)
    omega
  · intro h
    have hmono : (10 : Int) ^ k ≤ 10 ^ m := pow_le_pow_right₀ (by decide) h
    have hpos : (0 : Int) < 10 ^ k := by positivity
    omega

/-- A power of ten is an `i64` up to the eighteenth. -/
theorem inI64_pow_ten {k : Nat} : InI64 (10 ^ k) ↔ k ≤ 18 := by
  apply pow_ten_within
  · norm_num
  · norm_num

/-- A power of ten is an `i128` up to the thirty-eighth. -/
theorem inI128_pow_ten {k : Nat} : InI128 (10 ^ k) ↔ k ≤ 38 := by
  apply pow_ten_within
  · norm_num
  · norm_num

theorem toInt_ten : (10 : Int64).toInt = 10 := by decide

theorem I128.checked_pow_ten {k : UInt32} (h : k.toNat ≤ 38) :
    I128.checked_pow 10 k = some (10 ^ k.toNat) :=
  i128_of_int_in (inI128_pow_ten.2 h)

theorem I128.checked_pow_ten_large {k : UInt32} (h : ¬ k.toNat ≤ 38) :
    I128.checked_pow 10 k = none :=
  i128_of_int_out (mt inI128_pow_ten.1 h)

/-- The factor that a number is scaled by. -/
theorem exists_pow_ten {k : UInt32} (h : k.toNat ≤ 18) :
    ∃ f, I64.checked_pow 10 k = some f ∧ f.toInt = 10 ^ k.toNat :=
  i64_of_int_in (inI64_pow_ten.2 h)

theorem checked_pow_ten_large {k : UInt32} (h : ¬ k.toNat ≤ 18) : I64.checked_pow 10 k = none :=
  i64_of_int_out (mt inI64_pow_ten.1 h)

/-- The distance from a smaller scale to a larger one. -/
theorem toNat_sub_scale {s n : UInt32} (h : s ≤ n) : (n - s).toNat = n.toNat - s.toNat :=
  UInt32.toNat_sub_of_le n s h

end Scharnhorst
