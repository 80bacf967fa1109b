/-
Integers from JSON into integer columns.

A `serde_json` integer is a `PosInt` or a `NegInt`, and three of the storage types hold integers.
Each has a converter, and each converter asks for the number in the form of its own column first
and falls through to others when the answer is no. A number that the column holds never falls
through. One that it does not hold may reach the conversion of last resort, which goes by way of
an `f64`.

For an `i32` that is harmless: the cast back saturates, and what comes out is refused. A `u64`
column sees no float, since every integer is an `i64` or a `u64`. An `i64` column is where it
matters. The greatest `i64` is no `f64`, the bound that the float is compared with is `2^63`, and
the comparison admits the bound. So `2^63` and what rounds to it pass the check, and the cast
turns each of them into the greatest `i64`. `storedExactly_iff` says that nothing else goes wrong.
-/
import Scharnhorst.Binary64
import Scharnhorst.Convert

set_option autoImplicit false

namespace Scharnhorst

open Binary64

/-! ## Integers of the fixed widths -/

theorem ofNat_le_maxValue_iff {v : UInt64} :
    v ≤ Int64.maxValue.toUInt64 ↔ v.toNat < 2 ^ 63 := by
  rw [UInt64.le_iff_toNat_le]
  change v.toNat ≤ 2 ^ 63 - 1 ↔ _
  omega

theorem toInt_toInt64 {v : UInt64} (h : v.toNat < 2 ^ 63) : v.toInt64.toInt = v.toNat := by
  rw [← Int64.toInt_toBitVec, UInt64.toBitVec_toInt64, BitVec.toInt_eq_toNat_of_lt]
  · rfl
  · change 2 * v.toNat < 2 ^ 64
    omega

theorem toInt_negative {v : Int64} (h : v < 0) : v.toInt < 0 := by
  rw [Int64.lt_iff_toInt_lt] at h
  exact h

/-! ## Floats compared -/

theorem f64_le_iff {a b : F64} : a ≤ b ↔ a.toModel.unpack.le b.toModel.unpack = true := by
  change decide (a.toModel ≤ b.toModel) = true ↔ _
  rw [decide_eq_true_iff]
  rfl

/-- `i64::MIN as f64`. -/
theorem unpack_minValue : (i64_to_f64 Int64.minValue).toModel.unpack =
    .finite .negative (2 ^ 52) 11 (by decide) := rfl

/-- `i64::MAX as f64` is rounded up. -/
theorem unpack_maxValue : (i64_to_f64 Int64.maxValue).toModel.unpack = two_pow_63 := rfl

/-- The bounds of `json_to_i64`, for an integer that is above them both. -/
theorem within_bounds_iff {v : UInt64} (hlarge : 2 ^ 63 ≤ v.toNat) :
    (i64_to_f64 Int64.minValue ≤ u64_to_f64 v ∧ u64_to_f64 v ≤ i64_to_f64 Int64.maxValue) ↔
      v.toNat ≤ 2 ^ 63 + 1024 := by
  rw [f64_le_iff, f64_le_iff, unpack_minValue, unpack_maxValue]
  constructor
  · intro h
    exact (le_two_pow_63_iff hlarge).1 h.2
  · intro h
    exact ⟨negative_le hlarge _, (le_two_pow_63_iff hlarge).2 h⟩

theorem f64_to_i64_large {v : UInt64} (hlarge : 2 ^ 63 ≤ v.toNat) :
    f64_to_i64 (u64_to_f64 v) = Int64.maxValue := toInt64_large hlarge

/-! ## Integer columns -/

/-- The integer that a number is. A `Float` is none, whatever its value. -/
def Number.integer : Number → Option Int
  | .PosInt v => some v.toNat
  | .NegInt v _ => some v.toInt
  | .Float _ _ => none

/-- The storage types that hold integers. -/
inductive IntegerColumn where
  | i64 | i32 | u64
deriving DecidableEq

namespace IntegerColumn

/-- The range of the column's type. -/
def Holds : IntegerColumn → Int → Prop
  | i64, i => Int64.minValue.toInt ≤ i ∧ i ≤ Int64.maxValue.toInt
  | i32, i => Int32.minValue.toInt ≤ i ∧ i ≤ Int32.maxValue.toInt
  | u64, i => 0 ≤ i ∧ i < UInt64.size

instance (column : IntegerColumn) (i : Int) : Decidable (column.Holds i) := by
  cases column <;> exact inferInstanceAs (Decidable (_ ∧ _))

variable [Render]

/-- The integer that the column's converter makes of a value. -/
def stored (column : IntegerColumn) (value : Json) : ArrowStoreResult Int :=
  match column with
  | i64 => (json_to_i64 value).map Int64.toInt
  | i32 => (json_to_i32 value).map Int32.toInt
  | u64 => (json_to_u64 value).map fun v => v.toNat

/-- An integer in the range of the column is stored as it is, any other is refused. -/
def StoredExactly (column : IntegerColumn) (n : Number) (i : Int) : Prop :=
  if column.Holds i then column.stored (.number n) = .ok i
  else ∃ e, column.stored (.number n) = .error e

end IntegerColumn

/-- What `as_i64` answers, where it answers: the number itself. -/
theorem as_i64_eq {n : Number} {i : Int} (hi : n.integer = some i) (hsmall : i < 2 ^ 63) :
    ∃ v, n.as_i64 = some v ∧ v.toInt = i := by
  cases n with
  | PosInt v =>
    cases hi
    have hv : v.toNat < 2 ^ 63 := by omega
    exact ⟨v.toInt64, if_pos (ofNat_le_maxValue_iff.2 hv), toInt_toInt64 hv⟩
  | NegInt v hneg =>
    cases hi
    exact ⟨v, rfl, rfl⟩
  | Float v hfin => cases hi

/-- A number above the `i64`s is a `PosInt`. -/
theorem large_integer {n : Number} {i : Int} (hi : n.integer = some i) (hlarge : 2 ^ 63 ≤ i) :
    ∃ v : UInt64, n = .PosInt v ∧ i = v.toNat ∧ 2 ^ 63 ≤ v.toNat := by
  cases n with
  | PosInt v =>
    cases hi
    exact ⟨v, rfl, rfl, by omega⟩
  | NegInt v hneg =>
    cases hi
    have := toInt_negative hneg
    omega
  | Float v hfin => cases hi

theorem as_i64_large {v : UInt64} (hlarge : 2 ^ 63 ≤ v.toNat) :
    (Number.PosInt v).as_i64 = none := by
  apply if_neg
  rw [ofNat_le_maxValue_iff]
  omega

theorem toInt_toInt32 {v : Int64} (h : IntegerColumn.i32.Holds v.toInt) :
    v.toInt32.toInt = v.toInt := by
  have hmin : Int32.minValue.toInt = -2 ^ 31 := by decide
  have hmax : Int32.maxValue.toInt = 2 ^ 31 - 1 := by decide
  obtain ⟨hlow, hhigh⟩ := h
  rw [Int64.toInt_toInt32]
  apply Int.bmod_eq_of_le <;> omega

section Columns

variable [Render]

open IntegerColumn

/-! ### `i64` -/

/-- The conversion of last resort admits what rounds to `2^63`. -/
theorem json_to_i64_large {v : UInt64} (hlarge : 2 ^ 63 ≤ v.toNat) :
    json_to_i64 (.number (.PosInt v)) =
      if v.toNat ≤ 2 ^ 63 + 1024 then .ok Int64.maxValue
      else .error (.Schema s!"value {Render.f64_to_string (u64_to_f64 v)} out of range for i64") := by
  have hnone : (Json.number (.PosInt v)).as_i64 = none := as_i64_large hlarge
  unfold json_to_i64
  rw [hnone]
  change (if i64_to_f64 Int64.minValue ≤ u64_to_f64 v ∧ u64_to_f64 v ≤ i64_to_f64 Int64.maxValue
    then _ else _) = _
  rw [f64_to_i64_large hlarge]
  exact if_congr (within_bounds_iff hlarge) rfl rfl

theorem storedExactly_i64 {n : Number} {i : Int} (hi : n.integer = some i) :
    i64.StoredExactly n i ↔ ¬ (2 ^ 63 ≤ i ∧ i ≤ 2 ^ 63 + 1024) := by
  have hmin : Int64.minValue.toInt = -2 ^ 63 := by decide
  have hmax : Int64.maxValue.toInt = 2 ^ 63 - 1 := by decide
  unfold StoredExactly
  -- from `2^63` on there is no `as_i64`
  by_cases hlarge : 2 ^ 63 ≤ i
  · obtain ⟨v, rfl, rfl, hv⟩ := large_integer hi hlarge
    have hout : ¬ i64.Holds v.toNat := by
      intro h
      have := h.2
      omega
    rw [if_neg hout, stored, json_to_i64_large hv]
    by_cases hnear : v.toNat ≤ 2 ^ 63 + 1024
    · rw [if_pos hnear]
      constructor
      · rintro ⟨e, he⟩
        cases he
      · intro h
        omega
    · rw [if_neg hnear]
      constructor
      · intro _
        omega
      · intro _
        exact ⟨_, rfl⟩
  · obtain ⟨v, hv, rfl⟩ := as_i64_eq hi (by omega)
    have hin : i64.Holds v.toInt := ⟨v.minValue_le_toInt, v.toInt_le⟩
    have hjson : (Json.number n).as_i64 = some v := hv
    rw [if_pos hin, stored, json_to_i64, hjson]
    constructor
    · intro _
      omega
    · intro _
      rfl

/-! ### `i32` -/

omit [Render] in
/-- The saturated cast is no `i32` either. -/
theorem json_to_i32_integer {n : Number} {i : Int} (hi : n.integer = some i) :
    ∃ val : Int64, (Json.number n).as_i64.or ((Json.number n).as_f64.map f64_to_i64) = some val ∧
      (i32.Holds val.toInt ↔ i32.Holds i) ∧ (i32.Holds i → val.toInt = i) := by
  have hmax : Int32.maxValue.toInt = 2 ^ 31 - 1 := by decide
  -- a large integer comes back as the greatest `i64`, which is no `i32`
  by_cases hlarge : 2 ^ 63 ≤ i
  · obtain ⟨v, rfl, rfl, hv⟩ := large_integer hi hlarge
    have hnone : (Json.number (.PosInt v)).as_i64 = none := as_i64_large hv
    have hout : ¬ i32.Holds v.toNat := by
      intro h
      have := h.2
      omega
    refine ⟨Int64.maxValue, ?_, ?_, ?_⟩
    · rw [hnone, Option.none_or]
      exact congrArg some (f64_to_i64_large hv)
    · constructor
      · intro h
        exact absurd h (by decide)
      · intro h
        exact absurd h hout
    · intro h
      exact absurd h hout
  · obtain ⟨v, hv, rfl⟩ := as_i64_eq hi (by omega)
    have hjson : (Json.number n).as_i64 = some v := hv
    exact ⟨v, by rw [hjson, Option.some_or], Iff.rfl, fun _ => rfl⟩

theorem storedExactly_i32 {n : Number} {i : Int} (hi : n.integer = some i) :
    i32.StoredExactly n i := by
  obtain ⟨val, hval, hiff, heq⟩ := json_to_i32_integer hi
  unfold StoredExactly
  rw [stored, json_to_i32, hval]
  by_cases hin : i32.Holds i
  · have hrange := hiff.2 hin
    rw [if_pos hin]
    change (if i32.Holds val.toInt then Except.ok val.toInt32 else _ : ArrowStoreResult Int32).map _ = _
    rw [if_pos hrange]
    change Except.ok val.toInt32.toInt = _
    rw [toInt_toInt32 hrange, heq hin]
  · rw [if_neg hin]
    refine ⟨.Schema s!"value {val.toInt} out of range for i32", ?_⟩
    change (if i32.Holds val.toInt then _ else _ : ArrowStoreResult Int32).map _ = _
    rw [if_neg (hin ∘ hiff.1)]
    rfl

/-! ### `u64` -/

theorem storedExactly_u64 {n : Number} {i : Int} (hi : n.integer = some i) :
    u64.StoredExactly n i := by
  unfold StoredExactly
  cases n with
  | PosInt v =>
    cases hi
    have hin : u64.Holds v.toNat := ⟨Int.natCast_nonneg _, Int.ofNat_lt.2 v.toNat_lt_size⟩
    rw [if_pos hin]
    rfl
  | NegInt v hneg =>
    cases hi
    have hout : ¬ u64.Holds v.toInt := by
      intro h
      have := toInt_negative hneg
      have := h.1
      omega
    rw [if_neg hout]
    refine ⟨.Schema s!"negative value {v.toInt} for u64", ?_⟩
    change (if 0 ≤ v then _ else _ : ArrowStoreResult UInt64).map _ = _
    rw [if_neg (Int64.not_le.2 hneg)]
    rfl
  | Float v hfin => cases hi

/-! ### All three -/

/-- Every integer is stored as itself or refused, in every integer column, except that an `i64`
column takes the integers from `2^63` to `2^63 + 1024` for the greatest `i64`. -/
theorem storedExactly_iff {n : Number} {i : Int} (hi : n.integer = some i)
    (column : IntegerColumn) :
    column.StoredExactly n i ↔ ¬ (column = .i64 ∧ 2 ^ 63 ≤ i ∧ i ≤ 2 ^ 63 + 1024) := by
  cases column with
  | i64 =>
    rw [storedExactly_i64 hi]
    simp only [true_and]
  | i32 =>
    constructor
    · rintro - ⟨hcol, -⟩
      cases hcol
    · intro _
      exact storedExactly_i32 hi
  | u64 =>
    constructor
    · rintro - ⟨hcol, -⟩
      cases hcol
    · intro _
      exact storedExactly_u64 hi

end Columns

/-! ### The greatest `i64` and the integer after it -/

/-- A rendering of integers. No float is printed here. -/
@[reducible] def integer_text : Render where
  value_to_string v := (v.as_i64.map fun i => toString i.toInt).getD ""
  value_debug v := (v.as_i64.map fun i => "Number(" ++ toString i.toInt ++ ")").getD ""
  f64_to_string _ := ""
  diff_to_string _ := .error ""

/-- The greatest `i64` is stored exactly. -/
theorem greatest_i64_stored :
    @IntegerColumn.StoredExactly integer_text .i64 (.PosInt 9223372036854775807)
      9223372036854775807 :=
  (@storedExactly_iff integer_text (.PosInt 9223372036854775807) _ rfl .i64).2 (by decide)

/-- The integer after it is stored as the greatest `i64`. -/
theorem next_integer_stored_as_greatest :
    @IntegerColumn.stored integer_text .i64 (.number (.PosInt 9223372036854775808)) =
        .ok 9223372036854775807 ∧
      ¬ @IntegerColumn.StoredExactly integer_text .i64 (.PosInt 9223372036854775808)
        9223372036854775808 := by
  have hstored : @IntegerColumn.stored integer_text .i64
      (.number (.PosInt 9223372036854775808)) = .ok 9223372036854775807 := rfl
  refine ⟨hstored, ?_⟩
  unfold IntegerColumn.StoredExactly
  rw [if_neg (by decide), hstored]
  rintro ⟨e, he⟩
  cases he

end Scharnhorst
