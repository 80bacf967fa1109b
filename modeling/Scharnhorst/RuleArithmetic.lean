/-
What the arithmetic of a rule is worth.

The numbers of a rule are decimals, and products and quotients are cut off at their scale.
`estimate` goes through an expression with exact numbers instead and keeps, beside each, how far off
the decimal can be. A comparison is settled if the exact sides are further apart than that.

An expression with an estimate need not have a value: a number may leave its type, or the scales may
differ. If it has one, the estimate covers it.
-/
import Scharnhorst.Approximation
import Scharnhorst.EntryOrder
import Scharnhorst.FixedPointArith
import Scharnhorst.FixedPointOrder
import Scharnhorst.ModifierRounding

set_option autoImplicit false

namespace Scharnhorst

open Approximation Decimal

/-! ## One operation -/

theorem abs_tmod_lt (n : Int) {d : Int} (hd : d ≠ 0) : |n.tmod d| < |d| := by
  have hrem : (n.tmod d).natAbs = n.natAbs % d.natAbs := Int.natAbs_tmod n d
  rw [Int.abs_eq_natAbs, Int.abs_eq_natAbs, hrem]
  exact_mod_cast Nat.mod_lt _ (Int.natAbs_pos.2 hd)

/-- What a quotient of integers, cut off, is away from the fraction. -/
theorem abs_tdiv_sub_lt (n : Int) {d : Int} (hd : d ≠ 0) :
    |((n.tdiv d : Int) : ℚ) - n / d| < 1 := by
  have hdiv := Int.mul_tdiv_add_tmod n d
  have hcast : (n : ℚ) = d * (n.tdiv d : Int) + (n.tmod d : Int) := by
    exact_mod_cast hdiv.symm
  have hd' : (d : ℚ) ≠ 0 := by exact_mod_cast hd
  have hrem : |((n.tmod d : Int) : ℚ)| < |(d : ℚ)| := by
    exact_mod_cast abs_tmod_lt n hd
  have hoff : ((n.tdiv d : Int) : ℚ) - n / d = -((n.tmod d : Int) : ℚ) / d := by
    rw [hcast]
    field_simp
    ring
  rw [hoff, abs_div, abs_neg, div_lt_one (abs_pos.2 hd')]
  exact hrem

namespace FixedPoint

variable {a b r : FixedPoint}

theorem scale_add (h : a.add b = .ok r) : a.scale = b.scale ∧ r.scale = a.scale := by
  obtain ⟨hs, h⟩ := ensure_same_scale_bind h
  obtain ⟨raw, -, hr⟩ := ok_or_bind_ok.1 h
  cases hr
  exact ⟨hs, rfl⟩

theorem scale_sub (h : a.sub b = .ok r) : a.scale = b.scale ∧ r.scale = a.scale := by
  obtain ⟨hs, h⟩ := ensure_same_scale_bind h
  obtain ⟨raw, -, hr⟩ := ok_or_bind_ok.1 h
  cases hr
  exact ⟨hs, rfl⟩

theorem mul_raw (h : a.mul b = .ok r) : a.scale = b.scale ∧ r.scale = a.scale
    ∧ r.raw.toInt = (a.raw.toInt * b.raw.toInt).tdiv (10 ^ a.scale.toNat) := by
  obtain ⟨hs, -⟩ := ensure_same_scale_bind h
  by_cases hfits : a.scale.toNat ≤ 18 ∧ InI64 (product a b)
  · obtain ⟨hk, hin⟩ := hfits
    obtain ⟨q, -, hq⟩ := i64_of_int_in
      (hin.tdiv (show (0 : Int) < 10 ^ a.scale.toNat by positivity))
    rw [mul_ok hs hk hin hq] at h
    cases h
    exact ⟨hs, rfl, hq⟩
  · rw [mul_error hs hfits] at h
    cases h

theorem div_raw (h : a.div b = .ok r) : a.scale = b.scale ∧ r.scale = a.scale ∧ b.raw.toInt ≠ 0
    ∧ r.raw.toInt = (a.raw.toInt * 10 ^ a.scale.toNat).tdiv b.raw.toInt := by
  obtain ⟨hs, -⟩ := ensure_same_scale_bind h
  by_cases hb : b.raw = 0
  · rw [div_zero hs hb] at h
    cases h
  by_cases hfits : a.scale.toNat ≤ 18 ∧ InI64 a.numerator
      ∧ InI64 (a.numerator.tdiv b.raw.toInt)
  · obtain ⟨hk, hin, hquot⟩ := hfits
    obtain ⟨q, -, hq⟩ := i64_of_int_in hquot
    rw [div_ok hs hb hk hin hq] at h
    cases h
    exact ⟨hs, rfl, fun hzero => hb (Int64.toInt_inj.1 hzero), hq⟩
  · rw [div_error hs hb hfits] at h
    cases h

/-- A product is cut off by less than a unit. -/
theorem mul_near (h : a.mul b = .ok r) : |r.value - a.value * b.value| ≤ unit a.scale := by
  obtain ⟨hs, hscale, hraw⟩ := mul_raw h
  have hoff := product_off (b := a.raw.toInt) (w := b.raw.toInt) (e := 0) (s := a.scale.toNat)
    (k := 0)
  simp only [pow_zero, mul_one, add_zero, mul_zero, zero_add] at hoff
  rw [value, value, value, hscale, ← hs, hraw, hoff, abs_neg]
  apply le_of_lt
  rw [unit, abs_decimal_lt_iff]
  have hlt := abs_tmod_lt (a.raw.toInt * b.raw.toInt)
    (show (10 : Int) ^ a.scale.toNat ≠ 0 by positivity)
  rwa [abs_of_pos (show (0 : Int) < 10 ^ a.scale.toNat by positivity)] at hlt

theorem div_near (h : a.div b = .ok r) : |r.value - a.value / b.value| ≤ unit a.scale := by
  obtain ⟨hs, hscale, hb, hraw⟩ := div_raw h
  have hten : (0 : ℚ) < 10 ^ a.scale.toNat := by positivity
  have hquot := abs_tdiv_sub_lt (a.raw.toInt * 10 ^ a.scale.toNat) hb
  have hvalue : r.value - a.value / b.value
      = (((a.raw.toInt * 10 ^ a.scale.toNat).tdiv b.raw.toInt : Int)
          - ((a.raw.toInt * 10 ^ a.scale.toNat : Int) : ℚ) / b.raw.toInt)
        / 10 ^ a.scale.toNat := by
    have hb' : ((b.raw.toInt : Int) : ℚ) ≠ 0 := by exact_mod_cast hb
    rw [value, value, value, hscale, ← hs, hraw]
    unfold decimal
    push_cast
    field_simp
  rw [hvalue, abs_div, abs_of_pos hten, unit, decimal, Int.cast_one]
  gcongr

/-- Up to eighteen digits after the point no product in a comparison leaves `i128`. -/
theorem not_scalesPast (hb : b.scale.toNat ≤ 18) : ¬ ScalesPast a b := by
  rintro ⟨hlt, -, hout⟩
  apply hout
  rw [toNat_sub_scale (UInt32.le_of_lt hlt)]
  obtain ⟨hlow, hhigh⟩ := in_i64 a.raw
  have hmono : (10 : Int) ^ (b.scale.toNat - a.scale.toNat) ≤ 10 ^ 18 :=
    pow_le_pow_right₀ (by decide) (by omega)
  have hpos : (0 : Int) < 10 ^ (b.scale.toNat - a.scale.toNat) := by positivity
  generalize (10 : Int) ^ (b.scale.toNat - a.scale.toNat) = p at *
  have hbelow : -2 ^ 63 * p ≤ a.raw.toInt * p := mul_le_mul_of_nonneg_right hlow hpos.le
  have habove : a.raw.toInt * p ≤ 2 ^ 63 * p := mul_le_mul_of_nonneg_right hhigh.le hpos.le
  unfold InI128
  norm_num at hmono hbelow habove ⊢
  omega

theorem cmp_normalized_small (ha : a.scale.toNat ≤ 18) (hb : b.scale.toNat ≤ 18) :
    a.cmp_normalized b = some (compare a.value b.value) :=
  cmp_normalized_eq_compare (not_scalesPast hb) (not_scalesPast ha)

theorem cmp_small (ha : a.scale.toNat ≤ 18) (hb : b.scale.toNat ≤ 18) :
    a.cmp b = compare a.value b.value := by
  rw [cmp, cmp_normalized_small ha hb, Option.getD_some]

theorem compare_small (op : CompareOp) (ha : a.scale.toNat ≤ 18) (hb : b.scale.toNat ≤ 18) :
    compare_fixed_point op a b
      = op.holds (compare a.value b.value).isEq (compare a.value b.value) := by
  rw [compare_fixed_point, cmp_small ha hb, eq, cmp_normalized_small ha hb]

theorem value_min (ha : a.scale.toNat ≤ 18) (hb : b.scale.toNat ≤ 18) :
    (a.min b).value = Min.min a.value b.value := by
  rw [FixedPoint.min, cmp_small ha hb]
  by_cases hgt : a.value > b.value
  · rw [compare_gt_iff_gt.2 hgt, min_eq_right hgt.le]
    rfl
  · rw [if_neg, min_eq_left (not_lt.1 hgt)]
    rw [Ordering.isGT_iff_eq_gt, compare_gt_iff_gt]
    exact hgt

theorem value_max (ha : a.scale.toNat ≤ 18) (hb : b.scale.toNat ≤ 18) :
    (a.max b).value = Max.max a.value b.value := by
  rw [FixedPoint.max, cmp_small ha hb]
  by_cases hgt : a.value > b.value
  · rw [compare_gt_iff_gt.2 hgt, max_eq_left hgt.le]
    rfl
  · rw [if_neg, max_eq_right (not_lt.1 hgt)]
    rw [Ordering.isGT_iff_eq_gt, compare_gt_iff_gt]
    exact hgt

end FixedPoint

/-! ## Estimates -/

open FixedPoint

/-- What is known of a value: a number with the scale of its decimal and how far off that is, or a
truth value. -/
inductive Estimate where
  | number (scale : UInt32) (exact slack : ℚ)
  | truth (b : Bool)
deriving DecidableEq

namespace Estimate

inductive Covers : Estimate → EvalValue → Prop
  | number {x : FixedPoint} {exact slack : ℚ} (small : x.scale.toNat ≤ 18)
      (near : Near x.value exact slack) : Covers (.number x.scale exact slack) (.FixedPoint x)
  | truth (b : Bool) : Covers (.truth b) (.Bool b)

/-- A value that is read is exact. -/
def of_value : EvalValue → Option Estimate
  | .FixedPoint x => if x.scale.toNat ≤ 18 then some (.number x.scale x.value 0) else none
  | .Bool b => some (.truth b)
  | _ => none

def arithmetic (op : ArithmeticOp) : Estimate → Estimate → Option Estimate
  | .number s a ε, .number _ b δ =>
    match op with
    | .Add => some (.number s (a + b) (ε + δ))
    | .Sub => some (.number s (a - b) (ε + δ))
    | .Mul => some (.number s (a * b) (|a| * δ + |b| * ε + ε * δ + unit s))
    | .Div =>
      if δ < |b| then
        some (.number s (a / b) ((|a| * δ + |b| * ε) / (|b| * (|b| - δ)) + unit s))
      else none
    | .Rem => none
  | _, _ => none

/-- Two numbers whose order the errors may turn have no comparison. -/
def compare_numbers (op : CompareOp) : Estimate → Estimate → Option Estimate
  | .number _ a ε, .number _ b δ =>
    if ε + δ < |a - b| ∨ ε + δ = 0 then
      some (.truth (op.holds (compare a b).isEq (compare a b)))
    else none
  | .truth a, .truth b => some (.truth (compare_bool op a b))
  | _, _ => none

def extreme (pick : ℚ → ℚ → ℚ) : Estimate → Estimate → Option Estimate
  | .number s a ε, .number t b δ =>
    if s = t then some (.number s (pick a b) (max ε δ)) else none
  | _, _ => none

variable {l r m : Estimate} {v w u : EvalValue}

theorem covers_of_value (h : of_value v = some m) : m.Covers v := by
  cases v with
  | FixedPoint x =>
    obtain ⟨hsmall, hm⟩ := Option.ite_none_right_eq_some.1 h
    cases hm
    exact .number hsmall (near_self _)
  | Bool b =>
    cases h
    exact .truth b
  | _ => cases h

theorem covers_number {z : FixedPoint} {s : UInt32} {exact slack : ℚ} (hs : z.scale = s)
    (hsmall : s.toNat ≤ 18) (hnear : Near z.value exact slack) :
    Covers (.number s exact slack) (.FixedPoint z) := by
  subst hs
  exact .number hsmall hnear

theorem core_value {c : CoreResult FixedPoint}
    (h : (c.mapError RuleError.Core).map EvalValue.FixedPoint = .ok u) :
    ∃ z, c = .ok z ∧ u = .FixedPoint z := by
  rcases c with e | z
  · cases h
  · cases h
    exact ⟨z, rfl, rfl⟩

/-- The estimates of an operation follow its cases: a sum is exact, the others are cut off. -/
theorem Covers.arithmetic {op : ArithmeticOp} (hl : l.Covers v) (hr : r.Covers w)
    (hm : l.arithmetic op r = some m) (hu : RuleEvaluator.arithmetic_values op v w = .ok u) :
    m.Covers u := by
  cases hl with
  | truth b => cases hm
  | @number x a ε hx hnear =>
    cases hr with
    | truth b => cases hm
    | @number y b δ hy hnear' =>
      cases op with
      | Add =>
        cases hm
        obtain ⟨z, hz, rfl⟩ := core_value hu
        refine covers_number (scale_add hz).2 hx ?_
        rw [value_add hz]
        exact hnear.add hnear'
      | Sub =>
        cases hm
        obtain ⟨z, hz, rfl⟩ := core_value hu
        refine covers_number (scale_sub hz).2 hx ?_
        rw [value_sub hz]
        exact hnear.sub hnear'
      | Mul =>
        cases hm
        obtain ⟨z, hz, rfl⟩ := core_value hu
        exact covers_number (mul_raw hz).2.1 hx ((hnear.mul hnear').rounded (mul_near hz))
      | Div =>
        obtain ⟨hapart, hm⟩ := Option.ite_none_right_eq_some.1 hm
        cases hm
        obtain ⟨z, hz, rfl⟩ := core_value hu
        exact covers_number (div_raw hz).2.1 hx
          ((hnear.div hnear' hapart).rounded (div_near hz))
      | Rem => cases hm

theorem Covers.compare_numbers {op : CompareOp} (hl : l.Covers v) (hr : r.Covers w)
    (hm : l.compare_numbers op r = some m) (hu : RuleEvaluator.compare_values op v w = .ok u) :
    m.Covers u := by
  cases hl with
  | truth b =>
    cases hr with
    | truth b' =>
      cases hm
      cases hu
      exact .truth _
    | number hy hnear' => cases hm
  | @number x a ε hx hnear =>
    cases hr with
    | truth b => cases hm
    | @number y b δ hy hnear' =>
      obtain ⟨hapart, hm⟩ := Option.ite_none_right_eq_some.1 hm
      cases hm
      cases hu
      rw [compare_small op hx hy, hnear.compare_eq hnear' hapart]
      exact .truth _

def negate : Estimate → Option Estimate
  | .truth b => some (.truth !b)
  | .number _ _ _ => none

/-- A branch is taken where the condition is known. -/
def choose (then_branch else_branch : Option Estimate) : Estimate → Option Estimate
  | .truth true => then_branch
  | .truth false => else_branch
  | .number _ _ _ => none

/-- The items of an `And` or an `Or`, up to the first that decides. -/
def first_deciding (decides : Bool) : List (Option Estimate) → Option Estimate
  | [] => some (.truth !decides)
  | some (.truth b) :: items =>
    if b = decides then some (.truth decides) else first_deciding decides items
  | _ :: _ => none

/-- The functions that a new evaluator has. -/
def builtin (func : String) : List Estimate → Option Estimate
  | [m] => if func = "not" then m.negate else none
  | [l, r] =>
    match func with
    | "add" => l.arithmetic .Add r
    | "sub" => l.arithmetic .Sub r
    | "mul" => l.arithmetic .Mul r
    | "div" => l.arithmetic .Div r
    | "min" => l.extreme Min.min r
    | "max" => l.extreme Max.max r
    | _ => none
  | _ => none

theorem Covers.extreme {pick : FixedPoint → FixedPoint → FixedPoint} {exact_pick : ℚ → ℚ → ℚ}
    (hpick : ∀ x y : FixedPoint, x.scale.toNat ≤ 18 → y.scale.toNat ≤ 18 →
      (pick x y).value = exact_pick x.value y.value ∧ (pick x y = x ∨ pick x y = y))
    (hnear : ∀ {x y a b ε δ : ℚ}, Near x a ε → Near y b δ →
      Near (exact_pick x y) (exact_pick a b) (max ε δ))
    (hl : l.Covers v) (hr : r.Covers w) (hm : l.extreme exact_pick r = some m) (name : String)
    (hu : fixed_point_builtin name (fun a b => .ok (pick a b)) [v, w] = .ok u) : m.Covers u := by
  cases hl with
  | truth b => cases hm
  | @number x a ε hx hnear_x =>
    cases hr with
    | truth b => cases hm
    | @number y b δ hy hnear_y =>
      obtain ⟨hscale, hm⟩ := Option.ite_none_right_eq_some.1 hm
      cases hm
      cases hu
      obtain ⟨hvalue, hone⟩ := hpick x y hx hy
      refine covers_number ?_ hx ?_
      · rcases hone with hone | hone
        · rw [hone]
        · rw [hone, hscale]
      · rw [hvalue]
        exact hnear hnear_x hnear_y

theorem Covers.negate (hl : l.Covers v) (hm : l.negate = some m)
    (hu : not_builtin [v] = .ok u) : m.Covers u := by
  cases hl with
  | number _ _ => cases hm
  | truth b =>
    cases hm
    cases hu
    exact .truth _

theorem min_pick (x y : FixedPoint) : x.min y = x ∨ x.min y = y := by
  unfold FixedPoint.min
  split
  · exact .inr rfl
  · exact .inl rfl

theorem max_pick (x y : FixedPoint) : x.max y = x ∨ x.max y = y := by
  unfold FixedPoint.max
  split
  · exact .inl rfl
  · exact .inr rfl

end Estimate

/-! ## Expressions -/

namespace RuleEvaluator

open ReadOnly Estimate

variable {Q J : Type}

section Estimates

variable (functions : String → List Estimate → Option Estimate) (ev : RuleEvaluator Q J)

/-- The estimates of the arguments of a call, by the order of their names. -/
def arguments (entries : List (String × Option Estimate)) : List String → Option (List Estimate)
  | [] => some []
  | name :: names =>
    (entries.lookup name).join.bind fun m => (arguments entries names).map (m :: ·)

mutual

def estimate : Expr → Option Estimate
  | .Const value => of_value (.FixedPoint value)
  | .Bool value => of_value (.Bool value)
  | .String value => of_value (.String value)
  | .RowId id => of_value (.RowId id)
  | .Column path => (evaluate_column path ev).1.toOption.bind of_value
  | .Var var => ev.vars[var.name]?.bind of_value
  | .Not inner => (estimate inner).bind negate
  | .And items => first_deciding false (item_estimates items)
  | .Or items => first_deciding true (item_estimates items)
  | .Compare op lhs rhs =>
    (estimate lhs).bind fun l => (estimate rhs).bind fun r => l.compare_numbers op r
  | .Arithmetic op lhs rhs =>
    (estimate lhs).bind fun l => (estimate rhs).bind fun r => l.arithmetic op r
  | .If cond then_branch else_branch =>
    (estimate cond).bind (choose (estimate then_branch) (estimate else_branch))
  | .Call func args =>
    (arguments (entry_estimates args) ((args.map Prod.fst).insertionSort (· ≤ ·))).bind
      (functions func)
  | .List _ => none
  | .Map _ => none

def item_estimates : List Expr → List (Option Estimate)
  | [] => []
  | item :: items => estimate item :: item_estimates items

def entry_estimates : List (String × Expr) → List (String × Option Estimate)
  | [] => []
  | (name, expr) :: entries => (name, estimate expr) :: entry_estimates entries

end

end Estimates

/-! ### Nodes -/

/-- Whenever there is an estimate and a value, the one covers the other. -/
def Covered (m : Option Estimate) (r : RuleResult EvalValue) : Prop :=
  ∀ est v, m = some est → r = .ok v → est.Covers v

/-- The functions that are registered do what is said of them. -/
def Honest (functions : String → List Estimate → Option Estimate) (ev : RuleEvaluator Q J) : Prop :=
  ∀ func f, ev.builtins[func]? = some f → ∀ args values est u,
    List.Forall₂ Covers args values → functions func args = some est → f values = .ok u →
      est.Covers u

section Nodes

variable {ev : RuleEvaluator Q J} {m l r : Option Estimate} {x y z : Evaluation Q J}

theorem covered_value {res : RuleResult EvalValue} : Covered (res.toOption.bind of_value) res := by
  intro est v hm hv
  rw [hv] at hm
  exact covers_of_value hm

theorem covered_not (hreads : Reads x) (hx : Covered m (x ev).1) :
    Covered (m.bind negate) (evaluate_not x ev).1 := by
  intro est u hm hu
  obtain ⟨est', hm', hnegate⟩ := Option.bind_eq_some_iff.1 hm
  rw [evaluate_not, hreads.and_then_value, bind_eq_ok] at hu
  obtain ⟨v, hv, hu⟩ := hu
  cases hx est' v hm' hv with
  | number _ _ => cases hnegate
  | truth b =>
    cases hnegate
    cases hu
    exact .truth _

/-- `evaluate_compare` and `evaluate_arithmetic`. -/
theorem covered_both {f : EvalValue → EvalValue → RuleResult EvalValue}
    {g : Estimate → Estimate → Option Estimate}
    (hsound : ∀ {l r est v w u}, l.Covers v → r.Covers w → g l r = some est → f v w = .ok u →
      est.Covers u)
    (hreads_x : Reads x) (hreads_y : Reads y) (hx : Covered l (x ev).1) (hy : Covered r (y ev).1) :
    Covered (l.bind fun l => r.bind fun r => g l r)
      (and_then x (fun left => and_then y fun right => done (f left right)) ev).1 := by
  intro est u hm hu
  obtain ⟨l', hl, hm⟩ := Option.bind_eq_some_iff.1 hm
  obtain ⟨r', hr, hm⟩ := Option.bind_eq_some_iff.1 hm
  rw [hreads_x.and_then_value, bind_eq_ok] at hu
  obtain ⟨v, hv, hu⟩ := hu
  rw [hreads_y.and_then_value, bind_eq_ok] at hu
  obtain ⟨w, hw, hu⟩ := hu
  exact hsound (hx l' v hl hv) (hy r' w hr hw) hm hu

theorem covered_if (hreads : Reads x) (hx : Covered m (x ev).1) (hy : Covered l (y ev).1)
    (hz : Covered r (z ev).1) : Covered (m.bind (choose l r)) (evaluate_if x y z ev).1 := by
  intro est u hm hu
  obtain ⟨est', hm', hchoose⟩ := Option.bind_eq_some_iff.1 hm
  rw [evaluate_if, hreads.and_then_value, bind_eq_ok] at hu
  obtain ⟨v, hv, hu⟩ := hu
  cases hx est' v hm' hv with
  | number _ _ => cases hchoose
  | truth b =>
    cases b with
    | true => exact hy est u hchoose hu
    | false => exact hz est u hchoose hu

/-- Both loops, by what they do at one item. -/
theorem covered_items (decides : Bool) {loop : List (Evaluation Q J) → Evaluation Q J}
    (hnil : (loop [] ev).1 = .ok (.Bool !decides))
    (hnext : ∀ x xs, Reads x → (x ev).1 = .ok (.Bool !decides) →
      (loop (x :: xs) ev).1 = (loop xs ev).1)
    (hdecided : ∀ x xs, Reads x → (x ev).1 ≠ .ok (.Bool !decides) →
      (loop (x :: xs) ev).1 = verdict (x ev).1)
    {ms : List (Option Estimate)} {xs : List (Evaluation Q J)}
    (h : List.Forall₂ (fun m x => Reads x ∧ Covered m (x ev).1) ms xs) :
    Covered (first_deciding decides ms) (loop xs ev).1 := by
  induction h with
  | nil =>
    intro est v hm hv
    rw [hnil] at hv
    cases hm
    cases hv
    exact .truth _
  | @cons m x ms xs hx _ ih =>
    obtain ⟨hreads, hx⟩ := hx
    intro est v hm hv
    rcases m with _ | ⟨s, a, ε⟩ | b
    · cases hm
    · cases hm
    unfold first_deciding at hm
    by_cases hvalue : (x ev).1 = .ok (.Bool !decides)
    · -- the estimate of the item says the same, and the loop goes on
      have hb : b = !decides := by
        cases hx _ _ rfl hvalue
        rfl
      rw [if_neg (by rw [hb]; exact Bool.not_ne_self decides)] at hm
      rw [hnext x xs hreads hvalue] at hv
      exact ih est v hm hv
    · rw [hdecided x xs hreads hvalue] at hv
      rcases hresult : (x ev).1 with e | w
      · rw [hresult] at hv
        cases hv
      · cases hx _ w rfl hresult
        rw [hresult] at hv hvalue
        cases hv
        have hb : b = decides := by
          by_contra hne
          exact hvalue (by rw [Bool.eq_not_of_ne hne])
        rw [if_pos hb] at hm
        cases hm
        rw [hb]
        exact .truth _

/-- The entries of a call, with their estimates. -/
def CoveredEntries (ev : RuleEvaluator Q J) : List (String × Option Estimate) →
    List (String × Evaluation Q J) → Prop :=
  List.Forall₂ fun a b => b.1 = a.1 ∧ Covered a.2 (b.2 ev).1

variable {entries : List (String × Option Estimate)} {args : List (String × Evaluation Q J)}

theorem covered_arguments (h : CoveredEntries ev entries args) (func : String)
    {names : List String} {ests : List Estimate} {values : List EvalValue}
    (hests : arguments entries names = some ests)
    (hvalues : List.Forall₂ (fun name v => (argument func args name ev).1 = .ok v) names values) :
    List.Forall₂ Covers ests values := by
  induction hvalues generalizing ests with
  | nil =>
    cases hests
    exact .nil
  | @cons name v names values hv _ ih =>
    obtain ⟨est, hest, hrest⟩ := Option.bind_eq_some_iff.1 hests
    obtain ⟨rest, hrests, rfl⟩ := Option.map_eq_some_iff.1 hrest
    obtain ⟨x, hx, hcovered⟩ := Listed.lookup_of_forall₂
      (R := fun m (x : Evaluation Q J) => Covered m (x ev).1) h (Option.join_eq_some_iff.1 hest)
    unfold argument at hv
    rw [hx] at hv
    exact .cons (hcovered est v rfl hv) (ih hrests)

/-- The arguments are read in the order of their names, on both sides. -/
theorem covered_call {functions : String → List Estimate → Option Estimate} {func : String}
    (hhonest : Honest functions ev) (hargs : ∀ entry ∈ args, Reads entry.2)
    (h : CoveredEntries ev entries args) :
    Covered ((arguments entries ((entries.map Prod.fst).insertionSort (· ≤ ·))).bind
      (functions func)) (evaluate_call func args ev).1 := by
  intro est u hm hu
  obtain ⟨ests, hests, hm⟩ := Option.bind_eq_some_iff.1 hm
  have hreads : ∀ x ∈ (sorted_keys args).map (argument func args), Reads x := by
    intro x hx
    obtain ⟨name, -, rfl⟩ := List.mem_map.1 hx
    exact (alike_argument (forall₂_alikeEntry hargs) func name).left
  rw [evaluate_call, (reads_check_arg_count func _).and_then_value, bind_eq_ok] at hu
  obtain ⟨-, -, hu⟩ := hu
  rw [(reads_collect hreads).and_then_value, bind_eq_ok, collect_value hreads] at hu
  obtain ⟨values, hvalues, hu⟩ := hu
  have hkeys : sorted_keys args = (entries.map Prod.fst).insertionSort (· ≤ ·) := by
    rw [sorted_keys, Listed.keys_of_forall₂ (R := fun m (x : Evaluation Q J) =>
      Covered m (x ev).1) h]
  rw [hkeys] at hvalues
  have hall := Attempt.mapM_ok.1 hvalues
  rw [List.forall₂_map_left_iff] at hall
  have hcovers := covered_arguments h func hests hall
  unfold apply_builtin at hu
  rcases hf : ev.builtins[func]? with _ | f
  · rw [hf] at hu
    cases hu
  · rw [hf] at hu
    exact hhonest func f hf ests values est u hcovers hm hu

variable {ms : List (Option Estimate)} {xs : List (Evaluation Q J)}

theorem covered_and (h : List.Forall₂ (fun m x => Reads x ∧ Covered m (x ev).1) ms xs) :
    Covered (first_deciding false ms) (evaluate_and xs ev).1 :=
  covered_items false rfl (fun _ xs hreads h => evaluate_and_true hreads xs h)
    (fun _ xs hreads h => evaluate_and_decided hreads xs h) h

theorem covered_or (h : List.Forall₂ (fun m x => Reads x ∧ Covered m (x ev).1) ms xs) :
    Covered (first_deciding true ms) (evaluate_or xs ev).1 :=
  covered_items true rfl (fun _ xs hreads h => evaluate_or_false hreads xs h)
    (fun _ xs hreads h => evaluate_or_decided hreads xs h) h

theorem keys_entry_estimates (functions : String → List Estimate → Option Estimate)
    (entries : List (String × Expr)) :
    (entry_estimates functions ev entries).map Prod.fst = entries.map Prod.fst := by
  induction entries with
  | nil => rfl
  | cons entry entries ih => rw [entry_estimates, List.map_cons, List.map_cons, ih]

end Nodes

mutual

/-- By induction on the expression. -/
theorem evaluate_covered {functions : String → List Estimate → Option Estimate}
    {ev : RuleEvaluator Q J} (hhonest : Honest functions ev) :
    ∀ expr : Expr, Covered (estimate functions ev expr) (evaluate expr ev).1
  | .Const _ | .Bool _ => fun est v hm hv => by
    cases hv
    exact covers_of_value hm
  | .String _ | .RowId _ => fun est v hm _ => nomatch hm
  | .Column path => covered_value
  | .Var var => by
    intro est v hm hv
    obtain ⟨w, hw, hm⟩ := Option.bind_eq_some_iff.1 hm
    simp only [evaluate, resolve_var, hw] at hv
    cases hv
    exact covers_of_value hm
  | .Not inner => covered_not (reads_evaluate inner) (evaluate_covered hhonest inner)
  | .And items => covered_and (items_covered hhonest items)
  | .Or items => covered_or (items_covered hhonest items)
  | .Compare op lhs rhs => covered_both Covers.compare_numbers (reads_evaluate lhs)
      (reads_evaluate rhs) (evaluate_covered hhonest lhs) (evaluate_covered hhonest rhs)
  | .Arithmetic op lhs rhs => covered_both Covers.arithmetic (reads_evaluate lhs)
      (reads_evaluate rhs) (evaluate_covered hhonest lhs) (evaluate_covered hhonest rhs)
  | .If cond then_branch else_branch => covered_if (reads_evaluate cond)
      (evaluate_covered hhonest cond) (evaluate_covered hhonest then_branch)
      (evaluate_covered hhonest else_branch)
  | .Call func args => by
    rw [estimate, ← keys_entry_estimates functions args]
    exact covered_call hhonest (reads_entries args) (entries_covered hhonest args)
  | .List _ | .Map _ => fun est v hm _ => nomatch hm

theorem items_covered {functions : String → List Estimate → Option Estimate}
    {ev : RuleEvaluator Q J} (hhonest : Honest functions ev) : ∀ items : List Expr,
      List.Forall₂ (fun m x => Reads x ∧ Covered m (x ev).1) (item_estimates functions ev items)
        (evaluate_items items)
  | [] => .nil
  | item :: items =>
    .cons ⟨reads_evaluate item, evaluate_covered hhonest item⟩ (items_covered hhonest items)

theorem entries_covered {functions : String → List Estimate → Option Estimate}
    {ev : RuleEvaluator Q J} (hhonest : Honest functions ev) :
    ∀ entries : List (String × Expr),
      CoveredEntries ev (entry_estimates functions ev entries) (evaluate_entries entries)
  | [] => .nil
  | (_, expr) :: entries =>
    .cons ⟨rfl, evaluate_covered hhonest expr⟩
      (entries_covered hhonest entries)

end

/-! ## The functions of a new evaluator -/

section Default

variable {l r m : Estimate} {v w u : EvalValue}

/-- A function that does what an operator does. -/
theorem covers_builtin {op : ArithmeticOp} {f : FixedPoint → FixedPoint → CoreResult FixedPoint}
    (hf : ∀ a b, arithmetic_values op (.FixedPoint a) (.FixedPoint b)
      = ((f a b).mapError .Core).map .FixedPoint)
    (hl : l.Covers v) (hr : r.Covers w) (hm : l.arithmetic op r = some m) (name : String)
    (hu : fixed_point_builtin name f [v, w] = .ok u) : m.Covers u := by
  refine hl.arithmetic hr hm ?_
  cases hl with
  | truth b => cases hm
  | @number x a ε _ _ =>
    cases hr with
    | truth b => cases hm
    | @number y b δ _ _ =>
      rw [hf]
      exact hu

theorem honest_default {ev : RuleEvaluator Q J} (h : ev.builtins = default_builtins.1) :
    Honest builtin ev := by
  intro func f hf args values est u hargs hest hu
  rw [h] at hf
  rcases hargs with _ | ⟨hl, _ | ⟨hr, _ | ⟨_, _⟩⟩⟩
  · cases hest
  · obtain ⟨rfl, hest⟩ := Option.ite_none_right_eq_some.1 hest
    cases hf
    exact hl.negate hest hu
  · simp only [builtin] at hest
    split at hest
    · cases hf
      exact covers_builtin (fun _ _ => rfl) hl hr hest _ hu
    · cases hf
      exact covers_builtin (fun _ _ => rfl) hl hr hest _ hu
    · cases hf
      exact covers_builtin (fun _ _ => rfl) hl hr hest _ hu
    · cases hf
      exact covers_builtin (fun _ _ => rfl) hl hr hest _ hu
    · cases hf
      exact hl.extreme (fun x y hx hy => ⟨value_min hx hy, min_pick x y⟩) Near.min hr hest _ hu
    · cases hf
      exact hl.extreme (fun x y hx hy => ⟨value_max hx hy, max_pick x y⟩) Near.max hr hest _ hu
    · cases hest
  · cases hest

end Default

/-! ## Sums -/

/-- No product, no quotient and no call, conditions apart. -/
def additive : Expr → Bool
  | .Arithmetic op lhs rhs => (op == .Add || op == .Sub) && additive lhs && additive rhs
  | .If _ then_branch else_branch => additive then_branch && additive else_branch
  | .Call _ _ => false
  | _ => true

def Slackless (m : Option Estimate) : Prop := ∀ s q ε, m = some (.number s q ε) → ε = 0

theorem slackless_of_value (v : EvalValue) : Slackless (of_value v) := by
  intro s q ε h
  cases v with
  | FixedPoint x =>
    obtain ⟨-, h⟩ := Option.ite_none_right_eq_some.1 h
    cases h
    rfl
  | _ => cases h

theorem slackless_items (decides : Bool) (ms : List (Option Estimate)) :
    Slackless (first_deciding decides ms) := by
  induction ms with
  | nil => nofun
  | cons m ms ih =>
    rcases m with _ | ⟨s, a, ε⟩ | b
    · nofun
    · nofun
    · unfold first_deciding
      split
      · nofun
      · exact ih

theorem slackless_compare {op : CompareOp} (l r : Estimate) :
    Slackless (l.compare_numbers op r) := by
  intro s q ε h
  cases l with
  | truth b => cases r <;> cases h
  | number s₁ a ε₁ =>
    cases r with
    | truth b => cases h
    | number s₂ b ε₂ =>
      obtain ⟨-, h⟩ := Option.ite_none_right_eq_some.1 h
      cases h

/-- Without products and quotients the estimate is exact. -/
theorem slackless_additive (functions : String → List Estimate → Option Estimate)
    (ev : RuleEvaluator Q J) : ∀ expr : Expr, additive expr = true →
      Slackless (estimate functions ev expr)
  | .Const _, _ | .Bool _, _ | .String _, _ | .RowId _, _ => slackless_of_value _
  | .Column path, _ => fun s q ε h => by
    obtain ⟨v, -, hv⟩ := Option.bind_eq_some_iff.1 h
    exact slackless_of_value v s q ε hv
  | .Var var, _ => fun s q ε h => by
    obtain ⟨v, -, hv⟩ := Option.bind_eq_some_iff.1 h
    exact slackless_of_value v s q ε hv
  | .Not inner, _ => fun s q ε h => by
    obtain ⟨m, -, hm⟩ := Option.bind_eq_some_iff.1 h
    cases m <;> cases hm
  | .And items, _ => slackless_items _ _
  | .Or items, _ => slackless_items _ _
  | .Compare op lhs rhs, _ => fun s q ε h => by
    obtain ⟨l, -, h⟩ := Option.bind_eq_some_iff.1 h
    obtain ⟨r, -, h⟩ := Option.bind_eq_some_iff.1 h
    exact slackless_compare l r s q ε h
  | .Arithmetic op lhs rhs, hadd => fun s q ε h => by
    simp only [additive, Bool.and_eq_true, Bool.or_eq_true, beq_iff_eq] at hadd
    obtain ⟨⟨hop, hlhs⟩, hrhs⟩ := hadd
    obtain ⟨l, hl, h⟩ := Option.bind_eq_some_iff.1 h
    obtain ⟨r, hr, h⟩ := Option.bind_eq_some_iff.1 h
    rcases l with ⟨s₁, a, ε₁⟩ | b
    · rcases r with ⟨s₂, b, ε₂⟩ | b
      · have hε₁ := slackless_additive functions ev lhs hlhs _ _ _ hl
        have hε₂ := slackless_additive functions ev rhs hrhs _ _ _ hr
        rcases hop with rfl | rfl
        all_goals
          cases h
          rw [hε₁, hε₂, add_zero]
      · cases h
    · cases h
  | .If cond then_branch else_branch, hadd => fun s q ε h => by
    simp only [additive, Bool.and_eq_true] at hadd
    obtain ⟨m, -, hm⟩ := Option.bind_eq_some_iff.1 h
    rcases m with ⟨s₁, a, ε₁⟩ | _ | _
    · cases hm
    · exact slackless_additive functions ev else_branch hadd.2 s q ε hm
    · exact slackless_additive functions ev then_branch hadd.1 s q ε hm
  | .Call _ _, hadd => nomatch hadd
  | .List _, _ | .Map _, _ => nofun

/-- A rule's number is the exact one up to the slack of its estimate, a truth value is the exact
one, and sums are exact: whatever the expression reads, if it has an estimate and a value. -/
theorem rule_arithmetic_sound {functions : String → List Estimate → Option Estimate}
    {ev : RuleEvaluator Q J} (hhonest : Honest functions ev) (expr : Expr) {v : EvalValue}
    (hv : (evaluate expr ev).1 = .ok v) :
    (∀ s q ε, estimate functions ev expr = some (.number s q ε) →
        ∃ x, v = .FixedPoint x ∧ x.scale = s ∧ |x.value - q| ≤ ε
          ∧ (additive expr = true → x.value = q))
      ∧ ∀ b, estimate functions ev expr = some (.truth b) → v = .Bool b := by
  have hcovered := evaluate_covered hhonest expr
  constructor
  · intro s q ε hest
    cases hcovered _ v hest hv with
    | @number x _ _ _ hnear =>
      refine ⟨x, rfl, rfl, hnear, fun hadd => ?_⟩
      exact hnear.eq (slackless_additive functions ev expr hadd _ _ _ hest)
  · intro b hest
    cases hcovered _ v hest hv
    rfl

/-! ## A third of ten, under a condition -/

/-- `if 2.00 * 1.50 > 2.50 then 10.00 / 3.00 else 0.00`. -/
def third : Expr :=
  .If (.Compare .Gt (.Arithmetic .Mul (.Const (.new 200 2)) (.Const (.new 150 2)))
      (.Const (.new 250 2)))
    (.Arithmetic .Div (.Const (.new 1000 2)) (.Const (.new 300 2))) (.Const (.new 0 2))

def plain_evaluator : RuleEvaluator Unit Unit :=
  .new (.new (.new .new)) (.new (.new .new)) "province" 1

theorem third_sound : ∃ x, (evaluate third plain_evaluator).1 = .ok (.FixedPoint x)
    ∧ |x.value - 10 / 3| ≤ 1 / 100 := by
  have hvalue : (evaluate third plain_evaluator).1 = .ok (.FixedPoint (.new 333 2)) := rfl
  have hest : estimate builtin plain_evaluator third = some (.number 2 (10 / 3) (1 / 100)) := by
    decide +kernel
  obtain ⟨x, hx, -, hnear, -⟩ :=
    (rule_arithmetic_sound (honest_default rfl) third hvalue).1 _ _ _ hest
  exact ⟨x, by rw [hvalue, hx], hnear⟩

end RuleEvaluator

end Scharnhorst
