/-
When an override wins.

The modifiers of a column are aggregated in three stages: the sums, the products, and the last
override in place of what these came to. The override does not use that value, but the stages
before it can fail, and then they fail for the override too. When they do is written down here in
integers: each modifier has to be brought to the scale of the base, each sum and each product has
to be an `i64`, and a product is divided by a power of ten that has to be one.

The stages take the sums and the products out of the list in their own order, so how they are
mixed with each other is not seen.
-/
import Scharnhorst.Expr
import Scharnhorst.FixedPointArith
import Scharnhorst.ReadOnly

set_option autoImplicit false

namespace Scharnhorst

namespace FixedPoint

variable {x y : FixedPoint} {s : UInt32}

/-! ## Another scale -/

/-- The number of units of the scale `s`, rounded where digits go. -/
def scaled (x : FixedPoint) (s : UInt32) : Int :=
  if x.scale ≤ s then x.raw.toInt * 10 ^ (s - x.scale).toNat
  else Decimal.round_tdiv x.raw.toInt (10 ^ (x.scale - s).toNat)

/-- The scales are at most eighteen digits apart, and the number is an `i64`. -/
def Rescales (x : FixedPoint) (s : UInt32) : Prop :=
  (if x.scale ≤ s then s - x.scale else x.scale - s).toNat ≤ 18 ∧ InI64 (x.scaled s)

instance (x : FixedPoint) (s : UInt32) : Decidable (x.Rescales s) :=
  inferInstanceAs (Decidable (_ ∧ _))

theorem eq_of_raw {raw : Int64} (hscale : y.scale = s) (hraw : y.raw.toInt = raw.toInt) :
    y = new raw s := by
  obtain ⟨r, t⟩ := y
  have hr : r = raw := Int64.toInt_inj.1 hraw
  have ht : t = s := hscale
  rw [hr, ht]
  rfl

/-- What `rescale` does, up and down. -/
theorem rescale_ok_iff :
    x.rescale s = .ok y ↔ x.Rescales s ∧ y.scale = s ∧ y.raw.toInt = x.scaled s := by
  unfold Rescales scaled
  rcases scale_cases x.scale s with hsame | hup | hdown
  · rw [← hsame, rescale_same]
    have hle : x.scale ≤ x.scale := UInt32.le_refl _
    simp only [if_pos hle, UInt32.sub_self, UInt32.toNat_zero, pow_zero, mul_one]
    constructor
    · intro h
      rw [← Except.ok.inj h]
      exact ⟨⟨by omega, in_i64 _⟩, rfl, rfl⟩
    · rintro ⟨-, hscale, hraw⟩
      rw [eq_of_raw hscale hraw]
      rfl
  · have hle : x.scale ≤ s := UInt32.le_of_lt hup
    simp only [if_pos hle]
    by_cases hfits : (s - x.scale).toNat ≤ 18 ∧ InI64 (x.raw.toInt * 10 ^ (s - x.scale).toNat)
    · obtain ⟨r, -, hr⟩ := i64_of_int_in hfits.2
      rw [rescale_up_ok hup hfits.1 hr, ← hr]
      constructor
      · intro h
        rw [← Except.ok.inj h]
        exact ⟨⟨hfits.1, in_i64 r⟩, rfl, rfl⟩
      · rintro ⟨-, hscale, hraw⟩
        rw [eq_of_raw hscale hraw]
    · rw [rescale_up_error hup hfits]
      constructor
      · intro h
        cases h
      · intro h
        exact absurd h.1 hfits
  · have hnot : ¬ x.scale ≤ s := UInt32.not_le.2 hdown
    simp only [if_neg hnot]
    by_cases hgap : (x.scale - s).toNat ≤ 18
    · obtain ⟨r, hok, hr⟩ := rescale_down hdown hgap
      rw [hok, ← hr]
      constructor
      · intro h
        rw [← Except.ok.inj h]
        exact ⟨⟨hgap, in_i64 r⟩, rfl, rfl⟩
      · rintro ⟨-, hscale, hraw⟩
        rw [eq_of_raw hscale hraw]
    · rw [rescale_down_error hdown hgap]
      constructor
      · intro h
        cases h
      · intro h
        exact absurd h.1.1 hgap

/-! ## Sums and products of one scale -/

theorem add_ok_iff {a b r : FixedPoint} (hscale : a.scale = b.scale) :
    a.add b = .ok r ↔ r.scale = a.scale ∧ r.raw.toInt = a.raw.toInt + b.raw.toInt := by
  unfold add I64.checked_add
  rw [ensure_same_scale_ok hscale]
  change (ok_or _ _ >>= fun raw => (Except.ok (new raw a.scale) : CoreResult FixedPoint)) = _ ↔ _
  rw [ok_or_bind_ok]
  constructor
  · rintro ⟨raw, hraw, h⟩
    rw [← Except.ok.inj h]
    exact ⟨rfl, i64_of_int_eq_some.1 hraw⟩
  · rintro ⟨hr, hraw⟩
    refine ⟨r.raw, i64_of_int_eq_some.2 hraw, ?_⟩
    rw [eq_of_raw hr rfl]
    rfl

theorem mul_ok_iff {a b r : FixedPoint} (hscale : a.scale = b.scale) :
    a.mul b = .ok r ↔ InI64 (a.raw.toInt * b.raw.toInt) ∧ a.scale.toNat ≤ 18
      ∧ r.scale = a.scale
      ∧ r.raw.toInt = (a.raw.toInt * b.raw.toInt).tdiv (10 ^ a.scale.toNat) := by
  unfold mul
  rw [ensure_same_scale_ok hscale]
  change (ok_or _ _ >>= fun product => ok_or _ _ >>= fun factor => ok_or _ _ >>= fun raw =>
    (Except.ok (new raw a.scale) : CoreResult FixedPoint)) = _ ↔ _
  rw [ok_or_bind_ok]
  constructor
  · rintro ⟨product, hproduct, h⟩
    obtain ⟨factor, hfactor, h⟩ := ok_or_bind_ok.1 h
    obtain ⟨raw, hraw, h⟩ := ok_or_bind_ok.1 h
    have hin := i64_of_int_eq_some.1 hproduct
    by_cases hpow : a.scale.toNat ≤ 18
    · obtain ⟨f, hf, hten⟩ := exists_pow_ten hpow
      rw [Option.some.inj (hfactor.symm.trans hf)] at hraw
      rw [I64.checked_div, if_neg (pow_ten_ne_zero hten), i64_of_int_eq_some, hin, hten] at hraw
      rw [← Except.ok.inj h, ← hin]
      refine ⟨in_i64 product, hpow, rfl, ?_⟩
      rw [hin]
      exact hraw
    · rw [checked_pow_ten_large hpow] at hfactor
      cases hfactor
  · rintro ⟨hin, hpow, hr, hraw⟩
    obtain ⟨product, hproduct, hvalue⟩ := i64_of_int_in hin
    obtain ⟨f, hf, hten⟩ := exists_pow_ten hpow
    refine ⟨product, hproduct, ?_⟩
    rw [ok_or_bind_ok]
    refine ⟨f, hf, ?_⟩
    rw [ok_or_bind_ok]
    refine ⟨r.raw, ?_, ?_⟩
    · rw [I64.checked_div, if_neg (pow_ten_ne_zero hten), i64_of_int_eq_some, hvalue, hten]
      exact hraw
    · rw [eq_of_raw hr rfl]
      rfl

/-! ## Lists of them -/

/-- Every value can be added, one after the other. -/
def AddsFit (s : UInt32) : Int → List FixedPoint → Prop
  | _, [] => True
  | acc, x :: xs => x.Rescales s ∧ InI64 (acc + x.scaled s) ∧ AddsFit s (acc + x.scaled s) xs

/-- What `acc` is after the values have been added. -/
def total (s : UInt32) (acc : Int) (xs : List FixedPoint) : Int :=
  acc + (xs.map fun x => x.scaled s).sum

/-- Where each partial sum fits, the last one does. -/
theorem AddsFit.total_in {s : UInt32} {acc : Int} {xs : List FixedPoint} (h : AddsFit s acc xs)
    (hacc : InI64 acc) : InI64 (total s acc xs) := by
  induction xs generalizing acc with
  | nil => simpa [total] using hacc
  | cons x xs ih =>
    obtain ⟨-, hin, hrest⟩ := h
    have hlast := ih hrest hin
    rw [total, List.map_cons, List.sum_cons, ← add_assoc]
    exact hlast

/-- Every value can be multiplied with, one after the other. -/
def MulsFit (s : UInt32) : Int → List FixedPoint → Prop
  | _, [] => True
  | acc, x :: xs => x.Rescales s ∧ InI64 (acc * x.scaled s) ∧ s.toNat ≤ 18
    ∧ MulsFit s ((acc * x.scaled s).tdiv (10 ^ s.toNat)) xs

end FixedPoint

open FixedPoint ReadOnly

/-! ## Stages -/

section Stages

variable {m : Modifier} {mods : List Modifier} {base r : FixedPoint}

theorem mapError_ok {α : Type} {res : CoreResult α} {a : α} :
    res.mapError RuleError.Core = .ok a ↔ res = .ok a := by
  rcases res with e | b
  · constructor <;> intro h <;> cases h
  · constructor
    · intro h
      exact congrArg Except.ok (Except.ok.inj h)
    · intro h
      rw [Except.ok.inj h]
      rfl

theorem apply_add_ok (hop : m.op = .Add) :
    m.apply base = .ok r ↔ m.value.Rescales base.scale ∧ r.scale = base.scale
      ∧ r.raw.toInt = base.raw.toInt + m.value.scaled base.scale := by
  unfold Modifier.apply
  rw [hop]
  change (_ >>= fun value => (base.add value).mapError RuleError.Core) = _ ↔ _
  rw [bind_eq_ok]
  constructor
  · rintro ⟨value, hvalue, h⟩
    obtain ⟨hrescales, hscale, hraw⟩ := rescale_ok_iff.1 (mapError_ok.1 hvalue)
    obtain ⟨hr, hsum⟩ := (add_ok_iff hscale.symm).1 (mapError_ok.1 h)
    rw [hraw] at hsum
    exact ⟨hrescales, hr, hsum⟩
  · rintro ⟨hrescales, hr, hsum⟩
    obtain ⟨raw, -, hraw⟩ := i64_of_int_in hrescales.2
    refine ⟨new raw base.scale, mapError_ok.2 (rescale_ok_iff.2 ⟨hrescales, rfl, hraw⟩), ?_⟩
    have hscale : base.scale = (new raw base.scale).scale := rfl
    refine mapError_ok.2 ((add_ok_iff hscale).2 ⟨hr, ?_⟩)
    rw [hsum, ← hraw]
    rfl

theorem apply_mul_ok (hop : m.op = .Mul) :
    m.apply base = .ok r ↔ m.value.Rescales base.scale
      ∧ InI64 (base.raw.toInt * m.value.scaled base.scale) ∧ base.scale.toNat ≤ 18
      ∧ r.scale = base.scale
      ∧ r.raw.toInt
        = (base.raw.toInt * m.value.scaled base.scale).tdiv (10 ^ base.scale.toNat) := by
  unfold Modifier.apply
  rw [hop]
  change (_ >>= fun value => (base.mul value).mapError RuleError.Core) = _ ↔ _
  rw [bind_eq_ok]
  constructor
  · rintro ⟨value, hvalue, h⟩
    obtain ⟨hrescales, hscale, hraw⟩ := rescale_ok_iff.1 (mapError_ok.1 hvalue)
    have hproduct := (mul_ok_iff hscale.symm).1 (mapError_ok.1 h)
    rw [hraw] at hproduct
    exact ⟨hrescales, hproduct⟩
  · rintro ⟨hrescales, hproduct⟩
    obtain ⟨raw, -, hraw⟩ := i64_of_int_in hrescales.2
    refine ⟨new raw base.scale, mapError_ok.2 (rescale_ok_iff.2 ⟨hrescales, rfl, hraw⟩), ?_⟩
    rw [← hraw] at hproduct
    have hscale : base.scale = (new raw base.scale).scale := rfl
    exact mapError_ok.2 ((mul_ok_iff hscale).2 hproduct)

/-- The stage of the sums, and what it comes to. -/
theorem adds_ok (hops : ∀ m ∈ mods, m.op = .Add) :
    mods.foldlM (fun acc m => m.apply acc) base = .ok r ↔
      AddsFit base.scale base.raw.toInt (mods.map Modifier.value) ∧ r.scale = base.scale
        ∧ r.raw.toInt = total base.scale base.raw.toInt (mods.map Modifier.value) := by
  induction mods generalizing base with
  | nil =>
    simp only [List.foldlM_nil, List.map_nil, AddsFit, total, List.sum_nil, add_zero, true_and]
    constructor
    · intro h
      rw [Except.ok.inj h]
      exact ⟨rfl, rfl⟩
    · rintro ⟨hscale, hraw⟩
      rw [eq_of_raw hscale hraw]
      rfl
  | cons m mods ih =>
    obtain ⟨hop, hops⟩ := List.forall_mem_cons.1 hops
    rw [List.foldlM_cons, bind_eq_ok, List.map_cons]
    simp only [AddsFit, total, List.map_cons, List.sum_cons]
    constructor
    · rintro ⟨mid, hmid, h⟩
      -- the sum so far has the scale of the base, so the rest is added to it as to a base
      obtain ⟨hrescales, hscale, hraw⟩ := (apply_add_ok hop).1 hmid
      obtain ⟨hfit, hr, hsum⟩ := (ih hops).1 h
      rw [hscale] at hfit hr hsum
      rw [hraw] at hfit
      rw [total, hraw, add_assoc] at hsum
      refine ⟨⟨hrescales, ?_, hfit⟩, hr, hsum⟩
      rw [← hraw]
      exact in_i64 mid.raw
    · rintro ⟨⟨hrescales, hin, hfit⟩, hr, hsum⟩
      obtain ⟨raw, -, hraw⟩ := i64_of_int_in hin
      refine ⟨new raw base.scale, (apply_add_ok hop).2 ⟨hrescales, rfl, hraw⟩, (ih hops).2 ?_⟩
      change AddsFit base.scale raw.toInt _ ∧ r.scale = base.scale ∧ _ = total base.scale raw.toInt _
      rw [hraw, total, add_assoc]
      exact ⟨hfit, hr, hsum⟩

/-- The stage of the products. -/
theorem muls_ok (hops : ∀ m ∈ mods, m.op = .Mul) :
    (∃ r, mods.foldlM (fun acc m => m.apply acc) base = .ok r) ↔
      MulsFit base.scale base.raw.toInt (mods.map Modifier.value) := by
  induction mods generalizing base with
  | nil => exact ⟨fun _ => trivial, fun _ => ⟨base, rfl⟩⟩
  | cons m mods ih =>
    obtain ⟨hop, hops⟩ := List.forall_mem_cons.1 hops
    simp only [List.foldlM_cons, bind_eq_ok, List.map_cons, MulsFit]
    constructor
    · rintro ⟨r, mid, hmid, h⟩
      obtain ⟨hrescales, hin, hpow, hscale, hraw⟩ := (apply_mul_ok hop).1 hmid
      have hfit := (ih hops).1 ⟨r, h⟩
      rw [hscale, hraw] at hfit
      exact ⟨hrescales, hin, hpow, hfit⟩
    · rintro ⟨hrescales, hin, hpow, hfit⟩
      -- what is checked is the product; the quotient is no larger
      obtain ⟨raw, -, hraw⟩ := i64_of_int_in (hin.tdiv (show 0 < 10 ^ base.scale.toNat by positivity))
      have hmid : m.apply base = .ok (new raw base.scale) :=
        (apply_mul_ok hop).2 ⟨hrescales, hin, hpow, rfl, hraw⟩
      rw [← hraw] at hfit
      have hfold : ∃ r, mods.foldlM (fun acc m => m.apply acc) (new raw base.scale) = .ok r :=
        (ih hops).2 hfit
      obtain ⟨r, hr⟩ := hfold
      exact ⟨r, _, hmid, hr⟩

end Stages

/-! ## Registries -/

namespace ModifierRegistry

/-- The modifiers of a field with this operation, in the order of their registration. -/
def of_op (self : ModifierRegistry) (table column : String) (op : ModifierOp) : List Modifier :=
  ((self.modifiers_for table column).getD []).filter fun m => m.op = op

theorem modifiers_for_register (self : ModifierRegistry) (t c table column : String)
    (m : Modifier) :
    (self.register t c m).modifiers_for table column
      = if (table, column) = (t, c) then some ((self.modifiers_for t c).getD [] ++ [m])
        else self.modifiers_for table column := by
  have hbeq : (instBEqProd : BEq (String × String)) = @instBEqOfDecidableEq (String × String) _ :=
    lawful_beq_subsingleton _ _
  have h := Listed.lookup_insert self.entries (t, c) (table, column)
    ((self.modifiers_for t c).getD [] ++ [m])
  rw [← hbeq] at h
  exact h

/-- A registration is seen by its own field, and there by its own operation, at the end. -/
theorem of_op_register (self : ModifierRegistry) (t c table column : String) (m : Modifier)
    (op : ModifierOp) :
    (self.register t c m).of_op table column op
      = if (table, column) = (t, c) ∧ m.op = op then self.of_op table column op ++ [m]
        else self.of_op table column op := by
  unfold of_op
  rw [modifiers_for_register]
  by_cases hkey : (table, column) = (t, c)
  · obtain ⟨rfl, rfl⟩ := Prod.mk.inj hkey
    rw [if_pos rfl, Option.getD_some, List.filter_append]
    by_cases hop : m.op = op
    · simp [hop]
    · simp [hop]
  · rw [if_neg hkey, if_neg fun h => hkey h.1]

variable (self : ModifierRegistry) (table column : String) (base : FixedPoint)

theorem op_of_op {op : ModifierOp} : ∀ m ∈ self.of_op table column op, m.op = op := by
  intro m hm
  exact of_decide_eq_true (List.mem_filter.1 hm).2

/-- The sums and the products of the field go through, from this base. -/
def StagesFit : Prop :=
  AddsFit base.scale base.raw.toInt ((self.of_op table column .Add).map Modifier.value)
    ∧ MulsFit base.scale
      (total base.scale base.raw.toInt ((self.of_op table column .Add).map Modifier.value))
      ((self.of_op table column .Mul).map Modifier.value)

theorem stages_ok :
    (∃ r, ((self.of_op table column .Add).foldlM (fun acc m => m.apply acc) base >>= fun after_add =>
        (self.of_op table column .Mul).foldlM (fun acc m => m.apply acc) after_add) = .ok r) ↔
      self.StagesFit table column base := by
  unfold StagesFit
  simp only [bind_eq_ok]
  constructor
  · rintro ⟨r, mid, hmid, hr⟩
    obtain ⟨hfit, hscale, hraw⟩ := (adds_ok (self.op_of_op table column)).1 hmid
    have hmuls := (muls_ok (self.op_of_op table column)).1 ⟨r, hr⟩
    rw [hscale, hraw] at hmuls
    exact ⟨hfit, hmuls⟩
  · rintro ⟨hadds, hmuls⟩
    obtain ⟨raw, -, hraw⟩ := i64_of_int_in (hadds.total_in (in_i64 base.raw))
    have hmid := (adds_ok (r := .new raw base.scale) (self.op_of_op table column)).2
      ⟨hadds, rfl, hraw⟩
    rw [← hraw] at hmuls
    have hfold : ∃ r, (self.of_op table column .Mul).foldlM (fun acc m => m.apply acc)
        (FixedPoint.new raw base.scale) = .ok r :=
      (muls_ok (self.op_of_op table column)).2 hmuls
    obtain ⟨r, hr⟩ := hfold
    exact ⟨r, _, hmid, hr⟩

/-- The three stages of `aggregate`. -/
theorem aggregate_eq :
    self.aggregate table column base
      = ((self.of_op table column .Add).foldlM (fun acc m => m.apply acc) base >>= fun after_add =>
          (self.of_op table column .Mul).foldlM (fun acc m => m.apply acc) after_add) >>=
        fun after_mul =>
          match (self.of_op table column .Override).getLast? with
          | none => .ok after_mul
          | some m => m.apply after_mul := by
  unfold aggregate of_op
  exact (bind_assoc _ _ _).symm

/-- What the registry promises of a field: an override wins, the last one registered, and without
one only the order of the sums and that of the products count. -/
structure OverrideWins (reg : ModifierRegistry) (table column : String) (base : FixedPoint) :
    Prop where
  wins : ∀ m, (reg.of_op table column .Override).getLast? = some m →
    reg.aggregate table column base = .ok m.value
  order : ∀ reg' : ModifierRegistry,
    reg.of_op table column .Override = [] → reg'.of_op table column .Override = [] →
    reg'.of_op table column .Add = reg.of_op table column .Add →
    reg'.of_op table column .Mul = reg.of_op table column .Mul →
    reg'.aggregate table column base = reg.aggregate table column base

/-- An override wins exactly if the sums and the products that it makes superfluous go through. -/
theorem overrideWins_iff :
    self.OverrideWins table column base ↔
      self.of_op table column .Override = [] ∨ self.StagesFit table column base := by
  constructor
  · intro h
    rcases hlast : (self.of_op table column .Override).getLast? with _ | m
    · exact .inl (List.getLast?_eq_none_iff.1 hlast)
    · right
      have hwins := h.wins m hlast
      rw [aggregate_eq] at hwins
      obtain ⟨after_mul, hstages, -⟩ := bind_eq_ok.1 hwins
      exact (self.stages_ok table column base).1 ⟨after_mul, hstages⟩
  · intro h
    refine ⟨?_, ?_⟩
    · intro m hm
      have hne : self.of_op table column .Override ≠ [] := by
        intro hnil
        rw [hnil] at hm
        cases hm
      obtain ⟨r, hr⟩ := (self.stages_ok table column base).2 (h.resolve_left hne)
      have hop : m.op = .Override := self.op_of_op table column m (List.mem_of_getLast? hm)
      rw [aggregate_eq, hr, hm]
      change m.apply r = .ok m.value
      rw [Modifier.apply, hop]
    · intro self' hnone hnone' hadds hmuls
      rw [aggregate_eq, aggregate_eq, hadds, hmuls, hnone, hnone']

/-- A sum that overflows, and an override. -/
def overflowing_sum : ModifierRegistry :=
  (ModifierRegistry.new.register "actor" "treasury" { op := .Add, value := .new Int64.maxValue 0 }).register
    "actor" "treasury" { op := .Override, value := .new 42 0 }

/-- The override is registered, and the aggregate is an error. -/
theorem override_loses :
    (overflowing_sum.of_op "actor" "treasury" .Override).getLast?
        = some { op := .Override, value := .new 42 0 }
      ∧ overflowing_sum.aggregate "actor" "treasury" (.new 1 0)
        = .error (.Core .ArithmeticOverflow)
      ∧ ¬ overflowing_sum.OverrideWins "actor" "treasury" (.new 1 0) := by
  have hlast : (overflowing_sum.of_op "actor" "treasury" .Override).getLast?
      = some { op := .Override, value := .new 42 0 } := by decide +kernel
  have herror : overflowing_sum.aggregate "actor" "treasury" (.new 1 0)
      = .error (.Core .ArithmeticOverflow) := by decide +kernel
  refine ⟨hlast, herror, ?_⟩
  intro h
  have hwins := h.wins _ hlast
  rw [herror] at hwins
  cases hwins

end ModifierRegistry

end Scharnhorst
