/-
The arithmetic of overlays against that of the integers.

The texts that a path goes through are computed a second time with integers that have no bound.
The two computations agree as long as no sum of two `i64` leaves the type; at the first one that
does, a build with overflow checks panics and one without goes on with a wrapped value.
-/
import Scharnhorst.DecimalText
import Scharnhorst.OverlayOrder

set_option autoImplicit false

namespace Scharnhorst

/-! ## Integers as texts -/

/-- The integer that a text is read as: an `i64`. -/
def integer_of (s : String) : Option Int := (parse_i64 s.toList).toOption.map Int64.toInt

theorem integer_of_eq_some {s : String} {v : Int} :
    integer_of s = some v ↔ ∃ r, parse_i64 s.toList = .ok r ∧ r.toInt = v := by
  unfold integer_of
  rcases parse_i64 s.toList with e | r
  · simp [Except.toOption]
  · simp [Except.toOption]

theorem integer_of_eq_none {s : String} :
    integer_of s = none ↔ ∃ e, parse_i64 s.toList = .error e := by
  unfold integer_of
  rcases parse_i64 s.toList with e | r
  · simp [Except.toOption]
  · simp [Except.toOption]

/-- The decimal text of an `i64` is read as it. -/
theorem integer_of_toString {v : Int} (h : InI64 v) : integer_of (toString v) = some v := by
  obtain ⟨r, -, hr⟩ := i64_of_int_in h
  refine integer_of_eq_some.mpr ⟨r, parse_i64_ok.mpr ?_, hr⟩
  have hback : Nat.ofDigitChars 10 (Nat.toDigits 10 v.natAbs) 0 = v.natAbs :=
    Nat.ofDigitChars_toDigits (by decide) (by decide)
  have hdigits : ∀ c ∈ Nat.toDigits 10 v.natAbs, c.isDigit = true :=
    fun c hc => DecimalText.isDigit_of_mem hc
  rw [DecimalText.toList_toString]
  by_cases hneg : v < 0
  · refine ⟨.Minus, Nat.toDigits 10 v.natAbs, if_pos hneg, Nat.toDigits_ne_nil, hdigits, ?_⟩
    rw [hback, hr]
    show v = -(v.natAbs : Int)
    omega
  · refine ⟨.Plain, Nat.toDigits 10 v.natAbs, if_neg hneg, Nat.toDigits_ne_nil, hdigits, ?_⟩
    rw [hback, hr]
    show v = (v.natAbs : Int)
    omega

/-! ## Without a bound -/

/-- The sum of a text and an entry leaves `i64`. -/
def AddOverflows (text : String) (entry : OverlayEntry) : Prop :=
  entry.strategy = .Add ∧ ∃ b o, integer_of text = some b ∧ integer_of entry.value = some o
    ∧ ¬InI64 (b + o)

/-- One entry over a text, with integers that have no bound. -/
def exact_step (text : String) (entry : OverlayEntry) : Option String :=
  match entry.strategy with
  | .Replace => some entry.value
  | .Append => some (text ++ entry.value)
  | .Prepend => some (entry.value ++ text)
  | .Add => do return toString ((← integer_of text) + (← integer_of entry.value))
  | .Min => do return toString (min (← integer_of text) (← integer_of entry.value))
  | .Max => do return toString (max (← integer_of text) (← integer_of entry.value))

/-- On the way through the entries some sum leaves `i64`. -/
def Overflows : String → List OverlayEntry → Prop
  | _, [] => False
  | text, entry :: entries =>
    AddOverflows text entry ∨ ∃ next, exact_step text entry = some next ∧ Overflows next entries

/-- The operation of an arithmetic strategy. -/
def MergeStrategy.operation : MergeStrategy → Option (Int → Int → Int)
  | Add => some fun b o => b + o
  | Min => some fun b o => min b o
  | Max => some fun b o => max b o
  | _ => none

/-- The exact result of arithmetic entries, if each value on the way is an `i64`. -/
def exact_value : Int → List OverlayEntry → Option Int
  | v, [] => some v
  | v, entry :: entries => do
    let operation ← entry.strategy.operation
    let o ← integer_of entry.value
    if InI64 (operation v o) then exact_value (operation v o) entries else none

/-! ## One step -/

section Step

variable {text : String} {entry : OverlayEntry}

/-- Either both sides are read as integers, or the strategy is refused. -/
theorem parse_operands_cases (verb base overlay : String) :
    (∃ b o : Int64, integer_of base = some b.toInt ∧ integer_of overlay = some o.toInt
        ∧ parse_operands verb base overlay = .ok (b, o))
      ∨ (integer_of base = none ∨ integer_of overlay = none)
        ∧ ∃ message, parse_operands verb base overlay = .error (.OverlayConflict message) := by
  unfold parse_operands
  rcases hb : parse_i64 base.toList with e | b
  · exact .inr ⟨.inl (integer_of_eq_none.mpr ⟨e, hb⟩), _, rfl⟩
  · rcases ho : parse_i64 overlay.toList with e | o
    · exact .inr ⟨.inr (integer_of_eq_none.mpr ⟨e, ho⟩), _, rfl⟩
    · exact .inl ⟨b, o, integer_of_eq_some.mpr ⟨b, hb, rfl⟩,
        integer_of_eq_some.mpr ⟨o, ho, rfl⟩, rfl⟩

theorem toInt_min (b o : Int64) : (min b o).toInt = min b.toInt o.toInt := by
  by_cases h : b ≤ o
  · rw [min_eq_left (Int64.le_iff_toInt_le.mp h)]
    exact congrArg _ (if_pos h)
  · rw [min_eq_right (by rw [Int64.le_iff_toInt_le] at h; omega)]
    exact congrArg _ (if_neg h)

theorem toInt_max (b o : Int64) : (max b o).toInt = max b.toInt o.toInt := by
  by_cases h : b ≤ o
  · rw [max_eq_right (Int64.le_iff_toInt_le.mp h)]
    exact congrArg _ (if_pos h)
  · rw [max_eq_left (by rw [Int64.le_iff_toInt_le] at h; omega)]
    exact congrArg _ (if_neg h)

/-- In range both builds add alike. -/
theorem build_add (build : Build) {b o : Int64} (h : InI64 (b.toInt + o.toInt)) :
    ∃ sum, build.add b o = .ok sum ∧ sum.toInt = b.toInt + o.toInt := by
  rcases build
  · obtain ⟨sum, hsum, hval⟩ := i64_of_int_in h
    refine ⟨sum, ?_, hval⟩
    simp only [Build.add, I64.checked_add, hsum]
  · refine ⟨b + o, rfl, ?_⟩
    rw [Int64.toInt_add]
    exact Int.bmod_eq_of_le h.1 h.2

/-- With a side that is no integer an arithmetic strategy has no result. -/
theorem exact_step_none {f : Int → Int → Int} {value : String}
    (h : integer_of text = none ∨ integer_of value = none) :
    (do return toString (f (← integer_of text) (← integer_of value)) : Option String) = none := by
  rcases h with h | h
  · rw [h]
    rfl
  · rw [h]
    rcases integer_of text <;> rfl

theorem exact_step_some {f : Int → Int → Int} {value : String} {b o : Int}
    (hb : integer_of text = some b) (ho : integer_of value = some o) :
    (do return toString (f (← integer_of text) (← integer_of value)) : Option String)
      = some (toString (f b o)) := by
  rw [hb, ho]
  rfl

/-- Without an overflow a step is exact, or refused alike in both builds. -/
theorem step_eq (h : ¬AddOverflows text entry) :
    (∃ next, exact_step text entry = some next
        ∧ ∀ build, apply_strategy build text entry.value entry.strategy = .ok next)
      ∨ exact_step text entry = none ∧ ∃ message, ∀ build,
        apply_strategy build text entry.value entry.strategy = .error (.OverlayConflict message) := by
  rcases entry with ⟨path, value, _ | _ | _ | _ | _ | _⟩
  -- the text strategies have no way to fail
  · exact .inl ⟨_, rfl, fun _ => rfl⟩
  · exact .inl ⟨_, rfl, fun _ => rfl⟩
  · exact .inl ⟨_, rfl, fun _ => rfl⟩
  -- a sum in range is the same in both builds; a minimum or a maximum is one of its sides
  · rcases parse_operands_cases "add" text value with
      ⟨b, o, hb, ho, hparse⟩ | ⟨hnone, message, hparse⟩
    · have hin : InI64 (b.toInt + o.toInt) := by
        by_contra hout
        exact h ⟨rfl, _, _, hb, ho, hout⟩
      refine .inl ⟨_, exact_step_some (f := (· + ·)) hb ho, fun build => ?_⟩
      obtain ⟨sum, hsum, hval⟩ := build_add build hin
      simp only [apply_strategy, hparse, hsum, bind, Except.bind, pure, Except.pure,
        i64_to_string, hval]
    · refine .inr ⟨exact_step_none (f := (· + ·)) hnone, message, fun _ => ?_⟩
      simp only [apply_strategy, hparse, bind, Except.bind]
  · rcases parse_operands_cases "min" text value with
      ⟨b, o, hb, ho, hparse⟩ | ⟨hnone, message, hparse⟩
    · refine .inl ⟨_, exact_step_some (f := min) hb ho, fun _ => ?_⟩
      simp only [apply_strategy, hparse, bind, Except.bind, pure, Except.pure, i64_to_string,
        toInt_min]
    · refine .inr ⟨exact_step_none (f := min) hnone, message, fun _ => ?_⟩
      simp only [apply_strategy, hparse, bind, Except.bind]
  · rcases parse_operands_cases "max" text value with
      ⟨b, o, hb, ho, hparse⟩ | ⟨hnone, message, hparse⟩
    · refine .inl ⟨_, exact_step_some (f := max) hb ho, fun _ => ?_⟩
      simp only [apply_strategy, hparse, bind, Except.bind, pure, Except.pure, i64_to_string,
        toInt_max]
    · refine .inr ⟨exact_step_none (f := max) hnone, message, fun _ => ?_⟩
      simp only [apply_strategy, hparse, bind, Except.bind]

theorem step_overflow (h : AddOverflows text entry) :
    apply_strategy .Debug text entry.value entry.strategy = .error .Panic := by
  obtain ⟨hadd, b, o, hb, ho, hout⟩ := h
  rcases parse_operands_cases "add" text entry.value with
    ⟨b', o', hb', ho', hparse⟩ | ⟨hnone, -⟩
  · obtain rfl := Option.some.inj (hb.symm.trans hb')
    obtain rfl := Option.some.inj (ho.symm.trans ho')
    have hsum : I64.checked_add b' o' = none := i64_of_int_out hout
    simp only [hadd, apply_strategy, hparse, bind, Except.bind, Build.add, hsum]
  · simp [hb, ho] at hnone

end Step

/-! ## All steps -/

/-- The entries over a text, in order. -/
def fold_entries (build : Build) (text : String) (entries : List OverlayEntry) :
    OverlayResult String :=
  entries.foldlM (fun current entry => apply_strategy build current entry.value entry.strategy) text

theorem fold_cons_ok {build : Build} {text next : String} {entry : OverlayEntry}
    (h : apply_strategy build text entry.value entry.strategy = .ok next)
    (entries : List OverlayEntry) :
    fold_entries build text (entry :: entries) = fold_entries build next entries := by
  rw [fold_entries, List.foldlM_cons, h]
  rfl

theorem fold_cons_error {build : Build} {text : String} {entry : OverlayEntry} {e : OverlayError}
    (h : apply_strategy build text entry.value entry.strategy = .error e)
    (entries : List OverlayEntry) :
    fold_entries build text (entry :: entries) = .error e := by
  rw [fold_entries, List.foldlM_cons, h]
  rfl

/-- A sum that leaves the type ends a build with checks. -/
theorem fold_overflow {entries : List OverlayEntry} {text : String} (h : Overflows text entries) :
    fold_entries .Debug text entries = .error .Panic := by
  induction entries generalizing text with
  | nil => exact h.elim
  | cons entry entries ih =>
    by_cases hadd : AddOverflows text entry
    · exact fold_cons_error (step_overflow hadd) entries
    · obtain ⟨next, hnext, hrest⟩ := h.resolve_left hadd
      rcases step_eq hadd with ⟨next', hnext', hstep⟩ | ⟨hnone, -⟩
      · obtain rfl := Option.some.inj (hnext.symm.trans hnext')
        rw [fold_cons_ok (hstep .Debug)]
        exact ih hrest
      · rw [hnone] at hnext
        cases hnext

/-- Without one, the two builds do the same and neither panics. -/
theorem fold_alike {entries : List OverlayEntry} {text : String} (h : ¬Overflows text entries) :
    fold_entries .Debug text entries = fold_entries .Release text entries
      ∧ fold_entries .Debug text entries ≠ .error .Panic := by
  induction entries generalizing text with
  | nil => exact ⟨rfl, fun hpanic => by cases hpanic⟩
  | cons entry entries ih =>
    rw [Overflows, not_or, not_exists] at h
    rcases step_eq h.1 with ⟨next, hnext, hstep⟩ | ⟨-, message, hstep⟩
    · rw [fold_cons_ok (hstep .Debug), fold_cons_ok (hstep .Release)]
      exact ih fun hrest => h.2 next ⟨hnext, hrest⟩
    · rw [fold_cons_error (hstep .Debug), fold_cons_error (hstep .Release)]
      exact ⟨rfl, fun hpanic => by cases hpanic⟩

/-! ## Arithmetic entries -/

section Arithmetic

variable {text : String} {entry : OverlayEntry} {f : Int → Int → Int} {b o : Int}

theorem in_i64_of_integer {s : String} {v : Int} (h : integer_of s = some v) : InI64 v := by
  obtain ⟨r, -, rfl⟩ := integer_of_eq_some.mp h
  exact in_i64 r

theorem exact_step_operation (hf : entry.strategy.operation = some f) :
    exact_step text entry
      = do return toString (f (← integer_of text) (← integer_of entry.value)) := by
  rcases entry with ⟨path, value, _ | _ | _ | _ | _ | _⟩
  · cases hf
  · cases hf
  · cases hf
  · obtain rfl := Option.some.inj hf
    rfl
  · obtain rfl := Option.some.inj hf
    rfl
  · obtain rfl := Option.some.inj hf
    rfl

/-- Of the three operations only the sum can leave the type. -/
theorem operation_in (hf : entry.strategy.operation = some f) (hb : integer_of text = some b)
    (ho : integer_of entry.value = some o) (h : ¬AddOverflows text entry) : InI64 (f b o) := by
  have hbin := in_i64_of_integer hb
  have hoin := in_i64_of_integer ho
  unfold InI64 at hbin hoin ⊢
  rcases entry with ⟨path, value, _ | _ | _ | _ | _ | _⟩
  · cases hf
  · cases hf
  · cases hf
  · obtain rfl := Option.some.inj hf
    by_contra hout
    exact h ⟨rfl, b, o, hb, ho, hout⟩
  · obtain rfl := Option.some.inj hf
    dsimp only
    omega
  · obtain rfl := Option.some.inj hf
    dsimp only
    omega

/-- One arithmetic entry: its result is an `i64` and the other entries go on from its text, or it is
refused. -/
theorem arithmetic_cons {entries : List OverlayEntry} (hb : integer_of text = some b)
    (hf : entry.strategy.operation = some f) (h : ¬Overflows text (entry :: entries)) :
    (∃ w, InI64 w ∧ exact_value b (entry :: entries) = exact_value w entries
        ∧ ¬Overflows (toString w) entries
        ∧ ∀ build, fold_entries build text (entry :: entries)
          = fold_entries build (toString w) entries)
      ∨ exact_value b (entry :: entries) = none
        ∧ ∃ e, ∀ build, fold_entries build text (entry :: entries) = .error e := by
  rw [Overflows, not_or, not_exists] at h
  rcases ho : integer_of entry.value with _ | o
  · have hnone : exact_step text entry = none := by
      rw [exact_step_operation hf, exact_step_none (.inr ho)]
    rcases step_eq h.1 with ⟨next, hnext, -⟩ | ⟨-, message, hstep⟩
    · rw [hnone] at hnext
      cases hnext
    · refine .inr ⟨?_, _, fun build => fold_cons_error (hstep build) entries⟩
      simp only [exact_value, hf, ho, Option.bind_eq_bind, Option.bind_some, Option.bind_none]
  · have hin : InI64 (f b o) := operation_in hf hb ho h.1
    have hexact : exact_step text entry = some (toString (f b o)) := by
      rw [exact_step_operation hf, exact_step_some hb ho]
    rcases step_eq h.1 with ⟨next, hnext, hstep⟩ | ⟨hnone, -⟩
    · obtain rfl := Option.some.inj (hexact.symm.trans hnext)
      refine .inl ⟨f b o, hin, ?_, fun hrest => h.2 _ ⟨hexact, hrest⟩,
        fun build => fold_cons_ok (hstep build) entries⟩
      simp only [exact_value, hf, ho, Option.bind_eq_bind, Option.bind_some, if_pos hin]
    · rw [hexact] at hnone
      cases hnone

/-- From the text of an `i64` on, arithmetic entries give the text of the exact result or are
refused. -/
theorem fold_arithmetic {entries : List OverlayEntry} {v : Int} (hv : InI64 v)
    (harith : ∀ entry ∈ entries, ∃ f, entry.strategy.operation = some f)
    (h : ¬Overflows (toString v) entries) (build : Build) :
    (∀ w, exact_value v entries = some w → fold_entries build (toString v) entries = .ok (toString w))
      ∧ (exact_value v entries = none →
        ∃ e, fold_entries build (toString v) entries = .error e) := by
  induction entries generalizing v with
  | nil =>
    refine ⟨fun w hw => ?_, fun hnone => by cases hnone⟩
    obtain rfl := Option.some.inj hw
    rfl
  | cons entry entries ih =>
    rw [List.forall_mem_cons] at harith
    obtain ⟨f, hf⟩ := harith.1
    rcases arithmetic_cons (integer_of_toString hv) hf h with ⟨w, hw, hexact, hrest, hfold⟩ |
      ⟨hnone, e, herror⟩
    · rw [hexact, hfold build]
      exact ih hw harith.2 hrest
    · rw [hnone, herror build]
      exact ⟨fun w hw => (by cases hw), fun _ => ⟨e, rfl⟩⟩

/-- The same from any text on, if there is an entry at all. -/
theorem fold_arithmetic_cons {entries : List OverlayEntry}
    (harith : ∀ other ∈ entry :: entries, ∃ f, other.strategy.operation = some f)
    (h : ¬Overflows text (entry :: entries)) (build : Build) :
    (∀ w, ((integer_of text).bind fun v => exact_value v (entry :: entries)) = some w →
        fold_entries build text (entry :: entries) = .ok (toString w))
      ∧ (((integer_of text).bind fun v => exact_value v (entry :: entries)) = none →
        ∃ e, fold_entries build text (entry :: entries) = .error e) := by
  rw [List.forall_mem_cons] at harith
  obtain ⟨f, hf⟩ := harith.1
  rcases hb : integer_of text with _ | b
  · have hnone : exact_step text entry = none := by
      rw [exact_step_operation hf, exact_step_none (.inl hb)]
    rw [Overflows, not_or] at h
    rcases step_eq h.1 with ⟨next, hnext, -⟩ | ⟨-, message, hstep⟩
    · rw [hnone] at hnext
      cases hnext
    · exact ⟨fun w hw => (by cases hw), fun _ => ⟨_, fold_cons_error (hstep build) entries⟩⟩
  · rw [Option.bind_some]
    rcases arithmetic_cons hb hf h with ⟨w, hw, hexact, hrest, hfold⟩ | ⟨hnone, e, herror⟩
    · rw [hexact, hfold build]
      exact fold_arithmetic hw harith.2 hrest build
    · rw [hnone, herror build]
      exact ⟨fun w hw => (by cases hw), fun _ => ⟨e, rfl⟩⟩

end Arithmetic

/-! ## Exact or refused -/

namespace OverlayResolver

/-- The entries for a path, in the order of the layers. -/
def entries_of (r : OverlayResolver) (path : String) : List OverlayEntry :=
  r.layers.filterMap (·.get path)

/-- The exact result of a path with arithmetic layers. -/
def exact_result (r : OverlayResolver) (path : String) : Option Int := do
  let text ← r.base[path]?
  let v ← integer_of text
  exact_value v (r.entries_of path)

/-- What is promised of a path. -/
structure ExactOrRefused (r : OverlayResolver) (path : String) : Prop where
  no_panic : ∀ build, r.resolve build path ≠ .error .Panic
  alike : r.resolve .Debug path = r.resolve .Release path
  exact : r.entries_of path ≠ [] →
    (∀ entry ∈ r.entries_of path, entry.strategy = .Add ∨ entry.strategy = .Min
      ∨ entry.strategy = .Max) → ∀ build,
    (∀ v, r.exact_result path = some v → r.resolve build path = .ok (toString v))
      ∧ (r.exact_result path = none → ∃ e, r.resolve build path = .error e)

theorem resolve_of_base {r : OverlayResolver} {path text : String} (h : r.base[path]? = some text)
    (build : Build) : r.resolve build path = fold_entries build text (r.entries_of path) := by
  rw [resolve_eq, h]
  rfl

theorem resolve_of_no_base {r : OverlayResolver} {path : String} (h : r.base[path]? = none)
    (build : Build) : r.resolve build path = .error (.OverlayNotFound path) := by
  rw [resolve_eq, h]
  rfl

/-- A path is exact or refused if and only if on the way through its layers no sum leaves `i64`. -/
theorem exactOrRefused_iff (r : OverlayResolver) (path : String) :
    r.ExactOrRefused path
      ↔ ∀ text, r.base[path]? = some text → ¬Overflows text (r.entries_of path) := by
  constructor
  · intro h text hbase hover
    refine h.no_panic .Debug ?_
    rw [resolve_of_base hbase]
    exact fold_overflow hover
  · intro h
    rcases hbase : r.base[path]? with _ | text
    · have hmissing := resolve_of_no_base hbase
      refine ⟨fun build => ?_, ?_, fun _ _ build => ⟨fun v hv => ?_, fun _ => ⟨_, hmissing build⟩⟩⟩
      · rw [hmissing build]
        intro hpanic
        cases hpanic
      · rw [hmissing, hmissing]
      · rw [exact_result, hbase] at hv
        cases hv
    · obtain ⟨halike, hpanic⟩ := fold_alike (h text hbase)
      have hfold := resolve_of_base hbase
      refine ⟨fun build => ?_, ?_, fun hne harith build => ?_⟩
      · rw [hfold]
        rcases build
        · exact hpanic
        · exact halike ▸ hpanic
      · rw [hfold, hfold, halike]
      · obtain ⟨entry, entries, hentries⟩ := List.exists_cons_of_ne_nil hne
        have hoperations : ∀ other ∈ entry :: entries, ∃ f, other.strategy.operation = some f := by
          intro other hother
          rcases harith other (hentries ▸ hother) with hs | hs | hs
          · exact ⟨_, congrArg MergeStrategy.operation hs⟩
          · exact ⟨_, congrArg MergeStrategy.operation hs⟩
          · exact ⟨_, congrArg MergeStrategy.operation hs⟩
        have hover : ¬Overflows text (entry :: entries) := hentries ▸ h text hbase
        have hresult : r.exact_result path
            = (integer_of text).bind fun v => exact_value v (entry :: entries) := by
          rw [exact_result, hbase, hentries]
          rfl
        rw [hfold build, hresult, hentries]
        exact fold_arithmetic_cons hoperations hover build

/-- A base at the end of the type and one more. -/
def full_treasury : OverlayResolver :=
  { base := (∅ : Map String String).insert "gold" "9223372036854775807"
    layers := [(OverlayLayer.new "rome" 1).with_entry ⟨"gold", "1", .Add⟩] }

theorem full_treasury_overflows : ¬full_treasury.ExactOrRefused "gold" := by
  intro h
  have hpanic : full_treasury.resolve .Debug "gold" = .error .Panic := by
    decide +kernel
  exact h.no_panic .Debug hpanic

end OverlayResolver

end Scharnhorst
