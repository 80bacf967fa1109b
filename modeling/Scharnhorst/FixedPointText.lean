/-
Parsing fixed-point numbers.

`from_str` takes the scale from the text behind the point and the raw value from the text
without it. The two disagree in two places. With the point gone a sign that stood behind it is
in front, so `.-5` is read as a number; and the scale is a length cast to `u32`, which a
fraction of `2^32` digits overflows. Everything else is read as it is written.
-/
import Scharnhorst.Text

set_option autoImplicit false

namespace Scharnhorst

/-- What stands behind the first point. -/
def after_point : List Char → Option (List Char)
  | [] => none
  | c :: cs => if c = '.' then some cs else after_point cs

/-- `FromStr for FixedPoint`. The scale is the length in bytes, as a `u32`. -/
def FixedPoint.from_str (s : String) : CoreResult FixedPoint := do
  let s := trim s.toList
  let text := String.ofList s
  if 1 < s.count '.' then
    throw (.InvalidFormat s!"multiple decimal points in '{text}'")
  let scale :=
    match after_point s with
    | some rest => UInt32.ofNat (utf8_len rest)
    | none => 0
  let num_str := s.filter (· ≠ '.')
  match parse_i64 num_str with
  | .ok raw => return .new raw scale
  | .error .PosOverflow | .error .NegOverflow => throw .ArithmeticOverflow
  | .error _ => throw (.InvalidFormat s!"cannot parse as number: '{text}'")

/-! ## Numerals -/

/-- A decimal number as it is written: a sign, digits, and a point with digits behind it if
there is one, where not all digits can be missing. -/
structure Numeral where
  sign : Sign
  whole : List Char
  fraction : Option (List Char)
  digits : ∀ c ∈ whole ++ fraction.getD [], c.isDigit = true
  some_digit : whole ++ fraction.getD [] ≠ []

namespace Numeral

variable (n : Numeral)

def text : List Char :=
  n.sign.text ++ n.whole ++
    match n.fraction with
    | none => []
    | some fraction => '.' :: fraction

/-- The digits without the point, with the sign. -/
def mantissa : Int :=
  signed n.sign.negative (Nat.ofDigitChars 10 (n.whole ++ n.fraction.getD []) 0)

def scale : Nat := (n.fraction.getD []).length

/-- The number that is written. -/
def value : ℚ := Decimal.decimal n.mantissa n.scale

end Numeral

/-- The text is accepted if it is a numeral whose digits fit, and only then, and gives the
number that is written. -/
structure ParsesExactly (s : String) : Prop where
  sound : ∀ x, FixedPoint.from_str s = .ok x →
    ∃ n : Numeral, n.text = trim s.toList ∧ InI64 n.mantissa ∧ x.value = n.value
  complete : ∀ n : Numeral, n.text = trim s.toList → InI64 n.mantissa →
    ∃ x, FixedPoint.from_str s = .ok x

/-- A point, a sign behind it, and digits that fit. -/
def SignAfterPoint (cs : List Char) : Prop :=
  ∃ sign : Sign, ∃ digits, sign ≠ .Plain ∧ cs = '.' :: sign.text ++ digits ∧ digits ≠ [] ∧
    (∀ c ∈ digits, c.isDigit = true) ∧
    InI64 (signed sign.negative (Nat.ofDigitChars 10 digits 0))

/-- A numeral other than zero that fits, with a fraction too long for its length to be a `u32`. -/
def LongFraction (cs : List Char) : Prop :=
  ∃ n : Numeral, n.text = cs ∧ InI64 n.mantissa ∧ n.mantissa ≠ 0 ∧ 2 ^ 32 ≤ n.scale

/-! ## The point -/

theorem not_digit_point {c : Char} (h : c.isDigit = true) : c ≠ '.' := by
  rintro rfl
  exact absurd h (by decide)

theorem point_not_mem_digits {cs : List Char} (h : ∀ c ∈ cs, c.isDigit = true) : '.' ∉ cs :=
  fun hmem => not_digit_point (h '.' hmem) rfl

theorem point_not_mem_sign (sign : Sign) : '.' ∉ sign.text := by
  rcases sign with _ | _ | _ <;> decide

theorem filter_no_point {cs : List Char} (h : '.' ∉ cs) : cs.filter (· ≠ '.') = cs := by
  rw [List.filter_eq_self]
  intro c hc
  simpa using ne_of_mem_of_not_mem hc h

theorem after_point_some {before rest : List Char} (h : '.' ∉ before) :
    after_point (before ++ '.' :: rest) = some rest := by
  induction before with
  | nil => rfl
  | cons c cs ih =>
    rw [List.mem_cons, not_or] at h
    rw [List.cons_append, after_point, if_neg (Ne.symm h.1), ih h.2]

theorem after_point_none {cs : List Char} (h : '.' ∉ cs) : after_point cs = none := by
  induction cs with
  | nil => rfl
  | cons c cs ih =>
    rw [List.mem_cons, not_or] at h
    rw [after_point, if_neg (Ne.symm h.1), ih h.2]

/-- A text with one point or none. -/
theorem point_cases {cs : List Char} (h : cs.count '.' ≤ 1) :
    '.' ∉ cs ∨ ∃ before rest, cs = before ++ '.' :: rest ∧ '.' ∉ before ∧ '.' ∉ rest := by
  by_cases hmem : '.' ∈ cs
  · obtain ⟨before, rest, rfl⟩ := List.append_of_mem hmem
    right
    refine ⟨before, rest, rfl, ?_, ?_⟩ <;> rw [← List.count_pos_iff] <;>
      rw [List.count_append, List.count_cons_self] at h <;> omega
  · exact .inl hmem

/-! ## What is accepted -/

/-- What `from_str` does once the white space is gone. -/
theorem from_str_ok {s : String} {x : FixedPoint} :
    FixedPoint.from_str s = .ok x ↔
      (trim s.toList).count '.' ≤ 1 ∧
        parse_i64 ((trim s.toList).filter (· ≠ '.')) = .ok x.raw ∧
        x.scale = .ofNat (utf8_len ((after_point (trim s.toList)).getD [])) := by
  have hscale : (match after_point (trim s.toList) with
      | some rest => UInt32.ofNat (utf8_len rest)
      | none => 0) = .ofNat (utf8_len ((after_point (trim s.toList)).getD [])) := by
    split <;> simp [*]
  unfold FixedPoint.from_str
  simp only [hscale]
  by_cases hcount : 1 < (trim s.toList).count '.'
  · rw [if_pos hcount]
    constructor
    · intro h
      cases h
    · intro h
      omega
  · rw [if_neg hcount]
    split
    · rename_i raw hraw
      rw [hraw]
      constructor
      · intro h
        rw [← Except.ok.inj h]
        exact ⟨by omega, rfl, rfl⟩
      · rintro ⟨-, hr, hs⟩
        rw [Except.ok.inj hr, ← hs]
        rfl
    -- an error of any kind is no result
    all_goals
      rename_i herror
      rw [herror]
      constructor
      · intro h
        cases h
      · rintro ⟨-, h, -⟩
        cases h

namespace Numeral

variable (n : Numeral)

theorem digits_of_whole {c : Char} (h : c ∈ n.whole) : c.isDigit = true :=
  n.digits c (List.mem_append_left _ h)

theorem point_not_mem_front : '.' ∉ n.sign.text ++ n.whole := by
  rw [List.mem_append, not_or]
  exact ⟨point_not_mem_sign n.sign, point_not_mem_digits fun c hc => n.digits_of_whole hc⟩

theorem point_not_mem_fraction : '.' ∉ n.fraction.getD [] :=
  point_not_mem_digits fun c hc => n.digits c (List.mem_append_right _ hc)

theorem count_text : n.text.count '.' ≤ 1 := by
  have hfront := List.count_eq_zero.2 n.point_not_mem_front
  have hback := List.count_eq_zero.2 n.point_not_mem_fraction
  unfold text
  -- with a point it is the only one
  split <;> rename_i heq
  · rw [List.append_nil, hfront]
    omega
  · rw [heq, Option.getD_some] at hback
    rw [List.count_append, hfront, List.count_cons_self, hback]

theorem filter_text :
    n.text.filter (· ≠ '.') = n.sign.text ++ (n.whole ++ n.fraction.getD []) := by
  have hfront := filter_no_point n.point_not_mem_front
  have hback := filter_no_point n.point_not_mem_fraction
  unfold text
  split <;> rename_i heq
  · rw [List.append_nil, hfront, heq, Option.getD_none, List.append_nil]
  · rw [heq, Option.getD_some] at hback ⊢
    rw [List.filter_append, hfront, List.filter_cons_of_neg (by simp), hback, List.append_assoc]

theorem after_point_text : after_point n.text = n.fraction := by
  unfold text
  split <;> rename_i heq
  · rw [List.append_nil, after_point_none n.point_not_mem_front, heq]
  · rw [after_point_some n.point_not_mem_front, heq]

end Numeral

theorem exists_numeral (sign : Sign) (whole : List Char) (fraction : Option (List Char))
    {digits : List Char} (h : whole ++ fraction.getD [] = digits) (hne : digits ≠ [])
    (hdigits : ∀ c ∈ digits, c.isDigit = true) :
    ∃ n : Numeral, n.sign = sign ∧ n.whole = whole ∧ n.fraction = fraction ∧
      n.mantissa = signed sign.negative (Nat.ofDigitChars 10 digits 0) := by
  subst h
  exact ⟨⟨sign, whole, fraction, hdigits, hne⟩, rfl, rfl, rfl, rfl⟩

/-- A numeral that fits is accepted, with the number of its fraction's digits as a `u32`. -/
theorem from_str_numeral {s : String} {n : Numeral} (htext : n.text = trim s.toList) {r : Int64}
    (hr : r.toInt = n.mantissa) : FixedPoint.from_str s = .ok (.new r (.ofNat n.scale)) := by
  rw [from_str_ok, ← htext, n.filter_text, n.after_point_text]
  refine ⟨n.count_text, parse_i64_ok.2 ⟨n.sign, _, rfl, n.some_digit, n.digits, hr⟩, ?_⟩
  rw [utf8_len_digits fun c hc => n.digits c (List.mem_append_right _ hc)]
  rfl

/-- What is accepted is a numeral that fits, unless a sign stands behind the point. -/
theorem from_str_cases {s : String} {x : FixedPoint} (h : FixedPoint.from_str s = .ok x) :
    (∃ n : Numeral, n.text = trim s.toList ∧ x.raw.toInt = n.mantissa) ∨
      SignAfterPoint (trim s.toList) := by
  obtain ⟨hcount, hparse, -⟩ := from_str_ok.1 h
  obtain ⟨sign, digits, hfilter, hne, hdigits, hr⟩ := parse_i64_ok.1 hparse
  rcases point_cases hcount with hnone | ⟨before, rest, heq, hbefore, hrest⟩
  · rw [filter_no_point hnone] at hfilter
    obtain ⟨n, hsign, hwhole, hfraction, hn⟩ :=
      exists_numeral sign digits none (List.append_nil digits) hne hdigits
    refine .inl ⟨n, ?_, hr.trans hn.symm⟩
    rw [hfilter, Numeral.text, hsign, hwhole, hfraction, List.append_nil]
  rw [heq, List.filter_append, filter_no_point hbefore, List.filter_cons_of_neg (by simp),
    filter_no_point hrest] at hfilter
  rcases List.append_eq_append_iff.1 hfilter with ⟨mid, hsplit, hmid⟩ | ⟨mid, hsplit, hmid⟩
  · by_cases hnil : mid = []
    · -- between the sign and the digits
      rw [hnil] at hsplit hmid
      obtain ⟨n, hsign, hwhole, hfraction, hn⟩ :=
        exists_numeral sign [] (some digits) (List.nil_append digits) hne hdigits
      refine .inl ⟨n, ?_, hr.trans hn.symm⟩
      rw [heq, Numeral.text, hsign, hwhole, hfraction, hsplit, hmid]
      simp
    · -- before the sign
      have hlength := congrArg List.length hsplit
      rw [List.length_append] at hlength
      have hone := sign.length_text_le
      have hpos := List.length_pos_iff.2 hnil
      have hfirst : before = [] := List.length_eq_zero_iff.1 (by omega)
      rw [hfirst, List.nil_append] at hsplit
      refine .inr ⟨sign, digits, ?_, ?_, hne, hdigits, hr ▸ in_i64 x.raw⟩
      · rintro rfl
        exact hnil hsplit.symm
      · rw [heq, hfirst, hmid, hsplit]
        rfl
  · -- among the digits, or behind them
    obtain ⟨n, hsign, hwhole, hfraction, hn⟩ :=
      exists_numeral sign mid (some rest) hmid.symm hne hdigits
    refine .inl ⟨n, ?_, hr.trans hn.symm⟩
    rw [heq, Numeral.text, hsign, hwhole, hfraction, hsplit]

/-- There the sign makes it no numeral. -/
theorem not_numeral {cs : List Char} (h : SignAfterPoint cs) (n : Numeral) : n.text ≠ cs := by
  obtain ⟨sign, digits, hsign, rfl, -⟩ := h
  intro htext
  obtain ⟨c, hc, hnot⟩ := sign.exists_char hsign
  have hfraction := n.after_point_text
  rw [htext, List.cons_append, after_point, if_pos rfl] at hfraction
  have hmem : c ∈ n.whole ++ n.fraction.getD [] := by
    rw [← hfraction, Option.getD_some, hc]
    simp
  rw [n.digits c hmem] at hnot
  cases hnot

theorem sign_after_point_accepted {s : String} (h : SignAfterPoint (trim s.toList)) :
    ∃ x, FixedPoint.from_str s = .ok x := by
  obtain ⟨sign, digits, hsign, heq, hne, hdigits, hin⟩ := h
  obtain ⟨r, -, hr⟩ := i64_of_int_in hin
  have hpoint : '.' ∉ sign.text ++ digits := by
    rw [List.mem_append, not_or]
    exact ⟨point_not_mem_sign sign, point_not_mem_digits hdigits⟩
  refine ⟨⟨r, _⟩, from_str_ok.2 ⟨?_, ?_, rfl⟩⟩
  · rw [heq, List.cons_append, List.count_cons_self, List.count_eq_zero.2 hpoint]
  · rw [heq, List.cons_append, List.filter_cons_of_neg (by simp), filter_no_point hpoint]
    exact parse_i64_ok.2 ⟨sign, digits, rfl, hne, hdigits, hr⟩

/-- Parsing is exact if and only if the text is none of these. -/
theorem parsesExactly_iff (s : String) :
    ParsesExactly s ↔ ¬ SignAfterPoint (trim s.toList) ∧ ¬ LongFraction (trim s.toList) := by
  constructor
  · intro h
    constructor
    · intro hsign
      obtain ⟨x, hx⟩ := sign_after_point_accepted hsign
      obtain ⟨n, htext, -⟩ := h.sound x hx
      exact not_numeral hsign n htext
    · rintro ⟨n, htext, hin, hne, hlong⟩
      obtain ⟨r, -, hr⟩ := i64_of_int_in hin
      have hok := from_str_numeral htext hr
      obtain ⟨m, hsame, hfits, hvalue⟩ := h.sound _ hok
      obtain ⟨q, -, hq⟩ := i64_of_int_in hfits
      have hagain := from_str_numeral hsame hq
      rw [hok] at hagain
      have hraw : r = q := congrArg FixedPoint.raw (Except.ok.inj hagain)
      have hscale : m.scale = n.scale := by
        rw [Numeral.scale, Numeral.scale, ← m.after_point_text, ← n.after_point_text, hsame, htext]
      -- the number has the scale that was cast, and should have the one that was not
      rw [FixedPoint.value, Numeral.value, ← hq, ← hraw, hscale] at hvalue
      rw [← hr] at hne
      have hcast : (UInt32.ofNat n.scale).toNat = n.scale := Decimal.scale_unique hne hvalue
      have hbound := (UInt32.ofNat n.scale).toNat_lt
      omega
  · rintro ⟨hsign, hlong⟩
    constructor
    · intro x hx
      rcases from_str_cases hx with ⟨n, htext, hraw⟩ | hbad
      · refine ⟨n, htext, hraw ▸ in_i64 x.raw, ?_⟩
        have hok := from_str_numeral htext hraw
        rw [hx] at hok
        rw [Except.ok.inj hok]
        change Decimal.decimal x.raw.toInt (UInt32.ofNat n.scale).toNat = n.value
        rw [Numeral.value, hraw, UInt32.toNat_ofNat']
        by_cases hfits : n.scale < 2 ^ 32
        · rw [Nat.mod_eq_of_lt hfits]
        · have hzero : n.mantissa = 0 := by
            by_contra hne
            exact hlong ⟨n, htext, hraw ▸ in_i64 x.raw, hne, by omega⟩
          rw [hzero, Decimal.decimal_zero, Decimal.decimal_zero]
      · exact absurd hbad hsign
    · intro n htext hin
      obtain ⟨r, -, hr⟩ := i64_of_int_in hin
      exact ⟨_, from_str_numeral htext hr⟩

/-- `.-5` is no numeral, and is read as `-0.05`. -/
theorem sign_after_point_read :
    FixedPoint.from_str ".-5" = .ok (.new (-5) 2) ∧ ¬ ParsesExactly ".-5" := by
  have htrim : trim ".-5".toList = ['.', '-', '5'] := by decide
  have hread : FixedPoint.from_str ".-5" = .ok (.new (-5) 2) := by
    rw [from_str_ok, htrim]
    decide
  refine ⟨hread, ?_⟩
  intro h
  obtain ⟨n, htext, -⟩ := h.sound _ hread
  refine not_numeral ?_ n htext
  rw [htrim]
  exact ⟨.Minus, ['5'], by decide, rfl, by decide, by simp, by decide⟩

end Scharnhorst
