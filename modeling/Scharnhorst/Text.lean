/-
What the language's library does with text: white space, lengths in bytes, and decimal digits
read as an `i64`.

A string is its list of characters. The one thing that depends on the encoding is a length,
which the library counts in bytes.
-/
import Scharnhorst.FixedPoint

set_option autoImplicit false

namespace Scharnhorst

/-! ## White space -/

/-- `char::is_whitespace`: the Unicode property `White_Space`. -/
def char_is_whitespace (c : Char) : Bool :=
  let n := c.toNat
  (9 ≤ n && n ≤ 13) || n == 0x20 || n == 0x85 || n == 0xA0 || n == 0x1680 ||
    (0x2000 ≤ n && n ≤ 0x200A) || n == 0x2028 || n == 0x2029 || n == 0x202F || n == 0x205F ||
    n == 0x3000

/-- `str::trim_start`. -/
def trim_start (cs : List Char) : List Char := cs.dropWhile char_is_whitespace

/-- `str::trim`. -/
def trim (cs : List Char) : List Char :=
  ((trim_start cs).reverse.dropWhile char_is_whitespace).reverse

/-- `str::len`. -/
def utf8_len (cs : List Char) : Nat := (cs.map Char.utf8Size).sum

@[simp] theorem utf8_len_nil : utf8_len [] = 0 := rfl

@[simp] theorem utf8_len_cons (c : Char) (cs : List Char) :
    utf8_len (c :: cs) = c.utf8Size + utf8_len cs := by
  simp [utf8_len]

@[simp] theorem utf8_len_append (as bs : List Char) :
    utf8_len (as ++ bs) = utf8_len as + utf8_len bs := by
  simp [utf8_len]

/-- An ASCII character is one byte. -/
theorem utf8Size_ascii {c : Char} (h : c.toNat < 128) : c.utf8Size = 1 := by
  rw [Char.utf8Size_eq_one_iff]
  rw [UInt32.le_iff_toNat_le]
  have hval : c.val.toNat < 128 := h
  have hmax : (127 : UInt32).toNat = 127 := rfl
  omega

/-- In digits, bytes and characters are counted alike. -/
theorem utf8_len_digits {cs : List Char} (h : ∀ c ∈ cs, c.isDigit = true) :
    utf8_len cs = cs.length := by
  induction cs with
  | nil => rfl
  | cons c cs ih =>
    obtain ⟨-, hnine⟩ := Char.isDigit_iff_toNat.1 (h c List.mem_cons_self)
    have hrest := ih fun d hd => h d (List.mem_cons_of_mem c hd)
    rw [utf8_len_cons, hrest, utf8Size_ascii (hnine.trans_lt (by decide)), List.length_cons]
    omega

/-! ## Digits -/

/-- `IntErrorKind`. -/
inductive IntErrorKind where
  | Empty
  | InvalidDigit
  | PosOverflow
  | NegOverflow
deriving DecidableEq

/-- `char::to_digit(10)`. -/
def to_digit (c : Char) : Option Int64 :=
  if c.isDigit then some (.ofInt (c.toNat - '0'.toNat : Nat)) else none

/-- The digits of an `i64`, from the first to the last; a negative number is built downwards. -/
def parse_digits (negative : Bool) (result : Int64) : List Char → Except IntErrorKind Int64
  | [] => .ok result
  | c :: cs =>
    match to_digit c with
    | none => .error .InvalidDigit
    | some x =>
      let next := (I64.checked_mul result 10).bind fun m =>
        if negative then I64.checked_sub m x else I64.checked_add m x
      match next with
      | none => .error (if negative then .NegOverflow else .PosOverflow)
      | some result => parse_digits negative result cs

/-- `str::parse::<i64>`. -/
def parse_i64 : List Char → Except IntErrorKind Int64
  | [] => .error .Empty
  | '+' :: [] => .error .InvalidDigit
  | '-' :: [] => .error .InvalidDigit
  | '+' :: digits => parse_digits false 0 digits
  | '-' :: digits => parse_digits true 0 digits
  | digits => parse_digits false 0 digits

/-- A number below zero is written with its sign. -/
def signed (negative : Bool) (v : Nat) : Int := if negative then -v else v

theorem signed_in {negative : Bool} {v w : Nat} (hle : v ≤ w) (h : InI64 (signed negative w)) :
    InI64 (signed negative v) := by
  obtain ⟨hlow, hhigh⟩ := h
  unfold InI64
  rcases negative with _ | _
  · change -2 ^ 63 ≤ (v : Int) ∧ (v : Int) < 2 ^ 63
    change (w : Int) < 2 ^ 63 at hhigh
    omega
  · change -2 ^ 63 ≤ -(v : Int) ∧ -(v : Int) < 2 ^ 63
    change -2 ^ 63 ≤ -(w : Int) at hlow
    omega

theorem to_digit_eq_none {c : Char} : to_digit c = none ↔ c.isDigit = false := by
  unfold to_digit
  split <;> simp_all

theorem to_digit_eq_some {c : Char} (h : c.isDigit = true) :
    ∃ x, to_digit c = some x ∧ x.toInt = (c.toNat - '0'.toNat : Nat) := by
  obtain ⟨-, hnine⟩ := Char.isDigit_iff_toNat.1 h
  have hsmall : c.toNat - '0'.toNat ≤ 57 := (Nat.sub_le _ _).trans hnine
  refine ⟨Int64.ofInt (c.toNat - '0'.toNat : Nat), if_pos h, ?_⟩
  generalize c.toNat - '0'.toNat = d at *
  apply Int64.toInt_ofInt_of_le <;> omega

/-- One more digit: the two steps leave the type together. -/
theorem next_digit {negative : Bool} {result x : Int64} {v d : Nat}
    (hresult : result.toInt = signed negative v) (hx : x.toInt = d) :
    ((I64.checked_mul result 10).bind fun m =>
        if negative then I64.checked_sub m x else I64.checked_add m x) =
      i64_of_int (signed negative (10 * v + d)) := by
  have hshift : result.toInt * (10 : Int64).toInt = signed negative (10 * v) := by
    rw [hresult, toInt_ten]
    unfold signed
    split <;> push_cast <;> ring
  rw [I64.checked_mul, hshift]
  by_cases hin : InI64 (signed negative (10 * v))
  · obtain ⟨m, hmul, hm⟩ := i64_of_int_in hin
    rw [hmul, Option.bind_some]
    unfold I64.checked_sub I64.checked_add
    rw [hm, hx]
    unfold signed
    split
    · rw [show (-((10 * v : Nat) : Int) - d) = -((10 * v + d : Nat) : Int) by push_cast; ring]
    · rw [show (((10 * v : Nat) : Int) + d) = ((10 * v + d : Nat) : Int) by push_cast; ring]
  · rw [i64_of_int_out hin, Option.bind_none, i64_of_int_out]
    exact fun h => hin (signed_in (Nat.le_add_right _ _) h)

theorem le_ofDigitChars (v : Nat) (cs : List Char) : v ≤ Nat.ofDigitChars 10 cs v := by
  rw [Nat.ofDigitChars_eq_ofDigitChars_zero]
  exact Nat.le_add_right_of_le (Nat.le_mul_of_pos_left v (by positivity))

/-- Reading digits gives the number that they write, if it is an `i64`. -/
theorem parse_digits_ok {negative : Bool} {result r : Int64} {v : Nat} {cs : List Char}
    (hresult : result.toInt = signed negative v) :
    parse_digits negative result cs = .ok r ↔
      (∀ c ∈ cs, c.isDigit = true) ∧ r.toInt = signed negative (Nat.ofDigitChars 10 cs v) := by
  induction cs generalizing result v with
  | nil =>
    rw [Nat.ofDigitChars_nil, ← hresult, parse_digits, Int64.toInt_inj]
    constructor
    · intro h
      exact ⟨fun c hc => absurd hc List.not_mem_nil, (Except.ok.inj h).symm⟩
    · rintro ⟨-, h⟩
      rw [h]
  | cons c cs ih =>
    rw [Nat.ofDigitChars_cons, List.forall_mem_cons]
    unfold parse_digits
    by_cases hdigit : c.isDigit = true
    · obtain ⟨x, hc, hx⟩ := to_digit_eq_some hdigit
      simp only [hc, next_digit hresult hx, hdigit, true_and]
      by_cases hin : InI64 (signed negative (10 * v + (c.toNat - '0'.toNat)))
      · obtain ⟨next, hnext, hvalue⟩ := i64_of_int_in hin
        rw [hnext]
        exact ih hvalue
      · rw [i64_of_int_out hin]
        constructor
        · intro h
          cases h
        · rintro ⟨-, h⟩
          exact absurd (signed_in (le_ofDigitChars _ cs) (h ▸ in_i64 r)) hin
    · rw [to_digit_eq_none.2 (Bool.eq_false_iff.2 hdigit)]
      constructor
      · intro h
        cases h
      · rintro ⟨⟨h, -⟩, -⟩
        exact absurd h hdigit

/-! ## Numbers in decimal -/

/-- What can stand before the digits. -/
inductive Sign where
  | Plain
  | Plus
  | Minus
deriving DecidableEq

namespace Sign

def text : Sign → List Char
  | Plain => []
  | Plus => ['+']
  | Minus => ['-']

def negative : Sign → Bool
  | Minus => true
  | _ => false

theorem length_text_le (sign : Sign) : sign.text.length ≤ 1 := by
  rcases sign with _ | _ | _ <;> decide

theorem exists_char {sign : Sign} (h : sign ≠ .Plain) :
    ∃ c, sign.text = [c] ∧ c.isDigit = false := by
  rcases sign with _ | _ | _
  · exact absurd rfl h
  · exact ⟨'+', rfl, rfl⟩
  · exact ⟨'-', rfl, rfl⟩

end Sign

/-- Where digits are read from, a sign cannot be mistaken for one. -/
theorem parse_i64_sign (sign : Sign) {digits : List Char} (hne : digits ≠ [])
    (hdigits : ∀ c ∈ digits, c.isDigit = true) :
    parse_i64 (sign.text ++ digits) = parse_digits sign.negative 0 digits := by
  obtain ⟨c, cs, rfl⟩ := List.exists_cons_of_ne_nil hne
  rcases sign with _ | _ | _
  · have hc := hdigits c List.mem_cons_self
    have hplus : c ≠ '+' := by
      rintro rfl
      exact absurd hc (by decide)
    have hminus : c ≠ '-' := by
      rintro rfl
      exact absurd hc (by decide)
    simp [Sign.text, Sign.negative, parse_i64, hplus, hminus]
  · rfl
  · rfl

/-- An `i64` is parsed from an optional sign and digits that write one. -/
theorem parse_i64_ok {cs : List Char} {r : Int64} :
    parse_i64 cs = .ok r ↔
      ∃ (sign : Sign) (digits : List Char), cs = sign.text ++ digits ∧ digits ≠ [] ∧
        (∀ c ∈ digits, c.isDigit = true) ∧
        r.toInt = signed sign.negative (Nat.ofDigitChars 10 digits 0) := by
  have hzero : ∀ negative, (0 : Int64).toInt = signed negative 0 := by decide
  constructor
  · intro h
    unfold parse_i64 at h
    split at h
    · cases h
    · cases h
    · cases h
    · rename_i digits hne
      obtain ⟨hdigits, hr⟩ := (parse_digits_ok (hzero _)).1 h
      exact ⟨.Plus, digits, rfl, hne, hdigits, hr⟩
    · rename_i digits hne
      obtain ⟨hdigits, hr⟩ := (parse_digits_ok (hzero _)).1 h
      exact ⟨.Minus, digits, rfl, hne, hdigits, hr⟩
    · rename_i hne _ _ _ _
      obtain ⟨hdigits, hr⟩ := (parse_digits_ok (hzero _)).1 h
      exact ⟨.Plain, cs, rfl, hne, hdigits, hr⟩
  · rintro ⟨sign, digits, rfl, hne, hdigits, hr⟩
    rw [parse_i64_sign sign hne hdigits]
    exact (parse_digits_ok (hzero _)).2 ⟨hdigits, hr⟩

end Scharnhorst
