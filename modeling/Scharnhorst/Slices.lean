/-
Slices of a text at byte positions.

A position in a string is a number of bytes, and a slice that starts or ends inside a character is
a panic. The text is the list of its characters. A slice is what is found by going over them and
taking off their lengths, and it is there if the position is reached exactly. If it is not, either
the text is too short or one character has the position in its middle.
-/
import Scharnhorst.Text

set_option autoImplicit false

namespace Scharnhorst

/-- `&s[pos..]`. -/
def slice_from : List Char → Nat → Option (List Char)
  | cs, 0 => some cs
  | [], _ + 1 => none
  | c :: cs, pos + 1 =>
    if c.utf8Size ≤ pos + 1 then slice_from cs (pos + 1 - c.utf8Size) else none

/-- `&s[..pos]`. -/
def slice_to : List Char → Nat → Option (List Char)
  | _, 0 => some []
  | [], _ + 1 => none
  | c :: cs, pos + 1 =>
    if c.utf8Size ≤ pos + 1 then (slice_to cs (pos + 1 - c.utf8Size)).map (c :: ·) else none

/-- A character stands across the position. -/
def Straddles (cs : List Char) (pos : Nat) : Prop :=
  ∃ before c after, cs = before ++ c :: after ∧ utf8_len before < pos ∧
    pos < utf8_len before + c.utf8Size

variable {cs : List Char} {pos : Nat}

@[simp] theorem slice_from_zero : slice_from cs 0 = some cs := by
  cases cs <;> rfl

@[simp] theorem slice_to_zero : slice_to cs 0 = some [] := by
  cases cs <;> rfl

theorem slice_from_cons (c : Char) (h : c.utf8Size ≤ pos) :
    slice_from (c :: cs) pos = slice_from cs (pos - c.utf8Size) := by
  have hpos := c.utf8Size_pos
  obtain ⟨k, rfl⟩ : ∃ k, pos = k + 1 := ⟨pos - 1, by omega⟩
  rw [slice_from, if_pos h]

theorem slice_to_cons (c : Char) (h : c.utf8Size ≤ pos) :
    slice_to (c :: cs) pos = (slice_to cs (pos - c.utf8Size)).map (c :: ·) := by
  have hpos := c.utf8Size_pos
  obtain ⟨k, rfl⟩ : ∃ k, pos = k + 1 := ⟨pos - 1, by omega⟩
  rw [slice_to, if_pos h]

/-- The length of what comes before is a position. -/
theorem slice_from_append (before cs : List Char) :
    slice_from (before ++ cs) (utf8_len before) = some cs := by
  induction before with
  | nil => exact slice_from_zero
  | cons c before ih =>
    rw [List.cons_append, utf8_len_cons, slice_from_cons c (Nat.le_add_right _ _),
      Nat.add_sub_cancel_left]
    exact ih

theorem slice_to_append (before cs : List Char) :
    slice_to (before ++ cs) (utf8_len before) = some before := by
  induction before with
  | nil => exact slice_to_zero
  | cons c before ih =>
    rw [List.cons_append, utf8_len_cons, slice_to_cons c (Nat.le_add_right _ _),
      Nat.add_sub_cancel_left, ih]
    rfl

/-- And every position is one. -/
theorem slice_from_eq_some {s : List Char} :
    slice_from cs pos = some s ↔ ∃ before, cs = before ++ s ∧ utf8_len before = pos := by
  constructor
  · intro h
    -- each character takes its length off the position
    induction cs generalizing pos with
    | nil =>
      cases pos with
      | zero =>
        cases h
        exact ⟨[], rfl, rfl⟩
      | succ pos => cases h
    | cons c cs ih =>
      cases pos with
      | zero =>
        cases h
        exact ⟨[], rfl, rfl⟩
      | succ pos =>
        rw [slice_from] at h
        split at h
        · rename_i hle
          obtain ⟨before, rfl, hlen⟩ := ih h
          refine ⟨c :: before, rfl, ?_⟩
          rw [utf8_len_cons, hlen]
          omega
        · cases h
  · rintro ⟨before, rfl, rfl⟩
    exact slice_from_append before s

/-- Further on by the length of what is read. -/
theorem slice_from_add {before s : List Char} (h : slice_from cs pos = some (before ++ s)) :
    slice_from cs (pos + utf8_len before) = some s := by
  obtain ⟨front, rfl, rfl⟩ := slice_from_eq_some.1 h
  rw [← List.append_assoc, ← utf8_len_append]
  exact slice_from_append _ s

theorem slice_from_len {s : List Char} (h : slice_from cs pos = some s) :
    pos + utf8_len s = utf8_len cs := by
  obtain ⟨before, rfl, rfl⟩ := slice_from_eq_some.1 h
  rw [utf8_len_append]

/-- A text has at least as many bytes as characters. -/
theorem length_le_utf8_len (cs : List Char) : cs.length ≤ utf8_len cs := by
  induction cs with
  | nil => rfl
  | cons c cs ih =>
    have hpos := c.utf8Size_pos
    rw [List.length_cons, utf8_len_cons]
    omega

/-- No slice ends inside a character. -/
theorem slice_to_straddles (h : Straddles cs pos) : slice_to cs pos = none := by
  obtain ⟨before, c, after, rfl, hlow, hhigh⟩ := h
  induction before generalizing pos with
  | nil =>
    rw [utf8_len_nil] at hlow hhigh
    obtain ⟨k, rfl⟩ : ∃ k, pos = k + 1 := ⟨pos - 1, by omega⟩
    rw [List.nil_append, slice_to, if_neg (by omega)]
  | cons d before ih =>
    rw [utf8_len_cons] at hlow hhigh
    rw [List.cons_append, slice_to_cons d (by omega), ih (by omega) (by omega)]
    rfl

/-- A slice inside the text is there if it does not end inside a character. -/
theorem slice_to_in (hlen : pos ≤ utf8_len cs) (h : ¬ Straddles cs pos) :
    ∃ before after, cs = before ++ after ∧ utf8_len before = pos := by
  induction cs generalizing pos with
  | nil =>
    rw [utf8_len_nil] at hlen
    exact ⟨[], [], rfl, (Nat.le_zero.1 hlen).symm⟩
  | cons c cs ih =>
    rw [utf8_len_cons] at hlen
    by_cases hzero : pos = 0
    · exact ⟨[], c :: cs, rfl, hzero.symm⟩
    · by_cases hfirst : pos < c.utf8Size
      · exact absurd ⟨[], c, cs, rfl, by rw [utf8_len_nil]; omega, by rw [utf8_len_nil]; omega⟩ h
      · have hrest : ¬ Straddles cs (pos - c.utf8Size) := by
          rintro ⟨before, d, after, rfl, hlow, hhigh⟩
          refine h ⟨c :: before, d, after, rfl, ?_, ?_⟩ <;> rw [utf8_len_cons] <;> omega
        obtain ⟨before, after, rfl, hbefore⟩ := ih (by omega) hrest
        refine ⟨c :: before, after, rfl, ?_⟩
        rw [utf8_len_cons]
        omega

end Scharnhorst
