/-
Blocks put one after the other.

Nothing here is about the engine. A list of blocks is numbered through: the item at the offset `o` of
the block `b` gets the number `start b + o`, where `start b` is the length of the blocks before. The
numbers are those below the total length, and reading the concatenated list at the number is reading
the block at the offset. Empty blocks get no number and shift nothing.
-/
import Mathlib.Algebra.BigOperators.Group.List.Basic
import Mathlib.Algebra.GroupWithZero.Nat
import Mathlib.Tactic.Common

set_option autoImplicit false

namespace Scharnhorst.Blocks

/-- The length of the blocks before the block `b`. -/
def start (lengths : List Nat) (b : Nat) : Nat := (lengths.take b).sum

@[simp] theorem start_zero (lengths : List Nat) : start lengths 0 = 0 := rfl

@[simp] theorem start_cons_succ (n b : Nat) (lengths : List Nat) :
    start (n :: lengths) (b + 1) = n + start lengths b := by
  rw [start, List.take_succ_cons, List.sum_cons, start]

/-- The items of a block. -/
def Item (lengths : List Nat) (p : Nat × Nat) : Prop := ∃ n, lengths[p.1]? = some n ∧ p.2 < n

/-- The number of an item. -/
def ordinal (lengths : List Nat) (p : Nat × Nat) : Nat := start lengths p.1 + p.2

theorem ordinal_zero (n : Nat) (lengths : List Nat) (o : Nat) :
    ordinal (n :: lengths) (0, o) = o := by
  rw [ordinal, start_zero, Nat.zero_add]

theorem ordinal_succ (n : Nat) (lengths : List Nat) (b o : Nat) :
    ordinal (n :: lengths) (b + 1, o) = n + ordinal lengths (b, o) := by
  rw [ordinal, ordinal, start_cons_succ, Nat.add_assoc]

variable {lengths : List Nat} {p : Nat × Nat}

theorem item_cons_zero {n o : Nat} : Item (n :: lengths) (0, o) ↔ o < n := by
  simp [Item]

theorem item_cons_succ {n b o : Nat} : Item (n :: lengths) (b + 1, o) ↔ Item lengths (b, o) := by
  simp [Item]

theorem ordinal_lt (h : Item lengths p) : ordinal lengths p < lengths.sum := by
  obtain ⟨b, o⟩ := p
  induction lengths generalizing b with
  | nil =>
    obtain ⟨n, hn, -⟩ := h
    cases hn
  | cons n lengths ih =>
    rw [List.sum_cons]
    cases b with
    | zero =>
      have ho := item_cons_zero.1 h
      rw [ordinal_zero]
      omega
    | succ b =>
      have hrest := ih b (item_cons_succ.1 h)
      rw [ordinal_succ]
      omega

/-- Every number below the total length is given. -/
theorem exists_ordinal {i : Nat} (hi : i < lengths.sum) :
    ∃ p, Item lengths p ∧ ordinal lengths p = i := by
  induction lengths generalizing i with
  | nil => cases hi
  | cons n lengths ih =>
    rw [List.sum_cons] at hi
    -- in the first block, or behind it
    rcases Nat.lt_or_ge i n with hfirst | hrest
    · exact ⟨(0, i), item_cons_zero.2 hfirst, ordinal_zero n lengths i⟩
    · obtain ⟨⟨b, o⟩, hitem, hordinal⟩ := ih (show i - n < lengths.sum by omega)
      refine ⟨(b + 1, o), item_cons_succ.2 hitem, ?_⟩
      rw [ordinal_succ, hordinal]
      omega

/-- The item of a number. -/
theorem getElem?_flatten {α : Type*} {blocks : List (List α)} {block : List α}
    (hblock : blocks[p.1]? = some block) (ho : p.2 < block.length) :
    blocks.flatten[ordinal (blocks.map List.length) p]? = block[p.2]? := by
  obtain ⟨b, o⟩ := p
  induction blocks generalizing b with
  | nil => cases hblock
  | cons first blocks ih =>
    rw [List.flatten_cons, List.map_cons]
    cases b with
    | zero =>
      obtain rfl : first = block := by simpa using hblock
      rw [ordinal_zero]
      exact List.getElem?_append_left ho
    | succ b =>
      have hrest := ih b (by simpa using hblock)
      rw [ordinal_succ, List.getElem?_append_right (Nat.le_add_right _ _), Nat.add_sub_cancel_left]
      exact hrest ho

end Scharnhorst.Blocks
