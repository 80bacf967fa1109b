/-
The pages of a list.

Page `k` is the elements from `k * p` on, `p` of them at most. The pages up to the rounded quotient put
the list together again; all but the last are full, and a page is empty exactly if it starts behind the
end.
-/
import Mathlib.Tactic.Common

set_option autoImplicit false

namespace Paging

variable {α : Type}

def page (p k : Nat) (l : List α) : List α := (l.drop (k * p)).take p

/-- The number of pages that have elements. -/
def count (p n : Nat) : Nat := (n + p - 1) / p

variable {p k n : Nat} {l : List α}

theorem flatMap_page (p n : Nat) (l : List α) :
    (List.range n).flatMap (fun k => page p k l) = l.take (n * p) := by
  induction n with
  | zero => rw [Nat.zero_mul, List.take_zero, List.range_zero, List.flatMap_nil]
  | succ n ih =>
    rw [List.range_succ, List.flatMap_append, List.flatMap_singleton, ih, page, Nat.succ_mul,
      List.take_add]

theorem le_count_mul (hp : 0 < p) : n ≤ count p n * p := by
  have hdiv := Nat.div_add_mod (n + p - 1) p
  have hmod := Nat.mod_lt (n + p - 1) hp
  rw [Nat.mul_comm] at hdiv
  unfold count
  omega

theorem lt_of_lt_count (hp : 0 < p) (h : k < count p n) : k * p < n := by
  have hle : (k + 1) * p ≤ n + p - 1 := (Nat.le_div_iff_mul_le hp).mp h
  rw [Nat.succ_mul] at hle
  omega

/-- The pages are the list. -/
theorem flatMap_pages (hp : 0 < p) :
    (List.range (count p l.length)).flatMap (fun k => page p k l) = l := by
  rw [flatMap_page, List.take_of_length_le (le_count_mul hp)]

theorem length_page : (page p k l).length = min p (l.length - k * p) := by
  rw [page, List.length_take, List.length_drop]

/-- Only the last page is not full. -/
theorem length_page_of_lt (hp : 0 < p) (h : k + 1 < count p l.length) :
    (page p k l).length = p := by
  have hnext := lt_of_lt_count hp h
  rw [Nat.succ_mul] at hnext
  rw [length_page]
  omega

theorem page_pos_iff (hp : 0 < p) : 0 < (page p k l).length ↔ k * p < l.length := by
  rw [length_page]
  omega

/-- A page is the elements up to its end, without those before its start. -/
theorem drop_take_eq_page : (l.take (min (k * p + p) l.length)).drop (k * p) = page p k l := by
  rw [page, ← List.take_eq_take_min, List.drop_take, Nat.add_sub_cancel_left]

end Paging
