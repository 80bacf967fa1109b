/-
The last elements of a list that grows at its end.

A buffer of fixed size that drops its oldest element for a new one holds `l.rtake n` after the elements
of `l`. Whoever has read it up to a position finds behind that position no more than what has come
since.
-/
import Mathlib.Data.List.DropRight
import Mathlib.Tactic.Common

set_option autoImplicit false

namespace TailWindow

variable {α : Type} {l m : List α} {n k : Nat}

theorem rtake_eq_drop : l.rtake n = l.drop (l.length - n) := rfl

theorem length_rtake : (l.rtake n).length = min l.length n := by
  rw [rtake_eq_drop, List.length_drop]
  omega

theorem rtake_suffix : l.rtake n <:+ l :=
  List.drop_suffix _ _

theorem rtake_of_length_le (h : l.length ≤ n) : l.rtake n = l := by
  rw [rtake_eq_drop, Nat.sub_eq_zero_of_le h, List.drop_zero]

/-- What has fallen out does not come back. -/
theorem rtake_rtake_append : (l.rtake n ++ m).rtake n = (l ++ m).rtake n := by
  have hsplit : (l ++ m).rtake n
      = ((l ++ m).drop (l.length - n)).drop ((l ++ m).length - n - (l.length - n)) := by
    rw [List.drop_drop, rtake_eq_drop]
    congr 1
    rw [List.length_append]
    omega
  have hfirst : (l ++ m).drop (l.length - n) = l.rtake n ++ m := by
    rw [List.drop_append_of_le_length (by omega), rtake_eq_drop]
  rw [hsplit, hfirst, rtake_eq_drop]
  congr 1
  rw [List.length_append, List.length_append, length_rtake]
  omega

/-- A buffer that is refilled holds nothing older. -/
theorem rtake_append_of_le (h : n ≤ m.length) : (l ++ m).rtake n = m.rtake n := by
  have hsplit : (l ++ m).length - n = l.length + (m.length - n) := by
    rw [List.length_append]
    omega
  rw [rtake_eq_drop, rtake_eq_drop, hsplit, ← List.drop_drop, List.drop_left]

/-- Behind a position that was in the buffer there is nothing from before it. -/
theorem drop_rtake_append (h : k ≤ l.length) : ((l ++ m).rtake n).drop k <:+ l.drop k ++ m := by
  have hdrop : l.drop k ++ m = (l ++ m).drop k :=
    (List.drop_append_of_le_length h).symm
  rw [rtake_eq_drop, List.drop_drop, hdrop, Nat.add_comm, ← List.drop_drop]
  exact List.drop_suffix _ _

/-- A full ring drops its first element for a new one, and one of no size holds one element. -/
theorem rtake_push (x : α) :
    (if n ≤ (l.rtake (max 1 n)).length then (l.rtake (max 1 n)).tail else l.rtake (max 1 n)) ++ [x]
      = (l ++ [x]).rtake (max 1 n) := by
  rw [← rtake_rtake_append]
  have hlength : (l.rtake (max 1 n)).length = min l.length (max 1 n) := length_rtake
  split
  · rename_i hfull
    have hover : (l.rtake (max 1 n) ++ [x]).length - max 1 n
        = min 1 (l.rtake (max 1 n)).length := by
      rw [List.length_append, List.length_singleton]
      omega
    rw [rtake_eq_drop (l := _ ++ [x]), hover]
    rcases l.rtake (max 1 n) with _ | ⟨first, rest⟩
    · rfl
    · simp
  · rename_i hroom
    refine (rtake_of_length_le ?_).symm
    rw [List.length_append, List.length_singleton]
    omega

end TailWindow
