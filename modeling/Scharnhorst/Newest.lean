/-
The newest entries of a sorted list.

A retention rule deletes from the front of a sorted list until so many are left. What is
left is closed upwards, and an entry is among it exactly when fewer than the limit are
newer. Nothing here names the repository.
-/
import Mathlib.Data.List.Sort

set_option autoImplicit false

namespace Scharnhorst.Newest

section List

variable {α : Type*} {l : List α} {x : α}

/-- The last entries of a list, up to a limit. -/
def newest (limit : Nat) (l : List α) : List α := l.drop (l.length - limit)

theorem length_newest_le (limit : Nat) (l : List α) : (newest limit l).length ≤ limit := by
  rw [newest, List.length_drop]
  omega

theorem mem_of_mem_newest {limit : Nat} (h : x ∈ newest limit l) : x ∈ l :=
  List.mem_of_mem_drop h

end List

section Sorted

variable {α : Type*} [LinearOrder α] {l : List α} {x y : α}

theorem sortedLT_newest (limit : Nat) (hl : l.SortedLT) : (newest limit l).SortedLT :=
  (hl.pairwise.sublist (List.drop_sublist _ _)).sortedLT

/-- What has been dropped is older than all that is left. -/
theorem lt_of_not_mem_newest {limit : Nat} (hl : l.SortedLT) (hx : x ∈ l)
    (hdropped : x ∉ newest limit l) (hy : y ∈ newest limit l) : x < y := by
  have hsplit := hl.pairwise
  rw [← List.take_append_drop (l.length - limit) l] at hx hsplit
  have htaken : x ∈ l.take (l.length - limit) :=
    (List.mem_append.1 hx).resolve_right hdropped
  exact (List.pairwise_append.1 hsplit).2.2 x htaken y hy

/-- What is dropped is what is not left. -/
theorem mem_take_iff {limit : Nat} (hl : l.SortedLT) (hx : x ∈ l) :
    x ∈ l.take (l.length - limit) ↔ x ∉ newest limit l := by
  have hsplit := hl.pairwise
  rw [← List.take_append_drop (l.length - limit) l] at hx hsplit
  constructor
  · intro htaken hleft
    exact lt_irrefl x ((List.pairwise_append.1 hsplit).2.2 x htaken x hleft)
  · intro hdropped
    exact (List.mem_append.1 hx).resolve_right hdropped

/-- An entry is left when fewer than the limit are newer. -/
theorem mem_newest_iff {limit : Nat} (hl : l.SortedLT) (hx : x ∈ l) :
    x ∈ newest limit l ↔ (l.filter (x < ·)).length < limit := by
  obtain ⟨older, newer, rfl⟩ := List.append_of_mem hx
  have hparts := List.pairwise_append.1 hl.pairwise
  have holder : ∀ a ∈ older, ¬ x < a := fun a ha =>
    not_lt_of_gt (hparts.2.2 a ha x List.mem_cons_self)
  have hnewer : ∀ a ∈ newer, x < a := (List.pairwise_cons.1 hparts.2.1).1
  have hfilter : (older ++ x :: newer).filter (x < ·) = newer := by
    rw [List.filter_append, List.filter_cons_of_neg (by simp)]
    rw [List.filter_eq_nil_iff.2 (by simpa using holder)]
    rw [List.filter_eq_self.2 (by simpa using hnewer), List.nil_append]
  rw [hfilter, newest, List.length_append, List.length_cons]
  have hmem : x ∈ (older ++ x :: newer).drop (older.length + (newer.length + 1) - limit)
      ↔ older.length + (newer.length + 1) - limit ≤ older.length := by
    generalize older.length + (newer.length + 1) - limit = dropped
    constructor
    · intro hleft
      by_contra hlt
      obtain ⟨more, rfl⟩ := Nat.exists_eq_add_of_lt (not_le.1 hlt)
      rw [Nat.add_assoc, List.drop_append, List.drop_of_length_le (by omega),
        Nat.add_sub_cancel_left, List.drop_succ_cons, List.nil_append] at hleft
      exact lt_irrefl x (hnewer x (List.mem_of_mem_drop hleft))
    · intro hle
      rw [List.drop_append_of_le_length hle]
      exact List.mem_append_right _ List.mem_cons_self
  rw [hmem]
  omega

end Sorted

end Scharnhorst.Newest
