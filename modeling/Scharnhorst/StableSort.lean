/-
Sorting by a key that several elements may share.

What a stable sort leaves alone is, for each key, the list of the elements that have it. A list
that is in order is determined by these lists, so every way of sorting that keeps them gives the
same result, and it does not matter how often one sorts on the way.
-/
import Mathlib.Data.List.Sort

set_option autoImplicit false

universe u v

namespace StableSort

variable {α : Type u} {κ : Type v} [LinearOrder κ] {key : α → κ} {xs ys zs : List α}

variable (key) in
/-- Ascending keys. -/
def InKeyOrder (xs : List α) : Prop := xs.Pairwise fun a b => key a ≤ key b

variable (key) in
/-- The elements of each key are the same ones in the same order. -/
def SameTies (xs ys : List α) : Prop :=
  ∀ k, (xs.filter fun a => key a = k) = ys.filter fun a => key a = k

theorem SameTies.trans (h : SameTies key xs ys) (h' : SameTies key ys zs) : SameTies key xs zs :=
  fun k => (h k).trans (h' k)

theorem SameTies.symm (h : SameTies key xs ys) : SameTies key ys xs := fun k => (h k).symm

theorem SameTies.append_right (h : SameTies key xs ys) (zs : List α) :
    SameTies key (xs ++ zs) (ys ++ zs) := by
  intro k
  rw [List.filter_append, List.filter_append, h k]

theorem SameTies.mem_iff (h : SameTies key xs ys) {a : α} : a ∈ xs ↔ a ∈ ys := by
  have hmem : a ∈ (xs.filter fun b => key b = key a) ↔ a ∈ ys.filter fun b => key b = key a := by
    rw [h]
  simpa using hmem

/-- There is one way to put elements in the order of their keys without exchanging those of one
key. -/
theorem eq_of_sameTies (hx : InKeyOrder key xs) (hy : InKeyOrder key ys)
    (h : SameTies key xs ys) : xs = ys := by
  induction xs generalizing ys with
  | nil =>
    rcases ys with _ | ⟨y, ys⟩
    · rfl
    · exact absurd (h.mem_iff.mpr List.mem_cons_self) List.not_mem_nil
  | cons x xs ih =>
    rcases ys with _ | ⟨y, ys⟩
    · exact absurd (h.mem_iff.mp List.mem_cons_self) List.not_mem_nil
    · -- both heads have the least key, and the first of its list is the head
      have hle : ∀ {z : α} {zs : List α}, InKeyOrder key (z :: zs) → ∀ a ∈ z :: zs, key z ≤ key a := by
        intro z zs hz a ha
        rcases List.mem_cons.mp ha with rfl | ha
        · exact le_rfl
        · exact List.rel_of_pairwise_cons hz ha
      have hkey : key y = key x :=
        le_antisymm (hle hy x (h.mem_iff.mp List.mem_cons_self))
          (hle hx y (h.mem_iff.mpr List.mem_cons_self))
      have hheads := h (key x)
      rw [List.filter_cons_of_pos (by simp), List.filter_cons_of_pos (by simpa using hkey)] at hheads
      obtain ⟨rfl, -⟩ := List.cons.inj hheads
      have htails : SameTies key xs ys := by
        intro k
        have hk := h k
        by_cases hx' : key x = k
        · rw [List.filter_cons_of_pos (by simpa using hx'),
            List.filter_cons_of_pos (by simpa using hx')] at hk
          exact (List.cons.inj hk).2
        · rwa [List.filter_cons_of_neg (by simpa using hx'),
            List.filter_cons_of_neg (by simpa using hx')] at hk
      have hrest : xs = ys := ih hx.tail hy.tail htails
      rw [hrest]

/-! ## Merge sort -/

section MergeSort

private theorem le_total_key (a b : α) :
    (decide (key a ≤ key b) || decide (key b ≤ key a)) = true := by
  simpa using le_total (key a) (key b)

private theorem le_trans_key (a b c : α) (hab : decide (key a ≤ key b) = true)
    (hbc : decide (key b ≤ key c) = true) : decide (key a ≤ key c) = true := by
  simp only [decide_eq_true_eq] at hab hbc ⊢
  exact le_trans hab hbc

theorem inKeyOrder_mergeSort (xs : List α) :
    InKeyOrder key (xs.mergeSort fun a b => key a ≤ key b) := by
  have hsorted : (xs.mergeSort fun a b => key a ≤ key b).Pairwise
      fun a b => decide (key a ≤ key b) = true :=
    List.pairwise_mergeSort le_trans_key le_total_key xs
  exact hsorted.imp fun hab => by simpa using hab

/-- A merge sort is stable. -/
theorem sameTies_mergeSort (xs : List α) :
    SameTies key (xs.mergeSort fun a b => key a ≤ key b) xs := by
  intro k
  have hties : (xs.filter fun a => key a = k).Pairwise fun a b => decide (key a ≤ key b) = true := by
    refine List.pairwise_of_forall_mem_list fun a ha b hb => ?_
    simp only [List.mem_filter, decide_eq_true_eq] at ha hb
    simp [ha.2, hb.2]
  have hsub : List.Sublist (xs.filter fun a => key a = k) (xs.mergeSort fun a b => key a ≤ key b) :=
    List.sublist_mergeSort le_trans_key le_total_key hties List.filter_sublist
  have hfilter := hsub.filter fun a => decide (key a = k)
  rw [List.filter_filter, List.filter_congr fun a _ => Bool.and_self _] at hfilter
  have hlength := ((List.mergeSort_perm xs fun a b => key a ≤ key b).filter
    fun a => decide (key a = k)).length_eq
  exact (hfilter.eq_of_length hlength.symm).symm

end MergeSort

end StableSort
