/-
Keys by recency.

A list of distinct keys, the one used last first. To use a key is to bring it to the front,
`touch`. A store of bounded size that keeps the `n` keys used last has the first `n` of the list,
and what a use makes of these depends on whether the key is one of them: if it is it moves to the
front, if not it pushes the last of them out. Nothing here names the repository.
-/
import Mathlib.Data.List.Basic
import Mathlib.Data.List.Nodup
import Mathlib.Tactic.Common

set_option autoImplicit false

namespace Scharnhorst.Recency

universe u v

variable {κ : Type u} [DecidableEq κ] {k : κ} {used : List κ} {n : Nat}

def touch (k : κ) (used : List κ) : List κ := k :: used.erase k

theorem nodup_touch (h : used.Nodup) : (touch k used).Nodup :=
  List.nodup_cons.2 ⟨h.not_mem_erase, h.erase k⟩

/-- One of the first moves to the front of them. -/
theorem take_touch_of_mem (hk : k ∈ used.take n) :
    (touch k used).take n = touch k (used.take n) := by
  induction used generalizing n with
  | nil => simp at hk
  | cons a used ih =>
    cases n with
    | zero => simp at hk
    | succ n =>
      rw [List.take_succ_cons] at hk ⊢
      -- it is at the front already, or it is taken from behind
      by_cases ha : a = k
      · subst ha
        simp [touch]
      · have htail : k ∈ used.take n := (List.mem_cons.1 hk).resolve_left (Ne.symm ha)
        have hrest := ih htail
        cases n with
        | zero => simp at htail
        | succ n =>
          simp only [touch, List.take_succ_cons, List.cons.injEq, true_and] at hrest
          simp only [touch, List.take_succ_cons, List.cons.injEq, true_and]
          rw [List.erase_cons_tail (by simpa using ha), List.erase_cons_tail (by simpa using ha),
            List.take_succ_cons, hrest]

/-- Another one pushes the last of them out. -/
theorem take_touch_of_not_mem (hk : k ∉ used.take n) :
    (touch k used).take (n + 1) = k :: used.take n := by
  rw [touch, List.take_succ_cons]
  congr 1
  induction used generalizing n with
  | nil => rfl
  | cons a used ih =>
    cases n with
    | zero => simp
    | succ n =>
      rw [List.take_succ_cons, List.mem_cons, not_or] at hk
      rw [List.erase_cons_tail (by simpa using Ne.symm hk.1), List.take_succ_cons,
        List.take_succ_cons, ih hk.2]

/-- With `n` keys kept, the last of them goes. -/
theorem take_touch_of_full {keys : List κ} {last : κ} (hkeys : keys ++ [last] = used.take n)
    (hlen : n ≤ keys.length + 1) (hk : k ∉ used.take n) :
    (touch k used).take n = k :: keys := by
  have hsize := congrArg List.length hkeys
  rw [List.length_append, List.length_singleton, List.length_take] at hsize
  obtain rfl : n = keys.length + 1 := by omega
  have hfront : used.take keys.length = keys := by
    have htake := congrArg (List.take keys.length) hkeys
    rw [List.take_left, List.take_take, Nat.min_eq_left (Nat.le_succ _)] at htake
    exact htake.symm
  rw [take_touch_of_not_mem, hfront]
  intro hmem
  exact hk ((List.take_sublist_take_left (Nat.le_succ _)).subset hmem)

/-- With fewer, they are all there are, and there is room for another. -/
theorem take_touch_of_room (hlen : (used.take n).length < n) (hk : k ∉ used.take n) :
    (touch k used).take n = k :: used.take n := by
  rw [List.length_take] at hlen
  have hall : used.take n = used := List.take_of_length_le (by omega)
  rw [hall] at hk ⊢
  rw [touch, List.erase_of_not_mem hk, List.take_of_length_le]
  rw [List.length_cons]
  omega

/-! ## Lists by age -/

section Ages

variable {ε : Type v} {age : ε → Nat} {es es' : List ε} {e : ε}

/-- The youngest first, no two of one age. -/
def ByAge (age : ε → Nat) (es : List ε) : Prop := es.Pairwise fun a b => age b < age a

theorem ByAge.cons (h : ByAge age es) (he : ∀ a ∈ es, age a < age e) : ByAge age (e :: es) :=
  List.pairwise_cons.2 ⟨he, h⟩

theorem ByAge.sublist (h : ByAge age es) (hs : es'.Sublist es) : ByAge age es' :=
  List.Pairwise.sublist hs h

/-- The last is the only one that is as old as all of them. -/
theorem ByAge.eq_last (h : ByAge age (es ++ [e])) {a : ε} (ha : a ∈ es ++ [e])
    (hold : age a ≤ age e) : a = e := by
  rcases List.mem_append.1 ha with ha | ha
  · have hlt := (List.pairwise_append.1 h).2.2 a ha e (List.mem_singleton_self e)
    omega
  · exact List.mem_singleton.1 ha

end Ages

end Scharnhorst.Recency
