/-
Actions in another order.

Two lists of actions are interchangeable if one comes of the other by swapping neighbours that are
independent. What a run over such a list comes to is the same, provided that two independent actions
commute; which pairs are independent, and what a run is, is left open.
-/
import Mathlib.Data.List.Basic

set_option autoImplicit false

namespace Traces

variable {α β σ : Type}

/-- One list comes of the other by swaps of independent neighbours. -/
inductive Interchange (I : α → α → Prop) : List α → List α → Prop
  | refl (l : List α) : Interchange I l l
  | swap {a b : α} (hab : I a b) (l : List α) : Interchange I (a :: b :: l) (b :: a :: l)
  | cons (a : α) {l l' : List α} (h : Interchange I l l') : Interchange I (a :: l) (a :: l')
  | trans {l m n : List α} (h : Interchange I l m) (h' : Interchange I m n) : Interchange I l n

variable {I : α → α → Prop} {l l' : List α}

namespace Interchange

theorem perm (h : Interchange I l l') : l.Perm l' := by
  induction h with
  | refl l => exact .refl l
  | swap hab l => exact .swap _ _ l
  | cons a h ih => exact ih.cons a
  | trans h h' ih ih' => exact ih.trans ih'

theorem symm (hI : ∀ a b, I a b → I b a) (h : Interchange I l l') : Interchange I l' l := by
  induction h with
  | refl l => exact .refl l
  | swap hab l => exact .swap (hI _ _ hab) l
  | cons a h ih => exact .cons a ih
  | trans h h' ih ih' => exact .trans ih' ih

/-- If independent actions commute, the state after them is the same. -/
theorem foldl {step : σ → α → σ} (hstep : ∀ s a b, I a b → step (step s a) b = step (step s b) a)
    (h : Interchange I l l') (s : σ) : l.foldl step s = l'.foldl step s := by
  induction h generalizing s with
  | refl l => rfl
  | swap hab l => rw [List.foldl_cons, List.foldl_cons, List.foldl_cons, List.foldl_cons,
      hstep s _ _ hab]
  | cons a h ih => exact ih (step s a)
  | trans h h' ih ih' => exact (ih s).trans (ih' s)

end Interchange

end Traces
