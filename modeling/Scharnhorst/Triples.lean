/-
Pre- and postconditions of fallible computations.

A computation that may write and may fail has two exits. A triple says what holds at each: from a
state in which `P` holds, the value and the state after it satisfy `Q`, or the error and the state
after it satisfy `E`. Nothing here names the repository. The rules follow the ways in which
computations are put together: a result that is there, one computation after the other, a list
of them from the left to the right.
-/
import Scharnhorst.ReadOnly

set_option autoImplicit false

namespace Scharnhorst.Triples

open ReadOnly

universe u v w

variable {σ : Type u} {ε : Type v} {α β γ : Type w}

/-- A failure of a sequence is one of its first part, or of what comes after. -/
theorem bind_eq_error {r : Except ε α} {f : α → Except ε β} {e : ε} :
    r >>= f = .error e ↔ r = .error e ∨ ∃ a, r = .ok a ∧ f a = .error e := by
  rcases r with e' | a
  · simp [bind, Except.bind]
  · simp [bind, Except.bind]

/-- From `P`: a value under `Q`, or an error under `E`. -/
structure Triple (P : σ → Prop) (x : Computation σ ε α) (Q : α → σ → Prop) (E : ε → σ → Prop) :
    Prop where
  ok : ∀ s a s', P s → x s = (.ok a, s') → Q a s'
  error : ∀ s e s', P s → x s = (.error e, s') → E e s'

variable {P P' : σ → Prop} {Q Q' : α → σ → Prop} {R : β → σ → Prop} {E E' : ε → σ → Prop}
  {x : Computation σ ε α}

/-- The rule of consequence. -/
theorem Triple.weaken (h : Triple P x Q E) (hP : ∀ s, P' s → P s) (hQ : ∀ a s, Q a s → Q' a s)
    (hE : ∀ e s, E e s → E' e s) : Triple P' x Q' E' where
  ok s a s' hs hrun := hQ a s' (h.ok s a s' (hP s hs) hrun)
  error s e s' hs hrun := hE e s' (h.error s e s' (hP s hs) hrun)

theorem Triple.post (h : Triple P x Q E) (hQ : ∀ a s, Q a s → Q' a s) : Triple P x Q' E :=
  h.weaken (fun _ hs => hs) hQ fun _ _ he => he

theorem triple_value {a : α} (h : ∀ s, P s → Q a s) : Triple P (done (.ok a)) Q E where
  ok := by
    intro s b s' hs hrun
    obtain ⟨hb, rfl⟩ := Prod.mk.inj hrun
    cases hb
    exact h s hs
  error := by
    intro s e s' _ hrun
    cases (Prod.mk.inj hrun).1

theorem triple_failure {e : ε} (h : ∀ s, P s → E e s) :
    Triple P (done (α := α) (.error e)) Q E where
  ok := by
    intro s a s' _ hrun
    cases (Prod.mk.inj hrun).1
  error := by
    intro s e' s' hs hrun
    obtain ⟨he, rfl⟩ := Prod.mk.inj hrun
    cases he
    exact h s hs

/-- The rule of sequence: what the first leaves is what the second starts from. -/
theorem Triple.and_then {f : α → Computation σ ε β} (hx : Triple P x Q E)
    (hf : ∀ a, Triple (Q a) (f a) R E) : Triple P (ReadOnly.and_then x f) R E where
  ok := by
    intro s b s' hs hrun
    unfold ReadOnly.and_then at hrun
    rcases hfirst : x s with ⟨e | a, t⟩
    · rw [hfirst] at hrun
      cases hrun
    · rw [hfirst] at hrun
      exact (hf a).ok t b s' (hx.ok s a t hs hfirst) hrun
  error := by
    intro s e s' hs hrun
    unfold ReadOnly.and_then at hrun
    rcases hfirst : x s with ⟨e' | a, t⟩
    · rw [hfirst] at hrun
      cases hrun
      exact hx.error s e s' hs hfirst
    · rw [hfirst] at hrun
      exact (hf a).error t e s' (hx.ok s a t hs hfirst) hrun

/-- A computation that only reads keeps what held before it. -/
theorem Triple.frame (hreads : Reads x) (h : Triple P x Q E) :
    Triple P x (fun a s => Q a s ∧ P s) fun e s => E e s ∧ P s where
  ok := by
    intro s a s' hs hrun
    have hsame : s' = s := (congrArg Prod.snd hrun).symm.trans (hreads s)
    exact ⟨h.ok s a s' hs hrun, hsame ▸ hs⟩
  error := by
    intro s e s' hs hrun
    have hsame : s' = s := (congrArg Prod.snd hrun).symm.trans (hreads s)
    exact ⟨h.error s e s' hs hrun, hsame ▸ hs⟩

/-- A list of computations, each with a condition of its own on its value, over an invariant. -/
theorem triple_collect {xs : List (Computation σ ε α)} {conds : List (α → Prop)}
    (h : List.Forall₂ (fun x V => Triple P x (fun a s => V a ∧ P s) E) xs conds) :
    Triple P (collect xs) (fun as s => List.Forall₂ (fun V a => V a) conds as ∧ P s) E := by
  induction h with
  | nil => exact triple_value fun s hs => ⟨.nil, hs⟩
  | @cons x V xs conds hx _ ih =>
    apply hx.and_then
    intro a
    -- the condition on the head goes along while the tail runs
    have htail : Triple (fun s => V a ∧ P s) (collect xs)
        (fun as s => V a ∧ List.Forall₂ (fun V a => V a) conds as ∧ P s) E := by
      refine ⟨?_, ?_⟩
      · intro s as s' hs hrun
        exact ⟨hs.1, ih.ok s as s' hs.2 hrun⟩
      · intro s e s' hs hrun
        exact ih.error s e s' hs.2 hrun
    apply htail.and_then
    intro as
    exact triple_value fun s hs => ⟨.cons hs.1 hs.2.1, hs.2.2⟩

end Scharnhorst.Triples
