/-
Separators in a text.

A symbol separates the parts of a text, but not everywhere: what stands before it decides whether it
counts. The texts after which it does are a set, `opened`. A text is a single part if no separator
counts, or only one with nothing but blanks behind it, which is then taken off together with the
blanks in front of it. Two readings of one text have the same single parts if they see the same
separators that count, unless each of them sees one inside.
-/
import Mathlib.Data.List.DropRight

set_option autoImplicit false

universe u

namespace Separators

variable {α : Type u}

/-! ## Cuts -/

/-- A separator counts between `before` and `after`. -/
def Cut (opened : Set (List α)) (sep : α) (s before after : List α) : Prop :=
  s = before ++ sep :: after ∧ before ∈ opened

section Cuts

variable {opened : Set (List α)} {sep c : α} {s t before after before' after' : List α}

theorem Cut.length_lt (h : Cut opened sep s before after) : before.length < s.length := by
  rw [h.1, List.length_append, List.length_cons]
  omega

/-- One place in the text is one cut. -/
theorem Cut.after_unique (h : Cut opened sep s before after) (h' : Cut opened sep s before after') :
    after = after' := by
  have heq := List.append_cancel_left (h.1.symm.trans h'.1)
  exact (List.cons.inj heq).2

theorem Cut.append (h : Cut opened sep s before after) (t : List α) :
    Cut opened sep (s ++ t) before (after ++ t) := by
  refine ⟨?_, h.2⟩
  rw [h.1, List.append_assoc, List.cons_append]

theorem not_cut_nil : ¬ Cut opened sep [] before after := by
  intro h
  exact Nat.not_lt_zero _ h.length_lt

/-- A text that is longer by one symbol has one more cut at most, and that at its end. -/
theorem cut_concat : Cut opened sep (s ++ [c]) before after ↔
    (∃ rest, Cut opened sep s before rest ∧ after = rest ++ [c])
      ∨ (c = sep ∧ s ∈ opened ∧ before = s ∧ after = []) := by
  constructor
  · rintro ⟨heq, hopen⟩
    rcases List.eq_nil_or_concat after with rfl | ⟨rest, d, rfl⟩
    · right
      have hsplit := List.append_inj' heq rfl
      obtain ⟨rfl, hc⟩ := hsplit
      exact ⟨(List.cons.inj hc).1, hopen, rfl, rfl⟩
    · left
      rw [List.concat_eq_append, ← List.cons_append, ← List.append_assoc] at heq
      obtain ⟨hs, hd⟩ := List.append_inj' heq rfl
      rw [List.concat_eq_append, (List.cons.inj hd).1]
      exact ⟨rest, ⟨hs, hopen⟩, rfl⟩
  · rintro (⟨rest, h, rfl⟩ | ⟨rfl, hopen, rfl, rfl⟩)
    · exact h.append [c]
    · exact ⟨rfl, hopen⟩

end Cuts

/-! ## Single parts -/

section Single

variable (blank : α → Bool) (opened : Set (List α)) (sep : α)

/-- The text is one part, and the part is `p`. -/
def Single (s p : List α) : Prop :=
  (p = s ∧ ∀ before after, ¬ Cut opened sep s before after)
    ∨ ∃ before after, Cut opened sep s before after ∧ (∀ c ∈ after, blank c = true)
      ∧ (∀ before' after', Cut opened sep s before' after' → before' = before)
      ∧ p = before.rdropWhile blank

/-- A separator counts that has something behind it. -/
def Continues (s : List α) : Prop :=
  ∃ before after, Cut opened sep s before after ∧ ∃ c ∈ after, blank c = false

variable {blank opened sep} {opened' : Set (List α)} {s p before after before' after' : List α}

/-- The part has no separator that counts. -/
theorem Single.clean (h : Single blank opened sep s p) : ¬ Cut opened sep p before after := by
  intro hcut
  rcases h with ⟨rfl, hnone⟩ | ⟨front, back, hfront, -, hunique, rfl⟩
  · exact hnone before after hcut
  · -- a cut of a part of the text is a cut of the text, and it stands further on the left
    obtain ⟨rest, hrest⟩ := List.rdropWhile_prefix blank front
    have hlt := hcut.length_lt
    have hle : (front.rdropWhile blank).length ≤ front.length :=
      (List.rdropWhile_prefix blank front).length_le
    have hwhole := hcut.append (rest ++ sep :: back)
    rw [← List.append_assoc, hrest, ← hfront.1] at hwhole
    rw [hunique _ _ hwhole] at hlt
    omega

/-- Behind the last symbol that is no blank there is one place for a separator. -/
theorem trailing_unique (hsep : blank sep = false) (h : s = before ++ sep :: after)
    (h' : s = before' ++ sep :: after') (hblank : ∀ c ∈ after, blank c = true)
    (hblank' : ∀ c ∈ after', blank c = true) : before = before' := by
  -- without the blanks at its end, the text ends with the separator
  have hkeep : ∀ front {back : List α}, (∀ c ∈ back, blank c = true) →
      (front ++ sep :: back).rdropWhile blank = front ++ [sep] := by
    intro front back hback
    rw [List.append_cons]
    induction back using List.reverseRecOn with
    | nil =>
      rw [List.append_nil, List.rdropWhile_concat_neg _ _ _ (by rw [hsep]; decide)]
    | append_singleton back c ih =>
      rw [← List.append_assoc, List.rdropWhile_concat_pos _ _ _ (hback c (by simp))]
      exact ih fun d hd => hback d (List.mem_append_left _ hd)
  have heq := hkeep before hblank
  rw [← h, h', hkeep before' hblank'] at heq
  exact (List.append_inj' heq rfl).1.symm

/-- Without a separator inside, a cut is the last and only one. -/
theorem not_continues_iff : ¬ Continues blank opened sep s ↔
    ∀ before after, Cut opened sep s before after → ∀ c ∈ after, blank c = true := by
  constructor
  · intro h before after hcut c hc
    by_contra hblank
    exact h ⟨before, after, hcut, c, hc, Bool.eq_false_iff.2 hblank⟩
  · rintro h ⟨before, after, hcut, c, hc, hblank⟩
    rw [h before after hcut c hc] at hblank
    cases hblank

/-- A text is one part if no separator stands inside. -/
theorem single_iff (hsep : blank sep = false) : Single blank opened sep s p ↔
    ¬ Continues blank opened sep s ∧
      ((p = s ∧ ∀ before after, ¬ Cut opened sep s before after)
        ∨ ∃ before after, Cut opened sep s before after ∧ p = before.rdropWhile blank) := by
  rw [not_continues_iff]
  constructor
  · rintro (⟨rfl, hnone⟩ | ⟨before, after, hcut, hblank, hunique, rfl⟩)
    · refine ⟨?_, Or.inl ⟨rfl, hnone⟩⟩
      intro before after hcut
      exact absurd hcut (hnone before after)
    · refine ⟨?_, Or.inr ⟨before, after, hcut, rfl⟩⟩
      intro before' after' hcut'
      obtain rfl := hunique before' after' hcut'
      rw [hcut'.after_unique hcut]
      exact hblank
  · rintro ⟨htrailing, ⟨rfl, hnone⟩ | ⟨before, after, hcut, rfl⟩⟩
    · exact Or.inl ⟨rfl, hnone⟩
    · refine Or.inr ⟨before, after, hcut, htrailing before after hcut, ?_, rfl⟩
      intro before' after' hcut'
      exact trailing_unique hsep hcut'.1 hcut.1 (htrailing before' after' hcut')
        (htrailing before after hcut)

/-- A text without a separator inside is one part. -/
theorem exists_single (hsep : blank sep = false) (h : ¬ Continues blank opened sep s) :
    ∃ p, Single blank opened sep s p := by
  by_cases hcut : ∃ before after, Cut opened sep s before after
  · obtain ⟨before, after, hcut⟩ := hcut
    exact ⟨_, (single_iff hsep).2 ⟨h, Or.inr ⟨before, after, hcut, rfl⟩⟩⟩
  · refine ⟨s, (single_iff hsep).2 ⟨h, Or.inl ⟨rfl, ?_⟩⟩⟩
    intro before after hnone
    exact hcut ⟨before, after, hnone⟩

/-- A separator at the end of one reading is seen by another that finds the same part. -/
theorem Single.cut_of_cut (hsep : blank sep = false)
    (hcut : Cut opened sep s before after) (hblank : ∀ c ∈ after, blank c = true)
    (h : Single blank opened' sep s (before.rdropWhile blank)) : Cut opened' sep s before after := by
  have hlt := hcut.length_lt
  have hle : (before.rdropWhile blank).length ≤ before.length :=
    (List.rdropWhile_prefix blank before).length_le
  rcases h with ⟨heq, -⟩ | ⟨before', after', hcut', hblank', -, -⟩
  · rw [heq] at hle
    omega
  · obtain rfl := trailing_unique hsep hcut.1 hcut'.1 hblank hblank'
    exact ⟨hcut.1, hcut'.2⟩

/-- Two readings find the same parts if and only if both see a separator inside, or neither does and
they see the same at the end. -/
theorem single_agree_iff (hsep : blank sep = false) :
    (∀ p, Single blank opened sep s p ↔ Single blank opened' sep s p) ↔
      (Continues blank opened sep s ↔ Continues blank opened' sep s)
        ∧ (¬ Continues blank opened sep s →
          ∀ before after, Cut opened sep s before after ↔ Cut opened' sep s before after) := by
  constructor
  · intro h
    have hiff : Continues blank opened sep s ↔ Continues blank opened' sep s := by
      rw [← not_iff_not]
      constructor
      · intro hnot
        obtain ⟨p, hp⟩ := exists_single hsep hnot
        exact ((single_iff hsep).1 ((h p).1 hp)).1
      · intro hnot
        obtain ⟨p, hp⟩ := exists_single hsep hnot
        exact ((single_iff hsep).1 ((h p).2 hp)).1
    refine ⟨hiff, ?_⟩
    intro hnot before after
    have hnot' : ¬ Continues blank opened' sep s := fun h' => hnot (hiff.2 h')
    constructor
    · -- the part in front of the cut is found by the other reading too
      intro hcut
      have hp := (h _).1 ((single_iff hsep).2 ⟨hnot, Or.inr ⟨before, after, hcut, rfl⟩⟩)
      exact hp.cut_of_cut hsep hcut (not_continues_iff.1 hnot before after hcut)
    · intro hcut
      have hp := (h _).2 ((single_iff hsep).2 ⟨hnot', Or.inr ⟨before, after, hcut, rfl⟩⟩)
      exact hp.cut_of_cut hsep hcut (not_continues_iff.1 hnot' before after hcut)
  · rintro ⟨hiff, hcuts⟩ p
    rw [single_iff hsep, single_iff hsep]
    by_cases hcont : Continues blank opened sep s
    · simp only [hcont, hiff.1 hcont, not_true, false_and]
    · simp only [hcuts hcont, hiff]

end Single

end Separators
