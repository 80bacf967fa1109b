/-
Keyed tables as sets of rows.

Whoever sees the rows alone sees no key. If every row carries its key, then the operations at one
key are operations on the set of rows: an insert adds a row, a delete keeps the rows of other keys,
and a modification goes over the rows of its key.
-/
import Scharnhorst.Addressing
import Mathlib.Data.Set.Insert

set_option autoImplicit false

namespace Scharnhorst.Addressing

namespace KeyedTable

variable {κ ρ : Type} {t : KeyedTable κ ρ} {key : ρ → Option κ} {k : κ} {row : ρ}

/-- The rows, without their keys. -/
def rows (t : KeyedTable κ ρ) : Set ρ := {row | ∃ k, t k = some row}

/-- Every row carries its key. -/
def KeyedBy (key : ρ → Option κ) (t : KeyedTable κ ρ) : Prop :=
  ∀ k row, t k = some row → key row = some k

theorem keyedBy_empty (key : ρ → Option κ) : KeyedBy key fun _ => none := nofun

variable [DecidableEq κ]

theorem KeyedBy.insert (h : KeyedBy key t) (hrow : key row = some k) :
    KeyedBy key (t.insert k row) := by
  intro k' row' hk
  unfold KeyedTable.insert at hk
  split at hk
  · rename_i heq
    rw [← Option.some.inj hk, hrow, heq]
  · exact h k' row' hk

theorem KeyedBy.modify (h : KeyedBy key t) {f : ρ → ρ} (hf : ∀ row, key (f row) = key row) :
    KeyedBy key (t.modify k f) := by
  intro k' row' hk
  unfold KeyedTable.modify at hk
  split at hk
  · obtain ⟨row, hrow, rfl⟩ := Option.map_eq_some_iff.1 hk
    rw [hf, h k' row hrow]
  · exact h k' row' hk

theorem KeyedBy.delete (h : KeyedBy key t) : KeyedBy key (t.delete k) := by
  intro k' row' hk
  unfold KeyedTable.delete at hk
  split at hk
  · cases hk
  · exact h k' row' hk

/-- An insert under a key that is free. -/
theorem rows_insert (hfree : t k = none) : (t.insert k row).rows = Insert.insert row t.rows := by
  ext row'
  simp only [rows, KeyedTable.insert, Set.mem_ofPred_eq, Set.mem_insert_iff]
  constructor
  · rintro ⟨k', hk⟩
    split at hk
    · exact Or.inl (Option.some.inj hk).symm
    · exact Or.inr ⟨k', hk⟩
  · rintro (rfl | ⟨k', hk⟩)
    · exact ⟨k, if_pos rfl⟩
    · refine ⟨k', ?_⟩
      rw [if_neg, hk]
      rintro rfl
      rw [hfree] at hk
      cases hk

/-- The rows of other keys are kept. -/
theorem rows_delete (h : KeyedBy key t) :
    (t.delete k).rows = {row ∈ t.rows | key row ≠ some k} := by
  ext row
  simp only [rows, KeyedTable.delete, Set.mem_ofPred_eq]
  constructor
  · rintro ⟨k', hk⟩
    split at hk
    · cases hk
    · rename_i hne
      refine ⟨⟨k', hk⟩, ?_⟩
      rw [h k' row hk, Ne, Option.some.injEq]
      exact Ne.symm hne
  · rintro ⟨⟨k', hk⟩, hne⟩
    refine ⟨k', ?_⟩
    rw [if_neg, hk]
    rintro rfl
    exact hne (h k row hk)

/-- The rows of the key are changed. -/
theorem rows_modify (h : KeyedBy key t) (f : ρ → ρ) :
    (t.modify k f).rows = (fun row => if key row = some k then f row else row) '' t.rows := by
  ext row
  simp only [rows, KeyedTable.modify, Set.mem_ofPred_eq, Set.mem_image]
  constructor
  · rintro ⟨k', hk⟩
    split at hk
    · rename_i heq
      obtain ⟨row₀, hrow, rfl⟩ := Option.map_eq_some_iff.1 hk
      refine ⟨row₀, ⟨k', hrow⟩, if_pos ?_⟩
      rw [h k' row₀ hrow, heq]
    · rename_i hne
      refine ⟨row, ⟨k', hk⟩, if_neg ?_⟩
      rw [h k' row hk, Option.some.injEq]
      exact Ne.symm hne
  · rintro ⟨row₀, ⟨k', hk⟩, rfl⟩
    refine ⟨k', ?_⟩
    rw [h k' row₀ hk, hk]
    by_cases heq : k = k'
    · rw [if_pos heq, if_pos (congrArg some heq.symm)]
      rfl
    · rw [if_neg heq, if_neg fun hsome => heq (Option.some.inj hsome).symm]

end KeyedTable

end Scharnhorst.Addressing
