/-
Keyed tables and their storage at addresses.

A keyed table is a partial function from keys to rows, with the four operations one
expects of it. A store does not keep such a function: it keeps an address for each
live key and a memory that is read at addresses. `Stored` says that the two agree,
and that no two keys share an address.

The last part is what makes writing sound. Writing through one key's address leaves
every other key's row alone exactly because no other key has that address, so each
operation below needs it before and must re-establish it. Only `add` can break it: it
picks an address, and has to pick one that no live key has.

An index over the rows is a third party to this: it is kept by whoever writes, and goes
stale where a writer leaves it alone. Nothing here names the repository.
-/
import Mathlib.Tactic.Common

set_option autoImplicit false

namespace Scharnhorst.Addressing

variable {κ ℓ ρ : Type}

/-! ## Keyed tables -/

/-- The rows of a table by key. -/
abbrev KeyedTable (κ ρ : Type) := κ → Option ρ

namespace KeyedTable

variable [DecidableEq κ]

def insert (t : KeyedTable κ ρ) (k : κ) (row : ρ) : KeyedTable κ ρ :=
  fun k' => if k = k' then some row else t k'

def modify (t : KeyedTable κ ρ) (k : κ) (f : ρ → ρ) : KeyedTable κ ρ :=
  fun k' => if k = k' then (t k').map f else t k'

def delete (t : KeyedTable κ ρ) (k : κ) : KeyedTable κ ρ :=
  fun k' => if k = k' then none else t k'

end KeyedTable

/-! ## Storage -/

/-- The keyed table that addresses and memory hold between them. -/
structure Stored (address : κ → Option ℓ) (read : ℓ → Option ρ) (t : KeyedTable κ ρ) :
    Prop where
  dead : ∀ k, address k = none → t k = none
  live : ∀ k l, address k = some l → ∃ row, read l = some row ∧ t k = some row
  injective : ∀ k k' l, address k = some l → address k' = some l → k = k'

namespace Stored

variable {address address' : κ → Option ℓ} {read read' : ℓ → Option ρ} {t : KeyedTable κ ρ}

theorem empty (read : ℓ → Option ρ) : Stored (fun _ : κ => none) read fun _ => none :=
  ⟨fun _ _ => rfl, nofun, nofun⟩

/-- A key is live when it has an address. -/
theorem isSome_eq (h : Stored address read t) (k : κ) : (t k).isSome = (address k).isSome := by
  rcases hk : address k with _ | l
  · simp [h.dead k hk]
  · obtain ⟨row, -, ht⟩ := h.live k l hk
    simp [ht]

/-- Following a key's address finds its row. -/
theorem bind_read (h : Stored address read t) (k : κ) : (address k).bind read = t k := by
  rcases hk : address k with _ | l
  · rw [h.dead k hk, Option.bind_none]
  · obtain ⟨row, hread, ht⟩ := h.live k l hk
    rw [Option.bind_some, hread, ht]

variable [DecidableEq κ]

/-- Rewriting the row at a key's address is `modify`. -/
theorem modify {k : κ} {l : ℓ} {f : ρ → ρ} (h : Stored address read t)
    (hk : address k = some l) (hwrite : read' l = (read l).map f)
    (hother : ∀ l' ≠ l, read' l' = read l') : Stored address read' (t.modify k f) := by
  refine ⟨fun k' hk' => ?_, fun k' l' hk' => ?_, h.injective⟩
  · simp [KeyedTable.modify, h.dead k' hk']
  · obtain ⟨row, hread, ht⟩ := h.live k' l' hk'
    by_cases heq : k = k'
    · subst heq
      obtain rfl : l = l' := by simpa [hk] using hk'
      exact ⟨f row, by rw [hwrite, hread, Option.map_some], by simp [KeyedTable.modify, ht]⟩
    · have hne : l' ≠ l := fun hl => heq (h.injective k k' l hk (hl ▸ hk'))
      exact ⟨row, by rw [hother l' hne, hread], by simp [KeyedTable.modify, heq, ht]⟩

/-- Forgetting a key's address is `delete`, whatever happens to the row there. -/
theorem delete {k : κ} {l : ℓ} (h : Stored address read t) (hk : address k = some l)
    (haddress : ∀ k', address' k' = if k = k' then none else address k')
    (hother : ∀ l' ≠ l, read' l' = read l') : Stored address' read' (t.delete k) := by
  refine ⟨fun k' hk' => ?_, fun k' l' hk' => ?_, fun k₁ k₂ l' h₁ h₂ => ?_⟩
  · rw [haddress] at hk'
    unfold KeyedTable.delete
    split
    · rfl
    · rename_i hne
      exact h.dead k' (by simpa [hne] using hk')
  · rw [haddress] at hk'
    split at hk'
    · cases hk'
    · rename_i hne
      obtain ⟨row, hread, ht⟩ := h.live k' l' hk'
      have hl : l' ≠ l := fun hl => hne (h.injective k k' l hk (hl ▸ hk'))
      exact ⟨row, by rw [hother l' hl, hread], by simp [KeyedTable.delete, hne, ht]⟩
  · rw [haddress] at h₁ h₂
    split at h₁ <;> [cases h₁; skip]
    split at h₂ <;> [cases h₂; skip]
    exact h.injective k₁ k₂ l' h₁ h₂

/-- Giving a key an address that no live key has is `insert`. -/
theorem add {k : κ} {l : ℓ} {row : ρ} (h : Stored address read t)
    (hfree : ∀ k', address k' ≠ some l)
    (haddress : ∀ k', address' k' = if k = k' then some l else address k')
    (hwrite : read' l = some row) (hother : ∀ l' ≠ l, read' l' = read l') :
    Stored address' read' (t.insert k row) := by
  refine ⟨fun k' hk' => ?_, fun k' l' hk' => ?_, fun k₁ k₂ l' h₁ h₂ => ?_⟩
  · rw [haddress] at hk'
    split at hk'
    · cases hk'
    · rename_i hne
      simpa [KeyedTable.insert, hne] using h.dead k' hk'
  · rw [haddress] at hk'
    split at hk'
    · rename_i heq
      obtain rfl : l = l' := by simpa using hk'
      exact ⟨row, hwrite, by simp [KeyedTable.insert, heq]⟩
    · rename_i hne
      obtain ⟨row', hread, ht⟩ := h.live k' l' hk'
      have hl : l' ≠ l := fun hl => hfree k' (hl ▸ hk')
      exact ⟨row', by rw [hother l' hl, hread], by simp [KeyedTable.insert, hne, ht]⟩
  · rw [haddress] at h₁ h₂
    split at h₁ <;> split at h₂
    · rename_i he₁ he₂
      exact he₁.symm.trans he₂
    · obtain rfl : l = l' := by simpa using h₁
      exact absurd h₂ (hfree k₂)
    · obtain rfl : l = l' := by simpa using h₂
      exact absurd h₁ (hfree k₁)
    · exact h.injective k₁ k₂ l' h₁ h₂

end Stored

/-! ## Indexes

A secondary index leads from a value that rows carry back to the place of a row that
carries it. -/

/-- Every entry of the index is the place of a row that carries the value, and every value
carried has an entry. -/
structure Indexed {σ : Type} (place : κ → Option ℓ) (value : ρ → Option σ) (t : KeyedTable κ ρ)
    (index : σ → Option ℓ) : Prop where
  sound : ∀ v l, index v = some l → ∃ k row, place k = some l ∧ t k = some row
    ∧ value row = some v
  complete : ∀ v k row, t k = some row → value row = some v → (index v).isSome

namespace Indexed

variable {σ : Type} {place place' : κ → Option ℓ} {value : ρ → Option σ} {t : KeyedTable κ ρ}
  {index index' : σ → Option ℓ} [DecidableEq κ]

omit [DecidableEq κ] in
theorem empty (place : κ → Option ℓ) (value : ρ → Option σ) :
    Indexed place value (fun _ => none) fun _ => none :=
  ⟨nofun, nofun⟩

/-- A row inserted, with the entry of its value set to its place. -/
theorem insert [DecidableEq σ] {k : κ} {l : ℓ} {row : ρ} {v : σ}
    (h : Indexed place value t index) (hnew : t k = none)
    (hplace : ∀ k', place' k' = if k = k' then some l else place k') (hvalue : value row = some v)
    (hindex : ∀ v', index' v' = if v = v' then some l else index v') :
    Indexed place' value (t.insert k row) index' := by
  refine ⟨fun v' l' hv' => ?_, fun v' k' row' hk' hv' => ?_⟩
  · rw [hindex] at hv'
    split at hv'
    · rename_i heq
      obtain rfl : l = l' := by simpa using hv'
      exact ⟨k, row, by simp [hplace], by simp [KeyedTable.insert], heq ▸ hvalue⟩
    · obtain ⟨k', row', hk', hrow', hvalue'⟩ := h.sound v' l' hv'
      have hne : k ≠ k' := fun heq => by
        rw [← heq, hnew] at hrow'
        cases hrow'
      exact ⟨k', row', by simp [hplace, hne, hk'], by simp [KeyedTable.insert, hne, hrow'], hvalue'⟩
  · rw [hindex]
    split
    · rfl
    · rename_i hne
      unfold KeyedTable.insert at hk'
      split at hk'
      · obtain rfl : row = row' := by simpa using hk'
        exact absurd (Option.some.inj (hvalue.symm.trans hv')) hne
      · exact h.complete v' k' row' hk' hv'

/-- A row rewritten. If its value changes, the entry of the old one has to lead elsewhere
and the new one to have an entry. -/
theorem modify {k : κ} {f : ρ → ρ} (h : Indexed place value t index)
    (hkeep : ∀ row, t k = some row → value (f row) = value row
      ∨ ((∀ v, value row = some v → index v ≠ place k)
        ∧ ∀ v, value (f row) = some v → (index v).isSome)) :
    Indexed place value (t.modify k f) index := by
  refine ⟨fun v l hv => ?_, fun v k' row' hk' hv => ?_⟩
  · obtain ⟨k', row, hk', hrow, hvalue⟩ := h.sound v l hv
    by_cases heq : k = k'
    · subst heq
      rcases hkeep row hrow with hsame | ⟨helse, -⟩
      · exact ⟨k, f row, hk', by simp [KeyedTable.modify, hrow], hsame.trans hvalue⟩
      · exact absurd (hv.trans hk'.symm) (helse v hvalue)
    · exact ⟨k', row, hk', by simp [KeyedTable.modify, heq, hrow], hvalue⟩
  · unfold KeyedTable.modify at hk'
    split at hk'
    · rename_i heq
      subst heq
      obtain ⟨row, hrow, rfl⟩ := Option.map_eq_some_iff.1 hk'
      rcases hkeep row hrow with hsame | ⟨-, hentry⟩
      · exact h.complete v k row hrow (hsame.symm.trans hv)
      · exact hentry v hv
    · exact h.complete v k' row' hk' hv

/-- A row deleted, if the entry of its value leads elsewhere. -/
theorem delete {k : κ} (h : Indexed place value t index)
    (hplace : ∀ k', place' k' = if k = k' then none else place k')
    (helse : ∀ row v, t k = some row → value row = some v → index v ≠ place k) :
    Indexed place' value (t.delete k) index := by
  refine ⟨fun v l hv => ?_, fun v k' row' hk' hv => ?_⟩
  · obtain ⟨k', row, hk', hrow, hvalue⟩ := h.sound v l hv
    have hne : k ≠ k' := fun heq => by
      subst heq
      exact helse row v hrow hvalue (hv.trans hk'.symm)
    exact ⟨k', row, by simp [hplace, hne, hk'], by simp [KeyedTable.delete, hne, hrow], hvalue⟩
  · unfold KeyedTable.delete at hk'
    split at hk'
    · cases hk'
    · exact h.complete v k' row' hk' hv

end Indexed

end Scharnhorst.Addressing
