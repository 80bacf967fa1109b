/-
A hash map as the list of its entries.

The order of the list is the order in which the map is walked. What is looked up in a list
whose keys are distinct does not depend on it, and an insertion or a removal is seen at its
own key only. Nothing here names the repository.
-/
import Mathlib.Data.List.Basic
import Mathlib.Data.List.Perm.Basic
import Mathlib.Tactic.Common

set_option autoImplicit false

namespace Scharnhorst.Listed

universe u v

variable {κ : Type u} {α : Type v} [DecidableEq κ]

theorem lookup_cons_if (key name : κ) (value : α) (entries : List (κ × α)) :
    ((key, value) :: entries).lookup name
      = if name = key then some value else entries.lookup name := by
  rw [List.lookup_cons]
  by_cases hname : name = key
  · simp [hname]
  · rw [if_neg hname, beq_false_of_ne hname]

/-- What is looked up is an entry. -/
theorem mem_of_lookup {entries : List (κ × α)} {key : κ} {value : α}
    (h : entries.lookup key = some value) : (key, value) ∈ entries := by
  induction entries with
  | nil => cases h
  | cons entry entries ih =>
      obtain ⟨k, v⟩ := entry
      rw [lookup_cons_if] at h
      split at h
      · rename_i hk
        rw [hk, Option.some.inj h]
        exact List.mem_cons_self
      · exact List.mem_cons_of_mem _ (ih h)

/-- Where the keys are distinct, an entry is what its key leads to. -/
theorem lookup_eq_some_iff {entries : List (κ × α)} (hnodup : (entries.map Prod.fst).Nodup)
    {key : κ} {value : α} : entries.lookup key = some value ↔ (key, value) ∈ entries := by
  refine ⟨mem_of_lookup, fun hmem => ?_⟩
  induction entries with
  | nil => cases hmem
  | cons entry entries ih =>
      obtain ⟨k, v⟩ := entry
      obtain ⟨hnew, hnodup'⟩ := List.nodup_cons.1 hnodup
      rw [lookup_cons_if]
      obtain heq | htail := List.mem_cons.1 hmem
      · obtain ⟨rfl, rfl⟩ := Prod.mk.inj heq
        exact if_pos rfl
      · have hne : key ≠ k := by
          rintro rfl
          exact hnew (List.mem_map.2 ⟨(key, value), htail, rfl⟩)
        rw [if_neg hne]
        exact ih hnodup' htail

/-- Another order of the entries leads to the same values. -/
theorem lookup_perm {entries entries' : List (κ × α)} (hperm : entries.Perm entries')
    (hnodup : (entries.map Prod.fst).Nodup) (key : κ) :
    entries'.lookup key = entries.lookup key := by
  have hnodup' := (hperm.map Prod.fst).nodup_iff.1 hnodup
  apply Option.ext
  intro value
  rw [lookup_eq_some_iff hnodup, lookup_eq_some_iff hnodup', hperm.mem_iff]

/-! ## Insertion and removal -/

/-- `HashMap::remove`. -/
def remove (entries : List (κ × α)) (key : κ) : List (κ × α) :=
  entries.filter fun entry => entry.1 ≠ key

/-- `HashMap::insert`. -/
def insert (entries : List (κ × α)) (key : κ) (value : α) : List (κ × α) :=
  (key, value) :: remove entries key

theorem lookup_remove (entries : List (κ × α)) (key name : κ) :
    (remove entries key).lookup name = if name = key then none else entries.lookup name := by
  unfold remove
  induction entries with
  | nil => simp
  | cons entry entries ih =>
      obtain ⟨k, v⟩ := entry
      by_cases hk : k = key
      · rw [List.filter_cons_of_neg (by simp [hk]), ih, lookup_cons_if, hk]
        split <;> rfl
      · rw [List.filter_cons_of_pos (by simp [hk]), lookup_cons_if, ih, lookup_cons_if]
        by_cases hname : name = k
        · rw [if_pos hname, if_pos hname, if_neg (hname ▸ hk)]
        · rw [if_neg hname, if_neg hname]

theorem lookup_insert (entries : List (κ × α)) (key name : κ) (value : α) :
    (insert entries key value).lookup name
      = if name = key then some value else entries.lookup name := by
  rw [insert, lookup_cons_if, lookup_remove]
  by_cases hname : name = key
  · rw [if_pos hname, if_pos hname]
  · rw [if_neg hname, if_neg hname, if_neg hname]

theorem nodup_remove {entries : List (κ × α)} (h : (entries.map Prod.fst).Nodup) (key : κ) :
    ((remove entries key).map Prod.fst).Nodup :=
  h.sublist (List.filter_sublist.map Prod.fst)

theorem nodup_insert {entries : List (κ × α)} (h : (entries.map Prod.fst).Nodup) (key : κ)
    (value : α) : ((insert entries key value).map Prod.fst).Nodup := by
  refine List.nodup_cons.2 ⟨fun hmem => ?_, nodup_remove h key⟩
  obtain ⟨entry, hentry, hkey⟩ := List.mem_map.1 hmem
  simp only [remove, List.mem_filter, decide_eq_true_eq] at hentry
  exact hentry.2 hkey

/-! ## Two maps with the same keys -/

section Entries

universe w

variable {β : Type w} {R : α → β → Prop} {as : List (κ × α)} {bs : List (κ × β)}

omit [DecidableEq κ] in
theorem keys_of_forall₂ (h : List.Forall₂ (fun a b => b.1 = a.1 ∧ R a.2 b.2) as bs) :
    bs.map Prod.fst = as.map Prod.fst := by
  induction h with
  | nil => rfl
  | cons hentry _ ih => rw [List.map_cons, List.map_cons, hentry.1, ih]

/-- What is related entry by entry is related under each key. -/
theorem lookup_of_forall₂ (h : List.Forall₂ (fun a b => b.1 = a.1 ∧ R a.2 b.2) as bs) {key : κ}
    {a : α} (ha : as.lookup key = some a) : ∃ b, bs.lookup key = some b ∧ R a b := by
  induction h with
  | nil => cases ha
  | @cons x y as bs hentry _ ih =>
    obtain ⟨k, a'⟩ := x
    obtain ⟨k', b'⟩ := y
    obtain ⟨rfl, hR⟩ := hentry
    rw [lookup_cons_if] at ha ⊢
    by_cases hkey : key = k'
    · rw [if_pos hkey] at ha ⊢
      rw [← Option.some.inj ha]
      exact ⟨b', rfl, hR⟩
    · rw [if_neg hkey] at ha ⊢
      exact ih ha

end Entries

end Scharnhorst.Listed
