/-
Shelves: values under keys in order, and room for so many.

A value is put under a key that is free, and what is too much then is taken off at the low end.
Which key was put last plays no part: a value that is put below everything on a full shelf is taken
off at once.
-/
import Mathlib.Tactic.Common
import Scharnhorst.Newest

set_option autoImplicit false

namespace Scharnhorst.Shelves

open Newest

/-- Entries by increasing keys. -/
structure Shelf (κ α : Type*) [LinearOrder κ] where
  entries : List (κ × α)
  sorted : (entries.map Prod.fst).SortedLT

namespace Shelf

variable {κ α : Type*} [LinearOrder κ] (shelf : Shelf κ α)

def keys : List κ := shelf.entries.map Prod.fst

def read (k : κ) : Option α := (shelf.entries.find? (·.1 = k)).map Prod.snd

def remove (k : κ) : Shelf κ α where
  entries := shelf.entries.filter (·.1 ≠ k)
  sorted := (shelf.sorted.pairwise.sublist ((List.filter_sublist).map Prod.fst)).sortedLT

/-- The last entries, up to a limit. -/
def prune (limit : Nat) : Shelf κ α where
  entries := newest limit shelf.entries
  sorted := (shelf.sorted.pairwise.sublist ((List.drop_sublist _ _).map Prod.fst)).sortedLT

/-- Whatever was under the key is replaced. -/
def put (k : κ) (a : α) : Shelf κ α where
  entries := shelf.entries.filter (·.1 < k) ++ (k, a) :: shelf.entries.filter (k < ·.1)
  sorted := by
    have hsub : ∀ p : κ × α → Bool, ((shelf.entries.filter p).map Prod.fst).Pairwise (· < ·) :=
      fun p => shelf.sorted.pairwise.sublist (List.filter_sublist.map Prod.fst)
    refine List.Pairwise.sortedLT ?_
    rw [List.map_append, List.map_cons, List.pairwise_append, List.pairwise_cons]
    refine ⟨hsub _, ⟨?_, hsub _⟩, ?_⟩
    · intro x hx
      obtain ⟨e, he, rfl⟩ := List.mem_map.1 hx
      simpa using (List.mem_filter.1 he).2
    · intro x hx y hy
      obtain ⟨e, he, rfl⟩ := List.mem_map.1 hx
      have hlow : e.1 < k := by simpa using (List.mem_filter.1 he).2
      rcases List.mem_cons.1 hy with rfl | hhigh
      · exact hlow
      · obtain ⟨e', he', rfl⟩ := List.mem_map.1 hhigh
        exact hlow.trans (by simpa using (List.mem_filter.1 he').2)

/-- Under a free key, and no more than the limit afterwards. -/
def add (limit : Nat) (k : κ) (a : α) : Bool × Shelf κ α :=
  if k ∈ shelf.keys then (false, shelf) else (true, (shelf.put k a).prune limit)

variable {shelf} {k : κ} {a : α} {limit : Nat} {e : κ × α}

theorem mem_keys (h : e ∈ shelf.entries) : e.1 ∈ shelf.keys := List.mem_map_of_mem h

/-- A key is there once. -/
theorem read_eq_some : shelf.read k = some a ↔ (k, a) ∈ shelf.entries := by
  constructor
  · intro h
    obtain ⟨e, hfound, rfl⟩ := Option.map_eq_some_iff.1 h
    have hkey : e.1 = k := by simpa using List.find?_some hfound
    rw [← hkey]
    exact List.mem_of_find?_eq_some hfound
  · intro h
    rcases hfound : shelf.entries.find? (·.1 = k) with _ | e
    · exact absurd (decide_eq_true rfl) (List.find?_eq_none.1 hfound (k, a) h)
    · have hkey : e.1 = k := by simpa using List.find?_some hfound
      have hsame : e = (k, a) :=
        List.inj_on_of_nodup_map shelf.sorted.nodup (List.mem_of_find?_eq_some hfound) h hkey
      rw [read, hfound, hsame, Option.map_some]

theorem read_eq_none : shelf.read k = none ↔ k ∉ shelf.keys := by
  rw [read, Option.map_eq_none_iff, List.find?_eq_none, keys, List.mem_map]
  simp only [decide_eq_true_eq, not_exists, not_and]

theorem mem_put : e ∈ (shelf.put k a).entries ↔ e = (k, a) ∨ e ∈ shelf.entries ∧ e.1 ≠ k := by
  simp only [put, List.mem_append, List.mem_cons, List.mem_filter, decide_eq_true_eq]
  constructor
  · rintro (⟨he, hlt⟩ | rfl | ⟨he, hlt⟩)
    · exact .inr ⟨he, hlt.ne⟩
    · exact .inl rfl
    · exact .inr ⟨he, hlt.ne'⟩
  · rintro (rfl | ⟨he, hne⟩)
    · exact .inr (.inl rfl)
    · rcases lt_or_gt_of_ne hne with hlt | hgt
      · exact .inl ⟨he, hlt⟩
      · exact .inr (.inr ⟨he, hgt⟩)

theorem mem_keys_put {x : κ} : x ∈ (shelf.put k a).keys ↔ x = k ∨ x ∈ shelf.keys := by
  constructor
  · intro hx
    obtain ⟨e, he, rfl⟩ := List.mem_map.1 hx
    rcases mem_put.1 he with rfl | ⟨hold, -⟩
    · exact .inl rfl
    · exact .inr (mem_keys hold)
  · intro hx
    by_cases hk : x = k
    · rw [hk]
      exact mem_keys (mem_put.2 (.inl rfl))
    · obtain ⟨e, he, rfl⟩ := List.mem_map.1 (hx.resolve_left hk)
      exact mem_keys (mem_put.2 (.inr ⟨he, hk⟩))

theorem keys_prune (limit : Nat) : (shelf.prune limit).keys = newest limit shelf.keys := by
  simp only [keys, prune, newest, List.map_drop, List.length_map]

theorem mem_of_mem_prune (h : e ∈ (shelf.prune limit).entries) : e ∈ shelf.entries :=
  mem_of_mem_newest h

theorem mem_remove : e ∈ (shelf.remove k).entries ↔ e ∈ shelf.entries ∧ e.1 ≠ k := by
  rw [remove, List.mem_filter, decide_eq_true_eq]

theorem mem_keys_remove {x : κ} : x ∈ (shelf.remove k).keys ↔ x ∈ shelf.keys ∧ x ≠ k := by
  constructor
  · intro hx
    obtain ⟨e, he, rfl⟩ := List.mem_map.1 hx
    obtain ⟨hold, hne⟩ := mem_remove.1 he
    exact ⟨mem_keys hold, hne⟩
  · rintro ⟨hx, hne⟩
    obtain ⟨e, he, rfl⟩ := List.mem_map.1 hx
    exact mem_keys (mem_remove.2 ⟨he, hne⟩)

end Shelf

end Scharnhorst.Shelves
