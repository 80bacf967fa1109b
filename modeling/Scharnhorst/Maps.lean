/-
Finite maps as the store uses them: a few equalities between maps that differ by
overwriting, and the largest key whose value satisfies a test.

The last is the one with content. Walking a map in key order, filtering and taking
the last key is a computation; what is needed of it is that it returns the greatest
such key, and that it fails only when there is none. Nothing here names the
repository.
-/
import Mathlib.Data.List.Pairwise
import Mathlib.Tactic.Common
import Std.Data.ExtTreeMap

set_option autoImplicit false

namespace Scharnhorst.Maps

open Std

variable {κ ν : Type} [Ord κ] [TransOrd κ] [LawfulEqOrd κ]

/-! ## Overwriting -/

theorem insert_self {m : ExtTreeMap κ ν compare} {k : κ} {v : ν} (h : m[k]? = some v) :
    m.insert k v = m := by
  refine ExtTreeMap.ext_getElem? fun k' => ?_
  rw [ExtTreeMap.getElem?_insert]
  split
  · rename_i hk
    rw [← LawfulEqOrd.eq_of_compare hk, h]
  · rfl

theorem insert_insert (m : ExtTreeMap κ ν compare) (k : κ) (v w : ν) :
    (m.insert k v).insert k w = m.insert k w := by
  refine ExtTreeMap.ext_getElem? fun k' => ?_
  simp only [ExtTreeMap.getElem?_insert]
  split <;> rfl

theorem mem_insert_iff {m : ExtTreeMap κ ν compare} {k k' : κ} {v : ν} :
    k' ∈ m.insert k v ↔ k' = k ∨ k' ∈ m := by
  rw [ExtTreeMap.mem_insert, LawfulEqCmp.compare_eq_iff_eq, eq_comm]

theorem mem_erase_iff {m : ExtTreeMap κ ν compare} {k k' : κ} :
    k' ∈ m.erase k ↔ k' ≠ k ∧ k' ∈ m := by
  rw [ExtTreeMap.mem_erase, Ne, LawfulEqCmp.compare_eq_iff_eq, eq_comm]

theorem toList_insert_empty (k : κ) (v : ν) :
    ((∅ : ExtTreeMap κ ν compare).insert k v).toList = [(k, v)] := by
  have hmem : ∀ e, e ∈ ((∅ : ExtTreeMap κ ν compare).insert k v).toList ↔ e = (k, v) := by
    rintro ⟨k', v'⟩
    rw [ExtTreeMap.mem_toList_iff_getElem?_eq_some, ExtTreeMap.getElem?_insert]
    split
    · rename_i hk
      obtain rfl := LawfulEqOrd.eq_of_compare hk
      simp [eq_comm]
    · rename_i hk
      simp only [ExtTreeMap.getElem?_empty, reduceCtorEq, Prod.mk.injEq, false_iff, not_and]
      rintro rfl
      exact absurd ReflOrd.compare_self hk
  have hlen : ((∅ : ExtTreeMap κ ν compare).insert k v).toList.length = 1 := by
    simp [ExtTreeMap.size_insert]
  obtain ⟨e, he⟩ := List.length_eq_one_iff.1 hlen
  rw [he, (hmem e).1 (by simp [he])]

/-! ## Walking a map

A walk whose round for the key `k` touches what is observed at `k` and nothing else
does, at each key of the map, what that one round does. -/

omit [Ord κ] [TransOrd κ] [LawfulEqOrd κ] in
theorem foldl_obs {σ α ω : Type} [DecidableEq κ] {step : σ → α → σ} {key : α → κ}
    {obs : σ → κ → ω} {g : α → ω → ω}
    (hstep : ∀ s a k, obs (step s a) k = if key a = k then g a (obs s k) else obs s k)
    {as : List α} (hnodup : (as.map key).Nodup) (s : σ) :
    (∀ a ∈ as, obs (as.foldl step s) (key a) = g a (obs s (key a)))
      ∧ ∀ k, k ∉ as.map key → obs (as.foldl step s) k = obs s k := by
  induction as generalizing s with
  | nil => simp
  | cons a as ih =>
      obtain ⟨hnew, hnodup'⟩ := List.nodup_cons.1 hnodup
      obtain ⟨hin, hout⟩ := ih hnodup' (step s a)
      constructor
      · intro b hb
        rw [List.foldl_cons]
        rcases List.mem_cons.1 hb with rfl | hb
        · rw [hout _ hnew, hstep, if_pos rfl]
        · have hne : key a ≠ key b := fun h => hnew (h ▸ List.mem_map_of_mem hb)
          rw [hin b hb, hstep, if_neg hne]
      · intro k hk
        have hne : key a ≠ k := fun h => hk (by simp [h])
        have hk' : k ∉ as.map key := fun h => hk (by simp [h])
        rw [List.foldl_cons, hout k hk', hstep, if_neg hne]

theorem nodup_keys (m : ExtTreeMap κ ν compare) : (m.toList.map Prod.fst).Nodup := by
  refine List.pairwise_map.2 (ExtTreeMap.ordered_keys_toList.imp fun {a b} hlt => ?_)
  intro heq
  rw [heq, ReflOrd.compare_self] at hlt
  cases hlt

theorem foldl_toList {σ ω : Type} [DecidableEq κ] (step : σ → κ × ν → σ) (obs : σ → κ → ω)
    (g : ν → ω → ω)
    (hstep : ∀ s e k, obs (step s e) k = if e.1 = k then g e.2 (obs s k) else obs s k)
    (m : ExtTreeMap κ ν compare) (s : σ) (k : κ) :
    obs (m.toList.foldl step s) k = m[k]?.elim (obs s k) fun v => g v (obs s k) := by
  obtain ⟨hin, hout⟩ := foldl_obs (g := fun e => g e.2) hstep (nodup_keys m) s
  rcases hk : m[k]? with _ | v
  · refine hout k fun hmem => ?_
    obtain ⟨e, he, rfl⟩ := List.mem_map.1 hmem
    rw [ExtTreeMap.mem_toList_iff_getElem?_eq_some.1 he] at hk
    cases hk
  · exact hin (k, v) (ExtTreeMap.mem_toList_iff_getElem?_eq_some.2 hk)

/-- A map is what inserting its entries makes, in whatever order they come. -/
theorem foldl_insert [DecidableEq κ] {m : ExtTreeMap κ ν compare} {entries : List (κ × ν)}
    (h : entries.Perm m.toList) : entries.foldl (fun m e => m.insert e.1 e.2) ∅ = m := by
  have hnodup : (entries.map Prod.fst).Nodup := (h.map Prod.fst).nodup_iff.2 (nodup_keys m)
  let obs : ExtTreeMap κ ν compare → κ → Option ν := fun m k => m[k]?
  let value : κ × ν → Option ν → Option ν := fun e _ => some e.2
  have hstep : ∀ m (e : κ × ν) k, obs (m.insert e.1 e.2) k
      = if e.1 = k then value e (obs m k) else obs m k := by
    intro m e k
    simp only [obs, value, ExtTreeMap.getElem?_insert, LawfulEqCmp.compare_eq_iff_eq]
  obtain ⟨hin, hout⟩ := foldl_obs hstep hnodup ∅
  simp only [obs, value] at hin hout
  refine ExtTreeMap.ext_getElem? fun k => ?_
  by_cases hk : k ∈ entries.map Prod.fst
  · obtain ⟨e, he, rfl⟩ := List.mem_map.1 hk
    rw [hin e he, ExtTreeMap.mem_toList_iff_getElem?_eq_some.1 (h.mem_iff.1 he)]
  · rw [hout k hk, ExtTreeMap.getElem?_empty]
    rcases hm : m[k]? with _ | v
    · rfl
    · have hmem := h.mem_iff.2 (ExtTreeMap.mem_toList_iff_getElem?_eq_some.2 hm)
      exact absurd (List.mem_map.2 ⟨(k, v), hmem, rfl⟩) hk

/-! ## The last key -/

/-- The last key, in key order, whose value passes the test. -/
def lastKey (m : ExtTreeMap κ ν compare) (p : ν → Bool) : Option κ :=
  ((m.toList.filter fun e => p e.2).map Prod.fst).getLast?

theorem mem_filtered {m : ExtTreeMap κ ν compare} {p : ν → Bool} {k : κ} :
    k ∈ (m.toList.filter fun e => p e.2).map Prod.fst ↔ ∃ v, m[k]? = some v ∧ p v = true := by
  simp [ExtTreeMap.mem_toList_iff_getElem?_eq_some]

theorem lastKey_eq_none {m : ExtTreeMap κ ν compare} {p : ν → Bool} :
    lastKey m p = none ↔ ∀ (k : κ) (v : ν), m[k]? = some v → p v = false := by
  rw [lastKey, List.getLast?_eq_none_iff, List.eq_nil_iff_forall_not_mem]
  simp [ExtTreeMap.mem_toList_iff_getElem?_eq_some]

/-- What the walk returns passes the test, and no later key does. -/
theorem lastKey_spec {m : ExtTreeMap κ ν compare} {p : ν → Bool} {k : κ}
    (h : lastKey m p = some k) :
    (∃ v, m[k]? = some v ∧ p v = true)
      ∧ ∀ (k' : κ) (v' : ν), m[k']? = some v' → p v' = true → (compare k' k).isLE = true := by
  refine ⟨mem_filtered.1 (List.mem_of_getLast? h), fun k' v' hk' hp => ?_⟩
  have hsorted : ((m.toList.filter fun e => p e.2).map Prod.fst).Pairwise
      fun a b => compare a b = .lt :=
    List.pairwise_map.2 (ExtTreeMap.ordered_keys_toList.filter _)
  have hmem := mem_filtered.2 ⟨v', hk', hp⟩
  obtain ⟨front, hfront⟩ := List.getLast?_eq_some_iff.1 h
  rw [hfront] at hsorted hmem
  rcases List.mem_append.1 hmem with hin | hlast
  · have hlt := (List.pairwise_append.1 hsorted).2.2 k' hin k (by simp)
    simp [hlt]
  · obtain rfl := List.mem_singleton.1 hlast
    simp [ReflOrd.compare_self]

theorem lastKey_eq_some {m : ExtTreeMap κ ν compare} {p : ν → Bool} {k : κ} :
    lastKey m p = some k
      ↔ (∃ v, m[k]? = some v ∧ p v = true)
        ∧ ∀ (k' : κ) (v' : ν), m[k']? = some v' → p v' = true → (compare k' k).isLE = true := by
  refine ⟨lastKey_spec, ?_⟩
  rintro ⟨⟨v, hv, hp⟩, hmax⟩
  rcases hlast : lastKey m p with _ | l
  · exact absurd (lastKey_eq_none.1 hlast k v hv) (by simp [hp])
  · obtain ⟨⟨w, hw, hpw⟩, hmaxl⟩ := lastKey_spec hlast
    have hkl := hmaxl k v hv hp
    have hlk := hmax l w hw hpw
    rw [LawfulEqOrd.eq_of_compare (OrientedCmp.isLE_antisymm hlk hkl)]

end Scharnhorst.Maps
