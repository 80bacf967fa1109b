/-
The two layers of a key index, over whole runs of calls.

The hot layer keeps one location a key, chosen again at each `insert`; the cold layer,
if there is one, keeps them all. What they have to agree on is stated against a third
thing that neither computes: the entries of the key inserted since it was last
removed. The cold layer is that list, and the hot layer is its latest entry, the last
inserted of those of the greatest tick, whatever order the ticks came in.
-/
import Mathlib.Data.List.Induction
import Scharnhorst.Index

set_option autoImplicit false

namespace Scharnhorst

/-! ## Calls and what they leave of a key -/

inductive KeyCall where
  | insert (key : String) (tick : Tick) (batch_idx row_idx : Nat)
  | remove_key (key : String)
deriving DecidableEq

namespace KeyCall

def apply (index : PrimaryKeyIndex) : KeyCall → PrimaryKeyIndex
  | .insert key tick batch_idx row_idx => index.insert key tick batch_idx row_idx
  | .remove_key key => (index.remove_key key).2

/-- A fresh index after a list of calls. -/
def run (enabled : Bool) (calls : List KeyCall) : PrimaryKeyIndex :=
  calls.foldl apply (PrimaryKeyIndex.with_history enabled)

/-- What a call makes of the entries of one key. -/
def record (k : String) (entries : List (Tick × Nat × Nat)) : KeyCall → List (Tick × Nat × Nat)
  | .insert key tick batch_idx row_idx =>
      if key = k then entries ++ [(tick, batch_idx, row_idx)] else entries
  | .remove_key key => if key = k then [] else entries

/-- The entries of a key inserted since it was last removed, oldest first. -/
def entries (k : String) (calls : List KeyCall) : List (Tick × Nat × Nat) :=
  calls.foldl (record k) []

theorem entries_concat (k : String) (calls : List KeyCall) (call : KeyCall) :
    entries k (calls ++ [call]) = record k (entries k calls) call := by
  rw [entries, List.foldl_append, List.foldl_cons, List.foldl_nil, ← entries]

theorem run_concat (enabled : Bool) (calls : List KeyCall) (call : KeyCall) :
    run enabled (calls ++ [call]) = apply (run enabled calls) call := by
  rw [run, List.foldl_append, List.foldl_cons, List.foldl_nil, ← run]

end KeyCall

/-! ## The latest of a list of entries -/

/-- `e` is the last of the entries of the greatest tick. -/
def LatestOf (entries : List (Tick × Nat × Nat)) (e : Tick × Nat × Nat) : Prop :=
  ∃ older newer, entries = older ++ e :: newer
    ∧ (∀ o ∈ older, o.1 ≤ e.1) ∧ ∀ n ∈ newer, n.1 < e.1

theorem LatestOf.ne_nil {entries : List (Tick × Nat × Nat)} {e : Tick × Nat × Nat}
    (h : LatestOf entries e) : entries ≠ [] := by
  obtain ⟨older, newer, rfl, -, -⟩ := h
  exact List.append_ne_nil_of_right_ne_nil _ (List.cons_ne_nil _ _)

theorem LatestOf.singleton (e : Tick × Nat × Nat) : LatestOf [e] e :=
  ⟨[], [], rfl, by simp, by simp⟩

theorem LatestOf.le {entries : List (Tick × Nat × Nat)} {e : Tick × Nat × Nat}
    (h : LatestOf entries e) : ∀ o ∈ entries, o.1 ≤ e.1 := by
  obtain ⟨older, newer, rfl, holder, hnewer⟩ := h
  intro o ho
  rcases List.mem_append.1 ho with ho | ho
  · exact holder o ho
  · rcases List.mem_cons.1 ho with rfl | ho
    · exact le_refl _
    · exact le_of_lt (hnewer o ho)

/-- An entry that is not older than the latest becomes the latest. -/
theorem LatestOf.concat_new {entries : List (Tick × Nat × Nat)} {e new : Tick × Nat × Nat}
    (h : LatestOf entries e) (hnew : e.1 ≤ new.1) : LatestOf (entries ++ [new]) new := by
  refine ⟨entries, [], rfl, ?_, by simp⟩
  intro o ho
  exact le_trans (h.le o ho) hnew

/-- An entry that is older does not, whenever it comes. -/
theorem LatestOf.concat_old {entries : List (Tick × Nat × Nat)} {e old : Tick × Nat × Nat}
    (h : LatestOf entries e) (hold : old.1 < e.1) : LatestOf (entries ++ [old]) e := by
  obtain ⟨older, newer, rfl, holder, hnewer⟩ := h
  refine ⟨older, newer ++ [old], by simp, holder, ?_⟩
  intro n hn
  rcases List.mem_append.1 hn with hn | hn
  · exact hnewer n hn
  · rw [List.mem_singleton.1 hn]
    exact hold

/-! ## One call -/

/-- The hot layer has the latest of the entries of each key, the cold layer, where there
is one, has them all, and neither has a key of no entries. -/
structure Layered (recorded : String → List (Tick × Nat × Nat)) (index : PrimaryKeyIndex) :
    Prop where
  latest : ∀ k, match index.lookup_latest k with
    | some e => LatestOf (recorded k) e
    | none => recorded k = []
  cold : ∀ hist, index.historical_entries = some hist →
    ∀ k, hist[k]? = if recorded k = [] then none else some (recorded k)

/-- What an `insert` makes of the hot entry of its key. -/
def hot_entry (new : Tick × Nat × Nat) : Option (Tick × Nat × Nat) → Tick × Nat × Nat
  | some e => if e.1 ≤ new.1 then new else e
  | none => new

theorem lookup_latest_insert (index : PrimaryKeyIndex) (key k : String) (tick : Tick)
    (batch_idx row_idx : Nat) :
    (index.insert key tick batch_idx row_idx).lookup_latest k
      = if key = k then some (hot_entry (tick, batch_idx, row_idx) (index.lookup_latest k))
        else index.lookup_latest k := by
  unfold PrimaryKeyIndex.insert PrimaryKeyIndex.lookup_latest
  by_cases hk : key = k
  · subst hk
    rcases he : index.latest_entries[key]? with _ | ⟨t, p⟩
    · simp [hot_entry]
    · by_cases ht : t ≤ tick <;> simp [hot_entry, he, ht]
  · rcases he : index.latest_entries[key]? with _ | ⟨t, p⟩
    · simp [hk, Std.ExtTreeMap.getElem?_insert]
    · by_cases ht : t ≤ tick <;> simp [hk, ht, Std.ExtTreeMap.getElem?_insert]

theorem lookup_latest_remove_key (index : PrimaryKeyIndex) (key k : String) :
    (index.remove_key key).2.lookup_latest k
      = if key = k then none else index.lookup_latest k := by
  unfold PrimaryKeyIndex.remove_key PrimaryKeyIndex.lookup_latest
  rw [Std.ExtTreeMap.getElem?_erase]
  simp only [Std.LawfulEqCmp.compare_eq_iff_eq]

theorem LatestOf.hot_entry {entries : List (Tick × Nat × Nat)} {o : Option (Tick × Nat × Nat)}
    (h : match o with
      | some e => LatestOf entries e
      | none => entries = [])
    (new : Tick × Nat × Nat) : LatestOf (entries ++ [new]) (hot_entry new o) := by
  rcases o with _ | e
  · rw [show entries = [] from h]
    exact LatestOf.singleton new
  · by_cases hle : e.1 ≤ new.1
    · rw [Scharnhorst.hot_entry, if_pos hle]
      exact h.concat_new hle
    · rw [Scharnhorst.hot_entry, if_neg hle]
      exact h.concat_old (not_le.1 hle)

theorem Layered.insert {recorded : String → List (Tick × Nat × Nat)} {index : PrimaryKeyIndex}
    (h : Layered recorded index) (key : String) (tick : Tick) (batch_idx row_idx : Nat) :
    Layered (fun k => KeyCall.record k (recorded k) (.insert key tick batch_idx row_idx))
      (index.insert key tick batch_idx row_idx) := by
  refine ⟨?_, ?_⟩
  · intro k
    rw [lookup_latest_insert]
    by_cases hk : key = k
    · simp only [KeyCall.record, if_pos hk]
      exact LatestOf.hot_entry (h.latest k) _
    · simp only [KeyCall.record, if_neg hk]
      exact h.latest k
  · intro hist' hhist' k
    obtain ⟨hist, hhist, rfl⟩ := Option.map_eq_some_iff.1 hhist'
    have hcold := h.cold hist hhist
    by_cases hk : key = k
    · subst hk
      -- a key without entries is not in the cold layer, and its history begins empty
      have hgetD : hist.getD key [] = recorded key := by
        rw [Std.ExtTreeMap.getD_eq_getD_getElem?, hcold key]
        by_cases hnil : recorded key = [] <;> simp [hnil]
      simp [KeyCall.record, hgetD]
    · simp only [KeyCall.record, if_neg hk, Std.ExtTreeMap.getElem?_insert,
        Std.LawfulEqCmp.compare_eq_iff_eq]
      exact hcold k

theorem Layered.remove_key {recorded : String → List (Tick × Nat × Nat)}
    {index : PrimaryKeyIndex} (h : Layered recorded index) (key : String) :
    Layered (fun k => KeyCall.record k (recorded k) (.remove_key key))
      (index.remove_key key).2 := by
  refine ⟨?_, ?_⟩
  · intro k
    rw [lookup_latest_remove_key]
    by_cases hk : key = k
    · simp only [KeyCall.record, if_pos hk]
    · simp only [KeyCall.record, if_neg hk]
      exact h.latest k
  · intro hist' hhist' k
    obtain ⟨hist, hhist, rfl⟩ := Option.map_eq_some_iff.1 hhist'
    rw [Std.ExtTreeMap.getElem?_erase]
    simp only [Std.LawfulEqCmp.compare_eq_iff_eq, KeyCall.record]
    by_cases hk : key = k
    · simp only [if_pos hk, if_true]
    · simp only [if_neg hk]
      exact h.cold hist hhist k

theorem Layered.apply {recorded : String → List (Tick × Nat × Nat)} {index : PrimaryKeyIndex}
    (h : Layered recorded index) (call : KeyCall) :
    Layered (fun k => KeyCall.record k (recorded k) call) (call.apply index) := by
  cases call with
  | insert key tick batch_idx row_idx => exact h.insert key tick batch_idx row_idx
  | remove_key key => exact h.remove_key key

/-! ## Runs -/

theorem Layered.fresh (enabled : Bool) :
    Layered (fun _ => []) (PrimaryKeyIndex.with_history enabled) := by
  refine ⟨?_, ?_⟩
  · intro k
    rw [PrimaryKeyIndex.lookup_latest, PrimaryKeyIndex.with_history,
      Std.ExtTreeMap.getElem?_empty]
  · intro hist hhist k
    cases enabled
    · cases hhist
    · rw [← Option.some.inj hhist, Std.ExtTreeMap.getElem?_empty]
      rfl

theorem Layered.run (enabled : Bool) (calls : List KeyCall) :
    Layered (fun k => KeyCall.entries k calls) (KeyCall.run enabled calls) := by
  induction calls using List.reverseRecOn with
  | nil => exact Layered.fresh enabled
  | append_singleton calls call ih =>
      rw [KeyCall.run_concat]
      simp only [KeyCall.entries_concat]
      exact ih.apply call

theorem history_enabled_run (enabled : Bool) (calls : List KeyCall) :
    (KeyCall.run enabled calls).history_enabled = enabled := by
  induction calls using List.reverseRecOn with
  | nil => cases enabled <;> rfl
  | append_singleton calls call ih =>
      have hcall : ∀ index, (call.apply index).history_enabled = index.history_enabled := by
        intro index
        cases call <;>
          simp [KeyCall.apply, PrimaryKeyIndex.insert, PrimaryKeyIndex.remove_key,
            PrimaryKeyIndex.history_enabled]
      rw [KeyCall.run_concat, hcall, ih]

/-- The hot layer does not see whether there is a cold one. -/
theorem latest_entries_run (enabled : Bool) (calls : List KeyCall) :
    (KeyCall.run enabled calls).latest_entries = (KeyCall.run true calls).latest_entries := by
  induction calls using List.reverseRecOn with
  | nil => rfl
  | append_singleton calls call ih =>
      -- neither call reads the cold layer to write the hot one
      rw [KeyCall.run_concat, KeyCall.run_concat]
      cases call with
      | insert key tick batch_idx row_idx =>
          simp only [KeyCall.apply, PrimaryKeyIndex.insert]
          rw [ih]
      | remove_key key =>
          simp only [KeyCall.apply, PrimaryKeyIndex.remove_key]
          rw [ih]

/-- After every run of `insert` and `remove_key`: what the hot layer answers does not
depend on the history being kept, the layers have the same keys, the cold layer has the
entries of a key since it was last removed, and `lookup_latest` is the last inserted of
those of the greatest tick. -/
theorem layers_agree (calls : List KeyCall) :
    let index := KeyCall.run true calls
    let bare := KeyCall.run false calls
    ((∀ k, index.lookup_latest k = bare.lookup_latest k) ∧ index.keys = bare.keys
        ∧ index.len = bare.len ∧ index.is_empty = bare.is_empty)
      ∧ (∃ hist, index.historical_entries = some hist ∧ ∀ k, k ∈ index.keys ↔ k ∈ hist.keys)
      ∧ (∀ k, index.lookup k
          = if KeyCall.entries k calls = [] then none else some (KeyCall.entries k calls))
      ∧ ∀ k, match index.lookup k with
        | some entries => ∃ e, index.lookup_latest k = some e ∧ LatestOf entries e
        | none => index.lookup_latest k = none := by
  intro index bare
  have hlayered : Layered (fun k => KeyCall.entries k calls) index := Layered.run true calls
  have hhot : bare.latest_entries = index.latest_entries := latest_entries_run false calls
  obtain ⟨hist, hhist⟩ : ∃ hist, index.historical_entries = some hist :=
    Option.isSome_iff_exists.1 (history_enabled_run true calls)
  have hcold := hlayered.cold hist hhist
  have hlookup : ∀ k, index.lookup k
      = if KeyCall.entries k calls = [] then none else some (KeyCall.entries k calls) := by
    intro k
    rw [PrimaryKeyIndex.lookup, hhist]
    exact hcold k
  refine ⟨⟨?_, ?_, ?_, ?_⟩, ⟨hist, hhist, ?_⟩, hlookup, ?_⟩
  · intro k
    rw [PrimaryKeyIndex.lookup_latest, PrimaryKeyIndex.lookup_latest, hhot]
  · rw [PrimaryKeyIndex.keys, PrimaryKeyIndex.keys, hhot]
  · rw [PrimaryKeyIndex.len, PrimaryKeyIndex.len, hhot]
  · rw [PrimaryKeyIndex.is_empty, PrimaryKeyIndex.is_empty, hhot]
  · -- a key is in either layer if it has entries
    intro k
    have hk := hlayered.latest k
    rw [PrimaryKeyIndex.keys, Std.ExtTreeMap.mem_keys, Std.ExtTreeMap.mem_keys,
      Std.ExtTreeMap.mem_iff_isSome_getElem?, Std.ExtTreeMap.mem_iff_isSome_getElem?, hcold k]
    rw [PrimaryKeyIndex.lookup_latest] at hk
    rcases he : index.latest_entries[k]? with _ | e
    · rw [he] at hk
      simp [show KeyCall.entries k calls = [] from hk]
    · rw [he] at hk
      simp [show KeyCall.entries k calls ≠ [] from LatestOf.ne_nil hk]
  · intro k
    have hk := hlayered.latest k
    rw [hlookup k]
    rcases he : index.lookup_latest k with _ | e
    · rw [he] at hk
      rw [if_pos (show KeyCall.entries k calls = [] from hk)]
    · rw [he] at hk
      rw [if_neg (show KeyCall.entries k calls ≠ [] from LatestOf.ne_nil hk)]
      exact ⟨e, rfl, hk⟩

end Scharnhorst
