/-
The order in which overlays are added.

Every layer that is added is sorted in by its priority, behind those of its own. The layers of a
resolver are therefore determined by the lists of the layers of each priority, and whatever it
computes from them is.
-/
import Scharnhorst.Overlay
import Scharnhorst.Attempt
import Scharnhorst.StableSort

set_option autoImplicit false

namespace Scharnhorst

open Std StableSort

namespace OverlayResolver

/-- Layers added one after the other. -/
def add_layers (r : OverlayResolver) (layers : List OverlayLayer) : OverlayResolver :=
  layers.foldl add_layer r

/-- The entries for a path over a value, one after the other. -/
def apply_entries (build : Build) (path : String) (layers : List OverlayLayer) (current : String) :
    OverlayResult String :=
  (layers.filterMap (·.get path)).foldlM
    (fun current entry => apply_strategy build current entry.value entry.strategy) current

/-! ## Layers -/

theorem add_layers_base (r : OverlayResolver) (layers : List OverlayLayer) :
    (r.add_layers layers).base = r.base := by
  induction layers generalizing r with
  | nil => rfl
  | cons layer layers ih => exact ih (r.add_layer layer)

theorem add_layers_sorted {r : OverlayResolver} (h : InKeyOrder OverlayLayer.priority r.layers)
    (layers : List OverlayLayer) :
    InKeyOrder OverlayLayer.priority (r.add_layers layers).layers := by
  induction layers generalizing r with
  | nil => exact h
  | cons layer layers ih => exact ih (r := r.add_layer layer) (inKeyOrder_mergeSort _)

theorem add_layers_ties (r : OverlayResolver) (layers : List OverlayLayer) :
    SameTies OverlayLayer.priority (r.add_layers layers).layers (r.layers ++ layers) := by
  induction layers generalizing r with
  | nil =>
    intro p
    rw [List.append_nil]
    rfl
  | cons layer layers ih =>
    have hfirst : SameTies OverlayLayer.priority (r.add_layer layer).layers (r.layers ++ [layer]) :=
      sameTies_mergeSort _
    have hall := (ih (r.add_layer layer)).trans (hfirst.append_right layers)
    rwa [List.append_assoc] at hall

/-- On a base alone, added layers are the one arrangement of them by priority that keeps the order
among equals. -/
theorem add_layers_eq (base : Map String String) {layers sorted : List OverlayLayer}
    (hsorted : InKeyOrder OverlayLayer.priority sorted)
    (hties : SameTies OverlayLayer.priority sorted layers) :
    add_layers { base, layers := [] } layers = { base, layers := sorted } := by
  have hempty : InKeyOrder OverlayLayer.priority (OverlayResolver.mk base []).layers :=
    List.Pairwise.nil
  have hlayers : (add_layers { base, layers := [] } layers).layers = sorted :=
    eq_of_sameTies (add_layers_sorted hempty layers) hsorted
      ((add_layers_ties _ layers).trans hties.symm)
  exact congrArg₂ OverlayResolver.mk (add_layers_base _ layers) hlayers

/-! ## Values -/

theorem resolve_eq (build : Build) (r : OverlayResolver) (path : String) :
    r.resolve build path
      = r.base[path]?.elim (.error (.OverlayNotFound path)) (apply_entries build path r.layers) := by
  have hfold : ∀ (layers : List OverlayLayer) current,
      layers.foldlM (apply_layer build path) current = apply_entries build path layers current := by
    intro layers
    induction layers with
    | nil => exact fun _ => rfl
    | cons layer layers ih =>
      intro current
      rw [List.foldlM_cons]
      rcases hget : layer.get path with _ | entry
      · simp only [apply_entries, List.filterMap_cons, apply_layer, hget]
        exact ih current
      · simp only [apply_entries, List.filterMap_cons, apply_layer, hget, List.foldlM_cons]
        exact bind_congr fun next => ih next
  unfold resolve
  rcases r.base[path]? with _ | current
  · rfl
  · exact hfold r.layers current

/-! ## All paths -/

/-- A value for each of the paths, put into a map. -/
theorem foldlM_insert_ok_iff {value : String → OverlayResult String} {paths : List String}
    {start m : Map String String} :
    paths.foldlM (fun result path => do
        let v ← value path
        return result.insert path v) start = .ok m
      ↔ (∀ path ∈ paths, ∃ v, value path = .ok v ∧ m[path]? = some v)
        ∧ ∀ path, path ∉ paths → m[path]? = start[path]? := by
  induction paths generalizing start with
  | nil =>
    rw [List.foldlM_nil]
    constructor
    · intro h
      rw [Except.ok.inj h]
      exact ⟨fun _ h => absurd h List.not_mem_nil, fun _ _ => rfl⟩
    · rintro ⟨-, h⟩
      exact congrArg Except.ok (ExtTreeMap.ext_getElem? fun path => (h path List.not_mem_nil).symm)
  | cons first paths ih =>
    rw [List.foldlM_cons, List.forall_mem_cons]
    rcases hvalue : value first with e | v
    · refine iff_of_false ?_ ?_
      · intro h
        cases h
      · rintro ⟨⟨⟨v, hv, -⟩, -⟩, -⟩
        cases hv
    · have hstep : (do
          let v ← (Except.ok v : OverlayResult String)
          return start.insert first v : OverlayResult (Map String String))
          = .ok (start.insert first v) := rfl
      rw [hstep]
      refine ih.trans ?_
      have hinsert : ∀ path, (start.insert first v)[path]?
          = if first = path then some v else start[path]? := by
        intro path
        simp only [ExtTreeMap.getElem?_insert, LawfulEqCmp.compare_eq_iff_eq]
      constructor
      · rintro ⟨hin, hout⟩
        refine ⟨⟨⟨v, rfl, ?_⟩, hin⟩, fun path hpath => ?_⟩
        -- a path that comes again gets the same value again
        · by_cases hmem : first ∈ paths
          · obtain ⟨w, hw, hm⟩ := hin first hmem
            rw [hm, ← Except.ok.inj (hvalue.symm.trans hw)]
          · rw [hout first hmem, hinsert, if_pos rfl]
        · rw [List.mem_cons, not_or] at hpath
          rw [hout path hpath.2, hinsert, if_neg (Ne.symm hpath.1)]
      · rintro ⟨⟨⟨w, hw, hm⟩, hin⟩, hout⟩
        refine ⟨hin, fun path hpath => ?_⟩
        rw [hinsert]
        by_cases heq : first = path
        · rw [if_pos heq, ← heq, hm, Except.ok.inj hw]
        · rw [if_neg heq]
          refine hout path fun hmem => ?_
          rcases List.mem_cons.mp hmem with h | h
          · exact heq h.symm
          · exact hpath h

/-- The path is in the base or in some layer. -/
def Knows (r : OverlayResolver) (path : String) : Prop :=
  path ∈ r.base ∨ ∃ l ∈ r.layers, path ∈ l.entries

theorem mem_known_paths {order : KeyOrder} {r : OverlayResolver} {path : String} :
    path ∈ r.known_paths order ↔ r.Knows path := by
  have hbase := (order.base_perm r.base).mem_iff (a := path)
  have hlayers : ∀ l : OverlayLayer, path ∈ order.entry_keys l.entries ↔ path ∈ l.entries := by
    intro l
    rw [(order.entry_perm l.entries).mem_iff, ExtTreeMap.mem_keys]
  rw [known_paths, List.mem_append, hbase, ExtTreeMap.mem_keys, List.mem_flatMap]
  simp only [hlayers, Knows]

/-- All paths are resolved or none is, in whatever order the maps give them. -/
theorem apply_ok_iff {build : Build} {order : KeyOrder} {r : OverlayResolver}
    {m : Map String String} :
    r.apply build order = .ok m
      ↔ (∀ path, r.Knows path → ∃ v, r.resolve build path = .ok v ∧ m[path]? = some v)
        ∧ ∀ path, ¬r.Knows path → m[path]? = none := by
  unfold apply
  rw [foldlM_insert_ok_iff]
  simp only [mem_known_paths, ExtTreeMap.getElem?_empty]

/-! ## Priorities decide -/

/-- What a resolver gives depends on the layers of each priority alone, and a value is that of the
base with the entries in the order of their priorities, and of their insertion where these are
equal. -/
theorem overlays_by_priority {base : Map String String} {layers layers' sorted : List OverlayLayer}
    (hsame : SameTies OverlayLayer.priority layers layers')
    (hsorted : InKeyOrder OverlayLayer.priority sorted)
    (hties : SameTies OverlayLayer.priority sorted layers) :
    (∀ build path, (add_layers { base, layers := [] } layers).resolve build path
        = (add_layers { base, layers := [] } layers').resolve build path)
      ∧ (∀ build order, (add_layers { base, layers := [] } layers).apply build order
        = (add_layers { base, layers := [] } layers').apply build order)
      ∧ (∀ build order order' m, (add_layers { base, layers := [] } layers).apply build order = .ok m
        ↔ (add_layers { base, layers := [] } layers').apply build order' = .ok m)
      ∧ ∀ build path, (add_layers { base, layers := [] } layers).resolve build path
        = base[path]?.elim (.error (.OverlayNotFound path)) (apply_entries build path sorted) := by
  rw [add_layers_eq base hsorted hties, add_layers_eq base hsorted (hties.trans hsame)]
  refine ⟨fun _ _ => rfl, fun _ _ => rfl, fun build order order' m => ?_, fun build path => ?_⟩
  · rw [apply_ok_iff, apply_ok_iff]
  · exact resolve_eq build { base, layers := sorted } path

/-- Two layers added in either order. -/
theorem rome_before_greece :
    (add_layers { base := (∅ : Map String String).insert "gold" "10", layers := [] }
        [(OverlayLayer.new "greece" 2).with_entry ⟨"gold", "5", .Add⟩,
          (OverlayLayer.new "rome" 1).with_entry ⟨"gold", "7", .Max⟩]).resolve .Debug "gold"
      = (add_layers { base := (∅ : Map String String).insert "gold" "10", layers := [] }
        [(OverlayLayer.new "rome" 1).with_entry ⟨"gold", "7", .Max⟩,
          (OverlayLayer.new "greece" 2).with_entry ⟨"gold", "5", .Add⟩]).resolve .Debug "gold" := by
  have hswap : SameTies OverlayLayer.priority
      [(OverlayLayer.new "greece" 2).with_entry ⟨"gold", "5", .Add⟩,
        (OverlayLayer.new "rome" 1).with_entry ⟨"gold", "7", .Max⟩]
      [(OverlayLayer.new "rome" 1).with_entry ⟨"gold", "7", .Max⟩,
        (OverlayLayer.new "greece" 2).with_entry ⟨"gold", "5", .Add⟩] := by
    intro p
    by_cases hp : p = 1
    · subst hp
      rfl
    · simp [OverlayLayer.new, OverlayLayer.with_entry, List.filter_cons, Ne.symm hp]
  have hsorted : InKeyOrder OverlayLayer.priority
      [(OverlayLayer.new "rome" 1).with_entry ⟨"gold", "7", .Max⟩,
        (OverlayLayer.new "greece" 2).with_entry ⟨"gold", "5", .Add⟩] := by
    simp [InKeyOrder, OverlayLayer.new, OverlayLayer.with_entry]
  exact (overlays_by_priority hswap hsorted hswap.symm).1 .Debug "gold"

end OverlayResolver

end Scharnhorst
