/-
Which rows are registered after a call of `materialize`.

Each configuration in its turn adds the first of its candidates, as many as it may spawn in a call.
A configuration whose table cannot be read ends the call. Nothing is taken away, and the rows that a
configuration registered in earlier calls do not count. So the registry follows the view exactly as
long as its rows have not gone stale, and no configuration has both old rows and more candidates than
its limit leaves room for.
-/
import Scharnhorst.EntityLinks

set_option autoImplicit false

namespace Scharnhorst

open Bridge

/-! ## Candidates -/

namespace MaterializationConfig

/-- The rows that are wanted and have no entity, in the order of their ids. -/
def candidates (config : MaterializationConfig) (view : TableReadView)
    (known : Finset (String × RowId)) : List RowId :=
  view.row_ids.filter fun row_id =>
    config.wants view row_id && !decide ((config.table, row_id) ∈ known)

/-- What the configuration adds in a call. -/
def taken (config : MaterializationConfig) (view : TableReadView)
    (known : Finset (String × RowId)) : Finset (String × RowId) :=
  (((config.candidates view known).take config.max).map fun row_id =>
    (config.table, row_id)).toFinset

section Turns

variable {W : Type} {commands : Commands W} {b : Bridge W} {config : MaterializationConfig}
  {view : TableReadView} {tick : Tick} {known : Finset (String × RowId)}

theorem mem_candidates {row_id : RowId} : row_id ∈ config.candidates view known
    ↔ row_id ∈ view.row_ids ∧ config.wants view row_id = true ∧ (config.table, row_id) ∉ known := by
  rw [candidates, List.mem_filter, Bool.and_eq_true, Bool.not_eq_true', decide_eq_false_iff_not]

theorem nodup_row_ids : view.row_ids.Nodup := by
  have hkeys := Maps.nodup_keys view.position_map.entries
  rwa [Std.ExtTreeMap.map_fst_toList_eq_keys] at hkeys

theorem mem_taken {key : String × RowId} (h : key ∈ config.taken view known) :
    key.1 = config.table ∧ key.2 ∈ config.candidates view known := by
  rw [taken, List.mem_toFinset] at h
  obtain ⟨row_id, hrow, rfl⟩ := List.mem_map.mp h
  exact ⟨rfl, List.mem_of_mem_take hrow⟩

/-- No row is taken that is known. -/
theorem disjoint_taken : Disjoint known (config.taken view known) := by
  refine Finset.disjoint_left.mpr fun key hknown htaken => ?_
  obtain ⟨htable, hrow⟩ := mem_taken htaken
  refine (mem_candidates.mp hrow).2.2 ?_
  rw [← htable]
  exact hknown

theorem card_taken :
    (config.taken view known).card = min config.max (config.candidates view known).length := by
  rw [taken, List.toFinset_card_of_nodup, List.length_map, List.length_take]
  refine List.Nodup.map (fun row row' heq => (Prod.mk.inj heq).2) ?_
  exact (nodup_row_ids.filter _).sublist (List.take_sublist _ _)

/-- A candidate is left over only if the configuration has spawned its number. -/
theorem taken_full {row_id : RowId} (hrow : row_id ∈ config.candidates view known)
    (hleft : (config.table, row_id) ∉ config.taken view known) :
    config.max < (config.candidates view known).length := by
  by_contra hfew
  refine hleft ?_
  rw [taken, List.take_of_length_le (by omega), List.mem_toFinset]
  exact List.mem_map_of_mem hrow

/-- The loop over rows adds what comes first, up to what may still be spawned. -/
theorem keys_materialize_rows {rows : List RowId} (hnodup : rows.Nodup) {n : Nat}
    {spawned : List Entity} :
    (materialize_rows commands config view tick rows n b spawned).2.keys
      = b.keys ∪ (((rows.filter fun row_id => config.wants view row_id
          && !decide ((config.table, row_id) ∈ b.keys)).take (config.max - n)).map
            fun row_id => (config.table, row_id)).toFinset := by
  induction rows generalizing b n spawned with
  | nil => simp [materialize_rows]
  | cons row_id rows ih =>
    obtain ⟨hrow, hnodup⟩ := List.nodup_cons.mp hnodup
    unfold materialize_rows
    split_ifs with hfull hwanted hknown
    -- the loop ends once the limit is reached
    · rw [Nat.sub_eq_zero_of_le hfull, List.take_zero, List.map_nil, List.toFinset_nil,
        Finset.union_empty]
    · have hdrop : config.wants view row_id = false := by simpa using hwanted
      rw [ih hnodup, List.filter_cons_of_neg (by simp [hdrop])]
    · rw [lookup_isSome] at hknown
      rw [ih hnodup, List.filter_cons_of_neg (by simp [hknown])]
    · rw [lookup_isSome] at hknown
      have hkeep : config.wants view row_id = true := by simpa using hwanted
      -- its key is registered now, which changes nothing for the rows behind it
      have hrest : rows.filter (fun other => config.wants view other
            && !decide ((config.table, other) ∈ insert (config.table, row_id) b.keys))
          = rows.filter fun other => config.wants view other
            && !decide ((config.table, other) ∈ b.keys) := by
        refine List.filter_congr fun other hother => ?_
        have hne : other ≠ row_id := fun heq => hrow (heq ▸ hother)
        simp [hne]
      have hstep : config.max - n = config.max - (n + 1) + 1 := by omega
      change (materialize_rows commands config view tick rows (n + 1)
        (b.spawn commands config.table row_id tick).2 _).2.keys = _
      rw [ih hnodup, keys_spawn, hrest, List.filter_cons_of_pos (by simp [hkeep, hknown]), hstep,
        List.take_succ_cons, List.map_cons, List.toFinset_cons, Finset.insert_union,
        Finset.union_insert]

theorem keys_materialize_view {spawned : List Entity} :
    (materialize_rows commands config view tick view.row_ids 0 b spawned).2.keys
      = b.keys ∪ config.taken view b.keys :=
  keys_materialize_rows nodup_row_ids

end Turns

end MaterializationConfig

/-! ## All turns -/

namespace QueryEngine

/-- The tables of all of them can be read. -/
def Shows (q : QueryEngine) (configs : List MaterializationConfig) : Prop :=
  ∀ config ∈ configs, q.latest_view config.table ≠ none

/-- The rows that are registered when the configurations have had their turn. -/
def grown (q : QueryEngine) :
    List MaterializationConfig → Finset (String × RowId) → Finset (String × RowId)
  | [], known => known
  | config :: configs, known =>
    match q.latest_view config.table with
    | none => known
    | some view => grown q configs (known ∪ config.taken view known)

variable {W : Type} {commands : Commands W} {b : Bridge W} {q : QueryEngine}
  {config : MaterializationConfig} {configs more : List MaterializationConfig}
  {view : TableReadView} {known : Finset (String × RowId)}

theorem grown_unread (h : q.latest_view config.table = none) :
    q.grown (config :: configs) known = known := by
  simp only [grown, h]

theorem grown_read (h : q.latest_view config.table = some view) :
    q.grown (config :: configs) known = q.grown configs (known ∪ config.taken view known) := by
  simp only [grown, h]

theorem keys_materialize_configs {spawned : List Entity} :
    (materialize_configs commands q configs b spawned).2.keys = q.grown configs b.keys := by
  induction configs generalizing b spawned with
  | nil => rfl
  | cons config configs ih =>
    rcases hview : q.latest_view config.table with _ | view
    · rw [materialize_configs_unread hview, grown_unread hview]
    · obtain ⟨tick, heq⟩ := materialize_configs_read hview
      rw [heq, ih, MaterializationConfig.keys_materialize_view, grown_read hview]

theorem subset_grown : known ⊆ q.grown configs known := by
  induction configs generalizing known with
  | nil => exact Finset.Subset.refl known
  | cons config configs ih =>
    rcases hview : q.latest_view config.table with _ | view
    · rw [grown_unread hview]
    · rw [grown_read hview]
      exact Finset.subset_union_left.trans ih

theorem grown_append_shown (h : q.Shows configs) :
    q.grown (configs ++ more) known = q.grown more (q.grown configs known) := by
  induction configs generalizing known with
  | nil => rfl
  | cons config configs ih =>
    obtain ⟨view, hview⟩ := Option.ne_none_iff_exists'.mp (h config List.mem_cons_self)
    rw [List.cons_append, grown_read hview, grown_read hview]
    exact ih fun other hother => h other (List.mem_cons_of_mem config hother)

/-- After a configuration that cannot be read there are no more turns. -/
theorem grown_append_unshown (h : ¬ q.Shows configs) :
    q.grown (configs ++ more) known = q.grown configs known := by
  induction configs generalizing known with
  | nil => exact absurd (fun config hmem => absurd hmem List.not_mem_nil) h
  | cons config configs ih =>
    rw [List.cons_append]
    rcases hview : q.latest_view config.table with _ | view
    · rw [grown_unread hview, grown_unread hview]
    · rw [grown_read hview, grown_read hview]
      refine ih fun hshows => h fun other hother => ?_
      rcases List.mem_cons.mp hother with rfl | hother
      · rw [hview]
        exact Option.some_ne_none view
      · exact hshows other hother

theorem grown_take_subset (i : Nat) : q.grown (configs.take i) known ⊆ q.grown configs known := by
  have hsplit := congrArg (q.grown · known) (List.take_append_drop i configs)
  rw [← hsplit]
  by_cases hshows : q.Shows (configs.take i)
  · simp only [grown_append_shown hshows]
    exact subset_grown
  · simp only [grown_append_unshown hshows]
    exact Finset.Subset.refl _

/-- What is added is a wanted row of the view. -/
theorem mem_grown {key : String × RowId} (h : key ∈ q.grown configs known) :
    key ∈ known ∨ ∃ config ∈ configs, ∃ view, q.latest_view config.table = some view
      ∧ key.1 = config.table ∧ key.2 ∈ view.row_ids ∧ config.wants view key.2 = true := by
  induction configs generalizing known with
  | nil => exact .inl h
  | cons config configs ih =>
    rcases hview : q.latest_view config.table with _ | view
    · rw [grown_unread hview] at h
      exact .inl h
    · rw [grown_read hview] at h
      rcases ih h with hbefore | ⟨other, hother, hlater⟩
      · rcases Finset.mem_union.mp hbefore with hknown | htaken
        · exact .inl hknown
        · obtain ⟨htable, hrow⟩ := MaterializationConfig.mem_taken htaken
          obtain ⟨hlive, hwanted, -⟩ := MaterializationConfig.mem_candidates.mp hrow
          exact .inr ⟨config, List.mem_cons_self, view, hview, htable, hlive, hwanted⟩
      · exact .inr ⟨other, List.mem_cons_of_mem config hother, hlater⟩

end QueryEngine

end Scharnhorst
