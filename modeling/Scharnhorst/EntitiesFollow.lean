/-
Whether the registry follows the data.

A run publishes views, registers configurations, and fills and empties the registry in any order. The
run keeps books of the rows that each configuration has registered, since the registry itself does
not say which one it was.
-/
import Scharnhorst.EntityRows

set_option autoImplicit false

namespace Scharnhorst

open Bridge

/-- What the query engine shows. The ids of a view's rows are in a `Vec`. -/
structure ShownViews where
  engine : QueryEngine
  sized : ∀ table view, engine.latest_view table = some view → view.row_ids.length ≤ u64_MAX

inductive MaterializationOp where
  | Publish (shown : ShownViews)
  | RegisterConfig (config : MaterializationConfig)
  | Materialize
  | Dematerialize (entity : Entity)
  | DematerializeAll

/-- The query engine and the bridge, and the rows that each configuration has registered. -/
structure MaterializationRun (W : Type) where
  shown : ShownViews
  bridge : Bridge W
  owned : Nat → Finset (String × RowId)

namespace MaterializationRun

variable {W : Type} (commands : Commands W)

def start (shown : ShownViews) : MaterializationRun W :=
  { shown, bridge := { registry := .new, world := commands.empty }, owned := fun _ => ∅ }

/-- The rows that are registered once the first configurations have had their turn. -/
def turn (s : MaterializationRun W) (i : Nat) : Finset (String × RowId) :=
  (materialize_configs commands s.shown.engine (s.bridge.registry.configs.take i) s.bridge []).2.keys

/-- What appears in its turn is the configuration's. -/
def materialize (s : MaterializationRun W) : MaterializationRun W :=
  { s with
    bridge := (s.bridge.materialize commands s.shown.engine).2
    owned := fun i => s.owned i ∪ (s.turn commands (i + 1) \ s.turn commands i) }

/-- Rows that are no longer registered are nobody's. -/
def shrink (s : MaterializationRun W) (bridge : Bridge W) : MaterializationRun W :=
  { s with bridge, owned := fun i => s.owned i ∩ bridge.keys }

def step (s : MaterializationRun W) : MaterializationOp → MaterializationRun W
  | .Publish shown => { s with shown }
  | .RegisterConfig config =>
    { s with bridge := { s.bridge with registry := s.bridge.registry.register_config config } }
  | .Materialize => s.materialize commands
  | .Dematerialize entity => s.shrink (s.bridge.dematerialize commands entity).2
  | .DematerializeAll => s.shrink (s.bridge.dematerialize_all commands)

def run (shown : ShownViews) (ops : List MaterializationOp) : MaterializationRun W :=
  ops.foldl (step commands) (start commands shown)

def configs (s : MaterializationRun W) : List MaterializationConfig := s.bridge.registry.configs

/-- The row is in the view, and a configuration of its table wants it. -/
def Wanted (s : MaterializationRun W) (key : String × RowId) : Prop :=
  ∃ config ∈ s.configs, ∃ view, s.shown.engine.latest_view config.table = some view
    ∧ key.1 = config.table ∧ key.2 ∈ view.row_ids ∧ config.wants view key.2 = true

/-- Every registered row of a configured table is one that is wanted now. -/
def Fresh (s : MaterializationRun W) : Prop :=
  ∀ key ∈ s.bridge.keys, (∃ config ∈ s.configs, config.table = key.1) → s.Wanted key

/-- The registry is what the configurations ask for. -/
structure Follows (s : MaterializationRun W) : Prop where
  one : ∀ key ∈ s.bridge.keys,
    ∃! e, ∃ view, commands.view_of s.bridge.world e = some view ∧ view.key = key
  live : s.Fresh
  complete : ∀ (i : Nat) config view row_id, s.configs[i]? = some config →
    s.shown.engine.latest_view config.table = some view → row_id ∈ view.row_ids →
    config.wants view row_id = true → (config.table, row_id) ∈ s.bridge.keys
      ∨ ∃ max, config.max_entities = some max ∧ max ≤ (s.owned i).card
  limited : ∀ (i : Nat) config max, s.configs[i]? = some config →
    config.max_entities = some max → (s.owned i).card ≤ max

/-- What a call needs to find: no registered row is gone or no longer wanted, and each configuration
has either no rows of its own or room for all its candidates. If a table cannot be read, the
configurations that come later have nothing to do. -/
structure Ready (s : MaterializationRun W) : Prop where
  fresh : s.Fresh
  room : ∀ (i : Nat) config view max, s.configs[i]? = some config →
    s.shown.engine.latest_view config.table = some view → config.max_entities = some max →
    s.shown.engine.Shows (s.configs.take i) → s.owned i = ∅ ∨ (s.owned i).card
      + (config.candidates view (s.shown.engine.grown (s.configs.take i) s.bridge.keys)).length ≤ max
  idle : ∀ (i : Nat) config view, s.configs[i]? = some config →
    s.shown.engine.latest_view config.table = some view →
    ¬ s.shown.engine.Shows (s.configs.take i) →
    (∀ max, config.max_entities = some max → (s.owned i).card ≤ max)
      ∧ (config.candidates view (s.shown.engine.grown s.configs s.bridge.keys) = []
        ∨ ∃ max, config.max_entities = some max ∧ max ≤ (s.owned i).card)

/-- The books are right: what a configuration owns is registered, and of its table. -/
structure Booked (s : MaterializationRun W) : Prop where
  linked : Linked commands s.bridge
  registered : ∀ i, s.owned i ⊆ s.bridge.keys
  tabled : ∀ i, ∀ key ∈ s.owned i, ∃ config, s.configs[i]? = some config ∧ key.1 = config.table

variable {commands} {s : MaterializationRun W} {config : MaterializationConfig}
  {view : TableReadView} {i : Nat}

/-! ## One call -/

theorem turn_eq (i : Nat) :
    s.turn commands i = s.shown.engine.grown (s.configs.take i) s.bridge.keys :=
  QueryEngine.keys_materialize_configs

theorem keys_materialize : (s.materialize commands).bridge.keys
    = s.shown.engine.grown s.configs s.bridge.keys :=
  QueryEngine.keys_materialize_configs

theorem configs_materialize : (s.materialize commands).configs = s.configs :=
  configs_materialize_configs

theorem take_succ (hconfig : s.configs[i]? = some config) :
    s.configs.take (i + 1) = s.configs.take i ++ [config] := by
  rw [List.take_add_one, hconfig, Option.toList_some]

/-- A configuration that has its turn takes what it may of its candidates. -/
theorem owned_materialize (hconfig : s.configs[i]? = some config)
    (hview : s.shown.engine.latest_view config.table = some view)
    (hshows : s.shown.engine.Shows (s.configs.take i)) :
    (s.materialize commands).owned i = s.owned i
      ∪ config.taken view (s.shown.engine.grown (s.configs.take i) s.bridge.keys) := by
  have hturn : s.turn commands (i + 1) = s.turn commands i
      ∪ config.taken view (s.shown.engine.grown (s.configs.take i) s.bridge.keys) := by
    rw [turn_eq, turn_eq, take_succ hconfig, QueryEngine.grown_append_shown hshows,
      QueryEngine.grown_read hview]
    rfl
  have hdisjoint : Disjoint (s.turn commands i)
      (config.taken view (s.shown.engine.grown (s.configs.take i) s.bridge.keys)) := by
    rw [turn_eq]
    exact MaterializationConfig.disjoint_taken
  change s.owned i ∪ (s.turn commands (i + 1) \ s.turn commands i) = _
  rw [hturn, Finset.union_sdiff_cancel_left hdisjoint]

/-- One that has none, or no view, keeps what it has. -/
theorem owned_materialize_idle (hconfig : s.configs[i]? = some config)
    (hidle : s.shown.engine.latest_view config.table = none
      ∨ ¬ s.shown.engine.Shows (s.configs.take i)) :
    (s.materialize commands).owned i = s.owned i := by
  have hturn : s.turn commands (i + 1) = s.turn commands i := by
    rw [turn_eq, turn_eq, take_succ hconfig]
    by_cases hshows : s.shown.engine.Shows (s.configs.take i)
    · rw [QueryEngine.grown_append_shown hshows,
        QueryEngine.grown_unread (hidle.resolve_right fun hnot => hnot hshows)]
    · rw [QueryEngine.grown_append_unshown hshows]
  change s.owned i ∪ (s.turn commands (i + 1) \ s.turn commands i) = _
  rw [hturn, Finset.sdiff_self, Finset.union_empty]

theorem Booked.card_owned (h : s.Booked commands) (hconfig : s.configs[i]? = some config)
    (hview : s.shown.engine.latest_view config.table = some view)
    (hshows : s.shown.engine.Shows (s.configs.take i)) :
    ((s.materialize commands).owned i).card = (s.owned i).card + min config.max
      (config.candidates view (s.shown.engine.grown (s.configs.take i) s.bridge.keys)).length := by
  rw [owned_materialize hconfig hview hshows, Finset.card_union_of_disjoint,
    MaterializationConfig.card_taken]
  have hsub : s.owned i ⊆ s.shown.engine.grown (s.configs.take i) s.bridge.keys :=
    (h.registered i).trans QueryEngine.subset_grown
  exact Finset.disjoint_of_subset_left hsub MaterializationConfig.disjoint_taken

/-- The rows of a table that is not in the view would be stale ones. -/
theorem Booked.owned_unread (h : s.Booked commands) (hfresh : s.Fresh)
    (hconfig : s.configs[i]? = some config)
    (hview : s.shown.engine.latest_view config.table = none) : s.owned i = ∅ := by
  refine Finset.eq_empty_of_forall_notMem fun key hkey => ?_
  obtain ⟨config', hconfig', htable⟩ := h.tabled i key hkey
  obtain rfl : config = config' := Option.some.inj (hconfig.symm.trans hconfig')
  obtain ⟨other, -, view, hother, heq, -⟩ := hfresh key (h.registered i hkey)
    ⟨config, List.mem_of_getElem? hconfig, htable.symm⟩
  rw [← heq, htable, hview] at hother
  cases hother

theorem wanted_materialize {key : String × RowId} :
    (s.materialize commands).Wanted key ↔ s.Wanted key := by
  unfold Wanted
  rw [configs_materialize]
  exact Iff.rfl

theorem Booked.ready (h : s.Booked commands) (hfollows : (s.materialize commands).Follows commands) :
    s.Ready := by
  have hconfigs : (s.materialize commands).configs = s.configs := configs_materialize
  refine ⟨fun key hkey hconfig => ?_, fun i config view max hconfig hview hmax hshows => ?_,
    fun i config view hconfig hview hshows => ⟨fun max hmax => ?_, ?_⟩⟩
  · rw [← @wanted_materialize W commands]
    refine hfollows.live key ?_ (by rwa [hconfigs])
    rw [keys_materialize]
    exact QueryEngine.subset_grown hkey
  -- with rows of its own it has taken all candidates within the limit
  · have hlimit := hfollows.limited i config max (by rwa [hconfigs]) hmax
    rw [h.card_owned hconfig hview hshows, MaterializationConfig.max, hmax, Option.getD_some]
      at hlimit
    rcases Finset.eq_empty_or_nonempty (s.owned i) with hnone | hsome
    · exact .inl hnone
    · have hpos := Finset.card_pos.mpr hsome
      exact .inr (by omega)
  · rw [← owned_materialize_idle hconfig (.inr hshows)]
    exact hfollows.limited i config max (by rwa [hconfigs]) hmax
  · rcases hcandidates : config.candidates view (s.shown.engine.grown s.configs s.bridge.keys)
      with _ | ⟨row_id, rest⟩
    · exact .inl rfl
    · have hrow : row_id ∈ config.candidates view
          (s.shown.engine.grown s.configs s.bridge.keys) := by
        rw [hcandidates]
        exact List.mem_cons_self
      obtain ⟨hlive, hwants, hnew⟩ := MaterializationConfig.mem_candidates.mp hrow
      have hcomplete :=
        hfollows.complete i config view row_id (by rwa [hconfigs]) hview hlive hwants
      rw [keys_materialize, owned_materialize_idle hconfig (.inr hshows)] at hcomplete
      exact .inr (hcomplete.resolve_left hnew)

/-- A candidate that was left over: the configuration spawned as many as it may. -/
theorem Booked.full_of_left (h : s.Booked commands) {row_id : RowId}
    (hconfig : s.configs[i]? = some config)
    (hview : s.shown.engine.latest_view config.table = some view)
    (hshows : s.shown.engine.Shows (s.configs.take i)) (hlive : row_id ∈ view.row_ids)
    (hwants : config.wants view row_id = true)
    (hrow : (config.table, row_id) ∉ s.shown.engine.grown s.configs s.bridge.keys) :
    ∃ max, config.max_entities = some max ∧ max ≤ ((s.materialize commands).owned i).card := by
  have hsub := @QueryEngine.grown_take_subset s.shown.engine s.configs s.bridge.keys
  have hcandidate : row_id ∈ config.candidates view
      (s.shown.engine.grown (s.configs.take i) s.bridge.keys) :=
    MaterializationConfig.mem_candidates.mpr ⟨hlive, hwants, fun hmem => hrow (hsub i hmem)⟩
  have hleft : (config.table, row_id) ∉ config.taken view
      (s.shown.engine.grown (s.configs.take i) s.bridge.keys) := by
    intro hmem
    refine hrow (hsub (i + 1) ?_)
    rw [take_succ hconfig, QueryEngine.grown_append_shown hshows, QueryEngine.grown_read hview]
    exact Finset.mem_union_right _ hmem
  have hfull := MaterializationConfig.taken_full hcandidate hleft
  have hcard := h.card_owned hconfig hview hshows
  have hlength : (config.candidates view
      (s.shown.engine.grown (s.configs.take i) s.bridge.keys)).length ≤ u64_MAX :=
    (List.length_filter_le _ _).trans (s.shown.sized config.table view hview)
  unfold MaterializationConfig.max at hfull hcard
  rcases hmax : config.max_entities with _ | max
  -- without a limit there is room for every row of a view
  · rw [hmax, Option.getD_none] at hfull
    omega
  · rw [hmax, Option.getD_some] at hfull hcard
    exact ⟨max, rfl, by omega⟩

theorem Booked.limited (h : s.Booked commands) (hready : s.Ready) {max : Nat}
    (hconfig : s.configs[i]? = some config) (hmax : config.max_entities = some max) :
    ((s.materialize commands).owned i).card ≤ max := by
  rcases hview : s.shown.engine.latest_view config.table with _ | view
  · rw [owned_materialize_idle hconfig (.inl hview), h.owned_unread hready.fresh hconfig hview]
    exact Nat.zero_le max
  · by_cases hshows : s.shown.engine.Shows (s.configs.take i)
    · have hroom := hready.room i config view max hconfig hview hmax hshows
      rw [h.card_owned hconfig hview hshows, MaterializationConfig.max, hmax, Option.getD_some]
      rcases hroom with hnone | hroom
      · rw [hnone, Finset.card_empty]
        omega
      · omega
    · rw [owned_materialize_idle hconfig (.inr hshows)]
      exact (hready.idle i config view hconfig hview hshows).1 max hmax

theorem Booked.follows (h : s.Booked commands) (hready : s.Ready) :
    (s.materialize commands).Follows commands := by
  have hconfigs : (s.materialize commands).configs = s.configs := configs_materialize
  refine ⟨fun key hkey => ?_, fun key hkey hconfig => ?_,
    fun i config view row_id hconfig hview hlive hwants => ?_, fun i config max hconfig hmax => ?_⟩
  · exact (Linked.materialize_configs h.linked).exists_unique hkey
  · rw [wanted_materialize]
    rw [keys_materialize] at hkey
    rw [hconfigs] at hconfig
    exact (QueryEngine.mem_grown hkey).elim (fun hold => hready.fresh key hold hconfig) id
  · replace hview : s.shown.engine.latest_view config.table = some view := hview
    rw [hconfigs] at hconfig
    rw [keys_materialize]
    by_cases hrow : (config.table, row_id) ∈ s.shown.engine.grown s.configs s.bridge.keys
    · exact .inl hrow
    refine .inr ?_
    by_cases hshows : s.shown.engine.Shows (s.configs.take i)
    · exact h.full_of_left hconfig hview hshows hlive hwants hrow
    · obtain ⟨-, hnone | hfull⟩ := hready.idle i config view hconfig hview hshows
      · have hcandidate := MaterializationConfig.mem_candidates.mpr ⟨hlive, hwants, hrow⟩
        rw [hnone] at hcandidate
        exact absurd hcandidate List.not_mem_nil
      · rwa [owned_materialize_idle hconfig (.inr hshows)]
  · exact h.limited hready (by rwa [← hconfigs]) hmax

theorem Booked.follows_iff_ready (h : s.Booked commands) :
    (s.materialize commands).Follows commands ↔ s.Ready :=
  ⟨h.ready, h.follows⟩

/-! ## Runs -/

theorem booked_start (shown : ShownViews) : (start commands shown).Booked commands :=
  ⟨linked_new, fun _ => Finset.empty_subset _,
    fun _ key hkey => absurd hkey (Finset.notMem_empty key)⟩

theorem Booked.shrink (h : s.Booked commands) {bridge : Bridge W} (hlinked : Linked commands bridge)
    (hconfigs : bridge.registry.configs = s.configs) : (s.shrink bridge).Booked commands := by
  refine ⟨hlinked, fun _ => Finset.inter_subset_right, fun i key hkey => ?_⟩
  obtain ⟨config, hconfig, htable⟩ := h.tabled i key (Finset.mem_inter.mp hkey).1
  refine ⟨config, ?_, htable⟩
  change bridge.registry.configs[i]? = some config
  rw [hconfigs, hconfig]

theorem Booked.materialize (h : s.Booked commands) : (s.materialize commands).Booked commands := by
  have hturn : ∀ i, s.turn commands i ⊆ (s.materialize commands).bridge.keys := by
    intro i
    rw [turn_eq, keys_materialize]
    exact QueryEngine.grown_take_subset i
  have hkept : s.bridge.keys ⊆ (s.materialize commands).bridge.keys := by
    rw [keys_materialize]
    exact QueryEngine.subset_grown
  refine ⟨Linked.materialize_configs h.linked, fun i key hkey => ?_, fun i key hkey => ?_⟩
  · rcases Finset.mem_union.mp hkey with hold | hnew
    · exact hkept (h.registered i hold)
    · exact hturn (i + 1) (Finset.mem_sdiff.mp hnew).1
  · rw [configs_materialize]
    rcases hconfig : s.configs[i]? with _ | config
    · -- Past the last configuration nothing is added.
      have hlength : s.configs.length ≤ i := List.getElem?_eq_none_iff.mp hconfig
      have hstill : s.turn commands (i + 1) = s.turn commands i := by
        rw [turn_eq, turn_eq, List.take_of_length_le hlength,
          List.take_of_length_le (Nat.le_succ_of_le hlength)]
      rcases Finset.mem_union.mp hkey with hold | hnew
      · obtain ⟨config, hsome, -⟩ := h.tabled i key hold
        rw [hconfig] at hsome
        cases hsome
      · rw [hstill, Finset.sdiff_self] at hnew
        exact absurd hnew (Finset.notMem_empty key)
    · refine ⟨config, rfl, ?_⟩
      have hold : key ∈ s.owned i → key.1 = config.table := by
        intro hmem
        obtain ⟨config', hconfig', htable⟩ := h.tabled i key hmem
        rwa [Option.some.inj (hconfig.symm.trans hconfig')]
      rcases hview : s.shown.engine.latest_view config.table with _ | view
      · rw [owned_materialize_idle hconfig (.inl hview)] at hkey
        exact hold hkey
      · by_cases hshows : s.shown.engine.Shows (s.configs.take i)
        · rw [owned_materialize hconfig hview hshows] at hkey
          exact (Finset.mem_union.mp hkey).elim hold fun htaken =>
            (MaterializationConfig.mem_taken htaken).1
        · rw [owned_materialize_idle hconfig (.inr hshows)] at hkey
          exact hold hkey

theorem Booked.step (h : s.Booked commands) (op : MaterializationOp) :
    (s.step commands op).Booked commands := by
  rcases op with shown | config | _ | entity | _
  · exact ⟨h.linked, h.registered, h.tabled⟩
  · refine ⟨h.linked, h.registered, fun i key hkey => ?_⟩
    obtain ⟨other, hother, htable⟩ := h.tabled i key hkey
    refine ⟨other, ?_, htable⟩
    change (s.configs ++ [config])[i]? = some other
    rw [List.getElem?_append_left (List.getElem?_eq_some_iff.mp hother).1, hother]
  · exact h.materialize
  · refine h.shrink h.linked.dematerialize ?_
    have hcases := @dematerialize_cases W commands s.bridge entity
    rcases hcases with heq | ⟨key, -, heq⟩
    · rw [heq]
      rfl
    · rw [heq]
      rfl
  · exact h.shrink h.linked.dematerialize_all rfl

theorem booked_run (shown : ShownViews) (ops : List MaterializationOp) :
    (run commands shown ops).Booked commands := by
  induction ops using List.reverseRecOn with
  | nil => exact booked_start shown
  | append_singleton ops op ih =>
    rw [run, List.foldl_append]
    exact ih.step op

/-- After each call the registry follows the data exactly if each call finds the registry ready. -/
theorem follows_iff (commands : Commands W) (shown : ShownViews) (ops : List MaterializationOp) :
    (∀ pre, pre ++ [.Materialize] <+: ops →
      (run commands shown (pre ++ [.Materialize])).Follows commands)
    ↔ ∀ pre, pre ++ [.Materialize] <+: ops → (run commands shown pre).Ready := by
  refine forall_congr' fun pre => imp_congr_right fun _ => ?_
  rw [run, List.foldl_append]
  exact (booked_run shown pre).follows_iff_ready

/-! ### Provinces -/

/-- Entities under numbers that are given once. -/
structure NumberedWorld where
  next : Nat
  views : Entity → Option ViewOf
  unused : ∀ e, next ≤ e.index → views e = none

def numbered : Commands NumberedWorld where
  empty := { next := 0, views := fun _ => none, unused := fun _ _ => rfl }
  view_of w e := w.views e
  spawn w v :=
    (⟨w.next, 0⟩, {
      next := w.next + 1
      views := fun e => if e = ⟨w.next, 0⟩ then some v else w.views e
      unused := fun e he => by
        rw [if_neg (fun heq => by rw [heq] at he; exact Nat.not_succ_le_self _ he),
          w.unused e (Nat.le_of_succ_le he)] })
  despawn w d := {
    next := w.next
    views := fun e => if e = d then none else w.views e
    unused := fun e he => by rw [w.unused e he, ite_self] }
  view_of_empty _ := rfl
  spawn_fresh w _ := w.unused _ (Nat.le_refl _)
  view_of_spawn _ _ _ := rfl
  view_of_despawn _ _ _ := rfl

def province_batch (names : List String) : RecordBatch where
  schema := ⟨[⟨"name", .Utf8, true⟩]⟩
  columns := [.StringArray (names.map some)]
  row_count := names.length
  column_types := rfl
  column_len := by simp [ArrayRef.len]
  non_nullable := by simp [null_in_non_nullable]

/-- Provinces under the ids 0, 1 and so on, in one batch. -/
def province_view (tick : Tick) (names : List String) : TableReadView where
  table_name := "province"
  tick
  batches := [province_batch names]
  schema := .new "province"
  position_map := TableReadView.build_position_map [province_batch names]

def province_engine (tick : Tick) (names : List String) : QueryEngine :=
  { QueryEngine.new .new with
    latest_tick := tick
    view_cache := .new ((∅ : Map String TableReadView).insert "province" (province_view tick names)) }

theorem latest_view_province {tick : Tick} {names : List String} {table : String}
    {view : TableReadView} (h : (province_engine tick names).latest_view table = some view) :
    view = province_view tick names := by
  obtain ⟨cache, hcache, hview⟩ := QueryEngine.latest_view_cached h
  obtain rfl : (∅ : Map String TableReadView).insert "province" (province_view tick names) = cache :=
    Except.ok.inj hcache
  rw [Std.ExtTreeMap.getElem?_insert] at hview
  by_cases htable : compare "province" table = .eq
  · rw [if_pos htable] at hview
    exact (Option.some.inj hview).symm
  · rw [if_neg htable, Std.ExtTreeMap.getElem?_empty] at hview
    cases hview

def one_province : ShownViews :=
  { engine := province_engine 1 ["Roma"]
    sized := fun table view h => by
      rw [latest_view_province h]
      decide +kernel }

def no_province : ShownViews :=
  { engine := province_engine 2 []
    sized := fun table view h => by
      rw [latest_view_province h]
      decide +kernel }

def two_provinces : ShownViews :=
  { engine := province_engine 1 ["Roma", "Latium"]
    sized := fun table view h => by
      rw [latest_view_province h]
      decide +kernel }

def all_provinces : MaterializationConfig :=
  { table := "province", filter := none, max_entities := none }

def first_province : MaterializationConfig :=
  { table := "province", filter := none, max_entities := some 1 }

/-- A row that is deleted stays registered, and a limit of one lets in two. -/
theorem deleted_province_stays :
    ¬ (run numbered one_province
        [.RegisterConfig all_provinces, .Materialize, .Publish no_province, .Materialize]).Follows
          numbered
    ∧ ¬ (run numbered two_provinces
        [.RegisterConfig first_province, .Materialize, .Materialize]).Follows numbered := by
  constructor
  · intro h
    have hkey : ("province", 0) ∈ (run numbered one_province [.RegisterConfig all_provinces,
        .Materialize, .Publish no_province, .Materialize]).bridge.keys := by
      decide +kernel
    have hconfig : (run numbered one_province [.RegisterConfig all_provinces,
        .Materialize, .Publish no_province, .Materialize]).configs[0]? = some all_provinces := rfl
    obtain ⟨config, -, view, hview, -, hrow, -⟩ :=
      h.live ("province", 0) hkey ⟨all_provinces, List.mem_of_getElem? hconfig, rfl⟩
    rw [latest_view_province hview] at hrow
    exact absurd hrow (by decide +kernel)
  · intro h
    have hlimit := h.limited 0 first_province 1 rfl rfl
    exact absurd hlimit (by decide +kernel)

end MaterializationRun

end Scharnhorst
