/-
The tiers of the tables after a load.

The fourth phase creates every table of the manifest and registers every one of them as
Authority. It does not read the tier in the table's spec. The two queries that are to
tell the caller which tables to rebuild, and which to fill from defaults, are one query
of the registry, for what is not Authority, and after the phase nothing is left to find.
-/
import Scharnhorst.LoadOrder
import Scharnhorst.StoreSpec

set_option autoImplicit false

namespace Scharnhorst

open Attempt

/-! ## The fourth phase -/

namespace ArrowStore

/-- What a created table adds to the store, and that it was not there. -/
theorem create_table_names {s s' : ArrowStore} {spec : TableSpec} {mode : MutationMode}
    {id : TableId} (h : s.create_table spec mode = (.ok id, s')) :
    spec.name ∉ s.tables ∧ ∀ name, name ∈ s'.tables ↔ name = spec.name ∨ name ∈ s.tables := by
  obtain ⟨hfresh, rfl⟩ := create_table_ok h
  refine ⟨hfresh, ?_⟩
  intro name
  rw [with_created_tables, Maps.mem_insert_iff]

end ArrowStore

namespace LoadReconstruction

/-- What the rounds of the loop over `tables` have done to the loader and the store they
began with. -/
structure TablesLoaded (tables : List TableSpec) (s s' : LoadReconstruction × ArrowStore) :
    Prop where
  lifecycle : s'.1.lifecycle = s.1.lifecycle
  fresh : ∀ t ∈ tables, t.name ∉ s.2.tables
  created : ∀ name, name ∈ s'.2.tables ↔ name ∈ tables.map (·.name) ∨ name ∈ s.2.tables
  registered : ∀ name, name ∈ s'.1.tier_registry.entries
    ↔ name ∈ tables.map (·.name) ∨ name ∈ s.1.tier_registry.entries
  all_authority : s.1.tier_registry.AllAuthority → s'.1.tier_registry.AllAuthority

theorem load_table_loads {s s' : LoadReconstruction × ArrowStore} {table : TableSpec}
    (h : load_table s table = (.ok (), s')) : TablesLoaded [table] s s' := by
  unfold load_table at h
  split at h
  · cases h
  rename_i id store hcreate
  obtain ⟨-, rfl⟩ := Prod.mk.inj h
  obtain ⟨hfresh, hnames⟩ := ArrowStore.create_table_names hcreate
  refine ⟨rfl, by simpa using hfresh, fun name => ?_, fun name => ?_, fun hall => ?_⟩
  · rw [hnames, List.map_singleton, List.mem_singleton]
  · show name ∈ (s.1.tier_registry.register _ _ _ _).2.entries ↔ _
    rw [TierRegistry.mem_register, List.map_singleton, List.mem_singleton]
  · exact hall.register _ _

/-- The whole loop. A later table was not there when an earlier one was created, so it was
not there at the beginning. -/
theorem load_tables {s s' : LoadReconstruction × ArrowStore} {tables : List TableSpec}
    (h : forEach load_table s tables = (.ok (), s')) : TablesLoaded tables s s' := by
  induction tables generalizing s with
  | nil =>
      obtain rfl : s = s' := by simpa using h
      exact ⟨rfl, by simp, by simp, by simp, id⟩
  | cons table tables ih =>
      obtain ⟨mid, htable, hrest⟩ := forEach_cons_ok.1 h
      have hone := load_table_loads htable
      have hlater := ih hrest
      refine ⟨hlater.lifecycle.trans hone.lifecycle, fun t ht => ?_, fun name => ?_,
        fun name => ?_, fun hall => hlater.all_authority (hone.all_authority hall)⟩
      · rcases List.mem_cons.1 ht with rfl | ht
        · exact hone.fresh t (by simp)
        · intro hmem
          exact hlater.fresh t ht ((hone.created t.name).2 (.inr hmem))
      · rw [hlater.created, hone.created, List.map_singleton, List.mem_singleton, List.map_cons,
          List.mem_cons, or_left_comm, or_assoc]
      · rw [hlater.registered, hone.registered, List.map_singleton, List.mem_singleton,
          List.map_cons, List.mem_cons, or_left_comm, or_assoc]

theorem advance_keeps_manifest (l : LoadLifecycle) : l.advance.2.migrated = l.migrated := by
  unfold LoadLifecycle.advance
  repeat' split
  all_goals rfl

theorem enter_keeps_manifest (r : LoadReconstruction) (phase : LoadPhase) :
    (r.enter phase).2.lifecycle.migrated = r.lifecycle.migrated
      ∧ (r.enter phase).2.tier_registry = r.tier_registry := by
  rw [← advance_keeps_manifest r.lifecycle]
  unfold enter
  rcases r.lifecycle.advance with ⟨e | turn, lifecycle⟩
  · exact ⟨rfl, rfl⟩
  · by_cases hturn : turn = phase <;> simp [hturn]

/-- The phase reads the manifest that the third phase has left, and advances the
lifecycle. -/
theorem phase4_loads {r r' : LoadReconstruction} {init_store store : ArrowStore}
    {migrated : MigratedSchemaManifest} (hmigrated : r.lifecycle.migrated = some migrated)
    (h : r.phase4_content_compilation_entry init_store = (.ok (), r', store)) :
    r'.lifecycle.migrated = some migrated
      ∧ ∃ entered : LoadReconstruction, entered.tier_registry = r.tier_registry
        ∧ TablesLoaded migrated.tables (entered, init_store) (r', store) := by
  unfold phase4_content_compilation_entry at h
  split at h
  · cases h
  rename_i entered henter
  have hkept : entered.lifecycle.migrated = some migrated
      ∧ entered.tier_registry = r.tier_registry := by
    obtain rfl : (r.enter .ContentCompilation).2 = entered := by rw [henter]
    rw [← hmigrated]
    exact enter_keeps_manifest r .ContentCompilation
  unfold content_compilation at h
  rw [hkept.1] at h
  split at h
  · cases h
  rename_i manifest hmanifest
  obtain rfl := Option.some.inj hmanifest
  split at h
  · cases h
  have hloaded := load_tables h
  refine ⟨?_, entered, hkept.2, hloaded⟩
  rw [hloaded.lifecycle]
  exact hkept.1

/-! ## The tiers afterwards -/

/-- The tiers that the specs of the manifest's tables give are the ones that the store,
the registry and the two queries go by. -/
structure TiersKept (r : LoadReconstruction) (store : ArrowStore) (tables : List TableSpec) :
    Prop where
  created : ∀ name, name ∈ store.tables ↔ ∃ t ∈ tables, t.name = name ∧ t.tier = .Authority
  authority : ∀ name, r.tier_registry.is_authority name = true
    ↔ ∃ t ∈ tables, t.name = name ∧ t.tier = .Authority
  derived : r.derived_tables_need_rebuild
    = .ok ((tables.filter fun t => t.tier = .Derived).map (·.name))
  ephemeral : r.ephemeral_tables_needing_init
    = .ok ((tables.filter fun t => t.tier = .Ephemeral).map (·.name))

section Tiers

variable {r : LoadReconstruction} {store : ArrowStore} {migrated : MigratedSchemaManifest}

/-- Where all the manifest's tables are registered as Authority, no query finds one. -/
theorem non_authority_tables_nil (hmigrated : r.lifecycle.migrated = some migrated)
    (hall : ∀ t ∈ migrated.tables, r.tier_registry.is_authority t.name = true) :
    r.non_authority_tables = .ok [] := by
  have hnone : migrated.tables.filter (fun t => !r.tier_registry.is_authority t.name) = [] := by
    rw [List.filter_eq_nil_iff]
    intro t ht
    simp [hall t ht]
  unfold non_authority_tables
  rw [hmigrated]
  simp only [hnone, List.map_nil]

/-- Two queries that find nothing are right if nothing is Derived and nothing Ephemeral. -/
theorem authority_of_queries {tables : List TableSpec} (hkept : TiersKept r store tables)
    (hnone : r.non_authority_tables = .ok []) : ∀ t ∈ tables, t.tier = .Authority := by
  have hderived : [] = (tables.filter fun t => t.tier = .Derived).map (·.name) :=
    Except.ok.inj (hnone.symm.trans hkept.derived)
  have hephemeral : [] = (tables.filter fun t => t.tier = .Ephemeral).map (·.name) :=
    Except.ok.inj (hnone.symm.trans hkept.ephemeral)
  rw [eq_comm, List.map_eq_nil_iff, List.filter_eq_nil_iff] at hderived hephemeral
  intro t ht
  have hd := hderived t ht
  have he := hephemeral t ht
  rcases htier : t.tier with _ | _ | _
  · rfl
  · simp [htier] at hd
  · simp [htier] at he

theorem mem_names_iff {tables : List TableSpec} (hall : ∀ t ∈ tables, t.tier = .Authority)
    (name : String) :
    name ∈ tables.map (·.name) ↔ ∃ t ∈ tables, t.name = name ∧ t.tier = .Authority := by
  rw [List.mem_map]
  constructor
  · rintro ⟨t, ht, rfl⟩
    exact ⟨t, ht, rfl, hall t ht⟩
  · rintro ⟨t, ht, rfl, -⟩
    exact ⟨t, ht, rfl⟩

end Tiers

end LoadReconstruction

open LoadReconstruction in
/-- The fourth phase keeps the tiers of a manifest exactly when there is no tier to keep:
every table is Authority, and the store had no table of its own. -/
theorem tiers_kept_iff {r r' : LoadReconstruction} {init_store store : ArrowStore}
    {migrated : MigratedSchemaManifest} (hregistry : r.tier_registry = .new)
    (hmigrated : r.lifecycle.migrated = some migrated)
    (h : r.phase4_content_compilation_entry init_store = (.ok (), r', store)) :
    TiersKept r' store migrated.tables
      ↔ (∀ t ∈ migrated.tables, t.tier = .Authority) ∧ ∀ name, name ∉ init_store.tables := by
  obtain ⟨hafter, entered, hentered, hloaded⟩ := phase4_loads hmigrated h
  rw [hregistry] at hentered
  have hall : r'.tier_registry.AllAuthority := by
    apply hloaded.all_authority
    rw [hentered]
    exact TierRegistry.allAuthority_new
  have hauthority : ∀ name, r'.tier_registry.is_authority name = true
      ↔ name ∈ migrated.tables.map (·.name) := by
    intro name
    rw [hall.is_authority_iff, hloaded.registered, hentered]
    simp [TierRegistry.new]
  have hnone : r'.non_authority_tables = .ok [] := by
    apply non_authority_tables_nil hafter
    intro t ht
    rw [hauthority]
    exact List.mem_map_of_mem ht
  constructor
  · intro hkept
    refine ⟨authority_of_queries hkept hnone, fun name hname => ?_⟩
    -- such a table stays, so it would have to be one of the manifest, which are all new
    have hstays := (hloaded.created name).2 (.inr hname)
    obtain ⟨t, ht, rfl, -⟩ := (hkept.created name).1 hstays
    exact hloaded.fresh t ht hname
  · rintro ⟨htiers, hempty⟩
    refine ⟨fun name => ?_, fun name => ?_, ?_, ?_⟩
    · rw [hloaded.created, ← mem_names_iff htiers]
      simp [hempty name]
    · rw [hauthority, mem_names_iff htiers]
    · rw [derived_tables_need_rebuild, hnone]
      simp +contextual [List.filter_eq_nil_iff.2, htiers]
    · rw [ephemeral_tables_needing_init, hnone]
      simp +contextual [List.filter_eq_nil_iff.2, htiers]

/-! ## One derived table -/

/-- A manifest with one table of items, in this tier. -/
def items_manifest (tier : StateTier) : MigratedSchemaManifest :=
  .new ((SchemaManifest.new "1.0.0").with_table { TableSpec.new "items" with tier }) "1.0.0"

/-- A load of it, after the third phase. -/
def migrated_items (tier : StateTier) : LoadReconstruction :=
  { LoadReconstruction.empty_load with
    lifecycle :=
      { LoadLifecycle.new with
        current := some .SchemaMigration
        completed := [.SnapshotDeserialize, .ModCoordination]
        migrated := some (items_manifest tier) } }

/-- The derived table is created in the store and is Authority from then on. Neither query
returns it. -/
theorem derived_items_become_authority :
    let loaded := (migrated_items .Derived).phase4_content_compilation_entry .new
    loaded.1 = .ok ()
      ∧ loaded.2.1.tier_registry.is_authority "items" = true
      ∧ loaded.2.1.derived_tables_need_rebuild = .ok []
      ∧ ¬ LoadReconstruction.TiersKept loaded.2.1 loaded.2.2
          (items_manifest .Derived).tables := by
  intro loaded
  have hauthority : loaded.2.1.tier_registry.is_authority "items" = true := by decide +kernel
  refine ⟨by decide +kernel, hauthority, by decide +kernel, fun hkept => ?_⟩
  obtain ⟨t, ht, -, htier⟩ := (hkept.authority "items").1 hauthority
  rw [List.mem_singleton.1 ht] at htier
  exact absurd htier (by decide)

/-- With an Authority table there is nothing to tell apart. -/
theorem authority_items_kept :
    let loaded := (migrated_items .Authority).phase4_content_compilation_entry .new
    loaded.1 = .ok ()
      ∧ LoadReconstruction.TiersKept loaded.2.1 loaded.2.2
          (items_manifest .Authority).tables := by
  intro loaded
  have hok : loaded.1 = .ok () := by decide +kernel
  refine ⟨hok, (tiers_kept_iff rfl rfl (eq_of_verdict hok)).2 ⟨?_, ?_⟩⟩
  · intro t ht
    rw [List.mem_singleton.1 ht]
  · intro name
    exact Std.ExtTreeMap.not_mem_empty

end Scharnhorst
