/-
What a compilation accepts, and what it returns.

A compilation succeeds exactly when the tables have names, all different, each has its
strings in columns of one length, all are Authority, and of the manifest the names of the
tables and the shape of the relations are right. That is the whole of what is checked, and
what comes out is described table by table.
-/
import Scharnhorst.Content
import Scharnhorst.StoreSpec

set_option autoImplicit false

namespace Scharnhorst

open Attempt

/-! ## The batch of a table -/

namespace RawTableDef

/-- Every column of the spec has its strings, and all have equally many. -/
def Columnar (table : RawTableDef) : Prop :=
  table.spec.columns ≠ [] ∧ ∃ n, ∀ c ∈ table.spec.columns,
    ∃ values, table.rows[c.name]? = some values ∧ values.length = n

def string_array (table : RawTableDef) (col : ColumnSpec) : ArrayRef :=
  .StringArray ((table.rows.getD col.name []).map some)

end RawTableDef

namespace ContentCompiler

variable {table : RawTableDef}

theorem string_column_ok {col : ColumnSpec} {array : ArrayRef} :
    string_column table.spec table.rows col = .ok array
      ↔ (∃ values, table.rows[col.name]? = some values) ∧ array = table.string_array col := by
  unfold string_column RawTableDef.string_array
  rw [Std.ExtTreeMap.getD_eq_getD_getElem?]
  rcases table.rows[col.name]? with _ | values
  · simp
  · simp [eq_comm]

theorem string_arrays_ok {arrays : List ArrayRef} :
    table.spec.columns.mapM (string_column table.spec table.rows) = .ok arrays
      ↔ (∀ c ∈ table.spec.columns, ∃ values, table.rows[c.name]? = some values)
        ∧ arrays = table.spec.columns.map table.string_array :=
  mapM_ok_map_iff fun _ _ => string_column_ok

theorem has_nulls_string_array (table : RawTableDef) (col : ColumnSpec) :
    (table.string_array col).has_nulls = false := by
  unfold RawTableDef.string_array ArrayRef.has_nulls
  rw [List.any_eq_false]
  intro i hi
  have hlt : i < (table.rows.getD col.name []).length := by
    simpa [ArrayRef.len] using List.mem_range.1 hi
  simp [ArrayRef.cell, hlt]

/-- Strings are never null, so a field that forbids nulls does not refuse them. -/
theorem no_null_strings (table : RawTableDef) :
    null_in_non_nullable (string_schema table.spec) (table.spec.columns.map table.string_array)
      = none := by
  rw [null_in_non_nullable, Option.map_eq_none_iff, List.find?_eq_none]
  rintro ⟨array, field⟩ hmem
  obtain ⟨col, -, rfl⟩ := List.mem_map.1 (List.of_mem_zip hmem).1
  simp [has_nulls_string_array]

/-- The batch that is built, if one is. -/
theorem string_batch {batch : RecordBatch}
    (h : build_record_batch_from_strings table.spec table.rows = .ok batch) :
    batch.schema = string_schema table.spec
      ∧ batch.columns = table.spec.columns.map table.string_array := by
  obtain ⟨hschema, harrays, -⟩ := RecordBatch.built_ok h
  exact ⟨hschema, (string_arrays_ok.1 harrays).2⟩

theorem exists_string_batch :
    (∃ batch, build_record_batch_from_strings table.spec table.rows = .ok batch)
      ↔ table.Columnar := by
  constructor
  · rintro ⟨batch, h⟩
    obtain ⟨-, harrays, first, hfirst, -⟩ := RecordBatch.built_ok h
    obtain ⟨hdata, hcolumns⟩ := string_arrays_ok.1 harrays
    rw [hcolumns, List.mem_map] at hfirst
    obtain ⟨col, hcol, -⟩ := hfirst
    refine ⟨List.ne_nil_of_mem hcol, batch.row_count, fun c hc => ?_⟩
    obtain ⟨values, hvalues⟩ := hdata c hc
    -- the columns of a batch are as long as the batch
    have hlen := batch.column_len (table.string_array c) (by
      rw [hcolumns]
      exact List.mem_map_of_mem hc)
    refine ⟨values, hvalues, ?_⟩
    rw [← hlen, RawTableDef.string_array, Std.ExtTreeMap.getD_eq_getD_getElem?, hvalues]
    simp [ArrayRef.len]
  · rintro ⟨hne, n, hdata⟩
    have harrays := string_arrays_ok.2
      ⟨fun c hc => (hdata c hc).imp fun _ h => h.1, rfl⟩
    have hlen : ∀ array ∈ table.spec.columns.map table.string_array, array.len = n := by
      intro array harray
      obtain ⟨c, hc, rfl⟩ := List.mem_map.1 harray
      obtain ⟨values, hvalues, rfl⟩ := hdata c hc
      rw [RawTableDef.string_array, Std.ExtTreeMap.getD_eq_getD_getElem?, hvalues]
      simp [ArrayRef.len]
    obtain ⟨batch, hbatch⟩ := RecordBatch.exists_try_new.2
      ⟨by simpa using hne, by simp [string_schema, RawTableDef.string_array, ArrayRef.data_type],
        no_null_strings table, n, hlen⟩
    refine ⟨batch, ?_⟩
    unfold build_record_batch_from_strings
    rw [harrays]
    simp only [bind, Except.bind, hbatch, Except.mapError]

theorem exists_batches :
    (∃ batches, build_batches table = .ok batches) ↔ table.rows.isEmpty ∨ table.Columnar := by
  rw [← exists_string_batch]
  unfold build_batches
  by_cases hempty : table.rows.isEmpty
  · simp [hempty]
  · rcases build_record_batch_from_strings table.spec table.rows with e | batch
    · simp [hempty]
    · simp [hempty]

/-! ## One table after another -/

end ContentCompiler

/-- The table of the store that a raw table with these batches becomes. -/
def RawTableDef.compiled (table : RawTableDef) (batches : List RecordBatch) : VersionedTable :=
  { (VersionedTable.new table.spec.name .AppendOnly).set_spec table.spec with
    versions := (∅ : Versions).insert 0 batches }

namespace ContentCompiler

/-- The store and the registry after the tables `done`. -/
structure Building (done : List RawTableDef) (s : ArrowStore × SchemaRegistry) : Prop where
  lifecycle : s.1.lifecycle = .new .new
  create_drop_lock : s.1.create_drop_lock = .new ()
  type_registry : s.1.type_registry = .new default_type_registry
  stored : ∀ t ∈ done, ∃ batches, build_batches t = .ok batches
    ∧ s.1.tables[t.spec.name]? = some (.new (t.compiled batches))
  store_names : ∀ name, name ∈ s.1.tables ↔ name ∈ done.map (·.spec.name)
  registered : ∀ t ∈ done, s.2.tables[t.spec.name]? = some t.spec
  registry_names : ∀ name, name ∈ s.2.tables ↔ name ∈ done.map (·.spec.name)
  frozen : s.2.frozen = false
  relations : s.2.relations = .new

/-- What one more table has to be like. -/
structure Accepted (done : List RawTableDef) (t : RawTableDef) : Prop where
  named : t.spec.name ≠ ""
  new_name : t.spec.name ∉ done.map (·.spec.name)
  columnar : t.rows.isEmpty ∨ t.Columnar

theorem building_new : Building [] (.new, .new) where
  lifecycle := rfl
  create_drop_lock := rfl
  type_registry := rfl
  stored := by simp
  store_names := by simp [ArrowStore.new]
  registered := by simp
  registry_names := by simp [SchemaRegistry.new]
  frozen := rfl
  relations := rfl

section Tables

variable {done : List RawTableDef} {s : ArrowStore × SchemaRegistry} {t : RawTableDef}

/-- An accepted table is compiled, and added to what there was. -/
theorem Building.accept (hs : Building done s) (ht : Accepted done t) :
    ∃ s', compile_table s t = (.ok (), s') ∧ Building (done ++ [t]) s' := by
  obtain ⟨batches, hbatches⟩ := exists_batches.2 ht.columnar
  have hregister : s.2.register t.spec
      = (.ok (), { s.2 with tables := s.2.tables.insert t.spec.name t.spec }) := by
    rw [SchemaRegistry.register_ok]
    refine ⟨ht.named, hs.frozen, fun hmem => ?_, rfl⟩
    exact ht.new_name ((hs.registry_names _).1 hmem)
  -- the name is new to the registry and to the store alike
  have hfresh : t.spec.name ∉ s.1.tables := by
    intro hmem
    exact ht.new_name ((hs.store_names _).1 hmem)
  have hcreate : s.1.create_table t.spec .AppendOnly = _ :=
    ArrowStore.create_table_eq hs.lifecycle hs.create_drop_lock hfresh
  have hother : ∀ u ∈ done, t.spec.name ≠ u.spec.name := by
    intro u hu hname
    exact ht.new_name (List.mem_map.2 ⟨u, hu, hname.symm⟩)
  have happend := ArrowStore.append_batches_eq (s := s.1.with_created t.spec .AppendOnly)
    hs.lifecycle Std.ExtTreeMap.getElem?_insert_self 0 batches
  unfold compile_table
  simp only [hregister, hcreate, hbatches, happend]
  refine ⟨_, rfl, ?_⟩
  refine
    { lifecycle := hs.lifecycle
      create_drop_lock := hs.create_drop_lock
      type_registry := hs.type_registry
      stored := ?_, store_names := ?_, registered := ?_, registry_names := ?_
      frozen := hs.frozen
      relations := hs.relations }
  · intro u hu
    rw [ArrowStore.tables_set_table]
    rcases List.mem_append.1 hu with hu | hu
    · rw [if_neg (hother u hu), ArrowStore.with_created, Std.ExtTreeMap.getElem?_insert]
      simpa [hother u hu] using hs.stored u hu
    · obtain rfl := List.mem_singleton.1 hu
      refine ⟨batches, hbatches, ?_⟩
      rw [if_pos rfl]
      rfl
  · intro name
    show name ∈ (s.1.tables.insert _ _).insert _ _ ↔ _
    rw [Maps.mem_insert_iff, Maps.mem_insert_iff, hs.store_names, List.map_append, List.mem_append,
      List.map_singleton, List.mem_singleton, or_self_left, or_comm]
  · intro u hu
    rw [Std.ExtTreeMap.getElem?_insert]
    rcases List.mem_append.1 hu with hu | hu
    · simpa [hother u hu] using hs.registered u hu
    · obtain rfl := List.mem_singleton.1 hu
      simp
  · intro name
    rw [Maps.mem_insert_iff, hs.registry_names, List.map_append, List.mem_append,
      List.map_singleton, List.mem_singleton, or_comm]

/-- What is compiled was accepted. -/
theorem Building.accepted {s' : ArrowStore × SchemaRegistry} (hs : Building done s)
    (h : compile_table s t = (.ok (), s')) : Accepted done t := by
  unfold compile_table at h
  simp only at h
  split at h
  · cases h
  rename_i registry hregister
  obtain ⟨hname, -, hfresh, -⟩ := SchemaRegistry.register_ok.1 hregister
  split at h
  · cases h
  split at h
  · cases h
  rename_i batches hbatches
  refine ⟨hname, fun hmem => ?_, exists_batches.1 ⟨batches, hbatches⟩⟩
  exact hfresh ((hs.registry_names _).2 hmem)

/-- The whole loop, one way. -/
theorem Building.run {ts : List RawTableDef} {s' : ArrowStore × SchemaRegistry}
    (hs : Building done s) (hdone : (done.map (·.spec.name)).Nodup)
    (h : forEach compile_table s ts = (.ok (), s')) :
    Building (done ++ ts) s' ∧ ((done ++ ts).map (·.spec.name)).Nodup
      ∧ ∀ t ∈ ts, t.spec.name ≠ "" ∧ (t.rows.isEmpty ∨ t.Columnar) := by
  induction ts generalizing done s with
  | nil =>
      obtain rfl : s = s' := by simpa using h
      rw [List.append_nil]
      exact ⟨hs, hdone, by simp⟩
  | cons t ts ih =>
      obtain ⟨mid, ht, hrest⟩ := forEach_cons_ok.1 h
      have haccepted := hs.accepted ht
      obtain ⟨mid', ht', hmid⟩ := hs.accept haccepted
      obtain rfl : mid = mid' := (Prod.mk.inj (ht.symm.trans ht')).2
      -- a name that were there already would not have been accepted
      have hnodup : ((done ++ [t]).map (·.spec.name)).Nodup := by
        rw [List.map_append, List.nodup_append]
        refine ⟨hdone, by simp, ?_⟩
        intro name hname other hother
        rw [List.map_singleton, List.mem_singleton] at hother
        rintro rfl
        rw [hother] at hname
        exact haccepted.new_name hname
      obtain ⟨hbuilt, hnames, hall⟩ := ih hmid hnodup hrest
      rw [List.append_assoc, List.singleton_append] at hbuilt hnames
      refine ⟨hbuilt, hnames, fun u hu => ?_⟩
      rcases List.mem_cons.1 hu with rfl | hu
      · exact ⟨haccepted.named, haccepted.columnar⟩
      · exact hall u hu

/-- And the other. -/
theorem Building.runs {ts : List RawTableDef} (hs : Building done s)
    (hnames : ((done ++ ts).map (·.spec.name)).Nodup)
    (hall : ∀ t ∈ ts, t.spec.name ≠ "" ∧ (t.rows.isEmpty ∨ t.Columnar)) :
    ∃ s', forEach compile_table s ts = (.ok (), s') := by
  induction ts generalizing done s with
  | nil => exact ⟨s, rfl⟩
  | cons t ts ih =>
      obtain ⟨hname, hcolumnar⟩ := hall t List.mem_cons_self
      have hnew : t.spec.name ∉ done.map (·.spec.name) := by
        rw [List.map_append, List.nodup_append] at hnames
        intro hmem
        exact hnames.2.2 _ hmem _ (by simp) rfl
      obtain ⟨mid, ht, hmid⟩ := hs.accept ⟨hname, hnew, hcolumnar⟩
      obtain ⟨s', hs'⟩ := ih hmid (by simpa using hnames)
        fun u hu => hall u (List.mem_cons_of_mem t hu)
      exact ⟨s', by rw [forEach_cons_of_ok ht, hs']⟩

end Tables

/-! ## The manifest -/

section Manifest

variable [ContentText] {registry registry' : SchemaRegistry} {tables : List RawTableDef}
variable {migrated : MigratedSchemaManifest}

/-- The relations can be added to an empty graph one by one, and no cycle is found. -/
def Acyclic (relations : List RelationEdge) : Prop :=
  ∃ g, forEach RelationGraph.add_edge .new relations = (.ok (), g) ∧ g.detect_cycles = []

/-- What is asked of a manifest, where `names` are the names of the compiled tables. -/
structure Matches (names : List String) (migrated : MigratedSchemaManifest) : Prop where
  tables : ∀ t ∈ migrated.tables, t.name ∈ names
  relations : ∀ e ∈ migrated.relations, e.from_table ∈ names ∧ e.to_table ∈ names
  acyclic : Acyclic migrated.relations

omit [ContentText] in
theorem add_edge_ok {edge : RelationEdge} :
    add_edge registry edge = (.ok (), registry')
      ↔ registry.add_relation edge = (.ok (), registry') := by
  unfold add_edge
  rcases registry.add_relation edge with ⟨_ | _, _⟩ <;> simp [Except.mapError]

omit [ContentText] in
/-- Relations are added to the graph, if their ends are there, and change nothing else. -/
theorem add_edges_ok {edges : List RelationEdge} (hfrozen : registry.frozen = false) :
    forEach add_edge registry edges = (.ok (), registry')
      ↔ (∀ e ∈ edges, e.from_table ∈ registry.tables ∧ e.to_table ∈ registry.tables)
        ∧ forEach RelationGraph.add_edge registry.relations edges = (.ok (), registry'.relations)
        ∧ registry' = { registry with relations := registry'.relations } := by
  induction edges generalizing registry with
  | nil =>
      simp only [forEach_nil, List.not_mem_nil, false_implies, implies_true, true_and,
        Prod.mk.injEq]
      constructor
      · rintro rfl
        exact ⟨rfl, rfl⟩
      · rintro ⟨hrelations, hregistry⟩
        rw [hregistry, ← hrelations]
  | cons e edges ih =>
      rw [forEach_cons_ok, forEach_cons_ok, List.forall_mem_cons]
      constructor
      · rintro ⟨mid, he, hrest⟩
        obtain ⟨-, hfrom, hto, hgraph, hmid⟩ :=
          SchemaRegistry.add_relation_ok.1 (add_edge_ok.1 he)
        have hmid_frozen : mid.frozen = false := by rw [hmid]; exact hfrozen
        obtain ⟨hends, hgraphs, hregistry⟩ := (ih hmid_frozen).1 hrest
        have htables : mid.tables = registry.tables := by rw [hmid]
        rw [htables] at hends
        refine ⟨⟨⟨hfrom, hto⟩, hends⟩, ⟨mid.relations, hgraph, hgraphs⟩, ?_⟩
        rw [hregistry, hmid]
      · rintro ⟨⟨⟨hfrom, hto⟩, hends⟩, ⟨graph, hgraph, hgraphs⟩, hregistry⟩
        have hmid : ({ registry with relations := graph } : SchemaRegistry).frozen = false := hfrozen
        refine ⟨_, ?_, (ih hmid).2 ⟨hends, hgraphs, hregistry⟩⟩
        rw [add_edge_ok, SchemaRegistry.add_relation_ok]
        exact ⟨hfrozen, hfrom, hto, hgraph, rfl⟩

omit [ContentText] in
theorem find_missing_eq_none {names : List String}
    (hnames : ∀ name, name ∈ registry.tables ↔ name ∈ names) :
    migrated.tables.find? (fun t => !registry.contains t.name) = none
      ↔ ∀ t ∈ migrated.tables, t.name ∈ names := by
  simp only [List.find?_eq_none, SchemaRegistry.contains, Bool.not_eq_true, Bool.not_eq_false',
    Std.ExtTreeMap.contains_iff_mem, hnames]

omit [ContentText] in
theorem set_migrated_manifest_eq (hfrozen : registry.frozen = false) :
    registry.set_migrated_manifest migrated
      = (.ok (), { registry with migrated_manifest := some migrated }) := by
  simp [SchemaRegistry.set_migrated_manifest, hfrozen]

/-- The part of a compilation that reads the manifest, on a registry of the tables that
`names` has. -/
theorem compile_manifest_ok {names : List String} {edges : List RelationEdge}
    {fps : List ModFingerprint} (hfrozen : registry.frozen = false)
    (hrelations : registry.relations = .new)
    (hnames : ∀ name, name ∈ registry.tables ↔ name ∈ names)
    (h : compile_manifest registry tables migrated = .ok (edges, fps, registry')) :
    Matches names migrated ∧ registry'.tables = registry.tables := by
  have hkept : ({ registry with migrated_manifest := some migrated } : SchemaRegistry).frozen
      = false := hfrozen
  unfold compile_manifest at h
  split at h
  · cases h
  rename_i hnone
  simp only [set_migrated_manifest_eq hfrozen] at h
  split at h
  · cases h
  rename_i added hadded
  -- the graph is what the edges make of an empty one, in their order
  obtain ⟨hends, hgraph, hregistry⟩ := (add_edges_ok hkept).1 hadded
  simp only [hrelations] at hgraph
  split at h
  · cases h
  rename_i hcycles
  split at h
  · cases h
  rename_i stored hstored
  obtain ⟨-, -, rfl⟩ : _ ∧ _ ∧ stored = registry' := by simpa using Except.ok.inj h
  constructor
  · refine ⟨(find_missing_eq_none hnames).1 hnone, fun e he => ?_, added.relations, hgraph, hcycles⟩
    rw [← hnames, ← hnames]
    exact hends e he
  · unfold SchemaRegistry.store_mod_fingerprints at hstored
    split at hstored
    · cases hstored
    · obtain ⟨-, rfl⟩ := Prod.mk.inj hstored
      rw [hregistry]

theorem exists_manifest {names : List String} (hfrozen : registry.frozen = false)
    (hrelations : registry.relations = .new)
    (hnames : ∀ name, name ∈ registry.tables ↔ name ∈ names) (hmatches : Matches names migrated) :
    ∃ out, compile_manifest registry tables migrated = .ok out := by
  have hkept : ({ registry with migrated_manifest := some migrated } : SchemaRegistry).frozen
      = false := hfrozen
  obtain ⟨htables, hends, graph, hgraph, hcycles⟩ := hmatches
  have hadded : forEach add_edge { registry with migrated_manifest := some migrated }
      migrated.relations
      = (.ok (), { registry with migrated_manifest := some migrated, relations := graph }) := by
    rw [add_edges_ok hkept]
    refine ⟨fun e he => ?_, ?_, rfl⟩
    · rw [hnames, hnames]
      exact hends e he
    · rw [hrelations]
      exact hgraph
  unfold compile_manifest
  simp only [(find_missing_eq_none hnames).2 htables, set_migrated_manifest_eq hfrozen, hadded,
    hcycles]
  simp only [SchemaRegistry.store_mod_fingerprints, hfrozen, Bool.false_eq_true, if_false]
  exact ⟨_, rfl⟩

end Manifest

/-! ## Tiers -/

section Tiers

variable {reg reg' : TierRegistry} {t : RawTableDef}

theorem compile_tier_ok :
    compile_tier reg t = (.ok (), reg')
      ↔ t.spec.tier = .Authority ∧ t.spec.name ∉ reg.entries
        ∧ reg' = (reg.register t.spec.name .Authority "content_loader"
            s!"Compiled content table: {t.spec.name}").2 := by
  unfold compile_tier
  by_cases htier : t.spec.tier = .Authority
  · rw [Std.ExtTreeMap.mem_iff_isSome_getElem?]
    rcases hentry : reg.entries[t.spec.name]? with _ | existing
    · simp [htier, TierRegistry.register, hentry, Except.mapError, eq_comm]
    · simp [htier, TierRegistry.register, hentry, Except.mapError]
  · simp [htier]

theorem compile_tiers {ts : List RawTableDef}
    (h : forEach compile_tier reg ts = (.ok (), reg')) :
    (∀ t ∈ ts, t.spec.tier = .Authority)
      ∧ (reg.AllAuthority → reg'.AllAuthority)
      ∧ ∀ name, name ∈ reg'.entries ↔ name ∈ ts.map (·.spec.name) ∨ name ∈ reg.entries := by
  induction ts generalizing reg with
  | nil =>
      obtain rfl : reg = reg' := by simpa using h
      exact ⟨by simp, id, by simp⟩
  | cons t ts ih =>
      obtain ⟨mid, ht, hrest⟩ := forEach_cons_ok.1 h
      obtain ⟨htier, -, rfl⟩ := compile_tier_ok.1 ht
      obtain ⟨htiers, hall, hnames⟩ := ih hrest
      refine ⟨List.forall_mem_cons.2 ⟨htier, htiers⟩, fun hreg => hall (hreg.register _ _),
        fun name => ?_⟩
      rw [hnames, TierRegistry.mem_register, List.map_cons, List.mem_cons, or_left_comm, or_assoc]

theorem exists_tiers {ts : List RawTableDef} (htiers : ∀ t ∈ ts, t.spec.tier = .Authority)
    (hnames : (ts.map (·.spec.name)).Nodup) (hfresh : ∀ t ∈ ts, t.spec.name ∉ reg.entries) :
    ∃ reg', forEach compile_tier reg ts = (.ok (), reg') := by
  induction ts generalizing reg with
  | nil => exact ⟨reg, rfl⟩
  | cons t ts ih =>
      rw [List.map_cons, List.nodup_cons] at hnames
      have ht := compile_tier_ok.2
        ⟨htiers t List.mem_cons_self, hfresh t List.mem_cons_self, rfl⟩
      rw [forEach_cons_of_ok ht]
      apply ih (fun u hu => htiers u (List.mem_cons_of_mem t hu)) hnames.2
      intro u hu
      rw [TierRegistry.mem_register]
      rintro (hname | hmem)
      · exact hnames.1 (List.mem_map.2 ⟨u, hu, hname⟩)
      · exact hfresh u (List.mem_cons_of_mem t hu) hmem

end Tiers

/-! ## The whole input -/

/-- The names of the raw tables. -/
def table_names (input : CompilationInput) : List String := input.tables.map (·.spec.name)

/-- What the compiler checks. -/
structure Compilable (input : CompilationInput) : Prop where
  named : ∀ t ∈ input.tables, t.spec.name ≠ ""
  distinct : (table_names input).Nodup
  columnar : ∀ t ∈ input.tables, t.rows.isEmpty ∨ t.Columnar
  authority : ∀ t ∈ input.tables, t.spec.tier = .Authority
  manifest : ∀ migrated ∈ input.migrated_manifest, Matches (table_names input) migrated

/-- What it returns. -/
structure Compiled (input : CompilationInput) (output : CompilationOutput) : Prop where
  lifecycle : output.store.lifecycle = .new .new
  create_drop_lock : output.store.create_drop_lock = .new ()
  type_registry : output.store.type_registry = .new default_type_registry
  stored : ∀ t ∈ input.tables, ∃ batches, build_batches t = .ok batches
    ∧ output.store.tables[t.spec.name]? = some (.new (t.compiled batches))
  store_names : ∀ name, name ∈ output.store.tables ↔ name ∈ table_names input
  registered : ∀ t ∈ input.tables, output.registry.tables[t.spec.name]? = some t.spec
  registry_names : ∀ name, name ∈ output.registry.tables ↔ name ∈ table_names input
  authority : ∀ t ∈ input.tables, output.tier_registry.is_authority t.spec.name = true

variable [ContentText] {input : CompilationInput} {output : CompilationOutput}

theorem compile_migrated_ok {s : ArrowStore × SchemaRegistry} {edges : List RelationEdge}
    {fps : List ModFingerprint} {registry' : SchemaRegistry} (hs : Building input.tables s)
    (h : compile_migrated s.2 input = .ok (edges, fps, registry')) :
    (∀ migrated ∈ input.migrated_manifest, Matches (table_names input) migrated)
      ∧ registry'.tables = s.2.tables := by
  unfold compile_migrated at h
  split at h
  · rename_i migrated hmigrated
    rw [hmigrated]
    obtain ⟨hmatches, hkept⟩ :=
      compile_manifest_ok hs.frozen hs.relations hs.registry_names h
    refine ⟨fun other hother => ?_, hkept⟩
    obtain rfl := Option.some.inj hother
    exact hmatches
  · rename_i hmigrated
    rw [hmigrated]
    obtain ⟨-, -, rfl⟩ : _ ∧ _ ∧ s.2 = registry' := by simpa using Except.ok.inj h
    exact ⟨by simp, rfl⟩

theorem exists_migrated {s : ArrowStore × SchemaRegistry} (hs : Building input.tables s)
    (hmatches : ∀ migrated ∈ input.migrated_manifest, Matches (table_names input) migrated) :
    ∃ out, compile_migrated s.2 input = .ok out := by
  unfold compile_migrated
  rcases hmigrated : input.migrated_manifest with _ | migrated
  · exact ⟨_, rfl⟩
  · exact exists_manifest hs.frozen hs.relations hs.registry_names (hmatches migrated hmigrated)

theorem compile_ok (h : compile input = .ok output) :
    Compilable input ∧ Compiled input output := by
  unfold compile at h
  split at h
  · cases h
  rename_i store registry htables
  obtain ⟨hbuilt, hnames, hall⟩ := building_new.run (by simp) htables
  rw [List.nil_append] at hbuilt hnames
  split at h
  · cases h
  rename_i edges fps registry' hmigrated
  obtain ⟨hmatches, hkept⟩ := compile_migrated_ok hbuilt hmigrated
  split at h
  · cases h
  rename_i tier_registry htiers
  obtain ⟨hauthority, hone, hentries⟩ := compile_tiers htiers
  obtain rfl := Except.ok.inj h
  constructor
  · exact
      { named := fun t ht => (hall t ht).1
        distinct := hnames
        columnar := fun t ht => (hall t ht).2
        authority := hauthority
        manifest := hmatches }
  · refine
      { lifecycle := hbuilt.lifecycle
        create_drop_lock := hbuilt.create_drop_lock
        type_registry := hbuilt.type_registry
        stored := hbuilt.stored
        store_names := hbuilt.store_names
        registered := fun t ht => ?_
        registry_names := fun name => ?_
        authority := fun t ht => ?_ }
    · show registry'.tables[_]? = _
      rw [hkept]
      exact hbuilt.registered t ht
    · show name ∈ registry'.tables ↔ _
      rw [hkept]
      exact hbuilt.registry_names name
    · rw [(hone TierRegistry.allAuthority_new).is_authority_iff, hentries]
      exact .inl (List.mem_map_of_mem ht)

theorem exists_output (h : Compilable input) : ∃ output, compile input = .ok output := by
  have hdistinct : ((([] : List RawTableDef) ++ input.tables).map (·.spec.name)).Nodup :=
    h.distinct
  obtain ⟨⟨store, registry⟩, htables⟩ := building_new.runs hdistinct
    fun t ht => ⟨h.named t ht, h.columnar t ht⟩
  obtain ⟨hbuilt, -, -⟩ := building_new.run (by simp) htables
  obtain ⟨⟨edges, fps, registry'⟩, hmigrated⟩ := exists_migrated hbuilt h.manifest
  have hfresh : ∀ t ∈ input.tables, t.spec.name ∉ (TierRegistry.new).entries := by
    simp [TierRegistry.new]
  obtain ⟨tier_registry, htiers⟩ := exists_tiers h.authority h.distinct hfresh
  unfold compile
  simp only [htables, hmigrated, htiers]
  exact ⟨_, rfl⟩

end ContentCompiler

end Scharnhorst
