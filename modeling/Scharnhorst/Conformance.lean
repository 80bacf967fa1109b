/-
Whether what is compiled conforms to the migrated manifest.

The manifest is the schema that the compiled tables are to have. The compiler looks for
every table of it by name, and for the two ends of every relation, also by name. It
compares no columns and reads no tier of the manifest, so what it accepts conforms where
the raw tables do.
-/
import Scharnhorst.Compiled

set_option autoImplicit false

namespace Scharnhorst

open Attempt

namespace ContentCompiler

/-! ## Compiled tables -/

/-- The compiled table of this name has this spec: in the registry, in the store, and as
far as its tier goes in the tier registry. -/
structure CompiledAs (output : CompilationOutput) (name : String) (spec : TableSpec) : Prop where
  registered : output.registry.tables[name]? = some spec
  stored : ∃ table, output.store.get_table name = .ok table ∧ table.spec = some spec
  tier : output.tier_registry.is_authority name = true ↔ spec.tier = .Authority

theorem compiledAs_iff {input : CompilationInput} {output : CompilationOutput} {name : String}
    {spec : TableSpec} (hinput : Compilable input) (houtput : Compiled input output) :
    CompiledAs output name spec ↔ ∃ raw ∈ input.tables, raw.spec.name = name ∧ raw.spec = spec := by
  constructor
  · intro h
    have hmem : name ∈ output.registry.tables :=
      Std.ExtTreeMap.mem_iff_isSome_getElem?.2 (by rw [h.registered]; rfl)
    rw [houtput.registry_names] at hmem
    obtain ⟨raw, hraw, rfl⟩ := List.mem_map.1 hmem
    refine ⟨raw, hraw, rfl, ?_⟩
    have hregistered := h.registered
    rw [houtput.registered raw hraw] at hregistered
    exact Option.some.inj hregistered
  · rintro ⟨raw, hraw, rfl, rfl⟩
    obtain ⟨batches, -, hstored⟩ := houtput.stored raw hraw
    refine ⟨houtput.registered raw hraw, ⟨raw.compiled batches, ?_, rfl⟩, ?_⟩
    · unfold ArrowStore.get_table
      rw [hstored]
      rfl
    · exact iff_of_true (houtput.authority raw hraw) (hinput.authority raw hraw)

/-! ## Conforming -/

def column_names (spec : TableSpec) : List String := spec.columns.map (·.name)

/-- The compiled tables have the columns and the tiers that the manifest gives them, and
the tables and columns that its relations name. -/
structure Conforms (output : CompilationOutput) (migrated : MigratedSchemaManifest) : Prop where
  tables : ∀ t ∈ migrated.tables, ∃ spec, CompiledAs output t.name spec
    ∧ spec.columns = t.columns ∧ spec.tier = t.tier
  relations_from : ∀ e ∈ migrated.relations, ∃ spec, CompiledAs output e.from_table spec
    ∧ e.from_column ∈ column_names spec
  relations_to : ∀ e ∈ migrated.relations, ∃ spec, CompiledAs output e.to_table spec
    ∧ ∀ column ∈ e.to_column, column ∈ column_names spec

/-- The columns of the raw tables are those of the manifest, all tables of the manifest are
Authority, and its relations name columns that the raw tables have. -/
structure SpecsConform (raws : List RawTableDef) (migrated : MigratedSchemaManifest) : Prop where
  columns : ∀ t ∈ migrated.tables, ∃ raw ∈ raws, raw.spec.name = t.name
    ∧ raw.spec.columns = t.columns
  authority : ∀ t ∈ migrated.tables, t.tier = .Authority
  from_column : ∀ e ∈ migrated.relations, ∃ raw ∈ raws, raw.spec.name = e.from_table
    ∧ e.from_column ∈ column_names raw.spec
  to_column : ∀ e ∈ migrated.relations, ∃ raw ∈ raws, raw.spec.name = e.to_table
    ∧ ∀ column ∈ e.to_column, column ∈ column_names raw.spec

variable {input : CompilationInput} {output : CompilationOutput}
variable {migrated : MigratedSchemaManifest}

/-- What is compiled conforms where the raw tables do. -/
theorem conforms_iff (hinput : Compilable input) (houtput : Compiled input output) :
    Conforms output migrated ↔ SpecsConform input.tables migrated := by
  have has_iff : ∀ (name : String) (P : TableSpec → Prop),
      (∃ spec, CompiledAs output name spec ∧ P spec)
        ↔ ∃ raw ∈ input.tables, raw.spec.name = name ∧ P raw.spec := by
    intro name P
    simp only [compiledAs_iff hinput houtput]
    constructor
    · rintro ⟨spec, ⟨raw, hraw, hname, rfl⟩, hP⟩
      exact ⟨raw, hraw, hname, hP⟩
    · rintro ⟨raw, hraw, hname, hP⟩
      exact ⟨raw.spec, ⟨raw, hraw, hname, rfl⟩, hP⟩
  constructor
  · intro h
    refine ⟨fun t ht => ?_, fun t ht => ?_, fun e he => ?_, fun e he => ?_⟩
    · obtain ⟨raw, hraw, hname, hcolumns, -⟩ := (has_iff _ _).1 (h.tables t ht)
      exact ⟨raw, hraw, hname, hcolumns⟩
    · obtain ⟨raw, hraw, -, -, htier⟩ := (has_iff _ _).1 (h.tables t ht)
      rw [← htier]
      exact hinput.authority raw hraw
    · exact (has_iff _ _).1 (h.relations_from e he)
    · exact (has_iff _ _).1 (h.relations_to e he)
  · intro h
    refine ⟨fun t ht => ?_, fun e he => ?_, fun e he => ?_⟩
    · obtain ⟨raw, hraw, hname, hcolumns⟩ := h.columns t ht
      have htier : raw.spec.tier = t.tier := by
        rw [hinput.authority raw hraw, h.authority t ht]
      exact (has_iff _ _).2 ⟨raw, hraw, hname, hcolumns, htier⟩
    · exact (has_iff _ _).2 (h.from_column e he)
    · exact (has_iff _ _).2 (h.to_column e he)

/-- A compilation that succeeds conforms to its manifest, exactly where one of the
compiler's own checks refuses the input or the raw tables conform to it. -/
theorem compile_conforms_iff [ContentText] :
    (∀ output, compile input = .ok output →
        ∀ migrated ∈ input.migrated_manifest, Conforms output migrated)
      ↔ (¬ Compilable input
        ∨ ∀ migrated ∈ input.migrated_manifest, SpecsConform input.tables migrated) := by
  rw [← imp_iff_not_or]
  constructor
  · intro hconforms hinput migrated hmigrated
    obtain ⟨output, hcompile⟩ := exists_output hinput
    have houtput := (compile_ok hcompile).2
    exact (conforms_iff hinput houtput).1 (hconforms output hcompile migrated hmigrated)
  · intro hspecs output hcompile migrated hmigrated
    obtain ⟨hinput, houtput⟩ := compile_ok hcompile
    exact (conforms_iff hinput houtput).2 (hspecs hinput migrated hmigrated)

end ContentCompiler

/-! ## One table -/

/-- Quotes around a string that has nothing to escape. No string is hashed here. -/
@[reducible] def quoted_text : ContentText :=
  { debug_str := fun s => "\"" ++ s ++ "\"", hash64 := fun _ => 0 }

section Items

attribute [local instance] quoted_text

/-- A raw table of items, with one column and no rows. -/
def raw_items (storage_type : String) : RawTableDef :=
  { spec := { TableSpec.new "items" with columns := [.new "id" .Id storage_type] }, rows := ∅ }

/-- In the raw table the ids are numbers, in the manifest they are strings. -/
def number_items : CompilationInput :=
  { tables := [raw_items "i64"]
    resolver := .new
    migrated_manifest :=
      some (.new ((SchemaManifest.new "1.0.0").with_table (raw_items "utf8").spec) "1.0.0") }

/-- The compiler takes it. -/
theorem number_ids_compiled :
    ∃ output migrated, ContentCompiler.compile number_items = .ok output
      ∧ number_items.migrated_manifest = some migrated
      ∧ ¬ ContentCompiler.Conforms output migrated := by
  have hchecked : ContentCompiler.Compilable number_items := by
    refine ⟨by decide, by decide, fun t ht => ?_, by decide, ?_⟩
    · obtain rfl := List.mem_singleton.1 ht
      exact .inl rfl
    · rintro migrated ⟨⟩
      exact ⟨by decide, by decide, .new, rfl, by decide⟩
  obtain ⟨output, hcompile⟩ := ContentCompiler.exists_output hchecked
  obtain ⟨hinput, houtput⟩ := ContentCompiler.compile_ok hcompile
  refine ⟨output, _, hcompile, rfl, fun hconforms => ?_⟩
  have hspecs := (ContentCompiler.conforms_iff hinput houtput).1 hconforms
  obtain ⟨raw, hraw, -, hcolumns⟩ := hspecs.columns _ List.mem_cons_self
  obtain rfl := List.mem_singleton.1 hraw
  exact absurd hcolumns (by decide)

end Items

end Scharnhorst
