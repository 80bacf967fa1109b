/-
Whether compiled rows can be used.

The compiler is to turn columns of strings into the rows of a table: every string parsed
to the type of its column, every row under an id by which the simulation can change it. It
does neither. The batch that it builds has a string column for each column of the spec, and
`append_batches`, which stores it, writes nothing into the position map. So a table with
rows is never what it should be. A table without rows is, unless the store does not know
its types, or an empty batch of strings stands where rows of other types will be put.

What it means to parse a string is left open, since nothing here depends on it.
-/
import Scharnhorst.Acceptance
import Scharnhorst.Conformance

set_option autoImplicit false

namespace Scharnhorst

open Attempt

/-! ## The schema of a spec -/

/-- Its fields are the columns, each with the type of its storage type. -/
theorem spec_schema_ok {spec : TableSpec} {reg : TypeRegistry} {schema : Schema} :
    spec_schema spec reg = .ok schema
      ↔ List.Forall₂ (fun c f => reg.resolve_data_type c.storage_type = .ok f.data_type
          ∧ f.name = c.name ∧ f.nullable = c.nullable) spec.columns schema.fields := by
  have hfield : ∀ (c : ColumnSpec) (f : Field), (do
      let dt ← reg.resolve_data_type c.storage_type
      return ({ name := c.name, data_type := dt, nullable := c.nullable } : Field)) = .ok f
      ↔ reg.resolve_data_type c.storage_type = .ok f.data_type
        ∧ f.name = c.name ∧ f.nullable = c.nullable := by
    rintro c ⟨name, dt, nullable⟩
    rcases reg.resolve_data_type c.storage_type with e | dt'
    · simp [bind, Except.bind]
    · simp only [bind, Except.bind, pure, Except.pure, Except.ok.injEq, Field.mk.injEq]
      constructor
      · rintro ⟨rfl, rfl, rfl⟩
        exact ⟨rfl, rfl, rfl⟩
      · rintro ⟨rfl, rfl, rfl⟩
        exact ⟨rfl, rfl, rfl⟩
  simp only [← hfield]
  rw [← mapM_ok]
  unfold spec_schema
  rcases hfields : spec.columns.mapM fun c => do
      let dt ← reg.resolve_data_type c.storage_type
      return ({ name := c.name, data_type := dt, nullable := c.nullable } : Field) with e | fields
  · rw [hfields]
    simp [bind, Except.bind]
  · rw [hfields]
    obtain ⟨fs⟩ := schema
    simp [bind, Except.bind, pure, Except.pure]

/-- It has one only if the store knows the types. -/
theorem built_in_of_schema {spec : TableSpec} {schema : Schema}
    (h : spec_schema spec default_type_registry = .ok schema) : spec.BuiltIn := by
  intro col hcol
  obtain ⟨k, hk, rfl⟩ := List.getElem_of_mem hcol
  have hall := spec_schema_ok.1 h
  have hf : k < schema.fields.length := by rw [← hall.length_eq]; exact hk
  exact List.mem_map_of_mem (resolves_iff.1 (hall.get hk hf).1)

/-- The compiler's schema is the one of the spec if all columns are strings. -/
theorem string_schema_iff {spec : TableSpec} :
    spec_schema spec default_type_registry = .ok (ContentCompiler.string_schema spec)
      ↔ ∀ c ∈ spec.columns, c.storage_type = "utf8" := by
  rw [spec_schema_ok, ContentCompiler.string_schema, List.forall₂_map_right_iff,
    List.forall₂_same]
  simp only [and_self, and_true, resolves_iff]
  simp [built_in_types]

/-! ## What is promised of a compiled table -/

namespace RawTableDef

/-- There is an `i`-th row: some column has a string for it. -/
def HasRow (raw : RawTableDef) (i : Nat) : Prop :=
  ∃ c ∈ raw.spec.columns, ∃ values, raw.rows[c.name]? = some values ∧ i < values.length

/-- The string of a row in a column. -/
def source (raw : RawTableDef) (col : ColumnSpec) (i : Nat) : Option String :=
  raw.rows[col.name]?.bind (·[i]?)

/-- The rows are in the table at tick zero, in columns of their types, each under an id of
its own and with the values that its strings stand for. -/
structure Addressed (raw : RawTableDef) (parse : DataType → String → Cell) (schema : Schema)
    (ids : Nat → RowId) (t : VersionedTable) : Prop where
  typed : ∀ b ∈ t.batches 0, b.schema = schema
  distinct : ∀ i j, raw.HasRow i → raw.HasRow j → ids i = ids j → i = j
  located : ∀ i, raw.HasRow i → ∃ loc batch, t.locate (ids i) = some (loc, batch) ∧ loc.tick = 0
    ∧ ∀ (k : Nat) (f : Field) (col : ColumnSpec) (value : String), schema.fields[k]? = some f →
      raw.spec.columns[k]? = some col → raw.source col i = some value →
      (batch.row loc.row_index)[k]? = some (parse f.data_type value)

/-- The ids of the rows. -/
def Ids (raw : RawTableDef) (ids : Nat → RowId) : Set RowId := {r | ∃ i, raw.HasRow i ∧ ids i = r}

/-- A diff of the table that is legal, and not one that the store misjudges on any table,
goes through, and leaves batches of one schema. -/
def Usable [Render] (raw : RawTableDef) (schema : Schema) (ids : Nat → RowId) (s : ArrowStore) :
    Prop :=
  ∀ (tick : Tick) (d : Diff), d.table = raw.spec.name →
    Accepts schema raw.spec.key (raw.Ids ids) d → ¬ Misjudges schema raw.spec.key (raw.Ids ids) d →
      ∃ s' lock, s.apply_diffs tick [d] = (.ok (), s') ∧ s'.tables[raw.spec.name]? = some lock
        ∧ ∀ (k : Tick) (bs : List RecordBatch), lock.data.versions[k]? = some bs →
          ∀ b ∈ bs, b.schema = schema

/-- The compiled table holds the rows, and they can be used once the simulation runs. -/
def Delivered [Render] (raw : RawTableDef) (parse : DataType → String → Cell) (s : ArrowStore) :
    Prop :=
  ∃ schema ids t, spec_schema raw.spec default_type_registry = .ok schema
    ∧ s.get_table raw.spec.name = .ok t ∧ raw.Addressed parse schema ids t
    ∧ raw.Usable schema ids s.into_simulation.2

/-- The raw table has no rows, the store knows its types, and if there are columns of
strings, though empty, all its types are strings. -/
structure Plain (raw : RawTableDef) : Prop where
  no_row : ∀ i, ¬ raw.HasRow i
  built_in : raw.spec.BuiltIn
  strings : raw.rows.isEmpty ∨ ∀ c ∈ raw.spec.columns, c.storage_type = "utf8"

end RawTableDef

/-! ## One table -/

/-- All batches have the schema. -/
def OfSchema (schema : Schema) (versions : Versions) : Prop :=
  ∀ (tick : Tick) (bs : List RecordBatch), versions[tick]? = some bs → ∀ b ∈ bs, b.schema = schema

theorem OfSchema.insert {schema : Schema} {versions : Versions} {tick : Tick}
    {bs : List RecordBatch} (h : OfSchema schema versions) (hbs : ∀ b ∈ bs, b.schema = schema) :
    OfSchema schema (versions.insert tick bs) := by
  intro k bs' hk
  rw [Std.ExtTreeMap.getElem?_insert] at hk
  split at hk
  · obtain rfl : bs = bs' := by simpa using hk
    exact hbs
  · exact h k bs' hk

section Rows

variable [Render]

/-- Every diff that goes through keeps the schema. -/
theorem OfSchema.step {schema : Schema} {reg : TypeRegistry} {tick : Tick} {t t' : VersionedTable}
    {d : Diff} (h : OfSchema schema t.versions) (hschema : Resolves reg t schema)
    (hrun : apply_to_table reg tick d t = (.ok (), t')) : OfSchema schema t'.versions := by
  have hlisted : ∀ k, ∀ b ∈ t.batches k, b.schema = schema := fun k b hb =>
    h k _ (VersionedTable.versions_of_mem hb) b hb
  -- an update or a delete sets one batch, to one of the same schema
  have hset : ∀ (loc : RowLocation) (batch patched : RecordBatch),
      (t.batches loc.tick)[loc.batch_index]? = some batch → patched.schema = batch.schema →
      OfSchema schema (t.set_batch loc patched).versions := by
    intro loc batch patched hat hsame
    refine h.insert fun b hb => ?_
    rcases List.mem_or_eq_of_mem_set hb with hold | rfl
    · exact hlisted _ b hold
    · exact hsame.trans (hlisted _ batch (List.mem_of_getElem? hat))
  cases d with
  | Update name row column value =>
      obtain ⟨loc, batch, patched, hloc, hb, rfl⟩ := apply_update_ok tick hrun
      obtain ⟨-, -, hat, hrow, -⟩ := VersionedTable.locate_eq_some.1 hloc
      obtain ⟨c, f, -, -, hr⟩ := update_batch_spec hrow hb
      exact hset loc batch patched hat hr.schema_eq
  | Delete name row =>
      obtain ⟨loc, batch, patched, hloc, hb, rfl⟩ := apply_delete_ok tick hrun
      obtain ⟨-, -, hat, hrow, -⟩ := VersionedTable.locate_eq_some.1 hloc
      obtain ⟨g, hr⟩ := delete_batch_spec hrow hb
      exact hset loc batch patched hat hr.schema_eq
  | Insert name row values =>
      obtain ⟨s, batch, hs, -, hbatch, rfl⟩ := apply_insert_ok hrun
      obtain rfl : schema = s := Option.some.inj (Except.ok.inj ((hschema values).symm.trans hs))
      refine h.insert fun b hb => ?_
      rcases List.mem_append.1 hb with hold | hnew
      · exact hlisted tick b hold
      · obtain rfl := List.mem_singleton.1 hnew
        exact (json_map_to_record_batch_spec hbatch).1
  | ReplaceTable name rows =>
      obtain ⟨s, pm, batches, hs, hall, -, rfl⟩ := apply_replace_ok hrun
      obtain rfl : schema = s := by
        rcases rows with _ | ⟨row, rows⟩
        · simp [replace_schema] at hs
        · simpa [replace_schema, resolve_table_schema_from_map, hschema row, Except.toOption]
            using hs
      refine h.insert fun b hb => ?_
      obtain ⟨i, hi, rfl⟩ := List.getElem_of_mem hb
      have hi' : i < rows.length := by rw [hall.length_eq]; exact hi
      exact (json_map_to_record_batch_spec (hall.get hi' hi)).1

variable {raw : RawTableDef} {parse : DataType → String → Cell} {s : ArrowStore}
  {batches : List RecordBatch}

omit [Render] in
theorem batches_compiled : (raw.compiled batches).batches 0 = batches := by
  simp [RawTableDef.compiled, VersionedTable.batches]

omit [Render] in
theorem position_of_compiled (r : RowId) :
    (raw.compiled batches).position_map.position_of r = none := by
  simp [RawTableDef.compiled, VersionedTable.set_spec, VersionedTable.new]

omit [Render] in
/-- No batch, or one of strings. -/
theorem built_strings (hbatches : ContentCompiler.build_batches raw = .ok batches) :
    batches = [] ∧ raw.rows.isEmpty
      ∨ ∃ batch, batches = [batch] ∧ batch.schema = ContentCompiler.string_schema raw.spec := by
  unfold ContentCompiler.build_batches at hbatches
  by_cases hempty : raw.rows.isEmpty
  · rw [if_pos hempty] at hbatches
    exact .inl ⟨(Except.ok.inj hbatches).symm, hempty⟩
  · rw [if_neg hempty] at hbatches
    split at hbatches
    · cases hbatches
    · rename_i batch hbatch
      exact .inr ⟨batch, (Except.ok.inj hbatches).symm, (ContentCompiler.string_batch hbatch).1⟩

omit [Render] in
/-- What is delivered has no rows. -/
theorem plain_of_addressed {schema : Schema} {ids : Nat → RowId}
    (hbatches : ContentCompiler.build_batches raw = .ok batches)
    (hschema : spec_schema raw.spec default_type_registry = .ok schema)
    (h : raw.Addressed parse schema ids (raw.compiled batches)) : raw.Plain := by
  refine ⟨fun i hi => ?_, built_in_of_schema hschema, ?_⟩
  · -- it would have an entry in the position map
    obtain ⟨loc, batch, hloc, -⟩ := h.located i hi
    have hpos := (VersionedTable.locate_eq_some.1 hloc).1
    rw [position_of_compiled] at hpos
    cases hpos
  · rcases built_strings hbatches with ⟨-, hempty⟩ | ⟨batch, rfl, hstring⟩
    · exact .inl hempty
    · have htyped := h.typed batch (by rw [batches_compiled]; exact List.mem_singleton_self _)
      refine .inr (string_schema_iff.1 ?_)
      rw [hschema, ← htyped, hstring]

omit [Render] in
/-- The batches of a table without rows have the schema of its spec. -/
theorem RawTableDef.Plain.schemas {schema : Schema} (h : raw.Plain)
    (hbatches : ContentCompiler.build_batches raw = .ok batches)
    (hschema : spec_schema raw.spec default_type_registry = .ok schema) :
    ∀ b ∈ batches, b.schema = schema := by
  rcases built_strings hbatches with ⟨rfl, -⟩ | ⟨batch, rfl, hstring⟩
  · simp
  · intro b hb
    obtain rfl := List.mem_singleton.1 hb
    rcases h.strings with hempty | hutf8
    · simp [ContentCompiler.build_batches, hempty] at hbatches
    · rw [hstring]
      exact Except.ok.inj ((string_schema_iff.2 hutf8).symm.trans hschema)

/-- It takes every legal insert and replace, and there is nothing in it to update or to
delete. -/
theorem RawTableDef.Plain.usable {schema : Schema} (h : raw.Plain)
    (hbatches : ContentCompiler.build_batches raw = .ok batches)
    (hschema : spec_schema raw.spec default_type_registry = .ok schema)
    (hsim : s.InSimulation) (hreg : s.type_registry = .new default_type_registry)
    (hstored : s.tables[raw.spec.name]? = some (.new (raw.compiled batches))) :
    raw.Usable schema id s := by
  intro tick d hname haccepts hfair
  have hlive : ∀ r, r ∈ raw.Ids id
      ↔ ((raw.compiled batches).position_map.position_of r).isSome := by
    intro r
    simp [RawTableDef.Ids, h.no_row, position_of_compiled]
  have hresolves : Resolves default_type_registry (raw.compiled batches) schema := by
    intro values
    simp [resolve_table_schema, RawTableDef.compiled, VersionedTable.set_spec, hschema, Except.map]
  have htaken : (apply_to_table default_type_registry tick d (raw.compiled batches)).1
      = .ok () := by
    have htakes := ((takes_iff_accepts d).2 hfair).2 haccepts
    cases d with
    | Update name row column value => exact absurd htakes.1 (by simp [RawTableDef.Ids, h.no_row])
    | Delete name row => exact absurd htakes (by simp [RawTableDef.Ids, h.no_row, Takes])
    | Insert name row values => exact (takes_insert (hlive row) hresolves name values).2 htakes
    | ReplaceTable name rows => exact (takes_replace hresolves name rows).2 htakes
  have hrun := eq_of_verdict htaken
  have hlocks : s.Locks d (.new (raw.compiled batches)) :=
    ⟨by rw [hreg]; exact Bool.and_false _, rfl⟩
  have happlied : s.apply_diffs tick [d] = (.ok (), _) :=
    (ArrowStore.apply_single hsim (by rw [hname]; exact hstored) hlocks).2
      ⟨_, by rw [hreg]; exact hrun, rfl⟩
  refine ⟨_, _, happlied, by rw [hname, ArrowStore.tables_set_table, if_pos rfl], ?_⟩
  have hversions : OfSchema schema (raw.compiled batches).versions :=
    OfSchema.insert (fun _ _ hnone => by simp at hnone) (h.schemas hbatches hschema)
  exact hversions.step hresolves hrun

theorem delivered_iff (hlifecycle : s.lifecycle = .new .new)
    (hreg : s.type_registry = .new default_type_registry)
    (hbatches : ContentCompiler.build_batches raw = .ok batches)
    (hstored : s.tables[raw.spec.name]? = some (.new (raw.compiled batches))) :
    raw.Delivered parse s ↔ raw.Plain := by
  have hget : s.get_table raw.spec.name = .ok (raw.compiled batches) := by
    unfold ArrowStore.get_table
    rw [hstored]
    rfl
  constructor
  · rintro ⟨schema, ids, t, hschema, ht, haddressed, -⟩
    obtain rfl := Except.ok.inj (hget.symm.trans ht)
    exact plain_of_addressed hbatches hschema haddressed
  · intro h
    obtain ⟨schema, hschema, -⟩ := spec_schema_built_in h.built_in
    refine ⟨schema, id, _, hschema, hget, ⟨fun b hb => ?_, ?_, ?_⟩, ?_⟩
    · rw [batches_compiled] at hb
      exact h.schemas hbatches hschema b hb
    · exact fun i _ hi => absurd hi (h.no_row i)
    · exact fun i hi => absurd hi (h.no_row i)
    · rw [ArrowStore.into_simulation_eq hlifecycle]
      exact h.usable hbatches hschema ⟨rfl, rfl⟩ hreg hstored

/-! ## The theorem -/

/-- What the compiler returns is delivered as promised exactly where one of its own checks
refuses the input, or no table has a row, and none of them will have rows of another
type. -/
theorem ContentCompiler.compile_delivers_iff [ContentText] {input : CompilationInput}
    (parse : DataType → String → Cell) :
    (∀ output, compile input = .ok output → ∀ raw ∈ input.tables, raw.Delivered parse output.store)
      ↔ (Compilable input → ∀ raw ∈ input.tables, raw.Plain) := by
  have hone : ∀ output, compile input = .ok output → ∀ raw ∈ input.tables,
      (raw.Delivered parse output.store ↔ raw.Plain) := by
    intro output hcompile raw hraw
    obtain ⟨-, houtput⟩ := compile_ok hcompile
    obtain ⟨batches, hbatches, hstored⟩ := houtput.stored raw hraw
    exact delivered_iff houtput.lifecycle houtput.type_registry hbatches hstored
  constructor
  · intro hdelivered hinput raw hraw
    obtain ⟨output, hcompile⟩ := exists_output hinput
    exact (hone output hcompile raw hraw).1 (hdelivered output hcompile raw hraw)
  · intro hplain output hcompile raw hraw
    exact (hone output hcompile raw hraw).2 (hplain (compile_ok hcompile).1 raw hraw)

end Rows

/-! ## One row -/

section Items

attribute [local instance] plain_text quoted_text

/-- The table of items with one row, whose id is a number. -/
def one_number : RawTableDef :=
  { raw_items "i64" with rows := (∅ : Map String (List String)).insert "id" ["1"] }

def one_number_input : CompilationInput :=
  { tables := [one_number], resolver := .new, migrated_manifest := none }

/-- A parser that is right about the one string there is. -/
def parse_one : DataType → String → Cell
  | .Int64, _ => .Int64 1
  | _, value => .Utf8 value

/-- It compiles. The number is stored as a string, and the row cannot be deleted. -/
theorem number_row_lost :
    ¬ (∀ output, ContentCompiler.compile one_number_input = .ok output →
        ∀ raw ∈ one_number_input.tables, raw.Delivered parse_one output.store)
      ∧ ((ContentCompiler.compile one_number_input).toOption.map fun output =>
          (output.store.get_table_batches "items" 0).map fun bs => bs.map fun b => b.row 0)
        = some (.ok [[.Utf8 "1"]])
      ∧ ((ContentCompiler.compile one_number_input).toOption.map fun output =>
          (output.store.into_simulation.2.apply_diffs 1 [.Delete "items" 0]).1)
        = some (.error (.Generic
          "row not found in position map for delete: table=items, row_id=0")) := by
  refine ⟨fun hdelivered => ?_, by decide +kernel, by decide +kernel⟩
  have hsome : (ContentCompiler.compile one_number_input).toOption.isSome = true := by
    decide +kernel
  rcases hcompile : ContentCompiler.compile one_number_input with e | output
  · simp [hcompile, Except.toOption] at hsome
  · have hmem : one_number ∈ one_number_input.tables := List.mem_singleton_self _
    obtain ⟨-, houtput⟩ := ContentCompiler.compile_ok hcompile
    obtain ⟨batches, hbatches, hstored⟩ := houtput.stored one_number hmem
    have hplain := (delivered_iff houtput.lifecycle houtput.type_registry hbatches hstored).1
      (hdelivered output hcompile one_number hmem)
    refine hplain.no_row 0 ⟨.new "id" .Id "i64", List.mem_singleton_self _, ["1"], ?_, by decide⟩
    decide +kernel

end Items

end Scharnhorst
