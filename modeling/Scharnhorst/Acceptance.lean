/-
Which diffs the store takes.

`Accepts` is what one expects of a table with typed columns and a key. The store checks
it in four places, one for each kind of diff, and they do not agree. An update of a column
that the spec does not have is refused; an insert or a replace reads the columns of the
spec out of the row, and a value under any other name is dropped without a word. A replace
takes its schema from the first of its rows, so it cannot make a table empty. And a table
without columns has no row that a batch could be built of. `Misjudges` collects these, and
on every other diff the store and `Accepts` agree.

The rest is about runs. Which ids are live is written in the position map, so the two agree
for as long as the map does, whatever the ticks. A failed call may leave entries of rows
that are not there, and a truncation may take rows away and leave their entries.
-/
import Scharnhorst.Settled

set_option autoImplicit false

namespace Scharnhorst

open Attempt Maps

section Acceptance

variable [Render]

/-! ## What a table should accept -/

/-- The row names columns of the schema only. -/
def Names (schema : Schema) (values : JsonMap) : Prop :=
  ∀ k ∈ values, ∃ f ∈ schema.fields, f.name = k

/-- The rows have distinct keys, if there is a key column. -/
def DistinctKeys (pk_name : Option String) (rows : List JsonMap) : Prop :=
  ∀ pk, pk_name = some pk → ∃ ids : List RowId,
    rows.map (fun row => row[pk]?.bind json_value_to_u64) = ids.map some ∧ ids.Nodup

/-- A diff that is legal for a table with these columns, this key and these live rows. -/
def Accepts (schema : Schema) (pk_name : Option String) (live : Set RowId) : Diff → Prop
  | .Update _ row column value =>
    row ∈ live ∧ ∃ c f, schema.column column = some (c, f) ∧ Fits f value
  | .Insert _ row values => row ∉ live ∧ Names schema values ∧ RowFits schema values
  | .Delete _ row => row ∈ live
  | .ReplaceTable _ rows =>
    (∀ row ∈ rows, Names schema row ∧ RowFits schema row) ∧ DistinctKeys pk_name rows

/-- A diff that the store takes and should not, or should take and does not. -/
def Misjudges (schema : Schema) (pk_name : Option String) (live : Set RowId) : Diff → Prop
  | .Update _ _ _ _ | .Delete _ _ => False
  | .Insert _ row values =>
    row ∉ live ∧ RowFits schema values ∧ (Names schema values ↔ schema.fields = [])
  | .ReplaceTable _ rows =>
    (∀ row ∈ rows, RowFits schema row) ∧ DistinctKeys pk_name rows
      ∧ ((∀ row ∈ rows, Names schema row) ↔ rows = [] ∨ schema.fields = [])

/-! ## What it does accept -/

/-- What the four appliers ask for between them. -/
def Takes (schema : Schema) (pk_name : Option String) (live : Set RowId) : Diff → Prop
  | .Update _ row column value =>
    row ∈ live ∧ ∃ c f, schema.column column = some (c, f) ∧ Fits f value
  | .Insert _ row values => row ∉ live ∧ schema.fields ≠ [] ∧ RowFits schema values
  | .Delete _ row => row ∈ live
  | .ReplaceTable _ rows =>
    rows ≠ [] ∧ schema.fields ≠ [] ∧ (∀ row ∈ rows, RowFits schema row)
      ∧ DistinctKeys pk_name rows

theorem takes_iff_accepts {schema : Schema} {pk_name : Option String} {live : Set RowId}
    (d : Diff) :
    (Takes schema pk_name live d ↔ Accepts schema pk_name live d)
      ↔ ¬ Misjudges schema pk_name live d := by
  cases d with
  | Update name row column value => simp [Takes, Accepts, Misjudges]
  | Delete name row => simp [Takes, Accepts, Misjudges]
  | Insert name row values =>
      simp only [Takes, Accepts, Misjudges]
      by_cases hlegal : row ∉ live ∧ RowFits schema values
      · simp only [hlegal.1, hlegal.2, not_false_eq_true, true_and, and_true]
        by_cases hn : Names schema values <;> by_cases hf : schema.fields = [] <;> simp [hn, hf]
      · constructor
        · rintro - ⟨hrow, hfits, -⟩
          exact hlegal ⟨hrow, hfits⟩
        · intro _
          exact ⟨fun h => absurd ⟨h.1, h.2.2⟩ hlegal, fun h => absurd ⟨h.1, h.2.2⟩ hlegal⟩
  | ReplaceTable name rows =>
      simp only [Takes, Accepts, Misjudges, forall_and]
      by_cases hlegal : (∀ row ∈ rows, RowFits schema row) ∧ DistinctKeys pk_name rows
      · obtain ⟨hfits, hkeys⟩ := hlegal
        by_cases hn : ∀ row ∈ rows, Names schema row <;> by_cases hr : rows = [] <;>
          by_cases hf : schema.fields = [] <;> simp_all
      · constructor
        · rintro - ⟨hfits, hkeys, -⟩
          exact hlegal ⟨hfits, hkeys⟩
        · intro _
          refine ⟨fun h => absurd ⟨h.2.2.1, h.2.2.2⟩ hlegal, fun ⟨h, hkeys⟩ => ?_⟩
          exact absurd ⟨h.2, hkeys⟩ hlegal

/-! ## The loop over the rows of a replace -/

theorem exists_replace_row {table_name : String} {pk_name : Option String} {schema : Schema}
    {pm : RowPositionMap} {bs : List RecordBatch} {row : JsonMap} {i : Nat} :
    (∃ s', replace_row table_name pk_name schema (pm, bs) (row, i) = (.ok (), s'))
      ↔ ∃ id batch, row_key pk_name i row = some id
        ∧ (pk_name.isSome → pm.position_of id = none)
        ∧ json_map_to_record_batch row schema = .ok batch := by
  constructor
  · rintro ⟨s', h⟩
    obtain ⟨id, batch, hkey, hnew, hbatch, -⟩ := replace_row_ok h
    exact ⟨id, batch, hkey, hnew, hbatch⟩
  · rintro ⟨id, batch, hkey, hnew, hbatch⟩
    have hid : replace_row_id table_name pk_name pm i row = .ok id := by
      unfold replace_row_id
      rcases pk_name with _ | pk
      · simpa [row_key] using hkey
      · obtain ⟨value, hvalue, hu64⟩ := Option.bind_eq_some_iff.1 hkey
        have hfree := (RowPositionMap.contains_eq_false pm id).2 (hnew rfl)
        simp [hvalue, hu64, hfree]
    exact ⟨_, by simp only [replace_row, hid, hbatch]; rfl⟩

/-- The keys that the rows still to come ask for are distinct and not taken. -/
def KeysFree (pk_name : Option String) (pm : RowPositionMap) (rows : List JsonMap) : Prop :=
  ∀ pk, pk_name = some pk → ∃ ids : List RowId,
    rows.map (fun row => row[pk]?.bind json_value_to_u64) = ids.map some ∧ ids.Nodup
      ∧ ∀ id ∈ ids, pm.position_of id = none

omit [Render] in
theorem keys_free_new {pk_name : Option String} {rows : List JsonMap} :
    KeysFree pk_name .new rows ↔ DistinctKeys pk_name rows := by
  simp [KeysFree, DistinctKeys]

omit [Render] in
theorem keys_free_cons {pk_name : Option String} {pm : RowPositionMap} {row : JsonMap}
    {rows : List JsonMap} {i : Nat} :
    KeysFree pk_name pm (row :: rows)
      ↔ ∃ id, row_key pk_name i row = some id ∧ (pk_name.isSome → pm.position_of id = none)
        ∧ KeysFree pk_name (pm.insert id i 0) rows := by
  rcases pk_name with _ | pk
  · simp [KeysFree, row_key]
  simp only [KeysFree, row_key, Option.some.injEq, forall_eq', Option.isSome_some, forall_const]
  constructor
  · rintro ⟨ids, hids, hnodup, hfree⟩
    rcases ids with _ | ⟨id, ids⟩
    · simp at hids
    rw [List.map_cons, List.map_cons, List.cons.injEq] at hids
    obtain ⟨hnew, hnodup'⟩ := List.nodup_cons.1 hnodup
    refine ⟨id, hids.1, hfree id List.mem_cons_self, ids, hids.2, hnodup', fun id' hid' => ?_⟩
    have hne : id ≠ id' := fun heq => hnew (by rwa [heq])
    rw [RowPositionMap.position_of_insert, if_neg hne]
    exact hfree id' (List.mem_cons_of_mem _ hid')
  · rintro ⟨id, hkey, hfree, ids, hids, hnodup, hrest⟩
    have hother : ∀ id' ∈ ids, id ≠ id' ∧ pm.position_of id' = none := by
      intro id' hid'
      have hpos := hrest id' hid'
      rw [RowPositionMap.position_of_insert] at hpos
      split at hpos
      · cases hpos
      · rename_i hne
        exact ⟨hne, hpos⟩
    refine ⟨id :: ids, by rw [List.map_cons, List.map_cons, hkey, hids], ?_, ?_⟩
    · exact List.nodup_cons.2 ⟨fun hin => (hother id hin).1 rfl, hnodup⟩
    · rintro id' hid'
      rcases List.mem_cons.1 hid' with rfl | hin
      · exact hfree
      · exact (hother id' hin).2

/-- The loop runs through if every row can be built and the keys are distinct. -/
theorem exists_replace_rows {table_name : String} {pk_name : Option String} {schema : Schema}
    {rows : List JsonMap} {pm : RowPositionMap} {bs : List RecordBatch} {n : Nat} :
    (∃ s', forEach (replace_row table_name pk_name schema) (pm, bs) (rows.zipIdx n) = (.ok (), s'))
      ↔ (∀ row ∈ rows, ∃ b, json_map_to_record_batch row schema = .ok b)
        ∧ KeysFree pk_name pm rows := by
  induction rows generalizing pm bs n with
  | nil => simp [KeysFree]
  | cons row rows ih =>
      rw [List.zipIdx_cons, List.forall_mem_cons, keys_free_cons (i := n)]
      constructor
      · rintro ⟨s', h⟩
        obtain ⟨mid, hrow, hrest⟩ := forEach_cons_ok.1 h
        obtain ⟨id, batch, hkey, hnew, hbatch, rfl⟩ := replace_row_ok hrow
        obtain ⟨hbuilt, hfree⟩ := ih.1 ⟨s', hrest⟩
        exact ⟨⟨⟨batch, hbatch⟩, hbuilt⟩, id, hkey, hnew, hfree⟩
      · rintro ⟨⟨⟨batch, hbatch⟩, hbuilt⟩, id, hkey, hnew, hfree⟩
        obtain ⟨mid, hrow⟩ := exists_replace_row.2 ⟨id, batch, hkey, hnew, hbatch⟩
        obtain ⟨id', batch', hkey', -, -, rfl⟩ := replace_row_ok hrow
        obtain rfl : id = id' := Option.some.inj (hkey.symm.trans hkey')
        obtain ⟨s', hrest⟩ := ih.2 ⟨hbuilt, hfree⟩
        exact ⟨s', forEach_cons_ok.2 ⟨_, hrow, hrest⟩⟩

/-! ## One diff on a settled table -/

/-- The types that the store can patch. -/
def Known (schema : Schema) : Prop := ∀ f ∈ schema.fields, ∀ name, f.data_type ≠ .Other name

/-- The schema that the store resolves for the table, whatever the row. -/
def Resolves (reg : TypeRegistry) (t : VersionedTable) (schema : Schema) : Prop :=
  ∀ values, resolve_table_schema t values reg = .ok (some schema)

omit [Render] in
theorem column_eq_some {schema : Schema} {column : String} {c : Nat} {f : Field} :
    schema.column column = some (c, f)
      ↔ schema.index_of column = some c ∧ schema.fields[c]? = some f := by
  simp only [Schema.column, Option.bind_eq_some_iff, Option.map_eq_some_iff, Prod.mk.injEq]
  constructor
  · rintro ⟨c', hc, f', hf, rfl, rfl⟩
    exact ⟨hc, hf⟩
  · rintro ⟨hc, hf⟩
    exact ⟨c, hc, f, hf, rfl, rfl⟩

variable {reg : TypeRegistry} {schema : Schema} {live : Set RowId} {t : VersionedTable}
  {tick : Tick}

variable (tick) in
theorem Settled.takes_update (h : Settled schema live t) (hknown : Known schema) (name : String)
    (row : RowId) (column : String) (value : Json) :
    (apply_update_to_table t name tick row column value).1 = .ok ()
      ↔ row ∈ live ∧ ∃ c f, schema.column column = some (c, f) ∧ Fits f value := by
  by_cases hlive : row ∈ live
  · obtain ⟨loc, batch, hloc, hzero, hne, hone⟩ := h.locate hlive
    have hbatch : (∃ patched, update_batch name batch 0 column value = .ok patched) ↔ _ :=
      exists_update_batch hone ⟨hne, hknown⟩
    simp only [hlive, true_and, column_eq_some, and_assoc, ← hbatch]
    rw [apply_update_of_locate hloc, hzero]
    rcases update_batch name batch 0 column value with e | patched <;> simp
  · obtain ⟨e, -, he⟩ := apply_update_of_not_located (h.not_located hlive) name tick column value
    simp [he, hlive]

variable (tick) in
omit [Render] in
theorem Settled.takes_delete (h : Settled schema live t) (hknown : Known schema) (name : String)
    (row : RowId) : (apply_delete_to_table t name tick row).1 = .ok () ↔ row ∈ live := by
  by_cases hlive : row ∈ live
  · obtain ⟨loc, batch, hloc, hzero, hne, hone⟩ := h.locate hlive
    obtain ⟨patched, hp⟩ := exists_delete_batch hone ⟨hne, hknown⟩
    rw [apply_delete_of_locate hloc, hzero, hp]
    simp [hlive]
  · obtain ⟨e, -, he⟩ := apply_delete_of_not_located (h.not_located hlive) name tick
    simp [he, hlive]

theorem takes_insert {row : RowId} (hlive : row ∈ live ↔ (t.position_map.position_of row).isSome)
    (hschema : Resolves reg t schema) (name : String) (values : JsonMap) :
    (apply_insert_to_table t name tick row values reg).1 = .ok ()
      ↔ row ∉ live ∧ schema.fields ≠ [] ∧ RowFits schema values := by
  rw [← exists_row, hlive, ← RowPositionMap.contains_eq_isSome]
  unfold apply_insert_to_table
  rw [hschema values]
  dsimp only
  rcases t.position_map.contains row with _ | _
  · rcases json_map_to_record_batch values schema with e | batch <;> simp
  · simp

theorem takes_replace (hschema : Resolves reg t schema) (name : String) (rows : List JsonMap) :
    (apply_replace_to_table t name tick rows reg).1 = .ok ()
      ↔ rows ≠ [] ∧ schema.fields ≠ [] ∧ (∀ row ∈ rows, RowFits schema row)
        ∧ DistinctKeys (pk_col_name t) rows := by
  rcases rows with _ | ⟨row, rows⟩
  · simp [apply_replace_to_table, replace_schema]
  have hresolved : replace_schema t (row :: rows) reg = some schema := by
    simp [replace_schema, resolve_table_schema_from_map, hschema row, Except.toOption]
  have hloop : (∃ s', forEach (replace_row name (pk_col_name t) schema) (.new, [])
      (row :: rows).zipIdx = (.ok (), s')) ↔ _ := exists_replace_rows
  rw [keys_free_new] at hloop
  -- a row can be built only if there are fields, and there is a row
  have hbuilt : (∀ r ∈ row :: rows, ∃ b, json_map_to_record_batch r schema = .ok b)
      ↔ schema.fields ≠ [] ∧ ∀ r ∈ row :: rows, RowFits schema r := by
    constructor
    · intro hall
      exact ⟨(exists_row.1 (hall row List.mem_cons_self)).1,
        fun r hr => (exists_row.1 (hall r hr)).2⟩
    · rintro ⟨hne, hfits⟩ r hr
      exact exists_row.2 ⟨hne, hfits r hr⟩
  rw [hbuilt, and_assoc] at hloop
  rw [← hloop]
  unfold apply_replace_to_table
  rw [hresolved]
  dsimp only
  rcases forEach (replace_row name (pk_col_name t) schema) (.new, []) (row :: rows).zipIdx with
    ⟨_ | _, pm, batches⟩ <;> simp

variable (tick) in
/-- A settled table takes a diff exactly when the diff asks for nothing it does not
have. -/
theorem Settled.takes_iff (h : Settled schema live t) (hschema : Resolves reg t schema)
    (hknown : Known schema) (d : Diff) :
    (apply_to_table reg tick d t).1 = .ok () ↔ Takes schema (pk_col_name t) live d := by
  cases d with
  | Update name row column value => exact h.takes_update tick hknown name row column value
  | Insert name row values => exact takes_insert (h.live_iff row) hschema name values
  | Delete name row => exact h.takes_delete tick hknown name row
  | ReplaceTable name rows => exact takes_replace hschema name rows

end Acceptance

/-! ## Stores of built-in types -/

/-- The storage types that the store knows from the start. -/
def built_in_types : List (String × DataType) :=
  [("i64", .Int64), ("i32", .Int32), ("u64", .UInt64), ("f64", .Float64), ("utf8", .Utf8),
    ("large_utf8", .LargeUtf8), ("bool", .Boolean)]

theorem resolves_iff {name : String} {dt : DataType} :
    default_type_registry.resolve_data_type name = .ok dt ↔ (name, dt) ∈ built_in_types := by
  constructor
  · intro h
    simp only [TypeRegistry.resolve_data_type, default_type_registry, TypeRegistry.register,
      Std.ExtTreeMap.getElem?_insert] at h
    split at h
    · rename_i found hfound
      obtain rfl := Except.ok.inj h
      repeat' split at hfound
      all_goals simp_all [built_in_types]
    · cases h
  · simp only [built_in_types, List.mem_cons, Prod.mk.injEq, List.not_mem_nil, or_false]
    rintro (⟨rfl, rfl⟩ | ⟨rfl, rfl⟩ | ⟨rfl, rfl⟩ | ⟨rfl, rfl⟩ | ⟨rfl, rfl⟩ | ⟨rfl, rfl⟩ | ⟨rfl, rfl⟩) <;>
      decide +kernel

/-- The columns have these types. -/
def TableSpec.BuiltIn (spec : TableSpec) : Prop :=
  ∀ col ∈ spec.columns, col.storage_type ∈ built_in_types.map Prod.fst

theorem TableSpec.BuiltIn.resolves {spec : TableSpec} (h : spec.BuiltIn) {col : ColumnSpec}
    (hcol : col ∈ spec.columns) :
    ∃ dt, default_type_registry.resolve_data_type col.storage_type = .ok dt
      ∧ ∀ other, dt ≠ .Other other := by
  obtain ⟨⟨name, dt⟩, hmem, hname⟩ := List.mem_map.1 (h col hcol)
  refine ⟨dt, resolves_iff.2 (hname ▸ hmem), ?_⟩
  have hall : ∀ p ∈ built_in_types, ∀ other, p.2 ≠ .Other other := by simp [built_in_types]
  exact hall (name, dt) hmem

/-- Such a spec has a schema, and every row of it can be patched. -/
theorem spec_schema_built_in {spec : TableSpec} (h : spec.BuiltIn) :
    ∃ schema, spec_schema spec default_type_registry = .ok schema ∧ Known schema := by
  have hfield : ∀ col ∈ spec.columns, ∃ f : Field, (do
      let dt ← default_type_registry.resolve_data_type col.storage_type
      return ({ name := col.name, data_type := dt, nullable := col.nullable } : Field)) = .ok f := by
    intro col hcol
    obtain ⟨dt, hdt, -⟩ := h.resolves hcol
    exact ⟨_, by rw [hdt]; rfl⟩
  obtain ⟨fields, hfields⟩ := exists_mapM.2 hfield
  refine ⟨{ fields }, by unfold spec_schema; rw [hfields]; rfl, ?_⟩
  refine mapM_ok_forall_mem hfields fun col f hcol hf => ?_
  obtain ⟨dt, hdt, hother⟩ := h.resolves hcol
  rw [hdt] at hf
  obtain rfl := Except.ok.inj hf
  exact hother

/-- The spec that a list of specs gives a table: the first of its name. -/
def spec_of (specs : List (TableSpec × MutationMode)) (n : String) : Option TableSpec :=
  (specs.find? fun e => e.1.name = n).map Prod.fst

/-- The name of the key column. -/
def TableSpec.key (spec : TableSpec) : Option String := spec.primary_key_column.map ColumnSpec.name

/-- The store with a table for each spec, in simulation. -/
def ArrowStore.built (specs : List (TableSpec × MutationMode)) : ArrowStore :=
  (specs.foldl (fun s e => (s.create_table e.1 e.2).2) ArrowStore.new).into_simulation.2

/-- The store while the tables are created. -/
structure Creating (done : List (TableSpec × MutationMode)) (s : ArrowStore) : Prop where
  lifecycle : s.lifecycle = .new .new
  create_drop_lock : s.create_drop_lock = .new ()
  type_registry : s.type_registry = .new default_type_registry
  tables : ∀ n : String, s.tables[n]? = (done.find? fun e => e.1.name = n).map fun e =>
    .new ((VersionedTable.new n e.2).set_spec e.1)

theorem Creating.create {done : List (TableSpec × MutationMode)} {s : ArrowStore}
    (h : Creating done s) (e : TableSpec × MutationMode) :
    Creating (done ++ [e]) (s.create_table e.1 e.2).2 := by
  by_cases hnew : e.1.name ∈ s.tables
  · -- the name is taken, and so is its place in the list
    have hcontains : s.tables.contains e.1.name = true := Std.ExtTreeMap.contains_iff_mem.2 hnew
    have hdrop : s.create_drop_lock.read_store = .ok () := by
      rw [h.create_drop_lock]
      rfl
    have hsame : (s.create_table e.1 e.2).2 = s := by
      unfold ArrowStore.create_table
      rw [ArrowStore.check_init_new h.lifecycle]
      simp only [bind, Except.bind, hdrop, hcontains, if_true]
    rw [hsame]
    refine ⟨h.lifecycle, h.create_drop_lock, h.type_registry, fun n => ?_⟩
    rw [h.tables n, List.find?_append]
    rcases hfind : done.find? fun e => e.1.name = n with _ | e'
    · have hne : e.1.name ≠ n := by
        rintro rfl
        have hnone := h.tables e.1.name
        rw [hfind, Option.map_none] at hnone
        rw [Std.ExtTreeMap.mem_iff_isSome_getElem?, hnone] at hnew
        cases hnew
      simp [hne]
    · simp [hfind]
  · rw [ArrowStore.create_table_eq h.lifecycle h.create_drop_lock hnew]
    refine ⟨h.lifecycle, h.create_drop_lock, h.type_registry, fun n => ?_⟩
    rw [ArrowStore.with_created, Std.ExtTreeMap.getElem?_insert, List.find?_append, h.tables n]
    by_cases hn : e.1.name = n
    · subst hn
      have hnone := Std.ExtTreeMap.getElem?_eq_none hnew
      rw [h.tables, Option.map_eq_none_iff] at hnone
      simp [hnone]
    · simp [hn]

theorem Creating.run {done es : List (TableSpec × MutationMode)} {s : ArrowStore}
    (h : Creating done s) :
    Creating (done ++ es) (es.foldl (fun s e => (s.create_table e.1 e.2).2) s) := by
  induction es generalizing done s with
  | nil => simpa using h
  | cons e es ih =>
      have hrest := ih (h.create e)
      rwa [List.append_assoc] at hrest

/-! ## Runs -/

/-- What is done to a store in simulation. -/
inductive StoreOp where
  | ApplyDiffs (tick : Tick) (diffs : List Diff)
  | GenerateSnapshot (tick : Tick)
  | TruncateBefore (tick : Tick)
  | PatchRows (name : String) (tick : Tick) (locations : List RowLocation) (batch : RecordBatch)

section Runs

variable [Render]

/-- The store after an operation, whatever its verdict. -/
def ArrowStore.perform (s : ArrowStore) : StoreOp → ArrowStore
  | .ApplyDiffs tick diffs => (s.apply_diffs tick diffs).2
  | .GenerateSnapshot tick => (s.generate_snapshot tick).2
  | .TruncateBefore tick => (s.truncate_before tick).2
  | .PatchRows name tick locations batch => (s.patch_rows name tick locations batch).2

/-- The live ids of every table. -/
abbrev LiveIds := String → Set RowId

omit [Render] in
/-- The live ids after a diff. -/
def live_diff (specs : List (TableSpec × MutationMode)) (live : LiveIds) (d : Diff) : LiveIds :=
  Function.update live d.table
    (live_step ((spec_of specs d.table).bind TableSpec.key) (live d.table) d)

/-- The live ids after an operation: those of a commit that went through, and as they were
after anything else. -/
def live_op (specs : List (TableSpec × MutationMode)) (s : ArrowStore) (live : LiveIds) :
    StoreOp → LiveIds
  | .ApplyDiffs tick diffs =>
    match (s.apply_diffs tick diffs).1 with
    | .ok () => diffs.foldl (live_diff specs) live
    | .error _ => live
  | .GenerateSnapshot _ | .TruncateBefore _ | .PatchRows _ _ _ _ => live

/-- An operation that leaves the position maps and the batches of a store together: a
commit that goes through, or books nothing that the batches it found do not have; a
truncation that drops no tick a row is found at; a patch with a column for every column it
is put into. -/
def CleanOp (s : ArrowStore) : StoreOp → Prop
  | .ApplyDiffs tick diffs => (s.apply_diffs tick diffs).1 ≠ .ok () →
    ∀ (n : String) (lock : RwLock VersionedTable), s.tables[n]? = some lock →
      EntriesStay tick lock.data (ArrowStore.diffs_of n (processed tick s diffs))
  | .GenerateSnapshot _ => True
  | .TruncateBefore tick => LiveStays tick s
  | .PatchRows name tick _ batch => ∀ lock : RwLock VersionedTable, s.tables[name]? = some lock →
    ∀ b ∈ lock.data.batches tick, b.columns.length ≤ batch.columns.length

/-- The stores that a run of clean operations reaches from the built one, with their live
ids. -/
inductive Reached (specs : List (TableSpec × MutationMode)) : ArrowStore → LiveIds → Prop
  | built : Reached specs (.built specs) fun _ => ∅
  | step {s : ArrowStore} {live : LiveIds} (op : StoreOp) (before : Reached specs s live)
      (clean : CleanOp s op) : Reached specs (s.perform op) (live_op specs s live op)

/-- The tables are those of the specs, and settled. -/
structure Ready (specs : List (TableSpec × MutationMode)) (live : LiveIds) (s : ArrowStore) :
    Prop where
  simulating : s.InSimulation
  type_registry : s.type_registry = .new default_type_registry
  spec_eq : ∀ n : String, (s.tables[n]?.map fun lock => lock.data.spec) = (spec_of specs n).map some
  settled : ∀ (n : String) (lock : RwLock VersionedTable), s.tables[n]? = some lock →
    lock.poisoned = false
      ∧ Settled (table_schema default_type_registry lock.data) (live n) lock.data

variable {specs : List (TableSpec × MutationMode)} {live : LiveIds} {s s' : ArrowStore}

omit [Render] in
theorem Ready.spec (h : Ready specs live s) {n : String} {lock : RwLock VersionedTable}
    (hlock : s.tables[n]? = some lock) :
    ∃ spec, spec_of specs n = some spec ∧ lock.data.spec = some spec := by
  have hspec := h.spec_eq n
  rw [hlock, Option.map_some, eq_comm, Option.map_eq_some_iff] at hspec
  obtain ⟨spec, hof, heq⟩ := hspec
  exact ⟨spec, hof, heq.symm⟩

omit [Render] in
theorem Ready.key_eq (h : Ready specs live s) {n : String} {lock : RwLock VersionedTable}
    (hlock : s.tables[n]? = some lock) :
    pk_col_name lock.data = (spec_of specs n).bind TableSpec.key := by
  obtain ⟨spec, hof, hspec⟩ := h.spec hlock
  rw [pk_col_name, hspec, hof]
  rfl

omit [Render] in
theorem ready_built : Ready specs (fun _ => ∅) (.built specs) := by
  have hnew : Creating [] .new := ⟨rfl, rfl, rfl, fun n => by simp [ArrowStore.new]⟩
  have h : Creating ([] ++ specs) _ := hnew.run
  rw [List.nil_append] at h
  obtain ⟨hlifecycle, -, hreg, htables⟩ := h
  have hbuilt : ArrowStore.built specs = _ :=
    congrArg Prod.snd (ArrowStore.into_simulation_eq hlifecycle)
  rw [hbuilt]
  refine ⟨⟨rfl, rfl⟩, hreg, fun n => ?_, fun n lock hlock => ?_⟩
  · rw [htables, spec_of, Option.map_map, Option.map_map]
    rfl
  · have hlock' := (htables n).symm.trans hlock
    obtain ⟨e, -, rfl⟩ := Option.map_eq_some_iff.1 hlock'
    refine ⟨rfl, fun tick bs hbs => ?_, fun r b o hpos => ?_, fun r b o hpos => ?_, fun r => ?_⟩
    · simp [RwLock.new, VersionedTable.set_spec, VersionedTable.new] at hbs
    · simp [RwLock.new, VersionedTable.set_spec, VersionedTable.new] at hpos
    · simp [RwLock.new, VersionedTable.set_spec, VersionedTable.new] at hpos
    · simp [RwLock.new, VersionedTable.set_spec, VersionedTable.new]

/-! ## What an operation preserves -/

omit [Render] in
/-- A store whose tables have changed behind their locks, with their specs kept. -/
theorem Ready.of_tables (h : Ready specs live s) {live' : LiveIds}
    (hlifecycle : s'.lifecycle = s.lifecycle) (hreg : s'.type_registry = s.type_registry)
    (hnone : ∀ n : String, s.tables[n]? = none → s'.tables[n]? = none)
    (hsome : ∀ (n : String) (lock : RwLock VersionedTable), s.tables[n]? = some lock →
      ∃ t', s'.tables[n]? = some { lock with data := t' } ∧ t'.spec = lock.data.spec
        ∧ Settled (table_schema default_type_registry lock.data) (live' n) t') :
    Ready specs live' s' := by
  refine ⟨?_, hreg.trans h.type_registry, fun n => ?_, fun n lock' hlock' => ?_⟩
  · rw [ArrowStore.InSimulation, hlifecycle]
    exact h.simulating
  · rw [← h.spec_eq n]
    rcases hn : s.tables[n]? with _ | lock
    · rw [hnone n hn]
    · obtain ⟨t', ht', hspec, -⟩ := hsome n lock hn
      rw [ht', Option.map_some, Option.map_some, hspec]
  · rcases hn : s.tables[n]? with _ | lock
    · rw [hnone n hn] at hlock'
      cases hlock'
    · obtain ⟨t', ht', hspec, hsettled⟩ := hsome n lock hn
      obtain rfl := Option.some.inj (ht'.symm.trans hlock')
      refine ⟨(h.settled n lock hn).1, ?_⟩
      rwa [table_schema, hspec]

theorem Ready.apply_diff {tick : Tick} {d : Diff} (h : Ready specs live s)
    (hd : ArrowStore.apply_diff tick s d = (.ok (), s')) :
    Ready specs (live_diff specs live d) s' := by
  obtain ⟨lock, t', hlock, hp, hrun, rfl⟩ := ArrowStore.apply_diff_ok hd
  replace hrun : apply_to_table default_type_registry tick d lock.data = (.ok (), t') := by
    rw [h.type_registry] at hrun
    exact hrun
  refine h.of_tables rfl rfl (fun n hn => ?_) fun n lock' hlock' => ?_
  · rw [ArrowStore.tables_set_table, if_neg, hn]
    rintro rfl
    simp [hlock] at hn
  · have hsettled := (h.settled n lock' hlock').2
    rw [ArrowStore.tables_set_table]
    by_cases hn : d.table = n
    · subst hn
      obtain rfl : lock = lock' := Option.some.inj (hlock.symm.trans hlock')
      obtain ⟨spec, -, hspec⟩ := h.spec hlock
      have hsetup := apply_to_table_setup default_type_registry tick d lock.data
      rw [hrun] at hsetup
      have hstep := hsettled.step (by rw [hspec]; rfl) rfl hrun
      rw [h.key_eq hlock] at hstep
      refine ⟨t', by simp [RwLock.new, hp], hsetup.spec, ?_⟩
      rwa [live_diff, Function.update_self]
    · refine ⟨lock'.data, by rw [if_neg hn, hlock'], rfl, ?_⟩
      rwa [live_diff, Function.update_of_ne (Ne.symm hn)]

/-- A commit, whether it goes through or not. -/
theorem Ready.apply_diffs {tick : Tick} {ds : List Diff} (h : Ready specs live s)
    (hclean : CleanOp s (.ApplyDiffs tick ds)) :
    Ready specs (live_op specs s live (.ApplyDiffs tick ds)) (s.apply_diffs tick ds).2 := by
  have hsame := apply_diffs_same s tick ds
  rcases hcall : s.apply_diffs tick ds with ⟨e | ⟨⟨⟩⟩, s'⟩
  · -- the batches go back, and the entries lead into them
    rw [hcall] at hsame
    simp only [live_op, hcall]
    have hhealthy : s.Healthy (ds.map Diff.table) := fun n _ lock hlock => (h.settled n lock hlock).1
    have hfailed := fun n => apply_diffs_failed hcall h.simulating hhealthy n
    refine h.of_tables hsame.lifecycle hsame.type_registry (fun n => (hfailed n).1) ?_
    intro n lock hlock
    obtain ⟨t', ht', hbooked⟩ := (hfailed n).2 lock hlock
    refine ⟨_, ht', hbooked.setup.spec, (h.settled n lock hlock).2.put_back hbooked ?_⟩
    exact hclean (by rw [hcall]; simp) n lock hlock
  · simp only [live_op, hcall]
    obtain ⟨-, -, hrun⟩ := ArrowStore.apply_diffs_ok.1 hcall
    have hstep : ∀ s live d s', Ready specs live s → True →
        ArrowStore.apply_diff tick s d = (.ok (), s') → Ready specs (live_diff specs live d) s' :=
      fun _ _ _ _ hready _ hd => hready.apply_diff hd
    exact forEach_simulates hstep h (guarded_true s ds) hrun

omit [Render] in
theorem generate_snapshot_frame (s : ArrowStore) (tick : Tick) :
    (s.generate_snapshot tick).2.tables = s.tables
      ∧ (s.generate_snapshot tick).2.lifecycle = s.lifecycle
      ∧ (s.generate_snapshot tick).2.type_registry = s.type_registry := by
  unfold ArrowStore.generate_snapshot ArrowStore.do_generate_snapshot
  split
  · exact ⟨rfl, rfl, rfl⟩
  · dsimp only
    split <;> exact ⟨rfl, rfl, rfl⟩

omit [Render] in
/-- A patch with enough columns does not unwind. -/
theorem apply_patch_returns {t : VersionedTable} {name : String} {tick : Tick}
    {locations : List RowLocation} {batch : RecordBatch}
    (hcolumns : ∀ b ∈ t.batches tick, b.columns.length ≤ batch.columns.length) :
    Returns (apply_patch_to_versions t name tick locations batch).1 := by
  unfold apply_patch_to_versions
  split
  · simp [Returns]
  rcases hv : t.versions[tick]? with _ | versions
  · simp [Returns]
  dsimp only
  rcases hloop : forEach (patch_group batch) versions (group_locations locations).toList with
    ⟨e | ⟨⟨⟩⟩, vs⟩
  swap
  · simp [Returns]
  -- the loop stopped at one group; the ones before left no batch wider than the patch
  obtain ⟨pre, ⟨k, patches⟩, post, mid, -, hpre, hlast⟩ := forEach_error hloop
  rw [VersionedTable.batches_of_versions hv] at hcolumns
  have hmid : ∀ b ∈ mid, b.columns.length ≤ batch.columns.length := by
    refine forEach_ok_invariant (P := fun vs : List RecordBatch =>
      ∀ b ∈ vs, b.columns.length ≤ batch.columns.length) ?_ hcolumns hpre
    rintro vs ⟨k, patches⟩ vs' - hvs hstep
    unfold patch_group at hstep
    rcases hk : vs[k]? with _ | original
    · simp only [hk] at hstep
      obtain ⟨-, rfl⟩ := Prod.mk.inj hstep
      exact hvs
    · simp only [hk] at hstep
      split at hstep
      · cases hstep
      · rename_i patched hp
        obtain ⟨-, rfl⟩ := Prod.mk.inj hstep
        intro b hb
        rcases List.mem_or_eq_of_mem_set hb with hold | rfl
        · exact hvs b hold
        · rw [column_count_eq (patch_record_batch_spec hp).1.symm]
          exact hvs original (List.mem_of_getElem? hk)
  unfold patch_group at hlast
  rcases hk : mid[k]? with _ | original
  · simp [hk] at hlast
  · simp only [hk] at hlast
    have hreturns := patch_record_batch_returns (hmid original (List.mem_of_getElem? hk)) patches
    split at hlast
    · rename_i e' hp
      rw [hp] at hreturns
      obtain ⟨he, -⟩ := Prod.mk.inj hlast
      rw [← he]
      simpa [Returns] using hreturns
    · cases hlast

omit [Render] in
theorem Ready.patch_rows {name : String} {tick : Tick} {locations : List RowLocation}
    {batch : RecordBatch} (h : Ready specs live s)
    (hcolumns : ∀ lock : RwLock VersionedTable, s.tables[name]? = some lock →
      ∀ b ∈ lock.data.batches tick, b.columns.length ≤ batch.columns.length) :
    Ready specs live (s.patch_rows name tick locations batch).2 := by
  unfold ArrowStore.patch_rows
  rw [ArrowStore.check_commit_ok.2 h.simulating]
  dsimp only
  split
  · exact h
  rcases hlock : s.tables[name]? with _ | lock
  · rw [ArrowStore.write_table, hlock]
    exact h
  obtain ⟨hp, hsettled⟩ := h.settled name lock hlock
  rw [ArrowStore.write_table_of_some hlock (apply_patch_returns (hcolumns lock hlock)), hp,
    if_neg Bool.false_ne_true]
  refine h.of_tables rfl rfl (fun n hn => ?_) fun n lock' hlock' => ?_
  · rw [ArrowStore.tables_set_table, if_neg, hn]
    rintro rfl
    simp [hlock] at hn
  · rw [ArrowStore.tables_set_table]
    by_cases hn : name = n
    · subst hn
      obtain rfl : lock = lock' := Option.some.inj (hlock.symm.trans hlock')
      refine ⟨_, by rw [if_pos rfl, RwLock.new, ← hp], ?_, hsettled.patch⟩
      unfold apply_patch_to_versions
      split
      · rfl
      · split <;> rfl
    · exact ⟨lock'.data, by rw [if_neg hn, hlock'], rfl, (h.settled n lock' hlock').2⟩

/-- Every clean operation. -/
theorem Ready.perform (h : Ready specs live s) {op : StoreOp} (hclean : CleanOp s op) :
    Ready specs (live_op specs s live op) (s.perform op) := by
  cases op with
  | ApplyDiffs tick ds => exact h.apply_diffs hclean
  | GenerateSnapshot tick =>
      obtain ⟨htables, hlifecycle, hreg⟩ := generate_snapshot_frame s tick
      refine h.of_tables hlifecycle hreg (fun n hn => ?_) fun n lock hlock => ?_
      · rw [ArrowStore.perform, htables, hn]
      · rw [ArrowStore.perform, htables]
        exact ⟨lock.data, hlock, rfl, (h.settled n lock hlock).2⟩
  | TruncateBefore tick =>
      have hcall : s.truncate_before tick = (.ok (), s.truncated tick) :=
        ArrowStore.truncate_before_ok.2
          ⟨h.simulating, fun n lock hlock => (h.settled n lock hlock).1, rfl⟩
      rw [ArrowStore.perform, hcall]
      refine h.of_tables rfl rfl (fun n hn => ?_) fun n lock hlock => ?_
      · rw [ArrowStore.tables_truncated, hn, Option.map_none]
      · refine ⟨lock.data.truncated tick, by rw [ArrowStore.tables_truncated, hlock]; rfl, rfl, ?_⟩
        exact (h.settled n lock hlock).2.truncated (hclean n lock hlock)
  | PatchRows name tick locations batch => exact h.patch_rows hclean

theorem Reached.ready (h : Reached specs s live) : Ready specs live s := by
  induction h with
  | built => exact ready_built
  | step op _ hclean ih => exact ih.perform hclean

/-! ## The theorem -/

/-- The diff names a table, and is legal for it. -/
def Legal (specs : List (TableSpec × MutationMode)) (live : LiveIds) (d : Diff) : Prop :=
  ∃ spec schema, spec_of specs d.table = some spec
    ∧ spec_schema spec default_type_registry = .ok schema
    ∧ Accepts schema spec.key (live d.table) d

/-- The diff names a table, and is one that the store misjudges there. -/
def Misjudged (specs : List (TableSpec × MutationMode)) (live : LiveIds) (d : Diff) : Prop :=
  ∃ spec schema, spec_of specs d.table = some spec
    ∧ spec_schema spec default_type_registry = .ok schema
    ∧ Misjudges schema spec.key (live d.table) d

omit [Render] in
theorem Ready.resolves (h : Ready specs live s) {n : String} {lock : RwLock VersionedTable}
    (hlock : s.tables[n]? = some lock) {spec : TableSpec} {schema : Schema}
    (hspec : spec_of specs n = some spec)
    (hschema : spec_schema spec default_type_registry = .ok schema) :
    Resolves default_type_registry lock.data schema
      ∧ table_schema default_type_registry lock.data = schema := by
  obtain ⟨spec', hspec', hstored⟩ := h.spec hlock
  obtain rfl := Option.some.inj (hspec.symm.trans hspec')
  constructor
  · intro values
    rw [resolve_table_schema, hstored]
    simp only [hschema, Except.map]
  · rw [table_schema, hstored, Option.map_some, hschema]

/-- One diff on a ready store, by its table. -/
theorem Ready.taken_iff (h : Ready specs live s) {d : Diff} {spec : TableSpec} {schema : Schema}
    (hspec : spec_of specs d.table = some spec)
    (hschema : spec_schema spec default_type_registry = .ok schema) (hknown : Known schema)
    (tick : Tick) :
    (s.apply_diffs tick [d]).1 = .ok () ↔ Takes schema spec.key (live d.table) d := by
  obtain ⟨lock, hlock⟩ : ∃ lock, s.tables[d.table]? = some lock := by
    have hsome := h.spec_eq d.table
    rw [hspec, Option.map_some, Option.map_eq_some_iff] at hsome
    exact hsome.imp fun _ h => h.1
  obtain ⟨hp, hsettled⟩ := h.settled d.table lock hlock
  obtain ⟨hresolves, htable⟩ := h.resolves hlock hspec hschema
  rw [htable] at hsettled
  have hkey : pk_col_name lock.data = spec.key := by
    rw [h.key_eq hlock, hspec, Option.bind_some]
  rw [← hkey, ← hsettled.takes_iff tick hresolves hknown d]
  have hlocks : s.Locks d lock := ⟨by rw [h.type_registry]; exact Bool.and_false _, hp⟩
  rw [show default_type_registry = s.type_registry.data by rw [h.type_registry]; rfl]
  constructor
  · intro hok
    obtain ⟨t', hrun, -⟩ :=
      (ArrowStore.apply_single h.simulating hlock hlocks).1 (eq_of_verdict hok)
    exact congrArg Prod.fst hrun
  · intro hok
    exact congrArg Prod.fst ((ArrowStore.apply_single h.simulating hlock hlocks).2
      ⟨_, eq_of_verdict hok, rfl⟩)

/-- A store of tables of built-in types, after any run of clean operations: it takes a diff
exactly when the diff is legal, unless it misjudges the diff. -/
theorem taken_iff_legal (hspecs : ∀ e ∈ specs, e.1.BuiltIn) (h : Reached specs s live)
    (tick : Tick) (d : Diff) :
    ((s.apply_diffs tick [d]).1 = .ok () ↔ Legal specs live d) ↔ ¬ Misjudged specs live d := by
  have hready := h.ready
  rcases hspec : spec_of specs d.table with _ | spec
  · -- no such table: refused, and not legal
    have hnone : s.tables[d.table]? = none := by
      have hsame := hready.spec_eq d.table
      rwa [hspec, Option.map_none, Option.map_eq_none_iff] at hsame
    have hrefused : (s.apply_diffs tick [d]).1 ≠ .ok () := by
      intro hok
      obtain ⟨-, -, hrun⟩ := ArrowStore.apply_diffs_ok.1 (eq_of_verdict hok)
      obtain ⟨mid, hone, -⟩ := forEach_cons_ok.1 hrun
      obtain ⟨lock, t', hlock, -⟩ := ArrowStore.apply_diff_ok hone
      rw [hnone] at hlock
      cases hlock
    simp [Legal, Misjudged, hspec, hrefused]
  · obtain ⟨e, he, rfl⟩ := Option.map_eq_some_iff.1 hspec
    obtain ⟨schema, hschema, hknown⟩ := spec_schema_built_in (hspecs e (List.mem_of_find?_eq_some he))
    rw [hready.taken_iff hspec hschema hknown tick]
    simp only [Legal, Misjudged, hspec, Option.some.injEq, exists_and_left, exists_eq_left', hschema,
      Except.ok.injEq]
    exact takes_iff_accepts d

end Runs

/-! ## A diff of each kind -/

section Items

attribute [local instance] plain_text

def items_specs : List (TableSpec × MutationMode) := [(items_spec, .Patchable)]

/-- The live ids after the first insert. -/
def one_live : LiveIds :=
  live_op items_specs items_store (fun _ => ∅) (.ApplyDiffs 0 [.Insert "items" 1 (item 1 10)])

theorem set_qty_taken_iff :
    ((one_item.apply_diffs 1 [set_qty "items"]).1 = .ok ()
        ↔ Legal items_specs one_live (set_qty "items"))
      ↔ ¬ Misjudged items_specs one_live (set_qty "items") := by
  have hspecs : ∀ e ∈ items_specs, e.1.BuiltIn := by
    intro e he
    obtain rfl := List.mem_singleton.1 he
    unfold TableSpec.BuiltIn
    decide +kernel
  have hok : (items_store.apply_diffs 0 [.Insert "items" 1 (item 1 10)]).1 = .ok () := by
    decide +kernel
  have hclean : CleanOp items_store (.ApplyDiffs 0 [.Insert "items" 1 (item 1 10)]) :=
    fun herr => absurd hok herr
  exact taken_iff_legal hspecs (.step _ .built hclean) 1 (set_qty "items")

theorem items_schema :
    spec_schema items_spec default_type_registry
      = .ok { fields := [⟨"id", .UInt64, false⟩, ⟨"qty", .Int64, false⟩] } := by
  decide +kernel

/-- An item with a value for a column that there is not. -/
def coloured : JsonMap := (item 1 10).insert "colour" (number 3)

/-- It can be inserted, where an update of the column is refused; and a replace by no rows,
which breaks no rule, is refused. -/
theorem unknown_column_taken :
    (items_store.apply_diffs 0 [.Insert "items" 1 coloured]).1 = .ok ()
      ∧ ¬ Legal items_specs (fun _ => ∅) (.Insert "items" 1 coloured)
      ∧ (one_item.apply_diffs 0 [.Update "items" 1 "colour" (number 3)]).1
        = .error (.Schema "column 'colour' not found in table 'items'")
      ∧ (items_store.apply_diffs 0 [.ReplaceTable "items" []]).1
        = .error (.Schema "cannot determine schema for ReplaceTable on 'items'")
      ∧ Legal items_specs (fun _ => ∅) (.ReplaceTable "items" []) := by
  refine ⟨by decide +kernel, ?_, by decide +kernel, by decide +kernel, ?_⟩
  · rintro ⟨spec, schema, hspec, hschema, -, hnames, -⟩
    obtain rfl : items_spec = spec := Option.some.inj hspec
    obtain rfl := Except.ok.inj (items_schema.symm.trans hschema)
    obtain ⟨f, hf, hname⟩ := hnames "colour" (by decide +kernel)
    revert f
    decide
  · refine ⟨items_spec, _, rfl, items_schema, by simp, ?_⟩
    intro pk _
    exact ⟨[], rfl, List.nodup_nil⟩

end Items

end Scharnhorst
