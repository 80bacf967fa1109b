/-
Storage types registered at run time, and what the diffs make of their columns.

The registry keeps three things under a name: an Arrow type, a converter from JSON and a
factory of nulls. The store asks it for the Arrow type alone, to resolve a schema. Conversion,
null building and patching match on the Arrow type themselves and know seven of them, so a
column of a registered type is treated as one of the built-in type with the same Arrow type,
and refused where there is none.
-/
import Scharnhorst.BatchFaults
import Scharnhorst.History
import Scharnhorst.Phases

set_option autoImplicit false

namespace Scharnhorst

open Attempt

/-! ## The registry with its factories -/

/-- `TypeEntry`. -/
structure TypeEntry where
  data_type : DataType
  json_to_array : Json → ArrowStoreResult ArrayRef
  null_array : Unit → ArrowStoreResult ArrayRef

/-- The entries of a `TypeRegistry`, whole. -/
abbrev TypeEntries := Map String TypeEntry

namespace TypeEntries

/-- What the table operations look at. -/
def types (entries : TypeEntries) : TypeRegistry :=
  ⟨entries.map fun _ entry => entry.data_type⟩

theorem types_get (entries : TypeEntries) (name : String) :
    entries.types.entries[name]? = entries[name]?.map TypeEntry.data_type := by
  simp [types, Std.ExtTreeMap.getElem?_map]

theorem types_insert (entries : TypeEntries) (name : String) (entry : TypeEntry) :
    TypeEntries.types (entries.insert name entry) =
      entries.types.register name entry.data_type := by
  have hentries : (TypeEntries.types (entries.insert name entry)).entries =
      (entries.types.register name entry.data_type).entries := by
    apply Std.ExtTreeMap.ext_getElem?
    intro other
    rw [types_get, TypeRegistry.register, Std.ExtTreeMap.getElem?_insert,
      Std.ExtTreeMap.getElem?_insert, types_get]
    split <;> rfl
  exact congrArg TypeRegistry.mk hentries

end TypeEntries

section

variable [Render]

/-- The entries of `default_type_registry`. -/
def built_in_entries : List (String × TypeEntry) :=
  [("i64",
      { data_type := .Int64
        json_to_array := fun value => (json_to_i64 value).map fun v => .Int64Array (.from_value v)
        null_array := fun _ => .ok (.Int64Array (.from_value 0)) }),
    ("i32",
      { data_type := .Int32
        json_to_array := fun value => (json_to_i32 value).map fun v => .Int32Array (.from_value v)
        null_array := fun _ => .ok (.Int32Array (.from_value 0)) }),
    ("u64",
      { data_type := .UInt64
        json_to_array := fun value => (json_to_u64 value).map fun v => .UInt64Array (.from_value v)
        null_array := fun _ => .ok (.UInt64Array (.from_value 0)) }),
    ("f64",
      { data_type := .Float64
        json_to_array := fun value => (json_to_f64 value).map fun v => .Float64Array (.from_value v)
        null_array := fun _ => .ok (.Float64Array (.from_value 0)) }),
    ("utf8",
      { data_type := .Utf8
        json_to_array := fun value => (json_to_string value).map fun v => .StringArray [some v]
        null_array := fun _ => .ok (.StringArray [some ""]) }),
    ("large_utf8",
      { data_type := .LargeUtf8
        json_to_array := fun value => (json_to_string value).map fun v => .LargeStringArray [some v]
        null_array := fun _ => .ok (.LargeStringArray [some ""]) }),
    ("bool",
      { data_type := .Boolean
        json_to_array := fun value => (json_to_bool value).map fun v => .BooleanArray [some v]
        null_array := fun _ => .ok (.BooleanArray [some false]) })]

def default_type_entries : TypeEntries :=
  built_in_entries.foldl (fun entries e => entries.insert e.1 e.2) ∅

theorem default_types : default_type_entries.types = default_type_registry := by
  have hempty : TypeEntries.types ∅ = ⟨∅⟩ := by
    simp [TypeEntries.types]
  simp only [default_type_entries, built_in_entries, List.foldl_cons, List.foldl_nil,
    TypeEntries.types_insert, hempty, default_type_registry]

/-- An Arrow type that the store converts, nulls and patches. -/
def BuiltIn (dt : DataType) : Prop := ∃ e ∈ built_in_entries, e.2.data_type = dt

theorem built_in_iff {dt : DataType} : BuiltIn dt ↔ ∀ name, dt ≠ .Other name := by
  rcases dt with _ | _ | _ | _ | _ | _ | _ | name <;> simp [BuiltIn, built_in_entries]

/-- The conversion of the store repeats the converters of the built-in entries. -/
theorem built_in_convert {e : String × TypeEntry} (he : e ∈ built_in_entries) {value : Json}
    (hvalue : value.is_null = false) :
    json_value_to_array value e.2.data_type = e.2.json_to_array value := by
  simp only [built_in_entries, List.mem_cons, List.not_mem_nil, or_false] at he
  rcases he with rfl | rfl | rfl | rfl | rfl | rfl | rfl <;> simp [json_value_to_array, hvalue]

end

/-! ## Registration -/

theorem ArrowStore.register_type_ok {s s' : ArrowStore} {name : String} {data_type : DataType}
    (h : s.register_type name data_type = (.ok (), s')) :
    s'.type_registry.data = s.type_registry.data.register name data_type := by
  unfold ArrowStore.register_type at h
  split at h
  · cases h
  · rename_i reg hreg
    rcases hinit : s.check_init with e | ⟨⟨⟩⟩
    · simp [hinit, bind, Except.bind] at hreg
    · simp only [hinit, bind, Except.bind] at hreg
      obtain ⟨-, rfl⟩ := RwLock.read_store_ok.1 hreg
      rw [← (Prod.mk.inj h).2, RwLock.data_set]

/-- A store with everything that its registry holds. -/
structure TypedStore where
  store : ArrowStore
  entries : TypeEntries
  same : store.type_registry.data = entries.types

namespace TypedStore

/-- `ArrowStore::register_type`. -/
def register_type (s : TypedStore) (name : String) (entry : TypeEntry) :
    ArrowStoreResult Unit × TypedStore :=
  match h : s.store.register_type name entry.data_type with
  | (.error e, _) => (.error e, s)
  | (.ok (), store) =>
    (.ok (),
      { store
        entries := s.entries.insert name entry
        same := by rw [ArrowStore.register_type_ok h, s.same, TypeEntries.types_insert] })

theorem register_type_entries {s s' : TypedStore} {name : String} {entry : TypeEntry}
    (h : s.register_type name entry = (.ok (), s')) :
    s'.entries = s.entries.insert name entry := by
  unfold register_type at h
  split at h
  · cases h
  · rw [← (Prod.mk.inj h).2]

/-- The type was registered, and since then no other one under its name. -/
inductive Registered (name : String) (entry : TypeEntry) : TypedStore → Prop
  | now {s s' : TypedStore} (h : s.register_type name entry = (.ok (), s')) :
    Registered name entry s'
  | another {s s' : TypedStore} {other : String} {e : TypeEntry} (hs : Registered name entry s)
    (hne : other ≠ name) (h : s.register_type other e = (.ok (), s')) : Registered name entry s'
  | later {s s' : TypedStore} (hs : Registered name entry s) (h : s'.entries = s.entries) :
    Registered name entry s'

theorem Registered.resolves {name : String} {entry : TypeEntry} {s : TypedStore}
    (h : Registered name entry s) :
    s.store.type_registry.data.resolve_data_type name = .ok entry.data_type := by
  have hentry : s.entries[name]? = some entry := by
    induction h with
    | now h =>
      rw [register_type_entries h]
      simp
    | another _ hne h ih =>
      rw [register_type_entries h, Std.ExtTreeMap.getElem?_insert, if_neg (by simpa using hne), ih]
    | later _ h ih => rw [h, ih]
  rw [s.same, TypeRegistry.resolve_data_type, TypeEntries.types_get, hentry]
  rfl

end TypedStore

/-! ## One value of a column -/

/-- What the column `k` holds in a row of a batch of a tick. -/
def VersionedTable.value (t : VersionedTable) (tick : Tick) (b k i : Nat) : Option Cell :=
  (t.batches tick)[b]?.bind fun batch =>
    if i < batch.row_count then batch.columns[k]?.map (·.cell i) else none

section Places

variable {t : VersionedTable} {row : RowId} {loc : RowLocation} {src patch r : RecordBatch}
  {k : Nat}

theorem value_set_batch (hloc : t.locate row = some (loc, src)) (tick : Tick) (b i : Nat) :
    (t.set_batch loc r).value tick b k i =
      if loc.tick = tick ∧ loc.batch_index = b then
        if i < r.row_count then r.columns[k]?.map (·.cell i) else none
      else t.value tick b k i := by
  obtain ⟨-, -, hbatch, -, -⟩ := VersionedTable.locate_eq_some.1 hloc
  have hlt := (List.getElem?_eq_some_iff.1 hbatch).1
  unfold VersionedTable.value
  rw [VersionedTable.batches_set_batch]
  by_cases htick : loc.tick = tick
  · subst htick
    by_cases hb : loc.batch_index = b
    · subst hb
      rw [if_pos rfl, if_pos ⟨rfl, rfl⟩, List.getElem?_set_self hlt]
      rfl
    · rw [if_pos rfl, if_neg (by simp [hb]), List.getElem?_set_ne hb]
  · rw [if_neg htick, if_neg (by simp [htick])]

theorem value_at (hloc : t.locate row = some (loc, src)) (i : Nat) :
    t.value loc.tick loc.batch_index k i =
      if i < src.row_count then src.columns[k]?.map (·.cell i) else none := by
  obtain ⟨-, -, hbatch, -, -⟩ := VersionedTable.locate_eq_some.1 hloc
  rw [VersionedTable.value, hbatch]
  rfl

/-- The values of the column that are not in the row of the diff stay as they were. -/
def OthersKept (k : Nat) (loc : RowLocation) (t t' : VersionedTable) : Prop :=
  ∀ tick b i, (tick, b, i) ≠ (loc.tick, loc.batch_index, loc.row_index) →
    t'.value tick b k i = t.value tick b k i

/-- A row patched into its batch leaves the column's other values if and only if they are in
place. -/
theorem others_kept_iff (hloc : t.locate row = some (loc, src))
    (h : patch_record_batch src patch [(loc.row_index, 0)] = .ok r)
    (hschema : patch.schema = src.schema) (hone : patch.row_count = 1)
    (hk : k < src.columns.length) :
    OthersKept k loc t (t.set_batch loc r) ↔
      ∀ i < src.row_count, i ≠ loc.row_index → src.columns[k].InPlace i := by
  obtain ⟨hrschema, hrows, -⟩ := patch_record_batch_spec h
  have hr : k < r.columns.length := by
    rw [r.column_count, hrschema, ← src.column_count]
    exact hk
  have hp : k < patch.columns.length := by
    rw [patch.column_count, hschema, ← src.column_count]
    exact hk
  -- in the row's own batch
  have hcell : ∀ i < src.row_count, i ≠ loc.row_index →
      (r.columns[k].cell i = src.columns[k].cell i ↔ src.columns[k].InPlace i) := by
    intro i hi hne
    rw [cell_patched_batch h hone hk hr hp hi, if_neg (Ne.symm hne), start_eq_iff]
    rw [src.column_len _ (List.getElem_mem hk)]
    exact hi
  constructor
  · intro hkept i hi hne
    have hsame := hkept loc.tick loc.batch_index i (by simp [hne])
    rw [value_set_batch hloc, if_pos ⟨rfl, rfl⟩, value_at hloc, hrows, if_pos hi, if_pos hi,
      List.getElem?_eq_getElem hr, List.getElem?_eq_getElem hk] at hsame
    exact (hcell i hi hne).1 (Option.some.inj hsame)
  · intro hplace tick b i hne
    rw [value_set_batch hloc]
    by_cases hat : loc.tick = tick ∧ loc.batch_index = b
    · obtain ⟨rfl, rfl⟩ := hat
      rw [if_pos ⟨rfl, rfl⟩, value_at hloc, hrows]
      by_cases hi : i < src.row_count
      · have hrow : i ≠ loc.row_index := by
          rintro rfl
          exact hne rfl
        rw [if_pos hi, if_pos hi, List.getElem?_eq_getElem hr, List.getElem?_eq_getElem hk]
        exact congrArg some ((hcell i hi hrow).2 (hplace i hi hrow))
      · rw [if_neg hi, if_neg hi]
    · rw [if_neg hat]

/-- And the value in the row is that of the patch. -/
theorem value_patched (hloc : t.locate row = some (loc, src))
    (h : patch_record_batch src patch [(loc.row_index, 0)] = .ok r)
    (hschema : patch.schema = src.schema) (hone : patch.row_count = 1)
    (hk : k < patch.columns.length) :
    (t.set_batch loc r).value loc.tick loc.batch_index k loc.row_index =
      some (patch.columns[k].cell 0) := by
  obtain ⟨-, -, -, hrow, -⟩ := VersionedTable.locate_eq_some.1 hloc
  obtain ⟨hrschema, hrows, -⟩ := patch_record_batch_spec h
  have hs : k < src.columns.length := by
    rw [src.column_count, ← hschema, ← patch.column_count]
    exact hk
  have hr : k < r.columns.length := by
    rw [r.column_count, hrschema, ← src.column_count]
    exact hs
  rw [value_set_batch hloc, if_pos ⟨rfl, rfl⟩, hrows, if_pos hrow, List.getElem?_eq_getElem hr,
    Option.map_some, cell_patched_batch h hone hs hr hk hrow, if_pos rfl]

end Places

/-! ## What a registered type promises -/

section Promise

variable [Render]

/-- The type says what the value is: it is a null, or its converter takes it. -/
def Given (entry : TypeEntry) (value : Json) : Prop :=
  value.is_null = true ∨ ∃ a, entry.json_to_array value = .ok a

omit [Render] in
/-- The cell is what the type makes of the value: a null or the factory's element for a null,
and else the converter's element. -/
def Stores (entry : TypeEntry) (value : Json) (c : Cell) : Prop :=
  if value.is_null then c = .Null ∨ ∃ a, entry.null_array () = .ok a ∧ c = a.cell 0
  else ∃ a, entry.json_to_array value = .ok a ∧ c = a.cell 0

/-- The built-in type with the same Arrow type does the same: it takes a null where the field
does, and it makes the same element of any other value. -/
def Coincides (entry : TypeEntry) (f : Field) (value : Json) : Prop :=
  if value.is_null then BuiltIn entry.data_type ∧ f.nullable = true
  else ∃ e ∈ built_in_entries, e.2.data_type = entry.data_type ∧
    ∃ a b, entry.json_to_array value = .ok a ∧ e.2.json_to_array value = .ok b ∧
      b.cell 0 = a.cell 0

theorem coincides_iff {entry : TypeEntry} {f : Field} (hf : f.data_type = entry.data_type)
    {value : Json} :
    Coincides entry f value ↔ Fits f value ∧ Stores entry value (json_cell value f.data_type) := by
  unfold Coincides Stores
  cases hnull : value.is_null
  -- a value: the two converters have to give the same element
  · simp only [Bool.false_eq_true, if_false]
    constructor
    · rintro ⟨e, he, htype, a, b, ha, hb, hsame⟩
      have hconvert : json_value_to_array value f.data_type = .ok b := by
        rw [hf, ← htype, built_in_convert he hnull, hb]
      refine ⟨⟨⟨b, hconvert⟩, fun _ => hnull⟩, a, ha, ?_⟩
      rw [← (json_value_to_array_spec hconvert).cell_eq, hsame]
    · rintro ⟨⟨⟨b, hb⟩, -⟩, a, ha, hcell⟩
      have hbuilt : BuiltIn f.data_type := by
        rw [built_in_iff]
        intro name hother
        rw [hother] at hb
        simp [json_value_to_array, hnull] at hb
      obtain ⟨e, he, htype⟩ := hbuilt
      refine ⟨e, he, htype.trans hf, a, b, ha, ?_, ?_⟩
      · rw [← built_in_convert he hnull, htype, hb]
      · rw [(json_value_to_array_spec hb).cell_eq, hcell]
  -- a null: every built-in type stores one, where the column takes it
  · simp only [if_true]
    have hcell : json_cell value f.data_type = .Null := by
      unfold json_cell
      rw [if_pos hnull]
    have hconverts :
        (∃ a, json_value_to_array value f.data_type = .ok a) ↔ BuiltIn f.data_type := by
      rw [built_in_iff]
      rcases f.data_type with _ | _ | _ | _ | _ | _ | _ | name <;>
        simp [json_value_to_array, hnull]
    constructor
    · rintro ⟨hbuilt, hnullable⟩
      refine ⟨⟨hconverts.2 (hf ▸ hbuilt), fun hforbidden => ?_⟩, .inl hcell⟩
      rw [hnullable] at hforbidden
      cases hforbidden
    · rintro ⟨hfits, -⟩
      refine ⟨hf ▸ hconverts.1 hfits.converts, ?_⟩
      cases hnullable : f.nullable
      · rw [hfits.not_null hnullable] at hnull
        cases hnull
      · rfl

end Promise

/-! ## Tables with a column of the type -/

/-- Column `k` of the table is of the registered type, the name of its field leads to it, and
the other columns are of built-in types. -/
structure HasColumn (reg : TypeRegistry) (name : String) (t : VersionedTable) (schema : Schema)
    (k : Nat) (f : Field) : Prop where
  spec : ∃ spec, t.spec = some spec ∧ spec_schema spec reg = .ok schema ∧
    spec.columns[k]?.map ColumnSpec.storage_type = some name
  field : schema.fields[k]? = some f
  named : schema.index_of f.name = some k
  others : ∀ (j : Nat) (g : Field), j ≠ k → schema.fields[j]? = some g →
    ∀ other, g.data_type ≠ .Other other
  batches : ∀ tick, ∀ b ∈ t.batches tick, b.schema = schema

/-- The diff is one that the table takes as far as its other columns go. -/
def Asked [Render] (schema : Schema) (k : Nat) (t : VersionedTable) : Diff → Prop
  | .Insert _ row values =>
    t.position_map.position_of row = none ∧
      ∀ (j : Nat) (g : Field), j ≠ k → schema.fields[j]? = some g →
        Fits g (values.getD g.name .null)
  | .Update _ row column value =>
    (t.locate row).isSome ∧ ∃ j g, schema.index_of column = some j ∧
      schema.fields[j]? = some g ∧ (j ≠ k → Fits g value)
  | .Delete _ row => (t.locate row).isSome
  | .ReplaceTable .. => False

/-- What a column of the type promises of the diff: a value that the type takes is stored as
the type has it, and the column's other values stay. -/
def Promised (entry : TypeEntry) (k : Nat) (f : Field) (tick : Tick) (t : VersionedTable)
    (result : ArrowStoreResult Unit) (t' : VersionedTable) : Diff → Prop
  | .Insert _ _ values =>
    Given entry (values.getD f.name .null) → result = .ok () ∧
      ∃ c, t'.value tick (t.batches tick).length k 0 = some c ∧
        Stores entry (values.getD f.name .null) c
  | .Update _ row column value =>
    ∀ loc batch, t.locate row = some (loc, batch) →
      if column = f.name then
        Given entry value → result = .ok () ∧ OthersKept k loc t t' ∧
          ∃ c, t'.value loc.tick loc.batch_index k loc.row_index = some c ∧ Stores entry value c
      else
        result = .ok () ∧ OthersKept k loc t t' ∧
          t'.value loc.tick loc.batch_index k loc.row_index =
            t.value loc.tick loc.batch_index k loc.row_index
  | .Delete _ row =>
    ∀ loc batch, t.locate row = some (loc, batch) → result = .ok () ∧ OthersKept k loc t t'
  | .ReplaceTable .. => True

/-- In the column and in every column without nulls, the rows but this one are where the patch
functions look for them. -/
def InOrder (schema : Schema) (k : Nat) (batch : RecordBatch) (row_index : Nat) : Prop :=
  ∀ j (hf : j < schema.fields.length) (hc : j < batch.columns.length),
    (j = k ∨ schema.fields[j].nullable = false) →
      ∀ i < batch.row_count, i ≠ row_index → batch.columns[j].InPlace i

/-- When the promise is kept: the built-in type with the same Arrow type does the same to the
value, and the batch that is patched is in order. -/
def Kept [Render] (entry : TypeEntry) (schema : Schema) (k : Nat) (f : Field)
    (t : VersionedTable) : Diff → Prop
  | .Insert _ _ values =>
    Given entry (values.getD f.name .null) → Coincides entry f (values.getD f.name .null)
  | .Update _ row column value =>
    ∀ loc batch, t.locate row = some (loc, batch) →
      if column = f.name then
        Given entry value → Coincides entry f value ∧ InOrder schema k batch loc.row_index
      else BuiltIn entry.data_type ∧ InOrder schema k batch loc.row_index
  | .Delete _ row =>
    ∀ loc batch, t.locate row = some (loc, batch) →
      BuiltIn entry.data_type ∧ InOrder schema k batch loc.row_index
  | .ReplaceTable .. => True

section Column

variable [Render] {reg : TypeRegistry} {name table_name : String} {entry : TypeEntry}
  {t : VersionedTable} {schema : Schema} {k : Nat} {f : Field} {tick : Tick}

omit [Render] in
/-- The field has the registered Arrow type. -/
theorem HasColumn.data_type (h : HasColumn reg name t schema k f)
    (hreg : reg.resolve_data_type name = .ok entry.data_type) : f.data_type = entry.data_type := by
  obtain ⟨spec, -, hschema, hname⟩ := h.spec
  unfold spec_schema at hschema
  obtain ⟨col, hcol, rfl⟩ := Option.map_eq_some_iff.1 hname
  rcases hfields : spec.columns.mapM (fun col => (do
      let dt ← reg.resolve_data_type col.storage_type
      return ({ name := col.name, data_type := dt, nullable := col.nullable } : Field))) with
    e | fields
  · rw [hfields] at hschema
    cases hschema
  · rw [hfields] at hschema
    obtain rfl : { fields } = schema := by
      simpa [bind, Except.bind, pure, Except.pure] using hschema
    obtain ⟨hk, rfl⟩ := List.getElem?_eq_some_iff.1 hcol
    obtain ⟨hk', rfl⟩ := List.getElem?_eq_some_iff.1 h.field
    have hstep := mapM_ok_getElem hfields hk hk'
    simp only [hreg, bind, Except.bind, pure, Except.pure, Except.ok.injEq] at hstep
    rw [← hstep]

omit [Render] in
/-- What holds of every other field holds of all if it holds of the column's. -/
theorem HasColumn.forall_fields_iff (h : HasColumn reg name t schema k f) {p : Field → Prop}
    (hothers : ∀ (j : Nat) g, j ≠ k → schema.fields[j]? = some g → p g) :
    (∀ g ∈ schema.fields, p g) ↔ p f := by
  constructor
  · intro hall
    exact hall f (List.mem_of_getElem? h.field)
  · intro hp g hg
    obtain ⟨j, hj⟩ := List.getElem?_of_mem hg
    by_cases hjk : j = k
    · subst hjk
      rwa [Option.some.inj (hj.symm.trans h.field)]
    · exact hothers j g hjk hj

/-- The store patches the whole schema if it patches the registered type. -/
theorem HasColumn.known_iff (h : HasColumn reg name t schema k f)
    (hf : f.data_type = entry.data_type) :
    (∀ g ∈ schema.fields, ∀ other, g.data_type ≠ .Other other) ↔ BuiltIn entry.data_type := by
  rw [built_in_iff, ← hf]
  exact h.forall_fields_iff h.others

/-- An insert keeps the promise if the built-in type does the same to the value. -/
theorem insert_promised_iff (h : HasColumn reg name t schema k f)
    (hf : f.data_type = entry.data_type) {row : RowId} {values : JsonMap}
    (hasked : Asked schema k t (.Insert table_name row values)) :
    Promised entry k f tick t
        (apply_to_table reg tick (.Insert table_name row values) t).1
        (apply_to_table reg tick (.Insert table_name row values) t).2
        (.Insert table_name row values) ↔
      Kept entry schema k f t (.Insert table_name row values) := by
  obtain ⟨hfree, hothers⟩ := hasked
  obtain ⟨spec, hspec, hschema, -⟩ := h.spec
  have hk := (List.getElem?_eq_some_iff.1 h.field).1
  have hresolve : resolve_table_schema t values reg = .ok (some schema) := by
    rw [resolve_table_schema, hspec]
    simp only [hschema, Except.map]
  have hdup : t.position_map.contains row = false := (RowPositionMap.contains_eq_false _ _).2 hfree
  -- the row can be built if the value fits its field
  have hfits : RowFits schema values ↔ Fits f (values.getD f.name .null) :=
    h.forall_fields_iff hothers
  have hrow : (∃ b, json_map_to_record_batch values schema = .ok b) ↔
      schema.fields ≠ [] ∧ RowFits schema values := exists_row
  rw [hfits] at hrow
  have hne : schema.fields ≠ [] := List.ne_nil_of_length_pos (by omega)
  simp only [Promised, Kept, apply_to_table]
  apply imp_congr_right
  intro hgiven
  rw [coincides_iff hf]
  unfold apply_insert_to_table
  simp only [hresolve, hdup, Bool.false_eq_true, if_false]
  rcases hbatch : json_map_to_record_batch values schema with e | batch
  · have hnot : ¬ Fits f (values.getD f.name .null) := by
      intro hfit
      obtain ⟨b, hb⟩ := hrow.2 ⟨hne, hfit⟩
      rw [hbatch] at hb
      cases hb
    simp [hnot]
  · have hfit := (hrow.1 ⟨batch, hbatch⟩).2
    obtain ⟨hbschema, hone, -, hcells⟩ := json_map_to_record_batch_spec hbatch
    have hkb : k < batch.columns.length := by
      rw [batch.column_count, hbschema]
      exact hk
    have hcell : batch.columns[k].cell 0 = json_cell (values.getD f.name .null) f.data_type := by
      have hat := congrArg (·[k]?) hcells
      simp only [RecordBatch.row, json_row, List.getElem?_map, List.getElem?_eq_getElem hkb,
        h.field, Option.map_some, Option.some.injEq] at hat
      exact hat
    have hvalue : VersionedTable.value
        { t with
          versions := t.versions.insert tick (t.batches tick ++ [batch])
          primary_key_index := index_row t.primary_key_index (pk_col_name t) values tick
            (((t.versions.insert tick (t.batches tick ++ [batch]))[tick]?.map
              fun v => v.length - 1).getD 0) 0
          position_map := t.position_map.insert row
            (((t.versions.insert tick (t.batches tick ++ [batch]))[tick]?.map
              fun v => v.length - 1).getD 0) 0 } tick (t.batches tick).length k 0 =
          some (json_cell (values.getD f.name .null) f.data_type) := by
      rw [VersionedTable.value, VersionedTable.batches_insert t.versions _ tick tick
        (t.batches tick ++ [batch]) rfl, if_pos rfl]
      simp [hone, List.getElem?_eq_getElem hkb, hcell]
    simp only [hvalue, true_and, Option.some.injEq, exists_eq_left', hfit]

omit [Render] in
/-- Wherever the row is found, it is a row of a batch of the schema. -/
theorem HasColumn.forall_located_congr (h : HasColumn reg name t schema k f) {row : RowId}
    {p q : RowLocation → RecordBatch → Prop}
    (hpq : ∀ loc src, t.locate row = some (loc, src) → src.schema = schema →
      loc.row_index < src.row_count → (p loc src ↔ q loc src)) :
    (∀ loc src, t.locate row = some (loc, src) → p loc src) ↔
      ∀ loc src, t.locate row = some (loc, src) → q loc src := by
  apply forall_congr'
  intro loc
  apply forall_congr'
  intro src
  apply imp_congr_right
  intro hloc
  obtain ⟨-, -, hbatch, hrow, -⟩ := VersionedTable.locate_eq_some.1 hloc
  exact hpq loc src hloc (h.batches _ _ (List.mem_of_getElem? hbatch)) hrow

omit [Render] in
/-- A column leads to the field if it is the field's name. -/
theorem HasColumn.index_iff (h : HasColumn reg name t schema k f) {column : String} {j : Nat}
    (hj : schema.index_of column = some j) : column = f.name ↔ j = k := by
  constructor
  · rintro rfl
    exact Option.some.inj (hj.symm.trans h.named)
  · rintro rfl
    obtain ⟨hlt, hname, -⟩ := List.findIdx?_eq_some_iff_getElem.1 hj
    have hsame := h.field
    rw [List.getElem?_eq_getElem hlt, Option.some.injEq] at hsame
    rw [hsame] at hname
    simpa using (beq_iff_eq.1 hname).symm

/-- What it takes to patch a row of the table's schema and to keep the column's other values. -/
theorem row_patched_iff (h : HasColumn reg name t schema k f) (hf : f.data_type = entry.data_type)
    {row : RowId} {loc : RowLocation} {src patch : RecordBatch}
    (hloc : t.locate row = some (loc, src)) (hschema : patch.schema = schema)
    (hone : patch.row_count = 1) :
    (∃ r, patch_record_batch src patch [(loc.row_index, 0)] = .ok r ∧
        OthersKept k loc t (t.set_batch loc r)) ↔
      BuiltIn entry.data_type ∧ InOrder schema k src loc.row_index := by
  obtain ⟨-, -, hbatch, -, -⟩ := VersionedTable.locate_eq_some.1 hloc
  have hsrc : src.schema = schema := h.batches _ _ (List.mem_of_getElem? hbatch)
  have hk := (List.getElem?_eq_some_iff.1 h.field).1
  have hc : k < src.columns.length := by
    rw [src.column_count, hsrc]
    exact hk
  have hne : src.columns ≠ [] := List.ne_nil_of_length_pos (by omega)
  have htakes := takes_row_iff (t := loc.row_index) (hschema.trans hsrc.symm) hone hne
  rw [hsrc, h.known_iff hf] at htakes
  have hothers := fun r hr => others_kept_iff (r := r) hloc hr (hschema.trans hsrc.symm) hone hc
  -- the nulls of a nullable column are no obstacle to the patch, but those of column `k` are to
  -- its values
  constructor
  · rintro ⟨r, hr, hkept⟩
    obtain ⟨hbuilt, hforbidden⟩ := htakes.1 (exists_patched_iff.1 ⟨r, hr⟩)
    refine ⟨hbuilt, ?_⟩
    rintro j hj hcj (rfl | hnullable)
    · exact (hothers r hr).1 hkept
    · exact hforbidden j hj hcj hnullable
  · rintro ⟨hbuilt, horder⟩
    have hfault := htakes.2 ⟨hbuilt, fun j hj hcj hnullable =>
      horder j hj hcj (.inr hnullable)⟩
    obtain ⟨r, hr⟩ := exists_patched_iff.2 hfault
    exact ⟨r, hr, (hothers r hr).2 (horder k hk hc (.inl rfl))⟩

theorem row_refused (h : HasColumn reg name t schema k f) (hf : f.data_type = entry.data_type)
    {row : RowId} {loc : RowLocation} {src patch : RecordBatch}
    (hloc : t.locate row = some (loc, src)) (hschema : patch.schema = schema)
    (hone : patch.row_count = 1) {e : ArrowStoreError}
    (hr : patch_record_batch src patch [(loc.row_index, 0)] = .error e) :
    ¬ (BuiltIn entry.data_type ∧ InOrder schema k src loc.row_index) := by
  intro hboth
  obtain ⟨r, hr', -⟩ := (row_patched_iff h hf hloc hschema hone).2 hboth
  rw [hr] at hr'
  cases hr'

theorem row_taken_iff (h : HasColumn reg name t schema k f) (hf : f.data_type = entry.data_type)
    {row : RowId} {loc : RowLocation} {src patch : RecordBatch}
    (hloc : t.locate row = some (loc, src)) (hschema : patch.schema = schema)
    (hone : patch.row_count = 1) {r : RecordBatch}
    (hr : patch_record_batch src patch [(loc.row_index, 0)] = .ok r) :
    OthersKept k loc t (t.set_batch loc r) ↔
      BuiltIn entry.data_type ∧ InOrder schema k src loc.row_index := by
  rw [← row_patched_iff h hf hloc hschema hone]
  constructor
  · intro hkept
    exact ⟨r, hr, hkept⟩
  · rintro ⟨r', hr', hkept⟩
    rw [hr] at hr'
    rwa [Except.ok.inj hr']

/-- The cell that the patch of an update has for column `k`. -/
theorem update_patch_cell {src patch : RecordBatch} {i j : Nat} {g : Field} {value : Json}
    (hbuild : build_update_patch src i j value = .ok patch) (hrow : i < src.row_count)
    (hg : src.schema.fields[j]? = some g) (hp : k < patch.columns.length)
    (hs : k < src.columns.length) :
    patch.columns[k].cell 0 =
      if j = k then json_cell value g.data_type else src.columns[k].cell i := by
  obtain ⟨-, -, hcells⟩ := build_update_patch_spec hbuild hrow hg
  have hat := congrArg (·[k]?) hcells
  simp only [RecordBatch.row, List.getElem?_set, List.length_map, List.getElem?_map,
    List.getElem?_eq_getElem hp, List.getElem?_eq_getElem hs, Option.map_some] at hat
  by_cases hjk : j = k
  · subst hjk
    simpa [hs] using hat
  · simpa [hjk] using hat

/-- A type of the store's own: another one has no value that fits. -/
theorem built_in_of_fits {value : Json} (hf : f.data_type = entry.data_type)
    (hfit : Fits f value) : BuiltIn entry.data_type := by
  rw [built_in_iff, ← hf]
  intro other hother
  obtain ⟨a, ha⟩ := hfit.converts
  rw [hother] at ha
  cases hnull : value.is_null <;> simp [json_value_to_array, hnull] at ha

/-- An update of the column keeps the promise if the built-in type does the same to the value
and the batch is in order. An update of another column asks the first of the type as such. -/
theorem update_promised_iff (h : HasColumn reg name t schema k f)
    (hf : f.data_type = entry.data_type) {row : RowId} {column : String} {value : Json}
    (hasked : Asked schema k t (.Update table_name row column value)) :
    Promised entry k f tick t
        (apply_to_table reg tick (.Update table_name row column value) t).1
        (apply_to_table reg tick (.Update table_name row column value) t).2
        (.Update table_name row column value) ↔
      Kept entry schema k f t (.Update table_name row column value) := by
  obtain ⟨-, j, g, hj, hg, hfits⟩ := hasked
  have hk := (List.getElem?_eq_some_iff.1 h.field).1
  simp only [Promised, Kept, apply_to_table]
  refine h.forall_located_congr fun loc src hloc hsrc hrow => ?_
  have hgs : src.schema.fields[j]? = some g := by rw [hsrc, hg]
  rw [apply_update_of_locate hloc, update_batch, hsrc, hj]
  dsimp only
  -- the patch, if the value fits
  rcases hbuild : build_update_patch src loc.row_index j value with e | patch
  · have hnot : ¬ Fits g value := by
      intro hfit
      obtain ⟨p, hp⟩ := (exists_update_patch_at hrow hgs).2 hfit
      rw [hbuild] at hp
      cases hp
    have hjk : j = k := by
      by_contra hne
      exact hnot (hfits hne)
    subst hjk
    obtain rfl := Option.some.inj (hg.symm.trans h.field)
    rw [if_pos ((h.index_iff hj).2 rfl), if_pos ((h.index_iff hj).2 rfl)]
    apply imp_congr_right
    intro hgiven
    simp [bind, Except.bind, coincides_iff hf, hnot]
  · have hfit := (exists_update_patch_at hrow hgs).1 ⟨patch, hbuild⟩
    obtain ⟨hpschema, hone, -⟩ := build_update_patch_spec hbuild hrow hgs
    rw [hsrc] at hpschema
    have hp : k < patch.columns.length := by
      rw [patch.column_count, hpschema]
      exact hk
    have hs : k < src.columns.length := by
      rw [src.column_count, hsrc]
      exact hk
    have hstored : ∀ r, patch_record_batch src patch [(loc.row_index, 0)] = .ok r →
        (t.set_batch loc r).value loc.tick loc.batch_index k loc.row_index = some (if j = k then
          json_cell value g.data_type else src.columns[k].cell loc.row_index) := by
      intro r hr
      rw [value_patched hloc hr (hpschema.trans hsrc.symm) hone hp,
        update_patch_cell hbuild hrow hgs hp hs]
    simp only [bind, Except.bind]
    by_cases hjk : j = k
    · subst hjk
      obtain rfl := Option.some.inj (hg.symm.trans h.field)
      rw [if_pos ((h.index_iff hj).2 rfl), if_pos ((h.index_iff hj).2 rfl), coincides_iff hf]
      apply imp_congr_right
      intro hgiven
      have hbuilt : BuiltIn entry.data_type := built_in_of_fits hf hfit
      rcases hr : patch_record_batch src patch [(loc.row_index, 0)] with e | r
      · have hnot : ¬ InOrder schema j src loc.row_index := fun horder =>
          row_refused h hf hloc hpschema hone hr ⟨hbuilt, horder⟩
        simp [hnot]
      · have hkept :
            OthersKept j loc t (t.set_batch loc r) ↔ InOrder schema j src loc.row_index :=
          (row_taken_iff h hf hloc hpschema hone hr).trans (and_iff_right hbuilt)
        dsimp only
        rw [hstored r hr, if_pos rfl, hkept]
        simp [hfit, and_comm]
    · have hname : ¬ column = f.name := fun heq => hjk ((h.index_iff hj).1 heq)
      rw [if_neg hname, if_neg hname]
      rcases hr : patch_record_batch src patch [(loc.row_index, 0)] with e | r
      · simp [row_refused h hf hloc hpschema hone hr]
      · dsimp only
        rw [hstored r hr, if_neg hjk, row_taken_iff h hf hloc hpschema hone hr, value_at hloc,
          if_pos hrow, List.getElem?_eq_getElem hs]
        simp

/-- A delete keeps the promise if the store knows the Arrow type and the batch is in order. -/
theorem delete_promised_iff (h : HasColumn reg name t schema k f)
    (hf : f.data_type = entry.data_type) {row : RowId} :
    Promised entry k f tick t (apply_to_table reg tick (.Delete table_name row) t).1
        (apply_to_table reg tick (.Delete table_name row) t).2 (.Delete table_name row) ↔
      Kept entry schema k f t (.Delete table_name row) := by
  have hk := (List.getElem?_eq_some_iff.1 h.field).1
  have hfields : schema.fields ≠ [] := List.ne_nil_of_length_pos (by omega)
  simp only [Promised, Kept, apply_to_table]
  refine h.forall_located_congr fun loc src hloc hsrc hrow => ?_
  rw [apply_delete_of_locate hloc, delete_batch]
  rcases hbuild : build_null_patch src loc.row_index with e | patch
  · -- the patch of a schema that the store knows can be built
    have hnot : ¬ BuiltIn entry.data_type := by
      intro hbuilt
      have hpatchable : Patchable src.schema := by
        rw [hsrc]
        exact ⟨hfields, (h.known_iff hf).2 hbuilt⟩
      obtain ⟨p, hp⟩ := exists_null_patch_at hrow hpatchable
      rw [hbuild] at hp
      cases hp
    simp [bind, Except.bind, hnot]
  · obtain ⟨hpschema, hone⟩ := build_null_patch_spec hbuild hrow
    rw [hsrc] at hpschema
    simp only [bind, Except.bind]
    rcases hr : patch_record_batch src patch [(loc.row_index, 0)] with e | r
    · simp [row_refused h hf hloc hpschema hone hr]
    · rw [← row_taken_iff h hf hloc hpschema hone hr]
      exact and_iff_right rfl

end Column

section

variable [Render]

/-- A registered type keeps its promise on a diff if and only if the built-in type of its Arrow
type would keep it in its place, and the patched batch is in order. -/
theorem registered_type_promised_iff {s : TypedStore} {name : String} {entry : TypeEntry}
    (hregistered : s.Registered name entry) (tick : Tick) {diff : Diff}
    {lock : RwLock VersionedTable} (hlock : s.store.tables[diff.table]? = some lock)
    (hlocks : s.store.Locks diff lock) {schema : Schema} {k : Nat} {f : Field}
    (hcolumn : HasColumn s.store.type_registry.data name lock.data schema k f)
    (hasked : Asked schema k lock.data diff) :
    ∃ lock', (s.store.apply_diff tick diff).2.tables[diff.table]? = some lock' ∧
      (Promised entry k f tick lock.data (s.store.apply_diff tick diff).1 lock'.data diff ↔
        Kept entry schema k f lock.data diff) := by
  have hf := hcolumn.data_type hregistered.resolves
  have hcall := ArrowStore.write_table_of_some hlock
    (apply_to_table_returns s.store.type_registry.data tick diff lock.data)
  rw [hlocks.2, if_neg Bool.false_ne_true] at hcall
  rw [ArrowStore.apply_diff_eq, hlocks.1, if_neg Bool.false_ne_true, hcall]
  refine ⟨_, by rw [ArrowStore.tables_set_table, if_pos rfl], ?_⟩
  cases diff with
  | Insert table row values => exact insert_promised_iff hcolumn hf hasked
  | Update table row column value => exact update_promised_iff hcolumn hf hasked
  | Delete table row => exact delete_promised_iff hcolumn hf
  | ReplaceTable table rows => exact absurd hasked id

end

/-! ## Two registered types -/

section

attribute [local instance] plain_text

/-- Dates, kept as text under an Arrow type of their own. -/
def date_entry : TypeEntry where
  data_type := .Other "Date32"
  json_to_array := fun value =>
    match value with
    | .string s => .ok (.OtherArray "Date32" [some s])
    | _ => .error (.Schema "expected a date")
  null_array := fun _ => .ok (.OtherArray "Date32" [none])

/-- Counts, kept as the store keeps its integers. -/
def count_entry : TypeEntry where
  data_type := .Int64
  json_to_array := fun value => (json_to_i64 value).map fun v => .Int64Array (.from_value v)
  null_array := fun _ => .ok (.Int64Array (.from_none 0))

def days_spec (storage_type : String) : TableSpec :=
  { name := "days"
    columns :=
      [.new "id" .Id "u64", (ColumnSpec.new "day" .Quantity storage_type).with_nullable true]
    column_index := (∅ : Map String Nat).insert "id" 0 |>.insert "day" 1 }

def TypedStore.new : TypedStore := ⟨.new, default_type_entries, default_types.symm⟩

/-- A store with a table of such days, in simulation. -/
def days_of (s : TypedStore) (storage_type : String) : ArrowStore :=
  (s.store.create_table (days_spec storage_type) .Patchable).2.into_simulation.2

theorem days_same (storage_type : String) (s : TypedStore) :
    (days_of s storage_type).type_registry = s.store.type_registry := by
  unfold days_of ArrowStore.into_simulation ArrowStore.create_table
  repeat' split
  all_goals rfl

def days_store (name : String) (entry : TypeEntry) : TypedStore where
  store := days_of (TypedStore.new.register_type name entry).2 name
  entries := (TypedStore.new.register_type name entry).2.entries
  same := by rw [days_same, (TypedStore.new.register_type name entry).2.same]

theorem days_registered (name : String) (entry : TypeEntry) :
    (days_store name entry).Registered name entry :=
  .later (.now (eq_of_verdict (p := TypedStore.new.register_type name entry) rfl)) rfl

def days_table (storage_type : String) : VersionedTable :=
  (VersionedTable.new "days" .Patchable).set_spec (days_spec storage_type)

def day_field (data_type : DataType) : Field := { name := "day", data_type, nullable := true }

def days_schema (data_type : DataType) : Schema :=
  ⟨[{ name := "id", data_type := .UInt64, nullable := false }, day_field data_type]⟩

theorem days_column {reg : TypeRegistry} {storage_type : String} {data_type : DataType}
    (h : spec_schema (days_spec storage_type) reg = .ok (days_schema data_type)) :
    HasColumn reg storage_type (days_table storage_type) (days_schema data_type) 1
      (day_field data_type) where
  spec := ⟨_, rfl, h, rfl⟩
  field := rfl
  named := rfl
  others := by
    intro j g hj hg other
    rcases j with _ | _ | j
    · rw [← Option.some.inj hg]
      simp
    · exact absurd rfl hj
    · cases hg
  batches := by
    intro tick b hb
    simp [days_table, VersionedTable.set_spec, VersionedTable.new, VersionedTable.batches] at hb

def day_row (value : Json) : JsonMap :=
  (∅ : JsonMap).insert "id" (number 1) |>.insert "day" value

theorem day_row_asked {data_type : DataType} (storage_type : String) (value : Json) :
    Asked (days_schema data_type) 1 (days_table storage_type)
      (.Insert "days" 1 (day_row value)) := by
  refine ⟨rfl, ?_⟩
  intro j g hj hg
  rcases j with _ | _ | j
  · rw [← Option.some.inj hg]
    have hid : (day_row value).getD "id" .null = number 1 := by
      simp [day_row, Std.ExtTreeMap.getD_insert]
    dsimp only
    rw [hid]
    exact ⟨⟨_, rfl⟩, fun _ => rfl⟩
  · exact absurd rfl hj
  · cases hg

/-- A count is stored as it is. -/
theorem count_stored :
    ∃ lock', ((days_store "count" count_entry).store.apply_diff 0
        (.Insert "days" 1 (day_row (number 5)))).2.tables["days"]? = some lock' ∧
      Promised count_entry 1 (day_field .Int64) 0 (days_table "count")
        ((days_store "count" count_entry).store.apply_diff 0
          (.Insert "days" 1 (day_row (number 5)))).1 lock'.data
        (.Insert "days" 1 (day_row (number 5))) := by
  have hlock : (days_store "count" count_entry).store.tables[
      (Diff.Insert "days" 1 (day_row (number 5))).table]? = some (.new (days_table "count")) := by
    decide +kernel
  have hschema : spec_schema (days_spec "count")
      (days_store "count" count_entry).store.type_registry.data = .ok (days_schema .Int64) := by
    decide +kernel
  obtain ⟨lock', hlock', hiff⟩ := registered_type_promised_iff
    (days_registered "count" count_entry) 0 hlock
    (by constructor <;> decide +kernel) (days_column hschema) (day_row_asked "count" (number 5))
  refine ⟨lock', hlock', hiff.2 ?_⟩
  intro _
  have hday : (day_row (number 5)).getD "day" .null = number 5 := by
    simp [day_row]
  rw [day_field, hday]
  exact ⟨built_in_entries.head (by simp [built_in_entries]), List.head_mem _, rfl, _, _, rfl, rfl,
    rfl⟩

/-- A date that its converter takes cannot be inserted. -/
theorem date_refused :
    (days_store "date" date_entry).Registered "date" date_entry ∧
      Given date_entry (.string "2020-01-01") ∧
      ((days_store "date" date_entry).store.apply_diff 0
        (.Insert "days" 1 (day_row (.string "2020-01-01")))).1 =
          .error (.Schema "unsupported data type for JSON conversion: Date32") ∧
      ∀ lock', ¬ Promised date_entry 1 (day_field (.Other "Date32")) 0 (days_table "date")
        ((days_store "date" date_entry).store.apply_diff 0
          (.Insert "days" 1 (day_row (.string "2020-01-01")))).1 lock'
        (.Insert "days" 1 (day_row (.string "2020-01-01"))) := by
  have hrefused : ((days_store "date" date_entry).store.apply_diff 0
      (.Insert "days" 1 (day_row (.string "2020-01-01")))).1 =
        .error (.Schema "unsupported data type for JSON conversion: Date32") := by
    decide +kernel
  have hgiven : Given date_entry (.string "2020-01-01") := .inr ⟨_, rfl⟩
  refine ⟨days_registered _ _, hgiven, hrefused, ?_⟩
  intro lock' hpromised
  have hday : (day_row (.string "2020-01-01")).getD "day" .null = .string "2020-01-01" := by
    simp [day_row]
  have hok := (hpromised (by rw [day_field, hday]; exact hgiven)).1
  rw [hrefused] at hok
  cases hok

end

end Scharnhorst
