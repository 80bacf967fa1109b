/-
Which values, rows and patches the store takes.

A batch of one row can be built of any one-element arrays that have the types of the
fields and are not null where a field forbids it. That is all `try_new` asks for: of the
row of an insert, of the patch of an update and of the batch that a patch makes. So what
is legal comes down to one condition on a value and the field it is for, `Fits`.
-/
import Scharnhorst.ApplySpec

set_option autoImplicit false

namespace Scharnhorst

open Attempt

/-! ## One row -/

/-- An array that can be a column of one row. -/
structure OneCell (f : Field) (a : ArrayRef) : Prop where
  data_type : a.data_type = f.data_type
  len : a.len = 1
  not_null : f.nullable = false → a.cell 0 ≠ .Null

namespace RecordBatch

theorem exists_one_row {schema : Schema} {columns : List ArrayRef} (hne : schema.fields ≠ [])
    (h : List.Forall₂ OneCell schema.fields columns) : ∃ b, try_new schema columns = .ok b := by
  have hpair : ∀ p ∈ columns.zip schema.fields, OneCell p.2 p.1 :=
    fun p hp => (List.forall₂_iff_zip.1 h.flip).2 hp
  refine exists_try_new.2 ⟨?_, ?_, ?_, 1, fun c hc => ?_⟩
  · rintro rfl
    exact hne (List.forall₂_nil_right_iff.1 h)
  · refine List.ext_getElem (by simpa using h.length_eq.symm) fun k hk hf => ?_
    rw [List.length_map] at hk hf
    simpa using (h.get hf hk).data_type
  · rw [null_in_non_nullable, Option.map_eq_none_iff, List.find?_eq_none]
    intro p hp hbad
    have hone := hpair p hp
    simp only [Bool.and_eq_true, Bool.not_eq_true', ArrayRef.has_nulls, hone.len] at hbad
    exact hone.not_null hbad.1 (by simpa using hbad.2)
  · obtain ⟨k, hk, rfl⟩ := List.getElem_of_mem hc
    exact (h.get (by rw [h.length_eq]; exact hk) hk).len

/-- What a batch says of each of its columns. -/
theorem column_spec (b : RecordBatch) {k : Nat} (hf : k < b.schema.fields.length)
    (hc : k < b.columns.length) :
    b.columns[k].data_type = b.schema.fields[k].data_type ∧ b.columns[k].len = b.row_count ∧
      ∀ i < b.row_count, b.schema.fields[k].nullable = false → b.columns[k].cell i ≠ .Null := by
  have hnone := b.non_nullable
  rw [null_in_non_nullable, Option.map_eq_none_iff, List.find?_eq_none] at hnone
  have htypes := congrArg (·[k]?) b.column_types
  simp only [List.getElem?_map, List.getElem?_eq_getElem hf, List.getElem?_eq_getElem hc,
    Option.map_some, Option.some.injEq] at htypes
  have hlen := b.column_len _ (List.getElem_mem hc)
  refine ⟨htypes, hlen, fun i hi hnullable hcell => ?_⟩
  have hmem : (b.columns[k], b.schema.fields[k]) ∈ b.columns.zip b.schema.fields := by
    refine List.mem_of_getElem? (i := k) ?_
    rw [List.getElem?_zip_eq_some]
    exact ⟨List.getElem?_eq_getElem hc, List.getElem?_eq_getElem hf⟩
  apply hnone _ hmem
  simp only [Bool.and_eq_true, Bool.not_eq_true', ArrayRef.has_nulls]
  refine ⟨hnullable, List.any_eq_true.2 ⟨i, ?_, by simpa using hcell⟩⟩
  rw [List.mem_range, hlen]
  exact hi

/-- And a batch of one row is built like that. -/
theorem one_cell (b : RecordBatch) (hone : b.row_count = 1) :
    List.Forall₂ OneCell b.schema.fields b.columns := by
  rw [List.forall₂_iff_get]
  refine ⟨b.column_count.symm, fun k hf hc => ?_⟩
  obtain ⟨htype, hlen, hnull⟩ := b.column_spec hf hc
  exact ⟨htype, hlen.trans hone, hnull 0 (by omega)⟩

/-- A row of a batch, column by column. -/
theorem one_cell_slice (b : RecordBatch) {t : Nat} (ht : t < b.row_count) {k : Nat}
    (hf : k < b.schema.fields.length) (hc : k < b.columns.length) :
    OneCell b.schema.fields[k] (b.columns[k].slice t 1) := by
  obtain ⟨htype, hlen, hnull⟩ := b.column_spec hf hc
  refine ⟨?_, by rw [ArrayRef.len_slice, hlen]; omega, fun hnullable => ?_⟩
  · rw [← htype]
    cases b.columns[k] <;> rfl
  · rw [ArrayRef.cell_slice (by omega) Nat.one_pos]
    exact hnull t ht hnullable

end RecordBatch

section Legal

variable [Render]

/-! ## Values -/

/-- The value can be put into a column of this field. -/
structure Fits (f : Field) (value : Json) : Prop where
  converts : ∃ a, json_value_to_array value f.data_type = .ok a
  not_null : f.nullable = false → value.is_null = false

theorem json_cell_eq_null {value : Json} {dt : DataType} {a : ArrayRef}
    (h : json_value_to_array value dt = .ok a) : json_cell value dt = .Null ↔ value.is_null := by
  unfold json_value_to_array at h
  unfold json_cell
  by_cases hnull : value.is_null
  · simp [hnull]
  · rw [if_neg hnull] at h ⊢
    cases dt
    case Other => cases h
    all_goals
      simp only [Except.map] at h
      split at h <;> cases h
      rename_i v hv
      simp [hv, Except.toOption, hnull]

/-- The array of a value is a cell of the field if the value fits. -/
theorem one_cell_iff {f : Field} {value : Json} {a : ArrayRef}
    (h : json_value_to_array value f.data_type = .ok a) : OneCell f a ↔ Fits f value := by
  have hsingle := json_value_to_array_spec h
  have hcell : a.cell 0 = .Null ↔ value.is_null = true := by
    rw [hsingle.cell_eq, json_cell_eq_null h]
  constructor
  · intro hone
    refine ⟨⟨a, h⟩, fun hnullable => ?_⟩
    have hne := hone.not_null hnullable
    rw [Ne, hcell] at hne
    simpa using hne
  · intro hfits
    refine ⟨hsingle.data_type_eq, hsingle.len_eq, fun hnullable hnull => ?_⟩
    rw [hcell, hfits.not_null hnullable] at hnull
    cases hnull

/-! ## The row of an insert -/

/-- Every field of the row gets a value that fits; a field the map does not name gets a
null. -/
def RowFits (schema : Schema) (values : JsonMap) : Prop :=
  ∀ f ∈ schema.fields, Fits f (values.getD f.name .null)

theorem exists_row {values : JsonMap} {schema : Schema} :
    (∃ b, json_map_to_record_batch values schema = .ok b)
      ↔ schema.fields ≠ [] ∧ RowFits schema values := by
  constructor
  · rintro ⟨b, h⟩
    obtain ⟨rfl, hcols, first, hfirst, -⟩ := RecordBatch.built_ok h
    have hcells := b.one_cell (json_map_to_record_batch_spec h).2.1
    refine ⟨?_, fun f hf => ?_⟩
    · intro hnil
      rw [hnil, List.forall₂_nil_left_iff] at hcells
      rw [hcells] at hfirst
      cases hfirst
    · obtain ⟨k, hk, rfl⟩ := List.getElem_of_mem hf
      have hk' : k < b.columns.length := by rw [← hcells.length_eq]; exact hk
      exact (one_cell_iff (mapM_ok_getElem hcols hk hk')).1 (hcells.get hk hk')
  · rintro ⟨hne, hfits⟩
    obtain ⟨columns, hcols⟩ := exists_mapM.2 fun f hf => (hfits f hf).converts
    have hcells : List.Forall₂ OneCell schema.fields columns := by
      rw [List.forall₂_iff_get]
      refine ⟨(mapM_ok_length hcols).symm, fun k hf hc => ?_⟩
      exact (one_cell_iff (mapM_ok_getElem hcols hf hc)).2 (hfits _ (List.getElem_mem hf))
    obtain ⟨b, hb⟩ := RecordBatch.exists_one_row hne hcells
    refine ⟨b, ?_⟩
    unfold json_map_to_record_batch
    rw [hcols]
    simp only [bind, Except.bind, hb, Except.mapError]

/-! ## The patch of an update -/

/-- It can be built of a value that fits, and of no other. -/
theorem exists_update_patch_at {src : RecordBatch} {t c : Nat} {f : Field} {value : Json}
    (ht : t < src.row_count) (hf : src.schema.fields[c]? = some f) :
    (∃ b, build_update_patch src t c value = .ok b) ↔ Fits f value := by
  have hcount := src.column_count
  obtain ⟨hcf, rfl⟩ := List.getElem?_eq_some_iff.1 hf
  have hc : c < src.columns.length := by omega
  have htype := (src.column_spec hcf hc).1
  constructor
  · rintro ⟨b, h⟩
    obtain ⟨hschema, hcols, -⟩ := RecordBatch.built_ok h
    have hnew := b.one_cell (build_update_patch_spec h ht hf).2.1
    rw [hschema] at hnew
    have hcb : c < b.columns.length := by rw [← hnew.length_eq]; exact hcf
    have hconv := mapM_ok_getElem hcols (by simpa using hc) hcb
    simp only [List.getElem_zipIdx, Nat.zero_add, if_true, htype] at hconv
    exact (one_cell_iff hconv).1 (hnew.get hcf hcb)
  · intro hfits
    -- every column converts: the written one by the value that fits, the others by their slice
    have hall : ∀ p ∈ src.columns.zipIdx, ∃ a : ArrayRef, (if p.2 = c then
        json_value_to_array value p.1.data_type else slice_array_to_single p.1 t) = .ok a := by
      rintro ⟨a, k⟩ hmem
      by_cases hk : k = c
      · subst hk
        have ha := List.mem_zipIdx_iff_getElem?.1 hmem
        rw [List.getElem?_eq_getElem hc, Option.some.injEq] at ha
        obtain ⟨array, hconv⟩ := hfits.converts
        exact ⟨array, by rw [if_pos rfl, ← ha, htype, hconv]⟩
      · exact ⟨a.slice t 1, by rw [if_neg hk]; rfl⟩
    obtain ⟨columns, hcols⟩ := exists_mapM.2 hall
    have hlength : columns.length = src.columns.length := by
      simpa using mapM_ok_length hcols
    -- one cell in each column, so the batch can be built
    have hnew : List.Forall₂ OneCell src.schema.fields columns := by
      rw [List.forall₂_iff_get]
      refine ⟨by omega, fun k hk hk' => ?_⟩
      have hs : k < src.columns.length := by rw [← hlength]; exact hk'
      have hstep := mapM_ok_getElem hcols (by simpa using hs) hk'
      simp only [List.getElem_zipIdx, Nat.zero_add] at hstep
      by_cases hkc : k = c
      · subst hkc
        rw [if_pos rfl, htype] at hstep
        exact (one_cell_iff hstep).2 hfits
      · rw [if_neg hkc] at hstep
        have hslice : src.columns[k].slice t 1 = columns[k] := by
          simpa [slice_array_to_single] using hstep
        rw [List.get_eq_getElem, List.get_eq_getElem]
        simp only [← hslice]
        exact src.one_cell_slice ht hk hs
    obtain ⟨b, hb⟩ := RecordBatch.exists_one_row (List.ne_nil_of_length_pos (by omega)) hnew
    refine ⟨b, ?_⟩
    unfold build_update_patch
    rw [hcols]
    simp only [bind, Except.bind, hb, Except.mapError]

theorem exists_update_patch {src : RecordBatch} {c : Nat} {f : Field} {value : Json}
    (hone : src.row_count = 1) (hf : src.schema.fields[c]? = some f) :
    (∃ b, build_update_patch src 0 c value = .ok b) ↔ Fits f value :=
  exists_update_patch_at (by omega) hf

/-! ## The batch that a patch makes -/

/-- The types that a batch can be patched in: all but those the store does not know. -/
def Patchable (schema : Schema) : Prop :=
  schema.fields ≠ [] ∧ ∀ f ∈ schema.fields, ∀ name, f.data_type ≠ .Other name

omit [Render] in
/-- The patch of a delete can always be built. -/
theorem exists_null_patch_at {src : RecordBatch} {t : Nat} (ht : t < src.row_count)
    (hpatchable : Patchable src.schema) : ∃ b, build_null_patch src t = .ok b := by
  have hcount := src.column_count
  -- a nullable column gets a null of its type, and any other its own cell
  have hstep : ∀ p ∈ src.columns.zip src.schema.fields, ∃ a : ArrayRef,
      (if p.2.nullable then make_null_array p.1.data_type else slice_array_to_single p.1 t) = .ok a
        ∧ OneCell p.2 a := by
    rintro ⟨column, f⟩ hmem
    obtain ⟨k, hk, hpair⟩ := List.getElem_of_mem hmem
    simp only [List.length_zip] at hk
    rw [List.getElem_zip, Prod.mk.injEq] at hpair
    obtain ⟨rfl, rfl⟩ := hpair
    have hf : k < src.schema.fields.length := by omega
    have hc : k < src.columns.length := by omega
    by_cases hnullable : src.schema.fields[k].nullable
    · have hother := hpatchable.2 _ (List.getElem_mem hf)
      simp only [hnullable, if_true, (src.column_spec hf hc).1]
      rcases htype : src.schema.fields[k].data_type with _ | _ | _ | _ | _ | _ | _ | name
      case Other => exact absurd htype (hother name)
      all_goals exact ⟨_, rfl, htype.symm, rfl, by simp [hnullable]⟩
    · simp only [hnullable, Bool.false_eq_true, if_false]
      exact ⟨_, rfl, src.one_cell_slice ht hf hc⟩
  obtain ⟨columns, hcols⟩ := exists_mapM.2 fun p hp => (hstep p hp).imp fun _ h => h.1
  have hlength : columns.length = src.schema.fields.length := by
    rw [mapM_ok_length hcols, List.length_zip]
    omega
  have hnew : List.Forall₂ OneCell src.schema.fields columns := by
    rw [List.forall₂_iff_get]
    refine ⟨hlength.symm, fun k hk hk' => ?_⟩
    have hz : k < (src.columns.zip src.schema.fields).length := by
      rw [← mapM_ok_length hcols]
      exact hk'
    have hat := mapM_ok_getElem hcols hz hk'
    obtain ⟨a, ha, hcell⟩ := hstep _ (List.getElem_mem hz)
    obtain rfl := Except.ok.inj (ha.symm.trans hat)
    rwa [List.getElem_zip] at hcell
  obtain ⟨b, hb⟩ := RecordBatch.exists_one_row hpatchable.1 hnew
  refine ⟨b, ?_⟩
  unfold build_null_patch
  rw [hcols]
  simp only [bind, Except.bind, hb, Except.mapError]

omit [Render] in
theorem exists_null_patch {src : RecordBatch} (hone : src.row_count = 1)
    (hpatchable : Patchable src.schema) : ∃ b, build_null_patch src 0 = .ok b :=
  exists_null_patch_at (by omega) hpatchable

omit [Render] in
theorem exists_patch_array {original patch : ArrayRef} (patches : List (Nat × Nat))
    (htype : patch.data_type = original.data_type) (hother : ∀ name, original.data_type ≠ .Other name) :
    ∃ r, patch_array_values original patch patches = .ok r := by
  cases original <;> cases patch <;> simp only [ArrayRef.data_type, reduceCtorEq] at htype
  case OtherArray.OtherArray name _ _ _ => exact absurd rfl (hother name)
  all_goals exact ⟨_, rfl⟩

omit [Render] in
/-- A row patched with a row of the same schema. -/
theorem exists_patched {original patch : RecordBatch} (hone : original.row_count = 1)
    (hpatch : patch.row_count = 1) (hschema : patch.schema = original.schema)
    (haligned : original.Aligned) (hpatchable : Patchable original.schema) :
    ∃ r, patch_record_batch original patch [(0, 0)] = .ok r := by
  have hold := original.one_cell hone
  have hnew := patch.one_cell hpatch
  rw [hschema] at hnew
  have hstep : ∀ p ∈ original.columns.zipIdx,
      ∃ a : ArrayRef, patch_column patch [(0, 0)] p = .ok a := by
    rintro ⟨a, k⟩ hmem
    have hat : original.columns[k]? = some a := List.mem_zipIdx_iff_getElem?.1 hmem
    obtain ⟨hk, rfl⟩ := List.getElem?_eq_some_iff.1 hat
    have hf : k < original.schema.fields.length := by rw [hold.length_eq]; exact hk
    have hp : k < patch.columns.length := by rw [← hnew.length_eq]; exact hf
    have htype : original.columns[k].data_type = original.schema.fields[k].data_type :=
      (hold.get hf hk).data_type
    unfold patch_column
    rw [List.getElem?_eq_getElem hp]
    refine exists_patch_array _ ((hnew.get hf hp).data_type.trans htype.symm) ?_
    rw [htype]
    exact hpatchable.2 _ (List.getElem_mem hf)
  obtain ⟨columns, hcols⟩ := exists_mapM.2 hstep
  have hlength : columns.length = original.columns.length := by
    simpa using mapM_ok_length hcols
  have hcells : List.Forall₂ OneCell original.schema.fields columns := by
    rw [List.forall₂_iff_get]
    refine ⟨hold.length_eq.trans hlength.symm, fun k hf hk => ?_⟩
    have ho : k < original.columns.length := by rw [← hlength]; exact hk
    have hp : k < patch.columns.length := by rw [← hnew.length_eq]; exact hf
    have hat := mapM_ok_getElem hcols (by simpa using ho) hk
    simp only [List.getElem_zipIdx, Nat.zero_add, patch_column, List.getElem?_eq_getElem hp] at hat
    have hlen : original.columns[k].len = 1 := (hold.get hf ho).len
    obtain ⟨hl, ht, -⟩ := patch_array_values_spec hat
    refine ⟨ht.trans (hold.get hf ho).data_type, hl.trans hlen, fun hnullable hcell => ?_⟩
    -- the one cell is that of the patch
    have hzero : 0 < original.columns[k].len := by rw [hlen]; exact Nat.one_pos
    have hvalue := cell_patch_array_values hat (haligned _ (List.getElem_mem ho)) hzero
    have hplen : patch.columns[k].len = 1 := (hnew.get hf hp).len
    rw [hplen, overlay_single, if_pos rfl] at hvalue
    exact (hnew.get hf hp).not_null hnullable (hvalue.symm.trans hcell)
  obtain ⟨b, hb⟩ := RecordBatch.exists_one_row hpatchable.1 hcells
  refine ⟨b, ?_⟩
  unfold patch_record_batch
  rw [hcols]
  simp only [bind, Except.bind, hb, Except.mapError]

/-! ## Updates and deletes of one row -/

/-- A batch as the diffs leave it in a table of this schema. -/
structure OneRow (schema : Schema) (batch : RecordBatch) : Prop where
  schema_eq : batch.schema = schema
  one : batch.row_count = 1
  aligned : batch.Aligned

variable {schema : Schema} {batch : RecordBatch}

theorem exists_update_batch {table_name column : String} {value : Json} (h : OneRow schema batch)
    (hpatchable : Patchable schema) :
    (∃ patched, update_batch table_name batch 0 column value = .ok patched)
      ↔ ∃ c f, schema.index_of column = some c ∧ schema.fields[c]? = some f ∧ Fits f value := by
  obtain ⟨rfl, hone, haligned⟩ := h
  unfold update_batch
  rcases hindex : batch.schema.index_of column with _ | c
  · simp
  have hlt := Schema.index_of_lt hindex
  have hf := List.getElem?_eq_getElem hlt
  simp only [Option.some.injEq, exists_and_left, exists_eq_left', hf]
  rw [← exists_update_patch hone hf]
  constructor
  · rintro ⟨patched, h⟩
    rcases hp : build_update_patch batch 0 c value with e | patch
    · simp [hp, bind, Except.bind] at h
    · exact ⟨patch, rfl⟩
  · rintro ⟨patch, hp⟩
    obtain ⟨hschema, hpone, -⟩ := build_update_patch_spec hp (by omega) hf
    obtain ⟨patched, hpatched⟩ := exists_patched hone hpone hschema haligned hpatchable
    exact ⟨patched, by simpa only [hp, bind, Except.bind] using hpatched⟩

omit [Render] in
theorem exists_delete_batch (h : OneRow schema batch) (hpatchable : Patchable schema) :
    ∃ patched, delete_batch batch 0 = .ok patched := by
  obtain ⟨rfl, hone, haligned⟩ := h
  obtain ⟨patch, hp⟩ := exists_null_patch hone hpatchable
  obtain ⟨hschema, hpone⟩ := build_null_patch_spec hp (by omega)
  obtain ⟨patched, hpatched⟩ := exists_patched hone hpone hschema haligned hpatchable
  exact ⟨patched, by simpa only [delete_batch, hp, bind, Except.bind] using hpatched⟩

end Legal

end Scharnhorst
