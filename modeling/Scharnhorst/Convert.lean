/-
From JSON to Arrow: the storage-type registry, the value conversions, and the
one-row batch an insert becomes.

The conversions are the source's, check by check, because a diff fails or succeeds
by them. What the rest of the development needs of them is one statement:
`json_value_to_array` either fails or returns a one-element array of the type it was
asked for, whose element is `json_cell`.
-/
import Scharnhorst.Arrow
import Scharnhorst.Attempt
import Scharnhorst.Schema

set_option autoImplicit false

namespace Scharnhorst

open Attempt

/-! ## The type registry -/

/-- `TypeRegistry`. Of an entry only the Arrow type is kept: the two factories
registered beside it are called by nothing in the store. -/
structure TypeRegistry where
  entries : Map String DataType
deriving DecidableEq

namespace TypeRegistry

def register (reg : TypeRegistry) (name : String) (data_type : DataType) : TypeRegistry :=
  ⟨reg.entries.insert name data_type⟩

def resolve_data_type (reg : TypeRegistry) (name : String) : ArrowStoreResult DataType :=
  match reg.entries[name]? with
  | some dt => .ok dt
  | none => .error (.Schema s!"unsupported storage type: {name}")

end TypeRegistry

def default_type_registry : TypeRegistry :=
  (⟨∅⟩ : TypeRegistry)
    |>.register "i64" .Int64
    |>.register "i32" .Int32
    |>.register "u64" .UInt64
    |>.register "f64" .Float64
    |>.register "utf8" .Utf8
    |>.register "large_utf8" .LargeUtf8
    |>.register "bool" .Boolean

/-! ## Scalars -/

section Scalars

variable [Render]

open Render

def json_to_i64 (value : Json) : ArrowStoreResult Int64 :=
  match value.as_i64 with
  | some v => .ok v
  | none =>
    match value.as_f64 with
    | some v =>
      if i64_to_f64 Int64.minValue ≤ v ∧ v ≤ i64_to_f64 Int64.maxValue then
        .ok (f64_to_i64 v)
      else
        .error (.Schema s!"value {f64_to_string v} out of range for i64")
    | none => .error (.Schema s!"expected i64, got {value_debug value}")

def json_to_i32 (value : Json) : ArrowStoreResult Int32 :=
  match value.as_i64.or (value.as_f64.map f64_to_i64) with
  | none => .error (.Schema s!"expected i32, got {value_debug value}")
  | some val =>
    -- a float has been cast to `i64`, which saturates
    if Int32.minValue.toInt ≤ val.toInt ∧ val.toInt ≤ Int32.maxValue.toInt then
      .ok val.toInt32
    else
      .error (.Schema s!"value {val.toInt} out of range for i32")

def json_to_u64 (value : Json) : ArrowStoreResult UInt64 :=
  match value.as_u64 with
  | some v => .ok v
  | none =>
    match value.as_i64 with
    | some v =>
      if 0 ≤ v then .ok v.toUInt64
      else .error (.Schema s!"negative value {v.toInt} for u64")
    | none =>
      match value.as_f64 with
      | some v =>
        -- a whole number below `2^64`: the cast back gives it again
        if 0.0 ≤ v ∧ v < u64_to_f64 (UInt64.ofNat u64_MAX)
            ∧ (u64_to_f64 (f64_to_u64 v) == v) = true then
          .ok (f64_to_u64 v)
        else
          .error (.Schema s!"value {f64_to_string v} out of range for u64")
      | none => .error (.Schema s!"expected u64, got {value_debug value}")

def json_to_f64 (value : Json) : ArrowStoreResult F64 :=
  match value.as_f64.or (value.as_i64.map i64_to_f64) with
  | some v => .ok v
  | none => .error (.Schema s!"expected f64, got {value_debug value}")

def json_to_bool (value : Json) : ArrowStoreResult Bool :=
  match value.as_bool with
  | some b => .ok b
  | none => .error (.Schema s!"expected bool, got {value_debug value}")

def json_to_string : Json → ArrowStoreResult String
  | .string s => .ok s
  | .null => .ok ""
  | other => .error (.Schema s!"expected utf8 string, got {value_to_string other}")

/-! ## Arrays -/

/-- A one-element array of the column's type; JSON `null` is a null of any type. -/
def json_value_to_array (value : Json) (data_type : DataType) : ArrowStoreResult ArrayRef :=
  if value.is_null then
    match data_type with
    | .Int64 => .ok (.Int64Array (.from_none 0))
    | .Int32 => .ok (.Int32Array (.from_none 0))
    | .UInt64 => .ok (.UInt64Array (.from_none 0))
    | .Float64 => .ok (.Float64Array (.from_none 0))
    | .Boolean => .ok (.BooleanArray [none])
    | .Utf8 => .ok (.StringArray [none])
    | .LargeUtf8 => .ok (.LargeStringArray [none])
    | .Other name => .error (.Schema s!"unsupported data type for JSON conversion: {name}")
  else
    match data_type with
    | .Int64 => (json_to_i64 value).map fun v => .Int64Array (.from_value v)
    | .Int32 => (json_to_i32 value).map fun v => .Int32Array (.from_value v)
    | .UInt64 => (json_to_u64 value).map fun v => .UInt64Array (.from_value v)
    | .Float64 => (json_to_f64 value).map fun v => .Float64Array (.from_value v)
    | .Boolean => (json_to_bool value).map fun v => .BooleanArray [some v]
    | .Utf8 => (json_to_string value).map fun v => .StringArray [some v]
    | .LargeUtf8 => (json_to_string value).map fun v => .LargeStringArray [some v]
    | .Other name => .error (.Schema s!"unsupported data type for JSON conversion: {name}")

/-- The cell a JSON value stands for in a column of the given type, where it stands
for one. -/
def json_cell (value : Json) (data_type : DataType) : Cell :=
  if value.is_null then .Null
  else
    match data_type with
    | .Int64 => (json_to_i64 value).toOption.elim .Null .Int64
    | .Int32 => (json_to_i32 value).toOption.elim .Null .Int32
    | .UInt64 => (json_to_u64 value).toOption.elim .Null .UInt64
    | .Float64 => (json_to_f64 value).toOption.elim .Null .Float64
    | .Boolean => (json_to_bool value).toOption.elim .Null .Boolean
    | .Utf8 => (json_to_string value).toOption.elim .Null .Utf8
    | .LargeUtf8 => (json_to_string value).toOption.elim .Null .LargeUtf8
    | .Other _ => .Null

/-- A one-element array of the given type, holding the given cell, whose null buffer
starts at bit 0. -/
structure IsSingle (a : ArrayRef) (data_type : DataType) (c : Cell) : Prop where
  data_type_eq : a.data_type = data_type
  len_eq : a.len = 1
  cell_eq : a.cell 0 = c
  aligned : a.Aligned

theorem json_value_to_array_spec {value : Json} {dt : DataType} {a : ArrayRef}
    (h : json_value_to_array value dt = .ok a) : IsSingle a dt (json_cell value dt) := by
  unfold json_value_to_array at h
  split at h
  · rename_i hnull
    cases dt <;> cases h <;> refine ⟨rfl, rfl, ?_, ?_⟩
    all_goals simp [json_cell, hnull, ArrayRef.cell, ArrayRef.Aligned,
      PrimitiveArray.aligned_from_none]
  · rename_i hnull
    cases dt
    case Other => cases h
    all_goals
      simp only [Except.map] at h
      split at h <;> cases h
      rename_i v hv
      refine ⟨rfl, rfl, ?_, ?_⟩
      · simp [json_cell, hnull, hv, ArrayRef.cell, Except.toOption]
      · simp [ArrayRef.Aligned, PrimitiveArray.aligned_from_value]

/-! ## The row of an insert -/

/-- One row, one column per field; a field the map does not name is null. -/
def json_map_to_record_batch (values : JsonMap) (schema : Schema) :
    ArrowStoreResult RecordBatch := do
  let columns ← schema.fields.mapM fun field =>
    json_value_to_array (values.getD field.name .null) field.data_type
  (RecordBatch.try_new schema columns).mapError fun e => .Arrow s!"json_map_to_record_batch: {e}"

/-- The cells of that row. -/
def json_row (values : JsonMap) (schema : Schema) : List Cell :=
  schema.fields.map fun field => json_cell (values.getD field.name .null) field.data_type

theorem json_map_to_record_batch_spec {values : JsonMap} {schema : Schema} {b : RecordBatch}
    (h : json_map_to_record_batch values schema = .ok b) :
    b.schema = schema ∧ b.row_count = 1 ∧ b.Aligned ∧ b.row 0 = json_row values schema := by
  obtain ⟨hschema, hcols, first, hfirst, hcount⟩ := RecordBatch.built_ok h
  refine ⟨hschema, ?_, ?_, ?_⟩
  · rw [hcount]
    exact mapM_ok_forall hcols (fun _ _ ha => (json_value_to_array_spec ha).len_eq) _ hfirst
  · exact mapM_ok_forall hcols fun _ _ ha => (json_value_to_array_spec ha).aligned
  · exact mapM_ok_map hcols fun _ _ ha => (json_value_to_array_spec ha).cell_eq

end Scalars

end Scharnhorst
