/-
The filters of entity materialization.

A configuration says which rows of a table become entities, by their ids or by the value of a
column. The value is compared as JSON: the cell is turned into a `serde_json::Value` of the type that
its array has, and two of these are equal if they are built alike, so an integer equals no float.
-/
import Scharnhorst.Effects

set_option autoImplicit false

namespace Scharnhorst

/-! ## JSON values -/

/-- `PartialEq`. -/
def Number.eq : Number → Number → Bool
  | .PosInt a, .PosInt b => a == b
  | .NegInt a _, .NegInt b _ => a == b
  | .Float a _, .Float b _ => a == b
  | _, _ => false

mutual

/-- `PartialEq`. Of an object the order of the fields does not matter. -/
def Json.eq : Json → Json → Bool
  | .null, .null => true
  | .bool a, .bool b => a == b
  | .number a, .number b => a.eq b
  | .string a, .string b => a == b
  | .array a, .array b => items_eq a b
  | .object a, .object b => a.length == b.length && fields_eq a b
  | _, _ => false

def items_eq : List Json → List Json → Bool
  | [], [] => true
  | a :: as, b :: bs => a.eq b && items_eq as bs
  | _, _ => false

def fields_eq : List (String × Json) → List (String × Json) → Bool
  | [], _ => true
  | (k, v) :: fields, other =>
    (match other.lookup k with
      | some w => v.eq w
      | none => false) && fields_eq fields other

end

/-- `json!(v)` of an `i64`. -/
def json_of_i64 (v : Int64) : Json :=
  if negative : v < 0 then .number (.NegInt v negative) else .number (.PosInt v.toUInt64)

/-- `json!(v)` of an `f64`: what is no number becomes a null. -/
def json_of_f64 (v : F64) : Json :=
  match Number.from_f64 v with
  | none => .null
  | some num => .number num

/-- A null is a value of any type, and of the other values those of the listed types. -/
def json_of_cell : Cell → Option Json
  | .Null => some .null
  | .Int64 v => some (json_of_i64 v)
  | .UInt64 v => some (.number (.PosInt v))
  | .Float64 v => some (json_of_f64 v)
  | .Boolean v => some (.bool v)
  | .Utf8 v | .LargeUtf8 v => some (.string v)
  | .Int32 _ | .Other _ => none

def arrow_value_at (batch : RecordBatch) (column : String) (row_offset : Nat) : Option Json :=
  match (batch.schema.index_of column).bind (batch.columns[·]?) with
  | none => none
  | some array =>
    if array.len ≤ row_offset then none else json_of_cell (array.cell row_offset)

/-! ## Filters -/

inductive MaterializationFilter where
  | ColumnEquals (column : String) (value : Json)
  | RowIdRange (start stop : RowId)
  | AllRows

namespace MaterializationFilter

def matches_row_id (self : MaterializationFilter) (row_id : RowId) : Bool :=
  match self with
  | .AllRows => true
  | .RowIdRange start stop => start ≤ row_id ∧ row_id ≤ stop
  | .ColumnEquals _ _ => true

def matches_value (self : MaterializationFilter) (batch : RecordBatch) (row_offset : Nat) : Bool :=
  match self with
  | .AllRows => true
  | .RowIdRange _ _ => true
  | .ColumnEquals column value =>
    match arrow_value_at batch column row_offset with
    | some v => v.eq value
    | none => false

/-- What `materialize` asks of a filter, for one row of the view. -/
def admits (self : MaterializationFilter) (view : TableReadView) (row_id : RowId) : Bool :=
  self.matches_row_id row_id &&
    match self with
    | .ColumnEquals _ _ =>
      match view.position_map.position_of row_id with
      | none => false
      | some (batch_idx, row_offset) =>
        match view.batches[batch_idx]? with
        | none => false
        | some batch => self.matches_value batch row_offset
    | _ => true

end MaterializationFilter

end Scharnhorst
