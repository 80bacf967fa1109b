/-
Three ways through a table.

Beside the lookup of one row there is a cursor, that goes from row to row, and a columnar reader,
that gives a column as a slice. Neither knows of row ids, and both see only the first batch of a
view; a lookup goes through the position map to any batch. Where the batches of a view are merged
into one, the three see the same rows: the cursor is at the row `k` after `k` steps, the slices hold
the rows in the same order, and the row that was at the offset `o` of the batch `b` is the one that
the cursor comes to after `ordinal (b, o)` steps.

What the getters do with a cell is said once for all types of values, by the type of the column and
the cell. Of two columns of one name all three take the first.
-/
import Scharnhorst.MergedView
import Scharnhorst.Readable

set_option autoImplicit false

namespace Scharnhorst

open Maps Blocks

/-! ## Typed arrays -/

/-- The array that a value type is stored in. A slot is `is_null` and `value` in one. -/
class ArrowArray (T : Type) where
  Array : Type
  type_name : String
  downcast_ref : ArrayRef → Option Array
  len : Array → Nat
  slot : Array → Nat → Option T

instance : ArrowArray Int64 where
  Array := PrimitiveArray Int64
  type_name := "arrow_array::array::primitive_array::PrimitiveArray<arrow_array::types::Int64Type>"
  downcast_ref
    | .Int64Array a => some a
    | _ => none
  len := PrimitiveArray.len
  slot := PrimitiveArray.get

instance : ArrowArray UInt64 where
  Array := PrimitiveArray UInt64
  type_name := "arrow_array::array::primitive_array::PrimitiveArray<arrow_array::types::UInt64Type>"
  downcast_ref
    | .UInt64Array a => some a
    | _ => none
  len := PrimitiveArray.len
  slot := PrimitiveArray.get

instance : ArrowArray F64 where
  Array := PrimitiveArray F64
  type_name := "arrow_array::array::primitive_array::PrimitiveArray<arrow_array::types::Float64Type>"
  downcast_ref
    | .Float64Array a => some a
    | _ => none
  len := PrimitiveArray.len
  slot := PrimitiveArray.get

instance : ArrowArray Bool where
  Array := List (Option Bool)
  type_name := "arrow_array::array::boolean_array::BooleanArray"
  downcast_ref
    | .BooleanArray a => some a
    | _ => none
  len := List.length
  slot a i := a[i]?.join

instance : ArrowArray String where
  Array := List (Option String)
  type_name :=
    "arrow_array::array::byte_array::GenericByteArray<arrow_array::types::GenericStringType<i32>>"
  downcast_ref
    | .StringArray a => some a
    | _ => none
  len := List.length
  slot a i := a[i]?.join

/-- `TypedColumnAccess<T>` of a `ColumnView`. -/
class TypedColumnAccess (T : Type) where
  get : ArrayRef → String → Nat → QueryResult (Option T)

instance : TypedColumnAccess Int64 := ⟨get_int64⟩
instance : TypedColumnAccess UInt64 := ⟨get_uint64⟩
instance : TypedColumnAccess F64 := ⟨get_float64⟩
instance : TypedColumnAccess Bool := ⟨get_boolean⟩
instance : TypedColumnAccess String := ⟨get_utf8⟩

structure ColumnView where
  array : ArrayRef
  field_name : String
deriving DecidableEq

namespace ColumnView

def len (view : ColumnView) : Nat := view.array.len

def get (T : Type) [TypedColumnAccess T] (view : ColumnView) (row : Nat) :
    QueryResult (Option T) :=
  TypedColumnAccess.get view.array view.field_name row

end ColumnView

/-! ## Cursor and reader -/

/-- The check of `new`, of a cursor and of a reader: the first column tells the number of rows. -/
def shared_row_count {α : Type} (len : α → Nat) (columns : List (String × α)) : QueryResult Nat :=
  let row_count := (columns.head?.map fun e => len e.2).getD 0
  match columns.find? fun e => len e.2 ≠ row_count with
  | some (name, view) =>
    .error (.InvalidQuery s!"column '{name}' has {len view} rows, expected {row_count}")
  | none => .ok row_count

/-- The first column of the name. The error names no table. -/
def find_column {α : Type} (columns : List (String × α)) (name : String) : QueryResult α :=
  match columns.find? (·.1 == name) with
  | some (_, view) => .ok view
  | none => .error (.ColumnNotFound name "")

structure RowCursor where
  columns : List (String × ColumnView)
  row_count : Nat
  current_row : Nat
deriving DecidableEq

namespace RowCursor

def new (columns : List (String × ColumnView)) : QueryResult RowCursor :=
  (shared_row_count ColumnView.len columns).map fun row_count =>
    { columns, row_count, current_row := 0 }

def advance (cursor : RowCursor) : Bool × RowCursor :=
  if cursor.current_row + 1 < cursor.row_count then
    (true, { cursor with current_row := cursor.current_row + 1 })
  else
    (false, cursor)

def reset (cursor : RowCursor) : RowCursor := { cursor with current_row := 0 }

def get_column (cursor : RowCursor) (name : String) : QueryResult ColumnView :=
  find_column cursor.columns name

def get_typed (T : Type) [TypedColumnAccess T] (cursor : RowCursor) (name : String) :
    QueryResult (Option T) :=
  cursor.get_column name >>= fun col => col.get T cursor.current_row

end RowCursor

/-- `I64Slice` and the others. -/
structure Slice (T : Type) [ArrowArray T] where
  array : ArrowArray.Array T

abbrev BooleanSlice := Slice Bool
abbrev I64Slice := Slice Int64
abbrev F64Slice := Slice F64
abbrev StringSlice := Slice String

namespace Slice

variable {T : Type} [ArrowArray T] (slice : Slice T)

def len : Nat := ArrowArray.len slice.array

def get (row : Nat) : QueryResult (Option T) :=
  if slice.len ≤ row then .error (.IndexOutOfBounds row) else .ok (ArrowArray.slot slice.array row)

def iter_valid : List T := (List.range slice.len).filterMap (ArrowArray.slot slice.array)

end Slice

structure BatchColumnReader where
  arrays : List (String × ArrayRef)
  row_count : Nat
deriving DecidableEq

namespace BatchColumnReader

def new (arrays : List (String × ArrayRef)) : QueryResult BatchColumnReader :=
  (shared_row_count ArrayRef.len arrays).map fun row_count => { arrays, row_count }

def array_ref (reader : BatchColumnReader) (name : String) : QueryResult ArrayRef :=
  find_column reader.arrays name

def typed_array (T : Type) [ArrowArray T] (reader : BatchColumnReader) (name : String) :
    QueryResult (ArrowArray.Array T) :=
  reader.array_ref name >>= fun arr =>
    match ArrowArray.downcast_ref (T := T) arr with
    | some typed => .ok typed
    | none => .error (.TypeMismatch name (ArrowArray.type_name T) arr.data_type.to_string)

/-- `i64_slice` and the others. -/
def slice (T : Type) [ArrowArray T] (reader : BatchColumnReader) (name : String) :
    QueryResult (Slice T) :=
  (reader.typed_array T name).map fun array => { array }

def bool_slice : BatchColumnReader → String → QueryResult BooleanSlice := slice Bool
def i64_slice : BatchColumnReader → String → QueryResult I64Slice := slice Int64
def f64_slice : BatchColumnReader → String → QueryResult F64Slice := slice F64
def string_slice : BatchColumnReader → String → QueryResult StringSlice := slice String

end BatchColumnReader

namespace TableReadView

/-- `first_batch_reader` and `first_batch_cursor` stop here if there is no batch. -/
def first_batch (view : TableReadView) : QueryResult RecordBatch :=
  match view.batches with
  | [] => .error (.InvalidQuery s!"table '{view.table_name}' has no batches at tick {view.tick}")
  | batch :: _ => .ok batch

def first_batch_reader (view : TableReadView) : QueryResult BatchColumnReader :=
  view.first_batch >>= fun batch =>
    BatchColumnReader.new ((batch.schema.fields.zip batch.columns).map fun e => (e.1.name, e.2))

def first_batch_cursor (view : TableReadView) : QueryResult RowCursor :=
  view.first_batch >>= fun batch =>
    RowCursor.new ((batch.schema.fields.zip batch.columns).map fun e =>
      (e.1.name, { array := e.2, field_name := e.1.name }))

end TableReadView

namespace QueryEngine

/-- What `row_cursor` and `batch_reader` look for. The tick is read and not used. -/
def cached_view (q : QueryEngine) (table_name : String) : QueryResult TableReadView :=
  match q.view_cache.read with
  | .error _ => .error (.UnifiedRead "poisoned lock")
  | .ok cache =>
    match cache[table_name]? with
    | none => .error (.TableNotFound table_name)
    | some view => .ok view

def row_cursor (q : QueryEngine) (table_name : String) : QueryResult RowCursor :=
  q.cached_view table_name >>= TableReadView.first_batch_cursor

def batch_reader (q : QueryEngine) (table_name : String) : QueryResult BatchColumnReader :=
  q.cached_view table_name >>= TableReadView.first_batch_reader

end QueryEngine

/-- `get_i64` and the others. -/
def RowLookupView.get (T : Type) [TypedColumnAccess T] (lookup : RowLookupView) (column : String) :
    QueryResult (Option T) :=
  lookup.column_view column >>= fun array => TypedColumnAccess.get array column lookup.row_offset

theorem RowLookupView.getters (lookup : RowLookupView) (column : String) :
    lookup.get_i64 column = lookup.get Int64 column ∧ lookup.get_u64 column = lookup.get UInt64 column
      ∧ lookup.get_f64 column = lookup.get F64 column ∧ lookup.get_bool column = lookup.get Bool column
      ∧ lookup.get_string column = lookup.get String column :=
  ⟨rfl, rfl, rfl, rfl, rfl⟩

/-! ## What is read -/

/-- A type of values, by the columns that it reads and what it makes of a cell. -/
class ReadsCells (T : Type) extends ArrowArray T, TypedColumnAccess T where
  data_type : DataType
  of_cell : Cell → Option T
  downcast : ∀ array : ArrayRef, array.data_type = data_type →
    ∃ typed, downcast_ref array = some typed ∧ len typed = array.len
      ∧ ∀ i, slot typed i = of_cell (array.cell i)
  mismatch : ∀ array : ArrayRef, array.data_type ≠ data_type → downcast_ref array = none
  access : ∀ (array : ArrayRef) (column : String) (row : Nat),
    get array column row
      = match downcast_ref array with
        | none => .error (.TypeMismatch column type_name array.data_type.to_string)
        | some typed =>
          if len typed ≤ row then .error (.IndexOutOfBounds row) else .ok (slot typed row)

instance : ReadsCells Int64 where
  data_type := .Int64
  of_cell
    | .Int64 v => some v
    | _ => none
  downcast array h := by
    cases array with
    | Int64Array a =>
      refine ⟨a, rfl, rfl, fun i => ?_⟩
      change a.get i = _
      rw [ArrayRef.cell]
      cases a.get i <;> rfl
    | _ => cases h
  mismatch array h := by
    cases array with
    | Int64Array a => exact absurd rfl h
    | _ => rfl
  access array column row := by cases array <;> rfl

instance : ReadsCells UInt64 where
  data_type := .UInt64
  of_cell
    | .UInt64 v => some v
    | _ => none
  downcast array h := by
    cases array with
    | UInt64Array a =>
      refine ⟨a, rfl, rfl, fun i => ?_⟩
      change a.get i = _
      rw [ArrayRef.cell]
      cases a.get i <;> rfl
    | _ => cases h
  mismatch array h := by
    cases array with
    | UInt64Array a => exact absurd rfl h
    | _ => rfl
  access array column row := by cases array <;> rfl

instance : ReadsCells F64 where
  data_type := .Float64
  of_cell
    | .Float64 v => some v
    | _ => none
  downcast array h := by
    cases array with
    | Float64Array a =>
      refine ⟨a, rfl, rfl, fun i => ?_⟩
      change a.get i = _
      rw [ArrayRef.cell]
      cases a.get i <;> rfl
    | _ => cases h
  mismatch array h := by
    cases array with
    | Float64Array a => exact absurd rfl h
    | _ => rfl
  access array column row := by cases array <;> rfl

instance : ReadsCells Bool where
  data_type := .Boolean
  of_cell
    | .Boolean v => some v
    | _ => none
  downcast array h := by
    cases array with
    | BooleanArray a =>
      refine ⟨a, rfl, rfl, fun i => ?_⟩
      change a[i]?.join = _
      rw [ArrayRef.cell]
      cases a[i]?.join <;> rfl
    | _ => cases h
  mismatch array h := by
    cases array with
    | BooleanArray a => exact absurd rfl h
    | _ => rfl
  access array column row := by cases array <;> rfl

instance : ReadsCells String where
  data_type := .Utf8
  of_cell
    | .Utf8 v => some v
    | _ => none
  downcast array h := by
    cases array with
    | StringArray a =>
      refine ⟨a, rfl, rfl, fun i => ?_⟩
      change a[i]?.join = _
      rw [ArrayRef.cell]
      cases a[i]?.join <;> rfl
    | _ => cases h
  mismatch array h := by
    cases array with
    | StringArray a => exact absurd rfl h
    | _ => rfl
  access array column row := by cases array <;> rfl

/-- What a getter makes of a cell of a column. -/
def read_cell (T : Type) [ReadsCells T] (column : String) (data_type : DataType) (cell : Cell) :
    QueryResult (Option T) :=
  if data_type = ReadsCells.data_type T then .ok (ReadsCells.of_cell cell)
  else .error (.TypeMismatch column (ArrowArray.type_name T) data_type.to_string)

/-- The getters read cells. -/
theorem ReadsCells.get_eq (T : Type) [ReadsCells T] (array : ArrayRef) (column : String) {row : Nat}
    (hrow : row < array.len) :
    TypedColumnAccess.get array column row
      = read_cell T column array.data_type (array.cell row) := by
  rw [ReadsCells.access, read_cell]
  by_cases htype : array.data_type = ReadsCells.data_type T
  · obtain ⟨typed, htyped, hlen, hslot⟩ := ReadsCells.downcast array htype
    rw [htyped, if_pos htype]
    simp only
    rw [if_neg (by omega), hslot]
  · rw [ReadsCells.mismatch array htype, if_neg htype]

/-! ## Columns by name -/

section Names

variable {α : Type} {len : α → Nat} {columns : List (String × α)}

theorem shared_row_count_ok {n : Nat} (hne : columns ≠ []) (hlen : ∀ e ∈ columns, len e.2 = n) :
    shared_row_count len columns = .ok n := by
  obtain ⟨first, rest, rfl⟩ := List.exists_cons_of_ne_nil hne
  have hfirst : len first.2 = n := hlen first List.mem_cons_self
  have hnone : (first :: rest).find? (fun e => len e.2 ≠ n) = none := by
    rw [List.find?_eq_none]
    intro e he
    simp [hlen e he]
  simp only [shared_row_count, List.head?_cons, Option.map_some, Option.getD_some, hfirst, hnone]

variable (view : Field → ArrayRef → α) {fields : List Field} {arrays : List ArrayRef} {name : String}

/-- The columns that a cursor and a reader are built from. -/
theorem find_column_none (arrays : List ArrayRef) (h : fields.findIdx? (·.name == name) = none) :
    find_column ((fields.zip arrays).map fun e => (e.1.name, view e.1 e.2)) name
      = .error (.ColumnNotFound name "") := by
  have hnone : ((fields.zip arrays).map fun e => (e.1.name, view e.1 e.2)).find? (·.1 == name)
      = none := by
    rw [List.find?_eq_none]
    intro e he
    obtain ⟨p, hp, rfl⟩ := List.mem_map.1 he
    simpa using List.findIdx?_eq_none_iff.1 h p.1 (List.of_mem_zip hp).1
  rw [find_column, hnone]

/-- The first of the name, as the index of the schema has it. -/
theorem find_column_some {c : Nat} {f : Field} {array : ArrayRef}
    (h : fields.findIdx? (·.name == name) = some c) (hfield : fields[c]? = some f)
    (harray : arrays[c]? = some array) :
    f.name = name ∧ find_column ((fields.zip arrays).map fun e => (e.1.name, view e.1 e.2)) name
      = .ok (view f array) := by
  induction fields generalizing c arrays with
  | nil => cases hfield
  | cons first fields ih =>
    rcases arrays with _ | ⟨array', arrays⟩
    · cases harray
    rw [List.findIdx?_cons] at h
    rw [find_column, List.zip_cons_cons, List.map_cons, List.find?_cons]
    by_cases hname : first.name = name
    · rw [if_pos (by simpa using hname), Option.some.injEq] at h
      subst h
      obtain rfl : first = f := by simpa using hfield
      obtain rfl : array' = array := by simpa using harray
      simp [hname]
    · rw [if_neg (by simpa using hname), Option.map_eq_some_iff] at h
      obtain ⟨c', h', rfl⟩ := h
      obtain ⟨hf, hrest⟩ := ih h' (by simpa using hfield) (by simpa using harray)
      refine ⟨hf, ?_⟩
      rw [beq_eq_false_iff_ne.2 hname]
      exact hrest

end Names

/-! ## Steps -/

namespace RowCursor

/-- The cursor after some steps. -/
def walk (cursor : RowCursor) : Nat → RowCursor
  | 0 => cursor
  | k + 1 => (cursor.walk k).advance.2

variable {cursor : RowCursor}

/-- A cursor stays at the last row. -/
theorem walk_eq (hstart : cursor.current_row = 0) (k : Nat) :
    cursor.walk k = { cursor with current_row := min k (cursor.row_count - 1) } := by
  induction k with
  | zero =>
    simp only [walk, Nat.zero_min]
    rw [← hstart]
  | succ k ih =>
    rw [walk, ih, advance]
    simp only
    split
    · rename_i hlt
      have hk : min (k + 1) (cursor.row_count - 1) = min k (cursor.row_count - 1) + 1 := by omega
      rw [hk]
    · rename_i hge
      have hk : min (k + 1) (cursor.row_count - 1) = min k (cursor.row_count - 1) := by omega
      rw [hk]

end RowCursor

/-! ## Scans -/

/-- A cursor and a reader that see these rows, each column through any of the getters. -/
structure Scanned (rows : List (List Cell)) (schema : Schema) (cursor : RowCursor)
    (reader : BatchColumnReader) : Prop where
  cursor_rows : cursor.row_count = rows.length
  reader_rows : reader.row_count = rows.length
  /-- One row after the other, and at the last one the cursor stays and says so. -/
  steps : ∀ k, (cursor.walk k).current_row = min k (rows.length - 1)
    ∧ ((cursor.walk k).advance.1 = true ↔ k + 1 < rows.length)
  again : ∀ k, (cursor.walk k).reset = cursor
  read : ∀ (T : Type) [ReadsCells T] (column : String) (c : Nat) (f : Field),
    schema.index_of column = some c → schema.fields[c]? = some f →
    ∀ k row, rows[k]? = some row → ∃ cell, row[c]? = some cell
      ∧ (cursor.walk k).get_typed T column = read_cell T column f.data_type cell
  slice : ∀ (T : Type) [ReadsCells T] (column : String) (c : Nat) (f : Field),
    schema.index_of column = some c → schema.fields[c]? = some f →
    f.data_type = ReadsCells.data_type T →
    ∃ slice, reader.slice T column = .ok slice
      ∧ (∀ k row, rows[k]? = some row → slice.get k = (cursor.walk k).get_typed T column)
      ∧ (∀ k, rows.length ≤ k → slice.get k = .error (.IndexOutOfBounds k))
      ∧ slice.iter_valid = rows.filterMap fun row => row[c]?.bind ReadsCells.of_cell
  mistyped : ∀ (T : Type) [ReadsCells T] (column : String) (c : Nat) (f : Field),
    schema.index_of column = some c → schema.fields[c]? = some f →
    f.data_type ≠ ReadsCells.data_type T →
    reader.slice T column
      = .error (.TypeMismatch column (ArrowArray.type_name T) f.data_type.to_string)
  missing : ∀ (T : Type) [ReadsCells T] (column : String), schema.index_of column = none →
    (∀ k, (cursor.walk k).get_typed T column = .error (.ColumnNotFound column ""))
      ∧ reader.slice T column = .error (.ColumnNotFound column "")

namespace RecordBatch

variable {batch : RecordBatch}

def cursor (batch : RecordBatch) : RowCursor where
  columns := (batch.schema.fields.zip batch.columns).map fun e =>
    (e.1.name, { array := e.2, field_name := e.1.name })
  row_count := batch.row_count
  current_row := 0

def reader (batch : RecordBatch) : BatchColumnReader where
  arrays := (batch.schema.fields.zip batch.columns).map fun e => (e.1.name, e.2)
  row_count := batch.row_count

theorem cursor_opens (hfields : batch.schema.fields ≠ []) {view : TableReadView}
    {rest : List RecordBatch} (hview : view.batches = batch :: rest) :
    view.first_batch_cursor = .ok batch.cursor ∧ view.first_batch_reader = .ok batch.reader := by
  have hlength : batch.schema.fields.length = batch.columns.length := by
    rw [batch.column_count]
  have hne : batch.schema.fields.zip batch.columns ≠ [] := by
    rw [← List.length_pos_iff, List.length_zip, ← hlength, Nat.min_self, List.length_pos_iff]
    exact hfields
  have hlen : ∀ e ∈ batch.schema.fields.zip batch.columns, e.2.len = batch.row_count :=
    fun e he => batch.column_len e.2 (List.of_mem_zip he).2
  constructor
  · rw [TableReadView.first_batch_cursor, TableReadView.first_batch, hview]
    change RowCursor.new _ = _
    rw [RowCursor.new, shared_row_count_ok (n := batch.row_count)]
    · rfl
    · simpa using hne
    · intro e he
      obtain ⟨p, hp, rfl⟩ := List.mem_map.1 he
      exact hlen p hp
  · rw [TableReadView.first_batch_reader, TableReadView.first_batch, hview]
    change BatchColumnReader.new _ = _
    rw [BatchColumnReader.new, shared_row_count_ok (n := batch.row_count)]
    · rfl
    · simpa using hne
    · intro e he
      obtain ⟨p, hp, rfl⟩ := List.mem_map.1 he
      exact hlen p hp

/-- A column that the schema has. -/
theorem column_at {column : String} {c : Nat} {f : Field}
    (hindex : batch.schema.index_of column = some c) (hfield : batch.schema.fields[c]? = some f) :
    ∃ array, batch.columns[c]? = some array ∧ f.name = column ∧ array.data_type = f.data_type
      ∧ array.len = batch.row_count := by
  have hlt : c < batch.columns.length := by
    rw [batch.column_count]
    exact Schema.index_of_lt hindex
  have harray := List.getElem?_eq_getElem hlt
  refine ⟨_, harray, ?_, batch.column_type hfield harray, ?_⟩
  · exact (find_column_some (fun _ a => a) hindex hfield harray).1
  · exact batch.column_len _ (List.getElem_mem hlt)

/-- A row of a batch, by its number. -/
theorem rows_at {k : Nat} {row : List Cell} (hrow : batch.rows[k]? = some row) :
    k < batch.row_count ∧ batch.row k = row := by
  have hlt : k < batch.row_count := by
    rw [← batch.length_rows]
    exact (List.getElem?_eq_some_iff.1 hrow).1
  rw [rows, List.getElem?_map, List.getElem?_range hlt, Option.map_some, Option.some.injEq] at hrow
  exact ⟨hlt, hrow⟩

theorem cursor_walk (k : Nat) :
    batch.cursor.walk k = { batch.cursor with current_row := min k (batch.row_count - 1) } :=
  RowCursor.walk_eq rfl k

section Typed

variable {T : Type} [ReadsCells T] {column : String} {c : Nat} {f : Field}
  (hindex : batch.schema.index_of column = some c) (hfield : batch.schema.fields[c]? = some f)
include hindex hfield

/-- After `k` steps the cursor reads the row `k`. -/
theorem cursor_reads {k : Nat} (hk : k < batch.row_count) :
    ∃ array, batch.columns[c]? = some array
      ∧ (batch.cursor.walk k).get_typed T column
        = read_cell T column f.data_type (array.cell k) := by
  obtain ⟨array, harray, hname, htype, hlen⟩ := column_at hindex hfield
  refine ⟨array, harray, ?_⟩
  have hcolumn := (find_column_some (fun f a => ({ array := a, field_name := f.name } : ColumnView))
    hindex hfield harray).2
  have hat : min k (batch.row_count - 1) = k := by omega
  rw [cursor_walk, hat, RowCursor.get_typed, RowCursor.get_column, cursor, hcolumn]
  change TypedColumnAccess.get array f.name k = _
  rw [hname, ReadsCells.get_eq T array column (by omega), htype]

theorem reader_slice (htype : f.data_type = ReadsCells.data_type T) :
    ∃ array, ∃ slice : Slice T, batch.columns[c]? = some array
      ∧ batch.reader.slice T column = .ok slice ∧ slice.len = batch.row_count
      ∧ ∀ k, ArrowArray.slot slice.array k = ReadsCells.of_cell (array.cell k) := by
  obtain ⟨array, harray, -, htyped, hlen⟩ := column_at hindex hfield
  obtain ⟨typed, hdowncast, hcount, hslots⟩ := ReadsCells.downcast array (htyped.trans htype)
  refine ⟨array, ⟨typed⟩, harray, ?_, hcount.trans hlen, hslots⟩
  have hcolumn := (find_column_some (fun _ a => a) hindex hfield harray).2
  rw [BatchColumnReader.slice, BatchColumnReader.typed_array, BatchColumnReader.array_ref, reader,
    hcolumn]
  simp only [bind, Except.bind, hdowncast, Except.map]

theorem reader_mistyped (htype : f.data_type ≠ ReadsCells.data_type T) :
    batch.reader.slice T column
      = .error (.TypeMismatch column (ArrowArray.type_name T) f.data_type.to_string) := by
  obtain ⟨array, harray, -, htyped, -⟩ := column_at hindex hfield
  have hcolumn := (find_column_some (fun _ a => a) hindex hfield harray).2
  have hnone : ArrowArray.downcast_ref (T := T) array = none := by
    apply ReadsCells.mismatch
    rw [htyped]
    exact htype
  rw [BatchColumnReader.slice, BatchColumnReader.typed_array, BatchColumnReader.array_ref, reader,
    hcolumn, ← htyped]
  simp only [bind, Except.bind, hnone, Except.map]

end Typed

/-- The cursor and the reader of a batch see its rows. -/
theorem scanned (batch : RecordBatch) :
    Scanned batch.rows batch.schema batch.cursor batch.reader where
  cursor_rows := batch.length_rows.symm
  reader_rows := batch.length_rows.symm
  steps k := by
    rw [cursor_walk, batch.length_rows]
    refine ⟨rfl, ?_⟩
    rw [RowCursor.advance]
    change (if min k (batch.row_count - 1) + 1 < batch.row_count then _ else _ : Bool × RowCursor).1
      = true ↔ _
    split
    · exact iff_of_true rfl (by omega)
    · exact iff_of_false Bool.false_ne_true (by omega)
  again k := by rw [cursor_walk, RowCursor.reset, cursor]
  read := by
    intro T _ column c f hindex hfield k row hrow
    obtain ⟨hk, rfl⟩ := rows_at hrow
    obtain ⟨array, harray, hread⟩ := cursor_reads (T := T) hindex hfield hk
    refine ⟨array.cell k, ?_, hread⟩
    rw [row, List.getElem?_map, harray, Option.map_some]
  slice := by
    intro T _ column c f hindex hfield htype
    obtain ⟨array, slice, harray, hslice, hlen, hslots⟩ := reader_slice hindex hfield htype
    refine ⟨slice, hslice, ?_, ?_, ?_⟩
    · intro k row hrow
      obtain ⟨hk, rfl⟩ := rows_at hrow
      obtain ⟨array', harray', hread⟩ := cursor_reads (T := T) hindex hfield hk
      obtain rfl : array = array' := Option.some.inj (harray.symm.trans harray')
      rw [hread, read_cell, if_pos htype, Slice.get, if_neg (by omega), hslots]
    · intro k hk
      rw [batch.length_rows] at hk
      rw [Slice.get, if_pos (by omega)]
    · rw [Slice.iter_valid, hlen, rows, List.filterMap_map]
      refine List.filterMap_congr fun k hk => ?_
      rw [hslots, Function.comp_apply, row, List.getElem?_map, harray, Option.map_some,
        Option.bind_some]
  mistyped _ _ _ _ _ hindex hfield htype := reader_mistyped hindex hfield htype
  missing := by
    intro T _ column hnone
    constructor
    · intro k
      have hcolumn := find_column_none
        (fun f a => ({ array := a, field_name := f.name } : ColumnView)) batch.columns hnone
      rw [cursor_walk, RowCursor.get_typed, RowCursor.get_column, cursor, hcolumn]
      rfl
    · have hcolumn := find_column_none (fun _ a => a) batch.columns hnone
      rw [BatchColumnReader.slice, BatchColumnReader.typed_array, BatchColumnReader.array_ref,
        reader, hcolumn]
      rfl

end RecordBatch

/-! ## The three ways -/

/-- A lookup reads the cells of its row, and names a column that the row does not have. -/
theorem RowLookupView.get_eq (lookup : RowLookupView) {batch : RecordBatch}
    (hbatch : lookup.view.batches[lookup.batch_index]? = some batch)
    (hoffset : lookup.row_offset < batch.row_count) (T : Type) [ReadsCells T] (column : String) :
    (∀ c f, batch.schema.index_of column = some c → batch.schema.fields[c]? = some f →
        ∃ cell, (batch.row lookup.row_offset)[c]? = some cell
          ∧ lookup.get T column = read_cell T column f.data_type cell)
      ∧ (batch.schema.index_of column = none →
        lookup.get T column = .error (.ColumnNotFound column lookup.view.table_name)) := by
  constructor
  · intro c f hindex hfield
    obtain ⟨array, harray, -, htype, hlen⟩ := RecordBatch.column_at hindex hfield
    refine ⟨array.cell lookup.row_offset, ?_, ?_⟩
    · rw [RecordBatch.row, List.getElem?_map, harray, Option.map_some]
    · rw [RowLookupView.get, column_view_eq hbatch hindex harray]
      change TypedColumnAccess.get array column lookup.row_offset = _
      rw [ReadsCells.get_eq T array column (by omega), htype]
  · intro hnone
    simp only [RowLookupView.get, RowLookupView.column_view, hbatch, hnone, Option.bind_none]
    rfl

section Ways

variable [Concat] {batches : List RecordBatch} {schema : Schema} {table_name : String} {tick : Tick}
  {spec : TableSpec} {map : Option RowPositionMap} {merged : RecordBatch}

/-- The one batch of a view. -/
theorem TableReadView.one_batch (hconcat : ConcatenatesRows)
    (hschema : ∀ b ∈ batches, b.schema = schema)
    (hone : (TableReadView.new table_name tick batches spec map).batches = [merged]) :
    merged.schema = schema ∧ merged.rows = batches.flatMap RecordBatch.rows := by
  rcases TableReadView.new_cases table_name tick spec batches map with
    h | ⟨first, rest, merged', hbatches, hc, h⟩
  · rw [h] at hone
    have hbatches : batches = [merged] := hone
    rw [hbatches]
    refine ⟨hschema merged ?_, by simp⟩
    rw [hbatches]
    exact List.mem_singleton_self merged
  · rw [h] at hone
    obtain rfl : merged' = merged := List.singleton_inj.1 hone
    have hmerged := TableReadView.merged_rows hconcat hschema hbatches hc
    exact ⟨hmerged.1, hmerged.2.1⟩

/-- The positions that a view is given, or those that it counts, lead to the rows. -/
theorem TableReadView.reached (table_name : String) (tick : Tick) (spec : TableSpec)
    (hconcat : ConcatenatesRows) (hschema : ∀ b ∈ batches, b.schema = schema)
    (hinside : ∀ m ∈ map, ∀ r p, m.position_of r = some p → Physical batches p) :
    Reaches (.new table_name tick batches spec map) batches
        (map.getD (TableReadView.build_position_map batches)).position_of
      ∧ ∀ r p, (map.getD (TableReadView.build_position_map batches)).position_of r = some p →
        Physical batches p := by
  cases map with
  | none =>
    refine ⟨reaches_numbered hconcat hschema table_name tick spec, fun r p hr => ?_⟩
    have hlt : r < (batches.map RecordBatch.row_count).sum := by
      by_contra hge
      rw [Option.getD_none, TableReadView.build_none (Nat.not_lt.1 hge)] at hr
      cases hr
    obtain ⟨q, hq, hphysical⟩ := (TableReadView.build_bijective batches).mapsTo hlt
    obtain rfl : p = q := Option.some.inj (hr.symm.trans hq)
    exact hphysical
  | some m =>
    have hm := hinside m rfl
    exact ⟨(reaches_mapped hconcat hschema table_name tick spec hm).1, hm⟩

end Ways

/-! ### Three batches of amounts -/

@[reducible] def amounts_view : TableReadView :=
  @TableReadView.new amounts_kernel "stock" 1 three_batches (.new "stock") (some two_ids)

def amounts_engine : QueryEngine :=
  { QueryEngine.new .new with
    latest_tick := 1
    view_cache := .new ((∅ : Map String TableReadView).insert "stock" amounts_view) }

end Scharnhorst
