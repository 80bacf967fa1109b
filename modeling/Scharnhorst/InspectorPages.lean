/-
The pages of the inspector.

A page is a range of rows, numbered through all batches. `inspect_page` cuts the range into those of
the batches, one after the other, and leaves off behind its end.

The arithmetic is on `usize`. The start of the page saturates; the rest is plain, which panics or wraps
as the program is built.
-/
import Scharnhorst.Overlay
import Scharnhorst.Reads

set_option autoImplicit false

namespace Scharnhorst

/-- `QueryError`, or a panic. -/
inductive InspectError where
  | Query (e : QueryError)
  | Panic
deriving DecidableEq

abbrev InspectResult := Except InspectError

/-! ## `usize` -/

/-- `a * b`, and the largest number where that is larger. -/
def saturating_mul (a b : Nat) : Nat := min (a * b) u64_MAX

namespace Build

/-- A result that may leave `usize`. -/
def usize (build : Build) (n : Nat) : InspectResult Nat :=
  if n ≤ u64_MAX then .ok n
  else match build with
    | .Debug => .error .Panic
    | .Release => .ok (n % 2 ^ 64)

/-- `a - b`. -/
def usize_sub (build : Build) (a b : Nat) : InspectResult Nat :=
  if b ≤ a then .ok (a - b)
  else match build with
    | .Debug => .error .Panic
    | .Release => .ok ((a + 2 ^ 64 - b) % 2 ^ 64)

/-- `sum()`. -/
def usize_sum (build : Build) : List Nat → InspectResult Nat :=
  List.foldlM (fun sum n => build.usize (sum + n)) 0

end Build

/-- The largest number of bytes that a `Vec` may have. -/
def isize_MAX : Nat := 2 ^ 63 - 1

/-! ## Rows -/

structure InspectorRow where
  values : List String
deriving DecidableEq

namespace InspectorRow

/-- `size_of::<InspectorRow>()`: a `Vec`. -/
def size_of : Nat := 24

/-- `Vec::with_capacity(len)`. -/
def with_capacity (len : Nat) : InspectResult Unit :=
  if size_of * len ≤ isize_MAX then .ok () else .error .Panic

end InspectorRow

/-- A value of a type that is not printed is shown as the name of the type. -/
def format_cell [Render] (array : ArrayRef) (row : Nat) : String :=
  match array.cell row with
  | .Null => "NULL"
  | .Int64 v => toString v.toInt
  | .Float64 v => Render.f64_to_string v
  | .Boolean v => toString v
  | .Utf8 v | .LargeUtf8 v => v
  | .Int32 _ | .UInt64 _ | .Other _ => array.data_type.to_string

def RecordBatch.inspector_row [Render] (batch : RecordBatch) (row : Nat) : InspectorRow :=
  { values := batch.columns.map (format_cell · row) }

/-! ## Pages -/

structure InspectorPage where
  table_name : String
  column_names : List String
  rows : List InspectorRow
  page_index : UInt64
  page_size : UInt64
  total_rows : Nat
deriving DecidableEq

namespace InspectorPage

def has_next (build : Build) (page : InspectorPage) : InspectResult Bool := do
  let next ← build.usize (page.page_index.toNat + 1)
  let stop ← build.usize (next * page.page_size.toNat)
  return decide (stop < page.total_rows)

def has_prev (page : InspectorPage) : Bool := decide (0 < page.page_index)

end InspectorPage

structure InspectorConsole where
  schemas : Map String TableSpec

namespace InspectorConsole

def new : InspectorConsole := { schemas := ∅ }

def register_schema (console : InspectorConsole) (schema : TableSpec) : InspectorConsole :=
  { schemas := console.schemas.insert schema.name schema }

def schema (console : InspectorConsole) (table_name : String) : QueryResult TableSpec :=
  match console.schemas[table_name]? with
  | some schema => .ok schema
  | none => .error (.TableNotFound table_name)

/-- The rows of a batch that are in the range, the batch starting at `global_row`. -/
def batch_rows [Render] (build : Build) (start stop global_row : Nat) (batch : RecordBatch) :
    InspectResult (List InspectorRow) := do
  let batch_end ← build.usize (global_row + batch.row_count)
  let overlap_start := max start global_row
  let overlap_end := min stop batch_end
  if overlap_start < overlap_end then
    let local_start ← build.usize_sub overlap_start global_row
    let local_end ← build.usize_sub overlap_end global_row
    return (List.range' local_start (local_end - local_start)).map batch.inspector_row
  else return []

/-- The loop over the batches. It ends at the first batch that reaches the end of the range. -/
def collect_rows [Render] (build : Build) (start stop : Nat) :
    Nat → List RecordBatch → InspectResult (List InspectorRow)
  | _, [] => .ok []
  | global_row, batch :: batches => do
    let rows ← batch_rows build start stop global_row batch
    let global_row ← build.usize (global_row + batch.row_count)
    if stop ≤ global_row then return rows
    else
      let more ← collect_rows build start stop global_row batches
      return rows ++ more

def inspect_page [Render] (build : Build) (console : InspectorConsole) (table_name : String)
    (batches : List RecordBatch) (page_index page_size : UInt64) : InspectResult InspectorPage := do
  let schema ← (console.schema table_name).mapError .Query
  let total_rows ← build.usize_sum (batches.map RecordBatch.row_count)
  let start := saturating_mul page_index.toNat page_size.toNat
  if total_rows < start then throw (.Query (.IndexOutOfBounds start))
  else
    let page_end ← build.usize (start + page_size.toNat)
    let stop := min page_end total_rows
    let len ← build.usize_sub stop start
    InspectorRow.with_capacity len
    let rows ← collect_rows build start stop 0 batches
    return { table_name, column_names := schema.columns.map (·.name), rows, page_index, page_size,
             total_rows }

end InspectorConsole

end Scharnhorst
