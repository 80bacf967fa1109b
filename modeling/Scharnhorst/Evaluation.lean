/-
The evaluation of expressions.

`evaluate` takes the evaluator by `&mut` and hands it to every subexpression, and so it does here:
a subexpression is a computation that returns a result and the evaluator after it. What a node
does with those below it is a definition of its own, as in the source, over computations that are
still to run. That none of them writes is not said by the types.

A column is read at the row that the scope is in, whatever table the scope is in. Integers and
floats become fixed-point numbers, the floats with two decimals, and go through the modifiers of
the column.

A registered function is a function of its arguments. One that is registered later may be any.
-/
import Scharnhorst.Expr
import Scharnhorst.Journal
import Scharnhorst.ReadOnly

set_option autoImplicit false

namespace Scharnhorst

open ReadOnly

/-! ## Floats as fixed-point numbers -/

/-- `f64::round`: to the nearest integer, half away from zero. -/
def f64_round (v : F64) : F64 :=
  match v.toModel.unpack with
  | .finite sign mantissa exponent _ =>
    if 0 ≤ exponent then v
    else
      let shift := (-exponent).toNat
      let rounded := (mantissa + 2 ^ (shift - 1)) / 2 ^ shift
      .ofModel (.pack (.round .binary64 sign rounded 0))
  | _ => v

/-- The loop of `powi`, which squares. -/
def powi_loop (base result : F64) (exp : Nat) : Nat → F64
  | 0 => result
  | fuel + 1 =>
    let result := if exp % 2 = 1 then result * base else result
    if exp / 2 = 0 then result else powi_loop (base * base) result (exp / 2) fuel

/-- `f64::powi`. -/
def powi (base : F64) (exp : Int32) : F64 :=
  let result := powi_loop base 1.0 exp.toInt.natAbs 32
  if exp < 0 then 1.0 / result else result

/-- A value that is not a number is zero. -/
def FixedPoint.try_from_f64 (value : F64) (scale : UInt32) : CoreResult FixedPoint :=
  let factor := powi 10.0 scale.toInt32
  let raw := f64_round (value * factor)
  if i64_to_f64 Int64.maxValue < raw ∨ raw < i64_to_f64 Int64.minValue then
    .error .ArithmeticOverflow
  else .ok (.new (f64_to_i64 raw) scale)

/-! ## Typed columns -/

inductive ColumnKind where
  | Int64 | UInt64 | Float64 | Boolean | Utf8 | LargeUtf8 | Null | Unknown
deriving DecidableEq

/-- `Debug`. -/
def ColumnKind.to_string : ColumnKind → String
  | Int64 => "Int64"
  | UInt64 => "UInt64"
  | Float64 => "Float64"
  | Boolean => "Boolean"
  | Utf8 => "Utf8"
  | LargeUtf8 => "LargeUtf8"
  | Null => "Null"
  | Unknown => "Unknown"

/-- `ColumnView::kind`. -/
def ColumnKind.of_data_type : DataType → ColumnKind
  | .Int64 => .Int64
  | .UInt64 => .UInt64
  | .Float64 => .Float64
  | .Boolean => .Boolean
  | .Utf8 => .Utf8
  | .LargeUtf8 => .LargeUtf8
  | .Other name => if name = "Null" then .Null else .Unknown
  | .Int32 => .Unknown

/-- `TypedColumnAccess<f64>::get`. -/
def get_float64 (array : ArrayRef) (column : String) (row : Nat) : QueryResult (Option F64) :=
  match array with
  | .Float64Array a =>
    if a.len ≤ row then .error (.IndexOutOfBounds row) else .ok (a.get row)
  | other =>
    .error (.TypeMismatch column
      "arrow_array::array::primitive_array::PrimitiveArray<arrow_array::types::Float64Type>"
      other.data_type.to_string)

/-- `TypedColumnAccess<bool>::get`. -/
def get_boolean (array : ArrayRef) (column : String) (row : Nat) : QueryResult (Option Bool) :=
  match array with
  | .BooleanArray a =>
    if a.length ≤ row then .error (.IndexOutOfBounds row) else .ok (a[row]?.join)
  | other =>
    .error (.TypeMismatch column "arrow_array::array::boolean_array::BooleanArray"
      other.data_type.to_string)

/-- `TypedColumnAccess<String>::get`. A `LargeStringArray` is none of these. -/
def get_utf8 (array : ArrayRef) (column : String) (row : Nat) : QueryResult (Option String) :=
  match array with
  | .StringArray a =>
    if a.length ≤ row then .error (.IndexOutOfBounds row) else .ok (a[row]?.join)
  | other =>
    .error (.TypeMismatch column
      "arrow_array::array::byte_array::GenericByteArray<arrow_array::types::GenericStringType<i32>>"
      other.data_type.to_string)

/-- The column of the first batch. Of columns with one name the last is in the map. -/
def TableReadView.first_batch_column (view : TableReadView) (column : String) :
    QueryResult ArrayRef :=
  match view.batches with
  | [] => .error (.InvalidQuery s!"table '{view.table_name}' has no batches at tick {view.tick}")
  | batch :: _ =>
    match ((batch.schema.fields.map Field.name).zip batch.columns).reverse.lookup column with
    | none => .error (.ColumnNotFound column view.table_name)
    | some array => .ok array

/-- `QueryEngine::column_view`. The tick is read and not used. -/
def QueryEngine.column_view (q : QueryEngine) (table_name column_name : String) :
    QueryResult ArrayRef :=
  match q.view_cache.read with
  | .error _ => .error (.UnifiedRead "poisoned lock")
  | .ok cache =>
    match cache[table_name]? with
    | none => .error (.TableNotFound table_name)
    | some view => view.first_batch_column column_name

/-! ## The evaluator -/

abbrev BuiltinFn := List EvalValue → RuleResult EvalValue

/-- The rest of an evaluator, beside what a jump moves. The source's word for `vars` is
`variables`. -/
structure RuleEvaluator (Q J : Type) extends Evaluator where
  journal : RwLock (Journal Q J)
  modifiers : ModifierRegistry
  vars : Map String EvalValue
  builtins : Map String BuiltinFn
  builtin_arg_counts : Map String Nat

/-! ### Built-in functions -/

/-- A function of two fixed-point numbers. It takes no notice of further arguments. -/
def fixed_point_builtin (name : String) (f : FixedPoint → FixedPoint → CoreResult FixedPoint) :
    BuiltinFn
  | .FixedPoint a :: .FixedPoint b :: _ => ((f a b).mapError .Core).map .FixedPoint
  | first :: _ :: _ => .error (.TypeMismatch "FixedPoint" (variant_name first))
  | _ => .error (.Evaluation s!"{name} requires at least 2 arguments")

def not_builtin : BuiltinFn
  | [] => .error (.Evaluation "not requires 1 argument")
  | .Bool b :: _ => .ok (.Bool !b)
  | v :: _ => .error (.TypeMismatch "bool" (variant_name v))

/-- `Ord::min`: of two that compare as equal the first. -/
def FixedPoint.min (a b : FixedPoint) : FixedPoint := if (a.cmp b).isGT then b else a

/-- `Ord::max`: of two that compare as equal the second. -/
def FixedPoint.max (a b : FixedPoint) : FixedPoint := if (a.cmp b).isGT then a else b

def default_builtins : Map String BuiltinFn × Map String Nat :=
  let fns : Map String BuiltinFn := (∅ : Map String BuiltinFn)
    |>.insert "add" (fixed_point_builtin "add" FixedPoint.add)
    |>.insert "sub" (fixed_point_builtin "sub" FixedPoint.sub)
    |>.insert "mul" (fixed_point_builtin "mul" FixedPoint.mul)
    |>.insert "div" (fixed_point_builtin "div" FixedPoint.div)
    |>.insert "min" (fixed_point_builtin "min" fun a b => .ok (a.min b))
    |>.insert "max" (fixed_point_builtin "max" fun a b => .ok (a.max b))
    |>.insert "not" not_builtin
  let arg_counts : Map String Nat := (∅ : Map String Nat)
    |>.insert "add" 2
    |>.insert "sub" 2
    |>.insert "mul" 2
    |>.insert "div" 2
    |>.insert "min" 2
    |>.insert "max" 2
    |>.insert "not" 1
  (fns, arg_counts)

namespace RuleEvaluator

variable {Q J : Type}

def new (query_engine : RwLock QueryEngine) (journal : RwLock (Journal Q J)) (root_table : String)
    (root_row : RowId) : RuleEvaluator Q J :=
  { query_engine
    scope := .new root_table root_row
    cache := .new PrefetchCache.DEFAULT_CAPACITY
    journal
    modifiers := .new
    vars := ∅
    builtins := default_builtins.1
    builtin_arg_counts := default_builtins.2 }

/-! ### Reading -/

/-- A subexpression that is still to be evaluated. -/
abbrev Evaluation (Q J : Type) := Computation (RuleEvaluator Q J) RuleError EvalValue

/-- The value of a column in one row. A null is zero, false or the empty text. -/
def column_value (q : QueryEngine) (modifiers : ModifierRegistry) (path : ColumnPath)
    (row_id : RowId) : RuleResult EvalValue := do
  let col_view ← (q.column_view path.table path.column).mapError .Query
  let lookup ← (q.lookup_row path.table row_id).mapError .Query
  let cell {α : Type} (get : ArrayRef → String → Nat → QueryResult (Option α)) (default : α) :
      RuleResult α := do
    let val ← (lookup.column_view path.column >>= fun array =>
      get array path.column lookup.row_offset).mapError .Query
    return val.getD default
  match ColumnKind.of_data_type col_view.data_type with
  | .Int64 | .UInt64 =>
    -- a `UInt64` column is no `Int64Array`
    let val ← cell get_int64 0
    let fp ← modifiers.aggregate path.table path.column (.new val 0)
    return .FixedPoint fp
  | .Float64 =>
    let val ← cell get_float64 0.0
    let fp ← (FixedPoint.try_from_f64 val 2).mapError fun e => .Evaluation e.to_string
    let fp ← modifiers.aggregate path.table path.column fp
    return .FixedPoint fp
  | .Boolean =>
    let val ← cell get_boolean false
    return .Bool val
  | .Utf8 | .LargeUtf8 =>
    let val ← cell get_utf8 ""
    return .String val
  | other =>
    throw (.Evaluation
      s!"unsupported column type {other.to_string} for {path.table}.{path.column}")

def evaluate_column (path : ColumnPath) : Evaluation Q J := fun ev =>
  match ev.query_engine.read with
  | .error _ => (.error (.QueryEngine "poisoned lock"), ev)
  | .ok q => (column_value q ev.modifiers path ev.scope.row, ev)

def resolve_var (var : VarRef) : Evaluation Q J := fun ev =>
  match ev.vars[var.name]? with
  | none => (.error (.UnknownVariable var.name), ev)
  | some value => (.ok value, ev)

/-! ### Nodes -/

def evaluate_not (inner : Evaluation Q J) : Evaluation Q J :=
  and_then inner fun value =>
    match value with
    | .Bool b => done (.ok (.Bool !b))
    | _ => done (.error (.TypeMismatch "bool" (variant_name value)))

/-- The loop of `evaluate_and`. What follows a `false` or an error does not run. -/
def evaluate_and : List (Evaluation Q J) → Evaluation Q J
  | [] => done (.ok (.Bool true))
  | expr :: items =>
    and_then expr fun val =>
      match val with
      | .Bool false => done (.ok (.Bool false))
      | .Bool true => evaluate_and items
      | _ => done (.error (.TypeMismatch "bool" "non-bool"))

def evaluate_or : List (Evaluation Q J) → Evaluation Q J
  | [] => done (.ok (.Bool false))
  | expr :: items =>
    and_then expr fun val =>
      match val with
      | .Bool true => done (.ok (.Bool true))
      | .Bool false => evaluate_or items
      | _ => done (.error (.TypeMismatch "bool" "non-bool"))

def compare_values (op : CompareOp) : EvalValue → EvalValue → RuleResult EvalValue
  | .FixedPoint a, .FixedPoint b => .ok (.Bool (compare_fixed_point op a b))
  | .Bool a, .Bool b => .ok (.Bool (compare_bool op a b))
  | .String a, .String b => .ok (.Bool (compare_string op a b))
  | .RowId a, .RowId b => .ok (.Bool (compare_row_id op a b))
  | a, b => .error (.TypeMismatch (variant_name a) (variant_name b))

/-- Both sides are evaluated, whatever the first is. -/
def evaluate_compare (op : CompareOp) (lhs rhs : Evaluation Q J) : Evaluation Q J :=
  and_then lhs fun left => and_then rhs fun right => done (compare_values op left right)

def arithmetic_values (op : ArithmeticOp) : EvalValue → EvalValue → RuleResult EvalValue
  | .FixedPoint a, .FixedPoint b =>
    let result : RuleResult FixedPoint :=
      match op with
      | .Add => (a.add b).mapError .Core
      | .Sub => (a.sub b).mapError .Core
      | .Mul => (a.mul b).mapError .Core
      | .Div => (a.div b).mapError .Core
      | .Rem => .error (.UnsupportedOperation "remainder not supported for FixedPoint")
    result.map .FixedPoint
  | a, b => .error (.TypeMismatch "FixedPoint" s!"{variant_name a} / {variant_name b}")

def evaluate_arithmetic (op : ArithmeticOp) (lhs rhs : Evaluation Q J) : Evaluation Q J :=
  and_then lhs fun left => and_then rhs fun right => done (arithmetic_values op left right)

def evaluate_if (cond then_branch else_branch : Evaluation Q J) : Evaluation Q J :=
  and_then cond fun cond_val =>
    match cond_val with
    | .Bool true => then_branch
    | .Bool false => else_branch
    | _ => done (.error (.TypeMismatch "bool" (variant_name cond_val)))

def check_arg_count (func : String) (got : Nat) : Computation (RuleEvaluator Q J) RuleError Unit :=
  fun ev =>
    match ev.builtin_arg_counts[func]? with
    | none => (.ok (), ev)
    | some expected =>
      if got = expected then (.ok (), ev)
      else (.error (.Evaluation s!"function '{func}' expects {expected} arguments, got {got}"), ev)

def sorted_keys (args : List (String × Evaluation Q J)) : List String :=
  (args.map Prod.fst).insertionSort (· ≤ ·)

/-- `args.get(k)`, evaluated. -/
def argument (func : String) (args : List (String × Evaluation Q J)) (k : String) :
    Evaluation Q J :=
  match args.lookup k with
  | none => done (.error (.Evaluation s!"missing argument '{k}' in call to '{func}'"))
  | some expr => expr

def apply_builtin (func : String) (evaluated_args : List EvalValue) : Evaluation Q J := fun ev =>
  match ev.builtins[func]? with
  | none => (.error (.UnsupportedOperation s!"unknown function: {func}"), ev)
  | some f => (f evaluated_args, ev)

/-- The arguments are evaluated in the order of their keys, before the function is looked up. -/
def evaluate_call (func : String) (args : List (String × Evaluation Q J)) : Evaluation Q J :=
  and_then (check_arg_count func args.length) fun _ =>
    and_then (collect ((sorted_keys args).map (argument func args))) fun evaluated_args =>
      apply_builtin func evaluated_args

def evaluate_list (items : List (Evaluation Q J)) : Evaluation Q J :=
  and_then (collect items) fun values => done (.ok (.List values))

/-- An entry, its value evaluated. -/
def evaluate_entry (entry : String × Evaluation Q J) :
    Computation (RuleEvaluator Q J) RuleError (String × EvalValue) :=
  and_then entry.2 fun v => done (.ok (entry.1, v))

/-- The entries are evaluated in the order in which the hash map lists them. -/
def evaluate_map (entries : List (String × Evaluation Q J)) : Evaluation Q J :=
  and_then (collect (entries.map evaluate_entry)) fun values => done (.ok (collect_map values))

mutual

def evaluate : Expr → Evaluation Q J
  | .Const fp => done (.ok (.FixedPoint fp))
  | .Bool b => done (.ok (.Bool b))
  | .String s => done (.ok (.String s))
  | .RowId id => done (.ok (.RowId id))
  | .Column path => evaluate_column path
  | .Var var => resolve_var var
  | .Not inner => evaluate_not (evaluate inner)
  | .And items => evaluate_and (evaluate_items items)
  | .Or items => evaluate_or (evaluate_items items)
  | .Compare op lhs rhs => evaluate_compare op (evaluate lhs) (evaluate rhs)
  | .Arithmetic op lhs rhs => evaluate_arithmetic op (evaluate lhs) (evaluate rhs)
  | .If cond then_branch else_branch =>
    evaluate_if (evaluate cond) (evaluate then_branch) (evaluate else_branch)
  | .Call func args => evaluate_call func (evaluate_entries args)
  | .List items => evaluate_list (evaluate_items items)
  | .Map entries => evaluate_map (evaluate_entries entries)

def evaluate_items : List Expr → List (Evaluation Q J)
  | [] => []
  | item :: items => evaluate item :: evaluate_items items

def evaluate_entries : List (String × Expr) → List (String × Evaluation Q J)
  | [] => []
  | (k, expr) :: entries => (k, evaluate expr) :: evaluate_entries entries

end

end RuleEvaluator

end Scharnhorst
