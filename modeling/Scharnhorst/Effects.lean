/-
Effects: what a rule does when it fires.

An effect that is no sequence evaluates its expressions, and then either hands one diff to the
journal or binds a variable. A sequence runs its effects in order and stops at the first that
fails; nothing is taken back. The values go into the diff as JSON, a fixed-point number as a float.

An `InsertRow` holds its values in a hash map, here the list of its entries in the order in which
the map is walked.
-/
import Scharnhorst.Evaluation

set_option autoImplicit false

namespace Scharnhorst

open ReadOnly

/-! ## Values as JSON -/

def FixedPoint.to_f64 (self : FixedPoint) : F64 :=
  i64_to_f64 self.raw / powi 10.0 self.scale.toInt32

/-- `Number::from_f64`: no infinity and no NaN. -/
def Number.from_f64 (v : F64) : Option Number :=
  if finite : v.isFinite = true then some (.Float v finite) else none

mutual

def eval_value_to_json : EvalValue → RuleResult Json
  | .FixedPoint fp =>
    match Number.from_f64 fp.to_f64 with
    | none => .error (.Evaluation "cannot convert FixedPoint to JSON number")
    | some num => .ok (.number num)
  | .Bool b => .ok (.bool b)
  | .String s => .ok (.string s)
  | .RowId id => .ok (.number (.PosInt (.ofNat id)))
  | .List items => (items_to_json items).map .array
  | .Map entries => (entries_to_json entries).map .object

def items_to_json : List EvalValue → RuleResult (List Json)
  | [] => .ok []
  | item :: items => do
    let val ← eval_value_to_json item
    let vals ← items_to_json items
    return val :: vals

def entries_to_json : List (String × EvalValue) → RuleResult (List (String × Json))
  | [] => .ok []
  | (k, v) :: entries => do
    let jv ← eval_value_to_json v
    let fields ← entries_to_json entries
    return (k, jv) :: fields

end

/-! ## Effects -/

inductive Effect where
  | UpdateColumn (table column : String) (value : Expr)
  | InsertRow (table : String) (row : RowId) (values : List (String × Expr))
  | SetVariable (name : String) (value : Expr)
  | Sequence (effects : List Effect)

namespace RuleEvaluator

variable {Q J : Type}

def bind_var (ev : RuleEvaluator Q J) (name : String) (value : EvalValue) : RuleEvaluator Q J :=
  { ev with vars := ev.vars.insert name value }

def submit_diff (diff : Diff) : Computation (RuleEvaluator Q J) RuleError Unit := fun ev =>
  match ev.journal.read with
  | .error _ => (.error (.JournalWrapper "poisoned lock"), ev)
  | .ok journal =>
    let (result, journal) := journal.submit_diff diff
    (result.mapError .Journal, { ev with journal := ev.journal.set journal })

def evaluate_to_json (expr : Expr) : Computation (RuleEvaluator Q J) RuleError Json :=
  and_then (evaluate expr) fun val => done (eval_value_to_json val)

/-- The loop over the values of a new row. -/
def evaluate_values (evaluated : JsonMap) :
    List (String × Expr) → Computation (RuleEvaluator Q J) RuleError JsonMap
  | [] => done (.ok evaluated)
  | (col, expr) :: values =>
    and_then (evaluate_to_json expr) fun json_val =>
      evaluate_values (evaluated.insert col json_val) values

mutual

def evaluate_effect : Effect → Computation (RuleEvaluator Q J) RuleError Unit
  | .UpdateColumn table column value =>
    and_then (evaluate_to_json value) fun json_val => fun ev =>
      -- the row is that of the scope, whatever the table
      submit_diff (.Update table ev.scope.row column json_val) ev
  | .InsertRow table row values =>
    and_then (evaluate_values ∅ values) fun evaluated => submit_diff (.Insert table row evaluated)
  | .SetVariable name value =>
    and_then (evaluate value) fun val => fun ev => (.ok (), ev.bind_var name val)
  | .Sequence effects => evaluate_effects effects

/-- The loop of a sequence. -/
def evaluate_effects : List Effect → Computation (RuleEvaluator Q J) RuleError Unit
  | [] => done (.ok ())
  | e :: effects => and_then (evaluate_effect e) fun _ => evaluate_effects effects

end

end RuleEvaluator

end Scharnhorst
