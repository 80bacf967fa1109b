/-
The rule IR: expressions, the values they come to, and the modifiers of a column.

A call and a map literal hold their entries in a hash map. Here they hold the list of its
entries, in the order in which the map is walked, and so two lists may stand for one map. The
value of a map literal is a hash map too, but one that nothing walks before it is compared or
printed, so its entries are kept in the order of their keys, and two such values are one map if
and only if they are one list.
-/
import Scharnhorst.Evaluator
import Mathlib.Data.List.Sort

set_option autoImplicit false

namespace Scharnhorst

/-! ## Expressions -/

structure ColumnPath where
  table : String
  column : String
deriving DecidableEq

structure VarRef where
  name : String
deriving DecidableEq

inductive CompareOp where
  | Eq | Ne | Lt | Le | Gt | Ge
deriving DecidableEq

inductive ArithmeticOp where
  | Add | Sub | Mul | Div | Rem
deriving DecidableEq

inductive Expr where
  | Const (value : FixedPoint)
  | Bool (value : Bool)
  | String (value : String)
  | RowId (id : RowId)
  | Column (path : ColumnPath)
  | Var (var : VarRef)
  | Not (inner : Expr)
  | And (items : List Expr)
  | Or (items : List Expr)
  | Compare (op : CompareOp) (lhs rhs : Expr)
  | Arithmetic (op : ArithmeticOp) (lhs rhs : Expr)
  | If (cond then_branch else_branch : Expr)
  | Call (func : String) (args : List (String × Expr))
  | List (items : List Expr)
  | Map (entries : List (String × Expr))

/-! ## Values -/

inductive EvalValue where
  | FixedPoint (value : FixedPoint)
  | Bool (value : Bool)
  | String (value : String)
  | RowId (id : RowId)
  | List (items : List EvalValue)
  | Map (entries : List (String × EvalValue))

def variant_name : EvalValue → String
  | .FixedPoint _ => "FixedPoint"
  | .Bool _ => "Bool"
  | .String _ => "String"
  | .RowId _ => "RowId"
  | .List _ => "List"
  | .Map _ => "Map"

/-- A map from its entries, whose keys are distinct. -/
def collect_map (entries : List (String × EvalValue)) : EvalValue :=
  .Map (entries.insertionSort fun a b => a.1 ≤ b.1)

/-- Elements that their keys tell apart have one order by key. -/
theorem sort_by_key_perm {α : Type} {key : α → String} {as bs : List α} (hperm : as.Perm bs)
    (hinj : ∀ a ∈ as, ∀ b ∈ as, key a = key b → a = b) :
    (as.insertionSort fun a b => key a ≤ key b) = bs.insertionSort fun a b => key a ≤ key b := by
  have htotal : Std.Total fun a b : α => key a ≤ key b :=
    ⟨fun a b => String.le_total (key a) (key b)⟩
  have htrans : IsTrans _ fun a b : α => key a ≤ key b := ⟨fun a b c => String.le_trans⟩
  have hperms := List.perm_insertionSort fun a b : α => key a ≤ key b
  have hsorted := List.pairwise_insertionSort fun a b : α => key a ≤ key b
  refine (((hperms as).trans hperm).trans (hperms bs).symm).eq_of_pairwise ?_ (hsorted as)
    (hsorted bs)
  intro a b ha hb hab hba
  have ha' : a ∈ as := (hperms as).mem_iff.1 ha
  have hb' : b ∈ as := hperm.mem_iff.2 ((hperms bs).mem_iff.1 hb)
  exact hinj a ha' b hb' (String.le_antisymm hab hba)

/-- Whatever order the entries come in, they are one map. -/
theorem collect_map_perm {entries entries' : List (String × EvalValue)}
    (hperm : entries.Perm entries') (hnodup : (entries.map Prod.fst).Nodup) :
    collect_map entries = collect_map entries' := by
  apply congrArg EvalValue.Map
  apply sort_by_key_perm hperm
  intro a ha b hb hkey
  exact List.inj_on_of_nodup_map hnodup ha hb hkey

/-! ### Comparing -/

/-- An operator on a type that is ordered, by what `==` and `cmp` say. -/
def CompareOp.holds (op : CompareOp) (eq : Bool) (cmp : Ordering) : Bool :=
  match op with
  | .Eq => eq
  | .Ne => !eq
  | .Lt => cmp.isLT
  | .Le => cmp.isLE
  | .Gt => cmp.isGT
  | .Ge => cmp.isGE

def compare_fixed_point (op : CompareOp) (a b : FixedPoint) : Bool :=
  op.holds (a.eq b) (a.cmp b)

/-- Booleans are equal or not; no order holds between them. -/
def compare_bool (op : CompareOp) (a b : Bool) : Bool :=
  match op with
  | .Eq => a == b
  | .Ne => a != b
  | _ => false

/-- The order of the bytes is that of the code points. -/
def compare_string (op : CompareOp) (a b : String) : Bool :=
  op.holds (a == b) (compare a b)

def compare_row_id (op : CompareOp) (a b : RowId) : Bool :=
  op.holds (a == b) (compare a b)

/-! ## Modifiers -/

inductive ModifierOp where
  | Add | Mul | Override
deriving DecidableEq

/-- `Modifier`. Its target is the key under which the registry has it. -/
structure Modifier where
  op : ModifierOp
  value : FixedPoint
deriving DecidableEq

/-- The modifier's value is brought to the scale of the base. -/
def Modifier.apply (self : Modifier) (base : FixedPoint) : RuleResult FixedPoint :=
  match self.op with
  | .Add => do
    let value ← (self.value.rescale base.scale).mapError .Core
    (base.add value).mapError .Core
  | .Mul => do
    let value ← (self.value.rescale base.scale).mapError .Core
    (base.mul value).mapError .Core
  | .Override => .ok self.value

/-- `ModifierRegistry`, by table and column. -/
structure ModifierRegistry where
  entries : List ((String × String) × List Modifier)
deriving DecidableEq

namespace ModifierRegistry

def new : ModifierRegistry := ⟨[]⟩

def modifiers_for (self : ModifierRegistry) (table column : String) : Option (List Modifier) :=
  self.entries.lookup (table, column)

/-- At the end of those of its field. -/
def register (self : ModifierRegistry) (target_table target_column : String) (modifier : Modifier) :
    ModifierRegistry :=
  ⟨Listed.insert self.entries (target_table, target_column)
    ((self.modifiers_for target_table target_column).getD [] ++ [modifier])⟩

def clear_field (self : ModifierRegistry) (table column : String) : ModifierRegistry :=
  ⟨Listed.remove self.entries (table, column)⟩

/-- All sums, then all products, and the last override instead if there is one. -/
def aggregate (self : ModifierRegistry) (table column : String) (base : FixedPoint) :
    RuleResult FixedPoint := do
  let mods := (self.modifiers_for table column).getD []
  let adds := mods.filter fun m => m.op = .Add
  let muls := mods.filter fun m => m.op = .Mul
  let overrides := mods.filter fun m => m.op = .Override
  let after_add ← adds.foldlM (fun acc m => m.apply acc) base
  let after_mul ← muls.foldlM (fun acc m => m.apply acc) after_add
  match overrides.getLast? with
  | none => .ok after_mul
  | some m => m.apply after_mul

end ModifierRegistry

end Scharnhorst
