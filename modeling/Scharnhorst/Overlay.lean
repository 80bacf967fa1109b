/-
Overlays: what mods change of the values of the base content.

A layer has one entry for a path at most. The resolver keeps its layers in the order of their
priorities and folds the entries of a path over the base value. Values are texts all the way;
an arithmetic strategy parses both sides as `i64` at each step and prints what it gets.
-/
import Scharnhorst.Text
import Scharnhorst.Core

set_option autoImplicit false

namespace Scharnhorst

inductive MergeStrategy where
  | Replace
  | Append
  | Prepend
  | Add
  | Min
  | Max
deriving DecidableEq

structure OverlayEntry where
  path : String
  value : String
  strategy : MergeStrategy
deriving DecidableEq

structure OverlayLayer where
  mod_id : String
  /-- An `i32`, of which only the order counts. -/
  priority : Int
  entries : Map String OverlayEntry
deriving DecidableEq

namespace OverlayLayer

def new (mod_id : String) (priority : Int) : OverlayLayer := { mod_id, priority, entries := ∅ }

def with_entry (l : OverlayLayer) (entry : OverlayEntry) : OverlayLayer :=
  { l with entries := l.entries.insert entry.path entry }

def get (l : OverlayLayer) (path : String) : Option OverlayEntry := l.entries[path]?

end OverlayLayer

/-- `ContentError`, the variants that a resolver raises. `Panic` is no variant: it is the end of a
sum that overflows in a build that checks. -/
inductive OverlayError where
  | OverlayNotFound (path : String)
  | OverlayConflict (message : String)
  | Panic
deriving DecidableEq

abbrev OverlayResult := Except OverlayError

/-- With overflow checks, or without. -/
inductive Build where
  | Debug
  | Release
deriving DecidableEq

/-- `b + o` on `i64`. -/
def Build.add (build : Build) (b o : Int64) : OverlayResult Int64 :=
  match build with
  | .Debug =>
    match I64.checked_add b o with
    | some sum => .ok sum
    | none => .error .Panic
  | .Release => .ok (b + o)

/-- `i64::to_string`. -/
def i64_to_string (v : Int64) : String := toString v.toInt

/-- Both sides of an arithmetic strategy, the base first. -/
def parse_operands (verb base overlay : String) : OverlayResult (Int64 × Int64) :=
  match parse_i64 base.toList with
  | .error _ => .error (.OverlayConflict s!"cannot {verb} non-integer base: {base}")
  | .ok b =>
    match parse_i64 overlay.toList with
    | .error _ => .error (.OverlayConflict s!"cannot {verb} non-integer overlay: {overlay}")
    | .ok o => .ok (b, o)

def apply_strategy (build : Build) (base overlay : String) : MergeStrategy → OverlayResult String
  | .Replace => .ok overlay
  | .Append => .ok (base ++ overlay)
  | .Prepend => .ok (overlay ++ base)
  | .Add => do
    let operands ← parse_operands "add" base overlay
    let sum ← build.add operands.1 operands.2
    return i64_to_string sum
  | .Min => do
    let operands ← parse_operands "min" base overlay
    return i64_to_string (min operands.1 operands.2)
  | .Max => do
    let operands ← parse_operands "max" base overlay
    return i64_to_string (max operands.1 operands.2)

/-- The order in which the maps give their keys. -/
structure KeyOrder where
  base_keys : Map String String → List String
  entry_keys : Map String OverlayEntry → List String
  base_perm : ∀ m, (base_keys m).Perm m.keys
  entry_perm : ∀ m, (entry_keys m).Perm m.keys

structure OverlayResolver where
  base : Map String String
  layers : List OverlayLayer
deriving DecidableEq

namespace OverlayResolver

def new : OverlayResolver := { base := ∅, layers := [] }

def with_base (r : OverlayResolver) (path value : String) : OverlayResolver :=
  { r with base := r.base.insert path value }

def add_layer (r : OverlayResolver) (layer : OverlayLayer) : OverlayResolver :=
  { r with layers := (r.layers ++ [layer]).mergeSort fun a b => a.priority ≤ b.priority }

/-- One layer over the value so far. -/
def apply_layer (build : Build) (path : String) (current : String) (layer : OverlayLayer) :
    OverlayResult String :=
  match layer.get path with
  | some entry => apply_strategy build current entry.value entry.strategy
  | none => .ok current

def resolve (build : Build) (r : OverlayResolver) (path : String) : OverlayResult String :=
  match r.base[path]? with
  | none => .error (.OverlayNotFound path)
  | some current => r.layers.foldlM (apply_layer build path) current

def known_paths (order : KeyOrder) (r : OverlayResolver) : List String :=
  order.base_keys r.base ++ r.layers.flatMap fun l => order.entry_keys l.entries

def apply (build : Build) (order : KeyOrder) (r : OverlayResolver) :
    OverlayResult (Map String String) :=
  (r.known_paths order).foldlM (fun result path => do
    let value ← r.resolve build path
    return result.insert path value) ∅

end OverlayResolver

end Scharnhorst
