/-
`serde_json::Value`, as far as the store reads it.

Diffs carry their payload as JSON, and the store asks a JSON value only a handful
of questions: is it null, what is it as an `i64`, a `u64`, an `f64`, a `bool`, a
string. Those accessors are here, with the number representation they branch on.

`serde_json` keeps a number in one of three forms, and which one matters: `5` is a
`PosInt`, `-5` a `NegInt`, `5.0` a `Float`, and `as_i64` answers only for the first
two. The negativity of a `NegInt` and the finiteness of a `Float` are the crate's
own invariants of the type, so they are fields.

`f64` is Lean's `Float`, whose logical model is binary64 with one NaN. The three
`as` casts between `f64` and the 64-bit integers round to nearest on the way in and
truncate and saturate on the way out, in Rust and in that model alike.
-/
import Mathlib.Tactic.Common
import Std.Data.ExtTreeMap

set_option autoImplicit false

namespace Scharnhorst

/-! ## Maps

A `HashMap`, a `DashMap` and a `BTreeMap` of the source are one type here: a finite
map that is equal to another as soon as it answers every lookup alike. Walking it
goes by key order, where the first two promise no order at all. -/

abbrev Map (κ ν : Type) [Ord κ] := Std.ExtTreeMap κ ν compare

/-! ## Casts -/

abbrev F64 := Float

/-- `v as f64` for an `i64`. -/
def i64_to_f64 (v : Int64) : F64 :=
  .ofModel (.pack (.ofInt64 .binary64 v))

/-- `v as i64` for an `f64`: truncates, saturates, sends NaN to 0. -/
def f64_to_i64 (v : F64) : Int64 :=
  v.toModel.unpack.toInt64

/-- `v as f64` for a `u64`. -/
def u64_to_f64 (v : UInt64) : F64 := v.toFloat

/-- `v as u64` for an `f64`: truncates, saturates, sends NaN to 0. -/
def f64_to_u64 (v : F64) : UInt64 := v.toUInt64

/-! ## Numbers -/

/-- `serde_json::Number`, in the representation without `arbitrary_precision`. -/
inductive Number where
  | PosInt (v : UInt64)
  | NegInt (v : Int64) (negative : v < 0)
  | Float (v : F64) (finite : v.isFinite = true)
deriving DecidableEq

namespace Number

def as_i64 : Number → Option Int64
  | PosInt v => if v ≤ Int64.maxValue.toUInt64 then some v.toInt64 else none
  | NegInt v _ => some v
  | Float _ _ => none

def as_u64 : Number → Option UInt64
  | PosInt v => some v
  | NegInt _ _ => none
  | Float _ _ => none

def as_f64 : Number → Option F64
  | PosInt v => some (u64_to_f64 v)
  | NegInt v _ => some (i64_to_f64 v)
  | Float v _ => some v

end Number

/-! ## Values

A diff's own rows are `serde_json::Map`s and are looked up by column, so they are
maps (`JsonMap`). An object nested inside a value is only ever printed, so its
fields stay a list. -/

/-- `serde_json::Value`. -/
inductive Json where
  | null
  | bool (b : Bool)
  | number (n : Number)
  | string (s : String)
  | array (items : List Json)
  | object (fields : List (String × Json))

namespace Json

def is_null : Json → Bool
  | null => true
  | _ => false

def as_i64 : Json → Option Int64
  | number n => n.as_i64
  | _ => none

def as_u64 : Json → Option UInt64
  | number n => n.as_u64
  | _ => none

def as_f64 : Json → Option F64
  | number n => n.as_f64
  | _ => none

def as_bool : Json → Option Bool
  | bool b => some b
  | _ => none

end Json

/-- `serde_json::Map<String, Value>`: a `BTreeMap`, since the crate is built
without `preserve_order`. -/
abbrev JsonMap := Map String Json

end Scharnhorst
