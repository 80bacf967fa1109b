/-
Which stored values can be read.

The store knows seven types of values. Three readers come to a cell: the typed getters of a row
lookup, the evaluator of rule expressions, and the filter of a materialization. Each has its own list
of types. The integers of 64 bits, short texts and truth values are on all of them. The floats are on
those that they should be on, but a float that is no number is compared as a null. The other three
types are missing somewhere: an `i32` has no getter, a `u64` is read by the evaluator as an `i64`,
and a long text is read by the getter and the evaluator as a short one.
-/
import Scharnhorst.Convert
import Scharnhorst.Materialization
import Scharnhorst.PublishedCells
import Mathlib

set_option autoImplicit false

namespace Scharnhorst

/-! ## Getters -/

/-- `TypedColumnAccess<u64>::get`. -/
def get_uint64 (array : ArrayRef) (column : String) (row : Nat) : QueryResult (Option UInt64) :=
  match array with
  | .UInt64Array a =>
    if a.len ≤ row then .error (.IndexOutOfBounds row) else .ok (a.get row)
  | other =>
    .error (.TypeMismatch column
      "arrow_array::array::primitive_array::PrimitiveArray<arrow_array::types::UInt64Type>"
      other.data_type.to_string)

namespace RowLookupView

def get_u64 (lookup : RowLookupView) (column : String) : QueryResult (Option UInt64) :=
  lookup.column_view column >>= fun array => get_uint64 array column lookup.row_offset

def get_f64 (lookup : RowLookupView) (column : String) : QueryResult (Option F64) :=
  lookup.column_view column >>= fun array => get_float64 array column lookup.row_offset

def get_bool (lookup : RowLookupView) (column : String) : QueryResult (Option Bool) :=
  lookup.column_view column >>= fun array => get_boolean array column lookup.row_offset

def get_string (lookup : RowLookupView) (column : String) : QueryResult (Option String) :=
  lookup.column_view column >>= fun array => get_utf8 array column lookup.row_offset

end RowLookupView

/-! ## Stored values -/

/-- A value of one of the storage types. -/
inductive StoredValue where
  | i64 (v : Int64)
  | i32 (v : Int32)
  | u64 (v : UInt64)
  | f64 (v : F64)
  | utf8 (v : String)
  | large_utf8 (v : String)
  | bool (v : Bool)

namespace StoredValue

/-- The name in the registry. -/
def storage_type : StoredValue → String
  | i64 _ => "i64"
  | i32 _ => "i32"
  | u64 _ => "u64"
  | f64 _ => "f64"
  | utf8 _ => "utf8"
  | large_utf8 _ => "large_utf8"
  | bool _ => "bool"

def data_type : StoredValue → DataType
  | i64 _ => .Int64
  | i32 _ => .Int32
  | u64 _ => .UInt64
  | f64 _ => .Float64
  | utf8 _ => .Utf8
  | large_utf8 _ => .LargeUtf8
  | bool _ => .Boolean

/-- The names of the default registry, with their types. -/
def storage_types : List (String × DataType) :=
  [("i64", .Int64), ("i32", .Int32), ("u64", .UInt64), ("f64", .Float64), ("utf8", .Utf8),
    ("large_utf8", .LargeUtf8), ("bool", .Boolean)]

theorem default_types :
    ∀ p ∈ storage_types, default_type_registry.resolve_data_type p.1 = .ok p.2 := by
  decide +kernel

/-- The registry knows the name of the value's type. -/
theorem resolve_storage_type (v : StoredValue) :
    default_type_registry.resolve_data_type v.storage_type = .ok v.data_type := by
  apply default_types (v.storage_type, v.data_type)
  cases v <;> simp [storage_type, data_type, storage_types]

def cell : StoredValue → Cell
  | i64 v => .Int64 v
  | i32 v => .Int32 v
  | u64 v => .UInt64 v
  | f64 v => .Float64 v
  | utf8 v => .Utf8 v
  | large_utf8 v => .LargeUtf8 v
  | bool v => .Boolean v

/-- The array has the value at the offset. -/
def InArray : StoredValue → ArrayRef → Nat → Prop
  | i64 v, .Int64Array a, offset => a.get offset = some v
  | i32 v, .Int32Array a, offset => a.get offset = some v
  | u64 v, .UInt64Array a, offset => a.get offset = some v
  | f64 v, .Float64Array a, offset => a.get offset = some v
  | utf8 v, .StringArray a, offset => a[offset]? = some (some v)
  | large_utf8 v, .LargeStringArray a, offset => a[offset]? = some (some v)
  | bool v, .BooleanArray a, offset => a[offset]? = some (some v)
  | _, _, _ => False

/-- Equality of values of one type, that of floats as the source compares them. -/
def same : StoredValue → StoredValue → Bool
  | i64 v, i64 w => v == w
  | i32 v, i32 w => v == w
  | u64 v, u64 w => v == w
  | f64 v, f64 w => v == w
  | utf8 v, utf8 w => v == w
  | large_utf8 v, large_utf8 w => v == w
  | bool v, bool w => v == w
  | _, _ => false

/-- `json!(v)`. -/
def json : StoredValue → Json
  | i64 v => json_of_i64 v
  | i32 v => json_of_i64 v.toInt64
  | u64 v => .number (.PosInt v)
  | f64 v => json_of_f64 v
  | utf8 v => .string v
  | large_utf8 v => .string v
  | bool v => .bool v

/-- The getter for the Rust type of the value. There is none for `i32`. -/
def getter (v : StoredValue) (lookup : RowLookupView) (column : String) :
    Option (QueryResult (Option StoredValue)) :=
  match v with
  | i64 _ => some ((lookup.get_i64 column).map (·.map i64))
  | i32 _ => none
  | u64 _ => some ((lookup.get_u64 column).map (·.map u64))
  | f64 _ => some ((lookup.get_f64 column).map (·.map f64))
  | utf8 _ => some ((lookup.get_string column).map (·.map utf8))
  | large_utf8 _ => some ((lookup.get_string column).map (·.map large_utf8))
  | bool _ => some ((lookup.get_bool column).map (·.map bool))

/-- The value of an expression is this value. -/
def Denotes : EvalValue → StoredValue → Prop
  | .FixedPoint x, i64 v => x.value = v.toInt
  | .FixedPoint x, i32 v => x.value = v.toInt
  | .FixedPoint x, u64 v => x.value = v.toNat
  | .String s, utf8 v => s = v
  | .String s, large_utf8 v => s = v
  | .Bool b, bool v => b = v
  | _, _ => False

/-- The values that every reader reads. -/
def Supported : StoredValue → Prop
  | i64 _ | utf8 _ | bool _ => True
  | f64 v => v.isFinite = true
  | i32 _ | u64 _ | large_utf8 _ => False

end StoredValue

/-! ## Cells with a value -/

/-- A published view has the value in the row's cell of the column, and the column has its type. -/
structure StoredAt (q : QueryEngine) (table : String) (view : TableReadView) (row : RowId)
    (column : String) (v : StoredValue) : Prop where
  published : Published q table view
  typed : TypedColumn view column v.data_type
  cell : ∃ array offset, CellAt view row column array offset ∧ v.InArray array offset

/-- The cell is read by the getter of its type, by the evaluator unless it is a float, and by the
filter: it admits the row for this value and no other of the type. -/
structure Readable (Q J : Type) (q : QueryEngine) (table : String) (view : TableReadView)
    (row : RowId) (column : String) (v : StoredValue) : Prop where
  got : ∃ lookup, q.lookup_row table row = .ok lookup
    ∧ v.getter lookup column = some (.ok (some v))
  evaluated : v.storage_type ≠ "f64" → ∀ ev : RuleEvaluator Q J, ev.query_engine.read = .ok q →
    ev.scope.row = row → (ev.modifiers.modifiers_for table column).getD [] = [] →
    ∃ x, (RuleEvaluator.evaluate_column ⟨table, column⟩ ev).1 = .ok x ∧ StoredValue.Denotes x v
  matched : ∀ w : StoredValue, w.storage_type = v.storage_type →
    (MaterializationFilter.ColumnEquals column w.json).admits view row = v.same w

/-! ## Comparing values -/

theorem eq_json_of_i64 (v w : Int64) : (json_of_i64 v).eq (json_of_i64 w) = (v == w) := by
  unfold json_of_i64
  by_cases hv : v < 0
  · by_cases hw : w < 0
    · rw [dif_pos hv, dif_pos hw]
      rfl
    · have hne : v ≠ w := fun h => hw (h ▸ hv)
      rw [dif_pos hv, dif_neg hw, beq_eq_false_iff_ne.2 hne]
      rfl
  · by_cases hw : w < 0
    · have hne : v ≠ w := fun h => hv (h ▸ hw)
      rw [dif_neg hv, dif_pos hw, beq_eq_false_iff_ne.2 hne]
      rfl
    · rw [dif_neg hv, dif_neg hw]
      change (v.toUInt64 == w.toUInt64) = (v == w)
      rw [Bool.eq_iff_iff, beq_iff_eq, beq_iff_eq]
      constructor
      · intro h
        exact Int64.toBitVec_inj.1 (congrArg UInt64.toBitVec h)
      · intro h
        rw [h]

theorem f64_eq_iff (v w : F64) : (v == w) = v.toModel.unpack.beq w.toModel.unpack := rfl

/-- A number equals none that is not finite. -/
theorem eq_not_finite {v w : F64} (hv : v.isFinite = true) (hw : w.isFinite = false) :
    (v == w) = false := by
  rw [f64_eq_iff]
  change v.toModel.unpack.isFinite = true at hv
  change w.toModel.unpack.isFinite = false at hw
  generalize v.toModel.unpack = x at *
  generalize w.toModel.unpack = y at *
  cases x with
  | infinity s | notANumber => cases hv
  | zero s =>
    cases y with
    | notANumber => rfl
    | infinity s' => cases s' <;> rfl
    | zero s' | finite s' m e h => cases hw
  | finite s m e h =>
    cases y with
    | notANumber => cases s <;> rfl
    | infinity s' => cases s <;> cases s' <;> rfl
    | zero s' | finite s' m e h => cases hw

theorem unpack_nan : ((0.0 : F64) / 0.0).toModel.unpack = .notANumber := rfl

theorem eq_nan (v : F64) : (v == 0.0 / 0.0) = false := by
  rw [f64_eq_iff, unpack_nan]
  cases v.toModel.unpack with
  | infinity s => cases s <;> rfl
  | notANumber => rfl
  | zero s => rfl
  | finite s m e h => cases s <;> rfl

theorem json_of_finite {v : F64} (hv : v.isFinite = true) :
    json_of_f64 v = .number (.Float v hv) := by
  rw [json_of_f64, Number.from_f64, dif_pos hv]

theorem json_of_not_finite {v : F64} (hv : v.isFinite = false) : json_of_f64 v = .null := by
  rw [json_of_f64, Number.from_f64, dif_neg (by rw [hv]; decide)]

theorem eq_json_of_f64 {v : F64} (hv : v.isFinite = true) (w : F64) :
    (json_of_f64 v).eq (json_of_f64 w) = (v == w) := by
  rw [json_of_finite hv]
  rcases hw : w.isFinite with _ | _
  · rw [json_of_not_finite hw, eq_not_finite hv hw]
    rfl
  · rw [json_of_finite hw]
    rfl

/-! ## Reading -/

section Readers

variable {Q J : Type} {q : QueryEngine} {view : TableReadView} {table column : String} {row : RowId}
  {array : ArrayRef} {offset : Nat} {v : StoredValue}

/-- A filter compares with the value of the cell. -/
theorem CellAt.admits (h : CellAt view row column array offset) (value : Json) :
    (MaterializationFilter.ColumnEquals column value).admits view row =
      match json_of_cell (array.cell offset) with
      | some v => v.eq value
      | none => false := by
  have hlen := h.offset_lt
  obtain ⟨batch_idx, batch, c, hrow, hbatch, -, hindex, hcolumn⟩ := h.located
  have hat : arrow_value_at batch column offset = json_of_cell (array.cell offset) := by
    unfold arrow_value_at
    rw [hindex, Option.bind_some, hcolumn]
    exact if_neg (Nat.not_le.2 hlen)
  rcases hcell : json_of_cell (array.cell offset) with _ | v <;>
    simp [MaterializationFilter.admits, MaterializationFilter.matches_row_id, hrow, hbatch,
      MaterializationFilter.matches_value, hat, hcell]

theorem StoredValue.InArray.cell_eq (h : v.InArray array offset) : array.cell offset = v.cell := by
  cases v <;> cases array <;> try exact h.elim
  all_goals
    simp only [StoredValue.InArray] at h
    simp [ArrayRef.cell, StoredValue.cell, h]

/-- A cell with a value is filtered by the value. An `i32` is none of the types of the filter. -/
theorem StoredValue.InArray.admits (h : v.InArray array offset)
    (hcell : CellAt view row column array offset) (value : Json) (hne : v.storage_type ≠ "i32") :
    (MaterializationFilter.ColumnEquals column value).admits view row = v.json.eq value := by
  have hjson : json_of_cell v.cell = some v.json := by
    cases v with
    | i32 w => exact absurd rfl hne
    | _ => rfl
  rw [hcell.admits, h.cell_eq, hjson]

/-- A getter reads the array and the offset of the cell. -/
theorem StoredAt.lookup (h : StoredAt q table view row column v)
    (hcell : CellAt view row column array offset) :
    ∃ lookup, q.lookup_row table row = .ok lookup
      ∧ ∀ {α : Type} (get : ArrayRef → String → Nat → QueryResult (Option α)),
        (lookup.column_view column >>= fun array => get array column lookup.row_offset)
          = get array column offset := by
  obtain ⟨lookup, hlookup, hoffset, hcolumn⟩ := h.published.lookup_cell hcell
  refine ⟨lookup, hlookup, ?_⟩
  intro α get
  rw [hcolumn, hoffset]
  rfl

/-- The evaluator reads the cell by its type. -/
theorem evaluate_column_at {ev : RuleEvaluator Q J} (hread : ev.query_engine.read = .ok q)
    (hrow : ev.scope.row = row) :
    (RuleEvaluator.evaluate_column ⟨table, column⟩ ev).1
      = RuleEvaluator.column_value q ev.modifiers ⟨table, column⟩ row := by
  unfold RuleEvaluator.evaluate_column
  rw [hread, hrow]

/-! ### The types that are read -/

theorem StoredAt.got (h : StoredAt q table view row column v) (hv : v.Supported) :
    ∃ lookup, q.lookup_row table row = .ok lookup
      ∧ v.getter lookup column = some (.ok (some v)) := by
  obtain ⟨array, offset, hcell, hvalue⟩ := h.cell
  obtain ⟨lookup, hlookup, hreads⟩ := h.lookup hcell
  have hlen := hcell.offset_lt
  refine ⟨lookup, hlookup, ?_⟩
  cases v with
  | i64 w =>
    cases array with
    | Int64Array a =>
      unfold StoredValue.getter RowLookupView.get_i64
      rw [hreads, get_int64_some hlen hvalue]
      rfl
    | _ => exact hvalue.elim
  | f64 w =>
    cases array with
    | Float64Array a =>
      unfold StoredValue.getter RowLookupView.get_f64
      rw [hreads, get_float64_some hlen hvalue]
      rfl
    | _ => exact hvalue.elim
  | utf8 w =>
    cases array with
    | StringArray a =>
      unfold StoredValue.getter RowLookupView.get_string
      rw [hreads, get_utf8_some hlen hvalue]
      rfl
    | _ => exact hvalue.elim
  | bool w =>
    cases array with
    | BooleanArray a =>
      unfold StoredValue.getter RowLookupView.get_bool
      rw [hreads, get_boolean_some hlen hvalue]
      rfl
    | _ => exact hvalue.elim
  | i32 w | u64 w | large_utf8 w => exact hv.elim

/-- Without modifiers, the expression has the value of the cell. -/
theorem StoredAt.evaluated (h : StoredAt q table view row column v) (hv : v.Supported)
    (hfloat : v.storage_type ≠ "f64") {ev : RuleEvaluator Q J} (hread : ev.query_engine.read = .ok q)
    (hrow : ev.scope.row = row) (hunmodified : (ev.modifiers.modifiers_for table column).getD [] = []) :
    ∃ x, (RuleEvaluator.evaluate_column ⟨table, column⟩ ev).1 = .ok x
      ∧ StoredValue.Denotes x v := by
  obtain ⟨array, offset, hcell, hvalue⟩ := h.cell
  have hlen := hcell.offset_lt
  rw [evaluate_column_at hread hrow, h.published.column_value hcell h.typed]
  cases v with
  | i64 w =>
    cases array with
    | Int64Array a =>
      refine ⟨.FixedPoint (.new w 0), ?_, ?_⟩
      · simp only [StoredValue.data_type, ColumnKind.of_data_type, get_int64_some hlen hvalue,
          Except.mapError, bind, Except.bind, Option.getD_some, ModifierRegistry.aggregate,
          hunmodified]
        rfl
      · change Decimal.decimal w.toInt 0 = _
        rw [Decimal.decimal, pow_zero, div_one]
    | _ => exact hvalue.elim
  | utf8 w =>
    cases array with
    | StringArray a =>
      refine ⟨.String w, ?_, rfl⟩
      simp only [StoredValue.data_type, ColumnKind.of_data_type, get_utf8_some hlen hvalue,
        Except.mapError, bind, Except.bind, Option.getD_some]
      rfl
    | _ => exact hvalue.elim
  | bool w =>
    cases array with
    | BooleanArray a =>
      refine ⟨.Bool w, ?_, rfl⟩
      simp only [StoredValue.data_type, ColumnKind.of_data_type, get_boolean_some hlen hvalue,
        Except.mapError, bind, Except.bind, Option.getD_some]
      rfl
    | _ => exact hvalue.elim
  | f64 w => exact absurd rfl hfloat
  | i32 w | u64 w | large_utf8 w => exact hv.elim

/-- The values of a type that is read are told apart as JSON. -/
theorem StoredValue.json_eq {w : StoredValue} (hv : v.Supported)
    (htype : w.storage_type = v.storage_type) : v.json.eq w.json = v.same w := by
  cases v with
  | i64 x =>
    cases w with
    | i64 y => exact eq_json_of_i64 x y
    | _ => exact absurd htype (by simp [storage_type])
  | f64 x =>
    cases w with
    | f64 y => exact eq_json_of_f64 hv y
    | _ => exact absurd htype (by simp [storage_type])
  | utf8 x =>
    cases w with
    | utf8 y => rfl
    | _ => exact absurd htype (by simp [storage_type])
  | bool x =>
    cases w with
    | bool y => rfl
    | _ => exact absurd htype (by simp [storage_type])
  | i32 x | u64 x | large_utf8 x => exact hv.elim

theorem StoredAt.readable (h : StoredAt q table view row column v) (hv : v.Supported) :
    Readable Q J q table view row column v where
  got := h.got hv
  evaluated hfloat ev hread hrow hunmodified := h.evaluated hv hfloat hread hrow hunmodified
  matched w htype := by
    obtain ⟨array, offset, hcell, hvalue⟩ := h.cell
    have hne : v.storage_type ≠ "i32" := by
      cases v with
      | i32 w => exact hv.elim
      | _ => simp [StoredValue.storage_type]
    rw [hvalue.admits hcell w.json hne, StoredValue.json_eq hv htype]

/-! ### The types that are not -/

/-- An evaluator at the row. -/
def evaluator_at (Q J : Type) (q : QueryEngine) (table : String) (row : RowId) :
    RuleEvaluator Q J :=
  .new (.new q) (.new (.new .new)) table row

/-- The evaluator takes a `u64` for an `i64`. -/
theorem StoredAt.u64_not_evaluated {w : UInt64} (h : StoredAt q table view row column (.u64 w))
    (modifiers : ModifierRegistry) :
    RuleEvaluator.column_value q modifiers ⟨table, column⟩ row
      = .error (.Query (.TypeMismatch column
          "arrow_array::array::primitive_array::PrimitiveArray<arrow_array::types::Int64Type>"
          "UInt64")) := by
  obtain ⟨array, offset, hcell, hvalue⟩ := h.cell
  rw [h.published.column_value hcell h.typed]
  cases array with
  | UInt64Array a => rfl
  | _ => exact hvalue.elim

/-- The getter takes a long text for a short one. -/
theorem StoredAt.large_utf8_not_got {w : String}
    (h : StoredAt q table view row column (.large_utf8 w)) {lookup : RowLookupView}
    (hlookup : q.lookup_row table row = .ok lookup) :
    lookup.get_string column = .error (.TypeMismatch column
      "arrow_array::array::byte_array::GenericByteArray<arrow_array::types::GenericStringType<i32>>"
      "LargeUtf8") := by
  obtain ⟨array, offset, hcell, hvalue⟩ := h.cell
  obtain ⟨lookup', hlookup', hreads⟩ := h.lookup hcell
  obtain rfl : lookup = lookup' := Except.ok.inj (hlookup.symm.trans hlookup')
  unfold RowLookupView.get_string
  rw [hreads]
  cases array with
  | LargeStringArray a => rfl
  | _ => exact hvalue.elim

/-- A float that is no number is matched by the null that stands for every such float. -/
theorem StoredAt.f64_matched {w : F64} (h : StoredAt q table view row column (.f64 w))
    (hw : w.isFinite = false) :
    (MaterializationFilter.ColumnEquals column (StoredValue.f64 (0.0 / 0.0)).json).admits view row
      = true := by
  obtain ⟨array, offset, hcell, hvalue⟩ := h.cell
  rw [hvalue.admits hcell _ (by simp [StoredValue.storage_type])]
  change (json_of_f64 w).eq (json_of_f64 (0.0 / 0.0)) = true
  rw [json_of_not_finite hw]
  rfl

theorem Readable.supported (h : StoredAt q table view row column v)
    (hread : Readable Q J q table view row column v) : v.Supported := by
  cases v with
  | i64 w | utf8 w | bool w => trivial
  | i32 w =>
    -- there is no getter
    obtain ⟨lookup, -, hgot⟩ := hread.got
    cases hgot
  | u64 w =>
    -- the evaluator has an arm for the type, which reads the cell as another type
    obtain ⟨x, hx, -⟩ := hread.evaluated (by simp [StoredValue.storage_type])
      (evaluator_at Q J q table row) rfl rfl rfl
    have hvalue : (RuleEvaluator.evaluate_column ⟨table, column⟩ (evaluator_at Q J q table row)).1
        = RuleEvaluator.column_value q _ ⟨table, column⟩ row := evaluate_column_at rfl rfl
    rw [hvalue, h.u64_not_evaluated] at hx
    cases hx
  | large_utf8 w =>
    -- the getter is there, and it takes another array
    obtain ⟨lookup, hlookup, hgot⟩ := hread.got
    unfold StoredValue.getter at hgot
    rw [h.large_utf8_not_got hlookup] at hgot
    cases hgot
  | f64 w =>
    by_contra hw
    have hmatched := hread.matched (.f64 (0.0 / 0.0)) rfl
    rw [h.f64_matched (Bool.eq_false_iff.2 hw)] at hmatched
    change true = (w == 0.0 / 0.0) at hmatched
    rw [eq_nan] at hmatched
    cases hmatched

/-- A stored value is read by all three readers if and only if it is of a type that they share. -/
theorem readable_iff (h : StoredAt q table view row column v) :
    Readable Q J q table view row column v ↔ v.Supported := by
  constructor
  · intro hread
    exact hread.supported h
  · intro hv
    exact h.readable hv

end Readers

/-! ### A table of one cell -/

def StoredValue.array : StoredValue → ArrayRef
  | i64 v => .Int64Array (.from_value v)
  | i32 v => .Int32Array (.from_value v)
  | u64 v => .UInt64Array (.from_value v)
  | f64 v => .Float64Array (.from_value v)
  | utf8 v => .StringArray [some v]
  | large_utf8 v => .LargeStringArray [some v]
  | bool v => .BooleanArray [some v]

theorem StoredValue.array_type (v : StoredValue) : v.array.data_type = v.data_type := by
  cases v <;> rfl

theorem StoredValue.array_len (v : StoredValue) : v.array.len = 1 := by
  cases v <;> rfl

theorem StoredValue.in_array (v : StoredValue) : v.InArray v.array 0 := by
  cases v <;> rfl

def value_batch (column : String) (v : StoredValue) : RecordBatch where
  schema := ⟨[⟨column, v.data_type, true⟩]⟩
  columns := [v.array]
  row_count := 1
  column_types := by simp [v.array_type]
  column_len := by simp [v.array_len]
  non_nullable := rfl

def value_view (column : String) (v : StoredValue) : TableReadView where
  table_name := "province"
  tick := Tick.ZERO
  batches := [value_batch column v]
  schema := .new "province"
  position_map := RowPositionMap.new.insert 0 0 0

def value_engine (column : String) (v : StoredValue) : QueryEngine :=
  { QueryEngine.new .new with
    latest_tick := 0
    view_cache := .new ((∅ : Map String TableReadView).insert "province" (value_view column v)) }

theorem stored_at_value (column : String) (v : StoredValue) :
    StoredAt (value_engine column v) "province" (value_view column v) 0 column v := by
  have hrow : (value_view column v).position_map.position_of 0 = some (0, 0) := by
    unfold value_view
    rw [RowPositionMap.position_of_insert, if_pos rfl]
  have hindex : (value_batch column v).schema.index_of column = some 0 := by
    simp [Schema.index_of, value_batch]
  exact ⟨⟨⟨_, rfl, Std.ExtTreeMap.getElem?_insert_self⟩, rfl, 0, rfl⟩,
    TypedColumn.single rfl rfl rfl rfl,
    v.array, 0, ⟨0, _, 0, hrow, rfl, Nat.one_pos, hindex, rfl⟩, v.in_array⟩

/-- The name of a province is read. -/
theorem name_readable :
    Readable Unit Unit (value_engine "name" (.utf8 "Brandenburg")) "province"
      (value_view "name" (.utf8 "Brandenburg")) 0 "name" (.utf8 "Brandenburg") :=
  (readable_iff (stored_at_value "name" (.utf8 "Brandenburg"))).2 trivial

/-- A count of people is not. -/
theorem count_not_readable :
    StoredAt (value_engine "population" (.u64 5)) "province" (value_view "population" (.u64 5)) 0
        "population" (.u64 5)
      ∧ ¬ Readable Unit Unit (value_engine "population" (.u64 5)) "province"
        (value_view "population" (.u64 5)) 0 "population" (.u64 5) := by
  refine ⟨stored_at_value _ _, ?_⟩
  intro h
  exact h.supported (stored_at_value _ _)

end Scharnhorst
