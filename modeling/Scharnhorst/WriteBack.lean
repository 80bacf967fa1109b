/-
A rule that writes a cell back.

The effect sets a column to the value that the column has. For an integer column the value goes
through a fixed-point number, a division by one, a JSON float and the conversion of last resort of
`json_to_i64`, and of these only the first cast loses anything: an integer of more than 53 bits is
rounded. So the cell holds its value again if that cast is exact, and if it is the greatest `i64`,
which is rounded up and brought back by the cast that saturates.
-/
import Scharnhorst.Binary64Casts
import Scharnhorst.EffectRuns
import Scharnhorst.History
import Scharnhorst.IntegerCells
import Scharnhorst.Keyed
import Scharnhorst.Legal
import Scharnhorst.PatchedCells
import Scharnhorst.PublishedCells

set_option autoImplicit false

namespace Scharnhorst

open Binary64 ReadOnly

/-! ## The value on its way -/

/-- The integers that a rule can write back: those of at most 53 bits up to zeros at the end, and
the greatest. -/
def WritesBack (v : Int64) : Prop :=
  2 ^ (v.toInt.natAbs.log2 - 52) ∣ v.toInt.natAbs ∨ v = Int64.maxValue

instance (v : Int64) : Decidable (WritesBack v) := inferInstanceAs (Decidable (_ ∨ _))

/-- What comes of an integer that goes through a fixed-point number. -/
def read_back (v : Int64) : Int64 := f64_to_i64 (FixedPoint.new v 0).to_f64

theorem powi_zero : powi 10.0 (0 : UInt32).toInt32 = 1.0 := rfl

theorem to_f64_zero_scale (v : Int64) : (FixedPoint.new v 0).to_f64 = i64_to_f64 v / 1.0 := by
  change i64_to_f64 v / powi 10.0 (0 : UInt32).toInt32 = _
  rw [powi_zero]

theorem unpack_one : (1.0 : F64).toModel.unpack = one := rfl

theorem unpack_zero : (FixedPoint.new 0 0).to_f64.toModel.unpack = .zero .positive := rfl

/-- The quotient is the nearest float, with the sign of the integer. -/
theorem unpack_to_f64 {v : Int64} (hv : v.toInt ≠ 0) :
    ∃ m e h, (FixedPoint.new v 0).to_f64.toModel.unpack = .finite (sign_of v.toInt) m e h
      ∧ Normal m e (nearest v.toInt.natAbs) := by
  have hlow := v.le_toInt
  have hhigh := v.toInt_lt
  have hsmall : v.toInt.natAbs ≤ 2 ^ 63 := by omega
  obtain ⟨m, e, h, hunpack, hnormal⟩ := unpack_ofInt hv hsmall
  refine ⟨m, e, h, ?_, hnormal⟩
  rw [to_f64_zero_scale]
  change (Float.Model.pack (.div .binary64 (Float.Model.pack (.ofInt .binary64 v.toInt)).unpack
    (1.0 : F64).toModel.unpack)).unpack = _
  rw [hunpack, unpack_one, div_one hnormal]
  exact hnormal.unpack_pack (nearest_le hsmall)

theorem read_back_eq_iff {v : Int64} : read_back v = v ↔ WritesBack v := by
  by_cases hv : v.toInt = 0
  · obtain rfl : v = 0 := Int64.toInt_inj.1 hv
    exact iff_of_true rfl (.inl (by decide))
  · obtain ⟨m, e, h, hunpack, hnormal⟩ := unpack_to_f64 hv
    have hback : read_back v = Int64.ofIntClamp ((sign_of v.toInt).apply (nearest v.toInt.natAbs)) := by
      unfold read_back f64_to_i64
      rw [hunpack, hnormal.toInt64_eq]
    rw [hback]
    exact cast_back_eq_iff

section Json

variable [Render]

/-- The number is finite and between the bounds of `json_to_i64`, so it is cast. -/
theorem write_back_json (v : Int64) :
    ∃ json, eval_value_to_json (.FixedPoint (.new v 0)) = .ok json ∧ json.is_null = false
      ∧ json_to_i64 json = .ok (read_back v) := by
  have hsafe : (FixedPoint.new v 0).to_f64.isFinite = true
      ∧ i64_to_f64 Int64.minValue ≤ (FixedPoint.new v 0).to_f64
      ∧ (FixedPoint.new v 0).to_f64 ≤ i64_to_f64 Int64.maxValue := by
    rw [f64_le_iff, f64_le_iff, unpack_minValue, unpack_maxValue]
    change (FixedPoint.new v 0).to_f64.toModel.unpack.isFinite = true ∧ _
    -- zero is a float of its own kind, and every other integer becomes a normal one
    by_cases hv : v.toInt = 0
    · obtain rfl : v = 0 := Int64.toInt_inj.1 hv
      rw [unpack_zero]
      exact ⟨rfl, rfl, rfl⟩
    · have hlow := v.le_toInt
      have hhigh := v.toInt_lt
      obtain ⟨m, e, h, hunpack, hnormal⟩ := unpack_to_f64 hv
      rw [hunpack]
      exact ⟨rfl, hnormal.within (nearest_le (by omega))⟩
  obtain ⟨hfinite, hbounds⟩ := hsafe
  refine ⟨.number (.Float _ hfinite), ?_, rfl, ?_⟩
  · rw [eval_value_to_json, Number.from_f64, dif_pos hfinite]
  · change (if i64_to_f64 Int64.minValue ≤ _ ∧ _ ≤ i64_to_f64 Int64.maxValue then _ else _) = _
    rw [if_pos hbounds]
    rfl

end Json

/-! ## The rule -/

section Rule

variable {Q J : Type}

def write_back (table column : String) : Effect := .UpdateColumn table column (.Column ⟨table, column⟩)

/-- The evaluator reads this integer in its scope's row, nothing modifies it, and the journal takes
diffs. -/
structure ReadsInteger (ev : RuleEvaluator Q J) (table column : String) (v : Int64) : Prop where
  cell : ∃ q view a offset, ev.query_engine.read = .ok q ∧ Published q table view
    ∧ TypedColumn view column .Int64
    ∧ CellAt view ev.scope.row column (.Int64Array a) offset ∧ a.get offset = some v
  unmodified : (ev.modifiers.modifiers_for table column).getD [] = []
  unpoisoned : ev.journal.poisoned = false
  is_open : ev.journal.data.phase = .Open

variable {ev : RuleEvaluator Q J} {table column : String} {v : Int64}

theorem ReadsInteger.evaluate_column (h : ReadsInteger ev table column v) :
    RuleEvaluator.evaluate_column ⟨table, column⟩ ev = (.ok (.FixedPoint (.new v 0)), ev) := by
  obtain ⟨q, view, a, offset, hread, hpublished, htyped, hcell, hget⟩ := h.cell
  have hlen : offset < a.len := hcell.offset_lt
  have hvalue : get_int64 (.Int64Array a) column offset = .ok (some v) := get_int64_some hlen hget
  unfold RuleEvaluator.evaluate_column
  rw [hread]
  simp only [hpublished.column_value hcell htyped, ColumnKind.of_data_type, hvalue, Except.mapError,
    bind, Except.bind, Option.getD_some, ModifierRegistry.aggregate, h.unmodified]
  rfl

/-- The rule submits an update of the cell. -/
theorem ReadsInteger.write_back [Render] (h : ReadsInteger ev table column v) :
    ∃ json, RuleEvaluator.evaluate_effect (write_back table column) ev
        = (.ok (), ev.written ev.vars [.Update table ev.scope.row column json])
      ∧ json.is_null = false ∧ json_to_i64 json = .ok (read_back v) := by
  obtain ⟨json, hjson, hnull, hcast⟩ := write_back_json v
  refine ⟨json, ?_, hnull, hcast⟩
  have hvalue : RuleEvaluator.evaluate_to_json (.Column ⟨table, column⟩) ev = (.ok json, ev) := by
    unfold RuleEvaluator.evaluate_to_json RuleEvaluator.evaluate and_then
    rw [h.evaluate_column]
    simp only [done, hjson]
  have hsubmit := RuleEvaluator.submit_diff_written h.is_open ev.vars []
    (.Update table ev.scope.row column json)
  rw [RuleEvaluator.written_start] at hsubmit
  unfold Scharnhorst.write_back RuleEvaluator.evaluate_effect and_then
  rw [hvalue]
  change RuleEvaluator.submit_diff (.Update table ev.scope.row column json) ev = _
  rw [hsubmit]
  unfold RuleEvaluator.submits RwLock.read
  rw [h.unpoisoned]
  rfl

end Rule

/-! ## The table -/

/-- The row's cell of the column is this integer. -/
structure StoresInteger (t : VersionedTable) (row : RowId) (column : String) (v : Int64) : Prop where
  cell : ∃ loc batch c, t.locate row = some (loc, batch) ∧ batch.schema.index_of column = some c
    ∧ (batch.row loc.row_index)[c]? = some (.Int64 v)

theorem StoresInteger.unique {t : VersionedTable} {row : RowId} {column : String} {v w : Int64}
    (hv : StoresInteger t row column v) (hw : StoresInteger t row column w) : v = w := by
  obtain ⟨loc, batch, c, hloc, hindex, hcell⟩ := hv.cell
  obtain ⟨loc', batch', c', hloc', hindex', hcell'⟩ := hw.cell
  rw [hloc, Option.some.injEq, Prod.mk.injEq] at hloc'
  obtain ⟨rfl, rfl⟩ := hloc'
  rw [hindex, Option.some.injEq] at hindex'
  subst hindex'
  rw [hcell, Option.some.injEq, Cell.Int64.injEq] at hcell'
  exact hcell'

/-- An array with an integer in it is one of integers. -/
theorem ArrayRef.type_of_integer {array : ArrayRef} {i : Nat} {v : Int64}
    (h : array.cell i = .Int64 v) : array.data_type = .Int64 := by
  have helim : ∀ {α : Type} (wrap : α → Cell) (value : Option α),
      (∀ w, wrap w ≠ .Int64 v) → value.elim .Null wrap ≠ .Int64 v := by
    intro α wrap value hwrap
    rcases value with _ | w
    · exact Cell.noConfusion
    · exact hwrap w
  cases array with
  | Int64Array a => rfl
  | Int32Array a => exact absurd h (helim .Int32 _ fun w => Cell.noConfusion)
  | UInt64Array a => exact absurd h (helim .UInt64 _ fun w => Cell.noConfusion)
  | Float64Array a => exact absurd h (helim .Float64 _ fun w => Cell.noConfusion)
  | BooleanArray a => exact absurd h (helim .Boolean _ fun w => Cell.noConfusion)
  | StringArray a => exact absurd h (helim .Utf8 _ fun w => Cell.noConfusion)
  | LargeStringArray a => exact absurd h (helim .LargeUtf8 _ fun w => Cell.noConfusion)
  | OtherArray type_name a => exact absurd h (helim .Other _ fun w => Cell.noConfusion)

theorem RecordBatch.integer_field {batch : RecordBatch} {i c : Nat} {v : Int64}
    (hcell : (batch.row i)[c]? = some (.Int64 v)) :
    ∃ f, batch.schema.fields[c]? = some f ∧ f.data_type = .Int64 := by
  rw [RecordBatch.row, List.getElem?_map, Option.map_eq_some_iff] at hcell
  obtain ⟨array, hcolumn, hvalue⟩ := hcell
  have hlt : c < batch.schema.fields.length := by
    rw [← batch.column_count]
    exact (List.getElem?_eq_some_iff.1 hcolumn).1
  refine ⟨batch.schema.fields[c], List.getElem?_eq_getElem hlt, ?_⟩
  rw [← RecordBatch.column_type (List.getElem?_eq_getElem hlt) hcolumn]
  exact ArrayRef.type_of_integer hvalue

/-- A row is still there when its batch is overwritten. -/
theorem VersionedTable.locate_set_batch {t : VersionedTable} {row : RowId} {loc : RowLocation}
    {batch patched : RecordBatch} (h : t.locate row = some (loc, batch))
    (hcount : patched.row_count = batch.row_count) :
    (t.set_batch loc patched).locate row = some (loc, patched) := by
  have hv := VersionedTable.versions_of_locate h
  obtain ⟨hpos, htick, hbatch, hlt, hid⟩ := VersionedTable.locate_eq_some.1 h
  obtain ⟨hidx, -⟩ := List.getElem?_eq_some_iff.1 hbatch
  rw [VersionedTable.locate_eq_some]
  refine ⟨hpos, ?_, ?_, by omega, hid⟩
  · rw [← htick]
    exact loc_tick_set hv loc.batch_index patched loc.batch_index
  · rw [VersionedTable.batches_set_batch, if_pos rfl, List.getElem?_set_self hidx]

section Table

variable [Render] {t t' : VersionedTable} {row : RowId} {column : String} {v w : Int64}
  {table_name : String} {json : Json}

/-- An update of an integer cell leaves the converted integer in it. -/
theorem StoresInteger.updated (h : StoresInteger t row column v) (hnull : json.is_null = false)
    (hcast : json_to_i64 json = .ok w) (tick : Tick)
    (happly : apply_update_to_table t table_name tick row column json = (.ok (), t')) :
    StoresInteger t' row column w := by
  obtain ⟨loc, batch, c, hloc, hindex, hcell⟩ := h.cell
  obtain ⟨f, hfield, htype⟩ := RecordBatch.integer_field hcell
  obtain ⟨loc', batch', patched, hloc', hpatched, rfl⟩ := apply_update_ok tick happly
  rw [hloc, Option.some.injEq, Prod.mk.injEq] at hloc'
  obtain ⟨rfl, rfl⟩ := hloc'
  have hrow := (VersionedTable.locate_eq_some.1 hloc).2.2.2.1
  -- what the patch puts in the row does not depend on the null buffers of the batch
  unfold update_batch at hpatched
  rw [hindex] at hpatched
  rcases hpatch : build_update_patch batch loc.row_index c json with e | patch
  · simp [hpatch, bind, Except.bind] at hpatched
  simp only [hpatch, bind, Except.bind] at hpatched
  obtain ⟨hschema, hone, hnew⟩ := build_update_patch_spec hpatch hrow hfield
  obtain ⟨hschema', hcount, -⟩ := patch_record_batch_spec hpatched
  refine ⟨loc, patched, c, VersionedTable.locate_set_batch hloc hcount, ?_, ?_⟩
  · rw [hschema', hindex]
  · have hlt : c < (batch.row loc.row_index).length := (List.getElem?_eq_some_iff.1 hcell).1
    have hwritten : json_cell json f.data_type = .Int64 w := by
      unfold json_cell
      rw [hnull, htype, if_neg (by decide), hcast]
      rfl
    rw [patched_row hpatched hschema hone hrow, hnew, List.getElem?_set_self hlt, hwritten]

/-- A row as the diffs leave it is updated with whatever converts. -/
theorem StoresInteger.accepted (h : StoresInteger t row column v) (hnull : json.is_null = false)
    (hcast : json_to_i64 json = .ok w) (tick : Tick) {loc : RowLocation} {batch : RecordBatch}
    {schema : Schema}
    (hloc : t.locate row = some (loc, batch)) (hone : OneRow schema batch)
    (hpatchable : Patchable schema) :
    ∃ t', apply_update_to_table t table_name tick row column json = (.ok (), t') := by
  obtain ⟨loc', batch', c, hloc', hindex, hcell⟩ := h.cell
  rw [hloc, Option.some.injEq, Prod.mk.injEq] at hloc'
  obtain ⟨rfl, rfl⟩ := hloc'
  obtain ⟨f, hfield, htype⟩ := RecordBatch.integer_field hcell
  have hfits : Fits f json := by
    refine ⟨?_, fun _ => hnull⟩
    rw [htype, json_value_to_array, hnull, if_neg (by decide), hcast]
    exact ⟨_, rfl⟩
  have hzero : loc.row_index = 0 := by
    have hrow := (VersionedTable.locate_eq_some.1 hloc).2.2.2.1
    -- a row that the diffs have touched has a batch to itself
    rw [hone.one] at hrow
    omega
  obtain ⟨patched, hpatched⟩ : ∃ patched, update_batch table_name batch 0 column json = .ok patched :=
    (exists_update_batch hone hpatchable).2
      ⟨c, f, by rw [← hone.schema_eq, hindex], by rw [← hone.schema_eq, hfield], hfits⟩
  rw [apply_update_of_locate hloc, hzero, hpatched]
  exact ⟨_, rfl⟩

end Table

/-! ### A table of one cell -/

def one_field (column : String) : Schema :=
  { fields := [{ name := column, data_type := .Int64, nullable := true }] }

def one_cell_batch (column : String) (v : Int64) : RecordBatch where
  schema := one_field column
  columns := [.Int64Array (.from_value v)]
  row_count := 1
  column_types := rfl
  column_len c hc := by
    rw [List.mem_singleton] at hc
    rw [hc]
    rfl
  non_nullable := rfl

def one_cell_table (table column : String) (row : RowId) (v : Int64) : VersionedTable :=
  { VersionedTable.new table .Patchable with
    versions := (∅ : Versions).insert Tick.ZERO [one_cell_batch column v]
    position_map := RowPositionMap.new.insert row 0 0 }

theorem locate_one_cell (table column : String) (row : RowId) (v : Int64) :
    (one_cell_table table column row v).locate row = some
      ({ tick := Tick.ZERO, batch_index := 0, row_index := 0, row_id := row },
        one_cell_batch column v) := by
  have hversions : (one_cell_table table column row v).versions[Tick.ZERO]?
      = some [one_cell_batch column v] := Std.ExtTreeMap.getElem?_insert_self
  have hpos : (one_cell_table table column row v).position_map.position_of row = some (0, 0) := by
    unfold one_cell_table
    rw [RowPositionMap.position_of_insert, if_pos rfl]
  rw [VersionedTable.locate_eq_some]
  refine ⟨hpos, ?_, ?_, Nat.one_pos, rfl⟩
  · rw [loc_tick_eq_some]
    refine ⟨⟨_, hversions, Nat.one_pos⟩, ?_⟩
    intro t bs ht hlt
    unfold one_cell_table at ht
    rw [Std.ExtTreeMap.getElem?_insert] at ht
    split at ht
    · rename_i heq
      exact (Std.LawfulEqOrd.eq_of_compare heq).symm.le
    · rw [Std.ExtTreeMap.getElem?_empty] at ht
      cases ht
  · rw [VersionedTable.batches_of_versions hversions]
    rfl

theorem index_one_field (column : String) : (one_field column).index_of column = some 0 := by
  simp [Schema.index_of, one_field]

theorem stores_one_cell (table column : String) (row : RowId) (v : Int64) :
    StoresInteger (one_cell_table table column row v) row column v :=
  ⟨_, _, 0, locate_one_cell table column row v, index_one_field column, rfl⟩

theorem one_row_one_cell (column : String) (v : Int64) :
    OneRow (one_field column) (one_cell_batch column v) where
  schema_eq := rfl
  one := rfl
  aligned c hc := by
    have hcolumn : c = .Int64Array (.from_value v) := List.mem_singleton.1 hc
    rw [hcolumn]
    exact PrimitiveArray.aligned_from_value v

theorem patchable_one_field (column : String) : Patchable (one_field column) := by
  refine ⟨List.cons_ne_nil _ _, ?_⟩
  intro f hf name
  rw [one_field, List.mem_singleton] at hf
  rw [hf]
  exact DataType.noConfusion

/-! ## Both together -/

section Both

variable [Render] {Q J : Type}

/-- The rule submits one diff, and a table that holds the integer in the cell holds it after the
diff as well; a row as the diffs leave it takes the diff. -/
def StoresAgain (ev : RuleEvaluator Q J) (table column : String) (v : Int64) : Prop :=
  ∃ json, RuleEvaluator.evaluate_effect (write_back table column) ev
      = (.ok (), ev.written ev.vars [.Update table ev.scope.row column json])
    ∧ ∀ (reg : TypeRegistry) (tick : Tick) (t : VersionedTable),
        StoresInteger t ev.scope.row column v →
        (∀ t', apply_to_table reg tick (.Update table ev.scope.row column json) t = (.ok (), t') →
            StoresInteger t' ev.scope.row column v)
          ∧ ∀ loc batch schema, t.locate ev.scope.row = some (loc, batch) → OneRow schema batch →
            Patchable schema →
            ∃ t', apply_to_table reg tick (.Update table ev.scope.row column json) t = (.ok (), t')

/-- It is stored again if it comes back. -/
theorem ReadsInteger.stores_again_iff_read_back {ev : RuleEvaluator Q J} {table column : String}
    {v : Int64} (h : ReadsInteger ev table column v) :
    StoresAgain ev table column v ↔ read_back v = v := by
  obtain ⟨json, hrule, hnull, hcast⟩ := h.write_back
  constructor
  · rintro ⟨json', hrule', hkept⟩
    -- the rule submits one diff, so this is the one
    have hsame : json' = json := by
      have hdiffs := congrArg (fun run => run.2.journal.data.pending_diffs) (hrule'.symm.trans hrule)
      simpa [RuleEvaluator.written] using hdiffs
    subst hsame
    have hstores := stores_one_cell table column ev.scope.row v
    obtain ⟨hafter, htakes⟩ := hkept default_type_registry Tick.ZERO _ hstores
    obtain ⟨t', happly⟩ := htakes _ _ _ (locate_one_cell table column ev.scope.row v)
      (one_row_one_cell column v) (patchable_one_field column)
    exact (hstores.updated hnull hcast Tick.ZERO happly).unique (hafter t' happly)
  · intro hback
    rw [hback] at hcast
    refine ⟨json, hrule, fun reg tick t hstores => ⟨?_, ?_⟩⟩
    · intro t' happly
      exact hstores.updated hnull hcast tick happly
    · intro loc batch schema hloc hone hpatchable
      exact hstores.accepted hnull hcast tick hloc hone hpatchable

/-- An integer that is read from a cell and written back by a rule is stored again if and only if
it has at most 53 bits, up to zeros at the end, or is the greatest. -/
theorem stores_again_iff (ev : RuleEvaluator Q J) (table column : String) (v : Int64)
    (h : ReadsInteger ev table column v) : StoresAgain ev table column v ↔ WritesBack v := by
  rw [h.stores_again_iff_read_back, read_back_eq_iff]

end Both

/-! ### A province with an amount of gold -/

def gold_view (v : Int64) : TableReadView where
  table_name := "province"
  tick := Tick.ZERO
  batches := [one_cell_batch "gold" v]
  schema := .new "province"
  position_map := RowPositionMap.new.insert 0 0 0

def gold_engine (v : Int64) : QueryEngine :=
  { QueryEngine.new .new with
    latest_tick := 0
    view_cache := .new ((∅ : Map String TableReadView).insert "province" (gold_view v)) }

def gold_world (v : Int64) : RuleEvaluator Unit Unit :=
  .new (.new (gold_engine v)) (.new (.new .new)) "province" 0

theorem gold_world_reads (v : Int64) : ReadsInteger (gold_world v) "province" "gold" v := by
  have hcached : ∃ cache, (gold_engine v).view_cache.read = .ok cache
      ∧ cache["province"]? = some (gold_view v) :=
    ⟨_, rfl, Std.ExtTreeMap.getElem?_insert_self⟩
  have hrow : (gold_view v).position_map.position_of 0 = some (0, 0) := by
    unfold gold_view
    rw [RowPositionMap.position_of_insert, if_pos rfl]
  refine ⟨⟨gold_engine v, gold_view v, .from_value v, 0, rfl, ⟨hcached, rfl, 0, rfl⟩,
    TypedColumn.single rfl rfl rfl rfl, ?_, rfl⟩, rfl, rfl, rfl⟩
  exact ⟨0, _, 0, hrow, rfl, Nat.one_pos, index_one_field "gold", rfl⟩

/-- `2^53` is written back. -/
theorem power_written_back :
    ReadsInteger (gold_world 9007199254740992) "province" "gold" 9007199254740992
      ∧ @StoresAgain integer_text Unit Unit (gold_world 9007199254740992) "province" "gold"
        9007199254740992 :=
  ⟨gold_world_reads _,
    (@stores_again_iff integer_text Unit Unit _ "province" "gold" _ (gold_world_reads _)).2 (by decide)⟩

/-- The integer after it is not. -/
theorem next_not_written_back :
    ReadsInteger (gold_world 9007199254740993) "province" "gold" 9007199254740993
      ∧ ¬ @StoresAgain integer_text Unit Unit (gold_world 9007199254740993) "province" "gold"
        9007199254740993 := by
  refine ⟨gold_world_reads _, ?_⟩
  rw [@ReadsInteger.stores_again_iff_read_back integer_text Unit Unit _ _ _ _ (gold_world_reads _),
    read_back_eq_iff]
  decide

end Scharnhorst
