/-
Cells of published views.

The readers of a cell take three ways to it: a lookup goes through the position map of the view to
a batch and an offset, a typed access reads the array of that batch, and the evaluator asks the
first batch of the view what type the column has before it does the same. A view that is in the
cache under its own name is found by all three, and if the column has one type throughout the
view, they agree on the type.
-/
import Scharnhorst.Evaluation

set_option autoImplicit false

namespace Scharnhorst

/-- A view that readers are given, at whatever tick is the latest. -/
structure Published (q : QueryEngine) (table : String) (view : TableReadView) : Prop where
  cached : ∃ cache, q.view_cache.read = .ok cache ∧ cache[table]? = some view
  name : view.table_name = table
  tick : ∃ tick, q.load_latest_tick = some tick

/-- The array and the offset where a view has a row's value of a column. -/
structure CellAt (view : TableReadView) (row : RowId) (column : String) (array : ArrayRef)
    (offset : Nat) : Prop where
  located : ∃ batch_idx batch c, view.position_map.position_of row = some (batch_idx, offset)
    ∧ view.batches[batch_idx]? = some batch ∧ offset < batch.row_count
    ∧ batch.schema.index_of column = some c ∧ batch.columns[c]? = some array

/-- A column of one type: each batch has it, and no batch has it with another type. -/
structure TypedColumn (view : TableReadView) (column : String) (data_type : DataType) : Prop where
  present : ∀ batch ∈ view.batches, ∃ f ∈ batch.schema.fields, f.name = column
  typed : ∀ batch ∈ view.batches, ∀ f ∈ batch.schema.fields,
    f.name = column → f.data_type = data_type

section Cells

variable {q : QueryEngine} {view : TableReadView} {table column : String} {row : RowId}
  {array : ArrayRef} {offset : Nat} {data_type : DataType}

/-! ## Lookups -/

theorem Published.read_single_table (h : Published q table view) {tick : Tick}
    (htick : q.load_latest_tick = some tick) : q.read_single_table tick table = .ok view := by
  obtain ⟨cache, hcache, hview⟩ := h.cached
  simp [QueryEngine.read_single_table, QueryEngine.read, hcache, htick, QueryEngine.read_view,
    hview, h.name, bind, Except.bind, Except.map, pure, Except.pure, ReadResponse.get]

/-- A row of a published view is looked up where the position map has it. -/
theorem Published.lookup_row (h : Published q table view) {batch_index : Nat}
    (hrow : view.position_map.position_of row = some (batch_index, offset)) :
    q.lookup_row table row = .ok { row_id := row, batch_index, row_offset := offset, view } := by
  obtain ⟨tick, htick⟩ := h.tick
  simp only [QueryEngine.lookup_row, htick, h.read_single_table htick, bind, Except.bind, hrow]

theorem RowLookupView.column_view_eq {lookup : RowLookupView} {batch : RecordBatch} {c : Nat}
    (hbatch : lookup.view.batches[lookup.batch_index]? = some batch)
    (hindex : batch.schema.index_of column = some c) (hcolumn : batch.columns[c]? = some array) :
    lookup.column_view column = .ok array := by
  simp only [RowLookupView.column_view, hbatch, hindex, Option.bind_some, hcolumn]

/-- A cell is read at its array and offset, whatever is read there. -/
theorem Published.lookup_cell (h : Published q table view)
    (hcell : CellAt view row column array offset) :
    ∃ lookup, q.lookup_row table row = .ok lookup ∧ lookup.row_offset = offset
      ∧ lookup.column_view column = .ok array := by
  obtain ⟨batch_idx, batch, c, hrow, hbatch, -, hindex, hcolumn⟩ := hcell.located
  exact ⟨_, h.lookup_row hrow, rfl, RowLookupView.column_view_eq hbatch hindex hcolumn⟩

/-! ## Types -/

/-- The column of a field has its type. -/
theorem RecordBatch.column_type {batch : RecordBatch} {c : Nat} {f : Field}
    (hfield : batch.schema.fields[c]? = some f) (hcolumn : batch.columns[c]? = some array) :
    array.data_type = f.data_type := by
  have htypes := congrArg (·[c]?) batch.column_types
  simpa only [List.getElem?_map, hfield, hcolumn, Option.map_some, Option.some.injEq] using htypes

theorem CellAt.offset_lt (hcell : CellAt view row column array offset) : offset < array.len := by
  obtain ⟨batch_idx, batch, c, -, hbatch, hlt, -, hcolumn⟩ := hcell.located
  rw [batch.column_len array (List.mem_of_getElem? hcolumn)]
  exact hlt

/-- A view of one batch with one column. -/
theorem TypedColumn.single {batch : RecordBatch} {f : Field} (hview : view.batches = [batch])
    (hschema : batch.schema.fields = [f]) (hname : f.name = column) (htype : f.data_type = data_type) :
    TypedColumn view column data_type where
  present := by
    intro b hb
    rw [hview] at hb
    rw [List.mem_singleton.1 hb, hschema]
    exact ⟨f, List.mem_singleton_self f, hname⟩
  typed := by
    intro b hb f' hf _
    rw [hview] at hb
    rw [List.mem_singleton.1 hb, hschema] at hf
    rw [List.mem_singleton.1 hf]
    exact htype

/-- The first batch, too, has the column with its type. Of several columns of the name the evaluator
takes the last, and the lookup the first. -/
theorem Published.column_view (h : Published q table view)
    (hcell : CellAt view row column array offset) (htyped : TypedColumn view column data_type) :
    ∃ first, q.column_view table column = .ok first ∧ first.data_type = data_type := by
  obtain ⟨cache, hcache, hview⟩ := h.cached
  obtain ⟨batch_idx, batch, -, -, hbatch, -⟩ := hcell.located
  obtain ⟨first, rest, hbatches⟩ : ∃ first rest, view.batches = first :: rest := by
    apply List.exists_cons_of_ne_nil
    intro hnil
    rw [hnil] at hbatch
    cases hbatch
  have hmem : first ∈ view.batches := by
    rw [hbatches]
    exact List.mem_cons_self
  obtain ⟨f, hf, hname⟩ := htyped.present first hmem
  -- the column is among the pairs that the map is built from
  have hpairs : ((first.schema.fields.map Field.name).zip first.columns).reverse.lookup column
      ≠ none := by
    intro hnone
    obtain ⟨c, hc, rfl⟩ := List.getElem_of_mem hf
    have hc' : c < first.columns.length := by
      rw [first.column_count]
      exact hc
    have hpair : (column, first.columns[c])
        ∈ ((first.schema.fields.map Field.name).zip first.columns).reverse := by
      rw [List.mem_reverse]
      apply List.mem_of_getElem? (i := c)
      rw [List.getElem?_zip_eq_some]
      exact ⟨by rw [List.getElem?_map, List.getElem?_eq_getElem hc, Option.map_some, hname],
        List.getElem?_eq_getElem hc'⟩
    exact absurd (List.lookup_eq_none_iff.1 hnone _ hpair) (by simp)
  obtain ⟨array', hlookup⟩ := Option.ne_none_iff_exists'.1 hpairs
  refine ⟨array', ?_, ?_⟩
  · simp only [QueryEngine.column_view, hcache, hview, TableReadView.first_batch_column, hbatches,
      hlookup]
  · obtain ⟨l₁, l₂, hsplit, -⟩ := List.lookup_eq_some_iff.1 hlookup
    have hpair : (column, array') ∈ (first.schema.fields.map Field.name).zip first.columns := by
      rw [← List.mem_reverse, hsplit]
      exact List.mem_append_right l₁ List.mem_cons_self
    obtain ⟨c, hc⟩ := List.getElem?_of_mem hpair
    rw [List.getElem?_zip_eq_some, List.getElem?_map, Option.map_eq_some_iff] at hc
    obtain ⟨⟨f', hfield, hname'⟩, hcolumn⟩ := hc
    rw [RecordBatch.column_type hfield hcolumn]
    exact htyped.typed first hmem f' (List.mem_of_getElem? hfield) hname'

/-! ## Typed access -/

theorem get_int64_some {a : PrimitiveArray Int64} {w : Int64} (hlt : offset < a.len)
    (hw : a.get offset = some w) : get_int64 (.Int64Array a) column offset = .ok (some w) := by
  change (if a.len ≤ offset then _ else _) = _
  rw [if_neg (Nat.not_le.2 hlt), hw]

theorem get_float64_some {a : PrimitiveArray F64} {w : F64} (hlt : offset < a.len)
    (hw : a.get offset = some w) : get_float64 (.Float64Array a) column offset = .ok (some w) := by
  change (if a.len ≤ offset then _ else _) = _
  rw [if_neg (Nat.not_le.2 hlt), hw]

theorem get_boolean_some {a : List (Option Bool)} {w : Bool} (hlt : offset < a.length)
    (hw : a[offset]? = some (some w)) :
    get_boolean (.BooleanArray a) column offset = .ok (some w) := by
  change (if a.length ≤ offset then _ else _) = _
  rw [if_neg (Nat.not_le.2 hlt), hw]
  rfl

theorem get_utf8_some {a : List (Option String)} {w : String} (hlt : offset < a.length)
    (hw : a[offset]? = some (some w)) :
    get_utf8 (.StringArray a) column offset = .ok (some w) := by
  change (if a.length ≤ offset then _ else _) = _
  rw [if_neg (Nat.not_le.2 hlt), hw]
  rfl

/-! ## The evaluator -/

/-- A cell that the evaluator reads: what its type is decides what is read of its array. -/
theorem Published.column_value (h : Published q table view)
    (hcell : CellAt view row column array offset) (htyped : TypedColumn view column data_type)
    (modifiers : ModifierRegistry) :
    RuleEvaluator.column_value q modifiers ⟨table, column⟩ row =
      match ColumnKind.of_data_type data_type with
      | .Int64 | .UInt64 => do
        let val ← (get_int64 array column offset).mapError .Query
        return .FixedPoint (← modifiers.aggregate table column (.new (val.getD 0) 0))
      | .Float64 => do
        let val ← (get_float64 array column offset).mapError .Query
        let fp ← (FixedPoint.try_from_f64 (val.getD 0.0) 2).mapError fun e => .Evaluation e.to_string
        return .FixedPoint (← modifiers.aggregate table column fp)
      | .Boolean => do
        let val ← (get_boolean array column offset).mapError .Query
        return .Bool (val.getD false)
      | .Utf8 | .LargeUtf8 => do
        let val ← (get_utf8 array column offset).mapError .Query
        return .String (val.getD "")
      | other => .error (.Evaluation s!"unsupported column type {other.to_string} for {table}.{column}") := by
  obtain ⟨first, hfirst, htype⟩ := h.column_view hcell htyped
  obtain ⟨lookup, hlookup, hoffset, hcolumn⟩ := h.lookup_cell hcell
  unfold RuleEvaluator.column_value
  simp only [hfirst, hlookup, Except.mapError, bind, Except.bind, htype, hcolumn, hoffset]
  cases ColumnKind.of_data_type data_type with
  | Int64 | UInt64 =>
    rcases get_int64 array column offset with e | val <;> rfl
  | Float64 =>
    rcases get_float64 array column offset with e | val <;> rfl
  | Boolean =>
    rcases get_boolean array column offset with e | val <;> rfl
  | Utf8 | LargeUtf8 =>
    rcases get_utf8 array column offset with e | val <;> rfl
  | Null | Unknown => rfl

end Cells

end Scharnhorst
