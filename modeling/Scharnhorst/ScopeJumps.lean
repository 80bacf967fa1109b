/-
Scope jumps follow the relation, for some contents.

A jump that goes through ends on a row whose key agrees with the key of the scope's row, and
one that fails leaves the scope alone. But the scan reads the key of every row that it meets on
the way, and the first null ends it, so whether a related row is found is up to the order of the
hash map. And the row of the scope is looked up where the edge starts, whatever table the scope
is in.

What the tables hold is said about their views, in terms of cells; the order of the rows is
arbitrary throughout.
-/
import Scharnhorst.Evaluator
import Scharnhorst.QuerySpec

set_option autoImplicit false

namespace Scharnhorst

/-! ## Keys of rows -/

namespace TableReadView

variable (view : TableReadView) (column : String)

/-- The array of a column in one of the batches. -/
def array (batch_index : Nat) : Option ArrayRef :=
  view.batches[batch_index]?.bind fun batch =>
    (batch.schema.index_of column).bind (batch.columns[·]?)

/-- What a live row holds. -/
def key (row : RowId) : Option Cell :=
  (view.position_map.position_of row).bind fun (batch_index, row_offset) =>
    (view.array column batch_index).map (·.cell row_offset)

/-- Every entry of the position map leads to a slot of an `i64` column. -/
def KeysStored : Prop :=
  ∀ row batch_index row_offset,
    view.position_map.position_of row = some (batch_index, row_offset) →
      ∃ a, view.array column batch_index = some (.Int64Array a) ∧ row_offset < a.len

variable {view column}

/-- Only live rows have keys. -/
theorem live_of_key {row : RowId} {cell : Cell} (h : view.key column row = some cell) :
    view.position_map.contains row = true := by
  obtain ⟨p, hp, -⟩ := Option.bind_eq_some_iff.1 h
  exact (RowPositionMap.contains_eq_true _ _).2 ⟨p, hp⟩

theorem KeysStored.key (h : view.KeysStored column) {row : RowId}
    (hrow : view.position_map.contains row = true) :
    view.key column row = some .Null ∨ ∃ v, view.key column row = some (.Int64 v) := by
  obtain ⟨⟨b, o⟩, hp⟩ := (RowPositionMap.contains_eq_true _ _).1 hrow
  obtain ⟨a, ha, -⟩ := h row b o hp
  have hkey : view.key column row = some ((a.get o).elim .Null .Int64) := by
    simp only [TableReadView.key, hp, Option.bind_some, ha, Option.map_some]
    rfl
  rw [hkey]
  rcases a.get o with _ | v
  · exact .inl rfl
  · exact .inr ⟨v, rfl⟩

/-- One entry does. -/
def stored_at (view : TableReadView) (column : String) (position : Nat × Nat) : Bool :=
  match view.array column position.1 with
  | some (.Int64Array a) => decide (position.2 < a.len)
  | _ => false

theorem stored_at_iff {position : Nat × Nat} : view.stored_at column position = true
    ↔ ∃ a, view.array column position.1 = some (.Int64Array a) ∧ position.2 < a.len := by
  unfold stored_at
  rcases view.array column position.1 with _ | array
  · simp
  · cases array <;> simp

instance : Decidable (view.KeysStored column) :=
  decidable_of_iff (∀ entry ∈ view.position_map.entries.toList,
      view.stored_at column entry.2 = true) <| by
    constructor
    · intro h row b o hp
      exact stored_at_iff.1 (h (row, b, o) (Std.ExtTreeMap.mem_toList_iff_getElem?_eq_some.2 hp))
    · rintro h ⟨row, b, o⟩ hentry
      exact stored_at_iff.2 (h row b o (Std.ExtTreeMap.mem_toList_iff_getElem?_eq_some.1 hentry))

end TableReadView

/-- A slot past the end holds nothing. -/
theorem PrimitiveArray.lt_len {α : Type} {a : PrimitiveArray α} {i : Nat} {v : α}
    (h : a.get i = some v) : i < a.len := by
  unfold PrimitiveArray.get at h
  split at h
  · cases h
  · exact (List.getElem?_eq_some_iff.1 h).1

/-- Integers of 64 bits stand in one kind of array. -/
theorem ArrayRef.cell_int64 {array : ArrayRef} {i : Nat} {v : Int64} :
    array.cell i = .Int64 v ↔ ∃ a, array = .Int64Array a ∧ a.get i = some v := by
  have hother : ∀ {α : Type} (slot : Option α) (f : α → Cell), (∀ x, f x ≠ .Int64 v) →
      slot.elim .Null f ≠ .Int64 v := by
    intro α slot f hf
    cases slot with
    | none => simp
    | some x => exact hf x
  cases array with
  | Int64Array a => rcases h : a.get i with _ | w <;> simp [ArrayRef.cell, h]
  | _ =>
      simp only [reduceCtorEq, false_and, exists_false, iff_false]
      exact hother _ _ fun x h => by cases h

/-- Typed access answers with the integer that the slot holds. -/
theorem get_int64_ok {array : ArrayRef} {column : String} {i : Nat} {v : Int64} :
    get_int64 array column i = .ok (some v) ↔ array.cell i = .Int64 v := by
  rw [ArrayRef.cell_int64]
  -- any other kind of array is a type mismatch before a slot is looked at
  cases array with
  | Int64Array a =>
      by_cases hi : a.len ≤ i
      · have hnone : a.get i ≠ some v := fun h => by have := PrimitiveArray.lt_len h; omega
        simp [get_int64, hi, hnone]
      · simp [get_int64, hi]
  | _ => simp [get_int64]

/-! ## Reading keys -/

namespace QueryEngine

/-- The view of the table at a tick has the row, with this cell in the column. -/
def Holds (q : QueryEngine) (tick : Tick) (table column : String) (row : RowId) (cell : Cell) :
    Prop :=
  ∃ view, q.read_single_table tick table = .ok view ∧ view.key column row = some cell

instance (q : QueryEngine) (tick : Tick) (table column : String) (row : RowId) (cell : Cell) :
    Decidable (q.Holds tick table column row cell) :=
  decidable_of_iff
    ((q.read_single_table tick table).toOption.bind (·.key column row) = some cell) <| by
    unfold Holds
    rcases q.read_single_table tick table with e | view <;> simp [Except.toOption]

end QueryEngine

namespace Evaluator

variable {q : QueryEngine} {tick : Tick} {table column null_text : String} {row : RowId}

/-- The key of a row can be read if the row holds an integer, and is that integer. -/
theorem read_key_ok (htick : q.load_latest_tick = some tick) {v : Int64} :
    read_key q table column null_text row = .ok v
      ↔ q.Holds tick table column row (.Int64 v) := by
  have hget : read_key q table column null_text row = .ok v
      ↔ q.lookup_row table row >>= (·.get_i64 column) = .ok (some v) := by
    unfold read_key
    rcases q.lookup_row table row >>= (·.get_i64 column) with e | _ | w <;> simp
  -- the lookup reads at the latest tick, whatever tick the caller is at
  rw [hget, QueryEngine.lookup_row, htick]
  simp only [QueryEngine.Holds]
  rcases q.read_single_table tick table with e | view
  · simp [bind, Except.bind]
  simp only [Except.ok.injEq, exists_eq_left', TableReadView.key]
  simp only [bind, Except.bind]
  rcases view.position_map.position_of row with _ | ⟨b, o⟩
  · simp
  simp only [RowLookupView.get_i64, RowLookupView.column_view, bind, Except.bind,
    Option.bind_some, TableReadView.array]
  rcases view.batches[b]? with _ | batch
  · simp
  simp only [Option.bind_some]
  rcases (batch.schema.index_of column).bind (batch.columns[·]?) with _ | array
  · simp
  · simpa using get_int64_ok

end Evaluator

/-! ## The scan -/

/-- An order in which a hash map may list the rows of each position map. -/
def Lists (row_ids : RowPositionMap → List RowId) : Prop :=
  ∀ m : RowPositionMap, (row_ids m).Perm m.entries.keys

theorem Lists.mem {row_ids : RowPositionMap → List RowId} (h : Lists row_ids)
    {m : RowPositionMap} {row : RowId} : row ∈ row_ids m ↔ m.contains row = true := by
  rw [(h m).mem_iff, Std.ExtTreeMap.mem_keys, RowPositionMap.contains,
    Std.ExtTreeMap.contains_iff_mem]

/-- The order that lists one row before all others. -/
def first_row (row : RowId) (m : RowPositionMap) : List RowId :=
  if row ∈ m.entries.keys then row :: m.entries.keys.erase row else m.entries.keys

theorem lists_first_row (row : RowId) : Lists (first_row row) := by
  intro m
  unfold first_row
  split
  · exact (List.perm_cons_erase ‹_›).symm
  · exact List.Perm.refl _

theorem first_row_live {row : RowId} {m : RowPositionMap} (h : m.contains row = true) :
    first_row row m = row :: m.entries.keys.erase row := by
  have hmem : row ∈ m.entries.keys := by
    rwa [Std.ExtTreeMap.mem_keys, ← Std.ExtTreeMap.contains_iff_mem]
  rw [first_row, if_pos hmem]

namespace Evaluator

section Scan

variable {q : QueryEngine} {table column null_text : String} {key : Int64} {rows : List RowId}

/-- What the scan ends on has the key. -/
theorem read_key_of_find_row {row : RowId}
    (h : find_row q table column null_text key rows = .ok (some row)) :
    read_key q table column null_text row = .ok key := by
  induction rows with
  | nil => cases h
  | cons r rows ih =>
      simp only [find_row] at h
      rcases hr : read_key q table column null_text r with e | v
      · rw [hr] at h
        cases h
      · rw [hr] at h
        dsimp only at h
        split at h
        · obtain rfl : r = row := by simpa using h
          rw [hr, ‹v = key›]
        · exact ih h

/-- Where every key can be read, a row with the key is found. -/
theorem find_row_finds (hrows : ∀ row ∈ rows, ∃ v, read_key q table column null_text row = .ok v)
    (hkey : ∃ row ∈ rows, read_key q table column null_text row = .ok key) :
    ∃ row, find_row q table column null_text key rows = .ok (some row) := by
  induction rows with
  | nil =>
      obtain ⟨row, hrow, -⟩ := hkey
      cases hrow
  | cons r rows ih =>
      obtain ⟨v, hv⟩ := hrows r List.mem_cons_self
      simp only [find_row, hv]
      by_cases heq : v = key
      · exact ⟨r, by rw [if_pos heq]⟩
      · rw [if_neg heq]
        -- the first row has another key, so the one with the key comes later
        refine ih (fun row hrow => hrows row (List.mem_cons_of_mem r hrow)) ?_
        obtain ⟨row, hrow, hrk⟩ := hkey
        rcases List.mem_cons.1 hrow with rfl | hrow
        · rw [hv] at hrk
          exact absurd (Except.ok.inj hrk) heq
        · exact ⟨row, hrow, hrk⟩

end Scan

section Table

variable {row_ids : RowPositionMap → List RowId} {ev : Evaluator} {q : QueryEngine}
  {table column null_text not_found : String} {key : Int64}

theorem scan_table_read {row : RowId}
    (h : scan_table row_ids ev q table column null_text key not_found = .ok row) :
    ∃ view, q.read_single_table ev.cache.current_tick table = .ok view := by
  unfold scan_table at h
  split at h
  · cases h
  · exact ⟨_, ‹_›⟩

variable (htick : q.load_latest_tick = some ev.cache.current_tick)
include htick

/-- A scan that goes through ends on a row with the key. -/
theorem scan_table_sound {row : RowId}
    (h : scan_table row_ids ev q table column null_text key not_found = .ok row) :
    q.Holds ev.cache.current_tick table column row (.Int64 key) := by
  unfold scan_table at h
  split at h
  · cases h
  split at h
  · cases h
  · obtain rfl := Except.ok.inj h
    exact (read_key_ok htick).1 (read_key_of_find_row ‹_›)
  · cases h

/-- With no null on the way, in whatever order, a row with the key is found if there is one. -/
theorem scan_table_finds (hlists : Lists row_ids)
    (hstored : ∀ view, q.read_single_table ev.cache.current_tick table = .ok view →
      view.KeysStored column)
    (hnull : ∀ row, ¬ q.Holds ev.cache.current_tick table column row .Null)
    {target : RowId} (htarget : q.Holds ev.cache.current_tick table column target (.Int64 key)) :
    ∃ row, scan_table row_ids ev q table column null_text key not_found = .ok row := by
  obtain ⟨view, hview, hkey⟩ := htarget
  have hrows : ∀ row ∈ row_ids view.position_map,
      ∃ v, read_key q table column null_text row = .ok v := by
    intro row hrow
    rcases (hstored view hview).key (hlists.mem.1 hrow) with hn | ⟨v, hv⟩
    · exact absurd ⟨view, hview, hn⟩ (hnull row)
    · exact ⟨v, (read_key_ok htick).2 ⟨view, hview, hv⟩⟩
  have htarget : ∃ row ∈ row_ids view.position_map,
      read_key q table column null_text row = .ok key :=
    ⟨target, hlists.mem.2 (TableReadView.live_of_key hkey),
      (read_key_ok htick).2 ⟨view, hview, hkey⟩⟩
  obtain ⟨row, hrow⟩ := find_row_finds hrows htarget
  exact ⟨row, by simp only [scan_table, hview, hrow]⟩

/-- A row with the key that comes first is found. -/
theorem scan_table_first {row : RowId}
    (h : q.Holds ev.cache.current_tick table column row (.Int64 key)) :
    scan_table (first_row row) ev q table column null_text key not_found = .ok row := by
  obtain ⟨view, hview, hkey⟩ := h
  have hread : read_key q table column null_text row = .ok key :=
    (read_key_ok htick).2 ⟨view, hview, hkey⟩
  simp [scan_table, hview, first_row_live (TableReadView.live_of_key hkey), find_row, hread]

/-- A null that comes first ends the scan. -/
theorem scan_table_null {row : RowId}
    (h : q.Holds ev.cache.current_tick table column row .Null) :
    ∃ e, scan_table (first_row row) ev q table column null_text key not_found = .error e := by
  obtain ⟨view, hview, hkey⟩ := h
  have hread : ∃ e, read_key q table column null_text row = .error e := by
    rcases hr : read_key q table column null_text row with e | v
    · exact ⟨e, rfl⟩
    · obtain ⟨view', hview', hkey'⟩ := (read_key_ok htick).1 hr
      obtain rfl := Except.ok.inj (hview.symm.trans hview')
      rw [hkey] at hkey'
      cases hkey'
  obtain ⟨e, he⟩ := hread
  exact ⟨e, by simp [scan_table, hview, first_row_live (TableReadView.live_of_key hkey),
    find_row, he]⟩

end Table

end Evaluator

/-! ## One jump -/

namespace RelationEdge

variable (edge : RelationEdge)

/-- The table that a jump starts from. -/
def start : JumpDirection → String
  | .Forward => edge.from_table
  | .Reverse => edge.to_table

/-- The table that a jump leads to. -/
def destination : JumpDirection → String
  | .Forward => edge.to_table
  | .Reverse => edge.from_table

/-- The key column of the one and of the other, for this primary key. -/
def start_column (pk_col : String) : JumpDirection → String
  | .Forward => edge.from_column
  | .Reverse => pk_col

def destination_column (pk_col : String) : JumpDirection → String
  | .Forward => pk_col
  | .Reverse => edge.from_column

end RelationEdge

namespace Evaluator

/-- The `from_column` of the one live row is the primary key of the other. -/
def Refers (ev : Evaluator) (edge : RelationEdge) (from_row to_row : RowId) : Prop :=
  let q := ev.query_engine.data
  ∃ pk_col key, primary_key q edge.to_table = .ok pk_col
    ∧ q.Holds ev.cache.current_tick edge.from_table edge.from_column from_row (.Int64 key)
    ∧ q.Holds ev.cache.current_tick edge.to_table pk_col to_row (.Int64 key)

/-- A jump may go from the one row to the other. -/
def Leads (ev : Evaluator) (edge : RelationEdge) : JumpDirection → RowId → RowId → Prop
  | .Forward, row, target => ev.Refers edge row target
  | .Reverse, row, target => ev.Refers edge target row

/-- A live row of the destination without a key. -/
def NullKey (ev : Evaluator) (edge : RelationEdge) (direction : JumpDirection) (row : RowId) :
    Prop :=
  let q := ev.query_engine.data
  ∃ pk_col, primary_key q edge.to_table = .ok pk_col
    ∧ q.Holds ev.cache.current_tick (edge.destination direction)
      (edge.destination_column pk_col direction) row .Null

/-- The keys on both sides are stored as `i64`, and the position maps resolve. -/
structure KeysStored (ev : Evaluator) (edge : RelationEdge) : Prop where
  from_keys : ∀ view,
    ev.query_engine.data.read_single_table ev.cache.current_tick edge.from_table = .ok view →
      view.KeysStored edge.from_column
  to_keys : ∀ view pk_col,
    ev.query_engine.data.read_single_table ev.cache.current_tick edge.to_table = .ok view →
      primary_key ev.query_engine.data edge.to_table = .ok pk_col → view.KeysStored pk_col

variable {row_ids : RowPositionMap → List RowId} {ev : Evaluator} {edge : RelationEdge}
  {direction : JumpDirection}

theorem leads_iff {row target : RowId} :
    ev.Leads edge direction row target ↔ ∃ pk_col key,
      primary_key ev.query_engine.data edge.to_table = .ok pk_col
        ∧ ev.query_engine.data.Holds ev.cache.current_tick (edge.start direction)
          (edge.start_column pk_col direction) row (.Int64 key)
        ∧ ev.query_engine.data.Holds ev.cache.current_tick (edge.destination direction)
          (edge.destination_column pk_col direction) target (.Int64 key) := by
  cases direction with
  | Forward => exact Iff.rfl
  | Reverse => exact ⟨fun ⟨pk_col, key, hpk, hfrom, hto⟩ => ⟨pk_col, key, hpk, hto, hfrom⟩,
      fun ⟨pk_col, key, hpk, hto, hfrom⟩ => ⟨pk_col, key, hpk, hfrom, hto⟩⟩

theorem KeysStored.destination (h : ev.KeysStored edge) {pk_col : String}
    (hpk : primary_key ev.query_engine.data edge.to_table = .ok pk_col) (view : TableReadView)
    (hview : ev.query_engine.data.read_single_table ev.cache.current_tick
      (edge.destination direction) = .ok view) :
    view.KeysStored (edge.destination_column pk_col direction) := by
  cases direction with
  | Forward => exact h.to_keys view pk_col hview hpk
  | Reverse => exact h.from_keys view hview

section Resolve

variable {q : QueryEngine} (hread : ev.query_engine.read = .ok q)
include hread

/-- A primary key column, the key of the scope's row, and a scan for that key. -/
theorem resolve_target_row_ok {target : RowId}
    (h : resolve_target_row row_ids ev edge direction = .ok target) :
    ∃ pk_col key start_text null_text not_found, primary_key q edge.to_table = .ok pk_col
      ∧ read_key q (edge.start direction) (edge.start_column pk_col direction) start_text
        ev.scope.row = .ok key
      ∧ scan_table row_ids ev q (edge.destination direction)
        (edge.destination_column pk_col direction) null_text key not_found = .ok target := by
  rw [resolve_target_row, hread] at h
  cases direction with
  | Forward =>
      rcases hkey : read_key q edge.from_table edge.from_column "FK value is null" ev.scope.row
        with e | key
      · simp [hkey, bind, Except.bind] at h
      rcases hpk : primary_key q edge.to_table with e | pk_col
      · simp [hkey, hpk, bind, Except.bind] at h
      simp only [hkey, hpk, bind, Except.bind] at h
      exact ⟨pk_col, key, _, _, _, rfl, hkey, h⟩
  | Reverse =>
      rcases hpk : primary_key q edge.to_table with e | pk_col
      · simp [hpk, bind, Except.bind] at h
      rcases hkey : read_key q edge.to_table pk_col "current row PK is null" ev.scope.row
        with e | key
      · simp [hkey, hpk, bind, Except.bind] at h
      simp only [hkey, hpk, bind, Except.bind] at h
      exact ⟨pk_col, key, _, _, _, rfl, hkey, h⟩

/-- With the key of the scope's row read, the rest is the scan. -/
theorem resolve_target_row_scans {pk_col : String} {key : Int64}
    (hpk : primary_key q edge.to_table = .ok pk_col)
    (hkey : ∀ null_text, read_key q (edge.start direction) (edge.start_column pk_col direction)
      null_text ev.scope.row = .ok key) :
    ∃ null_text not_found, ∀ row_ids, resolve_target_row row_ids ev edge direction
      = scan_table row_ids ev q (edge.destination direction)
        (edge.destination_column pk_col direction) null_text key not_found := by
  cases direction with
  | Forward =>
      have hfk : read_key q edge.from_table edge.from_column "FK value is null" ev.scope.row
          = .ok key := hkey _
      refine ⟨"target row has null PK",
        s!"target row not found: {edge.from_table} -> {edge.to_table} (fk={key.toInt})",
        fun row_ids => ?_⟩
      simp only [resolve_target_row, hread, hfk, hpk, bind, Except.bind]
      rfl
  | Reverse =>
      have hpkey : read_key q edge.to_table pk_col "current row PK is null" ev.scope.row
          = .ok key := hkey _
      refine ⟨"row has null FK",
        s!"target row not found: {edge.from_table} <- {edge.to_table} (pk={key.toInt})",
        fun row_ids => ?_⟩
      simp only [resolve_target_row, hread, hpkey, hpk, bind, Except.bind]
      rfl

end Resolve

/-- A resolved row is one that the relation leads to. -/
theorem resolve_target_row_leads (healthy : ev.query_engine.poisoned = false)
    (htick : ev.query_engine.data.load_latest_tick = some ev.cache.current_tick) {target : RowId}
    (h : resolve_target_row row_ids ev edge direction = .ok target) :
    ev.Leads edge direction ev.scope.row target := by
  obtain ⟨pk_col, key, _, _, _, hpk, hkey, hscan⟩ :=
    resolve_target_row_ok (RwLock.read_healthy healthy) h
  exact leads_iff.2 ⟨pk_col, key, hpk, (read_key_ok htick).1 hkey, scan_table_sound htick hscan⟩

/-- Where the relation leads somewhere, resolving is the scan for the key of the scope's row. -/
theorem resolve_target_row_of_leads (healthy : ev.query_engine.poisoned = false)
    (htick : ev.query_engine.data.load_latest_tick = some ev.cache.current_tick) {target : RowId}
    (h : ev.Leads edge direction ev.scope.row target) :
    ∃ pk_col key null_text not_found, primary_key ev.query_engine.data edge.to_table = .ok pk_col
      ∧ ev.query_engine.data.Holds ev.cache.current_tick (edge.destination direction)
        (edge.destination_column pk_col direction) target (.Int64 key)
      ∧ ∀ row_ids, resolve_target_row row_ids ev edge direction
        = scan_table row_ids ev ev.query_engine.data (edge.destination direction)
          (edge.destination_column pk_col direction) null_text key not_found := by
  obtain ⟨pk_col, key, hpk, hstart, htarget⟩ := leads_iff.1 h
  have hkey : ∀ start_text, read_key ev.query_engine.data (edge.start direction)
      (edge.start_column pk_col direction) start_text ev.scope.row = .ok key :=
    fun _ => (read_key_ok htick).2 hstart
  obtain ⟨null_text, not_found, hscan⟩ :=
    resolve_target_row_scans (RwLock.read_healthy healthy) hpk hkey
  exact ⟨pk_col, key, null_text, not_found, hpk, htarget, hscan⟩

/-- Nothing is left to fail when a row is resolved: the scan has read the table that is pinned. -/
theorem pin_in_cache_ok {q : QueryEngine} (hread : ev.query_engine.read = .ok q)
    {target : RowId} (h : resolve_target_row row_ids ev edge direction = .ok target) :
    ∃ cache, ({ ev with scope := ev.scope.apply_jump edge direction target } :
      Evaluator).pin_in_cache target
        = (.ok (), { ev with scope := ev.scope.apply_jump edge direction target, cache }) := by
  obtain ⟨_, _, _, _, _, -, -, hscan⟩ := resolve_target_row_ok hread h
  obtain ⟨view, hview⟩ := scan_table_read hscan
  have htable : (ev.scope.apply_jump edge direction target).table
      = edge.destination direction := by
    cases direction <;> rfl
  simp only [pin_in_cache, htable]
  -- from the cache, or by the read that the scan has made before
  rcases ev.cache.find_view (edge.destination direction) ev.cache.current_tick with _ | cached
  · simp only [hread, hview, Except.mapError]
    exact ⟨_, rfl⟩
  · exact ⟨_, rfl⟩

/-- A jump changes nothing, or it goes where the resolved row is. -/
theorem jump_to_cases (row_ids : RowPositionMap → List RowId) (ev : Evaluator) (key : String)
    (direction : JumpDirection) :
    (∃ e, ev.jump_to row_ids key direction = (.error e, ev))
      ∨ ∃ q edge target cache, ev.query_engine.read = .ok q
        ∧ q.resolve_relation_edge key = .ok edge
        ∧ resolve_target_row row_ids ev edge direction = .ok target
        ∧ ev.jump_to row_ids key direction
          = (.ok (), { ev with scope := ev.scope.apply_jump edge direction target, cache }) := by
  simp only [jump_to]
  rcases hread : ev.query_engine.read with e | q
  · exact .inl ⟨_, rfl⟩
  dsimp only
  rcases hedge : q.resolve_relation_edge key with e | edge
  · exact .inl ⟨_, rfl⟩
  dsimp only
  rcases htarget : resolve_target_row row_ids ev edge direction with e | target
  · exact .inl ⟨_, rfl⟩
  obtain ⟨cache, hpin⟩ := pin_in_cache_ok hread htarget
  exact .inr ⟨q, edge, target, cache, rfl, hedge, htarget, hpin⟩

/-! ## Runs of jumps and pops -/

inductive ScopeOp where
  | Jump (key : String) (direction : JumpDirection)
  | Pop

/-- The evaluator after a run, and how many jumps of the run are still to be undone. There is
no run that pops what it has not pushed. -/
def walk (row_ids : RowPositionMap → List RowId) (ev : Evaluator) :
    Nat → List ScopeOp → Option (Nat × Evaluator)
  | depth, [] => some (depth, ev)
  | depth, .Jump key direction :: ops =>
    match ev.jump_to row_ids key direction with
    | (.error _, ev) => walk row_ids ev depth ops
    | (.ok (), ev) => walk row_ids ev (depth + 1) ops
  | 0, .Pop :: _ => none
  | depth + 1, .Pop :: ops =>
    match ev.scope_pop with
    | (.error _, ev) => walk row_ids ev (depth + 1) ops
    | (.ok (), ev) => walk row_ids ev depth ops

end Evaluator

/-- So many pops that all go through. -/
def Scope.unwind (scope : Scope) : Nat → Option Scope
  | 0 => some scope
  | depth + 1 =>
    match scope.pop with
    | (.error _, _) => none
    | (.ok (), scope) => scope.unwind depth

@[simp] theorem Scope.unwind_zero (scope : Scope) : scope.unwind 0 = some scope := rfl

/-- A pop takes a jump back. -/
@[simp] theorem Scope.unwind_apply_jump (scope : Scope) (edge : RelationEdge)
    (direction : JumpDirection) (target : RowId) (depth : Nat) :
    (scope.apply_jump edge direction target).unwind (depth + 1) = scope.unwind depth := rfl

namespace Evaluator

/-- What is still to be undone leads back to where the run began. -/
theorem unwind_of_walk {row_ids : RowPositionMap → List RowId} {ev ev' : Evaluator} {base : Scope}
    {depth depth' : Nat} {ops : List ScopeOp} (hbase : ev.scope.unwind depth = some base)
    (h : walk row_ids ev depth ops = some (depth', ev')) :
    ev'.scope.unwind depth' = some base := by
  induction ops generalizing ev depth with
  | nil =>
      obtain ⟨rfl, rfl⟩ := Prod.mk.inj (Option.some.inj h)
      exact hbase
  | cons op ops ih =>
      cases op with
      | Jump key direction =>
          rcases jump_to_cases row_ids ev key direction with
            ⟨e, he⟩ | ⟨q, edge, target, cache, -, -, -, hok⟩
          · rw [walk, he] at h
            exact ih hbase h
          · rw [walk, hok] at h
            exact ih (by rw [Scope.unwind_apply_jump, hbase]) h
      | Pop =>
          rcases depth with _ | depth
          · cases h
          -- the pop of the run is the first of the pops that lead back
          simp only [walk, scope_pop] at h
          simp only [Scope.unwind] at hbase
          rcases hpop : ev.scope.pop with ⟨e | ⟨⟩, scope⟩
          · rw [hpop] at hbase
            cases hbase
          · rw [hpop] at h hbase
            exact ih hbase h

/-! ## What a jump promises -/

/-- A jump over an edge, with the rows listed in one order. -/
structure JumpFollows (row_ids : RowPositionMap → List RowId) (ev : Evaluator) (key : String)
    (edge : RelationEdge) (direction : JumpDirection) : Prop where
  /-- It goes from a row of the one table to a related live row of the other. -/
  sound : ∀ ev', ev.jump_to row_ids key direction = (.ok (), ev') →
    ev.scope.table = edge.start direction ∧ ev'.scope.table = edge.destination direction
      ∧ ev.Leads edge direction ev.scope.row ev'.scope.row
  /-- It goes through where there is a related row. -/
  complete : ∀ target, ev.scope.table = edge.start direction →
    ev.Leads edge direction ev.scope.row target → (ev.jump_to row_ids key direction).1 = .ok ()
  /-- A jump that fails leaves the scope. -/
  unchanged : ∀ e ev', ev.jump_to row_ids key direction = (.error e, ev') → ev'.scope = ev.scope
  /-- Pops undo jumps, these and any others. -/
  undone : ∀ ops depth ev', walk row_ids ev 0 ops = some (depth, ev') →
    ev'.scope.unwind depth = some ev.scope

/-- What a jump needs where the relation leads somewhere: an engine that can be read, a scope in
the table where the edge starts, and a key in every row of the destination. -/
def Straight (ev : Evaluator) (edge : RelationEdge) (direction : JumpDirection) : Prop :=
  (∃ target, ev.Leads edge direction ev.scope.row target) →
    if ev.query_engine.poisoned then ev.scope.table ≠ edge.start direction
    else ev.scope.table = edge.start direction ∧ ∀ row, ¬ ev.NullKey edge direction row

variable {row_ids : RowPositionMap → List RowId} {ev : Evaluator} {key : String}
  {edge : RelationEdge} {direction : JumpDirection}

theorem jump_to_poisoned (h : ev.query_engine.poisoned = true) :
    ev.jump_to row_ids key direction = (.error (.QueryEngine "poisoned lock"), ev) := by
  simp only [jump_to, RwLock.read_poisoned h]

/-- A jump goes through where its row is resolved. -/
theorem jump_to_ok (healthy : ev.query_engine.poisoned = false)
    (hedge : ev.query_engine.data.resolve_relation_edge key = .ok edge) {target : RowId}
    (h : resolve_target_row row_ids ev edge direction = .ok target) :
    (ev.jump_to row_ids key direction).1 = .ok () := by
  obtain ⟨cache, hpin⟩ := pin_in_cache_ok (RwLock.read_healthy healthy) h
  simp only [jump_to, RwLock.read_healthy healthy, hedge, h, hpin]

/-- It fails where none is. -/
theorem jump_to_error (healthy : ev.query_engine.poisoned = false)
    (hedge : ev.query_engine.data.resolve_relation_edge key = .ok edge) {e : RuleError}
    (h : resolve_target_row row_ids ev edge direction = .error e) :
    (ev.jump_to row_ids key direction).1 = .error e := by
  simp only [jump_to, RwLock.read_healthy healthy, hedge, h]

/-- Where a jump lands. -/
theorem lands_of_jump_to (hedge : ev.query_engine.data.resolve_relation_edge key = .ok edge)
    {ev' : Evaluator} (h : ev.jump_to row_ids key direction = (.ok (), ev')) :
    ∃ target, resolve_target_row row_ids ev edge direction = .ok target
      ∧ ev'.scope = ev.scope.apply_jump edge direction target := by
  rcases jump_to_cases row_ids ev key direction with
    ⟨e, he⟩ | ⟨q, edge', target, cache, hread, hedge', htarget, hok⟩
  · rw [he] at h
    cases h
  · obtain ⟨-, rfl⟩ := RwLock.read_ok.1 hread
    obtain rfl := Except.ok.inj (hedge.symm.trans hedge')
    rw [hok] at h
    obtain ⟨-, rfl⟩ := Prod.mk.inj h
    exact ⟨target, htarget, rfl⟩

/-- A jump that fails leaves the scope, whatever the tables hold. -/
theorem unchanged_of_error {e : RuleError} {ev' : Evaluator}
    (h : ev.jump_to row_ids key direction = (.error e, ev')) : ev'.scope = ev.scope := by
  rcases jump_to_cases row_ids ev key direction with
    ⟨e', he⟩ | ⟨q, edge', target, cache, -, -, -, hok⟩
  · rw [he] at h
    obtain ⟨-, rfl⟩ := Prod.mk.inj h
    rfl
  · rw [hok] at h
    cases h

/-- A related row that is listed first is found. -/
theorem resolve_first (healthy : ev.query_engine.poisoned = false)
    (htick : ev.query_engine.data.load_latest_tick = some ev.cache.current_tick) {target : RowId}
    (h : ev.Leads edge direction ev.scope.row target) :
    resolve_target_row (first_row target) ev edge direction = .ok target := by
  obtain ⟨_, _, _, _, -, hholds, hscan⟩ := resolve_target_row_of_leads healthy htick h
  rw [hscan]
  exact scan_table_first htick hholds

/-- A row without a key that is listed first keeps every related row from being found. -/
theorem resolve_null_first (healthy : ev.query_engine.poisoned = false)
    (htick : ev.query_engine.data.load_latest_tick = some ev.cache.current_tick)
    {target row : RowId} (h : ev.Leads edge direction ev.scope.row target)
    (hnull : ev.NullKey edge direction row) :
    ∃ e, resolve_target_row (first_row row) ev edge direction = .error e := by
  obtain ⟨pk_col, _, _, _, hpk, -, hscan⟩ := resolve_target_row_of_leads healthy htick h
  obtain ⟨pk_col', hpk', hrow⟩ := hnull
  obtain rfl := Except.ok.inj (hpk.symm.trans hpk')
  rw [hscan]
  exact scan_table_null htick hrow

/-- With a key in every row, some related row is found in any order. -/
theorem resolve_finds (healthy : ev.query_engine.poisoned = false)
    (htick : ev.query_engine.data.load_latest_tick = some ev.cache.current_tick)
    (hstored : ev.KeysStored edge) (hlists : Lists row_ids) {target : RowId}
    (h : ev.Leads edge direction ev.scope.row target)
    (hnull : ∀ row, ¬ ev.NullKey edge direction row) :
    ∃ row, resolve_target_row row_ids ev edge direction = .ok row := by
  obtain ⟨pk_col, _, _, _, hpk, hholds, hscan⟩ := resolve_target_row_of_leads healthy htick h
  rw [hscan]
  exact scan_table_finds htick hlists (hstored.destination hpk)
    (fun row hrow => hnull row ⟨pk_col, hpk, hrow⟩) hholds

/-- Two orders tell that a jump is straight: the related row first, and a row without a key
first. -/
theorem straight_of_orders
    (htick : ev.query_engine.data.load_latest_tick = some ev.cache.current_tick)
    (hedge : ev.query_engine.data.resolve_relation_edge key = .ok edge)
    (h : ∀ row_ids, Lists row_ids → JumpFollows row_ids ev key edge direction) :
    ev.Straight edge direction := by
  rintro ⟨target, htarget⟩
  have hfirst := h _ (lists_first_row target)
  cases hp : ev.query_engine.poisoned with
  | true =>
      -- no jump goes through, so the scope must not be where one should
      rw [if_pos rfl]
      intro htable
      have hok := hfirst.complete target htable htarget
      rw [jump_to_poisoned hp] at hok
      cases hok
  | false =>
      rw [if_neg Bool.false_ne_true]
      have hok := jump_to_ok hp hedge (resolve_first hp htick htarget)
      have htable := (hfirst.sound _ (Prod.ext hok rfl)).1
      refine ⟨htable, fun row hnull => ?_⟩
      obtain ⟨e, he⟩ := resolve_null_first hp htick htarget hnull
      have hok' := (h _ (lists_first_row row)).complete target htable htarget
      rw [jump_to_error hp hedge he] at hok'
      cases hok'

theorem Straight.follows (h : ev.Straight edge direction)
    (htick : ev.query_engine.data.load_latest_tick = some ev.cache.current_tick)
    (hedge : ev.query_engine.data.resolve_relation_edge key = .ok edge)
    (hstored : ev.KeysStored edge) (hlists : Lists row_ids) :
    JumpFollows row_ids ev key edge direction := by
  refine ⟨?_, ?_, fun e ev' => unchanged_of_error,
    fun ops depth ev' => unwind_of_walk ev.scope.unwind_zero⟩
  · intro ev' hjump
    obtain ⟨target, htarget, hscope⟩ := lands_of_jump_to hedge hjump
    have hp : ev.query_engine.poisoned = false := by
      refine Bool.eq_false_iff.2 fun hp => ?_
      rw [jump_to_poisoned hp] at hjump
      cases hjump
    have hleads := resolve_target_row_leads hp htick htarget
    have hcond := h ⟨target, hleads⟩
    rw [hp, if_neg Bool.false_ne_true] at hcond
    rw [hscope]
    refine ⟨hcond.1, ?_, hleads⟩
    cases direction <;> rfl
  · intro target htable htarget
    have hcond := h ⟨target, htarget⟩
    cases hp : ev.query_engine.poisoned with
    | true =>
        rw [hp, if_pos rfl] at hcond
        exact absurd htable hcond
    | false =>
        rw [hp, if_neg Bool.false_ne_true] at hcond
        obtain ⟨row, hrow⟩ := resolve_finds hp htick hstored hlists htarget hcond.2
        exact jump_to_ok hp hedge hrow

/-- A jump follows the relation, in whatever order the rows are listed, exactly when it is
straight. -/
theorem jump_follows_iff (ev : Evaluator) (key : String) (edge : RelationEdge)
    (direction : JumpDirection)
    (htick : ev.query_engine.data.load_latest_tick = some ev.cache.current_tick)
    (hedge : ev.query_engine.data.resolve_relation_edge key = .ok edge)
    (hstored : ev.KeysStored edge) :
    (∀ row_ids, Lists row_ids → JumpFollows row_ids ev key edge direction)
      ↔ ev.Straight edge direction := by
  constructor
  · exact straight_of_orders htick hedge
  · intro hstraight row_ids hlists
    exact hstraight.follows htick hedge hstored hlists

/-! ## Two baronies -/

section Baronies

attribute [local instance] QueryEngine.no_merge

def held_by : RelationEdge := ⟨"barony", "lord", .OneToMany, "lord_id", none⟩

def lord_spec : TableSpec :=
  { name := "lord"
    columns := [.new "id" .Id "i64"]
    column_index := (∅ : Map String Nat).insert "id" 0 }

def barony_spec : TableSpec :=
  { name := "barony"
    columns := [(ColumnSpec.new "lord_id" (.ForeignKey "lord") "i64").with_nullable true]
    column_index := (∅ : Map String Nat).insert "lord_id" 0 }

def baronies_registry : SchemaRegistry :=
  { tables := (∅ : Map String TableSpec).insert "lord" lord_spec |>.insert "barony" barony_spec
    relations := (RelationGraph.new.add_edge held_by).2 }

/-- One lord, with the id 7. -/
def lords : RecordBatch where
  schema := ⟨[⟨"id", .Int64, false⟩]⟩
  columns := [.Int64Array (.from_value 7)]
  row_count := 1
  column_types := rfl
  column_len := by simp [ArrayRef.len, PrimitiveArray.len, PrimitiveArray.from_value]
  non_nullable := by decide

/-- A barony that nobody holds, and one of the lord's. -/
def baronies : RecordBatch where
  schema := ⟨[⟨"lord_id", .Int64, true⟩]⟩
  columns := [.Int64Array
    ⟨[0, 7], some (.from_bools [false, true]), by simp [NullBuffer.from_bools]⟩]
  row_count := 2
  column_types := rfl
  column_len := by simp [ArrayRef.len, PrimitiveArray.len]
  non_nullable := by decide

/-- Where the rows are. -/
def lord_rows : RowPositionMap := RowPositionMap.new.insert 0 0 0

def barony_rows : RowPositionMap := (RowPositionMap.new.insert 0 0 0).insert 1 0 1

/-- Both tables published at tick 1. -/
def baronies_engine : QueryEngine :=
  (QueryEngine.new baronies_registry).run_ops
    [.Ingest ⟨1, "lord", [lords], lord_rows⟩, .Ingest ⟨1, "barony", [baronies], barony_rows⟩]

/-- An evaluator at that tick, its scope in one of the rows. -/
def baronies_evaluator (table : String) (row : RowId) : Evaluator where
  query_engine := .new baronies_engine
  scope := .new table row
  cache := { PrefetchCache.new PrefetchCache.DEFAULT_CAPACITY with current_tick := 1 }

theorem baronies_ready (table : String) (row : RowId) :
    let ev := baronies_evaluator table row
    ev.query_engine.data.load_latest_tick = some ev.cache.current_tick
      ∧ ev.query_engine.data.resolve_relation_edge "barony -> lord" = .ok held_by := by
  have h : baronies_engine.load_latest_tick = some 1
      ∧ baronies_engine.resolve_relation_edge "barony -> lord" = .ok held_by := by
    decide +kernel
  exact h

theorem read_lords : baronies_engine.read_single_table 1 "lord"
    = .ok (.new "lord" 1 [lords] lord_spec (some lord_rows)) := by decide +kernel

theorem read_baronies : baronies_engine.read_single_table 1 "barony"
    = .ok (.new "barony" 1 [baronies] barony_spec (some barony_rows)) := by decide +kernel

theorem lord_key : primary_key baronies_engine "lord" = .ok "id" := by decide +kernel

theorem baronies_stored (table : String) (row : RowId) :
    (baronies_evaluator table row).KeysStored held_by := by
  have hbaronies : (TableReadView.new "barony" 1 [baronies] barony_spec
    (some barony_rows)).KeysStored "lord_id" := by decide +kernel
  have hlords : (TableReadView.new "lord" 1 [lords] lord_spec
    (some lord_rows)).KeysStored "id" := by decide +kernel
  constructor
  · intro view hview
    obtain rfl := Except.ok.inj (read_baronies.symm.trans hview)
    exact hbaronies
  · intro view pk_col hview hpk
    obtain rfl := Except.ok.inj (read_lords.symm.trans hview)
    obtain rfl := Except.ok.inj (lord_key.symm.trans hpk)
    exact hlords

/-- No lord is without an id, so from a barony that is held the jump leads to its lord. -/
theorem barony_to_lord :
    (baronies_evaluator "barony" 1).Leads held_by .Forward 1 0
      ∧ JumpFollows (first_row 0) (baronies_evaluator "barony" 1) "barony -> lord" held_by
        .Forward := by
  have hleads : (baronies_evaluator "barony" 1).Leads held_by .Forward 1 0 :=
    ⟨"id", 7, by decide +kernel, by decide +kernel, by decide +kernel⟩
  obtain ⟨htick, hedge⟩ := baronies_ready "barony" 1
  refine ⟨hleads, (jump_follows_iff _ _ _ _ htick hedge (baronies_stored _ _)).2 ?_ _
    (lists_first_row 0)⟩
  intro _
  rw [if_neg (by decide)]
  refine ⟨rfl, ?_⟩
  rintro row ⟨pk_col, hpk, view, hview, hkey⟩
  obtain rfl := Except.ok.inj (lord_key.symm.trans hpk)
  obtain rfl := Except.ok.inj (read_lords.symm.trans hview)
  -- row 0 is the only one, and its id is 7
  have hlord : (TableReadView.new "lord" 1 [lords] lord_spec (some lord_rows)).key "id" 0
      = some (.Int64 7) := by decide +kernel
  by_cases hrow : row = 0
  · rw [hrow, RelationEdge.destination_column, hlord] at hkey
    cases hkey
  · obtain ⟨p, hp, -⟩ := Option.bind_eq_some_iff.1 hkey
    have hnone : lord_rows.position_of row = none := by simp [lord_rows, Ne.symm hrow]
    cases hnone.symm.trans hp

/-- The barony that nobody holds keeps the lord from the one that is his. And with the lord's
row as its number, a scope that is in no lord's row at all jumps to it. -/
theorem held_barony_missed :
    (baronies_evaluator "lord" 0).Leads held_by .Reverse 0 1
      ∧ (jump_to (first_row 0) (baronies_evaluator "lord" 0) "barony -> lord" .Reverse).1
        = .error (.Scope "row has null FK")
      ∧ ¬ JumpFollows (first_row 0) (baronies_evaluator "lord" 0) "barony -> lord" held_by .Reverse
      ∧ (jump_to (first_row 1) (baronies_evaluator "barony" 0) "barony -> lord" .Reverse).1 = .ok ()
      ∧ ¬ JumpFollows (first_row 1) (baronies_evaluator "barony" 0) "barony -> lord" held_by
        .Reverse := by
  have hleads : (baronies_evaluator "lord" 0).Leads held_by .Reverse 0 1 :=
    ⟨"id", 7, by decide +kernel, by decide +kernel, by decide +kernel⟩
  have hmissed : (jump_to (first_row 0) (baronies_evaluator "lord" 0) "barony -> lord" .Reverse).1
      = .error (.Scope "row has null FK") := by decide +kernel
  have hastray : (jump_to (first_row 1) (baronies_evaluator "barony" 0) "barony -> lord"
      .Reverse).1 = .ok () := by decide +kernel
  refine ⟨hleads, hmissed, fun h => ?_, hastray, fun h => ?_⟩
  · have hok := h.complete 1 rfl hleads
    rw [hmissed] at hok
    cases hok
  · have htable := (h.sound _ (Prod.ext hastray rfl)).1
    revert htable
    decide

end Baronies

end Evaluator

end Scharnhorst
