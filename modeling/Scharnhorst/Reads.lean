/-
The readers: the world view of a snapshot, the lookup of a row, and the tables that a
SQL session is given.

A world view walks the batches of its snapshot, row after row, and so does the SQL
session, which merges them first. The lookup of a row goes through the position map.
What the three have in common is the list of batches that a commit has published, and
`cells` names its rows: batch by batch, offset by offset.
-/
import Scharnhorst.Query

set_option autoImplicit false

namespace Scharnhorst

/-! ## Rows of batches -/

/-- Where the rows of a list of batches are, in order. -/
def cells (batches : List RecordBatch) : List (Nat × Nat) :=
  batches.zipIdx.flatMap fun (batch, batch_idx) =>
    (List.range batch.row_count).map fun offset => (batch_idx, offset)

/-- The rows of a batch. -/
def RecordBatch.rows (batch : RecordBatch) : List (List Cell) :=
  (List.range batch.row_count).map batch.row

@[simp] theorem RecordBatch.length_rows (batch : RecordBatch) :
    batch.rows.length = batch.row_count := by
  simp [rows]

/-! ## World views -/

/-- `WorldViewRow`: one row, as the columns of its batch and an index into them. -/
structure WorldViewRow where
  columns : List ArrayRef
  row_idx : Nat
deriving DecidableEq

/-- What the typed getters read, column by column. -/
def WorldViewRow.cells (row : WorldViewRow) : List Cell :=
  row.columns.map (·.cell row.row_idx)

/-- `WorldViewRowIter`: each batch as its columns and its number of rows, and the cursor. -/
structure WorldViewRowIter where
  batches : List (List ArrayRef × Nat)
  batch_idx : Nat
  row_in_batch : Nat
deriving DecidableEq

namespace WorldViewRowIter

def new (batches : List RecordBatch) : WorldViewRowIter :=
  { batches := batches.map fun b => (b.columns, b.row_count)
    batch_idx := 0
    row_in_batch := 0 }

/-- The loop of `next`, over the batches from the cursor on: `left` of them. -/
def next_loop (it : WorldViewRowIter) : Nat → Option WorldViewRow × WorldViewRowIter
  | 0 => (none, it)
  | left + 1 =>
    match it.batches[it.batch_idx]? with
    | none => (none, it)
    | some (columns, num_rows) =>
      if it.row_in_batch < num_rows then
        (some { columns, row_idx := it.row_in_batch },
          { it with row_in_batch := it.row_in_batch + 1 })
      else next_loop { it with batch_idx := it.batch_idx + 1, row_in_batch := 0 } left

def next (it : WorldViewRowIter) : Option WorldViewRow × WorldViewRowIter :=
  it.next_loop (it.batches.length - it.batch_idx)

/-- At most so many calls of `next`, up to the first that returns nothing: the rows they
return, and the iterator after them. -/
def take (it : WorldViewRowIter) : Nat → List WorldViewRow × WorldViewRowIter
  | 0 => ([], it)
  | n + 1 =>
    match it.next with
    | (none, it) => ([], it)
    | (some row, it) =>
      let (rows, it) := it.take n
      (row :: rows, it)

/-- All that the iterator yields: it has no more rows than its batches have. -/
def collect (it : WorldViewRowIter) : List WorldViewRow :=
  (it.take (it.batches.map Prod.snd).sum).1

/-- The rows of these batches, those of the first from the given offset on. -/
def remaining : List (List ArrayRef × Nat) → Nat → List WorldViewRow
  | [], _ => []
  | (columns, num_rows) :: batches, offset =>
    (List.range' offset (num_rows - offset)).map (fun row_idx => { columns, row_idx })
      ++ remaining batches 0

/-- The rows from the cursor on. -/
def unread (it : WorldViewRowIter) : List WorldViewRow :=
  remaining (it.batches.drop it.batch_idx) it.row_in_batch

/-- One round of the loop for each batch that is left is enough to find the next row. -/
theorem next_loop_spec (it : WorldViewRowIter) {left : Nat}
    (hleft : it.batches.length - it.batch_idx ≤ left) :
    (it.next_loop left).1 = it.unread.head?
      ∧ (it.next_loop left).2.batches = it.batches
      ∧ (it.next_loop left).2.unread = it.unread.tail := by
  -- on the batches that are left; a batch without rows takes one round
  induction left generalizing it with
  | zero =>
      have hnil : it.batches.drop it.batch_idx = [] := List.drop_eq_nil_of_le (by omega)
      simp [next_loop, unread, hnil, remaining]
  | succ left ih =>
      rw [next_loop]
      rcases hb : it.batches[it.batch_idx]? with _ | ⟨columns, num_rows⟩
      · have hnil : it.batches.drop it.batch_idx = [] :=
          List.drop_eq_nil_of_le (List.getElem?_eq_none_iff.1 hb)
        simp [unread, hnil, remaining]
      obtain ⟨hlt, hget⟩ := List.getElem?_eq_some_iff.1 hb
      have hdrop : it.batches.drop it.batch_idx
          = (columns, num_rows) :: it.batches.drop (it.batch_idx + 1) := by
        rw [← hget]
        exact List.drop_eq_getElem_cons hlt
      by_cases hrow : it.row_in_batch < num_rows
      · have hrange : List.range' it.row_in_batch (num_rows - it.row_in_batch)
            = it.row_in_batch :: List.range' (it.row_in_batch + 1)
              (num_rows - (it.row_in_batch + 1)) := by
          rw [← List.range'_succ]
          congr 1
          omega
        simp [hrow, unread, hdrop, remaining, hrange]
      · -- the batch is used up, and what is left is that of the next one
        have hused : num_rows - it.row_in_batch = 0 := by omega
        have hskip : it.unread
            = unread { it with batch_idx := it.batch_idx + 1, row_in_batch := 0 } := by
          simp [unread, hdrop, remaining, hused]
        simp only [hrow, if_false, hskip]
        exact ih { it with batch_idx := it.batch_idx + 1, row_in_batch := 0 } (by
          change it.batches.length - (it.batch_idx + 1) ≤ left
          omega)

theorem next_spec (it : WorldViewRowIter) :
    it.next.1 = it.unread.head? ∧ it.next.2.unread = it.unread.tail :=
  have h := it.next_loop_spec (Nat.le_refl _)
  ⟨h.1, h.2.2⟩

/-- Enough calls yield all the rows that are left, and then there are none. -/
theorem take_spec (it : WorldViewRowIter) {n : Nat} (hn : it.unread.length ≤ n) :
    (it.take n).1 = it.unread ∧ (it.take n).2.next.1 = none := by
  induction n generalizing it with
  | zero =>
      have hnil : it.unread = [] := List.length_eq_zero_iff.1 (Nat.le_zero.1 hn)
      simp [take, hnil, it.next_spec.1]
  | succ n ih =>
      obtain ⟨hhead, htail⟩ := it.next_spec
      rw [take]
      rcases hnext : it.next with ⟨_ | row, it'⟩
      · rw [hnext, eq_comm, List.head?_eq_none_iff] at hhead
        rw [hnext, hhead] at htail
        simp [hhead, it'.next_spec.1, htail]
      · rw [hnext, eq_comm, List.head?_eq_some_iff] at hhead
        obtain ⟨rest, hrest⟩ := hhead
        rw [hnext, hrest] at htail
        simp only [List.tail_cons] at htail
        rw [hrest, List.length_cons] at hn
        obtain ⟨hrows, hend⟩ := ih it' (by rw [htail]; omega)
        simp [hrest, hrows, htail, hend]

theorem remaining_eq (batches : List (List ArrayRef × Nat)) :
    remaining batches 0 = batches.flatMap fun (columns, num_rows) =>
      (List.range num_rows).map fun row_idx => { columns, row_idx } := by
  induction batches with
  | nil => rfl
  | cons b batches ih => simp [remaining, ih, List.range_eq_range']

/-- A fresh iterator yields every row of every batch, in order, and nothing after. -/
theorem collect_new (batches : List RecordBatch) :
    (new batches).collect.map WorldViewRow.cells = batches.flatMap RecordBatch.rows
      ∧ ((new batches).take (new batches).collect.length).2.next.1 = none := by
  have hunread : (new batches).unread = remaining (new batches).batches 0 := rfl
  have hlen : ∀ bs : List (List ArrayRef × Nat),
      (remaining bs 0).length = (bs.map Prod.snd).sum := by
    intro bs
    simp [remaining_eq, List.length_flatMap]
  have hcollect : (new batches).collect = (new batches).unread :=
    ((new batches).take_spec (Nat.le_of_eq (hunread ▸ hlen _))).1
  refine ⟨?_, ((new batches).take_spec (Nat.le_of_eq (congrArg List.length hcollect.symm))).2⟩
  rw [hcollect, hunread, remaining_eq, new, List.flatMap_map, List.map_flatMap]
  refine List.flatMap_congr fun b _ => ?_
  simp [RecordBatch.rows, Function.comp_def, WorldViewRow.cells, RecordBatch.row]

end WorldViewRowIter

/-- `WorldView`. -/
structure WorldView where
  snapshot : WorldSnapshot
  tick : Tick
deriving DecidableEq

namespace WorldView

def new (snapshot : WorldSnapshot) : WorldView := { snapshot, tick := snapshot.tick }

/-- The number of rows in all batches of the table. -/
def row_count (view : WorldView) (table_name : String) : ArrowStoreResult Nat :=
  (view.snapshot.table_batches table_name).map fun batches =>
    (batches.map RecordBatch.row_count).sum

def iter_rows (view : WorldView) (table_name : String) : ArrowStoreResult WorldViewRowIter :=
  (view.snapshot.table_batches table_name).map WorldViewRowIter.new

end WorldView

/-! ## Reads of the engine -/

structure ReadRequest where
  tick : Tick
  table_names : List String

structure ReadResponse where
  tick : Tick
  views : Map String TableReadView

/-- `ReadResponse::get`. -/
def ReadResponse.get (response : ReadResponse) (table_name : String) : QueryResult TableReadView :=
  match response.views[table_name]? with
  | some view => .ok view
  | none => .error (.TableNotFound table_name)

/-- `RowLookup`, and the view it is a position in. -/
structure RowLookupView where
  row_id : RowId
  batch_index : Nat
  row_offset : Nat
  view : TableReadView
deriving DecidableEq

namespace QueryEngine

variable (q : QueryEngine)

/-- `latest_tick()`: the cell, unless it holds the sentinel. -/
def load_latest_tick : Option Tick :=
  if q.latest_tick = u64_MAX then none else some q.latest_tick

/-- One round of the loop of `read`. -/
def read_view (cache : Map String TableReadView) (views : Map String TableReadView)
    (name : String) : QueryResult (Map String TableReadView) :=
  match cache[name]? with
  | none => .error (.TableNotFound name)
  | some view => .ok (views.insert view.table_name view)

/-- Tick zero stands for whatever tick is the latest. -/
def read (request : ReadRequest) : QueryResult ReadResponse :=
  let cache_tick := q.load_latest_tick
  match q.view_cache.read with
  | .error _ => .error (.UnifiedRead "poisoned lock")
  | .ok cache =>
    if request.tick ≠ Tick.ZERO ∧ cache_tick ≠ some request.tick then
      .error (.TicksMismatch request.tick cache_tick)
    else
      (request.table_names.foldlM (read_view cache) ∅).map fun views =>
        { tick := request.tick, views }

def read_single_table (tick : Tick) (table_name : String) : QueryResult TableReadView :=
  q.read { tick, table_names := [table_name] } >>= (·.get table_name)

/-- The row goes through the position map of the view. -/
def lookup_row (table_name : String) (row_id : RowId) : QueryResult RowLookupView :=
  match q.load_latest_tick with
  | none => .error (.InvalidQuery "no tick available")
  | some tick => do
    let view ← q.read_single_table tick table_name
    match view.position_map.position_of row_id with
    | none =>
      .error (.InvalidQuery s!"row RowId({row_id}) not found in table '{table_name}'")
    | some (batch_index, row_offset) => .ok { row_id, batch_index, row_offset, view }

/-- `snapshot()`. -/
def world_view : QueryResult WorldView :=
  match q.latest_snapshot.read with
  | .error _ => .error (.UnifiedRead "poisoned lock")
  | .ok none => .error (.InvalidQuery "no snapshot available")
  | .ok (some snapshot) => .ok (.new snapshot)

/-- `RecordBatch::new_empty(Schema::empty())`. -/
def empty_batch : RecordBatch :=
  { schema := { fields := [] }
    columns := []
    row_count := 0
    column_types := rfl
    column_len := by simp
    non_nullable := rfl }

/-- The batch that one view is registered as. -/
def sql_batch [Concat] (view : TableReadView) : QueryResult RecordBatch :=
  match view.batches with
  | [] => .ok empty_batch
  | first :: rest =>
    (Concat.concat_batches first.schema (first :: rest)).mapError .DataFusion

/-- The tables that `sql` registers in its session, each under the name of its view. -/
def sql_tables [Concat] : QueryResult (List (String × RecordBatch)) :=
  match q.view_cache.read with
  | .error _ => .error (.UnifiedRead "poisoned lock")
  | .ok cache => cache.toList.mapM fun (name, view) => do
    let batch ← sql_batch view
    return (name, batch)

end QueryEngine

end Scharnhorst
