/-
The query engine's side of a commit: table views, staging, publication, rollback.

Readers see three cells, `view_cache`, `latest_tick` and `latest_snapshot`. A commit
begins an ingest, which copies the three and opens a staging area; every table it
ingests goes to the staging area; storing the snapshot moves the staging area into
the cache and sets the other two cells. The handle that `begin_ingest` returns can put
the three copies back at any time.

`ingest_snapshot` has a second path, straight into the cache, for callers that have
not begun an ingest. It is what makes the order matter: after the snapshot is stored
the staging area is gone, and a further ingest is visible at once.

The engine sits behind `Arc`s, so a handle acts on whatever the engine has become in
the meantime. Here it is a value, and `rollback` takes the engine it acts on.
-/
import Scharnhorst.Registry
import Scharnhorst.Store

set_option autoImplicit false

namespace Scharnhorst

open Attempt Maps

/-! ## Errors -/

/-- `QueryError`, the variants the modelled functions raise. -/
inductive QueryError where
  | TableNotFound (name : String)
  | ColumnNotFound (column table : String)
  | TypeMismatch (column expected got : String)
  | RelationNotFound (key : String)
  | IndexOutOfBounds (row : Nat)
  | SchemaRegistry (message : String)
  | DataFusion (message : String)
  | UnifiedRead (message : String)
  | TicksMismatch (requested : Tick) (actual : Option Tick)
  | InvalidQuery (message : String)
  | UnsupportedOperation (message : String)
  | Schema (e : SchemaError)
deriving DecidableEq

abbrev QueryResult := Except QueryError

/-- The `Display` text of a query error. The ticks are printed with `Debug`. -/
def QueryError.to_string : QueryError → String
  | TableNotFound name => s!"table not found: {name}"
  | ColumnNotFound column table => s!"column not found: {column} in table {table}"
  | TypeMismatch column expected got =>
    s!"type mismatch for column {column}: expected {expected}, got {got}"
  | RelationNotFound key => s!"relation not found: {key}"
  | IndexOutOfBounds row => s!"index out of bounds: {row}"
  | SchemaRegistry message => s!"schema registry error: {message}"
  | DataFusion message => s!"datafusion error: {message}"
  | UnifiedRead message => s!"unified read error: {message}"
  | TicksMismatch requested actual =>
    let actual_text := actual.elim "None" fun t => s!"Some(Tick({t}))"
    s!"tick mismatch: requested Tick({requested}), actual {actual_text}"
  | InvalidQuery message => s!"invalid query: {message}"
  | UnsupportedOperation message => s!"unsupported operation: {message}"
  | Schema e => e.to_string

/-! ## Table views -/

/-- The `arrow` kernel that a view merges its batches with. -/
class Concat where
  concat_batches : Schema → List RecordBatch → Except String RecordBatch

/-- `usize` addition that stops at the largest value. -/
def saturating_add (a b : Nat) : Nat := min (a + b) u64_MAX

structure TableReadView where
  table_name : String
  tick : Tick
  batches : List RecordBatch
  schema : TableSpec
  position_map : RowPositionMap
deriving DecidableEq

namespace TableReadView

/-- Every row in order, under the ids 0, 1, 2 and so on. -/
def build_position_map (batches : List RecordBatch) : RowPositionMap :=
  let positions := batches.zipIdx.flatMap fun (batch, batch_idx) =>
    (List.range batch.row_count).map fun offset => (batch_idx, offset)
  positions.zipIdx.foldl (fun map ((batch_idx, offset), global_row) =>
    map.insert global_row batch_idx offset) .new

/-- The index of each batch's first row in the merged batch. -/
def batch_offsets (row_counts : List Nat) : List Nat :=
  (row_counts.foldl (fun (offsets, offset) row_count =>
    (offsets ++ [offset], saturating_add offset row_count)) ([], 0)).1

/-- Positions in the batches turned into positions in the merged batch; a position
that is in no batch is left out. -/
def rebase_position_map (map : RowPositionMap) (row_counts : List Nat) : RowPositionMap :=
  map.entries.toList.foldl (fun rebased (row_id, batch_idx, row_offset) =>
    match (batch_offsets row_counts)[batch_idx]?, row_counts[batch_idx]? with
    | some batch_base, some row_count =>
      if row_offset < row_count then rebased.insert row_id 0 (saturating_add batch_base row_offset)
      else rebased
    | _, _ => rebased) .new

/-- Several batches are merged into one, if the kernel can. -/
def new [Concat] (table_name : String) (tick : Tick) (batches : List RecordBatch)
    (schema : TableSpec) (position_map : Option RowPositionMap) : TableReadView :=
  let original_row_counts := batches.map RecordBatch.row_count
  let (batches, merged_batches) :=
    match batches with
    | first :: _ :: _ =>
      match Concat.concat_batches first.schema batches with
      | .ok merged => ([merged], true)
      | .error _ => (batches, false)
    | _ => (batches, false)
  let position_map :=
    match position_map with
    | some map => if merged_batches then rebase_position_map map original_row_counts else map
    | none => build_position_map batches
  { table_name, tick, batches, schema, position_map }

@[simp] theorem tick_new [Concat] (table_name : String) (tick : Tick) (batches : List RecordBatch)
    (schema : TableSpec) (position_map : Option RowPositionMap) :
    (new table_name tick batches schema position_map).tick = tick := rfl

end TableReadView

/-! ## The engine -/

structure PendingSnapshotIngest where
  tick : Option Tick
  views : Map String TableReadView
deriving DecidableEq

def PendingSnapshotIngest.new : PendingSnapshotIngest := { tick := none, views := ∅ }

/-- `QueryEngine`, the cells that ingestion and publication use. `latest_tick` is the
raw cell: `u64::MAX` in it means that there is no tick. -/
structure QueryEngine where
  schema_registry : RwLock SchemaRegistry
  latest_tick : Nat
  view_cache : RwLock (Map String TableReadView)
  latest_snapshot : RwLock (Option WorldSnapshot)
  pending_ingest : RwLock (Option PendingSnapshotIngest)
deriving DecidableEq

namespace QueryEngine

def new (schema_registry : SchemaRegistry) : QueryEngine :=
  { schema_registry := .new schema_registry
    latest_tick := u64_MAX
    view_cache := .new ∅
    latest_snapshot := .new none
    pending_ingest := .new none }

def table_schema (q : QueryEngine) (name : String) : QueryResult TableSpec := do
  let reg ← q.schema_registry.read.mapError fun _ => .SchemaRegistry "poisoned lock"
  (reg.get name).mapError .Schema

/-- The sentinel is not a tick. -/
def check_sentinel (tick : Tick) : QueryResult Unit :=
  if tick = u64_MAX then
    .error (.UnsupportedOperation "Tick sentinel collision: u64::MAX is reserved")
  else .ok ()

/-- Write the staging area. -/
def stage (q : QueryEngine) (state : PendingSnapshotIngest) : QueryEngine :=
  { q with pending_ingest := q.pending_ingest.set (some state) }

/-- Into the staging area if there is one, else straight into the cache. The first
table staged fixes the tick of the others. -/
def ingest_snapshot [Concat] (q : QueryEngine) (tick : Tick) (table_name : String)
    (batches : List RecordBatch) (position_map : RowPositionMap) : QueryResult Unit × QueryEngine :=
  match check_sentinel tick >>= fun _ => q.table_schema table_name with
  | .error e => (.error e, q)
  | .ok schema =>
    let view := TableReadView.new table_name tick batches schema (some position_map)
    match q.pending_ingest.read with
    | .error _ => (.error (.UnifiedRead "pending ingest lock poisoned"), q)
    | .ok (some state) =>
      match state.tick with
      | some existing =>
        if existing ≠ tick then (.error (.TicksMismatch tick (some existing)), q)
        else (.ok (), q.stage { state with views := state.views.insert table_name view })
      | none =>
        (.ok (), q.stage { tick := some tick, views := state.views.insert table_name view })
    | .ok none =>
      match q.view_cache.read with
      | .error _ => (.error (.UnifiedRead "poisoned lock"), q)
      | .ok cache =>
        (.ok (), { q with
          view_cache := q.view_cache.set (cache.insert table_name view)
          latest_tick := tick })

/-- `store_world_snapshot` from the point where the staging area is taken. -/
def publish (q : QueryEngine) (staged_views : Option (Map String TableReadView))
    (snapshot : WorldSnapshot) : QueryResult Unit × QueryEngine :=
  -- taken out whatever comes next: an error below loses what was staged
  let q := { q with pending_ingest := q.pending_ingest.set none }
  let cached : QueryResult QueryEngine :=
    match staged_views with
    | none => .ok q
    | some views =>
      match q.view_cache.read with
      | .error _ => .error (.UnifiedRead "poisoned lock")
      | .ok _ => .ok { q with view_cache := q.view_cache.set views }
  match cached with
  | .error e => (.error e, q)
  | .ok q =>
    match q.latest_snapshot.read with
    | .error _ => (.error (.UnifiedRead "poisoned lock"), q)
    | .ok _ =>
      let q := { q with latest_snapshot := q.latest_snapshot.set (some snapshot) }
      (.ok (), if staged_views.isSome then { q with latest_tick := snapshot.tick } else q)

/-- Publishes the staging area, if there is one. -/
def store_world_snapshot (q : QueryEngine) (snapshot : WorldSnapshot) :
    QueryResult Unit × QueryEngine :=
  match check_sentinel snapshot.tick with
  | .error e => (.error e, q)
  | .ok () =>
    match q.pending_ingest.read with
    | .error _ => (.error (.UnifiedRead "pending ingest lock poisoned"), q)
    | .ok pending =>
      match pending.bind PendingSnapshotIngest.tick with
      | some staged_tick =>
        if staged_tick ≠ snapshot.tick then
          (.error (.TicksMismatch snapshot.tick (some staged_tick)), q)
        else q.publish (pending.map PendingSnapshotIngest.views) snapshot
      -- an ingest into which no table has come has no tick to compare
      | none => q.publish (pending.map PendingSnapshotIngest.views) snapshot

/-! ## The ingest of a commit -/

/-- The handle of a begun ingest: the three copies. -/
structure QueryEngineIngestRollback where
  saved_cache : Map String TableReadView
  saved_tick : Nat
  saved_snapshot : Option WorldSnapshot
deriving DecidableEq

def begin_ingest (q : QueryEngine) : Except String QueryEngineIngestRollback × QueryEngine :=
  match q.view_cache.read with
  | .error _ => (.error "query view cache lock poisoned", q)
  | .ok saved_cache =>
    match q.latest_snapshot.read with
    | .error _ => (.error "query snapshot lock poisoned", q)
    | .ok saved_snapshot =>
      match q.pending_ingest.read with
      | .error _ => (.error "query pending ingest lock poisoned", q)
      | .ok (some _) => (.error "query ingest already active", q)
      | .ok none =>
        (.ok { saved_cache, saved_tick := q.latest_tick, saved_snapshot }, q.stage .new)

/-- Each copy goes back under its own lock, the tick last. -/
def rollback (saved : QueryEngineIngestRollback) (q : QueryEngine) :
    Except String Unit × QueryEngine :=
  match q.view_cache.read with
  | .error _ => (.error "query view cache lock poisoned", q)
  | .ok _ =>
    let q := { q with view_cache := q.view_cache.set saved.saved_cache }
    match q.latest_snapshot.read with
    | .error _ => (.error "query snapshot lock poisoned", q)
    | .ok _ =>
      let q := { q with latest_snapshot := q.latest_snapshot.set saved.saved_snapshot }
      match q.pending_ingest.read with
      | .error _ => (.error "query pending ingest lock poisoned", q)
      | .ok _ =>
        let q := { q with pending_ingest := q.pending_ingest.set none }
        (.ok (), { q with latest_tick := saved.saved_tick })

end QueryEngine

end Scharnhorst
