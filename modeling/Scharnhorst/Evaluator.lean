/-
The rule evaluator, as far as it moves its scope.

`jump_to` resolves a relation, finds the row that it leads to, pushes that row on the scope and
pins it in the prefetch cache. The row is found by a scan: the key of the scope's row is read in
the table that the relation starts from, and then the keys of all rows of the other table, in
the order in which a hash map lists them.

The order is a parameter, `row_ids`. What else an evaluator holds (modifiers, variables, built-in
functions, the journal) is not touched by a jump and is left out.
-/
import Scharnhorst.FixedPoint
import Scharnhorst.Journal
import Scharnhorst.Listed
import Scharnhorst.Reads

set_option autoImplicit false

namespace Scharnhorst

/-! ## Errors -/

/-- `RuleError`, the variants that a jump, an expression or an effect raises. -/
inductive RuleError where
  | Evaluation (message : String)
  | Scope (message : String)
  | UnknownVariable (name : String)
  | TypeMismatch (expected got : String)
  | QueryEngine (message : String)
  | UnsupportedOperation (message : String)
  | Core (e : CoreError)
  | Query (e : QueryError)
  | JournalWrapper (message : String)
  | Journal (e : JournalError)
deriving DecidableEq

abbrev RuleResult := Except RuleError

/-! ## The scope -/

inductive JumpDirection where
  | Forward
  | Reverse
deriving DecidableEq

structure ScopeJump where
  relation : String
  direction : JumpDirection
deriving DecidableEq

structure ScopeFrame where
  table : String
  row : RowId
  jump : Option ScopeJump
deriving DecidableEq

/-- The current table and row, and the frames below, the last one first. -/
structure Scope where
  table : String
  row : RowId
  stack : List ScopeFrame
deriving DecidableEq

namespace Scope

def new (table : String) (row : RowId) : Scope := { table, row, stack := [] }

def stack_depth (scope : Scope) : Nat := scope.stack.length

def push (scope : Scope) (table : String) (row : RowId) (jump : Option ScopeJump) : Scope :=
  { table, row, stack := { table := scope.table, row := scope.row, jump } :: scope.stack }

def pop (scope : Scope) : RuleResult Unit × Scope :=
  match scope.stack with
  | [] => (.error (.Scope "scope stack underflow"), scope)
  | frame :: stack => (.ok (), { table := frame.table, row := frame.row, stack })

/-- The row is the caller's to find. -/
def apply_jump (scope : Scope) (edge : RelationEdge) (direction : JumpDirection)
    (target_row : RowId) : Scope :=
  let target_table :=
    match direction with
    | .Forward => edge.to_table
    | .Reverse => edge.from_table
  scope.push target_table target_row
    (some { relation := s!"{edge.from_table} -> {edge.to_table}", direction })

end Scope

/-! ## Typed access -/

/-- `TypedColumnAccess<i64>::get`. -/
def get_int64 (array : ArrayRef) (column : String) (row : Nat) : QueryResult (Option Int64) :=
  match array with
  | .Int64Array a =>
    if a.len ≤ row then .error (.IndexOutOfBounds row) else .ok (a.get row)
  | other =>
    .error (.TypeMismatch column
      "arrow_array::array::primitive_array::PrimitiveArray<arrow_array::types::Int64Type>"
      other.data_type.to_string)

/-- `RowLookupView::column_view`. -/
def RowLookupView.column_view (lookup : RowLookupView) (column : String) : QueryResult ArrayRef :=
  match lookup.view.batches[lookup.batch_index]? with
  | none =>
    .error (.InvalidQuery
      s!"batch index {lookup.batch_index} out of range for table '{lookup.view.table_name}'")
  | some batch =>
    match (batch.schema.index_of column).bind (batch.columns[·]?) with
    | none => .error (.ColumnNotFound column lookup.view.table_name)
    | some array => .ok array

def RowLookupView.get_i64 (lookup : RowLookupView) (column : String) : QueryResult (Option Int64) :=
  lookup.column_view column >>= fun array => get_int64 array column lookup.row_offset

/-- The first edge whose ends spell the key. -/
def QueryEngine.resolve_relation_edge (q : QueryEngine) (key : String) : QueryResult RelationEdge :=
  match q.schema_registry.read with
  | .error _ => .error (.SchemaRegistry "poisoned lock")
  | .ok reg =>
    match reg.relations.edges.find? fun e => s!"{e.from_table} -> {e.to_table}" = key with
    | some edge => .ok edge
    | none => .error (.RelationNotFound key)

/-! ## The prefetch cache -/

structure CachedRow where
  tick : Tick
  table : String
  row_id : RowId
  view : TableReadView
deriving DecidableEq

structure CacheKey where
  table : String
  row_id : RowId
deriving DecidableEq

structure CacheEntry where
  row : CachedRow
  last_access : Nat
deriving DecidableEq

/-- `PrefetchCache`, its entries as the hash map lists them. -/
structure PrefetchCache where
  capacity : Nat
  entries : List (CacheKey × CacheEntry)
  current_tick : Tick
  access_counter : Nat
deriving DecidableEq

namespace PrefetchCache

def DEFAULT_CAPACITY : Nat := 1024

def new (capacity : Nat) : PrefetchCache :=
  { capacity, entries := [], current_tick := Tick.ZERO, access_counter := 0 }

/-- The view of any row of the table. -/
def find_view (cache : PrefetchCache) (table : String) (tick : Tick) : Option TableReadView :=
  (cache.entries.find? fun entry => entry.2.row.tick = tick ∧ entry.2.row.table = table).map
    fun entry => entry.2.row.view

/-- The first of those with the least `last_access`. -/
def least_used (entries : List (CacheKey × CacheEntry)) : Option (CacheKey × CacheEntry) :=
  entries.foldl (fun victim entry =>
    match victim with
    | none => some entry
    | some best => if entry.2.last_access < best.2.last_access then some entry else some best) none

def evict_lru (cache : PrefetchCache) : PrefetchCache :=
  match least_used cache.entries with
  | none => cache
  | some (key, _) => { cache with entries := Listed.remove cache.entries key }

/-- It never fails. -/
def insert (cache : PrefetchCache) (row : CachedRow) : PrefetchCache :=
  let cache := if cache.capacity ≤ cache.entries.length then cache.evict_lru else cache
  let access_counter := saturating_add cache.access_counter 1
  { cache with
    access_counter
    entries := Listed.insert cache.entries ⟨row.table, row.row_id⟩
      { row, last_access := access_counter } }

end PrefetchCache

/-! ## The evaluator -/

structure Evaluator where
  query_engine : RwLock QueryEngine
  scope : Scope
  cache : PrefetchCache

namespace Evaluator

/-- The key of one row. -/
def read_key (q : QueryEngine) (table column null_text : String) (row : RowId) :
    RuleResult Int64 :=
  match q.lookup_row table row >>= (·.get_i64 column) with
  | .error e => .error (.Query e)
  | .ok none => .error (.Scope null_text)
  | .ok (some value) => .ok value

/-- The scan, the same loop in both directions. A row whose key cannot be read ends it. -/
def find_row (q : QueryEngine) (table column null_text : String) (key : Int64) :
    List RowId → RuleResult (Option RowId)
  | [] => .ok none
  | row :: rows =>
    match read_key q table column null_text row with
    -- a null is an error too, whatever row it is of
    | .error e => .error e
    | .ok value => if value = key then .ok (some row) else find_row q table column null_text key rows

/-- `table_schema(..).primary_key_column()`. -/
def primary_key (q : QueryEngine) (table : String) : RuleResult String :=
  match q.table_schema table with
  | .error e => .error (.Query e)
  | .ok spec =>
    match spec.primary_key_column with
    | none => .error (.Scope s!"table '{table}' has no primary key column")
    | some pk_col => .ok pk_col.name

section Order

variable (row_ids : RowPositionMap → List RowId)

/-- The row of `table` with this key in `column`, or the error that there is none. -/
def scan_table (ev : Evaluator) (q : QueryEngine) (table column null_text : String) (key : Int64)
    (not_found : String) : RuleResult RowId :=
  match q.read_single_table ev.cache.current_tick table with
  | .error e => .error (.Query e)
  | .ok view =>
    match find_row q table column null_text key (row_ids view.position_map) with
    | .error e => .error e
    | .ok (some row) => .ok row
    | .ok none => .error (.Scope not_found)

/-- The row is looked up in the table where the edge starts, whatever table the scope is in. -/
def resolve_target_row (ev : Evaluator) (edge : RelationEdge) (direction : JumpDirection) :
    RuleResult RowId :=
  match ev.query_engine.read with
  | .error _ => .error (.QueryEngine "poisoned lock")
  | .ok q =>
    match direction with
    | .Forward => do
      -- the scope's table is not compared with the edge's
      let fk_val ← read_key q edge.from_table edge.from_column "FK value is null" ev.scope.row
      let pk_col ← primary_key q edge.to_table
      scan_table row_ids ev q edge.to_table pk_col "target row has null PK" fk_val
        s!"target row not found: {edge.from_table} -> {edge.to_table} (fk={fk_val.toInt})"
    | .Reverse => do
      let pk_col ← primary_key q edge.to_table
      let current_pk ← read_key q edge.to_table pk_col "current row PK is null" ev.scope.row
      scan_table row_ids ev q edge.from_table edge.from_column "row has null FK" current_pk
        s!"target row not found: {edge.from_table} <- {edge.to_table} (pk={current_pk.toInt})"

/-- The view comes from the cache, if a row of the table is there. -/
def pin_in_cache (ev : Evaluator) (row_id : RowId) : RuleResult Unit × Evaluator :=
  let table := ev.scope.table
  let tick := ev.cache.current_tick
  let found : RuleResult TableReadView :=
    match ev.cache.find_view table tick with
    | some view => .ok view
    | none =>
      -- the lock is taken a third time
      match ev.query_engine.read with
      | .error _ => .error (.QueryEngine "poisoned lock")
      | .ok q => (q.read_single_table tick table).mapError .Query
  match found with
  | .error e => (.error e, ev)
  | .ok view => (.ok (), { ev with cache := ev.cache.insert { tick, table, row_id, view } })

def jump_to (ev : Evaluator) (relation_name : String) (direction : JumpDirection) :
    RuleResult Unit × Evaluator :=
  match ev.query_engine.read with
  | .error _ => (.error (.QueryEngine "poisoned lock"), ev)
  | .ok q =>
    match q.resolve_relation_edge relation_name with
    | .error e => (.error (.Query e), ev)
    | .ok edge =>
      match resolve_target_row row_ids ev edge direction with
      | .error e => (.error e, ev)
      | .ok target_row =>
        -- the scope moves before the row is pinned, and would stay so if that failed
        let ev := { ev with scope := ev.scope.apply_jump edge direction target_row }
        ev.pin_in_cache target_row

end Order

def scope_pop (ev : Evaluator) : RuleResult Unit × Evaluator :=
  let (result, scope) := ev.scope.pop
  (result, { ev with scope })

end Evaluator

end Scharnhorst
