/-
The four diffs, applied to one table under its write lock.

Each function is the source's, and each has one lemma that says what a success did
and one that says what a failure left. Everything later about runs of diffs is
derived from those lemmas: the bodies are unfolded here and nowhere else.

An update and a delete both rewrite one batch in place, at the tick `locate` finds,
whatever tick they are given. An insert pushes a one-row batch onto the list of the
given tick and records its index there. A replace rebuilds the position map from the
new rows and overwrites the list of the given tick, and only that one.
-/
import Scharnhorst.Table

set_option autoImplicit false

namespace Scharnhorst

open Attempt Maps

/-! ## Schemas -/

/-- The Arrow schema of a table spec. -/
def spec_schema (spec : TableSpec) (reg : TypeRegistry) : ArrowStoreResult Schema := do
  let fields ← spec.columns.mapM fun col => do
    let dt ← reg.resolve_data_type col.storage_type
    return ({ name := col.name, data_type := dt, nullable := col.nullable } : Field)
  return { fields }

/-- From the spec, else from any stored batch, else all the keys as nullable
strings. -/
def resolve_table_schema (table : VersionedTable) (values : JsonMap) (reg : TypeRegistry) :
    ArrowStoreResult (Option Schema) :=
  match table.spec with
  | some spec => (spec_schema spec reg).map some
  | none =>
    match table.versions.values.flatten.head? with
    | some batch => .ok (some batch.schema)
    | none =>
      if values.isEmpty then .ok none
      else
        .ok (some { fields := values.keys.map fun k =>
          { name := k, data_type := .Utf8, nullable := true } })

def resolve_table_schema_from_map (table : VersionedTable) (row : JsonMap) (reg : TypeRegistry) :
    ArrowStoreResult (Option Schema) :=
  resolve_table_schema table row reg

/-- `table.spec.as_ref().and_then(|s| s.primary_key_column()).map(|c| c.name.clone())`. -/
def pk_col_name (table : VersionedTable) : Option String :=
  (table.spec.bind TableSpec.primary_key_column).map ColumnSpec.name

/-! ## In-place patches -/

/-- The patches of each batch: `(row in the batch, row of the patch)`, in order. -/
def group_locations (locations : List RowLocation) : Map Nat (List (Nat × Nat)) :=
  locations.zipIdx.foldl
    (fun grouped (loc, patch_row_idx) =>
      grouped.insert loc.batch_index
        (grouped.getD loc.batch_index [] ++ [(loc.row_index, patch_row_idx)]))
    ∅

/-- One round of the loop over the groups; a batch index out of range is skipped. -/
def patch_group (batch : RecordBatch) (versions : List RecordBatch)
    (group : Nat × List (Nat × Nat)) : ArrowStoreResult Unit × List RecordBatch :=
  match versions[group.1]? with
  | none => (.ok (), versions)
  | some original =>
    match patch_record_batch original batch group.2 with
    | .error e => (.error e, versions)
    | .ok patched => (.ok (), versions.set group.1 patched)

def apply_patch_to_versions (table : VersionedTable) (table_name : String) (tick : Tick)
    (locations : List RowLocation) (batch : RecordBatch) :
    ArrowStoreResult Unit × VersionedTable :=
  if locations.isEmpty then (.ok (), table)
  else
    match table.versions[tick]? with
    | none => (.error (.TickNotFound table_name tick), table)
    | some versions =>
      let (result, patched) := forEach (patch_group batch) versions
        (group_locations locations).toList
      (result, { table with versions := table.versions.insert tick patched })

section Apply

variable [Render]

/-! ## Update -/

/-- `apply_update_to_table` up to the point where it writes: where the row is, and
the patch to put there. -/
def update_patch (table : VersionedTable) (table_name : String) (row : RowId) (column : String)
    (value : Json) : ArrowStoreResult (RowLocation × RecordBatch) :=
  match table.position_map.position_of row with
  | none =>
    .error (.Generic s!"row not found in position map: table={table_name}, row_id={row}")
  | some (batch_idx, row_offset) =>
    match loc_tick table.versions batch_idx with
    | none =>
      .error (.Generic
        s!"no tick found containing batch_idx {batch_idx} for table {table_name}")
    | some tick =>
      match table.versions[tick]? with
      | none => .error (.TickNotFound table_name tick)
      | some batches =>
        match batches[batch_idx]? with
        | none =>
          .error (.Generic s!"batch index {batch_idx} out of range for table {table_name}")
        | some batch =>
          if batch.row_count ≤ row_offset then
            .error (.Generic s!"row offset {row_offset} out of range in batch {batch_idx}")
          else
            match batch.schema.index_of column with
            | none =>
              .error (.Schema s!"column '{column}' not found in table '{table_name}'")
            | some col_idx => do
              let patch_batch ← build_update_patch batch row_offset col_idx value
              return ({ tick, batch_index := batch_idx, row_index := row_offset, row_id := row },
                patch_batch)

/-- The tick of the diff is not used: `let _ = patch_tick`. -/
def apply_update_to_table (table : VersionedTable) (table_name : String) (_patch_tick : Tick)
    (row : RowId) (column : String) (value : Json) : ArrowStoreResult Unit × VersionedTable :=
  match update_patch table table_name row column value with
  | .error e => (.error e, table)
  | .ok (loc, patch_batch) =>
    apply_patch_to_versions table table_name loc.tick [loc] patch_batch

/-! ## Delete -/

/-- `apply_delete_to_table` up to the point where it writes. -/
def delete_patch (table : VersionedTable) (table_name : String) (row : RowId) :
    ArrowStoreResult (RowLocation × RecordBatch) :=
  match table.position_map.position_of row with
  | none =>
    .error (.Generic
      s!"row not found in position map for delete: table={table_name}, row_id={row}")
  | some (batch_idx, row_offset) =>
    match loc_tick table.versions batch_idx with
    | none =>
      .error (.Generic s!"no tick found for delete: table={table_name}, batch_idx={batch_idx}")
    | some tick =>
      match table.versions[tick]? with
      | none => .error (.TickNotFound table_name tick)
      | some batches =>
        match batches[batch_idx]? with
        | none =>
          .error (.Generic s!"invalid location for delete: batch={batch_idx}, row={row_offset}")
        | some batch =>
          if batch.row_count ≤ row_offset then
            .error (.Generic
              s!"invalid location for delete: batch={batch_idx}, row={row_offset}")
          else do
            let null_patch ← build_null_patch batch row_offset
            return ({ tick, batch_index := batch_idx, row_index := row_offset, row_id := row },
              null_patch)

/-- The patch first; the row leaves the position map only if the patch went in. -/
def apply_delete_to_table (table : VersionedTable) (table_name : String) (_patch_tick : Tick)
    (row : RowId) : ArrowStoreResult Unit × VersionedTable :=
  match delete_patch table table_name row with
  | .error e => (.error e, table)
  | .ok (loc, null_patch) =>
    match apply_patch_to_versions table table_name loc.tick [loc] null_patch with
    | (.error e, table) => (.error e, table)
    | (.ok (), table) =>
      (.ok (), { table with position_map := table.position_map.remove row })

/-! ## Insert -/

/-- What the key index records for an inserted row, if the row has the key column. A
string is its own key; anything else is the JSON text. -/
def index_row (index : PrimaryKeyIndex) (pk_name : Option String) (values : JsonMap) (tick : Tick)
    (batch_idx row_offset : Nat) : PrimaryKeyIndex :=
  match pk_name.bind (values[·]?) with
  | none => index
  | some pk_value =>
    let key :=
      match pk_value with
      | .string s => s
      | other => Render.value_to_string other
    index.insert key tick batch_idx row_offset

def apply_insert_to_table (table : VersionedTable) (table_name : String) (tick : Tick)
    (row : RowId) (values : JsonMap) (type_registry : TypeRegistry) :
    ArrowStoreResult Unit × VersionedTable :=
  match resolve_table_schema table values type_registry with
  | .error e => (.error e, table)
  | .ok none =>
    (.error (.Schema s!"cannot determine schema for insert into table '{table_name}'"), table)
  | .ok (some schema) =>
    if table.position_map.contains row then
      (.error (.DuplicateRowId table_name row), table)
    else
      match json_map_to_record_batch values schema with
      | .error e => (.error e, table)
      | .ok batch =>
        let versions := table.versions.insert tick (table.batches tick ++ [batch])
        -- the last batch of the tick: an insert makes a batch of one row
        let batch_idx := (versions[tick]?.map fun v => v.length - 1).getD 0
        (.ok (),
          { table with
            versions
            primary_key_index :=
              index_row table.primary_key_index (pk_col_name table) values tick batch_idx 0
            position_map := table.position_map.insert row batch_idx 0 })

/-! ## Replace -/

/-- A `RowId` from a JSON key: a `u64`, or a string that parses as one. -/
def parse_u64 (s : String) : Option Nat :=
  let digits := if s.toList.head? = some '+' then s.toList.tail else s.toList
  if digits ≠ [] ∧ digits.all Char.isDigit then
    let n := digits.foldl (fun acc c => 10 * acc + (c.toNat - '0'.toNat)) 0
    if n ≤ u64_MAX then some n else none
  else none

def json_value_to_u64 : Json → Option RowId
  | .number n => n.as_u64.map UInt64.toNat
  | .string s => parse_u64 s
  | _ => none

/-- The row id of the `i`-th row of a replace: the key column's value, or `i` when
the table has no key column. -/
def replace_row_id (table_name : String) (pk_name : Option String) (booked : RowPositionMap)
    (i : Nat) (row_map : JsonMap) : ArrowStoreResult RowId :=
  match pk_name with
  | none => .ok i
  | some pk_name =>
    match row_map[pk_name]? with
    | none =>
      .error (.Schema
        s!"primary key column '{pk_name}' missing in ReplaceTable row for table '{table_name}'")
    | some pk_value =>
      match json_value_to_u64 pk_value with
      | none =>
        .error (.Schema
          s!"primary key column '{pk_name}' value is not a valid u64 in ReplaceTable for table '{table_name}'")
      | some id =>
        -- twice within this replace: the rows of the old table do not count
        if booked.contains id then .error (.DuplicateRowId table_name id) else .ok id

/-- One round of the loop over the rows. The row is booked before its values are
converted. -/
def replace_row (table_name : String) (pk_name : Option String) (schema : Schema)
    (s : RowPositionMap × List RecordBatch) (row : JsonMap × Nat) :
    ArrowStoreResult Unit × (RowPositionMap × List RecordBatch) :=
  match replace_row_id table_name pk_name s.1 row.2 row.1 with
  | .error e => (.error e, s)
  | .ok row_id =>
    let position_map := s.1.insert row_id row.2 0
    match json_map_to_record_batch row.1 schema with
    | .error e => (.error e, (position_map, s.2))
    | .ok batch => (.ok (), (position_map, s.2 ++ [batch]))

/-- The schema of a replace: that of its first row. -/
def replace_schema (table : VersionedTable) (rows : List JsonMap) (type_registry : TypeRegistry) :
    Option Schema :=
  (rows.head?.bind fun row =>
    (resolve_table_schema_from_map table row type_registry).toOption).join

def apply_replace_to_table (table : VersionedTable) (table_name : String) (tick : Tick)
    (rows : List JsonMap) (type_registry : TypeRegistry) :
    ArrowStoreResult Unit × VersionedTable :=
  match replace_schema table rows type_registry with
  | none =>
    (.error (.Schema s!"cannot determine schema for ReplaceTable on '{table_name}'"), table)
  | some schema =>
    match forEach (replace_row table_name (pk_col_name table) schema) (.new, []) rows.zipIdx with
    | (.error e, (position_map, _)) => (.error e, { table with position_map })
    | (.ok (), (position_map, batches)) =>
      (.ok (), { table with position_map, versions := table.versions.insert tick batches })

/-! ## Any diff -/

/-- What the dispatcher runs on the table a diff names, once it holds its lock. -/
def apply_to_table (type_registry : TypeRegistry) (tick : Tick) (diff : Diff)
    (t : VersionedTable) : ArrowStoreResult Unit × VersionedTable :=
  match diff with
  | .Update table row column value => apply_update_to_table t table tick row column value
  | .Insert table row values => apply_insert_to_table t table tick row values type_registry
  | .Delete table row => apply_delete_to_table t table tick row
  | .ReplaceTable table rows => apply_replace_to_table t table tick rows type_registry

end Apply

end Scharnhorst
