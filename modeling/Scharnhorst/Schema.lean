/-
Table specifications.

A spec is what a table is created from. The store reads its columns in order, their
storage types, their nullability, and the first `Id` column, which is the primary
key.
-/
import Scharnhorst.Core

set_option autoImplicit false

namespace Scharnhorst

inductive FieldSemantic where
  | Id
  | ForeignKey (target_table : String)
  | Name | Tag | Position2D | Position3D | Quantity | Percent | DurationTicks
  | Timestamp | Raw
deriving DecidableEq

structure ColumnSpec where
  name : String
  semantic : FieldSemantic
  storage_type : String
  nullable : Bool
deriving DecidableEq

namespace ColumnSpec

def new (name : String) (semantic : FieldSemantic) (storage_type : String) : ColumnSpec :=
  { name, semantic, storage_type, nullable := false }

def with_nullable (c : ColumnSpec) (nullable : Bool) : ColumnSpec := { c with nullable }

end ColumnSpec

/-- `SchemaError`, the variants that the modelled functions raise. -/
inductive SchemaError where
  | TableAlreadyExists (name : String)
  | TableNotFound (name : String)
  | InvalidTableName (name : String)
  | DuplicateColumn (name : String)
  | RelationAlreadyExists (table_from table_to : String)
  | RelationNotFound (table_from table_to : String)
  | CircularRelation (message : String)
  | RegistryFrozen
  | MigrationVersionMismatch (expected actual : String)
  | NoMigrationPath (version_from version_to : String)
deriving DecidableEq

structure TableSpec where
  name : String
  columns : List ColumnSpec
  /-- From a column's name to its index in `columns`. -/
  column_index : Map String Nat
  tier : StateTier := .Authority
deriving DecidableEq

namespace TableSpec

def new (name : String) : TableSpec := { name, columns := [], column_index := ∅ }

def with_column (spec : TableSpec) (col : ColumnSpec) : Except SchemaError TableSpec :=
  if spec.column_index.contains col.name then
    .error (.DuplicateColumn col.name)
  else
    .ok { spec with
          columns := spec.columns ++ [col]
          column_index := spec.column_index.insert col.name spec.columns.length }

def column_by_name (spec : TableSpec) (name : String) : Option ColumnSpec :=
  spec.column_index[name]?.bind (spec.columns[·]?)

def column_index_of (spec : TableSpec) (name : String) : Option Nat := spec.column_index[name]?

def primary_key_column (spec : TableSpec) : Option ColumnSpec :=
  spec.columns.find? fun c => c.semantic = .Id

/-- From the columns in order: of two of one name the last is kept. -/
def rebuild_index (spec : TableSpec) : TableSpec :=
  { spec with
    column_index := spec.columns.zipIdx.foldl (fun index entry =>
      index.insert entry.1.name entry.2) ∅ }

end TableSpec

end Scharnhorst
