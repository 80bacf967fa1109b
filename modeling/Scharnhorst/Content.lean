/-
The content compiler: from raw tables, which are columns of strings, to the store and the
schema registry that a simulation starts with.

The tables are compiled one by one. What the migrated manifest asks for is looked at after
that, when all of them are registered, and the tiers last. A failure anywhere gives up the
whole compilation, and what was built so far is dropped.

The input's overlays are not read by the compiler and are left out.
-/
import Scharnhorst.Snapshots

set_option autoImplicit false

namespace Scharnhorst

open Attempt

/-! ## Names -/

structure NameResolver where
  name_to_id : Map String RowId
  id_to_name : Map RowId String
  next_id : Nat
deriving DecidableEq

structure NamespaceResolver where
  tables : Map String NameResolver
  next_id : Nat
deriving DecidableEq

def NamespaceResolver.new : NamespaceResolver := { tables := ∅, next_id := 0 }

/-! ## Fingerprints -/

/-- What the compiler asks of the crates that format and hash. -/
class ContentText where
  /-- The `Debug` text of a string. -/
  debug_str : String → String
  /-- `fxhash::hash64`. -/
  hash64 : String → UInt64

/-- The `Debug` text of a semantic. -/
def FieldSemantic.debug [ContentText] : FieldSemantic → String
  | Id => "Id"
  | ForeignKey target_table =>
    "ForeignKey \x7b target_table: " ++ ContentText.debug_str target_table ++ " \x7d"
  | Name => "Name"
  | Tag => "Tag"
  | Position2D => "Position2D"
  | Position3D => "Position3D"
  | Quantity => "Quantity"
  | Percent => "Percent"
  | DurationTicks => "DurationTicks"
  | Timestamp => "Timestamp"
  | Raw => "Raw"

namespace ModFingerprint

/-- The string that is hashed: the mod, and the tables of it that `table_specs` has. -/
def combined [ContentText] (fp : ModFingerprint) (seed : String) (table_specs : List TableSpec) :
    String :=
  let names := ",".intercalate (fp.table_specs.mergeSort fun a b => a ≤ b)
  let head := s!"{fp.mod_id}:{fp.version}:{names}:{seed}"
  let sorted_specs :=
    (table_specs.filter fun s => s.name ∈ fp.table_specs).mergeSort fun a b => a.name ≤ b.name
  sorted_specs.foldl (fun combined spec =>
    spec.columns.foldl (fun combined col =>
      combined ++ "|" ++ col.name ++ "=" ++ col.storage_type ++ ":" ++ col.semantic.debug
        ++ if col.nullable then "?n" else "") (combined ++ ":" ++ spec.name)) head

def compute_hash [ContentText] (fp : ModFingerprint) (seed : String)
    (table_specs : List TableSpec) : ModFingerprint :=
  let hash := ContentText.hash64 (fp.combined seed table_specs)
  { fp with content_hash := String.ofList (Nat.toDigits 16 hash.toNat) }

end ModFingerprint

/-! ## Input and output -/

abbrev ContentResult := Except ContentError

/-- A raw content definition. -/
structure RawTableDef where
  spec : TableSpec
  /-- The rows as columns of strings, by the column's name. -/
  rows : Map String (List String)
deriving DecidableEq

structure CompilationInput where
  tables : List RawTableDef
  resolver : NamespaceResolver
  migrated_manifest : Option MigratedSchemaManifest
deriving DecidableEq

structure CompilationOutput where
  store : ArrowStore
  registry : SchemaRegistry
  resolver : NamespaceResolver
  tier_registry : TierRegistry
  relation_edges : List RelationEdge
  fingerprints : List ModFingerprint
  migrated_manifest : Option MigratedSchemaManifest
deriving DecidableEq

namespace ContentCompiler

/-! ## One table -/

/-- Every field is a string field, whatever the column's storage type is. -/
def string_schema (spec : TableSpec) : Schema :=
  { fields := spec.columns.map fun c =>
      { name := c.name, data_type := .Utf8, nullable := c.nullable } }

def string_column (spec : TableSpec) (rows : Map String (List String)) (col : ColumnSpec) :
    ContentResult ArrayRef :=
  match rows[col.name]? with
  | none => .error (.CompilationFailed spec.name s!"missing column data: {col.name}")
  | some values => .ok (.StringArray (values.map some))

def build_record_batch_from_strings (spec : TableSpec) (rows : Map String (List String)) :
    ContentResult RecordBatch := do
  let arrays ← spec.columns.mapM (string_column spec rows)
  (RecordBatch.try_new (string_schema spec) arrays).mapError fun e =>
    .CompilationFailed spec.name s!"arrow batch error: {e}"

def build_batches (table : RawTableDef) : ContentResult (List RecordBatch) :=
  if table.rows.isEmpty then .ok []
  else
    match build_record_batch_from_strings table.spec table.rows with
    | .error e => .error (.CompilationFailed table.spec.name e.to_string)
    | .ok batch => .ok [batch]

def compile_table (s : ArrowStore × SchemaRegistry) (table : RawTableDef) :
    ContentResult Unit × (ArrowStore × SchemaRegistry) :=
  let name := table.spec.name
  match s.2.register table.spec with
  | (.error e, registry) =>
    (.error (.CompilationFailed name s!"registry error: {e.to_string}"), (s.1, registry))
  | (.ok (), registry) =>
    -- a compiled table takes no patches later
    match s.1.create_table table.spec .AppendOnly with
    | (.error e, store) =>
      (.error (.CompilationFailed name s!"store error: {e.to_string}"), (store, registry))
    | (.ok _, store) =>
      match build_batches table with
      | .error e => (.error e, (store, registry))
      | .ok batches =>
        match store.append_batches name 0 batches with
        | (.error e, store) =>
          (.error (.CompilationFailed name s!"batch append error: {e.to_string}"),
            (store, registry))
        | (.ok (), store) => (.ok (), (store, registry))

/-! ## The manifest -/

section Manifest

variable [ContentText]

/-- The `Debug` text of a list of names. -/
def debug_names (names : List String) : String :=
  "[" ++ ", ".intercalate (names.map ContentText.debug_str) ++ "]"

/-- `registry.add_relation` with the compiler's error. -/
def add_edge (registry : SchemaRegistry) (edge : RelationEdge) :
    ContentResult Unit × SchemaRegistry :=
  let (result, registry) := registry.add_relation edge
  (result.mapError fun e =>
    .CompilationFailed edge.from_table s!"relation error: {e.to_string}", registry)

/-- What is done with a manifest once the tables are registered. Of its tables only the
names are looked at. -/
def compile_manifest (registry : SchemaRegistry) (tables : List RawTableDef)
    (migrated : MigratedSchemaManifest) :
    ContentResult (List RelationEdge × List ModFingerprint × SchemaRegistry) :=
  match migrated.tables.find? fun t => !registry.contains t.name with
  | some t =>
    .error (.CompilationFailed t.name "table from manifest not found in compiled output")
  | none =>
    let edges := migrated.relations
    -- set before the edges are added, and so before a cycle can be found
    match registry.set_migrated_manifest migrated with
    | (.error e, _) =>
      .error (.CompilationFailed "schema_registry" s!"set_migrated_manifest failed: {e.to_string}")
    | (.ok (), registry) =>
      match forEach add_edge registry edges with
      | (.error e, _) => .error e
      | (.ok (), registry) =>
        match registry.relations.detect_cycles with
        | cycle :: _ =>
          .error (.CompilationFailed "relation_graph" s!"cycle detected: {debug_names cycle}")
        | [] =>
          let table_specs := tables.map (·.spec)
          let fps := migrated.manifest.mod_fingerprints.map fun fp =>
            fp.compute_hash "content_compilation" table_specs
          match registry.store_mod_fingerprints fps with
          | (.error e, _) =>
            .error (.CompilationFailed "fingerprints" s!"fingerprint storage error: {e.to_string}")
          | (.ok (), registry) => .ok (edges, fps, registry)

/-- `if let Some(ref migrated) = input.migrated_manifest`. -/
def compile_migrated (registry : SchemaRegistry) (input : CompilationInput) :
    ContentResult (List RelationEdge × List ModFingerprint × SchemaRegistry) :=
  match input.migrated_manifest with
  | some migrated => compile_manifest registry input.tables migrated
  | none => .ok ([], [], registry)

end Manifest

/-! ## Tiers -/

def compile_tier (tier_registry : TierRegistry) (table : RawTableDef) :
    ContentResult Unit × TierRegistry :=
  let name := table.spec.name
  if table.spec.tier ≠ .Authority then
    (.error (.CompilationFailed name
      s!"content compilation only supports Authority-tier tables; '{name}' has tier {table.spec.tier.debug}"),
      tier_registry)
  else
    let (result, tier_registry) := tier_registry.register name .Authority "content_loader"
      s!"Compiled content table: {name}"
    (result.mapError fun e => .CompilationFailed name s!"tier registration error: {e}",
      tier_registry)

/-! ## The whole input -/

def compile [ContentText] (input : CompilationInput) : ContentResult CompilationOutput :=
  match forEach compile_table (.new, .new) input.tables with
  | (.error e, _) => .error e
  | (.ok (), (store, registry)) =>
    match compile_migrated registry input with
    | .error e => .error e
    | .ok (relation_edges, fingerprints, registry) =>
      match forEach compile_tier .new input.tables with
      | (.error e, _) => .error e
      | (.ok (), tier_registry) =>
        .ok
          { store, registry := registry.freeze, resolver := input.resolver, tier_registry
            relation_edges, fingerprints, migrated_manifest := input.migrated_manifest }

end ContentCompiler

end Scharnhorst
