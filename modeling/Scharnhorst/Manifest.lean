/-
The schema manifest: what a save file says about the tables it was made from.

It stands in the header of every snapshot file, is brought up to the current version
when a save is loaded, and is then what the tables of the loaded world are created
from.
-/
import Scharnhorst.Schema

set_option autoImplicit false

namespace Scharnhorst

/-! ## Parts -/

structure ModFingerprint where
  mod_id : String
  version : String
  table_specs : List String
  content_hash : String
deriving DecidableEq

inductive RelationKind where
  | OneToMany
  | ManyToMany
  | Composition
deriving DecidableEq

/-- The source's fields `from` and `to` are `from_table` and `to_table`. -/
structure RelationEdge where
  from_table : String
  to_table : String
  kind : RelationKind
  from_column : String
  to_column : Option String
deriving DecidableEq

/-! ## The manifest -/

structure SchemaManifest where
  schema_version : String
  tables : List TableSpec
  relations : List RelationEdge
  mod_fingerprints : List ModFingerprint
  metadata : Map String String
deriving DecidableEq

namespace SchemaManifest

def new (schema_version : String) : SchemaManifest :=
  { schema_version, tables := [], relations := [], mod_fingerprints := [], metadata := ∅ }

def with_table (m : SchemaManifest) (table : TableSpec) : SchemaManifest :=
  { m with tables := m.tables ++ [table] }

def with_relation (m : SchemaManifest) (edge : RelationEdge) : SchemaManifest :=
  { m with relations := m.relations ++ [edge] }

def with_mod_fingerprint (m : SchemaManifest) (fingerprint : ModFingerprint) : SchemaManifest :=
  { m with mod_fingerprints := m.mod_fingerprints ++ [fingerprint] }

def with_metadata (m : SchemaManifest) (key value : String) : SchemaManifest :=
  { m with metadata := m.metadata.insert key value }

end SchemaManifest

/-! A builder that is called for each element in turn. -/

theorem foldl_build {σ α : Type} {step : σ → α → σ} (build : List α → σ)
    (hstep : ∀ xs a, step (build xs) a = build (xs ++ [a])) (xs as : List α) :
    as.foldl step (build xs) = build (xs ++ as) := by
  induction as generalizing xs with
  | nil => rw [List.foldl_nil, List.append_nil]
  | cons a as ih => rw [List.foldl_cons, hstep, ih, List.append_assoc, List.singleton_append]

theorem tables_foldl (listing : List TableSpec) (m : SchemaManifest) :
    listing.foldl SchemaManifest.with_table m = { m with tables := m.tables ++ listing } :=
  foldl_build (fun tables => { m with tables }) (fun _ _ => rfl) m.tables listing

theorem relations_foldl (edges : List RelationEdge) (m : SchemaManifest) :
    edges.foldl SchemaManifest.with_relation m = { m with relations := m.relations ++ edges } :=
  foldl_build (fun relations => { m with relations }) (fun _ _ => rfl) m.relations edges

theorem mod_fingerprints_foldl (fingerprints : List ModFingerprint) (m : SchemaManifest) :
    fingerprints.foldl SchemaManifest.with_mod_fingerprint m
      = { m with mod_fingerprints := m.mod_fingerprints ++ fingerprints } :=
  foldl_build (fun mod_fingerprints => { m with mod_fingerprints }) (fun _ _ => rfl)
    m.mod_fingerprints fingerprints

theorem metadata_foldl (entries : List (String × String)) (m : SchemaManifest) :
    entries.foldl (fun m entry => m.with_metadata entry.1 entry.2) m
      = { m with metadata := entries.foldl (fun data e => data.insert e.1 e.2) m.metadata } :=
  List.foldl_hom (fun metadata => { m with metadata }) (fun _ _ => rfl)

/-- A manifest at the current version. -/
structure MigratedSchemaManifest where
  manifest : SchemaManifest
  original_version : String
  applied_migrations : List String
deriving DecidableEq

namespace MigratedSchemaManifest

def new (manifest : SchemaManifest) (original_version : String) : MigratedSchemaManifest :=
  { manifest, original_version, applied_migrations := [] }

def tables (m : MigratedSchemaManifest) : List TableSpec := m.manifest.tables

def relations (m : MigratedSchemaManifest) : List RelationEdge := m.manifest.relations

end MigratedSchemaManifest

/-- A copy under another version. -/
def migrated_from_manifest (manifest : SchemaManifest) (target_version : String) :
    MigratedSchemaManifest :=
  let new_manifest := SchemaManifest.new target_version
  let new_manifest := manifest.tables.foldl SchemaManifest.with_table new_manifest
  let new_manifest := manifest.relations.foldl SchemaManifest.with_relation new_manifest
  let new_manifest := manifest.mod_fingerprints.foldl SchemaManifest.with_mod_fingerprint new_manifest
  let new_manifest :=
    manifest.metadata.toList.foldl (fun m entry => m.with_metadata entry.1 entry.2) new_manifest
  .new new_manifest manifest.schema_version

end Scharnhorst
