/-
What a migration leaves as it was.

The pipeline builds a new manifest at its target version and copies the tables, which its
steps have changed, and the relations. The copy that the content crate makes takes over the
fingerprints of the mods and the metadata as well. The pipeline leaves them out, and writes
no step down. So the migrated manifest is complete exactly where there was nothing to leave
out and no step to write down.
-/
import Scharnhorst.Attempt
import Scharnhorst.Maps
import Scharnhorst.Migration

set_option autoImplicit false

namespace Scharnhorst

/-! ## The copy of a manifest -/

/-- The copy differs in its version only. -/
theorem migrated_from_manifest_eq (manifest : SchemaManifest) (target_version : String) :
    migrated_from_manifest manifest target_version
      = .new { manifest with schema_version := target_version } manifest.schema_version := by
  have hmetadata : manifest.metadata.toList.foldl (fun data e => data.insert e.1 e.2) ∅
      = manifest.metadata := Maps.foldl_insert (List.Perm.refl _)
  rw [migrated_from_manifest]
  simp only [tables_foldl, relations_foldl, mod_fingerprints_foldl, metadata_foldl,
    SchemaManifest.new, List.nil_append, hmetadata]

/-! ## The steps of the pipeline -/

namespace MigrationPipeline

variable {p : MigrationPipeline} {manifest : SchemaManifest} {migrated : MigratedSchemaManifest}

/-- The steps that the pipeline applies from a version on. -/
inductive Applied (p : MigrationPipeline) : String → List MigrationStep → Prop
  | done : Applied p p.target_version []
  | step {version : String} {step : MigrationStep} {steps : List MigrationStep}
    (hbefore : version ≠ p.target_version)
    (hfound : p.steps.find? (·.from_version = version) = some step)
    (hrest : Applied p step.to_version steps) : Applied p version (step :: steps)

/-- The tables as the steps leave them, one after the other. -/
def transformed (steps : List MigrationStep) (tables : List TableSpec) : List TableSpec :=
  steps.foldl (fun tables step => tables.map fun table => (step.migrate_table table).2) tables

theorem Applied.nil_iff {version : String} {steps : List MigrationStep}
    (h : p.Applied version steps) : steps = [] ↔ version = p.target_version := by
  cases h with
  | done => exact iff_of_true rfl rfl
  | step hbefore _ _ => exact iff_of_false (List.cons_ne_nil _ _) hbefore

theorem migrate_tables_eq {step : MigrationStep} {tables tables' : List TableSpec}
    (h : migrate_tables step tables = .ok tables') :
    tables' = tables.map fun table => (step.migrate_table table).2 := by
  have hmap := Attempt.mapM_ok_map (g := id) (k := fun table => (step.migrate_table table).2) h
    fun table table' htable => by
      rcases hstep : step.migrate_table table with ⟨e | ⟨⟩, left⟩
      · rw [hstep] at htable
        cases htable
      · rw [hstep] at htable
        exact (Except.ok.inj htable).symm
  rwa [List.map_id] at hmap

theorem apply_loop_ok {left : Nat} {version : String} {tables tables' : List TableSpec}
    (h : p.apply_loop manifest left version tables = .ok tables') :
    ∃ steps, p.Applied version steps ∧ tables' = transformed steps tables := by
  fun_induction apply_loop p manifest left version tables with
  | case1 left tables => exact ⟨[], .done, (Except.ok.inj h).symm⟩
  | case2 => cases h
  | case3 => cases h
  | case4 => cases h
  | case5 version tables htarget step hfound next left hmigrated ih =>
      obtain ⟨steps, hsteps, rfl⟩ := ih h
      refine ⟨step :: steps, .step htarget hfound hsteps, ?_⟩
      show transformed steps next = transformed steps _
      rw [migrate_tables_eq hmigrated]

/-- All that a migrated manifest has. -/
theorem apply_ok (h : p.apply manifest = .ok migrated) :
    ∃ steps, p.Applied manifest.schema_version steps ∧ migrated = .new
      { SchemaManifest.new p.target_version with
        tables := transformed steps manifest.tables
        relations := manifest.relations } manifest.schema_version := by
  rw [apply] at h
  rcases htables : p.apply_loop manifest (p.steps.length + 1) manifest.schema_version
      manifest.tables with e | tables
  · rw [htables] at h
    cases h
  rw [htables] at h
  obtain ⟨steps, hsteps, rfl⟩ := apply_loop_ok htables
  refine ⟨steps, hsteps, ?_⟩
  rw [← Except.ok.inj h]
  simp only [tables_foldl, relations_foldl, SchemaManifest.new, List.nil_append]

/-- The migration keeps what it does not migrate, and says which steps it has applied. -/
structure Keeps (p : MigrationPipeline) (manifest : SchemaManifest)
    (migrated : MigratedSchemaManifest) : Prop where
  relations : migrated.manifest.relations = manifest.relations
  mod_fingerprints : migrated.manifest.mod_fingerprints = manifest.mod_fingerprints
  metadata : migrated.manifest.metadata = manifest.metadata
  steps : ∃ steps, p.Applied manifest.schema_version steps
    ∧ migrated.manifest.tables = transformed steps manifest.tables
    ∧ migrated.applied_migrations.length = steps.length
    ∧ (steps = [] → migrated = migrated_from_manifest manifest p.target_version)

/-- A step that leaves every table as it is. -/
def to_second : MigrationPipeline where
  steps :=
    [{ from_version := "1", to_version := "2", migrate_table := fun table => (.ok (), table) }]
  target_version := "2"

def modded : SchemaManifest :=
  ((SchemaManifest.new "1").with_mod_fingerprint ⟨"feudalism", "1.0", [], "c0ffee"⟩).with_metadata
    "engine_version" "0.9"

end MigrationPipeline

end Scharnhorst
