/-
Loading a save: the six phases, and the replay that checks the hash.

Every phase begins alike. It advances the lifecycle, and only then looks whether it was
its turn: `enter` is that, and it writes the lifecycle also where it fails. What comes
after it is the phase's own work, which has a definition of its own here, so that what
the lifecycle does and what the work does can be told apart.

The store of the fourth phase is a handle in the source. Here it is handed in and handed
back.
-/
import Scharnhorst.Migration
import Scharnhorst.Relation

set_option autoImplicit false

namespace Scharnhorst

open Attempt

/-! ## The lifecycle -/

inductive LoadPhase where
  | SnapshotDeserialize
  | ModCoordination
  | SchemaMigration
  | ContentCompilation
  | SchemaFreeze
  | SimulationStart
deriving DecidableEq

namespace LoadPhase

def name : LoadPhase → String
  | SnapshotDeserialize => "SnapshotDeserialize"
  | ModCoordination => "ModCoordination"
  | SchemaMigration => "SchemaMigration"
  | ContentCompilation => "ContentCompilation"
  | SchemaFreeze => "SchemaFreeze"
  | SimulationStart => "SimulationStart"

def next : LoadPhase → Option LoadPhase
  | SnapshotDeserialize => some ModCoordination
  | ModCoordination => some SchemaMigration
  | SchemaMigration => some ContentCompilation
  | ContentCompilation => some SchemaFreeze
  | SchemaFreeze => some SimulationStart
  | SimulationStart => none

end LoadPhase

structure LoadLifecycle where
  current : Option LoadPhase
  completed : List LoadPhase
  manifest : Option SchemaManifest
  migrated : Option MigratedSchemaManifest
  final_mods : List ModFingerprint
  frozen : Bool
deriving DecidableEq

namespace LoadLifecycle

def new : LoadLifecycle :=
  { current := none, completed := [], manifest := none, migrated := none, final_mods := []
    frozen := false }

def advance (l : LoadLifecycle) : Except ContentError LoadPhase × LoadLifecycle :=
  match l.current with
  | none => (.ok .SnapshotDeserialize, { l with current := some .SnapshotDeserialize })
  | some current =>
    match current.next with
    | none => (.error (.InvalidPhaseTransition current.name "(none)"), l)
    | some next =>
      if current ∈ l.completed then (.error (.PhaseAlreadyCompleted current.name), l)
      else (.ok next, { l with current := some next, completed := l.completed ++ [current] })

def finish (l : LoadLifecycle) : Except ContentError Unit × LoadLifecycle :=
  match l.current with
  | some current =>
    (.ok (),
      { l with
        current := none
        completed := if current ∈ l.completed then l.completed else l.completed ++ [current] })
  | none => (.ok (), { l with current := none })

def set_manifest (l : LoadLifecycle) (manifest : SchemaManifest) : LoadLifecycle :=
  { l with manifest := some manifest }

def set_migrated_manifest (l : LoadLifecycle) (migrated : MigratedSchemaManifest) : LoadLifecycle :=
  { l with migrated := some migrated }

def set_final_mods (l : LoadLifecycle) (mods : List ModFingerprint) : LoadLifecycle :=
  { l with final_mods := mods }

def set_frozen (l : LoadLifecycle) (frozen : Bool) : LoadLifecycle := { l with frozen }

def is_finished (l : LoadLifecycle) : Bool := l.completed.length = 6

end LoadLifecycle

/-! ## The phases -/

structure LoadReconstruction where
  lifecycle : LoadLifecycle
  persistence : SnapshotPersistence
  tolerance_checker : ModToleranceChecker
  migration_pipeline : Option MigrationPipeline
  tier_registry : TierRegistry

namespace LoadReconstruction

def new (persistence : SnapshotPersistence) (tolerance_checker : ModToleranceChecker) :
    LoadReconstruction :=
  { lifecycle := .new, persistence, tolerance_checker, migration_pipeline := none
    tier_registry := .new }

def with_migration_pipeline (r : LoadReconstruction) (pipeline : MigrationPipeline) :
    LoadReconstruction :=
  { r with migration_pipeline := some pipeline }

def with_tier_registry (r : LoadReconstruction) (tier_registry : TierRegistry) :
    LoadReconstruction :=
  { r with tier_registry }

/-- How every phase begins. -/
def enter (r : LoadReconstruction) (phase : LoadPhase) : SaveResult Unit × LoadReconstruction :=
  match r.lifecycle.advance with
  | (.error e, lifecycle) => (.error (.Content e), { r with lifecycle })
  | (.ok turn, lifecycle) =>
    if turn ≠ phase then
      (.error (.InvalidPhaseTransition turn.name phase.name), { r with lifecycle })
    else (.ok (), { r with lifecycle })

section Deserialize

variable {D : Type} [SaveDisk D] [JsonBytes SnapshotHeader]

/-- The work of the first phase. -/
def snapshot_deserialize (r : LoadReconstruction) (disk : D) :
    SaveResult SchemaManifest × LoadReconstruction :=
  match r.persistence.latest_snapshot disk with
  | .error e => (.error e, r)
  | .ok none => (.error (.SnapshotNotFound "no snapshots available"), r)
  | .ok (some (tick, _)) =>
    match r.persistence.read_snapshot disk tick with
    | .error e => (.error e, r)
    | .ok persisted =>
      let manifest := persisted.header.schema_manifest
      (.ok manifest, { r with lifecycle := r.lifecycle.set_manifest manifest })

def phase1_snapshot_deserialize (r : LoadReconstruction) (disk : D) :
    SaveResult SchemaManifest × LoadReconstruction :=
  match r.enter .SnapshotDeserialize with
  | (.error e, r) => (.error e, r)
  | (.ok (), r) => r.snapshot_deserialize disk

end Deserialize

/-- The work of the second phase. -/
def mod_coordination (r : LoadReconstruction) (stored : FingerprintRegistry)
    (available : List ModFingerprint) : SaveResult (List ModFingerprint) × LoadReconstruction :=
  match r.tolerance_checker.check stored available with
  | .error e => (.error e, r)
  | .ok _ =>
    match r.tolerance_checker.final_mod_list stored available with
    | .error e => (.error e, r)
    | .ok final_mods =>
      (.ok final_mods, { r with lifecycle := r.lifecycle.set_final_mods final_mods })

def phase2_mod_coordination (r : LoadReconstruction) (stored : FingerprintRegistry)
    (available : List ModFingerprint) : SaveResult (List ModFingerprint) × LoadReconstruction :=
  match r.enter .ModCoordination with
  | (.error e, r) => (.error e, r)
  | (.ok (), r) => r.mod_coordination stored available

/-- The work of the third phase. -/
def schema_migration (r : LoadReconstruction) (manifest : SchemaManifest) :
    SaveResult MigratedSchemaManifest × LoadReconstruction :=
  let result :=
    match r.migration_pipeline with
    | some pipeline => pipeline.apply manifest
    | none => .ok (migrated_from_manifest manifest manifest.schema_version)
  match result with
  | .error e => (.error e, r)
  | .ok migrated =>
    (.ok migrated, { r with lifecycle := r.lifecycle.set_migrated_manifest migrated })

def phase3_schema_migration (r : LoadReconstruction) (manifest : SchemaManifest) :
    SaveResult MigratedSchemaManifest × LoadReconstruction :=
  match r.enter .SchemaMigration with
  | (.error e, r) => (.error e, r)
  | (.ok (), r) => r.schema_migration manifest

/-- The relation graph of a manifest, if it has no cycle. -/
def check_relations (relations : List RelationEdge) : SaveResult Unit :=
  match forEach RelationGraph.add_edge .new relations with
  | (.error e, _) => .error (.Schema e)
  | (.ok (), graph) =>
    let cycles := graph.detect_cycles
    if cycles.isEmpty then .ok ()
    else
      let cycle_desc := cycles.map " -> ".intercalate
      .error (.Schema (.CircularRelation ("; ".intercalate cycle_desc)))

/-- One round of the loop over the manifest's tables. -/
def load_table (s : LoadReconstruction × ArrowStore) (table : TableSpec) :
    SaveResult Unit × (LoadReconstruction × ArrowStore) :=
  match s.2.create_table table .AppendOnly with
  | (.error e, store) => (.error (.ArrowStore e), (s.1, store))
  | (.ok _, store) =>
    let (_, tier_registry) := s.1.tier_registry.register table.name .Authority "save_loader"
      s!"Loaded authority table: {table.name}"
    (.ok (), (s.1.with_tier_registry tier_registry, store))

/-- The work of the fourth phase. -/
def content_compilation (r : LoadReconstruction) (init_store : ArrowStore) :
    SaveResult Unit × (LoadReconstruction × ArrowStore) :=
  match r.lifecycle.migrated with
  | none => (.error (.Generic "migrated manifest not set"), (r, init_store))
  | some migrated =>
    match check_relations migrated.relations with
    | .error e => (.error e, (r, init_store))
    | .ok () => forEach load_table (r, init_store) migrated.tables

def phase4_content_compilation_entry (r : LoadReconstruction) (init_store : ArrowStore) :
    SaveResult Unit × (LoadReconstruction × ArrowStore) :=
  match r.enter .ContentCompilation with
  | (.error e, r) => (.error e, (r, init_store))
  | (.ok (), r) => r.content_compilation init_store

/-- The tables of the manifest that the tier registry does not have as Authority. -/
def non_authority_tables (r : LoadReconstruction) : SaveResult (List String) :=
  match r.lifecycle.migrated with
  | none => .error (.Generic "migrated manifest not set")
  | some migrated =>
    .ok ((migrated.tables.filter fun t => !r.tier_registry.is_authority t.name).map (·.name))

def derived_tables_need_rebuild (r : LoadReconstruction) : SaveResult (List String) :=
  r.non_authority_tables

def ephemeral_tables_needing_init (r : LoadReconstruction) : SaveResult (List String) :=
  r.non_authority_tables

def phase5_schema_freeze (r : LoadReconstruction) : SaveResult Unit × LoadReconstruction :=
  match r.enter .SchemaFreeze with
  | (.error e, r) => (.error e, r)
  | (.ok (), r) => (.ok (), { r with lifecycle := r.lifecycle.set_frozen true })

def phase6_simulation_start (r : LoadReconstruction) : SaveResult Unit × LoadReconstruction :=
  match r.enter .SimulationStart with
  | (.error e, r) => (.error e, r)
  | (.ok (), r) =>
    match r.lifecycle.finish with
    | (.error e, lifecycle) => (.error (.Content e), { r with lifecycle })
    | (.ok (), lifecycle) => (.ok (), { r with lifecycle })

/-! ## Replay -/

section Replay

variable {D : Type} [SaveDisk D] [JsonBytes SnapshotHeader]

/-- The hashes that the records carry, added to that of the snapshot. -/
def replay_diffs (r : LoadReconstruction) (disk : D) (base_tick : Tick)
    (records : List CommitRecord) : SaveResult UInt64 := do
  let snapshot ← r.persistence.read_snapshot disk base_tick
  let replayed := records.filter fun record => base_tick < record.tick
  return replayed.foldl (fun current_hash record => current_hash + record.state_hash)
    snapshot.header.state_hash

end Replay

def verify_state_hash (computed expected : UInt64) : SaveResult Unit :=
  if computed ≠ expected then .error (.StateHashMismatch expected computed) else .ok ()

end LoadReconstruction

end Scharnhorst
