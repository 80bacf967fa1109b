/-
What a load checks and changes before it builds anything: the mods that the save was made
with against those on disk, and the version of its manifest.

A migration step is a function on table specs that may fail. The pipeline looks for the
first step that starts at the version reached so far, and gives up after one step more
than it has.
-/
import Scharnhorst.Snapshots

set_option autoImplicit false

namespace Scharnhorst

/-! ## Mods -/

structure FingerprintRegistry where
  fingerprints : List ModFingerprint
deriving DecidableEq

structure FingerprintComparison where
  missing : List ModFingerprint
  extra : List ModFingerprint
  mismatched : List (ModFingerprint × ModFingerprint)

namespace FingerprintRegistry

def len (r : FingerprintRegistry) : Nat := r.fingerprints.length

def compare (r : FingerprintRegistry) (available : List ModFingerprint) : FingerprintComparison :=
  let stored_ids := r.fingerprints.map (·.mod_id)
  let available_ids := available.map (·.mod_id)
  { missing := r.fingerprints.filter fun fp => !available_ids.contains fp.mod_id
    extra := available.filter fun fp => !stored_ids.contains fp.mod_id
    mismatched := r.fingerprints.filterMap fun stored =>
      (available.find? (·.mod_id = stored.mod_id)).bind fun avail =>
        if avail.content_hash ≠ stored.content_hash ∨ avail.version ≠ stored.version then
          some (stored, avail)
        else none }

end FingerprintRegistry

def FingerprintComparison.is_exact_match (c : FingerprintComparison) : Bool :=
  c.missing.isEmpty && c.extra.isEmpty && c.mismatched.isEmpty

inductive ModLoadOutcome where
  | ExactMatch
  | VersionMismatch (warnings : List String)
  | MissingMods (missing : List ModFingerprint) (degraded_tables : List String)
  | ExtraMods (extra : List ModFingerprint)
  | Degraded (warnings degraded_tables : List String)
deriving DecidableEq

inductive ModTolerancePolicy where
  | Strict
  | Warn
  | Silent
deriving DecidableEq

structure ModToleranceChecker where
  policy : ModTolerancePolicy
  critical_mods : Map String Unit
deriving DecidableEq

namespace ModToleranceChecker

def new (policy : ModTolerancePolicy) : ModToleranceChecker := { policy, critical_mods := ∅ }

def is_critical (c : ModToleranceChecker) (mod_id : String) : Bool :=
  c.critical_mods.contains mod_id

/-- The outcome under `Warn`. -/
def warn_outcome (comparison : FingerprintComparison) : ModLoadOutcome :=
  let warnings := comparison.mismatched.map fun (stored, avail) =>
    s!"mod {stored.mod_id} version mismatch: save={stored.version}, disk={avail.version}"
  let degraded_tables := comparison.missing.flatMap (·.table_specs)
  if comparison.is_exact_match && comparison.extra.isEmpty then .ExactMatch
  else if !comparison.mismatched.isEmpty && !comparison.missing.isEmpty
      && !comparison.extra.isEmpty then
    .Degraded warnings degraded_tables
  else if !comparison.mismatched.isEmpty then .VersionMismatch warnings
  else if !comparison.missing.isEmpty then .MissingMods comparison.missing degraded_tables
  else if !comparison.extra.isEmpty then .ExtraMods comparison.extra
  else .ExactMatch

def check (c : ModToleranceChecker) (stored : FingerprintRegistry)
    (available : List ModFingerprint) : SaveResult ModLoadOutcome :=
  let comparison := stored.compare available
  match comparison.missing.find? fun missing => c.is_critical missing.mod_id with
  | some missing => .error (.CriticalModMissing missing.mod_id)
  | none =>
    match c.policy with
    | .Strict =>
      if available.length ≠ stored.len then
        .error (.Generic
          s!"strict mode: mod count mismatch: stored={stored.len}, available={available.length}")
      else
        match comparison.missing, comparison.mismatched with
        -- a missing mod is reported before a mismatched one
        | missing :: _, _ =>
          .error (.Generic
            s!"strict mode: mod mismatch detected: mod '{missing.mod_id}' is missing from available mods")
        | [], (stored_fp, avail_fp) :: _ =>
          .error (.Generic
            s!"strict mode: mod mismatch detected: mod '{stored_fp.mod_id}' version/content differs (stored v{stored_fp.version} vs available v{avail_fp.version})")
        | [], [] => .ok .ExactMatch
    | .Silent => .ok .ExactMatch
    | .Warn => .ok (warn_outcome comparison)

def final_mod_list (_ : ModToleranceChecker) (stored : FingerprintRegistry)
    (available : List ModFingerprint) : SaveResult (List ModFingerprint) :=
  let result := stored.fingerprints.foldl (fun result fp =>
    if result.any (·.mod_id = fp.mod_id) then result else result ++ [fp]) available
  .ok (result.insertionSort fun a b => a.mod_id ≤ b.mod_id)

end ModToleranceChecker

/-! ## Versions -/

structure MigrationStep where
  from_version : String
  to_version : String
  migrate_table : TableSpec → SaveResult Unit × TableSpec

structure MigrationPipeline where
  steps : List MigrationStep
  target_version : String

namespace MigrationPipeline

/-- One step on every table. -/
def migrate_tables (next_step : MigrationStep) (tables : List TableSpec) :
    SaveResult (List TableSpec) :=
  tables.mapM fun table =>
    match next_step.migrate_table table with
    | (.error e, _) =>
      .error (.MigrationFailed next_step.from_version next_step.to_version e.to_string)
    | (.ok (), table) => .ok table

/-- `while current_version != self.target_version`, with the number of steps that may
still follow this one. -/
def apply_loop (p : MigrationPipeline) (manifest : SchemaManifest) :
    Nat → String → List TableSpec → SaveResult (List TableSpec)
  | left, current_version, tables =>
    if current_version = p.target_version then .ok tables
    else
      match p.steps.find? (·.from_version = current_version) with
      | none => .error (.NoMigrationPath current_version)
      | some next_step =>
        match migrate_tables next_step tables, left with
        | .error e, _ => .error e
        -- the step is taken before the count is looked at
        | .ok _, 0 =>
          .error (.MigrationFailed manifest.schema_version p.target_version
            "migration cycle detected")
        | .ok tables, left + 1 => p.apply_loop manifest left next_step.to_version tables

def apply (p : MigrationPipeline) (manifest : SchemaManifest) :
    SaveResult MigratedSchemaManifest := do
  let tables ← p.apply_loop manifest (p.steps.length + 1) manifest.schema_version manifest.tables
  let new_manifest := SchemaManifest.new p.target_version
  let new_manifest := tables.foldl SchemaManifest.with_table new_manifest
  let new_manifest := manifest.relations.foldl SchemaManifest.with_relation new_manifest
  return .new new_manifest manifest.schema_version

end MigrationPipeline

end Scharnhorst
