/-
The two planners of schema migrations.

The schema registry keeps its migrations by the version they start from, and searches them
breadth first for the target version. The save system's pipeline goes from version to
version by the first of its steps that starts there. Given the same steps, the first finds
a path whenever there is one; the second arrives only if its first steps lead there, and
fails at a version where the first step leads away although another would not.
-/
import Scharnhorst.Migration
import Scharnhorst.Search

set_option autoImplicit false

namespace Scharnhorst

open Relation Search Std

/-! ## Migrations of the schema registry -/

structure Migration where
  name : String
  from_version : String
  to_version : String
  migration_fn : SchemaManifest → Except SchemaError Unit × SchemaManifest

/-- Of a manifest at the version that the migration starts from. -/
def Migration.apply (m : Migration) (manifest : SchemaManifest) :
    Except SchemaError Unit × SchemaManifest :=
  if manifest.schema_version ≠ m.from_version then
    (.error (.MigrationVersionMismatch m.from_version manifest.schema_version), manifest)
  else
    match m.migration_fn manifest with
    | (.error e, manifest) => (.error e, manifest)
    | (.ok (), manifest) => (.ok (), { manifest with schema_version := m.to_version })

structure MigrationRegistry where
  /-- From a version to the migrations that start there, in the order of registration. -/
  migrations : Map String (List Migration)
  target_version : String

namespace MigrationRegistry

def new : MigrationRegistry := { migrations := ∅, target_version := "" }

def with_target_version (r : MigrationRegistry) (version : String) : MigrationRegistry :=
  { r with target_version := version }

def migrations_from (r : MigrationRegistry) (version : String) : List Migration :=
  r.migrations.getD version []

def register (r : MigrationRegistry) (migration : Migration) : MigrationRegistry :=
  { r with
    migrations := r.migrations.insert migration.from_version
      (r.migrations_from migration.from_version ++ [migration]) }

/-- `while let Some((current_version, path)) = queue.pop_front()`. Without an outcome the
fuel has run out. -/
def find_loop (r : MigrationRegistry) :
    Nat → List (String × List Migration) → Map String Unit → Option (Option (List Migration))
  | 0, _, _ => none
  | _ + 1, [], _ => some none
  | fuel + 1, (current_version, path) :: queue, visited =>
    if current_version = r.target_version then some (some path)
    else if visited.contains current_version then r.find_loop fuel queue visited
    else
      r.find_loop fuel
        (queue ++ (r.migrations_from current_version).map fun migration =>
          (migration.to_version, path ++ [migration]))
        (visited.insert current_version ())

/-- Each migration is queued once at most, besides the version to start from. -/
def fuel (r : MigrationRegistry) : Nat :=
  (r.migrations.keys.map fun version => (r.migrations_from version).length).sum + 2

def find_migration_path (r : MigrationRegistry) (from_version : String) : Option (List Migration) :=
  if from_version = r.target_version then some []
  else (r.find_loop r.fuel [(from_version, [])] ∅).getD none

/-- `for migration in path`. -/
def apply_path : SchemaManifest → List String → List Migration →
    Except SchemaError (SchemaManifest × List String)
  | manifest, applied, [] => .ok (manifest, applied)
  | manifest, applied, migration :: path =>
    match migration.apply manifest with
    | (.error e, _) => .error e
    | (.ok (), manifest) => apply_path manifest (applied ++ [migration.name]) path

def apply_migrations (r : MigrationRegistry) (manifest : SchemaManifest) :
    Except SchemaError MigratedSchemaManifest :=
  let original_version := manifest.schema_version
  if original_version = r.target_version then .ok (.new manifest original_version)
  else
    match r.find_migration_path original_version with
    | none => .error (.NoMigrationPath original_version r.target_version)
    | some path => do
      let (manifest, applied) ← apply_path manifest [] path
      return { MigratedSchemaManifest.new manifest original_version with
               applied_migrations := applied }

/-! ## The search -/

variable {r : MigrationRegistry}

/-- A migration leads from one version to the other. -/
def Reaches (r : MigrationRegistry) : String → String → Prop :=
  ReflTransGen fun a b => ∃ migration ∈ r.migrations_from a, migration.to_version = b

/-- It is a breadth-first search. -/
theorem find_loop_eq {visited : Map String Unit} {seen : List String}
    (h : ∀ version, visited.contains version = true ↔ version ∈ seen) (fuel : Nat)
    (queue : List (String × List Migration)) :
    r.find_loop fuel queue visited
      = breadth_first r.migrations_from Migration.to_version r.target_version fuel queue seen := by
  induction fuel generalizing queue visited seen with
  | zero => rfl
  | succ fuel ih =>
      rcases queue with _ | ⟨⟨current, path⟩, queue⟩
      · rfl
      · have hinsert : ∀ version, (visited.insert current ()).contains version = true
            ↔ version ∈ current :: seen := by
          intro version
          rw [ExtTreeMap.contains_iff_mem, Maps.mem_insert_iff, List.mem_cons, ← h version,
            ExtTreeMap.contains_iff_mem]
        rw [find_loop, breadth_first, ih h, ih hinsert]
        simp only [h current]

theorem find_loop_start (r : MigrationRegistry) (version : String) (fuel : Nat) :
    r.find_loop fuel [(version, [])] ∅
      = breadth_first r.migrations_from Migration.to_version r.target_version fuel [(version, [])] [] := by
  have hstart : ∀ seen, (∅ : Map String Unit).contains seen = true ↔ seen ∈ ([] : List String) := by
    simp
  exact find_loop_eq hstart fuel _

/-- The search comes to an end. -/
theorem find_loop_ends (r : MigrationRegistry) (version : String) :
    ∃ found, r.find_loop r.fuel [(version, [])] ∅ = some found := by
  have hkeys : ∀ v, r.migrations_from v ≠ [] → v ∈ r.migrations.keys := by
    intro v hv
    rw [ExtTreeMap.mem_keys]
    by_contra hnone
    refine hv ?_
    rw [migrations_from, ExtTreeMap.getD_eq_fallback hnone]
  rw [find_loop_start, ← Option.isSome_iff_exists]
  refine breadth_first_ends hkeys ?_
  simp only [remaining, fuel, List.length_cons, List.length_nil, List.not_mem_nil, if_false]
  omega

/-- There is a path exactly if some chain of migrations leads to the target. -/
theorem find_migration_path_iff (r : MigrationRegistry) (version : String) :
    (r.find_migration_path version).isSome ↔ r.Reaches version r.target_version := by
  rw [find_migration_path]
  by_cases htarget : version = r.target_version
  · rw [if_pos htarget, htarget]
    exact iff_of_true rfl .refl
  · obtain ⟨found, hfound⟩ := r.find_loop_ends version
    rw [if_neg htarget, hfound, Option.getD_some]
    rw [find_loop_start] at hfound
    exact found_iff hfound

end MigrationRegistry

/-! ## The pipeline -/

namespace MigrationPipeline

def new (target_version : String) : MigrationPipeline := { steps := [], target_version }

def register (p : MigrationPipeline) (step : MigrationStep) : MigrationPipeline :=
  { p with steps := p.steps ++ [step] }

variable {p : MigrationPipeline} {manifest : SchemaManifest}

/-- The version that the first step from a version leads to. -/
def first_step (p : MigrationPipeline) (version : String) : Option String :=
  (p.steps.find? (·.from_version = version)).map MigrationStep.to_version

/-- The chain of first steps leads from one version to the other. -/
def Follows (p : MigrationPipeline) : String → String → Prop :=
  ReflTransGen fun a b => p.first_step a = some b

/-- Some chain of steps leads from one version to the other. -/
def Reaches (p : MigrationPipeline) : String → String → Prop :=
  ReflTransGen fun a b => ∃ step ∈ p.steps, step.from_version = a ∧ step.to_version = b

/-- No step function fails. -/
def AlwaysSucceeds (p : MigrationPipeline) : Prop :=
  ∀ step ∈ p.steps, ∀ table, ∃ table', step.migrate_table table = (.ok (), table')

theorem Follows.reaches {a b : String} (h : p.Follows a b) : p.Reaches a b := by
  refine ReflTransGen.mono ?_ a b h
  intro x y hstep
  obtain ⟨step, hfound, rfl⟩ := Option.map_eq_some_iff.1 hstep
  have hversion := List.find?_some hfound
  exact ⟨step, List.mem_of_find?_eq_some hfound, of_decide_eq_true hversion, rfl⟩

theorem migrate_tables_ok (hok : p.AlwaysSucceeds) {step : MigrationStep} (hstep : step ∈ p.steps)
    (tables : List TableSpec) : ∃ tables', migrate_tables step tables = .ok tables' := by
  rcases hmigrated : migrate_tables step tables with e | tables'
  · obtain ⟨table, -, herror⟩ := Attempt.mapM_error hmigrated
    obtain ⟨table', htable⟩ := hok step hstep table
    rw [htable] at herror
    cases herror
  · exact ⟨tables', rfl⟩

/-- It is a walk along the first steps. -/
theorem apply_loop_ok_iff (hok : p.AlwaysSucceeds) {left : Nat} {version : String}
    {tables : List TableSpec} :
    (∃ tables', p.apply_loop manifest left version tables = .ok tables')
      ↔ follow p.first_step p.target_version left version = true := by
  induction left generalizing version tables with
  | zero =>
      rw [apply_loop, follow, decide_eq_true_eq]
      by_cases htarget : version = p.target_version
      · rw [if_pos htarget]
        exact iff_of_true ⟨tables, rfl⟩ htarget
      · rw [if_neg htarget]
        refine iff_of_false ?_ htarget
        rcases hfound : p.steps.find? (·.from_version = version) with _ | step
        · simp [hfound]
        · rcases hmigrated : migrate_tables step tables with e | tables' <;> simp [hfound, hmigrated]
  | succ left ih =>
      rw [apply_loop, follow]
      by_cases htarget : version = p.target_version
      · rw [if_pos htarget, if_pos htarget]
        exact iff_of_true ⟨tables, rfl⟩ rfl
      · rw [if_neg htarget, if_neg htarget, first_step]
        rcases hfound : p.steps.find? (·.from_version = version) with _ | step
        · simp [hfound]
        · obtain ⟨tables', hmigrated⟩ :=
            migrate_tables_ok hok (List.mem_of_find?_eq_some hfound) tables
          simp only [hfound, hmigrated, Option.map_some]
          exact ih

theorem apply_ok_iff (hok : p.AlwaysSucceeds) :
    (∃ migrated, p.apply manifest = .ok migrated)
      ↔ p.Follows manifest.schema_version p.target_version := by
  have hsources : ∀ version, p.first_step version ≠ none →
      version ∈ p.steps.map MigrationStep.from_version := by
    intro version hsome
    obtain ⟨next, hnext⟩ := Option.ne_none_iff_exists'.1 hsome
    obtain ⟨step, hfound, -⟩ := Option.map_eq_some_iff.1 hnext
    have hversion := List.find?_some hfound
    exact List.mem_map.2 ⟨step, List.mem_of_find?_eq_some hfound, of_decide_eq_true hversion⟩
  have hcount : (p.steps.map MigrationStep.from_version).length ≤ p.steps.length + 1 := by
    rw [List.length_map]
    omega
  rw [Follows, ← follow_iff hsources hcount, ← apply_loop_ok_iff hok]
  rw [apply]
  rcases p.apply_loop manifest (p.steps.length + 1) manifest.schema_version manifest.tables with e | tables
  · simp [bind, Except.bind]
  · simp [bind, Except.bind, pure, Except.pure]

end MigrationPipeline

/-! ## The same steps -/

/-- The planners know the same steps, and have the same target. -/
structure SameSteps (p : MigrationPipeline) (r : MigrationRegistry) : Prop where
  target_version : p.target_version = r.target_version
  steps : ∀ a b, (∃ step ∈ p.steps, step.from_version = a ∧ step.to_version = b)
    ↔ ∃ migration ∈ r.migrations_from a, migration.to_version = b

theorem MigrationRegistry.mem_migrations_from_register {r : MigrationRegistry}
    {migration other : Migration} {version : String} :
    other ∈ (r.register migration).migrations_from version
      ↔ other ∈ r.migrations_from version ∨ migration.from_version = version ∧ other = migration := by
  simp only [migrations_from, register, ExtTreeMap.getD_insert, LawfulEqCmp.compare_eq_iff_eq]
  by_cases hversion : migration.from_version = version
  · subst hversion
    simp
  · simp [hversion]

theorem SameSteps.new (target_version : String) :
    SameSteps (.new target_version) (MigrationRegistry.new.with_target_version target_version) where
  target_version := rfl
  steps a b := by
    simp [MigrationPipeline.new, MigrationRegistry.migrations_from, MigrationRegistry.with_target_version,
      MigrationRegistry.new]

/-- Registering a step with both keeps what they know the same. -/
theorem SameSteps.register {p : MigrationPipeline} {r : MigrationRegistry} (h : SameSteps p r)
    {step : MigrationStep} {migration : Migration} (hfrom : step.from_version = migration.from_version)
    (hto : step.to_version = migration.to_version) :
    SameSteps (p.register step) (r.register migration) where
  target_version := h.target_version
  steps a b := by
    have hold := h.steps a b
    constructor
    · rintro ⟨other, hother, hother_from, hother_to⟩
      rcases List.mem_append.1 hother with hin | hlast
      · obtain ⟨found, hfound, htarget⟩ := hold.1 ⟨other, hin, hother_from, hother_to⟩
        exact ⟨found, MigrationRegistry.mem_migrations_from_register.2 (.inl hfound), htarget⟩
      · obtain rfl := List.mem_singleton.1 hlast
        exact ⟨migration, MigrationRegistry.mem_migrations_from_register.2
          (.inr ⟨hfrom.symm.trans hother_from, rfl⟩), hto.symm.trans hother_to⟩
    · rintro ⟨found, hfound, htarget⟩
      rcases MigrationRegistry.mem_migrations_from_register.1 hfound with hin | ⟨hversion, rfl⟩
      · obtain ⟨other, hother, hversions⟩ := hold.2 ⟨found, hin, htarget⟩
        exact ⟨other, List.mem_append_left _ hother, hversions⟩
      · exact ⟨step, List.mem_append_right _ (List.mem_singleton.2 rfl), hfrom.trans hversion,
          hto.trans htarget⟩

/-- The pipeline succeeds exactly if the registry finds a path, which is exactly if some
chain of steps leads to the target. -/
def PlannersAgree (p : MigrationPipeline) (r : MigrationRegistry) (manifest : SchemaManifest) : Prop :=
  ((∃ migrated, p.apply manifest = .ok migrated)
      ↔ (r.find_migration_path manifest.schema_version).isSome)
    ∧ ((r.find_migration_path manifest.schema_version).isSome
      ↔ p.Reaches manifest.schema_version p.target_version)

/-- The planners agree exactly if the target cannot be reached, or the first steps lead
there. Both come to an end in any case. -/
theorem planners_agree_iff {p : MigrationPipeline} {r : MigrationRegistry} (hsame : SameSteps p r)
    (hok : p.AlwaysSucceeds) (manifest : SchemaManifest) :
    (∃ found, r.find_loop r.fuel [(manifest.schema_version, [])] ∅ = some found)
      ∧ (PlannersAgree p r manifest
        ↔ (p.Reaches manifest.schema_version p.target_version →
          p.Follows manifest.schema_version p.target_version)) := by
  refine ⟨r.find_loop_ends _, ?_⟩
  have hreaches : p.Reaches = r.Reaches := by
    have hsteps : (fun a b => ∃ step ∈ p.steps, step.from_version = a ∧ step.to_version = b)
        = fun a b => ∃ migration ∈ r.migrations_from a, migration.to_version = b := by
      funext a b
      exact propext (hsame.steps a b)
    rw [MigrationPipeline.Reaches, hsteps]
    rfl
  have hpath := r.find_migration_path_iff manifest.schema_version
  rw [← hsame.target_version, ← hreaches] at hpath
  rw [PlannersAgree, hpath, MigrationPipeline.apply_ok_iff hok]
  constructor
  · rintro ⟨hagree, -⟩
    exact hagree.2
  · intro hfollows
    exact ⟨⟨MigrationPipeline.Follows.reaches, hfollows⟩, Iff.rfl⟩

end Scharnhorst

/-! ## A dead end -/

namespace Scharnhorst

def no_change (version_from version_to : String) : MigrationStep :=
  { from_version := version_from, to_version := version_to, migrate_table := fun table => (.ok (), table) }

def no_change_migration (version_from version_to : String) : Migration :=
  { name := version_from ++ "_" ++ version_to, from_version := version_from, to_version := version_to
    migration_fn := fun manifest => (.ok (), manifest) }

/-- The first step from "1" leads to "2", and nothing leads on from there. -/
def dead_end : MigrationPipeline :=
  ((MigrationPipeline.new "3").register (no_change "1" "2")).register (no_change "1" "3")

def dead_end_registry : MigrationRegistry :=
  ((MigrationRegistry.new.with_target_version "3").register (no_change_migration "1" "2")).register
    (no_change_migration "1" "3")

/-- The registry goes from "1" to "3" in one step. The pipeline finds no path from "2". -/
theorem pipeline_runs_into_dead_end :
    (dead_end_registry.find_migration_path "1").map (List.map Migration.name) = some ["1_3"]
      ∧ dead_end.apply (.new "1") = .error (.NoMigrationPath "2")
      ∧ ¬ PlannersAgree dead_end dead_end_registry (.new "1") := by
  have hfound : (dead_end_registry.find_migration_path "1").map (List.map Migration.name)
      = some ["1_3"] := by decide +kernel
  have hfails : dead_end.apply (.new "1") = .error (.NoMigrationPath "2") := by decide +kernel
  refine ⟨hfound, hfails, fun h => ?_⟩
  have hsome : (dead_end_registry.find_migration_path "1").isSome := by
    rw [← Option.isSome_map, hfound]
    rfl
  obtain ⟨migrated, happly⟩ := h.1.2 hsome
  rw [hfails] at happly
  cases happly

/-- From "2" neither gets to "3", and with that they agree. -/
theorem planners_agree_at_dead_end : PlannersAgree dead_end dead_end_registry (.new "2") := by
  have hsame : SameSteps dead_end dead_end_registry :=
    ((SameSteps.new "3").register rfl rfl).register rfl rfl
  have hok : dead_end.AlwaysSucceeds := by
    intro step hstep table
    have hcases : step = no_change "1" "2" ∨ step = no_change "1" "3" := by
      simpa [dead_end, MigrationPipeline.register, MigrationPipeline.new] using hstep
    rcases hcases with rfl | rfl <;> exact ⟨table, rfl⟩
  refine (planners_agree_iff hsame hok _).2.2 fun hreaches => ?_
  rcases Relation.ReflTransGen.cases_head hreaches with hsame | ⟨next, ⟨step, hstep, hversion, -⟩, -⟩
  · exact absurd hsame (by decide)
  · have hcases : step = no_change "1" "2" ∨ step = no_change "1" "3" := by
      simpa [dead_end, MigrationPipeline.register, MigrationPipeline.new] using hstep
    rcases hcases with rfl | rfl <;> exact absurd hversion (by decide)

end Scharnhorst
