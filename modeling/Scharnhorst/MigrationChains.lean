/-
Finding and applying a chain of schema migrations.

The registry keys each migration by the version it starts from, so the edges that the
search follows are chains of registered migrations, and what it finds is a shortest one. The
chain is applied to a manifest at the version that the search started from. Each migration
sets the version that it leads to after its function has run, whatever the function did to
the version, so the check before the next one passes.
-/
import Scharnhorst.MigrationPaths
import Scharnhorst.ShortestPaths

set_option autoImplicit false

namespace Scharnhorst

open Search Std

namespace MigrationRegistry

/-- The registries there are. -/
inductive Collected : MigrationRegistry → Prop
  | new : Collected .new
  | with_target_version {r : MigrationRegistry} (h : Collected r) (version : String) :
    Collected (r.with_target_version version)
  | register {r : MigrationRegistry} (h : Collected r) (migration : Migration) :
    Collected (r.register migration)

/-- Registered migrations, each of which starts at the version that the one before leads to. -/
inductive Chain (r : MigrationRegistry) : String → List Migration → String → Prop
  | nil (version : String) : Chain r version [] version
  | cons {migration : Migration} {path : List Migration} {version : String}
    (hregistered : migration ∈ r.migrations_from migration.from_version)
    (hrest : Chain r migration.to_version path version) :
    Chain r migration.from_version (migration :: path) version

variable {r : MigrationRegistry} {migration : Migration} {path : List Migration}
  {version target : String}

/-- Every migration is kept under the version that it starts from. -/
theorem Collected.keyed (h : Collected r) {version : String}
    (hmem : migration ∈ r.migrations_from version) : migration.from_version = version := by
  induction h with
  | new => simp [migrations_from, MigrationRegistry.new] at hmem
  | with_target_version _ _ ih => exact ih hmem
  | register _ other ih =>
      obtain hold | ⟨hversion, rfl⟩ := mem_migrations_from_register.1 hmem
      · exact ih hold
      · exact hversion

/-- Chains are the walks of the search. -/
theorem Collected.chain_iff (h : Collected r) :
    r.Chain version path target
      ↔ Walk r.migrations_from Migration.to_version version path target := by
  constructor
  · intro hchain
    induction hchain with
    | nil _ => rfl
    | cons hregistered _ ih => exact ⟨hregistered, ih⟩
  · intro hwalk
    induction path generalizing version with
    | nil =>
        obtain rfl := hwalk
        exact .nil version
    | cons migration path ih =>
        obtain ⟨hmem, hrest⟩ := hwalk
        obtain rfl := h.keyed hmem
        exact .cons hmem (ih hrest)

/-! ## The search -/

theorem Collected.found_iff_chain (h : Collected r) (version : String) :
    (r.find_migration_path version).isSome ↔ ∃ path, r.Chain version path r.target_version := by
  rw [find_migration_path_iff, Reaches]
  show Relation.ReflTransGen (Leads r.migrations_from Migration.to_version) _ _ ↔ _
  rw [reaches_iff_walk]
  exact exists_congr fun path => h.chain_iff.symm

/-- A chain that is found leads to the target, and none is shorter. -/
theorem Collected.shortest_chain (h : Collected r)
    (hfound : r.find_migration_path version = some path) :
    r.Chain version path r.target_version
      ∧ ∀ other, r.Chain version other r.target_version → path.length ≤ other.length := by
  rw [find_migration_path] at hfound
  by_cases htarget : version = r.target_version
  · rw [if_pos htarget] at hfound
    obtain rfl := Option.some.inj hfound
    rw [htarget]
    exact ⟨.nil _, fun other _ => Nat.zero_le _⟩
  · rw [if_neg htarget] at hfound
    obtain ⟨found, hloop⟩ := r.find_loop_ends version
    rw [hloop, Option.getD_some] at hfound
    subst hfound
    rw [find_loop_start] at hloop
    obtain ⟨hwalk, hleast⟩ := shortest_of_found hloop
    exact ⟨h.chain_iff.2 hwalk, fun other hother => hleast other (h.chain_iff.1 hother)⟩

/-! ## The chain applied -/

/-- The calls of `Migration::apply` as a path is applied to a manifest: each with the manifest
that the calls before have left. -/
inductive Called : SchemaManifest → List Migration → Migration → SchemaManifest → Prop
  | here {manifest : SchemaManifest} {migration : Migration} {path : List Migration} :
    Called manifest (migration :: path) migration manifest
  | later {manifest next input : SchemaManifest} {migration other : Migration}
    {path : List Migration} (happly : migration.apply manifest = (.ok (), next))
    (hcalled : Called next path other input) : Called manifest (migration :: path) other input

theorem Called.mem {manifest input : SchemaManifest} {called : Migration}
    (h : Called manifest path called input) : called ∈ path := by
  induction h with
  | here => exact List.mem_cons_self
  | later _ _ ih => exact List.mem_cons_of_mem _ ih

theorem Chain.registered (h : r.Chain version path target) (hmem : migration ∈ path) :
    migration ∈ r.migrations_from migration.from_version := by
  induction h with
  | nil _ => cases hmem
  | cons hregistered _ ih =>
      obtain rfl | hmem := List.mem_cons.1 hmem
      · exact hregistered
      · exact ih hmem

/-- At its version a migration succeeds if its function does. -/
theorem Migration.apply_at_version {manifest : SchemaManifest} {migration : Migration}
    (h : manifest.schema_version = migration.from_version) :
    (migration.apply manifest).1 = (migration.migration_fn manifest).1 := by
  rw [Migration.apply, if_neg (not_not.2 h)]
  rcases migration.migration_fn manifest with ⟨_ | ⟨⟩, next⟩ <;> rfl

/-- What a migration leaves is at the version that it leads to. -/
theorem version_of_apply {manifest next : SchemaManifest} {migration : Migration}
    (h : migration.apply manifest = (.ok (), next)) :
    next.schema_version = migration.to_version := by
  rw [Migration.apply] at h
  split at h
  · cases h
  · split at h
    · cases h
    · rw [← (Prod.mk.inj h).2]

/-- No call fails its check of the version. -/
theorem Chain.called_at_version {manifest input : SchemaManifest} {called : Migration}
    (h : r.Chain version path target) (hversion : manifest.schema_version = version)
    (hcalled : Called manifest path called input) :
    input.schema_version = called.from_version := by
  induction h generalizing manifest with
  | nil _ => cases hcalled
  | cons _ _ ih =>
      cases hcalled with
      | here => exact hversion
      | later happly hcalled => exact ih (version_of_apply happly) hcalled

/-- A chain whose functions succeed leads to its last version, and is recorded by name. -/
theorem Chain.apply_path_ok {manifest : SchemaManifest} (h : r.Chain version path target)
    (hversion : manifest.schema_version = version)
    (hok : ∀ called input, Called manifest path called input →
      (called.migration_fn input).1 = .ok ()) (applied : List String) :
    ∃ migrated, apply_path manifest applied path
        = .ok (migrated, applied ++ path.map Migration.name)
      ∧ migrated.schema_version = target := by
  induction h generalizing manifest applied with
  | nil _ => exact ⟨manifest, by rw [apply_path, List.map_nil, List.append_nil], hversion⟩
  | @cons migration path _ _ _ ih =>
      obtain ⟨next, hnext⟩ : ∃ next, migration.apply manifest = (.ok (), next) := by
        have hrun := hok migration manifest .here
        rw [← Migration.apply_at_version hversion] at hrun
        exact ⟨_, Prod.ext hrun rfl⟩
      obtain ⟨migrated, hpath, hend⟩ := ih (version_of_apply hnext)
        (fun called input hcalled => hok called input (.later hnext hcalled))
        (applied ++ [migration.name])
      refine ⟨migrated, ?_, hend⟩
      rw [apply_path, hnext]
      show apply_path next (applied ++ [migration.name]) path = _
      rw [hpath, List.append_assoc]
      rfl

/-- An error comes from the function of a migration that is called. -/
theorem Chain.apply_path_error {manifest : SchemaManifest} {e : SchemaError}
    {applied : List String} (h : r.Chain version path target)
    (hversion : manifest.schema_version = version)
    (herror : apply_path manifest applied path = .error e) :
    ∃ called input, Called manifest path called input
      ∧ (called.migration_fn input).1 = .error e := by
  induction h generalizing manifest applied with
  | nil _ => cases herror
  | @cons migration path _ _ _ ih =>
      rw [apply_path] at herror
      rcases happly : migration.apply manifest with ⟨e' | ⟨⟩, next⟩
      · rw [happly] at herror
        obtain rfl := Except.error.inj herror
        refine ⟨migration, manifest, .here, ?_⟩
        rw [← Migration.apply_at_version hversion, happly]
      · rw [happly] at herror
        obtain ⟨called, input, hcalled, hfn⟩ := ih (version_of_apply happly) herror
        exact ⟨called, input, .later happly hcalled, hfn⟩

theorem apply_migrations_eq {manifest : SchemaManifest}
    (hfound : r.find_migration_path manifest.schema_version = some path) :
    r.apply_migrations manifest = (apply_path manifest [] path).map fun end_state =>
      { MigratedSchemaManifest.new end_state.1 manifest.schema_version with
        applied_migrations := end_state.2 } := by
  rw [apply_migrations]
  by_cases htarget : manifest.schema_version = r.target_version
  · rw [find_migration_path, if_pos htarget] at hfound
    obtain rfl := Option.some.inj hfound
    rw [if_pos htarget]
    rfl
  · rw [if_neg htarget, hfound]
    dsimp only
    rcases apply_path manifest [] path with e | end_state <;> rfl

/-- The search ends, and finds a path exactly if there is a chain of migrations to the target. It
is a shortest chain. Applied to a manifest, no call of a migration fails its check of the version,
an error is that of a migration's function, and if the functions that are called succeed, the
manifest comes to the target with the names of the chain. -/
theorem migrations_reach_target (h : Collected r) (manifest : SchemaManifest) :
    (∃ found, r.find_loop r.fuel [(manifest.schema_version, [])] ∅ = some found)
    ∧ ((r.find_migration_path manifest.schema_version).isSome
      ↔ ∃ path, r.Chain manifest.schema_version path r.target_version)
    ∧ ∀ path, r.find_migration_path manifest.schema_version = some path →
      r.Chain manifest.schema_version path r.target_version
      ∧ (∀ other, r.Chain manifest.schema_version other r.target_version →
        path.length ≤ other.length)
      ∧ (∀ called input, Called manifest path called input →
        input.schema_version = called.from_version)
      ∧ (∀ e, r.apply_migrations manifest = .error e → ∃ called input,
        Called manifest path called input ∧ (called.migration_fn input).1 = .error e)
      ∧ ((∀ called input, Called manifest path called input →
          (called.migration_fn input).1 = .ok ()) →
        ∃ migrated, r.apply_migrations manifest = .ok migrated
          ∧ migrated.manifest.schema_version = r.target_version
          ∧ migrated.original_version = manifest.schema_version
          ∧ migrated.applied_migrations = path.map Migration.name) := by
  refine ⟨r.find_loop_ends _, h.found_iff_chain _, fun path hfound => ?_⟩
  obtain ⟨hchain, hleast⟩ := h.shortest_chain hfound
  refine ⟨hchain, hleast, fun called input => hchain.called_at_version rfl, fun e herror => ?_,
    fun hok => ?_⟩
  -- the search has found a path, so an error is one of the path
  · rw [apply_migrations_eq hfound] at herror
    rcases hpath : apply_path manifest [] path with e' | end_state
    · rw [hpath] at herror
      obtain rfl := Except.error.inj herror
      exact hchain.apply_path_error rfl hpath
    · rw [hpath] at herror
      cases herror
  · obtain ⟨migrated, hpath, hend⟩ := hchain.apply_path_ok rfl hok []
    rw [List.nil_append] at hpath
    rw [apply_migrations_eq hfound, hpath]
    exact ⟨_, rfl, hend, rfl, rfl⟩

/-! ## A function that changes the version -/

/-- The first of two migrations writes a version of its own. -/
def renamed_version : MigrationRegistry :=
  ((new.with_target_version "3").register
    { name := "1_2"
      from_version := "1"
      to_version := "2"
      migration_fn := fun manifest =>
        (.ok (), { manifest with schema_version := "two" }) }).register
    (no_change_migration "2" "3")

theorem renamed_version_succeeds {called : Migration} {version : String}
    (h : called ∈ renamed_version.migrations_from version) (input : SchemaManifest) :
    (called.migration_fn input).1 = .ok () := by
  obtain h | ⟨-, rfl⟩ := mem_migrations_from_register.1 h
  · obtain h | ⟨-, rfl⟩ := mem_migrations_from_register.1 h
    · simp [migrations_from, new, with_target_version] at h
    · rfl
  · rfl

/-- It does not get in the way of the second. -/
theorem renamed_version_migrated : ∃ migrated,
    renamed_version.apply_migrations (.new "1") = .ok migrated
      ∧ migrated.manifest.schema_version = "3" ∧ migrated.applied_migrations = ["1_2", "2_3"] := by
  have hcollected : Collected renamed_version :=
    .register (.register (.with_target_version .new _) _) _
  have hnames : (renamed_version.find_migration_path "1").map (List.map Migration.name)
      = some ["1_2", "2_3"] := by decide +kernel
  obtain ⟨path, hfound, hpath⟩ := Option.map_eq_some_iff.1 hnames
  obtain ⟨hchain, -, -, -, hok⟩ :=
    (migrations_reach_target hcollected (.new "1")).2.2 path hfound
  obtain ⟨migrated, happly, hversion, -, happlied⟩ := hok fun called input hcalled =>
    renamed_version_succeeds (hchain.registered (hcalled.mem)) input
  exact ⟨migrated, happly, hversion, happlied.trans hpath⟩

end MigrationRegistry

end Scharnhorst
