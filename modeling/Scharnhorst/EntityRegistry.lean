/-
Entities for rows.

`materialize` goes through the configurations and spawns an entity for each row that is wanted and
has none, in the order of the row ids. What is registered already is skipped and not looked at again,
and what a configuration may spawn is counted from zero in each call.
-/
import Mathlib.Data.List.AList
import Scharnhorst.Materialization
import Scharnhorst.Reads

set_option autoImplicit false

namespace Scharnhorst

/-! ## Entities -/

/-- An entity of the game engine. -/
structure Entity where
  index : Nat
  generation : Nat
deriving DecidableEq

/-- The component that ties an entity to a row. -/
structure ViewOf where
  row_id : RowId
  table_name : String
  generation : Nat
deriving DecidableEq

/-- The game engine, as far as `Commands` reach it: an entity that is spawned is none of those that
there are. -/
structure Commands (W : Type) where
  empty : W
  view_of : W → Entity → Option ViewOf
  spawn : W → ViewOf → Entity × W
  despawn : W → Entity → W
  view_of_empty : ∀ e, view_of empty e = none
  spawn_fresh : ∀ w v, view_of w (spawn w v).1 = none
  view_of_spawn : ∀ w v e,
    view_of (spawn w v).2 e = if e = (spawn w v).1 then some v else view_of w e
  view_of_despawn : ∀ w d e, view_of (despawn w d) e = if e = d then none else view_of w e

/-! ## The registry -/

structure MaterializationConfig where
  table : String
  filter : Option MaterializationFilter
  max_entities : Option Nat

/-- `BevyBridgeError`, as far as materialization raises it. -/
inductive MaterializationError where
  | QueryEngine (message : String)
  | SnapshotNotAvailable (generation : Nat)
  | EntityNotFound (index : Nat)
deriving DecidableEq

/-- The rows that have entities, in whatever order, and the configurations. -/
structure EntityMaterializationRegistry where
  inner : AList fun _ : String × RowId => Entity
  configs : List MaterializationConfig

namespace EntityMaterializationRegistry

def new : EntityMaterializationRegistry := { inner := ∅, configs := [] }

def register_config (r : EntityMaterializationRegistry) (config : MaterializationConfig) :
    EntityMaterializationRegistry :=
  { r with configs := r.configs ++ [config] }

def register (r : EntityMaterializationRegistry) (table_name : String) (row_id : RowId)
    (entity : Entity) : EntityMaterializationRegistry :=
  { r with inner := r.inner.insert (table_name, row_id) entity }

def lookup (r : EntityMaterializationRegistry) (table_name : String) (row_id : RowId) :
    Option Entity :=
  r.inner.lookup (table_name, row_id)

def unregister (r : EntityMaterializationRegistry) (table_name : String) (row_id : RowId) :
    EntityMaterializationRegistry :=
  { r with inner := r.inner.erase (table_name, row_id) }

end EntityMaterializationRegistry

/-- The ids of a view, sorted. -/
def TableReadView.row_ids (view : TableReadView) : List RowId := view.position_map.entries.keys

namespace MaterializationConfig

/-- `unwrap_or(usize::MAX)`. -/
def max (config : MaterializationConfig) : Nat := config.max_entities.getD u64_MAX

/-- Without a filter every row is wanted. -/
def wants (config : MaterializationConfig) (view : TableReadView) (row_id : RowId) : Bool :=
  match config.filter with
  | none => true
  | some filter => filter.admits view row_id

end MaterializationConfig

/-! ## Materialization -/

/-- The registry, and the entities. -/
structure Bridge (W : Type) where
  registry : EntityMaterializationRegistry
  world : W

namespace Bridge

variable {W : Type} (commands : Commands W)

/-- An entity for a row. -/
def spawn (b : Bridge W) (table : String) (row_id : RowId) (tick : Tick) : Entity × Bridge W :=
  let (entity, world) :=
    commands.spawn b.world { row_id, table_name := table, generation := tick }
  (entity, { registry := b.registry.register table row_id entity, world })

/-- The loop over the rows of a view. -/
def materialize_rows (config : MaterializationConfig) (view : TableReadView) (tick : Tick) :
    List RowId → Nat → Bridge W → List Entity → List Entity × Bridge W
  | [], _, b, spawned => (spawned, b)
  | row_id :: row_ids, spawned_count, b, spawned =>
    if config.max ≤ spawned_count then (spawned, b)
    else if !config.wants view row_id then
      materialize_rows config view tick row_ids spawned_count b spawned
    else if (b.registry.lookup config.table row_id).isSome then
      materialize_rows config view tick row_ids spawned_count b spawned
    else
      let (entity, b) := b.spawn commands config.table row_id tick
      materialize_rows config view tick row_ids (spawned_count + 1) b (spawned ++ [entity])

/-- The loop over the configurations. What was registered before an error stays. -/
def materialize_configs (q : QueryEngine) :
    List MaterializationConfig → Bridge W → List Entity →
      Except MaterializationError (List Entity) × Bridge W
  | [], b, spawned => (.ok spawned, b)
  | config :: configs, b, spawned =>
    match q.load_latest_tick with
    | none => (.error (.SnapshotNotAvailable 0), b)
    | some tick =>
      match q.read_single_table tick config.table with
      | .error e => (.error (.QueryEngine e.to_string), b)
      | .ok view =>
        let (spawned, b) := materialize_rows commands config view tick view.row_ids 0 b spawned
        materialize_configs q configs b spawned

def materialize (q : QueryEngine) (b : Bridge W) :
    Except MaterializationError (List Entity) × Bridge W :=
  materialize_configs commands q b.registry.configs b []

/-- The row of an entity is looked for among the entries. -/
def dematerialize (b : Bridge W) (entity : Entity) : Except MaterializationError Unit × Bridge W :=
  match b.registry.inner.entries.find? fun entry => entry.2 == entity with
  | none => (.error (.EntityNotFound entity.index), b)
  | some entry =>
    (.ok (), { registry := b.registry.unregister entry.1.1 entry.1.2
               world := commands.despawn b.world entity })

def dematerialize_all (b : Bridge W) : Bridge W :=
  { registry := { b.registry with inner := ∅ }
    world := (b.registry.inner.entries.map Sigma.snd).foldl commands.despawn b.world }

end Bridge

end Scharnhorst
