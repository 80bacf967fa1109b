/-
Dirty entities, and the call that synchronizes them.

`sync_all` reads the table of every dirty entity that is registered, goes on past reads that fail, and
clears all marks in the end. So a mark lasts until the next call whatever comes of it, and what fails
is told in the error.
-/
import Mathlib.Data.List.Infix
import Scharnhorst.EntityRegistry

set_option autoImplicit false

namespace Scharnhorst

/-! ## The view model -/

/-- `BevyBridgeError`, as far as a synchronization raises it. -/
inductive SyncError where
  | QueryEngine (message : String)
  | SnapshotNotAvailable (tick : Nat)
  | SyncFailed (message : String)
deriving DecidableEq

def SyncError.to_string : SyncError → String
  | QueryEngine message => s!"query engine error: {message}"
  | SnapshotNotAvailable tick => s!"snapshot not available for tick {tick}"
  | SyncFailed message => s!"sync failed: {message}"

structure ViewModel where
  snapshot : Option WorldView
  latest_tick : Option Tick
  generation : Nat

namespace ViewModel

def new : ViewModel := { snapshot := none, latest_tick := none, generation := 0 }

def refresh (snapshot : WorldView) (generation : Nat) : ViewModel :=
  { snapshot := some snapshot, latest_tick := some snapshot.tick, generation }

/-- A table that the response does not have is read as none. -/
def read_table_via_query_engine (view_model : ViewModel) (q : QueryEngine) (table_name : String) :
    Except SyncError (Option TableReadView) :=
  match view_model.latest_tick with
  | none => .error (.SnapshotNotAvailable 0)
  | some tick =>
    match q.read { tick, table_names := [table_name] } with
    | .error e => .error (.QueryEngine e.to_string)
    | .ok response => .ok (response.get table_name).toOption

end ViewModel

/-! ## The state -/

structure SyncEntry where
  table : String
  generation : Nat
  last_sync_tick : Tick

structure SyncState where
  view_models : AList fun _ : Entity => SyncEntry
  dirty_entities : List Entity
  dirty_nodup : dirty_entities.Nodup

/-- The order in which the set of dirty entities gives them. -/
structure EntityOrder where
  list : List Entity → List Entity
  perm : ∀ entities, (list entities).Perm entities

namespace SyncState

def new : SyncState :=
  { view_models := ∅, dirty_entities := [], dirty_nodup := List.nodup_nil }

def register_entity (s : SyncState) (entity : Entity) (table : String) (generation : Nat)
    (last_sync_tick : Tick) : SyncState :=
  { s with view_models := s.view_models.insert entity { table, generation, last_sync_tick } }

def unregister_entity (s : SyncState) (entity : Entity) : SyncState :=
  { view_models := s.view_models.erase entity
    dirty_entities := s.dirty_entities.erase entity
    dirty_nodup := s.dirty_nodup.erase entity }

/-- Whether the entity is registered does not matter. -/
def mark_dirty (s : SyncState) (entity : Entity) : SyncState :=
  { s with
    dirty_entities := s.dirty_entities.insert entity
    dirty_nodup := s.dirty_nodup.insert }

def mark_all_dirty (s : SyncState) : SyncState :=
  { s with
    dirty_entities := s.view_models.keys ∪ s.dirty_entities
    dirty_nodup := s.dirty_nodup.union _ }

def clear_dirty (s : SyncState) : SyncState :=
  { s with dirty_entities := [], dirty_nodup := List.nodup_nil }

/-- One round of the loop of `sync_all`: the number of reads that succeeded, and the errors. -/
def sync_entity (s : SyncState) (view_model : ViewModel) (q : QueryEngine)
    (done : Nat × List String) (entity : Entity) : Nat × List String :=
  match s.view_models.lookup entity with
  | none => done
  | some entry =>
    match view_model.read_table_via_query_engine q entry.table with
    | .ok _ => (saturating_add done.1 1, done.2)
    | .error e => (done.1, done.2 ++ [e.to_string])

def sync_all (order : EntityOrder) (s : SyncState) (view_model : ViewModel) (q : QueryEngine) :
    Except SyncError Nat × SyncState :=
  let (synced, errors) :=
    (order.list s.dirty_entities).foldl (s.sync_entity view_model q) (0, [])
  if errors.isEmpty then (.ok synced, s.clear_dirty)
  else (.error (.SyncFailed ("; ".intercalate errors)), s.clear_dirty)

end SyncState

inductive SyncOp where
  | RegisterEntity (entity : Entity) (table : String) (generation : Nat) (last_sync_tick : Tick)
  | UnregisterEntity (entity : Entity)
  | MarkDirty (entity : Entity)
  | MarkAllDirty
  | SyncAll (view_model : ViewModel) (q : QueryEngine)

namespace SyncOp

def step (order : EntityOrder) (s : SyncState) : SyncOp → SyncState
  | RegisterEntity entity table generation tick => s.register_entity entity table generation tick
  | UnregisterEntity entity => s.unregister_entity entity
  | MarkDirty entity => s.mark_dirty entity
  | MarkAllDirty => s.mark_all_dirty
  | SyncAll view_model q => (s.sync_all order view_model q).2

def run (order : EntityOrder) (ops : List SyncOp) : SyncState := ops.foldl (step order) .new

/-- What ends the mark of an entity. -/
def Ends (entity : Entity) : SyncOp → Prop
  | SyncAll _ _ => True
  | UnregisterEntity other => other = entity
  | _ => False

end SyncOp

namespace SyncState

variable {order : EntityOrder} {s : SyncState} {view_model : ViewModel} {q : QueryEngine}

/-! ## One synchronization -/

/-- The entity is registered, and its table can be read. -/
def reads (s : SyncState) (view_model : ViewModel) (q : QueryEngine) (entity : Entity) : Bool :=
  match s.view_models.lookup entity with
  | none => false
  | some entry => (view_model.read_table_via_query_engine q entry.table).isOk

/-- What is told about a registered entity whose table cannot be read. -/
def failure (s : SyncState) (view_model : ViewModel) (q : QueryEngine) (entity : Entity) :
    Option String :=
  match s.view_models.lookup entity with
  | none => none
  | some entry =>
    match view_model.read_table_via_query_engine q entry.table with
    | .ok _ => none
    | .error e => some e.to_string

theorem sync_entity_eq {done : Nat × List String} {entity : Entity}
    (h : done.1 + (s.reads view_model q entity).toNat ≤ u64_MAX) :
    s.sync_entity view_model q done entity
      = (done.1 + (s.reads view_model q entity).toNat,
        done.2 ++ (s.failure view_model q entity).toList) := by
  unfold reads at h ⊢
  unfold sync_entity failure
  rcases hentry : s.view_models.lookup entity with _ | entry
  -- it is no longer registered
  · simp only [Bool.toNat_false, Nat.add_zero, Option.toList_none, List.append_nil]
  · rcases hread : view_model.read_table_via_query_engine q entry.table with e | view
    · simp only [hread, Except.isOk, Except.toBool, Bool.toNat_false, Nat.add_zero,
        Option.toList_some]
    · simp only [hentry, hread, Except.isOk, Except.toBool, Bool.toNat_true] at h
      simp only [hread, Except.isOk, Except.toBool, Bool.toNat_true, Option.toList_none,
        List.append_nil]
      rw [saturating_add, Nat.min_eq_left h]

/-- The loop counts the reads that succeed and tells of the others. -/
theorem sync_entities (entities : List Entity) (done : Nat × List String)
    (h : done.1 + entities.countP (s.reads view_model q) ≤ u64_MAX) :
    entities.foldl (s.sync_entity view_model q) done
      = (done.1 + entities.countP (s.reads view_model q),
        done.2 ++ entities.filterMap (s.failure view_model q)) := by
  induction entities generalizing done with
  | nil => simp
  | cons entity entities ih =>
    have hcount : (entity :: entities).countP (s.reads view_model q)
        = (s.reads view_model q entity).toNat + entities.countP (s.reads view_model q) := by
      rw [List.countP_cons, Nat.add_comm]
      cases s.reads view_model q entity <;> rfl
    have hfailures : (entity :: entities).filterMap (s.failure view_model q)
        = (s.failure view_model q entity).toList
          ++ entities.filterMap (s.failure view_model q) := by
      rcases hfailure : s.failure view_model q entity with _ | message
      · rw [List.filterMap_cons_none hfailure, Option.toList_none, List.nil_append]
      · rw [List.filterMap_cons_some hfailure, Option.toList_some, List.singleton_append]
    rw [hcount] at h ⊢
    rw [List.foldl_cons, sync_entity_eq (by omega), ih _ (by rwa [Nat.add_assoc]), hfailures,
      List.append_assoc, Nat.add_assoc]

theorem sync_all_state : (s.sync_all order view_model q).2 = s.clear_dirty := by
  unfold sync_all
  rcases (order.list s.dirty_entities).foldl (s.sync_entity view_model q) (0, [])
    with ⟨synced, errors⟩
  by_cases hnone : errors.isEmpty
  · simp only [hnone, if_true]
  · simp only [hnone]
    rfl

/-- The number of reads that succeeded, unless one failed. -/
theorem sync_all_eq_ok (h : s.dirty_entities.length ≤ u64_MAX) {n : Nat} :
    (s.sync_all order view_model q).1 = .ok n
      ↔ (∀ entity ∈ s.dirty_entities, s.failure view_model q entity = none)
        ∧ n = s.dirty_entities.countP (s.reads view_model q) := by
  have hperm := order.perm s.dirty_entities
  have hcount : (order.list s.dirty_entities).countP (s.reads view_model q)
      = s.dirty_entities.countP (s.reads view_model q) := hperm.countP_eq _
  have hfew : 0 + (order.list s.dirty_entities).countP (s.reads view_model q) ≤ u64_MAX := by
    rw [Nat.zero_add, hcount]
    exact List.countP_le_length.trans h
  have hfailures : (order.list s.dirty_entities).filterMap (s.failure view_model q) = []
      ↔ ∀ entity ∈ s.dirty_entities, s.failure view_model q entity = none := by
    rw [List.filterMap_eq_nil_iff]
    exact forall_congr' fun entity => by rw [hperm.mem_iff]
  unfold sync_all
  rw [sync_entities _ _ hfew, ← hfailures, Nat.zero_add, List.nil_append, hcount]
  by_cases hnone : (order.list s.dirty_entities).filterMap (s.failure view_model q) = []
  · simp [hnone, eq_comm]
  · simp [hnone]

theorem failure_eq_none {entity : Entity} : s.failure view_model q entity = none
    ↔ entity ∈ s.view_models → s.reads view_model q entity = true := by
  unfold failure reads
  rw [← AList.lookup_isSome]
  rcases s.view_models.lookup entity with _ | entry
  · simp
  · rcases hread : view_model.read_table_via_query_engine q entry.table with e | view
    · simp [hread, Except.isOk, Except.toBool]
    · simp [hread, Except.isOk, Except.toBool]

end SyncState

/-! ## Runs -/

namespace SyncOp

variable {order : EntityOrder} {s : SyncState} {ops : List SyncOp} {entity : Entity}

theorem run_append (pre later : List SyncOp) :
    run order (pre ++ later) = later.foldl (step order) (run order pre) :=
  List.foldl_append

theorem step_keeps {op : SyncOp} (h : entity ∈ s.dirty_entities) (hop : ¬ op.Ends entity) :
    entity ∈ (step order s op).dirty_entities := by
  rcases op with _ | other | other | _ | ⟨view_model, q⟩
  · exact h
  · exact (List.mem_erase_of_ne fun heq => hop heq.symm).mpr h
  · exact List.mem_insert_of_mem h
  · exact List.mem_union_right _ h
  · exact absurd trivial hop

theorem steps_keep {later : List SyncOp} (h : entity ∈ s.dirty_entities)
    (hlater : ∀ op ∈ later, ¬ op.Ends entity) :
    entity ∈ (later.foldl (step order) s).dirty_entities := by
  induction later generalizing s with
  | nil => exact h
  | cons op later ih =>
    exact ih (step_keeps h (hlater op List.mem_cons_self)) fun other hother =>
      hlater other (List.mem_cons_of_mem op hother)

/-- What becomes of the marks in a run. -/
structure KeepsMarks (order : EntityOrder) (ops : List SyncOp) : Prop where
  marked : ∀ pre entity, pre ++ [.MarkDirty entity] <+: ops →
    entity ∈ (run order (pre ++ [.MarkDirty entity])).dirty_entities
  all_marked : ∀ pre entity, pre ++ [.MarkAllDirty] <+: ops →
    entity ∈ (run order pre).view_models →
      entity ∈ (run order (pre ++ [.MarkAllDirty])).dirty_entities
  kept : ∀ pre later, pre ++ later <+: ops → ∀ entity ∈ (run order pre).dirty_entities,
    (∀ op ∈ later, ¬ op.Ends entity) → entity ∈ (run order (pre ++ later)).dirty_entities
  cleared : ∀ pre view_model q, pre ++ [.SyncAll view_model q] <+: ops →
    (run order (pre ++ [.SyncAll view_model q])).dirty_entities = []
  counted : ∀ pre view_model q n, pre ++ [.SyncAll view_model q] <+: ops →
    (((run order pre).sync_all order view_model q).1 = .ok n ↔
      (∀ entity ∈ (run order pre).dirty_entities, entity ∈ (run order pre).view_models →
        (run order pre).reads view_model q entity = true)
      ∧ n = ((run order pre).dirty_entities.filter ((run order pre).reads view_model q)).length)

/-- A mark lasts until the next synchronization or until the entity is unregistered, and a
synchronization counts its reads or tells that one has failed. -/
theorem keeps_marks (order : EntityOrder) (ops : List SyncOp)
    (h : ∀ pre, pre <+: ops → (run order pre).dirty_entities.length ≤ u64_MAX) :
    KeepsMarks order ops := by
  refine ⟨fun pre entity _ => ?_, fun pre entity _ hmem => ?_,
    fun pre later _ entity hmem hlater => ?_, fun pre view_model q _ => ?_,
    fun pre view_model q n hpre => ?_⟩
  · rw [run_append]
    exact List.mem_insert_self
  · rw [run_append]
    exact List.mem_union_left (AList.mem_keys.mp hmem) _
  · rw [run_append]
    exact steps_keep hmem hlater
  · rw [run_append]
    exact congrArg SyncState.dirty_entities SyncState.sync_all_state
  · have hfew := h pre ((List.prefix_append pre _).trans hpre)
    rw [SyncState.sync_all_eq_ok hfew, List.countP_eq_length_filter]
    simp only [SyncState.failure_eq_none]

/-! ### An entity without a snapshot -/

def in_order : EntityOrder := { list := id, perm := fun _ => List.Perm.refl _ }

def without_snapshot : List SyncOp :=
  [.RegisterEntity ⟨1, 0⟩ "province" 0 0, .MarkDirty ⟨1, 0⟩, .SyncAll .new (.new .new)]

theorem without_snapshot_keeps_marks : KeepsMarks in_order without_snapshot := by
  refine keeps_marks in_order without_snapshot fun pre hpre => ?_
  have hall : ∀ pre ∈ without_snapshot.inits,
      (run in_order pre).dirty_entities.length ≤ u64_MAX := by
    decide +kernel
  exact hall pre ((List.mem_inits _ _).mpr hpre)

/-- Its table cannot be read, and its mark is gone. -/
theorem mark_gone_unread :
    ⟨1, 0⟩ ∈ (run in_order (without_snapshot.take 2)).view_models
    ∧ ⟨1, 0⟩ ∈ (run in_order (without_snapshot.take 2)).dirty_entities
    ∧ (run in_order (without_snapshot.take 2)).reads .new (.new .new) ⟨1, 0⟩ = false
    ∧ ⟨1, 0⟩ ∉ (run in_order without_snapshot).dirty_entities := by
  decide +kernel

end SyncOp

end Scharnhorst
