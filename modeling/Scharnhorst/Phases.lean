/-
The two phases, and the operations of the two handles.

`InitStore` and `CommitStore` are the store behind a token, so any number of handles is one
store on which calls of either kind are made in any order. Each operation checks the phase by
itself: those of `InitStore` refuse Simulation, those of `CommitStore` refuse Initialization.
All but one: `restore_table_versions` is a recovery step of the journal, and it checks nothing.
-/
import Scharnhorst.Atomic
import Scharnhorst.KeyIndex
import Scharnhorst.Query
import Scharnhorst.Restore

set_option autoImplicit false

namespace Scharnhorst

open Attempt Maps

namespace ArrowStore

/-! ## The rest of the initialization phase -/

def register_type (s : ArrowStore) (name : String) (data_type : DataType) :
    ArrowStoreResult Unit × ArrowStore :=
  match s.check_init >>= fun _ => s.type_registry.read_store with
  | .error e => (.error e, s)
  | .ok reg => (.ok (), { s with type_registry := s.type_registry.set (reg.register name data_type) })

/-- The id goes first, also that of a table that is not there. -/
def drop_table (s : ArrowStore) (name : String) : ArrowStoreResult Unit × ArrowStore :=
  match s.check_init >>= fun _ => s.create_drop_lock.read_store with
  | .error e => (.error e, s)
  | .ok () =>
    let table_id_map :=
      match s.table_id_map.toList.find? fun entry => entry.2 = name with
      | some (id, _) => s.table_id_map.erase id
      | none => s.table_id_map
    if s.tables.contains name then
      (.ok (), { s with table_id_map, tables := s.tables.erase name })
    else (.error (.TableNotFound name), { s with table_id_map })

def set_mutation_mode (s : ArrowStore) (name : String) (mode : MutationMode) :
    ArrowStoreResult Unit × ArrowStore :=
  match s.check_init with
  | .error e => (.error e, s)
  | .ok () => s.write_table name fun table => (.ok (), { table with mutation_mode := mode })

/-- The ids are counted from zero, by the loop that a view without a map has too. -/
def rebuild_table (s : ArrowStore) (name : String) (tick : Tick) (batches : List RecordBatch) :
    ArrowStoreResult Unit × ArrowStore :=
  match s.check_init with
  | .error e => (.error e, s)
  | .ok () =>
    s.write_table name fun table =>
      (.ok (),
        { table with
          position_map := TableReadView.build_position_map batches
          versions := table.versions.insert tick batches })

/-- The `Display` text of the crate's error for a field that is not there. -/
def no_field_text (schema : Schema) (name : String) : String :=
  let valid_fields := ", ".intercalate (schema.fields.map fun field => "\"" ++ field.name ++ "\"")
  "Schema error: Unable to get field named \"" ++ name ++ "\". Valid fields: ["
    ++ valid_fields ++ "]"

section Indexing

variable [Render]

/-- One batch, its rows in order. -/
def index_batch (column : String) (tick : Tick) (index : PrimaryKeyIndex)
    (entry : RecordBatch × Nat) : ArrowStoreResult Unit × PrimaryKeyIndex :=
  match (entry.1.schema.index_of column).bind (entry.1.columns[·]?) with
  | none =>
    let e := no_field_text entry.1.schema column
    (.error (.Schema s!"column {column} not found: {e}"), index)
  | some array =>
    (.ok (), (List.range entry.1.row_count).foldl (fun index row_idx =>
      index.insert (array_value_to_string array row_idx) tick entry.2 row_idx) index)

/-- One tick, its batches in order. -/
def index_versions (column : String) (index : PrimaryKeyIndex) (entry : Tick × List RecordBatch) :
    ArrowStoreResult Unit × PrimaryKeyIndex :=
  forEach (index_batch column entry.1) index entry.2.zipIdx

/-- The ticks come as a hash map lists them. What an error has indexed so far stays. -/
def build_primary_key_index (s : ArrowStore) (name : String) :
    ArrowStoreResult Unit × ArrowStore :=
  match s.check_init >>= fun _ => s.get_table name with
  | .error e => (.error e, s)
  | .ok table =>
    match table.spec with
    | none => (.error (.Schema "no table spec for PK index"), s)
    | some spec =>
      match spec.primary_key_column with
      | none => (.error (.Schema "no primary key column defined"), s)
      | some pk_col =>
        s.write_table name fun table =>
          let (result, index) := forEach (index_versions pk_col.name) .new table.versions.toList
          (result, { table with primary_key_index := index })

/-- The index is added when it is complete. -/
def build_foreign_key_index (s : ArrowStore) (name column target_table : String) :
    ArrowStoreResult Unit × ArrowStore :=
  match s.check_init with
  | .error e => (.error e, s)
  | .ok () =>
    s.write_table name fun table =>
      match forEach (index_versions column) .new table.versions.toList with
      | (.error e, _) => (.error e, table)
      | (.ok (), index) =>
        (.ok (),
          { table with
            foreign_key_indices := table.foreign_key_indices
              ++ [{ index with column_name := column, target_table }] })

end Indexing

def partition_map_mut {R : Type} (s : ArrowStore) (name : String)
    (f : PartitionMap → R × PartitionMap) : ArrowStoreResult R × ArrowStore :=
  match s.check_init with
  | .error e => (.error e, s)
  | .ok () =>
    s.write_table name fun table =>
      let (result, partitions) := f table.partitions
      (.ok result, { table with partitions })

end ArrowStore

/-! ## Calls of the handles -/

/-- A call of an `InitStore`. A checkpoint finds the disk as it is then. -/
inductive InitCall (D : Type) where
  | RegisterType (name : String) (data_type : DataType)
  | CreateTable (spec : TableSpec) (mode : MutationMode)
  | DropTable (name : String)
  | SetMutationMode (name : String) (mode : MutationMode)
  | AppendBatches (name : String) (tick : Tick) (batches : List RecordBatch)
  | RebuildTable (name : String) (tick : Tick) (batches : List RecordBatch)
  | WriteCheckpoint (disk : D) (tick : Tick)
  | LoadCheckpoint (disk : D) (tick : Tick)
  | BuildPrimaryKeyIndex (name : String)
  | BuildForeignKeyIndex (name column target_table : String)
  | PartitionMapMut (name : String) (f : PartitionMap → PartitionMap)
  | IntoSimulation

/-- A call of a `CommitStore`. -/
inductive CommitCall (D : Type) where
  | ApplyDiffs (tick : Tick) (diffs : List Diff)
  | GenerateSnapshot (tick : Tick)
  | TruncateBefore (tick : Tick)
  | PatchRows (name : String) (tick : Tick) (locations : List RowLocation) (batch : RecordBatch)
  | WriteCheckpoint (disk : D) (tick : Tick)
  | SaveTableVersions (table_names : List String)
  | RestoreTableVersions (saved : Map String Versions)

inductive StoreCall (D : Type) where
  | Init (call : InitCall D)
  | Commit (call : CommitCall D)

namespace ArrowStore

variable {D : Type} [CheckpointDisk D] [Render]

/-- A verdict, whatever comes with it. -/
def verdict {α : Type} (done : ArrowStoreResult α × ArrowStore) :
    ArrowStoreResult Unit × ArrowStore :=
  (done.1.map fun _ => (), done.2)

def init_call (s : ArrowStore) : InitCall D → ArrowStoreResult Unit × ArrowStore
  | .RegisterType name data_type => s.register_type name data_type
  | .CreateTable spec mode => verdict (s.create_table spec mode)
  | .DropTable name => s.drop_table name
  | .SetMutationMode name mode => s.set_mutation_mode name mode
  | .AppendBatches name tick batches => s.append_batches name tick batches
  | .RebuildTable name tick batches => s.rebuild_table name tick batches
  | .WriteCheckpoint disk tick => ((s.write_checkpoint_with .Init disk tick).1, s)
  | .LoadCheckpoint disk tick => verdict (s.load_checkpoint disk tick)
  | .BuildPrimaryKeyIndex name => s.build_primary_key_index name
  | .BuildForeignKeyIndex name column target_table =>
    s.build_foreign_key_index name column target_table
  | .PartitionMapMut name f => s.partition_map_mut name fun partitions => ((), f partitions)
  | .IntoSimulation => s.into_simulation

def commit_call (s : ArrowStore) : CommitCall D → ArrowStoreResult Unit × ArrowStore
  | .ApplyDiffs tick diffs => s.apply_diffs tick diffs
  | .GenerateSnapshot tick => verdict (s.generate_snapshot tick)
  | .TruncateBefore tick => s.truncate_before tick
  | .PatchRows name tick locations batch => s.patch_rows name tick locations batch
  | .WriteCheckpoint disk tick => ((s.write_checkpoint_with .Commit disk tick).1, s)
  | .SaveTableVersions table_names => ((s.save_table_versions table_names).map fun _ => (), s)
  | .RestoreTableVersions saved => s.restore_table_versions saved

def store_call (s : ArrowStore) : StoreCall D → ArrowStoreResult Unit × ArrowStore
  | .Init call => s.init_call call
  | .Commit call => s.commit_call call

/-- A run, each call succeeding or failing. -/
def store_calls (s : ArrowStore) (calls : List (StoreCall D)) : ArrowStore :=
  calls.foldl (fun s call => (s.store_call call).2) s

/-- What a property says of every call of a run. -/
def EachCall (P : ArrowStore → StoreCall D → Prop) : ArrowStore → List (StoreCall D) → Prop
  | _, [] => True
  | s, call :: calls => P s call ∧ EachCall P (s.store_call call).2 calls

/-! ## The phases -/

omit [CheckpointDisk D] [Render] in
def Simulating (s : ArrowStore) : Prop := s.lifecycle.data.lifecycle = .Simulation

/-- Whether there is a table of this name, and the spec that it has. -/
def spec_of (s : ArrowStore) (name : String) : Option (Option TableSpec) :=
  s.tables[name]?.map fun lock => lock.data.spec

/-- What the phases are for. The tables are taken with their indexes, partitions and position
maps, and a store that is the same has the same ids and types too. -/
structure Enforced (s : ArrowStore) (call : StoreCall D) : Prop where
  never_back : s.Simulating → (s.store_call call).2.Simulating
  commit_waits : ¬ s.Simulating → ∀ c, call = .Commit c →
    (s.store_call call).2.tables = s.tables ∧ (s.store_call call).2.snapshots = s.snapshots
  init_refused : s.Simulating → ∀ c, call = .Init c →
    (∃ e, (s.store_call call).1 = .error e) ∧ (s.store_call call).2 = s
  specs : s.Simulating → ∀ name, (s.store_call call).2.spec_of name = s.spec_of name

/-- In a whole run: every call keeps to its phase, the phase changes once at most, and from
then on the tables are the same and have the same specs. -/
structure PhasesKept (s : ArrowStore) (calls : List (StoreCall D)) : Prop where
  each : s.EachCall Enforced calls
  once : ∀ before after, calls = before ++ after → (s.store_calls before).Simulating →
    (s.store_calls calls).Simulating
  specs : ∀ before after, calls = before ++ after → (s.store_calls before).Simulating →
    ∀ name, (s.store_calls calls).spec_of name = (s.store_calls before).spec_of name

/-- Versions restored before the simulation are the ones that the tables have. -/
def PutsBack (s : ArrowStore) (call : StoreCall D) : Prop :=
  ∀ saved, call = .Commit (.RestoreTableVersions saved) → ¬ s.Simulating →
    ∀ (name : String) (versions : Versions) (lock : RwLock VersionedTable),
      saved[name]? = some versions → s.tables[name]? = some lock → lock.data.versions = versions

/-! ## The checks -/

section Checks

variable {s : ArrowStore}

omit [CheckpointDisk D] [Render] in
theorem check_init_simulating (h : s.Simulating) : ∃ e, s.check_init = .error e := by
  unfold check_init
  rcases hread : s.lifecycle.read_store with e | guard
  · exact ⟨e, rfl⟩
  · obtain ⟨-, rfl⟩ := RwLock.read_store_ok.1 hread
    have hsim : s.lifecycle.data.is_simulation = true := decide_eq_true h
    refine ⟨.Lifecycle "operation not allowed during simulation", ?_⟩
    simp only [bind, Except.bind, hsim, if_true]

omit [CheckpointDisk D] [Render] in
theorem check_commit_waits (h : ¬ s.Simulating) : ∃ e, s.check_commit = .error e := by
  rcases hcheck : s.check_commit with e | ⟨⟩
  · exact ⟨e, rfl⟩
  · exact absurd (check_commit_ok.1 hcheck).2 h

/-- In the simulation no call of an `InitStore` goes through, nor does it change anything. -/
theorem init_call_refused (h : s.Simulating) (call : InitCall D) :
    ∃ e, s.init_call call = (.error e, s) := by
  obtain ⟨e, he⟩ := check_init_simulating h
  cases call with
  | RegisterType name data_type =>
      exact ⟨e, by simp [init_call, register_type, he, bind, Except.bind]⟩
  | CreateTable spec mode =>
      exact ⟨e, by simp [init_call, verdict, create_table, he, bind, Except.bind, Except.map]⟩
  | DropTable name => exact ⟨e, by simp [init_call, drop_table, he, bind, Except.bind]⟩
  | SetMutationMode name mode => exact ⟨e, by simp [init_call, set_mutation_mode, he]⟩
  | AppendBatches name tick batches => exact ⟨e, by simp [init_call, append_batches, he]⟩
  | RebuildTable name tick batches => exact ⟨e, by simp [init_call, rebuild_table, he]⟩
  | LoadCheckpoint disk tick =>
      exact ⟨e, by simp [init_call, verdict, load_checkpoint, he, Except.map]⟩
  | BuildPrimaryKeyIndex name =>
      exact ⟨e, by simp [init_call, build_primary_key_index, he, bind, Except.bind]⟩
  | BuildForeignKeyIndex name column target_table =>
      exact ⟨e, by simp [init_call, build_foreign_key_index, he]⟩
  | PartitionMapMut name f => exact ⟨e, by simp [init_call, partition_map_mut, he]⟩
  -- these two read the phase themselves, without `check_init`
  | WriteCheckpoint disk tick =>
      rcases hread : s.lifecycle.read_store with e | guard
      · exact ⟨e, by simp [init_call, write_checkpoint_with, init_write_checkpoint, hread]⟩
      · obtain ⟨-, rfl⟩ := RwLock.read_store_ok.1 hread
        have hsim : s.lifecycle.data.is_simulation = true := decide_eq_true h
        refine ⟨.Lifecycle
          "write_checkpoint requires Initialization, but lifecycle is Simulation", ?_⟩
        simp only [init_call, write_checkpoint_with, init_write_checkpoint, hread, hsim, if_true]
  | IntoSimulation =>
      rcases hread : s.lifecycle.read_store with e | guard
      · exact ⟨e, by simp [init_call, into_simulation, hread]⟩
      · obtain ⟨-, rfl⟩ := RwLock.read_store_ok.1 hread
        have hsim : s.lifecycle.data.is_simulation = true := decide_eq_true h
        refine ⟨.Lifecycle
          "invalid lifecycle phase: already in Simulation phase, cannot advance again", ?_⟩
        simp only [init_call, into_simulation, hread, LifecycleGuard.advance_to_simulation, hsim,
          if_true]

/-- Before it, no call of a `CommitStore` changes anything, but for the one that does not
look at the phase. -/
theorem commit_call_waits (h : ¬ s.Simulating) (call : CommitCall D)
    (hcall : ∀ saved, call ≠ .RestoreTableVersions saved) : (s.commit_call call).2 = s := by
  obtain ⟨e, he⟩ := check_commit_waits h
  cases call with
  | ApplyDiffs tick diffs => simp [commit_call, apply_diffs, he]
  | GenerateSnapshot tick => simp [commit_call, verdict, generate_snapshot, he]
  | TruncateBefore tick => simp [commit_call, truncate_before, he]
  | PatchRows name tick locations batch => simp [commit_call, patch_rows, he]
  | WriteCheckpoint disk tick => rfl
  | SaveTableVersions table_names => rfl
  | RestoreTableVersions saved => exact absurd rfl (hcall saved)

end Checks

/-! ## In the simulation -/

section Specs

variable {s : ArrowStore}

omit [CheckpointDisk D] [Render] in
/-- A write that keeps the spec, also one that unwinds. -/
theorem write_table_spec {α : Type} (s : ArrowStore) (name : String)
    {f : VersionedTable → ArrowStoreResult α × VersionedTable} (hf : ∀ t, (f t).2.spec = t.spec)
    (n : String) : (s.write_table name f).2.spec_of n = s.spec_of n := by
  unfold write_table
  rcases hlock : s.tables[name]? with _ | lock
  · rfl
  have hdata : (lock.write_with f).2.data.spec = lock.data.spec := by
    unfold RwLock.write_with
    rcases hread : lock.read with e | t
    · rfl
    · obtain ⟨-, rfl⟩ := RwLock.read_ok.1 hread
      rcases hres : f lock.data with ⟨r, t⟩
      have hspec := hf lock.data
      rw [hres] at hspec
      simp only [hres]
      split
      · exact hspec
      · exact hspec
  unfold spec_of
  rw [Std.ExtTreeMap.getElem?_insert]
  by_cases hname : name = n
  · subst hname
    rw [if_pos (by simp), hlock, Option.map_some, Option.map_some, hdata]
  · rw [if_neg (by simpa using hname)]

omit [CheckpointDisk D] [Render] in
theorem restore_one_spec (s : ArrowStore) (entry : String × Versions) (n : String) :
    (restore_one s entry).2.spec_of n = s.spec_of n := by
  unfold restore_one
  split
  · rfl
  · exact write_table_spec s entry.1 (fun _ => rfl) n

omit [CheckpointDisk D] in
theorem apply_diffs_spec (s : ArrowStore) (tick : Tick) (ds : List Diff) (n : String) :
    (s.apply_diffs tick ds).2.spec_of n = s.spec_of n := by
  have hdiffs : (forEach (apply_diff tick) s ds).2.spec_of n = s.spec_of n := by
    refine forEach_invariant ds (P := fun t : ArrowStore => t.spec_of n = s.spec_of n) ?_ rfl
    intro t d _ ht
    rw [apply_diff_eq]
    split
    · exact ht
    · exact (write_table_spec t d.table
        (fun table => (apply_to_table_setup _ _ _ table).spec) n).trans ht
  have hback : ∀ (l : List (String × Versions)) (t : ArrowStore),
      (l.foldl (fun s entry => (restore_one s entry).2) t).spec_of n = t.spec_of n := by
    intro l
    induction l with
    | nil => exact fun _ => rfl
    | cons entry l ih => exact fun t => (ih _).trans (restore_one_spec t entry n)
  unfold apply_diffs
  rcases s.check_commit with e | ⟨⟩
  · rfl
  dsimp only
  rcases s.save_table_versions (ds.map Diff.table).dedup with e | saved
  · rfl
  dsimp only
  rcases hrun : forEach (apply_diff tick) s ds with ⟨e | ⟨⟩, t⟩
  · rw [hrun] at hdiffs
    exact (hback _ _).trans hdiffs
  · rw [hrun] at hdiffs
    exact hdiffs

omit [CheckpointDisk D] [Render] in
theorem truncate_before_frame (s : ArrowStore) (tick : Tick) (n : String) :
    (s.truncate_before tick).2.spec_of n = s.spec_of n
      ∧ (s.truncate_before tick).2.lifecycle = s.lifecycle := by
  unfold truncate_before
  split
  · exact ⟨rfl, rfl⟩
  · refine forEach_invariant _
      (P := fun t : ArrowStore => t.spec_of n = s.spec_of n ∧ t.lifecycle = s.lifecycle) ?_ ⟨rfl, rfl⟩
    intro t name _ ht
    exact ⟨(write_table_spec t name (fun _ => rfl) n).trans ht.1,
      (write_table_same t name _).lifecycle.trans ht.2⟩

omit [CheckpointDisk D] [Render] in
theorem restore_table_versions_frame (s : ArrowStore) (saved : Map String Versions) (n : String) :
    (s.restore_table_versions saved).2.spec_of n = s.spec_of n
      ∧ (s.restore_table_versions saved).2.lifecycle = s.lifecycle := by
  refine forEach_invariant _
    (P := fun t : ArrowStore => t.spec_of n = s.spec_of n ∧ t.lifecycle = s.lifecycle) ?_ ⟨rfl, rfl⟩
  intro t entry _ ht
  exact ⟨(restore_one_spec t entry n).trans ht.1, (restore_one_same t entry).lifecycle.trans ht.2⟩

omit [CheckpointDisk D] [Render] in
theorem do_generate_snapshot_frame (s : ArrowStore) (tick : Tick) :
    (s.do_generate_snapshot tick).2.tables = s.tables
      ∧ (s.do_generate_snapshot tick).2.lifecycle = s.lifecycle := by
  unfold do_generate_snapshot
  dsimp only
  split
  · exact ⟨rfl, rfl⟩
  · exact ⟨rfl, rfl⟩

/-- No call of a `CommitStore` makes a table, drops one or changes a spec, nor the phase. -/
theorem commit_call_frame (s : ArrowStore) (call : CommitCall D) (n : String) :
    (s.commit_call call).2.spec_of n = s.spec_of n
      ∧ (s.commit_call call).2.lifecycle = s.lifecycle := by
  cases call with
  | ApplyDiffs tick diffs =>
      exact ⟨apply_diffs_spec s tick diffs n, (Scharnhorst.apply_diffs_same s tick diffs).lifecycle⟩
  | GenerateSnapshot tick =>
      simp only [commit_call, verdict, generate_snapshot]
      split
      · exact ⟨rfl, rfl⟩
      · obtain ⟨htables, hlifecycle⟩ := do_generate_snapshot_frame s tick
        exact ⟨by simp only [spec_of, htables], hlifecycle⟩
  | TruncateBefore tick => exact truncate_before_frame s tick n
  | PatchRows name tick locations batch =>
      simp only [commit_call, patch_rows]
      split
      · exact ⟨rfl, rfl⟩
      · split
        · exact ⟨rfl, rfl⟩
        · refine ⟨write_table_spec s name (fun t => ?_) n, (write_table_same s name _).lifecycle⟩
          unfold apply_patch_to_versions
          split
          · rfl
          · split
            · rfl
            · rfl
  | WriteCheckpoint disk tick => exact ⟨rfl, rfl⟩
  | SaveTableVersions table_names => exact ⟨rfl, rfl⟩
  | RestoreTableVersions saved => exact restore_table_versions_frame s saved n

end Specs

/-! ## Before the simulation -/

section Intact

variable {s : ArrowStore}

omit [CheckpointDisk D] [Render] in
/-- No lock of a table is poisoned. -/
def Intact (s : ArrowStore) : Prop :=
  ∀ (name : String) (lock : RwLock VersionedTable),
    s.tables[name]? = some lock → lock.poisoned = false

omit [CheckpointDisk D] [Render] in
theorem Intact.insert (h : s.Intact) (name : String) (table : VersionedTable)
    {s' : ArrowStore} (htables : s'.tables = s.tables.insert name (.new table)) : s'.Intact := by
  intro n lock hlock
  rw [htables, Std.ExtTreeMap.getElem?_insert] at hlock
  split at hlock
  · obtain rfl := Option.some.inj hlock
    rfl
  · exact h n lock hlock

omit [CheckpointDisk D] [Render] in
theorem Intact.write_table {α : Type} (h : s.Intact) (name : String)
    {f : VersionedTable → ArrowStoreResult α × VersionedTable} (hf : ∀ t, Returns (f t).1) :
    (s.write_table name f).2.Intact := by
  intro n lock hlock
  rw [write_table_tables s name hf n] at hlock
  split at hlock
  · obtain ⟨old, hold, rfl⟩ := Option.map_eq_some_iff.1 hlock
    have hp := h n old hold
    split
    · exact hp
    · exact hp
  · exact h n lock hlock

omit [CheckpointDisk D] [Render] in
/-- A loop returns, if each of its rounds does. -/
theorem forEach_returns {σ α : Type} {f : σ → α → ArrowStoreResult Unit × σ}
    (h : ∀ s a, Returns (f s a).1) (s : σ) (as : List α) : Returns (forEach f s as).1 := by
  rcases hrun : forEach f s as with ⟨e | ⟨⟩, t⟩
  · obtain ⟨-, a, -, mid, -, -, hround⟩ := forEach_error hrun
    have hreturns := h mid a
    rw [hround] at hreturns
    exact hreturns
  · intro hpanic
    cases hpanic

omit [CheckpointDisk D] in
theorem index_versions_returns (column : String) (index : PrimaryKeyIndex)
    (entry : Tick × List RecordBatch) : Returns (index_versions column index entry).1 := by
  refine forEach_returns (fun index entry => ?_) index _
  unfold index_batch
  split
  · intro hpanic
    cases hpanic
  · intro hpanic
    cases hpanic

omit [Render] in
theorem Intact.load_checkpoint (h : s.Intact) (disk : D) (tick : Tick) :
    (s.load_checkpoint disk tick).2.Intact := by
  have hrestore : ∀ (entries : List (String × List RecordBatch)),
      (forEach (restore_checkpoint_table tick) s entries).2.Intact := by
    intro entries
    refine forEach_invariant entries (P := Intact) (fun t entry _ ht => ?_) h
    unfold restore_checkpoint_table
    dsimp only
    -- a table that the store does not have is created first
    refine Intact.write_table ?_ _ fun _ => by simp [Returns]
    split
    · exact ht.insert entry.1 _ rfl
    · exact ht
  unfold ArrowStore.load_checkpoint
  rcases s.check_init with e | ⟨⟩
  · exact h
  dsimp only
  by_cases hdir : (!CheckpointDisk.is_dir disk (checkpoint_dir tick)) = true
  · rw [if_pos hdir]
    exact h
  rw [if_neg hdir]
  rcases read_checkpoint disk (checkpoint_dir tick) with e | table_batches
  · exact h
  dsimp only
  split
  · exact h
  rcases s.create_drop_lock.read_store with e | ⟨⟩
  · exact h
  dsimp only
  have hafter := hrestore table_batches.toList
  rcases hrun : forEach (restore_checkpoint_table tick) s table_batches.toList with ⟨e | ⟨⟩, t⟩
  · rw [hrun] at hafter
    exact hafter
  · rw [hrun] at hafter
    intro n lock hlock
    rw [(do_generate_snapshot_frame t tick).1] at hlock
    exact hafter n lock hlock

theorem Intact.init_call (h : s.Intact) (call : InitCall D) : (s.init_call call).2.Intact := by
  cases call with
  | RegisterType name data_type =>
      simp only [ArrowStore.init_call, register_type]
      split
      · exact h
      · exact h
  | CreateTable spec mode =>
      simp only [ArrowStore.init_call, verdict, create_table]
      split
      · exact h
      · split
        · exact h
        · exact h.insert _ _ rfl
  | DropTable name =>
      simp only [ArrowStore.init_call, drop_table]
      split
      · exact h
      · split
        -- the tables that are left are those that were there
        · intro n lock hlock
          simp only [Std.ExtTreeMap.getElem?_erase] at hlock
          split at hlock
          · cases hlock
          · exact h n lock hlock
        · exact h
  | SetMutationMode name mode =>
      simp only [ArrowStore.init_call, set_mutation_mode]
      split
      · exact h
      · exact h.write_table name fun _ => by simp [Returns]
  | AppendBatches name tick batches =>
      simp only [ArrowStore.init_call, append_batches]
      split
      · exact h
      · exact h.write_table name fun _ => by simp [Returns]
  | RebuildTable name tick batches =>
      simp only [ArrowStore.init_call, rebuild_table]
      split
      · exact h
      · exact h.write_table name fun _ => by simp [Returns]
  | WriteCheckpoint disk tick => exact h
  | LoadCheckpoint disk tick => exact h.load_checkpoint disk tick
  | BuildPrimaryKeyIndex name =>
      simp only [ArrowStore.init_call, build_primary_key_index]
      split
      · exact h
      · split
        · exact h
        · split
          · exact h
          · exact h.write_table name fun _ => forEach_returns (index_versions_returns _) _ _
  | BuildForeignKeyIndex name column target_table =>
      simp only [ArrowStore.init_call, build_foreign_key_index]
      split
      · exact h
      · refine h.write_table name fun table => ?_
        have hreturns := forEach_returns (index_versions_returns column) .new table.versions.toList
        split
        · rename_i hrun
          rw [hrun] at hreturns
          exact hreturns
        · simp [Returns]
  | PartitionMapMut name f =>
      simp only [ArrowStore.init_call, partition_map_mut]
      split
      · exact h
      · exact h.write_table name fun _ => by simp [Returns]
  | IntoSimulation =>
      simp only [ArrowStore.init_call, into_simulation]
      split
      · exact h
      · split
        · exact h
        · exact h

omit [CheckpointDisk D] [Render] in
/-- Versions put back change nothing, just if they are the ones that the tables have. -/
theorem restore_same_iff (h : s.Intact) (saved : Map String Versions) :
    (s.restore_table_versions saved).2.tables = s.tables
      ↔ ∀ (name : String) (versions : Versions) (lock : RwLock VersionedTable),
        saved[name]? = some versions → s.tables[name]? = some lock →
          lock.data.versions = versions := by
  have hhealthy : s.Healthy (saved.toList.map Prod.fst) := fun n _ lock hlock => h n lock hlock
  have htables := restored_tables s saved
  have hrestore : (s.restore_table_versions saved).2
      = saved.toList.foldl (fun s entry => (restore_one s entry).2) s := by
    rw [restore_table_versions, restore_healthy hhealthy]
  rw [hrestore]
  constructor
  · intro hsame name versions lock hsaved hlock
    have hname := htables name
    rw [hsame, hsaved, hlock, Option.elim_some, Option.map_some, Option.some.injEq] at hname
    have hput : put_back versions lock = { lock with data := { lock.data with versions } } := by
      rw [put_back, h name lock hlock, if_neg Bool.false_ne_true]
    rw [hput] at hname
    exact congrArg (fun l : RwLock VersionedTable => l.data.versions) hname
  · intro hsame
    refine Std.ExtTreeMap.ext_getElem? fun name => ?_
    rw [htables name]
    rcases hsaved : saved[name]? with _ | versions
    · rfl
    · rcases hlock : s.tables[name]? with _ | lock
      · rfl
      · have hput : put_back versions lock = lock := by
          rw [put_back, h name lock hlock, if_neg Bool.false_ne_true,
            ← hsame name versions lock hsaved hlock, ← h name lock hlock]
        rw [Option.elim_some, Option.map_some, hput]

omit [CheckpointDisk D] [Render] in
theorem Intact.restore (h : s.Intact) (saved : Map String Versions) :
    (s.restore_table_versions saved).2.Intact := by
  refine forEach_invariant _ (P := Intact) (fun t entry _ ht => ?_) h
  unfold restore_one
  split
  · exact ht
  · exact ht.write_table entry.1 fun _ => by simp [Returns]

end Intact

/-! ## Runs -/

section Runs

variable {s : ArrowStore}

/-- One call. -/
theorem enforced_iff (hintact : ¬ s.Simulating → s.Intact) (call : StoreCall D) :
    Enforced s call ↔ PutsBack s call := by
  constructor
  · rintro h saved rfl hwaits
    exact (restore_same_iff (hintact hwaits) saved).1 (h.commit_waits hwaits _ rfl).1
  intro h
  cases call with
  | Init call =>
      refine ⟨fun hsim => ?_, nofun, fun hsim c hc => ?_, fun hsim n => ?_⟩
      all_goals obtain ⟨e, he⟩ := init_call_refused hsim call
      · simp only [store_call, he]
        exact hsim
      · simp only [store_call, he]
        exact ⟨⟨e, rfl⟩, trivial⟩
      · simp only [store_call, he]
  | Commit call =>
      refine ⟨fun hsim => ?_, fun hwaits c hc => ?_, nofun, fun _ n => (commit_call_frame s call n).1⟩
      · unfold Simulating store_call
        rw [(commit_call_frame s call "").2]
        exact hsim
      · by_cases hrestore : ∃ saved, call = .RestoreTableVersions saved
        · obtain ⟨saved, rfl⟩ := hrestore
          refine ⟨(restore_same_iff (hintact hwaits) saved).2 (h saved rfl hwaits), ?_⟩
          have hhealthy : s.Healthy (saved.toList.map Prod.fst) :=
            fun n _ lock hlock => hintact hwaits n lock hlock
          have hsame := restored_same s saved.toList
          simp only [store_call, commit_call, restore_table_versions, restore_healthy hhealthy]
          exact hsame.snapshots
        · have hsame := commit_call_waits hwaits call fun saved hcall => hrestore ⟨saved, hcall⟩
          simp only [store_call, hsame]
          exact ⟨trivial, trivial⟩

/-- What a call keeps, whether or not it is one that restores. -/
theorem store_call_intact (hintact : ¬ s.Simulating → s.Intact) (call : StoreCall D) :
    ¬ (s.store_call call).2.Simulating → (s.store_call call).2.Intact := by
  intro hafter
  cases call with
  | Init call =>
      by_cases hsim : s.Simulating
      · obtain ⟨e, he⟩ := init_call_refused hsim call
        simp only [store_call, he] at hafter
        exact absurd hsim hafter
      · exact (hintact hsim).init_call call
  | Commit call =>
      have hwaits : ¬ s.Simulating := by
        unfold Simulating store_call at hafter
        rwa [(commit_call_frame s call "").2] at hafter
      by_cases hrestore : ∃ saved, call = .RestoreTableVersions saved
      · obtain ⟨saved, rfl⟩ := hrestore
        exact (hintact hwaits).restore saved
      · simp only [store_call, commit_call_waits hwaits call fun saved hcall =>
          hrestore ⟨saved, hcall⟩]
        exact hintact hwaits

theorem each_enforced_iff (hintact : ¬ s.Simulating → s.Intact) (calls : List (StoreCall D)) :
    s.EachCall Enforced calls ↔ s.EachCall PutsBack calls := by
  induction calls generalizing s with
  | nil => exact .rfl
  | cons call calls ih =>
      exact and_congr (enforced_iff hintact call) (ih (store_call_intact hintact call))

/-- From the simulation on. -/
theorem store_calls_simulating (h : s.Simulating) (calls : List (StoreCall D)) :
    (s.store_calls calls).Simulating ∧ ∀ name, (s.store_calls calls).spec_of name = s.spec_of name := by
  induction calls generalizing s with
  | nil => exact ⟨h, fun _ => rfl⟩
  | cons call calls ih =>
      have hstep : (s.store_call call).2.Simulating
          ∧ ∀ name, (s.store_call call).2.spec_of name = s.spec_of name := by
        cases call with
        | Init call =>
            obtain ⟨e, he⟩ := init_call_refused h call
            simp only [store_call, he]
            exact ⟨h, fun _ => trivial⟩
        | Commit call =>
            have hframe := commit_call_frame s call
            refine ⟨?_, fun name => (hframe name).1⟩
            unfold Simulating store_call
            rw [(hframe "").2]
            exact h
      obtain ⟨hsim, hspecs⟩ := ih hstep.1
      exact ⟨hsim, fun name => (hspecs name).trans (hstep.2 name)⟩

/-- A run of calls through any handles of a new store. -/
theorem phases_kept_iff (calls : List (StoreCall D)) :
    PhasesKept .new calls ↔ EachCall PutsBack .new calls := by
  have hnew : (new : ArrowStore).Intact := fun name lock h => by simp [new] at h
  constructor
  · exact fun h => (each_enforced_iff (fun _ => hnew) calls).1 h.each
  · intro h
    refine ⟨(each_enforced_iff (fun _ => hnew) calls).2 h, ?_, ?_⟩
    · rintro before after rfl hsim
      rw [store_calls, List.foldl_append]
      exact (store_calls_simulating hsim after).1
    · rintro before after rfl hsim name
      rw [store_calls, List.foldl_append]
      exact (store_calls_simulating hsim after).2 name

end Runs

end ArrowStore

/-! ## Before the simulation, versions restored -/

namespace ArrowStore

section Early

attribute [local instance] plain_text

/-- An empty table, and a commit handle that puts a tick without batches into it. -/
def early_restore : List (StoreCall PlainDisk) :=
  [.Init (.CreateTable items_spec .Patchable),
    .Commit (.RestoreTableVersions ((∅ : Map String Versions).insert "items"
      ((∅ : Versions).insert 0 [])))]

/-- The call goes through in Initialization, and the table is another one. -/
theorem restored_in_initialization :
    let created := new.store_calls (early_restore.take 1)
    let restored := new.store_calls early_restore
    ¬ restored.Simulating
      ∧ ((created.tables["items"]?).map fun lock => lock.data.versions.size) = some 0
      ∧ ((restored.tables["items"]?).map fun lock => lock.data.versions.size) = some 1
      ∧ ¬ PhasesKept .new early_restore := by
  have hbefore : ((new.store_calls (early_restore.take 1)).tables["items"]?.map
      fun lock => lock.data.versions.size) = some 0 := by
    decide +kernel
  have hafter : ((new.store_calls early_restore).tables["items"]?.map
      fun lock => lock.data.versions.size) = some 1 := by
    decide +kernel
  have hwaits : ¬ (new.store_calls early_restore).Simulating := by
    unfold Simulating
    decide +kernel
  refine ⟨hwaits, hbefore, hafter, fun h => ?_⟩
  have hcommit := h.each.2.1.commit_waits
    (by unfold Simulating; decide +kernel) _ rfl
  have htables : (new.store_calls early_restore).tables
      = (new.store_calls (early_restore.take 1)).tables := hcommit.1
  rw [htables, hbefore] at hafter
  cases hafter

end Early

end ArrowStore

end Scharnhorst
