/-
What the store operations do, seen table by table.

A diff touches the table it names and nothing else of the store, so a run of diffs
is, for each table, the run of the diffs that name it. `forEach_apply_diff_ok` says
this; with it a statement about the store becomes one about a single
`VersionedTable`, which is where the arguments are.

The other half is saving and restoring. What is saved are batches, by table; what is
restored are those batches, and the rest of the table is what the diffs left.
-/
import Mathlib.Data.List.Dedup
import Scharnhorst.Store

set_option autoImplicit false

namespace Scharnhorst

open Attempt Maps

/-! ## Locks -/

namespace RwLock

theorem read_store_ok {α : Type} {lock : RwLock α} {a : α} :
    lock.read_store = .ok a ↔ lock.poisoned = false ∧ lock.data = a := by
  cases h : lock.poisoned <;> simp [read_store, read, h, Except.mapError]

theorem read_store_error {α : Type} {lock : RwLock α} {e : ArrowStoreError} :
    lock.read_store = .error e ↔ lock.poisoned = true ∧ e = .LockPoisoned poison_text := by
  cases h : lock.poisoned <;> simp [read_store, read, h, Except.mapError, eq_comm]

/-- A call that returns leaves the lock as healthy as it was. -/
theorem write_with_returns {α β : Type} {lock : RwLock α}
    {f : α → ArrowStoreResult β × α} (h : Returns (f lock.data).1) :
    lock.write_with f
      = if lock.poisoned then (.error (.LockPoisoned poison_text), lock)
        else ((f lock.data).1, { lock with data := (f lock.data).2 }) := by
  rcases hf : f lock.data with ⟨r, a'⟩
  rw [hf] at h
  cases hp : lock.poisoned
  · simp only [write_with, read, hp, Bool.false_eq_true, if_false, hf]
    split
    · exact absurd rfl h
    · rfl
  · simp [write_with, read, hp]

end RwLock

namespace ArrowStore

/-! ## Phases -/

/-- The store takes commits. -/
def InSimulation (s : ArrowStore) : Prop :=
  s.lifecycle.poisoned = false ∧ s.lifecycle.data.lifecycle = .Simulation

theorem check_commit_ok {s : ArrowStore} : s.check_commit = .ok () ↔ s.InSimulation := by
  unfold check_commit InSimulation
  cases hp : s.lifecycle.poisoned <;> cases hl : s.lifecycle.data.lifecycle <;>
    simp [RwLock.read_store, RwLock.read, hp, hl, Except.mapError, bind, Except.bind,
      LifecycleGuard.is_initialization, pure, Except.pure]

/-! ## One table -/

/-- Same store up to the tables. -/
structure SameButTables (s s' : ArrowStore) : Prop where
  table_id_map : s'.table_id_map = s.table_id_map
  snapshots : s'.snapshots = s.snapshots
  next_table_id : s'.next_table_id = s.next_table_id
  generation : s'.generation = s.generation
  type_registry : s'.type_registry = s.type_registry
  create_drop_lock : s'.create_drop_lock = s.create_drop_lock
  lifecycle : s'.lifecycle = s.lifecycle

theorem SameButTables.refl (s : ArrowStore) : SameButTables s s := ⟨rfl, rfl, rfl, rfl, rfl, rfl, rfl⟩

theorem SameButTables.trans {s t u : ArrowStore} (h : SameButTables s t)
    (h' : SameButTables t u) : SameButTables s u :=
  ⟨h'.1.trans h.1, h'.2.trans h.2, h'.3.trans h.3, h'.4.trans h.4, h'.5.trans h.5,
    h'.6.trans h.6, h'.7.trans h.7⟩

/-- Two stores that agree on the tables and on the rest are equal. -/
theorem SameButTables.eq {s s' : ArrowStore} (h : SameButTables s s')
    (ht : ∀ n : String, s'.tables[n]? = s.tables[n]?) : s' = s := by
  obtain ⟨h1, h2, h3, h4, h5, h6, h7⟩ := h
  cases s
  cases s'
  obtain rfl := Std.ExtTreeMap.ext_getElem? ht
  simp_all

/-- Reading a table's batches: no table, no lock, or the batches. -/
theorem get_table_batches_eq (s : ArrowStore) (name : String) (tick : Tick) :
    s.get_table_batches name tick
      = s.tables[name]?.elim (.error (.TableNotFound name)) fun lock =>
          if lock.poisoned then .error (.LockPoisoned RwLock.poison_text)
          else .ok (lock.data.batches tick) := by
  unfold get_table_batches get_table
  rcases s.tables[name]? with _ | lock
  · rfl
  · cases hp : lock.poisoned <;>
      simp [RwLock.read_store, RwLock.read, hp, Except.mapError, Except.map]

/-- One table replaced, behind a healthy lock. -/
def set_table (s : ArrowStore) (name : String) (t : VersionedTable) : ArrowStore :=
  { s with tables := s.tables.insert name (.new t) }

theorem set_table_same (s : ArrowStore) (name : String) (t : VersionedTable) :
    SameButTables s (s.set_table name t) :=
  ⟨rfl, rfl, rfl, rfl, rfl, rfl, rfl⟩

@[simp] theorem tables_set_table (s : ArrowStore) (name : String) (t : VersionedTable)
    (n : String) :
    (s.set_table name t).tables[n]? = if name = n then some (.new t) else s.tables[n]? := by
  simp [set_table, Std.ExtTreeMap.getElem?_insert]

@[simp] theorem type_registry_set_table (s : ArrowStore) (name : String) (t : VersionedTable) :
    (s.set_table name t).type_registry = s.type_registry := rfl

theorem write_table_same {α : Type} (s : ArrowStore) (name : String)
    (f : VersionedTable → ArrowStoreResult α × VersionedTable) :
    SameButTables s (s.write_table name f).2 := by
  unfold write_table
  split
  · exact .refl _
  · exact ⟨rfl, rfl, rfl, rfl, rfl, rfl, rfl⟩

/-- A write that returns, on a table that exists. -/
theorem write_table_of_some {α : Type} {s : ArrowStore} {name : String}
    {lock : RwLock VersionedTable} {f : VersionedTable → ArrowStoreResult α × VersionedTable}
    (h : s.tables[name]? = some lock) (hf : Returns (f lock.data).1) :
    s.write_table name f
      = if lock.poisoned then (.error (.LockPoisoned RwLock.poison_text), s)
        else ((f lock.data).1, s.set_table name (f lock.data).2) := by
  unfold write_table
  simp only [h, RwLock.write_with_returns hf]
  cases hp : lock.poisoned
  · rfl
  · simp [insert_self h]

/-- What a write that returns does to the table map. -/
theorem write_table_tables {α : Type} (s : ArrowStore) (name : String)
    {f : VersionedTable → ArrowStoreResult α × VersionedTable} (hf : ∀ t, Returns (f t).1)
    (n : String) :
    (s.write_table name f).2.tables[n]?
      = if name = n then
          s.tables[n]?.map fun lock =>
            if lock.poisoned then lock else { lock with data := (f lock.data).2 }
        else s.tables[n]? := by
  unfold write_table
  rcases ht : s.tables[name]? with _ | lock
  · by_cases hn : name = n
    · subst hn
      simp [ht]
    · simp [hn]
  · simp only [RwLock.write_with_returns (hf lock.data), Std.ExtTreeMap.getElem?_insert]
    by_cases hn : name = n
    · subst hn
      cases hp : lock.poisoned <;> simp [ht, hp]
    · simp [hn]

/-! ## Before the simulation -/

theorem check_init_new {s : ArrowStore} (hlifecycle : s.lifecycle = .new .new) :
    s.check_init = .ok () := by
  unfold check_init
  rw [hlifecycle]
  rfl

/-- The store with one more table. -/
def with_created (s : ArrowStore) (spec : TableSpec) (mode : MutationMode) : ArrowStore :=
  { s with
    next_table_id := (s.next_table_id + 1) % 2 ^ 64
    tables := s.tables.insert spec.name (.new ((VersionedTable.new spec.name mode).set_spec spec))
    table_id_map := s.table_id_map.insert s.next_table_id spec.name }

/-- A new table in a store that is still being initialized. -/
theorem create_table_eq {s : ArrowStore} {spec : TableSpec} {mode : MutationMode}
    (hlifecycle : s.lifecycle = .new .new) (hlock : s.create_drop_lock = .new ())
    (hfresh : spec.name ∉ s.tables) :
    s.create_table spec mode = (.ok s.next_table_id, s.with_created spec mode) := by
  have hnone : s.tables.contains spec.name = false :=
    Bool.eq_false_iff.2 fun h => hfresh (Std.ExtTreeMap.contains_iff_mem.1 h)
  have hdrop : s.create_drop_lock.read_store = .ok () := by
    rw [hlock]
    rfl
  unfold create_table
  rw [check_init_new hlifecycle]
  simp only [bind, Except.bind, hdrop, hnone, Bool.false_eq_true, if_false]
  rfl

@[simp] theorem with_created_tables (s : ArrowStore) (spec : TableSpec) (mode : MutationMode) :
    (s.with_created spec mode).tables =
      s.tables.insert spec.name (.new ((VersionedTable.new spec.name mode).set_spec spec)) := rfl

/-- A table that was created is new, and is all that the store has more. -/
theorem create_table_ok {s s' : ArrowStore} {spec : TableSpec} {mode : MutationMode} {id : TableId}
    (h : s.create_table spec mode = (.ok id, s')) :
    spec.name ∉ s.tables ∧ s' = s.with_created spec mode := by
  unfold create_table at h
  split at h
  · cases h
  split at h
  · cases h
  rename_i hfresh
  obtain ⟨-, rfl⟩ := Prod.mk.inj h
  exact ⟨by simpa using hfresh, rfl⟩

/-- The first batches of a table, in such a store. -/
theorem append_batches_eq {s : ArrowStore} {name : String} {table : VersionedTable}
    (hlifecycle : s.lifecycle = .new .new) (htable : s.tables[name]? = some (.new table))
    (tick : Tick) (batches : List RecordBatch) :
    s.append_batches name tick batches
      = (.ok (), s.set_table name
          { table with
            versions := table.versions.insert tick (table.batches tick ++ batches) }) := by
  unfold append_batches
  rw [check_init_new hlifecycle, write_table_of_some htable (fun h => by cases h)]
  rfl

/-- The end of it. -/
theorem into_simulation_eq {s : ArrowStore} (hlifecycle : s.lifecycle = .new .new) :
    s.into_simulation = (.ok (), { s with lifecycle := .new { lifecycle := .Simulation } }) := by
  unfold into_simulation
  rw [hlifecycle]
  rfl

/-! ## One diff -/

variable [Render]

/-- Updates and deletes convert against the batch they patch; the other two resolve a
schema. -/
def reads_registry : Diff → Bool
  | .Insert .. | .ReplaceTable .. => true
  | _ => false

/-- The four dispatchers are one: read the registry if need be, then write the
table. -/
theorem apply_diff_eq (tick : Tick) (s : ArrowStore) (d : Diff) :
    apply_diff tick s d
      = if reads_registry d && s.type_registry.poisoned then
          (.error (.LockPoisoned RwLock.poison_text), s)
        else s.write_table d.table (apply_to_table s.type_registry.data tick d) := by
  cases hp : s.type_registry.poisoned <;> cases d <;>
    simp [apply_diff, apply_diff_update, apply_diff_insert, apply_diff_delete, apply_diff_replace,
      reads_registry, RwLock.read_store, RwLock.read, hp, Except.mapError] <;> rfl

theorem apply_diff_ok {tick : Tick} {s s' : ArrowStore} {d : Diff}
    (h : apply_diff tick s d = (.ok (), s')) :
    ∃ lock t', s.tables[d.table]? = some lock ∧ lock.poisoned = false
      ∧ apply_to_table s.type_registry.data tick d lock.data = (.ok (), t')
      ∧ s' = s.set_table d.table t' := by
  rw [apply_diff_eq] at h
  split at h
  · cases h
  rcases hlock : s.tables[d.table]? with _ | lock
  · simp [write_table, hlock] at h
  rw [write_table_of_some hlock (apply_to_table_returns _ _ _ _)] at h
  cases hp : lock.poisoned
  · simp only [hp, Bool.false_eq_true, if_false] at h
    obtain ⟨hres, rfl⟩ := Prod.mk.inj h
    exact ⟨lock, _, rfl, hp, Prod.ext hres rfl, rfl⟩
  · simp [hp] at h

theorem apply_diff_registry {tick : Tick} {s s' : ArrowStore} {d : Diff}
    (h : apply_diff tick s d = (.ok (), s')) :
    (reads_registry d && s.type_registry.poisoned) = false := by
  rw [apply_diff_eq] at h
  split at h
  · cases h
  · rename_i hreg
    exact Bool.eq_false_iff.2 hreg

/-- The converse of the two. -/
theorem apply_diff_of_table {tick : Tick} {s : ArrowStore} {d : Diff}
    {lock : RwLock VersionedTable} {t' : VersionedTable}
    (hreg : (reads_registry d && s.type_registry.poisoned) = false)
    (hlock : s.tables[d.table]? = some lock) (hp : lock.poisoned = false)
    (hrun : apply_to_table s.type_registry.data tick d lock.data = (.ok (), t')) :
    apply_diff tick s d = (.ok (), s.set_table d.table t') := by
  rw [apply_diff_eq, hreg, if_neg Bool.false_ne_true,
    write_table_of_some hlock (apply_to_table_returns _ _ _ _), hp, hrun,
    if_neg Bool.false_ne_true]

/-- The locks a diff needs are healthy, on the table it names. -/
def Locks (s : ArrowStore) (d : Diff) (lock : RwLock VersionedTable) : Prop :=
  (reads_registry d && s.type_registry.poisoned) = false ∧ lock.poisoned = false

/-- A diff that fails leaves the store, for want of a table or a lock, or it leaves the
store with one table as the failed diff left it. -/
theorem apply_diff_error {tick : Tick} {s s' : ArrowStore} {d : Diff} {e : ArrowStoreError}
    (h : apply_diff tick s d = (.error e, s')) :
    (s' = s ∧ ∀ lock, s.tables[d.table]? = some lock → ¬ s.Locks d lock)
      ∨ ∃ lock t', s.tables[d.table]? = some lock ∧ s.Locks d lock
        ∧ apply_to_table s.type_registry.data tick d lock.data = (.error e, t')
        ∧ s' = s.set_table d.table t' := by
  rw [apply_diff_eq] at h
  split at h
  · rename_i hreg
    exact .inl ⟨(Prod.mk.inj h).2.symm, fun _ _ hlocks => by simp [hlocks.1] at hreg⟩
  rename_i hreg
  rcases hlock : s.tables[d.table]? with _ | lock
  · rw [write_table, hlock] at h
    exact .inl ⟨(Prod.mk.inj h).2.symm, nofun⟩
  rw [write_table_of_some hlock (apply_to_table_returns _ _ _ _)] at h
  cases hp : lock.poisoned
  · simp only [hp, Bool.false_eq_true, if_false] at h
    obtain ⟨hres, rfl⟩ := Prod.mk.inj h
    exact .inr ⟨lock, _, rfl, ⟨Bool.eq_false_iff.2 hreg, hp⟩, Prod.ext hres rfl, rfl⟩
  · simp only [hp, if_true] at h
    obtain ⟨-, rfl⟩ := Prod.mk.inj h
    refine .inl ⟨rfl, fun lock' hlock' hlocks => ?_⟩
    obtain rfl : lock = lock' := Option.some.inj hlock'
    exact absurd hlocks.2 (by simp [hp])

theorem apply_diff_same (tick : Tick) (s : ArrowStore) (d : Diff) :
    SameButTables s (apply_diff tick s d).2 := by
  rw [apply_diff_eq]
  split
  · exact .refl _
  · exact write_table_same _ _ _

/-! ## Runs of diffs, table by table -/

/-- The diffs that name a table, run on the table. -/
def run_table (reg : TypeRegistry) (tick : Tick) (t : VersionedTable) (ds : List Diff) :
    ArrowStoreResult Unit × VersionedTable :=
  forEach (fun t d => apply_to_table reg tick d t) t ds

/-- The diffs of a list that name table `n`. -/
def diffs_of (n : String) (ds : List Diff) : List Diff := ds.filter fun d => d.table = n

omit [Render] in
theorem diffs_of_cons (n : String) (d : Diff) (ds : List Diff) :
    diffs_of n (d :: ds) = if d.table = n then d :: diffs_of n ds else diffs_of n ds := by
  simp only [diffs_of, List.filter_cons, decide_eq_true_eq]

omit [Render] in
theorem diffs_of_eq_nil {n : String} {ds : List Diff} :
    diffs_of n ds = [] ↔ ∀ d ∈ ds, d.table ≠ n := by
  simp [diffs_of, List.filter_eq_nil_iff]

/-- A run of diffs that goes through: every table has gone through its own diffs, no
lock has changed its health, and the rest of the store is as before. -/
theorem forEach_apply_diff_ok {tick : Tick} {s s' : ArrowStore} {ds : List Diff}
    (h : forEach (apply_diff tick) s ds = (.ok (), s')) :
    SameButTables s s' ∧ ∀ n : String,
      (s.tables[n]? = none → s'.tables[n]? = none ∧ diffs_of n ds = [])
      ∧ ∀ lock, s.tables[n]? = some lock → ∃ t', s'.tables[n]? = some { lock with data := t' }
          ∧ run_table s.type_registry.data tick lock.data (diffs_of n ds) = (.ok (), t')
          ∧ (diffs_of n ds ≠ [] → lock.poisoned = false) := by
  induction ds generalizing s with
  | nil =>
      obtain rfl : s = s' := by simpa using h
      exact ⟨.refl s, fun n => ⟨fun hn => ⟨hn, rfl⟩, fun lock hlock =>
        ⟨lock.data, hlock, rfl, fun hne => absurd rfl hne⟩⟩⟩
  | cons d ds ih =>
      obtain ⟨mid, hd, hds⟩ := forEach_cons_ok.1 h
      obtain ⟨lockd, td, hlockd, hpd, hrun, rfl⟩ := apply_diff_ok hd
      obtain ⟨hsame, htables⟩ := ih hds
      refine ⟨(set_table_same s d.table td).trans hsame, fun n => ?_⟩
      obtain ⟨hnone, hsome⟩ := htables n
      rw [tables_set_table] at hnone hsome
      rw [type_registry_set_table] at hsome
      rw [diffs_of_cons]
      by_cases hn : d.table = n
      · subst hn
        rw [if_pos rfl] at hsome
        refine ⟨fun hn => (by simp [hlockd] at hn), fun lock hlock => ?_⟩
        obtain rfl : lockd = lock := by simpa [hlockd] using hlock
        obtain ⟨t', ht', hrun', -⟩ := hsome _ rfl
        refine ⟨t', by simpa [RwLock.new, hpd] using ht', ?_, fun _ => hpd⟩
        rw [if_pos rfl, run_table, forEach_cons_of_ok hrun]
        exact hrun'
      · rw [if_neg hn] at hnone hsome ⊢
        exact ⟨hnone, hsome⟩

theorem forEach_apply_diff_registry {tick : Tick} {s s' : ArrowStore} {ds : List Diff}
    (h : forEach (apply_diff tick) s ds = (.ok (), s')) :
    ∀ d ∈ ds, (reads_registry d && s.type_registry.poisoned) = false := by
  induction ds generalizing s with
  | nil => simp
  | cons d ds ih =>
      obtain ⟨mid, hd, hds⟩ := forEach_cons_ok.1 h
      have hsame := (apply_diff_same tick s d).type_registry
      rw [hd] at hsame
      intro d' hd'
      rcases List.mem_cons.1 hd' with rfl | hmem
      · exact apply_diff_registry hd
      · rw [← hsame]
        exact ih hds d' hmem

/-- The other direction: diffs that go through on each table go through. -/
theorem forEach_apply_diff_of_tables {tick : Tick} {s : ArrowStore} {ds : List Diff}
    (hreg : ∀ d ∈ ds, (reads_registry d && s.type_registry.poisoned) = false)
    (h : ∀ d ∈ ds, ∃ lock t', s.tables[d.table]? = some lock ∧ lock.poisoned = false
      ∧ run_table s.type_registry.data tick lock.data (diffs_of d.table ds) = (.ok (), t')) :
    ∃ s', forEach (apply_diff tick) s ds = (.ok (), s') := by
  induction ds generalizing s with
  | nil => exact ⟨s, rfl⟩
  | cons d ds ih =>
      obtain ⟨lock, t', hlock, hp, hrun⟩ := h d List.mem_cons_self
      rw [diffs_of_cons, if_pos rfl, run_table, forEach_cons_ok] at hrun
      obtain ⟨mid, hd, hmid⟩ := hrun
      rw [forEach_cons_of_ok (apply_diff_of_table (hreg d List.mem_cons_self) hlock hp hd)]
      refine ih (fun d' hd' => hreg d' (List.mem_cons_of_mem _ hd')) fun d' hd' => ?_
      rw [tables_set_table, type_registry_set_table]
      by_cases hn : d.table = d'.table
      · exact ⟨.new mid, t', if_pos hn, rfl, hn ▸ hmid⟩
      · obtain ⟨lock', t'', hlock', hp', hrun'⟩ := h d' (List.mem_cons_of_mem _ hd')
        rw [diffs_of_cons, if_neg hn] at hrun'
        exact ⟨lock', t'', (if_neg hn).trans hlock', hp', hrun'⟩

/-! ## Saving -/

/-- None of the tables with these names has a poisoned lock. -/
def Healthy (s : ArrowStore) (names : List String) : Prop :=
  ∀ n ∈ names, ∀ lock, s.tables[n]? = some lock → lock.poisoned = false

instance (s : ArrowStore) (names : List String) : Decidable (s.Healthy names) :=
  decidable_of_iff (∀ n ∈ names, (s.tables[n]?.all fun lock => !lock.poisoned) = true) (by
    simp [Healthy, Option.all_eq_true])

omit [Render] in
theorem save_one_healthy {s : ArrowStore} {n : String} (saved : Map String Versions)
    (h : ∀ lock, s.tables[n]? = some lock → lock.poisoned = false) :
    ∃ saved', s.save_one saved n = (.ok (), saved')
      ∧ ∀ m : String, saved'[m]? = (if m = n then s.tables[n]?.map (·.data.versions)
          else none).or saved[m]? := by
  unfold save_one
  rcases hn : s.tables[n]? with _ | lock
  · exact ⟨saved, rfl, by simp⟩
  · have hread : lock.read_store = .ok lock.data := RwLock.read_store_ok.2 ⟨h lock hn, rfl⟩
    refine ⟨saved.insert n lock.data.versions, by simp [hread], fun m => ?_⟩
    by_cases hm : m = n
    · subst hm
      simp
    · have hne : ¬ n = m := fun h => hm h.symm
      simp [Std.ExtTreeMap.getElem?_insert, hm, hne]

omit [Render] in
/-- Saving succeeds on healthy tables, and holds the batches of those that exist. -/
theorem save_healthy {s : ArrowStore} {names : List String} (h : s.Healthy names) :
    ∃ saved, s.save_table_versions names = .ok saved
      ∧ ∀ n : String, saved[n]? = if n ∈ names then s.tables[n]?.map (·.data.versions) else none := by
  have hloop : ∀ (names : List String) (saved : Map String Versions), s.Healthy names →
      ∃ saved', forEach s.save_one saved names = (.ok (), saved')
        ∧ ∀ n : String, saved'[n]? = (if n ∈ names then s.tables[n]?.map (·.data.versions)
            else none).or saved[n]? := by
    intro names
    induction names with
    | nil => exact fun saved _ => ⟨saved, rfl, by simp⟩
    | cons m ms ih =>
        intro saved hms
        obtain ⟨saved₁, hm, hsaved₁⟩ := save_one_healthy saved (hms m List.mem_cons_self)
        obtain ⟨saved₂, hrest, hsaved₂⟩ := ih saved₁ fun n hn =>
          hms n (List.mem_cons_of_mem _ hn)
        refine ⟨saved₂, by rw [forEach_cons_of_ok hm, hrest], fun n => ?_⟩
        rw [hsaved₂, hsaved₁]
        rw [← Option.or_assoc]
        congr 1
        by_cases hnm : n = m
        · subst hnm
          cases s.tables[n]? <;> by_cases hn : n ∈ ms <;> simp [hn]
        · by_cases hn : n ∈ ms <;> simp [hnm, hn]
  obtain ⟨saved, hsaved, hget⟩ := hloop names ∅ h
  exact ⟨saved, by simp [save_table_versions, hsaved], fun n => by simpa using hget n⟩

omit [Render] in
/-- Saving fails on a poisoned table and on nothing else. -/
theorem save_ok_iff {s : ArrowStore} {names : List String} :
    (∃ saved, s.save_table_versions names = .ok saved) ↔ s.Healthy names := by
  constructor
  · rintro ⟨saved, h⟩ n hn lock hlock
    unfold save_table_versions at h
    split at h
    · cases h
    · rename_i saved' hloop
      obtain ⟨t, t', ht⟩ := forEach_ok_mem hloop hn
      unfold save_one at ht
      simp only [hlock] at ht
      split at ht
      · cases ht
      · exact (RwLock.read_store_ok.1 (by assumption)).1
  · intro h
    obtain ⟨saved, hsaved, -⟩ := save_healthy h
    exact ⟨saved, hsaved⟩

/-! ## Restoring -/

omit [Render] in
theorem restore_one_same (s : ArrowStore) (entry : String × Versions) :
    SameButTables s (restore_one s entry).2 := by
  unfold restore_one
  split
  · exact .refl _
  · exact write_table_same _ _ _

/-- What a round does to the table it is about. -/
def put_back (v : Versions) (lock : RwLock VersionedTable) : RwLock VersionedTable :=
  if lock.poisoned then lock else { lock with data := { lock.data with versions := v } }

omit [Render] in
/-- One round puts the saved batches into its own table, if the lock is healthy. -/
theorem restore_one_tables (s : ArrowStore) (entry : String × Versions) (n : String) :
    (restore_one s entry).2.tables[n]?
      = if entry.1 = n then
          s.tables[n]?.map (put_back entry.2)
        else s.tables[n]? := by
  unfold restore_one
  rcases hn : s.tables[entry.1]? with _ | lock
  · by_cases hne : entry.1 = n
    · subst hne
      simp [hn]
    · simp [hne]
  · exact write_table_tables s entry.1 (fun t => by simp [Returns]) n

omit [Render] in
/-- What putting back the saved batches makes of the store. -/
theorem restored_tables (s : ArrowStore) (saved : Map String Versions) (n : String) :
    (saved.toList.foldl (fun s entry => (restore_one s entry).2) s).tables[n]?
      = saved[n]?.elim s.tables[n]? fun v => s.tables[n]?.map (put_back v) :=
  foldl_toList (fun s entry => (restore_one s entry).2) (fun s (n : String) => s.tables[n]?)
    (fun v o => o.map (put_back v)) restore_one_tables saved s n

omit [Render] in
theorem restored_same (s : ArrowStore) (l : List (String × Versions)) :
    SameButTables s (l.foldl (fun s entry => (restore_one s entry).2) s) := by
  induction l generalizing s with
  | nil => exact .refl s
  | cons e l ih => exact (restore_one_same s e).trans (ih _)

omit [Render] in
/-- On healthy tables `restore_table_versions` puts everything back. -/
theorem restore_healthy {s : ArrowStore} {l : List (String × Versions)}
    (h : s.Healthy (l.map Prod.fst)) :
    forEach restore_one s l
      = (.ok (), l.foldl (fun s entry => (restore_one s entry).2) s) := by
  induction l generalizing s with
  | nil => rfl
  | cons e l ih =>
      have hok : (restore_one s e).1 = .ok () := by
        unfold restore_one
        rcases hn : s.tables[e.1]? with _ | lock
        · rfl
        · have hp : lock.poisoned = false := h e.1 (by simp) lock hn
          rw [write_table_of_some hn (by simp [Returns]), hp]
          rfl
      have hstep : restore_one s e = (.ok (), (restore_one s e).2) := Prod.ext hok rfl
      rw [forEach_cons_of_ok hstep, List.foldl_cons]
      refine ih fun n hn lock hlock => ?_
      rw [restore_one_tables] at hlock
      have hp : ∀ lock, s.tables[n]? = some lock → lock.poisoned = false :=
        h n (by simpa using .inr (by simpa using hn))
      split at hlock
      · obtain ⟨lock', hlock', rfl⟩ := Option.map_eq_some_iff.1 hlock
        simp [put_back, hp lock' hlock']
      · exact hp lock hlock

/-! ## Snapshots -/

omit [Render] in
theorem snapshot_partitions_same {name : String} {table : VersionedTable}
    (snapshot : WorldSnapshot) (ids : List String) :
    (forEach (snapshot_partition name table) snapshot ids).2.tables = snapshot.tables
      ∧ (forEach (snapshot_partition name table) snapshot ids).2.tick = snapshot.tick := by
  refine forEach_invariant ids
    (P := fun sn : WorldSnapshot => sn.tables = snapshot.tables ∧ sn.tick = snapshot.tick)
    ?_ ⟨rfl, rfl⟩
  intro sn id _ hsn
  unfold snapshot_partition
  split
  · exact hsn
  · exact hsn

omit [Render] in
/-- A poisoned lock fails the whole snapshot. -/
theorem do_generate_snapshot_healthy {s s' : ArrowStore} {tick : Tick} {snapshot : WorldSnapshot}
    (h : s.do_generate_snapshot tick = (.ok snapshot, s')) (n : String)
    (lock : RwLock VersionedTable) (hlock : s.tables[n]? = some lock) : lock.poisoned = false := by
  unfold do_generate_snapshot at h
  simp only at h
  split at h
  · cases h
  rename_i hloop
  obtain ⟨t, t', ht⟩ := forEach_ok_mem hloop
    (Std.ExtTreeMap.mem_toList_iff_getElem?_eq_some.2 hlock)
  unfold snapshot_table at ht
  split at ht
  · cases ht
  · exact (RwLock.read_store_ok.1 (by assumption)).1

omit [Render] in
/-- A generated snapshot holds every table as it is, under the tick asked for, and
is stored under that tick. -/
theorem do_generate_snapshot_ok {s s' : ArrowStore} {tick : Tick} {snapshot : WorldSnapshot}
    (h : s.do_generate_snapshot tick = (.ok snapshot, s')) :
    snapshot.tick = tick
      ∧ (∀ n : String, snapshot.tables[n]? = s.tables[n]?.map (·.data))
      ∧ s' = { s with
          generation := (s.generation + 1) % 2 ^ 64
          snapshots := s.snapshots.insert tick snapshot } := by
  have hhealthy := do_generate_snapshot_healthy h
  unfold do_generate_snapshot at h
  simp only at h
  split at h
  · cases h
  rename_i snapshot' hloop
  obtain ⟨hsnap, rfl⟩ := Prod.mk.inj h
  obtain rfl : snapshot' = snapshot := by simpa using hsnap
  -- registering partitions does not move the tick of the snapshot
  have htick : snapshot'.tick = tick := by
    have hinv := forEach_invariant s.tables.toList (f := snapshot_table)
      (P := fun sn => sn.tick = tick) ?_ (s := .new tick) rfl
    · rw [hloop] at hinv
      exact hinv
    · intro sn e _ hsn
      unfold snapshot_table
      split
      · exact hsn
      · exact (snapshot_partitions_same _ _).2.trans hsn
  -- a table whose lock is poisoned would be left out
  have hstep : ∀ (sn : WorldSnapshot) (e : String × RwLock VersionedTable) (n : String),
      (snapshot_table sn e).2.tables[n]?
        = if e.1 = n then (if e.2.poisoned then sn.tables[n]? else some e.2.data)
          else sn.tables[n]? := by
    intro sn e n
    unfold snapshot_table
    cases hp : e.2.poisoned
    · have hread : e.2.read_store = .ok e.2.data := RwLock.read_store_ok.2 ⟨hp, rfl⟩
      simp only [hread, (snapshot_partitions_same _ _).1, WorldSnapshot.register_table,
        Std.ExtTreeMap.getElem?_insert]
      simp
    · have hread : e.2.read_store = .error (.LockPoisoned RwLock.poison_text) :=
        RwLock.read_store_error.2 ⟨hp, rfl⟩
      simp [hread]
  refine ⟨htick, fun n => ?_, rfl⟩
  have hget := foldl_toList (fun sn e => (snapshot_table sn e).2) (fun sn (n : String) => sn.tables[n]?)
    (fun lock o => if lock.poisoned then o else some lock.data) hstep s.tables (.new tick) n
  rw [forEach_ok_foldl hloop]
  refine hget.trans ?_
  rcases hn : s.tables[n]? with _ | lock
  · simp [WorldSnapshot.new]
  · simp [hhealthy n lock hn]

omit [Render] in
theorem generate_snapshot_ok {s s' : ArrowStore} {tick : Tick} {snapshot : WorldSnapshot} :
    s.generate_snapshot tick = (.ok snapshot, s')
      ↔ s.InSimulation ∧ s.do_generate_snapshot tick = (.ok snapshot, s') := by
  rw [← check_commit_ok]
  unfold generate_snapshot
  rcases s.check_commit with e | ⟨⟩ <;> simp

omit [Render] in
/-- A snapshot is made of the tables. -/
theorem generate_snapshot_congr {s s' u : ArrowStore} {tick : Tick} {snapshot : WorldSnapshot}
    (htables : u.tables = s.tables) (hlifecycle : u.lifecycle = s.lifecycle)
    (h : s.generate_snapshot tick = (.ok snapshot, s')) :
    ∃ u', u.generate_snapshot tick = (.ok snapshot, u') ∧ u'.tables = s'.tables
      ∧ u'.get_snapshot tick = s'.get_snapshot tick := by
  obtain ⟨hsim, hdo⟩ := generate_snapshot_ok.1 h
  obtain ⟨-, -, rfl⟩ := do_generate_snapshot_ok hdo
  have hsim' : u.InSimulation := by
    rwa [InSimulation, hlifecycle]
  obtain ⟨u', hu⟩ : ∃ u', u.do_generate_snapshot tick = (.ok snapshot, u') := by
    unfold do_generate_snapshot at hdo ⊢
    simp only [htables] at hdo ⊢
    split at hdo
    · cases hdo
    · rename_i hloop
      obtain ⟨hsnap, -⟩ := Prod.mk.inj hdo
      simp only [hsnap]
      exact ⟨_, rfl⟩
  obtain ⟨-, -, rfl⟩ := do_generate_snapshot_ok hu
  exact ⟨_, generate_snapshot_ok.2 ⟨hsim', hu⟩, htables, by simp [get_snapshot]⟩

/-! ## A list of diffs -/

omit [Render] in
theorem healthy_dedup {s : ArrowStore} {names : List String} :
    s.Healthy names.dedup ↔ s.Healthy names := by
  simp only [Healthy, List.mem_dedup]

/-- When a list of diffs is applied: every table it names can be read beforehand, and
every diff goes through. -/
theorem apply_diffs_ok {s s' : ArrowStore} {tick : Tick} {ds : List Diff} :
    s.apply_diffs tick ds = (.ok (), s')
      ↔ s.InSimulation ∧ s.Healthy (ds.map Diff.table)
        ∧ forEach (apply_diff tick) s ds = (.ok (), s') := by
  rw [← check_commit_ok, ← healthy_dedup, ← save_ok_iff]
  unfold apply_diffs
  rcases hc : s.check_commit with e | ⟨⟩
  · simp
  rcases hs : s.save_table_versions (ds.map Diff.table).dedup with e | saved
  · simp [hs]
  · rcases hf : forEach (apply_diff tick) s ds with ⟨_ | _, s''⟩ <;> simp [hs]

/-- A single diff, on a table whose locks are healthy. -/
theorem apply_single {s s' : ArrowStore} {tick : Tick} {d : Diff} {lock : RwLock VersionedTable}
    (hsim : s.InSimulation) (hlock : s.tables[d.table]? = some lock) (hlocks : s.Locks d lock) :
    s.apply_diffs tick [d] = (.ok (), s')
      ↔ ∃ t', apply_to_table s.type_registry.data tick d lock.data = (.ok (), t')
        ∧ s' = s.set_table d.table t' := by
  have hhealthy : s.Healthy ([d].map Diff.table) := by
    intro n hn lock' hlock'
    obtain rfl := List.mem_singleton.1 hn
    obtain rfl := Option.some.inj (hlock.symm.trans hlock')
    exact hlocks.2
  rw [apply_diffs_ok, forEach_cons_ok]
  constructor
  · rintro ⟨-, -, mid, hone, hnil⟩
    obtain rfl : mid = s' := by simpa using hnil
    obtain ⟨lock', t', hlock', -, hrun, hmid⟩ := apply_diff_ok hone
    obtain rfl := Option.some.inj (hlock.symm.trans hlock')
    exact ⟨t', hrun, hmid⟩
  · rintro ⟨t', hrun, rfl⟩
    exact ⟨hsim, hhealthy, _, apply_diff_of_table hlocks.1 hlock hlocks.2 hrun, rfl⟩

/-- The other outcome: it was refused before anything was written, or some diff of it
failed and the batches went back. -/
theorem apply_diffs_error {s s' : ArrowStore} {tick : Tick} {ds : List Diff}
    {e : ArrowStoreError} (h : s.apply_diffs tick ds = (.error e, s')) :
    (s' = s ∧ ¬ (s.InSimulation ∧ s.Healthy (ds.map Diff.table)))
      ∨ ∃ saved mid, s.InSimulation ∧ s.Healthy (ds.map Diff.table)
        ∧ s.save_table_versions (ds.map Diff.table).dedup = .ok saved
        ∧ forEach (apply_diff tick) s ds = (.error e, mid)
        ∧ s' = saved.toList.foldl (fun s entry => (restore_one s entry).2) mid := by
  rw [← check_commit_ok, ← healthy_dedup, ← save_ok_iff]
  unfold apply_diffs at h
  rcases hc : s.check_commit with e' | ⟨⟩
  · rw [hc] at h
    exact .inl ⟨(Prod.mk.inj h).2.symm, by simp⟩
  rcases hs : s.save_table_versions (ds.map Diff.table).dedup with e' | saved
  · rw [hc] at h
    simp only [hs] at h
    exact .inl ⟨(Prod.mk.inj h).2.symm, by simp⟩
  · rw [hc] at h
    simp only [hs] at h
    split at h
    · cases h
    · rename_i e' mid hf
      obtain ⟨he, rfl⟩ := Prod.mk.inj h
      obtain rfl : e' = e := by simpa using he
      exact .inr ⟨saved, mid, rfl, ⟨saved, rfl⟩, rfl, hf, rfl⟩

end ArrowStore

end Scharnhorst
