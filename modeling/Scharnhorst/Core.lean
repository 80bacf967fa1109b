/-
The vocabulary of the engine: ticks, row ids, the position map, diffs, tiers, the
lifecycle, and the locks the store keeps its tables behind.

A `RwLock` is modelled by the one thing about it that a sequential caller can see:
a writer that panics while it holds the guard leaves it poisoned, and every later
`read` or `write` of it is an error. Most of the store's `LockPoisoned` paths are
there for that case, and it is reachable, so it is part of the model and not
assumed away. Waiting on a lock is not modelled: every operation here is one call
that runs to its end.
-/
import Mathlib.Algebra.Ring.Nat
import Scharnhorst.Json
import Scharnhorst.Maps

set_option autoImplicit false

namespace Scharnhorst

/-! ## Identifiers -/

abbrev Tick := Nat
abbrev RowId := Nat
abbrev TableId := Nat

def u64_MAX : Nat := 2 ^ 64 - 1

def Tick.ZERO : Tick := 0

/-- `u64::MAX` is the "no tick" sentinel of the query engine, so the last tick is
the one before it. -/
def Tick.MAX : Tick := u64_MAX - 1

def Tick.next (t : Tick) : Tick :=
  if Tick.MAX ≤ t then Tick.MAX else t + 1

theorem Tick.next_of_lt {t : Tick} (h : t < Tick.MAX) : Tick.next t = t + 1 :=
  if_neg (Nat.not_le.2 h)

theorem Tick.le_next {t : Tick} (h : t ≤ Tick.MAX) : t ≤ Tick.next t := by
  unfold Tick.next
  split
  · exact h
  · exact Nat.le_succ t

theorem Tick.next_le_max (t : Tick) : Tick.next t ≤ Tick.MAX := by
  unfold Tick.next
  split
  · exact Nat.le_refl _
  · rename_i hlt
    exact Nat.lt_of_not_le hlt

/-- Counting ticks stops at the last one. -/
theorem Tick.next_min (n : Nat) : Tick.next (min n Tick.MAX) = min (n + 1) Tick.MAX := by
  rcases Nat.lt_or_ge n Tick.MAX with hlt | hge
  · rw [Nat.min_eq_left (Nat.le_of_lt hlt), Tick.next_of_lt hlt, Nat.min_eq_left hlt]
  · rw [Nat.min_eq_right hge, Nat.min_eq_right (Nat.le_succ_of_le hge)]
    exact if_pos (Nat.le_refl _)

/-! ## The position map -/

/-- From a row id to the `(batch_idx, row_offset)` it is stored at. -/
structure RowPositionMap where
  entries : Map RowId (Nat × Nat)
deriving DecidableEq

namespace RowPositionMap

def new : RowPositionMap := ⟨∅⟩

def insert (m : RowPositionMap) (row_id : RowId) (batch_index row_offset : Nat) :
    RowPositionMap :=
  ⟨m.entries.insert row_id (batch_index, row_offset)⟩

def remove (m : RowPositionMap) (row_id : RowId) : RowPositionMap :=
  ⟨m.entries.erase row_id⟩

def position_of (m : RowPositionMap) (row_id : RowId) : Option (Nat × Nat) :=
  m.entries[row_id]?

def contains (m : RowPositionMap) (row_id : RowId) : Bool :=
  m.entries.contains row_id

variable (m : RowPositionMap) (r q : RowId) (b o : Nat)

/-- Two position maps that place every row alike are the same map. -/
@[ext] theorem ext {m m' : RowPositionMap} (h : ∀ r, m.position_of r = m'.position_of r) :
    m = m' := by
  obtain ⟨e⟩ := m
  obtain ⟨e'⟩ := m'
  exact congrArg mk (Std.ExtTreeMap.ext_getElem? h)

@[simp] theorem position_of_new : new.position_of r = none := by
  simp [position_of, new]

@[simp] theorem position_of_insert :
    (m.insert q b o).position_of r = if q = r then some (b, o) else m.position_of r := by
  simp [position_of, insert, Std.ExtTreeMap.getElem?_insert]

@[simp] theorem position_of_remove :
    (m.remove q).position_of r = if q = r then none else m.position_of r := by
  simp [position_of, remove, Std.ExtTreeMap.getElem?_erase]

theorem contains_eq_isSome : m.contains r = (m.position_of r).isSome := by
  simp [contains, position_of]

@[simp] theorem contains_eq_true : m.contains r = true ↔ ∃ p, m.position_of r = some p := by
  rw [contains_eq_isSome, Option.isSome_iff_exists]

@[simp] theorem contains_eq_false : m.contains r = false ↔ m.position_of r = none := by
  rw [contains_eq_isSome, Option.isSome_eq_false_iff, Option.isNone_iff_eq_none]

end RowPositionMap

/-! ## Diffs -/

/-- One change to one row or one table. -/
inductive Diff where
  | Update (table : String) (row : RowId) (column : String) (value : Json)
  | Insert (table : String) (row : RowId) (values : JsonMap)
  | Delete (table : String) (row : RowId)
  | ReplaceTable (table : String) (rows : List JsonMap)

namespace Diff

def table : Diff → String
  | Update table _ _ _ => table
  | Insert table _ _ => table
  | Delete table _ => table
  | ReplaceTable table _ => table

@[simp] theorem table_update (t : String) (r : RowId) (c : String) (v : Json) :
    (Update t r c v).table = t := rfl

@[simp] theorem table_insert (t : String) (r : RowId) (vs : JsonMap) :
    (Insert t r vs).table = t := rfl

@[simp] theorem table_delete (t : String) (r : RowId) : (Delete t r).table = t := rfl

@[simp] theorem table_replaceTable (t : String) (rows : List JsonMap) :
    (ReplaceTable t rows).table = t := rfl

end Diff

/-! ## Text

What `serde_json` and the float formatter print is used as text and never parsed
back: in error messages, as the digest's input, and as the key of the primary-key
index. It is a parameter. -/

class Render where
  /-- `impl Display for serde_json::Value`: compact JSON. -/
  value_to_string : Json → String
  /-- `impl Debug for serde_json::Value`. -/
  value_debug : Json → String
  /-- `impl Display for f64`. -/
  f64_to_string : F64 → String
  /-- `serde_json::to_string` of a diff. -/
  diff_to_string : Diff → Except String String

/-! ## Lifecycle -/

inductive Lifecycle where
  | Initialization
  | Simulation
deriving DecidableEq

structure LifecycleGuard where
  lifecycle : Lifecycle
deriving DecidableEq

namespace LifecycleGuard

def new : LifecycleGuard := ⟨.Initialization⟩

def is_initialization (g : LifecycleGuard) : Bool := g.lifecycle = .Initialization

def is_simulation (g : LifecycleGuard) : Bool := g.lifecycle = .Simulation

/-- The error is the `Display` text of the source's `CoreError::InvalidPhase`. -/
def advance_to_simulation (g : LifecycleGuard) : Except String LifecycleGuard :=
  if g.is_simulation then
    .error "invalid lifecycle phase: already in Simulation phase, cannot advance again"
  else
    .ok ⟨.Simulation⟩

end LifecycleGuard

/-! ## Errors of the store -/

/-- `ArrowStoreError`, the variants the modelled functions raise. `Panic` is no
variant of the source: it stands for a call that unwound instead of returning, and
`RwLock.write_with` is the only place that looks at it. -/
inductive ArrowStoreError where
  | TableNotFound (name : String)
  | TableAlreadyExists (name : String)
  | PartitionNotFound (region_id : String)
  | SnapshotNotFound (tick : Tick)
  | TickNotFound (table : String) (tick : Tick)
  | DuplicateRowId (table : String) (row_id : RowId)
  | Schema (message : String)
  | Arrow (message : String)
  | Io (message : String)
  | LockPoisoned (message : String)
  | Lifecycle (message : String)
  | Generic (message : String)
  | Panic
deriving DecidableEq

abbrev ArrowStoreResult := Except ArrowStoreError

/-- The `Display` text of an error. -/
def ArrowStoreError.to_string : ArrowStoreError → String
  | TableNotFound name => s!"table not found: {name}"
  | TableAlreadyExists name => s!"table already exists: {name}"
  | PartitionNotFound region_id => s!"partition not found: {region_id}"
  | SnapshotNotFound tick => s!"snapshot not found for tick {tick}"
  | TickNotFound table tick => s!"tick not found: tick {tick} does not exist in table {table}"
  | DuplicateRowId table row_id => s!"duplicate RowId {row_id} in table '{table}'"
  | Schema message => s!"schema error: {message}"
  | Arrow message => s!"arrow error: {message}"
  | Io message => s!"io error: {message}"
  | LockPoisoned message => s!"lock poisoned: {message}"
  | Lifecycle message => s!"lifecycle error: {message}"
  | Generic message => s!"generic error: {message}"
  | Panic => ""

/-! ## Locks -/

/-- A `RwLock` or a `Mutex` between two calls. -/
structure RwLock (α : Type) where
  data : α
  poisoned : Bool := false
deriving DecidableEq

namespace RwLock

/-- The `Display` text of a `PoisonError`. -/
def poison_text : String := "poisoned lock: another task failed inside"

variable {α : Type}

def new (data : α) : RwLock α := { data }

/-- Write through a guard. -/
def set (lock : RwLock α) (data : α) : RwLock α := { lock with data }

@[simp] theorem data_set (lock : RwLock α) (data : α) : (lock.set data).data = data := rfl

@[simp] theorem poisoned_set (lock : RwLock α) (data : α) :
    (lock.set data).poisoned = lock.poisoned := rfl

/-- `lock.read()`, and as far as the verdict goes `lock.write()` too. -/
def read (lock : RwLock α) : Except String α :=
  if lock.poisoned then .error poison_text else .ok lock.data

@[simp] theorem read_new (data : α) : (new data).read = .ok data := rfl

/-- A call that holds the write guard while `f` runs. What `f` wrote stays, also
when it returns an error; if it unwinds, the guard is dropped by a panicking thread
and the lock is poisoned. -/
def write_with {β : Type} (lock : RwLock α) (f : α → ArrowStoreResult β × α) :
    ArrowStoreResult β × RwLock α :=
  match lock.read with
  | .error e => (.error (.LockPoisoned e), lock)
  | .ok a =>
    let (result, a') := f a
    match result with
    | .error .Panic => (.error .Panic, { data := a', poisoned := true })
    | result => (result, { lock with data := a' })

/-- `read()` under the store's error type. -/
def read_store (lock : RwLock α) : ArrowStoreResult α :=
  lock.read.mapError .LockPoisoned

theorem read_ok {lock : RwLock α} {a : α} :
    lock.read = .ok a ↔ lock.poisoned = false ∧ lock.data = a := by
  cases h : lock.poisoned <;> simp [read, h]

theorem read_healthy {lock : RwLock α} (h : lock.poisoned = false) : lock.read = .ok lock.data :=
  read_ok.2 ⟨h, rfl⟩

theorem read_poisoned {lock : RwLock α} (h : lock.poisoned = true) :
    lock.read = .error poison_text := by
  simp [read, h]

end RwLock

/-! ## Tiers -/

/-- The tier of a table: what is saved, what is computed from that, and what is kept for a
moment only. -/
inductive StateTier where
  | Authority
  | Derived
  | Ephemeral
deriving DecidableEq

/-- The `Debug` text of a tier. -/
def StateTier.debug : StateTier → String
  | Authority => "Authority"
  | Derived => "Derived"
  | Ephemeral => "Ephemeral"

structure TierMetadata where
  tier : StateTier
  owner_subsystem : String
  description : String
deriving DecidableEq

structure TierRegistry where
  entries : Map String TierMetadata
deriving DecidableEq

namespace TierRegistry

def new : TierRegistry := ⟨∅⟩

/-- The error is the `Display` text of `CoreError::DuplicateRegistration`. -/
def register (reg : TierRegistry) (name : String) (tier : StateTier) (owner desc : String) :
    Except String Unit × TierRegistry :=
  match reg.entries[name]? with
  | some existing =>
    (.error s!"duplicate tier registration: table '{name}' already registered as {existing.tier.debug}",
      reg)
  | none =>
    (.ok (), ⟨reg.entries.insert name { tier, owner_subsystem := owner, description := desc }⟩)

def is_authority (reg : TierRegistry) (name : String) : Bool :=
  match reg.entries[name]? with
  | some metadata => metadata.tier = .Authority
  | none => false

/-! ## A registry with one tier -/

variable {reg : TierRegistry} {name : String}

/-- Nothing is registered in another tier. -/
def AllAuthority (reg : TierRegistry) : Prop :=
  ∀ (name : String) (metadata : TierMetadata),
    reg.entries[name]? = some metadata → metadata.tier = .Authority

theorem allAuthority_new : TierRegistry.new.AllAuthority := by
  intro name metadata h
  rw [new, Std.ExtTreeMap.getElem?_empty] at h
  exact absurd h (by simp)

theorem AllAuthority.is_authority_iff (h : reg.AllAuthority) :
    reg.is_authority name = true ↔ name ∈ reg.entries := by
  rw [Std.ExtTreeMap.mem_iff_isSome_getElem?]
  unfold is_authority
  rcases hentry : reg.entries[name]? with _ | metadata
  · simp
  · simp [h name metadata hentry]

/-- A table that is registered already stays as it is, and is Authority. -/
theorem AllAuthority.register (h : reg.AllAuthority) (owner desc : String) :
    (reg.register name .Authority owner desc).2.AllAuthority := by
  unfold TierRegistry.register
  split
  · exact h
  · intro other metadata hother
    rw [Std.ExtTreeMap.getElem?_insert] at hother
    split at hother
    · obtain rfl := Option.some.inj hother
      rfl
    · exact h other metadata hother

theorem mem_register (tier : StateTier) (owner desc other : String) :
    other ∈ (reg.register name tier owner desc).2.entries ↔ other = name ∨ other ∈ reg.entries := by
  unfold TierRegistry.register
  split
  · rename_i existing hexisting
    have hmem : name ∈ reg.entries :=
      Std.ExtTreeMap.mem_iff_isSome_getElem?.2 (by rw [hexisting]; rfl)
    constructor
    · intro h
      exact .inr h
    · rintro (rfl | h)
      · exact hmem
      · exact h
  · rw [Maps.mem_insert_iff]

end TierRegistry

end Scharnhorst
