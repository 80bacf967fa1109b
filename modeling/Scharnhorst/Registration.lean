/-
The registration of systems and of consumers.

A system is in two maps, and on the bus if it has a refresh callback. An external consumer
is on the bus alone. The bus knows both by name and by nothing else, so a consumer that is
registered under the id of a system takes the place of its callback, and the other way
round, and whoever goes takes away what stands under the name.

Where the two keep out of each other's names, what is registered and what is on the bus
agree after any sequence of calls.
-/
import Scharnhorst.Listed
import Scharnhorst.Refresh

set_option autoImplicit false

namespace Scharnhorst

variable {Q J S : Type}

/-- The `Debug` text of a phase. -/
def Phase.debug : Phase → String
  | PreTick => "PreTick"
  | Economy => "Economy"
  | Diplomacy => "Diplomacy"
  | Military => "Military"
  | PostTick => "PostTick"

/-! ## The bus -/

namespace RefreshSignalBus

/-- The handle of a consumer is its name. -/
def register (consumers : RwLock (List (String × RefreshCallback S))) (name : String)
    (callback : RefreshCallback S) :
    SchedulerResult String × RwLock (List (String × RefreshCallback S)) :=
  match Scheduler.lock "refresh signal" consumers with
  | .error e => (.error e, consumers)
  | .ok entries => (.ok name, consumers.set (Listed.insert entries name callback))

/-- `unregister`, and `unregister_by_name`, which is the same. -/
def unregister_by_name (consumers : RwLock (List (String × RefreshCallback S))) (name : String) :
    SchedulerResult Unit × RwLock (List (String × RefreshCallback S)) :=
  match Scheduler.lock "refresh signal" consumers with
  | .error e => (.error e, consumers)
  | .ok entries =>
    ((if (entries.lookup name).isSome then .ok () else .error (.RefreshBusLookupFailed name)),
      consumers.set (Listed.remove entries name))

end RefreshSignalBus

/-! ## The scheduler -/

namespace Scheduler

/-- `Scheduler::new`. -/
def new (journal : Journal Q J) (query_engine : Q) (publishes : Bool) (kept : S) :
    Scheduler Q J S where
  systems := .new []
  registrations := .new []
  pending_commands := .new []
  journal := .new journal
  query_engine
  publishes
  refresh_bus := .new []
  current_tick := 0
  generation := 0
  initialized := false
  kept

/-- `if let Some(cb)`: the callback of a system, if it has one. -/
def register_callback (consumers : RwLock (List (String × RefreshCallback S))) (id : String) :
    Option (RefreshCallback S) → SchedulerResult Unit × RwLock (List (String × RefreshCallback S))
  | none => (.ok (), consumers)
  | some cb =>
    let (result, consumers) := RefreshSignalBus.register consumers id cb
    (result.map fun _ => (), consumers)

def register_system (sch : Scheduler Q J S) (system : SimSystem Q S) :
    SchedulerResult Unit × Scheduler Q J S :=
  if sch.initialized then (.error .Initialized, sch)
  else
    let id := system.id
    let reg := SystemRegistration.from_system system
    match lock "systems" sch.systems with
    | .error e => (.error e, sch)
    | .ok systems =>
      match lock "registrations" sch.registrations with
      | .error e => (.error e, sch)
      | .ok registrations =>
        if (systems.lookup id).isSome then (.error (.SystemAlreadyRegistered id), sch)
        else
          match (registrations.map Prod.snd).filter reg.has_write_conflict with
          | conflict :: _ =>
            let table := (reg.conflicting_tables conflict).head?.getD "<unknown>"
            (.error (.WriteConflict reg.phase.debug id conflict.system_id table), sch)
          | [] =>
            -- the bus is the last that can refuse; the maps are written after it
            match register_callback sch.refresh_bus id reg.refresh_callback with
            | (.error e, _) => (.error e, sch)
            | (.ok (), refresh_bus) =>
              (.ok (),
                { sch with
                  refresh_bus
                  registrations := sch.registrations.set (Listed.insert registrations id reg)
                  systems := sch.systems.set (Listed.insert systems id system) })

def unregister_system (sch : Scheduler Q J S) (system_id : String) :
    SchedulerResult Unit × Scheduler Q J S :=
  match lock "systems" sch.systems with
  | .error e => (.error e, sch)
  | .ok systems =>
    match lock "registrations" sch.registrations with
    | .error e => (.error e, sch)
    | .ok registrations =>
      (.ok (),
        { sch with
          systems := sch.systems.set (Listed.remove systems system_id)
          registrations := sch.registrations.set (Listed.remove registrations system_id)
          refresh_bus := (RefreshSignalBus.unregister_by_name sch.refresh_bus system_id).2 })

def register_consumer (sch : Scheduler Q J S) (name : String) (callback : RefreshCallback S) :
    SchedulerResult String × Scheduler Q J S :=
  let (result, refresh_bus) := RefreshSignalBus.register sch.refresh_bus name callback
  (result, { sch with refresh_bus })

def unregister_consumer (sch : Scheduler Q J S) (handle : String) :
    SchedulerResult Unit × Scheduler Q J S :=
  let (result, refresh_bus) := RefreshSignalBus.unregister_by_name sch.refresh_bus handle
  (result, { sch with refresh_bus })

/-- The pairs that the two nested loops go through. -/
def pairs {α : Type} : List α → List (α × α)
  | [] => []
  | a :: as => as.map (fun b => (a, b)) ++ pairs as

/-- What `initialize` finds wrong with the registrations, in the order in which it looks. -/
def registration_error (systems : List (String × SimSystem Q S))
    (registrations : List (String × SystemRegistration S)) : Option SchedulerError :=
  match registrations.find? fun e => e.2.read_tables.isEmpty && e.2.write_tables.isEmpty with
  | some (id, _) => some (.Generic s!"system '{id}' has no read or write tables declared")
  | none =>
    match registrations.find? fun e => (systems.lookup e.1).isNone with
    | some (id, _) => some (.Generic s!"registration '{id}' has no corresponding system")
    | none =>
      -- each pair once, the earlier registration first
      (pairs (registrations.map Prod.snd)).findSome? fun p =>
        if p.1.has_write_conflict p.2 then
          (p.1.conflicting_tables p.2).head?.map fun table =>
            .WriteConflict p.1.phase.debug p.1.system_id p.2.system_id table
        else none

/-- `Scheduler::initialize`. `is_schema_frozen` is the engine's, with the text of its error. -/
def initialize_scheduler (is_schema_frozen : Q → Except String Bool) (sch : Scheduler Q J S) :
    SchedulerResult Unit × Scheduler Q J S :=
  if sch.initialized then (.ok (), sch)
  else
    match is_schema_frozen sch.query_engine with
    | .error e => (.error (.QueryEngine e), sch)
    | .ok false => (.error .SchemaNotFrozen, sch)
    | .ok true =>
      match lock "systems" sch.systems with
      | .error e => (.error e, sch)
      | .ok systems =>
        match lock "registrations" sch.registrations with
        | .error e => (.error e, sch)
        | .ok registrations =>
          match registration_error systems registrations with
          | some e => (.error e, sch)
          | none => (.ok (), { sch with initialized := true })

end Scheduler

/-! ## Calls -/

inductive RegistrationOp (Q S : Type) where
  | RegisterSystem (system : SimSystem Q S)
  | UnregisterSystem (system_id : String)
  | RegisterConsumer (name : String) (callback : RefreshCallback S)
  | UnregisterConsumer (handle : String)
  | Initialize

/-- A call, and whether it went through. -/
def Scheduler.registration (is_schema_frozen : Q → Except String Bool) (sch : Scheduler Q J S) :
    RegistrationOp Q S → SchedulerResult Unit × Scheduler Q J S
  | .RegisterSystem system => sch.register_system system
  | .UnregisterSystem system_id => sch.unregister_system system_id
  | .RegisterConsumer name callback =>
    let (result, sch) := sch.register_consumer name callback
    (result.map fun _ => (), sch)
  | .UnregisterConsumer handle => sch.unregister_consumer handle
  | .Initialize => sch.initialize_scheduler is_schema_frozen

/-- The external consumers: who has registered as one, and has not been unregistered. -/
abbrev Externals (S : Type) := String → Option (RefreshCallback S)

/-- What a call that went through makes of them. -/
def Externals.after (ext : Externals S) : RegistrationOp Q S → Externals S
  | .RegisterConsumer name callback => Function.update ext name (some callback)
  | .UnregisterConsumer handle => Function.update ext handle none
  | _ => ext

namespace Scheduler

/-- What is on the bus under a name. -/
def on_bus (sch : Scheduler Q J S) (name : String) : Option (RefreshCallback S) :=
  sch.refresh_bus.data.lookup name

/-- The callback of the registered system of the name, if there is one and it has one. -/
def system_callback (sch : Scheduler Q J S) (name : String) : Option (RefreshCallback S) :=
  (sch.registrations.data.lookup name).bind SystemRegistration.refresh_callback

/-- The call does not reach for a name of the other side: a system with a callback registers
under a name that nothing on the bus has, unless it is refused anyway; only a system with a
callback goes from the bus as a system; and a consumer comes and goes under a name that no
such system has. -/
def KeepsApart (sch : Scheduler Q J S) : RegistrationOp Q S → Prop
  | .RegisterSystem system =>
    system.refresh_callback = none ∨ sch.initialized = true
      ∨ (sch.systems.data.lookup system.id).isSome
      ∨ (∃ other ∈ sch.registrations.data.map Prod.snd,
          (SystemRegistration.from_system system).has_write_conflict other = true)
      ∨ sch.on_bus system.id = none
  | .UnregisterSystem system_id =>
    sch.on_bus system_id = none ∨ (sch.system_callback system_id).isSome
  | .RegisterConsumer name _ => sch.system_callback name = none
  | .UnregisterConsumer handle => sch.system_callback handle = none
  | .Initialize => True

/-- The same maps, listed in other orders. The engine is a handle, and others write to it. -/
structure Relisted (sch sch' : Scheduler Q J S) : Prop where
  systems : sch.systems.data.Perm sch'.systems.data
  registrations : sch.registrations.data.Perm sch'.registrations.data
  refresh_bus : sch.refresh_bus.data.Perm sch'.refresh_bus.data
  same : sch' = { sch with
    systems := sch.systems.set sch'.systems.data
    registrations := sch.registrations.set sch'.registrations.data
    refresh_bus := sch.refresh_bus.set sch'.refresh_bus.data
    query_engine := sch'.query_engine }

/-- What has come of a new scheduler by calls that keep apart. -/
inductive Registering (is_schema_frozen : Q → Except String Bool) :
    Scheduler Q J S → Externals S → Prop
  | new (journal : Journal Q J) (query_engine : Q) (publishes : Bool) (kept : S) :
    Registering is_schema_frozen (.new journal query_engine publishes kept) fun _ => none
  | relist {sch sch' : Scheduler Q J S} {ext : Externals S}
      (run : Registering is_schema_frozen sch ext) (h : Relisted sch sch') :
    Registering is_schema_frozen sch' ext
  | ok {sch sch' : Scheduler Q J S} {ext : Externals S} (op : RegistrationOp Q S)
      (run : Registering is_schema_frozen sch ext) (apart : sch.KeepsApart op)
      (h : sch.registration is_schema_frozen op = (.ok (), sch')) :
    Registering is_schema_frozen sch' (ext.after op)
  | error {sch sch' : Scheduler Q J S} {ext : Externals S} (op : RegistrationOp Q S)
      {e : SchedulerError} (run : Registering is_schema_frozen sch ext)
      (apart : sch.KeepsApart op)
      (h : sch.registration is_schema_frozen op = (.error e, sch')) :
    Registering is_schema_frozen sch' ext

/-! ## What is registered and what is on the bus -/

/-- The two maps of the systems agree, no two systems of a phase write the same table, and on
the bus are the callbacks of the systems and of the external consumers, each under its name. -/
structure Coherent (sch : Scheduler Q J S) (ext : Externals S) : Prop where
  registered : ∀ id, sch.registrations.data.lookup id
    = (sch.systems.data.lookup id).map SystemRegistration.from_system
  disjoint : ∀ id id' reg reg', id ≠ id' → sch.registrations.data.lookup id = some reg →
    sch.registrations.data.lookup id' = some reg' → reg.phase = reg'.phase →
      ∀ table ∈ reg.write_tables, table ∉ reg'.write_tables
  systems : ∀ name callback, sch.system_callback name = some callback →
    sch.on_bus name = some callback
  external : ∀ name callback, ext name = some callback → sch.on_bus name = some callback
  none_else : ∀ name callback, sch.on_bus name = some callback →
    sch.system_callback name = some callback ∨ ext name = some callback

/-- A refused registration changes nothing, and once the scheduler is initialized it stays so
and takes no system. -/
structure Gated (is_schema_frozen : Q → Except String Bool) (sch : Scheduler Q J S) : Prop where
  refused : ∀ system e sch', sch.register_system system = (.error e, sch') → sch' = sch
  opened : ∀ sch', sch.initialize_scheduler is_schema_frozen = (.ok (), sch') →
    sch'.initialized = true
  closed : ∀ op, sch.initialized = true →
    (sch.registration is_schema_frozen op).2.initialized = true
      ∧ ∀ id, ((sch.registration is_schema_frozen op).2.systems.data.lookup id).isSome →
        (sch.systems.data.lookup id).isSome

/-! ## One call -/

variable {sch sch' : Scheduler Q J S} {ext : Externals S}

/-- The bus after a registration. -/
def bus_with (sch : Scheduler Q J S) (name : String) :
    Option (RefreshCallback S) → RwLock (List (String × RefreshCallback S))
  | none => sch.refresh_bus
  | some callback => sch.refresh_bus.set (Listed.insert sch.refresh_bus.data name callback)

theorem register_callback_ok {id : String} {callback : Option (RefreshCallback S)}
    {consumers : RwLock (List (String × RefreshCallback S))}
    (h : register_callback sch.refresh_bus id callback = (.ok (), consumers)) :
    consumers = sch.bus_with id callback := by
  rcases callback with _ | cb
  · exact (Prod.mk.inj h).2.symm
  · unfold register_callback RefreshSignalBus.register at h
    rcases hbus : lock "refresh signal" sch.refresh_bus with e | entries
    · simp only [hbus] at h
      cases (Prod.mk.inj h).1
    · obtain ⟨-, rfl⟩ := lock_ok hbus
      simp only [hbus] at h
      exact (Prod.mk.inj h).2.symm

theorem register_system_ok {system : SimSystem Q S}
    (h : sch.register_system system = (.ok (), sch')) :
    sch.initialized = false ∧ sch.systems.data.lookup system.id = none
      ∧ (∀ other ∈ sch.registrations.data.map Prod.snd,
          (SystemRegistration.from_system system).has_write_conflict other = false)
      ∧ sch' = { sch with
          refresh_bus := sch.bus_with system.id system.refresh_callback
          registrations := sch.registrations.set
            (Listed.insert sch.registrations.data system.id (.from_system system))
          systems := sch.systems.set (Listed.insert sch.systems.data system.id system) } := by
  unfold register_system at h
  split at h
  · cases h
  rename_i hinit
  simp only at h
  split at h
  · cases h
  rename_i systems hsystems
  split at h
  · cases h
  rename_i registrations hregistrations
  obtain ⟨-, rfl⟩ := lock_ok hsystems
  obtain ⟨-, rfl⟩ := lock_ok hregistrations
  split at h
  · cases h
  rename_i hnew
  split at h
  · cases h
  rename_i hconflicts
  refine ⟨Bool.eq_false_iff.2 hinit, Option.not_isSome_iff_eq_none.1 hnew, ?_, ?_⟩
  · intro other hother
    have hnone := List.filter_eq_nil_iff.1 hconflicts other hother
    simpa using hnone
  · split at h
    · cases h
    rename_i refresh_bus hbus
    obtain ⟨-, rfl⟩ := Prod.mk.inj h
    rw [register_callback_ok hbus]
    rfl

theorem register_system_error {system : SimSystem Q S} {e : SchedulerError}
    (h : sch.register_system system = (.error e, sch')) : sch' = sch := by
  unfold register_system at h
  split at h
  · exact (Prod.mk.inj h).2.symm
  simp only at h
  split at h
  · exact (Prod.mk.inj h).2.symm
  split at h
  · exact (Prod.mk.inj h).2.symm
  split at h
  · exact (Prod.mk.inj h).2.symm
  split at h
  · exact (Prod.mk.inj h).2.symm
  split at h
  · exact (Prod.mk.inj h).2.symm
  · cases (Prod.mk.inj h).1

theorem initialize_writes (is_schema_frozen : Q → Except String Bool) (sch : Scheduler Q J S) :
    (sch.initialize_scheduler is_schema_frozen).2 = sch
      ∨ (sch.initialize_scheduler is_schema_frozen).2 = { sch with initialized := true } := by
  unfold initialize_scheduler
  split
  · exact .inl rfl
  split
  · exact .inl rfl
  · exact .inl rfl
  split
  · exact .inl rfl
  split
  · exact .inl rfl
  split
  · exact .inl rfl
  · exact .inr rfl

theorem initialize_ok {is_schema_frozen : Q → Except String Bool}
    (h : sch.initialize_scheduler is_schema_frozen = (.ok (), sch')) :
    sch' = { sch with initialized := true } := by
  unfold initialize_scheduler at h
  split at h
  · rename_i hinit
    obtain ⟨-, rfl⟩ := Prod.mk.inj h
    rw [← hinit]
  split at h
  · cases h
  · cases h
  split at h
  · cases h
  split at h
  · cases h
  split at h
  · cases h
  · exact (Prod.mk.inj h).2.symm

theorem unregister_system_ok {system_id : String}
    (h : sch.unregister_system system_id = (.ok (), sch')) :
    sch' = { sch with
      systems := sch.systems.set (Listed.remove sch.systems.data system_id)
      registrations := sch.registrations.set (Listed.remove sch.registrations.data system_id)
      refresh_bus := (RefreshSignalBus.unregister_by_name sch.refresh_bus system_id).2 } := by
  unfold unregister_system at h
  split at h
  · cases h
  rename_i systems hsystems
  split at h
  · cases h
  rename_i registrations hregistrations
  obtain ⟨-, rfl⟩ := lock_ok hsystems
  obtain ⟨-, rfl⟩ := lock_ok hregistrations
  exact (Prod.mk.inj h).2.symm

theorem unregister_system_error {system_id : String} {e : SchedulerError}
    (h : sch.unregister_system system_id = (.error e, sch')) : sch' = sch := by
  unfold unregister_system at h
  split at h
  · exact (Prod.mk.inj h).2.symm
  split at h
  · exact (Prod.mk.inj h).2.symm
  · cases (Prod.mk.inj h).1

/-- Whatever else is on the bus stays there. -/
theorem bus_without (hbus : sch.refresh_bus.poisoned = false) (name : String) :
    (RefreshSignalBus.unregister_by_name sch.refresh_bus name).2
      = sch.refresh_bus.set (Listed.remove sch.refresh_bus.data name) := by
  unfold RefreshSignalBus.unregister_by_name
  rw [lock_healthy hbus]

theorem gated (is_schema_frozen : Q → Except String Bool) (sch : Scheduler Q J S) :
    Gated is_schema_frozen sch where
  refused _ _ _ h := register_system_error h
  opened sch' h := by
    rw [initialize_ok h]
  closed op hinit := by
    cases op with
    | RegisterSystem system =>
        rcases hrun : sch.register_system system with ⟨e | ⟨⟩, sch'⟩
        · simp only [registration, hrun, register_system_error hrun]
          exact ⟨hinit, fun _ h => h⟩
        · have hclosed := (register_system_ok hrun).1
          rw [hinit] at hclosed
          cases hclosed
    | UnregisterSystem system_id =>
        rcases hrun : sch.unregister_system system_id with ⟨e | ⟨⟩, sch'⟩
        · simp only [registration, hrun, unregister_system_error hrun]
          exact ⟨hinit, fun _ h => h⟩
        · simp only [registration, hrun, unregister_system_ok hrun]
          refine ⟨hinit, fun id h => ?_⟩
          rw [RwLock.data_set, Listed.lookup_remove] at h
          split at h
          · cases h
          · exact h
    | RegisterConsumer name callback => exact ⟨hinit, fun _ h => h⟩
    | UnregisterConsumer handle => exact ⟨hinit, fun _ h => h⟩
    | Initialize =>
        simp only [registration]
        rcases initialize_writes is_schema_frozen sch with hsame | hopened
        · rw [hsame]
          exact ⟨hinit, fun _ h => h⟩
        · rw [hopened]
          exact ⟨rfl, fun _ h => h⟩

/-! ## The two maps of the systems -/

/-- The maps have distinct keys and agree, and no two systems of a phase write the same
table. -/
structure Enrolled (sch : Scheduler Q J S) : Prop where
  healthy : sch.systems.poisoned = false ∧ sch.registrations.poisoned = false
  nodup : (sch.systems.data.map Prod.fst).Nodup ∧ (sch.registrations.data.map Prod.fst).Nodup
  registered : ∀ id, sch.registrations.data.lookup id
    = (sch.systems.data.lookup id).map SystemRegistration.from_system
  disjoint : ∀ id id' reg reg', id ≠ id' → sch.registrations.data.lookup id = some reg →
    sch.registrations.data.lookup id' = some reg' → reg.phase = reg'.phase →
      ∀ table ∈ reg.write_tables, table ∉ reg'.write_tables

theorem Enrolled.new (journal : Journal Q J) (query_engine : Q) (publishes : Bool) (kept : S) :
    (Scheduler.new journal query_engine publishes kept).Enrolled where
  healthy := ⟨rfl, rfl⟩
  nodup := ⟨List.nodup_nil, List.nodup_nil⟩
  registered := fun _ => rfl
  disjoint := fun _ _ _ _ _ h => by cases h

theorem Enrolled.congr (h : sch.Enrolled) (hsystems : sch'.systems = sch.systems)
    (hregs : sch'.registrations = sch.registrations) : sch'.Enrolled := by
  refine ⟨?_, ?_, ?_, ?_⟩
  · rw [hsystems, hregs]
    exact h.healthy
  · rw [hsystems, hregs]
    exact h.nodup
  · rw [hsystems, hregs]
    exact h.registered
  · rw [hregs]
    exact h.disjoint

/-- What is enrolled does not depend on the orders of the maps. -/
theorem Enrolled.perm (h : sch.Enrolled)
    (hsystems : sch.systems.data.Perm sch'.systems.data)
    (hregs : sch.registrations.data.Perm sch'.registrations.data)
    (hhealthy : sch'.systems.poisoned = false ∧ sch'.registrations.poisoned = false) :
    sch'.Enrolled := by
  have hsystems' := Listed.lookup_perm hsystems h.nodup.1
  have hregs' := Listed.lookup_perm hregs h.nodup.2
  refine ⟨hhealthy, ⟨?_, ?_⟩, fun id => ?_, fun id id' reg reg' hne => ?_⟩
  · exact (hsystems.map Prod.fst).nodup_iff.1 h.nodup.1
  · exact (hregs.map Prod.fst).nodup_iff.1 h.nodup.2
  · rw [hregs', hsystems', h.registered]
  · rw [hregs', hregs']
    exact h.disjoint id id' reg reg' hne

theorem disjoint_of_no_conflict {reg other : SystemRegistration S}
    (h : reg.has_write_conflict other = false) (hphase : reg.phase = other.phase) :
    ∀ table ∈ reg.write_tables, table ∉ other.write_tables := by
  intro table hmine hother
  have hnone : reg.conflicting_tables other = [] := by
    simpa [SystemRegistration.has_write_conflict, SystemRegistration.write_sets_disjoint,
      hphase] using h
  have hmem : table ∈ reg.conflicting_tables other :=
    List.mem_filter.2 ⟨hmine, decide_eq_true hother⟩
  rw [hnone] at hmem
  cases hmem

theorem Enrolled.register_system {system : SimSystem Q S} (h : sch.Enrolled)
    (hran : sch.register_system system = (.ok (), sch')) : sch'.Enrolled := by
  obtain ⟨-, hnew, hno, rfl⟩ := register_system_ok hran
  -- the new system against one that was there
  have hagainst : ∀ id reg, sch.registrations.data.lookup id = some reg →
      (SystemRegistration.from_system system).has_write_conflict reg = false :=
    fun id reg hreg =>
      hno reg (List.mem_map.2 ⟨(id, reg), Listed.mem_of_lookup hreg, rfl⟩)
  refine ⟨h.healthy, ⟨Listed.nodup_insert h.nodup.1 _ _, Listed.nodup_insert h.nodup.2 _ _⟩,
    ?_, ?_⟩
  · intro id
    simp only [RwLock.data_set, Listed.lookup_insert]
    split
    · rfl
    · exact h.registered id
  · intro id id' reg reg' hne hreg hreg' hphase table hmine hother
    simp only [RwLock.data_set, Listed.lookup_insert] at hreg hreg'
    split at hreg
    · rename_i hid
      rw [if_neg (fun hid' => hne (hid.trans hid'.symm))] at hreg'
      obtain rfl := Option.some.inj hreg
      exact disjoint_of_no_conflict (hagainst id' reg' hreg') hphase table hmine hother
    · split at hreg'
      · obtain rfl := Option.some.inj hreg'
        exact disjoint_of_no_conflict (hagainst id reg hreg) hphase.symm table hother hmine
      · exact h.disjoint id id' reg reg' hne hreg hreg' hphase table hmine hother

theorem Enrolled.unregister_system {system_id : String} (h : sch.Enrolled)
    (hran : sch.unregister_system system_id = (.ok (), sch')) : sch'.Enrolled := by
  obtain rfl := unregister_system_ok hran
  refine ⟨h.healthy, ⟨Listed.nodup_remove h.nodup.1 _, Listed.nodup_remove h.nodup.2 _⟩, ?_, ?_⟩
  · intro id
    simp only [RwLock.data_set, Listed.lookup_remove]
    split
    · rfl
    · exact h.registered id
  · intro id id' reg reg' hne hreg hreg'
    simp only [RwLock.data_set, Listed.lookup_remove] at hreg hreg'
    split at hreg
    · cases hreg
    split at hreg'
    · cases hreg'
    · exact h.disjoint id id' reg reg' hne hreg hreg'

/-- Any call, whatever it returns. -/
theorem Enrolled.registration (is_schema_frozen : Q → Except String Bool) (h : sch.Enrolled)
    (op : RegistrationOp Q S) : (sch.registration is_schema_frozen op).2.Enrolled := by
  cases op with
  | RegisterSystem system =>
      rcases hran : sch.register_system system with ⟨e | ⟨⟩, sch'⟩
      · simp only [Scheduler.registration, hran, register_system_error hran]
        exact h
      · simp only [Scheduler.registration, hran]
        exact h.register_system hran
  | UnregisterSystem system_id =>
      rcases hran : sch.unregister_system system_id with ⟨e | ⟨⟩, sch'⟩
      · simp only [Scheduler.registration, hran, unregister_system_error hran]
        exact h
      · simp only [Scheduler.registration, hran]
        exact h.unregister_system hran
  | RegisterConsumer name callback => exact h.congr rfl rfl
  | UnregisterConsumer handle => exact h.congr rfl rfl
  | Initialize =>
      simp only [Scheduler.registration]
      obtain hsame | hopened := initialize_writes is_schema_frozen sch
      · rw [hsame]
        exact h
      · rw [hopened]
        exact h.congr rfl rfl

/-! ## All calls -/

/-- The maps, the bus, and no external consumer with the name of a system with a callback. -/
structure Sound (sch : Scheduler Q J S) (ext : Externals S) : Prop where
  enrolled : sch.Enrolled
  bus : sch.refresh_bus.poisoned = false ∧ (sch.refresh_bus.data.map Prod.fst).Nodup
  systems : ∀ name callback, sch.system_callback name = some callback →
    sch.on_bus name = some callback
  external : ∀ name callback, ext name = some callback → sch.on_bus name = some callback
  none_else : ∀ name callback, sch.on_bus name = some callback →
    sch.system_callback name = some callback ∨ ext name = some callback
  apart : ∀ name, (sch.system_callback name).isSome → ext name = none

theorem Sound.coherent (h : sch.Sound ext) : sch.Coherent ext :=
  ⟨h.enrolled.registered, h.enrolled.disjoint, h.systems, h.external, h.none_else⟩

/-- Under a name the bus has the callback of a system or that of an external consumer, and no
name is of both. -/
def NamedOnce (sch : Scheduler Q J S) (ext : Externals S) (name : String) : Prop :=
  sch.on_bus name = (sch.system_callback name).or (ext name)
    ∧ (sch.system_callback name = none ∨ ext name = none)

theorem Sound.named_once (h : sch.Sound ext) (name : String) : sch.NamedOnce ext name := by
  unfold NamedOnce
  rcases hcb : sch.system_callback name with _ | callback
  · refine ⟨?_, .inl rfl⟩
    rw [Option.none_or]
    rcases hext : ext name with _ | callback
    · rcases hon : sch.on_bus name with _ | callback
      · rfl
      · obtain hsystem | hexternal := h.none_else name callback hon
        · cases hcb.symm.trans hsystem
        · cases hext.symm.trans hexternal
    · exact h.external name callback hext
  · refine ⟨h.systems name callback hcb, .inr (h.apart name ?_)⟩
    rw [hcb]
    rfl

theorem Sound.of_named_once (henrolled : sch.Enrolled)
    (hbus : sch.refresh_bus.poisoned = false ∧ (sch.refresh_bus.data.map Prod.fst).Nodup)
    (hnamed : ∀ name, sch.NamedOnce ext name) : sch.Sound ext := by
  refine ⟨henrolled, hbus, ?_, ?_, ?_, ?_⟩
  · intro name callback hcb
    rw [(hnamed name).1, hcb, Option.some_or]
  · intro name callback hext
    obtain ⟨hon, hnone | hnone⟩ := hnamed name
    · rw [hon, hnone, Option.none_or, hext]
    · cases hext.symm.trans hnone
  · intro name callback hcb
    rw [(hnamed name).1] at hcb
    exact Option.or_eq_some_iff.1 hcb |>.imp id And.right
  · intro name hsome
    obtain ⟨-, hnone | hnone⟩ := hnamed name
    · rw [hnone] at hsome
      cases hsome
    · exact hnone

/-- What is said of the bus is said by what is looked up. -/
theorem Sound.congr (h : sch.Sound ext) (henrolled : sch'.Enrolled)
    (hbus : sch'.refresh_bus.poisoned = false ∧ (sch'.refresh_bus.data.map Prod.fst).Nodup)
    (hcallback : ∀ name, sch'.system_callback name = sch.system_callback name)
    (hon : ∀ name, sch'.on_bus name = sch.on_bus name) : sch'.Sound ext := by
  refine .of_named_once henrolled hbus fun name => ?_
  rw [NamedOnce, hcallback, hon]
  exact h.named_once name

theorem Sound.relist (h : sch.Sound ext) (hlist : Relisted sch sch') : sch'.Sound ext := by
  have hsame := hlist.same
  have hregs := Listed.lookup_perm hlist.registrations h.enrolled.nodup.2
  refine h.congr (h.enrolled.perm hlist.systems hlist.registrations ?_) ⟨?_, ?_⟩ ?_ ?_
  · rw [hsame]
    exact h.enrolled.healthy
  · rw [hsame]
    exact h.bus.1
  · exact (hlist.refresh_bus.map Prod.fst).nodup_iff.1 h.bus.2
  · intro name
    rw [system_callback, hregs, system_callback]
  · exact Listed.lookup_perm hlist.refresh_bus h.bus.2

theorem Sound.new (journal : Journal Q J) (query_engine : Q) (publishes : Bool) (kept : S) :
    (Scheduler.new journal query_engine publishes kept).Sound fun _ => none where
  enrolled := .new journal query_engine publishes kept
  bus := ⟨rfl, List.nodup_nil⟩
  systems _ _ h := by cases h
  external _ _ h := by cases h
  none_else _ _ h := by cases h
  apart _ _ := rfl

/-- Nobody outside has the name of a system that is let in with a callback. -/
theorem Sound.free_of_apart {system : SimSystem Q S} (h : sch.Sound ext)
    (apart : sch.KeepsApart (.RegisterSystem system))
    (hran : sch.register_system system = (.ok (), sch'))
    (hcallback : system.refresh_callback ≠ none) : ext system.id = none := by
  obtain ⟨hopen, hnew, hdisjoint, -⟩ := register_system_ok hran
  obtain hnone | hinit | hold | ⟨other, hother, hconflict⟩ | hbus := apart
  · exact absurd hnone hcallback
  · rw [hopen] at hinit
    cases hinit
  · rw [hnew] at hold
    cases hold
  · rw [hdisjoint other hother] at hconflict
    cases hconflict
  · rcases hext : ext system.id with _ | callback
    · rfl
    · rw [h.external _ _ hext] at hbus
      cases hbus

theorem on_bus_with (sch : Scheduler Q J S) (id name : String)
    (callback : Option (RefreshCallback S)) :
    (sch.bus_with id callback).data.lookup name
      = if name = id ∧ callback ≠ none then callback else sch.on_bus name := by
  rcases callback with _ | cb
  · rw [if_neg (fun h => h.2 rfl)]
    rfl
  · rw [bus_with, RwLock.data_set, Listed.lookup_insert]
    by_cases hname : name = id
    · rw [if_pos hname, if_pos ⟨hname, Option.some_ne_none cb⟩]
    · rw [if_neg hname, if_neg (fun h => hname h.1)]
      rfl

theorem bus_with_sound (h : sch.Sound ext) (id : String) (callback : Option (RefreshCallback S)) :
    (sch.bus_with id callback).poisoned = false
      ∧ ((sch.bus_with id callback).data.map Prod.fst).Nodup := by
  rcases callback with _ | cb
  · exact h.bus
  · exact ⟨h.bus.1, Listed.nodup_insert h.bus.2 _ _⟩

theorem Sound.register_system {system : SimSystem Q S} (h : sch.Sound ext)
    (apart : sch.KeepsApart (.RegisterSystem system))
    (hran : sch.register_system system = (.ok (), sch')) : sch'.Sound ext := by
  have hfree := h.free_of_apart apart hran
  have henrolled := h.enrolled.register_system hran
  obtain ⟨-, hnew, -, rfl⟩ := register_system_ok hran
  set after : Scheduler Q J S := { sch with
    refresh_bus := sch.bus_with system.id system.refresh_callback
    registrations := sch.registrations.set
      (Listed.insert sch.registrations.data system.id (.from_system system))
    systems := sch.systems.set (Listed.insert sch.systems.data system.id system) }
  have hcallback : ∀ name, after.system_callback name
      = if name = system.id then system.refresh_callback else sch.system_callback name := by
    intro name
    have hregs : after.registrations.data.lookup name
        = if name = system.id then some (.from_system system)
          else sch.registrations.data.lookup name := Listed.lookup_insert _ _ _ _
    rw [system_callback, hregs]
    split <;> rfl
  have hbus : ∀ name, after.on_bus name
      = if name = system.id ∧ system.refresh_callback ≠ none then system.refresh_callback
        else sch.on_bus name :=
    fun name => on_bus_with sch system.id name system.refresh_callback
  -- the id is new, so what is on the bus under it is of a consumer
  have hunregistered : sch.system_callback system.id = none := by
    rw [system_callback, h.enrolled.registered, hnew]
    rfl
  refine .of_named_once henrolled (bus_with_sound h _ _) fun name => ?_
  have hname := h.named_once name
  rw [NamedOnce, hbus, hcallback]
  by_cases hid : name = system.id
  · rw [hid, NamedOnce, hunregistered, Option.none_or] at hname
    rw [hid, if_pos rfl]
    rcases hsome : system.refresh_callback with _ | callback
    · rw [if_neg (fun hboth => hboth.2 rfl), Option.none_or]
      exact hname
    · rw [if_pos ⟨rfl, Option.some_ne_none _⟩, Option.some_or]
      exact ⟨rfl, .inr (hfree (by rw [hsome]; exact Option.some_ne_none _))⟩
  · rw [if_neg hid, if_neg (fun hboth => hid hboth.1)]
    exact hname

theorem Sound.unregister_system {system_id : String} (h : sch.Sound ext)
    (apart : sch.KeepsApart (.UnregisterSystem system_id))
    (hran : sch.unregister_system system_id = (.ok (), sch')) : sch'.Sound ext := by
  have henrolled := h.enrolled.unregister_system hran
  obtain rfl := unregister_system_ok hran
  -- what goes from the bus is the system's callback, and no consumer's
  have hout : ext system_id = none := by
    rcases hext : ext system_id with _ | callback
    · rfl
    · obtain hbus | hsome := apart
      · rw [h.external _ _ hext] at hbus
        cases hbus
      · rw [h.apart system_id hsome] at hext
        cases hext
  rw [bus_without h.bus.1] at henrolled ⊢
  set after : Scheduler Q J S := { sch with
    systems := sch.systems.set (Listed.remove sch.systems.data system_id)
    registrations := sch.registrations.set (Listed.remove sch.registrations.data system_id)
    refresh_bus := sch.refresh_bus.set (Listed.remove sch.refresh_bus.data system_id) }
  have hbus : ∀ name, after.on_bus name
      = if name = system_id then none else sch.on_bus name :=
    fun name => Listed.lookup_remove _ _ _
  have hcallback : ∀ name, after.system_callback name
      = if name = system_id then none else sch.system_callback name := by
    intro name
    have hregs : after.registrations.data.lookup name
        = if name = system_id then none else sch.registrations.data.lookup name :=
      Listed.lookup_remove _ _ _
    rw [system_callback, hregs]
    split <;> rfl
  refine .of_named_once henrolled ⟨h.bus.1, Listed.nodup_remove h.bus.2 _⟩ fun name => ?_
  rw [NamedOnce, hbus, hcallback]
  by_cases hid : name = system_id
  · rw [if_pos hid, if_pos hid, hid, hout]
    exact ⟨rfl, .inl rfl⟩
  · rw [if_neg hid, if_neg hid]
    exact h.named_once name

/-- The bus under one name after a consumer has come or gone. -/
theorem Sound.of_bus {name : String} {callback : Option (RefreshCallback S)} (h : sch.Sound ext)
    (hfree : sch.system_callback name = none) (hsystems : sch'.systems = sch.systems)
    (hregs : sch'.registrations = sch.registrations)
    (hbus : sch'.refresh_bus.poisoned = false ∧ (sch'.refresh_bus.data.map Prod.fst).Nodup)
    (hon : ∀ other, sch'.on_bus other = if other = name then callback else sch.on_bus other) :
    sch'.Sound (Function.update ext name callback) := by
  have hcallback : ∀ other, sch'.system_callback other = sch.system_callback other := by
    intro other
    rw [system_callback, hregs, system_callback]
  refine .of_named_once (h.enrolled.congr hsystems hregs) hbus fun other => ?_
  -- no system has the name, so under it the bus and the consumers change together
  rw [NamedOnce, hon, hcallback, Function.update_apply]
  by_cases hname : other = name
  · rw [if_pos hname, if_pos hname, hname, hfree]
    exact ⟨rfl, .inl rfl⟩
  · rw [if_neg hname, if_neg hname]
    exact h.named_once other

theorem Sound.register_consumer {name : String} {callback : RefreshCallback S}
    (h : sch.Sound ext) (apart : sch.KeepsApart (.RegisterConsumer name callback)) :
    (sch.register_consumer name callback).1 = .ok name
      ∧ (sch.register_consumer name callback).2.Sound
          (Function.update ext name (some callback)) := by
  simp only [Scheduler.register_consumer, RefreshSignalBus.register, lock_healthy h.bus.1]
  refine ⟨trivial, h.of_bus apart rfl rfl ⟨h.bus.1, Listed.nodup_insert h.bus.2 _ _⟩ ?_⟩
  intro other
  exact Listed.lookup_insert _ _ _ _

/-- A handle that is not on the bus is an error, and nothing goes with it. -/
theorem Sound.unregister_consumer {handle : String} (h : sch.Sound ext)
    (apart : sch.KeepsApart (.UnregisterConsumer handle)) :
    (sch.unregister_consumer handle).2.Sound (Function.update ext handle none) := by
  have hafter : (sch.unregister_consumer handle).2 = { sch with
      refresh_bus := (RefreshSignalBus.unregister_by_name sch.refresh_bus handle).2 } := rfl
  rw [hafter, bus_without h.bus.1]
  refine h.of_bus apart rfl rfl ⟨h.bus.1, Listed.nodup_remove h.bus.2 _⟩ fun other => ?_
  exact Listed.lookup_remove _ _ _

theorem unregister_consumer_error {handle : String} {e : SchedulerError}
    (hbus : sch.refresh_bus.poisoned = false)
    (hran : (sch.unregister_consumer handle).1 = .error e) : sch.on_bus handle = none := by
  unfold Scheduler.unregister_consumer RefreshSignalBus.unregister_by_name at hran
  rw [lock_healthy hbus] at hran
  dsimp only at hran
  split at hran
  · cases hran
  · rename_i hnone
    exact Option.not_isSome_iff_eq_none.1 hnone

theorem Sound.initialize (is_schema_frozen : Q → Except String Bool) (h : sch.Sound ext) :
    (sch.initialize_scheduler is_schema_frozen).2.Sound ext := by
  obtain hsame | hopened := initialize_writes is_schema_frozen sch
  · rw [hsame]
    exact h
  · rw [hopened]
    exact h.congr (h.enrolled.congr rfl rfl) h.bus (fun _ => rfl) fun _ => rfl

/-- A call that keeps apart. -/
theorem Sound.registration_ok {is_schema_frozen : Q → Except String Bool}
    {op : RegistrationOp Q S} (h : sch.Sound ext) (apart : sch.KeepsApart op)
    (hran : sch.registration is_schema_frozen op = (.ok (), sch')) :
    sch'.Sound (ext.after op) := by
  cases op with
  | RegisterSystem system => exact h.register_system apart hran
  | UnregisterSystem system_id => exact h.unregister_system apart hran
  | RegisterConsumer name callback =>
      obtain rfl := (Prod.mk.inj hran).2
      exact (h.register_consumer apart).2
  | UnregisterConsumer handle =>
      obtain rfl := congrArg Prod.snd hran
      exact h.unregister_consumer apart
  | Initialize =>
      obtain rfl := congrArg Prod.snd hran
      exact h.initialize is_schema_frozen

theorem Sound.registration_error {is_schema_frozen : Q → Except String Bool}
    {op : RegistrationOp Q S} {e : SchedulerError} (h : sch.Sound ext)
    (apart : sch.KeepsApart op)
    (hran : sch.registration is_schema_frozen op = (.error e, sch')) : sch'.Sound ext := by
  cases op with
  | RegisterSystem system =>
      rw [register_system_error hran]
      exact h
  | UnregisterSystem system_id =>
      rw [unregister_system_error hran]
      exact h
  | RegisterConsumer name callback =>
      have hok := (h.register_consumer apart).1
      have hmapped : (sch.register_consumer name callback).1.map (fun _ => ()) = .error e :=
        (Prod.mk.inj hran).1
      rw [hok] at hmapped
      cases hmapped
  | UnregisterConsumer handle =>
      have hnone := unregister_consumer_error h.bus.1 (congrArg Prod.fst hran)
      obtain rfl := congrArg Prod.snd hran
      have hout : ext handle = none := by
        rcases hext : ext handle with _ | callback
        · rfl
        · rw [h.external _ _ hext] at hnone
          cases hnone
      have hsound := h.unregister_consumer apart
      rwa [← hout, Function.update_eq_self] at hsound
  | Initialize =>
      obtain rfl := congrArg Prod.snd hran
      exact h.initialize is_schema_frozen

theorem Registering.sound {is_schema_frozen : Q → Except String Bool}
    (run : Registering is_schema_frozen sch ext) : sch.Sound ext := by
  induction run with
  | new journal query_engine publishes kept => exact .new journal query_engine publishes kept
  | relist _ hlist ih => exact ih.relist hlist
  | ok _ _ apart hran ih => exact ih.registration_ok apart hran
  | error _ _ apart hran ih => exact ih.registration_error apart hran

/-- As long as the calls keep apart, what is registered and what is on the bus agree, and
nothing is registered that should not be. -/
theorem registering_coherent {is_schema_frozen : Q → Except String Bool}
    (run : Registering is_schema_frozen sch ext) :
    sch.Coherent ext ∧ sch.Gated is_schema_frozen :=
  ⟨run.sound.coherent, gated is_schema_frozen sch⟩

/-! ## A consumer with the name of a system -/

section Names

/-- A callback that acknowledges. -/
def acknowledge : RefreshCallback Unit := fun kept _ _ => (.ok (), kept)

/-- A callback that does not. -/
def refuse : RefreshCallback Unit := fun kept _ _ => (.error (.Generic "stale"), kept)

def trade : SimSystem Bool Unit where
  id := "trade"
  phase := .Economy
  read_tables := []
  write_tables := ["items"]
  refresh_callback := some acknowledge
  execute := fun kept _ _ _ _ => (.ok [], kept)

/-- A scheduler with nothing registered, over a frozen schema. -/
def empty_scheduler : Scheduler Bool Unit Unit :=
  .new (.new one_item) true false ()

/-- A system and a consumer of another name, and then the system goes. -/
theorem trade_registering : ∃ (sch : Scheduler Bool Unit Unit) (ext : Externals Unit),
    (sch.Coherent ext ∧ sch.Gated .ok) ∧ sch.initialized = true
      ∧ ext "bridge" = some refuse := by
  have h₀ : Registering .ok empty_scheduler fun _ => none :=
    .new _ _ _ _
  have h₁ := h₀.ok (.RegisterSystem trade) (.inr (.inr (.inr (.inr rfl)))) rfl
  have h₂ := h₁.ok (.RegisterConsumer "bridge" refuse) rfl rfl
  have h₃ := h₂.ok .Initialize trivial rfl
  have h₄ := h₃.ok (.UnregisterSystem "trade") (.inr rfl) rfl
  exact ⟨_, _, registering_coherent h₄, rfl, rfl⟩

/-- The bridge is registered as a consumer. A system of this name is unregistered, though
there is none; and a system of this name is registered. -/
theorem consumer_gone_with_system :
    let (registered, sch) := empty_scheduler.register_consumer "bridge" refuse
    let (unregistered, without) := sch.unregister_system "bridge"
    let (replaced, taken) := sch.register_system { trade with id := "bridge" }
    registered = .ok "bridge" ∧ sch.on_bus "bridge" = some refuse
      ∧ unregistered = .ok () ∧ without.on_bus "bridge" = none
      ∧ replaced = .ok () ∧ taken.on_bus "bridge" = some acknowledge
      ∧ ∀ ext : Externals Unit, ext "bridge" = some refuse → ¬ without.Coherent ext :=
  ⟨rfl, rfl, rfl, rfl, rfl, rfl, fun _ hext h => by
    have hbus := h.external "bridge" refuse hext
    cases hbus⟩

end Names

end Scheduler

end Scharnhorst
