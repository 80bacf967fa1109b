/-
The order of the load phases.

Every phase advances the lifecycle before it looks whether it is its turn, and before its
work, which may fail. So a call that is out of turn, or that fails, has used up the turn
of the phase that was due: the phase after it is next, and the one that was missed cannot
be called again.
-/
import Scharnhorst.Files
import Scharnhorst.Load

set_option autoImplicit false

namespace Scharnhorst

open Attempt

namespace LoadPhase

def all_in_order : List LoadPhase :=
  [SnapshotDeserialize, ModCoordination, SchemaMigration, ContentCompilation, SchemaFreeze,
    SimulationStart]

/-- The phases before this one. -/
def before (phase : LoadPhase) : List LoadPhase := all_in_order.takeWhile (· ≠ phase)

/-- The first phase that has not returned `Ok`. -/
def due (returned : List LoadPhase) : Option LoadPhase := all_in_order.find? (· ∉ returned)

@[simp] theorem due_before (phase : LoadPhase) : due phase.before = some phase := by
  cases phase <;> rfl

theorem not_mem_before (phase : LoadPhase) : phase ∉ phase.before := by
  cases phase <;> decide

theorem before_next {phase next : LoadPhase} (h : phase.next = some next) :
    next.before = phase.before ++ [phase] := by
  cases phase <;> cases h <;> rfl

theorem next_ne {phase next : LoadPhase} (h : phase.next = some next) : next ≠ phase := by
  cases phase <;> cases h <;> decide

theorem next_none {phase : LoadPhase} (h : phase.next = none) : phase = .SimulationStart := by
  cases phase <;> first | rfl | cases h

theorem length_before (phase : LoadPhase) : phase.before.length < 6 := by
  cases phase <;> decide

/-- All six phases are the last and those before it. -/
theorem mem_through (phase : LoadPhase) :
    (∀ p, p ∈ phase.before ++ [phase]) ↔ phase = .SimulationStart := by
  constructor
  · intro hall
    have hlast := hall .SimulationStart
    cases phase <;> first | rfl | exact absurd hlast (by decide)
  · rintro rfl p
    cases p <;> decide

theorem due_none {returned : List LoadPhase} : due returned = none ↔ ∀ phase, phase ∈ returned := by
  unfold due
  rw [List.find?_eq_none]
  constructor
  · intro h phase
    have hmem : phase ∈ all_in_order := by cases phase <;> decide
    simpa using h phase hmem
  · intro h phase _
    simpa using h phase

end LoadPhase

/-! ## Calls -/

/-- A call of a phase, with its arguments. -/
inductive LoadCall (D : Type) where
  | SnapshotDeserialize (disk : D)
  | ModCoordination (stored : FingerprintRegistry) (available : List ModFingerprint)
  | SchemaMigration (manifest : SchemaManifest)
  | ContentCompilation (init_store : ArrowStore)
  | SchemaFreeze
  | SimulationStart

def LoadCall.phase {D : Type} : LoadCall D → LoadPhase
  | SnapshotDeserialize _ => .SnapshotDeserialize
  | ModCoordination _ _ => .ModCoordination
  | SchemaMigration _ => .SchemaMigration
  | ContentCompilation _ => .ContentCompilation
  | SchemaFreeze => .SchemaFreeze
  | SimulationStart => .SimulationStart

namespace LoadReconstruction

/-! ## Turns -/

section Turns

variable {r : LoadReconstruction} {phase : LoadPhase}

/-- The lifecycle when `phase` is due. -/
structure Awaits (l : LoadLifecycle) (phase : LoadPhase) : Prop where
  current : l.current = phase.before.getLast?
  completed : l.completed = phase.before.dropLast

/-- The lifecycle when the turn of `phase` has been used up. -/
structure Used (l : LoadLifecycle) (phase : LoadPhase) : Prop where
  current : l.current = some phase
  completed : l.completed = phase.before

/-- The lifecycle once the last phase has returned `Ok`. -/
structure Loaded (l : LoadLifecycle) : Prop where
  current : l.current = none ∨ l.current = some .SnapshotDeserialize
  completed : l.completed = LoadPhase.all_in_order

theorem advance_awaits {l : LoadLifecycle} (h : Awaits l phase) :
    l.advance = (.ok phase, { l with current := some phase, completed := phase.before }) := by
  have hcurrent := h.current
  have hcompleted := h.completed
  cases phase <;>
    simp_all [LoadPhase.before, LoadPhase.all_in_order, LoadLifecycle.advance, LoadPhase.next]

/-- The call that is due enters, and only that. -/
theorem enter_awaits (h : Awaits r.lifecycle phase) (p : LoadPhase) :
    ((r.enter p).1 = .ok () ↔ p = phase)
      ∧ (r.enter p).2 = { r with lifecycle :=
          { r.lifecycle with current := some phase, completed := phase.before } } := by
  simp only [enter, advance_awaits h]
  by_cases hturn : p = phase
  · simp [hturn]
  · simp [hturn, Ne.symm hturn]

/-- A used turn does not come again. -/
theorem enter_used (h : Used r.lifecycle phase) : (r.enter phase).1 ≠ .ok () := by
  have hfresh : phase ∉ r.lifecycle.completed := by
    rw [h.completed]
    exact phase.not_mem_before
  simp only [enter, LoadLifecycle.advance, h.current, hfresh, if_false]
  rcases hnext : phase.next with _ | next
  · simp
  · simp [LoadPhase.next_ne hnext]

theorem awaits_of_used {l : LoadLifecycle} {next : LoadPhase} (h : Used l phase)
    (hnext : phase.next = some next) : Awaits l next := by
  have hbefore := LoadPhase.before_next hnext
  exact ⟨by rw [hbefore, List.getLast?_concat, h.current],
    by rw [hbefore, List.dropLast_concat, h.completed]⟩

theorem enter_loaded (h : Loaded r.lifecycle) (p : LoadPhase) :
    (r.enter p).2.lifecycle.current = some .SnapshotDeserialize
      ∧ (r.enter p).2.lifecycle.completed = LoadPhase.all_in_order
      ∧ ((r.enter p).1 = .ok () → p = .SnapshotDeserialize) := by
  have hcompleted := h.completed
  rcases h.current with hcurrent | hcurrent
  · simp only [enter, LoadLifecycle.advance, hcurrent]
    by_cases hturn : p = .SnapshotDeserialize
    · simp [hturn, hcompleted]
    · simp [Ne.symm hturn, hcompleted]
  · have hdone : LoadPhase.SnapshotDeserialize ∈ LoadPhase.all_in_order := by decide
    simp [enter, LoadLifecycle.advance, hcurrent, LoadPhase.next, hcompleted, hdone]

end Turns

/-! ## The fourth phase -/

theorem load_table_keeps (s : LoadReconstruction × ArrowStore) (table : TableSpec) :
    (load_table s table).2.1.lifecycle = s.1.lifecycle := by
  unfold load_table
  split <;> rfl

theorem content_compilation_keeps (r : LoadReconstruction) (init_store : ArrowStore) :
    (r.content_compilation init_store).2.1.lifecycle = r.lifecycle := by
  unfold content_compilation
  split
  · rfl
  split
  · rfl
  rename_i migrated _ _ _
  exact forEach_invariant (P := fun s => s.1.lifecycle = r.lifecycle) migrated.tables
    (fun s table _ hs => (load_table_keeps s table).trans hs) (s := (r, init_store)) rfl

/-- Of the lifecycle it reads the migrated manifest. -/
theorem content_compilation_verdict {r t : LoadReconstruction}
    (h : r.lifecycle.migrated = t.lifecycle.migrated) (init_store : ArrowStore) :
    (r.content_compilation init_store).1 = (t.content_compilation init_store).1 := by
  unfold content_compilation
  rw [h]
  split
  · rfl
  split
  · rfl
  rename_i migrated _ _ _
  refine (forEach_congr (R := fun s t => s.2 = t.2) (fun s t table _ hst => ?_)
    (s := (r, init_store)) (t := (t, init_store)) rfl).1
  simp only [load_table, hst]
  split <;> exact ⟨rfl, rfl⟩

/-! ## The work and the call -/

variable {D : Type} [SaveDisk D] [JsonBytes SnapshotHeader]

def call (r : LoadReconstruction) : LoadCall D → SaveResult Unit × LoadReconstruction
  | .SnapshotDeserialize disk =>
    let (result, r) := r.phase1_snapshot_deserialize disk
    (result.map fun _ => (), r)
  | .ModCoordination stored available =>
    let (result, r) := r.phase2_mod_coordination stored available
    (result.map fun _ => (), r)
  | .SchemaMigration manifest =>
    let (result, r) := r.phase3_schema_migration manifest
    (result.map fun _ => (), r)
  | .ContentCompilation init_store =>
    let (result, r, _) := r.phase4_content_compilation_entry init_store
    (result, r)
  | .SchemaFreeze => r.phase5_schema_freeze
  | .SimulationStart => r.phase6_simulation_start

/-- The work of a call, without its beginning. -/
def work (r : LoadReconstruction) : LoadCall D → SaveResult Unit × LoadReconstruction
  | .SnapshotDeserialize disk =>
    let (result, r) := r.snapshot_deserialize disk
    (result.map fun _ => (), r)
  | .ModCoordination stored available =>
    let (result, r) := r.mod_coordination stored available
    (result.map fun _ => (), r)
  | .SchemaMigration manifest =>
    let (result, r) := r.schema_migration manifest
    (result.map fun _ => (), r)
  | .ContentCompilation init_store =>
    let (result, r, _) := r.content_compilation init_store
    (result, r)
  | .SchemaFreeze => (.ok (), { r with lifecycle := r.lifecycle.set_frozen true })
  | .SimulationStart => (.ok (), { r with lifecycle := r.lifecycle.finish.2 })

theorem call_eq (r : LoadReconstruction) (c : LoadCall D) :
    r.call c = match r.enter c.phase with
      | (.error e, r) => (.error e, r)
      | (.ok (), r) => r.work c := by
  cases c <;>
    simp only [call, LoadCall.phase, phase1_snapshot_deserialize, phase2_mod_coordination,
      phase3_schema_migration, phase4_content_compilation_entry, phase5_schema_freeze,
      phase6_simulation_start] <;>
    rcases r.enter _ with ⟨e | ⟨⟩, entered⟩
  case SimulationStart.ok =>
    rcases hcurrent : entered.lifecycle.current with _ | current <;>
      simp [work, LoadLifecycle.finish, hcurrent]
  all_goals rfl

/-! ## What the work leaves alone -/

section Work

variable {c : LoadCall D}

/-- Only the last phase's work moves the lifecycle on. -/
theorem work_keeps (r : LoadReconstruction) (hphase : c.phase ≠ .SimulationStart) :
    (r.work c).2.lifecycle.current = r.lifecycle.current
      ∧ (r.work c).2.lifecycle.completed = r.lifecycle.completed := by
  cases c with
  | SnapshotDeserialize disk =>
      simp only [work, snapshot_deserialize]
      repeat' split
      all_goals exact ⟨rfl, rfl⟩
  | ModCoordination stored available =>
      simp only [work, mod_coordination]
      repeat' split
      all_goals exact ⟨rfl, rfl⟩
  | SchemaMigration manifest =>
      simp only [work, schema_migration]
      repeat' split
      all_goals exact ⟨rfl, rfl⟩
  | ContentCompilation init_store =>
      have hkeeps := content_compilation_keeps r init_store
      simp only [work, hkeeps, and_self]
  | SchemaFreeze => exact ⟨rfl, rfl⟩
  | SimulationStart => exact absurd rfl hphase

/-- Whether the work succeeds does not depend on how far the lifecycle is. -/
theorem work_verdict (r : LoadReconstruction) (c : LoadCall D) (current : Option LoadPhase)
    (completed : List LoadPhase) :
    ({ r with lifecycle := { r.lifecycle with current, completed } }.work c).1 = (r.work c).1 := by
  cases c with
  | SnapshotDeserialize disk =>
      simp only [work, snapshot_deserialize]
      repeat' split
      all_goals simp_all
  | ModCoordination stored available =>
      simp only [work, mod_coordination]
      repeat' split
      all_goals simp_all
  | SchemaMigration manifest =>
      simp only [work, schema_migration]
      repeat' split
      all_goals simp_all
  | ContentCompilation init_store =>
      exact content_compilation_verdict (t := r)
        (r := { r with lifecycle := { r.lifecycle with current, completed } }) rfl init_store
  | SchemaFreeze => rfl
  | SimulationStart => rfl

end Work

/-! ## One call -/

section Calls

variable {r : LoadReconstruction} {c : LoadCall D} {phase : LoadPhase}

/-- A call of the due phase whose work succeeds. -/
theorem call_succeeds (h : Awaits r.lifecycle phase) (hphase : c.phase = phase)
    (hwork : (r.work c).1 = .ok ()) :
    (r.call c).1 = .ok ()
      ∧ (phase ≠ .SimulationStart → Used (r.call c).2.lifecycle phase)
      ∧ (phase = .SimulationStart → Loaded (r.call c).2.lifecycle) := by
  obtain ⟨henter, hentered⟩ := enter_awaits h c.phase
  rw [call_eq, eq_of_verdict (henter.2 hphase), hentered]
  refine ⟨(work_verdict r c _ _).trans hwork, fun hlater => ?_, fun hlast => ?_⟩
  · rw [← hphase] at hlater
    exact ⟨(work_keeps _ hlater).1, (work_keeps _ hlater).2⟩
  · obtain rfl : c = .SimulationStart := by
      cases c <;> simp [LoadCall.phase, hlast] at hphase ⊢
    subst hlast
    exact ⟨.inl rfl, rfl⟩

/-- Any other call, and one whose work fails. -/
theorem call_fails (h : Awaits r.lifecycle phase)
    (hbad : ¬ (c.phase = phase ∧ (r.work c).1 = .ok ())) :
    (r.call c).1 ≠ .ok () ∧ Used (r.call c).2.lifecycle phase := by
  obtain ⟨henter, hentered⟩ := enter_awaits h c.phase
  rw [call_eq]
  rcases hent : r.enter c.phase with ⟨e | ⟨⟩, entered⟩
  · rw [hent] at hentered
    obtain rfl : entered = _ := hentered
    exact ⟨by simp, rfl, rfl⟩
  · rw [hent] at henter hentered
    obtain rfl : entered = _ := hentered
    have hwork : (r.work c).1 ≠ .ok () := fun hok => hbad ⟨henter.1 rfl, hok⟩
    -- the last phase has no work that could fail
    have hlater : c.phase ≠ .SimulationStart := by
      intro hlast
      cases c <;> simp [LoadCall.phase, work] at hlast hwork
    exact ⟨by rwa [work_verdict], (work_keeps _ hlater).1, (work_keeps _ hlater).2⟩

/-- After the last phase only the first can be entered again. -/
theorem call_loaded (h : Loaded r.lifecycle) :
    Loaded (r.call c).2.lifecycle
      ∧ ((r.enter c.phase).1 = .ok () → c.phase = .SnapshotDeserialize) := by
  rw [call_eq]
  have henter := enter_loaded h c.phase
  rcases hent : r.enter c.phase with ⟨e | ⟨⟩, entered⟩
  · rw [hent] at henter
    exact ⟨⟨.inr henter.1, henter.2.1⟩, henter.2.2⟩
  · rw [hent] at henter
    obtain ⟨hcurrent, hcompleted, hfirst⟩ := henter
    have hphase := hfirst rfl
    have hkeeps := work_keeps entered (c := c) (by rw [hphase]; decide)
    exact ⟨⟨.inr (hkeeps.1.trans hcurrent), hkeeps.2.trans hcompleted⟩, fun _ => hphase⟩

end Calls

/-! ## Runs -/

/-- The phases that have returned `Ok`, after one more call. -/
def note (returned : List LoadPhase) (phase : LoadPhase) : SaveResult Unit → List LoadPhase
  | .ok () => returned ++ [phase]
  | .error _ => returned

/-- One call in order: its work is done only after the phase before has returned `Ok`, it
leaves the due phase callable if it fails, and `is_finished` is up to date. -/
structure Orderly (r : LoadReconstruction) (returned : List LoadPhase) (c : LoadCall D) : Prop where
  in_turn : (r.enter c.phase).1 = .ok () → ∀ p : LoadPhase, p.next = some c.phase → p ∈ returned
  can_retry : (r.call c).1 ≠ .ok () → ∀ p, LoadPhase.due returned = some p →
    ∃ again : LoadCall D, again.phase = p ∧ ((r.call c).2.call again).1 = .ok ()
  finished : (r.call c).2.lifecycle.is_finished = true
    ↔ ∀ p, p ∈ note returned c.phase (r.call c).1

/-- Every call of a run meets `P`. -/
def EachCall (P : LoadReconstruction → List LoadPhase → LoadCall D → Prop) :
    LoadReconstruction → List LoadPhase → List (LoadCall D) → Prop
  | _, _, [] => True
  | r, returned, c :: calls =>
    P r returned c ∧ EachCall P (r.call c).2 (note returned c.phase (r.call c).1) calls

/-- While a phase is due, the call is of that phase and its work succeeds. -/
def InTurn (r : LoadReconstruction) (returned : List LoadPhase) (c : LoadCall D) : Prop :=
  ∀ phase, LoadPhase.due returned = some phase → c.phase = phase ∧ (r.work c).1 = .ok ()

section Runs

variable {r : LoadReconstruction} {returned : List LoadPhase} {c : LoadCall D}

omit [SaveDisk D] [JsonBytes SnapshotHeader] in
theorem mem_note (h : ∀ p, p ∈ returned) {phase : LoadPhase} {result : SaveResult Unit}
    (p : LoadPhase) : p ∈ note returned phase result := by
  cases result with
  | error e => exact h p
  | ok _ => exact List.mem_append_left _ (h p)

/-- A call that is due. -/
theorem orderly_of_due {phase : LoadPhase} (h : Awaits r.lifecycle phase)
    (hphase : c.phase = phase) (hwork : (r.work c).1 = .ok ()) :
    Orderly r phase.before c := by
  obtain ⟨hok, hused, hloaded⟩ := call_succeeds h hphase hwork
  refine ⟨fun _ p hp => ?_, fun hfailed => absurd hok hfailed, ?_⟩
  · rw [hphase] at hp
    rw [LoadPhase.before_next hp]
    simp
  · rw [hok, hphase, note, LoadPhase.mem_through]
    by_cases hlast : phase = .SimulationStart
    · simp [LoadLifecycle.is_finished, (hloaded hlast).completed, hlast, LoadPhase.all_in_order]
    · have hlength := phase.length_before
      simp only [LoadLifecycle.is_finished, (hused hlast).completed, decide_eq_true_eq, hlast,
        iff_false]
      exact Nat.ne_of_lt hlength

/-- The turn that a bad call has used up is missing from then on. -/
theorem not_orderly {phase : LoadPhase} (h : Awaits r.lifecycle phase)
    (hbad : ¬ (c.phase = phase ∧ (r.work c).1 = .ok ())) : ¬ Orderly r phase.before c := by
  intro horderly
  obtain ⟨hfailed, hused⟩ := call_fails h hbad
  obtain ⟨again, hagain, hok⟩ := horderly.can_retry hfailed phase phase.due_before
  rw [call_eq, hagain] at hok
  rcases hent : (r.call c).2.enter phase with ⟨e | ⟨⟩, entered⟩
  · rw [hent] at hok
    cases hok
  · exact enter_used hused (by rw [hent])

theorem orderly_of_loaded (h : Loaded r.lifecycle) (hreturned : ∀ p, p ∈ returned) :
    Orderly r returned c := by
  obtain ⟨hloaded, hfirst⟩ := call_loaded (c := c) h
  refine ⟨fun _ p _ => hreturned p, fun _ p hdue => ?_, ?_⟩
  · rw [LoadPhase.due_none.2 hreturned] at hdue
    cases hdue
  · simp only [LoadLifecycle.is_finished, hloaded.completed, LoadPhase.all_in_order,
      List.length_cons, List.length_nil, decide_true, true_iff]
    exact mem_note hreturned

/-- After the last phase every call is in order. -/
theorem orderly_run_of_loaded (calls : List (LoadCall D)) (h : Loaded r.lifecycle)
    (hreturned : ∀ p, p ∈ returned) :
    EachCall Orderly r returned calls ∧ EachCall InTurn r returned calls := by
  induction calls generalizing r returned with
  | nil => exact ⟨trivial, trivial⟩
  | cons c calls ih =>
      obtain ⟨horderly, hturn⟩ := ih (call_loaded (c := c) h).1 (mem_note hreturned)
      refine ⟨⟨orderly_of_loaded h hreturned, horderly⟩, fun phase hdue => ?_, hturn⟩
      rw [LoadPhase.due_none.2 hreturned] at hdue
      cases hdue

/-- Before it, those are that are of the due phase and succeed. -/
theorem orderly_run_iff {calls : List (LoadCall D)} {phase : LoadPhase}
    (h : Awaits r.lifecycle phase) :
    EachCall Orderly r phase.before calls ↔ EachCall InTurn r phase.before calls := by
  induction calls generalizing r phase with
  | nil => exact Iff.rfl
  | cons c calls ih =>
      by_cases hdue : c.phase = phase ∧ (r.work c).1 = .ok ()
      · obtain ⟨hok, hused, hloaded⟩ := call_succeeds h hdue.1 hdue.2
        have hturn : InTurn r phase.before c := by
          intro p hp
          rw [LoadPhase.due_before] at hp
          cases hp
          exact hdue
        simp only [EachCall, orderly_of_due h hdue.1 hdue.2, hturn, true_and, hok, hdue.1, note]
        rcases hnext : phase.next with _ | next
        · have hlast := LoadPhase.next_none hnext
          have hlater := orderly_run_of_loaded calls (hloaded hlast)
            ((LoadPhase.mem_through phase).2 hlast)
          exact iff_of_true hlater.1 hlater.2
        · have hlater : phase ≠ .SimulationStart := by
            rintro rfl
            cases hnext
          rw [← LoadPhase.before_next hnext]
          exact ih (awaits_of_used (hused hlater) hnext)
      · have hturn : ¬ InTurn r phase.before c := fun hturn => hdue (hturn phase phase.due_before)
        exact iff_of_false (fun horderly => not_orderly h hdue horderly.1) fun hall => hturn hall.1

end Runs

/-- The phases of a load run in order, and can be retried, exactly as long as no call is
out of turn and none fails in its work. -/
theorem load_orderly_iff (r : LoadReconstruction) (calls : List (LoadCall D)) :
    let fresh := { r with lifecycle := .new }
    EachCall Orderly fresh [] calls ↔ EachCall InTurn fresh [] calls := by
  intro fresh
  have hawaits : Awaits fresh.lifecycle .SnapshotDeserialize := ⟨rfl, rfl⟩
  exact orderly_run_iff hawaits

end LoadReconstruction

/-! ## A failed first phase -/

namespace LoadReconstruction

@[reducible] def no_headers : JsonBytes SnapshotHeader := plain_headers []

attribute [local instance] no_headers

/-- A load from a directory that is there and empty. -/
def empty_load : LoadReconstruction :=
  .new { base_dir := "saves", tier_registry := none } (.new .Strict)

def empty_saves : Files := { Files.new with dirs := (∅ : Map String Unit).insert "saves" () }

/-- All six phases, once and in order. -/
def load_calls : List (LoadCall Files) :=
  [.SnapshotDeserialize empty_saves, .ModCoordination ⟨[]⟩ [], .SchemaMigration (.new "1.0.0"),
    .ContentCompilation .new, .SchemaFreeze, .SimulationStart]

/-- The first phase fails and cannot be called again. The second does its work all the
same, and at the end the load counts as finished. -/
theorem empty_load_finishes :
    let first : LoadCall Files := .SnapshotDeserialize empty_saves
    (empty_load.call first).1 = .error (.SnapshotNotFound "no snapshots available")
      ∧ ((empty_load.call first).2.call first).1
        = .error (.InvalidPhaseTransition "ModCoordination" "SnapshotDeserialize")
      ∧ ¬ EachCall Orderly empty_load [] load_calls
      ∧ (load_calls.foldl (fun r c => (r.call c).2) empty_load).lifecycle.is_finished = true := by
  intro first
  refine ⟨by decide +kernel, by decide +kernel, fun h => ?_, by decide +kernel⟩
  have hmissing : LoadPhase.SnapshotDeserialize
      ∉ note [] first.phase (empty_load.call first).1 := by
    decide +kernel
  have hentered : ((empty_load.call first).2.enter .ModCoordination).1 = .ok () := by
    decide +kernel
  exact hmissing (h.2.1.in_turn hentered .SnapshotDeserialize rfl)

end LoadReconstruction

end Scharnhorst
