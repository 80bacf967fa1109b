/-
The order of the systems inside a phase.

The scheduler runs the systems of a phase as a hash map lists them. What the order changes is
the order of the diffs of one phase, and there no two systems write the same table. So each
table gets its diffs in the same order, and the hash of a commit is a sum over them: neither
sees in what order the systems ran.
-/
import Scharnhorst.Driver
import Scharnhorst.Registration
import Scharnhorst.CheckpointRuns

set_option autoImplicit false

namespace Scharnhorst

open Attempt

/-! ## Diffs in another order -/

/-- The same diffs, those of each table in the same order. -/
structure SameByTable (ds ds' : List Diff) : Prop where
  perm : ds.Perm ds'
  by_table : ∀ table, ArrowStore.diffs_of table ds = ArrowStore.diffs_of table ds'

theorem SameByTable.refl (ds : List Diff) : SameByTable ds ds := ⟨.refl _, fun _ => rfl⟩

theorem SameByTable.append {as as' bs bs' : List Diff} (ha : SameByTable as as')
    (hb : SameByTable bs bs') : SameByTable (as ++ bs) (as' ++ bs') where
  perm := ha.perm.append hb.perm
  by_table table := by
    have hleft := ha.by_table table
    have hright := hb.by_table table
    simp only [ArrowStore.diffs_of, List.filter_append] at hleft hright ⊢
    rw [hleft, hright]

/-- Two blocks without a table in common. -/
theorem SameByTable.swap {as bs : List Diff} (h : ∀ a ∈ as, ∀ b ∈ bs, a.table ≠ b.table) :
    SameByTable (as ++ bs) (bs ++ as) where
  perm := List.perm_append_comm
  by_table table := by
    simp only [ArrowStore.diffs_of, List.filter_append]
    by_cases hnone : as.filter (fun d => d.table = table) = []
    · rw [hnone, List.nil_append, List.append_nil]
    · obtain ⟨a, ha⟩ := List.exists_mem_of_ne_nil _ hnone
      obtain ⟨ha, htable⟩ := List.mem_filter.1 ha
      have hother : bs.filter (fun d => d.table = table) = [] := by
        refine List.filter_eq_nil_iff.2 fun b hb heq => h a ha b hb ?_
        rw [of_decide_eq_true htable, of_decide_eq_true heq]
      rw [hother, List.nil_append, List.append_nil]

/-- Blocks in any order, where no two of them have a table in common. -/
theorem SameByTable.flatMap {ids ids' : List String} (hperm : ids.Perm ids') (hnodup : ids.Nodup)
    (diffs : String → List Diff)
    (h : ∀ a ∈ ids, ∀ b ∈ ids, a ≠ b → ∀ d ∈ diffs a, ∀ d' ∈ diffs b, d.table ≠ d'.table) :
    SameByTable (ids.flatMap diffs) (ids'.flatMap diffs) := by
  induction hperm with
  | nil => exact .refl _
  | cons id _ ih =>
      rw [List.flatMap_cons, List.flatMap_cons]
      refine (SameByTable.refl _).append (ih (List.nodup_cons.1 hnodup).2 fun a ha b hb => ?_)
      exact h a (List.mem_cons_of_mem _ ha) b (List.mem_cons_of_mem _ hb)
  | swap id other ids =>
      simp only [List.flatMap_cons, ← List.append_assoc]
      refine SameByTable.append (.swap ?_) (.refl _)
      have hne : other ≠ id := by
        rintro rfl
        exact (List.nodup_cons.1 hnodup).1 List.mem_cons_self
      exact h other List.mem_cons_self id (List.mem_cons_of_mem _ List.mem_cons_self) hne
  | trans hleft _ ih ih' =>
      have hfirst := ih hnodup h
      have hsecond := ih' (hleft.nodup_iff.1 hnodup) fun a ha b hb =>
        h a (hleft.mem_iff.2 ha) b (hleft.mem_iff.2 hb)
      exact ⟨hfirst.perm.trans hsecond.perm,
        fun table => (hfirst.by_table table).trans (hsecond.by_table table)⟩

namespace ArrowStore

variable [Render]

/-- Such diffs leave the same store. -/
theorem apply_diffs_by_table {s mid mid' : ArrowStore} {tick : Tick} {ds ds' : List Diff}
    (hsame : SameByTable ds ds') (h : s.apply_diffs tick ds = (.ok (), mid))
    (h' : s.apply_diffs tick ds' = (.ok (), mid')) : mid' = mid := by
  obtain ⟨hrest, htables⟩ := forEach_apply_diff_ok (apply_diffs_ok.1 h).2.2
  obtain ⟨hrest', htables'⟩ := forEach_apply_diff_ok (apply_diffs_ok.1 h').2.2
  have hsym : SameButTables mid s :=
    ⟨hrest.1.symm, hrest.2.symm, hrest.3.symm, hrest.4.symm, hrest.5.symm, hrest.6.symm,
      hrest.7.symm⟩
  refine (hsym.trans hrest').eq fun n => ?_
  rcases htable : s.tables[n]? with _ | lock
  · rw [((htables n).1 htable).1, ((htables' n).1 htable).1]
  · obtain ⟨t, ht, hrun, -⟩ := (htables n).2 lock htable
    obtain ⟨t', ht', hrun', -⟩ := (htables' n).2 lock htable
    rw [← hsame.by_table n, hrun] at hrun'
    rw [ht, ht', (Prod.mk.inj hrun').2]

end ArrowStore

namespace Journal

variable {Q J : Type} [Render] {ingestor : SnapshotIngestor Q} {saver : SaveJournal J}
  {j k j' k' : Journal Q J} {result result' : CommitResult}

/-- And give the same commit, if they give one. -/
theorem commit_same (hsame : SameByTable j.pending_diffs k.pending_diffs)
    (hcommands : k.pending_commands = j.pending_commands)
    (htick : k.current_tick = j.current_tick) (hstore : k.arrow_store = j.arrow_store)
    (h : j.commit ingestor saver = (.ok result, j'))
    (h' : k.commit ingestor saver = (.ok result', k')) :
    result' = result ∧ k'.arrow_store = j'.arrow_store := by
  obtain ⟨saved, mid, s, snapshot, state_hash, hleft⟩ := commit_ok h
  obtain ⟨saved', mid', s', snapshot', state_hash', hright⟩ := commit_ok h'
  have hdiffs := hright.diffs
  rw [hstore, htick] at hdiffs
  obtain rfl := ArrowStore.apply_diffs_by_table hsame hleft.diffs hdiffs
  have hsnapshot := hright.snapshot
  rw [htick, hleft.snapshot] at hsnapshot
  obtain ⟨-, rfl⟩ := Prod.mk.inj hsnapshot
  have hhash := hash_diffs_perm hsame.perm hleft.hash hright.hash
  rw [hleft.commit] at h
  rw [hright.commit] at h'
  obtain ⟨rfl, q, sj, rfl⟩ := deliver_ok h
  obtain ⟨rfl, q', sj', rfl⟩ := deliver_ok h'
  refine ⟨?_, rfl⟩
  rw [htick, hcommands, hhash, hsame.perm.length_eq]

end Journal

/-! ## Runs of the phases -/

namespace Scheduler

variable {Q J S : Type} {sch sch' : Scheduler Q J S}

/-- What has come of a new scheduler by any calls of the registration, and by whatever else
leaves its two maps alone: ticks, commands, a journal that is written to. -/
inductive Enrolling (is_schema_frozen : Q → Except String Bool) : Scheduler Q J S → Prop
  | new (journal : Journal Q J) (query_engine : Q) (publishes : Bool) (kept : S) :
    Enrolling is_schema_frozen (.new journal query_engine publishes kept)
  | call {sch : Scheduler Q J S} (run : Enrolling is_schema_frozen sch)
      (op : RegistrationOp Q S) :
    Enrolling is_schema_frozen (sch.registration is_schema_frozen op).2
  | other {sch sch' : Scheduler Q J S} (run : Enrolling is_schema_frozen sch)
      (hsystems : sch'.systems = sch.systems) (hregs : sch'.registrations = sch.registrations) :
    Enrolling is_schema_frozen sch'

theorem Enrolling.enrolled {is_schema_frozen : Q → Except String Bool}
    (run : Enrolling is_schema_frozen sch) : sch.Enrolled := by
  induction run with
  | new journal query_engine publishes kept => exact .new journal query_engine publishes kept
  | call _ op ih => exact ih.registration is_schema_frozen op
  | other _ hsystems hregs ih => exact ih.congr hsystems hregs

/-- The two maps of the systems, listed in other orders. -/
structure Reordered (sch sch' : Scheduler Q J S) : Prop where
  systems : sch.systems.data.Perm sch'.systems.data
  registrations : sch.registrations.data.Perm sch'.registrations.data
  same : sch' = { sch with
    systems := sch.systems.set sch'.systems.data
    registrations := sch.registrations.set sch'.registrations.data }

/-- Every registered system emits what its arguments say, whatever has been kept, never
fails, and names only tables that it has declared. -/
structure Dutiful (sch : Scheduler Q J S)
    (emits : String → DeterministicRng → Q → Phase → UInt64 → List Diff) : Prop where
  execute : ∀ id system, sch.systems.data.lookup id = some system →
    ∀ kept rng query_engine phase tick,
      (system.execute kept rng query_engine phase tick).1
        = .ok (emits id rng query_engine phase tick)
  declared : ∀ id system, sch.systems.data.lookup id = some system →
    ∀ rng query_engine phase tick, ∀ d ∈ emits id rng query_engine phase tick,
      d.table ∈ system.write_tables

/-! ### What a run submits -/

/-- The systems of a phase, as they are listed. -/
def phase_ids (sch : Scheduler Q J S) (phase : Phase) : List String :=
  (sch.registrations.data.filter fun entry => entry.2.phase = phase).map Prod.fst

/-- The diffs of a phase. -/
def phase_diffs (sch : Scheduler Q J S)
    (emits : String → DeterministicRng → Q → Phase → UInt64 → List Diff) (tick : UInt64)
    (phase : Phase) : List Diff :=
  (sch.phase_ids phase).flatMap fun id => emits id (.new id tick) sch.query_engine phase tick

/-- A scheduler after systems have run: with more diffs, and other things kept. -/
def ran (sch : Scheduler Q J S) (diffs : List Diff) (kept : S) : Scheduler Q J S :=
  { sch.set_journal { sch.journal.data with
      pending_diffs := sch.journal.data.pending_diffs ++ diffs } with kept }

variable {emits : String → DeterministicRng → Q → Phase → UInt64 → List Diff}

/-- One system, in a scheduler whose journal is open. -/
theorem run_system_ran_diffs (h : sch.Dutiful emits) (hjournal : sch.journal.poisoned = false)
    (hopen : sch.journal.data.phase = .Open) {phase : Phase} {tick : UInt64} {id : String}
    {system : SimSystem Q S} (hsystem : sch.systems.data.lookup id = some system)
    (diffs : List Diff) (kept : S) : ∃ kept',
      run_system phase tick sch.systems.data (sch.ran diffs kept) id
        = (.ok (), sch.ran (diffs ++ emits id (.new id tick) sch.query_engine phase tick) kept') := by
  have hverdict := h.execute id system hsystem kept (.new id tick) sch.query_engine phase tick
  rcases hexecute : system.execute kept (.new id tick) sch.query_engine phase tick
    with ⟨result, kept'⟩
  rw [hexecute] at hverdict
  obtain rfl : result = .ok (emits id (.new id tick) sch.query_engine phase tick) := hverdict
  have hlock : lock "journal" (sch.ran diffs kept).journal
      = .ok { sch.journal.data with
          pending_diffs := sch.journal.data.pending_diffs ++ diffs } := lock_healthy hjournal
  have hbatch := Journal.submit_batch_open
    (j := { sch.journal.data with pending_diffs := sch.journal.data.pending_diffs ++ diffs }) hopen
    (emits id (.new id tick) sch.query_engine phase tick)
  refine ⟨kept', ?_⟩
  simp only [run_system, hsystem]
  have hrun : system.execute (sch.ran diffs kept).kept (.new id tick)
      (sch.ran diffs kept).query_engine phase tick
        = (.ok (emits id (.new id tick) sch.query_engine phase tick), kept') := hexecute
  simp only [hrun, hlock, hbatch]
  simp [ran, set_journal, RwLock.set]

/-- A system that is listed for a phase is in both maps, and is of the phase. -/
theorem Enrolled.of_phase (h : sch.Enrolled) {phase : Phase} {id : String}
    (hid : id ∈ sch.phase_ids phase) : ∃ system,
      sch.systems.data.lookup id = some system ∧ system.phase = phase
        ∧ sch.registrations.data.lookup id = some (.from_system system) := by
  obtain ⟨entry, hentry, rfl⟩ := List.mem_map.1 hid
  obtain ⟨hentry, hphase⟩ := List.mem_filter.1 hentry
  have hreg := (Listed.lookup_eq_some_iff h.nodup.2).2 hentry
  have hboth := hreg
  rw [h.registered] at hboth
  obtain ⟨system, hsystem, hfrom⟩ := Option.map_eq_some_iff.1 hboth
  refine ⟨system, hsystem, ?_, ?_⟩
  · have hsame := of_decide_eq_true hphase
    rwa [← hfrom] at hsame
  · rw [hreg, hfrom]

/-- The systems of a phase, one after the other. -/
theorem run_systems_ran_diffs (h : sch.Dutiful emits) (hjournal : sch.journal.poisoned = false)
    (hopen : sch.journal.data.phase = .Open) (phase : Phase) (tick : UInt64) (ids : List String)
    (hall : ∀ id ∈ ids, ∃ system, sch.systems.data.lookup id = some system)
    (diffs : List Diff) (kept : S) : ∃ kept',
      forEach (run_system phase tick sch.systems.data) (sch.ran diffs kept) ids
        = (.ok (), sch.ran (diffs ++ ids.flatMap fun id =>
            emits id (.new id tick) sch.query_engine phase tick) kept') := by
  induction ids generalizing diffs kept with
  | nil => exact ⟨kept, by simp⟩
  | cons id ids ih =>
      obtain ⟨system, hsystem⟩ := hall id List.mem_cons_self
      obtain ⟨mid, hone⟩ := run_system_ran_diffs h hjournal hopen hsystem diffs kept
      obtain ⟨kept', hrest⟩ := ih (fun other hother => hall other (List.mem_cons_of_mem _ hother))
        (diffs ++ emits id (.new id tick) sch.query_engine phase tick) mid
      refine ⟨kept', ?_⟩
      rw [forEach_cons_of_ok hone, hrest, List.flatMap_cons, List.append_assoc]

/-- One phase, with all its systems registered. -/
theorem run_phase_ran_diffs (h : sch.Dutiful emits) (hjournal : sch.journal.poisoned = false)
    (hopen : sch.journal.data.phase = .Open) (hsystems : sch.systems.poisoned = false)
    (phase : Phase) (tick : UInt64)
    (hknown : ∀ id ∈ sch.phase_ids phase, ∃ system, sch.systems.data.lookup id = some system)
    (diffs : List Diff) (kept : S) : ∃ kept',
      run_phase tick (sch.ran diffs kept) (phase, sch.phase_ids phase)
        = (.ok (), sch.ran (diffs ++ sch.phase_diffs emits tick phase) kept') := by
  have hlock : lock "systems" (sch.ran diffs kept).systems = .ok sch.systems.data :=
    lock_healthy hsystems
  simp only [run_phase, hlock]
  exact run_systems_ran_diffs h hjournal hopen phase tick _ hknown diffs kept

/-- The phases that have systems. -/
def listed_phases (sch : Scheduler Q J S) (phases : List Phase) : List (Phase × List String) :=
  phases.filterMap fun phase =>
    match sch.phase_ids phase with
    | [] => none
    | ids => some (phase, ids)

theorem listed_phases_cons (phase : Phase) (phases : List Phase) :
    sch.listed_phases (phase :: phases) = if sch.phase_ids phase = [] then sch.listed_phases phases
      else (phase, sch.phase_ids phase) :: sch.listed_phases phases := by
  unfold listed_phases
  rcases hids : sch.phase_ids phase with _ | ⟨id, ids⟩
  · rw [List.filterMap_cons_none (by rw [hids]), if_pos rfl]
  · rw [List.filterMap_cons_some (by rw [hids]), if_neg (List.cons_ne_nil _ _)]

/-- One phase after the other, and its systems as they are listed. -/
theorem run_phases_ran_diffs (henrolled : sch.Enrolled) (h : sch.Dutiful emits)
    (hjournal : sch.journal.poisoned = false) (hopen : sch.journal.data.phase = .Open)
    (tick : UInt64) : ∃ kept, sch.run_phases tick
      = (.ok (), sch.ran (Phase.all_in_order.flatMap (sch.phase_diffs emits tick)) kept) := by
  have hknown : ∀ phase, ∀ id ∈ sch.phase_ids phase,
      ∃ system, sch.systems.data.lookup id = some system := by
    intro phase id hid
    obtain ⟨system, hsystem, -, -⟩ := henrolled.of_phase hid
    exact ⟨system, hsystem⟩
  have hphases : ∀ (phases : List Phase) (diffs : List Diff) (kept : S), ∃ kept',
      forEach (run_phase tick) (sch.ran diffs kept) (sch.listed_phases phases)
        = (.ok (), sch.ran (diffs ++ phases.flatMap (sch.phase_diffs emits tick)) kept') := by
    intro phases
    induction phases with
    | nil =>
        intro diffs kept
        exact ⟨kept, by simp [listed_phases]⟩
    | cons phase phases ih =>
        intro diffs kept
        rw [listed_phases_cons, List.flatMap_cons]
        -- a phase without systems is not listed, and has no diffs either
        by_cases hphase : sch.phase_ids phase = []
        · have hnone : sch.phase_diffs emits tick phase = [] := by
            rw [phase_diffs, hphase, List.flatMap_nil]
          rw [if_pos hphase, hnone, List.nil_append]
          exact ih diffs kept
        · obtain ⟨mid, hone⟩ := run_phase_ran_diffs h hjournal hopen henrolled.healthy.1 phase tick
            (hknown phase) diffs kept
          obtain ⟨kept', hrest⟩ := ih (diffs ++ sch.phase_diffs emits tick phase) mid
          refine ⟨kept', ?_⟩
          rw [if_neg hphase, forEach_cons_of_ok hone, hrest, List.append_assoc]
  obtain ⟨kept', hrun⟩ := hphases Phase.all_in_order [] sch.kept
  have hstart : sch.ran [] sch.kept = sch := by
    simp [ran, set_journal, RwLock.set]
  rw [hstart] at hrun
  refine ⟨kept', ?_⟩
  simp only [run_phases, systems_by_phase, lock_healthy henrolled.healthy.2, Except.map]
  exact hrun

/-! ### Two orders -/

/-- Within a phase no two systems name the same table. -/
theorem phase_diffs_same (henrolled : sch.Enrolled) (h : sch.Dutiful emits)
    (hreordered : Reordered sch sch') (tick : UInt64) (phase : Phase) :
    SameByTable (sch.phase_diffs emits tick phase) (sch'.phase_diffs emits tick phase) := by
  have hengine : sch'.query_engine = sch.query_engine := by
    rw [hreordered.same]
  have hperm : (sch.phase_ids phase).Perm (sch'.phase_ids phase) :=
    (hreordered.registrations.filter _).map Prod.fst
  have hnodup : (sch.phase_ids phase).Nodup :=
    henrolled.nodup.2.sublist (List.filter_sublist.map Prod.fst)
  unfold phase_diffs
  rw [hengine]
  -- two systems of one phase that named the same table would be in conflict
  refine .flatMap hperm hnodup _ fun a ha b hb hne d hd d' hd' heq => ?_
  obtain ⟨system, hsystem, hphase, hreg⟩ := henrolled.of_phase ha
  obtain ⟨other, hother, hphase', hreg'⟩ := henrolled.of_phase hb
  have hmine := h.declared a system hsystem _ _ _ _ d hd
  have htheirs := h.declared b other hother _ _ _ _ d' hd'
  refine henrolled.disjoint a b _ _ hne hreg hreg' (hphase.trans hphase'.symm) d.table hmine ?_
  rw [heq]
  exact htheirs

/-- All phases of a run. -/
theorem run_diffs_same (henrolled : sch.Enrolled) (h : sch.Dutiful emits)
    (hreordered : Reordered sch sch') (tick : UInt64) (phases : List Phase) :
    SameByTable (phases.flatMap (sch.phase_diffs emits tick))
      (phases.flatMap (sch'.phase_diffs emits tick)) := by
  induction phases with
  | nil => exact .refl _
  | cons phase phases ih =>
      rw [List.flatMap_cons, List.flatMap_cons]
      exact (phase_diffs_same henrolled h hreordered tick phase).append ih

theorem Reordered.enrolled (h : Reordered sch sch') (henrolled : sch.Enrolled) :
    sch'.Enrolled := by
  refine henrolled.perm h.systems h.registrations ?_
  rw [h.same]
  exact henrolled.healthy

theorem Reordered.dutiful (h : Reordered sch sch') (henrolled : sch.Enrolled)
    (hdutiful : sch.Dutiful emits) : sch'.Dutiful emits := by
  have hsystems := Listed.lookup_perm h.systems henrolled.nodup.1
  refine ⟨fun id system hsystem => ?_, fun id system hsystem => ?_⟩
  · exact hdutiful.execute id system (by rw [← hsystems]; exact hsystem)
  · exact hdutiful.declared id system (by rw [← hsystems]; exact hsystem)

section Run

variable [Render] {ingestor : SnapshotIngestor Q} {saver : SaveJournal J}

/-- However the systems of each phase are listed, they run through, and a commit after them
that goes through leaves the same store and says the same. -/
theorem phase_order_irrelevant {is_schema_frozen : Q → Except String Bool}
    (run : Enrolling is_schema_frozen sch) (hdutiful : sch.Dutiful emits)
    (hreordered : Reordered sch sch') {tick : UInt64} {mid after : Scheduler Q J S}
    {result : CommitResult} (hphases : sch.run_phases tick = (.ok (), mid))
    (hcommit : mid.atomic_commit ingestor saver = (.ok result, after)) :
    ∃ mid', sch'.run_phases tick = (.ok (), mid')
      ∧ ∀ result' after', mid'.atomic_commit ingestor saver = (.ok result', after') →
        result' = result ∧ after'.journal.data.arrow_store = after.journal.data.arrow_store := by
  have henrolled := run.enrolled
  have hran := run_phases_ran sch tick
  rw [hphases] at hran
  obtain ⟨kept, diffs, rfl, -⟩ := hran
  obtain ⟨j, q, hj, rfl⟩ := atomic_commit_ok hcommit
  have hjournal : sch.journal.poisoned = false := by
    unfold atomic_commit at hcommit
    split at hcommit
    · cases (Prod.mk.inj hcommit).1
    · rename_i hlock
      exact (lock_ok hlock).1
  have hopen : sch.journal.data.phase = .Open := by
    obtain ⟨saved, mid, s, snapshot, state_hash, happlies⟩ := Journal.commit_ok hj
    exact happlies.phase
  have hsame := hreordered.same
  have hjournals : sch'.journal = sch.journal := by
    rw [hsame]
  -- both runs end with the diffs that the systems emit, each in its own order
  obtain ⟨kept₁, hrun₁⟩ := run_phases_ran_diffs henrolled hdutiful hjournal hopen tick
  obtain ⟨kept₂, hrun₂⟩ := run_phases_ran_diffs (hreordered.enrolled henrolled)
    (hreordered.dutiful henrolled hdutiful) (by rw [hjournals]; exact hjournal)
    (by rw [hjournals]; exact hopen) tick
  refine ⟨_, hrun₂, fun result' after' hcommit' => ?_⟩
  obtain ⟨j', q', hj', rfl⟩ := atomic_commit_ok hcommit'
  have hmid := (Prod.mk.inj (hphases.symm.trans hrun₁)).2
  have hdiffs := run_diffs_same henrolled hdutiful hreordered tick Phase.all_in_order
  have hpending : diffs = sch.journal.data.pending_diffs
      ++ Phase.all_in_order.flatMap (sch.phase_diffs emits tick) := by
    have hjournals := congrArg (fun k => k.journal.data.pending_diffs) hmid
    exact hjournals
  refine Journal.commit_same ?_ ?_ ?_ ?_ hj hj'
  · simp only [set_journal, RwLock.data_set, ran, hjournals, hpending]
    exact (SameByTable.refl _).append hdiffs
  · simp only [set_journal, RwLock.data_set, ran, hjournals]
  · simp only [set_journal, RwLock.data_set, ran, hjournals]
  · simp only [set_journal, RwLock.data_set, ran, hjournals]

end Run

/-! ## Two clerks -/

section Clerks

attribute [local instance] plain_text

/-- A system that sets a quantity of its table, whatever it is given. -/
def clerk (id table : String) : SimSystem Unit Unit where
  id
  phase := .Economy
  read_tables := []
  write_tables := [table]
  refresh_callback := none
  execute := fun kept _ _ _ _ => (.ok [set_qty table], kept)

/-- Two clerks in a shop, one for each table. -/
def two_clerks : Scheduler Unit (List CommitRecord) Unit :=
  let sch := Scheduler.new (.new shop_a) () false ()
  let sch := (sch.registration (fun _ => .ok true) (.RegisterSystem (clerk "stock" "items"))).2
  (sch.registration (fun _ => .ok true) (.RegisterSystem (clerk "sales" "orders"))).2

/-- The other one listed first. -/
def two_clerks_turned : Scheduler Unit (List CommitRecord) Unit :=
  { two_clerks with
    systems := two_clerks.systems.set two_clerks.systems.data.reverse
    registrations := two_clerks.registrations.set two_clerks.registrations.data.reverse }

/-- Each clerk sets the quantity of its own table. -/
def clerk_diffs (id : String) (_ : DeterministicRng) (_ : Unit) (_ : Phase) (_ : UInt64) :
    List Diff :=
  if id = "stock" then [set_qty "items"] else [set_qty "orders"]

/-- An engine that is never asked. -/
def absent : SnapshotIngestor Unit where
  begin_ingest q := (.error "absent", q)
  ingest_snapshot q _ _ _ _ := (.error "absent", q)
  store_snapshot q _ := (.error "absent", q)

theorem two_clerks_dutiful : two_clerks.Dutiful clerk_diffs := by
  have hclerks : ∀ id system, two_clerks.systems.data.lookup id = some system →
      system = clerk "sales" "orders" ∧ id = "sales"
        ∨ system = clerk "stock" "items" ∧ id = "stock" := by
    intro id system h
    have hlisted : two_clerks.systems.data
        = [("sales", clerk "sales" "orders"), ("stock", clerk "stock" "items")] := rfl
    rw [hlisted, List.lookup_cons] at h
    split at h
    · rename_i heq
      exact .inl ⟨(Option.some.inj h).symm, eq_of_beq heq⟩
    · rw [List.lookup_cons] at h
      split at h
      · rename_i heq
        exact .inr ⟨(Option.some.inj h).symm, eq_of_beq heq⟩
      · cases h
  refine ⟨fun id system h => ?_, fun id system h => ?_⟩
  · obtain ⟨rfl, rfl⟩ | ⟨rfl, rfl⟩ := hclerks id system h
    all_goals exact fun _ _ _ _ _ => rfl
  · obtain ⟨rfl, rfl⟩ | ⟨rfl, rfl⟩ := hclerks id system h
    all_goals
      intro _ _ _ _ d hd
      obtain rfl := List.mem_singleton.1 hd
      exact List.mem_singleton.2 rfl

theorem ok_of_isSome {α : Type} {x : SchedulerResult α} (h : x.toOption.isSome) :
    ∃ a, x = .ok a := by
  rcases x with e | a
  · cases h
  · exact ⟨a, rfl⟩

/-- Both orders commit, and to the same. -/
theorem clerks_either_way :
    let listed := (two_clerks.run_phases 1).2.atomic_commit absent InMemorySaveJournal
    let turned := (two_clerks_turned.run_phases 1).2.atomic_commit absent InMemorySaveJournal
    turned.1 = listed.1 ∧ listed.1.toOption.isSome
      ∧ turned.2.journal.data.arrow_store = listed.2.journal.data.arrow_store := by
  intro listed turned
  have run : Enrolling (fun _ => .ok true) two_clerks :=
    ((Enrolling.new _ _ _ _).call _).call _
  have hturned : Reordered two_clerks two_clerks_turned :=
    ⟨(List.reverse_perm _).symm, (List.reverse_perm _).symm, rfl⟩
  have hphases : (two_clerks.run_phases 1).1 = .ok () := by decide +kernel
  obtain ⟨result, hresult⟩ : ∃ result, listed.1 = .ok result :=
    ok_of_isSome (by decide +kernel)
  obtain ⟨result', hresult'⟩ : ∃ result, turned.1 = .ok result :=
    ok_of_isSome (by decide +kernel)
  obtain ⟨mid', hmid', hsame⟩ := phase_order_irrelevant run two_clerks_dutiful hturned
    (eq_of_verdict hphases) (eq_of_verdict hresult)
  have hother : (two_clerks_turned.run_phases 1).2 = mid' := congrArg Prod.snd hmid'
  obtain ⟨rfl, hstore⟩ := hsame result' turned.2 (hother ▸ eq_of_verdict hresult')
  exact ⟨hresult'.trans hresult.symm, by rw [hresult]; rfl, hstore⟩

end Clerks

end Scheduler

end Scharnhorst
