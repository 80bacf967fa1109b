/-
How a commit ends.

Every step of a commit writes to one part of the journal: the store, the engine or
the save journal. So whichever of them fails, the block that puts the rest back has
the same to do, and `Ending` has one case for all of them. The exception is the first
step, which fails before there is such a block, when a table that a pending diff names
has a poisoned lock. Then the pending lists are gone and the phase stays `Committing`.

The run at the end is about what a submitter can see: which calls were accepted, and
what is in the records. It uses `Ending` and not the steps.
-/
import Scharnhorst.Journal
import Scharnhorst.QuerySpec
import Scharnhorst.Reads
import Scharnhorst.Refinement

set_option autoImplicit false

namespace Scharnhorst

open Attempt Maps

namespace Journal

section Commits

variable [Render] {Q J : Type} {ingestor : SnapshotIngestor Q} {saver : SaveJournal J}

/-! ## What each step writes -/

theorem apply_diffs_and_hash_writes {j j' : Journal Q J} {diffs : List Diff}
    {r : JournalResult UInt64} (h : j.apply_diffs_and_hash diffs = (r, j')) :
    ∃ s, j' = { j with arrow_store := s } := by
  unfold apply_diffs_and_hash at h
  repeat' split at h
  all_goals exact ⟨_, (Prod.mk.inj h).2.symm⟩

omit [Render] in
theorem begin_ingest_writes {j j' : Journal Q J}
    {r : JournalResult (Option (Q → Except String Unit × Q))}
    (h : j.begin_ingest ingestor = (r, j')) : ∃ q, j' = { j with query_engine := q } := by
  unfold begin_ingest at h
  split at h <;> exact ⟨_, (Prod.mk.inj h).2.symm⟩

omit [Render] in
theorem publish_writes {j j' : Journal Q J} {tick : Tick} {r : JournalResult Unit}
    (h : j.publish ingestor tick = (r, j')) : ∃ q, j' = { j with query_engine := q } := by
  unfold publish at h
  split at h <;> exact ⟨_, (Prod.mk.inj h).2.symm⟩

omit [Render] in
theorem undo_ingest_writes (rollback : Option (Q → Except String Unit × Q)) (j : Journal Q J) :
    ∃ q, j.undo_ingest rollback = { j with query_engine := q } := by
  unfold undo_ingest
  split <;> exact ⟨_, rfl⟩

/-- The save journal took the record, if there is one. -/
def Appended (saver : SaveJournal J) (record : CommitRecord) : Option J → Option J → Prop
  | none, sj' => sj' = none
  | some x, sj' => ∃ y, saver.append x record = (.ok (), y) ∧ sj' = some y

/-- The save journal was not asked, or it refused a record. -/
def Refused (saver : SaveJournal J) (sj sj' : Option J) : Prop :=
  sj' = sj ∨ ∃ x y e record, sj = some x ∧ saver.append x record = (.error e, y) ∧ sj' = some y

omit [Render] in
theorem append_ok {j j' : Journal Q J} {record : CommitRecord}
    (h : j.append saver record = (.ok (), j')) :
    ∃ sj, Appended saver record j.save_journal sj ∧ j' = { j with save_journal := sj } := by
  unfold append at h
  rcases hsj : j.save_journal with _ | x
  · simp only [hsj, Prod.mk.injEq, true_and] at h
    subst h
    exact ⟨none, rfl, by rw [← hsj]⟩
  · simp only [hsj, Prod.mk.injEq] at h
    obtain ⟨hok, rfl⟩ := h
    exact ⟨_, ⟨_, Prod.ext hok rfl, rfl⟩, rfl⟩

omit [Render] in
theorem append_error {j j' : Journal Q J} {record : CommitRecord} {e : JournalError}
    (h : j.append saver record = (.error e, j')) :
    ∃ sj, Refused saver j.save_journal sj ∧ j' = { j with save_journal := sj } := by
  unfold append at h
  rcases hsj : j.save_journal with _ | x
  · simp [hsj] at h
  · simp only [hsj, Prod.mk.injEq] at h
    obtain ⟨he, rfl⟩ := h
    exact ⟨_, .inr ⟨x, _, e, record, rfl, Prod.ext he rfl, rfl⟩, rfl⟩

omit [Render] in
variable (ingestor saver) in
/-- The second half of a commit: a failure writes to the engine and the save journal and
puts the rest back, a success ends the tick. -/
theorem deliver_cases (j : Journal Q J) (tick : Tick) (saved : Map String Versions)
    (diffs : List Diff) (commands : List CommandEnvelope) (state_hash : UInt64) :
    (∃ e q sj, Refused saver j.save_journal sj
        ∧ j.deliver ingestor saver tick saved diffs commands state_hash
          = (.error e, { j with query_engine := q, save_journal := sj }.put_back saved diffs commands))
      ∨ ∃ q sj, Appended saver (.with_commands tick diffs commands state_hash) j.save_journal sj
        ∧ j.deliver ingestor saver tick saved diffs commands state_hash
          = (.ok ⟨tick, diffs.length, commands.length, state_hash⟩,
            { j with query_engine := q, save_journal := sj }.finish
              (.with_commands tick diffs commands state_hash)) := by
  unfold deliver
  rcases hbegin : j.begin_ingest ingestor with ⟨e | rollback, j₁⟩
  · obtain ⟨q, rfl⟩ := begin_ingest_writes hbegin
    exact .inl ⟨e, q, j.save_journal, .inl rfl, rfl⟩
  obtain ⟨q, rfl⟩ := begin_ingest_writes hbegin
  simp only
  rcases hpublish : publish ingestor { j with query_engine := q } tick with ⟨e | ⟨⟩, j₂⟩
  · obtain ⟨q', rfl⟩ := publish_writes hpublish
    obtain ⟨q'', hundo⟩ := undo_ingest_writes rollback { j with query_engine := q' }
    exact .inl ⟨e, q'', j.save_journal, .inl rfl, by simp only [hundo]⟩
  obtain ⟨q', rfl⟩ := publish_writes hpublish
  simp only
  rcases happend : append saver { j with query_engine := q' }
    (.with_commands tick diffs commands state_hash) with ⟨e | ⟨⟩, j₃⟩
  · obtain ⟨sj, hrefused, rfl⟩ := append_error happend
    obtain ⟨q'', hundo⟩ := undo_ingest_writes rollback
      { j with query_engine := q', save_journal := sj }
    exact .inl ⟨e, q'', sj, hrefused, by simp only [hundo]; rfl⟩
  · obtain ⟨sj, happended, rfl⟩ := append_ok happend
    exact .inr ⟨q', sj, happended, rfl⟩

omit [Render] in
/-- An open journal takes a batch whole. -/
theorem submit_batch_open {j : Journal Q J} (hopen : j.phase = .Open) (diffs : List Diff) :
    j.submit_batch diffs = (.ok (), { j with pending_diffs := j.pending_diffs ++ diffs }) := by
  unfold submit_batch
  induction diffs generalizing j with
  | nil => simp
  | cons diff diffs ih =>
      have hstep : j.submit_diff diff
          = (.ok (), { j with pending_diffs := j.pending_diffs ++ [diff] }) := by
        simp [submit_diff, hopen]
      rw [forEach_cons_of_ok hstep, ih (j := { j with pending_diffs := j.pending_diffs ++ [diff] }) hopen]
      simp

/-! ## The three endings -/

/-- What an open journal's commit returns and leaves. -/
inductive Ending (saver : SaveJournal J) (j : Journal Q J) :
    JournalResult CommitResult → Journal Q J → Prop where
  | lost {e : JournalError}
      (hpoisoned : ¬ j.arrow_store.Healthy (j.pending_diffs.map Diff.table)) :
      Ending saver j (.error e)
        { j with phase := .Committing, pending_diffs := [], pending_commands := [] }
  | recovered {e : JournalError} {arrow_store : ArrowStore} {query_engine : Option Q}
      {save_journal : Option J} (hhealthy : j.arrow_store.Healthy (j.pending_diffs.map Diff.table))
      (hrefused : Refused saver j.save_journal save_journal) :
      Ending saver j (.error e) { j with phase := .Open, arrow_store, query_engine, save_journal }
  | committed {record : CommitRecord} {arrow_store : ArrowStore} {query_engine : Option Q}
      {save_journal : Option J} (hhealthy : j.arrow_store.Healthy (j.pending_diffs.map Diff.table))
      (htick : record.tick = j.current_tick) (hdiffs : record.diffs = j.pending_diffs)
      (hcommands : record.commands = j.pending_commands)
      (happended : Appended saver record j.save_journal save_journal) :
      Ending saver j
        (.ok ⟨record.tick, record.diffs.length, record.commands.length, record.state_hash⟩)
        { current_tick := j.current_tick.next
          phase := .Open
          pending_commands := []
          pending_diffs := []
          history := evict (j.history ++ [record])
          save_journal, arrow_store, query_engine }

variable (ingestor saver) in
/-- A commit of an open journal ends in one of the three ways. -/
theorem commit_ending {j : Journal Q J} (hopen : j.phase = .Open) :
    Ending saver j (j.commit ingestor saver).1 (j.commit ingestor saver).2 := by
  have hcommit : j.commit ingestor saver = j.commit_open ingestor saver := by
    simp [commit, hopen]
  rw [hcommit]
  unfold commit_open
  simp only
  split
  · rename_i e hsave
    refine .lost fun hhealthy => ?_
    obtain ⟨saved, hsaved⟩ := ArrowStore.save_ok_iff.2 hhealthy
    rw [hsave] at hsaved
    cases hsaved
  rename_i saved hsave
  have hhealthy := ArrowStore.save_ok_iff.1 ⟨saved, hsave⟩
  -- from here on every failure goes through `put_back`
  split
  · rename_i j₁ happly
    obtain ⟨s, rfl⟩ := apply_diffs_and_hash_writes happly
    exact .recovered hhealthy (.inl rfl)
  · rename_i state_hash j₁ happly
    obtain ⟨s, rfl⟩ := apply_diffs_and_hash_writes happly
    rcases deliver_cases ingestor saver { j with
        phase := .Committing, pending_diffs := [], pending_commands := [], arrow_store := s }
      j.current_tick saved j.pending_diffs j.pending_commands state_hash with
      ⟨e, q, sj, hrefused, h⟩ | ⟨q, sj, happended, h⟩
    · rw [h]
      exact .recovered hhealthy hrefused
    · rw [h]
      refine .committed hhealthy ?_ ?_ ?_ happended <;> rfl

/-! ## A commit in two halves -/

/-- The hash of a commit's diffs is the one that `hash_diffs` computes from them. -/
theorem apply_diffs_and_hash_ok {j j' : Journal Q J} {diffs : List Diff} {state_hash : UInt64}
    (h : j.apply_diffs_and_hash diffs = (.ok state_hash, j')) :
    ∃ mid snapshot s, j.arrow_store.apply_diffs j.current_tick diffs = (.ok (), mid)
      ∧ mid.generate_snapshot j.current_tick = (.ok snapshot, s)
      ∧ hash_diffs diffs = .ok state_hash ∧ j' = { j with arrow_store := s } := by
  unfold apply_diffs_and_hash at h
  split at h
  · cases h
  · rename_i mid hmid
    split at h
    · cases h
    · rename_i snapshot s hsnap
      obtain ⟨hhash, rfl⟩ := Prod.mk.inj h
      exact ⟨mid, snapshot, s, hmid, hsnap, hhash, rfl⟩

/-- The journal of a commit whose diffs are applied. -/
def applied (j : Journal Q J) (arrow_store : ArrowStore) : Journal Q J :=
  { j with phase := .Committing, pending_diffs := [], pending_commands := [], arrow_store }

/-- The first half of a commit that goes through. -/
structure Applies (j : Journal Q J) (saved : Map String Versions) (mid s : ArrowStore)
    (snapshot : WorldSnapshot) (state_hash : UInt64) : Prop where
  phase : j.phase = .Open
  saved : j.arrow_store.save_table_versions (j.pending_diffs.map Diff.table) = .ok saved
  diffs : j.arrow_store.apply_diffs j.current_tick j.pending_diffs = (.ok (), mid)
  snapshot : mid.generate_snapshot j.current_tick = (.ok snapshot, s)
  hash : hash_diffs j.pending_diffs = .ok state_hash

variable {j j' : Journal Q J} {saved : Map String Versions} {mid s : ArrowStore}
  {snapshot : WorldSnapshot} {state_hash : UInt64}

/-- The second half begins where the first half ends. -/
theorem Applies.commit (h : Applies j saved mid s snapshot state_hash)
    (ingestor : SnapshotIngestor Q) (saver : SaveJournal J) :
    j.commit ingestor saver
      = (j.applied s).deliver ingestor saver j.current_tick saved j.pending_diffs
        j.pending_commands state_hash := by
  obtain ⟨hopen, hsaved, hdiffs, hsnapshot, hhash⟩ := h
  simp only [Journal.commit, hopen, ne_eq, not_true_eq_false, if_false, commit_open, hsaved,
    apply_diffs_and_hash, hdiffs, hsnapshot, hhash, applied]

theorem commit_ok {result : CommitResult} (h : j.commit ingestor saver = (.ok result, j')) :
    ∃ saved mid s snapshot state_hash, Applies j saved mid s snapshot state_hash := by
  by_cases hopen : j.phase = .Open
  · rcases hsaved : j.arrow_store.save_table_versions (j.pending_diffs.map Diff.table) with e | saved
    · simp [commit, hopen, commit_open, hsaved] at h
    rcases happly : apply_diffs_and_hash
      { j with phase := .Committing, pending_diffs := [], pending_commands := [] } j.pending_diffs
      with ⟨e | state_hash, j₁⟩
    · simp [commit, hopen, commit_open, hsaved, happly] at h
    · obtain ⟨mid, snapshot, s, hdiffs, hsnapshot, hhash, -⟩ := apply_diffs_and_hash_ok happly
      exact ⟨saved, mid, s, snapshot, state_hash, hopen, hsaved, hdiffs, hsnapshot, hhash⟩
  · simp [commit, hopen] at h

omit [Render] in
/-- What a successful second half leaves of the journal. -/
theorem deliver_ok {tick : Tick} {diffs : List Diff} {commands : List CommandEnvelope}
    {result : CommitResult}
    (h : j.deliver ingestor saver tick saved diffs commands state_hash = (.ok result, j')) :
    result = ⟨tick, diffs.length, commands.length, state_hash⟩ ∧ ∃ q sj,
      j' = { j with query_engine := q, save_journal := sj }.finish
        (.with_commands tick diffs commands state_hash) := by
  rcases deliver_cases ingestor saver j tick saved diffs commands
    state_hash with ⟨e, q, sj, -, herr⟩ | ⟨q, sj, -, hok⟩
  · rw [herr] at h
    cases h
  · obtain ⟨hresult, rfl⟩ := Prod.mk.inj (hok.symm.trans h)
    exact ⟨(Except.ok.inj hresult).symm, q, sj, rfl⟩

/-! ## Recovery -/

/-- What a failed commit has to leave: the phase open again, and everything that the
journal itself keeps as it was. -/
structure Recovered (j j' : Journal Q J) : Prop where
  phase : j'.phase = .Open
  pending_diffs : j'.pending_diffs = j.pending_diffs
  pending_commands : j'.pending_commands = j.pending_commands
  current_tick : j'.current_tick = j.current_tick
  history : j'.history = j.history

/-- The journal takes submissions, and a commit gets past the check of the phase. -/
structure Accepts (ingestor : SnapshotIngestor Q) (saver : SaveJournal J) (j : Journal Q J) :
    Prop where
  submit_diff : ∀ diff, (j.submit_diff diff).1 = .ok ()
  submit_command : ∀ envelope, envelope.tick = j.current_tick →
    (j.submit_command envelope).1 = .ok ()
  commit : j.commit ingestor saver = j.commit_open ingestor saver

theorem accepts_of_open {j : Journal Q J} (h : j.phase = .Open) : Accepts ingestor saver j :=
  ⟨fun diff => by simp [submit_diff, h], fun envelope ht => by simp [submit_command, h, ht],
    by simp [commit, h]⟩

/-- A failed commit recovers, and the journal goes on, exactly when no table that a
pending diff names has a poisoned lock. -/
theorem commit_recovers_iff {e : JournalError} (hopen : j.phase = .Open)
    (h : j.commit ingestor saver = (.error e, j')) :
    (Recovered j j' ∧ Accepts ingestor saver j')
      ↔ j.arrow_store.Healthy (j.pending_diffs.map Diff.table) := by
  have hending := commit_ending ingestor saver hopen
  rw [h] at hending
  cases hending with
  | lost hpoisoned =>
      refine ⟨fun hrecovered => ?_, fun hhealthy => absurd hhealthy hpoisoned⟩
      cases hrecovered.1.phase
  | recovered hhealthy hrefused =>
      exact ⟨fun _ => hhealthy, fun _ => ⟨⟨rfl, rfl, rfl, rfl, rfl⟩, accepts_of_open rfl⟩⟩

/-! ## The hash

The hashes of the diffs are added up, and a sum has no order. -/

/-- What a diff adds to the hash. -/
def diff_hash (d : Diff) : UInt64 :=
  ((Render.diff_to_string d).toOption.map fun json => fnv1a_64 json.toUTF8.toList).getD 0

theorem hash_diffs_ok {diffs : List Diff} {state_hash : UInt64}
    (h : hash_diffs diffs = .ok state_hash) :
    state_hash = diffs.foldl (fun acc d => acc + diff_hash d) 0 := by
  unfold hash_diffs at h
  generalize (0 : UInt64) = acc at h ⊢
  induction diffs generalizing acc with
  | nil => simpa [pure, Except.pure, eq_comm] using h
  | cons d diffs ih =>
      rw [List.foldlM_cons] at h
      rcases hd : Render.diff_to_string d with e | json
      · simp [hd, Except.mapError, bind, Except.bind] at h
      · simp only [hd, Except.mapError, bind, Except.bind, pure, Except.pure] at h
        rw [List.foldl_cons, ih _ h]
        simp [diff_hash, hd, Except.toOption]

theorem hash_diffs_perm {diffs diffs' : List Diff} {h₁ h₂ : UInt64} (hperm : diffs.Perm diffs')
    (hd : hash_diffs diffs = .ok h₁) (hd' : hash_diffs diffs' = .ok h₂) : h₁ = h₂ := by
  rw [hash_diffs_ok hd, hash_diffs_ok hd']
  exact hperm.foldl_eq' (fun d _ d' _ acc => by ac_rfl) 0

/-- The two orders of two diffs both go through, and the hashes tell them apart. -/
def SeparatesOrders (j : Journal Q J) (d₁ d₂ : Diff) : Prop :=
  ∃ h₁ h₂, (j.apply_diffs_and_hash [d₁, d₂]).1 = .ok h₁
    ∧ (j.apply_diffs_and_hash [d₂, d₁]).1 = .ok h₂ ∧ h₁ ≠ h₂

theorem hash_forgets_order (j : Journal Q J) (d₁ d₂ : Diff) : ¬ j.SeparatesOrders d₁ d₂ := by
  rintro ⟨h₁, h₂, hok₁, hok₂, hne⟩
  obtain ⟨-, -, -, -, -, hhash₁, -⟩ := apply_diffs_and_hash_ok (eq_of_verdict hok₁)
  obtain ⟨-, -, -, -, -, hhash₂, -⟩ := apply_diffs_and_hash_ok (eq_of_verdict hok₂)
  exact hne (hash_diffs_perm (.swap d₂ d₁ []) hhash₁ hhash₂)

end Commits

/-! ## A poisoned table, and two orders -/

section Items

attribute [local instance] plain_text QueryEngine.no_merge

/-- A journal over the items, with the query engine and the save journal of the source
as its types and neither attached. -/
def items_journal (s : ArrowStore) (diffs : List Diff) :
    Journal QueryEngine (List CommitRecord) :=
  ((new s).submit_batch diffs).2

def items_commit (j : Journal QueryEngine (List CommitRecord)) :
    JournalResult CommitResult × Journal QueryEngine (List CommitRecord) :=
  j.commit QueryEngine.ingestor InMemorySaveJournal

/-- A commit that fails in its diffs, over a healthy table. -/
theorem missing_table_recovers :
    let j := items_journal one_item [set_qty "items", set_qty "missing"]
    Recovered j (items_commit j).2
      ∧ Accepts QueryEngine.ingestor InMemorySaveJournal (items_commit j).2 := by
  intro j
  have herr : (items_commit j).1 = .error (.ArrowStore "apply_diffs: table not found: missing") := by
    decide +kernel
  exact (@commit_recovers_iff _ _ _ QueryEngine.ingestor InMemorySaveJournal j _ _ rfl
    (Prod.ext herr rfl)).2 (by decide +kernel)

/-- A batch without columns. -/
def no_columns : RecordBatch := QueryEngine.empty_batch

/-- The items after a patch whose batch has no columns. The patch indexes a column that
is not there, and unwinds with the table's guard in its hand. -/
def poisoned_items : ArrowStore :=
  (one_item.patch_rows "items" 0 [⟨0, 0, 0, 1⟩] no_columns).2

/-- The first commit over it takes the pending diff, fails, and leaves the phase as it
is. -/
theorem poisoned_table_stuck :
    let j := items_journal poisoned_items [set_qty "items"]
    j.phase = .Open ∧ j.pending_diffs.length = 1
      ∧ (items_commit j).1
        = .error (.ArrowStore "save versions: lock poisoned: poisoned lock: another task failed inside")
      ∧ (items_commit j).2.phase = .Committing ∧ (items_commit j).2.pending_diffs.length = 0
      ∧ ¬ Recovered j (items_commit j).2
      ∧ ((items_commit j).2.submit_diff (set_qty "items")).1
        = .error (.SubmitFailed "commit already in progress")
      ∧ (items_commit (items_commit j).2).1 = .error (.CommitFailed "no open commit phase") := by
  intro j
  have hphase : (items_commit j).2.phase = .Committing := by decide +kernel
  refine ⟨rfl, rfl, by decide +kernel, hphase, by decide +kernel, fun h => ?_, by decide +kernel,
    by decide +kernel⟩
  have hopen := h.phase
  rw [hphase] at hopen
  cases hopen

def set_twelve : Diff := .Update "items" 1 "qty" (number 12)

/-- Two updates of one cell: the later one wins, the digest of the two texts in order
tells the orders apart, and the hash does not. -/
theorem orders_not_separated :
    let j := items_journal one_item []
    let first := j.apply_diffs_and_hash [set_qty "items", set_twelve]
    let second := j.apply_diffs_and_hash [set_twelve, set_qty "items"]
    let text := fun d => ((Render.diff_to_string d).toOption.getD "").toUTF8.toList
    (items_table first.2.arrow_store).resolve 1 = some [.UInt64 1, .Int64 12]
      ∧ (items_table second.2.arrow_store).resolve 1 = some [.UInt64 1, .Int64 11]
      ∧ fnv1a_64 (text (set_qty "items") ++ text set_twelve)
        ≠ fnv1a_64 (text set_twelve ++ text (set_qty "items"))
      ∧ ∃ state_hash, first.1 = .ok state_hash ∧ second.1 = .ok state_hash := by
  refine ⟨by decide +kernel, by decide +kernel, by decide +kernel,
    fnv1a_64 ((Render.diff_to_string (set_qty "items")).toOption.getD "").toUTF8.toList
      + fnv1a_64 ((Render.diff_to_string set_twelve).toOption.getD "").toUTF8.toList,
    by decide +kernel, by decide +kernel⟩

end Items

end Journal

end Scharnhorst
