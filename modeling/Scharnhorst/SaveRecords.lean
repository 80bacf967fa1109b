/-
One record for each commit?

A save journal with a checkpoint manager pushes the record and counts it, and only then
looks whether the threshold is reached and the retention goes through. If that fails, the
commit takes the append to have failed and is made again, but the record stays. From then
on there is one record more than there are commits, in any later state of the run.

The disk may be anything between two calls and may refuse anything during one.
-/
import Scharnhorst.Managers
import Scharnhorst.Replay

set_option autoImplicit false

namespace Scharnhorst

open Attempt

/-! ## The first steps of a commit -/

namespace Journal

section Steps

variable [Render] {Q J : Type}

/-- A commit gets to its save journal: the diffs apply, and the engine takes the snapshot. -/
def Reaches (ingestor : SnapshotIngestor Q) (j : Journal Q J) : Prop :=
  ∃ saved mid s snapshot state_hash, Applies j saved mid s snapshot state_hash
    ∧ ∃ rollback k, (j.applied s).begin_ingest ingestor = (.ok rollback, k)
      ∧ (k.publish ingestor j.current_tick).1 = .ok ()

variable {ingestor : SnapshotIngestor Q} {saver : SaveJournal J} {j : Journal Q J} {x : J}

variable (saver) in
/-- A commit that does not get there fails and leaves the save journal. -/
theorem commit_not_reaching (h : ¬ j.Reaches ingestor) :
    (∃ e, (j.commit ingestor saver).1 = .error e)
      ∧ (j.commit ingestor saver).2.save_journal = j.save_journal := by
  by_cases hopen : j.phase = .Open
  · rcases hsaved : j.arrow_store.save_table_versions (j.pending_diffs.map Diff.table) with e | saved
    · simp only [commit, hopen, ne_eq, not_true_eq_false, if_false, commit_open, hsaved]
      exact ⟨⟨_, rfl⟩, trivial⟩
    rcases happly : apply_diffs_and_hash
      { j with phase := .Committing, pending_diffs := [], pending_commands := [] } j.pending_diffs
      with ⟨e | state_hash, j₁⟩
    · obtain ⟨s, rfl⟩ := apply_diffs_and_hash_writes happly
      simp only [commit, hopen, ne_eq, not_true_eq_false, if_false, commit_open, hsaved, happly]
      exact ⟨⟨_, rfl⟩, rfl⟩
    -- the diffs are in the store, so it is the engine that refuses
    obtain ⟨mid, snapshot, s, hdiffs, hsnapshot, hhash, -⟩ := apply_diffs_and_hash_ok happly
    have happlies : Applies j saved mid s snapshot state_hash :=
      ⟨hopen, hsaved, hdiffs, hsnapshot, hhash⟩
    rw [happlies.commit]
    rcases hbegin : (j.applied s).begin_ingest ingestor with ⟨e | rollback, k⟩
    · obtain ⟨q, rfl⟩ := begin_ingest_writes hbegin
      simp only [deliver, hbegin]
      exact ⟨⟨_, rfl⟩, rfl⟩
    rcases hpublish : k.publish ingestor j.current_tick with ⟨e | ⟨⟩, k'⟩
    · obtain ⟨q, rfl⟩ := begin_ingest_writes hbegin
      obtain ⟨q', rfl⟩ := publish_writes hpublish
      obtain ⟨q'', hundo⟩ := undo_ingest_writes rollback { j.applied s with query_engine := q' }
      simp only [deliver, hbegin, hpublish, hundo]
      exact ⟨⟨_, rfl⟩, rfl⟩
    · exact absurd ⟨saved, mid, s, snapshot, state_hash, happlies, rollback, k, hbegin,
        congrArg Prod.fst hpublish⟩ h
  · simp only [commit, hopen, ne_eq, not_false_eq_true, if_true]
    exact ⟨⟨_, rfl⟩, trivial⟩

variable (saver) in
/-- One that gets there ends as the save journal does with the record. -/
theorem commit_reaching (h : j.Reaches ingestor) (hx : j.save_journal = some x) :
    ∃ record, (j.commit ingestor saver).2.save_journal = some (saver.append x record).2
      ∧ ((saver.append x record).1 = .ok () → ∃ result,
        (j.commit ingestor saver).1 = .ok result
          ∧ (j.commit ingestor saver).2.history.getLast? = some record)
      ∧ ((saver.append x record).1 ≠ .ok () → ∃ e, (j.commit ingestor saver).1 = .error e) := by
  obtain ⟨saved, mid, s, snapshot, state_hash, happlies, rollback, k, hbegin, hpublish⟩ := h
  obtain ⟨q, rfl⟩ := begin_ingest_writes hbegin
  rcases hpublished : publish ingestor { j.applied s with query_engine := q } j.current_tick
    with ⟨verdict, k'⟩
  obtain ⟨q', rfl⟩ := publish_writes hpublished
  rw [hpublished] at hpublish
  obtain rfl : verdict = .ok () := hpublish
  let record := CommitRecord.with_commands j.current_tick j.pending_diffs j.pending_commands state_hash
  have hsj : (j.applied s).save_journal = some x := hx
  have happend : append saver { j.applied s with query_engine := q' } record
      = ((saver.append x record).1,
        { j.applied s with query_engine := q', save_journal := some (saver.append x record).2 }) := by
    simp only [append, hsj]
  refine ⟨record, ?_⟩
  rw [happlies.commit]
  -- either way the save journal keeps what the append has made of it
  rcases happended : saver.append x record with ⟨e | ⟨⟩, y⟩
  · obtain ⟨q'', hundo⟩ := undo_ingest_writes rollback
      { j.applied s with query_engine := q', save_journal := some y }
    rw [happended] at happend
    simp only [deliver, hbegin, hpublished, record, happend, hundo]
    exact ⟨rfl, nofun, fun _ => ⟨e, rfl⟩⟩
  · rw [happended] at happend
    simp only [deliver, hbegin, hpublished, record, happend]
    exact ⟨rfl, fun _ => ⟨_, rfl, getLast?_evict _ _⟩, fun hno => absurd rfl hno⟩

end Steps

end Journal

/-! ## The append -/

section Append

variable {D : Type} [SaveDisk D]

namespace CheckpointManager

/-- The retention finds nothing in its way: the directory can be read, and each file in
excess that is still there can be removed. -/
def Prunes (m : CheckpointManager) (disk : D) : Prop :=
  ∃ snapshots, m.persistence.list_snapshots disk = .ok snapshots
    ∧ Guarded m.persistence.delete_snapshot (fun disk generation =>
        SaveDisk.path_exists disk (m.persistence.snapshot_path generation) = true →
          (SaveDisk.remove_file disk (m.persistence.snapshot_path generation)).1 = .ok ())
      disk ((snapshots.take (snapshots.length - m.policy.max_snapshots)).map Prod.fst)

theorem delete_snapshot_ok_iff {p : SnapshotPersistence} {disk : D} {generation : Tick} :
    (p.delete_snapshot disk generation).1 = .ok ()
      ↔ (SaveDisk.path_exists disk (p.snapshot_path generation) = true →
        (SaveDisk.remove_file disk (p.snapshot_path generation)).1 = .ok ()) := by
  by_cases hthere : SaveDisk.path_exists disk (p.snapshot_path generation) = true
  · rcases hremove : SaveDisk.remove_file disk (p.snapshot_path generation) with ⟨e | ⟨⟩, disk'⟩
    · simp [SnapshotPersistence.delete_snapshot, hthere, hremove]
    · simp [SnapshotPersistence.delete_snapshot, hthere, hremove]
  · simp [SnapshotPersistence.delete_snapshot, hthere]

/-- Deleting goes through exactly when each deletion does where it is reached. -/
theorem delete_all_ok_iff {p : SnapshotPersistence} {disk : D} {deleted : List Tick} :
    (forEach p.delete_snapshot disk deleted).1 = .ok ()
      ↔ Guarded p.delete_snapshot (fun disk generation =>
        SaveDisk.path_exists disk (p.snapshot_path generation) = true →
          (SaveDisk.remove_file disk (p.snapshot_path generation)).1 = .ok ()) disk deleted := by
  induction deleted generalizing disk with
  | nil => simp [Guarded]
  | cons generation deleted ih =>
      rw [Guarded, ← delete_snapshot_ok_iff]
      rcases hfirst : p.delete_snapshot disk generation with ⟨e | ⟨⟩, disk'⟩
      · simp [forEach_cons_of_error hfirst]
      · rw [forEach_cons_of_ok hfirst, ih]
        simp

theorem enforce_retention_ok_iff {m : CheckpointManager} {disk : D} :
    (m.enforce_retention disk).1 = .ok () ↔ m.Prunes disk := by
  rcases hlist : m.persistence.list_snapshots disk with e | snapshots
  · simp [enforce_retention, SnapshotPersistence.delete_oldest, hlist, Prunes]
  · have hprunes : m.Prunes disk ↔ (forEach m.persistence.delete_snapshot disk
        ((snapshots.take (snapshots.length - m.policy.max_snapshots)).map Prod.fst)).1 = .ok () := by
      simp only [Prunes, hlist, Except.ok.injEq, exists_eq_left', delete_all_ok_iff]
    rw [hprunes]
    by_cases hfew : snapshots.length ≤ m.policy.max_snapshots
    · simp [enforce_retention, SnapshotPersistence.delete_oldest, hlist, hfew]
    · simp [enforce_retention, SnapshotPersistence.delete_oldest, hlist, hfew]

end CheckpointManager

/-- The save journal with its disk. Beside them stands how many records there were when
the counter was reset last. -/
structure Checkpointed (D : Type) where
  journal : CheckpointingSaveJournal
  disk : D
  reset_at : Nat

namespace Checkpointed

/-- The next append will find the threshold reached and reset the counter. -/
def resets (x : Checkpointed D) : Bool :=
  match x.journal.manager with
  | none => false
  | some manager =>
    match (manager.record_journal_entry.try_auto_checkpoint x.disk).1 with
    | .ok reached => reached
    | .error _ => false

/-- `impl SaveJournal for CheckpointingSaveJournal`. -/
def saver : SaveJournal (Checkpointed D) where
  append x record :=
    let (result, journal, disk) := x.journal.append x.disk record
    (result, { journal, disk, reset_at := if x.resets then journal.inner.length else x.reset_at })

/-- The next append stays below the threshold, or its retention goes through. -/
def Spared (x : Checkpointed D) : Prop :=
  ∀ manager, x.journal.manager = some manager →
    manager.record_journal_entry.should_auto_checkpoint = true → manager.Prunes x.disk

omit [SaveDisk D] in
/-- The counter of the manager is the number of records since the last reset. -/
def Counted (x : Checkpointed D) : Prop :=
  ∃ manager, x.journal.manager = some manager
    ∧ manager.journal_entries_since_snapshot + x.reset_at = x.journal.inner.length

variable {x : Checkpointed D} {record : CommitRecord}

/-- What an append can do. The retention runs at the threshold only. -/
theorem append_cases {manager : CheckpointManager} (hmanager : x.journal.manager = some manager)
    (record : CommitRecord) :
    (manager.record_journal_entry.should_auto_checkpoint = false
        ∧ saver.append x record = (.ok (), { x with
          journal := ⟨x.journal.inner ++ [record], some manager.record_journal_entry⟩ }))
      ∨ (manager.record_journal_entry.should_auto_checkpoint = true ∧ manager.Prunes x.disk
        ∧ ∃ disk, saver.append x record = (.ok (),
          { journal := ⟨x.journal.inner ++ [record],
              some manager.record_journal_entry.reset_journal_counter⟩
            disk
            reset_at := (x.journal.inner ++ [record]).length }))
      ∨ (manager.record_journal_entry.should_auto_checkpoint = true ∧ ¬ manager.Prunes x.disk
        ∧ ∃ e disk, saver.append x record = (.error e, { x with
          journal := ⟨x.journal.inner ++ [record], some manager.record_journal_entry⟩
          disk })) := by
  rcases hreached : manager.record_journal_entry.should_auto_checkpoint with _ | _
  · refine .inl ⟨rfl, ?_⟩
    simp [saver, CheckpointingSaveJournal.append, resets, hmanager,
      CheckpointManager.try_auto_checkpoint, hreached]
  · rw [← CheckpointManager.enforce_retention_ok_iff]
    -- counting the record changes nothing that the retention looks at
    have hretention : manager.record_journal_entry.enforce_retention x.disk
        = manager.enforce_retention x.disk := rfl
    rcases hkept : manager.enforce_retention x.disk with ⟨e | ⟨⟩, disk⟩
    · refine .inr (.inr ⟨rfl, (fun hok => by cases hok), .SaveJournal e.to_string, disk, ?_⟩)
      simp [saver, CheckpointingSaveJournal.append, resets, hmanager,
        CheckpointManager.try_auto_checkpoint, hreached, hretention, hkept]
    · refine .inr (.inl ⟨rfl, rfl, disk, ?_⟩)
      simp [saver, CheckpointingSaveJournal.append, resets, hmanager,
        CheckpointManager.try_auto_checkpoint, hreached, hretention, hkept]

/-- The record is there and counted, also when the append fails. -/
theorem Counted.append (h : x.Counted) (record : CommitRecord) :
    (saver.append x record).2.Counted
      ∧ (saver.append x record).2.journal.inner = x.journal.inner ++ [record] := by
  obtain ⟨manager, hmanager, hcount⟩ := h
  have hnext : manager.record_journal_entry.journal_entries_since_snapshot + x.reset_at
      = (x.journal.inner ++ [record]).length := by
    rw [CheckpointManager.record_journal_entry, List.length_append, List.length_singleton, ← hcount,
      Nat.add_right_comm]
  rcases append_cases hmanager record with ⟨-, happend⟩ | ⟨-, -, disk, happend⟩ | ⟨-, -, e, disk, happend⟩
  · rw [happend]
    exact ⟨⟨_, rfl, hnext⟩, rfl⟩
  · rw [happend]
    exact ⟨⟨_, rfl, Nat.zero_add _⟩, rfl⟩
  · rw [happend]
    exact ⟨⟨_, rfl, hnext⟩, rfl⟩

theorem Counted.append_ok_iff (h : x.Counted) :
    (saver.append x record).1 = .ok () ↔ x.Spared := by
  obtain ⟨manager, hmanager, -⟩ := h
  simp only [Spared, hmanager, Option.some.injEq, forall_eq']
  rcases append_cases hmanager record with
    ⟨hbelow, happend⟩ | ⟨hreached, hprunes, disk, happend⟩ | ⟨hreached, hstuck, e, disk, happend⟩
  · simp [happend, hbelow]
  · simp [happend, hprunes]
  · simp [happend, hreached, hstuck]

end Checkpointed

end Append

/-! ## Calls -/

/-- A call of the journal, or the disk after others have been at it. -/
inductive CheckpointOp (Q D : Type) where
  | Call (call : JournalOp Q)
  | Disk (disk : D)

namespace Journal

section Runs

variable [Render] {Q D : Type} [SaveDisk D]

omit [Render] [SaveDisk D] in
/-- A new journal that saves through a checkpoint manager. -/
def checkpointing (arrow_store : ArrowStore) (query_engine : Option Q) (manager : CheckpointManager)
    (disk : D) : Journal Q (Checkpointed D) :=
  let journal := CheckpointingSaveJournal.new.with_manager manager
  let j := (new arrow_store).with_save_journal { journal, disk, reset_at := 0 }
  query_engine.elim j j.with_query_engine

/-- A call, and the record that it put in the history if it committed. -/
def checkpoint_step (ingestor : SnapshotIngestor Q) (j : Journal Q (Checkpointed D)) :
    CheckpointOp Q D → Journal Q (Checkpointed D) × List CommitRecord
  | .Call call =>
    ((j.op ingestor Checkpointed.saver call).2,
      (j.reported ingestor Checkpointed.saver call).map Prod.snd)
  | .Disk disk => ({ j with save_journal := j.save_journal.map fun x => { x with disk } }, [])

/-- A run of calls, whatever their verdicts, and the records of its commits. -/
def checkpoint_run (ingestor : SnapshotIngestor Q) :
    Journal Q (Checkpointed D) → List CommitRecord → List (CheckpointOp Q D) →
      Journal Q (Checkpointed D) × List CommitRecord
  | j, committed, [] => (j, committed)
  | j, committed, o :: os =>
    checkpoint_run ingestor (j.checkpoint_step ingestor o).1
      (committed ++ (j.checkpoint_step ingestor o).2) os

/-- What a commit needs once it gets to its save journal. -/
def Spared (ingestor : SnapshotIngestor Q) (j : Journal Q (Checkpointed D)) :
    CheckpointOp Q D → Prop
  | .Call .Commit => j.Reaches ingestor → ∀ x, j.save_journal = some x → x.Spared
  | _ => True

def EachSpared (ingestor : SnapshotIngestor Q) :
    Journal Q (Checkpointed D) → List (CheckpointOp Q D) → Prop
  | _, [] => True
  | j, o :: os => j.Spared ingestor o ∧ EachSpared ingestor (j.checkpoint_step ingestor o).1 os

omit [Render] [SaveDisk D] in
/-- The save journal has one record for each commit, at one tick after the other, and
the counter of its manager goes with them. -/
structure OneRecordEach (j : Journal Q (Checkpointed D)) (committed : List CommitRecord) : Prop where
  records : j.save_journal.map (·.journal.inner) = some committed
  ticks : ∀ (i : Nat) (record : CommitRecord), committed[i]? = some record → i ≤ Tick.MAX →
    record.tick = i
  counter : ∃ x, j.save_journal = some x ∧ x.Counted

variable {ingestor : SnapshotIngestor Q} {j : Journal Q (Checkpointed D)} {x : Checkpointed D}
  {committed : List CommitRecord}

/-! ## One call -/

/-- What a commit does to the save journal. -/
theorem commit_records (hx : j.save_journal = some x) (hcounted : x.Counted) :
    ∃ x', (j.checkpoint_step ingestor (.Call .Commit)).1.save_journal = some x' ∧ x'.Counted
      ∧ ((j.Spared ingestor (.Call .Commit)
          ∧ x'.journal.inner
            = x.journal.inner ++ (j.checkpoint_step ingestor (.Call .Commit)).2)
        ∨ (¬ j.Spared ingestor (.Call .Commit)
          ∧ (j.checkpoint_step ingestor (.Call .Commit)).2 = []
          ∧ ∃ record, x'.journal.inner = x.journal.inner ++ [record])) := by
  by_cases hreaches : j.Reaches ingestor
  · obtain ⟨record, hsj, hok, herror⟩ :=
      commit_reaching Checkpointed.saver hreaches hx
    obtain ⟨hcounted', hinner⟩ := hcounted.append record
    have hspared : j.Spared ingestor (.Call .Commit) ↔ x.Spared :=
      ⟨fun h => h hreaches x hx, fun h _ y hy => by
        rw [hx] at hy
        rwa [← Option.some.inj hy]⟩
    refine ⟨_, hsj, hcounted', ?_⟩
    by_cases happend : (Checkpointed.saver.append x record).1 = .ok ()
    · obtain ⟨result, hresult, hlast⟩ := hok happend
      refine .inl ⟨hspared.2 (hcounted.append_ok_iff.1 happend), ?_⟩
      rw [hinner, checkpoint_step, reported_of_ok hresult, hlast, Option.toList_some,
        List.map_singleton, List.map_singleton]
    · obtain ⟨e, he⟩ := herror happend
      refine .inr ⟨fun h => happend (hcounted.append_ok_iff.2 (hspared.1 h)), ?_, record, hinner⟩
      rw [checkpoint_step, reported_of_error he, List.map_nil]
  · obtain ⟨⟨e, he⟩, hsj⟩ := commit_not_reaching Checkpointed.saver hreaches
    refine ⟨x, hsj.trans hx, hcounted, .inl ⟨fun h => absurd h hreaches, ?_⟩⟩
    rw [checkpoint_step, reported_of_error he, List.map_nil, List.append_nil]

variable (ingestor) in
/-- What a call does to it. Without the condition there is a record more, and no commit. -/
theorem step_records (hx : j.save_journal = some x) (hcounted : x.Counted) (o : CheckpointOp Q D) :
    ∃ x', (j.checkpoint_step ingestor o).1.save_journal = some x' ∧ x'.Counted
      ∧ ((j.Spared ingestor o
          ∧ x'.journal.inner = x.journal.inner ++ (j.checkpoint_step ingestor o).2)
        ∨ (¬ j.Spared ingestor o ∧ (j.checkpoint_step ingestor o).2 = []
          ∧ ∃ record, x'.journal.inner = x.journal.inner ++ [record])) := by
  cases o with
  | Disk disk =>
      refine ⟨{ x with disk }, by simp [checkpoint_step, hx], hcounted, .inl ⟨trivial, ?_⟩⟩
      exact (List.append_nil _).symm
  | Call call =>
      by_cases hsubmits : call.Submits
      · obtain ⟨commands, diffs, hwrites⟩ := op_submits ingestor Checkpointed.saver j hsubmits
        have hspared : j.Spared ingestor (.Call call) := by
          cases call <;> trivial
        refine ⟨x, ?_, hcounted, .inl ⟨hspared, ?_⟩⟩
        · rw [checkpoint_step, hwrites]
          exact hx
        · rw [checkpoint_step, reported_of_submits hsubmits, List.map_nil, List.append_nil]
      cases call with
      | Commit => exact commit_records hx hcounted
      | Elsewhere arrow_store query_engine =>
          exact ⟨x, hx, hcounted, .inl ⟨trivial, (List.append_nil _).symm⟩⟩
      | _ => exact absurd trivial hsubmits

variable (ingestor) in
/-- What a call does to the tick. -/
theorem step_ticks (j : Journal Q (Checkpointed D)) (o : CheckpointOp Q D) :
    ((j.checkpoint_step ingestor o).2 = []
        ∧ (j.checkpoint_step ingestor o).1.current_tick = j.current_tick)
      ∨ ∃ record, (j.checkpoint_step ingestor o).2 = [record] ∧ record.tick = j.current_tick
        ∧ (j.checkpoint_step ingestor o).1.current_tick = j.current_tick.next := by
  cases o with
  | Disk disk => exact .inl ⟨rfl, rfl⟩
  | Call call =>
      rcases op_reports ingestor Checkpointed.saver j call with
        ⟨hnone, htick⟩ | ⟨c, hone, hreports, htick⟩
      · refine .inl ⟨?_, htick⟩
        rw [checkpoint_step, hnone, List.map_nil]
      · refine .inr ⟨c.2, ?_, hreports.record_tick, htick⟩
        rw [checkpoint_step, hone, List.map_singleton]

/-! ## A run of calls -/

omit [Render] [SaveDisk D] in
/-- The commits so far are at one tick after the other, and the journal is at the next. -/
structure Clocked (j : Journal Q (Checkpointed D)) (committed : List CommitRecord) : Prop where
  current_tick : j.current_tick = min committed.length Tick.MAX
  ticks : ∀ (i : Nat) (record : CommitRecord), committed[i]? = some record →
    record.tick = min i Tick.MAX

theorem Clocked.step (h : Clocked j committed) (o : CheckpointOp Q D) :
    Clocked (j.checkpoint_step ingestor o).1 (committed ++ (j.checkpoint_step ingestor o).2) := by
  rcases step_ticks ingestor j o with ⟨hnone, htick⟩ | ⟨record, hone, hrecord, htick⟩
  · rw [hnone, List.append_nil]
    exact ⟨htick.trans h.current_tick, h.ticks⟩
  · rw [hone]
    refine ⟨?_, ticks_concat h.ticks (hrecord.trans h.current_tick)⟩
    rw [htick, h.current_tick, Tick.next_min, List.length_append, List.length_singleton]

variable (ingestor) in
/-- A record too many stays too many. -/
theorem run_excess (ops : List (CheckpointOp Q D)) (hx : j.save_journal = some x)
    (hcounted : x.Counted) (hexcess : committed.length < x.journal.inner.length) :
    ∃ x', (j.checkpoint_run ingestor committed ops).1.save_journal = some x'
      ∧ (j.checkpoint_run ingestor committed ops).2.length < x'.journal.inner.length := by
  induction ops generalizing j x committed with
  | nil => exact ⟨x, hx, hexcess⟩
  | cons o os ih =>
      obtain ⟨x', hx', hcounted', hstep⟩ := step_records ingestor hx hcounted o
      refine ih hx' hcounted' ?_
      rcases hstep with ⟨-, hinner⟩ | ⟨-, hnone, record, hinner⟩
      · rw [hinner, List.length_append, List.length_append]
        exact Nat.add_lt_add_right hexcess _
      · rw [hinner, hnone, List.append_nil, List.length_append, List.length_singleton]
        exact Nat.lt_succ_of_lt hexcess

/-- As long as the records are those of the commits, they stay so under the condition,
and no longer than it holds. -/
theorem run_records_iff {ops : List (CheckpointOp Q D)} (hx : j.save_journal = some x)
    (hcounted : x.Counted) (hclocked : Clocked j committed) (hinner : x.journal.inner = committed) :
    OneRecordEach (j.checkpoint_run ingestor committed ops).1
        (j.checkpoint_run ingestor committed ops).2
      ↔ j.EachSpared ingestor ops := by
  induction ops generalizing j x committed with
  | nil =>
      refine ⟨fun _ => trivial, fun _ => ⟨?_, fun i record hi hle => ?_, x, hx, hcounted⟩⟩
      · rw [checkpoint_run, hx, Option.map_some, hinner]
      · rw [hclocked.ticks i record hi, Nat.min_eq_left hle]
  | cons o os ih =>
      obtain ⟨x', hx', hcounted', hstep⟩ := step_records ingestor hx hcounted o
      rcases hstep with ⟨hspared, hnext⟩ | ⟨hspared, hnone, record, hnext⟩
      · -- the rest of the run starts as this one did
        rw [hinner] at hnext
        rw [checkpoint_run, ih hx' hcounted' (hclocked.step o) hnext]
        exact (and_iff_right hspared).symm
      · -- a record without a commit, which no later call takes back
        have hexcess : (committed ++ (j.checkpoint_step ingestor o).2).length
            < x'.journal.inner.length := by
          rw [hnone, hnext, hinner, List.append_nil, List.length_append, List.length_singleton]
          exact Nat.lt_succ_self _
        obtain ⟨y, hy, hmore⟩ := run_excess ingestor os hx' hcounted' hexcess
        constructor
        · intro hone
          have hrecords := hone.records
          rw [checkpoint_run, hy, Option.map_some, Option.some.injEq] at hrecords
          rw [hrecords] at hmore
          exact absurd hmore (Nat.lt_irrefl _)
        · intro heach
          exact absurd heach.1 hspared

/-- In a run of a new journal there is one record for each commit exactly if every commit
that gets to the save journal finds its manager below the threshold, or the retention
going through. -/
theorem one_record_each_iff {arrow_store : ArrowStore} {query_engine : Option Q}
    {manager : CheckpointManager} {disk : D} {ops : List (CheckpointOp Q D)}
    (hcount : manager.journal_entries_since_snapshot = 0) :
    let j := checkpointing arrow_store query_engine manager disk
    OneRecordEach (j.checkpoint_run ingestor [] ops).1 (j.checkpoint_run ingestor [] ops).2
      ↔ j.EachSpared ingestor ops := by
  intro j
  have hx : j.save_journal
      = some { journal := CheckpointingSaveJournal.new.with_manager manager, disk, reset_at := 0 } := by
    cases query_engine <;> rfl
  have hclocked : Clocked j [] := by
    refine ⟨?_, by simp⟩
    cases query_engine <;> exact (Nat.zero_min _).symm
  exact run_records_iff hx ⟨manager, rfl, hcount⟩ hclocked rfl

end Runs

/-! ## A directory that is not there -/

section Items

attribute [local instance] plain_text QueryEngine.no_merge

/-- A manager whose threshold is one record. -/
def eager_manager : CheckpointManager :=
  .new "saves" { RetentionPolicy.default_policy with auto_checkpoint_threshold := 1 } "journal"

def items_saved (disk : Files) : Journal QueryEngine (Checkpointed Files) :=
  checkpointing one_item none eager_manager disk

def items_saved_run (disk : Files) (ops : List (CheckpointOp QueryEngine Files)) :
    Journal QueryEngine (Checkpointed Files) × List CommitRecord :=
  (items_saved disk).checkpoint_run QueryEngine.ingestor [] ops

def made_saves : Files := { Files.new with dirs := (∅ : Map String Unit).insert "saves" () }

def update_and_commit : List (CheckpointOp QueryEngine Files) :=
  [.Call (.SubmitDiff (set_qty "items")), .Call .Commit]

theorem made_saves_one_record :
    (items_saved_run made_saves update_and_commit).2.length = 1
      ∧ OneRecordEach (items_saved_run made_saves update_and_commit).1
        (items_saved_run made_saves update_and_commit).2 := by
  refine ⟨by decide +kernel, (one_record_each_iff rfl).2 ⟨trivial, fun _ x hx => ?_, trivial⟩⟩
  intro manager hmanager _
  obtain rfl : _ = x := Option.some.inj hx
  obtain rfl : _ = manager := Option.some.inj hmanager
  exact CheckpointManager.enforce_retention_ok_iff.1 (by decide +kernel)

/-- Without the directory the commit fails, and made again once the directory is there
it goes through. There are two records of its tick. -/
theorem missing_saves_two_records :
    let failed := items_saved_run Files.new update_and_commit
    let retried := items_saved_run Files.new
      (update_and_commit ++ [.Disk made_saves, .Call .Commit])
    failed.2 = [] ∧ failed.1.pending_diffs.length = 1
      ∧ retried.2.map (·.tick) = [0] ∧ retried.1.pending_diffs.length = 0
      ∧ retried.1.save_journal.map (fun x => x.journal.inner.map (·.tick)) = some [0, 0]
      ∧ ¬ OneRecordEach retried.1 retried.2 := by
  intro failed retried
  have hrecords : retried.1.save_journal.map (fun x => x.journal.inner.length) = some 2 := by
    decide +kernel
  have hcommits : retried.2.length = 1 := by decide +kernel
  refine ⟨by decide +kernel, by decide +kernel, by decide +kernel, by decide +kernel,
    by decide +kernel, fun h => ?_⟩
  have hsame := congrArg (Option.map List.length) h.records
  rw [Option.map_map, Option.map_some, hcommits] at hsame
  exact absurd (hrecords.symm.trans hsame) (by decide)

end Items

end Journal

end Scharnhorst
