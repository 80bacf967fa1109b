/-
Which snapshots a run of commits stores.

A commit stores its snapshot in the middle: after the diffs, and before the hash, the
engine and the save journal. A failure before that point leaves the stored snapshots as
they are, and every failure puts the batches back. A failure after it leaves the
snapshot of a commit that did not happen. So the stored snapshots are those of the
successful commits in every run in which no commit fails after that point, and
`delivers` is that condition, asked of the journal before the commit.
-/
import Scharnhorst.Checkpoint
import Scharnhorst.Atomic
import Scharnhorst.Submissions
import Scharnhorst.Retry

set_option autoImplicit false

namespace Scharnhorst

open Attempt Maps

/-! ## What is put back -/

namespace ArrowStore

/-- Every table has the batches it had. -/
def SameVersions (s u : ArrowStore) : Prop :=
  ∀ n : String, (u.tables[n]?).map (·.data.versions) = (s.tables[n]?).map (·.data.versions)

/-- Only tables with these names have other batches, no lock has changed its health, and
the snapshots are the same. -/
structure Touches (names : List String) (s u : ArrowStore) : Prop where
  snapshots : u.snapshots = s.snapshots
  poisoned : ∀ n : String, (u.tables[n]?).map (·.poisoned) = (s.tables[n]?).map (·.poisoned)
  versions : ∀ n : String, n ∉ names →
    (u.tables[n]?).map (·.data.versions) = (s.tables[n]?).map (·.data.versions)

namespace Touches

variable {names : List String} {s u v : ArrowStore}

theorem refl (names : List String) (s : ArrowStore) : Touches names s s :=
  ⟨rfl, fun _ => rfl, fun _ _ => rfl⟩

theorem trans (h : Touches names s u) (h' : Touches names u v) : Touches names s v :=
  ⟨h'.snapshots.trans h.snapshots, fun n => (h'.poisoned n).trans (h.poisoned n),
    fun n hn => (h'.versions n hn).trans (h.versions n hn)⟩

theorem healthy (h : Touches names s u) {ns : List String} (hs : s.Healthy ns) : u.Healthy ns := by
  intro n hn lock hlock
  have hp := h.poisoned n
  rw [hlock, Option.map_some, eq_comm, Option.map_eq_some_iff] at hp
  obtain ⟨lock', hlock', hp⟩ := hp
  rw [← hp]
  exact hs n hn lock' hlock'

end Touches

/-- One diff, whatever its outcome. -/
theorem apply_diff_touches [Render] (tick : Tick) (s : ArrowStore) (d : Diff) :
    Touches [d.table] s (apply_diff tick s d).2 := by
  refine ⟨(apply_diff_same tick s d).snapshots, fun n => ?_, fun n hn => ?_⟩
  · rw [apply_diff_eq]
    split
    · rfl
    · rw [write_table_tables _ _ (apply_to_table_returns _ _ _)]
      split
      · rcases s.tables[n]? with _ | lock
        · rfl
        · cases hp : lock.poisoned <;> simp [hp]
      · rfl
  · rw [apply_diff_other s fun heq => hn (by simp [heq])]

theorem forEach_apply_diff_touches [Render] (tick : Tick) (s : ArrowStore) (ds : List Diff) :
    Touches (ds.map Diff.table) s (forEach (apply_diff tick) s ds).2 := by
  refine forEach_invariant ds (P := Touches (ds.map Diff.table) s) ?_ (.refl _ s)
  intro u d hd hu
  have hstep := apply_diff_touches tick u d
  refine hu.trans ⟨hstep.snapshots, hstep.poisoned, fun n hn => hstep.versions n fun hin => ?_⟩
  rw [List.mem_singleton] at hin
  exact hn (hin ▸ List.mem_map_of_mem hd)

/-- The saved batches go back to the tables they were saved from. -/
theorem restored_touches {names : List String} {s u : ArrowStore} {saved : Map String Versions}
    (hget : ∀ n : String, saved[n]? =
      if n ∈ names then s.tables[n]?.map (·.data.versions) else none)
    (h : Touches names s u) :
    Touches names s (saved.toList.foldl (fun s entry => (restore_one s entry).2) u) := by
  refine ⟨(restored_same u saved.toList).snapshots.trans h.snapshots, fun n => ?_, fun n hn => ?_⟩
  · rw [restored_tables, ← h.poisoned n]
    rcases saved[n]? with _ | v
    · rfl
    · rcases u.tables[n]? with _ | lock
      · rfl
      · cases hp : lock.poisoned <;> simp [put_back, hp]
  · rw [restored_tables, hget, if_neg hn]
    exact h.versions n hn

theorem restore_table_versions_same {names : List String} {s u : ArrowStore}
    {saved : Map String Versions} (hsaved : s.save_table_versions names = .ok saved)
    (h : Touches names s u) :
    SameVersions s (u.restore_table_versions saved).2
      ∧ (u.restore_table_versions saved).2.snapshots = u.snapshots := by
  have hhealthy := save_ok_iff.1 ⟨saved, hsaved⟩
  obtain ⟨saved', hsaved', hget⟩ := save_healthy hhealthy
  obtain rfl : saved' = saved := by simpa [hsaved] using hsaved'.symm
  have hkeys : u.Healthy (saved'.toList.map Prod.fst) := by
    refine h.healthy fun n hn => ?_
    obtain ⟨⟨m, v⟩, hmem, rfl⟩ := List.mem_map.1 hn
    have hv := Std.ExtTreeMap.mem_toList_iff_getElem?_eq_some.1 hmem
    rw [hget] at hv
    split at hv
    · rename_i hin
      exact hhealthy m hin
    · cases hv
  rw [restore_table_versions, restore_healthy hkeys]
  refine ⟨fun n => ?_, (restored_same u saved'.toList).snapshots⟩
  rw [restored_tables, hget]
  by_cases hn : n ∈ names
  · rw [if_pos hn]
    have hp := h.poisoned n
    rcases hs : s.tables[n]? with _ | lock
    · rw [hs, Option.map_none, Option.map_eq_none_iff] at hp
      simp [hp]
    · rw [hs, Option.map_some, Option.map_eq_some_iff] at hp
      obtain ⟨lock', hlock', hp⟩ := hp
      rw [hhealthy n hn lock hs] at hp
      simp [hlock', put_back, hp]
  · rw [if_neg hn]
    exact h.versions n hn

/-- A failed list of diffs leaves the batches of no table changed for good. -/
theorem apply_diffs_error_touches [Render] {s s' : ArrowStore} {tick : Tick} {ds : List Diff}
    {e : ArrowStoreError} (h : s.apply_diffs tick ds = (.error e, s')) :
    Touches (ds.map Diff.table) s s' := by
  rcases apply_diffs_error h with ⟨rfl, -⟩ | ⟨saved, mid, -, hhealthy, hsaved, hloop, rfl⟩
  · exact .refl _ s'
  · obtain ⟨saved', hsaved', hget⟩ := save_healthy (healthy_dedup.2 hhealthy)
    obtain rfl : saved' = saved := by simpa [hsaved] using hsaved'.symm
    have hmid := forEach_apply_diff_touches tick s ds
    rw [hloop] at hmid
    exact restored_touches (fun n => by simpa only [List.mem_dedup] using hget n) hmid

theorem apply_diffs_ok_touches [Render] {s s' : ArrowStore} {tick : Tick} {ds : List Diff}
    (h : s.apply_diffs tick ds = (.ok (), s')) : Touches (ds.map Diff.table) s s' := by
  have hmid := forEach_apply_diff_touches tick s ds
  rwa [(apply_diffs_ok.1 h).2.2] at hmid

/-- A snapshot that fails stores nothing. -/
theorem generate_snapshot_error {s s' : ArrowStore} {tick : Tick} {e : ArrowStoreError}
    (h : s.generate_snapshot tick = (.error e, s')) :
    s'.tables = s.tables ∧ s'.snapshots = s.snapshots := by
  unfold generate_snapshot do_generate_snapshot at h
  simp only at h
  split at h
  · obtain ⟨-, rfl⟩ := Prod.mk.inj h
    exact ⟨rfl, rfl⟩
  · split at h
    · obtain ⟨-, rfl⟩ := Prod.mk.inj h
      exact ⟨rfl, rfl⟩
    · cases h

end ArrowStore

/-! ## The part after the snapshot -/

namespace Journal

section Commits

variable [Render] {Q J : Type}

omit [Render] in
/-- The engine and the save journal take what a commit with this record hands them. -/
def takes (ingestor : SnapshotIngestor Q) (saver : SaveJournal J) (j : Journal Q J)
    (record : CommitRecord) : Bool :=
  match j.begin_ingest ingestor with
  | (.error _, _) => false
  | (.ok _, j) =>
    match j.publish ingestor record.tick with
    | (.error _, _) => false
    | (.ok (), j) =>
      match j.append saver record with
      | (.error _, _) => false
      | (.ok (), _) => true

/-- If the pending diffs go through and the snapshot of the tick can be made, then nothing
after it fails: every diff serialises, and the engine and the save journal take the
commit. -/
def delivers (ingestor : SnapshotIngestor Q) (saver : SaveJournal J) (j : Journal Q J) : Bool :=
  match j.arrow_store.apply_diffs j.current_tick j.pending_diffs with
  | (.error _, _) => true
  | (.ok (), mid) =>
    match mid.generate_snapshot j.current_tick with
    | (.error _, _) => true
    | (.ok _, s) =>
      match hash_diffs j.pending_diffs with
      | .error _ => false
      | .ok state_hash =>
        (j.applied s).takes ingestor saver
          (.with_commands j.current_tick j.pending_diffs j.pending_commands state_hash)

variable {ingestor : SnapshotIngestor Q} {saver : SaveJournal J} {j j' : Journal Q J}

omit [Render] in
theorem deliver_of_takes {tick : Tick} {saved : Map String Versions} {diffs : List Diff}
    {commands : List CommandEnvelope} {state_hash : UInt64}
    (h : j.takes ingestor saver (.with_commands tick diffs commands state_hash) = true) :
    ∃ result, (j.deliver ingestor saver tick saved diffs commands state_hash).1 = .ok result := by
  unfold takes at h
  unfold deliver
  rcases hbegin : j.begin_ingest ingestor with ⟨e | rollback, j₁⟩
  · simp [hbegin] at h
  rcases hpublish : j₁.publish ingestor tick with ⟨e | ⟨⟩, j₂⟩
  · simp [hbegin, CommitRecord.with_commands, hpublish] at h
  rcases happend : j₂.append saver (.with_commands tick diffs commands state_hash) with
    ⟨e | ⟨⟩, j₃⟩
  · simp [hbegin, CommitRecord.with_commands, hpublish] at h happend
    simp [happend] at h
  · simp only [hpublish, happend]
    exact ⟨_, rfl⟩

/-! ## What a commit does to the store -/

/-- The snapshot is that of a commit: under its tick, with every table as the commit left
it in the store. -/
def SnapshotOf (c : Tick × ArrowStore) (snapshot : WorldSnapshot) : Prop :=
  snapshot.tick = c.1 ∧ ∀ n : String, snapshot.tables[n]? = c.2.tables[n]?.map (·.data)

/-- A commit that goes through stores its snapshot. -/
theorem commit_stores {result : CommitResult}
    (h : j.commit ingestor saver = (.ok result, j')) :
    j'.current_tick = j.current_tick.next ∧ ∃ snapshot,
      j'.arrow_store.snapshots = j.arrow_store.snapshots.insert j.current_tick snapshot
        ∧ SnapshotOf (j.current_tick, j'.arrow_store) snapshot := by
  obtain ⟨saved, mid, s, snapshot, state_hash, happlies⟩ := commit_ok h
  rw [happlies.commit] at h
  obtain ⟨-, q, sj, rfl⟩ := deliver_ok h
  obtain ⟨-, hdo⟩ := ArrowStore.generate_snapshot_ok.1 happlies.snapshot
  obtain ⟨htick, htables, rfl⟩ := ArrowStore.do_generate_snapshot_ok hdo
  refine ⟨rfl, snapshot, ?_, htick, htables⟩
  exact congrArg (·.insert j.current_tick snapshot)
    (ArrowStore.apply_diffs_ok_touches happlies.diffs).snapshots

/-- A commit that fails, and not after its snapshot, leaves the snapshots and the batches
of the store. -/
theorem commit_keeps {e : JournalError} (hdelivers : j.phase = .Open → j.delivers ingestor saver)
    (h : j.commit ingestor saver = (.error e, j')) :
    j'.current_tick = j.current_tick ∧ j'.arrow_store.snapshots = j.arrow_store.snapshots
      ∧ j.arrow_store.SameVersions j'.arrow_store := by
  by_cases hopen : j.phase = .Open
  swap
  · simp only [commit, hopen, ne_eq, not_false_eq_true, if_true] at h
    obtain ⟨-, rfl⟩ := Prod.mk.inj h
    exact ⟨rfl, rfl, fun _ => rfl⟩
  have hdelivers := hdelivers hopen
  simp only [commit, hopen, ne_eq, not_true_eq_false, if_false, commit_open] at h
  rcases hsaved : j.arrow_store.save_table_versions (j.pending_diffs.map Diff.table) with e' | saved
  · simp only [hsaved] at h
    obtain ⟨-, rfl⟩ := Prod.mk.inj h
    exact ⟨rfl, rfl, fun _ => rfl⟩
  simp only [hsaved] at h
  -- what is put back, from whatever store the failed step left
  have hput : ∀ (j₁ : Journal Q J) (u : ArrowStore), j₁.current_tick = j.current_tick →
      ArrowStore.Touches (j.pending_diffs.map Diff.table) j.arrow_store u → j₁.arrow_store = u →
      (j₁.put_back saved j.pending_diffs j.pending_commands).current_tick = j.current_tick
        ∧ (j₁.put_back saved j.pending_diffs j.pending_commands).arrow_store.snapshots
          = j.arrow_store.snapshots
        ∧ j.arrow_store.SameVersions
          (j₁.put_back saved j.pending_diffs j.pending_commands).arrow_store := by
    rintro j₁ u htick htouches rfl
    obtain ⟨hversions, hsnapshots⟩ := ArrowStore.restore_table_versions_same hsaved htouches
    exact ⟨htick, hsnapshots.trans htouches.snapshots, hversions⟩
  unfold apply_diffs_and_hash delivers at *
  simp only at h hdelivers
  rcases hdiffs : j.arrow_store.apply_diffs j.current_tick j.pending_diffs with ⟨e' | ⟨⟩, mid⟩
  · simp only [hdiffs] at h
    obtain ⟨-, rfl⟩ := Prod.mk.inj h
    exact hput _ mid rfl (ArrowStore.apply_diffs_error_touches hdiffs) rfl
  simp only [hdiffs] at h hdelivers
  have htouches := ArrowStore.apply_diffs_ok_touches hdiffs
  rcases hsnapshot : mid.generate_snapshot j.current_tick with ⟨e' | snapshot, s⟩
  · simp only [hsnapshot] at h
    obtain ⟨-, rfl⟩ := Prod.mk.inj h
    obtain ⟨htables, hsnapshots⟩ := ArrowStore.generate_snapshot_error hsnapshot
    refine hput _ s rfl ⟨hsnapshots.trans htouches.snapshots, fun n => ?_, fun n hn => ?_⟩ rfl
    · rw [htables]
      exact htouches.poisoned n
    · rw [htables]
      exact htouches.versions n hn
  -- past the snapshot the commit does not fail
  simp only [hsnapshot] at h hdelivers
  rcases hhash : hash_diffs j.pending_diffs with e' | state_hash
  · simp [hhash] at hdelivers
  simp only [hhash] at h hdelivers
  obtain ⟨result, hresult⟩ :
      ∃ result, ((j.applied s).deliver ingestor saver j.current_tick saved j.pending_diffs
        j.pending_commands state_hash).1 = .ok result :=
    deliver_of_takes hdelivers
  rw [applied, h] at hresult
  cases hresult

/-! ## Runs -/

/-- The journal after a run of calls. -/
def after (ingestor : SnapshotIngestor Q) (saver : SaveJournal J) (j : Journal Q J)
    (ops : List (JournalOp Q)) : Journal Q J :=
  ops.foldl (fun j o => (j.op ingestor saver o).2) j

/-- What one call adds to the successful commits: its tick, and the store it left. -/
def committed_by (ingestor : SnapshotIngestor Q) (saver : SaveJournal J) (j : Journal Q J)
    (o : JournalOp Q) : List (Tick × ArrowStore) :=
  match o, j.op ingestor saver o with
  | .Commit, (.ok (), j') => [(j.current_tick, j'.arrow_store)]
  | _, _ => []

/-- The successful commits of a run. -/
def committed (ingestor : SnapshotIngestor Q) (saver : SaveJournal J) :
    Journal Q J → List (JournalOp Q) → List (Tick × ArrowStore)
  | _, [] => []
  | j, o :: os =>
    committed_by ingestor saver j o ++ committed ingestor saver (j.op ingestor saver o).2 os

/-- The call is one of the journal's own, and if it is a commit, it does not fail after its
snapshot. -/
def CallDelivers (ingestor : SnapshotIngestor Q) (saver : SaveJournal J) (j : Journal Q J) :
    JournalOp Q → Prop
  | .Elsewhere _ _ => False
  | .Commit => j.phase = .Open → j.delivers ingestor saver = true
  | _ => True

instance CallDelivers.decidable (ingestor : SnapshotIngestor Q) (saver : SaveJournal J)
    (j : Journal Q J) : ∀ o : JournalOp Q, Decidable (CallDelivers ingestor saver j o)
  | .Elsewhere _ _ => .isFalse id
  | .Commit => inferInstanceAs (Decidable (_ → _))
  | .SubmitDiff _ | .SubmitBatch _ | .SubmitCommand _ | .SubmitCommands _ | .ClearPending =>
    .isTrue trivial

def CommitsDeliver (ingestor : SnapshotIngestor Q) (saver : SaveJournal J) :
    Journal Q J → List (JournalOp Q) → Prop
  | _, [] => True
  | j, o :: os =>
    CallDelivers ingestor saver j o ∧ CommitsDeliver ingestor saver (j.op ingestor saver o).2 os

instance CommitsDeliver.decidable (ingestor : SnapshotIngestor Q) (saver : SaveJournal J) :
    ∀ (j : Journal Q J) (os : List (JournalOp Q)), Decidable (CommitsDeliver ingestor saver j os)
  | _, [] => .isTrue trivial
  | j, o :: os =>
    have : Decidable (CommitsDeliver ingestor saver (j.op ingestor saver o).2 os) :=
      CommitsDeliver.decidable ingestor saver _ os
    inferInstanceAs (Decidable (_ ∧ _))

/-- The last commit of a tick. Only the last tick there is can have several. -/
def commit_at (log : List (Tick × ArrowStore)) (t : Tick) : Option (Tick × ArrowStore) :=
  (log.filter fun c => c.1 = t).getLast?

/-- The store keeps the snapshots of these commits and no others, and has the batches the
last of them left. -/
structure Stores (start : ArrowStore) (log : List (Tick × ArrowStore)) (s : ArrowStore) :
    Prop where
  get_snapshot : ∀ t, Option.Rel SnapshotOf (commit_at log t) (s.get_snapshot t).toOption
  latest_snapshot : ∃ latest, s.latest_snapshot = .ok latest
    ∧ Option.Rel SnapshotOf log.getLast? latest
  checkpoint_snapshot : ∀ t,
    Option.Rel SnapshotOf ((commit_at log t).or log.getLast?) (s.checkpoint_snapshot t)
  versions : ArrowStore.SameVersions (log.getLast?.elim start Prod.snd) s

/-- The invariant: the commits so far have the ticks up to now, and the snapshots are
theirs. -/
structure Tracks (start : ArrowStore) (log : List (Tick × ArrowStore)) (j : Journal Q J) :
    Prop where
  current : j.current_tick ≤ Tick.MAX
  ticks : ∀ c ∈ log, c.1 ≤ j.current_tick
  last : ∀ l ∈ log.getLast?, ∀ c ∈ log, c.1 ≤ l.1
  stored : ∀ t : Tick, Option.Rel SnapshotOf (commit_at log t) j.arrow_store.snapshots[t]?
  versions : ArrowStore.SameVersions (log.getLast?.elim start Prod.snd) j.arrow_store

variable {start : ArrowStore} {log : List (Tick × ArrowStore)}

omit [Render] in
theorem commit_at_concat (log : List (Tick × ArrowStore)) (c : Tick × ArrowStore) (t : Tick) :
    commit_at (log ++ [c]) t = if c.1 = t then some c else commit_at log t := by
  unfold commit_at
  rw [List.filter_append]
  by_cases h : c.1 = t <;> simp [h]

omit [Render] in
theorem commit_at_eq_none {log : List (Tick × ArrowStore)} {t : Tick} :
    commit_at log t = none ↔ ∀ c ∈ log, c.1 ≠ t := by
  simp [commit_at]

omit [Render] in
theorem Tracks.congr (h : Tracks start log j) (htick : j'.current_tick = j.current_tick)
    (hsnapshots : j'.arrow_store.snapshots = j.arrow_store.snapshots)
    (hversions : j.arrow_store.SameVersions j'.arrow_store) : Tracks start log j' := by
  refine ⟨htick ▸ h.current, htick ▸ h.ticks, h.last, fun t => ?_, fun n => ?_⟩
  · rw [hsnapshots]
    exact h.stored t
  · exact (hversions n).trans (h.versions n)

/-- A commit that goes through is the last. -/
theorem Tracks.commit_ok {result : CommitResult} (h : Tracks start log j)
    (hok : j.commit ingestor saver = (.ok result, j')) :
    Tracks start (log ++ [(j.current_tick, j'.arrow_store)]) j' := by
  obtain ⟨htick, snapshot, hsnapshots, hof⟩ := commit_stores hok
  have hle := Tick.le_next h.current
  have hmax := Tick.next_le_max j.current_tick
  refine ⟨htick ▸ hmax, ?_, ?_, fun t => ?_, fun n => ?_⟩
  · intro c hc
    rw [htick]
    rcases List.mem_append.1 hc with hc | hc
    · exact Nat.le_trans (h.ticks c hc) hle
    · obtain rfl := List.mem_singleton.1 hc
      exact hle
  · intro l hl c hc
    rw [List.getLast?_concat] at hl
    obtain rfl := Option.some.inj hl
    rcases List.mem_append.1 hc with hc | hc
    · exact h.ticks c hc
    · obtain rfl := List.mem_singleton.1 hc
      exact Nat.le_refl _
  · rw [commit_at_concat, hsnapshots, Std.ExtTreeMap.getElem?_insert]
    by_cases ht : j.current_tick = t
    · subst ht
      simpa using Option.Rel.some hof
    · simpa [ht] using h.stored t
  · rw [List.getLast?_concat]
    rfl

/-- Every call keeps the invariant. -/
theorem Tracks.op (h : Tracks start log j) (o : JournalOp Q)
    (hdelivers : CallDelivers ingestor saver j o) :
    Tracks start (log ++ committed_by ingestor saver j o) (j.op ingestor saver o).2 := by
  by_cases hsubmits : o.Submits
  · -- only a commit adds to the log, and only a commit writes to the store
    have hnone : committed_by ingestor saver j o = [] := by
      cases o <;> first | rfl | exact hsubmits.elim
    obtain ⟨commands, diffs, hwrites⟩ := op_submits ingestor saver j hsubmits
    rw [hnone, List.append_nil, hwrites]
    exact h.congr rfl rfl fun _ => rfl
  cases o with
  | Elsewhere arrow_store query_engine => cases hdelivers
  | Commit =>
      rcases hcommit : j.commit ingestor saver with ⟨e | result, j'⟩
      · obtain ⟨htick, hsnapshots, hversions⟩ := commit_keeps hdelivers hcommit
        have hlog : committed_by ingestor saver j .Commit = [] := by
          simp [committed_by, Journal.op, hcommit, Except.map]
        rw [hlog, List.append_nil, Journal.op, hcommit]
        exact h.congr htick hsnapshots hversions
      · have hlog : committed_by ingestor saver j .Commit = [(j.current_tick, j'.arrow_store)] := by
          simp [committed_by, Journal.op, hcommit, Except.map]
        rw [hlog, Journal.op, hcommit]
        exact h.commit_ok hcommit
  | _ => exact absurd trivial hsubmits

theorem Tracks.run (h : Tracks start log j) {ops : List (JournalOp Q)}
    (hops : CommitsDeliver ingestor saver j ops) :
    Tracks start (log ++ committed ingestor saver j ops) (j.after ingestor saver ops) := by
  induction ops generalizing log j with
  | nil => simpa [committed, after] using h
  | cons o os ih =>
      obtain ⟨hdelivers, hrest⟩ := hops
      rw [committed, ← List.append_assoc]
      exact ih (h.op o hdelivers) hrest

omit [Render] in
/-- What the invariant says to a reader of the store. -/
theorem Tracks.stores (h : Tracks start log j) : Stores start log j.arrow_store := by
  have hget : ∀ t, (j.arrow_store.get_snapshot t).toOption = j.arrow_store.snapshots[t]? := by
    intro t
    unfold ArrowStore.get_snapshot
    rcases j.arrow_store.snapshots[t]? with _ | snapshot <;> rfl
  have hlatest : Option.Rel SnapshotOf log.getLast?
      (j.arrow_store.snapshots.keys.max?.bind (j.arrow_store.snapshots[·]?)) := by
    rcases List.eq_nil_or_concat log with rfl | ⟨front, l, rfl⟩
    · -- no commit, no snapshot
      have hempty : j.arrow_store.snapshots.keys = [] := by
        refine List.eq_nil_iff_forall_not_mem.2 fun t ht => ?_
        have hstored := h.stored t
        rw [commit_at_eq_none.2 (by simp)] at hstored
        rw [Std.ExtTreeMap.mem_keys, Std.ExtTreeMap.mem_iff_isSome_getElem?] at ht
        rcases hs : j.arrow_store.snapshots[t]? with _ | snapshot
        · simp [hs] at ht
        · rw [hs] at hstored
          cases hstored
      rw [hempty]
      exact .none
    · rw [List.concat_eq_append] at h ⊢
      have hstored := h.stored l.1
      rw [commit_at_concat, if_pos rfl] at hstored
      -- the log is in order of ticks, so the last commit holds the greatest
      have hmax : j.arrow_store.snapshots.keys.max? = some l.1 := by
        refine List.max?_eq_some_iff.2 ⟨?_, fun t ht => ?_⟩
        · rw [Std.ExtTreeMap.mem_keys, Std.ExtTreeMap.mem_iff_isSome_getElem?]
          rcases hs : j.arrow_store.snapshots[l.1]? with _ | snapshot
          · rw [hs] at hstored
            cases hstored
          · rfl
        · rw [Std.ExtTreeMap.mem_keys, Std.ExtTreeMap.mem_iff_isSome_getElem?] at ht
          by_contra hgt
          have hnone : commit_at (front ++ [l]) t = none := by
            refine commit_at_eq_none.2 fun c hc heq => hgt ?_
            rw [← heq]
            exact h.last l (by simp) c hc
          have hstored := h.stored t
          rw [hnone] at hstored
          rcases hs : j.arrow_store.snapshots[t]? with _ | snapshot
          · simp [hs] at ht
          · rw [hs] at hstored
            cases hstored
      rw [hmax, List.getLast?_concat]
      exact hstored
  refine ⟨fun t => (hget t).symm ▸ h.stored t, ⟨_, rfl, hlatest⟩, fun t => ?_, h.versions⟩
  have hstored := h.stored t
  unfold ArrowStore.checkpoint_snapshot
  rcases hc : commit_at log t with _ | c <;>
    rcases hs : j.arrow_store.snapshots[t]? with _ | snapshot <;> rw [hc, hs] at hstored
  · simpa using hlatest
  · cases hstored
  · cases hstored
  · simpa using hstored

/-- In a run on a store without snapshots in which no commit fails after its snapshot, the
snapshots are those of the successful commits. -/
theorem snapshots_committed {ops : List (JournalOp Q)} (hfresh : j.arrow_store.snapshots = ∅)
    (htick : j.current_tick ≤ Tick.MAX) (hops : CommitsDeliver ingestor saver j ops) :
    Stores j.arrow_store (committed ingestor saver j ops) (j.after ingestor saver ops).arrow_store := by
  have hstart : Tracks j.arrow_store [] j := by
    refine ⟨htick, by simp, by simp, fun t => ?_, fun _ => rfl⟩
    rw [hfresh, commit_at_eq_none.2 (by simp), Std.ExtTreeMap.getElem?_empty]
    exact .none
  simpa using (hstart.run hops).stores

end Commits

end Journal

/-! ## Two runs -/

namespace Journal

section Items

attribute [local instance] plain_text QueryEngine.no_merge

/-- Two commits that go through, with one between them that fails in its diffs. -/
theorem items_calls_stored :
    let j := (items_journal items_store []).with_save_journal []
    Stores items_store (committed QueryEngine.ingestor InMemorySaveJournal j items_calls)
      (j.after QueryEngine.ingestor InMemorySaveJournal items_calls).arrow_store := by
  intro j
  have hdeliver : CommitsDeliver QueryEngine.ingestor InMemorySaveJournal j items_calls := by
    decide +kernel
  exact snapshots_committed (j := j) (by decide +kernel) (Nat.zero_le _) hdeliver

/-- The save journal refuses the record, and the commit is given up. Its snapshot stays,
with its row, and is what the next checkpoint is written from. -/
theorem failed_commit_stored :
    let j := (items_journal items_store []).with_save_journal []
    let ops := [.SubmitDiff (.Insert "items" 1 (item 1 10)), .Commit, .ClearPending]
    let s := (j.after QueryEngine.ingestor full_journal ops).arrow_store
    j.arrow_store.snapshots = ∅ ∧ committed QueryEngine.ingestor full_journal j ops = []
      ∧ s.get_table_batches "items" 0 = .ok [] ∧ (s.get_snapshot 0).toOption.isSome
      ∧ (s.checkpoint_snapshot 7).map (fun snapshot =>
          (snapshot.table_batches "items").map (List.map (·.row 0)))
        = some (.ok [[.UInt64 1, .Int64 10]])
      ∧ ¬ Stores items_store (committed QueryEngine.ingestor full_journal j ops) s := by
  intro j ops s
  have hnone : committed QueryEngine.ingestor full_journal j ops = [] :=
    List.length_eq_zero_iff.1 (by decide +kernel)
  have hsome : (s.get_snapshot 0).toOption.isSome := by decide +kernel
  refine ⟨by decide +kernel, hnone, by decide +kernel, hsome, by decide +kernel, fun hstores => ?_⟩
  have hget := hstores.get_snapshot 0
  rw [hnone, commit_at_eq_none.2 (by simp)] at hget
  rcases hs : (s.get_snapshot 0).toOption with _ | snapshot
  · rw [hs] at hsome
    cases hsome
  · rw [hs] at hget
    cases hget

end Items

end Journal

end Scharnhorst
