/-
Replaying a save, compared with the run that it was made from.

The hash that a commit reports is that of its own diffs. The replay adds the hashes of all
records after the snapshot to the snapshot's, which is the hash of one commit too. So what
the replay returns is what the last commit reported and the sum of the hashes from the
snapshot's commit up to the one before the last, and it never looks at a diff.
-/
import Scharnhorst.Files
import Scharnhorst.Load
import Scharnhorst.Submissions

set_option autoImplicit false

namespace Scharnhorst

open Attempt

/-! ## A list from an index on -/

/-- A list whose elements pass the test from an index on, and not before. -/
theorem filter_eq_drop {α : Type} {p : α → Bool} {xs : List α} {k : Nat}
    (h : ∀ (i : Nat) (x : α), xs[i]? = some x → (p x = true ↔ k ≤ i)) : xs.filter p = xs.drop k := by
  have hfront : (xs.take k).filter p = [] := by
    rw [List.filter_eq_nil_iff]
    intro x hx hp
    obtain ⟨i, hi⟩ := List.mem_iff_getElem?.1 hx
    rw [List.getElem?_take] at hi
    split at hi
    · rename_i hlt
      have hle := (h i x hi).1 hp
      omega
    · cases hi
  have hback : (xs.drop k).filter p = xs.drop k := by
    rw [List.filter_eq_self]
    intro x hx
    obtain ⟨i, hi⟩ := List.mem_iff_getElem?.1 hx
    rw [List.getElem?_drop] at hi
    exact (h (k + i) x hi).2 (Nat.le_add_right k i)
  calc xs.filter p = (xs.take k ++ xs.drop k).filter p := by rw [List.take_append_drop]
    _ = xs.drop k := by rw [List.filter_append, hfront, hback, List.nil_append]

namespace Journal

section Runs

variable [Render] {Q J : Type} {ingestor : SnapshotIngestor Q} {saver : SaveJournal J}
  {j j' : Journal Q J}

/-! ## The commits of a run -/

variable (ingestor saver) in
/-- What a call adds to the commits: what it returned, and the record it put in the
history. -/
def reported (j : Journal Q J) (o : JournalOp Q) : List (CommitResult × CommitRecord) :=
  match o, j.commit ingestor saver with
  | .Commit, (.ok result, j') => j'.history.getLast?.toList.map fun record => (result, record)
  | _, _ => []

theorem reported_of_submits {o : JournalOp Q} (h : o.Submits) : j.reported ingestor saver o = [] := by
  cases o <;> first | rfl | exact h.elim

theorem reported_of_ok {result : CommitResult} (h : (j.commit ingestor saver).1 = .ok result) :
    j.reported ingestor saver .Commit
      = (j.commit ingestor saver).2.history.getLast?.toList.map fun record => (result, record) := by
  simp only [reported]
  rw [eq_of_verdict h]

theorem reported_of_error {e : JournalError} (h : (j.commit ingestor saver).1 = .error e) :
    j.reported ingestor saver .Commit = [] := by
  simp only [reported]
  rw [eq_of_failure h]

variable (ingestor saver) in
/-- The successful commits of a run of calls, whatever fails between them. -/
def commits : Journal Q J → List (JournalOp Q) → List (CommitResult × CommitRecord)
  | _, [] => []
  | j, o :: os => j.reported ingestor saver o ++ commits (j.op ingestor saver o).2 os

/-- One commit of a run: the result and the record are of one tick and of one hash, which
is that of the record's diffs. -/
structure Reports (tick : Tick) (c : CommitResult × CommitRecord) : Prop where
  result_tick : c.1.tick = tick
  record_tick : c.2.tick = tick
  state_hash : c.2.state_hash = c.1.state_hash
  hash : hash_diffs c.2.diffs = .ok c.2.state_hash

theorem commit_reports {result : CommitResult} (h : j.commit ingestor saver = (.ok result, j')) :
    j'.current_tick = j.current_tick.next
      ∧ ∃ record, j'.history.getLast? = some record ∧ Reports j.current_tick (result, record) := by
  obtain ⟨saved, mid, s, snapshot, state_hash, happlies⟩ := commit_ok h
  rw [happlies.commit] at h
  obtain ⟨rfl, q, sj, rfl⟩ := deliver_ok h
  exact ⟨rfl, _, getLast?_evict _ _, rfl, rfl, rfl, happlies.hash⟩

variable (ingestor saver) in
/-- What a call does to the tick, and what it adds. -/
theorem op_reports (j : Journal Q J) (o : JournalOp Q) :
    (j.reported ingestor saver o = [] ∧ (j.op ingestor saver o).2.current_tick = j.current_tick)
      ∨ ∃ c, j.reported ingestor saver o = [c] ∧ Reports j.current_tick c
        ∧ (j.op ingestor saver o).2.current_tick = j.current_tick.next := by
  by_cases hsubmits : o.Submits
  · obtain ⟨commands, diffs, hwrites⟩ := op_submits ingestor saver j hsubmits
    refine .inl ⟨reported_of_submits hsubmits, ?_⟩
    rw [hwrites]
  cases o with
  | Commit =>
      rcases hcommit : j.commit ingestor saver with ⟨e | result, j'⟩
      · refine .inl ⟨by simp [reported, hcommit], ?_⟩
        simp only [op, hcommit]
        by_cases hopen : j.phase = .Open
        · have hending := commit_ending ingestor saver hopen
          rw [hcommit] at hending
          cases hending <;> rfl
        · simp only [commit, hopen, ne_eq, not_false_eq_true, if_true] at hcommit
          rw [← (Prod.mk.inj hcommit).2]
      · obtain ⟨htick, record, hlast, hreports⟩ := commit_reports hcommit
        refine .inr ⟨(result, record), by simp [reported, hcommit, hlast], hreports, ?_⟩
        simp only [op, hcommit]
        exact htick
  | Elsewhere arrow_store query_engine => exact .inl ⟨rfl, rfl⟩
  | _ => exact absurd trivial hsubmits

/-- The commits of a run are at one tick after the other. -/
theorem commits_report {ops : List (JournalOp Q)} {start : Nat}
    (hstart : j.current_tick = min start Tick.MAX) (i : Nat) (c : CommitResult × CommitRecord)
    (hc : (j.commits ingestor saver ops)[i]? = some c) : Reports (min (start + i) Tick.MAX) c := by
  induction ops generalizing j start i with
  | nil => simp [commits] at hc
  | cons o os ih =>
      rw [commits] at hc
      rcases op_reports ingestor saver j o with
        ⟨hnone, htick⟩ | ⟨first, hone, hreports, htick⟩
      · rw [hnone, List.nil_append] at hc
        exact ih (htick.trans hstart) i hc
      · rw [hone, List.singleton_append] at hc
        rcases i with _ | i
        · obtain rfl : first = c := by simpa using hc
          rwa [hstart] at hreports
        · have hnext : (j.op ingestor saver o).2.current_tick = min (start + 1) Tick.MAX := by
            rw [htick, hstart, Tick.next_min]
          have hlater := ih hnext i (by simpa using hc)
          rwa [Nat.add_assoc, Nat.add_comm 1 i] at hlater

/-! ## The replay -/

/-- One record has other diffs than it had, of another hash, under the hash it had. -/
def Altered (records altered : List CommitRecord) : Prop :=
  ∃ front record back diffs h h', records = front ++ record :: back
    ∧ altered = front ++ { record with diffs } :: back
    ∧ hash_diffs record.diffs = .ok h ∧ hash_diffs diffs = .ok h' ∧ h' ≠ h

variable {D : Type} [SaveDisk D] [JsonBytes SnapshotHeader] {r : LoadReconstruction} {disk : D}
  {b : Tick} {records altered : List CommitRecord}

/-- The replay returns the hash of the live run, and does not return it once a record has
been altered. -/
structure ReplayVerifies (r : LoadReconstruction) (disk : D) (b : Tick)
    (records : List CommitRecord) (live : UInt64) : Prop where
  agrees : r.replay_diffs disk b records = .ok live
  detects : ∀ altered, Altered records altered → r.replay_diffs disk b altered ≠ .ok live

omit [Render] in
theorem replay_eq {snapshot : PersistedSnapshot}
    (hread : r.persistence.read_snapshot disk b = .ok snapshot)
    (hticks : ∀ (i : Nat) (record : CommitRecord), records[i]? = some record → record.tick = i) :
    r.replay_diffs disk b records
      = .ok (((records.map (·.state_hash)).drop (b + 1)).foldl (· + ·) snapshot.header.state_hash) := by
  have hlater : (records.filter fun record => b < record.tick) = records.drop (b + 1) := by
    refine filter_eq_drop fun i record hi => ?_
    rw [hticks i record hi, decide_eq_true_eq]
    exact Nat.lt_iff_add_one_le
  simp only [LoadReconstruction.replay_diffs, hread, hlater, ← List.map_drop, List.foldl_map]
  rfl

/-- It does not look at the diffs. -/
theorem replay_altered (h : Altered records altered) :
    r.replay_diffs disk b altered = r.replay_diffs disk b records := by
  obtain ⟨front, record, back, diffs, -, -, rfl, rfl, -⟩ := h
  simp only [LoadReconstruction.replay_diffs, List.filter_append, List.filter_cons]
  split <;> simp only [List.foldl_append, List.foldl_cons]

omit [JsonBytes SnapshotHeader] in
/-- A diff more in the list adds its digest to the hash. -/
theorem hash_diffs_append {diffs : List Diff} {d : Diff} {h : UInt64}
    (hdiffs : hash_diffs diffs = .ok h) (hd : diff_hash d ≠ 0) :
    hash_diffs (diffs ++ [d]) = .ok (h + diff_hash d) := by
  rcases hjson : Render.diff_to_string d with e | json
  · exact absurd (by simp [diff_hash, hjson, Except.toOption]) hd
  · unfold hash_diffs at hdiffs ⊢
    rw [List.foldlM_append, hdiffs]
    simp [diff_hash, hjson, Except.toOption, Except.mapError, bind, Except.bind, pure, Except.pure]

omit [JsonBytes SnapshotHeader] in
/-- Any record can be altered, if there is a diff whose digest is not 0. -/
theorem altered_of_mem {d : Diff} (hd : diff_hash d ≠ 0) {record : CommitRecord} {h : UInt64}
    (hmem : record ∈ records) (hhash : hash_diffs record.diffs = .ok h) :
    ∃ altered, Altered records altered := by
  obtain ⟨front, back, rfl⟩ := List.append_of_mem hmem
  refine ⟨_, front, record, back, record.diffs ++ [d], h, h + diff_hash d, rfl, rfl, hhash,
    hash_diffs_append hhash hd, fun heq => hd ?_⟩
  simpa using heq

/-- Over commits of one tick after the other the replay returns the sum from the snapshot's commit
to the last. -/
theorem replay_of_reports {cs : List (CommitResult × CommitRecord)}
    {base last : CommitResult × CommitRecord} {snapshot : PersistedSnapshot}
    (hreports : ∀ (i : Nat) (c : CommitResult × CommitRecord), cs[i]? = some c → Reports i c)
    (hbase : cs[b]? = some base) (hlast : cs.getLast? = some last)
    (hread : r.persistence.read_snapshot disk b = .ok snapshot)
    (hheader : snapshot.header.state_hash = base.1.state_hash) :
    r.replay_diffs disk b (cs.map Prod.snd)
      = .ok ((((cs.map Prod.fst).map (·.state_hash)).dropLast.drop b).foldl (· + ·) 0
        + last.1.state_hash) := by
  have hticks : ∀ (i : Nat) (record : CommitRecord), (cs.map Prod.snd)[i]? = some record →
      record.tick = i := by
    intro i record hi
    rw [List.getElem?_map, Option.map_eq_some_iff] at hi
    obtain ⟨c, hc, rfl⟩ := hi
    exact (hreports i c hc).record_tick
  -- the records carry the hashes that the results reported
  have hhashes : (cs.map Prod.snd).map (·.state_hash) = (cs.map Prod.fst).map (·.state_hash) := by
    simp only [List.map_map]
    refine List.map_congr_left fun c hc => ?_
    obtain ⟨i, hi⟩ := List.mem_iff_getElem?.1 hc
    exact (hreports i c hi).state_hash
  obtain ⟨front, hfront⟩ := List.getLast?_eq_some_iff.1 hlast
  have hresults : (cs.map Prod.fst).map (·.state_hash)
      = front.map (·.1.state_hash) ++ [last.1.state_hash] := by
    simp [hfront, Function.comp_def]
  have hb : b ≤ front.length := by
    have hlt := (List.getElem?_eq_some_iff.1 hbase).1
    rw [hfront, List.length_append, List.length_singleton] at hlt
    exact Nat.le_of_lt_succ hlt
  have hdrop : ((cs.map Prod.fst).map (·.state_hash)).drop b
      = base.1.state_hash :: ((cs.map Prod.fst).map (·.state_hash)).drop (b + 1) := by
    have hget : ((cs.map Prod.fst).map (·.state_hash))[b]? = some base.1.state_hash := by
      simp [hbase]
    rw [List.drop_eq_getElem?_toList_append, hget]
    rfl
  have hsum : (((cs.map Prod.fst).map (·.state_hash)).drop (b + 1)).foldl (· + ·)
        base.1.state_hash
      = (((cs.map Prod.fst).map (·.state_hash)).drop b).foldl (· + ·) 0 := by
    rw [hdrop, List.foldl_cons, UInt64.zero_add]
  rw [replay_eq hread hticks, hhashes, hheader, hsum, hresults,
    List.drop_append_of_le_length (by simpa using hb), List.foldl_append, List.dropLast_concat]
  rfl

/-- What the replay of a run returns is what its last commit reported exactly if the
hashes from the snapshot's commit on, without the last, add up to 0, and it returns the
same of every list of records that differs in the diffs only. -/
theorem replay_never_verifies {ops : List (JournalOp Q)} {base last : CommitResult × CommitRecord}
    {snapshot : PersistedSnapshot} {d : Diff} (hstart : j.current_tick = Tick.ZERO)
    (hmax : (j.commits ingestor saver ops).length ≤ Tick.MAX + 1)
    (hbase : (j.commits ingestor saver ops)[b]? = some base)
    (hlast : (j.commits ingestor saver ops).getLast? = some last)
    (hread : r.persistence.read_snapshot disk b = .ok snapshot)
    (hheader : snapshot.header.state_hash = base.1.state_hash) (hd : diff_hash d ≠ 0) :
    let results := (j.commits ingestor saver ops).map Prod.fst
    let records := (j.commits ingestor saver ops).map Prod.snd
    (r.replay_diffs disk b records = .ok last.1.state_hash
        ↔ ((results.map (·.state_hash)).dropLast.drop b).foldl (· + ·) 0 = 0)
      ∧ (∀ altered, Altered records altered →
          r.replay_diffs disk b altered = r.replay_diffs disk b records)
      ∧ ¬ ReplayVerifies r disk b records last.1.state_hash := by
  intro results records
  have hreports : ∀ (i : Nat) (c : CommitResult × CommitRecord),
      (j.commits ingestor saver ops)[i]? = some c → Reports i c := by
    intro i c hc
    have hlt := (List.getElem?_eq_some_iff.1 hc).1
    have hfirst : j.current_tick = min 0 Tick.MAX := hstart
    have hreport := commits_report hfirst i c hc
    rwa [Nat.zero_add, Nat.min_eq_left (by omega)] at hreport
  have hreplay : r.replay_diffs disk b records
      = .ok (((results.map (·.state_hash)).dropLast.drop b).foldl (· + ·) 0
        + last.1.state_hash) := replay_of_reports hreports hbase hlast hread hheader
  have hignores : ∀ altered, Altered records altered →
      r.replay_diffs disk b altered = r.replay_diffs disk b records :=
    fun _ => replay_altered
  refine ⟨?_, hignores, fun hverifies => ?_⟩
  · rw [hreplay, Except.ok.injEq]
    exact ⟨fun h => by simpa using h, fun h => by rw [h, UInt64.zero_add]⟩
  · have hmem : last.2 ∈ records := List.mem_map_of_mem (List.mem_of_getLast? hlast)
    obtain ⟨i, hi⟩ := List.mem_iff_getElem?.1 (List.mem_of_getLast? hlast)
    obtain ⟨altered, haltered⟩ := altered_of_mem hd hmem (hreports i last hi).hash
    exact hverifies.detects altered haltered ((hignores altered haltered).trans hverifies.agrees)

end Runs

/-! ## Two commits, and a snapshot of the first -/

section Items

attribute [local instance] plain_text QueryEngine.no_merge

/-- One insert, and an update of what it inserted. -/
def two_commits : List (CommitResult × CommitRecord) :=
  (items_journal items_store []).commits QueryEngine.ingestor InMemorySaveJournal
    [.SubmitDiff (.Insert "items" 1 (item 1 10)), .Commit, .SubmitDiff (set_qty "items"), .Commit]

/-- The snapshot of tick 0, under the hash that the commit of tick 0 reported. -/
def first_snapshot : PersistedSnapshot :=
  { header :=
      { schema_manifest := .new "1"
        generation := 0
        state_hash := (two_commits.head?.map (·.1.state_hash)).getD 0 }
    table_data := ∅ }

@[reducible] def first_header : JsonBytes SnapshotHeader := plain_headers [first_snapshot.header]

attribute [local instance] first_header

def saves : LoadReconstruction := .new (.new "saves") (.new .Warn)

def first_save : Files := (saves.persistence.write_snapshot Files.new first_snapshot).2

/-- What the live run reports at its last tick. -/
def second_hash : UInt64 := (two_commits.getLast?.map (·.1.state_hash)).getD 0

theorem two_commits_never_verify :
    ¬ ReplayVerifies saves first_save 0 (two_commits.map Prod.snd) second_hash := by
  have hlen : two_commits.length = 2 := by decide +kernel
  have hread : saves.persistence.read_snapshot first_save 0 = .ok first_snapshot := by
    decide +kernel
  have hd : diff_hash (set_qty "items") ≠ 0 := by decide +kernel
  obtain ⟨base, last, htwo⟩ := List.length_eq_two.1 hlen
  have hheader : first_snapshot.header.state_hash = base.1.state_hash := by
    simp [first_snapshot, htwo]
  have hlive : second_hash = last.1.state_hash := by simp [second_hash, htwo]
  rw [hlive]
  exact (replay_never_verifies rfl (Nat.le_trans (Nat.le_of_eq hlen) (by decide))
    (show two_commits[0]? = some base by rw [htwo]; rfl)
    (show two_commits.getLast? = some last by rw [htwo]; rfl) hread hheader hd).2.2

/-- The replay of both commits returns the sum of the two hashes, and it still does when
the diffs of the second are gone. -/
theorem two_commits_not_replayed :
    let records := two_commits.map Prod.snd
    let altered := records.modify 1 fun record => { record with diffs := [] }
    (two_commits.map fun c => (c.1.tick, c.2.tick)) = [(0, 0), (1, 1)]
      ∧ two_commits.head?.map (·.1.state_hash) = some first_snapshot.header.state_hash
      ∧ saves.replay_diffs first_save 0 records
        = .ok (first_snapshot.header.state_hash + second_hash)
      ∧ saves.replay_diffs first_save 0 records ≠ .ok second_hash
      ∧ Altered records altered
      ∧ saves.replay_diffs first_save 0 altered = saves.replay_diffs first_save 0 records := by
  intro records altered
  have hlen : two_commits.length = 2 := by decide +kernel
  have hhash : (two_commits.getLast?.map fun c => hash_diffs c.2.diffs) = some (.ok second_hash) := by
    decide +kernel
  -- the run is evaluated once for all of these
  have hrun : (two_commits.map fun c => (c.1.tick, c.2.tick)) = [(0, 0), (1, 1)]
      ∧ two_commits.head?.map (·.1.state_hash) = some first_snapshot.header.state_hash
      ∧ saves.replay_diffs first_save 0 (two_commits.map Prod.snd)
        = .ok (first_snapshot.header.state_hash + second_hash)
      ∧ saves.replay_diffs first_save 0 (two_commits.map Prod.snd) ≠ .ok second_hash := by
    decide +kernel
  have haltered : Altered records altered := by
    obtain ⟨base, last, htwo⟩ := List.length_eq_two.1 hlen
    rw [htwo] at hhash
    exact ⟨[base.2], last.2, [], [], second_hash, 0, by simp [records, htwo],
      by simp [altered, records, htwo], Option.some.inj hhash, rfl, by decide +kernel⟩
  exact ⟨hrun.1, hrun.2.1, hrun.2.2.1, hrun.2.2.2, haltered, replay_altered haltered⟩

end Items

end Journal

end Scharnhorst
