/-
What the engine serves after a commit.

A commit stages the view of every table of its snapshot and then stores the snapshot,
which publishes the views with it. So after a commit that went through, the engine's
latest snapshot is that of the commit, and its cache has every table of the store, at the
commit's tick, with the batches of that tick and the position map as the commit left it.

From there on it is a matter of the readers. The world view lists the rows of these
batches; the SQL session is given their concatenation, which has the same rows if the
kernel does what it is documented to do; and a lookup finds no row that the map does not
have, merged or not.
-/
import Scharnhorst.Reads
import Scharnhorst.QuerySpec
import Scharnhorst.Commit

set_option autoImplicit false

namespace Scharnhorst

open Attempt Maps

/-! ## The kernel -/

/-- The documented behaviour of the kernel: batches of one schema are put one after the
other. -/
structure Concatenates [Concat] : Prop where
  rows : ∀ (schema : Schema) (batches : List RecordBatch) (merged : RecordBatch),
    (∀ b ∈ batches, b.schema = schema) → Concat.concat_batches schema batches = .ok merged →
    merged.rows = batches.flatMap RecordBatch.rows

/-! ## The positions of a rebased map -/

namespace TableReadView

/-- Where a position is moved, if it is inside. -/
def moved (row_counts : List Nat) (p : Nat × Nat) : Option (Nat × Nat) :=
  match (batch_offsets row_counts)[p.1]?, row_counts[p.1]? with
  | some batch_base, some row_count =>
    if p.2 < row_count then some (0, saturating_add batch_base p.2) else none
  | _, _ => none

theorem position_of_rebase_eq (map : RowPositionMap) (row_counts : List Nat) (r : RowId) :
    (rebase_position_map map row_counts).position_of r
      = (map.position_of r).bind (moved row_counts) := by
  unfold rebase_position_map
  have hwalk := foldl_toList (fun (rebased : RowPositionMap) (e : RowId × Nat × Nat) =>
      match (batch_offsets row_counts)[e.2.1]?, row_counts[e.2.1]? with
      | some batch_base, some row_count =>
        if e.2.2 < row_count then rebased.insert e.1 0 (saturating_add batch_base e.2.2)
        else rebased
      | _, _ => rebased)
    RowPositionMap.position_of (fun p old => (moved row_counts p).or old) ?_ map.entries .new r
  · refine hwalk.trans ?_
    change (map.position_of r).elim _ _ = _
    rcases map.position_of r with _ | p
    · exact RowPositionMap.position_of_new r
    · rw [Option.elim_some, RowPositionMap.position_of_new, Option.or_none, Option.bind_some]
  · intro rebased e k
    unfold moved
    rcases (batch_offsets row_counts)[e.2.1]? with _ | batch_base
    · simp
    · rcases row_counts[e.2.1]? with _ | row_count
      · simp
      · by_cases hlt : e.2.2 < row_count
        · simp only [if_pos hlt, RowPositionMap.position_of_insert, Option.some_or]
        · simp [if_neg hlt]

end TableReadView

/-! ## The views of a commit -/

section Views

variable [Concat]

/-- The view a commit makes of a table. -/
def Viewed (store : ArrowStore) (tick : Tick) (views : Map String TableReadView) (n : String) :
    Prop :=
  ∃ lock schema, store.tables[n]? = some lock
    ∧ views[n]? = some (.new n tick (lock.data.batches tick) schema (some lock.data.position_map))

/-- What the engine serves once a commit at this tick is published. -/
structure Serves (q : QueryEngine) (store : ArrowStore) (tick : Tick) : Prop where
  latest_tick : q.load_latest_tick = some tick
  snapshot : ∃ snapshot, q.latest_snapshot.read = .ok (some snapshot)
    ∧ store.get_snapshot tick = .ok snapshot ∧ snapshot.tick = tick
    ∧ ∀ n : String, snapshot.tables[n]? = store.tables[n]?.map (·.data)
  views : ∃ cache, q.view_cache.read = .ok cache
    ∧ ∀ (n : String) (lock : RwLock VersionedTable), store.tables[n]? = some lock →
      Viewed store tick cache n

/-- One table staged. -/
theorem publish_table_staged {store : ArrowStore} {tick : Tick} {q q' : QueryEngine}
    {state : PendingSnapshotIngest} {n : String} (hready : q.Ready)
    (hstate : q.pending_ingest.data = some state)
    (h : Journal.publish_table QueryEngine.ingestor store tick q n = (.ok (), q')) :
    ∃ lock schema, store.tables[n]? = some lock ∧ q' = q.stage
      { tick := some tick
        views := state.views.insert n
          (.new n tick (lock.data.batches tick) schema (some lock.data.position_map)) } := by
  unfold Journal.publish_table at h
  simp only at h
  rcases htable : store.get_table n with e | table
  · simp [htable] at h
  obtain ⟨lock, hlock, hhealthy, rfl⟩ : ∃ lock, store.tables[n]? = some lock
      ∧ lock.poisoned = false ∧ lock.data = table := by
    unfold ArrowStore.get_table at htable
    rcases hlock : store.tables[n]? with _ | lock
    · simp [hlock] at htable
    · rw [hlock] at htable
      exact ⟨lock, rfl, RwLock.read_store_ok.1 htable⟩
  have hbatches : (store.get_table_batches n tick).toOption.getD [] = lock.data.batches tick := by
    rw [ArrowStore.get_table_batches_eq, hlock, Option.elim_some, hhealthy]
    rfl
  simp only [htable, hbatches, QueryEngine.ingestor] at h
  let call : IngestCall := ⟨tick, n, lock.data.batches tick, lock.data.position_map⟩
  have hcall : q.ingest_snapshot tick n (lock.data.batches tick) lock.data.position_map
      = q.ingest_op (.Ingest call) := rfl
  rcases QueryEngine.ingest_snapshot_staged hready hstate call with ⟨e, he⟩ | ⟨view, hview, -, hok⟩
  · simp [hcall, he, Except.mapError] at h
  · obtain ⟨schema, -, rfl⟩ := Option.map_eq_some_iff.1 hview
    rw [hcall, hok] at h
    exact ⟨lock, schema, hlock, (Prod.mk.inj h).2.symm⟩

/-- All the tables staged, one after the other. -/
theorem publish_tables_staged {store : ArrowStore} {tick : Tick} {q q' : QueryEngine}
    {state : PendingSnapshotIngest} {names : List String} (hready : q.Ready)
    (hstate : q.pending_ingest.data = some state)
    (h : forEach (Journal.publish_table QueryEngine.ingestor store tick) q names = (.ok (), q')) :
    q'.Ready ∧ ∃ state', q'.pending_ingest.data = some state'
      ∧ (∀ n ∈ names, Viewed store tick state'.views n)
      ∧ ∀ n ∉ names, state'.views[n]? = state.views[n]? := by
  induction names generalizing q state with
  | nil =>
      obtain rfl : q = q' := by simpa using h
      exact ⟨hready, state, hstate, by simp, fun _ _ => rfl⟩
  | cons name names ih =>
      obtain ⟨mid, hname, hrest⟩ := forEach_cons_ok.1 h
      obtain ⟨lock, schema, hlock, rfl⟩ := publish_table_staged hready hstate hname
      obtain ⟨hready', state', hstate', hviewed, hother⟩ :=
        ih (q := q.stage _) ⟨hready.1, hready.2, hready.3⟩ rfl hrest
      refine ⟨hready', state', hstate', fun n hn => ?_, fun n hn => ?_⟩
      · by_cases hlater : n ∈ names
        · exact hviewed n hlater
        · obtain rfl := (List.mem_cons.1 hn).resolve_right hlater
          exact ⟨lock, schema, hlock, by rw [hother n hlater]; simp⟩
      · rw [List.mem_cons, not_or] at hn
        rw [hother n hn.2, Std.ExtTreeMap.getElem?_insert]
        simp [Ne.symm hn.1]

/-! ## What the readers get of it -/

/-- A view, merged or not, places no row that the map does not. -/
theorem position_of_view {n : String} {tick : Tick} {batches : List RecordBatch}
    {schema : TableSpec} {map : RowPositionMap} {r : RowId} (h : map.position_of r = none) :
    (TableReadView.new n tick batches schema (some map)).position_map.position_of r = none := by
  have hmap : ∀ merged : Bool, (if merged
      then TableReadView.rebase_position_map map (batches.map RecordBatch.row_count)
      else map).position_of r = none := by
    intro merged
    cases merged
    · exact h
    · rw [if_pos rfl, TableReadView.position_of_rebase_eq, h, Option.bind_none]
  exact hmap _

/-- The batch that a view is registered as has the rows of the view's batches. -/
theorem sql_batch_rows (hconcat : Concatenates) {n : String} {tick : Tick}
    {batches : List RecordBatch} {schema : TableSpec} {map : Option RowPositionMap}
    {batch : RecordBatch} (hschema : ∀ b ∈ batches, ∀ b' ∈ batches, b.schema = b'.schema)
    (h : QueryEngine.sql_batch (.new n tick batches schema map) = .ok batch) :
    batch.rows = batches.flatMap RecordBatch.rows := by
  -- the kernel is asked for one batch, or it has refused the batches before
  have hone : ∀ merged : RecordBatch,
      (Concat.concat_batches merged.schema [merged]).mapError QueryError.DataFusion = .ok batch →
      batch.rows = merged.rows := by
    intro merged hm
    rcases hc : Concat.concat_batches merged.schema [merged] with e | batch'
    · simp [hc, Except.mapError] at hm
    · obtain rfl : batch' = batch := by simpa [hc, Except.mapError] using hm
      simpa using hconcat.rows _ _ _ (by simp) hc
  rcases batches with _ | ⟨first, _ | ⟨second, rest⟩⟩
  · obtain rfl : QueryEngine.empty_batch = batch := by
      simpa [QueryEngine.sql_batch, TableReadView.new] using h
    rfl
  · rw [List.flatMap_singleton]
    exact hone first h
  · rcases hc : Concat.concat_batches first.schema (first :: second :: rest) with e | merged
    · simp [QueryEngine.sql_batch, TableReadView.new, hc, Except.mapError] at h
    · have hmerged : batch.rows = merged.rows := by
        refine hone merged ?_
        simpa [QueryEngine.sql_batch, TableReadView.new, hc] using h
      rw [hmerged]
      exact hconcat.rows _ _ _ (fun b hb => hschema b hb first (by simp)) hc

theorem Serves.lookup_row {q : QueryEngine} {store : ArrowStore} {tick : Tick}
    (h : Serves q store tick) {n : String} {lock : RwLock VersionedTable}
    (hn : store.tables[n]? = some lock) {r : RowId}
    (hr : lock.data.position_map.position_of r = none) : ∃ e, q.lookup_row n r = .error e := by
  obtain ⟨cache, hcache, hviews⟩ := h.views
  obtain ⟨lock', schema, hn', hview⟩ := hviews n lock hn
  obtain rfl := Option.some.inj (hn.symm.trans hn')
  have hread : q.read_single_table tick n
      = .ok (.new n tick (lock.data.batches tick) schema (some lock.data.position_map)) := by
    have hname : (TableReadView.new n tick (lock.data.batches tick) schema
        (some lock.data.position_map)).table_name = n := rfl
    simp [QueryEngine.read_single_table, QueryEngine.read, hcache, h.latest_tick,
      QueryEngine.read_view, hview, hname, bind, Except.bind, Except.map, pure, Except.pure,
      ReadResponse.get]
  simp only [QueryEngine.lookup_row, h.latest_tick, hread]
  exact ⟨_, by simp [bind, Except.bind, position_of_view hr]; rfl⟩

/-- The world view counts and lists the rows of the batches of the tick. -/
theorem Serves.world_view {q : QueryEngine} {store : ArrowStore} {tick : Tick}
    (h : Serves q store tick) {n : String} {lock : RwLock VersionedTable}
    (hn : store.tables[n]? = some lock) :
    ∃ view iter, q.world_view = .ok view ∧ view.iter_rows n = .ok iter
      ∧ iter.collect.map WorldViewRow.cells = (lock.data.batches tick).flatMap RecordBatch.rows
      ∧ view.row_count n = .ok iter.collect.length := by
  obtain ⟨snapshot, hread, -, htick, htables⟩ := h.snapshot
  have hbatches : snapshot.table_batches n = .ok (lock.data.batches tick) := by
    simp [WorldSnapshot.table_batches, WorldSnapshot.get_table, htables, hn, htick, Except.map]
  have hrows := (WorldViewRowIter.collect_new (lock.data.batches tick)).1
  refine ⟨.new snapshot, .new (lock.data.batches tick), ?_, ?_, hrows, ?_⟩
  · simp [QueryEngine.world_view, hread]
  · simp [WorldView.iter_rows, WorldView.new, hbatches, Except.map]
  · have hcount := congrArg List.length hrows
    rw [List.length_map, List.length_flatMap] at hcount
    simp [WorldView.row_count, WorldView.new, hbatches, Except.map, hcount]

/-- A SQL session that is given its tables is given this one, with the rows of the batches
of the tick. -/
theorem Serves.sql_tables {q : QueryEngine} {store : ArrowStore} {tick : Tick}
    (h : Serves q store tick) (hconcat : Concatenates) {n : String}
    {lock : RwLock VersionedTable} (hn : store.tables[n]? = some lock)
    (hschema : ∀ b ∈ lock.data.batches tick, ∀ b' ∈ lock.data.batches tick, b.schema = b'.schema)
    {tables : List (String × RecordBatch)} (hsql : q.sql_tables = .ok tables) :
    (∃ batch, (n, batch) ∈ tables) ∧ ∀ batch, (n, batch) ∈ tables →
      batch.rows = (lock.data.batches tick).flatMap RecordBatch.rows := by
  obtain ⟨cache, hcache, hviews⟩ := h.views
  obtain ⟨lock', schema, hn', hview⟩ := hviews n lock hn
  obtain rfl := Option.some.inj (hn.symm.trans hn')
  simp only [QueryEngine.sql_tables, hcache] at hsql
  obtain ⟨hfrom, hto⟩ := mapM_ok_mem hsql
  have hstep : ∀ (e : String × TableReadView) (e' : String × RecordBatch),
      (do let batch ← QueryEngine.sql_batch e.2; return (e.1, batch)) = Except.ok e' →
        e'.1 = e.1 ∧ QueryEngine.sql_batch e.2 = .ok e'.2 := by
    intro e e' he
    rcases hb : QueryEngine.sql_batch e.2 with err | batch
    · simp [hb, bind, Except.bind] at he
    · obtain rfl : (e.1, batch) = e' := by
        simpa [hb, bind, Except.bind, pure, Except.pure] using he
      exact ⟨rfl, rfl⟩
  refine ⟨?_, fun batch hmem => ?_⟩
  · obtain ⟨⟨n', batch⟩, hmem, he⟩ :=
      hto _ (Std.ExtTreeMap.mem_toList_iff_getElem?_eq_some.2 hview)
    obtain ⟨rfl, -⟩ := hstep _ _ he
    exact ⟨batch, hmem⟩
  · obtain ⟨⟨n', view⟩, hentry, he⟩ := hfrom _ hmem
    obtain ⟨rfl, hbatch⟩ := hstep _ _ he
    have hcached := Std.ExtTreeMap.mem_toList_iff_getElem?_eq_some.1 hentry
    obtain rfl := Option.some.inj (hcached.symm.trans hview)
    exact sql_batch_rows hconcat hschema hbatch

end Views

/-! ## A commit -/

namespace Journal

section Deliver

variable {Q J : Type} {ingestor : SnapshotIngestor Q} {saver : SaveJournal J} {j j' : Journal Q J}

theorem publish_snapshot_ok {store : ArrowStore} {tick : Tick} {qe qe' : Q}
    (h : publish_snapshot ingestor store tick qe = (.ok (), qe')) :
    ∃ snapshot mid, store.get_snapshot tick = .ok snapshot
      ∧ forEach (publish_table ingestor store tick) qe snapshot.table_names = (.ok (), mid)
      ∧ ingestor.store_snapshot mid snapshot = (.ok (), qe') := by
  unfold publish_snapshot at h
  split at h
  · cases h
  rename_i snapshot hget
  split at h
  · cases h
  rename_i mid htables
  refine ⟨snapshot, mid, hget, htables, ?_⟩
  rcases hstore : ingestor.store_snapshot mid snapshot with ⟨e | ⟨⟩, qe''⟩
  · simp [hstore, Except.mapError] at h
  · simpa [hstore, Except.mapError] using h

/-- A successful second half has begun an ingest of the engine and published to it. -/
theorem deliver_publishes {q : Q} {tick : Tick} {saved : Map String Versions} {diffs : List Diff}
    {commands : List CommandEnvelope} {state_hash : UInt64} {result : CommitResult}
    (hq : j.query_engine = some q)
    (h : j.deliver ingestor saver tick saved diffs commands state_hash = (.ok result, j')) :
    ∃ rollback q₁ q₂, ingestor.begin_ingest q = (.ok rollback, q₁)
      ∧ publish_snapshot ingestor j.arrow_store tick q₁ = (.ok (), q₂)
      ∧ j'.query_engine = some q₂ ∧ j'.arrow_store = j.arrow_store := by
  unfold deliver begin_ingest at h
  simp only [hq] at h
  rcases hbegin : ingestor.begin_ingest q with ⟨e | rollback, q₁⟩
  · simp [hbegin, Except.map, Except.mapError] at h
  simp only [hbegin, Except.map, Except.mapError, publish] at h
  rcases hpublish : publish_snapshot ingestor j.arrow_store tick q₁ with ⟨e | ⟨⟩, q₂⟩
  · simp [hpublish] at h
  simp only [hpublish] at h
  rcases happend : append saver { j with query_engine := some q₂ }
    (.with_commands tick diffs commands state_hash) with ⟨e | ⟨⟩, j₃⟩
  · simp [happend] at h
  obtain ⟨sj, -, rfl⟩ := append_ok happend
  simp only [happend] at h
  obtain ⟨-, rfl⟩ := Prod.mk.inj h
  exact ⟨rollback, q₁, q₂, rfl, hpublish, rfl, rfl⟩

end Deliver

variable [Render] [Concat] {J : Type} {saver : SaveJournal J} {j j' : Journal QueryEngine J}

/-- The engine of a commit that went through serves it. -/
theorem commit_serves {q : QueryEngine} {result : CommitResult} (hq : j.query_engine = some q)
    (h : j.commit QueryEngine.ingestor saver = (.ok result, j')) :
    ∃ q', j'.query_engine = some q' ∧ Serves q' j'.arrow_store j.current_tick := by
  obtain ⟨saved, mid, s, snapshot, state_hash, happlies⟩ := commit_ok h
  rw [happlies.commit] at h
  obtain ⟨-, hdo⟩ := ArrowStore.generate_snapshot_ok.1 happlies.snapshot
  obtain ⟨htick, htables, hs⟩ := ArrowStore.do_generate_snapshot_ok hdo
  obtain ⟨rollback, q₁, q₂, hbegin, hpublish, hq₂, hstore⟩ :=
    deliver_publishes (j := j.applied s) hq h
  obtain ⟨snapshot', q₃, hget, hnames, hput⟩ := publish_snapshot_ok hpublish
  have hget' : s.get_snapshot j.current_tick = .ok snapshot := by
    rw [hs]
    simp [ArrowStore.get_snapshot]
  obtain rfl : snapshot = snapshot' := Except.ok.inj (hget'.symm.trans hget)
  -- the ingest is begun, the tables staged, the snapshot stored
  obtain ⟨saved', hbegin'⟩ : ∃ saved', q.begin_ingest = (.ok saved', q₁) := by
    simp only [QueryEngine.ingestor] at hbegin
    rcases hb : q.begin_ingest with ⟨e | saved', q'⟩
    · simp [hb, Except.map] at hbegin
    · exact ⟨saved', Prod.ext rfl (by simpa [hb, Except.map] using (Prod.mk.inj hbegin).2)⟩
  obtain ⟨hready, -, -, rfl⟩ := QueryEngine.begin_ingest_ok.1 hbegin'
  obtain ⟨hready', state, hstate, hviewed, -⟩ := publish_tables_staged
    (q := q.stage .new) ⟨hready.1, hready.2, hready.3⟩ rfl hnames
  have hput' : q₃.store_world_snapshot snapshot = (.ok (), q₂) := by
    simp only [QueryEngine.ingestor] at hput
    rcases hb : q₃.store_world_snapshot snapshot with ⟨e | ⟨⟩, q'⟩
    · simp [hb, Except.mapError] at hput
    · exact Prod.ext rfl (by simpa [hb, Except.mapError] using (Prod.mk.inj hput).2)
  rcases QueryEngine.store_world_snapshot_staged hready' hstate snapshot with ⟨e, he⟩ | ⟨-, hok⟩
  · exact absurd (he.symm.trans hput') (by simp)
  obtain rfl := (Prod.mk.inj (hok.symm.trans hput')).2
  have hkeys : ∀ n : String, s.tables[n]? = mid.tables[n]? := fun n => by rw [hs]
  refine ⟨_, hq₂, ?_, ?_, ?_⟩
  · have hsentinel : snapshot.tick ≠ u64_MAX := fun heq => by
      simp [QueryEngine.store_world_snapshot, QueryEngine.check_sentinel, heq] at hput'
    rw [← htick]
    exact if_neg hsentinel
  · rw [hstore]
    refine ⟨snapshot, RwLock.read_healthy hready'.latest_snapshot, hget', htick, fun n => ?_⟩
    rw [htables, ← hkeys]
    rfl
  · rw [hstore]
    refine ⟨state.views, RwLock.read_healthy hready'.view_cache, fun n lock hn => hviewed n ?_⟩
    rw [WorldSnapshot.table_names, Std.ExtTreeMap.mem_keys, Std.ExtTreeMap.mem_iff_isSome_getElem?,
      htables, ← hkeys]
    rw [show s.tables[n]? = some lock from hn]
    rfl

end Journal

end Scharnhorst
