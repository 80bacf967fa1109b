/-
What a client sees of a simulation.

A client holds the snapshot of one tick, and reads tables through the engine at that tick. It hears
of a commit if the broadcast comes to it, that is if no consumer before it fails; it may also fetch
the snapshot by itself. So it may be behind, but it does not mix: what it reads through the engine
is either of the snapshot that it holds or refused.

There are two ticks at which nothing is refused. Zero stands for whatever is the latest, so a client
that has heard only of the first commit reads the later ones; and at the last tick the clock stands
still.
-/
import Scharnhorst.EntitySync
import Scharnhorst.Simulation

set_option autoImplicit false

namespace Scharnhorst

/-! ## The handler -/

/-- The engine that it shares with the scheduler is an argument here. -/
structure SnapshotRefreshHandler where
  view_model : ViewModel
  signal_received : Bool

namespace SnapshotRefreshHandler

def new : SnapshotRefreshHandler := { view_model := .new, signal_received := false }

def on_refresh_signal (handler : SnapshotRefreshHandler) : SnapshotRefreshHandler :=
  { handler with signal_received := true }

def should_refresh (handler : SnapshotRefreshHandler) : Bool := handler.signal_received

def refresh_snapshot (handler : SnapshotRefreshHandler) (new_view : WorldView) :
    SnapshotRefreshHandler :=
  { view_model := .refresh new_view (saturating_add handler.view_model.generation 1)
    signal_received := false }

/-- What a broadcast calls. The tick is not used. -/
def callback (handler : SnapshotRefreshHandler) (q : QueryEngine) (_tick generation : UInt64) :
    SchedulerResult Unit × SnapshotRefreshHandler :=
  match q.world_view with
  | .error e => (.error (.Generic e.to_string), handler)
  | .ok snapshot =>
    (.ok (), { view_model := .refresh snapshot generation.toNat, signal_received := false })

theorem callback_cases (handler : SnapshotRefreshHandler) (q : QueryEngine)
    (tick generation : UInt64) : (handler.callback q tick generation).2 = handler
      ∨ ∃ view, q.world_view = .ok view
        ∧ (handler.callback q tick generation).2.view_model = .refresh view generation.toNat := by
  unfold callback
  rcases hview : q.world_view with e | view
  · exact .inl rfl
  · exact .inr ⟨view, rfl, rfl⟩

end SnapshotRefreshHandler

/-! ## Reading through the engine -/

namespace ViewModel

variable [Concat] {view_model : ViewModel} {q : QueryEngine} {store : ArrowStore} {tick : Tick}

/-- At the tick that is served a table is read as its view. -/
theorem reads_current (h : Serves q store tick) (htick : view_model.latest_tick = some tick)
    {n : String} {lock : RwLock VersionedTable} (hlock : store.tables[n]? = some lock) :
    ∃ schema, view_model.read_table_via_query_engine q n = .ok (some
      (.new n tick (lock.data.batches tick) schema (some lock.data.position_map))) := by
  obtain ⟨cache, hcache, hviews⟩ := h.views
  obtain ⟨lock', schema, hlock', hview⟩ := hviews n lock hlock
  obtain rfl : lock = lock' := Option.some.inj (hlock.symm.trans hlock')
  refine ⟨schema, ?_⟩
  have hread : q.read { tick, table_names := [n] } = .ok
      { tick
        views := (∅ : Map String TableReadView).insert n
          (.new n tick (lock.data.batches tick) schema (some lock.data.position_map)) } := by
    simp [QueryEngine.read, h.latest_tick, hcache, QueryEngine.read_view, hview, bind, Except.bind,
      Except.map, pure, Except.pure]
    rfl
  simp [read_table_via_query_engine, htick, hread, ReadResponse.get, Except.toOption]

/-- At another tick no table is read. -/
theorem refuses_stale (h : Serves q store tick) {old : Tick}
    (hold : view_model.latest_tick = some old) (hzero : old ≠ Tick.ZERO) (hne : old ≠ tick)
    (n : String) :
    view_model.read_table_via_query_engine q n
      = .error (.QueryEngine (QueryError.TicksMismatch old (some tick)).to_string) := by
  obtain ⟨cache, hcache, -⟩ := h.views
  have hlatest : q.load_latest_tick ≠ some old := by
    rw [h.latest_tick]
    exact fun heq => hne (Option.some.inj heq).symm
  have hread : q.read { tick := old, table_names := [n] }
      = .error (.TicksMismatch old (some tick)) := by
    unfold QueryEngine.read
    rw [hcache]
    simp only
    rw [if_pos ⟨hzero, hlatest⟩, h.latest_tick]
  simp [read_table_via_query_engine, hold, hread]

end ViewModel

/-! ## Clients of a simulation -/

namespace Scheduler

section Clients

variable [Render] [Concat] {J S : Type} {saver : SaveJournal J}
  {start sch : Scheduler QueryEngine J S} {committed : List (Tick × List Diff)}
  {handler : SnapshotRefreshHandler}

/-- A simulation with a client. Of a commit it hears or not, and between the calls it may fetch the
snapshot that the engine has. -/
inductive Watched (saver : SaveJournal J) (start : Scheduler QueryEngine J S) :
    Scheduler QueryEngine J S → List (Tick × List Diff) → SnapshotRefreshHandler → Prop
  | start : Watched saver start start [] .new
  | enqueue {sch : Scheduler QueryEngine J S} {committed : List (Tick × List Diff)}
      {handler : SnapshotRefreshHandler} (run : Watched saver start sch committed handler)
      (envelope : CommandEnvelope) :
    Watched saver start (sch.enqueue_command envelope).2 committed handler
  | returns {sch : Scheduler QueryEngine J S} {committed : List (Tick × List Diff)}
      {handler : SnapshotRefreshHandler} (run : Watched saver start sch committed handler)
      (hnone : sch.to_commit = none) :
    Watched saver start (sch.tick QueryEngine.ingestor saver).2 committed handler
  | commits {sch sch' : Scheduler QueryEngine J S} {committed : List (Tick × List Diff)}
      {handler : SnapshotRefreshHandler} {diffs : List Diff} {result : CommitResult}
      (run : Watched saver start sch committed handler) (hdiffs : sch.to_commit = some diffs)
      (hok : sch.tick_to_commit QueryEngine.ingestor saver = (.ok result, sch'))
      (hfresh : FreshCommit sch.journal.data.arrow_store (sch.journal.data.current_tick, diffs))
      (heard : Bool) :
    Watched saver start (sch.tick QueryEngine.ingestor saver).2
      (committed ++ [(sch.journal.data.current_tick, diffs)])
      (if heard then (handler.callback (sch.tick QueryEngine.ingestor saver).2.query_engine
          result.tick.toUInt64 (sch.tick QueryEngine.ingestor saver).2.generation).2
        else handler)
  | signal {sch : Scheduler QueryEngine J S} {committed : List (Tick × List Diff)}
      {handler : SnapshotRefreshHandler} (run : Watched saver start sch committed handler) :
    Watched saver start sch committed handler.on_refresh_signal
  | fetch {sch : Scheduler QueryEngine J S} {committed : List (Tick × List Diff)}
      {handler : SnapshotRefreshHandler} (run : Watched saver start sch committed handler)
      {view : WorldView} (hview : sch.query_engine.world_view = .ok view) :
    Watched saver start sch committed (handler.refresh_snapshot view)

theorem Watched.simulation (run : Watched saver start sch committed handler) :
    Simulation QueryEngine.ingestor saver start sch committed := by
  induction run with
  | start => exact .start
  | enqueue _ envelope ih => exact ih.enqueue envelope
  | returns _ hnone ih => exact ih.returns hnone
  | commits _ hdiffs hok hfresh _ ih => exact ih.commits hdiffs hok hfresh
  | signal _ ih => exact ih
  | fetch _ _ ih => exact ih

/-- A snapshot with the world after some of the commits. If they are all, the store still has its
tables. -/
structure SnapshotOf (start sch : Scheduler QueryEngine J S) (view : WorldView)
    (before after : List (Tick × List Diff)) : Prop where
  tick : before.getLast?.map Prod.fst = some view.tick
  rows : ∀ (n : String) (table : VersionedTable), view.snapshot.tables[n]? = some table →
    ShowsRows table (start.world_of before n)
  current : after = [] → ∀ n : String,
    view.snapshot.tables[n]? = sch.journal.data.arrow_store.tables[n]?.map (·.data)

omit [Concat] in
theorem SnapshotOf.later {view : WorldView} {before after : List (Tick × List Diff)}
    (h : SnapshotOf start sch view before after) {sch' : Scheduler QueryEngine J S}
    (commit : Tick × List Diff) : SnapshotOf start sch' view before (after ++ [commit]) where
  tick := h.tick
  rows := h.rows
  current hnil := absurd hnil (by simp)

/-- Before the first commit the engine is as it was. -/
theorem Simulation.uncommitted (hstart : start.Unpoisoned) (hstarted : start.journal.data.Started)
    (run : Simulation QueryEngine.ingestor saver start sch committed) (hnil : committed = []) :
    sch.query_engine = start.query_engine := by
  induction run with
  | start => rfl
  | enqueue run envelope ih =>
    have hidle := (run.idle hstart hstarted).1
    obtain ⟨queue, commands, kept, hsame⟩ := enqueue_returned hidle.between.pending envelope
    rw [hsame]
    exact ih hnil
  | returns run hnone ih =>
    have hidle := (run.idle hstart hstarted).1
    obtain ⟨e, sch', hcall, queue, commands, kept, rfl⟩ :=
      hidle.resting.call_returns QueryEngine.ingestor saver hnone
    simp only [tick, hcall]
    exact ih hnil
  | commits => simp at hnil

/-- The snapshot that the engine has is the one of the last commit. -/
theorem Simulation.world_view (hstart : start.Unpoisoned) (hstarted : start.journal.data.Started)
    (hattached : start.Attached) (hempty : start.query_engine.latest_snapshot.data = none)
    (run : Simulation QueryEngine.ingestor saver start sch committed) {view : WorldView}
    (hview : sch.query_engine.world_view = .ok view) : SnapshotOf start sch view committed [] := by
  rcases hlast : committed.getLast? with _ | last
  · rw [run.uncommitted hstart hstarted (List.getLast?_eq_none_iff.1 hlast),
      QueryEngine.world_view] at hview
    rcases hread : start.query_engine.latest_snapshot.read with e | snapshot
    · rw [hread] at hview
      cases hview
    · obtain rfl := (RwLock.read_ok.1 hread).2
      rw [hread, hempty] at hview
      cases hview
  · obtain ⟨hidle, -⟩ := run.idle hstart hstarted
    obtain ⟨-, hserves⟩ := run.serves hstart hstarted hattached
    obtain ⟨snapshot, hread, -, htick, htables⟩ := (hserves last hlast).snapshot
    rw [QueryEngine.world_view, hread] at hview
    obtain rfl := Except.ok.inj hview
    refine ⟨?_, ?_, fun _ => htables⟩
    · rw [hlast, Option.map_some, ← htick]
      rfl
    · intro n table htable
      have hstored := (htables n).symm.trans htable
      obtain ⟨lock, hlock, rfl⟩ := Option.map_eq_some_iff.1 hstored
      exact (hidle.between.holds n lock hlock).shows (hidle.between.shaped.tidy n lock hlock).2

/-- What a client holds is the snapshot of some commit, and it knows the tick of it. -/
structure Follows (start sch : Scheduler QueryEngine J S) (committed : List (Tick × List Diff))
    (view_model : ViewModel) : Prop where
  latest_tick : view_model.latest_tick = view_model.snapshot.map WorldView.tick
  snapshot : ∀ view ∈ view_model.snapshot, ∃ before after, committed = before ++ after
    ∧ SnapshotOf start sch view before after

omit [Concat] in
/-- The store stays, so what was current is current. -/
theorem Follows.same {sch' : Scheduler QueryEngine J S} {view_model : ViewModel}
    (h : Follows start sch committed view_model)
    (hstore : sch'.journal.data.arrow_store = sch.journal.data.arrow_store) :
    Follows start sch' committed view_model := by
  refine ⟨h.latest_tick, fun view hview => ?_⟩
  obtain ⟨before, after, hcommitted, hof⟩ := h.snapshot view hview
  refine ⟨before, after, hcommitted, hof.tick, hof.rows, fun hnil => ?_⟩
  rw [hstore]
  exact hof.current hnil

omit [Concat] in
theorem Follows.later {sch' : Scheduler QueryEngine J S} {view_model : ViewModel}
    (h : Follows start sch committed view_model) (commit : Tick × List Diff) :
    Follows start sch' (committed ++ [commit]) view_model := by
  refine ⟨h.latest_tick, fun view hview => ?_⟩
  obtain ⟨before, after, rfl, hof⟩ := h.snapshot view hview
  exact ⟨before, after ++ [commit], List.append_assoc _ _ _, hof.later commit⟩

omit [Concat] in
theorem SnapshotOf.follows {view : WorldView} (h : SnapshotOf start sch view committed [])
    (generation : Nat) : Follows start sch committed (.refresh view generation) := by
  refine ⟨rfl, fun view' hview' => ⟨committed, [], (List.append_nil _).symm, ?_⟩⟩
  obtain rfl := Option.some.inj hview'
  exact h

theorem Watched.follows (hstart : start.Unpoisoned) (hstarted : start.journal.data.Started)
    (hattached : start.Attached) (hempty : start.query_engine.latest_snapshot.data = none)
    (run : Watched saver start sch committed handler) :
    Follows start sch committed handler.view_model := by
  induction run with
  | start => exact ⟨rfl, nofun⟩
  | enqueue run envelope ih =>
    have hidle := (run.simulation.idle hstart hstarted).1
    have hattached' := (run.simulation.serves hstart hstarted hattached).1
    exact ih.same (hattached'.returned (enqueue_returned hidle.between.pending envelope)).2.2
  | returns run hnone ih =>
    have hidle := (run.simulation.idle hstart hstarted).1
    have hattached' := (run.simulation.serves hstart hstarted hattached).1
    obtain ⟨e, sch', hcall, hreturned⟩ :=
      hidle.resting.call_returns QueryEngine.ingestor saver hnone
    simp only [tick, hcall]
    exact ih.same (hattached'.returned hreturned).2.2
  | commits run hdiffs hok hfresh heard ih =>
    have hafter := run.simulation.commits hdiffs hok hfresh
    cases heard with
    | false => exact ih.later _
    | true =>
      rw [if_pos rfl]
      rcases SnapshotRefreshHandler.callback_cases _ _ _ _ with hsame | ⟨view, hview, hrefreshed⟩
      · rw [hsame]
        exact ih.later _
      · rw [hrefreshed]
        exact (hafter.world_view hstart hstarted hattached hempty hview).follows _
  | signal run ih => exact ih
  | fetch run hview ih =>
    exact (run.simulation.world_view hstart hstarted hattached hempty hview).follows _

omit [Render] [Concat] in
/-- The last of some of the ticks, and the last of all of them. -/
theorem ticks_apart {before after : List (Tick × List Diff)} {old last : Tick}
    (hticks : (before ++ after).map Prod.fst
      = (List.range (before ++ after).length).map (min · Tick.MAX))
    (hold : before.getLast?.map Prod.fst = some old)
    (hlast : (before ++ after).getLast?.map Prod.fst = some last) (hafter : after ≠ [])
    (hmax : old < Tick.MAX) : old ≠ last := by
  have hat : ∀ (i : Nat) (tick : Tick), i < (before ++ after).length →
      (before ++ after)[i]?.map Prod.fst = some tick → tick = min i Tick.MAX := by
    intro i tick hi hget
    have hrange := congrArg (·[i]?) hticks
    simp only [List.getElem?_map, List.getElem?_range hi, Option.map_some] at hrange
    exact Option.some.inj (hget.symm.trans hrange)
  have hlength := List.length_pos_iff.2 hafter
  have hbefore : 0 < before.length := by
    rw [List.length_pos_iff]
    rintro rfl
    cases hold
  rw [List.getLast?_eq_getElem?] at hold hlast
  have hprefix : (before ++ after)[before.length - 1]? = before[before.length - 1]? :=
    List.getElem?_append_left (by omega)
  rw [← hprefix] at hold
  have hfirst := hat _ old (by rw [List.length_append]; omega) hold
  have hsecond := hat _ last (by rw [List.length_append]; omega) hlast
  rw [List.length_append] at hsecond
  -- the clock was not at its end then, so it has gone on
  have hgone : ∀ a b m : Nat, min a m < m → a < b → min a m ≠ min b m := by omega
  rw [hfirst] at hmax ⊢
  rw [hsecond]
  exact hgone _ _ _ hmax (by omega)

end Clients

/-! ### A client of the warehouse -/

section Stock

attribute [local instance] plain_text Journal.one_batch

end Stock

end Scheduler

end Scharnhorst
