/-
What a rule has pinned, while the engine goes on publishing.

An evaluator reads the engine that the journal publishes to. Between two of its calls tables may be
ingested, snapshots stored and publications taken back. The rows that it pins are kept with the view
that they were found in, and a view that is there for one row of a table is taken for the next one.
So all the rows of one table are of one view, as long as any of them stays, whatever is published in
between, and outside of tick zero all the views are of the evaluator's tick.

Tick zero is different because a read of it is a read of whatever is the latest.
-/
import Scharnhorst.OneTick
import Scharnhorst.Prefetch
import Scharnhorst.ScopeJumps

set_option autoImplicit false

namespace Scharnhorst

/-! ## The other calls of an evaluator -/

/-- The stack is cleared. -/
def Scope.reset (_ : Scope) (table : String) (row : RowId) : Scope := { table, row, stack := [] }

namespace Evaluator

def scope_reset (ev : Evaluator) (table : String) (row : RowId) : Evaluator :=
  { ev with scope := ev.scope.reset table row }

def advance_tick (ev : Evaluator) (tick : Tick) : Evaluator :=
  { ev with cache := ev.cache.set_tick tick }

end Evaluator

/-! ## Calls in any order -/

inductive RuleCall where
  | Engine (op : EngineOp)
  | JumpTo (relation_name : String) (direction : JumpDirection)
    (row_ids : RowPositionMap → List RowId)
  | ScopePop
  | ScopeReset (table : String) (row : RowId)
  | AdvanceTick (tick : Tick)

/-- An engine with its books, and what an evaluator has beside it. -/
structure Workspace where
  followed : Followed
  scope : Scope
  cache : PrefetchCache

namespace Workspace

variable [Concat]

def new (schema_registry : SchemaRegistry) (scope : Scope) (capacity : Nat) : Workspace :=
  ⟨.new schema_registry, scope, .new capacity⟩

def engine (s : Workspace) : QueryEngine := s.followed.session.engine

def evaluator (s : Workspace) : Evaluator := ⟨.new s.engine, s.scope, s.cache⟩

/-- The engine is the evaluator's to read and not to write. -/
def moved (s : Workspace) (ev : Evaluator) : Workspace :=
  { s with scope := ev.scope, cache := ev.cache }

def step (s : Workspace) : RuleCall → Workspace
  | .Engine op => { s with followed := s.followed.step op }
  | .JumpTo relation_name direction row_ids =>
    s.moved (s.evaluator.jump_to row_ids relation_name direction).2
  | .ScopePop => s.moved s.evaluator.scope_pop.2
  | .ScopeReset table row => s.moved (s.evaluator.scope_reset table row)
  | .AdvanceTick tick => s.moved (s.evaluator.advance_tick tick)

def run (s : Workspace) (calls : List RuleCall) : Workspace := calls.foldl step s

/-- A table goes straight to the cache only in time. -/
def InTime (s : Workspace) : RuleCall → Prop
  | .Engine op => s.engine.InTime op
  | _ => True

/-- All along the calls. -/
def Timely : Workspace → List RuleCall → Prop
  | _, [] => True
  | s, call :: calls => s.InTime call ∧ Timely (s.step call) calls

end Workspace

/-! ## One read -/

theorem QueryEngine.read_single_table_ok {q : QueryEngine} {tick : Tick} {table : String}
    {view : TableReadView} (h : q.read_single_table tick table = .ok view) :
    (tick ≠ Tick.ZERO → q.latest_tick = tick)
      ∧ ∃ cached, q.view_cache.data[table]? = some cached
        ∧ (cached.table_name = table → view = cached) := by
  unfold QueryEngine.read_single_table QueryEngine.read at h
  rcases hread : q.view_cache.read with e | cache
  · simp [hread, bind, Except.bind] at h
  obtain rfl : q.view_cache.data = cache := (RwLock.read_ok.1 hread).2
  simp only [hread] at h
  split at h
  · simp [bind, Except.bind] at h
  rename_i htick
  refine ⟨fun hzero => ?_, ?_⟩
  · have hlatest : q.load_latest_tick = some tick := by
      by_contra hne
      exact htick ⟨hzero, hne⟩
    unfold QueryEngine.load_latest_tick at hlatest
    split at hlatest
    · cases hlatest
    · exact Option.some.inj hlatest
  · rcases hcached : q.view_cache.data[table]? with _ | cached
    · simp [QueryEngine.read_view, hcached, bind, Except.bind, Except.map] at h
    refine ⟨cached, rfl, fun hname => ?_⟩
    simpa [QueryEngine.read_view, hcached, bind, Except.bind, Except.map, pure, Except.pure,
      ReadResponse.get, hname, eq_comm] using h

/-! ## Pins -/

namespace PrefetchCache

variable {cache : PrefetchCache}

/-- Whatever is evicted, what is there after an insertion was there before or is the new row. -/
theorem mem_insert {row : CachedRow} {e : CacheKey × CacheEntry}
    (h : e ∈ (cache.insert row).entries) :
    e ∈ cache.entries ∨ e.1 = ⟨row.table, row.row_id⟩ ∧ e.2.row = row := by
  have hevicted : ∀ cache : PrefetchCache, e ∈ cache.evict_lru.entries → e ∈ cache.entries := by
    intro cache he
    unfold evict_lru at he
    split at he
    · exact he
    · exact (List.mem_filter.1 he).1
  rcases List.mem_cons.1 h with rfl | hrest
  · exact .inr ⟨rfl, rfl⟩
  · have hkept := (List.mem_filter.1 hrest).1
    split at hkept
    · exact .inl (hevicted cache hkept)
    · exact .inl hkept

theorem find_view_some {table : String} {tick : Tick} {view : TableReadView}
    (h : cache.find_view table tick = some view) :
    ∃ e ∈ cache.entries, e.2.row.table = table ∧ e.2.row.view = view := by
  obtain ⟨e, hfound, rfl⟩ := Option.map_eq_some_iff.1 h
  have hmatches := List.find?_some hfound
  simp only [decide_eq_true_eq] at hmatches
  exact ⟨e, List.mem_of_find?_eq_some hfound, hmatches.2, rfl⟩

theorem find_view_none {table : String} {tick : Tick} (h : cache.find_view table tick = none)
    {e : CacheKey × CacheEntry} (he : e ∈ cache.entries) (htick : e.2.row.tick = tick) :
    e.2.row.table ≠ table := by
  intro htable
  have hnot := List.find?_eq_none.1 (Option.map_eq_none_iff.1 h) e he
  exact hnot (decide_eq_true ⟨htick, htable⟩)

end PrefetchCache

/-! ## What a jump pins -/

namespace Evaluator

variable {ev : Evaluator}

/-- A view that is pinned comes from the cache, or it is read now, if the cache has none. -/
def Found (ev : Evaluator) (table : String) (view : TableReadView) : Prop :=
  ev.cache.find_view table ev.cache.current_tick = some view
    ∨ ev.cache.find_view table ev.cache.current_tick = none
      ∧ ev.query_engine.data.read_single_table ev.cache.current_tick table = .ok view

theorem pin_in_cache_found (ev : Evaluator) (row_id : RowId) :
    (ev.pin_in_cache row_id).2.cache = ev.cache
      ∨ ∃ view, ev.Found ev.scope.table view
        ∧ (ev.pin_in_cache row_id).2.cache
          = ev.cache.insert ⟨ev.cache.current_tick, ev.scope.table, row_id, view⟩ := by
  unfold pin_in_cache
  rcases hview : ev.cache.find_view ev.scope.table ev.cache.current_tick with _ | view
  · rcases hread : ev.query_engine.read with e | q
    · simp only [hview, true_or]
    obtain rfl : ev.query_engine.data = q := (RwLock.read_ok.1 hread).2
    rcases hone : ev.query_engine.data.read_single_table ev.cache.current_tick ev.scope.table
      with e | view
    · simp only [hview, hone, Except.mapError, true_or]
    · simp only [hview, hone, Except.mapError]
      exact .inr ⟨view, .inr ⟨hview, hone⟩, rfl⟩
  · simp only [hview]
    exact .inr ⟨view, .inl hview, rfl⟩

theorem jump_to_found (row_ids : RowPositionMap → List RowId) (relation_name : String)
    (direction : JumpDirection) (ev : Evaluator) :
    (ev.jump_to row_ids relation_name direction).2.cache = ev.cache
      ∨ ∃ table row_id view, ev.Found table view
        ∧ (ev.jump_to row_ids relation_name direction).2.cache
          = ev.cache.insert ⟨ev.cache.current_tick, table, row_id, view⟩ := by
  unfold jump_to
  split
  · exact .inl rfl
  split
  · exact .inl rfl
  rename_i edge hedge
  split
  · exact .inl rfl
  rename_i target_row htarget
  obtain hsame | ⟨view, hfound, hpinned⟩ := pin_in_cache_found
    { ev with scope := ev.scope.apply_jump edge direction target_row } target_row
  · exact .inl hsame
  · exact .inr ⟨_, target_row, view, hfound, hpinned⟩

end Evaluator

/-! ## What stays true -/

namespace Followed

variable [Concat] {q₀ : QueryEngine} {b : Followed}

/-- A view that readers see is of the table that it is under, and of the latest tick if that is
compared. -/
theorem Kept.named (h : Kept q₀ b) {name : String} {view : TableReadView}
    (hview : b.session.engine.view_cache.data[name]? = some view) : view.table_name = name
      ∧ (b.session.engine.latest_tick ≠ Tick.ZERO → view.tick = b.session.engine.latest_tick) := by
  have hissued := hview
  rw [h.shown.views name] at hissued
  obtain ⟨call, hcall, hof⟩ := Option.bind_eq_some_iff.1 hissued
  refine ⟨(QueryEngine.view_of_tick hof).2.trans (table_name_of_last_call hcall), fun hzero => ?_⟩
  rcases h.shown.fresh with hfresh | hall
  · exact absurd hfresh hzero
  · exact hall name view hview

end Followed

namespace Workspace

variable [Concat] {q₀ : QueryEngine} {s : Workspace}

/-- A pinned row, with the views that readers have been shown since the start. -/
structure Coherent (shown : String → TableReadView → Prop) (cache : PrefetchCache)
    (e : CacheKey × CacheEntry) : Prop where
  key : e.1 = ⟨e.2.row.table, e.2.row.row_id⟩
  current : e.2.row.tick = cache.current_tick
  table : e.2.row.view.table_name = e.2.row.table
  tick : cache.current_tick ≠ Tick.ZERO → e.2.row.view.tick = cache.current_tick
  shown : shown e.2.row.table e.2.row.view

/-- And all the rows of one table have one view. -/
structure Pinned (shown : String → TableReadView → Prop) (cache : PrefetchCache) : Prop where
  rows : ∀ e ∈ cache.entries, Coherent shown cache e
  shared : ∀ e ∈ cache.entries, ∀ e' ∈ cache.entries,
    e.2.row.table = e'.2.row.table → e.2.row.view = e'.2.row.view

section Pinned

omit [Concat]

variable {shown shown' : String → TableReadView → Prop} {cache : PrefetchCache}

theorem Pinned.mono (h : Pinned shown cache)
    (hmono : ∀ table view, shown table view → shown' table view) : Pinned shown' cache where
  rows e he := { h.rows e he with shown := hmono _ _ (h.rows e he).shown }
  shared := h.shared

theorem Pinned.set_tick (h : Pinned shown cache) (tick : Tick) :
    Pinned shown (cache.set_tick tick) := by
  unfold PrefetchCache.set_tick
  split
  · exact ⟨nofun, nofun⟩
  · exact h

/-- A row more, with the view that is there for its table, or with a view for a table that has
none. -/
theorem Pinned.insert (h : Pinned shown cache) {table : String} {row_id : RowId}
    {view : TableReadView} (hview : cache.find_view table cache.current_tick = some view
      ∨ cache.find_view table cache.current_tick = none ∧ view.table_name = table
        ∧ (cache.current_tick ≠ Tick.ZERO → view.tick = cache.current_tick) ∧ shown table view) :
    Pinned shown (cache.insert ⟨cache.current_tick, table, row_id, view⟩) := by
  -- what is new has the view of the rows that are there
  have hsame : ∀ e ∈ cache.entries, e.2.row.table = table → e.2.row.view = view := by
    intro e he htable
    rcases hview with hsome | ⟨hnone, -⟩
    · obtain ⟨e₀, he₀, htable₀, rfl⟩ := PrefetchCache.find_view_some hsome
      exact h.shared e he e₀ he₀ (htable.trans htable₀.symm)
    · exact absurd htable (PrefetchCache.find_view_none hnone he (h.rows e he).current)
  have hnew : view.table_name = table
      ∧ (cache.current_tick ≠ Tick.ZERO → view.tick = cache.current_tick) ∧ shown table view := by
    rcases hview with hsome | ⟨-, hread⟩
    · obtain ⟨e₀, he₀, rfl, rfl⟩ := PrefetchCache.find_view_some hsome
      exact ⟨(h.rows e₀ he₀).table, (h.rows e₀ he₀).tick, (h.rows e₀ he₀).shown⟩
    · exact hread
  refine ⟨fun e he => ?_, fun e he e' he' htable => ?_⟩
  · rcases PrefetchCache.mem_insert he with hold | ⟨hkey, hrow⟩
    · obtain ⟨hkey, hcurrent, hnamed, htick, hshown⟩ := h.rows e hold
      exact ⟨hkey, by rw [tick_insert]; exact hcurrent, hnamed, by rw [tick_insert]; exact htick,
        hshown⟩
    · refine ⟨by rw [hkey, hrow], ?_, ?_, ?_, ?_⟩
      · rw [tick_insert, hrow]
      · rw [hrow]
        exact hnew.1
      · rw [tick_insert, hrow]
        exact hnew.2.1
      · rw [hrow]
        exact hnew.2.2
  · rcases PrefetchCache.mem_insert he with hold | ⟨-, hrow⟩ <;>
      rcases PrefetchCache.mem_insert he' with hold' | ⟨-, hrow'⟩
    · exact h.shared e hold e' hold' htable
    · rw [hrow'] at htable ⊢
      exact hsame e hold htable
    · rw [hrow] at htable ⊢
      exact (hsame e' hold' htable.symm).symm
    · rw [hrow, hrow']

end Pinned

/-- The views that the engine has shown at some point of the calls. -/
def Shown (start : Workspace) (calls : List RuleCall) (table : String) (view : TableReadView) :
    Prop :=
  ∃ before after, calls = before ++ after
    ∧ (start.run before).engine.view_cache.data[table]? = some view

theorem Shown.append {start : Workspace} {calls : List RuleCall} {table : String}
    {view : TableReadView} (h : Shown start calls table view) (more : List RuleCall) :
    Shown start (calls ++ more) table view := by
  obtain ⟨before, after, rfl, hview⟩ := h
  exact ⟨before, after ++ more, List.append_assoc _ _ _, hview⟩

/-- A call more. -/
theorem Pinned.step {start : Workspace} {calls : List RuleCall} {call : RuleCall}
    (hkept : s.followed.Kept q₀) (hrun : s = start.run calls)
    (h : Pinned (Shown start calls) s.cache) :
    Pinned (Shown start (calls ++ [call])) (s.step call).cache := by
  have hmore := h.mono fun table view hshown => hshown.append [call]
  cases call with
  | Engine op => exact hmore
  | ScopePop => exact hmore
  | ScopeReset table row => exact hmore
  | AdvanceTick tick => exact hmore.set_tick tick
  | JumpTo relation_name direction row_ids =>
    obtain hsame | ⟨table, row_id, view, hfound, hpinned⟩ :=
      Evaluator.jump_to_found row_ids relation_name direction s.evaluator
    · change Pinned _ (s.evaluator.jump_to row_ids relation_name direction).2.cache
      rw [hsame]
      exact hmore
    · change Pinned _ (s.evaluator.jump_to row_ids relation_name direction).2.cache
      rw [hpinned]
      refine hmore.insert (hfound.imp_right fun ⟨hnone, hread⟩ => ⟨hnone, ?_⟩)
      -- the view is read from the engine as the calls so far have left it
      obtain ⟨hlatest, cached, hcached, hview⟩ := QueryEngine.read_single_table_ok hread
      obtain ⟨hname, htick⟩ := hkept.named hcached
      obtain rfl := hview hname
      refine ⟨hname, fun hzero => ?_, calls, [_], rfl, hrun ▸ hcached⟩
      have hsame : s.followed.session.engine.latest_tick = s.cache.current_tick := hlatest hzero
      rw [hsame] at htick
      exact htick hzero

theorem Pinned.run {start : Workspace} {done : List RuleCall} (calls : List RuleCall)
    (hkept : (start.run done).followed.Kept q₀)
    (h : Pinned (Shown start done) (start.run done).cache)
    (htimely : (start.run done).Timely calls) :
    Pinned (Shown start (done ++ calls)) (start.run (done ++ calls)).cache := by
  induction calls generalizing done with
  | nil =>
      rw [List.append_nil]
      exact h
  | cons call calls ih =>
      have hstep : (start.run done).step call = start.run (done ++ [call]) := by
        simp only [Workspace.run, List.foldl_append, List.foldl_cons, List.foldl_nil]
      have hkept' : (start.run (done ++ [call])).followed.Kept q₀ := by
        rw [← hstep]
        cases call with
        | Engine op => exact hkept.step htimely.1
        | ScopePop | ScopeReset _ _ | AdvanceTick _ | JumpTo _ _ _ => exact hkept
      have hpinned : Pinned (Shown start (done ++ [call])) ((start.run done).step call).cache :=
        h.step hkept rfl
      rw [hstep] at hpinned
      have hrest := htimely.2
      rw [hstep] at hrest
      rw [List.append_cons]
      exact ih hkept' hpinned hrest

end Workspace

/-! ## A lord who stays pinned -/

namespace Workspace

section Lords

open Evaluator

attribute [local instance] QueryEngine.no_merge

/-- Both tables are published at tick 1, a rule goes from the barony to its lord, and the lords are
published again at tick 2. -/
def lord_calls : List RuleCall :=
  [.Engine .BeginIngest, .Engine (.Call (.Ingest ⟨1, "lord", [lords], lord_rows⟩)),
    .Engine (.Call (.Ingest ⟨1, "barony", [baronies], barony_rows⟩)),
    .Engine (.Call (.Store (.new 1))), .AdvanceTick 1, .ScopeReset "barony" 1,
    .JumpTo "barony -> lord" .Forward (first_row 0), .Engine .BeginIngest,
    .Engine (.Call (.Ingest ⟨2, "lord", [lords], lord_rows⟩)), .Engine (.Call (.Store (.new 2)))]

end Lords

end Workspace

end Scharnhorst
