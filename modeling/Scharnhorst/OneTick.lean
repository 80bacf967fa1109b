/-
Reads are of one tick.

A read compares the tick that it is asked for with one number, the latest tick, and then takes
each view out of the cache, whatever tick the view is of. Views that are published together are
all of the snapshot's tick. But a table that is ingested with no ingest begun goes straight to
the cache and moves the latest tick, and the views of the other tables stay what they were.

The books beside the engine say which calls of `ingest_snapshot` have brought what readers see.
-/
import Scharnhorst.QuerySpec
import Scharnhorst.Reads

set_option autoImplicit false

namespace Scharnhorst

open Attempt Maps

/-! ## A session -/

inductive EngineOp where
  | BeginIngest
  | Call (op : IngestOp)
  | Rollback (handle : Nat)

/-- An engine, and the handles that `begin_ingest` has given out. -/
structure Session where
  engine : QueryEngine
  handles : List QueryEngine.QueryEngineIngestRollback

/-- Whether an operation goes through, and what it leaves. -/
def Session.perform [Concat] (s : Session) : EngineOp → Bool × Session
  | .BeginIngest =>
    match s.engine.begin_ingest with
    | (.error _, engine) => (false, { s with engine })
    | (.ok saved, engine) => (true, { engine, handles := s.handles ++ [saved] })
  | .Call op =>
    match s.engine.ingest_op op with
    | (.error _, engine) => (false, { s with engine })
    | (.ok (), engine) => (true, { s with engine })
  | .Rollback handle =>
    match s.handles[handle]? with
    | none => (false, s)
    | some saved =>
      match s.engine.rollback saved with
      | (.error _, engine) => (false, { s with engine })
      | (.ok (), engine) => (true, { s with engine })

/-! ## The books -/

/-- The calls that have brought what readers see, those of the ingest under way, and what was
shown when each handle was given out. -/
structure Books where
  shown : List IngestCall
  staging : Option (List IngestCall)
  saved : List (List IngestCall)

/-- An operation that went through. -/
def Books.note (b : Books) : EngineOp → Books
  | .BeginIngest => { b with staging := some [], saved := b.saved ++ [b.shown] }
  | .Call (.Ingest call) =>
    match b.staging with
    | some calls => { b with staging := some (calls ++ [call]) }
    | none => { b with shown := b.shown ++ [call] }
  | .Call (.Store _) =>
    match b.staging with
    | some calls => { b with shown := calls, staging := none }
    | none => b
  | .Rollback handle => { b with shown := b.saved[handle]?.getD b.shown, staging := none }

structure Followed where
  session : Session
  books : Books

namespace Followed

def new (schema_registry : SchemaRegistry) : Followed :=
  ⟨⟨.new schema_registry, []⟩, ⟨[], none, []⟩⟩

def step [Concat] (b : Followed) (op : EngineOp) : Followed :=
  let (ok, session) := b.session.perform op
  { session, books := if ok then b.books.note op else b.books }

/-- A property of a state and of all that a run leads to. -/
def Throughout [Concat] (P : Followed → Prop) : Followed → List EngineOp → Prop
  | b, [] => P b
  | b, op :: ops => P b ∧ Throughout P (b.step op) ops

end Followed

/-- The last call for a table. -/
def last_call (calls : List IngestCall) (name : String) : Option IngestCall :=
  (calls.filter fun call => call.table_name = name).getLast?

theorem last_call_append (calls : List IngestCall) (call : IngestCall) (name : String) :
    last_call (calls ++ [call]) name
      = if call.table_name = name then some call else last_call calls name := by
  unfold last_call
  by_cases h : call.table_name = name
  · rw [if_pos h, List.filter_append, List.filter_cons_of_pos (by simpa using h),
      List.filter_nil, List.getLast?_concat]
  · rw [if_neg h, List.filter_append, List.filter_cons_of_neg (by simpa using h),
      List.filter_nil, List.append_nil]

/-- A call is one for its table. -/
theorem table_name_of_last_call {calls : List IngestCall} {name : String} {call : IngestCall}
    (h : last_call calls name = some call) : call.table_name = name :=
  of_decide_eq_true (List.mem_filter.1 (List.mem_of_getLast? h)).2

/-- Every read of a tick is of that tick, and each of its tables is as the last call for it
has brought it. -/
def Followed.OneTick [Concat] (b : Followed) : Prop :=
  ∀ request response, request.tick ≠ Tick.ZERO → b.session.engine.read request = .ok response →
    (∀ (name : String) (view : TableReadView),
      response.views[name]? = some view → view.tick = request.tick)
    ∧ ∀ name ∈ request.table_names, ∃ call view,
      last_call b.books.shown name = some call ∧ call.tick = request.tick
        ∧ b.session.engine.view_of call = some view ∧ response.get name = .ok view

/-! ## The condition -/

/-- A table that goes straight to the cache, known and of a tick that is not the sentinel, is
of tick zero, which no read compares, or every other table in the cache is of its tick. -/
def QueryEngine.InTime [Concat] (q : QueryEngine) : EngineOp → Prop
  | .Call (.Ingest call) =>
    q.pending_ingest.data = none → (q.view_of call).isSome → call.tick ≠ u64_MAX →
      call.tick = Tick.ZERO
        ∨ ∀ (name : String) (view : TableReadView), q.view_cache.data[name]? = some view →
          name ≠ call.table_name → view.tick = call.tick
  | _ => True

/-- Every operation of a run meets it. -/
def Followed.Timely [Concat] : Followed → List EngineOp → Prop
  | _, [] => True
  | b, op :: ops => b.session.engine.InTime op ∧ Timely (b.step op) ops

/-! ## One operation -/

namespace QueryEngine

section Idle

variable {q : QueryEngine}

/-- A table ingested while no ingest is active: refused, or in the cache. -/
theorem ingest_snapshot_idle [Concat] (hready : q.Ready) (hidle : q.pending_ingest.data = none)
    (call : IngestCall) :
    (∃ e, q.ingest_op (.Ingest call) = (.error e, q)
        ∧ (q.view_of call = none ∨ call.tick = u64_MAX))
      ∨ ∃ view, q.view_of call = some view ∧ call.tick ≠ u64_MAX
        ∧ q.ingest_op (.Ingest call) = (.ok (),
          { q with
            view_cache := q.view_cache.set (q.view_cache.data.insert call.table_name view)
            latest_tick := call.tick }) := by
  have hread : q.pending_ingest.read = .ok none := by
    rw [RwLock.read_healthy hready.pending_ingest, hidle]
  have hcache := RwLock.read_healthy hready.view_cache
  simp only [ingest_op, ingest_snapshot, view_of]
  rcases hcheck : check_sentinel call.tick with e | ⟨⟩
  · refine .inl ⟨e, by simp [bind, Except.bind], .inr ?_⟩
    by_contra hne
    simp [check_sentinel, hne] at hcheck
  have hne : call.tick ≠ u64_MAX := by
    intro h
    simp [check_sentinel, h] at hcheck
  rcases hs : q.table_schema call.table_name with e | schema
  · exact .inl ⟨e, by simp [bind, Except.bind], .inl rfl⟩
  · exact .inr ⟨_, rfl, hne, by simp [bind, Except.bind, hread, hcache]⟩

/-- A snapshot stored then: refused, or beside the cache. -/
theorem store_world_snapshot_idle (hready : q.Ready) (hidle : q.pending_ingest.data = none)
    (snapshot : WorldSnapshot) :
    (∃ e, q.store_world_snapshot snapshot = (.error e, q))
      ∨ q.store_world_snapshot snapshot = (.ok (),
          { q with
            pending_ingest := q.pending_ingest.set none
            latest_snapshot := q.latest_snapshot.set (some snapshot) }) := by
  have hread : q.pending_ingest.read = .ok none := by
    rw [RwLock.read_healthy hready.pending_ingest, hidle]
  unfold store_world_snapshot
  rcases check_sentinel snapshot.tick with e | ⟨⟩
  · exact .inl ⟨e, rfl⟩
  · refine .inr ?_
    simp [hread, publish, RwLock.read_healthy hready.latest_snapshot]

theorem view_of_congr [Concat] {q' : QueryEngine} (h : q'.schema_registry = q.schema_registry) :
    q'.view_of = q.view_of := by
  funext call
  simp only [view_of, table_schema, h]

theorem view_of_tick [Concat] {call : IngestCall} {view : TableReadView}
    (h : q.view_of call = some view) : view.tick = call.tick ∧ view.table_name = call.table_name := by
  obtain ⟨schema, -, rfl⟩ := Option.map_eq_some_iff.1 h
  exact ⟨rfl, rfl⟩

theorem rollback_ready (hready : q.Ready) (saved : QueryEngineIngestRollback) :
    q.rollback saved = (.ok (),
      { q with
        view_cache := q.view_cache.set saved.saved_cache
        latest_snapshot := q.latest_snapshot.set saved.saved_snapshot
        pending_ingest := q.pending_ingest.set none
        latest_tick := saved.saved_tick }) := by
  simp [rollback, RwLock.read_healthy hready.view_cache,
    RwLock.read_healthy hready.latest_snapshot, RwLock.read_healthy hready.pending_ingest]

end Idle

end QueryEngine

/-! ## What a run keeps -/

/-- The views of a cache are those of the last calls, and they are of the latest tick. -/
structure Issue [Concat] (q₀ : QueryEngine) (calls : List IngestCall)
    (cache : Map String TableReadView) (tick : Nat) : Prop where
  views : ∀ name : String, cache[name]? = (last_call calls name).bind q₀.view_of
  fresh : tick = Tick.ZERO
    ∨ ∀ (name : String) (view : TableReadView), cache[name]? = some view → view.tick = tick

/-- And those of a staging area, which are of the tick that it has. -/
structure Draft [Concat] (q₀ : QueryEngine) (calls : List IngestCall)
    (state : PendingSnapshotIngest) : Prop where
  views : ∀ name : String, state.views[name]? = (last_call calls name).bind q₀.view_of
  tick : ∀ (name : String) (view : TableReadView),
    state.views[name]? = some view → state.tick = some view.tick

/-- One more call. -/
theorem views_insert [Concat] {q₀ : QueryEngine} {calls : List IngestCall}
    {views : Map String TableReadView} {call : IngestCall} {view : TableReadView}
    (h : ∀ name : String, views[name]? = (last_call calls name).bind q₀.view_of)
    (hview : q₀.view_of call = some view) (name : String) :
    (views.insert call.table_name view)[name]?
      = (last_call (calls ++ [call]) name).bind q₀.view_of := by
  rw [Std.ExtTreeMap.getElem?_insert, last_call_append]
  by_cases hname : call.table_name = name
  · rw [if_pos (by simpa using hname), if_pos hname, Option.bind_some, hview]
  · rw [if_neg (by simpa using hname), if_neg hname, h name]

/-- A call that goes straight to the cache and is in time. -/
theorem Issue.ingest [Concat] {q₀ : QueryEngine} {calls : List IngestCall}
    {cache : Map String TableReadView} {tick : Nat} {call : IngestCall} {view : TableReadView}
    (h : Issue q₀ calls cache tick) (hview : q₀.view_of call = some view)
    (hfresh : call.tick = Tick.ZERO ∨ ∀ (name : String) (view : TableReadView),
      cache[name]? = some view → name ≠ call.table_name → view.tick = call.tick) :
    Issue q₀ (calls ++ [call]) (cache.insert call.table_name view) call.tick := by
  refine ⟨views_insert h.views hview, hfresh.imp id fun hother name v hv => ?_⟩
  rw [Std.ExtTreeMap.getElem?_insert] at hv
  by_cases hname : call.table_name = name
  · rw [if_pos (by simpa using hname)] at hv
    obtain rfl := Option.some.inj hv
    exact (QueryEngine.view_of_tick hview).1
  · rw [if_neg (by simpa using hname)] at hv
    exact hother name v hv fun heq => hname heq.symm

/-- A call that goes to the staging area, which has no tick yet or that of the call. -/
theorem Draft.ingest [Concat] {q₀ : QueryEngine} {calls : List IngestCall}
    {state : PendingSnapshotIngest} {call : IngestCall} {view : TableReadView}
    (h : Draft q₀ calls state) (hview : q₀.view_of call = some view)
    (htick : state.tick = none ∨ state.tick = some call.tick) :
    Draft q₀ (calls ++ [call])
      { tick := some call.tick, views := state.views.insert call.table_name view } := by
  refine ⟨views_insert h.views hview, fun name v hv => ?_⟩
  rw [Std.ExtTreeMap.getElem?_insert] at hv
  by_cases hname : call.table_name = name
  · rw [if_pos (by simpa using hname)] at hv
    obtain rfl := Option.some.inj hv
    rw [(QueryEngine.view_of_tick hview).1]
  · rw [if_neg (by simpa using hname)] at hv
    have hmine := h.tick name v hv
    rcases htick with hnone | hsome
    · rw [hnone] at hmine
      cases hmine
    · rw [← hsome, hmine]

namespace Followed

variable [Concat] {q₀ : QueryEngine} {b : Followed}

/-- The books agree with the engine and with its handles. -/
structure Kept (q₀ : QueryEngine) (b : Followed) : Prop where
  ready : b.session.engine.Ready
  registry : b.session.engine.schema_registry = q₀.schema_registry
  shown : Issue q₀ b.books.shown b.session.engine.view_cache.data b.session.engine.latest_tick
  pending : b.session.engine.pending_ingest.data = none ∧ b.books.staging = none
    ∨ ∃ state calls, b.session.engine.pending_ingest.data = some state
      ∧ b.books.staging = some calls ∧ Draft q₀ calls state
  given : b.books.saved.length = b.session.handles.length
  saved : ∀ (n : Nat) (handle : QueryEngine.QueryEngineIngestRollback),
    b.session.handles[n]? = some handle → ∃ calls, b.books.saved[n]? = some calls
      ∧ Issue q₀ calls handle.saved_cache handle.saved_tick

theorem Kept.new (schema_registry : SchemaRegistry) :
    Kept (.new schema_registry) (.new schema_registry) where
  ready := ⟨rfl, rfl, rfl⟩
  registry := rfl
  shown := ⟨fun _ => rfl, .inr fun name view h => by simp [Followed.new, QueryEngine.new, RwLock.new] at h⟩
  pending := .inl ⟨rfl, rfl⟩
  given := rfl
  saved n handle h := by simp [Followed.new] at h

theorem Kept.view_of (h : Kept q₀ b) : b.session.engine.view_of = q₀.view_of :=
  QueryEngine.view_of_congr h.registry

/-- A refused operation changes nothing. -/
theorem step_refused {op : EngineOp} (h : b.session.perform op = (false, b.session)) :
    b.step op = b := by
  simp only [step, h]
  rfl

/-- A handle more. -/
theorem Kept.begin_ingest (h : Kept q₀ b) : Kept q₀ (b.step .BeginIngest) := by
  rcases hbegin : b.session.engine.begin_ingest with ⟨e | saved, q⟩
  · obtain rfl := QueryEngine.begin_ingest_error hbegin
    rw [step_refused (by simp only [Session.perform, hbegin])]
    exact h
  obtain ⟨⟨hc, hs, hp⟩, -, rfl, rfl⟩ := QueryEngine.begin_ingest_ok.1 hbegin
  have hstep : b.step .BeginIngest = ⟨⟨b.session.engine.stage .new, b.session.handles
      ++ [⟨b.session.engine.view_cache.data, b.session.engine.latest_tick,
        b.session.engine.latest_snapshot.data⟩]⟩, b.books.note .BeginIngest⟩ := by
    simp only [step, Session.perform, hbegin]
    rfl
  rw [hstep]
  refine ⟨⟨hc, hs, hp⟩, h.registry, h.shown, .inr ⟨.new, [], rfl, rfl, ?_⟩, ?_, ?_⟩
  · exact ⟨fun _ => rfl, fun name view hview => by simp [PendingSnapshotIngest.new] at hview⟩
  · simp [Books.note, h.given]
  · intro n handle hn
    simp only [Books.note, List.getElem?_append, h.given] at hn ⊢
    by_cases hlt : n < b.session.handles.length
    · rw [if_pos hlt] at hn ⊢
      exact h.saved n handle hn
    · rw [if_neg hlt] at hn ⊢
      -- the last handle is the one that is given out now
      rw [List.getElem?_singleton] at hn ⊢
      by_cases hlast : n - b.session.handles.length = 0
      · rw [if_pos hlast] at hn ⊢
        obtain rfl := Option.some.inj hn
        exact ⟨_, rfl, h.shown⟩
      · rw [if_neg hlast] at hn
        cases hn

/-- A table more, in time if it goes straight to the cache. -/
theorem Kept.ingest (h : Kept q₀ b) {call : IngestCall}
    (htime : b.session.engine.InTime (.Call (.Ingest call))) :
    Kept q₀ (b.step (.Call (.Ingest call))) := by
  obtain ⟨hc, hs, hp⟩ := h.ready
  -- straight to the cache, or to the staging area of the ingest under way
  rcases h.pending with ⟨hidle, hnone⟩ | ⟨state, calls, hstate, hcalls, hdraft⟩
  · rcases QueryEngine.ingest_snapshot_idle h.ready hidle call with
      ⟨e, he, -⟩ | ⟨view, hview, htick, hok⟩
    · rw [step_refused (by simp only [Session.perform, he])]
      exact h
    have hstep : b.step (.Call (.Ingest call)) =
        ⟨⟨{ b.session.engine with
            view_cache := b.session.engine.view_cache.set
              (b.session.engine.view_cache.data.insert call.table_name view)
            latest_tick := call.tick }, b.session.handles⟩,
          { b.books with shown := b.books.shown ++ [call] }⟩ := by
      simp only [step, Session.perform, hok, Books.note, hnone]
      rfl
    have hfresh := htime hidle (by rw [hview]; rfl) htick
    rw [h.view_of] at hview
    rw [hstep]
    exact ⟨⟨hc, hs, hp⟩, h.registry, h.shown.ingest hview hfresh, .inl ⟨hidle, hnone⟩, h.given,
      h.saved⟩
  · rcases QueryEngine.ingest_snapshot_staged h.ready hstate call with
      ⟨e, he⟩ | ⟨view, hview, htick, hok⟩
    · rw [step_refused (by simp only [Session.perform, he])]
      exact h
    have hstep : b.step (.Call (.Ingest call)) =
        ⟨⟨b.session.engine.stage
            { tick := some call.tick, views := state.views.insert call.table_name view },
          b.session.handles⟩, { b.books with staging := some (calls ++ [call]) }⟩ := by
      simp only [step, Session.perform, hok, Books.note, hcalls]
      rfl
    rw [h.view_of] at hview
    rw [hstep]
    exact ⟨⟨hc, hs, hp⟩, h.registry, h.shown, .inr ⟨_, _, rfl, rfl, hdraft.ingest hview htick⟩,
      h.given, h.saved⟩

/-- A snapshot, with what is staged or without. -/
theorem Kept.store (h : Kept q₀ b) (snapshot : WorldSnapshot) :
    Kept q₀ (b.step (.Call (.Store snapshot))) := by
  obtain ⟨hc, hs, hp⟩ := h.ready
  -- without an ingest the views stay; with one, all that is staged is shown at once
  rcases h.pending with ⟨hidle, hnone⟩ | ⟨state, calls, hstate, hcalls, hdraft⟩
  · rcases QueryEngine.store_world_snapshot_idle h.ready hidle snapshot with ⟨e, he⟩ | hok
    · rw [step_refused (by simp only [Session.perform, QueryEngine.ingest_op, he])]
      exact h
    have hstep : b.step (.Call (.Store snapshot)) =
        ⟨⟨{ b.session.engine with
            pending_ingest := b.session.engine.pending_ingest.set none
            latest_snapshot := b.session.engine.latest_snapshot.set (some snapshot) },
          b.session.handles⟩, b.books⟩ := by
      simp only [step, Session.perform, QueryEngine.ingest_op, hok, Books.note, hnone]
      rfl
    rw [hstep]
    exact ⟨⟨hc, hs, hp⟩, h.registry, h.shown, .inl ⟨rfl, hnone⟩, h.given, h.saved⟩
  · rcases QueryEngine.store_world_snapshot_staged h.ready hstate snapshot with
      ⟨e, he⟩ | ⟨htick, hok⟩
    · rw [step_refused (by simp only [Session.perform, QueryEngine.ingest_op, he])]
      exact h
    have hstep : b.step (.Call (.Store snapshot)) =
        ⟨⟨{ b.session.engine with
            pending_ingest := b.session.engine.pending_ingest.set none
            view_cache := b.session.engine.view_cache.set state.views
            latest_snapshot := b.session.engine.latest_snapshot.set (some snapshot)
            latest_tick := snapshot.tick }, b.session.handles⟩,
          { b.books with shown := calls, staging := none }⟩ := by
      simp only [step, Session.perform, QueryEngine.ingest_op, hok, Books.note, hcalls]
      rfl
    rw [hstep]
    refine ⟨⟨hc, hs, hp⟩, h.registry, ⟨hdraft.views, .inr fun name v hv => ?_⟩,
      .inl ⟨rfl, rfl⟩, h.given, h.saved⟩
    have hmine := hdraft.tick name v hv
    rcases htick with hnone | hsome
    · rw [hnone] at hmine
      cases hmine
    · exact Option.some.inj (hmine.symm.trans hsome)

/-- What was shown when the handle was given out. -/
theorem Kept.rollback (h : Kept q₀ b) (handle : Nat) : Kept q₀ (b.step (.Rollback handle)) := by
  obtain ⟨hc, hs, hp⟩ := h.ready
  rcases hhandle : b.session.handles[handle]? with _ | saved
  · rw [step_refused (by simp only [Session.perform, hhandle])]
    exact h
  obtain ⟨calls, hcalls, hissue⟩ := h.saved handle saved hhandle
  have hback := QueryEngine.rollback_ready h.ready saved
  have hstep : b.step (.Rollback handle) =
      ⟨⟨{ b.session.engine with
          view_cache := b.session.engine.view_cache.set saved.saved_cache
          latest_snapshot := b.session.engine.latest_snapshot.set saved.saved_snapshot
          pending_ingest := b.session.engine.pending_ingest.set none
          latest_tick := saved.saved_tick }, b.session.handles⟩,
        { b.books with shown := calls, staging := none }⟩ := by
    simp only [step, Session.perform, hhandle, hback, Books.note, hcalls]
    rfl
  rw [hstep]
  exact ⟨⟨hc, hs, hp⟩, h.registry, hissue, .inl ⟨rfl, rfl⟩, h.given, h.saved⟩

theorem Kept.step (h : Kept q₀ b) {op : EngineOp} (htime : b.session.engine.InTime op) :
    Kept q₀ (b.step op) := by
  cases op with
  | BeginIngest => exact h.begin_ingest
  | Rollback handle => exact h.rollback handle
  | Call op =>
      cases op with
      | Ingest call => exact h.ingest htime
      | Store snapshot => exact h.store snapshot

/-! ## Reads -/

omit [Concat] in
/-- The loop of a read, over a cache whose views stand under their own names. -/
theorem read_views {cache : Map String TableReadView}
    (hkeys : ∀ (name : String) (view : TableReadView),
      cache[name]? = some view → view.table_name = name) {names : List String}
    {views views' : Map String TableReadView}
    (h : names.foldlM (QueryEngine.read_view cache) views = .ok views') :
    (∀ name ∈ names, ∃ view, cache[name]? = some view)
      ∧ ∀ name : String, views'[name]? = if name ∈ names then cache[name]? else views[name]? := by
  induction names generalizing views with
  | nil =>
      obtain rfl := Except.ok.inj h
      exact ⟨fun name hname => absurd hname List.not_mem_nil, fun name => by simp⟩
  | cons first names ih =>
      rw [List.foldlM_cons] at h
      rcases hfirst : cache[first]? with _ | view
      · simp [QueryEngine.read_view, hfirst, bind, Except.bind] at h
      simp only [QueryEngine.read_view, hfirst, bind, Except.bind, hkeys first view hfirst] at h
      obtain ⟨hall, hviews⟩ := ih h
      refine ⟨fun name hname => ?_, fun name => ?_⟩
      · rcases List.mem_cons.1 hname with rfl | hrest
        · exact ⟨view, hfirst⟩
        · exact hall name hrest
      · rw [hviews name, Std.ExtTreeMap.getElem?_insert]
        by_cases hrest : name ∈ names
        · rw [if_pos hrest, if_pos (List.mem_cons_of_mem _ hrest)]
        · rw [if_neg hrest]
          by_cases hname : first = name
          · rw [if_pos (by simpa using hname), if_pos (hname ▸ List.mem_cons_self), ← hname, hfirst]
          · rw [if_neg (by simpa using hname), if_neg fun hmem => ?_]
            rcases List.mem_cons.1 hmem with heq | hmem
            · exact hname heq.symm
            · exact hrest hmem

omit [Concat] in
/-- A read of a tick goes through at that tick. -/
theorem read_ok {q : QueryEngine} {request : ReadRequest} {response : ReadResponse}
    (htick : request.tick ≠ Tick.ZERO) (h : q.read request = .ok response) :
    q.latest_tick = request.tick
      ∧ request.table_names.foldlM (QueryEngine.read_view q.view_cache.data) ∅
        = .ok response.views := by
  unfold QueryEngine.read at h
  rcases hread : q.view_cache.read with e | cache
  · rw [hread] at h
    cases h
  obtain rfl : q.view_cache.data = cache := (RwLock.read_ok.1 hread).2
  simp only [hread] at h
  by_cases hmismatch : q.load_latest_tick = some request.tick
  · rw [if_neg fun hboth => hboth.2 hmismatch] at h
    rcases hviews : request.table_names.foldlM (QueryEngine.read_view q.view_cache.data) ∅
      with e | views
    · rw [hviews] at h
      cases h
    rw [hviews] at h
    obtain rfl := Except.ok.inj h
    refine ⟨?_, rfl⟩
    unfold QueryEngine.load_latest_tick at hmismatch
    split at hmismatch
    · cases hmismatch
    · exact Option.some.inj hmismatch
  · rw [if_pos ⟨htick, hmismatch⟩] at h
    cases h

theorem Kept.one_tick (h : Kept q₀ b) : b.OneTick := by
  intro request response htick hread
  obtain ⟨hlatest, hfold⟩ := read_ok htick hread
  -- the views of the cache are of the latest tick, which is the one that was asked for
  have hfresh : ∀ (name : String) (view : TableReadView),
      b.session.engine.view_cache.data[name]? = some view → view.tick = request.tick := by
    intro name view hview
    rcases h.shown.fresh with hzero | hall
    · exact absurd (hlatest.symm.trans hzero) htick
    · exact (hall name view hview).trans hlatest
  have hcalls : ∀ (name : String) (view : TableReadView),
      b.session.engine.view_cache.data[name]? = some view →
        ∃ call, last_call b.books.shown name = some call ∧ q₀.view_of call = some view := by
    intro name view hview
    rw [h.shown.views name] at hview
    exact Option.bind_eq_some_iff.1 hview
  have hkeys : ∀ (name : String) (view : TableReadView),
      b.session.engine.view_cache.data[name]? = some view → view.table_name = name := by
    intro name view hview
    obtain ⟨call, hcall, hview⟩ := hcalls name view hview
    exact (QueryEngine.view_of_tick hview).2.trans (table_name_of_last_call hcall)
  obtain ⟨hall, hviews⟩ := read_views hkeys hfold
  refine ⟨fun name view hview => ?_, fun name hname => ?_⟩
  · rw [hviews name] at hview
    by_cases hname : name ∈ request.table_names
    · rw [if_pos hname] at hview
      exact hfresh name view hview
    · rw [if_neg hname] at hview
      simp at hview
  · obtain ⟨view, hview⟩ := hall name hname
    obtain ⟨call, hcall, hof⟩ := hcalls name view hview
    refine ⟨call, view, hcall, ?_, by rw [h.view_of]; exact hof, ?_⟩
    · exact (QueryEngine.view_of_tick hof).1.symm.trans (hfresh name view hview)
    · unfold ReadResponse.get
      rw [hviews name, if_pos hname, hview]

/-- A table that comes out of time shows in a read of another one. -/
theorem Kept.in_time (h : Kept q₀ b) {op : EngineOp} (hone : (b.step op).OneTick) :
    b.session.engine.InTime op := by
  match op with
  | .BeginIngest => trivial
  | .Rollback handle => trivial
  | .Call (.Store snapshot) => trivial
  | .Call (.Ingest call) =>
    intro hidle hknown htick
    rcases QueryEngine.ingest_snapshot_idle h.ready hidle call with
      ⟨e, -, hnone | hsentinel⟩ | ⟨view, hview, -, hok⟩
    · rw [hnone] at hknown
      cases hknown
    · exact absurd hsentinel htick
    by_cases hzero : call.tick = Tick.ZERO
    · exact .inl hzero
    refine .inr fun name other hother hname => ?_
    have hengine : (b.step (.Call (.Ingest call))).session.engine
        = { b.session.engine with
            view_cache := b.session.engine.view_cache.set
              (b.session.engine.view_cache.data.insert call.table_name view)
            latest_tick := call.tick } := by
      simp only [Followed.step, Session.perform, hok]
    have hcached : (b.session.engine.view_cache.data.insert call.table_name view)[name]?
        = some other := by
      rw [Std.ExtTreeMap.getElem?_insert, if_neg (by simpa using fun heq => hname heq.symm), hother]
    -- a read of the other table alone would give a view of an older tick
    have hread : (b.step (.Call (.Ingest call))).session.engine.read ⟨call.tick, [name]⟩
        = .ok ⟨call.tick, (∅ : Map String TableReadView).insert other.table_name other⟩ := by
      rw [hengine]
      have hcache : (b.session.engine.view_cache.set
          (b.session.engine.view_cache.data.insert call.table_name view)).read
            = .ok (b.session.engine.view_cache.data.insert call.table_name view) :=
        RwLock.read_healthy h.ready.view_cache
      simp [QueryEngine.read, hcache, QueryEngine.load_latest_tick, htick, QueryEngine.read_view,
        hcached, Except.map]
    exact (hone _ _ hzero hread).1 other.table_name other Std.ExtTreeMap.getElem?_insert_self

/-! ## Runs -/

/-- In every state of a run the reads are of one tick, just if every operation is in time. -/
theorem Kept.throughout_iff (h : Kept q₀ b) (ops : List EngineOp) :
    Throughout OneTick b ops ↔ b.Timely ops := by
  induction ops generalizing b with
  | nil => exact ⟨fun _ => trivial, fun _ => h.one_tick⟩
  | cons op ops ih =>
      constructor
      · rintro ⟨-, hrest⟩
        have hafter : (b.step op).OneTick := by
          cases ops with
          | nil => exact hrest
          | cons => exact hrest.1
        have htime := h.in_time hafter
        exact ⟨htime, (ih (h.step htime)).1 hrest⟩
      · rintro ⟨htime, hrest⟩
        exact ⟨h.one_tick, (ih (h.step htime)).2 hrest⟩

/-- Every run of a new engine. -/
theorem reads_of_one_tick_iff (schema_registry : SchemaRegistry) (ops : List EngineOp) :
    Throughout OneTick (.new schema_registry) ops ↔ Timely (.new schema_registry) ops :=
  (Kept.new schema_registry).throughout_iff ops

end Followed

/-! ## Two tables -/

namespace Followed

section Tables

attribute [local instance] QueryEngine.no_merge

def two_tables : SchemaRegistry :=
  { tables := (∅ : Map String TableSpec).insert "items" (.new "items") |>.insert "orders"
      (.new "orders") }

/-- One table at tick 1 and the other one at tick 2, with no ingest begun. -/
def table_by_table : List EngineOp :=
  [.Call (.Ingest ⟨1, "items", [], .new⟩), .Call (.Ingest ⟨2, "orders", [], .new⟩)]

/-- The read of tick 2 has a view of tick 1. -/
theorem stale_view_read :
    let after := table_by_table.foldl Followed.step (.new two_tables)
    (∃ response view, after.session.engine.read ⟨2, ["items"]⟩ = .ok response
        ∧ response.views["items"]? = some view ∧ view.tick = 1)
      ∧ ¬ Throughout OneTick (.new two_tables) table_by_table := by
  have hticks : ((((table_by_table.foldl Followed.step (.new two_tables)).session.engine.read
      ⟨2, ["items"]⟩).toOption.bind fun response => response.views["items"]?).map
        TableReadView.tick) = some 1 := by
    decide +kernel
  intro after
  obtain ⟨view, hview, htick⟩ := Option.map_eq_some_iff.1 hticks
  obtain ⟨response, hresponse, hview⟩ := Option.bind_eq_some_iff.1 hview
  have hread : after.session.engine.read ⟨2, ["items"]⟩ = .ok response := by
    rcases hread : after.session.engine.read ⟨2, ["items"]⟩ with e | r
    · rw [hread] at hresponse
      cases hresponse
    · rw [hread] at hresponse
      rw [Option.some.inj hresponse]
  refine ⟨⟨response, view, hread, hview, htick⟩, fun hall => ?_⟩
  have hone : after.OneTick := hall.2.2
  have htwo := (hone _ response (by decide) hread).1 "items" view hview
  rw [htick] at htwo
  cases htwo

end Tables

end Followed

end Scharnhorst
