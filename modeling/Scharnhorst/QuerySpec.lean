/-
Publication is all or nothing.

From the moment an ingest is begun to the moment a snapshot is stored, the engine
differs from what it was in its staging area only, whatever calls are made and
however they end. Storing the snapshot moves the staging area into the cache. And at
any point, before or after, the handle puts the three visible cells back.

A run here is a list of calls of `ingest_snapshot` and `store_snapshot`, each of which
may succeed or fail.
-/
import Scharnhorst.Query

set_option autoImplicit false

namespace Scharnhorst

open Attempt Maps

/-! ## Calls -/

/-- The arguments of one call of `ingest_snapshot`. -/
structure IngestCall where
  tick : Tick
  table_name : String
  batches : List RecordBatch
  position_map : RowPositionMap

inductive IngestOp where
  | Ingest (call : IngestCall)
  | Store (snapshot : WorldSnapshot)

namespace QueryEngine

/-- What readers see. -/
def visible (q : QueryEngine) : Map String TableReadView × Nat × Option WorldSnapshot :=
  (q.view_cache.data, q.latest_tick, q.latest_snapshot.data)

/-- The locks of an ingest are healthy. -/
structure Ready (q : QueryEngine) : Prop where
  view_cache : q.view_cache.poisoned = false
  latest_snapshot : q.latest_snapshot.poisoned = false
  pending_ingest : q.pending_ingest.poisoned = false

/-- An ingest begins when the locks are healthy and none is active. -/
theorem begin_ingest_ok {q q' : QueryEngine} {saved : QueryEngineIngestRollback} :
    q.begin_ingest = (.ok saved, q')
      ↔ q.Ready ∧ q.pending_ingest.data = none
        ∧ saved = ⟨q.view_cache.data, q.latest_tick, q.latest_snapshot.data⟩
        ∧ q' = q.stage .new := by
  unfold begin_ingest
  cases hc : q.view_cache.poisoned
  · rw [RwLock.read_healthy hc]
    cases hs : q.latest_snapshot.poisoned
    · rw [RwLock.read_healthy hs]
      cases hp : q.pending_ingest.poisoned
      · have hready : q.Ready := ⟨hc, hs, hp⟩
        rw [RwLock.read_healthy hp]
        rcases hd : q.pending_ingest.data with _ | state <;> simp [hready, eq_comm]
      · have hnot : ¬ q.Ready := fun h => by simp [h.pending_ingest] at hp
        simp [RwLock.read_poisoned hp, hnot]
    · have hnot : ¬ q.Ready := fun h => by simp [h.latest_snapshot] at hs
      simp [RwLock.read_poisoned hs, hnot]
  · have hnot : ¬ q.Ready := fun h => by simp [h.view_cache] at hc
    simp [RwLock.read_poisoned hc, hnot]

theorem begin_ingest_error {q q' : QueryEngine} {e : String}
    (h : q.begin_ingest = (.error e, q')) : q' = q := by
  unfold begin_ingest at h
  repeat' split at h
  all_goals first | exact (Prod.mk.inj h).2.symm | cases h

section Calls

variable [Concat]

def ingest_op (q : QueryEngine) : IngestOp → QueryResult Unit × QueryEngine
  | .Ingest call => q.ingest_snapshot call.tick call.table_name call.batches call.position_map
  | .Store snapshot => q.store_world_snapshot snapshot

/-- A run of calls, whatever their outcomes. -/
def run_ops (q : QueryEngine) (ops : List IngestOp) : QueryEngine :=
  ops.foldl (fun q op => (q.ingest_op op).2) q

/-- Some call of the run stored a snapshot. -/
def Published : QueryEngine → List IngestOp → Prop
  | _, [] => False
  | q, op :: ops =>
    (∃ snapshot, op = .Store snapshot ∧ (q.ingest_op op).1 = .ok ())
      ∨ Published (q.ingest_op op).2 ops

/-- The view that a call builds. -/
def view_of (q : QueryEngine) (call : IngestCall) : Option TableReadView :=
  (q.table_schema call.table_name).toOption.map fun schema =>
    .new call.table_name call.tick call.batches schema (some call.position_map)

/-- A call that went through puts its view in the place of the table's last one. -/
def staged_by (q : QueryEngine) (views : Map String TableReadView) (op : IngestOp) :
    Map String TableReadView :=
  match op, (q.ingest_op op).1 with
  | .Ingest call, .ok () => (q.view_of call).elim views (views.insert call.table_name ·)
  | _, _ => views

/-- The views of the calls that went through, the last one of each table. -/
def staged : Map String TableReadView → QueryEngine → List IngestOp → Map String TableReadView
  | views, _, [] => views
  | views, q, op :: ops => staged (q.staged_by views op) (q.ingest_op op).2 ops

/-! ## One call -/

/-- A table ingested while an ingest is active: refused, or staged. -/
theorem ingest_snapshot_staged {q : QueryEngine} {state : PendingSnapshotIngest}
    (hready : q.Ready) (hstate : q.pending_ingest.data = some state) (call : IngestCall) :
    (∃ e, q.ingest_op (.Ingest call) = (.error e, q))
      ∨ ∃ view, q.view_of call = some view ∧ (state.tick = none ∨ state.tick = some call.tick)
        ∧ q.ingest_op (.Ingest call) = (.ok (), q.stage
          { tick := some call.tick, views := state.views.insert call.table_name view }) := by
  have hread : q.pending_ingest.read = .ok (some state) := by
    rw [RwLock.read_healthy hready.pending_ingest, hstate]
  simp only [ingest_op, ingest_snapshot, view_of]
  rcases hs : q.table_schema call.table_name with e | schema
  · rcases check_sentinel call.tick with e' | ⟨⟩ <;> simp [bind, Except.bind]
  rcases check_sentinel call.tick with e | ⟨⟩
  · simp [bind, Except.bind]
  obtain ⟨_ | t, views⟩ := state
  · simp [bind, Except.bind, hread, Except.toOption]
  · by_cases ht : t = call.tick <;> simp [bind, Except.bind, hread, Except.toOption, ht]

omit [Concat] in
/-- A snapshot stored while an ingest is active: refused, or published with the staged
views. -/
theorem store_world_snapshot_staged {q : QueryEngine} {state : PendingSnapshotIngest}
    (hready : q.Ready) (hstate : q.pending_ingest.data = some state) (snapshot : WorldSnapshot) :
    (∃ e, q.store_world_snapshot snapshot = (.error e, q))
      ∨ (state.tick = none ∨ state.tick = some snapshot.tick)
        ∧ q.store_world_snapshot snapshot = (.ok (),
          { q with
            pending_ingest := q.pending_ingest.set none
            view_cache := q.view_cache.set state.views
            latest_snapshot := q.latest_snapshot.set (some snapshot)
            latest_tick := snapshot.tick }) := by
  have hread : q.pending_ingest.read = .ok (some state) := by
    rw [RwLock.read_healthy hready.pending_ingest, hstate]
  have hpublish : q.publish (some state.views) snapshot = (.ok (),
      { q with
        pending_ingest := q.pending_ingest.set none
        view_cache := q.view_cache.set state.views
        latest_snapshot := q.latest_snapshot.set (some snapshot)
        latest_tick := snapshot.tick }) := by
    simp [publish, RwLock.read_healthy hready.view_cache,
      RwLock.read_healthy hready.latest_snapshot]
  unfold store_world_snapshot
  rcases check_sentinel snapshot.tick with e | ⟨⟩
  · exact .inl ⟨e, rfl⟩
  obtain ⟨_ | t, views⟩ := state
  · exact .inr ⟨.inl rfl, by simpa [hread] using hpublish⟩
  · by_cases ht : t = snapshot.tick
    · exact .inr ⟨.inr (by simp [ht]), by simpa [hread, ht] using hpublish⟩
    · exact .inl ⟨.TicksMismatch snapshot.tick (some t), by simp [hread, ht]⟩

omit [Concat] in
theorem publish_ready {q : QueryEngine} (h : q.Ready) (views : Option (Map String TableReadView))
    (snapshot : WorldSnapshot) : (q.publish views snapshot).2.Ready := by
  obtain ⟨hc, hs, hp⟩ := h
  rcases views with _ | views
  · simp only [publish, RwLock.read_healthy hs]
    exact ⟨hc, hs, hp⟩
  · simp only [publish, RwLock.read_healthy hc, RwLock.read_healthy hs]
    exact ⟨hc, hs, hp⟩

/-- No call poisons a lock. -/
theorem ingest_op_ready {q : QueryEngine} (h : q.Ready) (op : IngestOp) :
    (q.ingest_op op).2.Ready := by
  cases op with
  | Ingest call =>
      obtain ⟨hc, hs, hp⟩ := h
      simp only [ingest_op, ingest_snapshot]
      repeat' split
      all_goals exact ⟨hc, hs, hp⟩
  | Store snapshot =>
      simp only [ingest_op, store_world_snapshot]
      repeat' split
      all_goals first | exact h | exact publish_ready h _ _

theorem run_ops_ready {q : QueryEngine} (h : q.Ready) (ops : List IngestOp) :
    (q.run_ops ops).Ready := by
  induction ops generalizing q with
  | nil => exact h
  | cons op ops ih => exact ih (ingest_op_ready h op)

/-! ## A run of calls -/

/-- The engine while an ingest is active, compared with what it was before. -/
structure Staging (q₀ q : QueryEngine) (views : Map String TableReadView) : Prop where
  ready : q.Ready
  visible_eq : q.visible = q₀.visible
  pending : ∃ tick, q.pending_ingest.data = some { tick, views }
    ∧ ∀ (name : String) (view : TableReadView), views[name]? = some view → tick = some view.tick

omit [Concat] in
theorem Staging.begin {q q' : QueryEngine} {saved : QueryEngineIngestRollback}
    (h : q.begin_ingest = (.ok saved, q')) : Staging q q' ∅ := by
  obtain ⟨⟨hc, hs, hp⟩, -, -, rfl⟩ := begin_ingest_ok.1 h
  exact ⟨⟨hc, hs, hp⟩, rfl, none, rfl, by simp⟩

/-- Up to the first snapshot stored, a run changes nothing but the staging area. -/
theorem Staging.run {q₀ q : QueryEngine} {views : Map String TableReadView}
    (h : Staging q₀ q views) {ops : List IngestOp} (hops : ¬ q.Published ops) :
    Staging q₀ (q.run_ops ops) (staged views q ops) := by
  induction ops generalizing q views with
  | nil => exact h
  | cons op ops ih =>
      obtain ⟨hnot, hrest⟩ := not_or.1 hops
      obtain ⟨hready, hvisible, tick, hstate, hticks⟩ := h
      have hready' := ingest_op_ready hready op
      refine ih (?_ : Staging q₀ (q.ingest_op op).2 (q.staged_by views op)) hrest
      cases op with
      | Store snapshot =>
          rcases store_world_snapshot_staged hready hstate snapshot with ⟨e, he⟩ | ⟨-, hok⟩
          · simp only [staged_by, ingest_op, he]
            exact ⟨hready, hvisible, tick, hstate, hticks⟩
          -- a snapshot that is stored would have been a publication
          · exact absurd ⟨snapshot, rfl, congrArg Prod.fst hok⟩ hnot
      | Ingest call =>
          rcases ingest_snapshot_staged hready hstate call with ⟨e, he⟩ | ⟨view, hview, htick, hok⟩
          · simp only [staged_by, he]
            exact ⟨hready, hvisible, tick, hstate, hticks⟩
          · rw [hok] at hready'
            simp only [staged_by, hok, hview, Option.elim_some]
            refine ⟨hready', hvisible, some call.tick, rfl, fun name v hv => ?_⟩
            rw [Std.ExtTreeMap.getElem?_insert] at hv
            split at hv
            · obtain rfl := Option.some.inj hv
              obtain ⟨schema, -, rfl⟩ := Option.map_eq_some_iff.1 hview
              rfl
            · rcases htick with hnone | hsome
              · exact absurd (hnone.symm.trans (hticks name v hv)) (by simp)
              · rw [← hsome]
                exact hticks name v hv

omit [Concat] in
/-- The handle restores the three cells, whatever the engine has become. -/
theorem rollback_restores {q : QueryEngine} (h : q.Ready) (saved : QueryEngineIngestRollback) :
    ∃ q', q.rollback saved = (.ok (), q')
      ∧ q'.visible = (saved.saved_cache, saved.saved_tick, saved.saved_snapshot)
      ∧ q'.pending_ingest.data = none ∧ q'.Ready := by
  obtain ⟨hc, hs, hp⟩ := h
  unfold rollback
  simp only [RwLock.read_healthy hc, RwLock.read_healthy hs, RwLock.read_healthy hp]
  exact ⟨_, rfl, rfl, rfl, hc, hs, hp⟩

/-- From an engine with no ingest active: an ingest is refused for a poisoned lock only,
and then nothing changes. One that begins shows nothing until a snapshot is stored; the snapshot stored shows
the staged views and nothing else, all of its tick; and the handle takes everything
back at any point, after which an ingest can begin again. -/
theorem publication_all_or_nothing {q : QueryEngine} (hidle : q.pending_ingest.data = none) :
    (∀ e q₁, q.begin_ingest = (.error e, q₁) → q₁ = q ∧ ¬ q.Ready)
    ∧ ∀ saved q₁, q.begin_ingest = (.ok saved, q₁) → ∀ ops : List IngestOp,
      (¬ q₁.Published ops → (q₁.run_ops ops).visible = q.visible
        ∧ ∀ snapshot q₂, (q₁.run_ops ops).store_world_snapshot snapshot = (.ok (), q₂) →
          q₂.visible = (staged ∅ q₁ ops, snapshot.tick, some snapshot)
          ∧ ∀ (name : String) (view : TableReadView),
              (staged ∅ q₁ ops)[name]? = some view → view.tick = snapshot.tick)
      ∧ ∃ q₂, (q₁.run_ops ops).rollback saved = (.ok (), q₂) ∧ q₂.visible = q.visible
          ∧ q₂.pending_ingest.data = none ∧ ∃ saved' q₃, q₂.begin_ingest = (.ok saved', q₃) := by
  refine ⟨fun e q₁ he => ⟨begin_ingest_error he, fun hready => ?_⟩, fun saved q₁ hbegin ops => ⟨fun hops => ?_, ?_⟩⟩
  · have hok := begin_ingest_ok.2 ⟨hready, hidle, rfl, rfl⟩
    exact absurd (he.symm.trans hok) (by simp)
  · obtain ⟨hready, hvisible, tick, hstate, hticks⟩ := (Staging.begin hbegin).run hops
    refine ⟨hvisible, fun snapshot q₂ hstore => ?_⟩
    rcases store_world_snapshot_staged hready hstate snapshot with ⟨e, he⟩ | ⟨htick, hok⟩
    · exact absurd (he.symm.trans hstore) (by simp)
    · obtain rfl := (Prod.mk.inj (hok.symm.trans hstore)).2
      refine ⟨rfl, fun name view hview => ?_⟩
      have hv := hticks name view hview
      rcases htick with hnone | hsome
      · exact absurd (hnone.symm.trans hv) (by simp)
      · exact Option.some.inj (hv.symm.trans hsome)
  · have hready : q₁.Ready := (Staging.begin hbegin).ready
    obtain ⟨-, -, rfl, -⟩ := begin_ingest_ok.1 hbegin
    obtain ⟨q₂, hback, hvisible, hnone, hready₂⟩ :=
      rollback_restores (run_ops_ready hready ops) ⟨q.view_cache.data, q.latest_tick, _⟩
    exact ⟨q₂, hback, hvisible, hnone, _, _, begin_ingest_ok.2 ⟨hready₂, hnone, rfl, rfl⟩⟩

end Calls

/-! ## A publication -/

/-- The kernel, for views of at most one batch: it is not asked. -/
@[reducible] def no_merge : Concat := ⟨fun _ _ => .error "no batches to merge"⟩

section Blank

attribute [local instance] no_merge

def blank_engine : QueryEngine :=
  .new { tables := (∅ : Map String TableSpec).insert "items" (.new "items") }

def blank_call : IngestCall := ⟨0, "items", [], .new⟩

/-- One table without rows, staged and published. -/
theorem blank_engine_published :
    let begun := blank_engine.begin_ingest.2
    let stored := (begun.run_ops [.Ingest blank_call]).store_world_snapshot (.new 0)
    (begun.run_ops [.Ingest blank_call]).visible = blank_engine.visible
      ∧ stored.2.visible = (staged ∅ begun [.Ingest blank_call], 0, some (.new 0)) := by
  intro begun stored
  have hbegin : blank_engine.begin_ingest.1 = .ok ⟨∅, u64_MAX, none⟩ := by decide +kernel
  have hstore : stored.1 = .ok () := by decide +kernel
  obtain ⟨hkept, hpublished⟩ := ((publication_all_or_nothing (q := blank_engine) rfl).2 _ begun
    (eq_of_verdict hbegin) [.Ingest blank_call]).1 (by simp [Published])
  exact ⟨hkept, (hpublished (.new 0) stored.2 (eq_of_verdict hstore)).1⟩

end Blank

end QueryEngine

end Scharnhorst
