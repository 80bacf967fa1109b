/-
The registry and the components agree.

An entity has the component of a row exactly if the registry has that entity for the row. So a
registered row has one entity and no other, and this is the case after any calls whatever.
-/
import Mathlib.Data.Finset.Card
import Scharnhorst.EntityRegistry

set_option autoImplicit false

namespace Scharnhorst

/-- The row that a component names. -/
def ViewOf.key (view : ViewOf) : String × RowId := (view.table_name, view.row_id)

/-- What a table's rows are at the latest tick. -/
def QueryEngine.latest_view (q : QueryEngine) (table : String) : Option TableReadView :=
  q.load_latest_tick.bind fun tick => (q.read_single_table tick table).toOption

/-- It is the view in the cache. -/
theorem QueryEngine.latest_view_cached {q : QueryEngine} {table : String} {view : TableReadView}
    (h : q.latest_view table = some view) :
    ∃ cache, q.view_cache.read = .ok cache ∧ cache[table]? = some view := by
  unfold latest_view at h
  rcases htick : q.load_latest_tick with _ | tick
  · rw [htick] at h
    cases h
  rw [htick, Option.bind_some] at h
  rcases hcache : q.view_cache.read with e | cache
  · simp [read_single_table, read, hcache, bind, Except.bind] at h
    cases h
  refine ⟨cache, rfl, ?_⟩
  rcases hview : cache[table]? with _ | found
  · simp [read_single_table, read, hcache, htick, read_view, hview, bind, Except.bind,
      Except.map] at h
    cases h
  · by_cases hname : found.table_name = table
    · simp [read_single_table, read, hcache, htick, read_view, hview, bind, Except.bind,
        Except.map, pure, Except.pure, ReadResponse.get, hname] at h
      exact h
    · simp [read_single_table, read, hcache, htick, read_view, hview, bind, Except.bind,
        Except.map, pure, Except.pure, ReadResponse.get, hname] at h
      cases h

namespace Bridge

variable {W : Type} {commands : Commands W} {b : Bridge W} {config : MaterializationConfig}
  {view : TableReadView} {tick : Tick} {table : String} {row_id : RowId}

/-- The rows that have entities. -/
def keys (b : Bridge W) : Finset (String × RowId) := b.registry.inner.keys.toFinset

theorem mem_keys {key : String × RowId} : key ∈ b.keys ↔ key ∈ b.registry.inner := by
  rw [keys, List.mem_toFinset, AList.mem_keys]

theorem lookup_isSome : (b.registry.lookup table row_id).isSome ↔ (table, row_id) ∈ b.keys := by
  rw [mem_keys]
  exact AList.lookup_isSome

/-- The components of the entities are the entries of the registry. -/
def Linked (commands : Commands W) (b : Bridge W) : Prop :=
  ∀ key e, b.registry.inner.lookup key = some e
    ↔ ∃ view, commands.view_of b.world e = some view ∧ view.key = key

theorem linked_new : Linked commands { registry := .new, world := commands.empty } := by
  intro key e
  refine iff_of_false (fun h => ?_) fun h => ?_
  · rw [EntityMaterializationRegistry.new, AList.lookup_empty] at h
    cases h
  · obtain ⟨view, hview, -⟩ := h
    rw [commands.view_of_empty] at hview
    cases hview

/-- A registered row has exactly one entity. -/
theorem Linked.exists_unique (h : Linked commands b) {key : String × RowId} (hkey : key ∈ b.keys) :
    ∃! e, ∃ view, commands.view_of b.world e = some view ∧ view.key = key := by
  obtain ⟨e, he⟩ := Option.isSome_iff_exists.mp (AList.lookup_isSome.mpr (mem_keys.mp hkey))
  refine ⟨e, (h key e).mp he, fun e' he' => ?_⟩
  exact Option.some.inj (((h key e').mpr he').symm.trans he)

/-! ## Spawning -/

theorem keys_spawn :
    (b.spawn commands table row_id tick).2.keys = insert (table, row_id) b.keys := by
  ext key
  rw [Finset.mem_insert, mem_keys, mem_keys]
  exact AList.mem_insert _

/-- The new entity is that of the new row. -/
theorem Linked.spawn (h : Linked commands b) (hnew : (table, row_id) ∉ b.keys) :
    Linked commands (b.spawn commands table row_id tick).2 := by
  intro key e
  have hlookup : (b.spawn commands table row_id tick).2.registry.inner.lookup key
      = if key = (table, row_id) then some (b.spawn commands table row_id tick).1
        else b.registry.inner.lookup key := by
    by_cases hkey : key = (table, row_id)
    · rw [if_pos hkey, hkey]
      exact AList.lookup_insert _
    · rw [if_neg hkey]
      exact AList.lookup_insert_ne hkey
  have hview : commands.view_of (b.spawn commands table row_id tick).2.world e
      = if e = (b.spawn commands table row_id tick).1
        then some { row_id, table_name := table, generation := tick }
        else commands.view_of b.world e := commands.view_of_spawn _ _ _
  have hfresh : commands.view_of b.world (b.spawn commands table row_id tick).1 = none :=
    commands.spawn_fresh _ _
  rw [hlookup, hview]
  by_cases hkey : key = (table, row_id)
  · rw [if_pos hkey]
    constructor
    · intro he
      rw [if_pos (Option.some.inj he).symm]
      exact ⟨_, rfl, hkey.symm⟩
    -- another entity of the row would have been registered
    · rintro ⟨v, hv, hvkey⟩
      by_cases he : e = (b.spawn commands table row_id tick).1
      · rw [he]
      · rw [if_neg he] at hv
        have hold := (h key e).mpr ⟨v, hv, hvkey⟩
        refine absurd ?_ hnew
        rw [← hkey, mem_keys, ← AList.lookup_isSome, hold, Option.isSome_some]
  · rw [if_neg hkey]
    by_cases he : e = (b.spawn commands table row_id tick).1
    -- the entity is new, so no other row has it
    · rw [if_pos he, he]
      refine iff_of_false (fun hold => ?_) ?_
      · obtain ⟨v, hv, -⟩ := (h key _).mp hold
        rw [hfresh] at hv
        cases hv
      · rintro ⟨v, hv, hvkey⟩
        rw [← Option.some.inj hv] at hvkey
        exact hkey hvkey.symm
    · rw [if_neg he]
      exact h key e

/-! ## One call -/

theorem Linked.materialize_rows {rows : List RowId} {n : Nat} {spawned : List Entity}
    (h : Linked commands b) :
    Linked commands (materialize_rows commands config view tick rows n b spawned).2 := by
  induction rows generalizing n b spawned with
  | nil => exact h
  | cons row_id rows ih =>
    unfold Bridge.materialize_rows
    split_ifs with hfull hwanted hknown
    · exact h
    · exact ih h
    · exact ih h
    · rw [lookup_isSome] at hknown
      exact ih (h.spawn hknown)

theorem materialize_configs_unread {q : QueryEngine} {configs : List MaterializationConfig}
    {spawned : List Entity} (h : q.latest_view config.table = none) :
    (materialize_configs commands q (config :: configs) b spawned).2 = b := by
  unfold Bridge.materialize_configs
  unfold QueryEngine.latest_view at h
  rcases htick : q.load_latest_tick with _ | tick
  · rfl
  · rw [htick, Option.bind_some] at h
    rcases hread : q.read_single_table tick config.table with e | view
    · simp only [hread]
    · rw [hread] at h
      cases h

theorem materialize_configs_read {q : QueryEngine} {configs : List MaterializationConfig}
    {spawned : List Entity} (h : q.latest_view config.table = some view) :
    ∃ tick, (materialize_configs commands q (config :: configs) b spawned).2
      = (materialize_configs commands q configs
          (materialize_rows commands config view tick view.row_ids 0 b spawned).2
          (materialize_rows commands config view tick view.row_ids 0 b spawned).1).2 := by
  rw [Bridge.materialize_configs]
  unfold QueryEngine.latest_view at h
  rcases htick : q.load_latest_tick with _ | tick
  · rw [htick] at h
    cases h
  · rw [htick, Option.bind_some] at h
    rcases hread : q.read_single_table tick config.table with e | view'
    · rw [hread] at h
      cases h
    · rw [hread] at h
      obtain rfl : view' = view := Option.some.inj h
      exact ⟨tick, by simp only [hread]⟩

theorem Linked.materialize_configs {q : QueryEngine} {configs : List MaterializationConfig}
    {spawned : List Entity} (h : Linked commands b) :
    Linked commands (materialize_configs commands q configs b spawned).2 := by
  induction configs generalizing b spawned with
  | nil => exact h
  | cons config configs ih =>
    rcases hview : q.latest_view config.table with _ | view
    · rw [materialize_configs_unread hview]
      exact h
    · obtain ⟨tick, heq⟩ := materialize_configs_read hview
      rw [heq]
      exact ih h.materialize_rows

/-! ## The configurations stay -/

theorem configs_materialize_rows {rows : List RowId} {n : Nat} {spawned : List Entity} :
    (materialize_rows commands config view tick rows n b spawned).2.registry.configs
      = b.registry.configs := by
  induction rows generalizing n b spawned with
  | nil => rfl
  | cons row_id rows ih =>
    unfold Bridge.materialize_rows
    split_ifs
    · rfl
    · exact ih
    · exact ih
    · exact ih

theorem configs_materialize_configs {q : QueryEngine} {configs : List MaterializationConfig}
    {spawned : List Entity} :
    (materialize_configs commands q configs b spawned).2.registry.configs = b.registry.configs := by
  induction configs generalizing b spawned with
  | nil => rfl
  | cons config configs ih =>
    rcases hview : q.latest_view config.table with _ | view
    · rw [materialize_configs_unread hview]
    · obtain ⟨tick, heq⟩ := materialize_configs_read hview
      rw [heq, ih, configs_materialize_rows]

/-! ## Taking entities away -/

/-- Either no row has the entity, or one that has it goes, and the entity with it. -/
theorem dematerialize_cases (entity : Entity) :
    (b.dematerialize commands entity).2 = b ∨
      ∃ key, b.registry.inner.lookup key = some entity ∧ (b.dematerialize commands entity).2
        = { registry := b.registry.unregister key.1 key.2
            world := commands.despawn b.world entity } := by
  rcases hfind : b.registry.inner.entries.find? fun entry => entry.2 == entity with _ | ⟨key, e⟩
  · exact .inl (by simp only [Bridge.dematerialize, hfind])
  · obtain rfl : e = entity := by simpa using List.find?_some hfind
    refine .inr ⟨key, AList.mem_lookup_iff.mpr (List.mem_of_find?_eq_some hfind), ?_⟩
    simp only [Bridge.dematerialize, hfind]

theorem Linked.dematerialize {entity : Entity} (h : Linked commands b) :
    Linked commands (b.dematerialize commands entity).2 := by
  have hcases := @dematerialize_cases W commands b entity
  rcases hcases with heq | ⟨key, hkey, heq⟩
  · rw [heq]
    exact h
  rw [heq]
  obtain ⟨v, hv, hvkey⟩ := (h key entity).mp hkey
  intro key' e'
  have hlookup : (b.registry.inner.erase key).lookup key'
      = if key' = key then none else b.registry.inner.lookup key' := by
    by_cases heq : key' = key
    · rw [if_pos heq, heq, AList.lookup_erase]
    · rw [if_neg heq, AList.lookup_erase_ne heq]
  change (b.registry.inner.erase key).lookup key' = some e' ↔ _
  simp only [commands.view_of_despawn, hlookup]
  by_cases heq : key' = key
  -- the row had no other entity
  · rw [if_pos heq]
    refine iff_of_false (fun hnone => by cases hnone) ?_
    rintro ⟨v', hv', hv'key⟩
    by_cases he : e' = entity
    · rw [if_pos he] at hv'
      cases hv'
    · rw [if_neg he] at hv'
      have hother := (h key e').mpr ⟨v', hv', hv'key.trans heq⟩
      exact he (Option.some.inj (hother.symm.trans hkey))
  · rw [if_neg heq]
    by_cases he : e' = entity
    -- the entity was of one row only
    · rw [if_pos he, he]
      refine iff_of_false (fun hother => ?_) ?_
      · obtain ⟨v', hv', hv'key⟩ := (h key' entity).mp hother
        rw [hv] at hv'
        rw [← Option.some.inj hv', hvkey] at hv'key
        exact heq hv'key.symm
      · rintro ⟨v', hv', -⟩
        cases hv'
    · rw [if_neg he]
      exact h key' e'

theorem view_of_despawned {w : W} {entities : List Entity} {e : Entity} :
    commands.view_of (entities.foldl commands.despawn w) e
      = if e ∈ entities then none else commands.view_of w e := by
  induction entities generalizing w with
  | nil => rw [List.foldl_nil, if_neg List.not_mem_nil]
  | cons d entities ih =>
    rw [List.foldl_cons, ih, commands.view_of_despawn]
    by_cases hmem : e ∈ entities
    · rw [if_pos hmem, if_pos (List.mem_cons_of_mem d hmem)]
    · by_cases he : e = d
      · rw [if_neg hmem, if_pos he, if_pos (List.mem_cons.mpr (.inl he))]
      · rw [if_neg hmem, if_neg he, if_neg]
        intro hcons
        exact (List.mem_cons.mp hcons).elim he hmem

theorem Linked.dematerialize_all (h : Linked commands b) :
    Linked commands (b.dematerialize_all commands) := by
  intro key e
  refine iff_of_false (fun hnone => ?_) ?_
  · change (∅ : AList fun _ : String × RowId => Entity).lookup key = some e at hnone
    rw [AList.lookup_empty] at hnone
    cases hnone
  · rintro ⟨v, hv, -⟩
    change commands.view_of ((b.registry.inner.entries.map Sigma.snd).foldl commands.despawn b.world)
      e = some v at hv
    rw [view_of_despawned] at hv
    by_cases hmem : e ∈ b.registry.inner.entries.map Sigma.snd
    · rw [if_pos hmem] at hv
      cases hv
    · rw [if_neg hmem] at hv
      have hentry := AList.mem_lookup_iff.mp ((h v.key e).mpr ⟨v, hv, rfl⟩)
      exact hmem (List.mem_map.mpr ⟨_, hentry, rfl⟩)

end Bridge

end Scharnhorst
