/-
A commit that failed after its diffs were applied, and the commit after it.

The failed commit puts the batches back and leaves the position map and the key index
as the diffs made them. The next one applies the same diffs again, to the old batches
under the new books. Whether that goes as it would have gone under the old ones is a
matter of the rows that the diffs look up before they replace the table: if each of
those has its old entry, every lookup finds the same cell. The key index is written
and never read, so there the question is only whether it grows twice.
-/
import Scharnhorst.Commit
import Scharnhorst.Bookkeeping

set_option autoImplicit false

namespace Scharnhorst

open Attempt Maps

section Replay

variable [Render]

/-! ## One table under other books -/

/-- The table with another position map and another key index. -/
def VersionedTable.rebooked (t : VersionedTable) (position_map : RowPositionMap)
    (primary_key_index : PrimaryKeyIndex) : VersionedTable :=
  { t with position_map, primary_key_index }

section Rebooked

variable (t : VersionedTable) (pm : RowPositionMap) (index : PrimaryKeyIndex)

omit [Render] in
@[simp] theorem position_map_rebooked : (t.rebooked pm index).position_map = pm := rfl

omit [Render] in
@[simp] theorem primary_key_index_rebooked :
    (t.rebooked pm index).primary_key_index = index := rfl

omit [Render] in
@[simp] theorem batches_rebooked (tick : Tick) :
    (t.rebooked pm index).batches tick = t.batches tick := rfl

omit [Render] in
@[simp] theorem pk_col_name_rebooked : pk_col_name (t.rebooked pm index) = pk_col_name t := rfl

end Rebooked

/-- The rows that a list of diffs looks up before it replaces the table. -/
def named : List Diff → List RowId
  | [] => []
  | .Update _ row _ _ :: ds => row :: named ds
  | .Insert _ row _ :: ds => row :: named ds
  | .Delete _ row :: ds => row :: named ds
  | .ReplaceTable _ _ :: _ => []

omit [Render] in
/-- A row with the same entry is found at the same place. -/
theorem locate_rebooked {t : VersionedTable} {pm : RowPositionMap} {index : PrimaryKeyIndex}
    {row : RowId} (h : pm.position_of row = t.position_map.position_of row) :
    (t.rebooked pm index).locate row = t.locate row := by
  simp only [VersionedTable.locate, VersionedTable.rebooked, VersionedTable.batches, h]

/-- A diff that goes through goes through under other books, if the row it looks up has
the same entry there; and then the rows that the later diffs look up have the same
entries again. -/
theorem replay_step {reg : TypeRegistry} {tick : Tick} {d : Diff} {ds : List Diff}
    {t t' : VersionedTable} {pm : RowPositionMap} (index : PrimaryKeyIndex)
    (hpm : ∀ r ∈ named (d :: ds), pm.position_of r = t.position_map.position_of r)
    (h : apply_to_table reg tick d t = (.ok (), t')) :
    ∃ pm' index', apply_to_table reg tick d (t.rebooked pm index) = (.ok (), t'.rebooked pm' index')
      ∧ ∀ r ∈ named ds, pm'.position_of r = t'.position_map.position_of r := by
  cases d with
  | Update name row column value =>
      obtain ⟨loc, batch, patched, hloc, hbatch, rfl⟩ := apply_update_ok tick h
      have hrow := hpm row List.mem_cons_self
      refine ⟨pm, index, ?_, fun r hr => hpm r (List.mem_cons_of_mem _ hr)⟩
      simp only [apply_to_table]
      rw [apply_update_of_locate ((locate_rebooked hrow).trans hloc), hbatch]
      rfl
  | Insert name row values =>
      obtain ⟨schema, batch, hschema, hfree, hbatch, rfl⟩ := apply_insert_ok h
      have hrow := hpm row List.mem_cons_self
      refine ⟨pm.insert row (t.batches tick).length 0,
        index_row index (pk_col_name t) values tick (t.batches tick).length 0, ?_, fun r hr => ?_⟩
      · have hschema' : resolve_table_schema (t.rebooked pm index) values reg = .ok (some schema) :=
          hschema
        have hfree' : pm.contains row = false := by
          rw [RowPositionMap.contains_eq_false, hrow, hfree]
        simp only [apply_to_table, apply_insert_to_table, hschema', hbatch]
        simp [VersionedTable.rebooked, VersionedTable.batches, hfree', pk_col_name]
      · simp only [RowPositionMap.position_of_insert, hpm r (List.mem_cons_of_mem _ hr)]
  | Delete name row =>
      obtain ⟨loc, batch, patched, hloc, hbatch, rfl⟩ := apply_delete_ok tick h
      have hrow := hpm row List.mem_cons_self
      refine ⟨pm.remove row, index, ?_, fun r hr => ?_⟩
      · simp only [apply_to_table]
        rw [apply_delete_of_locate ((locate_rebooked hrow).trans hloc), hbatch]
        rfl
      · simp only [RowPositionMap.position_of_remove, hpm r (List.mem_cons_of_mem _ hr)]
  | ReplaceTable name rows =>
      -- the position map is made from the rows alone
      refine ⟨t'.position_map, index, ?_, fun _ _ => rfl⟩
      have hschema : replace_schema (t.rebooked pm index) rows reg = replace_schema t rows reg := rfl
      have hpk : pk_col_name (t.rebooked pm index) = pk_col_name t := rfl
      simp only [apply_to_table, apply_replace_to_table, hschema, hpk] at h ⊢
      split at h
      · cases h
      · split at h
        · cases h
        · obtain ⟨-, rfl⟩ := Prod.mk.inj h
          rfl

/-- A list of diffs. -/
theorem replay_run {reg : TypeRegistry} {tick : Tick} {ds : List Diff} {t t' : VersionedTable}
    {pm : RowPositionMap} (index : PrimaryKeyIndex)
    (hpm : ∀ r ∈ named ds, pm.position_of r = t.position_map.position_of r)
    (h : ArrowStore.run_table reg tick t ds = (.ok (), t')) :
    ∃ pm' index', ArrowStore.run_table reg tick (t.rebooked pm index) ds
      = (.ok (), t'.rebooked pm' index') := by
  induction ds generalizing t pm index with
  | nil =>
      obtain rfl : t = t' := by simpa [ArrowStore.run_table] using h
      exact ⟨pm, index, rfl⟩
  | cons d ds ih =>
      obtain ⟨mid, hd, hds⟩ := forEach_cons_ok.1 h
      obtain ⟨pm', index', hd', hpm'⟩ := replay_step index hpm hd
      obtain ⟨pm'', index'', hds'⟩ := ih index' hpm' hds
      exact ⟨pm'', index'', by rw [ArrowStore.run_table, forEach_cons_of_ok hd']; exact hds'⟩

/-! ## When a table can be done again -/

/-- Each row that is looked up has at the end the entry it had, and if the index keeps a
history nothing is recorded in it. -/
structure SamePlaces (tick : Tick) (t : VersionedTable) (ds : List Diff) : Prop where
  entries : ∀ r ∈ named ds, ∀ e, last_entry (pk_col_name t) r (t.batches tick).length ds = some e →
    t.position_map.position_of r = e
  keys : t.primary_key_index.historical_entries.isSome → ∀ k,
    last_key (pk_col_name t) k (t.batches tick).length ds = none

/-- The same, of the rows being there and not of where they are. -/
structure SameRows (tick : Tick) (t : VersionedTable) (ds : List Diff) : Prop where
  entries : ∀ r ∈ named ds, ∀ e, last_entry (pk_col_name t) r (t.batches tick).length ds = some e →
    (t.position_map.position_of r).isSome = e.isSome
  keys : t.primary_key_index.historical_entries.isSome → ∀ k,
    last_key (pk_col_name t) k (t.batches tick).length ds = none

theorem run_table_setup {reg : TypeRegistry} {tick : Tick} {ds : List Diff} {t t' : VersionedTable}
    (h : ArrowStore.run_table reg tick t ds = (.ok (), t')) : SameSetup t t' := by
  have hinv := forEach_invariant ds (f := fun t d => apply_to_table reg tick d t)
    (P := SameSetup t) (fun u d _ hu => hu.trans (apply_to_table_setup reg tick d u)) (.refl t)
  rwa [show forEach (fun t d => apply_to_table reg tick d t) t ds = (.ok (), t') from h] at hinv

omit [Render] in
/-- What a failed commit leaves of a table is the table before it under other books. -/
theorem undone_eq_rebooked {t t' : VersionedTable} (h : SameSetup t t') :
    { t' with versions := t.versions } = t.rebooked t'.position_map t'.primary_key_index := by
  obtain ⟨hname, hmode, hspec, hfk, hparts⟩ := h
  rw [VersionedTable.rebooked, hname, hmode, hspec, hfk, hparts]

/-- Without a history, recording the same again changes nothing. -/
theorem key_kept_again {index : PrimaryKeyIndex} {pk_name : Option String} {tick : Tick}
    {count : Nat} {ds : List Diff} (hnone : index.historical_entries = none) {k : String} {b : Nat}
    (hk : last_key pk_name k count ds = some b) :
    KeyKept (index_run pk_name tick index count ds) tick k b := by
  refine ⟨?_, newest_eq_iff.1 ?_⟩
  · have hsome := historical_index_run index pk_name tick count ds
    rw [hnone] at hsome
    exact Option.isSome_eq_false_iff.1 hsome |> Option.isNone_iff_eq_none.1
  · rw [latest_index_run, hk, Option.elim_some, newest_newest]

/-- The diffs again, on the old batches under the new books. -/
theorem replay_table {reg : TypeRegistry} {tick : Tick} {ds : List Diff} {t t' : VersionedTable}
    (h : ArrowStore.run_table reg tick t ds = (.ok (), t')) (hplaces : SamePlaces tick t ds) :
    ArrowStore.run_table reg tick { t' with versions := t.versions } ds = (.ok (), t') := by
  obtain ⟨hentry, hindex⟩ := booked_run h
  have hpm : ∀ r ∈ named ds, t'.position_map.position_of r = t.position_map.position_of r := by
    intro r hr
    rw [hentry r]
    rcases he : last_entry (pk_col_name t) r (t.batches tick).length ds with _ | e
    · rfl
    · exact (hplaces.entries r hr e he).symm
  obtain ⟨pm', index', hagain⟩ := replay_run t'.primary_key_index hpm h
  rw [undone_eq_rebooked (run_table_setup h), hagain]
  -- both runs wrote the same last
  obtain ⟨hentry', hindex'⟩ := booked_run hagain
  simp only [position_map_rebooked, primary_key_index_rebooked, batches_rebooked,
    pk_col_name_rebooked] at hentry' hindex'
  have hpm' : pm' = t'.position_map := by
    ext1 r
    rw [hentry' r, hentry r]
    rcases last_entry (pk_col_name t) r (t.batches tick).length ds with _ | e <;> rfl
  have hindex'' : index' = t'.primary_key_index := by
    refine hindex'.trans (index_run_eq_iff.2 fun k b hk => ?_)
    rw [hindex]
    refine key_kept_again ?_ hk
    by_contra hsome
    rw [hplaces.keys (Option.isSome_iff_ne_none.2 hsome) k] at hk
    cases hk
  rw [hpm', hindex'']
  rfl

/-- Two runs of the same diffs that both go through, on any two tables, look up rows
that are in both or in neither. -/
theorem named_of_runs {reg reg' : TypeRegistry} {tick tick' : Tick} {ds : List Diff}
    {t t' u u' : VersionedTable} (h : ArrowStore.run_table reg tick t ds = (.ok (), t'))
    (hu : ArrowStore.run_table reg' tick' u ds = (.ok (), u')) :
    ∀ r ∈ named ds,
      (u.position_map.position_of r).isSome = (t.position_map.position_of r).isSome := by
  -- a diff that goes through says itself whether its row was there
  induction ds generalizing t u with
  | nil => simp [named]
  | cons d ds ih =>
      obtain ⟨mid, hd, hds⟩ := forEach_cons_ok.1 h
      obtain ⟨midu, hdu, hdsu⟩ := forEach_cons_ok.1 hu
      have hrest := ih hds hdsu
      cases d with
      | ReplaceTable name rows => simp [named]
      | Update name row column value =>
          obtain ⟨loc, batch, patched, hloc, -, rfl⟩ := apply_update_ok tick hd
          obtain ⟨locu, batchu, patchedu, hlocu, -, rfl⟩ := apply_update_ok tick' hdu
          intro r hr
          by_cases hrow : row = r
          · subst hrow
            rw [(VersionedTable.locate_eq_some.1 hloc).1, (VersionedTable.locate_eq_some.1 hlocu).1]
            rfl
          · exact hrest r ((List.mem_cons.1 hr).resolve_left (Ne.symm hrow))
      | Insert name row values =>
          obtain ⟨schema, batch, -, hfree, -, rfl⟩ := apply_insert_ok hd
          obtain ⟨schemau, batchu, -, hfreeu, -, rfl⟩ := apply_insert_ok hdu
          intro r hr
          by_cases hrow : row = r
          · subst hrow
            rw [hfree, hfreeu]
          · have hr := hrest r ((List.mem_cons.1 hr).resolve_left (Ne.symm hrow))
            simpa [RowPositionMap.position_of_insert, hrow] using hr
      | Delete name row =>
          obtain ⟨loc, batch, patched, hloc, -, rfl⟩ := apply_delete_ok tick hd
          obtain ⟨locu, batchu, patchedu, hlocu, -, rfl⟩ := apply_delete_ok tick' hdu
          intro r hr
          by_cases hrow : row = r
          · subst hrow
            rw [(VersionedTable.locate_eq_some.1 hloc).1, (VersionedTable.locate_eq_some.1 hlocu).1]
            rfl
          · have hr := hrest r ((List.mem_cons.1 hr).resolve_left (Ne.symm hrow))
            simpa [RowPositionMap.position_of_remove, hrow] using hr

/-- If the diffs go through again and end with the same books, then they look up no row
that they add or take away, and record nothing in a history. -/
theorem same_rows_of_replay {reg : TypeRegistry} {tick : Tick} {ds : List Diff}
    {t t' : VersionedTable} (h : ArrowStore.run_table reg tick t ds = (.ok (), t'))
    (hagain : ArrowStore.run_table reg tick { t' with versions := t.versions } ds = (.ok (), t')) :
    SameRows tick t ds := by
  obtain ⟨hentry, hindex⟩ := booked_run h
  refine ⟨fun r hr e he => ?_, fun hsome k => ?_⟩
  · have hr := named_of_runs h hagain r hr
    simp only [hentry r, he, Option.getD_some] at hr
    exact hr.symm
  · rw [undone_eq_rebooked (run_table_setup h)] at hagain
    have hsame := (booked_run hagain).2
    have hkept := index_run_eq_iff.1 hsame.symm
    rcases hk : last_key (pk_col_name t) k (t.batches tick).length ds with _ | b
    · rfl
    · have hnone := (hkept k b hk).1
      have hgrow := historical_index_run t.primary_key_index (pk_col_name t) tick
        (t.batches tick).length ds
      rw [primary_key_index_rebooked] at hnone
      rw [← hindex, hnone, hsome] at hgrow
      cases hgrow

/-! ## The store after a failed commit -/

/-- `u` has the batches of `s` and the books of `mid`, which the diffs made of `s`. -/
structure Undone (tick : Tick) (ds : List Diff) (s mid u : ArrowStore) : Prop where
  type_registry : u.type_registry = s.type_registry
  lifecycle : u.lifecycle = s.lifecycle
  missing : ∀ n : String, s.tables[n]? = none → u.tables[n]? = none ∧ mid.tables[n]? = none
  table : ∀ (n : String) (lock : RwLock VersionedTable), s.tables[n]? = some lock →
    ∃ t', mid.tables[n]? = some { lock with data := t' }
      ∧ ArrowStore.run_table s.type_registry.data tick lock.data (ArrowStore.diffs_of n ds)
        = (.ok (), t')
      ∧ u.tables[n]? = some { lock with data := { t' with versions := lock.data.versions } }

/-- Putting back what was saved before the diffs. Snapshots made in between change no
table. -/
theorem undone_of_restore {tick : Tick} {ds : List Diff} {s mid s₂ : ArrowStore}
    {saved : Map String Versions} {snapshot : WorldSnapshot}
    (hsaved : s.save_table_versions (ds.map Diff.table) = .ok saved)
    (hdiffs : s.apply_diffs tick ds = (.ok (), mid))
    (hsnapshot : mid.generate_snapshot tick = (.ok snapshot, s₂)) :
    Undone tick ds s mid (s₂.restore_table_versions saved).2 := by
  obtain ⟨-, hhealthy, hrun⟩ := ArrowStore.apply_diffs_ok.1 hdiffs
  obtain ⟨hsame, htables⟩ := ArrowStore.forEach_apply_diff_ok hrun
  obtain ⟨-, hdo⟩ := ArrowStore.generate_snapshot_ok.1 hsnapshot
  obtain ⟨-, -, rfl⟩ := ArrowStore.do_generate_snapshot_ok hdo
  obtain ⟨saved', hsaved', hget⟩ := ArrowStore.save_healthy hhealthy
  obtain rfl : saved' = saved := by simpa [hsaved] using hsaved'.symm
  generalize hs₂ : { mid with
    generation := (mid.generation + 1) % 2 ^ 64
    snapshots := mid.snapshots.insert tick snapshot } = s₂
  have hmid : s₂.tables = mid.tables := by rw [← hs₂]
  -- the tables that were saved are healthy still
  have hkeys : s₂.Healthy (saved'.toList.map Prod.fst) := by
    intro n hn lock hlock
    obtain ⟨⟨m, v⟩, hmem, rfl⟩ := List.mem_map.1 hn
    have hv := Std.ExtTreeMap.mem_toList_iff_getElem?_eq_some.1 hmem
    rw [hget] at hv
    split at hv
    · rename_i hin
      obtain ⟨lock', hlock', -⟩ := Option.map_eq_some_iff.1 hv
      obtain ⟨t', ht', -⟩ := (htables m).2 lock' hlock'
      rw [hmid, ht'] at hlock
      obtain rfl := Option.some.inj hlock
      exact hhealthy m hin lock' hlock'
    · cases hv
  have hrestore : (s₂.restore_table_versions saved').2
      = saved'.toList.foldl (fun s entry => (ArrowStore.restore_one s entry).2) s₂ := by
    rw [ArrowStore.restore_table_versions, ArrowStore.restore_healthy hkeys]
  have hrestored := ArrowStore.restored_same s₂ saved'.toList
  rw [hrestore]
  refine ⟨?_, ?_, fun n hn => ?_, fun n lock hlock => ?_⟩
  · rw [hrestored.type_registry, ← hs₂]
    exact hsame.type_registry
  · rw [hrestored.lifecycle, ← hs₂]
    exact hsame.lifecycle
  · rw [ArrowStore.restored_tables, hget, hn, hmid, ((htables n).1 hn).1]
    simp
  · obtain ⟨t', ht', htable, -⟩ := (htables n).2 lock hlock
    refine ⟨t', ht', htable, ?_⟩
    rw [ArrowStore.restored_tables, hget, hmid, ht', hlock]
    by_cases hin : n ∈ ds.map Diff.table
    · have hp := hhealthy n hin lock hlock
      simp [hin, ArrowStore.put_back, hp]
    · -- no diff names the table, so there is nothing to undo
      have hnone : ArrowStore.diffs_of n ds = [] :=
        ArrowStore.diffs_of_eq_nil.2 fun d hd heq => hin (heq ▸ List.mem_map_of_mem hd)
      rw [hnone, ArrowStore.run_table, forEach_nil] at htable
      obtain rfl : lock.data = t' := (Prod.mk.inj htable).2
      simp [hin]

namespace Undone

variable {tick : Tick} {ds : List Diff} {s mid u : ArrowStore}

/-- The same diffs go through again, to the same tables. -/
theorem apply_diffs (h : Undone tick ds s mid u) (hdiffs : s.apply_diffs tick ds = (.ok (), mid))
    (hplaces : ∀ (n : String) (lock : RwLock VersionedTable), s.tables[n]? = some lock →
      SamePlaces tick lock.data (ArrowStore.diffs_of n ds)) :
    ∃ mid', u.apply_diffs tick ds = (.ok (), mid') ∧ mid'.tables = mid.tables
      ∧ mid'.lifecycle = mid.lifecycle := by
  obtain ⟨hsim, hhealthy, hrun⟩ := ArrowStore.apply_diffs_ok.1 hdiffs
  obtain ⟨hsame, htables⟩ := ArrowStore.forEach_apply_diff_ok hrun
  -- the phase and the locks are as before; the tables are as the undo left them
  have hsim' : u.InSimulation := by
    rwa [ArrowStore.InSimulation, h.lifecycle]
  have hhealthy' : u.Healthy (ds.map Diff.table) := by
    intro n hn lock' hlock'
    rcases hs : s.tables[n]? with _ | lock
    · rw [(h.missing n hs).1] at hlock'
      cases hlock'
    · obtain ⟨t', -, -, hu⟩ := h.table n lock hs
      obtain rfl := Option.some.inj (hu.symm.trans hlock')
      exact hhealthy n hn lock hs
  obtain ⟨mid', hrun'⟩ : ∃ mid', forEach (ArrowStore.apply_diff tick) u ds = (.ok (), mid') := by
    refine ArrowStore.forEach_apply_diff_of_tables ?_ fun d hd => ?_
    · rw [h.type_registry]
      exact ArrowStore.forEach_apply_diff_registry hrun
    · rcases hs : s.tables[d.table]? with _ | lock
      · exact absurd rfl (ArrowStore.diffs_of_eq_nil.1 ((htables d.table).1 hs).2 d hd)
      · obtain ⟨t', -, htable, hu⟩ := h.table d.table lock hs
        refine ⟨_, t', hu, hhealthy _ (List.mem_map_of_mem hd) lock hs, ?_⟩
        rw [h.type_registry]
        exact replay_table htable (hplaces d.table lock hs)
  obtain ⟨hsame', htables'⟩ := ArrowStore.forEach_apply_diff_ok hrun'
  refine ⟨mid', ArrowStore.apply_diffs_ok.2 ⟨hsim', hhealthy', hrun'⟩,
    Std.ExtTreeMap.ext_getElem? fun n => ?_, ?_⟩
  · rcases hs : s.tables[n]? with _ | lock
    · obtain ⟨hu, hmid⟩ := h.missing n hs
      rw [hmid, ((htables' n).1 hu).1]
    · obtain ⟨t', hmid, htable, hu⟩ := h.table n lock hs
      obtain ⟨t'', hmid', htable', -⟩ := (htables' n).2 _ hu
      rw [h.type_registry] at htable'
      have hagain := replay_table htable (hplaces n lock hs)
      obtain rfl : t' = t'' := (Prod.mk.inj (hagain.symm.trans htable')).2
      rw [hmid, hmid']
  · rw [hsame'.lifecycle, h.lifecycle, hsame.lifecycle]

/-- If they go through again to the same tables, the condition holds but for rows that
have moved. -/
theorem same_rows (h : Undone tick ds s mid u) {mid' : ArrowStore}
    (hdiffs : u.apply_diffs tick ds = (.ok (), mid')) (htables : mid'.tables = mid.tables)
    {n : String} {lock : RwLock VersionedTable} (hlock : s.tables[n]? = some lock) :
    SameRows tick lock.data (ArrowStore.diffs_of n ds) := by
  obtain ⟨-, -, hrun⟩ := ArrowStore.apply_diffs_ok.1 hdiffs
  obtain ⟨t', hmid, htable, hu⟩ := h.table n lock hlock
  obtain ⟨t'', hmid', htable', -⟩ := ((ArrowStore.forEach_apply_diff_ok hrun).2 n).2 _ hu
  rw [htables, hmid] at hmid'
  obtain rfl : t' = t'' := congrArg RwLock.data (Option.some.inj hmid')
  rw [h.type_registry] at htable'
  exact same_rows_of_replay htable htable'

end Undone

end Replay

/-! ## The engine after a failed commit -/

namespace QueryEngine

/-- The engines differ in the data of their cells only. -/
structure SameLocks (q q' : QueryEngine) : Prop where
  schema_registry : q'.schema_registry = q.schema_registry
  view_cache : q'.view_cache.poisoned = q.view_cache.poisoned
  latest_snapshot : q'.latest_snapshot.poisoned = q.latest_snapshot.poisoned
  pending_ingest : q'.pending_ingest.poisoned = q.pending_ingest.poisoned

theorem SameLocks.refl (q : QueryEngine) : SameLocks q q := ⟨rfl, rfl, rfl, rfl⟩

theorem SameLocks.trans {q q' q'' : QueryEngine} (h : SameLocks q q') (h' : SameLocks q' q'') :
    SameLocks q q'' :=
  ⟨h'.1.trans h.1, h'.2.trans h.2, h'.3.trans h.3, h'.4.trans h.4⟩

/-- The handle takes the engine back to where the ingest began, cell by cell. -/
theorem rollback_exact {q q₁ q₂ : QueryEngine} {saved : QueryEngineIngestRollback}
    (hbegin : q.begin_ingest = (.ok saved, q₁)) (h : SameLocks q₁ q₂) :
    (q₂.rollback saved).2 = q := by
  obtain ⟨⟨hc, hs, hp⟩, hidle, rfl, rfl⟩ := begin_ingest_ok.1 hbegin
  obtain ⟨hreg, hc', hs', hp'⟩ := h
  simp only [stage, RwLock.poisoned_set] at hreg hc' hs' hp'
  unfold rollback
  simp only [RwLock.read_healthy (hc'.trans hc), RwLock.read_healthy (hs'.trans hs),
    RwLock.read_healthy (hp'.trans hp)]
  obtain ⟨_, _, ⟨_, _⟩, ⟨_, _⟩, ⟨_, _⟩⟩ := q
  obtain ⟨_, _, ⟨_, _⟩, ⟨_, _⟩, ⟨_, _⟩⟩ := q₂
  simp_all [RwLock.set]

theorem publish_same_locks (q : QueryEngine) (views : Option (Map String TableReadView))
    (snapshot : WorldSnapshot) : SameLocks q (q.publish views snapshot).2 := by
  rcases hc : q.view_cache.read with e | cache <;> rcases hs : q.latest_snapshot.read with e' | old <;>
    rcases views with _ | views <;> simp only [publish, hc, hs] <;> exact ⟨rfl, rfl, rfl, rfl⟩

end QueryEngine

section Faults

variable [Concat]

/-- An engine that fails where the source's does not have to. If it refuses to begin an
ingest it writes nothing; later it may leave anything in its cells. -/
structure Faulty (faulty : SnapshotIngestor QueryEngine) : Prop where
  begin_ingest : ∀ q : QueryEngine, faulty.begin_ingest q = QueryEngine.ingestor.begin_ingest q
    ∨ ∃ e, faulty.begin_ingest q = (.error e, q)
  ingest_snapshot : ∀ (q : QueryEngine) tick table_name batches position_map,
    q.SameLocks (faulty.ingest_snapshot q tick table_name batches position_map).2
  store_snapshot : ∀ (q : QueryEngine) snapshot, q.SameLocks (faulty.store_snapshot q snapshot).2

/-- The source's engine is one, for the failures it has by itself. -/
theorem faulty_ingestor : Faulty QueryEngine.ingestor := by
  refine ⟨fun q => .inl rfl, fun q tick table_name batches position_map => ?_, fun q snapshot => ?_⟩
  · simp only [QueryEngine.ingestor, QueryEngine.ingest_snapshot]
    repeat' split
    all_goals exact ⟨rfl, rfl, rfl, rfl⟩
  · simp only [QueryEngine.ingestor, QueryEngine.store_world_snapshot]
    repeat' split
    all_goals first | exact .refl q | exact q.publish_same_locks _ _

/-- The engine before an ingest, the handle, and the engine since. -/
inductive Begun : Option QueryEngine → Option (QueryEngine → Except String Unit × QueryEngine) →
    Option QueryEngine → Prop where
  | detached : Begun none none none
  | attached {q q₁ q₂ : QueryEngine} {saved : QueryEngine.QueryEngineIngestRollback}
      (hbegin : q.begin_ingest = (.ok saved, q₁)) (hsame : q₁.SameLocks q₂) :
      Begun (some q) (some fun q => q.rollback saved) (some q₂)

namespace Journal

variable {J : Type} {faulty : SnapshotIngestor QueryEngine} {j j' : Journal QueryEngine J}

theorem begin_ingest_faulty (hfaulty : Faulty faulty)
    {r : JournalResult (Option (QueryEngine → Except String Unit × QueryEngine))}
    (h : j.begin_ingest faulty = (r, j')) :
    (∃ e, r = .error e ∧ j' = j) ∨ ∃ rollback q, r = .ok rollback
      ∧ j' = { j with query_engine := q } ∧ Begun j.query_engine rollback q := by
  unfold begin_ingest at h
  split at h
  · rename_i hq
    obtain ⟨rfl, rfl⟩ := Prod.mk.inj h
    exact .inr ⟨none, none, rfl, by rw [← hq], hq ▸ .detached⟩
  rename_i q hq
  have hkeep : { j with query_engine := some q } = j := by rw [← hq]
  rcases hfaulty.begin_ingest q with hreal | ⟨e, herr⟩
  · rw [hreal] at h
    simp only [QueryEngine.ingestor] at h
    rcases hbegin : q.begin_ingest with ⟨e | saved, q₁⟩
    · obtain rfl := QueryEngine.begin_ingest_error hbegin
      obtain ⟨rfl, rfl⟩ := Prod.mk.inj h
      exact .inl ⟨_, by rw [hbegin]; rfl, by rw [hbegin, hkeep]⟩
    · rw [hbegin] at h
      obtain ⟨rfl, rfl⟩ := Prod.mk.inj h
      refine .inr ⟨_, some q₁, rfl, rfl, ?_⟩
      rw [hq]
      exact .attached hbegin (.refl _)
  · rw [herr] at h
    obtain ⟨rfl, rfl⟩ := Prod.mk.inj h
    exact .inl ⟨_, rfl, hkeep⟩

theorem publish_snapshot_faulty (hfaulty : Faulty faulty) (store : ArrowStore) (tick : Tick)
    (q : QueryEngine) : q.SameLocks (publish_snapshot faulty store tick q).2 := by
  unfold publish_snapshot
  rcases store.get_snapshot tick with e | snapshot
  · exact .refl q
  have hloop := forEach_invariant snapshot.table_names
    (f := publish_table faulty store tick) (P := q.SameLocks) ?_ (.refl q)
  · simp only
    split
    · rename_i heq
      rwa [heq] at hloop
    · rename_i heq
      rw [heq] at hloop
      exact hloop.trans (hfaulty.store_snapshot _ _)
  · intro q' n _ hq'
    unfold publish_table
    simp only
    split
    · exact hq'
    · exact hq'.trans (hfaulty.ingest_snapshot _ _ _ _ _)

theorem publish_faulty (hfaulty : Faulty faulty) {tick : Tick} {r : JournalResult Unit}
    {q : Option QueryEngine}
    {rollback : Option (QueryEngine → Except String Unit × QueryEngine)}
    (hbegun : Begun q rollback j.query_engine) (h : j.publish faulty tick = (r, j')) :
    ∃ q', j' = { j with query_engine := q' } ∧ Begun q rollback q' := by
  unfold publish at h
  split at h
  · rename_i hq
    obtain ⟨-, rfl⟩ := Prod.mk.inj h
    exact ⟨j.query_engine, rfl, hbegun⟩
  · rename_i q₁ hq
    obtain ⟨-, rfl⟩ := Prod.mk.inj h
    rw [hq] at hbegun
    cases hbegun with
    | attached hbegin hsame =>
        exact ⟨_, rfl, .attached hbegin (hsame.trans (publish_snapshot_faulty hfaulty _ _ _))⟩

omit [Concat] in
theorem undo_ingest_begun {q : Option QueryEngine}
    {rollback : Option (QueryEngine → Except String Unit × QueryEngine)}
    (hbegun : Begun q rollback j.query_engine) :
    j.undo_ingest rollback = { j with query_engine := q } := by
  unfold undo_ingest
  generalize hq : j.query_engine = q₂ at hbegun
  cases hbegun with
  | detached => rw [← hq]
  | attached hbegin hsame =>
      simp only [QueryEngine.rollback_exact hbegin hsame]

/-- Whatever the fault in the second half, the engine is as it was before. -/
theorem deliver_undone (hfaulty : Faulty faulty) {saver : SaveJournal J} {tick : Tick}
    {saved : Map String Versions} {diffs : List Diff} {commands : List CommandEnvelope}
    {state_hash : UInt64} {e : JournalError}
    (h : j.deliver faulty saver tick saved diffs commands state_hash = (.error e, j')) :
    ∃ sj, j' = { j with save_journal := sj }.put_back saved diffs commands := by
  unfold deliver at h
  rcases hbegin : j.begin_ingest faulty with ⟨r, j₁⟩
  rw [hbegin] at h
  rcases begin_ingest_faulty hfaulty hbegin with ⟨e', rfl, rfl⟩ | ⟨rollback, q, rfl, rfl, hbegun⟩
  · exact ⟨j₁.save_journal, (Prod.mk.inj h).2.symm⟩
  simp only at h
  rcases hpublish : publish faulty { j with query_engine := q } tick with ⟨r, j₂⟩
  obtain ⟨q', rfl, hbegun'⟩ := publish_faulty hfaulty hbegun hpublish
  rw [hpublish] at h
  rcases r with e' | ⟨⟩
  · simp only at h
    rw [undo_ingest_begun (j := { j with query_engine := q' }) hbegun'] at h
    exact ⟨j.save_journal, (Prod.mk.inj h).2.symm⟩
  simp only at h
  rcases happend : append saver { j with query_engine := q' }
    (.with_commands tick diffs commands state_hash) with ⟨e' | ⟨⟩, j₃⟩
  · obtain ⟨sj, -, rfl⟩ := append_error happend
    rw [happend] at h
    simp only at h
    rw [undo_ingest_begun (j := { j with query_engine := q', save_journal := sj }) hbegun'] at h
    exact ⟨sj, (Prod.mk.inj h).2.symm⟩
  · rw [happend] at h
    cases h

end Journal

end Faults

/-! ## The second half again -/

namespace Journal

section Again

variable {Q J : Type} {ingestor : SnapshotIngestor Q} {saver : SaveJournal J} {j j' k : Journal Q J}

/-- What is published depends on the tables and on the snapshot of the tick. -/
theorem publish_snapshot_congr {s u : ArrowStore} {tick : Tick} (htables : u.tables = s.tables)
    (hsnapshot : u.get_snapshot tick = s.get_snapshot tick) (q : Q) :
    publish_snapshot ingestor u tick q = publish_snapshot ingestor s tick q := by
  have htable : publish_table ingestor u tick = publish_table ingestor s tick := by
    funext q n
    simp only [publish_table, ArrowStore.get_table_batches, ArrowStore.get_table, htables]
  simp only [publish_snapshot, hsnapshot, htable]

/-- A save journal that takes every record. -/
def Working (saver : SaveJournal J) : Prop := ∀ x record, (saver.append x record).1 = .ok ()

theorem Working.append (hworks : Working saver) (j : Journal Q J) (record : CommitRecord) :
    ∃ sj, j.append saver record = (.ok (), { j with save_journal := sj }) := by
  unfold Journal.append
  rcases hsj : j.save_journal with _ | x
  · exact ⟨j.save_journal, rfl⟩
  · exact ⟨_, Prod.ext (hworks x record) rfl⟩

/-- Two journals with the same engine and the same to publish. -/
theorem deliver_again {tick : Tick} {saved : Map String Versions}
    (saved' : Map String Versions) {diffs : List Diff}
    {commands : List CommandEnvelope} {state_hash : UInt64} {result : CommitResult}
    (hworks : Working saver) (hengine : k.query_engine = j.query_engine)
    (hpublish : ∀ q, publish_snapshot ingestor k.arrow_store tick q
      = publish_snapshot ingestor j.arrow_store tick q)
    (h : j.deliver ingestor saver tick saved diffs commands state_hash = (.ok result, j')) :
    ∃ k', k.deliver ingestor saver tick saved' diffs commands state_hash = (.ok result, k')
      ∧ k'.query_engine = j'.query_engine := by
  unfold deliver begin_ingest publish at h ⊢
  rw [hengine]
  rcases hq : j.query_engine with _ | q
  · simp only [hq, hengine] at h ⊢
    obtain ⟨sj, hj⟩ := hworks.append j (.with_commands tick diffs commands state_hash)
    obtain ⟨sj', hk⟩ := hworks.append k (.with_commands tick diffs commands state_hash)
    simp only [hj, hk] at h ⊢
    obtain ⟨hresult, rfl⟩ := Prod.mk.inj h
    exact ⟨_, Prod.ext hresult rfl, by simp [finish, hq, hengine]⟩
  · rcases hbegin : ingestor.begin_ingest q with ⟨e | rollback, q₁⟩
    · simp [hq, hbegin, Except.map, Except.mapError] at h
    simp only [hq, hbegin, Except.map, Except.mapError] at h ⊢
    rw [hpublish]
    rcases hp : publish_snapshot ingestor j.arrow_store tick q₁ with ⟨e | ⟨⟩, q₂⟩
    · simp [hp] at h
    simp only [hp] at h ⊢
    obtain ⟨sj, hj⟩ := hworks.append { j with query_engine := some q₂ }
      (.with_commands tick diffs commands state_hash)
    obtain ⟨sj', hk⟩ := hworks.append { k with query_engine := some q₂ }
      (.with_commands tick diffs commands state_hash)
    simp only [hj, hk] at h ⊢
    obtain ⟨hresult, rfl⟩ := Prod.mk.inj h
    exact ⟨_, Prod.ext hresult rfl, rfl⟩

end Again

/-! ## The retry -/

section Retry

variable [Render] [Concat] {J : Type} {saver : SaveJournal J} {j j₁ jf : Journal QueryEngine J}

/-- Every table can be done again. -/
def Repeatable (j : Journal QueryEngine J) : Prop :=
  ∀ (n : String) (lock : RwLock VersionedTable), j.arrow_store.tables[n]? = some lock →
    SamePlaces j.current_tick lock.data (ArrowStore.diffs_of n j.pending_diffs)

/-- Every table can, if its rows stay where they are. -/
def NearlyRepeatable (j : Journal QueryEngine J) : Prop :=
  ∀ (n : String) (lock : RwLock VersionedTable), j.arrow_store.tables[n]? = some lock →
    SameRows j.current_tick lock.data (ArrowStore.diffs_of n j.pending_diffs)

/-- A commit of the journal that returns this result and leaves these tables and this
engine. -/
def CommitsLike (saver : SaveJournal J) (j₁ : Journal QueryEngine J) (result : CommitResult)
    (jf : Journal QueryEngine J) : Prop :=
  ∃ j₂, j₁.commit QueryEngine.ingestor saver = (.ok result, j₂)
    ∧ j₂.arrow_store.tables = jf.arrow_store.tables ∧ j₂.query_engine = jf.query_engine

/-- What a commit leaves that failed in its second half. -/
theorem commit_undone {saved : Map String Versions} {mid s : ArrowStore} {snapshot : WorldSnapshot}
    {state_hash : UInt64} {faulty : SnapshotIngestor QueryEngine} {faulty_saver : SaveJournal J}
    {e : JournalError} (hfaulty : Faulty faulty) (happlies : Applies j saved mid s snapshot state_hash)
    (hfail : j.commit faulty faulty_saver = (.error e, j₁)) :
    ∃ sj u, j₁ = { j with arrow_store := u, save_journal := sj }
      ∧ Undone j.current_tick j.pending_diffs j.arrow_store mid u := by
  rw [happlies.commit] at hfail
  obtain ⟨sj, rfl⟩ := deliver_undone hfaulty hfail
  refine ⟨sj, _, ?_, undone_of_restore happlies.saved happlies.diffs happlies.snapshot⟩
  simp only [put_back, applied, happlies.phase]

/-- A commit that would go through, made with a fault in the engine or in the save
journal, and made again without: the second goes as the first would have gone, if each
row that a pending diff looks up has after the diffs the entry it had, and nothing is
recorded in a history. Of the condition only this is not needed, that a row which is
there before and after has not moved. -/
theorem commit_retried {faulty : SnapshotIngestor QueryEngine} {faulty_saver : SaveJournal J}
    {result : CommitResult} {e : JournalError} (hfaulty : Faulty faulty) (hworks : Working saver)
    (hfresh : j.commit QueryEngine.ingestor saver = (.ok result, jf))
    (hfail : j.commit faulty faulty_saver = (.error e, j₁)) :
    (j.Repeatable → CommitsLike saver j₁ result jf)
      ∧ (CommitsLike saver j₁ result jf → j.NearlyRepeatable) := by
  obtain ⟨saved, mid, s, snapshot, state_hash, happlies⟩ := commit_ok hfresh
  obtain ⟨sj, u, rfl, hundone⟩ := commit_undone hfaulty happlies hfail
  rw [happlies.commit] at hfresh
  obtain ⟨-, q, sj', hjf⟩ := deliver_ok hfresh
  obtain ⟨-, hdo⟩ := ArrowStore.generate_snapshot_ok.1 happlies.snapshot
  obtain ⟨-, -, hs⟩ := ArrowStore.do_generate_snapshot_ok hdo
  have hmid : s.tables = mid.tables := by rw [hs]
  have htables : jf.arrow_store.tables = mid.tables := by
    rw [hjf, ← hmid]
    rfl
  -- the failed commit has left a store from which the diffs run again, to the same tables
  refine ⟨fun hrepeatable => ?_, fun ⟨j₂, hcommit, hsame, _⟩ n lock hlock => ?_⟩
  · obtain ⟨mid', hdiffs, hmid', hlifecycle⟩ := hundone.apply_diffs happlies.diffs hrepeatable
    obtain ⟨s', hsnapshot, hs', hget⟩ :=
      ArrowStore.generate_snapshot_congr hmid' hlifecycle happlies.snapshot
    obtain ⟨saved', hsaved⟩ := ArrowStore.save_ok_iff.2 (ArrowStore.apply_diffs_ok.1 hdiffs).2.1
    have happlies' : Applies { j with arrow_store := u, save_journal := sj } saved' mid' s' snapshot
        state_hash :=
      ⟨happlies.phase, hsaved, hdiffs, hsnapshot, happlies.hash⟩
    obtain ⟨j₂, hagain, hengine⟩ := deliver_again (j := j.applied s) saved' hworks
      (k := applied { j with arrow_store := u, save_journal := sj } s') rfl
      (publish_snapshot_congr hs' hget) hfresh
    refine ⟨j₂, (happlies'.commit _ _).trans hagain, ?_, hengine⟩
    obtain ⟨-, q', sj'', rfl⟩ := deliver_ok hagain
    rw [htables, ← hmid, ← hs']
    rfl
  · obtain ⟨saved', mid', s', snapshot', state_hash', happlies'⟩ := commit_ok hcommit
    rw [happlies'.commit] at hcommit
    obtain ⟨-, q', sj'', rfl⟩ := deliver_ok hcommit
    obtain ⟨-, hdo'⟩ := ArrowStore.generate_snapshot_ok.1 happlies'.snapshot
    obtain ⟨-, -, hs'⟩ := ArrowStore.do_generate_snapshot_ok hdo'
    have hmid' : mid'.tables = mid.tables := by
      rw [← htables, ← hsame, hs']
      rfl
    exact hundone.same_rows happlies'.diffs hmid' hlock

end Retry

/-! ## Two retries -/

section Items

attribute [local instance] plain_text QueryEngine.no_merge

/-- An engine that does not begin an ingest. -/
def offline : SnapshotIngestor QueryEngine :=
  { QueryEngine.ingestor with begin_ingest := fun q => (.error "offline", q) }

theorem offline_faulty : Faulty offline :=
  ⟨fun _ => .inr ⟨"offline", rfl⟩, faulty_ingestor.ingest_snapshot, faulty_ingestor.store_snapshot⟩

/-- A pending update, with an engine attached. -/
def update_pending : Journal QueryEngine (List CommitRecord) :=
  (items_journal one_item [set_qty "items"]).with_query_engine QueryEngine.blank_engine

/-- An update looks up a row and leaves its entry, so it can be done again. -/
theorem update_retried :
    ∃ result, (items_commit update_pending).1 = .ok result
      ∧ CommitsLike InMemorySaveJournal (update_pending.commit offline InMemorySaveJournal).2 result
        (items_commit update_pending).2 := by
  have hfresh : (items_commit update_pending).1 = .ok ⟨0, 1, 0,
      fnv1a_64 ((Render.diff_to_string (set_qty "items")).toOption.getD "").toUTF8.toList⟩ := by
    decide +kernel
  have hfail : (update_pending.commit offline InMemorySaveJournal).1
      = .error (.Generic "begin query ingest: offline") := by decide +kernel
  refine ⟨_, hfresh, (commit_retried offline_faulty (fun _ _ => rfl) (eq_of_verdict hfresh)
    (Prod.ext hfail rfl)).1 fun n lock _ => ?_⟩
  have hdiffs : update_pending.pending_diffs = [set_qty "items"] := rfl
  rw [hdiffs, ArrowStore.diffs_of_cons]
  split <;> exact ⟨fun r _ e he => (by cases he), fun _ k => rfl⟩

/-- A save journal that refuses every record. -/
def full_journal : SaveJournal (List CommitRecord) where
  append entries _ := (.error (.SaveJournal "full"), entries)

/-- An insert cannot: the failed commit leaves its row in the position map, and from then
on every commit of the pending list finds it a duplicate. -/
theorem insert_not_retried :
    let j := (items_journal items_store [.Insert "items" 1 (item 1 10)]).with_save_journal []
    let failed := j.commit QueryEngine.ingestor full_journal
    (items_commit j).1.toOption.isSome ∧ failed.1 = .error (.SaveJournal "full")
      ∧ (items_commit failed.2).1
        = .error (.ArrowStore "apply_diffs: duplicate RowId 1 in table 'items'")
      ∧ ¬ ∃ result, CommitsLike InMemorySaveJournal failed.2 result (items_commit j).2 := by
  intro j failed
  have herr : (items_commit failed.2).1
      = .error (.ArrowStore "apply_diffs: duplicate RowId 1 in table 'items'") := by decide +kernel
  refine ⟨by decide +kernel, by decide +kernel, herr, ?_⟩
  rintro ⟨result, j₂, hok, -⟩
  have hcommit : items_commit failed.2 = (.ok result, j₂) := hok
  rw [hcommit] at herr
  cases herr

end Items

end Journal

end Scharnhorst
