/-
What a failed `apply_diffs` leaves behind.

On an error the saved batches go back, so a failed call never shows in the batches.
It shows in what was booked beside them: the position map and the key index keep what
the diffs before the failing one wrote there, and what a failing replace wrote before
it failed. So the call was atomic exactly when those writes add up to nothing, and
`KeepsBooks` says when they do, from the diffs and the table they found.
-/
import Scharnhorst.Bookkeeping
import Scharnhorst.Refinement

set_option autoImplicit false

namespace Scharnhorst

open Attempt Maps

section Atomic

variable [Render]

/-! ## How far a failing list gets -/

/-- The part of a failing diff that is booked, given the locks it needs. -/
def ArrowStore.booked_part (s : ArrowStore) (d : Diff) : List Diff :=
  s.tables[d.table]?.elim [] fun lock =>
    if (reads_registry d && s.type_registry.poisoned) || lock.poisoned then []
    else Scharnhorst.booked_part s.type_registry.data lock.data d

/-- The diffs of a list that are booked: those before the failing one, and its booked
part. -/
def processed (tick : Tick) : ArrowStore → List Diff → List Diff
  | _, [] => []
  | s, d :: ds =>
    match ArrowStore.apply_diff tick s d with
    | (.ok (), s') => d :: processed tick s' ds
    | (.error _, _) => s.booked_part d

/-- A table after the diffs of a list were booked in it. The batches are left open. -/
structure BookedTable (tick : Tick) (t t' : VersionedTable) (ds : List Diff) : Prop where
  setup : SameSetup t t'
  entry_eq : ∀ r, t'.position_map.position_of r
    = (last_entry (pk_col_name t) r (t.batches tick).length ds).getD (t.position_map.position_of r)
  index_eq : t'.primary_key_index
    = index_run (pk_col_name t) tick t.primary_key_index (t.batches tick).length ds

theorem BookedTable.nil (tick : Tick) (t : VersionedTable) : BookedTable tick t t [] :=
  ⟨.refl t, fun _ => rfl, rfl⟩

theorem BookedTable.cons {reg : TypeRegistry} {tick : Tick} {d : Diff} {ds : List Diff}
    {t mid t' : VersionedTable} (hd : apply_to_table reg tick d t = (.ok (), mid))
    (h : BookedTable tick mid t' ds) : BookedTable tick t t' (d :: ds) := by
  have hsetup : SameSetup t mid := by simpa only [hd] using apply_to_table_setup reg tick d t
  have hpk : pk_col_name mid = pk_col_name t := by rw [pk_col_name, hsetup.spec, pk_col_name]
  have hstep := booked_step hd
  obtain ⟨hrest, hentry, hindex⟩ := h
  rw [hpk, hstep.count_eq] at hentry hindex
  refine ⟨hsetup.trans hrest, fun r => ?_, ?_⟩
  · rw [hentry r, hstep.entry_eq r, last_entry]
    rcases last_entry (pk_col_name t) r (count_move (t.batches tick).length d) ds with _ | e <;> rfl
  · rw [hindex, hstep.index_eq, index_run]

theorem BookedTable.failed {reg : TypeRegistry} {tick : Tick} {d : Diff} {t t' : VersionedTable}
    {e : ArrowStoreError} (h : apply_to_table reg tick d t = (.error e, t')) :
    BookedTable tick t t' (Scharnhorst.booked_part reg t d) := by
  obtain ⟨hentry, hindex⟩ := booked_error h
  refine ⟨by simpa only [h] using apply_to_table_setup reg tick d t, hentry, ?_⟩
  rw [hindex, eq_comm]
  refine index_run_of_no_key fun k => ?_
  cases d with
  | ReplaceTable name rows =>
      rw [booked_part]
      split <;> rfl
  | Update name row column value => rfl
  | Insert name row values => rfl
  | Delete name row => rfl

omit [Render] in
theorem diffs_of_single {n : String} {ds : List Diff} (h : ∀ d ∈ ds, d.table = n) :
    ArrowStore.diffs_of n ds = ds := by
  simpa [ArrowStore.diffs_of, List.filter_eq_self] using h

theorem booked_part_table {reg : TypeRegistry} {t : VersionedTable} {d d' : Diff}
    (h : d' ∈ Scharnhorst.booked_part reg t d) : d'.table = d.table := by
  cases d with
  | ReplaceTable name rows =>
      rw [booked_part] at h
      split at h
      · cases h
      · obtain rfl := List.mem_singleton.1 h
        rfl
  | Update name row column value => cases h
  | Insert name row values => cases h
  | Delete name row => cases h

/-- One failing diff, table by table. -/
theorem apply_diff_failed {tick : Tick} {s mid : ArrowStore} {d : Diff} {e : ArrowStoreError}
    (h : ArrowStore.apply_diff tick s d = (.error e, mid)) (n : String) :
    (s.tables[n]? = none → mid.tables[n]? = none)
      ∧ ∀ lock, s.tables[n]? = some lock → ∃ t', mid.tables[n]? = some { lock with data := t' }
          ∧ BookedTable tick lock.data t' (ArrowStore.diffs_of n (s.booked_part d)) := by
  rcases ArrowStore.apply_diff_error h with ⟨rfl, hlocks⟩ |
    ⟨lockd, t', hlockd, ⟨hreg, hp⟩, hrun, rfl⟩
  · have hpart : mid.booked_part d = [] := by
      unfold ArrowStore.booked_part
      rcases hlock : mid.tables[d.table]? with _ | lock
      · rfl
      · have hno := hlocks lock hlock
        rw [Option.elim_some, if_pos]
        by_contra hsome
        obtain ⟨hreg, hp⟩ := Bool.or_eq_false_iff.1 (Bool.eq_false_iff.2 hsome)
        exact hno ⟨hreg, hp⟩
    rw [hpart]
    exact ⟨id, fun lock hlock => ⟨lock.data, hlock, .nil _ _⟩⟩
  · have hpart : s.booked_part d = Scharnhorst.booked_part s.type_registry.data lockd.data d := by
      simp [ArrowStore.booked_part, hlockd, hreg, hp]
    rw [ArrowStore.tables_set_table, hpart]
    by_cases hn : d.table = n
    · subst hn
      refine ⟨fun hnone => by simp [hlockd] at hnone, fun lock hlock => ⟨t', ?_, ?_⟩⟩
      · obtain rfl : lockd = lock := by simpa [hlockd] using hlock
        simp [RwLock.new, hp]
      · obtain rfl : lockd = lock := by simpa [hlockd] using hlock
        rw [diffs_of_single fun d' hd' => booked_part_table hd']
        exact .failed hrun
    · rw [if_neg hn, ArrowStore.diffs_of_eq_nil.2 fun d' hd' => (booked_part_table hd').symm ▸ hn]
      exact ⟨id, fun lock hlock => ⟨lock.data, hlock, .nil _ _⟩⟩

/-- What a failing list of diffs leaves, before the batches go back. -/
theorem forEach_apply_diff_failed {tick : Tick} {s mid : ArrowStore} {ds : List Diff}
    {e : ArrowStoreError} (h : forEach (ArrowStore.apply_diff tick) s ds = (.error e, mid))
    (n : String) :
    (s.tables[n]? = none → mid.tables[n]? = none)
      ∧ ∀ lock, s.tables[n]? = some lock → ∃ t', mid.tables[n]? = some { lock with data := t' }
          ∧ BookedTable tick lock.data t' (ArrowStore.diffs_of n (processed tick s ds)) := by
  induction ds generalizing s with
  | nil => simp at h
  | cons d ds ih =>
      rcases hd : ArrowStore.apply_diff tick s d with ⟨e' | _, s'⟩
      · rw [forEach_cons_of_error hd] at h
        obtain ⟨he, rfl⟩ := Prod.mk.inj h
        simpa only [processed, hd] using apply_diff_failed hd n
      · rw [forEach_cons_of_ok hd] at h
        obtain ⟨lockd, td, hlockd, hpd, hrun, rfl⟩ := ArrowStore.apply_diff_ok hd
        obtain ⟨hnone, hsome⟩ := ih h
        rw [ArrowStore.tables_set_table] at hnone hsome
        simp only [processed, hd, ArrowStore.diffs_of_cons]
        by_cases hn : d.table = n
        · subst hn
          rw [if_pos rfl] at hsome
          refine ⟨fun hn => by simp [hlockd] at hn, fun lock hlock => ?_⟩
          obtain rfl : lockd = lock := by simpa [hlockd] using hlock
          obtain ⟨t', ht', hbooked⟩ := hsome _ rfl
          rw [if_pos rfl]
          exact ⟨t', by simpa [RwLock.new, hpd] using ht', .cons hrun hbooked⟩
        · rw [if_neg hn] at hnone hsome ⊢
          exact ⟨hnone, hsome⟩

/-! ## The theorem -/

/-- The diffs end with the position map and the key index as they found them: the last
write for each row is the entry it had, and no key is recorded that shows. -/
structure KeepsBooks (tick : Tick) (t : VersionedTable) (ds : List Diff) : Prop where
  entries : ∀ r e, last_entry (pk_col_name t) r (t.batches tick).length ds = some e →
    t.position_map.position_of r = e
  keys : ∀ k b, last_key (pk_col_name t) k (t.batches tick).length ds = some b →
    KeyKept t.primary_key_index tick k b

theorem BookedTable.same_iff {tick : Tick} {t t' : VersionedTable} {ds : List Diff}
    (h : BookedTable tick t t' ds) :
    (t'.position_map = t.position_map ∧ t'.primary_key_index = t.primary_key_index)
      ↔ KeepsBooks tick t ds := by
  rw [h.index_eq, index_run_eq_iff]
  constructor
  · rintro ⟨hpm, hkeys⟩
    refine ⟨fun r e he => ?_, hkeys⟩
    have hr := h.entry_eq r
    rwa [hpm, he, Option.getD_some] at hr
  · rintro ⟨hentries, hkeys⟩
    refine ⟨RowPositionMap.ext fun r => ?_, hkeys⟩
    rw [h.entry_eq r]
    rcases he : last_entry (pk_col_name t) r (t.batches tick).length ds with _ | e
    · rfl
    · exact (hentries r e he).symm

theorem apply_diff_other {tick : Tick} (s : ArrowStore) {d : Diff} {n : String}
    (h : d.table ≠ n) : (ArrowStore.apply_diff tick s d).2.tables[n]? = s.tables[n]? := by
  rw [ArrowStore.apply_diff_eq]
  split
  · rfl
  · rw [ArrowStore.write_table_tables _ _ (apply_to_table_returns _ _ _), if_neg h]

theorem apply_diffs_same (s : ArrowStore) (tick : Tick) (ds : List Diff) :
    ArrowStore.SameButTables s (s.apply_diffs tick ds).2 := by
  have hinv := forEach_invariant ds (f := ArrowStore.apply_diff tick)
    (P := ArrowStore.SameButTables s)
    (fun t d _ ht => ht.trans (ArrowStore.apply_diff_same tick t d)) (.refl s)
  unfold ArrowStore.apply_diffs
  split
  · exact .refl s
  · dsimp only
    split
    · exact .refl s
    · split
      · rename_i hloop
        rwa [hloop] at hinv
      · rename_i hloop
        rw [hloop] at hinv
        exact hinv.trans (ArrowStore.restored_same _ _)

/-- What a failed call leaves, once it has begun: the batches of every table as they were,
and beside them what was booked. -/
theorem apply_diffs_failed {s s' : ArrowStore} {tick : Tick} {ds : List Diff}
    {e : ArrowStoreError} (h : s.apply_diffs tick ds = (.error e, s')) (hsim : s.InSimulation)
    (hhealthy : s.Healthy (ds.map Diff.table)) (n : String) :
    (s.tables[n]? = none → s'.tables[n]? = none)
      ∧ ∀ lock, s.tables[n]? = some lock → ∃ t',
          s'.tables[n]? = some { lock with data := { t' with versions := lock.data.versions } }
            ∧ BookedTable tick lock.data t' (ArrowStore.diffs_of n (processed tick s ds)) := by
  rcases ArrowStore.apply_diffs_error h with ⟨-, hearly⟩ | ⟨saved, mid, -, -, hsaved, hloop, rfl⟩
  · exact absurd ⟨hsim, hhealthy⟩ hearly
  obtain ⟨saved', hsaved', hget⟩ := ArrowStore.save_healthy (ArrowStore.healthy_dedup.2 hhealthy)
  obtain rfl : saved' = saved := by simpa [hsaved] using hsaved'.symm
  -- the batches are put back from the copies; position map and key index stay as booked
  obtain ⟨hnone, hsome⟩ := forEach_apply_diff_failed hloop n
  rw [ArrowStore.restored_tables, hget]
  refine ⟨fun hn => ?_, fun lock hlock => ?_⟩
  · rw [hn, hnone hn]
    simp
  obtain ⟨t', ht', hbooked⟩ := hsome lock hlock
  refine ⟨t', ?_, hbooked⟩
  rw [hlock, ht']
  by_cases hn : n ∈ (ds.map Diff.table).dedup
  · have hp := hhealthy n (List.mem_dedup.1 hn) lock hlock
    rw [if_pos hn]
    simp [ArrowStore.put_back, hp]
  · -- no diff names the table
    have hother := forEach_invariant ds (f := ArrowStore.apply_diff tick)
      (P := fun t : ArrowStore => t.tables[n]? = s.tables[n]?) ?_ (s := s) rfl
    · rw [hloop] at hother
      have hlock' := ht'.symm.trans (hother.trans hlock)
      have hdata : t' = lock.data := congrArg RwLock.data (Option.some.inj hlock')
      simp [hn, hdata]
    · intro t d hd ht
      have hne : d.table ≠ n := fun heq =>
        hn (List.mem_dedup.2 (heq ▸ List.mem_map_of_mem hd))
      rw [apply_diff_other t hne, ht]

/-- A failed call left the store as it was exactly when it was refused at the start, or
every table's books are kept by the diffs booked in it. -/
theorem apply_diffs_atomic_iff {s s' : ArrowStore} {tick : Tick} {ds : List Diff}
    {e : ArrowStoreError} (h : s.apply_diffs tick ds = (.error e, s')) :
    s' = s ↔ (s.InSimulation → s.Healthy (ds.map Diff.table) →
      ∀ (n : String) (lock : RwLock VersionedTable), s.tables[n]? = some lock →
        KeepsBooks tick lock.data (ArrowStore.diffs_of n (processed tick s ds))) := by
  by_cases hbegun : s.InSimulation ∧ s.Healthy (ds.map Diff.table)
  swap
  · rcases ArrowStore.apply_diffs_error h with ⟨rfl, -⟩ | ⟨saved, mid, hsim, hhealthy, -⟩
    · exact ⟨fun _ hsim hhealthy => absurd ⟨hsim, hhealthy⟩ hbegun, fun _ => rfl⟩
    · exact absurd ⟨hsim, hhealthy⟩ hbegun
  obtain ⟨hsim, hhealthy⟩ := hbegun
  have hsame : ArrowStore.SameButTables s s' := by
    have hsame := apply_diffs_same s tick ds
    rwa [h] at hsame
  -- with its batches back, a table is the old one up to what was booked
  have htable : ∀ (n : String) (lock : RwLock VersionedTable), s.tables[n]? = some lock →
      (s'.tables[n]? = s.tables[n]?
        ↔ KeepsBooks tick lock.data (ArrowStore.diffs_of n (processed tick s ds))) := by
    intro n lock hlock
    obtain ⟨t', ht', hbooked⟩ := (apply_diffs_failed h hsim hhealthy n).2 lock hlock
    rw [← hbooked.same_iff, hlock, ht']
    obtain ⟨hname, hmode, hspec, hfk, hparts⟩ := hbooked.setup
    obtain ⟨⟨_, _, _, _, _, _, _, _⟩, _⟩ := lock
    obtain ⟨_, _, _, _, _, _, _, _⟩ := t'
    simp_all [and_comm]
  constructor
  · rintro heq - - n lock hlock
    exact (htable n lock hlock).1 (by rw [heq])
  · intro hkeeps
    refine hsame.eq fun n => ?_
    rcases hn : s.tables[n]? with _ | lock
    · exact (apply_diffs_failed h hsim hhealthy n).1 hn
    · rw [← hn]
      exact (htable n lock hn).2 (hkeeps hsim hhealthy n lock hn)

end Atomic

/-! ## A call of each kind -/

section Items

attribute [local instance] plain_text

theorem set_qty_processed :
    processed 1 one_item [set_qty "items", set_qty "missing"] = [set_qty "items"] := by
  have hok : (ArrowStore.apply_diff 1 one_item (set_qty "items")).1 = .ok () := by decide +kernel
  have herr : (ArrowStore.apply_diff 1 (ArrowStore.apply_diff 1 one_item (set_qty "items")).2
      (set_qty "missing")).1 = .error (.TableNotFound "missing") := by decide +kernel
  rw [processed, eq_of_verdict hok]
  simp only
  rw [processed, (Prod.ext herr rfl : _ = (_, _))]
  simp only [ArrowStore.booked_part, booked_part, set_qty, List.cons.injEq, true_and]
  rcases (ArrowStore.apply_diff 1 one_item (.Update "items" 1 "qty" (number 11))).2.tables[
    (Diff.Update "missing" 1 "qty" (number 11)).table]? with _ | lock
  · rfl
  · simp

/-- An update books nothing, so a call that fails after one is atomic. -/
theorem apply_diffs_atomic_set_qty :
    (one_item.apply_diffs 1 [set_qty "items", set_qty "missing"]).2 = one_item := by
  have herr : (one_item.apply_diffs 1 [set_qty "items", set_qty "missing"]).1
      = .error (.TableNotFound "missing") := by decide +kernel
  refine (apply_diffs_atomic_iff (e := .TableNotFound "missing") (Prod.ext herr rfl)).2 ?_
  rintro - - n lock -
  rw [set_qty_processed, ArrowStore.diffs_of_cons]
  split
  · exact ⟨fun r e he => (by cases he), fun k b hb => (by cases hb)⟩
  · exact ⟨fun r e he => (by cases he), fun k b hb => (by cases hb)⟩

/-- An insert is booked. A call that fails after one leaves its row in the position
map, at the place of the row that is there, and refuses the same insert from then on. -/
theorem failed_insert_booked :
    let failed := one_item.apply_diffs 1 [.Insert "items" 2 (item 2 20), set_qty "missing"]
    failed.1 = .error (.TableNotFound "missing") ∧ failed.2 ≠ one_item
      ∧ (items_table one_item).position_map.position_of 2 = none
      ∧ (items_table failed.2).position_map.position_of 2 = some (0, 0)
      ∧ (failed.2.apply_diffs 1 [.Insert "items" 2 (item 2 20)]).1
        = .error (.DuplicateRowId "items" 2) := by
  intro failed
  have hold : (items_table one_item).position_map.position_of 2 = none := by decide +kernel
  have hnew : (items_table failed.2).position_map.position_of 2 = some (0, 0) := by decide +kernel
  refine ⟨by decide +kernel, fun heq => ?_, hold, hnew, by decide +kernel⟩
  rw [heq, hold] at hnew
  cases hnew

end Items

end Scharnhorst
