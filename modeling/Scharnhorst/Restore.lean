/-
What a loaded checkpoint is good for.

The files hold batches and nothing else. The loader never writes a position map, so a
table it makes has an empty one: its batches are there, and no row id leads to them. So
no row of a loaded table is found, and no update or delete of one goes through, whatever
the files held.
-/
import Scharnhorst.Checkpoint
import Scharnhorst.History

set_option autoImplicit false

namespace Scharnhorst

open Attempt Maps

/-! ## The loaded store -/

namespace ArrowStore

/-- No table places a row. -/
def Unplaced (s : ArrowStore) : Prop :=
  ∀ (n : String) (lock : RwLock VersionedTable), s.tables[n]? = some lock →
    lock.data.position_map = .new

theorem Unplaced.created {s : ArrowStore} (h : s.Unplaced) (name : String) :
    (s.create_loaded_table name).Unplaced := by
  intro n lock hlock
  simp only [create_loaded_table, Std.ExtTreeMap.getElem?_insert] at hlock
  split at hlock
  · obtain rfl := Option.some.inj hlock
    rfl
  · exact h n lock hlock

theorem fill_loaded_table_position_map (tick : Tick) (is_new : Bool) (batches : List RecordBatch)
    (table : VersionedTable) :
    (fill_loaded_table tick is_new batches table).position_map = table.position_map := by
  unfold fill_loaded_table
  rcases batches.head? with _ | first
  · rfl
  · cases is_new <;> rfl

theorem Unplaced.restored {s : ArrowStore} (h : s.Unplaced) (tick : Tick)
    (entry : String × List RecordBatch) : (restore_checkpoint_table tick s entry).2.Unplaced := by
  unfold restore_checkpoint_table
  simp only
  generalize (!s.tables.contains entry.1) = is_new
  have hs : (if is_new = true then s.create_loaded_table entry.1 else s).Unplaced := by
    split
    · exact h.created entry.1
    · exact h
  generalize (if is_new = true then s.create_loaded_table entry.1 else s) = u at hs ⊢
  intro n lock hlock
  rw [write_table_tables _ _ (fun _ => by simp [Returns])] at hlock
  split at hlock
  · obtain ⟨lock', hlock', rfl⟩ := Option.map_eq_some_iff.1 hlock
    split
    · exact hs n lock' hlock'
    · exact (fill_loaded_table_position_map _ _ _ _).trans (hs n lock' hlock')
  · exact hs n lock hlock

variable {D : Type} [CheckpointDisk D]

/-- A load that goes through has read the files, restored the tables one after the other, and
taken the snapshot. -/
theorem load_checkpoint_steps {s s' : ArrowStore} {disk : D} {tick : Tick}
    {snapshot : WorldSnapshot} (h : s.load_checkpoint disk tick = (.ok snapshot, s')) :
    ∃ table_batches l, read_checkpoint disk (checkpoint_dir tick) = .ok table_batches ∧
      table_batches ≠ ∅ ∧
      forEach (restore_checkpoint_table tick) s table_batches.toList = (.ok (), l) ∧
      l.do_generate_snapshot tick = (.ok snapshot, s') := by
  unfold ArrowStore.load_checkpoint at h
  split at h
  · cases h
  simp only at h
  split at h
  · cases h
  split at h
  · cases h
  rename_i table_batches hread
  split at h
  · cases h
  rename_i hempty
  split at h
  · cases h
  split at h
  · cases h
  rename_i l hloop
  refine ⟨table_batches, l, hread, ?_, hloop, h⟩
  rintro rfl
  exact hempty rfl

/-- Loading places no row. -/
theorem Unplaced.load_checkpoint {s s' : ArrowStore} {disk : D} {tick : Tick}
    {snapshot : WorldSnapshot} (hs : s.Unplaced)
    (h : s.load_checkpoint disk tick = (.ok snapshot, s')) : s'.Unplaced := by
  obtain ⟨table_batches, l, -, -, hloop, hsnapshot⟩ := load_checkpoint_steps h
  obtain ⟨-, -, rfl⟩ := do_generate_snapshot_ok hsnapshot
  have hinv := forEach_invariant table_batches.toList (P := ArrowStore.Unplaced)
    (fun s entry _ hs => hs.restored tick entry) hs
  rwa [hloop] at hinv

theorem Unplaced.into_simulation {s s' : ArrowStore} (hs : s.Unplaced)
    (h : s.into_simulation = (.ok (), s')) : s'.Unplaced := by
  unfold ArrowStore.into_simulation at h
  split at h
  · cases h
  split at h
  · cases h
  · obtain ⟨-, rfl⟩ := Prod.mk.inj h
    exact hs

theorem Unplaced.resolve {s : ArrowStore} (h : s.Unplaced) {n : String}
    {lock : RwLock VersionedTable} (hlock : s.tables[n]? = some lock) (row : RowId) :
    lock.data.resolve row = none := by
  have hlocate : lock.data.locate row = none := by
    rw [VersionedTable.locate_eq_none, h n lock hlock]
    exact .inl (RowPositionMap.position_of_new row)
  rw [VersionedTable.resolve, hlocate, Option.map_none]

/-- No change of a row goes through. -/
theorem Unplaced.refuses_change [Render] {s : ArrowStore} (h : s.Unplaced) (tick : Tick) {d : Diff}
    {name : String} {row : RowId} (hd : Changes d name row) :
    ∀ s', s.apply_diffs tick [d] ≠ (.ok (), s') := by
  intro s' hok
  obtain ⟨mid, hstep, -⟩ := forEach_cons_ok.1 (apply_diffs_ok.1 hok).2.2
  obtain ⟨lock, t', hlock, -, hrun, -⟩ := apply_diff_ok hstep
  have hnone : lock.data.locate row = none := by
    have hresolve := h.resolve hlock row
    rwa [VersionedTable.resolve, Option.map_eq_none_iff] at hresolve
  obtain ⟨column, value, rfl⟩ | rfl := hd
  · obtain ⟨loc, batch, patched, hloc, -⟩ := apply_update_ok tick hrun
    rw [hnone] at hloc
    cases hloc
  · obtain ⟨loc, batch, patched, hloc, -⟩ := apply_delete_ok tick hrun
    rw [hnone] at hloc
    cases hloc

/-! ## The round trip -/

section RoundTrip

variable [Render]

/-- The rows of the table `name`, by id. -/
def rows_of (s : ArrowStore) (name : String) (row : RowId) : Option (List Cell) :=
  s.tables[name]?.bind fun lock => lock.data.resolve row

/-- Every list of diffs of the table that goes through on the store goes through on the
loaded one, and comes to the same rows. -/
def Survives (s loaded : ArrowStore) (tick : Tick) (name : String) : Prop :=
  ∀ (ds : List Diff) (s' : ArrowStore), (∀ d ∈ ds, d.table = name) →
    s.apply_diffs tick ds = (.ok (), s') →
      ∃ l', loaded.apply_diffs tick ds = (.ok (), l') ∧ l'.rows_of name = s'.rows_of name

/-- The checkpoint of the tick is written and loaded into another store, and every table
with a row survives. -/
def RoundTrips (s fresh : ArrowStore) (disk : D) (tick : Tick) : Prop :=
  ∃ disk' snapshot l loaded, s.write_checkpoint disk tick = (.ok (), disk')
    ∧ fresh.load_checkpoint disk' tick = (.ok snapshot, l)
    ∧ l.into_simulation = (.ok (), loaded)
    ∧ ∀ name row, (s.rows_of name row).isSome → s.Survives loaded tick name

/-- With a row in some table it never does. -/
theorem checkpoint_loses_rows {s fresh : ArrowStore} {disk : D} {tick : Tick} {name : String}
    {row : RowId} (hsim : s.InSimulation) (hfresh : fresh.tables = ∅)
    (hrow : (s.rows_of name row).isSome) : ¬ s.RoundTrips fresh disk tick := by
  rintro ⟨disk', snapshot, l, loaded, -, hload, hinto, hsurvives⟩
  have hfresh : fresh.Unplaced := by
    intro n lock hlock
    rw [hfresh, Std.ExtTreeMap.getElem?_empty] at hlock
    cases hlock
  have hloaded := (hfresh.load_checkpoint hload).into_simulation hinto
  -- no diffs at all: the rows of the two stores already differ
  have hnil : s.apply_diffs tick [] = (.ok (), s) :=
    apply_diffs_ok.2 ⟨hsim, by simp [Healthy], rfl⟩
  obtain ⟨l', hl', hrows⟩ := hsurvives name row hrow [] s (by simp) hnil
  obtain ⟨-, -, hrun⟩ := apply_diffs_ok.1 hl'
  obtain rfl : loaded = l' := by simpa using hrun
  have hnone : loaded.rows_of name row = none := by
    unfold rows_of
    rcases hlock : loaded.tables[name]? with _ | lock
    · rfl
    · exact hloaded.resolve hlock row
  rw [← hrows, hnone] at hrow
  cases hrow

end RoundTrip

end ArrowStore

/-! ## The items -/

section Items

attribute [local instance] plain_text

/-- A disk on which everything works, and a file holds the batches written to it. -/
structure PlainDisk where
  dirs : List String
  files : Map String (List RecordBatch)

def PlainDisk.empty : PlainDisk := ⟨[], ∅⟩

/-- The name of a file under a directory. -/
def file_in (dir path : String) : Option String :=
  let start := (dir ++ "/").toList
  if path.toList.take start.length = start then some (String.ofList (path.toList.drop start.length))
  else none

instance : CheckpointDisk PlainDisk where
  create_dir_all disk dir := (.ok (), { disk with dirs := disk.dirs ++ [dir] })
  is_dir disk dir := disk.dirs.contains dir
  read_dir disk dir := .ok ((disk.files.keys.filterMap (file_in dir)).map .ok)
  create disk path := (.ok (), { disk with files := disk.files.insert path [] })
  can_open _ _ := .ok ()
  writer_try_new disk _ _ := (.ok (), disk)
  writer_write disk path batch :=
    (.ok (), { disk with files := disk.files.insert path (disk.files.getD path [] ++ [batch]) })
  writer_finish disk _ := (.ok (), disk)
  reader_try_new disk path := .ok ((disk.files.getD path []).map .ok)

/-- The items loaded into a new store, and the simulation begun. -/
def items_reloaded : ArrowStore :=
  (ArrowStore.new.load_checkpoint (one_item_snapped.write_checkpoint PlainDisk.empty 0).2 0).2
    |>.into_simulation.2

theorem items_not_round_tripped :
    ¬ one_item_snapped.RoundTrips ArrowStore.new PlainDisk.empty 0 := by
  have hrow : (one_item_snapped.rows_of "items" 1).isSome := by decide +kernel
  exact ArrowStore.checkpoint_loses_rows (ArrowStore.check_commit_ok.1 (by decide +kernel)) rfl hrow

/-- The batches come back as they were written, and no diff of the table goes through that
did. -/
theorem reloaded_items_refuse :
    let verdict := fun (s : ArrowStore) (d : Diff) => (s.apply_diffs 0 [d]).1
    (one_item_snapped.write_checkpoint PlainDisk.empty 0).1 = .ok ()
      ∧ items_reloaded.get_table_batches "items" 0 = one_item_snapped.get_table_batches "items" 0
      ∧ (∀ d ∈ [set_qty "items", .Delete "items" 1, .Insert "items" 2 (item 2 20),
            .ReplaceTable "items" [item 2 20]], verdict one_item_snapped d = .ok ())
      ∧ verdict items_reloaded (set_qty "items")
        = .error (.Generic "row not found in position map: table=items, row_id=1")
      ∧ verdict items_reloaded (.Delete "items" 1)
        = .error (.Generic "row not found in position map for delete: table=items, row_id=1")
      ∧ verdict items_reloaded (.Insert "items" 2 (item 2 20))
        = .error (.Schema "unsupported storage type: UInt64")
      ∧ verdict items_reloaded (.ReplaceTable "items" [item 2 20])
        = .error (.Schema "cannot determine schema for ReplaceTable on 'items'")
      ∧ ¬ one_item_snapped.RoundTrips ArrowStore.new PlainDisk.empty 0 := by
  intro verdict
  have hok : verdict one_item_snapped (set_qty "items") = .ok () := by decide +kernel
  have herr : verdict items_reloaded (set_qty "items")
      = .error (.Generic "row not found in position map: table=items, row_id=1") := by decide +kernel
  have hrow : (one_item_snapped.rows_of "items" 1).isSome := by decide +kernel
  refine ⟨by decide +kernel, by decide +kernel, ?_, herr, by decide +kernel, by decide +kernel,
    by decide +kernel, ?_⟩
  · simp only [List.forall_mem_cons, List.not_mem_nil, false_implies, implies_true, and_true]
    exact ⟨hok, by decide +kernel, by decide +kernel, by decide +kernel⟩
  -- the update goes through on the store that was written, and so would on one that came back
  · rintro ⟨disk', snapshot, l, loaded, hwrite, hload, hinto, hsurvives⟩
    obtain rfl := congrArg Prod.snd hwrite
    obtain rfl := congrArg Prod.snd hload
    obtain rfl := congrArg Prod.snd hinto
    obtain ⟨l', hl', -⟩ :=
      hsurvives "items" 1 hrow [set_qty "items"] _ (by simp [set_qty]) (eq_of_verdict hok)
    have hfst : verdict items_reloaded (set_qty "items") = .ok () := congrArg Prod.fst hl'
    rw [herr] at hfst
    cases hfst

end Items

end Scharnhorst
