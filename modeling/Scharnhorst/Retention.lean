/-
What the two managers leave on disk.

Writing adds a generation, and the limit then keeps the newest ones of all that are there.
Nothing looks at which was just written: if enough newer snapshots are there already, it
is among those deleted, and with a limit of zero it always is. The save journal's file is
removed all the same, whatever its records go up to.
-/
import Scharnhorst.Listing

set_option autoImplicit false

namespace Scharnhorst

open Attempt Newest Std

/-! ## Deleting the oldest -/

namespace SnapshotPersistence

variable {p : SnapshotPersistence} {fs : Files}

/-- The deletions, one after the other. -/
theorem delete_snapshots_files {deleted : List Tick} (hnodup : deleted.Nodup)
    (hle : ∀ generation ∈ deleted, generation ≤ u64_MAX)
    (hfiles : ∀ generation ∈ deleted, p.snapshot_path generation ∈ fs.files) :
    ∃ files : Map String (List UInt8), forEach p.delete_snapshot fs deleted
        = (.ok (), { fs with files })
      ∧ ∀ path, path ∈ files
        ↔ path ∈ fs.files ∧ ∀ generation ∈ deleted, path ≠ p.snapshot_path generation := by
  induction deleted generalizing fs with
  | nil => exact ⟨fs.files, rfl, by simp⟩
  | cons generation deleted ih =>
      obtain ⟨hnew, hnodup⟩ := List.nodup_cons.1 hnodup
      have hfirst : p.delete_snapshot fs generation
          = (.ok (), { fs with files := fs.files.erase (p.snapshot_path generation) }) := by
        have hmem := hfiles generation List.mem_cons_self
        simp [delete_snapshot, SaveDisk.remove_file, hmem]
      let rest : Files := { fs with files := fs.files.erase (p.snapshot_path generation) }
      have hothers : ∀ other ∈ deleted, p.snapshot_path other ∈ rest.files := by
        intro other hother
        refine Maps.mem_erase_iff.2 ⟨fun hsame => ?_, hfiles other (List.mem_cons_of_mem _ hother)⟩
        have heq := snapshot_path_injective (hle other (List.mem_cons_of_mem _ hother))
          (hle generation List.mem_cons_self) hsame
        rw [heq] at hother
        exact hnew hother
      obtain ⟨files, hrest, hmem⟩ := ih hnodup
        (fun other hother => hle other (List.mem_cons_of_mem _ hother)) hothers
      refine ⟨files, (forEach_cons_of_ok hfirst).trans hrest, fun path => ?_⟩
      rw [hmem, Maps.mem_erase_iff, List.forall_mem_cons, and_assoc, and_left_comm]

/-- The disk after all but the newest have been deleted. -/
theorem delete_oldest_files (hcanon : p.Canonical fs) (hdir : p.base_dir ∈ fs.dirs) (limit : Nat) :
    ∃ files : Map String (List UInt8), p.delete_oldest limit fs = (.ok (), { fs with files })
      ∧ ∀ path, path ∈ files
        ↔ path ∈ fs.files
          ∧ ∀ generation ∈ p.generations fs, path = p.snapshot_path generation →
            generation ∈ newest limit (p.generations fs) := by
  have hsorted := sortedLT_generations hcanon
  have hmem : ∀ generation ∈ p.generations fs, generation ≤ u64_MAX
      ∧ p.snapshot_path generation ∈ fs.files := fun generation => (mem_generations hcanon).1
  have hlist := list_snapshots_eq hcanon hdir
  by_cases hfew : (p.generations fs).length ≤ limit
  · refine ⟨fs.files, by simp [delete_oldest, hlist, hfew], fun path => ?_⟩
    have hall : newest limit (p.generations fs) = p.generations fs := by
      rw [newest, Nat.sub_eq_zero_of_le hfew, List.drop_zero]
    simp +contextual [hall]
  · have htake : ∀ generation ∈ (p.generations fs).take ((p.generations fs).length - limit),
        generation ∈ p.generations fs := fun generation h => List.mem_of_mem_take h
    obtain ⟨files, hdeleted, hfiles⟩ := delete_snapshots_files
      (hsorted.nodup.sublist (List.take_sublist _ _)) (fun generation h => (hmem _ (htake _ h)).1)
      (fun generation h => (hmem _ (htake _ h)).2)
    refine ⟨files, ?_, fun path => ?_⟩
    · rw [← hdeleted]
      simp [delete_oldest, hlist, hfew, ← List.map_take, Function.comp_def]
    · rw [hfiles]
      refine and_congr_right fun _ => forall_congr' fun generation => ?_
      constructor
      · intro hkept hon heq
        by_contra hdropped
        exact hkept ((mem_take_iff hsorted hon).2 hdropped) heq
      · intro hkept htaken heq
        have hon := htake generation htaken
        exact (mem_take_iff hsorted hon).1 htaken (hkept hon heq)

/-- What is left are the newest generations. -/
theorem delete_oldest_spec (hcanon : p.Canonical fs) (hdir : p.base_dir ∈ fs.dirs) (limit : Nat) :
    ∃ fs', p.delete_oldest limit fs = (.ok (), fs') ∧ fs'.dirs = fs.dirs ∧ p.Canonical fs'
      ∧ p.generations fs' = newest limit (p.generations fs)
      ∧ (∀ path ∈ fs'.files, path ∈ fs.files)
      ∧ ∀ path, p.path_generation path = none → (path ∈ fs'.files ↔ path ∈ fs.files) := by
  obtain ⟨files, hdeleted, hfiles⟩ := delete_oldest_files hcanon hdir limit
  have hcanon' : p.Canonical { fs with files } := fun path hpath generation hgeneration =>
    hcanon path ((hfiles path).1 hpath).1 generation hgeneration
  refine ⟨_, hdeleted, rfl, hcanon', ?_, fun path hpath => ((hfiles path).1 hpath).1,
    fun path hnone => ?_⟩
  · refine (sortedLT_generations hcanon').eq_of_mem_iff
      (sortedLT_newest limit (sortedLT_generations hcanon)) fun x => ?_
    rw [mem_generations hcanon']
    constructor
    · rintro ⟨hle, hmem⟩
      obtain ⟨hold, hkept⟩ := (hfiles _).1 hmem
      exact hkept x ((mem_generations hcanon).2 ⟨hle, hold⟩) rfl
    · intro hkept
      obtain ⟨hle, hold⟩ := (mem_generations hcanon).1 (mem_of_mem_newest hkept)
      refine ⟨hle, (hfiles _).2 ⟨hold, fun generation hon hsame => ?_⟩⟩
      rwa [← snapshot_path_injective hle ((mem_generations hcanon).1 hon).1 hsame]
  · rw [hfiles]
    refine and_iff_left_of_imp fun _ generation hon hsame => ?_
    rw [hsame, path_generation_path ((mem_generations hcanon).1 hon).1] at hnone
    cases hnone

end SnapshotPersistence

/-! ## Adding a generation -/

variable [JsonBytes SnapshotHeader]

/-- A snapshot that is not on disk yet, under a header that can be written. -/
def Fresh (p : SnapshotPersistence) (fs : Files) (snapshot : PersistedSnapshot) : Prop :=
  SaveDisk.path_exists fs (p.snapshot_path snapshot.header.generation) = false
    ∧ ∃ bytes, JsonBytes.to_vec snapshot.header = .ok bytes

omit [JsonBytes SnapshotHeader] in
/-- The disk after a generation has been added: its file is there, and of the others none
has gone but the temporary one. -/
structure Adds (p : SnapshotPersistence) (generation : Tick) (fs fs' : Files) : Prop where
  dir : p.base_dir ∈ fs'.dirs
  dirs : ∀ path ∈ fs'.dirs, path = p.base_dir ∨ path ∈ fs.dirs
  files : ∀ path, path ≠ p.temp_path generation →
    (path ∈ fs'.files ↔ path = p.snapshot_path generation ∨ path ∈ fs.files)

open SnapshotPersistence in
omit [JsonBytes SnapshotHeader] in
theorem Adds.spec {p : SnapshotPersistence} {fs fs' : Files} {generation : Tick}
    (h : Adds p generation fs fs')
    (hcanon : p.Canonical fs) (hle : generation ≤ u64_MAX) :
    p.Canonical fs'
      ∧ ∀ x, x ∈ p.generations fs' ↔ x = generation ∨ x ∈ p.generations fs := by
  have hcanon' : p.Canonical fs' := by
    intro path hpath found hfound
    have hother : path ≠ p.temp_path generation := by
      rintro rfl
      rw [path_generation_temp] at hfound
      cases hfound
    rcases (h.files path hother).1 hpath with rfl | hold
    · rw [path_generation_path hle] at hfound
      rw [Option.some.inj hfound]
    · exact hcanon path hold found hfound
  refine ⟨hcanon', fun x => ?_⟩
  -- the temporary file has come and gone, and was no snapshot
  rw [mem_generations hcanon', mem_generations hcanon]
  constructor
  · rintro ⟨hx, hmem⟩
    rcases (h.files _ (snapshot_path_ne_temp hx)).1 hmem with hsame | hold
    · exact .inl (snapshot_path_injective hx hle hsame)
    · exact .inr ⟨hx, hold⟩
  · rintro (rfl | ⟨hx, hold⟩)
    · exact ⟨hle, (h.files _ (snapshot_path_ne_temp hle)).2 (.inl rfl)⟩
    · exact ⟨hx, (h.files _ (snapshot_path_ne_temp hx)).2 (.inr hold)⟩

namespace SnapshotPersistence

variable {p : SnapshotPersistence} {fs : Files} {snapshot : PersistedSnapshot}

theorem write_snapshot_fresh (h : Fresh p fs snapshot) :
    ∃ fs', p.write_snapshot fs snapshot = (.ok (p.snapshot_path snapshot.header.generation), fs')
      ∧ Adds p snapshot.header.generation fs fs' := by
  obtain ⟨hnew, bytes, hbytes⟩ := h
  have hwrite : ∃ content, p.write_snapshot fs snapshot
      = (.ok (p.snapshot_path snapshot.header.generation),
        { dirs := fs.dirs.insert p.base_dir ()
          files := fs.files.insert (p.snapshot_path snapshot.header.generation) content }) := by
    simp only [write_snapshot, hnew, hbytes, SaveDisk.create_dir_all, SaveDisk.create,
      Files.write_created, Bool.false_eq_true, if_false]
    exact ⟨_, rfl⟩
  obtain ⟨content, hwrite⟩ := hwrite
  exact ⟨_, hwrite, by simp, fun path => Maps.mem_insert_iff.1, fun path _ => Maps.mem_insert_iff⟩

theorem write_snapshot_stale (h : ¬ Fresh p fs snapshot) :
    (∃ e, (p.write_snapshot fs snapshot).1 = .error e)
      ∧ (p.write_snapshot fs snapshot).2.files = fs.files
      ∧ ∀ path ∈ (p.write_snapshot fs snapshot).2.dirs, path = p.base_dir ∨ path ∈ fs.dirs := by
  rcases hnew : SaveDisk.path_exists fs (p.snapshot_path snapshot.header.generation) with _ | _
  · rcases hbytes : JsonBytes.to_vec snapshot.header with e | bytes
    · simp only [write_snapshot, hnew, hbytes, SaveDisk.create_dir_all, Bool.false_eq_true, if_false]
      exact ⟨⟨_, rfl⟩, trivial, fun path => Maps.mem_insert_iff.1⟩
    · exact absurd ⟨hnew, bytes, hbytes⟩ h
  · simp only [write_snapshot, hnew, if_true]
    exact ⟨⟨_, rfl⟩, trivial, fun path => .inr⟩

end SnapshotPersistence

namespace SnapshotManager

variable {s : SnapshotManager} {fs : Files} {snapshot : PersistedSnapshot}

theorem write_to_temp {bytes : List UInt8} (hbytes : JsonBytes.to_vec snapshot.header = .ok bytes)
    (hbase : s.persistence.base_dir ∉ fs.files) (temp_path : String) :
    ∃ dirs content, s.persistence.base_dir ∈ dirs
      ∧ (∀ path ∈ dirs, path = s.persistence.base_dir ∨ path ∈ fs.dirs)
      ∧ s.write_snapshot_to_temp fs snapshot temp_path
        = (.ok (), ({ dirs, files := fs.files.insert temp_path content } : Files)) := by
  let parts := SnapshotPersistence.file_parts bytes snapshot.table_data.toList
  rcases hdir : SaveDisk.path_exists fs s.persistence.base_dir with _ | _
  · refine ⟨fs.dirs.insert s.persistence.base_dir (), parts.flatMap Prod.snd, by simp,
      fun path => Maps.mem_insert_iff.1, ?_⟩
    simp only [write_snapshot_to_temp, hdir, hbytes, SaveDisk.create_dir_all, SaveDisk.create,
      Files.write_created, SaveDisk.flush, Bool.false_eq_true, if_false, parts]
  · refine ⟨fs.dirs, parts.flatMap Prod.snd, (Files.path_exists_iff.1 hdir).resolve_left hbase,
      fun path => .inr, ?_⟩
    simp only [write_snapshot_to_temp, hdir, hbytes, SaveDisk.create,
      Files.write_created, SaveDisk.flush, if_true, parts]

/-- The temporary file and its rename. -/
theorem save_snapshot_fresh (h : Fresh s.persistence fs snapshot)
    (hbase : s.persistence.base_dir ∉ fs.files) :
    ∃ fs', Adds s.persistence snapshot.header.generation fs fs'
      ∧ ∀ after, s.cleanup_old_snapshots fs' = (.ok (), after) → s.save_snapshot fs snapshot
        = (.ok (s.persistence.snapshot_path snapshot.header.generation), after) := by
  obtain ⟨hnew, bytes, hbytes⟩ := h
  obtain ⟨dirs, content, hdir, hdirs, hwrite⟩ :=
    write_to_temp hbytes hbase (s.temp_snapshot_path snapshot.header.generation)
  let temp_path := s.temp_snapshot_path snapshot.header.generation
  let final_path := s.persistence.snapshot_path snapshot.header.generation
  -- `rename` takes the file out under one name and puts it in under the other
  let files := ((fs.files.insert temp_path content).erase temp_path).insert final_path content
  refine ⟨{ dirs, files }, ⟨hdir, hdirs, ?_⟩, ?_⟩
  · intro path hpath
    have hother : path ≠ temp_path := hpath
    simp only [files, Maps.mem_insert_iff, Maps.mem_erase_iff]
    simp [hother, final_path]
  · intro after hcleaned
    simp only [files, temp_path, final_path] at hcleaned
    simp only [save_snapshot, hnew, hwrite, Bool.false_eq_true, if_false, SaveDisk.rename,
      ExtTreeMap.getElem?_insert_self, hcleaned]

theorem save_snapshot_stale (h : ¬ Fresh s.persistence fs snapshot) :
    (∃ e, (s.save_snapshot fs snapshot).1 = .error e)
      ∧ (s.save_snapshot fs snapshot).2.files = fs.files
      ∧ ∀ path ∈ (s.save_snapshot fs snapshot).2.dirs,
        path = s.persistence.base_dir ∨ path ∈ fs.dirs := by
  rcases hnew : SaveDisk.path_exists fs
    (s.persistence.snapshot_path snapshot.header.generation) with _ | _
  · rcases hbytes : JsonBytes.to_vec snapshot.header with e | bytes
    · rcases hdir : SaveDisk.path_exists fs s.persistence.base_dir with _ | _
      · simp only [save_snapshot, hnew, write_snapshot_to_temp, hdir, hbytes,
          SaveDisk.create_dir_all, Bool.false_eq_true, if_false]
        exact ⟨⟨_, rfl⟩, trivial, fun path => Maps.mem_insert_iff.1⟩
      · simp only [save_snapshot, hnew, write_snapshot_to_temp, hdir, hbytes, Bool.false_eq_true,
          if_false, if_true]
        exact ⟨⟨_, rfl⟩, trivial, fun path => .inr⟩
    · exact absurd ⟨hnew, bytes, hbytes⟩ h
  · simp only [save_snapshot, hnew, if_true]
    exact ⟨⟨_, rfl⟩, trivial, fun path => .inr⟩

end SnapshotManager

omit [JsonBytes SnapshotHeader] in
theorem Adds.base_dir {p : SnapshotPersistence} {fs fs' : Files} {generation : Tick}
    (h : Adds p generation fs fs') (hbase : p.base_dir ∉ fs.files) : p.base_dir ∉ fs'.files := by
  rw [h.files _ (SnapshotPersistence.base_dir_ne_temp generation).symm]
  rintro (hsame | hold)
  · exact SnapshotPersistence.base_dir_ne_snapshot generation hsame.symm
  · exact hbase hold

/-! ## Calls -/

/-- What the calls work on. Of the save journal's file the ticks of its records are known,
as long as it is there. -/
structure Saves where
  manager : CheckpointManager
  saver : SnapshotManager
  disk : Files
  records : List Tick

inductive SaveOp where
  | WriteCheckpoint (snapshot : PersistedSnapshot)
  | SaveSnapshot (snapshot : PersistedSnapshot)
  /-- A record is written to the save journal's file. -/
  | Record (tick : Tick) (bytes : List UInt8)

/-- The generation or the tick that a call is given. -/
def SaveOp.tick : SaveOp → Tick
  | .WriteCheckpoint snapshot => snapshot.header.generation
  | .SaveSnapshot snapshot => snapshot.header.generation
  | .Record tick _ => tick

namespace Saves

/-- The records go with their file. -/
def forget (st : Saves) : Saves :=
  if st.manager.journal_path ∈ st.disk.files then st else { st with records := [] }

def step (st : Saves) : SaveOp → SaveResult Unit × Saves
  | .WriteCheckpoint snapshot =>
    let (result, manager, disk) := st.manager.write_checkpoint_snapshot st.disk snapshot
    (result, { st with manager, disk }.forget)
  | .SaveSnapshot snapshot =>
    let (result, disk) := st.saver.save_snapshot st.disk snapshot
    (result.map fun _ => (), { st with disk }.forget)
  | .Record tick bytes =>
    let path := st.manager.journal_path
    let files := st.disk.files.insert path (st.disk.files.getD path [] ++ bytes)
    (.ok (), { st with disk := { st.disk with files }, records := st.records ++ [tick] })

def generations (st : Saves) : List Tick := st.manager.persistence.generations st.disk

/-- After a snapshot has been written and the limit been kept: it is on disk, and what is
on disk are the most recent ones. -/
structure Recoverable (st st' : Saves) (limit : Nat) (generation : Tick) : Prop where
  written : st'.manager.persistence.snapshot_path generation ∈ st'.disk.files
  few : st'.generations.length ≤ max 1 limit
  only : ∀ x ∈ st'.generations, x = generation ∨ x ∈ st.generations
  newest : ∀ x, x = generation ∨ x ∈ st.generations → x ∉ st'.generations →
    ∀ y ∈ st'.generations, x < y

/-- If the save journal's file has gone, each of its records is covered. -/
def Covered (st st' : Saves) : Prop :=
  st.manager.journal_path ∈ st.disk.files → st.manager.journal_path ∉ st'.disk.files →
    ∀ tick ∈ st.records, ∃ generation ∈ st'.generations, tick ≤ generation

/-- What a call should leave. -/
def StaysRecoverable (st : Saves) (op : SaveOp) : Prop :=
  let (result, st') := st.step op
  st.Covered st' ∧ match op with
    | .WriteCheckpoint snapshot => result = .ok () →
      st.Recoverable st' st.manager.policy.max_snapshots snapshot.header.generation
    | .SaveSnapshot snapshot => result = .ok () →
      st.Recoverable st' st.saver.config.max_snapshots snapshot.header.generation
    | .Record _ _ => True

/-- Fewer snapshots than the limit are newer. -/
def Room (st : Saves) (limit : Nat) (generation : Tick) : Prop :=
  (st.generations.filter (generation < ·)).length < limit

instance (st : Saves) (limit : Nat) (generation : Tick) : Decidable (st.Room limit generation) :=
  inferInstanceAs (Decidable (_ < limit))

/-- What a call needs: room for a snapshot that it will write, and, where it will remove the
save journal's file, no record beyond all snapshots. -/
def Safe (st : Saves) : SaveOp → Prop
  | .WriteCheckpoint snapshot => Fresh st.manager.persistence st.disk snapshot →
    st.Room st.manager.policy.max_snapshots snapshot.header.generation
      ∧ (st.manager.journal_path ∈ st.disk.files → ∀ tick ∈ st.records,
        tick ≤ snapshot.header.generation ∨ ∃ generation ∈ st.generations, tick ≤ generation)
  | .SaveSnapshot snapshot => Fresh st.manager.persistence st.disk snapshot →
    st.Room st.saver.config.max_snapshots snapshot.header.generation
  | .Record _ _ => True

/-- Both managers keep to one directory, whose snapshot files have the names that they
are written under, and the save journal has a file of its own. -/
structure Sound (st : Saves) : Prop where
  same_dir : st.saver.persistence.base_dir = st.manager.persistence.base_dir
  canonical : st.manager.persistence.Canonical st.disk
  base_dir : st.manager.persistence.base_dir ∉ st.disk.files
  journal_dir : st.manager.journal_path ∉ st.disk.dirs
  not_base : st.manager.journal_path ≠ st.manager.persistence.base_dir
  not_snapshot : st.manager.persistence.path_generation st.manager.journal_path = none
  not_temp : ∀ generation,
    st.manager.journal_path ≠ st.manager.persistence.temp_path generation

/-! ## One call -/

section Calls

variable {st st' : Saves} {snapshot : PersistedSnapshot} {limit : Nat} {generation : Tick}

/-- The newest of what was there and what has been added. -/
def KeptNewest (st st' : Saves) (limit : Nat) (generation : Tick) : Prop :=
  ∃ all : List Tick, all.SortedLT ∧ (∀ x, x ∈ all ↔ x = generation ∨ x ∈ st.generations)
    ∧ st'.generations = newest limit all

omit [JsonBytes SnapshotHeader] in
/-- The new generation is kept when there is room for it. -/
theorem KeptNewest.mem_iff (h : KeptNewest st st' limit generation)
    (hsorted : st.generations.SortedLT) :
    generation ∈ st'.generations ↔ st.Room limit generation := by
  obtain ⟨all, hall, hmem, hkept⟩ := h
  -- the new generation is not newer than itself, so the limit counts the old ones only
  have hnewer : all.filter (generation < ·) = st.generations.filter (generation < ·) := by
    refine (hall.pairwise.filter _).sortedLT.eq_of_mem_iff
      (hsorted.pairwise.filter _).sortedLT fun x => ?_
    simp only [List.mem_filter, hmem, decide_eq_true_eq, and_congr_left_iff]
    intro hlt
    exact or_iff_right (Nat.ne_of_gt hlt)
  rw [hkept, mem_newest_iff hall ((hmem generation).2 (.inl rfl)), hnewer, Room]

omit [JsonBytes SnapshotHeader] in
theorem KeptNewest.recoverable_iff (h : KeptNewest st st' limit generation) (hst : st.Sound)
    (hst' : st'.Sound) (hle : generation ≤ u64_MAX) :
    st.Recoverable st' limit generation ↔ st.Room limit generation := by
  rw [← h.mem_iff (SnapshotPersistence.sortedLT_generations hst.canonical)]
  have hwritten : generation ∈ st'.generations
      ↔ st'.manager.persistence.snapshot_path generation ∈ st'.disk.files := by
    rw [Saves.generations, SnapshotPersistence.mem_generations hst'.canonical]
    exact and_iff_right hle
  obtain ⟨all, hall, hmem, hkept⟩ := h
  constructor
  · intro hrecoverable
    exact hwritten.2 hrecoverable.written
  · intro hin
    refine ⟨hwritten.1 hin, ?_, fun x hx => ?_, fun x hx hgone y hy => ?_⟩
    · rw [hkept]
      exact (length_newest_le limit all).trans (le_max_right 1 limit)
    · rw [hkept] at hx
      exact (hmem x).1 (mem_of_mem_newest hx)
    · rw [hkept] at hgone hy
      exact lt_of_not_mem_newest hall ((hmem x).2 hx) hgone hy

omit [JsonBytes SnapshotHeader] in
/-- With room for the new generation, the newest one that is left is the newest of all. -/
theorem KeptNewest.covers_iff (h : KeptNewest st st' limit generation)
    (hin : generation ∈ st'.generations) (tick : Tick) :
    (∃ x ∈ st'.generations, tick ≤ x)
      ↔ tick ≤ generation ∨ ∃ x ∈ st.generations, tick ≤ x := by
  obtain ⟨all, hall, hmem, hkept⟩ := h
  constructor
  · rintro ⟨x, hx, htick⟩
    rw [hkept] at hx
    rcases (hmem x).1 (mem_of_mem_newest hx) with rfl | hold
    · exact .inl htick
    · exact .inr ⟨x, hold, htick⟩
  · rintro (htick | ⟨x, hx, htick⟩)
    · exact ⟨generation, hin, htick⟩
    · by_cases hleft : x ∈ st'.generations
      · exact ⟨x, hleft, htick⟩
      · -- the one that covered the record has gone, and the new one is newer than it
        rw [hkept] at hleft hin
        have hlt := lt_of_not_mem_newest hall ((hmem x).2 (.inr hx)) hleft hin
        rw [← hkept] at hin
        exact ⟨generation, hin, Nat.le_trans htick (Nat.le_of_lt hlt)⟩

omit [JsonBytes SnapshotHeader] in
theorem Sound.after (h : st.Sound) {manager : CheckpointManager} {disk : Files} {records : List Tick}
    (hpersistence : manager.persistence = st.manager.persistence)
    (hjournal : manager.journal_path = st.manager.journal_path)
    (hcanon : st.manager.persistence.Canonical disk)
    (hfiles : st.manager.persistence.base_dir ∉ disk.files)
    (hdirs : ∀ path ∈ disk.dirs,
      path = st.manager.persistence.base_dir ∨ path ∈ st.disk.dirs) :
    Sound { st with manager, disk, records } := by
  constructor
  · simpa only [hpersistence] using h.same_dir
  · simpa only [hpersistence] using hcanon
  · simpa only [hpersistence] using hfiles
  · intro hmem
    rw [hjournal] at hmem
    exact (hdirs _ hmem).elim h.not_base h.journal_dir
  · simpa only [hpersistence, hjournal] using h.not_base
  · simpa only [hpersistence, hjournal] using h.not_snapshot
  · simpa only [hpersistence, hjournal] using h.not_temp

omit [JsonBytes SnapshotHeader] in
theorem Sound.of_files (h : st.Sound) {disk : Files} {records : List Tick}
    (hfiles : disk.files = st.disk.files)
    (hdirs : ∀ path ∈ disk.dirs,
      path = st.manager.persistence.base_dir ∨ path ∈ st.disk.dirs) :
    Sound { st with disk, records } := by
  refine h.after rfl rfl ?_ ?_ hdirs
  · rw [SnapshotPersistence.Canonical, hfiles]
    exact h.canonical
  · rw [hfiles]
    exact h.base_dir

omit [JsonBytes SnapshotHeader] in
theorem forget_writes (st : Saves) : ∃ records, st.forget = { st with records } := by
  unfold forget
  split
  · exact ⟨st.records, rfl⟩
  · exact ⟨[], rfl⟩

omit [JsonBytes SnapshotHeader] in
/-- Truncation removes the save journal's file and no other. -/
theorem truncate_journal_spec (m : CheckpointManager) {fs : Files} (hdir : m.journal_path ∉ fs.dirs) :
    ∃ fs', m.truncate_journal fs = (.ok (), m.reset_journal_counter, fs') ∧ fs'.dirs = fs.dirs
      ∧ ∀ path, path ∈ fs'.files ↔ path ≠ m.journal_path ∧ path ∈ fs.files := by
  by_cases hfile : m.journal_path ∈ fs.files
  · refine ⟨{ fs with files := fs.files.erase m.journal_path }, ?_, rfl,
      fun path => Maps.mem_erase_iff⟩
    simp [CheckpointManager.truncate_journal, SaveDisk.path_exists, SaveDisk.remove_file, hfile]
  · refine ⟨fs, ?_, rfl, fun path => ?_⟩
    · simp [CheckpointManager.truncate_journal, SaveDisk.path_exists, hfile, hdir]
    · refine ⟨fun hpath => ⟨?_, hpath⟩, And.right⟩
      rintro rfl
      exact hfile hpath

theorem checkpoint_fresh (hst : st.Sound) (hle : snapshot.header.generation ≤ u64_MAX)
    (hfresh : Fresh st.manager.persistence st.disk snapshot) :
    ∃ st', st.step (.WriteCheckpoint snapshot) = (.ok (), st') ∧ st'.Sound
      ∧ KeptNewest st st' st.manager.policy.max_snapshots snapshot.header.generation
      ∧ st.manager.journal_path ∉ st'.disk.files := by
  -- the three steps: `fs₁` after the write, `fs₂` after the retention, `fs₃` after the truncation
  obtain ⟨fs₁, hwrite, hadds⟩ := SnapshotPersistence.write_snapshot_fresh hfresh
  obtain ⟨hcanon₁, hmem₁⟩ := hadds.spec hst.canonical hle
  obtain ⟨fs₂, hdelete, hdirs₂, hcanon₂, hgenerations₂, hsubset₂, -⟩ :=
    SnapshotPersistence.delete_oldest_spec hcanon₁ hadds.dir st.manager.policy.max_snapshots
  have hjournal₂ : st.manager.journal_path ∉ fs₂.dirs := by
    rw [hdirs₂]
    intro hmem
    exact (hadds.dirs _ hmem).elim hst.not_base hst.journal_dir
  obtain ⟨fs₃, htruncate, hdirs₃, hfiles₃⟩ := truncate_journal_spec st.manager hjournal₂
  have hretention : st.manager.enforce_retention fs₁ = (.ok (), fs₂) := hdelete
  have hstep : st.step (.WriteCheckpoint snapshot)
      = (.ok (), { st with
          manager := st.manager.reset_journal_counter.reset_journal_counter
          disk := fs₃ }.forget) := by
    simp only [step, CheckpointManager.write_checkpoint_snapshot, hwrite, hretention, htruncate]
  obtain ⟨records, hforget⟩ := forget_writes { st with
    manager := st.manager.reset_journal_counter.reset_journal_counter
    disk := fs₃ }
  rw [hforget] at hstep
  have hcanon₃ : st.manager.persistence.Canonical fs₃ := fun path hpath =>
    hcanon₂ path ((hfiles₃ path).1 hpath).2
  -- the truncation removes no snapshot, since the save journal's file is none
  have hsame : st.manager.persistence.generations fs₃ = st.manager.persistence.generations fs₂ := by
    refine (SnapshotPersistence.sortedLT_generations hcanon₃).eq_of_mem_iff
      (SnapshotPersistence.sortedLT_generations hcanon₂) fun x => ?_
    rw [SnapshotPersistence.mem_generations hcanon₃, SnapshotPersistence.mem_generations hcanon₂,
      hfiles₃]
    refine and_congr_right fun hx => and_iff_right fun hjournal => ?_
    have hnone := hst.not_snapshot
    rw [← hjournal, SnapshotPersistence.path_generation_path hx] at hnone
    cases hnone
  refine ⟨_, hstep, hst.after rfl rfl hcanon₃ (fun hmem => ?_) (fun path hpath => ?_), ?_, ?_⟩
  · exact hadds.base_dir hst.base_dir (hsubset₂ _ ((hfiles₃ _).1 hmem).2)
  · rw [hdirs₃, hdirs₂] at hpath
    exact hadds.dirs path hpath
  · exact ⟨_, SnapshotPersistence.sortedLT_generations hcanon₁, hmem₁, hsame.trans hgenerations₂⟩
  · intro hmem
    exact ((hfiles₃ _).1 hmem).1 rfl

theorem fresh_congr (hst : st.Sound) :
    Fresh st.saver.persistence st.disk snapshot ↔ Fresh st.manager.persistence st.disk snapshot := by
  rw [Fresh, SnapshotPersistence.snapshot_path_congr hst.same_dir, Fresh]

theorem save_fresh (hst : st.Sound) (hle : snapshot.header.generation ≤ u64_MAX)
    (hfresh : Fresh st.manager.persistence st.disk snapshot) :
    ∃ st', st.step (.SaveSnapshot snapshot) = (.ok (), st') ∧ st'.Sound
      ∧ KeptNewest st st' st.saver.config.max_snapshots snapshot.header.generation
      ∧ (st.manager.journal_path ∈ st.disk.files → st.manager.journal_path ∈ st'.disk.files) := by
  have hdir := hst.same_dir
  have hbase : st.saver.persistence.base_dir ∉ st.disk.files := by
    rw [hdir]
    exact hst.base_dir
  -- first the new file, and then the oldest beyond the limit are deleted
  obtain ⟨fs₁, hadds, hsave⟩ :=
    SnapshotManager.save_snapshot_fresh ((fresh_congr hst).2 hfresh) hbase
  obtain ⟨hcanon₁, hmem₁⟩ :=
    hadds.spec ((SnapshotPersistence.canonical_congr hdir).2 hst.canonical) hle
  obtain ⟨fs₂, hdelete, hdirs₂, hcanon₂, hgenerations₂, hsubset₂, hother₂⟩ :=
    SnapshotPersistence.delete_oldest_spec hcanon₁ hadds.dir st.saver.config.max_snapshots
  have hstep : st.step (.SaveSnapshot snapshot) = (.ok (), { st with disk := fs₂ }.forget) := by
    simp only [step, hsave fs₂ hdelete]
    rfl
  -- the records that no snapshot needs are dropped from memory, not from the disk
  obtain ⟨records, hforget⟩ := forget_writes { st with disk := fs₂ }
  rw [hforget] at hstep
  refine ⟨_, hstep, hst.after rfl rfl ((SnapshotPersistence.canonical_congr hdir).1 hcanon₂)
    (fun hmem => ?_) (fun path hpath => ?_), ?_, fun hjournal => ?_⟩
  · rw [← hdir] at hmem
    exact hadds.base_dir hbase (hsubset₂ _ hmem)
  · rw [hdirs₂] at hpath
    rw [← hdir]
    exact hadds.dirs path hpath
  · refine ⟨_, SnapshotPersistence.sortedLT_generations hcanon₁, fun x => ?_, ?_⟩
    · rw [hmem₁, SnapshotPersistence.generations_congr hdir]
      rfl
    · rw [← hgenerations₂, SnapshotPersistence.generations_congr hdir]
      rfl
  · have hnone := hst.not_snapshot
    rw [← SnapshotPersistence.path_generation_congr hdir] at hnone
    have htemp := hst.not_temp snapshot.header.generation
    rw [← SnapshotPersistence.temp_path_congr hdir] at htemp
    exact (hother₂ _ hnone).2 ((hadds.files _ htemp).2 (.inr hjournal))

/-- A call that writes no snapshot fails and leaves the files. -/
theorem checkpoint_stale (hst : st.Sound)
    (hstale : ¬ Fresh st.manager.persistence st.disk snapshot) :
    ∃ e st', st.step (.WriteCheckpoint snapshot) = (.error e, st') ∧ st'.Sound
      ∧ st'.disk.files = st.disk.files := by
  obtain ⟨⟨e, herror⟩, hfiles, hdirs⟩ := SnapshotPersistence.write_snapshot_stale hstale
  rcases hwrite : st.manager.persistence.write_snapshot st.disk snapshot with ⟨result, fs⟩
  simp only [hwrite] at herror hfiles hdirs
  subst herror
  obtain ⟨records, hforget⟩ := forget_writes { st with disk := fs }
  have hstep : st.step (.WriteCheckpoint snapshot) = (.error e, { st with disk := fs, records }) := by
    rw [← hforget]
    simp only [step, CheckpointManager.write_checkpoint_snapshot, hwrite]
  exact ⟨e, _, hstep, hst.of_files hfiles hdirs, hfiles⟩

theorem save_stale (hst : st.Sound)
    (hstale : ¬ Fresh st.manager.persistence st.disk snapshot) :
    ∃ e st', st.step (.SaveSnapshot snapshot) = (.error e, st') ∧ st'.Sound
      ∧ st'.disk.files = st.disk.files := by
  obtain ⟨⟨e, herror⟩, hfiles, hdirs⟩ :=
    SnapshotManager.save_snapshot_stale (mt (fresh_congr hst).1 hstale)
  rcases hsave : st.saver.save_snapshot st.disk snapshot with ⟨result, fs⟩
  simp only [hsave, hst.same_dir] at herror hfiles hdirs
  subst herror
  obtain ⟨records, hforget⟩ := forget_writes { st with disk := fs }
  have hstep : st.step (.SaveSnapshot snapshot) = (.error e, { st with disk := fs, records }) := by
    rw [← hforget]
    simp only [step, hsave]
    rfl
  exact ⟨e, _, hstep, hst.of_files hfiles hdirs, hfiles⟩

omit [JsonBytes SnapshotHeader] in
/-- The save journal's file is none of the snapshots. -/
theorem generations_record (hst : st.Sound) (bytes : List UInt8) :
    st.manager.persistence.Canonical
      { st.disk with files := st.disk.files.insert st.manager.journal_path bytes } := by
  intro path hpath generation hgeneration
  rcases Maps.mem_insert_iff.1 hpath with rfl | hold
  · rw [hst.not_snapshot] at hgeneration
    cases hgeneration
  · exact hst.canonical path hold generation hgeneration

theorem record_sound (hst : st.Sound) (tick : Tick) (bytes : List UInt8) :
    (st.step (.Record tick bytes)).2.Sound := by
  refine hst.after rfl rfl (generations_record hst _) (fun hmem => ?_) (fun path => .inr)
  rcases Maps.mem_insert_iff.1 hmem with hjournal | hold
  · exact hst.not_base hjournal.symm
  · exact hst.base_dir hold

omit [JsonBytes SnapshotHeader] in
/-- The save journal's file stays when the files do. -/
theorem Covered.of_mem
    (h : st.manager.journal_path ∈ st.disk.files → st.manager.journal_path ∈ st'.disk.files) :
    st.Covered st' := fun hjournal hgone => absurd (h hjournal) hgone

omit [JsonBytes SnapshotHeader] in
theorem Covered.of_files (h : st'.disk.files = st.disk.files) : st.Covered st' := by
  apply Covered.of_mem
  rw [h]
  exact id

/-- What a call that writes a checkpoint needs is exactly what its state asks for. -/
theorem checkpoint_iff (hst : st.Sound) (hle : snapshot.header.generation ≤ u64_MAX) :
    st.StaysRecoverable (.WriteCheckpoint snapshot) ↔ st.Safe (.WriteCheckpoint snapshot) := by
  by_cases hfresh : Fresh st.manager.persistence st.disk snapshot
  · obtain ⟨st', hstep, hst', hkept, hgone⟩ := checkpoint_fresh hst hle hfresh
    have hroom := hkept.recoverable_iff hst hst' hle
    have hin := hkept.mem_iff (SnapshotPersistence.sortedLT_generations hst.canonical)
    simp only [StaysRecoverable, hstep, Safe, Covered, true_implies]
    constructor
    · rintro ⟨hcovered, hrecoverable⟩ -
      -- what covers the records afterwards is the new generation, or covered them before
      have hthere := hroom.1 hrecoverable
      refine ⟨hthere, fun hjournal tick htick => ?_⟩
      exact (hkept.covers_iff (hin.2 hthere) tick).1 (hcovered hjournal hgone tick htick)
    · intro hsafe
      obtain ⟨hthere, hrecords⟩ := hsafe hfresh
      refine ⟨fun hjournal _ tick htick => ?_, hroom.2 hthere⟩
      exact (hkept.covers_iff (hin.2 hthere) tick).2 (hrecords hjournal tick htick)
  · obtain ⟨e, st', hstep, -, hfiles⟩ := checkpoint_stale hst hfresh
    simp only [StaysRecoverable, hstep, Safe]
    constructor
    · intro _ hnew
      exact absurd hnew hfresh
    · intro _
      exact ⟨.of_files hfiles, nofun⟩

theorem save_iff (hst : st.Sound) (hle : snapshot.header.generation ≤ u64_MAX) :
    st.StaysRecoverable (.SaveSnapshot snapshot) ↔ st.Safe (.SaveSnapshot snapshot) := by
  by_cases hfresh : Fresh st.manager.persistence st.disk snapshot
  · obtain ⟨st', hstep, hst', hkept, hjournal⟩ := save_fresh hst hle hfresh
    have hroom := hkept.recoverable_iff hst hst' hle
    simp only [StaysRecoverable, hstep, Safe, true_implies]
    constructor
    · rintro ⟨-, hrecoverable⟩ -
      exact hroom.1 hrecoverable
    · intro hsafe
      exact ⟨.of_mem hjournal, hroom.2 (hsafe hfresh)⟩
  · obtain ⟨e, st', hstep, -, hfiles⟩ := save_stale hst hfresh
    simp only [StaysRecoverable, hstep, Safe]
    constructor
    · intro _ hnew
      exact absurd hnew hfresh
    · intro _
      exact ⟨.of_files hfiles, nofun⟩

end Calls

/-! ## Runs -/

/-- Something holds at each call of a run. -/
def EachCall (P : Saves → SaveOp → Prop) : Saves → List SaveOp → Prop
  | _, [] => True
  | st, op :: ops => P st op ∧ EachCall P (st.step op).2 ops

section Runs

variable {st : Saves} {op : SaveOp}

theorem Sound.step (hst : st.Sound) (hle : op.tick ≤ u64_MAX) : (st.step op).2.Sound := by
  cases op with
  | WriteCheckpoint snapshot =>
      by_cases hfresh : Fresh st.manager.persistence st.disk snapshot
      · obtain ⟨st', hstep, hst', -, -⟩ := checkpoint_fresh hst hle hfresh
        rw [hstep]
        exact hst'
      · obtain ⟨e, st', hstep, hst', -⟩ := checkpoint_stale hst hfresh
        rw [hstep]
        exact hst'
  | SaveSnapshot snapshot =>
      by_cases hfresh : Fresh st.manager.persistence st.disk snapshot
      · obtain ⟨st', hstep, hst', -, -⟩ := save_fresh hst hle hfresh
        rw [hstep]
        exact hst'
      · obtain ⟨e, st', hstep, hst', -⟩ := save_stale hst hfresh
        rw [hstep]
        exact hst'
  | Record tick bytes => exact record_sound hst tick bytes

theorem stays_recoverable_iff (hst : st.Sound) (hle : op.tick ≤ u64_MAX) :
    st.StaysRecoverable op ↔ st.Safe op := by
  cases op with
  | WriteCheckpoint snapshot => exact checkpoint_iff hst hle
  | SaveSnapshot snapshot => exact save_iff hst hle
  | Record tick bytes =>
      refine ⟨fun _ => trivial, fun _ => ⟨.of_mem fun _ => ?_, trivial⟩⟩
      exact Maps.mem_insert_iff.2 (.inl rfl)

theorem StaysRecoverable.written {snapshot : PersistedSnapshot}
    (h : st.StaysRecoverable (.WriteCheckpoint snapshot))
    (hok : (st.step (.WriteCheckpoint snapshot)).1 = .ok ()) :
    (st.step (.WriteCheckpoint snapshot)).2.manager.persistence.snapshot_path
      snapshot.header.generation ∈ (st.step (.WriteCheckpoint snapshot)).2.disk.files :=
  Recoverable.written (h.2 hok)

/-- Every call of a run leaves the latest state recoverable exactly when each finds room for
what it writes, and the save journal no further than the snapshots. -/
theorem run_recoverable_iff {ops : List SaveOp} (hst : st.Sound)
    (hle : ∀ op ∈ ops, op.tick ≤ u64_MAX) :
    EachCall StaysRecoverable st ops ↔ EachCall Safe st ops := by
  induction ops generalizing st with
  | nil => exact Iff.rfl
  | cons op ops ih =>
      have hfirst := hle op List.mem_cons_self
      exact and_congr (stays_recoverable_iff hst hfirst)
        (ih (hst.step hfirst) fun op hop => hle op (List.mem_cons_of_mem _ hop))

end Runs

end Saves

end Scharnhorst

/-! ## Saves of an empty directory -/

namespace Scharnhorst.Saves

@[reducible] def bare_headers : JsonBytes SnapshotHeader := plain_headers []

attribute [local instance] bare_headers

/-- A snapshot without tables. -/
def bare_snapshot (generation : Tick) : PersistedSnapshot :=
  { header := { schema_manifest := .new "1", generation, state_hash := 0 }, table_data := ∅ }

def empty_start (max_snapshots : Nat) : Saves where
  manager := .new "saves" { RetentionPolicy.default_policy with max_snapshots } "journal"
  saver := .new "saves" .default "journal"
  disk := .new
  records := []

theorem empty_start_sound (max_snapshots : Nat) : (empty_start max_snapshots).Sound where
  same_dir := rfl
  canonical := fun path hpath => absurd hpath Std.ExtTreeMap.not_mem_empty
  base_dir := Std.ExtTreeMap.not_mem_empty
  journal_dir := Std.ExtTreeMap.not_mem_empty
  not_base := show "journal" ≠ "saves" by decide
  not_snapshot := show (SnapshotPersistence.new "saves").path_generation "journal" = none by decide +kernel
  not_temp := by
    intro generation hsame
    rw [SnapshotPersistence.temp_path_eq] at hsame
    have hlists := congrArg String.toList hsame
    simp [empty_start, CheckpointManager.new, SnapshotPersistence.new] at hlists

/-- Generations in order, and a record before each checkpoint. -/
def calls_in_order : List SaveOp :=
  [.SaveSnapshot (bare_snapshot 0), .Record 1 [0], .WriteCheckpoint (bare_snapshot 1),
    .Record 2 [0], .WriteCheckpoint (bare_snapshot 2)]

theorem calls_in_order_recoverable : EachCall StaysRecoverable (empty_start 2) calls_in_order := by
  have hsafe : EachCall Safe (empty_start 2) calls_in_order := by
    refine ⟨fun _ => ?_, trivial, fun _ => ⟨?_, ?_⟩, trivial, fun _ => ⟨?_, ?_⟩, trivial⟩
    all_goals decide +kernel
  exact (run_recoverable_iff (empty_start_sound 2) (by decide)).2 hsafe

/-- With a limit of one, a checkpoint of an older generation than what is there. -/
def calls_out_of_order : List SaveOp :=
  [.WriteCheckpoint (bare_snapshot 5), .Record 7 [0], .WriteCheckpoint (bare_snapshot 3)]

/-- It is written and deleted again by one call, which succeeds, and a record that no
snapshot covers is truncated. -/
theorem older_checkpoint_deleted :
    let st := (calls_out_of_order.take 2).foldl (fun st op => (st.step op).2) (empty_start 1)
    let (result, st') := st.step (.WriteCheckpoint (bare_snapshot 3))
    result = .ok () ∧ st'.generations = [5]
      ∧ st.manager.journal_path ∈ st.disk.files ∧ st.records = [7]
      ∧ st.manager.journal_path ∉ st'.disk.files
      ∧ ¬ EachCall StaysRecoverable (empty_start 1) calls_out_of_order := by
  intro st
  refine ⟨by decide +kernel, by decide +kernel, by decide +kernel, by decide +kernel,
    by decide +kernel, fun h => ?_⟩
  have hok : (st.step (.WriteCheckpoint (bare_snapshot 3))).1 = .ok () := by decide +kernel
  have hlost : (st.step (.WriteCheckpoint (bare_snapshot 3))).2.manager.persistence.snapshot_path 3
      ∉ (st.step (.WriteCheckpoint (bare_snapshot 3))).2.disk.files := by
    decide +kernel
  have hthird : st.StaysRecoverable (.WriteCheckpoint (bare_snapshot 3)) := h.2.2.1
  exact hlost (hthird.written hok)

end Scharnhorst.Saves
