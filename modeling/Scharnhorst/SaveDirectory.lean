/-
The save directory as a shelf.

The checkpoint manager and the snapshot manager write to one directory, each with a limit of its
own, and snapshots are deleted and cleaned up in between. What can be read from the directory is
what a shelf holds that is told the same: the snapshots under their generations, those put away by
the checkpoint manager without the tables that its tiers leave out. Of what is read nothing is older
than the last write under its generation, and nothing is damaged.

The directory exists, and no file of another name counts as a snapshot.
-/
import Scharnhorst.Retention
import Scharnhorst.RoundTrip
import Scharnhorst.Shelves

set_option autoImplicit false

namespace Scharnhorst

open Attempt Newest Shelves Std

/-! ## What the snapshot manager reads -/

structure SnapshotInfo where
  generation : Tick
  path : String
deriving DecidableEq

namespace SnapshotManager

variable {D : Type} [SaveDisk D] (m : SnapshotManager) (disk : D)

def list_snapshots : SaveResult (List SnapshotInfo) :=
  (m.persistence.list_snapshots disk).map fun snapshots => snapshots.map fun e => ⟨e.1, e.2⟩

def get_latest_snapshot : SaveResult (Option SnapshotInfo) :=
  (m.list_snapshots disk).map List.getLast?

def get_snapshot (generation : Tick) : SaveResult (Option SnapshotInfo) :=
  let path := m.persistence.snapshot_path generation
  if SaveDisk.path_exists disk path then .ok (some ⟨generation, path⟩) else .ok none

def get_snapshot_for_rollback (generation : Tick) : SaveResult SnapshotInfo :=
  let path := m.persistence.snapshot_path generation
  if SaveDisk.path_exists disk path then .ok ⟨generation, path⟩
  else .error (.SnapshotNotFound s!"generation {generation}")

def read_snapshot [JsonBytes SnapshotHeader] (generation : Tick) : SaveResult PersistedSnapshot :=
  m.persistence.read_snapshot disk generation

def delete_snapshot (generation : Tick) : SaveResult Unit × D :=
  m.persistence.delete_snapshot disk generation

def has_snapshot (generation : Tick) : Bool :=
  SaveDisk.path_exists disk (m.persistence.snapshot_path generation)

def snapshot_count : SaveResult Nat := (m.list_snapshots disk).map List.length

end SnapshotManager

/-! ## Calls -/

inductive DirectoryOp where
  | Save (op : SaveOp)
  | Delete (generation : Tick)
  | Cleanup

/-- What the two managers go by. -/
structure DirectoryRules where
  persistence : SnapshotPersistence
  checkpoints : Nat
  saves : Nat

section Directory

variable [JsonBytes SnapshotHeader]

namespace Saves

def rules (st : Saves) : DirectoryRules :=
  ⟨st.manager.persistence, st.manager.policy.max_snapshots, st.saver.config.max_snapshots⟩

def direct (st : Saves) : DirectoryOp → SaveResult Unit × Saves
  | .Save op => st.step op
  | .Delete generation =>
    let (result, disk) := st.saver.delete_snapshot st.disk generation
    (result, { st with disk })
  | .Cleanup =>
    let (result, disk) := st.saver.cleanup_old_snapshots st.disk
    (result, { st with disk })

/-- Whether each call succeeds, and what is left. -/
def direct_all : Saves → List DirectoryOp → List Bool × Saves
  | st, [] => ([], st)
  | st, op :: ops =>
    let rest := direct_all (st.direct op).2 ops
    ((st.direct op).1.isOk :: rest.1, rest.2)

end Saves

namespace DirectoryOp

/-- A snapshot whose header has no text is not put on a shelf. -/
def put_away (limit : Nat) (snapshot stored : PersistedSnapshot)
    (shelf : Shelf Tick PersistedSnapshot) : Bool × Shelf Tick PersistedSnapshot :=
  match JsonBytes.to_vec snapshot.header with
  | .error _ => (false, shelf)
  | .ok _ => shelf.add limit snapshot.header.generation stored

/-- What a call means on a shelf. -/
def meant (rules : DirectoryRules) (shelf : Shelf Tick PersistedSnapshot) :
    DirectoryOp → Bool × Shelf Tick PersistedSnapshot
  | Save (.WriteCheckpoint snapshot) =>
    put_away rules.checkpoints snapshot (rules.persistence.written snapshot) shelf
  | Save (.SaveSnapshot snapshot) => put_away rules.saves snapshot snapshot shelf
  | Save (.Record _ _) => (true, shelf)
  | Delete generation => (true, shelf.remove generation)
  | Cleanup => (true, shelf.prune rules.saves)

def meant_all (rules : DirectoryRules) :
    Shelf Tick PersistedSnapshot → List DirectoryOp → List Bool × Shelf Tick PersistedSnapshot
  | shelf, [] => ([], shelf)
  | shelf, op :: ops =>
    let rest := meant_all rules (op.meant rules shelf).2 ops
    ((op.meant rules shelf).1 :: rest.1, rest.2)

/-- The snapshot of a call is one that can be in memory, and the text of its header, if it has one,
is read back. -/
structure Fits (snapshot : PersistedSnapshot) : Prop where
  generation : snapshot.header.generation ≤ u64_MAX
  header : ∀ bytes, JsonBytes.to_vec snapshot.header = .ok bytes →
    JsonBytes.from_slice bytes = .ok snapshot.header
      ∧ SnapshotPersistence.InMemory bytes snapshot.table_data.toList

/-- Generations fit their type. -/
def Fit : DirectoryOp → Prop
  | Save (.WriteCheckpoint snapshot) | Save (.SaveSnapshot snapshot) => Fits snapshot
  | Save (.Record _ _) | Cleanup => True
  | Delete generation => generation ≤ u64_MAX

end DirectoryOp

/-! ## What is left on disk -/

omit [JsonBytes SnapshotHeader] in
/-- Files have gone, and those that are left are as they were. -/
structure Leaves (fs fs' : Files) : Prop where
  dirs : fs'.dirs = fs.dirs
  files : ∀ (path : String) (bytes : List UInt8),
    fs'.files[path]? = some bytes → fs.files[path]? = some bytes

omit [JsonBytes SnapshotHeader] in
theorem Leaves.refl (fs : Files) : Leaves fs fs := ⟨rfl, fun _ _ h => h⟩

omit [JsonBytes SnapshotHeader] in
theorem Leaves.trans {fs fs' fs'' : Files} (h : Leaves fs fs') (h' : Leaves fs' fs'') :
    Leaves fs fs'' :=
  ⟨h'.dirs.trans h.dirs, fun path bytes hfile => h.files path bytes (h'.files path bytes hfile)⟩

omit [JsonBytes SnapshotHeader] in
theorem leaves_erase (fs : Files) (path : String) :
    Leaves fs { fs with files := fs.files.erase path } := by
  refine ⟨rfl, fun other bytes hfile => ?_⟩
  rw [ExtTreeMap.getElem?_erase] at hfile
  split at hfile
  · cases hfile
  · exact hfile

omit [JsonBytes SnapshotHeader] in
theorem remove_file_leaves (fs : Files) (path : String) :
    Leaves fs (SaveDisk.remove_file fs path).2 := by
  simp only [SaveDisk.remove_file]
  split
  · exact leaves_erase fs path
  · exact .refl fs

namespace SnapshotPersistence

variable (p : SnapshotPersistence) (fs : Files)

omit [JsonBytes SnapshotHeader] in
theorem delete_snapshot_leaves (generation : Tick) :
    Leaves fs (p.delete_snapshot fs generation).2 := by
  have hremoved := remove_file_leaves fs (p.snapshot_path generation)
  unfold delete_snapshot
  simp only
  split
  · rcases hremove : SaveDisk.remove_file fs (p.snapshot_path generation) with ⟨e | ⟨⟩, fs'⟩
    all_goals
      rw [hremove] at hremoved
      exact hremoved
  · exact .refl fs

omit [JsonBytes SnapshotHeader] in
theorem delete_oldest_leaves (limit : Nat) : Leaves fs (p.delete_oldest limit fs).2 := by
  unfold delete_oldest
  split
  · exact .refl fs
  · split
    · exact .refl fs
    · exact forEach_invariant (P := Leaves fs) _
        (fun disk generation _ h => h.trans (p.delete_snapshot_leaves disk generation)) (.refl fs)

end SnapshotPersistence

omit [JsonBytes SnapshotHeader] in
theorem CheckpointManager.truncate_journal_leaves (m : CheckpointManager) (fs : Files) :
    Leaves fs (m.truncate_journal fs).2.2 := by
  have hremoved := remove_file_leaves fs m.journal_path
  unfold truncate_journal
  split
  · rcases hremove : SaveDisk.remove_file fs m.journal_path with ⟨e | ⟨⟩, fs'⟩
    all_goals
      rw [hremove] at hremoved
      exact hremoved
  · exact .refl fs

/-! ### Writing -/

section Writing

variable {p : SnapshotPersistence} {fs : Files} {snapshot : PersistedSnapshot}
  {header_bytes : List UInt8}

omit [JsonBytes SnapshotHeader] in
/-- A directory that exists is made again. -/
theorem make_again (hdir : p.base_dir ∈ fs.dirs) : fs.dirs.insert p.base_dir () = fs.dirs := by
  obtain ⟨⟨⟩, hthere⟩ := Option.isSome_iff_exists.1 (ExtTreeMap.mem_iff_isSome_getElem?.1 hdir)
  exact Maps.insert_self hthere

/-- What is kept of the file of a checkpoint. -/
theorem checkpoint_leaves {m : CheckpointManager} (hdir : m.persistence.base_dir ∈ fs.dirs)
    (hjson : JsonBytes.to_vec snapshot.header = .ok header_bytes)
    (hnew : SaveDisk.path_exists fs (m.persistence.snapshot_path snapshot.header.generation)
      = false) :
    Leaves
      { fs with
        files := fs.files.insert (m.persistence.snapshot_path snapshot.header.generation)
          (SnapshotPersistence.file_bytes header_bytes
            (snapshot.table_data.toList.filter fun entry => m.persistence.persists entry.1)) }
      (m.write_checkpoint_snapshot fs snapshot).2.2 := by
  have hwrite := SnapshotPersistence.write_snapshot_in_files hjson (List.Perm.refl _) hnew
  rw [SnapshotPersistence.write_snapshot_in_toList, make_again hdir] at hwrite
  generalize ({ dirs := fs.dirs, files := _ } : Files) = fs₁ at hwrite ⊢
  simp only [CheckpointManager.write_checkpoint_snapshot, hwrite]
  have hkept : Leaves fs₁ (m.enforce_retention fs₁).2 :=
    m.persistence.delete_oldest_leaves fs₁ m.policy.max_snapshots
  rcases hretain : m.enforce_retention fs₁ with ⟨e | ⟨⟩, fs₂⟩
  all_goals rw [hretain] at hkept
  · exact hkept
  · have htruncated := m.truncate_journal_leaves fs₂
    rcases htruncate : m.truncate_journal fs₂ with ⟨e | ⟨⟩, m', fs₃⟩
    all_goals
      rw [htruncate] at htruncated
      simp only [htruncate]
      exact hkept.trans htruncated

/-- What is kept of the file that the snapshot manager writes, the temporary one being gone. -/
theorem save_leaves {m : SnapshotManager} (hdir : m.persistence.base_dir ∈ fs.dirs)
    (hjson : JsonBytes.to_vec snapshot.header = .ok header_bytes)
    (hnew : SaveDisk.path_exists fs (m.persistence.snapshot_path snapshot.header.generation)
      = false) :
    Leaves
      { fs with
        files := ((fs.files.insert (m.temp_snapshot_path snapshot.header.generation)
            (SnapshotPersistence.file_bytes header_bytes snapshot.table_data.toList)).erase
              (m.temp_snapshot_path snapshot.header.generation)).insert
          (m.persistence.snapshot_path snapshot.header.generation)
          (SnapshotPersistence.file_bytes header_bytes snapshot.table_data.toList) }
      (m.save_snapshot fs snapshot).2 := by
  have hthere : SaveDisk.path_exists fs m.persistence.base_dir = true :=
    Files.path_exists_iff.2 (.inr hdir)
  have hwrite : m.write_snapshot_to_temp fs snapshot
        (m.temp_snapshot_path snapshot.header.generation)
      = (.ok (), { fs with
          files := fs.files.insert (m.temp_snapshot_path snapshot.header.generation)
            (SnapshotPersistence.file_bytes header_bytes snapshot.table_data.toList) }) := by
    simp only [SnapshotManager.write_snapshot_to_temp, hthere, if_true, hjson, SaveDisk.create,
      Files.write_created, SaveDisk.flush, SnapshotPersistence.file_parts_bytes]
  simp only [SnapshotManager.save_snapshot, hnew, hwrite, Bool.false_eq_true, if_false,
    SaveDisk.rename, ExtTreeMap.getElem?_insert_self]
  generalize ({ dirs := fs.dirs, files := _ } : Files) = fs₁
  have hkept : Leaves fs₁ (m.cleanup_old_snapshots fs₁).2 :=
    m.persistence.delete_oldest_leaves fs₁ m.config.max_snapshots
  rcases hclean : m.cleanup_old_snapshots fs₁ with ⟨e | ⟨⟩, fs₂⟩
  all_goals
    rw [hclean] at hkept
    exact hkept

/-- A snapshot that is there, or whose header has no text, leaves everything as it was. -/
theorem checkpoint_stale_same {m : CheckpointManager} (hdir : m.persistence.base_dir ∈ fs.dirs)
    (hstale : ¬ Fresh m.persistence fs snapshot) :
    ∃ e, m.write_checkpoint_snapshot fs snapshot = (.error e, m, fs) := by
  rcases hnew : SaveDisk.path_exists fs (m.persistence.snapshot_path snapshot.header.generation)
    with _ | _
  · rcases hjson : JsonBytes.to_vec snapshot.header with e | bytes
    · simp only [CheckpointManager.write_checkpoint_snapshot, SnapshotPersistence.write_snapshot,
        hnew, hjson, SaveDisk.create_dir_all, Bool.false_eq_true, if_false, make_again hdir]
      exact ⟨_, rfl⟩
    · exact absurd ⟨hnew, bytes, hjson⟩ hstale
  · simp only [CheckpointManager.write_checkpoint_snapshot, SnapshotPersistence.write_snapshot, hnew,
      if_true]
    exact ⟨_, rfl⟩

theorem save_stale_same {m : SnapshotManager} (hdir : m.persistence.base_dir ∈ fs.dirs)
    (hstale : ¬ Fresh m.persistence fs snapshot) :
    ∃ e, m.save_snapshot fs snapshot = (.error e, fs) := by
  have hthere : SaveDisk.path_exists fs m.persistence.base_dir = true :=
    Files.path_exists_iff.2 (.inr hdir)
  rcases hnew : SaveDisk.path_exists fs (m.persistence.snapshot_path snapshot.header.generation)
    with _ | _
  · rcases hjson : JsonBytes.to_vec snapshot.header with e | bytes
    · simp only [SnapshotManager.save_snapshot, hnew, SnapshotManager.write_snapshot_to_temp, hthere,
        hjson, Bool.false_eq_true, if_false, if_true]
      exact ⟨_, rfl⟩
    · exact absurd ⟨hnew, bytes, hjson⟩ hstale
  · simp only [SnapshotManager.save_snapshot, hnew, if_true]
    exact ⟨_, rfl⟩

end Writing

/-! ## One call -/

namespace Saves

variable {st st' : Saves} {shelf : Shelf Tick PersistedSnapshot} {snapshot : PersistedSnapshot}

/-- The directory is there, the generations are those of the shelf, and the file of each reads as
what the shelf has. -/
structure Shelved (st : Saves) (shelf : Shelf Tick PersistedSnapshot) : Prop where
  sound : st.Sound
  dir : st.manager.persistence.base_dir ∈ st.disk.dirs
  plain : ∀ generation, st.manager.persistence.snapshot_path generation ∉ st.disk.dirs
  keys : shelf.keys = st.generations
  contents : ∀ generation snapshot, (generation, snapshot) ∈ shelf.entries →
    ∃ bytes, st.disk.files[st.manager.persistence.snapshot_path generation]? = some bytes
      ∧ RoundTrips bytes snapshot

theorem Shelved.mem_keys_iff (h : st.Shelved shelf) {generation : Tick} :
    generation ∈ shelf.keys ↔ generation ≤ u64_MAX
      ∧ st.manager.persistence.snapshot_path generation ∈ st.disk.files := by
  rw [h.keys]
  exact SnapshotPersistence.mem_generations h.sound.canonical

theorem Shelved.path_exists_iff (h : st.Shelved shelf) {generation : Tick}
    (hle : generation ≤ u64_MAX) :
    SaveDisk.path_exists st.disk (st.manager.persistence.snapshot_path generation) = true
      ↔ generation ∈ shelf.keys := by
  rw [Files.path_exists_iff, or_iff_left (h.plain generation), h.mem_keys_iff, and_iff_right hle]

theorem Shelved.fresh_iff (h : st.Shelved shelf) (hle : snapshot.header.generation ≤ u64_MAX) :
    Fresh st.manager.persistence st.disk snapshot
      ↔ snapshot.header.generation ∉ shelf.keys
        ∧ ∃ bytes, JsonBytes.to_vec snapshot.header = .ok bytes := by
  rw [Fresh, ← h.path_exists_iff hle, Bool.not_eq_true]

/-- A new file, and then the newest of what is there. -/
theorem Shelved.wrote (h : st.Shelved shelf) (hsound : st'.Sound)
    (hsame : st'.manager.persistence = st.manager.persistence) {limit : Nat}
    (hkept : KeptNewest st st' limit snapshot.header.generation) {stored : PersistedSnapshot}
    {content : List UInt8} (hcontent : RoundTrips content stored) {written : Files}
    (hleft : Leaves written st'.disk) (hdirs : written.dirs = st.disk.dirs)
    (hwritten : ∀ generation ≤ u64_MAX,
      written.files[st.manager.persistence.snapshot_path generation]?
        = if generation = snapshot.header.generation then some content
          else st.disk.files[st.manager.persistence.snapshot_path generation]?) :
    st'.Shelved ((shelf.put snapshot.header.generation stored).prune limit) := by
  obtain ⟨all, hsorted, hmem, hgenerations⟩ := hkept
  have hall : (shelf.put snapshot.header.generation stored).keys = all := by
    refine (Shelf.sorted _).eq_of_mem_iff hsorted fun x => ?_
    rw [hmem, ← h.keys]
    exact Shelf.mem_keys_put
  have hkeys : ((shelf.put snapshot.header.generation stored).prune limit).keys = st'.generations := by
    rw [Shelf.keys_prune, hall, hgenerations]
  refine ⟨hsound, ?_, ?_, hkeys, ?_⟩
  · rw [hsame, hleft.dirs, hdirs]
    exact h.dir
  · rw [hsame, hleft.dirs, hdirs]
    exact h.plain
  · intro generation found hfound
    -- it is among the generations, so its file is there, as it was written
    have hthere : generation ∈ st'.generations := by
      rw [← hkeys]
      exact Shelf.mem_keys hfound
    obtain ⟨hle, hfile⟩ := (SnapshotPersistence.mem_generations hsound.canonical).1 hthere
    rw [hsame] at hfile ⊢
    obtain ⟨bytes, hbytes⟩ :=
      Option.isSome_iff_exists.1 (ExtTreeMap.mem_iff_isSome_getElem?.1 hfile)
    have hold := hleft.files _ _ hbytes
    rw [hwritten generation hle] at hold
    refine ⟨bytes, hbytes, ?_⟩
    rcases Shelf.mem_put.1 (Shelf.mem_of_mem_prune hfound) with hnew | ⟨hkeep, hne⟩
    · obtain ⟨rfl, rfl⟩ := Prod.mk.inj hnew
      rw [if_pos rfl, Option.some.injEq] at hold
      rwa [← hold]
    · have hother : generation ≠ snapshot.header.generation := hne
      rw [if_neg hother] at hold
      obtain ⟨bytes', hbytes', hround⟩ := h.contents generation found hkeep
      obtain rfl : bytes = bytes' := Option.some.inj (hold.symm.trans hbytes')
      exact hround

omit [JsonBytes SnapshotHeader] in
/-- The file of a generation is written under its path and no other. -/
theorem inserted_file {p : SnapshotPersistence} {files : Map String (List UInt8)}
    {generation written : Tick} (hle : generation ≤ u64_MAX) (hwritten : written ≤ u64_MAX)
    (content : List UInt8) :
    (files.insert (p.snapshot_path written) content)[p.snapshot_path generation]?
      = if generation = written then some content else files[p.snapshot_path generation]? := by
  by_cases hsame : generation = written
  · rw [if_pos hsame, hsame, ExtTreeMap.getElem?_insert_self]
  · rw [if_neg hsame, ExtTreeMap.getElem?_insert, if_neg]
    rw [LawfulEqCmp.compare_eq_iff_eq]
    exact fun hpath => hsame (SnapshotPersistence.snapshot_path_injective hwritten hle hpath).symm

theorem checkpoint_manager (m : CheckpointManager) (fs : Files) (snapshot : PersistedSnapshot) :
    (m.write_checkpoint_snapshot fs snapshot).2.1.persistence = m.persistence
      ∧ (m.write_checkpoint_snapshot fs snapshot).2.1.policy = m.policy := by
  unfold CheckpointManager.write_checkpoint_snapshot CheckpointManager.truncate_journal
  rcases m.persistence.write_snapshot fs snapshot with ⟨e | path, fs₁⟩
  · exact ⟨rfl, rfl⟩
  simp only
  rcases m.enforce_retention fs₁ with ⟨e | ⟨⟩, fs₂⟩
  · exact ⟨rfl, rfl⟩
  simp only
  by_cases hjournal : SaveDisk.path_exists fs₂ m.journal_path
  · rcases hremove : SaveDisk.remove_file fs₂ m.journal_path with ⟨e | ⟨⟩, fs₃⟩ <;>
      simp [hjournal, CheckpointManager.reset_journal_counter]
  · simp [hjournal, CheckpointManager.reset_journal_counter]

theorem checkpoint_step (st : Saves) (snapshot : PersistedSnapshot) : ∃ records,
    (st.step (.WriteCheckpoint snapshot)).2
      = { st with
          manager := (st.manager.write_checkpoint_snapshot st.disk snapshot).2.1
          disk := (st.manager.write_checkpoint_snapshot st.disk snapshot).2.2
          records } :=
  forget_writes { st with
    manager := (st.manager.write_checkpoint_snapshot st.disk snapshot).2.1
    disk := (st.manager.write_checkpoint_snapshot st.disk snapshot).2.2 }

theorem save_step (st : Saves) (snapshot : PersistedSnapshot) : ∃ records,
    (st.step (.SaveSnapshot snapshot)).2
      = { st with disk := (st.saver.save_snapshot st.disk snapshot).2, records } :=
  forget_writes { st with disk := (st.saver.save_snapshot st.disk snapshot).2 }

open DirectoryOp in
theorem Shelved.put_away (h : st.Shelved shelf) (hle : snapshot.header.generation ≤ u64_MAX)
    (limit : Nat) (stored : PersistedSnapshot) :
    (Fresh st.manager.persistence st.disk snapshot → put_away limit snapshot stored shelf
        = (true, (shelf.put snapshot.header.generation stored).prune limit))
      ∧ (¬ Fresh st.manager.persistence st.disk snapshot →
        put_away limit snapshot stored shelf = (false, shelf)) := by
  have hfresh := h.fresh_iff hle
  constructor
  · intro hnew
    obtain ⟨hkey, bytes, hjson⟩ := hfresh.1 hnew
    simp only [DirectoryOp.put_away, hjson, Shelf.add, if_neg hkey]
  · intro hstale
    rcases hjson : JsonBytes.to_vec snapshot.header with e | bytes
    · simp only [DirectoryOp.put_away, hjson]
    · have hkey : snapshot.header.generation ∈ shelf.keys := by
        by_contra hkey
        exact hstale (hfresh.2 ⟨hkey, bytes, hjson⟩)
      simp only [DirectoryOp.put_away, hjson, Shelf.add, if_pos hkey]

/-- Which records are remembered plays no part. -/
theorem Shelved.forget (h : st.Shelved shelf) (records : List Tick) :
    Shelved { st with records } shelf :=
  ⟨h.sound.of_files rfl fun _ => .inr, h.dir, h.plain, h.keys, h.contents⟩

/-- A call does what it means. -/
structure Does (st : Saves) (shelf : Shelf Tick PersistedSnapshot) (op : DirectoryOp) : Prop where
  verdict : (st.direct op).1.isOk = (op.meant st.rules shelf).1
  shelved : (st.direct op).2.Shelved (op.meant st.rules shelf).2
  rules : (st.direct op).2.rules = st.rules

theorem Shelved.checkpoint (h : st.Shelved shelf) (hfits : DirectoryOp.Fits snapshot) :
    st.Does shelf (.Save (.WriteCheckpoint snapshot)) := by
  obtain ⟨hfresh, hstale⟩ := h.put_away hfits.generation st.manager.policy.max_snapshots
    (st.manager.persistence.written snapshot)
  obtain ⟨records, hstep⟩ := checkpoint_step st snapshot
  obtain ⟨hpersistence, hpolicy⟩ := checkpoint_manager st.manager st.disk snapshot
  have hrules : (st.step (.WriteCheckpoint snapshot)).2.rules = st.rules := by
    rw [hstep]
    simp only [Saves.rules, hpersistence, hpolicy]
  by_cases hnew : Fresh st.manager.persistence st.disk snapshot
  · obtain ⟨-, bytes, hjson⟩ := (h.fresh_iff hfits.generation).1 hnew
    obtain ⟨hback, hmemory⟩ := hfits.header bytes hjson
    obtain ⟨st', hst', hsound, hkept, -⟩ := checkpoint_fresh h.sound hfits.generation hnew
    have hmeant : DirectoryOp.meant st.rules shelf (.Save (.WriteCheckpoint snapshot)) = _ :=
      hfresh hnew
    refine ⟨?_, ?_, hrules⟩
    · rw [hmeant]
      exact congrArg (fun done => done.1.isOk) hst'
    · rw [hmeant]
      change (st.step (.WriteCheckpoint snapshot)).2.Shelved _
      rw [hst'] at hstep ⊢
      rw [show st' = _ from hstep] at hkept hsound ⊢
      exact h.wrote hsound hpersistence hkept
        (round_trips_file st.manager.persistence hback (List.Perm.refl _) hmemory)
        (checkpoint_leaves h.dir hjson hnew.1) rfl
        (fun generation hle => inserted_file hle hfits.generation _)
  · obtain ⟨e, hsame⟩ := checkpoint_stale_same h.dir hnew
    have hmeant : DirectoryOp.meant st.rules shelf (.Save (.WriteCheckpoint snapshot)) = _ :=
      hstale hnew
    refine ⟨?_, ?_, hrules⟩
    · rw [hmeant]
      simp only [direct, step, hsame]
      rfl
    · rw [hmeant]
      change (st.step (.WriteCheckpoint snapshot)).2.Shelved _
      rw [hstep, hsame]
      exact h.forget records

theorem Shelved.save (h : st.Shelved shelf) (hfits : DirectoryOp.Fits snapshot) :
    st.Does shelf (.Save (.SaveSnapshot snapshot)) := by
  obtain ⟨hfresh, hstale⟩ :=
    h.put_away hfits.generation st.saver.config.max_snapshots snapshot
  obtain ⟨records, hstep⟩ := save_step st snapshot
  have hrules : (st.step (.SaveSnapshot snapshot)).2.rules = st.rules := by
    rw [hstep]
    rfl
  have hdir : st.saver.persistence.base_dir ∈ st.disk.dirs := by
    rw [h.sound.same_dir]
    exact h.dir
  have hpath := SnapshotPersistence.snapshot_path_congr h.sound.same_dir
  by_cases hnew : Fresh st.manager.persistence st.disk snapshot
  · obtain ⟨-, bytes, hjson⟩ := (h.fresh_iff hfits.generation).1 hnew
    obtain ⟨hback, hmemory⟩ := hfits.header bytes hjson
    obtain ⟨st', hst', hsound, hkept, -⟩ := save_fresh h.sound hfits.generation hnew
    have hmeant : DirectoryOp.meant st.rules shelf (.Save (.SaveSnapshot snapshot)) = _ :=
      hfresh hnew
    -- without a registry nothing is filtered
    have hcontent : RoundTrips
        (SnapshotPersistence.file_bytes bytes snapshot.table_data.toList) snapshot := by
      have hall := round_trips_file (.new "") hback (List.Perm.refl _) hmemory
      have htrue : snapshot.table_data.toList.filter
            (fun entry => (SnapshotPersistence.new "").persists entry.1)
          = snapshot.table_data.toList := List.filter_eq_self.2 fun _ _ => rfl
      rw [htrue] at hall
      exact hall
    refine ⟨?_, ?_, hrules⟩
    · rw [hmeant]
      exact congrArg (fun done => done.1.isOk) hst'
    · rw [hmeant]
      change (st.step (.SaveSnapshot snapshot)).2.Shelved _
      rw [hst'] at hstep ⊢
      rw [show st' = _ from hstep] at hkept hsound ⊢
      refine h.wrote hsound rfl hkept hcontent
        (save_leaves hdir hjson (by rw [hpath]; exact hnew.1)) rfl fun generation hle => ?_
      -- the temporary file has come and gone
      have htemp : st.saver.temp_snapshot_path snapshot.header.generation
          ≠ st.saver.persistence.snapshot_path generation :=
        (SnapshotPersistence.snapshot_path_ne_temp hle).symm
      rw [← hpath]
      refine (inserted_file hle hfits.generation _).trans ?_
      congr 1
      rw [ExtTreeMap.getElem?_erase, if_neg, ExtTreeMap.getElem?_insert, if_neg]
      all_goals
        rw [LawfulEqCmp.compare_eq_iff_eq]
        exact htemp
  · obtain ⟨e, hsame⟩ := save_stale_same hdir (mt (fresh_congr h.sound).1 hnew)
    have hmeant : DirectoryOp.meant st.rules shelf (.Save (.SaveSnapshot snapshot)) = _ :=
      hstale hnew
    refine ⟨?_, ?_, hrules⟩
    · rw [hmeant]
      simp only [direct, step, hsame]
      rfl
    · rw [hmeant]
      change (st.step (.SaveSnapshot snapshot)).2.Shelved _
      rw [hstep, hsame]
      exact h.forget records

/-- Where only files have gone, and those of the generations that have gone from the shelf. -/
theorem Shelved.left (h : st.Shelved shelf) {disk : Files} (hleft : Leaves st.disk disk)
    {shelf' : Shelf Tick PersistedSnapshot} (hentries : ∀ e ∈ shelf'.entries, e ∈ shelf.entries)
    (hmem : ∀ generation ∈ shelf.keys, generation ∈ shelf'.keys
      ↔ st.manager.persistence.snapshot_path generation ∈ disk.files) :
    Shelved { st with disk } shelf' := by
  have hold : ∀ path ∈ disk.files, path ∈ st.disk.files := by
    intro path hpath
    obtain ⟨bytes, hbytes⟩ := Option.isSome_iff_exists.1 (ExtTreeMap.mem_iff_isSome_getElem?.1 hpath)
    rw [ExtTreeMap.mem_iff_isSome_getElem?, hleft.files path bytes hbytes]
    rfl
  have hcanon : st.manager.persistence.Canonical disk := fun path hpath =>
    h.sound.canonical path (hold path hpath)
  have hshelf : ∀ generation ∈ shelf'.keys, generation ∈ shelf.keys := by
    intro generation hgeneration
    obtain ⟨e, he, rfl⟩ := List.mem_map.1 hgeneration
    exact Shelf.mem_keys (hentries e he)
  refine ⟨h.sound.after rfl rfl hcanon (fun hbase => h.sound.base_dir (hold _ hbase)) ?_, ?_, ?_, ?_,
    ?_⟩
  · rw [hleft.dirs]
    exact fun path => .inr
  · rw [hleft.dirs]
    exact h.dir
  · rw [hleft.dirs]
    exact h.plain
  · refine shelf'.sorted.eq_of_mem_iff (SnapshotPersistence.sortedLT_generations hcanon) fun x => ?_
    refine Iff.trans ?_ (SnapshotPersistence.mem_generations hcanon).symm
    constructor
    · intro hx
      have hx' := hshelf x hx
      exact ⟨(h.mem_keys_iff.1 hx').1, (hmem x hx').1 hx⟩
    · rintro ⟨hle, hfile⟩
      exact (hmem x (h.mem_keys_iff.2 ⟨hle, hold _ hfile⟩)).2 hfile
  · intro generation found hfound
    obtain ⟨bytes, hbytes, hround⟩ := h.contents generation found (hentries _ hfound)
    have hkey : generation ∈ shelf'.keys := Shelf.mem_keys hfound
    obtain ⟨bytes', hbytes'⟩ := Option.isSome_iff_exists.1
      (ExtTreeMap.mem_iff_isSome_getElem?.1 ((hmem generation (hshelf _ hkey)).1 hkey))
    have hsame := (hleft.files _ _ hbytes').symm.trans hbytes
    rw [← Option.some.inj hsame] at hround
    exact ⟨bytes', hbytes', hround⟩

theorem Shelved.delete (h : st.Shelved shelf) {generation : Tick} (hle : generation ≤ u64_MAX) :
    st.Does shelf (.Delete generation) := by
  have hpath := SnapshotPersistence.snapshot_path_congr h.sound.same_dir
  have hleft : Leaves st.disk (st.saver.delete_snapshot st.disk generation).2 :=
    st.saver.persistence.delete_snapshot_leaves st.disk generation
  have hdone : (st.saver.delete_snapshot st.disk generation).1 = .ok ()
      ∧ ∀ other ∈ shelf.keys, other ≠ generation
        ↔ st.manager.persistence.snapshot_path other
          ∈ (st.saver.delete_snapshot st.disk generation).2.files := by
    have hthere := h.path_exists_iff hle
    by_cases hkey : generation ∈ shelf.keys
    · have hfile := (h.mem_keys_iff.1 hkey).2
      have hdelete : st.saver.delete_snapshot st.disk generation
          = (.ok (), { st.disk with
              files := st.disk.files.erase (st.manager.persistence.snapshot_path generation) }) := by
        simp [SnapshotManager.delete_snapshot, SnapshotPersistence.delete_snapshot, hpath,
          SaveDisk.remove_file, hfile]
      rw [hdelete]
      refine ⟨rfl, fun other hother => ?_⟩
      obtain ⟨hother_le, hother_file⟩ := h.mem_keys_iff.1 hother
      rw [Maps.mem_erase_iff, and_iff_left hother_file]
      exact not_congr ⟨congrArg _, SnapshotPersistence.snapshot_path_injective hother_le hle⟩
    · have hdelete : st.saver.delete_snapshot st.disk generation = (.ok (), st.disk) := by
        have hnot := mt hthere.1 hkey
        simp only [SnapshotManager.delete_snapshot, SnapshotPersistence.delete_snapshot, hpath,
          if_neg hnot]
      rw [hdelete]
      refine ⟨rfl, fun other hother => iff_of_true ?_ (h.mem_keys_iff.1 hother).2⟩
      rintro rfl
      exact hkey hother
  refine ⟨?_, ?_, rfl⟩
  · change (st.saver.delete_snapshot st.disk generation).1.isOk = true
    rw [hdone.1]
    rfl
  · refine h.left hleft (fun e he => (Shelf.mem_remove.1 he).1) fun other hother => ?_
    rw [← hdone.2 other hother]
    exact Shelf.mem_keys_remove.trans (and_iff_right hother)

theorem Shelved.cleanup (h : st.Shelved shelf) : st.Does shelf .Cleanup := by
  have hdir : st.saver.persistence.base_dir ∈ st.disk.dirs := by
    rw [h.sound.same_dir]
    exact h.dir
  have hcanon := (SnapshotPersistence.canonical_congr h.sound.same_dir).2 h.sound.canonical
  obtain ⟨fs', hclean, -, hcanon', hgenerations, -, -⟩ :=
    SnapshotPersistence.delete_oldest_spec hcanon hdir st.saver.config.max_snapshots
  have hleft : Leaves st.disk (st.saver.cleanup_old_snapshots st.disk).2 :=
    st.saver.persistence.delete_oldest_leaves st.disk st.saver.config.max_snapshots
  have hcleaned : st.saver.cleanup_old_snapshots st.disk = (.ok (), fs') := hclean
  refine ⟨?_, ?_, rfl⟩
  · change (st.saver.cleanup_old_snapshots st.disk).1.isOk = true
    rw [hcleaned]
    rfl
  · refine h.left hleft (fun e he => Shelf.mem_of_mem_prune he) fun other hother => ?_
    have hle := (h.mem_keys_iff.1 hother).1
    rw [hcleaned, ← SnapshotPersistence.snapshot_path_congr h.sound.same_dir]
    refine Iff.trans ?_ ((SnapshotPersistence.mem_generations hcanon').trans (and_iff_right hle))
    rw [hgenerations, SnapshotPersistence.generations_congr h.sound.same_dir]
    change other ∈ (shelf.prune st.saver.config.max_snapshots).keys ↔ _
    rw [Shelf.keys_prune, h.keys]
    rfl

/-- A record goes to a file of its own. -/
theorem Shelved.record (h : st.Shelved shelf) (tick : Tick) (bytes : List UInt8) :
    st.Does shelf (.Save (.Record tick bytes)) := by
  have hsound := record_sound h.sound tick bytes
  have hother : ∀ generation ≤ u64_MAX,
      st.manager.persistence.snapshot_path generation ≠ st.manager.journal_path := by
    intro generation hle hsame
    have hnone := h.sound.not_snapshot
    rw [← hsame, SnapshotPersistence.path_generation_path hle] at hnone
    cases hnone
  refine ⟨rfl, ⟨hsound, h.dir, h.plain, ?_, ?_⟩, rfl⟩
  · refine shelf.sorted.eq_of_mem_iff (SnapshotPersistence.sortedLT_generations hsound.canonical)
      fun x => ?_
    refine h.mem_keys_iff.trans ((SnapshotPersistence.mem_generations hsound.canonical).trans ?_).symm
    refine and_congr_right fun hle => Maps.mem_insert_iff.trans ?_
    exact or_iff_right (hother x hle)
  · intro generation found hfound
    obtain ⟨content, hcontent, hround⟩ := h.contents generation found hfound
    have hle := (h.mem_keys_iff.1 (Shelf.mem_keys hfound)).1
    refine ⟨content, ?_, hround⟩
    refine (ExtTreeMap.getElem?_insert ..).trans ?_
    rw [if_neg]
    · exact hcontent
    · rw [LawfulEqCmp.compare_eq_iff_eq]
      exact (hother generation hle).symm

theorem Shelved.does (h : st.Shelved shelf) {op : DirectoryOp} (hop : op.Fit) :
    st.Does shelf op := by
  rcases op with (snapshot | snapshot | ⟨tick, bytes⟩) | generation | _
  · exact h.checkpoint hop
  · exact h.save hop
  · exact h.record tick bytes
  · exact h.delete hop
  · exact h.cleanup

/-! ## Runs -/

/-- Call by call; what the managers go by does not change. -/
theorem Shelved.does_all (ops : List DirectoryOp) (hops : ∀ op ∈ ops, op.Fit)
    (h : st.Shelved shelf) :
    (st.direct_all ops).1 = (DirectoryOp.meant_all st.rules shelf ops).1
      ∧ (st.direct_all ops).2.Shelved (DirectoryOp.meant_all st.rules shelf ops).2
      ∧ (st.direct_all ops).2.rules = st.rules := by
  induction ops generalizing st shelf with
  | nil => exact ⟨rfl, h, rfl⟩
  | cons op ops ih =>
    obtain ⟨hop, hrest⟩ := List.forall_mem_cons.1 hops
    have hdoes := h.does hop
    obtain ⟨hverdicts, hshelved, hrules⟩ := ih hrest hdoes.shelved
    rw [hdoes.rules] at hverdicts hshelved hrules
    simp only [direct_all, DirectoryOp.meant_all]
    refine ⟨?_, hshelved, hrules⟩
    rw [hverdicts, hdoes.verdict]

/-- What the snapshot manager reads is what the shelf has. -/
structure ReadsAs (m : SnapshotManager) (disk : Files) (shelf : Shelf Tick PersistedSnapshot) :
    Prop where
  read : ∀ generation ≤ u64_MAX, m.read_snapshot disk generation
    = (shelf.read generation).elim (.error (.SnapshotNotFound s!"generation {generation}")) .ok
  has : ∀ generation ≤ u64_MAX, m.has_snapshot disk generation = decide (generation ∈ shelf.keys)
  found : ∀ generation ≤ u64_MAX, m.get_snapshot disk generation
    = .ok (if generation ∈ shelf.keys
        then some ⟨generation, m.persistence.snapshot_path generation⟩ else none)
  rollback : ∀ generation ≤ u64_MAX, m.get_snapshot_for_rollback disk generation
    = if generation ∈ shelf.keys then .ok ⟨generation, m.persistence.snapshot_path generation⟩
      else .error (.SnapshotNotFound s!"generation {generation}")
  list : m.list_snapshots disk
    = .ok (shelf.keys.map fun generation => ⟨generation, m.persistence.snapshot_path generation⟩)
  latest : m.get_latest_snapshot disk
    = .ok (shelf.keys.getLast?.map
        fun generation => ⟨generation, m.persistence.snapshot_path generation⟩)
  count : m.snapshot_count disk = .ok shelf.keys.length

theorem Shelved.reads (h : st.Shelved shelf) : ReadsAs st.saver st.disk shelf := by
  have hpath := SnapshotPersistence.snapshot_path_congr h.sound.same_dir
  have hthere : ∀ generation ≤ u64_MAX,
      SaveDisk.path_exists st.disk (st.saver.persistence.snapshot_path generation) = true
        ↔ generation ∈ shelf.keys := by
    intro generation hle
    rw [hpath]
    exact h.path_exists_iff hle
  have hlist : st.saver.list_snapshots st.disk
      = .ok (shelf.keys.map fun generation =>
          ⟨generation, st.saver.persistence.snapshot_path generation⟩) := by
    have hcanon := (SnapshotPersistence.canonical_congr h.sound.same_dir).2 h.sound.canonical
    have hdir : st.saver.persistence.base_dir ∈ st.disk.dirs := by
      rw [h.sound.same_dir]
      exact h.dir
    rw [SnapshotManager.list_snapshots, SnapshotPersistence.list_snapshots_eq hcanon hdir,
      SnapshotPersistence.generations_congr h.sound.same_dir, h.keys, Except.map, List.map_map]
    rfl
  refine ⟨fun generation hle => ?_, fun generation hle => ?_, fun generation hle => ?_,
    fun generation hle => ?_, hlist, ?_, ?_⟩
  · rcases hread : shelf.read generation with _ | snapshot
    · have hnot := mt (hthere generation hle).1 (Shelf.read_eq_none.1 hread)
      simp only [SnapshotManager.read_snapshot, SnapshotPersistence.read_snapshot,
        Bool.not_eq_true _ ▸ hnot, Bool.not_false, if_true, Option.elim]
    · obtain ⟨bytes, hbytes, hround⟩ := h.contents generation snapshot (Shelf.read_eq_some.1 hread)
      rw [← hpath] at hbytes
      exact hround.1 st.saver.persistence st.disk generation hbytes
  · rw [Bool.eq_iff_iff, decide_eq_true_eq]
    exact hthere generation hle
  · simp only [SnapshotManager.get_snapshot, hthere generation hle]
    split <;> rfl
  · simp only [SnapshotManager.get_snapshot_for_rollback, hthere generation hle]
  · rw [SnapshotManager.get_latest_snapshot, hlist, Except.map, List.getLast?_map]
  · rw [SnapshotManager.snapshot_count, hlist, Except.map, List.length_map]

/-- The directory and the shelf give the same verdict of every call, and then the same reads. -/
theorem save_directory_refines {ops : List DirectoryOp} (h : st.Shelved shelf)
    (hops : ∀ op ∈ ops, op.Fit) :
    (st.direct_all ops).1 = (DirectoryOp.meant_all st.rules shelf ops).1
      ∧ ReadsAs (st.direct_all ops).2.saver (st.direct_all ops).2.disk
        (DirectoryOp.meant_all st.rules shelf ops).2 := by
  obtain ⟨hverdicts, hshelved, -⟩ := h.does_all ops hops
  exact ⟨hverdicts, hshelved.reads⟩

end Saves

end Directory

/-! ## Seven calls -/

namespace Saves

def header_of (generation : Tick) : SnapshotHeader :=
  { schema_manifest := .new "1", generation, state_hash := 0 }

@[reducible] def known_headers : JsonBytes SnapshotHeader :=
  plain_headers [header_of 3, header_of 5, header_of 9]

attribute [local instance] known_headers

/-- The tables of `two_tables`. -/
def snapshot_of (generation : Tick) : PersistedSnapshot :=
  { header := header_of generation, table_data := two_tables.table_data }

/-- An empty directory, room for two checkpoints and for three snapshots. -/
def shelf_start : Saves where
  manager := (CheckpointManager.new "saves" { RetentionPolicy.default_policy with max_snapshots := 2 }
    "journal").with_tier_registry nameless_is_authority
  saver := .new "saves" .default "journal"
  disk := { Files.new with dirs := (∅ : Map String Unit).insert "saves" () }
  records := []

theorem shelf_start_shelved : shelf_start.Shelved ⟨[], List.Pairwise.nil.sortedLT⟩ := by
  have hsound := empty_start_sound 2
  have hdirs : ∀ path, path ∈ shelf_start.disk.dirs → path = "saves" := by
    intro path hpath
    rcases Maps.mem_insert_iff.1 hpath with rfl | hpath
    · rfl
    · exact absurd hpath Std.ExtTreeMap.not_mem_empty
  refine ⟨{ hsound with journal_dir := fun hdir => absurd (hdirs _ hdir) hsound.not_base }, ?_,
    fun generation hdir => ?_, ?_, fun generation snapshot h => absurd h List.not_mem_nil⟩
  · exact Maps.mem_insert_iff.2 (.inl rfl)
  · have hlists := congrArg String.toList (hdirs _ hdir)
    rw [SnapshotPersistence.snapshot_path_eq] at hlists
    simp [shelf_start, CheckpointManager.with_tier_registry, CheckpointManager.new,
      SnapshotPersistence.with_tier_registry, SnapshotPersistence.new] at hlists
  · decide +kernel

/-- An older checkpoint than what is there; a snapshot that is there already; one deleted. -/
def seven_calls : List DirectoryOp :=
  [.Save (.WriteCheckpoint (snapshot_of 5)), .Save (.SaveSnapshot (snapshot_of 9)),
    .Save (.WriteCheckpoint (snapshot_of 3)), .Save (.Record 10 [0]),
    .Save (.SaveSnapshot (snapshot_of 9)), .Delete 9, .Cleanup]

theorem seven_calls_shelved :
    (shelf_start.direct_all seven_calls).1 = [true, true, true, true, false, true, true]
      ∧ ReadsAs (shelf_start.direct_all seven_calls).2.saver
        (shelf_start.direct_all seven_calls).2.disk
        ⟨[(5, shelf_start.manager.persistence.written (snapshot_of 5))],
          (List.pairwise_singleton _ _).sortedLT⟩ := by
  have htexts : ∀ generation ∈ [3, 5, 9],
      JsonBytes.from_slice (header_text (header_of generation)).toUTF8.toList
          = .ok (header_of generation)
        ∧ (header_text (header_of generation)).toUTF8.toList.length < 2 ^ 64 := by
    decide +kernel
  have hmemory : two_tables.table_data.toList.length < 2 ^ 64
      ∧ (∀ entry ∈ two_tables.table_data.toList, entry.1.toUTF8.toList.length < 2 ^ 64)
      ∧ ∀ entry ∈ two_tables.table_data.toList, entry.2.length < 2 ^ 64 := by
    decide +kernel
  have hfits : ∀ generation ∈ [3, 5, 9], DirectoryOp.Fits (snapshot_of generation) := by
    intro generation hgeneration
    obtain ⟨hback, hlength⟩ := htexts generation hgeneration
    refine ⟨?_, fun bytes hbytes => ?_⟩
    · have hsmall : ∀ x ∈ [3, 5, 9], x ≤ u64_MAX := by decide
      exact hsmall generation hgeneration
    · obtain rfl : (header_text (header_of generation)).toUTF8.toList = bytes :=
        Except.ok.inj hbytes
      exact ⟨hback, hlength, hmemory.1, hmemory.2.1, hmemory.2.2⟩
  have hops : ∀ op ∈ seven_calls, op.Fit := by
    intro op hop
    simp only [seven_calls, List.mem_cons, List.not_mem_nil, or_false] at hop
    rcases hop with rfl | rfl | rfl | rfl | rfl | rfl | rfl
    · exact hfits 5 (by decide)
    · exact hfits 9 (by decide)
    · exact hfits 3 (by decide)
    · trivial
    · exact hfits 9 (by decide)
    · exact (by decide : 9 ≤ u64_MAX)
    · trivial
  obtain ⟨hverdicts, hreads⟩ := save_directory_refines shelf_start_shelved hops
  exact ⟨hverdicts, hreads⟩

end Saves

end Scharnhorst
