/-
Writes that fail part way through.

One call of the file system fails: making the directory, creating a file, a write, of
whose bytes some may have got to the file, a flush or a rename. The snapshot manager writes
to a temporary file, so that whatever fails before the rename leaves the snapshots as they
were. A persistence writes under the final name: once the file has been created, a failure
leaves a generation that is listed as the latest and stands in the way of a second try.
-/
import Scharnhorst.Retention
import Scharnhorst.SnapshotFormat

set_option autoImplicit false

namespace Scharnhorst

open Attempt Std

/-! ## A disk on which one call fails -/

/-- Files, and the fault that is to come: how many calls go well before it, and how many
bytes a write that fails has written. -/
structure FaultyDisk where
  files : Files
  fault : Option (Nat × Nat)

namespace FaultyDisk

/-- The text of the fault. -/
def io_error : String := "Input/output error (os error 5)"

/-- A call that may fail, with the files that it leaves if it does. -/
def call (disk : FaultyDisk) (failed : Nat → Files) (done : Except String Unit × Files) :
    Except String Unit × FaultyDisk :=
  match disk.fault with
  | some (0, written) => (.error io_error, { files := failed written, fault := none })
  | some (before + 1, written) => (done.1, { files := done.2, fault := some (before, written) })
  | none => (done.1, { files := done.2, fault := none })

instance : SaveDisk FaultyDisk where
  path_exists disk path := SaveDisk.path_exists disk.files path
  read_dir disk dir := SaveDisk.read_dir disk.files dir
  create_dir_all disk path :=
    disk.call (fun _ => disk.files) (SaveDisk.create_dir_all disk.files path)
  create disk path := disk.call (fun _ => disk.files) (SaveDisk.create disk.files path)
  write_all disk path bytes :=
    disk.call (fun written => (SaveDisk.write_all disk.files path (bytes.take written)).2)
      (SaveDisk.write_all disk.files path bytes)
  flush disk path := disk.call (fun _ => disk.files) (SaveDisk.flush disk.files path)
  rename disk old_path new_path :=
    disk.call (fun _ => disk.files) (SaveDisk.rename disk.files old_path new_path)
  remove_file disk path :=
    let (result, files) := SaveDisk.remove_file disk.files path
    (result, { disk with files })
  open_file disk path := SaveDisk.open_file disk.files path
  read_exact disk path position count := SaveDisk.read_exact disk.files path position count

end FaultyDisk

/-! ## Disks that differ in one file -/

namespace Files

/-- The disks differ in the file under one path at most. -/
structure SameBut (path : String) (fs fs' : Files) : Prop where
  dirs : fs'.dirs = fs.dirs
  files : ∀ other, other ≠ path → fs'.files[other]? = fs.files[other]?

theorem SameBut.refl (path : String) (fs : Files) : SameBut path fs fs := ⟨rfl, fun _ _ => rfl⟩

theorem SameBut.trans {path : String} {fs fs' fs'' : Files} (h : SameBut path fs fs')
    (h' : SameBut path fs' fs'') : SameBut path fs fs'' :=
  ⟨h'.dirs.trans h.dirs, fun other hother => (h'.files other hother).trans (h.files other hother)⟩

theorem sameBut_insert (path : String) (fs : Files) (bytes : List UInt8) :
    SameBut path fs { fs with files := fs.files.insert path bytes } := by
  refine ⟨rfl, fun other hother => ?_⟩
  rw [ExtTreeMap.getElem?_insert, if_neg]
  intro hsame
  exact hother (LawfulEqCmp.compare_eq_iff_eq.1 hsame).symm

theorem SameBut.mem_iff {path other : String} {fs fs' : Files} (h : SameBut path fs fs')
    (hother : other ≠ path) : other ∈ fs'.files ↔ other ∈ fs.files := by
  rw [ExtTreeMap.mem_iff_isSome_getElem?, h.files other hother, ← ExtTreeMap.mem_iff_isSome_getElem?]

end Files

/-! ## Writing to a file -/

open SnapshotPersistence

/-- The parts of a file, on a disk that may fail. Only the file is written to, it is there
all along, and a fault that has come has made the writing fail. -/
theorem write_parts_faulty {path : String} {disk : FaultyDisk} (hfault : disk.fault.isSome)
    (hthere : path ∈ disk.files.files) (parts : List (String × List UInt8)) :
    disk.files.SameBut path (write_parts path parts disk).2.files
      ∧ path ∈ (write_parts path parts disk).2.files.files
      ∧ ((write_parts path parts disk).1 = .ok () → (write_parts path parts disk).2.fault.isSome) := by
  have hfiles : ∀ (d : FaultyDisk) (part : String × List UInt8), part ∈ parts →
      (disk.files.SameBut path d.files ∧ path ∈ d.files.files) →
      disk.files.SameBut path (write_part path part.1 part.2 d).2.files
        ∧ path ∈ (write_part path part.1 part.2 d).2.files.files := by
    rintro ⟨fs, _ | ⟨_ | before, written⟩⟩ part - ⟨hsame, hmem⟩
    all_goals
      simp only [write_part, SaveDisk.write_all, FaultyDisk.call]
      exact ⟨hsame.trans (Files.sameBut_insert path fs _), Maps.mem_insert_iff.2 (.inl rfl)⟩
  have hkept := forEach_invariant parts hfiles ⟨.refl path disk.files, hthere⟩
  refine ⟨hkept.1, hkept.2, fun hok => ?_⟩
  refine forEach_ok_invariant (P := fun d => d.fault.isSome) ?_ hfault (eq_of_verdict hok)
  rintro ⟨fs, _ | ⟨_ | before, written⟩⟩ part d' - hsome hstep
  · cases hsome
  · simp [write_part, SaveDisk.write_all, FaultyDisk.call] at hstep
  · simp only [write_part, SaveDisk.write_all, FaultyDisk.call, Prod.mk.injEq, true_and] at hstep
    rw [← hstep]
    rfl

/-! ## The two writers -/

/-- A persistence, or a snapshot manager. -/
inductive SnapshotWriter where
  | Persistence (p : SnapshotPersistence)
  | Manager (m : SnapshotManager)

namespace SnapshotWriter

/-- Where it writes. -/
def persistence : SnapshotWriter → SnapshotPersistence
  | Persistence p => p
  | Manager m => m.persistence

/-- `write_snapshot` or `save_snapshot`. -/
def write {D : Type} [SaveDisk D] [JsonBytes SnapshotHeader] (disk : D)
    (snapshot : PersistedSnapshot) : SnapshotWriter → SaveResult String × D
  | Persistence p => p.write_snapshot disk snapshot
  | Manager m => m.save_snapshot disk snapshot

end SnapshotWriter

variable [JsonBytes SnapshotHeader]

/-- A directory whose snapshots can be read. -/
structure ReadableDir (p : SnapshotPersistence) (fs : Files) : Prop where
  canonical : p.Canonical fs
  base_dir : p.base_dir ∈ fs.dirs
  base_file : p.base_dir ∉ fs.files
  readable : ∀ generation ∈ p.generations fs,
    ∃ snapshot, p.read_snapshot fs generation = .ok snapshot

/-- The previous saves are as usable as they were: the same generations are listed, the
latest of them can be read, and a second try succeeds. -/
def StillUsable (writer : SnapshotWriter) (snapshot : PersistedSnapshot) (fs fs' : Files) : Prop :=
  ((writer.persistence.list_snapshots fs').map (List.map Prod.fst)
      = (writer.persistence.list_snapshots fs).map (List.map Prod.fst))
  ∧ (∃ latest, writer.persistence.latest_snapshot fs' = .ok latest
    ∧ ∀ generation path, latest = some (generation, path) →
      ∃ found, writer.persistence.read_snapshot fs' generation = .ok found)
  ∧ ∃ path, (writer.write fs' snapshot).1 = .ok path

section Usable

variable {p : SnapshotPersistence} {fs fs' : Files} {snapshot : PersistedSnapshot}

/-- Only a temporary file differs: the snapshots are the same. -/
theorem ReadableDir.sameBut_temp (h : ReadableDir p fs) {generation : Tick}
    (hsame : Files.SameBut (p.temp_path generation) fs fs') :
    ReadableDir p fs' ∧ p.generations fs' = p.generations fs := by
  have hcanon : p.Canonical fs' := by
    intro path hpath found hfound
    have hother : path ≠ p.temp_path generation := by
      rintro rfl
      rw [path_generation_temp] at hfound
      cases hfound
    exact h.canonical path ((hsame.mem_iff hother).1 hpath) found hfound
  have hgenerations : p.generations fs' = p.generations fs := by
    refine (sortedLT_generations hcanon).eq_of_mem_iff (sortedLT_generations h.canonical) fun x => ?_
    rw [mem_generations hcanon, mem_generations h.canonical]
    exact and_congr_right fun hx => hsame.mem_iff (snapshot_path_ne_temp hx)
  refine ⟨⟨hcanon, ?_, ?_, fun x hx => ?_⟩, hgenerations⟩
  · rw [hsame.dirs]
    exact h.base_dir
  · rw [hsame.mem_iff (base_dir_ne_temp generation).symm]
    exact h.base_file
  · rw [hgenerations] at hx
    obtain ⟨hle, hmem⟩ := (mem_generations h.canonical).1 hx
    obtain ⟨bytes, hbytes⟩ := Option.isSome_iff_exists.1 (ExtTreeMap.mem_iff_isSome_getElem?.1 hmem)
    obtain ⟨found, hfound⟩ := h.readable x hx
    refine ⟨found, ?_⟩
    rw [read_snapshot_eq hbytes] at hfound
    rw [read_snapshot_eq ((hsame.files _ (snapshot_path_ne_temp hle)).trans hbytes), hfound]

theorem Fresh.sameBut_temp (h : Fresh p fs snapshot) (hle : snapshot.header.generation ≤ u64_MAX)
    {generation : Tick} (hsame : Files.SameBut (p.temp_path generation) fs fs') :
    Fresh p fs' snapshot := by
  refine ⟨?_, h.2⟩
  have hnew : ¬ SaveDisk.path_exists fs (p.snapshot_path snapshot.header.generation) = true := by
    simp [h.1]
  rw [Files.path_exists_iff, not_or] at hnew
  rw [Bool.eq_false_iff, Ne, Files.path_exists_iff, not_or, hsame.dirs,
    hsame.mem_iff (snapshot_path_ne_temp hle)]
  exact hnew

/-- A second try succeeds where the first would have. -/
theorem SnapshotWriter.write_fresh {writer : SnapshotWriter}
    (hdir : ReadableDir writer.persistence fs) (hle : snapshot.header.generation ≤ u64_MAX)
    (hfresh : Fresh writer.persistence fs snapshot) :
    ∃ path, (writer.write fs snapshot).1 = .ok path := by
  cases writer with
  | Persistence p =>
      obtain ⟨fs', hwrite, -⟩ := write_snapshot_fresh hfresh
      exact ⟨_, congrArg Prod.fst hwrite⟩
  | Manager m =>
      obtain ⟨fs', hadds, hsave⟩ := SnapshotManager.save_snapshot_fresh hfresh hdir.base_file
      obtain ⟨hcanon, -⟩ := hadds.spec hdir.canonical hle
      obtain ⟨fs'', hclean, -⟩ := delete_oldest_spec hcanon hadds.dir m.config.max_snapshots
      exact ⟨_, congrArg Prod.fst (hsave fs'' hclean)⟩

/-- What a failure leaves that has only touched a temporary file is usable. -/
theorem StillUsable.of_sameBut {writer : SnapshotWriter} (hdir : ReadableDir writer.persistence fs)
    (hle : snapshot.header.generation ≤ u64_MAX) (hfresh : Fresh writer.persistence fs snapshot)
    {generation : Tick} (hsame : Files.SameBut (writer.persistence.temp_path generation) fs fs') :
    StillUsable writer snapshot fs fs' := by
  obtain ⟨hdir', hgenerations⟩ := hdir.sameBut_temp hsame
  have hlist := list_snapshots_eq hdir.canonical hdir.base_dir
  have hlist' := list_snapshots_eq hdir'.canonical hdir'.base_dir
  refine ⟨?_, ⟨_, by rw [latest_snapshot, hlist']; rfl, fun found path hlatest => ?_⟩,
    SnapshotWriter.write_fresh hdir' hle (hfresh.sameBut_temp hle hsame)⟩
  · rw [hlist, hlist', hgenerations]
  · obtain ⟨x, hx, heq⟩ := List.mem_map.1 (List.mem_of_getLast? hlatest)
    cases heq
    exact hdir'.readable _ hx

/-- A file under the final name of a new generation is listed. -/
theorem not_stillUsable {writer : SnapshotWriter} (hdir : ReadableDir writer.persistence fs)
    (hle : snapshot.header.generation ≤ u64_MAX) (hfresh : Fresh writer.persistence fs snapshot)
    (hsame : Files.SameBut (writer.persistence.snapshot_path snapshot.header.generation) fs fs')
    (hmem : writer.persistence.snapshot_path snapshot.header.generation ∈ fs'.files) :
    ¬ StillUsable writer snapshot fs fs' := by
  have hcanon : writer.persistence.Canonical fs' := by
    intro path hpath found hfound
    by_cases hother : path = writer.persistence.snapshot_path snapshot.header.generation
    · subst hother
      rw [path_generation_path hle] at hfound
      rw [Option.some.inj hfound]
    · exact hdir.canonical path ((hsame.mem_iff hother).1 hpath) found hfound
  have hbase : writer.persistence.base_dir ∈ fs'.dirs := by
    rw [hsame.dirs]
    exact hdir.base_dir
  rintro ⟨hlists, -⟩
  rw [list_snapshots_eq hcanon hbase, list_snapshots_eq hdir.canonical hdir.base_dir] at hlists
  simp only [Except.map, List.map_map, Function.comp_def, List.map_id', Except.ok.injEq] at hlists
  have hin := (mem_generations hcanon).2 ⟨hle, hmem⟩
  rw [hlists] at hin
  have hthere := ((mem_generations hdir.canonical).1 hin).2
  have hnew := hfresh.1
  rw [Files.path_exists_iff.2 (.inl hthere)] at hnew
  cases hnew

end Usable

/-! ## The call that fails -/

section Failing

variable {disk : FaultyDisk} {snapshot : PersistedSnapshot} {before written : Nat}

/-- A fault in `write_snapshot`: if the directory or the file could not be made, nothing has
changed, and otherwise there is a file under the final name. -/
theorem write_snapshot_fault {p : SnapshotPersistence} (hfault : disk.fault = some (before, written))
    (hbase : p.base_dir ∈ disk.files.dirs)
    (hjson : ∃ header_bytes, JsonBytes.to_vec snapshot.header = .ok header_bytes)
    (hhit : (p.write_snapshot disk snapshot).2.fault = none) :
    Fresh p disk.files snapshot
      ∧ (∃ e, (p.write_snapshot disk snapshot).1 = .error e)
      ∧ (before < 2 ∧ (p.write_snapshot disk snapshot).2.files = disk.files
        ∨ 2 ≤ before
          ∧ disk.files.SameBut (p.snapshot_path snapshot.header.generation)
            (p.write_snapshot disk snapshot).2.files
          ∧ p.snapshot_path snapshot.header.generation ∈ (p.write_snapshot disk snapshot).2.files.files) := by
  obtain ⟨header_bytes, hjson⟩ := hjson
  obtain ⟨fs, fault⟩ := disk
  obtain rfl : fault = some (before, written) := hfault
  rcases hnew : SaveDisk.path_exists fs (p.snapshot_path snapshot.header.generation) with _ | _
  · refine ⟨⟨hnew, header_bytes, hjson⟩, ?_⟩
    have hthere : SaveDisk.path_exists ({ files := fs, fault := some (before, written) } : FaultyDisk)
        (p.snapshot_path snapshot.header.generation) = false := hnew
    have hdirs : fs.dirs.insert p.base_dir () = fs.dirs := by
      refine Maps.insert_self ?_
      rw [ExtTreeMap.getElem?_eq_some_getElem hbase]
    rcases before with _ | _ | before
    · simp only [write_snapshot, hthere, Bool.false_eq_true, if_false, SaveDisk.create_dir_all,
        FaultyDisk.call]
      exact ⟨⟨_, rfl⟩, .inl ⟨Nat.zero_lt_two, trivial⟩⟩
    · simp only [write_snapshot, hthere, Bool.false_eq_true, if_false, SaveDisk.create_dir_all,
        FaultyDisk.call, hjson, SaveDisk.create, hdirs]
      exact ⟨⟨_, rfl⟩, .inl ⟨Nat.one_lt_two, trivial⟩⟩
    · let path := p.snapshot_path snapshot.header.generation
      let parts := file_parts header_bytes
        (snapshot.table_data.toList.filter fun entry => p.persists entry.1)
      let created : FaultyDisk :=
        { files := { fs with files := fs.files.insert path [] }, fault := some (before, written) }
      have hcreated : path ∈ created.files.files := Maps.mem_insert_iff.2 (.inl rfl)
      have hcoming : created.fault.isSome := rfl
      obtain ⟨hsame, hmem, hok⟩ := write_parts_faulty hcoming hcreated parts
      rcases hparts : write_parts path parts created with ⟨e | _, d⟩
      · have hwrite : p.write_snapshot ({ files := fs, fault := some (before + 1 + 1, written) }
            : FaultyDisk) snapshot = (.error e, d) := by
          simp only [path, parts, created] at hparts
          simp only [write_snapshot, hthere, Bool.false_eq_true, if_false, SaveDisk.create_dir_all,
            FaultyDisk.call, hjson, SaveDisk.create, hdirs, hparts]
        rw [hparts] at hsame hmem
        rw [hwrite]
        exact ⟨⟨e, rfl⟩, .inr ⟨by omega, (Files.sameBut_insert path fs []).trans hsame, hmem⟩⟩
      · have hwrite : p.write_snapshot ({ files := fs, fault := some (before + 1 + 1, written) }
            : FaultyDisk) snapshot = (.ok path, d) := by
          simp only [path, parts, created] at hparts
          simp only [write_snapshot, hthere, Bool.false_eq_true, if_false, SaveDisk.create_dir_all,
            FaultyDisk.call, hjson, SaveDisk.create, hdirs, hparts, path]
        -- the fault is still to come
        have hsome := hok (by rw [hparts])
        rw [hwrite] at hhit
        rw [hparts, hhit] at hsome
        cases hsome
  · have hthere : SaveDisk.path_exists ({ files := fs, fault := some (before, written) } : FaultyDisk)
        (p.snapshot_path snapshot.header.generation) = true := hnew
    simp [write_snapshot, hthere] at hhit

/-- Writing to the temporary file touches nothing else, and fails if the fault comes. -/
theorem write_to_temp_faulty {m : SnapshotManager} (hfault : disk.fault = some (before, written))
    (hbase : m.persistence.base_dir ∈ disk.files.dirs)
    (hjson : ∃ header_bytes, JsonBytes.to_vec snapshot.header = .ok header_bytes)
    {temp_path : String} {result : SaveResult Unit} {disk' : FaultyDisk}
    (h : m.write_snapshot_to_temp disk snapshot temp_path = (result, disk')) :
    disk.files.SameBut temp_path disk'.files
      ∧ (result = .ok () → disk'.fault.isSome ∧ temp_path ∈ disk'.files.files) := by
  obtain ⟨header_bytes, hjson⟩ := hjson
  obtain ⟨fs, fault⟩ := disk
  obtain rfl : fault = some (before, written) := hfault
  have hdir : ∀ fault, SaveDisk.path_exists ({ files := fs, fault } : FaultyDisk)
      m.persistence.base_dir = true := fun _ => Files.path_exists_iff.2 (.inr hbase)
  -- the first call is the creation of the temporary file: it fails, or the fault is still to come
  rcases before with _ | before
  · simp only [SnapshotManager.write_snapshot_to_temp, hdir, if_true, hjson, SaveDisk.create,
      FaultyDisk.call, Prod.mk.injEq] at h
    obtain ⟨rfl, rfl⟩ := h
    exact ⟨.refl temp_path fs, fun hok => by cases hok⟩
  let parts := file_parts header_bytes snapshot.table_data.toList
  let created : FaultyDisk :=
    { files := { fs with files := fs.files.insert temp_path [] }, fault := some (before, written) }
  have hcreated : temp_path ∈ created.files.files := Maps.mem_insert_iff.2 (.inl rfl)
  have hcoming : created.fault.isSome := rfl
  obtain ⟨hsame, hmem, hok⟩ := write_parts_faulty hcoming hcreated parts
  have htemp : fs.SameBut temp_path (write_parts temp_path parts created).2.files :=
    (Files.sameBut_insert temp_path fs []).trans hsame
  simp only [SnapshotManager.write_snapshot_to_temp, hdir, if_true, hjson, SaveDisk.create,
    FaultyDisk.call] at h
  -- the parts are written one after another, and the file is flushed last
  rcases hparts : write_parts temp_path parts created with ⟨e | _, d⟩
  · rw [hparts] at htemp
    simp only [parts, created] at hparts
    simp only [hparts, Prod.mk.injEq] at h
    obtain ⟨rfl, rfl⟩ := h
    exact ⟨htemp, fun hok => by cases hok⟩
  · have hsome := hok (by rw [hparts])
    rw [hparts] at htemp hmem hsome
    simp only [parts, created] at hparts
    obtain ⟨fs', _ | ⟨_ | before', written'⟩⟩ := d
    · cases hsome
    · simp only [hparts, SaveDisk.flush, FaultyDisk.call, Prod.mk.injEq] at h
      obtain ⟨rfl, rfl⟩ := h
      exact ⟨htemp, fun hok => by cases hok⟩
    · simp only [hparts, SaveDisk.flush, FaultyDisk.call, Prod.mk.injEq] at h
      obtain ⟨rfl, rfl⟩ := h
      exact ⟨htemp, fun _ => ⟨rfl, hmem⟩⟩

omit [JsonBytes SnapshotHeader] in
/-- Deleting is not among the calls that fail. -/
theorem delete_oldest_fault (p : SnapshotPersistence) (limit : Nat) (disk : FaultyDisk) :
    (p.delete_oldest limit disk).2.fault = disk.fault := by
  have hdelete : ∀ (d : FaultyDisk) (generation : Tick),
      (p.delete_snapshot d generation).2.fault = d.fault := by
    intro d generation
    rw [delete_snapshot]
    split
    · have hsame : (SaveDisk.remove_file d (p.snapshot_path generation)).2.fault = d.fault := rfl
      rcases hremove : SaveDisk.remove_file d (p.snapshot_path generation) with ⟨e | _, d'⟩ <;>
        rw [hremove] at hsame <;> exact hsame
    · rfl
  rw [delete_oldest]
  rcases p.list_snapshots disk with e | snapshots
  · rfl
  · simp only
    split
    · rfl
    · exact forEach_invariant (P := fun d : FaultyDisk => d.fault = disk.fault) _
        (fun d generation _ hd => (hdelete d generation).trans hd) rfl

/-- A fault in `save_snapshot` leaves everything but the temporary file as it was. -/
theorem save_snapshot_fault {m : SnapshotManager} (hfault : disk.fault = some (before, written))
    (hbase : m.persistence.base_dir ∈ disk.files.dirs)
    (hjson : ∃ header_bytes, JsonBytes.to_vec snapshot.header = .ok header_bytes)
    (hhit : (m.save_snapshot disk snapshot).2.fault = none) :
    Fresh m.persistence disk.files snapshot
      ∧ (∃ e, (m.save_snapshot disk snapshot).1 = .error e)
      ∧ disk.files.SameBut (m.persistence.temp_path snapshot.header.generation)
        (m.save_snapshot disk snapshot).2.files := by
  let temp_path := m.persistence.temp_path snapshot.header.generation
  let final_path := m.persistence.snapshot_path snapshot.header.generation
  have htemp_eq : m.temp_snapshot_path snapshot.header.generation = temp_path := rfl
  -- a file of that generation is refused before any call that could fail
  rcases hnew : SaveDisk.path_exists disk final_path with _ | _
  · refine ⟨⟨hnew, hjson⟩, ?_⟩
    rcases hwrite : m.write_snapshot_to_temp disk snapshot temp_path with ⟨result, d⟩
    obtain ⟨hsame, hok⟩ := write_to_temp_faulty hfault hbase hjson hwrite
    rcases result with e | _
    · have hsave : m.save_snapshot disk snapshot = (.error e, d) := by
        simp only [SnapshotManager.save_snapshot, htemp_eq, final_path] at hnew ⊢
        simp only [hnew, hwrite, Bool.false_eq_true, if_false]
      rw [hsave]
      exact ⟨⟨e, rfl⟩, hsame⟩
    obtain ⟨hsome, hmem⟩ := hok rfl
    obtain ⟨bytes, hbytes⟩ := Option.isSome_iff_exists.1 (ExtTreeMap.mem_iff_isSome_getElem?.1 hmem)
    obtain ⟨fs', _ | ⟨_ | before', written'⟩⟩ := d
    · cases hsome
    · have hsave : ∃ e, m.save_snapshot disk snapshot = (.error e, { files := fs', fault := none }) := by
        simp only [SnapshotManager.save_snapshot, htemp_eq, final_path] at hnew ⊢
        simp only [hnew, hwrite, Bool.false_eq_true, if_false, SaveDisk.rename, FaultyDisk.call]
        exact ⟨_, rfl⟩
      obtain ⟨e, hsave⟩ := hsave
      rw [hsave]
      exact ⟨⟨e, rfl⟩, hsame⟩
    · -- the fault has not come by the time of the rename, and does not come after it
      exfalso
      let renamed : FaultyDisk :=
        { files := { fs' with files := (fs'.files.erase temp_path).insert final_path bytes }
          fault := some (before', written') }
      have hfault' : (m.save_snapshot disk snapshot).2.fault = renamed.fault := by
        rw [← delete_oldest_fault m.persistence m.config.max_snapshots renamed]
        simp only [SnapshotManager.save_snapshot, htemp_eq, final_path] at hnew ⊢
        simp only [hnew, hwrite, Bool.false_eq_true, if_false, SaveDisk.rename, FaultyDisk.call, hbytes,
          SnapshotManager.cleanup_old_snapshots]
        rcases m.persistence.delete_oldest m.config.max_snapshots renamed with ⟨e | _, d⟩ <;> rfl
      rw [hfault'] at hhit
      cases hhit
  · have hthere : m.save_snapshot disk snapshot
        = (.error (.SnapshotAlreadyExists s!"generation {snapshot.header.generation}"), disk) := by
      simp only [SnapshotManager.save_snapshot, final_path] at hnew ⊢
      simp only [hnew, if_true]
    rw [hthere, hfault] at hhit
    cases hhit

end Failing

/-! ## What is left of the saves -/

/-- A call that a fault has made fail leaves the previous saves usable exactly when it is the
snapshot manager's, or when the fault comes before the file has been created. -/
theorem failed_write_iff {writer : SnapshotWriter} {disk : FaultyDisk} {snapshot : PersistedSnapshot}
    {before written : Nat} (hfault : disk.fault = some (before, written))
    (hdir : ReadableDir writer.persistence disk.files) (hle : snapshot.header.generation ≤ u64_MAX)
    (hjson : ∃ header_bytes, JsonBytes.to_vec snapshot.header = .ok header_bytes)
    (hhit : (writer.write disk snapshot).2.fault = none) :
    (∃ e, (writer.write disk snapshot).1 = .error e)
      ∧ (StillUsable writer snapshot disk.files (writer.write disk snapshot).2.files
        ↔ (∃ m, writer = .Manager m) ∨ before < 2) := by
  cases writer with
  | Persistence p =>
      obtain ⟨hfresh, herror, hfiles⟩ := write_snapshot_fault hfault hdir.base_dir hjson hhit
      refine ⟨herror, ?_⟩
      rcases hfiles with ⟨hearly, hsame⟩ | ⟨hlate, hsame, hmem⟩
      · refine iff_of_true ?_ (.inr hearly)
        have hrefl : disk.files.SameBut (p.temp_path 0) (p.write_snapshot disk snapshot).2.files := by
          refine ⟨congrArg Files.dirs hsame, fun other _ => ?_⟩
          exact congrArg (fun fs : Files => fs.files[other]?) hsame
        exact .of_sameBut hdir hle hfresh hrefl
      · refine iff_of_false (not_stillUsable hdir hle hfresh hsame hmem) ?_
        rintro (⟨m, hm⟩ | hearly)
        · cases hm
        · omega
  | Manager m =>
      obtain ⟨hfresh, herror, hsame⟩ := save_snapshot_fault hfault hdir.base_dir hjson hhit
      exact ⟨herror, iff_of_true (.of_sameBut hdir hle hfresh hsame) (.inl ⟨m, rfl⟩)⟩

end Scharnhorst

/-! ## A second save -/

namespace Scharnhorst

def numbered (generation : Tick) : PersistedSnapshot :=
  { header := { schema_manifest := .new "1", generation, state_hash := 0 }, table_data := ∅ }

@[reducible] def two_known_headers : JsonBytes SnapshotHeader :=
  plain_headers [(numbered 1).header, (numbered 2).header]

attribute [local instance] two_known_headers

/-- A directory with one snapshot. -/
def one_save : Files :=
  { dirs := (∅ : Map String Unit).insert "saves" ()
    files := (∅ : Map String (List UInt8)).insert "saves/snapshot_gen_1.arrow"
      (SnapshotPersistence.file_bytes (header_text (numbered 1).header).toUTF8.toList []) }

theorem one_save_readable : ReadableDir (.new "saves") one_save where
  canonical := by
    intro path hpath generation hgeneration
    rcases Maps.mem_insert_iff.1 hpath with rfl | hempty
    · have hone : (SnapshotPersistence.new "saves").path_generation "saves/snapshot_gen_1.arrow"
          = some 1 := by decide +kernel
      rw [hone] at hgeneration
      rw [← Option.some.inj hgeneration]
      decide +kernel
    · exact absurd hempty Std.ExtTreeMap.not_mem_empty
  base_dir := Maps.mem_insert_iff.2 (.inl rfl)
  base_file := by decide +kernel
  readable := by
    have hone : (SnapshotPersistence.new "saves").generations one_save = [1] := by decide +kernel
    intro generation hgeneration
    rw [hone, List.mem_singleton] at hgeneration
    subst hgeneration
    exact ⟨numbered 1, by decide +kernel⟩

/-- The first write of a persistence fails: there are two generations now, the latest cannot
be read, and a second try is told that the snapshot exists. -/
theorem write_fails_after_create :
    let disk : FaultyDisk := { files := one_save, fault := some (2, 3) }
    let p : SnapshotPersistence := .new "saves"
    let (result, disk') := p.write_snapshot disk (numbered 2)
    result = .error (.Io "write header len: Input/output error (os error 5)")
      ∧ (p.list_snapshots one_save).map (List.map Prod.fst) = .ok [1]
      ∧ (p.list_snapshots disk'.files).map (List.map Prod.fst) = .ok [1, 2]
      ∧ p.latest_snapshot disk'.files = .ok (some (2, "saves/snapshot_gen_2.arrow"))
      ∧ p.read_snapshot disk'.files 2 = .error (.Io "read header len: failed to fill whole buffer")
      ∧ (p.write_snapshot disk'.files (numbered 2)).1
        = .error (.SnapshotAlreadyExists "generation 2") := by
  decide +kernel

/-- The same failure of a snapshot manager. -/
theorem save_fails_after_create :
    let disk : FaultyDisk := { files := one_save, fault := some (2, 3) }
    let writer : SnapshotWriter := .Manager (.new "saves" .default "journal")
    (∃ e, (writer.write disk (numbered 2)).1 = .error e)
      ∧ StillUsable writer (numbered 2) one_save (writer.write disk (numbered 2)).2.files := by
  intro disk writer
  have hjson : ∃ header_bytes, JsonBytes.to_vec (numbered 2).header = .ok header_bytes := ⟨_, rfl⟩
  have hhit : (writer.write disk (numbered 2)).2.fault = none := by decide +kernel
  have hfault : disk.fault = some (2, 3) := rfl
  have hdir : ReadableDir writer.persistence disk.files := one_save_readable
  obtain ⟨herror, husable⟩ := failed_write_iff hfault hdir (by decide) hjson hhit
  exact ⟨herror, husable.2 (.inl ⟨_, rfl⟩)⟩

end Scharnhorst
