/-
Which tables the save paths put into a file.

There are three paths. Two of them write through a persistence, and that filters by the
registry that is attached to it, if there is one. The third, the snapshot manager, writes
its temporary file itself and has no filter. So a file holds the tables of the `Authority`
tier and no others where a registry is attached on the first two paths, and elsewhere only
if the snapshot holds no other tables to begin with.
-/
import Scharnhorst.RoundTrip

set_option autoImplicit false

namespace Scharnhorst

open Attempt Std SnapshotPersistence

/-! ## Deleting leaves the other files as they are -/

namespace Files

/-- Nothing has been written: what is there was there before. -/
def Within (fs fs' : Files) : Prop :=
  ∀ (path : String) (bytes : List UInt8), fs'.files[path]? = some bytes → fs.files[path]? = some bytes

theorem Within.refl (fs : Files) : fs.Within fs := fun _ _ h => h

theorem Within.trans {fs fs' fs'' : Files} (h : fs.Within fs') (h' : fs'.Within fs'') :
    fs.Within fs'' := fun path bytes hbytes => h path bytes (h' path bytes hbytes)

theorem remove_file_within (fs : Files) (path : String) :
    fs.Within (SaveDisk.remove_file fs path).2 := by
  simp only [SaveDisk.remove_file]
  split
  · intro other bytes hbytes
    rw [ExtTreeMap.getElem?_erase] at hbytes
    split at hbytes
    · cases hbytes
    · exact hbytes
  · exact .refl fs

end Files

theorem SnapshotPersistence.delete_snapshot_within (p : SnapshotPersistence) (fs : Files)
    (generation : Tick) : fs.Within (p.delete_snapshot fs generation).2 := by
  rw [delete_snapshot]
  split
  · have hremoved := Files.remove_file_within fs (p.snapshot_path generation)
    rcases hremove : SaveDisk.remove_file fs (p.snapshot_path generation) with ⟨e | _, fs'⟩
    · rw [hremove] at hremoved
      exact hremoved
    · rw [hremove] at hremoved
      exact hremoved
  · exact .refl fs

theorem SnapshotPersistence.delete_oldest_within (p : SnapshotPersistence) (limit : Nat) (fs : Files) :
    fs.Within (p.delete_oldest limit fs).2 := by
  rw [delete_oldest]
  rcases p.list_snapshots fs with e | snapshots
  · exact .refl fs
  · simp only
    split
    · exact .refl fs
    · refine forEach_invariant _ (fun fs' generation _ hfs' => ?_) (Files.Within.refl fs)
      exact hfs'.trans (delete_snapshot_within p fs' generation)

theorem CheckpointManager.truncate_journal_within (m : CheckpointManager) (fs : Files) :
    fs.Within (m.truncate_journal fs).2.2 := by
  rw [truncate_journal]
  split
  · have hremoved := Files.remove_file_within fs m.journal_path
    rcases hremove : SaveDisk.remove_file fs m.journal_path with ⟨e | _, fs'⟩
    · rw [hremove] at hremoved
      exact hremoved
    · rw [hremove] at hremoved
      exact hremoved
  · exact .refl fs

/-! ## The save paths -/

/-- How a snapshot gets to disk. -/
inductive SavePath where
  | Persistence (p : SnapshotPersistence)
  | Checkpoint (m : CheckpointManager)
  | Manager (m : SnapshotManager)

namespace SavePath

/-- The path of the file of a generation. -/
def file : SavePath → Tick → String
  | Persistence p, generation => p.snapshot_path generation
  | Checkpoint m, generation => m.persistence.snapshot_path generation
  | Manager m, generation => m.persistence.snapshot_path generation

/-- The registry that the path filters by. The snapshot manager does not filter. -/
def tier_registry : SavePath → Option TierRegistry
  | Persistence p => p.tier_registry
  | Checkpoint m => m.persistence.tier_registry
  | Manager _ => none

variable [JsonBytes SnapshotHeader]

/-- The call, as far as its success and the disk go. -/
def save (fs : Files) (snapshot : PersistedSnapshot) : SavePath → SaveResult Unit × Files
  | Persistence p =>
    let (result, fs) := p.write_snapshot fs snapshot
    (result.map fun _ => (), fs)
  | Checkpoint m =>
    let (result, _, fs) := m.write_checkpoint_snapshot fs snapshot
    (result, fs)
  | Manager m =>
    let (result, fs) := m.save_snapshot fs snapshot
    (result.map fun _ => (), fs)

end SavePath

/-! ## What a successful call has written -/

variable [JsonBytes SnapshotHeader] {fs fs' : Files} {snapshot : PersistedSnapshot}

/-- The file of a snapshot that a persistence has written. -/
theorem write_snapshot_file {p : SnapshotPersistence} {path : String}
    (h : p.write_snapshot fs snapshot = (.ok path, fs')) :
    ∃ header_bytes, JsonBytes.to_vec snapshot.header = .ok header_bytes
      ∧ fs'.files[p.snapshot_path snapshot.header.generation]?
        = some (file_bytes header_bytes
          (snapshot.table_data.toList.filter fun entry => p.persists entry.1)) := by
  rcases hnew : SaveDisk.path_exists fs (p.snapshot_path snapshot.header.generation) with _ | _
  · rcases hjson : JsonBytes.to_vec snapshot.header with e | header_bytes
    · simp [write_snapshot, hnew, hjson, SaveDisk.create_dir_all] at h
    · have hwrite := write_snapshot_in_files hjson (List.Perm.refl _) hnew
      rw [write_snapshot_in_toList, h, Prod.mk.injEq] at hwrite
      obtain ⟨-, rfl⟩ := hwrite
      exact ⟨header_bytes, rfl, ExtTreeMap.getElem?_insert_self⟩
  · simp [write_snapshot, hnew] at h

theorem write_snapshot_to_temp_file {m : SnapshotManager} {temp_path : String}
    (h : m.write_snapshot_to_temp fs snapshot temp_path = (.ok (), fs')) :
    ∃ header_bytes, JsonBytes.to_vec snapshot.header = .ok header_bytes
      ∧ fs'.files[temp_path]? = some (file_bytes header_bytes snapshot.table_data.toList) := by
  rcases hjson : JsonBytes.to_vec snapshot.header with e | header_bytes
  · rcases hdir : SaveDisk.path_exists fs m.persistence.base_dir with _ | _ <;>
      simp [SnapshotManager.write_snapshot_to_temp, hdir, hjson, SaveDisk.create_dir_all] at h
  · obtain ⟨fs'', hwrite, hfile⟩ := SnapshotManager.write_snapshot_to_temp_in_files m fs hjson
      (List.Perm.refl _) temp_path
    rw [SnapshotManager.write_snapshot_to_temp_in_toList, h, Prod.mk.injEq] at hwrite
    obtain ⟨-, rfl⟩ := hwrite
    exact ⟨header_bytes, rfl, hfile⟩

/-- The steps of a save that succeeded. -/
theorem save_snapshot_ok {m : SnapshotManager} {path : String}
    (h : m.save_snapshot fs snapshot = (.ok path, fs')) :
    ∃ fs₁ fs₂, m.write_snapshot_to_temp fs snapshot
        (m.temp_snapshot_path snapshot.header.generation) = (.ok (), fs₁)
      ∧ SaveDisk.rename fs₁ (m.temp_snapshot_path snapshot.header.generation)
        (m.persistence.snapshot_path snapshot.header.generation) = (.ok (), fs₂)
      ∧ m.cleanup_old_snapshots fs₂ = (.ok (), fs') := by
  simp only [SnapshotManager.save_snapshot] at h
  split at h
  · cases h
  · split at h
    · cases h
    · rename_i fs₁ hwrite
      split at h
      · cases h
      · rename_i fs₂ hrename
        split at h
        · cases h
        · rename_i fs₃ hclean
          cases h
          exact ⟨fs₁, fs₂, hwrite, hrename, hclean⟩

theorem save_snapshot_file {m : SnapshotManager} {path : String} {bytes : List UInt8}
    (h : m.save_snapshot fs snapshot = (.ok path, fs'))
    (hfile : fs'.files[m.persistence.snapshot_path snapshot.header.generation]? = some bytes) :
    ∃ header_bytes, JsonBytes.to_vec snapshot.header = .ok header_bytes
      ∧ bytes = file_bytes header_bytes snapshot.table_data.toList := by
  obtain ⟨fs₁, fs₂, hwrite, hrename, hclean⟩ := save_snapshot_ok h
  obtain ⟨header_bytes, hjson, htemp⟩ := write_snapshot_to_temp_file hwrite
  have hrenamed : fs₂.files[m.persistence.snapshot_path snapshot.header.generation]?
      = some (file_bytes header_bytes snapshot.table_data.toList) := by
    simp only [SaveDisk.rename, htemp, Prod.mk.injEq, true_and] at hrename
    subst hrename
    exact ExtTreeMap.getElem?_insert_self
  have hwithin : fs₂.Within fs' := by
    have h := delete_oldest_within m.persistence m.config.max_snapshots fs₂
    rwa [← SnapshotManager.cleanup_old_snapshots, hclean] at h
  have hkept := hwithin _ _ hfile
  rw [hrenamed] at hkept
  exact ⟨header_bytes, hjson, (Option.some.inj hkept).symm⟩

theorem write_checkpoint_snapshot_ok {m m' : CheckpointManager}
    (h : m.write_checkpoint_snapshot fs snapshot = (.ok (), m', fs')) :
    ∃ path fs₁, m.persistence.write_snapshot fs snapshot = (.ok path, fs₁) ∧ fs₁.Within fs' := by
  simp only [CheckpointManager.write_checkpoint_snapshot] at h
  split at h
  · cases h
  · rename_i path fs₁ hwrite
    split at h
    · cases h
    · rename_i fs₂ hretention
      split at h
      · cases h
      · rename_i m'' fs₃ htruncate
        cases h
        have hdeleted := delete_oldest_within m.persistence m.policy.max_snapshots fs₁
        have htruncated := CheckpointManager.truncate_journal_within m fs₂
        rw [← CheckpointManager.enforce_retention, hretention] at hdeleted
        rw [htruncate] at htruncated
        exact ⟨path, fs₁, hwrite, hdeleted.trans htruncated⟩

/-- The bytes of the file that a successful call leaves: those of the tables that the path
lets through. -/
theorem SavePath.save_file {path : SavePath} {bytes : List UInt8}
    (hok : path.save fs snapshot = (.ok (), fs'))
    (hfile : fs'.files[path.file snapshot.header.generation]? = some bytes) :
    ∃ header_bytes, JsonBytes.to_vec snapshot.header = .ok header_bytes
      ∧ bytes = file_bytes header_bytes (snapshot.table_data.toList.filter fun entry =>
        ({ base_dir := "", tier_registry := path.tier_registry } : SnapshotPersistence).persists
          entry.1) := by
  cases path with
  | Persistence p =>
      rcases hwrite : p.write_snapshot fs snapshot with ⟨e | written, fs₁⟩
      · simp [save, hwrite, Except.map] at hok
      · simp only [save, hwrite, Except.map, Prod.mk.injEq, true_and] at hok
        subst hok
        obtain ⟨header_bytes, hjson, hbytes⟩ := write_snapshot_file hwrite
        refine ⟨header_bytes, hjson, ?_⟩
        exact Option.some.inj (hfile.symm.trans hbytes)
  | Checkpoint m =>
      rcases hwrite : m.write_checkpoint_snapshot fs snapshot with ⟨result, m', fs₁⟩
      simp only [save, hwrite, Prod.mk.injEq] at hok
      obtain ⟨rfl, rfl⟩ := hok
      obtain ⟨written, fs₂, hwritten, hwithin⟩ := write_checkpoint_snapshot_ok hwrite
      obtain ⟨header_bytes, hjson, hbytes⟩ := write_snapshot_file hwritten
      refine ⟨header_bytes, hjson, ?_⟩
      exact Option.some.inj ((hwithin _ _ hfile).symm.trans hbytes)
  | Manager m =>
      rcases hwrite : m.save_snapshot fs snapshot with ⟨e | written, fs₁⟩
      · simp [save, hwrite, Except.map] at hok
      · simp only [save, hwrite, Except.map, Prod.mk.injEq, true_and] at hok
        subst hok
        obtain ⟨header_bytes, hjson, hbytes⟩ := save_snapshot_file hwrite hfile
        refine ⟨header_bytes, hjson, hbytes.trans ?_⟩
        simp [tier_registry, persists]

/-! ## Only the `Authority` tables -/

/-- The file holds the `Authority` tables of the snapshot, and no others. -/
def HoldsAuthority (tr : TierRegistry) (bytes : List UInt8) (snapshot : PersistedSnapshot) : Prop :=
  ∃ stored, RoundTrips bytes stored ∧ stored.header = snapshot.header
    ∧ ∀ (name : String) (data : List UInt8), stored.table_data[name]? = some data
      ↔ snapshot.table_data[name]? = some data ∧ tr.is_authority name = true

/-- A file is read as one snapshot only. -/
theorem RoundTrips.unique {bytes : List UInt8} {stored stored' : PersistedSnapshot}
    (h : RoundTrips bytes stored) (h' : RoundTrips bytes stored') : stored = stored' := by
  let p : SnapshotPersistence := .new ""
  let fs : Files := { dirs := ∅, files := (∅ : Map String (List UInt8)).insert (p.snapshot_path 0) bytes }
  have hfile : fs.files[p.snapshot_path 0]? = some bytes := ExtTreeMap.getElem?_insert_self
  have hread := h.1 p fs 0 hfile
  rw [h'.1 p fs 0 hfile] at hread
  exact (Except.ok.inj hread).symm

omit [JsonBytes SnapshotHeader] in
theorem mem_written {p : SnapshotPersistence} {name : String} {data : List UInt8} :
    (p.written snapshot).table_data[name]? = some data
      ↔ snapshot.table_data[name]? = some data ∧ p.persists name = true := by
  rw [written_eq, ExtTreeMap.getElem?_filter']
  exact Option.filter_eq_some_iff

/-- The file that a save path has written holds exactly the `Authority` tables if the
registry is attached to the path, or if the snapshot has only such tables. -/
theorem authority_only_iff {path : SavePath} {tr : TierRegistry} {bytes : List UInt8}
    (hback : ∀ header_bytes, JsonBytes.to_vec snapshot.header = .ok header_bytes →
      JsonBytes.from_slice header_bytes = .ok snapshot.header)
    (hmemory : ∀ header_bytes, JsonBytes.to_vec snapshot.header = .ok header_bytes →
      InMemory header_bytes snapshot.table_data.toList)
    (hregistry : ∀ attached, path.tier_registry = some attached → attached = tr)
    (hok : path.save fs snapshot = (.ok (), fs'))
    (hfile : fs'.files[path.file snapshot.header.generation]? = some bytes) :
    HoldsAuthority tr bytes snapshot
      ↔ path.tier_registry = some tr ∨ ∀ name ∈ snapshot.table_data, tr.is_authority name = true := by
  obtain ⟨header_bytes, hjson, hbytes⟩ := SavePath.save_file hok hfile
  let p : SnapshotPersistence := { base_dir := "", tier_registry := path.tier_registry }
  have hround : RoundTrips bytes (p.written snapshot) := by
    rw [hbytes]
    exact round_trips_file p (hback _ hjson) (List.Perm.refl _) (hmemory _ hjson)
  have hheader : (p.written snapshot).header = snapshot.header := by rw [written_eq]
  -- the file reads back as what the path lets through, whatever that is
  have hholds : HoldsAuthority tr bytes snapshot
      ↔ ∀ name ∈ snapshot.table_data, p.persists name = true ↔ tr.is_authority name = true := by
    constructor
    · rintro ⟨stored, hstored, -, htables⟩ name hname
      obtain rfl := hround.unique hstored
      obtain ⟨data, hdata⟩ := Option.isSome_iff_exists.1 (ExtTreeMap.mem_iff_isSome_getElem?.1 hname)
      have h := htables name data
      rw [mem_written] at h
      simpa only [hdata, true_and] using h
    · intro hall
      refine ⟨p.written snapshot, hround, hheader, fun name data => ?_⟩
      rw [mem_written]
      refine and_congr_right fun hdata => hall name ?_
      rw [ExtTreeMap.mem_iff_isSome_getElem?, hdata]
      rfl
  rw [hholds]
  rcases hattached : path.tier_registry with _ | attached
  · have hpersists : ∀ name, p.persists name = true := fun name => by
      simp only [p, persists, hattached]
    simp only [hpersists, true_iff, reduceCtorEq, false_or]
  · obtain rfl := hregistry attached hattached
    have hpersists : ∀ name, p.persists name = attached.is_authority name := fun name => by
      simp only [p, persists, hattached]
    simp [hpersists]

end Scharnhorst

/-! ## A derived table -/

namespace Scharnhorst

attribute [local instance] one_known_header

/-- One table that is `Authority`, and one that is not. -/
def with_cache : PersistedSnapshot :=
  { header := plain_header
    table_data := ((∅ : Map String (List UInt8)).insert "actors" [1]).insert "cache" [2] }

def cache_is_derived : TierRegistry :=
  ((TierRegistry.new.register "actors" .Authority "core" "").2.register "cache" .Derived "core" "").2

/-- The snapshot manager writes the derived table too. -/
theorem manager_writes_cache :
    let m : SnapshotManager := .new "saves" .default "journal"
    let (result, fs) := SavePath.save .new with_cache (.Manager m)
    result = .ok () ∧ cache_is_derived.is_authority "cache" = false
      ∧ ∃ stored, m.persistence.read_snapshot fs 7 = .ok stored
        ∧ stored.table_data["cache"]? = some [2] := by
  refine ⟨by decide +kernel, by decide +kernel, with_cache, by decide +kernel, by decide +kernel⟩

/-- A checkpoint manager with the registry does not. -/
theorem checkpoint_leaves_cache_out :
    let m := (CheckpointManager.new "saves" .default_policy "journal").with_tier_registry cache_is_derived
    ∃ bytes, (SavePath.save .new with_cache (.Checkpoint m)).2.files[m.persistence.snapshot_path 7]?
        = some bytes ∧ HoldsAuthority cache_is_derived bytes with_cache := by
  intro m
  have hjson : JsonBytes.to_vec plain_header = .ok (header_text plain_header).toUTF8.toList := rfl
  have hback : ∀ header_bytes, JsonBytes.to_vec plain_header = .ok header_bytes →
      JsonBytes.from_slice header_bytes = .ok plain_header := by
    intro header_bytes h
    rw [← Except.ok.inj (hjson.symm.trans h)]
    decide +kernel
  have hmemory : ∀ header_bytes, JsonBytes.to_vec plain_header = .ok header_bytes →
      SnapshotPersistence.InMemory header_bytes with_cache.table_data.toList := by
    intro header_bytes h
    rw [← Except.ok.inj (hjson.symm.trans h)]
    refine ⟨by decide +kernel, by decide +kernel, by decide +kernel, by decide +kernel⟩
  have hok : SavePath.save .new with_cache (.Checkpoint m)
      = (.ok (), (SavePath.save .new with_cache (.Checkpoint m)).2) := by
    refine Attempt.eq_of_verdict ?_
    decide +kernel
  have hthere : m.persistence.snapshot_path 7
      ∈ (SavePath.save .new with_cache (.Checkpoint m)).2.files := by decide +kernel
  obtain ⟨bytes, hfile⟩ := Option.isSome_iff_exists.1 (Std.ExtTreeMap.mem_iff_isSome_getElem?.1 hthere)
  have hregistry : ∀ attached, (SavePath.Checkpoint m).tier_registry = some attached →
      attached = cache_is_derived := fun attached h => (Option.some.inj h).symm
  exact ⟨bytes, hfile, (authority_only_iff hback hmemory hregistry hok hfile).2 (.inl rfl)⟩

end Scharnhorst
