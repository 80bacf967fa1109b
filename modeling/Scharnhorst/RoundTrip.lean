/-
Writing a snapshot and reading it back.

A writer goes over the tables in the order of a hash map, which is any order, and counts
them before that in a pass of its own. So the writers here take the order as an argument
and count from the map; in the order of the model's map they are the writers of the model.
Whatever the order, the file is that of the tables that pass the tier filter, the reader
gives them back, and a file that has been cut short anywhere is refused.
-/
import Scharnhorst.Managers
import Scharnhorst.SnapshotFormat

set_option autoImplicit false

namespace Scharnhorst

open Attempt Framing Std

/-! ## The writers, in any order -/

/-- Only the tables that are registered as `Authority`. -/
def PersistedSnapshot.filter_to_authority (snapshot : PersistedSnapshot)
    (tier_registry : TierRegistry) : PersistedSnapshot :=
  { snapshot with
    table_data := snapshot.table_data.filter fun name _ => tier_registry.is_authority name }

namespace SnapshotPersistence

/-- The number of tables in the file, from a pass of its own over the map. -/
def table_count (p : SnapshotPersistence) (table_data : Map String (List UInt8)) : Nat :=
  match p.tier_registry with
  | some tr => (table_data.toList.filter fun entry => tr.is_authority entry.1).length
  | none => table_data.size

/-- What one round of the loop over the tables writes. -/
def entry_parts (p : SnapshotPersistence) (entry : String × List UInt8) :
    List (String × List UInt8) :=
  if p.persists entry.1 then table_parts entry else []

/-- The parts of a file, the tables in the order of `entries`. -/
def parts_in (p : SnapshotPersistence) (header_bytes : List UInt8)
    (table_data : Map String (List UInt8)) (entries : List (String × List UInt8)) :
    List (String × List UInt8) :=
  [("write header len", to_le_bytes header_bytes.length), ("write header", header_bytes),
    ("write table count", to_le_bytes (p.table_count table_data))] ++ entries.flatMap p.entry_parts

variable {D : Type} [SaveDisk D] [JsonBytes SnapshotHeader]

/-- `write_snapshot`, where the map gives its tables out in the order of `entries`. -/
def write_snapshot_in (p : SnapshotPersistence) (disk : D) (snapshot : PersistedSnapshot)
    (entries : List (String × List UInt8)) : SaveResult String × D :=
  let path := p.snapshot_path snapshot.header.generation
  if SaveDisk.path_exists disk path then
    (.error (.SnapshotAlreadyExists s!"generation {snapshot.header.generation}"), disk)
  else
    match SaveDisk.create_dir_all disk p.base_dir with
    | (.error e, disk) => (.error (.Io s!"create_dir_all: {e}"), disk)
    | (.ok (), disk) =>
      match JsonBytes.to_vec snapshot.header with
      | .error e => (.error (.IpcSerialization s!"header json: {e}"), disk)
      | .ok header_bytes =>
        match SaveDisk.create disk path with
        | (.error e, disk) => (.error (.Io s!"create: {e}"), disk)
        | (.ok (), disk) =>
          match write_parts path (p.parts_in header_bytes snapshot.table_data entries) disk with
          | (.error e, disk) => (.error e, disk)
          | (.ok (), disk) => (.ok path, disk)

/-- What a persistence writes of a snapshot. -/
def written (p : SnapshotPersistence) (snapshot : PersistedSnapshot) : PersistedSnapshot :=
  match p.tier_registry with
  | some tr => snapshot.filter_to_authority tr
  | none => snapshot

omit [JsonBytes SnapshotHeader] in
theorem written_eq (p : SnapshotPersistence) (snapshot : PersistedSnapshot) :
    p.written snapshot
      = { snapshot with table_data := snapshot.table_data.filter fun name _ => p.persists name } := by
  unfold written persists
  rcases p.tier_registry with _ | tr
  · have hall : snapshot.table_data.filter (fun _ _ => true) = snapshot.table_data :=
      ExtTreeMap.filter_eq_self_iff.2 fun _ _ => rfl
    simp only [hall]
  · rfl

omit [JsonBytes SnapshotHeader] in
theorem table_count_eq (p : SnapshotPersistence) (table_data : Map String (List UInt8)) :
    p.table_count table_data
      = (table_data.toList.filter fun entry => p.persists entry.1).length := by
  unfold table_count persists
  rcases p.tier_registry with _ | tr
  · simp
  · rfl

omit [JsonBytes SnapshotHeader] in
theorem flatMap_entry_parts (p : SnapshotPersistence) (entries : List (String × List UInt8)) :
    entries.flatMap p.entry_parts
      = (entries.filter fun entry => p.persists entry.1).flatMap table_parts := by
  induction entries with
  | nil => rfl
  | cons entry entries ih =>
      rw [List.flatMap_cons, ih, entry_parts, List.filter_cons]
      by_cases hp : p.persists entry.1
      · rw [if_pos hp, if_pos hp, List.flatMap_cons]
      · rw [if_neg hp, if_neg hp, List.nil_append]

omit [JsonBytes SnapshotHeader] in
/-- The count agrees with the tables that follow it. -/
theorem parts_in_eq (p : SnapshotPersistence) (header_bytes : List UInt8)
    {table_data : Map String (List UInt8)} {entries : List (String × List UInt8)}
    (horder : entries.Perm table_data.toList) :
    p.parts_in header_bytes table_data entries
      = file_parts header_bytes (entries.filter fun entry => p.persists entry.1) := by
  have hcount : p.table_count table_data
      = (entries.filter fun entry => p.persists entry.1).length := by
    rw [table_count_eq]
    exact (horder.filter _).length_eq.symm
  rw [parts_in, hcount, flatMap_entry_parts, file_parts]

theorem write_snapshot_in_toList (p : SnapshotPersistence) (disk : D) (snapshot : PersistedSnapshot) :
    p.write_snapshot_in disk snapshot snapshot.table_data.toList = p.write_snapshot disk snapshot := by
  simp only [write_snapshot_in, parts_in_eq p _ (List.Perm.refl _)]
  rfl

/-! ## What they leave on disk -/

variable {fs : Files} {snapshot : PersistedSnapshot} {entries : List (String × List UInt8)}
  {header_bytes : List UInt8}

/-- The file of a snapshot that was not there, as its bytes. -/
theorem write_snapshot_in_files {p : SnapshotPersistence}
    (hjson : JsonBytes.to_vec snapshot.header = .ok header_bytes)
    (horder : entries.Perm snapshot.table_data.toList)
    (hnew : SaveDisk.path_exists fs (p.snapshot_path snapshot.header.generation) = false) :
    p.write_snapshot_in fs snapshot entries
      = (.ok (p.snapshot_path snapshot.header.generation),
        { dirs := fs.dirs.insert p.base_dir ()
          files := fs.files.insert (p.snapshot_path snapshot.header.generation)
            (file_bytes header_bytes (entries.filter fun entry => p.persists entry.1)) }) := by
  simp only [write_snapshot_in, hnew, hjson, SaveDisk.create_dir_all, SaveDisk.create,
    parts_in_eq p header_bytes horder, Files.write_created, file_parts_bytes, Bool.false_eq_true,
    if_false]

end SnapshotPersistence

namespace SnapshotManager

open SnapshotPersistence

variable {D : Type} [SaveDisk D] [JsonBytes SnapshotHeader]

/-- `write_snapshot_to_temp`, where the map gives its tables out in the order of
`entries`. -/
def write_snapshot_to_temp_in (m : SnapshotManager) (disk : D) (snapshot : PersistedSnapshot)
    (entries : List (String × List UInt8)) (temp_path : String) : SaveResult Unit × D :=
  let (created, disk) :=
    if SaveDisk.path_exists disk m.persistence.base_dir then (.ok (), disk)
    else SaveDisk.create_dir_all disk m.persistence.base_dir
  match created with
  | .error e => (.error (.Io s!"create temp dir: {e}"), disk)
  | .ok () =>
    match JsonBytes.to_vec snapshot.header with
    | .error e => (.error (.IpcSerialization s!"header json: {e}"), disk)
    | .ok header_bytes =>
      match SaveDisk.create disk temp_path with
      | (.error e, disk) => (.error (.Io s!"create temp snapshot: {e}"), disk)
      | (.ok (), disk) =>
        let parts := [("write header len", to_le_bytes header_bytes.length),
            ("write header", header_bytes),
            ("write table count", to_le_bytes snapshot.table_data.size)]
          ++ entries.flatMap table_parts
        match SnapshotPersistence.write_parts temp_path parts disk with
        | (.error e, disk) => (.error e, disk)
        | (.ok (), disk) =>
          match SaveDisk.flush disk temp_path with
          | (.error e, disk) => (.error (.Io s!"flush temp snapshot: {e}"), disk)
          | (.ok (), disk) => (.ok (), disk)

theorem write_snapshot_to_temp_in_toList (m : SnapshotManager) (disk : D)
    (snapshot : PersistedSnapshot) (temp_path : String) :
    m.write_snapshot_to_temp_in disk snapshot snapshot.table_data.toList temp_path
      = m.write_snapshot_to_temp disk snapshot temp_path := by
  simp only [write_snapshot_to_temp_in, write_snapshot_to_temp, file_parts,
    ExtTreeMap.length_toList]
  all_goals rfl

variable {fs : Files} {snapshot : PersistedSnapshot} {entries : List (String × List UInt8)}
  {header_bytes : List UInt8}

theorem write_snapshot_to_temp_in_files (m : SnapshotManager) (fs : Files)
    (hjson : JsonBytes.to_vec snapshot.header = .ok header_bytes)
    (horder : entries.Perm snapshot.table_data.toList) (temp_path : String) :
    ∃ fs', m.write_snapshot_to_temp_in fs snapshot entries temp_path = (.ok (), fs')
      ∧ fs'.files[temp_path]? = some (file_bytes header_bytes entries) := by
  have hparts : [("write header len", to_le_bytes header_bytes.length),
        ("write header", header_bytes),
        ("write table count", to_le_bytes snapshot.table_data.size)]
      ++ entries.flatMap table_parts = file_parts header_bytes entries := by
    rw [file_parts, horder.length_eq, ExtTreeMap.length_toList]
  by_cases hdir : SaveDisk.path_exists fs m.persistence.base_dir = true
  · simp only [write_snapshot_to_temp_in, hdir, if_true, hjson, SaveDisk.create, SaveDisk.flush, hparts,
      Files.write_created, file_parts_bytes]
    exact ⟨_, rfl, ExtTreeMap.getElem?_insert_self⟩
  · simp only [write_snapshot_to_temp_in, hdir, if_false, hjson, SaveDisk.create, SaveDisk.flush, hparts,
      SaveDisk.create_dir_all, Files.write_created, file_parts_bytes, Bool.false_eq_true]
    exact ⟨_, rfl, ExtTreeMap.getElem?_insert_self⟩

end SnapshotManager

/-! ## Reading back -/

variable [JsonBytes SnapshotHeader]

/-- Stored as the file of a generation, the bytes are read as the snapshot, and cut short
anywhere they are refused. -/
def RoundTrips (bytes : List UInt8) (snapshot : PersistedSnapshot) : Prop :=
  (∀ (p : SnapshotPersistence) (fs : Files) (generation : Tick),
    fs.files[p.snapshot_path generation]? = some bytes → p.read_snapshot fs generation = .ok snapshot)
  ∧ ∀ short, short <+: bytes → short ≠ bytes →
    ∀ (p : SnapshotPersistence) (fs : Files) (generation : Tick),
      fs.files[p.snapshot_path generation]? = some short →
      ∃ e, p.read_snapshot fs generation = .error e

open SnapshotPersistence in
theorem RoundTrips.of_reads {bytes : List UInt8} {snapshot : PersistedSnapshot}
    (h : Reads snapshot_reader bytes snapshot) : RoundTrips bytes snapshot := by
  refine ⟨fun p fs generation hfile => ?_, fun short hshort hne p fs generation hfile => ?_⟩
  · have hwhole := h.whole []
    rw [List.append_nil] at hwhole
    rw [read_snapshot_eq hfile, hwhole]
    rfl
  · obtain ⟨e, he⟩ := h.cut short hshort hne
    refine ⟨e, ?_⟩
    rw [read_snapshot_eq hfile, he]
    rfl

variable {snapshot : PersistedSnapshot} {entries : List (String × List UInt8)}
  {header_bytes : List UInt8}

open SnapshotPersistence in
/-- The file of the tables that pass the filter reads as the snapshot with those tables. -/
theorem round_trips_file (p : SnapshotPersistence)
    (hback : JsonBytes.from_slice header_bytes = .ok snapshot.header)
    (horder : entries.Perm snapshot.table_data.toList) (hmemory : InMemory header_bytes entries) :
    RoundTrips (file_bytes header_bytes (entries.filter fun entry => p.persists entry.1))
      (p.written snapshot) := by
  have hfiltered : InMemory header_bytes (entries.filter fun entry => p.persists entry.1) :=
    { header := hmemory.header
      count := Nat.lt_of_le_of_lt (List.length_filter_le _ _) hmemory.count
      names := fun entry hentry => hmemory.names entry (List.mem_of_mem_filter hentry)
      data := fun entry hentry => hmemory.data entry (List.mem_of_mem_filter hentry) }
  have hmap : (entries.filter fun entry => p.persists entry.1).Perm
      (snapshot.table_data.filter fun name _ => p.persists name).toList := by
    rw [ExtTreeMap.toList_filter]
    exact horder.filter _
  have hreads := reads_snapshot hback hfiltered
  rw [Maps.foldl_insert hmap] at hreads
  rw [written_eq]
  exact .of_reads hreads

open SnapshotPersistence in
/-- Both writers, on any order of the tables: what they write reads back as what was to be
written, and nothing shorter is accepted. -/
theorem snapshot_files_round_trip (hjson : JsonBytes.to_vec snapshot.header = .ok header_bytes)
    (hback : JsonBytes.from_slice header_bytes = .ok snapshot.header)
    (horder : entries.Perm snapshot.table_data.toList) (hmemory : InMemory header_bytes entries) :
    (∀ (p : SnapshotPersistence) (fs : Files),
      SaveDisk.path_exists fs (p.snapshot_path snapshot.header.generation) = false →
      ∃ fs' bytes, p.write_snapshot_in fs snapshot entries
          = (.ok (p.snapshot_path snapshot.header.generation), fs')
        ∧ fs'.files[p.snapshot_path snapshot.header.generation]? = some bytes
        ∧ RoundTrips bytes (p.written snapshot))
    ∧ ∀ (m : SnapshotManager) (fs : Files) (temp_path : String),
      ∃ fs' bytes, m.write_snapshot_to_temp_in fs snapshot entries temp_path = (.ok (), fs')
        ∧ fs'.files[temp_path]? = some bytes
        ∧ RoundTrips bytes snapshot := by
  refine ⟨fun p fs hnew => ?_, fun m fs temp_path => ?_⟩
  · exact ⟨_, _, write_snapshot_in_files hjson horder hnew, ExtTreeMap.getElem?_insert_self,
      round_trips_file p hback horder hmemory⟩
  · obtain ⟨fs', hwrite, hfile⟩ :=
      SnapshotManager.write_snapshot_to_temp_in_files m fs hjson horder temp_path
    -- without a registry nothing is filtered
    have hall := round_trips_file (.new "") hback horder hmemory
    have htrue : entries.filter (fun entry => (SnapshotPersistence.new "").persists entry.1) = entries :=
      List.filter_eq_self.2 fun _ _ => rfl
    rw [htrue] at hall
    exact ⟨fs', _, hwrite, hfile, hall⟩

end Scharnhorst

/-! ## Two tables -/

namespace Scharnhorst

def plain_header : SnapshotHeader :=
  { schema_manifest := .new "1", generation := 7, state_hash := 255 }

/-- One table without a name, and one without bytes whose name is not ASCII. -/
def two_tables : PersistedSnapshot :=
  { header := plain_header
    table_data := ((∅ : Map String (List UInt8)).insert "" [1, 2]).insert "Größe" [] }

@[reducible] def one_known_header : JsonBytes SnapshotHeader := plain_headers [plain_header]

attribute [local instance] one_known_header

/-- The nameless table is the only `Authority` one. -/
def nameless_is_authority : TierRegistry :=
  ((TierRegistry.new.register "" .Authority "core" "").2.register "Größe" .Ephemeral "ui" "").2

/-- In the reverse of the map's order, with a registry and through the snapshot manager. -/
theorem two_tables_round_trip :
    let p := (SnapshotPersistence.new "saves").with_tier_registry nameless_is_authority
    (∃ fs' bytes, p.write_snapshot_in Files.new two_tables two_tables.table_data.toList.reverse
          = (.ok (p.snapshot_path 7), fs')
        ∧ fs'.files[p.snapshot_path 7]? = some bytes ∧ RoundTrips bytes (p.written two_tables))
      ∧ ∃ fs' bytes, (SnapshotManager.new "saves" .default "journal").write_snapshot_to_temp_in
            Files.new two_tables two_tables.table_data.toList.reverse "saves/new" = (.ok (), fs')
        ∧ fs'.files["saves/new"]? = some bytes ∧ RoundTrips bytes two_tables := by
  intro p
  have hmemory : SnapshotPersistence.InMemory (header_text plain_header).toUTF8.toList
      two_tables.table_data.toList.reverse := by
    refine ⟨by decide +kernel, by decide +kernel, by decide +kernel, by decide +kernel⟩
  have hjson : JsonBytes.to_vec plain_header = .ok (header_text plain_header).toUTF8.toList := rfl
  have hback : JsonBytes.from_slice (header_text plain_header).toUTF8.toList = .ok plain_header := by
    decide +kernel
  obtain ⟨hsnapshot, htemp⟩ := snapshot_files_round_trip hjson hback (List.reverse_perm _) hmemory
  exact ⟨hsnapshot p .new (by decide +kernel), htemp (.new "saves" .default "journal") .new "saves/new"⟩

end Scharnhorst
