/-
A file system that works: directories and files, named by their paths, and every call
does what `std::fs` documents for it. A directory counts as made once it has been asked
for, and what it lists are the files whose paths continue its own by one name.
-/
import Scharnhorst.Maps
import Scharnhorst.Snapshots

set_option autoImplicit false

namespace Scharnhorst

open Attempt Std

structure Files where
  dirs : Map String Unit
  files : Map String (List UInt8)

namespace Files

def new : Files := ⟨∅, ∅⟩

/-- The text of the error for a path that leads nowhere. -/
def not_found : String := "No such file or directory (os error 2)"

/-- The name that a path adds to a directory's. -/
def name_in (dir path : String) : Option String :=
  ( strip_prefix path (dir ++ "/")).filter fun name => !name.toList.contains '/'

instance : SaveDisk Files where
  path_exists fs path := fs.files.contains path || fs.dirs.contains path
  read_dir fs dir :=
    if fs.dirs.contains dir then .ok ((fs.files.keys.filterMap (name_in dir)).map .ok)
    else .error not_found
  create_dir_all fs dir := (.ok (), { fs with dirs := fs.dirs.insert dir () })
  create fs path := (.ok (), { fs with files := fs.files.insert path [] })
  write_all fs path bytes :=
    (.ok (), { fs with files := fs.files.insert path (fs.files.getD path [] ++ bytes) })
  flush fs _ := (.ok (), fs)
  rename fs old_path new_path :=
    match fs.files[old_path]? with
    | some bytes => (.ok (), { fs with files := (fs.files.erase old_path).insert new_path bytes })
    | none => (.error not_found, fs)
  remove_file fs path :=
    if fs.files.contains path then (.ok (), { fs with files := fs.files.erase path })
    else (.error not_found, fs)
  open_file fs path := if fs.files.contains path then .ok () else .error not_found
  read_exact fs path position count :=
    match fs.files[path]? with
    | some bytes =>
      if position + count ≤ bytes.length then .ok ((bytes.drop position).take count)
      else .error "failed to fill whole buffer"
    | none => .error not_found

end Files

/-! ## What the calls do -/

namespace Files

variable {fs : Files} {path : String}

@[simp] theorem path_exists_iff :
    SaveDisk.path_exists fs path = true ↔ path ∈ fs.files ∨ path ∈ fs.dirs := by
  simp [SaveDisk.path_exists]

/-- The parts of a file end up in it one after the other. -/
theorem write_parts_files (bytes : List UInt8) (h : fs.files[path]? = some bytes)
    (parts : List (String × List UInt8)) :
    SnapshotPersistence.write_parts path parts fs
      = (.ok (), { fs with files := fs.files.insert path (bytes ++ parts.flatMap Prod.snd) }) := by
  unfold SnapshotPersistence.write_parts
  induction parts generalizing fs bytes with
  | nil => rw [forEach_nil, List.flatMap_nil, List.append_nil, Maps.insert_self h]
  | cons part parts ih =>
      have hfirst : SnapshotPersistence.write_part path part.1 part.2 fs
          = (.ok (), { fs with files := fs.files.insert path (bytes ++ part.2) }) := by
        have hold : fs.files.getD path [] = bytes := by
          rw [ExtTreeMap.getD_eq_getD_getElem?, h, Option.getD_some]
        simp only [SnapshotPersistence.write_part, SaveDisk.write_all, hold]
      rw [forEach_cons_of_ok hfirst, ih (bytes ++ part.2) (by simp)]
      simp only [Maps.insert_insert, List.flatMap_cons, List.append_assoc]

/-- Writing into a file that has just been created. -/
theorem write_created (dirs : Map String Unit) (files : Map String (List UInt8)) (path : String)
    (parts : List (String × List UInt8)) :
    SnapshotPersistence.write_parts path parts ({ dirs, files := files.insert path [] } : Files)
      = (.ok (), { dirs, files := files.insert path (parts.flatMap Prod.snd) }) := by
  rw [write_parts_files [] (by simp), Maps.insert_insert, List.nil_append]

end Files

/-! ## Headers

The JSON text of a header whose manifest is empty. A text is read back if it is that of a
header that is known. -/

/-- `serde_json::to_string` of a header with an empty manifest. -/
def header_text (header : SnapshotHeader) : String :=
  "\x7b\"schema_manifest\":\x7b\"schema_version\":\"" ++ header.schema_manifest.schema_version
    ++ "\",\"tables\":[],\"relations\":[],\"mod_fingerprints\":[],\"metadata\":\x7b\x7d\x7d,\"generation\":"
    ++ toString header.generation ++ ",\"state_hash\":" ++ toString header.state_hash.toNat ++ "\x7d"

@[reducible] def plain_headers (known : List SnapshotHeader) : JsonBytes SnapshotHeader where
  to_vec header :=
    if header.schema_manifest = .new header.schema_manifest.schema_version then
      .ok (header_text header).toUTF8.toList
    else .error "only empty manifests"
  from_slice bytes :=
    match known.find? fun header => (header_text header).toUTF8.toList = bytes with
    | some header => .ok header
    | none => .error "expected value"

end Scharnhorst
