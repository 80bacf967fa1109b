/-
The format of a snapshot file.

The reader of the model goes over a file by positions, as `read_exact` does. Here it is put
together from readers of byte strings, one for each field, which also say what sizes they
ask memory for: the header's buffer, the capacity of the table map, and a buffer for each
name and each table's bytes. `read_snapshot_eq` says that on a file the two do the same.
-/
import Scharnhorst.Files
import Scharnhorst.Framing
import Scharnhorst.Maps

set_option autoImplicit false

namespace Scharnhorst

open Framing Reader Std

/-! ## Numbers of eight bytes -/

@[simp] theorem length_to_le_bytes (n : Nat) : (to_le_bytes n).length = 8 := by
  simp [to_le_bytes]

/-- The `width` lowest digits to the base 256, the lowest first. -/
def le_digits (width n : Nat) : List UInt8 := (List.range width).map fun i => (n / 256 ^ i).toUInt8

theorem le_digits_succ (width n : Nat) :
    le_digits (width + 1) n = n.toUInt8 :: le_digits width (n / 256) := by
  simp only [le_digits, List.range_succ_eq_map, List.map_cons, List.map_map, Nat.pow_zero,
    Nat.div_one, List.cons.injEq, true_and]
  refine List.map_congr_left fun i _ => ?_
  rw [Function.comp_apply, Nat.succ_eq_add_one, Nat.pow_succ', Nat.div_div_eq_div_mul]

theorem from_le_digits (width n : Nat) : from_le_bytes (le_digits width n) = n % 256 ^ width := by
  induction width generalizing n with
  | zero => simp [le_digits, from_le_bytes, Nat.mod_one]
  | succ width ih =>
      have hrest : from_le_bytes (le_digits width (n / 256)) = n / 256 % 256 ^ width := ih (n / 256)
      rw [le_digits_succ, Nat.pow_succ', Nat.mod_mul, ← hrest]
      simp [from_le_bytes]

theorem from_to_le_bytes {n : Nat} (hn : n < 2 ^ 64) : from_le_bytes (to_le_bytes n) = n := by
  have hdigits : from_le_bytes (to_le_bytes n) = n % 256 ^ 8 := from_le_digits 8 n
  rw [hdigits]
  omega

/-- Eight bytes are those of the number they stand for. -/
theorem to_from_le_bytes {field : List UInt8} (h : field.length = 8) :
    to_le_bytes (from_le_bytes field) = field := by
  have hdigits : ∀ bytes : List UInt8, le_digits bytes.length (from_le_bytes bytes) = bytes := by
    intro bytes
    induction bytes with
    | nil => rfl
    | cons byte bytes ih =>
        have hlt : byte.toNat < 256 := byte.toNat_lt
        have hfold : from_le_bytes (byte :: bytes) = byte.toNat + 256 * from_le_bytes bytes := rfl
        have hlow : (byte.toNat + 256 * from_le_bytes bytes).toUInt8 = byte := by
          rw [← UInt8.toNat_inj, Nat.toUInt8_eq, UInt8.toNat_ofNat']
          omega
        have hhigh : (byte.toNat + 256 * from_le_bytes bytes) / 256 = from_le_bytes bytes := by
          omega
        rw [List.length_cons, le_digits_succ, hfold, hlow, hhigh, ih]
  have hfield := hdigits field
  rwa [h] at hfield

/-! ## The reader, field by field -/

namespace SnapshotPersistence

/-- The text of a `read_exact` that goes past the end of the file. -/
def unexpected_eof : String := "failed to fill whole buffer"

def short_read (what : String) : SaveError := .Io s!"{what}: {unexpected_eof}"

/-- A length and a buffer of that many bytes. -/
def sized_part (what_len what : String) : Reader SaveError (List UInt8) :=
  sized from_le_bytes 8 (short_read what_len) (short_read what)

def utf8_name (name_bytes : List UInt8) : SaveResult String :=
  match String.fromUTF8? ⟨name_bytes.toArray⟩ with
  | some name => .ok name
  | none => .error (.CorruptedSnapshot "invalid utf8 name")

/-- One round of the loop over the tables. -/
def table_round (table_data : Map String (List UInt8)) : Reader SaveError (Map String (List UInt8)) :=
  do
    let name ← lift (utf8_name (← sized_part "read name len" "read name"))
    let data ← sized_part "read data len" "read data"
    return table_data.insert name data

variable [JsonBytes SnapshotHeader]

def header_json (header_bytes : List UInt8) : SaveResult SnapshotHeader :=
  (JsonBytes.from_slice header_bytes).mapError fun e => .IpcDeserialization s!"header json: {e}"

/-- What follows the header. -/
def tables_reader (header : SnapshotHeader) : Reader SaveError PersistedSnapshot := do
  let table_count := from_le_bytes (← exact (short_read "read table count") 8)
  -- `HashMap::with_capacity(table_count)`
  ask table_count
  let table_data ← times table_round table_count ∅
  return { header, table_data }

/-- `read_snapshot`, from the open file on. -/
def snapshot_reader : Reader SaveError PersistedSnapshot := do
  let header ← lift (header_json (← sized_part "read header len" "read header"))
  tables_reader header

/-! ## The reader by positions -/

section Positions

variable {fs : Files} {path : String} {bytes : List UInt8} {α β : Type}

omit [JsonBytes SnapshotHeader]

/-- A field that is read by its position is the front of what follows the position. -/
theorem part_bind (hfile : fs.files[path]? = some bytes) {position count : Nat}
    (hposition : position ≤ bytes.length) (what : String) {f : List UInt8 → SaveResult β}
    {next : List UInt8 → Reader SaveError β}
    (hnext : position + count ≤ bytes.length → ∀ part,
      f part = (next part (bytes.drop (position + count))).result.map Prod.fst) :
    (read_part path what fs position count >>= f)
      = ((exact (short_read what) count >>= next) (bytes.drop position)).result.map Prod.fst := by
  rw [bind_result]
  simp only [read_part, SaveDisk.read_exact, hfile, exact, List.length_drop]
  by_cases hfits : position + count ≤ bytes.length
  · have hrest : count ≤ bytes.length - position := by omega
    rw [if_pos hfits, if_pos hrest, List.drop_drop]
    exact hnext hfits _
  · have hrest : ¬ count ≤ bytes.length - position := by omega
    rw [if_neg hfits, if_neg hrest]
    rfl

theorem lift_bind {x : SaveResult α} {f : α → SaveResult β} {next : α → Reader SaveError β}
    (hnext : ∀ a, f a = (next a bytes).result.map Prod.fst) :
    (x >>= f) = ((lift x >>= next) bytes).result.map Prod.fst := by
  rw [bind_result]
  rcases x with e | a
  · rfl
  · exact hnext a

theorem read_tables_eq (hfile : fs.files[path]? = some bytes) {position : Nat}
    (hposition : position ≤ bytes.length) (count : Nat) (table_data : Map String (List UInt8)) :
    read_tables path fs count position table_data
      = (times table_round count table_data (bytes.drop position)).result.map Prod.fst := by
  induction count generalizing position table_data with
  | zero => rfl
  | succ count ih =>
      simp only [read_tables, times, table_round, sized_part, sized, bind_assoc, pure_bind]
      refine part_bind hfile hposition _ fun hname_len name_len => ?_
      refine part_bind hfile hname_len _ fun hname name_bytes => ?_
      simp only [utf8_name]
      rcases String.fromUTF8? ⟨name_bytes.toArray⟩ with _ | name
      · rfl
      · refine lift_bind fun name => ?_
        refine part_bind hfile hname _ fun hdata_len data_len => ?_
        exact part_bind hfile hdata_len _ fun hdata data => ih hdata _

end Positions

variable {p : SnapshotPersistence} {fs : Files} {generation : Tick} {bytes : List UInt8}

/-- What `read_snapshot` makes of a file. -/
theorem read_snapshot_eq (hfile : fs.files[p.snapshot_path generation]? = some bytes) :
    p.read_snapshot fs generation = (snapshot_reader bytes).result.map Prod.fst := by
  have hmem : p.snapshot_path generation ∈ fs.files := by
    rw [ExtTreeMap.mem_iff_isSome_getElem?, hfile]
    rfl
  have hthere : SaveDisk.path_exists fs (p.snapshot_path generation) = true :=
    Files.path_exists_iff.2 (.inl hmem)
  have hopen : SaveDisk.open_file fs (p.snapshot_path generation) = .ok () := by
    simp [SaveDisk.open_file, hmem]
  simp only [read_snapshot, hthere, hopen, snapshot_reader, tables_reader, sized_part, sized, bind_assoc]
  refine part_bind hfile (Nat.zero_le _) _ fun hheader_len header_len => ?_
  refine part_bind hfile hheader_len _ fun hheader header_bytes => ?_
  refine lift_bind fun header => ?_
  refine part_bind hfile hheader _ fun hcount table_count => ?_
  show _ = ((times table_round (from_le_bytes table_count) ∅ >>= _) _).result.map _
  rw [bind_result, read_tables_eq hfile hcount]
  rcases (times table_round (from_le_bytes table_count) ∅ _).result with e | ended <;> rfl

/-! ## The bytes of a file -/

omit [JsonBytes SnapshotHeader]

/-- The bytes of a table. -/
def table_bytes (entry : String × List UInt8) : List UInt8 :=
  framed to_le_bytes entry.1.toUTF8.toList ++ framed to_le_bytes entry.2

/-- The bytes of a file. -/
def file_bytes (header_bytes : List UInt8) (tables : List (String × List UInt8)) : List UInt8 :=
  framed to_le_bytes header_bytes ++ (to_le_bytes tables.length ++ tables.flatMap table_bytes)

/-- What the writers put into a file. -/
theorem file_parts_bytes (header_bytes : List UInt8) (tables : List (String × List UInt8)) :
    (file_parts header_bytes tables).flatMap Prod.snd = file_bytes header_bytes tables := by
  have htables : (tables.flatMap table_parts).flatMap Prod.snd = tables.flatMap table_bytes := by
    rw [List.flatMap_assoc]
    refine List.flatMap_congr fun entry _ => ?_
    simp [table_parts, table_bytes, framed]
  rw [file_parts, List.flatMap_append, htables]
  simp [file_bytes, framed]

/-- Every length of a file that has been in memory is a `usize`. -/
structure InMemory (header_bytes : List UInt8) (tables : List (String × List UInt8)) : Prop where
  header : header_bytes.length < 2 ^ 64
  count : tables.length < 2 ^ 64
  names : ∀ entry ∈ tables, entry.1.toUTF8.toList.length < 2 ^ 64
  data : ∀ entry ∈ tables, entry.2.length < 2 ^ 64

theorem reads_part {part : List UInt8} (h : part.length < 2 ^ 64) (what_len what : String) :
    Reads (sized_part what_len what) (framed to_le_bytes part) part :=
  Reads.framed length_to_le_bytes (fun _ => from_to_le_bytes) h

/-- `ByteArray.toList` goes through the array with an accumulator. -/
theorem byteArray_toList (bytes : ByteArray) : bytes.toList = bytes.data.toList := by
  have hloop : ∀ rest i acc, rest = bytes.data.toList.drop i →
      ByteArray.toList.loop bytes i acc = acc.reverse ++ rest := by
    intro rest
    induction rest with
    | nil =>
        intro i acc hrest
        have hlen : bytes.size ≤ i := by
          have h := List.drop_eq_nil_iff.1 hrest.symm
          rwa [Array.length_toList] at h
        rw [ByteArray.toList.loop, if_neg (Nat.not_lt.2 hlen), List.append_nil]
    | cons byte rest ih =>
        intro i acc hrest
        have hlt : i < bytes.data.toList.length := by
          rw [← Nat.not_le, ← List.drop_eq_nil_iff, ← hrest]
          exact List.cons_ne_nil _ _
        rw [List.drop_eq_getElem_cons hlt, List.cons.injEq] at hrest
        have hsize : i < bytes.size := hlt
        have hget : bytes.get! i = byte := by
          rw [hrest.1]
          exact getElem!_pos bytes.data i hsize
        rw [ByteArray.toList.loop, if_pos hsize, hget, ih _ _ hrest.2, List.reverse_cons,
          List.append_assoc, List.singleton_append]
  exact hloop _ 0 [] rfl

theorem utf8_name_toUTF8 (name : String) : utf8_name name.toUTF8.toList = .ok name := by
  have hbytes : (⟨name.toUTF8.toList.toArray⟩ : ByteArray) = name.toUTF8 := by
    rw [byteArray_toList, Array.toArray_toList]
  have hvalid : name.toUTF8.IsValidUTF8 := name.isValidUTF8
  rw [utf8_name, hbytes, String.fromUTF8?, dif_pos hvalid]
  rfl

/-- A name that is read is the text of its bytes. -/
theorem utf8_name_ok {name_bytes : List UInt8} {name : String} (h : utf8_name name_bytes = .ok name) :
    name_bytes = name.toUTF8.toList := by
  rw [utf8_name, String.fromUTF8?] at h
  split at h
  · rename_i found hfound
    cases h
    split at hfound
    · cases hfound
      rw [byteArray_toList]
      rfl
    · cases hfound
  · cases h

theorem reads_table {entry : String × List UInt8} (hname : entry.1.toUTF8.toList.length < 2 ^ 64)
    (hdata : entry.2.length < 2 ^ 64) (table_data : Map String (List UInt8)) :
    Reads (table_round table_data) (table_bytes entry) (table_data.insert entry.1 entry.2) := by
  refine (reads_part hname _ _).bind ?_
  refine (Reads.lift (utf8_name_toUTF8 entry.1)).bind_right ?_
  exact (reads_part hdata _ _).bind_left (.pure _)

variable [JsonBytes SnapshotHeader]

/-- The reader takes exactly the bytes of a file. -/
theorem reads_snapshot {header : SnapshotHeader} {header_bytes : List UInt8}
    {tables : List (String × List UInt8)} (hback : JsonBytes.from_slice header_bytes = .ok header)
    (hmemory : InMemory header_bytes tables) :
    Reads snapshot_reader (file_bytes header_bytes tables)
      { header, table_data := tables.foldl (fun m entry => m.insert entry.1 entry.2) ∅ } := by
  have hjson : header_json header_bytes = .ok header := by
    rw [header_json, hback]
    rfl
  refine (reads_part hmemory.header _ _).bind ?_
  refine (Reads.lift hjson).bind_right ?_
  refine (Reads.size length_to_le_bytes tables.length).bind ?_
  simp only [from_to_le_bytes hmemory.count]
  refine (Reads.ask tables.length).bind_right ?_
  have htables : Reads (times table_round tables.length ∅) (tables.flatMap table_bytes)
      (tables.foldl (fun m entry => m.insert entry.1 entry.2) ∅) :=
    Reads.times (fun table_data entry hentry =>
      reads_table (hmemory.names entry hentry) (hmemory.data entry hentry) table_data) ∅
  exact htables.bind_left (.pure _)

end SnapshotPersistence

end Scharnhorst
