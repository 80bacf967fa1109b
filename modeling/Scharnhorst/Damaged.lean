/-
What a damaged snapshot file makes the reader ask memory for.

The reader takes four kinds of size from the file and asks memory for each before it looks
whether the file has that many bytes left. An `Opening` is a beginning of a file after
which the next eight bytes are such a size, and `mem_asked_iff` says that these are all
the sizes asked for. A file is read without asking for more than its own length exactly
when none of them exceeds it.
-/
import Scharnhorst.SnapshotFormat

set_option autoImplicit false

namespace Scharnhorst

open Framing Std

namespace SnapshotPersistence

/-! ## What has been read when a step succeeds -/

section Steps

variable {bytes rest part : List UInt8} {what_len what : String}

theorem from_le_bytes_lt (bytes : List UInt8) : from_le_bytes bytes < 256 ^ bytes.length := by
  induction bytes with
  | nil => decide
  | cons byte bytes ih =>
      have hfold : from_le_bytes (byte :: bytes) = byte.toNat + 256 * from_le_bytes bytes := rfl
      have hlt : byte.toNat < 256 := byte.toNat_lt
      rw [hfold, List.length_cons, Nat.pow_succ']
      omega

theorem sized_part_ok (h : (sized_part what_len what bytes).result = .ok (part, rest)) :
    bytes = framed to_le_bytes part ++ rest ∧ part.length < 2 ^ 64 := by
  obtain ⟨front, hbytes, hwidth, hvalue⟩ := sized_ok h
  have hfront : front = to_le_bytes part.length := by
    rw [← hvalue, to_from_le_bytes hwidth]
  have hlt := from_le_bytes_lt front
  rw [hwidth, hvalue] at hlt
  refine ⟨?_, hlt⟩
  rw [hbytes, framed, ← hfront]

theorem asked_sized_part {n : Nat} (h : n ∈ (sized_part what_len what bytes).asked) :
    ∃ field rest, bytes = field ++ rest ∧ field.length = 8 ∧ n = from_le_bytes field :=
  exists_of_mem_asked_sized h

theorem asks_sized_part {field : List UInt8} (h : field.length = 8) :
    Asks (sized_part what_len what) field (from_le_bytes field) := Asks.sized h

/-- A table whose lengths fit their fields. -/
def GoodTable (entry : String × List UInt8) : Prop :=
  entry.1.toUTF8.toList.length < 2 ^ 64 ∧ entry.2.length < 2 ^ 64

theorem table_round_ok (table_data table_data' : Map String (List UInt8)) (bytes rest : List UInt8)
    (h : (table_round table_data bytes).result = .ok (table_data', rest)) :
    ∃ entry, GoodTable entry ∧ bytes = table_bytes entry ++ rest
      ∧ table_data' = table_data.insert entry.1 entry.2 := by
  obtain ⟨name_bytes, mid, hname, hafter_name⟩ := bind_ok.1 h
  obtain ⟨name, mid', hlift, hafter_text⟩ := bind_ok.1 hafter_name
  obtain ⟨data, mid'', hdata, hend⟩ := bind_ok.1 hafter_text
  obtain ⟨htext, rfl⟩ := lift_ok.1 hlift
  obtain ⟨rfl, rfl⟩ := pure_ok.1 hend
  obtain ⟨rfl, hname_lt⟩ := sized_part_ok hname
  obtain ⟨rfl, hdata_lt⟩ := sized_part_ok hdata
  obtain rfl := utf8_name_ok htext
  exact ⟨(name, data), ⟨hname_lt, hdata_lt⟩, by simp [table_bytes], rfl⟩

end Steps

/-! ## The sizes asked for -/

variable [JsonBytes SnapshotHeader]

/-- A header that can be read, and its length. -/
def GoodHeader (header_bytes : List UInt8) : Prop :=
  header_bytes.length < 2 ^ 64
    ∧ ∃ header : SnapshotHeader, JsonBytes.from_slice header_bytes = .ok header

/-- A beginning of a file after which eight bytes are read as a size: nothing, a header,
fewer tables than there should be, or those and the name of the next. -/
inductive Opening : List UInt8 → Prop where
  | header_len : Opening []
  | table_count {header_bytes : List UInt8} (hheader : GoodHeader header_bytes) :
      Opening (framed to_le_bytes header_bytes)
  | name_len {header_bytes : List UInt8} (hheader : GoodHeader header_bytes) {count : Nat}
      (hcount : count < 2 ^ 64) {tables : List (String × List UInt8)}
      (htables : ∀ entry ∈ tables, GoodTable entry) (hfewer : tables.length < count) :
      Opening (framed to_le_bytes header_bytes ++ (to_le_bytes count ++ tables.flatMap table_bytes))
  | data_len {header_bytes : List UInt8} (hheader : GoodHeader header_bytes) {count : Nat}
      (hcount : count < 2 ^ 64) {tables : List (String × List UInt8)}
      (htables : ∀ entry ∈ tables, GoodTable entry) (hfewer : tables.length < count) {name : String}
      (hname : name.toUTF8.toList.length < 2 ^ 64) :
      Opening (framed to_le_bytes header_bytes ++ (to_le_bytes count ++ (tables.flatMap table_bytes
        ++ framed to_le_bytes name.toUTF8.toList)))

/-- No size in the file that follows an opening exceeds the file's length. -/
def SizesFit (bytes : List UInt8) : Prop :=
  ∀ opening field rest, bytes = opening ++ field ++ rest → Opening opening → field.length = 8 →
    from_le_bytes field ≤ bytes.length

theorem header_json_ok {header_bytes : List UInt8} {header : SnapshotHeader} :
    header_json header_bytes = .ok header ↔ JsonBytes.from_slice header_bytes = .ok header := by
  unfold header_json
  rcases (JsonBytes.from_slice header_bytes : Except String SnapshotHeader) with e | found <;>
    simp [Except.mapError]

/-! An opening leads to a size that is asked for. -/

theorem asks_after_header {header_bytes part : List UInt8} (hheader : GoodHeader header_bytes) {n : Nat}
    (h : ∀ header : SnapshotHeader, Asks (tables_reader header) part n) :
    Asks snapshot_reader (framed to_le_bytes header_bytes ++ part) n := by
  obtain ⟨hlt, header, hback⟩ := hheader
  have hlift : Reads (Reader.lift (header_json header_bytes)) [] header :=
    .lift (header_json_ok.2 hback)
  exact Asks.bind (reads_part hlt _ _) (Asks.bind_right hlift (h header))

omit [JsonBytes SnapshotHeader] in
theorem asks_table_count {field : List UInt8} (hfield : field.length = 8) (header : SnapshotHeader) :
    Asks (tables_reader header) field (from_le_bytes field) := by
  have hread : Reads (Reader.exact (short_read "read table count") 8) field field := by
    rw [← hfield]
    exact .exact _ field
  exact Asks.bind_last hread (Asks.ask (from_le_bytes field)).bind_left

omit [JsonBytes SnapshotHeader] in
theorem asks_in_tables {count : Nat} (hcount : count < 2 ^ 64) {tables : List (String × List UInt8)}
    (htables : ∀ entry ∈ tables, GoodTable entry) (hfewer : tables.length < count) {part : List UInt8}
    {n : Nat} (h : ∀ table_data, Asks (table_round table_data) part n) (header : SnapshotHeader) :
    Asks (tables_reader header) (to_le_bytes count ++ (tables.flatMap table_bytes ++ part)) n := by
  refine Asks.bind (Reads.size length_to_le_bytes count) ?_
  simp only [from_to_le_bytes hcount]
  have hrounds : ∀ table_data, ∀ entry ∈ tables,
      Reads (table_round table_data) (table_bytes entry) (table_data.insert entry.1 entry.2) :=
    fun table_data entry hentry =>
      reads_table (htables entry hentry).1 (htables entry hentry).2 table_data
  exact Asks.bind_right (Reads.ask count) (Asks.bind_left (Asks.times hrounds h hfewer ∅))

theorem Opening.asks {opening field : List UInt8} (h : Opening opening) (hfield : field.length = 8) :
    Asks snapshot_reader (opening ++ field) (from_le_bytes field) := by
  cases h with
  | header_len => exact (asks_sized_part hfield).bind_left
  | table_count hheader => exact asks_after_header hheader (asks_table_count hfield)
  | name_len hheader hcount htables hfewer =>
      rw [List.append_assoc, List.append_assoc]
      refine asks_after_header hheader (asks_in_tables hcount htables hfewer fun table_data => ?_)
      exact (asks_sized_part hfield).bind_left
  | data_len hheader hcount htables hfewer hname =>
      rw [List.append_assoc, List.append_assoc, List.append_assoc]
      refine asks_after_header hheader (asks_in_tables hcount htables hfewer fun table_data => ?_)
      refine Asks.bind (reads_part hname _ _) ?_
      exact Asks.bind_right (Reads.lift (utf8_name_toUTF8 _)) (asks_sized_part hfield).bind_left

/-! And every size that is asked for follows an opening. -/

omit [JsonBytes SnapshotHeader] in
theorem asked_table_round {table_data : Map String (List UInt8)} {bytes : List UInt8} {n : Nat}
    (h : n ∈ (table_round table_data bytes).asked) :
    (∃ field rest, bytes = field ++ rest ∧ field.length = 8 ∧ n = from_le_bytes field)
      ∨ ∃ (name : String) (field rest : List UInt8), name.toUTF8.toList.length < 2 ^ 64
        ∧ bytes = framed to_le_bytes name.toUTF8.toList ++ (field ++ rest)
        ∧ field.length = 8 ∧ n = from_le_bytes field := by
  rcases mem_asked_bind.1 h with hname | ⟨name_bytes, mid, hname, hafter_name⟩
  · exact .inl (asked_sized_part hname)
  · obtain ⟨hbytes, hlt⟩ := sized_part_ok hname
    rcases mem_asked_bind.1 hafter_name with hnone | ⟨name, mid', hlift, hafter_text⟩
    · cases hnone
    · obtain ⟨htext, rfl⟩ := lift_ok.1 hlift
      obtain rfl := utf8_name_ok htext
      rcases mem_asked_bind.1 hafter_text with hdata | ⟨data, mid'', -, hend⟩
      · obtain ⟨field, rest, rfl, hfield, hn⟩ := asked_sized_part hdata
        exact .inr ⟨name, field, rest, hlt, hbytes, hfield, hn⟩
      · cases hend

/-- The sizes that the reader asks memory for are those that follow an opening. -/
theorem mem_asked_iff {bytes : List UInt8} {n : Nat} :
    n ∈ (snapshot_reader bytes).asked
      ↔ ∃ opening field rest, bytes = opening ++ field ++ rest ∧ Opening opening
        ∧ field.length = 8 ∧ n = from_le_bytes field := by
  constructor
  · intro h
    -- the reads in their order: each opening is one that went well so far
    rcases mem_asked_bind.1 h with hheader | ⟨header_bytes, mid, hheader, hafter⟩
    · obtain ⟨field, rest, hbytes, hfield, hn⟩ := asked_sized_part hheader
      exact ⟨[], field, rest, hbytes, .header_len, hfield, hn⟩
    obtain ⟨rfl, hlt⟩ := sized_part_ok hheader
    rcases mem_asked_bind.1 hafter with hnone | ⟨header, mid', hlift, hafter_header⟩
    · cases hnone
    obtain ⟨hjson, rfl⟩ := lift_ok.1 hlift
    have hgood : GoodHeader header_bytes := ⟨hlt, header, header_json_ok.1 hjson⟩
    rcases mem_asked_bind.1 hafter_header with hexact | ⟨field, after, hcount, hafter_count⟩
    · cases hexact
    obtain ⟨rfl, hfield⟩ := exact_ok.1 hcount
    rcases mem_asked_bind.1 hafter_count with hask | ⟨_, after', hask, htables⟩
    · obtain rfl := List.mem_singleton.1 hask
      exact ⟨_, field, after, (List.append_assoc ..).symm, .table_count hgood, hfield, rfl⟩
    cases hask
    rcases mem_asked_bind.1 htables with hloop | ⟨table_data, rest, -, hend⟩
    -- the loop had read some tables whole before the one that asks
    · obtain ⟨before, hbefore, table_data, mid, hthrough, hround⟩ := exists_of_mem_asked_times hloop
      obtain ⟨tables, rfl, hgood_tables, rfl⟩ := times_ok table_round_ok hthrough
      have hcount_lt := from_le_bytes_lt field
      rw [hfield] at hcount_lt
      have hcount_bytes := to_from_le_bytes hfield
      rcases asked_table_round hround with ⟨size, rest, rfl, hsize, hn⟩
        | ⟨name, size, rest, hname, rfl, hsize, hn⟩
      · refine ⟨_, size, rest, ?_, .name_len hgood hcount_lt hgood_tables hbefore, hsize, hn⟩
        simp [hcount_bytes]
      · refine ⟨_, size, rest, ?_, .data_len hgood hcount_lt hgood_tables hbefore hname, hsize, hn⟩
        simp [hcount_bytes]
    · cases hend
  · rintro ⟨opening, field, rest, rfl, hopening, hfield, rfl⟩
    exact hopening.asks hfield rest

/-! ## Reading a damaged file -/

variable {p : SnapshotPersistence} {fs : Files} {generation : Tick} {bytes : List UInt8}

/-- Where memory is granted up to the size of the file, `read_snapshot` returns, and has
asked for no more than that, exactly when no size in the file exceeds its length. -/
theorem damaged_file_iff (hfile : fs.files[p.snapshot_path generation]? = some bytes)
    {granted : Nat → Bool} (hgranted : ∀ n ≤ bytes.length, granted n = true) :
    ((snapshot_reader bytes).outcome granted = some (p.read_snapshot fs generation)
        ∧ ∀ n ∈ (snapshot_reader bytes).asked, n ≤ bytes.length)
      ↔ SizesFit bytes := by
  constructor
  · rintro ⟨-, hfits⟩ opening field rest hbytes hopening hfield
    exact hfits _ (mem_asked_iff.2 ⟨opening, field, rest, hbytes, hopening, hfield, rfl⟩)
  · intro hfits
    have hasked : ∀ n ∈ (snapshot_reader bytes).asked, n ≤ bytes.length := by
      intro n hn
      obtain ⟨opening, field, rest, hbytes, hopening, hfield, rfl⟩ := mem_asked_iff.1 hn
      exact hfits opening field rest hbytes hopening hfield
    have hall : (snapshot_reader bytes).asked.all granted = true :=
      List.all_eq_true.2 fun n hn => hgranted n (hasked n hn)
    refine ⟨?_, hasked⟩
    rw [Reading.outcome, if_pos hall, read_snapshot_eq hfile]

end SnapshotPersistence

end Scharnhorst

/-! ## Eight bytes of ones -/

namespace Scharnhorst.SnapshotPersistence

@[reducible] def no_json : JsonBytes SnapshotHeader where
  to_vec _ := .error "key must be a string"
  from_slice _ := .error "expected value"

attribute [local instance] no_json

def saves : SnapshotPersistence := .new "saves"

/-- A directory whose file of generation zero has these bytes. -/
def with_file (bytes : List UInt8) : Files :=
  { dirs := (∅ : Map String Unit).insert "saves" ()
    files := (∅ : Map String (List UInt8)).insert (saves.snapshot_path 0) bytes }

theorem with_file_file (bytes : List UInt8) :
    (with_file bytes).files[saves.snapshot_path 0]? = some bytes := Std.ExtTreeMap.getElem?_insert_self

/-- The reader asks for 2^64 - 1 bytes, which no allocator grants. -/
theorem eight_bytes_of_ones :
    let bytes := List.replicate 8 255
    (with_file bytes).files[saves.snapshot_path 0]? = some bytes
      ∧ (snapshot_reader bytes).asked = [2 ^ 64 - 1]
      ∧ (snapshot_reader bytes).outcome (fun n => n < 2 ^ 63) = none
      ∧ ¬ ∀ n ∈ (snapshot_reader bytes).asked, n ≤ bytes.length := by
  refine ⟨with_file_file _, by decide +kernel, by decide +kernel, by decide +kernel⟩

/-- A file that ends in the middle of its first size is an error and nothing else. -/
theorem short_file_refused :
    (snapshot_reader [255, 255]).outcome (fun n => n < 2 ^ 63)
        = some (saves.read_snapshot (with_file [255, 255]) 0)
      ∧ ∀ n ∈ (snapshot_reader [255, 255]).asked, n ≤ 2 := by
  have hfits : SizesFit [255, 255] := by
    intro opening field rest hbytes hopening hfield
    have hlen := congrArg List.length hbytes
    simp only [List.length_append, List.length_cons, List.length_nil, hfield] at hlen
    omega
  refine (damaged_file_iff (with_file_file [255, 255]) fun n hn => ?_).2 hfits
  have hlt : n < 2 ^ 63 := Nat.lt_of_le_of_lt hn (by decide)
  exact decide_eq_true hlt

end Scharnhorst.SnapshotPersistence
