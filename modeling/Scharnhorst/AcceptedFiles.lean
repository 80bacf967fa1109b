/-
Which files are snapshots.

The reader accepts what the writers make, and more: bytes behind the last table are not looked at,
and of two tables of one name the later one counts. Nothing else is accepted, and an accepted file
is taken apart in one way only. What has been read can be written again without either.

A size that the reader asks memory for is taken to be granted here.
-/
import Scharnhorst.Damaged
import Scharnhorst.RoundTrip

set_option autoImplicit false

namespace Scharnhorst

/-! ## Parts that follow each other -/

namespace Framing

open Reader

variable {ε σ γ : Type} {encode : γ → List UInt8} {good : γ → Prop} {bytes rest rest' : List UInt8}

/-- A loop reads the parts of its rounds, and nothing else. -/
theorem times_ok_iff {body : σ → Reader ε σ} {step : σ → γ → σ}
    (hreads : ∀ s item, good item → Reads (body s) (encode item) (step s item))
    (hbody : ∀ s s' bytes rest, (body s bytes).result = .ok (s', rest) →
      ∃ item, good item ∧ bytes = encode item ++ rest ∧ s' = step s item)
    {count : Nat} {s s' : σ} :
    (times body count s bytes).result = .ok (s', rest)
      ↔ ∃ items : List γ, items.length = count ∧ (∀ item ∈ items, good item)
        ∧ bytes = items.flatMap encode ++ rest ∧ s' = items.foldl step s := by
  constructor
  · intro h
    induction count generalizing s bytes with
    | zero =>
        obtain ⟨rfl, rfl⟩ := pure_ok.1 h
        exact ⟨[], rfl, by simp, rfl, rfl⟩
    | succ count ih =>
        obtain ⟨t, mid, hfirst, hrest⟩ := bind_ok.1 h
        obtain ⟨item, hgood, rfl, rfl⟩ := hbody _ _ _ _ hfirst
        obtain ⟨items, rfl, hall, rfl, rfl⟩ := ih hrest
        exact ⟨item :: items, rfl, List.forall_mem_cons.2 ⟨hgood, hall⟩, by simp, rfl⟩
  · rintro ⟨items, rfl, hall, rfl, rfl⟩
    exact (Reads.times (fun s item hitem => hreads s item (hall item hitem)) s).whole rest

/-- The number in front says where the part ends. -/
theorem framed_inj {field : Nat → List UInt8} {value : List UInt8 → Nat} {width bound : Nat}
    (hwidth : ∀ n, (field n).length = width) (hvalue : ∀ n < bound, value (field n) = n)
    {part part' : List UInt8} (hpart : part.length < bound) (hpart' : part'.length < bound)
    (h : framed field part ++ rest = framed field part' ++ rest') : part = part' ∧ rest = rest' := by
  rw [framed, framed, List.append_assoc, List.append_assoc] at h
  obtain ⟨hfield, htail⟩ := List.append_inj h (by rw [hwidth, hwidth])
  have hlength : part.length = part'.length := by
    rw [← hvalue _ hpart, hfield, hvalue _ hpart']
  exact List.append_inj htail hlength

/-- As many parts, each of which says where it ends. -/
theorem parts_inj
    (hencode : ∀ a b rest rest', good a → good b → encode a ++ rest = encode b ++ rest' →
      a = b ∧ rest = rest')
    {items items' : List γ} (hgood : ∀ item ∈ items, good item) (hgood' : ∀ item ∈ items', good item)
    (hlength : items.length = items'.length)
    (h : items.flatMap encode ++ rest = items'.flatMap encode ++ rest') :
    items = items' ∧ rest = rest' := by
  induction items generalizing items' with
  | nil =>
      obtain rfl := List.length_eq_zero_iff.1 hlength.symm
      exact ⟨rfl, h⟩
  | cons item items ih =>
      obtain ⟨item', items', rfl⟩ := List.exists_cons_of_length_eq_add_one hlength.symm
      obtain ⟨hitem, hrest⟩ := List.forall_mem_cons.1 hgood
      obtain ⟨hitem', hrest'⟩ := List.forall_mem_cons.1 hgood'
      rw [List.flatMap_cons, List.flatMap_cons, List.append_assoc, List.append_assoc] at h
      obtain ⟨rfl, htail⟩ := hencode _ _ _ _ hitem hitem' h
      obtain ⟨rfl, hsame⟩ := ih hrest hrest' (Nat.succ.inj hlength) htail
      exact ⟨rfl, hsame⟩

end Framing

/-! ## The last of a name -/

/-- Of entries that are put into a map one after the other, the last one of a key is found. -/
theorem Maps.getElem?_foldl_insert {α : Type} (entries : List (String × α)) (m : Map String α)
    (k : String) :
    (entries.foldl (fun m entry => m.insert entry.1 entry.2) m)[k]?
      = (entries.reverse.lookup k).or m[k]? := by
  induction entries generalizing m with
  | nil => rfl
  | cons entry entries ih =>
      rw [List.foldl_cons, ih, List.reverse_cons, List.lookup_append, Std.ExtTreeMap.getElem?_insert,
        Option.or_assoc]
      congr 1
      by_cases hk : entry.1 = k
      · rw [if_pos (by rw [hk, Std.compare_self]), List.lookup_cons, hk, beq_self_eq_true,
          Option.some_or]
      · rw [if_neg (mt Std.compare_eq_iff_eq.1 hk), List.lookup_cons,
          beq_false_of_ne (Ne.symm hk), List.lookup_nil, Option.none_or]

/-! ## Files that are accepted -/

namespace SnapshotPersistence

open Framing

variable [JsonBytes SnapshotHeader]

/-- A header, tables and what is behind them, and the snapshot that is in them. -/
structure Accepted (bytes header_bytes : List UInt8) (tables : List (String × List UInt8))
    (behind : List UInt8) (snapshot : PersistedSnapshot) : Prop where
  bytes : bytes = file_bytes header_bytes tables ++ behind
  in_memory : InMemory header_bytes tables
  header : JsonBytes.from_slice header_bytes = .ok snapshot.header
  tables : ∀ name : String, snapshot.table_data[name]? = tables.reverse.lookup name

variable {bytes header_bytes behind : List UInt8} {tables : List (String × List UInt8)}
  {snapshot : PersistedSnapshot}

omit [JsonBytes SnapshotHeader] in
theorem InMemory.good (h : InMemory header_bytes tables) : ∀ entry ∈ tables, GoodTable entry :=
  fun entry hentry => ⟨h.names entry hentry, h.data entry hentry⟩

omit [JsonBytes SnapshotHeader] in
theorem times_table_round {count : Nat} {table_data : Map String (List UInt8)}
    {rest : List UInt8} :
    (Reader.times table_round count ∅ bytes).result = .ok (table_data, rest)
      ↔ ∃ tables : List (String × List UInt8), tables.length = count
        ∧ (∀ entry ∈ tables, GoodTable entry) ∧ bytes = tables.flatMap table_bytes ++ rest
        ∧ table_data = tables.foldl (fun m entry => m.insert entry.1 entry.2) ∅ :=
  times_ok_iff (fun table_data _ hentry => reads_table hentry.1 hentry.2 table_data) table_round_ok

/-- What the reader takes a file apart into. -/
theorem Accepted.of_reads (h : (snapshot_reader bytes).result = .ok (snapshot, behind)) :
    ∃ header_bytes tables, Accepted bytes header_bytes tables behind snapshot := by
  obtain ⟨header_bytes, mid, hheader, hafter⟩ := bind_ok.1 h
  obtain ⟨header, mid', hlift, hrest⟩ := bind_ok.1 hafter
  obtain ⟨hjson, rfl⟩ := lift_ok.1 hlift
  obtain ⟨field, after, hcount, hafter_count⟩ := bind_ok.1 hrest
  obtain ⟨_, after', hask, htables⟩ := bind_ok.1 hafter_count
  cases hask
  obtain ⟨table_data, rest, hloop, hend⟩ := bind_ok.1 htables
  obtain ⟨rfl, rfl⟩ := pure_ok.1 hend
  obtain ⟨rfl, hlt⟩ := sized_part_ok hheader
  obtain ⟨rfl, hfield⟩ := exact_ok.1 hcount
  obtain ⟨tables, hlength, hgood, rfl, rfl⟩ := times_table_round.1 hloop
  have hcount_lt := from_le_bytes_lt field
  rw [hfield, ← hlength] at hcount_lt
  have hcount_bytes : field = to_le_bytes tables.length := by
    rw [hlength, to_from_le_bytes hfield]
  refine ⟨header_bytes, tables, ?_, ?_, header_json_ok.1 hjson, fun name => ?_⟩
  · simp [file_bytes, hcount_bytes]
  · exact ⟨hlt, hcount_lt, fun entry h => (hgood entry h).1, fun entry h => (hgood entry h).2⟩
  · rw [Maps.getElem?_foldl_insert, Std.ExtTreeMap.getElem?_empty, Option.or_none]

theorem Accepted.reads (h : Accepted bytes header_bytes tables behind snapshot) :
    (snapshot_reader bytes).result = .ok (snapshot, behind) := by
  have hwhole := (reads_snapshot h.header h.in_memory).whole behind
  rw [← h.bytes] at hwhole
  rw [hwhole]
  have hmap : snapshot.table_data = tables.foldl (fun m entry => m.insert entry.1 entry.2) ∅ := by
    refine Std.ExtTreeMap.ext_getElem? fun name => ?_
    rw [h.tables, Maps.getElem?_foldl_insert, Std.ExtTreeMap.getElem?_empty, Option.or_none]
  rw [← hmap]

omit [JsonBytes SnapshotHeader] in
theorem table_bytes_inj (entry entry' : String × List UInt8) (rest rest' : List UInt8)
    (hgood : GoodTable entry) (hgood' : GoodTable entry')
    (h : table_bytes entry ++ rest = table_bytes entry' ++ rest') :
    entry = entry' ∧ rest = rest' := by
  have hvalue : ∀ n < 2 ^ 64, from_le_bytes (to_le_bytes n) = n := fun n => from_to_le_bytes
  simp only [table_bytes, List.append_assoc] at h
  obtain ⟨hname, hdata⟩ := framed_inj length_to_le_bytes hvalue hgood.1 hgood'.1 h
  obtain ⟨hcontent, hrest⟩ := framed_inj length_to_le_bytes hvalue hgood.2 hgood'.2 hdata
  have htext : entry.1 = entry'.1 :=
    Except.ok.inj ((utf8_name_toUTF8 entry.1).symm.trans
      ((congrArg utf8_name hname).trans (utf8_name_toUTF8 entry'.1)))
  exact ⟨Prod.ext htext hcontent, hrest⟩

/-- There is one way to take a file apart. -/
theorem Accepted.unique {header_bytes' behind' : List UInt8}
    {tables' : List (String × List UInt8)} {snapshot' : PersistedSnapshot}
    (h : Accepted bytes header_bytes tables behind snapshot)
    (h' : Accepted bytes header_bytes' tables' behind' snapshot') :
    header_bytes = header_bytes' ∧ tables = tables' ∧ behind = behind' := by
  have hvalue : ∀ n < 2 ^ 64, from_le_bytes (to_le_bytes n) = n := fun n => from_to_le_bytes
  have hsame := h.bytes.symm.trans h'.bytes
  simp only [file_bytes, List.append_assoc] at hsame
  obtain ⟨hheader, hrest⟩ :=
    framed_inj length_to_le_bytes hvalue h.in_memory.header h'.in_memory.header hsame
  obtain ⟨hcount, htables⟩ := List.append_inj hrest (by simp)
  have hlength : tables.length = tables'.length := by
    rw [← hvalue _ h.in_memory.count, hcount, hvalue _ h'.in_memory.count]
  exact ⟨hheader, parts_inj table_bytes_inj h.in_memory.good h'.in_memory.good hlength htables⟩

/-- The tables of an accepted file are among those in it. -/
theorem Accepted.mem_tables (h : Accepted bytes header_bytes tables behind snapshot)
    {entry : String × List UInt8} (hentry : entry ∈ snapshot.table_data.toList) :
    entry ∈ tables := by
  have hget := Std.ExtTreeMap.mem_toList_iff_getElem?_eq_some.1 hentry
  rw [h.tables] at hget
  obtain ⟨l₁, l₂, hsplit, -⟩ := List.lookup_eq_some_iff.1 hget
  rw [← List.mem_reverse, hsplit]
  exact List.mem_append_right l₁ List.mem_cons_self

/-- A file is accepted if and only if it is made of a header that has a text, of tables that are as
many as it says, and of whatever may stand behind them; there is one way to see it so; and the
snapshot, written again in any order of its tables, is read again. -/
theorem snapshot_files_exact {p : SnapshotPersistence} {fs : Files} {generation : Tick}
    (hfile : fs.files[p.snapshot_path generation]? = some bytes) :
    (∀ snapshot, p.read_snapshot fs generation = .ok snapshot
        ↔ ∃ header_bytes tables behind, Accepted bytes header_bytes tables behind snapshot)
      ∧ (∀ header_bytes tables behind snapshot, Accepted bytes header_bytes tables behind snapshot →
        ∀ header_bytes' tables' behind' snapshot',
          Accepted bytes header_bytes' tables' behind' snapshot' →
          header_bytes = header_bytes' ∧ tables = tables' ∧ behind = behind')
      ∧ ∀ snapshot, p.read_snapshot fs generation = .ok snapshot →
        ∀ header_bytes, JsonBytes.from_slice header_bytes = .ok snapshot.header →
          header_bytes.length < 2 ^ 64 →
          ∀ entries : List (String × List UInt8), entries.Perm snapshot.table_data.toList →
            Accepted (file_bytes header_bytes entries) header_bytes entries [] snapshot
              ∧ RoundTrips (file_bytes header_bytes entries) snapshot := by
  have hiff : ∀ snapshot, p.read_snapshot fs generation = .ok snapshot
      ↔ ∃ header_bytes tables behind, Accepted bytes header_bytes tables behind snapshot := by
    intro snapshot
    rw [read_snapshot_eq hfile]
    constructor
    · intro h
      rcases hread : (snapshot_reader bytes).result with e | ⟨found, behind⟩
      · rw [hread] at h
        cases h
      · rw [hread] at h
        obtain rfl : found = snapshot := Except.ok.inj h
        obtain ⟨header_bytes, tables, haccepted⟩ := Accepted.of_reads hread
        exact ⟨header_bytes, tables, behind, haccepted⟩
    · rintro ⟨header_bytes, tables, behind, haccepted⟩
      rw [haccepted.reads]
      rfl
  refine ⟨hiff, fun _ _ _ _ h _ _ _ _ h' => h.unique h', ?_⟩
  intro snapshot hread header_bytes' hback hlt entries horder
  obtain ⟨header_bytes, tables, behind, haccepted⟩ := (hiff snapshot).1 hread
  have hmem : ∀ entry ∈ entries, entry ∈ tables := fun entry hentry =>
    haccepted.mem_tables (horder.mem_iff.1 hentry)
  -- a map has no more entries than were put into it
  have hcount : entries.length < 2 ^ 64 := by
    have hnodup : entries.Nodup :=
      horder.nodup_iff.2 (List.Nodup.of_map Prod.fst (Maps.nodup_keys snapshot.table_data))
    exact (List.subperm_of_subset hnodup hmem).length_le.trans_lt haccepted.in_memory.count
  have hmemory : InMemory header_bytes' entries :=
    ⟨hlt, hcount, fun entry h => haccepted.in_memory.names entry (hmem entry h),
      fun entry h => haccepted.in_memory.data entry (hmem entry h)⟩
  have hmap := Maps.foldl_insert horder
  have hreads := reads_snapshot hback hmemory
  rw [hmap] at hreads
  refine ⟨⟨(List.append_nil _).symm, hmemory, hback, fun name => ?_⟩, .of_reads hreads⟩
  rw [← hmap, Maps.getElem?_foldl_insert, Std.ExtTreeMap.getElem?_empty, Option.or_none]

end SnapshotPersistence

end Scharnhorst

/-! ## A name twice -/

namespace Scharnhorst.SnapshotPersistence

attribute [local instance] one_known_header

/-- A table is there twice, and a byte follows. -/
def name_twice : List UInt8 :=
  file_bytes (header_text plain_header).toUTF8.toList [("a", [1]), ("a", [2])] ++ [0]

theorem name_twice_accepted :
    let fs : Files :=
      { Files.new with
        files := (∅ : Map String (List UInt8)).insert "saves/snapshot_gen_7.arrow" name_twice }
    (SnapshotPersistence.new "saves").read_snapshot fs 7
      = .ok { header := plain_header, table_data := (∅ : Map String (List UInt8)).insert "a" [2] } := by
  intro fs
  have hfile : fs.files[(SnapshotPersistence.new "saves").snapshot_path 7]? = some name_twice := by
    decide +kernel
  refine ((snapshot_files_exact hfile).1 _).2 ⟨_, _, [0], rfl, ?_, ?_, fun name => ?_⟩
  · exact ⟨by decide +kernel, by decide, by decide +kernel, by decide⟩
  · decide +kernel
  · by_cases hname : "a" = name
    · subst hname
      decide +kernel
    · have hother : (name == "a") = false := beq_false_of_ne (Ne.symm hname)
      simp [hname, hother, List.lookup_cons]

end Scharnhorst.SnapshotPersistence
