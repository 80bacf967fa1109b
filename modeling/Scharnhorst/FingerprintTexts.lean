/-
The text that a fingerprint is the hash of, read back.

Names, columns and types are written one after another with separators and nothing is
escaped. A table ends where the next colon comes and a column where the next bar or colon
comes; as long as no name holds one of the four separators and no table name is empty, the
text says which tables it was made from. With any of them in a name there are two mods that
are not told apart.
-/
import Scharnhorst.Content
import Scharnhorst.DecimalText
import Scharnhorst.Delimited
import Scharnhorst.StableSort

set_option autoImplicit false

namespace Scharnhorst

open Delimited StableSort

/-! ## Semantics -/

/-- The `Debug` text of a string ends at its closing quote: it can be told off the front of
whatever follows. -/
def QuotesEnd [ContentText] : Prop :=
  ∀ s t : String, ∀ rest rest' : List Char,
    (ContentText.debug_str s).toList ++ rest = (ContentText.debug_str t).toList ++ rest' →
      s = t ∧ rest = rest'

namespace FieldSemantic

/-- The name of the variant. -/
def variant : FieldSemantic → String
  | Id => "Id"
  | ForeignKey _ => "ForeignKey"
  | Name => "Name"
  | Tag => "Tag"
  | Position2D => "Position2D"
  | Position3D => "Position3D"
  | Quantity => "Quantity"
  | Percent => "Percent"
  | DurationTicks => "DurationTicks"
  | Timestamp => "Timestamp"
  | Raw => "Raw"

/-- What stands behind the name. -/
def fields [ContentText] : FieldSemantic → String
  | ForeignKey target_table =>
    " \x7b target_table: " ++ ContentText.debug_str target_table ++ " \x7d"
  | _ => ""

variable [ContentText]

theorem fields_foreignKey (target_table : String) : (ForeignKey target_table).fields
    = " \x7b target_table: " ++ ContentText.debug_str target_table ++ " \x7d" := rfl

theorem fields_eq_empty {s : FieldSemantic} (h : ¬∃ target_table, s = ForeignKey target_table) :
    s.fields = "" := by
  rcases s <;> first | rfl | exact absurd ⟨_, rfl⟩ h

theorem debug_eq (s : FieldSemantic) : s.debug = s.variant ++ s.fields := by
  by_cases hkey : ∃ target_table, s = ForeignKey target_table
  · obtain ⟨target_table, rfl⟩ := hkey
    have hname : "ForeignKey \x7b target_table: " = "ForeignKey" ++ " \x7b target_table: " := by
      decide +kernel
    show "ForeignKey \x7b target_table: " ++ ContentText.debug_str target_table ++ " \x7d"
      = "ForeignKey" ++ (" \x7b target_table: " ++ ContentText.debug_str target_table ++ " \x7d")
    rw [hname]
    simp only [String.append_assoc]
  · rw [fields_eq_empty hkey, String.append_empty]
    rcases s <;> first | rfl | exact absurd ⟨_, rfl⟩ hkey

omit [ContentText] in
theorem variant_letters (s : FieldSemantic) : ∀ c ∈ s.variant.toList, c.isAlphanum := by
  rcases s <;> simp [variant]

theorem fields_stop (s : FieldSemantic) {rest : List Char} (h : Stops (·.isAlphanum) rest) :
    Stops (·.isAlphanum) (s.fields.toList ++ rest) := by
  by_cases hkey : ∃ target_table, s = ForeignKey target_table
  · obtain ⟨target_table, rfl⟩ := hkey
    have hblank : " \x7b target_table: ".toList = ' ' :: "\x7b target_table: ".toList := by
      decide +kernel
    rw [fields_foreignKey, String.toList_append, String.toList_append, hblank, List.append_assoc,
      List.append_assoc, List.cons_append, stops_cons]
    decide
  · rw [fields_eq_empty hkey]
    exact h

omit [ContentText] in
/-- Two semantics of one variant are the same or two foreign keys. -/
theorem eq_of_variant {s t : FieldSemantic} (h : s.variant = t.variant) :
    s = t ∨ ∃ a b, s = ForeignKey a ∧ t = ForeignKey b := by
  rcases s <;> rcases t <;>
    first
    | exact .inl rfl
    | exact .inr ⟨_, _, rfl, rfl⟩
    | simp [variant] at h

/-- A semantic is read back from its text, if what follows is no letter or digit. -/
theorem debug_readsBack (h : QuotesEnd) :
    ReadsBack (fun s : FieldSemantic => s.debug.toList) (fun _ => True) (·.isAlphanum) := by
  intro s t rest rest' _ _ hrest hrest' heq
  simp only [debug_eq, String.toList_append, List.append_assoc] at heq
  obtain ⟨hvariant, hfields⟩ := append_inj_of_stops (variant_letters s) (variant_letters t)
    (fields_stop s hrest) (fields_stop t hrest') heq
  obtain rfl | ⟨a, b, rfl, rfl⟩ := eq_of_variant (String.toList_inj.mp hvariant)
  · exact ⟨rfl, List.append_cancel_left hfields⟩
  · simp only [fields_foreignKey, String.toList_append, List.append_assoc] at hfields
    obtain ⟨rfl, hclose⟩ := h a b _ _ (List.append_cancel_left hfields)
    exact ⟨rfl, List.append_cancel_left hclose⟩

end FieldSemantic

/-! ## Columns and tables -/

section Texts

variable [ContentText]

/-- The mark of a nullable column. -/
def nullable_mark (nullable : Bool) : List Char := if nullable then ['?', 'n'] else []

/-- What one column adds to the text. -/
def ColumnSpec.text (col : ColumnSpec) : List Char :=
  '|' :: (col.name.toList ++ '=' :: (col.storage_type.toList ++ ':' :: (col.semantic.debug.toList
    ++ nullable_mark col.nullable)))

/-- What a table with its columns adds. -/
def table_text (table : String × List ColumnSpec) : List Char :=
  ':' :: (table.1.toList ++ table.2.flatMap ColumnSpec.text)

/-- A column whose names hold no separator that would end them. -/
def ColumnSpec.Plain (col : ColumnSpec) : Prop :=
  '=' ∉ col.name.toList ∧ ':' ∉ col.storage_type.toList

/-- What comes behind a column: another one, the next table or nothing. -/
abbrev InColumn (c : Char) : Prop := c ≠ '|' ∧ c ≠ ':'

omit [ContentText] in
theorem nullable_mark_readsBack : ReadsBack nullable_mark (fun _ => True) InColumn := by
  have hquestion : InColumn '?' := by decide
  intro m n rest rest' _ _ hrest hrest' heq
  rcases m <;> rcases n
  · exact ⟨rfl, heq⟩
  · have hno : rest = '?' :: 'n' :: rest' := heq
    rw [hno, stops_cons] at hrest
    exact absurd hquestion hrest
  · have hno : rest' = '?' :: 'n' :: rest := heq.symm
    rw [hno, stops_cons] at hrest'
    exact absurd hquestion hrest'
  · exact ⟨rfl, List.append_cancel_left heq⟩

omit [ContentText] in
theorem nullable_mark_stops (nullable : Bool) {rest : List Char} (h : Stops InColumn rest) :
    Stops (·.isAlphanum) (nullable_mark nullable ++ rest) := by
  rcases nullable
  · refine h.mono fun c hc => ⟨?_, ?_⟩
    · rintro rfl
      exact absurd hc (by decide)
    · rintro rfl
      exact absurd hc (by decide)
  · exact stops_cons.mpr (by decide)

theorem ColumnSpec.text_readsBack (h : QuotesEnd) :
    ReadsBack ColumnSpec.text ColumnSpec.Plain InColumn := by
  rintro ⟨name, semantic, storage_type, nullable⟩ ⟨name', semantic', storage_type', nullable'⟩
    rest rest' ha hb hrest hrest' heq
  simp only [text, List.cons_append, List.append_assoc, List.cons.injEq, true_and] at heq
  obtain ⟨hname, hbehind⟩ := append_cons_inj ha.1 hb.1 heq
  obtain rfl : name = name' := String.toList_inj.mp hname
  obtain ⟨hstorage, htyped⟩ := append_cons_inj ha.2 hb.2 hbehind
  obtain rfl : storage_type = storage_type' := String.toList_inj.mp hstorage
  obtain ⟨rfl, hmark⟩ := FieldSemantic.debug_readsBack h semantic semantic' _ _ trivial trivial
    (nullable_mark_stops nullable hrest) (nullable_mark_stops nullable' hrest') htyped
  obtain ⟨rfl, hr⟩ := nullable_mark_readsBack _ _ _ _ trivial trivial hrest hrest' hmark
  exact ⟨rfl, hr⟩

/-- A table whose name holds no separator that would end it, with such columns. -/
def PlainTable (table : String × List ColumnSpec) : Prop :=
  (∀ c ∈ table.1.toList, InColumn c) ∧ ∀ col ∈ table.2, col.Plain

theorem table_text_readsBack (h : QuotesEnd) : ReadsBack table_text PlainTable (· ≠ ':') := by
  rintro ⟨name, columns⟩ ⟨name', columns'⟩ rest rest' ha hb hrest hrest' heq
  have hstops : ∀ (columns : List ColumnSpec) rest, Stops (· ≠ ':') rest →
      Stops InColumn (columns.flatMap ColumnSpec.text ++ rest) := by
    intro columns rest hrest
    rcases columns with _ | ⟨col, columns⟩
    · exact hrest.mono fun c hc => hc.2
    · exact stops_cons.mpr fun hc => hc.1 rfl
  have hend : ∀ rest : List Char, Stops (· ≠ ':') rest →
      Stops (fun c => InColumn c ∨ c = '|') rest := by
    intro rest hrest
    refine hrest.mono fun c hc => ?_
    rcases hc with hc | rfl
    · exact hc.2
    · decide
  simp only [table_text, List.cons_append, List.append_assoc, List.cons.injEq, true_and] at heq
  obtain ⟨hname, hbehind⟩ := append_inj_of_stops ha.1 hb.1 (hstops columns rest hrest)
    (hstops columns' rest' hrest') heq
  obtain rfl : name = name' := String.toList_inj.mp hname
  have hcolumns := (ColumnSpec.text_readsBack h).flatMap (c := '|') (by decide) fun _ => rfl
  obtain ⟨rfl, hr⟩ := hcolumns columns columns' rest rest' ha.2 hb.2 (hend rest hrest)
    (hend rest' hrest') hbehind
  exact ⟨rfl, hr⟩

/-- Tables without separators in their names are read back from what they add. -/
theorem tables_of_text {tables tables' : List (String × List ColumnSpec)} (h : QuotesEnd)
    (ha : ∀ table ∈ tables, PlainTable table) (hb : ∀ table ∈ tables', PlainTable table)
    (heq : tables.flatMap table_text = tables'.flatMap table_text) : tables = tables' := by
  have hall := (table_text_readsBack h).flatMap (c := ':') (by decide) fun _ => rfl
  refine (hall tables tables' [] [] ha hb stops_nil stops_nil ?_).1
  simpa using heq

end Texts

/-! ## The whole text -/

section Combined

variable [ContentText] (fp : ModFingerprint) (table_specs : List TableSpec)

/-- The names of a mod's tables, in order. -/
def sorted_names : List String := fp.table_specs.mergeSort fun a b => a ≤ b

/-- The tables of a mod that are given, in the order of their names. -/
def sorted_tables : List (String × List ColumnSpec) :=
  ((table_specs.filter fun s => s.name ∈ fp.table_specs).mergeSort fun a b => a.name ≤ b.name).map
    fun s => (s.name, s.columns)

theorem columns_foldl (columns : List ColumnSpec) (init : String) :
    (columns.foldl (fun combined col =>
      combined ++ "|" ++ col.name ++ "=" ++ col.storage_type ++ ":" ++ col.semantic.debug
        ++ if col.nullable then "?n" else "") init).toList
      = init.toList ++ columns.flatMap ColumnSpec.text := by
  induction columns generalizing init with
  | nil => simp
  | cons col columns ih =>
    rw [List.foldl_cons, ih, List.flatMap_cons, ← List.append_assoc]
    congr 1
    rcases hn : col.nullable <;> simp [ColumnSpec.text, nullable_mark, hn]

theorem combined_toList (seed : String) :
    (fp.combined seed table_specs).toList
      = fp.mod_id.toList ++ ':' :: (fp.version.toList ++ ':' ::
        ([','].intercalate ((sorted_names fp).map String.toList) ++ ':' ::
          (seed.toList ++ (sorted_tables fp table_specs).flatMap table_text))) := by
  have hfold : ∀ (specs : List TableSpec) (init : String),
      (specs.foldl (fun combined spec =>
        spec.columns.foldl (fun combined col =>
          combined ++ "|" ++ col.name ++ "=" ++ col.storage_type ++ ":" ++ col.semantic.debug
            ++ if col.nullable then "?n" else "") (combined ++ ":" ++ spec.name)) init).toList
        = init.toList ++ (specs.map fun s => (s.name, s.columns)).flatMap table_text := by
    intro specs
    induction specs with
    | nil => simp
    | cons spec specs ih =>
      intro init
      rw [List.foldl_cons, ih, columns_foldl, List.map_cons, List.flatMap_cons, ← List.append_assoc]
      congr 1
      simp [table_text]
  unfold ModFingerprint.combined
  rw [hfold]
  simp [sorted_names, sorted_tables, toString]

end Combined

/-! ## Mods with their tables -/

/-- A mod with the specs that `compute_hash` is given, each table once. -/
structure ModTables where
  fp : ModFingerprint
  specs : List TableSpec
  distinct : (specs.map (·.name)).Nodup

namespace ModTables

/-- The mod has a table of this name with these columns. -/
def Has (m : ModTables) (name : String) (columns : List ColumnSpec) : Prop :=
  name ∈ m.fp.table_specs ∧ ∃ s ∈ m.specs, s.name = name ∧ s.columns = columns

/-- Two mods have tables of the same names, and for each the same columns. -/
def SameTables (a b : ModTables) : Prop :=
  (∀ name, name ∈ a.fp.table_specs ↔ name ∈ b.fp.table_specs)
    ∧ ∀ name columns, a.Has name columns ↔ b.Has name columns

theorem mem_sorted_tables {m : ModTables} {table : String × List ColumnSpec} :
    table ∈ sorted_tables m.fp m.specs ↔ m.Has table.1 table.2 := by
  simp only [sorted_tables, Has, List.mem_map, List.mem_mergeSort, List.mem_filter,
    decide_eq_true_eq]
  constructor
  · rintro ⟨s, ⟨hs, hname⟩, rfl⟩
    exact ⟨hname, s, hs, rfl, rfl⟩
  · rintro ⟨hname, s, hs, hs1, hs2⟩
    exact ⟨s, ⟨hs, hs1 ▸ hname⟩, Prod.ext hs1 hs2⟩

end ModTables

/-- Sorting by a key that tells the elements apart does not depend on their order. -/
theorem mergeSort_eq_of_perm {α : Type} (key : α → String) {xs ys : List α} (h : xs.Perm ys)
    (hkey : ∀ a ∈ xs, ∀ b ∈ xs, key a = key b → a = b) :
    xs.mergeSort (fun a b => key a ≤ key b) = ys.mergeSort (fun a b => key a ≤ key b) := by
  have hperm : (xs.mergeSort fun a b => key a ≤ key b).Perm
      (ys.mergeSort fun a b => key a ≤ key b) :=
    ((List.mergeSort_perm xs _).trans h).trans (List.mergeSort_perm ys _).symm
  refine hperm.eq_of_pairwise ?_ (inKeyOrder_mergeSort xs) (inKeyOrder_mergeSort ys)
  intro a b ha hb hab hba
  rw [List.mem_mergeSort] at ha hb
  exact hkey a ha b (h.mem_iff.mpr hb) (le_antisymm hab hba)

theorem digitChar_injective : ∀ m < 16, ∀ n < 16, Nat.digitChar m = Nat.digitChar n → m = n := by
  decide

/-- Different numbers have different hexadecimal texts. -/
theorem hex_injective {m n : Nat} (h : Nat.toDigits 16 m = Nat.toDigits 16 n) : m = n := by
  induction m using Nat.strong_induction_on generalizing n with
  | _ m ih =>
    -- one digit against several
    have hone : ∀ k l, k < 16 → 16 ≤ l → Nat.toDigits 16 k ≠ Nat.toDigits 16 l := by
      intro k l hk hl heq
      have hlong := congrArg List.length heq
      rw [Nat.toDigits_of_lt_base hk, Nat.toDigits_of_base_le (by omega) hl, List.length_append,
        List.length_singleton, List.length_singleton] at hlong
      have := Nat.length_toDigits_pos (b := 16) (n := l / 16)
      omega
    by_cases hm : m < 16
    · by_cases hn : n < 16
      · rw [Nat.toDigits_of_lt_base hm, Nat.toDigits_of_lt_base hn] at h
        exact digitChar_injective m hm n hn (List.cons.inj h).1
      · exact absurd h (hone m n hm (by omega))
    · by_cases hn : n < 16
      · exact absurd h.symm (hone n m hn (by omega))
      · have hlong : 16 ≤ m := by omega
        have hlong' : 16 ≤ n := by omega
        rw [Nat.toDigits_of_base_le (by omega) hlong,
          Nat.toDigits_of_base_le (by omega) hlong'] at h
        obtain ⟨hfront, hlast⟩ := List.append_inj' h rfl
        have hquot := ih (m / 16) (by omega) hfront
        have hrem := digitChar_injective _ (Nat.mod_lt m (by omega)) _ (Nat.mod_lt n (by omega))
          (List.cons.inj hlast).1
        omega

/-! ## Telling mods apart -/

/-- The names that mods use: the characters in them, and whether a table may have the empty
name. -/
structure Vocabulary where
  letters : Char → Prop
  empty_names : Prop

namespace Vocabulary

/-- The tables, columns and storage types of a mod have names of the vocabulary. Ids, versions
and what foreign keys refer to may be any texts. -/
def Covers (v : Vocabulary) (m : ModTables) : Prop :=
  (∀ name ∈ m.fp.table_specs, (∀ c ∈ name.toList, v.letters c) ∧ (name = "" → v.empty_names))
    ∧ ∀ s ∈ m.specs, ∀ col ∈ s.columns,
      (∀ c ∈ col.name.toList, v.letters c) ∧ ∀ c ∈ col.storage_type.toList, v.letters c

section Telling

variable [ContentText]

/-- What is promised of the text and the hash of mods with such names. -/
structure ToldApart (v : Vocabulary) : Prop where
  different : ∀ (seed : String) (a b : ModTables), v.Covers a → v.Covers b →
    a.fp.mod_id = b.fp.mod_id → a.fp.version = b.fp.version → ¬a.SameTables b →
    a.fp.combined seed a.specs ≠ b.fp.combined seed b.specs
      ∧ (ContentText.hash64 (a.fp.combined seed a.specs)
          ≠ ContentText.hash64 (b.fp.combined seed b.specs) →
        (a.fp.compute_hash seed a.specs).content_hash ≠ (b.fp.compute_hash seed b.specs).content_hash)
  reordered : ∀ (seed : String) (m : ModTables), v.Covers m → ∀ names specs,
    names.Perm m.fp.table_specs → specs.Perm m.specs →
    ModFingerprint.combined { m.fp with table_specs := names } seed specs
      = m.fp.combined seed m.specs

/-! ### Without separators -/

theorem combined_reordered (seed : String) (m : ModTables) {names : List String}
    {specs : List TableSpec} (hnames : names.Perm m.fp.table_specs) (hspecs : specs.Perm m.specs) :
    ModFingerprint.combined { m.fp with table_specs := names } seed specs
      = m.fp.combined seed m.specs := by
  have hsame : sorted_names { m.fp with table_specs := names } = sorted_names m.fp :=
    mergeSort_eq_of_perm id hnames fun _ _ _ _ h => h
  have htables : sorted_tables { m.fp with table_specs := names } specs
      = sorted_tables m.fp m.specs := by
    unfold sorted_tables
    congr 1
    have hfilter : (specs.filter fun s => s.name ∈ names)
        = specs.filter fun s => s.name ∈ m.fp.table_specs := by
      refine List.filter_congr fun s _ => ?_
      rw [decide_eq_decide]
      exact hnames.mem_iff
    dsimp only
    rw [hfilter]
    refine mergeSort_eq_of_perm TableSpec.name (hspecs.filter _) fun s hs t ht h => ?_
    have hmem : ∀ {u}, u ∈ specs.filter (fun s => s.name ∈ m.fp.table_specs) → u ∈ m.specs :=
      fun hu => hspecs.mem_iff.mp (List.mem_of_mem_filter hu)
    exact List.inj_on_of_nodup_map m.distinct (hmem hs) (hmem ht) h
  apply String.toList_inj.mp
  rw [combined_toList, combined_toList, hsame, htables]

section Plain

variable {v : Vocabulary} {m : ModTables} (h : v.Covers m)

omit [ContentText]

include h

theorem Covers.plain_names (hempty : ¬v.empty_names) (hcomma : ¬v.letters ',') :
    ∀ x ∈ (sorted_names m.fp).map String.toList, x ≠ [] ∧ ',' ∉ x := by
  intro x hx
  obtain ⟨name, hname, rfl⟩ := List.mem_map.mp hx
  obtain ⟨hletters, hne⟩ := h.1 name (List.mem_mergeSort.mp hname)
  refine ⟨fun hnil => hempty (hne (String.toList_eq_nil_iff.mp hnil)), fun hmem => ?_⟩
  exact hcomma (hletters ',' hmem)

theorem Covers.colon_not_mem_names (hcolon : ¬v.letters ':') :
    ':' ∉ [','].intercalate ((sorted_names m.fp).map String.toList) := by
  refine not_mem_intercalate (by decide) fun x hx hmem => ?_
  obtain ⟨name, hname, rfl⟩ := List.mem_map.mp hx
  exact hcolon ((h.1 name (List.mem_mergeSort.mp hname)).1 ':' hmem)

theorem Covers.plain_tables (hcolon : ¬v.letters ':') (hbar : ¬v.letters '|')
    (hequals : ¬v.letters '=') : ∀ table ∈ sorted_tables m.fp m.specs, PlainTable table := by
  intro table htable
  obtain ⟨hname, s, hs, -, hcolumns⟩ := ModTables.mem_sorted_tables.mp htable
  refine ⟨fun c hc => ⟨?_, ?_⟩, fun col hcol => ⟨fun hmem => ?_, fun hmem => ?_⟩⟩
  · rintro rfl
    exact hbar ((h.1 _ hname).1 _ hc)
  · rintro rfl
    exact hcolon ((h.1 _ hname).1 _ hc)
  · exact hequals ((h.2 s hs col (hcolumns ▸ hcol)).1 _ hmem)
  · exact hcolon ((h.2 s hs col (hcolumns ▸ hcol)).2 _ hmem)

end Plain

/-- Without separators and empty names, one text comes from mods with the same tables. -/
theorem sameTables_of_combined_eq {v : Vocabulary} (h : QuotesEnd) (hempty : ¬v.empty_names)
    (hcomma : ¬v.letters ',') (hcolon : ¬v.letters ':') (hbar : ¬v.letters '|')
    (hequals : ¬v.letters '=') {seed : String} {a b : ModTables} (ha : v.Covers a)
    (hb : v.Covers b) (hid : a.fp.mod_id = b.fp.mod_id) (hversion : a.fp.version = b.fp.version)
    (heq : a.fp.combined seed a.specs = b.fp.combined seed b.specs) : a.SameTables b := by
  have hlist := congrArg String.toList heq
  rw [combined_toList, combined_toList, hid, hversion] at hlist
  -- ids and versions are equal, whatever they contain; the names end at the first colon
  have hversioned := (List.cons.inj (List.append_cancel_left hlist)).2
  have hnamed := (List.cons.inj (List.append_cancel_left hversioned)).2
  obtain ⟨hjoined, hseeded⟩ :=
    append_cons_inj (ha.colon_not_mem_names hcolon) (hb.colon_not_mem_names hcolon) hnamed
  have hlists := intercalate_inj (ha.plain_names hempty hcomma) (hb.plain_names hempty hcomma)
    hjoined
  have hnames : sorted_names a.fp = sorted_names b.fp :=
    List.map_injective_iff.mpr (fun _ _ => String.toList_inj.mp) hlists
  have htables := tables_of_text h (ha.plain_tables hcolon hbar hequals)
    (hb.plain_tables hcolon hbar hequals) (List.append_cancel_left hseeded)
  refine ⟨fun name => ?_, fun name columns => ?_⟩
  · have hmem : name ∈ sorted_names a.fp ↔ name ∈ sorted_names b.fp := by rw [hnames]
    rwa [sorted_names, sorted_names, List.mem_mergeSort, List.mem_mergeSort] at hmem
  · have hmem : (name, columns) ∈ sorted_tables a.fp a.specs
        ↔ (name, columns) ∈ sorted_tables b.fp b.specs := by rw [htables]
    rwa [ModTables.mem_sorted_tables, ModTables.mem_sorted_tables] at hmem

theorem content_hash_ne {seed : String} {a b : ModTables}
    (h : ContentText.hash64 (a.fp.combined seed a.specs)
      ≠ ContentText.hash64 (b.fp.combined seed b.specs)) :
    (a.fp.compute_hash seed a.specs).content_hash
      ≠ (b.fp.compute_hash seed b.specs).content_hash := by
  intro heq
  have hdigits := String.ofList_injective heq
  exact h (UInt64.toNat_inj.mp (hex_injective hdigits))

/-! ### With a separator -/

/-- A text of `n` marks. -/
def marks (c : Char) (n : Nat) : String := String.ofList (List.replicate n c)

omit [ContentText] in
theorem marks_toList (c : Char) (n : Nat) : (marks c n).toList = List.replicate n c :=
  String.toList_ofList

omit [ContentText] in
theorem marks_inj {c : Char} {m n : Nat} : marks c m = marks c n ↔ m = n := by
  refine ⟨fun h => ?_, fun h => h ▸ rfl⟩
  have hlength := congrArg (fun s : String => s.toList.length) h
  simpa [marks_toList] using hlength

/-- A mod without id and version. -/
def unnamed (names : List String) (specs : List TableSpec) (h : (specs.map (·.name)).Nodup) :
    ModTables :=
  { fp := { mod_id := "", version := "", table_specs := names, content_hash := "" }
    specs
    distinct := h }

/-- A spec with these columns. -/
def bare (name : String) (columns : List ColumnSpec) : TableSpec :=
  { name, columns, column_index := ∅ }

/-- Two mods whose names and tables make the same texts are not told apart. -/
theorem not_toldApart {v : Vocabulary} {a b : ModTables} (ha : v.Covers a) (hb : v.Covers b)
    (hid : a.fp.mod_id = b.fp.mod_id) (hversion : a.fp.version = b.fp.version)
    (hdiffer : ¬a.SameTables b)
    (hnames : [','].intercalate ((sorted_names a.fp).map String.toList)
      = [','].intercalate ((sorted_names b.fp).map String.toList))
    (htables : (sorted_tables a.fp a.specs).flatMap table_text
      = (sorted_tables b.fp b.specs).flatMap table_text) :
    ¬v.ToldApart := by
  intro htold
  refine (htold.different "" a b ha hb hid hversion hdiffer).1 (String.toList_inj.mp ?_)
  rw [combined_toList, combined_toList, hid, hversion, hnames, htables]

omit [ContentText] in
/-- Names of a mark that is a letter. -/
theorem covers_marks {v : Vocabulary} {c : Char} (hc : v.letters c) {names : List String}
    {specs : List TableSpec} {h : (specs.map (·.name)).Nodup}
    (hnames : ∀ name ∈ names, ∃ n, 0 < n ∧ name = marks c n)
    (hcolumns : ∀ s ∈ specs, ∀ col ∈ s.columns,
      (∃ n, col.name = marks c n) ∧ ∃ n, col.storage_type = marks c n) :
    v.Covers (unnamed names specs h) := by
  have hletters : ∀ n, ∀ d ∈ (marks c n).toList, v.letters d := by
    intro n d hd
    rw [marks_toList] at hd
    rwa [List.eq_of_mem_replicate hd]
  refine ⟨fun name hname => ?_, fun s hs col hcol => ?_⟩
  · obtain ⟨n, hn, rfl⟩ := hnames name hname
    refine ⟨hletters n, fun hempty => ?_⟩
    have hzero : n = 0 := marks_inj.mp (hempty.trans (rfl : "" = marks c 0))
    omega
  · obtain ⟨⟨m, hm⟩, n, hn⟩ := hcolumns s hs col hcol
    rw [hm, hn]
    exact ⟨hletters m, hletters n⟩

omit [ContentText] in
/-- One table that is given, of a mod that has it. -/
theorem sorted_tables_one {fp : ModFingerprint} {s : TableSpec} (h : s.name ∈ fp.table_specs) :
    sorted_tables fp [s] = [(s.name, s.columns)] := by
  simp [sorted_tables, h]

/-- Mods with the same names and one table given for each. -/
theorem not_toldApart_one {v : Vocabulary} {names : List String} {s t : TableSpec}
    (ha : v.Covers (unnamed names [s] (List.nodup_singleton _)))
    (hb : v.Covers (unnamed names [t] (List.nodup_singleton _))) (hs : s.name ∈ names)
    (ht : t.name ∈ names) (hdiffer : (s.name, s.columns) ≠ (t.name, t.columns))
    (htext : table_text (s.name, s.columns) = table_text (t.name, t.columns)) :
    ¬v.ToldApart := by
  refine not_toldApart ha hb rfl rfl ?_ rfl ?_
  · intro hsame
    obtain ⟨-, other, hother, hname, hcolumns⟩ :=
      (hsame.2 s.name s.columns).mp ⟨hs, s, List.mem_cons_self, rfl, rfl⟩
    rw [List.mem_singleton.mp hother] at hname hcolumns
    exact hdiffer (Prod.ext hname.symm hcolumns.symm)
  · have hone : ∀ u (hu : u.name ∈ names), sorted_tables
        (unnamed names [u] (List.nodup_singleton _)).fp [u] = [(u.name, u.columns)] :=
      fun u hu => sorted_tables_one hu
    refine (congrArg _ (hone s hs)).trans (Eq.trans ?_ (congrArg _ (hone t ht)).symm)
    rw [List.flatMap_singleton, List.flatMap_singleton, htext]

theorem not_toldApart_of_empty {v : Vocabulary} (h : v.empty_names) : ¬v.ToldApart := by
  have hnone : v.Covers (unnamed [] [] List.nodup_nil) :=
    ⟨fun _ hname => absurd hname List.not_mem_nil, fun _ hs => absurd hs List.not_mem_nil⟩
  have hempty : v.Covers (unnamed [""] [] List.nodup_nil) := by
    refine ⟨fun name hname => ?_, fun _ hs => absurd hs List.not_mem_nil⟩
    rw [List.mem_singleton.mp hname]
    exact ⟨fun c hc => absurd hc List.not_mem_nil, fun _ => h⟩
  refine not_toldApart hnone hempty rfl rfl ?_ ?_ rfl
  · intro hsame
    exact absurd ((hsame.1 "").mpr List.mem_cons_self) List.not_mem_nil
  · simp [sorted_names, unnamed]

theorem not_toldApart_of_comma {v : Vocabulary} (h : v.letters ',') : ¬v.ToldApart := by
  have htwo : v.Covers (unnamed [marks ',' 1, marks ',' 1] [] List.nodup_nil) :=
    covers_marks h (by simpa using ⟨1, by omega, rfl⟩) (by simp)
  have hone : v.Covers (unnamed [marks ',' 3] [] List.nodup_nil) :=
    covers_marks h (by simpa using ⟨3, by omega, rfl⟩) (by simp)
  -- two names of one comma with a comma between them, or one name of three
  refine not_toldApart htwo hone rfl rfl ?_ ?_ rfl
  · intro hsame
    have hmem := (hsame.1 (marks ',' 3)).mpr List.mem_cons_self
    simp [unnamed, marks_inj] at hmem
  · have hsorted : sorted_names (unnamed [marks ',' 1, marks ',' 1] [] List.nodup_nil).fp
        = [marks ',' 1, marks ',' 1] := List.mergeSort_of_pairwise (by simp [unnamed])
    rw [hsorted]
    simp [sorted_names, unnamed, marks_toList, List.replicate]

theorem not_toldApart_of_colon {v : Vocabulary} (h : v.letters ':') : ¬v.ToldApart := by
  have hnames : ∀ name ∈ [marks ':' 1, marks ':' 2, marks ':' 4],
      ∃ n, 0 < n ∧ name = marks ':' n := by
    simp only [List.mem_cons, List.not_mem_nil, or_false]
    rintro name (rfl | rfl | rfl)
    · exact ⟨1, by omega, rfl⟩
    · exact ⟨2, by omega, rfl⟩
    · exact ⟨4, by omega, rfl⟩
  have hdistinct : ([bare (marks ':' 1) [], bare (marks ':' 2) []].map (·.name)).Nodup := by
    simp [bare, marks_inj]
  have htwo : v.Covers (unnamed [marks ':' 1, marks ':' 2, marks ':' 4]
      [bare (marks ':' 1) [], bare (marks ':' 2) []] hdistinct) :=
    covers_marks h hnames (by simp [bare])
  have hone : v.Covers (unnamed [marks ':' 1, marks ':' 2, marks ':' 4]
      [bare (marks ':' 4) []] (List.nodup_singleton _)) :=
    covers_marks h hnames (by simp [bare])
  -- two tables of one and two colons, or one table of four
  refine not_toldApart htwo hone rfl rfl ?_ rfl ?_
  · intro hsame
    obtain ⟨-, s, hs, hname, -⟩ := (hsame.2 (marks ':' 1) []).mp
      ⟨List.mem_cons_self, _, List.mem_cons_self, rfl, rfl⟩
    rw [List.mem_singleton.mp hs] at hname
    exact absurd (marks_inj.mp hname) (by decide)
  · have horder : marks ':' 1 ≤ marks ':' 2 := by decide +kernel
    simp only [sorted_tables, unnamed, bare]
    rw [List.mergeSort_of_pairwise (by simp [horder])]
    simp [table_text, marks_toList, List.replicate]

theorem not_toldApart_of_bar {v : Vocabulary} (h : v.letters '|') : ¬v.ToldApart := by
  have hnames : ∀ name ∈ [marks '|' 1, marks '|' 2], ∃ n, 0 < n ∧ name = marks '|' n := by
    simp only [List.mem_cons, List.not_mem_nil, or_false]
    rintro name (rfl | rfl)
    · exact ⟨1, by omega, rfl⟩
    · exact ⟨2, by omega, rfl⟩
  have hlong : v.Covers (unnamed [marks '|' 1, marks '|' 2]
      [bare (marks '|' 2) [.new (marks '|' 0) .Id (marks '|' 0)]] (List.nodup_singleton _)) :=
    covers_marks h hnames (by simpa [bare] using ⟨⟨0, rfl⟩, 0, rfl⟩)
  have hshort : v.Covers (unnamed [marks '|' 1, marks '|' 2]
      [bare (marks '|' 1) [.new (marks '|' 1) .Id (marks '|' 0)]] (List.nodup_singleton _)) :=
    covers_marks h hnames (by simpa [bare] using ⟨⟨1, rfl⟩, 0, rfl⟩)
  -- the bar that begins the column may be the last of the table's name
  refine not_toldApart_one hlong hshort (by simp [bare]) (by simp [bare]) ?_ ?_
  · simp [bare, marks_inj]
  · simp [table_text, ColumnSpec.text, bare, ColumnSpec.new, marks_toList, List.replicate]

theorem not_toldApart_of_equals {v : Vocabulary} (h : v.letters '=') : ¬v.ToldApart := by
  have hnames : ∀ name ∈ [marks '=' 1], ∃ n, 0 < n ∧ name = marks '=' n := by
    simpa using ⟨1, by omega, rfl⟩
  have hname : v.Covers (unnamed [marks '=' 1]
      [bare (marks '=' 1) [.new (marks '=' 1) .Id (marks '=' 0)]] (List.nodup_singleton _)) :=
    covers_marks h hnames (by simpa [bare] using ⟨⟨1, rfl⟩, 0, rfl⟩)
  have htype : v.Covers (unnamed [marks '=' 1]
      [bare (marks '=' 1) [.new (marks '=' 0) .Id (marks '=' 1)]] (List.nodup_singleton _)) :=
    covers_marks h hnames (by simpa [bare] using ⟨⟨0, rfl⟩, 1, rfl⟩)
  -- the sign is in the name or in the type
  refine not_toldApart_one hname htype (by simp [bare]) (by simp [bare]) ?_ ?_
  · simp [bare, ColumnSpec.new, marks_inj]
  · simp [table_text, ColumnSpec.text, bare, ColumnSpec.new, marks_toList, List.replicate]

end Telling

end Vocabulary

/-! ## Quoted strings -/

/-- A quote and a backslash are written with a backslash. Other characters are left as they are,
which is what `Debug` does with every printable ASCII text. -/
def escape (c : Char) : List Char := if c = '"' ∨ c = '\\' then ['\\', c] else [c]

/-- `fxhash::hash64`. -/
def fxhash64 (data : String) : UInt64 :=
  data.toUTF8.toList.foldl (fun hash byte => (hash * 0x00000100000001b3) ^^^ byte.toUInt64)
    0x517cc1b727220a95

@[reducible] def escaped_text : ContentText :=
  { debug_str := fun s => String.ofList ('"' :: (s.toList.flatMap escape ++ ['"']))
    hash64 := fxhash64 }

theorem escape_readsBack {c d : Char} {rest rest' : List Char}
    (h : escape c ++ rest = escape d ++ rest') : c = d ∧ rest = rest' := by
  unfold escape at h
  by_cases hc : c = '"' ∨ c = '\\'
  · by_cases hd : d = '"' ∨ d = '\\'
    · rw [if_pos hc, if_pos hd] at h
      obtain ⟨rfl, htail⟩ := List.cons.inj (List.cons.inj h).2
      exact ⟨rfl, htail⟩
    · rw [if_pos hc, if_neg hd] at h
      exact absurd (.inr (List.cons.inj h).1.symm) hd
  · by_cases hd : d = '"' ∨ d = '\\'
    · rw [if_neg hc, if_pos hd] at h
      exact absurd (.inr (List.cons.inj h).1) hc
    · rw [if_neg hc, if_neg hd] at h
      exact List.cons.inj h

theorem quote_ne_escape {c : Char} {rest rest' : List Char} : '"' :: rest ≠ escape c ++ rest' := by
  intro h
  unfold escape at h
  by_cases hc : c = '"' ∨ c = '\\'
  · rw [if_pos hc] at h
    exact absurd (List.cons.inj h).1 (by decide)
  · rw [if_neg hc] at h
    exact hc (.inl (List.cons.inj h).1.symm)

/-- The first quote without a backslash closes the text. -/
theorem escaped_inj {s t rest rest' : List Char}
    (h : s.flatMap escape ++ '"' :: rest = t.flatMap escape ++ '"' :: rest') :
    s = t ∧ rest = rest' := by
  induction s generalizing t with
  | nil =>
    rcases t with _ | ⟨d, t⟩
    · exact ⟨rfl, (List.cons.inj h).2⟩
    · rw [List.flatMap_cons, List.append_assoc] at h
      exact absurd h quote_ne_escape
  | cons c s ih =>
    rw [List.flatMap_cons, List.append_assoc] at h
    rcases t with _ | ⟨d, t⟩
    · exact absurd h.symm quote_ne_escape
    · rw [List.flatMap_cons, List.append_assoc] at h
      obtain ⟨rfl, htail⟩ := escape_readsBack h
      obtain ⟨rfl, hr⟩ := ih htail
      exact ⟨rfl, hr⟩

theorem escaped_text_quotesEnd : @QuotesEnd escaped_text := by
  intro s t rest rest' h
  have htext : ∀ u, (@ContentText.debug_str escaped_text u).toList
      = '"' :: (u.toList.flatMap escape ++ ['"']) := fun _ => String.toList_ofList
  rw [htext, htext] at h
  simp only [List.cons_append, List.append_assoc, List.nil_append, List.cons.injEq, true_and] at h
  obtain ⟨hchars, hr⟩ := escaped_inj h
  exact ⟨String.toList_inj.mp hchars, hr⟩

/-- Names of small letters and underscores. -/
def snake_case : Vocabulary := { letters := fun c => c.isLower ∨ c = '_', empty_names := False }

end Scharnhorst
