/-
The two ways to index a key.

An insert enters the key of its row while it has the JSON value at hand, and it prints that value.
The index builder has the stored cells only, and it prints those. Between the two stands the
conversion to the type of the column. What it changes is seen in the text: `5.0` is stored in a
column of integers as `5`, an integer is stored in a column of floats as the nearest one. And even
where it changes nothing, a float that is whole is printed with a point by `serde_json` and
without one by `Display`.

How floats are printed is up to two libraries, and only what they promise is used: which decimal
they print, that `serde_json` keeps a point or an `e` in the text, and that `Display` writes the
decimal out.
-/
import Scharnhorst.DecimalText
import Scharnhorst.IntegerCells
import Scharnhorst.Legal
import Scharnhorst.Phases

set_option autoImplicit false

namespace Scharnhorst

open Attempt Maps DecimalText

/-! ## Printing -/

/-- What is promised of the printed texts. `shortest` is the decimal that stands for a finite
float, the shortest one that is read back as the float, and `scientific` says where `serde_json`
writes an exponent. -/
structure Prints [Render] (shortest : F64 → Option Digits) (scientific : F64 → Bool) : Prop where
  null : Render.value_to_string .null = "null"
  bool : ∀ b, Render.value_to_string (.bool b) = toString b
  integer : ∀ n i, n.integer = some i → Render.value_to_string (.number n) = toString i
  exponent : ∀ v finite, scientific v = true →
    'e' ∈ (Render.value_to_string (.number (.Float v finite))).toList
  float : ∀ v finite, scientific v = false → ∃ d, shortest v = some d ∧
    Render.value_to_string (.number (.Float v finite)) =
      d.text ++ if d.exponent < 0 then "" else ".0"
  display : ∀ v d, shortest v = some d → Render.f64_to_string v = d.text
  not_finite : ∀ v, shortest v = none → Render.f64_to_string v ∈ ["NaN", "inf", "-inf"]
  read_back : Function.Injective Render.f64_to_string

/-- The text of a number is that of the cell that a column of this type makes of it: an integer
is not above the `i64`s, or it is the decimal that its float stands for; a float is in a column
of floats, and there are digits after the point. -/
def SameNumber (shortest : F64 → Option Digits) (scientific : F64 → Bool) (dt : DataType)
    (n : Number) : Prop :=
  match n.integer with
  | some i =>
    (dt = .Int64 → i < 2 ^ 63) ∧
      (dt = .Float64 → ((n.as_f64.bind shortest).bind Digits.integer) = some i)
  | none =>
    dt = .Float64 ∧ ∃ v d, n.as_f64 = some v ∧ scientific v = false ∧ shortest v = some d ∧
      d.exponent < 0

/-- Anything but a number is stored as it is. -/
def SameText (shortest : F64 → Option Digits) (scientific : F64 → Bool) (dt : DataType) :
    Json → Prop
  | .number n => SameNumber shortest scientific dt n
  | _ => True

section Texts

variable [Render] {shortest : F64 → Option Digits} {scientific : F64 → Bool}

/-- The key that an insert enters for a value. -/
def entered_key : Json → String
  | .string s => s
  | other => Render.value_to_string other

theorem index_key_eq (pk_name : String) (values : JsonMap) :
    index_key (some pk_name) values = values[pk_name]?.map entered_key := by
  rw [index_key, Option.bind_some]
  rfl

/-! ### Integers -/

/-- An integer column makes another integer of a number only above the `i64`s. -/
theorem stored_integer_iff {n : Number} {i j : Int} (hi : n.integer = some i)
    {column : IntegerColumn} (hj : column.stored (.number n) = .ok j) (hholds : column.Holds j) :
    i = j ↔ (column = .i64 → i < 2 ^ 63) := by
  constructor
  · rintro rfl rfl
    have hmax : Int64.maxValue.toInt = 2 ^ 63 - 1 := by decide
    have := hholds.2
    omega
  · intro hsmall
    have hstored : column.StoredExactly n i := by
      cases column with
      | i64 =>
        refine (storedExactly_i64 hi).2 fun h => ?_
        have := hsmall rfl
        omega
      | i32 => exact storedExactly_i32 hi
      | u64 => exact storedExactly_u64 hi
    unfold IntegerColumn.StoredExactly at hstored
    split at hstored
    · rw [hj] at hstored
      exact (Except.ok.inj hstored).symm
    · obtain ⟨e, he⟩ := hstored
      rw [hj] at he
      cases he

/-- What the three integer columns make of a number. -/
theorem integer_cell {n : Number} {dt : DataType} {a : ArrayRef}
    (ha : json_value_to_array (.number n) dt = .ok a) (hfloat : dt ≠ .Float64) :
    ∃ column j, IntegerColumn.stored column (.number n) = .ok j ∧ column.Holds j ∧
      cell_text (json_cell (.number n) dt) = toString j ∧ (column = .i64 ↔ dt = .Int64) := by
  have hnull : Json.is_null (.number n) = false := rfl
  unfold json_value_to_array at ha
  unfold json_cell
  rw [hnull, if_neg Bool.false_ne_true] at ha ⊢
  -- one range for each of the three integer columns; the rest stores no number
  cases dt with
  | Int64 =>
    rcases hv : json_to_i64 (.number n) with e | v
    · simp [hv, Except.map] at ha
    exact ⟨.i64, v.toInt, by rw [IntegerColumn.stored, hv]; rfl,
      ⟨v.minValue_le_toInt, v.toInt_le⟩, rfl, by decide⟩
  | Int32 =>
    rcases hv : json_to_i32 (.number n) with e | v
    · simp [hv, Except.map] at ha
    exact ⟨.i32, v.toInt, by rw [IntegerColumn.stored, hv]; rfl,
      ⟨v.minValue_le_toInt, v.toInt_le⟩, rfl, by decide⟩
  | UInt64 =>
    rcases hv : json_to_u64 (.number n) with e | v
    · simp [hv, Except.map] at ha
    exact ⟨.u64, v.toNat, by rw [IntegerColumn.stored, hv]; rfl,
      ⟨Int.natCast_nonneg _, Int.ofNat_lt.2 v.toNat_lt_size⟩, rfl, by decide⟩
  | Float64 => exact absurd rfl hfloat
  | Boolean => cases ha
  | Utf8 => cases ha
  | LargeUtf8 => cases ha
  | Other name => cases ha

/-! ### Floats -/

variable (hprints : Prints shortest scientific)

include hprints

/-- A float is printed in digits, or as one of three words. -/
theorem float_text {v : F64} {c : Char} (hc : c ∈ (Render.f64_to_string v).toList)
    (hdigit : c.isDigit = false) : c ∈ "-.NaNinf".toList := by
  rcases hd : shortest v with _ | d
  · have hwords := hprints.not_finite v hd
    simp only [List.mem_cons, List.not_mem_nil, or_false] at hwords
    rcases hwords with h | h | h <;> rw [h] at hc <;> revert hc <;> clear hdigit <;> simp <;> tauto
  · rw [hprints.display v d hd] at hc
    rcases Digits.mem_text hc with h | rfl | rfl
    · rw [hdigit] at h
      cases h
    · decide
    · decide

/-- The text of a float is that of an integer if the decimal is this integer. -/
theorem float_text_integer {v : F64} {i : Int} :
    toString i = Render.f64_to_string v ↔ (shortest v).bind Digits.integer = some i := by
  rcases hd : shortest v with _ | d
  · have hwords := hprints.not_finite v hd
    constructor
    · intro htext
      rw [← htext] at hwords
      simp only [List.mem_cons, List.not_mem_nil, or_false] at hwords
      have hword : 'N' ∈ (toString i).toList ∨ 'n' ∈ (toString i).toList := by
        rcases hwords with h | h | h <;> rw [h] <;> decide
      rcases hword with h | h
      · exact absurd h (not_mem_integer (by decide) (by decide))
      · exact absurd h (not_mem_integer (by decide) (by decide))
    · intro h
      cases h
  · rw [hprints.display v d hd, Option.bind_some, ← Digits.text_eq_iff]
    exact eq_comm

/-- `serde_json` prints a float as `Display` does if there are digits after the point. -/
theorem float_text_same {v : F64} {finite : v.isFinite = true} :
    Render.value_to_string (.number (.Float v finite)) = Render.f64_to_string v ↔
      scientific v = false ∧ ∃ d, shortest v = some d ∧ d.exponent < 0 := by
  rcases hscientific : scientific v with _ | _
  · obtain ⟨d, hd, htext⟩ := hprints.float v finite hscientific
    rw [htext, hprints.display v d hd, hd]
    by_cases hexp : d.exponent < 0
    · simp [hexp]
    · rw [if_neg hexp]
      constructor
      · intro h
        have hlen := congrArg String.length h
        simp at hlen
      · rintro ⟨-, d', hd', hexp'⟩
        cases hd'
        exact absurd hexp' hexp
  · constructor
    · intro h
      have hmem := hprints.exponent v finite hscientific
      rw [h] at hmem
      exact absurd (float_text hprints hmem (by decide)) (by decide)
    · rintro ⟨h, -⟩
      cases h

/-- In a column of integers there is no such text. -/
theorem float_text_not_integer {v : F64} {finite : v.isFinite = true} {i : Int} :
    Render.value_to_string (.number (.Float v finite)) ≠ toString i := by
  intro h
  rcases hscientific : scientific v with _ | _
  · obtain ⟨d, -, htext⟩ := hprints.float v finite hscientific
    have hpoint : '.' ∈ (toString i).toList := by
      rw [← h, htext, String.toList_append]
      by_cases hexp : d.exponent < 0
      · exact List.mem_append_left _ (Digits.point_mem hexp)
      · rw [if_neg hexp]
        exact List.mem_append_right _ (by decide)
    exact absurd hpoint (not_mem_integer (by decide) (by decide))
  · have hmem := hprints.exponent v finite hscientific
    rw [h] at hmem
    exact absurd hmem (not_mem_integer (by decide) (by decide))

/-! ### Every value -/

theorem number_text_iff {n : Number} {dt : DataType} {a : ArrayRef}
    (ha : json_value_to_array (.number n) dt = .ok a) :
    entered_key (.number n) = cell_text (json_cell (.number n) dt) ↔
      SameNumber shortest scientific dt n := by
  have hentered : entered_key (.number n) = Render.value_to_string (.number n) := rfl
  unfold SameNumber
  -- a float column prints the shortest decimal of the nearest float
  by_cases hfloat : dt = .Float64
  · subst hfloat
    obtain ⟨v, hv⟩ : ∃ v, n.as_f64 = some v := by cases n <;> exact ⟨_, rfl⟩
    have hcell : json_cell (.number n) .Float64 = .Float64 v := by
      have hjson : (Json.number n).as_f64 = some v := hv
      simp [json_cell, Json.is_null, json_to_f64, hjson, Except.toOption]
    rw [hentered, hcell, cell_text]
    rcases hi : n.integer with _ | i
    · cases n with
      | PosInt w => cases hi
      | NegInt w hneg => cases hi
      | Float w finite =>
        cases hv
        rw [float_text_same hprints]
        simp [Number.as_f64]
    · rw [hprints.integer n i hi, float_text_integer hprints, hv]
      simp
  -- an integer column prints the integer, and a float is never spelled like one
  · obtain ⟨column, j, hj, hholds, hcell, hcolumn⟩ := integer_cell ha hfloat
    rw [hentered, hcell]
    rcases hi : n.integer with _ | i
    · cases n with
      | PosInt w => cases hi
      | NegInt w hneg => cases hi
      | Float w finite =>
        exact ⟨fun h => absurd h (float_text_not_integer hprints), fun h => absurd h.1 hfloat⟩
    · rw [hprints.integer n i hi, Int.toString_eq_repr, Int.toString_eq_repr, Int.repr_inj,
        stored_integer_iff hi hj hholds, hcolumn]
      simp [hfloat]

/-- The key that an insert enters, and the text of the cell that it stores. -/
theorem entered_key_iff {value : Json} {dt : DataType} {a : ArrayRef}
    (ha : json_value_to_array value dt = .ok a) :
    entered_key value = cell_text (json_cell value dt) ↔
      SameText shortest scientific dt value := by
  cases value with
  | number n => exact number_text_iff hprints ha
  | null =>
    simp [SameText, entered_key, json_cell, Json.is_null, cell_text, hprints.null]
  | bool b =>
    cases dt
    case Boolean =>
      simp [SameText, entered_key, json_cell, Json.is_null, json_to_bool, Json.as_bool,
        Except.toOption, cell_text, hprints.bool]
    all_goals cases ha
  | string s =>
    cases dt
    case Utf8 => simp [SameText, entered_key, json_cell, Json.is_null, json_to_string,
      Except.toOption, cell_text]
    case LargeUtf8 => simp [SameText, entered_key, json_cell, Json.is_null, json_to_string,
      Except.toOption, cell_text]
    all_goals cases ha
  | array items => cases dt <;> cases ha
  | object fields => cases dt <;> cases ha

end Texts

/-! ## Cells of one column -/

/-- The cell can stand in a column of this type. -/
def Fills (dt : DataType) (c : Cell) : Prop :=
  c = .Null ∨
    match dt with
    | .Int64 => ∃ v, c = .Int64 v
    | .Int32 => ∃ v, c = .Int32 v
    | .UInt64 => ∃ v, c = .UInt64 v
    | .Float64 => ∃ v, c = .Float64 v
    | .Boolean => ∃ v, c = .Boolean v
    | .Utf8 => ∃ v, c = .Utf8 v
    | .LargeUtf8 => ∃ v, c = .LargeUtf8 v
    | .Other _ => ∃ v, c = .Other v

theorem fills_elim {α : Type*} {f : α → Cell} (v : Option α) :
    v.elim .Null f = .Null ∨ ∃ w, v.elim .Null f = f w := by
  rcases v with _ | w
  · exact .inl rfl
  · exact .inr ⟨w, rfl⟩

theorem cell_fills (a : ArrayRef) (i : Nat) : Fills a.data_type (a.cell i) := by
  cases a <;> exact fills_elim _

/-- The word for a missing cell, as a text of its own. -/
def IsNullText (c : Cell) : Prop := c = .Utf8 "null" ∨ c = .LargeUtf8 "null"

section Cells

variable [Render] {shortest : F64 → Option Digits} {scientific : F64 → Bool}
  (hprints : Prints shortest scientific) {dt : DataType} {c d : Cell}

include hprints

/-- No cell but a null, and the text itself, is printed as a null is. -/
theorem cell_text_null (hbuiltin : ∀ name, dt ≠ .Other name) (hc : Fills dt c) :
    cell_text c = "null" ↔ c = .Null ∨ IsNullText c := by
  -- neither a number nor a truth value is spelled with the letters of a null
  have hinteger : ∀ i : Int, toString i ≠ "null" := by
    intro i h
    have hmem : 'n' ∈ (toString i).toList := by
      rw [h]
      decide
    exact absurd hmem (not_mem_integer (by decide) (by decide))
  have hfloat : ∀ v, Render.f64_to_string v ≠ "null" := by
    intro v h
    have hmem : 'u' ∈ (Render.f64_to_string v).toList := by
      rw [h]
      decide
    exact absurd (float_text hprints hmem (by decide)) (by decide)
  have hbool : ∀ b : Bool, toString b ≠ "null" := by decide
  unfold IsNullText
  rcases hc with rfl | hc
  · simp [cell_text]
  · cases dt with
    | Other name => exact absurd rfl (hbuiltin name)
    | Int64 =>
      obtain ⟨v, rfl⟩ := hc
      exact ⟨fun h => absurd h (hinteger v.toInt), fun h => by simp at h⟩
    | Int32 =>
      obtain ⟨v, rfl⟩ := hc
      exact ⟨fun h => absurd h (hinteger v.toInt), fun h => by simp at h⟩
    | UInt64 =>
      obtain ⟨v, rfl⟩ := hc
      exact ⟨fun h => absurd h (hinteger v.toNat), fun h => by simp at h⟩
    | Float64 =>
      obtain ⟨v, rfl⟩ := hc
      exact ⟨fun h => absurd h (hfloat v), fun h => by simp at h⟩
    | Boolean =>
      obtain ⟨v, rfl⟩ := hc
      exact ⟨fun h => absurd h (hbool v), fun h => by simp at h⟩
    | Utf8 =>
      obtain ⟨v, rfl⟩ := hc
      simp [cell_text]
    | LargeUtf8 =>
      obtain ⟨v, rfl⟩ := hc
      simp [cell_text]

/-- Two cells of one column have one text only if the cells are one, or one of them is a null and
the other the text. -/
theorem cell_text_eq (hbuiltin : ∀ name, dt ≠ .Other name) (hc : Fills dt c) (hd : Fills dt d)
    (htext : cell_text c = cell_text d) (hne : c ≠ d) :
    c = .Null ∧ IsNullText d ∨ d = .Null ∧ IsNullText c := by
  by_cases hnull : c = .Null
  · subst hnull
    have hd' := (cell_text_null hprints hbuiltin hd).1 htext.symm
    exact .inl ⟨rfl, hd'.resolve_left hne.symm⟩
  by_cases hnull' : d = .Null
  · subst hnull'
    have hc' := (cell_text_null hprints hbuiltin hc).1 htext
    exact .inr ⟨rfl, hc'.resolve_left hne⟩
  exfalso
  apply hne
  have hc := hc.resolve_left hnull
  have hd := hd.resolve_left hnull'
  -- a type has a text for each of its values
  cases dt with
  | Other name => exact absurd rfl (hbuiltin name)
  | Int64 =>
    obtain ⟨⟨v, rfl⟩, ⟨w, rfl⟩⟩ := And.intro hc hd
    rw [Int64.toInt_inj.1 (Int.repr_injective htext)]
  | Int32 =>
    obtain ⟨⟨v, rfl⟩, ⟨w, rfl⟩⟩ := And.intro hc hd
    rw [Int32.toInt_inj.1 (Int.repr_injective htext)]
  | UInt64 =>
    obtain ⟨⟨v, rfl⟩, ⟨w, rfl⟩⟩ := And.intro hc hd
    rw [UInt64.toNat_inj.1 (Nat.repr_injective htext)]
  | Float64 =>
    obtain ⟨⟨v, rfl⟩, ⟨w, rfl⟩⟩ := And.intro hc hd
    rw [hprints.read_back htext]
  | Boolean =>
    obtain ⟨⟨v, rfl⟩, ⟨w, rfl⟩⟩ := And.intro hc hd
    have hbool : ∀ a b : Bool, toString a = toString b → a = b := by decide
    rw [hbool v w htext]
  | Utf8 =>
    obtain ⟨⟨v, rfl⟩, ⟨w, rfl⟩⟩ := And.intro hc hd
    exact congrArg Cell.Utf8 htext
  | LargeUtf8 =>
    obtain ⟨⟨v, rfl⟩, ⟨w, rfl⟩⟩ := And.intro hc hd
    exact congrArg Cell.LargeUtf8 htext

end Cells

/-! ## The key column of a table -/

/-- The array that the index builder reads. -/
def key_array (pk_name : String) (b : RecordBatch) : Option ArrayRef :=
  (b.schema.index_of pk_name).bind (b.columns[·]?)

/-- The row at a place, a batch of a tick and a row in it, has this cell in the key column. -/
def HasKey (pk_name : String) (t : VersionedTable) (place : Tick × Nat × Nat) (c : Cell) : Prop :=
  ∃ b a, (t.batches place.1)[place.2.1]? = some b ∧ place.2.2 < b.row_count ∧
    key_array pk_name b = some a ∧ a.cell place.2.2 = c

/-- Rows with different keys are indexed under different texts. -/
def Unshared [Render] (pk_name : String) (t : VersionedTable) : Prop :=
  ∀ p q c d, HasKey pk_name t p c → HasKey pk_name t q d → c ≠ d → cell_text c ≠ cell_text d

/-- There is a null among the keys, those of the table and the new one, and the text that a null
is printed as. -/
def NullTwice (pk_name : String) (t : VersionedTable) (value : Json) : Prop :=
  (value = .null ∨ ∃ p, HasKey pk_name t p .Null) ∧
    (value = .string "null" ∨ ∃ p c, HasKey pk_name t p c ∧ IsNullText c)

/-- The key column of the table is field `k` of the schema, of a built-in type. -/
structure KeyColumn (reg : TypeRegistry) (t : VersionedTable) (schema : Schema) (pk_name : String)
    (k : Nat) (f : Field) : Prop where
  spec : ∃ spec, t.spec = some spec ∧ spec_schema spec reg = .ok schema
  key : pk_col_name t = some pk_name
  index : schema.index_of pk_name = some k
  field : schema.fields[k]? = some f
  builtin : ∀ name, f.data_type ≠ .Other name
  batches : ∀ tick, ∀ b ∈ t.batches tick, ∀ a, key_array pk_name b = some a →
    a.data_type = f.data_type

theorem KeyColumn.name_eq {reg : TypeRegistry} {t : VersionedTable} {schema : Schema}
    {pk_name : String} {k : Nat} {f : Field} (h : KeyColumn reg t schema pk_name k f) :
    f.name = pk_name := by
  have hlt := Schema.index_of_lt h.index
  have hname := (List.findIdx?_eq_some_iff_getElem.1 h.index).2.1
  have hf := h.field
  rw [List.getElem?_eq_getElem hlt, Option.some.injEq] at hf
  rw [← hf]
  simpa using hname

section Tables

variable [Render] {reg : TypeRegistry} {t t' : VersionedTable} {schema : Schema}
  {pk_name table_name : String} {k : Nat} {f : Field} {tick : Tick} {row : RowId}
  {values : JsonMap} {value : Json}

/-- The key column of the batch that an insert adds. -/
theorem inserted_key (h : KeyColumn reg t schema pk_name k f)
    (hvalue : values[pk_name]? = some value) {b : RecordBatch} (hb : json_map_to_record_batch values schema = .ok b) :
    ∃ a, key_array pk_name b = some a ∧ json_value_to_array value f.data_type = .ok a := by
  obtain ⟨hschema, hcolumns, -⟩ := RecordBatch.built_ok hb
  have hk := (List.getElem?_eq_some_iff.1 h.field).1
  have hk' : k < b.columns.length := by
    rw [mapM_ok_length hcolumns]
    exact hk
  have hcolumn := mapM_ok_getElem hcolumns hk hk'
  rw [(List.getElem?_eq_some_iff.1 h.field).2, h.name_eq] at hcolumn
  have hget : values.getD pk_name .null = value := by
    rw [Std.ExtTreeMap.getD_eq_getD_getElem?, hvalue, Option.getD_some]
  rw [hget] at hcolumn
  refine ⟨b.columns[k], ?_, hcolumn⟩
  rw [key_array, hschema, h.index, Option.bind_some, List.getElem?_eq_getElem hk']

/-- The builder enters one row for it, under the text of the cell. -/
theorem index_inserted {b : RecordBatch} {a : ArrayRef} (ha : key_array pk_name b = some a)
    (hone : b.row_count = 1) (index : PrimaryKeyIndex) (batch_idx : Nat) :
    ArrowStore.index_batch pk_name tick index (b, batch_idx) =
      (.ok (), index.insert (array_value_to_string a 0) tick batch_idx 0) := by
  have hfound : (b.schema.index_of pk_name).bind (b.columns[·]?) = some a := ha
  unfold ArrowStore.index_batch
  simp only [hfound, hone]
  rfl

omit [Render] in
/-- The rows of the table with one batch more. -/
theorem has_key_pushed {b : RecordBatch} {a : ArrayRef} (ha : key_array pk_name b = some a)
    (hone : b.row_count = 1)
    (hbatches : ∀ M, t'.batches M = if tick = M then t.batches M ++ [b] else t.batches M)
    {c : Cell} :
    (∃ p, HasKey pk_name t' p c) ↔ (∃ p, HasKey pk_name t p c) ∨ a.cell 0 = c := by
  -- the batches of the tick are one more, and those of other ticks are the same
  constructor
  · rintro ⟨⟨M, i, r⟩, b', a', hb', hr, ha', hc⟩
    rw [hbatches] at hb'
    split at hb'
    · rename_i hM
      subst hM
      rw [List.getElem?_append] at hb'
      split at hb'
      · exact .inl ⟨⟨tick, i, r⟩, b', a', hb', hr, ha', hc⟩
      · obtain rfl : b' = b := List.mem_singleton.1 (List.mem_of_getElem? hb')
        obtain rfl := Option.some.inj (ha.symm.trans ha')
        have hzero : r = 0 := by
          dsimp only at hr
          omega
        right
        rw [← hc, hzero]
    · exact .inl ⟨⟨M, i, r⟩, b', a', hb', hr, ha', hc⟩
  · rintro (⟨⟨M, i, r⟩, b', a', hb', hr, ha', hc⟩ | hc)
    · refine ⟨⟨M, i, r⟩, b', a', ?_, hr, ha', hc⟩
      have hi := (List.getElem?_eq_some_iff.1 hb').1
      rw [hbatches]
      split
      · rw [List.getElem?_append_left hi, hb']
      · exact hb'
    · refine ⟨⟨tick, (t.batches tick).length, 0⟩, b, a, ?_, hone ▸ Nat.one_pos, ha, hc⟩
      rw [hbatches, if_pos rfl]
      simp

/-- The text of a null, in a column that takes it. -/
theorem null_text_iff {a : ArrayRef} {dt : DataType} (ha : json_value_to_array value dt = .ok a) :
    IsNullText (json_cell value dt) ↔ value = .string "null" := by
  unfold IsNullText
  cases value with
  | string s =>
    cases dt
    case Utf8 => simp [json_cell, Json.is_null, json_to_string, Except.toOption]
    case LargeUtf8 => simp [json_cell, Json.is_null, json_to_string, Except.toOption]
    all_goals cases ha
  | null => simp [json_cell, Json.is_null]
  | bool b =>
    cases dt
    case Boolean => simp [json_cell, Json.is_null, json_to_bool, Json.as_bool, Except.toOption]
    all_goals cases ha
  | number n =>
    have hnull : Json.is_null (.number n) = false := rfl
    cases dt
    case Utf8 => cases ha
    case LargeUtf8 => cases ha
    all_goals
      simp only [json_cell, hnull, Bool.false_eq_true, if_false, reduceCtorEq, iff_false, not_or]
    case Other name => simp
    case Int64 => rcases json_to_i64 (.number n) with e | v <;> simp [Except.toOption]
    case Int32 => rcases json_to_i32 (.number n) with e | v <;> simp [Except.toOption]
    case UInt64 => rcases json_to_u64 (.number n) with e | v <;> simp [Except.toOption]
    case Float64 => rcases json_to_f64 (.number n) with e | v <;> simp [Except.toOption]
    case Boolean => rcases json_to_bool (.number n) with e | v <;> simp [Except.toOption]
  | array items => cases dt <;> cases ha
  | object fields => cases dt <;> cases ha

/-- Among the keys of the table with the new row, two share a text exactly if one is missing and
another is the text of a missing one. -/
theorem unshared_iff {shortest : F64 → Option Digits} {scientific : F64 → Bool}
    (hprints : Prints shortest scientific) (h : KeyColumn reg t schema pk_name k f)
    {b : RecordBatch} {a : ArrayRef} (ha : key_array pk_name b = some a) (hone : b.row_count = 1)
    (hbatches : ∀ M, t'.batches M = if tick = M then t.batches M ++ [b] else t.batches M)
    (hvalue : json_value_to_array value f.data_type = .ok a) :
    Unshared pk_name t' ↔ ¬ NullTwice pk_name t value := by
  have hcell : a.cell 0 = json_cell value f.data_type := (json_value_to_array_spec hvalue).cell_eq
  have hkeys : ∀ c, (∃ p, HasKey pk_name t' p c) ↔ (∃ p, HasKey pk_name t p c) ∨ a.cell 0 = c :=
    fun c => has_key_pushed ha hone hbatches
  have hnull : a.cell 0 = .Null ↔ value = .null := by
    rw [hcell, json_cell_eq_null hvalue]
    cases value <;> simp [Json.is_null]
  have htext : IsNullText (a.cell 0) ↔ value = .string "null" := by
    rw [hcell, null_text_iff hvalue]
  -- what the rows of the new table have in common with those of the old one
  have hnulls :
      (∃ p, HasKey pk_name t' p .Null) ↔ value = .null ∨ ∃ p, HasKey pk_name t p .Null := by
    rw [hkeys, hnull, or_comm]
  have htexts : (∃ c, IsNullText c ∧ ∃ p, HasKey pk_name t' p c) ↔
      value = .string "null" ∨ ∃ p c, HasKey pk_name t p c ∧ IsNullText c := by
    constructor
    · rintro ⟨c, hc, hp⟩
      rcases (hkeys c).1 hp with ⟨p, hp⟩ | rfl
      · exact .inr ⟨p, c, hp, hc⟩
      · exact .inl (htext.1 hc)
    · rintro (hstring | ⟨p, c, hp, hc⟩)
      · exact ⟨a.cell 0, htext.2 hstring, (hkeys _).2 (.inr rfl)⟩
      · exact ⟨c, hc, (hkeys c).2 (.inl ⟨p, hp⟩)⟩
  have hfills : ∀ p c, HasKey pk_name t' p c → Fills f.data_type c := by
    intro p c hp
    rcases (hkeys c).1 ⟨p, hp⟩ with ⟨q, b', a', hb', -, ha', rfl⟩ | rfl
    · rw [← h.batches q.1 b' (List.mem_of_getElem? hb') a' ha']
      exact cell_fills a' _
    · rw [← (json_value_to_array_spec hvalue).data_type_eq]
      exact cell_fills a 0
  have hpair : ∀ c d, (∃ p, HasKey pk_name t' p c) → (∃ p, HasKey pk_name t' p d) → c = .Null →
      IsNullText d → NullTwice pk_name t value := by
    rintro c d hc hd rfl hd'
    exact ⟨hnulls.1 hc, htexts.1 ⟨d, hd', hd⟩⟩
  unfold Unshared
  constructor
  · rintro hunshared ⟨hmissing, hword⟩
    obtain ⟨p, hp⟩ := hnulls.2 hmissing
    obtain ⟨c, hc, q, hq⟩ := htexts.2 hword
    refine hunshared p q .Null c hp hq ?_ ?_
    · rcases hc with rfl | rfl <;> simp
    · rcases hc with rfl | rfl <;> rfl
  · intro hnone p q c d hp hq hne hsame
    rcases cell_text_eq hprints h.builtin (hfills p c hp) (hfills q d hq) hsame hne with
      ⟨hc, hd⟩ | ⟨hd, hc⟩
    · exact hnone (hpair c d ⟨p, hp⟩ ⟨q, hq⟩ hc hd)
    · exact hnone (hpair d c ⟨q, hq⟩ ⟨p, hp⟩ hd hc)

end Tables

/-! ## Both keys of an inserted row -/

section Both

variable [Render] {shortest : F64 → Option Digits} {scientific : F64 → Bool}
  {reg : TypeRegistry} {t t' : VersionedTable} {schema : Schema} {pk_name table_name : String}
  {k : Nat} {f : Field} {tick : Tick} {row : RowId} {values : JsonMap} {value : Json}

/-- An insert enters the key that the builder would enter, and no two keys of the table share a
text, exactly if the value is printed like the cell, and a missing key does not meet its text. -/
theorem index_keys_agree_iff (hprints : Prints shortest scientific)
    (hcolumn : KeyColumn reg t schema pk_name k f)
    (hok : apply_insert_to_table t table_name tick row values reg = (.ok (), t'))
    (hvalue : values[pk_name]? = some value) :
    ∃ batch array,
      t'.versions = t.versions.insert tick (t.batches tick ++ [batch]) ∧
      key_array pk_name batch = some array ∧
      t'.primary_key_index =
        t.primary_key_index.insert (entered_key value) tick (t.batches tick).length 0 ∧
      (∀ index batch_idx, ArrowStore.index_batch pk_name tick index (batch, batch_idx) =
        (.ok (), index.insert (array_value_to_string array 0) tick batch_idx 0)) ∧
      (entered_key value = array_value_to_string array 0 ∧ Unshared pk_name t' ↔
        SameText shortest scientific f.data_type value ∧ ¬ NullTwice pk_name t value) := by
  obtain ⟨schema', batch, hresolve, -, hbatch, ht'⟩ := apply_insert_ok hok
  obtain ⟨spec, hspec, hschema⟩ := hcolumn.spec
  -- the insert resolves the schema that the key column was found in
  have hresolved : resolve_table_schema t values reg = .ok (some schema) := by
    rw [resolve_table_schema, hspec]
    simp only [hschema, Except.map]
  rw [hresolved, Except.ok.injEq, Option.some.injEq] at hresolve
  subst hresolve
  obtain ⟨array, harray, hconverted⟩ := inserted_key hcolumn hvalue hbatch
  have hone := (json_map_to_record_batch_spec hbatch).2.1
  have hcell := (json_value_to_array_spec hconverted).cell_eq
  have hversions : t'.versions = t.versions.insert tick (t.batches tick ++ [batch]) := by rw [ht']
  have hbatches : ∀ M, t'.batches M = if tick = M then t.batches M ++ [batch] else t.batches M := by
    intro M
    rw [VersionedTable.batches_insert t.versions t' tick M _ hversions]
    apply if_ctx_congr Iff.rfl
    · rintro rfl
      rfl
    · intro _
      rfl
  refine ⟨batch, array, hversions, harray, ?_, index_inserted harray hone, ?_⟩
  · rw [ht']
    simp only [index_row_eq, hcolumn.key, index_key_eq, hvalue, Option.map_some, Option.elim_some]
  · apply and_congr
    · rw [array_value_to_string, hcell]
      exact entered_key_iff hprints hconverted
    · exact unshared_iff hprints hcolumn harray hone hbatches hconverted

end Both

/-! ### A whole float in a key of integers -/

def five : F64 := i64_to_f64 5

/-- A decimal for each float. It is the shortest one for `5.0`, which is the only float printed
here. -/
def decimal_of (v : F64) : Digits :=
  if v = five then ⟨false, 5, 0, by decide⟩
  else ⟨false, v.toModel.toBits.toNat + 6, 0, fun _ => rfl⟩

@[reducible] def decimal_render : Render where
  value_to_string
    | .null => "null"
    | .bool b => toString b
    | .number (.PosInt v) => toString v.toNat
    | .number (.NegInt v _) => toString v.toInt
    | .number (.Float v _) => (decimal_of v).text ++ ".0"
    | _ => ""
  value_debug _ := ""
  f64_to_string v := (decimal_of v).text
  diff_to_string _ := .error ""

theorem decimal_of_injective {v w : F64} (h : (decimal_of v).text = (decimal_of w).text) :
    v = w := by
  have hwhole : ∀ u, ∃ n : Nat, (decimal_of u).integer = some (n : Int) ∧
      (n = 5 ∧ u = five ∨ n = u.toModel.toBits.toNat + 6) := by
    intro u
    unfold decimal_of
    split
    · rename_i hu
      exact ⟨5, by decide, .inl ⟨rfl, hu⟩⟩
    · exact ⟨u.toModel.toBits.toNat + 6, by simp [Digits.integer], .inr rfl⟩
  obtain ⟨m, hm, hv⟩ := hwhole v
  obtain ⟨n, hn, hw⟩ := hwhole w
  rw [Digits.text_eq_iff.2 hm, Digits.text_eq_iff.2 hn, Int.toString_eq_repr, Int.toString_eq_repr,
    Int.repr_inj] at h
  rcases hv with ⟨hm5, rfl⟩ | hv <;> rcases hw with ⟨hn5, rfl⟩ | hw
  · rfl
  · omega
  · omega
  · have hbits : v.toModel.toBits = w.toModel.toBits := UInt64.toNat_inj.1 (by omega)
    rcases v with ⟨⟨v, hv'⟩⟩
    rcases w with ⟨⟨w, hw'⟩⟩
    cases hbits
    rfl

theorem decimal_render_prints :
    @Prints decimal_render (fun v => some (decimal_of v)) fun _ => false := by
  refine @Prints.mk decimal_render _ _ rfl (fun _ => rfl) ?_ ?_ ?_ ?_ ?_ ?_
  · intro n i hi
    cases n <;> cases hi <;> rfl
  · intro v finite h
    cases h
  · intro v finite _
    have hexp : ¬ (decimal_of v).exponent < 0 := by
      unfold decimal_of
      split <;> exact Int.lt_irrefl 0
    refine ⟨decimal_of v, rfl, ?_⟩
    rw [if_neg hexp]
    rfl
  · intro v d hd
    cases hd
    rfl
  · intro v h
    cases h
  · intro v w h
    exact decimal_of_injective h

def ledger_spec : TableSpec :=
  { name := "ledger"
    columns := [.new "id" .Id "i64"]
    column_index := (∅ : Map String Nat).insert "id" 0 }

def ledger : VersionedTable := (VersionedTable.new "ledger" .Patchable).set_spec ledger_spec

def ledger_field : Field := { name := "id", data_type := .Int64, nullable := false }

def ledger_row (value : Json) : JsonMap := (∅ : JsonMap).insert "id" value

theorem ledger_column :
    KeyColumn default_type_registry ledger ⟨[ledger_field]⟩ "id" 0 ledger_field where
  spec := ⟨ledger_spec, rfl, by decide +kernel⟩
  key := rfl
  index := rfl
  field := rfl
  builtin := by simp [ledger_field]
  batches := by
    intro tick b hb
    simp [ledger, VersionedTable.set_spec, VersionedTable.new, VersionedTable.batches] at hb

/-- The ledger after the insert of a key. -/
def ledger_with (value : Json) : ArrowStoreResult Unit × VersionedTable :=
  @apply_insert_to_table decimal_render ledger "ledger" 0 1 (ledger_row value) default_type_registry

/-- The integer 5 is indexed in one way. -/
theorem five_keyed_alike :
    (ledger_with (number 5)).1 = .ok () ∧ ∃ batch array,
      (ledger_with (number 5)).2.versions = ledger.versions.insert 0 (ledger.batches 0 ++ [batch]) ∧
      key_array "id" batch = some array ∧
      @entered_key decimal_render (number 5) = @array_value_to_string decimal_render array 0 ∧
      @Unshared decimal_render "id" (ledger_with (number 5)).2 := by
  have hok : (ledger_with (number 5)).1 = .ok () := by decide +kernel
  have hvalue : (ledger_row (number 5))["id"]? = some (number 5) := by
    simp [ledger_row]
  obtain ⟨batch, array, hversions, harray, -, -, hiff⟩ :=
    @index_keys_agree_iff decimal_render _ _ _ _ _ _ _ "ledger" _ _ 0 1 _ _
      decimal_render_prints ledger_column (Prod.ext hok rfl) hvalue
  refine ⟨hok, batch, array, hversions, harray, hiff.2 ⟨?_, ?_⟩⟩
  · exact ⟨fun _ => by decide, fun h => by cases h⟩
  · rintro ⟨-, hword | ⟨p, c, ⟨b, a, hb, -⟩, -⟩⟩
    · cases hword
    · simp [ledger, VersionedTable.set_spec, VersionedTable.new, VersionedTable.batches] at hb

theorem five_finite : five.isFinite = true := by decide +kernel

/-- The float `5.0` in the same column is entered as `5.0`, and the builder makes a `5` of it. -/
theorem whole_float_keyed_twice :
    (ledger_with (.number (.Float five five_finite))).1 = .ok () ∧
      (ledger_with (.number (.Float five five_finite))).2.primary_key_index =
        ledger.primary_key_index.insert "5.0" 0 0 0 ∧
      (((ledger_with (.number (.Float five five_finite))).2.batches 0).map fun batch =>
        @ArrowStore.index_batch decimal_render "id" 0 .new (batch, 0)) =
          [(.ok (), PrimaryKeyIndex.new.insert "5" 0 0 0)] := by
  refine ⟨?_, ?_, ?_⟩ <;> decide +kernel

end Scharnhorst
