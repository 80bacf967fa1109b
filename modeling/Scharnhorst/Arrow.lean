/-
The Arrow values the store is made of: schemas, arrays with their validity bitmaps,
and record batches.

The `arrow` crate is not part of the repository, so this is its documented
behaviour, at the level the store reaches down to. That level is the bitmap: the
patch functions take a primitive array apart into its value buffer and the bytes of
its null buffer, so a primitive array here is exactly those two, with the bit offset
a slice leaves behind. Boolean and string arrays are only ever read element by
element and rebuilt, so they are lists of optional values. A column of any other
type can be loaded but not patched; `OtherArray` stands for all of them.

The well-formedness that the crate's constructors check is carried by the types: a
null buffer fits its bits, a primitive array's null buffer has its length, a record
batch has one column per field and all of one length.
-/
import Scharnhorst.Core

set_option autoImplicit false

namespace Scharnhorst

/-! ## Schemas -/

inductive DataType where
  | Int64 | Int32 | UInt64 | Float64 | Boolean | Utf8 | LargeUtf8
  | Other (name : String)
deriving DecidableEq

/-- `Display` and `Debug` of a primitive Arrow type are its name. -/
def DataType.to_string : DataType → String
  | Int64 => "Int64"
  | Int32 => "Int32"
  | UInt64 => "UInt64"
  | Float64 => "Float64"
  | Boolean => "Boolean"
  | Utf8 => "Utf8"
  | LargeUtf8 => "LargeUtf8"
  | Other name => name

structure Field where
  name : String
  data_type : DataType
  nullable : Bool
deriving DecidableEq

structure Schema where
  fields : List Field
deriving DecidableEq

/-- The first field of that name. -/
def Schema.index_of (schema : Schema) (name : String) : Option Nat :=
  schema.fields.findIdx? (·.name == name)

theorem Schema.index_of_lt {schema : Schema} {name : String} {i : Nat}
    (h : schema.index_of name = some i) : i < schema.fields.length :=
  (List.findIdx?_eq_some_iff_findIdx_eq.1 h).1

/-! ## Cells

One value of one column of one row, whatever array it sits in. -/

inductive Cell where
  | Null
  | Int64 (v : Int64)
  | Int32 (v : Int32)
  | UInt64 (v : UInt64)
  | Float64 (v : F64)
  | Boolean (v : Bool)
  | Utf8 (v : String)
  | LargeUtf8 (v : String)
  | Other (v : String)
deriving DecidableEq

/-! ## Null buffers -/

/-- A validity bitmap: the bits of the underlying bytes, least significant first,
and the window of them that the array looks at. A set bit is a valid slot. -/
structure NullBuffer where
  bits : List Bool
  offset : Nat
  len : Nat
  whole_bytes : bits.length % 8 = 0
  fits : offset + len ≤ bits.length
deriving DecidableEq

namespace NullBuffer

def is_null (n : NullBuffer) (i : Nat) : Bool := !n.bits.getD (n.offset + i) false

/-- `NullBuffer::from(Vec<bool>)`: packed from bit 0, the last byte padded with
zeros. -/
def from_bools (valid : List Bool) : NullBuffer where
  bits := valid ++ List.replicate ((8 - valid.length % 8) % 8) false
  offset := 0
  len := valid.length
  whole_bytes := by simp; omega
  fits := by simp

/-- Moves the window; the bits stay. The crate panics on a window that sticks out,
and the callers here never ask for one. -/
def slice (n : NullBuffer) (offset length : Nat) : NullBuffer where
  bits := n.bits
  offset := n.offset + min offset n.len
  len := min length (n.len - offset)
  whole_bytes := n.whole_bytes
  fits := by have := n.fits; omega

theorem is_null_slice {n : NullBuffer} {o : Nat} (l i : Nat) (ho : o ≤ n.len) :
    (n.slice o l).is_null i = n.is_null (o + i) := by
  simp only [is_null, slice, Nat.min_eq_left ho, Nat.add_assoc]

theorem is_null_from_bools {valid : List Bool} {i : Nat} (hi : i < valid.length) :
    (from_bools valid).is_null i = !valid.getD i false := by
  simp [is_null, from_bools, List.getElem?_append_left hi]

end NullBuffer

/-! ## Primitive arrays -/

/-- `PrimitiveArray<T>`. -/
structure PrimitiveArray (α : Type) where
  values : List α
  nulls : Option NullBuffer
  nulls_len : ∀ n ∈ nulls, n.len = values.length
deriving DecidableEq

namespace PrimitiveArray

variable {α : Type} (a : PrimitiveArray α)

def len : Nat := a.values.length

def is_null (i : Nat) : Bool := a.nulls.any (·.is_null i)

/-- `is_null` and `value` in one: what slot `i` holds. -/
def get (i : Nat) : Option α := if a.is_null i then none else a.values[i]?

/-- `PrimitiveArray::from(vec![v])`. -/
def from_value (v : α) : PrimitiveArray α := ⟨[v], none, by simp⟩

/-- `PrimitiveArray::from(vec![None])`: the slot holds the type's zero under an
unset bit. -/
def from_none (zero : α) : PrimitiveArray α :=
  ⟨[zero], some (.from_bools [false]), by simp [NullBuffer.from_bools]⟩

def slice (offset length : Nat) : PrimitiveArray α where
  values := (a.values.drop offset).take length
  nulls := a.nulls.map (·.slice offset length)
  nulls_len := by
    intro n hn
    obtain ⟨m, hm, rfl⟩ := Option.map_eq_some_iff.1 hn
    simp [NullBuffer.slice, a.nulls_len m hm]

/-- The null buffer starts at bit 0. A slice may lose this; what the store builds
itself has it. -/
def Aligned : Prop := ∀ n ∈ a.nulls, n.offset = 0

@[simp] theorem len_from_value (v : α) : (from_value v).len = 1 := rfl
@[simp] theorem len_from_none (v : α) : (from_none v).len = 1 := rfl
@[simp] theorem get_from_value (v : α) : (from_value v).get 0 = some v := rfl
@[simp] theorem get_from_none (v : α) : (from_none v).get 0 = none := rfl

theorem aligned_from_value (v : α) : (from_value v).Aligned := by
  simp [Aligned, from_value]

theorem aligned_from_none (v : α) : (from_none v).Aligned := by
  simp [Aligned, from_none, NullBuffer.from_bools]

variable {a}

@[simp] theorem len_slice {o l : Nat} : (a.slice o l).len = min l (a.len - o) := by
  simp [slice, len]

/-- A slice holds what the array held, shifted. -/
theorem get_slice {o l i : Nat} (ho : o ≤ a.len) (hi : i < l) :
    (a.slice o l).get i = a.get (o + i) := by
  have hnull : (a.slice o l).is_null i = a.is_null (o + i) := by
    rcases hn : a.nulls with _ | n
    · simp [is_null, slice, hn]
    · have hlen : o ≤ n.len := by rw [a.nulls_len n hn]; exact ho
      simp [is_null, slice, hn, NullBuffer.is_null_slice l i hlen]
  rw [get, get, hnull]
  simp [slice, hi]

end PrimitiveArray

/-! ## Arrays -/

/-- `ArrayRef`: an array behind its data type. -/
inductive ArrayRef where
  | Int64Array (a : PrimitiveArray Int64)
  | Int32Array (a : PrimitiveArray Int32)
  | UInt64Array (a : PrimitiveArray UInt64)
  | Float64Array (a : PrimitiveArray F64)
  | BooleanArray (a : List (Option Bool))
  | StringArray (a : List (Option String))
  | LargeStringArray (a : List (Option String))
  | OtherArray (type_name : String) (a : List (Option String))
deriving DecidableEq

namespace ArrayRef

def data_type : ArrayRef → DataType
  | Int64Array _ => .Int64
  | Int32Array _ => .Int32
  | UInt64Array _ => .UInt64
  | Float64Array _ => .Float64
  | BooleanArray _ => .Boolean
  | StringArray _ => .Utf8
  | LargeStringArray _ => .LargeUtf8
  | OtherArray type_name _ => .Other type_name

def len : ArrayRef → Nat
  | Int64Array a => a.len
  | Int32Array a => a.len
  | UInt64Array a => a.len
  | Float64Array a => a.len
  | BooleanArray a => a.length
  | StringArray a => a.length
  | LargeStringArray a => a.length
  | OtherArray _ a => a.length

/-- What the array holds at `i`. -/
def cell : ArrayRef → Nat → Cell
  | Int64Array a, i => (a.get i).elim .Null .Int64
  | Int32Array a, i => (a.get i).elim .Null .Int32
  | UInt64Array a, i => (a.get i).elim .Null .UInt64
  | Float64Array a, i => (a.get i).elim .Null .Float64
  | BooleanArray a, i => (a[i]?.join).elim .Null .Boolean
  | StringArray a, i => (a[i]?.join).elim .Null .Utf8
  | LargeStringArray a, i => (a[i]?.join).elim .Null .LargeUtf8
  | OtherArray _ a, i => (a[i]?.join).elim .Null .Other

/-- `null_count() > 0`. -/
def has_nulls (a : ArrayRef) : Bool := (List.range a.len).any fun i => a.cell i = .Null

def slice (offset length : Nat) : ArrayRef → ArrayRef
  | Int64Array a => .Int64Array (a.slice offset length)
  | Int32Array a => .Int32Array (a.slice offset length)
  | UInt64Array a => .UInt64Array (a.slice offset length)
  | Float64Array a => .Float64Array (a.slice offset length)
  | BooleanArray a => .BooleanArray ((a.drop offset).take length)
  | StringArray a => .StringArray ((a.drop offset).take length)
  | LargeStringArray a => .LargeStringArray ((a.drop offset).take length)
  | OtherArray type_name a => .OtherArray type_name ((a.drop offset).take length)

/-- Every null buffer inside starts at bit 0. -/
def Aligned : ArrayRef → Prop
  | Int64Array a => a.Aligned
  | Int32Array a => a.Aligned
  | UInt64Array a => a.Aligned
  | Float64Array a => a.Aligned
  | _ => True

variable {a : ArrayRef} {o l i : Nat}


@[simp] theorem len_slice : (a.slice o l).len = min l (a.len - o) := by
  cases a <;> simp [slice, len]

theorem cell_slice (ho : o ≤ a.len) (hi : i < l) : (a.slice o l).cell i = a.cell (o + i) := by
  cases a <;> simp only [slice, cell, len] at ho ⊢
  case Int64Array | Int32Array | UInt64Array | Float64Array =>
    rw [PrimitiveArray.get_slice ho hi]
  all_goals simp [hi]

end ArrayRef

/-! ## Record batches -/

/-- The first field whose type its column does not have: the two types and the
index. -/
def type_not_match (schema : Schema) (columns : List ArrayRef) :
    Option (DataType × DataType × Nat) :=
  ((columns.zip schema.fields).zipIdx.find? fun p => p.1.1.data_type ≠ p.1.2.data_type).map
    fun p => (p.1.2.data_type, p.1.1.data_type, p.2)

/-- The first field that is declared non-nullable and whose column has a null. -/
def null_in_non_nullable (schema : Schema) (columns : List ArrayRef) : Option Field :=
  ((columns.zip schema.fields).find? fun p => !p.2.nullable && p.1.has_nulls).map (·.2)

theorem types_of_type_not_match {schema : Schema} {columns : List ArrayRef}
    (hcount : columns.length = schema.fields.length) (h : type_not_match schema columns = none) :
    columns.map ArrayRef.data_type = schema.fields.map Field.data_type := by
  have hall : ∀ p ∈ (columns.zip schema.fields).zipIdx, p.1.1.data_type = p.1.2.data_type := by
    simpa [type_not_match, List.find?_eq_none] using h
  refine List.ext_getElem (by simpa using hcount) fun i hi hi' => ?_
  have hc : i < columns.length := by simpa using hi
  have hf : i < schema.fields.length := by simpa using hi'
  have hmem : (((columns[i], schema.fields[i]), i)) ∈ (columns.zip schema.fields).zipIdx := by
    simp [List.mem_zipIdx_iff_getElem?, List.getElem?_zip_eq_some, hc, hf]
  simpa using hall _ hmem

/-- `RecordBatch`: one column per field, of its type, all equally long, and no null
in a field that forbids it. -/
structure RecordBatch where
  schema : Schema
  columns : List ArrayRef
  row_count : Nat
  column_types : columns.map ArrayRef.data_type = schema.fields.map Field.data_type
  column_len : ∀ c ∈ columns, c.len = row_count
  non_nullable : null_in_non_nullable schema columns = none
deriving DecidableEq

namespace RecordBatch

/-- `RecordBatch::try_new`. The error is the `Display` text of the crate's
`ArrowError::InvalidArgumentError`. -/
def try_new (schema : Schema) (columns : List ArrayRef) : Except String RecordBatch :=
  if hcount : columns.length = schema.fields.length then
    match columns.head? with
    | none =>
      .error "Invalid argument error: must either specify a row count or at least one column"
    | some first =>
      match hnull : null_in_non_nullable schema columns with
      | some f =>
        .error s!"Invalid argument error: Column '{f.name}' is declared as non-nullable but contains null values"
      | none =>
        if hlen : ∀ c ∈ columns, c.len = first.len then
          match htypes : type_not_match schema columns with
          | some (expected, found, i) =>
            .error s!"Invalid argument error: column types must match schema types, expected {expected.to_string} but found {found.to_string} at column index {i}"
          | none =>
            .ok { schema, columns
                  row_count := first.len
                  column_types := types_of_type_not_match hcount htypes
                  column_len := hlen
                  non_nullable := hnull }
        else
          .error "Invalid argument error: all columns in a record batch must have the same length"
  else
    .error s!"Invalid argument error: number of columns({columns.length}) must match number of fields({schema.fields.length}) in schema"

def num_columns (b : RecordBatch) : Nat := b.columns.length

/-- The cells of row `i`, column by column. -/
def row (b : RecordBatch) (i : Nat) : List Cell := b.columns.map (·.cell i)

/-- Every column's null buffer starts at bit 0. -/
def Aligned (b : RecordBatch) : Prop := ∀ c ∈ b.columns, c.Aligned

/-- What `try_new` returns: the given columns, as long as the first of them. -/
theorem try_new_ok {schema : Schema} {columns : List ArrayRef} {b : RecordBatch}
    (h : try_new schema columns = .ok b) :
    b.schema = schema ∧ b.columns = columns ∧ ∃ first ∈ columns, b.row_count = first.len := by
  unfold try_new at h
  split at h
  case isFalse => cases h
  split at h
  case h_1 => cases h
  rename_i first hfirst
  split at h
  case h_1 => cases h
  split at h
  case isFalse => cases h
  split at h
  case h_1 => cases h
  cases h
  exact ⟨rfl, rfl, first, List.mem_of_head? hfirst, rfl⟩

theorem type_not_match_eq_none {schema : Schema} {columns : List ArrayRef}
    (h : columns.map ArrayRef.data_type = schema.fields.map Field.data_type) :
    type_not_match schema columns = none := by
  rw [type_not_match, Option.map_eq_none_iff, List.find?_eq_none]
  rintro ⟨⟨column, field⟩, i⟩ hmem
  have hget := List.mem_zipIdx_iff_getElem?.1 hmem
  rw [List.getElem?_zip_eq_some] at hget
  have htypes := congrArg (·[i]?) h
  simp only [List.getElem?_map, hget.1, hget.2, Option.map_some, Option.some.injEq] at htypes
  simp [htypes]

/-- What `try_new` asks for. -/
theorem exists_try_new {schema : Schema} {columns : List ArrayRef} :
    (∃ b, try_new schema columns = .ok b)
      ↔ columns ≠ [] ∧ columns.map ArrayRef.data_type = schema.fields.map Field.data_type
        ∧ null_in_non_nullable schema columns = none ∧ ∃ n, ∀ c ∈ columns, c.len = n := by
  constructor
  · rintro ⟨b, h⟩
    obtain ⟨rfl, rfl, first, hfirst, -⟩ := try_new_ok h
    exact ⟨List.ne_nil_of_mem hfirst, b.column_types, b.non_nullable, b.row_count, b.column_len⟩
  · rintro ⟨hne, htypes, hnull, n, hlen⟩
    obtain ⟨first, rest, rfl⟩ := List.exists_cons_of_ne_nil hne
    have hcount : (first :: rest).length = schema.fields.length := by
      simpa using congrArg List.length htypes
    have hsame : ∀ c ∈ first :: rest, c.len = first.len := by
      intro c hc
      rw [hlen c hc, hlen first List.mem_cons_self]
    unfold try_new
    rw [dif_pos hcount]
    simp only [List.head?_cons]
    split
    · rename_i f hf
      rw [hnull] at hf
      cases hf
    rw [dif_pos hsame]
    split
    · rename_i hbad
      rw [type_not_match_eq_none htypes] at hbad
      cases hbad
    · exact ⟨_, rfl⟩

/-- Every batch the store builds is a list of columns, which may fail, handed to
`try_new`. A built batch has the schema and the columns it was built from. -/
theorem built_ok {ε : Type} {schema : Schema} {columns : Except ε (List ArrayRef)}
    {wrap : String → ε} {b : RecordBatch}
    (h : (do let cs ← columns; (try_new schema cs).mapError wrap) = .ok b) :
    b.schema = schema ∧ columns = .ok b.columns ∧ ∃ first ∈ b.columns, b.row_count = first.len := by
  rcases columns with e | cs
  · cases h
  · rcases ht : try_new schema cs with e | b'
    · simp [ht, bind, Except.bind, Except.mapError] at h
    · obtain rfl : b' = b := by simpa [ht, bind, Except.bind, Except.mapError] using h
      obtain ⟨hschema, rfl, hfirst⟩ := try_new_ok ht
      exact ⟨hschema, rfl, hfirst⟩

theorem column_count (b : RecordBatch) : b.columns.length = b.schema.fields.length := by
  simpa using congrArg List.length b.column_types

@[simp] theorem length_row (b : RecordBatch) (i : Nat) : (b.row i).length = b.num_columns := by
  simp [row, num_columns]

end RecordBatch

end Scharnhorst
