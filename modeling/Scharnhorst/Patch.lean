/-
Patching rows of a record batch.

A diff never edits a column in place: it builds a one-row patch batch beside the row
it is about, and `patch_record_batch` rebuilds every column of the target with the
patched slots overwritten. For a primitive column that means copying the value
buffer and the raw null bytes, writing slot by slot, and deciding at the end whether
a null buffer is needed at all.

What comes out, cell by cell, is `overlay`: the target's cell unless some patch names
the row, and then the last such patch's cell. That holds when the target's null
buffer starts at bit 0. The code copies the null bytes from the start of the
underlying buffer whatever the offset of the array is, so for a sliced column the
copied bits are not the column's, and the lemmas about cells carry `Aligned`.
-/
import Scharnhorst.Convert

set_option autoImplicit false

namespace Scharnhorst

open Attempt

/-! ## Overlays -/

/-- The patches that name row `i`, applied in order to what it held before. -/
def overlay {β : Type} (patch : Nat → β) (patch_len : Nat) (patches : List (Nat × Nat))
    (i : Nat) (old : β) : β :=
  patches.foldl (fun c p => if p.1 = i ∧ p.2 < patch_len then patch p.2 else c) old

theorem overlay_map {β γ : Type} (g : β → γ) (patch : Nat → β) (n : Nat)
    (patches : List (Nat × Nat)) (i : Nat) (old : β) :
    g (overlay patch n patches i old) = overlay (fun j => g (patch j)) n patches i (g old) := by
  induction patches generalizing old with
  | nil => rfl
  | cons p ps ih =>
      simp only [overlay, List.foldl_cons] at ih ⊢
      rw [ih, apply_ite g]

@[simp] theorem overlay_single {β : Type} (patch : Nat → β) (t i : Nat) (old : β) :
    overlay patch 1 [(t, 0)] i old = if t = i then patch 0 else old := by
  simp [overlay]

/-! ## Primitive columns -/

section Primitive

variable {α : Type}

/-- One round of the loop: `(values, null_bits)` after the patch `(target_row,
patch_row)`. A row out of range on either side is skipped. -/
def patch_slot (patch : PrimitiveArray α) (len : Nat) (s : List α × List Bool) (p : Nat × Nat) :
    List α × List Bool :=
  if len ≤ p.1 ∨ patch.len ≤ p.2 then s
  else
    match patch.get p.2 with
    | none => (s.1, s.2.set p.1 false)
    | some v => (s.1.set p.1 v, s.2.set p.1 true)

/-- The null bytes the loop starts from: the first `div_ceil(len, 8)` bytes of the
underlying buffer, or all ones. -/
def null_bits (orig : PrimitiveArray α) : List Bool :=
  let num_bits := 8 * ((orig.len + 7) / 8)
  match orig.nulls with
  | some n => n.bits.take num_bits
  | none => List.replicate num_bits true

/-- After the loop: a null buffer only if some null bit is unset, rebuilt from as
many bits as there are values. -/
def finish (s : List α × List Bool) : PrimitiveArray α :=
  { values := s.1
    nulls :=
      if s.2.any (!·) then
        some (.from_bools ((List.range s.1.length).map fun i => s.2.getD i false))
      else none
    nulls_len := by
      intro n hn
      split at hn
      · obtain rfl : NullBuffer.from_bools _ = n := by simpa using hn
        simp [NullBuffer.from_bools]
      · cases hn }

def patch_primitive_array (orig patch : PrimitiveArray α) (patches : List (Nat × Nat)) :
    PrimitiveArray α :=
  finish (patches.foldl (patch_slot patch orig.len) (orig.values, null_bits orig))

/-- What slot `i` of the loop state stands for. -/
def slot (s : List α × List Bool) (i : Nat) : Option α :=
  if s.2.getD i false then s.1[i]? else none

/-- A round leaves the lengths alone and overlays one patch. -/
theorem patch_slot_spec (patch : PrimitiveArray α) {len : Nat} {s : List α × List Bool}
    (hlen : s.1.length = len) (hbits : len ≤ s.2.length) (p : Nat × Nat) :
    (patch_slot patch len s p).1.length = len
      ∧ (patch_slot patch len s p).2.length = s.2.length
      ∧ ∀ i < len, slot (patch_slot patch len s p) i
          = overlay patch.get patch.len [p] i (slot s i) := by
  obtain ⟨t, r⟩ := p
  by_cases hskip : len ≤ t ∨ patch.len ≤ r
  · have hstep : patch_slot patch len s (t, r) = s := if_pos hskip
    rw [hstep]
    refine ⟨hlen, rfl, fun i hi => ?_⟩
    have hout : ¬ (t = i ∧ r < patch.len) := by omega
    simp [overlay, hout]
  · obtain ⟨ht, hr⟩ := not_or.1 hskip
    have htbits : t < s.2.length := by omega
    have htvals : t < s.1.length := by omega
    rcases hget : patch.get r with _ | v
    · have hstep : patch_slot patch len s (t, r) = (s.1, s.2.set t false) := by
        simp [patch_slot, hskip, hget]
      rw [hstep]
      refine ⟨hlen, by simp, fun i hi => ?_⟩
      by_cases hti : t = i
      · subst hti
        simp [overlay, slot, hget, htbits, Nat.lt_of_not_le hr]
      · simp [overlay, slot, hti, List.getElem?_set_ne hti]
    · have hstep : patch_slot patch len s (t, r) = (s.1.set t v, s.2.set t true) := by
        simp [patch_slot, hskip, hget]
      rw [hstep]
      refine ⟨by simpa using hlen, by simp, fun i hi => ?_⟩
      by_cases hti : t = i
      · subst hti
        simp [overlay, slot, hget, htbits, htvals, Nat.lt_of_not_le hr]
      · simp [overlay, slot, hti, List.getElem?_set_ne hti]

/-- The loop overlays all patches. -/
theorem patch_slots_spec (patch : PrimitiveArray α) (len : Nat) (patches : List (Nat × Nat))
    {s : List α × List Bool} (hlen : s.1.length = len) (hbits : len ≤ s.2.length) :
    (patches.foldl (patch_slot patch len) s).1.length = len
      ∧ (patches.foldl (patch_slot patch len) s).2.length = s.2.length
      ∧ ∀ i < len, slot (patches.foldl (patch_slot patch len) s) i
          = overlay patch.get patch.len patches i (slot s i) := by
  induction patches generalizing s with
  | nil => exact ⟨hlen, rfl, fun _ _ => rfl⟩
  | cons p ps ih =>
      obtain ⟨hlen₁, hbits₁, hslot₁⟩ := patch_slot_spec patch hlen hbits p
      obtain ⟨hlen₂, hbits₂, hslot₂⟩ := ih hlen₁ (by omega)
      refine ⟨hlen₂, hbits₂.trans hbits₁, fun i hi => ?_⟩
      rw [List.foldl_cons, hslot₂ i hi, hslot₁ i hi]
      rfl

theorem len_le_null_bits (orig : PrimitiveArray α) : orig.len ≤ (null_bits orig).length := by
  unfold null_bits
  rcases hn : orig.nulls with _ | n
  · simp; omega
  · have hlen : n.len = orig.len := orig.nulls_len n hn
    have hfits := n.fits
    simp only [List.length_take]
    omega

/-- Before the first round the loop state stands for the array, if its null buffer
starts at bit 0. -/
theorem slot_start {orig : PrimitiveArray α} (ha : orig.Aligned) {i : Nat} (hi : i < orig.len) :
    slot (orig.values, null_bits orig) i = orig.get i := by
  have hi8 : i < 8 * ((orig.len + 7) / 8) := by omega
  unfold slot null_bits PrimitiveArray.get PrimitiveArray.is_null
  rcases hn : orig.nulls with _ | n
  · simp [hi8]
  · have hoff : n.offset = 0 := ha n hn
    simp only [NullBuffer.is_null, hoff, Nat.zero_add, Option.any_some]
    rw [List.getD_eq_getElem?_getD, List.getD_eq_getElem?_getD, List.getElem?_take, if_pos hi8]
    cases n.bits[i]?.getD false <;> simp

/-- The array that is built holds what the loop state stands for. -/
theorem get_finish {s : List α × List Bool} {i : Nat} (hvals : i < s.1.length)
    (hbits : i < s.2.length) : (finish s).get i = slot s i := by
  unfold PrimitiveArray.get PrimitiveArray.is_null finish slot
  simp only
  by_cases hany : s.2.any (!·)
  · rw [if_pos hany, Option.any_some, NullBuffer.is_null_from_bools (by simpa using hvals)]
    simp only [List.getD_eq_getElem?_getD, List.getElem?_map, List.getElem?_range hvals,
      Option.map_some, Option.getD_some]
    cases s.2[i]?.getD false <;> simp
  · -- no bit is unset, so the slot is valid on both sides
    have hset : s.2.getD i false = true := by
      have hall : ∀ b ∈ s.2, b = true := by simpa using hany
      simpa [List.getElem?_eq_getElem hbits] using hall _ (List.getElem_mem hbits)
    rw [if_neg hany, hset]
    simp

theorem aligned_finish (s : List α × List Bool) : (finish s).Aligned := by
  intro n hn
  simp only [finish] at hn
  split at hn
  · obtain rfl : NullBuffer.from_bools _ = n := by simpa using hn
    rfl
  · cases hn

theorem len_patch_primitive_array (orig patch : PrimitiveArray α) (patches : List (Nat × Nat)) :
    (patch_primitive_array orig patch patches).len = orig.len :=
  (patch_slots_spec patch orig.len patches (s := (orig.values, null_bits orig)) rfl
    (len_le_null_bits orig)).1

theorem get_patch_primitive_array {orig : PrimitiveArray α} (patch : PrimitiveArray α)
    (patches : List (Nat × Nat)) (ha : orig.Aligned) {i : Nat} (hi : i < orig.len) :
    (patch_primitive_array orig patch patches).get i
      = overlay patch.get patch.len patches i (orig.get i) := by
  have hbits := len_le_null_bits orig
  obtain ⟨hlen, hlenb, hslot⟩ := patch_slots_spec patch orig.len patches
    (s := (orig.values, null_bits orig)) rfl hbits
  rw [patch_primitive_array, get_finish (by omega) (by rw [hlenb]; exact Nat.lt_of_lt_of_le hi hbits),
    hslot i hi, slot_start ha hi]

end Primitive

/-! ## Boolean and string columns -/

section Options

variable {α : Type}

/-- `patch_boolean_array` and both instances of `patch_string_array`: read every
element, overwrite, rebuild. -/
def patch_option_array (orig patch : List (Option α)) (patches : List (Nat × Nat)) :
    List (Option α) :=
  patches.foldl
    (fun values p =>
      if p.1 < values.length ∧ p.2 < patch.length then values.set p.1 patch[p.2]?.join
      else values)
    orig

@[simp] theorem length_patch_option_array (orig patch : List (Option α))
    (patches : List (Nat × Nat)) :
    (patch_option_array orig patch patches).length = orig.length := by
  unfold patch_option_array
  induction patches generalizing orig with
  | nil => rfl
  | cons p ps ih =>
      rw [List.foldl_cons, ih]
      split <;> simp

theorem getElem?_patch_option_array (orig patch : List (Option α)) (patches : List (Nat × Nat))
    {i : Nat} (hi : i < orig.length) :
    (patch_option_array orig patch patches)[i]?.join
      = overlay (fun j => patch[j]?.join) patch.length patches i orig[i]?.join := by
  unfold patch_option_array overlay
  induction patches generalizing orig with
  | nil => rfl
  | cons p ps ih =>
      rw [List.foldl_cons, List.foldl_cons, ih _ (by split <;> simpa using hi)]
      congr 1
      by_cases hp : p.1 < orig.length ∧ p.2 < patch.length
      · rw [if_pos hp]
        by_cases hpi : p.1 = i
        · rw [if_pos ⟨hpi, hp.2⟩, hpi, List.getElem?_set_self hi]
          rfl
        · rw [if_neg (by tauto), List.getElem?_set_ne hpi]
      · rw [if_neg hp, if_neg (by rintro ⟨rfl, h⟩; exact hp ⟨hi, h⟩)]

end Options

/-! ## Columns -/

/-- Dispatch on the type of the original column; the patch column is downcast to the
same type. -/
def patch_array_values (orig patch : ArrayRef) (patches : List (Nat × Nat)) :
    ArrowStoreResult ArrayRef :=
  let primitive_mismatch := .error (.Schema "primitive patch downcast failed")
  match orig with
  | .Int64Array a =>
    match patch with
    | .Int64Array p => .ok (.Int64Array (patch_primitive_array a p patches))
    | _ => primitive_mismatch
  | .Int32Array a =>
    match patch with
    | .Int32Array p => .ok (.Int32Array (patch_primitive_array a p patches))
    | _ => primitive_mismatch
  | .UInt64Array a =>
    match patch with
    | .UInt64Array p => .ok (.UInt64Array (patch_primitive_array a p patches))
    | _ => primitive_mismatch
  | .Float64Array a =>
    match patch with
    | .Float64Array p => .ok (.Float64Array (patch_primitive_array a p patches))
    | _ => primitive_mismatch
  | .BooleanArray a =>
    match patch with
    | .BooleanArray p => .ok (.BooleanArray (patch_option_array a p patches))
    | _ => .error (.Schema "boolean patch downcast failed")
  | .StringArray a =>
    match patch with
    | .StringArray p => .ok (.StringArray (patch_option_array a p patches))
    | _ => .error (.Schema "string patch downcast failed")
  | .LargeStringArray a =>
    match patch with
    | .LargeStringArray p => .ok (.LargeStringArray (patch_option_array a p patches))
    | _ => .error (.Schema "string patch downcast failed")
  | .OtherArray type_name _ => .error (.Schema s!"unsupported patch type: {type_name}")

/-- What a patched column keeps of the original, whatever the patches are. -/
theorem patch_array_values_spec {orig patch r : ArrayRef} {patches : List (Nat × Nat)}
    (h : patch_array_values orig patch patches = .ok r) :
    r.len = orig.len ∧ r.data_type = orig.data_type ∧ r.Aligned := by
  cases orig <;> cases patch <;> cases h
  all_goals
    first
    | exact ⟨len_patch_primitive_array _ _ _, rfl, aligned_finish _⟩
    | exact ⟨length_patch_option_array _ _ _, rfl, trivial⟩

/-- What a patched column holds. -/
theorem cell_patch_array_values {orig patch r : ArrayRef} {patches : List (Nat × Nat)}
    (h : patch_array_values orig patch patches = .ok r) (ha : orig.Aligned) {i : Nat}
    (hi : i < orig.len) :
    r.cell i = overlay patch.cell patch.len patches i (orig.cell i) := by
  cases orig <;> cases patch <;> cases h <;> simp only [ArrayRef.cell]
  all_goals
    first
    | rw [get_patch_primitive_array _ _ ha hi]
    | rw [getElem?_patch_option_array _ _ _ hi]
    rw [overlay_map (fun c => Option.elim c _ _)]
    rfl

/-! ## Record batches -/

/-- `patch_batch.column(i)` panics past the patch's last column. -/
def patch_column (patch_batch : RecordBatch) (patches : List (Nat × Nat))
    (orig_array : ArrayRef × Nat) : ArrowStoreResult ArrayRef :=
  match patch_batch.columns[orig_array.2]? with
  | none => .error .Panic
  | some patch_array => patch_array_values orig_array.1 patch_array patches

/-- Rebuild every column of `original` under the patches. -/
def patch_record_batch (original patch_batch : RecordBatch) (patches : List (Nat × Nat)) :
    ArrowStoreResult RecordBatch := do
  let new_columns ← original.columns.zipIdx.mapM (patch_column patch_batch patches)
  (RecordBatch.try_new original.schema new_columns).mapError fun e =>
    .Arrow s!"rebuild patched batch: {e}"

/-- What a patched batch keeps of the original, whatever the patches are. -/
theorem patch_record_batch_spec {original patch_batch r : RecordBatch}
    {patches : List (Nat × Nat)} (h : patch_record_batch original patch_batch patches = .ok r) :
    r.schema = original.schema ∧ r.row_count = original.row_count ∧ r.Aligned := by
  obtain ⟨hschema, hcols, first, hfirst, hcount⟩ := RecordBatch.built_ok h
  have hcol : ∀ c ∈ r.columns, c.len = original.row_count ∧ c.Aligned := by
    refine mapM_ok_forall_mem hcols ?_
    rintro ⟨orig_array, k⟩ c hmem hstep
    obtain ⟨patch_array, -, hpatch⟩ : ∃ p, patch_batch.columns[k]? = some p
        ∧ patch_array_values orig_array p patches = .ok c := by
      unfold patch_column at hstep
      split at hstep
      · cases hstep
      · exact ⟨_, by assumption, hstep⟩
    obtain ⟨hl, -, ha⟩ := patch_array_values_spec hpatch
    exact ⟨hl.trans (original.column_len _ (List.fst_mem_of_mem_zipIdx hmem)), ha⟩
  exact ⟨hschema, hcount.trans (hcol first hfirst).1, fun c hc => (hcol c hc).2⟩

/-- The rows of a patched batch: the patch row where it was aimed, the original
elsewhere. -/
theorem row_patch_record_batch {original patch_batch r : RecordBatch} {t i : Nat}
    (h : patch_record_batch original patch_batch [(t, 0)] = .ok r)
    (hschema : patch_batch.schema = original.schema) (hone : patch_batch.row_count = 1)
    (ha : original.Aligned) (hi : i < original.row_count) :
    r.row i = if t = i then patch_batch.row 0 else original.row i := by
  obtain ⟨-, hcols, -⟩ := RecordBatch.built_ok h
  have hlen : r.columns.length = original.columns.length := by
    simpa using mapM_ok_length hcols
  have hlen' : patch_batch.columns.length = original.columns.length := by
    rw [patch_batch.column_count, hschema, original.column_count]
  refine List.ext_getElem ?_ fun k hk hk' => ?_
  · split <;> simp only [RecordBatch.length_row, RecordBatch.num_columns] <;> omega
  · simp only [RecordBatch.length_row, RecordBatch.num_columns] at hk
    have ho : k < original.columns.length := by omega
    have hp : k < patch_batch.columns.length := by omega
    have hmem := List.getElem_mem ho
    have hstep := mapM_ok_getElem hcols (by simpa using ho) hk
    simp only [List.getElem_zipIdx, Nat.zero_add, patch_column,
      List.getElem?_eq_getElem hp] at hstep
    have hcell := cell_patch_array_values hstep (ha _ hmem) (i := i)
      (by rw [original.column_len _ hmem]; exact hi)
    rw [patch_batch.column_len _ (List.getElem_mem hp), hone, overlay_single] at hcell
    simp only [RecordBatch.row, List.getElem_map, hcell]
    split <;> simp

/-! ## One-row patches -/

/-- The slice `array[idx..idx+1]`. -/
def slice_array_to_single (array : ArrayRef) (idx : Nat) : ArrowStoreResult ArrayRef :=
  .ok (array.slice idx 1)

def make_null_array : DataType → ArrowStoreResult ArrayRef
  | .Int64 => .ok (.Int64Array (.from_none 0))
  | .Int32 => .ok (.Int32Array (.from_none 0))
  | .UInt64 => .ok (.UInt64Array (.from_none 0))
  | .Float64 => .ok (.Float64Array (.from_none 0))
  | .Boolean => .ok (.BooleanArray [none])
  | .Utf8 => .ok (.StringArray [none])
  | .LargeUtf8 => .ok (.LargeStringArray [none])
  | .Other name => .error (.Schema s!"unsupported null array type: {name}")

/-- The patch of an update: the row as it is, with one column converted from the new
value. -/
def build_update_patch [Render] (src_batch : RecordBatch) (row_idx col_idx : Nat)
    (new_value : Json) : ArrowStoreResult RecordBatch := do
  let new_columns ← src_batch.columns.zipIdx.mapM fun (src_arr, c) =>
    if c = col_idx then json_value_to_array new_value src_arr.data_type
    else slice_array_to_single src_arr row_idx
  (RecordBatch.try_new src_batch.schema new_columns).mapError fun e =>
    .Arrow s!"build_update_patch: {e}"

/-- The patch of a delete: null where the field allows it, the row's own value where
it does not. -/
def build_null_patch (src_batch : RecordBatch) (row_idx : Nat) : ArrowStoreResult RecordBatch := do
  let new_columns ← (src_batch.columns.zip src_batch.schema.fields).mapM fun (src_arr, field) =>
    if field.nullable then make_null_array src_arr.data_type
    else slice_array_to_single src_arr row_idx
  (RecordBatch.try_new src_batch.schema new_columns).mapError fun e =>
    .Arrow s!"build_null_patch: {e}"

theorem slice_array_to_single_spec {array a : ArrayRef} {idx : Nat}
    (h : slice_array_to_single array idx = .ok a) (hidx : idx < array.len) :
    a.len = 1 ∧ a.cell 0 = array.cell idx := by
  obtain rfl : array.slice idx 1 = a := by simpa [slice_array_to_single] using h
  exact ⟨by rw [ArrayRef.len_slice]; omega, by rw [ArrayRef.cell_slice (by omega) Nat.one_pos]; rfl⟩

theorem len_make_null_array {dt : DataType} {a : ArrayRef} (h : make_null_array dt = .ok a) :
    a.len = 1 := by
  cases dt <;> cases h <;> rfl

/-- An update's patch is one row: the source row with column `col_idx` replaced. -/
theorem build_update_patch_spec [Render] {src b : RecordBatch} {row_idx col_idx : Nat}
    {new_value : Json} {f : Field} (h : build_update_patch src row_idx col_idx new_value = .ok b)
    (hrow : row_idx < src.row_count) (hf : src.schema.fields[col_idx]? = some f) :
    b.schema = src.schema ∧ b.row_count = 1
      ∧ b.row 0 = (src.row row_idx).set col_idx (json_cell new_value f.data_type) := by
  obtain ⟨hschema, hcols, first, hfirst, hcount⟩ := RecordBatch.built_ok h
  have hlen : b.columns.length = src.columns.length := by simpa using mapM_ok_length hcols
  -- column by column: the written one holds the value, the others a slice of the source
  have hcol : ∀ (k : Nat) (hb : k < b.columns.length) (hs : k < src.columns.length),
      b.columns[k].len = 1 ∧ b.columns[k].cell 0
        = if col_idx = k then json_cell new_value f.data_type else src.columns[k].cell row_idx := by
    intro k hb hs
    have hstep := mapM_ok_getElem hcols (by simpa using hs) hb
    simp only [List.getElem_zipIdx, Nat.zero_add] at hstep
    by_cases hk : k = col_idx
    · subst hk
      have hdt : src.columns[k].data_type = f.data_type := by
        have hmap := congrArg (·[k]?) src.column_types
        simpa [List.getElem?_eq_getElem hs, hf] using hmap
      rw [if_pos rfl, hdt] at hstep
      have hsingle := json_value_to_array_spec hstep
      exact ⟨hsingle.len_eq, by rw [if_pos rfl, hsingle.cell_eq]⟩
    · rw [if_neg hk] at hstep
      rw [if_neg (Ne.symm hk)]
      exact slice_array_to_single_spec hstep
        (by rw [src.column_len _ (List.getElem_mem hs)]; exact hrow)
  refine ⟨hschema, ?_, ?_⟩
  · obtain ⟨k, hk, rfl⟩ := List.getElem_of_mem hfirst
    exact hcount.trans (hcol k hk (by omega)).1
  · refine List.ext_getElem (by simp [RecordBatch.num_columns, hlen]) fun k hk hk' => ?_
    simp only [RecordBatch.length_row, RecordBatch.num_columns] at hk
    simp only [RecordBatch.row, List.getElem_map, (hcol k hk (by omega)).2, List.getElem_set]

theorem build_null_patch_spec {src b : RecordBatch} {row_idx : Nat}
    (h : build_null_patch src row_idx = .ok b) (hrow : row_idx < src.row_count) :
    b.schema = src.schema ∧ b.row_count = 1 := by
  obtain ⟨hschema, hcols, first, hfirst, hcount⟩ := RecordBatch.built_ok h
  have hone : ∀ c ∈ b.columns, c.len = 1 := by
    refine mapM_ok_forall_mem hcols ?_
    rintro ⟨src_arr, field⟩ a hmem hstep
    dsimp only at hstep
    split at hstep
    · exact len_make_null_array hstep
    · have hlen := src.column_len src_arr (List.of_mem_zip hmem).1
      exact (slice_array_to_single_spec hstep (by omega)).1
  exact ⟨hschema, hcount.trans (hone first hfirst)⟩

end Scharnhorst
