/-
What a patch leaves of the cells it was not aimed at.

Boolean and string columns are read element by element, so nothing is lost. A primitive column
is rebuilt from its values and from the bytes of its null buffer, and those are copied from the
start of the buffer, wherever in it the column begins. An untouched row then keeps its null if
and only if the bit at its own place says what the bit at the column's place says.
-/
import Mathlib.Data.List.Induction
import Scharnhorst.Legal
import Scharnhorst.Refinement

set_option autoImplicit false

namespace Scharnhorst

open Attempt

/-! ## The last patch of a row -/

/-- Some patch names the row, from inside the patch array. -/
def Targeted (patch_len : Nat) (patches : List (Nat × Nat)) (i : Nat) : Prop :=
  ∃ p ∈ patches, p.1 = i ∧ p.2 < patch_len

instance (n : Nat) (patches : List (Nat × Nat)) (i : Nat) : Decidable (Targeted n patches i) :=
  inferInstanceAs (Decidable (∃ _ ∈ _, _))

/-- The patch row of the last one. -/
def last_patch (patch_len : Nat) (patches : List (Nat × Nat)) (i : Nat) : Option Nat :=
  ((patches.filter fun p => p.1 = i ∧ p.2 < patch_len).getLast?).map Prod.snd

section

variable {β : Type} (patch : Nat → β) (n : Nat)

theorem overlay_concat (patches : List (Nat × Nat)) (p : Nat × Nat) (i : Nat) (old : β) :
    overlay patch n (patches ++ [p]) i old =
      if p.1 = i ∧ p.2 < n then patch p.2 else overlay patch n patches i old := by
  simp only [overlay, List.foldl_append, List.foldl_cons, List.foldl_nil]

/-- Patches in order, and the last one that counts, come to the same. -/
theorem overlay_eq_last (patches : List (Nat × Nat)) (i : Nat) (old : β) :
    overlay patch n patches i old = (last_patch n patches i).elim old patch := by
  induction patches using List.reverseRecOn with
  | nil => rfl
  | append_singleton ps p ih =>
    rw [overlay_concat, last_patch, List.filter_append]
    by_cases hp : p.1 = i ∧ p.2 < n
    · simp [hp]
    · rw [if_neg hp, ih, last_patch]
      simp [hp]

/-- What a row held before matters only if nothing is aimed at it. -/
theorem overlay_eq_iff {patches : List (Nat × Nat)} {i : Nat} {old old' : β} :
    overlay patch n patches i old = overlay patch n patches i old' ↔
      (¬ Targeted n patches i → old = old') := by
  induction patches using List.reverseRecOn with
  | nil => simp [overlay, Targeted]
  | append_singleton ps p ih =>
    rw [overlay_concat, overlay_concat]
    by_cases hp : p.1 = i ∧ p.2 < n
    · have htarget : Targeted n (ps ++ [p]) i := ⟨p, by simp, hp⟩
      simp [hp, htarget]
    · rw [if_neg hp, if_neg hp, ih]
      have hsame : Targeted n (ps ++ [p]) i ↔ Targeted n ps i := by
        simp only [Targeted, List.mem_append, List.mem_singleton]
        constructor
        · rintro ⟨q, hq | rfl, hhit⟩
          · exact ⟨q, hq, hhit⟩
          · exact absurd hhit hp
        · rintro ⟨q, hq, hhit⟩
          exact ⟨q, .inl hq, hhit⟩
      rw [hsame]

end

/-! ## Primitive columns -/

section Primitive

variable {α : Type}

/-- Row `i` is as valid by the bit that is copied as by its own. -/
def PrimitiveArray.InPlace (a : PrimitiveArray α) (i : Nat) : Prop :=
  ∀ n ∈ a.nulls, n.bits.getD i false = n.bits.getD (n.offset + i) false

/-- What the loop starts from, for a row. -/
theorem slot_start_iff {orig : PrimitiveArray α} {i : Nat} (hi : i < orig.len) :
    slot (orig.values, null_bits orig) i = orig.get i ↔ orig.InPlace i := by
  have hi8 : i < 8 * ((orig.len + 7) / 8) := by omega
  have hvalue : orig.values[i]? = some orig.values[i] := List.getElem?_eq_getElem hi
  -- the copied bits are those of the buffer from its own start
  unfold slot null_bits PrimitiveArray.get PrimitiveArray.is_null PrimitiveArray.InPlace
  rcases hn : orig.nulls with _ | n
  · simp [hi8]
  · have htake : (n.bits.take (8 * ((orig.len + 7) / 8))).getD i false = n.bits.getD i false := by
      rw [List.getD_eq_getElem?_getD, List.getD_eq_getElem?_getD, List.getElem?_take, if_pos hi8]
    simp only [htake, Option.any_some, NullBuffer.is_null, hvalue, Option.mem_some_iff,
      forall_eq']
    rcases n.bits.getD i false <;> rcases n.bits.getD (n.offset + i) false <;> simp

/-- A patched column, whatever its null buffer. -/
theorem get_patched (orig patch : PrimitiveArray α) (patches : List (Nat × Nat)) {i : Nat}
    (hi : i < orig.len) :
    (patch_primitive_array orig patch patches).get i =
      overlay patch.get patch.len patches i (slot (orig.values, null_bits orig) i) := by
  have hbits := len_le_null_bits orig
  obtain ⟨hlen, hlenb, hslot⟩ := patch_slots_spec patch orig.len patches
    (s := (orig.values, null_bits orig)) rfl hbits
  have hvals : i < (patches.foldl (patch_slot patch orig.len) (orig.values, null_bits orig)).1.length := by
    rw [hlen]
    exact hi
  have hin : i < (patches.foldl (patch_slot patch orig.len) (orig.values, null_bits orig)).2.length := by
    rw [hlenb]
    exact Nat.lt_of_lt_of_le hi hbits
  rw [patch_primitive_array, get_finish hvals hin, hslot i hi]

end Primitive

/-! ## Columns -/

/-- Row `i` is where the patch functions look for it. -/
def ArrayRef.InPlace : ArrayRef → Nat → Prop
  | .Int64Array a, i => a.InPlace i
  | .Int32Array a, i => a.InPlace i
  | .UInt64Array a, i => a.InPlace i
  | .Float64Array a, i => a.InPlace i
  | _, _ => True

/-- What a patch of the column starts from, for a row. -/
def ArrayRef.start : ArrayRef → Nat → Cell
  | .Int64Array a, i => (slot (a.values, null_bits a) i).elim .Null .Int64
  | .Int32Array a, i => (slot (a.values, null_bits a) i).elim .Null .Int32
  | .UInt64Array a, i => (slot (a.values, null_bits a) i).elim .Null .UInt64
  | .Float64Array a, i => (slot (a.values, null_bits a) i).elim .Null .Float64
  | a, i => a.cell i

/-- A cell is null or holds its value, so the slots are compared. -/
theorem elim_slot_iff {α : Type} {wrap : α → Cell} (hinj : Function.Injective wrap)
    (hnull : ∀ v, wrap v ≠ .Null) {a : PrimitiveArray α} {i : Nat} (hi : i < a.len) :
    (slot (a.values, null_bits a) i).elim .Null wrap = (a.get i).elim .Null wrap ↔ a.InPlace i := by
  rw [← slot_start_iff hi]
  rcases slot (a.values, null_bits a) i with _ | v <;> rcases a.get i with _ | w
  · simp
  · simpa using (hnull w).symm
  · simpa using hnull v
  · simp [hinj.eq_iff]

theorem start_eq_iff {a : ArrayRef} {i : Nat} (hi : i < a.len) :
    a.start i = a.cell i ↔ a.InPlace i := by
  rcases a with a | a | a | a | a | a | a | a
  · exact elim_slot_iff (fun v w h => Cell.Int64.inj h) (fun v h => by cases h) hi
  · exact elim_slot_iff (fun v w h => Cell.Int32.inj h) (fun v h => by cases h) hi
  · exact elim_slot_iff (fun v w h => Cell.UInt64.inj h) (fun v h => by cases h) hi
  · exact elim_slot_iff (fun v w h => Cell.Float64.inj h) (fun v h => by cases h) hi
  all_goals exact ⟨fun _ => trivial, fun _ => rfl⟩

/-- What a patched column holds, wherever its null buffer begins. -/
theorem cell_patched {orig patch r : ArrayRef} {patches : List (Nat × Nat)}
    (h : patch_array_values orig patch patches = .ok r) {i : Nat} (hi : i < orig.len) :
    r.cell i = overlay patch.cell patch.len patches i (orig.start i) := by
  cases orig <;> cases patch <;> cases h <;> simp only [ArrayRef.cell, ArrayRef.start]
  all_goals
    first
    | rw [get_patched _ _ _ hi]
    | rw [getElem?_patch_option_array _ _ _ hi]
    rw [overlay_map (fun c => Option.elim c _ _)]
    rfl

/-- A patch that changes its targets and nothing else. -/
structure PatchesExactly (orig patch : ArrayRef) (patches : List (Nat × Nat)) (r : ArrayRef) :
    Prop where
  len_eq : r.len = orig.len
  cells : ∀ i < orig.len,
    r.cell i = (last_patch patch.len patches i).elim (orig.cell i) patch.cell

/-- The columns that a patch can be applied to, and the patches that fit them. -/
def Supported (orig patch : ArrayRef) : Prop :=
  patch.data_type = orig.data_type ∧ ∀ name, orig.data_type ≠ .Other name

/-- A patch is exact if and only if every row that it is not aimed at is in place. -/
theorem patches_exactly_iff {orig patch : ArrayRef} (hsupported : Supported orig patch)
    (patches : List (Nat × Nat)) :
    (∃ r, patch_array_values orig patch patches = .ok r ∧ PatchesExactly orig patch patches r) ↔
      ∀ i < orig.len, ¬ Targeted patch.len patches i → orig.InPlace i := by
  obtain ⟨r, hr⟩ := exists_patch_array patches hsupported.1 hsupported.2
  -- one cell at a time: what the last patch leaves is the start of the loop
  have hcell : ∀ i < orig.len,
      r.cell i = (last_patch patch.len patches i).elim (orig.cell i) patch.cell ↔
        (¬ Targeted patch.len patches i → orig.InPlace i) := by
    intro i hi
    rw [cell_patched hr hi, ← overlay_eq_last, overlay_eq_iff, start_eq_iff hi]
  constructor
  · rintro ⟨r', hr', hexact⟩ i hi
    obtain rfl := Except.ok.inj (hr.symm.trans hr')
    exact (hcell i hi).1 (hexact.cells i hi)
  · intro h
    refine ⟨r, hr, (patch_array_values_spec hr).1, ?_⟩
    intro i hi
    exact (hcell i hi).2 (h i hi)

/-! ## Batches -/

section Batches

variable {src patch r : RecordBatch} {t col : Nat}

/-- A cell of a batch that one row was patched into. -/
theorem cell_patched_batch (h : patch_record_batch src patch [(t, 0)] = .ok r)
    (hone : patch.row_count = 1) {k : Nat}
    (hs : k < src.columns.length) (hr : k < r.columns.length) (hp : k < patch.columns.length)
    {i : Nat} (hi : i < src.row_count) :
    r.columns[k].cell i = if t = i then patch.columns[k].cell 0 else src.columns[k].start i := by
  obtain ⟨-, hcols, -⟩ := RecordBatch.built_ok h
  have hmem := List.getElem_mem hs
  have hstep := mapM_ok_getElem hcols (by simpa using hs) hr
  simp only [List.getElem_zipIdx, Nat.zero_add, patch_column, List.getElem?_eq_getElem hp] at hstep
  have hcell := cell_patched hstep (i := i) (by rw [src.column_len _ hmem]; exact hi)
  rw [patch.column_len _ (List.getElem_mem hp), hone, overlay_single] at hcell
  exact hcell

/-- Two batches of one schema agree on a row if their columns do. -/
theorem row_eq_iff (hlen : r.columns.length = src.columns.length) {i : Nat} :
    r.row i = src.row i ↔
      ∀ k (hr : k < r.columns.length) (hs : k < src.columns.length),
        r.columns[k].cell i = src.columns[k].cell i := by
  constructor
  · intro h k hr hs
    have hat := congrArg (·[k]?) h
    simpa [RecordBatch.row, List.getElem?_eq_getElem hr, List.getElem?_eq_getElem hs] using hat
  · intro h
    refine List.ext_getElem (by simp [RecordBatch.num_columns, hlen]) ?_
    intro k hk hk'
    simp only [RecordBatch.length_row, RecordBatch.num_columns] at hk hk'
    simpa [RecordBatch.row] using h k hk hk'

/-- Everything but the patched row is kept if and only if it is in place. -/
theorem rest_kept_iff (h : patch_record_batch src patch [(t, 0)] = .ok r)
    (hschema : patch.schema = src.schema) (hone : patch.row_count = 1) :
    (∀ i < src.row_count, i ≠ t → r.row i = src.row i) ↔
      ∀ c ∈ src.columns, ∀ i < src.row_count, i ≠ t → c.InPlace i := by
  obtain ⟨-, hcols, -⟩ := RecordBatch.built_ok h
  have hlen : r.columns.length = src.columns.length := by simpa using mapM_ok_length hcols
  have hlenp : patch.columns.length = src.columns.length := by
    rw [patch.column_count, hschema, src.column_count]
  -- the patch array has one row, so only the target is patched
  have hplace : ∀ k (hr : k < r.columns.length) (hs : k < src.columns.length),
      ∀ i < src.row_count, i ≠ t →
        (r.columns[k].cell i = src.columns[k].cell i ↔ src.columns[k].InPlace i) := by
    intro k hr hs i hi hne
    rw [cell_patched_batch h hone hs hr (by omega) hi, if_neg (Ne.symm hne), start_eq_iff]
    rw [src.column_len _ (List.getElem_mem hs)]
    exact hi
  constructor
  · intro hkept c hc i hi hne
    obtain ⟨k, hs, rfl⟩ := List.getElem_of_mem hc
    have hr : k < r.columns.length := by omega
    exact (hplace k hr hs i hi hne).1 ((row_eq_iff hlen).1 (hkept i hi hne) k hr hs)
  · intro hall i hi hne
    apply (row_eq_iff hlen).2
    intro k hr hs
    exact (hplace k hr hs i hi hne).2 (hall _ (List.getElem_mem hs) i hi hne)

/-- The patched row is the patch. -/
theorem patched_row (h : patch_record_batch src patch [(t, 0)] = .ok r)
    (hschema : patch.schema = src.schema) (hone : patch.row_count = 1) (ht : t < src.row_count) :
    r.row t = patch.row 0 := by
  obtain ⟨-, hcols, -⟩ := RecordBatch.built_ok h
  have hlen : r.columns.length = src.columns.length := by simpa using mapM_ok_length hcols
  have hlenp : patch.columns.length = src.columns.length := by
    rw [patch.column_count, hschema, src.column_count]
  refine List.ext_getElem (by simp [RecordBatch.num_columns, hlen, hlenp]) ?_
  intro k hk hk'
  simp only [RecordBatch.length_row, RecordBatch.num_columns] at hk hk'
  have hcell := cell_patched_batch h hone (show k < src.columns.length by omega) hk hk' ht
  rw [if_pos rfl] at hcell
  simpa [RecordBatch.row] using hcell

/-- An update of one cell that leaves the rest of the batch as it was. -/
structure UpdatesOneCell [Render] (src : RecordBatch) (t col : Nat) (f : Field) (value : Json)
    (r : RecordBatch) : Prop where
  rows : r.row_count = src.row_count
  updated : r.row t = (src.row t).set col (json_cell value f.data_type)
  kept : ∀ i < src.row_count, i ≠ t → r.row i = src.row i

theorem updates_one_cell_iff [Render] {f : Field} {value : Json}
    (hbuild : build_update_patch src t col value = .ok patch)
    (h : patch_record_batch src patch [(t, 0)] = .ok r) (ht : t < src.row_count)
    (hf : src.schema.fields[col]? = some f) :
    UpdatesOneCell src t col f value r ↔
      ∀ c ∈ src.columns, ∀ i < src.row_count, i ≠ t → c.InPlace i := by
  obtain ⟨hschema, hone, hrow⟩ := build_update_patch_spec hbuild ht hf
  rw [← rest_kept_iff h hschema hone]
  constructor
  · intro hexact
    exact hexact.kept
  · intro hkept
    exact ⟨(patch_record_batch_spec h).2.1, (patched_row h hschema hone ht).trans hrow, hkept⟩

end Batches

/-! ## Both levels -/

/-- A patch of a column, and an update of a batch, change what they are aimed at and nothing
else if and only if every other row is in place. -/
theorem patching_exact_iff {orig patch : ArrayRef} (hsupported : Supported orig patch)
    (patches : List (Nat × Nat)) :
    ((∃ r, patch_array_values orig patch patches = .ok r ∧ PatchesExactly orig patch patches r) ↔
        ∀ i < orig.len, ¬ Targeted patch.len patches i → orig.InPlace i) ∧
      ∀ [Render] (src update r : RecordBatch) (t col : Nat) (f : Field) (value : Json),
        build_update_patch src t col value = .ok update →
        patch_record_batch src update [(t, 0)] = .ok r → t < src.row_count →
        src.schema.fields[col]? = some f →
        (UpdatesOneCell src t col f value r ↔
          ∀ c ∈ src.columns, ∀ i < src.row_count, i ≠ t → c.InPlace i) := by
  refine ⟨patches_exactly_iff hsupported patches, ?_⟩
  intro _ src update r t col f value hbuild h ht hf
  exact updates_one_cell_iff hbuild h ht hf

/-- Two values, the first of them null. -/
def null_and_five : PrimitiveArray Int64 where
  values := [0, 5]
  nulls := some (.from_bools [false, true])
  nulls_len := by decide

def amount : Field := { name := "amount", data_type := .Int64, nullable := true }

def two_amounts : RecordBatch where
  schema := ⟨[amount]⟩
  columns := [.Int64Array null_and_five]
  row_count := 2
  column_types := rfl
  column_len := by decide
  non_nullable := by decide

section

attribute [local instance] plain_text

/-- The second value is patched, and the first one stays null. -/
theorem null_and_five_patched :
    (∃ r, patch_array_values (.Int64Array null_and_five) (.Int64Array (.from_value 9)) [(1, 0)] =
        .ok r ∧ PatchesExactly (.Int64Array null_and_five) (.Int64Array (.from_value 9)) [(1, 0)] r) ∧
      ∃ update r, build_update_patch two_amounts 1 0 (number 9) = .ok update ∧
        patch_record_batch two_amounts update [(1, 0)] = .ok r ∧
        UpdatesOneCell two_amounts 1 0 amount (number 9) r := by
  have hplace : ∀ i, (ArrayRef.Int64Array null_and_five).InPlace i := by
    intro i n hn
    rw [← Option.some.inj hn]
    simp [NullBuffer.from_bools]
  have hsupported : Supported (.Int64Array null_and_five) (.Int64Array (.from_value 9)) :=
    ⟨rfl, fun name h => by cases h⟩
  obtain ⟨hcolumn, hbatch⟩ := patching_exact_iff hsupported [(1, 0)]
  refine ⟨?_, _, _, rfl, rfl, ?_⟩
  · exact hcolumn.2 fun i _ _ => hplace i
  · apply (hbatch two_amounts _ _ 1 0 amount (number 9) rfl rfl (by decide) rfl).2
    intro c hc i _ _
    rw [List.mem_singleton.1 hc]
    exact hplace i

end

/-- `[null, 5, 7]` without its first value: five and seven, under a null buffer that begins at
its second bit. -/
def five_and_seven : ArrayRef :=
  (ArrayRef.Int64Array
    { values := [0, 5, 7], nulls := some (.from_bools [false, true, true]),
      nulls_len := by decide }).slice 1 2

/-- The seven is patched, and the five becomes null. -/
theorem untouched_five_nulled :
    Supported five_and_seven (.Int64Array (.from_value 9)) ∧
      five_and_seven.cell 0 = .Int64 5 ∧
      (∃ r, patch_array_values five_and_seven (.Int64Array (.from_value 9)) [(1, 0)] = .ok r ∧
        r.cell 0 = .Null) ∧
      ¬ ∃ r, patch_array_values five_and_seven (.Int64Array (.from_value 9)) [(1, 0)] = .ok r ∧
        PatchesExactly five_and_seven (.Int64Array (.from_value 9)) [(1, 0)] r := by
  have hfive : five_and_seven.cell 0 = .Int64 5 := by decide
  refine ⟨⟨rfl, fun name h => by cases h⟩, hfive, ⟨_, rfl, by decide⟩, ?_⟩
  rintro ⟨r, hr, hexact⟩
  have hkept := hexact.cells 0 (by decide)
  rw [← Except.ok.inj hr, hfive] at hkept
  revert hkept
  decide

end Scharnhorst
