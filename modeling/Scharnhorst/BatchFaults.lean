/-
What becomes of a patched batch, for any batch, any patch and any list of patches.

A patch is laid over the target column by column, so it is refused for the first column that
has no counterpart of its own type, and after that for a null that would come to stand in a
field that forbids it. `batch_fault` is the error, read off the two batches and the list.
Where there is none, the cells are those of `patched_cell`.
-/
import Scharnhorst.PatchedCells

set_option autoImplicit false

namespace Scharnhorst

open Attempt

/-! ## Columns -/

/-- Why a column cannot be patched: the patch has no such column, or it is of another type, or
the type is none of those that the store patches. -/
def column_fault (orig : ArrayRef) (patch : Option ArrayRef) : Option ArrowStoreError :=
  match patch with
  | none => some .Panic
  | some patch =>
    match orig.data_type with
    | .Other name => some (.Schema s!"unsupported patch type: {name}")
    | .Boolean =>
      if patch.data_type = .Boolean then none
      else some (.Schema "boolean patch downcast failed")
    | .Utf8 | .LargeUtf8 =>
      if patch.data_type = orig.data_type then none
      else some (.Schema "string patch downcast failed")
    | _ =>
      if patch.data_type = orig.data_type then none
      else some (.Schema "primitive patch downcast failed")

theorem column_fault_eq_none {orig patch : ArrayRef} :
    column_fault orig (some patch) = none ↔ Supported orig patch := by
  unfold column_fault Supported
  rcases htype : orig.data_type with _ | _ | _ | _ | _ | _ | _ | name
  case Other => simp
  all_goals simp

theorem patch_array_values_error {orig patch : ArrayRef} {patches : List (Nat × Nat)}
    {e : ArrowStoreError} :
    patch_array_values orig patch patches = .error e ↔ column_fault orig (some patch) = some e := by
  cases orig <;> cases patch <;> simp [patch_array_values, column_fault, ArrayRef.data_type]

theorem patch_column_error {patch_batch : RecordBatch} {patches : List (Nat × Nat)}
    (orig_array : ArrayRef × Nat) (e : ArrowStoreError) :
    patch_column patch_batch patches orig_array = .error e ↔
      column_fault orig_array.1 patch_batch.columns[orig_array.2]? = some e := by
  unfold patch_column
  rcases patch_batch.columns[orig_array.2]? with _ | patch
  · simp [column_fault]
  · exact patch_array_values_error

/-- What the patches make of a row: the last one that names it, or what the loop starts
from. -/
def patched_cell (orig patch : ArrayRef) (patches : List (Nat × Nat)) (i : Nat) : Cell :=
  overlay patch.cell patch.len patches i (orig.start i)

/-- The column with its index and its field would have a null where none may be. -/
def nulled (patch_batch : RecordBatch) (patches : List (Nat × Nat))
    (column : (ArrayRef × Nat) × Field) : Bool :=
  !column.2.nullable && patch_batch.columns[column.1.2]?.any fun patch =>
    (List.range column.1.1.len).any fun i => patched_cell column.1.1 patch patches i = .Null

/-! ## Batches -/

/-- Why the patched columns do not make a batch: there are none, or one of them has a null. -/
def build_fault (src patch_batch : RecordBatch) (patches : List (Nat × Nat)) : Option String :=
  if src.columns = [] then
    some "Invalid argument error: must either specify a row count or at least one column"
  else
    ((src.columns.zipIdx.zip src.schema.fields).find? (nulled patch_batch patches)).map fun c =>
      s!"Invalid argument error: Column '{c.2.name}' is declared as non-nullable but contains null values"

/-- Why a batch cannot be patched. -/
def batch_fault (src patch_batch : RecordBatch) (patches : List (Nat × Nat)) :
    Option ArrowStoreError :=
  match src.columns.zipIdx.findSome? fun c => column_fault c.1 patch_batch.columns[c.2]? with
  | some e => some e
  | none => (build_fault src patch_batch patches).map fun e => .Arrow s!"rebuild patched batch: {e}"

theorem batch_fault_eq_none {src patch_batch : RecordBatch} {patches : List (Nat × Nat)} :
    batch_fault src patch_batch patches = none ↔
      (src.columns.zipIdx.findSome? fun c => column_fault c.1 patch_batch.columns[c.2]?) = none ∧
        build_fault src patch_batch patches = none := by
  unfold batch_fault
  split
  · rename_i e he
    simp only [reduceCtorEq, false_iff, not_and]
    intro hnone
    exact absurd (he.symm.trans hnone) (by simp)
  · rename_i hnone
    rw [Option.map_eq_none_iff]
    exact ⟨fun h => ⟨hnone, h⟩, fun h => h.2⟩

section

variable {src patch r : RecordBatch} {patches : List (Nat × Nat)}

/-- Two lists searched for the same thing. -/
theorem find_map_congr {α β γ : Type} {p : α → Bool} {q : β → Bool} {u : α → γ} {v : β → γ}
    {as : List α} {bs : List β} (h : List.Forall₂ (fun a b => p a = q b ∧ u a = v b) as bs) :
    (as.find? p).map u = (bs.find? q).map v := by
  induction h with
  | nil => rfl
  | @cons a b as bs hab _ ih =>
    rw [List.find?_cons, List.find?_cons, hab.1]
    split
    · simp [hab.2]
    · exact ih

/-- The columns that come out, before they are made a batch. -/
theorem patched_columns {columns : List ArrayRef}
    (h : src.columns.zipIdx.mapM (patch_column patch patches) = .ok columns) :
    columns.length = src.columns.length ∧
      ∀ k (hk : k < columns.length) (hs : k < src.columns.length), ∃ p,
        patch.columns[k]? = some p ∧ columns[k].len = src.row_count ∧
          columns[k].data_type = src.columns[k].data_type ∧
          ∀ i < src.row_count, columns[k].cell i = patched_cell src.columns[k] p patches i := by
  refine ⟨by simpa using mapM_ok_length h, ?_⟩
  intro k hk hs
  have hlen := src.column_len _ (List.getElem_mem hs)
  have hstep := mapM_ok_getElem h (by simpa using hs) hk
  simp only [List.getElem_zipIdx, Nat.zero_add, patch_column] at hstep
  rcases hp : patch.columns[k]? with _ | p
  · simp [hp] at hstep
  · simp only [hp] at hstep
    obtain ⟨hl, ht, -⟩ := patch_array_values_spec hstep
    refine ⟨p, rfl, hl.trans hlen, ht, ?_⟩
    intro i hi
    exact cell_patched hstep (by omega)

/-- The search for a null, over the new columns and over the old ones. -/
theorem null_in_patched_columns {columns : List ArrayRef}
    (h : src.columns.zipIdx.mapM (patch_column patch patches) = .ok columns) :
    null_in_non_nullable src.schema columns =
      ((src.columns.zipIdx.zip src.schema.fields).find? (nulled patch patches)).map (·.2) := by
  obtain ⟨hlen, hcolumn⟩ := patched_columns h
  unfold null_in_non_nullable
  apply find_map_congr
  rw [List.forall₂_iff_get]
  refine ⟨by simp [hlen], ?_⟩
  intro k hk hk'
  simp only [List.length_zip] at hk
  obtain ⟨p, hp, hl, -, hcell⟩ := hcolumn k (by omega) (by omega)
  have hs := src.column_len _ (List.getElem_mem (show k < src.columns.length by omega))
  simp only [List.get_eq_getElem, List.getElem_zip, List.getElem_zipIdx, Nat.zero_add, nulled,
    hp, Option.any_some, ArrayRef.has_nulls, hl, hs, and_true]
  rw [Bool.eq_iff_iff]
  simp only [Bool.and_eq_true, List.any_eq_true, List.mem_range, decide_eq_true_eq]
  constructor
  · rintro ⟨hforbidden, i, hi, hzero⟩
    exact ⟨hforbidden, i, hi, by rw [← hcell i hi, hzero]⟩
  · rintro ⟨hforbidden, i, hi, hzero⟩
    exact ⟨hforbidden, i, hi, by rw [hcell i hi, hzero]⟩

theorem types_patched_columns {columns : List ArrayRef}
    (h : src.columns.zipIdx.mapM (patch_column patch patches) = .ok columns) :
    columns.map ArrayRef.data_type = src.schema.fields.map Field.data_type := by
  obtain ⟨hlen, hcolumn⟩ := patched_columns h
  rw [← src.column_types]
  apply List.ext_getElem
  · simp [hlen]
  · intro k hk hk'
    simp only [List.length_map] at hk hk'
    obtain ⟨-, -, -, ht, -⟩ := hcolumn k hk hk'
    simpa using ht

/-- The columns make a batch unless there are none, or one has a null that may not be. -/
theorem try_patched_columns {columns : List ArrayRef} {message : String}
    (h : src.columns.zipIdx.mapM (patch_column patch patches) = .ok columns) :
    RecordBatch.try_new src.schema columns = .error message ↔
      build_fault src patch patches = some message := by
  obtain ⟨hlen, hcolumn⟩ := patched_columns h
  have hfields : src.columns.length = src.schema.fields.length := src.column_count
  have hnull := null_in_patched_columns h
  have htypes := types_patched_columns h
  unfold build_fault
  by_cases hnil : src.columns = []
  · have hcolumns : columns = [] := by
      apply List.length_eq_zero_iff.1
      simp [hlen, hnil]
    have hcount : ([] : List ArrayRef).length = src.schema.fields.length := by
      rw [← hfields, hnil]
    rw [if_pos hnil, hcolumns, RecordBatch.try_new, dif_pos hcount]
    simp
  · rw [if_neg hnil]
    rcases hfind : (src.columns.zipIdx.zip src.schema.fields).find? (nulled patch patches) with
      _ | c
    · -- nothing is wrong, so the batch is built
      rw [hfind, Option.map_none] at hnull
      have hbuilt : ∃ b, RecordBatch.try_new src.schema columns = .ok b := by
        apply RecordBatch.exists_try_new.2
        refine ⟨?_, htypes, hnull, src.row_count, ?_⟩
        · rintro rfl
          exact hnil (List.length_eq_zero_iff.1 hlen.symm)
        · intro column hc
          obtain ⟨k, hk, rfl⟩ := List.getElem_of_mem hc
          exact (hcolumn k hk (by omega)).choose_spec.2.1
      obtain ⟨b, hb⟩ := hbuilt
      simp [hb]
    · rw [hfind, Option.map_some] at hnull
      obtain ⟨first, rest, rfl⟩ : ∃ first rest, columns = first :: rest := by
        apply List.exists_cons_of_ne_nil
        rintro rfl
        exact hnil (List.length_eq_zero_iff.1 hlen.symm)
      have hcount : (first :: rest).length = src.schema.fields.length := hlen.trans hfields
      rw [RecordBatch.try_new, dif_pos hcount]
      simp only [List.head?_cons]
      split
      · rename_i f hf
        rw [hnull, Option.some.injEq] at hf
        simp [hf]
      · rename_i hnone
        rw [hnull] at hnone
        cases hnone

/-- A batch is refused for its fault and for nothing else. -/
theorem patch_record_batch_error_iff {e : ArrowStoreError} :
    patch_record_batch src patch patches = .error e ↔ batch_fault src patch patches = some e := by
  have hmapM : ∀ e, src.columns.zipIdx.mapM (patch_column patch patches) = .error e ↔
      (src.columns.zipIdx.findSome? fun c => column_fault c.1 patch.columns[c.2]?) = some e :=
    fun _ => mapM_error_iff patch_column_error
  unfold patch_record_batch batch_fault
  -- the columns are converted first, and only then is the batch of them checked
  rcases hcolumns : src.columns.zipIdx.mapM (patch_column patch patches) with e' | columns
  · rw [(hmapM e').1 hcolumns]
    simp [bind, Except.bind]
  · have hfault : src.columns.zipIdx.findSome?
        (fun c => column_fault c.1 patch.columns[c.2]?) = none := by
      by_contra hsome
      obtain ⟨e', he'⟩ := Option.ne_none_iff_exists'.1 hsome
      rw [(hmapM e').2 he'] at hcolumns
      cases hcolumns
    have htry : ∀ message, RecordBatch.try_new src.schema columns = .error message ↔
        build_fault src patch patches = some message := fun _ => try_patched_columns hcolumns
    rw [hfault]
    simp only [bind, Except.bind]
    rcases hb : RecordBatch.try_new src.schema columns with message | b
    · rw [(htry message).1 hb]
      simp [Except.mapError]
    · have hbuilt : build_fault src patch patches = none := by
        by_contra hsome
        obtain ⟨message, hmessage⟩ := Option.ne_none_iff_exists'.1 hsome
        rw [(htry message).2 hmessage] at hb
        cases hb
      simp [hbuilt, Except.mapError]

theorem exists_patched_iff :
    (∃ r, patch_record_batch src patch patches = .ok r) ↔ batch_fault src patch patches = none := by
  rcases hpatch : patch_record_batch src patch patches with e | r
  · simp [patch_record_batch_error_iff.1 hpatch]
  · simp only [Except.ok.injEq, exists_eq', true_iff]
    by_contra hsome
    obtain ⟨e, he⟩ := Option.ne_none_iff_exists'.1 hsome
    rw [patch_record_batch_error_iff.2 he] at hpatch
    cases hpatch

/-- And a batch without a fault gets the patched cells. -/
theorem patched_batch_cell (h : patch_record_batch src patch patches = .ok r) {k : Nat}
    (hk : k < r.columns.length) (hs : k < src.columns.length) :
    ∃ p, patch.columns[k]? = some p ∧
      ∀ i < src.row_count, r.columns[k].cell i = patched_cell src.columns[k] p patches i := by
  obtain ⟨-, hcols, -⟩ := RecordBatch.built_ok h
  obtain ⟨-, hcolumn⟩ := patched_columns hcols
  obtain ⟨p, hp, -, -, hcell⟩ := hcolumn k hk hs
  exact ⟨p, hp, hcell⟩

end

/-! ## One row

A diff patches one row, and with a patch of the batch's own schema. -/

section

variable {src patch : RecordBatch} {t : Nat}

/-- A value is lost by the loop if and only if the bit that is copied for it is another's. -/
theorem start_eq_null_iff {a : ArrayRef} {i : Nat} (hi : i < a.len) (hvalue : a.cell i ≠ .Null) :
    a.start i = .Null ↔ ¬ a.InPlace i := by
  -- what the loop starts from is the value or nothing
  have hone : a.start i = .Null ∨ a.start i = a.cell i := by
    have hslot : ∀ {α : Type} (p : PrimitiveArray α) (wrap : α → Cell),
        (p.get i).elim .Null wrap ≠ .Null →
          (slot (p.values, null_bits p) i).elim .Null wrap = .Null ∨
            (slot (p.values, null_bits p) i).elim .Null wrap = (p.get i).elim .Null wrap := by
      intro α p wrap hget
      unfold slot
      by_cases hbit : (null_bits p).getD i false
      · right
        rw [if_pos hbit, PrimitiveArray.get]
        by_cases hnull : p.is_null i
        · rw [PrimitiveArray.get, if_pos hnull] at hget
          exact absurd rfl hget
        · rw [if_neg hnull]
      · left
        rw [if_neg hbit]
        rfl
    rcases a with p | p | p | p | p | p | p | p
    · exact hslot p _ hvalue
    · exact hslot p _ hvalue
    · exact hslot p _ hvalue
    · exact hslot p _ hvalue
    all_goals exact .inr rfl
  rw [← start_eq_iff hi]
  constructor
  · intro hnull hsame
    exact hvalue (hsame.symm.trans hnull)
  · intro hne
    exact hone.resolve_right hne

/-- Column by column, only a type that the store does not patch is in the way. -/
theorem column_fault_eq_none_iff (hschema : patch.schema = src.schema) {k : Nat}
    (hf : k < src.schema.fields.length) (hc : k < src.columns.length) :
    column_fault src.columns[k] patch.columns[k]? = none ↔
      ∀ name, src.schema.fields[k].data_type ≠ .Other name := by
  have hp : k < patch.columns.length := by rw [patch.column_count, hschema]; exact hf
  have hpf : k < patch.schema.fields.length := by rw [hschema]; exact hf
  have hptype := (patch.column_spec hpf hp).1
  simp only [hschema] at hptype
  have htype := (src.column_spec hf hc).1
  rw [List.getElem?_eq_getElem hp, column_fault_eq_none, Supported, hptype, htype]
  simp

/-- The patched row itself gets no null that may not be, since the patch has none. -/
theorem nulled_eq_false_iff (hschema : patch.schema = src.schema) (hone : patch.row_count = 1)
    {k : Nat} (hf : k < src.schema.fields.length) (hc : k < src.columns.length) :
    nulled patch [(t, 0)] ((src.columns[k], k), src.schema.fields[k]) = false ↔
      (src.schema.fields[k].nullable = false →
        ∀ i < src.row_count, i ≠ t → src.columns[k].InPlace i) := by
  have hp : k < patch.columns.length := by rw [patch.column_count, hschema]; exact hf
  have hpf : k < patch.schema.fields.length := by rw [hschema]; exact hf
  obtain ⟨-, hplen, hpnull⟩ := patch.column_spec hpf hp
  simp only [hschema] at hpnull
  obtain ⟨-, hlen, hnull⟩ := src.column_spec hf hc
  have hcell : ∀ i, patched_cell src.columns[k] patch.columns[k] [(t, 0)] i =
      if t = i then patch.columns[k].cell 0 else src.columns[k].start i := by
    intro i
    rw [patched_cell, hplen, hone, overlay_single]
  unfold nulled
  dsimp only
  rw [List.getElem?_eq_getElem hp, Option.any_some]
  cases hnullable : src.schema.fields[k].nullable
  case true => simp
  simp only [Bool.not_false, Bool.true_and, forall_const, List.any_eq_false, List.mem_range,
    decide_eq_true_eq, hlen, hcell]
  constructor
  · intro h i hi hit
    have hstart := h i hi
    rw [if_neg (Ne.symm hit), start_eq_null_iff (by omega) (hnull i hi hnullable)] at hstart
    exact not_not.1 hstart
  · intro h i hi
    by_cases hit : t = i
    · rw [if_pos hit]
      exact hpnull 0 (by omega) hnullable
    · rw [if_neg hit, start_eq_null_iff (by omega) (hnull i hi hnullable)]
      exact not_not.2 (h i hi (Ne.symm hit))

theorem columns_fault_eq_none_iff (hschema : patch.schema = src.schema) :
    (src.columns.zipIdx.findSome? fun c => column_fault c.1 patch.columns[c.2]?) = none ↔
      ∀ f ∈ src.schema.fields, ∀ name, f.data_type ≠ .Other name := by
  have hcount := src.column_count
  rw [List.findSome?_eq_none_iff]
  constructor
  · intro h f hf
    obtain ⟨k, hk, rfl⟩ := List.getElem_of_mem hf
    have hc : k < src.columns.length := by omega
    refine (column_fault_eq_none_iff hschema hk hc).1 (h (src.columns[k], k) ?_)
    simp [List.mem_zipIdx_iff_getElem?, hc]
  · rintro h ⟨c, k⟩ hmem
    have hat : src.columns[k]? = some c := List.mem_zipIdx_iff_getElem?.1 hmem
    obtain ⟨hc, rfl⟩ := List.getElem?_eq_some_iff.1 hat
    exact (column_fault_eq_none_iff hschema (by omega) hc).2 (h _ (List.getElem_mem _))

theorem build_fault_eq_none_iff (hschema : patch.schema = src.schema) (hone : patch.row_count = 1)
    (hne : src.columns ≠ []) :
    build_fault src patch [(t, 0)] = none ↔
      ∀ k (hf : k < src.schema.fields.length) (hc : k < src.columns.length),
        src.schema.fields[k].nullable = false →
          ∀ i < src.row_count, i ≠ t → src.columns[k].InPlace i := by
  rw [build_fault, if_neg hne, Option.map_eq_none_iff, List.find?_eq_none]
  constructor
  · intro h k hf hc
    rw [← nulled_eq_false_iff hschema hone hf hc]
    refine Bool.eq_false_iff.2 (h ((src.columns[k], k), src.schema.fields[k]) ?_)
    apply List.mem_of_getElem? (i := k)
    rw [List.getElem?_zip_eq_some]
    simp [hf, hc]
  · intro h c hmem
    obtain ⟨k, hk, rfl⟩ := List.getElem_of_mem hmem
    simp only [List.length_zip, List.length_zipIdx] at hk
    simp only [List.getElem_zip, List.getElem_zipIdx, Nat.zero_add]
    rw [Bool.not_eq_true, nulled_eq_false_iff hschema hone (by omega) (by omega)]
    exact h k (by omega) (by omega)

/-- The batch takes a row of its own schema if the store patches all its types, and no other
row of a column without nulls becomes null by it. -/
theorem takes_row_iff (hschema : patch.schema = src.schema) (hone : patch.row_count = 1)
    (hne : src.columns ≠ []) :
    batch_fault src patch [(t, 0)] = none ↔
      (∀ f ∈ src.schema.fields, ∀ name, f.data_type ≠ .Other name) ∧
        ∀ k (hf : k < src.schema.fields.length) (hc : k < src.columns.length),
          src.schema.fields[k].nullable = false →
            ∀ i < src.row_count, i ≠ t → src.columns[k].InPlace i := by
  rw [batch_fault_eq_none, columns_fault_eq_none_iff hschema,
    build_fault_eq_none_iff hschema hone hne]

end

end Scharnhorst
