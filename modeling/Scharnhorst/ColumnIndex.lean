/-
The index of the columns of a table spec.

`with_column` refuses a name that the index has, so a spec that is built by it has every
name once, and its index maps the names to the positions of their columns. The other way
to a spec is to read one from a text. The reader takes the columns as they are, and the
index that it builds keeps the last of two columns of one name. So what is read is in order
exactly if the text names no column twice.
-/
import Scharnhorst.Maps
import Scharnhorst.Schema
import Mathlib.Data.List.Induction
import Mathlib.Data.List.Nodup

set_option autoImplicit false

namespace Scharnhorst.TableSpec

/-- What the derived reader finds in a text. -/
structure Helper where
  name : String
  columns : List ColumnSpec
  /-- Absent, where the text has no such field. -/
  tier : Option StateTier

def default_tier : StateTier := .Authority

section Reader

variable {Text E : Type}

/-- `Deserialize for TableSpec`, for a format whose texts the derived reader of the helper
reads so. -/
def deserialize (helper_deserialize : Text → Except E Helper) (text : Text) :
    Except E TableSpec := do
  let helper ← helper_deserialize text
  return TableSpec.rebuild_index
    { name := helper.name
      columns := helper.columns
      column_index := ∅
      tier := helper.tier.getD default_tier }

end Reader

/-- One call of `with_column` after the other. -/
def with_columns (spec : TableSpec) (cols : List ColumnSpec) : Except SchemaError TableSpec :=
  cols.foldlM with_column spec

/-- The names are distinct, and the index maps exactly them to their positions. -/
structure Indexed (spec : TableSpec) : Prop where
  distinct : (spec.columns.map ColumnSpec.name).Nodup
  positions : ∀ name i, spec.column_index_of name = some i
    ↔ spec.columns[i]?.map ColumnSpec.name = some name
  by_name : ∀ c ∈ spec.columns, spec.column_by_name c.name = some c

variable {spec spec' : TableSpec} {col : ColumnSpec} {cols columns : List ColumnSpec}

/-! ## Positions -/

theorem distinct_of_positions {index : Map String Nat}
    (h : ∀ name i, index[name]? = some i ↔ columns[i]?.map ColumnSpec.name = some name) :
    (columns.map ColumnSpec.name).Nodup := by
  refine List.nodup_iff_getElem?_ne_getElem?.2 fun i j hij hj hsame => ?_
  rw [List.getElem?_map, List.getElem?_map] at hsame
  rw [List.length_map] at hj
  rw [List.getElem?_eq_getElem hj, Option.map_some] at hsame
  -- both places have the name, and the index has one place for it
  have hfirst := (h _ i).2 hsame
  have hsecond : index[columns[j].name]? = some j :=
    (h _ j).2 (by rw [List.getElem?_eq_getElem hj, Option.map_some])
  rw [hfirst] at hsecond
  exact absurd (Option.some.inj hsecond) (by omega)

theorem indexed_of_positions
    (h : ∀ name i, spec.column_index_of name = some i
      ↔ spec.columns[i]?.map ColumnSpec.name = some name) : spec.Indexed := by
  refine ⟨distinct_of_positions h, h, fun c hc => ?_⟩
  obtain ⟨i, hi⟩ := List.mem_iff_getElem?.1 hc
  have hindex : spec.column_index[c.name]? = some i := (h c.name i).2 (by rw [hi]; rfl)
  rw [column_by_name, hindex]
  exact hi

/-- One more column, of a name that there was not. -/
theorem positions_concat {index : Map String Nat}
    (h : ∀ name i, index[name]? = some i ↔ columns[i]?.map ColumnSpec.name = some name)
    (hnew : col.name ∉ columns.map ColumnSpec.name) (name : String) (i : Nat) :
    (index.insert col.name columns.length)[name]? = some i
      ↔ (columns ++ [col])[i]?.map ColumnSpec.name = some name := by
  rw [Std.ExtTreeMap.getElem?_insert]
  by_cases hsame : col.name = name
  · subst hsame
    rw [if_pos (by simp)]
    -- the new name stands at the last place only
    have hnone : columns[i]?.map ColumnSpec.name ≠ some col.name := by
      intro hsome
      obtain ⟨c, hc, hname⟩ := Option.map_eq_some_iff.1 hsome
      exact hnew (hname ▸ List.mem_map_of_mem (List.mem_of_getElem? hc))
    by_cases hi : i < columns.length
    · rw [List.getElem?_append_left hi]
      refine iff_of_false (fun heq => ?_) hnone
      have := Option.some.inj heq
      omega
    · rw [List.getElem?_append_right (by omega)]
      by_cases hlast : i = columns.length
      · subst hlast
        simp
      · rw [List.getElem?_eq_none (by simp only [List.length_singleton]; omega)]
        refine iff_of_false (fun heq => hlast (Option.some.inj heq).symm) ?_
        simp
  -- any other name stands where it stood
  · rw [if_neg (by simpa using hsame), h]
    by_cases hi : i < columns.length
    · rw [List.getElem?_append_left hi]
    · rw [List.getElem?_append_right (by omega), List.getElem?_eq_none (by omega)]
      refine iff_of_false (by simp) fun hsome => ?_
      obtain ⟨c, hc, hname⟩ := Option.map_eq_some_iff.1 hsome
      obtain rfl := List.mem_singleton.1 (List.mem_of_getElem? hc)
      exact hsame hname

/-! ## The two constructors -/

theorem indexed_new (name : String) : (new name).Indexed := by
  refine indexed_of_positions fun name i => ?_
  simp [new, column_index_of]

theorem Indexed.contains_iff (h : spec.Indexed) (name : String) :
    spec.column_index.contains name = true ↔ name ∈ spec.columns.map ColumnSpec.name := by
  rw [Std.ExtTreeMap.contains_eq_isSome_getElem?, Option.isSome_iff_exists]
  constructor
  · rintro ⟨i, hi⟩
    obtain ⟨c, hc, hname⟩ := Option.map_eq_some_iff.1 ((h.positions name i).1 hi)
    exact hname ▸ List.mem_map_of_mem (List.mem_of_getElem? hc)
  · intro hmem
    obtain ⟨c, hc, rfl⟩ := List.mem_map.1 hmem
    obtain ⟨i, hi⟩ := List.mem_iff_getElem?.1 hc
    exact ⟨i, (h.positions c.name i).2 (by rw [hi]; rfl)⟩

theorem Indexed.with_column_ok (h : spec.Indexed)
    (hcall : spec.with_column col = .ok spec') :
    spec'.columns = spec.columns ++ [col] ∧ spec'.Indexed := by
  rw [with_column] at hcall
  split at hcall
  · cases hcall
  · rename_i hnew
    rw [h.contains_iff] at hnew
    obtain rfl := Except.ok.inj hcall
    exact ⟨rfl, indexed_of_positions (positions_concat h.positions hnew)⟩

/-- A column is taken exactly if its name is new. -/
theorem Indexed.with_column_ok_iff (h : spec.Indexed) :
    (∃ spec', spec.with_column col = .ok spec')
      ↔ col.name ∉ spec.columns.map ColumnSpec.name := by
  rw [← h.contains_iff, with_column]
  split
  · rename_i hold
    exact iff_of_false (by simp) (fun hnew => hnew hold)
  · rename_i hnew
    exact iff_of_true ⟨_, rfl⟩ hnew

/-- The calls keep the index in order. -/
theorem Indexed.with_columns_ok (h : spec.Indexed) (hcalls : spec.with_columns cols = .ok spec') :
    spec'.Indexed := by
  induction cols generalizing spec with
  | nil =>
      obtain rfl := Except.ok.inj hcalls
      exact h
  | cons col cols ih =>
      rw [with_columns, List.foldlM_cons] at hcalls
      rcases hcall : spec.with_column col with e | next
      · rw [hcall] at hcalls
        cases hcalls
      · rw [hcall] at hcalls
        exact ih (h.with_column_ok hcall).2 hcalls

/-- The calls succeed exactly if no name comes twice. -/
theorem Indexed.with_columns_ok_iff (h : spec.Indexed) :
    (∃ spec', spec.with_columns cols = .ok spec')
      ↔ ((spec.columns ++ cols).map ColumnSpec.name).Nodup := by
  induction cols generalizing spec with
  | nil =>
      rw [List.append_nil]
      exact iff_of_true ⟨spec, rfl⟩ h.distinct
  | cons col cols ih =>
      rw [with_columns, List.foldlM_cons]
      rcases hcall : spec.with_column col with e | next
      · have hold : col.name ∈ spec.columns.map ColumnSpec.name := by
          by_contra hnew
          obtain ⟨next, hnext⟩ := h.with_column_ok_iff.2 hnew
          rw [hcall] at hnext
          cases hnext
        refine iff_of_false (by rintro ⟨_, ⟨⟩⟩) fun hdistinct => ?_
        rw [List.map_append] at hdistinct
        exact (List.nodup_append.1 hdistinct).2.2 _ hold _ List.mem_cons_self rfl
      · obtain ⟨hcolumns, hnext⟩ := h.with_column_ok hcall
        have hrest := ih hnext
        rw [hcolumns, List.append_assoc] at hrest
        exact hrest

theorem indexed_rebuild (h : (spec.columns.map ColumnSpec.name).Nodup) :
    spec.rebuild_index.Indexed := by
  refine indexed_of_positions ?_
  show ∀ name i, (spec.columns.zipIdx.foldl (fun index entry =>
      index.insert entry.1.name entry.2) (∅ : Map String Nat))[name]? = some i
    ↔ spec.columns[i]?.map ColumnSpec.name = some name
  generalize spec.columns = columns at h
  induction columns using List.reverseRecOn with
  | nil => simp
  | append_singleton columns col ih =>
      rw [List.map_append] at h
      obtain ⟨hfirst, -, hdisjoint⟩ := List.nodup_append.1 h
      intro name i
      rw [List.zipIdx_append, List.foldl_append, Nat.zero_add]
      refine positions_concat (ih hfirst) (fun hmem => ?_) name i
      exact hdisjoint _ hmem _ List.mem_cons_self rfl

/-! ## What is read from a text -/

section Texts

variable {Text E : Type}

/-- Each spec that comes of the text is in order, and a text whose columns `with_column` would
refuse is refused. -/
structure ReadInOrder (helper_deserialize : Text → Except E Helper) (text : Text) : Prop where
  indexed : ∀ spec cols spec', deserialize helper_deserialize text = .ok spec →
    spec.with_columns cols = .ok spec' → spec'.Indexed
  refused : ∀ helper, helper_deserialize text = .ok helper →
    (∀ spec, (new helper.name).with_columns helper.columns ≠ .ok spec) →
    ∃ e, deserialize helper_deserialize text = .error e

/-- A spec that is built from nothing is in order, and one that is read from a text exactly if
the text names no column twice. -/
theorem column_index_iff (helper_deserialize : Text → Except E Helper) (text : Text) :
    (∀ name cols spec, (new name).with_columns cols = .ok spec → spec.Indexed)
    ∧ (ReadInOrder helper_deserialize text ↔ ∀ helper, helper_deserialize text = .ok helper →
      (helper.columns.map ColumnSpec.name).Nodup) := by
  refine ⟨fun name cols spec => (indexed_new name).with_columns_ok, ?_⟩
  rcases hread : helper_deserialize text with e | helper
  -- a text that is not read is refused in any case
  · refine iff_of_true ⟨fun spec cols spec' hspec => ?_, ?_⟩ nofun
    · rw [deserialize, hread] at hspec
      cases hspec
    · intro helper hhelper
      rw [hread] at hhelper
      cases hhelper
  · have hspec : deserialize helper_deserialize text = .ok (TableSpec.rebuild_index
        { name := helper.name, columns := helper.columns, column_index := ∅
          tier := helper.tier.getD default_tier }) := by
      rw [deserialize, hread]
      rfl
    constructor
    · rintro h helper' hhelper
      obtain rfl := Except.ok.inj hhelper
      exact (h.indexed _ [] _ hspec rfl).distinct
    · intro hdistinct
      have hnodup := hdistinct helper rfl
      refine ⟨fun spec cols spec' hspec' hcalls => ?_, fun helper' hhelper hrefused => ?_⟩
      · rw [hspec] at hspec'
        obtain rfl := Except.ok.inj hspec'
        exact (indexed_rebuild hnodup).with_columns_ok hcalls
      · rw [hread] at hhelper
        obtain rfl := Except.ok.inj hhelper
        obtain ⟨spec, hbuilt⟩ := (indexed_new helper.name).with_columns_ok_iff.2 hnodup
        exact absurd hbuilt (hrefused spec)

/-! ## One name twice -/

/-- What a text says of a table with two columns of gold. -/
def two_golds : Helper where
  name := "province"
  columns := [.new "gold" .Quantity "i64", .new "gold" .Quantity "f64"]
  tier := none

/-- It is read, although its columns are refused one by one, and the first column is not found
under its name. -/
theorem two_golds_read : ∃ spec,
    deserialize (fun _ : Unit => (.ok two_golds : Except String Helper)) () = .ok spec
      ∧ (new "province").with_columns two_golds.columns = .error (.DuplicateColumn "gold")
      ∧ spec.column_by_name "gold" = some (.new "gold" .Quantity "f64")
      ∧ ¬ ReadInOrder (fun _ : Unit => (.ok two_golds : Except String Helper)) () := by
  refine ⟨_, rfl, by decide +kernel, by decide +kernel, fun h => ?_⟩
  have hdistinct := (h.indexed _ [] _ rfl rfl).distinct
  exact absurd hdistinct (by decide)

end Texts

end Scharnhorst.TableSpec
