/-
The tables as keyed tables, and the runs in which the store refines them.

What the store is for is a keyed table per name: an insert adds a row, an update sets
one column of one row, a delete removes a row, a replace puts new rows in place of
all. `keyed_step` is that, and knows nothing of ticks, batches or positions.

A position is a batch index and an offset, without the tick, and each tick starts its
list of batches at index 0. So a row inserted at one tick and a row inserted at a
later one can be given the same position, and from then on both resolve to the later
tick's batch. The refinement below is therefore not of every run. It is of the runs
in which no insert is given a position that a live row has (`FreshInsert`), and in
those it is the full statement: liveness, values, and the frame.

The invariant has two halves. `Tidy` is about the shape of the stored batches and
holds of every run from created tables. `Stored`, from the addressing library, is
about which row each position leads to, and is the half the aliasing breaks.
-/
import Scharnhorst.Addressing
import Scharnhorst.StoreSpec

set_option autoImplicit false

namespace Scharnhorst

open Attempt Maps Addressing

/-! ## The abstract table -/

/-- A table as its users see it: the cells of each live row, in column order. -/
abbrev Rows := KeyedTable RowId (List Cell)

/-- A column by name: its index and its field. -/
def Schema.column (schema : Schema) (name : String) : Option (Nat × Field) :=
  (schema.index_of name).bind fun c => schema.fields[c]?.map fun f => (c, f)

theorem Schema.column_field {schema : Schema} {name : String} {c : Nat} {f : Field}
    (h : schema.column name = some (c, f)) : schema.fields[c]? = some f ∧ f.name = name := by
  obtain ⟨k, hk, hf⟩ := Option.bind_eq_some_iff.1 h
  obtain ⟨g, hg, heq⟩ := Option.map_eq_some_iff.1 hf
  obtain ⟨rfl, rfl⟩ := Prod.mk.inj heq
  refine ⟨hg, ?_⟩
  have hfirst := List.of_findIdx?_eq_some hk
  rw [hg] at hfirst
  exact eq_of_beq hfirst

/-- Two names do not lead to one index. -/
theorem Schema.column_ne {schema : Schema} {name name' : String} {c c' : Nat} {f f' : Field}
    (h : schema.column name = some (c, f)) (h' : schema.column name' = some (c', f'))
    (hne : name ≠ name') : c ≠ c' := by
  rintro rfl
  obtain ⟨hat, hname⟩ := schema.column_field h
  obtain ⟨hat', hname'⟩ := schema.column_field h'
  obtain rfl := Option.some.inj (hat.symm.trans hat')
  exact hne (hname.symm.trans hname')

section Abstract

variable [Render]

/-- One column of a row set to a value. -/
def set_cell (schema : Schema) (column : String) (value : Json) (row : List Cell) : List Cell :=
  match schema.column column with
  | some (c, f) => row.set c (json_cell value f.data_type)
  | none => row

/-- The rows of a replace, each under the id it asks for. -/
def replaced_rows (schema : Schema) (pk_name : Option String) (rows : List JsonMap) : Rows :=
  fun r => (rows.zipIdx.find? fun p => row_key pk_name p.2 p.1 = some r).map fun p =>
    json_row p.1 schema

/-- What a diff does to the keyed table it names. -/
def keyed_step (schema : Schema) (pk_name : Option String) (t : Rows) : Diff → Rows
  | .Update _ row column value => t.modify row (set_cell schema column value)
  | .Insert _ row values => t.insert row (json_row values schema)
  | .Delete _ row => t.delete row
  | .ReplaceTable _ rows => replaced_rows schema pk_name rows

end Abstract

/-! ## Reading at a batch index

Rows that the store places itself are always at offset 0 of a batch of their own, so
a batch index is the whole address. -/

/-- The row at a batch index, by the latest-tick rule. -/
def read_row (versions : Versions) (batch_idx : Nat) : Option (List Cell) :=
  (loc_tick versions batch_idx).bind fun tick =>
    (versions.getD tick [])[batch_idx]?.bind fun batch =>
      if 0 < batch.row_count then some (batch.row 0) else none

/-- The batch index a row is at. -/
def batch_of (t : VersionedTable) (r : RowId) : Option Nat :=
  (t.position_map.position_of r).map Prod.fst

theorem getD_versions {versions : Versions} {tick : Tick} {bs : List RecordBatch}
    (h : versions[tick]? = some bs) : versions.getD tick [] = bs := by
  rw [Std.ExtTreeMap.getD_eq_getD_getElem?, h, Option.getD_some]

theorem versions_of_getD_lt {versions : Versions} {tick : Tick} {b : Nat}
    (h : b < (versions.getD tick []).length) :
    versions[tick]? = some (versions.getD tick []) := by
  rcases hv : versions[tick]? with _ | bs
  · simp [Std.ExtTreeMap.getD_eq_getD_getElem?, hv] at h
  · rw [getD_versions hv]

/-- At the latest tick every index in range is found. -/
theorem loc_tick_latest {versions : Versions} {tick : Tick} {bs : List RecordBatch}
    (hv : versions[tick]? = some bs)
    (hmax : ∀ (t : Tick) (bs : List RecordBatch), versions[t]? = some bs → t ≤ tick)
    {b : Nat} (hlt : b < bs.length) : loc_tick versions b = some tick :=
  loc_tick_eq_some.2 ⟨⟨bs, hv, hlt⟩, fun t' bs' ht' _ => hmax t' bs' ht'⟩

theorem read_row_latest {versions : Versions} {tick : Tick} {bs : List RecordBatch}
    (hv : versions[tick]? = some bs)
    (hmax : ∀ (t : Tick) (bs : List RecordBatch), versions[t]? = some bs → t ≤ tick)
    {b : Nat} (batch : RecordBatch) (hb : bs[b]? = some batch) :
    read_row versions b = if 0 < batch.row_count then some (batch.row 0) else none := by
  have htick := loc_tick_latest hv hmax (List.getElem?_eq_some_iff.1 hb).1
  rw [read_row, htick, Option.bind_some, getD_versions hv, hb, Option.bind_some]

/-- A list too short for an index, before and after, is not where the index is
found. -/
theorem loc_tick_short {versions : Versions} {tick : Tick} {bs : List RecordBatch} {b : Nat}
    (hold : (versions.getD tick []).length ≤ b) (hnew : bs.length ≤ b) :
    loc_tick (versions.insert tick bs) b = loc_tick versions b
      ∧ ∀ (t : Tick) (bs' : List RecordBatch), b < bs'.length →
        ((versions.insert tick bs)[t]? = some bs' ↔ versions[t]? = some bs') := by
  have hlong : ∀ (t : Tick) (bs' : List RecordBatch), b < bs'.length →
      ((versions.insert tick bs)[t]? = some bs' ↔ versions[t]? = some bs') := by
    intro t bs' hlt
    by_cases ht : t = tick
    · subst ht
      constructor <;> intro h
      · obtain rfl : bs = bs' := by simpa using h
        omega
      · rw [getD_versions h] at hold
        omega
    · simp [Std.ExtTreeMap.getElem?_insert, Ne.symm ht]
  refine ⟨?_, hlong⟩
  rcases hv : loc_tick versions b with _ | t
  · rw [loc_tick_eq_none] at hv ⊢
    intro t bs' ht
    by_contra hlt
    exact hlt (hv t bs' ((hlong t bs' (by omega)).1 ht))
  · obtain ⟨⟨bs', ht, hlt⟩, hmax⟩ := loc_tick_eq_some.1 hv
    exact loc_tick_eq_some.2 ⟨⟨bs', (hlong t bs' hlt).2 ht, hlt⟩,
      fun t' bs'' ht' hlt' => hmax t' bs'' ((hlong t' bs'' hlt').1 ht') hlt'⟩

theorem read_row_short {versions : Versions} {tick : Tick} {bs : List RecordBatch} {b : Nat}
    (hold : (versions.getD tick []).length ≤ b) (hnew : bs.length ≤ b) :
    read_row (versions.insert tick bs) b = read_row versions b := by
  obtain ⟨htick, hlong⟩ := loc_tick_short hold hnew
  rcases hv : loc_tick versions b with _ | t
  · simp [read_row, htick, hv]
  · obtain ⟨⟨bs', ht, hlt⟩, -⟩ := loc_tick_eq_some.1 hv
    simp only [read_row, htick, hv, Option.bind_some, getD_versions ht,
      getD_versions ((hlong t bs' hlt).2 ht)]

/-- Writing at the latest tick leaves it the latest. -/
theorem ticks_le_insert {versions : Versions} {tick : Tick}
    (hmax : ∀ (t : Tick) (bs : List RecordBatch), versions[t]? = some bs → t ≤ tick)
    (new : List RecordBatch) (t : Tick) (bs : List RecordBatch)
    (ht : (versions.insert tick new)[t]? = some bs) : t ≤ tick := by
  rw [Std.ExtTreeMap.getElem?_insert] at ht
  split at ht
  · rename_i heq
    exact Nat.le_of_eq (Std.LawfulEqOrd.eq_of_compare heq).symm
  · exact hmax t bs ht

/-- A batch pushed at the latest tick is found at its own index, and moves no other. -/
theorem loc_tick_push {versions : Versions} {tick : Tick} (batch : RecordBatch)
    (hmax : ∀ (t : Tick) (bs : List RecordBatch), versions[t]? = some bs → t ≤ tick) (b : Nat) :
    loc_tick (versions.insert tick (versions.getD tick [] ++ [batch])) b
      = if b = (versions.getD tick []).length then some tick else loc_tick versions b := by
  have hmax' := ticks_le_insert hmax (versions.getD tick [] ++ [batch])
  have hself : (versions.insert tick (versions.getD tick [] ++ [batch]))[tick]?
      = some (versions.getD tick [] ++ [batch]) := Std.ExtTreeMap.getElem?_insert_self
  rcases Nat.lt_trichotomy b (versions.getD tick []).length with hlt | heq | hgt
  · have hv := versions_of_getD_lt hlt
    rw [if_neg (Nat.ne_of_lt hlt), loc_tick_latest hv hmax hlt,
      loc_tick_latest hself hmax' (by rw [List.length_append]; omega)]
  · rw [if_pos heq, loc_tick_latest hself hmax' (by rw [List.length_append, heq]; simp)]
  · rw [if_neg (Nat.ne_of_gt hgt)]
    exact (loc_tick_short (Nat.le_of_lt hgt) (by rw [List.length_append]; exact hgt)).1

/-- Overwriting a batch moves none. -/
theorem loc_tick_set {versions : Versions} {tick : Tick} {bs : List RecordBatch}
    (hv : versions[tick]? = some bs) (b : Nat) (patched : RecordBatch) (c : Nat) :
    loc_tick (versions.insert tick (bs.set b patched)) c = loc_tick versions c := by
  refine loc_tick_congr fun t => ?_
  rw [Std.ExtTreeMap.getElem?_insert]
  split
  · rename_i heq
    obtain rfl := Std.LawfulEqOrd.eq_of_compare heq
    simp [hv]
  · rfl

/-- A batch pushed at the latest tick is read at its own index and nowhere else. -/
theorem read_row_push {versions : Versions} {tick : Tick} {batch : RecordBatch}
    (hmax : ∀ (t : Tick) (bs : List RecordBatch), versions[t]? = some bs → t ≤ tick)
    (hone : batch.row_count = 1) (b : Nat) :
    read_row (versions.insert tick (versions.getD tick [] ++ [batch])) b
      = if b = (versions.getD tick []).length then some (batch.row 0)
        else read_row versions b := by
  have hself : (versions.insert tick (versions.getD tick [] ++ [batch]))[tick]?
      = some (versions.getD tick [] ++ [batch]) := Std.ExtTreeMap.getElem?_insert_self
  have hmax' := ticks_le_insert hmax (versions.getD tick [] ++ [batch])
  rcases Nat.lt_trichotomy b (versions.getD tick []).length with hlt | heq | hgt
  · -- the tick is the latest with so many batches, before and after
    rw [if_neg (Nat.ne_of_lt hlt)]
    have hv := versions_of_getD_lt hlt
    obtain ⟨batch', hb⟩ : ∃ batch', (versions.getD tick [])[b]? = some batch' :=
      ⟨_, List.getElem?_eq_getElem hlt⟩
    rw [read_row_latest hv hmax batch' hb,
      read_row_latest hself hmax' batch' (by rw [List.getElem?_append_left hlt, hb])]
  · subst heq
    rw [if_pos rfl, read_row_latest hself hmax' batch (by simp), hone,
      if_pos Nat.one_pos]
  · rw [if_neg (Nat.ne_of_gt hgt)]
    exact read_row_short (Nat.le_of_lt hgt) (by rw [List.length_append]; exact hgt)

/-- A batch overwritten where its index is found is read at its own index and nowhere
else. -/
theorem read_row_set {versions : Versions} {tick : Tick} {b : Nat} {patched : RecordBatch}
    (htick : loc_tick versions b = some tick) (hone : patched.row_count = 1) (b' : Nat) :
    read_row (versions.insert tick ((versions.getD tick []).set b patched)) b'
      = if b' = b then some (patched.row 0) else read_row versions b' := by
  obtain ⟨⟨bs, hv, hlt⟩, -⟩ := loc_tick_eq_some.1 htick
  rw [getD_versions hv]
  have hlen := loc_tick_set hv b patched
  by_cases hb : b' = b
  · subst hb
    have hget : (bs.set b' patched)[b']? = some patched := List.getElem?_set_self hlt
    rw [if_pos rfl, read_row, hlen, htick, Option.bind_some,
      getD_versions Std.ExtTreeMap.getElem?_insert_self, hget, Option.bind_some,
      if_pos (by omega)]
  · rw [if_neg hb, read_row, read_row, hlen]
    rcases ht : loc_tick versions b' with _ | t
    · rfl
    · by_cases htt : t = tick
      · subst htt
        rw [Option.bind_some, Option.bind_some, getD_versions Std.ExtTreeMap.getElem?_insert_self,
          getD_versions hv, List.getElem?_set_ne (Ne.symm hb)]
      · have hget : (versions.insert tick (bs.set b patched)).getD t [] = versions.getD t [] := by
          simp [Std.ExtTreeMap.getD_insert, Ne.symm htt]
        rw [Option.bind_some, Option.bind_some, hget]

/-! ## The invariant -/

/-- The shape of what created tables ever hold: batches of the table's schema with
one row each, at ticks so far, and positions at offset 0. -/
structure Tidy (schema : Schema) (last : Tick) (t : VersionedTable) : Prop where
  ticks : ∀ (tick : Tick) (bs : List RecordBatch), t.versions[tick]? = some bs → tick ≤ last
  batch : ∀ (tick : Tick) (bs : List RecordBatch), t.versions[tick]? = some bs →
    ∀ b ∈ bs, b.schema = schema ∧ b.row_count = 1 ∧ b.Aligned
  offset : ∀ r b o, t.position_map.position_of r = some (b, o) → o = 0

/-- The table stores the given rows: each position leads to the row's cells, and no
two rows share one. -/
def StoresRows (t : VersionedTable) (rows : Rows) : Prop :=
  Stored (batch_of t) (read_row t.versions) rows

/-- The Arrow schema of a created table. -/
def table_schema (reg : TypeRegistry) (t : VersionedTable) : Schema :=
  match t.spec.map fun spec => spec_schema spec reg with
  | some (.ok schema) => schema
  | _ => { fields := [] }

/-- No live row has the batch index an insert at this tick is given. -/
def FreshInsert (tick : Tick) (t : VersionedTable) : Diff → Prop
  | .Insert _ _ _ => ∀ r, batch_of t r ≠ some (t.batches tick).length
  | _ => True

instance (tick : Tick) (t : VersionedTable) (d : Diff) : Decidable (FreshInsert tick t d) :=
  match d with
  | .Insert _ _ _ =>
    decidable_of_iff (∀ e ∈ t.position_map.entries.toList, e.2.1 ≠ (t.batches tick).length) (by
      simp only [FreshInsert, batch_of, RowPositionMap.position_of, Prod.forall, ne_eq,
        Std.ExtTreeMap.mem_toList_iff_getElem?_eq_some, Option.map_eq_some_iff, Prod.exists]
      exact ⟨fun h r ⟨b, o, hr, hb⟩ => h r b o hr hb, fun h r b o hr hb => h r ⟨b, o, hr, hb⟩⟩)
  | .Update _ _ _ _ | .Delete _ _ | .ReplaceTable _ _ => .isTrue trivial

theorem resolve_created {reg : TypeRegistry} {t : VersionedTable} (values : JsonMap)
    {schema : Schema} (hspec : t.spec.isSome)
    (h : resolve_table_schema t values reg = .ok (some schema)) : table_schema reg t = schema := by
  obtain ⟨spec, hs⟩ := Option.isSome_iff_exists.1 hspec
  simp only [resolve_table_schema, hs] at h
  rcases hsch : spec_schema spec reg with e | schema'
  · simp [hsch, Except.map] at h
  · simpa [table_schema, hs, hsch, Except.map] using h

theorem replace_created {reg : TypeRegistry} {t : VersionedTable} {rows : List JsonMap}
    {schema : Schema} (hspec : t.spec.isSome) (h : replace_schema t rows reg = some schema) :
    table_schema reg t = schema := by
  rcases rows with _ | ⟨row, rows⟩
  · simp [replace_schema] at h
  · refine resolve_created row hspec ?_
    rcases hres : resolve_table_schema t row reg with e | (_ | schema') <;>
      simp_all [replace_schema, resolve_table_schema_from_map, Except.toOption]

namespace Tidy

variable {schema : Schema} {last tick : Tick} {t : VersionedTable} {row : RowId}
  {loc : RowLocation} {batch : RecordBatch}

/-- The batches a table lists at a tick are of its shape. -/
theorem listed {batch : RecordBatch} (h : Tidy schema last t) (hb : batch ∈ t.batches tick) :
    batch.schema = schema ∧ batch.row_count = 1 ∧ batch.Aligned :=
  h.batch tick _ (VersionedTable.versions_of_mem hb) batch hb

theorem mono (h : Tidy schema last t) (hl : last ≤ tick) : Tidy schema tick t :=
  ⟨fun tick' bs hbs => Nat.le_trans (h.ticks tick' bs hbs) hl, h.batch, h.offset⟩

/-- A located row is the only row of its batch. -/
theorem located (h : Tidy schema last t) (hloc : t.locate row = some (loc, batch)) :
    loc.row_index = 0 ∧ batch.schema = schema ∧ batch.row_count = 1 ∧ batch.Aligned
      ∧ batch_of t row = some loc.batch_index
      ∧ read_row t.versions loc.batch_index = some (batch.row 0) := by
  obtain ⟨hpos, htick, hbatch, hrow, -⟩ := VersionedTable.locate_eq_some.1 hloc
  have hzero := h.offset _ _ _ hpos
  obtain ⟨hs, hone, ha⟩ := h.batch _ _ (VersionedTable.versions_of_locate hloc) batch
    (List.mem_of_getElem? hbatch)
  refine ⟨hzero, hs, hone, ha, by simp [batch_of, hpos], ?_⟩
  rw [VersionedTable.batches] at hbatch
  rw [read_row, htick, Option.bind_some, hbatch, Option.bind_some, if_pos (by omega)]

/-- Rewriting a located batch keeps the shape. -/
theorem set_batch {patched : RecordBatch} {g : List Cell → List Cell} (h : Tidy schema last t)
    (hloc : t.locate row = some (loc, batch)) (hr : Rewrites batch patched loc.row_index g) :
    Tidy schema last (t.set_batch loc patched) := by
  obtain ⟨-, hs, hone, -, -, -⟩ := h.located hloc
  have hv := VersionedTable.versions_of_locate hloc
  refine ⟨fun tick bs hbs => ?_, fun tick bs hbs b hb => ?_, h.offset⟩
  · rw [VersionedTable.set_batch, Std.ExtTreeMap.getElem?_insert] at hbs
    split at hbs
    · rename_i heq
      obtain rfl := Std.LawfulEqOrd.eq_of_compare heq
      exact h.ticks _ _ hv
    · exact h.ticks tick bs hbs
  · rw [VersionedTable.set_batch, Std.ExtTreeMap.getElem?_insert] at hbs
    split at hbs
    · obtain rfl : _ = bs := by simpa using hbs
      rcases List.mem_or_eq_of_mem_set hb with hold | rfl
      · exact h.batch _ _ hv b hold
      · exact ⟨hr.schema_eq.trans hs, hr.row_count_eq.trans hone, hr.aligned⟩
    · exact h.batch tick bs hbs b hb

/-- Writing a list of well-shaped batches at a tick not before the last keeps the
shape. -/
theorem insert_tick {bs : List RecordBatch} {pm : RowPositionMap} {index : PrimaryKeyIndex}
    (h : Tidy schema last t) (hl : last ≤ tick)
    (hbs : ∀ b ∈ bs, b.schema = schema ∧ b.row_count = 1 ∧ b.Aligned)
    (hpm : ∀ r b o, pm.position_of r = some (b, o) → o = 0) :
    Tidy schema tick { t with
      versions := t.versions.insert tick bs, position_map := pm, primary_key_index := index } := by
  have hmax := (h.mono hl).ticks
  refine ⟨ticks_le_insert hmax bs, fun tick' bs' hbs' => ?_, hpm⟩
  rw [Std.ExtTreeMap.getElem?_insert] at hbs'
  split at hbs'
  · obtain rfl : bs = bs' := by simpa using hbs'
    exact hbs
  · exact h.batch tick' bs' hbs'

end Tidy

/-! ## One diff -/

section Steps

variable [Render] {reg : TypeRegistry} {schema : Schema} {last tick : Tick}
  {t t' : VersionedTable} {rows : Rows}

/-- Every diff that goes through keeps the shape. -/
theorem Tidy.step {d : Diff} (h : Tidy schema last t) (hl : last ≤ tick) (hspec : t.spec.isSome)
    (hschema : table_schema reg t = schema)
    (hrun : apply_to_table reg tick d t = (.ok (), t')) : Tidy schema tick t' := by
  cases d with
  | Update name row column value =>
      obtain ⟨loc, batch, patched, hloc, hb, rfl⟩ := apply_update_ok tick hrun
      have hrow := (VersionedTable.locate_eq_some.1 hloc).2.2.2.1
      obtain ⟨c, f, -, -, hr⟩ := update_batch_spec hrow hb
      exact (h.mono hl).set_batch hloc hr
  | Insert name row values =>
      obtain ⟨s, batch, hs, -, hbatch, rfl⟩ := apply_insert_ok hrun
      obtain rfl : schema = s := hschema.symm.trans (resolve_created _ hspec hs)
      obtain ⟨hbs, hone, ha, -⟩ := json_map_to_record_batch_spec hbatch
      refine h.insert_tick hl (fun b hb => ?_) fun r b o hp => ?_
      · rcases List.mem_append.1 hb with hold | hnew
        · exact h.listed hold
        · obtain rfl := List.mem_singleton.1 hnew
          exact ⟨hbs, hone, ha⟩
      · rw [RowPositionMap.position_of_insert] at hp
        split at hp
        · simp_all
        · exact h.offset r b o hp
  | Delete name row =>
      obtain ⟨loc, batch, patched, hloc, hb, rfl⟩ := apply_delete_ok tick hrun
      have hrow := (VersionedTable.locate_eq_some.1 hloc).2.2.2.1
      obtain ⟨g, hr⟩ := delete_batch_spec hrow hb
      have hset := (h.mono hl).set_batch hloc hr
      refine ⟨hset.ticks, hset.batch, fun r b o hp => ?_⟩
      rw [RowPositionMap.position_of_remove] at hp
      split at hp
      · cases hp
      · exact h.offset r b o hp
  | ReplaceTable name rows =>
      obtain ⟨s, pm, batches, hs, hall, hpm, rfl⟩ := apply_replace_ok hrun
      obtain rfl : schema = s := hschema.symm.trans (replace_created hspec hs)
      refine h.insert_tick hl (fun b hb => ?_) fun r b o hp => ?_
      · obtain ⟨i, hi, rfl⟩ := List.getElem_of_mem hb
        have hi' : i < rows.length := by rw [hall.length_eq]; exact hi
        obtain ⟨hbs, hone, ha, -⟩ := json_map_to_record_batch_spec (hall.get hi' hi)
        exact ⟨hbs, hone, ha⟩
      · rw [hpm, Option.map_eq_some_iff] at hp
        obtain ⟨p, -, hp⟩ := hp
        exact (Prod.mk.inj hp).2.symm

variable (tick) in
/-- An update sets its column in its own row. -/
theorem StoresRows.update {name column : String} {row : RowId} {value : Json}
    (h : StoresRows t rows) (hshape : Tidy schema last t)
    (hrun : apply_update_to_table t name tick row column value = (.ok (), t')) :
    StoresRows t' (rows.modify row (set_cell schema column value)) := by
  obtain ⟨loc, batch, patched, hloc, hb, rfl⟩ := apply_update_ok tick hrun
  obtain ⟨hzero, hs, hone, ha, hat, hread⟩ := hshape.located hloc
  obtain ⟨c, f, hc, hf, hr⟩ := update_batch_spec (by omega) hb
  have htick := (VersionedTable.locate_eq_some.1 hloc).2.1
  have hnew := read_row_set htick (hr.row_count_eq.trans hone)
  have hcell : patched.row 0 = set_cell schema column value (batch.row 0) := by
    rw [hr.row_eq ha 0 (by omega), if_pos hzero, set_cell, ← hs, Schema.column, hc,
      Option.bind_some, hf]
    rfl
  refine h.modify hat ?_ fun b' hb' => (hnew b').trans (if_neg hb')
  rw [hread, Option.map_some, ← hcell]
  exact (hnew _).trans (if_pos rfl)

variable (tick) in
omit [Render] in
/-- A delete removes its own row. -/
theorem StoresRows.delete {name : String} {row : RowId} (h : StoresRows t rows)
    (hshape : Tidy schema last t)
    (hrun : apply_delete_to_table t name tick row = (.ok (), t')) :
    StoresRows t' (rows.delete row) := by
  obtain ⟨loc, batch, patched, hloc, hb, rfl⟩ := apply_delete_ok tick hrun
  obtain ⟨hzero, -, hone, -, hat, -⟩ := hshape.located hloc
  obtain ⟨g, hr⟩ := delete_batch_spec (by omega) hb
  have htick := (VersionedTable.locate_eq_some.1 hloc).2.1
  have hnew := read_row_set htick (hr.row_count_eq.trans hone)
  refine Stored.delete h hat (fun k => ?_) fun b' hb' => (hnew b').trans (if_neg hb')
  simp only [batch_of, RowPositionMap.position_of_remove]
  split <;> rfl

/-- An insert adds its row, if the batch index it is given is free. -/
theorem StoresRows.insert {name : String} {row : RowId} {values : JsonMap}
    (h : StoresRows t rows) (hshape : Tidy schema last t) (hl : last ≤ tick)
    (hspec : t.spec.isSome) (hschema : table_schema reg t = schema)
    (hfresh : FreshInsert tick t (.Insert name row values))
    (hrun : apply_insert_to_table t name tick row values reg = (.ok (), t')) :
    StoresRows t' (rows.insert row (json_row values schema)) := by
  obtain ⟨s, batch, hs, -, hbatch, rfl⟩ := apply_insert_ok hrun
  obtain rfl : schema = s := hschema.symm.trans (resolve_created _ hspec hs)
  obtain ⟨-, hone, -, hcells⟩ := json_map_to_record_batch_spec hbatch
  have hnew := read_row_push (hshape.mono hl).ticks hone
  refine Stored.add h hfresh (fun k => ?_) ?_ fun b' hb' => (hnew b').trans (if_neg hb')
  · simp only [batch_of, RowPositionMap.position_of_insert]
    split <;> rfl
  · rw [← hcells]
    exact (hnew _).trans (if_pos rfl)

/-- A replace stores exactly its rows, whatever the table held before: the shape is
all it needs. -/
theorem StoresRows.replace {name : String} {new : List JsonMap} (hshape : Tidy schema last t)
    (hl : last ≤ tick) (hspec : t.spec.isSome) (hschema : table_schema reg t = schema)
    (hrun : apply_replace_to_table t name tick new reg = (.ok (), t')) :
    StoresRows t' (replaced_rows schema (pk_col_name t) new) := by
  obtain ⟨s, pm, batches, hs, hall, hpm, rfl⟩ := apply_replace_ok hrun
  obtain rfl : schema = s := hschema.symm.trans (replace_created hspec hs)
  -- no batch is of a later tick, so a row is read from the batches of this one
  have hmax := ticks_le_insert (hshape.mono hl).ticks batches
  have hat : ∀ k b, batch_of { t with
      position_map := pm, versions := t.versions.insert tick batches } k = some b →
      ∃ m, (new.zipIdx.find? fun p => row_key (pk_col_name t) p.2 p.1 = some k) = some (m, b) := by
    intro k b hk
    simp only [batch_of, hpm, Option.map_map, Option.map_eq_some_iff] at hk
    obtain ⟨⟨m, i⟩, hfind, rfl⟩ := hk
    exact ⟨m, hfind⟩
  refine ⟨fun k hk => ?_, fun k b hk => ?_, fun k k' b hk hk' => ?_⟩
  · have hnone : (new.zipIdx.find? fun p => row_key (pk_col_name t) p.2 p.1 = some k) = none := by
      simpa [batch_of, hpm] using hk
    simp [replaced_rows, hnone]
  · obtain ⟨m, hfind⟩ := hat k b hk
    have hmem : new[b]? = some m :=
      List.mem_zipIdx_iff_getElem?.1 (List.mem_of_find?_eq_some hfind)
    obtain ⟨hb, rfl⟩ := List.getElem?_eq_some_iff.1 hmem
    have hb' : b < batches.length := by rw [← hall.length_eq]; exact hb
    obtain ⟨-, hone, -, hcells⟩ := json_map_to_record_batch_spec (hall.get hb hb')
    refine ⟨json_row new[b] schema, ?_, by simp [replaced_rows, hfind]⟩
    have hpos : 0 < batches[b].row_count := Nat.lt_of_lt_of_eq Nat.one_pos hone.symm
    rw [read_row_latest Std.ExtTreeMap.getElem?_insert_self hmax _ (List.getElem?_eq_getElem hb'),
      if_pos hpos]
    exact congrArg some hcells
  · -- the row at index `b` asks for one id only
    obtain ⟨m, hfind⟩ := hat k b hk
    obtain ⟨m', hfind'⟩ := hat k' b hk'
    have hmem : new[b]? = some m :=
      List.mem_zipIdx_iff_getElem?.1 (List.mem_of_find?_eq_some hfind)
    have hmem' : new[b]? = some m' :=
      List.mem_zipIdx_iff_getElem?.1 (List.mem_of_find?_eq_some hfind')
    obtain rfl : m = m' := Option.some.inj (hmem.symm.trans hmem')
    have hkey := List.find?_some hfind
    have hkey' := List.find?_some hfind'
    simp only [decide_eq_true_eq] at hkey hkey'
    exact Option.some.inj (hkey.symm.trans hkey')

/-- One diff, on the table it names. -/
theorem StoresRows.step {d : Diff} (h : StoresRows t rows) (hshape : Tidy schema last t)
    (hl : last ≤ tick) (hspec : t.spec.isSome) (hschema : table_schema reg t = schema)
    (hfresh : FreshInsert tick t d) (hrun : apply_to_table reg tick d t = (.ok (), t')) :
    StoresRows t' (keyed_step schema (pk_col_name t) rows d) := by
  cases d with
  | Update name row column value => exact h.update tick hshape hrun
  | Insert name row values => exact h.insert hshape hl hspec hschema hfresh hrun
  | Delete name row => exact h.delete tick hshape hrun
  | ReplaceTable name new => exact StoresRows.replace hshape hl hspec hschema hrun

end Steps

end Scharnhorst
