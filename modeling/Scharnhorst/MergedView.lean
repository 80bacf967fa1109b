/-
Merging the batches of a view.

A view of several batches of one schema may come to hold them as one. Then each position of its map
has to move: the row at the offset `o` of the batch `b` is at `ordinal (b, o)` of the merged batch,
as `Blocks` numbers them. The source adds up the row counts with `saturating_add`; since the
merged batch counts its rows in a `usize`, nothing is saturated.

Without a map the rows are numbered through, and that is the same numbering the other way round.
-/
import Scharnhorst.Blocks
import Scharnhorst.PublishedCells
import Scharnhorst.Served

set_option autoImplicit false

namespace Scharnhorst

open Maps Blocks

/-! ## Rows -/

/-- A place where the batches have a row. -/
def Physical (batches : List RecordBatch) (p : Nat × Nat) : Prop :=
  ∃ batch, batches[p.1]? = some batch ∧ p.2 < batch.row_count

/-- The batches have this row there. -/
def RowAt (batches : List RecordBatch) (p : Nat × Nat) (schema : Schema) (row : List Cell) : Prop :=
  ∃ batch, batches[p.1]? = some batch ∧ p.2 < batch.row_count ∧ batch.schema = schema
    ∧ batch.row p.2 = row

/-- A lookup reads this row, column by column, and no other column. -/
def ReadsRow (lookup : RowLookupView) (schema : Schema) (row : List Cell) : Prop :=
  ∀ column, match schema.index_of column with
    | none => lookup.column_view column = .error (.ColumnNotFound column lookup.view.table_name)
    | some c => ∃ array, lookup.column_view column = .ok array
        ∧ row[c]? = some (array.cell lookup.row_offset)

def TableReadView.total_rows (view : TableReadView) : Nat :=
  (view.batches.map RecordBatch.row_count).sum

section Rows

variable {batches : List RecordBatch} {p : Nat × Nat} {schema : Schema} {row : List Cell}

theorem Physical.item (h : Physical batches p) : Item (batches.map RecordBatch.row_count) p := by
  obtain ⟨batch, hbatch, hlt⟩ := h
  exact ⟨batch.row_count, by rw [List.getElem?_map, hbatch, Option.map_some], hlt⟩

theorem physical_of_item (h : Item (batches.map RecordBatch.row_count) p) :
    Physical batches p := by
  obtain ⟨n, hn, hlt⟩ := h
  rw [List.getElem?_map, Option.map_eq_some_iff] at hn
  obtain ⟨batch, hbatch, rfl⟩ := hn
  exact ⟨batch, hbatch, hlt⟩

theorem RowAt.physical (h : RowAt batches p schema row) : Physical batches p := by
  obtain ⟨batch, hbatch, hlt, -⟩ := h
  exact ⟨batch, hbatch, hlt⟩

theorem RowAt.schema_eq {schema' : Schema} (h : RowAt batches p schema' row)
    (hschema : ∀ b ∈ batches, b.schema = schema) : schema' = schema := by
  obtain ⟨batch, hbatch, -, hs, -⟩ := h
  rw [← hs]
  exact hschema batch (List.mem_of_getElem? hbatch)

theorem map_length_rows (batches : List RecordBatch) :
    (batches.map RecordBatch.rows).map List.length = batches.map RecordBatch.row_count := by
  rw [List.map_map]
  exact List.map_congr_left fun batch _ => batch.length_rows

/-- The rows of the batches, one after the other, in the numbering of the places. -/
theorem RowAt.rows (h : RowAt batches p schema row) :
    (batches.flatMap RecordBatch.rows)[ordinal (batches.map RecordBatch.row_count) p]?
      = some row := by
  obtain ⟨batch, hbatch, hlt, -, hrow⟩ := h
  have hblock : (batches.map RecordBatch.rows)[p.1]? = some batch.rows := by
    rw [List.getElem?_map, hbatch, Option.map_some]
  have hlen : p.2 < batch.rows.length := by
    rw [batch.length_rows]
    exact hlt
  rw [List.flatMap_def, ← map_length_rows, getElem?_flatten hblock hlen, RecordBatch.rows,
    List.getElem?_map, List.getElem?_range hlt, Option.map_some, hrow]

/-- A row of a published view is looked up and read. -/
theorem Published.reads_row {q : QueryEngine} {table : String} {view : TableReadView} {r : RowId}
    (h : Published q table view) (hpos : view.position_map.position_of r = some p)
    (hrow : RowAt view.batches p schema row) :
    ∃ lookup, q.lookup_row table r = .ok lookup ∧ ReadsRow lookup schema row := by
  obtain ⟨batch, hbatch, -, hschema, hcells⟩ := hrow
  refine ⟨_, h.lookup_row hpos, ?_⟩
  intro column
  rcases hindex : schema.index_of column with _ | c
  · simp only [RowLookupView.column_view, hbatch, hschema, hindex, Option.bind_none]
  · have hlt : c < batch.columns.length := by
      rw [batch.column_count, hschema]
      exact Schema.index_of_lt hindex
    have hcolumn := List.getElem?_eq_getElem hlt
    refine ⟨batch.columns[c], RowLookupView.column_view_eq hbatch ?_ hcolumn, ?_⟩
    · rw [hschema, hindex]
    · rw [← hcells, RecordBatch.row, List.getElem?_map, hcolumn, Option.map_some]

end Rows

/-! ## Numbering the rows -/

namespace TableReadView

theorem length_cells (batches : List RecordBatch) :
    (cells batches).length = (batches.map RecordBatch.row_count).sum := by
  unfold cells
  rw [List.length_flatMap]
  simp only [List.length_map, List.length_range]
  congr 1
  refine List.ext_getElem (by simp) fun i _ _ => by simp

/-- The place of a row in the list of places is its number. -/
theorem getElem?_cells {batches : List RecordBatch} {p : Nat × Nat} (h : Physical batches p) :
    (cells batches)[ordinal (batches.map RecordBatch.row_count) p]? = some p := by
  obtain ⟨b, o⟩ := p
  obtain ⟨batch, hbatch, hlt⟩ := h
  have hlengths : (batches.zipIdx.map fun e =>
      (List.range e.1.row_count).map fun offset => (e.2, offset)).map List.length
      = batches.map RecordBatch.row_count := by
    refine List.ext_getElem (by simp) fun i _ _ => by simp
  have hblock : (batches.zipIdx.map fun e =>
      (List.range e.1.row_count).map fun offset => (e.2, offset))[b]?
      = some ((List.range batch.row_count).map fun offset => (b, offset)) := by
    rw [List.getElem?_map, List.getElem?_zipIdx, hbatch]
    simp
  change (batches.zipIdx.flatMap fun e =>
    (List.range e.1.row_count).map fun offset => (e.2, offset))[_]? = _
  rw [List.flatMap_def, ← hlengths, getElem?_flatten hblock (by simpa using hlt)]
  simp [hlt]

theorem position_of_build (batches : List RecordBatch) (r : RowId) :
    (build_position_map batches).position_of r = (cells batches)[r]? := by
  have hstep : ∀ (m : RowPositionMap) (e : (Nat × Nat) × Nat) (k : RowId),
      (m.insert e.2 e.1.1 e.1.2).position_of k
        = if e.2 = k then some e.1 else m.position_of k := by
    intro m e k
    rw [RowPositionMap.position_of_insert]
  have hnodup : ((cells batches).zipIdx.map Prod.snd).Nodup := by
    rw [List.zipIdx_map_snd]
    exact List.nodup_range'
  obtain ⟨hin, hout⟩ := foldl_obs (g := fun e _ => some e.1) hstep hnodup RowPositionMap.new
  change ((cells batches).zipIdx.foldl (fun (m : RowPositionMap) e => m.insert e.2 e.1.1 e.1.2)
    .new).position_of r = _
  rcases hr : (cells batches)[r]? with _ | p
  · rw [hout r, RowPositionMap.position_of_new]
    intro hmem
    obtain ⟨e, he, rfl⟩ := List.mem_map.1 hmem
    rw [List.mem_zipIdx_iff_getElem?.1 he] at hr
    cases hr
  · exact hin (p, r) (List.mem_zipIdx_iff_getElem?.2 hr)

/-- The numbers are those below the number of rows, and each row has one. -/
theorem build_bijective (batches : List RecordBatch) :
    Set.BijOn (build_position_map batches).position_of
      {r | r < (batches.map RecordBatch.row_count).sum} {p | ∃ q, p = some q ∧ Physical batches q} := by
  have hat : ∀ q, Physical batches q →
      (build_position_map batches).position_of (ordinal (batches.map RecordBatch.row_count) q)
        = some q := by
    intro q hq
    rw [position_of_build, getElem?_cells hq]
  refine ⟨?_, ?_, ?_⟩
  · intro r hr
    obtain ⟨q, hitem, rfl⟩ := exists_ordinal hr
    exact ⟨q, hat q (physical_of_item hitem), physical_of_item hitem⟩
  · intro r hr r' hr' heq
    obtain ⟨q, hitem, rfl⟩ := exists_ordinal hr
    obtain ⟨q', hitem', rfl⟩ := exists_ordinal hr'
    rw [hat q (physical_of_item hitem), hat q' (physical_of_item hitem')] at heq
    rw [Option.some.inj heq]
  · rintro _ ⟨q, rfl, hq⟩
    exact ⟨_, ordinal_lt hq.item, hat q hq⟩

/-- A row has the number of its place. -/
theorem ordinal_of_build {batches : List RecordBatch} {r : RowId} {p : Nat × Nat}
    (hr : (build_position_map batches).position_of r = some p) :
    r = ordinal (batches.map RecordBatch.row_count) p := by
  rw [position_of_build] at hr
  have hlt : r < (batches.map RecordBatch.row_count).sum := by
    rw [← length_cells]
    exact (List.getElem?_eq_some_iff.1 hr).1
  obtain ⟨q, hitem, rfl⟩ := exists_ordinal hlt
  rw [getElem?_cells (physical_of_item hitem), Option.some.injEq] at hr
  rw [hr]

theorem build_none {batches : List RecordBatch} {r : RowId}
    (hr : (batches.map RecordBatch.row_count).sum ≤ r) :
    (build_position_map batches).position_of r = none := by
  rw [position_of_build, List.getElem?_eq_none]
  rw [length_cells]
  exact hr

/-! ## Moving the positions -/

/-- The start of each block, as far as a `usize` goes. -/
theorem batch_offsets_eq (row_counts : List Nat) :
    batch_offsets row_counts
      = (List.range row_counts.length).map fun b => min (start row_counts b) u64_MAX := by
  have hfold : row_counts.foldl (fun (p : List Nat × Nat) row_count =>
      (p.1 ++ [p.2], saturating_add p.2 row_count)) ([], 0)
      = ((List.range row_counts.length).map fun b => min (start row_counts b) u64_MAX,
          min row_counts.sum u64_MAX) := by
    induction row_counts using List.reverseRecOn with
    | nil => rfl
    | append_singleton row_counts n ih =>
      have hbefore : ∀ b ∈ List.range row_counts.length,
          min (start (row_counts ++ [n]) b) u64_MAX = min (start row_counts b) u64_MAX := by
        intro b hb
        rw [start, start, List.take_append_of_le_length (List.mem_range.1 hb).le]
      have hlast : start (row_counts ++ [n]) row_counts.length = row_counts.sum := by
        rw [start, List.take_left']
        rfl
      rw [List.foldl_append, ih, List.length_append, List.length_singleton, List.range_succ,
        List.map_append, List.map_congr_left hbefore]
      simp only [List.foldl_cons, List.foldl_nil, List.map_cons, List.map_nil, hlast,
        List.sum_append, List.sum_singleton, saturating_add]
      congr 1
      omega
  exact congrArg Prod.fst hfold

/-- A position inside the batches is moved to its number. -/
theorem moved_eq {row_counts : List Nat} {p : Nat × Nat} (hitem : Item row_counts p)
    (hfits : row_counts.sum ≤ u64_MAX) : moved row_counts p = some (0, ordinal row_counts p) := by
  have hlt := ordinal_lt hitem
  obtain ⟨n, hn, ho⟩ := hitem
  have hb : p.1 < row_counts.length := (List.getElem?_eq_some_iff.1 hn).1
  have hbase : (batch_offsets row_counts)[p.1]? = some (start row_counts p.1) := by
    rw [batch_offsets_eq, List.getElem?_map, List.getElem?_range hb, Option.map_some,
      Nat.min_eq_left]
    unfold ordinal at hlt
    omega
  unfold moved
  rw [hbase, hn]
  simp only [if_pos ho, saturating_add]
  rw [Nat.min_eq_left]
  · rfl
  · unfold ordinal at hlt
    omega

end TableReadView

/-! ## Views -/

/-- What the kernel is documented to do, and that a batch counts its rows in a `usize`. -/
structure ConcatenatesRows [Concat] : Prop extends Concatenates where
  schema_eq : ∀ (schema : Schema) (batches : List RecordBatch) (merged : RecordBatch),
    (∀ b ∈ batches, b.schema = schema) → Concat.concat_batches schema batches = .ok merged →
    merged.schema = schema
  usize : ∀ (schema : Schema) (batches : List RecordBatch) (merged : RecordBatch),
    Concat.concat_batches schema batches = .ok merged → merged.row_count ≤ u64_MAX

namespace TableReadView

section Views

variable [Concat] {table_name : String} {tick : Tick} {spec : TableSpec}
  {batches : List RecordBatch} {schema : Schema}

/-- A view holds its batches as they are, and the map with them, or one merged batch. -/
theorem new_cases (table_name : String) (tick : Tick) (spec : TableSpec)
    (batches : List RecordBatch) (position_map : Option RowPositionMap) :
    new table_name tick batches spec position_map
        = { table_name, tick, batches, schema := spec
            position_map := position_map.getD (build_position_map batches) }
      ∨ ∃ first rest merged, batches = first :: rest
          ∧ Concat.concat_batches first.schema batches = .ok merged
          ∧ new table_name tick batches spec position_map
            = { table_name, tick, batches := [merged], schema := spec
                position_map := (position_map.map
                  (rebase_position_map · (batches.map RecordBatch.row_count))).getD
                    (build_position_map [merged]) } := by
  unfold new
  rcases batches with _ | ⟨first, _ | ⟨second, rest⟩⟩
  · left
    cases position_map <;> rfl
  · left
    cases position_map <;> rfl
  · rcases hc : Concat.concat_batches first.schema (first :: second :: rest) with e | merged
    · left
      cases position_map <;> simp only [hc] <;> rfl
    · right
      refine ⟨first, second :: rest, merged, rfl, hc, ?_⟩
      cases position_map <;> simp only [hc] <;> rfl

variable (hconcat : ConcatenatesRows) (hschema : ∀ b ∈ batches, b.schema = schema)
include hconcat hschema

/-- The merged batch has the rows of the batches, in order. -/
theorem merged_rows {first merged : RecordBatch} {rest : List RecordBatch}
    (hbatches : batches = first :: rest)
    (hc : Concat.concat_batches first.schema batches = .ok merged) :
    merged.schema = schema ∧ merged.rows = batches.flatMap RecordBatch.rows
      ∧ merged.row_count = (batches.map RecordBatch.row_count).sum
      ∧ merged.row_count ≤ u64_MAX := by
  have hfirst : first.schema = schema := by
    apply hschema
    rw [hbatches]
    exact List.mem_cons_self
  rw [hfirst] at hc
  have hrows := hconcat.rows schema batches merged hschema hc
  refine ⟨hconcat.schema_eq schema batches merged hschema hc, hrows, ?_,
    hconcat.usize schema batches merged hc⟩
  have hlen := congrArg List.length hrows
  rw [merged.length_rows, List.flatMap_def, List.length_flatten, map_length_rows] at hlen
  exact hlen

/-- A row of the batches, at its number in the merged batch. -/
theorem rowAt_merged {first merged : RecordBatch} {rest : List RecordBatch}
    (hbatches : batches = first :: rest)
    (hc : Concat.concat_batches first.schema batches = .ok merged) {p : Nat × Nat}
    {row : List Cell} (hrow : RowAt batches p schema row) :
    RowAt [merged] (0, ordinal (batches.map RecordBatch.row_count) p) schema row := by
  obtain ⟨hmerged, hrows, hcount, -⟩ := merged_rows hconcat hschema hbatches hc
  have hlt := ordinal_lt hrow.physical.item
  have hat := hrow.rows
  rw [← hrows, RecordBatch.rows, List.getElem?_map, List.getElem?_range (by omega), Option.map_some,
    Option.some.injEq] at hat
  exact ⟨merged, rfl, by omega, hmerged, hat⟩

theorem total_rows_new (table_name : String) (tick : Tick) (spec : TableSpec)
    (position_map : Option RowPositionMap) :
    (new table_name tick batches spec position_map).total_rows
      = (batches.map RecordBatch.row_count).sum := by
  rcases new_cases table_name tick spec batches position_map with h | ⟨first, rest, merged, hbatches, hc, h⟩
  · rw [h]
    rfl
  · rw [h, total_rows, List.map_singleton, List.sum_singleton]
    exact (merged_rows hconcat hschema hbatches hc).2.2.1

end Views

end TableReadView

/-! ## The rows of a view -/

/-- Every row of the batches is found under its id, in whatever place, and looked up there. -/
structure Reaches (view : TableReadView) (batches : List RecordBatch)
    (position_of : RowId → Option (Nat × Nat)) : Prop where
  found : ∀ r p schema row, position_of r = some p → RowAt batches p schema row →
    ∃ p', view.position_map.position_of r = some p' ∧ RowAt view.batches p' schema row
  read : ∀ q : QueryEngine, Published q view.table_name view → ∀ r p schema row,
    position_of r = some p → RowAt batches p schema row →
    ∃ lookup, q.lookup_row view.table_name r = .ok lookup ∧ ReadsRow lookup schema row
  total : view.total_rows = (batches.map RecordBatch.row_count).sum

/-- What is found is looked up. -/
theorem Reaches.of_found {view : TableReadView} {batches : List RecordBatch}
    {position_of : RowId → Option (Nat × Nat)}
    (found : ∀ r p schema row, position_of r = some p → RowAt batches p schema row →
      ∃ p', view.position_map.position_of r = some p' ∧ RowAt view.batches p' schema row)
    (total : view.total_rows = (batches.map RecordBatch.row_count).sum) :
    Reaches view batches position_of := by
  refine ⟨found, ?_, total⟩
  intro q hq r p schema row hr hrow
  obtain ⟨p', hr', hrow'⟩ := found r p schema row hr hrow
  exact hq.reads_row hr' hrow'

section Reached

variable [Concat] {batches : List RecordBatch} {schema : Schema}

/-- A view that is given a map. -/
theorem reaches_mapped (hconcat : ConcatenatesRows) (hschema : ∀ b ∈ batches, b.schema = schema)
    (table_name : String) (tick : Tick) (spec : TableSpec) {map : RowPositionMap}
    (hinside : ∀ r p, map.position_of r = some p → Physical batches p) :
    Reaches (.new table_name tick batches spec (some map)) batches map.position_of
      ∧ ∀ r, (TableReadView.new table_name tick batches spec (some map)).position_map.position_of r
          = none ↔ map.position_of r = none := by
  have htotal := TableReadView.total_rows_new hconcat hschema table_name tick spec (some map)
  rcases TableReadView.new_cases table_name tick spec batches (some map) with
    h | ⟨first, rest, merged, hbatches, hc, h⟩
  · -- the batches as they are, and the map as it is
    rw [h] at htotal ⊢
    exact ⟨.of_found (fun r p schema row hr hrow => ⟨p, hr, hrow⟩) htotal, fun r => Iff.rfl⟩
  · -- one batch, in which a row is at its number
    rw [h] at htotal ⊢
    obtain ⟨-, -, hcount, hsize⟩ := TableReadView.merged_rows hconcat hschema hbatches hc
    have hmoved : ∀ r p, map.position_of r = some p →
        (TableReadView.rebase_position_map map (batches.map RecordBatch.row_count)).position_of r
          = some (0, ordinal (batches.map RecordBatch.row_count) p) := by
      intro r p hr
      rw [TableReadView.position_of_rebase_eq, hr, Option.bind_some,
        TableReadView.moved_eq (hinside r p hr).item (by omega)]
    refine ⟨.of_found ?_ htotal, ?_⟩
    · intro r p schema' row hr hrow
      have hsame : schema' = schema := hrow.schema_eq hschema
      subst hsame
      exact ⟨_, hmoved r p hr, TableReadView.rowAt_merged hconcat hschema hbatches hc hrow⟩
    · intro r
      rcases hr : map.position_of r with _ | p
      · refine iff_of_true ?_ rfl
        exact (TableReadView.position_of_rebase_eq map _ r).trans (by rw [hr, Option.bind_none])
      · exact iff_of_false (by simpa using hmoved r p hr ▸ Option.some_ne_none _) (by simp)

/-- A view that numbers its rows. The numbers are those of the batches that it was made from. -/
theorem reaches_numbered (hconcat : ConcatenatesRows) (hschema : ∀ b ∈ batches, b.schema = schema)
    (table_name : String) (tick : Tick) (spec : TableSpec) :
    Reaches (.new table_name tick batches spec none) batches
      (TableReadView.build_position_map batches).position_of := by
  have htotal := TableReadView.total_rows_new hconcat hschema table_name tick spec none
  rcases TableReadView.new_cases table_name tick spec batches none with
    h | ⟨first, rest, merged, hbatches, hc, h⟩
  · rw [h] at htotal ⊢
    exact .of_found (fun r p schema row hr hrow => ⟨p, hr, hrow⟩) htotal
  · rw [h] at htotal ⊢
    obtain ⟨-, -, hcount, -⟩ := TableReadView.merged_rows hconcat hschema hbatches hc
    refine .of_found ?_ htotal
    intro r p schema' row hr hrow
    have hsame : schema' = schema := hrow.schema_eq hschema
    subst hsame
    -- the id is the number of the place, and in the merged batch the number is the place
    have hnumber : r = ordinal (batches.map RecordBatch.row_count) p :=
      TableReadView.ordinal_of_build hr
    have hlt := ordinal_lt hrow.physical.item
    have hphysical : Physical [merged] (0, ordinal (batches.map RecordBatch.row_count) p) :=
      ⟨merged, rfl, by omega⟩
    have hplace := TableReadView.getElem?_cells hphysical
    rw [List.map_singleton, ordinal_zero] at hplace
    refine ⟨_, ?_, TableReadView.rowAt_merged hconcat hschema hbatches hc hrow⟩
    exact (TableReadView.position_of_build [merged] r).trans (by rw [hnumber, hplace])

/-- A view of batches of one schema, merged or not, has the rows of the batches: each id of the map
that it is given leads to the row that it led to, and no other id to any; a view without a map
numbers the rows of the batches from zero on, each of them once. -/
theorem view_reaches_rows (hconcat : ConcatenatesRows)
    (hschema : ∀ b ∈ batches, b.schema = schema) (table_name : String) (tick : Tick)
    (spec : TableSpec) :
    (∀ map : RowPositionMap, (∀ r p, map.position_of r = some p → Physical batches p) →
        Reaches (.new table_name tick batches spec (some map)) batches map.position_of
          ∧ ∀ r, (TableReadView.new table_name tick batches spec (some map)).position_map.position_of r
              = none ↔ map.position_of r = none)
      ∧ let view := TableReadView.new table_name tick batches spec none
        Reaches view batches (TableReadView.build_position_map batches).position_of
          ∧ Set.BijOn (TableReadView.build_position_map batches).position_of
              {r | r < view.total_rows} {p | ∃ q, p = some q ∧ Physical batches q}
          ∧ Set.BijOn view.position_map.position_of
              {r | r < view.total_rows} {p | ∃ q, p = some q ∧ Physical view.batches q}
          ∧ ∀ r, view.total_rows ≤ r → view.position_map.position_of r = none := by
  refine ⟨fun map hinside => reaches_mapped hconcat hschema table_name tick spec hinside, ?_⟩
  intro view
  have htotal : view.total_rows = (batches.map RecordBatch.row_count).sum :=
    TableReadView.total_rows_new hconcat hschema table_name tick spec none
  -- a map is built after the merge, so it numbers the batches that the view holds
  have hmap : view.position_map = TableReadView.build_position_map view.batches := by
    rcases TableReadView.new_cases table_name tick spec batches none with
      h | ⟨first, rest, merged, -, -, h⟩
    · change (TableReadView.new _ _ _ _ _).position_map = _
      rw [h]
      exact congrArg TableReadView.build_position_map (congrArg TableReadView.batches h).symm
    · change (TableReadView.new _ _ _ _ _).position_map = _
      rw [h]
      exact congrArg TableReadView.build_position_map (congrArg TableReadView.batches h).symm
  refine ⟨reaches_numbered hconcat hschema table_name tick spec, ?_, ?_, ?_⟩
  · rw [htotal]
    exact TableReadView.build_bijective batches
  · rw [hmap]
    exact TableReadView.build_bijective view.batches
  · intro r hr
    rw [hmap]
    exact TableReadView.build_none hr

end Reached

/-! ### A kernel for one column of integers -/

def amount_schema : Schema :=
  { fields := [{ name := "amount", data_type := .Int64, nullable := true }] }

def amounts (values : List Int64) : RecordBatch where
  schema := amount_schema
  columns := [.Int64Array { values, nulls := none, nulls_len := by simp }]
  row_count := values.length
  column_types := rfl
  column_len c hc := by
    rw [List.mem_singleton.1 hc]
    rfl
  non_nullable := rfl

/-- The values of a batch of this kind. -/
def amounts_of (batch : RecordBatch) : Except String (List Int64) :=
  match batch.columns with
  | [.Int64Array a] => if batch = amounts a.values then .ok a.values else .error "not an amount"
  | _ => .error "not an amount"

/-- Batches of amounts are put one after the other; any others are refused. -/
@[reducible] def amounts_kernel : Concat where
  concat_batches schema batches :=
    match batches.mapM amounts_of with
    | .error e => .error e
    | .ok values =>
      if schema = amount_schema ∧ values.flatten.length ≤ u64_MAX then .ok (amounts values.flatten)
      else .error "not amounts, or too many"

theorem rows_amounts (values : List Int64) :
    (amounts values).rows = values.map fun v => [.Int64 v] := by
  refine List.ext_getElem (by simp [amounts]) ?_
  intro i hi hi'
  have hlt : i < values.length := by simpa using hi'
  simp [RecordBatch.rows, amounts, RecordBatch.row, ArrayRef.cell, PrimitiveArray.get,
    PrimitiveArray.is_null, hlt]

theorem amounts_of_ok {batch : RecordBatch} {values : List Int64}
    (h : amounts_of batch = .ok values) : batch = amounts values := by
  unfold amounts_of at h
  split at h
  · split at h
    · rename_i heq
      rw [← Except.ok.inj h]
      exact heq
    · cases h
  · cases h

theorem amounts_kernel_ok {schema : Schema} {batches : List RecordBatch} {merged : RecordBatch}
    (h : amounts_kernel.concat_batches schema batches = .ok merged) :
    ∃ values : List (List Int64), batches = values.map amounts ∧ schema = amount_schema
      ∧ values.flatten.length ≤ u64_MAX ∧ merged = amounts values.flatten := by
  unfold amounts_kernel at h
  simp only at h
  split at h
  · cases h
  · rename_i values hvalues
    split at h
    · rename_i hfits
      refine ⟨values, ?_, hfits.1, hfits.2, (Except.ok.inj h).symm⟩
      have hall := Attempt.mapM_ok.1 hvalues
      clear hvalues hfits h
      induction hall with
      | nil => rfl
      | cons hbatch _ ih => rw [List.map_cons, ← amounts_of_ok hbatch, ← ih]
    · cases h

theorem amounts_kernel_concatenates : @ConcatenatesRows amounts_kernel := by
  refine @ConcatenatesRows.mk amounts_kernel (@Concatenates.mk amounts_kernel ?_) ?_ ?_
  · intro schema batches merged _ h
    obtain ⟨values, rfl, -, -, rfl⟩ := amounts_kernel_ok h
    rw [rows_amounts, List.flatMap_map, List.map_flatten, List.flatMap_def]
    congr 1
    exact List.map_congr_left fun vs _ => (rows_amounts vs).symm
  · intro schema batches merged hschema h
    obtain ⟨values, -, rfl, -, rfl⟩ := amounts_kernel_ok h
    rfl
  · intro schema batches merged h
    obtain ⟨values, -, -, hsize, rfl⟩ := amounts_kernel_ok h
    exact hsize

/-- Two batches around an empty one. -/
def three_batches : List RecordBatch := [amounts [1, 2], amounts [], amounts [3]]

/-- The only row of the last batch, and the second of the first. -/
def two_ids : RowPositionMap := (RowPositionMap.new.insert 7 2 0).insert 9 0 1

/-- The row 7 is found in the merged batch. -/
theorem last_batch_reached :
    ∃ p, (@TableReadView.new amounts_kernel "stock" 1 three_batches (.new "stock")
          (some two_ids)).position_map.position_of 7 = some p
      ∧ RowAt (@TableReadView.new amounts_kernel "stock" 1 three_batches (.new "stock")
          (some two_ids)).batches p amount_schema [.Int64 3] := by
  have hschema : ∀ b ∈ three_batches, b.schema = amount_schema := by
    intro b hb
    simp only [three_batches, List.mem_cons, List.not_mem_nil, or_false] at hb
    rcases hb with rfl | rfl | rfl <;> rfl
  have hinside : ∀ r p, two_ids.position_of r = some p → Physical three_batches p := by
    intro r p hr
    simp only [two_ids, RowPositionMap.position_of_insert, RowPositionMap.position_of_new] at hr
    split at hr
    · rw [← Option.some.inj hr]
      exact ⟨_, rfl, by decide⟩
    · split at hr
      · rw [← Option.some.inj hr]
        exact ⟨_, rfl, by decide⟩
      · cases hr
  have hreached := (@view_reaches_rows amounts_kernel three_batches amount_schema
    amounts_kernel_concatenates hschema "stock" 1 (.new "stock")).1 two_ids hinside
  apply hreached.1.found 7 (2, 0)
  · simp [two_ids]
  · exact ⟨amounts [3], rfl, by decide, rfl, rfl⟩

end Scharnhorst
