/-
The primary-key index, compared with the rows.

An insert records its key and the cell it writes. Nothing else writes to the index: a
delete leaves the entry of its row, an update of the key column leaves the entry of the
old key, and a replace leaves all of them. So the index is coherent with the table only
as long as the diffs do not need it to change, apart from inserts, and `KeepsIndex` says
when that is, asked of the table before the diff.

A row's key is what the index builder of the store reads in the row's cell. The key an
insert records is the text of the JSON value instead, and the two can differ: `5.0` is
stored in a column of integers as `5`.
-/
import Scharnhorst.Bookkeeping
import Scharnhorst.Refinement

set_option autoImplicit false

namespace Scharnhorst

open Attempt Maps Addressing

/-! ## Keys of rows -/

section Text

variable [Render]

/-- The text of a cell. An array of a type that diffs cannot store is printed as a whole in
the source. -/
def cell_text : Cell → String
  | .Null => "null"
  | .Int64 v => toString v.toInt
  | .Int32 v => toString v.toInt
  | .UInt64 v => toString v.toNat
  | .Float64 v => Render.f64_to_string v
  | .Boolean v => toString v
  | .Utf8 v => v
  | .LargeUtf8 v => v
  | .Other v => v

def array_value_to_string (array : ArrayRef) (row_idx : Nat) : String :=
  cell_text (array.cell row_idx)

/-- The text of the key column among the cells of a row. -/
def key_text (schema : Schema) (pk_name : String) (row : List Cell) : Option String :=
  (schema.index_of pk_name).bind fun c => row[c]?.map cell_text

/-- The text that a JSON value has once it is stored in the key column. -/
def stored_text (schema : Schema) (pk_name : String) (value : Json) : Option String :=
  (schema.column pk_name).map fun (_, field) => cell_text (json_cell value field.data_type)

end Text

namespace VersionedTable

/-- The physical cell of a row. -/
def place (t : VersionedTable) (row : RowId) : Option (Tick × Nat × Nat) :=
  (t.locate row).map fun (loc, _) => (loc.tick, loc.batch_index, loc.row_index)

/-- The primary-key value of a row. -/
def key_of [Render] (t : VersionedTable) (pk_name : String) (row : RowId) : Option String :=
  (t.locate row).bind fun (loc, batch) =>
    (batch.schema.index_of pk_name).bind fun c =>
      batch.columns[c]?.map fun array => array_value_to_string array loc.row_index

/-- A key is in the index exactly if a live row has it, and then under the cell of such a
row. -/
structure IndexCoherent [Render] (t : VersionedTable) (pk_name : String) : Prop where
  sound : ∀ k l, t.primary_key_index.lookup_latest k = some l →
    ∃ r, t.place r = some l ∧ t.key_of pk_name r = some k
  complete : ∀ k r, t.key_of pk_name r = some k → (t.primary_key_index.lookup_latest k).isSome

end VersionedTable

section Coherence

variable [Render] {reg : TypeRegistry} {schema : Schema} {pk_name : String} {last tick : Tick}
  {t t' : VersionedTable} {rows : Rows}

omit [Render] in
/-- In a table that stores rows, a live row is located at its batch index. -/
theorem StoresRows.place_eq (h : StoresRows t rows) (hshape : Tidy schema last t) (r : RowId) :
    t.place r = (batch_of t r).bind fun b => (loc_tick t.versions b).map fun tick => (tick, b, 0) := by
  rcases hloc : t.locate r with _ | ⟨loc, batch⟩
  · have hnone : t.resolve r = none := by rw [VersionedTable.resolve, hloc, Option.map_none]
    rw [(h.shows hshape r).2] at hnone
    have hat : batch_of t r = none := by
      have hsome := h.isSome_eq r
      rw [hnone] at hsome
      simpa using hsome.symm
    simp [VersionedTable.place, hloc, hat]
  · obtain ⟨hzero, -, -, -, hat, -⟩ := hshape.located hloc
    have htick := (VersionedTable.locate_eq_some.1 hloc).2.1
    simp [VersionedTable.place, hloc, hat, htick, hzero]

/-- And its key is that of the row stored. -/
theorem StoresRows.key_of_eq (h : StoresRows t rows) (hshape : Tidy schema last t) (r : RowId) :
    t.key_of pk_name r = (rows r).bind (key_text schema pk_name) := by
  have hshows := (h.shows hshape r).2
  rcases hloc : t.locate r with _ | ⟨loc, batch⟩
  · rw [VersionedTable.resolve, hloc, Option.map_none] at hshows
    simp [VersionedTable.key_of, hloc, ← hshows]
  · obtain ⟨-, hs, -⟩ := hshape.located hloc
    rw [VersionedTable.resolve, hloc, Option.map_some] at hshows
    simp [VersionedTable.key_of, hloc, ← hshows, key_text, hs, RecordBatch.row,
      array_value_to_string, Function.comp_def]

/-- What coherence says of the rows that the table stores. -/
theorem StoresRows.coherent_iff (h : StoresRows t rows) (hshape : Tidy schema last t) :
    t.IndexCoherent pk_name
      ↔ Indexed t.place (key_text schema pk_name) rows t.primary_key_index.lookup_latest := by
  have hkey : ∀ k r, t.key_of pk_name r = some k
      ↔ ∃ row, rows r = some row ∧ key_text schema pk_name row = some k := by
    intro k r
    rw [h.key_of_eq hshape, Option.bind_eq_some_iff]
  constructor
  · intro hc
    refine ⟨fun k l hk => ?_, fun k r row hrow hkt => hc.complete k r ((hkey k r).2 ⟨row, hrow, hkt⟩)⟩
    obtain ⟨r, hplace, hk⟩ := hc.sound k l hk
    obtain ⟨row, hrow, hkt⟩ := (hkey k r).1 hk
    exact ⟨r, row, hplace, hrow, hkt⟩
  · intro hi
    refine ⟨fun k l hk => ?_, fun k r hk => ?_⟩
    · obtain ⟨r, row, hplace, hrow, hkt⟩ := hi.sound k l hk
      exact ⟨r, hplace, (hkey k r).2 ⟨row, hrow, hkt⟩⟩
    · obtain ⟨row, hrow, hkt⟩ := (hkey k r).1 hk
      exact hi.complete k r row hrow hkt

/-! ## When a diff keeps the index coherent -/

/-- The diff leaves the index coherent: an insert names its key as it will be stored and is
given a free batch index, a delete is of a row that the index does not lead to, an update
of the key column likewise, unless the key stays the same, and a replace puts in rows that
the index has by chance. -/
def KeepsKey (schema : Schema) (pk_name : String) (tick : Tick) (t : VersionedTable) : Diff → Prop
  | .Insert name row values =>
    FreshInsert tick t (.Insert name row values)
      ∧ (index_key (some pk_name) values).isSome
      ∧ index_key (some pk_name) values = stored_text schema pk_name (values.getD pk_name .null)
  | .Update _ row column value =>
    column = pk_name → stored_text schema pk_name value = t.key_of pk_name row
      ∨ ((∀ k ∈ t.key_of pk_name row, t.primary_key_index.lookup_latest k ≠ t.place row)
        ∧ ∀ k ∈ stored_text schema pk_name value, (t.primary_key_index.lookup_latest k).isSome)
  | .Delete _ row =>
    ∀ k ∈ t.key_of pk_name row, t.primary_key_index.lookup_latest k ≠ t.place row
  | .ReplaceTable _ rows =>
    (∀ e ∈ t.primary_key_index.latest_entries.toList, ∃ row ∈ rows.zipIdx,
        e.2 = (tick, row.2, 0) ∧ stored_text schema pk_name (row.1.getD pk_name .null) = some e.1)
      ∧ ∀ row ∈ rows, ∀ k ∈ stored_text schema pk_name (row.getD pk_name .null),
        (t.primary_key_index.lookup_latest k).isSome

/-- The key text of a stored row is the stored text of its key. -/
theorem key_text_json_row (schema : Schema) (pk_name : String) (values : JsonMap) :
    key_text schema pk_name (json_row values schema)
      = stored_text schema pk_name (values.getD pk_name .null) := by
  unfold key_text stored_text Schema.column
  rcases hc : schema.index_of pk_name with _ | c
  · rfl
  · have hlt := Schema.index_of_lt hc
    have hname : schema.fields[c].name = pk_name := by
      have := (List.findIdx?_eq_some_iff_getElem.1 hc).2.1
      simpa using this
    simp [json_row, List.getElem?_eq_getElem hlt, hname]

/-- Setting a column changes the key text only if it is the key column. -/
theorem key_text_set_cell {schema : Schema} {pk_name column : String} {value : Json}
    {row : List Cell} :
    key_text schema pk_name (set_cell schema column value row)
      = if column = pk_name then
          (key_text schema pk_name row).bind fun _ => stored_text schema pk_name value
        else key_text schema pk_name row := by
  have hfield : ∀ name c, schema.index_of name = some c →
      ∃ f, schema.fields[c]? = some f ∧ f.name = name := by
    intro name c hc
    have hlt := Schema.index_of_lt hc
    have hname := (List.findIdx?_eq_some_iff_getElem.1 hc).2.1
    exact ⟨schema.fields[c], List.getElem?_eq_getElem hlt, by simpa using hname⟩
  unfold key_text stored_text set_cell Schema.column
  by_cases hcol : column = pk_name
  · subst hcol
    rcases hc : schema.index_of column with _ | c
    · simp
    · obtain ⟨f, hf, -⟩ := hfield column c hc
      rcases hrow : row[c]? with _ | x
      · simp [hf, List.getElem?_set, List.getElem?_eq_none_iff.1 hrow]
      · simp [hf, hrow, List.getElem?_set_self (List.getElem?_eq_some_iff.1 hrow).1]
  · rw [if_neg hcol]
    rcases hc : schema.index_of pk_name with _ | c
    · simp
    · rcases hc' : schema.index_of column with _ | c'
      · simp
      · obtain ⟨f, hf, hname⟩ := hfield pk_name c hc
        obtain ⟨f', hf', hname'⟩ := hfield column c' hc'
        -- two fields of one name are found at one index
        have hne : c' ≠ c := fun heq => by
          subst heq
          obtain rfl := Option.some.inj (hf.symm.trans hf')
          exact hcol (hname'.symm.trans hname)
        simp [hf', List.getElem?_set_ne hne]

/-! ## One diff -/

section Steps

variable (h : t.IndexCoherent pk_name) (hrows : StoresRows t rows) (hshape : Tidy schema last t)

include h hrows hshape

/-- An update that keeps its row's key, or changes one that the index does not lead to. -/
theorem index_update {name column : String} {row : RowId} {value : Json}
    (hkeeps : KeepsKey schema pk_name tick t (.Update name row column value))
    (hd : apply_to_table reg tick (.Update name row column value) t = (.ok (), t'))
    (hrows' : StoresRows t' (rows.modify row (set_cell schema column value)))
    (hshape' : Tidy schema tick t') : t'.IndexCoherent pk_name := by
  have hindexed := (hrows.coherent_iff hshape).1 h
  obtain ⟨loc, batch, patched, hloc, -, rfl⟩ := apply_update_ok tick hd
  -- an update moves no row
  have hplace : ∀ r, (t.set_batch loc patched).place r = t.place r := by
    intro r
    have hv := VersionedTable.versions_of_locate hloc
    rw [hrows'.place_eq hshape', hrows.place_eq hshape]
    simp only [VersionedTable.set_batch, loc_tick_set hv]
    rfl
  rw [hrows'.coherent_iff hshape']
  rw [show (t.set_batch loc patched).place = t.place from funext hplace]
  refine hindexed.modify fun cells hcells => ?_
  have hkey : t.key_of pk_name row = key_text schema pk_name cells := by
    rw [hrows.key_of_eq hshape, hcells, Option.bind_some]
  rw [key_text_set_cell]
  by_cases hcol : column = pk_name
  -- the text of the key may change, but then no entry of the index leads to the old one
  · rw [if_pos hcol]
    rcases hk : key_text schema pk_name cells with _ | k
    · exact .inl rfl
    rw [hk] at hkey
    rcases hkeeps hcol with hsame | ⟨helse, hentry⟩
    · exact .inl (hsame.trans hkey)
    · refine .inr ⟨fun v hv => ?_, fun v hv => hentry v hv⟩
      exact helse v (hkey.trans hv)
  · rw [if_neg hcol]
    exact .inl rfl

/-- A delete of a row that the index does not lead to. -/
theorem index_delete {name : String} {row : RowId}
    (hkeeps : KeepsKey schema pk_name tick t (.Delete name row))
    (hd : apply_to_table reg tick (.Delete name row) t = (.ok (), t'))
    (hrows' : StoresRows t' (rows.delete row)) (hshape' : Tidy schema tick t') :
    t'.IndexCoherent pk_name := by
  have hindexed := (hrows.coherent_iff hshape).1 h
  obtain ⟨loc, batch, patched, hloc, -, rfl⟩ := apply_delete_ok tick hd
  rw [hrows'.coherent_iff hshape']
  refine hindexed.delete (fun r => ?_) fun cells v hcells hv => ?_
  · have hv := VersionedTable.versions_of_locate hloc
    rw [hrows'.place_eq hshape', hrows.place_eq hshape]
    simp only [VersionedTable.set_batch, loc_tick_set hv, batch_of,
      RowPositionMap.position_of_remove]
    split <;> rfl
  · refine hkeeps v ?_
    rw [hrows.key_of_eq hshape, hcells, Option.bind_some]
    exact hv

/-- An insert under the key it stores. -/
theorem index_insert {name : String} {row : RowId} {values : JsonMap} (hl : last ≤ tick)
    (hpk : pk_col_name t = some pk_name)
    (hkeeps : KeepsKey schema pk_name tick t (.Insert name row values))
    (hd : apply_to_table reg tick (.Insert name row values) t = (.ok (), t'))
    (hrows' : StoresRows t' (rows.insert row (json_row values schema)))
    (hshape' : Tidy schema tick t') : t'.IndexCoherent pk_name := by
  have hindexed := (hrows.coherent_iff hshape).1 h
  obtain ⟨hfresh, hsome, htext⟩ := hkeeps
  obtain ⟨k, hk⟩ := Option.isSome_iff_exists.1 hsome
  obtain ⟨s, batch, -, hnew, -, rfl⟩ := apply_insert_ok hd
  have hnone : batch_of t row = none := by rw [batch_of, hnew, Option.map_none]
  rw [hrows'.coherent_iff hshape']
  -- the new row is the last batch of the tick, and no other row stands there
  refine hindexed.insert (l := (tick, (t.batches tick).length, 0)) (v := k) (hrows.dead row hnone)
    (fun r => ?_) ?_ fun k' => ?_
  · rw [hrows'.place_eq hshape', hrows.place_eq hshape]
    simp only [batch_of, RowPositionMap.position_of_insert, VersionedTable.batches,
      loc_tick_push batch (hshape.mono hl).ticks]
    split
    · simp
    · rcases hp : t.position_map.position_of r with _ | ⟨b, o⟩
      · rfl
      · have hne : b ≠ (t.batches tick).length := fun heq =>
          hfresh r (by rw [batch_of, hp, Option.map_some, heq])
        simp only [Option.map_some, Option.bind_some]
        rw [if_neg (show b ≠ (t.versions.getD tick []).length from hne)]
  · rw [key_text_json_row, ← htext, hk]
  · -- the ticks of the index are not past this one
    have hnewest : newest tick (t.batches tick).length (t.primary_key_index.lookup_latest k)
        = (tick, (t.batches tick).length, 0) := by
      rcases hl' : t.primary_key_index.lookup_latest k with _ | l
      · rfl
      · obtain ⟨r, cells, hplace, -⟩ := hindexed.sound k l hl'
        rw [hrows.place_eq hshape] at hplace
        obtain ⟨b, -, hb⟩ := Option.bind_eq_some_iff.1 hplace
        obtain ⟨t₀, ht₀, rfl⟩ := Option.map_eq_some_iff.1 hb
        obtain ⟨⟨bs, hbs, -⟩, -⟩ := loc_tick_eq_some.1 ht₀
        exact if_pos (Nat.le_trans (hshape.ticks t₀ bs hbs) hl)
    rw [PrimaryKeyIndex.lookup_latest] at hnewest ⊢
    simp only [index_row_eq, hpk, hk, Option.elim_some, latest_insert]
    split
    · rename_i heq
      rw [← heq, hnewest]
    · rfl

end Steps

/-- A replace by rows that the index already has. -/
theorem index_replace {name : String} {new : List JsonMap}
    (hkeeps : KeepsKey schema pk_name tick t (.ReplaceTable name new))
    (hd : apply_to_table reg tick (.ReplaceTable name new) t = (.ok (), t'))
    (hrows' : StoresRows t' (replaced_rows schema (pk_col_name t) new))
    (hshape' : Tidy schema tick t') : t'.IndexCoherent pk_name := by
  obtain ⟨hsound, hcomplete⟩ := hkeeps
  obtain ⟨hcount, hentry, hindex⟩ := booked_step hd
  -- the index is not rebuilt: the new rows have to be what it says
  have hrow : ∀ r b, batch_of t' r = some b → ∃ row, new[b]? = some row
      ∧ replaced_rows schema (pk_col_name t) new r = some (json_row row schema) := by
    intro r b hb
    rw [batch_of, hentry r] at hb
    simp only [entry_move, Option.getD_some, replaced_entry, Option.map_map,
      Option.map_eq_some_iff] at hb
    obtain ⟨⟨row, i⟩, hfind, rfl⟩ := hb
    refine ⟨row, List.mem_zipIdx_iff_getElem?.1 (List.mem_of_find?_eq_some hfind), ?_⟩
    rw [replaced_rows, hfind, Option.map_some]
  rw [hrows'.coherent_iff hshape', hindex]
  refine ⟨fun k l hk => ?_, fun k r cells hcells hkt => ?_⟩
  · obtain ⟨⟨row, i⟩, hmem, rfl, htext⟩ :=
      hsound (k, l) (Std.ExtTreeMap.mem_toList_iff_getElem?_eq_some.2 hk)
    have hrow_i := List.mem_zipIdx_iff_getElem?.1 hmem
    have hlt := (List.getElem?_eq_some_iff.1 hrow_i).1
    obtain ⟨r, hr⟩ := apply_replace_onto hd hlt
    have hat : batch_of t' r = some i := by rw [batch_of, hr, Option.map_some]
    obtain ⟨row', hrow', hcells⟩ := hrow r i hat
    obtain rfl := Option.some.inj (hrow_i.symm.trans hrow')
    refine ⟨r, _, ?_, hcells, (key_text_json_row schema pk_name row).trans htext⟩
    have hlt' : i < (t'.batches tick).length := Nat.lt_of_lt_of_eq hlt hcount.symm
    have hv := VersionedTable.versions_of_lt hlt'
    rw [hrows'.place_eq hshape', hat, Option.bind_some, loc_tick_latest hv hshape'.ticks hlt',
      Option.map_some]
  · obtain ⟨b, hb⟩ : ∃ b, batch_of t' r = some b := by
      rw [← Option.isSome_iff_exists, ← hrows'.isSome_eq, hcells]
      rfl
    obtain ⟨row, hrow_b, hcells'⟩ := hrow r b hb
    obtain rfl := Option.some.inj (hcells.symm.trans hcells')
    exact hcomplete row (List.mem_of_getElem? hrow_b) k
      ((key_text_json_row schema pk_name row).symm.trans hkt)

theorem KeepsKey.fresh {d : Diff} (h : KeepsKey schema pk_name tick t d) : FreshInsert tick t d := by
  cases d with
  | Insert name row values => exact h.1
  | Update name row column value => trivial
  | Delete name row => trivial
  | ReplaceTable name rows => trivial

/-- One diff. -/
theorem index_step {d : Diff} (h : t.IndexCoherent pk_name) (hrows : StoresRows t rows)
    (hshape : Tidy schema last t) (hl : last ≤ tick) (hspec : t.spec.isSome)
    (hschema : table_schema reg t = schema) (hpk : pk_col_name t = some pk_name)
    (hkeeps : KeepsKey schema pk_name tick t d)
    (hd : apply_to_table reg tick d t = (.ok (), t')) :
    t'.IndexCoherent pk_name ∧ ∃ rows', StoresRows t' rows' := by
  have hshape' := hshape.step hl hspec hschema hd
  have hrows' := hrows.step hshape hl hspec hschema hkeeps.fresh hd
  refine ⟨?_, _, hrows'⟩
  cases d with
  | Update name row column value => exact index_update h hrows hshape hkeeps hd hrows' hshape'
  | Insert name row values => exact index_insert h hrows hshape hl hpk hkeeps hd hrows' hshape'
  | Delete name row => exact index_delete h hrows hshape hkeeps hd hrows' hshape'
  | ReplaceTable name new => exact index_replace hkeeps hd hrows' hshape'

end Coherence

/-! ## Runs -/

section Runs

variable [Render]

/-- The tables are created, and their indexes too. -/
structure ArrowStore.CreatedIndexes (s : ArrowStore) : Prop where
  created : s.Created
  index : ∀ (n : String) (lock : RwLock VersionedTable), s.tables[n]? = some lock →
    lock.data.primary_key_index = .new

omit [Render] in
theorem ArrowStore.CreatedIndexes.create_table {s s' : ArrowStore} {spec : TableSpec}
    {mode : MutationMode} {id : TableId} (hs : s.CreatedIndexes)
    (h : s.create_table spec mode = (.ok id, s')) : s'.CreatedIndexes := by
  refine ⟨hs.created.create_table h, ?_⟩
  obtain ⟨-, rfl⟩ := ArrowStore.create_table_ok h
  intro n lock hlock
  simp only [ArrowStore.with_created_tables, Std.ExtTreeMap.getElem?_insert] at hlock
  split at hlock
  · obtain rfl : _ = lock := by simpa using hlock
    rfl
  · exact hs.index n lock hlock

omit [Render] in
theorem ArrowStore.CreatedIndexes.into_simulation {s s' : ArrowStore} {r : ArrowStoreResult Unit}
    (hs : s.CreatedIndexes) (h : s.into_simulation = (r, s')) : s'.CreatedIndexes := by
  refine ⟨hs.created.into_simulation h, ?_⟩
  unfold ArrowStore.into_simulation at h
  split at h
  · obtain ⟨-, rfl⟩ := Prod.mk.inj h
    exact hs.index
  · split at h <;> obtain ⟨-, rfl⟩ := Prod.mk.inj h <;> exact hs.index

/-- The diff keeps the index of the table it names, if that table has a key. -/
def KeepsIndex (tick : Tick) (s : ArrowStore) (d : Diff) : Prop :=
  ∀ lock ∈ s.tables[d.table]?, ∀ pk_name ∈ pk_col_name lock.data,
    KeepsKey (table_schema s.type_registry.data lock.data) pk_name tick lock.data d

/-- Every diff of the commit does, in the state it is applied in. -/
def KeepsIndexes (s : ArrowStore) (c : Tick × List Diff) : Prop :=
  Guarded (ArrowStore.apply_diff c.1) (KeepsIndex c.1) s c.2

instance (schema : Schema) (pk_name : String) (tick : Tick) (t : VersionedTable) (d : Diff) :
    Decidable (KeepsKey schema pk_name tick t d) := by
  cases d <;> unfold KeepsKey <;> infer_instance

instance (tick : Tick) (s : ArrowStore) (d : Diff) : Decidable (KeepsIndex tick s d) := by
  unfold KeepsIndex
  infer_instance

instance (s : ArrowStore) (c : Tick × List Diff) : Decidable (KeepsIndexes s c) :=
  Guarded.decidable s c.2

/-- The store between two diffs. -/
structure Indexes (cat : Catalog) (last : Tick) (s : ArrowStore) : Prop where
  shaped : Shaped cat last s
  coherent : ∀ (n : String) (lock : RwLock VersionedTable), s.tables[n]? = some lock →
    ∀ pk_name ∈ pk_col_name lock.data,
      lock.data.IndexCoherent pk_name ∧ ∃ rows, StoresRows lock.data rows

theorem ArrowStore.CreatedIndexes.indexes {s : ArrowStore} (h : s.CreatedIndexes) (last : Tick) :
    Indexes s.catalog last s := by
  refine ⟨h.created.shaped last, fun n lock hn pk_name _ => ?_⟩
  have hrows := h.created.holds n lock hn
  refine ⟨(hrows.coherent_iff ((h.created.shaped last).tidy n lock hn).2).2 ?_, _, hrows⟩
  have hempty : lock.data.primary_key_index.lookup_latest = fun _ => none := by
    funext k
    rw [h.index n lock hn, PrimaryKeyIndex.lookup_latest, PrimaryKeyIndex.new]
    exact Std.ExtTreeMap.getElem?_empty
  rw [hempty]
  exact .empty _ _

theorem Indexes.apply_diff {cat : Catalog} {last tick : Tick} {s s' : ArrowStore} {d : Diff}
    (h : Indexes cat last s) (hl : last ≤ tick) (hkeeps : KeepsIndex tick s d)
    (hd : ArrowStore.apply_diff tick s d = (.ok (), s')) : Indexes cat tick s' := by
  refine ⟨h.shaped.apply_diff hl hd, ?_⟩
  obtain ⟨lock, t', hlock, -, hrun, rfl⟩ := ArrowStore.apply_diff_ok hd
  intro n lock' hn pk_name hpk
  rw [ArrowStore.tables_set_table] at hn
  split at hn
  · rename_i heq
    subst heq
    obtain rfl : _ = lock' := by simpa using hn
    have hsame : t'.spec = lock.data.spec := by
      simpa only [hrun] using (apply_to_table_setup s.type_registry.data tick d lock.data).spec
    have hpk' : pk_col_name lock.data = some pk_name := by
      rw [pk_col_name, ← hsame]
      exact hpk
    obtain ⟨hspec, htidy⟩ := h.shaped.tidy _ lock hlock
    have hschema : table_schema s.type_registry.data lock.data = (cat d.table).1 := by
      rw [← h.shaped.catalog, ArrowStore.catalog_of_some hlock]
    obtain ⟨hcoherent, rows, hrows⟩ := h.coherent _ lock hlock pk_name hpk'
    have hkey := hkeeps lock hlock pk_name hpk'
    rw [hschema] at hkey
    exact index_step hcoherent hrows htidy hl hspec hschema hpk' hkey hrun
  · exact h.coherent n lock' hn pk_name hpk

theorem Indexes.apply_commit {cat : Catalog} {last : Tick} {s s' : ArrowStore}
    {c : Tick × List Diff} (h : Indexes cat last s) (hl : last ≤ c.1) (hkeeps : KeepsIndexes s c)
    (hc : Scharnhorst.apply_commit s c = (.ok (), s')) : Indexes cat c.1 s' := by
  obtain ⟨-, -, hrun⟩ := ArrowStore.apply_diffs_ok.1 hc
  have hmono : Indexes cat c.1 s := ⟨h.shaped.mono hl, h.coherent⟩
  exact forEach_simulates (t := ()) (R := fun s (_ : Unit) => Indexes cat c.1 s) (g := fun u _ => u)
    (fun s _ d s' hs hd hok => hs.apply_diff (Nat.le_refl _) hd hok) hmono hkeeps hrun

/-- From created tables, in a run of commits at ticks that do not go back whose diffs all
keep the index, the index of every table with a key is coherent with it. -/
theorem indexes_coherent {s s' : ArrowStore} {cs : List (Tick × List Diff)}
    (hs : s.CreatedIndexes) (hticks : (cs.map Prod.fst).Pairwise (· ≤ ·))
    (hkeeps : Guarded apply_commit KeepsIndexes s cs)
    (hrun : forEach apply_commit s cs = (.ok (), s')) (n : String) (lock : RwLock VersionedTable)
    (hn : s'.tables[n]? = some lock) (pk_name : String) (hpk : pk_col_name lock.data = some pk_name) :
    lock.data.IndexCoherent pk_name := by
  have hall : ∀ last, (∀ c ∈ cs, last ≤ c.1) → Indexes s.catalog last s →
      ∃ last', Indexes s.catalog last' s' := by
    intro last hl h
    generalize s.catalog = cat at h ⊢
    clear hs
    induction cs generalizing s last with
    | nil =>
        obtain rfl : s = s' := by simpa using hrun
        exact ⟨last, h⟩
    | cons c cs ih =>
        obtain ⟨mid, hc, hcs⟩ := forEach_cons_ok.1 hrun
        rw [List.map_cons, List.pairwise_cons] at hticks
        exact ih hticks.2 (hkeeps.2 mid hc) hcs c.1
          (fun c' hc' => hticks.1 c'.1 (List.mem_map_of_mem hc'))
          (h.apply_commit (hl c List.mem_cons_self) hkeeps.1 hc)
  obtain ⟨last, hindexes⟩ := hall 0 (fun _ _ => Nat.zero_le _) (hs.indexes 0)
  exact (hindexes.coherent n lock hn pk_name hpk).1

omit [Render] in
theorem ArrowStore.CreatedIndexes.new : ArrowStore.new.CreatedIndexes := by
  refine ⟨ArrowStore.created_new, fun n lock hlock => ?_⟩
  simp [ArrowStore.new] at hlock

omit [Render] in
theorem items_store_indexes : items_store.CreatedIndexes := by
  have h : (ArrowStore.new.create_table items_spec .Patchable).1 = .ok 0 := by decide +kernel
  exact (ArrowStore.CreatedIndexes.new.create_table (Prod.ext h rfl)).into_simulation rfl

end Runs

section Items

attribute [local instance] plain_text

/-- Two inserts and an update of the quantity. -/
def stocked_run : List (Tick × List Diff) :=
  [(0, [.Insert "items" 1 (item 1 10), .Insert "items" 2 (item 2 20)]),
    (1, [.Update "items" 1 "qty" (number 11)])]

theorem stocked_items_indexed :
    (items_table (forEach apply_commit items_store stocked_run).2).IndexCoherent "id" := by
  have hok : (forEach apply_commit items_store stocked_run).1 = .ok () := by decide +kernel
  have htable : (forEach apply_commit items_store stocked_run).2.tables["items"]?.isSome := by
    decide +kernel
  have hpk : pk_col_name (items_table (forEach apply_commit items_store stocked_run).2)
      = some "id" := by
    decide +kernel
  exact indexes_coherent items_store_indexes (by decide) (by decide +kernel) (eq_of_verdict hok)
    "items" _ (items_table_eq htable) "id" hpk

/-- One row, inserted at tick 0 and then deleted, updated or replaced at tick 1. -/
def items_after (d : Diff) : ArrowStore :=
  (forEach apply_commit items_store [(0, [.Insert "items" 1 (item 1 10)]), (1, [d])]).2

/-- The index keeps the entry of the key "1" whatever is done, although no row is left
after the delete, and the keys of the rows after the other two have none. -/
theorem stale_entries :
    items_store.CreatedIndexes
      ∧ (∀ d ∈ [.Delete "items" 1, .Update "items" 1 "id" (number 7),
            .ReplaceTable "items" [item 2 20]],
          (forEach apply_commit items_store [(0, [.Insert "items" 1 (item 1 10)]), (1, [d])]).1
              = .ok ()
            ∧ (items_table (items_after d)).primary_key_index.lookup_latest "1" = some (0, 0, 0))
      ∧ ¬ (items_table (items_after (.Delete "items" 1))).IndexCoherent "id"
      ∧ ¬ (items_table (items_after (.Update "items" 1 "id" (number 7)))).IndexCoherent "id"
      ∧ ¬ (items_table (items_after (.ReplaceTable "items" [item 2 20]))).IndexCoherent "id" := by
  have hempty : (items_table (items_after (.Delete "items" 1))).position_map = .new := by
    decide +kernel
  have hdelete : (items_table (items_after (.Delete "items" 1))).primary_key_index.lookup_latest "1"
      = some (0, 0, 0) := by
    decide +kernel
  have hupdate : ∃ k r, (items_table (items_after (.Update "items" 1 "id" (number 7)))).key_of
      "id" r = some k ∧ (items_table (items_after
        (.Update "items" 1 "id" (number 7)))).primary_key_index.lookup_latest k = none :=
    ⟨"7", 1, by decide +kernel⟩
  have hreplace : ∃ k r, (items_table (items_after (.ReplaceTable "items" [item 2 20]))).key_of
      "id" r = some k ∧ (items_table (items_after
        (.ReplaceTable "items" [item 2 20]))).primary_key_index.lookup_latest k = none :=
    ⟨"2", 2, by decide +kernel⟩
  refine ⟨items_store_indexes, by decide +kernel, fun h => ?_, fun h => ?_, fun h => ?_⟩
  · -- no row is anywhere
    obtain ⟨r, hplace, -⟩ := h.sound "1" _ hdelete
    simp [VersionedTable.place, VersionedTable.locate, hempty] at hplace
  · obtain ⟨k, r, hkey, hnone⟩ := hupdate
    simpa [hnone] using h.complete k r hkey
  · obtain ⟨k, r, hkey, hnone⟩ := hreplace
    simpa [hnone] using h.complete k r hkey

end Items

end Scharnhorst
