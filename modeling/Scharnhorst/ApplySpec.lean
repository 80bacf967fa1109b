/-
What the four diffs do, one lemma per outcome.

The success lemmas name everything a caller may need: where the row was, what the
rewritten batch keeps and holds, what was booked. The failure lemmas say what is
left: the table itself, except for a replace, whose position map has already been
rebuilt up to the row that failed. That no failure is a panic is proved last; it is
what keeps a failed diff from poisoning the table's lock.
-/
import Scharnhorst.Apply

set_option autoImplicit false

namespace Scharnhorst

open Attempt Maps

/-! ## One patch -/

/-- Row `o` of a batch rewritten by `g` and nothing else changed. The cells are those
of the batch only if its null buffers start at bit 0; the shape never changes. -/
structure Rewrites (batch patched : RecordBatch) (o : Nat) (g : List Cell → List Cell) :
    Prop where
  schema_eq : patched.schema = batch.schema
  row_count_eq : patched.row_count = batch.row_count
  aligned : patched.Aligned
  row_eq : batch.Aligned → ∀ i < batch.row_count,
    patched.row i = if o = i then g (batch.row i) else batch.row i

theorem group_locations_single (loc : RowLocation) :
    (group_locations [loc]).toList = [(loc.batch_index, [(loc.row_index, 0)])] := by
  simp [group_locations, toList_insert_empty]

/-- The single patch of an update or a delete, on a batch that is there. -/
theorem apply_patch_single {table : VersionedTable} (table_name : String) (loc : RowLocation)
    {versions : List RecordBatch} {original : RecordBatch} (batch : RecordBatch)
    (hv : table.versions[loc.tick]? = some versions)
    (ho : versions[loc.batch_index]? = some original) :
    apply_patch_to_versions table table_name loc.tick [loc] batch
      = match patch_record_batch original batch [(loc.row_index, 0)] with
        | .error e => (.error e, table)
        | .ok patched => (.ok (), table.set_batch loc patched) := by
  have hbatches := VersionedTable.batches_of_versions hv
  rcases hp : patch_record_batch original batch [(loc.row_index, 0)] with e | patched
  · simp [apply_patch_to_versions, hv, group_locations_single, forEach, patch_group, ho, hp,
      insert_self]
  · simp [apply_patch_to_versions, hv, group_locations_single, forEach, patch_group, ho, hp,
      VersionedTable.set_batch, hbatches]

variable [Render]

/-! ## Update and delete

Both are: locate the row, rewrite its batch. What is written depends on the batch
found and on nothing else of the table. -/

/-- The batch an update puts back. -/
def update_batch (table_name : String) (batch : RecordBatch) (row_offset : Nat) (column : String)
    (value : Json) : ArrowStoreResult RecordBatch :=
  match batch.schema.index_of column with
  | none => .error (.Schema s!"column '{column}' not found in table '{table_name}'")
  | some col_idx => do
    let patch_batch ← build_update_patch batch row_offset col_idx value
    patch_record_batch batch patch_batch [(row_offset, 0)]

/-- The batch a delete puts back. -/
def delete_batch (batch : RecordBatch) (row_offset : Nat) : ArrowStoreResult RecordBatch := do
  let null_patch ← build_null_patch batch row_offset
  patch_record_batch batch null_patch [(row_offset, 0)]

theorem apply_update_of_locate {table : VersionedTable} {row : RowId} {loc : RowLocation}
    {batch : RecordBatch} (h : table.locate row = some (loc, batch)) (table_name : String)
    (tick : Tick) (column : String) (value : Json) :
    apply_update_to_table table table_name tick row column value
      = match update_batch table_name batch loc.row_index column value with
        | .error e => (.error e, table)
        | .ok patched => (.ok (), table.set_batch loc patched) := by
  have hv := VersionedTable.versions_of_locate h
  obtain ⟨hpos, htick, hbatch, hrow, hid⟩ := VersionedTable.locate_eq_some.1 h
  obtain ⟨t, b, o, r⟩ := loc
  obtain rfl : r = row := hid
  rcases hc : batch.schema.index_of column with _ | c
  · simp [apply_update_to_table, update_patch, update_batch, hpos, htick, hv, hbatch,
      Nat.not_le.2 hrow, hc]
  rcases hp : build_update_patch batch o c value with e | p
  · simp [apply_update_to_table, update_patch, update_batch, hpos, htick, hv, hbatch,
      Nat.not_le.2 hrow, hc, hp, bind, Except.bind]
  · simp [apply_update_to_table, update_patch, update_batch, hpos, htick, hv, hbatch,
      Nat.not_le.2 hrow, hc, hp, bind, Except.bind, pure, Except.pure]
    exact apply_patch_single table_name ⟨t, b, o, r⟩ p hv hbatch

omit [Render] in
theorem apply_delete_of_locate {table : VersionedTable} {row : RowId} {loc : RowLocation}
    {batch : RecordBatch} (h : table.locate row = some (loc, batch)) (table_name : String)
    (tick : Tick) :
    apply_delete_to_table table table_name tick row
      = match delete_batch batch loc.row_index with
        | .error e => (.error e, table)
        | .ok patched =>
          (.ok (), { table.set_batch loc patched with
            position_map := table.position_map.remove row }) := by
  have hv := VersionedTable.versions_of_locate h
  obtain ⟨hpos, htick, hbatch, hrow, hid⟩ := VersionedTable.locate_eq_some.1 h
  obtain ⟨t, b, o, r⟩ := loc
  obtain rfl : r = row := hid
  rcases hp : build_null_patch batch o with e | p
  · simp [apply_delete_to_table, delete_patch, delete_batch, hpos, htick, hv, hbatch,
      Nat.not_le.2 hrow, hp, bind, Except.bind]
  · have hpatch := apply_patch_single table_name ⟨t, b, o, r⟩ p hv hbatch
    rcases hr : patch_record_batch batch p [(o, 0)] with e | patched <;>
      simp only [hr] at hpatch <;>
      simp [apply_delete_to_table, delete_patch, delete_batch, hpos, htick, hv, hbatch,
        Nat.not_le.2 hrow, hp, hr, hpatch, bind, Except.bind, pure, Except.pure,
        VersionedTable.set_batch]

/-- A row that is located nowhere cannot be updated, and the error is a plain one. -/
theorem apply_update_of_not_located {table : VersionedTable} {row : RowId}
    (h : table.locate row = none) (table_name : String) (tick : Tick) (column : String)
    (value : Json) :
    ∃ e, e ≠ .Panic
      ∧ apply_update_to_table table table_name tick row column value = (.error e, table) := by
  rcases VersionedTable.locate_eq_none.1 h with hpos | ⟨b, o, hpos, ht | ⟨t, bs, ht, hbs, hb⟩⟩
  · simp [apply_update_to_table, update_patch, hpos]
  · simp [apply_update_to_table, update_patch, hpos, ht]
  · rcases hb with hb | ⟨batch, hb, ho⟩
    · simp [apply_update_to_table, update_patch, hpos, ht, hbs, hb]
    · simp [apply_update_to_table, update_patch, hpos, ht, hbs, hb, ho]

omit [Render] in
/-- Nor deleted. -/
theorem apply_delete_of_not_located {table : VersionedTable} {row : RowId}
    (h : table.locate row = none) (table_name : String) (tick : Tick) :
    ∃ e, e ≠ .Panic ∧ apply_delete_to_table table table_name tick row = (.error e, table) := by
  rcases VersionedTable.locate_eq_none.1 h with hpos | ⟨b, o, hpos, ht | ⟨t, bs, ht, hbs, hb⟩⟩
  · simp [apply_delete_to_table, delete_patch, hpos]
  · simp [apply_delete_to_table, delete_patch, hpos, ht]
  · rcases hb with hb | ⟨batch, hb, ho⟩
    · simp [apply_delete_to_table, delete_patch, hpos, ht, hbs, hb]
    · simp [apply_delete_to_table, delete_patch, hpos, ht, hbs, hb, ho]

/-- An update sets one cell of one row. -/
theorem update_batch_spec {table_name column : String} {batch patched : RecordBatch}
    {row_offset : Nat} {value : Json} (ho : row_offset < batch.row_count)
    (h : update_batch table_name batch row_offset column value = .ok patched) :
    ∃ c f, batch.schema.index_of column = some c ∧ batch.schema.fields[c]? = some f
      ∧ Rewrites batch patched row_offset fun r => r.set c (json_cell value f.data_type) := by
  unfold update_batch at h
  split at h
  · cases h
  · rename_i c hc
    rcases hp : build_update_patch batch row_offset c value with e | p
    · simp [hp, bind, Except.bind] at h
    · simp only [hp, bind, Except.bind] at h
      obtain ⟨f, hf⟩ : ∃ f, batch.schema.fields[c]? = some f :=
        ⟨_, List.getElem?_eq_getElem (Schema.index_of_lt hc)⟩
      obtain ⟨hschema, hone, hcells⟩ := build_update_patch_spec hp ho hf
      obtain ⟨hps, hpn, hpa⟩ := patch_record_batch_spec h
      refine ⟨c, f, hc, hf, hps, hpn, hpa, fun ha i hi => ?_⟩
      rw [row_patch_record_batch h hschema hone ha hi, hcells]
      split
      · rename_i hoi
        rw [hoi]
      · rfl

omit [Render] in
/-- A delete rewrites one row, and what it leaves there depends on the batch alone. -/
theorem delete_batch_spec {batch patched : RecordBatch} {row_offset : Nat}
    (ho : row_offset < batch.row_count) (h : delete_batch batch row_offset = .ok patched) :
    ∃ g, Rewrites batch patched row_offset g := by
  unfold delete_batch at h
  rcases hp : build_null_patch batch row_offset with e | p
  · simp [hp, bind, Except.bind] at h
  · simp only [hp, bind, Except.bind] at h
    obtain ⟨hschema, hone⟩ := build_null_patch_spec hp ho
    obtain ⟨hps, hpn, hpa⟩ := patch_record_batch_spec h
    exact ⟨fun _ => p.row 0, hps, hpn, hpa, fun ha i hi =>
      row_patch_record_batch h hschema hone ha hi⟩

/-- What a successful update did. -/
theorem apply_update_ok {table t' : VersionedTable} {table_name column : String} (tick : Tick)
    {row : RowId} {value : Json}
    (h : apply_update_to_table table table_name tick row column value = (.ok (), t')) :
    ∃ loc batch patched, table.locate row = some (loc, batch)
      ∧ update_batch table_name batch loc.row_index column value = .ok patched
      ∧ t' = table.set_batch loc patched := by
  rcases hloc : table.locate row with _ | ⟨loc, batch⟩
  · obtain ⟨e, -, he⟩ := apply_update_of_not_located hloc table_name tick column value
    simp [he] at h
  · rw [apply_update_of_locate hloc] at h
    split at h
    · cases h
    · rename_i patched hp
      exact ⟨loc, batch, patched, rfl, hp, by simpa using h.symm⟩

omit [Render] in
/-- What a successful delete did. -/
theorem apply_delete_ok {table t' : VersionedTable} {table_name : String} (tick : Tick)
    {row : RowId} (h : apply_delete_to_table table table_name tick row = (.ok (), t')) :
    ∃ loc batch patched, table.locate row = some (loc, batch)
      ∧ delete_batch batch loc.row_index = .ok patched
      ∧ t' = { table.set_batch loc patched with
          position_map := table.position_map.remove row } := by
  rcases hloc : table.locate row with _ | ⟨loc, batch⟩
  · obtain ⟨e, -, he⟩ := apply_delete_of_not_located hloc table_name tick
    simp [he] at h
  · rw [apply_delete_of_locate hloc] at h
    split at h
    · cases h
    · rename_i patched hp
      exact ⟨loc, batch, patched, rfl, hp, by simpa using h.symm⟩

/-- A failed update or delete writes nothing. -/
theorem apply_update_error {table t' : VersionedTable} {table_name column : String} (tick : Tick)
    {row : RowId} {value : Json} {e : ArrowStoreError}
    (h : apply_update_to_table table table_name tick row column value = (.error e, t')) :
    t' = table := by
  rcases hloc : table.locate row with _ | ⟨loc, batch⟩
  · obtain ⟨e', -, he⟩ := apply_update_of_not_located hloc table_name tick column value
    simp_all
  · rw [apply_update_of_locate hloc] at h
    split at h <;> simp_all

omit [Render] in
theorem apply_delete_error {table t' : VersionedTable} {table_name : String} (tick : Tick)
    {row : RowId} {e : ArrowStoreError}
    (h : apply_delete_to_table table table_name tick row = (.error e, t')) : t' = table := by
  rcases hloc : table.locate row with _ | ⟨loc, batch⟩
  · obtain ⟨e', -, he⟩ := apply_delete_of_not_located hloc table_name tick
    simp_all
  · rw [apply_delete_of_locate hloc] at h
    split at h <;> simp_all

/-! ## Insert -/

/-- What a successful insert did: a one-row batch at the end of the tick's list, and
its index in the position map. -/
theorem apply_insert_ok {table t' : VersionedTable} {table_name : String} {tick : Tick}
    {row : RowId} {values : JsonMap} {reg : TypeRegistry}
    (h : apply_insert_to_table table table_name tick row values reg = (.ok (), t')) :
    ∃ schema batch, resolve_table_schema table values reg = .ok (some schema)
      ∧ table.position_map.position_of row = none
      ∧ json_map_to_record_batch values schema = .ok batch
      ∧ t' = { table with
          versions := table.versions.insert tick (table.batches tick ++ [batch])
          primary_key_index := index_row table.primary_key_index (pk_col_name table) values tick
            (table.batches tick).length 0
          position_map := table.position_map.insert row (table.batches tick).length 0 } := by
  unfold apply_insert_to_table at h
  split at h <;> try cases h
  rename_i schema hschema
  split at h
  · cases h
  · rename_i hdup
    split at h
    · cases h
    · rename_i batch hbatch
      refine ⟨schema, batch, hschema, ?_, hbatch, ?_⟩
      · exact (RowPositionMap.contains_eq_false _ _).1 (Bool.not_eq_true _ ▸ hdup)
      · simpa using h.symm

/-- A failed insert writes nothing. -/
theorem apply_insert_error {table t' : VersionedTable} {table_name : String} {tick : Tick}
    {row : RowId} {values : JsonMap} {reg : TypeRegistry} {e : ArrowStoreError}
    (h : apply_insert_to_table table table_name tick row values reg = (.error e, t')) :
    t' = table := by
  unfold apply_insert_to_table at h
  split at h
  · simp_all
  · simp_all
  · split at h
    · simp_all
    · split at h <;> simp_all

/-! ## Replace

The position map is rebuilt from nothing while the rows are gone through, so the
facts about the loop are about a map that holds the rows gone through so far. -/

/-- The row id the `i`-th row asks for. -/
def row_key (pk_name : Option String) (i : Nat) (row_map : JsonMap) : Option RowId :=
  match pk_name with
  | none => some i
  | some pk_name => row_map[pk_name]?.bind json_value_to_u64

omit [Render] in
theorem replace_row_id_ok {table_name : String} {pk_name : Option String} {pm : RowPositionMap}
    {i : Nat} {row_map : JsonMap} {id : RowId}
    (h : replace_row_id table_name pk_name pm i row_map = .ok id) :
    row_key pk_name i row_map = some id ∧ (pk_name.isSome → pm.position_of id = none) := by
  unfold replace_row_id at h
  rcases pk_name with _ | pk
  · obtain rfl : i = id := by simpa using h
    exact ⟨rfl, by simp⟩
  · simp only at h
    split at h <;> try cases h
    rename_i v hv
    split at h <;> try cases h
    rename_i id' hid
    split at h <;> try cases h
    rename_i hdup
    refine ⟨by simp [row_key, hv, hid], fun _ => ?_⟩
    exact (RowPositionMap.contains_eq_false _ _).1 (Bool.not_eq_true _ ▸ hdup)

theorem replace_row_ok {table_name : String} {pk_name : Option String} {schema : Schema}
    {pm : RowPositionMap} {bs : List RecordBatch} {row_map : JsonMap} {i : Nat}
    {s' : RowPositionMap × List RecordBatch}
    (h : replace_row table_name pk_name schema (pm, bs) (row_map, i) = (.ok (), s')) :
    ∃ id batch, row_key pk_name i row_map = some id
      ∧ (pk_name.isSome → pm.position_of id = none)
      ∧ json_map_to_record_batch row_map schema = .ok batch
      ∧ s' = (pm.insert id i 0, bs ++ [batch]) := by
  unfold replace_row at h
  simp only at h
  split at h <;> try cases h
  rename_i id hid
  split at h <;> try cases h
  rename_i batch hbatch
  obtain ⟨hkey, hnew⟩ := replace_row_id_ok hid
  exact ⟨id, batch, hkey, hnew, hbatch, rfl⟩

/-- With no key column the ids are the indices, so a map that holds the rows gone
through holds smaller ids only. -/
def Below (pk_name : Option String) (pm : RowPositionMap) (n : Nat) : Prop :=
  pk_name = none → ∀ r p, pm.position_of r = some p → r < n

omit [Render] in
theorem Below.insert {pk_name : Option String} {pm : RowPositionMap} {n : Nat} {id : RowId}
    {row_map : JsonMap} (h : Below pk_name pm n) (hid : row_key pk_name n row_map = some id) :
    Below pk_name (pm.insert id n 0) (n + 1) := by
  rintro rfl r p hp
  obtain rfl : n = id := by simpa [row_key] using hid
  rw [RowPositionMap.position_of_insert] at hp
  split at hp
  · rename_i hnr
    exact hnr ▸ Nat.lt_succ_self n
  · exact Nat.lt_succ_of_lt (h rfl r p hp)

/-- A loop that runs through gives every remaining row an id the map does not hold
yet. -/
theorem replace_rows_fresh {table_name : String} {pk_name : Option String} {schema : Schema}
    {rows : List JsonMap} {pm : RowPositionMap} {bs : List RecordBatch} {n : Nat}
    {s' : RowPositionMap × List RecordBatch} (hbelow : Below pk_name pm n)
    (h : forEach (replace_row table_name pk_name schema) (pm, bs) (rows.zipIdx n) = (.ok (), s'))
    {row_map : JsonMap} {i : Nat} {r : RowId} (hmem : (row_map, i) ∈ rows.zipIdx n)
    (hkey : row_key pk_name i row_map = some r) : pm.position_of r = none := by
  induction rows generalizing pm bs n with
  | nil => simp at hmem
  | cons row rows ih =>
      rw [List.zipIdx_cons] at h hmem
      obtain ⟨mid, hrow, hrest⟩ := forEach_cons_ok.1 h
      obtain ⟨id, batch, hid, hnew, -, rfl⟩ := replace_row_ok hrow
      rcases List.mem_cons.1 hmem with hhead | htail
      · obtain ⟨rfl, rfl⟩ := Prod.mk.inj hhead
        obtain rfl : id = r := by simpa [hid] using hkey
        rcases pk_name with _ | pk
        · obtain rfl : i = id := by simpa [row_key] using hkey
          by_contra hlive
          obtain ⟨p, hp⟩ := Option.ne_none_iff_exists'.1 hlive
          exact Nat.lt_irrefl _ (hbelow rfl _ _ hp)
        · exact hnew rfl
      · have hnone := ih (hbelow.insert hid) hrest htail
        rw [RowPositionMap.position_of_insert] at hnone
        split at hnone
        · cases hnone
        · exact hnone

/-- No row after the first asks for the id that the first has booked. -/
theorem replace_rows_find_none {table_name : String} {pk_name : Option String} {schema : Schema}
    {rows : List JsonMap} {pm : RowPositionMap} {bs : List RecordBatch} {n : Nat} {id : RowId}
    {row_map : JsonMap} {s' : RowPositionMap × List RecordBatch} (hbelow : Below pk_name pm n)
    (hid : row_key pk_name n row_map = some id)
    (h : forEach (replace_row table_name pk_name schema) (pm.insert id n 0, bs)
      (rows.zipIdx (n + 1)) = (.ok (), s')) :
    (rows.zipIdx (n + 1)).find? (fun p => row_key pk_name p.2 p.1 = some id) = none := by
  rw [List.find?_eq_none]
  rintro ⟨row_map', i⟩ hmem
  have := replace_rows_fresh (r := id) (hbelow.insert hid) h hmem
  simpa using this

/-- A loop that runs through appends one batch per row and books every row at its
index; what the map held before it still holds. -/
theorem replace_rows_ok {table_name : String} {pk_name : Option String} {schema : Schema}
    {rows : List JsonMap} {pm pm' : RowPositionMap} {bs bs' : List RecordBatch} {n : Nat}
    (hbelow : Below pk_name pm n)
    (h : forEach (replace_row table_name pk_name schema) (pm, bs) (rows.zipIdx n)
      = (.ok (), (pm', bs'))) :
    (∃ new, bs' = bs ++ new
        ∧ List.Forall₂ (fun row b => json_map_to_record_batch row schema = .ok b) rows new)
      ∧ ∀ r, pm'.position_of r
        = (((rows.zipIdx n).find? fun p => row_key pk_name p.2 p.1 = some r).map
            fun p => (p.2, 0)).or (pm.position_of r) := by
  induction rows generalizing pm bs n with
  | nil =>
      obtain ⟨rfl, rfl⟩ : pm = pm' ∧ bs = bs' := by simpa using h
      exact ⟨⟨[], by simp, .nil⟩, by simp⟩
  | cons row rows ih =>
      rw [List.zipIdx_cons] at h
      obtain ⟨mid, hrow, hrest⟩ := forEach_cons_ok.1 h
      obtain ⟨id, batch, hid, hnew, hbatch, rfl⟩ := replace_row_ok hrow
      have hbelow' := hbelow.insert hid
      obtain ⟨⟨new, hnew', hall⟩, hpos⟩ := ih hbelow' hrest
      refine ⟨⟨batch :: new, by simpa using hnew', .cons hbatch hall⟩, fun r => ?_⟩
      rw [hpos r, List.zipIdx_cons, List.find?_cons, RowPositionMap.position_of_insert]
      by_cases hr : id = r
      · subst hr
        have hnone := replace_rows_find_none hbelow hid hrest
        simp [hid, hnone]
      · simp [hid, hr]

theorem apply_replace_ok {table t' : VersionedTable} {table_name : String} {tick : Tick}
    {rows : List JsonMap} {reg : TypeRegistry}
    (h : apply_replace_to_table table table_name tick rows reg = (.ok (), t')) :
    ∃ schema pm batches, replace_schema table rows reg = some schema
      ∧ List.Forall₂ (fun row b => json_map_to_record_batch row schema = .ok b) rows batches
      ∧ (∀ r, pm.position_of r
        = (rows.zipIdx.find? fun p => row_key (pk_col_name table) p.2 p.1 = some r).map
            fun p => (p.2, 0))
      ∧ t' = { table with
          position_map := pm, versions := table.versions.insert tick batches } := by
  unfold apply_replace_to_table at h
  split at h
  · cases h
  · rename_i schema hschema
    split at h
    · cases h
    · rename_i pm batches hloop
      obtain ⟨⟨new, hnew, hall⟩, hpos⟩ := replace_rows_ok (n := 0) (by intro _ r p hp; simp at hp)
        hloop
      obtain rfl : batches = new := by simpa using hnew
      exact ⟨schema, pm, batches, hschema, hall, by simpa using hpos, by simpa using h.symm⟩

/-- A loop that runs through gives every index an id. -/
theorem replace_rows_onto {table_name : String} {pk_name : Option String} {schema : Schema}
    {rows : List JsonMap} {pm pm' : RowPositionMap} {bs bs' : List RecordBatch} {n : Nat}
    (hbelow : Below pk_name pm n)
    (h : forEach (replace_row table_name pk_name schema) (pm, bs) (rows.zipIdx n)
      = (.ok (), (pm', bs'))) {i : Nat} (hi : n ≤ i) (hlt : i < n + rows.length) :
    ∃ r, pm'.position_of r = some (i, 0) := by
  induction rows generalizing pm bs n with
  | nil => exact absurd hi (Nat.not_le.2 hlt)
  | cons row rows ih =>
      rw [List.zipIdx_cons] at h
      obtain ⟨mid, hrow, hrest⟩ := forEach_cons_ok.1 h
      obtain ⟨id, batch, hid, hnew, hbatch, rfl⟩ := replace_row_ok hrow
      rcases Nat.eq_or_lt_of_le hi with rfl | hlater
      · refine ⟨id, ?_⟩
        rw [(replace_rows_ok (hbelow.insert hid) hrest).2 id,
          replace_rows_find_none hbelow hid hrest]
        simp
      · exact ih (hbelow.insert hid) hrest hlater (by rw [List.length_cons] at hlt; omega)

theorem apply_replace_onto {table t' : VersionedTable} {table_name : String} {tick : Tick}
    {rows : List JsonMap} {reg : TypeRegistry}
    (h : apply_replace_to_table table table_name tick rows reg = (.ok (), t')) {i : Nat}
    (hi : i < rows.length) : ∃ r, t'.position_map.position_of r = some (i, 0) := by
  unfold apply_replace_to_table at h
  split at h
  · cases h
  · split at h
    · cases h
    · rename_i pm batches hloop
      obtain ⟨-, rfl⟩ := Prod.mk.inj h
      exact replace_rows_onto (n := 0) (by intro _ r p hp; simp at hp) hloop (Nat.zero_le _)
        (by rwa [Nat.zero_add])

/-- What a failed replace leaves: the table, with some of the new rows booked. -/
theorem apply_replace_error {table t' : VersionedTable} {table_name : String} {tick : Tick}
    {rows : List JsonMap} {reg : TypeRegistry} {e : ArrowStoreError}
    (h : apply_replace_to_table table table_name tick rows reg = (.error e, t')) :
    ∃ pm, t' = { table with position_map := pm } := by
  unfold apply_replace_to_table at h
  split at h
  · obtain ⟨-, rfl⟩ := Prod.mk.inj h
    exact ⟨table.position_map, rfl⟩
  · split at h
    · obtain ⟨-, rfl⟩ := Prod.mk.inj h
      exact ⟨_, rfl⟩
    · simp at h

/-! ## Frames -/

/-- The parts of a table no diff touches. -/
structure SameSetup (t t' : VersionedTable) : Prop where
  name : t'.name = t.name
  mutation_mode : t'.mutation_mode = t.mutation_mode
  spec : t'.spec = t.spec
  foreign_key_indices : t'.foreign_key_indices = t.foreign_key_indices
  partitions : t'.partitions = t.partitions

omit [Render] in
theorem SameSetup.refl (t : VersionedTable) : SameSetup t t := ⟨rfl, rfl, rfl, rfl, rfl⟩

omit [Render] in
theorem SameSetup.trans {t u v : VersionedTable} (h : SameSetup t u) (h' : SameSetup u v) :
    SameSetup t v :=
  ⟨h'.name.trans h.name, h'.mutation_mode.trans h.mutation_mode, h'.spec.trans h.spec,
    h'.foreign_key_indices.trans h.foreign_key_indices, h'.partitions.trans h.partitions⟩

theorem apply_to_table_setup (reg : TypeRegistry) (tick : Tick) (diff : Diff)
    (t : VersionedTable) : SameSetup t (apply_to_table reg tick diff t).2 := by
  rcases hres : apply_to_table reg tick diff t with ⟨_ | _, t'⟩ <;> cases diff
  case error.Update => rw [apply_update_error tick hres]; exact .refl _
  case error.Insert => rw [apply_insert_error hres]; exact .refl _
  case error.Delete => rw [apply_delete_error tick hres]; exact .refl _
  case error.ReplaceTable =>
    obtain ⟨pm, rfl⟩ := apply_replace_error hres
    exact ⟨rfl, rfl, rfl, rfl, rfl⟩
  case ok.Update =>
    obtain ⟨loc, batch, patched, -, -, rfl⟩ := apply_update_ok tick hres
    exact ⟨rfl, rfl, rfl, rfl, rfl⟩
  case ok.Insert =>
    obtain ⟨schema, batch, -, -, -, rfl⟩ := apply_insert_ok hres
    exact ⟨rfl, rfl, rfl, rfl, rfl⟩
  case ok.Delete =>
    obtain ⟨loc, batch, patched, -, -, rfl⟩ := apply_delete_ok tick hres
    exact ⟨rfl, rfl, rfl, rfl, rfl⟩
  case ok.ReplaceTable =>
    obtain ⟨schema, pm, batches, -, -, -, rfl⟩ := apply_replace_ok hres
    exact ⟨rfl, rfl, rfl, rfl, rfl⟩

/-! ## No panics

The one panicking access is a patch with too few columns, and the patches built here
have the schema of the batch they patch. -/

/-- The call returned. -/
def Returns {α : Type} (r : ArrowStoreResult α) : Prop := r ≠ .error .Panic

omit [Render] in
theorem Returns.bind {α β : Type} {r : ArrowStoreResult α} {f : α → ArrowStoreResult β}
    (hr : Returns r) (hf : ∀ a, r = .ok a → Returns (f a)) : Returns (r >>= f) := by
  rcases r with e | a
  · simpa [Returns, Bind.bind, Except.bind] using hr
  · exact hf a rfl

omit [Render] in
theorem Returns.mapM {α β : Type} {f : α → ArrowStoreResult β} {as : List α}
    (hf : ∀ a ∈ as, Returns (f a)) : Returns (as.mapM f) := by
  intro h
  obtain ⟨a, ha, hfa⟩ := mapM_error h
  exact hf a ha hfa

omit [Render] in
theorem Returns.mapError {α : Type} {r : Except String α} {wrap : String → String} :
    Returns (r.mapError fun e => .Arrow (wrap e)) := by
  rcases r with e | a <;> simp [Returns, Except.mapError]

theorem json_value_to_array_returns (value : Json) (dt : DataType) :
    Returns (json_value_to_array value dt) := by
  unfold json_value_to_array Returns
  split
  · cases dt <;> simp
  · cases dt <;> simp only [json_to_i64, json_to_i32, json_to_u64, json_to_f64, json_to_bool]
    case Utf8 | LargeUtf8 => cases value <;> simp [json_to_string, Except.map]
    all_goals repeat' split
    all_goals simp [Except.map]

theorem json_map_to_record_batch_returns (values : JsonMap) (schema : Schema) :
    Returns (json_map_to_record_batch values schema) :=
  .bind (.mapM fun _ _ => json_value_to_array_returns _ _) fun _ _ => .mapError

omit [Render] in
theorem patch_array_values_returns (orig patch : ArrayRef) (patches : List (Nat × Nat)) :
    Returns (patch_array_values orig patch patches) := by
  cases orig <;> cases patch <;> simp [Returns, patch_array_values]

omit [Render] in
theorem column_count_eq {b b' : RecordBatch} (h : b.schema = b'.schema) :
    b'.columns.length = b.columns.length := by
  rw [b'.column_count, ← h, b.column_count]

omit [Render] in
theorem patch_record_batch_returns {original patch_batch : RecordBatch}
    (hlen : original.columns.length ≤ patch_batch.columns.length) (patches : List (Nat × Nat)) :
    Returns (patch_record_batch original patch_batch patches) := by
  refine .bind (.mapM ?_) fun _ _ => .mapError
  rintro ⟨a, k⟩ hmem
  have hk : k < patch_batch.columns.length := by
    have := List.snd_lt_of_mem_zipIdx hmem
    omega
  simp only [patch_column, List.getElem?_eq_getElem hk]
  exact patch_array_values_returns _ _ _

theorem update_batch_returns (table_name : String) (batch : RecordBatch) (row_offset : Nat)
    (column : String) (value : Json) :
    Returns (update_batch table_name batch row_offset column value) := by
  unfold update_batch
  split
  · simp [Returns]
  · refine .bind (.bind (.mapM ?_) fun _ _ => .mapError) fun patch_batch hp => ?_
    · rintro ⟨src_arr, c⟩ -
      dsimp only
      split
      · exact json_value_to_array_returns _ _
      · simp [Returns, slice_array_to_single]
    · exact patch_record_batch_returns (Nat.le_of_eq (column_count_eq (RecordBatch.built_ok hp).1)) _

omit [Render] in
theorem delete_batch_returns (batch : RecordBatch) (row_offset : Nat) :
    Returns (delete_batch batch row_offset) := by
  refine .bind (.bind (.mapM ?_) fun _ _ => .mapError) fun null_patch hp => ?_
  · rintro ⟨src_arr, field⟩ -
    dsimp only
    split
    · cases src_arr.data_type <;> simp [Returns, make_null_array]
    · simp [Returns, slice_array_to_single]
  · exact patch_record_batch_returns (Nat.le_of_eq (column_count_eq (RecordBatch.built_ok hp).1)) _

omit [Render] in
theorem resolve_table_schema_returns (table : VersionedTable) (values : JsonMap)
    (reg : TypeRegistry) : Returns (resolve_table_schema table values reg) := by
  unfold resolve_table_schema
  split
  · rename_i spec _
    have hspec : Returns (spec_schema spec reg) := by
      refine .bind (.mapM fun col _ => .bind ?_ fun _ _ => ?_) fun _ _ => ?_
      · unfold TypeRegistry.resolve_data_type
        split <;> simp [Returns]
      · simp [Returns, pure, Except.pure]
      · simp [Returns, pure, Except.pure]
    rcases hs : spec_schema spec reg with e | schema
    · rw [hs] at hspec
      simpa [Returns, Except.map] using hspec
    · simp [Returns, Except.map]
  · split
    · simp [Returns]
    · split <;> simp [Returns]

theorem replace_row_returns (table_name : String) (pk_name : Option String) (schema : Schema)
    (s : RowPositionMap × List RecordBatch) (row : JsonMap × Nat) :
    Returns (replace_row table_name pk_name schema s row).1 := by
  have hid : Returns (replace_row_id table_name pk_name s.1 row.2 row.1) := by
    unfold replace_row_id
    repeat' split
    all_goals simp [Returns]
  unfold replace_row
  split
  · rename_i e he
    rw [he] at hid
    simpa [Returns] using hid
  · have hb := json_map_to_record_batch_returns row.1 schema
    split
    · rename_i e he
      rw [he] at hb
      simpa [Returns] using hb
    · simp [Returns]

/-- A diff is applied or refused; it never unwinds. -/
theorem apply_to_table_returns (reg : TypeRegistry) (tick : Tick) (diff : Diff)
    (t : VersionedTable) : Returns (apply_to_table reg tick diff t).1 := by
  cases diff with
  | Update table row column value =>
      rw [apply_to_table]
      rcases hloc : t.locate row with _ | ⟨loc, batch⟩
      · obtain ⟨e, hne, he⟩ := apply_update_of_not_located hloc table tick column value
        simpa [he, Returns] using hne
      · have hb := update_batch_returns table batch loc.row_index column value
        rw [apply_update_of_locate hloc]
        split
        · rename_i e he
          rw [he] at hb
          simpa [Returns] using hb
        · simp [Returns]
  | Insert table row values =>
      -- neither finding the schema nor converting the values unwinds
      have hs := resolve_table_schema_returns t values reg
      rw [apply_to_table, apply_insert_to_table]
      split
      · rename_i e he
        rw [he] at hs
        simpa [Returns] using hs
      · simp [Returns]
      · rename_i schema _
        have hb := json_map_to_record_batch_returns values schema
        split
        · simp [Returns]
        · split
          · rename_i e he
            rw [he] at hb
            simpa [Returns] using hb
          · simp [Returns]
  | Delete table row =>
      rw [apply_to_table]
      rcases hloc : t.locate row with _ | ⟨loc, batch⟩
      · obtain ⟨e, hne, he⟩ := apply_delete_of_not_located hloc table tick
        simpa [he, Returns] using hne
      · have hb := delete_batch_returns batch loc.row_index
        rw [apply_delete_of_locate hloc]
        split
        · rename_i e he
          rw [he] at hb
          simpa [Returns] using hb
        · simp [Returns]
  | ReplaceTable table rows =>
      rw [apply_to_table, apply_replace_to_table]
      split
      · simp [Returns]
      · rename_i schema _
        split
        · rename_i e pm bs hloop
          -- the loop ends with the verdict of the row it stopped at
          obtain ⟨pre, a, post, mid, -, -, ha⟩ := forEach_error hloop
          have hrow := replace_row_returns table (pk_col_name t) schema mid a
          rw [ha] at hrow
          simpa [Returns] using hrow
        · simp [Returns]

end Scharnhorst
