/-
What diffs write beside the batches: the position map and the primary-key index.

A list of diffs of one table writes to the entry of a row id several times, and the
last write is the entry it leaves; likewise for the key of a row in the index. Which
diff writes last, and what, can be read off the list: an insert books its row at the
number of batches the tick has by then, a delete clears the entry, a replace writes
the whole map. `last_entry` and `last_key` read it off, and the theorems say that a
run of diffs left exactly that.

The batches of the tables can be saved and put back. These two cannot: nothing in the
store saves them. So what is written here stays written.
-/
import Scharnhorst.StoreSpec

set_option autoImplicit false

namespace Scharnhorst

open Attempt Maps

/-! ## The batch count

An insert's index is the number of batches of the tick. -/

/-- The number of batches of the tick after a diff. -/
def count_move (count : Nat) : Diff → Nat
  | .Insert _ _ _ => count + 1
  | .ReplaceTable _ rows => rows.length
  | .Update _ _ _ _ | .Delete _ _ => count

/-! ## Entries of the position map -/

/-- The entry a replace writes for a row: its index, or none. -/
def replaced_entry (pk_name : Option String) (rows : List JsonMap) (r : RowId) :
    Option (Nat × Nat) :=
  (rows.zipIdx.find? fun p => row_key pk_name p.2 p.1 = some r).map fun p => (p.2, 0)

/-- An entry of a replace: the index of a row that asks for this id. -/
theorem replaced_entry_some {pk_name : Option String} {rows : List JsonMap} {r : RowId} {b o : Nat}
    (h : replaced_entry pk_name rows r = some (b, o)) :
    o = 0 ∧ ∃ row, rows[b]? = some row ∧ row_key pk_name b row = some r := by
  obtain ⟨⟨row, i⟩, hfind, heq⟩ := Option.map_eq_some_iff.1 h
  obtain ⟨rfl, rfl⟩ := Prod.mk.inj heq
  have hrow := List.mem_zipIdx_iff_getElem?.1 (List.mem_of_find?_eq_some hfind)
  exact ⟨rfl, row, hrow, by simpa using List.find?_some hfind⟩

/-- What a diff writes for a row, if it writes anything. -/
def entry_move (pk_name : Option String) (count : Nat) (r : RowId) :
    Diff → Option (Option (Nat × Nat))
  | .Update _ _ _ _ => none
  | .Insert _ row _ => if row = r then some (some (count, 0)) else none
  | .Delete _ row => if row = r then some none else none
  | .ReplaceTable _ rows => some (replaced_entry pk_name rows r)

/-- What a list of diffs writes last for a row. -/
def last_entry (pk_name : Option String) (r : RowId) : Nat → List Diff →
    Option (Option (Nat × Nat))
  | _, [] => none
  | count, d :: ds =>
    (last_entry pk_name r (count_move count d) ds).or (entry_move pk_name count r d)

/-! ## Keys of the index -/

section Keys

variable [Render]

/-- The key an inserted row is recorded under, if it has the key column. -/
def index_key (pk_name : Option String) (values : JsonMap) : Option String :=
  (pk_name.bind (values[·]?)).map fun
    | .string s => s
    | other => Render.value_to_string other

theorem index_row_eq (index : PrimaryKeyIndex) (pk_name : Option String) (values : JsonMap)
    (tick : Tick) (b o : Nat) :
    index_row index pk_name values tick b o
      = (index_key pk_name values).elim index fun key => index.insert key tick b o := by
  unfold index_row index_key
  split <;> rename_i h <;> rw [h] <;> rfl

/-- The batch index a diff records under a key. -/
def key_move (pk_name : Option String) (count : Nat) (key : String) : Diff → Option Nat
  | .Insert _ _ values => if index_key pk_name values = some key then some count else none
  | .Update _ _ _ _ | .Delete _ _ | .ReplaceTable _ _ => none

/-- The batch index a list of diffs records last under a key. -/
def last_key (pk_name : Option String) (key : String) : Nat → List Diff → Option Nat
  | _, [] => none
  | count, d :: ds => (last_key pk_name key (count_move count d) ds).or (key_move pk_name count key d)

/-- The index after one diff. -/
def index_move (index : PrimaryKeyIndex) (pk_name : Option String) (tick : Tick) (count : Nat) :
    Diff → PrimaryKeyIndex
  | .Insert _ _ values => index_row index pk_name values tick count 0
  | .Update _ _ _ _ | .Delete _ _ | .ReplaceTable _ _ => index

/-- The index after a list of diffs. -/
def index_run (pk_name : Option String) (tick : Tick) :
    PrimaryKeyIndex → Nat → List Diff → PrimaryKeyIndex
  | index, _, [] => index
  | index, count, d :: ds =>
    index_run pk_name tick (index_move index pk_name tick count d) (count_move count d) ds

/-! ## One diff -/

omit [Render] in
theorem length_batches_set_batch (t : VersionedTable) (loc : RowLocation) (patched : RecordBatch)
    (tick : Tick) :
    ((t.set_batch loc patched).batches tick).length = (t.batches tick).length := by
  rw [VersionedTable.batches, VersionedTable.set_batch, Std.ExtTreeMap.getD_insert]
  split
  · rename_i heq
    obtain rfl := Std.LawfulEqOrd.eq_of_compare heq
    rw [List.length_set]
  · rfl

/-- What a successful diff wrote beside the batches. -/
structure Booked (tick : Tick) (t t' : VersionedTable) (count : Nat)
    (entry : RowId → Option (Option (Nat × Nat))) (index : PrimaryKeyIndex) : Prop where
  count_eq : (t'.batches tick).length = count
  entry_eq : ∀ r, t'.position_map.position_of r = (entry r).getD (t.position_map.position_of r)
  index_eq : t'.primary_key_index = index

theorem booked_step {reg : TypeRegistry} {tick : Tick} {d : Diff} {t t' : VersionedTable}
    (h : apply_to_table reg tick d t = (.ok (), t')) :
    Booked tick t t' (count_move (t.batches tick).length d)
      (fun r => entry_move (pk_col_name t) (t.batches tick).length r d)
      (index_move t.primary_key_index (pk_col_name t) tick (t.batches tick).length d) := by
  cases d with
  | Update name row column value =>
      obtain ⟨loc, batch, patched, hloc, -, rfl⟩ := apply_update_ok tick h
      exact ⟨length_batches_set_batch t loc patched tick, fun r => rfl, rfl⟩
  | Insert name row values =>
      obtain ⟨schema, batch, -, -, -, rfl⟩ := apply_insert_ok h
      refine ⟨?_, fun r => ?_, rfl⟩
      · simp [VersionedTable.batches, count_move]
      · rw [RowPositionMap.position_of_insert, entry_move]
        split <;> rfl
  | Delete name row =>
      obtain ⟨loc, batch, patched, hloc, -, rfl⟩ := apply_delete_ok tick h
      refine ⟨length_batches_set_batch t loc patched tick, fun r => ?_, rfl⟩
      rw [RowPositionMap.position_of_remove, entry_move]
      split <;> rfl
  | ReplaceTable name rows =>
      obtain ⟨schema, pm, batches, -, hall, hpm, rfl⟩ := apply_replace_ok h
      refine ⟨?_, fun r => ?_, rfl⟩
      · simp [VersionedTable.batches, count_move, hall.length_eq]
      · exact hpm r

/-! ## A run of diffs -/

/-- A run left, for every row and every key, what it wrote last. -/
theorem booked_run {reg : TypeRegistry} {tick : Tick} {ds : List Diff} {t t' : VersionedTable}
    (h : ArrowStore.run_table reg tick t ds = (.ok (), t')) :
    (∀ r, t'.position_map.position_of r
        = (last_entry (pk_col_name t) r (t.batches tick).length ds).getD
          (t.position_map.position_of r))
      ∧ t'.primary_key_index
        = index_run (pk_col_name t) tick t.primary_key_index (t.batches tick).length ds := by
  induction ds generalizing t with
  | nil =>
      obtain rfl : t = t' := by simpa [ArrowStore.run_table] using h
      exact ⟨fun r => rfl, rfl⟩
  | cons d ds ih =>
      obtain ⟨mid, hd, hds⟩ := forEach_cons_ok.1 h
      have hstep := booked_step hd
      have hspec : mid.spec = t.spec := by
        simpa only [hd] using (apply_to_table_setup reg tick d t).spec
      have hpk : pk_col_name mid = pk_col_name t := by rw [pk_col_name, hspec, pk_col_name]
      obtain ⟨hentry, hindex⟩ := ih hds
      rw [hpk, hstep.count_eq] at hentry hindex
      refine ⟨fun r => ?_, ?_⟩
      · rw [hentry r, hstep.entry_eq r, last_entry]
        rcases last_entry (pk_col_name t) r (count_move (t.batches tick).length d) ds with _ | e
        · rfl
        · rfl
      · rw [hindex, hstep.index_eq, index_run]

/-! ## When the index ends as it began

With its history enabled the index grows by every key recorded, so it ends as it
began only if nothing was recorded. Without, it does also when what is recorded is
older than what it has, or is what it has. -/

/-- The newer of what the index has for a key and what a diff records. -/
def newest (tick : Tick) (b : Nat) : Option (Tick × Nat × Nat) → Tick × Nat × Nat
  | some e => if e.1 ≤ tick then (tick, b, 0) else e
  | none => (tick, b, 0)

omit [Render] in
theorem newest_newest (tick : Tick) (b b' : Nat) (e : Option (Tick × Nat × Nat)) :
    newest tick b' (some (newest tick b e)) = newest tick b' e := by
  rcases e with _ | e
  · simp [newest]
  · by_cases h : e.1 ≤ tick <;> simp [newest, h]

omit [Render] in
theorem latest_insert (index : PrimaryKeyIndex) (key k : String) (tick : Tick) (b : Nat) :
    (index.insert key tick b 0).latest_entries[k]?
      = if key = k then some (newest tick b index.latest_entries[k]?)
        else index.latest_entries[k]? := by
  by_cases hk : key = k
  · subst hk
    rcases he : index.latest_entries[key]? with _ | ⟨t, p⟩
    · simp [PrimaryKeyIndex.insert, he, newest]
    · by_cases ht : t ≤ tick <;> simp [PrimaryKeyIndex.insert, he, newest, ht]
  · rcases he : index.latest_entries[key]? with _ | ⟨t, p⟩
    · simp [PrimaryKeyIndex.insert, he, hk, Std.ExtTreeMap.getElem?_insert]
    · by_cases ht : t ≤ tick <;>
        simp [PrimaryKeyIndex.insert, he, hk, ht, Std.ExtTreeMap.getElem?_insert]

theorem latest_index_move (index : PrimaryKeyIndex) (pk_name : Option String) (tick : Tick)
    (count : Nat) (d : Diff) (k : String) :
    (index_move index pk_name tick count d).latest_entries[k]?
      = (key_move pk_name count k d).elim index.latest_entries[k]? fun b =>
          some (newest tick b index.latest_entries[k]?) := by
  cases d with
  | Insert name row values =>
      rw [index_move, index_row_eq, key_move]
      rcases index_key pk_name values with _ | key
      · simp
      · by_cases hk : key = k <;> simp [latest_insert, hk]
  | Update name row column value => rfl
  | Delete name row => rfl
  | ReplaceTable name rows => rfl

theorem latest_index_run (index : PrimaryKeyIndex) (pk_name : Option String) (tick : Tick)
    (count : Nat) (ds : List Diff) (k : String) :
    (index_run pk_name tick index count ds).latest_entries[k]?
      = (last_key pk_name k count ds).elim index.latest_entries[k]? fun b =>
          some (newest tick b index.latest_entries[k]?) := by
  induction ds generalizing index count with
  | nil => rfl
  | cons d ds ih =>
      rw [index_run, ih, latest_index_move, last_key]
      rcases last_key pk_name k (count_move count d) ds with _ | b <;>
        rcases key_move pk_name count k d with _ | b' <;> simp [newest_newest]

/-- The number of locations the history of an index has for a key. -/
def recorded (index : PrimaryKeyIndex) (k : String) : Nat :=
  (index.historical_entries.elim [] fun hist => hist.getD k []).length

theorem recorded_index_move {index : PrimaryKeyIndex} (h : index.historical_entries.isSome)
    (pk_name : Option String) (tick : Tick) (count : Nat) (d : Diff) (k : String) :
    (index_move index pk_name tick count d).historical_entries.isSome
      ∧ recorded (index_move index pk_name tick count d) k
        = recorded index k + (key_move pk_name count k d).toList.length := by
  obtain ⟨hist, hh⟩ := Option.isSome_iff_exists.1 h
  cases d with
  | Insert name row values =>
      rw [index_move, index_row_eq, key_move]
      rcases index_key pk_name values with _ | key
      · simp [h]
      · by_cases hk : key = k
        · subst hk
          simp [recorded, PrimaryKeyIndex.insert, hh]
        · simp [recorded, PrimaryKeyIndex.insert, hh, hk, Std.ExtTreeMap.getD_insert]
  | Update name row column value => exact ⟨h, rfl⟩
  | Delete name row => exact ⟨h, rfl⟩
  | ReplaceTable name rows => exact ⟨h, rfl⟩

theorem recorded_index_run {index : PrimaryKeyIndex} (h : index.historical_entries.isSome)
    (pk_name : Option String) (tick : Tick) (count : Nat) (ds : List Diff) (k : String) :
    recorded index k + (last_key pk_name k count ds).toList.length
      ≤ recorded (index_run pk_name tick index count ds) k := by
  induction ds generalizing index count with
  | nil => exact Nat.le_refl _
  | cons d ds ih =>
      obtain ⟨hsome, hmove⟩ := recorded_index_move h pk_name tick count d k
      have hrest := ih hsome (count_move count d)
      rw [index_run, last_key]
      rcases hl : last_key pk_name k (count_move count d) ds with _ | b <;>
        rcases hm : key_move pk_name count k d with _ | b' <;>
          simp only [hl, hm, Option.toList_none, Option.toList_some, List.length_nil,
            List.length_cons, Option.or_none, Option.none_or, Option.some_or] at hmove hrest ⊢ <;>
          omega

theorem historical_index_run (index : PrimaryKeyIndex) (pk_name : Option String) (tick : Tick)
    (count : Nat) (ds : List Diff) :
    (index_run pk_name tick index count ds).historical_entries.isSome
      = index.historical_entries.isSome := by
  induction ds generalizing index count with
  | nil => rfl
  | cons d ds ih =>
      rw [index_run, ih]
      cases d with
      | Insert name row values =>
          rw [index_move, index_row_eq]
          rcases index_key pk_name values with _ | key
          · rfl
          · simp [PrimaryKeyIndex.insert]
      | Update name row column value => rfl
      | Delete name row => rfl
      | ReplaceTable name rows => rfl

/-- A list of diffs that records no key leaves the index. -/
theorem index_run_of_no_key {index : PrimaryKeyIndex} {pk_name : Option String} {tick : Tick}
    {count : Nat} {ds : List Diff} (h : ∀ k, last_key pk_name k count ds = none) :
    index_run pk_name tick index count ds = index := by
  induction ds generalizing index count with
  | nil => rfl
  | cons d ds ih =>
      have hrest : ∀ k, last_key pk_name k (count_move count d) ds = none := fun k =>
        (Option.or_eq_none_iff.1 (h k)).1
      have hmove : index_move index pk_name tick count d = index := by
        cases d with
        | Insert name row values =>
            rw [index_move, index_row_eq]
            rcases hk : index_key pk_name values with _ | key
            · rfl
            · have hkey := (Option.or_eq_none_iff.1 (h key)).2
              simp [key_move, hk] at hkey
        | Update name row column value => rfl
        | Delete name row => rfl
        | ReplaceTable name rows => rfl
      rw [index_run, hmove, ih hrest]

/-- What may be recorded under a key without the index changing. -/
def KeyKept (index : PrimaryKeyIndex) (tick : Tick) (k : String) (b : Nat) : Prop :=
  index.historical_entries = none
    ∧ ∃ e, index.latest_entries[k]? = some e ∧ (tick < e.1 ∨ e = (tick, b, 0))

omit [Render] in
theorem newest_eq_iff {tick : Tick} {b : Nat} {o : Option (Tick × Nat × Nat)} :
    some (newest tick b o) = o ↔ ∃ e, o = some e ∧ (tick < e.1 ∨ e = (tick, b, 0)) := by
  rcases o with _ | ⟨t, p⟩
  · simp
  · by_cases ht : t ≤ tick
    · simp [newest, ht, Nat.not_lt.2 ht, eq_comm]
    · simp [newest, ht, Nat.not_le.1 ht]

theorem index_run_eq_iff {index : PrimaryKeyIndex} {pk_name : Option String} {tick : Tick}
    {count : Nat} {ds : List Diff} :
    index_run pk_name tick index count ds = index
      ↔ ∀ k b, last_key pk_name k count ds = some b → KeyKept index tick k b := by
  constructor
  · intro heq k b hk
    have hlatest := latest_index_run index pk_name tick count ds k
    rw [heq, hk] at hlatest
    refine ⟨?_, newest_eq_iff.1 hlatest.symm⟩
    by_contra hsome
    have hgrow := recorded_index_run (Option.isSome_iff_ne_none.2 hsome) pk_name tick count ds k
    rw [heq, hk, Option.toList_some, List.length_singleton] at hgrow
    omega
  · intro h
    by_cases hnone : ∀ k, last_key pk_name k count ds = none
    · exact index_run_of_no_key hnone
    · -- something is recorded, so there is no history to grow
      obtain ⟨k, hk⟩ := not_forall.1 hnone
      obtain ⟨b, hb⟩ := Option.ne_none_iff_exists'.1 hk
      have hhist : index.historical_entries = none := (h k b hb).1
      have hrun : (index_run pk_name tick index count ds).historical_entries = none := by
        clear h hnone hk hb
        induction ds generalizing index count with
        | nil => exact hhist
        | cons d ds ih =>
            refine ih ?_
            cases d with
            | Insert name row values =>
                rw [index_move, index_row_eq]
                rcases index_key pk_name values with _ | key <;> simp [PrimaryKeyIndex.insert, hhist]
            | Update name row column value => exact hhist
            | Delete name row => exact hhist
            | ReplaceTable name rows => exact hhist
      have hlatest : (index_run pk_name tick index count ds).latest_entries
          = index.latest_entries := by
        refine Std.ExtTreeMap.ext_getElem? fun k => ?_
        rw [latest_index_run]
        rcases hl : last_key pk_name k count ds with _ | b
        · rfl
        · exact newest_eq_iff.2 (h k b hl).2
      obtain ⟨latest, hist⟩ := index
      exact (congrArg₂ PrimaryKeyIndex.mk hlatest (hrun.trans hhist.symm) :)

/-! ## A replace that fails

The rows are booked one by one, each before its values are converted. So a replace
that fails at a row has booked the rows before it, and that row too if it was the
values that failed. -/

/-- The number of rows a replace books. `seen` are the ids booked so far and `i` is
the index of the first row. -/
def booked_rows (pk_name : Option String) (schema : Schema) :
    List RowId → Nat → List JsonMap → Nat
  | _, _, [] => 0
  | seen, i, row :: rows =>
    match row_key pk_name i row with
    | none => 0
    | some id =>
      if pk_name.isSome ∧ id ∈ seen then 0
      else
        match json_map_to_record_batch row schema with
        | .error _ => 1
        | .ok _ => booked_rows pk_name schema (id :: seen) (i + 1) rows + 1

omit [Render] in
theorem replace_row_id_eq {table_name : String} {pk_name : Option String} {pm : RowPositionMap}
    {i : Nat} {row : JsonMap} {id : RowId} :
    replace_row_id table_name pk_name pm i row = .ok id
      ↔ row_key pk_name i row = some id ∧ (pk_name.isSome → pm.position_of id = none) := by
  refine ⟨replace_row_id_ok, ?_⟩
  rintro ⟨hkey, hnew⟩
  unfold replace_row_id
  rcases pk_name with _ | pk
  · simpa [row_key] using hkey
  · obtain ⟨v, hv, hid⟩ := Option.bind_eq_some_iff.1 hkey
    have hfree : pm.contains id = false := (RowPositionMap.contains_eq_false _ _).2 (hnew rfl)
    simp [hv, hid, hfree]

/-- The booked rows have ids of their own. -/
theorem booked_rows_fresh {pk_name : Option String} {schema : Schema} {rows : List JsonMap}
    {seen : List RowId} {n i : Nat} {row : JsonMap} {r : RowId}
    (hmem : (row, i) ∈ (rows.take (booked_rows pk_name schema seen n rows)).zipIdx n)
    (hkey : row_key pk_name i row = some r) :
    (pk_name.isSome → r ∉ seen) ∧ (pk_name = none → n ≤ r) := by
  induction rows generalizing seen n with
  | nil => simp at hmem
  | cons row' rows ih =>
      have hindex : pk_name = none → n ≤ r := by
        rintro rfl
        obtain rfl : i = r := by simpa [row_key] using hkey
        exact (List.mem_zipIdx hmem).1
      refine ⟨fun hpk => ?_, hindex⟩
      unfold booked_rows at hmem
      split at hmem
      · simp at hmem
      rename_i id hid
      split at hmem
      · simp at hmem
      rename_i hnew
      have hhead : (row, i) = (row', n) → r ∉ seen := by
        intro heq
        obtain ⟨rfl, rfl⟩ := Prod.mk.inj heq
        obtain rfl : id = r := Option.some.inj (hid.symm.trans hkey)
        exact fun hin => hnew ⟨hpk, hin⟩
      split at hmem
      · rw [List.take_succ_cons, List.take_zero, List.zipIdx_cons, List.zipIdx_nil,
          List.mem_singleton] at hmem
        exact hhead hmem
      · rw [List.take_succ_cons, List.zipIdx_cons, List.mem_cons] at hmem
        rcases hmem with heq | hrest
        · exact hhead heq
        · exact fun hin => (ih hrest).1 hpk (List.mem_cons_of_mem _ hin)

/-- No later one has the id of the first. -/
theorem booked_rows_later {pk_name : Option String} {schema : Schema} {rows : List JsonMap}
    {seen : List RowId} {n : Nat} {row : JsonMap} {id : RowId}
    (hkey : row_key pk_name n row = some id) :
    ((rows.take (booked_rows pk_name schema (id :: seen) (n + 1) rows)).zipIdx (n + 1)).find?
      (fun p => row_key pk_name p.2 p.1 = some id) = none := by
  rw [List.find?_eq_none]
  rintro ⟨row', i⟩ hmem
  simp only [decide_eq_true_eq]
  intro hkey'
  obtain ⟨hpk, hnpk⟩ := booked_rows_fresh hmem hkey'
  rcases pk_name with _ | pk
  · obtain rfl : n = id := by simpa [row_key] using hkey
    exact absurd (hnpk rfl) (Nat.not_succ_le_self n)
  · exact hpk rfl List.mem_cons_self

omit [Render] in
/-- A row without a key, and one whose key is taken, get no id. -/
theorem replace_row_id_error {table_name : String} {pk_name : Option String} {pm : RowPositionMap}
    {n : Nat} {row : JsonMap}
    (h : ∀ id, row_key pk_name n row = some id → pk_name.isSome ∧ pm.position_of id ≠ none) :
    ∃ e, replace_row_id table_name pk_name pm n row = .error e := by
  rcases hid : replace_row_id table_name pk_name pm n row with e | id
  · exact ⟨e, rfl⟩
  · obtain ⟨hkey, hnew⟩ := replace_row_id_eq.1 hid
    obtain ⟨hpk, hlive⟩ := h id hkey
    exact absurd (hnew hpk) hlive

/-- What a replace's loop leaves in the position map, however far it got. -/
theorem replace_rows_booked {table_name : String} {pk_name : Option String} {schema : Schema}
    {rows : List JsonMap} {pm : RowPositionMap} {bs : List RecordBatch} {seen : List RowId}
    {n : Nat} (hbelow : Below pk_name pm n)
    (hseen : ∀ id, id ∈ seen ↔ pm.position_of id ≠ none) (r : RowId) :
    (forEach (replace_row table_name pk_name schema) (pm, bs) (rows.zipIdx n)).2.1.position_of r
      = ((((rows.take (booked_rows pk_name schema seen n rows)).zipIdx n).find? fun p =>
          row_key pk_name p.2 p.1 = some r).map fun p => (p.2, 0)).or (pm.position_of r) := by
  -- on the rows: `seen` are the ids that the map holds so far
  induction rows generalizing pm bs seen n with
  | nil => simp
  | cons row rows ih =>
      rw [List.zipIdx_cons, booked_rows]
      rcases hkey : row_key pk_name n row with _ | id
      · -- no key: the row is refused before it is booked
        obtain ⟨e, he⟩ : ∃ e, replace_row_id table_name pk_name pm n row = .error e :=
          replace_row_id_error (by simp [hkey])
        rw [forEach_cons_of_error (e := e) (t := (pm, bs)) (by simp [replace_row, he])]
        simp
      by_cases hdup : pk_name.isSome ∧ id ∈ seen
      · -- a key that is taken
        obtain ⟨e, he⟩ : ∃ e, replace_row_id table_name pk_name pm n row = .error e := by
          refine replace_row_id_error fun id' hid => ?_
          obtain rfl : id = id' := Option.some.inj (hkey.symm.trans hid)
          exact ⟨hdup.1, (hseen id).1 hdup.2⟩
        rw [forEach_cons_of_error (e := e) (t := (pm, bs)) (by simp [replace_row, he])]
        simp [hdup]
      · have hid : replace_row_id table_name pk_name pm n row = .ok id := by
          refine replace_row_id_eq.2 ⟨hkey, fun hpk => ?_⟩
          by_contra hlive
          exact hdup ⟨hpk, (hseen id).2 hlive⟩
        have hfind : ∀ (l : List JsonMap), ((row :: l).zipIdx n).find?
            (fun p => row_key pk_name p.2 p.1 = some r)
            = if id = r then some (row, n)
              else (l.zipIdx (n + 1)).find? fun p => row_key pk_name p.2 p.1 = some r := by
          intro l
          by_cases hr : id = r <;> simp [List.zipIdx_cons, hkey, hr]
        rcases hb : json_map_to_record_batch row schema with e | batch
        · -- booked, and then the values fail
          rw [forEach_cons_of_error (e := e) (t := (pm.insert id n 0, bs))
            (by simp [replace_row, hid, hb])]
          simp only [hdup, if_false, List.take_succ_cons, List.take_zero]
          rw [hfind, RowPositionMap.position_of_insert]
          by_cases hr : id = r <;> simp [hr]
        · rw [forEach_cons_of_ok (t := (pm.insert id n 0, bs ++ [batch]))
            (by simp [replace_row, hid, hb])]
          simp only [hdup, if_false, List.take_succ_cons]
          have hseen' : ∀ id', id' ∈ id :: seen ↔ (pm.insert id n 0).position_of id' ≠ none := by
            intro id'
            rw [List.mem_cons, hseen id', RowPositionMap.position_of_insert]
            by_cases hid' : id = id' <;> simp [hid', eq_comm]
          rw [ih (hbelow.insert hkey) hseen', hfind, RowPositionMap.position_of_insert]
          by_cases hr : id = r
          · subst hr
            simp [booked_rows_later hkey]
          · simp [hr]

/-- The part of a failing diff that is booked: of a replace whose schema was found,
its booked rows. -/
def booked_part (reg : TypeRegistry) (t : VersionedTable) : Diff → List Diff
  | .ReplaceTable name rows =>
    match replace_schema t rows reg with
    | none => []
    | some schema =>
      [.ReplaceTable name (rows.take (booked_rows (pk_col_name t) schema [] 0 rows))]
  | .Update _ _ _ _ | .Insert _ _ _ | .Delete _ _ => []

/-- A failed diff leaves what its booked part writes, and nothing else. -/
theorem booked_error {reg : TypeRegistry} {tick : Tick} {d : Diff} {t t' : VersionedTable}
    {e : ArrowStoreError} (h : apply_to_table reg tick d t = (.error e, t')) :
    (∀ r, t'.position_map.position_of r
        = (last_entry (pk_col_name t) r (t.batches tick).length (booked_part reg t d)).getD
          (t.position_map.position_of r))
      ∧ t'.primary_key_index = t.primary_key_index := by
  cases d with
  | Update name row column value =>
      rw [apply_update_error tick h]
      exact ⟨fun r => rfl, rfl⟩
  | Insert name row values =>
      rw [apply_insert_error h]
      exact ⟨fun r => rfl, rfl⟩
  | Delete name row =>
      rw [apply_delete_error tick h]
      exact ⟨fun r => rfl, rfl⟩
  | ReplaceTable name rows =>
      unfold apply_to_table apply_replace_to_table at h
      simp only at h
      split at h
      · rename_i hschema
        obtain ⟨-, rfl⟩ := Prod.mk.inj h
        exact ⟨fun r => by simp [booked_part, hschema, last_entry], rfl⟩
      · rename_i schema hschema
        split at h
        · rename_i e' pm bs hloop
          obtain ⟨-, rfl⟩ := Prod.mk.inj h
          refine ⟨fun r => ?_, rfl⟩
          have hbooked := @replace_rows_booked _ name (pk_col_name t) schema rows .new [] [] 0
            (by intro _ r p hp; simp at hp) (by simp) r
          rw [hloop] at hbooked
          simpa [booked_part, hschema, last_entry, entry_move, replaced_entry] using hbooked
        · cases h

end Keys

end Scharnhorst
