/-
What a session of debug SQL means.

A statement is about a set of rows: it says which rows it wants by what stands in a column, and
knows nothing of row ids. The code takes the row id out of the statement and goes to that row. So
the two agree on tables whose rows carry their id in the key column, for statements that name the
row by that column, and such statements keep it so.

A session is any list of texts and calls of the ring, with commits in between.
-/
import Scharnhorst.DebugWrites
import Scharnhorst.IntegerCells
import Scharnhorst.KeyedSets
import Scharnhorst.Simulation

set_option autoImplicit false

namespace Scharnhorst

open Attempt Addressing SqlParser

/-! ## Statements about sets of rows -/

/-- The rows of every table. -/
abbrev Relations := String → Set (List Cell)

section Meaning

variable [Render]

/-- A row with the value of the condition in its column. -/
def Satisfies (schema : Schema) (condition : WhereCondition) (row : List Cell) : Prop :=
  ∃ c f, schema.column condition.column = some (c, f)
    ∧ row[c]? = some (json_cell condition.value.to_json f.data_type)

/-- The row that an INSERT lists, with nulls in the columns that it leaves out. -/
def listed_row (schema : Schema) (columns : List String) (values : List SqlValue) : List Cell :=
  schema.fields.map fun f =>
    json_cell (((inserted columns values f.name).map SqlValue.to_json).getD .null) f.data_type

open Classical in
/-- What a statement says. -/
noncomputable def sql_meaning (cat : Catalog) (ρ : Relations) : SqlStatement → Relations
  | .Update table column value condition =>
    Function.update ρ table ((fun row =>
      if Satisfies (cat table).1 condition row then set_cell (cat table).1 column value.to_json row
      else row) '' ρ table)
  | .Insert table columns values =>
    Function.update ρ table (insert (listed_row (cat table).1 columns values) (ρ table))
  | .Delete table condition =>
    Function.update ρ table {row ∈ ρ table | ¬ Satisfies (cat table).1 condition row}

end Meaning

/-! ## Key columns -/

/-- The id that a key cell stands for. -/
def id_of_cell : DataType → Cell → Option RowId
  | .Int64, .Int64 n => if 0 ≤ n then some n.toUInt64.toNat else none
  | .UInt64, .UInt64 n => some n.toNat
  | _, _ => none

def id_of_row (c : Nat) (data_type : DataType) (row : List Cell) : Option RowId :=
  row[c]?.bind (id_of_cell data_type)

/-- The table has a key column, of integers. -/
structure CatalogKey (cat : Catalog) (table key : String) (c : Nat) (f : Field) : Prop where
  name : (cat table).2 = some key
  column : (cat table).1.column key = some (c, f)
  integers : f.data_type = .Int64 ∨ f.data_type = .UInt64

/-- Where a table has a key column of integers, every row has its id in it. -/
def Keyed (cat : Catalog) (w : World) : Prop :=
  ∀ n key c f, CatalogKey cat n key c f → KeyedTable.KeyedBy (id_of_row c f.data_type) (w n)

def SqlStatement.table : SqlStatement → String
  | .Update table _ _ _ | .Insert table _ _ | .Delete table _ => table

/-- The statement names its row by this column and by no other. -/
def SqlStatement.NamesRowBy (key : String) : SqlStatement → Prop
  | .Update _ column _ condition => condition.column = key ∧ column ≠ key
  | .Insert _ columns _ => ∀ c ∈ columns, names_row c = true → c = key
  | .Delete _ condition => condition.column = key

instance (key : String) (stmt : SqlStatement) : Decidable (stmt.NamesRowBy key) :=
  match stmt with
  | .Update _ _ _ _ => inferInstanceAs (Decidable (_ ∧ _))
  | .Insert _ columns _ => inferInstanceAs (Decidable (∀ c ∈ columns, _ → _))
  | .Delete _ _ => inferInstanceAs (Decidable (_ = _))

/-- The table of the statement has a key column, and the statement names its row by it. -/
def ByKey (cat : Catalog) (stmt : SqlStatement) : Prop :=
  ∃ key c f, CatalogKey cat stmt.table key c f ∧ stmt.NamesRowBy key

section Keys

variable [Render] [SqlDebug] {cat : Catalog} {w : World}

omit [Render] in
theorem sql_value_to_row_id_ok {v : SqlValue} {r : RowId} (h : sql_value_to_row_id v = .ok r) :
    ∃ i : Int64, v = .Integer i ∧ 0 ≤ i ∧ r = i.toUInt64.toNat := by
  unfold sql_value_to_row_id at h
  split at h
  · rename_i i
    split at h
    · exact ⟨i, rfl, ‹_›, (Except.ok.inj h).symm⟩
    · cases h
  · cases h

omit [SqlDebug] in
/-- The cell of an id in a column of integers. -/
theorem json_cell_id {i : Int64} (hi : 0 ≤ i) : json_cell (json_of_i64 i) .Int64 = .Int64 i
    ∧ json_cell (json_of_i64 i) .UInt64 = .UInt64 i.toUInt64 := by
  have hnonneg : 0 ≤ i.toInt := Int64.le_iff_toInt_le.1 hi
  have hneg : ¬ i < 0 := fun h => by
    rw [Int64.lt_iff_toInt_lt] at h
    exact absurd h (not_lt.2 hnonneg)
  have hsmall : i.toUInt64 ≤ Int64.maxValue.toUInt64 := by
    rw [ofNat_le_maxValue_iff]
    have hbits : i.toInt = if 2 * i.toUInt64.toNat < 2 ^ 64 then (i.toUInt64.toNat : Int)
        else (i.toUInt64.toNat : Int) - (2 ^ 64 : Nat) := BitVec.toInt_eq_toNat_cond i.toBitVec
    split at hbits
    · omega
    · have hlt : i.toUInt64.toNat < 2 ^ 64 := i.toUInt64.toNat_lt
      omega
  unfold json_of_i64
  rw [dif_neg hneg]
  constructor
  · simp [json_cell, Json.is_null, json_to_i64, Json.as_i64, Number.as_i64, hsmall, Except.toOption]
  · simp [json_cell, Json.is_null, json_to_u64, Json.as_u64, Number.as_u64, Except.toOption]

omit [SqlDebug] in
/-- It stands for the id, and no other cell does. -/
theorem id_of_cell_iff {i : Int64} (hi : 0 ≤ i) {data_type : DataType}
    (hintegers : data_type = .Int64 ∨ data_type = .UInt64) (cell : Cell) :
    id_of_cell data_type cell = some i.toUInt64.toNat
      ↔ cell = json_cell (json_of_i64 i) data_type := by
  rcases hintegers with rfl | rfl
  · rw [(json_cell_id hi).1]
    cases cell with
    | Int64 n =>
      simp only [id_of_cell, Option.ite_none_right_eq_some, Option.some.injEq, UInt64.toNat_inj,
        Cell.Int64.injEq]
      constructor
      · rintro ⟨-, heq⟩
        exact Int64.toBitVec_inj.1 (congrArg UInt64.toBitVec heq)
      · rintro rfl
        exact ⟨hi, rfl⟩
    | _ => simp [id_of_cell]
  · rw [(json_cell_id hi).2]
    cases cell with
    | UInt64 n => simp [id_of_cell, UInt64.toNat_inj]
    | _ => simp [id_of_cell]

/-! ## One statement -/

variable {table key : String} {c : Nat} {f : Field}

omit [Render] [SqlDebug] in
theorem id_of_row_eq {row : List Cell} {r : RowId} :
    id_of_row c f.data_type row = some r
      ↔ ∃ cell, row[c]? = some cell ∧ id_of_cell f.data_type cell = some r :=
  Option.bind_eq_some_iff

/-- A condition on the key column wants the row of the id in it. -/
theorem satisfies_iff (hkey : CatalogKey cat table key c f) {condition : WhereCondition} {r : RowId}
    (hcolumn : condition.column = key) (hrow : extract_row_id_from_condition condition = .ok r)
    (row : List Cell) :
    Satisfies (cat table).1 condition row ↔ id_of_row c f.data_type row = some r := by
  have hvalue : sql_value_to_row_id condition.value = .ok r := by
    unfold extract_row_id_from_condition at hrow
    split at hrow
    · cases hrow
    · split at hrow
      · cases hrow
      · exact hrow
  obtain ⟨i, hi, hnonneg, rfl⟩ := sql_value_to_row_id_ok hvalue
  unfold Satisfies
  rw [hcolumn, hkey.column, hi, id_of_row_eq]
  constructor
  · rintro ⟨c', f', hcf, hcell⟩
    obtain ⟨rfl, rfl⟩ := Prod.mk.inj (Option.some.inj hcf)
    exact ⟨_, hcell, (id_of_cell_iff hnonneg hkey.integers _).2 rfl⟩
  · rintro ⟨cell, hcell, hid⟩
    exact ⟨c, f, rfl, ((id_of_cell_iff hnonneg hkey.integers cell).1 hid) ▸ hcell⟩

omit [SqlDebug] in
/-- Another column set leaves the key alone. -/
theorem id_of_row_set (hkey : CatalogKey cat table key c f) {column : String} (hne : column ≠ key)
    (value : Json) (row : List Cell) :
    id_of_row c f.data_type (set_cell (cat table).1 column value row)
      = id_of_row c f.data_type row := by
  unfold id_of_row set_cell
  rcases hcol : (cat table).1.column column with _ | ⟨c', f'⟩
  · rfl
  · rw [List.getElem?_set_ne ((cat table).1.column_ne hcol hkey.column hne)]

omit [Render] in
/-- The row of an INSERT is the value of a column that names it. -/
theorem inserted_row {columns : List String} {values : List SqlValue} {r : RowId}
    {value_map : JsonMap}
    (hdiff : statement_to_diff (.Insert table columns values) = .ok (.Insert table r value_map)) :
    ∃ c v, inserted columns values c = some v ∧ names_row c = true
      ∧ sql_value_to_row_id v = .ok r := by
  simp only [statement_to_diff] at hdiff
  split at hdiff
  · cases hdiff
  obtain ⟨⟨row_id, map⟩, hpairs, hrow⟩ := ReadOnly.bind_eq_ok.1 hdiff
  rcases row_id with _ | row_id
  · cases hrow
  · cases hrow
    exact (insert_columns_ok hpairs).2 r rfl

/-- What is inserted is the row that is listed. -/
theorem json_row_listed {columns : List String} {values : List SqlValue} {r : RowId}
    {value_map : JsonMap} (schema : Schema)
    (hdiff : statement_to_diff (.Insert table columns values) = .ok (.Insert table r value_map)) :
    json_row value_map schema = listed_row schema columns values := by
  unfold json_row listed_row
  refine List.map_congr_left fun field _ => ?_
  rw [Std.ExtTreeMap.getD_eq_getD_getElem?, (insert_to_diff hdiff).1]

/-- And it has its id in the key column. -/
theorem id_of_listed_row (hkey : CatalogKey cat table key c f) {columns : List String}
    {values : List SqlValue} {r : RowId} {value_map : JsonMap}
    (hdiff : statement_to_diff (.Insert table columns values) = .ok (.Insert table r value_map))
    (hnames : ∀ c ∈ columns, names_row c = true → c = key) :
    id_of_row c f.data_type (listed_row (cat table).1 columns values) = some r := by
  obtain ⟨name, v, hinserted, hname, hvalue⟩ := inserted_row hdiff
  obtain rfl := hnames name (List.of_mem_zip (inserted_mem hinserted)).1 hname
  obtain ⟨hat, hfield⟩ := (cat table).1.column_field hkey.column
  obtain ⟨i, rfl, hnonneg, rfl⟩ := sql_value_to_row_id_ok hvalue
  unfold id_of_row listed_row
  rw [List.getElem?_map, hat, Option.map_some, Option.bind_some, hfield, hinserted]
  exact (id_of_cell_iff hnonneg hkey.integers _).2 rfl

/-- The tables of a world, as sets of rows. -/
def relations (w : World) : Relations := fun n => KeyedTable.rows (w n)

omit [Render] [SqlDebug] in
theorem relations_update (w : World) (n : String) (t : Rows) :
    relations (Function.update w n t) = Function.update (relations w) n t.rows := by
  funext n'
  by_cases hn : n' = n
  · subst hn
    simp [relations]
  · simp [relations, Function.update_of_ne hn]

omit [Render] [SqlDebug] in
/-- One table changed, and still keyed. -/
theorem Keyed.update (h : Keyed cat w) {n : String} {t : Rows}
    (ht : ∀ key c f, CatalogKey cat n key c f → KeyedTable.KeyedBy (id_of_row c f.data_type) t) :
    Keyed cat (Function.update w n t) := by
  intro n' key c f hkey
  by_cases hn : n' = n
  · subst hn
    rw [Function.update_self]
    exact ht key c f hkey
  · rw [Function.update_of_ne hn]
    exact h n' key c f hkey

omit [Render] [SqlDebug] in
/-- A table has one key column. -/
theorem CatalogKey.unique {key' : String} {c' : Nat} {f' : Field}
    (h : CatalogKey cat table key c f) (h' : CatalogKey cat table key' c' f') :
    key' = key ∧ c' = c ∧ f' = f := by
  obtain rfl := Option.some.inj (h.name.symm.trans h'.name)
  obtain ⟨rfl, rfl⟩ := Prod.mk.inj (Option.some.inj (h.column.symm.trans h'.column))
  exact ⟨rfl, rfl, rfl⟩

/-- The diff of a statement does what the statement says, if an INSERT finds its id free. -/
theorem world_step_means (h : Keyed cat w) {stmt : SqlStatement} {diff : Diff}
    (hdiff : statement_to_diff stmt = .ok diff) (hkey : ByKey cat stmt)
    (hfree : ∀ table row values, diff = .Insert table row values → w table row = none) :
    Keyed cat (world_step cat w diff)
      ∧ relations (world_step cat w diff) = sql_meaning cat (relations w) stmt := by
  obtain ⟨key, c, f, hcolumn, hnames⟩ := hkey
  have hkeyed := h _ key c f hcolumn
  unfold world_step
  rw [relations_update]
  cases stmt with
  | Update table column value condition =>
    obtain ⟨r, hrow, heq⟩ := ReadOnly.bind_eq_ok.1 hdiff
    obtain rfl := Except.ok.inj heq
    have hsame := id_of_row_set hcolumn hnames.2 value.to_json
    refine ⟨h.update fun key' c' f' hcolumn' => ?_, ?_⟩
    · obtain ⟨-, rfl, rfl⟩ := hcolumn.unique hcolumn'
      exact hkeyed.modify hsame
    · have hrows : (KeyedTable.modify (w table) r (set_cell (cat table).1 column value.to_json)).rows
          = _ := KeyedTable.rows_modify hkeyed _
      refine congrArg (Function.update (relations w) table) (hrows.trans ?_)
      classical
      refine Set.image_congr fun row _ => ?_
      exact if_congr (satisfies_iff hcolumn hnames.1 hrow row).symm rfl rfl
  | Insert table columns values =>
    obtain ⟨r, value_map, rfl⟩ : ∃ r value_map, diff = .Insert table r value_map := by
      simp only [statement_to_diff] at hdiff
      split at hdiff
      · cases hdiff
      obtain ⟨⟨row_id, map⟩, -, hrow⟩ := ReadOnly.bind_eq_ok.1 hdiff
      rcases row_id with _ | row_id
      · cases hrow
      · exact ⟨row_id, map, (Except.ok.inj hrow).symm⟩
    have hlisted := json_row_listed (cat table).1 hdiff
    refine ⟨h.update fun key' c' f' hcolumn' => ?_, ?_⟩
    · obtain ⟨-, rfl, rfl⟩ := hcolumn.unique hcolumn'
      refine hkeyed.insert ?_
      change id_of_row _ _ (json_row value_map (cat table).1) = some r
      rw [hlisted]
      exact id_of_listed_row hcolumn hdiff hnames
    · have hrows : (KeyedTable.insert (w table) r (json_row value_map (cat table).1)).rows = _ :=
        KeyedTable.rows_insert (hfree table r value_map rfl)
      rw [hlisted] at hrows
      refine congrArg (Function.update (relations w) table) (Eq.trans ?_ hrows)
      rw [← hlisted]
      rfl
  | Delete table condition =>
    obtain ⟨r, hrow, heq⟩ := ReadOnly.bind_eq_ok.1 hdiff
    obtain rfl := Except.ok.inj heq
    refine ⟨h.update fun key' c' f' hcolumn' => ?_, ?_⟩
    · obtain ⟨-, rfl, rfl⟩ := hcolumn.unique hcolumn'
      exact hkeyed.delete
    · have hrows : (KeyedTable.delete (w table) r).rows = _ := KeyedTable.rows_delete hkeyed
      refine congrArg (Function.update (relations w) table) (hrows.trans ?_)
      ext row
      exact and_congr_right fun _ => not_congr (satisfies_iff hcolumn hnames hrow row).symm

/-! ## A commit of statements -/

/-- The diffs of statements, one after the other. -/
def Diffs (stmts : List SqlStatement) (diffs : List Diff) : Prop :=
  List.Forall₂ (fun stmt diff => statement_to_diff stmt = .ok diff) stmts diffs

/-- The diffs of a commit go to the tables as the statements say. -/
theorem apply_means {last tick : Tick} {s s' : ArrowStore} {stmts : List SqlStatement}
    {diffs : List Diff} (hdiffs : Diffs stmts diffs) (hshape : Shaped cat last s) (hholds : Holds s w)
    (hl : last ≤ tick) (hkeyed : Keyed cat w) (hkeys : ∀ stmt ∈ stmts, ByKey cat stmt)
    (hfresh : Guarded (ArrowStore.apply_diff tick) (FreshDiff tick) s diffs)
    (hrun : forEach (ArrowStore.apply_diff tick) s diffs = (.ok (), s')) :
    Keyed cat (diffs.foldl (world_step cat) w)
      ∧ relations (diffs.foldl (world_step cat) w) = stmts.foldl (sql_meaning cat) (relations w) := by
  induction hdiffs generalizing s w last with
  | nil => exact ⟨hkeyed, rfl⟩
  | @cons stmt diff stmts diffs hdiff _ ih =>
    obtain ⟨mid, hone, hrest⟩ := forEach_cons_ok.1 hrun
    obtain ⟨hkey, hkeys⟩ := List.forall_mem_cons.1 hkeys
    have hfree : ∀ table row values, diff = .Insert table row values → w table row = none := by
      rintro table row values rfl
      obtain ⟨lock, t', hlock, -, htable, -⟩ := ArrowStore.apply_diff_ok hone
      obtain ⟨-, -, -, hposition, -⟩ := apply_insert_ok htable
      refine (hholds table lock hlock).dead row ?_
      rw [batch_of, hposition, Option.map_none]
    obtain ⟨hkeyed', hmeans⟩ := world_step_means hkeyed hdiff hkey hfree
    rw [List.foldl_cons, List.foldl_cons, ← hmeans]
    exact ih (hshape.apply_diff hl hone) (hholds.apply_diff hshape hl hfresh.1 hone) (Nat.le_refl _)
      hkeyed' hkeys (hfresh.2 mid hone) hrest

end Keys

/-! ## Sessions -/

inductive DebugCall where
  | sql (text : List Char) (tick : Tick)
  | set_enabled (enabled : Bool)
  | clear
  | commit

/-- What the calls of a session write to. -/
structure DebugSession (Q J : Type) where
  debug_journal : DebugWriteJournal
  journal : Journal Q J

/-- What they come to: the log, the statements since the last commit, and the sets of rows. -/
structure SqlState where
  log : DebugLog
  pending : List SqlStatement
  relations : Relations

section Sessions

variable [Render] [SqlDebug] {Q J : Type} {ingestor : SnapshotIngestor Q} {saver : SaveJournal J}

/-- Any calls, in which every commit succeeds and gives each insert a batch index that no live row
has. -/
inductive SqlSession (ingestor : SnapshotIngestor Q) (saver : SaveJournal J)
    (start : DebugSession Q J) : DebugSession Q J → List DebugCall → Prop
  | start : SqlSession ingestor saver start start []
  | sql {s : DebugSession Q J} {calls : List DebugCall}
      (run : SqlSession ingestor saver start s calls)
      (text : List Char) (tick : Tick) :
    SqlSession ingestor saver start
      ⟨(QueryEngine.execute_sql_write s.debug_journal text s.journal tick).2.1,
        (QueryEngine.execute_sql_write s.debug_journal text s.journal tick).2.2⟩
      (calls ++ [.sql text tick])
  | set_enabled {s : DebugSession Q J} {calls : List DebugCall}
      (run : SqlSession ingestor saver start s calls) (enabled : Bool) :
    SqlSession ingestor saver start { s with debug_journal := s.debug_journal.set_enabled enabled }
      (calls ++ [.set_enabled enabled])
  | clear {s : DebugSession Q J} {calls : List DebugCall}
      (run : SqlSession ingestor saver start s calls) :
    SqlSession ingestor saver start { s with debug_journal := s.debug_journal.clear }
      (calls ++ [.clear])
  | commit {s : DebugSession Q J} {calls : List DebugCall} {journal : Journal Q J}
      {result : CommitResult} (run : SqlSession ingestor saver start s calls)
      (hok : s.journal.commit ingestor saver = (.ok result, journal))
      (hfresh : FreshCommit s.journal.arrow_store
        (s.journal.current_tick, s.journal.pending_diffs)) :
    SqlSession ingestor saver start { s with journal } (calls ++ [.commit])

/-- What a call means. -/
noncomputable def call_meaning (cat : Catalog) (σ : SqlState) : DebugCall → SqlState
  | .sql text tick =>
    match QueryEngine.understood text with
    | none => σ
    | some (stmt, diff) =>
      { σ with
        log := σ.log.record (diff_to_debug_write_op diff tick)
        pending := σ.pending ++ [stmt] }
  | .set_enabled enabled => { σ with log := { σ.log with enabled } }
  | .clear => { σ with log := { σ.log with ops := [] } }
  | .commit => { σ with pending := [], relations := σ.pending.foldl (sql_meaning cat) σ.relations }

/-- Every statement that the calls understand names its row by the key column. -/
def AllByKey (cat : Catalog) (calls : List DebugCall) : Prop :=
  ∀ text tick stmt diff, .sql text tick ∈ calls →
    QueryEngine.understood text = some (stmt, diff) → ByKey cat stmt

/-- The ring, the journal and the tables of a session, and what they mean. -/
structure Means (cat : Catalog) (capacity : Nat) (s : DebugSession Q J) (σ : SqlState) : Prop where
  ring : s.debug_journal.Ends capacity σ.log
  pending : Diffs σ.pending s.journal.pending_diffs
  by_key : ∀ stmt ∈ σ.pending, ByKey cat stmt
  tables : ∃ count w, { s.journal with pending_diffs := [] }.Between cat count w ∧ Keyed cat w
    ∧ relations w = σ.relations

variable {cat : Catalog} {capacity : Nat} {s : DebugSession Q J} {σ : SqlState}

/-- A text, understood or not. -/
theorem Means.sql (h : Means cat capacity s σ) (text : List Char) (tick : Tick)
    (hkey : ∀ stmt diff, QueryEngine.understood text = some (stmt, diff) → ByKey cat stmt) :
    Means cat capacity
      ⟨(QueryEngine.execute_sql_write s.debug_journal text s.journal tick).2.1,
        (QueryEngine.execute_sql_write s.debug_journal text s.journal tick).2.2⟩
      (call_meaning cat σ (.sql text tick)) := by
  obtain ⟨count, w, hbetween, hkeyed, hrelations⟩ := h.tables
  have hopen : s.journal.phase = .Open := hbetween.phase
  rcases hunderstood : QueryEngine.understood text with _ | ⟨stmt, diff⟩
  · rw [(QueryEngine.execute_not_understood hunderstood).1]
    simp only [call_meaning, hunderstood]
    exact h
  · rw [QueryEngine.execute_understood hopen hunderstood]
    simp only [call_meaning, hunderstood]
    refine ⟨h.ring.record _, ?_, ?_, count, w, hbetween, hkeyed, hrelations⟩
    · exact List.rel_append h.pending (.cons (QueryEngine.understood_ok hunderstood).2 .nil)
    · intro stmt' hstmt
      rcases List.mem_append.1 hstmt with hstmt | hstmt
      · exact h.by_key stmt' hstmt
      · rw [List.mem_singleton.1 hstmt]
        exact hkey stmt diff hunderstood

/-- A commit, of the statements since the one before. -/
theorem Means.commit (h : Means cat capacity s σ) {journal : Journal Q J} {result : CommitResult}
    (hok : s.journal.commit ingestor saver = (.ok result, journal))
    (hfresh : FreshCommit s.journal.arrow_store
      (s.journal.current_tick, s.journal.pending_diffs)) :
    Means cat capacity { s with journal } (call_meaning cat σ .commit) := by
  obtain ⟨count, w, hbetween, hkeyed, hrelations⟩ := h.tables
  obtain ⟨saved, mid, store, snapshot, state_hash, happlies⟩ := Journal.commit_ok hok
  obtain ⟨-, -, hrun⟩ := ArrowStore.apply_diffs_ok.1 happlies.diffs
  obtain ⟨hkeyed', hmeans⟩ := apply_means h.pending hbetween.shaped hbetween.holds (Nat.le_refl _)
    hkeyed h.by_key hfresh hrun
  have hafter := hbetween.commit hfresh hok
  have hempty : journal.pending_diffs = [] := hafter.pending
  refine ⟨h.ring, ?_, nofun, count + 1, _, ?_, hkeyed', ?_⟩
  · change Diffs [] journal.pending_diffs
    rw [hempty]
    exact .nil
  · change Journal.Between cat (count + 1) { journal with pending_diffs := [] } _
    rw [← hempty]
    exact hafter
  · rw [hmeans, hrelations]
    rfl

theorem SqlSession.means {start : DebugSession Q J} {calls : List DebugCall}
    (run : SqlSession ingestor saver start s calls) (hstart : Means cat capacity start σ)
    (hkeys : AllByKey cat calls) : Means cat capacity s (calls.foldl (call_meaning cat) σ) := by
  have hbefore : ∀ {calls : List DebugCall} {call : DebugCall}, AllByKey cat (calls ++ [call]) →
      AllByKey cat calls := fun h text tick stmt diff hmem =>
    h text tick stmt diff (List.mem_append_left _ hmem)
  induction run with
  | start => exact hstart
  | sql run text tick ih =>
    rw [List.foldl_append]
    refine (ih (hbefore hkeys)).sql text tick fun stmt diff hunderstood => ?_
    exact hkeys text tick stmt diff (List.mem_append_right _ List.mem_cons_self) hunderstood
  | set_enabled run enabled ih =>
    rw [List.foldl_append]
    have h := ih (hbefore hkeys)
    exact ⟨h.ring.set_enabled enabled, h.pending, h.by_key, h.tables⟩
  | clear run ih =>
    rw [List.foldl_append]
    have h := ih (hbefore hkeys)
    exact ⟨h.ring.clear, h.pending, h.by_key, h.tables⟩
  | commit run hok hfresh ih =>
    rw [List.foldl_append]
    exact (ih (hbefore hkeys)).commit hok hfresh

omit [Render] [SqlDebug] in
/-- The rows that a table shows. -/
def shown_rows (t : VersionedTable) : Set (List Cell) := {row | ∃ r, t.resolve r = some row}

end Sessions

/-! ### A session of four texts -/

section Console

attribute [local instance] plain_text QueryEngine.no_merge plain_debug

def console : DebugSession QueryEngine (List CommitRecord) :=
  ⟨.new 2, Journal.items_journal items_store []⟩

/-- An execution. -/
def executed (s : DebugSession QueryEngine (List CommitRecord)) (text : String) :
    DebugSession QueryEngine (List CommitRecord) :=
  ⟨(QueryEngine.execute_sql_write s.debug_journal text.toList s.journal 0).2.1,
    (QueryEngine.execute_sql_write s.debug_journal text.toList s.journal 0).2.2⟩

def committed (s : DebugSession QueryEngine (List CommitRecord)) :
    DebugSession QueryEngine (List CommitRecord) :=
  { s with journal := (Journal.items_commit s.journal).2 }

/-- Two items, a text that is no statement, a commit, and an update that waits. -/
def console_after : DebugSession QueryEngine (List CommitRecord) :=
  let s := executed console "INSERT INTO items (id, qty) VALUES (1, 10)"
  let s := executed s "insert into items (qty, id) values (20, 2)"
  let s := committed (executed s "SELECT * FROM items")
  executed s "UPDATE items SET qty = 30 WHERE id = 2"

def console_calls : List DebugCall :=
  [.sql "INSERT INTO items (id, qty) VALUES (1, 10)".toList 0,
    .sql "insert into items (qty, id) values (20, 2)".toList 0,
    .sql "SELECT * FROM items".toList 0, .commit,
    .sql "UPDATE items SET qty = 30 WHERE id = 2".toList 0]

theorem items_key : CatalogKey items_store.catalog "items" "id" 0 ⟨"id", .UInt64, false⟩ :=
  ⟨by decide +kernel, by decide +kernel, Or.inr rfl⟩

theorem console_by_key : AllByKey items_store.catalog console_calls := by
  have hparses : ∀ {text : List Char} {expected stmt : SqlStatement} {diff : Diff},
      parse text = .ok expected → ByKey items_store.catalog expected →
        QueryEngine.understood text = some (stmt, diff) → ByKey items_store.catalog stmt := by
    intro text expected stmt diff hparse hkey hunderstood
    obtain rfl := Except.ok.inj (hparse.symm.trans (QueryEngine.understood_ok hunderstood).1)
    exact hkey
  intro text tick stmt diff hmem hunderstood
  simp only [console_calls, List.mem_cons, DebugCall.sql.injEq, reduceCtorEq, List.not_mem_nil,
    or_false, false_or] at hmem
  obtain ⟨rfl, -⟩ | ⟨rfl, -⟩ | ⟨rfl, -⟩ | ⟨rfl, -⟩ := hmem
  · have hparse : parse "INSERT INTO items (id, qty) VALUES (1, 10)".toList
        = .ok (.Insert "items" ["id", "qty"] [.Integer 1, .Integer 10]) := by decide +kernel
    exact hparses hparse ⟨"id", 0, _, items_key, by decide +kernel⟩ hunderstood
  · have hparse : parse "insert into items (qty, id) values (20, 2)".toList
        = .ok (.Insert "items" ["qty", "id"] [.Integer 20, .Integer 2]) := by decide +kernel
    exact hparses hparse ⟨"id", 0, _, items_key, by decide +kernel⟩ hunderstood
  · obtain ⟨hparse, -⟩ := QueryEngine.understood_ok hunderstood
    have hfails : (parse "SELECT * FROM items".toList).toOption = none := by decide +kernel
    rw [hparse] at hfails
    cases hfails
  · have hparse : parse "UPDATE items SET qty = 30 WHERE id = 2".toList
        = .ok (.Update "items" "qty" (.Integer 30) ⟨"id", .Eq, .Integer 2⟩) := by decide +kernel
    exact hparses hparse ⟨"id", 0, _, items_key, by decide +kernel⟩ hunderstood

end Console

end Scharnhorst
