/-
The row that a SQL statement is about.

An INSERT takes its row from three columns, `row_id`, `id` and `actor_id`, and the last of them in
the list wins. An UPDATE or DELETE takes it from any column whose name ends like that of a key. Both
read it off a value the same way, so they are about one row as long as all the columns that look
like a key hold one value.
-/
import Scharnhorst.Core
import Scharnhorst.Materialization
import Scharnhorst.SqlParser

set_option autoImplicit false

namespace Scharnhorst

/-! ## From statements to diffs -/

/-- `impl Debug for SqlValue`. -/
class SqlDebug where
  sql_value_debug : SqlValue → String

/-- `JournalError`, the variants that the conversion raises. -/
inductive StatementError where
  | SqlParse (message : String)
  | SqlUnsupported (message : String)
  | SqlTypeError (expected actual : String)
deriving DecidableEq

abbrev StatementResult := Except StatementError

def SqlValue.to_json : SqlValue → Json
  | .Integer i => json_of_i64 i
  | .Float f => json_of_f64 f
  | .String s => .string s
  | .Boolean b => .bool b
  | .Null => .null

namespace SqlParser

/-- The test of a WHERE column, over its name in lower case. -/
def id_like (column : String) : Bool :=
  let col_lower := column.toList.map Char.toLower
  "_id".toList.isSuffixOf col_lower || col_lower == "id".toList || col_lower == "row_id".toList

/-- The test of an INSERT column. -/
def names_row (column : String) : Bool :=
  eq_ignore_ascii_case column.toList "row_id".toList
    || eq_ignore_ascii_case column.toList "id".toList
    || eq_ignore_ascii_case column.toList "actor_id".toList

/-- What names the row in an INSERT may name it in a WHERE. -/
theorem id_like_of_names_row {column : String} (h : names_row column = true) :
    id_like column = true := by
  unfold names_row eq_ignore_ascii_case at h
  unfold id_like
  simp only [Bool.or_eq_true, beq_iff_eq] at h
  rcases h with (h | h) | h
  all_goals
    rw [h]
    rfl

section Rows

variable [SqlDebug]

def sql_value_to_row_id : SqlValue → StatementResult RowId
  | .Integer i =>
    if 0 ≤ i then .ok i.toUInt64.toNat
    else .error (.SqlTypeError "positive integer (row id)" (SqlDebug.sql_value_debug (.Integer i)))
  | value => .error (.SqlTypeError "positive integer (row id)" (SqlDebug.sql_value_debug value))

def extract_row_id_from_condition (condition : WhereCondition) : StatementResult RowId :=
  if condition.operator ≠ .Eq then
    .error (.SqlUnsupported "WHERE clause must use = operator for row identification")
  else if !id_like condition.column then
    .error (.SqlUnsupported
      s!"WHERE clause must use an id column for row identification, got: {condition.column}")
  else sql_value_to_row_id condition.value

/-- One round of the loop over an INSERT's columns and values. -/
def insert_column (acc : Option RowId × JsonMap) (pair : String × SqlValue) :
    StatementResult (Option RowId × JsonMap) := do
  let row_id ← if names_row pair.1 then (sql_value_to_row_id pair.2).map some else .ok acc.1
  return (row_id, acc.2.insert pair.1 pair.2.to_json)

def statement_to_diff : SqlStatement → StatementResult Diff
  | .Update table column value condition => do
    let row_id ← extract_row_id_from_condition condition
    return .Update table row_id column value.to_json
  | .Insert table columns values =>
    if columns.length ≠ values.length then
      .error (.SqlParse "column count does not match value count")
    else do
      let (row_id, value_map) ← (columns.zip values).foldlM insert_column (none, ∅)
      match row_id with
      | some row_id => return .Insert table row_id value_map
      | none => .error (.SqlParse "INSERT must specify a row identifier column")
  | .Delete table condition => do
    let row_id ← extract_row_id_from_condition condition
    return .Delete table row_id

/-! ## Row ids -/

/-- Two values for one row are one value. -/
theorem sql_value_to_row_id_inj {v w : SqlValue} {r : RowId}
    (hv : sql_value_to_row_id v = .ok r) (hw : sql_value_to_row_id w = .ok r) : v = w := by
  have hinteger : ∀ {x : SqlValue}, sql_value_to_row_id x = .ok r →
      ∃ i, x = .Integer i ∧ i.toUInt64.toNat = r := by
    intro x hx
    unfold sql_value_to_row_id at hx
    split at hx
    · split at hx
      · exact ⟨_, rfl, Except.ok.inj hx⟩
      · cases hx
    · cases hx
  obtain ⟨i, rfl, hi⟩ := hinteger hv
  obtain ⟨j, rfl, hj⟩ := hinteger hw
  have hbits : i.toUInt64 = j.toUInt64 := UInt64.toNat_inj.1 (hi.trans hj.symm)
  rw [Int64.toBitVec_inj.1 (congrArg UInt64.toBitVec hbits)]

theorem extract_row_id_of_id_like {column : String} (h : id_like column = true) (value : SqlValue) :
    extract_row_id_from_condition ⟨column, .Eq, value⟩ = sql_value_to_row_id value := by
  unfold extract_row_id_from_condition
  rw [if_neg (not_not_intro rfl), h]
  rfl

/-! ## The loop of an INSERT -/

/-- The value of a column in a list of columns and values. The last one counts. -/
def inserted (columns : List String) (values : List SqlValue) (column : String) :
    Option SqlValue :=
  (columns.zip values).reverse.lookup column

theorem insert_column_ok {acc next : Option RowId × JsonMap} {pair : String × SqlValue}
    (h : insert_column acc pair = .ok next) :
    next.2 = acc.2.insert pair.1 pair.2.to_json
      ∧ (names_row pair.1 = true → ∃ r, sql_value_to_row_id pair.2 = .ok r ∧ next.1 = some r)
      ∧ (names_row pair.1 = false → next.1 = acc.1) := by
  unfold insert_column at h
  rcases hname : names_row pair.1 with _ | _
  · rw [hname] at h
    cases h
    refine ⟨rfl, ?_, fun _ => rfl⟩
    intro hfalse
    cases hfalse
  · rw [hname] at h
    rcases hrow : sql_value_to_row_id pair.2 with e | r
    · rw [hrow] at h
      cases h
    · rw [hrow] at h
      cases h
      refine ⟨rfl, fun _ => ⟨r, rfl, rfl⟩, ?_⟩
      intro hfalse
      cases hfalse

/-- After the loop the map has the last value of every column, and the row is that of the last
column that names it. -/
theorem insert_columns_ok {pairs : List (String × SqlValue)} {row_id : Option RowId}
    {value_map : JsonMap} (h : pairs.foldlM insert_column (none, ∅) = .ok (row_id, value_map)) :
    (∀ c, value_map[c]? = (pairs.reverse.lookup c).map SqlValue.to_json)
      ∧ ∀ r, row_id = some r → ∃ c v, pairs.reverse.lookup c = some v ∧ names_row c = true
        ∧ sql_value_to_row_id v = .ok r := by
  induction pairs using List.reverseRecOn generalizing row_id value_map with
  | nil =>
    cases h
    refine ⟨fun c => Std.ExtTreeMap.getElem?_empty, ?_⟩
    intro r hr
    cases hr
  | append_singleton pairs pair ih =>
    rw [List.foldlM_append] at h
    rcases hacc : pairs.foldlM insert_column (none, ∅) with e | acc
    · rw [hacc] at h
      cases h
    · rw [hacc] at h
      change (insert_column acc pair >>= pure) = _ at h
      rw [bind_pure] at h
      obtain ⟨hmap, hnames, hother⟩ := insert_column_ok h
      obtain ⟨ihmap, ihrow⟩ := ih hacc
      rw [List.reverse_concat]
      constructor
      · intro c
        change value_map = _ at hmap
        -- the last pair decides about its own column and leaves the others
        rw [hmap, Std.ExtTreeMap.getElem?_insert, ihmap, List.lookup_cons]
        by_cases hc : pair.1 = c
        · rw [hc, Std.ReflOrd.compare_self, if_pos rfl]
          simp
        · rw [if_neg (fun heq => hc (Std.LawfulEqOrd.eq_of_compare heq)),
            beq_eq_false_iff_ne.2 (Ne.symm hc)]
      · intro r hr
        rcases hname : names_row pair.1 with _ | _
        · -- the row was there before, under another name
          obtain ⟨c, v, hlookup, hc, hv⟩ := ihrow r ((hother hname).symm.trans hr)
          refine ⟨c, v, ?_, hc, hv⟩
          have hne : c ≠ pair.1 := by
            intro heq
            rw [← heq, hc] at hname
            cases hname
          rw [List.lookup_cons, beq_eq_false_iff_ne.2 hne]
          exact hlookup
        · obtain ⟨r', hv, hr'⟩ := hnames hname
          refine ⟨pair.1, pair.2, ?_, hname, ?_⟩
          · rw [List.lookup_cons, beq_self_eq_true]
          · rw [hv, Option.some.inj (hr'.symm.trans hr)]

/-! ## Both together -/

variable {table : String} {columns : List String} {values : List SqlValue} {r : RowId}
  {value_map : JsonMap}

/-- An INSERT that becomes a diff has a value for its row. -/
theorem insert_to_diff (h : statement_to_diff (.Insert table columns values)
      = .ok (.Insert table r value_map)) :
    (∀ c, value_map[c]? = (inserted columns values c).map SqlValue.to_json)
      ∧ ∃ c v, inserted columns values c = some v ∧ id_like c = true
        ∧ sql_value_to_row_id v = .ok r := by
  simp only [statement_to_diff] at h
  by_cases hlen : columns.length ≠ values.length
  · rw [if_pos hlen] at h
    cases h
  · rw [if_neg hlen] at h
    rcases hpairs : (columns.zip values).foldlM insert_column (none, ∅) with e | ⟨row_id, map⟩
    · rw [hpairs] at h
      cases h
    · rw [hpairs] at h
      rcases row_id with _ | row_id
      · cases h
      · cases h
        obtain ⟨hmap, hrow⟩ := insert_columns_ok hpairs
        obtain ⟨c, v, hlookup, hname, hv⟩ := hrow r rfl
        exact ⟨hmap, c, v, hlookup, id_like_of_names_row hname, hv⟩

/-- Every UPDATE and DELETE that names a row by a column like a key, with the value inserted there,
is about the row. -/
def AddressesRow (columns : List String) (values : List SqlValue) (r : RowId) : Prop :=
  ∀ c v, inserted columns values c = some v → id_like c = true →
    (∀ table column value, statement_to_diff (.Update table column value ⟨c, .Eq, v⟩)
        = .ok (.Update table r column value.to_json))
      ∧ ∀ table, statement_to_diff (.Delete table ⟨c, .Eq, v⟩) = .ok (.Delete table r)

omit [SqlDebug] in
/-- All the columns like a key have one value. -/
def OneIdentity (columns : List String) (values : List SqlValue) : Prop :=
  ∀ c v c' v', inserted columns values c = some v → id_like c = true →
    inserted columns values c' = some v' → id_like c' = true → v = v'

theorem update_row_iff {c column : String} {v value : SqlValue} (hc : id_like c = true) :
    statement_to_diff (.Update table column value ⟨c, .Eq, v⟩)
        = .ok (.Update table r column value.to_json) ↔ sql_value_to_row_id v = .ok r := by
  simp only [statement_to_diff, extract_row_id_of_id_like hc]
  rcases sql_value_to_row_id v with e | r' <;> simp [bind, Except.bind, pure, Except.pure]

theorem delete_row_iff {c : String} {v : SqlValue} (hc : id_like c = true) :
    statement_to_diff (.Delete table ⟨c, .Eq, v⟩) = .ok (.Delete table r)
      ↔ sql_value_to_row_id v = .ok r := by
  simp only [statement_to_diff, extract_row_id_of_id_like hc]
  rcases sql_value_to_row_id v with e | r' <;> simp [bind, Except.bind, pure, Except.pure]

/-- INSERT and WHERE agree on the row if and only if all the columns like a key have one value. -/
theorem addresses_row_iff (h : statement_to_diff (.Insert table columns values)
      = .ok (.Insert table r value_map)) :
    AddressesRow columns values r ↔ OneIdentity columns values := by
  obtain ⟨-, c₀, v₀, hv₀, hc₀, hrow₀⟩ := insert_to_diff h
  constructor
  · -- a DELETE by either column is about the same row
    intro haddresses c v c' v' hv hc hv' hc'
    have hrow := (delete_row_iff hc).1 ((haddresses c v hv hc).2 table)
    have hrow' := (delete_row_iff hc').1 ((haddresses c' v' hv' hc').2 table)
    exact sql_value_to_row_id_inj hrow hrow'
  · -- the row is the value of some column like a key, so it is the value of all
    intro hone c v hv hc
    have hrow : sql_value_to_row_id v = .ok r := by
      rw [hone c v c₀ v₀ hv hc hv₀ hc₀]
      exact hrow₀
    refine ⟨fun table column value => ?_, fun table => ?_⟩
    · exact (update_row_iff hc).2 hrow
    · exact (delete_row_iff hc).2 hrow

end Rows

/-! ### Two inserts -/

theorem inserted_mem {columns : List String} {values : List SqlValue} {c : String} {v : SqlValue}
    (h : inserted columns values c = some v) :
    (c, v) ∈ columns.zip values := by
  obtain ⟨before, after, hsplit, -⟩ := List.lookup_eq_some_iff.1 h
  rw [← List.mem_reverse, hsplit]
  exact List.mem_append_right before List.mem_cons_self

/-- A rendering of the values without floats and without characters that are escaped. -/
@[reducible] def plain_debug : SqlDebug where
  sql_value_debug
    | .Integer i => "Integer(" ++ toString i.toInt ++ ")"
    | .Float _ => ""
    | .String s => "String(\"" ++ s ++ "\")"
    | .Boolean b => "Boolean(" ++ toString b ++ ")"
    | .Null => "Null"

/-- An actor with a name. -/
theorem actor_addressed :
    @statement_to_diff plain_debug (.Insert "actor" ["actor_id", "name"] [.Integer 3, .String "Prussia"])
        = .ok (.Insert "actor" 3 (((∅ : JsonMap).insert "actor_id" (json_of_i64 3)).insert "name"
          (.string "Prussia")))
      ∧ @AddressesRow plain_debug ["actor_id", "name"] [.Integer 3, .String "Prussia"] 3 := by
  have hdiff : @statement_to_diff plain_debug
        (.Insert "actor" ["actor_id", "name"] [.Integer 3, .String "Prussia"])
      = .ok (.Insert "actor" 3 (((∅ : JsonMap).insert "actor_id" (json_of_i64 3)).insert "name"
          (.string "Prussia"))) := rfl
  have hone : ∀ {c v}, inserted ["actor_id", "name"] [.Integer 3, .String "Prussia"] c = some v →
      id_like c = true → v = .Integer 3 := by
    intro c v hv hc
    rcases List.mem_cons.1 (inserted_mem hv) with h | h
    · cases h
      rfl
    · cases List.mem_singleton.1 h
      cases hc
  refine ⟨hdiff, (@addresses_row_iff plain_debug _ _ _ _ _ hdiff).2 ?_⟩
  intro c v c' v' hv hc hv' hc'
  rw [hone hv hc, hone hv' hc']

/-- A province with an owner: `WHERE owner_id = 7` is about the row 7. -/
theorem owner_not_addressed :
    @statement_to_diff plain_debug (.Insert "province" ["id", "owner_id"] [.Integer 1, .Integer 7])
        = .ok (.Insert "province" 1 (((∅ : JsonMap).insert "id" (json_of_i64 1)).insert "owner_id"
          (json_of_i64 7)))
      ∧ ¬ @AddressesRow plain_debug ["id", "owner_id"] [.Integer 1, .Integer 7] 1 := by
  refine ⟨rfl, ?_⟩
  intro haddresses
  have hdelete := (haddresses "owner_id" (.Integer 7) rfl rfl).2 "province"
  have hrow := (@delete_row_iff plain_debug _ _ _ _ rfl).1 hdelete
  exact absurd (Except.ok.inj hrow) (by decide)

end SqlParser

end Scharnhorst
