/-
What the order of a hash map does to a scope jump.

A jump scans the rows of the table it leads to, in the order in which the position map lists
them, and ends on the first row with the key it looks for, or with an error on the first row
whose key cannot be read. With two such rows, one of them with the key, each can come first.
That is the only way for the order to show.
-/
import Scharnhorst.ScopeJumps

set_option autoImplicit false

namespace Scharnhorst.Evaluator

/-! ## Keys that can be read -/

/-- The key of a row, if it can be read. -/
def key_of (q : QueryEngine) (table column : String) (row : RowId) : Option Int64 :=
  (read_key q table column "" row).toOption

section Keys

variable {q : QueryEngine} {table column null_text : String} {row : RowId} {key : Int64}

theorem read_key_eq_ok : read_key q table column null_text row = .ok key ↔
    key_of q table column row = some key := by
  unfold key_of read_key
  rcases q.lookup_row table row >>= (·.get_i64 column) with e | _ | v <;> simp [Except.toOption]

theorem read_key_eq_error : (∃ e, read_key q table column null_text row = .error e) ↔
    key_of q table column row = none := by
  unfold key_of read_key
  rcases q.lookup_row table row >>= (·.get_i64 column) with e | _ | v <;> simp [Except.toOption]

end Keys

/-! ## The scan -/

section Scan

variable {q : QueryEngine} {table column null_text : String} {key : Int64} {rows : List RowId}

theorem mem_of_find_row {row : RowId}
    (h : find_row q table column null_text key rows = .ok (some row)) : row ∈ rows := by
  induction rows with
  | nil => cases h
  | cons r rows ih =>
    simp only [find_row] at h
    split at h
    · cases h
    · split at h
      · rw [Option.some.inj (Except.ok.inj h)]
        exact List.mem_cons_self
      · exact List.mem_cons_of_mem r (ih h)

/-- A row with the key is found in any order if all others can be read and have another key. -/
theorem find_row_sole {row : RowId} (hmem : row ∈ rows)
    (hkey : key_of q table column row = some key)
    (hothers : ∀ r ∈ rows, r ≠ row → ∃ v, key_of q table column r = some v ∧ v ≠ key) :
    find_row q table column null_text key rows = .ok (some row) := by
  induction rows with
  | nil => cases hmem
  | cons r rows ih =>
    by_cases hr : r = row
    · rw [hr, find_row, read_key_eq_ok.2 hkey]
      exact if_pos rfl
    · -- any other row is read and passed over
      obtain ⟨v, hv, hne⟩ := hothers r List.mem_cons_self hr
      rw [find_row, read_key_eq_ok.2 hv]
      simp only [if_neg hne]
      apply ih
      · exact (List.mem_cons.1 hmem).resolve_left (Ne.symm hr)
      · intro s hs
        exact hothers s (List.mem_cons_of_mem r hs)

end Scan

/-! ## Jumps whose outcome the order decides -/

/-- Where the jump goes, one listed row has the key that is looked for, and another one has it
too or has a key that cannot be read. -/
def Ambiguous (ev : Evaluator) (edge : RelationEdge) (direction : JumpDirection) : Prop :=
  ∃ q pk_col key view row other, ev.query_engine.read = .ok q ∧
    primary_key q edge.to_table = .ok pk_col ∧
    key_of q (edge.start direction) (edge.start_column pk_col direction) ev.scope.row = some key ∧
    q.read_single_table ev.cache.current_tick (edge.destination direction) = .ok view ∧
    view.position_map.contains row = true ∧ view.position_map.contains other = true ∧
    row ≠ other ∧
    key_of q (edge.destination direction) (edge.destination_column pk_col direction) row =
      some key ∧
    (key_of q (edge.destination direction) (edge.destination_column pk_col direction) other =
        some key ∨
      key_of q (edge.destination direction) (edge.destination_column pk_col direction) other = none)

/-- The row that a jump resolves to, or that there is none, is the same in every order. -/
def Deterministic (ev : Evaluator) (edge : RelationEdge) (direction : JumpDirection) : Prop :=
  ∀ row_ids row_ids', Lists row_ids → Lists row_ids' →
    (resolve_target_row row_ids ev edge direction).toOption =
      (resolve_target_row row_ids' ev edge direction).toOption

section Jumps

variable {ev : Evaluator} {q : QueryEngine} {table column null_text not_found : String}
  {key : Int64} {view : TableReadView}

/-- What the scan of a table comes to. -/
theorem scan_table_eq (hview : q.read_single_table ev.cache.current_tick table = .ok view)
    (row_ids : RowPositionMap → List RowId) :
    (scan_table row_ids ev q table column null_text key not_found).toOption =
      (find_row q table column null_text key (row_ids view.position_map)).toOption.join := by
  unfold scan_table
  simp only [hview]
  rcases find_row q table column null_text key (row_ids view.position_map) with e | _ | row <;> rfl

/-- Without two rows that can end the scan, one of them with the key, no order changes it. -/
theorem scan_table_order (hview : q.read_single_table ev.cache.current_tick table = .ok view)
    (hsole : ∀ row other, view.position_map.contains row = true →
      view.position_map.contains other = true → row ≠ other →
      key_of q table column row = some key →
      ∃ v, key_of q table column other = some v ∧ v ≠ key)
    {row_ids row_ids' : RowPositionMap → List RowId} (h : Lists row_ids) (h' : Lists row_ids') :
    (scan_table row_ids ev q table column null_text key not_found).toOption =
      (scan_table row_ids' ev q table column null_text key not_found).toOption := by
  rw [scan_table_eq hview, scan_table_eq hview]
  by_cases hkey : ∃ row, view.position_map.contains row = true ∧ key_of q table column row = some key
  · -- the one row with the key is found in both orders
    obtain ⟨row, hlive, hrow⟩ := hkey
    have hfound : ∀ order, Lists order →
        find_row q table column null_text key (order view.position_map) = .ok (some row) := by
      intro order horder
      refine find_row_sole (horder.mem.2 hlive) hrow ?_
      intro other hother hne
      exact hsole row other hlive (horder.mem.1 hother) (Ne.symm hne) hrow
    rw [hfound row_ids h, hfound row_ids' h']
  · -- no order finds what is not there
    have hmissed : ∀ order, Lists order →
        (find_row q table column null_text key (order view.position_map)).toOption.join = none := by
      intro order horder
      rcases hfind : find_row q table column null_text key (order view.position_map)
        with e | _ | row
      · rfl
      · rfl
      · have hread := read_key_eq_ok.1 (read_key_of_find_row hfind)
        exact absurd ⟨row, horder.mem.1 (mem_of_find_row hfind), hread⟩ hkey
    rw [hmissed row_ids h, hmissed row_ids' h']

/-- A row that ends the scan, listed first, decides what it comes to. -/
theorem scan_table_first_row (hview : q.read_single_table ev.cache.current_tick table = .ok view)
    {row : RowId} (hlive : view.position_map.contains row = true) :
    (key_of q table column row = some key →
      (scan_table (first_row row) ev q table column null_text key not_found).toOption = some row) ∧
    (key_of q table column row = none →
      (scan_table (first_row row) ev q table column null_text key not_found).toOption = none) := by
  rw [scan_table_eq hview, first_row_live hlive, find_row]
  constructor
  · intro hkey
    rw [read_key_eq_ok.2 hkey]
    simp [Except.toOption]
  · intro hnone
    obtain ⟨e, he⟩ := read_key_eq_error.2 hnone
    rw [he]
    rfl

end Jumps

/-- A jump is deterministic if and only if it is not ambiguous. -/
theorem deterministic_iff (ev : Evaluator) (edge : RelationEdge) (direction : JumpDirection) :
    Deterministic ev edge direction ↔ ¬ Ambiguous ev edge direction := by
  constructor
  · rintro h ⟨q, pk_col, key, view, row, other, hread, hpk, hstart, hview, hrow, hother, hne, hkey,
      hends⟩
    obtain ⟨null_text, not_found, hscan⟩ :=
      resolve_target_row_scans hread hpk fun _ => read_key_eq_ok.2 hstart
    -- one of the two is listed first, then the other
    have hsame := h _ _ (lists_first_row row) (lists_first_row other)
    rw [hscan, hscan, (scan_table_first_row hview hrow).1 hkey] at hsame
    rcases hends with hkey' | hnone
    · rw [(scan_table_first_row hview hother).1 hkey'] at hsame
      exact hne (Option.some.inj hsame)
    · rw [(scan_table_first_row hview hother).2 hnone] at hsame
      cases hsame
  · intro h row_ids row_ids' hlists hlists'
    by_cases hreached : ∃ q pk_col key, ev.query_engine.read = .ok q ∧
        primary_key q edge.to_table = .ok pk_col ∧
        key_of q (edge.start direction) (edge.start_column pk_col direction) ev.scope.row = some key
    · obtain ⟨q, pk_col, key, hread, hpk, hstart⟩ := hreached
      obtain ⟨null_text, not_found, hscan⟩ :=
        resolve_target_row_scans hread hpk fun _ => read_key_eq_ok.2 hstart
      rw [hscan, hscan]
      rcases hview : q.read_single_table ev.cache.current_tick (edge.destination direction)
        with e | view
      · simp only [scan_table, hview]
      · refine scan_table_order hview ?_ hlists hlists'
        intro row other hrow hother hne hkey
        rcases hvalue : key_of q (edge.destination direction)
          (edge.destination_column pk_col direction) other with _ | v
        · exact absurd ⟨q, pk_col, key, view, row, other, hread, hpk, hstart, hview, hrow, hother,
            hne, hkey, .inr hvalue⟩ h
        · refine ⟨v, rfl, ?_⟩
          rintro rfl
          exact h ⟨q, pk_col, v, view, row, other, hread, hpk, hstart, hview, hrow, hother, hne,
            hkey, .inl hvalue⟩
    · -- the jump fails before it scans
      have hfails : ∀ order, (resolve_target_row order ev edge direction).toOption = none := by
        intro order
        rcases hresolve : resolve_target_row order ev edge direction with e | target
        · rfl
        · rcases hread : ev.query_engine.read with e | q
          · rw [resolve_target_row, hread] at hresolve
            cases hresolve
          · obtain ⟨pk_col, key, _, _, _, hpk, hstart, -⟩ := resolve_target_row_ok hread hresolve
            exact absurd ⟨q, pk_col, key, hread, hpk, read_key_eq_ok.1 hstart⟩ hreached
      rw [hfails, hfails]

/-- From the lord, the barony that nobody holds ends the scan if it is listed first, and his own
is found if that one is. -/
theorem lord_not_deterministic :
    (resolve_target_row (first_row 0) (baronies_evaluator "lord" 0) held_by .Reverse).toOption =
        none ∧
      (resolve_target_row (first_row 1) (baronies_evaluator "lord" 0) held_by .Reverse).toOption =
        some 1 ∧
      ¬ Deterministic (baronies_evaluator "lord" 0) held_by .Reverse := by
  have hnone : (resolve_target_row (first_row 0) (baronies_evaluator "lord" 0) held_by
      .Reverse).toOption = none := by decide +kernel
  have hsome : (resolve_target_row (first_row 1) (baronies_evaluator "lord" 0) held_by
      .Reverse).toOption = some 1 := by decide +kernel
  refine ⟨hnone, hsome, ?_⟩
  intro h
  have hsame := h _ _ (lists_first_row 0) (lists_first_row 1)
  rw [hnone, hsome] at hsame
  cases hsame

end Scharnhorst.Evaluator
