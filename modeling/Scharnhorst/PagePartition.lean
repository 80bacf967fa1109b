/-
Whether the pages partition the table.

They do as soon as nothing overflows. What may overflow is the number of all rows, the end of the last
page, which is not capped before it is compared, and the room for a page.
-/
import Scharnhorst.InspectorPages
import Scharnhorst.Paging
import Scharnhorst.Refinement

set_option autoImplicit false

namespace Scharnhorst

open Paging

/-! ## Arithmetic -/

namespace Build

variable {build : Build} {n a b : Nat}

theorem usize_ok (h : n ≤ u64_MAX) : build.usize n = .ok n := if_pos h

theorem usize_debug (h : ¬ n ≤ u64_MAX) : Debug.usize n = .error .Panic := if_neg h

theorem usize_sub_ok (h : b ≤ a) : build.usize_sub a b = .ok (a - b) := if_pos h

theorem usize_sum_ok {numbers : List Nat} (h : numbers.sum ≤ u64_MAX) :
    build.usize_sum numbers = .ok numbers.sum := by
  have hfrom : ∀ (numbers : List Nat) (sum : Nat), sum + numbers.sum ≤ u64_MAX →
      numbers.foldlM (fun sum n => build.usize (sum + n)) sum = .ok (sum + numbers.sum) := by
    intro numbers
    induction numbers with
    | nil => exact fun sum _ => rfl
    | cons n numbers ih =>
      intro sum hsum
      rw [List.sum_cons] at hsum ⊢
      rw [List.foldlM_cons, usize_ok (by omega)]
      change numbers.foldlM _ (sum + n) = _
      rw [ih (sum + n) (by omega), Nat.add_assoc]
  have hall := hfrom numbers 0 (by omega)
  rwa [Nat.zero_add] at hall

theorem usize_sum_debug {numbers : List Nat} (h : ¬ numbers.sum ≤ u64_MAX) :
    Debug.usize_sum numbers = .error .Panic := by
  have hfrom : ∀ (numbers : List Nat) (sum : Nat), sum ≤ u64_MAX → u64_MAX < sum + numbers.sum →
      numbers.foldlM (fun sum n => Debug.usize (sum + n)) sum = .error .Panic := by
    intro numbers
    induction numbers with
    | nil =>
      intro sum hle hlt
      rw [List.sum_nil] at hlt
      omega
    | cons n numbers ih =>
      intro sum hle hlt
      rw [List.sum_cons] at hlt
      rw [List.foldlM_cons]
      by_cases hnext : sum + n ≤ u64_MAX
      · rw [usize_ok hnext]
        exact ih (sum + n) hnext (by omega)
      · rw [usize_debug hnext]
        rfl
  exact hfrom numbers 0 (Nat.zero_le _) (by omega)

end Build

/-! ## Rows -/

namespace InspectorConsole

/-- The rows of a batch. -/
def rows_of [Render] (batch : RecordBatch) : List InspectorRow :=
  (List.range batch.row_count).map batch.inspector_row

/-- All rows, in order. -/
def all_rows [Render] (batches : List RecordBatch) : List InspectorRow := batches.flatMap rows_of

def total_rows (batches : List RecordBatch) : Nat := (batches.map RecordBatch.row_count).sum

section Rows

variable [Render] {build : Build} {start stop global_row : Nat} {batch : RecordBatch}
  {batches : List RecordBatch}

theorem length_rows_of : (rows_of batch).length = batch.row_count := by
  rw [rows_of, List.length_map, List.length_range]

theorem length_all_rows : (all_rows batches).length = total_rows batches := by
  rw [all_rows, total_rows, List.length_flatMap]
  simp only [length_rows_of]

/-- A range of the rows of a batch. -/
theorem range_rows {first last : Nat} (h : last ≤ batch.row_count) :
    (List.range' first (last - first)).map batch.inspector_row
      = ((rows_of batch).take last).drop first := by
  rw [rows_of, ← List.map_take, ← List.map_drop, List.take_range, Nat.min_eq_left h,
    List.range_eq_range', List.drop_range']
  congr 2
  omega

/-- The rows of a batch that are in the range, and none if they do not overlap. -/
theorem batch_rows_ok (h : global_row + batch.row_count ≤ u64_MAX) :
    batch_rows build start stop global_row batch
      = .ok (((rows_of batch).take (stop - global_row)).drop (start - global_row)) := by
  have hlength := @length_rows_of _ batch
  unfold batch_rows
  rw [Build.usize_ok h]
  change (if max start global_row < min stop (global_row + batch.row_count) then _ else _) = _
  by_cases hoverlap : max start global_row < min stop (global_row + batch.row_count)
  · rw [if_pos hoverlap, Build.usize_sub_ok (by omega), Build.usize_sub_ok (by omega)]
    have hfirst : max start global_row - global_row = start - global_row := by omega
    have hlast : min stop (global_row + batch.row_count) - global_row
        = min (stop - global_row) (rows_of batch).length := by
      rw [hlength]
      omega
    change Except.ok ((List.range' (max start global_row - global_row)
      (min stop (global_row + batch.row_count) - global_row
        - (max start global_row - global_row))).map batch.inspector_row) = _
    rw [range_rows (by omega), hfirst, hlast, ← List.take_eq_take_min]
  · rw [if_neg hoverlap, List.drop_of_length_le]
    · rfl
    · rw [List.length_take, hlength]
      omega

/-- The loop collects the range. -/
theorem collect_rows_ok (h : global_row + total_rows batches ≤ u64_MAX)
    (hstop : stop ≤ global_row + total_rows batches) :
    collect_rows build start stop global_row batches
      = .ok (((all_rows batches).take (stop - global_row)).drop (start - global_row)) := by
  induction batches generalizing global_row with
  | nil =>
    rw [all_rows, List.flatMap_nil, List.take_nil, List.drop_nil]
    rfl
  | cons batch batches ih =>
    have htotal : total_rows (batch :: batches) = batch.row_count + total_rows batches := by
      rw [total_rows, total_rows, List.map_cons, List.sum_cons]
    have hlength := @length_rows_of _ batch
    rw [htotal] at h hstop
    have hall : ((all_rows (batch :: batches)).take (stop - global_row)).drop (start - global_row)
        = ((rows_of batch).take (stop - global_row)).drop (start - global_row)
          ++ ((all_rows batches).take (stop - (global_row + batch.row_count))).drop
            (start - global_row - ((rows_of batch).take (stop - global_row)).length) := by
      have hskip : stop - global_row - (rows_of batch).length
          = stop - (global_row + batch.row_count) := by
        rw [hlength]
        omega
      rw [all_rows, List.flatMap_cons, List.take_append, List.drop_append, hskip]
      rfl
    rw [hall]
    unfold collect_rows
    rw [batch_rows_ok (by omega), Build.usize_ok (by omega)]
    -- the loop breaks at the end of the range; nothing of it is in a later batch
    change (if stop ≤ global_row + batch.row_count then _ else _) = _
    by_cases hend : stop ≤ global_row + batch.row_count
    · rw [if_pos hend, Nat.sub_eq_zero_of_le hend, List.take_zero, List.drop_nil, List.append_nil]
      rfl
    · have hwhole : ((rows_of batch).take (stop - global_row)).length = batch.row_count := by
        rw [List.length_take, hlength]
        omega
      rw [if_neg hend, ih (by omega) (by omega), hwhole, Nat.sub_sub]
      rfl

end Rows

/-! ## One page -/

section OnePage

variable [Render] {build : Build} {console : InspectorConsole} {table : String} {spec : TableSpec}
  {batches : List RecordBatch} {page_index page_size : UInt64}

/-- The start of the page. -/
def page_start (page_index page_size : UInt64) : Nat :=
  saturating_mul page_index.toNat page_size.toNat

theorem inspect_unknown {e : QueryError} (h : console.schema table = .error e) :
    inspect_page build console table batches page_index page_size = .error (.Query e) := by
  unfold inspect_page
  rw [h]
  rfl

theorem inspect_behind (hspec : console.schema table = .ok spec)
    (htotal : total_rows batches ≤ u64_MAX)
    (hstart : total_rows batches < page_start page_index page_size) :
    inspect_page build console table batches page_index page_size
      = .error (.Query (.IndexOutOfBounds (page_start page_index page_size))) := by
  unfold inspect_page
  rw [hspec, Build.usize_sum_ok htotal]
  exact if_pos hstart

theorem inspect_ok (hspec : console.schema table = .ok spec)
    (htotal : total_rows batches ≤ u64_MAX)
    (hstart : page_start page_index page_size ≤ total_rows batches)
    (hend : page_start page_index page_size + page_size.toNat ≤ u64_MAX)
    (hroom : InspectorRow.size_of * (min (page_start page_index page_size + page_size.toNat)
      (total_rows batches) - page_start page_index page_size) ≤ isize_MAX) :
    inspect_page build console table batches page_index page_size = .ok
      { table_name := table
        column_names := spec.columns.map (·.name)
        rows := ((all_rows batches).take (min (page_start page_index page_size + page_size.toNat)
          (total_rows batches))).drop (page_start page_index page_size)
        page_index
        page_size
        total_rows := total_rows batches } := by
  have hcollect := @collect_rows_ok _ build (page_start page_index page_size)
    (min (page_start page_index page_size + page_size.toNat) (total_rows batches)) 0 batches
    (by omega) (by omega)
  have hcapacity : InspectorRow.with_capacity (min (page_start page_index page_size
      + page_size.toNat) (total_rows batches) - page_start page_index page_size) = .ok () :=
    if_pos hroom
  have hsum : build.usize_sum (batches.map RecordBatch.row_count) = .ok (total_rows batches) :=
    Build.usize_sum_ok htotal
  have hsub := @Build.usize_sub_ok build (min (page_start page_index page_size + page_size.toNat)
    (total_rows batches)) (page_start page_index page_size) (by omega)
  rw [Nat.sub_zero, Nat.sub_zero] at hcollect
  unfold inspect_page
  rw [hspec, hsum]
  unfold page_start at hstart hend hcapacity hcollect hsub ⊢
  simp only [Except.mapError, bind, Except.bind, Nat.not_lt.mpr hstart, if_false, Build.usize_ok hend,
    hsub, hcapacity, hcollect]
  rfl

/-- What makes the debug build panic. -/
theorem inspect_panics (hspec : console.schema table = .ok spec)
    (hpanic : ¬ total_rows batches ≤ u64_MAX
      ∨ page_start page_index page_size ≤ total_rows batches ∧
        (¬ page_start page_index page_size + page_size.toNat ≤ u64_MAX
        ∨ ¬ InspectorRow.size_of * (min (page_start page_index page_size + page_size.toNat)
          (total_rows batches) - page_start page_index page_size) ≤ isize_MAX)) :
    inspect_page .Debug console table batches page_index page_size = .error .Panic := by
  unfold inspect_page
  rw [hspec]
  by_cases htotal : total_rows batches ≤ u64_MAX
  · obtain ⟨hstart, hpanic⟩ := hpanic.resolve_left fun hnot => hnot htotal
    have hsum : Build.Debug.usize_sum (batches.map RecordBatch.row_count)
        = .ok (total_rows batches) := Build.usize_sum_ok htotal
    rw [hsum]
    by_cases hend : page_start page_index page_size + page_size.toNat ≤ u64_MAX
    · have hroom := hpanic.resolve_left fun hnot => hnot hend
      have hcapacity : InspectorRow.with_capacity (min (page_start page_index page_size
          + page_size.toNat) (total_rows batches) - page_start page_index page_size)
          = .error .Panic := if_neg hroom
      have hsub := @Build.usize_sub_ok .Debug (min (page_start page_index page_size
        + page_size.toNat) (total_rows batches)) (page_start page_index page_size) (by omega)
      unfold page_start at hstart hend hcapacity hsub
      simp only [Except.mapError, bind, Except.bind, Nat.not_lt.mpr hstart, if_false,
        Build.usize_ok hend, hsub, hcapacity]
    · unfold page_start at hstart hend
      simp only [Except.mapError, bind, Except.bind, Nat.not_lt.mpr hstart, if_false,
        Build.usize_debug hend]
  · rw [Build.usize_sum_debug htotal]
    rfl

end OnePage

/-! ## All pages -/

/-- The rows of a page, and none of an error. -/
def page_rows : InspectResult InspectorPage → List InspectorRow
  | .ok page => page.rows
  | .error _ => []

/-- The pages of one size partition the table. A build that checks panics where the other wraps. -/
structure Partitions [Render] (console : InspectorConsole) (table : String)
    (batches : List RecordBatch) (page_size : UInt64) : Prop where
  safe : ∀ page_index,
    inspect_page .Debug console table batches page_index page_size ≠ .error .Panic
  whole : ∀ spec, console.schema table = .ok spec → 0 < page_size.toNat → ∀ build,
    (List.range (count page_size.toNat (total_rows batches))).flatMap (fun k =>
      page_rows (inspect_page build console table batches (.ofNat k) page_size)) = all_rows batches
  full : ∀ spec, console.schema table = .ok spec → 0 < page_size.toNat → ∀ build k,
    k + 1 < count page_size.toNat (total_rows batches) →
      (page_rows (inspect_page build console table batches (.ofNat k) page_size)).length
        = page_size.toNat
  next : ∀ spec, console.schema table = .ok spec → 0 < page_size.toNat → ∀ build k page,
    k + 1 ≤ u64_MAX → inspect_page build console table batches (.ofNat k) page_size = .ok page →
      page.has_next build = .ok (decide (0 <
        (page_rows (inspect_page build console table batches (.ofNat (k + 1)) page_size)).length))

/-- All rows can be counted, the end of the last page too, and there is room for the longest. -/
structure PagesFit (batches : List RecordBatch) (page_size : UInt64) : Prop where
  total : total_rows batches ≤ u64_MAX
  last : (total_rows batches / page_size.toNat + 1) * page_size.toNat ≤ u64_MAX
  room : InspectorRow.size_of * min page_size.toNat (total_rows batches) ≤ isize_MAX

section Ranges

variable {batches : List RecordBatch} {page_index page_size : UInt64} {k : Nat}

theorem PagesFit.start_eq (h : PagesFit batches page_size) (hsize : 0 < page_size.toNat)
    (hstart : page_start page_index page_size ≤ total_rows batches) :
    page_start page_index page_size = page_index.toNat * page_size.toNat := by
  have hlast := h.last
  have hbelow := Nat.lt_div_mul_add (a := total_rows batches) hsize
  rw [Nat.succ_mul] at hlast
  unfold page_start saturating_mul at hstart ⊢
  omega

theorem PagesFit.end_le (h : PagesFit batches page_size)
    (hstart : page_start page_index page_size ≤ total_rows batches) :
    page_start page_index page_size + page_size.toNat ≤ u64_MAX := by
  rcases Nat.eq_zero_or_pos page_size.toNat with hzero | hsize
  · rw [hzero, Nat.add_zero]
    exact Nat.min_le_right _ _
  · have heq := h.start_eq hsize hstart
    rw [heq] at hstart ⊢
    have hindex : page_index.toNat ≤ total_rows batches / page_size.toNat :=
      (Nat.le_div_iff_mul_le hsize).mpr hstart
    rw [← Nat.succ_mul]
    exact (Nat.mul_le_mul_right _ (Nat.succ_le_succ hindex)).trans h.last

theorem PagesFit.room_le (h : PagesFit batches page_size) :
    InspectorRow.size_of * (min (page_start page_index page_size + page_size.toNat)
      (total_rows batches) - page_start page_index page_size) ≤ isize_MAX := by
  refine (Nat.mul_le_mul_left _ ?_).trans h.room
  omega

theorem toNat_ofNat (h : k ≤ u64_MAX) : (UInt64.ofNat k).toNat = k := by
  rw [UInt64.toNat_ofNat']
  exact Nat.mod_eq_of_lt (Nat.lt_succ_of_le h)

theorem count_le_total {n : Nat} (hsize : 0 < page_size.toNat)
    (hk : k < count page_size.toNat n) : k < n := by
  have hlt := lt_of_lt_count hsize hk
  exact (Nat.le_mul_of_pos_right k hsize).trans_lt hlt

end Ranges

section AllPages

variable [Render] {build : Build} {console : InspectorConsole} {table : String} {spec : TableSpec}
  {batches : List RecordBatch} {page_index page_size : UInt64} {k : Nat}

/-- A page that fits is a page of all rows. -/
theorem PagesFit.inspect (h : PagesFit batches page_size) (hspec : console.schema table = .ok spec)
    (hsize : 0 < page_size.toNat) (hstart : page_start page_index page_size ≤ total_rows batches) :
    inspect_page build console table batches page_index page_size = .ok
      { table_name := table
        column_names := spec.columns.map (·.name)
        rows := page page_size.toNat page_index.toNat (all_rows batches)
        page_index
        page_size
        total_rows := total_rows batches } := by
  rw [inspect_ok hspec h.total hstart (h.end_le hstart) h.room_le, h.start_eq hsize hstart,
    ← length_all_rows, drop_take_eq_page]

theorem PagesFit.page_rows_eq (h : PagesFit batches page_size)
    (hspec : console.schema table = .ok spec) (hsize : 0 < page_size.toNat) (hk : k ≤ u64_MAX) :
    page_rows (inspect_page build console table batches (.ofNat k) page_size)
      = page page_size.toNat k (all_rows batches) := by
  have hindex := toNat_ofNat hk
  by_cases hstart : page_start (.ofNat k) page_size ≤ total_rows batches
  · rw [h.inspect hspec hsize hstart, hindex]
    rfl
  · rw [inspect_behind hspec h.total (by omega)]
    have hbehind : total_rows batches ≤ k * page_size.toNat := by
      unfold page_start saturating_mul at hstart
      rw [hindex] at hstart
      omega
    rw [page, List.drop_of_length_le (by rwa [length_all_rows]), List.take_nil]
    rfl

theorem PagesFit.safe (h : PagesFit batches page_size) (hspec : console.schema table = .ok spec) :
    inspect_page .Debug console table batches page_index page_size ≠ .error .Panic := by
  by_cases hstart : page_start page_index page_size ≤ total_rows batches
  · rw [inspect_ok hspec h.total hstart (h.end_le hstart) h.room_le]
    exact fun heq => by cases heq
  · rw [inspect_behind hspec h.total (by omega)]
    exact fun heq => by cases heq

theorem PagesFit.has_next (h : PagesFit batches page_size) (hspec : console.schema table = .ok spec)
    (hsize : 0 < page_size.toNat) (hk : k + 1 ≤ u64_MAX) {result : InspectorPage}
    (hpage : inspect_page build console table batches (.ofNat k) page_size = .ok result) :
    result.has_next build = .ok (decide ((k + 1) * page_size.toNat < total_rows batches)) := by
  have hindex : (UInt64.ofNat k).toNat = k := toNat_ofNat (Nat.le_of_succ_le hk)
  by_cases hstart : page_start (.ofNat k) page_size ≤ total_rows batches
  · have hend := h.end_le hstart
    rw [h.start_eq hsize hstart, hindex, ← Nat.succ_mul] at hend
    rw [h.inspect hspec hsize hstart] at hpage
    rw [← Except.ok.inj hpage]
    unfold InspectorPage.has_next
    simp only [hindex]
    rw [Build.usize_ok hk]
    change (build.usize ((k + 1) * page_size.toNat) >>= _) = _
    rw [Build.usize_ok hend]
    rfl
  · rw [inspect_behind hspec h.total (by omega)] at hpage
    cases hpage

theorem PagesFit.of_safe (hspec : console.schema table = .ok spec)
    (hsafe : ∀ page_index,
      inspect_page .Debug console table batches page_index page_size ≠ .error .Panic) :
    PagesFit batches page_size := by
  have htotal : total_rows batches ≤ u64_MAX := by
    by_contra hmany
    exact hsafe 0 (inspect_panics hspec (.inl hmany))
  have hsize : page_size.toNat ≤ u64_MAX := Nat.le_of_lt_succ page_size.toNat_lt
  have hfirst : page_start 0 page_size = 0 := by
    unfold page_start saturating_mul
    rw [UInt64.toNat_zero, Nat.zero_mul]
    exact Nat.zero_min _
  refine ⟨htotal, ?_, ?_⟩
  -- the page after the last full one is asked for
  · rcases Nat.eq_zero_or_pos page_size.toNat with hzero | hpos
    · rw [hzero, Nat.mul_zero]
      exact Nat.zero_le _
    · by_contra hover
      have hdiv := Nat.div_mul_le_self (total_rows batches) page_size.toNat
      have hquotient := Nat.div_le_self (total_rows batches) page_size.toNat
      have hstart : page_start (.ofNat (total_rows batches / page_size.toNat)) page_size
          = total_rows batches / page_size.toNat * page_size.toNat := by
        unfold page_start saturating_mul
        rw [toNat_ofNat (hquotient.trans htotal)]
        exact Nat.min_eq_left (hdiv.trans htotal)
      refine hsafe (.ofNat (total_rows batches / page_size.toNat))
        (inspect_panics hspec (.inr ⟨?_, .inl ?_⟩))
      · rwa [hstart]
      · rwa [hstart, ← Nat.succ_mul]
  -- the first page is as long as any
  · by_contra hlarge
    refine hsafe 0 (inspect_panics hspec (.inr ⟨?_, .inr ?_⟩))
    · rw [hfirst]
      exact Nat.zero_le _
    · rwa [hfirst, Nat.zero_add, Nat.sub_zero]

end AllPages

/-- The pages partition a table exactly if nothing overflows. A table that is not known has no
pages. -/
theorem partitions_iff [Render] (console : InspectorConsole) (table : String)
    (batches : List RecordBatch) (page_size : UInt64) :
    Partitions console table batches page_size
      ↔ (∀ spec, console.schema table ≠ .ok spec) ∨ PagesFit batches page_size := by
  constructor
  · intro h
    rcases hspec : console.schema table with e | spec
    · exact .inl fun spec heq => by cases heq
    · exact .inr (PagesFit.of_safe hspec h.safe)
  · rintro (hunknown | hfit)
    · refine ⟨fun page_index => ?_, fun spec hspec => absurd hspec (hunknown spec),
        fun spec hspec => absurd hspec (hunknown spec),
        fun spec hspec => absurd hspec (hunknown spec)⟩
      rcases hspec : console.schema table with e | spec
      · rw [inspect_unknown hspec]
        exact fun heq => by cases heq
      · exact absurd hspec (hunknown spec)
    · have htotal := hfit.total
      refine ⟨fun page_index => ?_, fun spec hspec hsize build => ?_,
        fun spec hspec hsize build k hk => ?_, fun spec hspec hsize build k page hk hpage => ?_⟩
      · rcases hspec : console.schema table with e | spec
        · rw [inspect_unknown hspec]
          exact fun heq => by cases heq
        · exact hfit.safe hspec
      · have hpages : ∀ k ∈ List.range (count page_size.toNat (total_rows batches)),
            page_rows (inspect_page build console table batches (.ofNat k) page_size)
              = page page_size.toNat k (all_rows batches) := by
          intro k hk
          have hlt := count_le_total hsize (List.mem_range.mp hk)
          exact hfit.page_rows_eq hspec hsize (by omega)
        rw [List.flatMap_congr hpages, ← length_all_rows, flatMap_pages hsize]
      · have hlt := count_le_total hsize hk
        rw [hfit.page_rows_eq hspec hsize (by omega)]
        rw [← length_all_rows] at hk
        exact length_page_of_lt hsize hk
      · rw [hfit.has_next hspec hsize hk hpage, hfit.page_rows_eq hspec hsize hk]
        simp only [page_pos_iff hsize, length_all_rows]

/-! ### Provinces without columns -/

/-- Rows take no room in a batch that has no columns. -/
def no_columns_batch (row_count : Nat) : RecordBatch :=
  { QueryEngine.empty_batch with
    row_count
    column_len := fun _ hmem => absurd hmem List.not_mem_nil }

attribute [local instance] plain_text

def province_console : InspectorConsole := new.register_schema (.new "province")

/-- The end of the last page is past the largest number, and the room for a long page past what a
`Vec` may have. -/
theorem last_page_panics :
    ¬ Partitions province_console "province" [no_columns_batch (2 ^ 64 - 1)] 2
    ∧ ¬ Partitions province_console "province" [no_columns_batch (2 ^ 60)] (.ofNat u64_MAX) := by
  have hspec : province_console.schema "province" = .ok (.new "province") := by decide +kernel
  constructor
  · intro h
    refine h.safe (.ofNat (2 ^ 63 - 1)) (inspect_panics hspec (.inr ⟨?_, .inl ?_⟩))
    · decide +kernel
    · decide +kernel
  · intro h
    refine h.safe 0 (inspect_panics hspec (.inr ⟨?_, .inr ?_⟩))
    · decide +kernel
    · decide +kernel

end InspectorConsole

end Scharnhorst
