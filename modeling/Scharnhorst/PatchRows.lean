/-
`patch_rows`, whatever order the hash map of its groups is walked in.

The locations are grouped by batch and the batches are patched one after the other, in place.
A location out of range is skipped, and a batch that is refused ends the loop with the batches
before it already replaced. So the call is all or nothing only if nothing is skipped and
nothing refused, or if every batch that is not refused would be left as it was.
-/
import Scharnhorst.BatchFaults
import Scharnhorst.Store

set_option autoImplicit false

namespace Scharnhorst

open Attempt

/-! ## Groups -/

/-- The patches of a batch: the rows that the locations name in it, each with its own index. -/
def aimed (locations : List RowLocation) (batch_idx : Nat) : List (Nat × Nat) :=
  (locations.zipIdx.filter fun p => p.1.batch_index = batch_idx).map fun p => (p.1.row_index, p.2)

/-- The last location of a row. -/
def last_location (locations : List RowLocation) (batch_idx row_idx : Nat) : Option Nat :=
  ((locations.zipIdx.filter fun p =>
    p.1.batch_index = batch_idx ∧ p.1.row_index = row_idx).getLast?).map Prod.snd

section

variable {locations : List RowLocation} {b i : Nat}

theorem group_locations_get :
    (group_locations locations)[b]? =
      if aimed locations b = [] then none else some (aimed locations b) := by
  -- in general: what a map holds, and what the locations add to it
  have hfold : ∀ (ps : List (RowLocation × Nat)) (m : Map Nat (List (Nat × Nat))),
      (ps.foldl (fun grouped p =>
        grouped.insert p.1.batch_index
          (grouped.getD p.1.batch_index [] ++ [(p.1.row_index, p.2)])) m)[b]? =
        if ps.filter (fun p => p.1.batch_index = b) = [] then m[b]?
        else some (m.getD b [] ++
          (ps.filter fun p => p.1.batch_index = b).map fun p => (p.1.row_index, p.2)) := by
    intro ps
    induction ps with
    | nil => simp
    | cons p ps ih =>
      intro m
      rw [List.foldl_cons, ih]
      by_cases hb : p.1.batch_index = b
      · subst hb
        by_cases hrest : ps.filter (fun q => q.1.batch_index = p.1.batch_index) = []
        · simp [hrest]
        · simp [hrest]
      · have hne : ¬ compare p.1.batch_index b = .eq := by simpa using hb
        simp only [List.filter_cons, hb, decide_false, Bool.false_eq_true, if_false,
          Std.ExtTreeMap.getElem?_insert, Std.ExtTreeMap.getD_insert, hne]
  have hpairs : group_locations locations = locations.zipIdx.foldl (fun grouped p =>
      grouped.insert p.1.batch_index
        (grouped.getD p.1.batch_index [] ++ [(p.1.row_index, p.2)])) ∅ := rfl
  rw [hpairs, hfold]
  by_cases hnil : locations.zipIdx.filter (fun p => p.1.batch_index = b) = []
  · simp [aimed, hnil]
  · simp [aimed, hnil]

theorem aimed_ne_nil_iff : aimed locations b ≠ [] ↔ ∃ loc ∈ locations, loc.batch_index = b := by
  rw [aimed, Ne, List.map_eq_nil_iff, List.filter_eq_nil_iff]
  push Not
  constructor
  · rintro ⟨⟨loc, j⟩, hmem, hb⟩
    exact ⟨loc, List.fst_mem_of_mem_zipIdx hmem, by simpa using hb⟩
  · rintro ⟨loc, hmem, hb⟩
    obtain ⟨j, hj, rfl⟩ := List.getElem_of_mem hmem
    refine ⟨(locations[j], j), ?_, by simpa using hb⟩
    simp [List.mem_zipIdx_iff_getElem?, hj]

/-- The groups in the order of a walk over the hash map. -/
def Walks (locations : List RowLocation) (groups : List (Nat × List (Nat × Nat))) : Prop :=
  groups.Perm (group_locations locations).toList

variable {groups : List (Nat × List (Nat × Nat))}

theorem Walks.mem_iff (h : Walks locations groups) {patches : List (Nat × Nat)} :
    (b, patches) ∈ groups ↔
      patches = aimed locations b ∧ ∃ loc ∈ locations, loc.batch_index = b := by
  rw [List.Perm.mem_iff h, Std.ExtTreeMap.mem_toList_iff_getElem?_eq_some, group_locations_get,
    ← aimed_ne_nil_iff]
  by_cases hnil : aimed locations b = []
  · simp [hnil]
  · simp [hnil, eq_comm]

theorem Walks.nodup (h : Walks locations groups) : (groups.map Prod.fst).Nodup :=
  (h.map Prod.fst).nodup_iff.2 (Maps.nodup_keys _)

/-- A group can come first. -/
theorem Walks.first (h : Walks locations groups) {group : Nat × List (Nat × Nat)}
    (hmem : group ∈ groups) : ∃ rest, Walks locations (group :: rest) := by
  obtain ⟨front, back, rfl⟩ := List.append_of_mem hmem
  exact ⟨front ++ back, List.perm_middle.symm.trans h⟩

/-- And another one second. -/
theorem Walks.second (h : Walks locations groups) {group next : Nat × List (Nat × Nat)}
    (hmem : group ∈ groups) (hnext : next ∈ groups) (hne : group ≠ next) :
    ∃ rest, Walks locations (group :: next :: rest) := by
  obtain ⟨rest, hrest⟩ := h.first hmem
  have hlater : next ∈ rest := by
    rcases List.mem_cons.1 ((hrest.trans h.symm).mem_iff.2 hnext) with hsame | hmem
    · exact absurd hsame.symm hne
    · exact hmem
  obtain ⟨front, back, rfl⟩ := List.append_of_mem hlater
  exact ⟨front ++ back, (List.perm_middle.symm.cons group).trans hrest⟩

/-- Without patch rows out of range, the last patch of a row is its last location. -/
theorem last_patch_aimed {n : Nat} (hlen : locations.length ≤ n) :
    last_patch n (aimed locations b) i = last_location locations b i := by
  have hall : ∀ p ∈ locations.zipIdx,
      (decide (p.1.row_index = i ∧ p.2 < n) && decide (p.1.batch_index = b)) =
        decide (p.1.batch_index = b ∧ p.1.row_index = i) := by
    rintro ⟨loc, j⟩ hmem
    have hj : j < locations.length := by
      have := List.snd_lt_of_mem_zipIdx hmem
      omega
    have hn : j < n := by omega
    simp [hn, Bool.and_comm]
  unfold last_patch last_location aimed
  rw [List.filter_map, List.filter_filter, List.getLast?_map, Option.map_map]
  have hfilter : (locations.zipIdx.filter fun p =>
      decide (p.1.row_index = i ∧ p.2 < n) && decide (p.1.batch_index = b)) =
        locations.zipIdx.filter fun p => decide (p.1.batch_index = b ∧ p.1.row_index = i) :=
    List.filter_congr hall
  rw [← hfilter]
  rfl

/-- A row is named by a location or it has no last one. -/
theorem last_location_eq_none_iff :
    last_location locations b i = none ↔
      ∀ loc ∈ locations, loc.batch_index = b → loc.row_index ≠ i := by
  rw [last_location, Option.map_eq_none_iff, List.getLast?_eq_none_iff, List.filter_eq_nil_iff]
  constructor
  · intro h loc hmem hb hi
    obtain ⟨j, hj, rfl⟩ := List.getElem_of_mem hmem
    refine h (locations[j], j) ?_ (by simp [hb, hi])
    simp [List.mem_zipIdx_iff_getElem?, hj]
  · rintro h ⟨loc, j⟩ hmem hhit
    simp only [decide_eq_true_eq] at hhit
    exact h loc (List.fst_mem_of_mem_zipIdx hmem) hhit.1 hhit.2

end

/-! ## The loop over the groups -/

section

variable {locations : List RowLocation} {batch : RecordBatch} {vs mid : List RecordBatch}
  {groups : List (Nat × List (Nat × Nat))}

/-- What a walk that ran through has made of the batches: each group has patched its own. -/
theorem walked (hnodup : (groups.map Prod.fst).Nodup)
    (h : forEach (patch_group batch) vs groups = (.ok (), mid)) :
    mid.length = vs.length ∧
      ∀ b, (b ∉ groups.map Prod.fst → mid[b]? = vs[b]?) ∧
        ∀ patches, (b, patches) ∈ groups → ∀ src, vs[b]? = some src →
          ∃ r, patch_record_batch src batch patches = .ok r ∧ mid[b]? = some r := by
  induction groups generalizing vs with
  | nil =>
    obtain rfl : vs = mid := by simpa using h
    simp
  | cons group groups ih =>
    obtain ⟨next, hstep, hrest⟩ := forEach_cons_ok.1 h
    obtain ⟨k, patches⟩ := group
    simp only [List.map_cons, List.nodup_cons] at hnodup
    obtain ⟨hlen, hbatches⟩ := ih hnodup.2 hrest
    -- the first group has written its own batch, and none of the others writes there
    have hfirst : next.length = vs.length ∧ (∀ b, b ≠ k → next[b]? = vs[b]?) ∧
        ∀ src, vs[k]? = some src →
          ∃ r, patch_record_batch src batch patches = .ok r ∧ next[k]? = some r := by
      unfold patch_group at hstep
      rcases hk : vs[k]? with _ | src
      · simp only [hk, Prod.mk.injEq, true_and] at hstep
        subst hstep
        simp
      · simp only [hk] at hstep
        rcases hp : patch_record_batch src batch patches with e | r
        · simp [hp] at hstep
        · simp only [hp, Prod.mk.injEq, true_and] at hstep
          subst hstep
          have hlt := (List.getElem?_eq_some_iff.1 hk).1
          refine ⟨by simp, ?_, ?_⟩
          · intro b hb
            rw [List.getElem?_set_ne (Ne.symm hb)]
          · rintro src' hsrc
            obtain rfl := Option.some.inj hsrc
            exact ⟨r, hp, by rw [List.getElem?_set_self hlt]⟩
    refine ⟨hlen.trans hfirst.1, ?_⟩
    intro b
    constructor
    · intro hb
      simp only [List.map_cons, List.mem_cons, not_or] at hb
      rw [(hbatches b).1 hb.2, hfirst.2.1 b hb.1]
    · intro ps hmem src hsrc
      rcases List.mem_cons.1 hmem with heq | hlater
      · obtain ⟨rfl, rfl⟩ := Prod.mk.inj heq
        rw [(hbatches b).1 hnodup.1]
        exact hfirst.2.2 src hsrc
      · have hne : b ≠ k := by
          rintro rfl
          exact hnodup.1 (List.mem_map_of_mem hlater)
        exact (hbatches b).2 ps hlater src (by rw [hfirst.2.1 b hne, hsrc])

/-- Where a walk stopped: the groups before have patched their batches, and the one it stopped
at is refused. -/
theorem stopped {e : ArrowStoreError} (hnodup : (groups.map Prod.fst).Nodup)
    (h : forEach (patch_group batch) vs groups = (.error e, mid)) :
    ∃ pre b patches post src, groups = pre ++ (b, patches) :: post ∧
      forEach (patch_group batch) vs pre = (.ok (), mid) ∧ vs[b]? = some src ∧
      batch_fault src batch patches = some e := by
  obtain ⟨pre, ⟨b, patches⟩, post, mid', rfl, hpre, hlast⟩ := forEach_error h
  have hpres : (pre.map Prod.fst).Nodup ∧ b ∉ pre.map Prod.fst := by
    rw [List.map_append, List.nodup_append] at hnodup
    refine ⟨hnodup.1, ?_⟩
    intro hmem
    exact hnodup.2.2 b hmem b (by simp) rfl
  have hsame := ((walked hpres.1 hpre).2 b).1 hpres.2
  unfold patch_group at hlast
  rcases hb : mid'[b]? with _ | src
  · simp [hb] at hlast
  · simp only [hb] at hlast
    rcases hp : patch_record_batch src batch patches with e' | r
    · simp only [hp, Prod.mk.injEq, Except.error.injEq] at hlast
      obtain ⟨rfl, rfl⟩ := hlast
      exact ⟨pre, b, patches, post, src, rfl, hpre, by rw [← hsame, hb],
        patch_record_batch_error_iff.1 hp⟩
    · simp [hp] at hlast

/-- A walk over groups that are all taken runs through. -/
theorem exists_walk (hnodup : (groups.map Prod.fst).Nodup)
    (h : ∀ b patches src, (b, patches) ∈ groups → vs[b]? = some src →
      batch_fault src batch patches = none) :
    ∃ mid, forEach (patch_group batch) vs groups = (.ok (), mid) := by
  rcases hloop : forEach (patch_group batch) vs groups with ⟨e | ⟨⟨⟩⟩, mid⟩
  · obtain ⟨pre, b, patches, post, src, rfl, -, hsrc, hfault⟩ := stopped hnodup hloop
    rw [h b patches src (by simp) hsrc] at hfault
    cases hfault
  · exact ⟨mid, rfl⟩

/-- A walk that begins with a refused group ends there. -/
theorem refused_first {b : Nat} {patches : List (Nat × Nat)} {src : RecordBatch}
    {e : ArrowStoreError} (hsrc : vs[b]? = some src)
    (hfault : batch_fault src batch patches = some e) (rest : List (Nat × List (Nat × Nat))) :
    forEach (patch_group batch) vs ((b, patches) :: rest) = (.error e, vs) := by
  apply forEach_cons_of_error
  unfold patch_group
  simp [hsrc, patch_record_batch_error_iff.2 hfault]

end

/-! ## The call -/

/-- The loop of `patch_rows` under the table's lock, over the groups in the order in which the
hash map gives them. -/
def patch_in_order (groups : List (Nat × List (Nat × Nat))) (table : VersionedTable)
    (table_name : String) (tick : Tick) (batch : RecordBatch) :
    ArrowStoreResult Unit × VersionedTable :=
  match table.versions[tick]? with
  | none => (.error (.TickNotFound table_name tick), table)
  | some versions =>
    let (result, patched) := forEach (patch_group batch) versions groups
    (result, { table with versions := table.versions.insert tick patched })

namespace ArrowStore

/-- `patch_rows`, with the hash map walked in this order. -/
def patch_rows_in_order (groups : List (Nat × List (Nat × Nat))) (s : ArrowStore) (name : String)
    (tick : Tick) (locations : List RowLocation) (batch : RecordBatch) :
    ArrowStoreResult Unit × ArrowStore :=
  match s.check_commit with
  | .error e => (.error e, s)
  | .ok () =>
    if locations.isEmpty then (.ok (), s)
    else s.write_table name fun table => patch_in_order groups table name tick batch

/-- The walk by key order. -/
theorem patch_rows_eq (s : ArrowStore) (name : String) (tick : Tick)
    (locations : List RowLocation) (batch : RecordBatch) :
    s.patch_rows name tick locations batch =
      s.patch_rows_in_order (group_locations locations).toList name tick locations batch := by
  unfold patch_rows patch_rows_in_order
  rcases s.check_commit with e | ⟨⟨⟩⟩
  · rfl
  · by_cases hnil : locations.isEmpty
    · simp [hnil]
    · have hfun : (fun table => apply_patch_to_versions table name tick locations batch) =
          fun table => patch_in_order (group_locations locations).toList table name tick batch := by
        funext table
        unfold apply_patch_to_versions
        refine (if_neg hnil).trans ?_
        unfold patch_in_order
        rcases table.versions[tick]? with _ | versions <;> rfl
      simp only [if_neg hnil, hfun]

end ArrowStore

/-! ## All or nothing -/

/-- Two batches that read the same. -/
structure Alike (src b : RecordBatch) : Prop where
  schema_eq : b.schema = src.schema
  row_count_eq : b.row_count = src.row_count
  row_eq : ∀ i < src.row_count, b.row i = src.row i

/-- The batches of a tick after every location has received its patch row: the rows that are
named hold the patch row of their last location, and the others what they held. -/
structure Received (locations : List RowLocation) (patch : RecordBatch)
    (vs vs' : List RecordBatch) : Prop where
  length_eq : vs'.length = vs.length
  shape : ∀ (b : Nat) (src r : RecordBatch), vs[b]? = some src → vs'[b]? = some r →
    r.schema = src.schema ∧ r.row_count = src.row_count
  named : ∀ (b : Nat) (src r : RecordBatch), vs[b]? = some src → vs'[b]? = some r →
    ∀ i < src.row_count, ∀ j ∈ last_location locations b i, ∀ k (hk : k < r.columns.length),
      ∃ p, patch.columns[k]? = some p ∧ r.columns[k].cell i = p.cell j
  kept : ∀ (b : Nat) (src r : RecordBatch), vs[b]? = some src → vs'[b]? = some r →
    ∀ i < src.row_count, last_location locations b i = none → r.row i = src.row i

/-- The store is the same but for the batches of one tick of one table. -/
structure OnlyTick (name : String) (tick : Tick) (R : List RecordBatch → List RecordBatch → Prop)
    (s s' : ArrowStore) : Prop where
  same : s.SameButTables s'
  others : ∀ n, n ≠ name → s'.tables[n]? = s.tables[n]?
  table : Option.Rel
    (fun lock lock' => ∃ versions : Versions,
      lock' = { lock with data := { lock.data with versions } } ∧
        (∀ t, t ≠ tick → versions[t]? = lock.data.versions[t]?) ∧
        Option.Rel R lock.data.versions[tick]? versions[tick]?)
    s.tables[name]? s'.tables[name]?

/-- Every location is one of a row of the table, and the last one of that row has a row of the
patch. -/
def Found (s : ArrowStore) (name : String) (tick : Tick) (locations : List RowLocation)
    (patch : RecordBatch) : Prop :=
  ∀ loc ∈ locations, ∃ lock src, s.tables[name]? = some lock ∧
    (lock.data.batches tick)[loc.batch_index]? = some src ∧ loc.row_index < src.row_count ∧
    ∃ j ∈ last_location locations loc.batch_index loc.row_index, j < patch.row_count

/-- Whatever the order of the walk, the call does everything that it is asked, or returns the
same error and does nothing. -/
def AllOrNothing (s : ArrowStore) (name : String) (tick : Tick) (locations : List RowLocation)
    (patch : RecordBatch) : Prop :=
  (Found s name tick locations patch ∧ ∀ groups, Walks locations groups →
      (s.patch_rows_in_order groups name tick locations patch).1 = .ok () ∧
        OnlyTick name tick (Received locations patch) s
          (s.patch_rows_in_order groups name tick locations patch).2) ∨
    ∃ e, e ≠ .Panic ∧ ∀ groups, Walks locations groups →
      (s.patch_rows_in_order groups name tick locations patch).1 = .error e ∧
        OnlyTick name tick (List.Forall₂ Alike) s
          (s.patch_rows_in_order groups name tick locations patch).2

/-- All the locations are in range, and each of their batches takes its patches and keeps its
other rows. -/
def AllTaken (vs : List RecordBatch) (locations : List RowLocation) (patch : RecordBatch) : Prop :=
  locations.length ≤ patch.row_count ∧
    ∀ loc ∈ locations, ∃ src, vs[loc.batch_index]? = some src ∧ loc.row_index < src.row_count ∧
      batch_fault src patch (aimed locations loc.batch_index) = none ∧
      ∀ c ∈ src.columns, ∀ i < src.row_count,
        last_location locations loc.batch_index i = none → c.InPlace i

/-- Some batch is refused, and every batch that the locations lead to is refused with the same
error or holds the patched cells already. -/
def NoneTaken (vs : List RecordBatch) (locations : List RowLocation) (patch : RecordBatch)
    (e : ArrowStoreError) : Prop :=
  (∃ loc ∈ locations, ∃ src, vs[loc.batch_index]? = some src ∧
    batch_fault src patch (aimed locations loc.batch_index) = some e) ∧
  ∀ loc ∈ locations, ∀ src, vs[loc.batch_index]? = some src →
    batch_fault src patch (aimed locations loc.batch_index) = some e ∨
      batch_fault src patch (aimed locations loc.batch_index) = none ∧
        ∀ k (hk : k < src.columns.length), ∀ p, patch.columns[k]? = some p →
          ∀ i < src.row_count,
            patched_cell src.columns[k] p (aimed locations loc.batch_index) i =
              src.columns[k].cell i

section

variable {s : ArrowStore} {name : String} {tick : Tick} {lock : RwLock VersionedTable}
  {vs mid : List RecordBatch} {locations : List RowLocation} {patch : RecordBatch}
  {groups : List (Nat × List (Nat × Nat))}

/-- The store with other batches in one tick of the table. -/
def with_batches (s : ArrowStore) (name : String) (tick : Tick) (lock : RwLock VersionedTable)
    (mid : List RecordBatch) : ArrowStore :=
  s.set_table name { lock.data with versions := lock.data.versions.insert tick mid }

theorem only_tick_with_batches {R : List RecordBatch → List RecordBatch → Prop}
    (hlock : s.tables[name]? = some lock) (hhealthy : lock.poisoned = false)
    (hvs : lock.data.versions[tick]? = some vs) :
    OnlyTick name tick R s (with_batches s name tick lock mid) ↔ R vs mid := by
  constructor
  · intro h
    have htable := h.table
    rw [hlock, with_batches, ArrowStore.tables_set_table, if_pos rfl] at htable
    rw [Option.rel_some_some] at htable
    obtain ⟨versions, hdata, -, hrel⟩ := htable
    have hversions := congrArg (fun l : RwLock VersionedTable => l.data.versions) hdata
    dsimp only [RwLock.new] at hversions
    rw [hvs, ← hversions] at hrel
    simpa using hrel
  · intro hR
    refine ⟨ArrowStore.set_table_same _ _ _, ?_, ?_⟩
    · intro n hn
      rw [with_batches, ArrowStore.tables_set_table, if_neg (Ne.symm hn)]
    · rw [hlock, with_batches, ArrowStore.tables_set_table, if_pos rfl]
      refine .some ⟨lock.data.versions.insert tick mid, ?_, ?_, ?_⟩
      · rw [RwLock.new, hhealthy]
      · intro t ht
        have hne : ¬ compare tick t = .eq := by simpa using Ne.symm ht
        rw [Std.ExtTreeMap.getElem?_insert, if_neg hne]
      · rw [hvs]
        simpa using hR

/-- The call, where it reaches the batches: the verdict is that of the loop, and the loop has
left what it has left unless it unwinds. -/
theorem reached_in_order (hcommit : s.InSimulation) (hne : locations ≠ [])
    (hlock : s.tables[name]? = some lock) (hhealthy : lock.poisoned = false)
    (hvs : lock.data.versions[tick]? = some vs) {result : ArrowStoreResult Unit}
    (hloop : forEach (patch_group patch) vs groups = (result, mid)) :
    (s.patch_rows_in_order groups name tick locations patch).1 = result ∧
      (Returns result → (s.patch_rows_in_order groups name tick locations patch).2 =
        with_batches s name tick lock mid) := by
  have htable : patch_in_order groups lock.data name tick patch =
      (result, { lock.data with versions := lock.data.versions.insert tick mid }) := by
    simp only [patch_in_order, hvs, hloop]
  have hnil : locations.isEmpty = false := by
    simpa using hne
  unfold ArrowStore.patch_rows_in_order
  rw [ArrowStore.check_commit_ok.2 hcommit]
  simp only [hnil, Bool.false_eq_true, if_false]
  constructor
  · rw [ArrowStore.write_table, hlock]
    simp only [RwLock.write_with, RwLock.read_healthy hhealthy, htable]
    split <;> rfl
  · intro hreturns
    have hreturned : Returns (patch_in_order groups lock.data name tick patch).1 := by
      rw [htable]
      exact hreturns
    rw [ArrowStore.write_table_of_some hlock hreturned, htable, hhealthy, if_neg (by simp),
      with_batches]

end

/-! ## What a walk leaves -/

section

variable {vs mid : List RecordBatch} {locations : List RowLocation} {patch : RecordBatch}
  {groups : List (Nat × List (Nat × Nat))}

theorem Alike.refl (src : RecordBatch) : Alike src src := ⟨rfl, rfl, fun _ _ => rfl⟩

/-- A row that is named by no location keeps what the loop starts from. -/
theorem patched_cell_unnamed {orig p : ArrayRef} (hlen : locations.length ≤ p.len) {b i : Nat}
    (hnone : last_location locations b i = none) :
    patched_cell orig p (aimed locations b) i = orig.start i := by
  rw [patched_cell, overlay_eq_last, last_patch_aimed hlen, hnone]
  rfl

theorem patched_cell_named {orig p : ArrayRef} (hlen : locations.length ≤ p.len) {b i j : Nat}
    (hj : last_location locations b i = some j) :
    patched_cell orig p (aimed locations b) i = p.cell j := by
  rw [patched_cell, overlay_eq_last, last_patch_aimed hlen, hj]
  rfl

/-- A location at the end is the last of its row. -/
theorem last_location_concat (init : List RowLocation) (loc : RowLocation) :
    last_location (init ++ [loc]) loc.batch_index loc.row_index = some init.length := by
  simp [last_location, List.zipIdx_append]

/-- The batches that no group is about are as they were. -/
theorem last_location_of_not_mem (hw : Walks locations groups) {b : Nat}
    (hb : b ∉ groups.map Prod.fst) (i : Nat) : last_location locations b i = none := by
  rw [last_location_eq_none_iff]
  rintro loc hmem rfl
  refine absurd ?_ hb
  exact List.mem_map_of_mem (f := Prod.fst) (hw.mem_iff.2 ⟨rfl, loc, hmem, rfl⟩)

/-- A patched batch keeps the rows that no location names if and only if they are in place. -/
theorem unnamed_kept_iff {src r : RecordBatch} {b i : Nat}
    (hlen : locations.length ≤ patch.row_count)
    (h : patch_record_batch src patch (aimed locations b) = .ok r) (hi : i < src.row_count)
    (hnone : last_location locations b i = none) :
    r.row i = src.row i ↔ ∀ c ∈ src.columns, c.InPlace i := by
  obtain ⟨-, hcols, -⟩ := RecordBatch.built_ok h
  have hcount : r.columns.length = src.columns.length := by
    simpa using mapM_ok_length hcols
  have hcell : ∀ k (hr : k < r.columns.length) (hs : k < src.columns.length),
      r.columns[k].cell i = src.columns[k].cell i ↔ src.columns[k].InPlace i := by
    intro k hr hs
    obtain ⟨p, hp, hcell⟩ := patched_batch_cell h hr hs
    have hplen : p.len = patch.row_count := patch.column_len _ (List.mem_of_getElem? hp)
    rw [hcell i hi, patched_cell_unnamed (by omega) hnone, start_eq_iff]
    rw [src.column_len _ (List.getElem_mem hs)]
    exact hi
  rw [row_eq_iff hcount]
  constructor
  · intro hrow c hc
    obtain ⟨k, hs, rfl⟩ := List.getElem_of_mem hc
    have hr : k < r.columns.length := by omega
    exact (hcell k hr hs).1 (hrow k hr hs)
  · intro hplace k hr hs
    exact (hcell k hr hs).2 (hplace _ (List.getElem_mem hs))

/-- A walk over batches that take all their patches leaves what was asked for. -/
theorem AllTaken.received (h : AllTaken vs locations patch) (hw : Walks locations groups) :
    ∃ mid, forEach (patch_group patch) vs groups = (.ok (), mid) ∧
      Received locations patch vs mid := by
  obtain ⟨hlen, hall⟩ := h
  have htaken : ∀ b patches src, (b, patches) ∈ groups → vs[b]? = some src →
      batch_fault src patch patches = none := by
    intro b patches src hmem hsrc
    obtain ⟨rfl, loc, hloc, rfl⟩ := hw.mem_iff.1 hmem
    obtain ⟨src', hsrc', -, hfault, -⟩ := hall loc hloc
    obtain rfl := Option.some.inj (hsrc.symm.trans hsrc')
    exact hfault
  obtain ⟨mid, hloop⟩ := exists_walk hw.nodup htaken
  obtain ⟨hlength, hbatches⟩ := walked hw.nodup hloop
  -- one batch of the tick, and whether a group is about it
  have hcases : ∀ (b : Nat) (src r : RecordBatch), vs[b]? = some src → mid[b]? = some r →
      (r = src ∧ ∀ i, last_location locations b i = none) ∨
        patch_record_batch src patch (aimed locations b) = .ok r ∧
          ∀ c ∈ src.columns, ∀ i < src.row_count,
            last_location locations b i = none → c.InPlace i := by
    intro b src r hsrc hr
    by_cases hb : b ∈ groups.map Prod.fst
    · obtain ⟨⟨b', patches⟩, hmem, rfl⟩ := List.mem_map.1 hb
      obtain ⟨r', hpatch, hr'⟩ := (hbatches b').2 patches hmem src hsrc
      obtain ⟨rfl, loc, hloc, hb'⟩ := hw.mem_iff.1 hmem
      obtain ⟨src', hsrc', -, -, hplace⟩ := hall loc hloc
      rw [hb'] at hsrc' hplace
      obtain rfl := Option.some.inj (hsrc.symm.trans hsrc')
      obtain rfl := Option.some.inj (hr.symm.trans hr')
      exact .inr ⟨hpatch, hplace⟩
    · have hsame := (hbatches b).1 hb
      rw [hr, hsrc] at hsame
      exact .inl ⟨Option.some.inj hsame, last_location_of_not_mem hw hb⟩
  refine ⟨mid, hloop, hlength, ?_, ?_, ?_⟩
  · intro b src r hsrc hr
    rcases hcases b src r hsrc hr with ⟨rfl, -⟩ | ⟨hpatch, -⟩
    · exact ⟨rfl, rfl⟩
    · obtain ⟨hschema, hcount, -⟩ := patch_record_batch_spec hpatch
      exact ⟨hschema, hcount⟩
  · intro b src r hsrc hr i hi j hj k hk
    rcases hcases b src r hsrc hr with ⟨-, hnone⟩ | ⟨hpatch, -⟩
    · rw [hnone i] at hj
      cases hj
    · have hs : k < src.columns.length := by
        rw [src.column_count, ← (patch_record_batch_spec hpatch).1, ← r.column_count]
        exact hk
      obtain ⟨p, hp, hcell⟩ := patched_batch_cell hpatch hk hs
      have hplen : p.len = patch.row_count := patch.column_len _ (List.mem_of_getElem? hp)
      exact ⟨p, hp, by rw [hcell i hi, patched_cell_named (by omega) hj]⟩
  · intro b src r hsrc hr i hi hnone
    rcases hcases b src r hsrc hr with ⟨rfl, -⟩ | ⟨hpatch, hplace⟩
    · rfl
    · exact (unnamed_kept_iff hlen hpatch hi hnone).2 fun c hc => hplace c hc i hi hnone

/-- And only such a walk does. -/
theorem Received.all_taken (h : Received locations patch vs mid) (hne : locations ≠ [])
    (hw : Walks locations groups)
    (hloop : forEach (patch_group patch) vs groups = (.ok (), mid))
    (hfound : ∀ loc ∈ locations, ∃ src, vs[loc.batch_index]? = some src ∧
      loc.row_index < src.row_count ∧
      ∃ j ∈ last_location locations loc.batch_index loc.row_index, j < patch.row_count) :
    AllTaken vs locations patch := by
  have hlen : locations.length ≤ patch.row_count := by
    obtain ⟨init, last, rfl⟩ := (List.eq_nil_or_concat locations).resolve_left hne
    rw [List.concat_eq_append] at hfound ⊢
    obtain ⟨-, -, -, j, hj, hin⟩ := hfound last (by simp)
    rw [last_location_concat] at hj
    obtain rfl := Option.some.inj hj
    rw [List.length_append, List.length_singleton]
    omega
  refine ⟨hlen, ?_⟩
  intro loc hloc
  obtain ⟨src, hsrc, hrow, -⟩ := hfound loc hloc
  have hmem : (loc.batch_index, aimed locations loc.batch_index) ∈ groups :=
    hw.mem_iff.2 ⟨rfl, loc, hloc, rfl⟩
  obtain ⟨r, hpatch, hr⟩ := ((walked hw.nodup hloop).2 loc.batch_index).2 _ hmem src hsrc
  refine ⟨src, hsrc, hrow, exists_patched_iff.1 ⟨r, hpatch⟩, ?_⟩
  intro c hc i hi hnone
  exact (unnamed_kept_iff hlen hpatch hi hnone).1 (h.kept _ src r hsrc hr i hi hnone) c hc

/-- A patched batch reads as before if it held the patched cells already. -/
theorem alike_iff {src r : RecordBatch} {patches : List (Nat × Nat)}
    (h : patch_record_batch src patch patches = .ok r) :
    Alike src r ↔ ∀ k (hk : k < src.columns.length), ∀ p, patch.columns[k]? = some p →
      ∀ i < src.row_count, patched_cell src.columns[k] p patches i = src.columns[k].cell i := by
  obtain ⟨-, hcols, -⟩ := RecordBatch.built_ok h
  have hcount : r.columns.length = src.columns.length := by
    simpa using mapM_ok_length hcols
  obtain ⟨hschema, hrows, -⟩ := patch_record_batch_spec h
  constructor
  · intro halike k hs p hp i hi
    have hr : k < r.columns.length := by omega
    obtain ⟨p', hp', hcell⟩ := patched_batch_cell h hr hs
    obtain rfl := Option.some.inj (hp.symm.trans hp')
    rw [← hcell i hi]
    exact (row_eq_iff hcount).1 (halike.row_eq i hi) k hr hs
  · intro hheld
    refine ⟨hschema, hrows, ?_⟩
    intro i hi
    rw [row_eq_iff hcount]
    intro k hr hs
    obtain ⟨p, hp, hcell⟩ := patched_batch_cell h hr hs
    rw [hcell i hi]
    exact hheld k hs p hp i hi

/-- Where no batch takes a patch that changes it, every walk ends with the same error, and the
batches read as before. -/
theorem NoneTaken.refused {e : ArrowStoreError} (h : NoneTaken vs locations patch e)
    (hw : Walks locations groups) :
    ∃ mid, forEach (patch_group patch) vs groups = (.error e, mid) ∧
      List.Forall₂ Alike vs mid := by
  obtain ⟨⟨loc, hloc, src, hsrc, hfault⟩, hall⟩ := h
  rcases hloop : forEach (patch_group patch) vs groups with ⟨e' | ⟨⟨⟩⟩, mid⟩
  swap
  · -- a walk that ran through has patched the batch that is refused
    have hmem : (loc.batch_index, aimed locations loc.batch_index) ∈ groups :=
      hw.mem_iff.2 ⟨rfl, loc, hloc, rfl⟩
    obtain ⟨r, hpatch, -⟩ := ((walked hw.nodup hloop).2 loc.batch_index).2 _ hmem src hsrc
    rw [exists_patched_iff.1 ⟨r, hpatch⟩] at hfault
    cases hfault
  · obtain ⟨pre, b, patches, post, stop, rfl, hpre, hstop, hrefused⟩ := stopped hw.nodup hloop
    have hsame : e' = e := by
      obtain ⟨rfl, loc', hloc', rfl⟩ := hw.mem_iff.1 (List.mem_append_right _ List.mem_cons_self)
      rcases hall loc' hloc' stop hstop with hfault' | ⟨hnone, -⟩
      · exact Option.some.inj (hrefused.symm.trans hfault')
      · rw [hrefused] at hnone
        cases hnone
    subst hsame
    have hnodup : (pre.map Prod.fst).Nodup := by
      have hwhole := hw.nodup
      rw [List.map_append, List.nodup_append] at hwhole
      exact hwhole.1
    obtain ⟨hlength, hbatches⟩ := walked hnodup hpre
    -- a batch that a group before has patched reads as before, and no other one is changed
    have hone : ∀ (k : Nat) (old new : RecordBatch), vs[k]? = some old → mid[k]? = some new →
        Alike old new := by
      intro k old new hold hnew
      by_cases hmem : k ∈ pre.map Prod.fst
      · obtain ⟨⟨k', patches'⟩, hgroup, rfl⟩ := List.mem_map.1 hmem
        obtain ⟨r, hpatch, hr⟩ := (hbatches k').2 patches' hgroup old hold
        obtain rfl := Option.some.inj (hnew.symm.trans hr)
        obtain ⟨rfl, loc', hloc', rfl⟩ := hw.mem_iff.1 (List.mem_append_left _ hgroup)
        rw [alike_iff hpatch]
        rcases hall loc' hloc' old hold with hfault' | ⟨-, hheld⟩
        · rw [exists_patched_iff.1 ⟨_, hpatch⟩] at hfault'
          cases hfault'
        · exact hheld
      · have hkept := (hbatches k).1 hmem
        rw [hnew, hold] at hkept
        rw [Option.some.inj hkept]
        exact .refl _
    refine ⟨mid, rfl, ?_⟩
    rw [List.forall₂_iff_get]
    refine ⟨hlength.symm, ?_⟩
    intro k hk hk'
    exact hone k _ _ (List.getElem?_eq_getElem hk) (List.getElem?_eq_getElem hk')

/-- And only there: a batch that takes its patches can come first. -/
theorem none_taken_of_refused {e : ArrowStoreError} (hw : Walks locations groups)
    (h : ∀ groups, Walks locations groups → ∃ mid,
      forEach (patch_group patch) vs groups = (.error e, mid) ∧ List.Forall₂ Alike vs mid) :
    NoneTaken vs locations patch e := by
  obtain ⟨mid, hloop, -⟩ := h groups hw
  obtain ⟨pre, b, patches, post, stop, rfl, -, hstop, hrefused⟩ := stopped hw.nodup hloop
  have hlast := List.mem_append_right pre (List.mem_cons_self (a := (b, patches)) (l := post))
  obtain ⟨rfl, loc, hloc, rfl⟩ := hw.mem_iff.1 hlast
  refine ⟨⟨loc, hloc, stop, hstop, hrefused⟩, ?_⟩
  intro loc' hloc' src hsrc
  have hmem := hw.mem_iff.2 ⟨rfl, loc', hloc', rfl⟩
  rcases hfault : batch_fault src patch (aimed locations loc'.batch_index) with _ | e'
  swap
  · -- walked first, it ends the walk with its own fault
    obtain ⟨rest, hfirst⟩ := hw.first hmem
    obtain ⟨mid', hloop', -⟩ := h _ hfirst
    rw [refused_first hsrc hfault, Prod.mk.injEq, Except.error.injEq] at hloop'
    exact .inl (congrArg some hloop'.1)
  · -- walked first, and the refused batch after it, it has been written when the walk ends
    have hne : (loc'.batch_index, aimed locations loc'.batch_index) ≠
        (loc.batch_index, aimed locations loc.batch_index) := by
      intro heq
      obtain ⟨hindex, haimed⟩ := Prod.mk.inj heq
      rw [hindex, hstop] at hsrc
      rw [Option.some.inj hsrc] at hrefused
      rw [haimed, hrefused] at hfault
      cases hfault
    obtain ⟨rest, hsecond⟩ := hw.second hmem hlast hne
    obtain ⟨mid', hloop', halike⟩ := h _ hsecond
    obtain ⟨r, hpatch⟩ := exists_patched_iff.2 hfault
    have hindex : loc'.batch_index ≠ loc.batch_index := by
      intro heq
      exact hne (by rw [heq])
    have hstep : patch_group patch vs (loc'.batch_index, aimed locations loc'.batch_index) =
        (.ok (), vs.set loc'.batch_index r) := by
      simp [patch_group, hsrc, hpatch]
    have hstop' : (vs.set loc'.batch_index r)[loc.batch_index]? = some stop := by
      rw [List.getElem?_set_ne hindex, hstop]
    rw [forEach_cons_of_ok hstep, refused_first hstop' hrefused, Prod.mk.injEq] at hloop'
    have hlt := (List.getElem?_eq_some_iff.1 hsrc).1
    rw [← hloop'.2] at halike
    have hat := halike.get hlt (by simpa using hlt)
    simp only [List.get_eq_getElem, List.getElem_set_self] at hat
    rw [(List.getElem?_eq_some_iff.1 hsrc).2, alike_iff hpatch] at hat
    exact .inr ⟨rfl, hat⟩

end

/-! ## When the call is all or nothing -/

section

variable {s : ArrowStore} {name : String} {tick : Tick} {locations : List RowLocation}
  {patch : RecordBatch}

theorem OnlyTick.refl {R : List RecordBatch → List RecordBatch → Prop} (hR : ∀ vs, R vs vs)
    (s : ArrowStore) : OnlyTick name tick R s s := by
  refine ⟨.refl s, fun _ _ => rfl, ?_⟩
  rcases s.tables[name]? with _ | lock
  · exact .none
  · refine .some ⟨lock.data.versions, rfl, fun _ _ => rfl, ?_⟩
    rcases lock.data.versions[tick]? with _ | vs
    · exact .none
    · exact .some (hR vs)

theorem forall₂_alike_refl (vs : List RecordBatch) : List.Forall₂ Alike vs vs :=
  List.forall₂_same.2 fun src _ => .refl src

theorem received_nil (vs : List RecordBatch) : Received [] patch vs vs := by
  refine ⟨rfl, ?_, ?_, ?_⟩
  · intro b src r hsrc hr
    rw [Option.some.inj (hsrc.symm.trans hr)]
    exact ⟨rfl, rfl⟩
  · intro b src r hsrc hr i hi j hj
    simp [last_location] at hj
  · intro b src r hsrc hr i hi hnone
    rw [Option.some.inj (hsrc.symm.trans hr)]

theorem check_commit_ne_panic {e : ArrowStoreError} (h : s.check_commit = .error e) :
    e ≠ .Panic := by
  rintro rfl
  unfold ArrowStore.check_commit RwLock.read_store RwLock.read at h
  cases hp : s.lifecycle.poisoned <;>
    simp [hp, Except.mapError, bind, Except.bind, pure, Except.pure] at h
  split at h <;> cases h

/-- The call does not get as far as the batches. -/
theorem not_reached (h : ¬ (s.InSimulation ∧ locations ≠ [] ∧ ∃ lock vs,
      s.tables[name]? = some lock ∧ lock.poisoned = false ∧
        lock.data.versions[tick]? = some vs)) :
    AllOrNothing s name tick locations patch := by
  -- an error that is returned before anything is written
  have hrefused : ∀ e : ArrowStoreError, e ≠ .Panic → (∀ groups,
      s.patch_rows_in_order groups name tick locations patch = (.error e, s)) →
        AllOrNothing s name tick locations patch := by
    intro e he hcall
    refine .inr ⟨e, he, ?_⟩
    intro groups _
    rw [hcall groups]
    exact ⟨rfl, .refl forall₂_alike_refl s⟩
  by_cases hsim : s.InSimulation
  swap
  · rcases hcheck : s.check_commit with e | ⟨⟨⟩⟩
    swap
    · exact absurd (ArrowStore.check_commit_ok.1 hcheck) hsim
    · apply hrefused e (check_commit_ne_panic hcheck)
      intro groups
      rw [ArrowStore.patch_rows_in_order, hcheck]
  have hcheck := ArrowStore.check_commit_ok.2 hsim
  by_cases hne : locations = []
  · subst hne
    refine .inl ⟨fun loc hloc => absurd hloc List.not_mem_nil, ?_⟩
    intro groups _
    have hcall : s.patch_rows_in_order groups name tick [] patch = (.ok (), s) := by
      rw [ArrowStore.patch_rows_in_order, hcheck]
      rfl
    rw [hcall]
    exact ⟨rfl, .refl received_nil s⟩
  have hnil : locations.isEmpty = false := by simpa using hne
  have hcall : ∀ groups, s.patch_rows_in_order groups name tick locations patch =
      s.write_table name fun table => patch_in_order groups table name tick patch := by
    intro groups
    rw [ArrowStore.patch_rows_in_order, hcheck]
    simp only [hnil, Bool.false_eq_true, if_false]
  rcases hlock : s.tables[name]? with _ | lock
  · apply hrefused (.TableNotFound name) (by simp)
    intro groups
    rw [hcall, ArrowStore.write_table, hlock]
  by_cases hp : lock.poisoned = true
  · apply hrefused (.LockPoisoned RwLock.poison_text) (by simp)
    intro groups
    rw [hcall, ArrowStore.write_table, hlock]
    simp [RwLock.write_with, RwLock.read_poisoned hp, Maps.insert_self hlock]
  have hhealthy : lock.poisoned = false := by simpa using hp
  have htick : lock.data.versions[tick]? = none := by
    rcases hvs : lock.data.versions[tick]? with _ | vs
    · rfl
    · exact absurd ⟨hsim, hne, lock, vs, hlock, hhealthy, hvs⟩ h
  apply hrefused (.TickNotFound name tick) (by simp)
  intro groups
  have htable : patch_in_order groups lock.data name tick patch =
      (.error (.TickNotFound name tick), lock.data) := by
    simp only [patch_in_order, htick]
  have hreturns : Returns (patch_in_order groups lock.data name tick patch).1 := by
    simp [htable, Returns]
  rw [hcall, ArrowStore.write_table_of_some hlock hreturns, htable, hhealthy,
    if_neg Bool.false_ne_true, ArrowStore.set_table, RwLock.new, ← hhealthy,
    Maps.insert_self hlock]

/-- Where the call reaches the batches: they all take their patches, or none is changed and
some are refused. -/
def WholeOrRefused (s : ArrowStore) (name : String) (tick : Tick) (locations : List RowLocation)
    (patch : RecordBatch) : Prop :=
  s.InSimulation → locations ≠ [] → ∀ lock vs, s.tables[name]? = some lock →
    lock.poisoned = false → lock.data.versions[tick]? = some vs →
      AllTaken vs locations patch ∨ ∃ e, e ≠ .Panic ∧ NoneTaken vs locations patch e

/-- The call, where it reaches the batches and does not unwind, changes them as the loop does. -/
theorem outcome_in_order {groups : List (Nat × List (Nat × Nat))} {lock : RwLock VersionedTable}
    {vs mid : List RecordBatch} {R : List RecordBatch → List RecordBatch → Prop}
    (hsim : s.InSimulation) (hne : locations ≠ []) (hlock : s.tables[name]? = some lock)
    (hhealthy : lock.poisoned = false) (hvs : lock.data.versions[tick]? = some vs)
    {result : ArrowStoreResult Unit}
    (hloop : forEach (patch_group patch) vs groups = (result, mid)) :
    (s.patch_rows_in_order groups name tick locations patch).1 = result ∧
      (Returns result → (OnlyTick name tick R s
        (s.patch_rows_in_order groups name tick locations patch).2 ↔ R vs mid)) := by
  obtain ⟨hresult, hstate⟩ := reached_in_order hsim hne hlock hhealthy hvs hloop
  refine ⟨hresult, fun hreturns => ?_⟩
  rw [hstate hreturns, only_tick_with_batches hlock hhealthy hvs]

theorem whole_or_refused (h : AllOrNothing s name tick locations patch) :
    WholeOrRefused s name tick locations patch := by
  intro hsim hne lock vs hlock hhealthy hvs
  have hkeys : Walks locations (group_locations locations).toList := List.Perm.refl _
  rcases h with ⟨hfound, hall⟩ | ⟨e, he, hall⟩
  -- all is done, by the walk in key order among others
  · obtain ⟨hok, honly⟩ := hall _ hkeys
    rcases hloop : forEach (patch_group patch) vs (group_locations locations).toList with
      ⟨result, mid⟩
    obtain ⟨hresult, houtcome⟩ := outcome_in_order hsim hne hlock hhealthy hvs hloop
    rw [hresult] at hok
    subst hok
    have hreceived := (houtcome (by simp [Returns])).1 honly
    refine .inl (hreceived.all_taken hne hkeys hloop ?_)
    intro loc hloc
    obtain ⟨lock', src, hlock', hsrc, hrow, hlast⟩ := hfound loc hloc
    obtain rfl := Option.some.inj (hlock.symm.trans hlock')
    rw [VersionedTable.batches_of_versions hvs] at hsrc
    exact ⟨src, hsrc, hrow, hlast⟩
  -- every walk is refused, whichever batch it comes to first
  · refine .inr ⟨e, he, none_taken_of_refused hkeys ?_⟩
    intro groups hw
    obtain ⟨herror, honly⟩ := hall groups hw
    rcases hloop : forEach (patch_group patch) vs groups with ⟨result, mid⟩
    obtain ⟨hresult, houtcome⟩ := outcome_in_order hsim hne hlock hhealthy hvs hloop
    rw [hresult] at herror
    subst herror
    exact ⟨mid, rfl, (houtcome (by simpa [Returns] using he)).1 honly⟩

theorem AllTaken.found {lock : RwLock VersionedTable} {vs : List RecordBatch}
    (h : AllTaken vs locations patch) (hlock : s.tables[name]? = some lock)
    (hvs : lock.data.versions[tick]? = some vs) : Found s name tick locations patch := by
  intro loc hloc
  obtain ⟨hlen, htaken⟩ := h
  obtain ⟨src, hsrc, hrow, -⟩ := htaken loc hloc
  refine ⟨lock, src, hlock, by rw [VersionedTable.batches_of_versions hvs, hsrc], hrow, ?_⟩
  rcases hlast : last_location locations loc.batch_index loc.row_index with _ | j
  · exact absurd rfl (last_location_eq_none_iff.1 hlast loc hloc rfl)
  · have hj : j < locations.length := by
      obtain ⟨p, hp, rfl⟩ := Option.map_eq_some_iff.1 hlast
      have hmem := List.mem_filter.1 (List.mem_of_getLast? hp)
      have := List.snd_lt_of_mem_zipIdx hmem.1
      omega
    exact ⟨j, rfl, by omega⟩

theorem all_or_nothing (h : WholeOrRefused s name tick locations patch) :
    AllOrNothing s name tick locations patch := by
  by_cases hreached : s.InSimulation ∧ locations ≠ [] ∧ ∃ lock vs,
      s.tables[name]? = some lock ∧ lock.poisoned = false ∧ lock.data.versions[tick]? = some vs
  swap
  · exact not_reached hreached
  obtain ⟨hsim, hne, lock, vs, hlock, hhealthy, hvs⟩ := hreached
  rcases h hsim hne lock vs hlock hhealthy hvs with htaken | ⟨e, he, hrefused⟩
  · refine .inl ⟨htaken.found hlock hvs, fun groups hw => ?_⟩
    obtain ⟨mid, hloop, hreceived⟩ := htaken.received hw
    obtain ⟨hresult, houtcome⟩ := outcome_in_order hsim hne hlock hhealthy hvs hloop
    exact ⟨hresult, (houtcome (by simp [Returns])).2 hreceived⟩
  · refine .inr ⟨e, he, fun groups hw => ?_⟩
    obtain ⟨mid, hloop, halike⟩ := hrefused.refused hw
    obtain ⟨hresult, houtcome⟩ := outcome_in_order hsim hne hlock hhealthy hvs hloop
    exact ⟨hresult, (houtcome (by simpa [Returns] using he)).2 halike⟩

/-- `patch_rows` is all or nothing, in every order of its groups, if and only if it meets a
list of locations that it can follow to the end or not at all. -/
theorem patch_rows_all_or_nothing_iff (s : ArrowStore) (name : String) (tick : Tick)
    (locations : List RowLocation) (patch : RecordBatch) :
    AllOrNothing s name tick locations patch ↔ WholeOrRefused s name tick locations patch :=
  ⟨whole_or_refused, all_or_nothing⟩

end

/-! ## Half a patch -/

def amounts_spec : TableSpec :=
  { name := "amounts"
    columns := [.new "amount" .Quantity "i64"]
    column_index := (∅ : Map String Nat).insert "amount" 0 }

/-- A batch of text, in a table of amounts. -/
def one_text : RecordBatch where
  schema := ⟨[{ amount with data_type := .Utf8 }]⟩
  columns := [.StringArray [some "five"]]
  row_count := 1
  column_types := rfl
  column_len := by decide
  non_nullable := by decide

/-- A store with two batches of one tick, in simulation. -/
def amounts_store : ArrowStore :=
  ((ArrowStore.new.create_table amounts_spec .Patchable).2.append_batches "amounts" 0
    [two_amounts, one_text]).2.into_simulation.2

def amounts_at (locations : List (Nat × Nat)) : List RowLocation :=
  locations.map fun p => { tick := 0, batch_index := p.1, row_index := p.2, row_id := 0 }

theorem amounts_store_batches :
    ∃ lock, amounts_store.tables["amounts"]? = some lock ∧ lock.poisoned = false ∧
      lock.data.versions[0]? = some [two_amounts, one_text] := by
  have hlock : amounts_store.tables["amounts"]?.map
      (fun lock => (lock.poisoned, lock.data.versions[0]?)) =
        some (false, some [two_amounts, one_text]) := by
    decide +kernel
  obtain ⟨lock, hlock, hdata⟩ := Option.map_eq_some_iff.1 hlock
  obtain ⟨hhealthy, hvs⟩ := Prod.mk.inj hdata
  exact ⟨lock, hlock, hhealthy, hvs⟩

/-- A row of a third batch is passed over, and the call says that all is well. With a row of
each of the two batches, the call fails at the text and the amount has been overwritten. -/
theorem rows_dropped_and_half_patched :
    (amounts_store.patch_rows "amounts" 0 (amounts_at [(2, 0)]) two_amounts).1 = .ok () ∧
      ¬ AllOrNothing amounts_store "amounts" 0 (amounts_at [(2, 0)]) two_amounts ∧
      (amounts_store.patch_rows "amounts" 0 (amounts_at [(0, 1), (1, 0)]) two_amounts).1 =
        .error (.Schema "string patch downcast failed") ∧
      ¬ AllOrNothing amounts_store "amounts" 0 (amounts_at [(0, 1), (1, 0)]) two_amounts := by
  obtain ⟨lock, hlock, hhealthy, hvs⟩ := amounts_store_batches
  have hsim : amounts_store.InSimulation := by
    constructor <;> decide +kernel
  refine ⟨by decide +kernel, ?_, by decide +kernel, ?_⟩
  · rw [patch_rows_all_or_nothing_iff]
    intro h
    rcases h hsim (by decide) lock _ hlock hhealthy hvs with
      ⟨-, hall⟩ | ⟨e, -, ⟨loc, hloc, hbad⟩, -⟩
    · obtain ⟨src, hsrc, -⟩ := hall _ (List.mem_singleton_self _)
      cases hsrc
    · obtain ⟨src, hsrc, -⟩ := hbad
      rw [List.mem_singleton.1 hloc] at hsrc
      cases hsrc
  · rw [patch_rows_all_or_nothing_iff]
    intro h
    have hfirst : batch_fault two_amounts two_amounts [(1, 0)] = none := by decide +kernel
    have hsecond : batch_fault one_text two_amounts [(0, 1)] =
        some (.Schema "string patch downcast failed") := by decide +kernel
    rcases h hsim (by decide) lock _ hlock hhealthy hvs with ⟨-, hall⟩ | ⟨e, -, -, hall⟩
    · obtain ⟨src, hsrc, -, hnone, -⟩ := hall _ (List.mem_cons_of_mem _ (List.mem_singleton_self _))
      rw [← Option.some.inj hsrc] at hnone
      exact absurd (hsecond.symm.trans hnone) (by simp)
    · rcases hall _ List.mem_cons_self two_amounts rfl with hsome | ⟨-, hheld⟩
      · exact absurd (hfirst.symm.trans hsome) (by simp)
      · have hfive := hheld 0 (by decide) (.Int64Array null_and_five) rfl 1 (by decide)
        revert hfive
        decide +kernel

end Scharnhorst
