/-
Earlier ticks: what later commits do to them, and what truncation takes away.

A commit never touches a snapshot. It may touch the batches of an earlier tick, since
an update and a delete patch the row where it is stored: the list keeps its length and
each batch its schema and its number of rows, and a batch is rewritten only if one of
the diffs finds its row there.

Truncation drops whole ticks. A row stored at a dropped tick goes with it, although
its entry stays in the position map. So truncation drops only history exactly when
every row that can be found is found at a tick that stays.
-/
import Scharnhorst.Refinement

set_option autoImplicit false

namespace Scharnhorst

open Attempt Maps

/-! ## Earlier batches under a commit -/

/-- Same schema and number of rows, batch by batch. -/
def SameShape (bs bs' : List RecordBatch) : Prop :=
  List.Forall₂ (fun b b' => b'.schema = b.schema ∧ b'.row_count = b.row_count) bs bs'

theorem SameShape.refl (bs : List RecordBatch) : SameShape bs bs :=
  List.forall₂_same.2 fun _ _ => ⟨rfl, rfl⟩

theorem SameShape.trans {bs bs' bs'' : List RecordBatch} (h : SameShape bs bs')
    (h' : SameShape bs' bs'') : SameShape bs bs'' := by
  induction h generalizing bs'' with
  | nil => exact h'
  | cons hb _ ih =>
      obtain ⟨_, _, hb', hbs', rfl⟩ := List.forall₂_cons_left_iff.1 h'
      exact .cons ⟨hb'.1.trans hb.1, hb'.2.trans hb.2⟩ (ih hbs')

theorem SameShape.set {bs : List RecordBatch} {i : Nat} {b b' : RecordBatch} (hb : bs[i]? = some b)
    (hs : b'.schema = b.schema) (hn : b'.row_count = b.row_count) : SameShape bs (bs.set i b') := by
  induction bs generalizing i with
  | nil => simp at hb
  | cons c bs ih =>
      rcases i with _ | i
      · obtain rfl : c = b := by simpa using hb
        exact .cons ⟨hs, hn⟩ (SameShape.refl bs)
      · exact .cons ⟨rfl, rfl⟩ (ih (by simpa using hb))

theorem VersionedTable.batches_insert (versions : Versions) (t : VersionedTable)
    (tick M : Tick) (bs : List RecordBatch) (h : t.versions = versions.insert tick bs) :
    t.batches M = if tick = M then bs else versions.getD M [] := by
  rw [batches, h, Std.ExtTreeMap.getD_insert]
  simp

theorem VersionedTable.batches_set_batch (t : VersionedTable) (loc : RowLocation)
    (patched : RecordBatch) (M : Tick) :
    (t.set_batch loc patched).batches M
      = if loc.tick = M then (t.batches M).set loc.batch_index patched else t.batches M := by
  rw [batches_insert t.versions _ loc.tick M _ rfl]
  split
  · rename_i heq
    rw [heq]
  · rfl

/-- The diff does not find its row in this batch. -/
def Misses (M : Tick) (b : Nat) (t : VersionedTable) : Diff → Prop
  | .Update _ row _ _ | .Delete _ row =>
    ∀ loc batch, t.locate row = some (loc, batch) → ¬ (loc.tick = M ∧ loc.batch_index = b)
  | .Insert _ _ _ | .ReplaceTable _ _ => True

section Commits

variable [Render]

/-- One diff at tick `N`, seen from another tick. -/
theorem batches_step {reg : TypeRegistry} {N M : Tick} (hne : N ≠ M) {d : Diff}
    {t t' : VersionedTable} (h : apply_to_table reg N d t = (.ok (), t')) :
    SameShape (t.batches M) (t'.batches M)
      ∧ ∀ b, Misses M b t d → (t'.batches M)[b]? = (t.batches M)[b]? := by
  -- an update or a delete rewrites one batch, wherever its row was stored
  have hset : ∀ (row : RowId) (loc : RowLocation) (batch patched : RecordBatch)
      (g : List Cell → List Cell), t.locate row = some (loc, batch) →
      Rewrites batch patched loc.row_index g →
      SameShape (t.batches M) ((t.set_batch loc patched).batches M)
        ∧ ∀ b, ¬ (loc.tick = M ∧ loc.batch_index = b) →
          ((t.set_batch loc patched).batches M)[b]? = (t.batches M)[b]? := by
    intro row loc batch patched g hloc hr
    have hbatch := (VersionedTable.locate_eq_some.1 hloc).2.2.1
    rw [VersionedTable.batches_set_batch]
    by_cases hM : loc.tick = M
    · subst hM
      rw [if_pos rfl]
      exact ⟨.set hbatch hr.schema_eq hr.row_count_eq, fun b hb =>
        List.getElem?_set_ne fun heq => hb ⟨rfl, heq⟩⟩
    · rw [if_neg hM]
      exact ⟨.refl _, fun _ _ => rfl⟩
  -- an insert or a replace writes the batches of its own tick
  have hother : ∀ (bs : List RecordBatch), t'.versions = t.versions.insert N bs →
      SameShape (t.batches M) (t'.batches M)
        ∧ ∀ b, Misses M b t d → (t'.batches M)[b]? = (t.batches M)[b]? := by
    intro bs hv
    rw [VersionedTable.batches_insert t.versions t' N M bs hv, if_neg hne]
    exact ⟨.refl _, fun _ _ => rfl⟩
  cases d with
  | Update name row column value =>
      obtain ⟨loc, batch, patched, hloc, hb, rfl⟩ := apply_update_ok N h
      obtain ⟨c, f, -, -, hr⟩ := update_batch_spec
        (VersionedTable.locate_eq_some.1 hloc).2.2.2.1 hb
      obtain ⟨hshape, hkept⟩ := hset row loc batch patched _ hloc hr
      exact ⟨hshape, fun b hmiss => hkept b (hmiss loc batch hloc)⟩
  | Delete name row =>
      obtain ⟨loc, batch, patched, hloc, hb, rfl⟩ := apply_delete_ok N h
      obtain ⟨g, hr⟩ := delete_batch_spec (VersionedTable.locate_eq_some.1 hloc).2.2.2.1 hb
      obtain ⟨hshape, hkept⟩ := hset row loc batch patched _ hloc hr
      exact ⟨hshape, fun b hmiss => hkept b (hmiss loc batch hloc)⟩
  | Insert name row values =>
      obtain ⟨schema, batch, -, -, -, rfl⟩ := apply_insert_ok h
      exact hother _ rfl
  | ReplaceTable name rows =>
      obtain ⟨schema, pm, batches, -, -, -, rfl⟩ := apply_replace_ok h
      exact hother _ rfl

/-- A run of diffs at tick `N`, seen from another tick. -/
theorem batches_run {reg : TypeRegistry} {N M : Tick} (hne : N ≠ M) {ds : List Diff}
    {t t' : VersionedTable} (h : ArrowStore.run_table reg N t ds = (.ok (), t')) :
    SameShape (t.batches M) (t'.batches M)
      ∧ ∀ b, Guarded (fun t d => apply_to_table reg N d t) (fun t d => Misses M b t d) t ds →
        (t'.batches M)[b]? = (t.batches M)[b]? := by
  induction ds generalizing t with
  | nil =>
      obtain rfl : t = t' := by simpa [ArrowStore.run_table] using h
      exact ⟨.refl _, fun _ _ => rfl⟩
  | cons d ds ih =>
      obtain ⟨mid, hd, hds⟩ := forEach_cons_ok.1 h
      obtain ⟨hshape, hkept⟩ := batches_step hne hd
      obtain ⟨hshape', hkept'⟩ := ih hds
      exact ⟨hshape.trans hshape', fun b hb =>
        (hkept' b (hb.2 mid hd)).trans (hkept b hb.1)⟩

/-- What two reads of a table's batches at an earlier tick have in common. -/
inductive SameRead (same : Nat → Prop) :
    ArrowStoreResult (List RecordBatch) → ArrowStoreResult (List RecordBatch) → Prop
  | refused (e : ArrowStoreError) : SameRead same (.error e) (.error e)
  | read {bs bs' : List RecordBatch} (shape : SameShape bs bs')
      (kept : ∀ b, same b → bs'[b]? = bs[b]?) : SameRead same (.ok bs) (.ok bs')

/-- No diff of the list finds its row in this batch of the table. -/
def MissesAll (s : ArrowStore) (N : Tick) (ds : List Diff) (name : String) (M : Tick) (b : Nat) :
    Prop :=
  ∀ lock, s.tables[name]? = some lock →
    Guarded (fun t d => apply_to_table s.type_registry.data N d t) (fun t d => Misses M b t d)
      lock.data (ArrowStore.diffs_of name ds)

end Commits

section Items

attribute [local instance] plain_text

/-- One item, and the snapshot of its tick. -/
def one_item_snapped : ArrowStore := (one_item.generate_snapshot 0).2

end Items

/-! ## Truncation -/

/-- A table without the ticks before `t`. -/
def VersionedTable.truncated (t : Tick) (table : VersionedTable) : VersionedTable :=
  { table with versions := table.versions.filter fun k _ => decide (t ≤ k) }

namespace ArrowStore

/-- The store without the ticks before `t`. -/
def truncated (t : Tick) (s : ArrowStore) : ArrowStore :=
  { s with
    snapshots := s.snapshots.filter fun k _ => decide (t ≤ k)
    tables := s.tables.map fun _ lock => { lock with data := lock.data.truncated t } }

/-- No table's lock is poisoned. -/
def AllHealthy (s : ArrowStore) : Prop :=
  ∀ (n : String) (lock : RwLock VersionedTable), s.tables[n]? = some lock → lock.poisoned = false

theorem tables_truncated (t : Tick) (s : ArrowStore) (n : String) :
    (s.truncated t).tables[n]?
      = s.tables[n]?.map fun lock => { lock with data := lock.data.truncated t } := by
  simp [truncated, Std.ExtTreeMap.getElem?_map]

theorem truncate_table_eq (t : Tick) {s : ArrowStore} {n : String}
    {lock : RwLock VersionedTable} (h : s.tables[n]? = some lock) :
    truncate_table t s n
      = if lock.poisoned then (.error (.LockPoisoned RwLock.poison_text), s)
        else (.ok (), s.set_table n (lock.data.truncated t)) :=
  write_table_of_some h (by simp [Returns])

/-- What the loop over the tables does, if it goes through: the tables gone through
were healthy and are truncated. -/
theorem truncate_tables_ok {t : Tick} {s s' : ArrowStore} {names : List String}
    (hnodup : names.Nodup) (h : forEach (truncate_table t) s names = (.ok (), s')) :
    SameButTables s s' ∧ ∀ n : String,
      (n ∈ names → ∀ lock, s.tables[n]? = some lock → lock.poisoned = false)
      ∧ s'.tables[n]? = if n ∈ names then
          s.tables[n]?.map fun lock => { lock with data := lock.data.truncated t }
        else s.tables[n]? := by
  induction names generalizing s with
  | nil =>
      obtain rfl : s = s' := by simpa using h
      exact ⟨.refl s, fun n => by simp⟩
  | cons m ms ih =>
      obtain ⟨mid, hm, hms⟩ := forEach_cons_ok.1 h
      -- a table is gone through once, so what is done to it stays
      obtain ⟨hnew, hnodup'⟩ := List.nodup_cons.1 hnodup
      obtain ⟨hsame, htables⟩ := ih hnodup' hms
      rcases hlock : s.tables[m]? with _ | lock
      · simp [truncate_table, write_table, hlock] at hm
      rw [truncate_table_eq t hlock] at hm
      cases hp : lock.poisoned
      · obtain rfl : s.set_table m (lock.data.truncated t) = mid := by simpa [hp] using hm
        refine ⟨(set_table_same s m _).trans hsame, fun n => ?_⟩
        obtain ⟨hhealthy, hget⟩ := htables n
        rw [tables_set_table] at hhealthy hget
        by_cases hn : m = n
        · subst hn
          simp only [hnew, if_true, if_false] at hget
          refine ⟨fun _ lock' hlock' => ?_, by simp [hget, hlock, RwLock.new, hp]⟩
          obtain rfl : lock = lock' := by simpa [hlock] using hlock'
          exact hp
        · have hmem : n ∈ m :: ms ↔ n ∈ ms := by simp [Ne.symm hn]
          rw [if_neg hn] at hhealthy hget
          simpa only [hmem] using ⟨hhealthy, hget⟩
      · simp [hp] at hm

/-- It goes through when the tables are there and healthy. -/
theorem truncate_tables_total {t : Tick} {s : ArrowStore} (names : List String)
    (h : ∀ n ∈ names, ∃ lock, s.tables[n]? = some lock ∧ lock.poisoned = false) :
    (forEach (truncate_table t) s names).1 = .ok () := by
  induction names generalizing s with
  | nil => rfl
  | cons m ms ih =>
      obtain ⟨lock, hlock, hp⟩ := h m List.mem_cons_self
      have hm : truncate_table t s m = (.ok (), s.set_table m (lock.data.truncated t)) := by
        rw [truncate_table_eq t hlock, hp]
        rfl
      rw [forEach_cons_of_ok hm]
      refine ih fun n hn => ?_
      rw [tables_set_table]
      split
      · exact ⟨_, rfl, rfl⟩
      · exact h n (List.mem_cons_of_mem _ hn)

theorem truncate_before_ok {t : Tick} {s s' : ArrowStore} :
    s.truncate_before t = (.ok (), s')
      ↔ s.InSimulation ∧ s.AllHealthy ∧ s' = s.truncated t := by
  rw [← check_commit_ok]
  unfold truncate_before
  rcases hc : s.check_commit with e | ⟨⟩
  · simp
  simp only [true_and]
  have hmem : ∀ n : String, n ∈ s.tables.keys ↔ s.tables[n]?.isSome := by simp
  have hstate : ∀ s', forEach (truncate_table t)
      { s with snapshots := s.snapshots.filter fun k _ => decide (t ≤ k) } s.tables.keys
        = (.ok (), s') → s.AllHealthy ∧ s' = s.truncated t := by
    intro s' h
    obtain ⟨hsame, htables⟩ := truncate_tables_ok Std.ExtTreeMap.nodup_keys h
    refine ⟨fun n lock hlock => (htables n).1 ((hmem n).2 (by simp [hlock])) lock hlock, ?_⟩
    have hstart : SameButTables (s.truncated t)
        { s with snapshots := s.snapshots.filter fun k _ => decide (t ≤ k) } :=
      ⟨rfl, rfl, rfl, rfl, rfl, rfl, rfl⟩
    refine (hstart.trans hsame).eq fun n => ?_
    rw [(htables n).2, tables_truncated]
    rcases hn : s.tables[n]? with _ | lock
    · simp
    · simp [(hmem n).2, hn]
  refine ⟨hstate s', ?_⟩
  rintro ⟨hhealthy, rfl⟩
  have hok := truncate_tables_total (t := t)
    (s := { s with snapshots := s.snapshots.filter fun k _ => decide (t ≤ k) })
    s.tables.keys fun n hn => by
      obtain ⟨lock, hlock⟩ := Option.isSome_iff_exists.1 ((hmem n).1 hn)
      exact ⟨lock, hlock, hhealthy n lock hlock⟩
  exact Prod.ext hok (hstate _ (eq_of_verdict hok)).2

end ArrowStore

/-! ## What is still found -/

theorem versions_truncated (versions : Versions) (t k : Tick) :
    (versions.filter fun k _ => decide (t ≤ k))[k]? = if t ≤ k then versions[k]? else none := by
  rw [Std.ExtTreeMap.getElem?_filter']
  rcases versions[k]? with _ | bs <;> simp [Option.filter]

/-- The latest tick is dropped with all the earlier ones, or stays the latest. -/
theorem loc_tick_truncated (versions : Versions) (t : Tick) (b : Nat) :
    loc_tick (versions.filter fun k _ => decide (t ≤ k)) b
      = (loc_tick versions b).bind fun k => if t ≤ k then some k else none := by
  rcases hv : loc_tick versions b with _ | k
  · rw [Option.bind_none, loc_tick_eq_none]
    intro k bs hbs
    rw [versions_truncated] at hbs
    split at hbs
    · exact loc_tick_eq_none.1 hv k bs hbs
    · cases hbs
  · obtain ⟨⟨bs, hbs, hlt⟩, hmax⟩ := loc_tick_eq_some.1 hv
    rw [Option.bind_some]
    split
    · rename_i hk
      refine loc_tick_eq_some.2 ⟨⟨bs, by rw [versions_truncated, if_pos hk, hbs], hlt⟩, ?_⟩
      intro k' bs' hbs' hlt'
      rw [versions_truncated] at hbs'
      split at hbs'
      · exact hmax k' bs' hbs' hlt'
      · cases hbs'
    · rename_i hk
      rw [loc_tick_eq_none]
      intro k' bs' hbs'
      rw [versions_truncated] at hbs'
      split at hbs'
      · rename_i hk'
        by_contra hlong
        exact hk (Nat.le_trans hk' (hmax k' bs' hbs' (Nat.lt_of_not_le hlong)))
      · cases hbs'

namespace VersionedTable

theorem batches_truncated (table : VersionedTable) {t k : Tick} (h : t ≤ k) :
    (table.truncated t).batches k = table.batches k := by
  simp only [batches, truncated, Std.ExtTreeMap.getD_eq_getD_getElem?, versions_truncated,
    if_pos h]

/-- A row is found as before if its tick stays, and not at all if it goes. -/
theorem locate_truncated (table : VersionedTable) (t : Tick) (row : RowId) :
    (table.truncated t).locate row
      = (table.locate row).bind fun p => if t ≤ p.1.tick then some p else none := by
  unfold locate
  change (table.position_map.position_of row >>= fun p => _) = _
  rcases table.position_map.position_of row with _ | ⟨b, o⟩
  · rfl
  have htick := loc_tick_truncated table.versions t b
  simp only [truncated, Option.bind_eq_bind, Option.bind_some] at htick ⊢
  rw [htick]
  rcases loc_tick table.versions b with _ | k
  · rfl
  by_cases hk : t ≤ k
  · have hbatches := table.batches_truncated hk
    simp only [truncated] at hbatches
    simp only [Option.bind_some, if_pos hk, hbatches]
    rcases (table.batches k)[b]? with _ | batch
    · rfl
    · simp only [Option.bind_some]
      split
      · simp [hk]
      · rfl
  · simp only [Option.bind_some, if_neg hk, Option.bind_none]
    rcases (table.batches k)[b]? with _ | batch
    · rfl
    · simp only [Option.bind_some]
      split
      · simp [hk]
      · rfl

/-- Rewriting a batch that stays and truncating commute. -/
theorem set_batch_truncated (table : VersionedTable) {t : Tick} {loc : RowLocation}
    (h : t ≤ loc.tick) (batch : RecordBatch) :
    (table.set_batch loc batch).truncated t = (table.truncated t).set_batch loc batch := by
  have hv : ((table.set_batch loc batch).truncated t).versions
      = ((table.truncated t).set_batch loc batch).versions := by
    refine Std.ExtTreeMap.ext_getElem? fun k => ?_
    simp only [truncated, set_batch, versions_truncated]
    have hbatches := table.batches_truncated h
    simp only [truncated] at hbatches
    rw [hbatches]
    by_cases hk : loc.tick = k
    · subst hk
      simp [h]
    · simp only [Std.ExtTreeMap.getElem?_insert, Nat.compare_eq_eq, hk, if_false,
        versions_truncated]
  simpa only [truncated, set_batch, mk.injEq, true_and, and_true] using hv

end VersionedTable

/-! ## What truncation keeps -/

section Truncation

variable [Render]

/-- An update or a delete of a row. -/
def Changes (d : Diff) (name : String) (row : RowId) : Prop :=
  (∃ column value, d = .Update name row column value) ∨ d = .Delete name row

/-- A change of a row that stays does to the truncated table what it does to the
table. -/
theorem change_truncated {reg : TypeRegistry} {tick t : Tick} {d : Diff} {name : String}
    {row : RowId} {table t₁ : VersionedTable} (hd : Changes d name row)
    (hstays : ∀ loc batch, table.locate row = some (loc, batch) → t ≤ loc.tick)
    (h : apply_to_table reg tick d table = (.ok (), t₁)) :
    apply_to_table reg tick d (table.truncated t) = (.ok (), t₁.truncated t) := by
  have hlocate : ∀ loc batch, table.locate row = some (loc, batch) →
      (table.truncated t).locate row = some (loc, batch) := by
    intro loc batch hloc
    rw [VersionedTable.locate_truncated, hloc, Option.bind_some, if_pos (hstays loc batch hloc)]
  obtain ⟨column, value, rfl⟩ | rfl := hd
  · obtain ⟨loc, batch, patched, hloc, hb, rfl⟩ := apply_update_ok tick h
    rw [apply_to_table, apply_update_of_locate (hlocate loc batch hloc), hb,
      VersionedTable.set_batch_truncated table (hstays loc batch hloc)]
  · obtain ⟨loc, batch, patched, hloc, hb, rfl⟩ := apply_delete_ok tick h
    rw [apply_to_table, apply_delete_of_locate (hlocate loc batch hloc), hb]
    have hset := VersionedTable.set_batch_truncated table (hstays loc batch hloc) patched
    simp only [← hset]
    rfl

/-- Truncation took only history: the rows are found as before, the changes that went
through do so and come to the same, and the later snapshots are there. -/
structure KeepsLive (t : Tick) (s s' : ArrowStore) : Prop where
  rows : ∀ (n : String) (lock lock' : RwLock VersionedTable), s.tables[n]? = some lock →
    s'.tables[n]? = some lock' → lock'.data.position_map = lock.data.position_map
      ∧ ∀ row, lock'.data.resolve row = lock.data.resolve row
  changes : ∀ (tick : Tick) (d : Diff) (name : String) (row : RowId) (s₁ : ArrowStore),
    Changes d name row → s.apply_diffs tick [d] = (.ok (), s₁) →
      s'.apply_diffs tick [d] = (.ok (), s₁.truncated t)
  snapshots : ∀ k, t ≤ k → s'.get_snapshot k = s.get_snapshot k

/-- Every row that is found is found at a tick that stays. -/
def LiveStays (t : Tick) (s : ArrowStore) : Prop :=
  ∀ (n : String) (lock : RwLock VersionedTable), s.tables[n]? = some lock →
    ∀ row loc batch, lock.data.locate row = some (loc, batch) → t ≤ loc.tick

omit [Render] in
theorem truncated_set_table (t : Tick) (s : ArrowStore) (name : String) (table : VersionedTable) :
    (s.set_table name table).truncated t = (s.truncated t).set_table name (table.truncated t) := by
  have hsame : ArrowStore.SameButTables ((s.truncated t).set_table name (table.truncated t))
      ((s.set_table name table).truncated t) := ⟨rfl, rfl, rfl, rfl, rfl, rfl, rfl⟩
  refine hsame.eq fun n => ?_
  rw [ArrowStore.tables_truncated, ArrowStore.tables_set_table, ArrowStore.tables_set_table,
    ArrowStore.tables_truncated]
  split <;> rfl

theorem changes_truncated {t tick : Tick} {s s₁ : ArrowStore} {d : Diff} {name : String}
    {row : RowId} (hstays : LiveStays t s) (hd : Changes d name row)
    (h : s.apply_diffs tick [d] = (.ok (), s₁)) :
    (s.truncated t).apply_diffs tick [d] = (.ok (), s₁.truncated t) := by
  obtain ⟨hsim, hhealthy, hrun⟩ := ArrowStore.apply_diffs_ok.1 h
  obtain ⟨mid, hone, hnil⟩ := forEach_cons_ok.1 hrun
  obtain rfl : mid = s₁ := by simpa using hnil
  obtain ⟨lock, t', hlock, hp, htable, rfl⟩ := ArrowStore.apply_diff_ok hone
  have hname : d.table = name := by obtain ⟨column, value, rfl⟩ | rfl := hd <;> rfl
  have hreg : ArrowStore.reads_registry d = false := by
    obtain ⟨column, value, rfl⟩ | rfl := hd <;> rfl
  have hlock' : (s.truncated t).tables[d.table]?
      = some { lock with data := lock.data.truncated t } := by
    rw [ArrowStore.tables_truncated, hlock, Option.map_some]
  have htable' := change_truncated hd (hstays _ lock hlock row) htable
  refine ArrowStore.apply_diffs_ok.2 ⟨hsim, fun n hn lock' hl => ?_, ?_⟩
  · obtain rfl : n = d.table := by simpa using hn
    obtain rfl := Option.some.inj (hlock'.symm.trans hl)
    exact hp
  · rw [forEach_cons_of_ok (t := (s.set_table d.table t').truncated t), forEach_nil]
    rw [ArrowStore.apply_diff_eq, hreg, Bool.false_and, if_neg Bool.false_ne_true,
      ArrowStore.write_table_of_some hlock' (apply_to_table_returns _ _ _ _), hp,
      if_neg Bool.false_ne_true, truncated_set_table]
    exact congrArg₂ Prod.mk (congrArg Prod.fst htable')
      (congrArg (ArrowStore.set_table _ _ ·.2) htable')

end Truncation

section Items

attribute [local instance] plain_text

/-- The item, and then a commit without diffs. -/
def two_ticks : ArrowStore := (apply_commit one_item (1, [])).2

end Items

end Scharnhorst
