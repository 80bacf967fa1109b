/-
What a commit publishes, compared with the rows that are live.

A commit publishes one tick: the batches the tables have at it, and the position map as
it is then. A row that was inserted at an earlier tick and not touched since is live,
has an entry in the map, and is in none of these batches. So what is published is the
whole table only if the commit leaves no such row: it replaces the table, or deletes
every row that was there. `Renews` says that, with the condition on inserts that the
refinement has, and the theorem is about runs in which every commit does.
-/
import Scharnhorst.Bookkeeping
import Scharnhorst.Commit

set_option autoImplicit false

namespace Scharnhorst

open Attempt Maps Addressing

/-! ## The condition -/

/-- The diff ends the place a row had before it. -/
def Clears (r : RowId) : Diff → Prop
  | .Delete _ row => row = r
  | .ReplaceTable _ _ => True
  | .Update _ _ _ _ | .Insert _ _ _ => False

def Replaces : Diff → Prop
  | .ReplaceTable _ _ => True
  | .Update _ _ _ _ | .Insert _ _ _ | .Delete _ _ => False

instance (r : RowId) : (d : Diff) → Decidable (Clears r d)
  | .Delete _ row => inferInstanceAs (Decidable (row = r))
  | .ReplaceTable _ _ => inferInstanceAs (Decidable True)
  | .Update _ _ _ _ => inferInstanceAs (Decidable False)
  | .Insert _ _ _ => inferInstanceAs (Decidable False)

instance : (d : Diff) → Decidable (Replaces d)
  | .ReplaceTable _ _ => inferInstanceAs (Decidable True)
  | .Update _ _ _ _ => inferInstanceAs (Decidable False)
  | .Insert _ _ _ => inferInstanceAs (Decidable False)
  | .Delete _ _ => inferInstanceAs (Decidable False)

section Renewal

variable [Render]

/-- The diffs leave no row where it was, and unless they replace the table no insert is
given a batch index that a live row has. -/
structure Renews (reg : TypeRegistry) (tick : Tick) (t : VersionedTable) (ds : List Diff) :
    Prop where
  cleared : ∀ r, t.position_map.contains r → ∃ d ∈ ds, Clears r d
  fresh : (∃ d ∈ ds, Replaces d)
    ∨ Guarded (fun t d => apply_to_table reg tick d t) (FreshInsert tick) t ds

instance (reg : TypeRegistry) (tick : Tick) (t : VersionedTable) (ds : List Diff) :
    Decidable (Renews reg tick t ds) :=
  decidable_of_iff ((∀ e ∈ t.position_map.entries.toList, ∃ d ∈ ds, Clears e.1 d)
      ∧ ((∃ d ∈ ds, Replaces d)
        ∨ Guarded (fun t d => apply_to_table reg tick d t) (FreshInsert tick) t ds)) (by
    have hkeys : (∀ e ∈ t.position_map.entries.toList, ∃ d ∈ ds, Clears e.1 d)
        ↔ ∀ r, t.position_map.contains r → ∃ d ∈ ds, Clears r d := by
      simp only [Prod.forall, Std.ExtTreeMap.mem_toList_iff_getElem?_eq_some,
        RowPositionMap.contains_eq_true, RowPositionMap.position_of]
      exact ⟨fun h r ⟨(b, o), hp⟩ => h r b o hp, fun h r b o hp => h r ⟨(b, o), hp⟩⟩
    rw [hkeys]
    exact ⟨fun h => ⟨h.1, h.2⟩, fun h => ⟨h.1, h.2⟩⟩)

/-! ## Where the rows are -/

/-- Every live row is in the list of the tick, but for some old ones. -/
def ListedBut (old : RowId → Prop) (tick : Tick) (t : VersionedTable) : Prop :=
  ∀ r b, batch_of t r = some b → b < (t.batches tick).length ∨ old r

variable {reg : TypeRegistry} {schema : Schema} {pk_name : Option String} {tick : Tick}
  {t t' : VersionedTable} {rows : Rows} {ds : List Diff}

omit [Render] in
theorem replaced_entry_lt {rows : List JsonMap} {r : RowId} {b o : Nat}
    (h : replaced_entry pk_name rows r = some (b, o)) : b < rows.length := by
  obtain ⟨-, row, hrow, -⟩ := replaced_entry_some h
  exact (List.getElem?_eq_some_iff.1 hrow).1

/-- An insert is listed, and a delete or a replace takes its rows off the old ones. -/
theorem ListedBut.step {old : RowId → Prop} {d : Diff} (h : ListedBut old tick t)
    (hd : apply_to_table reg tick d t = (.ok (), t')) :
    ListedBut (fun r => old r ∧ ¬ Clears r d) tick t' := by
  obtain ⟨hcount, hentry, -⟩ := booked_step hd
  intro r b hb
  rw [batch_of, hentry r, Option.map_eq_some_iff] at hb
  obtain ⟨⟨b, o⟩, hb, rfl⟩ := hb
  rw [hcount]
  have hold : t.position_map.position_of r = some (b, o) → b < (t.batches tick).length ∨ old r :=
    fun hp => h r b (by rw [batch_of, hp, Option.map_some])
  cases d with
  | Update name row column value => exact (hold hb).imp_right fun ho => ⟨ho, id⟩
  | Insert name row values =>
      simp only [entry_move, count_move] at hb ⊢
      split at hb
      · obtain ⟨rfl, -⟩ := Prod.mk.inj (Option.some.inj hb)
        exact .inl (Nat.lt_succ_self _)
      · exact (hold hb).imp (fun hlt => Nat.lt_succ_of_lt hlt) fun ho => ⟨ho, id⟩
  | Delete name row =>
      simp only [entry_move, count_move] at hb ⊢
      split at hb
      · cases hb
      · rename_i hne
        exact (hold hb).imp_right fun ho => ⟨ho, hne⟩
  | ReplaceTable name rows => exact .inl (replaced_entry_lt hb)

theorem ListedBut.run {old : RowId → Prop} (h : ListedBut old tick t)
    (hrun : ArrowStore.run_table reg tick t ds = (.ok (), t')) :
    ListedBut (fun r => old r ∧ ∀ d ∈ ds, ¬ Clears r d) tick t' := by
  induction ds generalizing t old with
  | nil =>
      obtain rfl : t = t' := by simpa [ArrowStore.run_table] using hrun
      exact fun r b hb => (h r b hb).imp_right fun ho => ⟨ho, by simp⟩
  | cons d ds ih =>
      obtain ⟨mid, hd, hds⟩ := forEach_cons_ok.1 hrun
      intro r b hb
      obtain hlt | ⟨⟨ho, hclear⟩, hrest⟩ := ih (h.step hd) hds r b hb
      · exact .inl hlt
      · exact .inr ⟨ho, by simpa using ⟨hclear, hrest⟩⟩

/-! ## What the rows are -/

/-- The table is of this schema and key, and tidy. -/
structure InShape (reg : TypeRegistry) (schema : Schema) (pk_name : Option String) (tick : Tick)
    (t : VersionedTable) : Prop where
  tidy : Tidy schema tick t
  spec : t.spec.isSome
  schema_eq : table_schema reg t = schema
  pk_eq : pk_col_name t = pk_name

theorem InShape.step {d : Diff} (h : InShape reg schema pk_name tick t)
    (hd : apply_to_table reg tick d t = (.ok (), t')) : InShape reg schema pk_name tick t' := by
  have hspec : t'.spec = t.spec := by
    simpa only [hd] using (apply_to_table_setup reg tick d t).spec
  refine ⟨h.tidy.step (Nat.le_refl _) h.spec h.schema_eq hd, hspec ▸ h.spec, ?_, ?_⟩
  · rw [table_schema, hspec]
    exact h.schema_eq
  · rw [pk_col_name, hspec]
    exact h.pk_eq

theorem InShape.stores {d : Diff} (h : InShape reg schema pk_name tick t) (hrows : StoresRows t rows)
    (hfresh : FreshInsert tick t d) (hd : apply_to_table reg tick d t = (.ok (), t')) :
    StoresRows t' (keyed_step schema pk_name rows d) := by
  have hstep := hrows.step h.tidy (Nat.le_refl _) h.spec h.schema_eq hfresh hd
  rwa [h.pk_eq] at hstep

omit [Render] in
/-- With every row in the list of the tick, an insert is given an index of its own. -/
theorem ListedBut.fresh (h : ListedBut (fun _ => False) tick t) (d : Diff) :
    FreshInsert tick t d := by
  cases d with
  | Insert name row values =>
      intro r hb
      exact absurd ((h r _ hb).resolve_right id) (Nat.lt_irrefl _)
  | Update name row column value => trivial
  | Delete name row => trivial
  | ReplaceTable name rows => trivial

/-- Diffs of a table whose rows are all in the list of the tick. -/
theorem InShape.stores_listed (h : InShape reg schema pk_name tick t) (hrows : StoresRows t rows)
    (hlisted : ListedBut (fun _ => False) tick t)
    (hrun : ArrowStore.run_table reg tick t ds = (.ok (), t')) :
    StoresRows t' (ds.foldl (keyed_step schema pk_name) rows) := by
  refine (forEach_simulates (G := fun _ _ => True)
    (R := fun t rows => InShape reg schema pk_name tick t
      ∧ ListedBut (fun _ => False) tick t ∧ StoresRows t rows) ?_ ⟨h, hlisted, hrows⟩
    (guarded_true t ds) hrun).2.2
  rintro t rows d t' ⟨h, hlisted, hrows⟩ - hd
  refine ⟨h.step hd, fun r b hb => ?_, h.stores hrows (hlisted.fresh d) hd⟩
  exact (hlisted.step hd r b hb).imp_right And.left

/-- Diffs that replace the table: what comes before the replace does not matter. -/
theorem InShape.stores_replaced (h : InShape reg schema pk_name tick t)
    (hreplaces : ∃ d ∈ ds, Replaces d)
    (hrun : ArrowStore.run_table reg tick t ds = (.ok (), t')) :
    StoresRows t' (ds.foldl (keyed_step schema pk_name) rows) := by
  induction ds generalizing t rows with
  | nil => simp at hreplaces
  | cons d ds ih =>
      obtain ⟨mid, hd, hds⟩ := forEach_cons_ok.1 hrun
      have hmid := h.step hd
      rw [List.foldl_cons]
      by_cases hrest : ∃ d ∈ ds, Replaces d
      · exact ih hmid hrest hds
      · -- `d` is the last replace
        obtain ⟨d', hd', hreplace⟩ := hreplaces
        obtain rfl : d' = d := (List.mem_cons.1 hd').resolve_right fun hin =>
          hrest ⟨d', hin, hreplace⟩
        cases d' with
        | ReplaceTable name new =>
            have hstored := StoresRows.replace h.tidy (Nat.le_refl _) h.spec h.schema_eq hd
            rw [h.pk_eq] at hstored
            have hlisted : ListedBut (fun _ => False) tick mid := by
              have hall : ListedBut (fun _ => True) tick t := fun r b _ => .inr trivial
              exact fun r b hb => (hall.step hd r b hb).imp_right fun hno => hno.2 trivial
            exact hmid.stores_listed hstored hlisted hds
        | Update name row column value => exact absurd hreplace id
        | Insert name row values => exact absurd hreplace id
        | Delete name row => exact absurd hreplace id

/-- Diffs that renew the table store its rows, all of them in the list of the tick. -/
theorem Renews.run (hrenews : Renews reg tick t ds) (h : InShape reg schema pk_name tick t)
    (hrows : StoresRows t rows) (hrun : ArrowStore.run_table reg tick t ds = (.ok (), t')) :
    InShape reg schema pk_name tick t' ∧ StoresRows t' (ds.foldl (keyed_step schema pk_name) rows)
      ∧ ListedBut (fun _ => False) tick t' := by
  refine ⟨?_, ?_, ?_⟩
  · exact forEach_ok_invariant (P := InShape reg schema pk_name tick)
      (fun _ _ _ _ h hd => h.step hd) h hrun
  · rcases hrenews.fresh with hreplaces | hfresh
    · exact h.stores_replaced hreplaces hrun
    · refine (forEach_simulates
        (R := fun t rows => InShape reg schema pk_name tick t ∧ StoresRows t rows) ?_ ⟨h, hrows⟩
        hfresh hrun).2
      rintro t rows d t' ⟨h, hrows⟩ hfresh hd
      exact ⟨h.step hd, h.stores hrows hfresh hd⟩
  · have hold : ListedBut (fun r => t.position_map.contains r) tick t := by
      intro r b hb
      right
      obtain ⟨p, hp, -⟩ := Option.map_eq_some_iff.1 hb
      exact (RowPositionMap.contains_eq_true _ _).2 ⟨p, hp⟩
    intro r b hb
    refine (hold.run hrun r b hb).imp_right fun ⟨hlive, hkept⟩ => ?_
    obtain ⟨d, hd, hclears⟩ := hrenews.cleared r hlive
    exact hkept d hd hclears

/-! ## What is shown -/

/-- The batches, read through the position map, are exactly these rows. -/
def Exposes (batches : List RecordBatch) (position_map : RowPositionMap) (rows : Rows) : Prop :=
  ∀ r, position_map.contains r = (rows r).isSome
    ∧ ∀ b o, position_map.position_of r = some (b, o) → ∃ batch, batches[b]? = some batch
      ∧ o < batch.row_count ∧ rows r = some (batch.row o)

omit [Render] in
theorem exposes_of_listed (hshape : Tidy schema tick t) (hrows : StoresRows t rows)
    (hlisted : ListedBut (fun _ => False) tick t) :
    Exposes (t.batches tick) t.position_map rows := by
  intro r
  refine ⟨?_, fun b o hp => ?_⟩
  · rw [hrows.isSome_eq r, RowPositionMap.contains_eq_isSome, batch_of, Option.isSome_map]
  have hat : batch_of t r = some b := by rw [batch_of, hp, Option.map_some]
  obtain rfl := hshape.offset r b o hp
  have hlt := (hlisted r b hat).resolve_right id
  obtain ⟨batch, hb⟩ : ∃ batch, (t.batches tick)[b]? = some batch :=
    ⟨_, List.getElem?_eq_getElem hlt⟩
  have hv := VersionedTable.versions_of_lt hlt
  obtain ⟨-, hone, -⟩ := hshape.listed (List.mem_of_getElem? hb)
  obtain ⟨row, hread, hrow⟩ := hrows.live r b hat
  rw [read_row_latest hv hshape.ticks _ hb, if_pos (by omega)] at hread
  exact ⟨batch, hb, by omega, by rw [hrow, ← hread]⟩

/-! ## The store -/

/-- Every table is renewed. -/
def RenewsTables (tick : Tick) (s : ArrowStore) (ds : List Diff) : Prop :=
  ∀ (n : String) (lock : RwLock VersionedTable), s.tables[n]? = some lock →
    Renews s.type_registry.data tick lock.data (ArrowStore.diffs_of n ds)

instance (tick : Tick) (s : ArrowStore) (ds : List Diff) : Decidable (RenewsTables tick s ds) :=
  decidable_of_iff (∀ e ∈ s.tables.toList,
      Renews s.type_registry.data tick e.2.data (ArrowStore.diffs_of e.1 ds)) (by
    simp only [RenewsTables, Prod.forall, Std.ExtTreeMap.mem_toList_iff_getElem?_eq_some])

/-- The diffs of a commit, table by table. -/
theorem world_step_table (cat : Catalog) (w : World) (ds : List Diff) (n : String) :
    ds.foldl (world_step cat) w n
      = (ArrowStore.diffs_of n ds).foldl (keyed_step (cat n).1 (cat n).2) (w n) := by
  induction ds generalizing w with
  | nil => rfl
  | cons d ds ih =>
      rw [List.foldl_cons, ih, ArrowStore.diffs_of_cons]
      by_cases hn : d.table = n
      · subst hn
        rw [if_pos rfl, List.foldl_cons, world_step, Function.update_self]
      · rw [if_neg hn, world_step, Function.update_of_ne (Ne.symm hn)]

/-- The store after commits that renew its tables: the world, in the lists of the
tick. -/
structure Renewed (cat : Catalog) (tick : Tick) (s : ArrowStore) (w : World) : Prop where
  shaped : Shaped cat tick s
  holds : Holds s w
  listed : ∀ (n : String) (lock : RwLock VersionedTable), s.tables[n]? = some lock →
    ListedBut (fun _ => False) tick lock.data

theorem renewed_of_apply_diffs {cat : Catalog} {s s' : ArrowStore} {w : World}
    (hshape : Shaped cat tick s) (hholds : Holds s w) (hrenews : RenewsTables tick s ds)
    (hrun : s.apply_diffs tick ds = (.ok (), s')) :
    Renewed cat tick s' (ds.foldl (world_step cat) w) := by
  obtain ⟨-, -, hloop⟩ := ArrowStore.apply_diffs_ok.1 hrun
  obtain ⟨hsame, htables⟩ := ArrowStore.forEach_apply_diff_ok hloop
  have htable : ∀ (n : String) (lock' : RwLock VersionedTable), s'.tables[n]? = some lock' →
      StoresRows lock'.data (ds.foldl (world_step cat) w n)
        ∧ ListedBut (fun _ => False) tick lock'.data := by
    intro n lock' hn'
    rcases hn : s.tables[n]? with _ | lock
    · rw [((htables n).1 hn).1] at hn'
      cases hn'
    obtain ⟨t', ht', hruns, -⟩ := (htables n).2 lock hn
    obtain rfl := Option.some.inj (ht'.symm.trans hn')
    obtain ⟨hspec, htidy⟩ := hshape.tidy n lock hn
    have hcat := ArrowStore.catalog_of_some hn
    rw [hshape.catalog] at hcat
    have hin : InShape s.type_registry.data (cat n).1 (cat n).2 tick lock.data :=
      ⟨htidy, hspec, (congrArg Prod.fst hcat).symm, (congrArg Prod.snd hcat).symm⟩
    obtain ⟨-, hrows, hlisted⟩ := (hrenews n lock hn).run hin (hholds n lock hn) hruns
    rw [world_step_table]
    exact ⟨hrows, hlisted⟩
  exact ⟨hshape.apply_diffs (Nat.le_refl _) hloop, fun n lock' hn => (htable n lock' hn).1,
    fun n lock' hn => (htable n lock' hn).2⟩

end Renewal

/-! ## Commits of a journal -/

namespace Journal

section Commits

variable [Render] {Q J : Type} {ingestor : SnapshotIngestor Q} {saver : SaveJournal J}
  {j j' : Journal Q J}

/-- A batch submitted and committed. -/
def commit_batch (ingestor : SnapshotIngestor Q) (saver : SaveJournal J) (j : Journal Q J)
    (diffs : List Diff) : JournalResult Unit × Journal Q J :=
  match j.submit_batch diffs with
  | (.error e, j) => (.error e, j)
  | (.ok (), j) => ((j.commit ingestor saver).1.map fun _ => (), (j.commit ingestor saver).2)

/-- A journal over created tables, before its first commit. -/
structure Started (j : Journal Q J) : Prop where
  phase : j.phase = .Open
  pending : j.pending_diffs = []
  current_tick : j.current_tick = Tick.ZERO
  created : j.arrow_store.Created

omit [Render] in
theorem started_new {s : ArrowStore} (h : s.Created) : Started (new s : Journal Q J) :=
  ⟨rfl, rfl, rfl, h⟩

omit [Render] in
theorem Started.attach (h : Started j) (sj : J) (q : Q) :
    Started (j.with_save_journal sj) ∧ Started (j.with_query_engine q) :=
  ⟨⟨h.1, h.2, h.3, h.4⟩, ⟨h.1, h.2, h.3, h.4⟩⟩

/-- The journal between two commits of a run. -/
structure Between (cat : Catalog) (count : Nat) (j : Journal Q J) (w : World) : Prop where
  phase : j.phase = .Open
  pending : j.pending_diffs = []
  current_tick : j.current_tick = min count Tick.MAX
  shaped : Shaped cat j.current_tick j.arrow_store
  holds : Holds j.arrow_store w

omit [Render] in
theorem Started.between (h : Started j) :
    Between j.arrow_store.catalog 0 j fun _ _ => none :=
  ⟨h.phase, h.pending, h.current_tick.trans (Nat.zero_min _).symm, h.created.shaped _,
    h.created.holds⟩

/-- What a commit has published: the snapshot of its tick, which shows these rows. -/
structure Published (j : Journal Q J) (tick : Tick) (w : World) : Prop where
  snapshot : ∃ snapshot, j.arrow_store.get_snapshot tick = .ok snapshot ∧ snapshot.tick = tick
    ∧ ∀ (n : String) (lock : RwLock VersionedTable), j.arrow_store.tables[n]? = some lock →
        snapshot.table_batches n = .ok (lock.data.batches tick)
  batches : ∀ (n : String) (lock : RwLock VersionedTable), j.arrow_store.tables[n]? = some lock →
    j.arrow_store.get_table_batches n tick = .ok (lock.data.batches tick)
  exposes : ∀ (n : String) (lock : RwLock VersionedTable), j.arrow_store.tables[n]? = some lock →
    Exposes (lock.data.batches tick) lock.data.position_map (w n)

/-- One commit that renews its tables. -/
theorem Between.commit_batch {cat : Catalog} {count : Nat} {w : World} {ds : List Diff}
    (h : Between cat count j w) (hrenews : RenewsTables j.current_tick j.arrow_store ds)
    (hcommit : j.commit_batch ingestor saver ds = (.ok (), j')) :
    Between cat (count + 1) j' (ds.foldl (world_step cat) w)
      ∧ Published j' (min count Tick.MAX) (ds.foldl (world_step cat) w) := by
  rw [Journal.commit_batch, submit_batch_open h.phase, h.pending, List.nil_append] at hcommit
  simp only at hcommit
  rcases hc : commit ingestor saver { j with pending_diffs := ds } with ⟨e | result, j₁⟩
  · simp [hc, Except.map] at hcommit
  obtain rfl : j₁ = j' := by simpa [hc, Except.map] using hcommit
  -- the commit taken apart: its diffs, the snapshot of its tick, and the delivery
  obtain ⟨saved, mid, s, snapshot, state_hash, happlies⟩ := commit_ok hc
  rw [happlies.commit] at hc
  obtain ⟨-, q, sj, rfl⟩ := deliver_ok hc
  obtain ⟨-, hdo⟩ := ArrowStore.generate_snapshot_ok.1 happlies.snapshot
  have hhealthy := ArrowStore.do_generate_snapshot_healthy hdo
  obtain ⟨htick, hsnapshot, rfl⟩ := ArrowStore.do_generate_snapshot_ok hdo
  obtain ⟨hshape, hholds, hlisted⟩ :=
    renewed_of_apply_diffs h.shaped h.holds hrenews happlies.diffs
  have hle : j.current_tick ≤ j.current_tick.next := by
    refine Tick.le_next ?_
    rw [h.current_tick]
    exact Nat.min_le_right _ _
  rw [← h.current_tick]
  refine ⟨⟨rfl, rfl, ?_, ?_, hholds⟩, ⟨⟨snapshot, ?_, htick, fun n lock hn => ?_⟩,
    fun n lock hn => ?_, fun n lock hn => ?_⟩⟩
  · rw [← Tick.next_min, ← h.current_tick]
    rfl
  · exact Shaped.mono ⟨hshape.catalog, hshape.tidy⟩ hle
  · simp [finish, applied, ArrowStore.get_snapshot]
  · rw [WorldSnapshot.table_batches, WorldSnapshot.get_table, hsnapshot n]
    simp only [finish, applied] at hn
    rw [hn, htick]
    rfl
  · rw [ArrowStore.get_table_batches_eq, hn, Option.elim_some, hhealthy n lock hn]
    rfl
  · exact exposes_of_listed (hshape.tidy n lock hn).2 (hholds n lock hn) (hlisted n lock hn)

/-- A commit of a run renews the tables it finds. -/
def RenewsCommit (j : Journal Q J) (ds : List Diff) : Prop :=
  RenewsTables j.current_tick j.arrow_store ds

instance (j : Journal Q J) (ds : List Diff) : Decidable (RenewsCommit j ds) :=
  inferInstanceAs (Decidable (RenewsTables j.current_tick j.arrow_store ds))

/-- The last commit of a run of commits that renew their tables. -/
theorem Between.published {cat : Catalog} {count : Nat} {w : World} {dss : List (List Diff)}
    {ds : List Diff} (h : Between cat count j w)
    (hrenews : Guarded (Journal.commit_batch ingestor saver) RenewsCommit j (dss ++ [ds]))
    (hrun : forEach (Journal.commit_batch ingestor saver) j (dss ++ [ds]) = (.ok (), j')) :
    Published j' (min (count + dss.length) Tick.MAX)
      ((dss ++ [ds]).flatten.foldl (world_step cat) w) := by
  induction dss generalizing j w count with
  | nil =>
      obtain ⟨mid, hds, hmid⟩ := forEach_cons_ok.1 hrun
      obtain rfl : mid = j' := by simpa using hmid
      simpa using (h.commit_batch hrenews.1 hds).2
  | cons first dss ih =>
      obtain ⟨mid, hfirst, hrest⟩ := forEach_cons_ok.1 hrun
      have hlast := ih (h.commit_batch hrenews.1 hfirst).1 (hrenews.2 mid hfirst) hrest
      rw [Nat.add_right_comm, Nat.add_assoc] at hlast
      rw [List.cons_append, List.flatten_cons, List.foldl_append, List.length_cons]
      exact hlast

/-- If every commit of a run renews its tables, each publishes all the rows that are live
after it, with their values, and every entry of the position map leads to a row. -/
theorem published_complete {dss : List (List Diff)} {ds : List Diff} (hstarted : Started j)
    (hrenews : Guarded (Journal.commit_batch ingestor saver) RenewsCommit j (dss ++ [ds]))
    (hrun : forEach (Journal.commit_batch ingestor saver) j (dss ++ [ds]) = (.ok (), j')) :
    Published j' (min dss.length Tick.MAX)
      ((dss ++ [ds]).flatten.foldl (world_step j.arrow_store.catalog) fun _ _ => none) := by
  simpa using hstarted.between.published hrenews hrun

end Commits

/-! ## A run of each kind -/

section Items

attribute [local instance] plain_text QueryEngine.no_merge

def items_batches (batches : List (List Diff)) :
    JournalResult Unit × Journal QueryEngine (List CommitRecord) :=
  forEach (commit_batch QueryEngine.ingestor InMemorySaveJournal) (items_journal items_store [])
    batches

/-- Rows inserted at one tick, and deleted at the next as others come. -/
def renewing_batches : List (List Diff) :=
  [[.Insert "items" 1 (item 1 10), .Insert "items" 2 (item 2 20)],
    [.Delete "items" 1, .Delete "items" 2, .Insert "items" 3 (item 3 30)]]

/-- The table replaced. -/
def renewing_batch : List Diff := [.ReplaceTable "items" [item 4 40, item 5 50]]

theorem renewing_published :
    Published (items_batches (renewing_batches ++ [renewing_batch])).2
      (min renewing_batches.length Tick.MAX)
      ((renewing_batches ++ [renewing_batch]).flatten.foldl
        (world_step (items_journal items_store []).arrow_store.catalog) fun _ _ => none) := by
  have hrun : (items_batches (renewing_batches ++ [renewing_batch])).1 = .ok () := by
    decide +kernel
  have hrenews : Guarded (commit_batch QueryEngine.ingestor InMemorySaveJournal) RenewsCommit
      (items_journal items_store []) (renewing_batches ++ [renewing_batch]) := by decide +kernel
  exact published_complete (started_new items_store_created) hrenews (eq_of_verdict hrun)

/-- A row inserted at tick 0 is live after tick 1, and the position map of tick 1 sends
its readers to the first of no batches. -/
theorem quiet_tick_published :
    let batches := [[.Insert "items" 1 (item 1 10)], []]
    let j := (items_batches batches).2
    (items_batches batches).1 = .ok ()
      ∧ (j.arrow_store.get_snapshot 1).bind (·.table_batches "items") = .ok []
      ∧ j.arrow_store.get_table_batches "items" 1 = .ok []
      ∧ (items_table j.arrow_store).position_map.position_of 1 = some (0, 0)
      ∧ (batches.flatten.foldl (world_step items_store.catalog) fun _ _ => none) "items" 1
        = some [.UInt64 1, .Int64 10] :=
  ⟨by decide +kernel, by decide +kernel, by decide +kernel, by decide +kernel, by decide +kernel⟩

end Items

end Journal

end Scharnhorst
