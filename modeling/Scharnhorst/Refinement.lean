/-
Runs of commits, and the keyed tables they compute.

A world is a keyed table per name. `apply_commit` is one call of `apply_diffs` with
its tick, a run is a list of them, and the theorem at the end says that the store a
run leaves is the world its diffs describe: the same rows are live, each resolves to
its own values, and an update or a delete reaches its own row only.

The condition is on the run, insert by insert: none is given a batch index that a
live row has. It is needed. `items_aliased` is the smallest run without it, two
inserts at two ticks, after which updating the first row rewrites the second.
-/
import Scharnhorst.Keyed

set_option autoImplicit false

namespace Scharnhorst

open Attempt Maps Addressing

/-! ## Worlds -/

/-- The rows of every table. -/
abbrev World := String → Rows

/-- What a world has to know of a table: its schema and its key column. -/
abbrev Catalog := String → Schema × Option String

namespace ArrowStore

/-- The catalog of a store whose tables have specs. -/
def catalog (s : ArrowStore) : Catalog := fun n =>
  s.tables[n]?.elim ({ fields := [] }, none) fun lock =>
    (table_schema s.type_registry.data lock.data, pk_col_name lock.data)

theorem catalog_of_some {s : ArrowStore} {n : String} {lock : RwLock VersionedTable}
    (h : s.tables[n]? = some lock) :
    s.catalog n = (table_schema s.type_registry.data lock.data, pk_col_name lock.data) := by
  simp [catalog, h]

/-- Every table is as `create_table` leaves it, as far as diffs can tell. -/
def Created (s : ArrowStore) : Prop :=
  ∀ (n : String) (lock : RwLock VersionedTable), s.tables[n]? = some lock →
    lock.data.spec.isSome ∧ lock.data.versions = ∅ ∧ lock.data.position_map = .new

theorem created_new : Created .new := by
  intro n lock h
  simp [new] at h

theorem Created.create_table {s s' : ArrowStore} {spec : TableSpec} {mode : MutationMode}
    {id : TableId} (hs : s.Created) (h : s.create_table spec mode = (.ok id, s')) :
    s'.Created := by
  obtain ⟨-, rfl⟩ := ArrowStore.create_table_ok h
  intro n lock hlock
  simp only [ArrowStore.with_created_tables, Std.ExtTreeMap.getElem?_insert] at hlock
  split at hlock
  · obtain rfl : _ = lock := by simpa using hlock
    exact ⟨rfl, rfl, rfl⟩
  · exact hs n lock hlock

theorem Created.into_simulation {s s' : ArrowStore} {r : ArrowStoreResult Unit} (hs : s.Created)
    (h : s.into_simulation = (r, s')) : s'.Created := by
  unfold ArrowStore.into_simulation at h
  split at h
  · obtain ⟨-, rfl⟩ := Prod.mk.inj h
    exact hs
  · split at h <;> obtain ⟨-, rfl⟩ := Prod.mk.inj h <;> exact hs

end ArrowStore

section Runs

variable [Render]

/-- What a diff does to a world. -/
def world_step (cat : Catalog) (w : World) (d : Diff) : World :=
  Function.update w d.table (keyed_step (cat d.table).1 (cat d.table).2 (w d.table) d)

/-- One call of `apply_diffs`, as a step of a run. -/
def apply_commit (s : ArrowStore) (c : Tick × List Diff) : ArrowStoreResult Unit × ArrowStore :=
  s.apply_diffs c.1 c.2

/-- The world a run of commits describes. -/
def world_run (cat : Catalog) (w : World) (cs : List (Tick × List Diff)) : World :=
  cs.foldl (fun w c => c.2.foldl (world_step cat) w) w

/-! ## What a run preserves without any condition -/

/-- The tables are the catalog's, and tidy. -/
structure Shaped (cat : Catalog) (last : Tick) (s : ArrowStore) : Prop where
  catalog : s.catalog = cat
  tidy : ∀ (n : String) (lock : RwLock VersionedTable), s.tables[n]? = some lock →
    lock.data.spec.isSome ∧ Tidy (cat n).1 last lock.data

omit [Render] in
theorem Shaped.mono {cat : Catalog} {last tick : Tick} {s : ArrowStore} (h : Shaped cat last s)
    (hl : last ≤ tick) : Shaped cat tick s :=
  ⟨h.catalog, fun n lock hn => ⟨(h.tidy n lock hn).1, (h.tidy n lock hn).2.mono hl⟩⟩

omit [Render] in
theorem ArrowStore.Created.shaped {s : ArrowStore} (h : s.Created) (last : Tick) :
    Shaped s.catalog last s := by
  refine ⟨rfl, fun n lock hn => ?_⟩
  obtain ⟨hspec, hv, hpm⟩ := h n lock hn
  exact ⟨hspec, by simp [hv], by simp [hv], by simp [hpm]⟩

/-- A diff leaves the specs alone, so the catalog too. -/
theorem catalog_apply_diff {tick : Tick} {s s' : ArrowStore} {d : Diff}
    (h : ArrowStore.apply_diff tick s d = (.ok (), s')) : s'.catalog = s.catalog := by
  obtain ⟨lock, t', hlock, -, hrun, rfl⟩ := ArrowStore.apply_diff_ok h
  have hspec : t'.spec = lock.data.spec := by
    simpa only [hrun] using (apply_to_table_setup s.type_registry.data tick d lock.data).spec
  funext n
  by_cases hn : d.table = n
  · subst hn
    simp [ArrowStore.catalog, hlock, RwLock.new, table_schema, pk_col_name, hspec]
  · simp [ArrowStore.catalog, hn]

theorem Shaped.apply_diff {cat : Catalog} {last tick : Tick} {s s' : ArrowStore} {d : Diff}
    (h : Shaped cat last s) (hl : last ≤ tick)
    (hd : ArrowStore.apply_diff tick s d = (.ok (), s')) : Shaped cat tick s' := by
  have hcat := (catalog_apply_diff hd).trans h.catalog
  obtain ⟨lock, t', hlock, -, hrun, rfl⟩ := ArrowStore.apply_diff_ok hd
  refine ⟨hcat, fun n lock' hn => ?_⟩
  rw [ArrowStore.tables_set_table] at hn
  split at hn
  · rename_i heq
    subst heq
    obtain rfl : _ = lock' := by simpa using hn
    obtain ⟨hspec, htidy⟩ := h.tidy _ lock hlock
    have hsame : t'.spec = lock.data.spec := by
      simpa only [hrun] using (apply_to_table_setup s.type_registry.data tick d lock.data).spec
    have hschema : table_schema s.type_registry.data lock.data = (cat d.table).1 := by
      rw [← h.catalog, ArrowStore.catalog_of_some hlock]
    exact ⟨hsame ▸ hspec, htidy.step hl hspec hschema hrun⟩
  · exact (h.mono hl).tidy n lock' hn

theorem Shaped.apply_diffs {cat : Catalog} {last tick : Tick} {s s' : ArrowStore}
    {ds : List Diff} (h : Shaped cat last s) (hl : last ≤ tick)
    (hrun : forEach (ArrowStore.apply_diff tick) s ds = (.ok (), s')) : Shaped cat tick s' :=
  forEach_ok_invariant (fun _ _ _ _ hP hd => hP.apply_diff (Nat.le_refl tick) hd) (h.mono hl) hrun

/-! ## What needs the condition -/

/-- The store holds the world. -/
def Holds (s : ArrowStore) (w : World) : Prop :=
  ∀ (n : String) (lock : RwLock VersionedTable), s.tables[n]? = some lock →
    StoresRows lock.data (w n)

omit [Render] in
theorem ArrowStore.Created.holds {s : ArrowStore} (h : s.Created) : Holds s fun _ _ => none := by
  intro n lock hn
  obtain ⟨-, -, hpm⟩ := h n lock hn
  have hat : batch_of lock.data = fun _ => none := by
    funext r
    simp [batch_of, hpm]
  rw [StoresRows, hat]
  exact .empty _

/-- The diff, if it is an insert, is given a batch index that no live row has. -/
def FreshDiff (tick : Tick) (s : ArrowStore) (d : Diff) : Prop :=
  ∀ lock, s.tables[d.table]? = some lock → FreshInsert tick lock.data d

/-- Every insert of the commit is, in the state it is applied in. -/
def FreshCommit (s : ArrowStore) (c : Tick × List Diff) : Prop :=
  Guarded (ArrowStore.apply_diff c.1) (FreshDiff c.1) s c.2

instance (tick : Tick) (s : ArrowStore) (d : Diff) : Decidable (FreshDiff tick s d) :=
  match h : s.tables[d.table]? with
  | none => .isTrue (by simp [FreshDiff, h])
  | some lock => decidable_of_iff (FreshInsert tick lock.data d) (by simp [FreshDiff, h])

instance (s : ArrowStore) (c : Tick × List Diff) : Decidable (FreshCommit s c) :=
  Guarded.decidable s c.2

theorem Holds.apply_diff {cat : Catalog} {last tick : Tick} {s s' : ArrowStore} {w : World}
    {d : Diff} (h : Holds s w) (hshape : Shaped cat last s) (hl : last ≤ tick)
    (hfresh : FreshDiff tick s d) (hd : ArrowStore.apply_diff tick s d = (.ok (), s')) :
    Holds s' (world_step cat w d) := by
  obtain ⟨lock, t', hlock, -, hrun, rfl⟩ := ArrowStore.apply_diff_ok hd
  intro n lock' hn
  rw [ArrowStore.tables_set_table] at hn
  split at hn
  · rename_i heq
    subst heq
    obtain rfl : _ = lock' := by simpa using hn
    obtain ⟨hspec, htidy⟩ := hshape.tidy _ lock hlock
    have hcat : cat d.table = (table_schema s.type_registry.data lock.data, pk_col_name lock.data) := by
      rw [← hshape.catalog, ArrowStore.catalog_of_some hlock]
    rw [world_step, Function.update_self, hcat]
    have hschema := congrArg Prod.fst hcat
    exact (h _ lock hlock).step (hschema ▸ htidy) hl hspec rfl (hfresh lock hlock) hrun
  · rename_i hne
    rw [world_step, Function.update_of_ne (Ne.symm hne)]
    exact h n lock' hn

/-- One commit. -/
theorem Holds.apply_commit {cat : Catalog} {last : Tick} {s s' : ArrowStore} {w : World}
    {c : Tick × List Diff} (h : Holds s w) (hshape : Shaped cat last s) (hl : last ≤ c.1)
    (hfresh : FreshCommit s c) (hc : Scharnhorst.apply_commit s c = (.ok (), s')) :
    Shaped cat c.1 s' ∧ Holds s' (c.2.foldl (world_step cat) w) := by
  obtain ⟨-, -, hrun⟩ := ArrowStore.apply_diffs_ok.1 hc
  refine forEach_simulates (R := fun s w => Shaped cat c.1 s ∧ Holds s w) ?_
    ⟨hshape.mono hl, h⟩ hfresh hrun
  rintro s w d s' ⟨hshape, hholds⟩ hd hok
  exact ⟨hshape.apply_diff (Nat.le_refl _) hok, hholds.apply_diff hshape (Nat.le_refl _) hd hok⟩

/-- A run of commits at ticks that do not go back. -/
theorem Holds.run {cat : Catalog} {last : Tick} {s s' : ArrowStore} {w : World}
    {cs : List (Tick × List Diff)} (h : Holds s w) (hshape : Shaped cat last s)
    (hticks : (cs.map Prod.fst).Pairwise (· ≤ ·)) (hl : ∀ c ∈ cs, last ≤ c.1)
    (hfresh : Guarded Scharnhorst.apply_commit FreshCommit s cs)
    (hrun : forEach Scharnhorst.apply_commit s cs = (.ok (), s')) :
    (∃ last', Shaped cat last' s' ∧ ∀ tick, last ≤ tick → (∀ c ∈ cs, c.1 ≤ tick) → last' ≤ tick)
      ∧ Holds s' (world_run cat w cs) := by
  induction cs generalizing s w last with
  | nil =>
      obtain rfl : s = s' := by simpa using hrun
      exact ⟨⟨last, hshape, fun _ hl _ => hl⟩, h⟩
  | cons c cs ih =>
      obtain ⟨mid, hc, hcs⟩ := forEach_cons_ok.1 hrun
      obtain ⟨hshape', hholds'⟩ := h.apply_commit hshape (hl c List.mem_cons_self) hfresh.1 hc
      rw [List.map_cons, List.pairwise_cons] at hticks
      obtain ⟨⟨last', hshape'', hle⟩, hholds''⟩ := ih hholds' hshape' hticks.2
        (fun c' hc' => hticks.1 c'.1 (List.mem_map_of_mem hc')) (hfresh.2 mid hc) hcs
      exact ⟨⟨last', hshape'', fun tick _ hmax => hle tick (hmax c List.mem_cons_self)
        fun c' hc' => hmax c' (List.mem_cons_of_mem _ hc')⟩, hholds''⟩

/-! ## The refinement -/

/-- The table, read through its position map, shows exactly these rows. -/
def ShowsRows (t : VersionedTable) (rows : Rows) : Prop :=
  ∀ r, t.position_map.contains r = (rows r).isSome ∧ t.resolve r = rows r

omit [Render] in
/-- In a tidy table the batch index is the whole address. -/
theorem Tidy.resolve {schema : Schema} {last : Tick} {t : VersionedTable} (h : Tidy schema last t)
    (r : RowId) : t.resolve r = (batch_of t r).bind (read_row t.versions) := by
  rcases hloc : t.locate r with _ | ⟨loc, batch⟩
  · rw [VersionedTable.resolve, hloc, Option.map_none]
    rcases VersionedTable.locate_eq_none.1 hloc with hpos | ⟨b, o, hpos, ht | ⟨k, bs, ht, hbs, hb⟩⟩
    · simp [batch_of, hpos]
    · simp [batch_of, hpos, read_row, ht]
    · obtain rfl := h.offset r b o hpos
      rcases hb with hb | ⟨batch, hb, ho⟩
      · simp [batch_of, hpos, read_row, ht, getD_versions hbs, hb]
      · simp [batch_of, hpos, read_row, ht, getD_versions hbs, hb, Nat.eq_zero_of_le_zero ho]
  · obtain ⟨hzero, -, -, -, hat, hread⟩ := h.located hloc
    simp only [VersionedTable.resolve, hloc, Option.map_some, hat, Option.bind_some, hread, hzero]

omit [Render] in
theorem StoresRows.shows {schema : Schema} {last : Tick} {t : VersionedTable} {rows : Rows}
    (h : StoresRows t rows) (hshape : Tidy schema last t) : ShowsRows t rows := by
  intro r
  refine ⟨?_, (hshape.resolve r).trans (h.bind_read r)⟩
  rw [h.isSome_eq r, RowPositionMap.contains_eq_isSome, batch_of, Option.isSome_map]

/-- An update and a delete change their own row only. -/
theorem world_step_other {cat : Catalog} {w : World} {name : String} {row r : RowId}
    (hr : r ≠ row) {d : Diff} (hd : (∃ column value, d = .Update name row column value)
      ∨ d = .Delete name row) : world_step cat w d name r = w name r := by
  obtain ⟨column, value, rfl⟩ | rfl := hd <;>
    simp [world_step, keyed_step, KeyedTable.modify, KeyedTable.delete, Ne.symm hr]

/-- From created tables, a run of commits in which every insert is given a free batch
index computes its world. The last part is the frame: one more update or delete
changes no other row. -/
theorem apply_diffs_refines {s s' : ArrowStore} {cs : List (Tick × List Diff)} (hs : s.Created)
    (hticks : (cs.map Prod.fst).Pairwise (· ≤ ·)) (hfresh : Guarded apply_commit FreshCommit s cs)
    (hrun : forEach apply_commit s cs = (.ok (), s')) :
    (∀ (n : String) (lock : RwLock VersionedTable), s'.tables[n]? = some lock →
      ShowsRows lock.data (world_run s.catalog (fun _ _ => none) cs n))
    ∧ ∀ (tick : Tick) (name : String) (row : RowId) (d : Diff) (s'' : ArrowStore),
        (∀ c ∈ cs, c.1 ≤ tick) →
        ((∃ column value, d = .Update name row column value) ∨ d = .Delete name row) →
        apply_commit s' (tick, [d]) = (.ok (), s'') →
        ∀ (lock lock' : RwLock VersionedTable), s'.tables[name]? = some lock →
          s''.tables[name]? = some lock' → ∀ r ≠ row, lock'.data.resolve r = lock.data.resolve r := by
  obtain ⟨⟨last, hshape, hlast⟩, hholds⟩ :=
    hs.holds.run (hs.shaped 0) hticks (fun _ _ => Nat.zero_le _) hfresh hrun
  have hshows : ∀ (n : String) (lock : RwLock VersionedTable), s'.tables[n]? = some lock →
      ShowsRows lock.data (world_run s.catalog (fun _ _ => none) cs n) :=
    fun n lock hn => (hholds n lock hn).shows (hshape.tidy n lock hn).2
  refine ⟨hshows, ?_⟩
  intro tick name row d s'' hmax hd hok lock lock' hlock hlock' r hr
  have hone : FreshCommit s' (tick, [d]) := by
    refine ⟨fun l _ => ?_, fun _ _ => trivial⟩
    obtain ⟨column, value, rfl⟩ | rfl := hd <;> trivial
  obtain ⟨hshape', hholds'⟩ := hholds.apply_commit hshape
    (hlast tick (Nat.zero_le _) hmax) hone hok
  have hnew := (hholds' name lock' hlock').shows (hshape'.tidy name lock' hlock').2 r
  have hold := hshows name lock hlock r
  rw [hnew.2, hold.2]
  exact world_step_other hr hd

end Runs

/-! ## The condition is needed

One table of items, and rows of numbers. The text of a value is needed only for
scalars. -/

/-- What `serde_json` prints, for scalars and for strings without escapes. -/
@[reducible] def scalar_text : Json → String
  | .null => "null"
  | .bool b => toString b
  | .number (.PosInt v) => toString v.toNat
  | .number (.NegInt v _) => toString v.toInt
  | .string s => "\"" ++ s ++ "\""
  | _ => ""

@[reducible] def row_text (row : JsonMap) : String :=
  let entries := row.toList.map fun e => "\"" ++ e.1 ++ "\":" ++ scalar_text e.2
  "\x7b" ++ ",".intercalate entries ++ "\x7d"

/-- A renderer for rows of scalars. -/
@[reducible] def plain_text : Render where
  value_to_string := scalar_text
  value_debug v :=
    match v with
    | .null => "Null"
    | .bool b => "Bool(" ++ toString b ++ ")"
    | .string s => "String(\"" ++ s ++ "\")"
    | v => "Number(" ++ scalar_text v ++ ")"
  f64_to_string _ := ""
  diff_to_string d :=
    .ok <| match d with
    | .Update table row column value =>
      "\x7b\"Update\":\x7b\"table\":\"" ++ table ++ "\",\"row\":" ++ toString row ++ ",\"column\":\""
        ++ column ++ "\",\"value\":" ++ scalar_text value ++ "\x7d\x7d"
    | .Insert table row values =>
      "\x7b\"Insert\":\x7b\"table\":\"" ++ table ++ "\",\"row\":" ++ toString row ++ ",\"values\":"
        ++ row_text values ++ "\x7d\x7d"
    | .Delete table row =>
      "\x7b\"Delete\":\x7b\"table\":\"" ++ table ++ "\",\"row\":" ++ toString row ++ "\x7d\x7d"
    | .ReplaceTable table rows =>
      "\x7b\"ReplaceTable\":\x7b\"table\":\"" ++ table ++ "\",\"rows\":["
        ++ ",".intercalate (rows.map row_text) ++ "]\x7d\x7d"

def items_spec : TableSpec :=
  { name := "items"
    columns := [.new "id" .Id "u64", .new "qty" .Quantity "i64"]
    column_index := (∅ : Map String Nat).insert "id" 0 |>.insert "qty" 1 }

/-- A store with the table of items, in simulation. -/
def items_store : ArrowStore :=
  (ArrowStore.new.create_table items_spec .Patchable).2.into_simulation.2

theorem items_store_created : items_store.Created := by
  have h : (ArrowStore.new.create_table items_spec .Patchable).1 = .ok 0 := by decide +kernel
  exact (ArrowStore.created_new.create_table (Prod.ext h rfl)).into_simulation rfl

def number (n : UInt64) : Json := .number (.PosInt n)

def item (id qty : UInt64) : JsonMap :=
  (∅ : JsonMap).insert "id" (number id) |>.insert "qty" (number qty)

def items_table (s : ArrowStore) : VersionedTable :=
  (s.tables["items"]?.getD (.new (.new "items" .Patchable))).data

theorem items_table_eq {s : ArrowStore} (h : s.tables["items"]?.isSome) :
    s.tables["items"]? = some ⟨items_table s, (s.tables["items"]?.get h).poisoned⟩ := by
  obtain ⟨lock, hlock⟩ := Option.isSome_iff_exists.1 h
  simp [items_table, hlock]

section Items

attribute [local instance] plain_text

/-- The store after a first commit with one insert. -/
def one_item : ArrowStore := (apply_commit items_store (0, [.Insert "items" 1 (item 1 10)])).2

def set_qty (table : String) : Diff := .Update table 1 "qty" (number 11)

/-- Two inserts at one tick, an update, a delete and a third insert, all at free
indices. -/
def items_run : List (Tick × List Diff) :=
  [(0, [.Insert "items" 1 (item 1 10), .Insert "items" 2 (item 2 20)]),
    (1, [.Update "items" 1 "qty" (number 11)]),
    (1, [.Delete "items" 1, .Insert "items" 3 (item 3 30)])]

theorem items_run_refines :
    ShowsRows (items_table (forEach apply_commit items_store items_run).2)
      (world_run items_store.catalog (fun _ _ => none) items_run "items") := by
  have hok : (forEach apply_commit items_store items_run).1 = .ok () := by decide +kernel
  have htable : (forEach apply_commit items_store items_run).2.tables["items"]?.isSome := by
    decide +kernel
  exact (apply_diffs_refines items_store_created (by decide) (by decide +kernel)
    (eq_of_verdict hok)).1 "items" _ (items_table_eq htable)

/-- Two rows inserted at two ticks. -/
def two_tick_run : List (Tick × List Diff) :=
  [(0, [.Insert "items" 1 (item 1 10)]), (1, [.Insert "items" 2 (item 2 20)])]

/-- Both are at index 0, so both resolve to the second one's cells, and updating the
first rewrites the second. -/
theorem items_aliased :
    let s := (forEach apply_commit items_store two_tick_run).2
    let s' := (apply_commit s (2, [.Update "items" 1 "qty" (number 99)])).2
    items_store.Created ∧ (two_tick_run.map Prod.fst).Pairwise (· ≤ ·)
      ∧ (forEach apply_commit items_store two_tick_run).1 = .ok ()
      ∧ (apply_commit s (2, [.Update "items" 1 "qty" (number 99)])).1 = .ok ()
      ∧ world_run items_store.catalog (fun _ _ => none) two_tick_run "items" 1
        = some [.UInt64 1, .Int64 10]
      ∧ (items_table s).resolve 1 = some [.UInt64 2, .Int64 20]
      ∧ (items_table s).resolve 2 = some [.UInt64 2, .Int64 20]
      ∧ (items_table s').resolve 2 = some [.UInt64 2, .Int64 99] :=
  ⟨items_store_created, by decide, by decide +kernel, by decide +kernel, by decide +kernel,
    by decide +kernel, by decide +kernel, by decide +kernel⟩

end Items

end Scharnhorst
