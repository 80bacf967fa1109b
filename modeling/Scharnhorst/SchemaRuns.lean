/-
Runs of the schema registry.

A registry is filled table by table and edge by edge, or from a manifest, which is both, and
is frozen in the end. Every check is made when something is added. Two calls do more than
their checks say: a table that goes leaves its edges behind, and a manifest that is refused
half way leaves what it has registered so far.
-/
import Scharnhorst.Conformance
import Scharnhorst.RelationSpec

set_option autoImplicit false

namespace Scharnhorst

open Attempt Relation Search RelationGraph

namespace SchemaRegistry

def remove (reg : SchemaRegistry) (name : String) :
    Except SchemaError TableSpec × SchemaRegistry :=
  if reg.frozen then (.error .RegistryFrozen, reg)
  else
    match reg.tables[name]? with
    | none => (.error (.TableNotFound name), reg)
    | some spec => (.ok spec, { reg with tables := reg.tables.erase name })

def remove_relation (reg : SchemaRegistry) (table_from table_to : String) :
    Except SchemaError Unit × SchemaRegistry :=
  if reg.frozen then (.error .RegistryFrozen, reg)
  else
    let (result, relations) := reg.relations.remove_edge table_from table_to
    (result, { reg with relations })

/-- `load_from_manifest` from where the manifest has been stored. -/
def register_manifest [ContentText] (reg : SchemaRegistry) (migrated : MigratedSchemaManifest) :
    Except SchemaError Unit × SchemaRegistry :=
  -- both loops stop at the first error, and what they have registered stays
  match forEach register reg migrated.tables with
  | (.error e, reg) => (.error e, reg)
  | (.ok (), reg) =>
    match forEach add_relation reg migrated.relations with
    | (.error e, reg) => (.error e, reg)
    | (.ok (), reg) =>
      match reg.relations.detect_cycles with
      | [] => (.ok (), reg)
      | cycle :: _ =>
        let text := ContentCompiler.debug_names cycle
        (.error (.CircularRelation s!"cycle detected in relation graph: {text}"), reg)

def load_from_manifest [ContentText] (reg : SchemaRegistry) (migrated : MigratedSchemaManifest) :
    Except SchemaError Unit × SchemaRegistry :=
  if reg.frozen then (.error .RegistryFrozen, reg)
  else
    { reg with
      migrated_manifest := some migrated
      mod_fingerprints := migrated.manifest.mod_fingerprints }.register_manifest migrated

/-- `listing` is the order in which the map of the tables is walked. -/
def export_manifest (reg : SchemaRegistry) (schema_version : String) (listing : List TableSpec) :
    SchemaManifest :=
  let manifest := SchemaManifest.new schema_version
  let manifest := listing.foldl SchemaManifest.with_table manifest
  let manifest := reg.relations.edges.foldl SchemaManifest.with_relation manifest
  reg.mod_fingerprints.foldl SchemaManifest.with_mod_fingerprint manifest

end SchemaRegistry

/-! ## Calls -/

inductive SchemaOp where
  | Register (spec : TableSpec)
  | Remove (name : String)
  | AddRelation (edge : RelationEdge)
  | RemoveRelation (table_from table_to : String)
  | LoadFromManifest (migrated : MigratedSchemaManifest)
  | StoreModFingerprints (fingerprints : List ModFingerprint)
  | SetMigratedManifest (manifest : MigratedSchemaManifest)
  | Freeze

def SchemaOp.run [ContentText] (reg : SchemaRegistry) :
    SchemaOp → Except SchemaError Unit × SchemaRegistry
  | Register spec => reg.register spec
  | Remove name =>
    let (result, reg) := reg.remove name
    (result.map fun _ => (), reg)
  | AddRelation edge => reg.add_relation edge
  | RemoveRelation table_from table_to => reg.remove_relation table_from table_to
  | LoadFromManifest migrated => reg.load_from_manifest migrated
  | StoreModFingerprints fingerprints => reg.store_mod_fingerprints fingerprints
  | SetMigratedManifest manifest => reg.set_migrated_manifest manifest
  | Freeze => (.ok (), reg.freeze)

/-! ## Which calls are whole -/

/-- The registry has room for the manifest: its tables are new and have names, its edges are
between tables, and with them the graph has no cycle. -/
structure Loadable (reg : SchemaRegistry) (migrated : MigratedSchemaManifest) : Prop where
  named : ∀ table ∈ migrated.tables, table.name ≠ ""
  distinct : (migrated.tables.map TableSpec.name).Nodup
  fresh : ∀ table ∈ migrated.tables, table.name ∉ reg.tables
  known : ∀ e ∈ migrated.relations,
    (e.from_table ∈ reg.tables ∨ e.from_table ∈ migrated.tables.map TableSpec.name)
      ∧ (e.to_table ∈ reg.tables ∨ e.to_table ∈ migrated.tables.map TableSpec.name)
  unique : ((reg.relations.edges ++ migrated.relations).map ends).Nodup
  acyclic : Acyclic (Joined (reg.relations.edges ++ migrated.relations))

/-- Nothing of the manifest gets in, since its first table does not, or its first edge where
it has no table. -/
def FirstRefused (reg : SchemaRegistry) (migrated : MigratedSchemaManifest) : Prop :=
  match migrated.tables, migrated.relations with
  | table :: _, _ => table.name = "" ∨ table.name ∈ reg.tables
  | [], e :: _ =>
    e.from_table ∉ reg.tables ∨ e.to_table ∉ reg.tables ∨ ends e ∈ reg.relations.edges.map ends
      ∨ ReflTransGen (Joined reg.relations.edges) e.to_table e.from_table
  | [], [] => False

/-- The call takes no table that an edge names, and loads a manifest as a whole or not at
all. -/
def SchemaOp.Whole (reg : SchemaRegistry) : SchemaOp → Prop
  | Remove name =>
    reg.frozen = true ∨ ∀ e ∈ reg.relations.edges, e.from_table ≠ name ∧ e.to_table ≠ name
  | LoadFromManifest migrated =>
    reg.frozen = true ∨ Loadable reg migrated ∨ FirstRefused reg migrated
  | _ => True

section Runs

variable [ContentText] {reg reg' : SchemaRegistry} {migrated : MigratedSchemaManifest}

/-- What has come of a new registry by whole calls. -/
inductive SchemaRun : SchemaRegistry → Prop
  | new : SchemaRun .new
  | op {reg : SchemaRegistry} (run : SchemaRun reg) (op : SchemaOp) (whole : op.Whole reg) :
    SchemaRun (op.run reg).2

/-- The graph has no cycle, no two edges of the same ends, a right index, and edges between
registered tables only. A call that fails changes neither tables nor edges, and after the
freeze none changes anything. -/
structure Consistent (reg : SchemaRegistry) : Prop where
  acyclic : Acyclic (Joined reg.relations.edges)
  unique : (reg.relations.edges.map ends).Nodup
  grouped : reg.relations.Grouped
  known : ∀ e ∈ reg.relations.edges, e.from_table ∈ reg.tables ∧ e.to_table ∈ reg.tables
  unchanged : ∀ (op : SchemaOp) (e : SchemaError) (reg' : SchemaRegistry), op.Whole reg →
    op.run reg = (.error e, reg') → reg'.tables = reg.tables ∧ reg'.relations = reg.relations
  frozen : reg.frozen = true → ∀ op : SchemaOp, (op.run reg).2 = reg

/-! ## One call -/

namespace SchemaRegistry

/-- Besides the graph: every table is under its name. -/
structure Sound (reg : SchemaRegistry) : Prop where
  graph : reg.relations.WellFormed
  known : ∀ e ∈ reg.relations.edges, e.from_table ∈ reg.tables ∧ e.to_table ∈ reg.tables
  named : ∀ name spec, reg.tables[name]? = some spec → spec.name = name ∧ name ≠ ""

omit [ContentText] in
theorem Sound.new : SchemaRegistry.new.Sound where
  graph := wellFormed_new
  known _ h := by cases h
  named name spec h := by
    rw [SchemaRegistry.new, Std.ExtTreeMap.getElem?_empty] at h
    cases h

omit [ContentText] in
/-- The invariant is about tables and edges only. -/
theorem Sound.congr (h : reg.Sound) (htables : reg'.tables = reg.tables)
    (hrelations : reg'.relations = reg.relations) : reg'.Sound where
  graph := by
    rw [hrelations]
    exact h.graph
  known := by
    rw [hrelations, htables]
    exact h.known
  named := by
    rw [htables]
    exact h.named

omit [ContentText] in
theorem register_error {spec : TableSpec} {e : SchemaError}
    (h : reg.register spec = (.error e, reg')) : reg' = reg := by
  unfold register at h
  split at h
  · exact (Prod.mk.inj h).2.symm
  split at h
  · exact (Prod.mk.inj h).2.symm
  split at h
  · exact (Prod.mk.inj h).2.symm
  · cases h

omit [ContentText] in
theorem add_relation_error {edge : RelationEdge} {e : SchemaError}
    (h : reg.add_relation edge = (.error e, reg')) : reg' = reg := by
  unfold add_relation at h
  split at h
  · exact (Prod.mk.inj h).2.symm
  split at h
  · exact (Prod.mk.inj h).2.symm
  split at h
  · exact (Prod.mk.inj h).2.symm
  rcases hadd : reg.relations.add_edge edge with ⟨result, relations⟩
  simp only [hadd] at h
  obtain ⟨rfl, rfl⟩ := Prod.mk.inj h
  rw [add_edge_error hadd]

omit [ContentText] in
theorem remove_relation_error {table_from table_to : String} {e : SchemaError}
    (h : reg.remove_relation table_from table_to = (.error e, reg')) : reg' = reg := by
  unfold remove_relation at h
  split at h
  · exact (Prod.mk.inj h).2.symm
  rcases hremove : reg.relations.remove_edge table_from table_to with ⟨result, relations⟩
  simp only [hremove] at h
  obtain ⟨rfl, rfl⟩ := Prod.mk.inj h
  rw [remove_edge_error hremove]

omit [ContentText] in
theorem Sound.register (h : reg.Sound) (spec : TableSpec) : (reg.register spec).2.Sound := by
  rcases hrun : reg.register spec with ⟨e | ⟨⟩, reg'⟩
  · rw [register_error hrun]
    exact h
  · obtain ⟨hname, -, -, rfl⟩ := register_ok.1 hrun
    refine ⟨h.graph, fun e he => ?_, fun name spec' hget => ?_⟩
    · obtain ⟨hfrom, hto⟩ := h.known e he
      exact ⟨Maps.mem_insert_iff.2 (.inr hfrom), Maps.mem_insert_iff.2 (.inr hto)⟩
    · simp only [Std.ExtTreeMap.getElem?_insert, Std.LawfulEqCmp.compare_eq_iff_eq] at hget
      split at hget
      · rename_i hsame
        obtain rfl := Option.some.inj hget
        exact ⟨hsame, hsame ▸ hname⟩
      · exact h.named name spec' hget

omit [ContentText] in
theorem Sound.add_relation (h : reg.Sound) (edge : RelationEdge) :
    (reg.add_relation edge).2.Sound := by
  rcases hrun : reg.add_relation edge with ⟨e | ⟨⟩, reg'⟩
  · rw [add_relation_error hrun]
    exact h
  · obtain ⟨-, hfrom, hto, hadd, hreg'⟩ := add_relation_ok.1 hrun
    obtain ⟨hwf, hedges⟩ := h.graph.add_edge hadd
    have htables : reg'.tables = reg.tables := by rw [hreg']
    refine ⟨hwf, fun e he => ?_, ?_⟩
    · rw [htables]
      rw [hedges] at he
      -- the check of both ends is made before the edge is added
      obtain hold | hnew := List.mem_append.1 he
      · exact h.known e hold
      · rw [List.mem_singleton.1 hnew]
        exact ⟨hfrom, hto⟩
    · rw [htables]
      exact h.named

omit [ContentText] in
theorem Sound.remove_relation (h : reg.Sound) (table_from table_to : String) :
    (reg.remove_relation table_from table_to).2.Sound := by
  rcases hrun : reg.remove_relation table_from table_to with ⟨e | ⟨⟩, reg'⟩
  · rw [remove_relation_error hrun]
    exact h
  · unfold SchemaRegistry.remove_relation at hrun
    split at hrun
    · cases hrun
    rcases hremove : reg.relations.remove_edge table_from table_to with ⟨result, relations⟩
    simp only [hremove] at hrun
    obtain ⟨rfl, rfl⟩ := Prod.mk.inj hrun
    obtain ⟨hwf, hsub⟩ := h.graph.remove_edge hremove
    exact ⟨hwf, fun e he => h.known e (hsub.subset he), h.named⟩

omit [ContentText] in
theorem remove_cases (reg : SchemaRegistry) (name : String) :
    (∃ e, reg.remove name = (.error e, reg))
      ∨ ∃ spec, reg.frozen = false
        ∧ reg.remove name = (.ok spec, { reg with tables := reg.tables.erase name }) := by
  unfold remove
  rcases hfrozen : reg.frozen with _ | _
  · rcases hget : reg.tables[name]? with _ | spec
    · exact .inl ⟨_, rfl⟩
    · exact .inr ⟨spec, rfl, rfl⟩
  · exact .inl ⟨_, rfl⟩

omit [ContentText] in
/-- A table that no edge names may go. -/
theorem Sound.remove (h : reg.Sound) {name : String} (hwhole : (SchemaOp.Remove name).Whole reg) :
    (reg.remove name).2.Sound := by
  obtain ⟨e, hrun⟩ | ⟨spec, hopen, hrun⟩ := remove_cases reg name
  · rw [hrun]
    exact h
  · have hfree := hwhole.resolve_left fun hfrozen => by
      rw [hopen] at hfrozen
      cases hfrozen
    rw [hrun]
    refine ⟨h.graph, fun e he => ?_, fun other spec' hget => ?_⟩
    · obtain ⟨hfrom, hto⟩ := h.known e he
      obtain ⟨hne, hne'⟩ := hfree e he
      exact ⟨Maps.mem_erase_iff.2 ⟨hne, hfrom⟩, Maps.mem_erase_iff.2 ⟨hne', hto⟩⟩
    · simp only [Std.ExtTreeMap.getElem?_erase] at hget
      split at hget
      · cases hget
      · exact h.named other spec' hget

/-! ## A manifest -/

omit [ContentText] in
/-- What is stored before anything is registered. -/
def storing (reg : SchemaRegistry) (migrated : MigratedSchemaManifest) : SchemaRegistry :=
  { reg with
    migrated_manifest := some migrated
    mod_fingerprints := migrated.manifest.mod_fingerprints }

theorem load_open (hopen : reg.frozen = false) :
    reg.load_from_manifest migrated = (reg.storing migrated).register_manifest migrated := by
  unfold load_from_manifest
  rw [if_neg (by simp [hopen])]
  rfl

/-- Whatever becomes of it, a manifest is registered one item after the other. -/
theorem Sound.load (h : reg.Sound) (migrated : MigratedSchemaManifest) :
    (reg.load_from_manifest migrated).2.Sound := by
  rcases hfrozen : reg.frozen with _ | _
  swap
  · simp only [load_from_manifest, hfrozen, if_true]
    exact h
  have hstored : (reg.storing migrated).Sound := h.congr rfl rfl
  have hregistered := forEach_invariant (f := SchemaRegistry.register) migrated.tables
    (fun k spec _ hk => hk.register spec) hstored
  rw [load_open hfrozen]
  unfold register_manifest
  split
  · rename_i hrun
    rw [hrun] at hregistered
    exact hregistered
  rename_i mid hrun
  rw [hrun] at hregistered
  have hrelated := forEach_invariant (f := SchemaRegistry.add_relation) migrated.relations
    (fun k edge _ hk => hk.add_relation edge) hregistered
  split
  · rename_i hadd
    rw [hadd] at hrelated
    exact hrelated
  rename_i after hadd
  rw [hadd] at hrelated
  split <;> exact hrelated

omit [ContentText] in
/-- New tables with names of their own are all registered. -/
theorem register_all {tables : List TableSpec} (hopen : reg.frozen = false)
    (hnamed : ∀ table ∈ tables, table.name ≠ "")
    (hdistinct : (tables.map TableSpec.name).Nodup)
    (hfresh : ∀ table ∈ tables, table.name ∉ reg.tables) :
    forEach register reg tables = (.ok (), { reg with
      tables := tables.foldl (fun m table => m.insert table.name table) reg.tables }) := by
  induction tables generalizing reg with
  | nil => rfl
  | cons table tables ih =>
      obtain ⟨hnew, hdistinct⟩ := List.nodup_cons.1 hdistinct
      have hone : reg.register table
          = (.ok (), { reg with tables := reg.tables.insert table.name table }) :=
        register_ok.2 ⟨hnamed table List.mem_cons_self, hopen, hfresh table List.mem_cons_self, rfl⟩
      rw [forEach_cons_of_ok hone]
      have hopen' : ({ reg with tables := reg.tables.insert table.name table }
        : SchemaRegistry).frozen = false := hopen
      refine ih hopen' (fun other hother => hnamed other (List.mem_cons_of_mem _ hother))
        hdistinct ?_
      intro other hother hmem
      obtain hsame | hold := Maps.mem_insert_iff.1 hmem
      · exact hnew (List.mem_map.2 ⟨other, hother, hsame⟩)
      · exact hfresh other (List.mem_cons_of_mem _ hother) hold

omit [ContentText] in
theorem mem_registered (tables : List TableSpec) (m : Map String TableSpec) (name : String) :
    name ∈ tables.foldl (fun m table => m.insert table.name table) m
      ↔ name ∈ m ∨ name ∈ tables.map TableSpec.name := by
  induction tables generalizing m with
  | nil => simp
  | cons table tables ih =>
      rw [List.foldl_cons, ih, Maps.mem_insert_iff, List.map_cons, List.mem_cons, or_assoc,
        or_left_comm]

omit [ContentText] in
/-- Edges between registered tables are added if the graph takes them. -/
theorem add_relations {edges : List RelationEdge} {g : RelationGraph} (hopen : reg.frozen = false)
    (hknown : ∀ e ∈ edges, e.from_table ∈ reg.tables ∧ e.to_table ∈ reg.tables)
    (hgraph : forEach add_edge reg.relations edges = (.ok (), g)) :
    forEach add_relation reg edges = (.ok (), { reg with relations := g }) := by
  induction edges generalizing reg with
  | nil =>
      obtain rfl : reg.relations = g := (Prod.mk.inj hgraph).2
      rfl
  | cons edge edges ih =>
      obtain ⟨mid, hmid, hrest⟩ := forEach_cons_ok.1 hgraph
      obtain ⟨hfrom, hto⟩ := hknown edge List.mem_cons_self
      have hone : reg.add_relation edge = (.ok (), { reg with relations := mid }) :=
        add_relation_ok.2 ⟨hopen, hfrom, hto, hmid, rfl⟩
      rw [forEach_cons_of_ok hone]
      have hopen' : ({ reg with relations := mid } : SchemaRegistry).frozen = false := hopen
      exact ih hopen' (fun e he => hknown e (List.mem_cons_of_mem _ he)) hrest

/-- A manifest for which there is room is loaded. -/
theorem Sound.load_ok (h : reg.Sound) (hopen : reg.frozen = false) (hload : Loadable reg migrated) :
    ∃ g, g.WellFormed ∧ g.edges = reg.relations.edges ++ migrated.relations
      ∧ reg.load_from_manifest migrated = (.ok (), { reg with
        tables := migrated.tables.foldl (fun m table => m.insert table.name table) reg.tables
        relations := g
        mod_fingerprints := migrated.manifest.mod_fingerprints
        migrated_manifest := some migrated }) := by
  obtain ⟨g, hgraph, hwf, hedges⟩ :=
    (h.graph.add_edges migrated.relations).1 ⟨hload.acyclic, hload.unique⟩
  refine ⟨g, hwf, hedges, ?_⟩
  let registered : SchemaRegistry := { reg.storing migrated with
    tables := migrated.tables.foldl (fun m table => m.insert table.name table) reg.tables }
  have htables : forEach SchemaRegistry.register (reg.storing migrated) migrated.tables
      = (.ok (), registered) := register_all hopen hload.named hload.distinct hload.fresh
  have hknown : ∀ e ∈ migrated.relations,
      e.from_table ∈ registered.tables ∧ e.to_table ∈ registered.tables := by
    intro e he
    obtain ⟨hfrom, hto⟩ := hload.known e he
    exact ⟨(mem_registered _ _ _).2 hfrom, (mem_registered _ _ _).2 hto⟩
  have hrelations : forEach SchemaRegistry.add_relation registered migrated.relations
      = (.ok (), { registered with relations := g }) := add_relations hopen hknown hgraph
  rw [load_open hopen, register_manifest, htables]
  simp only [hrelations, hwf.detect_cycles]
  rfl

/-- A manifest whose first item is refused changes neither tables nor edges. -/
theorem Sound.load_refused (h : reg.Sound) (hopen : reg.frozen = false)
    (hrefused : FirstRefused reg migrated) :
    ∃ e, reg.load_from_manifest migrated = (.error e, reg.storing migrated) := by
  rw [load_open hopen, register_manifest]
  rcases htables : migrated.tables with _ | ⟨table, tables⟩
  · rcases hedges : migrated.relations with _ | ⟨edge, edges⟩
    · simp only [FirstRefused, htables, hedges] at hrefused
    simp only [FirstRefused, htables, hedges] at hrefused
    rcases hrun : (reg.storing migrated).add_relation edge with ⟨e | ⟨⟩, after⟩
    · obtain rfl := add_relation_error hrun
      rw [forEach_nil]
      simp only [forEach_cons_of_error hrun]
      exact ⟨e, rfl⟩
    · obtain ⟨-, hfrom, hto, hadd, -⟩ := add_relation_ok.1 hrun
      obtain ⟨hnew, hback, -⟩ := h.graph.add_edge_ok.1 hadd
      obtain hno | hno | hdup | hcycle := hrefused
      · exact absurd hfrom hno
      · exact absurd hto hno
      · exact absurd hdup hnew
      · exact absurd hcycle hback
  · simp only [FirstRefused, htables] at hrefused
    rcases hrun : (reg.storing migrated).register table with ⟨e | ⟨⟩, after⟩
    · obtain rfl := register_error hrun
      rw [forEach_cons_of_error hrun]
      exact ⟨e, rfl⟩
    · obtain ⟨hname, -, hnew, -⟩ := register_ok.1 hrun
      exact absurd hrefused (not_or.2 ⟨hname, hnew⟩)

/-! ## All calls -/

theorem Sound.op (h : reg.Sound) {op : SchemaOp} (hwhole : op.Whole reg) :
    (op.run reg).2.Sound := by
  cases op with
  | Register spec => exact h.register spec
  | Remove name => exact h.remove hwhole
  | AddRelation edge => exact h.add_relation edge
  | RemoveRelation table_from table_to => exact h.remove_relation table_from table_to
  | LoadFromManifest migrated => exact h.load migrated
  | StoreModFingerprints fingerprints =>
      simp only [SchemaOp.run, store_mod_fingerprints]
      split <;> exact h.congr rfl rfl
  | SetMigratedManifest manifest =>
      simp only [SchemaOp.run, set_migrated_manifest]
      split <;> exact h.congr rfl rfl
  | Freeze => exact h.congr rfl rfl

/-- A whole call that fails leaves tables and edges alone. -/
theorem Sound.unchanged (h : reg.Sound) {op : SchemaOp} (hwhole : op.Whole reg) {e : SchemaError}
    (hrun : op.run reg = (.error e, reg')) :
    reg'.tables = reg.tables ∧ reg'.relations = reg.relations := by
  cases op with
  | Register spec =>
      rw [register_error hrun]
      exact ⟨rfl, rfl⟩
  | Remove name =>
      obtain ⟨e', hremove⟩ | ⟨spec, -, hremove⟩ := remove_cases reg name
      · simp only [SchemaOp.run, hremove] at hrun
        rw [← (Prod.mk.inj hrun).2]
        exact ⟨rfl, rfl⟩
      · simp only [SchemaOp.run, hremove] at hrun
        cases (Prod.mk.inj hrun).1
  | AddRelation edge =>
      rw [add_relation_error hrun]
      exact ⟨rfl, rfl⟩
  | RemoveRelation table_from table_to =>
      rw [remove_relation_error hrun]
      exact ⟨rfl, rfl⟩
  | LoadFromManifest migrated =>
      rcases hfrozen : reg.frozen with _ | _
      · obtain hfroze | hload | hrefused := hwhole
        · rw [hfrozen] at hfroze
          cases hfroze
        · obtain ⟨g, -, -, hok⟩ := h.load_ok hfrozen hload
          simp only [SchemaOp.run, hok] at hrun
          cases (Prod.mk.inj hrun).1
        · obtain ⟨e', herr⟩ := h.load_refused hfrozen hrefused
          simp only [SchemaOp.run, herr] at hrun
          rw [← (Prod.mk.inj hrun).2]
          exact ⟨rfl, rfl⟩
      · simp only [SchemaOp.run, load_from_manifest, hfrozen, if_true] at hrun
        rw [← (Prod.mk.inj hrun).2]
        exact ⟨rfl, rfl⟩
  | StoreModFingerprints fingerprints =>
      simp only [SchemaOp.run, store_mod_fingerprints] at hrun
      split at hrun
      · rw [← (Prod.mk.inj hrun).2]
        exact ⟨rfl, rfl⟩
      · cases (Prod.mk.inj hrun).1
  | SetMigratedManifest manifest =>
      simp only [SchemaOp.run, set_migrated_manifest] at hrun
      split at hrun
      · rw [← (Prod.mk.inj hrun).2]
        exact ⟨rfl, rfl⟩
      · cases (Prod.mk.inj hrun).1
  | Freeze => cases (Prod.mk.inj hrun).1

/-- Every call looks first whether the registry is frozen. -/
theorem unchanged_of_frozen (hfrozen : reg.frozen = true) (op : SchemaOp) :
    (op.run reg).2 = reg := by
  cases op with
  | Register spec =>
      simp only [SchemaOp.run, register, hfrozen, if_true]
      split <;> rfl
  | Remove name => simp only [SchemaOp.run, remove, hfrozen, if_true]
  | AddRelation edge => simp only [SchemaOp.run, add_relation, hfrozen, if_true]
  | RemoveRelation table_from table_to =>
      simp only [SchemaOp.run, remove_relation, hfrozen, if_true]
  | LoadFromManifest migrated => simp only [SchemaOp.run, load_from_manifest, hfrozen, if_true]
  | StoreModFingerprints fingerprints =>
      simp only [SchemaOp.run, store_mod_fingerprints, hfrozen, if_true]
  | SetMigratedManifest manifest =>
      simp only [SchemaOp.run, set_migrated_manifest, hfrozen, if_true]
  | Freeze =>
      obtain ⟨tables, relations, frozen, fingerprints, manifest⟩ := reg
      obtain rfl : frozen = true := hfrozen
      rfl

end SchemaRegistry

theorem SchemaRun.sound (run : SchemaRun reg) : reg.Sound := by
  induction run with
  | new => exact .new
  | op _ op whole ih => exact ih.op whole

/-- As long as every call is whole, the registry is consistent. -/
theorem schema_run_consistent (run : SchemaRun reg) : Consistent reg where
  acyclic := run.sound.graph.acyclic
  unique := run.sound.graph.unique
  grouped := run.sound.graph.grouped
  known := run.sound.known
  unchanged _ _ _ whole hrun := run.sound.unchanged whole hrun
  frozen hfrozen op := SchemaRegistry.unchanged_of_frozen hfrozen op

end Runs

/-! ## A table that goes, and a manifest that stops half way -/

section Provinces

attribute [local instance] quoted_text

def owner_of : RelationEdge := ⟨"province", "actor", .OneToMany, "owner_id", none⟩

/-- Two tables, and an edge between them. -/
def provinces : SchemaRegistry :=
  let reg := (SchemaRegistry.new.register (.new "actor")).2
  let reg := (reg.register (.new "province")).2
  (reg.add_relation owner_of).2

/-- A manifest that has its table twice. -/
def actor_twice : MigratedSchemaManifest :=
  .new (((SchemaManifest.new "1").with_table (.new "actor")).with_table (.new "actor")) "1"

/-- The manifest is refused at its first table, and then the registry is frozen. -/
theorem provinces_consistent : ∃ reg : SchemaRegistry,
    Consistent reg ∧ reg.relations.edges = [owner_of] ∧ reg.frozen = true := by
  have run₁ := SchemaRun.new.op (.Register (.new "actor")) trivial
  have run₂ := run₁.op (.Register (.new "province")) trivial
  have run₃ := run₂.op (.AddRelation owner_of) trivial
  have run₄ := run₃.op (.LoadFromManifest actor_twice) (.inr (.inr (.inr (by decide +kernel))))
  have run₅ := run₄.op .Freeze trivial
  exact ⟨_, schema_run_consistent run₅, by decide +kernel, by decide +kernel⟩

/-- The province goes and its edge stays. And of the manifest that is refused for its second
table the first one is registered. -/
theorem edge_without_table :
    let (removed, without) := provinces.remove "province"
    let (loaded, half) := SchemaRegistry.new.load_from_manifest actor_twice
    removed = .ok (.new "province") ∧ owner_of ∈ without.relations.edges
      ∧ owner_of.from_table ∉ without.tables ∧ ¬ Consistent without
      ∧ loaded = .error (.TableAlreadyExists "actor") ∧ "actor" ∈ half.tables := by
  have hedge : owner_of ∈ (provinces.remove "province").2.relations.edges := by decide +kernel
  have hgone : owner_of.from_table ∉ (provinces.remove "province").2.tables := by decide +kernel
  exact ⟨by decide +kernel, hedge, hgone, fun h => hgone (h.known owner_of hedge).1,
    by decide +kernel, by decide +kernel⟩

end Provinces

end Scharnhorst
