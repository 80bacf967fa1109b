/-
A manifest that is exported and loaded again.

The export lists the tables in the order of a hash map and the edges in the order in which
they were added. The load makes all the checks of the registration again, table by table and
edge by edge. It goes through since they hold of the whole: no two tables have one name, the
edges are between tables, and what has no cycle has none in any part.
-/
import Scharnhorst.SchemaRuns

set_option autoImplicit false

namespace Scharnhorst

open Attempt Relation Search RelationGraph

/-! ## What is exported -/

namespace SchemaRegistry

theorem export_manifest_eq (reg : SchemaRegistry) (schema_version : String)
    (listing : List TableSpec) :
    reg.export_manifest schema_version listing
      = { schema_version
          tables := listing
          relations := reg.relations.edges
          mod_fingerprints := reg.mod_fingerprints
          metadata := ∅ } := by
  simp [export_manifest, tables_foldl, relations_foldl, mod_fingerprints_foldl, SchemaManifest.new]

/-! ## What is loaded -/

variable {reg : SchemaRegistry} {listing : List TableSpec}

/-- The entries of the map, from the listing of its values. -/
theorem Sound.entries (h : reg.Sound) (hlisting : listing.Perm (reg.tables.toList.map Prod.snd)) :
    (listing.map fun table => (table.name, table)).Perm reg.tables.toList := by
  have hsame : (reg.tables.toList.map Prod.snd).map (fun table => (table.name, table))
      = reg.tables.toList := by
    rw [List.map_map]
    refine (List.map_congr_left fun entry hentry => ?_).trans (List.map_id _)
    obtain ⟨name, spec⟩ := entry
    have hget := Std.ExtTreeMap.mem_toList_iff_getElem?_eq_some.1 hentry
    obtain ⟨hname, -⟩ := h.named name spec hget
    exact Prod.ext hname rfl
  have hperm := hlisting.map fun table => (table.name, table)
  rwa [hsame] at hperm

theorem Sound.foldl_listing (h : reg.Sound)
    (hlisting : listing.Perm (reg.tables.toList.map Prod.snd)) :
    listing.foldl (fun m table => m.insert table.name table) ∅ = reg.tables := by
  rw [← Maps.foldl_insert (h.entries hlisting), List.foldl_map]

/-- A new registry has room for everything that a sound one exports. -/
theorem Sound.loadable (h : reg.Sound) (hlisting : listing.Perm (reg.tables.toList.map Prod.snd))
    {migrated : MigratedSchemaManifest} (htables : migrated.tables = listing)
    (hrelations : migrated.relations = reg.relations.edges) :
    Loadable SchemaRegistry.new migrated := by
  -- every table stands under its own name, so the names of the listing are the keys
  have hentries := h.entries hlisting
  have hnames : (listing.map TableSpec.name).Perm (reg.tables.toList.map Prod.fst) := by
    have hfst := hentries.map Prod.fst
    rwa [List.map_map] at hfst
  have hmem : ∀ name, name ∈ reg.tables → name ∈ listing.map TableSpec.name := by
    intro name hname
    obtain ⟨spec, hget⟩ : ∃ spec, reg.tables[name]? = some spec :=
      Option.isSome_iff_exists.1 (Std.ExtTreeMap.mem_iff_isSome_getElem?.1 hname)
    refine hnames.mem_iff.2 (List.mem_map.2 ⟨(name, spec), ?_, rfl⟩)
    exact Std.ExtTreeMap.mem_toList_iff_getElem?_eq_some.2 hget
  refine ⟨fun table htable => ?_, ?_, fun table _ hin => ?_, fun e he => ?_, ?_, ?_⟩
  · rw [htables] at htable
    have hentry := hentries.mem_iff.1 (List.mem_map.2 ⟨table, htable, rfl⟩)
    exact (h.named _ _ (Std.ExtTreeMap.mem_toList_iff_getElem?_eq_some.1 hentry)).2
  · rw [htables]
    exact hnames.nodup_iff.2 (Maps.nodup_keys reg.tables)
  · exact absurd hin Std.ExtTreeMap.not_mem_empty
  · rw [hrelations] at he
    rw [htables]
    obtain ⟨hfrom, hto⟩ := h.known e he
    exact ⟨.inr (hmem _ hfrom), .inr (hmem _ hto)⟩
  · rw [hrelations]
    exact h.graph.unique
  · rw [hrelations]
    exact h.graph.acyclic

end SchemaRegistry

/-! ## The round trip -/

/-- The calls that fill a registry. -/
def SchemaOp.Fills : SchemaOp → Prop
  | Register _ | AddRelation _ | RemoveRelation _ _ | StoreModFingerprints _ => True
  | _ => False

section Filled

variable [ContentText] {reg : SchemaRegistry}

/-- A new registry after any of these calls, whether they went through or not. -/
inductive Filled : SchemaRegistry → Prop
  | new : Filled .new
  | op {reg : SchemaRegistry} (run : Filled reg) (op : SchemaOp) (fills : op.Fills) :
    Filled (op.run reg).2

theorem Filled.run (filled : Filled reg) : SchemaRun reg := by
  induction filled with
  | new => exact .new
  | op _ op fills ih =>
      refine ih.op op ?_
      cases op <;> first | exact trivial | exact fills.elim

/-- A registry that is exported can be loaded. -/
structure SelfContained (reg : SchemaRegistry) : Prop where
  loads : ∀ (schema_version : String) (listing : List TableSpec)
    (migrated : MigratedSchemaManifest), listing.Perm (reg.tables.toList.map Prod.snd) →
      migrated.manifest = reg.export_manifest schema_version listing →
        ∃ reg', SchemaRegistry.new.load_from_manifest migrated = (.ok (), reg')
          ∧ reg'.tables = reg.tables ∧ reg'.relations = reg.relations
          ∧ reg'.mod_fingerprints = reg.mod_fingerprints
  /-- The checks that are made edge by edge refuse no order of the edges. -/
  any_order : ∀ edges : List RelationEdge, edges.Perm reg.relations.edges →
    ∃ g, forEach add_edge .new edges = (.ok (), g) ∧ g.edges = edges

theorem SchemaRun.self_contained (run : SchemaRun reg) : SelfContained reg where
  loads schema_version listing migrated hlisting hmanifest := by
    have h := run.sound
    rw [SchemaRegistry.export_manifest_eq] at hmanifest
    have htables : migrated.tables = listing := by
      rw [MigratedSchemaManifest.tables, hmanifest]
    have hrelations : migrated.relations = reg.relations.edges := by
      rw [MigratedSchemaManifest.relations, hmanifest]
    obtain ⟨g, hwf, hedges, hload⟩ :=
      SchemaRegistry.Sound.new.load_ok rfl (h.loadable hlisting htables hrelations)
    refine ⟨_, hload, ?_, ?_, ?_⟩
    · rw [htables]
      exact h.foldl_listing hlisting
    · refine h.graph.ext hwf ?_
      rw [hedges, hrelations]
      rfl
    · rw [hmanifest]
  any_order edges hperm := by
    have h := run.sound.graph
    have hacyclic : Acyclic (Joined edges) := by
      refine h.acyclic.mono fun a b => ?_
      rintro ⟨e, he, hends⟩
      exact ⟨e, hperm.mem_iff.1 he, hends⟩
    have hunique : (edges.map ends).Nodup := (hperm.map ends).nodup_iff.2 h.unique
    obtain ⟨g, hgraph, -, hedges⟩ := (wellFormed_new.add_edges edges).1 ⟨hacyclic, hunique⟩
    exact ⟨g, hgraph, hedges⟩

/-- Whatever a registry was filled with, its export loads, and into the same registry. And no
order of edges without a cycle is refused. -/
theorem filled_self_contained (filled : Filled reg) :
    SelfContained reg
      ∧ ∀ edges : List RelationEdge, Acyclic (Joined edges) → (edges.map ends).Nodup →
        ∃ g, forEach add_edge .new edges = (.ok (), g) ∧ g.edges = edges := by
  refine ⟨filled.run.self_contained, fun edges hacyclic hunique => ?_⟩
  obtain ⟨g, hgraph, -, hedges⟩ := (wellFormed_new.add_edges edges).1 ⟨hacyclic, hunique⟩
  exact ⟨g, hgraph, hedges⟩

end Filled

/-! ## Two tables -/

section Provinces

attribute [local instance] quoted_text

theorem provinces_self_contained :
    SelfContained provinces ∧ provinces.tables.size = 2
      ∧ provinces.relations.edges = [owner_of]
      ∧ ∃ g, forEach add_edge .new [owner_of] = (.ok (), g) ∧ g.edges = [owner_of] := by
  have run₁ := Filled.new.op (.Register (.new "actor")) trivial
  have run₂ := run₁.op (.Register (.new "province")) trivial
  have run₃ : Filled provinces := run₂.op (.AddRelation owner_of) trivial
  have hedges : provinces.relations.edges = [owner_of] := by decide +kernel
  have hgraph := run₃.run.sound.graph
  obtain ⟨hself, hany⟩ := filled_self_contained run₃
  refine ⟨hself, by decide +kernel, hedges, hany [owner_of] ?_ ?_⟩
  · rw [← hedges]
    exact hgraph.acyclic
  · rw [← hedges]
    exact hgraph.unique

end Provinces

end Scharnhorst
