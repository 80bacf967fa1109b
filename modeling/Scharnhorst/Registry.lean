/-
The schema registry: the specs of all tables, and the graph of the relations between
them.

It is filled while content is compiled, or from a manifest when a save is loaded, and is
frozen after that. The query engine looks the specs up in it.
-/
import Scharnhorst.Relation

set_option autoImplicit false

namespace Scharnhorst

/-- The `Display` text of a schema error. -/
def SchemaError.to_string : SchemaError → String
  | TableAlreadyExists name => s!"table already exists: {name}"
  | TableNotFound name => s!"table not found: {name}"
  | InvalidTableName name => s!"invalid table name: '{name}' — must be non-empty"
  | DuplicateColumn name => s!"duplicate column name: {name}"
  | RelationAlreadyExists table_from table_to =>
    s!"relation already exists between {table_from} and {table_to}"
  | RelationNotFound table_from table_to => s!"relation not found: {table_from} -> {table_to}"
  | CircularRelation message => s!"circular relation detected: {message}"
  | RegistryFrozen => "schema registry is frozen"
  | MigrationVersionMismatch expected actual =>
    s!"migration version mismatch: expected {expected}, found {actual}"
  | NoMigrationPath version_from version_to =>
    s!"no migration path found from {version_from} to {version_to}"

structure SchemaRegistry where
  tables : Map String TableSpec
  relations : RelationGraph := .new
  frozen : Bool := false
  mod_fingerprints : List ModFingerprint := []
  migrated_manifest : Option MigratedSchemaManifest := none
deriving DecidableEq

namespace SchemaRegistry

def new : SchemaRegistry := { tables := ∅ }

def freeze (reg : SchemaRegistry) : SchemaRegistry := { reg with frozen := true }

def store_mod_fingerprints (reg : SchemaRegistry) (fingerprints : List ModFingerprint) :
    Except SchemaError Unit × SchemaRegistry :=
  if reg.frozen then (.error .RegistryFrozen, reg)
  else (.ok (), { reg with mod_fingerprints := fingerprints })

def set_migrated_manifest (reg : SchemaRegistry) (manifest : MigratedSchemaManifest) :
    Except SchemaError Unit × SchemaRegistry :=
  if reg.frozen then (.error .RegistryFrozen, reg)
  else (.ok (), { reg with migrated_manifest := some manifest })

def register (reg : SchemaRegistry) (spec : TableSpec) : Except SchemaError Unit × SchemaRegistry :=
  if spec.name.isEmpty then (.error (.InvalidTableName spec.name), reg)
  else if reg.frozen then (.error .RegistryFrozen, reg)
  else if reg.tables.contains spec.name then (.error (.TableAlreadyExists spec.name), reg)
  else (.ok (), { reg with tables := reg.tables.insert spec.name spec })

def get (reg : SchemaRegistry) (name : String) : Except SchemaError TableSpec :=
  match reg.tables[name]? with
  | some spec => .ok spec
  | none => .error (.TableNotFound name)

def contains (reg : SchemaRegistry) (name : String) : Bool := reg.tables.contains name

def add_relation (reg : SchemaRegistry) (edge : RelationEdge) :
    Except SchemaError Unit × SchemaRegistry :=
  if reg.frozen then (.error .RegistryFrozen, reg)
  else if !reg.tables.contains edge.from_table then (.error (.TableNotFound edge.from_table), reg)
  else if !reg.tables.contains edge.to_table then (.error (.TableNotFound edge.to_table), reg)
  else
    let (result, relations) := reg.relations.add_edge edge
    (result, { reg with relations })

/-! ## What a success means -/

variable {reg reg' : SchemaRegistry}

theorem register_ok {spec : TableSpec} :
    reg.register spec = (.ok (), reg')
      ↔ spec.name ≠ "" ∧ reg.frozen = false ∧ spec.name ∉ reg.tables
        ∧ reg' = { reg with tables := reg.tables.insert spec.name spec } := by
  unfold register
  simp only [String.isEmpty_iff, Std.ExtTreeMap.contains_iff_mem]
  by_cases hname : spec.name = ""
  · simp [hname]
  rcases hfrozen : reg.frozen with _ | _
  · by_cases hmem : spec.name ∈ reg.tables
    · simp [hname, hmem]
    · simp [hname, hmem, eq_comm]
  · simp [hname]

theorem add_relation_ok {edge : RelationEdge} :
    reg.add_relation edge = (.ok (), reg')
      ↔ reg.frozen = false ∧ edge.from_table ∈ reg.tables ∧ edge.to_table ∈ reg.tables
        ∧ reg.relations.add_edge edge = (.ok (), reg'.relations)
        ∧ reg' = { reg with relations := reg'.relations } := by
  unfold add_relation
  rcases hfrozen : reg.frozen with _ | _
  · by_cases hfrom : edge.from_table ∈ reg.tables
    · by_cases hto : edge.to_table ∈ reg.tables
      · rcases hadd : reg.relations.add_edge edge with ⟨result, relations⟩
        simp only [Bool.false_eq_true, if_false, Std.ExtTreeMap.contains_iff_mem.2 hfrom,
          Std.ExtTreeMap.contains_iff_mem.2 hto, Bool.not_true, hfrom, hto, true_and]
        constructor
        · intro h
          obtain ⟨rfl, rfl⟩ := Prod.mk.inj h
          exact ⟨rfl, rfl⟩
        · rintro ⟨hpair, hreg⟩
          obtain ⟨rfl, rfl⟩ := Prod.mk.inj hpair
          rw [hreg]
      · have hnone : reg.tables.contains edge.to_table = false :=
          Bool.eq_false_iff.2 fun h => hto (Std.ExtTreeMap.contains_iff_mem.1 h)
        simp [hfrom, hto, hnone, Std.ExtTreeMap.contains_iff_mem.2 hfrom]
    · have hnone : reg.tables.contains edge.from_table = false :=
        Bool.eq_false_iff.2 fun h => hfrom (Std.ExtTreeMap.contains_iff_mem.1 h)
      simp [hfrom, hnone]
  · simp

end SchemaRegistry

end Scharnhorst
