/-
Relation keys.

A relation is asked for by a key, the names of its two tables with an arrow between them, and the
first edge that spells the key is taken. Table names are any texts that are not empty, so an arrow
may also stand in a name, and then one key can be read in two ways. `key_eq_iff` has them: the
arrow of the one edge is inside a name of the other, or the two arrows share the blank between
them.

`validate` looks the same keys up, for the paths whose table it finds.
-/
import Scharnhorst.Evaluator
import Scharnhorst.SchemaRuns

set_option autoImplicit false

namespace Scharnhorst

open RelationGraph

/-! ## Two readings of one key -/

/-- The key under which an edge is found. -/
def edge_key (e : RelationEdge) : String := s!"{e.from_table} -> {e.to_table}"

/-- The arrow of `e` stands before that of `other` in one text: the name of a table contains the
other arrow, or the two have a blank in common. -/
def ReadTwice (e other : RelationEdge) : Prop :=
  (∃ name : String, other.from_table = s!"{e.from_table} -> {name}" ∧
    e.to_table = s!"{name} -> {other.to_table}") ∨
    other.from_table = s!"{e.from_table} ->" ∧ e.to_table = s!"-> {other.to_table}"

section Texts

variable {a b c d : List Char}

/-- The first arrow is the shorter way in. -/
theorem arrow_split (h : a ++ [' ', '-', '>', ' '] ++ b = c ++ [' ', '-', '>', ' '] ++ d)
    (hlen : a.length ≤ c.length) :
    (a = c ∧ b = d) ∨
      (∃ x, c = a ++ [' ', '-', '>', ' '] ++ x ∧ b = x ++ [' ', '-', '>', ' '] ++ d) ∨
      c = a ++ [' ', '-', '>'] ∧ b = ['-', '>', ' '] ++ d := by
  rw [List.append_assoc, List.append_assoc] at h
  obtain ⟨y, hc, hy⟩ : ∃ y, c = a ++ y ∧
      [' ', '-', '>', ' '] ++ b = y ++ ([' ', '-', '>', ' '] ++ d) := by
    obtain ⟨y, hc, hb⟩ | ⟨y, ha, hd⟩ := List.append_eq_append_iff.1 h
    · exact ⟨y, hc, hb⟩
    · have hnil : y = [] := by
        have hsame := congrArg List.length ha
        rw [List.length_append] at hsame
        exact List.eq_nil_of_length_eq_zero (by omega)
      subst hnil
      exact ⟨[], by simpa using ha.symm, by simpa using hd.symm⟩
  subst hc
  -- the second arrow begins in the first one, or behind it
  rcases y with _ | ⟨y₁, _ | ⟨y₂, _ | ⟨y₃, _ | ⟨y₄, x⟩⟩⟩⟩
  · simp at hy
    simp [hy]
  · simp at hy
  · simp at hy
  · simp only [List.cons_append, List.nil_append, List.cons.injEq] at hy
    obtain ⟨rfl, rfl, rfl, -, hb⟩ := hy
    simp [hb]
  · simp only [List.cons_append, List.nil_append, List.cons.injEq] at hy
    obtain ⟨rfl, rfl, rfl, rfl, hb⟩ := hy
    simp [hb]

end Texts

variable {e e' : RelationEdge}

theorem toString_text (s : String) : toString s = s := rfl

theorem toList_edge_key :
    (edge_key e).toList = e.from_table.toList ++ [' ', '-', '>', ' '] ++ e.to_table.toList := by
  simp [edge_key, toString_text]

theorem readTwice_iff :
    ReadTwice e e' ↔
      (∃ x, e'.from_table.toList = e.from_table.toList ++ [' ', '-', '>', ' '] ++ x ∧
        e.to_table.toList = x ++ [' ', '-', '>', ' '] ++ e'.to_table.toList) ∨
      e'.from_table.toList = e.from_table.toList ++ [' ', '-', '>'] ∧
        e.to_table.toList = ['-', '>', ' '] ++ e'.to_table.toList := by
  unfold ReadTwice
  simp only [toString_text, ← String.toList_inj]
  apply or_congr
  · constructor
    · rintro ⟨name, hfrom, hto⟩
      exact ⟨name.toList, by simpa using hfrom, by simpa using hto⟩
    · rintro ⟨x, hfrom, hto⟩
      exact ⟨String.ofList x, by simpa using hfrom, by simpa using hto⟩
  · simp

/-- Two edges spell one key exactly if their ends are the same, or it is read twice. -/
theorem edge_key_eq_iff :
    edge_key e = edge_key e' ↔ ends e = ends e' ∨ ReadTwice e e' ∨ ReadTwice e' e := by
  rw [← String.toList_inj, toList_edge_key, toList_edge_key, readTwice_iff, readTwice_iff]
  have hends : ends e = ends e' ↔
      e.from_table.toList = e'.from_table.toList ∧ e.to_table.toList = e'.to_table.toList := by
    simp [ends, String.toList_inj]
  rw [hends]
  constructor
  · intro h
    rcases Nat.le_total e.from_table.toList.length e'.from_table.toList.length with hlen | hlen
    · rcases arrow_split h hlen with hsame | hsplit
      · exact .inl hsame
      · exact .inr (.inl hsplit)
    · rcases arrow_split h.symm hlen with hsame | hsplit
      · exact .inl ⟨hsame.1.symm, hsame.2.symm⟩
      · exact .inr (.inr hsplit)
  · rintro (⟨hfrom, hto⟩ | (⟨x, hfrom, hto⟩ | ⟨hfrom, hto⟩) | ⟨x, hfrom, hto⟩ | ⟨hfrom, hto⟩) <;>
      simp [hfrom, hto]

/-! ## What is filled in -/

/-- A registry after any calls of `register` and `add_relation`. -/
inductive Registered : SchemaRegistry → Prop
  | new : Registered .new
  | register {reg : SchemaRegistry} (h : Registered reg) (spec : TableSpec) :
    Registered (reg.register spec).2
  | add_relation {reg : SchemaRegistry} (h : Registered reg) (edge : RelationEdge) :
    Registered (reg.add_relation edge).2

theorem Registered.sound {reg : SchemaRegistry} (h : Registered reg) : reg.Sound := by
  induction h with
  | new => exact .new
  | register _ spec ih => exact ih.register spec
  | add_relation _ edge ih => exact ih.add_relation edge

/-- Of an edge its ends are enough. -/
theorem eq_of_ends {reg : SchemaRegistry} (h : reg.Sound) (he : e ∈ reg.relations.edges)
    (he' : e' ∈ reg.relations.edges) (hends : ends e = ends e') : e = e' :=
  List.inj_on_of_nodup_map h.graph.unique he he' hends

/-! ## The engine -/

/-- A rule's path, as `validate` is asked about it. -/
structure ValidatablePath where
  path : String
  table : String
  columns : List String
  relations : List String
deriving DecidableEq

inductive ValidationErrorKind where
  | MissingTable
  | MissingColumn
  | MissingRelation
deriving DecidableEq

structure ValidationError where
  path : String
  kind : ValidationErrorKind
  message : String
deriving DecidableEq

namespace ValidatablePath

variable (p : ValidatablePath)

def missing_table : ValidationError :=
  { path := p.path, kind := .MissingTable
    message := s!"table '{p.table}' not found for path '{p.path}'" }

def missing_column (col_name : String) : ValidationError :=
  { path := p.path, kind := .MissingColumn
    message := s!"column '{col_name}' not found in table '{p.table}'" }

def missing_relation (rel_key : String) : ValidationError :=
  { path := p.path, kind := .MissingRelation
    message := s!"relation '{rel_key}' not found for path '{p.path}'" }

/-- What is wrong with the path: its table, or else columns and then relations. -/
def errors (reg : SchemaRegistry) : List ValidationError :=
  match reg.get p.table with
  | .error _ => [p.missing_table]
  | .ok spec =>
    (p.columns.filter fun col_name => (spec.column_by_name col_name).isNone).map p.missing_column ++
      (p.relations.filter fun rel_key =>
        !reg.relations.edges.any fun e => edge_key e = rel_key).map p.missing_relation

variable {p}

theorem missing_relation_inj {key key' : String}
    (h : p.missing_relation key = p.missing_relation key') : key = key' := by
  have hmessage := congrArg ValidationError.message h
  have hlist := congrArg String.toList hmessage
  simpa [missing_relation, toString_text, String.toList_inj] using hlist

end ValidatablePath

def QueryEngine.validate (q : QueryEngine) (paths : List ValidatablePath) :
    QueryResult (List ValidationError) :=
  match q.schema_registry.read with
  | .error _ => .error (.SchemaRegistry "poisoned lock")
  | .ok reg => .ok (paths.foldl (fun errors p => errors ++ p.errors reg) [])

/-! ## Keys and edges -/

section Keys

variable {reg : SchemaRegistry} {q : QueryEngine} {p : ValidatablePath} {key : String}

/-- The first match is the thing itself for all things only if no two match. -/
theorem find_itself_iff {α κ : Type*} [DecidableEq κ] {as : List α} {f : α → κ} :
    (∀ a ∈ as, as.find? (fun b => f b = f a) = some a) ↔
      ∀ a ∈ as, ∀ b ∈ as, f a = f b → a = b := by
  constructor
  · intro h a ha b hb hsame
    have hfirst := h a ha
    rw [hsame] at hfirst
    exact Option.some.inj (hfirst.symm.trans (h b hb))
  · intro h a ha
    rcases hfind : as.find? fun b => f b = f a with _ | b
    · have hnone := List.find?_eq_none.1 hfind a ha
      simp at hnone
    · have hsame := List.find?_some hfind
      rw [h b (List.mem_of_find?_eq_some hfind) a ha (by simpa using hsame)]

theorem resolve_ok_iff (hq : q.schema_registry.read = .ok reg) :
    q.resolve_relation_edge key = .ok e ↔
      reg.relations.edges.find? (fun e => edge_key e = key) = some e := by
  have hkey : (fun e : RelationEdge => decide (s!"{e.from_table} -> {e.to_table}" = key)) =
      fun e => decide (edge_key e = key) := rfl
  unfold QueryEngine.resolve_relation_edge
  rw [hq]
  dsimp only
  rw [hkey]
  rcases reg.relations.edges.find? fun e => edge_key e = key with _ | edge <;> simp

theorem resolve_error_iff (hq : q.schema_registry.read = .ok reg) :
    (∃ error, q.resolve_relation_edge key = .error error) ↔
      ∀ e ∈ reg.relations.edges, edge_key e ≠ key := by
  have hnone : (∃ error, q.resolve_relation_edge key = .error error) ↔
      ¬ ∃ e, q.resolve_relation_edge key = .ok e := by
    rcases q.resolve_relation_edge key with error | e <;> simp
  rw [hnone]
  simp only [resolve_ok_iff hq, ← Option.isSome_iff_exists, Option.not_isSome_iff_eq_none,
    List.find?_eq_none, decide_eq_true_eq]

/-- Every edge is found by its key if no key is read twice. -/
theorem edges_resolved_iff (h : reg.Sound) (hq : q.schema_registry.read = .ok reg) :
    (∀ e ∈ reg.relations.edges, q.resolve_relation_edge (edge_key e) = .ok e) ↔
      ∀ e ∈ reg.relations.edges, ∀ e' ∈ reg.relations.edges, ¬ ReadTwice e e' := by
  simp only [resolve_ok_iff hq, find_itself_iff]
  constructor
  · intro hkeys e he e' he' htwice
    have hsame := hkeys e he e' he' (edge_key_eq_iff.2 (.inr (.inl htwice)))
    subst hsame
    -- an edge does not contain itself
    have hlen : ∀ x y : List Char, e.from_table.toList ≠ e.from_table.toList ++ ' ' :: x ++ y := by
      intro x y heq
      have := congrArg List.length heq
      simp at this
    rcases readTwice_iff.1 htwice with ⟨x, hfrom, -⟩ | ⟨hfrom, -⟩
    · exact hlen _ _ hfrom
    · simp at hfrom
  · intro hclear e he e' he' hkey
    rcases edge_key_eq_iff.1 hkey with hends | htwice | htwice
    · exact eq_of_ends h he he' hends
    · exact absurd htwice (hclear e he e' he')
    · exact absurd htwice (hclear e' he' e he)

theorem validate_eq (hq : q.schema_registry.read = .ok reg) (paths : List ValidatablePath) :
    q.validate paths = .ok (paths.flatMap fun p => p.errors reg) := by
  have hfold : ∀ before : List ValidationError,
      paths.foldl (fun errors p => errors ++ p.errors reg) before =
        before ++ paths.flatMap fun p => p.errors reg := by
    induction paths with
    | nil => simp
    | cons p paths ih =>
      intro before
      rw [List.foldl_cons, ih, List.flatMap_cons, List.append_assoc]
  unfold QueryEngine.validate
  rw [hq]
  dsimp only
  rw [hfold, List.nil_append]

/-- A missing relation is reported in a path with a table only. -/
theorem missing_relation_mem (hkey : key ∈ p.relations) :
    p.missing_relation key ∈ p.errors reg ↔
      p.table ∈ reg.tables ∧ ∀ e ∈ reg.relations.edges, edge_key e ≠ key := by
  unfold ValidatablePath.errors SchemaRegistry.get
  rcases htable : reg.tables[p.table]? with _ | spec
  · have hnone : p.table ∉ reg.tables := by
      rw [← Std.ExtTreeMap.isSome_getElem?_iff_mem, htable]
      decide
    simp [hnone, ValidatablePath.missing_relation, ValidatablePath.missing_table]
  · have hsome : p.table ∈ reg.tables := by
      rw [← Std.ExtTreeMap.isSome_getElem?_iff_mem, htable]
      rfl
    dsimp only
    rw [List.mem_append]
    constructor
    · rintro (hcolumn | hrelation)
      · obtain ⟨col_name, -, heq⟩ := List.mem_map.1 hcolumn
        have hkind := congrArg ValidationError.kind heq
        cases hkind
      · obtain ⟨key', hkey', heq⟩ := List.mem_map.1 hrelation
        obtain rfl := ValidatablePath.missing_relation_inj heq
        exact ⟨hsome, by simpa using (List.mem_filter.1 hkey').2⟩
    · rintro ⟨-, hnone⟩
      exact .inr (List.mem_map_of_mem (List.mem_filter.2 ⟨hkey, by simpa using hnone⟩))

/-- A key finds its edge, and `validate` reports the keys that find none, exactly if no key of the
graph is read twice and the path has a table, where there is something to report. -/
theorem relation_keys_identify_iff (h : Registered reg) (hq : q.schema_registry.read = .ok reg)
    (p : ValidatablePath) :
    (∀ paths, q.validate paths = .ok (paths.flatMap fun p => p.errors reg)) ∧
      ((∀ e ∈ reg.relations.edges, q.resolve_relation_edge (edge_key e) = .ok e) ∧
          (∀ key ∈ p.relations, p.missing_relation key ∈ p.errors reg ↔
            (∃ error, q.resolve_relation_edge key = .error error) ∧
              ∀ e ∈ reg.relations.edges, edge_key e ≠ key) ↔
        (∀ e ∈ reg.relations.edges, ∀ e' ∈ reg.relations.edges, ¬ ReadTwice e e') ∧
          (p.table ∈ reg.tables ∨
            ∀ key ∈ p.relations, ∃ e ∈ reg.relations.edges, edge_key e = key)) := by
  refine ⟨validate_eq hq, and_congr (edges_resolved_iff h.sound hq) ?_⟩
  simp only [resolve_error_iff hq, and_self]
  constructor
  -- without a table nothing is reported, so there every key has to find an edge
  · intro hreported
    by_cases htable : p.table ∈ reg.tables
    · exact .inl htable
    · right
      intro key hkey
      by_contra hnone
      push Not at hnone
      exact htable ((missing_relation_mem hkey).1 ((hreported key hkey).2 hnone)).1
  · intro hcondition key hkey
    rw [missing_relation_mem hkey]
    constructor
    · intro hmissing
      exact hmissing.2
    · intro hnone
      rcases hcondition with htable | hfound
      · exact ⟨htable, hnone⟩
      · obtain ⟨e, he, hsame⟩ := hfound key hkey
        exact absurd hsame (hnone e he)

end Keys

/-! ## Names with an arrow -/

def link (table_from table_to : String) : RelationEdge :=
  { from_table := table_from, to_table := table_to, kind := .OneToMany, from_column := "key"
    to_column := none }

/-- A registry of these tables and edges. -/
def linked (names : List String) (edges : List RelationEdge) : SchemaRegistry :=
  edges.foldl (fun reg edge => (reg.add_relation edge).2)
    (names.foldl (fun reg name => (reg.register (.new name)).2) .new)

theorem linked_filled (names : List String) (edges : List RelationEdge) :
    Registered (linked names edges) := by
  have htables : ∀ reg, Registered reg →
      Registered (names.foldl (fun reg name => (reg.register (.new name)).2) reg) := by
    induction names with
    | nil => exact fun _ h => h
    | cons name names ih => exact fun _ h => ih _ (h.register (.new name))
  have hedges : ∀ reg, Registered reg →
      Registered (edges.foldl (fun reg edge => (reg.add_relation edge).2) reg) := by
    induction edges with
    | nil => exact fun _ h => h
    | cons edge edges ih => exact fun _ h => ih _ (h.add_relation edge)
  exact hedges _ (htables _ .new)

def feudal : SchemaRegistry := linked ["barony", "lord"] [link "barony" "lord"]

def feudal_path : ValidatablePath :=
  { path := "rule.tax", table := "barony", columns := [], relations := ["barony -> king"] }

/-- The lord is found, and the king is reported. -/
theorem feudal_keys_identify :
    (QueryEngine.new feudal).resolve_relation_edge "barony -> lord" = .ok (link "barony" "lord") ∧
      (QueryEngine.new feudal).validate [feudal_path] =
        .ok [feudal_path.missing_relation "barony -> king"] := by
  have hedges : feudal.relations.edges = [link "barony" "lord"] := by decide +kernel
  have hread : (QueryEngine.new feudal).schema_registry.read = .ok feudal := rfl
  have hfilled : Registered feudal := linked_filled _ _
  obtain ⟨hvalidate, hiff⟩ := relation_keys_identify_iff hfilled hread feudal_path
  have hclear : ∀ e ∈ feudal.relations.edges, ∀ e' ∈ feudal.relations.edges, ¬ ReadTwice e e' := by
    rw [hedges]
    intro e he e' he' htwice
    rw [List.mem_singleton.1 he, List.mem_singleton.1 he'] at htwice
    rcases readTwice_iff.1 htwice with ⟨x, hfrom, -⟩ | ⟨hfrom, -⟩ <;> simp [link] at hfrom
  obtain ⟨hresolve, -⟩ := hiff.2 ⟨hclear, .inl (by decide +kernel)⟩
  refine ⟨hresolve (link "barony" "lord") (by rw [hedges]; decide), ?_⟩
  rw [hvalidate]
  rfl

def unit_of_army : RelationEdge := link "army" "unit -> leader"

def leader_of_unit : RelationEdge := link "army -> unit" "leader"

def arrows : SchemaRegistry :=
  linked ["army", "unit -> leader", "army -> unit", "leader"] [unit_of_army, leader_of_unit]

/-- The key of the second edge finds the first. -/
theorem key_finds_other_edge :
    Registered arrows ∧ leader_of_unit ∈ arrows.relations.edges ∧
      (QueryEngine.new arrows).resolve_relation_edge (edge_key leader_of_unit) = .ok unit_of_army ∧
      unit_of_army ≠ leader_of_unit := by
  refine ⟨linked_filled _ _, ?_, ?_, ?_⟩ <;> decide +kernel

end Scharnhorst
