/-
The relation graph between tables.

An edge is refused if it would close a cycle, which a search from its target finds, and
a search of the whole graph lists the cycles there are. Both searches keep a stack. They
are loops in the source and are given fuel here: a table is expanded once at most, so a
search takes as many rounds as there are edges, and a few more. The top of a stack is the
head of its list.
-/
import Scharnhorst.Manifest

set_option autoImplicit false

namespace Scharnhorst

structure RelationGraph where
  edges : List RelationEdge
  /-- From a table to the indices of the edges that leave it. -/
  adjacency : Map String (List Nat)
deriving DecidableEq

namespace RelationGraph

def new : RelationGraph := ⟨[], ∅⟩

def find_edge (g : RelationGraph) (table_from table_to : String) : Option RelationEdge :=
  g.edges.find? fun e => e.from_table = table_from ∧ e.to_table = table_to

def edges_from (g : RelationGraph) (table : String) : List RelationEdge :=
  (g.adjacency.getD table []).filterMap (g.edges[·]?)

/-- The tables that edges name, in key order. -/
def tables (g : RelationGraph) : List String :=
  (g.edges.foldl (fun m e => (m.insert e.from_table ()).insert e.to_table ())
    (∅ : Map String Unit)).keys

/-! ## One edge -/

/-- `while let Some(current) = stack.pop()`. -/
def would_create_cycle_loop (g : RelationGraph) (start : String) :
    Nat → List String → Map String Unit → Bool
  | 0, _, _ => false
  | _ + 1, [], _ => false
  | fuel + 1, current :: stack, visited =>
    if current = start then true
    else if visited.contains current then g.would_create_cycle_loop start fuel stack visited
    else
      g.would_create_cycle_loop start fuel
        ((g.edges_from current).foldl (fun stack e => e.to_table :: stack) stack)
        (visited.insert current ())

def would_create_cycle (g : RelationGraph) (start target : String) : Bool :=
  g.would_create_cycle_loop start (g.edges.length + 2) [target] ∅

def add_edge (g : RelationGraph) (edge : RelationEdge) : Except SchemaError Unit × RelationGraph :=
  if (g.find_edge edge.from_table edge.to_table).isSome then
    (.error (.RelationAlreadyExists edge.from_table edge.to_table), g)
  else if g.would_create_cycle edge.from_table edge.to_table then
    (.error (.CircularRelation s!"{edge.from_table} -> {edge.to_table}"), g)
  else
    (.ok (),
      { edges := g.edges ++ [edge]
        adjacency :=
          g.adjacency.insert edge.from_table
            (g.adjacency.getD edge.from_table [] ++ [g.edges.length]) })

def rebuild_adjacency (g : RelationGraph) : RelationGraph :=
  { g with
    adjacency := g.edges.zipIdx.foldl (fun m e =>
      m.insert e.1.from_table (m.getD e.1.from_table [] ++ [e.2])) ∅ }

def remove_edge (g : RelationGraph) (table_from table_to : String) :
    Except SchemaError Unit × RelationGraph :=
  match g.edges.findIdx? fun e => e.from_table = table_from ∧ e.to_table = table_to with
  | none => (.error (.RelationNotFound table_from table_to), g)
  | some pos => (.ok (), { g with edges := g.edges.eraseIdx pos }.rebuild_adjacency)

/-! ## The whole graph -/

inductive Color where
  | White
  | Gray
  | Black
deriving DecidableEq

/-- What the search has found so far. -/
structure CycleSearch where
  colors : Map String Color
  cycles : List (List String)
  path : List String

/-- `while let Some((is_entering, node)) = stack.pop()`. -/
def detect_cycles_loop (g : RelationGraph) :
    Nat → List (Bool × String) → CycleSearch → CycleSearch
  | 0, _, s => s
  | _ + 1, [], s => s
  | fuel + 1, (true, node) :: stack, s =>
    match s.colors[node]? with
    | some .Black => g.detect_cycles_loop fuel stack s
    -- an open table again: the path from it on is a cycle
    | some .Gray =>
      let cycle_start := (s.path.findIdx? (· = node)).getD 0
      g.detect_cycles_loop fuel stack { s with cycles := s.cycles ++ [s.path.drop cycle_start] }
    | _ =>
      let colors := s.colors.insert node .Gray
      -- a black neighbour has been searched to its end
      let stack := (g.edges_from node).foldl (fun stack e =>
        match colors[e.to_table]? with
        | some .White | some .Gray => (true, e.to_table) :: stack
        | _ => stack) ((false, node) :: stack)
      g.detect_cycles_loop fuel stack { s with colors, path := s.path ++ [node] }
  | fuel + 1, (false, node) :: stack, s =>
    g.detect_cycles_loop fuel stack
      { s with colors := s.colors.insert node .Black, path := s.path.dropLast }

def detect_cycles (g : RelationGraph) : List (List String) :=
  let all_tables := g.tables
  let s : CycleSearch :=
    { colors := all_tables.foldl (fun m t => m.insert t .White) ∅, cycles := [], path := [] }
  let fuel := 2 * (all_tables.length + g.edges.length) + 2
  (all_tables.foldl (fun s start_node =>
    if s.colors[start_node]? = some .White then
      g.detect_cycles_loop fuel [(true, start_node)] s
    else s) s).cycles

end RelationGraph

end Scharnhorst
