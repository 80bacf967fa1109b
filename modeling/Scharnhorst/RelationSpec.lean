/-
What the searches of the relation graph say.

Where the index of the graph is right, the edges that it lists for a table are those that
leave the table, the search before an insertion finds a path back exactly if there is one,
and the search of the whole graph lists no cycle of a graph that has none. So a graph that
edges are added to one by one has no cycle, and a set of edges without a cycle is taken in
any order.
-/
import Scharnhorst.Attempt
import Scharnhorst.DepthFirst
import Scharnhorst.Maps
import Scharnhorst.Relation
import Mathlib.Data.List.Dedup
import Mathlib.Data.List.Induction

set_option autoImplicit false

namespace Scharnhorst

open Attempt Relation Search

namespace RelationGraph

/-- An edge leads from one table to the other. -/
def Joined (edges : List RelationEdge) (a b : String) : Prop :=
  ∃ e ∈ edges, e.from_table = a ∧ e.to_table = b

/-- The two ends, which no two edges share. -/
def ends (e : RelationEdge) : String × String := (e.from_table, e.to_table)

/-- Where the edges stand that leave a table. -/
def leaving (edges : List RelationEdge) (table : String) : List Nat :=
  (edges.zipIdx.filter fun e => e.1.from_table = table).map Prod.snd

/-- The index is the edges grouped by their source. -/
def Grouped (g : RelationGraph) : Prop :=
  ∀ table, g.adjacency[table]?
    = if leaving g.edges table = [] then none else some (leaving g.edges table)

/-- What holds of a graph at all times. -/
structure WellFormed (g : RelationGraph) : Prop where
  acyclic : Acyclic (Joined g.edges)
  unique : (g.edges.map ends).Nodup
  grouped : g.Grouped

variable {g g' : RelationGraph}

/-! ## The index -/

theorem Grouped.getD (h : g.Grouped) (table : String) :
    g.adjacency.getD table [] = leaving g.edges table := by
  rw [Std.ExtTreeMap.getD_eq_getD_getElem?, h]
  by_cases hnone : leaving g.edges table = []
  · rw [if_pos hnone, hnone]
    rfl
  · rw [if_neg hnone]
    rfl

/-- The edges at these places are those that leave the table, in the order of the edges. -/
theorem edges_leaving (edges : List RelationEdge) (table : String) :
    (leaving edges table).filterMap (edges[·]?)
      = edges.filter fun e => e.from_table = table := by
  have hat : ∀ e ∈ edges.zipIdx, edges[e.2]? = some e.1 :=
    fun e he => List.mem_zipIdx_iff_getElem?.1 he
  calc (leaving edges table).filterMap (edges[·]?)
      = (edges.zipIdx.filter fun e => e.1.from_table = table).filterMap fun e => edges[e.2]? := by
        rw [leaving, List.filterMap_map]
        rfl
    _ = (edges.zipIdx.filter fun e => e.1.from_table = table).filterMap fun e => some e.1 := by
        refine List.filterMap_congr fun e he => hat e (List.mem_of_mem_filter he)
    _ = (edges.zipIdx.map Prod.fst).filter fun e => e.from_table = table := by
        rw [List.filterMap_eq_map', List.filter_map]
        rfl
    _ = edges.filter fun e => e.from_table = table := by
        rw [List.zipIdx_map_fst]

theorem Grouped.edges_from (h : g.Grouped) (table : String) :
    g.edges_from table = g.edges.filter fun e => e.from_table = table := by
  rw [RelationGraph.edges_from, h.getD, edges_leaving]

theorem leaving_concat (edges : List RelationEdge) (edge : RelationEdge) (table : String) :
    leaving (edges ++ [edge]) table
      = leaving edges table ++ if edge.from_table = table then [edges.length] else [] := by
  simp only [leaving, List.zipIdx_append, List.filter_append, List.map_append, Nat.zero_add,
    List.zipIdx_cons, List.zipIdx_nil]
  by_cases h : edge.from_table = table
  · rw [List.filter_cons_of_pos (by simpa using h), if_pos h]
    rfl
  · rw [List.filter_cons_of_neg (by simpa using h), if_neg h]
    rfl

/-- One more entry of the index. -/
theorem grouped_concat {edges : List RelationEdge} {adjacency : Map String (List Nat)}
    (h : Grouped ⟨edges, adjacency⟩) (edge : RelationEdge) :
    Grouped ⟨edges ++ [edge], adjacency.insert edge.from_table
      (adjacency.getD edge.from_table [] ++ [edges.length])⟩ := by
  intro table
  have hgetD : adjacency.getD edge.from_table [] = leaving edges edge.from_table := h.getD _
  simp only [Std.ExtTreeMap.getElem?_insert, leaving_concat, hgetD]
  by_cases hsame : edge.from_table = table
  · subst hsame
    simp
  · rw [if_neg hsame, List.append_nil, if_neg (by simpa using hsame)]
    exact h table

theorem grouped_rebuild (g : RelationGraph) : g.rebuild_adjacency.Grouped := by
  have key : ∀ edges : List RelationEdge, Grouped ⟨edges, edges.zipIdx.foldl
      (fun m e => m.insert e.1.from_table (m.getD e.1.from_table [] ++ [e.2])) ∅⟩ := by
    intro edges
    induction edges using List.reverseRecOn with
    | nil =>
        intro table
        rfl
    | append_singleton edges edge ih =>
        rw [List.zipIdx_append, List.foldl_append]
        simpa using grouped_concat ih edge
  exact key g.edges

/-! ## The search before an insertion -/

theorem Grouped.leads_iff (h : g.Grouped) (a b : String) :
    Leads g.edges_from RelationEdge.to_table a b ↔ Joined g.edges a b := by
  unfold Leads Joined
  rw [h.edges_from]
  constructor
  · rintro ⟨e, he, rfl⟩
    obtain ⟨he, hfrom⟩ := List.mem_filter.1 he
    exact ⟨e, he, of_decide_eq_true hfrom, rfl⟩
  · rintro ⟨e, he, hfrom, rfl⟩
    exact ⟨e, List.mem_filter.2 ⟨he, decide_eq_true hfrom⟩, rfl⟩

theorem contains_insert_iff {visited : Map String Unit} {seen : List String}
    (h : ∀ table, visited.contains table = true ↔ table ∈ seen) (current table : String) :
    (visited.insert current ()).contains table = true ↔ table ∈ current :: seen := by
  rw [Std.ExtTreeMap.contains_iff_mem, Maps.mem_insert_iff, List.mem_cons, ← h table,
    Std.ExtTreeMap.contains_iff_mem]

/-- It is a depth-first search. -/
theorem would_create_cycle_loop_eq {start : String} {visited : Map String Unit}
    {seen : List String} (h : ∀ table, visited.contains table = true ↔ table ∈ seen) (fuel : Nat)
    (stack : List String) :
    g.would_create_cycle_loop start fuel stack visited
      = (depth_first g.edges_from RelationEdge.to_table start fuel stack seen).getD false := by
  induction fuel generalizing stack visited seen with
  | zero => rfl
  | succ fuel ih =>
      rcases stack with _ | ⟨current, stack⟩
      · rfl
      · rw [would_create_cycle_loop, depth_first, ih h, ih (contains_insert_iff h current)]
        simp only [h current]
        split
        · rfl
        · split <;> rfl

theorem Grouped.leaves (h : g.Grouped) (table : String) (hsome : g.edges_from table ≠ []) :
    table ∈ (g.edges.map RelationEdge.from_table).dedup := by
  rw [h.edges_from] at hsome
  obtain ⟨e, he⟩ := List.exists_mem_of_ne_nil _ hsome
  obtain ⟨he, hfrom⟩ := List.mem_filter.1 he
  exact List.mem_dedup.2 (List.mem_map.2 ⟨e, he, of_decide_eq_true hfrom⟩)

/-- There is always fuel enough. -/
theorem Grouped.rounds (h : g.Grouped) :
    1 + remaining g.edges_from (g.edges.map RelationEdge.from_table).dedup []
      < g.edges.length + 2 := by
  have hsum := sum_leaving_le RelationEdge.from_table
    (g.edges.map RelationEdge.from_table).nodup_dedup g.edges
  simp only [remaining, List.not_mem_nil, if_false, h.edges_from]
  omega

theorem Grouped.leads_eq (h : g.Grouped) :
    Leads g.edges_from RelationEdge.to_table = Joined g.edges :=
  funext fun a => funext fun b => propext (h.leads_iff a b)

/-- The search finds a way back exactly if there is one. -/
theorem Grouped.would_create_cycle_iff (h : g.Grouped) (start target : String) :
    g.would_create_cycle start target = true
      ↔ ReflTransGen (Joined g.edges) target start := by
  have hloop : g.would_create_cycle_loop start (g.edges.length + 2) [target] ∅
      = (depth_first g.edges_from RelationEdge.to_table start (g.edges.length + 2) [target]
        []).getD false := would_create_cycle_loop_eq (by simp) _ _
  rw [← h.leads_eq, ← depth_first_iff h.leaves h.rounds, would_create_cycle, hloop]
  rcases depth_first g.edges_from RelationEdge.to_table start (g.edges.length + 2) [target] []
    with _ | _ | _ <;> simp

/-! ## Edges come and go -/

theorem joined_concat (edges : List RelationEdge) (edge : RelationEdge) (a b : String) :
    Joined (edges ++ [edge]) a b
      ↔ Joined edges a b ∨ (a = edge.from_table ∧ b = edge.to_table) := by
  constructor
  · rintro ⟨e, he, hfrom, hto⟩
    obtain hold | hnew := List.mem_append.1 he
    · exact .inl ⟨e, hold, hfrom, hto⟩
    · rw [List.mem_singleton.1 hnew] at hfrom hto
      exact .inr ⟨hfrom.symm, hto.symm⟩
  · rintro (⟨e, he, hfrom, hto⟩ | ⟨rfl, rfl⟩)
    · exact ⟨e, List.mem_append_left _ he, hfrom, hto⟩
    · exact ⟨edge, List.mem_append_right _ (List.mem_singleton_self _), rfl, rfl⟩

theorem find_edge_isSome (g : RelationGraph) (table_from table_to : String) :
    (g.find_edge table_from table_to).isSome = true
      ↔ (table_from, table_to) ∈ g.edges.map ends := by
  simp [find_edge, ends]

theorem wellFormed_new : WellFormed .new where
  acyclic _ h := by
    obtain ⟨e, he, -⟩ | ⟨-, e, he, -⟩ := h <;> cases he
  unique := List.nodup_nil
  grouped _ := rfl

/-- An edge is taken exactly if no edge has its ends and it closes no cycle. -/
theorem WellFormed.add_edge_ok (h : g.WellFormed) {edge : RelationEdge} :
    g.add_edge edge = (.ok (), g')
      ↔ ends edge ∉ g.edges.map ends
        ∧ ¬ ReflTransGen (Joined g.edges) edge.to_table edge.from_table
        ∧ g' = ⟨g.edges ++ [edge], g.adjacency.insert edge.from_table
            (g.adjacency.getD edge.from_table [] ++ [g.edges.length])⟩ := by
  rw [← h.grouped.would_create_cycle_iff, ends, ← find_edge_isSome]
  unfold add_edge
  by_cases hdup : (g.find_edge edge.from_table edge.to_table).isSome = true
  · simp [hdup]
  · by_cases hcycle : g.would_create_cycle edge.from_table edge.to_table = true
    · simp [hdup, hcycle]
    · rw [if_neg hdup, if_neg hcycle]
      exact ⟨fun hpair => ⟨hdup, hcycle, (Prod.mk.inj hpair).2.symm⟩,
        fun hall => by rw [hall.2.2]⟩

theorem add_edge_error {edge : RelationEdge} {e : SchemaError}
    (h : g.add_edge edge = (.error e, g')) : g' = g := by
  unfold add_edge at h
  split at h
  · exact (Prod.mk.inj h).2.symm
  split at h
  · exact (Prod.mk.inj h).2.symm
  · cases h

theorem WellFormed.add_edge (h : g.WellFormed) {edge : RelationEdge}
    (hadd : g.add_edge edge = (.ok (), g')) : g'.WellFormed ∧ g'.edges = g.edges ++ [edge] := by
  obtain ⟨hnew, hback, rfl⟩ := h.add_edge_ok.1 hadd
  refine ⟨⟨?_, ?_, grouped_concat h.grouped edge⟩, rfl⟩
  · exact (acyclic_insert_iff (joined_concat g.edges edge)).2 ⟨h.acyclic, hback⟩
  · rw [List.map_append, List.map_singleton]
    refine List.nodup_append.2 ⟨h.unique, List.pairwise_singleton _ _, ?_⟩
    rintro a ha b hb rfl
    rw [List.mem_singleton.1 hb] at ha
    exact hnew ha

theorem WellFormed.takes (h : g.WellFormed) {edge : RelationEdge}
    (hacyclic : Acyclic (Joined (g.edges ++ [edge])))
    (hunique : ((g.edges ++ [edge]).map ends).Nodup) : ∃ g', g.add_edge edge = (.ok (), g') := by
  refine ⟨_, h.add_edge_ok.2 ⟨?_, ?_, rfl⟩⟩
  · rw [List.map_append, List.map_singleton, List.nodup_append] at hunique
    exact fun hmem => hunique.2.2 _ hmem _ (List.mem_singleton_self _) rfl
  · exact ((acyclic_insert_iff (joined_concat g.edges edge)).1 hacyclic).2

/-- Edges without a cycle are taken one by one, in whatever order they are listed, and what
is taken has none. -/
theorem WellFormed.add_edges (h : g.WellFormed) (edges : List RelationEdge) :
    (Acyclic (Joined (g.edges ++ edges)) ∧ ((g.edges ++ edges).map ends).Nodup)
      ↔ ∃ g', forEach RelationGraph.add_edge g edges = (.ok (), g') ∧ g'.WellFormed
        ∧ g'.edges = g.edges ++ edges := by
  induction edges generalizing g with
  | nil =>
      simp only [List.append_nil, forEach_nil]
      exact ⟨fun _ => ⟨g, rfl, h, rfl⟩, fun _ => ⟨h.acyclic, h.unique⟩⟩
  | cons edge edges ih =>
      have hassoc : g.edges ++ edge :: edges = (g.edges ++ [edge]) ++ edges := by simp
      constructor
      · rintro ⟨hacyclic, hunique⟩
        have hprefix : Acyclic (Joined (g.edges ++ [edge])) := by
          refine hacyclic.mono fun a b => ?_
          rintro ⟨e, he, hends⟩
          refine ⟨e, ?_, hends⟩
          rw [hassoc]
          exact List.mem_append_left _ he
        have hdistinct : ((g.edges ++ [edge]).map ends).Nodup := by
          rw [hassoc, List.map_append] at hunique
          exact (List.nodup_append.1 hunique).1
        obtain ⟨mid, hmid⟩ := h.takes hprefix hdistinct
        obtain ⟨hwf, hedges⟩ := h.add_edge hmid
        rw [hassoc, ← hedges] at hacyclic hunique
        obtain ⟨g', hrest, hwf', hedges'⟩ := (ih hwf).1 ⟨hacyclic, hunique⟩
        refine ⟨g', ?_, hwf', ?_⟩
        · rw [forEach_cons_of_ok hmid, hrest]
        · rw [hedges', hedges, hassoc]
      · rintro ⟨g', hrun, hwf', hedges'⟩
        rw [← hedges']
        exact ⟨hwf'.acyclic, hwf'.unique⟩

theorem remove_edge_error {table_from table_to : String} {e : SchemaError}
    (h : g.remove_edge table_from table_to = (.error e, g')) : g' = g := by
  unfold remove_edge at h
  split at h
  · exact (Prod.mk.inj h).2.symm
  · cases h

/-- Without one of its edges a graph has no more cycles than before. -/
theorem WellFormed.remove_edge (h : g.WellFormed) {table_from table_to : String}
    (hremove : g.remove_edge table_from table_to = (.ok (), g')) :
    g'.WellFormed ∧ g'.edges.Sublist g.edges := by
  unfold RelationGraph.remove_edge at hremove
  split at hremove
  · cases hremove
  rename_i pos hpos
  obtain ⟨-, rfl⟩ := Prod.mk.inj hremove
  have hsub : (g.edges.eraseIdx pos).Sublist g.edges := List.eraseIdx_sublist _ _
  refine ⟨⟨?_, ?_, grouped_rebuild _⟩, hsub⟩
  · refine h.acyclic.mono fun a b => ?_
    rintro ⟨e, he, hends⟩
    exact ⟨e, hsub.subset he, hends⟩
  · exact h.unique.sublist (hsub.map ends)

/-- Two graphs with the same edges and a right index are the same. -/
theorem WellFormed.ext (h : g.WellFormed) (h' : g'.WellFormed) (hedges : g'.edges = g.edges) :
    g' = g := by
  obtain ⟨edges, adjacency⟩ := g
  obtain ⟨edges', adjacency'⟩ := g'
  obtain rfl : edges' = edges := hedges
  have hadjacency : adjacency' = adjacency := by
    refine Std.ExtTreeMap.ext_getElem? fun table => ?_
    exact (h'.grouped table).trans (h.grouped table).symm
  rw [hadjacency]

/-! ## The search of the whole graph

A table is gray from when it is entered until the entry that leaves it is popped, and
whatever stands above this entry on the stack can be reached from the table. So a gray table
that is entered again reaches itself. -/

theorem mem_tables {edge : RelationEdge} (h : edge ∈ g.edges) : edge.to_table ∈ g.tables := by
  have key : ∀ (edges : List RelationEdge) (m : Map String Unit),
      edge ∈ edges ∨ edge.to_table ∈ m → edge.to_table ∈ edges.foldl
        (fun m e => (m.insert e.from_table ()).insert e.to_table ()) m := by
    intro edges
    induction edges with
    | nil =>
        rintro m (hmem | hmem)
        · cases hmem
        · exact hmem
    | cons e edges ih =>
        intro m hmem
        rw [List.foldl_cons]
        refine ih _ ?_
        rw [Maps.mem_insert_iff, Maps.mem_insert_iff]
        obtain hmem | hmem := hmem
        · obtain rfl | hrest := List.mem_cons.1 hmem
          · exact .inr (.inl rfl)
          · exact .inl hrest
        · exact .inr (.inr (.inr hmem))
  rw [tables, Std.ExtTreeMap.mem_keys]
  exact key g.edges ∅ (.inl h)

/-- The search, where `visited` have been entered. -/
structure Searching (g : RelationGraph) (visited : List String) (stack : List (Bool × String))
    (s : CycleSearch) : Prop where
  none_found : s.cycles = []
  white : ∀ table ∈ g.tables, table ∉ visited → s.colors[table]? = some .White
  dark : ∀ table ∈ visited, s.colors[table]? = some .Gray ∨ s.colors[table]? = some .Black
  opened : ∀ table, s.colors[table]? = some .Gray → (false, table) ∈ stack
  entering : ∀ table, (true, table) ∈ stack → table ∈ g.tables
  leaving : ∀ table, (false, table) ∈ stack → table ∈ visited
  above : stack.Pairwise fun x y =>
    x.1 = true → y.1 = false → TransGen (Joined g.edges) y.2 x.2

/-- What an expansion pays for: the table itself, and its edges. -/
def expansion (g : RelationGraph) (table : String) : List (Option RelationEdge) :=
  none :: (g.edges_from table).map some

/-- What is pushed are targets of the edges, one for each at most. -/
theorem foldl_pushes {push : List (Bool × String) → RelationEdge → List (Bool × String)}
    (hpush : ∀ stack e, push stack e = (true, e.to_table) :: stack ∨ push stack e = stack)
    (edges : List RelationEdge) (stack : List (Bool × String)) :
    ∃ pushes : List (Bool × String), edges.foldl push stack = pushes ++ stack
      ∧ pushes.length ≤ edges.length ∧ ∀ x ∈ pushes, ∃ e ∈ edges, x = (true, e.to_table) := by
  induction edges generalizing stack with
  | nil => exact ⟨[], rfl, Nat.le_refl _, nofun⟩
  | cons e edges ih =>
      rw [List.foldl_cons]
      obtain ⟨pushes, hpushes, hlength, hall⟩ := ih (push stack e)
      have hrest : ∀ x ∈ pushes, ∃ e' ∈ e :: edges, x = (true, e'.to_table) := by
        intro x hx
        obtain ⟨e', he', rfl⟩ := hall x hx
        exact ⟨e', List.mem_cons_of_mem _ he', rfl⟩
      obtain hpushed | hsame := hpush stack e
      · refine ⟨pushes ++ [(true, e.to_table)], ?_, ?_, fun x hx => ?_⟩
        · rw [hpushes, hpushed, List.append_assoc]
          rfl
        · rw [List.length_append, List.length_singleton, List.length_cons]
          omega
        · obtain hx | hx := List.mem_append.1 hx
          · exact hrest x hx
          · exact ⟨e, List.mem_cons_self, List.mem_singleton.1 hx⟩
      · refine ⟨pushes, ?_, ?_, hrest⟩
        · rw [hpushes, hsame]
        · rw [List.length_cons]
          omega

/-- A table is entered for the first time. -/
theorem Searching.enter {visited : List String} {stack pushes : List (Bool × String)}
    {s : CycleSearch} {node : String} (h : g.Searching visited ((true, node) :: stack) s)
    (hpushes : ∀ x ∈ pushes, ∃ e ∈ g.edges, e.from_table = node ∧ x = (true, e.to_table)) :
    g.Searching (node :: visited) (pushes ++ (false, node) :: stack)
      { s with colors := s.colors.insert node .Gray, path := s.path ++ [node] } := by
  obtain ⟨habove, hstack⟩ := List.pairwise_cons.1 h.above
  -- the table turns gray; its leaving entry lies below its edges, so it is not left before them
  refine ⟨h.none_found, ?_, ?_, ?_, ?_, ?_, ?_⟩
  · intro table hmem hnew
    obtain ⟨hne, hnew⟩ := not_or.1 (fun hor => hnew (List.mem_cons.2 hor))
    rw [Std.ExtTreeMap.getElem?_insert, if_neg (by simpa using Ne.symm hne)]
    exact h.white table hmem hnew
  · intro table hmem
    rw [Std.ExtTreeMap.getElem?_insert]
    by_cases hsame : node = table
    · exact .inl (if_pos (by simpa using hsame))
    · rw [if_neg (by simpa using hsame)]
      exact h.dark table ((List.mem_cons.1 hmem).resolve_left (Ne.symm hsame))
  · intro table hgray
    rw [Std.ExtTreeMap.getElem?_insert] at hgray
    refine List.mem_append_right _ ?_
    by_cases hsame : node = table
    · rw [hsame]
      exact List.mem_cons_self
    · rw [if_neg (by simpa using hsame)] at hgray
      obtain heq | hold := List.mem_cons.1 (h.opened table hgray)
      · cases heq
      · exact List.mem_cons_of_mem _ hold
  · intro table hmem
    obtain hnew | hold := List.mem_append.1 hmem
    · obtain ⟨e, he, -, heq⟩ := hpushes _ hnew
      rw [(Prod.mk.inj heq).2]
      exact mem_tables he
    · obtain heq | hold := List.mem_cons.1 hold
      · cases heq
      · exact h.entering table (List.mem_cons_of_mem _ hold)
  · intro table hmem
    obtain hnew | hold := List.mem_append.1 hmem
    · obtain ⟨e, -, -, heq⟩ := hpushes _ hnew
      cases heq
    · obtain heq | hold := List.mem_cons.1 hold
      · rw [(Prod.mk.inj heq).2]
        exact List.mem_cons_self
      · exact List.mem_cons_of_mem _ (h.leaving table (List.mem_cons_of_mem _ hold))
  -- each pushed table is one edge from the entered one, and so beyond all that are open
  · refine List.pairwise_append.2 ⟨?_, List.pairwise_cons.2 ⟨fun _ _ hfalse => ?_, hstack⟩, ?_⟩
    · refine List.pairwise_of_forall_mem_list fun x _ y hy _ hfalse => ?_
      obtain ⟨e, -, -, rfl⟩ := hpushes y hy
      cases hfalse
    · cases hfalse
    · intro x hx y hy _ hleaves
      obtain ⟨e, he, hfrom, rfl⟩ := hpushes x hx
      obtain rfl | hold := List.mem_cons.1 hy
      · exact .single ⟨e, he, hfrom, rfl⟩
      · exact (habove y hold rfl hleaves).tail ⟨e, he, hfrom, rfl⟩

theorem Searching.leave {visited : List String} {stack : List (Bool × String)} {s : CycleSearch}
    {node : String} (h : g.Searching visited ((false, node) :: stack) s) :
    g.Searching visited stack
      { s with colors := s.colors.insert node .Black, path := s.path.dropLast } := by
  have hmine : node ∈ visited := h.leaving node List.mem_cons_self
  refine ⟨h.none_found, ?_, ?_, ?_, ?_, ?_, (List.pairwise_cons.1 h.above).2⟩
  · intro table hmem hnew
    have hne : node ≠ table := by
      rintro rfl
      exact hnew hmine
    rw [Std.ExtTreeMap.getElem?_insert, if_neg (by simpa using hne)]
    exact h.white table hmem hnew
  · intro table hmem
    rw [Std.ExtTreeMap.getElem?_insert]
    by_cases hsame : node = table
    · exact .inr (if_pos (by simpa using hsame))
    · rw [if_neg (by simpa using hsame)]
      exact h.dark table hmem
  · intro table hgray
    rw [Std.ExtTreeMap.getElem?_insert] at hgray
    by_cases hsame : node = table
    · rw [if_pos (by simpa using hsame)] at hgray
      cases hgray
    · rw [if_neg (by simpa using hsame)] at hgray
      obtain heq | hold := List.mem_cons.1 (h.opened table hgray)
      · exact absurd (Prod.mk.inj heq).2.symm hsame
      · exact hold
  · exact fun table hmem => h.entering table (List.mem_cons_of_mem _ hmem)
  · exact fun table hmem => h.leaving table (List.mem_cons_of_mem _ hmem)

theorem Searching.skip {visited : List String} {stack : List (Bool × String)} {s : CycleSearch}
    {node : String} (h : g.Searching visited ((true, node) :: stack) s) :
    g.Searching visited stack s := by
  refine ⟨h.none_found, h.white, h.dark, ?_, ?_, ?_, (List.pairwise_cons.1 h.above).2⟩
  · intro table hgray
    obtain heq | hold := List.mem_cons.1 (h.opened table hgray)
    · cases heq
    · exact hold
  · exact fun table hmem => h.entering table (List.mem_cons_of_mem _ hmem)
  · exact fun table hmem => h.leaving table (List.mem_cons_of_mem _ hmem)

/-- In a graph without a cycle the loop comes to its end, and finds none. -/
theorem Searching.loop (hwf : g.WellFormed) {visited : List String} {fuel : Nat}
    {stack : List (Bool × String)} {s : CycleSearch} (h : g.Searching visited stack s)
    (hfuel : stack.length + remaining g.expansion g.tables visited < fuel) :
    ∃ visited', g.Searching visited' [] (g.detect_cycles_loop fuel stack s) := by
  -- on the fuel: a round pops an entry, or spends what is left of the expansion of a new table
  induction fuel generalizing visited stack s with
  | zero => omega
  | succ fuel ih =>
      rcases stack with _ | ⟨⟨_ | _, node⟩, stack⟩
      · exact ⟨visited, h⟩
      · rw [List.length_cons] at hfuel
        rw [detect_cycles_loop]
        exact ih h.leave (by omega)
      · rw [List.length_cons] at hfuel
        rw [detect_cycles_loop]
        by_cases hvisited : node ∈ visited
        · obtain hgray | hblack := h.dark node hvisited
          · -- it stands below the entry, which leads back to it
            have hbelow : (false, node) ∈ stack := by
              obtain heq | hold := List.mem_cons.1 (h.opened node hgray)
              · cases heq
              · exact hold
            have hcycle := (List.pairwise_cons.1 h.above).1 _ hbelow rfl rfl
            exact absurd hcycle (hwf.acyclic node)
          · simp only [hblack]
            exact ih h.skip (by omega)
        · have hmem : node ∈ g.tables := h.entering node List.mem_cons_self
          have hwhite := h.white node hmem hvisited
          simp only [hwhite]
          suffices hexpanded : ∀ entries, (∃ pushes : List (Bool × String),
              entries = pushes ++ (false, node) :: stack
                ∧ pushes.length ≤ (g.edges_from node).length
                ∧ ∀ x ∈ pushes, ∃ e ∈ g.edges_from node, x = (true, e.to_table)) →
              ∃ visited', g.Searching visited' [] (g.detect_cycles_loop fuel entries
                { s with colors := s.colors.insert node .Gray, path := s.path ++ [node] }) by
            refine hexpanded _ (foldl_pushes (fun stack e => ?_) _ _)
            split
            · exact .inl rfl
            · exact .inl rfl
            · exact .inr rfl
          rintro entries ⟨pushes, rfl, hlength, hpushes⟩
          have hpaid := remaining_expand g.expansion hmem hvisited
          rw [expansion, List.length_cons, List.length_map] at hpaid
          refine ih (h.enter fun x hx => ?_) ?_
          · obtain ⟨e, he, rfl⟩ := hpushes x hx
            rw [hwf.grouped.edges_from] at he
            obtain ⟨he, hfrom⟩ := List.mem_filter.1 he
            exact ⟨e, he, of_decide_eq_true hfrom, rfl⟩
          · rw [List.length_append, List.length_cons]
            omega

/-- There is always fuel enough. -/
theorem remaining_tables_le (h : g.Grouped) (visited : List String) :
    remaining g.expansion g.tables visited ≤ g.tables.length + g.edges.length := by
  have hnodup : g.tables.Nodup := Std.ExtTreeMap.nodup_keys
  have hall : remaining g.expansion g.tables visited
      ≤ (g.tables.map fun table => 1 + (g.edges_from table).length).sum := by
    refine List.sum_le_sum fun table _ => ?_
    split
    · exact Nat.zero_le _
    · rw [expansion, List.length_cons, List.length_map]
      omega
  have hsum : (g.tables.map fun table => 1 + (g.edges_from table).length).sum
      = g.tables.length + (g.tables.map fun table => (g.edges_from table).length).sum := by
    induction g.tables with
    | nil => rfl
    | cons table tables ih =>
        rw [List.map_cons, List.map_cons, List.sum_cons, List.sum_cons, ih, List.length_cons]
        omega
  have hedges := sum_leaving_le RelationEdge.from_table hnodup g.edges
  simp only [h.edges_from] at hsum hall
  omega

/-- All tables in one colour, over what there was. -/
theorem getElem?_painted (color : Color) (tables : List String) (colors : Map String Color)
    (table : String) : (tables.foldl (fun m t => m.insert t color) colors)[table]?
      = if table ∈ tables then some color else colors[table]? := by
  induction tables generalizing colors with
  | nil =>
      rw [if_neg List.not_mem_nil]
      rfl
  | cons t tables ih =>
      rw [List.foldl_cons, ih, Std.ExtTreeMap.getElem?_insert]
      by_cases hrest : table ∈ tables
      · rw [if_pos hrest, if_pos (List.mem_cons_of_mem _ hrest)]
      · by_cases hsame : t = table
        · simp [hsame]
        · simp [hrest, hsame, Ne.symm hsame]

theorem searching_start (g : RelationGraph) : g.Searching [] []
    { colors := g.tables.foldl (fun m t => m.insert t .White) ∅, cycles := [], path := [] } := by
  refine ⟨rfl, fun table hmem _ => ?_, nofun, fun table hgray => ?_, nofun, nofun, .nil⟩
  · rw [getElem?_painted, if_pos hmem]
  · rw [getElem?_painted] at hgray
    split at hgray
    · cases hgray
    · rw [Std.ExtTreeMap.getElem?_empty] at hgray
      cases hgray

/-- Between two rounds of the outer loop the stack is empty, and any table may be next. -/
theorem Searching.round {visited : List String} {s : CycleSearch} (h : g.Searching visited [] s)
    {start : String} (hstart : start ∈ g.tables) : g.Searching visited [(true, start)] s := by
  refine ⟨h.none_found, h.white, h.dark, fun table hgray => ?_, ?_, ?_, ?_⟩
  · cases h.opened table hgray
  · intro table htable
    rw [(Prod.mk.inj (List.mem_singleton.1 htable)).2]
    exact hstart
  · intro table htable
    cases List.mem_singleton.1 htable
  · exact List.pairwise_singleton _ _

/-- Nothing is found in a graph without a cycle. -/
theorem WellFormed.detect_cycles (h : g.WellFormed) : g.detect_cycles = [] := by
  have hfuel : ∀ visited : List String, 1 + remaining g.expansion g.tables visited
      < 2 * (g.tables.length + g.edges.length) + 2 := by
    intro visited
    have hle := remaining_tables_le h.grouped visited
    omega
  -- one round for each table that is still white
  have hrounds : ∀ (starts : List String), (∀ table ∈ starts, table ∈ g.tables) →
      ∀ (visited : List String) (s : CycleSearch), g.Searching visited [] s →
        ∃ visited', g.Searching visited' [] (starts.foldl (fun s start_node =>
          if s.colors[start_node]? = some .White then
            g.detect_cycles_loop (2 * (g.tables.length + g.edges.length) + 2)
              [(true, start_node)] s
          else s) s) := by
    intro starts
    induction starts with
    | nil => exact fun _ visited s hs => ⟨visited, hs⟩
    | cons start starts ih =>
        intro hmem visited s hs
        have hrest := fun table htable => hmem table (List.mem_cons_of_mem _ htable)
        rw [List.foldl_cons]
        split
        · have hone := hs.round (hmem start List.mem_cons_self)
          obtain ⟨visited', hs'⟩ := hone.loop h (hfuel visited)
          exact ih hrest visited' _ hs'
        · exact ih hrest visited s hs
  obtain ⟨visited, hend⟩ := hrounds g.tables (fun _ hmem => hmem) [] _ g.searching_start
  exact hend.none_found

end RelationGraph

end Scharnhorst
