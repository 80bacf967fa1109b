/-
The searches of any relation graph, with cycles or without.

`add_edge_unchecked` takes any edge, so a graph may have loops, edges twice and cycles, and
only the index of the edges by their source can be relied on. The tables of a graph are a
set in the source, in no order, and here the search is given them in an order. Its loops
say when their rounds run out, so that an answer is one the source comes to as well.

The colours of the search are those of the three-colour search over the targets of edges,
and each of its rounds is one of that search. So it ends, lists nothing exactly if there is
no cycle, and lists cycles only.
-/
import Scharnhorst.RelationSpec
import Scharnhorst.ThreeColors

set_option autoImplicit false

namespace Scharnhorst

open Relation Search

namespace RelationGraph

def add_edge_unchecked (g : RelationGraph) (edge : RelationEdge) : RelationGraph where
  edges := g.edges ++ [edge]
  adjacency :=
    g.adjacency.insert edge.from_table
      (g.adjacency.getD edge.from_table [] ++ [g.edges.length])

/-- The graphs there are. -/
inductive Built : RelationGraph → Prop
  | new : Built .new
  | add_edge {g : RelationGraph} (h : Built g) (edge : RelationEdge) : Built (g.add_edge edge).2
  | add_edge_unchecked {g : RelationGraph} (h : Built g) (edge : RelationEdge) :
    Built (g.add_edge_unchecked edge)
  | remove_edge {g : RelationGraph} (h : Built g) (table_from table_to : String) :
    Built (g.remove_edge table_from table_to).2

/-- `while let Some(current) = stack.pop()`. Without an answer the rounds have run out. -/
def would_create_cycle_rounds (g : RelationGraph) (start : String) :
    Nat → List String → Map String Unit → Option Bool
  | 0, _, _ => none
  | _ + 1, [], _ => some false
  | rounds + 1, current :: stack, visited =>
    if current = start then some true
    else if visited.contains current then g.would_create_cycle_rounds start rounds stack visited
    else
      g.would_create_cycle_rounds start rounds
        ((g.edges_from current).foldl (fun stack e => e.to_table :: stack) stack)
        (visited.insert current ())

/-- `while let Some((is_entering, node)) = stack.pop()`. Without an answer the rounds have
run out. -/
def detect_cycles_rounds (g : RelationGraph) :
    Nat → List (Bool × String) → CycleSearch → Option CycleSearch
  | 0, _, _ => none
  | _ + 1, [], s => some s
  | rounds + 1, (true, node) :: stack, s =>
    match s.colors[node]? with
    | some .Black => g.detect_cycles_rounds rounds stack s
    | some .Gray =>
      let cycle_start := (s.path.findIdx? (· = node)).getD 0
      g.detect_cycles_rounds rounds stack
        { s with cycles := s.cycles ++ [s.path.drop cycle_start] }
    | _ =>
      let colors := s.colors.insert node .Gray
      let stack := (g.edges_from node).foldl (fun stack e =>
        match colors[e.to_table]? with
        | some .White | some .Gray => (true, e.to_table) :: stack
        | _ => stack) ((false, node) :: stack)
      g.detect_cycles_rounds rounds stack { s with colors, path := s.path ++ [node] }
  | rounds + 1, (false, node) :: stack, s =>
    g.detect_cycles_rounds rounds stack
      { s with colors := s.colors.insert node .Black, path := s.path.dropLast }

/-- The cycles, where the tables come in this order out of their set. -/
def detect_cycles_from (g : RelationGraph) (all_tables : List String) :
    Option (List (List String)) :=
  let s : CycleSearch :=
    { colors := all_tables.foldl (fun m t => m.insert t .White) ∅, cycles := [], path := [] }
  let rounds := 2 * (all_tables.length + g.edges.length) + 2
  (all_tables.foldlM (fun s start_node =>
    if s.colors[start_node]? = some .White then
      g.detect_cycles_rounds rounds [(true, start_node)] s
    else some s) s).map CycleSearch.cycles

variable {g : RelationGraph}

theorem Built.grouped (h : Built g) : g.Grouped := by
  induction h with
  | new => exact fun _ => rfl
  | @add_edge g _ edge ih =>
      rw [RelationGraph.add_edge]
      split
      · exact ih
      · split
        · exact ih
        · exact grouped_concat ih edge
  | add_edge_unchecked _ edge ih => exact grouped_concat ih edge
  | @remove_edge g _ table_from table_to ih =>
      rw [RelationGraph.remove_edge]
      split
      · exact ih
      · exact grouped_rebuild _

/-! ## The search before an insertion -/

theorem would_create_cycle_rounds_eq {start : String} {visited : Map String Unit}
    {seen : List String} (h : ∀ table, visited.contains table = true ↔ table ∈ seen)
    (rounds : Nat) (stack : List String) :
    g.would_create_cycle_rounds start rounds stack visited
      = depth_first g.edges_from RelationEdge.to_table start rounds stack seen := by
  induction rounds generalizing stack visited seen with
  | zero => rfl
  | succ rounds ih =>
      rcases stack with _ | ⟨current, stack⟩
      · rfl
      · rw [would_create_cycle_rounds, depth_first, ih h, ih (contains_insert_iff h current)]
        simp only [h current]

/-- There are rounds enough. -/
theorem Grouped.would_create_cycle_rounds (h : g.Grouped) (start target : String) :
    g.would_create_cycle_rounds start (g.edges.length + 2) [target] ∅
      = some (g.would_create_cycle start target) := by
  have hends : (depth_first g.edges_from RelationEdge.to_table start (g.edges.length + 2)
      [target] []).isSome := depth_first_ends h.leaves h.rounds
  obtain ⟨found, hfound⟩ := Option.isSome_iff_exists.1 hends
  have hnone : ∀ table, (∅ : Map String Unit).contains table = true ↔ table ∈ [] := by simp
  rw [would_create_cycle_rounds_eq hnone, would_create_cycle, would_create_cycle_loop_eq hnone,
    hfound]
  rfl

/-! ## The search of the whole graph -/

/-- The colours are those of the three-colour search. -/
structure Colored (g : RelationGraph) (s : CycleSearch) (t : Trail String) : Prop where
  white : ∀ table ∈ g.tables, table ∉ t.entered → s.colors[table]? = some .White
  gray : ∀ table ∈ t.path, s.colors[table]? = some .Gray
  black : ∀ table, t.Black table → s.colors[table]? = some .Black
  path : s.path = t.path
  cycles : s.cycles = t.cycles

variable {s : CycleSearch} {t : Trail String} {stack : List (Bool × String)} {node : String}

theorem Colored.leave (h : g.Colored s t)
    (ht : Traced g.edges_from RelationEdge.to_table ((false, node) :: stack) t) :
    g.Colored { s with colors := s.colors.insert node .Black, path := s.path.dropLast }
      t.leave := by
  have hnode : t.leave.Black node := ht.black_leave.2 (.inr rfl)
  refine ⟨fun table hmem hnew => ?_, fun table hpath => ?_, fun table hblack => ?_, ?_,
    h.cycles⟩
  · have hne : node ≠ table := by
      rintro rfl
      exact hnew hnode.1
    rw [Std.ExtTreeMap.getElem?_insert, if_neg (by simpa using hne)]
    exact h.white table hmem hnew
  · have hne : node ≠ table := by
      rintro rfl
      exact hnode.2 hpath
    rw [Std.ExtTreeMap.getElem?_insert, if_neg (by simpa using hne)]
    exact h.gray table (t.path.dropLast_subset hpath)
  · rw [Std.ExtTreeMap.getElem?_insert]
    by_cases hsame : node = table
    · rw [if_pos (by simpa using hsame)]
    · rw [if_neg (by simpa using hsame)]
      exact h.black table ((ht.black_leave.1 hblack).resolve_right (Ne.symm hsame))
  · show s.path.dropLast = t.path.dropLast
    rw [h.path]

theorem Colored.enter (h : g.Colored s t) (hnew : node ∉ t.entered) :
    g.Colored { s with colors := s.colors.insert node .Gray, path := s.path ++ [node] }
      (t.enter node) := by
  refine ⟨fun table hmem hnew' => ?_, fun table hpath => ?_, fun table hblack => ?_, ?_,
    h.cycles⟩
  · obtain ⟨hne, hnew'⟩ := not_or.1 (fun hor => hnew' (List.mem_cons.2 hor))
    rw [Std.ExtTreeMap.getElem?_insert, if_neg (by simpa using Ne.symm hne)]
    exact h.white table hmem hnew'
  · rw [Std.ExtTreeMap.getElem?_insert]
    by_cases hsame : node = table
    · rw [if_pos (by simpa using hsame)]
    · rw [if_neg (by simpa using hsame)]
      obtain hold | hlast := List.mem_append.1 hpath
      · exact h.gray table hold
      · exact absurd (List.mem_singleton.1 hlast).symm hsame
  · have hne : node ≠ table := by
      rintro rfl
      exact hnew ((black_enter hnew).1 hblack).1
    rw [Std.ExtTreeMap.getElem?_insert, if_neg (by simpa using hne)]
    exact h.black table ((black_enter hnew).1 hblack)
  · show s.path ++ [node] = t.path ++ [node]
    rw [h.path]

theorem Colored.close (h : g.Colored s t) (hpath : node ∈ t.path) :
    g.Colored { s with cycles := s.cycles ++ [s.path.drop
      ((s.path.findIdx? (· = node)).getD 0)] } (t.close node) := by
  have hstart : (t.path.findIdx? (· = node)).getD 0 = t.path.idxOf node := by
    rw [List.findIdx?_eq_some_of_exists ⟨node, hpath, by simp⟩, Option.getD_some, List.idxOf]
    rfl
  refine ⟨h.white, h.gray, h.black, h.path, ?_⟩
  show s.cycles ++ [s.path.drop ((s.path.findIdx? (· = node)).getD 0)]
    = t.cycles ++ [t.path.drop (t.path.idxOf node)]
  rw [h.cycles, h.path, hstart]

/-- What is pushed are the targets that are not black. -/
theorem Colored.pushes (h : g.Colored s t) {edges : List RelationEdge}
    (htables : ∀ e ∈ edges, e.to_table ∈ g.tables) (stack : List (Bool × String)) :
    edges.foldl (fun stack e =>
        match s.colors[e.to_table]? with
        | some .White | some .Gray => (true, e.to_table) :: stack
        | _ => stack) stack
      = (((edges.map RelationEdge.to_table).filter fun w => ¬ t.Black w).reverse.map
          fun w => (true, w)) ++ stack := by
  induction edges generalizing stack with
  | nil => rfl
  | cons e edges ih =>
      rw [List.foldl_cons, ih fun e he => htables e (List.mem_cons_of_mem _ he), List.map_cons]
      by_cases hblack : t.Black e.to_table
      · rw [List.filter_cons_of_neg (by simpa using hblack), h.black _ hblack]
      · rw [List.filter_cons_of_pos (by simpa using hblack), List.reverse_cons,
          List.map_append, List.append_assoc]
        congr 1
        by_cases hpath : e.to_table ∈ t.path
        · rw [h.gray _ hpath]
          rfl
        · rw [h.white _ (htables e List.mem_cons_self) fun hin => hblack ⟨hin, hpath⟩]
          rfl

/-- One entry is taken from the stack, as in the three-colour search. -/
theorem Colored.round (hg : g.Grouped) (h : g.Colored s t) {entry : Bool × String}
    (ht : Traced g.edges_from RelationEdge.to_table (entry :: stack) t)
    (htables : ∀ table, (true, table) ∈ entry :: stack → table ∈ g.tables) :
    ∃ s', g.Colored s' (color_round g.edges_from RelationEdge.to_table entry stack t).2
      ∧ ∀ rounds, g.detect_cycles_rounds (rounds + 1) (entry :: stack) s
        = g.detect_cycles_rounds rounds
          (color_round g.edges_from RelationEdge.to_table entry stack t).1 s' := by
  obtain ⟨_ | _, node⟩ := entry
  · exact ⟨_, h.leave ht, fun _ => rfl⟩
  · rw [color_round]
    -- the colour of the table says whether it is on the path, left, or new
    by_cases hgray : node ∈ t.path
    · rw [if_pos hgray]
      refine ⟨_, h.close hgray, fun rounds => ?_⟩
      rw [detect_cycles_rounds, h.gray node hgray]
    · rw [if_neg hgray]
      by_cases hentered : node ∈ t.entered
      · rw [if_pos hentered]
        refine ⟨s, h, fun rounds => ?_⟩
        rw [detect_cycles_rounds, h.black node ⟨hentered, hgray⟩]
      · rw [if_neg hentered]
        have hwhite := h.white node (htables node List.mem_cons_self) hentered
        have hto : ∀ e ∈ g.edges_from node, e.to_table ∈ g.tables := by
          intro e he
          rw [hg.edges_from] at he
          exact mem_tables (List.mem_of_mem_filter he)
        refine ⟨_, h.enter hentered, fun rounds => ?_⟩
        rw [detect_cycles_rounds, hwhite]
        exact congrArg (g.detect_cycles_rounds rounds · _)
          ((h.enter hentered).pushes hto ((false, node) :: stack))

theorem tables_round (hg : g.Grouped) {entry : Bool × String}
    (htables : ∀ table, (true, table) ∈ entry :: stack → table ∈ g.tables) (table : String)
    (hmem : (true, table)
      ∈ (color_round g.edges_from RelationEdge.to_table entry stack t).1) :
    table ∈ g.tables := by
  have hrest : (true, table) ∈ stack → table ∈ g.tables :=
    fun hmem => htables table (List.mem_cons_of_mem _ hmem)
  obtain ⟨_ | _, node⟩ := entry
  · exact hrest hmem
  · rw [color_round] at hmem
    split at hmem
    · exact hrest hmem
    · split at hmem
      · exact hrest hmem
      · obtain hpushed | hold := List.mem_append.1 hmem
        · obtain ⟨e, he, -, heq⟩ := mem_pushes.1 hpushed
          rw [hg.edges_from] at he
          rw [(Prod.mk.inj heq).2]
          exact mem_tables (List.mem_of_mem_filter he)
        · obtain heq | hold := List.mem_cons.1 hold
          · cases heq
          · exact hrest hold

theorem Colored.rounds (hg : g.Grouped) {rounds : Nat} {t' : Trail String} (h : g.Colored s t)
    (ht : Traced g.edges_from RelationEdge.to_table stack t)
    (htables : ∀ table, (true, table) ∈ stack → table ∈ g.tables)
    (hrun : three_color g.edges_from RelationEdge.to_table rounds stack t = some t') :
    ∃ s', g.detect_cycles_rounds rounds stack s = some s' ∧ g.Colored s' t' := by
  induction rounds generalizing stack s t with
  | zero => cases hrun
  | succ rounds ih =>
      rcases stack with _ | ⟨entry, stack⟩
      · obtain rfl := Option.some.inj hrun
        exact ⟨s, rfl, h⟩
      · obtain ⟨s₁, h₁, hround⟩ := h.round hg ht htables
        rw [hround]
        exact ih h₁ ht.round (tables_round hg htables) hrun

/-- One search after another, each from a table that is still white. -/
theorem Colored.searches (hg : g.Grouped) {rounds : Nat} {starts : List String}
    {t' : Trail String} (h : g.Colored s t)
    (ht : Sound g.edges_from RelationEdge.to_table [] t) (hstarts : ∀ v ∈ starts, v ∈ g.tables)
    (hrun : three_color_all g.edges_from RelationEdge.to_table rounds starts t = some t') :
    ∃ s', starts.foldlM (fun s start_node =>
        if s.colors[start_node]? = some .White then
          g.detect_cycles_rounds rounds [(true, start_node)] s
        else some s) s = some s' ∧ g.Colored s' t' := by
  induction starts generalizing s t with
  | nil =>
      obtain rfl := Option.some.inj hrun
      exact ⟨s, rfl, h⟩
  | cons start starts ih =>
      have hstart := hstarts start List.mem_cons_self
      have hrest := fun v hv => hstarts v (List.mem_cons_of_mem _ hv)
      rw [three_color_all, List.foldlM_cons] at hrun
      obtain ⟨t₁, hrun₁, hrun₂⟩ := Option.bind_eq_some_iff.1 hrun
      rw [List.foldlM_cons]
      -- between two searches no table is gray
      by_cases hentered : start ∈ t.entered
      · rw [if_pos hentered] at hrun₁
        obtain rfl := Option.some.inj hrun₁
        have hpath : start ∉ t.path := by
          rw [ht.1.stacked.path_nil]
          exact List.not_mem_nil
        rw [h.black start ⟨hentered, hpath⟩, if_neg (by simp)]
        exact ih h ht hrest hrun₂
      · rw [if_neg hentered] at hrun₁
        rw [h.white start hstart hentered, if_pos rfl]
        obtain ⟨s₁, hrounds, h₁⟩ := h.rounds hg (ht.start start).1 (fun table htable => by
          rw [(Prod.mk.inj (List.mem_singleton.1 htable)).2]
          exact hstart) hrun₁
        rw [hrounds]
        exact ih h₁ (three_color_keeps (fun _ _ _ => Sound.round) (ht.start start) hrun₁)
          hrest hrun₂

theorem colored_start {all_tables : List String} (hperm : all_tables.Perm g.tables) :
    g.Colored
      { colors := all_tables.foldl (fun m t => m.insert t .White) ∅, cycles := [], path := [] }
      ⟨[], [], []⟩ := by
  refine ⟨fun table hmem _ => ?_, nofun, fun table hblack => ?_, rfl, rfl⟩
  · rw [getElem?_painted, if_pos (hperm.mem_iff.2 hmem)]
  · cases hblack.1

/-- In any order of the tables the search ends, lists nothing exactly if there is no cycle,
and lists cycles only. -/
theorem Grouped.detect_cycles_from (h : g.Grouped) {all_tables : List String}
    (hperm : all_tables.Perm g.tables) :
    ∃ cycles, g.detect_cycles_from all_tables = some cycles
      ∧ (cycles = [] ↔ Acyclic (Joined g.edges))
      ∧ ∀ cycle ∈ cycles, Circle (Joined g.edges) cycle := by
  have hheads : ∀ table, ∀ e ∈ g.edges_from table, e.to_table ∈ all_tables := by
    intro table e he
    rw [h.edges_from] at he
    exact hperm.mem_iff.2 (mem_tables (List.mem_of_mem_filter he))
  have hfuel : 1 + remaining (expanding g.edges_from) all_tables []
      < 2 * (all_tables.length + g.edges.length) + 2 := by
    have hsame : remaining (expanding g.edges_from) all_tables []
        = remaining g.expansion g.tables [] := (hperm.map _).sum_eq
    have hle := remaining_tables_le h []
    rw [hsame, hperm.length_eq]
    omega
  obtain ⟨t, hrun, hnone, hcycles⟩ := three_color_all_spec hheads hfuel
  obtain ⟨s, hsearch, hcolored⟩ := (colored_start hperm).searches h
    (sound_nil g.edges_from RelationEdge.to_table) (fun v hv => hperm.mem_iff.1 hv) hrun
  rw [h.leads_eq] at hnone hcycles
  refine ⟨s.cycles, ?_, ?_, ?_⟩
  · rw [RelationGraph.detect_cycles_from, hsearch]
    rfl
  · rw [hcolored.cycles]
    exact hnone
  · rw [hcolored.cycles]
    exact hcycles

theorem loop_of_rounds {rounds : Nat} {s' : CycleSearch}
    (h : g.detect_cycles_rounds rounds stack s = some s') :
    g.detect_cycles_loop rounds stack s = s' := by
  induction rounds generalizing stack s with
  | zero => cases h
  | succ rounds ih =>
      rcases stack with _ | ⟨⟨_ | _, node⟩, stack⟩
      · exact Option.some.inj h
      · exact ih h
      · rw [detect_cycles_rounds] at h
        rw [detect_cycles_loop]
        rcases hcolor : s.colors[node]? with _ | _ | _ | _
        all_goals
          rw [hcolor] at h
          exact ih h

/-- In key order of the tables it is the search of `detect_cycles`. -/
theorem Grouped.detect_cycles (h : g.Grouped) :
    (g.detect_cycles = [] ↔ Acyclic (Joined g.edges))
      ∧ ∀ cycle ∈ g.detect_cycles, Circle (Joined g.edges) cycle := by
  -- the loops without an answer of their own come to the same state
  have hsame : ∀ (rounds : Nat) (starts : List String) (s s' : CycleSearch),
      starts.foldlM (fun s start_node =>
        if s.colors[start_node]? = some .White then
          g.detect_cycles_rounds rounds [(true, start_node)] s
        else some s) s = some s' →
      starts.foldl (fun s start_node =>
        if s.colors[start_node]? = some .White then
          g.detect_cycles_loop rounds [(true, start_node)] s
        else s) s = s' := by
    intro rounds starts
    induction starts with
    | nil => exact fun s s' hrun => Option.some.inj hrun
    | cons start starts ih =>
        intro s s' hrun
        rw [List.foldlM_cons] at hrun
        obtain ⟨s₁, hrun₁, hrun₂⟩ := Option.bind_eq_some_iff.1 hrun
        rw [List.foldl_cons]
        by_cases hwhite : s.colors[start]? = some .White
        · rw [if_pos hwhite] at hrun₁ ⊢
          rw [loop_of_rounds hrun₁]
          exact ih s₁ s' hrun₂
        · rw [if_neg hwhite] at hrun₁ ⊢
          obtain rfl := Option.some.inj hrun₁
          exact ih s s' hrun₂
  obtain ⟨cycles, hfrom, hspec⟩ := h.detect_cycles_from (List.Perm.refl g.tables)
  obtain ⟨s, hrun, rfl⟩ := Option.map_eq_some_iff.1 hfrom
  have hcycles : g.detect_cycles = s.cycles :=
    congrArg CycleSearch.cycles (hsame _ _ _ s hrun)
  rw [hcycles]
  exact hspec

/-- Whatever edges a graph was built from, the search of the whole graph ends in any order of
its tables, lists nothing exactly if no table reaches itself, and lists cycles only. The
search before an insertion ends, and says whether its start can be reached. -/
theorem cycle_detection_correct (h : Built g) :
    (∀ all_tables : List String, all_tables.Perm g.tables →
      ∃ cycles, g.detect_cycles_from all_tables = some cycles
        ∧ (cycles = [] ↔ Acyclic (Joined g.edges))
        ∧ ∀ cycle ∈ cycles, Circle (Joined g.edges) cycle)
    ∧ ∀ start target : String, ∃ answer : Bool,
      g.would_create_cycle_rounds start (g.edges.length + 2) [target] ∅ = some answer
        ∧ (answer = true ↔ ReflTransGen (Joined g.edges) target start) :=
  ⟨fun _ hperm => h.grouped.detect_cycles_from hperm,
    fun start target => ⟨g.would_create_cycle start target,
      h.grouped.would_create_cycle_rounds start target,
      h.grouped.would_create_cycle_iff start target⟩⟩

/-- Two tables that refer to each other. -/
def mutual_graph : RelationGraph :=
  (RelationGraph.new.add_edge_unchecked ⟨"realm", "ruler", .OneToMany, "ruler_id", none⟩)
    |>.add_edge_unchecked ⟨"ruler", "realm", .OneToMany, "realm_id", none⟩

/-- Their cycle is found from either side. -/
theorem mutual_graph_searched :
    ∃ cycles, mutual_graph.detect_cycles_from mutual_graph.tables.reverse = some cycles
      ∧ cycles ≠ [] ∧ ∀ cycle ∈ cycles, Circle (Joined mutual_graph.edges) cycle := by
  have hbuilt : Built mutual_graph := .add_edge_unchecked (.add_edge_unchecked .new _) _
  obtain ⟨cycles, hsearch, hnone, hcycles⟩ :=
    (cycle_detection_correct hbuilt).1 _ (List.reverse_perm _)
  refine ⟨cycles, hsearch, fun hnil => ?_, hcycles⟩
  have hthere : Joined mutual_graph.edges "realm" "ruler" :=
    ⟨_, List.mem_cons_self, rfl, rfl⟩
  have hback : Joined mutual_graph.edges "ruler" "realm" :=
    ⟨_, List.mem_cons_of_mem _ List.mem_cons_self, rfl, rfl⟩
  exact hnone.1 hnil "realm" ((TransGen.single hthere).tail hback)

end RelationGraph

end Scharnhorst
