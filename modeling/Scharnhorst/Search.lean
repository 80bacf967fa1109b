/-
Two ways of looking for a goal in a graph.

A graph is given by the edges that leave each vertex, in an order, and by the vertex that
each edge leads to. Breadth-first search keeps a queue of vertices with the edges that led
to them, and the vertices it has expanded. A walk that always takes the first edge keeps
nothing but a count of the steps that it may still take.

Both are loops and are given fuel. How much is always enough is part of what is proved:
for the search the number of edges, for the walk the number of vertices that edges leave.
With that, the search finds the goal if any path leads there, and the walk if the one path
of first edges does. Nothing here names the repository.
-/
import Mathlib.Algebra.Order.BigOperators.Group.List
import Mathlib.Algebra.Order.Group.Nat
import Mathlib.Algebra.Ring.Nat
import Mathlib.Data.List.Perm.Subperm
import Mathlib.Logic.Relation
import Mathlib.Tactic.Common

set_option autoImplicit false

namespace Scharnhorst.Search

open Relation

variable {α ε : Type} [DecidableEq α]

/-! ## Breadth-first search -/

/-- `while let Some((current, path)) = queue.pop_front()`. Without an outcome the fuel has
run out. -/
def breadth_first (out : α → List ε) (head : ε → α) (goal : α) :
    Nat → List (α × List ε) → List α → Option (Option (List ε))
  | 0, _, _ => none
  | _ + 1, [], _ => some none
  | fuel + 1, (current, path) :: queue, visited =>
    if current = goal then some (some path)
    else if current ∈ visited then breadth_first out head goal fuel queue visited
    else
      breadth_first out head goal fuel
        (queue ++ (out current).map fun e => (head e, path ++ [e])) (current :: visited)

/-- An edge leads from one vertex to the other. -/
def Leads (out : α → List ε) (head : ε → α) (a b : α) : Prop := ∃ e ∈ out a, head e = b

variable {out : α → List ε} {head : ε → α} {goal : α} {fuel : Nat} {queue : List (α × List ε)}
  {visited : List α}

/-! The fuel. -/

/-- The edges that leave vertices not expanded so far. -/
def remaining (out : α → List ε) (vertices visited : List α) : Nat :=
  (vertices.map fun v => if v ∈ visited then 0 else (out v).length).sum

variable (out) in
theorem remaining_cons_le (vertices visited : List α) (current : α) :
    remaining out vertices (current :: visited) ≤ remaining out vertices visited := by
  refine List.sum_le_sum fun v _ => ?_
  by_cases hv : v ∈ visited
  · rw [if_pos hv, if_pos (List.mem_cons_of_mem _ hv)]
  · rw [if_neg hv]
    split <;> omega

variable (out) in
/-- Expanding a vertex uses up its edges. -/
theorem remaining_expand {vertices visited : List α} {current : α} (hmem : current ∈ vertices)
    (hnew : current ∉ visited) :
    remaining out vertices (current :: visited) + (out current).length
      ≤ remaining out vertices visited := by
  induction vertices with
  | nil => cases hmem
  | cons v vertices ih =>
      simp only [remaining, List.map_cons, List.sum_cons]
      by_cases hv : v = current
      · subst hv
        have hrest := remaining_cons_le out vertices visited v
        simp only [remaining] at hrest
        rw [if_pos List.mem_cons_self, if_neg hnew]
        omega
      · have hrest := ih ((List.mem_cons.1 hmem).resolve_left fun h => hv h.symm)
        have hsame : v ∈ current :: visited ↔ v ∈ visited := by simp [hv]
        simp only [remaining] at hrest
        simp only [hsame]
        omega

/-- The search ends within as many rounds as there are edges to expand, and one for each
entry of the queue. -/
theorem breadth_first_ends {vertices : List α} (hall : ∀ v, out v ≠ [] → v ∈ vertices)
    (hfuel : queue.length + remaining out vertices visited < fuel) :
    (breadth_first out head goal fuel queue visited).isSome := by
  induction fuel generalizing queue visited with
  | zero => omega
  | succ fuel ih =>
      rcases queue with _ | ⟨⟨current, path⟩, queue⟩
      · rfl
      · simp only [List.length_cons] at hfuel
        rw [breadth_first]
        split
        · rfl
        · split
          · exact ih (by omega)
          · rename_i hnew
            refine ih ?_
            rw [List.length_append, List.length_map]
            by_cases hnone : out current = []
            · have hle := remaining_cons_le out vertices visited current
              rw [hnone, List.length_nil]
              omega
            · have hle := remaining_expand out (hall current hnone) hnew
              omega

/-! What is found. -/

/-- A path that is found leads to the goal, from the vertex of some entry of the queue. -/
theorem reaches_of_found {path : List ε}
    (h : breadth_first out head goal fuel queue visited = some (some path)) :
    ∃ entry ∈ queue, ReflTransGen (Leads out head) entry.1 goal := by
  induction fuel generalizing queue visited with
  | zero => cases h
  | succ fuel ih =>
      rcases queue with _ | ⟨⟨current, front⟩, queue⟩
      · cases h
      · rw [breadth_first] at h
        split at h
        · rename_i hgoal
          exact ⟨(current, front), List.mem_cons_self, by rw [hgoal]⟩
        · split at h
          · obtain ⟨entry, hentry, hreach⟩ := ih h
            exact ⟨entry, List.mem_cons_of_mem _ hentry, hreach⟩
          · obtain ⟨entry, hentry, hreach⟩ := ih h
            rcases List.mem_append.1 hentry with hold | hnew
            · exact ⟨entry, List.mem_cons_of_mem _ hold, hreach⟩
            · obtain ⟨e, he, rfl⟩ := List.mem_map.1 hnew
              refine ⟨(current, front), List.mem_cons_self, ?_⟩
              exact ReflTransGen.head ⟨e, he, rfl⟩ hreach

/-- Where every expanded vertex leads to expanded ones or into the queue, a search that has
ended without the goal has expanded a set that edges do not leave. -/
theorem closed_of_not_found (hgoal : goal ∉ visited)
    (hexpanded : ∀ v ∈ visited, ∀ e ∈ out v, head e ∈ visited ∨ head e ∈ queue.map Prod.fst)
    (h : breadth_first out head goal fuel queue visited = some none) :
    ∃ closed : List α, goal ∉ closed ∧ (∀ v ∈ closed, ∀ e ∈ out v, head e ∈ closed)
      ∧ (∀ v ∈ visited, v ∈ closed) ∧ ∀ v ∈ queue.map Prod.fst, v ∈ closed := by
  -- on the fuel, with the set of expanded vertices growing until it is closed
  induction fuel generalizing queue visited with
  | zero => cases h
  | succ fuel ih =>
      rcases queue with _ | ⟨⟨current, path⟩, queue⟩
      · exact ⟨visited, hgoal, fun v hv e he => (hexpanded v hv e he).resolve_right List.not_mem_nil,
          fun _ hv => hv, nofun⟩
      · rw [breadth_first] at h
        split at h
        · cases h
        · rename_i hother
          split at h
          · rename_i hold
            -- an expanded vertex is popped again: the queue loses nothing that is not expanded
            have hstill : ∀ v ∈ visited, ∀ e ∈ out v,
                head e ∈ visited ∨ head e ∈ queue.map Prod.fst := by
              intro v hv e he
              rcases hexpanded v hv e he with hin | hin
              · exact .inl hin
              · rcases List.mem_cons.1 hin with hsame | hqueue
                · exact .inl (hsame ▸ hold)
                · exact .inr hqueue
            obtain ⟨closed, hno, hclosed, hvisited, hqueue⟩ := ih hgoal hstill h
            refine ⟨closed, hno, hclosed, hvisited, fun v hv => ?_⟩
            rcases List.mem_cons.1 hv with rfl | hv
            · exact hvisited _ hold
            · exact hqueue v hv
          -- a new vertex is expanded, and the heads of its edges are queued
          · have hstill : ∀ v ∈ current :: visited, ∀ e ∈ out v, head e ∈ current :: visited
                ∨ head e ∈ (queue ++ (out current).map fun e => (head e, path ++ [e])).map Prod.fst := by
              intro v hv e he
              rw [List.map_append, List.mem_append]
              rcases List.mem_cons.1 hv with rfl | hv
              · exact .inr (.inr (List.mem_map.2 ⟨_, List.mem_map.2 ⟨e, he, rfl⟩, rfl⟩))
              · rcases hexpanded v hv e he with hin | hin
                · exact .inl (List.mem_cons_of_mem _ hin)
                · rcases List.mem_cons.1 hin with hsame | hqueue
                  · exact .inl (List.mem_cons.2 (.inl hsame))
                  · exact .inr (.inl hqueue)
            have hgoal' : goal ∉ current :: visited := by
              rw [List.mem_cons, not_or]
              exact ⟨fun hsame => hother hsame.symm, hgoal⟩
            obtain ⟨closed, hno, hclosed, hvisited, hqueue⟩ := ih hgoal' hstill h
            refine ⟨closed, hno, hclosed, fun v hv => hvisited v (List.mem_cons_of_mem _ hv), ?_⟩
            intro v hv
            rcases List.mem_cons.1 hv with rfl | hv
            · exact hvisited _ List.mem_cons_self
            · refine hqueue v ?_
              rw [List.map_append, List.mem_append]
              exact .inl hv

/-- A search from one vertex that has ended found the goal exactly if it can be reached. -/
theorem found_iff {start : α} {found : Option (List ε)}
    (h : breadth_first out head goal fuel [(start, [])] [] = some found) :
    found.isSome ↔ ReflTransGen (Leads out head) start goal := by
  rcases found with _ | path
  · obtain ⟨closed, hno, hclosed, -, hstart⟩ := closed_of_not_found List.not_mem_nil nofun h
    have hin : ∀ v, ReflTransGen (Leads out head) start v → v ∈ closed := by
      intro v hv
      induction hv with
      | refl => exact hstart start (by simp)
      | tail _ hstep ih =>
          obtain ⟨e, he, rfl⟩ := hstep
          exact hclosed _ ih e he
    refine iff_of_false (by simp) fun hreach => ?_
    exact hno (hin goal hreach)
  · obtain ⟨entry, hentry, hreach⟩ := reaches_of_found h
    rw [List.mem_singleton] at hentry
    subst hentry
    exact iff_of_true rfl hreach

/-! ## Always the first edge -/

/-- `while current != goal`, with the number of steps that are left. -/
def follow (step : α → Option α) (goal : α) : Nat → α → Bool
  | 0, current => current = goal
  | left + 1, current =>
    if current = goal then true
    else
      match step current with
      | none => false
      | some next => follow step goal left next

variable {step : α → Option α}

/-- The goal is as many steps away. There is at most one way to it. -/
inductive Away (step : α → Option α) (goal : α) : Nat → α → Prop where
  | here : Away step goal 0 goal
  | there {n : Nat} {a b : α} (hne : a ≠ goal) (hstep : step a = some b) (h : Away step goal n b) :
      Away step goal (n + 1) a

omit [DecidableEq α] in
theorem Away.unique {n m : Nat} {a : α} (h : Away step goal n a) (h' : Away step goal m a) : n = m := by
  induction h generalizing m with
  | here =>
      cases h' with
      | here => rfl
      | there hne => exact absurd rfl hne
  | there hne hstep _ ih =>
      cases h' with
      | here => exact absurd rfl hne
      | there _ hstep' h' =>
          obtain rfl := Option.some.inj (hstep.symm.trans hstep')
          rw [ih h']

omit [DecidableEq α] in
/-- The steps to the goal leave different vertices. -/
theorem Away.exists_nodup {n : Nat} {a : α} (h : Away step goal n a) :
    ∃ left : List α, left.length = n ∧ left.Nodup ∧ (∀ v ∈ left, step v ≠ none)
      ∧ ∀ v ∈ left, ∃ m ≤ n, Away step goal m v := by
  induction h with
  | here => exact ⟨[], rfl, List.nodup_nil, nofun, nofun⟩
  | @there n a b hne hstep h ih =>
      obtain ⟨left, hlength, hnodup, hsome, haway⟩ := ih
      have ha : Away step goal (n + 1) a := .there hne hstep h
      refine ⟨a :: left, by rw [List.length_cons, hlength], List.nodup_cons.2 ⟨fun hin => ?_, hnodup⟩,
        List.forall_mem_cons.2 ⟨by simp [hstep], hsome⟩, List.forall_mem_cons.2 ⟨⟨_, Nat.le_refl _, ha⟩, ?_⟩⟩
      · obtain ⟨m, hle, hm⟩ := haway a hin
        have hsame := ha.unique hm
        omega
      · intro v hv
        obtain ⟨m, hle, hm⟩ := haway v hv
        exact ⟨m, Nat.le_succ_of_le hle, hm⟩

theorem follow_iff_away {left : Nat} {a : α} :
    follow step goal left a = true ↔ ∃ n ≤ left, Away step goal n a := by
  induction left generalizing a with
  | zero =>
      rw [follow, decide_eq_true_eq]
      constructor
      · rintro rfl
        exact ⟨0, Nat.le_refl 0, .here⟩
      · rintro ⟨n, hn, haway⟩
        cases haway with
        | here => rfl
        | there => omega
  | succ left ih =>
      rw [follow]
      by_cases hgoal : a = goal
      · rw [if_pos hgoal, hgoal]
        exact iff_of_true rfl ⟨0, Nat.zero_le _, .here⟩
      · rw [if_neg hgoal]
        constructor
        · intro h
          rcases hstep : step a with _ | b
          · rw [hstep] at h
            cases h
          · rw [hstep] at h
            obtain ⟨n, hn, haway⟩ := ih.1 h
            exact ⟨n + 1, Nat.succ_le_succ hn, .there hgoal hstep haway⟩
        · rintro ⟨n, hn, haway⟩
          cases haway with
          | here => exact absurd rfl hgoal
          | there _ hstep haway =>
              rw [hstep]
              exact ih.2 ⟨_, Nat.le_of_succ_le_succ hn, haway⟩

theorem exists_away_iff {a : α} :
    (∃ n, Away step goal n a) ↔ ReflTransGen (fun a b => step a = some b) a goal := by
  constructor
  · rintro ⟨n, h⟩
    induction h with
    | here => exact .refl
    | there _ hstep _ ih => exact .head hstep ih
  · intro h
    induction h using ReflTransGen.head_induction_on with
    | refl => exact ⟨0, .here⟩
    | @head a b hstep _ ih =>
        by_cases hgoal : a = goal
        · subst hgoal
          exact ⟨0, .here⟩
        · obtain ⟨n, hn⟩ := ih
          exact ⟨n + 1, .there hgoal hstep hn⟩

/-- With a step for each vertex that can be left, the walk arrives exactly if the path of
first edges leads to the goal: the count cuts off nothing but walks that never arrive. -/
theorem follow_iff {sources : List α} (hsources : ∀ v, step v ≠ none → v ∈ sources) {left : Nat}
    (hleft : sources.length ≤ left) {a : α} :
    follow step goal left a = true ↔ ReflTransGen (fun a b => step a = some b) a goal := by
  rw [follow_iff_away, ← exists_away_iff]
  constructor
  · rintro ⟨n, -, h⟩
    exact ⟨n, h⟩
  · rintro ⟨n, h⟩
    obtain ⟨vertices, hlength, hnodup, hsome, -⟩ := h.exists_nodup
    have hsub := (List.subperm_of_subset hnodup fun v hv => hsources v (hsome v hv)).length_le
    exact ⟨n, by omega, h⟩

end Scharnhorst.Search
