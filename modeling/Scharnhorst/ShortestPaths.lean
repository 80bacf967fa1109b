/-
Breadth-first search finds a shortest path.

The queue is ordered by the length of its paths, and no two of them differ by more than
one edge. An expanded vertex leads to expanded ones, or to vertices that stand in the queue
with a path at most one edge longer than any path to it. So, whatever path leads to a vertex
that has not been expanded, the queue holds one that is no longer, and the first in the
queue is the shortest of all. Nothing here names the repository.
-/
import Scharnhorst.Search
import Mathlib.Data.List.Induction

set_option autoImplicit false

namespace Scharnhorst.Search

open Relation

variable {α ε : Type} {out : α → List ε} {head : ε → α} {a b goal start : α}
  {path other : List ε} {e : ε}

/-! ## Paths -/

/-- Edges that follow each other from one vertex to the other. -/
def Walk (out : α → List ε) (head : ε → α) : α → List ε → α → Prop
  | a, [], b => a = b
  | a, e :: path, b => e ∈ out a ∧ Walk out head (head e) path b

theorem walk_concat :
    Walk out head a (path ++ [e]) b ↔ ∃ c, Walk out head a path c ∧ e ∈ out c ∧ head e = b := by
  induction path generalizing a with
  | nil =>
      constructor
      · rintro ⟨he, hb⟩
        exact ⟨a, rfl, he, hb⟩
      · rintro ⟨c, rfl, he, hb⟩
        exact ⟨he, hb⟩
  | cons e' path ih =>
      rw [List.cons_append, Walk, ih]
      constructor
      · rintro ⟨he', c, hpath, he, hb⟩
        exact ⟨c, ⟨he', hpath⟩, he, hb⟩
      · rintro ⟨c, ⟨he', hpath⟩, he, hb⟩
        exact ⟨he', c, hpath, he, hb⟩

theorem reaches_iff_walk :
    ReflTransGen (Leads out head) a b ↔ ∃ path, Walk out head a path b := by
  constructor
  · intro h
    induction h with
    | refl => exact ⟨[], rfl⟩
    | tail _ hstep ih =>
        obtain ⟨path, hpath⟩ := ih
        obtain ⟨e, he, hhead⟩ := hstep
        exact ⟨path ++ [e], walk_concat.2 ⟨_, hpath, he, hhead⟩⟩
  · rintro ⟨path, hpath⟩
    induction path generalizing a with
    | nil =>
        obtain rfl := hpath
        exact .refl
    | cons e path ih => exact .head ⟨e, hpath.1, rfl⟩ (ih hpath.2)

/-! ## Levels -/

/-- What holds of the queue and the expanded vertices in each round. -/
structure Leveled (out : α → List ε) (head : ε → α) (start : α) (queue : List (α × List ε))
    (visited : List α) : Prop where
  walks : ∀ entry ∈ queue, Walk out head start entry.2 entry.1
  ordered : queue.Pairwise fun x y => x.2.length ≤ y.2.length
  level : ∀ x ∈ queue, ∀ y ∈ queue, y.2.length ≤ x.2.length + 1
  started : start ∈ visited ∨ (start, []) ∈ queue
  expanded : ∀ v ∈ visited, ∀ e ∈ out v, head e ∈ visited ∨ ∃ path, (head e, path) ∈ queue
    ∧ ∀ other, Walk out head start other v → path.length ≤ other.length + 1

variable {queue : List (α × List ε)} {visited : List α}

/-- Whatever leads to a vertex, it has been expanded, or the queue holds no longer a path. -/
theorem Leveled.frontier (h : Leveled out head start queue visited)
    (hwalk : Walk out head start other b) :
    b ∈ visited ∨ ∃ entry ∈ queue, entry.2.length ≤ other.length := by
  induction other using List.reverseRecOn generalizing b with
  | nil =>
      obtain rfl := hwalk
      exact h.started.imp_right fun hqueue => ⟨_, hqueue, Nat.le_refl _⟩
  | append_singleton other e ih =>
      obtain ⟨c, hother, he, rfl⟩ := walk_concat.1 hwalk
      rw [List.length_append, List.length_singleton]
      obtain hvisited | ⟨entry, hentry, hle⟩ := ih hother
      · obtain hdone | ⟨path, hqueue, hle⟩ := h.expanded c hvisited e he
        · exact .inl hdone
        · exact .inr ⟨_, hqueue, hle other hother⟩
      · exact .inr ⟨entry, hentry, by omega⟩

/-- The first path of the queue is a shortest one to its vertex. -/
theorem Leveled.shortest (h : Leveled out head start ((b, path) :: queue) visited)
    (hnew : b ∉ visited) (hwalk : Walk out head start other b) :
    path.length ≤ other.length := by
  obtain hvisited | ⟨entry, hentry, hle⟩ := h.frontier hwalk
  · exact absurd hvisited hnew
  · obtain rfl | hrest := List.mem_cons.1 hentry
    · exact hle
    · exact ((List.pairwise_cons.1 h.ordered).1 entry hrest).trans hle

theorem leveled_start (out : α → List ε) (head : ε → α) (start : α) :
    Leveled out head start [(start, [])] [] := by
  refine ⟨fun entry hentry => ?_, List.pairwise_singleton _ _, fun x hx y hy => ?_,
    .inr List.mem_cons_self, nofun⟩
  · rw [List.mem_singleton.1 hentry]
    rfl
  · rw [List.mem_singleton.1 hx, List.mem_singleton.1 hy]
    omega

/-- An entry of a vertex that was expanded before is dropped. -/
theorem Leveled.drop (h : Leveled out head start ((b, path) :: queue) visited)
    (hold : b ∈ visited) : Leveled out head start queue visited := by
  refine ⟨fun entry hentry => h.walks entry (List.mem_cons_of_mem _ hentry),
    (List.pairwise_cons.1 h.ordered).2, fun x hx y hy => ?_, ?_, fun v hv e he => ?_⟩
  · exact h.level x (List.mem_cons_of_mem _ hx) y (List.mem_cons_of_mem _ hy)
  · obtain hdone | hqueue := h.started
    · exact .inl hdone
    · obtain heq | hrest := List.mem_cons.1 hqueue
      · exact .inl ((Prod.mk.inj heq).1 ▸ hold)
      · exact .inr hrest
  · obtain hdone | ⟨path', hqueue, hle⟩ := h.expanded v hv e he
    · exact .inl hdone
    · obtain heq | hrest := List.mem_cons.1 hqueue
      · exact .inl ((Prod.mk.inj heq).1 ▸ hold)
      · exact .inr ⟨path', hrest, hle⟩

/-- A new vertex is expanded: its targets come to the end of the queue, one level on. -/
theorem Leveled.expand (h : Leveled out head start ((b, path) :: queue) visited)
    (hnew : b ∉ visited) :
    Leveled out head start (queue ++ (out b).map fun e => (head e, path ++ [e]))
      (b :: visited) := by
  have hpath : Walk out head start path b := h.walks _ List.mem_cons_self
  have hqueued : ∀ entry ∈ (out b).map fun e => (head e, path ++ [e]),
      entry.2.length = path.length + 1 := by
    intro entry hentry
    obtain ⟨e, -, rfl⟩ := List.mem_map.1 hentry
    rw [List.length_append, List.length_singleton]
  have hleast : ∀ entry ∈ queue, path.length ≤ entry.2.length :=
    (List.pairwise_cons.1 h.ordered).1
  have hmost : ∀ entry ∈ queue, entry.2.length ≤ path.length + 1 := fun entry hentry =>
    h.level _ List.mem_cons_self entry (List.mem_cons_of_mem _ hentry)
  -- walks, order, levels, the start, and last what the expanded vertices lead to
  refine ⟨fun entry hentry => ?_, ?_, fun x hx y hy => ?_, ?_, fun v hv e he => ?_⟩
  · obtain hentry | hentry := List.mem_append.1 hentry
    · exact h.walks entry (List.mem_cons_of_mem _ hentry)
    · obtain ⟨e, he, rfl⟩ := List.mem_map.1 hentry
      exact walk_concat.2 ⟨b, hpath, he, rfl⟩
  · refine List.pairwise_append.2 ⟨(List.pairwise_cons.1 h.ordered).2, ?_, fun x hx y hy => ?_⟩
    · refine List.pairwise_of_forall_mem_list fun x hx y hy => ?_
      rw [hqueued x hx, hqueued y hy]
    · rw [hqueued y hy]
      exact hmost x hx
  · have hx' : path.length ≤ x.2.length := by
      obtain hx | hx := List.mem_append.1 hx
      · exact hleast x hx
      · rw [hqueued x hx]
        omega
    have hy' : y.2.length ≤ path.length + 1 := by
      obtain hy | hy := List.mem_append.1 hy
      · exact hmost y hy
      · exact (hqueued y hy).le
    omega
  · obtain hdone | hqueue := h.started
    · exact .inl (List.mem_cons_of_mem _ hdone)
    · obtain heq | hrest := List.mem_cons.1 hqueue
      · exact .inl (List.mem_cons.2 (.inl (Prod.mk.inj heq).1))
      · exact .inr (List.mem_append_left _ hrest)
  · obtain rfl | hv := List.mem_cons.1 hv
    · refine .inr ⟨path ++ [e], List.mem_append_right _ (List.mem_map.2 ⟨e, he, rfl⟩), ?_⟩
      intro other hother
      rw [List.length_append, List.length_singleton]
      exact Nat.succ_le_succ (h.shortest hnew hother)
    · obtain hdone | ⟨path', hqueue, hle⟩ := h.expanded v hv e he
      · exact .inl (List.mem_cons_of_mem _ hdone)
      · obtain heq | hrest := List.mem_cons.1 hqueue
        · exact .inl (List.mem_cons.2 (.inl (Prod.mk.inj heq).1))
        · exact .inr ⟨path', List.mem_append_left _ hrest, hle⟩

/-! ## The search -/

variable [DecidableEq α] {fuel : Nat}

theorem Leveled.shortest_of_found (h : Leveled out head start queue visited)
    (hgoal : goal ∉ visited)
    (hfound : breadth_first out head goal fuel queue visited = some (some path)) :
    Walk out head start path goal
      ∧ ∀ other, Walk out head start other goal → path.length ≤ other.length := by
  induction fuel generalizing queue visited with
  | zero => cases hfound
  | succ fuel ih =>
      rcases queue with _ | ⟨⟨current, front⟩, queue⟩
      · cases hfound
      · rw [breadth_first] at hfound
        by_cases hcurrent : current = goal
        · subst hcurrent
          rw [if_pos rfl, Option.some.injEq, Option.some.injEq] at hfound
          subst hfound
          exact ⟨h.walks _ List.mem_cons_self, fun other => h.shortest hgoal⟩
        · rw [if_neg hcurrent] at hfound
          by_cases hold : current ∈ visited
          · rw [if_pos hold] at hfound
            exact ih (h.drop hold) hgoal hfound
          · rw [if_neg hold] at hfound
            refine ih (h.expand hold) ?_ hfound
            rw [List.mem_cons, not_or]
            exact ⟨fun hsame => hcurrent hsame.symm, hgoal⟩

/-- What a search from one vertex finds is a path to the goal, and none is shorter. -/
theorem shortest_of_found
    (hfound : breadth_first out head goal fuel [(start, [])] [] = some (some path)) :
    Walk out head start path goal
      ∧ ∀ other, Walk out head start other goal → path.length ≤ other.length :=
  (leveled_start out head start).shortest_of_found List.not_mem_nil hfound

end Scharnhorst.Search
