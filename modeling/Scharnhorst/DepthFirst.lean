/-
Looking for a goal with a stack, and graphs without cycles.

Depth-first search takes the vertex that was put on the stack last. It is a loop and is
given fuel: one round for each edge and for each entry of the stack is always enough, and
then it finds the goal exactly if a path leads there.

A relation has no cycle if no vertex reaches itself. One more edge closes a cycle exactly if
its source can be reached from its target. Nothing here names the repository.
-/
import Scharnhorst.Search

set_option autoImplicit false

namespace Scharnhorst.Search

open Relation

/-! ## Depth-first search -/

section Stack

variable {α ε : Type} [DecidableEq α]

/-- `while let Some(current) = stack.pop()`. Without an answer the fuel has run out. -/
def depth_first (out : α → List ε) (head : ε → α) (goal : α) :
    Nat → List α → List α → Option Bool
  | 0, _, _ => none
  | _ + 1, [], _ => some false
  | fuel + 1, current :: stack, visited =>
    if current = goal then some true
    else if current ∈ visited then depth_first out head goal fuel stack visited
    else
      depth_first out head goal fuel
        ((out current).foldl (fun stack e => head e :: stack) stack) (current :: visited)

variable {out : α → List ε} {head : ε → α} {goal : α} {fuel : Nat} {stack visited : List α}

omit [DecidableEq α] in
theorem foldl_push (head : ε → α) (edges : List ε) (stack : List α) :
    edges.foldl (fun stack e => head e :: stack) stack = (edges.map head).reverse ++ stack := by
  induction edges generalizing stack with
  | nil => rfl
  | cons e edges ih =>
      rw [List.foldl_cons, ih, List.map_cons, List.reverse_cons, List.append_assoc]
      rfl

/-- The search ends within as many rounds as there are edges to expand, and one for each
entry of the stack. -/
theorem depth_first_ends {vertices : List α} (hall : ∀ v, out v ≠ [] → v ∈ vertices)
    (hfuel : stack.length + remaining out vertices visited < fuel) :
    (depth_first out head goal fuel stack visited).isSome := by
  induction fuel generalizing stack visited with
  | zero => omega
  | succ fuel ih =>
      -- each round takes an entry off the stack, or pays an edge for what it pushes
      rcases stack with _ | ⟨current, stack⟩
      · rfl
      · rw [List.length_cons] at hfuel
        rw [depth_first]
        split
        · rfl
        · split
          · exact ih (by omega)
          · rename_i hnew
            refine ih ?_
            rw [foldl_push, List.length_append, List.length_reverse, List.length_map]
            by_cases hnone : out current = []
            · have hle := remaining_cons_le out vertices visited current
              rw [hnone, List.length_nil]
              omega
            · have hle := remaining_expand out (hall current hnone) hnew
              omega

/-- A goal that is found can be reached from some entry of the stack. -/
theorem reaches_of_depth_first (h : depth_first out head goal fuel stack visited = some true) :
    ∃ entry ∈ stack, ReflTransGen (Leads out head) entry goal := by
  induction fuel generalizing stack visited with
  | zero => cases h
  | succ fuel ih =>
      rcases stack with _ | ⟨current, stack⟩
      · cases h
      · rw [depth_first] at h
        split at h
        · rename_i hgoal
          exact ⟨current, List.mem_cons_self, by rw [hgoal]⟩
        · split at h
          · obtain ⟨entry, hentry, hreach⟩ := ih h
            exact ⟨entry, List.mem_cons_of_mem _ hentry, hreach⟩
          · obtain ⟨entry, hentry, hreach⟩ := ih h
            rw [foldl_push, List.mem_append, List.mem_reverse] at hentry
            obtain hnew | hold := hentry
            · obtain ⟨e, he, rfl⟩ := List.mem_map.1 hnew
              exact ⟨current, List.mem_cons_self, ReflTransGen.head ⟨e, he, rfl⟩ hreach⟩
            · exact ⟨entry, List.mem_cons_of_mem _ hold, hreach⟩

/-- A search that has ended without the goal has expanded a set that edges do not leave. -/
theorem closed_of_depth_first (hgoal : goal ∉ visited)
    (hexpanded : ∀ v ∈ visited, ∀ e ∈ out v, head e ∈ visited ∨ head e ∈ stack)
    (h : depth_first out head goal fuel stack visited = some false) :
    ∃ closed : List α, goal ∉ closed ∧ (∀ v ∈ closed, ∀ e ∈ out v, head e ∈ closed)
      ∧ (∀ v ∈ visited, v ∈ closed) ∧ ∀ v ∈ stack, v ∈ closed := by
  induction fuel generalizing stack visited with
  | zero => cases h
  | succ fuel ih =>
      rcases stack with _ | ⟨current, stack⟩
      -- nothing is left on the stack, so every edge out of the set ends in it
      · exact ⟨visited, hgoal, fun v hv e he => (hexpanded v hv e he).resolve_right List.not_mem_nil,
          fun _ hv => hv, nofun⟩
      · rw [depth_first] at h
        split at h
        · cases h
        · rename_i hother
          split at h
          -- an entry that was expanded before: it may go, its edges are accounted for
          · rename_i hold
            have hstill : ∀ v ∈ visited, ∀ e ∈ out v, head e ∈ visited ∨ head e ∈ stack := by
              intro v hv e he
              obtain hin | hin := hexpanded v hv e he
              · exact .inl hin
              · obtain hsame | hstack := List.mem_cons.1 hin
                · exact .inl (hsame ▸ hold)
                · exact .inr hstack
            obtain ⟨closed, hno, hclosed, hvisited, hstack⟩ := ih hgoal hstill h
            refine ⟨closed, hno, hclosed, hvisited, fun v hv => ?_⟩
            obtain rfl | hv := List.mem_cons.1 hv
            · exact hvisited _ hold
            · exact hstack v hv
          -- a new one: all its edges are on the stack now
          · rw [foldl_push] at h
            have hstill : ∀ v ∈ current :: visited, ∀ e ∈ out v,
                head e ∈ current :: visited
                  ∨ head e ∈ ((out current).map head).reverse ++ stack := by
              intro v hv e he
              rw [List.mem_append, List.mem_reverse]
              obtain rfl | hv := List.mem_cons.1 hv
              · exact .inr (.inl (List.mem_map.2 ⟨e, he, rfl⟩))
              · obtain hin | hin := hexpanded v hv e he
                · exact .inl (List.mem_cons_of_mem _ hin)
                · obtain hsame | hstack := List.mem_cons.1 hin
                  · exact .inl (List.mem_cons.2 (.inl hsame))
                  · exact .inr (.inr hstack)
            have hgoal' : goal ∉ current :: visited := by
              rw [List.mem_cons, not_or]
              exact ⟨fun hsame => hother hsame.symm, hgoal⟩
            obtain ⟨closed, hno, hclosed, hvisited, hstack⟩ := ih hgoal' hstill h
            refine ⟨closed, hno, hclosed, fun v hv => hvisited v (List.mem_cons_of_mem _ hv), ?_⟩
            intro v hv
            obtain rfl | hv := List.mem_cons.1 hv
            · exact hvisited _ List.mem_cons_self
            · exact hstack v (List.mem_append_right _ hv)

/-- With fuel enough, the search from one vertex finds the goal exactly if it can be reached. -/
theorem depth_first_iff {vertices : List α} {start : α} (hall : ∀ v, out v ≠ [] → v ∈ vertices)
    (hfuel : 1 + remaining out vertices [] < fuel) :
    depth_first out head goal fuel [start] [] = some true
      ↔ ReflTransGen (Leads out head) start goal := by
  have hends : (depth_first out head goal fuel [start] []).isSome :=
    depth_first_ends hall hfuel
  constructor
  · intro h
    obtain ⟨entry, hentry, hreach⟩ := reaches_of_depth_first h
    rwa [List.mem_singleton.1 hentry] at hreach
  · intro hreach
    rcases hfound : depth_first out head goal fuel [start] [] with _ | _ | _
    · rw [hfound] at hends
      cases hends
    -- a search that missed the goal would be closed under edges, and so hold the goal
    · obtain ⟨closed, hno, hclosed, -, hstart⟩ :=
        closed_of_depth_first List.not_mem_nil nofun hfound
      have hin : ∀ v, ReflTransGen (Leads out head) start v → v ∈ closed := by
        intro v hv
        induction hv with
        | refl => exact hstart start List.mem_cons_self
        | tail _ hstep ih =>
            obtain ⟨e, he, rfl⟩ := hstep
            exact hclosed _ ih e he
      exact absurd (hin goal hreach) hno
    · rfl

/-- Every edge leaves one vertex. -/
theorem sum_leaving_le (source : ε → α) {vertices : List α} (hnodup : vertices.Nodup)
    (edges : List ε) :
    (vertices.map fun v => (edges.filter fun e => source e = v).length).sum ≤ edges.length := by
  induction vertices generalizing edges with
  | nil => exact Nat.zero_le _
  | cons v vertices ih =>
      obtain ⟨hnew, hnodup⟩ := List.nodup_cons.1 hnodup
      have hrest := ih hnodup (edges.filter fun e => source e ≠ v)
      have hothers : (vertices.map fun w => (edges.filter fun e => source e = w).length)
          = vertices.map fun w =>
            ((edges.filter fun e => source e ≠ v).filter fun e => source e = w).length := by
        refine List.map_congr_left fun w hw => ?_
        have hne : w ≠ v := by
          rintro rfl
          exact hnew hw
        rw [List.filter_filter]
        congr 1
        refine List.filter_congr fun e _ => ?_
        by_cases he : source e = w
        · simp [he, hne]
        · simp [he]
      have hsplit := edges.length_eq_length_filter_add fun e => decide (source e = v)
      rw [List.map_cons, List.sum_cons, hothers]
      simp only [ne_eq, decide_not] at hrest ⊢
      omega

end Stack

/-! ## Cycles -/

section Cycles

variable {α : Type} {r r' : α → α → Prop}

/-- No vertex reaches itself. -/
def Acyclic (r : α → α → Prop) : Prop := ∀ a, ¬ TransGen r a a

theorem Acyclic.mono (h : Acyclic r) (hle : ∀ a b, r' a b → r a b) : Acyclic r' :=
  fun a hcycle => h a (TransGen.mono hle a a hcycle)

/-- What is reached with one more edge is reached without it, or through it. -/
theorem through_of_insert {source target a b : α}
    (hr : ∀ a b, r' a b → r a b ∨ (a = source ∧ b = target)) (h : TransGen r' a b) :
    TransGen r a b ∨ (ReflTransGen r a source ∧ ReflTransGen r target b) := by
  induction h with
  | single hstep =>
      obtain hold | ⟨rfl, rfl⟩ := hr _ _ hstep
      · exact .inl (.single hold)
      · exact .inr ⟨.refl, .refl⟩
  | tail _ hstep ih =>
      obtain hold | ⟨rfl, rfl⟩ := hr _ _ hstep
      · obtain hpath | ⟨hto, hafter⟩ := ih
        · exact .inl (hpath.tail hold)
        · exact .inr ⟨hto, hafter.tail hold⟩
      · obtain hpath | ⟨hto, -⟩ := ih
        · exact .inr ⟨hpath.to_reflTransGen, .refl⟩
        · exact .inr ⟨hto, .refl⟩

/-- One more edge closes a cycle exactly if its source can be reached from its target. -/
theorem acyclic_insert_iff {source target : α}
    (hr : ∀ a b, r' a b ↔ r a b ∨ (a = source ∧ b = target)) :
    Acyclic r' ↔ Acyclic r ∧ ¬ ReflTransGen r target source := by
  constructor
  · intro h
    refine ⟨h.mono fun a b hab => (hr a b).2 (.inl hab), fun hback => ?_⟩
    have hpath : ReflTransGen r' target source :=
      ReflTransGen.mono (fun a b hab => (hr a b).2 (.inl hab)) _ _ hback
    exact h source (TransGen.head' ((hr source target).2 (.inr ⟨rfl, rfl⟩)) hpath)
  · rintro ⟨h, hback⟩ a hcycle
    obtain hold | ⟨hto, hafter⟩ := through_of_insert (fun a b => (hr a b).1) hcycle
    · exact h a hold
    · exact hback (hafter.trans hto)

end Cycles

end Scharnhorst.Search
