/-
Finding the cycles of a graph with three colours.

A vertex is white until it is entered, gray while it stands on the path, and black when it
has been left. The search keeps a stack of vertices to enter and of vertices to leave. The
targets of a vertex that is entered are put above its own leaving, whatever their colour is
by the time they are taken, and a gray vertex that would be entered again closes a cycle,
which is the part of the path from it on.

Each round keeps two invariants. One says what the stack and the path have to do with each
other, and with it every cycle that is listed is one. The other holds while none is listed:
what leads out of a black vertex is black, and no black vertex reaches itself. So a search of
all vertices lists nothing exactly if there is no cycle. Nothing here names the repository.
-/
import Scharnhorst.DepthFirst
import Mathlib.Data.List.Chain

set_option autoImplicit false

namespace Scharnhorst.Search

open Relation

/-! ## Cycles as lists -/

section Circles

variable {α : Type} {r : α → α → Prop}

/-- Distinct vertices, each of which leads to the next, and the last to the first. -/
structure Circle (r : α → α → Prop) (cycle : List α) : Prop where
  nonempty : cycle ≠ []
  nodup : cycle.Nodup
  chain : cycle.IsChain r
  closes : ∀ last ∈ cycle.getLast?, ∀ first ∈ cycle.head?, r last first

theorem Circle.not_acyclic {cycle : List α} (h : Circle r cycle) : ¬ Acyclic r := by
  intro hno
  have hlast := List.getLast?_eq_getLast_of_ne_nil h.nonempty
  have hfirst := List.head?_eq_some_head h.nonempty
  have hback : r (cycle.getLast h.nonempty) (cycle.head h.nonempty) :=
    h.closes _ hlast _ hfirst
  have hpath : ReflTransGen r (cycle.head h.nonempty) (cycle.getLast h.nonempty) :=
    List.relationReflTransGen_of_exists_isChain cycle h.chain h.nonempty
  exact hno _ (TransGen.head' hback hpath)

/-- A step back into a path closes the part of it from there on. -/
theorem circle_of_path [DecidableEq α] {path : List α} {v : α} (hchain : path.IsChain r)
    (hnodup : path.Nodup) (hv : v ∈ path) (hback : ∀ last ∈ path.getLast?, r last v) :
    Circle r (path.drop (path.idxOf v)) := by
  obtain ⟨front, back, rfl, hfront⟩ := List.eq_append_cons_of_mem hv
  have hdrop : (front ++ v :: back).drop ((front ++ v :: back).idxOf v) = v :: back := by
    rw [List.idxOf_append_of_notMem hfront, List.idxOf_cons_self, Nat.add_zero,
      List.drop_left]
  rw [hdrop]
  refine ⟨List.cons_ne_nil _ _, (List.nodup_append.1 hnodup).2.1, hchain.right_of_append, ?_⟩
  intro last hlast first hfirst
  have hsame : first = v := (Option.mem_some.1 hfirst).symm
  rw [hsame]
  refine hback last ?_
  rw [List.getLast?_append_of_ne_nil _ (List.cons_ne_nil _ _)]
  exact hlast

end Circles

/-! ## The search -/

section Search

variable {α ε : Type} [DecidableEq α]

/-- What the search has come to. -/
structure Trail (α : Type) where
  entered : List α
  path : List α
  cycles : List (List α)

/-- Entered, and left again. -/
def Trail.Black (t : Trail α) (v : α) : Prop := v ∈ t.entered ∧ v ∉ t.path

instance (t : Trail α) (v : α) : Decidable (t.Black v) :=
  inferInstanceAs (Decidable (v ∈ t.entered ∧ v ∉ t.path))

def Trail.enter (t : Trail α) (v : α) : Trail α :=
  { t with entered := v :: t.entered, path := t.path ++ [v] }

def Trail.leave (t : Trail α) : Trail α := { t with path := t.path.dropLast }

def Trail.close (t : Trail α) (v : α) : Trail α :=
  { t with cycles := t.cycles ++ [t.path.drop (t.path.idxOf v)] }

/-- What is put above the leaving of a vertex: its targets that are not black. -/
def pushes (out : α → List ε) (head : ε → α) (t : Trail α) (v : α) : List (Bool × α) :=
  (((out v).map head).filter fun w => ¬ t.Black w).reverse.map fun w => (true, w)

/-- One entry is taken from the stack: a vertex to enter, or to leave. -/
def color_round (out : α → List ε) (head : ε → α) :
    Bool × α → List (Bool × α) → Trail α → List (Bool × α) × Trail α
  | (false, _), stack, t => (stack, t.leave)
  | (true, v), stack, t =>
    if v ∈ t.path then (stack, t.close v)
    else if v ∈ t.entered then (stack, t)
    else (pushes out head (t.enter v) v ++ (false, v) :: stack, t.enter v)

/-- `while let Some((is_entering, v)) = stack.pop()`. Without an outcome the fuel has run
out. -/
def three_color (out : α → List ε) (head : ε → α) :
    Nat → List (Bool × α) → Trail α → Option (Trail α)
  | 0, _, _ => none
  | _ + 1, [], t => some t
  | fuel + 1, entry :: stack, t =>
    three_color out head fuel (color_round out head entry stack t).1
      (color_round out head entry stack t).2

/-- A search from each vertex that no search before has entered. -/
def three_color_all (out : α → List ε) (head : ε → α) (fuel : Nat) (starts : List α)
    (t : Trail α) : Option (Trail α) :=
  starts.foldlM (fun t v =>
    if v ∈ t.entered then some t else three_color out head fuel [(true, v)] t) t

variable {out : α → List ε} {head : ε → α} {fuel : Nat} {stack : List (Bool × α)}
  {t t' : Trail α} {entry : Bool × α} {v w : α}

/-- What each round keeps holds in the end. -/
theorem three_color_keeps {P : List (Bool × α) → Trail α → Prop}
    (hround : ∀ entry stack t, P (entry :: stack) t →
      P (color_round out head entry stack t).1 (color_round out head entry stack t).2)
    (h : P stack t) (hrun : three_color out head fuel stack t = some t') : P [] t' := by
  induction fuel generalizing stack t with
  | zero => cases hrun
  | succ fuel ih =>
      rcases stack with _ | ⟨entry, stack⟩
      · obtain rfl := Option.some.inj hrun
        exact h
      · exact ih (hround entry stack t h) hrun

theorem mem_pushes : entry ∈ pushes out head t v
    ↔ ∃ e ∈ out v, ¬ t.Black (head e) ∧ entry = (true, head e) := by
  simp only [pushes, List.mem_map, List.mem_reverse, List.mem_filter, decide_eq_true_eq]
  constructor
  · rintro ⟨w, ⟨⟨e, he, rfl⟩, hblack⟩, rfl⟩
    exact ⟨e, he, hblack, rfl⟩
  · rintro ⟨e, he, hblack, rfl⟩
    exact ⟨head e, ⟨⟨e, he, rfl⟩, hblack⟩, rfl⟩

theorem length_pushes_le : (pushes out head t v).length ≤ (out v).length := by
  rw [pushes, List.length_map, List.length_reverse]
  exact (List.length_filter_le _ _).trans (List.length_map _).le

/-! The fuel. -/

/-- What entering a vertex pays for: the vertex itself, and its edges. -/
def expanding (out : α → List ε) (v : α) : List (Option ε) := none :: (out v).map some

/-- A round takes an entry off the stack, or spends what a new vertex pays for. -/
theorem three_color_ends {vertices : List α} (hheads : ∀ v, ∀ e ∈ out v, head e ∈ vertices)
    (hstack : ∀ v, (true, v) ∈ stack → v ∈ vertices)
    (hfuel : stack.length + remaining (expanding out) vertices t.entered < fuel) :
    (three_color out head fuel stack t).isSome := by
  -- on the fuel: what is pushed is paid by the vertex that is entered for the first time
  induction fuel generalizing stack t with
  | zero => omega
  | succ fuel ih =>
      rcases stack with _ | ⟨⟨_ | _, v⟩, stack⟩
      · rfl
      · rw [List.length_cons] at hfuel
        exact ih (fun w hw => hstack w (List.mem_cons_of_mem _ hw)) (by
          show stack.length + remaining (expanding out) vertices t.entered < fuel
          omega)
      · rw [List.length_cons] at hfuel
        have hrest : ∀ w, (true, w) ∈ stack → w ∈ vertices :=
          fun w hw => hstack w (List.mem_cons_of_mem _ hw)
        rw [three_color, color_round]
        split
        · refine ih hrest ?_
          show stack.length + remaining (expanding out) vertices t.entered < fuel
          omega
        · split
          · refine ih hrest ?_
            show stack.length + remaining (expanding out) vertices t.entered < fuel
            omega
          · rename_i hnew
            refine ih (fun w hw => ?_) ?_
            · obtain hpushed | hold := List.mem_append.1 hw
              · obtain ⟨e, he, -, heq⟩ := mem_pushes.1 hpushed
                rw [(Prod.mk.inj heq).2]
                exact hheads v e he
              · obtain heq | hold := List.mem_cons.1 hold
                · cases heq
                · exact hrest w hold
            · have hpaid := remaining_expand (expanding out) (hstack v List.mem_cons_self) hnew
              have hpushes : (pushes out head (t.enter v) v).length ≤ (out v).length :=
                length_pushes_le
              rw [expanding, List.length_cons, List.length_map] at hpaid
              rw [List.length_append, List.length_cons]
              show (pushes out head (t.enter v) v).length + (stack.length + 1)
                + remaining (expanding out) vertices (v :: t.entered) < fuel
              omega

/-! The path and the stack. -/

/-- The stack holds the leaving of each vertex of the path, the last one's on top, and above
it vertices that it leads to. -/
inductive Stacked (r : α → α → Prop) : List α → List (Bool × α) → Prop
  | empty : Stacked r [] []
  | entry {path : List α} {stack : List (Bool × α)} {v : α} (below : Stacked r path stack)
      (leads : ∀ last ∈ path.getLast?, r last v) : Stacked r path ((true, v) :: stack)
  | leaving {path : List α} {stack : List (Bool × α)} {v : α} (below : Stacked r path stack) :
      Stacked r (path ++ [v]) ((false, v) :: stack)

omit [DecidableEq α] in
theorem Stacked.leave {r : α → α → Prop} {path : List α} {stack : List (Bool × α)} {v : α}
    (h : Stacked r path ((false, v) :: stack)) :
    ∃ front, path = front ++ [v] ∧ Stacked r front stack := by
  generalize hentries : (false, v) :: stack = entries at h
  cases h with
  | empty => cases hentries
  | entry _ _ => cases hentries
  | leaving below =>
      obtain ⟨hentry, rfl⟩ := List.cons.inj hentries
      obtain ⟨-, rfl⟩ := Prod.mk.inj hentry
      exact ⟨_, rfl, below⟩

omit [DecidableEq α] in
theorem Stacked.enter {r : α → α → Prop} {path : List α} {stack : List (Bool × α)} {v : α}
    (h : Stacked r path ((true, v) :: stack)) :
    Stacked r path stack ∧ ∀ last ∈ path.getLast?, r last v := by
  cases h with
  | entry below leads => exact ⟨below, leads⟩

omit [DecidableEq α] in
theorem Stacked.path_nil {r : α → α → Prop} {path : List α} (h : Stacked r path []) :
    path = [] := by
  cases h
  rfl

omit [DecidableEq α] in
theorem Stacked.pushed {r : α → α → Prop} {path : List α} {stack entries : List (Bool × α)}
    (h : Stacked r path stack)
    (hentries : ∀ entry ∈ entries, ∃ v, entry = (true, v) ∧ ∀ last ∈ path.getLast?, r last v) :
    Stacked r path (entries ++ stack) := by
  induction entries with
  | nil => exact h
  | cons entry entries ih =>
      obtain ⟨v, rfl, hleads⟩ := hentries entry List.mem_cons_self
      exact .entry (ih fun entry hentry => hentries entry (List.mem_cons_of_mem _ hentry)) hleads

/-- What holds of the path, the stack and the cycles at all times. -/
structure Traced (out : α → List ε) (head : ε → α) (stack : List (Bool × α)) (t : Trail α) :
    Prop where
  stacked : Stacked (Leads out head) t.path stack
  chain : t.path.IsChain (Leads out head)
  nodup : t.path.Nodup
  entered : ∀ v ∈ t.path, v ∈ t.entered
  cycles : ∀ cycle ∈ t.cycles, Circle (Leads out head) cycle

omit [DecidableEq α] in
theorem Traced.leave (h : Traced out head ((false, v) :: stack) t) :
    Traced out head stack t.leave := by
  obtain ⟨front, hpath, hstacked⟩ := h.stacked.leave
  have hfront : t.leave.path = front := by
    show t.path.dropLast = front
    rw [hpath, List.dropLast_concat]
  have hkept : t.leave.path <+: t.path := t.path.dropLast_prefix
  exact ⟨hfront ▸ hstacked, h.chain.prefix hkept, h.nodup.sublist hkept.sublist,
    fun v hv => h.entered v (hkept.subset hv), h.cycles⟩

omit [DecidableEq α] in
theorem Traced.skip (h : Traced out head ((true, v) :: stack) t) : Traced out head stack t :=
  ⟨h.stacked.enter.1, h.chain, h.nodup, h.entered, h.cycles⟩

theorem Traced.close (h : Traced out head ((true, v) :: stack) t) (hv : v ∈ t.path) :
    Traced out head stack (t.close v) := by
  refine ⟨h.skip.stacked, h.chain, h.nodup, h.entered, fun cycle hcycle => ?_⟩
  obtain hold | hnew := List.mem_append.1 hcycle
  · exact h.cycles cycle hold
  · rw [List.mem_singleton.1 hnew]
    exact circle_of_path h.chain h.nodup hv h.stacked.enter.2

theorem Traced.enter (h : Traced out head ((true, v) :: stack) t) (hnew : v ∉ t.entered) :
    Traced out head (pushes out head (t.enter v) v ++ (false, v) :: stack) (t.enter v) := by
  have hoff : v ∉ t.path := fun hv => hnew (h.entered v hv)
  refine ⟨?_, ?_, ?_, fun w hw => ?_, h.cycles⟩
  · refine (Stacked.leaving h.skip.stacked).pushed fun entry hentry => ?_
    obtain ⟨e, he, -, rfl⟩ := mem_pushes.1 hentry
    refine ⟨head e, rfl, fun last hlast => ?_⟩
    rw [List.getLast?_concat, Option.mem_some] at hlast
    exact hlast ▸ ⟨e, he, rfl⟩
  · refine h.chain.append (List.isChain_singleton v) fun last hlast first hfirst => ?_
    rw [List.head?_cons, Option.mem_some] at hfirst
    exact hfirst ▸ h.stacked.enter.2 last hlast
  · exact List.nodup_append.2 ⟨h.nodup, List.pairwise_singleton _ v, fun a ha b hb hab =>
      hoff (List.mem_singleton.1 hb ▸ hab ▸ ha)⟩
  · obtain hold | hsame := List.mem_append.1 hw
    · exact List.mem_cons_of_mem _ (h.entered w hold)
    · rw [List.mem_singleton.1 hsame]
      exact List.mem_cons_self

theorem Traced.round (h : Traced out head (entry :: stack) t) :
    Traced out head (color_round out head entry stack t).1
      (color_round out head entry stack t).2 := by
  obtain ⟨_ | _, v⟩ := entry
  · exact h.leave
  · rw [color_round]
    split
    · rename_i hgray
      exact h.close hgray
    · split
      · exact h.skip
      · rename_i hnew
        exact h.enter hnew

/-! Black vertices. -/

/-- What holds as long as no cycle is listed. -/
structure Cleared (out : α → List ε) (head : ε → α) (stack : List (Bool × α)) (t : Trail α) :
    Prop where
  above : ∀ top v rest, stack = top ++ (false, v) :: rest → ∀ w, Leads out head v w →
    t.Black w ∨ ∃ enters, (enters, w) ∈ top
  closed : ∀ v w, t.Black v → Leads out head v w → t.Black w
  acyclic : ∀ v, t.Black v → ¬ TransGen (Leads out head) v v

omit [DecidableEq α] in
theorem Cleared.reaches (h : Cleared out head stack t) (hv : t.Black v)
    (hreach : ReflTransGen (Leads out head) v w) : t.Black w := by
  induction hreach with
  | refl => exact hv
  | tail _ hstep ih => exact h.closed _ _ ih hstep

/-- The vertex that is left turns black, and nothing else does. -/
theorem Traced.black_leave (h : Traced out head ((false, v) :: stack) t) :
    t.leave.Black w ↔ t.Black w ∨ w = v := by
  obtain ⟨front, hpath, -⟩ := h.stacked.leave
  have hleave : t.leave.path = front := by
    show t.path.dropLast = front
    rw [hpath, List.dropLast_concat]
  have hnodup : (front ++ [v]).Nodup := hpath ▸ h.nodup
  have hv : v ∉ front := by
    intro hmem
    exact (List.nodup_append.1 hnodup).2.2 v hmem v List.mem_cons_self rfl
  have hentered : v ∈ t.entered := by
    refine h.entered v ?_
    rw [hpath]
    exact List.mem_append_right _ List.mem_cons_self
  simp only [Trail.Black, hleave, hpath, List.mem_append, List.mem_singleton]
  constructor
  · rintro ⟨hw, hoff⟩
    by_cases hsame : w = v
    · exact .inr hsame
    · exact .inl ⟨hw, fun hor => hor.elim hoff hsame⟩
  · rintro (⟨hw, hoff⟩ | rfl)
    · exact ⟨hw, fun hmem => hoff (.inl hmem)⟩
    · exact ⟨hentered, hv⟩

omit [DecidableEq α] in
theorem black_enter (hnew : v ∉ t.entered) : (t.enter v).Black w ↔ t.Black w := by
  simp only [Trail.Black, Trail.enter, List.mem_cons, List.mem_append, List.not_mem_nil,
    or_false]
  constructor
  · rintro ⟨rfl | hw, hoff⟩
    · exact absurd (.inr rfl) hoff
    · exact ⟨hw, fun hmem => hoff (.inl hmem)⟩
  · rintro ⟨hw, hoff⟩
    refine ⟨.inr hw, fun hor => hor.elim hoff ?_⟩
    rintro rfl
    exact hnew hw

theorem Cleared.leave (h : Cleared out head ((false, v) :: stack) t)
    (ht : Traced out head ((false, v) :: stack) t) : Cleared out head stack t.leave := by
  have hgray : ¬ t.Black v := by
    obtain ⟨front, hpath, -⟩ := ht.stacked.leave
    intro hblack
    refine hblack.2 ?_
    rw [hpath]
    exact List.mem_append_right _ List.mem_cons_self
  -- nothing stands above the leaving any more, so all that the vertex leads to is black
  have hout : ∀ w, Leads out head v w → t.Black w := by
    intro w hw
    obtain hblack | ⟨_, hmem⟩ := h.above [] v stack rfl w hw
    · exact hblack
    · cases hmem
  refine ⟨?_, ?_, ?_⟩
  · rintro top u rest rfl w hw
    obtain hblack | ⟨enters, hmem⟩ := h.above ((false, v) :: top) u rest rfl w hw
    · exact .inl (ht.black_leave.2 (.inl hblack))
    · obtain heq | hmem := List.mem_cons.1 hmem
      · exact .inl (ht.black_leave.2 (.inr (Prod.mk.inj heq).2))
      · exact .inr ⟨enters, hmem⟩
  · intro u w hu hw
    obtain hblack | rfl := ht.black_leave.1 hu
    · exact ht.black_leave.2 (.inl (h.closed u w hblack hw))
    · exact ht.black_leave.2 (.inl (hout w hw))
  · intro u hu hcycle
    obtain hblack | rfl := ht.black_leave.1 hu
    · exact h.acyclic u hblack hcycle
    -- a way back would run through black vertices only
    · obtain ⟨w, hw, hback⟩ := TransGen.head'_iff.1 hcycle
      exact hgray (h.reaches (hout w hw) hback)

omit [DecidableEq α] in
theorem Cleared.skip (h : Cleared out head ((true, v) :: stack) t) (hblack : t.Black v) :
    Cleared out head stack t := by
  refine ⟨?_, h.closed, h.acyclic⟩
  rintro top u rest rfl w hw
  obtain hdone | ⟨enters, hmem⟩ := h.above ((true, v) :: top) u rest rfl w hw
  · exact .inl hdone
  · obtain heq | hmem := List.mem_cons.1 hmem
    · rw [(Prod.mk.inj heq).2]
      exact .inl hblack
    · exact .inr ⟨enters, hmem⟩

omit [DecidableEq α] in
/-- A leaving below entries that enter is the first one after them, or one further down. -/
theorem leaving_below {u : α} {entries top rest : List (Bool × α)}
    (hentries : ∀ entry ∈ entries, entry.1 = true)
    (h : entries ++ (false, v) :: stack = top ++ (false, u) :: rest) :
    (top = entries ∧ u = v) ∨ ∃ between, top = entries ++ (false, v) :: between
      ∧ stack = between ++ (false, u) :: rest := by
  induction entries generalizing top with
  | nil =>
      rcases top with _ | ⟨entry, top⟩
      · exact .inl ⟨rfl, (Prod.mk.inj (List.cons.inj h).1).2.symm⟩
      · obtain ⟨rfl, hrest⟩ := List.cons.inj h
        exact .inr ⟨top, rfl, hrest⟩
  | cons entry entries ih =>
      rcases top with _ | ⟨other, top⟩
      · have henters := hentries entry List.mem_cons_self
        rw [(List.cons.inj h).1] at henters
        cases henters
      · obtain ⟨rfl, hrest⟩ := List.cons.inj h
        have hothers := fun entry hentry => hentries entry (List.mem_cons_of_mem _ hentry)
        obtain ⟨rfl, hsame⟩ | ⟨between, rfl, hstack⟩ := ih hothers hrest
        · exact .inl ⟨rfl, hsame⟩
        · exact .inr ⟨between, rfl, hstack⟩

theorem Cleared.enter (h : Cleared out head ((true, v) :: stack) t) (hnew : v ∉ t.entered) :
    Cleared out head (pushes out head (t.enter v) v ++ (false, v) :: stack) (t.enter v) := by
  have hpushed : ∀ entry ∈ pushes out head (t.enter v) v, entry.1 = true := by
    intro entry hentry
    obtain ⟨e, -, -, rfl⟩ := mem_pushes.1 hentry
    rfl
  refine ⟨?_, ?_, ?_⟩
  · intro top u rest hstack w hw
    obtain ⟨rfl, rfl⟩ | ⟨between, rfl, hrest⟩ := leaving_below hpushed hstack
    -- the leaving of the vertex itself
    · by_cases hblack : (t.enter u).Black w
      · exact .inl hblack
      · obtain ⟨e, he, rfl⟩ := hw
        exact .inr ⟨true, mem_pushes.2 ⟨e, he, hblack, rfl⟩⟩
    -- the leaving of one that was entered before
    · have hold := h.above ((true, v) :: between) u rest (by rw [hrest]; rfl) w hw
      obtain hblack | ⟨enters, hmem⟩ := hold
      · exact .inl ((black_enter hnew).2 hblack)
      · obtain heq | hmem := List.mem_cons.1 hmem
        · rw [(Prod.mk.inj heq).2]
          exact .inr ⟨false, List.mem_append_right _ List.mem_cons_self⟩
        · exact .inr ⟨enters, List.mem_append_right _ (List.mem_cons_of_mem _ hmem)⟩
  · intro u w hu hw
    exact (black_enter hnew).2 (h.closed u w ((black_enter hnew).1 hu) hw)
  · exact fun u hu => h.acyclic u ((black_enter hnew).1 hu)

/-- Both invariants, the second while no cycle is listed. -/
def Sound (out : α → List ε) (head : ε → α) (stack : List (Bool × α)) (t : Trail α) : Prop :=
  Traced out head stack t ∧ (t.cycles = [] → Cleared out head stack t)

theorem Sound.round (h : Sound out head (entry :: stack) t) :
    Sound out head (color_round out head entry stack t).1
      (color_round out head entry stack t).2 := by
  obtain ⟨ht, hcleared⟩ := h
  refine ⟨ht.round, fun hnone => ?_⟩
  obtain ⟨_ | _, v⟩ := entry
  · exact (hcleared hnone).leave ht
  · rw [color_round] at hnone ⊢
    split at hnone
    -- a cycle has been listed
    · exact absurd hnone (List.append_ne_nil_of_right_ne_nil _ (List.cons_ne_nil _ _))
    · rename_i hoff
      rw [if_neg hoff]
      split at hnone
      · rename_i hentered
        rw [if_pos hentered]
        exact (hcleared hnone).skip ⟨hentered, hoff⟩
      · rename_i hnew
        rw [if_neg hnew]
        exact (hcleared hnone).enter hnew

/-- What has been entered stays so, and what is to be entered will be. -/
theorem Traced.entered_round (ht : Traced out head (entry :: stack) t)
    (h : v ∈ t.entered ∨ (true, v) ∈ entry :: stack) :
    v ∈ (color_round out head entry stack t).2.entered
      ∨ (true, v) ∈ (color_round out head entry stack t).1 := by
  obtain ⟨_ | _, u⟩ := entry
  · obtain hold | hmem := h
    · exact .inl hold
    · obtain heq | hmem := List.mem_cons.1 hmem
      · cases heq
      · exact .inr hmem
  · have hcases : v ∈ t.entered ∨ v = u ∨ (true, v) ∈ stack := by
      rw [List.mem_cons] at h
      exact h.imp_right fun hmem => hmem.imp_left fun heq => (Prod.mk.inj heq).2
    -- if the vertex is the one that is taken now, it is entered by the end of the round
    rw [color_round]
    split
    · rename_i hgray
      obtain hold | rfl | hmem := hcases
      · exact .inl hold
      · exact .inl (ht.entered v hgray)
      · exact .inr hmem
    · split
      · rename_i hentered
        obtain hold | rfl | hmem := hcases
        · exact .inl hold
        · exact .inl hentered
        · exact .inr hmem
      · obtain hold | rfl | hmem := hcases
        · exact .inl (List.mem_cons_of_mem _ hold)
        · exact .inl List.mem_cons_self
        · exact .inr (List.mem_append_right _ (List.mem_cons_of_mem _ hmem))

/-! All vertices. -/

omit [DecidableEq α] in
theorem Sound.start (h : Sound out head [] t) (v : α) : Sound out head [(true, v)] t := by
  obtain ⟨ht, hcleared⟩ := h
  have hpath : t.path = [] := ht.stacked.path_nil
  refine ⟨⟨?_, ht.chain, ht.nodup, ht.entered, ht.cycles⟩, fun hnone => ?_⟩
  · refine .entry ht.stacked fun last hlast => ?_
    rw [hpath] at hlast
    cases hlast
  · refine ⟨fun top u rest hstack => ?_, (hcleared hnone).closed, (hcleared hnone).acyclic⟩
    have hmem : (false, u) ∈ [(true, v)] := by
      rw [hstack]
      exact List.mem_append_right _ List.mem_cons_self
    cases List.mem_singleton.1 hmem

theorem remaining_le_nil (out : α → List ε) (vertices visited : List α) :
    remaining out vertices visited ≤ remaining out vertices [] := by
  refine List.sum_le_sum fun v _ => ?_
  rw [if_neg List.not_mem_nil]
  split <;> omega

/-- A search from one more vertex ends, and has entered it. -/
theorem Sound.search {vertices : List α} (hheads : ∀ v, ∀ e ∈ out v, head e ∈ vertices)
    (hfuel : 1 + remaining (expanding out) vertices [] < fuel) (h : Sound out head [] t)
    (hv : v ∈ vertices) :
    ∃ t', three_color out head fuel [(true, v)] t = some t' ∧ Sound out head [] t'
      ∧ ∀ w, w = v ∨ w ∈ t.entered → w ∈ t'.entered := by
  have hends : (three_color out head fuel [(true, v)] t).isSome := by
    refine three_color_ends hheads (fun w hw => ?_) ?_
    · rw [(Prod.mk.inj (List.mem_singleton.1 hw)).2]
      exact hv
    · have hle := remaining_le_nil (expanding out) vertices t.entered
      rw [List.length_singleton]
      omega
  obtain ⟨t', ht'⟩ := Option.isSome_iff_exists.1 hends
  refine ⟨t', ht', ?_, fun w hw => ?_⟩
  · exact three_color_keeps (fun _ _ _ => Sound.round) (h.start v) ht'
  · have hfirst : Traced out head [(true, v)] t ∧ (w ∈ t.entered ∨ (true, w) ∈ [(true, v)]) := by
      refine ⟨(h.start v).1, ?_⟩
      obtain rfl | hold := hw
      · exact .inr List.mem_cons_self
      · exact .inl hold
    have hlast := three_color_keeps
      (P := fun stack t => Traced out head stack t ∧ (w ∈ t.entered ∨ (true, w) ∈ stack))
      (fun _ _ _ hP => ⟨hP.1.round, hP.1.entered_round hP.2⟩) hfirst ht'
    exact hlast.2.resolve_right List.not_mem_nil

theorem Sound.search_all {vertices starts : List α}
    (hheads : ∀ v, ∀ e ∈ out v, head e ∈ vertices)
    (hfuel : 1 + remaining (expanding out) vertices [] < fuel) (h : Sound out head [] t)
    (hstarts : ∀ v ∈ starts, v ∈ vertices) :
    ∃ t', three_color_all out head fuel starts t = some t' ∧ Sound out head [] t'
      ∧ ∀ w, w ∈ starts ∨ w ∈ t.entered → w ∈ t'.entered := by
  induction starts generalizing t with
  | nil => exact ⟨t, rfl, h, fun w hw => hw.resolve_left List.not_mem_nil⟩
  | cons v starts ih =>
      have hrest := fun w hw => hstarts w (List.mem_cons_of_mem _ hw)
      -- a vertex that another search has entered is passed over
      have hone : ∃ t', (if v ∈ t.entered then some t
          else three_color out head fuel [(true, v)] t) = some t' ∧ Sound out head [] t'
            ∧ ∀ w, w = v ∨ w ∈ t.entered → w ∈ t'.entered := by
        by_cases hv : v ∈ t.entered
        · refine ⟨t, if_pos hv, h, ?_⟩
          rintro w (rfl | hw)
          · exact hv
          · exact hw
        · rw [if_neg hv]
          exact h.search hheads hfuel (hstarts v List.mem_cons_self)
      obtain ⟨t₁, hrun₁, h₁, hentered₁⟩ := hone
      obtain ⟨t₂, hrun₂, h₂, hentered₂⟩ := ih h₁ hrest
      refine ⟨t₂, ?_, h₂, fun w hw => hentered₂ w ?_⟩
      · rw [three_color_all, List.foldlM_cons, hrun₁]
        exact hrun₂
      · obtain hmem | hold := hw
        · obtain rfl | hmem := List.mem_cons.1 hmem
          · exact .inr (hentered₁ w (.inl rfl))
          · exact .inl hmem
        · exact .inr (hentered₁ w (.inr hold))

omit [DecidableEq α] in
theorem sound_nil (out : α → List ε) (head : ε → α) : Sound out head [] ⟨[], [], []⟩ := by
  refine ⟨⟨.empty, .nil, .nil, nofun, nofun⟩, fun _ => ⟨?_, ?_, ?_⟩⟩
  · intro top u rest hstack
    exact absurd hstack.symm (List.append_ne_nil_of_right_ne_nil _ (List.cons_ne_nil _ _))
  · rintro v w ⟨hv, -⟩
    cases hv
  · rintro v ⟨hv, -⟩
    cases hv

/-- The search of all vertices, in any order, ends. It lists nothing exactly if no vertex
reaches itself, and what it lists are cycles. -/
theorem three_color_all_spec {vertices : List α} (hheads : ∀ v, ∀ e ∈ out v, head e ∈ vertices)
    (hfuel : 1 + remaining (expanding out) vertices [] < fuel) :
    ∃ t, three_color_all out head fuel vertices ⟨[], [], []⟩ = some t
      ∧ (t.cycles = [] ↔ Acyclic (Leads out head))
      ∧ ∀ cycle ∈ t.cycles, Circle (Leads out head) cycle := by
  obtain ⟨t, hrun, ⟨ht, hcleared⟩, hentered⟩ :=
    (sound_nil out head).search_all hheads hfuel fun v (hv : v ∈ vertices) => hv
  refine ⟨t, hrun, ⟨fun hnone v hcycle => ?_, fun hno => ?_⟩, ht.cycles⟩
  -- a vertex that reaches itself is the target of an edge, and so black by now
  · obtain ⟨u, -, e, he, rfl⟩ := TransGen.tail'_iff.1 hcycle
    have hin : head e ∈ t.entered := hentered _ (.inl (hheads u e he))
    have hout : head e ∉ t.path := by
      rw [ht.stacked.path_nil]
      exact List.not_mem_nil
    exact (hcleared hnone).acyclic _ ⟨hin, hout⟩ hcycle
  · refine List.eq_nil_iff_forall_not_mem.2 fun cycle hcycle => ?_
    exact (ht.cycles cycle hcycle).not_acyclic hno

end Search

end Scharnhorst.Search
