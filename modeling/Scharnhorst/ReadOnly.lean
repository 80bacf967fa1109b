/-
Fallible computations that only read.

A method `fn f(&mut self) -> Result<T, E>` may write to `self`, and one that calls others may
write through any of them. Nothing here names the repository: a computation is a function of the
state that returns a result and the state after it, it only reads if that state is the one before,
and the ways in which computations are put together, one after the other or a list of them from
the left to the right, keep this.

What a computation that only reads returns depends on the state alone. So a list of them comes to
the same values in another order of the list, in that order, and fails in the one order if it does
in the other. With which error is another matter: the first that fails is a different one.
-/
import Scharnhorst.Attempt
import Mathlib.Data.List.Perm.Basic

set_option autoImplicit false

namespace Scharnhorst.ReadOnly

universe u v w x

variable {σ : Type u} {ε : Type v} {α β : Type w} {ι : Type x}

/-! ## Results up to their errors -/

/-- The same value, or an error each. -/
def SameOutcome (r r' : Except ε α) : Prop :=
  (∀ a, r = .ok a ↔ r' = .ok a) ∧ ((∃ e, r = .error e) ↔ ∃ e, r' = .error e)

theorem sameOutcome_of_ok {r r' : Except ε α} (h : ∀ a, r = .ok a ↔ r' = .ok a) :
    SameOutcome r r' := by
  refine ⟨h, ?_⟩
  rcases r with e | a
  · rcases r' with e' | a'
    · exact ⟨fun _ => ⟨e', rfl⟩, fun _ => ⟨e, rfl⟩⟩
    · have hok := (h a').2 rfl
      cases hok
  · have hok := (h a).1 rfl
    rw [hok]

theorem SameOutcome.refl (r : Except ε α) : SameOutcome r r :=
  ⟨fun _ => Iff.rfl, Iff.rfl⟩

theorem SameOutcome.trans {r s t : Except ε α} (hrs : SameOutcome r s) (hst : SameOutcome s t) :
    SameOutcome r t :=
  ⟨fun a => (hrs.1 a).trans (hst.1 a), hrs.2.trans hst.2⟩

theorem bind_eq_ok {r : Except ε α} {f : α → Except ε β} {b : β} :
    r >>= f = .ok b ↔ ∃ a, r = .ok a ∧ f a = .ok b := by
  rcases r with e | a
  · constructor
    · intro h
      cases h
    · rintro ⟨a, h, -⟩
      cases h
  · constructor
    · intro h
      exact ⟨a, rfl, h⟩
    · rintro ⟨a', h, hf⟩
      rw [Except.ok.inj h]
      exact hf

theorem SameOutcome.bind {r r' : Except ε α} {f f' : α → Except ε β} (h : SameOutcome r r')
    (hf : ∀ a, SameOutcome (f a) (f' a)) : SameOutcome (r >>= f) (r' >>= f') := by
  apply sameOutcome_of_ok
  intro b
  rw [bind_eq_ok, bind_eq_ok]
  apply exists_congr
  intro a
  rw [h.1 a, (hf a).1 b]

/-! ### Lists of results -/

/-- In another order, the values come in that order. -/
theorem mapM_ok_perm {f : ι → Except ε α} {is is' : List ι} {as : List α} (hperm : is.Perm is')
    (h : is.mapM f = .ok as) : ∃ as', is'.mapM f = .ok as' ∧ as.Perm as' := by
  obtain ⟨as', has', hperm'⟩ := List.perm_comp_forall₂ hperm.symm (Attempt.mapM_ok.1 h)
  exact ⟨as', Attempt.mapM_ok.2 has', hperm'.symm⟩

/-- What does not depend on the order of the values does not depend on that of the list. -/
theorem sameOutcome_mapM_perm {f : ι → Except ε α} {is is' : List ι} {k : List α → Except ε β}
    (hperm : is.Perm is')
    (hk : ∀ as as', is.mapM f = .ok as → as.Perm as' → k as = k as') :
    SameOutcome (is.mapM f >>= k) (is'.mapM f >>= k) := by
  apply sameOutcome_of_ok
  intro b
  rw [bind_eq_ok, bind_eq_ok]
  constructor
  · rintro ⟨as, has, hb⟩
    obtain ⟨as', has', hperm'⟩ := mapM_ok_perm hperm has
    refine ⟨as', has', ?_⟩
    rw [← hk as as' has hperm']
    exact hb
  · rintro ⟨as', has', hb⟩
    obtain ⟨as, has, hperm'⟩ := mapM_ok_perm hperm.symm has'
    refine ⟨as, has, ?_⟩
    rw [hk as as' has hperm'.symm]
    exact hb

/-! ## Computations -/

/-- `fn f(&mut self) -> Result<T, E>`. -/
abbrev Computation (σ : Type u) (ε : Type v) (α : Type w) := σ → Except ε α × σ

def Reads (x : Computation σ ε α) : Prop := ∀ s, (x s).2 = s

/-- A result that is there already. -/
def done (r : Except ε α) : Computation σ ε α := fun s => (r, s)

/-- `f(self.x()?)`: the state goes from the one to the other. -/
def and_then (x : Computation σ ε α) (f : α → Computation σ ε β) : Computation σ ε β := fun s =>
  match x s with
  | (.ok a, s) => f a s
  | (.error e, s) => (.error e, s)

/-- `.map(|x| self.x()).collect::<Result<Vec<_>, _>>()`: up to the first error. -/
def collect : List (Computation σ ε α) → Computation σ ε (List α)
  | [] => done (.ok [])
  | x :: xs => and_then x fun a => and_then (collect xs) fun as => done (.ok (a :: as))

theorem reads_done (r : Except ε α) : Reads (σ := σ) (done r) := fun _ => rfl

theorem Reads.and_then {x : Computation σ ε α} {f : α → Computation σ ε β} (hx : Reads x)
    (hf : ∀ a, Reads (f a)) : Reads (and_then x f) := by
  intro s
  have hs := hx s
  unfold ReadOnly.and_then
  rcases hrun : x s with ⟨e | a, s'⟩
  · rw [hrun] at hs
    exact hs
  · rw [hrun] at hs
    exact (hf a s').trans hs

/-- What comes second runs in the same state. -/
theorem Reads.and_then_value {x : Computation σ ε α} (hx : Reads x) (f : α → Computation σ ε β)
    (s : σ) : (ReadOnly.and_then x f s).1 = (x s).1 >>= fun a => (f a s).1 := by
  have hs := hx s
  unfold ReadOnly.and_then
  rcases hrun : x s with ⟨e | a, s'⟩
  · rfl
  · rw [hrun] at hs
    change (f a s').1 = (f a s).1
    rw [← hs]

theorem reads_collect {xs : List (Computation σ ε α)} (h : ∀ x ∈ xs, Reads x) :
    Reads (collect xs) := by
  induction xs with
  | nil => exact reads_done _
  | cons x xs ih =>
    obtain ⟨hx, hxs⟩ := List.forall_mem_cons.1 h
    apply hx.and_then
    intro a
    exact (ih hxs).and_then fun as => reads_done _

theorem collect_value {xs : List (Computation σ ε α)} (h : ∀ x ∈ xs, Reads x) (s : σ) :
    (collect xs s).1 = xs.mapM fun x => (x s).1 := by
  induction xs with
  | nil => rfl
  | cons x xs ih =>
    obtain ⟨hx, hxs⟩ := List.forall_mem_cons.1 h
    rw [collect, hx.and_then_value, List.mapM_cons, ← ih hxs]
    -- the rest runs in the state that the first left, which is this one
    apply congrArg
    funext a
    exact (reads_collect hxs).and_then_value _ s

/-! ## What a computation sees

A relation between states says what may be different in them. A computation that only reads and
does not see the difference returns the same in both. -/

structure Sees (r : σ → σ → Prop) (x : Computation σ ε α) : Prop where
  reads : Reads x
  same : ∀ s t, r s t → (x s).1 = (x t).1

variable {r : σ → σ → Prop}

theorem sees_done (res : Except ε α) : Sees r (done res) := ⟨reads_done res, fun _ _ _ => rfl⟩

theorem Sees.and_then {x : Computation σ ε α} {f : α → Computation σ ε β} (hx : Sees r x)
    (hf : ∀ a, Sees r (f a)) : Sees r (ReadOnly.and_then x f) where
  reads := hx.reads.and_then fun a => (hf a).reads
  same := by
    intro s t hst
    rw [hx.reads.and_then_value, hx.reads.and_then_value, hx.same s t hst]
    apply congrArg
    funext a
    exact (hf a).same s t hst

theorem sees_collect {xs : List (Computation σ ε α)} (h : ∀ x ∈ xs, Sees r x) :
    Sees r (collect xs) := by
  induction xs with
  | nil => exact sees_done _
  | cons x xs ih =>
    obtain ⟨hx, hxs⟩ := List.forall_mem_cons.1 h
    apply hx.and_then
    intro a
    exact (ih hxs).and_then fun as => sees_done _

/-! ## Computations that agree -/

/-- Both only read, and in every state their outcomes are the same. -/
structure Alike (x y : Computation σ ε α) : Prop where
  left : Reads x
  right : Reads y
  same : ∀ s, SameOutcome (x s).1 (y s).1

theorem Reads.alike {x : Computation σ ε α} (h : Reads x) : Alike x x :=
  ⟨h, h, fun _ => .refl _⟩

theorem Alike.trans {x y z : Computation σ ε α} (hxy : Alike x y) (hyz : Alike y z) :
    Alike x z :=
  ⟨hxy.left, hyz.right, fun s => (hxy.same s).trans (hyz.same s)⟩

theorem Alike.and_then {x y : Computation σ ε α} {f g : α → Computation σ ε β} (h : Alike x y)
    (hfg : ∀ a, Alike (f a) (g a)) : Alike (ReadOnly.and_then x f) (ReadOnly.and_then y g) where
  left := h.left.and_then fun a => (hfg a).left
  right := h.right.and_then fun a => (hfg a).right
  same := by
    intro s
    rw [h.left.and_then_value, h.right.and_then_value]
    exact (h.same s).bind fun a => (hfg a).same s

/-- Lists of computations that agree one by one. -/
theorem alike_collect {xs ys : List (Computation σ ε α)} (h : List.Forall₂ Alike xs ys) :
    Alike (collect xs) (collect ys) := by
  induction h with
  | nil => exact (reads_done _).alike
  | cons hxy _ ih =>
    apply hxy.and_then
    intro a
    exact ih.and_then fun as => (reads_done _).alike

/-- A list in two orders, for a use of the values that does not depend on theirs. -/
theorem alike_collect_perm {xs ys : List (Computation σ ε α)} {k : List α → Except ε β}
    (hperm : xs.Perm ys) (hreads : ∀ x ∈ xs, Reads x)
    (hk : ∀ s as as', xs.mapM (fun x => (x s).1) = .ok as → as.Perm as' → k as = k as') :
    Alike (ReadOnly.and_then (collect xs) fun as => done (k as))
      (ReadOnly.and_then (collect ys) fun as => done (k as)) := by
  -- the computations of both lists are the same ones
  have hreads' : ∀ y ∈ ys, Reads y := fun y hy => hreads y (hperm.mem_iff.2 hy)
  refine ⟨(reads_collect hreads).and_then fun as => reads_done _,
    (reads_collect hreads').and_then fun as => reads_done _, ?_⟩
  intro s
  rw [(reads_collect hreads).and_then_value, (reads_collect hreads').and_then_value,
    collect_value hreads, collect_value hreads']
  exact sameOutcome_mapM_perm hperm (hk s)

end Scharnhorst.ReadOnly
