/-
Fallible mutators, and the loops over them.

A Rust method `fn f(&mut self, a: A) -> Result<(), E>` that returns `Err` may
already have written to `self`: the error is a value, not an undo. So the shape
used here for such a method is `σ → α → Except ε Unit × σ`, and the state is in
the pair whether the call succeeded or not. Whether a failed call left its state
alone is then a statement to be proved, never a consequence of the type.

This file is the library part: the loop `forEach` over such a method, which stops
at the first error with whatever was written so far, and the four rules the
development reasons by -- the split at the failing item, the invariant, the
guarded simulation, and congruence. Nothing here names the repository.
-/
import Mathlib.Data.List.Forall2
import Mathlib.Tactic.Common

set_option autoImplicit false

namespace Scharnhorst.Attempt

universe u v w

variable {ε : Type u} {σ : Type v} {α : Type w}

/-! ## The loop -/

/-- `for a in as { self.f(a)?; }`: run the items in order, stop at the first
error, keep what was written. -/
def forEach (f : σ → α → Except ε Unit × σ) : σ → List α → Except ε Unit × σ
  | s, [] => (.ok (), s)
  | s, a :: as =>
    match f s a with
    | (.ok (), s') => forEach f s' as
    | (.error e, s') => (.error e, s')

/-- A verdict and a state, put back together. -/
theorem eq_of_verdict {β : Type w} {p : Except ε β × σ} {b : β} (h : p.1 = .ok b) :
    p = (.ok b, p.2) := Prod.ext h rfl

theorem eq_of_failure {β : Type w} {p : Except ε β × σ} {e : ε} (h : p.1 = .error e) :
    p = (.error e, p.2) := Prod.ext h rfl

variable {f : σ → α → Except ε Unit × σ}

@[simp] theorem forEach_nil (s : σ) : forEach f s [] = (.ok (), s) := rfl

theorem forEach_cons_of_ok {s t : σ} {a : α} {as : List α} (h : f s a = (.ok (), t)) :
    forEach f s (a :: as) = forEach f t as := by
  simp only [forEach, h]

theorem forEach_cons_of_error {s t : σ} {a : α} {as : List α} {e : ε}
    (h : f s a = (.error e, t)) : forEach f s (a :: as) = (.error e, t) := by
  simp only [forEach, h]

/-- A loop that ran through ran through its first item. -/
theorem forEach_cons_ok {s s' : σ} {a : α} {as : List α} :
    forEach f s (a :: as) = (.ok (), s')
      ↔ ∃ mid, f s a = (.ok (), mid) ∧ forEach f mid as = (.ok (), s') := by
  rcases hfa : f s a with ⟨_ | _, mid⟩
  · simp [forEach_cons_of_error hfa]
  · simp [forEach_cons_of_ok hfa]

/-- A loop that ran through went over its items one after the other. -/
theorem forEach_ok_foldl {s s' : σ} {as : List α} (h : forEach f s as = (.ok (), s')) :
    s' = as.foldl (fun s a => (f s a).2) s := by
  induction as generalizing s with
  | nil => simpa [eq_comm] using h
  | cons a as ih =>
      obtain ⟨mid, ha, has⟩ := forEach_cons_ok.1 h
      rw [List.foldl_cons, ha]
      exact ih has

/-- Every item of a loop that ran through succeeded somewhere along it. -/
theorem forEach_ok_mem {s s' : σ} {as : List α} (h : forEach f s as = (.ok (), s')) {a : α}
    (ha : a ∈ as) : ∃ t t', f t a = (.ok (), t') := by
  induction as generalizing s with
  | nil => simp at ha
  | cons b bs ih =>
      obtain ⟨mid, hb, hbs⟩ := forEach_cons_ok.1 h
      rcases List.mem_cons.1 ha with rfl | hmem
      · exact ⟨s, mid, hb⟩
      · exact ih hbs hmem

/-- Where a failed loop stopped: a prefix that ran through, and the item that
did not. The state it leaves is the state that item left. -/
theorem forEach_error {s s' : σ} {as : List α} {e : ε} (h : forEach f s as = (.error e, s')) :
    ∃ pre a post mid, as = pre ++ a :: post ∧ forEach f s pre = (.ok (), mid)
      ∧ f mid a = (.error e, s') := by
  induction as generalizing s with
  | nil => simp at h
  | cons a as ih =>
      rcases hfa : f s a with ⟨e' | _, m⟩
      · rw [forEach_cons_of_error hfa] at h
        obtain ⟨rfl, rfl⟩ : e' = e ∧ m = s' := by simpa using h
        exact ⟨[], a, as, s, rfl, rfl, hfa⟩
      · rw [forEach_cons_of_ok hfa] at h
        obtain ⟨pre, b, post, mid, rfl, hpre, hb⟩ := ih h
        exact ⟨a :: pre, b, post, mid, rfl, by rw [forEach_cons_of_ok hfa, hpre], hb⟩

/-! ## Invariants -/

/-- What every item preserves, whatever its outcome, the loop preserves,
whatever its outcome. -/
theorem forEach_invariant {P : σ → Prop} (as : List α)
    (hstep : ∀ s a, a ∈ as → P s → P (f s a).2) {s : σ} (hs : P s) :
    P (forEach f s as).2 := by
  induction as generalizing s with
  | nil => exact hs
  | cons a as ih =>
      have ha := hstep s a List.mem_cons_self hs
      have htail : ∀ s b, b ∈ as → P s → P (f s b).2 :=
        fun s b hb => hstep s b (List.mem_cons_of_mem _ hb)
      rcases hfa : f s a with ⟨_ | _, s'⟩
      · rw [hfa] at ha
        simpa only [forEach_cons_of_error hfa] using ha
      · rw [hfa] at ha
        simpa only [forEach_cons_of_ok hfa] using ih htail ha

/-- What every successful item preserves, a loop that ran through preserves. -/
theorem forEach_ok_invariant {P : σ → Prop} {as : List α}
    (hstep : ∀ s a s', a ∈ as → P s → f s a = (.ok (), s') → P s') {s s' : σ} (hs : P s)
    (h : forEach f s as = (.ok (), s')) : P s' := by
  induction as generalizing s with
  | nil =>
      obtain rfl : s = s' := by simpa using h
      exact hs
  | cons a as ih =>
      obtain ⟨m, ha, has⟩ := forEach_cons_ok.1 h
      exact ih (fun s b s' hb => hstep s b s' (List.mem_cons_of_mem _ hb))
        (hstep s a m List.mem_cons_self hs ha) has

/-! ## Guarded runs and simulation -/

/-- Every item of the loop meets `G` in the state it is run in. -/
def Guarded (f : σ → α → Except ε Unit × σ) (G : σ → α → Prop) : σ → List α → Prop
  | _, [] => True
  | s, a :: as => G s a ∧ ∀ s', f s a = (.ok (), s') → Guarded f G s' as

/-- No guard is met by every loop. -/
theorem guarded_true (s : σ) (as : List α) : Guarded f (fun _ _ => True) s as := by
  induction as generalizing s with
  | nil => trivial
  | cons a as ih => exact ⟨trivial, fun s' _ => ih s'⟩

/-- A guarded loop can be checked by running it. -/
instance Guarded.decidable {G : σ → α → Prop} [∀ s a, Decidable (G s a)] :
    ∀ (s : σ) (as : List α), Decidable (Guarded f G s as)
  | _, [] => .isTrue trivial
  | s, a :: as =>
    match h : f s a with
    | (.error _, _) => decidable_of_iff (G s a) (by simp [Guarded, h])
    | (.ok (), s') =>
      have : Decidable (Guarded f G s' as) := Guarded.decidable s' as
      decidable_of_iff (G s a ∧ Guarded f G s' as) (by simp [Guarded, h])

/-- A simulation that one guarded item preserves, a guarded loop preserves: the
abstract side is the fold of the abstract step. -/
theorem forEach_simulates {τ : Type*} {R : σ → τ → Prop} {G : σ → α → Prop} {g : τ → α → τ}
    (hstep : ∀ s t a s', R s t → G s a → f s a = (.ok (), s') → R s' (g t a))
    {s s' : σ} {t : τ} {as : List α} (hR : R s t) (hG : Guarded f G s as)
    (h : forEach f s as = (.ok (), s')) : R s' (as.foldl g t) := by
  induction as generalizing s t with
  | nil =>
      obtain rfl : s = s' := by simpa using h
      exact hR
  | cons a as ih =>
      obtain ⟨m, ha, has⟩ := forEach_cons_ok.1 h
      exact ih (hstep s t a m hR hG.1 ha) (hG.2 m ha) has

/-- Two loops over related states with related items end in the same verdict and
in related states. -/
theorem forEach_congr {τ : Type*} {R : σ → τ → Prop} {g : τ → α → Except ε Unit × τ}
    {as : List α}
    (hstep : ∀ s t a, a ∈ as → R s t → (f s a).1 = (g t a).1 ∧ R (f s a).2 (g t a).2)
    {s : σ} {t : τ} (hR : R s t) :
    (forEach f s as).1 = (forEach g t as).1 ∧ R (forEach f s as).2 (forEach g t as).2 := by
  induction as generalizing s t with
  | nil => exact ⟨rfl, hR⟩
  | cons a as ih =>
      obtain ⟨hres, hst⟩ := hstep s t a List.mem_cons_self hR
      rcases hfa : f s a with ⟨_ | _, s'⟩ <;> rcases hga : g t a with ⟨_ | _, t'⟩ <;>
        simp only [hfa, hga, reduceCtorEq] at hres hst
      · rw [forEach_cons_of_error hfa, forEach_cons_of_error hga]
        exact ⟨hres, hst⟩
      · rw [forEach_cons_of_ok hfa, forEach_cons_of_ok hga]
        exact ih (fun s t b hb => hstep s t b (List.mem_cons_of_mem _ hb)) hst

/-! ## Building a list, or failing

`as.iter().map(f).collect::<Result<Vec<_>, _>>()` and the `for` loop that pushes
`f(a)?` are `List.mapM`. -/

theorem mapM_ok {α β ε : Type*} {f : α → Except ε β} {as : List α} {bs : List β} :
    as.mapM f = .ok bs ↔ List.Forall₂ (fun a b => f a = .ok b) as bs := by
  induction as generalizing bs with
  | nil => cases bs <;> simp [pure, Except.pure]
  | cons a as ih =>
      rw [List.mapM_cons]
      rcases hfa : f a with e | b
      · simp [bind, Except.bind, List.forall₂_cons_left_iff, hfa]
      · rcases has : as.mapM f with e | cs
        · simp only [bind, Except.bind, reduceCtorEq, List.forall₂_cons_left_iff, false_iff]
          rintro ⟨b', cs, -, hcs, -⟩
          exact absurd (has.symm.trans (ih.2 hcs)) (by simp)
        · simp only [bind, Except.bind, pure, Except.pure, Except.ok.injEq,
            List.forall₂_cons_left_iff, hfa]
          rw [has] at ih
          constructor
          · rintro rfl
            exact ⟨b, cs, rfl, ih.1 rfl, rfl⟩
          · rintro ⟨b', cs', rfl, hcs, rfl⟩
            obtain rfl : cs = cs' := by simpa using ih.2 hcs
            rfl

theorem mapM_ok_length {α β ε : Type*} {f : α → Except ε β} {as : List α} {bs : List β}
    (h : as.mapM f = .ok bs) : bs.length = as.length :=
  (mapM_ok.1 h).length_eq.symm

theorem mapM_ok_getElem {α β ε : Type*} {f : α → Except ε β} {as : List α} {bs : List β}
    (h : as.mapM f = .ok bs) {i : Nat} (ha : i < as.length) (hb : i < bs.length) :
    f as[i] = .ok bs[i] :=
  (mapM_ok.1 h).get ha hb

/-- A list can be built when each element of it can. -/
theorem exists_mapM {α β ε : Type*} {f : α → Except ε β} {as : List α} :
    (∃ bs, as.mapM f = .ok bs) ↔ ∀ a ∈ as, ∃ b, f a = .ok b := by
  simp only [mapM_ok]
  induction as with
  | nil => simp
  | cons a as ih =>
      rw [List.forall_mem_cons, ← ih]
      constructor
      · rintro ⟨bs, hbs⟩
        obtain ⟨b, rest, ha, has, -⟩ := List.forall₂_cons_left_iff.1 hbs
        exact ⟨⟨b, ha⟩, rest, has⟩
      · rintro ⟨⟨b, ha⟩, rest, has⟩
        exact ⟨b :: rest, .cons ha has⟩

/-- Where every element succeeds or fails by itself, and is built by `g` if it succeeds. -/
theorem mapM_ok_map_iff {α β ε : Type*} {f : α → Except ε β} {P : α → Prop} {g : α → β}
    (h : ∀ a b, f a = .ok b ↔ P a ∧ b = g a) {as : List α} {bs : List β} :
    as.mapM f = .ok bs ↔ (∀ a ∈ as, P a) ∧ bs = as.map g := by
  rw [mapM_ok]
  induction as generalizing bs with
  | nil => simp
  | cons a as ih =>
      -- first the rest of the list, while it still has the form of the hypothesis
      simp only [List.forall₂_cons_left_iff, ih]
      simp only [h, List.forall_mem_cons, List.map_cons]
      constructor
      · rintro ⟨b, rest, ⟨ha, rfl⟩, ⟨has, rfl⟩, rfl⟩
        exact ⟨⟨ha, has⟩, rfl⟩
      · rintro ⟨⟨ha, has⟩, rfl⟩
        exact ⟨_, _, ⟨ha, rfl⟩, ⟨has, rfl⟩, rfl⟩

/-- Every element built was built from one, and every one was built. -/
theorem mapM_ok_mem {α β ε : Type*} {f : α → Except ε β} {as : List α} {bs : List β}
    (h : as.mapM f = .ok bs) :
    (∀ b ∈ bs, ∃ a ∈ as, f a = .ok b) ∧ ∀ a ∈ as, ∃ b ∈ bs, f a = .ok b := by
  have hlen := mapM_ok_length h
  constructor
  · intro b hb
    obtain ⟨i, hi, rfl⟩ := List.getElem_of_mem hb
    have hi' : i < as.length := by omega
    exact ⟨as[i], List.getElem_mem hi', mapM_ok_getElem h hi' hi⟩
  · intro a ha
    obtain ⟨i, hi, rfl⟩ := List.getElem_of_mem ha
    have hi' : i < bs.length := by omega
    exact ⟨bs[i], List.getElem_mem hi', mapM_ok_getElem h hi hi'⟩

/-- What every element built has, all of them have. -/
theorem mapM_ok_forall_mem {α β ε : Type*} {f : α → Except ε β} {as : List α} {bs : List β}
    {P : β → Prop} (h : as.mapM f = .ok bs) (hP : ∀ a b, a ∈ as → f a = .ok b → P b) :
    ∀ b ∈ bs, P b := by
  intro b hb
  obtain ⟨i, hi, rfl⟩ := List.getElem_of_mem hb
  have hi' : i < as.length := by rw [← mapM_ok_length h]; exact hi
  exact hP _ _ (List.getElem_mem hi') (mapM_ok_getElem h hi' hi)

theorem mapM_ok_forall {α β ε : Type*} {f : α → Except ε β} {as : List α} {bs : List β}
    {P : β → Prop} (h : as.mapM f = .ok bs) (hP : ∀ a b, f a = .ok b → P b) :
    ∀ b ∈ bs, P b :=
  mapM_ok_forall_mem h fun a b _ => hP a b

/-- A list that could not be built has an element that could not. -/
theorem mapM_error {α β ε : Type*} {f : α → Except ε β} {as : List α} {e : ε}
    (h : as.mapM f = .error e) : ∃ a ∈ as, f a = .error e := by
  induction as with
  | nil => simp [pure, Except.pure] at h
  | cons a as ih =>
      rw [List.mapM_cons] at h
      rcases hfa : f a with e' | b
      · obtain rfl : e' = e := by simpa [hfa, bind, Except.bind] using h
        exact ⟨a, List.mem_cons_self, hfa⟩
      · rcases has : as.mapM f with e' | bs
        · obtain rfl : e' = e := by simpa [hfa, has, bind, Except.bind] using h
          obtain ⟨a', hmem, ha'⟩ := ih has
          exact ⟨a', List.mem_cons_of_mem _ hmem, ha'⟩
        · simp [hfa, has, bind, Except.bind, pure, Except.pure] at h

/-- Where each element has a fault or none, the first fault is the error. -/
theorem mapM_error_iff {α β ε : Type*} {f : α → Except ε β} {fault : α → Option ε}
    (h : ∀ a e, f a = .error e ↔ fault a = some e) {as : List α} {e : ε} :
    as.mapM f = .error e ↔ as.findSome? fault = some e := by
  induction as with
  | nil => simp [pure, Except.pure]
  | cons a as ih =>
      rw [List.mapM_cons, List.findSome?_cons]
      rcases hfa : f a with e' | b
      · simp [(h a e').1 hfa, bind, Except.bind]
      · have hnone : fault a = none := by
          by_contra hsome
          obtain ⟨e', he'⟩ := Option.ne_none_iff_exists'.1 hsome
          rw [(h a e').2 he'] at hfa
          cases hfa
        rw [hnone, ← ih]
        rcases has : as.mapM f with e' | bs <;> simp [bind, Except.bind, pure, Except.pure]

/-- Results with their errors renamed can be collected when none of them is an error. -/
theorem mapM_mapError_ok {α ε ε' : Type*} {rename : ε → ε'} {results : List (Except ε α)}
    {values : List α} :
    (results.mapM fun result => result.mapError rename) = .ok values
      ↔ results = values.map .ok := by
  have hone : ∀ (result : Except ε α) (value : α),
      result.mapError rename = .ok value ↔ result = .ok value := by
    rintro (e | v) value <;> simp [Except.mapError]
  rw [mapM_ok]
  simp only [hone]
  rw [← List.forall₂_map_right_iff (R := Eq), List.forall₂_eq_eq_eq]

/-- What every element built reads as, the list reads as. -/
theorem mapM_ok_map {α β γ ε : Type*} {f : α → Except ε β} {as : List α} {bs : List β}
    {g : β → γ} {k : α → γ} (h : as.mapM f = .ok bs)
    (hg : ∀ a b, f a = .ok b → g b = k a) : bs.map g = as.map k := by
  have hall := mapM_ok.1 h
  clear h
  induction hall with
  | nil => rfl
  | cons hab _ ih => rw [List.map_cons, List.map_cons, hg _ _ hab, ih]

end Scharnhorst.Attempt
