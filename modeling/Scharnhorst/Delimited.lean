/-
Texts put together from parts, and when the parts can be read back.

A part ends where a symbol comes that it cannot hold. Whether that is the next separator or
the first symbol of another part, all that is asked of what follows is that it stops the part:
it is empty, or its first symbol is not one of the part's. Parts of this kind follow each
other in a list, as long as each begins with a symbol that stops the one before.
-/
import Mathlib.Data.List.Basic

set_option autoImplicit false

universe u v

namespace Delimited

variable {α : Type u} {β : Type v} {p q : α → Prop}

/-! ## What stops a part -/

/-- A text that is empty or begins with a symbol outside `p`. -/
def Stops (p : α → Prop) (rest : List α) : Prop := ∀ a ∈ rest.head?, ¬p a

@[simp] theorem stops_nil : Stops p [] := by simp [Stops]

@[simp] theorem stops_cons {a : α} {rest : List α} : Stops p (a :: rest) ↔ ¬p a := by
  simp [Stops]

theorem Stops.mono {rest : List α} (h : Stops p rest) (hpq : ∀ a, q a → p a) : Stops q rest :=
  fun a ha hq => h a ha (hpq a hq)

/-- What stands behind one part or another stops both, so the parts are the same. -/
theorem append_inj_of_stops {xs ys rest rest' : List α} (hx : ∀ a ∈ xs, p a) (hy : ∀ a ∈ ys, p a)
    (hrest : Stops p rest) (hrest' : Stops p rest') (h : xs ++ rest = ys ++ rest') :
    xs = ys ∧ rest = rest' := by
  induction xs generalizing ys with
  | nil =>
    rcases ys with _ | ⟨y, ys⟩
    · exact ⟨rfl, h⟩
    · rw [List.nil_append, List.cons_append] at h
      rw [h, stops_cons] at hrest
      exact absurd (hy y List.mem_cons_self) hrest
  | cons x xs ih =>
    rcases ys with _ | ⟨y, ys⟩
    · rw [List.nil_append, List.cons_append] at h
      rw [← h, stops_cons] at hrest'
      exact absurd (hx x List.mem_cons_self) hrest'
    · obtain ⟨rfl, htail⟩ := List.cons.inj h
      obtain ⟨rfl, hr⟩ := ih (fun a ha => hx a (List.mem_cons_of_mem _ ha))
        (fun a ha => hy a (List.mem_cons_of_mem _ ha)) htail
      exact ⟨rfl, hr⟩

/-- A separator that neither part holds. -/
theorem append_cons_inj {c : α} {xs ys rest rest' : List α} (hx : c ∉ xs) (hy : c ∉ ys)
    (h : xs ++ c :: rest = ys ++ c :: rest') : xs = ys ∧ rest = rest' := by
  obtain ⟨rfl, htail⟩ := append_inj_of_stops (p := (· ≠ c)) (fun a ha heq => hx (heq ▸ ha))
    (fun a ha heq => hy (heq ▸ ha)) (by simp) (by simp) h
  exact ⟨rfl, (List.cons.inj htail).2⟩

/-! ## Encodings -/

/-- The text of a good value can be read back, together with what follows, if that stops `p`. -/
def ReadsBack (enc : β → List α) (good : β → Prop) (p : α → Prop) : Prop :=
  ∀ a b rest rest', good a → good b → Stops p rest → Stops p rest' →
    enc a ++ rest = enc b ++ rest' → a = b ∧ rest = rest'

theorem ReadsBack.mono {enc : β → List α} {good : β → Prop} (h : ReadsBack enc good p)
    (hpq : ∀ a, p a → q a) : ReadsBack enc good q :=
  fun a b rest rest' ha hb hrest hrest' heq =>
    h a b rest rest' ha hb (hrest.mono hpq) (hrest'.mono hpq) heq

/-- A list of parts that all begin with a symbol which stops them, and none of which can begin
what follows. -/
theorem ReadsBack.flatMap {enc : β → List α} {good : β → Prop} {c : α} (h : ReadsBack enc good p)
    (hc : ¬p c) (hhead : ∀ b, (enc b).head? = some c) :
    ReadsBack (fun bs : List β => bs.flatMap enc) (fun bs => ∀ b ∈ bs, good b)
      (fun a => p a ∨ a = c) := by
  have hstart : ∀ b rest, ∃ tail, enc b ++ rest = c :: tail := by
    intro b rest
    obtain ⟨tail, htail⟩ := List.head?_eq_some_iff.mp (hhead b)
    exact ⟨tail ++ rest, by rw [htail, List.cons_append]⟩
  have hstops : ∀ (bs : List β) rest, Stops (fun a => p a ∨ a = c) rest →
      Stops p (bs.flatMap enc ++ rest) := by
    intro bs rest hrest
    rcases bs with _ | ⟨b, bs⟩
    · exact hrest.mono fun _ => Or.inl
    · obtain ⟨tail, htail⟩ := hstart b (bs.flatMap enc ++ rest)
      rw [List.flatMap_cons, List.append_assoc, htail, stops_cons]
      exact hc
  intro xs
  induction xs with
  -- what follows an empty list begins with no part
  | nil =>
    intro ys rest rest' _ _ hrest _ heq
    dsimp only at heq
    rcases ys with _ | ⟨y, ys⟩
    · exact ⟨rfl, heq⟩
    · obtain ⟨tail, htail⟩ := hstart y (ys.flatMap enc ++ rest')
      rw [List.flatMap_nil, List.nil_append, List.flatMap_cons, List.append_assoc, htail] at heq
      rw [heq, stops_cons] at hrest
      exact absurd (.inr rfl) hrest
  | cons x xs ih =>
    intro ys rest rest' hx hy hrest hrest' heq
    dsimp only at heq
    rcases ys with _ | ⟨y, ys⟩
    · obtain ⟨tail, htail⟩ := hstart x (xs.flatMap enc ++ rest)
      rw [List.flatMap_nil, List.nil_append, List.flatMap_cons, List.append_assoc, htail] at heq
      rw [← heq, stops_cons] at hrest'
      exact absurd (.inr rfl) hrest'
    · simp only [List.flatMap_cons, List.append_assoc] at heq
      obtain ⟨rfl, htail⟩ := h x y _ _ (hx x List.mem_cons_self) (hy y List.mem_cons_self)
        (hstops xs rest hrest) (hstops ys rest' hrest') heq
      obtain ⟨rfl, hr⟩ := ih ys rest rest' (fun b hb => hx b (List.mem_cons_of_mem _ hb))
        (fun b hb => hy b (List.mem_cons_of_mem _ hb)) hrest hrest' htail
      exact ⟨rfl, hr⟩

/-! ## Joined parts -/

theorem not_mem_intercalate {c d : α} {xs : List (List α)} (hcd : d ≠ c) (h : ∀ x ∈ xs, d ∉ x) :
    d ∉ [c].intercalate xs := by
  induction xs with
  | nil => exact List.not_mem_nil
  | cons x xs ih =>
    rw [List.forall_mem_cons] at h
    by_cases hnil : xs = []
    · subst hnil
      rw [List.intercalate_singleton]
      exact h.1
    · rw [List.intercalate_cons_of_ne_nil hnil, List.mem_append, List.mem_append,
        List.mem_singleton]
      rintro ((hmem | heq) | hmem)
      · exact h.1 hmem
      · exact hcd heq
      · exact ih h.2 hmem

/-- Parts that are not empty and do not hold the separator. -/
theorem intercalate_inj [DecidableEq α] {c : α} {xs ys : List (List α)}
    (hx : ∀ x ∈ xs, x ≠ [] ∧ c ∉ x) (hy : ∀ y ∈ ys, y ≠ [] ∧ c ∉ y)
    (h : [c].intercalate xs = [c].intercalate ys) : xs = ys := by
  have hsplit : ∀ zs : List (List α), (∀ z ∈ zs, z ≠ [] ∧ c ∉ z) →
      zs = if [c].intercalate zs = [] then [] else ([c].intercalate zs).splitOn c := by
    intro zs hz
    by_cases hnil : zs = []
    · subst hnil
      rfl
    · have hback := List.splitOn_intercalate c (fun z hmem => (hz z hmem).2) hnil
      rw [hback, if_neg]
      -- a join that is empty has one empty part
      intro hempty
      rw [hempty, List.splitOn_nil] at hback
      exact (hz [] (hback ▸ List.mem_singleton_self [])).1 rfl
  rw [hsplit xs hx, hsplit ys hy, h]

end Delimited
