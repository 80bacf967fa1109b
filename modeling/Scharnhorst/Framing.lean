/-
Reading a byte string from front to back.

A reader takes a value off the front of a byte string and hands on the rest, or fails.
Besides, it records what it has asked memory for: the sizes of the buffers it makes, in
the order it makes them. The record is kept whatever the outcome, since a size is asked
for before the bytes that are to go there are read.

Two relations between a reader and the bytes in front of it carry the proofs. `Reads` says
that the reader takes exactly these bytes, whatever follows them, and refuses them when
they are cut short anywhere; it is closed under sequencing and under loops, which is what
makes a format out of its fields. `Asks` says that a size has been asked for by the time
these bytes are read. Nothing here names the repository.
-/
import Mathlib.Data.List.Basic
import Mathlib.Tactic.Common

set_option autoImplicit false

namespace Scharnhorst.Framing

variable {ε α β γ σ : Type}

/-! ## Readers -/

/-- What a reader has asked memory for, and what it made of the bytes: a value and the
bytes after it, or an error. -/
structure Reading (ε α : Type) where
  asked : List Nat
  result : Except ε (α × List UInt8)

/-- How a reading ends where memory is granted as `granted` says. The first request that is
refused ends the process, and then there is no outcome. -/
def Reading.outcome (granted : Nat → Bool) (reading : Reading ε α) : Option (Except ε α) :=
  if reading.asked.all granted then some (reading.result.map Prod.fst) else none

def Reader (ε α : Type) := List UInt8 → Reading ε α

namespace Reader

instance : Monad (Reader ε) where
  pure a := fun bytes => { asked := [], result := .ok (a, bytes) }
  bind r next := fun bytes =>
    match (r bytes).result with
    | .error e => { asked := (r bytes).asked, result := .error e }
    | .ok (a, rest) =>
      { asked := (r bytes).asked ++ (next a rest).asked, result := (next a rest).result }

/-- `n` bytes, into a buffer that is there already. -/
def exact (short : ε) (n : Nat) : Reader ε (List UInt8) := fun bytes =>
  { asked := []
    result := if n ≤ bytes.length then .ok (bytes.take n, bytes.drop n) else .error short }

/-- Asks memory for a size. -/
def ask (n : Nat) : Reader ε Unit := fun bytes => { asked := [n], result := .ok ((), bytes) }

/-- A step that reads nothing. -/
def lift (x : Except ε α) : Reader ε α := fun bytes =>
  { asked := [], result := x.map fun a => (a, bytes) }

/-- `for _ in 0..count`. -/
def times (body : σ → Reader ε σ) : Nat → σ → Reader ε σ
  | 0, s => pure s
  | count + 1, s => do times body count (← body s)

end Reader

open Reader

variable {r : Reader ε α} {next : α → Reader ε β} {bytes rest : List UInt8}

/-! ## Results -/

theorem pure_ok {a b : α} :
    ((pure a : Reader ε α) bytes).result = .ok (b, rest) ↔ b = a ∧ rest = bytes := by
  simp only [pure, Except.ok.injEq, Prod.mk.injEq, eq_comm]

theorem bind_result :
    ((r >>= next) bytes).result = (r bytes).result.bind fun ended => (next ended.1 ended.2).result := by
  simp only [bind]
  rcases (r bytes).result with e | ⟨a, rest⟩ <;> rfl

theorem bind_ok {b : β} :
    ((r >>= next) bytes).result = .ok (b, rest)
      ↔ ∃ a mid, (r bytes).result = .ok (a, mid) ∧ (next a mid).result = .ok (b, rest) := by
  rw [bind_result]
  rcases (r bytes).result with e | ⟨a, mid⟩
  · simp [Except.bind]
  · constructor
    · intro h
      exact ⟨a, mid, rfl, h⟩
    · rintro ⟨a', mid', hr, h⟩
      cases hr
      exact h

/-- What was read are the bytes in front. -/
theorem exact_ok {short : ε} {n : Nat} {part : List UInt8} :
    (exact short n bytes).result = .ok (part, rest) ↔ bytes = part ++ rest ∧ part.length = n := by
  simp only [exact]
  split
  · rename_i hn
    simp only [Except.ok.injEq, Prod.mk.injEq]
    constructor
    · rintro ⟨rfl, rfl⟩
      exact ⟨(List.take_append_drop n bytes).symm, List.length_take_of_le hn⟩
    · rintro ⟨rfl, rfl⟩
      exact ⟨List.take_left, List.drop_left⟩
  · rename_i hn
    simp only [reduceCtorEq, false_iff, not_and]
    rintro rfl rfl
    simp at hn

theorem lift_ok {x : Except ε α} {a : α} :
    (lift x bytes).result = .ok (a, rest) ↔ x = .ok a ∧ rest = bytes := by
  rcases x with e | b
  · simp [lift, Except.map]
  · simp only [lift, Except.map, Except.ok.injEq, Prod.mk.injEq, eq_comm]

theorem id_map_reader (r : Reader ε α) : id <$> r = r := by
  funext bytes
  show (r >>= fun a => pure (id a)) bytes = r bytes
  simp only [bind]
  rcases r bytes with ⟨asked, e | ⟨a, rest⟩⟩
  · rfl
  · simp [pure]

/-- Sequencing is associative, what is asked for included. -/
theorem bind_assoc_reader (r : Reader ε α) (f : α → Reader ε β) (g : β → Reader ε γ) :
    r >>= f >>= g = r >>= fun a => f a >>= g := by
  funext bytes
  simp only [bind]
  rcases (r bytes).result with e | ⟨a, rest⟩
  · rfl
  · rcases hf : (f a rest).result with e | ⟨b, rest'⟩
    · simp only [hf]
    · simp only [hf, List.append_assoc]

instance : LawfulMonad (Reader ε) :=
  .mk' (Reader ε) id_map_reader (fun _ _ => rfl) bind_assoc_reader

/-! ## What a reader takes -/

/-- The reader takes these bytes for this value, whatever follows them, and nothing less. -/
structure Reads (r : Reader ε α) (part : List UInt8) (a : α) : Prop where
  whole : ∀ rest, (r (part ++ rest)).result = .ok (a, rest)
  cut : ∀ short, short <+: part → short ≠ part → ∃ e, (r short).result = .error e

/-- Where a byte string is cut that has two parts. -/
theorem cut_cases {short part part' : List UInt8} (h : short <+: part ++ part') :
    (short <+: part ∧ short ≠ part) ∨ ∃ short', short = part ++ short' ∧ short' <+: part' := by
  rcases List.prefix_or_prefix_of_prefix h (List.prefix_append part part') with hin | ⟨short', rfl⟩
  · by_cases heq : short = part
    · exact .inr ⟨[], by rw [heq, List.append_nil], List.nil_prefix⟩
    · exact .inl ⟨hin, heq⟩
  · exact .inr ⟨short', rfl, (List.prefix_append_right_inj part).1 h⟩

namespace Reads

theorem pure (a : α) : Reads (Pure.pure a : Reader ε α) [] a where
  whole _ := rfl
  cut _ hshort hne := absurd (List.prefix_nil.1 hshort) hne

theorem exact (short : ε) (part : List UInt8) : Reads (exact short part.length) part part where
  whole _ := exact_ok.2 ⟨rfl, rfl⟩
  cut front hfront hne := by
    have hlt : front.length < part.length := by
      refine Nat.lt_of_le_of_ne hfront.length_le fun hlen => hne ?_
      exact hfront.eq_of_length hlen
    refine ⟨short, ?_⟩
    rw [Reader.exact, if_neg (Nat.not_le.2 hlt)]

theorem lift {x : Except ε α} {a : α} (h : x = .ok a) : Reads (lift x) [] a where
  whole _ := lift_ok.2 ⟨h, rfl⟩
  cut _ hshort hne := absurd (List.prefix_nil.1 hshort) hne

theorem ask (n : Nat) : Reads (ask n : Reader ε Unit) [] () where
  whole _ := rfl
  cut _ hshort hne := absurd (List.prefix_nil.1 hshort) hne

/-- One part after the other. -/
theorem bind {part part' : List UInt8} {a : α} {b : β} (hr : Reads r part a)
    (hnext : Reads (next a) part' b) : Reads (r >>= next) (part ++ part') b where
  whole rest := by
    rw [List.append_assoc]
    exact bind_ok.2 ⟨a, part' ++ rest, hr.whole _, hnext.whole rest⟩
  cut short hshort hne := by
    rcases cut_cases hshort with ⟨hin, hpart⟩ | ⟨short', rfl, hin⟩
    · obtain ⟨e, he⟩ := hr.cut short hin hpart
      exact ⟨e, by rw [bind_result, he]; rfl⟩
    · have hpart' : short' ≠ part' := by
        rintro rfl
        exact hne rfl
      obtain ⟨e, he⟩ := hnext.cut short' hin hpart'
      exact ⟨e, by rw [bind_result, hr.whole]; exact he⟩

/-- A part that is followed by a step that reads nothing. -/
theorem bind_left {part : List UInt8} {a : α} {b : β} (hr : Reads r part a)
    (hnext : Reads (next a) [] b) : Reads (r >>= next) part b := by
  have h := hr.bind hnext
  rwa [List.append_nil] at h

/-- A part that follows a step that reads nothing. -/
theorem bind_right {part : List UInt8} {a : α} {b : β} (hr : Reads r [] a)
    (hnext : Reads (next a) part b) : Reads (r >>= next) part b := hr.bind hnext

/-- A loop takes the parts that its rounds take. -/
theorem times {body : σ → Reader ε σ} {encode : γ → List UInt8} {step : σ → γ → σ} {items : List γ}
    (hbody : ∀ s, ∀ item ∈ items, Reads (body s) (encode item) (step s item)) (s : σ) :
    Reads (times body items.length s) (items.flatMap encode) (items.foldl step s) := by
  induction items generalizing s with
  | nil => exact .pure s
  | cons item items ih =>
      rw [List.flatMap_cons, List.foldl_cons]
      refine Reads.bind (hbody s item List.mem_cons_self) (ih (fun s other hother => ?_) _)
      exact hbody s other (List.mem_cons_of_mem _ hother)

end Reads

/-- What a loop has read through are the parts of its rounds. -/
theorem times_ok {body : σ → Reader ε σ} {encode : γ → List UInt8} {step : σ → γ → σ}
    {good : γ → Prop}
    (hbody : ∀ s s' bytes rest, (body s bytes).result = .ok (s', rest) →
      ∃ item, good item ∧ bytes = encode item ++ rest ∧ s' = step s item)
    {count : Nat} {s s' : σ} (h : (times body count s bytes).result = .ok (s', rest)) :
    ∃ items : List γ, items.length = count ∧ (∀ item ∈ items, good item)
      ∧ bytes = items.flatMap encode ++ rest := by
  induction count generalizing s bytes with
  | zero =>
      obtain ⟨rfl, rfl⟩ := pure_ok.1 h
      exact ⟨[], rfl, by simp, rfl⟩
  | succ count ih =>
      obtain ⟨t, mid, hfirst, hrest⟩ := bind_ok.1 h
      obtain ⟨item, hgood, rfl, rfl⟩ := hbody _ _ _ _ hfirst
      obtain ⟨items, rfl, hall, rfl⟩ := ih hrest
      exact ⟨item :: items, rfl, List.forall_mem_cons.2 ⟨hgood, hall⟩, by simp⟩

/-! ## What a reader asks for -/

theorem mem_asked_bind {n : Nat} :
    n ∈ ((r >>= next) bytes).asked
      ↔ n ∈ (r bytes).asked
        ∨ ∃ a mid, (r bytes).result = .ok (a, mid) ∧ n ∈ (next a mid).asked := by
  simp only [bind]
  rcases (r bytes).result with e | ⟨a, mid⟩
  · simp
  · simp only [List.mem_append, Except.ok.injEq, Prod.mk.injEq]
    refine or_congr_right ⟨fun h => ⟨a, mid, ⟨rfl, rfl⟩, h⟩, ?_⟩
    rintro ⟨a', mid', ⟨rfl, rfl⟩, h⟩
    exact h

@[simp] theorem asked_pure (a : α) : ((pure a : Reader ε α) bytes).asked = [] := rfl

@[simp] theorem asked_exact (short : ε) (n : Nat) : (exact short n bytes).asked = [] := rfl

@[simp] theorem asked_lift (x : Except ε α) : (lift x bytes).asked = [] := rfl

@[simp] theorem asked_ask (n : Nat) : (ask n bytes : Reading ε Unit).asked = [n] := rfl

/-- A loop asks for what one of its rounds asks for, after some that it has read through. -/
theorem exists_of_mem_asked_times {body : σ → Reader ε σ} {count n : Nat} {s : σ}
    (h : n ∈ (times body count s bytes).asked) :
    ∃ before < count, ∃ s' mid, (times body before s bytes).result = .ok (s', mid)
      ∧ n ∈ (body s' mid).asked := by
  induction count generalizing s bytes with
  | zero => simp [times] at h
  | succ count ih =>
      rcases mem_asked_bind.1 h with hfirst | ⟨t, mid, hround, hrest⟩
      · exact ⟨0, Nat.succ_pos _, s, bytes, rfl, hfirst⟩
      · obtain ⟨before, hlt, s', mid', hthrough, hasked⟩ := ih hrest
        exact ⟨before + 1, Nat.succ_lt_succ hlt, s', mid', bind_ok.2 ⟨t, mid, hround, hthrough⟩,
          hasked⟩

/-- By the time these bytes are read, the reader has asked for the size. -/
def Asks (r : Reader ε α) (part : List UInt8) (n : Nat) : Prop :=
  ∀ rest, n ∈ (r (part ++ rest)).asked

namespace Asks

theorem ask (n : Nat) : Asks (ask n : Reader ε Unit) [] n := fun _ => List.mem_singleton.2 rfl

theorem bind_left {part : List UInt8} {n : Nat} (h : Asks r part n) : Asks (r >>= next) part n :=
  fun rest => mem_asked_bind.2 (.inl (h rest))

theorem bind {part part' : List UInt8} {a : α} {n : Nat} (hr : Reads r part a)
    (h : Asks (next a) part' n) : Asks (r >>= next) (part ++ part') n := by
  intro rest
  rw [List.append_assoc]
  exact mem_asked_bind.2 (.inr ⟨a, part' ++ rest, hr.whole _, h rest⟩)

/-- After a step that reads nothing. -/
theorem bind_right {part : List UInt8} {a : α} {n : Nat} (hr : Reads r [] a)
    (h : Asks (next a) part n) : Asks (r >>= next) part n := Asks.bind hr h

/-- After the last of the bytes. -/
theorem bind_last {part : List UInt8} {a : α} {n : Nat} (hr : Reads r part a)
    (h : Asks (next a) [] n) : Asks (r >>= next) part n := by
  have hasks := Asks.bind hr h
  rwa [List.append_nil] at hasks

/-- A round asks for it, after those before it have been read through. -/
theorem times {body : σ → Reader ε σ} {encode : γ → List UInt8} {step : σ → γ → σ} {items : List γ}
    (hbody : ∀ s, ∀ item ∈ items, Reads (body s) (encode item) (step s item)) {part : List UInt8}
    {n : Nat} (hround : ∀ s, Asks (body s) part n) {count : Nat} (hcount : items.length < count)
    (s : σ) : Asks (times body count s) (items.flatMap encode ++ part) n := by
  induction items generalizing s count with
  | nil =>
      obtain ⟨count, rfl⟩ := Nat.exists_eq_add_of_lt hcount
      exact (hround s).bind_left
  | cons item items ih =>
      obtain ⟨count, rfl⟩ := Nat.exists_eq_add_of_lt hcount
      rw [List.flatMap_cons, List.append_assoc]
      refine Asks.bind (hbody s item List.mem_cons_self) (ih (fun s other hother => ?_) ?_ _)
      · exact hbody s other (List.mem_cons_of_mem _ hother)
      · show items.length < items.length + 1 + count
        omega

end Asks

/-! ## Bytes behind their number

A part with its length in front, in a field of a fixed width. -/

section Framed

variable {field : Nat → List UInt8} {value : List UInt8 → Nat} {width bound : Nat}
  {short_len short : ε}

/-- The number, and then as many bytes. -/
def framed (field : Nat → List UInt8) (part : List UInt8) : List UInt8 := field part.length ++ part

/-- Reads the number, makes a buffer of that size, and fills it. -/
def sized (value : List UInt8 → Nat) (width : Nat) (short_len short : ε) : Reader ε (List UInt8) :=
  do
    let size := value (← exact short_len width)
    ask size
    exact short size

theorem Reads.size (hwidth : ∀ n, (field n).length = width) (n : Nat) :
    Reads (Reader.exact short_len width) (field n) (field n) := by
  have h := Reads.exact short_len (field n)
  rwa [hwidth] at h

theorem Reads.framed (hwidth : ∀ n, (field n).length = width)
    (hvalue : ∀ n < bound, value (field n) = n) {part : List UInt8} (hpart : part.length < bound) :
    Reads (sized value width short_len short) (framed field part) part := by
  refine (Reads.size hwidth part.length).bind ?_
  simp only [hvalue _ hpart]
  exact (Reads.ask _).bind_right (Reads.exact short part)

theorem Asks.sized {front : List UInt8} (hfront : front.length = width) :
    Asks (sized value width short_len short) front (value front) := by
  subst hfront
  exact Asks.bind_last (Reads.exact short_len front) (Asks.ask (value front)).bind_left

/-- The only size asked for is the number in front. -/
theorem exists_of_mem_asked_sized {n : Nat} (h : n ∈ (sized value width short_len short bytes).asked) :
    ∃ front rest, bytes = front ++ rest ∧ front.length = width ∧ n = value front := by
  simp only [sized, mem_asked_bind, exact_ok, asked_exact, asked_ask, List.not_mem_nil, false_or,
    List.mem_singleton, and_false, exists_false, or_false] at h
  obtain ⟨front, rest, ⟨hbytes, hwidth⟩, rfl⟩ := h
  exact ⟨front, rest, hbytes, hwidth, rfl⟩

theorem sized_ok {part : List UInt8}
    (h : (sized value width short_len short bytes).result = .ok (part, rest)) :
    ∃ front, bytes = front ++ part ++ rest ∧ front.length = width ∧ value front = part.length := by
  obtain ⟨front, mid, hfront, hbuffer⟩ := bind_ok.1 h
  obtain ⟨_, mid', hask, hpart⟩ := bind_ok.1 hbuffer
  cases hask
  obtain ⟨rfl, hwidth⟩ := exact_ok.1 hfront
  obtain ⟨rfl, hsize⟩ := exact_ok.1 hpart
  exact ⟨front, (List.append_assoc ..).symm, hwidth, hsize.symm⟩

end Framed

end Scharnhorst.Framing
