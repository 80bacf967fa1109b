/-
The guard of `QueryEngine::sql` against several statements in one text.

The guard goes over the text once, knows whether it is inside quotes, and counts the semicolons that
are not. It does not know comments: a quote in a comment opens a literal, and a semicolon in a
comment counts. So it is right about a text as long as the comments make no difference to the
semicolons that count: to whether one stands inside, and if none does, to whether one stands at the
end.
-/
import Scharnhorst.Separators
import Scharnhorst.Slices
import Mathlib.Computability.DFA

set_option autoImplicit false

namespace Scharnhorst

open Separators

/-! ## The guard -/

/-- `QueryError::SqlNotAllowed`. -/
structure SqlNotAllowed where
  message : String
deriving DecidableEq

/-- `str::trim_end`. -/
def trim_end (cs : List Char) : List Char := cs.rdropWhile char_is_whitespace

/-- The loop over `char_indices`, with the next index. After it: the count and the last index. -/
def semicolon_loop (quote : Option Char) (semicolon_count : Nat) (semicolon_index : Option Nat)
    (idx : Nat) : List Char → Nat × Option Nat
  | [] => (semicolon_count, semicolon_index)
  | ch :: chars =>
    match quote with
    | some active_quote =>
      if ch = active_quote then
        match chars with
        | next :: rest =>
          -- `chars.next()` of a doubled quote
          if active_quote = '\'' ∧ next = active_quote then
            semicolon_loop quote semicolon_count semicolon_index
              (idx + ch.utf8Size + next.utf8Size) rest
          else semicolon_loop none semicolon_count semicolon_index (idx + ch.utf8Size) (next :: rest)
        | [] => semicolon_loop none semicolon_count semicolon_index (idx + ch.utf8Size) []
      else semicolon_loop quote semicolon_count semicolon_index (idx + ch.utf8Size) chars
    | none =>
      if ch = '\'' ∨ ch = '"' then
        semicolon_loop (some ch) semicolon_count semicolon_index (idx + ch.utf8Size) chars
      else if ch = ';' then
        semicolon_loop none (semicolon_count + 1) (some idx) (idx + ch.utf8Size) chars
      else semicolon_loop none semicolon_count semicolon_index (idx + ch.utf8Size) chars

/-- There is no result if a slice fails. -/
def strip_single_trailing_statement_semicolon (sql : List Char) :
    Option (Except SqlNotAllowed (List Char)) :=
  match semicolon_loop none 0 none 0 sql with
  | (0, _) => some (.ok sql)
  | (1, some idx) => do
    let behind ← slice_from sql (idx + 1)
    if (trim behind).isEmpty then
      let front ← slice_to sql idx
      return .ok (trim_end front)
    else return .error ⟨"multi-statement SQL not allowed"⟩
  | _ => some (.error ⟨"multi-statement SQL not allowed"⟩)

/-! ## Quotes and comments -/

/-- Quotes as the guard reads them. A doubled quote closes the literal and opens it again. -/
def quotes : DFA Char (Option Char) where
  start := none
  step quote c :=
    match quote with
    | some active_quote => if c = active_quote then none else some active_quote
    | none => if c = '\'' ∨ c = '"' then some c else none
  accept := {none}

/-- Where a reader of SQL is. A comment in a block has a depth, the outermost is 0. -/
inductive SqlMode where
  | Text
  | Dash
  | Slash
  | Line
  | Block (depth : Nat)
  | Star (depth : Nat)
  | BlockSlash (depth : Nat)
  | Literal
  | Identifier
deriving DecidableEq

namespace SqlMode

/-- Behind a character outside quotes and comments. -/
def of_text (c : Char) : SqlMode :=
  if c = '-' then Dash
  else if c = '/' then Slash
  else if c = '\'' then Literal
  else if c = '"' then Identifier
  else Text

def step (nested : Bool) : SqlMode → Char → SqlMode
  | Text, c => of_text c
  | Dash, c => if c = '-' then Line else of_text c
  | Slash, c => if c = '*' then Block 0 else of_text c
  | Line, c => if c = '\n' then Text else Line
  | Block depth, c =>
    if c = '*' then Star depth else if c = '/' then BlockSlash depth else Block depth
  | Star depth, c =>
    if c = '/' then
      match depth with
      | 0 => Text
      | outer + 1 => Block outer
    else if c = '*' then Star depth
    else Block depth
  | BlockSlash depth, c =>
    if c = '*' then if nested then Block (depth + 1) else Star depth
    else if c = '/' then BlockSlash depth
    else Block depth
  | Literal, c => if c = '\'' then Text else Literal
  | Identifier, c => if c = '"' then Text else Identifier

end SqlMode

/-- SQL with comments to the end of the line and in blocks. Whether blocks nest is a matter of the
dialect. -/
def comments (nested : Bool) : DFA Char SqlMode where
  start := .Text
  step := SqlMode.step nested
  accept := {.Text, .Dash, .Slash}

/-- The text is one statement, and `p` is it. -/
def SingleStatement {σ : Type} (reader : DFA Char σ) (sql p : List Char) : Prop :=
  Single char_is_whitespace reader.accepts ';' sql p

/-- A separator with more than white space behind it. -/
def SeveralStatements {σ : Type} (reader : DFA Char σ) (sql : List Char) : Prop :=
  Continues char_is_whitespace reader.accepts ';' sql

theorem semicolon_not_space : char_is_whitespace ';' = false := rfl

/-! ## The loop -/

section Loop

variable {before : List Char} {c : Char}

theorem quotes_concat (before : List Char) (c : Char) :
    quotes.eval (before ++ [c]) = quotes.step (quotes.eval before) c :=
  quotes.eval_append_singleton before c

/-- The count and the index are those of the semicolons that count. -/
inductive Counted (before : List Char) : Nat → Option Nat → Prop where
  | zero (h : ∀ b a, ¬ Cut quotes.accepts ';' before b a) : Counted before 0 none
  | one {b a : List Char} (h : Cut quotes.accepts ';' before b a)
      (unique : ∀ b' a', Cut quotes.accepts ';' before b' a' → b' = b) :
      Counted before 1 (some (utf8_len b))
  | more {count : Nat} {index : Option Nat} {b a b' a' : List Char}
      (h : Cut quotes.accepts ';' before b a) (h' : Cut quotes.accepts ';' before b' a')
      (ne : b ≠ b') : Counted before (count + 2) index

theorem Counted.other {count : Nat} {index : Option Nat} (h : Counted before count index)
    (hc : ¬ (c = ';' ∧ quotes.eval before = none)) : Counted (before ++ [c]) count index := by
  have hcut : ∀ {b a}, Cut quotes.accepts ';' (before ++ [c]) b a →
      ∃ rest, Cut quotes.accepts ';' before b rest := by
    intro b a h
    rcases cut_concat.1 h with ⟨rest, h, -⟩ | ⟨hsep, hopen, -, -⟩
    · exact ⟨rest, h⟩
    · exact absurd ⟨hsep, hopen⟩ hc
  cases h with
  | zero h =>
    apply Counted.zero
    intro b a hba
    obtain ⟨rest, hrest⟩ := hcut hba
    exact h b rest hrest
  | one h unique =>
    apply Counted.one (h.append [c])
    intro b' a' hba
    obtain ⟨rest, hrest⟩ := hcut hba
    exact unique b' rest hrest
  | more h h' ne => exact Counted.more (h.append [c]) (h'.append [c]) ne

theorem Counted.semicolon {count : Nat} {index : Option Nat} (h : Counted before count index)
    (hopen : quotes.eval before = none) :
    Counted (before ++ [';']) (count + 1) (some (utf8_len before)) := by
  have hlast : Cut quotes.accepts ';' (before ++ [';']) before [] := ⟨rfl, hopen⟩
  cases h with
  | zero h =>
    apply Counted.one hlast
    intro b' a' hba
    rcases cut_concat.1 hba with ⟨rest, hrest, -⟩ | ⟨-, -, heq, -⟩
    · exact absurd hrest (h b' rest)
    · exact heq
  | one h unique =>
    refine Counted.more (h.append [';']) hlast ?_
    intro heq
    have hlt := h.length_lt
    rw [heq] at hlt
    exact Nat.lt_irrefl _ hlt
  | more h h' ne => exact Counted.more (h.append [';']) (h'.append [';']) ne

/-- Where the loop is in the text: the quote, the index and the count are right for what it has
read. -/
structure LoopAt (before : List Char) (quote : Option Char) (count : Nat) (index : Option Nat)
    (idx : Nat) : Prop where
  mode : quotes.eval before = quote
  length : utf8_len before = idx
  counted : Counted before count index

variable {quote : Option Char} {active_quote : Char} {count : Nat} {index : Option Nat} {idx : Nat}

theorem LoopAt.length_concat (h : LoopAt before quote count index idx) (c : Char) :
    utf8_len (before ++ [c]) = idx + c.utf8Size := by
  rw [utf8_len_append, h.length, utf8_len_cons, utf8_len_nil, Nat.add_zero]

theorem LoopAt.mode_concat (h : LoopAt before quote count index idx) (c : Char) :
    quotes.eval (before ++ [c]) = quotes.step quote c := by
  rw [quotes_concat, h.mode]

theorem LoopAt.quoted (h : LoopAt before (some active_quote) count index idx) (c : Char) :
    LoopAt (before ++ [c]) (if c = active_quote then none else some active_quote) count index
      (idx + c.utf8Size) where
  mode := h.mode_concat c
  length := h.length_concat c
  counted := by
    apply h.counted.other
    rintro ⟨-, hopen⟩
    rw [h.mode] at hopen
    cases hopen

theorem LoopAt.opened (h : LoopAt before none count index idx) (hc : c ≠ ';') :
    LoopAt (before ++ [c]) (if c = '\'' ∨ c = '"' then some c else none) count index
      (idx + c.utf8Size) where
  mode := h.mode_concat c
  length := h.length_concat c
  counted := by
    apply h.counted.other
    rintro ⟨heq, -⟩
    exact hc heq

theorem LoopAt.semicolon (h : LoopAt before none count index idx) :
    LoopAt (before ++ [';']) none (count + 1) (some idx) (idx + ';'.utf8Size) where
  mode := h.mode_concat ';'
  length := h.length_concat ';'
  counted := by
    rw [← h.length]
    exact h.counted.semicolon h.mode

/-- From a place where all is right, the loop ends with the right count. -/
theorem semicolon_loop_counted {rest : List Char} (h : LoopAt before quote count index idx) :
    Counted (before ++ rest) (semicolon_loop quote count index idx rest).1
      (semicolon_loop quote count index idx rest).2 := by
  fun_induction semicolon_loop quote count index idx rest generalizing before with
  | case1 =>
    rw [List.append_nil]
    exact h.counted
  | case2 count index idx active_quote next rest hdoubled ih =>
    -- both quotes of a doubled one are read: the literal is closed and opened again
    obtain ⟨rfl, rfl⟩ := hdoubled
    have hclosed := h.quoted '\''
    rw [if_pos rfl] at hclosed
    have hagain := hclosed.opened (c := '\'') (by decide)
    rw [if_pos (Or.inl rfl)] at hagain
    rw [List.append_cons, List.append_cons]
    exact ih hagain
  | case3 count index idx active_quote next rest hdoubled ih =>
    have hclosed := h.quoted active_quote
    rw [if_pos rfl] at hclosed
    rw [List.append_cons]
    exact ih hclosed
  | case4 count index idx active_quote ih =>
    have hclosed := h.quoted active_quote
    rw [if_pos rfl] at hclosed
    rw [List.append_cons]
    exact ih hclosed
  | case5 count index idx ch chars active_quote hne ih =>
    have hinside := h.quoted ch
    rw [if_neg hne] at hinside
    rw [List.append_cons]
    exact ih hinside
  | case6 count index idx ch chars hquote ih =>
    have hne : ch ≠ ';' := by
      rintro rfl
      exact absurd hquote (by decide)
    have hopened := h.opened hne
    rw [if_pos hquote] at hopened
    rw [List.append_cons]
    exact ih hopened
  | case7 count index idx chars hquote ih =>
    rw [List.append_cons]
    exact ih h.semicolon
  | case8 count index idx ch chars hquote hne ih =>
    have hopened := h.opened hne
    rw [if_neg hquote] at hopened
    rw [List.append_cons]
    exact ih hopened

theorem loop_at_start : LoopAt [] none 0 none 0 where
  mode := rfl
  length := rfl
  counted := Counted.zero fun _ _ => not_cut_nil

end Loop

/-! ## What the guard says -/

theorem trim_isEmpty_iff (s : List Char) :
    (trim s).isEmpty = true ↔ ∀ c ∈ s, char_is_whitespace c = true := by
  unfold trim trim_start
  rw [List.isEmpty_iff, List.reverse_eq_nil_iff, List.dropWhile_eq_nil_iff]
  simp only [List.mem_reverse]
  rw [← List.dropWhile_eq_nil_iff]
  have hidem := List.dropWhile_idempotent char_is_whitespace s
  rw [hidem, List.dropWhile_eq_nil_iff]

/-- At a semicolon, both slices are there. -/
theorem slices_at_semicolon (before after : List Char) :
    slice_from (before ++ ';' :: after) (utf8_len before + 1) = some after
      ∧ slice_to (before ++ ';' :: after) (utf8_len before) = some before := by
  have hone : utf8_len [';'] = 1 := rfl
  have hbehind := slice_from_append (before ++ [';']) after
  rw [utf8_len_append, hone, ← List.append_cons] at hbehind
  exact ⟨hbehind, slice_to_append before _⟩

/-- Behind a single semicolon there are blanks, or it is an error. -/
theorem strip_one {before after : List Char}
    (hloop : semicolon_loop none 0 none 0 (before ++ ';' :: after) = (1, some (utf8_len before))) :
    strip_single_trailing_statement_semicolon (before ++ ';' :: after) =
      if (trim after).isEmpty then some (.ok (trim_end before))
      else some (.error ⟨"multi-statement SQL not allowed"⟩) := by
  obtain ⟨hbehind, hfront⟩ := slices_at_semicolon before after
  unfold strip_single_trailing_statement_semicolon
  simp only [hloop, hbehind, hfront, Option.bind_eq_bind, Option.bind_some, Option.pure_def]

/-- The guard reads quotes, no comments, and takes a single statement. -/
theorem strip_eq_some_ok_iff (sql p : List Char) :
    strip_single_trailing_statement_semicolon sql = some (.ok p) ↔ SingleStatement quotes sql p := by
  have hcounted : Counted ([] ++ sql) (semicolon_loop none 0 none 0 sql).1
      (semicolon_loop none 0 none 0 sql).2 := semicolon_loop_counted loop_at_start
  rw [List.nil_append] at hcounted
  rcases hloop : semicolon_loop none 0 none 0 sql with ⟨count, index⟩
  rw [hloop] at hcounted
  cases hcounted with
  | zero hnone =>
    unfold strip_single_trailing_statement_semicolon
    rw [hloop]
    constructor
    · intro h
      exact Or.inl ⟨(Except.ok.inj (Option.some.inj h)).symm, hnone⟩
    · rintro (⟨rfl, -⟩ | ⟨before, after, hcut, -⟩)
      · rfl
      · exact absurd hcut (hnone before after)
  | @one before after hcut unique =>
    obtain rfl := hcut.1
    rw [strip_one hloop]
    by_cases hblank : ∀ c ∈ after, char_is_whitespace c = true
    · rw [if_pos ((trim_isEmpty_iff after).2 hblank)]
      constructor
      · intro h
        exact Or.inr ⟨before, after, hcut, hblank, unique,
          (Except.ok.inj (Option.some.inj h)).symm⟩
      · rintro (⟨-, hnone⟩ | ⟨before', after', hcut', -, -, rfl⟩)
        · exact absurd hcut (hnone before after)
        · rw [unique before' after' hcut']
          rfl
    · rw [if_neg fun hempty => hblank ((trim_isEmpty_iff after).1 hempty)]
      constructor
      · intro h
        cases h
      · rintro (⟨-, hnone⟩ | ⟨before', after', hcut', hblank', -⟩)
        · exact absurd hcut (hnone before after)
        · obtain rfl := unique before' after' hcut'
          rw [hcut'.after_unique hcut] at hblank'
          exact absurd hblank' hblank
  | more hcut hcut' hne =>
    unfold strip_single_trailing_statement_semicolon
    rw [hloop]
    constructor
    · intro h
      cases h
    · rintro (⟨-, hnone⟩ | ⟨before, after, -, -, unique, -⟩)
      · exact absurd hcut (hnone _ _)
      · exact absurd ((unique _ _ hcut).trans (unique _ _ hcut').symm) hne

/-! ## Comments -/

/-- The guard is right about a text: it takes a single statement, and what it takes has no
separator. -/
structure Guards (nested : Bool) (sql : List Char) : Prop where
  accepts : ∀ p, strip_single_trailing_statement_semicolon sql = some (.ok p) ↔
    SingleStatement (comments nested) sql p
  clean : ∀ p, strip_single_trailing_statement_semicolon sql = some (.ok p) →
    ∀ before after, ¬ Cut (comments nested).accepts ';' p before after

/-- Comments make no difference to the semicolons: a separator stands inside the text with them if
and only if one does without, and if none does, the same separator stands at the end or none. -/
structure CommentsAside (nested : Bool) (sql : List Char) : Prop where
  inside : SeveralStatements quotes sql ↔ SeveralStatements (comments nested) sql
  last : ¬ SeveralStatements quotes sql → ∀ before after,
    Cut quotes.accepts ';' sql before after ↔ Cut (comments nested).accepts ';' sql before after

theorem guards_iff (nested : Bool) (sql : List Char) :
    Guards nested sql ↔ CommentsAside nested sql := by
  have hagree : (∀ p, SingleStatement quotes sql p ↔ SingleStatement (comments nested) sql p) ↔ _ :=
    single_agree_iff semicolon_not_space
  constructor
  · intro h
    have hsame := hagree.1 fun p => (strip_eq_some_ok_iff sql p).symm.trans (h.accepts p)
    exact ⟨hsame.1, hsame.2⟩
  · intro h
    have haccepts : ∀ p, strip_single_trailing_statement_semicolon sql = some (.ok p) ↔
        SingleStatement (comments nested) sql p := by
      intro p
      rw [strip_eq_some_ok_iff]
      exact hagree.2 ⟨h.inside, h.last⟩ p
    refine ⟨haccepts, ?_⟩
    intro p hp before after
    exact ((haccepts p).1 hp).clean

/-! ### Plain comments -/

namespace SqlMode

def InComment : SqlMode → Prop
  | Line | Block _ | Star _ | BlockSlash _ => True
  | Text | Dash | Slash | Literal | Identifier => False

/-- The quote that is open. -/
def quote : SqlMode → Option Char
  | Literal => some '\''
  | Identifier => some '"'
  | _ => none

theorem quote_of_text (c : Char) :
    (of_text c).quote = if c = '\'' ∨ c = '"' then some c else none := by
  unfold of_text
  split_ifs with hdash hslash hliteral hidentifier hquote
  all_goals simp_all [quote]

/-- Outside of a comment both readers go on alike, and inside one as long as no quote comes. -/
theorem quote_step (nested : Bool) (mode : SqlMode) (c : Char)
    (h : mode.InComment → c ≠ '\'' ∧ c ≠ '"') :
    (step nested mode c).quote = quotes.step mode.quote c := by
  cases mode with
  | Text => exact quote_of_text c
  | Dash | Slash =>
    simp only [step]
    split_ifs with hopen
    · rw [hopen]
      rfl
    · exact quote_of_text c
  | Literal | Identifier =>
    simp only [step]
    split_ifs with hclose
    · rw [hclose]
      rfl
    · exact (if_neg hclose).symm
  | Line | Block depth | BlockSlash depth =>
    have hnone : quotes.step none c = none := if_neg (not_or.2 (h trivial))
    change _ = quotes.step none c
    rw [hnone]
    simp only [step]
    split_ifs <;> rfl
  | Star depth =>
    have hnone : quotes.step none c = none := if_neg (not_or.2 (h trivial))
    change _ = quotes.step none c
    rw [hnone]
    simp only [step]
    cases depth <;> split_ifs <;> rfl

end SqlMode

/-- No comment has a quote or a semicolon. -/
def PlainComments (nested : Bool) (sql : List Char) : Prop :=
  ∀ before c after, sql = before ++ c :: after → ((comments nested).eval before).InComment →
    c ≠ '\'' ∧ c ≠ '"' ∧ c ≠ ';'

theorem PlainComments.quote_eval {nested : Bool} {sql before after : List Char}
    (h : PlainComments nested sql) (hsplit : sql = before ++ after) :
    ((comments nested).eval before).quote = quotes.eval before := by
  induction before using List.reverseRecOn generalizing after with
  | nil => rfl
  | append_singleton before c ih =>
    rw [List.append_assoc] at hsplit
    have hplain := h before c after hsplit
    rw [(comments nested).eval_append_singleton, quotes_concat, ← ih hsplit]
    apply SqlMode.quote_step
    intro hin
    exact ⟨(hplain hin).1, (hplain hin).2.1⟩

/-- Comments without quotes and semicolons are no trouble. -/
theorem PlainComments.aside {nested : Bool} {sql : List Char} (h : PlainComments nested sql) :
    CommentsAside nested sql := by
  have hcut : ∀ before after, Cut quotes.accepts ';' sql before after ↔
      Cut (comments nested).accepts ';' sql before after := by
    intro before after
    apply and_congr_right
    intro hsplit
    have hquote := h.quote_eval hsplit
    have hplain := h before ';' after hsplit
    change quotes.eval before = none ↔ (comments nested).eval before ∈ (comments nested).accept
    rw [← hquote]
    clear hquote
    generalize (comments nested).eval before = mode at hplain ⊢
    cases mode with
    | Line | Block depth | Star depth | BlockSlash depth =>
      -- there is no semicolon in a comment
      exact absurd rfl (hplain trivial).2.2
    | Text | Dash | Slash | Literal | Identifier => simp [SqlMode.quote, comments]
  refine ⟨?_, fun _ => hcut⟩
  unfold SeveralStatements Continues
  simp only [hcut]

/-! ### A hidden separator -/

/-- An apostrophe in a comment hides a separator. -/
def hidden_separator : List Char := "SELECT 1 -- it's\n; DROP TABLE province --'".toList


theorem hidden_not_guarded :
    strip_single_trailing_statement_semicolon hidden_separator = some (.ok hidden_separator)
      ∧ ¬ Guards false hidden_separator := by
  have hloop : semicolon_loop none 0 none 0 hidden_separator = (0, none) := by decide +kernel
  have haccepted : strip_single_trailing_statement_semicolon hidden_separator
      = some (.ok hidden_separator) := by
    unfold strip_single_trailing_statement_semicolon
    rw [hloop]
    rfl
  have hsplit : hidden_separator
      = "SELECT 1 -- it's\n".toList ++ ';' :: " DROP TABLE province --'".toList := by decide +kernel
  -- the comment ends with its line, so the semicolon counts
  have hmode : (comments false).eval "SELECT 1 -- it's\n".toList = .Text := by decide +kernel
  refine ⟨haccepted, ?_⟩
  intro h
  refine h.clean hidden_separator haccepted _ _ ⟨hsplit, ?_⟩
  exact Or.inl hmode

end Scharnhorst
