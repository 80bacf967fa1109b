/-
How a statement is written.

A statement is a list of tokens, and a text of it is the tokens in their order, each with white
space in front. A keyword may be written in either case, a number with a sign and with zeros, and
the operator of inequality in two ways; a string stands in single quotes, with the quotes inside
doubled. White space is needed only behind a word, and only in front of what would make the word
longer.
-/
import Scharnhorst.SqlTotal
import Mathlib

set_option autoImplicit false

namespace Scharnhorst

namespace SqlWriting

open SqlParser

/-! ## Tokens -/

inductive Keyword where
  | UPDATE | SET | WHERE | INSERT | INTO | VALUES | DELETE | FROM
deriving DecidableEq

def Keyword.text : Keyword → List Char
  | UPDATE => "UPDATE".toList
  | SET => "SET".toList
  | WHERE => "WHERE".toList
  | INSERT => "INSERT".toList
  | INTO => "INTO".toList
  | VALUES => "VALUES".toList
  | DELETE => "DELETE".toList
  | FROM => "FROM".toList

inductive Token where
  | keyword (k : Keyword)
  | name (s : String)
  | symbol (c : Char)
  | operator (op : ComparisonOp)
  | value (v : SqlValue)

/-- The parentheses, the comma, and the sign of an assignment. -/
def symbols : List Char := ['(', ')', ',', '=']

/-- An ASCII identifier. -/
def IsIdentifier : List Char → Prop
  | [] => False
  | c :: cs => ident_start c = true ∧ ∀ d ∈ cs, ident_char d = true

/-- The quotes inside a literal. -/
def doubled : List Char → List Char
  | [] => []
  | c :: cs => if c = '\'' then '\'' :: '\'' :: doubled cs else c :: doubled cs

/-- The ways to write an operator. -/
def operator_texts : ComparisonOp → List (List Char)
  | .Eq => [['=']]
  | .Lt => [['<']]
  | .Gt => [['>']]
  | .Le => [['<', '=']]
  | .Ge => [['>', '=']]
  | .Ne => [['!', '='], ['<', '>']]

/-- The word in either case. -/
def AnyCase (word cs : List Char) : Prop := eq_ignore_ascii_case cs word = true

/-- A text of a value. Floats are not written. -/
def SpellsValue : SqlValue → List Char → Prop
  | .Integer i, cs => ∃ (sign : Sign) (digits : List Char), cs = sign.text ++ digits ∧ digits ≠ []
      ∧ (∀ c ∈ digits, c.isDigit = true)
      ∧ i.toInt = signed sign.negative (Nat.ofDigitChars 10 digits 0)
  | .String s, cs => cs = '\'' :: (doubled s.toList ++ ['\''])
  | .Boolean b, cs => AnyCase (if b then "TRUE".toList else "FALSE".toList) cs
  | .Null, cs => AnyCase "NULL".toList cs
  | .Float _, _ => False

/-- A text of a token. -/
def Spells : Token → List Char → Prop
  | .keyword k, cs => AnyCase k.text cs
  | .name s, cs => cs = s.toList ∧ IsIdentifier cs
  | .symbol c, cs => cs = [c] ∧ c ∈ symbols
  | .operator op, cs => cs ∈ operator_texts op
  | .value v, cs => SpellsValue v cs

/-- The tokens that letters would make longer. -/
def Token.IsWord : Token → Prop
  | .keyword _ | .name _ | .value (.Boolean _) | .value .Null => True
  | _ => False

/-! ## Texts -/

/-- White space between tokens, or none. -/
def Gap (cs : List Char) : Prop := ∀ c ∈ cs, char_is_whitespace c = true

/-- The text has these tokens. -/
inductive Written : List Token → List Char → Prop where
  | done {gap : List Char} (hgap : Gap gap) : Written [] gap
  | token {tok : Token} {toks : List Token} {gap cs rest : List Char} (hgap : Gap gap)
      (hspells : Spells tok cs) (hrest : Written toks rest)
      (hword : tok.IsWord → ∀ c ∈ rest.head?, ident_char c = false) :
      Written (tok :: toks) (gap ++ (cs ++ rest))

/-- Items between commas, up to the closing parenthesis. -/
def items_tokens : List Token → List Token
  | [] => [.symbol ')']
  | [item] => [item, .symbol ')']
  | item :: next :: items => item :: .symbol ',' :: items_tokens (next :: items)

def list_tokens (items : List Token) : List Token := .symbol '(' :: items_tokens items

def where_tokens (condition : WhereCondition) : List Token :=
  [.name condition.column, .operator condition.operator, .value condition.value]

/-- The documented syntax. -/
def statement_tokens : SqlStatement → List Token
  | .Update table column value condition =>
    .keyword .UPDATE :: .name table :: .keyword .SET :: .name column :: .symbol '=' ::
      .value value :: .keyword .WHERE :: where_tokens condition
  | .Insert table columns values =>
    .keyword .INSERT :: .keyword .INTO :: .name table ::
      (list_tokens (columns.map .name) ++ .keyword .VALUES :: list_tokens (values.map .value))
  | .Delete table condition =>
    .keyword .DELETE :: .keyword .FROM :: .name table :: .keyword .WHERE :: where_tokens condition

/-- An INSERT has one value for each column. -/
def OneValueEach : SqlStatement → Prop
  | .Insert _ columns values => columns.length = values.length
  | _ => True

/-! ## Characters of a token -/

section Characters

variable {word cs rest gap : List Char} {tok : Token} {toks : List Token} {c : Char}

theorem not_space_of_ident {c : Char} (h : ident_char c = true) : char_is_whitespace c = false := by
  by_contra hspace
  rw [not_ident_char_of_whitespace (Bool.eq_true_of_not_eq_false hspace)] at h
  cases h

theorem ident_char_of_alpha {c : Char} (h : c.isAlpha = true) : ident_char c = true := by
  unfold ident_char Char.isAlphanum
  rw [h]
  rfl

theorem ident_char_of_digit {c : Char} (h : c.isDigit = true) : ident_char c = true := by
  unfold ident_char Char.isAlphanum
  rw [h, Bool.or_true]
  rfl

/-- A word of letters is written with letters. -/
theorem AnyCase.alpha (h : AnyCase word cs) (hword : ∀ c ∈ word, c.isAlpha = true) :
    ∀ c ∈ cs, c.isAlpha = true := by
  have hmap : cs.map Char.toLower = word.map Char.toLower := eq_of_beq h
  intro c hc
  have hmem : c.toLower ∈ word.map Char.toLower := by
    rw [← hmap]
    exact List.mem_map_of_mem hc
  obtain ⟨d, hd, heq⟩ := List.mem_map.1 hmem
  rw [← Char.isAlpha_toLower_eq_isAlpha, ← heq, Char.isAlpha_toLower_eq_isAlpha]
  exact hword d hd

theorem AnyCase.length_eq (h : AnyCase word cs) : cs.length = word.length := by
  have hmap : cs.map Char.toLower = word.map Char.toLower := eq_of_beq h
  rw [← List.length_map (f := Char.toLower), hmap, List.length_map]

/-- In upper case it is the word. -/
theorem AnyCase.upper (h : AnyCase word cs) (hword : to_ascii_uppercase word = word) :
    to_ascii_uppercase cs = word := by
  have hmap : cs.map Char.toLower = word.map Char.toLower := eq_of_beq h
  have hupper : ∀ cs : List Char, (cs.map Char.toLower).map Char.toUpper = cs.map Char.toUpper := by
    intro cs
    rw [List.map_map]
    exact List.map_congr_left fun c _ => Char.toUpper_toLower_eq_toUpper c
  rw [← hword, to_ascii_uppercase, to_ascii_uppercase, ← hupper cs, hmap, hupper]

theorem Keyword.text_ne (k : Keyword) : k.text ≠ [] := by
  cases k <;> exact List.cons_ne_nil _ _

theorem Keyword.text_alpha (k : Keyword) : ∀ c ∈ k.text, c.isAlpha = true := by
  apply List.all_eq_true.1
  cases k <;> rfl

theorem Keyword.text_upper (k : Keyword) : to_ascii_uppercase k.text = k.text := by
  cases k <;> rfl

theorem ascii_of_alpha (h : ∀ c ∈ word, c.isAlpha = true) : Ascii word := by
  intro c hc
  have hlower : c.toLower.isLower = true := by
    rw [Char.isLower_toLower_eq_isAlpha]
    exact h c hc
  exact (isLower_range hlower).2.trans_lt (by decide)

theorem IsIdentifier.ident (h : IsIdentifier cs) : ∀ c ∈ cs, ident_char c = true := by
  cases cs with
  | nil => exact h.elim
  | cons c cs => exact List.forall_mem_cons.2 ⟨ident_char_of_start h.1, h.2⟩

theorem isIdentifier_of_all (hfirst : cs.head?.any ident_start = true)
    (hall : cs.all ident_char = true) : IsIdentifier cs := by
  cases cs with
  | nil => cases hfirst
  | cons c cs => exact ⟨hfirst, (List.forall_mem_cons.1 (List.all_eq_true.1 hall)).2⟩

/-- The words of values. -/
theorem truth_alpha (b : Bool) :
    ∀ c ∈ (if b then "TRUE".toList else "FALSE".toList), c.isAlpha = true := by
  apply List.all_eq_true.1
  cases b <;> rfl

theorem null_alpha : ∀ c ∈ "NULL".toList, c.isAlpha = true := by
  apply List.all_eq_true.1
  rfl

/-- A text of a token has something in it, and no white space at either end. -/
structure Solid (cs : List Char) : Prop where
  ne : cs ≠ []
  first : ∀ c ∈ cs.head?, char_is_whitespace c = false
  last : ∀ c ∈ cs.getLast?, char_is_whitespace c = false

theorem solid_of_all (hne : cs ≠ []) (h : ∀ c ∈ cs, char_is_whitespace c = false) : Solid cs where
  ne := hne
  first c hc := h c (List.mem_of_mem_head? hc)
  last c hc := h c (List.mem_of_mem_getLast? hc)

theorem solid_of_ident (hne : cs ≠ []) (h : ∀ c ∈ cs, ident_char c = true) : Solid cs :=
  solid_of_all hne fun c hc => not_space_of_ident (h c hc)

theorem AnyCase.solid (h : AnyCase word cs) (hne : word ≠ [])
    (hword : ∀ c ∈ word, c.isAlpha = true) : Solid cs := by
  apply solid_of_ident
  · intro hnil
    rw [hnil] at h
    exact hne (List.length_eq_zero_iff.1 h.length_eq.symm)
  · intro c hc
    exact ident_char_of_alpha (h.alpha hword c hc)

theorem solid_of_value {v : SqlValue} (h : SpellsValue v cs) : Solid cs := by
  cases v with
  | Integer i =>
    obtain ⟨sign, digits, rfl, hne, hdigits, -⟩ := h
    apply solid_of_all (List.append_ne_nil_of_right_ne_nil _ hne)
    intro c hc
    rcases List.mem_append.1 hc with hsign | hdigit
    · cases sign <;> simp only [Sign.text, List.not_mem_nil, List.mem_singleton] at hsign
      all_goals
        rw [hsign]
        rfl
    · exact not_space_of_ident (ident_char_of_digit (hdigits c hdigit))
  | Float f => exact h.elim
  | String s =>
    subst h
    refine ⟨by simp, ?_, ?_⟩
    · intro c hc
      rw [List.head?_cons, Option.mem_some_iff] at hc
      rw [← hc]
      rfl
    · intro c hc
      rw [← List.cons_append, List.getLast?_append, List.getLast?_singleton, Option.some_or,
        Option.mem_some_iff] at hc
      rw [← hc]
      rfl
  | Boolean b => exact AnyCase.solid h (by cases b <;> simp) (truth_alpha b)
  | Null => exact AnyCase.solid h (by simp) null_alpha

theorem Spells.solid (h : Spells tok cs) : Solid cs := by
  cases tok with
  | keyword k => exact AnyCase.solid h k.text_ne k.text_alpha
  | name s =>
    apply solid_of_ident _ h.2.ident
    rintro rfl
    exact h.2
  | symbol c =>
    obtain ⟨rfl, hc⟩ := h
    apply solid_of_all (List.cons_ne_nil _ _)
    intro d hd
    rw [List.mem_singleton.1 hd]
    simp only [symbols, List.mem_cons, List.not_mem_nil, or_false] at hc
    rcases hc with rfl | rfl | rfl | rfl <;> rfl
  | operator op =>
    have hall : (operator_texts op).all
        (fun cs => !cs.isEmpty && cs.all fun c => !char_is_whitespace c) = true := by
      cases op <;> rfl
    have hcs := List.all_eq_true.1 hall cs h
    rw [Bool.and_eq_true, Bool.not_eq_true', List.isEmpty_eq_false_iff] at hcs
    apply solid_of_all hcs.1
    intro c hc
    have hspace := List.all_eq_true.1 hcs.2 c hc
    rwa [Bool.not_eq_true'] at hspace
  | value v => exact solid_of_value h

end Characters

/-! ## Texts of tokens -/

section Texts

variable {cs rest gap s : List Char} {tok : Token} {toks : List Token} {c : Char}

theorem trim_start_gap (hgap : Gap gap) (hcs : Solid cs) (rest : List Char) :
    trim_start (gap ++ (cs ++ rest)) = cs ++ rest := by
  obtain ⟨c, cs, rfl⟩ := List.exists_cons_of_ne_nil hcs.ne
  unfold trim_start
  rw [List.dropWhile_append_of_pos hgap, List.cons_append, List.dropWhile_cons_of_neg]
  rw [hcs.first c rfl]
  decide

theorem gap_nil : Gap [] := fun _ hc => absurd hc List.not_mem_nil

/-- The first token stands in front once the white space is gone. -/
theorem Written.front (h : Written (tok :: toks) s) :
    ∃ cs rest, trim_start s = cs ++ rest ∧ Spells tok cs ∧ Written toks rest
      ∧ (tok.IsWord → ∀ c ∈ rest.head?, ident_char c = false) := by
  cases h with
  | token hgap hspells hrest hword =>
    exact ⟨_, _, trim_start_gap hgap hspells.solid _, hspells, hrest, hword⟩

theorem Written.blank (h : Written [] s) : trim_start s = [] := by
  cases h with
  | done hgap => exact List.dropWhile_eq_nil_iff.2 hgap

theorem Written.trim_start (h : Written toks s) : Written toks (trim_start s) := by
  cases toks with
  | nil =>
    rw [h.blank]
    exact Written.done gap_nil
  | cons tok toks =>
    obtain ⟨cs, rest, hs, hspells, hrest, hword⟩ := h.front
    rw [hs]
    exact Written.token gap_nil hspells hrest hword

/-- What ends with no white space stays in front of what is cut off. -/
theorem rdropWhile_append (hlast : ∀ c ∈ cs.getLast?, char_is_whitespace c = false)
    (rest : List Char) :
    (cs ++ rest).rdropWhile char_is_whitespace = cs ++ rest.rdropWhile char_is_whitespace := by
  induction rest using List.reverseRecOn with
  | nil =>
    rw [List.append_nil, List.rdropWhile_nil, List.append_nil, List.rdropWhile_eq_self_iff]
    intro hcs hspace
    rw [hlast _ (List.getLast?_eq_getLast_of_ne_nil hcs)] at hspace
    cases hspace
  | append_singleton rest c ih =>
    rw [← List.append_assoc]
    by_cases hc : char_is_whitespace c = true
    · rw [List.rdropWhile_concat_pos _ _ _ hc, List.rdropWhile_concat_pos _ _ _ hc, ih]
    · rw [List.rdropWhile_concat_neg _ _ _ hc, List.rdropWhile_concat_neg _ _ _ hc,
        List.append_assoc]

/-- The white space at the end belongs to no token. -/
theorem Written.rdropWhile (h : Written toks s) :
    Written toks (s.rdropWhile char_is_whitespace) := by
  induction h with
  | done hgap =>
    rw [List.rdropWhile_eq_nil_iff.2 hgap]
    exact Written.done gap_nil
  | @token tok toks gap cs rest hgap hspells hrest hword ih =>
    have hcs := hspells.solid
    have hlast : ∀ c ∈ (gap ++ cs).getLast?, char_is_whitespace c = false := by
      intro c hc
      rw [List.getLast?_append_of_ne_nil _ hcs.ne] at hc
      exact hcs.last c hc
    rw [← List.append_assoc, rdropWhile_append hlast, List.append_assoc]
    refine Written.token hgap hspells ih ?_
    intro htok c hc
    -- what is left of the rest starts as the rest does
    obtain ⟨cut, hcut⟩ := List.rdropWhile_prefix char_is_whitespace rest
    apply hword htok c
    rw [← hcut]
    exact List.mem_head?_append_of_mem_head? hc

theorem Written.trim (h : Written toks s) : Written toks (trim s) := h.trim_start.rdropWhile

/-- A token has one character at least. -/
theorem Written.length_le (h : Written toks s) : toks.length ≤ s.length := by
  induction h with
  | done hgap => exact Nat.zero_le _
  | token hgap hspells hrest hword ih =>
    have hpos := List.length_pos_iff.2 hspells.solid.ne
    simp only [List.length_append, List.length_cons]
    omega

/-- A text of tokens begins with white space or with the first of them. -/
theorem Written.head (h : Written (tok :: toks) s) (hc : c ∈ s.head?) :
    char_is_whitespace c = true ∨ ∃ cs, Spells tok cs ∧ cs.head? = some c := by
  cases h with
  | @token _ _ gap cs rest hgap hspells hrest hword =>
    rcases gap with _ | ⟨d, gap⟩
    · obtain ⟨d, cs, rfl⟩ := List.exists_cons_of_ne_nil hspells.solid.ne
      exact Or.inr ⟨_, hspells, hc⟩
    · left
      rw [List.cons_append, List.head?_cons, Option.mem_some_iff] at hc
      rw [← hc]
      exact hgap d List.mem_cons_self

end Texts

/-! ## Printing -/

/-- `impl Display for i64`. -/
def decimal (i : Int64) : List Char :=
  (if i < 0 then Sign.Minus else Sign.Plain).text ++ Nat.toDigits 10 i.toInt.natAbs

def value_text : SqlValue → List Char
  | .Integer i => decimal i
  | .Float _ => []
  | .String s => '\'' :: (doubled s.toList ++ ['\''])
  | .Boolean b => if b then "TRUE".toList else "FALSE".toList
  | .Null => "NULL".toList

def Token.text : Token → List Char
  | .keyword k => k.text
  | .name s => s.toList
  | .symbol c => [c]
  | .operator op => (operator_texts op).headD []
  | .value v => value_text v

/-- The tokens with a space in front of each. -/
def tokens_text (toks : List Token) : List Char := toks.flatMap fun tok => ' ' :: tok.text

def print (stmt : SqlStatement) : List Char := tokens_text (statement_tokens stmt)

/-- Identifiers are identifiers, and no value is a float. -/
def Token.Writable : Token → Prop
  | .name s => IsIdentifier s.toList
  | .symbol c => c ∈ symbols
  | .value (.Float _) => False
  | _ => True

section Printing

variable {tok : Token} {toks : List Token}

theorem decimal_spells (i : Int64) : SpellsValue (.Integer i) (decimal i) := by
  refine ⟨_, _, rfl, Nat.toDigits_ne_nil, ?_, ?_⟩
  · intro c hc
    exact Nat.isDigit_of_mem_toDigits (by decide) (by decide) hc
  · rw [Nat.ofDigitChars_ten_toDigits]
    have hsign : i < 0 ↔ i.toInt < 0 := Int64.lt_iff_toInt_lt
    by_cases hi : i < 0
    · have hneg := hsign.1 hi
      rw [if_pos hi]
      change i.toInt = -(i.toInt.natAbs : Int)
      omega
    · have hneg := mt hsign.2 hi
      rw [if_neg hi]
      change i.toInt = (i.toInt.natAbs : Int)
      omega

theorem any_case_self (word : List Char) : AnyCase word word := beq_self_eq_true _

theorem Token.Writable.spells (h : tok.Writable) : Spells tok tok.text := by
  cases tok with
  | keyword k => exact any_case_self k.text
  | name s => exact ⟨rfl, h⟩
  | symbol c => exact ⟨rfl, h⟩
  | operator op => cases op <;> simp [Spells, Token.text, operator_texts]
  | value v =>
    cases v with
    | Integer i => exact decimal_spells i
    | Float f => exact h.elim
    | String s => exact (rfl : '\'' :: (doubled s.toList ++ ['\'']) = _)
    | Boolean b => exact any_case_self _
    | Null => exact any_case_self _

theorem written_tokens_text (h : ∀ tok ∈ toks, tok.Writable) : Written toks (tokens_text toks) := by
  induction toks with
  | nil => exact Written.done gap_nil
  | cons tok toks ih =>
    obtain ⟨htok, htoks⟩ := List.forall_mem_cons.1 h
    have hspace : Gap [' '] := by
      intro c hc
      rw [List.mem_singleton.1 hc]
      rfl
    have htext : tokens_text (tok :: toks) = [' '] ++ (tok.text ++ tokens_text toks) := rfl
    rw [htext]
    refine Written.token hspace htok.spells (ih htoks) ?_
    -- the next token has its space
    intro _ c hc
    rcases toks with _ | ⟨next, toks⟩
    · cases hc
    · obtain rfl : ' ' = c := Option.some.inj hc
      rfl

/-- A statement of the documented syntax can be written. -/
theorem written_print {stmt : SqlStatement} (h : ∀ tok ∈ statement_tokens stmt, tok.Writable) :
    Written (statement_tokens stmt) (print stmt) := written_tokens_text h

end Printing

end SqlWriting

end Scharnhorst
