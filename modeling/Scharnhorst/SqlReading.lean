/-
How a written statement is read.

The tokenizer stands before some tokens if the text from its position on is a text of them. Every
method that is asked for the first of them returns it and stands before the others. The text itself
is seen no more.
-/
import Scharnhorst.SqlWriting

set_option autoImplicit false

namespace Scharnhorst

namespace SqlWriting

open SqlParser

/-- The tokenizer has these tokens before it. -/
def Stands (t : Tokenizer) (toks : List Token) : Prop := ∃ s, At t s ∧ Written toks s

section Tokens

variable {t : Tokenizer} {tok : Token} {toks : List Token} {s cs rest : List Char}

/-- Behind the first token, which is in front once the white space is skipped. -/
theorem Stands.skip (h : Stands t (tok :: toks)) : ∃ t' cs rest, t.skip_whitespace = .ok t'
    ∧ At t' (cs ++ rest) ∧ Spells tok cs ∧ Written toks rest
    ∧ (tok.IsWord → ∀ c ∈ rest.head?, ident_char c = false) := by
  obtain ⟨s, hat, hwritten⟩ := h
  obtain ⟨t', hskip, hat'⟩ := skip_whitespace_at hat
  obtain ⟨cs, rest, hs, hspells, hrest, hword⟩ := hwritten.front
  rw [hs] at hat'
  exact ⟨t', cs, rest, hskip, hat', hspells, hrest, hword⟩

theorem Stands.advance (hat : At t (cs ++ rest)) (hrest : Written toks rest) :
    Stands (t.advance (utf8_len cs)) toks := ⟨rest, hat.advance rfl, hrest⟩

/-! ### Words -/

theorem takeWhile_front {p : Char → Bool} (hcs : ∀ c ∈ cs, p c = true)
    (hrest : ∀ c ∈ rest.head?, p c = false) : (cs ++ rest).takeWhile p = cs := by
  rw [List.takeWhile_append_of_pos hcs]
  rcases rest with _ | ⟨c, rest⟩
  · rw [List.takeWhile_nil, List.append_nil]
  · rw [List.takeWhile_cons_of_neg (by rw [hrest c rfl]; decide), List.append_nil]

theorem Stands.next_identifier {name : String} (h : Stands t (.name name :: toks)) :
    ∃ t', t.next_identifier = .ok (some name, t') ∧ Stands t' toks := by
  obtain ⟨t', cs, rest, hskip, hat, ⟨hname, hident⟩, hrest, hword⟩ := h.skip
  have hfront := prefix_of_append cs rest
  have hend := find_index_not ident_char (cs ++ rest)
  rw [takeWhile_front hident.ident (hword trivial)] at hend
  refine ⟨_, ?_, Stands.advance hat hrest⟩
  unfold Tokenizer.next_identifier
  rw [hskip, run_bind_ok, hat.remaining, run_bind_ok]
  rcases cs with _ | ⟨c, cs⟩
  · exact hident.elim
  · rw [List.cons_append] at hend hfront ⊢
    simp only [hident.1, hend, hfront, run_bind_ok]
    rw [hname, String.ofList_toList]
    rfl

/-- A keyword is cut off whole, in whatever case it is written. -/
theorem Stands.consume_keyword {k : Keyword} (h : Stands t (.keyword k :: toks)) :
    ∃ t', t.consume_keyword k.text = .ok (true, t') ∧ Stands t' toks := by
  obtain ⟨s, hat, hwritten⟩ := h
  obtain ⟨cs, rest, hs, hcase, hrest, hword⟩ := hwritten.front
  have hascii := ascii_of_alpha k.text_alpha
  obtain ⟨hlen, hbytes⟩ := ascii_of_eq_ignore_case hascii hcase
  have hself : utf8_len k.text = k.text.length :=
    (ascii_of_eq_ignore_case hascii (beq_self_eq_true _)).2
  -- the length of the keyword is where it ends in the text
  have hcut : ¬ Straddles (trim_start s) (utf8_len k.text) := by
    intro hcut
    have hslice := slice_to_append cs rest
    rw [hbytes, ← hself, ← hs, slice_to_straddles hcut] at hslice
    cases hslice
  have hconsumes := consume_keyword_at hascii hat hcut
  have hbehind : SqlText.keyword k.text s = some rest := by
    unfold SqlText.keyword
    have heq : eq_ignore_ascii_case cs k.text = true := hcase
    rw [hs, ← hlen, List.take_left, List.drop_left, if_pos heq]
    rcases rest with _ | ⟨c, rest⟩
    · rfl
    · simp only [hword trivial c rfl]
      rfl
  rw [hbehind] at hconsumes
  obtain ⟨t', hrun, hat'⟩ := hconsumes
  exact ⟨t', hrun, rest, hat', hrest⟩

/-! ### Symbols and operators -/

theorem Stands.consume_operator {c : Char} (h : Stands t (.symbol c :: toks)) :
    ∃ t', t.consume_operator [c] = .ok (true, t') ∧ Stands t' toks := by
  obtain ⟨t', cs, rest, hskip, hat, ⟨rfl, -⟩, hrest, -⟩ := h.skip
  refine ⟨_, ?_, Stands.advance hat hrest⟩
  have hprefix : [c].isPrefixOf ([c] ++ rest) = true := by
    rw [List.isPrefixOf_iff_prefix]
    exact List.prefix_append _ _
  unfold Tokenizer.consume_operator
  rw [hskip, run_bind_ok, hat.remaining, run_bind_ok, if_pos hprefix]
  rfl

/-- A value begins with a letter, a digit, a sign or a quote. -/
theorem value_first {v : SqlValue} {c : Char} (h : SpellsValue v cs) (hc : cs.head? = some c) :
    ident_char c = true ∨ c = '\'' ∨ c = '-' ∨ c = '+' := by
  cases v with
  | Integer i =>
    obtain ⟨sign, digits, rfl, hne, hdigits, -⟩ := h
    cases sign with
    | Plain => exact Or.inl (ident_char_of_digit (hdigits c (List.mem_of_mem_head? hc)))
    | Plus => exact Or.inr (Or.inr (Or.inr (Option.some.inj hc).symm))
    | Minus => exact Or.inr (Or.inr (Or.inl (Option.some.inj hc).symm))
  | Float f => exact h.elim
  | String str =>
    subst h
    exact Or.inr (Or.inl (Option.some.inj hc).symm)
  | Boolean b =>
    have halpha := AnyCase.alpha h (truth_alpha b) c (List.mem_of_mem_head? hc)
    exact Or.inl (ident_char_of_alpha halpha)
  | Null =>
    have halpha := AnyCase.alpha h null_alpha c (List.mem_of_mem_head? hc)
    exact Or.inl (ident_char_of_alpha halpha)

/-- None of these is what an operator ends with. -/
theorem value_head {v : SqlValue} {c : Char} (h : Written (.value v :: toks) s) (hc : c ∈ s.head?) :
    c ≠ '=' ∧ c ≠ '>' := by
  have hkind : char_is_whitespace c = true ∨ ident_char c = true ∨ c = '\'' ∨ c = '-' ∨ c = '+' := by
    rcases h.head hc with hspace | ⟨cs, hspells, hfirst⟩
    · exact Or.inl hspace
    · exact Or.inr (value_first hspells hfirst)
  constructor
  · rintro rfl
    revert hkind
    decide
  · rintro rfl
    revert hkind
    decide

theorem Stands.next_comparison_op {op : ComparisonOp} {v : SqlValue}
    (h : Stands t (.operator op :: .value v :: toks)) :
    ∃ t', t.next_comparison_op = .ok (some op, t') ∧ Stands t' (.value v :: toks) := by
  obtain ⟨t', cs, rest, hskip, hat, hspells, hrest, -⟩ := h.skip
  have htoken : Tokenizer.comparison_token (cs ++ rest) = some (op, utf8_len cs) := by
    have hnext : ∀ c ∈ rest.head?, c ≠ '=' ∧ c ≠ '>' := fun c hc => value_head hrest hc
    cases op with
    | Eq =>
      rw [List.mem_singleton.1 hspells]
      rfl
    | Le | Ge =>
      rw [List.mem_singleton.1 hspells]
      rfl
    | Ne =>
      simp only [Spells, operator_texts, List.mem_cons, List.not_mem_nil, or_false] at hspells
      rcases hspells with rfl | rfl
      · rfl
      · rfl
    | Lt =>
      -- what follows makes no longer operator
      rw [List.mem_singleton.1 hspells]
      rcases rest with _ | ⟨c, rest⟩
      · rfl
      · obtain ⟨heq, hgt⟩ := hnext c rfl
        change Tokenizer.comparison_token ('<' :: c :: rest) = some (.Lt, 1)
        simp [Tokenizer.comparison_token, heq, hgt]
    | Gt =>
      rw [List.mem_singleton.1 hspells]
      rcases rest with _ | ⟨c, rest⟩
      · rfl
      · obtain ⟨heq, -⟩ := hnext c rfl
        change Tokenizer.comparison_token ('>' :: c :: rest) = some (.Gt, 1)
        simp [Tokenizer.comparison_token, heq]
  refine ⟨_, ?_, Stands.advance hat hrest⟩
  unfold Tokenizer.next_comparison_op
  rw [hskip, run_bind_ok, hat.remaining, run_bind_ok]
  simp only [htoken]
  rfl

/-! ### Values -/

/-- What can stand behind a value: the end, a keyword, or a symbol of a list. -/
def AfterValue : List Token → Prop
  | [] | .keyword _ :: _ => True
  | .symbol c :: _ => c = ',' ∨ c = ')'
  | _ => False

theorem not_digit_of_alpha {c : Char} (h : c.isAlpha = true) : c.isDigit = false := by
  by_contra hdigit
  obtain ⟨-, hhigh⟩ := Char.isDigit_iff_toNat.1 (Bool.eq_true_of_not_eq_false hdigit)
  have hnine : '9'.toNat = 57 := rfl
  unfold Char.isAlpha at h
  rcases (Bool.or_eq_true _ _).mp h with hupper | hlower
  · have hlow := (isUpper_range hupper).1
    omega
  · have hlow := (isLower_range hlower).1
    omega

/-- None of it goes on with a number or a literal. -/
theorem AfterValue.head {c : Char} (h : AfterValue toks) (hwritten : Written toks s)
    (hc : c ∈ s.head?) : c.isDigit = false ∧ c ≠ '.' ∧ c ≠ '\'' := by
  have hkind : char_is_whitespace c = true ∨ c.isAlpha = true ∨ c = ',' ∨ c = ')' := by
    cases toks with
    | nil =>
      cases hwritten with
      | done hgap => exact Or.inl (hgap c (List.mem_of_mem_head? hc))
    | cons tok toks =>
      rcases hwritten.head hc with hspace | ⟨cs, hspells, hfirst⟩
      · exact Or.inl hspace
      · right
        cases tok with
        | keyword k =>
          exact Or.inl (AnyCase.alpha hspells k.text_alpha c (List.mem_of_mem_head? hfirst))
        | symbol d =>
          obtain ⟨rfl, -⟩ := hspells
          obtain rfl : d = c := Option.some.inj hfirst
          exact Or.inr h
        | name | operator | value => exact h.elim
  refine ⟨?_, ?_, ?_⟩
  · by_contra hdigit
    have hdigit := Bool.eq_true_of_not_eq_false hdigit
    rcases hkind with hspace | halpha | rfl | rfl
    · rw [not_space_of_ident (ident_char_of_digit hdigit)] at hspace
      cases hspace
    · rw [not_digit_of_alpha halpha] at hdigit
      cases hdigit
    · cases hdigit
    · cases hdigit
  · rintro rfl
    revert hkind
    decide
  · rintro rfl
    revert hkind
    decide

theorem skip_solid (hat : At t (cs ++ rest)) (hcs : Solid cs) :
    ∃ t', t.skip_whitespace = .ok t' ∧ At t' (cs ++ rest) := by
  have htrim := trim_start_gap gap_nil hcs rest
  obtain ⟨t', hskip, hat'⟩ := skip_whitespace_at hat
  rw [List.nil_append] at htrim
  rw [htrim] at hat'
  exact ⟨t', hskip, hat'⟩

theorem replace_doubled_doubled (cs : List Char) : replace_doubled '\'' (doubled cs) = cs := by
  induction cs with
  | nil => rfl
  | cons c cs ih =>
    rw [doubled]
    by_cases hc : c = '\''
    · rw [if_pos hc, replace_doubled, if_pos ⟨rfl, rfl⟩, ih, hc]
    · rw [if_neg hc]
      rcases hcs : doubled cs with _ | ⟨d, ds⟩
      · rw [← ih, hcs]
        rfl
      · rw [replace_doubled, if_neg (fun h => hc h.1), ← hcs, ih]

/-- The rest of a literal, of which `read` was read. -/
theorem string_loop_doubled {read body : List Char} {start fuel : Nat}
    (hstart : slice_from t.input start = some (read ++ (doubled body ++ '\'' :: rest)))
    (hpos : t.pos = start + utf8_len read) (hrest : rest.head? ≠ some '\'')
    (hfuel : (doubled body).length < fuel) :
    ∃ t', t.string_loop '\'' start fuel
        = .ok (some (.String (.ofList (replace_doubled '\'' (read ++ doubled body)))), t')
      ∧ At t' rest := by
  obtain ⟨rounds, rfl⟩ := exists_round hfuel
  induction body generalizing t read rounds with
  | nil =>
    rw [doubled, List.nil_append] at hstart
    rw [doubled, List.append_nil]
    exact ⟨_, string_loop_end hstart hpos hrest, (at_behind hstart hpos).advance_char⟩
  | cons c body ih =>
    have hat := at_behind hstart hpos
    rw [doubled] at hstart hfuel hat ⊢
    by_cases hc : c = '\''
    · -- two characters of the text, one of the string
      rw [if_pos hc] at hstart hfuel hat ⊢
      rw [List.length_cons, List.length_cons] at hfuel
      obtain ⟨rounds, rfl⟩ : ∃ k, rounds = k + 1 := ⟨rounds - 1, by omega⟩
      rw [List.cons_append, List.cons_append] at hstart hat
      rw [List.append_cons, List.append_cons] at hstart
      rw [string_loop_quote hat, List.append_cons, List.append_cons]
      refine ih (t := t.advance ('\''.utf8Size * 2)) hstart ?_ rounds (by omega)
      change t.pos + '\''.utf8Size * 2 = _
      rw [utf8_len_append, utf8_len_append, hpos, utf8_len_cons, utf8_len_nil]
      omega
    · rw [if_neg hc] at hstart hfuel hat ⊢
      rw [List.length_cons] at hfuel
      obtain ⟨rounds, rfl⟩ : ∃ k, rounds = k + 1 := ⟨rounds - 1, by omega⟩
      rw [List.cons_append] at hstart hat
      rw [List.append_cons] at hstart
      rw [string_loop_char hat hc, List.append_cons]
      refine ih (t := t.advance c.utf8Size) hstart ?_ rounds (by omega)
      change t.pos + c.utf8Size = _
      rw [utf8_len_append, hpos, utf8_len_cons, utf8_len_nil]
      omega

/-- A literal is read as its string. -/
theorem parse_string_literal_reads {body : List Char}
    (hat : At t ('\'' :: (doubled body ++ ['\'']) ++ rest)) (hrest : rest.head? ≠ some '\'') :
    ∃ t', t.parse_string_literal '\'' = .ok (some (.String (.ofList body)), t') ∧ At t' rest := by
  have hcs : SpellsValue (.String (.ofList body)) ('\'' :: (doubled body ++ ['\''])) := by
    rw [SpellsValue, String.toList_ofList]
  obtain ⟨t', hskip, hat'⟩ := skip_solid hat (solid_of_value hcs)
  rw [List.cons_append, List.append_assoc] at hat'
  have hbehind : At (t'.advance 1) (doubled body ++ '\'' :: rest) := hat'.advance_char
  have hlong : (doubled body).length < (t'.advance 1).rounds := by
    have hlt := hbehind.length_lt
    rw [List.length_append] at hlt
    omega
  have hstart : slice_from (t'.advance 1).input (t'.advance 1).pos
      = some ([] ++ (doubled body ++ '\'' :: rest)) := hbehind
  obtain ⟨t'', hloop, hat''⟩ := string_loop_doubled hstart rfl hrest hlong
  refine ⟨t'', ?_, hat''⟩
  unfold Tokenizer.parse_string_literal
  rw [hskip, run_bind_ok, hat'.remaining, run_bind_ok, if_pos (by simp), hloop, List.nil_append,
    replace_doubled_doubled]

/-- A word in either case is read as its value. -/
theorem parse_keyword_value_reads {word : List Char} {v : SqlValue} (hcase : AnyCase word cs)
    (hne : word ≠ []) (halpha : ∀ c ∈ word, c.isAlpha = true)
    (hupper : to_ascii_uppercase word = word) (hvalue : Tokenizer.keyword_value word = some v)
    (hat : At t (cs ++ rest)) (hrest : ∀ c ∈ rest.head?, ident_char c = false) :
    ∃ t', t.parse_keyword_value = .ok (some v, t') ∧ At t' rest := by
  obtain ⟨t', hskip, hat'⟩ := skip_solid hat (hcase.solid hne halpha)
  have hword : (cs ++ rest).takeWhile Char.isAlpha = cs := by
    apply takeWhile_front (hcase.alpha halpha)
    intro c hc
    by_contra hletter
    have hident := ident_char_of_alpha (Bool.eq_true_of_not_eq_false hletter)
    rw [hrest c hc] at hident
    cases hident
  refine ⟨_, ?_, hat'.advance rfl⟩
  unfold Tokenizer.parse_keyword_value
  rw [hskip, run_bind_ok, hat'.remaining, run_bind_ok]
  simp only [hword, hcase.upper hupper, hvalue]
  rfl

/-- A number without a point is read as the integer. -/
theorem parse_number_reads {i : Int64} {first : Char} {more : List Char}
    (hfirst : NumberStart first) (hspells : SpellsValue (.Integer i) (first :: more))
    (hdigits : ∀ c ∈ more, c.isDigit = true) (hat : At t (first :: more ++ rest))
    (hrest : ∀ c ∈ rest.head?, c.isDigit = false ∧ c ≠ '.') :
    ∃ t', t.parse_number = .ok (some (.Integer i), t') ∧ At t' rest := by
  have hwhole : (more ++ rest).takeWhile Char.isDigit = more :=
    takeWhile_front hdigits fun c hc => (hrest c hc).1
  have hbehind : (more ++ rest).dropWhile Char.isDigit = rest := by
    have hsplit := List.takeWhile_append_dropWhile (p := Char.isDigit) (l := more ++ rest)
    rw [hwhole] at hsplit
    exact List.append_cancel_left hsplit
  have hlen : utf8_len (first :: more) = 1 + more.length := by
    rw [utf8_len_cons, utf8Size_numberStart hfirst, utf8_len_digits hdigits]
  have hpoint : ((more ++ rest).dropWhile Char.isDigit).head? ≠ some '.' := by
    rw [hbehind]
    intro hdot
    exact (hrest '.' hdot).2 rfl
  have hloop := number_loop_plain hfirst hpoint
  rw [hwhole, ← hlen] at hloop
  have hvalue : parse_i64 (first :: more) = .ok i := parse_i64_ok.2 hspells
  have hone : utf8_len (first :: more) = 1 → first.isDigit = true := by
    intro hone
    have hnone : more = [] := List.length_eq_zero_iff.1 (by omega)
    -- a sign alone is no number
    rcases hfirst with hdigit | rfl | rfl
    · exact hdigit
    · rw [hnone] at hvalue
      cases hvalue
    · rw [hnone] at hvalue
      cases hvalue
  have htrim : trim_start (first :: more ++ rest) = first :: more ++ rest :=
    trim_start_gap gap_nil (solid_of_value hspells) rest
  obtain ⟨t', hrun, hat'⟩ := parse_number_eq htrim hat hloop (by omega) hone
  refine ⟨t', ?_, hat'⟩
  rw [hrun, hvalue]
  rfl

/-- A number begins with a digit or a sign, and digits follow. -/
theorem integer_front {i : Int64} (h : SpellsValue (.Integer i) cs) :
    ∃ first more, cs = first :: more ∧ NumberStart first ∧ ∀ c ∈ more, c.isDigit = true := by
  obtain ⟨sign, digits, rfl, hne, hdigits, -⟩ := h
  cases sign with
  | Plain =>
    obtain ⟨d, ds, rfl⟩ := List.exists_cons_of_ne_nil hne
    obtain ⟨hd, hds⟩ := List.forall_mem_cons.1 hdigits
    exact ⟨d, ds, rfl, Or.inl hd, hds⟩
  | Plus => exact ⟨'+', digits, rfl, Or.inr (Or.inr rfl), hdigits⟩
  | Minus => exact ⟨'-', digits, rfl, Or.inr (Or.inl rfl), hdigits⟩

theorem not_quote_of_alpha {c : Char} (h : c.isAlpha = true) : ¬ (c = '\'' ∨ c = '"') := by
  rintro (rfl | rfl)
  · cases h
  · cases h

theorem not_quote_of_numberStart {c : Char} (h : NumberStart c) : ¬ (c = '\'' ∨ c = '"') := by
  rintro (rfl | rfl)
  · revert h
    unfold NumberStart
    decide
  · revert h
    unfold NumberStart
    decide

theorem not_alpha_of_numberStart {c : Char} (h : NumberStart c) : ¬ c.isAlpha = true := by
  intro halpha
  rcases h with hdigit | rfl | rfl
  · rw [not_digit_of_alpha halpha] at hdigit
    cases hdigit
  · cases halpha
  · cases halpha

/-- A word in front of other characters begins with a letter. -/
theorem AnyCase.front {word : List Char} (h : AnyCase word cs) (hne : word ≠ [])
    (halpha : ∀ c ∈ word, c.isAlpha = true) : ∃ c more, cs = c :: more ∧ c.isAlpha = true := by
  obtain ⟨c, more, rfl⟩ := List.exists_cons_of_ne_nil (h.solid hne halpha).ne
  exact ⟨c, more, rfl, h.alpha halpha c List.mem_cons_self⟩

/-- The first character tells which reader is called, and that reads the value. -/
theorem next_value_reads {v : SqlValue} {t' : Tokenizer} (hskip : t.skip_whitespace = .ok t')
    (hat : At t' (cs ++ rest)) (hspells : SpellsValue v cs)
    (hword : (Token.value v).IsWord → ∀ c ∈ rest.head?, ident_char c = false)
    (hrest : ∀ c ∈ rest.head?, c.isDigit = false ∧ c ≠ '.' ∧ c ≠ '\'') :
    ∃ t'', t.next_value = .ok (some v, t'') ∧ At t'' rest := by
  unfold Tokenizer.next_value
  rw [hskip, run_bind_ok, hat.remaining, run_bind_ok]
  cases v with
  | Integer i =>
    obtain ⟨first, more, rfl, hfirst, hdigits⟩ := integer_front hspells
    simp only [List.cons_append, if_neg (not_quote_of_numberStart hfirst),
      if_neg (not_alpha_of_numberStart hfirst)]
    have hkind : first.isDigit = true ∨ first = '-' ∨ first = '+' := hfirst
    rw [if_pos hkind]
    exact parse_number_reads hfirst hspells hdigits hat fun c hc =>
      ⟨(hrest c hc).1, (hrest c hc).2.1⟩
  | Float f => exact hspells.elim
  | String s =>
    subst hspells
    have hclosed : rest.head? ≠ some '\'' := fun h => (hrest '\'' h).2.2 rfl
    obtain ⟨t'', hread, hat'⟩ := parse_string_literal_reads hat hclosed
    rw [String.ofList_toList] at hread
    exact ⟨t'', hread, hat'⟩
  | Boolean b =>
    have hne : (if b then "TRUE".toList else "FALSE".toList) ≠ [] := by cases b <;> simp
    obtain ⟨c, more, rfl, hc⟩ := AnyCase.front hspells hne (truth_alpha b)
    simp only [List.cons_append, if_neg (not_quote_of_alpha hc), if_pos hc]
    exact parse_keyword_value_reads hspells hne (truth_alpha b) (by cases b <;> rfl)
      (by cases b <;> rfl) hat (hword trivial)
  | Null =>
    have hne : "NULL".toList ≠ [] := by simp
    obtain ⟨c, more, rfl, hc⟩ := AnyCase.front hspells hne null_alpha
    simp only [List.cons_append, if_neg (not_quote_of_alpha hc), if_pos hc]
    exact parse_keyword_value_reads hspells hne null_alpha rfl rfl hat (hword trivial)

theorem Stands.next_value {v : SqlValue} (h : Stands t (.value v :: toks))
    (hafter : AfterValue toks) : ∃ t', t.next_value = .ok (some v, t') ∧ Stands t' toks := by
  obtain ⟨t', cs, rest, hskip, hat, hspells, hrest, hword⟩ := h.skip
  obtain ⟨t'', hread, hat'⟩ := next_value_reads hskip hat hspells hword fun c hc =>
    hafter.head hrest hc
  exact ⟨t'', hread, rest, hat', hrest⟩

/-! ### The end -/

theorem Stands.ensure_finished (h : Stands t []) (statement : String) :
    t.ensure_finished statement = .ok () := by
  obtain ⟨s, hat, hwritten⟩ := h
  obtain ⟨t', hskip, hat'⟩ := skip_whitespace_at hat
  rw [hwritten.blank] at hat'
  have hend := slice_from_len hat'
  rw [utf8_len_nil, Nat.add_zero] at hend
  unfold Tokenizer.ensure_finished
  rw [hskip, run_bind_ok, if_pos hend]

/-- There is fuel for every token. -/
theorem Stands.length_lt (h : Stands t toks) : toks.length < t.rounds := by
  obtain ⟨s, hat, hwritten⟩ := h
  exact hwritten.length_le.trans_lt hat.length_lt

end Tokens

/-! ## Lists -/

section Peeking

variable {t : Tokenizer} {tok : Token} {toks : List Token} {c : Char}

/-- The first character of the first token is seen. -/
theorem Stands.skip_peek (β : Type) (h : Stands t (tok :: toks)) : ∃ t' d,
    (∀ k : Option Char × Tokenizer → Run β,
      (t.skip_whitespace >>= fun t => t.peek_char >>= k) = k (some d, t'))
    ∧ Stands t' (tok :: toks) ∧ ∃ cs, Spells tok cs ∧ cs.head? = some d := by
  obtain ⟨s, hat, hwritten⟩ := h
  obtain ⟨t', hpeek, hat'⟩ := skip_peek_at (β := β) hat
  obtain ⟨cs, rest, hs, hspells, -, -⟩ := hwritten.front
  obtain ⟨d, more, rfl⟩ := List.exists_cons_of_ne_nil hspells.solid.ne
  rw [hs, List.cons_append, List.head?_cons] at hpeek
  exact ⟨t', d, hpeek, ⟨_, hat', hwritten.trim_start⟩, _, hspells, rfl⟩

theorem symbol_front {s : List Char} (h : Written (.symbol c :: toks) s) :
    ∃ rest, trim_start s = c :: rest ∧ c.utf8Size = 1 ∧ Written toks rest := by
  obtain ⟨cs, rest, hs, ⟨rfl, hc⟩, hrest, -⟩ := h.front
  refine ⟨rest, hs, ?_, hrest⟩
  simp only [symbols, List.mem_cons, List.not_mem_nil, or_false] at hc
  rcases hc with rfl | rfl | rfl | rfl <;> rfl

/-- A symbol is seen, and one byte further on it is read. -/
theorem Stands.skip_peek_symbol (β : Type) (h : Stands t (.symbol c :: toks)) : ∃ t',
    (∀ k : Option Char × Tokenizer → Run β,
      (t.skip_whitespace >>= fun t => t.peek_char >>= k) = k (some c, t'))
    ∧ Stands t' (.symbol c :: toks) ∧ Stands (t'.advance 1) toks := by
  obtain ⟨s, hat, hwritten⟩ := h
  obtain ⟨rest, hs, hsize, hrest⟩ := symbol_front hwritten
  obtain ⟨t', hpeek, hat'⟩ := skip_peek_at (β := β) hat
  have hstands : Stands t' (.symbol c :: toks) := ⟨_, hat', hwritten.trim_start⟩
  rw [hs] at hpeek hat'
  refine ⟨t', hpeek, hstands, rest, ?_, hrest⟩
  rw [← hsize]
  exact hat'.advance_char

theorem Stands.peek_symbol (h : Stands t (.symbol c :: toks)) :
    ∃ t', t.peek_char = .ok (some c, t') ∧ Stands (t'.advance 1) toks := by
  obtain ⟨s, hat, hwritten⟩ := h
  obtain ⟨rest, hs, hsize, hrest⟩ := symbol_front hwritten
  obtain ⟨t', hpeek, hat'⟩ := peek_char_at hat
  rw [hs] at hpeek hat'
  refine ⟨t', hpeek, rest, ?_, hrest⟩
  rw [← hsize]
  exact hat'.advance_char

end Peeking

section Lists

variable {α : Type} {tok : α → Token} {next : Tokenizer → Run (Option α × Tokenizer)}
  (hnext : ∀ {t a toks}, Stands t (tok a :: toks) → AfterValue toks →
    ∃ t', next t = .ok (some a, t') ∧ Stands t' toks)
  (hopen : ∀ {a cs}, Spells (tok a) cs → cs.head? ≠ some ')')
  {t : Tokenizer} {toks : List Token}
include hnext hopen

/-- An item is read, and the loop looks at what follows it. -/
theorem paren_loop_item {a : α} {c : Char} (read : List α) (fuel : Nat)
    (h : Stands t (tok a :: .symbol c :: toks)) (hafter : AfterValue (.symbol c :: toks)) :
    ∃ t', Stands t' (.symbol c :: toks) ∧ Stands (t'.advance 1) toks
      ∧ Tokenizer.paren_loop next t read (fuel + 1) =
        if some c = some ',' then Tokenizer.paren_loop next (t'.advance 1) (read ++ [a]) fuel
        else do
          let (peeked, self) ← t'.peek_char
          if peeked = some ')' then return (some (read ++ [a]), self.advance 1)
          else return (none, self) := by
  obtain ⟨t₁, d, hpeek₁, hstands₁, cs, hspells, hd⟩ := h.skip_peek (Option (List α) × Tokenizer)
  obtain ⟨t₂, hread, hstands₂⟩ := hnext hstands₁ hafter
  obtain ⟨t₃, hpeek₃, hstands₃, hbehind⟩ := hstands₂.skip_peek_symbol (Option (List α) × Tokenizer)
  have hitem : ¬ some d = some ')' := by
    rw [← hd]
    exact hopen hspells
  refine ⟨t₃, hstands₃, hbehind, ?_⟩
  rw [Tokenizer.paren_loop, hpeek₁]
  simp only [if_neg hitem, hread, run_bind_ok, hpeek₃]

/-- The items are read one after the other. -/
theorem paren_loop_reads {items : List α} {fuel : Nat} (read : List α)
    (h : Stands t (items_tokens (items.map tok) ++ toks)) (hfuel : items.length < fuel) :
    ∃ t', Tokenizer.paren_loop next t read fuel = .ok (some (read ++ items), t')
      ∧ Stands t' toks := by
  obtain ⟨rounds, rfl⟩ := exists_round hfuel
  induction items generalizing t read rounds with
  | nil =>
    obtain ⟨t', hpeek, -, hbehind⟩ := h.skip_peek_symbol (Option (List α) × Tokenizer)
    refine ⟨_, ?_, hbehind⟩
    rw [Tokenizer.paren_loop, hpeek, List.append_nil]
    rfl
  | cons a items ih =>
    rcases items with _ | ⟨b, items⟩
    · obtain ⟨t', hstands, -, hloop⟩ := paren_loop_item hnext hopen read rounds h (Or.inr rfl)
      obtain ⟨t'', hpeek, hbehind⟩ := hstands.peek_symbol
      refine ⟨_, ?_, hbehind⟩
      rw [hloop, if_neg (by decide), hpeek]
      rfl
    · rw [List.length_cons] at hfuel
      obtain ⟨rounds, rfl⟩ : ∃ k, rounds = k + 1 := ⟨rounds - 1, by
        rw [List.length_cons] at hfuel
        omega⟩
      obtain ⟨t', -, hbehind, hloop⟩ := paren_loop_item hnext hopen read (rounds + 1) h
        (Or.inl rfl)
      obtain ⟨t'', hrest, hstands⟩ := ih (read ++ [a]) hbehind rounds (by omega)
      refine ⟨t'', ?_, hstands⟩
      rw [hloop, if_pos rfl, hrest, List.append_assoc, List.singleton_append]

omit hnext hopen in
theorem length_le_items_tokens (items : List Token) : items.length ≤ (items_tokens items).length := by
  fun_induction items_tokens items with
  | case1 => exact Nat.zero_le _
  | case2 item => exact Nat.le_add_left 1 1
  | case3 item next items ih =>
    simp only [List.length_cons] at ih ⊢
    omega

/-- A list in parentheses is read whole. -/
theorem Stands.next_paren {items : List α} (h : Stands t (list_tokens (items.map tok) ++ toks)) :
    ∃ t', t.next_paren next = .ok (some items, t') ∧ Stands t' toks := by
  obtain ⟨t', cs, rest, hskip, hat, ⟨rfl, -⟩, hrest, -⟩ := h.skip
  have hstands : Stands (t'.advance 1) (items_tokens (items.map tok) ++ toks) :=
    Stands.advance hat hrest
  have hfuel : items.length < (t'.advance 1).rounds := by
    have hlt := hstands.length_lt
    have hle := length_le_items_tokens (items.map tok)
    rw [List.length_append] at hlt
    rw [List.length_map] at hle
    omega
  obtain ⟨t'', hloop, hstands'⟩ := paren_loop_reads hnext hopen [] hstands hfuel
  refine ⟨t'', ?_, hstands'⟩
  have hfront : ['('].isPrefixOf (['('] ++ rest) = true := by simp
  unfold Tokenizer.next_paren
  rw [hskip, run_bind_ok, hat.remaining, run_bind_ok, if_pos hfront]
  exact hloop

end Lists

section Items

variable {t : Tokenizer} {toks : List Token}

theorem Stands.next_paren_list {columns : List String}
    (h : Stands t (list_tokens (columns.map .name) ++ toks)) :
    ∃ t', t.next_paren_list = .ok (some columns, t') ∧ Stands t' toks := by
  refine Stands.next_paren (fun h _ => h.next_identifier) ?_ h
  rintro name cs ⟨-, hident⟩ hfirst
  have hclose := hident.ident ')' (List.mem_of_mem_head? hfirst)
  cases hclose

theorem Stands.next_paren_values {values : List SqlValue}
    (h : Stands t (list_tokens (values.map .value) ++ toks)) :
    ∃ t', t.next_paren_values = .ok (some values, t') ∧ Stands t' toks := by
  refine Stands.next_paren (fun h hafter => h.next_value hafter) ?_ h
  intro v cs hspells hfirst
  have hkind := value_first hspells hfirst
  revert hkind
  decide

end Items

end SqlWriting

end Scharnhorst
