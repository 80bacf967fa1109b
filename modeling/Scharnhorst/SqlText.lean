/-
The tokens of the debug SQL, as a text is read.

Here is no position and no byte. A token is what stands at the front of a text, after white space,
and reading one leaves the text behind it or nothing if there is none. Every method of the
tokenizer does this to the text at its position: where the text has the token, the method returns
something and stands behind it, and where it has not, the method returns nothing. No slice fails
on the way and no loop runs out of rounds, since a loop goes on behind at least one character.

The exception is a keyword. Its length is cut off before the text is compared with it, and if a
character stands across that length, the slice fails.
-/
import Scharnhorst.SqlParser
import Mathlib.Data.List.DropRight

set_option autoImplicit false

namespace Scharnhorst

/-! ## Tokens -/

namespace SqlText

def identifier (s : List Char) : Option (List Char) :=
  match trim_start s with
  | [] => none
  | c :: cs => if ident_start c then some (cs.dropWhile ident_char) else none

/-- The word in either case, and no letter, digit or underscore after it. -/
def keyword (word s : List Char) : Option (List Char) :=
  if eq_ignore_ascii_case ((trim_start s).take word.length) word then
    match (trim_start s).drop word.length with
    | [] => some []
    | c :: cs => if ident_char c then none else some (c :: cs)
  else none

def operator (op s : List Char) : Option (List Char) :=
  if op.isPrefixOf (trim_start s) then some ((trim_start s).drop op.length) else none

def comparison (s : List Char) : Option (List Char) :=
  (Tokenizer.comparison_token (trim_start s)).map fun token => (trim_start s).drop token.2

/-- Behind the closing quote; a doubled quote is none. -/
def closed (quote : Char) : List Char → Option (List Char)
  | [] => none
  | c :: cs =>
    if c = quote then
      match cs with
      | [] => some []
      | d :: ds => if d = quote then closed quote ds else some (d :: ds)
    else closed quote cs

def truth_or_null (s : List Char) : Option (List Char) :=
  (Tokenizer.keyword_value (to_ascii_uppercase (s.takeWhile Char.isAlpha))).map fun _ =>
    s.dropWhile Char.isAlpha

/-- A digit or a sign, digits, and maybe a point and more digits. Without a point it has to be an
`i64`, with one there has to be a digit. -/
def number (first : Char) (s : List Char) : Option (List Char) :=
  let whole := s.takeWhile Char.isDigit
  match s.dropWhile Char.isDigit with
  | '.' :: cs =>
    let fraction := cs.takeWhile Char.isDigit
    if first.isDigit || !whole.isEmpty || !fraction.isEmpty then some (cs.dropWhile Char.isDigit)
    else none
  | cs => if (parse_i64 (first :: whole)).toOption.isSome then some cs else none

def value (s : List Char) : Option (List Char) :=
  match trim_start s with
  | [] => none
  | c :: cs =>
    if c = '\'' ∨ c = '"' then closed c cs
    else if c.isAlpha then truth_or_null (c :: cs)
    else if c.isDigit ∨ c = '-' ∨ c = '+' then number c cs
    else none

/-- Items between commas, up to the closing parenthesis. An item shortens the text. -/
def items (item : List Char → Option (List Char)) (s : List Char) : Option (List Char) :=
  match trim_start s with
  | ')' :: cs => some cs
  | _ =>
    match item s with
    | none => none
    | some behind =>
      match trim_start behind with
      | ',' :: cs => if _h : cs.length < s.length then items item cs else none
      | ')' :: cs => some cs
      | _ => none
termination_by s.length

def list (item : List Char → Option (List Char)) (s : List Char) : Option (List Char) :=
  match trim_start s with
  | '(' :: cs => items item cs
  | _ => none

end SqlText

/-! ## Where a tokenizer stands -/

@[simp] theorem run_bind_ok {α β : Type} (a : α) (f : α → Run β) :
    ((.ok a : Run α) >>= f) = f a := rfl

/-- In front of `s`, between two characters. -/
def At (t : Tokenizer) (s : List Char) : Prop := slice_from t.input t.pos = some s

/-- Something was read, up to the text behind it, or nothing. -/
def Follows {α : Type} (run : Run (Option α × Tokenizer)) (behind : Option (List Char)) : Prop :=
  match behind with
  | some s => ∃ a t, run = .ok (some a, t) ∧ At t s
  | none => ∃ t, run = .ok (none, t)

/-- The same where only the tokenizer and whether something was read is returned. -/
def Consumes (run : Run (Bool × Tokenizer)) (behind : Option (List Char)) : Prop :=
  match behind with
  | some s => ∃ t, run = .ok (true, t) ∧ At t s
  | none => ∃ t, run = .ok (false, t)

section Positions

variable {t : Tokenizer} {s : List Char}

theorem at_new (input : List Char) : At (.new input) input := slice_from_zero

theorem At.remaining (h : At t s) : t.remaining = .ok s := by
  unfold Tokenizer.remaining
  rw [h]

theorem At.advance {front : List Char} {n : Nat} (h : At t (front ++ s))
    (hn : n = utf8_len front) : At (t.advance n) s := by
  rw [hn]
  exact slice_from_add h

theorem At.advance_char {c : Char} (h : At t (c :: s)) : At (t.advance c.utf8Size) s := by
  have hfront : At t ([c] ++ s) := h
  exact hfront.advance (by simp)

theorem At.pos_lt (h : At t s) (hne : s ≠ []) : t.pos < utf8_len t.input := by
  obtain ⟨c, cs, rfl⟩ := List.exists_cons_of_ne_nil hne
  have hlen := slice_from_len h
  have hpos := c.utf8Size_pos
  rw [utf8_len_cons] at hlen
  omega

theorem At.pos_eq (h : At t []) : ¬ t.pos < utf8_len t.input := by
  have hlen := slice_from_len h
  rw [utf8_len_nil] at hlen
  omega

theorem At.length_lt (h : At t s) : s.length < t.rounds := by
  have hlen := slice_from_len h
  have hle := length_le_utf8_len s
  unfold Tokenizer.rounds
  omega

/-- There is fuel for one round. -/
theorem exists_round {length fuel : Nat} (h : length < fuel) : ∃ rounds, fuel = rounds + 1 :=
  Nat.exists_eq_succ_of_ne_zero (Nat.ne_zero_of_lt h)

theorem skip_loop_at {fuel : Nat} (h : At t s) (hfuel : s.length < fuel) :
    ∃ t', t.skip_loop fuel = .ok t' ∧ At t' (trim_start s) := by
  induction s generalizing t fuel with
  | nil =>
    obtain ⟨fuel, rfl⟩ := exists_round hfuel
    refine ⟨t, ?_, h⟩
    rw [Tokenizer.skip_loop, if_neg h.pos_eq]
  | cons c s ih =>
    rw [List.length_cons] at hfuel
    obtain ⟨fuel, rfl⟩ := exists_round hfuel
    rw [Tokenizer.skip_loop, if_pos (h.pos_lt (by simp)), h.remaining, run_bind_ok]
    unfold trim_start
    -- one space is a round, and the rest of the text is shorter
    by_cases hspace : char_is_whitespace c = true
    · rw [List.headD_cons, if_pos hspace, List.dropWhile_cons_of_pos hspace]
      exact ih h.advance_char (by omega)
    · rw [List.headD_cons, if_neg hspace, List.dropWhile_cons_of_neg hspace]
      exact ⟨t, rfl, h⟩

theorem skip_whitespace_at (h : At t s) :
    ∃ t', t.skip_whitespace = .ok t' ∧ At t' (trim_start s) := skip_loop_at h h.length_lt

theorem trim_start_idem (s : List Char) : trim_start (trim_start s) = trim_start s :=
  List.dropWhile_idempotent char_is_whitespace s

/-! ## Tokens read -/

theorem peek_char_at (h : At t s) :
    ∃ t', t.peek_char = .ok ((trim_start s).head?, t') ∧ At t' (trim_start s) := by
  obtain ⟨t', hskip, hat⟩ := skip_whitespace_at h
  refine ⟨t', ?_, hat⟩
  rw [Tokenizer.peek_char, hskip, run_bind_ok, hat.remaining, run_bind_ok]
  rfl

theorem prefix_of_append (front s : List Char) :
    Tokenizer.prefix_of (front ++ s) (utf8_len front) = .ok front := by
  rw [Tokenizer.prefix_of, slice_to_append]

/-- The index of the first character that is not of a kind is the length of those before it. -/
theorem find_index_not (p : Char → Bool) (cs : List Char) :
    (find_index (fun c => !p c) cs).getD (utf8_len cs) = utf8_len (cs.takeWhile p) := by
  induction cs with
  | nil => rfl
  | cons c cs ih =>
    rw [find_index]
    by_cases hp : p c = true
    · rw [hp, List.takeWhile_cons_of_pos hp, utf8_len_cons, utf8_len_cons, ← ih]
      rcases find_index (fun c => !p c) cs with _ | i <;> rfl
    · rw [Bool.eq_false_iff.2 hp, List.takeWhile_cons_of_neg hp]
      rfl

theorem ident_char_of_start {c : Char} (h : ident_start c = true) : ident_char c = true := by
  unfold ident_start at h
  unfold ident_char Char.isAlphanum
  rw [Bool.or_right_comm, h, Bool.true_or]

theorem next_identifier_at (h : At t s) :
    Follows t.next_identifier (SqlText.identifier s) := by
  obtain ⟨t', hskip, hat⟩ := skip_whitespace_at h
  unfold Tokenizer.next_identifier SqlText.identifier
  rw [hskip, run_bind_ok, hat.remaining, run_bind_ok]
  generalize trim_start s = rest at hat ⊢
  rcases rest with _ | ⟨c, cs⟩
  · exact ⟨t', rfl⟩
  · -- what is cut off is the run of identifier characters, whole
    by_cases hstart : ident_start c = true
    · have hfirst : (c :: cs).takeWhile ident_char = c :: cs.takeWhile ident_char :=
        List.takeWhile_cons_of_pos (ident_char_of_start hstart)
      have hsplit : c :: cs = (c :: cs).takeWhile ident_char ++ cs.dropWhile ident_char := by
        rw [hfirst, List.cons_append, List.takeWhile_append_dropWhile]
      have hfront := prefix_of_append ((c :: cs).takeWhile ident_char) (cs.dropWhile ident_char)
      rw [← hsplit] at hfront
      simp only [hstart, find_index_not, hfront]
      refine ⟨_, _, rfl, ?_⟩
      rw [hsplit] at hat
      exact hat.advance rfl
    · simp only [hstart]
      exact ⟨t', rfl⟩

/-! ### Operators -/

theorem consume_operator_at {op : List Char} (h : At t s) :
    Consumes (t.consume_operator op) (SqlText.operator op s) := by
  obtain ⟨t', hskip, hat⟩ := skip_whitespace_at h
  unfold Tokenizer.consume_operator SqlText.operator
  rw [hskip, run_bind_ok, hat.remaining, run_bind_ok]
  generalize trim_start s = rest at hat ⊢
  by_cases hop : op.isPrefixOf rest = true
  · -- the operator is a prefix, so its length is a position
    obtain ⟨behind, rfl⟩ := List.isPrefixOf_iff_prefix.1 hop
    rw [if_pos hop, if_pos hop, List.drop_left]
    exact ⟨_, rfl, hat.advance rfl⟩
  · rw [if_neg hop, if_neg hop]
    exact ⟨t', rfl⟩

/-- The characters of an operator are one byte each. -/
theorem comparison_token_front {rest : List Char} {op : ComparisonOp} {len : Nat}
    (h : Tokenizer.comparison_token rest = some (op, len)) :
    ∃ front behind, rest = front ++ behind ∧ len = utf8_len front ∧ rest.drop len = behind := by
  unfold Tokenizer.comparison_token at h
  split at h
  case h_8 => cases h
  all_goals
    rename_i cs
    cases h
  iterate 4 exact ⟨[_, _], cs, rfl, rfl, rfl⟩
  all_goals exact ⟨[_], _, rfl, rfl, rfl⟩

theorem next_comparison_op_at (h : At t s) :
    Follows t.next_comparison_op (SqlText.comparison s) := by
  obtain ⟨t', hskip, hat⟩ := skip_whitespace_at h
  unfold Tokenizer.next_comparison_op SqlText.comparison
  rw [hskip, run_bind_ok, hat.remaining, run_bind_ok]
  generalize trim_start s = rest at hat ⊢
  rcases htoken : Tokenizer.comparison_token rest with _ | ⟨op, len⟩
  · exact ⟨t', rfl⟩
  · obtain ⟨front, behind, rfl, hlen, hdrop⟩ := comparison_token_front htoken
    rw [Option.map_some, hdrop]
    exact ⟨_, _, rfl, hat.advance hlen⟩

/-! ### Keywords -/

theorem toLower_ascii {c : Char} (h : c.toLower.toNat < 128) : c.toNat < 128 := by
  unfold Char.toLower at h
  split at h
  · rename_i hupper
    have hle : c.toNat ≤ 90 := UInt32.le_iff_toNat_le.1 hupper.2
    omega
  · exact h

/-- A word in ASCII, with letters in either case. -/
def Ascii (word : List Char) : Prop := ∀ c ∈ word, c.toLower.toNat < 128

instance (word : List Char) : Decidable (Ascii word) :=
  List.decidableBAll (fun c : Char => c.toLower.toNat < 128) word

/-- What is equal to an ASCII text in either case is as long, in characters and in bytes. -/
theorem ascii_of_eq_ignore_case {cs word : List Char} (hword : Ascii word)
    (h : eq_ignore_ascii_case cs word = true) :
    cs.length = word.length ∧ utf8_len cs = word.length := by
  have hmap : cs.map Char.toLower = word.map Char.toLower := eq_of_beq h
  clear h
  induction cs generalizing word with
  | nil =>
    rw [List.map_nil, eq_comm, List.map_eq_nil_iff] at hmap
    rw [hmap]
    exact ⟨rfl, rfl⟩
  | cons c cs ih =>
    rcases word with _ | ⟨d, word⟩
    · cases hmap
    · obtain ⟨hd, hrest⟩ := List.forall_mem_cons.1 hword
      obtain ⟨hcd, hmap'⟩ := List.cons.inj hmap
      obtain ⟨hlen, hbytes⟩ := ih hrest hmap'
      have hc : c.utf8Size = 1 := by
        apply utf8Size_ascii
        apply toLower_ascii
        rw [hcd]
        exact hd
      rw [List.length_cons, List.length_cons, utf8_len_cons, hc, hbytes, hlen]
      exact ⟨rfl, Nat.add_comm _ _⟩

theorem consume_keyword_straddles {word : List Char} (h : At t s)
    (hcut : Straddles (trim_start s) (utf8_len word)) :
    t.consume_keyword word = .error .Panic := by
  obtain ⟨t', hskip, hat⟩ := skip_whitespace_at h
  unfold Tokenizer.consume_keyword
  rw [hskip, run_bind_ok, hat.remaining, run_bind_ok]
  generalize trim_start s = rest at hat hcut ⊢
  -- what stands across the length has bytes behind it
  have hlen : utf8_len word ≤ utf8_len rest := by
    obtain ⟨before, c, after, rfl, -, hhigh⟩ := hcut
    rw [utf8_len_append, utf8_len_cons]
    omega
  have hnone : Tokenizer.prefix_of rest (utf8_len word) = .error .Panic := by
    rw [Tokenizer.prefix_of, slice_to_straddles hcut]
  rw [if_pos hlen, hnone]
  rfl

theorem consume_keyword_at {word : List Char} (hword : Ascii word)
    (h : At t s) (hcut : ¬ Straddles (trim_start s) (utf8_len word)) :
    Consumes (t.consume_keyword word) (SqlText.keyword word s) := by
  obtain ⟨t', hskip, hat⟩ := skip_whitespace_at h
  have hself : eq_ignore_ascii_case word word = true := beq_self_eq_true _
  have hlen : utf8_len word = word.length := (ascii_of_eq_ignore_case hword hself).2
  unfold Tokenizer.consume_keyword SqlText.keyword
  rw [hskip, run_bind_ok, hat.remaining, run_bind_ok]
  rw [hlen] at hcut ⊢
  generalize trim_start s = rest at hat hcut ⊢
  by_cases hlong : word.length ≤ utf8_len rest
  · -- nothing is cut, so the slice is there
    obtain ⟨front, behind, rfl, hfront⟩ := slice_to_in hlong hcut
    have hprefix := prefix_of_append front behind
    rw [hfront] at hprefix
    rw [if_pos hlong, hprefix, run_bind_ok]
    by_cases heq : eq_ignore_ascii_case front word = true
    · have hchars := (ascii_of_eq_ignore_case hword heq).1
      have hat' : At (t'.advance word.length) behind := hat.advance hfront.symm
      rw [if_pos heq, ← hchars, List.take_left, if_pos heq, List.drop_left, hchars]
      rcases behind with _ | ⟨c, cs⟩
      · rw [List.append_nil, if_pos hfront]
        exact ⟨_, rfl, hat'⟩
      · -- the byte behind the keyword is looked at
        have hmore : ¬ utf8_len (front ++ c :: cs) = word.length := by
          have hpos := c.utf8Size_pos
          rw [utf8_len_append, utf8_len_cons]
          omega
        rw [if_neg hmore, hat'.remaining, run_bind_ok, List.headD_cons]
        by_cases hident : ident_char c = true
        · rw [if_pos hident]
          simp only [hident]
          exact ⟨_, rfl⟩
        · rw [if_neg hident]
          simp only [hident]
          exact ⟨_, rfl, hat'⟩
    · -- as many characters as the word has may be more bytes
      have hne : ¬ eq_ignore_ascii_case ((front ++ behind).take word.length) word = true := by
        intro htake
        have hbytes := (ascii_of_eq_ignore_case hword htake).2
        have hslice := slice_to_append ((front ++ behind).take word.length)
          ((front ++ behind).drop word.length)
        rw [List.take_append_drop, hbytes, ← hfront, slice_to_append] at hslice
        rw [hfront] at hslice
        rw [← Option.some.inj hslice] at htake
        exact heq htake
      rw [if_neg heq, if_neg hne]
      exact ⟨_, rfl⟩
  · have hne : ¬ eq_ignore_ascii_case (rest.take word.length) word = true := by
      intro htake
      have hbytes := (ascii_of_eq_ignore_case hword htake).2
      have hsum := utf8_len_append (rest.take word.length) (rest.drop word.length)
      rw [List.take_append_drop] at hsum
      omega
    rw [if_neg hlong, if_neg hne]
    exact ⟨_, rfl⟩

/-! ### Values -/

section Strings

variable {quote : Char} {start fuel : Nat} {body : List Char}

theorem escaped_quote_at {cs : List Char} (h : At t (quote :: cs)) :
    t.escaped_quote quote = .ok (cs.head? == some quote) := by
  have hnext : At (t.advance quote.utf8Size) cs := h.advance_char
  unfold Tokenizer.escaped_quote
  rcases cs with _ | ⟨d, ds⟩
  · exact if_neg hnext.pos_eq
  · have hmore : t.pos + quote.utf8Size < utf8_len t.input := hnext.pos_lt (by simp)
    rw [if_pos hmore, hnext.remaining, run_bind_ok]
    rfl

/-- Behind what was read from `start` on. -/
theorem at_behind (hstart : slice_from t.input start = some (body ++ s))
    (hpos : t.pos = start + utf8_len body) : At t s := by
  unfold At
  rw [hpos]
  exact slice_from_add hstart

/-- The closing quote ends the literal, whose value is what was read from `start` on. -/
theorem string_loop_end {cs : List Char}
    (hstart : slice_from t.input start = some (body ++ quote :: cs))
    (hpos : t.pos = start + utf8_len body) (hcs : cs.head? ≠ some quote) :
    t.string_loop quote start (fuel + 1) =
      .ok (some (.String (.ofList (replace_doubled quote body))), t.advance quote.utf8Size) := by
  have hat := at_behind hstart hpos
  have hbody : At { t with pos := start } (body ++ quote :: cs) := hstart
  have hlen : t.pos - start = utf8_len body := by omega
  have hsingle : ¬ (cs.head? == some quote) = true := fun h => hcs (eq_of_beq h)
  rw [Tokenizer.string_loop, if_pos (hat.pos_lt (by simp)), hat.remaining, run_bind_ok,
    List.headD_cons, if_pos rfl, escaped_quote_at hat, run_bind_ok, if_neg hsingle,
    hbody.remaining, run_bind_ok, hlen, prefix_of_append, run_bind_ok]
  rfl

/-- A doubled quote takes one round. -/
theorem string_loop_quote {ds : List Char} (hat : At t (quote :: quote :: ds)) :
    t.string_loop quote start (fuel + 1) =
      (t.advance (quote.utf8Size * 2)).string_loop quote start fuel := by
  rw [Tokenizer.string_loop, if_pos (hat.pos_lt (by simp)), hat.remaining, run_bind_ok,
    List.headD_cons, if_pos rfl, escaped_quote_at hat, run_bind_ok, if_pos (by simp)]

/-- And so does any other character. -/
theorem string_loop_char {c : Char} {cs : List Char} (hat : At t (c :: cs)) (hc : c ≠ quote) :
    t.string_loop quote start (fuel + 1) =
      (t.advance c.utf8Size).string_loop quote start fuel := by
  rw [Tokenizer.string_loop, if_pos (hat.pos_lt (by simp)), hat.remaining, run_bind_ok,
    List.headD_cons, if_neg hc]

/-- `body` is what the literal holds so far. -/
theorem string_loop_at (hstart : slice_from t.input start = some (body ++ s))
    (hpos : t.pos = start + utf8_len body) (hfuel : s.length < fuel) :
    Follows (t.string_loop quote start fuel) (SqlText.closed quote s) := by
  obtain ⟨rounds, rfl⟩ := exists_round hfuel
  fun_induction SqlText.closed quote s generalizing t rounds body with
  | case1 =>
    -- the text ends before the literal
    have hat := at_behind hstart hpos
    rw [Tokenizer.string_loop, if_neg hat.pos_eq]
    exact ⟨t, rfl⟩
  | case2 =>
    -- the text ends with the quote
    exact ⟨_, _, string_loop_end hstart hpos (by simp), (at_behind hstart hpos).advance_char⟩
  | case3 ds ih =>
    have hat := at_behind hstart hpos
    -- a doubled quote, two characters of the literal
    rw [List.length_cons, List.length_cons] at hfuel
    rw [string_loop_quote hat]
    obtain ⟨rounds, rfl⟩ : ∃ k, rounds = k + 1 := ⟨rounds - 1, by omega⟩
    apply @ih _ (body ++ [quote, quote])
    · rw [List.append_assoc]
      exact hstart
    · change t.pos + quote.utf8Size * 2 = _
      rw [utf8_len_append, utf8_len_cons, utf8_len_cons, utf8_len_nil]
      omega
    · omega
  | case4 d ds hd =>
    exact ⟨_, _, string_loop_end hstart hpos (by simpa using hd),
      (at_behind hstart hpos).advance_char⟩
  | case5 c cs hc ih =>
    have hat := at_behind hstart hpos
    rw [List.length_cons] at hfuel
    rw [string_loop_char hat hc]
    obtain ⟨rounds, rfl⟩ : ∃ k, rounds = k + 1 := ⟨rounds - 1, by omega⟩
    apply @ih _ (body ++ [c])
    · rw [List.append_assoc]
      exact hstart
    · change t.pos + c.utf8Size = _
      rw [utf8_len_append, utf8_len_cons, utf8_len_nil]
      omega
    · omega

end Strings

theorem parse_string_literal_at {quote : Char} {cs : List Char} (hquote : quote.utf8Size = 1)
    (hs : trim_start s = quote :: cs) (h : At t s) :
    Follows (t.parse_string_literal quote) (SqlText.closed quote cs) := by
  obtain ⟨t', hskip, hat⟩ := skip_whitespace_at h
  rw [hs] at hat
  have hfront : [quote].isPrefixOf (quote :: cs) = true := by simp
  have hat' : At (t'.advance 1) cs := by
    rw [← hquote]
    exact hat.advance_char
  unfold Tokenizer.parse_string_literal
  rw [hskip, run_bind_ok, hat.remaining, run_bind_ok, if_pos hfront]
  -- the literal is empty so far
  have hstart : slice_from (t'.advance 1).input (t'.advance 1).pos = some ([] ++ cs) := hat'
  exact string_loop_at hstart rfl hat'.length_lt

theorem parse_keyword_value_at (h : At t s) :
    Follows t.parse_keyword_value (SqlText.truth_or_null (trim_start s)) := by
  obtain ⟨t', hskip, hat⟩ := skip_whitespace_at h
  unfold Tokenizer.parse_keyword_value SqlText.truth_or_null
  rw [hskip, run_bind_ok, hat.remaining, run_bind_ok]
  generalize trim_start s = rest at hat ⊢
  have hbehind : At (t'.advance (utf8_len (rest.takeWhile Char.isAlpha)))
      (rest.dropWhile Char.isAlpha) := by
    have hsplit : At t' (rest.takeWhile Char.isAlpha ++ rest.dropWhile Char.isAlpha) := by
      rw [List.takeWhile_append_dropWhile]
      exact hat
    exact hsplit.advance rfl
  rcases hvalue : Tokenizer.keyword_value (to_ascii_uppercase (rest.takeWhile Char.isAlpha))
    with _ | value
  · simp only [hvalue]
    exact ⟨t', rfl⟩
  · simp only [hvalue]
    exact ⟨_, _, rfl, hbehind⟩

section Numbers

theorem utf8Size_digit {c : Char} (h : c.isDigit = true) : c.utf8Size = 1 := by
  obtain ⟨-, hnine⟩ := Char.isDigit_iff_toNat.1 h
  exact utf8Size_ascii (hnine.trans_lt (by decide))

/-- A run of digits moves the end along. -/
theorem number_loop_digits (cs : List Char) (i : Nat) (has_dot : Bool) :
    Tokenizer.number_loop cs i i has_dot =
      Tokenizer.number_loop (cs.dropWhile Char.isDigit) (i + (cs.takeWhile Char.isDigit).length)
        (i + (cs.takeWhile Char.isDigit).length) has_dot := by
  induction cs generalizing i with
  | nil => rfl
  | cons c cs ih =>
    by_cases hdigit : c.isDigit = true
    · rw [Tokenizer.number_loop, if_pos hdigit, utf8Size_digit hdigit, ih,
        List.dropWhile_cons_of_pos hdigit, List.takeWhile_cons_of_pos hdigit, List.length_cons]
      congr 1 <;> omega
    · rw [List.dropWhile_cons_of_neg hdigit, List.takeWhile_cons_of_neg hdigit]
      rfl

/-- Where no digit comes, only a point goes on, and only the first one. -/
theorem number_loop_stop {cs : List Char} {i : Nat} {has_dot : Bool} (hi : 0 < i)
    (hdigit : ∀ c ∈ cs.head?, c.isDigit = false) (hdot : cs.head? = some '.' → has_dot = true) :
    Tokenizer.number_loop cs i i has_dot = (i, has_dot) := by
  rcases cs with _ | ⟨c, cs⟩
  · rfl
  · have hc : ¬ c.isDigit = true := by
      rw [hdigit c rfl]
      decide
    -- a second point ends the number, and so does a sign inside it
    have hpoint : ¬ (c = '.' ∧ has_dot = false ∧ 0 < i) := by
      rintro ⟨rfl, hfalse, -⟩
      rw [hdot rfl] at hfalse
      cases hfalse
    have hsign : ¬ ((c = '-' ∨ c = '+') ∧ i = 0) := by
      rintro ⟨-, hzero⟩
      omega
    rw [Tokenizer.number_loop, if_neg hc, if_neg hpoint, if_neg hsign]

theorem head_dropWhile_digit (cs : List Char) :
    ∀ c ∈ (cs.dropWhile Char.isDigit).head?, c.isDigit = false := by
  intro c hc
  have hnot := List.head?_dropWhile_not Char.isDigit cs
  rw [Option.mem_def.1 hc] at hnot
  exact hnot

/-- The characters that a number starts with. -/
def NumberStart (c : Char) : Prop := c.isDigit = true ∨ c = '-' ∨ c = '+'

theorem utf8Size_numberStart {c : Char} (h : NumberStart c) : c.utf8Size = 1 := by
  rcases h with hdigit | rfl | rfl
  · exact utf8Size_digit hdigit
  · decide
  · decide

variable {first : Char} {cs more : List Char} (hfirst : NumberStart first)
include hfirst

theorem number_loop_start : Tokenizer.number_loop (first :: cs) 0 0 false =
    Tokenizer.number_loop cs 1 1 false := by
  rw [Tokenizer.number_loop, utf8Size_numberStart hfirst]
  rcases hfirst with hdigit | hsign
  · rw [if_pos hdigit]
  · by_cases hdigit : first.isDigit = true
    · rw [if_pos hdigit]
    · have hpoint : ¬ (first = '.' ∧ false = false ∧ 0 < 0) := by
        rintro ⟨-, -, hzero⟩
        omega
      rw [if_neg hdigit, if_neg hpoint, if_pos ⟨hsign, rfl⟩]

theorem number_loop_plain (hplain : (cs.dropWhile Char.isDigit).head? ≠ some '.') :
    Tokenizer.number_loop (first :: cs) 0 0 false =
      (1 + (cs.takeWhile Char.isDigit).length, false) := by
  rw [number_loop_start hfirst, number_loop_digits]
  apply number_loop_stop (by omega) (head_dropWhile_digit cs)
  intro hdot
  exact absurd hdot hplain

theorem number_loop_point (hpoint : cs.dropWhile Char.isDigit = '.' :: more) :
    Tokenizer.number_loop (first :: cs) 0 0 false =
      (1 + (cs.takeWhile Char.isDigit).length + 1 + (more.takeWhile Char.isDigit).length, true) := by
  have hstep : ∀ i, 0 < i →
      Tokenizer.number_loop ('.' :: more) i i false = Tokenizer.number_loop more (i + 1) (i + 1) true := by
    intro i hi
    rw [Tokenizer.number_loop, if_neg (by decide), if_pos ⟨rfl, rfl, hi⟩]
    rfl
  rw [number_loop_start hfirst, number_loop_digits, hpoint, hstep _ (by omega), number_loop_digits]
  apply number_loop_stop (by omega) (head_dropWhile_digit more)
  intro _
  rfl

omit hfirst in
theorem takeWhile_digits {ds : List Char} (h : ∀ c ∈ ds, c.isDigit = true) (more : List Char) :
    (ds ++ '.' :: more).takeWhile Char.isDigit = ds ∧
      (ds ++ '.' :: more).dropWhile Char.isDigit = '.' :: more := by
  rw [List.takeWhile_append_of_pos h, List.dropWhile_append_of_pos h,
    List.takeWhile_cons_of_neg (by decide), List.dropWhile_cons_of_neg (by decide), List.append_nil]
  exact ⟨rfl, rfl⟩

omit hfirst in
theorem parse_f64_digits {cs ds fraction : List Char} (hcs : (split_sign cs).2 = ds ++ '.' :: fraction)
    (hds : ∀ c ∈ ds, c.isDigit = true) (hfraction : ∀ c ∈ fraction, c.isDigit = true) :
    (parse_f64 cs).isSome = !(ds ++ fraction).isEmpty := by
  obtain ⟨htake, hdrop⟩ := takeWhile_digits hds fraction
  have hall : fraction.all Char.isDigit = true := List.all_eq_true.2 hfraction
  unfold parse_f64
  simp only [hcs, htake, hdrop, hall]
  rcases (ds ++ fraction).isEmpty with _ | _ <;> rfl

omit hfirst in
theorem split_sign_digit (h : first.isDigit = true) (cs : List Char) :
    (split_sign (first :: cs)).2 = first :: cs := by
  have hplus : first ≠ '+' := by
    rintro rfl
    exact absurd h (by decide)
  have hminus : first ≠ '-' := by
    rintro rfl
    exact absurd h (by decide)
  simp [split_sign, hplus, hminus]

/-- Between a sign and the point, or behind it, there is a digit. -/
theorem parse_f64_isSome {whole fraction : List Char} (hwhole : ∀ c ∈ whole, c.isDigit = true)
    (hfraction : ∀ c ∈ fraction, c.isDigit = true) :
    (parse_f64 (first :: whole ++ '.' :: fraction)).isSome =
      (first.isDigit || !whole.isEmpty || !fraction.isEmpty) := by
  -- a digit in front is one of the digits, and a sign is taken off
  by_cases hdigit : first.isDigit = true
  · have hsign : (split_sign (first :: whole ++ '.' :: fraction)).2 =
        (first :: whole) ++ '.' :: fraction := split_sign_digit hdigit _
    rw [parse_f64_digits hsign (List.forall_mem_cons.2 ⟨hdigit, hwhole⟩) hfraction, hdigit]
    rfl
  · have hsign : (split_sign (first :: whole ++ '.' :: fraction)).2 = whole ++ '.' :: fraction := by
      rcases hfirst with hd | rfl | rfl
      · exact absurd hd hdigit
      · rfl
      · rfl
    rw [parse_f64_digits hsign hwhole hfraction, Bool.eq_false_iff.2 hdigit]
    rcases whole with _ | ⟨d, whole⟩ <;> rcases fraction with _ | ⟨e, fraction⟩ <;> rfl

omit hfirst in
/-- A sign alone is no number. -/
theorem parse_number_sign (hs : trim_start s = first :: cs) (h : At t s)
    (hloop : Tokenizer.number_loop (first :: cs) 0 0 false = (1, false))
    (hdigit : first.isDigit = false) : ∃ t', t.parse_number = .ok (none, t') := by
  obtain ⟨t', hskip, hat⟩ := skip_whitespace_at h
  refine ⟨t', ?_⟩
  unfold Tokenizer.parse_number
  rw [hskip, run_bind_ok, hat.remaining, run_bind_ok, hs]
  simp only [hloop, List.headD_cons, hdigit]
  rfl

omit hfirst in
/-- The token that the loop ends behind is what is parsed. -/
theorem parse_number_eq {token behind : List Char} {has_dot : Bool}
    (hs : trim_start s = token ++ behind) (h : At t s)
    (hloop : Tokenizer.number_loop (token ++ behind) 0 0 false = (utf8_len token, has_dot))
    (hpos : utf8_len token ≠ 0)
    (hone : utf8_len token = 1 → ((token ++ behind).headD '\x00').isDigit = true) :
    ∃ t', t.parse_number = .ok (if has_dot then (parse_f64 token).map .Float
        else (parse_i64 token).toOption.map .Integer, t') ∧ At t' behind := by
  obtain ⟨t', hskip, hat⟩ := skip_whitespace_at h
  rw [hs] at hat
  -- the token is no lone sign
  have hlong : ¬ (utf8_len token = 0 ∨
      utf8_len token = 1 ∧ ((token ++ behind).headD '\x00').isDigit = false) := by
    rintro (hzero | ⟨hlen, hno⟩)
    · exact hpos hzero
    · rw [hone hlen] at hno
      cases hno
  refine ⟨_, ?_, hat.advance rfl⟩
  unfold Tokenizer.parse_number
  rw [hskip, run_bind_ok, hat.remaining, run_bind_ok]
  simp only [hloop, if_neg hlong, prefix_of_append, run_bind_ok]
  rfl

omit hfirst in
/-- There is a number if the token can be parsed. -/
theorem parse_number_token {token behind : List Char} {has_dot : Bool}
    (hs : trim_start s = token ++ behind) (h : At t s)
    (hloop : Tokenizer.number_loop (token ++ behind) 0 0 false = (utf8_len token, has_dot))
    (hpos : utf8_len token ≠ 0)
    (hone : utf8_len token = 1 → ((token ++ behind).headD '\x00').isDigit = true) :
    Follows t.parse_number
      (if (if has_dot then (parse_f64 token).isSome else (parse_i64 token).toOption.isSome) then
        some behind else none) := by
  obtain ⟨t', hrun, hat⟩ := parse_number_eq hs h hloop hpos hone
  rw [hrun]
  rcases has_dot with _ | _
  · rcases hvalue : parse_i64 token with e | v
    · exact ⟨_, rfl⟩
    · exact ⟨_, _, rfl, hat⟩
  · rcases hvalue : parse_f64 token with _ | v
    · exact ⟨_, rfl⟩
    · exact ⟨_, _, rfl, hat⟩

theorem parse_number_point (hs : trim_start s = first :: cs) (h : At t s)
    (hpoint : cs.dropWhile Char.isDigit = '.' :: more) :
    Follows t.parse_number (SqlText.number first cs) := by
  have hwhole : ∀ c ∈ cs.takeWhile Char.isDigit, c.isDigit = true := fun c => List.mem_takeWhile_imp
  have hfraction : ∀ c ∈ more.takeWhile Char.isDigit, c.isDigit = true := fun c =>
    List.mem_takeWhile_imp
  have hcs : cs.takeWhile Char.isDigit ++ '.' :: more = cs := by
    rw [← hpoint]
    exact List.takeWhile_append_dropWhile
  have hmore : more.takeWhile Char.isDigit ++ more.dropWhile Char.isDigit = more :=
    List.takeWhile_append_dropWhile
  have htoken : first :: cs = (first :: cs.takeWhile Char.isDigit ++
      '.' :: more.takeWhile Char.isDigit) ++ more.dropWhile Char.isDigit := by
    rw [List.append_assoc, List.cons_append, List.cons_append, hmore, hcs]
  have hlen : utf8_len (first :: cs.takeWhile Char.isDigit ++ '.' :: more.takeWhile Char.isDigit) =
      1 + (cs.takeWhile Char.isDigit).length + 1 + (more.takeWhile Char.isDigit).length := by
    have hdot : Char.utf8Size '.' = 1 := by decide
    rw [utf8_len_append, utf8_len_cons, utf8_len_cons, utf8Size_numberStart hfirst, hdot,
      utf8_len_digits hwhole, utf8_len_digits hfraction]
    omega
  have hloop := number_loop_point hfirst hpoint
  rw [← hlen, htoken] at hloop
  have hnumber : SqlText.number first cs =
      if (parse_f64 (first :: cs.takeWhile Char.isDigit ++ '.' :: more.takeWhile Char.isDigit)).isSome
      then some (more.dropWhile Char.isDigit) else none := by
    rw [parse_f64_isSome hfirst hwhole hfraction]
    unfold SqlText.number
    simp only [hpoint]
  rw [hnumber]
  exact parse_number_token (hs.trans htoken) h hloop (by omega) (by omega)

theorem parse_number_plain (hs : trim_start s = first :: cs) (h : At t s)
    (hplain : (cs.dropWhile Char.isDigit).head? ≠ some '.') :
    Follows t.parse_number (SqlText.number first cs) := by
  have hwhole : ∀ c ∈ cs.takeWhile Char.isDigit, c.isDigit = true := fun c => List.mem_takeWhile_imp
  have hlen : utf8_len (first :: cs.takeWhile Char.isDigit) =
      1 + (cs.takeWhile Char.isDigit).length := by
    rw [utf8_len_cons, utf8Size_numberStart hfirst, utf8_len_digits hwhole]
  have htoken : first :: cs =
      (first :: cs.takeWhile Char.isDigit) ++ cs.dropWhile Char.isDigit := by
    rw [List.cons_append, List.takeWhile_append_dropWhile]
  have hloop := number_loop_plain hfirst hplain
  have hnumber : SqlText.number first cs =
      if (parse_i64 (first :: cs.takeWhile Char.isDigit)).toOption.isSome then
        some (cs.dropWhile Char.isDigit) else none := by
    unfold SqlText.number
    split
    · rename_i more hpoint
      exact absurd (by rw [hpoint]; rfl) hplain
    · rfl
  rw [hnumber]
  -- a lone sign is refused before it is parsed
  by_cases hdigit : cs.takeWhile Char.isDigit = [] ∧ first.isDigit = false
  · obtain ⟨hnone, hsign⟩ := hdigit
    have herror : (parse_i64 [first]).toOption.isSome = false := by
      rcases hfirst with hd | rfl | rfl
      · rw [hd] at hsign
        cases hsign
      · rfl
      · rfl
    rw [hnone] at hloop ⊢
    rw [if_neg (by rw [herror]; decide)]
    exact parse_number_sign hs h hloop hsign
  · rw [← hlen, htoken] at hloop
    have hone : utf8_len (first :: cs.takeWhile Char.isDigit) = 1 → first.isDigit = true := by
      intro hone
      have hnone : cs.takeWhile Char.isDigit = [] := by
        apply List.length_eq_zero_iff.1
        omega
      by_contra hsign
      exact hdigit ⟨hnone, Bool.eq_false_iff.2 hsign⟩
    exact parse_number_token (hs.trans htoken) h hloop (by omega) hone

theorem parse_number_at (hs : trim_start s = first :: cs) (h : At t s) :
    Follows t.parse_number (SqlText.number first cs) := by
  by_cases hdot : (cs.dropWhile Char.isDigit).head? = some '.'
  · obtain ⟨more, hmore⟩ := List.head?_eq_some_iff.1 hdot
    exact parse_number_point hfirst hs h hmore
  · exact parse_number_plain hfirst hs h hdot

end Numbers

theorem next_value_at (h : At t s) : Follows t.next_value (SqlText.value s) := by
  obtain ⟨t', hskip, hat⟩ := skip_whitespace_at h
  have htrim := trim_start_idem s
  unfold Tokenizer.next_value SqlText.value
  rw [hskip, run_bind_ok, hat.remaining, run_bind_ok]
  -- each of the three looks for its token again, and white space is none
  generalize trim_start s = rest at hat htrim ⊢
  rcases rest with _ | ⟨c, cs⟩
  · exact ⟨t', rfl⟩
  · by_cases hquote : c = '\'' ∨ c = '"'
    · have hsize : c.utf8Size = 1 := by rcases hquote with rfl | rfl <;> decide
      simp only [if_pos hquote]
      exact parse_string_literal_at hsize htrim hat
    · by_cases halpha : c.isAlpha = true
      · have hword := parse_keyword_value_at hat
        rw [htrim] at hword
        simp only [if_neg hquote, if_pos halpha]
        exact hword
      · by_cases hfirst : c.isDigit = true ∨ c = '-' ∨ c = '+'
        · simp only [if_neg hquote, if_neg halpha, if_pos hfirst]
          exact parse_number_at hfirst htrim hat
        · simp only [if_neg hquote, if_neg halpha, if_neg hfirst]
          exact ⟨t', rfl⟩

/-! ### Lists -/

theorem length_dropWhile_le (p : Char → Bool) (s : List Char) :
    (s.dropWhile p).length ≤ s.length := (List.dropWhile_sublist _).length_le

theorem length_trim_start_le (s : List Char) : (trim_start s).length ≤ s.length :=
  length_dropWhile_le char_is_whitespace s

theorem head?_ne {c : Char} (h : ∀ cs, s = c :: cs → False) : s.head? ≠ some c := by
  intro hhead
  obtain ⟨cs, hs⟩ := List.head?_eq_some_iff.1 hhead
  exact h cs hs

theorem skip_peek_at {β : Type} (h : At t s) : ∃ t', (∀ k : Option Char × Tokenizer → Run β,
    (t.skip_whitespace >>= fun t => t.peek_char >>= k) = k ((trim_start s).head?, t')) ∧
    At t' (trim_start s) := by
  obtain ⟨t₁, hskip, hat⟩ := skip_whitespace_at h
  obtain ⟨t₂, hpeek, hat'⟩ := peek_char_at hat
  rw [trim_start_idem] at hpeek hat'
  refine ⟨t₂, ?_, hat'⟩
  intro k
  rw [hskip, run_bind_ok, hpeek, run_bind_ok]

section Lists

variable {α : Type} {next : Tokenizer → Run (Option α × Tokenizer)}
  {item : List Char → Option (List Char)} {read : List α} {fuel : Nat}
  (hnext : ∀ {t s}, At t s → Follows (next t) (item s)) (htrim : ∀ s, item (trim_start s) = item s)
include hnext
include htrim

theorem paren_loop_none (h : At t s) (hopen : (trim_start s).head? ≠ some ')')
    (hitem : item s = none) : ∃ t', Tokenizer.paren_loop next t read (fuel + 1) = .ok (none, t') := by
  obtain ⟨t₁, hpeek, hat⟩ := skip_peek_at (β := Option (List α) × Tokenizer) h
  have hread := hnext hat
  rw [htrim, hitem] at hread
  obtain ⟨t₂, hread⟩ := hread
  refine ⟨t₂, ?_⟩
  rw [Tokenizer.paren_loop, hpeek]
  simp only [if_neg hopen, hread, run_bind_ok]
  rfl

/-- Behind an item, the loop looks for a comma and then for the parenthesis. -/
theorem paren_loop_some {behind : List Char} (h : At t s)
    (hopen : (trim_start s).head? ≠ some ')') (hitem : item s = some behind) :
    ∃ a t₂ t₃, At t₂ (trim_start behind) ∧ At t₃ (trim_start behind) ∧
      Tokenizer.paren_loop next t read (fuel + 1) =
        if (trim_start behind).head? = some ',' then
          Tokenizer.paren_loop next (t₂.advance 1) (read ++ [a]) fuel
        else if (trim_start behind).head? = some ')' then .ok (some (read ++ [a]), t₃.advance 1)
        else .ok (none, t₃) := by
  obtain ⟨t₁, hpeek, hat⟩ := skip_peek_at (β := Option (List α) × Tokenizer) h
  have hread := hnext hat
  rw [htrim, hitem] at hread
  obtain ⟨a, t', hread, hat'⟩ := hread
  obtain ⟨t₂, hcomma, hat₂⟩ := skip_peek_at (β := Option (List α) × Tokenizer) hat'
  obtain ⟨t₃, hclose, hat₃⟩ := peek_char_at hat₂
  rw [trim_start_idem] at hclose hat₃
  refine ⟨a, t₂, t₃, hat₂, hat₃, ?_⟩
  rw [Tokenizer.paren_loop, hpeek]
  simp only [if_neg hopen, hread, run_bind_ok, hcomma, hclose]
  rfl

/-- An item and the comma behind it take a character each at least. -/
theorem paren_loop_at (hshort : ∀ {s behind}, item s = some behind → behind.length < s.length)
    (h : At t s) (hfuel : s.length < fuel) :
    Follows (Tokenizer.paren_loop next t read fuel) (SqlText.items item s) := by
  obtain ⟨rounds, rfl⟩ := exists_round hfuel
  fun_induction SqlText.items item s generalizing t rounds read with
  | case1 s cs hs =>
    obtain ⟨t₁, hpeek, hat⟩ := skip_peek_at (β := Option (List α) × Tokenizer) h
    rw [Tokenizer.paren_loop, hpeek, hs]
    rw [hs] at hat
    exact ⟨_, _, rfl, hat.advance_char⟩
  | case2 s hitem hopen => exact paren_loop_none hnext htrim h (head?_ne hopen) hitem
  | case3 s behind hitem cs hbehind hlt hopen ih =>
    obtain ⟨a, t₂, t₃, hat, -, hloop⟩ := paren_loop_some hnext htrim h (head?_ne hopen) hitem
    rw [hbehind] at hat hloop
    rw [hloop, List.head?_cons, if_pos rfl]
    obtain ⟨rounds, rfl⟩ : ∃ k, rounds = k + 1 := ⟨rounds - 1, by omega⟩
    have hbehind_at : At (t₂.advance 1) cs := hat.advance_char
    exact ih hbehind_at rounds (by omega)
  | case4 s behind hitem cs hbehind hlong hopen =>
    -- the items loop asks for a shorter text, and has one
    have hlt := hshort hitem
    have hle : cs.length + 1 ≤ behind.length := by
      rw [← List.length_cons, ← hbehind]
      exact length_trim_start_le behind
    omega
  | case5 s behind hitem cs hbehind hopen =>
    obtain ⟨a, t₂, t₃, -, hat, hloop⟩ := paren_loop_some hnext htrim h (head?_ne hopen) hitem
    rw [hbehind] at hat hloop
    rw [hloop]
    exact ⟨_, _, rfl, hat.advance_char⟩
  | case6 s behind hitem hopen hcomma hclose =>
    obtain ⟨a, t₂, t₃, -, -, hloop⟩ := paren_loop_some hnext htrim h (head?_ne hopen) hitem
    rw [hloop, if_neg (head?_ne hcomma), if_neg (head?_ne hclose)]
    exact ⟨_, rfl⟩

theorem next_paren_at (hshort : ∀ {s behind}, item s = some behind → behind.length < s.length)
    (h : At t s) : Follows (t.next_paren next) (SqlText.list item s) := by
  -- only an opening parenthesis begins a list
  obtain ⟨t', hskip, hat⟩ := skip_whitespace_at h
  unfold Tokenizer.next_paren SqlText.list
  rw [hskip, run_bind_ok, hat.remaining, run_bind_ok]
  generalize trim_start s = rest at hat ⊢
  rcases rest with _ | ⟨c, cs⟩
  · exact ⟨t', rfl⟩
  · by_cases hopen : c = '('
    · subst hopen
      have hat' : At (t'.advance 1) cs := hat.advance_char
      exact paren_loop_at hnext htrim hshort hat' hat'.length_lt
    · have hno : ['('].isPrefixOf (c :: cs) = false := by
        simp [List.isPrefixOf, Ne.symm hopen]
      rw [if_neg (by rw [hno]; decide)]
      split
      · rename_i hs
        exact absurd (List.cons.inj hs).1 hopen
      · exact ⟨t', rfl⟩

end Lists

theorem identifier_shortens {behind : List Char} (h : SqlText.identifier s = some behind) :
    behind.length < s.length := by
  unfold SqlText.identifier at h
  have htrim := length_trim_start_le s
  generalize trim_start s = rest at h htrim
  rcases rest with _ | ⟨c, cs⟩
  · cases h
  · have hdrop := length_dropWhile_le ident_char cs
    rw [List.length_cons] at htrim
    simp only [Option.ite_none_right_eq_some] at h
    cases h.2
    omega

theorem closed_shortens {quote : Char} {behind : List Char}
    (h : SqlText.closed quote s = some behind) : behind.length < s.length := by
  fun_induction SqlText.closed quote s with
  | case1 => cases h
  | case2 =>
    cases h
    exact Nat.zero_lt_one
  | case3 ds ih =>
    have hlt := ih h
    rw [List.length_cons, List.length_cons]
    omega
  | case4 d ds hd =>
    cases h
    exact Nat.lt_succ_self _
  | case5 c cs hc ih =>
    have hlt := ih h
    rw [List.length_cons]
    omega

theorem number_length_le {first : Char} {behind : List Char}
    (h : SqlText.number first s = some behind) : behind.length ≤ s.length := by
  have hdrop := length_dropWhile_le Char.isDigit s
  unfold SqlText.number at h
  split at h
  · rename_i cs hpoint
    have hfraction := length_dropWhile_le Char.isDigit cs
    rw [hpoint, List.length_cons] at hdrop
    simp only [Option.ite_none_right_eq_some] at h
    cases h.2
    omega
  · simp only [Option.ite_none_right_eq_some] at h
    cases h.2
    exact hdrop

theorem value_shortens {behind : List Char} (h : SqlText.value s = some behind) :
    behind.length < s.length := by
  unfold SqlText.value at h
  have htrim := length_trim_start_le s
  generalize trim_start s = rest at h htrim
  rcases rest with _ | ⟨c, cs⟩
  · cases h
  · rw [List.length_cons] at htrim
    -- a literal, a word, or a number
    simp only at h
    split_ifs at h with hquote halpha hfirst
    · have hlt := closed_shortens h
      omega
    · unfold SqlText.truth_or_null at h
      obtain ⟨v, -, hdrop⟩ := Option.map_eq_some_iff.1 h
      have hle := length_dropWhile_le Char.isAlpha cs
      rw [List.dropWhile_cons_of_pos halpha] at hdrop
      rw [hdrop] at hle
      omega
    · have hle := number_length_le h
      omega

theorem next_paren_list_at (h : At t s) :
    Follows t.next_paren_list (SqlText.list SqlText.identifier s) := by
  apply next_paren_at next_identifier_at _ identifier_shortens h
  intro s
  unfold SqlText.identifier
  rw [trim_start_idem]

theorem next_paren_values_at (h : At t s) :
    Follows t.next_paren_values (SqlText.list SqlText.value s) := by
  apply next_paren_at next_value_at _ value_shortens h
  intro s
  unfold SqlText.value
  rw [trim_start_idem]

end Positions

end Scharnhorst
