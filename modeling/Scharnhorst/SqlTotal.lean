/-
The debug SQL parser returns, unless a keyword's length falls inside a character.

A statement is a list of tokens and keywords, read from left to right: this is its grammar, and
the parser goes through it. One lemma says what a token does to this, one what a keyword does, and
the three statements are these two along their grammars. What is left over is the condition: while
the text goes with the grammar, some keyword is looked for in front of a text in which a character
stands across the keyword's length. Then the parser panics, and otherwise it returns. It never
loops.
-/
import Scharnhorst.SqlText
import Mathlib

set_option autoImplicit false

namespace Scharnhorst

/-! ## The grammar -/

namespace SqlText

inductive Step where
  | Token (read : List Char → Option (List Char))
  | Keyword (word : List Char)

def where_clause : List Step := [.Token identifier, .Token comparison, .Token value]

/-- What follows the first word of a statement. -/
def grammar (first_word : List Char) : List Step :=
  if first_word = "UPDATE".toList then
    [.Token identifier, .Keyword "SET".toList, .Token identifier, .Token (operator ['=']),
      .Token value, .Keyword "WHERE".toList] ++ where_clause
  else if first_word = "INSERT".toList then
    [.Keyword "INTO".toList, .Token identifier, .Token (list identifier),
      .Keyword "VALUES".toList, .Token (list value)]
  else if first_word = "DELETE".toList then
    [.Keyword "FROM".toList, .Token identifier, .Keyword "WHERE".toList] ++ where_clause
  else []

/-- Along the steps, a keyword is looked for where a character stands across its length. -/
def Cut : List Step → List Char → Prop
  | [], _ => False
  | .Token read :: steps, s => ∃ behind ∈ read s, Cut steps behind
  | .Keyword word :: steps, s =>
    Straddles (trim_start s) (utf8_len word) ∨ ∃ behind ∈ keyword word s, Cut steps behind

section

variable {read : List Char → Option (List Char)} {word s behind : List Char} {steps : List Step}

theorem cut_token_some (h : read s = some behind) :
    Cut (.Token read :: steps) s = Cut steps behind := by
  simp [Cut, h]

theorem cut_token_none (h : read s = none) : Cut (.Token read :: steps) s = False := by
  simp [Cut, h]

theorem cut_keyword_straddles (h : Straddles (trim_start s) (utf8_len word)) :
    Cut (.Keyword word :: steps) s = True := by
  simp [Cut, h]

/-- A keyword that is not cut is one more token. -/
theorem cut_keyword (h : ¬ Straddles (trim_start s) (utf8_len word)) :
    Cut (.Keyword word :: steps) s = Cut (.Token (keyword word) :: steps) s := by
  simp [Cut, h]

end

/-- The first word, up to the first white space, and what is behind it. -/
def first_word (sql : List Char) : List Char :=
  to_ascii_uppercase ((trim sql).takeWhile fun c => !char_is_whitespace c)

def behind_first_word (sql : List Char) : List Char :=
  (trim sql).dropWhile fun c => !char_is_whitespace c

/-- The statement has a keyword cut in the middle of a character. -/
def KeywordCut (sql : List Char) : Prop := Cut (grammar (first_word sql)) (behind_first_word sql)

end SqlText

open SqlText

/-! ## Runs -/

/-- The caller gets a value or an error. -/
def Run.Returns {α : Type} (run : Run α) : Prop := (∃ a, run = .ok a) ∨ ∃ e, run = .error (.Error e)

/-- Ends, in a panic if and only if something is cut. -/
structure PanicsIff {α : Type} (run : Run α) (cut : Prop) : Prop where
  ends : run ≠ .error .Stuck
  panic : run = .error .Panic ↔ cut

theorem PanicsIff.returns {α : Type} {run : Run α} {cut : Prop} (h : PanicsIff run cut) :
    Run.Returns run ↔ ¬ cut := by
  rw [← h.panic]
  rcases run with (e | _ | _) | a
  · simp [Run.Returns]
  · simp [Run.Returns]
  · exact absurd rfl h.ends
  · simp [Run.Returns]

theorem panicsIff_ok {α : Type} (a : α) : PanicsIff (.ok a : Run α) False := by
  constructor
  · nofun
  · simp

theorem panicsIff_error {α : Type} (e : SqlError) :
    PanicsIff (.error (.Error e) : Run α) False := by
  constructor
  · nofun
  · simp

theorem panicsIff_sql_parse {α : Type} (message : String) :
    PanicsIff (sql_parse message : Run α) False := panicsIff_error _

theorem panicsIff_panic {α : Type} : PanicsIff (.error .Panic : Run α) True := by
  constructor
  · nofun
  · simp

namespace SqlParser

variable {α β : Type} {t : Tokenizer} {s : List Char} {steps : List Step} {message : String}

/-- A token is read and the rest of the statement is read behind it, or the parser returns. -/
theorem panicsIff_token {run : Run (Option α × Tokenizer)} {read : List Char → Option (List Char)}
    {f : α × Tokenizer → Run β} (hrun : Follows run (read s))
    (hf : ∀ a t behind, At t behind → PanicsIff (f (a, t)) (Cut steps behind)) :
    PanicsIff (run >>= expect message >>= f) (Cut (.Token read :: steps) s) := by
  rcases hread : read s with _ | behind
  · rw [hread] at hrun
    obtain ⟨t', rfl⟩ := hrun
    rw [cut_token_none hread]
    exact panicsIff_sql_parse message
  · rw [hread] at hrun
    obtain ⟨a, t', rfl, hat⟩ := hrun
    rw [cut_token_some hread]
    exact hf a t' behind hat

/-- The same where the tokenizer says only whether it has read something. -/
theorem panicsIff_require {run : Run (Bool × Tokenizer)} {read : List Char → Option (List Char)}
    {f : Tokenizer → Run β} (hrun : Consumes run (read s))
    (hf : ∀ t behind, At t behind → PanicsIff (f t) (Cut steps behind)) :
    PanicsIff (run >>= require message >>= f) (Cut (.Token read :: steps) s) := by
  rcases hread : read s with _ | behind
  · rw [hread] at hrun
    obtain ⟨t', rfl⟩ := hrun
    rw [cut_token_none hread]
    exact panicsIff_sql_parse message
  · rw [hread] at hrun
    obtain ⟨t', rfl, hat⟩ := hrun
    rw [cut_token_some hread]
    exact hf t' behind hat

theorem panicsIff_keyword {word : List Char} {f : Tokenizer → Run β}
    (hword : Ascii word) (h : At t s)
    (hf : ∀ t behind, At t behind → PanicsIff (f t) (Cut steps behind)) :
    PanicsIff (t.consume_keyword word >>= require message >>= f)
      (Cut (.Keyword word :: steps) s) := by
  -- cut in the middle of a character, the slice of the keyword's length panics
  by_cases hcut : Straddles (trim_start s) (utf8_len word)
  · rw [consume_keyword_straddles h hcut, cut_keyword_straddles hcut]
    exact panicsIff_panic
  · rw [cut_keyword hcut]
    exact panicsIff_require (consume_keyword_at hword h hcut) hf

theorem panicsIff_finished {statement : String} {b : β} (h : At t s) :
    PanicsIff (t.ensure_finished statement >>= fun _ => .ok b) (Cut [] s) := by
  obtain ⟨t', hskip, -⟩ := skip_whitespace_at h
  unfold Tokenizer.ensure_finished
  rw [hskip, run_bind_ok]
  by_cases hend : t'.pos = utf8_len t'.input
  · rw [if_pos hend]
    exact panicsIff_ok b
  · rw [if_neg hend]
    exact panicsIff_sql_parse _

theorem panicsIff_where {f : WhereCondition × Tokenizer → Run β} (h : At t s)
    (hf : ∀ c t behind, At t behind → PanicsIff (f (c, t)) (Cut steps behind)) :
    PanicsIff (parse_where_clause t >>= f) (Cut (where_clause ++ steps) s) := by
  unfold parse_where_clause
  rw [bind_assoc]
  apply panicsIff_token (next_identifier_at h)
  intro column t s h
  rw [bind_assoc]
  apply panicsIff_token (next_comparison_op_at h)
  intro operator t s h
  rw [bind_assoc]
  apply panicsIff_token (next_value_at h)
  intro value t s h
  exact hf _ t s h

/-! ## The first word -/

theorem isUpper_range {c : Char} (h : c.isUpper = true) : 65 ≤ c.toNat ∧ c.toNat ≤ 90 := by
  obtain ⟨hlow, hhigh⟩ : 'A'.val ≤ c.val ∧ c.val ≤ 'Z'.val := of_decide_eq_true h
  exact ⟨UInt32.le_iff_toNat_le.1 hlow, UInt32.le_iff_toNat_le.1 hhigh⟩

theorem isLower_range {c : Char} (h : c.isLower = true) : 97 ≤ c.toNat ∧ c.toNat ≤ 122 := by
  have hbounds : (decide ('a'.val ≤ c.val) && decide (c.val ≤ 'z'.val)) = true := h
  rw [Bool.and_eq_true, decide_eq_true_iff, decide_eq_true_iff] at hbounds
  exact ⟨UInt32.le_iff_toNat_le.1 hbounds.1, UInt32.le_iff_toNat_le.1 hbounds.2⟩

theorem ident_char_range {c : Char} (h : ident_char c = true) : 48 ≤ c.toNat ∧ c.toNat ≤ 122 := by
  have hkinds : (c.isUpper || c.isLower || c.isDigit || c == '_') = true := h
  rw [Bool.or_eq_true, Bool.or_eq_true, Bool.or_eq_true, beq_iff_eq] at hkinds
  rcases hkinds with ((hupper | hlower) | hdigit) | rfl
  · have hrange := isUpper_range hupper
    omega
  · have hrange := isLower_range hlower
    omega
  · obtain ⟨hlow, hhigh⟩ := Char.isDigit_iff_toNat.1 hdigit
    exact ⟨hlow, hhigh.trans (by decide)⟩
  · decide

theorem not_ident_char_of_whitespace {c : Char} (h : char_is_whitespace c = true) :
    ident_char c = false := by
  by_contra hident
  obtain ⟨hlow, hhigh⟩ := ident_char_range (Bool.eq_true_of_not_eq_false hident)
  simp only [char_is_whitespace, Bool.or_eq_true, Bool.and_eq_true, decide_eq_true_eq,
    beq_iff_eq] at h
  omega

theorem eq_ignore_case_of_upper {cs word : List Char} (h : to_ascii_uppercase cs = word) :
    eq_ignore_ascii_case cs word = true := by
  unfold eq_ignore_ascii_case
  rw [← h, to_ascii_uppercase, List.map_map, beq_iff_eq]
  apply List.map_congr_left
  intro c _
  exact c.toLower_toUpper_eq_toLower.symm

/-- What is trimmed starts with no white space. -/
theorem trim_start_trim (sql : List Char) : trim_start (trim sql) = trim sql := by
  -- cutting at the end leaves the front of what is cut at the start
  obtain ⟨cut, hcut⟩ : trim sql <+: trim_start sql :=
    List.rdropWhile_prefix char_is_whitespace (trim_start sql)
  rcases htrim : trim sql with _ | ⟨c, cs⟩
  · rfl
  · have hfirst := List.head?_dropWhile_not char_is_whitespace sql
    rw [htrim] at hcut
    unfold trim_start at hcut
    rw [← hcut, List.cons_append, List.head?_cons] at hfirst
    apply List.dropWhile_cons_of_neg
    rw [hfirst]
    decide

theorem behind_first_word_head (sql : List Char) :
    ∀ c ∈ (behind_first_word sql).head?, char_is_whitespace c = true := by
  intro c hc
  have hnot := List.head?_dropWhile_not (fun c => !char_is_whitespace c) (trim sql)
  rw [Option.mem_def, behind_first_word] at hc
  rw [hc] at hnot
  simpa using hnot

/-- Once the first word is known, it is stripped. -/
theorem strip_first_word {sql word : List Char} (hword : Ascii word)
    (h : first_word sql = word) :
    strip_statement_keyword (trim sql) word = .ok (behind_first_word sql) := by
  have heq := eq_ignore_case_of_upper h
  obtain ⟨-, hlen⟩ := ascii_of_eq_ignore_case hword heq
  have hself : utf8_len word = word.length :=
    (ascii_of_eq_ignore_case hword (beq_self_eq_true _)).2
  -- the keyword is as long as the first word, and ends where that does
  have hto := slice_to_append ((trim sql).takeWhile fun c => !char_is_whitespace c)
    (behind_first_word sql)
  have hfrom := slice_from_append ((trim sql).takeWhile fun c => !char_is_whitespace c)
    (behind_first_word sql)
  have hsplit : ((trim sql).takeWhile fun c => !char_is_whitespace c) ++ behind_first_word sql =
      trim sql := List.takeWhile_append_dropWhile
  rw [hsplit, hlen, ← hself] at hto hfrom
  unfold strip_statement_keyword
  simp only [trim_start_trim, hto, hfrom, heq, Option.bind_some]
  rcases hhead : (behind_first_word sql).head? with _ | c
  · rfl
  · have hident := not_ident_char_of_whitespace (behind_first_word_head sql c hhead)
    simp only [hident]
    rfl

/-! ## The statements -/

variable {sql rest : List Char}

theorem panicsIff_update (h : strip_statement_keyword sql "UPDATE".toList = .ok rest) :
    PanicsIff (parse_update sql) (Cut (grammar "UPDATE".toList) rest) := by
  unfold parse_update
  rw [h, run_bind_ok]
  apply panicsIff_token (next_identifier_at (at_new rest))
  intro table t s h
  apply panicsIff_keyword (by decide) h
  intro t s h
  apply panicsIff_token (next_identifier_at h)
  intro column t s h
  apply panicsIff_require (consume_operator_at h)
  intro t s h
  apply panicsIff_token (next_value_at h)
  intro value t s h
  apply panicsIff_keyword (by decide) h
  intro t s h
  apply panicsIff_where h
  intro condition t s h
  exact panicsIff_finished h

theorem panicsIff_insert (h : strip_statement_keyword sql "INSERT".toList = .ok rest) :
    PanicsIff (parse_insert sql) (Cut (grammar "INSERT".toList) rest) := by
  unfold parse_insert
  rw [h, run_bind_ok]
  apply panicsIff_keyword (by decide) (at_new rest)
  intro t s h
  apply panicsIff_token (next_identifier_at h)
  intro table t s h
  apply panicsIff_token (next_paren_list_at h)
  intro columns t s h
  apply panicsIff_keyword (by decide) h
  intro t s h
  apply panicsIff_token (next_paren_values_at h)
  intro values t s h
  -- both lists are read before they are counted
  by_cases hcount : columns.length ≠ values.length
  · simp only [if_pos hcount]
    exact panicsIff_sql_parse _
  · simp only [if_neg hcount]
    exact panicsIff_finished h

theorem panicsIff_delete (h : strip_statement_keyword sql "DELETE".toList = .ok rest) :
    PanicsIff (parse_delete sql) (Cut (grammar "DELETE".toList) rest) := by
  unfold parse_delete
  rw [h, run_bind_ok]
  apply panicsIff_keyword (by decide) (at_new rest)
  intro t s h
  apply panicsIff_token (next_identifier_at h)
  intro table t s h
  apply panicsIff_keyword (by decide) h
  intro t s h
  apply panicsIff_where h
  intro condition t s h
  exact panicsIff_finished h

theorem parse_eq (sql : List Char) : parse sql =
    if (trim sql).isEmpty then sql_parse "empty SQL statement"
    else if first_word sql = "UPDATE".toList then parse_update (trim sql)
    else if first_word sql = "INSERT".toList then parse_insert (trim sql)
    else if first_word sql = "DELETE".toList then parse_delete (trim sql)
    else .error (.Error (.SqlUnsupported
      s!"unsupported SQL statement type: {String.ofList (first_word sql)}")) := rfl

theorem panicsIff_parse (sql : List Char) : PanicsIff (parse sql) (KeywordCut sql) := by
  rw [parse_eq]
  unfold KeywordCut
  by_cases hempty : (trim sql).isEmpty = true
  · have hword : first_word sql = [] := by
      rw [first_word, List.isEmpty_iff.1 hempty]
      rfl
    rw [if_pos hempty, hword]
    exact panicsIff_sql_parse _
  · rw [if_neg hempty]
    by_cases hupdate : first_word sql = "UPDATE".toList
    · rw [if_pos hupdate, hupdate]
      exact panicsIff_update (strip_first_word (by decide) hupdate)
    · rw [if_neg hupdate]
      by_cases hinsert : first_word sql = "INSERT".toList
      · rw [if_pos hinsert, hinsert]
        exact panicsIff_insert (strip_first_word (by decide) hinsert)
      · rw [if_neg hinsert]
        by_cases hdelete : first_word sql = "DELETE".toList
        · rw [if_pos hdelete, hdelete]
          exact panicsIff_delete (strip_first_word (by decide) hdelete)
        · -- no other word has a grammar
          rw [if_neg hdelete, grammar, if_neg hupdate, if_neg hinsert, if_neg hdelete]
          exact panicsIff_error _

/-- No loop goes on for ever, whatever the text. -/
theorem parse_ends (sql : List Char) : parse sql ≠ .error .Stuck := (panicsIff_parse sql).ends

/-- The parser returns a statement or an error if and only if no keyword is cut. -/
theorem parse_returns_iff (sql : List Char) : (parse sql).Returns ↔ ¬ KeywordCut sql :=
  (panicsIff_parse sql).returns

/-- `SET` is looked for in `aaé`, and three bytes of that end inside the `é`. -/
theorem table_name_cut : ¬ (parse "UPDATE t aaé".toList).Returns := by
  have hpanic : parse "UPDATE t aaé".toList = .error .Panic := by rfl
  rw [hpanic]
  rintro (⟨r, h⟩ | ⟨e, h⟩)
  · cases h
  · cases h

end SqlParser

end Scharnhorst
