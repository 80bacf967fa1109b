/-
Writing a statement and parsing it.

The first word of a text is cut off by another rule than the other tokens: it goes up to the first
white space, and the word that follows it makes sure that there is some. Behind it every token is
read in its turn, and the parser has the statement that was written.
-/
import Scharnhorst.SqlReading

set_option autoImplicit false

namespace Scharnhorst

namespace SqlWriting

open SqlParser SqlText

/-! ## The first word -/

section FirstWord

variable {k : Keyword} {tok : Token} {toks : List Token} {sql : List Char}

/-- A keyword in front of a word is the first word of the text. -/
theorem first_word_written (h : Written (.keyword k :: tok :: toks) sql)
    (htok : ∀ {cs c}, Spells tok cs → cs.head? = some c → ident_char c = true) :
    first_word sql = k.text ∧ Written (tok :: toks) (behind_first_word sql) := by
  obtain ⟨cs, rest, hs, hcase, hrest, hword⟩ := h.trim.front
  rw [trim_start_trim] at hs
  have hletters : ∀ c ∈ cs, (!char_is_whitespace c) = true := by
    intro c hc
    rw [not_space_of_ident (ident_char_of_alpha (AnyCase.alpha hcase k.text_alpha c hc))]
    rfl
  -- the next word would go on with the keyword if it were not for white space
  have hspace : ∀ c ∈ rest.head?, (!char_is_whitespace c) = false := by
    intro c hc
    rcases hrest.head hc with hspace | ⟨cs', hspells, hfirst⟩
    · rw [hspace]
      rfl
    · have hident := htok hspells hfirst
      rw [hword trivial c hc] at hident
      cases hident
  have htake := takeWhile_front hletters hspace
  have hdrop : (cs ++ rest).dropWhile (fun c => !char_is_whitespace c) = rest := by
    have hsplit := List.takeWhile_append_dropWhile (p := fun c => !char_is_whitespace c)
      (l := cs ++ rest)
    rw [htake] at hsplit
    exact List.append_cancel_left hsplit
  unfold first_word behind_first_word
  rw [hs, htake, hdrop]
  exact ⟨AnyCase.upper hcase k.text_upper, hrest⟩

theorem name_first {s : String} {cs : List Char} {c : Char} (h : Spells (.name s) cs)
    (hc : cs.head? = some c) : ident_char c = true :=
  h.2.ident c (List.mem_of_mem_head? hc)

theorem keyword_first {cs : List Char} {c : Char} (h : Spells (.keyword k) cs)
    (hc : cs.head? = some c) : ident_char c = true :=
  ident_char_of_alpha (AnyCase.alpha h k.text_alpha c (List.mem_of_mem_head? hc))

/-- What is behind the first word is what the tokenizer gets. -/
theorem strip_written (h : Written (.keyword k :: tok :: toks) sql)
    (htok : ∀ {cs c}, Spells tok cs → cs.head? = some c → ident_char c = true) :
    ∃ rest, strip_statement_keyword (trim sql) k.text = .ok rest
      ∧ Stands (.new rest) (tok :: toks) := by
  obtain ⟨hfirst, hrest⟩ := first_word_written h htok
  exact ⟨_, strip_first_word (ascii_of_alpha k.text_alpha) hfirst, _, at_new _, hrest⟩

theorem trim_written (h : Written (tok :: toks) sql) : (trim sql).isEmpty = false := by
  obtain ⟨cs, rest, hs, hspells, -, -⟩ := h.trim.front
  rw [trim_start_trim] at hs
  rw [hs, List.isEmpty_eq_false_iff]
  exact List.append_ne_nil_of_left_ne_nil hspells.solid.ne rest

end FirstWord

/-! ## The statements -/

section Statements

variable {α β : Type} {a : α} {b : β} {t : Tokenizer} {toks : List Token} {message : String}

theorem expect_reads {run : Run (Option α × Tokenizer)} {f : α × Tokenizer → Run β}
    (h : ∃ t', run = .ok (some a, t') ∧ Stands t' toks)
    (hf : ∀ t', Stands t' toks → f (a, t') = .ok b) : (run >>= expect message >>= f) = .ok b := by
  obtain ⟨t', hrun, hstands⟩ := h
  rw [hrun]
  exact hf t' hstands

theorem require_reads {run : Run (Bool × Tokenizer)} {f : Tokenizer → Run β}
    (h : ∃ t', run = .ok (true, t') ∧ Stands t' toks)
    (hf : ∀ t', Stands t' toks → f t' = .ok b) : (run >>= require message >>= f) = .ok b := by
  obtain ⟨t', hrun, hstands⟩ := h
  rw [hrun]
  exact hf t' hstands

theorem where_reads {condition : WhereCondition} {f : WhereCondition × Tokenizer → Run β}
    (h : Stands t (where_tokens condition))
    (hf : ∀ t', Stands t' [] → f (condition, t') = .ok b) :
    (parse_where_clause t >>= f) = .ok b := by
  have hclause : ∃ t', parse_where_clause t = .ok (condition, t') ∧ Stands t' [] := by
    obtain ⟨t₁, hcolumn, hstands₁⟩ := h.next_identifier
    obtain ⟨t₂, hoperator, hstands₂⟩ := hstands₁.next_comparison_op
    obtain ⟨t₃, hvalue, hstands₃⟩ := hstands₂.next_value trivial
    refine ⟨t₃, ?_, hstands₃⟩
    unfold parse_where_clause
    simp only [hcolumn, hoperator, hvalue, run_bind_ok, expect]
    rfl
  obtain ⟨t', hrun, hstands⟩ := hclause
  rw [hrun]
  exact hf t' hstands

variable {sql rest : List Char}

theorem parse_update_written {table column : String} {value : SqlValue} {condition : WhereCondition}
    (hstrip : strip_statement_keyword sql "UPDATE".toList = .ok rest)
    (h : Stands (.new rest) (statement_tokens (.Update table column value condition)).tail) :
    parse_update sql = .ok (.Update table column value condition) := by
  unfold parse_update
  rw [hstrip, run_bind_ok]
  apply expect_reads h.next_identifier
  intro t h
  apply require_reads (Stands.consume_keyword (k := .SET) h)
  intro t h
  apply expect_reads h.next_identifier
  intro t h
  apply require_reads h.consume_operator
  intro t h
  apply expect_reads (h.next_value trivial)
  intro t h
  apply require_reads (Stands.consume_keyword (k := .WHERE) h)
  intro t h
  apply where_reads h
  intro t h
  simp only [h.ensure_finished]
  rfl

theorem parse_insert_written {table : String} {columns : List String} {values : List SqlValue}
    (hlen : columns.length = values.length)
    (hstrip : strip_statement_keyword sql "INSERT".toList = .ok rest)
    (h : Stands (.new rest) (statement_tokens (.Insert table columns values)).tail) :
    parse_insert sql = .ok (.Insert table columns values) := by
  unfold parse_insert
  rw [hstrip, run_bind_ok]
  apply require_reads (Stands.consume_keyword (k := .INTO) h)
  intro t h
  apply expect_reads h.next_identifier
  intro t h
  apply expect_reads h.next_paren_list
  intro t h
  apply require_reads (Stands.consume_keyword (k := .VALUES) h)
  intro t h
  rw [← List.append_nil (list_tokens (values.map .value))] at h
  apply expect_reads h.next_paren_values
  intro t h
  simp only [if_neg (not_not_intro hlen), h.ensure_finished]
  rfl

theorem parse_delete_written {table : String} {condition : WhereCondition}
    (hstrip : strip_statement_keyword sql "DELETE".toList = .ok rest)
    (h : Stands (.new rest) (statement_tokens (.Delete table condition)).tail) :
    parse_delete sql = .ok (.Delete table condition) := by
  unfold parse_delete
  rw [hstrip, run_bind_ok]
  apply require_reads (Stands.consume_keyword (k := .FROM) h)
  intro t h
  apply expect_reads h.next_identifier
  intro t h
  apply require_reads (Stands.consume_keyword (k := .WHERE) h)
  intro t h
  apply where_reads h
  intro t h
  simp only [h.ensure_finished]
  rfl

end Statements

/-- A statement that is written in the documented syntax is parsed as the statement. -/
theorem parse_written {stmt : SqlStatement} {sql : List Char} (hvalues : OneValueEach stmt)
    (h : Written (statement_tokens stmt) sql) : parse sql = .ok stmt := by
  rw [parse_eq]
  cases stmt with
  | Update table column value condition =>
    obtain ⟨hfirst, -⟩ := first_word_written h name_first
    obtain ⟨rest, hstrip, hstands⟩ := strip_written h name_first
    rw [trim_written h, hfirst]
    exact parse_update_written hstrip hstands
  | Insert table columns values =>
    obtain ⟨hfirst, -⟩ := first_word_written h keyword_first
    obtain ⟨rest, hstrip, hstands⟩ := strip_written h keyword_first
    rw [trim_written h, hfirst]
    exact parse_insert_written hvalues hstrip hstands
  | Delete table condition =>
    obtain ⟨hfirst, -⟩ := first_word_written h keyword_first
    obtain ⟨rest, hstrip, hstands⟩ := strip_written h keyword_first
    rw [trim_written h, hfirst]
    exact parse_delete_written hstrip hstands

/-- A province gets a name with an apostrophe. -/
def rename : SqlStatement :=
  .Update "province" "name" (.String "Coeur d'Alene") ⟨"id", .Eq, .Integer (-9223372036854775808)⟩

theorem rename_parsed : OneValueEach rename ∧ Written (statement_tokens rename) (print rename)
    ∧ parse (print rename) = .ok rename := by
  have hwritten : Written (statement_tokens rename) (print rename) := by
    apply written_print
    intro tok htok
    simp only [rename, statement_tokens, where_tokens, List.mem_cons, List.not_mem_nil,
      or_false] at htok
    have htable : IsIdentifier "province".toList := isIdentifier_of_all rfl rfl
    have hcolumn : IsIdentifier "name".toList := isIdentifier_of_all rfl rfl
    have hid : IsIdentifier "id".toList := isIdentifier_of_all rfl rfl
    have hequals : '=' ∈ symbols := List.mem_of_elem_eq_true rfl
    rcases htok with rfl | rfl | rfl | rfl | rfl | rfl | rfl | rfl | rfl | rfl
    exacts [trivial, htable, trivial, hcolumn, hequals, trivial, trivial, hid, trivial, trivial]
  exact ⟨trivial, hwritten, parse_written trivial hwritten⟩

end SqlWriting

end Scharnhorst
