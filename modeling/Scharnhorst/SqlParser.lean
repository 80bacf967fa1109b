/-
The SQL parser of the debug journal.

The tokenizer holds a text and a position in bytes. Every method slices the text at the position,
looks at the characters that are left and adds lengths to the position. A slice that does not fall
between two characters is a panic, and it is one here: `remaining` and the other slices have no
result then. The loops take fuel, one round for every byte of the text and one more, and a loop
that uses it up has no result either. So there are three ways for the parser not to return a
statement, and only the first of them, `Error`, is a result of the function.
-/
import Scharnhorst.Json
import Scharnhorst.Slices

set_option autoImplicit false

namespace Scharnhorst

/-! ## Statements -/

/-- `JournalError`, the variants that the parser raises. -/
inductive SqlError where
  | SqlParse (message : String)
  | SqlUnsupported (message : String)
deriving DecidableEq

/-- An error, a panic, or a loop that has not ended. -/
inductive Failure where
  | Error (e : SqlError)
  | Panic
  | Stuck
deriving DecidableEq

abbrev Run := Except Failure

/-- `JournalError::SqlParse(..)`. -/
def sql_parse {α : Type} (message : String) : Run α := .error (.Error (.SqlParse message))

inductive SqlValue where
  | Integer (v : Int64)
  | Float (v : F64)
  | String (v : String)
  | Boolean (v : Bool)
  | Null
deriving DecidableEq

inductive ComparisonOp where
  | Eq | Lt | Gt | Le | Ge | Ne
deriving DecidableEq

structure WhereCondition where
  column : String
  operator : ComparisonOp
  value : SqlValue
deriving DecidableEq

inductive SqlStatement where
  | Update (table column : String) (value : SqlValue) (condition : WhereCondition)
  | Insert (table : String) (columns : List String) (values : List SqlValue)
  | Delete (table : String) (condition : WhereCondition)
deriving DecidableEq

/-! ## Text -/

/-- `is_ascii_alphabetic() || == '_'`. -/
def ident_start (c : Char) : Bool := c.isAlpha || c == '_'

/-- `is_ascii_alphanumeric() || == '_'`. -/
def ident_char (c : Char) : Bool := c.isAlphanum || c == '_'

/-- `eq_ignore_ascii_case`. -/
def eq_ignore_ascii_case (a b : List Char) : Bool := a.map Char.toLower == b.map Char.toLower

/-- `to_ascii_uppercase`. -/
def to_ascii_uppercase (cs : List Char) : List Char := cs.map Char.toUpper

/-- `char_indices().find(..)`, the index only. -/
def find_index (p : Char → Bool) : List Char → Option Nat
  | [] => none
  | c :: cs => if p c then some 0 else (find_index p cs).map (c.utf8Size + ·)

/-- `value.replace("''", "'")`, for either quote. -/
def replace_doubled (quote_char : Char) : List Char → List Char
  | c :: d :: cs =>
    if c = quote_char ∧ d = quote_char then quote_char :: replace_doubled quote_char cs
    else c :: replace_doubled quote_char (d :: cs)
  | cs => cs

/-- Whether a minus stands in front, and what stands behind the sign. -/
def split_sign : List Char → Bool × List Char
  | '-' :: digits => (true, digits)
  | '+' :: digits => (false, digits)
  | digits => (false, digits)

/-- `str::parse::<f64>`, of a text that has no letters: digits on one side of the point at least. -/
def parse_f64 (cs : List Char) : Option F64 :=
  let digits := (split_sign cs).2
  let whole := digits.takeWhile Char.isDigit
  let fraction :=
    match digits.dropWhile Char.isDigit with
    | '.' :: fraction => fraction
    | rest => rest
  if (whole ++ fraction).isEmpty || !fraction.all Char.isDigit then none
  else
    let v : F64 := .ofScientific (Nat.ofDigitChars 10 (whole ++ fraction) 0) true fraction.length
    some (if (split_sign cs).1 then -v else v)

/-! ## The tokenizer -/

structure Tokenizer where
  input : List Char
  pos : Nat
deriving DecidableEq

namespace Tokenizer

def new (input : List Char) : Tokenizer := { input, pos := 0 }

/-- `self.pos += n`. -/
def advance (self : Tokenizer) (n : Nat) : Tokenizer := { self with pos := self.pos + n }

/-- The fuel of a loop. -/
def rounds (self : Tokenizer) : Nat := utf8_len self.input + 1

/-- `&self.input[self.pos..]`. -/
def remaining (self : Tokenizer) : Run (List Char) :=
  match slice_from self.input self.pos with
  | some rest => .ok rest
  | none => .error .Panic

/-- `&cs[..n]`. -/
def prefix_of (cs : List Char) (n : Nat) : Run (List Char) :=
  match slice_to cs n with
  | some front => .ok front
  | none => .error .Panic

def skip_loop (self : Tokenizer) : Nat → Run Tokenizer
  | 0 => .error .Stuck
  | fuel + 1 =>
    if self.pos < utf8_len self.input then do
      let rest ← self.remaining
      let c := rest.headD '\x00'
      if char_is_whitespace c then skip_loop (self.advance c.utf8Size) fuel else .ok self
    else .ok self

def skip_whitespace (self : Tokenizer) : Run Tokenizer := self.skip_loop self.rounds

def ensure_finished (self : Tokenizer) (statement : String) : Run Unit := do
  let self ← self.skip_whitespace
  if self.pos = utf8_len self.input then .ok ()
  else sql_parse s!"unexpected trailing tokens after {statement}"

def peek_char (self : Tokenizer) : Run (Option Char × Tokenizer) := do
  let self ← self.skip_whitespace
  let rest ← self.remaining
  return (rest.head?, self)

/-- The keyword's length is cut off before its text is looked at. -/
def consume_keyword (self : Tokenizer) (keyword : List Char) : Run (Bool × Tokenizer) := do
  let self ← self.skip_whitespace
  let remaining ← self.remaining
  let keyword_len := utf8_len keyword
  if keyword_len ≤ utf8_len remaining then
    let front ← prefix_of remaining keyword_len
    if eq_ignore_ascii_case front keyword then
      if utf8_len remaining = keyword_len then return (true, self.advance keyword_len)
      else
        -- the byte that follows is the first of a character
        let next ← (self.advance keyword_len).remaining
        if ident_char (next.headD '\x00') then return (false, self)
        else return (true, self.advance keyword_len)
    else return (false, self)
  else return (false, self)

def consume_operator (self : Tokenizer) (op : List Char) : Run (Bool × Tokenizer) := do
  let self ← self.skip_whitespace
  let remaining ← self.remaining
  if op.isPrefixOf remaining then return (true, self.advance (utf8_len op))
  else return (false, self)

def next_identifier (self : Tokenizer) : Run (Option String × Tokenizer) := do
  let self ← self.skip_whitespace
  let remaining ← self.remaining
  match remaining with
  | [] => return (none, self)
  | first_char :: _ =>
    if !ident_start first_char then return (none, self)
    else
      let end_pos := (find_index (fun c => !ident_char c) remaining).getD (utf8_len remaining)
      let ident ← prefix_of remaining end_pos
      return (some (.ofList ident), self.advance end_pos)

/-- The operator at the front and its length, the longer ones first. -/
def comparison_token : List Char → Option (ComparisonOp × Nat)
  | '<' :: '=' :: _ => some (.Le, 2)
  | '>' :: '=' :: _ => some (.Ge, 2)
  | '!' :: '=' :: _ => some (.Ne, 2)
  | '<' :: '>' :: _ => some (.Ne, 2)
  | '<' :: _ => some (.Lt, 1)
  | '>' :: _ => some (.Gt, 1)
  | '=' :: _ => some (.Eq, 1)
  | _ => none

def next_comparison_op (self : Tokenizer) : Run (Option ComparisonOp × Tokenizer) := do
  let self ← self.skip_whitespace
  let remaining ← self.remaining
  match comparison_token remaining with
  | some (op, len) => return (some op, self.advance len)
  | none => return (none, self)

/-- At a quote: whether another one follows. -/
def escaped_quote (self : Tokenizer) (quote_char : Char) : Run Bool :=
  let quote_len := quote_char.utf8Size
  if self.pos + quote_len < utf8_len self.input then do
    let next ← (self.advance quote_len).remaining
    return next.headD '\x00' == quote_char
  else return false

/-- From the position after the opening quote on; `start` is where that was. -/
def string_loop (quote_char : Char) (start : Nat) (self : Tokenizer) :
    Nat → Run (Option SqlValue × Tokenizer)
  | 0 => .error .Stuck
  | fuel + 1 =>
    if self.pos < utf8_len self.input then do
      let rest ← self.remaining
      let c := rest.headD '\x00'
      if c = quote_char then
        let escaped ← self.escaped_quote quote_char
        if escaped then
          string_loop quote_char start (self.advance (quote_char.utf8Size * 2)) fuel
        else
          let from_start ← ({ self with pos := start } : Tokenizer).remaining
          let value ← prefix_of from_start (self.pos - start)
          return (some (.String (.ofList (replace_doubled quote_char value))),
            self.advance quote_char.utf8Size)
      else string_loop quote_char start (self.advance c.utf8Size) fuel
    else return (none, self)

def parse_string_literal (self : Tokenizer) (quote_char : Char) :
    Run (Option SqlValue × Tokenizer) := do
  let self ← self.skip_whitespace
  let remaining ← self.remaining
  if [quote_char].isPrefixOf remaining then
    let self := self.advance 1
    string_loop quote_char self.pos self self.rounds
  else return (none, self)

def keyword_value (word_upper : List Char) : Option SqlValue :=
  if word_upper = "TRUE".toList then some (.Boolean true)
  else if word_upper = "FALSE".toList then some (.Boolean false)
  else if word_upper = "NULL".toList then some .Null
  else none

def parse_keyword_value (self : Tokenizer) : Run (Option SqlValue × Tokenizer) := do
  let self ← self.skip_whitespace
  let remaining ← self.remaining
  let word := remaining.takeWhile Char.isAlpha
  match keyword_value (to_ascii_uppercase word) with
  | some value => return (some value, self.advance (utf8_len word))
  | none => return (none, self)

/-- The loop of `parse_number`: `end_pos` and `has_dot` after it. -/
def number_loop : List Char → Nat → Nat → Bool → Nat × Bool
  | [], _, end_pos, has_dot => (end_pos, has_dot)
  | c :: cs, i, end_pos, has_dot =>
    if c.isDigit then number_loop cs (i + c.utf8Size) (i + 1) has_dot
    else if c = '.' ∧ has_dot = false ∧ 0 < i then number_loop cs (i + c.utf8Size) (i + 1) true
    else if (c = '-' ∨ c = '+') ∧ i = 0 then number_loop cs (i + c.utf8Size) (i + 1) has_dot
    else (end_pos, has_dot)

def parse_number (self : Tokenizer) : Run (Option SqlValue × Tokenizer) := do
  let self ← self.skip_whitespace
  let remaining ← self.remaining
  let (end_pos, has_dot) := number_loop remaining 0 0 false
  if end_pos = 0 ∨ end_pos = 1 ∧ (remaining.headD '\x00').isDigit = false then
    return (none, self)
  else
    let num_str ← prefix_of remaining end_pos
    let value :=
      if has_dot then (parse_f64 num_str).map .Float
      else (parse_i64 num_str).toOption.map .Integer
    return (value, self.advance end_pos)

def next_value (self : Tokenizer) : Run (Option SqlValue × Tokenizer) := do
  let self ← self.skip_whitespace
  let remaining ← self.remaining
  match remaining with
  | [] => return (none, self)
  | first_char :: _ =>
    if first_char = '\'' ∨ first_char = '"' then self.parse_string_literal first_char
    else if first_char.isAlpha then self.parse_keyword_value
    else if first_char.isDigit ∨ first_char = '-' ∨ first_char = '+' then self.parse_number
    else return (none, self)

/-- The loop of both lists, from the opening parenthesis on. -/
def paren_loop {α : Type} (next : Tokenizer → Run (Option α × Tokenizer)) (self : Tokenizer)
    (items : List α) : Nat → Run (Option (List α) × Tokenizer)
  | 0 => .error .Stuck
  | fuel + 1 => do
    let self ← self.skip_whitespace
    let (peeked, self) ← self.peek_char
    if peeked = some ')' then return (some items, self.advance 1)
    else
      let (item, self) ← next self
      match item with
      | none => return (none, self)
      | some item =>
        let self ← self.skip_whitespace
        let (peeked, self) ← self.peek_char
        if peeked = some ',' then paren_loop next (self.advance 1) (items ++ [item]) fuel
        else
          let (peeked, self) ← self.peek_char
          if peeked = some ')' then return (some (items ++ [item]), self.advance 1)
          else return (none, self)

def next_paren {α : Type} (next : Tokenizer → Run (Option α × Tokenizer)) (self : Tokenizer) :
    Run (Option (List α) × Tokenizer) := do
  let self ← self.skip_whitespace
  let remaining ← self.remaining
  if ['('].isPrefixOf remaining then
    let self := self.advance 1
    paren_loop next self [] self.rounds
  else return (none, self)

def next_paren_list (self : Tokenizer) : Run (Option (List String) × Tokenizer) :=
  self.next_paren next_identifier

def next_paren_values (self : Tokenizer) : Run (Option (List SqlValue) × Tokenizer) :=
  self.next_paren next_value

end Tokenizer

/-! ## The parser -/

namespace SqlParser

/-- `ok_or_else(..)?`. -/
def expect {α : Type} (message : String) : Option α × Tokenizer → Run (α × Tokenizer)
  | (some a, tokens) => .ok (a, tokens)
  | (none, _) => sql_parse message

/-- `if !tokens.consume_keyword(..) { return Err(..); }`. -/
def require (message : String) : Bool × Tokenizer → Run Tokenizer
  | (true, tokens) => .ok tokens
  | (false, _) => sql_parse message

/-- Slices with `get`, which has no panic. -/
def strip_statement_keyword (sql keyword : List Char) : Run (List Char) :=
  let trimmed := trim_start sql
  let keyword_len := utf8_len keyword
  match slice_to trimmed keyword_len with
  | none => sql_parse s!"expected {String.ofList keyword}"
  | some front =>
    if eq_ignore_ascii_case front keyword then
      let boundary_ok :=
        match (slice_from trimmed keyword_len).bind List.head? with
        | some c => !ident_char c
        | none => true
      if boundary_ok then
        match slice_from trimmed keyword_len with
        | some rest => .ok rest
        | none => .error .Panic
      else sql_parse s!"expected {String.ofList keyword}"
    else sql_parse s!"expected {String.ofList keyword}"

def parse_where_clause (tokens : Tokenizer) : Run (WhereCondition × Tokenizer) := do
  let (column, tokens) ← tokens.next_identifier >>= expect "expected column name in WHERE"
  let (operator, tokens) ← tokens.next_comparison_op >>=
    expect "expected comparison operator in WHERE"
  let (value, tokens) ← tokens.next_value >>= expect "expected value in WHERE"
  return ({ column, operator, value }, tokens)

def parse_update (sql : List Char) : Run SqlStatement := do
  let after_update ← strip_statement_keyword sql "UPDATE".toList
  let tokens := Tokenizer.new after_update
  let (table, tokens) ← tokens.next_identifier >>= expect "expected table name after UPDATE"
  let tokens ← tokens.consume_keyword "SET".toList >>= require "expected SET after table name"
  let (column, tokens) ← tokens.next_identifier >>= expect "expected column name after SET"
  let tokens ← tokens.consume_operator ['='] >>= require "expected = after column name"
  let (value, tokens) ← tokens.next_value >>= expect "expected value after ="
  let tokens ← tokens.consume_keyword "WHERE".toList >>= require "expected WHERE clause"
  let (condition, tokens) ← parse_where_clause tokens
  tokens.ensure_finished "UPDATE"
  return .Update table column value condition

def parse_insert (sql : List Char) : Run SqlStatement := do
  let after_insert ← strip_statement_keyword sql "INSERT".toList
  let tokens := Tokenizer.new after_insert
  let tokens ← tokens.consume_keyword "INTO".toList >>= require "expected INTO after INSERT"
  let (table, tokens) ← tokens.next_identifier >>= expect "expected table name after INTO"
  let (columns, tokens) ← tokens.next_paren_list >>=
    expect "expected column list (col1, col2, ...)"
  let tokens ← tokens.consume_keyword "VALUES".toList >>=
    require "expected VALUES after column list"
  let (values, tokens) ← tokens.next_paren_values >>=
    expect "expected value list (val1, val2, ...)"
  if columns.length ≠ values.length then
    sql_parse s!"column count ({columns.length}) does not match value count ({values.length})"
  tokens.ensure_finished "INSERT"
  return .Insert table columns values

def parse_delete (sql : List Char) : Run SqlStatement := do
  let after_delete ← strip_statement_keyword sql "DELETE".toList
  let tokens := Tokenizer.new after_delete
  let tokens ← tokens.consume_keyword "FROM".toList >>= require "expected FROM after DELETE"
  let (table, tokens) ← tokens.next_identifier >>= expect "expected table name after FROM"
  let tokens ← tokens.consume_keyword "WHERE".toList >>= require "expected WHERE clause"
  let (condition, tokens) ← parse_where_clause tokens
  tokens.ensure_finished "DELETE"
  return .Delete table condition

def parse (sql : List Char) : Run SqlStatement :=
  let trimmed := trim sql
  if trimmed.isEmpty then sql_parse "empty SQL statement"
  else
    -- the text is trimmed, so its first word is where it starts
    let first_word := to_ascii_uppercase (trimmed.takeWhile fun c => !char_is_whitespace c)
    if first_word = "UPDATE".toList then parse_update trimmed
    else if first_word = "INSERT".toList then parse_insert trimmed
    else if first_word = "DELETE".toList then parse_delete trimmed
    else
      .error (.Error (.SqlUnsupported s!"unsupported SQL statement type: {String.ofList first_word}"))

end SqlParser

end Scharnhorst
