/-
Kinds of rule expressions.

A value carries its kind with it, and the evaluator finds out at each node whether the kinds fit.
They can be known before: the kind of a column is that of its storage type, a variable has the
kind it was bound with, a function has the kinds of its parameters and of its result. `kind_of`
computes the kind of an expression from these, and says nothing of an expression with a fault.

What an expression with a kind still may meet is listed in `RunError`: a number that does not fit
or a division by zero, a row that is not there, a lock that is poisoned. A wrong kind, a name that
nothing binds, a function or an operator that does not exist are not among them.
-/
import Scharnhorst.EntryOrder
import Scharnhorst.PublishedCells
import Scharnhorst.Triples

set_option autoImplicit false

namespace Scharnhorst

open ReadOnly Triples

/-! ## Kinds -/

inductive Kind where
  | number | bool | text | row_id | list | map
deriving DecidableEq

def EvalValue.kind : EvalValue → Kind
  | .FixedPoint _ => .number
  | .Bool _ => .bool
  | .String _ => .text
  | .RowId _ => .row_id
  | .List _ => .list
  | .Map _ => .map

/-- No operator compares lists or maps. -/
def Kind.comparable : Kind → Bool
  | .list | .map => false
  | _ => true

/-- What a typed getter makes of a column. No getter reads the other three types. -/
def column_kind : DataType → Option Kind
  | .Int64 | .Float64 => some .number
  | .Boolean => some .bool
  | .Utf8 => some .text
  | _ => none

section Canonical

variable {v : EvalValue}

theorem EvalValue.fixed_point_of_kind (h : v.kind = .number) : ∃ x, v = .FixedPoint x := by
  cases v with
  | FixedPoint x => exact ⟨x, rfl⟩
  | _ => cases h

theorem EvalValue.bool_of_kind (h : v.kind = .bool) : ∃ b, v = .Bool b := by
  cases v with
  | Bool b => exact ⟨b, rfl⟩
  | _ => cases h

end Canonical

structure Signature where
  params : List Kind
  result : Kind
deriving DecidableEq

/-- What is known before a run: the variables, the columns' types, the functions. -/
structure Context where
  vars : String → Option Kind
  columns : String → String → Option DataType
  functions : String → Option Signature

def Context.bind (Γ : Context) (name : String) (k : Kind) : Context :=
  { Γ with vars := fun n => if n = name then some k else Γ.vars n }

/-- The kinds of the arguments in the order in which a call evaluates them. -/
def argument_kinds (kinds : List (String × Kind)) : List (Option Kind) :=
  ((kinds.map Prod.fst).insertionSort (· ≤ ·)).map fun name => kinds.lookup name

mutual

def kind_of (Γ : Context) : Expr → Option Kind
  | .Const _ => some .number
  | .Bool _ => some .bool
  | .String _ => some .text
  | .RowId _ => some .row_id
  | .Column path => (Γ.columns path.table path.column).bind column_kind
  | .Var var => Γ.vars var.name
  | .Not inner => if kind_of Γ inner = some .bool then some .bool else none
  | .And items => if kinds_of Γ items = some (items.map fun _ => .bool) then some .bool else none
  | .Or items => if kinds_of Γ items = some (items.map fun _ => .bool) then some .bool else none
  | .Compare _ lhs rhs =>
    (kind_of Γ lhs).bind fun k =>
      if k.comparable ∧ kind_of Γ rhs = some k then some .bool else none
  | .Arithmetic op lhs rhs =>
    if op ≠ .Rem ∧ kind_of Γ lhs = some .number ∧ kind_of Γ rhs = some .number then
      some .number
    else none
  | .If cond then_branch else_branch =>
    if kind_of Γ cond = some .bool ∧ kind_of Γ else_branch = kind_of Γ then_branch then
      kind_of Γ then_branch
    else none
  | .Call func args =>
    (Γ.functions func).bind fun s =>
      (entry_kinds Γ args).bind fun kinds =>
        if argument_kinds kinds = s.params.map some then some s.result else none
  | .List items => (kinds_of Γ items).map fun _ => .list
  | .Map entries => (entry_kinds Γ entries).map fun _ => .map

def kinds_of (Γ : Context) : List Expr → Option (List Kind)
  | [] => some []
  | item :: items =>
    (kind_of Γ item).bind fun k => (kinds_of Γ items).map fun kinds => k :: kinds

def entry_kinds (Γ : Context) : List (String × Expr) → Option (List (String × Kind))
  | [] => some []
  | (name, expr) :: entries =>
    (kind_of Γ expr).bind fun k => (entry_kinds Γ entries).map fun kinds => (name, k) :: kinds

end

/-! ## What may still go wrong -/

/-- The errors of a run that no kind excludes. -/
inductive RunError : RuleError → Prop
  | arithmetic (e : CoreError) : RunError (.Core e)
  /-- A float column that no fixed-point number holds. -/
  | fraction (e : CoreError) : RunError (.Evaluation e.to_string)
  | engine_lock (message : String) : RunError (.QueryEngine message)
  | cache_lock (message : String) : RunError (.Query (.UnifiedRead message))
  /-- No tick yet, no batch, or no row of this id. -/
  | no_row (message : String) : RunError (.Query (.InvalidQuery message))
  | past_end (row : Nat) : RunError (.Query (.IndexOutOfBounds row))

/-- A result that is as wanted, or an error of the run. -/
structure Comes {α : Type} (V : α → Prop) (r : RuleResult α) : Prop where
  ok : ∀ a, r = .ok a → V a
  error : ∀ e, r = .error e → RunError e

section Comes

variable {α β : Type} {V : α → Prop} {W : β → Prop}

theorem Comes.value {a : α} (h : V a) : Comes V (.ok a) :=
  ⟨fun _ hb => Except.ok.inj hb ▸ h, nofun⟩

theorem Comes.failure {e : RuleError} (h : RunError e) : Comes V (.error e) :=
  ⟨nofun, fun _ he => Except.error.inj he ▸ h⟩

theorem Comes.bind {r : RuleResult α} {f : α → RuleResult β} (hr : Comes V r)
    (hf : ∀ a, V a → Comes W (f a)) : Comes W (r >>= f) := by
  rcases r with e | a
  · exact .failure (hr.error e rfl)
  · exact hf a (hr.ok a rfl)

end Comes

/-- A function keeps its signature: on arguments of these kinds it returns a value of that one,
or it fails as arithmetic does. -/
def Signature.Kept (s : Signature) (f : BuiltinFn) : Prop :=
  ∀ args, args.map EvalValue.kind = s.params → Comes (fun v => v.kind = s.result) (f args)

/-- What is published is as the context has it. -/
def QueryEngine.Publishes (q : QueryEngine) (columns : String → String → Option DataType) : Prop :=
  ∀ cache, q.view_cache.read = .ok cache → ∀ table column data_type,
    columns table column = some data_type →
      ∃ view, cache[table]? = some view ∧ view.table_name = table
        ∧ TypedColumn view column data_type

/-! ## Columns -/

section Columns

variable {q : QueryEngine} {view : TableReadView} {table column : String} {data_type : DataType}

theorem TypedColumn.first_batch_column (h : TypedColumn view column data_type) :
    (∃ array, view.first_batch_column column = .ok array ∧ array.data_type = data_type)
      ∨ ∃ message, view.first_batch_column column = .error (.InvalidQuery message) := by
  unfold TableReadView.first_batch_column
  rcases hbatches : view.batches with _ | ⟨batch, rest⟩
  · exact .inr ⟨_, rfl⟩
  have hbatch : batch ∈ view.batches := by simp [hbatches]
  obtain ⟨f, hf, hname⟩ := h.present batch hbatch
  left
  -- the map of the columns has one of this name, since the batch has a field of it
  have hlength := batch.column_count
  obtain ⟨c, hc, hfield⟩ := List.getElem_of_mem hf
  have hmem : (column, batch.columns.get ⟨c, hlength ▸ hc⟩)
      ∈ (batch.schema.fields.map Field.name).zip batch.columns := by
    refine List.mem_iff_getElem.2 ⟨c, by simp [hlength, hc], ?_⟩
    simp [hfield, hname]
  rcases hlookup : ((batch.schema.fields.map Field.name).zip batch.columns).reverse.lookup column
    with _ | array
  · rw [List.lookup_eq_none_iff] at hlookup
    have hne := hlookup _ (List.mem_reverse.2 hmem)
    simp at hne
  · refine ⟨array, by simp only [hlookup], ?_⟩
    obtain ⟨i, hi, hget⟩ := List.getElem_of_mem (List.mem_reverse.1 (Listed.mem_of_lookup hlookup))
    rw [List.getElem_zip, Prod.mk.injEq, List.getElem_map] at hget
    obtain ⟨hi_name, hi_array⟩ := hget
    simp only [List.length_zip, List.length_map] at hi
    have hi_field : i < batch.schema.fields.length := by omega
    rw [RecordBatch.column_type (f := batch.schema.fields[i]) (List.getElem?_eq_getElem hi_field)
      (hi_array ▸ List.getElem?_eq_getElem _)]
    exact h.typed batch hbatch _ (List.getElem_mem _) hi_name

/-- In one batch of the view the column is found, and it is of the type. -/
theorem TypedColumn.lookup_column (h : TypedColumn view column data_type) {lookup : RowLookupView}
    (hview : lookup.view = view) :
    (∃ array, lookup.column_view column = .ok array ∧ array.data_type = data_type)
      ∨ ∃ message, lookup.column_view column = .error (.InvalidQuery message) := by
  unfold RowLookupView.column_view
  rw [hview]
  rcases hbatch : view.batches[lookup.batch_index]? with _ | batch
  · exact .inr ⟨_, rfl⟩
  left
  have hmem := List.mem_of_getElem? hbatch
  obtain ⟨f, hf, hname⟩ := h.present batch hmem
  rcases hindex : batch.schema.index_of column with _ | c
  · rw [Schema.index_of, List.findIdx?_eq_none_iff] at hindex
    have hne := hindex f hf
    simp [hname] at hne
  · have hlt := Schema.index_of_lt hindex
    have hlength := batch.column_count
    have hcolumn := List.getElem?_eq_getElem (l := batch.columns) (hlength ▸ hlt)
    refine ⟨batch.columns[c], by simp only [hindex, Option.bind_some, hcolumn], ?_⟩
    rw [RecordBatch.column_type (List.getElem?_eq_getElem hlt) hcolumn]
    apply h.typed batch hmem _ (List.getElem_mem hlt)
    have hfound := (List.findIdx?_eq_some_iff_getElem.1 hindex).2.1
    simpa using hfound

/-- A row of a table that is in the cache is found in its view, or it is not there. -/
theorem QueryEngine.lookup_row_cases {cache : Map String TableReadView}
    (hcache : q.view_cache.read = .ok cache) (hview : cache[table]? = some view)
    (hname : view.table_name = table) (row : RowId) :
    (∃ lookup, q.lookup_row table row = .ok lookup ∧ lookup.view = view)
      ∨ ∃ message, q.lookup_row table row = .error (.InvalidQuery message) := by
  unfold lookup_row
  rcases htick : q.load_latest_tick with _ | tick
  · exact .inr ⟨_, rfl⟩
  have hpublished : Scharnhorst.Published q table view :=
    ⟨⟨cache, hcache, hview⟩, hname, tick, htick⟩
  simp only [hpublished.read_single_table htick, bind, Except.bind]
  rcases view.position_map.position_of row with _ | ⟨batch_index, row_offset⟩
  · exact .inr ⟨_, rfl⟩
  · exact .inl ⟨_, rfl, rfl⟩

end Columns

namespace RuleEvaluator

variable {Q J : Type} {Γ : Context}

/-- An evaluator as the context describes it. -/
structure Conforms (Γ : Context) (ev : RuleEvaluator Q J) : Prop where
  vars : ∀ name k, Γ.vars name = some k → ∃ v, ev.vars[name]? = some v ∧ v.kind = k
  columns : ∀ q, ev.query_engine.read = .ok q → q.Publishes Γ.columns
  functions : ∀ func s, Γ.functions func = some s →
    (∀ expected, ev.builtin_arg_counts[func]? = some expected → s.params.length = expected)
      ∧ ∃ f, ev.builtins[func]? = some f ∧ s.Kept f

/-- An expression of this kind: it comes to a value of the kind, or to an error of the run. -/
def HasKind (Γ : Context) (k : Kind) (x : Evaluation Q J) : Prop :=
  Triple (Conforms Γ) x (fun v ev => v.kind = k ∧ Conforms Γ ev) fun e _ => RunError e

/-- A result that is there, in whatever evaluator. -/
theorem hasKind_done {k : Kind} {v : EvalValue} (h : v.kind = k) :
    HasKind Γ k (done (σ := RuleEvaluator Q J) (.ok v)) :=
  triple_value fun _ hev => ⟨h, hev⟩

/-- What reads, and returns as it should, has its kind. -/
theorem hasKind_of_reads {k : Kind} {x : Evaluation Q J} (hreads : Reads x)
    (h : ∀ ev, Conforms Γ ev → Comes (fun v => v.kind = k) (x ev).1) : HasKind Γ k x := by
  have hvalue : Triple (Conforms Γ) x (fun v _ => v.kind = k) fun e _ => RunError e := by
    refine ⟨?_, ?_⟩
    · intro ev v _ hev hrun
      exact (h ev hev).ok v (congrArg Prod.fst hrun)
    · intro ev e _ hev hrun
      exact (h ev hev).error e (congrArg Prod.fst hrun)
  exact (hvalue.frame hreads).weaken (fun _ h => h) (fun _ _ h => h) fun _ _ h => h.1

/-! ## Nodes -/

section Nodes

variable {x y z : Evaluation Q J} {xs : List (Evaluation Q J)} {k : Kind}

/-- The operand first, and then what its value decides. -/
theorem HasKind.and_then {k' : Kind} {f : EvalValue → Evaluation Q J} (hx : HasKind Γ k x)
    (hf : ∀ v, v.kind = k → HasKind Γ k' (f v)) : HasKind Γ k' (ReadOnly.and_then x f) := by
  apply Triple.and_then hx
  intro v
  refine ⟨?_, ?_⟩
  · intro ev w ev' hev hrun
    exact (hf v hev.1).ok ev w ev' hev.2 hrun
  · intro ev e ev' hev hrun
    exact (hf v hev.1).error ev e ev' hev.2 hrun

theorem hasKind_not (hx : HasKind Γ .bool x) : HasKind Γ .bool (evaluate_not x) := by
  apply hx.and_then
  intro v hv
  obtain ⟨b, rfl⟩ := EvalValue.bool_of_kind hv
  exact hasKind_done rfl

theorem hasKind_and (h : ∀ x ∈ xs, HasKind Γ .bool x) : HasKind Γ .bool (evaluate_and xs) := by
  induction xs with
  | nil => exact hasKind_done rfl
  | cons x xs ih =>
    obtain ⟨hx, hxs⟩ := List.forall_mem_cons.1 h
    apply hx.and_then
    intro v hv
    obtain ⟨b, rfl⟩ := EvalValue.bool_of_kind hv
    cases b with
    | true => exact ih hxs
    | false => exact hasKind_done rfl

theorem hasKind_or (h : ∀ x ∈ xs, HasKind Γ .bool x) : HasKind Γ .bool (evaluate_or xs) := by
  induction xs with
  | nil => exact hasKind_done rfl
  | cons x xs ih =>
    obtain ⟨hx, hxs⟩ := List.forall_mem_cons.1 h
    apply hx.and_then
    intro v hv
    obtain ⟨b, rfl⟩ := EvalValue.bool_of_kind hv
    cases b with
    | true => exact hasKind_done rfl
    | false => exact ih hxs

theorem compare_values_ok {op : CompareOp} {v w : EvalValue} (hcomparable : v.kind.comparable)
    (hkind : w.kind = v.kind) : ∃ b, compare_values op v w = .ok (.Bool b) := by
  cases v <;> cases w <;> simp_all [EvalValue.kind, Kind.comparable, compare_values]

theorem hasKind_compare (op : CompareOp) (hcomparable : k.comparable) (hx : HasKind Γ k x)
    (hy : HasKind Γ k y) : HasKind Γ .bool (evaluate_compare op x y) := by
  apply hx.and_then
  intro v hv
  apply hy.and_then
  intro w hw
  obtain ⟨b, hb⟩ := @compare_values_ok op _ _ (hv ▸ hcomparable) (hw.trans hv.symm)
  rw [hb]
  exact hasKind_done rfl

/-- Two numbers come to a number, or to an error of arithmetic. -/
theorem comes_arithmetic {op : ArithmeticOp} (hop : op ≠ .Rem) (a b : FixedPoint) :
    Comes (fun v => v.kind = .number) (arithmetic_values op (.FixedPoint a) (.FixedPoint b)) := by
  have hcore : ∀ r : CoreResult FixedPoint,
      Comes (fun v => v.kind = .number) ((r.mapError RuleError.Core).map EvalValue.FixedPoint) := by
    intro r
    rcases r with e | x
    · exact .failure (.arithmetic e)
    · exact .value rfl
  cases op with
  | Rem => exact absurd rfl hop
  | _ => exact hcore _

theorem hasKind_arithmetic {op : ArithmeticOp} (hop : op ≠ .Rem) (hx : HasKind Γ .number x)
    (hy : HasKind Γ .number y) : HasKind Γ .number (evaluate_arithmetic op x y) := by
  apply hx.and_then
  intro v hv
  apply hy.and_then
  intro w hw
  obtain ⟨a, rfl⟩ := EvalValue.fixed_point_of_kind hv
  obtain ⟨b, rfl⟩ := EvalValue.fixed_point_of_kind hw
  exact hasKind_of_reads (reads_done _) fun _ _ => comes_arithmetic hop a b

theorem hasKind_if (hx : HasKind Γ .bool x) (hy : HasKind Γ k y) (hz : HasKind Γ k z) :
    HasKind Γ k (evaluate_if x y z) := by
  apply hx.and_then
  intro v hv
  obtain ⟨b, rfl⟩ := EvalValue.bool_of_kind hv
  cases b with
  | true => exact hy
  | false => exact hz

/-! ### Lists of operands -/

/-- The values that a list of computations comes to have its kinds. -/
theorem triple_kinds {kinds : List Kind} (h : List.Forall₂ (fun x k => HasKind Γ k x) xs kinds) :
    Triple (Conforms Γ) (collect xs)
      (fun values ev => values.map EvalValue.kind = kinds ∧ Conforms Γ ev) fun e _ => RunError e := by
  have hconds : List.Forall₂ (fun x V => Triple (Conforms Γ) x (fun v ev => V v ∧ Conforms Γ ev)
      fun e _ => RunError e) xs (kinds.map fun k (v : EvalValue) => v.kind = k) :=
    List.forall₂_map_right_iff.2 h
  refine (triple_collect hconds).weaken (fun _ h => h) ?_ fun _ _ h => h
  rintro values ev ⟨hall, hev⟩
  rw [List.forall₂_map_left_iff] at hall
  refine ⟨?_, hev⟩
  rw [← List.forall₂_eq_eq_eq, List.forall₂_map_left_iff]
  exact hall.flip

theorem hasKind_list {kinds : List Kind} (h : List.Forall₂ (fun k x => HasKind Γ k x) kinds xs) :
    HasKind Γ .list (evaluate_list xs) := by
  apply (triple_kinds h.flip).and_then
  intro values
  exact triple_value fun _ hev => ⟨rfl, hev.2⟩

/-- Entries with a name each, of these kinds. -/
def EntryKind (Γ : Context) (kind : String × Kind) (entry : String × Evaluation Q J) : Prop :=
  entry.1 = kind.1 ∧ HasKind Γ kind.2 entry.2

variable {kinds : List (String × Kind)} {args : List (String × Evaluation Q J)}

theorem hasKind_map (h : List.Forall₂ (EntryKind Γ) kinds args) :
    HasKind Γ .map (evaluate_map args) := by
  have hentry : List.Forall₂ (fun x V => Triple (Conforms Γ) x
      (fun entry ev => V entry ∧ Conforms Γ ev) fun e (_ : RuleEvaluator Q J) => RunError e)
      (args.map evaluate_entry) (kinds.map fun _ (_ : String × EvalValue) => True) := by
    rw [List.forall₂_map_left_iff, List.forall₂_map_right_iff]
    refine h.flip.imp ?_
    intro entry kind hkind
    apply Triple.and_then hkind.2
    intro v
    exact triple_value fun _ hev => ⟨trivial, hev.2⟩
  apply (triple_collect hentry).and_then
  intro values
  exact triple_value fun _ hev => ⟨rfl, hev.2⟩

/-- An argument has the kind that is under its key. -/
theorem hasKind_argument (h : List.Forall₂ (EntryKind Γ) kinds args) (func name : String)
    {k : Kind} (hk : kinds.lookup name = some k) : HasKind Γ k (argument func args name) := by
  obtain ⟨x, hx, hkind⟩ := Listed.lookup_of_forall₂ (R := HasKind Γ) h hk
  unfold argument
  rw [hx]
  exact hkind

/-- As many arguments as the function is registered with pass the count. -/
theorem triple_arg_count {func : String} {s : Signature} (hfunc : Γ.functions func = some s) :
    Triple (Conforms Γ) (check_arg_count (Q := Q) (J := J) func s.params.length)
      (fun _ ev => Conforms Γ ev) fun e _ => RunError e := by
  have hpass : ∀ ev : RuleEvaluator Q J, Conforms Γ ev →
      check_arg_count func s.params.length ev = (.ok (), ev) := by
    intro ev hev
    unfold check_arg_count
    rcases hexpected : ev.builtin_arg_counts[func]? with _ | expected
    · rfl
    · simp only
      rw [if_pos ((hev.functions func s hfunc).1 expected hexpected)]
  refine ⟨?_, ?_⟩
  · intro ev _ ev' hev hrun
    rw [hpass ev hev] at hrun
    rw [← (Prod.mk.inj hrun).2]
    exact hev
  · intro ev e ev' hev hrun
    rw [hpass ev hev] at hrun
    cases (Prod.mk.inj hrun).1

/-- The arguments, by the order of their names, are of the kinds of the parameters. -/
theorem forall₂_arguments {params : List Kind} (h : List.Forall₂ (EntryKind Γ) kinds args)
    (hparams : argument_kinds kinds = params.map some) (func : String) :
    List.Forall₂ (fun x k => HasKind Γ k x) ((sorted_keys args).map (argument func args))
      params := by
  have hkeys : sorted_keys args = (kinds.map Prod.fst).insertionSort (· ≤ ·) := by
    rw [sorted_keys, Listed.keys_of_forall₂ (R := HasKind Γ) h]
  have hlookup : List.Forall₂ (fun name k => kinds.lookup name = some k)
      ((kinds.map Prod.fst).insertionSort (· ≤ ·)) params := by
    rw [← List.forall₂_map_left_iff (f := fun name => kinds.lookup name)
      (R := fun o k => o = some k), ← List.forall₂_map_right_iff (f := some) (R := Eq)]
    exact List.forall₂_eq_eq_eq ▸ hparams
  rw [hkeys, List.forall₂_map_left_iff]
  exact hlookup.imp fun name k hk => hasKind_argument h func name hk

/-- A function that keeps its signature, on arguments of the kinds of its parameters. -/
theorem triple_builtin {func : String} {s : Signature} (hfunc : Γ.functions func = some s)
    {values : List EvalValue} :
    Triple (fun ev : RuleEvaluator Q J => values.map EvalValue.kind = s.params ∧ Conforms Γ ev)
      (apply_builtin func values) (fun v ev => v.kind = s.result ∧ Conforms Γ ev)
      fun e _ => RunError e := by
  have happly : ∀ ev : RuleEvaluator Q J, Conforms Γ ev → ∃ f, s.Kept f
      ∧ apply_builtin func values ev = (f values, ev) := by
    intro ev hev
    obtain ⟨-, f, hf, hkept⟩ := hev.functions func s hfunc
    refine ⟨f, hkept, ?_⟩
    unfold apply_builtin
    rw [hf]
  refine ⟨?_, ?_⟩
  · rintro ev v ev' ⟨hkinds, hev⟩ hrun
    obtain ⟨f, hkept, heq⟩ := happly ev hev
    rw [heq] at hrun
    obtain ⟨hv, rfl⟩ := Prod.mk.inj hrun
    exact ⟨(hkept values hkinds).ok v hv, hev⟩
  · rintro ev e ev' ⟨hkinds, hev⟩ hrun
    obtain ⟨f, hkept, heq⟩ := happly ev hev
    rw [heq] at hrun
    exact (hkept values hkinds).error e (Prod.mk.inj hrun).1

/-- A call evaluates the arguments by the order of their names, and that is the order of the
parameters. -/
theorem hasKind_call {func : String} {s : Signature} (hfunc : Γ.functions func = some s)
    (h : List.Forall₂ (EntryKind Γ) kinds args)
    (hparams : argument_kinds kinds = s.params.map some) :
    HasKind Γ s.result (evaluate_call func args) := by
  have hlength : args.length = s.params.length := by
    have hlen := congrArg List.length hparams
    simp only [argument_kinds, List.length_map, List.length_insertionSort] at hlen
    rw [← hlen, h.length_eq]
  unfold evaluate_call
  rw [hlength]
  apply (triple_arg_count hfunc).and_then
  intro _
  apply (triple_kinds (forall₂_arguments h hparams func)).and_then
  intro values
  exact triple_builtin hfunc

end Nodes

/-! ### Reading -/

theorem hasKind_var {var : VarRef} {k : Kind} (h : Γ.vars var.name = some k) :
    HasKind Γ k (resolve_var (Q := Q) (J := J) var) := by
  apply hasKind_of_reads (reads_var var)
  intro ev hev
  obtain ⟨w, hw, hkind⟩ := hev.vars var.name k h
  simp only [resolve_var, hw]
  exact .value hkind

section Cell

variable {q : QueryEngine} {modifiers : ModifierRegistry} {path : ColumnPath} {row : RowId}

/-- The modifiers fail as arithmetic does. -/
theorem comes_core {α : Type} (r : CoreResult α) : Comes (fun _ => True) (r.mapError .Core) := by
  refine ⟨fun _ _ => trivial, ?_⟩
  intro e he
  rcases r with error | x
  · cases he
    exact .arithmetic error
  · cases he

/-- A float that no fixed-point number holds. -/
theorem comes_fraction {α : Type} (r : CoreResult α) :
    Comes (fun _ => True) (r.mapError fun e => .Evaluation e.to_string) := by
  refine ⟨fun _ _ => trivial, ?_⟩
  intro e he
  rcases r with error | x
  · cases he
    exact .fraction error
  · cases he

theorem comes_apply (m : Modifier) (base : FixedPoint) :
    Comes (fun _ => True) (m.apply base) := by
  unfold Modifier.apply
  split
  · exact (comes_core _).bind fun _ _ => comes_core _
  · exact (comes_core _).bind fun _ _ => comes_core _
  · exact .value trivial

theorem comes_aggregate (table column : String) (base : FixedPoint) :
    Comes (fun _ => True) (modifiers.aggregate table column base) := by
  have hfold : ∀ (mods : List Modifier) (base : FixedPoint),
      Comes (fun _ => True) (mods.foldlM (fun acc m => m.apply acc) base) := by
    intro mods
    induction mods with
    | nil => exact fun base => .value trivial
    | cons m mods ih =>
      intro base
      rw [List.foldlM_cons]
      exact (comes_apply m base).bind fun acc _ => ih acc
  apply (hfold _ _).bind
  intro after_add _
  apply (hfold _ _).bind
  intro after_mul _
  split
  · exact .value trivial
  · exact comes_apply _ _

/-- What a getter does in an array of its own type. -/
def Gets {α : Type} (r : QueryResult (Option α)) : Prop :=
  (∃ val, r = .ok val) ∨ ∃ row, r = .error (.IndexOutOfBounds row)

section Getters

variable {array : ArrayRef} (column : String) (offset : Nat)

theorem get_int64_gets (h : array.data_type = .Int64) : Gets (get_int64 array column offset) := by
  cases array with
  | Int64Array a =>
    by_cases hlen : a.len ≤ offset
    · exact .inr ⟨offset, if_pos hlen⟩
    · exact .inl ⟨_, if_neg hlen⟩
  | _ => cases h

theorem get_float64_gets (h : array.data_type = .Float64) :
    Gets (get_float64 array column offset) := by
  cases array with
  | Float64Array a =>
    by_cases hlen : a.len ≤ offset
    · exact .inr ⟨offset, if_pos hlen⟩
    · exact .inl ⟨_, if_neg hlen⟩
  | _ => cases h

theorem get_boolean_gets (h : array.data_type = .Boolean) :
    Gets (get_boolean array column offset) := by
  cases array with
  | BooleanArray a =>
    by_cases hlen : a.length ≤ offset
    · exact .inr ⟨offset, if_pos hlen⟩
    · exact .inl ⟨_, if_neg hlen⟩
  | _ => cases h

theorem get_utf8_gets (h : array.data_type = .Utf8) : Gets (get_utf8 array column offset) := by
  cases array with
  | StringArray a =>
    by_cases hlen : a.length ≤ offset
    · exact .inr ⟨offset, if_pos hlen⟩
    · exact .inl ⟨_, if_neg hlen⟩
  | _ => cases h

end Getters

/-- The cell of a row, in the batch that the row is in. -/
theorem comes_cell {α : Type} {get : ArrayRef → String → Nat → QueryResult (Option α)}
    {view : TableReadView} {column : String} {data_type : DataType}
    (htyped : TypedColumn view column data_type) {lookup : RowLookupView}
    (hview : lookup.view = view)
    (hget : ∀ array, array.data_type = data_type → Gets (get array column lookup.row_offset))
    (default : α) :
    Comes (fun _ => True) ((lookup.column_view column >>= fun array =>
      get array column lookup.row_offset).mapError RuleError.Query
        >>= fun val => pure (val.getD default)) := by
  refine Comes.bind (V := fun _ => True) ⟨fun _ _ => trivial, ?_⟩ fun _ _ => .value trivial
  intro e he
  obtain ⟨array, harray, htype⟩ | ⟨message, hmessage⟩ := htyped.lookup_column hview
  · rw [harray] at he
    obtain ⟨val, hval⟩ | ⟨row, hrow⟩ := hget array htype
    · simp only [bind, Except.bind, hval, Except.mapError] at he
      cases he
    · simp only [bind, Except.bind, hrow, Except.mapError] at he
      cases he
      exact .past_end row
  · rw [hmessage] at he
    cases he
    exact .no_row message

/-- The value of a column is of its kind, whichever of the getters reads it. -/
theorem comes_column {columns : String → String → Option DataType} {data_type : DataType}
    {k : Kind} (hq : q.Publishes columns) (htype : columns path.table path.column = some data_type)
    (hk : column_kind data_type = some k) :
    Comes (fun v => v.kind = k) (column_value q modifiers path row) := by
  unfold column_value
  rcases hcache : q.view_cache.read with message | cache
  · have hview : q.column_view path.table path.column = .error (.UnifiedRead "poisoned lock") := by
      simp only [QueryEngine.column_view, hcache]
    rw [hview]
    exact .failure (.cache_lock _)
  obtain ⟨view, hview, hname, htyped⟩ := hq cache hcache _ _ _ htype
  have hfirst : q.column_view path.table path.column = view.first_batch_column path.column := by
    simp only [QueryEngine.column_view, hcache, hview]
  rw [hfirst]
  obtain ⟨col_view, hcol, hcol_type⟩ | ⟨message, hmessage⟩ := htyped.first_batch_column
  swap
  · rw [hmessage]
    exact .failure (.no_row _)
  rw [hcol]
  obtain ⟨lookup, hlookup, hlookup_view⟩ | ⟨message, hmessage⟩ :=
    QueryEngine.lookup_row_cases hcache hview hname row
  swap
  · rw [hmessage]
    exact .failure (.no_row _)
  rw [hlookup]
  apply (Comes.value (V := fun a => a = col_view) rfl).bind
  rintro _ rfl
  apply (Comes.value (V := fun l => l = lookup) rfl).bind
  rintro _ rfl
  rw [hcol_type]
  -- one getter for each type that has a kind
  cases data_type with
  | Int64 =>
    cases hk
    apply (comes_cell htyped hlookup_view (fun _ h => get_int64_gets _ _ h) _).bind
    intro val _
    exact (comes_aggregate _ _ _).bind fun _ _ => .value rfl
  | Float64 =>
    cases hk
    apply (comes_cell htyped hlookup_view (fun _ h => get_float64_gets _ _ h) _).bind
    intro val _
    apply (comes_fraction _).bind
    intro fp _
    exact (comes_aggregate _ _ _).bind fun _ _ => .value rfl
  | Boolean =>
    cases hk
    apply (comes_cell htyped hlookup_view (fun _ h => get_boolean_gets _ _ h) _).bind
    exact fun val _ => .value rfl
  | Utf8 =>
    cases hk
    apply (comes_cell htyped hlookup_view (fun _ h => get_utf8_gets _ _ h) _).bind
    exact fun val _ => .value rfl
  | _ => cases hk

end Cell

theorem hasKind_column {path : ColumnPath} {k : Kind}
    (h : (Γ.columns path.table path.column).bind column_kind = some k) :
    HasKind Γ k (evaluate_column (Q := Q) (J := J) path) := by
  obtain ⟨data_type, htype, hk⟩ := Option.bind_eq_some_iff.1 h
  apply hasKind_of_reads (reads_column path)
  intro ev hev
  unfold evaluate_column
  rcases hq : ev.query_engine.read with message | q
  · exact .failure (.engine_lock _)
  · exact comes_column (hev.columns q hq) htype hk

/-! ## Expressions -/

theorem forall_bool {items : List Expr} {xs : List (Evaluation Q J)}
    (h : List.Forall₂ (fun k x => HasKind Γ k x) (items.map fun _ => .bool) xs) :
    ∀ x ∈ xs, HasKind Γ .bool x := by
  rw [List.forall₂_map_left_iff] at h
  intro x hx
  obtain ⟨i, hi, rfl⟩ := List.getElem_of_mem hx
  exact h.get (h.length_eq ▸ hi) hi

mutual

/-- By induction on the expression. -/
theorem evaluate_hasKind : ∀ (expr : Expr) {k : Kind}, kind_of Γ expr = some k →
    HasKind Γ k (evaluate (Q := Q) (J := J) expr)
  | .Const _, _, h => hasKind_done (Option.some.inj h)
  | .Bool _, _, h => hasKind_done (Option.some.inj h)
  | .String _, _, h => hasKind_done (Option.some.inj h)
  | .RowId _, _, h => hasKind_done (Option.some.inj h)
  | .Column _, _, h => hasKind_column h
  | .Var _, _, h => hasKind_var h
  | .Not inner, k, h => by
    rw [kind_of] at h
    obtain ⟨hinner, hk⟩ := Option.ite_none_right_eq_some.1 h
    cases hk
    exact hasKind_not (evaluate_hasKind inner hinner)
  | .And items, k, h => by
    rw [kind_of] at h
    obtain ⟨hitems, hk⟩ := Option.ite_none_right_eq_some.1 h
    cases hk
    exact hasKind_and (forall_bool (items_hasKind items hitems))
  | .Or items, k, h => by
    rw [kind_of] at h
    obtain ⟨hitems, hk⟩ := Option.ite_none_right_eq_some.1 h
    cases hk
    exact hasKind_or (forall_bool (items_hasKind items hitems))
  | .Compare op lhs rhs, k, h => by
    rw [kind_of] at h
    obtain ⟨k', hlhs, h⟩ := Option.bind_eq_some_iff.1 h
    obtain ⟨⟨hcomparable, hrhs⟩, hk⟩ := Option.ite_none_right_eq_some.1 h
    cases hk
    exact hasKind_compare op hcomparable (evaluate_hasKind lhs hlhs) (evaluate_hasKind rhs hrhs)
  | .Arithmetic op lhs rhs, k, h => by
    rw [kind_of] at h
    obtain ⟨⟨hop, hlhs, hrhs⟩, hk⟩ := Option.ite_none_right_eq_some.1 h
    cases hk
    exact hasKind_arithmetic hop (evaluate_hasKind lhs hlhs) (evaluate_hasKind rhs hrhs)
  | .If cond then_branch else_branch, k, h => by
    rw [kind_of] at h
    obtain ⟨⟨hcond, helse⟩, hthen⟩ := Option.ite_none_right_eq_some.1 h
    exact hasKind_if (evaluate_hasKind cond hcond) (evaluate_hasKind then_branch hthen)
      (evaluate_hasKind else_branch (helse.trans hthen))
  | .Call func args, k, h => by
    rw [kind_of] at h
    obtain ⟨s, hfunc, h⟩ := Option.bind_eq_some_iff.1 h
    obtain ⟨kinds, hargs, h⟩ := Option.bind_eq_some_iff.1 h
    obtain ⟨hparams, hk⟩ := Option.ite_none_right_eq_some.1 h
    cases hk
    exact hasKind_call hfunc (entries_hasKind args hargs) hparams
  | .List items, k, h => by
    rw [kind_of] at h
    obtain ⟨kinds, hitems, hk⟩ := Option.map_eq_some_iff.1 h
    cases hk
    exact hasKind_list (items_hasKind items hitems)
  | .Map entries, k, h => by
    rw [kind_of] at h
    obtain ⟨kinds, hentries, hk⟩ := Option.map_eq_some_iff.1 h
    cases hk
    exact hasKind_map (entries_hasKind entries hentries)

theorem items_hasKind : ∀ (items : List Expr) {kinds : List Kind}, kinds_of Γ items = some kinds →
    List.Forall₂ (fun k x => HasKind Γ k x) kinds (evaluate_items (Q := Q) (J := J) items)
  | [], kinds, h => by
    rw [kinds_of] at h
    cases h
    exact .nil
  | item :: items, kinds, h => by
    rw [kinds_of] at h
    obtain ⟨k, hitem, h⟩ := Option.bind_eq_some_iff.1 h
    obtain ⟨rest, hitems, hkinds⟩ := Option.map_eq_some_iff.1 h
    cases hkinds
    exact .cons (evaluate_hasKind item hitem) (items_hasKind items hitems)

theorem entries_hasKind : ∀ (entries : List (String × Expr)) {kinds : List (String × Kind)},
    entry_kinds Γ entries = some kinds →
      List.Forall₂ (EntryKind Γ) kinds (evaluate_entries (Q := Q) (J := J) entries)
  | [], kinds, h => by
    rw [entry_kinds] at h
    cases h
    exact .nil
  | (name, expr) :: entries, kinds, h => by
    rw [entry_kinds] at h
    obtain ⟨k, hexpr, h⟩ := Option.bind_eq_some_iff.1 h
    obtain ⟨rest, hentries, hkinds⟩ := Option.map_eq_some_iff.1 h
    cases hkinds
    exact .cons ⟨rfl, evaluate_hasKind expr hexpr⟩ (entries_hasKind entries hentries)

end

end RuleEvaluator

end Scharnhorst
