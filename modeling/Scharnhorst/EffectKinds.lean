/-
Rules whose kinds are known do not fail for their kinds.

An effect binds variables as it runs, so what is known after it is more than before.
`context_after` walks the tree as the evaluator does and computes that, or nothing if an
expression on the way has no kind. A run from an evaluator that the context describes then ends in
one that the context after it describes, or it fails with one of the errors that no kind excludes.

The functions of a new evaluator have signatures. One that is registered may have any, but a
name that stands among the counts of arguments keeps its count.
-/
import Scharnhorst.EffectRuns
import Scharnhorst.RuleKinds
import Scharnhorst.WriteBack

set_option autoImplicit false

namespace Scharnhorst

open ReadOnly Triples

/-! ## Effects -/

/-- The errors of an effect that no kind excludes. -/
inductive EffectError : RuleError → Prop
  | run {e : RuleError} (h : RunError e) : EffectError e
  | not_a_number : EffectError (.Evaluation "cannot convert FixedPoint to JSON number")
  | journal_lock (message : String) : EffectError (.JournalWrapper message)
  | journal (e : JournalError) : EffectError (.Journal e)

mutual

def context_after (Γ : Context) : Effect → Option Context
  | .UpdateColumn _ _ value => (kind_of Γ value).map fun _ => Γ
  | .InsertRow _ _ values => (entry_kinds Γ values).map fun _ => Γ
  | .SetVariable name value => (kind_of Γ value).map (Γ.bind name)
  | .Sequence effects => context_after_all Γ effects

def context_after_all (Γ : Context) : List Effect → Option Context
  | [] => some Γ
  | e :: effects => (context_after Γ e).bind fun Γ' => context_after_all Γ' effects

end

/-! ## JSON -/

mutual

/-- Only a number can have no JSON. -/
theorem json_error : ∀ (v : EvalValue) (e : RuleError), eval_value_to_json v = .error e →
    e = .Evaluation "cannot convert FixedPoint to JSON number"
  | .FixedPoint fp, e, h => by
    unfold eval_value_to_json at h
    split at h
    · exact (Except.error.inj h).symm
    · cases h
  | .Bool _, _, h => by
    unfold eval_value_to_json at h
    cases h
  | .String _, _, h => by
    unfold eval_value_to_json at h
    cases h
  | .RowId _, _, h => by
    unfold eval_value_to_json at h
    cases h
  | .List items, e, h => by
    unfold eval_value_to_json at h
    rcases hitems : items_to_json items with error | vals
    · rw [hitems] at h
      cases h
      exact items_json_error items e hitems
    · rw [hitems] at h
      cases h
  | .Map entries, e, h => by
    unfold eval_value_to_json at h
    rcases hentries : entries_to_json entries with error | fields
    · rw [hentries] at h
      cases h
      exact entries_json_error entries e hentries
    · rw [hentries] at h
      cases h

theorem items_json_error : ∀ (items : List EvalValue) (e : RuleError),
    items_to_json items = .error e →
      e = .Evaluation "cannot convert FixedPoint to JSON number"
  | [], _, h => by
    unfold items_to_json at h
    cases h
  | item :: items, e, h => by
    unfold items_to_json at h
    obtain h | ⟨val, -, h⟩ := bind_eq_error.1 h
    · exact json_error item e h
    obtain h | ⟨vals, -, h⟩ := bind_eq_error.1 h
    · exact items_json_error items e h
    · cases h

theorem entries_json_error : ∀ (entries : List (String × EvalValue)) (e : RuleError),
    entries_to_json entries = .error e →
      e = .Evaluation "cannot convert FixedPoint to JSON number"
  | [], _, h => by
    unfold entries_to_json at h
    cases h
  | (_, v) :: entries, e, h => by
    unfold entries_to_json at h
    obtain h | ⟨val, -, h⟩ := bind_eq_error.1 h
    · exact json_error v e h
    obtain h | ⟨fields, -, h⟩ := bind_eq_error.1 h
    · exact entries_json_error entries e h
    · cases h

end

namespace RuleEvaluator

variable {Q J : Type} {Γ Γ' : Context}

/-! ## Leaves -/

/-- An effect that goes from the one context to the other. -/
def Leads (Γ Γ' : Context) (x : Computation (RuleEvaluator Q J) RuleError Unit) : Prop :=
  Triple (Conforms Γ) x (fun _ ev => Conforms Γ' ev) fun e _ => EffectError e

theorem triple_to_json {expr : Expr} {k : Kind} (h : kind_of Γ expr = some k) :
    Triple (Conforms Γ) (evaluate_to_json (Q := Q) (J := J) expr) (fun _ ev => Conforms Γ ev)
      fun e _ => EffectError e := by
  have hvalue := (evaluate_hasKind (Q := Q) (J := J) expr h).weaken (fun _ hev => hev)
    (fun _ _ h => h.2) fun _ _ => EffectError.run
  apply hvalue.and_then
  intro v
  rcases hjson : eval_value_to_json v with e | json
  · rw [json_error v e hjson]
    exact triple_failure fun _ _ => .not_a_number
  · exact triple_value fun _ hev => hev

theorem triple_values {values : List (String × Expr)} {kinds : List (String × Kind)}
    (h : entry_kinds Γ values = some kinds) (evaluated : JsonMap) :
    Triple (Conforms Γ) (evaluate_values (Q := Q) (J := J) evaluated values)
      (fun _ ev => Conforms Γ ev) fun e _ => EffectError e := by
  induction values generalizing kinds evaluated with
  | nil => exact triple_value fun _ hev => hev
  | cons entry values ih =>
    rw [entry_kinds] at h
    obtain ⟨k, hexpr, h⟩ := Option.bind_eq_some_iff.1 h
    obtain ⟨rest, hvalues, -⟩ := Option.map_eq_some_iff.1 h
    apply (triple_to_json hexpr).and_then
    intro json_val
    exact ih hvalues _

/-- What is submitted is no part of what the context says. -/
theorem Conforms.set_journal {ev : RuleEvaluator Q J} (h : Conforms Γ ev)
    (journal : RwLock (Journal Q J)) : Conforms Γ { ev with journal } :=
  ⟨h.vars, h.columns, h.functions⟩

theorem leads_submit (diff : Diff) : Leads (Q := Q) (J := J) Γ Γ (submit_diff diff) := by
  refine ⟨?_, ?_⟩
  · intro ev u ev' hev hrun
    unfold submit_diff at hrun
    split at hrun
    · cases hrun
    · rw [← (Prod.mk.inj hrun).2]
      exact hev.set_journal _
  · intro ev e ev' hev hrun
    unfold submit_diff at hrun
    split at hrun
    · rw [← Except.error.inj (Prod.mk.inj hrun).1]
      exact .journal_lock _
    · rename_i journal _
      rcases hsubmit : journal.submit_diff diff with ⟨error | u, journal'⟩
      · rw [hsubmit] at hrun
        rw [← Except.error.inj (Prod.mk.inj hrun).1]
        exact .journal error
      · rw [hsubmit] at hrun
        cases (Prod.mk.inj hrun).1

theorem Conforms.bind_var {ev : RuleEvaluator Q J} (h : Conforms Γ ev) {k : Kind} {v : EvalValue}
    (hk : v.kind = k) (name : String) : Conforms (Γ.bind name k) (ev.bind_var name v) where
  vars := by
    intro n k' hn
    simp only [Context.bind] at hn
    simp only [RuleEvaluator.bind_var, Std.ExtTreeMap.getElem?_insert,
      Std.LawfulEqCmp.compare_eq_iff_eq]
    by_cases hname : n = name
    · rw [if_pos hname] at hn
      rw [if_pos hname.symm]
      exact ⟨v, rfl, hk.trans (Option.some.inj hn)⟩
    · rw [if_neg hname] at hn
      rw [if_neg (Ne.symm hname)]
      exact h.vars n k' hn
  columns := h.columns
  functions := h.functions

/-! ## Trees -/

mutual

/-- By induction on the tree. -/
theorem effect_leads : ∀ (effect : Effect) {Γ Γ' : Context}, context_after Γ effect = some Γ' →
    Leads (Q := Q) (J := J) Γ Γ' (evaluate_effect effect)
  | .UpdateColumn table column value, Γ, Γ', h => by
    obtain ⟨k, hk, rfl⟩ := Option.map_eq_some_iff.1 h
    apply (triple_to_json hk).and_then
    intro json_val
    refine ⟨?_, ?_⟩
    · intro ev u ev' hev hrun
      exact (leads_submit _).ok ev u ev' hev hrun
    · intro ev e ev' hev hrun
      exact (leads_submit _).error ev e ev' hev hrun
  | .InsertRow table row values, Γ, Γ', h => by
    obtain ⟨kinds, hkinds, rfl⟩ := Option.map_eq_some_iff.1 h
    apply (triple_values hkinds ∅).and_then
    intro evaluated
    exact leads_submit _
  | .SetVariable name value, Γ, Γ', h => by
    obtain ⟨k, hk, rfl⟩ := Option.map_eq_some_iff.1 h
    apply ((evaluate_hasKind (Q := Q) (J := J) value hk).weaken (fun _ hev => hev)
      (fun _ _ h => h) fun _ _ => EffectError.run).and_then
    intro v
    refine ⟨?_, ?_⟩
    · rintro ev u ev' ⟨hv, hev⟩ hrun
      rw [← (Prod.mk.inj hrun).2]
      exact hev.bind_var hv name
    · rintro ev e ev' - hrun
      cases (Prod.mk.inj hrun).1
  | .Sequence effects, Γ, Γ', h => effects_lead effects h

theorem effects_lead : ∀ (effects : List Effect) {Γ Γ' : Context},
    context_after_all Γ effects = some Γ' →
      Leads (Q := Q) (J := J) Γ Γ' (evaluate_effects effects)
  | [], Γ, Γ', h => by
    cases h
    exact triple_value fun _ hev => hev
  | e :: effects, Γ, Γ', h => by
    rw [context_after_all] at h
    obtain ⟨mid, hfirst, hrest⟩ := Option.bind_eq_some_iff.1 h
    apply Triple.and_then (effect_leads e hfirst)
    intro _
    exact effects_lead effects hrest

end

/-! ## Functions -/

/-- `register_function`. The counts of arguments stay as they are. -/
def register_function (ev : RuleEvaluator Q J) (name : String) (func : BuiltinFn) :
    RuleEvaluator Q J :=
  { ev with builtins := ev.builtins.insert name func }

/-- A registered function is known by its signature from then on, if it has the number of
parameters that its name was counted with. -/
theorem Conforms.register_function {ev : RuleEvaluator Q J} (h : Conforms Γ ev) {name : String}
    {func : BuiltinFn} {s : Signature} (hkept : s.Kept func)
    (hcount : ∀ expected, ev.builtin_arg_counts[name]? = some expected →
      s.params.length = expected) :
    Conforms { Γ with functions := fun n => if n = name then some s else Γ.functions n }
      (ev.register_function name func) where
  vars := h.vars
  columns := h.columns
  functions := by
    intro n s' hn
    simp only at hn
    simp only [RuleEvaluator.register_function, Std.ExtTreeMap.getElem?_insert,
      Std.LawfulEqCmp.compare_eq_iff_eq]
    by_cases hname : n = name
    · rw [if_pos hname] at hn
      cases hn
      rw [if_pos hname.symm]
      exact ⟨hname ▸ hcount, func, rfl, hkept⟩
    · rw [if_neg hname] at hn
      rw [if_neg (Ne.symm hname)]
      exact h.functions n s' hn

/-- The signatures of the functions that a new evaluator has. -/
def default_functions : String → Option Signature
  | "add" | "sub" | "mul" | "div" | "min" | "max" => some ⟨[.number, .number], .number⟩
  | "not" => some ⟨[.bool], .bool⟩
  | _ => none

theorem kept_fixed_point (name : String) (f : FixedPoint → FixedPoint → CoreResult FixedPoint) :
    Signature.Kept ⟨[.number, .number], .number⟩ (fixed_point_builtin name f) := by
  intro args hargs
  obtain ⟨v, w, rfl⟩ : ∃ v w, args = [v, w] := by
    have hlen := congrArg List.length hargs
    rw [List.length_map] at hlen
    exact List.length_eq_two.1 hlen
  simp only [List.map_cons, List.map_nil, List.cons.injEq, and_true] at hargs
  obtain ⟨a, rfl⟩ := EvalValue.fixed_point_of_kind hargs.1
  obtain ⟨b, rfl⟩ := EvalValue.fixed_point_of_kind hargs.2
  simp only [fixed_point_builtin]
  rcases f a b with e | r
  · exact .failure (.arithmetic e)
  · exact .value rfl

theorem kept_not : Signature.Kept ⟨[.bool], .bool⟩ not_builtin := by
  intro args hargs
  obtain ⟨v, rfl⟩ : ∃ v, args = [v] := by
    have hlen := congrArg List.length hargs
    rw [List.length_map] at hlen
    exact List.length_eq_one_iff.1 hlen
  simp only [List.map_cons, List.map_nil, List.cons.injEq, and_true] at hargs
  obtain ⟨b, rfl⟩ := EvalValue.bool_of_kind hargs
  exact .value rfl

/-- A new evaluator: no variables, the functions with their signatures, and the columns as they
are published. -/
theorem conforms_new {columns : String → String → Option DataType} (q : QueryEngine)
    (hq : q.Publishes columns) (journal : RwLock (Journal Q J)) (root_table : String)
    (root_row : RowId) :
    Conforms ⟨fun _ => none, columns, default_functions⟩
      (RuleEvaluator.new (.new q) journal root_table root_row) where
  vars := nofun
  columns := by
    intro q' hread
    cases hread
    exact hq
  functions := by
    intro func s hs
    simp only [default_functions] at hs
    split at hs
    all_goals
      cases hs
    -- the counts and the table of functions have the same seven names
    · exact ⟨fun n hn => Option.some.inj hn, _, rfl, kept_fixed_point _ _⟩
    · exact ⟨fun n hn => Option.some.inj hn, _, rfl, kept_fixed_point _ _⟩
    · exact ⟨fun n hn => Option.some.inj hn, _, rfl, kept_fixed_point _ _⟩
    · exact ⟨fun n hn => Option.some.inj hn, _, rfl, kept_fixed_point _ _⟩
    · exact ⟨fun n hn => Option.some.inj hn, _, rfl, kept_fixed_point _ _⟩
    · exact ⟨fun n hn => Option.some.inj hn, _, rfl, kept_fixed_point _ _⟩
    · exact ⟨fun n hn => Option.some.inj hn, _, rfl, kept_not⟩

/-! ## Runs -/

/-- From an evaluator that the context describes, an expression of a kind comes to a value of
that kind or to an error of the run, and an effect whose expressions have kinds leaves an
evaluator that the context after it describes or fails with such an error: no wrong kind, no
unbound variable, no unknown function or operator, no missing table or column. -/
theorem rules_keep_kinds (ev : RuleEvaluator Q J) (hev : Conforms Γ ev) :
    (∀ expr k, kind_of Γ expr = some k →
        Comes (fun v => v.kind = k) (evaluate expr ev).1)
      ∧ ∀ effect Γ', context_after Γ effect = some Γ' →
        (∀ ev', evaluate_effect effect ev = (.ok (), ev') → Conforms Γ' ev')
          ∧ ∀ e ev', evaluate_effect effect ev = (.error e, ev') → EffectError e := by
  refine ⟨?_, ?_⟩
  · intro expr k hk
    have h := evaluate_hasKind (Q := Q) (J := J) expr hk
    exact ⟨fun v hv => (h.ok ev v _ hev (Prod.ext hv rfl)).1,
      fun e he => h.error ev e _ hev (Prod.ext he rfl)⟩
  · intro effect Γ' h
    have hleads := effect_leads (Q := Q) (J := J) effect h
    exact ⟨fun ev' hrun => hleads.ok ev () ev' hev hrun,
      fun e ev' hrun => hleads.error ev e ev' hev hrun⟩

/-! ### Gold, doubled -/

def gold_columns (table column : String) : Option DataType :=
  if table = "province" ∧ column = "gold" then some .Int64 else none

theorem gold_published (v : Int64) : (gold_engine v).Publishes gold_columns := by
  intro cache hcache table column data_type htype
  obtain ⟨⟨rfl, rfl⟩, rfl⟩ := by
    simpa only [gold_columns, Option.ite_none_right_eq_some, Option.some.injEq] using htype
  cases hcache
  exact ⟨gold_view v, Std.ExtTreeMap.getElem?_insert_self, rfl, TypedColumn.single rfl rfl rfl rfl⟩

/-- The amount is read, bound twice as large, and the variable is written to the column. -/
def double_gold : Effect :=
  .Sequence [.SetVariable "gold" (.Call "add"
      [("b", .Column ⟨"province", "gold"⟩), ("a", .Column ⟨"province", "gold"⟩)]),
    .UpdateColumn "province" "gold" (.If (.Compare .Lt (.Var ⟨"gold"⟩) (.Const ⟨0, 0⟩))
      (.Const ⟨0, 0⟩) (.Var ⟨"gold"⟩))]

theorem double_gold_keeps_kinds :
    (∀ v, (evaluate (Q := Unit) (J := Unit) (.Column ⟨"province", "gold"⟩)
        (gold_world 5)).1 = .ok v → v.kind = .number)
      ∧ (∃ Γ, context_after ⟨fun _ => none, gold_columns, default_functions⟩ double_gold = some Γ
        ∧ Γ.vars "gold" = some .number)
      ∧ ∀ e ev, evaluate_effect double_gold (gold_world 5) = (.error e, ev) → EffectError e := by
  have hsound := rules_keep_kinds (gold_world 5)
    (conforms_new (gold_engine 5) (gold_published 5) _ _ _)
  exact ⟨(hsound.1 _ _ rfl).ok, ⟨_, rfl, rfl⟩, (hsound.2 double_gold _ rfl).2⟩

end RuleEvaluator

end Scharnhorst
