/-
Whether names keep ids of their own.

The ids that are given are always those below some number, whatever is called in whatever order:
a counter that lags behind gives an old id again and leaves no gap. So a run gives every name an id
of its own exactly as long as the shared counter is not behind when a name is assigned one.
-/
import Mathlib.Data.Finset.Card
import Scharnhorst.Maps
import Scharnhorst.NameResolution

set_option autoImplicit false

namespace Scharnhorst

open Std Maps

namespace NamespaceResolver

/-! ## Lookups -/

def lookup (s : NamespaceResolver) (table name : String) : Option RowId :=
  s.tables[table]?.bind (·.name_to_id[name]?)

def reverse (s : NamespaceResolver) (table : String) (id : RowId) : Option String :=
  s.tables[table]?.bind (·.id_to_name[id]?)

/-- Another resolver for a table. -/
def put (s : NamespaceResolver) (table : String) (r : NameResolver) : NamespaceResolver :=
  { s with tables := s.tables.insert table r }

section Lookups

variable {s : NamespaceResolver} {table other name : String} {id : RowId} {r : NameResolver}

theorem resolve_eq_ok : s.resolve table name = .ok id ↔ s.lookup table name = some id := by
  unfold resolve lookup NameResolver.resolve
  rcases s.tables[table]? with _ | r
  · simp
  · rcases hr : r.name_to_id[name]? with _ | id' <;> simp [hr]

theorem name_of_eq_ok : s.name_of table id = .ok name ↔ s.reverse table id = some name := by
  unfold name_of reverse NameResolver.name_of
  rcases s.tables[table]? with _ | r
  · simp
  · rcases hr : r.id_to_name[id]? with _ | name' <;> simp [hr]

theorem getElem_put : (s.put table r).tables[other]?
    = if table = other then some r else s.tables[other]? := by
  simp only [put, ExtTreeMap.getElem?_insert, LawfulEqCmp.compare_eq_iff_eq]

theorem lookup_put : (s.put table r).lookup other name
    = if table = other then r.name_to_id[name]? else s.lookup other name := by
  rw [lookup, getElem_put]
  by_cases h : table = other
  · rw [if_pos h, if_pos h, Option.bind_some]
  · rw [if_neg h, if_neg h, lookup]

theorem reverse_put : (s.put table r).reverse other id
    = if table = other then r.id_to_name[id]? else s.reverse other id := by
  rw [reverse, getElem_put]
  by_cases h : table = other
  · rw [if_pos h, if_pos h, Option.bind_some]
  · rw [if_neg h, if_neg h, reverse]

theorem enter_name_to_id : (s.enter table).name_to_id[name]? = s.lookup table name := by
  unfold enter lookup
  rcases s.tables[table]? with _ | r
  · exact ExtTreeMap.getElem?_empty
  · rfl

theorem enter_id_to_name : (s.enter table).id_to_name[id]? = s.reverse table id := by
  unfold enter reverse
  rcases s.tables[table]? with _ | r
  · exact ExtTreeMap.getElem?_empty
  · rfl

/-- Entering a namespace changes no lookup. -/
theorem lookup_enter : (s.put table (s.enter table)).lookup other name = s.lookup other name := by
  rw [lookup_put, enter_name_to_id]
  by_cases h : table = other
  · rw [if_pos h, h]
  · rw [if_neg h]

theorem reverse_enter : (s.put table (s.enter table)).reverse other id = s.reverse other id := by
  rw [reverse_put, enter_id_to_name]
  by_cases h : table = other
  · rw [if_pos h, h]
  · rw [if_neg h]

theorem lookup_new : lookup .new table name = none := by
  rw [lookup, new, ExtTreeMap.getElem?_empty]
  rfl

theorem reverse_new : reverse .new table id = none := by
  rw [reverse, new, ExtTreeMap.getElem?_empty]
  rfl

end Lookups

/-! ## One call -/

section Calls

variable {s : NamespaceResolver} {table : String} {r : NameResolver} {call : NameCall}
  {calls : List NameCall} {name : String} {id : RowId}

/-- Both calls leave a known name alone and assign the next id to another one. -/
theorem call_known (h : r.name_to_id[call.name]? = some id) : call.run r = r := by
  rcases call with name | name
  · have hmem : r.name_to_id.contains name = true := by
      rw [ExtTreeMap.contains_eq_isSome_getElem?]
      exact Option.isSome_of_eq_some h
    simp only [NameCall.run, NameResolver.register, hmem, if_true]
  · have hname : r.name_to_id[name]? = some id := h
    simp only [NameCall.run, NameResolver.resolve_or_assign, hname]

theorem call_unknown (h : r.name_to_id[call.name]? = none) : call.run r = r.assign call.name := by
  rcases call with name | name
  · have hmem : r.name_to_id.contains name = false := by
      rw [ExtTreeMap.contains_eq_isSome_getElem?]
      exact Option.isSome_eq_false_iff.mpr (Option.isNone_iff_eq_none.mpr h)
    simp only [NameCall.run, NameResolver.register, hmem, NameCall.name]
    rfl
  · have hname : r.name_to_id[name]? = none := h
    simp only [NameCall.run, NameResolver.resolve_or_assign, hname, NameCall.name]

theorem assign_name_to_id {other : String} : (r.assign name).name_to_id[other]?
    = if name = other then some r.next_id else r.name_to_id[other]? := by
  simp only [NameResolver.assign, ExtTreeMap.getElem?_insert, LawfulEqCmp.compare_eq_iff_eq]

theorem assign_id_to_name : (r.assign name).id_to_name[id]?
    = if r.next_id = id then some name else r.id_to_name[id]? := by
  simp only [NameResolver.assign, ExtTreeMap.getElem?_insert, LawfulEqCmp.compare_eq_iff_eq]

/-- What a call returns as an id is what the resolver then says. -/
theorem register_resolves (h : (r.register name).1 = .ok id) :
    (r.register name).2.name_to_id[name]? = some id := by
  unfold NameResolver.register at h ⊢
  by_cases hmem : r.name_to_id.contains name
  · rw [if_pos hmem] at h
    cases h
  · rw [if_neg hmem] at h ⊢
    rw [assign_name_to_id, if_pos rfl, ← Except.ok.inj h]

theorem resolve_or_assign_resolves :
    (r.resolve_or_assign name).2.name_to_id[name]? = some (r.resolve_or_assign name).1 := by
  unfold NameResolver.resolve_or_assign
  rcases hname : r.name_to_id[name]? with _ | id
  · exact assign_name_to_id.trans (if_pos rfl)
  · exact hname

/-- What is in a resolver stays. -/
theorem calls_kept (h : r.name_to_id[name]? = some id) :
    (calls.foldl NameCall.run r).name_to_id[name]? = some id := by
  induction calls generalizing r with
  | nil => exact h
  | cons call calls ih =>
    refine ih ?_
    rcases hcall : r.name_to_id[call.name]? with _ | other
    · have hne : call.name ≠ name := by
        rintro rfl
        rw [hcall] at h
        cases h
      rw [call_unknown hcall, assign_name_to_id, if_neg hne, h]
    · rw [call_known hcall, h]

/-- If some name is new, one of the new names gets the id that the counter stands at. -/
theorem calls_first (h : ∃ call : NameCall, call ∈ calls ∧ r.name_to_id[call.name]? = none) :
    ∃ name : String, r.name_to_id[name]? = none
      ∧ (calls.foldl NameCall.run r).name_to_id[name]? = some r.next_id := by
  induction calls with
  | nil =>
    obtain ⟨call, hmem, -⟩ := h
    exact absurd hmem List.not_mem_nil
  | cons call calls ih =>
    rw [List.foldl_cons]
    rcases hcall : r.name_to_id[call.name]? with _ | other
    · refine ⟨call.name, hcall, calls_kept ?_⟩
      rw [call_unknown hcall, assign_name_to_id, if_pos rfl]
    · rw [call_known hcall]
      refine ih ?_
      obtain ⟨new, hmem, hnew⟩ := h
      rcases List.mem_cons.mp hmem with rfl | hmem
      · rw [hcall] at hnew
        cases hnew
      · exact ⟨new, hmem, hnew⟩

theorem calls_known (h : ∀ call : NameCall, call ∈ calls → r.name_to_id[call.name]? ≠ none) :
    calls.foldl NameCall.run r = r := by
  induction calls with
  | nil => rfl
  | cons call calls ih =>
    obtain ⟨id, hid⟩ := Option.ne_none_iff_exists'.mp (h call List.mem_cons_self)
    rw [List.foldl_cons, call_known hid]
    exact ih fun other hmem => h other (List.mem_cons_of_mem call hmem)

end Calls

/-! ## The ids that are given -/

/-- The names in `known` have ids, and these are the numbers below `bound`. No counter is above it. -/
structure Counted (s : NamespaceResolver) (known : Finset (String × String)) (bound : Nat) : Prop where
  known_iff : ∀ table name, (table, name) ∈ known ↔ ∃ id, s.lookup table name = some id
  given_iff : ∀ id : Nat, (∃ table name, s.lookup table name = some id) ↔ id < bound
  few : bound ≤ known.card
  shared : s.next_id ≤ bound
  own : ∀ (table : String) (r : NameResolver), s.tables[table]? = some r → r.next_id ≤ bound

/-- No two names have one id, and a table finds each name by its id. -/
structure Separate (s : NamespaceResolver) : Prop where
  unique : ∀ table name table' name' id, s.lookup table name = some id →
    s.lookup table' name' = some id → table = table' ∧ name = name'
  inverse : ∀ table name id, s.lookup table name = some id ↔ s.reverse table id = some name

section Counting

variable {s : NamespaceResolver} {table : String} {r : NameResolver}
  {known : Finset (String × String)} {bound : Nat} {name : String}

theorem counted_new : Counted .new ∅ 0 := by
  refine ⟨fun table name => ?_, fun id => ?_, le_rfl, le_rfl, fun table r hr => ?_⟩
  · simp [lookup_new]
  · simp [lookup_new]
  · rw [new, ExtTreeMap.getElem?_empty] at hr
    cases hr

theorem separate_new : Separate .new := by
  refine ⟨fun table name _ _ _ h => ?_, fun table name id => ?_⟩
  · rw [lookup_new] at h
    cases h
  · rw [lookup_new, reverse_new]
    exact iff_of_false (fun h => by cases h) fun h => by cases h

theorem Counted.enter (h : Counted s known bound) :
    Counted (s.put table (s.enter table)) known bound := by
  refine ⟨fun other name => ?_, fun id => ?_, h.few, h.shared, fun other r hr => ?_⟩
  · simp only [lookup_enter]
    exact h.known_iff other name
  · simp only [lookup_enter]
    exact h.given_iff id
  · rw [getElem_put] at hr
    by_cases heq : table = other
    · rw [if_pos heq] at hr
      rw [← Option.some.inj hr]
      exact h.shared
    · rw [if_neg heq] at hr
      exact h.own other r hr

theorem Separate.enter (h : Separate s) : Separate (s.put table (s.enter table)) := by
  refine ⟨fun t n t' n' id => ?_, fun t n id => ?_⟩
  · rw [lookup_enter, lookup_enter]
    exact h.unique t n t' n' id
  · rw [lookup_enter, reverse_enter]
    exact h.inverse t n id

theorem lookup_assign {other name' : String} :
    (s.put table (r.assign name)).lookup other name'
      = if table = other ∧ name = name' then some r.next_id
        else (s.put table r).lookup other name' := by
  rw [lookup_put, lookup_put, assign_name_to_id]
  by_cases ht : table = other
  · by_cases hn : name = name'
    · rw [if_pos ht, if_pos hn, if_pos ⟨ht, hn⟩]
    · rw [if_pos ht, if_neg hn, if_neg fun h => hn h.2, if_pos ht]
  · rw [if_neg ht, if_neg fun h => ht h.1, if_neg ht]

theorem reverse_assign {other : String} {id : RowId} :
    (s.put table (r.assign name)).reverse other id
      = if table = other ∧ r.next_id = id then some name else (s.put table r).reverse other id := by
  rw [reverse_put, reverse_put, assign_id_to_name]
  by_cases ht : table = other
  · by_cases hn : r.next_id = id
    · rw [if_pos ht, if_pos hn, if_pos ⟨ht, hn⟩]
    · rw [if_pos ht, if_neg hn, if_neg fun h => hn h.2, if_pos ht]
  · rw [if_neg ht, if_neg fun h => ht h.1, if_neg ht]

theorem Counted.notMem_known (h : Counted s known bound) (hnew : s.lookup table name = none) :
    (table, name) ∉ known := by
  rw [h.known_iff, hnew]
  rintro ⟨id, hid⟩
  cases hid

/-- The counter of a table is at the bound at most. Below it the id is one that another name has
already, at it a new one. -/
theorem Counted.given_assign (h : Counted (s.put table r) known bound)
    (hown : r.next_id ≤ bound) (hnew : (s.put table r).lookup table name = none) (id : Nat) :
    (∃ other name', (s.put table (r.assign name)).lookup other name' = some id)
      ↔ id < max bound (r.next_id + 1) := by
  constructor
  · rintro ⟨other, name', hid⟩
    rw [lookup_assign] at hid
    by_cases heq : table = other ∧ name = name'
    · rw [if_pos heq] at hid
      have hid' : (r.next_id : Nat) = id := Option.some.inj hid
      omega
    · rw [if_neg heq] at hid
      have := (h.given_iff id).mp ⟨other, name', hid⟩
      omega
  · intro hid
    by_cases hold : id < bound
    · obtain ⟨other, name', hother⟩ := (h.given_iff id).mpr hold
      refine ⟨other, name', ?_⟩
      rw [lookup_assign, if_neg]
      · exact hother
      -- the name had no id so far
      · rintro ⟨rfl, rfl⟩
        rw [hnew] at hother
        cases hother
    · have heq : id = r.next_id := by omega
      exact ⟨table, name, by rw [lookup_assign, if_pos ⟨rfl, rfl⟩, heq]⟩

/-- An assignment counts the name, and its id if that is a new one. -/
theorem Counted.assign (h : Counted (s.put table r) known bound)
    (hnew : (s.put table r).lookup table name = none) (hfew : known.card + 1 < 2 ^ 64) :
    Counted (s.put table (r.assign name)) (insert (table, name) known)
      (max bound (r.next_id + 1)) := by
  have hown : r.next_id ≤ bound := h.own table r (by rw [getElem_put, if_pos rfl])
  have hbump : bump r.next_id = r.next_id + 1 := by
    have := h.few
    unfold bump
    omega
  refine ⟨fun other name' => ?_, h.given_assign hown hnew, ?_, ?_, fun other r' hr' => ?_⟩
  · rw [Finset.mem_insert, Prod.mk.injEq, h.known_iff, lookup_assign]
    by_cases heq : table = other ∧ name = name'
    · rw [if_pos heq]
      exact iff_of_true (.inl ⟨heq.1.symm, heq.2.symm⟩) ⟨_, rfl⟩
    · rw [if_neg heq]
      exact or_iff_right fun hback => heq ⟨hback.1.symm, hback.2.symm⟩
  -- one more name, and one more number at most
  · rw [Finset.card_insert_of_notMem (h.notMem_known hnew)]
    have := h.few
    omega
  · have hshared : s.next_id ≤ bound := h.shared
    exact hshared.trans (le_max_left _ _)
  · rw [getElem_put] at hr'
    by_cases heq : table = other
    · rw [if_pos heq] at hr'
      have hnext : (r.assign name).next_id = r.next_id + 1 := hbump
      rw [← Option.some.inj hr', hnext]
      exact le_max_right _ _
    · rw [if_neg heq] at hr'
      refine (h.own other r' ?_).trans (le_max_left _ _)
      rw [getElem_put, if_neg heq, hr']

/-- An id above all given ones separates. -/
theorem Separate.assign (h : Separate (s.put table r)) (hc : Counted (s.put table r) known bound)
    (hnew : (s.put table r).lookup table name = none) (hfresh : r.next_id = bound) :
    Separate (s.put table (r.assign name)) := by
  have hunused : ∀ other name', (s.put table r).lookup other name' ≠ some r.next_id := by
    intro other name' hid
    exact absurd ((hc.given_iff r.next_id).mp ⟨other, name', hid⟩) (by omega)
  refine ⟨fun t n t' n' id hid hid' => ?_, fun t n id => ?_⟩
  -- two names of one id: the new one has an id that no other has
  · rw [lookup_assign] at hid hid'
    by_cases heq : table = t ∧ name = n
    · rw [if_pos heq] at hid
      obtain rfl := Option.some.inj hid
      by_cases heq' : table = t' ∧ name = n'
      · exact ⟨heq.1.symm.trans heq'.1, heq.2.symm.trans heq'.2⟩
      · rw [if_neg heq'] at hid'
        exact absurd hid' (hunused t' n')
    · rw [if_neg heq] at hid
      by_cases heq' : table = t' ∧ name = n'
      · rw [if_pos heq'] at hid'
        obtain rfl := Option.some.inj hid'
        exact absurd hid (hunused t n)
      · rw [if_neg heq'] at hid'
        exact h.unique t n t' n' id hid hid'
  · rw [lookup_assign, reverse_assign]
    by_cases ht : table = t
    · subst ht
      by_cases hn : name = n
      · subst hn
        by_cases hi : r.next_id = id
        · simp [hi]
        · rw [if_pos ⟨rfl, rfl⟩, if_neg fun heq => hi heq.2, ← h.inverse, hnew]
          exact iff_of_false (fun heq => hi (Option.some.inj heq)) fun heq => by cases heq
      · rw [if_neg fun heq => hn heq.2]
        by_cases hi : r.next_id = id
        -- the entry of the id is overwritten, which no name had
        · subst hi
          rw [if_pos ⟨rfl, rfl⟩]
          exact iff_of_false (hunused table n) fun heq => hn (Option.some.inj heq)
        · rw [if_neg fun heq => hi heq.2]
          exact h.inverse table n id
    · rw [if_neg fun heq => ht heq.1, if_neg fun heq => ht heq.1]
      exact h.inverse t n id

/-! ## Several calls -/

theorem bump_eq {n : Nat} (h : n + 1 < 2 ^ 64) : bump n = n + 1 := by
  unfold bump
  omega

/-- Calls on a table, whatever its counter stands at. With a counter above all ids they separate. -/
theorem Counted.calls {calls : List NameCall} (h : Counted (s.put table r) known bound)
    (hfew : (known ∪ (calls.map fun call => (table, call.name)).toFinset).card < 2 ^ 64) :
    ∃ known' bound', Counted (s.put table (calls.foldl NameCall.run r)) known' bound'
      ∧ known' ⊆ known ∪ (calls.map fun call => (table, call.name)).toFinset
      ∧ (r.next_id = bound → Separate (s.put table r) →
        Separate (s.put table (calls.foldl NameCall.run r))
          ∧ (calls.foldl NameCall.run r).next_id = bound') := by
  induction calls generalizing r known bound with
  | nil => exact ⟨known, bound, h, Finset.subset_union_left, fun hnext hsep => ⟨hsep, hnext⟩⟩
  | cons call calls ih =>
    rw [List.map_cons, List.toFinset_cons] at hfew ⊢
    rw [List.foldl_cons]
    have hlookup : (s.put table r).lookup table call.name = r.name_to_id[call.name]? := by
      rw [lookup_put, if_pos rfl]
    rcases hcall : r.name_to_id[call.name]? with _ | id
    -- the call assigns an id, and one more name is known
    · have hunion : insert (table, call.name) known
          ∪ (calls.map fun call => (table, call.name)).toFinset
          = known ∪ insert (table, call.name)
            (calls.map fun call => (table, call.name)).toFinset := by
        rw [Finset.insert_union, Finset.union_insert]
      rw [call_unknown hcall]
      have hnew : (s.put table r).lookup table call.name = none := hlookup.trans hcall
      have hcard : known.card + 1 < 2 ^ 64 := by
        rw [← Finset.card_insert_of_notMem (h.notMem_known hnew)]
        refine (Finset.card_le_card ?_).trans_lt hfew
        rw [← hunion]
        exact Finset.subset_union_left
      have hassign := h.assign hnew hcard
      obtain ⟨known', bound', hcounted, hsub, hsep⟩ := ih hassign (by rwa [hunion])
      refine ⟨known', bound', hcounted, hunion ▸ hsub, fun hnext hseparate => ?_⟩
      refine hsep ?_ (hseparate.assign h hnew hnext)
      have hsmall : r.next_id + 1 < 2 ^ 64 := by
        have := h.few
        omega
      have hbumped : (r.assign call.name).next_id = r.next_id + 1 := bump_eq hsmall
      rw [hbumped]
      omega
    -- the call changes nothing
    · rw [call_known hcall]
      have hmono : known ∪ (calls.map fun call => (table, call.name)).toFinset
          ⊆ known ∪ insert (table, call.name)
            (calls.map fun call => (table, call.name)).toFinset :=
        Finset.union_subset_union_right (Finset.subset_insert _ _)
      obtain ⟨known', bound', hcounted, hsub, hsep⟩ :=
        ih h ((Finset.card_le_card hmono).trans_lt hfew)
      exact ⟨known', bound', hcounted, hsub.trans hmono, hsep⟩

end Counting

end NamespaceResolver

/-! ## Operations -/

namespace NamespaceOp

open NamespaceResolver

variable {s : NamespaceResolver} {known : Finset (String × String)} {bound : Nat} {op : NamespaceOp}

/-- The shared counter is written without a look at the tables. -/
theorem counted_shared {next_id : Nat} (h : Counted s known bound) (hnext : next_id ≤ bound) :
    Counted { s with next_id } known bound :=
  ⟨h.known_iff, h.given_iff, h.few, hnext, h.own⟩

theorem separate_shared {next_id : Nat} (h : Separate s) : Separate { s with next_id } :=
  ⟨h.unique, h.inverse⟩

/-- After a synchronization the shared counter is not above the ids. -/
theorem counted_sync (h : Counted s known bound) : Counted s.sync_next_id known bound := by
  refine counted_shared h ?_
  rcases hmax : (s.tables.toList.map fun e => e.2.next_id).max? with _ | next_id
  · rw [hmax]
    exact Nat.zero_le bound
  · rw [hmax, Option.getD_some]
    obtain ⟨e, he, heq⟩ := List.mem_map.mp (List.max?_mem hmax)
    have hown := h.own e.1 e.2 (ExtTreeMap.mem_toList_iff_getElem?_eq_some.mp he)
    rw [heq] at hown
    exact hown

/-- The operation assigns an id to some name. -/
def Assigns (s : NamespaceResolver) (op : NamespaceOp) : Prop :=
  ∃ p ∈ op.named, ∀ id, s.resolve p.1 p.2 ≠ .ok id

theorem resolve_ne_ok {table name : String} :
    (∀ id, s.resolve table name ≠ .ok id) ↔ s.lookup table name = none := by
  simp only [ne_eq, resolve_eq_ok]
  exact Option.eq_none_iff_forall_ne_some.symm

theorem step_resolve_or_assign (table name : String) :
    step s (ResolveOrAssign table name)
      = { s.put table ((NameCall.ResolveOrAssign name).run (s.enter table)) with
          next_id := ((NameCall.ResolveOrAssign name).run (s.enter table)).next_id } := rfl

/-- Calls in a namespace. -/
theorem counted_calls {table : String} {calls : List NameCall} (h : Counted s known bound)
    (hfew : (known ∪ (calls.map fun call => (table, call.name)).toFinset).card < 2 ^ 64) :
    ∃ known' bound',
      Counted (s.put table (calls.foldl NameCall.run (s.enter table))) known' bound'
      ∧ known' ⊆ known ∪ (calls.map fun call => (table, call.name)).toFinset
      ∧ (((∃ call ∈ calls, s.lookup table call.name = none) → s.next_id = bound) → Separate s →
        Separate (s.put table (calls.foldl NameCall.run (s.enter table)))) := by
  obtain ⟨known', bound', hcounted, hsub, hsep⟩ := h.enter.calls hfew
  refine ⟨known', bound', hcounted, hsub, fun hfresh hseparate => ?_⟩
  by_cases hnew : ∃ call ∈ calls, s.lookup table call.name = none
  -- the table's counter has been set to the shared one
  · exact (hsep (hfresh hnew) hseparate.enter).1
  · rw [calls_known]
    · exact hseparate.enter
    · intro call hmem hnone
      rw [enter_name_to_id] at hnone
      exact hnew ⟨call, hmem, hnone⟩

/-- One operation. Names stay separate, if the shared counter is above all ids or no name is new. -/
theorem counted_step (h : Counted s known bound)
    (hfew : (known ∪ op.named.toFinset).card < 2 ^ 64) :
    ∃ known' bound', Counted (op.step s) known' bound' ∧ known' ⊆ known ∪ op.named.toFinset
      ∧ ((Assigns s op → s.next_id = bound) → Separate s → Separate (op.step s)) := by
  rcases op with ⟨table, calls⟩ | _ | ⟨table, name⟩
  · obtain ⟨known', bound', hcounted, hsub, hsep⟩ := counted_calls h hfew
    refine ⟨known', bound', hcounted, hsub, fun hfresh => hsep fun hnew => hfresh ?_⟩
    obtain ⟨call, hmem, hnone⟩ := hnew
    exact ⟨(table, call.name), List.mem_map_of_mem hmem, resolve_ne_ok.mpr hnone⟩
  · exact ⟨known, bound, counted_sync h, Finset.subset_union_left, fun _ => separate_shared⟩
  -- the one that copies the counter back
  · have hcalls := @counted_calls s known bound table [.ResolveOrAssign name] h hfew
    obtain ⟨known', bound', hcounted, hsub, hsep⟩ := hcalls
    have hown := hcounted.own table _ (by rw [getElem_put, if_pos rfl])
    rw [step_resolve_or_assign]
    refine ⟨known', bound', counted_shared hcounted hown, hsub, fun hfresh hseparate => ?_⟩
    refine separate_shared (hsep (fun hnew => hfresh ?_) hseparate)
    obtain ⟨call, hmem, hnone⟩ := hnew
    rw [List.mem_singleton.mp hmem] at hnone
    exact ⟨(table, name), List.mem_singleton_self _, resolve_ne_ok.mpr hnone⟩

/-- Lookups stay through an operation. -/
theorem step_kept {table name : String} {id : RowId} (h : s.lookup table name = some id) :
    (op.step s).lookup table name = some id := by
  have hput : ∀ other (calls : List NameCall),
      (s.put other (calls.foldl NameCall.run (s.enter other))).lookup table name = some id := by
    intro other calls
    rw [lookup_put]
    by_cases heq : other = table
    · rw [if_pos heq]
      refine calls_kept ?_
      rw [enter_name_to_id, heq, h]
    · rw [if_neg heq, h]
  rcases op with ⟨other, calls⟩ | _ | ⟨other, new⟩
  · exact hput other calls
  · exact h
  · exact hput other [.ResolveOrAssign new]

/-- An operation that assigns gives some new name the id that the shared counter stands at. -/
theorem step_assigns (h : Assigns s op) :
    ∃ table name, s.lookup table name = none ∧ (op.step s).lookup table name = some s.next_id := by
  have hput : ∀ table (calls : List NameCall),
      (∃ call : NameCall, call ∈ calls ∧ s.lookup table call.name = none) →
        ∃ name, s.lookup table name = none ∧
          (s.put table (calls.foldl NameCall.run (s.enter table))).lookup table name
            = some s.next_id := by
    intro table calls hnew
    simp only [← enter_name_to_id] at hnew
    obtain ⟨name, hnone, hgiven⟩ := calls_first hnew
    refine ⟨name, by rw [← enter_name_to_id, hnone], ?_⟩
    rw [lookup_put, if_pos rfl]
    exact hgiven
  obtain ⟨⟨table, name⟩, hmem, hnone⟩ := h
  rw [resolve_ne_ok] at hnone
  rcases op with ⟨other, calls⟩ | _ | ⟨other, new⟩
  · obtain ⟨call, hcall, heq⟩ := List.mem_map.mp hmem
    obtain ⟨rfl, rfl⟩ := Prod.mk.inj heq
    exact ⟨other, hput other calls ⟨call, hcall, hnone⟩⟩
  · exact absurd hmem List.not_mem_nil
  · obtain ⟨rfl, rfl⟩ := Prod.mk.inj (List.mem_singleton.mp hmem)
    refine ⟨table, hput table [.ResolveOrAssign name] ?_⟩
    exact ⟨.ResolveOrAssign name, List.mem_singleton_self _, hnone⟩

/-! ## Runs -/

theorem run_append (ops : List NamespaceOp) (op : NamespaceOp) :
    run (ops ++ [op]) = step (run ops) op :=
  List.foldl_append

/-- The ids that a name gets in the course of a run, and the names that ids stand for. -/
structure IdsStable (ops : List NamespaceOp) : Prop where
  unique : ∀ pre, pre <+: ops → ∀ table name table' name' id,
    (run pre).resolve table name = .ok id → (run pre).resolve table' name' = .ok id →
      table = table' ∧ name = name'
  kept : ∀ pre later, pre <+: later → later <+: ops → ∀ table name id,
    (run pre).resolve table name = .ok id → (run later).resolve table name = .ok id
  inverse : ∀ pre, pre <+: ops → ∀ table name id,
    (run pre).resolve table name = .ok id ↔ (run pre).name_of table id = .ok name

/-- Whenever an operation assigns an id, the shared counter is above all ids there are. -/
def Synced (ops : List NamespaceOp) : Prop :=
  ∀ pre op, pre ++ [op] <+: ops → Assigns (run pre) op →
    ∀ table name id, (run pre).resolve table name = .ok id → id < (run pre).next_id

theorem lookup_kept {pre later : List NamespaceOp} (h : pre <+: later) {table name : String}
    {id : RowId} (hid : (run pre).lookup table name = some id) :
    (run later).lookup table name = some id := by
  obtain ⟨rest, rfl⟩ := h
  induction rest using List.reverseRecOn with
  | nil => rwa [List.append_nil]
  | append_singleton rest op ih =>
    rw [← List.append_assoc, run_append]
    exact step_kept ih

theorem named_append (ops : List NamespaceOp) (op : NamespaceOp) :
    ((ops ++ [op]).flatMap named).toFinset
      = (ops.flatMap named).toFinset ∪ op.named.toFinset := by
  rw [List.flatMap_append, List.flatMap_singleton, List.toFinset_append]

/-- The ids of a run are the numbers below some bound, however it is ordered. -/
theorem counted_run {ops : List NamespaceOp}
    (h : (ops.flatMap named).toFinset.card < 2 ^ 64) :
    ∃ known bound, Counted (run ops) known bound ∧ known ⊆ (ops.flatMap named).toFinset := by
  induction ops using List.reverseRecOn with
  | nil => exact ⟨∅, 0, counted_new, Finset.empty_subset _⟩
  | append_singleton ops op ih =>
    rw [named_append] at h ⊢
    obtain ⟨known, bound, hcounted, hsub⟩ :=
      ih ((Finset.card_le_card Finset.subset_union_left).trans_lt h)
    have hunion : known ∪ op.named.toFinset
        ⊆ (ops.flatMap named).toFinset ∪ op.named.toFinset :=
      Finset.union_subset_union_left hsub
    obtain ⟨known', bound', hcounted', hsub', -⟩ :=
      counted_step hcounted ((Finset.card_le_card hunion).trans_lt h)
    rw [run_append]
    exact ⟨known', bound', hcounted', hsub'.trans hunion⟩

theorem counted_of_before {pre ops : List NamespaceOp} (hpre : pre <+: ops)
    (h : (ops.flatMap named).toFinset.card < 2 ^ 64) :
    (pre.flatMap named).toFinset.card < 2 ^ 64 := by
  refine (Finset.card_le_card ?_).trans_lt h
  obtain ⟨rest, rfl⟩ := hpre
  rw [List.flatMap_append, List.toFinset_append]
  exact Finset.subset_union_left

/-- The counter is never above the bound, so it is above all ids only where it is the bound. -/
theorem next_id_eq_bound {known : Finset (String × String)} {bound : Nat}
    (h : Counted s known bound)
    (habove : ∀ table name id, s.resolve table name = .ok id → id < s.next_id) :
    s.next_id = bound := by
  refine Nat.le_antisymm h.shared ?_
  by_contra hlt
  obtain ⟨table, name, hid⟩ := (h.given_iff s.next_id).mpr (by omega)
  exact lt_irrefl s.next_id (habove table name s.next_id (resolve_eq_ok.mpr hid))

theorem separate_run {ops : List NamespaceOp}
    (h : (ops.flatMap named).toFinset.card < 2 ^ 64) (hsynced : Synced ops) :
    Separate (run ops) := by
  induction ops using List.reverseRecOn with
  | nil => exact separate_new
  | append_singleton ops op ih =>
    have hfirst := counted_of_before (List.prefix_append ops [op]) h
    have hseparate := ih hfirst fun pre other hpre =>
      hsynced pre other (hpre.trans (List.prefix_append ops [op]))
    obtain ⟨known, bound, hcounted, hsub⟩ := counted_run hfirst
    have hfew : (known ∪ op.named.toFinset).card < 2 ^ 64 := by
      rw [named_append] at h
      exact (Finset.card_le_card (Finset.union_subset_union_left hsub)).trans_lt h
    obtain ⟨-, -, -, -, hsep⟩ := counted_step hcounted hfew
    rw [run_append]
    refine hsep (fun hassigns => next_id_eq_bound hcounted ?_) hseparate
    exact hsynced ops op List.prefix_rfl hassigns

theorem Synced.of_before {pre ops : List NamespaceOp} (hpre : pre <+: ops) (h : Synced ops) :
    Synced pre := fun first op hfirst => h first op (hfirst.trans hpre)

end NamespaceOp

end Scharnhorst
