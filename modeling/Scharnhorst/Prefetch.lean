/-
The prefetch cache over runs of calls.

A cache of a bounded size that evicts the entry used least recently holds, at any time, the keys
used last since it was cleared. What that means is said by a list of keys by recency which knows
the capacity and nothing else of the cache. The cache keeps the recency in a counter: an entry's
`last_access` is the counter at its last use.

`insert` evicts before it looks whether the key is there. So a key inserted again into a full
cache costs another one its place, and with no capacity at all an insertion is still made. The
calls of which neither is true are `Spared`; along them the cache is what it should be, and a
first call that is not spared makes it something else.
-/
import Scharnhorst.Evaluator
import Scharnhorst.Recency

set_option autoImplicit false

namespace Scharnhorst

open Recency

namespace PrefetchCache

/-! ## The other calls -/

def with_tick (cache : PrefetchCache) (tick : Tick) : PrefetchCache :=
  { cache with current_tick := tick }

def clear (cache : PrefetchCache) : PrefetchCache := { cache with entries := [], access_counter := 0 }

def set_tick (cache : PrefetchCache) (tick : Tick) : PrefetchCache :=
  if cache.current_tick ≠ tick then { cache.clear with current_tick := tick } else cache

/-- A hit makes the entry the one used last. -/
def get (cache : PrefetchCache) (table : String) (row_id : RowId) :
    Option CachedRow × PrefetchCache :=
  let key : CacheKey := ⟨table, row_id⟩
  match cache.entries.lookup key with
  | none => (none, cache)
  | some entry =>
    let access_counter := saturating_add cache.access_counter 1
    (some entry.row,
      { cache with
        access_counter
        entries := cache.entries.map fun e =>
          if e.1 = key then (e.1, { e.2 with last_access := access_counter }) else e })

/-- What `prefetch` reads, at the tick of the cache. -/
def read_view (source : ReadRequest → QueryResult ReadResponse) (tick : Tick) (table : String) :
    RuleResult TableReadView :=
  (source { tick, table_names := [table] } >>= (·.get table)).mapError fun e =>
    .QueryEngine e.to_string

/-- One round of the loop: a row that is there is passed over. -/
def prefetch_row (table : String) (view : TableReadView) (cache : PrefetchCache) (row_id : RowId) :
    PrefetchCache :=
  if (cache.entries.lookup ⟨table, row_id⟩).isSome then cache
  else cache.insert { tick := cache.current_tick, table, row_id, view }

def prefetch (source : ReadRequest → QueryResult ReadResponse) (cache : PrefetchCache)
    (table : String) (row_ids : List RowId) : RuleResult Unit × PrefetchCache :=
  match read_view source cache.current_tick table with
  | .error e => (.error e, cache)
  | .ok view => (.ok (), row_ids.foldl (prefetch_row table view) cache)

end PrefetchCache

/-! ## Calls -/

inductive CacheCall where
  | get (table : String) (row_id : RowId)
  | insert (row : CachedRow)
  | prefetch (source : ReadRequest → QueryResult ReadResponse) (table : String)
    (row_ids : List RowId)
  | set_tick (tick : Tick)
  | clear

/-- What there is to know of the past: the tick, and the keys used since the last clear, the one
used last first. -/
structure RecentKeys where
  tick : Tick
  used : List CacheKey

namespace CacheCall

def apply (cache : PrefetchCache) : CacheCall → PrefetchCache
  | .get table row_id => (cache.get table row_id).2
  | .insert row => cache.insert row
  | .prefetch source table row_ids => (cache.prefetch source table row_ids).2
  | .set_tick tick => cache.set_tick tick
  | .clear => cache.clear

/-- A row that is prefetched is used unless it is one of those kept. -/
def prefetched (capacity : Nat) (table : String) (used : List CacheKey) (row_id : RowId) :
    List CacheKey :=
  if ⟨table, row_id⟩ ∈ used.take capacity then used else touch ⟨table, row_id⟩ used

/-- A cache of this capacity keeps the first of the keys used. It is hit by one of these, and
another one is used when it comes in. -/
def recent (capacity : Nat) (past : RecentKeys) : CacheCall → RecentKeys
  | .get table row_id =>
    if ⟨table, row_id⟩ ∈ past.used.take capacity then
      { past with used := touch ⟨table, row_id⟩ past.used }
    else past
  | .insert row => { past with used := touch ⟨row.table, row.row_id⟩ past.used }
  | .prefetch source table row_ids =>
    match PrefetchCache.read_view source past.tick table with
    | .error _ => past
    | .ok _ => { past with used := row_ids.foldl (prefetched capacity table) past.used }
  | .set_tick tick => if past.tick ≠ tick then { tick, used := [] } else past
  | .clear => { past with used := [] }

/-- A row that is inserted is of the cache's tick, and the counter stays below its largest value. -/
def Admissible (cache : PrefetchCache) : CacheCall → Prop
  | .get _ _ => cache.access_counter + 1 ≤ u64_MAX
  | .insert row => row.tick = cache.current_tick ∧ cache.access_counter + 1 ≤ u64_MAX
  | .prefetch _ _ row_ids => cache.access_counter + row_ids.length ≤ u64_MAX
  | .set_tick _ => True
  | .clear => True

/-- There is room for a row that comes in, and one that is there already comes into a full cache
only if it is the one that `evict_lru` takes out. -/
def Spared (cache : PrefetchCache) : CacheCall → Prop
  | .insert row =>
    0 < cache.capacity ∧
      (⟨row.table, row.row_id⟩ ∈ cache.entries.map Prod.fst →
        cache.capacity ≤ cache.entries.length →
          (PrefetchCache.least_used cache.entries).map Prod.fst = some ⟨row.table, row.row_id⟩)
  | .prefetch source table row_ids =>
    0 < cache.capacity ∨ row_ids = [] ∨
      (PrefetchCache.read_view source cache.current_tick table).isOk = false
  | .get _ _ => True
  | .set_tick _ => True
  | .clear => True

instance (cache : PrefetchCache) : ∀ call : CacheCall, Decidable (call.Admissible cache)
  | .get _ _ => inferInstanceAs (Decidable (_ ≤ _))
  | .insert _ => inferInstanceAs (Decidable (_ ∧ _))
  | .prefetch _ _ _ => inferInstanceAs (Decidable (_ ≤ _))
  | .set_tick _ => inferInstanceAs (Decidable True)
  | .clear => inferInstanceAs (Decidable True)

instance (cache : PrefetchCache) : ∀ call : CacheCall, Decidable (call.Spared cache)
  | .insert _ => inferInstanceAs (Decidable (_ ∧ _))
  | .prefetch _ _ _ => inferInstanceAs (Decidable (_ ∨ _ ∨ _))
  | .get _ _ => inferInstanceAs (Decidable True)
  | .set_tick _ => inferInstanceAs (Decidable True)
  | .clear => inferInstanceAs (Decidable True)

/-- Each call meets the condition in the state in which it comes. -/
def AllMeet (condition : PrefetchCache → CacheCall → Prop) (cache : PrefetchCache) :
    List CacheCall → Prop
  | [] => True
  | call :: calls => condition cache call ∧ AllMeet condition (call.apply cache) calls

instance decidableAllMeet (condition : PrefetchCache → CacheCall → Prop)
    [∀ cache call, Decidable (condition cache call)] (cache : PrefetchCache) :
    (calls : List CacheCall) → Decidable (AllMeet condition cache calls)
  | [] => inferInstanceAs (Decidable True)
  | call :: calls =>
    have := decidableAllMeet condition (call.apply cache) calls
    inferInstanceAs (Decidable (_ ∧ _))

end CacheCall

/-! ## What the cache should be -/

/-- The cache holds the keys used last, as many as it has room for, each in a row of its tick. -/
structure BoundedLru (cache : PrefetchCache) (past : RecentKeys) : Prop where
  bounded : cache.entries.length ≤ cache.capacity
  recent : (cache.entries.map Prod.fst).Perm (past.used.take cache.capacity)
  ticked : ∀ e ∈ cache.entries, e.2.row.tick = cache.current_tick

def last_access (e : CacheKey × CacheEntry) : Nat := e.2.last_access

/-- The invariant: the entries, listed as the keys are, are listed by their last use. -/
structure KeepsRecent (cache : PrefetchCache) (past : RecentKeys) : Prop where
  tick : past.tick = cache.current_tick
  nodup : past.used.Nodup
  listing : ∃ es, es.Perm cache.entries ∧ es.map Prod.fst = past.used.take cache.capacity
    ∧ ByAge last_access es
  counted : ∀ e ∈ cache.entries, last_access e ≤ cache.access_counter
  ticked : ∀ e ∈ cache.entries, e.2.row.tick = cache.current_tick

section

variable {cache : PrefetchCache} {past : RecentKeys}

theorem KeepsRecent.perm (h : KeepsRecent cache past) :
    (cache.entries.map Prod.fst).Perm (past.used.take cache.capacity) := by
  obtain ⟨es, hperm, hkeys, -⟩ := h.listing
  rw [← hkeys]
  exact (hperm.map Prod.fst).symm

theorem KeepsRecent.boundedLru (h : KeepsRecent cache past) : BoundedLru cache past where
  bounded := by
    have hlen := h.perm.length_eq
    rw [List.length_map] at hlen
    rw [hlen]
    exact List.length_take_le _ _
  recent := h.perm
  ticked := h.ticked

theorem KeepsRecent.nodup_keys (h : KeepsRecent cache past) :
    (cache.entries.map Prod.fst).Nodup :=
  h.perm.nodup_iff.2 (h.nodup.sublist (List.take_sublist _ _))

theorem KeepsRecent.mem_keys (h : KeepsRecent cache past) {key : CacheKey} :
    key ∈ cache.entries.map Prod.fst ↔ key ∈ past.used.take cache.capacity :=
  h.perm.mem_iff

theorem lookup_isSome {entries : List (CacheKey × CacheEntry)} {key : CacheKey} :
    (entries.lookup key).isSome ↔ key ∈ entries.map Prod.fst := by
  constructor
  · intro h
    obtain ⟨entry, hentry⟩ := Option.isSome_iff_exists.1 h
    exact List.mem_map.2 ⟨(key, entry), Listed.mem_of_lookup hentry, rfl⟩
  · intro h
    induction entries with
    | nil => cases h
    | cons e entries ih =>
      obtain ⟨k, v⟩ := e
      rw [Listed.lookup_cons_if]
      by_cases hk : key = k
      · rw [if_pos hk]
        rfl
      · rw [if_neg hk]
        exact ih ((List.mem_cons.1 h).resolve_left hk)

/-! ## One use -/

/-- The entry of a use comes to the front of those that stay. -/
theorem KeepsRecent.use (h : KeepsRecent cache past) {key : CacheKey} {row : CachedRow}
    {rest es entries : List (CacheKey × CacheEntry)} (hes : es.Perm cache.entries)
    (hage : ByAge last_access es) (hrest : rest.Sublist es)
    (hkeys : key :: rest.map Prod.fst = (touch key past.used).take cache.capacity)
    (htick : row.tick = cache.current_tick)
    (hentries : ((key, ⟨row, cache.access_counter + 1⟩) :: rest).Perm entries) :
    KeepsRecent { cache with access_counter := cache.access_counter + 1, entries }
      { past with used := touch key past.used } where
  tick := h.tick
  nodup := nodup_touch h.nodup
  listing := by
    refine ⟨_, hentries, hkeys, ?_⟩
    apply (hage.sublist hrest).cons
    intro e he
    have hle := h.counted e (hes.mem_iff.1 (hrest.subset he))
    change last_access e < cache.access_counter + 1
    omega
  counted := by
    intro e he
    rcases List.mem_cons.1 (hentries.mem_iff.2 he) with rfl | he
    · exact Nat.le_refl _
    · have hle := h.counted e (hes.mem_iff.1 (hrest.subset he))
      change last_access e ≤ cache.access_counter + 1
      omega
  ticked := by
    intro e he
    rcases List.mem_cons.1 (hentries.mem_iff.2 he) with rfl | he
    · exact htick
    · exact h.ticked e (hes.mem_iff.1 (hrest.subset he))

theorem map_fst_remove {entries : List (CacheKey × CacheEntry)}
    (hnodup : (entries.map Prod.fst).Nodup) (key : CacheKey) :
    (Listed.remove entries key).map Prod.fst = (entries.map Prod.fst).erase key := by
  rw [hnodup.erase_eq_filter, List.filter_map]
  apply congrArg
  apply List.filter_congr
  intro e _
  by_cases he : e.1 = key <;> simp [he]

/-- A key that is there is used. -/
theorem KeepsRecent.use_cached (h : KeepsRecent cache past) {key : CacheKey} {row : CachedRow}
    {entries : List (CacheKey × CacheEntry)} (hkey : key ∈ past.used.take cache.capacity)
    (htick : row.tick = cache.current_tick)
    (hentries : ((key, ⟨row, cache.access_counter + 1⟩) ::
      Listed.remove cache.entries key).Perm entries) :
    KeepsRecent { cache with access_counter := cache.access_counter + 1, entries }
      { past with used := touch key past.used } := by
  obtain ⟨es, hperm, hkeys, hage⟩ := h.listing
  have hnodup : (es.map Prod.fst).Nodup := (hperm.map Prod.fst).nodup_iff.2 h.nodup_keys
  have hrest : key :: (Listed.remove es key).map Prod.fst
      = (touch key past.used).take cache.capacity := by
    rw [map_fst_remove hnodup, hkeys, take_touch_of_mem hkey]
    rfl
  exact h.use hperm hage List.filter_sublist hrest htick
    (((hperm.filter _).cons _).trans hentries)

/-! ## Eviction -/

theorem least_used_spec (entries : List (CacheKey × CacheEntry)) :
    match PrefetchCache.least_used entries with
    | none => entries = []
    | some victim => victim ∈ entries ∧ ∀ e ∈ entries, last_access victim ≤ last_access e := by
  -- from the right: the entry that comes last is compared with the least of those before
  induction entries using List.reverseRecOn with
  | nil => rfl
  | append_singleton entries e ih =>
    rw [PrefetchCache.least_used, List.foldl_append, ← PrefetchCache.least_used]
    rcases hleast : PrefetchCache.least_used entries with _ | best
    · rw [hleast] at ih
      rw [show entries = [] from ih]
      simp
    · rw [hleast] at ih
      obtain ⟨hmem, hle⟩ := ih
      simp only [List.foldl_cons, List.foldl_nil]
      by_cases hlt : e.2.last_access < best.2.last_access
      · rw [if_pos hlt]
        refine ⟨by simp, ?_⟩
        intro a ha
        rcases List.mem_append.1 ha with ha | ha
        · have hbest := hle a ha
          unfold last_access at hbest ⊢
          omega
        · rw [List.mem_singleton.1 ha]
      · rw [if_neg hlt]
        refine ⟨List.mem_append_left _ hmem, ?_⟩
        intro a ha
        rcases List.mem_append.1 ha with ha | ha
        · exact hle a ha
        · rw [List.mem_singleton.1 ha]
          unfold last_access
          omega

/-- What is evicted is the last of the listing. -/
theorem least_used_listing {entries es : List (CacheKey × CacheEntry)} {e : CacheKey × CacheEntry}
    (hperm : (es ++ [e]).Perm entries) (hage : ByAge last_access (es ++ [e])) :
    PrefetchCache.least_used entries = some e := by
  have hspec := least_used_spec entries
  have hmem : e ∈ entries := hperm.mem_iff.1 (by simp)
  rcases hleast : PrefetchCache.least_used entries with _ | victim
  · rw [hleast] at hspec
    rw [show entries = [] from hspec] at hmem
    cases hmem
  · rw [hleast] at hspec
    rw [hage.eq_last (hperm.mem_iff.2 hspec.1) (hspec.2 e hmem)]

theorem remove_remove (entries : List (CacheKey × CacheEntry)) (key : CacheKey) :
    Listed.remove (Listed.remove entries key) key = Listed.remove entries key := by
  unfold Listed.remove
  rw [List.filter_filter]
  simp

theorem remove_not_mem {entries : List (CacheKey × CacheEntry)} {key : CacheKey}
    (h : key ∉ entries.map Prod.fst) : Listed.remove entries key = entries := by
  apply List.filter_eq_self.2
  intro e he
  have hne : e.1 ≠ key := fun heq => h (List.mem_map.2 ⟨e, he, heq⟩)
  simpa using hne

/-- Without its last entry, a listing lists what is left. -/
theorem remove_last {entries front : List (CacheKey × CacheEntry)} {e : CacheKey × CacheEntry}
    (hperm : (front ++ [e]).Perm entries) (hnodup : ((front ++ [e]).map Prod.fst).Nodup) :
    (Listed.remove entries e.1).Perm front := by
  have hlast : e.1 ∉ front.map Prod.fst := by
    rw [List.map_append, List.nodup_append] at hnodup
    intro hmem
    exact hnodup.2.2 e.1 hmem e.1 (by simp) rfl
  have hfront : Listed.remove (front ++ [e]) e.1 = front := by
    unfold Listed.remove
    rw [List.filter_append]
    change Listed.remove front e.1 ++ _ = front
    rw [remove_not_mem hlast, List.filter_eq_nil_iff.2, List.append_nil]
    intro a ha
    rw [List.mem_singleton.1 ha]
    simp
  have hfilter := hperm.symm.filter fun a => decide (a.1 ≠ e.1)
  rw [← hfront]
  exact hfilter

/-- A full cache has a last entry, and `evict_lru` takes it out. -/
theorem KeepsRecent.full (h : KeepsRecent cache past) (hpos : 0 < cache.capacity)
    (hfull : cache.capacity ≤ cache.entries.length) :
    ∃ front e, (front ++ [e]).Perm cache.entries ∧ ByAge last_access (front ++ [e])
      ∧ (front ++ [e]).map Prod.fst = past.used.take cache.capacity
      ∧ PrefetchCache.least_used cache.entries = some e
      ∧ cache.evict_lru = { cache with entries := Listed.remove cache.entries e.1 } := by
  obtain ⟨es, hperm, hkeys, hage⟩ := h.listing
  have hlen := hperm.length_eq
  rcases List.eq_nil_or_concat es with rfl | ⟨front, e, hes⟩
  · rw [List.length_nil] at hlen
    omega
  · rw [List.concat_eq_append] at hes
    subst hes
    have hleast := least_used_listing hperm hage
    refine ⟨front, e, hperm, hage, hkeys, hleast, ?_⟩
    rw [PrefetchCache.evict_lru, hleast]

/-! ## Each call -/

theorem saturating_add_one {n : Nat} (h : n + 1 ≤ u64_MAX) : saturating_add n 1 = n + 1 :=
  min_eq_left h

theorem insert_room {row : CachedRow} (h : ¬ cache.capacity ≤ cache.entries.length)
    (hcount : cache.access_counter + 1 ≤ u64_MAX) :
    cache.insert row = { cache with
      access_counter := cache.access_counter + 1
      entries := (⟨row.table, row.row_id⟩, ⟨row, cache.access_counter + 1⟩) ::
        Listed.remove cache.entries ⟨row.table, row.row_id⟩ } := by
  unfold PrefetchCache.insert
  rw [if_neg h]
  simp only [saturating_add_one hcount]
  rfl

theorem insert_full {row : CachedRow} {e : CacheKey × CacheEntry}
    (h : cache.capacity ≤ cache.entries.length)
    (hevict : cache.evict_lru = { cache with entries := Listed.remove cache.entries e.1 })
    (hcount : cache.access_counter + 1 ≤ u64_MAX) :
    cache.insert row = { cache with
      access_counter := cache.access_counter + 1
      entries := (⟨row.table, row.row_id⟩, ⟨row, cache.access_counter + 1⟩) ::
        Listed.remove (Listed.remove cache.entries e.1) ⟨row.table, row.row_id⟩ } := by
  unfold PrefetchCache.insert
  rw [if_pos h, hevict]
  simp only [saturating_add_one hcount]
  rfl

/-- A new key in a full cache: the last entry goes. -/
theorem KeepsRecent.insert_evicting (h : KeepsRecent cache past) {row : CachedRow}
    (hpos : 0 < cache.capacity) (hfull : cache.capacity ≤ cache.entries.length)
    (hkey : (⟨row.table, row.row_id⟩ : CacheKey) ∉ cache.entries.map Prod.fst)
    (htick : row.tick = cache.current_tick) (hcount : cache.access_counter + 1 ≤ u64_MAX) :
    KeepsRecent (cache.insert row)
      { past with used := touch ⟨row.table, row.row_id⟩ past.used } := by
  obtain ⟨front, e, hperm, hage, hkeys, hleast, hevict⟩ := h.full hpos hfull
  have hnodup : ((front ++ [e]).map Prod.fst).Nodup :=
    (hperm.map Prod.fst).nodup_iff.2 h.nodup_keys
  have hstay : (Listed.remove cache.entries e.1).Perm front := remove_last hperm hnodup
  have hgone : (⟨row.table, row.row_id⟩ : CacheKey) ∉
      (Listed.remove cache.entries e.1).map Prod.fst := by
    intro hmem
    exact hkey ((List.filter_sublist.map Prod.fst).subset hmem)
  rw [insert_full hfull hevict hcount, remove_not_mem hgone]
  refine h.use hperm hage (List.sublist_append_left front [e]) ?_ htick (hstay.symm.cons _)
  rw [List.map_append] at hkeys
  have hlen : cache.capacity ≤ (front.map Prod.fst).length + 1 := by
    have hsize := hperm.length_eq
    rw [List.length_append, List.length_singleton] at hsize
    rw [List.length_map]
    omega
  rw [h.mem_keys] at hkey
  exact (take_touch_of_full hkeys hlen hkey).symm

/-- A new key in a cache that is not full. -/
theorem KeepsRecent.insert_new (h : KeepsRecent cache past) {row : CachedRow}
    (hroom : ¬ cache.capacity ≤ cache.entries.length)
    (hkey : (⟨row.table, row.row_id⟩ : CacheKey) ∉ cache.entries.map Prod.fst)
    (htick : row.tick = cache.current_tick) (hcount : cache.access_counter + 1 ≤ u64_MAX) :
    KeepsRecent (cache.insert row)
      { past with used := touch ⟨row.table, row.row_id⟩ past.used } := by
  obtain ⟨es, hperm, hkeys, hage⟩ := h.listing
  rw [insert_room hroom hcount, remove_not_mem hkey]
  refine h.use hperm hage (List.Sublist.refl es) ?_ htick (hperm.cons _)
  have hlen : (past.used.take cache.capacity).length < cache.capacity := by
    have hsize := hperm.length_eq
    rw [← hkeys, List.length_map]
    omega
  rw [h.mem_keys] at hkey
  rw [hkeys]
  exact (take_touch_of_room hlen hkey).symm

theorem KeepsRecent.insert (h : KeepsRecent cache past) {row : CachedRow}
    (htick : row.tick = cache.current_tick) (hcount : cache.access_counter + 1 ≤ u64_MAX)
    (hspared : CacheCall.Spared cache (.insert row)) :
    KeepsRecent (cache.insert row)
      { past with used := touch ⟨row.table, row.row_id⟩ past.used } := by
  obtain ⟨hpos, hagain⟩ := hspared
  by_cases hkey : (⟨row.table, row.row_id⟩ : CacheKey) ∈ cache.entries.map Prod.fst
  · by_cases hfull : cache.capacity ≤ cache.entries.length
    · -- it is evicted and inserted again
      obtain ⟨front, e, -, -, -, hleast, hevict⟩ := h.full hpos hfull
      have hvictim := hagain hkey hfull
      rw [hleast] at hvictim
      rw [insert_full hfull hevict hcount, Option.some.inj hvictim, remove_remove]
      exact h.use_cached (h.mem_keys.1 hkey) htick (List.Perm.refl _)
    · rw [insert_room hfull hcount]
      exact h.use_cached (h.mem_keys.1 hkey) htick (List.Perm.refl _)
  · by_cases hfull : cache.capacity ≤ cache.entries.length
    · exact h.insert_evicting hpos hfull hkey htick hcount
    · exact h.insert_new hfull hkey htick hcount

/-- An entry changed where it stands is, up to the order, that entry and the others. -/
theorem perm_changed {entries : List (CacheKey × CacheEntry)} {key : CacheKey} {entry : CacheEntry}
    (hnodup : (entries.map Prod.fst).Nodup) (hlookup : entries.lookup key = some entry)
    (change : CacheEntry → CacheEntry) :
    ((key, change entry) :: Listed.remove entries key).Perm
      (entries.map fun e => if e.1 = key then (e.1, change e.2) else e) := by
  induction entries with
  | nil => cases hlookup
  | cons e entries ih =>
    obtain ⟨k, v⟩ := e
    rw [List.map_cons, List.nodup_cons] at hnodup
    obtain ⟨hnew, hrest⟩ := hnodup
    rw [Listed.lookup_cons_if] at hlookup
    by_cases hk : key = k
    · subst hk
      rw [if_pos rfl] at hlookup
      rw [Option.some.inj hlookup]
      have hkept : entries.map (fun e => if e.1 = key then (e.1, change e.2) else e) = entries := by
        conv_rhs => rw [← List.map_id entries]
        apply List.map_congr_left
        intro e he
        have hne : e.1 ≠ key := fun heq => hnew (List.mem_map.2 ⟨e, he, heq⟩)
        exact if_neg hne
      rw [List.map_cons, hkept, if_pos rfl, Listed.remove, List.filter_cons_of_neg (by simp),
        ← Listed.remove, remove_not_mem hnew]
    · rw [if_neg hk] at hlookup
      rw [List.map_cons, if_neg (Ne.symm hk), Listed.remove,
        List.filter_cons_of_pos (by simpa using Ne.symm hk), ← Listed.remove]
      exact (List.Perm.swap _ _ _).trans ((ih hrest hlookup).cons _)

theorem get_miss {table : String} {row_id : RowId}
    (h : cache.entries.lookup (⟨table, row_id⟩ : CacheKey) = none) :
    cache.get table row_id = (none, cache) := by
  simp only [PrefetchCache.get, h]

theorem get_hit {table : String} {row_id : RowId} {entry : CacheEntry}
    (h : cache.entries.lookup (⟨table, row_id⟩ : CacheKey) = some entry)
    (hcount : cache.access_counter + 1 ≤ u64_MAX) :
    cache.get table row_id = (some entry.row,
      { cache with
        access_counter := cache.access_counter + 1
        entries := cache.entries.map fun e =>
          if e.1 = ⟨table, row_id⟩ then
            (e.1, { e.2 with last_access := cache.access_counter + 1 })
          else e }) := by
  simp only [PrefetchCache.get, h, saturating_add_one hcount]

theorem KeepsRecent.get (h : KeepsRecent cache past) (table : String) (row_id : RowId)
    (hcount : cache.access_counter + 1 ≤ u64_MAX) :
    KeepsRecent (cache.get table row_id).2
      (CacheCall.recent cache.capacity past (.get table row_id)) := by
  have hmem : (⟨table, row_id⟩ : CacheKey) ∈ past.used.take cache.capacity ↔
      (cache.entries.lookup (⟨table, row_id⟩ : CacheKey)).isSome := by
    rw [← h.mem_keys, lookup_isSome]
  rcases hlookup : cache.entries.lookup (⟨table, row_id⟩ : CacheKey) with _ | entry
  · rw [hlookup] at hmem
    rw [get_miss hlookup, CacheCall.recent, if_neg (by simpa using hmem)]
    exact h
  · rw [hlookup] at hmem
    have hkey := hmem.2 rfl
    rw [get_hit hlookup hcount, CacheCall.recent, if_pos hkey]
    exact h.use_cached hkey (h.ticked _ (Listed.mem_of_lookup hlookup))
      (perm_changed h.nodup_keys hlookup fun e => { e with last_access := cache.access_counter + 1 })

@[simp] theorem capacity_insert (cache : PrefetchCache) (row : CachedRow) :
    (cache.insert row).capacity = cache.capacity := by
  unfold PrefetchCache.insert PrefetchCache.evict_lru
  split
  · rcases PrefetchCache.least_used cache.entries with _ | ⟨key, entry⟩ <;> rfl
  · rfl

@[simp] theorem tick_insert (cache : PrefetchCache) (row : CachedRow) :
    (cache.insert row).current_tick = cache.current_tick := by
  unfold PrefetchCache.insert PrefetchCache.evict_lru
  split
  · rcases PrefetchCache.least_used cache.entries with _ | ⟨key, entry⟩ <;> rfl
  · rfl

theorem counter_insert (cache : PrefetchCache) (row : CachedRow) :
    (cache.insert row).access_counter ≤ cache.access_counter + 1 := by
  unfold PrefetchCache.insert PrefetchCache.evict_lru
  split
  · rcases PrefetchCache.least_used cache.entries with _ | ⟨key, entry⟩ <;> exact min_le_left _ _
  · exact min_le_left _ _

@[simp] theorem capacity_prefetch_row (cache : PrefetchCache) (table : String)
    (view : TableReadView) (row_id : RowId) :
    (cache.prefetch_row table view row_id).capacity = cache.capacity := by
  unfold PrefetchCache.prefetch_row
  split
  · rfl
  · exact capacity_insert cache _

theorem capacity_prefetch_rows (cache : PrefetchCache) (table : String) (view : TableReadView)
    (row_ids : List RowId) :
    (row_ids.foldl (PrefetchCache.prefetch_row table view) cache).capacity = cache.capacity := by
  induction row_ids generalizing cache with
  | nil => rfl
  | cons row_id row_ids ih => rw [List.foldl_cons, ih, capacity_prefetch_row]

/-- A row that is prefetched is inserted only where it is not there. -/
theorem KeepsRecent.prefetch_row (h : KeepsRecent cache past) {table : String}
    (view : TableReadView) (row_id : RowId) (hpos : 0 < cache.capacity)
    (hcount : cache.access_counter + 1 ≤ u64_MAX) :
    KeepsRecent (cache.prefetch_row table view row_id)
      { past with used := CacheCall.prefetched cache.capacity table past.used row_id } := by
  unfold PrefetchCache.prefetch_row CacheCall.prefetched
  by_cases hkey : (⟨table, row_id⟩ : CacheKey) ∈ past.used.take cache.capacity
  · rw [if_pos (lookup_isSome.2 (h.mem_keys.2 hkey)), if_pos hkey]
    exact h
  · have hout : (⟨table, row_id⟩ : CacheKey) ∉ cache.entries.map Prod.fst :=
      fun hmem => hkey (h.mem_keys.1 hmem)
    rw [if_neg fun hsome => hout (lookup_isSome.1 hsome), if_neg hkey]
    exact h.insert rfl hcount ⟨hpos, fun hmem _ => absurd hmem hout⟩

theorem KeepsRecent.prefetch_rows {table : String} (view : TableReadView) {row_ids : List RowId}
    (h : KeepsRecent cache past) (hpos : 0 < cache.capacity)
    (hcount : cache.access_counter + row_ids.length ≤ u64_MAX) :
    KeepsRecent (row_ids.foldl (PrefetchCache.prefetch_row table view) cache)
      { past with
        used := row_ids.foldl (CacheCall.prefetched cache.capacity table) past.used } := by
  induction row_ids generalizing cache past with
  | nil => exact h
  | cons row_id row_ids ih =>
    rw [List.length_cons] at hcount
    have hstep : KeepsRecent (cache.prefetch_row table view row_id) _ :=
      h.prefetch_row view row_id hpos (by omega)
    have hcounter : (cache.prefetch_row table view row_id).access_counter
        ≤ cache.access_counter + 1 := by
      unfold PrefetchCache.prefetch_row
      split
      · omega
      · exact counter_insert cache _
    have hrest := ih hstep (by rw [capacity_prefetch_row]; exact hpos) (by omega)
    rw [capacity_prefetch_row] at hrest
    exact hrest

/-- A call that is spared keeps the invariant. -/
theorem KeepsRecent.apply (h : KeepsRecent cache past) {call : CacheCall}
    (hadmissible : call.Admissible cache) (hspared : call.Spared cache) :
    KeepsRecent (call.apply cache) (call.recent cache.capacity past) := by
  cases call with
  | get table row_id => exact h.get table row_id hadmissible
  | insert row => exact h.insert hadmissible.1 hadmissible.2 hspared
  | prefetch source table row_ids =>
    have htick := h.tick
    unfold CacheCall.apply CacheCall.recent PrefetchCache.prefetch
    rcases hread : PrefetchCache.read_view source cache.current_tick table with e | view
    · simp only [htick, hread]
      exact h
    · simp only [htick, hread]
      rw [← htick]
      rcases hspared with hpos | rfl | hfails
      · exact prefetch_rows view h hpos hadmissible
      · exact h
      · rw [hread] at hfails
        cases hfails
  | set_tick tick =>
    rw [CacheCall.apply, CacheCall.recent, PrefetchCache.set_tick, h.tick]
    by_cases htick : cache.current_tick ≠ tick
    · rw [if_pos htick, if_pos htick]
      exact ⟨rfl, List.nodup_nil, ⟨[], List.Perm.refl _, by simp [PrefetchCache.clear],
        List.Pairwise.nil⟩, by simp [PrefetchCache.clear], by simp [PrefetchCache.clear]⟩
    · rw [if_neg htick, if_neg htick]
      exact h
  | clear =>
    exact ⟨h.tick, List.nodup_nil, ⟨[], List.Perm.refl _, by simp [CacheCall.recent, CacheCall.apply,
      PrefetchCache.clear], List.Pairwise.nil⟩, by simp [CacheCall.apply, PrefetchCache.clear],
      by simp [CacheCall.apply, PrefetchCache.clear]⟩

/-! ## The calls that are not spared -/

/-- Nothing that comes in fits into a cache of no capacity. -/
theorem insert_ne_nil (cache : PrefetchCache) (row : CachedRow) : (cache.insert row).entries ≠ [] := by
  unfold PrefetchCache.insert
  exact List.cons_ne_nil _ _

theorem prefetch_rows_ne_nil {table : String} (view : TableReadView) {row_ids : List RowId}
    (h : cache.entries ≠ [] ∨ row_ids ≠ []) :
    (row_ids.foldl (PrefetchCache.prefetch_row table view) cache).entries ≠ [] := by
  induction row_ids generalizing cache with
  | nil => exact h.resolve_right fun hne => hne rfl
  | cons row_id row_ids ih =>
    apply ih
    left
    unfold PrefetchCache.prefetch_row
    by_cases hthere : (cache.entries.lookup (⟨table, row_id⟩ : CacheKey)).isSome
    · rw [if_pos hthere]
      intro hnil
      rw [hnil] at hthere
      cases hthere
    · rw [if_neg hthere]
      exact insert_ne_nil _ _

/-- A key inserted again costs another one its place. -/
theorem length_insert_again (h : KeepsRecent cache past) {row : CachedRow}
    (hpos : 0 < cache.capacity) (hcount : cache.access_counter + 1 ≤ u64_MAX)
    (hkey : (⟨row.table, row.row_id⟩ : CacheKey) ∈ cache.entries.map Prod.fst)
    (hfull : cache.capacity ≤ cache.entries.length)
    (hvictim : (PrefetchCache.least_used cache.entries).map Prod.fst
      ≠ some ⟨row.table, row.row_id⟩) :
    (cache.insert row).entries.length < cache.capacity := by
  obtain ⟨front, e, hperm, -, -, hleast, hevict⟩ := h.full hpos hfull
  rw [insert_full hfull hevict hcount]
  have hne : e.1 ≠ ⟨row.table, row.row_id⟩ := by
    intro heq
    rw [hleast, ← heq] at hvictim
    exact hvictim rfl
  have hnodup := h.nodup_keys
  have hbound := h.boundedLru.bounded
  have hlast : e.1 ∈ cache.entries.map Prod.fst :=
    List.mem_map_of_mem (hperm.mem_iff.1 (by simp))
  have hstay : (⟨row.table, row.row_id⟩ : CacheKey) ∈ (cache.entries.map Prod.fst).erase e.1 :=
    (List.mem_erase_of_ne (Ne.symm hne)).2 hkey
  -- two keys go and one comes
  have hkeys : ((Listed.remove (Listed.remove cache.entries e.1)
      ⟨row.table, row.row_id⟩).map Prod.fst)
      = ((cache.entries.map Prod.fst).erase e.1).erase ⟨row.table, row.row_id⟩ := by
    rw [map_fst_remove, map_fst_remove hnodup]
    rw [map_fst_remove hnodup]
    exact hnodup.erase e.1
  have hlen := congrArg List.length hkeys
  rw [List.length_map, List.length_erase_of_mem hstay, List.length_erase_of_mem hlast,
    List.length_map] at hlen
  have htwo : 0 < ((cache.entries.map Prod.fst).erase e.1).length := List.length_pos_of_mem hstay
  rw [List.length_erase_of_mem hlast, List.length_map] at htwo
  simp only [List.length_cons, hlen]
  omega

/-- A call that is not spared makes the cache something else than what it should be. -/
theorem KeepsRecent.broken (h : KeepsRecent cache past) {call : CacheCall}
    (hadmissible : call.Admissible cache) (hspared : ¬ call.Spared cache) :
    ¬ BoundedLru (call.apply cache) (call.recent cache.capacity past) := by
  intro hlru
  cases call with
  | get table row_id => exact hspared trivial
  | set_tick tick => exact hspared trivial
  | clear => exact hspared trivial
  | insert row =>
    rw [CacheCall.apply] at hlru
    have hbound := hlru.bounded
    rw [capacity_insert] at hbound
    have hsome := List.length_pos_of_ne_nil (insert_ne_nil cache row)
    have hpos : 0 < cache.capacity := by omega
    obtain ⟨hkey, hfull, hvictim⟩ :
        (⟨row.table, row.row_id⟩ : CacheKey) ∈ cache.entries.map Prod.fst
          ∧ cache.capacity ≤ cache.entries.length
          ∧ (PrefetchCache.least_used cache.entries).map Prod.fst
            ≠ some ⟨row.table, row.row_id⟩ := by
      by_contra hnot
      refine hspared ⟨hpos, fun hkey hfull => ?_⟩
      by_contra hvictim
      exact hnot ⟨hkey, hfull, hvictim⟩
    have hlt := length_insert_again h hpos hadmissible.2 hkey hfull hvictim
    -- but as many keys have been used as there is room for
    have hlen := hlru.recent.length_eq
    have hused := h.perm.length_eq
    have hin := (List.take_sublist _ _).subset (h.mem_keys.1 hkey)
    have hone : 0 < past.used.length := List.length_pos_of_mem hin
    rw [List.length_map, capacity_insert, CacheCall.recent, List.length_take, touch,
      List.length_cons, List.length_erase_of_mem hin] at hlen
    rw [List.length_map, List.length_take] at hused
    omega
  | prefetch source table row_ids =>
    unfold CacheCall.Spared at hspared
    rw [not_or, not_or] at hspared
    obtain ⟨hzero, hne, hread⟩ := hspared
    rcases hview : PrefetchCache.read_view source cache.current_tick table with e | view
    · rw [hview] at hread
      exact hread rfl
    · have happly : CacheCall.apply cache (.prefetch source table row_ids)
          = row_ids.foldl (PrefetchCache.prefetch_row table view) cache := by
        simp only [CacheCall.apply, PrefetchCache.prefetch, hview]
      have hbound := hlru.bounded
      have hcached : (row_ids.foldl (PrefetchCache.prefetch_row table view) cache).entries ≠ [] :=
        prefetch_rows_ne_nil view (.inr hne)
      have hsome := List.length_pos_of_ne_nil hcached
      rw [happly, capacity_prefetch_rows] at hbound
      omega

end

/-! ## Runs -/

namespace CacheCall

def run (cache : PrefetchCache) (calls : List CacheCall) : PrefetchCache := calls.foldl apply cache

def history (capacity : Nat) (past : RecentKeys) (calls : List CacheCall) : RecentKeys :=
  calls.foldl (recent capacity) past

end CacheCall

theorem capacity_apply (cache : PrefetchCache) (call : CacheCall) :
    (call.apply cache).capacity = cache.capacity := by
  cases call with
  | get table row_id =>
    unfold CacheCall.apply PrefetchCache.get
    rcases hlookup : cache.entries.lookup (⟨table, row_id⟩ : CacheKey) with _ | entry <;>
      simp only [hlookup]
  | insert row => exact capacity_insert cache row
  | prefetch source table row_ids =>
    unfold CacheCall.apply PrefetchCache.prefetch
    rcases hread : PrefetchCache.read_view source cache.current_tick table with e | view <;>
      simp only [hread]
    exact capacity_prefetch_rows cache table view row_ids
  | set_tick tick =>
    rw [CacheCall.apply, PrefetchCache.set_tick]
    split <;> rfl
  | clear => rfl

theorem KeepsRecent.run {cache : PrefetchCache} {past : RecentKeys} (h : KeepsRecent cache past)
    {calls : List CacheCall}
    (hadmissible : CacheCall.AllMeet CacheCall.Admissible cache calls)
    (hspared : CacheCall.AllMeet CacheCall.Spared cache calls) :
    KeepsRecent (CacheCall.run cache calls) (CacheCall.history cache.capacity past calls) := by
  induction calls generalizing cache past with
  | nil => exact h
  | cons call calls ih =>
    have hrest := ih (h.apply hadmissible.1 hspared.1) hadmissible.2 hspared.2
    rw [capacity_apply] at hrest
    exact hrest

theorem KeepsRecent.new (capacity : Nat) (tick : Tick) :
    KeepsRecent ((PrefetchCache.new capacity).with_tick tick) { tick, used := [] } :=
  ⟨rfl, List.nodup_nil, ⟨[], List.Perm.refl _, List.take_nil.symm, List.Pairwise.nil⟩,
    by simp [PrefetchCache.with_tick, PrefetchCache.new],
    by simp [PrefetchCache.with_tick, PrefetchCache.new]⟩

/-- What `pin_in_cache` inserts is of the cache's tick. -/
theorem pin_in_cache_inserts (ev : Evaluator) (row_id : RowId) :
    (ev.pin_in_cache row_id).2.cache = ev.cache ∨
      ∃ row, row.tick = ev.cache.current_tick
        ∧ (ev.pin_in_cache row_id).2.cache = ev.cache.insert row := by
  unfold Evaluator.pin_in_cache
  simp only
  split
  · exact .inl rfl
  · exact .inr ⟨_, rfl, rfl⟩

/-- Along calls that are spared the cache holds the keys used last, as many as it has room for,
and the first call that is not spared ends that. -/
theorem bounded_lru_run (capacity : Nat) (tick : Tick) (calls : List CacheCall)
    (hadmissible : CacheCall.AllMeet CacheCall.Admissible
      ((PrefetchCache.new capacity).with_tick tick) calls)
    (hspared : CacheCall.AllMeet CacheCall.Spared
      ((PrefetchCache.new capacity).with_tick tick) calls) :
    let cache := CacheCall.run ((PrefetchCache.new capacity).with_tick tick) calls
    let past := CacheCall.history capacity { tick, used := [] } calls
    BoundedLru cache past ∧ ∀ call : CacheCall, call.Admissible cache →
      (BoundedLru (call.apply cache) (call.recent capacity past) ↔ call.Spared cache) := by
  intro cache past
  have h : KeepsRecent cache past := (KeepsRecent.new capacity tick).run hadmissible hspared
  have hcapacity : cache.capacity = capacity := by
    have hrun : ∀ (start : PrefetchCache) (calls : List CacheCall),
        (CacheCall.run start calls).capacity = start.capacity := by
      intro start calls
      induction calls generalizing start with
      | nil => rfl
      | cons call calls ih => exact (ih (call.apply start)).trans (capacity_apply start call)
    exact hrun _ calls
  refine ⟨h.boundedLru, ?_⟩
  intro call hcall
  rw [← hcapacity]
  constructor
  · intro hlru
    by_contra hnot
    exact h.broken hcall hnot hlru
  · intro hspared
    exact (h.apply hcall hspared).boundedLru

/-- A row of a province, in a view without batches. -/
def province_row (row_id : RowId) : CachedRow :=
  { tick := 1
    table := "province"
    row_id
    view :=
      { table_name := "province", tick := 1, batches := [], schema := .new "province"
        position_map := .new } }

/-- A third row in a cache of two takes the place of the second, the first having been read. -/
theorem third_row_cached :
    ((CacheCall.run ((PrefetchCache.new 2).with_tick 1)
      [.insert (province_row 1), .insert (province_row 2), .get "province" 1,
        .insert (province_row 3)]).entries.map Prod.fst).Perm
      [⟨"province", 3⟩, ⟨"province", 1⟩] := by
  have hlru := bounded_lru_run 2 1
    [.insert (province_row 1), .insert (province_row 2), .get "province" 1,
      .insert (province_row 3)]
    (by decide +kernel) (by decide +kernel)
  exact hlru.1.recent

/-- Both rows fit, and the second inserted once more costs the first its place. -/
theorem reinsertion_evicts :
    let start := (PrefetchCache.new 2).with_tick 1
    let calls : List CacheCall :=
      [.insert (province_row 1), .insert (province_row 2), .insert (province_row 2)]
    CacheCall.AllMeet CacheCall.Admissible start calls
      ∧ (CacheCall.run start calls).entries.map Prod.fst = [⟨"province", 2⟩]
      ∧ (CacheCall.history 2 { tick := 1, used := [] } calls).used
        = [⟨"province", 2⟩, ⟨"province", 1⟩]
      ∧ ¬ BoundedLru (CacheCall.run start calls)
        (CacheCall.history 2 { tick := 1, used := [] } calls) := by
  intro start calls
  have hkeys : (CacheCall.run start calls).entries.map Prod.fst = [⟨"province", 2⟩] := by
    decide +kernel
  have hused : (CacheCall.history 2 { tick := 1, used := [] } calls).used
      = [⟨"province", 2⟩, ⟨"province", 1⟩] := by decide +kernel
  refine ⟨by decide +kernel, hkeys, hused, ?_⟩
  intro hlru
  have hlen := hlru.recent.length_eq
  rw [hkeys, hused] at hlen
  exact absurd hlen (by decide)

end Scharnhorst
