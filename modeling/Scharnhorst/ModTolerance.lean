/-
What the check of the mods finds out about the two lists, and what of it is in its outcome.

A mod is missing, extra or mismatched independently of the others, so there are eight
combinations, and five kinds of outcome for them. The kind that carries warnings and
degraded tables together is only made when there are extra mods as well.
-/
import Mathlib.Data.List.Perm.Subperm
import Scharnhorst.Migration

set_option autoImplicit false

namespace Scharnhorst

/-! ## Two lists of mods -/

namespace FingerprintRegistry

variable (stored : FingerprintRegistry) (available : List ModFingerprint)

def ids : List String := stored.fingerprints.map (·.mod_id)

def Missing (fp : ModFingerprint) : Prop :=
  fp ∈ stored.fingerprints ∧ fp.mod_id ∉ available.map (·.mod_id)

def Extra (fp : ModFingerprint) : Prop := fp ∈ available ∧ fp.mod_id ∉ stored.ids

def Mismatched (p : ModFingerprint × ModFingerprint) : Prop :=
  p.1 ∈ stored.fingerprints ∧ p.2 ∈ available ∧ p.2.mod_id = p.1.mod_id
    ∧ (p.2.content_hash ≠ p.1.content_hash ∨ p.2.version ≠ p.1.version)

/-- The same ids on both sides, with equal version and content hash. -/
def SameMods : Prop :=
  (∀ id, id ∈ stored.ids ↔ id ∈ available.map (·.mod_id))
    ∧ ∀ s ∈ stored.fingerprints, ∀ a ∈ available, a.mod_id = s.mod_id →
      a.content_hash = s.content_hash ∧ a.version = s.version

variable {stored available}

theorem mem_missing {fp : ModFingerprint} :
    fp ∈ (stored.compare available).missing ↔ stored.Missing available fp := by
  simp [compare, Missing]

theorem mem_extra {fp : ModFingerprint} :
    fp ∈ (stored.compare available).extra ↔ stored.Extra available fp := by
  simp [compare, Extra, ids]

/-- Among mods with distinct ids the first with an id is the one with it. -/
theorem find_mod_iff (hids : (available.map (·.mod_id)).Nodup) {id : String} {avail : ModFingerprint} :
    available.find? (·.mod_id = id) = some avail ↔ avail ∈ available ∧ avail.mod_id = id := by
  constructor
  · intro h
    exact ⟨List.mem_of_find?_eq_some h, by simpa using List.find?_some h⟩
  · rintro ⟨hmem, hid⟩
    have hsome : (available.find? (·.mod_id = id)).isSome := by
      rw [List.find?_isSome]
      exact ⟨avail, hmem, by simpa using hid⟩
    obtain ⟨found, hfound⟩ := Option.isSome_iff_exists.mp hsome
    have hfid : found.mod_id = id := by simpa using List.find?_some hfound
    have hsame : found = avail :=
      List.inj_on_of_nodup_map hids (List.mem_of_find?_eq_some hfound) hmem (hfid.trans hid.symm)
    rw [hfound, hsame]

theorem mem_mismatched (hids : (available.map (·.mod_id)).Nodup)
    {p : ModFingerprint × ModFingerprint} :
    p ∈ (stored.compare available).mismatched ↔ stored.Mismatched available p := by
  simp only [compare, List.mem_filterMap, Option.bind_eq_some_iff, find_mod_iff hids,
    Option.ite_none_right_eq_some, Option.some.injEq]
  constructor
  · rintro ⟨s, hs, a, ⟨ha, hid⟩, hdiff, rfl⟩
    exact ⟨hs, ha, hid, hdiff⟩
  · rintro ⟨hs, ha, hid, hdiff⟩
    exact ⟨p.1, hs, p.2, ⟨ha, hid⟩, hdiff, rfl⟩

/-- Each mod of the save gives one pair at most. -/
theorem nodup_mismatched (hids : stored.ids.Nodup) :
    (stored.compare available).mismatched.Nodup := by
  have hmods : stored.fingerprints.Nodup := List.Nodup.of_map _ hids
  refine List.Nodup.filterMap ?_ hmods
  intro s t p hs ht
  have hfst : ∀ u : ModFingerprint, p ∈ ((available.find? (·.mod_id = u.mod_id)).bind fun avail =>
      if avail.content_hash ≠ u.content_hash ∨ avail.version ≠ u.version then some (u, avail)
      else none) → p.1 = u := by
    intro u hu
    obtain ⟨a, -, ha⟩ := Option.bind_eq_some_iff.mp hu
    rw [Option.ite_none_right_eq_some] at ha
    rw [← Option.some.inj ha.2]
  rw [← hfst s hs, ← hfst t ht]

theorem eq_nil_iff {α : Type} {xs : List α} {P : α → Prop} (h : ∀ x, x ∈ xs ↔ P x) :
    xs = [] ↔ ∀ x, ¬P x := by
  rw [List.eq_nil_iff_forall_not_mem]
  exact forall_congr' fun x => not_congr (h x)

/-- Nothing missing, extra or mismatched is what the same mods on both sides are. -/
theorem sameMods_iff :
    stored.SameMods available ↔ (∀ fp, ¬stored.Missing available fp)
      ∧ (∀ fp, ¬stored.Extra available fp) ∧ ∀ p, ¬stored.Mismatched available p := by
  constructor
  · rintro ⟨hids, heq⟩
    refine ⟨?_, ?_, ?_⟩
    · rintro fp ⟨hmem, hno⟩
      exact hno ((hids fp.mod_id).mp (List.mem_map_of_mem hmem))
    · rintro fp ⟨hmem, hno⟩
      exact hno ((hids fp.mod_id).mpr (List.mem_map_of_mem hmem))
    · rintro p ⟨hs, ha, hid, hdiff⟩
      have := heq p.1 hs p.2 ha hid
      tauto
  · rintro ⟨hmissing, hextra, hmismatched⟩
    refine ⟨fun id => ⟨fun h => ?_, fun h => ?_⟩, fun s hs a ha hid => ?_⟩
    · obtain ⟨fp, hfp, rfl⟩ := List.mem_map.mp h
      by_contra hno
      exact hmissing fp ⟨hfp, hno⟩
    · obtain ⟨fp, hfp, rfl⟩ := List.mem_map.mp h
      by_contra hno
      exact hextra fp ⟨hfp, hno⟩
    · have := hmismatched (s, a)
      by_contra hno
      refine this ⟨hs, ha, hid, ?_⟩
      tauto

/-- As many mods on both sides and none missing: then none is extra. -/
theorem no_extra_of_length_eq (hids : stored.ids.Nodup) (hlen : available.length = stored.len)
    (hmissing : ∀ fp, ¬stored.Missing available fp) (fp : ModFingerprint) :
    ¬stored.Extra available fp := by
  have hsub : stored.ids ⊆ available.map (·.mod_id) := by
    intro id hid
    obtain ⟨s, hs, rfl⟩ := List.mem_map.mp hid
    by_contra hno
    exact hmissing s ⟨hs, hno⟩
  have hperm : stored.ids.Perm (available.map (·.mod_id)) := by
    refine (hids.subperm hsub).perm_of_length_le ?_
    simp only [ids, List.length_map]
    exact hlen.le
  rintro ⟨hmem, hno⟩
  exact hno (hperm.mem_iff.mpr (List.mem_map_of_mem hmem))

theorem length_eq_of_sameMods (hstored : stored.ids.Nodup)
    (havailable : (available.map (·.mod_id)).Nodup) (h : stored.SameMods available) :
    available.length = stored.len := by
  have hperm : stored.ids.Perm (available.map (·.mod_id)) :=
    (List.perm_ext_iff_of_nodup hstored havailable).mpr h.1
  simpa [ids, len] using hperm.length_eq.symm

end FingerprintRegistry

/-! ## Outcomes -/

namespace ModLoadOutcome

/-- The warnings that an outcome carries. -/
def warnings : ModLoadOutcome → List String
  | VersionMismatch warnings => warnings
  | Degraded warnings _ => warnings
  | _ => []

/-- The tables that an outcome degrades. -/
def degraded_tables : ModLoadOutcome → List String
  | MissingMods _ degraded_tables => degraded_tables
  | Degraded _ degraded_tables => degraded_tables
  | _ => []

end ModLoadOutcome

namespace ModToleranceChecker

open FingerprintRegistry

variable (c : ModToleranceChecker) (stored : FingerprintRegistry) (available : List ModFingerprint)

/-- The warning about one mismatched mod. -/
def warning (p : ModFingerprint × ModFingerprint) : String :=
  s!"mod {p.1.mod_id} version mismatch: save={p.1.version}, disk={p.2.version}"

/-- Some critical mod is not available. -/
def CriticalLost : Prop := ∃ id, c.is_critical id ∧ id ∉ available.map (·.mod_id)

/-- Some critical mod of the save is not available. -/
def CriticalMissing : Prop := ∃ fp, stored.Missing available fp ∧ c.is_critical fp.mod_id

/-- One warning for every mismatched mod, and the tables of all missing mods. -/
def Tells (outcome : ModLoadOutcome) : Prop :=
  (∃ mismatched : List (ModFingerprint × ModFingerprint), mismatched.Nodup
      ∧ (∀ p, p ∈ mismatched ↔ stored.Mismatched available p)
      ∧ outcome.warnings = mismatched.map warning)
    ∧ ∀ table, table ∈ outcome.degraded_tables
      ↔ ∃ fp, stored.Missing available fp ∧ table ∈ fp.table_specs

/-- What a load may expect of the check. -/
structure ReportsAll : Prop where
  rejects : c.CriticalLost available → ∃ e, c.check stored available = .error e
  strict : c.policy = .Strict → ((∃ outcome, c.check stored available = .ok outcome)
    ↔ ¬c.CriticalLost available ∧ stored.SameMods available)
  warn : c.policy = .Warn → ¬c.CriticalLost available →
    ∃ outcome, c.check stored available = .ok outcome ∧ Tells stored available outcome
  exact_only : c.policy = .Warn → c.check stored available = .ok .ExactMatch →
    (∀ fp, ¬stored.Missing available fp) ∧ (∀ fp, ¬stored.Extra available fp)
      ∧ ∀ p, ¬stored.Mismatched available p

/-! ### The check, policy by policy -/

variable {c stored available}

theorem check_error_of_critical (h : c.CriticalMissing stored available) :
    ∃ e, c.check stored available = .error e := by
  obtain ⟨fp, hfp, hcritical⟩ := h
  have hsome : ((stored.compare available).missing.find? fun fp => c.is_critical fp.mod_id).isSome :=
    List.find?_isSome.mpr ⟨fp, mem_missing.mpr hfp, hcritical⟩
  obtain ⟨found, hfound⟩ := Option.isSome_iff_exists.mp hsome
  simp [check, hfound]

theorem find_critical_none (h : ¬c.CriticalMissing stored available) :
    ((stored.compare available).missing.find? fun fp => c.is_critical fp.mod_id) = none := by
  rw [List.find?_eq_none]
  intro fp hfp hcritical
  exact h ⟨fp, mem_missing.mp hfp, hcritical⟩

theorem check_warn (hpolicy : c.policy = .Warn) (h : ¬c.CriticalMissing stored available) :
    c.check stored available = .ok (warn_outcome (stored.compare available)) := by
  simp [check, find_critical_none h, hpolicy]

theorem check_silent (hpolicy : c.policy = .Silent) (h : ¬c.CriticalMissing stored available) :
    c.check stored available = .ok .ExactMatch := by
  simp [check, find_critical_none h, hpolicy]

theorem check_strict_ok_iff (hstored : stored.ids.Nodup)
    (havailable : (available.map (·.mod_id)).Nodup) (hpolicy : c.policy = .Strict)
    (h : ¬c.CriticalMissing stored available) :
    (∃ outcome, c.check stored available = .ok outcome) ↔ stored.SameMods available := by
  have hmissing : (stored.compare available).missing = [] ↔ ∀ fp, ¬stored.Missing available fp :=
    eq_nil_iff fun _ => mem_missing
  have hmismatched : (stored.compare available).mismatched = []
      ↔ ∀ p, ¬stored.Mismatched available p := eq_nil_iff fun _ => mem_mismatched havailable
  simp only [check, find_critical_none h, hpolicy]
  by_cases hlen : available.length = stored.len
  · rw [if_neg (not_not.mpr hlen), sameMods_iff, ← hmissing, ← hmismatched]
    rcases hm : (stored.compare available).missing with _ | ⟨fp, rest⟩
    · have hextra := no_extra_of_length_eq hstored hlen (hmissing.mp hm)
      rcases hd : (stored.compare available).mismatched with _ | ⟨p, rest⟩
      · simp [hextra]
      · simp
    · simp
  -- refused without a look at the mods
  · rw [if_pos hlen]
    have hdiffer : ¬stored.SameMods available := fun hsame =>
      hlen (length_eq_of_sameMods hstored havailable hsame)
    simp [hdiffer]

/-! ### What is told under `Warn` -/

/-- Every kind of outcome that is made when mods are mismatched carries their warnings. -/
theorem warn_outcome_warnings (comparison : FingerprintComparison) :
    (warn_outcome comparison).warnings = comparison.mismatched.map warning := by
  obtain ⟨missing, extra, mismatched⟩ := comparison
  by_cases hmismatched : mismatched = []
  · subst hmismatched
    rcases missing with _ | ⟨fp, missing⟩ <;> rcases extra with _ | ⟨other, extra⟩ <;> rfl
  · obtain ⟨p, rest, rfl⟩ := List.exists_cons_of_ne_nil hmismatched
    rcases missing with _ | ⟨fp, missing⟩ <;> rcases extra with _ | ⟨other, extra⟩ <;> rfl

theorem warn_outcome_degraded_tables (comparison : FingerprintComparison) :
    (warn_outcome comparison).degraded_tables
      = if comparison.mismatched ≠ [] ∧ comparison.extra = [] then []
        else comparison.missing.flatMap (·.table_specs) := by
  obtain ⟨missing, extra, mismatched⟩ := comparison
  rcases missing with _ | ⟨fp, missing⟩ <;> rcases extra with _ | ⟨other, extra⟩ <;>
    rcases mismatched with _ | ⟨p, mismatched⟩ <;> rfl

/-- The outcome under `Warn` leaves out degraded tables exactly where mods are mismatched and
missing but none is extra. -/
theorem warn_outcome_tells_iff (hstored : stored.ids.Nodup)
    (havailable : (available.map (·.mod_id)).Nodup) :
    Tells stored available (warn_outcome (stored.compare available))
      ↔ ((∃ p, stored.Mismatched available p)
        → (∃ fp, stored.Missing available fp ∧ fp.table_specs ≠ [])
        → ∃ fp, stored.Extra available fp) := by
  have hextra : (stored.compare available).extra = [] ↔ ∀ fp, ¬stored.Extra available fp :=
    eq_nil_iff fun _ => mem_extra
  have hmismatched : (stored.compare available).mismatched = []
      ↔ ∀ p, ¬stored.Mismatched available p := eq_nil_iff fun _ => mem_mismatched havailable
  have hwarned : ∃ mismatched : List (ModFingerprint × ModFingerprint), mismatched.Nodup
      ∧ (∀ p, p ∈ mismatched ↔ stored.Mismatched available p)
      ∧ (warn_outcome (stored.compare available)).warnings = mismatched.map warning :=
    ⟨(stored.compare available).mismatched, nodup_mismatched hstored,
      fun _ => mem_mismatched havailable, warn_outcome_warnings _⟩
  have htables : ∀ table, table ∈ (stored.compare available).missing.flatMap (·.table_specs)
      ↔ ∃ fp, stored.Missing available fp ∧ table ∈ fp.table_specs := by
    intro table
    simp only [List.mem_flatMap, mem_missing]
  unfold Tells
  rw [and_iff_right hwarned, warn_outcome_degraded_tables]
  by_cases hleft : (stored.compare available).mismatched ≠ [] ∧ (stored.compare available).extra = []
  · -- nothing is degraded, so nothing may have been to degrade
    rw [if_pos hleft]
    obtain ⟨p, hp⟩ := List.exists_mem_of_ne_nil _ hleft.1
    have hsome : ∃ p, stored.Mismatched available p := ⟨p, (mem_mismatched havailable).mp hp⟩
    have hnone : ¬∃ fp, stored.Extra available fp := not_exists.mpr (hextra.mp hleft.2)
    constructor
    · rintro htold - ⟨fp, hfp, hne⟩
      obtain ⟨table, htable⟩ := List.exists_mem_of_ne_nil _ hne
      exact absurd ((htold table).mpr ⟨fp, hfp, htable⟩) List.not_mem_nil
    · intro htold table
      refine iff_of_false List.not_mem_nil ?_
      rintro ⟨fp, hfp, htable⟩
      exact hnone (htold hsome ⟨fp, hfp, List.ne_nil_of_mem htable⟩)
  · rw [if_neg hleft]
    refine iff_of_true htables fun hsome _ => ?_
    by_contra hnone
    refine hleft ⟨?_, hextra.mpr (not_exists.mp hnone)⟩
    obtain ⟨p, hp⟩ := hsome
    exact List.ne_nil_of_mem ((mem_mismatched havailable).mpr hp)

theorem nil_of_warn_outcome_exact {comparison : FingerprintComparison}
    (h : warn_outcome comparison = .ExactMatch) :
    comparison.missing = [] ∧ comparison.extra = [] ∧ comparison.mismatched = [] := by
  obtain ⟨missing, extra, mismatched⟩ := comparison
  rcases missing with _ | ⟨fp, missing⟩ <;> rcases extra with _ | ⟨other, extra⟩ <;>
    rcases mismatched with _ | ⟨p, mismatched⟩ <;>
    first
    | exact ⟨rfl, rfl, rfl⟩
    | simp [warn_outcome, FingerprintComparison.is_exact_match] at h

/-! ### Every problem reported -/

theorem criticalLost_of_missing (h : c.CriticalMissing stored available) :
    c.CriticalLost available := by
  obtain ⟨fp, hfp, hcritical⟩ := h
  exact ⟨fp.mod_id, hcritical, hfp.2⟩

/-- Without a critical mod missing from the save, only `Strict` refuses, and only mods that
are not the same. -/
theorem check_ok_of_not_missing (hstored : stored.ids.Nodup)
    (havailable : (available.map (·.mod_id)).Nodup) (h : ¬c.CriticalMissing stored available)
    (hsame : c.policy = .Strict → stored.SameMods available) :
    ∃ outcome, c.check stored available = .ok outcome := by
  match hpolicy : c.policy with
  | .Strict => exact (check_strict_ok_iff hstored havailable hpolicy h).mpr (hsame hpolicy)
  | .Warn => exact ⟨_, check_warn hpolicy h⟩
  | .Silent => exact ⟨_, check_silent hpolicy h⟩

/-- The check reports every problem if and only if a critical mod that is not available is one
of the save or refused by `Strict` anyway, and under `Warn` mismatched mods and missing ones
with tables never come without an extra mod. -/
theorem reports_all_iff (hstored : stored.ids.Nodup)
    (havailable : (available.map (·.mod_id)).Nodup) :
    c.ReportsAll stored available
      ↔ (c.CriticalLost available → c.CriticalMissing stored available
          ∨ c.policy = .Strict ∧ ¬stored.SameMods available)
        ∧ (c.policy = .Warn → ¬c.CriticalLost available →
          (∃ p, stored.Mismatched available p) →
          (∃ fp, stored.Missing available fp ∧ fp.table_specs ≠ []) →
          ∃ fp, stored.Extra available fp) := by
  constructor
  · intro h
    refine ⟨fun hlost => ?_, fun hpolicy hlost => ?_⟩
    · by_contra hnot
      rw [not_or] at hnot
      obtain ⟨outcome, hok⟩ := check_ok_of_not_missing hstored havailable hnot.1
        fun hstrict => by
          by_contra hdiffer
          exact hnot.2 ⟨hstrict, hdiffer⟩
      obtain ⟨e, herror⟩ := h.rejects hlost
      rw [hok] at herror
      cases herror
    -- under `Warn` the outcome that is told is the only one
    · have hmissing : ¬c.CriticalMissing stored available := mt criticalLost_of_missing hlost
      obtain ⟨outcome, hok, htold⟩ := h.warn hpolicy hlost
      rw [check_warn hpolicy hmissing] at hok
      cases hok
      exact (warn_outcome_tells_iff hstored havailable).mp htold
  · rintro ⟨hcritical, htold⟩
    refine ⟨fun hlost => ?_, fun hpolicy => ?_, fun hpolicy hlost => ?_, fun hpolicy hexact => ?_⟩
    · by_cases hmissing : c.CriticalMissing stored available
      · exact check_error_of_critical hmissing
      -- the critical mod was not in the save, and `Strict` refuses for another reason
      · obtain ⟨hpolicy, hdiffer⟩ := (hcritical hlost).resolve_left hmissing
        have hno := mt (check_strict_ok_iff hstored havailable hpolicy hmissing).mp hdiffer
        match hcheck : c.check stored available with
        | .ok outcome => exact absurd ⟨outcome, hcheck⟩ hno
        | .error e => exact ⟨e, rfl⟩
    · by_cases hmissing : c.CriticalMissing stored available
      · obtain ⟨e, herror⟩ := check_error_of_critical hmissing
        refine iff_of_false ?_ fun h => h.1 (criticalLost_of_missing hmissing)
        rintro ⟨outcome, hok⟩
        rw [herror] at hok
        cases hok
      · rw [check_strict_ok_iff hstored havailable hpolicy hmissing]
        refine ⟨fun hsame => ⟨fun hlost => ?_, hsame⟩, And.right⟩
        exact ((hcritical hlost).resolve_left hmissing).2 hsame
    · have hmissing : ¬c.CriticalMissing stored available := mt criticalLost_of_missing hlost
      exact ⟨_, check_warn hpolicy hmissing,
        (warn_outcome_tells_iff hstored havailable).mpr (htold hpolicy hlost)⟩
    · have hmissing : ¬c.CriticalMissing stored available := by
        intro h
        obtain ⟨e, herror⟩ := check_error_of_critical h
        rw [herror] at hexact
        cases hexact
      rw [check_warn hpolicy hmissing] at hexact
      obtain ⟨hnone, hextra, hsame⟩ := nil_of_warn_outcome_exact (Except.ok.inj hexact)
      exact ⟨(eq_nil_iff fun fp => mem_missing).mp hnone,
        (eq_nil_iff fun fp => mem_extra).mp hextra,
        (eq_nil_iff fun p => mem_mismatched havailable).mp hsame⟩

theorem not_critical (id : String) (policy : ModTolerancePolicy) :
    ¬(new policy).is_critical id := by
  simp [new, is_critical]

/-- A save with a newer core, without the mod of the markets and with a mod it did not have. -/
theorem core_changed_market_gone_told :
    (new .Warn).ReportsAll
      ⟨[⟨"core", "1.0", ["province"], "a"⟩, ⟨"market", "1.0", ["goods"], "b"⟩]⟩
      [⟨"core", "1.1", ["province"], "c"⟩, ⟨"flags", "1.0", [], "d"⟩] := by
  refine (reports_all_iff (by decide) (by decide)).mpr ⟨?_, fun _ _ _ _ => ?_⟩
  · rintro ⟨id, hcritical, -⟩
    exact absurd hcritical (not_critical id .Warn)
  · exact ⟨⟨"flags", "1.0", [], "d"⟩, by decide, by decide⟩

/-- The same save without another mod: the table of the missing mod is not degraded. -/
theorem market_not_degraded :
    ¬(new .Warn).ReportsAll
      ⟨[⟨"core", "1.0", ["province"], "a"⟩, ⟨"market", "1.0", ["goods"], "b"⟩]⟩
      [⟨"core", "1.1", ["province"], "c"⟩] := by
  intro h
  obtain ⟨outcome, hok, -, htold⟩ := h.warn rfl fun hlost => by
    obtain ⟨id, hcritical, -⟩ := hlost
    exact not_critical id .Warn hcritical
  have hmismatch : outcome.degraded_tables = [] := by
    rw [check_warn rfl fun hmissing => by
      obtain ⟨fp, -, hcritical⟩ := hmissing
      exact not_critical _ .Warn hcritical] at hok
    rw [← Except.ok.inj hok]
    rfl
  have hgoods := (htold "goods").mpr
    ⟨⟨"market", "1.0", ["goods"], "b"⟩, ⟨by decide, by decide⟩, by decide⟩
  rw [hmismatch] at hgoods
  exact absurd hgoods List.not_mem_nil

end ModToleranceChecker

end Scharnhorst
