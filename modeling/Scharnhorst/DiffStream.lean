/-
Whether the panel shows each diff once.

Behind the number it has seen the panel never finds a summary twice. But the ring stops growing when
it is full, and a number that is as large as the ring hides all that comes later. And clearing the
panel sets the number to zero, while the ring still has what was pushed before.
-/
import Scharnhorst.DiffPanel
import Scharnhorst.Refinement
import Scharnhorst.TailWindow

set_option autoImplicit false

namespace Scharnhorst

open TailWindow

/-- An engine with a snapshot. -/
structure SnapshotEngine where
  engine : QueryEngine
  view : WorldView
  available : engine.world_view = .ok view

inductive StreamOp where
  | Push (diffs : List Diff) (tick : Tick)
  | Poll (q : SnapshotEngine)
  | Clear

/-- The ring and the panel, and all entries that the panel has appended since the last clear. -/
structure StreamRun where
  ring : DiffSummaryRing
  panel : DiffPanel
  shown : List DiffEntry

namespace StreamOp

/-- The summaries that an operation pushes. -/
def summaries [Render] : StreamOp → List DiffSummary
  | Push diffs tick => diffs.map (Diff.summarize tick)
  | Poll _ => []
  | Clear => []

def pushed [Render] (ops : List StreamOp) : List DiffSummary := ops.flatMap summaries

def IsPush : StreamOp → Prop
  | Push _ _ => True
  | _ => False

def IsClear : StreamOp → Prop
  | Clear => True
  | _ => False

end StreamOp

namespace StreamRun

/-- What a poll appends, before it trims. -/
def polled (s : StreamRun) (q : SnapshotEngine) : List DiffEntry :=
  ((s.panel.note_tick q.view).pull s.ring.entries).entries.drop s.panel.entries.length

def step [Render] (s : StreamRun) : StreamOp → StreamRun
  | .Push diffs tick => { s with ring := push_diff_summaries s.ring diffs tick }
  | .Poll q => { s with
      panel := s.panel.poll_diffs q.engine s.ring
      shown := s.shown ++ s.polled q }
  | .Clear => { s with panel := s.panel.clear, shown := [] }

def start (ring : DiffSummaryRing) : StreamRun := { ring := ring.clear, panel := .new, shown := [] }

def run [Render] (ring : DiffSummaryRing) (ops : List StreamOp) : StreamRun :=
  ops.foldl step (start ring)

/-- The entries that are diffs. -/
def diffs (s : StreamRun) : List DiffEntry := s.shown.filter fun entry => entry.kind != "TICK"

end StreamRun

/-! ## The ring -/

namespace DiffSummaryRing

variable {ring : DiffSummaryRing}

theorem make_room_eq {capacity : Nat} {entries : List DiffSummary} :
    make_room capacity entries = entries.rtake (capacity - 1) := by
  induction entries with
  | nil =>
    rw [rtake_eq_drop, List.drop_nil]
    rfl
  | cons entry entries ih =>
    unfold make_room
    rw [rtake_eq_drop, List.length_cons]
    by_cases hfull : capacity ≤ entries.length + 1
    -- the loop drops the oldest one and looks again
    · rw [if_pos hfull, ih, rtake_eq_drop]
      by_cases hlast : capacity = 0
      · rw [hlast, List.drop_of_length_le (by simp), List.drop_of_length_le (by simp)]
      · have hnext : entries.length + 1 - (capacity - 1)
            = entries.length - (capacity - 1) + 1 := by omega
        rw [hnext, List.drop_succ_cons]
    · have hroom : entries.length + 1 - (capacity - 1) = 0 := by omega
      rw [if_neg hfull, hroom, List.drop_zero]

theorem entries_push_one {entry : DiffSummary} :
    (ring.push_one entry).entries = (ring.entries ++ [entry]).rtake ring.capacity := by
  have hcapacity : ring.capacity = ring.capacity - 1 + 1 := by
    have := ring.capacity_pos
    omega
  rw [hcapacity, List.rtake_concat_succ, ← make_room_eq]
  rfl

/-- The ring holds the last ones of what it held and what is pushed. -/
theorem push_spec {summaries : List DiffSummary} (h : ring.entries.length ≤ ring.capacity) :
    (ring.push summaries).capacity = ring.capacity
      ∧ (ring.push summaries).entries = (ring.entries ++ summaries).rtake ring.capacity := by
  induction summaries generalizing ring with
  | nil =>
    rw [List.append_nil, rtake_of_length_le h]
    exact ⟨rfl, rfl⟩
  | cons summary summaries ih =>
    have hfits : (ring.push_one summary).entries.length ≤ (ring.push_one summary).capacity := by
      rw [entries_push_one, length_rtake]
      exact Nat.min_le_right _ _
    obtain ⟨hcapacity, hentries⟩ := ih hfits
    refine ⟨hcapacity, hentries.trans ?_⟩
    change ((ring.push_one summary).entries ++ summaries).rtake ring.capacity = _
    rw [entries_push_one, rtake_rtake_append, List.append_assoc, List.singleton_append]

end DiffSummaryRing

/-! ## One operation -/

namespace StreamRun

section Stream

variable [Render] {s : StreamRun} {q : SnapshotEngine} {summaries since : List DiffSummary}

theorem summarize_kind (tick : Tick) (diff : Diff) :
    (diff.summarize tick).diff_kind ≠ "TICK" := by
  cases diff with
  | Update => exact show "Update" ≠ "TICK" by decide
  | Insert => exact show "Insert" ≠ "TICK" by decide
  | Delete => exact show "Delete" ≠ "TICK" by decide
  | ReplaceTable => exact show "ReplaceTable" ≠ "TICK" by decide

/-- What holds of every run. -/
structure Sound (s : StreamRun) : Prop where
  fits : s.ring.entries.length ≤ s.ring.capacity
  kinds : ∀ summary ∈ s.ring.entries, summary.diff_kind ≠ "TICK"
  seen : s.panel.seen_summary_count ≤ s.ring.entries.length

omit [Render] in
/-- A new tick adds an entry that is no diff. -/
theorem note_tick_spec (panel : DiffPanel) (view : WorldView) :
    (panel.note_tick view).seen_summary_count = panel.seen_summary_count
      ∧ ∃ boundary : List DiffEntry, (panel.note_tick view).entries = panel.entries ++ boundary
        ∧ boundary.filter (fun entry => entry.kind != "TICK") = [] := by
  unfold DiffPanel.note_tick
  by_cases htick : panel.last_tick < view.tick
  · rw [if_pos htick]
    exact ⟨rfl, [DiffPanel.tick_entry view.tick], rfl, rfl⟩
  · rw [if_neg htick]
    exact ⟨rfl, [], (List.append_nil _).symm, rfl⟩

omit [Render] in
theorem pull_spec {panel : DiffPanel} (h : panel.seen_summary_count ≤ summaries.length) :
    (panel.pull summaries).seen_summary_count = summaries.length
      ∧ (panel.pull summaries).entries = panel.entries
        ++ (summaries.drop panel.seen_summary_count).map DiffSummary.entry := by
  unfold DiffPanel.pull
  by_cases hnew : panel.seen_summary_count < summaries.length
  · rw [if_pos hnew]
    exact ⟨rfl, rfl⟩
  · rw [if_neg hnew, List.drop_of_length_le (by omega), List.map_nil, List.append_nil]
    exact ⟨by omega, rfl⟩

theorem poll_seen (h : s.Sound) :
    (s.step (.Poll q)).panel.seen_summary_count = s.ring.entries.length := by
  obtain ⟨hnote, -⟩ := note_tick_spec s.panel q.view
  obtain ⟨hpull, -⟩ := pull_spec (hnote.trans_le h.seen)
  simp only [step, DiffPanel.poll_diffs, q.available, DiffPanel.trim, hpull]

/-- A poll appends what the ring has behind the number that was seen. -/
theorem poll_diffs (h : s.Sound) : (s.step (.Poll q)).diffs
    = s.diffs ++ (s.ring.entries.drop s.panel.seen_summary_count).map DiffSummary.entry := by
  have hkeep : ((s.ring.entries.drop s.panel.seen_summary_count).map DiffSummary.entry).filter
      (fun entry => entry.kind != "TICK")
      = (s.ring.entries.drop s.panel.seen_summary_count).map DiffSummary.entry := by
    refine List.filter_eq_self.mpr fun entry hentry => ?_
    obtain ⟨summary, hsummary, rfl⟩ := List.mem_map.mp hentry
    have hkind : summary.entry.kind ≠ "TICK" := h.kinds summary (List.mem_of_mem_drop hsummary)
    simpa using hkind
  obtain ⟨hnote, boundary, hentries, hboundary⟩ := note_tick_spec s.panel q.view
  obtain ⟨-, hpull⟩ := pull_spec (hnote.trans_le h.seen)
  have hpolled : s.polled q = boundary
      ++ (s.ring.entries.drop s.panel.seen_summary_count).map DiffSummary.entry := by
    rw [polled, hpull, hentries, hnote, List.append_assoc, List.drop_left]
  change (s.shown ++ s.polled q).filter _ = _
  rw [List.filter_append, hpolled, List.filter_append, hboundary, hkeep, List.nil_append]
  rfl

theorem push_ring {op : StreamOp} (h : s.Sound) (hop : op.IsPush) :
    (s.step op).ring.capacity = s.ring.capacity
      ∧ (s.step op).ring.entries = (s.ring.entries ++ op.summaries).rtake s.ring.capacity := by
  rcases op with ⟨diffs, tick⟩ | q | _
  · exact DiffSummaryRing.push_spec h.fits
  · exact hop.elim
  · exact hop.elim

omit [Render] in
theorem sound_start (ring : DiffSummaryRing) : (start ring).Sound :=
  ⟨Nat.zero_le _, fun _ h => absurd h List.not_mem_nil, Nat.le_refl _⟩

theorem Sound.step (h : s.Sound) (op : StreamOp) : (s.step op).Sound := by
  rcases op with ⟨diffs, tick⟩ | q | _
  · have hop : (StreamOp.Push diffs tick).IsPush := trivial
    obtain ⟨hcapacity, hentries⟩ := push_ring h hop
    have hfits := h.fits
    have hseen := h.seen
    refine ⟨?_, fun summary hsummary => ?_, ?_⟩
    · rw [hcapacity, hentries, length_rtake]
      exact Nat.min_le_right _ _
    · rw [hentries] at hsummary
      rcases List.mem_append.mp (rtake_suffix.subset hsummary) with hold | hnew
      · exact h.kinds summary hold
      · obtain ⟨diff, -, rfl⟩ := List.mem_map.mp hnew
        exact summarize_kind tick diff
    -- the ring is never shorter after a push
    · change s.panel.seen_summary_count ≤ _
      rw [hentries, length_rtake, List.length_append]
      omega
  · exact ⟨h.fits, h.kinds, (poll_seen h).le⟩
  · exact ⟨h.fits, h.kinds, Nat.zero_le _⟩

/-! ## What a panel has shown -/

/-- The panel has shown some of the summaries, in their order, and what it has not seen of the ring
is among the later ones. -/
def Follows (s : StreamRun) (since : List DiffSummary) : Prop :=
  ∃ before after, since = before ++ after ∧ s.diffs.Sublist (before.map DiffSummary.entry)
    ∧ s.ring.entries.drop s.panel.seen_summary_count <:+ after

theorem Follows.push {op : StreamOp} (h : s.Sound) (hfollows : s.Follows since) (hop : op.IsPush) :
    (s.step op).Follows (since ++ op.summaries) := by
  obtain ⟨before, after, rfl, hsub, hsuffix⟩ := hfollows
  obtain ⟨-, hentries⟩ := push_ring h hop
  have hsame : (s.step op).diffs = s.diffs
      ∧ (s.step op).panel.seen_summary_count = s.panel.seen_summary_count := by
    rcases op with ⟨diffs, tick⟩ | q | _
    · exact ⟨rfl, rfl⟩
    · exact hop.elim
    · exact hop.elim
  refine ⟨before, after ++ op.summaries, List.append_assoc _ _ _, ?_, ?_⟩
  · rw [hsame.1]
    exact hsub
  · rw [hsame.2, hentries]
    refine (drop_rtake_append h.seen).trans ?_
    obtain ⟨skipped, hskipped⟩ := hsuffix
    exact ⟨skipped, by rw [← List.append_assoc, hskipped]⟩

theorem Follows.poll (h : s.Sound) (hfollows : s.Follows since) :
    (s.step (.Poll q)).Follows since := by
  obtain ⟨before, after, rfl, hsub, hsuffix⟩ := hfollows
  refine ⟨before ++ after, [], (List.append_nil _).symm, ?_, ?_⟩
  · rw [poll_diffs h, List.map_append]
    exact hsub.append (hsuffix.sublist.map DiffSummary.entry)
  · rw [poll_seen h]
    exact (List.drop_length (l := s.ring.entries)) ▸ List.suffix_refl []

omit [Render] in
theorem Follows.shown (h : s.Follows since) : s.diffs.Sublist (since.map DiffSummary.entry) := by
  obtain ⟨before, after, rfl, hsub, -⟩ := h
  rw [List.map_append]
  exact hsub.trans (List.sublist_append_left _ _)

/-! ## Runs -/

section Runs

variable {ring : DiffSummaryRing} {pre later ops : List StreamOp}

omit [Render] in
theorem pushed_append [Render] (pre : List StreamOp) (op : StreamOp) :
    StreamOp.pushed (pre ++ [op]) = StreamOp.pushed pre ++ op.summaries := by
  rw [StreamOp.pushed, List.flatMap_append, List.flatMap_singleton]
  rfl

theorem run_append (pre : List StreamOp) (op : StreamOp) :
    run ring (pre ++ [op]) = (run ring pre).step op :=
  List.foldl_append

omit [Render] in
theorem forall_mem_concat {p : StreamOp → Prop} {op : StreamOp} :
    (∀ other ∈ ops ++ [op], p other) ↔ (∀ other ∈ ops, p other) ∧ p op := by
  rw [List.forall_mem_append, List.forall_mem_singleton]

theorem sound_run (ring : DiffSummaryRing) (ops : List StreamOp) : (run ring ops).Sound := by
  induction ops using List.reverseRecOn with
  | nil => exact sound_start ring
  | append_singleton ops op ih =>
    rw [run_append]
    exact ih.step op

/-- The ring holds the last summaries of the run. -/
theorem ring_run (ring : DiffSummaryRing) (ops : List StreamOp) :
    (run ring ops).ring.capacity = ring.capacity
      ∧ (run ring ops).ring.entries = (StreamOp.pushed ops).rtake ring.capacity := by
  induction ops using List.reverseRecOn with
  | nil => exact ⟨rfl, List.drop_nil.symm⟩
  | append_singleton ops op ih =>
    rw [run_append, pushed_append]
    rcases op with ⟨diffs, tick⟩ | q | _
    · have hop : (StreamOp.Push diffs tick).IsPush := trivial
      obtain ⟨hcapacity, hentries⟩ := push_ring (sound_run ring ops) hop
      rw [hcapacity, hentries, ih.1, ih.2, rtake_rtake_append]
      exact ⟨rfl, rfl⟩
    · rw [StreamOp.summaries, List.append_nil]
      exact ih
    · rw [StreamOp.summaries, List.append_nil]
      exact ih

/-- Until it is cleared, the panel has shown as many diffs as it has seen. -/
theorem count_run (hclear : ∀ op ∈ ops, ¬ op.IsClear) :
    (run ring ops).diffs.length = (run ring ops).panel.seen_summary_count := by
  induction ops using List.reverseRecOn with
  | nil => rfl
  | append_singleton ops op ih =>
    have hsound := sound_run ring ops
    obtain ⟨hbefore, hop⟩ := forall_mem_concat.mp hclear
    have hcount := ih hbefore
    rw [run_append]
    rcases op with ⟨diffs, tick⟩ | q | _
    · exact hcount
    -- what is new in the ring is both appended and seen
    · have hseen := hsound.seen
      rw [poll_diffs hsound, poll_seen hsound, List.length_append, List.length_map,
        List.length_drop, hcount]
      omega
    · exact absurd trivial hop

theorem count_poll (hclear : ∀ op ∈ pre, ¬ op.IsClear) :
    (run ring (pre ++ [.Poll q])).diffs.length
      = min (StreamOp.pushed pre).length ring.capacity := by
  have hall : ∀ op ∈ pre ++ [StreamOp.Poll q], ¬ op.IsClear :=
    forall_mem_concat.mpr ⟨hclear, id⟩
  rw [count_run hall, run_append, poll_seen (sound_run ring pre), (ring_run ring pre).2,
    length_rtake]

theorem follows_run (hclear : ∀ op ∈ ops, ¬ op.IsClear) :
    (run ring ops).Follows (StreamOp.pushed ops) := by
  induction ops using List.reverseRecOn with
  | nil => exact ⟨[], [], rfl, List.Sublist.refl [], List.suffix_refl []⟩
  | append_singleton ops op ih =>
    obtain ⟨hbefore, hop⟩ := forall_mem_concat.mp hclear
    have hfollows := ih hbefore
    rw [run_append, pushed_append]
    rcases op with ⟨diffs, tick⟩ | q | _
    · exact hfollows.push (sound_run ring ops) trivial
    · rw [StreamOp.summaries, List.append_nil]
      exact hfollows.poll (sound_run ring ops)
    · exact absurd trivial hop

/-- Without a clear the panel shows all summaries exactly while they fit into the ring. -/
theorem shows_all_iff (hclear : ∀ op ∈ pre, ¬ op.IsClear) :
    (run ring (pre ++ [.Poll q])).diffs = (StreamOp.pushed pre).map DiffSummary.entry
      ↔ (StreamOp.pushed pre).length ≤ ring.capacity := by
  have hcount := @count_poll _ q ring pre hclear
  constructor
  · intro hall
    rw [hall, List.length_map] at hcount
    omega
  -- some of the summaries in their order, and as many as there are
  · intro hfits
    have hfollows := (@follows_run _ ring pre hclear).poll (q := q) (sound_run ring pre)
    rw [← run_append] at hfollows
    refine hfollows.shown.eq_of_length ?_
    rw [hcount, List.length_map]
    omega

/-! ### After a clear -/

theorem pushed_split (pre later : List StreamOp) :
    StreamOp.pushed (pre ++ .Clear :: later) = StreamOp.pushed pre ++ StreamOp.pushed later := by
  rw [StreamOp.pushed, List.flatMap_append, List.flatMap_cons]
  rfl

theorem run_cleared (hpush : ∀ op ∈ later, op.IsPush) :
    (run ring (pre ++ .Clear :: later)).diffs = []
      ∧ (run ring (pre ++ .Clear :: later)).panel.seen_summary_count = 0 := by
  induction later using List.reverseRecOn with
  | nil =>
    rw [run_append]
    exact ⟨rfl, rfl⟩
  | append_singleton later op ih =>
    obtain ⟨hpushes, hop⟩ := forall_mem_concat.mp hpush
    have hbefore := ih hpushes
    rw [← List.cons_append, ← List.append_assoc, run_append]
    rcases op with ⟨diffs, tick⟩ | q | _
    · exact hbefore
    · exact hop.elim
    · exact hop.elim

theorem rtake_suffix_of_room (hroom : StreamOp.pushed pre = []
      ∨ ring.capacity ≤ (StreamOp.pushed later).length) :
    (StreamOp.pushed pre ++ StreamOp.pushed later).rtake ring.capacity
      <:+ StreamOp.pushed later := by
  rcases hroom with hpre | hfull
  · rw [hpre, List.nil_append]
    exact rtake_suffix
  · rw [rtake_append_of_le hfull]
    exact rtake_suffix

/-- What is in the ring at the first poll is shown, and may be older than the clear. -/
theorem first_poll_iff (hpush : ∀ op ∈ later, op.IsPush) :
    (run ring (pre ++ .Clear :: later ++ [.Poll q])).diffs.Sublist
        ((StreamOp.pushed later).map DiffSummary.entry)
      ↔ StreamOp.pushed pre = [] ∨ ring.capacity ≤ (StreamOp.pushed later).length := by
  have hsound := sound_run ring (pre ++ .Clear :: later)
  have hring := (ring_run ring (pre ++ .Clear :: later)).2
  obtain ⟨hnone, hzero⟩ := @run_cleared _ ring pre later hpush
  rw [run_append, poll_diffs hsound, hnone, hzero, List.drop_zero, List.nil_append, hring,
    pushed_split]
  constructor
  -- a ring that is not refilled shows more than was pushed since
  · intro hsub
    have hlength := hsub.length_le
    rw [List.length_map, List.length_map, length_rtake, List.length_append] at hlength
    rcases hpre : StreamOp.pushed pre with _ | ⟨summary, rest⟩
    · exact .inl rfl
    · rw [hpre, List.length_cons] at hlength
      exact .inr (by omega)
  · intro hroom
    exact (rtake_suffix_of_room hroom).sublist.map DiffSummary.entry

theorem follows_cleared (hpush : ∀ op ∈ later, op.IsPush)
    (hroom : StreamOp.pushed pre = [] ∨ ring.capacity ≤ (StreamOp.pushed later).length) :
    (run ring (pre ++ .Clear :: later)).Follows (StreamOp.pushed later) := by
  obtain ⟨hnone, hzero⟩ := @run_cleared _ ring pre later hpush
  refine ⟨[], StreamOp.pushed later, rfl, ?_, ?_⟩
  · rw [hnone]
    exact List.nil_sublist _
  · rw [hzero, List.drop_zero, (ring_run ring _).2, pushed_split]
    exact rtake_suffix_of_room hroom

end Runs

/-- Each diff is shown once, and after a clear only what is pushed later. -/
structure Once (ring : DiffSummaryRing) (ops : List StreamOp) : Prop where
  all : ∀ pre q, pre ++ [.Poll q] <+: ops → (∀ op ∈ pre, ¬ op.IsClear) →
    (run ring (pre ++ [.Poll q])).diffs = (StreamOp.pushed pre).map DiffSummary.entry
  only : ∀ pre later q, pre ++ .Clear :: later ++ [.Poll q] <+: ops →
    (∀ op ∈ later, ¬ op.IsClear) → (run ring (pre ++ .Clear :: later ++ [.Poll q])).diffs.Sublist
      ((StreamOp.pushed later).map DiffSummary.entry)

/-- Before a clear the summaries fit into the ring. At the first poll after one there are none from
before it, or it is refilled. -/
structure Fitting (ring : DiffSummaryRing) (ops : List StreamOp) : Prop where
  fits : ∀ pre q, pre ++ [.Poll q] <+: ops → (∀ op ∈ pre, ¬ op.IsClear) →
    (StreamOp.pushed pre).length ≤ ring.capacity
  refilled : ∀ pre later q, pre ++ .Clear :: later ++ [.Poll q] <+: ops →
    (∀ op ∈ later, op.IsPush) →
      StreamOp.pushed pre = [] ∨ ring.capacity ≤ (StreamOp.pushed later).length

/-- After a clear: either there was no poll yet, or what was shown is later. -/
theorem Fitting.follows {ring : DiffSummaryRing} {pre later ops : List StreamOp}
    (h : Fitting ring ops) (hops : pre ++ .Clear :: later <+: ops)
    (hclear : ∀ op ∈ later, ¬ op.IsClear) : (∀ op ∈ later, op.IsPush) ∨
      (run ring (pre ++ .Clear :: later)).Follows (StreamOp.pushed later) := by
  induction later using List.reverseRecOn with
  | nil => exact .inl fun op hop => absurd hop List.not_mem_nil
  | append_singleton later op ih =>
    rw [← List.cons_append, ← List.append_assoc] at hops ⊢
    obtain ⟨hkept, hop⟩ := forall_mem_concat.mp hclear
    have hbefore := ih ((List.prefix_append _ _).trans hops) hkept
    have hsound := sound_run ring (pre ++ .Clear :: later)
    rw [run_append, pushed_append]
    rcases op with ⟨diffs, tick⟩ | q | _
    · rcases hbefore with hpush | hfollows
      · exact .inl (forall_mem_concat.mpr ⟨hpush, trivial⟩)
      · exact .inr (hfollows.push hsound trivial)
    -- at the first poll the ring is refilled, later ones go on from there
    · rw [StreamOp.summaries, List.append_nil]
      refine .inr (Follows.poll hsound ?_)
      exact hbefore.elim (fun hpush => follows_cleared hpush (h.refilled pre later q hops hpush)) id
    · exact absurd trivial hop

/-- The panel shows each diff once exactly if the ring does not overflow before a clear and is empty
or refilled after it. -/
theorem once_iff (ring : DiffSummaryRing) (ops : List StreamOp) :
    Once ring ops ↔ Fitting ring ops := by
  constructor
  · intro h
    refine ⟨fun pre q hpre hclear => (shows_all_iff hclear).mp (h.all pre q hpre hclear),
      fun pre later q hpre hpush => (first_poll_iff hpush).mp (h.only pre later q hpre ?_)⟩
    intro op hop hclear
    have hpushed := hpush op hop
    rcases op with ⟨diffs, tick⟩ | q | _
    · exact hclear
    · exact hclear
    · exact hpushed
  · intro h
    refine ⟨fun pre q hpre hclear => (shows_all_iff hclear).mpr (h.fits pre q hpre hclear),
      fun pre later q hpre hclear => ?_⟩
    rcases h.follows ((List.prefix_append _ _).trans hpre) hclear with hpush | hfollows
    · exact (first_poll_iff hpush).mpr (h.refilled pre later q hpre hpush)
    · rw [run_append]
      exact (hfollows.poll (sound_run ring _)).shown

end Stream

/-! ### Armies that are disbanded -/

def first_tick : SnapshotEngine :=
  { engine := { QueryEngine.new .new with latest_snapshot := .new (some (.new 1)) }
    view := .new (.new 1)
    available := rfl }

def disband : Diff := .Delete "army" 0

attribute [local instance] plain_text

/-- The diff after a full ring is not shown, and one from before a clear is shown again. -/
theorem full_ring_hides :
    ¬ Once .of_engine [.Push (List.replicate 1024 disband) 1, .Poll first_tick, .Push [disband] 1,
      .Poll first_tick]
    ∧ ¬ Once .of_engine [.Push [disband] 1, .Poll first_tick, .Clear, .Poll first_tick] := by
  constructor
  · intro h
    have hclear : ∀ op ∈ [StreamOp.Push (List.replicate 1024 disband) 1, .Poll first_tick,
        .Push [disband] 1], ¬ op.IsClear :=
      List.forall_mem_cons.mpr ⟨id, List.forall_mem_cons.mpr ⟨id,
        List.forall_mem_cons.mpr ⟨id, fun op hop => absurd hop List.not_mem_nil⟩⟩⟩
    have hall := h.all _ first_tick List.prefix_rfl hclear
    rw [shows_all_iff hclear] at hall
    simp only [StreamOp.pushed, StreamOp.summaries, List.flatMap_cons, List.flatMap_nil,
      List.length_append, List.length_map, List.length_replicate, List.length_cons,
      List.length_nil] at hall
    exact absurd hall (by decide)
  · intro h
    have honly := h.only [.Push [disband] 1, .Poll first_tick] [] first_tick List.prefix_rfl
      fun op hop => absurd hop List.not_mem_nil
    rw [first_poll_iff fun op hop => absurd hop List.not_mem_nil] at honly
    rcases honly with hnone | hfull
    · cases hnone
    · exact absurd hfull (show ¬ 1024 ≤ 0 by decide)

end StreamRun

end Scharnhorst
