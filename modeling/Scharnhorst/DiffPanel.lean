/-
The ring of diff summaries, and the panel that follows it.

The ring holds the last summaries, as many as its capacity. The panel remembers how many summaries
the ring had when it last looked, and takes those behind this number for new.
-/
import Scharnhorst.Reads

set_option autoImplicit false

namespace Scharnhorst

/-! ## The ring -/

structure DiffSummary where
  tick : Tick
  table_name : String
  diff_kind : String
  summary : String
deriving DecidableEq

/-- A ring without room would wait for room forever. -/
structure DiffSummaryRing where
  capacity : Nat
  entries : List DiffSummary
  capacity_pos : 0 < capacity
deriving DecidableEq

namespace DiffSummaryRing

def new (capacity : Nat) (capacity_pos : 0 < capacity) : DiffSummaryRing :=
  { capacity, entries := [], capacity_pos }

/-- The ring of the query engine. -/
def of_engine : DiffSummaryRing := new 1024 (by decide)

/-- The oldest go until there are fewer than the capacity. -/
def make_room (capacity : Nat) : List DiffSummary → List DiffSummary
  | [] => []
  | entry :: entries =>
    if capacity ≤ entries.length + 1 then make_room capacity entries else entry :: entries

def push_one (ring : DiffSummaryRing) (entry : DiffSummary) : DiffSummaryRing :=
  { ring with entries := make_room ring.capacity ring.entries ++ [entry] }

def clear (ring : DiffSummaryRing) : DiffSummaryRing := { ring with entries := [] }

def push (ring : DiffSummaryRing) (summaries : List DiffSummary) : DiffSummaryRing :=
  summaries.foldl push_one ring

end DiffSummaryRing

/-! ## Summaries -/

/-- What `push_diff_summaries` says about a diff. -/
def Diff.summarize [Render] (tick : Tick) (diff : Diff) : DiffSummary :=
  let table_name := diff.table
  match diff with
  | .Update _ row column value =>
    let text := Render.value_to_string value
    { tick, table_name, diff_kind := "Update"
      summary := s!"{table_name}.{column}@{row} = {text}" }
  | .Insert _ row values =>
    { tick, table_name, diff_kind := "Insert"
      summary := s!"insert into {table_name} ({values.size} cols) @{row}" }
  | .Delete _ row =>
    { tick, table_name, diff_kind := "Delete", summary := s!"delete from {table_name} @{row}" }
  | .ReplaceTable _ rows =>
    { tick, table_name, diff_kind := "ReplaceTable"
      summary := s!"replace {table_name} ({rows.length} rows)" }

def push_diff_summaries [Render] (ring : DiffSummaryRing) (diffs : List Diff) (tick : Tick) :
    DiffSummaryRing :=
  ring.push (diffs.map (Diff.summarize tick))

/-! ## The panel -/

structure DiffEntry where
  tick : Nat
  table : String
  kind : String
  summary : String
deriving DecidableEq

def DiffSummary.entry (summary : DiffSummary) : DiffEntry :=
  { tick := summary.tick
    table := summary.table_name
    kind := summary.diff_kind
    summary := summary.summary }

structure DiffPanel where
  entries : List DiffEntry
  filter_table : Option String
  auto_scroll : Bool
  table_names : List String
  last_tick : Nat
  seen_summary_count : Nat
deriving DecidableEq

namespace DiffPanel

def MAX_ENTRIES : Nat := 500

def new : DiffPanel :=
  { entries := []
    filter_table := none
    auto_scroll := true
    table_names := []
    last_tick := 0
    seen_summary_count := 0 }

def clear (panel : DiffPanel) : DiffPanel :=
  { panel with entries := [], seen_summary_count := 0 }

def tick_entry (tick : Tick) : DiffEntry :=
  { tick, table := "", kind := "TICK", summary := s!"Tick {tick} boundary" }

/-- A new tick is noted, and with it the names of the tables. -/
def note_tick (panel : DiffPanel) (view : WorldView) : DiffPanel :=
  if panel.last_tick < view.tick then
    { panel with
      entries := panel.entries ++ [tick_entry view.tick]
      table_names := view.snapshot.table_names
      last_tick := view.tick }
  else panel

/-- The summaries behind those that have been seen. -/
def pull (panel : DiffPanel) (summaries : List DiffSummary) : DiffPanel :=
  if panel.seen_summary_count < summaries.length then
    { panel with
      entries := panel.entries
        ++ (summaries.drop panel.seen_summary_count).map DiffSummary.entry
      seen_summary_count := summaries.length }
  else panel

/-- The oldest entries go. -/
def trim (panel : DiffPanel) : DiffPanel :=
  { panel with entries := panel.entries.drop (panel.entries.length - MAX_ENTRIES) }

/-- Without a snapshot nothing happens. -/
def poll_diffs (panel : DiffPanel) (q : QueryEngine) (ring : DiffSummaryRing) : DiffPanel :=
  match q.world_view with
  | .error _ => panel
  | .ok view => ((panel.note_tick view).pull ring.entries).trim

end DiffPanel

end Scharnhorst
