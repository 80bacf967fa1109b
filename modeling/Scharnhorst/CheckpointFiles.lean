/-
The files of a checkpoint.

What a write leaves in the directory is settled file by file: it puts a file in the place of
each table that has batches at the tick of its snapshot, and lets every other file be. A
load takes all the files it finds, and makes a table of each.

The disk is any disk that does what is documented of it, `LawfulCheckpointDisk`.
-/
import Scharnhorst.Listing
import Scharnhorst.Restore

set_option autoImplicit false

namespace Scharnhorst

open Attempt Maps Std

/-! ## The files of a checkpoint -/

/-- An Arrow IPC file: the batches written to it so far, and whether it has its footer. -/
structure IpcFile where
  batches : List RecordBatch
  finished : Bool
deriving DecidableEq

/-- A name that a file can have in a directory. -/
def FileName (name : String) : Prop := name ≠ "" ∧ '/' ∉ name.toList

instance (name : String) : Decidable (FileName name) := inferInstanceAs (Decidable (_ ∧ _))

/-- Where the file of a table is. -/
def checkpoint_path (tick : Tick) (name : String) : String := s!"{checkpoint_dir tick}/{name}.arrow"

/-- The files, as `file` finds them, are the same but for the one of the table at the tick. -/
def SameButFile {D : Type} (file : D → Tick → String → Option IpcFile) (tick : Tick)
    (name : String) (disk disk' : D) : Prop :=
  ∀ t n, FileName n → ¬ (t = tick ∧ n = name) → file disk' t n = file disk t n

/-- What is documented of `std::fs` and `arrow::ipc`, on the files of the checkpoints. Every
call may fail. A call on a file touches no other; `File::create` empties the file, the
writer appends to it, and its `finish` writes the footer. A directory lists the files that
are in it, and a file is read only if it has its footer, with the batches written to it. -/
class LawfulCheckpointDisk (D : Type) extends CheckpointDisk D where
  /-- The file of a table in the directory of a tick. -/
  file : D → Tick → String → Option IpcFile
  create_dir_all_file (disk : D) (dir : String) (t : Tick) (n : String) :
    file (create_dir_all disk dir).2 t n = file disk t n
  create_other {n : String} (disk : D) (t : Tick) (hn : FileName n) :
    SameButFile file t n disk (create disk (checkpoint_path t n)).2
  create_file {n : String} {disk disk' : D} {t : Tick} (hn : FileName n)
    (h : create disk (checkpoint_path t n) = (.ok (), disk')) : file disk' t n = some ⟨[], false⟩
  writer_try_new_other {n : String} (disk : D) (t : Tick) (schema : Schema) (hn : FileName n) :
    SameButFile file t n disk (writer_try_new disk (checkpoint_path t n) schema).2
  writer_try_new_file {n : String} {disk : D} {t : Tick} (schema : Schema) (hn : FileName n)
    (h : file disk t n = some ⟨[], false⟩) :
    file (writer_try_new disk (checkpoint_path t n) schema).2 t n = some ⟨[], false⟩
  writer_write_other {n : String} (disk : D) (t : Tick) (batch : RecordBatch) (hn : FileName n) :
    SameButFile file t n disk (writer_write disk (checkpoint_path t n) batch).2
  writer_write_file {n : String} {disk disk' : D} {t : Tick} {batches : List RecordBatch}
    {batch : RecordBatch} (hn : FileName n) (hfile : file disk t n = some ⟨batches, false⟩)
    (h : writer_write disk (checkpoint_path t n) batch = (.ok (), disk')) :
    file disk' t n = some ⟨batches ++ [batch], false⟩
  writer_write_unfinished {n : String} {disk : D} {t : Tick} {batches : List RecordBatch}
    (batch : RecordBatch) (hn : FileName n) (hfile : file disk t n = some ⟨batches, false⟩) :
    ∃ left, file (writer_write disk (checkpoint_path t n) batch).2 t n = some ⟨left, false⟩
  writer_finish_other {n : String} (disk : D) (t : Tick) (hn : FileName n) :
    SameButFile file t n disk (writer_finish disk (checkpoint_path t n)).2
  writer_finish_file {n : String} {disk disk' : D} {t : Tick} {batches : List RecordBatch}
    (hn : FileName n) (hfile : file disk t n = some ⟨batches, false⟩)
    (h : writer_finish disk (checkpoint_path t n) = (.ok (), disk')) :
    file disk' t n = some ⟨batches, true⟩
  read_dir_names {disk : D} {dir : String} {entries : List (Except String String)} {name : String}
    (h : read_dir disk dir = .ok entries) (hname : .ok name ∈ entries) : '/' ∉ name.toList
  read_dir_file {disk : D} {t : Tick} {entries : List (Except String String)} {n : String}
    (h : read_dir disk (checkpoint_dir t) = .ok entries) (hn : FileName n) :
    .ok (n ++ ".arrow") ∈ entries ↔ (file disk t n).isSome
  reader_file {disk : D} {t : Tick} {n : String} {batches : List RecordBatch} (hn : FileName n)
    (h : reader_try_new disk (checkpoint_path t n) = .ok (batches.map .ok)) :
    file disk t n = some ⟨batches, true⟩

namespace SameButFile

variable {D : Type} {file : D → Tick → String → Option IpcFile} {tick : Tick} {name : String}

theorem refl (disk : D) : SameButFile file tick name disk disk := fun _ _ _ _ => rfl

theorem trans {disk mid disk' : D} (h : SameButFile file tick name disk mid)
    (h' : SameButFile file tick name mid disk') : SameButFile file tick name disk disk' :=
  fun t n hn hne => (h' t n hn hne).trans (h t n hn hne)

end SameButFile

/-- What a checkpoint of the snapshot writes for a table: its batches at the snapshot's own
tick. -/
def WorldSnapshot.written (world : WorldSnapshot) (name : String) : List RecordBatch :=
  (world.table_batches name).toOption.getD []

section Disk

variable {D : Type} [LawfulCheckpointDisk D]

open LawfulCheckpointDisk (file)

/-! ## What a write leaves -/

/-- The batches of a file are appended one after the other. -/
theorem write_batches_file {t : Tick} {n : String} (hn : FileName n) {batches : List RecordBatch}
    {disk disk' : D} {before : List RecordBatch} (hfile : file disk t n = some ⟨before, false⟩)
    (h : forEach (ArrowStore.write_checkpoint_batch (checkpoint_path t n)) disk batches
      = (.ok (), disk')) : file disk' t n = some ⟨before ++ batches, false⟩ := by
  induction batches generalizing disk before with
  | nil =>
      obtain rfl : disk = disk' := by simpa using h
      rw [hfile, List.append_nil]
  | cons b bs ih =>
      obtain ⟨mid, hb, hbs⟩ := forEach_cons_ok.1 h
      unfold ArrowStore.write_checkpoint_batch at hb
      split at hb
      · cases hb
      · rename_i mid' hwrite
        obtain ⟨-, rfl⟩ := Prod.mk.inj hb
        rw [ih (LawfulCheckpointDisk.writer_write_file hn hfile hwrite) hbs, List.append_assoc,
          List.singleton_append]

theorem write_batches_other {t : Tick} {n : String} (hn : FileName n) (batches : List RecordBatch)
    (disk : D) : SameButFile file t n disk
      (forEach (ArrowStore.write_checkpoint_batch (checkpoint_path t n)) disk batches).2 := by
  refine forEach_invariant batches (P := SameButFile file t n disk) ?_ (.refl disk)
  intro d b _ hsame
  refine hsame.trans ?_
  have hwrite := LawfulCheckpointDisk.writer_write_other d t b hn
  unfold ArrowStore.write_checkpoint_batch
  split
  all_goals
    rename_i heq
    rwa [heq] at hwrite

/-- One table: no other file is touched, and if the round goes through, a table with batches
has a finished file of them. -/
theorem write_checkpoint_table_spec (world : WorldSnapshot) {t : Tick} {n : String}
    (hn : FileName n) (disk : D) :
    SameButFile file t n disk (ArrowStore.write_checkpoint_table world (checkpoint_dir t) disk n).2
      ∧ ∀ disk', ArrowStore.write_checkpoint_table world (checkpoint_dir t) disk n = (.ok (), disk') →
        file disk' t n = if world.written n = [] then file disk t n
          else some ⟨world.written n, true⟩ := by
  have hpath : s!"{checkpoint_dir t}/{n}.arrow" = checkpoint_path t n := rfl
  have hwritten : (world.table_batches n).toOption.getD [] = world.written n := rfl
  unfold ArrowStore.write_checkpoint_table
  rw [hwritten]
  rcases hbatches : world.written n with _ | ⟨first, rest⟩
  · refine ⟨.refl disk, fun disk' h => ?_⟩
    obtain ⟨-, rfl⟩ := Prod.mk.inj h
    rw [if_pos rfl]
  simp only [hpath, List.cons_ne_nil, if_false]
  -- the calls one after the other, each on the disk that the one before it left
  have hcreate := LawfulCheckpointDisk.create_other disk t hn
  rcases hc : CheckpointDisk.create disk (checkpoint_path t n) with ⟨_ | ⟨⟩, d₁⟩
  · rw [hc] at hcreate
    exact ⟨hcreate, fun _ h => by cases h⟩
  rw [hc] at hcreate
  dsimp only at hcreate ⊢
  have hfile := LawfulCheckpointDisk.create_file hn hc
  have hnew := LawfulCheckpointDisk.writer_try_new_other d₁ t first.schema hn
  have hfile' := LawfulCheckpointDisk.writer_try_new_file first.schema hn hfile
  rcases hw : CheckpointDisk.writer_try_new d₁ (checkpoint_path t n) first.schema with ⟨_ | ⟨⟩, d₂⟩
  · rw [hw] at hnew
    exact ⟨hcreate.trans hnew, fun _ h => by cases h⟩
  rw [hw] at hnew hfile'
  dsimp only at hnew hfile' ⊢
  have hbatch := write_batches_other (t := t) hn (first :: rest) d₂
  rcases hb : forEach (ArrowStore.write_checkpoint_batch (checkpoint_path t n)) d₂ (first :: rest)
    with ⟨_ | ⟨⟩, d₃⟩
  · rw [hb] at hbatch
    exact ⟨(hcreate.trans hnew).trans hbatch, fun _ h => by cases h⟩
  rw [hb] at hbatch
  dsimp only at hbatch ⊢
  have hfilled := write_batches_file hn hfile' hb
  have hfinish := LawfulCheckpointDisk.writer_finish_other d₃ t hn
  rcases hf : CheckpointDisk.writer_finish d₃ (checkpoint_path t n) with ⟨_ | ⟨⟩, d₄⟩
  · rw [hf] at hfinish
    exact ⟨((hcreate.trans hnew).trans hbatch).trans hfinish, fun _ h => by cases h⟩
  rw [hf] at hfinish
  dsimp only at hfinish ⊢
  refine ⟨((hcreate.trans hnew).trans hbatch).trans hfinish, fun disk' h => ?_⟩
  obtain ⟨-, rfl⟩ := Prod.mk.inj h
  exact LawfulCheckpointDisk.writer_finish_file hn hfilled hf

/-- The files of the other ticks are the same. -/
def SameOtherTicks (t : Tick) (disk disk' : D) : Prop :=
  ∀ k n, FileName n → k ≠ t → file disk' k n = file disk k n

/-- The loop over the tables of the snapshot. -/
theorem write_checkpoint_tables_spec (world : WorldSnapshot) {t : Tick} {names : List String}
    (hnames : ∀ n ∈ names, FileName n) (disk : D) :
    SameOtherTicks t disk
        (forEach (ArrowStore.write_checkpoint_table world (checkpoint_dir t)) disk names).2
      ∧ ∀ disk', forEach (ArrowStore.write_checkpoint_table world (checkpoint_dir t)) disk names
          = (.ok (), disk') → ∀ n, FileName n →
        file disk' t n = if n ∈ names ∧ world.written n ≠ [] then some ⟨world.written n, true⟩
          else file disk t n := by
  constructor
  · refine forEach_invariant names (P := SameOtherTicks t disk) ?_ fun _ _ _ _ => rfl
    intro d m hm hsame k n hn hk
    have hother := (write_checkpoint_table_spec world (t := t) (hnames m hm) d).1
    rw [hother k n hn fun heq => hk heq.1]
    exact hsame k n hn hk
  induction names generalizing disk with
  | nil =>
      intro disk' h n hn
      obtain rfl : disk = disk' := by simpa using h
      simp
  | cons m ms ih =>
      intro disk' h n hn
      obtain ⟨mid, hm, hms⟩ := forEach_cons_ok.1 h
      obtain ⟨hother, hfile⟩ :=
        write_checkpoint_table_spec world (t := t) (hnames m List.mem_cons_self) disk
      rw [hm] at hother
      rw [ih (fun n hn => hnames n (List.mem_cons_of_mem _ hn)) mid disk' hms n hn]
      -- a later table of the same name would write over the file of this one
      by_cases hn' : n ∈ ms ∧ world.written n ≠ []
      · rw [if_pos hn', if_pos ⟨List.mem_cons_of_mem _ hn'.1, hn'.2⟩]
      rw [if_neg hn']
      by_cases hnm : n = m
      · subst hnm
        rw [hfile mid hm]
        by_cases hempty : world.written n = []
        · simp [hempty]
        · simp [hempty]
      · rw [hother t n hn fun heq => hnm heq.2]
        simp only [List.mem_cons, hnm, false_or, if_neg hn']

/-- Each table of the snapshot can have a file. -/
def WorldSnapshot.Nameable (world : WorldSnapshot) : Prop := ∀ n ∈ world.table_names, FileName n

instance (world : WorldSnapshot) : Decidable world.Nameable :=
  inferInstanceAs (Decidable (∀ n ∈ world.table_names, FileName n))

theorem WorldSnapshot.mem_of_written {world : WorldSnapshot} {n : String}
    (h : world.written n ≠ []) : n ∈ world.table_names := by
  by_contra hmem
  refine h ?_
  have hnone : world.tables[n]? = none := by
    simpa [table_names] using hmem
  rw [written, table_batches, get_table, hnone]
  rfl

/-- A write, whichever way it ends, and what is in the directory if it goes through. -/
theorem do_write_checkpoint_spec {s : ArrowStore} {t : Tick}
    (hnames : ∀ world, s.checkpoint_snapshot t = some world → world.Nameable) (disk : D) :
    SameOtherTicks t disk (s.do_write_checkpoint disk t).2
      ∧ ∀ disk', s.do_write_checkpoint disk t = (.ok (), disk') → ∀ n, FileName n →
        file disk' t n = (s.checkpoint_snapshot t).elim (file disk t n) fun world =>
          if world.written n = [] then file disk t n else some ⟨world.written n, true⟩ := by
  unfold ArrowStore.do_write_checkpoint
  rcases hworld : s.checkpoint_snapshot t with _ | world
  · refine ⟨fun _ _ _ _ => rfl, fun disk' h n _ => ?_⟩
    obtain ⟨-, rfl⟩ := Prod.mk.inj h
    rfl
  have hdir := LawfulCheckpointDisk.create_dir_all_file disk (checkpoint_dir t)
  rcases hc : CheckpointDisk.create_dir_all disk (checkpoint_dir t) with ⟨_ | ⟨⟩, mid⟩
  · rw [hc] at hdir
    simp only [hc]
    exact ⟨fun k n _ _ => hdir k n, fun _ h => by cases h⟩
  rw [hc] at hdir
  simp only [hc]
  obtain ⟨hother, hfile⟩ := write_checkpoint_tables_spec world (t := t) (hnames world hworld) mid
  refine ⟨fun k n hn hk => (hother k n hn hk).trans (hdir k n), fun disk' h n hn => ?_⟩
  rw [hfile disk' h n hn, hdir]
  by_cases hempty : world.written n = []
  · simp [hempty]
  · simp [hempty, WorldSnapshot.mem_of_written hempty]

/-- The directory of the tick has a file without its footer. -/
def Torn (t : Tick) (disk : D) : Prop :=
  ∃ n batches, FileName n ∧ file disk t n = some ⟨batches, false⟩

/-- An error that comes up while a file is written, before its footer. -/
def StoppedInFile (e : ArrowStoreError) : Prop :=
  ∃ text, e = .Arrow text ∧ ∀ m : String, text ≠ s!"ipc finish: {m}"

theorem write_checkpoint_table_stopped {world : WorldSnapshot} {t : Tick} {n : String}
    (hn : FileName n) {disk disk' : D} {e : ArrowStoreError}
    (h : ArrowStore.write_checkpoint_table world (checkpoint_dir t) disk n = (.error e, disk'))
    (he : StoppedInFile e) : Torn t disk' := by
  obtain ⟨text, rfl, htext⟩ := he
  have hpath : s!"{checkpoint_dir t}/{n}.arrow" = checkpoint_path t n := rfl
  unfold ArrowStore.write_checkpoint_table at h
  split at h
  · cases h
  rename_i first rest _
  simp only [hpath] at h
  split at h
  · cases h
  rename_i d₁ hc
  have hfile := LawfulCheckpointDisk.create_file hn hc
  have hfile' := LawfulCheckpointDisk.writer_try_new_file first.schema hn hfile
  split at h
  · -- the writer has not begun
    rename_i hw
    obtain ⟨-, rfl⟩ := Prod.mk.inj h
    rw [hw] at hfile'
    exact ⟨n, [], hn, hfile'⟩
  rename_i d₂ hw
  rw [hw] at hfile'
  split at h
  · -- it stops at a batch, and the ones before are in the file
    rename_i hb
    obtain ⟨hverdict, rfl⟩ := Prod.mk.inj h
    obtain ⟨pre, b, post, mid, -, hpre, hstop⟩ := forEach_error hb
    obtain ⟨left, hleft⟩ :=
      LawfulCheckpointDisk.writer_write_unfinished b hn (write_batches_file hn hfile' hpre)
    unfold ArrowStore.write_checkpoint_batch at hstop
    split at hstop
    · rename_i hwrite
      obtain ⟨-, rfl⟩ := Prod.mk.inj hstop
      rw [hwrite] at hleft
      exact ⟨n, left, hn, hleft⟩
    · cases hstop
  split at h
  -- every batch is in the file: the error is of the footer
  · obtain ⟨hverdict, -⟩ := Prod.mk.inj h
    simp only [Except.error.injEq, ArrowStoreError.Arrow.injEq] at hverdict
    exact absurd hverdict.symm (htext _)
  · cases h

/-- A write that stops while it writes a file leaves it without its footer. -/
theorem do_write_checkpoint_stopped {s : ArrowStore} {t : Tick}
    (hnames : ∀ world, s.checkpoint_snapshot t = some world → world.Nameable) {disk disk' : D}
    {e : ArrowStoreError} (h : s.do_write_checkpoint disk t = (.error e, disk'))
    (he : StoppedInFile e) : Torn t disk' := by
  unfold ArrowStore.do_write_checkpoint at h
  split at h
  · cases h
  rename_i world hworld
  simp only at h
  split at h
  · obtain ⟨text, rfl, -⟩ := he
    cases h
  · obtain ⟨pre, n, post, mid, hlist, -, hstop⟩ := forEach_error h
    have hmem : n ∈ world.table_names := by
      rw [hlist]
      exact List.mem_append_right _ List.mem_cons_self
    exact write_checkpoint_table_stopped (hnames world hworld n hmem) hstop he

/-! ## What a load reads -/

theorem arrow_stem_eq_some {file_name n : String} :
    arrow_stem file_name = some n ↔ file_name = n ++ ".arrow" ∧ n ≠ "" := by
  have hlength : n ≠ "" ↔ 0 < n.toList.length := by
    rw [List.length_pos_iff, Ne, Ne, ← String.toList_eq_nil_iff]
  rw [hlength]
  unfold arrow_stem
  simp only [Option.ite_none_right_eq_some, Option.some.injEq]
  constructor
  · rintro ⟨⟨hlong, hending⟩, rfl⟩
    have hsplit := List.take_append_drop (file_name.toList.length - ".arrow".toList.length)
      file_name.toList
    rw [hending] at hsplit
    refine ⟨?_, ?_⟩
    · apply String.toList_inj.1
      rw [String.toList_append, String.toList_ofList, hsplit]
    · rw [String.toList_ofList, List.length_take]
      omega
  · rintro ⟨rfl, hpos⟩
    have hsplit : (n ++ ".arrow").toList.length - ".arrow".toList.length = n.toList.length := by
      rw [String.toList_append, List.length_append]
      omega
    rw [hsplit, String.toList_append, List.drop_left, List.take_left, String.ofList_toList]
    refine ⟨⟨?_, rfl⟩, rfl⟩
    rw [List.length_append]
    omega

/-- One entry of the directory, in a reading that goes on: a file of a table was finished, and
its batches are put under the table's name. -/
theorem read_checkpoint_entry_ok {disk : D} {t : Tick} {entries : List (Except String String)}
    (hdir : CheckpointDisk.read_dir disk (checkpoint_dir t) = .ok entries)
    {entry : Except String String} (hentry : entry ∈ entries) {m m' : Map String (List RecordBatch)}
    (h : ArrowStore.read_checkpoint_entry disk (checkpoint_dir t) m entry = (.ok (), m')) :
    (m' = m ∧ ∀ n, FileName n → entry ≠ .ok (n ++ ".arrow"))
      ∨ ∃ n batches, FileName n ∧ entry = .ok (n ++ ".arrow")
        ∧ file disk t n = some ⟨batches, true⟩ ∧ m' = m.insert n batches := by
  unfold ArrowStore.read_checkpoint_entry at h
  rcases entry with e | file_name
  · cases h
  simp only at h
  rcases hstem : arrow_stem file_name with _ | n
  · rw [hstem] at h
    obtain ⟨-, rfl⟩ := Prod.mk.inj h
    refine .inl ⟨rfl, fun n hn heq => ?_⟩
    obtain rfl : file_name = n ++ ".arrow" := by simpa using heq
    rw [arrow_stem_eq_some.2 ⟨rfl, hn.1⟩] at hstem
    cases hstem
  rw [hstem] at h
  obtain ⟨rfl, hne⟩ := arrow_stem_eq_some.1 hstem
  have hn : FileName n := by
    refine ⟨hne, fun hslash => ?_⟩
    refine LawfulCheckpointDisk.read_dir_names hdir hentry ?_
    rw [String.toList_append]
    exact List.mem_append_left _ hslash
  have hpath : ∀ file_name, file_name = n ++ ".arrow" →
      s!"{checkpoint_dir t}/{file_name}" = checkpoint_path t n := by
    rintro _ rfl
    apply String.toList_inj.1
    simp [checkpoint_path, toString]
  simp only at h
  split at h
  · cases h
  split at h
  · cases h
  rename_i results hresults
  split at h
  · cases h
  rename_i batches hbatches
  obtain ⟨-, rfl⟩ := Prod.mk.inj h
  refine .inr ⟨n, batches, hn, rfl, ?_, rfl⟩
  -- each result is the batch itself
  have hall : results = batches.map .ok := mapM_mapError_ok.1 hbatches
  refine LawfulCheckpointDisk.reader_file hn ?_
  rw [← hpath _ rfl, ← hall]
  exact hresults

/-- The loop over the entries: the files of the tables among them, and nothing else. -/
theorem read_checkpoint_entries_ok {disk : D} {t : Tick} {entries : List (Except String String)}
    (hdir : CheckpointDisk.read_dir disk (checkpoint_dir t) = .ok entries)
    {es : List (Except String String)} (hes : ∀ e ∈ es, e ∈ entries)
    {m m' : Map String (List RecordBatch)}
    (h : forEach (ArrowStore.read_checkpoint_entry disk (checkpoint_dir t)) m es = (.ok (), m'))
    (n : String) :
    (FileName n → .ok (n ++ ".arrow") ∈ es →
        ∃ batches, file disk t n = some ⟨batches, true⟩ ∧ m'[n]? = some batches)
      ∧ (¬ (FileName n ∧ .ok (n ++ ".arrow") ∈ es) → m'[n]? = m[n]?) := by
  induction es generalizing m with
  | nil =>
      obtain rfl : m = m' := by simpa using h
      simp
  | cons e es ih =>
      obtain ⟨mid, he, hrest⟩ := forEach_cons_ok.1 h
      obtain ⟨hin, hout⟩ := ih (fun e he => hes e (List.mem_cons_of_mem _ he)) hrest
      have hstep := read_checkpoint_entry_ok hdir (hes e List.mem_cons_self) he
      -- a later entry of the same name decides
      by_cases hmem : FileName n ∧ .ok (n ++ ".arrow") ∈ es
      · refine ⟨fun hn _ => hin hn hmem.2, fun hnot => absurd ?_ hnot⟩
        exact ⟨hmem.1, List.mem_cons_of_mem _ hmem.2⟩
      have hkept := hout hmem
      obtain ⟨rfl, hno⟩ | ⟨k, batches, hk, rfl, hfile, rfl⟩ := hstep
      · refine ⟨fun hn hcons => ?_, fun _ => hkept⟩
        obtain heq | hes' := List.mem_cons.1 hcons
        · exact absurd heq.symm (hno n hn)
        · exact absurd ⟨hn, hes'⟩ hmem
      · by_cases hkn : k = n
        · subst hkn
          rw [ExtTreeMap.getElem?_insert_self] at hkept
          exact ⟨fun _ _ => ⟨batches, hfile, hkept⟩,
            fun hnot => absurd ⟨hk, List.mem_cons_self⟩ hnot⟩
        · rw [ExtTreeMap.getElem?_insert, if_neg (by simpa using hkn)] at hkept
          refine ⟨fun hn hcons => ?_, fun _ => hkept⟩
          obtain heq | hes' := List.mem_cons.1 hcons
          · -- the two names end alike, so they begin alike
            have happend : n ++ ".arrow" = k ++ ".arrow" := by simpa using heq
            refine absurd ?_ hkn
            apply String.toList_inj.1
            have hlist := congrArg String.toList happend
            rw [String.toList_append, String.toList_append] at hlist
            exact (List.append_cancel_right hlist).symm
          · exact absurd ⟨hn, hes'⟩ hmem

/-- A load that reads the directory reads every file that is in it, and all are finished. -/
theorem read_checkpoint_ok {disk : D} {t : Tick} {m : Map String (List RecordBatch)}
    (h : ArrowStore.read_checkpoint disk (checkpoint_dir t) = .ok m) (n : String) :
    (FileName n → ∀ f, file disk t n = some f → f.finished = true)
      ∧ m[n]? = if FileName n then (file disk t n).map (·.batches) else none := by
  unfold ArrowStore.read_checkpoint at h
  split at h
  · cases h
  rename_i entries hdir
  split at h
  · cases h
  rename_i m' hloop
  obtain rfl : m' = m := by simpa using h
  obtain ⟨hin, hout⟩ := read_checkpoint_entries_ok hdir (fun _ he => he) hloop n
  rw [ExtTreeMap.getElem?_empty] at hout
  by_cases hn : FileName n
  · have hlisted := LawfulCheckpointDisk.read_dir_file hdir hn
    rw [if_pos hn]
    rcases hfile : file disk t n with _ | f
    · refine ⟨(fun _ f hf => by cases hf), ?_⟩
      rw [Option.map_none]
      refine hout fun hmem => ?_
      have hsome := hlisted.1 hmem.2
      rw [hfile] at hsome
      cases hsome
    · obtain ⟨batches, hbatches, hm⟩ := hin hn (hlisted.2 (by rw [hfile]; rfl))
      obtain rfl : f = ⟨batches, true⟩ := Option.some.inj (hfile.symm.trans hbatches)
      refine ⟨fun _ g hg => ?_, hm⟩
      rw [← Option.some.inj hg]
  · rw [if_neg hn]
    exact ⟨fun hn' => absurd hn' hn, hout fun hmem => hn hmem.1⟩

end Disk

/-! ## What a load restores -/

namespace ArrowStore

/-- The table that a load makes of the batches of a file. -/
def loaded_table (tick : Tick) (name : String) (batches : List RecordBatch) : VersionedTable :=
  fill_loaded_table tick true batches (.new name .AppendOnly)

theorem loaded_table_batches (tick : Tick) (name : String) (batches : List RecordBatch) (k : Tick) :
    (loaded_table tick name batches).batches k = if k = tick then batches else [] := by
  have hversions : (loaded_table tick name batches).versions
      = (VersionedTable.new name .AppendOnly).versions.insert tick batches := by
    unfold loaded_table fill_loaded_table
    rcases batches.head? with _ | first <;> rfl
  rw [VersionedTable.batches_insert _ _ tick k _ hversions]
  by_cases hk : k = tick
  · rw [if_pos hk, if_pos hk.symm]
  · rw [if_neg hk, if_neg (Ne.symm hk)]
    exact ExtTreeMap.getD_empty

/-- What a load makes of a table, which may be there already. -/
def restored (tick : Tick) (entry : String × List RecordBatch)
    (found : Option (RwLock VersionedTable)) : Option (RwLock VersionedTable) :=
  some (found.elim (.new (loaded_table tick entry.1 entry.2)) fun lock =>
    if lock.poisoned then lock
    else { lock with data := fill_loaded_table tick false entry.2 lock.data })

theorem restore_checkpoint_table_tables (tick : Tick) (s : ArrowStore)
    (entry : String × List RecordBatch) (n : String) :
    (restore_checkpoint_table tick s entry).2.tables[n]?
      = if entry.1 = n then restored tick entry s.tables[n]? else s.tables[n]? := by
  unfold restore_checkpoint_table restored
  simp only
  rw [write_table_tables _ _ (fun _ => by simp [Returns])]
  by_cases hn : entry.1 = n
  · subst hn
    rw [if_pos rfl, if_pos rfl]
    rcases hlock : s.tables[entry.1]? with _ | lock
    · have hnew : s.tables.contains entry.1 = false := by
        rw [ExtTreeMap.contains_eq_isSome_getElem?, hlock]
        rfl
      simp [hnew, create_loaded_table, RwLock.new, loaded_table]
    · have hold : s.tables.contains entry.1 = true := by
        rw [ExtTreeMap.contains_eq_isSome_getElem?, hlock]
        rfl
      simp [hold, hlock]
  · rw [if_neg hn, if_neg hn]
    cases s.tables.contains entry.1
    · simp [create_loaded_table, ExtTreeMap.getElem?_insert, hn]
    · simp

/-- Loaded into a store without tables, every file becomes a table, and nothing else does. -/
theorem restore_checkpoint_tables_ok {tick : Tick} {s l : ArrowStore}
    {m : Map String (List RecordBatch)} (hs : s.tables = ∅)
    (h : forEach (restore_checkpoint_table tick) s m.toList = (.ok (), l)) (n : String) :
    l.tables[n]? = m[n]?.map fun batches => .new (loaded_table tick n batches) := by
  let obs : ArrowStore → String → Option (RwLock VersionedTable) := fun s n => s.tables[n]?
  have hstep : ∀ s e k, obs (restore_checkpoint_table tick s e).2 k
      = if e.1 = k then restored tick e (obs s k) else obs s k :=
    restore_checkpoint_table_tables tick
  obtain ⟨hin, hout⟩ := foldl_obs hstep (nodup_keys m) s
  rw [forEach_ok_foldl h]
  simp only [obs, hs, ExtTreeMap.getElem?_empty] at hin hout
  rcases hm : m[n]? with _ | batches
  · refine hout n fun hmem => ?_
    obtain ⟨e, he, rfl⟩ := List.mem_map.1 hmem
    rw [ExtTreeMap.mem_toList_iff_getElem?_eq_some.1 he] at hm
    cases hm
  · exact hin (n, batches) (ExtTreeMap.mem_toList_iff_getElem?_eq_some.2 hm)

end ArrowStore

section Load

variable {D : Type} [LawfulCheckpointDisk D]

/-- A load into a store without tables, in a directory where no file stands in the way, restores
what is in the files. -/
theorem load_checkpoint_ok {fresh l : ArrowStore} {disk : D} {t : Tick} {snapshot : WorldSnapshot}
    (hfresh : fresh.tables = ∅) (h : fresh.load_checkpoint disk t = (.ok snapshot, l)) :
    ∃ m : Map String (List RecordBatch), ArrowStore.read_checkpoint disk (checkpoint_dir t) = .ok m
      ∧ m ≠ ∅ ∧ ∀ n : String,
        l.tables[n]? = m[n]?.map fun batches => .new (ArrowStore.loaded_table t n batches) := by
  obtain ⟨m, loaded, hread, hempty, hloop, hsnapshot⟩ := ArrowStore.load_checkpoint_steps h
  obtain ⟨-, -, rfl⟩ := ArrowStore.do_generate_snapshot_ok hsnapshot
  have htables := ArrowStore.restore_checkpoint_tables_ok hfresh hloop
  exact ⟨m, hread, hempty, htables⟩

end Load

end Scharnhorst
