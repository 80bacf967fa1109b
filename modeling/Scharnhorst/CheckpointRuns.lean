/-
One directory, many checkpoints.

Every checkpoint of a tick goes to the same directory, and a write neither empties the
directory first nor takes back what it has written when it fails. So the directory holds the
state of the last write that went through when that write found no file of a table it did
not write, and when the failed writes after it changed no file or left one without its
footer, which the loader refuses.

That state is the one the code writes: the snapshot of the tick, or else the latest there
is, and of it the tables with batches at the snapshot's own tick.
-/
import Scharnhorst.CheckpointFiles

set_option autoImplicit false

namespace Scharnhorst

open Attempt Maps Std

/-- A store restored at the tick from the snapshot: it has the tables that a checkpoint of the
snapshot writes, each with the batches written and at no other tick. -/
structure ArrowStore.Restores (l : ArrowStore) (t : Tick) (world : WorldSnapshot) : Prop where
  tables : ∀ n : String, n ∈ l.tables ↔ world.written n ≠ []
  batches : ∀ (n : String) (k : Tick), n ∈ l.tables →
    l.get_table_batches n k = .ok (if k = t then world.written n else [])

/-! ## Many writes -/

section Runs

variable {D : Type} [LawfulCheckpointDisk D]

open LawfulCheckpointDisk (file)

/-- A call is refused for the phase of the store or for its lock, or does what the token
stands for. -/
theorem ArrowStore.write_checkpoint_with_eq (s : ArrowStore) (token : WriteCheckpointToken)
    (disk : D) (tick : Tick) :
    (∃ e, ¬ StoppedInFile e ∧ s.write_checkpoint_with token disk tick = (.error e, disk))
      ∨ s.write_checkpoint_with token disk tick = s.do_write_checkpoint disk tick := by
  -- an error of the phase or of the lock comes before the first file
  have hphase : ∀ text, ¬ StoppedInFile (.Lifecycle text) := by
    rintro text ⟨_, heq, -⟩
    cases heq
  have hlock : ∀ text, ¬ StoppedInFile (.LockPoisoned text) := by
    rintro text ⟨_, heq, -⟩
    cases heq
  rcases hread : s.lifecycle.read_store with e | lifecycle
  · obtain ⟨-, rfl⟩ := RwLock.read_store_error.1 hread
    left
    refine ⟨_, hlock RwLock.poison_text, ?_⟩
    cases token
    · unfold write_checkpoint_with init_write_checkpoint
      rw [hread]
    · unfold write_checkpoint_with write_checkpoint
      rw [hread]
  cases token
  · unfold write_checkpoint_with init_write_checkpoint
    rw [hread]
    by_cases hsim : lifecycle.is_simulation = true
    · exact .inl ⟨_, hphase _, if_pos hsim⟩
    · exact .inr (if_neg hsim)
  · unfold write_checkpoint_with write_checkpoint
    rw [hread]
    by_cases hinit : lifecycle.is_initialization = true
    · exact .inl ⟨_, hphase _, if_pos hinit⟩
    · exact .inr (if_neg hinit)

/-- A call of `write_checkpoint`, with the disk it found, its verdict and the disk it left. -/
structure CheckpointCall (D : Type) where
  store : ArrowStore
  token : WriteCheckpointToken
  tick : Tick
  before : D
  verdict : ArrowStoreResult Unit
  after : D

/-- The call went as it is written down. -/
def CheckpointCall.Made (c : CheckpointCall D) : Prop :=
  c.store.write_checkpoint_with c.token c.before c.tick = (c.verdict, c.after)

/-- The directory of the tick has the same files. -/
def SameFilesAt (t : Tick) (disk disk' : D) : Prop :=
  ∀ n, FileName n → file disk' t n = file disk t n

/-- The calls made in one working directory, the latest first. In between the disk may change
in all but the files of the checkpoints: fill up, say, or be mounted read-only. -/
inductive CheckpointRun : List (CheckpointCall D) → D → Prop
  | start {disk : D} (h : ∀ t n, FileName n → file disk t n = none) : CheckpointRun [] disk
  | pause {calls : List (CheckpointCall D)} {disk disk' : D} (run : CheckpointRun calls disk)
      (h : ∀ t, SameFilesAt t disk disk') : CheckpointRun calls disk'
  | call {calls : List (CheckpointCall D)} {c : CheckpointCall D}
      (run : CheckpointRun calls c.before) (h : c.Made) : CheckpointRun (c :: calls) c.after

/-- The snapshot that the last successful call for the tick was written from. A call on a
store without snapshots writes nothing and does not count. -/
def last_written (t : Tick) : List (CheckpointCall D) → Option WorldSnapshot
  | [] => none
  | c :: calls =>
    match c.verdict with
    | .ok () => if c.tick = t then (c.store.checkpoint_snapshot t).or (last_written t calls)
        else last_written t calls
    | .error _ => last_written t calls

/-- The directory of the tick has no file but of tables that a checkpoint of the snapshot
writes. -/
def Covers (world : WorldSnapshot) (t : Tick) (disk : D) : Prop :=
  ∀ n, FileName n → (file disk t n).isSome → world.written n ≠ []

/-- The last successful call for the tick covered what it found, and the calls that failed
since then changed no file of the tick or left one without its footer. -/
def Undisturbed (t : Tick) : List (CheckpointCall D) → Prop
  | [] => True
  | c :: calls =>
    if c.tick = t then
      match c.verdict, c.store.checkpoint_snapshot t with
      | .ok (), some world => Covers world t c.before
      | .ok (), none => Undisturbed t calls
      | .error _, _ => Torn t c.after ∨ SameFilesAt t c.before c.after ∧ Undisturbed t calls
    else Undisturbed t calls

/-- The directory of the tick holds the state of the snapshot, or nothing if there is none. -/
def HoldsState (t : Tick) (last : Option WorldSnapshot) (disk : D) : Prop :=
  ∀ n, FileName n → file disk t n = last.bind fun world =>
    if world.written n = [] then none else some ⟨world.written n, true⟩

theorem Torn.congr {t : Tick} {disk disk' : D} (h : SameFilesAt t disk disk') (htorn : Torn t disk) :
    Torn t disk' := by
  obtain ⟨n, batches, hn, hfile⟩ := htorn
  exact ⟨n, batches, hn, (h n hn).trans hfile⟩

theorem HoldsState.congr {t : Tick} {last : Option WorldSnapshot} {disk disk' : D}
    (h : SameFilesAt t disk disk') (hstate : HoldsState t last disk) : HoldsState t last disk' :=
  fun n hn => (h n hn).trans (hstate n hn)

/-- One call, on the files of any tick. -/
theorem CheckpointCall.Made.spec {c : CheckpointCall D} (h : c.Made)
    (hnames : ∀ world, c.store.checkpoint_snapshot c.tick = some world → world.Nameable) :
    (∀ t, t ≠ c.tick → SameFilesAt t c.before c.after)
      ∧ (c.verdict = .ok () → ∀ n, FileName n → file c.after c.tick n
        = (c.store.checkpoint_snapshot c.tick).elim (file c.before c.tick n) fun world =>
          if world.written n = [] then file c.before c.tick n
          else some ⟨world.written n, true⟩) := by
  obtain ⟨e, -, he⟩ | hdo := c.store.write_checkpoint_with_eq c.token c.before c.tick
  · -- refused by the lifecycle: the disk is not touched
    obtain ⟨hverdict, hafter⟩ := Prod.mk.inj (he.symm.trans h)
    rw [← hafter, ← hverdict]
    exact ⟨fun _ _ _ _ => rfl, fun hok => by cases hok⟩
  · have hrun : c.store.do_write_checkpoint c.before c.tick = (c.verdict, c.after) :=
      hdo.symm.trans h
    obtain ⟨hother, hfiles⟩ := do_write_checkpoint_spec hnames c.before
    rw [hrun] at hother
    refine ⟨fun t ht n hn => hother t n hn ht, fun hok => hfiles c.after ?_⟩
    rw [hrun, hok]

/-- A call that stops while it writes a file leaves the file without its footer, so that it
does not disturb what the directory stands for. -/
theorem CheckpointCall.Made.torn {c : CheckpointCall D} (h : c.Made)
    (hnames : ∀ world, c.store.checkpoint_snapshot c.tick = some world → world.Nameable)
    {e : ArrowStoreError} (hverdict : c.verdict = .error e) (he : StoppedInFile e) :
    Torn c.tick c.after := by
  obtain ⟨e', hnot, he'⟩ | hdo := c.store.write_checkpoint_with_eq c.token c.before c.tick
  · obtain ⟨hsame, -⟩ := Prod.mk.inj (he'.symm.trans h)
    rw [hverdict] at hsame
    rw [Except.error.inj hsame] at hnot
    exact absurd he hnot
  · have hrun : c.store.do_write_checkpoint c.before c.tick = (.error e, c.after) := by
      rw [← hverdict]
      exact hdo.symm.trans h
    exact do_write_checkpoint_stopped hnames hrun he

/-- What a run leaves in the directory of a tick. -/
theorem CheckpointRun.state {calls : List (CheckpointCall D)} {disk : D}
    (hrun : CheckpointRun calls disk)
    (hnames : ∀ c ∈ calls, ∀ world, c.store.checkpoint_snapshot c.tick = some world →
      world.Nameable) {t : Tick} (hund : Undisturbed t calls) :
    Torn t disk ∨ HoldsState t (last_written t calls) disk := by
  induction hrun with
  | start h => exact .inr fun n hn => h t n hn
  | pause run h ih =>
      exact (ih hnames hund).imp (Torn.congr (h t)) (HoldsState.congr (h t))
  | @call calls c run h ih =>
      obtain ⟨hother, hok⟩ := h.spec (hnames c List.mem_cons_self)
      have hearlier := ih fun c hc => hnames c (List.mem_cons_of_mem _ hc)
      unfold Undisturbed at hund
      -- only a call for this tick can change its files
      by_cases ht : c.tick = t
      · subst ht
        rw [if_pos rfl] at hund
        rcases hverdict : c.verdict with e | ⟨⟩
        · rw [hverdict] at hund
          simp only [last_written, hverdict]
          obtain htorn | ⟨hsame, hund⟩ := hund
          · exact .inl htorn
          · exact (hearlier hund).imp (Torn.congr hsame) (HoldsState.congr hsame)
        · rw [hverdict] at hund
          have hfiles := hok hverdict
          simp only [last_written, hverdict, if_true]
          rcases hworld : c.store.checkpoint_snapshot c.tick with _ | world
          · rw [hworld] at hund hfiles
            simp only [Option.none_or]
            exact (hearlier hund).imp (Torn.congr hfiles) (HoldsState.congr hfiles)
          · rw [hworld] at hund hfiles
            refine .inr fun n hn => ?_
            rw [hfiles n hn]
            simp only [Option.elim_some, Option.some_or, Option.bind_some]
            split
            · -- the directory had no file of a table that is not written
              rename_i hempty
              rw [← Option.not_isSome_iff_eq_none]
              intro hsome
              exact hund n hn hsome hempty
            · rfl
      · rw [if_neg ht] at hund
        have hsame := hother t (Ne.symm ht)
        have hlast : last_written t (c :: calls) = last_written t calls := by
          simp only [last_written, if_neg ht]
          split <;> rfl
        rw [hlast]
        exact (hearlier hund).imp (Torn.congr hsame) (HoldsState.congr hsame)

/-! ## The load of a run's directory -/

omit [LawfulCheckpointDisk D] in
theorem last_written_mem {t : Tick} {calls : List (CheckpointCall D)} {world : WorldSnapshot}
    (h : last_written t calls = some world) :
    ∃ c ∈ calls, c.store.checkpoint_snapshot c.tick = some world := by
  induction calls with
  | nil => cases h
  | cons c calls ih =>
      have htail : last_written t calls = some world →
          ∃ d ∈ c :: calls, d.store.checkpoint_snapshot d.tick = some world := by
        intro hearlier
        obtain ⟨d, hd, hworld⟩ := ih hearlier
        exact ⟨d, List.mem_cons_of_mem _ hd, hworld⟩
      unfold last_written at h
      split at h
      · split at h
        · rename_i ht
          obtain hhere | ⟨-, hearlier⟩ := Option.or_eq_some_iff.1 h
          · exact ⟨c, List.mem_cons_self, by rw [ht, hhere]⟩
          · exact htail hearlier
        · exact htail h
      · exact htail h

end Runs

/-! ## A disk in memory -/

/-- Directories and files, and the fault that is to come: how many calls go well before it. A
call that fails does nothing. -/
structure CheckpointFiles where
  dirs : Map String Unit
  files : Map String IpcFile
  fault : Option Nat

namespace CheckpointFiles

def empty : CheckpointFiles := ⟨∅, ∅, none⟩

/-- A call, with the disk that it makes if it goes well. -/
def call (disk done : CheckpointFiles) : Except String Unit × CheckpointFiles :=
  match disk.fault with
  | some 0 => (.error "Input/output error (os error 5)", { disk with fault := none })
  | some (before + 1) => (.ok (), { done with fault := some before })
  | none => (.ok (), { done with fault := none })

/-- A file put in the place of what the path has. -/
def put (disk : CheckpointFiles) (path : String) (file : IpcFile) : CheckpointFiles :=
  { disk with files := disk.files.insert path file }

def found (disk : CheckpointFiles) (path : String) : IpcFile := disk.files.getD path ⟨[], false⟩

instance : CheckpointDisk CheckpointFiles where
  create_dir_all disk dir := disk.call { disk with dirs := disk.dirs.insert dir () }
  is_dir disk dir := disk.dirs.contains dir
  read_dir disk dir :=
    if disk.dirs.contains dir then
      .ok ((disk.files.keys.filterMap (Files.name_in dir)).map .ok)
    else .error Files.not_found
  create disk path := disk.call (disk.put path ⟨[], false⟩)
  can_open disk path := if disk.files.contains path then .ok () else .error Files.not_found
  writer_try_new disk _ _ := disk.call disk
  writer_write disk path batch :=
    disk.call (disk.put path ⟨(disk.found path).batches ++ [batch], false⟩)
  writer_finish disk path := disk.call (disk.put path ⟨(disk.found path).batches, true⟩)
  reader_try_new disk path :=
    match disk.files[path]? with
    | some ⟨batches, true⟩ => .ok (batches.map .ok)
    | some ⟨_, false⟩ => .error "Arrow file does not contain correct footer"
    | none => .error Files.not_found

theorem call_ok {disk done disk' : CheckpointFiles} (h : disk.call done = (.ok (), disk')) :
    disk'.files = done.files := by
  unfold call at h
  split at h
  · cases h
  all_goals
    obtain ⟨-, rfl⟩ := Prod.mk.inj h
    rfl

theorem call_files (disk done : CheckpointFiles) :
    (disk.call done).2.files = disk.files ∨ (disk.call done).2.files = done.files := by
  unfold call
  split
  · exact .inl rfl
  all_goals exact .inr rfl

/-- Each file has a path of its own. -/
theorem checkpoint_path_injective {t k : Tick} {n m : String}
    (h : checkpoint_path t n = checkpoint_path k m) : t = k ∧ n = m := by
  have hdigits : ∀ t : Tick, (toString t).toList = Nat.toDigits 10 t := fun t => by simp [toString]
  have hpath : ∀ (t : Tick) (n : String), (checkpoint_path t n).toList
      = "checkpoint_".toList ++ ((toString t).toList ++ '/' :: (n.toList ++ ".arrow".toList)) := by
    intro t n
    simp [checkpoint_path, checkpoint_dir, toString]
  have hno : ∀ (t : Tick) (c : Char), c ∈ (toString t).toList → (c != '/') = true := by
    intro t c hc
    rw [hdigits] at hc
    have hdigit := Nat.isDigit_of_mem_toDigits (by decide) (by decide) hc
    rw [bne_iff_ne]
    rintro rfl
    exact absurd hdigit (by decide)
  have hlist := congrArg String.toList h
  rw [hpath, hpath] at hlist
  have hrest := List.append_cancel_left hlist
  -- up to the slash there are the digits of the tick
  have hfront := congrArg (List.takeWhile (· != '/')) hrest
  rw [List.takeWhile_append_of_pos (hno t), List.takeWhile_append_of_pos (hno k)] at hfront
  simp only [List.takeWhile_cons, bne_self_eq_false, Bool.false_eq_true, if_false,
    List.append_nil] at hfront
  have htick : t = k := by
    rw [hdigits, hdigits] at hfront
    have hvalue := congrArg (fun cs => Nat.ofDigitChars 10 cs 0) hfront
    simpa [Nat.ofDigitChars_ten_toDigits] using hvalue
  subst htick
  have hname := (List.cons.inj (List.append_cancel_left hrest)).2
  exact ⟨rfl, String.toList_inj.1 (List.append_cancel_right hname)⟩

/-- The file of a table at a tick. -/
def file_of (disk : CheckpointFiles) (t : Tick) (n : String) : Option IpcFile :=
  disk.files[checkpoint_path t n]?

theorem put_file (disk : CheckpointFiles) (t : Tick) (n : String) (file : IpcFile) :
    (disk.put (checkpoint_path t n) file).file_of t n = some file :=
  ExtTreeMap.getElem?_insert_self

theorem call_put_ok {disk disk' : CheckpointFiles} {t : Tick} {n : String} {file : IpcFile}
    (h : disk.call (disk.put (checkpoint_path t n) file) = (.ok (), disk')) :
    disk'.file_of t n = some file := by
  rw [file_of, call_ok h]
  exact disk.put_file t n file

/-- A call that puts a file touches no other. -/
theorem call_put_other (disk : CheckpointFiles) (t : Tick) (n : String) (file : IpcFile) :
    SameButFile file_of t n disk (disk.call (disk.put (checkpoint_path t n) file)).2 := by
  intro k m _ hne
  unfold file_of
  obtain hsame | hput := disk.call_files (disk.put (checkpoint_path t n) file)
  · rw [hsame]
  · rw [hput, put, ExtTreeMap.getElem?_insert, if_neg]
    intro hpath
    obtain ⟨ht, hn⟩ := checkpoint_path_injective (LawfulEqCmp.compare_eq_iff_eq.1 hpath)
    exact hne ⟨ht.symm, hn.symm⟩

theorem found_eq {disk : CheckpointFiles} {t : Tick} {n : String} {file : IpcFile}
    (h : disk.file_of t n = some file) : disk.found (checkpoint_path t n) = file := by
  rw [found, ExtTreeMap.getD_eq_getD_getElem?]
  exact congrArg (Option.getD · _) h

theorem read_dir_ok {disk : CheckpointFiles} {dir : String} {entries : List (Except String String)}
    (h : CheckpointDisk.read_dir disk dir = .ok entries) (name : String) :
    .ok name ∈ entries ↔ ∃ path ∈ disk.files, Files.name_in dir path = some name := by
  simp only [CheckpointDisk.read_dir] at h
  split at h
  · obtain rfl := Except.ok.inj h
    simp
  · cases h

instance : LawfulCheckpointDisk CheckpointFiles where
  file := file_of
  create_dir_all_file disk dir t n := by
    unfold file_of
    obtain hsame | hdone := disk.call_files { disk with dirs := disk.dirs.insert dir () }
    · exact congrArg (·[checkpoint_path t n]?) hsame
    · exact congrArg (·[checkpoint_path t n]?) hdone
  create_other disk t _ := call_put_other disk t _ _
  create_file _ h := call_put_ok h
  writer_try_new_other disk t _ _ k m _ _ := by
    unfold file_of
    obtain hsame | hdone := disk.call_files disk
    · exact congrArg (·[checkpoint_path k m]?) hsame
    · exact congrArg (·[checkpoint_path k m]?) hdone
  writer_try_new_file {n disk t} _ _ h := by
    unfold file_of at h ⊢
    rw [← h]
    obtain hsame | hdone := disk.call_files disk
    · exact congrArg (·[checkpoint_path t n]?) hsame
    · exact congrArg (·[checkpoint_path t n]?) hdone
  writer_write_other disk t _ _ := call_put_other disk t _ _
  writer_write_file _ hfile h := by
    rw [call_put_ok h, found_eq hfile]
  writer_write_unfinished {n disk t batches} batch _ hfile := by
    obtain hsame | hput := disk.call_files
      (disk.put (checkpoint_path t n) ⟨(disk.found (checkpoint_path t n)).batches ++ [batch], false⟩)
    · exact ⟨batches, (congrArg (·[checkpoint_path t n]?) hsame).trans hfile⟩
    · exact ⟨_, (congrArg (·[checkpoint_path t n]?) hput).trans (disk.put_file t n _)⟩
  writer_finish_other disk t _ := call_put_other disk t _ _
  writer_finish_file _ hfile h := by
    rw [call_put_ok h, found_eq hfile]
  read_dir_names {disk dir entries name} h hname := by
    obtain ⟨path, -, hpath⟩ := (read_dir_ok h name).1 hname
    have hno := (Option.filter_eq_some_iff.1 hpath).2
    simpa using hno
  read_dir_file {disk t entries n} h hn := by
    have hslash : '/' ∉ (n ++ ".arrow").toList := by
      rw [String.toList_append, List.mem_append, not_or]
      exact ⟨hn.2, by decide⟩
    have hpath : checkpoint_dir t ++ "/" ++ (n ++ ".arrow") = checkpoint_path t n := by
      apply String.toList_inj.1
      simp [checkpoint_path, toString]
    rw [read_dir_ok h, file_of, ← ExtTreeMap.mem_iff_isSome_getElem?]
    constructor
    · rintro ⟨path, hmem, hname⟩
      rwa [← hpath, ← Files.name_in_eq hname]
    · intro hmem
      exact ⟨_, hmem, hpath ▸ Files.name_in_append hslash⟩
  reader_file {disk t n batches} _ h := by
    simp only [CheckpointDisk.reader_try_new] at h
    unfold file_of
    split at h
    · rename_i batches' hfile
      have hinj : Function.Injective (Except.ok : RecordBatch → Except String RecordBatch) :=
        fun _ _ heq => Except.ok.inj heq
      rw [hfile, List.map_injective_iff.2 hinj (Except.ok.inj h)]
    · cases h
    · cases h

end CheckpointFiles

/-! ## A shop -/

section Shop

attribute [local instance] plain_text

/-- A store with the items and a second table of the same columns, in simulation. -/
def shop_of (other : String) : ArrowStore :=
  ((ArrowStore.new.create_table items_spec .Patchable).2.create_table
    { items_spec with name := other } .Patchable).2.into_simulation.2

/-- The store after one commit at tick 0, with the snapshot of the tick. -/
def shop_with (other : String) (ds : List Diff) : ArrowStore :=
  (((shop_of other).apply_diffs 0 ds).2.generate_snapshot 0).2

def shop_a : ArrowStore :=
  shop_with "orders" [.Insert "items" 1 (item 1 10), .Insert "orders" 1 (item 1 1)]

/-- A shop without orders. -/
def shop_b : ArrowStore := shop_with "orders" [.Insert "items" 1 (item 1 20)]

def shop_c : ArrowStore :=
  shop_with "orders" [.Insert "items" 1 (item 1 30), .Insert "orders" 1 (item 1 3)]

/-- A shop whose second table has no name. -/
def shop_d : ArrowStore :=
  shop_with "" [.Insert "items" 1 (item 1 10), .Insert "" 1 (item 1 1)]

def a_on_disk : CheckpointFiles := (shop_a.write_checkpoint CheckpointFiles.empty 0).2

end Shop

end Scharnhorst
