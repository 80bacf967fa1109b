/-
Arrow IPC streams in memory, and the buffer that collects them.

A stream is a schema, batches and an end-of-stream marker. `serialize_batches` writes a whole one,
or nothing where it has no batch, and `deserialize_batches` reads one: the reader of `arrow::ipc`
stops at the marker and never looks at what stands behind it. The buffer appends a stream at each
push. What is read from its bytes is therefore the first list that was not empty, and the lists
behind it are lost, without an error.

`arrow::ipc` is not part of the repository. It is a parameter, with laws that say this much of it.
-/
import Scharnhorst.Arrow
import Scharnhorst.Attempt
import Scharnhorst.Core

set_option autoImplicit false

namespace Scharnhorst

open Attempt

/-! ## The library -/

/-- `arrow::ipc` on buffers of bytes: a `StreamWriter` with the buffer it writes to, and a
`StreamReader`, which is made over bytes and then asked for its items until it has none. -/
class ArrowStreams (W : Type) where
  writer_try_new : Schema → Except String W
  writer_write : W → RecordBatch → Except String Unit × W
  writer_finish : W → Except String Unit × W
  /-- The buffer. -/
  written : W → List UInt8
  reader_try_new : List UInt8 → Except String (List (Except String RecordBatch))

section Streams

variable (W : Type) [ArrowStreams W]

open ArrowStreams

def write_stream_batch (writer : W) (batch : RecordBatch) : ArrowStoreResult Unit × W :=
  match writer_write writer batch with
  | (.error e, writer) => (.error (.Io s!"write batch: {e}"), writer)
  | (.ok (), writer) => (.ok (), writer)

def serialize_batches (batches : List RecordBatch) : ArrowStoreResult (List UInt8) :=
  match batches with
  | [] => .ok []
  | first :: _ =>
    match (writer_try_new first.schema : Except String W) with
    | .error e => .error (.Io s!"stream writer: {e}")
    | .ok writer =>
      match forEach (write_stream_batch W) writer batches with
      | (.error e, _) => .error e
      | (.ok (), writer) =>
        match writer_finish writer with
        | (.error e, _) => .error (.Io s!"finish: {e}")
        | (.ok (), writer) => .ok (written writer)

def deserialize_batches (data : List UInt8) : ArrowStoreResult (List RecordBatch) :=
  if data.isEmpty then .ok []
  else
    match reader_try_new W data with
    | .error e => .error (.Io s!"stream reader: {e}")
    | .ok reader => reader.mapM fun result => result.mapError fun e => .Io s!"read batch: {e}"

/-! ## The buffer -/

structure IpcBuffer where
  chunks : List (List UInt8)
deriving DecidableEq

namespace IpcBuffer

def new : IpcBuffer := ⟨[]⟩

def push (buf : IpcBuffer) (chunk : List UInt8) : IpcBuffer := ⟨buf.chunks ++ [chunk]⟩

def push_batches (buf : IpcBuffer) (batches : List RecordBatch) :
    ArrowStoreResult Unit × IpcBuffer :=
  match serialize_batches W batches with
  | .error e => (.error e, buf)
  | .ok bytes => (.ok (), buf.push bytes)

def into_bytes (buf : IpcBuffer) : List UInt8 :=
  buf.chunks.foldl (fun out chunk => out ++ chunk) []

/-- A buffer after any calls of `push_batches`, with the lists of those calls that succeeded. -/
inductive Pushed : IpcBuffer → List (List RecordBatch) → Prop
  | new : Pushed .new []
  | pushed {buf buf' : IpcBuffer} {lists : List (List RecordBatch)} {batches : List RecordBatch}
      (h : Pushed buf lists) (hok : buf.push_batches W batches = (.ok (), buf')) :
      Pushed buf' (lists ++ [batches])
  | refused {buf buf' : IpcBuffer} {lists : List (List RecordBatch)} {batches : List RecordBatch}
      {e : ArrowStoreError} (h : Pushed buf lists)
      (herror : buf.push_batches W batches = (.error e, buf')) : Pushed buf' lists

end IpcBuffer

end Streams

/-! ## Its laws -/

/-- What is documented of `arrow::ipc`. Every call may fail. A writer collects the batches it is
given; a finished one has written a stream, and a reader of the stream finds these batches and
stops at its end, whatever follows. -/
class LawfulArrowStreams (W : Type) extends ArrowStreams W where
  /-- The schema that the writer was made for, and the batches given to it. -/
  Holds : W → Schema → List RecordBatch → Prop
  writer_try_new_holds {schema : Schema} {writer : W} (h : writer_try_new schema = .ok writer) :
    Holds writer schema []
  writer_write_holds {schema : Schema} {batches : List RecordBatch} {batch : RecordBatch}
    {writer writer' : W} (hholds : Holds writer schema batches)
    (h : writer_write writer batch = (.ok (), writer')) : Holds writer' schema (batches ++ [batch])
  /-- There is at least the schema in it. -/
  written_ne_nil {writer writer' : W} (h : writer_finish writer = (.ok (), writer')) :
    written writer' ≠ []
  reader_stops {schema : Schema} {batches : List RecordBatch} {writer writer' : W}
    (hholds : Holds writer schema batches) (hschema : ∀ batch ∈ batches, batch.schema = schema)
    (h : writer_finish writer = (.ok (), writer')) (rest : List UInt8) :
    reader_try_new (written writer' ++ rest) = .ok (batches.map .ok)

section Laws

variable {W : Type} [LawfulArrowStreams W] {batches : List RecordBatch} {bytes rest : List UInt8}

open ArrowStreams LawfulArrowStreams

theorem write_stream_batches {schema : Schema} {before : List RecordBatch} {writer writer' : W}
    (hholds : Holds writer schema before)
    (h : forEach (write_stream_batch W) writer batches = (.ok (), writer')) :
    Holds writer' schema (before ++ batches) := by
  induction batches generalizing writer before with
  | nil =>
    obtain rfl := congrArg Prod.snd h
    rwa [List.append_nil]
  | cons batch batches ih =>
    obtain ⟨mid, hwrite, hrest⟩ := forEach_cons_ok.1 h
    have hmid : writer_write writer batch = (.ok (), mid) := by
      unfold write_stream_batch at hwrite
      split at hwrite
      · cases hwrite
      · rename_i next hnext
        obtain rfl : next = mid := congrArg Prod.snd hwrite
        exact hnext
    have hall := ih (writer_write_holds hholds hmid) hrest
    rwa [List.append_assoc, List.singleton_append] at hall

/-- What was serialized is a stream of its own: it is read from the front of any bytes. -/
theorem serialized_stream (h : serialize_batches W batches = .ok bytes) (hne : batches ≠ [])
    (hschema : ∃ schema, ∀ batch ∈ batches, batch.schema = schema) :
    bytes ≠ [] ∧ ∀ rest, reader_try_new W (bytes ++ rest) = .ok (batches.map .ok) := by
  obtain ⟨first, others, rfl⟩ := List.exists_cons_of_ne_nil hne
  obtain ⟨schema, hschema⟩ := hschema
  have hfirst : first.schema = schema := hschema first List.mem_cons_self
  unfold serialize_batches at h
  dsimp only at h
  split at h
  · cases h
  rename_i writer hnew
  split at h
  · cases h
  rename_i full hfull
  split at h
  · cases h
  rename_i finished hfinish
  obtain rfl := Except.ok.inj h
  have hholds := write_stream_batches (writer_try_new_holds hnew) hfull
  rw [hfirst, List.nil_append] at hholds
  exact ⟨written_ne_nil hfinish, reader_stops hholds hschema hfinish⟩

theorem deserialize_stream (hne : bytes ≠ [])
    (hread : reader_try_new W bytes = .ok (batches.map .ok)) :
    deserialize_batches W bytes = .ok batches := by
  have hempty : bytes.isEmpty = false := by
    simpa using hne
  unfold deserialize_batches
  rw [hempty, if_neg Bool.false_ne_true, hread]
  exact mapM_mapError_ok.2 rfl

namespace IpcBuffer

variable {buf : IpcBuffer} {lists : List (List RecordBatch)}

omit [LawfulArrowStreams W] in
theorem into_bytes_eq : buf.into_bytes = buf.chunks.flatten := by
  have happend : ∀ (chunks : List (List UInt8)) (out : List UInt8),
      chunks.foldl (fun out chunk => out ++ chunk) out = out ++ chunks.flatten := by
    intro chunks
    induction chunks with
    | nil => simp
    | cons chunk chunks ih => simp [ih]
  exact happend buf.chunks []

/-- A chunk for each list. -/
theorem Pushed.chunks (h : Pushed W buf lists) :
    List.Forall₂ (fun batches bytes => serialize_batches W batches = .ok bytes) lists
      buf.chunks := by
  induction h with
  | new => exact .nil
  | refused _ herror ih =>
    unfold push_batches at herror
    split at herror <;> cases herror
    exact ih
  | pushed _ hok ih =>
    unfold push_batches at hok
    split at hok <;> cases hok
    rename_i hbytes
    exact List.rel_append ih (.cons hbytes .nil)

end IpcBuffer

/-- The first of the lists that has something in it. -/
def first_nonempty (lists : List (List RecordBatch)) : List RecordBatch :=
  (lists.find? fun batches => !batches.isEmpty).getD []

/-- The bytes of a buffer are read as the first list that is not empty. -/
theorem read_first {lists : List (List RecordBatch)} {chunks : List (List UInt8)}
    (h : List.Forall₂ (fun batches bytes => serialize_batches W batches = .ok bytes) lists chunks)
    (hschema : ∀ batches ∈ lists, ∃ schema, ∀ batch ∈ batches, batch.schema = schema) :
    deserialize_batches W chunks.flatten = .ok (first_nonempty lists) := by
  induction h with
  | nil => rfl
  | @cons batches bytes lists chunks hbytes _ ih =>
    by_cases hnil : batches = []
    · subst hnil
      have hnone := ih fun l hl => hschema l (List.mem_cons_of_mem _ hl)
      cases hbytes
      exact hnone
    · obtain ⟨hne, hread⟩ := serialized_stream hbytes hnil (hschema batches List.mem_cons_self)
      have hfirst : first_nonempty (batches :: lists) = batches := by
        simp [first_nonempty, hnil]
      rw [List.flatten_cons, hfirst]
      exact deserialize_stream (by simp [hne]) (hread chunks.flatten)

theorem flatten_eq_first_iff {lists : List (List RecordBatch)} :
    first_nonempty lists = lists.flatten ↔ (lists.countP fun batches => !batches.isEmpty) ≤ 1 := by
  induction lists with
  | nil => simp [first_nonempty]
  | cons batches lists ih =>
    by_cases hnil : batches = []
    · subst hnil
      simpa [first_nonempty] using ih
    · have hfirst : first_nonempty (batches :: lists) = batches := by
        simp [first_nonempty, hnil]
      have hrest : lists.countP (fun batches => !batches.isEmpty) = 0 ↔ lists.flatten = [] := by
        simp [List.countP_eq_zero, List.flatten_eq_nil_iff]
      rw [hfirst, List.flatten_cons, List.countP_cons_of_pos (by simpa using hnil),
        List.self_eq_append_right, ← hrest]
      omega

/-- The bytes of a buffer are read back as all that was pushed exactly if at most one of the lists
had anything in it. -/
theorem pushed_read_back_iff {buf : IpcBuffer} {lists : List (List RecordBatch)}
    (h : IpcBuffer.Pushed W buf lists)
    (hschema : ∀ batches ∈ lists, ∃ schema, ∀ batch ∈ batches, batch.schema = schema) :
    deserialize_batches W buf.into_bytes = .ok lists.flatten ↔
      (lists.countP fun batches => !batches.isEmpty) ≤ 1 := by
  rw [IpcBuffer.into_bytes_eq, read_first h.chunks hschema, Except.ok.injEq, flatten_eq_first_iff]

end Laws

/-! ## Two pushes of one batch -/

def coin : RecordBatch where
  schema := ⟨[{ name := "coin", data_type := .Utf8, nullable := false }]⟩
  columns := [.StringArray [some "gold"]]
  row_count := 1
  column_types := rfl
  column_len := by simp [ArrayRef.len]
  non_nullable := rfl

/-- A writer of coins. The schema is a 1, each coin a 2, and the marker a 0. -/
structure CoinWriter where
  buffer : List UInt8

instance : ArrowStreams CoinWriter where
  writer_try_new _ := .ok ⟨[1]⟩
  writer_write writer batch :=
    if batch = coin then (.ok (), ⟨writer.buffer ++ [2]⟩) else (.error "not a coin", writer)
  writer_finish writer := (.ok (), ⟨writer.buffer ++ [0]⟩)
  written := CoinWriter.buffer
  reader_try_new
    | 1 :: rest => .ok (List.replicate (rest.takeWhile (· = 2)).length (.ok coin))
    | _ => .error "no schema"

instance : LawfulArrowStreams CoinWriter where
  Holds writer _ batches :=
    writer.buffer = 1 :: List.replicate batches.length 2 ∧ ∀ batch ∈ batches, batch = coin
  writer_try_new_holds h := by
    obtain rfl := Except.ok.inj h
    exact ⟨rfl, by simp⟩
  writer_write_holds := by
    rintro schema batches batch writer writer' ⟨hbuffer, hcoins⟩ h
    change (if batch = coin then _ else _) = _ at h
    split at h
    · rename_i hcoin
      obtain rfl := congrArg Prod.snd h
      refine ⟨?_, ?_⟩
      · simp [hbuffer, List.replicate_succ']
      · intro b hb
        rcases List.mem_append.1 hb with hb | hb
        · exact hcoins b hb
        · rw [List.mem_singleton.1 hb, hcoin]
    · cases h
  written_ne_nil := by
    intro writer writer' h
    obtain rfl := congrArg Prod.snd h
    exact List.append_ne_nil_of_right_ne_nil _ (List.cons_ne_nil _ _)
  reader_stops := by
    rintro schema batches writer writer' ⟨hbuffer, hcoins⟩ - h rest
    obtain rfl := congrArg Prod.snd h
    have hbytes : writer.buffer ++ [0] ++ rest =
        1 :: (List.replicate batches.length 2 ++ 0 :: rest) := by
      simp [hbuffer]
    have htake : ((List.replicate batches.length 2 ++ 0 :: rest).takeWhile
        fun b : UInt8 => decide (b = 2)) = List.replicate batches.length 2 := by
      rw [List.takeWhile_append_of_pos]
      · simp
      · intro b hb
        rw [List.eq_of_mem_replicate hb]
        rfl
    change ArrowStreams.reader_try_new CoinWriter (writer.buffer ++ [0] ++ rest) = _
    rw [hbytes]
    change Except.ok (List.replicate (List.takeWhile _ _).length _) = _
    have hall : (batches.map .ok : List (Except String RecordBatch)) =
        List.replicate batches.length (.ok coin) := by
      rw [List.eq_replicate_iff]
      simpa using hcoins
    rw [htake, List.length_replicate, hall]

theorem push_coin {chunks : List (List UInt8)} :
    IpcBuffer.push_batches CoinWriter ⟨chunks⟩ [coin] = (.ok (), ⟨chunks ++ [[1, 2, 0]]⟩) := by
  have hbytes : serialize_batches CoinWriter [coin] = .ok [1, 2, 0] := by decide +kernel
  rw [IpcBuffer.push_batches, hbytes]
  rfl

theorem push_nothing {chunks : List (List UInt8)} :
    IpcBuffer.push_batches CoinWriter ⟨chunks⟩ [] = (.ok (), ⟨chunks ++ [[]]⟩) := rfl

/-- One list and an empty one are read back. -/
theorem one_push_read_back :
    IpcBuffer.Pushed CoinWriter ⟨[[1, 2, 0], []]⟩ [[coin], []] ∧
      deserialize_batches CoinWriter (IpcBuffer.into_bytes ⟨[[1, 2, 0], []]⟩) = .ok [coin] := by
  have hpushed : IpcBuffer.Pushed CoinWriter ⟨[[1, 2, 0], []]⟩ [[coin], []] :=
    .pushed (.pushed .new push_coin) push_nothing
  refine ⟨hpushed, (pushed_read_back_iff hpushed ?_).2 (by decide)⟩
  intro batches hbatches
  simp only [List.mem_cons, List.not_mem_nil, or_false] at hbatches
  refine ⟨coin.schema, fun b hb => ?_⟩
  rcases hbatches with rfl | rfl
  · rw [List.mem_singleton.1 hb]
  · cases hb

/-- Two lists are read back as the first. -/
theorem second_push_lost :
    IpcBuffer.Pushed CoinWriter ⟨[[1, 2, 0], [1, 2, 0]]⟩ [[coin], [coin]] ∧
      deserialize_batches CoinWriter (IpcBuffer.into_bytes ⟨[[1, 2, 0], [1, 2, 0]]⟩) = .ok [coin] ∧
      deserialize_batches CoinWriter (IpcBuffer.into_bytes ⟨[[1, 2, 0], [1, 2, 0]]⟩) ≠
        .ok [[coin], [coin]].flatten := by
  refine ⟨.pushed (.pushed .new push_coin) push_coin, ?_, ?_⟩ <;> decide +kernel

end Scharnhorst
