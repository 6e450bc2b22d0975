import Pebrel.Library.Transition
import Pebrel.Sftp.Segments
import Pebrel.Sftp.Upload

/-!
# Downloading a file in segments

Each segment of a file has a worker with handles of its own (`download_range` of
`transfer.rs`): it reads from the server into a buffer, and writes the buffer to
the local file where no other chunk has room in it, or the segment ends. The
download succeeds if all workers do (`download_segmented`).

## The model

A step of a worker is the opening of its handles, a read, a part of a write, the
flush after it, a cancellation, or a failure. The steps of the workers come in any
order. A read gives as many bytes as it likes of those that are wanted and there,
but at least one of them. The local file has the bytes that were written, and
nothing where none was.
-/

namespace Pebrel.Sftp

open Library Spans

def localIoBuffer : ℕ := 256 * 1024

/-! ### The local file -/

/-- The bytes of the local file that were written. -/
abbrev LocalFile := ℕ → Option UInt8

/-- Write bytes at a position. -/
def LocalFile.write (file : LocalFile) (p : ℕ) (bytes : Bytes) : LocalFile :=
  fun q => if p ≤ q ∧ q < p + bytes.length then bytes[q - p]? else file q

/-! ### Workers -/

inductive DownloadError where
  | cancelled
  | unexpectedEof
  | io

/-- Where a worker is. -/
inductive Phase where
  | opening
  /-- At the head of the loop, with something left to read. -/
  | reading
  /-- In `write_all`, with what is left to write. -/
  | writing (rest : Bytes)
  | flushing
  | finished (written : ℕ)
  | failed (error : DownloadError)
  /-- A slice out of the bounds of the buffer. -/
  | panicked

/-- The state of `download_range`, with the positions of its two handles. -/
structure Worker where
  offset : ℕ
  length : ℕ
  source : ℕ
  target : ℕ
  capacity : ℕ
  /-- The part of the buffer that is filled. -/
  buffered : Bytes
  remaining : ℕ
  written : ℕ
  phase : Phase

inductive WorkerStep where
  | opened
  | read (count : ℕ)
  | wrote (count : ℕ)
  | flushed
  | cancelled
  | failed

namespace Worker

def start (offset length : ℕ) : Worker := ⟨offset, length, 0, 0, 0, [], length, 0, .opening⟩

/-- The head of `while remaining > 0`. -/
def loop (w : Worker) : Worker := { w with phase := if 0 < w.remaining then .reading else .finished w.written }

/-- How much a read asks for. -/
def want (w : Worker) : ℕ := min w.remaining transferChunk

/-- A read that gives `count` bytes. -/
def received (w : Worker) (remote : Bytes) (count : ℕ) : Worker :=
  let buffered := w.buffered ++ (remote.drop w.source).take count
  let remaining := w.remaining - count
  { w with
    source := w.source + count
    buffered := buffered
    remaining := remaining
    phase := if w.capacity - buffered.length < transferChunk ∨ remaining = 0 then .writing buffered else .reading }

/-- A step of a worker: the worker, the local file and the reported progress. -/
def step (remote : Bytes) (file : LocalFile) (w : Worker) : WorkerStep → Option (Worker × LocalFile × ℕ)
  | .opened =>
    match w.phase with
    | .opening =>
      some (loop { w with source := w.offset, target := w.offset, capacity := min w.length localIoBuffer }, file, 0)
    | _ => none
  | .cancelled =>
    match w.phase with
    | .reading => some ({ w with phase := .failed .cancelled }, file, 0)
    | _ => none
  | .read count =>
    match w.phase with
    | .reading =>
      if w.capacity < w.buffered.length + w.want then some ({ w with phase := .panicked }, file, 0)
      else if remote.length ≤ w.source then
        if count = 0 then some ({ w with phase := .failed .unexpectedEof }, file, 0) else none
      else if 0 < count ∧ count ≤ w.want ∧ w.source + count ≤ remote.length then some (w.received remote count, file, 0)
      else none
    | _ => none
  | .wrote count =>
    match w.phase with
    | .writing rest =>
      if 0 < count ∧ count ≤ rest.length then
        some ({ w with
          target := w.target + count
          phase := if rest.drop count = [] then .flushing else .writing (rest.drop count) }, file.write w.target (rest.take count), 0)
      else none
    | _ => none
  | .flushed =>
    match w.phase with
    | .flushing =>
      some (loop { w with written := w.written + w.buffered.length, buffered := [] }, file, w.buffered.length)
    | _ => none
  | .failed =>
    match w.phase with
    | .finished _ | .failed _ | .panicked => none
    | _ => some ({ w with phase := .failed .io }, file, 0)

/-- What `download_range` returns. -/
def result (w : Worker) : Option (Except DownloadError ℕ) :=
  match w.phase with
  | .finished written => some (.ok written)
  | .failed e => some (.error e)
  | _ => none

end Worker

/-! ### Downloads -/

/-- The local file, the progress that was reported, and the workers. -/
structure Download where
  file : LocalFile
  progress : ℕ
  workers : List Worker

/-- The ranges of the workers: one for the whole file unless there are several segments. -/
def ranges (total : ℕ) (plan : Plan) : Plan :=
  if total = 0 then [] else if plan.length ≤ 1 then [(0, total)] else plan

namespace Download

/-- `download_segmented` when it has made the workers. -/
def start (total : ℕ) (plan : Plan) : Download :=
  ⟨fun _ => none, 0, (ranges total plan).map fun s => .start s.1 s.2⟩

/-- A step of the worker with an index. -/
def step (remote : Bytes) (s : Download) (a : ℕ × WorkerStep) : Option Download :=
  match s.workers[a.1]? with
  | none => none
  | some w => (w.step remote s.file a.2).map fun r => ⟨r.2.1, s.progress + r.2.2, s.workers.set a.1 r.1⟩

end Download

/-! ### Outcomes -/

structure SegmentProgress where
  offset : ℕ
  length : ℕ
  done : ℕ

/-- The loop of `contiguous_offset`. -/
def contiguousFrom (reached : ℕ) : List SegmentProgress → ℕ
  | [] => reached
  | segment :: segments =>
    if segment.offset ≠ reached then reached
    else if segment.done ≠ segment.length then reached + segment.done
    else contiguousFrom (reached + segment.done) segments

def contiguousOffset (segments : List SegmentProgress) : ℕ := contiguousFrom 0 segments

structure DownloadOutcome where
  written : ℕ
  contiguous : ℕ

/-- What is booked for a worker that has returned: a worker that failed has done nothing. -/
def Worker.progress (w : Worker) (result : Except DownloadError ℕ) : SegmentProgress :=
  ⟨w.offset, w.length, match result with
    | .ok done => done
    | .error _ => 0⟩

/-- The first error. -/
def firstError : List (Except DownloadError ℕ) → Option DownloadError
  | [] => none
  | .error e :: _ => some e
  | .ok _ :: results => firstError results

/-- The bytes that were written in all. -/
def writtenOf : List (Except DownloadError ℕ) → ℕ
  | [] => 0
  | .error _ :: results => writtenOf results
  | .ok done :: results => done + writtenOf results

/-- What is booked for the workers. -/
def segmentsOf (workers : List Worker) (results : List (Except DownloadError ℕ)) : List SegmentProgress :=
  (workers.zip results).map fun r => r.1.progress r.2

/-- What `download_segmented` makes of what its workers return. -/
def outcomeOf (workers : List Worker) : List (Except DownloadError ℕ) → Except DownloadError DownloadOutcome
  | [] => .ok ⟨0, 0⟩
  | [.ok written] => .ok ⟨written, written⟩
  | [.error e] => .error e
  | results =>
    match firstError results with
    | some e => .error e
    | none => .ok ⟨writtenOf results, contiguousOffset (segmentsOf workers results)⟩

/-- What `download_segmented` returns, when all workers have returned. -/
def Download.finish (s : Download) : Option (Except DownloadError DownloadOutcome) :=
  (s.workers.mapM Worker.result).map (outcomeOf s.workers)

end Pebrel.Sftp
