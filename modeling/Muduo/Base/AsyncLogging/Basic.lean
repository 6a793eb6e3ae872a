import Muduo.Base.Code
import Muduo.Machine.Text

/-!
# AsyncLogging

Threads append messages to the current buffer under the lock of the logger. The logging thread
collects the full buffers and the current one under the same lock, and writes them to the file
without it. It keeps two spare buffers, which it gives to the logger when it collects and which it
recycles from what it has written.
-/

namespace Muduo

open Machine

/-- A buffer of `size` bytes. What has been put into it, `length()` bytes, is `data`. -/
structure FixedBuffer (size : ℕ) where
  data : List UInt8
  fits : data.length ≤ size
  deriving DecidableEq, Repr

namespace FixedBuffer

variable {size : ℕ}

def new : FixedBuffer size := ⟨[], Nat.zero_le _⟩

def avail (b : FixedBuffer size) : ℕ := size - b.data.length

def append (b : FixedBuffer size) (buf : List UInt8) : FixedBuffer size :=
  if h : buf.length < b.avail then
    ⟨b.data ++ buf, by rw [List.length_append]; unfold avail at h; omega⟩
  else b

def reset (_ : FixedBuffer size) : FixedBuffer size := ⟨[], Nat.zero_le _⟩

@[simp] lemma data_new : (new : FixedBuffer size).data = [] := rfl

lemma data_append {b : FixedBuffer size} {buf : List UInt8} (h : buf.length < b.avail) :
    (b.append buf).data = b.data ++ buf := by
  rw [append, dif_pos h]

end FixedBuffer

def kLargeBuffer : ℕ := 4000 * 1000

/-- A `LogFile`: what it has been given, piece by piece, and how many of the pieces have been
flushed. -/
structure LogFile where
  pieces : List (List UInt8)
  flushed : ℕ
  deriving DecidableEq, Repr

namespace LogFile

def append (f : LogFile) (piece : List UInt8) : LogFile :=
  { f with pieces := f.pieces ++ [piece] }

def flush (f : LogFile) : LogFile := { f with flushed := f.pieces.length }

/-- The bytes that are in the file. -/
def written (f : LogFile) : List UInt8 := (f.pieces.take f.flushed).flatten

end LogFile

namespace AsyncLogging

abbrev Buffer := FixedBuffer kLargeBuffer

/-- Where the logging thread is in `threadFunc`. -/
inductive Writer where
  | entry
  /-- At the condition of `while (running_)`. -/
  | test
  /-- At the lock. -/
  | locking
  /-- In `waitForSeconds`. -/
  | waiting
  /-- Behind the critical section. -/
  | collected
  /-- In the loop over `buffersToWrite`, at the buffer with this index. -/
  | writing (next : ℕ)
  /-- Behind that loop. -/
  | recycling
  | exited
  deriving DecidableEq, Repr

end AsyncLogging

/-- The logger and the variables of its thread. -/
structure AsyncLogging where
  running : Bool
  currentBuffer : AsyncLogging.Buffer
  nextBuffer : Option AsyncLogging.Buffer
  buffers : List AsyncLogging.Buffer
  writer : AsyncLogging.Writer
  newBuffer1 : Option AsyncLogging.Buffer
  newBuffer2 : Option AsyncLogging.Buffer
  buffersToWrite : List AsyncLogging.Buffer
  output : LogFile
  deriving DecidableEq, Repr

namespace AsyncLogging

/-- `start()` has created the thread. -/
def start : AsyncLogging where
  running := true
  currentBuffer := .new
  nextBuffer := some .new
  buffers := []
  writer := .entry
  newBuffer1 := some .new
  newBuffer2 := some .new
  buffersToWrite := []
  output := ⟨[], 0⟩

def append (s : AsyncLogging) (logline : List UInt8) : AsyncLogging :=
  if logline.length < s.currentBuffer.avail then
    { s with currentBuffer := s.currentBuffer.append logline }
  else
    { s with
      buffers := s.buffers ++ [s.currentBuffer]
      currentBuffer := (s.nextBuffer.getD .new).append logline
      nextBuffer := none }

/-- The statements of `threadFunc` before the loop. -/
def enter (s : AsyncLogging) : Code AsyncLogging := do
  check .loggerRunning (s.running = true)
  return { s with writer := .test }

/-- `newBuffer && newBuffer->length() == 0`. -/
def isSpare (newBuffer : Option Buffer) : Bool := newBuffer.any fun b => b.data.length = 0

/-- The condition of the loop, with the assertions at the beginning of its body and the statement
behind it. -/
def test (s : AsyncLogging) : Code AsyncLogging :=
  if s.running then do
    check .loggerNewBuffer1 (isSpare s.newBuffer1 = true)
    check .loggerNewBuffer2 (isSpare s.newBuffer2 = true)
    check .loggerBuffersLeft (s.buffersToWrite = [])
    return { s with writer := .locking }
  else
    return { s with writer := .exited, output := s.output.flush }

/-- The critical section, behind the wait. -/
def collect (s : AsyncLogging) : Code AsyncLogging :=
  match s.newBuffer1 with
  | none => .error (.failed .loggerNullBuffer)
  | some newBuffer1 =>
    let s :=
      { s with
        writer := .collected
        buffers := s.buffersToWrite
        currentBuffer := newBuffer1
        newBuffer1 := none
        buffersToWrite := s.buffers ++ [s.currentBuffer] }
    if s.nextBuffer.isNone then
      return { s with nextBuffer := s.newBuffer2, newBuffer2 := none }
    else
      return s

def lock (s : AsyncLogging) : Code AsyncLogging :=
  if s.buffers = [] then return { s with writer := .waiting } else s.collect

/-- What is written instead of the buffers that are dropped. `now` is the formatted time. -/
def dropText (now : List UInt8) (count : ℕ) : List UInt8 :=
  snprintf 256 (ascii "Dropped log messages at " ++ now ++ ascii ", " ++ decimal count ++
    ascii " larger buffers\n")

def dropOverflow (s : AsyncLogging) (now : List UInt8) : Code AsyncLogging := do
  check .loggerNothingToWrite (s.buffersToWrite ≠ [])
  let s := { s with writer := .writing 0 }
  if 25 < s.buffersToWrite.length then
    return { s with
      output := s.output.append (dropText now (s.buffersToWrite.length - 2))
      buffersToWrite := s.buffersToWrite.take 2 }
  else
    return s

/-- One round of the loop over `buffersToWrite`, or its end. -/
def write (s : AsyncLogging) (next : ℕ) : AsyncLogging :=
  match s.buffersToWrite[next]? with
  | some buffer => { s with writer := .writing (next + 1), output := s.output.append buffer.data }
  | none => { s with writer := .recycling }

/-- A spare buffer, made from the last of `left` if there is none. -/
def recycle (newBuffer : Option Buffer) (left : List Buffer) :
    Code (Option Buffer × List Buffer) :=
  match newBuffer with
  | some b => return (some b, left)
  | none =>
    match left.getLast? with
    | none => .error (.failed .loggerNoSpareBuffer)
    | some b => return (some b.reset, left.dropLast)

/-- The end of the body of the loop. -/
def finish (s : AsyncLogging) : Code AsyncLogging := do
  let left := s.buffersToWrite.take 2
  let (newBuffer1, left) ← recycle s.newBuffer1 left
  let (newBuffer2, _) ← recycle s.newBuffer2 left
  return { s with
    writer := .test
    newBuffer1 := newBuffer1
    newBuffer2 := newBuffer2
    buffersToWrite := []
    output := s.output.flush }

inductive Event where
  /-- A thread calls `append`. -/
  | append (logline : List UInt8)
  /-- The steps of the logging thread. -/
  | enter
  | test
  | lock
  /-- `waitForSeconds` returns: there was a signal, or the time is over, or neither. -/
  | wake
  | dropOverflow (now : List UInt8)
  | write
  | finish
  /-- `stop()` up to its `join()`. It comes after `start()`, which waits for the thread to enter. -/
  | stop
  deriving DecidableEq, Repr

/-- The message that an event appends. -/
def Event.messages : Event → List (List UInt8)
  | .append logline => [logline]
  | _ => []

def step (s : AsyncLogging) : Event → Code AsyncLogging
  | .append logline => return s.append logline
  | .enter => do
    require (s.writer = .entry)
    s.enter
  | .test => do
    require (s.writer = .test)
    s.test
  | .lock => do
    require (s.writer = .locking)
    s.lock
  | .wake => do
    require (s.writer = .waiting)
    s.collect
  | .dropOverflow now => do
    require (s.writer = .collected)
    s.dropOverflow now
  | .write =>
    match s.writer with
    | .writing next => return s.write next
    | _ => .error .disabled
  | .finish => do
    require (s.writer = .recycling)
    s.finish
  | .stop => do
    require (s.running = true ∧ s.writer ≠ .entry)
    return { s with running := false }

end AsyncLogging
end Muduo
