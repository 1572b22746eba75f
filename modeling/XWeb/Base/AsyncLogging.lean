import XWeb.Base.FixedBuffer

/-!
# `AsyncLogging`

Model of `base/async_logging.h` and `base/async_logging.cpp`: the producers, which call `append`,
the backend thread, which runs `threadFunc`, and the thread that calls `start` and `stop`. A step
is what a thread does between two points where another thread can come in: a critical section of
`mutex_`, an access to `running_`, or a piece of `threadFunc` outside the lock. Threads
interleave in any order.

`wait_for` ends at any time (time-out, notification or spurious wakeup), so `notify_one` changes
nothing and a backend that waits can always wake. `none` is a failed `assert` or the use of a
null `unique_ptr`. What `LogFile` does with its input is not modelled, only what it is given.

* `AsyncLogging.step`: one step of a thread; `Enabled`: whose turn it can be.
* `AsyncLogging.chunks`: the whole stream, from the file to the buffer that producers fill.
-/

namespace XWeb.Base

open XWeb.Lib

/-! ## Data -/

/-- `AsyncLogging::Buffer`, a `FixedBuffer<kLargeBuffer>`. -/
abbrev LargeBuffer := FixedBuffer kLargeBuffer

/-- A `BufferPtr`; `none` is null. -/
abbrev BufferPtr := Option LargeBuffer

/-- What `output.append` is given: the notice of line 88, or the content of a buffer. -/
inductive Chunk
  | notice (text : String)
  | data (bytes : Bytes)
  deriving DecidableEq

/-- Where the backend thread is. -/
inductive Backend
  | notStarted
  /-- before line 54 -/
  | entering
  /-- before the test of line 64 -/
  | top
  /-- before line 69 -/
  | collect
  /-- in `wait_for`, line 72 -/
  | waiting
  /-- before line 83 -/
  | batch
  /-- in the loop of line 95, with `i` buffers written -/
  | writing (i : ℕ)
  | finished
  deriving DecidableEq

/-- Between the test of line 64 and the collection of line 74. -/
def Backend.Open : Backend → Prop
  | .collect | .waiting => True
  | _ => False

instance (b : Backend) : Decidable b.Open := by cases b <;> unfold Backend.Open <;> infer_instance

/-- The index of the buffer that the loop of line 95 is at. -/
def Backend.index : Backend → ℕ
  | .writing i => i
  | _ => 0

/-- Where the call of `stop` is (`base/async_logging.h` lines 31–35). -/
inductive Stopper
  | idle
  | called
  | cleared
  | notified
  | returned
  deriving DecidableEq

/-- The members of `AsyncLogging`, the locals of `threadFunc`, and where the two threads are.
    `cout`, `stderr` and `output` are what has been written there. -/
structure AsyncLogging where
  running : Bool
  consoleLog : Bool
  currentBuffer : BufferPtr
  nextBuffer : BufferPtr
  buffers : List BufferPtr
  newBuffer1 : BufferPtr
  newBuffer2 : BufferPtr
  buffersToWrite : List BufferPtr
  cout : Bytes
  stderr : List String
  output : List Chunk
  backend : Backend
  stopper : Stopper
  deriving DecidableEq

namespace AsyncLogging

/-- The constructor (lines 9–26). -/
def construct : AsyncLogging :=
  { running := false
    consoleLog := true
    currentBuffer := some FixedBuffer.new.bzero
    nextBuffer := some FixedBuffer.new.bzero
    buffers := []
    newBuffer1 := none
    newBuffer2 := none
    buffersToWrite := []
    cout := []
    stderr := []
    output := []
    backend := .notStarted
    stopper := .idle }

/-! ## Producers -/

/-- The echo of lines 31–34. -/
def echo (s : AsyncLogging) (logline : Bytes) : AsyncLogging :=
  { s with cout := if s.consoleLog then s.cout ++ logline else s.cout }

/-- Lines 39–46: `currentBuffer_` is handed over and replaced. -/
def replaceCurrent (s : AsyncLogging) (cur : LargeBuffer) (logline : Bytes) : AsyncLogging :=
  let fresh := match s.nextBuffer with
    | some next => next
    | none => FixedBuffer.new
  { s with
    buffers := s.buffers ++ [some cur]
    nextBuffer := none
    currentBuffer := some (fresh.append logline) }

/-- `append` (lines 28–49). -/
def append (s : AsyncLogging) (logline : Bytes) : Option AsyncLogging :=
  match s.currentBuffer with
  | none => none
  | some cur =>
    if cur.avail > logline.length then
      some { s.echo logline with currentBuffer := some (cur.append logline) }
    else some ((s.echo logline).replaceCurrent cur logline)

/-! ## The backend -/

/-- Lines 54–63, from the `assert` to `countDown`. -/
def enter (s : AsyncLogging) : Option AsyncLogging :=
  if s.running then
    some { s with
      newBuffer1 := some FixedBuffer.new.bzero
      newBuffer2 := some FixedBuffer.new.bzero
      buffersToWrite := []
      backend := .top }
  else none

/-- `newBuffer && newBuffer->length() == 0`. -/
def isSpare : BufferPtr → Bool
  | some b => b.length = 0
  | none => false

/-- Lines 64–67, the test of the loop and the assertions behind it. -/
def test (s : AsyncLogging) : Option AsyncLogging :=
  if s.running then
    if isSpare s.newBuffer1 && isSpare s.newBuffer2 && s.buffersToWrite.isEmpty then
      some { s with backend := .collect }
    else none
  else some { s with backend := .finished }

/-- Lines 74–81. -/
def collect (s : AsyncLogging) : AsyncLogging :=
  let (next, new2) := match s.nextBuffer with
    | some b => (some b, s.newBuffer2)
    | none => (s.newBuffer2, none)
  { s with
    buffersToWrite := s.buffers ++ [s.currentBuffer]
    buffers := s.buffersToWrite
    currentBuffer := s.newBuffer1
    newBuffer1 := none
    nextBuffer := next
    newBuffer2 := new2
    backend := .batch }

/-- Lines 69–81 up to the wait, or to the end of the block when there is none. -/
def lock (s : AsyncLogging) : AsyncLogging :=
  if s.buffers.isEmpty then { s with backend := .waiting } else s.collect

/-- The text of line 88. -/
def droppedNotice (n : ℕ) : String := "Dropped log messages " ++ toString n ++ " larger buffers\n"

/-- Lines 83–93. -/
def batch (s : AsyncLogging) : Option AsyncLogging :=
  if s.buffersToWrite.isEmpty then none
  else if s.buffersToWrite.length > 25 then
    let buf := droppedNotice (s.buffersToWrite.length - 2)
    some { s with
      stderr := s.stderr ++ [buf]
      output := s.output ++ [.notice buf]
      buffersToWrite := s.buffersToWrite.take 2
      backend := .writing 0 }
  else some { s with backend := .writing 0 }

/-- One round of the loop of lines 95–99, the one for buffer `i`. -/
def write (s : AsyncLogging) (i : ℕ) : Option AsyncLogging :=
  match s.buffersToWrite[i]? with
  | some (some buffer) =>
    some { s with output := s.output ++ [.data buffer.text], backend := .writing (i + 1) }
  | _ => none

/-- Lines 107–113, and 115–121: a missing spare is taken from the back of `buffersToWrite`. -/
def refill (newBuffer : BufferPtr) (buffersToWrite : List BufferPtr) :
    Option (BufferPtr × List BufferPtr) :=
  match newBuffer with
  | some b => some (some b, buffersToWrite)
  | none =>
    match buffersToWrite.getLast? with
    | some (some b) => some (some b.reset, buffersToWrite.dropLast)
    | _ => none

/-- Lines 101–124. -/
def recycle (s : AsyncLogging) : Option AsyncLogging := do
  let toWrite := if s.buffersToWrite.length > 2 then s.buffersToWrite.take 2 else s.buffersToWrite
  let (new1, toWrite) ← refill s.newBuffer1 toWrite
  let (new2, _) ← refill s.newBuffer2 toWrite
  some { s with newBuffer1 := new1, newBuffer2 := new2, buffersToWrite := [], backend := .top }

/-! ## Steps of the threads -/

/-- `append` is a producer's whole call, `start` is `start()` up to `latch_.wait()`, and `stop`
    to `join` are the call of `stop()` and its three statements. The others are the backend's. -/
inductive Event
  | append (logline : Bytes)
  | start
  | enter
  | test
  | lock
  | wake
  | batch
  | write
  | recycle
  | stop
  | clear
  | notify
  | join
  deriving DecidableEq

/-- The lines that the event appends. -/
def Event.lines : Event → List Bytes
  | .append logline => [logline]
  | _ => []

/-- One step. -/
def step (s : AsyncLogging) : Event → Option AsyncLogging
  | .append logline => s.append logline
  | .start => some { s with running := true, backend := .entering }
  | .enter => s.enter
  | .test => s.test
  | .lock => some s.lock
  | .wake => some s.collect
  | .batch => s.batch
  | .write => s.write (s.backend.index)
  | .recycle => s.recycle
  | .stop => some { s with stopper := .called }
  | .clear => some { s with running := false, stopper := .cleared }
  | .notify => some { s with stopper := .notified }
  | .join => some { s with stopper := .returned }

/-- The thread that makes the step is where the step begins. `stop()` is called when `start()`
    has returned, and joins a backend that has finished. -/
def Enabled (s : AsyncLogging) : Event → Prop
  | .append _ => True
  | .start => s.backend = .notStarted
  | .enter => s.backend = .entering
  | .test => s.backend = .top
  | .lock => s.backend = .collect
  | .wake => s.backend = .waiting
  | .batch => s.backend = .batch
  | .write => ∃ i < s.buffersToWrite.length, s.backend = .writing i
  | .recycle => s.backend = .writing s.buffersToWrite.length
  | .stop => s.stopper = .idle ∧ s.backend ≠ .notStarted ∧ s.backend ≠ .entering
  | .clear => s.stopper = .called
  | .notify => s.stopper = .cleared
  | .join => s.stopper = .notified ∧ s.backend = .finished

instance (s : AsyncLogging) (e : Event) : Decidable (s.Enabled e) := by
  cases e <;> unfold Enabled <;> infer_instance

/-- `len` is an `int`. -/
def Event.IntLen : Event → Prop
  | .append logline => logline.length < 2 ^ 31
  | _ => True

/-- Lines are shorter than a buffer. -/
def Event.Short : Event → Prop
  | .append logline => logline.length < kLargeBuffer
  | _ => True

instance (e : Event) : Decidable e.Short := by cases e <;> unfold Event.Short <;> infer_instance

/-- The iteration has collected at most 25 buffers. -/
def NoDrop (s : AsyncLogging) (e : Event) : Prop := e = .batch → s.buffersToWrite.length ≤ 25

instance (s : AsyncLogging) (e : Event) : Decidable (s.NoDrop e) := by
  unfold NoDrop; infer_instance

/-- The lines of all `append` calls of a run, in the order in which they took the lock. -/
def appended (es : List Event) : List Bytes := es.flatMap Event.lines

/-! ## The stream -/

/-- The bytes of a buffer. -/
def text : BufferPtr → Bytes
  | some b => b.text
  | none => []

/-- What the file was given, without the notices. -/
def handed (output : List Chunk) : List Bytes :=
  output.filterMap fun c => match c with
    | .data bytes => some bytes
    | .notice _ => none

/-- The buffers that the backend holds and has not written. -/
def unwritten (s : AsyncLogging) : List BufferPtr := s.buffersToWrite.drop (s.backend.index)

/-- What the file was given, then the buffers being written. -/
def taken (s : AsyncLogging) : List Bytes := handed s.output ++ s.unwritten.map text

/-- `buffers_`, then `currentBuffer_`. -/
def pending (s : AsyncLogging) : List Bytes := s.buffers.map text ++ [text s.currentBuffer]

/-- What the file was given, the buffers being written, `buffers_`, `currentBuffer_`. -/
def chunks (s : AsyncLogging) : List Bytes := s.taken ++ s.pending

/-- All bytes of the stream. -/
def stream (s : AsyncLogging) : Bytes := s.chunks.flatten

end AsyncLogging

end XWeb.Base
