import XWeb.Lib.Run
import Mathlib.Logic.Function.Basic

/-!
# `EventLoop`

Model of `loop`, `quit`, `runInLoop`, `queueInLoop`, `doPendingFunctors` and `wakeup` of
`net/event_loop.cpp`, over the eventfd of `net/linux/epoller.cpp`. Threads and functors are of
any type. A step is what a thread does between two points where another thread can come in:
a critical section of `mtx_`, a read or write of the eventfd, a test of `running_`.

What a functor or a handler does is left open: between its start and its end the loop thread may
call `runInLoop` and `quit`. The eventfd is level-triggered and registered for reading, so
`poll` may report it in any batch while its counter is positive. Writes to it succeed. `none` is
a failed `assert`.

* `EventLoop.step`: one step of a thread; `Enabled`: whose turn it can be.
* `EventLoop.executed`, `pushed`: the queued functors in the order of execution and of arrival.
-/

namespace XWeb.Net

open XWeb.Lib

/-! ## Data -/

variable {T F : Type*}

/-- An entry of `pending_functors_`. The number of its push and the thread that pushed it are
    kept beside the functor. -/
structure Queued (T F : Type*) where
  ticket : ℕ
  owner : T
  functor : F
  deriving DecidableEq

/-- A channel that `poll` reports: that of the eventfd, or another one. -/
inductive Ready
  | wakeup
  | channel
  deriving DecidableEq

/-- Where the loop thread is. -/
inductive LoopPc (T F : Type*)
  /-- not in `loop` -/
  | outside
  /-- before the test of line 42 -/
  | test
  /-- in `poll`, line 43 -/
  | poll
  /-- in the loop of line 45, with the channels still to handle -/
  | dispatch (batch : List Ready)
  /-- in a handler called from line 46 -/
  | handler (batch : List Ready)
  /-- in `doPendingFunctors`, before line 96 -/
  | swap
  /-- in the loop of line 100, with the functors still to run -/
  | run (functors : List (Queued T F))
  /-- in the functor `q`, called from line 101 -/
  | functor (q : Queued T F) (functors : List (Queued T F))
  deriving DecidableEq

/-- The loop thread is in code of the user: before or after `loop`, in a handler, in a functor. -/
def LoopPc.inUserCode : LoopPc T F → Bool
  | .outside | .handler _ | .functor _ _ => true
  | _ => false

/-- The functors that were swapped out and not started yet. -/
def LoopPc.swapped : LoopPc T F → List (Queued T F)
  | .run functors | .functor _ functors => functors
  | _ => []

/-- The functors that were swapped out and have not returned yet. -/
def LoopPc.unfinished : LoopPc T F → List (Queued T F)
  | .run functors => functors
  | .functor q functors => q :: functors
  | _ => []

/-- The loop thread will look at the queue before it blocks in `poll` again. -/
def LoopPc.beforeSwap : LoopPc T F → Bool
  | .dispatch _ | .handler _ | .swap => true
  | _ => false

/-- Where another thread is in a call of `queueInLoop` or `quit`: it has pushed entry `ticket`, or
    cleared `running_`, and has not called `wakeup()` yet. -/
inductive Caller
  | idle
  | pushed (ticket : ℕ)
  | quitting
  deriving DecidableEq

/-- A functor that was run, by which thread, from the queue or directly in `runInLoop`. -/
inductive Ran (T F : Type*)
  | queued (thread : T) (q : Queued T F)
  | direct (thread : T) (f : F)
  deriving DecidableEq

def Ran.thread : Ran T F → T
  | .queued t _ => t
  | .direct t _ => t

/-- The members of `EventLoop`, the counter of the eventfd, the places of the threads, and the
    record of what was pushed and of what was run. -/
structure EventLoop (T F : Type*) where
  running : Bool
  callingPending : Bool
  threadId : T
  pendingFunctors : List (Queued T F)
  eventfd : ℕ
  pc : LoopPc T F
  /-- the thread inside `loop` -/
  loopCaller : Option T
  callers : T → Caller
  pushed : List (Queued T F)
  ran : List (Ran T F)

namespace EventLoop

/-- The constructor (lines 16–29), called on thread `t`. -/
def construct (t : T) : EventLoop T F :=
  { running := false
    callingPending := false
    threadId := t
    pendingFunctors := []
    eventfd := 0
    pc := .outside
    loopCaller := none
    callers := fun _ => .idle
    pushed := []
    ran := [] }

variable [DecidableEq T]

/-! ## Calls from any thread -/

/-- `queueInLoop` (lines 80–88) up to the call of `wakeup`. -/
def queueInLoop (s : EventLoop T F) (t : T) (cb : F) : EventLoop T F :=
  let q : Queued T F := ⟨s.pushed.length, t, cb⟩
  { s with
    pendingFunctors := s.pendingFunctors ++ [q]
    pushed := s.pushed ++ [q]
    callers := Function.update s.callers t
      (if t ≠ s.threadId ∨ s.callingPending = true then .pushed q.ticket else .idle) }

/-- `runInLoop` (lines 72–78). -/
def runInLoop (s : EventLoop T F) (t : T) (cb : F) : EventLoop T F :=
  if t = s.threadId then { s with ran := s.ran ++ [.direct t cb] } else s.queueInLoop t cb

/-- `wakeup` (line 106, and `net/linux/epoller.cpp` lines 126–132), the end of a call. -/
def wakeup (s : EventLoop T F) (t : T) : EventLoop T F :=
  { s with eventfd := s.eventfd + 1, callers := Function.update s.callers t .idle }

/-- `quit` (lines 53–58) up to the call of `wakeup`. -/
def quit (s : EventLoop T F) (t : T) : EventLoop T F :=
  { s with
    running := false
    callers := Function.update s.callers t (if t ≠ s.threadId then .quitting else .idle) }

/-! ## The loop thread -/

/-- `loop` (lines 37–40) on thread `t`. -/
def loop (s : EventLoop T F) (t : T) : Option (EventLoop T F) :=
  if t = s.threadId then
    if s.running then none
    else some { s with running := true, loopCaller := some t, pc := .test }
  else none

/-- The test of line 42. -/
def test (s : EventLoop T F) : EventLoop T F :=
  if s.running then { s with pc := .poll } else { s with loopCaller := none, pc := .outside }

/-- One round of the loop of line 45, or its end. The handler of the eventfd is `wakeupRead`
    (`net/linux/epoller.cpp` lines 10–16): the read sets the counter to zero. -/
def dispatch (s : EventLoop T F) : List Ready → EventLoop T F
  | [] => { s with pc := .swap }
  | .wakeup :: batch => { s with eventfd := 0, pc := .dispatch batch }
  | .channel :: batch => { s with pc := .handler batch }

/-- Lines 93–98. -/
def swap (s : EventLoop T F) : EventLoop T F :=
  { s with callingPending := true, pendingFunctors := [], pc := .run s.pendingFunctors }

/-- One round of the loop of line 100, or its end and line 102. -/
def runNext (s : EventLoop T F) : List (Queued T F) → Option (EventLoop T F)
  | [] => some { s with callingPending := false, pc := .test }
  | q :: functors => s.loopCaller.map fun t =>
    { s with ran := s.ran ++ [.queued t q], pc := .functor q functors }

/-! ## Steps -/

/-- The steps. `runInLoop`, `wakeup` and `quit` are those of the thread `t`. -/
inductive Event (T F : Type*)
  | runInLoop (t : T) (cb : F)
  | wakeup (t : T)
  | quit (t : T)
  | loop (t : T)
  | test
  | poll (batch : List Ready)
  | dispatch
  | handlerEnd
  | swap
  | runNext
  | functorEnd

def step (s : EventLoop T F) : Event T F → Option (EventLoop T F)
  | .runInLoop t cb => some (s.runInLoop t cb)
  | .wakeup t => some (s.wakeup t)
  | .quit t => some (s.quit t)
  | .loop t => s.loop t
  | .test => some s.test
  | .poll batch => some { s with pc := .dispatch batch }
  | .dispatch => match s.pc with
    | .dispatch batch => some (s.dispatch batch)
    | _ => none
  | .handlerEnd => match s.pc with
    | .handler batch => some { s with pc := .dispatch batch }
    | _ => none
  | .swap => some s.swap
  | .runNext => match s.pc with
    | .run functors => s.runNext functors
    | _ => none
  | .functorEnd => match s.pc with
    | .functor _ functors => some { s with pc := .run functors }
    | _ => none

/-- The steps that the loop thread makes by itself. -/
def ofLoopThread : Event T F → Prop
  | .runInLoop _ _ | .wakeup _ | .quit _ => False
  | _ => True

/-- Thread `t` can begin a call. -/
def Free (s : EventLoop T F) (t : T) : Prop :=
  if t = s.threadId then s.pc.inUserCode = true else s.callers t = .idle

/-- The thread that makes the step is where the step begins. -/
def Enabled (s : EventLoop T F) : Event T F → Prop
  | .runInLoop t _ => s.Free t
  | .wakeup t => s.callers t ≠ .idle
  | .quit t => s.Free t
  | .loop t => t = s.threadId ∧ s.pc = .outside
  | .test => s.pc = .test
  | .poll batch => s.pc = .poll ∧ (.wakeup ∈ batch → 0 < s.eventfd)
  | .dispatch => ∃ batch, s.pc = .dispatch batch
  | .handlerEnd => ∃ batch, s.pc = .handler batch
  | .swap => s.pc = .swap
  | .runNext => ∃ functors, s.pc = .run functors
  | .functorEnd => ∃ q functors, s.pc = .functor q functors

/-! ## What is observed -/

/-- The queued functors that have been run, in order. -/
def executed (s : EventLoop T F) : List (Queued T F) :=
  s.ran.filterMap fun r => match r with
    | .queued _ q => some q
    | .direct _ _ => none

/-- What was pushed, by which thread. -/
def postings (s : EventLoop T F) : List (T × F) := s.pushed.map fun q => (q.owner, q.functor)

/-- The calls of `runInLoop` that queue their functor, on a loop of the thread `t₀`. -/
def posted (t₀ : T) : Event T F → Option (T × F)
  | .runInLoop t cb => if t = t₀ then none else some (t, cb)
  | _ => none

/-- The functors that are in the queue, swapped out, or running. -/
def queued (s : EventLoop T F) : List (Queued T F) := s.pc.unfinished ++ s.pendingFunctors

end EventLoop

end XWeb.Net
