import Mathlib.Data.Fintype.Basic
import XWeb.Net.ConnectionLifetime
import XWeb.Net.TcpServer

/-!
# A connection that several threads call

`send` and `shutdown` (`net/tcp_connection.cpp` lines 50–89 and 150–155) may be called on every
thread. They read `state_` there; the rest runs on the loop thread, at once or as a queued
functor. A `SharedConnection` is a `Session` with the threads in the middle of a call and the
queued functors.

* `SharedConnection.step`: a step of one thread.
* `Legal`: when the threads, the poller and the owners of the connection make the step.
* `exec_spec`, `loop_spec`: what happens to the session on the loop thread.
-/

namespace XWeb.Net

open XWeb.Lib

variable {T : Type*}

/-! ## Data -/

/-- How far the loop thread is with the connection. The channel is registered from
    `connectEstablished` to `handleClose`. -/
inductive Stage
  | created
  | registered
  | closed
  | destroyed
  deriving DecidableEq

/-- Where a thread is in a call of `send` or `shutdown`. -/
inductive InCall
  | idle
  /-- in `shutdown`, before line 152 -/
  | tested
  /-- before `runInLoop` -/
  | posting (op : Op)
  deriving DecidableEq

def InCall.op : InCall → Option Op
  | .posting op => some op
  | .idle | .tested => none

/-- `functors` are those queued and those of the batch that `doPendingFunctors` is in. -/
structure SharedConnection (T : Type*) where
  session : Session
  stage : Stage
  loopThread : T
  calls : T → InCall
  functors : List Op

/-! ## Steps -/

/-- What a call does on the loop thread. `w` is what `write()` returns. Of a message that has
    waited in a functor the length must be an `int` for that (`functor_exec` in
    `XWeb.Net.SendPaths`). -/
def Op.exec (s : Session) (w : WriteResult) : Op → Option Session
  | .send message => s.sendInLoop message w
  | .shutdown => some s.shutdownInLoop

/-- What the kernel guarantees about a functor. -/
def Op.Sized (s : Session) (w : WriteResult) : Op → Prop
  | .send message => w.Within message.length ∧ s.conn.outputBuffer.Fits message.length
  | .shutdown => True

instance (s : Session) (w : WriteResult) : ∀ op : Op, Decidable (op.Sized s w)
  | .send _ => inferInstanceAs (Decidable (_ ∧ _))
  | .shutdown => instDecidableTrue

/-- What the kernel guarantees about an event, whatever `state_` is. -/
def ConnEvent.Sized (s : Session) : ConnEvent → Prop
  | .send data w | .sendInLoop data w => w.Within data.length ∧ s.conn.outputBuffer.Fits data.length
  | .shutdown => True
  | .handleWrite w => w.Within s.conn.outputBuffer.readableBytes
  | .handleRead r => (BufferOp.readFd r).Pre s.conn.inputBuffer

instance (s : Session) : ∀ e : ConnEvent, Decidable (e.Sized s)
  | .send _ _ | .sendInLoop _ _ => inferInstanceAs (Decidable (_ ∧ _))
  | .shutdown => instDecidableTrue
  | .handleWrite _ => inferInstanceAs (Decidable (WriteResult.Within _ _))
  | .handleRead _ => inferInstanceAs (Decidable (BufferOp.Pre _ _))

/-- The event is one of a queued functor. -/
def ConnEvent.isFunctor : ConnEvent → Bool
  | .sendInLoop _ _ => true
  | .send .. | .shutdown | .handleWrite _ | .handleRead _ => false

inductive SharedEvent (T : Type*)
  /-- `connectEstablished` on the loop thread -/
  | connectEstablished
  /-- thread `t` calls and reads `state_` -/
  | test (t : T) (op : Op)
  /-- line 152 on thread `t` -/
  | setState (t : T)
  /-- `runInLoop` on thread `t`; on the loop thread it runs the functor -/
  | post (t : T) (w : WriteResult)
  /-- `doPendingFunctors` runs the next functor -/
  | runFunctor (w : WriteResult)
  /-- a handler, or a call that a callback makes on the loop thread -/
  | loop (e : ConnEvent)
  /-- the last pointer goes -/
  | destroy

namespace SharedConnection

def start (activeEvents : Flags) (sockfd : ℤ) (wcc hwm : Bool) (loopThread : T) :
    SharedConnection T :=
  { session := ⟨TcpConnection.construct activeEvents sockfd wcc hwm, []⟩
    stage := .created
    loopThread
    calls := fun _ => .idle
    functors := [] }

section

variable [DecidableEq T]

def setCall (s : SharedConnection T) (t : T) (c : InCall) : SharedConnection T :=
  { s with calls := Function.update s.calls t c }

/-- The test of `state_` (lines 51, 63, 78 and 151). -/
def test (s : SharedConnection T) (t : T) (op : Op) : SharedConnection T :=
  if s.session.conn.state = .kConnected then
    match op with
    | .send _ => s.setCall t (.posting op)
    | .shutdown => s.setCall t .tested
  else s

/-- Line 152. -/
def setState (s : SharedConnection T) (t : T) : SharedConnection T :=
  { s with session := s.session.setState .kDisconnecting }.setCall t (.posting .shutdown)

/-- `runInLoop` (`net/event_loop.cpp` lines 72–78). -/
def post (s : SharedConnection T) (t : T) (w : WriteResult) : Option (SharedConnection T) :=
  match (s.calls t).op with
  | none => none
  | some op =>
    if t = s.loopThread then
      (op.exec s.session w).map fun session => { s with session := session }.setCall t .idle
    else some ({ s with functors := s.functors ++ [op] }.setCall t .idle)

def runFunctor (s : SharedConnection T) (w : WriteResult) : Option (SharedConnection T) :=
  match s.functors with
  | [] => none
  | op :: rest =>
    (op.exec s.session w).map fun session => { s with session := session, functors := rest }

/-- The end-of-file is the event that closes. -/
def loop (s : SharedConnection T) (e : ConnEvent) : Option (SharedConnection T) :=
  (e.step s.session).map fun session =>
    { s with session := session, stage := if e = .handleRead (.data []) then .closed else s.stage }

def step (s : SharedConnection T) : SharedEvent T → Option (SharedConnection T)
  | .connectEstablished => s.session.connectEstablished.map fun session =>
      { s with session := session, stage := .registered }
  | .test t op => some (s.test t op)
  | .setState t => some (s.setState t)
  | .post t w => s.post t w
  | .runFunctor w => s.runFunctor w
  | .loop e => s.loop e
  | .destroy =>
    if s.session.conn.state = .kDisconnected then some { s with stage := .destroyed } else none

end

/-- A thread in a call has a pointer and goes on with its call; the loop thread does nothing else
    meanwhile. Handlers run while the channel is registered, `connectEstablished` runs once. The
    connection is destroyed when `removeConnection` has run and no thread has a pointer. -/
def Legal (s : SharedConnection T) : SharedEvent T → Prop
  | .connectEstablished => s.stage = .created
  | .test t _ => s.stage ≠ .destroyed ∧ s.calls t = .idle
  | .setState t => s.calls t = .tested
  | .post t w => ∃ op ∈ (s.calls t).op, t = s.loopThread → op.Sized s.session w
  | .runFunctor w => s.stage ≠ .destroyed ∧ s.calls s.loopThread = .idle ∧
    ∃ op ∈ s.functors.head?, op.Sized s.session w
  | .loop e => (s.stage = .registered ∨ s.stage = .closed ∧ e.isHandler = false) ∧
    e.isFunctor = false ∧ s.calls s.loopThread = .idle ∧ e.Sized s.session
  | .destroy => s.stage = .closed ∧ ∀ t, s.calls t = .idle

instance [DecidableEq T] [Fintype T] (s : SharedConnection T) : ∀ e, Decidable (s.Legal e)
  | .connectEstablished => inferInstanceAs (Decidable (_ = _))
  | .test _ _ => inferInstanceAs (Decidable (_ ∧ _))
  | .setState _ => inferInstanceAs (Decidable (_ = _))
  | .post t w => inferInstanceAs
      (Decidable (∃ op ∈ (s.calls t).op, t = s.loopThread → op.Sized s.session w))
  | .runFunctor w => inferInstanceAs
      (Decidable (_ ∧ _ ∧ ∃ op ∈ s.functors.head?, op.Sized s.session w))
  | .loop _ => inferInstanceAs (Decidable (_ ∧ _ ∧ _ ∧ _))
  | .destroy => inferInstanceAs (Decidable (_ ∧ ∀ t, s.calls t = .idle))

end SharedConnection

/-! ## The session on the loop thread -/

namespace Session

variable {s s' : Session} {w : WriteResult}

/-- A functor keeps `state_` and does not close. -/
theorem exec_spec (h : s.Core) {op : Op} (hz : op.Sized s w) :
    ∃ s', op.exec s w = some s' ∧ s'.Core ∧ (s.Promised → s'.Promised) ∧
      s'.conn.state = s.conn.state ∧ s.Quiet s' := by
  cases op with
  | send message =>
    by_cases hst : s.conn.state = .kDisconnected
    · exact ⟨s, if_pos hst, h, id, rfl, Quiet.refl s⟩
    · obtain ⟨s', hs', hsends⟩ := sendInLoop_spec h hst hz.1 hz.2
      exact ⟨s', hs', hsends.core h, hsends.promised, hsends.state_eq, quiet_sendInLoop hs'⟩
  | shutdown =>
    exact ⟨s.shutdownInLoop, rfl, h.shutdownInLoop.toCore, fun _ => h.shutdownInLoop.halfClose,
      by rw [shutdownInLoop_conn], quiet_shutdownInLoop s⟩

theorem possible_of_sized {e : ConnEvent} (hz : e.Sized s)
    (hlive : e.isHandler = true → s.conn.Live) : e.Possible s := by
  cases e with
  | send data w => exact hz
  | sendInLoop data w => exact hz
  | shutdown => trivial
  | handleWrite w => exact ⟨hlive rfl, hz⟩
  | handleRead r => exact ⟨hlive rfl, hz⟩

end Session

end XWeb.Net
