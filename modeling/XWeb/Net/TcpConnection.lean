import XWeb.Net.BufferQueue
import XWeb.Net.Channel

/-!
# `TcpConnection`

Model of `net/tcp_connection.cpp` on the loop thread. A `Session` is a connection with the log
of what it did to the outside: system calls on its socket, requests to the loop, calls of user
callbacks. Each log entry keeps the connection as it was at that moment. The outcome of a
system call comes with the event that makes it.

User callbacks do not call back into the connection here: a callback is one entry of the log.
`none` is a failed `assert`.

* `ConnEvent.step`: one event of the loop thread.
* `ConnEvent.Possible`: what the kernel and the poller guarantee about an event.
* `accepted`, `committed`: the bytes `write()` has accepted, and those `sendInLoop` has taken
  charge of.
-/

namespace XWeb.Net

open XWeb.Lib

/-! ## Data -/

/-- `TcpConnection::StateE` (`net/tcp_connection.h` line 18). -/
inductive StateE
  | kDisconnected
  | kConnecting
  | kConnected
  | kDisconnecting
  deriving DecidableEq

/-- What `write()` returns: a count, or `-1` and `errno`. -/
inductive WriteResult
  | ok (n : ℕ)
  | fail (errno : ℕ)
  deriving DecidableEq

def EWOULDBLOCK : ℕ := 11
def EPIPE : ℕ := 32
def ECONNRESET : ℕ := 104

/-- The test of `errno` in `sendInLoop` (lines 115–120). -/
def WriteResult.isFault : WriteResult → Bool
  | .ok _ => false
  | .fail errno => errno ≠ EWOULDBLOCK && (errno = EPIPE || errno = ECONNRESET)

/-- `write()` accepts at most the bytes it is given. -/
def WriteResult.Within (len : ℕ) : WriteResult → Prop
  | .ok n => n ≤ len
  | .fail _ => True

instance (len : ℕ) (w : WriteResult) : Decidable (w.Within len) := by
  cases w <;> unfold WriteResult.Within <;> infer_instance

/-- The members of `class TcpConnection` (`net/tcp_connection.h` lines 69–83) that its code
    tests. A callback is represented by whether it is set. -/
structure TcpConnection where
  state : StateE
  channel : Channel
  highWaterMark : ℕ
  writeCompleteCallback : Bool
  highWaterMarkCallback : Bool
  inputBuffer : Buffer
  outputBuffer : Buffer
  deriving DecidableEq

/-- Established and not closed: the channel is registered. -/
def TcpConnection.Live (c : TcpConnection) : Prop :=
  c.state = .kConnected ∨ c.state = .kDisconnecting

instance (c : TcpConnection) : Decidable c.Live := by unfold TcpConnection.Live; infer_instance

/-- What a connection does to the outside. `commit data` is not an action of the code: it
    marks the moment from which `sendInLoop` owes `data` to the peer, right after a direct
    write that did not fault, or at once when there is no direct write. -/
inductive Io
  | write (data : Bytes) (result : WriteResult)
  | commit (data : Bytes)
  | shutdownWrite
  | updateChannel
  | removeChannel
  | connectionCallback
  | messageCallback
  | writeCompleteCallback
  | highWaterMarkCallback (n : ℕ)
  | closeCallback
  deriving DecidableEq

/-- An action and the connection at that moment. -/
structure Entry where
  io : Io
  conn : TcpConnection
  deriving DecidableEq

structure Session where
  conn : TcpConnection
  log : List Entry
  deriving DecidableEq

/-- The bytes `write()` has accepted. -/
def accepted (log : List Entry) : Bytes :=
  log.flatMap fun e => match e.io with
    | .write data (.ok n) => data.take n
    | _ => []

/-- The bytes of every message `sendInLoop` has taken charge of. -/
def committed (log : List Entry) : Bytes :=
  log.flatMap fun e => match e.io with
    | .commit data => data
    | _ => []

/-- `shutdownWrite()` has been called. -/
def halfClosed (log : List Entry) : Prop := ∃ e ∈ log, e.io = .shutdownWrite

/-! ## The member functions -/

/-- The constructor (`net/tcp_connection.cpp` lines 12–28); `wcc` and `hwm` tell whether the
    write-complete and the high-water-mark callbacks are set afterwards. -/
def TcpConnection.construct (activeEvents : Flags) (sockfd : ℤ) (wcc hwm : Bool) : TcpConnection :=
  { state := .kConnecting
    channel := Channel.construct activeEvents sockfd false
    highWaterMark := 64 * 1024 * 1024
    writeCompleteCallback := wcc
    highWaterMarkCallback := hwm
    inputBuffer := Buffer.init
    outputBuffer := Buffer.init }

namespace Session

def emit (s : Session) (io : Io) : Session := { s with log := s.log ++ [⟨io, s.conn⟩] }

def setState (s : Session) (st : StateE) : Session := { s with conn := { s.conn with state := st } }

def setEvent (s : Session) (event : Flags) : Session :=
  { s with conn := { s.conn with channel := s.conn.channel.setEvent event } }

def setInput (s : Session) (b : Buffer) : Session := { s with conn := { s.conn with inputBuffer := b } }

def setOutput (s : Session) (b : Buffer) : Session :=
  { s with conn := { s.conn with outputBuffer := b } }

@[simp] theorem emit_conn (s : Session) (io : Io) : (s.emit io).conn = s.conn := rfl

@[simp] theorem emit_log (s : Session) (io : Io) : (s.emit io).log = s.log ++ [⟨io, s.conn⟩] := rfl

@[simp] theorem setState_log (s : Session) (st : StateE) : (s.setState st).log = s.log := rfl

@[simp] theorem setEvent_log (s : Session) (e : Flags) : (s.setEvent e).log = s.log := rfl

@[simp] theorem setInput_log (s : Session) (b : Buffer) : (s.setInput b).log = s.log := rfl

@[simp] theorem setOutput_log (s : Session) (b : Buffer) : (s.setOutput b).log = s.log := rfl

/-- `if (writeCompleteCallback_) loop_->runInLoop(std::bind(writeCompleteCallback_, …))` on the
    loop thread. -/
def writeComplete (s : Session) : Session :=
  if s.conn.writeCompleteCallback then s.emit .writeCompleteCallback else s

/-- `connectEstablished` (lines 141–148). -/
def connectEstablished (s : Session) : Option Session :=
  if s.conn.state = .kConnecting then
    some ((((s.setState .kConnected).setEvent CHANNEL_READ).emit .updateChannel).emit
      .connectionCallback)
  else none

/-- `shutdownInLoop` (lines 237–244). -/
def shutdownInLoop (s : Session) : Session :=
  if s.conn.channel.isWriting then s else s.emit .shutdownWrite

/-- `shutdown` (lines 150–155). -/
def shutdown (s : Session) : Session :=
  if s.conn.state = .kConnected then (s.setState .kDisconnecting).shutdownInLoop else s

/-- The local variables of `sendInLoop` after its direct write. -/
structure Direct where
  session : Session
  nwrote : ℕ
  remaining : ℕ
  faultError : Bool

/-- The direct write of `sendInLoop` (lines 104–122). -/
def directWrite (s : Session) (data : Bytes) (w : WriteResult) : Direct :=
  if ¬ s.conn.channel.isWriting ∧ s.conn.outputBuffer.readableBytes = 0 then
    let s := s.emit (.write data w)
    match w with
    | .ok n =>
      let remaining := sizeSub data.length n
      let s := s.emit (.commit data)
      ⟨if remaining = 0 then s.writeComplete else s, n, remaining, false⟩
    | .fail _ =>
      ⟨if w.isFault then s else s.emit (.commit data), 0, data.length, w.isFault⟩
  else ⟨s.emit (.commit data), 0, data.length, false⟩

/-- The high-water-mark test of `sendInLoop` (lines 125–130), before `remaining` bytes are
    queued. -/
def highWater (s : Session) (remaining : ℕ) : Session :=
  let oldLen := s.conn.outputBuffer.readableBytes
  if s.conn.highWaterMark ≤ sizeAdd oldLen remaining ∧ oldLen < s.conn.highWaterMark ∧
      s.conn.highWaterMarkCallback then
    s.emit (.highWaterMarkCallback (sizeAdd oldLen remaining))
  else s

/-- The rest of `sendInLoop` (lines 124–136), for the `remaining` bytes `rest`. -/
def queueRest (s : Session) (rest : Bytes) : Option Session := do
  let s := s.highWater rest.length
  let b ← s.conn.outputBuffer.append rest
  let s := s.setOutput b
  if s.conn.channel.isWriting then some s
  else some ((s.setEvent (s.conn.channel.events ||| CHANNEL_WRITE)).emit .updateChannel)

/-- `sendInLoop(const void* data, size_t len)` (lines 95–137). -/
def sendInLoop (s : Session) (data : Bytes) (w : WriteResult) : Option Session :=
  if s.conn.state = .kDisconnected then some s
  else
    let d := s.directWrite data w
    if d.remaining ≤ data.length then
      if ¬ d.faultError ∧ 0 < d.remaining then d.session.queueRest (data.drop d.nwrote)
      else some d.session
    else none

/-- `send` on the loop thread (lines 50–89). -/
def send (s : Session) (data : Bytes) (w : WriteResult) : Option Session :=
  if s.conn.state = .kConnected then s.sendInLoop data w else some s

/-- The end of `handleWrite` once the buffer has been drained (lines 182–189). -/
def drained (s : Session) : Session :=
  let s := (s.setEvent (s.conn.channel.events &&& lnot CHANNEL_WRITE)).emit .updateChannel
  let s := s.writeComplete
  if s.conn.state = .kDisconnecting then s.shutdownInLoop else s

/-- `handleWrite` (lines 175–200). -/
def handleWrite (s : Session) (w : WriteResult) : Option Session :=
  if s.conn.channel.isWriting then
    let s := s.emit (.write s.conn.outputBuffer.contents w)
    match w with
    | .ok n =>
      if 0 < n then do
        let b ← s.conn.outputBuffer.retrieve n
        let s := s.setOutput b
        if b.readableBytes = 0 then some s.drained else some s
      else some s
    | .fail _ => some s
  else some s

/-- `handleClose` (lines 203–211). -/
def handleClose (s : Session) : Option Session :=
  if s.conn.state = .kConnected ∨ s.conn.state = .kDisconnecting then
    some (((s.setState .kDisconnected).emit .removeChannel).emit .closeCallback)
  else none

/-- `handleRead` (lines 158–173). `handleError` only logs. -/
def handleRead (s : Session) (r : ReadResult) : Option Session := do
  let b ← s.conn.inputBuffer.readFd r
  let s := s.setInput b
  match r with
  | .data [] => s.handleClose
  | .data _ => some (s.emit .messageCallback)
  | .error _ => some s

/-! ## What the handlers do -/

/-- `handleWrite` does nothing, only writes, or writes and takes bytes out of the buffer. -/
theorem handleWrite_cases {s s' : Session} {w : WriteResult} (hs : s.handleWrite w = some s') :
    s.conn.channel.isWriting = false ∧ s' = s ∨
    s.conn.channel.isWriting = true ∧ (s' = s.emit (.write s.conn.outputBuffer.contents w) ∨
      ∃ n b, w = .ok n ∧ s.conn.outputBuffer.retrieve n = some b ∧
        (b.readableBytes ≠ 0 ∧ s' = (s.emit (.write s.conn.outputBuffer.contents w)).setOutput b ∨
          b.readableBytes = 0 ∧
            s' = ((s.emit (.write s.conn.outputBuffer.contents w)).setOutput b).drained)) := by
  unfold handleWrite at hs
  split at hs
  · rename_i hwriting
    refine Or.inr ⟨hwriting, ?_⟩
    cases w with
    | ok n =>
      dsimp only at hs
      split_ifs at hs
      · obtain ⟨b, hb, hs⟩ := Option.bind_eq_some_iff.mp hs
        refine Or.inr ⟨n, b, rfl, hb, ?_⟩
        split at hs
        · rename_i h0
          exact Or.inr ⟨h0, (Option.some.inj hs).symm⟩
        · rename_i h0
          exact Or.inl ⟨h0, (Option.some.inj hs).symm⟩
      · exact Or.inl (Option.some.inj hs).symm
    | fail errno => exact Or.inl (Option.some.inj hs).symm
  · rename_i hwriting
    exact Or.inl ⟨by simpa using hwriting, (Option.some.inj hs).symm⟩

/-- `handleRead` fills the input buffer; then it calls back or closes. -/
theorem handleRead_cases {s s' : Session} {r : ReadResult} (hs : s.handleRead r = some s') :
    ∃ b, s.conn.inputBuffer.readFd r = some b ∧
      (r ≠ .data [] ∧ (s' = s.setInput b ∨ s' = (s.setInput b).emit .messageCallback) ∨
        r = .data [] ∧ s.conn.Live ∧
          s' = (((s.setInput b).setState .kDisconnected).emit .removeChannel).emit
            .closeCallback) := by
  obtain ⟨b, hb, hs⟩ := Option.bind_eq_some_iff.mp hs
  refine ⟨b, hb, ?_⟩
  match r, hs with
  | .error errno, hs => exact Or.inl ⟨by simp, Or.inl (Option.some.inj hs).symm⟩
  | .data (x :: xs), hs => exact Or.inl ⟨by simp, Or.inr (Option.some.inj hs).symm⟩
  | .data [], hs =>
    dsimp only at hs
    unfold handleClose at hs
    split_ifs at hs with hlive
    exact Or.inr ⟨rfl, hlive, (Option.some.inj hs).symm⟩

end Session

/-! ## Events -/

/-- An event on the loop thread: a call of `send` or `shutdown`, a queued `sendInLoop` functor,
    or a call of a handler by the channel. -/
inductive ConnEvent
  | send (data : Bytes) (w : WriteResult)
  | sendInLoop (data : Bytes) (w : WriteResult)
  | shutdown
  | handleWrite (w : WriteResult)
  | handleRead (r : ReadResult)
  deriving DecidableEq

namespace ConnEvent

def step (s : Session) : ConnEvent → Option Session
  | send data w => s.send data w
  | sendInLoop data w => s.sendInLoop data w
  | shutdown => some s.shutdown
  | handleWrite w => s.handleWrite w
  | handleRead r => s.handleRead r

/-- What the kernel and the poller guarantee: a count is at most what was asked for, handlers
    run only while the channel is registered, and no buffer comes near `2^64` bytes. -/
def Possible (s : Session) : ConnEvent → Prop
  | send data w => w.Within data.length ∧ s.conn.outputBuffer.Fits data.length
  | sendInLoop data w => w.Within data.length ∧ s.conn.outputBuffer.Fits data.length
  | shutdown => True
  | handleWrite w => s.conn.Live ∧ w.Within s.conn.outputBuffer.readableBytes
  | handleRead r => s.conn.Live ∧ (BufferOp.readFd r).Pre s.conn.inputBuffer

instance (s : Session) (e : ConnEvent) : Decidable (e.Possible s) := by
  cases e <;> unfold Possible <;> infer_instance

end ConnEvent

/-- A connection that `connectEstablished` has just put into service. -/
def Session.established (activeEvents : Flags) (sockfd : ℤ) (wcc hwm : Bool) : Session :=
  ((((⟨TcpConnection.construct activeEvents sockfd wcc hwm, []⟩ : Session).setState
    .kConnected).setEvent CHANNEL_READ).emit .updateChannel).emit .connectionCallback

theorem Session.connectEstablished_construct (activeEvents : Flags) (sockfd : ℤ) (wcc hwm : Bool) :
    Session.connectEstablished ⟨TcpConnection.construct activeEvents sockfd wcc hwm, []⟩ =
      some (Session.established activeEvents sockfd wcc hwm) := rfl

end XWeb.Net
