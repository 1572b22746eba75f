import XWeb.Lib.Decimal
import XWeb.Net.Epoller
import XWeb.Net.OutputStream

/-!
# `TcpServer`

Model of `net/tcp_server.cpp` and `net/acceptor.cpp` on the loop thread, over `Epoller` and the
descriptors that are open in the process. A connection is a `Session`; what it logs, the poller and
the server see. Its address is also that of its channel. `last_events_` of its channel is only
logged by the code and is left out.

`accept()` takes its result from the event. `epoll_ctl` succeeds for open descriptors, and closing
a descriptor takes it out of the interest list. `none` is a failed `assert`, or an overflow of
`nextConnId_`.

* `newConnection`, `removeConnection`: what the server does with a connection.
* `perform`: what one event of a connection does to the server and the poller.
* `destructor`: `~TcpServer`.
* `Session.quiet_or_closes`: an event leaves the connection where it is, or closes it.
-/

namespace XWeb.Net

open XWeb.Lib

/-! ## Data -/

/-- A `TcpConnection` of the server. `held` tells whether user code keeps a pointer to it. -/
structure Connection where
  name : Bytes
  session : Session
  held : Bool

def Connection.fd (c : Connection) : ℤ := c.session.conn.channel.fd

/-- The addresses of the poller's wakeup channel and of the acceptor's channel. -/
def wakeupAddress : ℕ := 0
def acceptAddress : ℕ := 1

/-- `class TcpServer` and its acceptor, the connections that have not been destroyed, the poller and
    the open descriptors. -/
structure TcpServer where
  port : ℤ
  nextConnId : ℕ
  writeCompleteCallback : Bool
  acceptChannel : Channel
  connMap : List (Bytes × ℕ)
  conns : Heap Connection
  epoller : Epoller
  isOpen : ℤ → Bool

/-- `"%d#%d"` (`net/tcp_server.cpp` line 39). -/
def connName (port : ℤ) (id : ℕ) : Bytes := decimalInt port ++ 35 :: decimal id

namespace TcpServer

/-! ## The poller and the descriptors -/

/-- `EventLoop::updateChannel`; `stack` is what the uninitialised `epoll_event` holds. -/
def updateChannel (s : TcpServer) (p : ℕ) (stack : Flags) (c : Channel) : TcpServer :=
  { s with epoller := (s.epoller.update ⟨stack, true, s.isOpen c.fd⟩ p c).1 }

/-- `EventLoop::removeChannel`. -/
def removeChannel (s : TcpServer) (c : Channel) : TcpServer :=
  { s with epoller := s.epoller.remove ⟨0#32, true, s.isOpen c.fd⟩ c }

/-- `close(fd)`. -/
def close (s : TcpServer) (fd : ℤ) : TcpServer :=
  if s.isOpen fd then
    { s with
      isOpen := Function.update s.isOpen fd false
      epoller := { s.epoller with interest := Function.update s.epoller.interest fd none } }
  else s

/-! ## Connections -/

/-- `removeConnection` (lines 49–52). -/
def removeConnection (s : TcpServer) (name : Bytes) : TcpServer :=
  { s with connMap := s.connMap.filter fun x => x.1 ≠ name }

/-- What the poller and the server see of an action of the connection `name` at `p`. -/
def react (p : ℕ) (name : Bytes) (stack : Flags) (s : TcpServer) (e : Entry) : TcpServer :=
  match e.io with
  | .updateChannel => s.updateChannel p stack e.conn.channel
  | .removeChannel => s.removeChannel e.conn.channel
  | .closeCallback => s.removeConnection name
  | _ => s

/-- The connection at `p` goes on to `session`, with everything it has done on the way. -/
def perform (s : TcpServer) (p : ℕ) (c : Connection) (session : Session) (stack : Flags) :
    TcpServer :=
  (session.log.drop c.session.log.length).foldl (react p c.name stack)
    { s with conns := s.conns.set p { c with session := session } }

/-- `conn_map_` has an entry for `p`. -/
def mapped (s : TcpServer) (p : ℕ) : Bool := s.connMap.any fun x => x.2 = p

/-- A pointer to the connection at `p` has gone. With the last one `~TcpConnection` runs
    (`net/tcp_connection.cpp` lines 30–35), and `~Socket` closes the descriptor. -/
def collect (s : TcpServer) (p : ℕ) : Option TcpServer :=
  match s.conns.cell p with
  | none => some s
  | some c =>
    if c.held || s.mapped p then some s
    else if c.session.conn.state = .kDisconnected then
      some ({ s with conns := s.conns.free p }.close c.fd)
    else none

/-- `newConnection` (lines 36–47). `hwm` and `held` tell whether the connection callback sets a
    high-water-mark callback and keeps the pointer. A name is not used twice. -/
def newConnection (s : TcpServer) (sockfd : ℤ) (activeEvents stack : Flags) (hwm held : Bool) :
    Option TcpServer :=
  if s.nextConnId + 1 < 2 ^ 31 then
    let name := connName s.port s.nextConnId
    let p := s.conns.next
    let c : Connection :=
      { name
        session := ⟨TcpConnection.construct activeEvents sockfd s.writeCompleteCallback hwm, []⟩
        held }
    let s := { s with
      nextConnId := s.nextConnId + 1
      conns := s.conns.alloc c
      connMap := s.connMap ++ [(name, p)] }
    c.session.connectEstablished.map fun session => s.perform p c session stack
  else none

/-- `Acceptor::handleConn` (`net/acceptor.cpp` lines 48–56): a descriptor that `accept()` returns is
    open; with `-1` the callback is called as well. -/
def handleConn (s : TcpServer) (connfd : ℤ) (activeEvents stack : Flags) (hwm held : Bool) :
    Option TcpServer :=
  let s := if 0 ≤ connfd then { s with isOpen := Function.update s.isOpen connfd true } else s
  s.newConnection connfd activeEvents stack hwm held

end TcpServer

/-! ## Events -/

inductive ServerEvent
  /-- the listening socket is readable and `accept()` returns `connfd` -/
  | accept (connfd : ℤ) (activeEvents stack : Flags) (hwm held : Bool)
  /-- an event of the connection at `p` -/
  | connection (p : ℕ) (e : ConnEvent) (stack : Flags)
  /-- user code keeps a pointer to the connection at `p` -/
  | hold (p : ℕ)
  /-- user code lets go of its pointer -/
  | drop (p : ℕ)

/-- The event is a call by the channel. -/
def ConnEvent.isHandler : ConnEvent → Bool
  | .handleRead _ | .handleWrite _ => true
  | .send .. | .sendInLoop .. | .shutdown => false

namespace TcpServer

def step (s : TcpServer) : ServerEvent → Option TcpServer
  | .accept connfd activeEvents stack hwm held => s.handleConn connfd activeEvents stack hwm held
  | .connection p e stack =>
    match s.conns.cell p with
    | none => none
    | some c => (e.step c.session).bind fun session => (s.perform p c session stack).collect p
  | .hold p =>
    match s.conns.cell p with
    | none => none
    | some c => some { s with conns := s.conns.set p { c with held := true } }
  | .drop p =>
    match s.conns.cell p with
    | none => none
    | some c => { s with conns := s.conns.set p { c with held := false } }.collect p

/-- `accept()` returns a descriptor that was not open, or `-1`, and fewer than `2^31` connections
    are made. Handlers are called for registered channels. Pointers are kept and let go of by
    those who have one. -/
def Legal (s : TcpServer) : ServerEvent → Prop
  | .accept connfd _ _ _ _ =>
    (connfd = -1 ∨ 0 ≤ connfd ∧ s.isOpen connfd = false) ∧ s.nextConnId + 1 < 2 ^ 31
  | .connection p e _ => ∃ c ∈ s.conns.cell p, e.Possible c.session ∧
    (e.isHandler = true → s.epoller.channels c.fd = some p)
  | .hold p => s.conns.Live p
  | .drop p => ∃ c ∈ s.conns.cell p, c.held = true

instance (s : TcpServer) (e : ServerEvent) : Decidable (s.Legal e) := by
  cases e <;> unfold Legal <;> infer_instance

/-! ## Construction and destruction -/

/-- The descriptors at the start: those of the poller's wakeup channel and of the listening socket
    are open. -/
structure Setup where
  port : ℤ
  writeCompleteCallback : Bool
  wakeupFd : ℤ
  listenFd : ℤ
  isOpen : ℤ → Bool
  wakeup_open : isOpen wakeupFd = true
  listen_open : isOpen listenFd = true
  distinct : wakeupFd ≠ listenFd
  valid : ∀ fd, fd < 0 → isOpen fd = false

/-- A channel as it is registered by its constructor's caller. -/
def registered (fd : ℤ) (isListen : Bool) : Channel :=
  (Channel.construct 0#32 fd isListen).setEvent (if isListen then CHANNEL_CONN else CHANNEL_READ)

/-- The poller after `Epoller::Epoller` and the server after `TcpServer::TcpServer`. -/
def construct (d : Setup) : TcpServer :=
  let s : TcpServer :=
    { port := d.port
      nextConnId := 0
      writeCompleteCallback := d.writeCompleteCallback
      acceptChannel := registered d.listenFd true
      connMap := []
      conns := ⟨fun _ => none, acceptAddress + 1, fun _ _ => rfl⟩
      epoller := Epoller.init
      isOpen := d.isOpen }
  let s := s.updateChannel wakeupAddress 0#32 (registered d.wakeupFd false)
  s.updateChannel acceptAddress 0#32 s.acceptChannel

/-- One round of the loop of `~TcpServer` (`net/tcp_server.cpp` lines 21–25). `stack` is not read:
    `shutdown` does not call the poller. The entry, which only keeps its name, counts as gone. -/
def release (s : TcpServer) (item : Bytes × ℕ) : Option TcpServer :=
  let s := { s with connMap := s.connMap.filter fun x => x.1 ≠ item.1 }
  match s.conns.cell item.2 with
  | none => none
  | some c => (s.perform item.2 c c.session.shutdown 0#32).collect item.2

/-- `~Acceptor` (`net/acceptor.cpp` lines 36–39), and `~Socket` of `accept_sock_`. -/
def destroyAcceptor (s : TcpServer) : TcpServer :=
  ((s.removeChannel s.acceptChannel).close s.acceptChannel.fd).close s.acceptChannel.fd

/-- `~TcpServer` (lines 18–26) and the destructors of its members. -/
def destructor (s : TcpServer) : Option TcpServer :=
  (s.connMap.foldlM release s).map destroyAcceptor

end TcpServer

/-! ## What an event of a connection does to the outside -/

namespace Session

/-- Any action but those of `handleClose`, made on the same descriptor. -/
def Ordinary (fd : ℤ) (e : Entry) : Prop :=
  e.io ≠ .removeChannel ∧ e.io ≠ .closeCallback ∧ e.conn.channel.fd = fd

/-- The descriptor stays, and the log grows by ordinary actions. -/
def Quiet (s s' : Session) : Prop :=
  s'.conn.channel.fd = s.conn.channel.fd ∧
    ∃ new, s'.log = s.log ++ new ∧ ∀ e ∈ new, Ordinary s.conn.channel.fd e

theorem Quiet.refl (s : Session) : s.Quiet s := ⟨rfl, [], by simp, by simp⟩

theorem Quiet.trans {s s' s'' : Session} (h : s.Quiet s') (h' : s'.Quiet s'') : s.Quiet s'' := by
  obtain ⟨hfd, new, hl, hn⟩ := h
  obtain ⟨hfd', new', hl', hn'⟩ := h'
  refine ⟨hfd'.trans hfd, new ++ new', by rw [hl', hl, List.append_assoc], fun e he => ?_⟩
  rcases List.mem_append.mp he with he | he
  · exact hn e he
  · exact hfd ▸ hn' e he

theorem quiet_emit (s : Session) {io : Io} (h : io ≠ .removeChannel) (h' : io ≠ .closeCallback) :
    s.Quiet (s.emit io) := ⟨rfl, [⟨io, s.conn⟩], rfl, by simpa [Ordinary] using ⟨h, h'⟩⟩

/-- A change of the state, the interest or a buffer. -/
theorem quiet_set (s : Session) {c : TcpConnection} (h : c.channel.fd = s.conn.channel.fd) :
    s.Quiet { s with conn := c } := ⟨h, [], by simp, by simp⟩

theorem quiet_writeComplete (s : Session) : s.Quiet s.writeComplete := by
  unfold writeComplete
  split_ifs
  · exact s.quiet_emit (by simp) (by simp)
  · exact Quiet.refl s

theorem quiet_shutdownInLoop (s : Session) : s.Quiet s.shutdownInLoop := by
  unfold shutdownInLoop
  split_ifs
  · exact Quiet.refl s
  · exact s.quiet_emit (by simp) (by simp)

theorem quiet_shutdown (s : Session) : s.Quiet s.shutdown := by
  unfold shutdown
  split_ifs
  · exact (s.quiet_set rfl).trans (quiet_shutdownInLoop _)
  · exact Quiet.refl s

theorem quiet_directWrite (s : Session) (data : Bytes) (w : WriteResult) :
    s.Quiet (s.directWrite data w).session := by
  have hcommit : ∀ t : Session, t.Quiet (t.emit (.commit data)) := fun t =>
    t.quiet_emit (by simp) (by simp)
  have hwrite : s.Quiet (s.emit (.write data w)) := s.quiet_emit (by simp) (by simp)
  unfold directWrite
  split
  · cases w with
    | ok n =>
      simp only
      split_ifs
      · exact (hwrite.trans (hcommit _)).trans (quiet_writeComplete _)
      · exact hwrite.trans (hcommit _)
    | fail errno =>
      simp only
      split_ifs
      · exact hwrite
      · exact hwrite.trans (hcommit _)
  · exact hcommit s

theorem quiet_highWater (s : Session) (n : ℕ) : s.Quiet (s.highWater n) := by
  unfold highWater
  dsimp only
  split_ifs
  · exact s.quiet_emit (by simp) (by simp)
  · exact Quiet.refl s

theorem quiet_queueRest {s s' : Session} {rest : Bytes} (hs : s.queueRest rest = some s') :
    s.Quiet s' := by
  obtain ⟨b, -, hs⟩ := Option.bind_eq_some_iff.mp hs
  have hset : s.Quiet ((s.highWater rest.length).setOutput b) :=
    (s.quiet_highWater rest.length).trans (quiet_set _ rfl)
  dsimp only at hs
  split at hs
  · rw [← Option.some.inj hs]
    exact hset
  · rw [← Option.some.inj hs]
    exact (hset.trans (quiet_set _ rfl)).trans (quiet_emit _ (by simp) (by simp))

theorem quiet_sendInLoop {s s' : Session} {data : Bytes} {w : WriteResult}
    (hs : s.sendInLoop data w = some s') : s.Quiet s' := by
  unfold sendInLoop at hs
  dsimp only at hs
  split_ifs at hs
  · rw [← Option.some.inj hs]
    exact Quiet.refl s
  · exact (s.quiet_directWrite data w).trans (quiet_queueRest hs)
  · rw [← Option.some.inj hs]
    exact s.quiet_directWrite data w

theorem quiet_drained (s : Session) : s.Quiet s.drained := by
  have hevent : s.Quiet (s.setEvent (s.conn.channel.events &&& lnot CHANNEL_WRITE)) :=
    s.quiet_set rfl
  have hupdate : s.Quiet
      ((s.setEvent (s.conn.channel.events &&& lnot CHANNEL_WRITE)).emit .updateChannel) :=
    hevent.trans (quiet_emit _ (by simp) (by simp))
  have hset := hupdate.trans (quiet_writeComplete _)
  unfold drained
  dsimp only
  split_ifs
  · exact hset.trans (quiet_shutdownInLoop _)
  · exact hset

theorem quiet_handleWrite {s s' : Session} {w : WriteResult} (hs : s.handleWrite w = some s') :
    s.Quiet s' := by
  have hwrite : s.Quiet (s.emit (.write s.conn.outputBuffer.contents w)) :=
    s.quiet_emit (by simp) (by simp)
  rcases handleWrite_cases hs with ⟨-, rfl⟩ | ⟨-, rfl | ⟨n, b, -, -, ⟨-, rfl⟩ | ⟨-, rfl⟩⟩⟩
  · exact Quiet.refl _
  · exact hwrite
  · exact hwrite.trans (quiet_set _ rfl)
  · exact (hwrite.trans (quiet_set _ rfl)).trans (quiet_drained _)

/-- `handleClose` with the descriptor it closes. -/
structure Closes (s s' : Session) : Prop where
  live : s.conn.Live
  state : s'.conn.state = .kDisconnected
  fd_eq : s'.conn.channel.fd = s.conn.channel.fd
  log_eq : s'.log = s.log ++ [⟨.removeChannel, s'.conn⟩, ⟨.closeCallback, s'.conn⟩]

/-- An event is quiet, or it is the end-of-file that closes the connection. -/
theorem quiet_or_closes {s s' : Session} {e : ConnEvent} (hs : e.step s = some s') :
    s.Quiet s' ∧ e ≠ .handleRead (.data []) ∨ s.Closes s' ∧ e = .handleRead (.data []) := by
  cases e with
  | send data w =>
    refine Or.inl ⟨?_, by simp⟩
    unfold ConnEvent.step send at hs
    split_ifs at hs
    · exact quiet_sendInLoop hs
    · rw [← Option.some.inj hs]
      exact Quiet.refl s
  | sendInLoop data w => exact Or.inl ⟨quiet_sendInLoop hs, by simp⟩
  | shutdown =>
    rw [← Option.some.inj hs]
    exact Or.inl ⟨s.quiet_shutdown, by simp⟩
  | handleWrite w => exact Or.inl ⟨quiet_handleWrite hs, by simp⟩
  | handleRead r =>
    obtain ⟨b, -, ⟨hr, rfl | rfl⟩ | ⟨rfl, hlive, rfl⟩⟩ := handleRead_cases hs
    · exact Or.inl ⟨s.quiet_set rfl, by simpa using hr⟩
    · exact Or.inl ⟨(s.quiet_set rfl).trans (quiet_emit _ (by simp) (by simp)), by simpa using hr⟩
    · exact Or.inr ⟨⟨hlive, rfl, rfl, by simp⟩, rfl⟩

/-- Nothing happens to a connection that has been closed. -/
theorem step_disconnected {s s' : Session} {e : ConnEvent}
    (hst : s.conn.state = .kDisconnected) (hp : e.Possible s)
    (hs : e.step s = some s') : s' = s := by
  have hdead : ¬ s.conn.Live := by simp [TcpConnection.Live, hst]
  cases e with
  | send data w =>
    exact (Option.some.inj ((if_neg (by rw [hst]; simp)).symm.trans hs)).symm
  | sendInLoop data w => exact (Option.some.inj ((if_pos hst).symm.trans hs)).symm
  | shutdown =>
    have hid : s.shutdown = s := if_neg (by rw [hst]; simp)
    exact (Option.some.inj hs).symm.trans hid
  | handleWrite w => exact absurd hp.1 hdead
  | handleRead r => exact absurd hp.1 hdead

end Session

end XWeb.Net
