import XWeb.Net.ConnectionMap
import XWeb.Net.Conversation

/-!
# A server and its clients

A `TcpServer` with any number of clients. A client may send before its connection is accepted.
`accept()` returns a descriptor that leads to the client, and the descriptor is used again after its
connection has been destroyed. What is read and written goes where the descriptor leads. Clients are
named by the addresses of their connections.

* `Turn.quiet_or_closes`: what an event and the calls of its callback are to the server.
* `Network.step`: a step of the loop thread, of user code or of a client.
* `Network.turn_spec`: a turn is one of the client's conversation, and the others stay as they are.
* `conversations_apart`: each client has a conversation of its own.
-/

namespace XWeb.Net

open XWeb.Lib

/-! ## Turns -/

namespace MessageCall

variable {s s' : Reader}

theorem exec_quiet (h : s.session.Inv) {c : MessageCall} (hs : c.exec s = some s') :
    s.session.Quiet s'.session := by
  cases c with
  | retrieve len =>
    obtain ⟨b, -, rfl⟩ := Option.map_eq_some_iff.mp hs
    exact Session.quiet_set _ rfl
  | retrieveAll =>
    obtain rfl := Option.some.inj hs
    exact Session.quiet_set _ rfl
  | retrieveAsString len =>
    obtain ⟨b, -, rfl⟩ := Option.map_eq_some_iff.mp hs
    exact Session.quiet_set _ rfl
  | retrieveAllAsString =>
    obtain ⟨b, -, rfl⟩ := Option.map_eq_some_iff.mp hs
    exact Session.quiet_set _ rfl
  | send data w =>
    obtain ⟨session, hsession, rfl⟩ := Option.map_eq_some_iff.mp hs
    obtain ⟨hquiet, -⟩ | ⟨-, hne⟩ := Session.quiet_or_closes (e := .send data w) hsession
    · exact hquiet
    · cases hne
  | sendBuffer w =>
    have hs : s.sendBuffer w = some s' := hs
    rw [Reader.sendBuffer_eq h.inWf] at hs
    split_ifs at hs
    · obtain ⟨session, hsession, rfl⟩ := Option.map_eq_some_iff.mp hs
      exact (Session.quiet_sendInLoop hsession).trans (Session.quiet_set _ rfl)
    · obtain rfl := Option.some.inj hs
      exact Session.quiet_set _ rfl
  | shutdown =>
    obtain rfl := Option.some.inj hs
    exact Session.quiet_shutdown _

theorem run_quiet (h : s.session.Inv) {cs : List MessageCall}
    (hp : Along exec (fun s c => c.Possible s) s cs) (hs : run exec s cs = some s') :
    s.session.Quiet s'.session := by
  refine (run_invariant_along (I := fun t => t.session.Inv ∧ s.session.Quiet t.session) ?_ cs s s'
    ⟨h, .refl _⟩ hp hs).2
  rintro t c t' ⟨hinv, hquiet⟩ hc ht'
  obtain ⟨u, hu, hserves⟩ := exec_spec hinv hc
  obtain rfl := Option.some.inj (hu.symm.trans ht')
  exact ⟨hserves.session.inv, hquiet.trans (exec_quiet hinv ht')⟩

end MessageCall

namespace Turn

variable {s s' : Reader} {t : Turn}

/-- A turn is quiet, or it is the end-of-file that closes the connection. -/
theorem quiet_or_closes (h : s.session.Inv) (hp : t.Possible s) (hs : t.step s = some s') :
    s.session.Quiet s'.session ∧ t.event ≠ .handleRead (.data []) ∨
      s.session.Closes s'.session ∧ t.event = .handleRead (.data []) := by
  obtain ⟨session, hevent, hok⟩ := Session.step_spec h.toCore hp.1
  unfold step at hs
  rw [hevent, Option.bind_some] at hs
  obtain ⟨hquiet, hne⟩ | ⟨hcloses, heof⟩ := Session.quiet_or_closes hevent
  · by_cases hin : t.incoming = []
    · rw [if_pos hin] at hs
      rw [← Option.some.inj hs]
      exact Or.inl ⟨hquiet, hne⟩
    · rw [if_neg hin] at hs
      have hcalls := MessageCall.run_quiet (s := { s with session }) (hok.inv h)
        (hp.2 hin session hevent) hs
      exact Or.inl ⟨hquiet.trans hcalls, hne⟩
  · have hin : t.incoming = [] := by
      rw [incoming, heof]
      rfl
    rw [if_pos hin] at hs
    rw [← Option.some.inj hs]
    exact Or.inr ⟨hcloses, heof⟩

/-- What is logged is done on the connection's descriptor. -/
theorem log_descriptor (h : s.session.Inv) (hp : t.Possible s) (hs : t.step s = some s') :
    ∃ new, s'.session.log = s.session.log ++ new ∧
      ∀ e ∈ new, e.conn.channel.fd = s.session.conn.channel.fd := by
  obtain ⟨⟨-, new, hlog, hnew⟩, -⟩ | ⟨hcloses, -⟩ := quiet_or_closes h hp hs
  · exact ⟨new, hlog, fun e he => (hnew e he).2.2⟩
  · refine ⟨_, hcloses.log_eq, fun e he => ?_⟩
    have hconn : e.conn = s'.session.conn := by
      obtain rfl | he := List.mem_cons.mp he
      · rfl
      · rw [List.mem_singleton.mp he]
    rw [hconn]
    exact hcloses.fd_eq

/-- Nothing happens to a connection that has been closed. -/
theorem step_disconnected (hst : s.session.conn.state = .kDisconnected) (hp : t.Possible s)
    (hs : t.step s = some s') : s'.session = s.session := by
  obtain ⟨session, hevent, hs⟩ := Option.bind_eq_some_iff.mp hs
  obtain rfl := Session.step_disconnected hst hp.1 hevent
  have hin : t.incoming = [] := by
    have hdead : ¬ s.session.conn.Live := by simp [TcpConnection.Live, hst]
    have hposs := hp.1
    unfold incoming
    cases he : t.event with
    | handleRead r =>
      rw [he] at hposs
      exact absurd hposs.1 hdead
    | send data w => rfl
    | sendInLoop data w => rfl
    | shutdown => rfl
    | handleWrite w => rfl
  rw [if_pos hin] at hs
  rw [← Option.some.inj hs]

end Turn

/-! ## A turn at the server -/

namespace TcpServer

variable {d : Setup} {s s' : TcpServer} {p : ℕ}

theorem close_conns (s : TcpServer) (fd : ℤ) : (s.close fd).conns = s.conns := by
  unfold close
  split
  · rfl
  · rfl

theorem perform_conns (s : TcpServer) (p : ℕ) (c : Connection) (session : Session) (stack : Flags) :
    (s.perform p c session stack).conns = s.conns.set p { c with session } := by
  have hfold : ∀ (es : List Entry) (t : TcpServer),
      (es.foldl (react p c.name stack) t).conns = t.conns := by
    intro es
    induction es with
    | nil => exact fun t => rfl
    | cons e es ih =>
      intro t
      rw [List.foldl_cons, ih]
      unfold react
      split <;> rfl
  exact hfold _ _

/-- `collect` destroys the connection at `p`, if it is closed, or nothing. -/
theorem collect_cells (hs : s.collect p = some s') :
    s'.conns.next = s.conns.next ∧ (∀ q, q ≠ p → s'.conns.cell q = s.conns.cell q) ∧
      (s'.conns.cell p = s.conns.cell p ∨ s'.conns.cell p = none ∧
        ∃ c, s.conns.cell p = some c ∧ c.session.conn.state = .kDisconnected) := by
  unfold collect at hs
  cases hc : s.conns.cell p with
  | none =>
    rw [hc] at hs
    obtain rfl := Option.some.inj hs
    exact ⟨rfl, fun _ _ => rfl, Or.inl hc⟩
  | some c =>
    rw [hc] at hs
    dsimp only at hs
    split_ifs at hs with howned hst
    · obtain rfl := Option.some.inj hs
      exact ⟨rfl, fun _ _ => rfl, Or.inl hc⟩
    · obtain rfl := Option.some.inj hs
      rw [close_conns]
      have hdead := (Heap.live_of_cell hc).dead_free
      exact ⟨rfl, fun q hq => Heap.cell_free_of_ne _ hq, Or.inr ⟨hdead.2, c, rfl, hst⟩⟩

/-- The server goes on with what a turn of the connection at `p` leads to. -/
theorem turn_spec (h : Inv d s) {c : Connection} (hc : s.conns.cell p = some c) {r r' : Reader}
    {t : Turn} (hr : r.session = c.session) (hp : t.Possible r) (hs : t.step r = some r')
    (hreg : t.event.isHandler = true → s.epoller.channels c.fd = some p) (stack : Flags) :
    ∃ s', (s.perform p c r'.session stack).collect p = some s' ∧ Inv d s' ∧ Within s s' := by
  have hinv : r.session.Inv := hr ▸ (h.conns p c hc).session
  obtain ⟨session, u, -, hu, hok, hadv, -⟩ := Turn.step_spec hinv hp
  obtain rfl := Option.some.inj (hu.symm.trans hs)
  obtain ⟨hquiet, hne⟩ | ⟨hcloses, heof⟩ := Turn.quiet_or_closes hinv hp hs
  · refine quiet_spec h hc (hr ▸ hquiet) hadv.inv ?_ (fun hst => ?_) stack
    · rw [hadv.live_iff, hok.live_iff, hr]
      exact and_iff_left hne
    · rw [← hr] at hst ⊢
      exact Turn.step_disconnected hst hp hs
  · have hhandler : t.event.isHandler = true := by rw [heof]; rfl
    exact closes_spec h hc (h.toCore.inService hc (hreg hhandler)) (hr ▸ hcloses) hadv.inv stack

end TcpServer

/-! ## Model -/

/-- A client, and what is under way between it and the descriptor that leads to it. -/
structure Client where
  toServer : Bytes
  /-- The client has closed its half. -/
  ended : Bool
  sent : Bytes
  toClient : Bytes
  received : Bytes

structure Network where
  server : TcpServer
  /-- The connection of a client after its last turn, with what its callbacks have taken. -/
  served : ℕ → Reader
  /-- Where an open descriptor leads. -/
  peer : ℤ → ℕ
  clients : ℕ → Client

inductive NetworkEvent
  /-- the listening socket is readable and `accept()` returns `connfd` -/
  | accept (connfd : ℤ) (activeEvents stack : Flags) (hwm held : Bool)
  /-- the loop thread, for the connection at `p` -/
  | turn (p : ℕ) (t : Turn) (stack : Flags)
  | hold (p : ℕ)
  | drop (p : ℕ)
  | send (k : ℕ) (bytes : Bytes)
  | shutdown (k : ℕ)
  | receive (k n : ℕ)

namespace Client

def start : Client :=
  { toServer := [], ended := false, sent := [], toClient := [], received := [] }

/-- The client and a connection. -/
def conversation (c : Client) (r : Reader) : Conversation :=
  { server := r, toServer := c.toServer, ended := c.ended, sent := c.sent, received := c.received }

/-- The server has read `n` bytes. -/
def readBy (c : Client) (n : ℕ) : Client := { c with toServer := c.toServer.drop n }

/-- `write()` has accepted the bytes. -/
def deliver (c : Client) (bytes : Bytes) : Client := { c with toClient := c.toClient ++ bytes }

def send (c : Client) (bytes : Bytes) : Client :=
  { c with toServer := c.toServer ++ bytes, sent := c.sent ++ bytes }

def shutdown (c : Client) : Client := { c with ended := true }

def receive (c : Client) (n : ℕ) : Client :=
  { c with toClient := c.toClient.drop n, received := c.received ++ c.toClient.take n }

end Client

namespace Network

def start (d : TcpServer.Setup) : Network :=
  { server := TcpServer.construct d
    served := fun _ => Reader.established 0#32 (-1) false false
    peer := fun _ => 0
    clients := fun _ => Client.start }

/-- What is written goes where the descriptor leads. -/
def transmit (peer : ℤ → ℕ) (clients : ℕ → Client) (e : Entry) : ℕ → Client :=
  Function.update clients (peer e.conn.channel.fd)
    ((clients (peer e.conn.channel.fd)).deliver (accepted [e]))

/-- The connection at `p` with what its callbacks have taken. -/
def reader (s : Network) (p : ℕ) (c : Connection) : Reader :=
  { s.served p with session := c.session }

def turn (s : Network) (p : ℕ) (t : Turn) (stack : Flags) : Option Network := do
  let c ← s.server.conns.cell p
  let r ← t.step (s.reader p c)
  let server ← (s.server.perform p c r.session stack).collect p
  let k := s.peer c.fd
  let clients := Function.update s.clients k ((s.clients k).readBy t.incoming.length)
  some { s with
    server
    served := Function.update s.served p r
    clients := (r.session.log.drop c.session.log.length).foldl (transmit s.peer) clients }

def step (s : Network) : NetworkEvent → Option Network
  | .accept connfd activeEvents stack hwm held =>
    (s.server.handleConn connfd activeEvents stack hwm held).map fun server =>
      { s with
        server
        served := Function.update s.served s.server.conns.next
          (Reader.established activeEvents connfd s.server.writeCompleteCallback hwm)
        peer := Function.update s.peer connfd s.server.conns.next }
  | .turn p t stack => s.turn p t stack
  | .hold p => (s.server.step (.hold p)).map fun server => { s with server }
  | .drop p => (s.server.step (.drop p)).map fun server => { s with server }
  | .send k bytes =>
    some { s with clients := Function.update s.clients k ((s.clients k).send bytes) }
  | .shutdown k => some { s with clients := Function.update s.clients k (s.clients k).shutdown }
  | .receive k n =>
    some { s with clients := Function.update s.clients k ((s.clients k).receive n) }

/-- `accept()` does not fail. What a connection reads is under way from where its descriptor
    leads. -/
def Enabled (s : Network) : NetworkEvent → Prop
  | .accept connfd activeEvents stack hwm held =>
    s.server.Legal (.accept connfd activeEvents stack hwm held) ∧ connfd ≠ -1
  | .turn p t _ => ∃ c ∈ s.server.conns.cell p,
    ((s.clients (s.peer c.fd)).conversation (s.reader p c)).Possible (.turn t) ∧
      (t.event.isHandler = true → s.server.epoller.channels c.fd = some p)
  | .hold p => s.server.Legal (.hold p)
  | .drop p => s.server.Legal (.drop p)
  | .send k _ => (s.clients k).ended = false
  | .shutdown _ | .receive .. => True

instance (s : Network) (e : NetworkEvent) : Decidable (s.Enabled e) := by
  cases e <;> unfold Enabled <;> infer_instance

end Network

/-! ## One client -/

namespace Client

/-- Every byte between the client and the connection is in one place. -/
structure Engaged (c : Client) (r : Reader) : Prop where
  conversation : (c.conversation r).Inv
  written : c.received ++ c.toClient = accepted r.session.log

/-- The client has not been accepted. -/
structure Waiting (c : Client) : Prop where
  toServer : c.toServer = c.sent
  toClient : c.toClient = []
  received : c.received = []

variable {c : Client} {r : Reader}

theorem deliver_deliver (c : Client) (a b : Bytes) : (c.deliver a).deliver b = c.deliver (a ++ b) := by
  show { c with toClient := c.toClient ++ a ++ b } = c.deliver (a ++ b)
  rw [List.append_assoc]
  rfl

theorem deliver_nil (c : Client) : c.deliver [] = c := by
  show { c with toClient := c.toClient ++ [] } = c
  rw [List.append_nil]

theorem Waiting.engaged (h : c.Waiting) (activeEvents : Flags) (sockfd : ℤ) (wcc hwm : Bool) :
    c.Engaged (Reader.established activeEvents sockfd wcc hwm) := by
  obtain ⟨hsession, hsettled, hstream, -, -⟩ :=
    Conversation.inv_start activeEvents sockfd wcc hwm
  have hempty : (Reader.established activeEvents sockfd wcc hwm).stream = [] := by
    rw [← List.append_nil (Reader.stream _)]
    exact hstream
  refine ⟨⟨hsession, hsettled, ?_, ?_, fun hdead => absurd (Or.inl rfl) hdead⟩, ?_⟩
  · show (Reader.established activeEvents sockfd wcc hwm).stream ++ c.toServer = c.sent
    rw [hempty, h.toServer]
    rfl
  · show c.received <+: _
    rw [h.received]
    exact List.nil_prefix
  · rw [h.received, h.toClient]
    rfl

theorem Engaged.toClient_eq (h : c.Engaged r) : (c.conversation r).toClient = c.toClient := by
  show (accepted r.session.log).drop c.received.length = c.toClient
  rw [← h.written, List.drop_left]

theorem Engaged.send (h : c.Engaged r) (hopen : c.ended = false) (bytes : Bytes) :
    (c.send bytes).Engaged r := by
  obtain ⟨s', hs, hinv⟩ := Conversation.step_spec h.conversation (e := .send bytes) hopen
  obtain rfl := Option.some.inj hs
  exact ⟨hinv, h.written⟩

theorem Engaged.shutdown (h : c.Engaged r) : c.shutdown.Engaged r := by
  obtain ⟨s', hs, hinv⟩ := Conversation.step_spec h.conversation (e := .shutdown) trivial
  obtain rfl := Option.some.inj hs
  exact ⟨hinv, h.written⟩

theorem Engaged.receive (h : c.Engaged r) (n : ℕ) : (c.receive n).Engaged r := by
  obtain ⟨s', hs, hinv⟩ := Conversation.step_spec h.conversation (e := .receive n) trivial
  obtain rfl := Option.some.inj hs
  rw [h.toClient_eq] at hinv
  refine ⟨hinv, ?_⟩
  show c.received ++ c.toClient.take n ++ c.toClient.drop n = _
  rw [List.append_assoc, List.take_append_drop, h.written]

/-- A turn of the connection, with what it reads and what it writes. -/
theorem Engaged.turn (h : c.Engaged r) {t : Turn} (hp : (c.conversation r).Possible (.turn t)) :
    ∃ r', t.step r = some r' ∧ ∀ new, r'.session.log = r.session.log ++ new →
      ((c.readBy t.incoming.length).deliver (accepted new)).Engaged r' := by
  obtain ⟨s', hs, hinv⟩ := Conversation.turn_spec h.conversation hp
  obtain ⟨r', hr, rfl⟩ := Option.map_eq_some_iff.mp hs
  refine ⟨r', hr, fun new hnew => ⟨hinv, ?_⟩⟩
  show c.received ++ (c.toClient ++ accepted new) = accepted r'.session.log
  rw [hnew, accepted_append, ← h.written, List.append_assoc]

theorem Waiting.send (h : c.Waiting) (bytes : Bytes) : (c.send bytes).Waiting := by
  refine ⟨?_, h.toClient, h.received⟩
  show c.toServer ++ bytes = c.sent ++ bytes
  rw [h.toServer]

theorem Waiting.shutdown (h : c.Waiting) : c.shutdown.Waiting :=
  ⟨h.toServer, h.toClient, h.received⟩

theorem Waiting.receive (h : c.Waiting) (n : ℕ) : (c.receive n).Waiting := by
  refine ⟨h.toServer, ?_, ?_⟩
  · show c.toClient.drop n = []
    rw [h.toClient, List.drop_nil]
  · show c.received ++ c.toClient.take n = []
    rw [h.received, h.toClient, List.take_nil, List.append_nil]

end Client

/-! ## The invariant -/

namespace Network

structure Inv (d : TcpServer.Setup) (s : Network) : Prop where
  server : TcpServer.Inv d s.server
  valid : s.server.AllValid
  routes : ∀ p c, s.server.conns.cell p = some c →
    s.peer c.fd = p ∧ (s.served p).session = c.session
  engaged : ∀ k, acceptAddress < k → k < s.server.conns.next → (s.clients k).Engaged (s.served k)
  gone : ∀ k, acceptAddress < k → k < s.server.conns.next → s.server.conns.cell k = none →
    (s.served k).session.conn.state = .kDisconnected
  waiting : ∀ k, s.server.conns.next ≤ k → (s.clients k).Waiting

theorem start_inv (d : TcpServer.Setup) : (start d).Inv d where
  server := TcpServer.construct_inv d
  valid := fun _ _ hc => by cases hc
  routes := fun _ _ hc => by cases hc
  engaged := fun _ hlt hk => absurd hk (Nat.not_lt_of_le hlt)
  gone := fun _ hlt hk => absurd hk (Nat.not_lt_of_le hlt)
  waiting := fun _ _ => ⟨rfl, rfl, rfl⟩

variable {d : TcpServer.Setup} {s : Network}

/-- A step of the client `k`. -/
theorem Inv.setClient (h : s.Inv d) {k : ℕ} {c : Client}
    (hengaged : ∀ r, (s.clients k).Engaged r → c.Engaged r)
    (hwaiting : (s.clients k).Waiting → c.Waiting) :
    Inv d { s with clients := Function.update s.clients k c } := by
  refine ⟨h.server, h.valid, h.routes, fun j hlt hj => ?_, h.gone, fun j hj => ?_⟩
  · show (Function.update s.clients k c j).Engaged (s.served j)
    have hbefore := h.engaged j hlt hj
    by_cases hjk : j = k
    · subst hjk
      rw [Function.update_self]
      exact hengaged _ hbefore
    · rwa [Function.update_of_ne hjk]
  · show (Function.update s.clients k c j).Waiting
    have hbefore := h.waiting j hj
    by_cases hjk : j = k
    · subst hjk
      rw [Function.update_self]
      exact hwaiting hbefore
    · rwa [Function.update_of_ne hjk]

/-- A step of the server that has to do with no connection, but may destroy one that is closed. -/
theorem Inv.setServer (h : s.Inv d) {server : TcpServer} (hinv : TcpServer.Inv d server)
    (hvalid : server.AllValid) (hnext : server.conns.next = s.server.conns.next)
    (hcells : ∀ p c, server.conns.cell p = some c →
      ∃ c₀, s.server.conns.cell p = some c₀ ∧ c₀.session = c.session)
    (hgone : ∀ p c, s.server.conns.cell p = some c → server.conns.cell p = none →
      c.session.conn.state = .kDisconnected) : Inv d { s with server } := by
  refine ⟨hinv, hvalid, fun p c hc => ?_, fun k hlt hk => ?_, fun k hlt hk hnone => ?_,
    fun k hk => h.waiting k (hnext ▸ hk)⟩
  · obtain ⟨c₀, hc₀, hsession⟩ := hcells p c hc
    obtain ⟨hpeer, hserved⟩ := h.routes p c₀ hc₀
    rw [Connection.fd, hsession] at hpeer
    exact ⟨hpeer, hserved.trans hsession⟩
  · exact h.engaged k hlt (hnext ▸ hk)
  · cases hk' : s.server.conns.cell k with
    | none => exact h.gone k hlt (hnext ▸ hk) hk'
    | some c =>
      show (s.served k).session.conn.state = .kDisconnected
      rw [(h.routes k c hk').2]
      exact hgone k c hk' hnone

/-! ## Steps -/

theorem hold_spec (h : s.Inv d) {p : ℕ} (hl : s.server.Legal (.hold p)) :
    ∃ s', s.step (.hold p) = some s' ∧ s'.Inv d := by
  obtain ⟨server, hs, hinv, hvalid⟩ := TcpServer.step_spec h.server hl
  obtain ⟨c, hc⟩ := Heap.live_iff.mp hl
  have hset : s.server.step (.hold p) =
      some { s.server with conns := s.server.conns.set p { c with held := true } } := by
    simp only [TcpServer.step, hc]
  obtain rfl := Option.some.inj (hset.symm.trans hs)
  refine ⟨_, by rw [step, hs]; rfl, h.setServer hinv ((hvalid h.valid).mpr trivial) rfl ?_ ?_⟩
  · intro q x hx
    obtain ⟨rfl, rfl⟩ | ⟨-, hx⟩ := (Heap.cell_set_eq_some (Heap.live_of_cell hc)).mp hx
    · exact ⟨c, hc, rfl⟩
    · exact ⟨x, hx, rfl⟩
  · intro q x hx hnone
    have hlive : (s.server.conns.set p { c with held := true }).Live q :=
      Heap.live_set.mpr (Heap.live_of_cell hx)
    obtain ⟨y, hy⟩ := Heap.live_iff.mp hlive
    exact absurd (hnone.symm.trans hy) (Option.some_ne_none y).symm

theorem drop_spec (h : s.Inv d) {p : ℕ} (hl : s.server.Legal (.drop p)) :
    ∃ s', s.step (.drop p) = some s' ∧ s'.Inv d := by
  obtain ⟨server, hs, hinv, hvalid⟩ := TcpServer.step_spec h.server hl
  obtain ⟨c, hmem, -⟩ := hl
  have hc : s.server.conns.cell p = some c := hmem
  have hself := Heap.cell_set_self (Heap.live_of_cell hc) { c with held := false }
  have hcollect : TcpServer.collect
      { s.server with conns := s.server.conns.set p { c with held := false } } p = some server := by
    rw [← hs]
    simp only [TcpServer.step, hc]
  obtain ⟨hnext, hothers, hcell⟩ := TcpServer.collect_cells hcollect
  have hbefore : ∀ q, q ≠ p → server.conns.cell q = s.server.conns.cell q := fun q hq =>
    (hothers q hq).trans (Heap.cell_set_of_ne _ hq _)
  refine ⟨_, by rw [step, hs]; rfl, h.setServer hinv ((hvalid h.valid).mpr trivial) hnext ?_ ?_⟩
  · intro q x hx
    by_cases hq : q = p
    · subst hq
      obtain hsame | ⟨hnone, -⟩ := hcell
      · obtain rfl := Option.some.inj (hx.symm.trans (hsame.trans hself))
        exact ⟨c, hc, rfl⟩
      · exact absurd (hnone.symm.trans hx) (Option.some_ne_none x).symm
    · exact ⟨x, (hbefore q hq).symm.trans hx, rfl⟩
  · intro q x hx hnone
    by_cases hq : q = p
    · subst hq
      obtain rfl := Option.some.inj (hc.symm.trans hx)
      obtain hsame | ⟨-, y, hy, hst⟩ := hcell
      · exact absurd (hnone.symm.trans (hsame.trans hself)) (Option.some_ne_none _).symm
      · obtain rfl := Option.some.inj (hself.symm.trans hy)
        exact hst
    · exact absurd (hnone.symm.trans ((hbefore q hq).trans hx)) (Option.some_ne_none x).symm

/-- A new connection has a descriptor that no other has, and the client that waited longest. -/
theorem accept_spec (h : s.Inv d) {connfd : ℤ} {activeEvents stack : Flags} {hwm held : Bool}
    (hl : s.server.Legal (.accept connfd activeEvents stack hwm held)) (hne : connfd ≠ -1) :
    ∃ s', s.step (.accept connfd activeEvents stack hwm held) = some s' ∧ s'.Inv d := by
  obtain ⟨server, hs, hinv, hcells⟩ := TcpServer.accept_spec h.server hl
  obtain ⟨server', hs', -, hvalid⟩ := TcpServer.step_spec h.server hl
  obtain rfl := Option.some.inj (hs.symm.trans hs')
  have hnext : server.conns.next = s.server.conns.next + 1 := by
    obtain ⟨c, hc⟩ := s.server.handleConn_eq connfd activeEvents stack hwm held hl.2
    obtain rfl := Option.some.inj (hs.symm.trans hc)
    rfl
  have hclosed : s.server.isOpen connfd = false := by
    obtain rfl | ⟨-, hclosed⟩ := hl.1
    · exact absurd rfl hne
    · exact hclosed
  have hconn : s.server.handleConn connfd activeEvents stack hwm held = some server := hs
  have hstep : s.step (.accept connfd activeEvents stack hwm held) = some { s with
      server
      served := Function.update s.served s.server.conns.next
        (Reader.established activeEvents connfd s.server.writeCompleteCallback hwm)
      peer := Function.update s.peer connfd s.server.conns.next } := by
    rw [step, hconn, Option.map_some]
  refine ⟨_, hstep, hinv, (hvalid h.valid).mpr hne, fun p c hc => ?_, fun k hlt hk => ?_,
    fun k hlt hk hnone => ?_, fun k hk => h.waiting k ?_⟩
  · obtain ⟨rfl, rfl⟩ | hbefore := (hcells p c).mp hc
    · refine ⟨Function.update_self .., ?_⟩
      show (Function.update s.served _ _ _).session = _
      rw [Function.update_self]
      rfl
    · have hfd : c.fd ≠ connfd := by
        rintro rfl
        exact h.valid p c hbefore (h.server.fd_of_closed hbefore hclosed)
      have hp : p ≠ s.server.conns.next := Nat.ne_of_lt (Heap.live_of_cell hbefore).lt_next
      obtain ⟨hpeer, hserved⟩ := h.routes p c hbefore
      refine ⟨(Function.update_of_ne hfd ..).trans hpeer, ?_⟩
      show (Function.update s.served _ _ p).session = _
      rw [Function.update_of_ne hp, hserved]
  · show (s.clients k).Engaged (Function.update s.served _ _ k)
    by_cases hknew : k = s.server.conns.next
    · subst hknew
      rw [Function.update_self]
      exact (h.waiting _ (Nat.le_refl _)).engaged ..
    · rw [Function.update_of_ne hknew]
      have hk : k < server.conns.next := hk
      exact h.engaged k hlt (by omega)
  · have hk : k < server.conns.next := hk
    have hknew : k ≠ s.server.conns.next := by
      rintro rfl
      have hcell := (hcells _ _).mpr (Or.inl ⟨rfl, rfl⟩)
      exact absurd (hnone.symm.trans hcell) (Option.some_ne_none _).symm
    show (Function.update s.served _ _ k).session.conn.state = .kDisconnected
    rw [Function.update_of_ne hknew]
    refine h.gone k hlt (by omega) ?_
    cases hcell : s.server.conns.cell k with
    | none => rfl
    | some c =>
      have hkept := (hcells k c).mpr (Or.inr hcell)
      exact absurd (hnone.symm.trans hkept) (Option.some_ne_none c).symm
  · have hk : server.conns.next ≤ k := hk
    omega

theorem foldl_transmit (peer : ℤ → ℕ) {fd : ℤ} (new : List Entry) :
    ∀ clients, (∀ e ∈ new, e.conn.channel.fd = fd) → new.foldl (transmit peer) clients =
      Function.update clients (peer fd) ((clients (peer fd)).deliver (accepted new)) := by
  induction new with
  | nil =>
    intro clients _
    have hnone : (clients (peer fd)).deliver (accepted []) = clients (peer fd) :=
      Client.deliver_nil _
    rw [hnone, Function.update_eq_self]
    rfl
  | cons e new ih =>
    intro clients hnew
    have hsplit : accepted (e :: new) = accepted [e] ++ accepted new := accepted_append [e] new
    rw [List.foldl_cons, ih _ fun e' he' => hnew e' (List.mem_cons_of_mem e he'), transmit,
      hnew e List.mem_cons_self, Function.update_self, Function.update_idem, Client.deliver_deliver,
      hsplit]

/-- A turn is one of the conversation with the client that the descriptor leads to. -/
theorem turn_spec (h : s.Inv d) {p : ℕ} {t : Turn} {stack : Flags}
    (he : s.Enabled (.turn p t stack)) : ∃ s', s.step (.turn p t stack) = some s' ∧ s'.Inv d := by
  obtain ⟨c, hmem, hp, hreg⟩ := he
  have hc : s.server.conns.cell p = some c := hmem
  obtain ⟨hpeer, hsession⟩ := h.routes p c hc
  have hreader : s.reader p c = s.served p := by
    rw [reader, ← hsession]
  rw [hreader, hpeer] at hp
  have hlt := (h.server.conns p c hc).address
  have hengaged := h.engaged p hlt (Heap.live_of_cell hc).lt_next
  obtain ⟨r, hr, hconv⟩ := hengaged.turn hp
  have hsinv : (s.served p).session.Inv := hengaged.conversation.session
  obtain ⟨new, hlog, hnew⟩ := Turn.log_descriptor hsinv hp.1 hr
  obtain ⟨server, hserver, hinv, hwithin⟩ :=
    TcpServer.turn_spec h.server hc hsession hp.1 hr hreg stack
  obtain ⟨hnext, hothers, hcell⟩ := TcpServer.collect_cells hserver
  rw [TcpServer.perform_conns] at hnext hothers hcell
  have hself := Heap.cell_set_self (Heap.live_of_cell hc) { c with session := r.session }
  have hbefore : ∀ q, q ≠ p → server.conns.cell q = s.server.conns.cell q := fun q hq =>
    (hothers q hq).trans (Heap.cell_set_of_ne _ hq _)
  have hdrop : r.session.log.drop c.session.log.length = new := by
    rw [hlog, hsession, List.drop_left]
  rw [hsession] at hnew
  have hclients : new.foldl (transmit s.peer)
      (Function.update s.clients p ((s.clients p).readBy t.incoming.length)) =
        Function.update s.clients p
          (((s.clients p).readBy t.incoming.length).deliver (accepted new)) := by
    rw [foldl_transmit s.peer new _ hnew, show s.peer c.session.conn.channel.fd = p from hpeer,
      Function.update_self, Function.update_idem]
  have hstep : s.step (.turn p t stack) = some { s with
      server
      served := Function.update s.served p r
      clients := Function.update s.clients p
        (((s.clients p).readBy t.incoming.length).deliver (accepted new)) } := by
    simp only [step, turn, hc, Option.bind_eq_bind, Option.bind_some, hreader, hr, hserver, hdrop,
      hpeer, hclients]
  refine ⟨_, hstep, hinv, fun q x hx => ?_, fun q x hx => ?_, fun k hlt hk => ?_,
    fun k hlt hk hnone => ?_, fun k hk => ?_⟩
  · obtain ⟨y, hy, hfd⟩ := hwithin q x hx
    rw [← hfd]
    exact h.valid q y hy
  · show s.peer x.fd = q ∧ (Function.update s.served p r q).session = x.session
    by_cases hq : q = p
    · subst hq
      obtain hsame | ⟨hnone, -⟩ := hcell
      · obtain rfl := Option.some.inj (hx.symm.trans (hsame.trans hself))
        obtain ⟨y, hy, hfd⟩ := hwithin q _ hx
        obtain rfl := Option.some.inj (hc.symm.trans hy)
        rw [Function.update_self, ← hfd]
        exact ⟨hpeer, rfl⟩
      · exact absurd (hnone.symm.trans hx) (Option.some_ne_none x).symm
    · rw [Function.update_of_ne hq]
      exact h.routes q x ((hbefore q hq).symm.trans hx)
  · show (Function.update s.clients p _ k).Engaged (Function.update s.served p r k)
    by_cases hkp : k = p
    · subst hkp
      rw [Function.update_self, Function.update_self]
      exact hconv new hlog
    · rw [Function.update_of_ne hkp, Function.update_of_ne hkp]
      exact h.engaged k hlt (hnext ▸ hk)
  · show (Function.update s.served p r k).session.conn.state = .kDisconnected
    by_cases hkp : k = p
    · subst hkp
      rw [Function.update_self]
      obtain hsame | ⟨-, y, hy, hst⟩ := hcell
      · exact absurd (hnone.symm.trans (hsame.trans hself)) (Option.some_ne_none _).symm
      · obtain rfl := Option.some.inj (hself.symm.trans hy)
        exact hst
    · rw [Function.update_of_ne hkp]
      exact h.gone k hlt (hnext ▸ hk) ((hbefore k hkp).symm.trans hnone)
  · have hk : s.server.conns.next ≤ k := hnext ▸ hk
    have hkp : k ≠ p := by
      have := (Heap.live_of_cell hc).lt_next
      omega
    show (Function.update s.clients p _ k).Waiting
    rw [Function.update_of_ne hkp]
    exact h.waiting k hk

theorem step_spec (h : s.Inv d) {e : NetworkEvent} (he : s.Enabled e) :
    ∃ s', s.step e = some s' ∧ s'.Inv d := by
  cases e with
  | accept connfd activeEvents stack hwm held => exact accept_spec h he.1 he.2
  | turn p t stack => exact turn_spec h he
  | hold p => exact hold_spec h he
  | drop p => exact drop_spec h he
  | send k bytes =>
    have hopen : (s.clients k).ended = false := he
    exact ⟨_, rfl, h.setClient (fun r hr => hr.send hopen bytes) fun hw => hw.send bytes⟩
  | shutdown k => exact ⟨_, rfl, h.setClient (fun r hr => hr.shutdown) fun hw => hw.shutdown⟩
  | receive k n => exact ⟨_, rfl, h.setClient (fun r hr => hr.receive n) fun hw => hw.receive n⟩

end Network

/-- **Conversations apart.** In every run of a server and its clients with less than `2^31`
    connections, in which no `accept()` fails and `epoll_ctl` succeeds for open descriptors, in
    any interleaving, with message callbacks that take, send and shut down as they like, and with
    descriptors that are used again: no `assert` fails, and `conn_map_` mirrors the poller. The
    descriptor of a connection leads to the client that it was accepted for. What the callbacks
    have taken, the input buffer and what is under way are what this client has sent, and what it
    has received, what is under way and the output buffer are what its connection was to send; a
    connection that is half-closed has sent all of that. A connection that is closed has read
    everything its client sent, and only such a connection is destroyed. Nothing reaches a client
    that has not been accepted. -/
theorem conversations_apart (d : TcpServer.Setup) (es : List NetworkEvent)
    (hes : Along Network.step Network.Enabled (Network.start d) es) :
    ∃ s, run Network.step (Network.start d) es = some s ∧ s.server.Mirrors ∧
      (∀ p c, s.server.conns.cell p = some c →
        s.peer c.fd = p ∧ (s.served p).session = c.session) ∧
      (∀ k, acceptAddress < k → k < s.server.conns.next →
        (s.served k).taken.flatten ++ (s.served k).contents ++ (s.clients k).toServer =
          (s.clients k).sent ∧
        (s.clients k).received ++ (s.clients k).toClient ++
          (s.served k).session.conn.outputBuffer.contents = committed (s.served k).session.log ∧
        (halfClosed (s.served k).session.log →
          (s.clients k).received ++ (s.clients k).toClient = committed (s.served k).session.log) ∧
        ((s.served k).session.conn.state = .kDisconnected → (s.clients k).ended = true ∧
          (s.served k).taken.flatten ++ (s.served k).contents = (s.clients k).sent) ∧
        (s.server.conns.cell k = none → (s.served k).session.conn.state = .kDisconnected)) ∧
      ∀ k, s.server.conns.next ≤ k →
        (s.clients k).toClient = [] ∧ (s.clients k).received = [] := by
  obtain ⟨s, hs, hinv⟩ := run_total (fun _ _ h he => Network.step_spec h he) es _
    (Network.start_inv d) hes
  refine ⟨s, hs, hinv.server.mirrors_iff.mpr hinv.valid, hinv.routes, fun k hlt hk => ?_,
    fun k hk => ⟨(hinv.waiting k hk).toClient, (hinv.waiting k hk).received⟩⟩
  have hengaged := hinv.engaged k hlt hk
  obtain ⟨hin, hout, hclosed, hhalf⟩ := hengaged.conversation.complete
  rw [hengaged.toClient_eq] at hout hhalf
  exact ⟨hin, hout, fun hc => (hhalf hc).2, hclosed, hinv.gone k hlt hk⟩

/-- The descriptor of the first client is used for the second one, which has sent a byte before. -/
theorem conversations_apart_sample :
    ∃ s, run Network.step (Network.start TcpServer.ordinarySetup)
      [.accept 5 0#32 EPOLLOUT false false, .send 2 [1, 2], .send 3 [7],
        .turn 2 ⟨.handleRead (.data [1, 2]), [.sendBuffer (.ok 1)]⟩ 0#32, .shutdown 2,
        .turn 2 ⟨.handleRead (.data []), []⟩ 0#32, .accept 5 0#32 0#32 false true,
        .turn 3 ⟨.handleRead (.data [7]), [.retrieveAll, .send [9] (.ok 1)]⟩ 0#32,
        .receive 2 4, .receive 3 4] = some s ∧
      (∀ p c, s.server.conns.cell p = some c →
        s.peer c.fd = p ∧ (s.served p).session = c.session) ∧
      ∀ k, acceptAddress < k → k < s.server.conns.next →
        (s.clients k).received ++ (s.clients k).toClient ++
          (s.served k).session.conn.outputBuffer.contents = committed (s.served k).session.log := by
  obtain ⟨s, hs, -, hroutes, hall, -⟩ := conversations_apart TcpServer.ordinarySetup _
    (show Along Network.step Network.Enabled (Network.start TcpServer.ordinarySetup)
      [.accept 5 0#32 EPOLLOUT false false, .send 2 [1, 2], .send 3 [7],
        .turn 2 ⟨.handleRead (.data [1, 2]), [.sendBuffer (.ok 1)]⟩ 0#32, .shutdown 2,
        .turn 2 ⟨.handleRead (.data []), []⟩ 0#32, .accept 5 0#32 0#32 false true,
        .turn 3 ⟨.handleRead (.data [7]), [.retrieveAll, .send [9] (.ok 1)]⟩ 0#32,
        .receive 2 4, .receive 3 4] by decide +kernel)
  exact ⟨s, hs, hroutes, fun k hlt hk => (hall k hlt hk).2.1⟩

end XWeb.Net
