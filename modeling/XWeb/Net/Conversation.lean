import XWeb.Net.InputStream

/-!
# A connection and its client

The client of a connection sends and receives bytes as it likes. Between the two is a stream in
each direction that neither loses nor reorders bytes. The end of a direction comes behind its
bytes, and after `shutdownWrite()` a `write()` fails.

* `Conversation.step_spec`: one step of the server, the client or the network.
* `conversation_complete`: every byte is on its way in one place; who finds the end of a direction
  has all of it.
* `echo_complete`: the server that sends back what it reads.
* `output_drains`: what is queued leaves, if `handleWrite` is called often enough.
-/

namespace XWeb.Net

open XWeb.Lib

/-! ## Model -/

/-- The connection, what is under way to it, and what the client has done. -/
structure Conversation where
  server : Reader
  toServer : Bytes
  /-- The client has closed its half. -/
  ended : Bool
  sent : Bytes
  received : Bytes

inductive ConversationEvent
  /-- the loop thread of the server -/
  | turn (t : Turn)
  | send (bytes : Bytes)
  | shutdown
  | receive (n : ℕ)
  deriving DecidableEq

theorem accepted_mono {l m : List Entry} (h : l <+: m) : accepted l <+: accepted m := by
  obtain ⟨new, rfl⟩ := h
  rw [accepted_append]
  exact List.prefix_append _ _

namespace Conversation

def start (activeEvents : Flags) (sockfd : ℤ) (wcc hwm : Bool) : Conversation :=
  { server := Reader.established activeEvents sockfd wcc hwm
    toServer := []
    ended := false
    sent := []
    received := [] }

/-- What `write()` has accepted and the client has not received. -/
def toClient (s : Conversation) : Bytes :=
  (accepted s.server.session.log).drop s.received.length

def step (s : Conversation) : ConversationEvent → Option Conversation
  | .turn t => (t.step s.server).map fun server =>
      { s with server, toServer := s.toServer.drop t.incoming.length }
  | .send bytes => some { s with toServer := s.toServer ++ bytes, sent := s.sent ++ bytes }
  | .shutdown => some { s with ended := true }
  | .receive n => some { s with received := s.received ++ s.toClient.take n }

/-- What is read is under way; the end is read behind everything. Nothing is sent in a half that has
    been closed. -/
def Possible (s : Conversation) : ConversationEvent → Prop
  | .turn t => t.Possible s.server ∧ t.incoming <+: s.toServer ∧
      (t.event = .handleRead (.data []) → s.ended = true ∧ s.toServer = []) ∧
      (halfClosed s.server.session.log → t.event.Refused)
  | .send _ => s.ended = false
  | .shutdown | .receive _ => True

instance (log : List Entry) : Decidable (halfClosed log) :=
  inferInstanceAs (Decidable (∃ e ∈ log, e.io = .shutdownWrite))

instance (s : Conversation) : ∀ e, Decidable (s.Possible e)
  | .turn _ => inferInstanceAs (Decidable (_ ∧ _ ∧ _ ∧ _))
  | .send _ => inferInstanceAs (Decidable (_ = _))
  | .shutdown | .receive _ => instDecidableTrue

/-! ## Every byte is in one place -/

structure Inv (s : Conversation) : Prop where
  session : s.server.session.Inv
  settled : s.server.session.Settled
  incoming : s.server.stream ++ s.toServer = s.sent
  outgoing : s.received <+: accepted s.server.session.log
  closed : ¬ s.server.session.conn.Live → s.ended = true ∧ s.toServer = []

theorem inv_start (activeEvents : Flags) (sockfd : ℤ) (wcc hwm : Bool) :
    (start activeEvents sockfd wcc hwm).Inv where
  session := Session.inv_established activeEvents sockfd wcc hwm
  settled := by
    obtain ⟨hsending, hsilent⟩ :=
      SharedConnection.established_sending activeEvents sockfd wcc hwm ()
    exact hsending.settled hsilent
  incoming := by
    have hc : Buffer.init.contents = [] := Buffer.contents_init
    show ([] : List Bytes).flatten ++ Buffer.init.contents ++ [] = []
    rw [hc]
    rfl
  outgoing := List.nil_prefix
  closed := fun h => absurd (Or.inl rfl) h

variable {s : Conversation}

/-- What has been received and what is under way have been accepted. -/
theorem Inv.received_toClient (h : s.Inv) :
    s.received ++ s.toClient = accepted s.server.session.log := by
  obtain ⟨rest, hrest⟩ := h.outgoing
  rw [toClient, ← hrest, List.drop_left]

theorem turn_spec (h : s.Inv) {t : Turn} (hp : s.Possible (.turn t)) :
    ∃ s', s.step (.turn t) = some s' ∧ s'.Inv := by
  obtain ⟨hturn, ⟨rest, hrest⟩, hend, hrefused⟩ := hp
  obtain ⟨session, server, hevent, hs, hok, hadv, hstream⟩ := Turn.step_spec h.session hturn
  have hlog : s.server.session.log <+: server.session.log :=
    (Session.log_step hevent).trans hadv.log
  have hstep : s.step (.turn t) =
      some { s with server, toServer := s.toServer.drop t.incoming.length } := by
    rw [step, hs]
    rfl
  refine ⟨_, hstep, hadv.inv, ?_, ?_, h.outgoing.trans (accepted_mono hlog), ?_⟩
  · exact hadv.settled (Session.settled_step h.session.toCore h.settled hturn.1 hrefused hevent)
  · show server.stream ++ s.toServer.drop t.incoming.length = s.sent
    rw [hstream, ← h.incoming, ← hrest, List.drop_left, List.append_assoc]
  · intro hdead
    have hcases : ¬ s.server.session.conn.Live ∨ t.event = .handleRead (.data []) := by
      by_contra hcon
      obtain ⟨hlive, hne⟩ := not_or.mp hcon
      exact hdead (hadv.live_iff.mpr (hok.live_iff.mpr ⟨not_not.mp hlive, hne⟩))
    have hclosed : s.ended = true ∧ s.toServer = [] := by
      rcases hcases with hdead | heof
      · exact h.closed hdead
      · exact hend heof
    refine ⟨hclosed.1, ?_⟩
    show s.toServer.drop t.incoming.length = []
    rw [hclosed.2, List.drop_nil]

theorem step_spec (h : s.Inv) {e : ConversationEvent} (hp : s.Possible e) :
    ∃ s', s.step e = some s' ∧ s'.Inv := by
  cases e with
  | turn t => exact turn_spec h hp
  | send bytes =>
    refine ⟨_, rfl, h.session, h.settled, ?_, h.outgoing, fun hdead => ?_⟩
    · show s.server.stream ++ (s.toServer ++ bytes) = s.sent ++ bytes
      rw [← List.append_assoc, h.incoming]
    · have hopen : s.ended = false := hp
      rw [(h.closed hdead).1] at hopen
      cases hopen
  | shutdown => exact ⟨_, rfl, h.session, h.settled, h.incoming, h.outgoing,
      fun hdead => ⟨rfl, (h.closed hdead).2⟩⟩
  | receive n =>
    refine ⟨_, rfl, h.session, h.settled, h.incoming, ?_, h.closed⟩
    show s.received ++ s.toClient.take n <+: _
    rw [← h.received_toClient, List.prefix_append_right_inj]
    exact List.take_prefix n _

/-- Where the bytes of both directions are, and who has found the end of one. -/
theorem Inv.complete (h : s.Inv) :
    s.server.taken.flatten ++ s.server.contents ++ s.toServer = s.sent ∧
      s.received ++ s.toClient ++ s.server.session.conn.outputBuffer.contents =
        committed s.server.session.log ∧
      (s.server.session.conn.state = .kDisconnected →
        s.ended = true ∧ s.server.taken.flatten ++ s.server.contents = s.sent) ∧
      (halfClosed s.server.session.log →
        s.server.session.conn.state ≠ .kConnected ∧
          s.received ++ s.toClient = committed s.server.session.log) := by
  have hout := h.session.stream
  rw [← h.received_toClient] at hout
  refine ⟨h.incoming, hout, fun hst => ?_, fun hc => ?_⟩
  · obtain ⟨hended, hempty⟩ := h.closed (by simp [TcpConnection.Live, hst])
    have hin := h.incoming
    rw [hempty, List.append_nil] at hin
    exact ⟨hended, hin⟩
  · obtain ⟨hempty, hne⟩ := h.settled hc
    rw [hempty, List.append_nil] at hout
    exact ⟨hne, hout⟩

end Conversation

section

variable (activeEvents : Flags) (sockfd : ℤ) (wcc hwm : Bool)

/-- **A conversation is complete.** In every run of a connection, its callbacks and its client, in
    any interleaving and with any short reads and writes: no `assert` fails; what the callbacks
    have taken, the input buffer and what is under way are the bytes the client has sent; what the
    client has received, what is under way and the output buffer are the bytes `sendInLoop` has
    taken charge of. A connection that has found the end has read everything the client sent, and
    before the half-close the client finds everything the server sent. A `write()` behind the
    half-close returns `EPIPE`, as it does where `SIGPIPE` is ignored; where it is not, the run
    ends with it. -/
theorem conversation_complete (es : List ConversationEvent)
    (hes : Along Conversation.step (fun s e => s.Possible e)
      (Conversation.start activeEvents sockfd wcc hwm) es) :
    ∃ s, run Conversation.step (Conversation.start activeEvents sockfd wcc hwm) es = some s ∧
      s.server.taken.flatten ++ s.server.contents ++ s.toServer = s.sent ∧
      s.received ++ s.toClient ++ s.server.session.conn.outputBuffer.contents =
        committed s.server.session.log ∧
      (s.server.session.conn.state = .kDisconnected →
        s.ended = true ∧ s.server.taken.flatten ++ s.server.contents = s.sent) ∧
      (halfClosed s.server.session.log →
        s.server.session.conn.state ≠ .kConnected ∧
          s.received ++ s.toClient = committed s.server.session.log) := by
  obtain ⟨s, hs, hinv⟩ := run_total (fun _ _ h hp => Conversation.step_spec h hp) es _
    (Conversation.inv_start activeEvents sockfd wcc hwm) hes
  exact ⟨s, hs, hinv.complete⟩

/-- The server greets and half-closes; a functor that still runs is refused. -/
theorem conversation_complete_sample :
    ∃ s, run Conversation.step (Conversation.start 0#32 9 false false)
      [.send [1, 2],
        .turn ⟨.handleRead (.data [1]), [.retrieveAllAsString, .send [5, 6] (.ok 2), .shutdown]⟩,
        .turn ⟨.sendInLoop [7] (.fail EPIPE), []⟩, .receive 5] = some s ∧
      s.server.taken.flatten ++ s.server.contents ++ s.toServer = s.sent ∧
      s.received ++ s.toClient ++ s.server.session.conn.outputBuffer.contents =
        committed s.server.session.log ∧
      (s.server.session.conn.state = .kDisconnected →
        s.ended = true ∧ s.server.taken.flatten ++ s.server.contents = s.sent) ∧
      (halfClosed s.server.session.log →
        s.server.session.conn.state ≠ .kConnected ∧
          s.received ++ s.toClient = committed s.server.session.log) :=
  conversation_complete 0#32 9 false false _ (by decide +kernel)

end

/-! ## A server that sends back what it reads -/

/-- The message callback is `conn->send(buffer)` and nothing else is sent; the client is not gone.
    -/
def Turn.echoes : Turn → Bool
  | ⟨.handleRead _, [.sendBuffer w]⟩ => !w.isFault
  | ⟨.shutdown, _⟩ | ⟨.handleWrite _, _⟩ => true
  | _ => false

def ConversationEvent.echoes : ConversationEvent → Bool
  | turn t => t.echoes
  | send _ | shutdown | receive _ => true

theorem Turn.echoes_spec {t : Turn} (h : t.echoes = true) :
    (∀ s : Session, s.taken t.event = []) ∧
      (t.incoming ≠ [] → ∃ w, t.calls = [.sendBuffer w] ∧ w.isFault = false) := by
  unfold Turn.echoes at h
  split at h
  · next r w =>
    exact ⟨fun _ => rfl, fun _ => ⟨w, rfl, by simpa using h⟩⟩
  · exact ⟨fun _ => rfl, fun hin => absurd rfl hin⟩
  · exact ⟨fun _ => rfl, fun hin => absurd rfl hin⟩
  · cases h

/-- Everything that has been taken has been sent, and while the connection is open everything has
    been taken. -/
structure Reader.Echoed (s : Reader) : Prop where
  committed_eq : committed s.session.log = s.taken.flatten
  contents_eq : s.session.conn.state = .kConnected → s.contents = []

theorem Reader.Echoed.sendBuffer {s s' : Reader} {w : WriteResult} (h : s.session.Inv)
    (hc : committed s.session.log = s.taken.flatten) (hw : w.isFault = false)
    (hp : (ConnEvent.send s.contents w).Possible s.session) (hs : s.sendBuffer w = some s') :
    s'.Echoed := by
  rw [sendBuffer_eq h.inWf] at hs
  split_ifs at hs with hst
  · obtain ⟨session, hsession, hsends⟩ :=
      Session.sendInLoop_spec h.toCore (by rw [hst]; simp) hp.1 hp.2
    have hnf : ¬ s.session.Faults w := fun hf => by
      rw [hf.2.2] at hw
      cases hw
    rw [hsession] at hs
    rw [← Option.some.inj hs]
    refine ⟨?_, fun _ => (Buffer.retrieveAll_spec h.inWf).2⟩
    show committed session.log = (s.taken ++ [s.contents]).flatten
    rw [hsends.committed_eq, if_neg hnf, hc, List.flatten_concat]
  · rw [← Option.some.inj hs]
    refine ⟨?_, fun hst' => absurd hst' hst⟩
    show committed s.session.log = (s.taken ++ [[]]).flatten
    rw [hc, List.flatten_concat, List.append_nil]

theorem Session.connected_of_stateAfter {s : Session} {e : ConnEvent}
    (h : s.stateAfter e = .kConnected) : s.conn.state = .kConnected := by
  unfold stateAfter at h
  split at h
  · split_ifs at h with hst
    exact h
  · cases h
  · exact h

theorem Reader.Echoed.step {s s' : Reader} (h : s.session.Inv) (he : s.Echoed) {t : Turn}
    (hp : t.Possible s) (ht : t.echoes = true) (hs : t.step s = some s') : s'.Echoed := by
  obtain ⟨hnone, hcalls⟩ := Turn.echoes_spec ht
  obtain ⟨session, hevent, hok⟩ := Session.step_spec h.toCore hp.1
  have hc : committed session.log = s.taken.flatten := by
    rw [hok.committed_eq, hnone, List.append_nil, he.committed_eq]
  unfold Turn.step at hs
  rw [hevent, Option.bind_some] at hs
  by_cases hin : t.incoming = []
  · rw [if_pos hin] at hs
    rw [← Option.some.inj hs]
    refine ⟨hc, fun hst => ?_⟩
    have hst' : s.session.conn.state = .kConnected :=
      Session.connected_of_stateAfter (hok.state_eq.symm.trans hst)
    have hinput := Session.input_step h.toCore hp.1 hevent
    show session.conn.inputBuffer.contents = []
    rw [hinput, show t.event.incoming = [] from hin, List.append_nil]
    exact he.contents_eq hst'
  · rw [if_neg hin] at hs
    obtain ⟨w, hw, hnf⟩ := hcalls hin
    have halong := hp.2 hin session hevent
    rw [hw] at hs halong
    obtain ⟨t', ht', hnil⟩ := run_cons_eq_some.mp hs
    obtain rfl := Option.some.inj hnil
    exact Reader.Echoed.sendBuffer (s := { s with session }) (hok.inv h) hc hnf halong.1 ht'

namespace Conversation

variable {s s' : Conversation}

theorem echoed_step (h : s.Inv) (he : s.server.Echoed) {e : ConversationEvent}
    (hp : s.Possible e) (hecho : e.echoes = true) (hs : s.step e = some s') : s'.server.Echoed := by
  cases e with
  | turn t =>
    obtain ⟨server, hserver, rfl⟩ := Option.map_eq_some_iff.mp hs
    exact he.step h.session hp.1 hecho hserver
  | send bytes =>
    rw [← Option.some.inj hs]
    exact he
  | shutdown =>
    rw [← Option.some.inj hs]
    exact he
  | receive n =>
    rw [← Option.some.inj hs]
    exact he

end Conversation

section

variable (activeEvents : Flags) (sockfd : ℤ) (wcc hwm : Bool)

/-- **An echo is complete.** In every run of a connection whose message callback sends the buffer
    back, and that may be shut down at any time, and of its client: what the client has received,
    what is under way to it, the output buffer, the input buffer and what is under way to the
    server are, one behind the other, what the client has sent. Before `shutdown` nothing stays in
    the input buffer. -/
theorem echo_complete (es : List ConversationEvent)
    (hes : Along Conversation.step (fun s e => s.Possible e ∧ e.echoes = true)
      (Conversation.start activeEvents sockfd wcc hwm) es) :
    ∃ s, run Conversation.step (Conversation.start activeEvents sockfd wcc hwm) es = some s ∧
      s.received ++ s.toClient ++ s.server.session.conn.outputBuffer.contents ++
        s.server.contents ++ s.toServer = s.sent ∧
      (s.server.session.conn.state = .kConnected → s.server.contents = []) := by
  have hstart : (Conversation.start activeEvents sockfd wcc hwm).server.Echoed :=
    ⟨rfl, fun _ => Buffer.contents_init⟩
  have hrun : ∃ s, run Conversation.step (Conversation.start activeEvents sockfd wcc hwm) es = some s ∧
      (s.Inv ∧ s.server.Echoed) := by
    refine run_total (fun s e hI hp => ?_) es _
      ⟨Conversation.inv_start activeEvents sockfd wcc hwm, hstart⟩ hes
    obtain ⟨s', hs', hinv'⟩ := Conversation.step_spec hI.1 hp.1
    exact ⟨s', hs', hinv', Conversation.echoed_step hI.1 hI.2 hp.1 hp.2 hs'⟩
  obtain ⟨s, hs, hinv, hecho⟩ := hrun
  refine ⟨s, hs, ?_, hecho.contents_eq⟩
  rw [hinv.received_toClient, hinv.session.stream, hecho.committed_eq]
  exact hinv.incoming

/-- Three bytes come in two pieces, and a short write leaves one in the output buffer. -/
theorem echo_complete_sample :
    ∃ s, run Conversation.step (Conversation.start 0#32 9 false false)
      [.send [1, 2, 3], .turn ⟨.handleRead (.data [1, 2]), [.sendBuffer (.ok 1)]⟩, .receive 1,
        .turn ⟨.handleRead (.data [3]), [.sendBuffer (.fail EWOULDBLOCK)]⟩] = some s ∧
      s.received ++ s.toClient ++ s.server.session.conn.outputBuffer.contents ++
        s.server.contents ++ s.toServer = s.sent ∧
      (s.server.session.conn.state = .kConnected → s.server.contents = []) :=
  echo_complete 0#32 9 false false _ (by decide +kernel)

end

/-! ## Progress -/

/-- The bytes that a `handleWrite` takes out of the output buffer. -/
def ConnEvent.written : ConnEvent → ℕ
  | handleWrite (.ok n) => n
  | handleWrite (.fail _) | send .. | sendInLoop .. | shutdown | handleRead _ => 0

/-- Nothing is sent. -/
def ConnEvent.quiet : ConnEvent → Bool
  | send .. | sendInLoop .. => false
  | shutdown | handleWrite _ | handleRead _ => true

def MessageCall.quiet : MessageCall → Bool
  | send .. | sendBuffer _ => false
  | retrieve _ | retrieveAll | retrieveAsString _ | retrieveAllAsString | shutdown => true

def ConversationEvent.quiet : ConversationEvent → Bool
  | turn t => t.event.quiet && t.calls.all MessageCall.quiet
  | send _ | shutdown | receive _ => true

namespace Session

variable {s s' : Session}

theorem output_shutdown (s : Session) : s.shutdown.conn.outputBuffer = s.conn.outputBuffer := by
  unfold shutdown
  split_ifs
  · rw [shutdownInLoop_conn]
    rfl
  · rfl

theorem output_handleWrite (h : s.Core) {w : WriteResult}
    (hw : w.Within s.conn.outputBuffer.readableBytes) (hs : s.handleWrite w = some s') :
    s'.conn.outputBuffer.contents =
      s.conn.outputBuffer.contents.drop (ConnEvent.handleWrite w).written := by
  unfold handleWrite at hs
  by_cases hwriting : s.conn.channel.isWriting = true
  · rw [if_pos hwriting] at hs
    cases w with
    | fail errno =>
      rw [← Option.some.inj hs]
      rfl
    | ok n =>
      by_cases hn : 0 < n
      · obtain ⟨b, hb, -, hc⟩ := Buffer.retrieve_spec h.outWf hw
        simp only [hn, if_true, emit_conn, hb, Option.bind_eq_bind, Option.bind_some] at hs
        split_ifs at hs
        · rw [← Option.some.inj hs, drained_conn]
          exact hc
        · rw [← Option.some.inj hs]
          exact hc
      · obtain rfl : n = 0 := by omega
        rw [← Option.some.inj ((if_neg hn).symm.trans hs)]
        rfl
  · have hempty : s.conn.outputBuffer.contents = [] :=
      h.isWriting_eq_false.mp (by simpa using hwriting)
    rw [if_neg hwriting] at hs
    rw [← Option.some.inj hs, hempty, List.drop_nil]

/-- What `write()` accepts leaves the output buffer. -/
theorem output_step (h : s.Core) {e : ConnEvent} (hp : e.Possible s) (hs : e.step s = some s')
    (hquiet : e.quiet = true) :
    s'.conn.outputBuffer.contents.length + e.written = s.conn.outputBuffer.contents.length ∧
      committed s'.log = committed s.log := by
  obtain ⟨t, ht, hok⟩ := step_spec h hp
  obtain rfl := Option.some.inj (ht.symm.trans hs)
  have hc := hok.committed_eq
  cases e with
  | send data w => cases hquiet
  | sendInLoop data w => cases hquiet
  | shutdown =>
    rw [← Option.some.inj hs, output_shutdown]
    exact ⟨rfl, by rw [← Option.some.inj hs] at hc; exact hc.trans (List.append_nil _)⟩
  | handleWrite w =>
    refine ⟨?_, hc.trans (List.append_nil _)⟩
    have hle : (ConnEvent.handleWrite w).written ≤ s.conn.outputBuffer.contents.length := by
      rw [h.outWf.length_contents]
      cases w with
      | ok n => exact hp.2
      | fail errno => exact Nat.zero_le _
    rw [output_handleWrite h hp.2 hs, List.length_drop]
    omega
  | handleRead r =>
    obtain ⟨b, -, hcases⟩ := handleRead_cases hs
    refine ⟨?_, hc.trans (List.append_nil _)⟩
    rcases hcases with ⟨-, rfl | rfl⟩ | ⟨-, -, rfl⟩ <;> rfl

end Session

/-- What a quiet turn does to the bytes that are queued. -/
structure Reader.Drains (s s' : Reader) (n : ℕ) : Prop where
  output : s'.session.conn.outputBuffer.contents.length + n =
    s.session.conn.outputBuffer.contents.length
  committed_eq : committed s'.session.log = committed s.session.log

theorem MessageCall.exec_drains {s s' : Reader} (h : s.session.Inv) {c : MessageCall}
    (hquiet : c.quiet = true) (hs : c.exec s = some s') : s.Drains s' 0 := by
  cases c with
  | retrieve len =>
    obtain ⟨b, -, rfl⟩ := Option.map_eq_some_iff.mp hs
    exact ⟨rfl, rfl⟩
  | retrieveAll =>
    obtain rfl := Option.some.inj hs
    exact ⟨rfl, rfl⟩
  | retrieveAsString len =>
    obtain ⟨b, -, rfl⟩ := Option.map_eq_some_iff.mp hs
    exact ⟨rfl, rfl⟩
  | retrieveAllAsString =>
    obtain ⟨b, -, rfl⟩ := Option.map_eq_some_iff.mp hs
    exact ⟨rfl, rfl⟩
  | send data w => cases hquiet
  | sendBuffer w => cases hquiet
  | shutdown =>
    obtain rfl := Option.some.inj hs
    obtain ⟨-, -, -, -, hc, -⟩ := Session.shutdown_spec h.toCore
    refine ⟨?_, hc⟩
    show s.session.shutdown.conn.outputBuffer.contents.length = _
    rw [Session.output_shutdown]

theorem MessageCall.run_drains {s s' : Reader} (h : s.session.Inv) {cs : List MessageCall}
    (hp : Along exec (fun s c => c.Possible s) s cs) (hquiet : ∀ c ∈ cs, c.quiet = true)
    (hs : run exec s cs = some s') : s.Drains s' 0 := by
  have hstep : ∀ (t : Reader) (c : MessageCall) (t' : Reader), t.session.Inv ∧ s.Drains t 0 →
      c.Possible t ∧ c.quiet = true → c.exec t = some t' → t'.session.Inv ∧ s.Drains t' 0 := by
    rintro t c t' ⟨hinv, hd⟩ ⟨hpc, hq⟩ ht'
    obtain ⟨u, hu, hserves⟩ := exec_spec hinv hpc
    obtain rfl := Option.some.inj (hu.symm.trans ht')
    obtain ⟨hout, hc⟩ := exec_drains hinv hq ht'
    exact ⟨hserves.session.inv, hout.trans hd.output, hc.trans hd.committed_eq⟩
  exact (run_invariant_along hstep cs s s' ⟨h, rfl, rfl⟩ (hp.and (along_of_forall hquiet)) hs).2

theorem Turn.drains {s s' : Reader} (h : s.session.Inv) {t : Turn} (hp : t.Possible s)
    (hevent : t.event.quiet = true) (hcalls : t.calls.all MessageCall.quiet = true)
    (hs : t.step s = some s') : s.Drains s' t.event.written := by
  obtain ⟨session, hsession, hok⟩ := Session.step_spec h.toCore hp.1
  obtain ⟨hout, hc⟩ := Session.output_step h.toCore hp.1 hsession hevent
  unfold Turn.step at hs
  rw [hsession, Option.bind_some] at hs
  by_cases hin : t.incoming = []
  · rw [if_pos hin] at hs
    rw [← Option.some.inj hs]
    exact ⟨hout, hc⟩
  · rw [if_neg hin] at hs
    obtain ⟨hout', hc'⟩ := MessageCall.run_drains (s := { s with session }) (hok.inv h)
      (hp.2 hin session hsession) (List.all_eq_true.mp hcalls) hs
    refine ⟨?_, hc'.trans hc⟩
    rw [Nat.add_zero] at hout'
    rw [hout']
    exact hout

def ConversationEvent.written : ConversationEvent → ℕ
  | turn t => t.event.written
  | send _ | shutdown | receive _ => 0

namespace Conversation

theorem drains_step {s s' : Conversation} (h : s.Inv) {e : ConversationEvent} (hp : s.Possible e)
    (hquiet : e.quiet = true) (hs : s.step e = some s') : s.server.Drains s'.server e.written := by
  cases e with
  | turn t =>
    obtain ⟨server, hserver, rfl⟩ := Option.map_eq_some_iff.mp hs
    obtain ⟨hevent, hcalls⟩ := Bool.and_eq_true_iff.mp hquiet
    exact Turn.drains h.session hp.1 hevent hcalls hserver
  | send bytes =>
    obtain rfl := Option.some.inj hs
    exact ⟨rfl, rfl⟩
  | shutdown =>
    obtain rfl := Option.some.inj hs
    exact ⟨rfl, rfl⟩
  | receive n =>
    obtain rfl := Option.some.inj hs
    exact ⟨rfl, rfl⟩

/-- Every event that writes takes a byte at least. -/
theorem drains_run (es : List ConversationEvent) : ∀ {s : Conversation}, s.Inv →
    Along step (fun s e => s.Possible e) s es → (∀ e ∈ es, e.quiet = true) →
    ∃ s', run step s es = some s' ∧ s'.Inv ∧
      s'.server.session.conn.outputBuffer.contents.length + es.countP (fun e => 0 < e.written) ≤
        s.server.session.conn.outputBuffer.contents.length ∧
      committed s'.server.session.log = committed s.server.session.log := by
  induction es with
  | nil =>
    intro s h _ _
    exact ⟨s, rfl, h, Nat.le_refl _, rfl⟩
  | cons e es ih =>
    rintro s h ⟨hp, hps⟩ hquiet
    obtain ⟨s₁, hs₁, hinv₁⟩ := step_spec h hp
    obtain ⟨hout, hc⟩ := drains_step h hp (hquiet e List.mem_cons_self) hs₁
    obtain ⟨s', hrun, hinv, hle, hc'⟩ :=
      ih hinv₁ (hps s₁ hs₁) fun e' he' => hquiet e' (List.mem_cons_of_mem e he')
    refine ⟨s', run_cons_eq_some.mpr ⟨s₁, hs₁, hrun⟩, hinv, ?_, hc'.trans hc⟩
    rw [List.countP_cons]
    split_ifs with hw
    · have hpos : 0 < e.written := by simpa using hw
      omega
    · omega

end Conversation

section

variable (activeEvents : Flags) (sockfd : ℤ) (wcc hwm : Bool)

/-- **The output buffer drains.** From every state of every run, when no more is sent: once as many
    calls of `handleWrite` have written something as there were bytes in the output buffer, whatever
    else has happened between them, the buffer is empty, what the client has received and what is
    under way to it is everything the server sent, and a connection that is shutting down has been
    half-closed. -/
theorem output_drains (es es' : List ConversationEvent)
    (hes : Along Conversation.step (fun s e => s.Possible e)
      (Conversation.start activeEvents sockfd wcc hwm) (es ++ es'))
    (hquiet : ∀ e ∈ es', e.quiet = true) {s : Conversation}
    (hs : run Conversation.step (Conversation.start activeEvents sockfd wcc hwm) es = some s)
    (hcount : s.server.session.conn.outputBuffer.contents.length ≤
      es'.countP fun e => 0 < e.written) :
    ∃ s', run Conversation.step s es' = some s' ∧
      s'.server.session.conn.outputBuffer.contents = [] ∧
      s'.received ++ s'.toClient = committed s.server.session.log ∧
      (s'.server.session.conn.state = .kDisconnecting → halfClosed s'.server.session.log) := by
  obtain ⟨halong, hrest⟩ := along_append.mp hes
  have hinv : s.Inv := run_total_invariant (fun _ _ h hp => Conversation.step_spec h hp)
    (Conversation.inv_start activeEvents sockfd wcc hwm) halong hs
  obtain ⟨s', hrun, hinv', hle, hc⟩ := Conversation.drains_run es' hinv (hrest s hs) hquiet
  have hempty : s'.server.session.conn.outputBuffer.contents = [] := by
    rw [← List.length_eq_zero_iff]
    omega
  have hout := hinv'.session.stream
  rw [hempty, List.append_nil, hc] at hout
  exact ⟨s', hrun, hempty, hinv'.received_toClient.trans hout,
    fun hst => hinv'.session.halfClose hst hempty⟩

/-- Two bytes are queued when the server shuts down, and leave one by one. -/
theorem output_drains_sample :
    ∃ s s', run Conversation.step (Conversation.start 0#32 9 false false)
        [.turn ⟨.send [5, 6, 7] (.ok 1), []⟩] = some s ∧
      run Conversation.step s [.turn ⟨.shutdown, []⟩, .turn ⟨.handleWrite (.ok 1), []⟩, .receive 2,
        .turn ⟨.handleWrite (.ok 1), []⟩] = some s' ∧
      s'.received ++ s'.toClient = committed s.server.session.log := by
  have hes : Along Conversation.step (fun s e => s.Possible e)
      (Conversation.start 0#32 9 false false) ([.turn ⟨.send [5, 6, 7] (.ok 1), []⟩] ++
        [.turn ⟨.shutdown, []⟩, .turn ⟨.handleWrite (.ok 1), []⟩, .receive 2,
          .turn ⟨.handleWrite (.ok 1), []⟩]) := by decide +kernel
  obtain ⟨s, hs, -⟩ := run_total (fun _ _ h hp => Conversation.step_spec h hp) _ _
    (Conversation.inv_start 0#32 9 false false) (along_append.mp hes).1
  have hlen : (run Conversation.step (Conversation.start 0#32 9 false false)
      [.turn ⟨.send [5, 6, 7] (.ok 1), []⟩]).map
        (fun s => s.server.session.conn.outputBuffer.contents.length) = some 2 := by decide +kernel
  rw [hs] at hlen
  obtain ⟨s', hs', -, hall, -⟩ := output_drains 0#32 9 false false _ _ hes (by decide) hs
    (Nat.le_of_eq (Option.some.inj hlen))
  exact ⟨s, s', hs, hs', hall⟩

end

end XWeb.Net
