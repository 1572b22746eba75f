import XWeb.Net.HalfClose
import XWeb.Net.SendPaths

/-!
# The incoming stream of a connection

`handleRead` calls `messageCallback_` with the connection and its `inputBuffer_`, and the callback
takes bytes out of the buffer and calls `send` and `shutdown` as it likes. A `Reader` is a
connection with the pieces that have been taken; a `Turn` is an event of the loop thread with the
calls of the callback, if it leads to one.

* `MessageCall.exec_spec`, `Turn.step_spec`: what a call and a turn leave behind.
* `incoming_stream_intact`: whatever the callbacks do, the pieces and the buffer are what was
  read.
-/

namespace XWeb.Net

open XWeb.Lib

/-! ## Model -/

/-- A call made in a message callback. -/
inductive MessageCall
  | retrieve (len : ℕ)
  | retrieveAll
  | retrieveAsString (len : ℕ)
  | retrieveAllAsString
  | send (data : Bytes) (w : WriteResult)
  /-- `send(Buffer*)` with the buffer of the callback -/
  | sendBuffer (w : WriteResult)
  | shutdown
  deriving DecidableEq

structure Reader where
  session : Session
  taken : List Bytes

namespace Reader

/-- The readable bytes of `inputBuffer_`. -/
def contents (s : Reader) : Bytes := s.session.conn.inputBuffer.contents

/-- `piece` has been taken out of `inputBuffer_`, which is `b` now. -/
def take (s : Reader) (piece : Bytes) (b : Buffer) : Reader :=
  { session := s.session.setInput b, taken := s.taken ++ [piece] }

/-- `send(Buffer* buf)` (`net/tcp_connection.cpp` lines 61–74) with `&inputBuffer_`. -/
def sendBuffer (s : Reader) (w : WriteResult) : Option Reader := do
  let (sent, buf) ← sendPointer s.session.conn.state true s.session.conn.inputBuffer
  let session ← sent.calls.foldlM (fun session c => c.exec session w) s.session
  some (Reader.take { s with session } (sent.calls.flatMap fun c => c.bytes.getD []) buf)

/-- What has been taken and what is there. -/
def stream (s : Reader) : Bytes := s.taken.flatten ++ s.contents

/-- A connection in service that has not been sent anything. -/
def established (activeEvents : Flags) (sockfd : ℤ) (wcc hwm : Bool) : Reader :=
  { session := Session.established activeEvents sockfd wcc hwm, taken := [] }

end Reader

namespace MessageCall

/-- The call on the loop thread (`net/buffer.h` lines 73–113, `net/tcp_connection.cpp` lines 50–89
    and 150–155). -/
def exec (s : Reader) : MessageCall → Option Reader
  | retrieve len =>
    (s.session.conn.inputBuffer.retrieve len).map fun b => s.take (s.contents.take len) b
  | retrieveAll => some (s.take s.contents s.session.conn.inputBuffer.retrieveAll)
  | retrieveAsString len =>
    (s.session.conn.inputBuffer.retrieveAsString len).map fun (str, b) => s.take str b
  | retrieveAllAsString =>
    s.session.conn.inputBuffer.retrieveAllAsString.map fun (str, b) => s.take str b
  | send data w => (s.session.send data w).map fun session => { s with session }
  | sendBuffer w => s.sendBuffer w
  | shutdown => some { s with session := s.session.shutdown }

/-- No more is taken than there is; what holds of a `send` anywhere. -/
def Possible (s : Reader) : MessageCall → Prop
  | retrieve len | retrieveAsString len => len ≤ s.session.conn.inputBuffer.readableBytes
  | retrieveAll | retrieveAllAsString | shutdown => True
  | send data w => (ConnEvent.send data w).Possible s.session
  | sendBuffer w => (ConnEvent.send s.contents w).Possible s.session

instance (s : Reader) (c : MessageCall) : Decidable (c.Possible s) := by
  cases c <;> unfold Possible <;> infer_instance

end MessageCall

/-- The bytes that the event reads. -/
def ConnEvent.incoming : ConnEvent → Bytes
  | handleRead (.data bytes) => bytes
  | handleRead (.error _) => []
  | send .. | sendInLoop .. | shutdown | handleWrite _ => []

/-- The peer's half is closed: `write()` fails. -/
def ConnEvent.Refused : ConnEvent → Prop
  | sendInLoop _ w => w = .fail EPIPE
  | send .. | shutdown | handleWrite _ | handleRead _ => True

instance : ∀ e : ConnEvent, Decidable e.Refused
  | .sendInLoop _ w => inferInstanceAs (Decidable (w = _))
  | .send .. | .shutdown | .handleWrite _ | .handleRead _ => instDecidableTrue

/-- An event on the loop thread; if it reads bytes, the calls that the message callback makes. -/
structure Turn where
  event : ConnEvent
  calls : List MessageCall
  deriving DecidableEq

namespace Turn

def incoming (t : Turn) : Bytes := t.event.incoming

def step (s : Reader) (t : Turn) : Option Reader :=
  (t.event.step s.session).bind fun session =>
    if t.incoming = [] then some { s with session }
    else run MessageCall.exec { s with session } t.calls

def Possible (s : Reader) (t : Turn) : Prop :=
  t.event.Possible s.session ∧ (t.incoming ≠ [] → ∀ session ∈ t.event.step s.session,
    Along MessageCall.exec (fun s c => c.Possible s) { s with session } t.calls)

instance (s : Reader) (t : Turn) : Decidable (t.Possible s) := inferInstanceAs (Decidable (_ ∧ _))

end Turn

/-! ## The session -/

namespace Session

variable {s s' s'' : Session}

theorem Inv.setInput (h : s.Inv) {b : Buffer} (hb : b.Wf) : (s.setInput b).Inv where
  outWf := h.outWf
  inWf := hb
  established := h.established
  writing_iff := h.writing_iff
  stream := h.stream
  shutdowns := h.shutdowns
  halfClose := h.halfClose

/-- The log only grows. -/
theorem log_step {e : ConnEvent} (hs : e.step s = some s') : s.log <+: s'.log := by
  rcases quiet_or_closes hs with ⟨⟨-, new, hlog, -⟩, -⟩ | ⟨hcloses, -⟩
  · exact ⟨new, hlog.symm⟩
  · exact ⟨_, hcloses.log_eq.symm⟩

theorem input_step (h : s.Core) {e : ConnEvent} (hp : e.Possible s) (hs : e.step s = some s') :
    s'.conn.inputBuffer.contents = s.conn.inputBuffer.contents ++ e.incoming := by
  have hkeep : ∀ t : Session, t.conn.inputBuffer = s.conn.inputBuffer →
      t.conn.inputBuffer.contents = s.conn.inputBuffer.contents ++ [] := by
    intro t ht
    rw [ht, List.append_nil]
  cases e with
  | send data w =>
    by_cases hst : s.conn.state = .kConnected
    · obtain ⟨t, ht, hsends⟩ := sendInLoop_spec h (by rw [hst]; simp) hp.1 hp.2
      obtain rfl := Option.some.inj (ht.symm.trans ((if_pos hst).symm.trans hs))
      exact hkeep _ hsends.input_eq
    · obtain rfl := Option.some.inj ((if_neg hst).symm.trans hs)
      exact hkeep _ rfl
  | sendInLoop data w =>
    by_cases hst : s.conn.state = .kDisconnected
    · exact hkeep _ (by rw [step_disconnected hst hp hs])
    · obtain ⟨t, ht, hsends⟩ := sendInLoop_spec h hst hp.1 hp.2
      obtain rfl := Option.some.inj (ht.symm.trans hs)
      exact hkeep _ hsends.input_eq
  | shutdown =>
    rw [← Option.some.inj hs]
    apply hkeep
    unfold shutdown
    split_ifs
    · rw [shutdownInLoop_conn]
      rfl
    · rfl
  | handleWrite w =>
    apply hkeep
    rcases handleWrite_cases hs with ⟨-, rfl⟩ | ⟨-, rfl | ⟨n, b, -, -, ⟨-, rfl⟩ | ⟨-, rfl⟩⟩⟩
    · rfl
    · rfl
    · rfl
    · rw [drained_conn]
      rfl
  | handleRead r =>
    obtain ⟨b, hb, hcases⟩ := handleRead_cases hs
    have hc : s'.conn.inputBuffer = b := by
      rcases hcases with ⟨-, rfl | rfl⟩ | ⟨-, -, rfl⟩ <;> rfl
    obtain ⟨b', hb', -, heffect⟩ := BufferOp.exec_spec h.inWf (.readFd r) hp.2
    obtain rfl : b' = b := Option.some.inj (hb'.symm.trans hb)
    rw [hc, heffect]
    cases r with
    | data bytes => rfl
    | error errno => exact (List.append_nil _).symm

/-- `sendInLoop` on a half-closed connection drops the message. -/
theorem sendInLoop_refused (h : s.Core) (hempty : s.conn.outputBuffer.contents = [])
    (hst : s.conn.state ≠ .kDisconnected) (data : Bytes) :
    s.sendInLoop data (.fail EPIPE) = some (s.emit (.write data (.fail EPIPE))) := by
  have hw : s.conn.channel.isWriting = false := h.isWriting_eq_false.mpr hempty
  have hr : s.conn.outputBuffer.readableBytes = 0 := h.readableBytes_eq_zero.mpr hempty
  have hdirect : s.directWrite data (.fail EPIPE) =
      ⟨s.emit (.write data (.fail EPIPE)), 0, data.length, true⟩ := by
    unfold directWrite
    rw [if_pos ⟨by simp [hw], hr⟩]
    rfl
  unfold sendInLoop
  rw [if_neg hst, hdirect]
  simp

/-- A half-closed connection stays as it is, if the functors that still run are refused. -/
theorem settled_step (h : s.Core) (hset : s.Settled) {e : ConnEvent} (hp : e.Possible s)
    (hk : halfClosed s.log → e.Refused) (hs : e.step s = some s') : s'.Settled := by
  by_cases hc : halfClosed s.log
  · obtain ⟨hempty, hne⟩ := hset hc
    cases e with
    | send data w =>
      obtain rfl : s = s' := Option.some.inj ((if_neg hne).symm.trans hs)
      exact hset
    | sendInLoop data w =>
      by_cases hst : s.conn.state = .kDisconnected
      · rwa [step_disconnected hst hp hs]
      · obtain rfl : w = .fail EPIPE := hk hc
        rw [← Option.some.inj ((sendInLoop_refused h hempty hst data).symm.trans hs)]
        exact fun _ => ⟨hempty, hne⟩
    | shutdown =>
      obtain rfl : s = s' := (if_neg hne).symm.trans (Option.some.inj hs)
      exact hset
    | handleWrite w =>
      rcases handleWrite_cases hs with ⟨-, rfl⟩ | ⟨hwriting, -⟩
      · exact hset
      · exact absurd hempty (h.writing_iff.mp hwriting)
    | handleRead r =>
      obtain ⟨b, -, ⟨-, rfl | rfl⟩ | ⟨-, -, rfl⟩⟩ := handleRead_cases hs
      · exact fun _ => ⟨hempty, hne⟩
      · exact fun _ => ⟨hempty, hne⟩
      · exact fun _ => ⟨hempty, by simp [setState]⟩
  · by_cases hf : e.isFunctor = true
    · cases e with
      | sendInLoop data w =>
        by_cases hst : s.conn.state = .kDisconnected
        · rwa [step_disconnected hst hp hs]
        · obtain ⟨t, ht, hsends⟩ := sendInLoop_spec h hst hp.1 hp.2
          obtain rfl := Option.some.inj (ht.symm.trans hs)
          exact (settled_of_open (hsends.ext.still_open hc)).2
      | send => simp [ConnEvent.isFunctor] at hf
      | shutdown => simp [ConnEvent.isFunctor] at hf
      | handleWrite => simp [ConnEvent.isFunctor] at hf
      | handleRead => simp [ConnEvent.isFunctor] at hf
    · exact (step_silent h (silent_of_open hc) hset (by simpa using hf) hp hs).2

/-- What the calls of a callback leave behind. -/
structure Advances (s s' : Session) : Prop where
  inv : s'.Inv
  log : s.log <+: s'.log
  live_iff : s'.conn.Live ↔ s.conn.Live
  settled : s.Settled → s'.Settled

theorem Advances.refl (h : s.Inv) : s.Advances s := ⟨h, List.prefix_refl _, Iff.rfl, id⟩

theorem Advances.trans (h : s.Advances s') (h' : s'.Advances s'') : s.Advances s'' where
  inv := h'.inv
  log := h.log.trans h'.log
  live_iff := h'.live_iff.trans h.live_iff
  settled := h'.settled ∘ h.settled

theorem Inv.advances_setInput (h : s.Inv) {b : Buffer} (hb : b.Wf) : s.Advances (s.setInput b) :=
  ⟨h.setInput hb, List.prefix_refl _, Iff.rfl, id⟩

/-- A `send` or a `shutdown`. -/
theorem Inv.advances_step (h : s.Inv) {e : ConnEvent} (hf : e.Refused) (hp : e.Possible s)
    (hne : e ≠ .handleRead (.data [])) (hs : e.step s = some s') : s.Advances s' := by
  obtain ⟨t, ht, hok⟩ := step_spec h.toCore hp
  obtain rfl := Option.some.inj (ht.symm.trans hs)
  refine ⟨hok.inv h, log_step hs, ?_, fun hset => settled_step h.toCore hset hp (fun _ => hf) hs⟩
  rw [hok.live_iff]
  exact and_iff_left hne

end Session

/-! ## Calls -/

namespace Reader

variable {s : Reader}

theorem take_stream {piece : Bytes} {b : Buffer} (h : piece ++ b.contents = s.contents) :
    (s.take piece b).stream = s.stream := by
  show (s.taken ++ [piece]).flatten ++ b.contents = s.taken.flatten ++ s.contents
  rw [List.flatten_concat, List.append_assoc, h]

/-- `send(Buffer*)` is `send` of the contents; then the buffer is empty. -/
theorem sendBuffer_eq (h : s.session.conn.inputBuffer.Wf) (w : WriteResult) :
    s.sendBuffer w = if s.session.conn.state = .kConnected then
      (s.session.sendInLoop s.contents w).map fun session =>
        Reader.take { s with session } s.contents s.session.conn.inputBuffer.retrieveAll
    else some (s.take [] s.session.conn.inputBuffer) := by
  unfold sendBuffer sendPointer Net.sendBuffer
  split_ifs with hst
  · obtain ⟨hle, htake⟩ := h.take_peek
    have hbytes : (SendInLoop.mk s.session.conn.inputBuffer.peek
        s.session.conn.inputBuffer.readableBytes).bytes = some s.contents := by
      rw [SendInLoop.bytes, if_pos hle, htake, contents]
    simp only [Option.bind_eq_bind, Option.bind_some, List.foldlM_cons, List.foldlM_nil,
      SendInLoop.exec, hbytes, List.flatMap_cons, List.flatMap_nil, Option.getD_some,
      List.append_nil]
    cases s.session.sendInLoop s.contents w with
    | none => rfl
    | some session => rfl
  · exact absurd rfl ‹¬ true = true›
  · rfl

end Reader

/-- What a call leaves behind. -/
structure Reader.Serves (s s' : Reader) : Prop where
  session : s.session.Advances s'.session
  stream : s'.stream = s.stream

theorem Reader.Serves.refl {s : Reader} (h : s.session.Inv) : s.Serves s := ⟨.refl h, rfl⟩

theorem Reader.Serves.trans {s s' s'' : Reader} (h : s.Serves s') (h' : s'.Serves s'') :
    s.Serves s'' := ⟨h.session.trans h'.session, h'.stream.trans h.stream⟩

namespace Reader

variable {s : Reader}

theorem serves_take (h : s.session.Inv) {piece : Bytes} {b : Buffer} (hb : b.Wf)
    (hpiece : piece ++ b.contents = s.contents) : s.Serves (s.take piece b) :=
  ⟨h.advances_setInput hb, take_stream hpiece⟩

theorem serves_step (h : s.session.Inv) {e : ConnEvent} (hf : e.Refused) (hin : e.incoming = [])
    (hne : e ≠ .handleRead (.data [])) (hp : e.Possible s.session) {session : Session}
    (hs : e.step s.session = some session) : s.Serves { s with session } := by
  have hc := Session.input_step h.toCore hp hs
  rw [hin, List.append_nil] at hc
  refine ⟨h.advances_step hf hp hne hs, ?_⟩
  show s.taken.flatten ++ session.conn.inputBuffer.contents = s.taken.flatten ++ s.contents
  rw [hc, contents]

theorem serves_send (h : s.session.Inv) {data : Bytes} {w : WriteResult}
    (hp : (ConnEvent.send data w).Possible s.session) :
    ∃ session, s.session.send data w = some session ∧ s.Serves { s with session } := by
  obtain ⟨session, hs, -⟩ := Session.step_spec h.toCore hp
  exact ⟨session, hs, serves_step h (e := .send data w) trivial rfl (by simp) hp hs⟩

theorem serves_sendBuffer (h : s.session.Inv) {w : WriteResult}
    (hp : (ConnEvent.send s.contents w).Possible s.session) :
    ∃ s', s.sendBuffer w = some s' ∧ s.Serves s' := by
  have hwf := h.inWf
  obtain ⟨session, hs, hserves⟩ := serves_send h hp
  rw [sendBuffer_eq hwf]
  by_cases hst : s.session.conn.state = .kConnected
  · obtain ⟨hwf', hempty⟩ := Buffer.retrieveAll_spec hwf
    have hsend : s.session.sendInLoop s.contents w = some session := (if_pos hst).symm.trans hs
    rw [if_pos hst, hsend]
    refine ⟨_, rfl, hserves.session.trans (hserves.session.inv.advances_setInput hwf'), ?_⟩
    show (s.taken ++ [s.contents]).flatten ++ s.session.conn.inputBuffer.retrieveAll.contents = _
    rw [hempty, List.append_nil, List.flatten_concat]
    rfl
  · rw [if_neg hst]
    exact ⟨_, rfl, serves_take h hwf rfl⟩

end Reader

namespace MessageCall

/-- A call asserts nothing false, and neither loses nor adds bytes. -/
theorem exec_spec {s : Reader} (h : s.session.Inv) {c : MessageCall} (hp : c.Possible s) :
    ∃ s', c.exec s = some s' ∧ s.Serves s' := by
  have hwf := h.inWf
  cases c with
  | retrieve len =>
    obtain ⟨b, hb, hbwf, hc⟩ := Buffer.retrieve_spec hwf hp
    refine ⟨s.take (s.contents.take len) b, by rw [exec, hb]; rfl, Reader.serves_take h hbwf ?_⟩
    rw [hc]
    exact List.take_append_drop len _
  | retrieveAll =>
    obtain ⟨hbwf, hc⟩ := Buffer.retrieveAll_spec hwf
    exact ⟨_, rfl, Reader.serves_take h hbwf (by rw [hc, List.append_nil])⟩
  | retrieveAsString len =>
    obtain ⟨b, hb, hbwf, hc⟩ := Buffer.retrieveAsString_spec hwf hp
    refine ⟨s.take (s.contents.take len) b, by rw [exec, hb]; rfl, Reader.serves_take h hbwf ?_⟩
    rw [hc]
    exact List.take_append_drop len _
  | retrieveAllAsString =>
    obtain ⟨b, hb, hbwf, hc⟩ := Buffer.retrieveAsString_spec hwf (Nat.le_refl _)
    refine ⟨s.take (s.contents.take _) b, by rw [exec, Buffer.retrieveAllAsString, hb]; rfl,
      Reader.serves_take h hbwf ?_⟩
    rw [hc]
    exact List.take_append_drop _ _
  | send data w =>
    obtain ⟨session, hs, hserves⟩ := Reader.serves_send h hp
    exact ⟨{ s with session }, by rw [exec, hs]; rfl, hserves⟩
  | sendBuffer w => exact Reader.serves_sendBuffer h hp
  | shutdown =>
    exact ⟨_, rfl, Reader.serves_step h (e := .shutdown) trivial rfl (by simp) trivial rfl⟩

theorem run_spec (cs : List MessageCall) {s : Reader} (h : s.session.Inv)
    (hp : Along exec (fun s c => c.Possible s) s cs) :
    ∃ s', run exec s cs = some s' ∧ s.Serves s' := by
  refine run_total (I := fun t => s.Serves t) (fun t c ht hc => ?_) cs s (.refl h) hp
  obtain ⟨t', ht', hserves⟩ := exec_spec ht.session.inv hc
  exact ⟨t', ht', ht.trans hserves⟩

end MessageCall

/-! ## Turns -/

namespace Turn

/-- The event, and then the calls. -/
theorem step_spec {s : Reader} (h : s.session.Inv) {t : Turn} (hp : t.Possible s) :
    ∃ session s', t.event.step s.session = some session ∧ t.step s = some s' ∧
      s.session.StepOk t.event session ∧ session.Advances s'.session ∧
      s'.stream = s.stream ++ t.incoming := by
  obtain ⟨session, hs, hok⟩ := Session.step_spec h.toCore hp.1
  have hinv : session.Inv := hok.inv h
  have hc := Session.input_step h.toCore hp.1 hs
  have hstream : Reader.stream { s with session } = s.stream ++ t.incoming := by
    show s.taken.flatten ++ session.conn.inputBuffer.contents = _
    rw [hc, ← List.append_assoc]
    rfl
  unfold step
  rw [hs, Option.bind_some]
  by_cases hin : t.incoming = []
  · rw [if_pos hin]
    exact ⟨session, _, rfl, rfl, hok, .refl hinv, hstream⟩
  · rw [if_neg hin]
    obtain ⟨s', hs', hserves⟩ :=
      MessageCall.run_spec t.calls (s := { s with session }) hinv (hp.2 hin session hs)
    exact ⟨session, s', rfl, hs', hok, hserves.session, hserves.stream.trans hstream⟩

end Turn

section

variable (activeEvents : Flags) (sockfd : ℤ) (wcc hwm : Bool)

/-- **Incoming stream.** In every run of an established connection, with message callbacks that
    take bytes out of the buffer, send and shut down as they like: no `assert` fails, the pieces
    taken and the bytes in `inputBuffer_` are the bytes read, in order, and the invariant of the
    outgoing stream holds. -/
theorem incoming_stream_intact (ts : List Turn)
    (hts : Along Turn.step (fun s t => t.Possible s)
      (Reader.established activeEvents sockfd wcc hwm) ts) :
    ∃ s, run Turn.step (Reader.established activeEvents sockfd wcc hwm) ts = some s ∧
      s.taken.flatten ++ s.contents = ts.flatMap Turn.incoming ∧ s.session.Inv := by
  have hstart : (Reader.established activeEvents sockfd wcc hwm).stream = [] := Buffer.contents_init
  have hsim : ∃ s, run Turn.step (Reader.established activeEvents sockfd wcc hwm) ts = some s ∧
      (s.session.Inv ∧ s.stream = ts.foldl (fun q t => q ++ t.incoming) []) := by
    refine run_refines _ (fun s q => s.session.Inv ∧ s.stream = q) ?_ ts _ []
      ⟨Session.inv_established activeEvents sockfd wcc hwm, hstart⟩ hts
    rintro s q t ⟨hinv, rfl⟩ hp
    obtain ⟨session, s', -, hs', -, hadv, hstream⟩ := Turn.step_spec hinv hp
    exact ⟨s', hs', hadv.inv, hstream⟩
  obtain ⟨s, hs, hinv, hstream⟩ := hsim
  refine ⟨s, hs, ?_, hinv⟩
  rw [List.flatMap_eq_foldl]
  exact hstream

/-- The callback takes two bytes of three and sends them on, then the rest goes back. -/
theorem incoming_stream_intact_sample :
    ∃ s, run Turn.step (Reader.established 0#32 8 false false)
      [⟨.handleRead (.data [1, 2, 3]), [.retrieveAsString 2, .send [1, 2] (.ok 1)]⟩,
        ⟨.handleWrite (.ok 1), []⟩,
        ⟨.handleRead (.data [4]), [.sendBuffer (.ok 2), .shutdown]⟩] = some s ∧
      s.taken.flatten ++ s.contents = [1, 2, 3, 4] ∧ s.session.Inv :=
  incoming_stream_intact 0#32 8 false false _ (by decide +kernel)

end

end XWeb.Net
