import XWeb.Net.TcpConnection

/-!
# The outgoing stream of a connection

`Session.Inv` is the invariant of a connection between loop steps. It ties the WRITE interest
to the output buffer, the output buffer to the stream of accepted bytes, and the half-close to
both.

* `sendInLoop_spec`, `handleWrite_spec`: what one call does to the stream.
* `Session.step_spec`: every possible event keeps the invariant and fails no `assert`.
* `outgoing_stream_intact`: nothing is lost, duplicated or reordered between the direct write
  and the buffered path.
* `half_close_after_drain`: `shutdownWrite()` waits for the buffer and is not forgotten.
* `read_interest_kept_iff`: the READ interest survives exactly the runs in which no
  `handleWrite` drains the buffer.
-/

namespace XWeb.Net

open XWeb.Lib

/-! ## The stream recorded in a log -/

@[simp] theorem accepted_nil : accepted [] = [] := rfl

@[simp] theorem committed_nil : committed [] = [] := rfl

@[simp] theorem accepted_append (l m : List Entry) : accepted (l ++ m) = accepted l ++ accepted m := by
  simp [accepted]

@[simp] theorem committed_append (l m : List Entry) :
    committed (l ++ m) = committed l ++ committed m := by
  simp [committed]

section

variable (data : Bytes) (c : TcpConnection) (l : List Entry)

@[simp] theorem accepted_cons_write (n : ℕ) :
    accepted (⟨.write data (.ok n), c⟩ :: l) = data.take n ++ accepted l := by simp [accepted]

@[simp] theorem accepted_cons_write_fail (e : ℕ) :
    accepted (⟨.write data (.fail e), c⟩ :: l) = accepted l := by simp [accepted]

@[simp] theorem committed_cons_write (w : WriteResult) :
    committed (⟨.write data w, c⟩ :: l) = committed l := by simp [committed]

@[simp] theorem accepted_cons_commit : accepted (⟨.commit data, c⟩ :: l) = accepted l := by
  simp [accepted]

@[simp] theorem committed_cons_commit :
    committed (⟨.commit data, c⟩ :: l) = data ++ committed l := by simp [committed]

end

/-- An action that is neither a `write()` nor a `commit` nor `shutdownWrite()`. -/
def Io.Neutral : Io → Prop
  | .write _ _ | .commit _ | .shutdownWrite => False
  | _ => True

theorem Io.Neutral.ne_shutdownWrite {io : Io} (h : io.Neutral) : io ≠ .shutdownWrite := by
  rintro rfl; exact h

namespace Session

theorem accepted_emit (s : Session) {io : Io} (h : io.Neutral) :
    accepted (s.emit io).log = accepted s.log := by
  rw [emit_log, accepted_append, List.append_right_eq_self]
  cases io <;> first | rfl | exact h.elim

theorem committed_emit (s : Session) {io : Io} (h : io.Neutral) :
    committed (s.emit io).log = committed s.log := by
  rw [emit_log, committed_append, List.append_right_eq_self]
  cases io <;> first | rfl | exact h.elim

/-- `s'` comes from `s` by an extension of the log with actions other than `shutdownWrite()`. -/
def Extends (s s' : Session) : Prop :=
  ∃ new, s'.log = s.log ++ new ∧ ∀ e ∈ new, e.io ≠ .shutdownWrite

theorem Extends.refl (s : Session) : s.Extends s := ⟨[], by simp, by simp⟩

theorem Extends.trans {s s' s'' : Session} (h : s.Extends s') (h' : s'.Extends s'') :
    s.Extends s'' := by
  obtain ⟨new, hl, hn⟩ := h
  obtain ⟨new', hl', hn'⟩ := h'
  refine ⟨new ++ new', by rw [hl', hl, List.append_assoc], fun e he => ?_⟩
  rcases List.mem_append.mp he with he | he
  · exact hn e he
  · exact hn' e he

theorem extends_emit (s : Session) (io : Io) (h : io ≠ .shutdownWrite) : s.Extends (s.emit io) :=
  ⟨_, rfl, by simpa using h⟩

/-! ## The invariant -/

/-- Every `shutdownWrite()` was called with an empty output buffer, when `write()` had accepted
    everything `sendInLoop` had taken charge of. -/
def ShutdownsDrained (log : List Entry) : Prop :=
  Always (fun pre e => e.io = .shutdownWrite →
    e.conn.outputBuffer.contents = [] ∧ accepted pre = committed pre) log

/-- The invariant without the promise of a half-close. -/
structure Core (s : Session) : Prop where
  outWf : s.conn.outputBuffer.Wf
  inWf : s.conn.inputBuffer.Wf
  established : s.conn.state ≠ .kConnecting
  writing_iff : s.conn.channel.isWriting = true ↔ s.conn.outputBuffer.contents ≠ []
  stream : accepted s.log ++ s.conn.outputBuffer.contents = committed s.log
  shutdowns : ShutdownsDrained s.log

/-- A connection that is shutting down and has nothing left to drain has been half-closed. -/
def Promised (s : Session) : Prop :=
  s.conn.state = .kDisconnecting → s.conn.outputBuffer.contents = [] → halfClosed s.log

/-- The invariant of a connection between loop steps. -/
structure Inv (s : Session) : Prop extends Core s where
  halfClose : s.conn.state = .kDisconnecting → s.conn.outputBuffer.contents = [] →
    halfClosed s.log

theorem Extends.halfClosed {s s' : Session} (h : s.Extends s') (hs : Net.halfClosed s.log) :
    Net.halfClosed s'.log := by
  obtain ⟨new, hl, -⟩ := h
  obtain ⟨e, he, hio⟩ := hs
  exact ⟨e, by rw [hl]; exact List.mem_append_left _ he, hio⟩

theorem Extends.shutdowns {s s' : Session} (h : s.Extends s') (hs : ShutdownsDrained s.log) :
    ShutdownsDrained s'.log := by
  obtain ⟨new, hl, hn⟩ := h
  rw [hl]
  exact hs.append fun pre e he hio => absurd hio (hn e he)

theorem Core.readableBytes_eq_zero {s : Session} (h : s.Core) :
    s.conn.outputBuffer.readableBytes = 0 ↔ s.conn.outputBuffer.contents = [] := by
  rw [← h.outWf.length_contents, List.length_eq_zero_iff]

theorem Core.isWriting_eq_false {s : Session} (h : s.Core) :
    s.conn.channel.isWriting = false ↔ s.conn.outputBuffer.contents = [] := by
  have := h.writing_iff
  cases hw : s.conn.channel.isWriting <;> simp_all

/-- A neutral action changes nothing but the log. -/
theorem Core.emit {s : Session} (h : s.Core) {io : Io} (hio : io.Neutral) : (s.emit io).Core where
  outWf := h.outWf
  inWf := h.inWf
  established := h.established
  writing_iff := h.writing_iff
  stream := by rw [accepted_emit s hio, committed_emit s hio]; exact h.stream
  shutdowns := (s.extends_emit io hio.ne_shutdownWrite).shutdowns h.shutdowns

theorem Inv.emit {s : Session} (h : s.Inv) {io : Io} (hio : io.Neutral) : (s.emit io).Inv :=
  ⟨h.toCore.emit hio, fun h1 h2 =>
    (s.extends_emit io hio.ne_shutdownWrite).halfClosed (h.halfClose h1 h2)⟩

theorem Core.setState {s : Session} (h : s.Core) {st : StateE} (hst : st ≠ .kConnecting) :
    (s.setState st).Core :=
  ⟨h.outWf, h.inWf, hst, h.writing_iff, h.stream, h.shutdowns⟩

theorem shutdownInLoop_conn (s : Session) : s.shutdownInLoop.conn = s.conn := by
  unfold Session.shutdownInLoop; split_ifs <;> rfl

theorem committed_shutdownInLoop (s : Session) :
    committed s.shutdownInLoop.log = committed s.log := by
  unfold Session.shutdownInLoop; split_ifs <;> simp [committed]

/-- The two places that decide the half-close both end in `shutdownInLoop`, which restores the
    promise: it calls `shutdownWrite()` unless there are bytes left to drain. -/
theorem Core.shutdownInLoop {s : Session} (h : s.Core) : s.shutdownInLoop.Inv := by
  by_cases hw : s.conn.channel.isWriting = true
  · rw [Session.shutdownInLoop, if_pos hw]
    exact ⟨h, fun _ hc => absurd hc (h.writing_iff.mp hw)⟩
  · have hc := h.isWriting_eq_false.mp (by simpa using hw)
    rw [Session.shutdownInLoop, if_neg hw]
    refine ⟨⟨h.outWf, h.inWf, h.established, h.writing_iff, by simpa [accepted, committed] using
      h.stream, ?_⟩, fun _ _ => ⟨⟨.shutdownWrite, s.conn⟩, by simp, rfl⟩⟩
    refine h.shutdowns.concat fun _ => ⟨hc, ?_⟩
    have := h.stream
    rwa [hc, List.append_nil] at this

theorem inv_established (activeEvents : Flags) (sockfd : ℤ) (wcc hwm : Bool) :
    (established activeEvents sockfd wcc hwm).Inv := by
  have hc : Buffer.init.contents = [] := Buffer.contents_init
  refine ⟨⟨Buffer.wf_init, Buffer.wf_init, by rintro ⟨⟩, ?_, ?_, ?_⟩, by rintro ⟨⟩⟩
  · show (Channel.setEvent _ CHANNEL_READ).isWriting = true ↔ Buffer.init.contents ≠ []
    rw [Channel.isWriting_setEvent_read, hc]; simp
  · show [] ++ Buffer.init.contents = []
    rw [hc]; rfl
  · exact ((always_nil _).concat fun h => by cases h).concat fun h => by cases h

/-! ## `sendInLoop` -/

theorem writeComplete_conn (s : Session) : s.writeComplete.conn = s.conn := by
  unfold writeComplete; split_ifs <;> rfl

theorem extends_writeComplete (s : Session) : s.Extends s.writeComplete := by
  unfold writeComplete
  split_ifs
  · exact s.extends_emit _ (by simp)
  · exact Extends.refl s

theorem writeComplete_stream (s : Session) :
    accepted s.writeComplete.log = accepted s.log ∧
      committed s.writeComplete.log = committed s.log := by
  unfold writeComplete
  split_ifs
  · exact ⟨accepted_emit s trivial, committed_emit s trivial⟩
  · exact ⟨rfl, rfl⟩

theorem Core.writeComplete {s : Session} (h : s.Core) : s.writeComplete.Core := by
  unfold Session.writeComplete
  split_ifs
  · exact h.emit trivial
  · exact h

/-- `sendInLoop` writes directly and `write()` reports that the peer is gone: the message is
    dropped. -/
def Faults (s : Session) (w : WriteResult) : Prop :=
  s.conn.channel.isWriting = false ∧ s.conn.outputBuffer.readableBytes = 0 ∧ w.isFault = true

instance (s : Session) (w : WriteResult) : Decidable (s.Faults w) := by
  unfold Faults; infer_instance

/-- What the direct write leaves behind. -/
structure DirectOk (s : Session) (data : Bytes) (w : WriteResult) (d : Direct) : Prop where
  conn_eq : d.session.conn = s.conn
  nwrote_le : d.nwrote ≤ data.length
  remaining_eq : d.remaining = data.length - d.nwrote
  fault_iff : d.faultError = true ↔ s.Faults w
  nwrote_eq : s.conn.outputBuffer.contents ≠ [] ∨ s.Faults w → d.nwrote = 0
  ext : s.Extends d.session
  accepted_eq : accepted d.session.log = accepted s.log ++ data.take d.nwrote
  committed_eq : committed d.session.log = committed s.log ++ if s.Faults w then [] else data

theorem directWrite_spec {s : Session} (h : s.Core) {data : Bytes} {w : WriteResult}
    (hw : w.Within data.length) (hlen : data.length < 2 ^ 64) :
    DirectOk s data w (s.directWrite data w) := by
  unfold directWrite
  by_cases hdir : ¬ s.conn.channel.isWriting = true ∧ s.conn.outputBuffer.readableBytes = 0
  · rw [if_pos hdir]
    have hempty := h.readableBytes_eq_zero.mp hdir.2
    have hnw : s.conn.channel.isWriting = false := by simpa using hdir.1
    cases w with
    | ok n =>
      have hn : n ≤ data.length := hw
      have hnf : ¬ s.Faults (.ok n) := by rintro ⟨-, -, h⟩; cases h
      have hrem : sizeSub data.length n = data.length - n := sizeSub_of_le hn hlen
      have hext : s.Extends ((s.emit (.write data (.ok n))).emit (.commit data)) :=
        (s.extends_emit _ (by simp)).trans (extends_emit _ _ (by simp))
      simp only [hrem]
      split_ifs
      · obtain ⟨ha, hc⟩ := writeComplete_stream ((s.emit (.write data (.ok n))).emit (.commit data))
        exact ⟨writeComplete_conn _, hn, rfl, by simp [hnf], by simp [hnf, hempty],
          hext.trans (extends_writeComplete _), by simp [ha], by simp [hc, hnf]⟩
      · exact ⟨rfl, hn, rfl, by simp [hnf], by simp [hnf, hempty], hext, by simp, by simp [hnf]⟩
    | fail e =>
      have hf : s.Faults (.fail e) ↔ (WriteResult.fail e).isFault = true :=
        ⟨fun h => h.2.2, fun h => ⟨hnw, hdir.2, h⟩⟩
      have hext := s.extends_emit (.write data (.fail e)) (by simp)
      by_cases hfault : (WriteResult.fail e).isFault = true
      · simp only [hfault, if_true]
        exact ⟨rfl, Nat.zero_le _, rfl, by simp [hf, hfault], fun _ => rfl, hext, by simp,
          by simp [hf, hfault]⟩
      · simp only [hfault, if_false, Bool.false_eq_true]
        exact ⟨rfl, Nat.zero_le _, rfl, by simp [hf, hfault], fun _ => rfl,
          hext.trans (extends_emit _ _ (by simp)), by simp, by simp [hf, hfault]⟩
  · rw [if_neg hdir]
    have hnf : ¬ s.Faults w := by
      rintro ⟨h1, h2, -⟩; exact hdir ⟨by simp [h1], h2⟩
    exact ⟨rfl, Nat.zero_le _, rfl, by simp [hnf], fun _ => rfl, s.extends_emit _ (by simp), by simp,
      by simp [hnf]⟩

/-- What a call of `sendInLoop` that takes charge of `data` leaves behind. -/
structure Sends (s s' : Session) (data : Bytes) : Prop where
  state_eq : s'.conn.state = s.conn.state
  input_eq : s'.conn.inputBuffer = s.conn.inputBuffer
  isReading_eq : s'.conn.channel.isReading = s.conn.channel.isReading
  outWf : s'.conn.outputBuffer.Wf
  writing_iff : s'.conn.channel.isWriting = true ↔ s'.conn.outputBuffer.contents ≠ []
  ext : s.Extends s'
  contents_ne : s.conn.outputBuffer.contents ≠ [] → s'.conn.outputBuffer.contents ≠ []
  committed_eq : committed s'.log = committed s.log ++ data
  stream : accepted s'.log ++ s'.conn.outputBuffer.contents = committed s'.log

theorem Sends.core {s s' : Session} {data : Bytes} (h : s.Core) (hs : s.Sends s' data) : s'.Core where
  outWf := hs.outWf
  inWf := by rw [hs.input_eq]; exact h.inWf
  established := by rw [hs.state_eq]; exact h.established
  writing_iff := hs.writing_iff
  stream := hs.stream
  shutdowns := hs.ext.shutdowns h.shutdowns

theorem Sends.promised {s s' : Session} {data : Bytes} (hs : s.Sends s' data) (h : s.Promised) :
    s'.Promised := by
  intro hst hc
  rw [hs.state_eq] at hst
  by_cases hc' : s.conn.outputBuffer.contents = []
  · exact hs.ext.halfClosed (h hst hc')
  · exact absurd hc (hs.contents_ne hc')

theorem highWater_conn (s : Session) (n : ℕ) : (s.highWater n).conn = s.conn := by
  unfold highWater; dsimp only; split_ifs <;> rfl

theorem extends_highWater (s : Session) (n : ℕ) : s.Extends (s.highWater n) := by
  unfold highWater
  dsimp only
  split_ifs
  · exact s.extends_emit _ (by simp)
  · exact Extends.refl s

theorem highWater_stream (s : Session) (n : ℕ) :
    accepted (s.highWater n).log = accepted s.log ∧
      committed (s.highWater n).log = committed s.log := by
  unfold highWater
  dsimp only
  split_ifs
  · exact ⟨accepted_emit s trivial, committed_emit s trivial⟩
  · exact ⟨rfl, rfl⟩

/-- The remainder is appended behind the queued bytes and the WRITE interest is set. -/
theorem queueRest_spec {s : Session} (hwf : s.conn.outputBuffer.Wf) {rest : Bytes}
    (hf : s.conn.outputBuffer.Fits rest.length) :
    ∃ s', s.queueRest rest = some s' ∧ s'.conn.state = s.conn.state ∧
      s'.conn.inputBuffer = s.conn.inputBuffer ∧
      s'.conn.channel.isReading = s.conn.channel.isReading ∧
      s'.conn.channel.isWriting = true ∧ s'.conn.outputBuffer.Wf ∧
      s'.conn.outputBuffer.contents = s.conn.outputBuffer.contents ++ rest ∧
      s.Extends s' ∧ accepted s'.log = accepted s.log ∧ committed s'.log = committed s.log := by
  obtain ⟨b, hb, hbwf, hbc⟩ := Buffer.append_spec hwf hf
  have hconn := s.highWater_conn rest.length
  obtain ⟨ha, hc⟩ := s.highWater_stream rest.length
  have hext : s.Extends ((s.highWater rest.length).setOutput b) := s.extends_highWater rest.length
  by_cases hw : s.conn.channel.isWriting = true
  · refine ⟨(s.highWater rest.length).setOutput b, by simp [queueRest, hconn, hb, setOutput, hw],
      ?_, ?_, ?_, ?_, hbwf, hbc, hext, ha, hc⟩ <;> simp [setOutput, hconn, hw]
  · refine ⟨(((s.highWater rest.length).setOutput b).setEvent
      (s.conn.channel.events ||| CHANNEL_WRITE)).emit .updateChannel,
      by simp [queueRest, hconn, hb, setOutput, hw], ?_, ?_, ?_, ?_, hbwf, hbc,
      hext.trans (extends_emit _ _ (by simp)), ?_, ?_⟩
    · simp [emit, setEvent, setOutput, hconn]
    · simp [emit, setEvent, setOutput, hconn]
    · rw [emit_conn, setEvent, setOutput, hconn]; exact Channel.isReading_or_write _
    · rw [emit_conn, setEvent, setOutput, hconn]; exact Channel.isWriting_or_write _
    · rw [accepted_emit _ (show Io.Neutral .updateChannel from trivial)]; exact ha
    · rw [committed_emit _ (show Io.Neutral .updateChannel from trivial)]; exact hc

/-- What is accepted, what was queued before and what `write()` left of the message. -/
theorem DirectOk.stream {s : Session} (h : s.Core) {data : Bytes} {w : WriteResult} {d : Direct}
    (hd : DirectOk s data w d) :
    accepted d.session.log ++ s.conn.outputBuffer.contents ++
      (if s.Faults w then [] else data.drop d.nwrote) = committed d.session.log := by
  rw [hd.accepted_eq, hd.committed_eq, ← h.stream]
  by_cases hc : s.conn.outputBuffer.contents = []
  · split_ifs with hfault
    · simp [hc, hd.nwrote_eq (Or.inr hfault)]
    · simp [hc, List.append_assoc]
  · split_ifs <;> simp [hd.nwrote_eq (Or.inl hc)]

/-- The remainder is queued. -/
theorem DirectOk.queue {s : Session} (h : s.Core) {data : Bytes} {w : WriteResult} {d : Direct}
    (hd : DirectOk s data w d) (hf : s.conn.outputBuffer.Fits data.length)
    (hq : ¬ d.faultError = true ∧ 0 < d.remaining) :
    ∃ s', d.session.queueRest (data.drop d.nwrote) = some s' ∧
      s.Sends s' (if s.Faults w then [] else data) := by
  have hnf : ¬ s.Faults w := fun hc => hq.1 (hd.fault_iff.mpr hc)
  have hfit : d.session.conn.outputBuffer.Fits (data.drop d.nwrote).length := by
    obtain ⟨hf1, hf2⟩ := hf
    rw [hd.conn_eq, List.length_drop]
    exact ⟨by omega, by omega⟩
  obtain ⟨s', hs', hstate, hin, hread, hwr, hwf, hcont, hext, ha, hc⟩ :=
    queueRest_spec (by rw [hd.conn_eq]; exact h.outWf) hfit
  rw [hd.conn_eq] at hstate hin hread hcont
  have hne : s'.conn.outputBuffer.contents ≠ [] := by
    have := hd.remaining_eq
    rw [hcont]
    simp [List.drop_eq_nil_iff]
    omega
  refine ⟨s', hs', hstate, hin, hread, hwf, by simp [hwr, hne], hd.ext.trans hext, fun _ => hne,
    ?_, ?_⟩
  · rw [hc, hd.committed_eq]
  · rw [ha, hc, hcont, ← hd.stream h, if_neg hnf, List.append_assoc]

/-- Everything was written, or the message was dropped. -/
theorem DirectOk.done {s : Session} (h : s.Core) {data : Bytes} {w : WriteResult} {d : Direct}
    (hd : DirectOk s data w d) (hq : ¬ (¬ d.faultError = true ∧ 0 < d.remaining)) :
    s.Sends d.session (if s.Faults w then [] else data) := by
  have hrest : (if s.Faults w then [] else data.drop d.nwrote) = [] := by
    split_ifs with hfault
    · rfl
    · have hrem := hd.remaining_eq
      have hnf : ¬ d.faultError = true := fun hc => hfault (hd.fault_iff.mp hc)
      rw [List.drop_eq_nil_iff]
      by_contra hlt
      exact hq ⟨hnf, by omega⟩
  have hstream := hd.stream h
  rw [hrest, List.append_nil] at hstream
  exact
    { state_eq := by rw [hd.conn_eq]
      input_eq := by rw [hd.conn_eq]
      isReading_eq := by rw [hd.conn_eq]
      outWf := by rw [hd.conn_eq]; exact h.outWf
      writing_iff := by rw [hd.conn_eq]; exact h.writing_iff
      ext := hd.ext
      contents_ne := by rw [hd.conn_eq]; exact id
      committed_eq := hd.committed_eq
      stream := by rw [hd.conn_eq]; exact hstream }

/-- One call of `sendInLoop` on a connection that is not closed. -/
theorem sendInLoop_spec {s : Session} (h : s.Core) (hst : s.conn.state ≠ .kDisconnected)
    {data : Bytes} {w : WriteResult} (hw : w.Within data.length)
    (hf : s.conn.outputBuffer.Fits data.length) :
    ∃ s', s.sendInLoop data w = some s' ∧ s.Sends s' (if s.Faults w then [] else data) := by
  have hd := directWrite_spec h hw (by have := hf.1; omega)
  unfold sendInLoop
  rw [if_neg hst]
  generalize s.directWrite data w = d at hd
  have hle : d.remaining ≤ data.length := by rw [hd.remaining_eq]; omega
  simp only [hle, if_true]
  by_cases hq : ¬ d.faultError = true ∧ 0 < d.remaining
  · rw [if_pos hq]
    exact hd.queue h hf hq
  · exact ⟨d.session, if_neg hq, hd.done h hq⟩

/-! ## `handleWrite` -/

/-- `handleWrite` hands `n` bytes to the socket and takes them out of the buffer. -/
theorem Core.written {s : Session} (h : s.Core) {n : ℕ}
    (hle : n ≤ s.conn.outputBuffer.readableBytes) :
    ∃ b, s.conn.outputBuffer.retrieve n = some b ∧ b.Wf ∧
      b.contents = s.conn.outputBuffer.contents.drop n ∧
      accepted (s.emit (.write s.conn.outputBuffer.contents (.ok n))).log ++ b.contents =
        committed (s.emit (.write s.conn.outputBuffer.contents (.ok n))).log := by
  obtain ⟨b, hb, hwf, hc⟩ := Buffer.retrieve_spec h.outWf hle
  refine ⟨b, hb, hwf, hc, ?_⟩
  have := h.stream
  simp only [emit_log, accepted_append, committed_append, accepted_cons_write, accepted_nil,
    committed_cons_write, committed_nil, List.append_nil, List.append_assoc, hc,
    List.take_append_drop]
  exact this

/-- `handleWrite` has handed over all there was. -/
theorem Core.written_all {s : Session} (h : s.Core) {n : ℕ}
    (hle : n ≤ s.conn.outputBuffer.readableBytes) {b : Buffer}
    (hb : s.conn.outputBuffer.retrieve n = some b) (h0 : b.readableBytes = 0) :
    b.Wf ∧ b.contents = [] ∧
      accepted (s.emit (.write s.conn.outputBuffer.contents (.ok n))).log =
        committed (s.emit (.write s.conn.outputBuffer.contents (.ok n))).log := by
  obtain ⟨b', hb', hwf, -, hstream⟩ := h.written hle
  obtain rfl := Option.some.inj (hb.symm.trans hb')
  have hempty : b.contents = [] := by
    rw [← List.length_eq_zero_iff, hwf.length_contents]
    exact h0
  rw [hempty, List.append_nil] at hstream
  exact ⟨hwf, hempty, hstream⟩

/-- The buffer has been drained and the whole interest mask cleared. -/
theorem Core.cleared {s : Session} (hwf : s.conn.outputBuffer.Wf) (hin : s.conn.inputBuffer.Wf)
    (hest : s.conn.state ≠ .kConnecting) (hc : s.conn.outputBuffer.contents = [])
    (hstream : accepted s.log = committed s.log) (hshut : ShutdownsDrained s.log) :
    Core ((s.setEvent (s.conn.channel.events &&& lnot CHANNEL_WRITE)).emit .updateChannel) := by
  have hcore : Core (s.setEvent (s.conn.channel.events &&& lnot CHANNEL_WRITE)) := by
    refine ⟨hwf, hin, hest, ?_, ?_, hshut⟩
    · rw [Channel.and_lnot_write]
      simp [setEvent, Channel.setEvent, Channel.isWriting, hc]
    · show accepted s.log ++ s.conn.outputBuffer.contents = committed s.log
      rw [hc, List.append_nil, hstream]
  exact hcore.emit trivial

/-- The branch that has drained the buffer. -/
theorem Core.drained {s : Session} (hwf : s.conn.outputBuffer.Wf) (hin : s.conn.inputBuffer.Wf)
    (hest : s.conn.state ≠ .kConnecting) (hc : s.conn.outputBuffer.contents = [])
    (hstream : accepted s.log = committed s.log) (hshut : ShutdownsDrained s.log) :
    s.drained.Inv := by
  have hcore := (Core.cleared hwf hin hest hc hstream hshut).writeComplete
  unfold Session.drained
  dsimp only
  split_ifs with hst
  · exact hcore.shutdownInLoop
  · exact ⟨hcore, fun h => absurd h hst⟩

theorem drained_conn (s : Session) :
    s.drained.conn = { s.conn with channel := s.conn.channel.setEvent 0#32 } := by
  unfold Session.drained
  dsimp only
  rw [Channel.and_lnot_write]
  split_ifs <;> simp [shutdownInLoop_conn, writeComplete_conn, setEvent]

theorem committed_drained (s : Session) : committed s.drained.log = committed s.log := by
  have h : committed ((s.setEvent (s.conn.channel.events &&& lnot CHANNEL_WRITE)).emit
      .updateChannel).writeComplete.log = committed s.log := by
    rw [(writeComplete_stream _).2, committed_emit _ (show Io.Neutral .updateChannel from trivial)]
    rfl
  unfold Session.drained
  dsimp only
  split_ifs
  · rw [committed_shutdownInLoop, h]
  · exact h

/-- `handleWrite` with this result of `write()` empties the output buffer. -/
def Drains (s : Session) : WriteResult → Prop
  | .ok n => s.conn.channel.isWriting = true ∧ 0 < n ∧ n = s.conn.outputBuffer.readableBytes
  | .fail _ => False

instance (s : Session) : ∀ w : WriteResult, Decidable (s.Drains w)
  | .ok _ => inferInstanceAs (Decidable (_ ∧ _ ∧ _))
  | .fail _ => instDecidableFalse

/-- What `handleWrite` leaves behind. -/
structure Writes (s : Session) (w : WriteResult) (s' : Session) : Prop where
  core : s'.Core
  promised : s.Promised → s'.Promised
  state_eq : s'.conn.state = s.conn.state
  committed_eq : committed s'.log = committed s.log
  events_eq : s'.conn.channel.events = if s.Drains w then 0#32 else s.conn.channel.events

/-- `write()` fails, or accepts nothing. -/
theorem writes_nothing {s : Session} (h : s.Core) {w : WriteResult} (hw : ∀ n, w = .ok n → n = 0) :
    s.Writes w (s.emit (.write s.conn.outputBuffer.contents w)) := by
  have hext := s.extends_emit (.write s.conn.outputBuffer.contents w) (by simp)
  have hacc : accepted (s.emit (.write s.conn.outputBuffer.contents w)).log = accepted s.log := by
    cases w with
    | ok n => simp [hw n rfl]
    | fail e => simp
  have hcom : committed (s.emit (.write s.conn.outputBuffer.contents w)).log = committed s.log := by
    simp
  have hnd : ¬ s.Drains w := by
    cases w with
    | ok n => simp [Drains, hw n rfl]
    | fail e => exact id
  refine ⟨⟨h.outWf, h.inWf, h.established, h.writing_iff, ?_, hext.shutdowns h.shutdowns⟩,
    fun hp h1 h2 => hext.halfClosed (hp h1 h2), rfl, hcom, by rw [if_neg hnd]; rfl⟩
  rw [hacc, hcom]
  exact h.stream

/-- `write()` accepts `n` bytes and some are left. -/
theorem writes_part {s : Session} (h : s.Core) {n : ℕ} (hwr : s.conn.channel.isWriting = true)
    (hn : n < s.conn.outputBuffer.readableBytes) :
    ∃ b, s.conn.outputBuffer.retrieve n = some b ∧ b.readableBytes ≠ 0 ∧
      s.Writes (.ok n) ((s.emit (.write s.conn.outputBuffer.contents (.ok n))).setOutput b) := by
  obtain ⟨b, hb, hwf, hc, hstream⟩ := h.written (Nat.le_of_lt hn)
  have hext := s.extends_emit (.write s.conn.outputBuffer.contents (.ok n)) (by simp)
  have hlen : b.readableBytes = s.conn.outputBuffer.readableBytes - n := by
    rw [← hwf.length_contents, hc, List.length_drop, h.outWf.length_contents]
  have hne : b.contents ≠ [] := by
    intro hnil
    rw [← hwf.length_contents, hnil, List.length_nil] at hlen
    omega
  have hnd : ¬ s.Drains (.ok n) := by
    rintro ⟨-, -, hfull⟩
    omega
  refine ⟨b, hb, by omega, ⟨hwf, h.inWf, h.established, ?_, hstream, hext.shutdowns h.shutdowns⟩,
    fun _ _ h2 => absurd h2 hne, rfl, by simp, by rw [if_neg hnd]; rfl⟩
  simp only [setOutput, emit_conn, hwr, true_iff]
  exact hne

/-- `write()` accepts all that is left. -/
theorem writes_all {s : Session} (h : s.Core) (hwr : s.conn.channel.isWriting = true) {n : ℕ}
    (hpos : 0 < n) (hn : n = s.conn.outputBuffer.readableBytes) :
    ∃ b, s.conn.outputBuffer.retrieve n = some b ∧ b.readableBytes = 0 ∧
      s.Writes (.ok n)
        ((s.emit (.write s.conn.outputBuffer.contents (.ok n))).setOutput b).drained := by
  obtain ⟨b, hb, hwf, hc, hstream⟩ := h.written (Nat.le_of_eq hn)
  have hext := s.extends_emit (.write s.conn.outputBuffer.contents (.ok n)) (by simp)
  have hnil : b.contents = [] := by
    rw [hc, hn, ← h.outWf.length_contents, List.drop_length]
  rw [hnil, List.append_nil] at hstream
  have hinv : Inv (((s.emit (.write s.conn.outputBuffer.contents (.ok n))).setOutput b).drained) :=
    Core.drained hwf h.inWf h.established hnil hstream (hext.shutdowns h.shutdowns)
  refine ⟨b, hb, by rw [← hwf.length_contents, hnil]; rfl, hinv.toCore, fun _ => hinv.halfClose, ?_,
    ?_, ?_⟩
  · rw [drained_conn]
    rfl
  · rw [committed_drained]
    simp
  · rw [drained_conn, if_pos ⟨hwr, hpos, hn⟩]
    rfl

theorem handleWrite_spec {s : Session} (h : s.Core) {w : WriteResult}
    (hw : w.Within s.conn.outputBuffer.readableBytes) :
    ∃ s', s.handleWrite w = some s' ∧ s.Writes w s' := by
  unfold handleWrite
  by_cases hwr : s.conn.channel.isWriting = true
  · rw [if_pos hwr]
    cases w with
    | fail e => exact ⟨_, rfl, writes_nothing h (by simp)⟩
    | ok n =>
      have hle : n ≤ s.conn.outputBuffer.readableBytes := hw
      by_cases hn : 0 < n
      · simp only [hn, if_true, emit_conn]
        rcases Nat.lt_or_eq_of_le hle with hlt | heq
        · obtain ⟨b, hb, hne, hok⟩ := writes_part h hwr hlt
          exact ⟨_, by simp [hb, hne], hok⟩
        · obtain ⟨b, hb, h0, hok⟩ := writes_all h hwr hn heq
          exact ⟨_, by simp [hb, h0], hok⟩
      · have hn0 : n = 0 := by omega
        refine ⟨s.emit (.write s.conn.outputBuffer.contents (.ok n)), by simp [hn], ?_⟩
        apply writes_nothing h
        rintro m ⟨⟩
        exact hn0
  · have hnd : ¬ s.Drains w := by cases w <;> simp [Drains, hwr]
    exact ⟨s, if_neg hwr, h, id, rfl, rfl, by simp [hnd]⟩

/-! ## Runs -/

/-- `state_` after the event. -/
def stateAfter (s : Session) : ConnEvent → StateE
  | .shutdown => if s.conn.state = .kConnected then .kDisconnecting else s.conn.state
  | .handleRead (.data []) => .kDisconnected
  | _ => s.conn.state

theorem shutdown_spec {s : Session} (h : s.Core) :
    s.shutdown.Core ∧ (s.Promised → s.shutdown.Promised) ∧
      s.shutdown.conn.state = s.stateAfter .shutdown ∧ (s.shutdown.conn.Live ↔ s.conn.Live) ∧
      committed s.shutdown.log = committed s.log ∧
      s.shutdown.conn.channel = s.conn.channel := by
  unfold shutdown
  split_ifs with hst
  · have hinv := Core.shutdownInLoop (h.setState (by simp : StateE.kDisconnecting ≠ .kConnecting))
    refine ⟨hinv.toCore, fun _ => hinv.halfClose, ?_, ?_, committed_shutdownInLoop _,
      by rw [shutdownInLoop_conn]; rfl⟩
    · rw [shutdownInLoop_conn, stateAfter, if_pos hst]
      rfl
    · rw [shutdownInLoop_conn]
      simp [TcpConnection.Live, setState, hst]
  · exact ⟨h, id, (if_neg hst).symm, Iff.rfl, rfl, rfl⟩

theorem handleRead_spec {s : Session} (h : s.Core) (hlive : s.conn.Live) {r : ReadResult}
    (hr : (BufferOp.readFd r).Pre s.conn.inputBuffer) :
    ∃ s', s.handleRead r = some s' ∧ s'.Core ∧ (s.Promised → s'.Promised) ∧
      s'.conn.state = s.stateAfter (.handleRead r) ∧ (s'.conn.Live ↔ r ≠ .data []) ∧
      committed s'.log = committed s.log ∧ s'.conn.channel = s.conn.channel := by
  obtain ⟨b, hb, hwf, -⟩ := BufferOp.exec_spec h.inWf (.readFd r) hr
  have hcore : (s.setInput b).Core :=
    ⟨h.outWf, hwf, h.established, h.writing_iff, h.stream, h.shutdowns⟩
  have hb' : s.conn.inputBuffer.readFd r = some b := hb
  simp only [handleRead, hb']
  cases r with
  | error e =>
    exact ⟨s.setInput b, rfl, hcore, id, rfl, ⟨fun _ => by simp, fun _ => hlive⟩, rfl, rfl⟩
  | data bytes =>
    cases bytes with
    | cons x xs =>
      refine ⟨(s.setInput b).emit .messageCallback, rfl, hcore.emit trivial, fun hp h1 h2 => ?_,
        rfl, ⟨fun _ => by simp, fun _ => hlive⟩, committed_emit _ trivial, rfl⟩
      exact (extends_emit _ _ (by simp)).halfClosed (hp h1 h2)
    | nil =>
      have hclosed : ((s.setInput b).setState .kDisconnected).Core := hcore.setState (by simp)
      have hr : Io.Neutral .removeChannel := trivial
      refine ⟨(((s.setInput b).setState .kDisconnected).emit .removeChannel).emit .closeCallback,
        if_pos hlive, (hclosed.emit hr).emit trivial, ?_, rfl, ?_, ?_, rfl⟩
      · rintro - ⟨⟩
      · simp [TcpConnection.Live, setState]
      · rw [committed_emit _ (show Io.Neutral .closeCallback from trivial), committed_emit _ hr]
        rfl

/-- The bytes of which the event makes `sendInLoop` take charge. -/
def taken (s : Session) : ConnEvent → Bytes
  | .send data w => if s.conn.state ≠ .kConnected ∨ s.Faults w then [] else data
  | .sendInLoop data w => if s.conn.state = .kDisconnected ∨ s.Faults w then [] else data
  | _ => []

/-- The event is a `handleWrite` that empties the output buffer. -/
def DrainedBy (s : Session) : ConnEvent → Prop
  | .handleWrite w => s.Drains w
  | _ => False

instance (s : Session) : ∀ e : ConnEvent, Decidable (s.DrainedBy e)
  | .handleWrite w => inferInstanceAs (Decidable (s.Drains w))
  | .send _ _ | .sendInLoop _ _ | .shutdown | .handleRead _ => instDecidableFalse

/-- What one event on the loop thread leaves behind. -/
structure StepOk (s : Session) (e : ConnEvent) (s' : Session) : Prop where
  core : s'.Core
  promised : s.Promised → s'.Promised
  state_eq : s'.conn.state = s.stateAfter e
  live_iff : s'.conn.Live ↔ s.conn.Live ∧ e ≠ .handleRead (.data [])
  committed_eq : committed s'.log = committed s.log ++ s.taken e
  isReading_eq : s'.conn.channel.isReading =
    if s.DrainedBy e then false else s.conn.channel.isReading

theorem StepOk.inv {s s' : Session} {e : ConnEvent} (hs : s.StepOk e s') (h : s.Inv) : s'.Inv :=
  ⟨hs.core, hs.promised h.halfClose⟩

theorem StepOk.refl {s : Session} (h : s.Core) {e : ConnEvent} (he : e ≠ .handleRead (.data []))
    (hst : s.stateAfter e = s.conn.state) (ht : s.taken e = []) (hd : ¬ s.DrainedBy e) :
    s.StepOk e s :=
  ⟨h, id, hst.symm, by simp [he], by rw [ht, List.append_nil], by rw [if_neg hd]⟩

theorem step_spec {s : Session} (h : s.Core) {e : ConnEvent} (hp : e.Possible s) :
    ∃ s', e.step s = some s' ∧ s.StepOk e s' := by
  cases e with
  | send data w =>
    by_cases hst : s.conn.state = .kConnected
    · obtain ⟨s', hs', hs⟩ := sendInLoop_spec h (by rw [hst]; rintro ⟨⟩) hp.1 hp.2
      exact ⟨s', by simp [ConnEvent.step, send, hst, hs'], hs.core h, hs.promised,
        hs.state_eq, by simp [TcpConnection.Live, hs.state_eq], by simp [hs.committed_eq, taken, hst],
        by simp [hs.isReading_eq, DrainedBy]⟩
    · exact ⟨s, by simp [ConnEvent.step, send, hst],
        StepOk.refl h (by simp) rfl (by simp [taken, hst]) (by simp [DrainedBy])⟩
  | sendInLoop data w =>
    by_cases hst : s.conn.state = .kDisconnected
    · exact ⟨s, by simp [ConnEvent.step, sendInLoop, hst],
        StepOk.refl h (by simp) rfl (by simp [taken, hst]) (by simp [DrainedBy])⟩
    · obtain ⟨s', hs', hs⟩ := sendInLoop_spec h hst hp.1 hp.2
      exact ⟨s', hs', hs.core h, hs.promised, hs.state_eq, by simp [TcpConnection.Live, hs.state_eq],
        by simp [hs.committed_eq, taken, hst], by simp [hs.isReading_eq, DrainedBy]⟩
  | shutdown =>
    obtain ⟨hcore, hprom, hst, hlive, hc, hch⟩ := shutdown_spec h
    exact ⟨_, rfl, hcore, hprom, hst, by simp [hlive], by simp [hc, taken], by simp [hch, DrainedBy]⟩
  | handleWrite w =>
    obtain ⟨s', hs', hw⟩ := handleWrite_spec h hp.2
    refine ⟨s', hs', hw.core, hw.promised, hw.state_eq, by simp [TcpConnection.Live, hw.state_eq],
      by simp [hw.committed_eq, taken], ?_⟩
    rw [Channel.isReading, hw.events_eq]
    by_cases hd : s.Drains w
    · rw [if_pos hd, if_pos (show s.DrainedBy (.handleWrite w) from hd), has_zero]
    · rw [if_neg hd, if_neg (show ¬ s.DrainedBy (.handleWrite w) from hd), Channel.isReading]
  | handleRead r =>
    obtain ⟨s', hs', hcore, hprom, hst, hlive, hc, hch⟩ := handleRead_spec h hp.1 hp.2
    exact ⟨s', hs', hcore, hprom, hst, by simp [hlive, hp.1], by simp [hc, taken],
      by simp [hch, DrainedBy]⟩

/-- Every run of possible events fails no `assert` and keeps the invariant. -/
theorem run_spec {s : Session} (h : s.Inv) (es : List ConnEvent)
    (hes : Along ConnEvent.step (fun s e => e.Possible s) s es) :
    ∃ s', run ConnEvent.step s es = some s' ∧ s'.Inv := by
  refine run_total (fun s e hI hp => ?_) es s h hes
  obtain ⟨s', hs', hok⟩ := step_spec hI.toCore hp
  exact ⟨s', hs', hok.inv hI⟩

/-- While the connection is open the READ interest is set. -/
def Listens (s : Session) : Prop := s.conn.Live → s.conn.channel.isReading = true

/-- The interest set by `connectEstablished` is lost in a step that drains the output buffer, and
    in no other. -/
theorem listens_step {s : Session} (h : s.Inv) (hl : s.Listens) {e : ConnEvent} (hp : e.Possible s) :
    ∃ s', e.step s = some s' ∧ s'.Inv ∧ (s'.Listens ↔ ¬ s.DrainedBy e) := by
  obtain ⟨s', hs, hok⟩ := step_spec h.toCore hp
  refine ⟨s', hs, hok.inv h, fun hlistens hd => ?_, fun hd hlive => ?_⟩
  · -- a drain leaves an open connection with an empty mask
    have hlive : s.conn.Live := by
      cases e with
      | handleWrite w => exact hp.1
      | _ => exact hd.elim
    have hread := hlistens (hok.live_iff.mpr ⟨hlive, by rintro rfl; exact hd⟩)
    rw [hok.isReading_eq, if_pos hd] at hread
    exact absurd hread (by decide)
  · rw [hok.isReading_eq, if_neg hd]
    exact hl (hok.live_iff.mp hlive).1

theorem listens_iff (es : List ConnEvent) {s : Session} (h : s.Inv) (hl : s.Listens)
    (hes : Along ConnEvent.step (fun s e => e.Possible s) s es) :
    Throughout ConnEvent.step Listens s es ↔
      Along ConnEvent.step (fun s e => ¬ s.DrainedBy e) s es :=
  throughout_iff_along (fun _ _ h hl hp => listens_step h hl hp) es s h hl hes

end Session

/-! ## Results -/

namespace ConnEvent

/-- The message the event passes to `sendInLoop`. -/
def message : ConnEvent → Bytes
  | sendInLoop data _ => data
  | _ => []

/-- A step of an open connection in which no message is dropped: a message below `2^31` bytes
    passed to `sendInLoop` with a result of `write()` other than EPIPE and ECONNRESET, a
    `handleWrite` with any result, a `shutdown`, or a read that is not end-of-file. -/
def Streams : ConnEvent → Prop
  | sendInLoop data w => data.length < 2 ^ 31 ∧ w.isFault = false
  | send _ _ => False
  | shutdown => True
  | handleWrite _ => True
  | handleRead r => r ≠ .data []

instance : ∀ e : ConnEvent, Decidable e.Streams
  | .sendInLoop _ _ => inferInstanceAs (Decidable (_ ∧ _))
  | .send _ _ => instDecidableFalse
  | .shutdown | .handleWrite _ => instDecidableTrue
  | .handleRead _ => inferInstanceAs (Decidable (_ ≠ _))

theorem taken_eq_message {s : Session} (hlive : s.conn.Live) {e : ConnEvent} (he : e.Streams) :
    s.taken e = e.message := by
  cases e with
  | sendInLoop data w =>
    have hst : s.conn.state ≠ .kDisconnected := by rcases hlive with h | h <;> simp [h]
    have hf : ¬ s.Faults w := fun h => by have := h.2.2; rw [he.2] at this; cases this
    simp [Session.taken, message, hst, hf]
  | send data w => exact he.elim
  | _ => rfl

end ConnEvent

section

variable (activeEvents : Flags) (sockfd : ℤ) (wcc hwm : Bool)

/-- **Outgoing stream.** In every run of an established connection in which messages are passed
    to `sendInLoop` and drained by `handleWrite` in any order, with short writes and soft
    failures anywhere, the bytes accepted by `write()` followed by the output buffer are the
    messages in call order. -/
theorem outgoing_stream_intact (es : List ConnEvent)
    (hes : Along ConnEvent.step (fun s e => e.Possible s ∧ e.Streams)
      (Session.established activeEvents sockfd wcc hwm) es) :
    ∃ s, run ConnEvent.step (Session.established activeEvents sockfd wcc hwm) es = some s ∧
      accepted s.log ++ s.conn.outputBuffer.contents = es.flatMap ConnEvent.message := by
  have hsim : ∃ s, run ConnEvent.step (Session.established activeEvents sockfd wcc hwm) es = some s ∧
      (s.Inv ∧ s.conn.Live ∧
        committed s.log = es.foldl (fun q e => q ++ ConnEvent.message e) []) := by
    refine run_refines _ (fun s q => s.Inv ∧ s.conn.Live ∧ committed s.log = q) ?_ es _ []
      ⟨Session.inv_established activeEvents sockfd wcc hwm, Or.inl rfl, rfl⟩ hes
    rintro s q e ⟨hinv, hlive, hc⟩ ⟨hp, he⟩
    obtain ⟨s', hs', hok⟩ := Session.step_spec hinv.toCore hp
    refine ⟨s', hs', hok.inv hinv, hok.live_iff.mpr ⟨hlive, ?_⟩, ?_⟩
    · rintro rfl; exact he rfl
    · rw [hok.committed_eq, hc, ConnEvent.taken_eq_message hlive he]
  obtain ⟨s, hs, hinv, -, hc⟩ := hsim
  refine ⟨s, hs, ?_⟩
  rw [hinv.stream, hc, List.flatMap_eq_foldl]

/-- A short direct write, the rest queued, and a second short write. -/
theorem outgoing_stream_intact_sample :
    ∃ s, run ConnEvent.step (Session.established 0#32 7 false false)
      [.sendInLoop [1, 2, 3] (.ok 1), .sendInLoop [4] (.fail EWOULDBLOCK), .handleWrite (.ok 2)] =
        some s ∧
      accepted s.log ++ s.conn.outputBuffer.contents = [1, 2, 3, 4] :=
  outgoing_stream_intact 0#32 7 false false _ (by decide +kernel)

/-- **Half-close.** In every run, while the connection is not closed: the WRITE interest is set
    exactly when bytes are queued; every `shutdownWrite()` found the buffer empty and everything
    taken charge of accepted; a connection that is shutting down with an empty buffer has been
    half-closed. -/
theorem half_close_after_drain (es : List ConnEvent)
    (hes : Along ConnEvent.step (fun s e => e.Possible s)
      (Session.established activeEvents sockfd wcc hwm) es) :
    ∃ s, run ConnEvent.step (Session.established activeEvents sockfd wcc hwm) es = some s ∧
      (s.conn.Live →
        (s.conn.channel.isWriting = true ↔ s.conn.outputBuffer.contents ≠ []) ∧
        (∀ pre e post, s.log = pre ++ e :: post → e.io = .shutdownWrite →
          e.conn.outputBuffer.contents = [] ∧ accepted pre = committed pre) ∧
        (s.conn.state = .kDisconnecting → s.conn.outputBuffer.contents = [] →
          halfClosed s.log)) := by
  obtain ⟨s, hs, hinv⟩ :=
    Session.run_spec (Session.inv_established activeEvents sockfd wcc hwm) es hes
  exact ⟨s, hs, fun _ => ⟨hinv.writing_iff, hinv.shutdowns, hinv.halfClose⟩⟩

/-- A deferred half-close: `shutdown` while bytes are queued. -/
theorem half_close_after_drain_sample :
    ∃ s, run ConnEvent.step (Session.established 0#32 7 false false)
      [.send [1, 2] (.ok 1), .shutdown, .handleWrite (.ok 1)] = some s ∧
      (s.conn.Live →
        (s.conn.channel.isWriting = true ↔ s.conn.outputBuffer.contents ≠ []) ∧
        (∀ pre e post, s.log = pre ++ e :: post → e.io = .shutdownWrite →
          e.conn.outputBuffer.contents = [] ∧ accepted pre = committed pre) ∧
        (s.conn.state = .kDisconnecting → s.conn.outputBuffer.contents = [] →
          halfClosed s.log)) :=
  half_close_after_drain 0#32 7 false false _ (by decide +kernel)

/-- **READ interest.** In a run, every open state has `CHANNEL_READ` in `events()` if and only
    if no `handleWrite` of the run empties the output buffer: `setEvent(events() &
    !CHANNEL_WRITE)` (line 182) clears the whole mask. -/
theorem read_interest_kept_iff (es : List ConnEvent)
    (hes : Along ConnEvent.step (fun s e => e.Possible s)
      (Session.established activeEvents sockfd wcc hwm) es) :
    (∀ pre, pre <+: es → ∀ s,
      run ConnEvent.step (Session.established activeEvents sockfd wcc hwm) pre = some s →
      s.conn.state = .kConnected ∨ s.conn.state = .kDisconnecting →
      has s.conn.channel.events CHANNEL_READ = true) ↔
    Along ConnEvent.step (fun s e => ¬ s.DrainedBy e)
      (Session.established activeEvents sockfd wcc hwm) es := by
  have hiff := Session.listens_iff es (Session.inv_established activeEvents sockfd wcc hwm)
    (fun _ => Channel.isReading_setEvent_read _) hes
  rw [← hiff]
  exact ⟨fun h pre s hpre hs => h pre hpre s hs, fun h pre hpre s hs => h pre s hpre hs⟩

/-- Two bytes are sent, `write()` takes one of them and `handleWrite` the other: the open
    connection no longer listens. -/
theorem read_interest_lost :
    ¬ ∀ (es : List ConnEvent) (s : Session),
      Along ConnEvent.step (fun s e => e.Possible s) (Session.established 0#32 7 false false) es →
      run ConnEvent.step (Session.established 0#32 7 false false) es = some s →
      s.conn.state = .kConnected ∨ s.conn.state = .kDisconnecting →
      has s.conn.channel.events CHANNEL_READ = true := by
  intro h
  have hes : Along ConnEvent.step (fun s e => e.Possible s)
      (Session.established 0#32 7 false false) [.sendInLoop [1, 2] (.ok 1), .handleWrite (.ok 1)] := by
    decide +kernel
  have hrun : (run ConnEvent.step (Session.established 0#32 7 false false)
      [.sendInLoop [1, 2] (.ok 1), .handleWrite (.ok 1)]).map
        (fun s => (s.conn.state, has s.conn.channel.events CHANNEL_READ)) =
      some (.kConnected, false) := by decide +kernel
  obtain ⟨s, hs, hst⟩ := Option.map_eq_some_iff.mp hrun
  obtain ⟨h1, h2⟩ := Prod.mk.inj hst
  have := h _ s hes hs (Or.inl h1)
  rw [h2] at this
  cases this

/-- A run without a drain keeps the READ interest. -/
theorem read_interest_kept_sample :
    Along ConnEvent.step (fun s e => ¬ s.DrainedBy e) (Session.established 0#32 7 false false)
      [.sendInLoop [1, 2] (.ok 1), .shutdown] ∧
    ∀ pre, pre <+: [ConnEvent.sendInLoop [1, 2] (.ok 1), .shutdown] → ∀ s,
      run ConnEvent.step (Session.established 0#32 7 false false) pre = some s →
      s.conn.state = .kConnected ∨ s.conn.state = .kDisconnecting →
      has s.conn.channel.events CHANNEL_READ = true := by
  have hsp : Along ConnEvent.step (fun s e => ¬ s.DrainedBy e)
      (Session.established 0#32 7 false false) [.sendInLoop [1, 2] (.ok 1), .shutdown] := by
    decide +kernel
  exact ⟨hsp, (read_interest_kept_iff 0#32 7 false false [.sendInLoop [1, 2] (.ok 1), .shutdown]
    (by decide +kernel)).mpr hsp⟩

end

end XWeb.Net
