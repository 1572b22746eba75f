import XWeb.Net.SharedConnection

/-!
# After the half-close

Other threads call `send`, the loop thread calls `send` and `shutdown`. `send` tests `state_` when
it is called; `sendInLoop` only turns back when the connection has been closed.

* `SilentAfterShutdown`: no `write()` after a `shutdownWrite()`.
* `Session.Settled`: a half-closed connection has nothing to write.
* `Session.step_silent`, `functor_silent_iff`: what one event and one functor do.
* `silent_iff`: nothing is written after the half-close in exactly the runs in which no functor
  runs on a half-closed connection.
-/

namespace XWeb.Net

open XWeb.Lib

/-- No `write()` comes after a `shutdownWrite()`. -/
def SilentAfterShutdown (log : List Entry) : Prop :=
  Always (fun before e => halfClosed before → ∀ data w, e.io ≠ .write data w) log

theorem silent_of_open {log : List Entry} (h : ¬ halfClosed log) : SilentAfterShutdown log := by
  rintro before e after rfl ⟨e', he', hio⟩
  exact absurd ⟨e', List.mem_append_left _ he', hio⟩ h

namespace Session

variable {s s' : Session} {data : Bytes} {w : WriteResult}

/-- A half-closed connection has nothing to write, and `send` does not take anything. -/
def Settled (s : Session) : Prop :=
  halfClosed s.log → s.conn.outputBuffer.contents = [] ∧ s.conn.state ≠ .kConnected

theorem Extends.still_open (h : s.Extends s') (ho : ¬ Net.halfClosed s.log) :
    ¬ Net.halfClosed s'.log := by
  obtain ⟨new, hlog, hnew⟩ := h
  rintro ⟨e, he, hio⟩
  rw [hlog] at he
  rcases List.mem_append.mp he with he | he
  · exact ho ⟨e, he, hio⟩
  · exact hnew e he hio

theorem settled_of_open (h : ¬ halfClosed s.log) : SilentAfterShutdown s.log ∧ s.Settled :=
  ⟨silent_of_open h, fun hc => absurd hc h⟩

/-! ## The loop thread -/

/-- The first half-close comes last. -/
theorem shutdownInLoop_silent (h : s.Core) (ho : ¬ halfClosed s.log)
    (hst : s.conn.state ≠ .kConnected) :
    SilentAfterShutdown s.shutdownInLoop.log ∧ s.shutdownInLoop.Settled := by
  unfold shutdownInLoop
  split_ifs with hw
  · exact settled_of_open ho
  · have hempty := h.isWriting_eq_false.mp (by simpa using hw)
    exact ⟨(silent_of_open ho).concat fun _ => by simp, fun _ => ⟨hempty, hst⟩⟩

theorem drained_silent (hwf : s.conn.outputBuffer.Wf) (hin : s.conn.inputBuffer.Wf)
    (hest : s.conn.state ≠ .kConnecting) (hempty : s.conn.outputBuffer.contents = [])
    (hstream : accepted s.log = committed s.log) (hshut : ShutdownsDrained s.log)
    (ho : ¬ halfClosed s.log) : SilentAfterShutdown s.drained.log ∧ s.drained.Settled := by
  have hcore := (Core.cleared hwf hin hest hempty hstream hshut).writeComplete
  have hset : s.Extends (s.setEvent (s.conn.channel.events &&& lnot CHANNEL_WRITE)) :=
    ⟨[], by simp, by simp⟩
  have hext := (hset.trans (extends_emit _ .updateChannel (by simp))).trans (extends_writeComplete _)
  unfold Session.drained
  dsimp only
  split_ifs with hst
  · exact shutdownInLoop_silent hcore (hext.still_open ho) (by rw [hst]; simp)
  · exact settled_of_open (hext.still_open ho)

theorem handleWrite_silent (h : s.Core) (hsil : SilentAfterShutdown s.log) (hset : s.Settled)
    (hw : w.Within s.conn.outputBuffer.readableBytes) (hs : s.handleWrite w = some s') :
    SilentAfterShutdown s'.log ∧ s'.Settled := by
  have hwrite := s.extends_emit (.write s.conn.outputBuffer.contents w) (by simp)
  rcases handleWrite_cases hs with ⟨-, rfl⟩ | ⟨hwriting, hcases⟩
  · exact ⟨hsil, hset⟩
  · -- what is being written has not been half-closed
    have ho : ¬ halfClosed s.log := fun hc => h.writing_iff.mp hwriting (hset hc).1
    rcases hcases with rfl | ⟨n, b, rfl, hb, ⟨-, rfl⟩ | ⟨h0, rfl⟩⟩
    · exact settled_of_open (hwrite.still_open ho)
    · exact settled_of_open (hwrite.still_open ho)
    · obtain ⟨hbwf, hempty, hstream⟩ := h.written_all hw hb h0
      exact drained_silent hbwf h.inWf h.established hempty hstream (hwrite.shutdowns h.shutdowns)
        (hwrite.still_open ho)

theorem handleRead_silent (hsil : SilentAfterShutdown s.log) (hset : s.Settled) {r : ReadResult}
    (hs : s.handleRead r = some s') : SilentAfterShutdown s'.log ∧ s'.Settled := by
  obtain ⟨b, -, hcases⟩ := handleRead_cases hs
  have hopen : ∀ io : Io, io ≠ .shutdownWrite → ∀ t : Session, halfClosed (t.emit io).log →
      halfClosed t.log := by
    intro io hio t hc
    by_contra ho
    exact (t.extends_emit io hio).still_open ho hc
  rcases hcases with ⟨-, rfl | rfl⟩ | ⟨-, -, rfl⟩
  · exact ⟨hsil, hset⟩
  · refine ⟨Always.concat hsil fun _ => by simp, fun hc => ?_⟩
    exact hset (hopen .messageCallback (by simp) (s.setInput b) hc)
  · refine ⟨Always.concat (Always.concat hsil fun _ => by simp) fun _ => by simp, fun hc => ?_⟩
    have hc' := hopen .removeChannel (by simp) ((s.setInput b).setState .kDisconnected)
      (hopen .closeCallback (by simp) _ hc)
    exact ⟨(hset hc').1, by simp [setState]⟩

/-- No event of the loop thread writes after the half-close. -/
theorem step_silent (h : s.Core) (hsil : SilentAfterShutdown s.log) (hset : s.Settled)
    {e : ConnEvent} (hnf : e.isFunctor = false) (hp : e.Possible s) (hs : e.step s = some s') :
    SilentAfterShutdown s'.log ∧ s'.Settled := by
  cases e with
  | send data w =>
    by_cases hst : s.conn.state = .kConnected
    · have ho : ¬ halfClosed s.log := fun hc => (hset hc).2 hst
      obtain ⟨s₁, hs₁, hsends⟩ := sendInLoop_spec h (by rw [hst]; simp) hp.1 hp.2
      obtain rfl : s₁ = s' := Option.some.inj (hs₁.symm.trans ((if_pos hst).symm.trans hs))
      exact settled_of_open (hsends.ext.still_open ho)
    · obtain rfl : s = s' := Option.some.inj ((if_neg hst).symm.trans hs)
      exact ⟨hsil, hset⟩
  | sendInLoop data w => exact absurd hnf (by simp [ConnEvent.isFunctor])
  | shutdown =>
    rw [← Option.some.inj hs]
    unfold shutdown
    split_ifs with hst
    · exact shutdownInLoop_silent (h.setState (by simp)) (fun hc => (hset hc).2 hst)
        (by simp [setState])
    · exact ⟨hsil, hset⟩
  | handleWrite w => exact handleWrite_silent h hsil hset hp.2 hs
  | handleRead r => exact handleRead_silent hsil hset hs

/-! ## Functors -/

/-- `sendInLoop` begins with a direct write when nothing is queued. -/
theorem sendInLoop_log (hst : s.conn.state ≠ .kDisconnected)
    (hw : s.conn.channel.isWriting = false) (hempty : s.conn.outputBuffer.readableBytes = 0)
    (hs : s.sendInLoop data w = some s') :
    ∃ rest, s'.log = s.log ++ ⟨.write data w, s.conn⟩ :: rest := by
  have hdirect : ∃ rest, (s.directWrite data w).session.log =
      s.log ++ ⟨.write data w, s.conn⟩ :: rest := by
    unfold directWrite
    rw [if_pos ⟨by simp [hw], hempty⟩]
    cases w with
    | ok n =>
      obtain ⟨new, hnew, -⟩ :=
        extends_writeComplete ((s.emit (.write data (.ok n))).emit (.commit data))
      dsimp only
      split_ifs
      · exact ⟨⟨.commit data, s.conn⟩ :: new, by rw [hnew]; simp⟩
      · exact ⟨[⟨.commit data, s.conn⟩], by simp⟩
    | fail errno =>
      dsimp only
      split_ifs
      · exact ⟨[], by simp⟩
      · exact ⟨[⟨.commit data, s.conn⟩], by simp⟩
  obtain ⟨rest, hrest⟩ := hdirect
  unfold sendInLoop at hs
  rw [if_neg hst] at hs
  dsimp only at hs
  split_ifs at hs
  · obtain ⟨-, new, hnew, -⟩ := quiet_queueRest hs
    exact ⟨rest ++ new, by rw [hnew, hrest, List.append_assoc, List.cons_append]⟩
  · obtain rfl := Option.some.inj hs
    exact ⟨rest, hrest⟩

/-- The connection is half-closed: it is shutting down and has nothing to drain. -/
def isHalfClosed (s : Session) : Prop :=
  s.conn.state = .kDisconnecting ∧ s.conn.channel.isWriting = false

instance (s : Session) : Decidable s.isHalfClosed := inferInstanceAs (Decidable (_ ∧ _))

/-- The functor of a `send` writes after the half-close if it is run after it. -/
theorem functor_silent_iff (h : s.Inv) (hsil : SilentAfterShutdown s.log) (hset : s.Settled)
    (hz : (Op.send data).Sized s w) (hs : (Op.send data).exec s w = some s') :
    (SilentAfterShutdown s'.log ↔ ¬ s.isHalfClosed) ∧ (SilentAfterShutdown s'.log → s'.Settled) := by
  by_cases hst : s.conn.state = .kDisconnected
  · obtain rfl : s = s' := Option.some.inj ((if_pos hst).symm.trans hs)
    refine ⟨iff_of_true hsil fun hc => ?_, fun _ => hset⟩
    exact absurd (hc.1.symm.trans hst) (by simp)
  · by_cases hc : halfClosed s.log
    · obtain ⟨hempty, hnot⟩ := hset hc
      have hw := h.toCore.isWriting_eq_false.mpr hempty
      obtain ⟨rest, hlog⟩ := sendInLoop_log hst hw (h.toCore.readableBytes_eq_zero.mpr hempty) hs
      have hbroken : ¬ SilentAfterShutdown s'.log := fun hsil' => hsil' _ _ _ hlog hc data w rfl
      have hdown : s.conn.state = .kDisconnecting := by
        have hest := h.established
        cases hs : s.conn.state <;> simp_all
      exact ⟨iff_of_false hbroken fun hopen => hopen ⟨hdown, hw⟩, fun hsil' => absurd hsil' hbroken⟩
    · obtain ⟨s₁, hs₁, hsends⟩ := sendInLoop_spec h.toCore hst hz.1 hz.2
      obtain rfl := Option.some.inj (hs₁.symm.trans hs)
      obtain ⟨hsil', hset'⟩ := settled_of_open (hsends.ext.still_open hc)
      refine ⟨iff_of_true hsil' fun hhalf => hc ?_, fun _ => hset'⟩
      exact h.halfClose hhalf.1 (h.toCore.isWriting_eq_false.mp hhalf.2)

end Session

/-! ## Runs -/

/-- The call is one of `send`. -/
def Op.isSend : Op → Bool
  | .send _ => true
  | .shutdown => false

namespace SharedConnection

variable {T : Type*}

/-- A connection that `connectEstablished` has put into service. -/
def established (activeEvents : Flags) (sockfd : ℤ) (wcc hwm : Bool) (loopThread : T) :
    SharedConnection T :=
  { start activeEvents sockfd wcc hwm loopThread with
    session := Session.established activeEvents sockfd wcc hwm
    stage := .registered }

/-- Other threads only call `send`; the loop thread makes its calls in callbacks. -/
def SendLegal (s : SharedConnection T) (e : SharedEvent T) : Prop :=
  s.Legal e ∧ match e with
    | .test t op => t ≠ s.loopThread ∧ op.isSend = true
    | _ => True

/-- The functor is not run on a half-closed connection. -/
def RunsInTime (s : SharedConnection T) : SharedEvent T → Prop
  | .runFunctor _ => ¬ s.session.isHalfClosed
  | _ => True

/-- The invariant while only the loop thread shuts down. -/
structure Sending (s : SharedConnection T) : Prop where
  session : s.session.Inv
  stage : s.stage = .registered ∧ s.session.conn.Live ∨
    (s.stage = .closed ∨ s.stage = .destroyed) ∧ s.session.conn.state = .kDisconnected
  loopThread : s.calls s.loopThread = .idle
  calls : ∀ t, s.calls t = .idle ∨ ∃ message, s.calls t = .posting (.send message)
  functors : ∀ op ∈ s.functors, ∃ message, op = .send message
  settled : SilentAfterShutdown s.session.log → s.session.Settled

variable {s s' : SharedConnection T}

instance [DecidableEq T] [Fintype T] (s : SharedConnection T) :
    ∀ e, Decidable (s.SendLegal e)
  | .test _ _ => inferInstanceAs (Decidable (_ ∧ _ ∧ _))
  | .connectEstablished | .setState _ | .post .. | .runFunctor _ | .loop _ | .destroy =>
    inferInstanceAs (Decidable (_ ∧ True))

instance (s : SharedConnection T) : ∀ e, Decidable (s.RunsInTime e)
  | .runFunctor _ => inferInstanceAs (Decidable (¬ _))
  | .connectEstablished | .test .. | .setState _ | .post .. | .loop _ | .destroy => instDecidableTrue

theorem established_sending (activeEvents : Flags) (sockfd : ℤ) (wcc hwm : Bool) (t : T) :
    (established activeEvents sockfd wcc hwm t).Sending ∧
      SilentAfterShutdown (established activeEvents sockfd wcc hwm t).session.log := by
  have ho : ¬ halfClosed (Session.established activeEvents sockfd wcc hwm).log := by
    rintro ⟨e, he, hio⟩
    have hlog : e.io = .updateChannel ∨ e.io = .connectionCallback := by
      rcases List.mem_cons.mp he with rfl | he
      · exact Or.inl rfl
      · rw [List.mem_singleton.mp he]
        exact Or.inr rfl
    rw [hio] at hlog
    simp at hlog
  obtain ⟨hsil, hset⟩ := Session.settled_of_open ho
  exact ⟨⟨Session.inv_established .., Or.inl ⟨rfl, Or.inl rfl⟩, rfl, fun _ => Or.inl rfl, by simp
    [established, start], fun _ => hset⟩, hsil⟩

/-- The stage of the connection after an event of the session. -/
theorem Sending.stage_keep (h : s.Sending) {session : Session}
    (hst : session.conn.state = s.session.conn.state) :
    s.stage = .registered ∧ session.conn.Live ∨
      (s.stage = .closed ∨ s.stage = .destroyed) ∧ session.conn.state = .kDisconnected := by
  rw [TcpConnection.Live, hst]
  exact h.stage

variable [DecidableEq T]

/-- Another thread goes on with a `send`. -/
theorem Sending.setCall (h : s.Sending) {t : T} (ht : t ≠ s.loopThread) {c : InCall}
    (hc : c = .idle ∨ ∃ message, c = .posting (.send message)) : (s.setCall t c).Sending := by
  have hcalls : ∀ u, (s.setCall t c).calls u = Function.update s.calls t c u := fun _ => rfl
  refine ⟨h.session, h.stage, ?_, fun u => ?_, h.functors, h.settled⟩
  · exact (Function.update_of_ne ht.symm ..).trans h.loopThread
  · rw [hcalls]
    rcases eq_or_ne u t with rfl | hne
    · rwa [Function.update_self]
    · rw [Function.update_of_ne hne]
      exact h.calls u

theorem sending_test (h : s.Sending) {t : T} {op : Op} (ht : t ≠ s.loopThread)
    (hop : op.isSend = true) : (s.test t op).Sending ∧ (s.test t op).session = s.session := by
  unfold test
  split_ifs
  · cases op with
    | send message => exact ⟨h.setCall ht (Or.inr ⟨message, rfl⟩), rfl⟩
    | shutdown => exact absurd hop (by decide)
  · exact ⟨h, rfl⟩

/-- The functor of another thread's `send` is queued. -/
theorem sending_post (h : s.Sending) {t : T} {w : WriteResult} (hl : s.Legal (.post t w)) :
    ∃ s', step s (.post t w) = some s' ∧ s'.Sending ∧ s'.session = s.session := by
  obtain ⟨op, hmem, -⟩ := hl
  have hop : (s.calls t).op = some op := hmem
  have hsend : ∃ message, op = .send message := by
    rcases h.calls t with hc | ⟨message, hc⟩
    · rw [hc] at hop
      exact absurd hop (by simp [InCall.op])
    · rw [hc] at hop
      exact ⟨message, (Option.some.inj hop).symm⟩
  have ht : t ≠ s.loopThread := by
    rintro rfl
    rw [h.loopThread] at hop
    exact absurd hop (by simp [InCall.op])
  have hqueued : Sending { s with functors := s.functors ++ [op] } := by
    refine ⟨h.session, h.stage, h.loopThread, h.calls, fun op' hop' => ?_, h.settled⟩
    rcases List.mem_append.mp hop' with hop' | hop'
    · exact h.functors op' hop'
    · rwa [List.mem_singleton.mp hop']
  refine ⟨{ s with functors := s.functors ++ [op] }.setCall t .idle, ?_,
    hqueued.setCall ht (Or.inl rfl), rfl⟩
  simp only [step, post, hop, if_neg ht]

theorem sending_runFunctor (h : s.Sending) (hsil : SilentAfterShutdown s.session.log)
    {w : WriteResult} (hl : s.Legal (.runFunctor w)) :
    ∃ s', step s (.runFunctor w) = some s' ∧ s'.Sending ∧
      (SilentAfterShutdown s'.session.log ↔ ¬ s.session.isHalfClosed) := by
  obtain ⟨-, -, op, hmem, hz⟩ := hl
  obtain ⟨rest, hf⟩ := List.head?_eq_some_iff.mp hmem
  obtain ⟨message, rfl⟩ := h.functors op (by rw [hf]; exact List.mem_cons_self)
  obtain ⟨session, hs, hcore, hpromised, hst, -⟩ := Session.exec_spec h.session.toCore hz
  obtain ⟨hiff, hset⟩ := Session.functor_silent_iff h.session hsil (h.settled hsil) hz hs
  refine ⟨{ s with session := session, functors := rest }, ?_, ⟨⟨hcore, hpromised h.session.halfClose⟩,
    h.stage_keep hst, h.loopThread, h.calls, fun op hop => ?_, hset⟩, hiff⟩
  · simp only [step, runFunctor, hf, hs, Option.map_some]
  · exact h.functors op (by rw [hf]; exact List.mem_cons_of_mem _ hop)

theorem sending_loop (h : s.Sending) (hsil : SilentAfterShutdown s.session.log) {e : ConnEvent}
    (hl : s.Legal (.loop e)) :
    ∃ s', step s (.loop e) = some s' ∧ s'.Sending ∧ SilentAfterShutdown s'.session.log := by
  obtain ⟨hwhen, hnf, -, hz⟩ := hl
  have hlive : e.isHandler = true → s.session.conn.Live := by
    intro hhandler
    rcases h.stage with ⟨-, hlive⟩ | ⟨hclosed, -⟩
    · exact hlive
    · rcases hwhen with hreg | ⟨-, hno⟩
      · rw [hreg] at hclosed
        exact absurd hclosed (by decide)
      · exact absurd hhandler (by simp [hno])
  have hposs := Session.possible_of_sized hz hlive
  obtain ⟨session, hs, hok⟩ := Session.step_spec h.session.toCore hposs
  obtain ⟨hsil', hset⟩ :=
    Session.step_silent h.session.toCore hsil (h.settled hsil) hnf hposs hs
  refine ⟨{ s with
    session := session
    stage := if e = .handleRead (.data []) then .closed else s.stage }, ?_,
    ⟨hok.inv h.session, ?_, h.loopThread, h.calls, h.functors, fun _ => hset⟩, hsil'⟩
  · simp only [step, loop, hs, Option.map_some]
  · dsimp only
    rcases Session.quiet_or_closes hs with ⟨-, hne⟩ | ⟨hcl, he⟩
    · rw [if_neg hne]
      rcases h.stage with ⟨hreg, hlive⟩ | ⟨hclosed, hst⟩
      · exact Or.inl ⟨hreg, hok.live_iff.mpr ⟨hlive, hne⟩⟩
      · rw [Session.step_disconnected hst hposs hs]
        exact Or.inr ⟨hclosed, hst⟩
    · rw [if_pos he]
      exact Or.inr ⟨Or.inl rfl, hcl.state⟩

/-- A legal step is made; it writes after the half-close only if it runs a functor after it. -/
theorem sending_step (h : s.Sending) (hsil : SilentAfterShutdown s.session.log)
    {e : SharedEvent T} (hl : s.SendLegal e) :
    ∃ s', step s e = some s' ∧ s'.Sending ∧
      (SilentAfterShutdown s'.session.log ↔ s.RunsInTime e) := by
  obtain ⟨hl, hsend⟩ := hl
  cases e with
  | connectEstablished =>
    have hcreated : s.stage = .created := hl
    rcases h.stage with ⟨hreg, -⟩ | ⟨hclosed, -⟩
    · exact absurd (hcreated.symm.trans hreg) (by decide)
    · rw [hcreated] at hclosed
      exact absurd hclosed (by decide)
  | test t op =>
    obtain ⟨hinv, hs⟩ := sending_test h hsend.1 hsend.2
    exact ⟨_, rfl, hinv, iff_of_true (by rw [hs]; exact hsil) trivial⟩
  | setState t =>
    have htested : s.calls t = .tested := hl
    rcases h.calls t with hc | ⟨message, hc⟩
    · exact absurd (htested.symm.trans hc) (by decide)
    · exact absurd (htested.symm.trans hc) (by simp)
  | post t w =>
    obtain ⟨s', hs', hinv, hs⟩ := sending_post h hl
    exact ⟨s', hs', hinv, iff_of_true (by rw [hs]; exact hsil) trivial⟩
  | runFunctor w => exact sending_runFunctor h hsil hl
  | loop e =>
    obtain ⟨s', hs', hinv, hsil'⟩ := sending_loop h hsil hl
    exact ⟨s', hs', hinv, iff_of_true hsil' trivial⟩
  | destroy =>
    obtain ⟨hclosed, -⟩ := hl
    have hst : s.session.conn.state = .kDisconnected := by
      rcases h.stage with ⟨hreg, -⟩ | ⟨-, hst⟩
      · exact absurd (hclosed.symm.trans hreg) (by decide)
      · exact hst
    exact ⟨{ s with stage := .destroyed }, if_pos hst, ⟨h.session, Or.inr ⟨Or.inr rfl, hst⟩,
      h.loopThread, h.calls, h.functors, h.settled⟩, iff_of_true hsil trivial⟩

end SharedConnection

end XWeb.Net
