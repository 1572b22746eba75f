import XWeb.Net.SharedConnection

/-!
# The life cycle of a connection

* `StateE.Forward`: the moves that `state_` may make.
* `SharedConnection.Inv`: what is so at each stage of a connection.
* `step_spec`: a legal step keeps it, but for a `shutdown` that is late.
* `one_way_iff`: a connection goes its way once, and no assertion on `state_` fails, in exactly the
  runs in which no thread sets `kDisconnecting` after `handleClose`.
-/

namespace XWeb.Net

open XWeb.Lib

/-- A step of `state_` forward, or none. `kDisconnecting` may be skipped. -/
def StateE.Forward (a b : StateE) : Prop :=
  a = b ∨ a = .kConnecting ∧ b = .kConnected ∨
    a = .kConnected ∧ (b = .kDisconnecting ∨ b = .kDisconnected) ∨
    a = .kDisconnecting ∧ b = .kDisconnected

/-- How often `closeCallback_` has been called. -/
def closeCalls (log : List Entry) : ℕ := log.countP fun e => e.io = .closeCallback

namespace Session

variable {s s' : Session}

theorem Quiet.closeCalls_eq (h : s.Quiet s') : closeCalls s'.log = closeCalls s.log := by
  obtain ⟨-, new, hlog, hnew⟩ := h
  have hnone : new.countP (fun e => e.io = .closeCallback) = 0 := by
    rw [List.countP_eq_zero]
    intro e he
    simp [(hnew e he).2.1]
  rw [closeCalls, hlog, List.countP_append, hnone, Nat.add_zero, closeCalls]

theorem Closes.closeCalls_eq (h : s.Closes s') : closeCalls s'.log = closeCalls s.log + 1 := by
  rw [closeCalls, h.log_eq, List.countP_append]
  rfl

theorem forward_stateAfter (h : s.conn.Live) (e : ConnEvent) :
    s.conn.state.Forward (s.stateAfter e) := by
  unfold stateAfter
  split
  · split_ifs with hst
    · exact Or.inr (Or.inr (Or.inl ⟨hst, Or.inl rfl⟩))
    · exact Or.inl rfl
  · rcases h with hst | hst
    · exact Or.inr (Or.inr (Or.inl ⟨hst, Or.inr rfl⟩))
    · exact Or.inr (Or.inr (Or.inr ⟨hst, rfl⟩))
  · exact Or.inl rfl

end Session

namespace SharedConnection

variable {T : Type*}

/-! ## The invariant -/

/-- What is so at a stage. -/
def StageOk (session : Session) : Stage → Prop
  | .created => ∃ activeEvents sockfd wcc hwm,
    session = ⟨TcpConnection.construct activeEvents sockfd wcc hwm, []⟩
  | .registered => session.Core ∧ session.conn.Live ∧ closeCalls session.log = 0
  | .closed | .destroyed =>
    session.Core ∧ session.conn.state = .kDisconnected ∧ closeCalls session.log = 1

/-- Threads are in a call between `connectEstablished` and the destructor. -/
structure Inv (s : SharedConnection T) : Prop where
  stage : StageOk s.session s.stage
  calls : ∀ t, s.calls t ≠ .idle → s.stage = .registered ∨ s.stage = .closed
  functors : s.functors ≠ [] → s.stage ≠ .created

variable {s s' : SharedConnection T}

theorem StageOk.closeCalls_le {session : Session} {stage : Stage} (h : StageOk session stage) :
    closeCalls session.log ≤ 1 := by
  cases stage with
  | created =>
    obtain ⟨activeEvents, sockfd, wcc, hwm, rfl⟩ := h
    exact Nat.zero_le 1
  | registered => exact h.2.2.trans_le (Nat.zero_le 1)
  | closed => exact Nat.le_of_eq h.2.2
  | destroyed => exact Nat.le_of_eq h.2.2

theorem StageOk.core {session : Session} {stage : Stage} (h : StageOk session stage)
    (hne : stage ≠ .created) : session.Core := by
  cases stage with
  | created => exact absurd rfl hne
  | registered => exact h.1
  | closed => exact h.1
  | destroyed => exact h.1

/-- Nothing has happened to `state_`, and nothing has been closed. -/
theorem StageOk.keep {session session' : Session} {stage : Stage} (h : StageOk session stage)
    (hne : stage ≠ .created) (hcore : session'.Core) (hst : session'.conn.state = session.conn.state)
    (hq : session.Quiet session') : StageOk session' stage := by
  have hcalls := hq.closeCalls_eq
  cases stage with
  | created => exact absurd rfl hne
  | registered =>
    refine ⟨hcore, ?_, hcalls.trans h.2.2⟩
    rw [TcpConnection.Live, hst]
    exact h.2.1
  | closed => exact ⟨hcore, hst.trans h.2.1, hcalls.trans h.2.2⟩
  | destroyed => exact ⟨hcore, hst.trans h.2.1, hcalls.trans h.2.2⟩

theorem Inv.ne_created (h : s.Inv) {t : T} (ht : s.calls t ≠ .idle) : s.stage ≠ .created := by
  intro hc
  rcases h.calls t ht with hr | hr
  · exact absurd (hc.symm.trans hr) (by decide)
  · exact absurd (hc.symm.trans hr) (by decide)

variable [DecidableEq T]

/-- Thread `t` goes on with its call. -/
theorem calls_setCall {t u : T} {c : InCall} (h : (s.setCall t c).calls u ≠ .idle) :
    u = t ∧ c ≠ .idle ∨ s.calls u ≠ .idle := by
  have hcalls : (s.setCall t c).calls u = Function.update s.calls t c u := rfl
  rw [hcalls] at h
  rcases eq_or_ne u t with rfl | hne
  · rw [Function.update_self] at h
    exact Or.inl ⟨rfl, h⟩
  · rw [Function.update_of_ne hne] at h
    exact Or.inr h

/-! ## Steps -/

/-- The step is made, so that no assertion fails, `state_` goes forward, and `closeCallback_` has
    been called once at most. -/
def OneWay (s : SharedConnection T) (e : SharedEvent T) : Prop :=
  ∃ s', step s e = some s' ∧ s.session.conn.state.Forward s'.session.conn.state ∧
    closeCalls s'.session.log ≤ 1

/-- `setState(kDisconnecting)` does not come after `handleClose`. -/
def SetsInTime (s : SharedConnection T) : SharedEvent T → Prop
  | .setState _ => s.session.conn.state ≠ .kDisconnected
  | _ => True

omit [DecidableEq T] in
instance (s : SharedConnection T) : ∀ e, Decidable (s.SetsInTime e)
  | .setState _ => inferInstanceAs (Decidable (_ ≠ _))
  | .connectEstablished | .test .. | .post .. | .runFunctor _ | .loop _ | .destroy =>
    instDecidableTrue

theorem connectEstablished_spec (h : s.Inv) (hl : s.Legal .connectEstablished) :
    ∃ s', step s .connectEstablished = some s' ∧ s'.Inv ∧
      s.session.conn.state.Forward s'.session.conn.state := by
  have hcreated : s.stage = .created := hl
  have hstage := h.stage
  rw [hcreated] at hstage
  obtain ⟨activeEvents, sockfd, wcc, hwm, hs⟩ := hstage
  refine ⟨{ s with
    session := Session.established activeEvents sockfd wcc hwm
    stage := .registered }, ?_, ⟨?_, fun _ _ => Or.inl rfl, fun _ => by simp⟩, ?_⟩
  · rw [step, hs, Session.connectEstablished_construct]
    rfl
  · exact ⟨(Session.inv_established ..).toCore, Or.inl rfl, rfl⟩
  · rw [hs]
    exact Or.inr (Or.inl ⟨rfl, rfl⟩)

theorem test_spec (h : s.Inv) {t : T} {op : Op} (hl : s.Legal (.test t op)) : (s.test t op).Inv ∧
    (s.test t op).session = s.session := by
  unfold test
  split_ifs with hst
  · -- a connection on which `kConnected` is read is registered
    have hreg : s.stage = .registered := by
      have hstage := h.stage
      cases hs : s.stage with
      | registered => rfl
      | created =>
        rw [hs] at hstage
        obtain ⟨activeEvents, sockfd, wcc, hwm, heq⟩ := hstage
        rw [heq] at hst
        exact absurd hst (by simp [TcpConnection.construct])
      | closed =>
        rw [hs] at hstage
        exact absurd (hstage.2.1.symm.trans hst) (by decide)
      | destroyed => exact absurd hs hl.1
    have hcall : ∀ c, (s.setCall t c).Inv := fun c => ⟨h.stage, fun _ _ => Or.inl hreg, h.functors⟩
    cases op with
    | send message => exact ⟨hcall _, rfl⟩
    | shutdown => exact ⟨hcall _, rfl⟩
  · exact ⟨h, rfl⟩

/-- In time, `setState` finds the channel registered. -/
theorem setState_spec (h : s.Inv) {t : T} (hl : s.Legal (.setState t))
    (hst : s.session.conn.state ≠ .kDisconnected) : (s.setState t).Inv ∧
      s.session.conn.state.Forward (s.setState t).session.conn.state := by
  have hbusy : s.calls t ≠ .idle := by rw [show s.calls t = .tested from hl]; decide
  have hstage := h.stage
  rcases h.calls t hbusy with hreg | hclosed
  · rw [hreg] at hstage
    obtain ⟨hcore, hlive, hcalls⟩ := hstage
    refine ⟨⟨?_, fun _ _ => Or.inl hreg, h.functors⟩, ?_⟩
    · show StageOk (s.session.setState .kDisconnecting) s.stage
      rw [hreg]
      exact ⟨hcore.setState (by simp), Or.inr rfl, hcalls⟩
    · rcases hlive with hc | hd
      · exact Or.inr (Or.inr (Or.inl ⟨hc, Or.inl rfl⟩))
      · exact Or.inl hd
  · rw [hclosed] at hstage
    exact absurd hstage.2.1 hst

theorem post_spec (h : s.Inv) {t : T} {w : WriteResult} (hl : s.Legal (.post t w)) :
    ∃ s', step s (.post t w) = some s' ∧ s'.Inv ∧
      s'.session.conn.state = s.session.conn.state := by
  obtain ⟨op, hmem, hz⟩ := hl
  have hop : (s.calls t).op = some op := hmem
  have hbusy : s.calls t ≠ .idle := by
    intro hidle
    rw [hidle] at hop
    exact absurd hop (by simp [InCall.op])
  have hne := h.ne_created hbusy
  have hcalls : ∀ u, (s.setCall t .idle).calls u ≠ .idle →
      s.stage = .registered ∨ s.stage = .closed := by
    intro u hu
    rcases calls_setCall hu with ⟨-, hidle⟩ | hu
    · exact absurd rfl hidle
    · exact h.calls u hu
  simp only [step, post, hop]
  split_ifs with ht
  · obtain ⟨session, hs, hcore, -, hst, hq⟩ := Session.exec_spec (h.stage.core hne) (hz ht)
    refine ⟨{ s with session := session }.setCall t .idle, by rw [hs, Option.map_some],
      ⟨h.stage.keep hne hcore hst hq, hcalls, h.functors⟩, hst⟩
  · exact ⟨_, rfl, ⟨h.stage, hcalls, fun _ => hne⟩, rfl⟩

theorem runFunctor_spec (h : s.Inv) {w : WriteResult} (hl : s.Legal (.runFunctor w)) :
    ∃ s', step s (.runFunctor w) = some s' ∧ s'.Inv ∧
      s'.session.conn.state = s.session.conn.state := by
  obtain ⟨-, -, op, hmem, hz⟩ := hl
  obtain ⟨rest, hf⟩ := List.head?_eq_some_iff.mp hmem
  have hne := h.functors (by rw [hf]; simp)
  obtain ⟨session, hs, hcore, -, hst, hq⟩ := Session.exec_spec (h.stage.core hne) hz
  refine ⟨{ s with session := session, functors := rest }, ?_,
    ⟨h.stage.keep hne hcore hst hq, h.calls, fun _ => hne⟩, hst⟩
  simp only [step, runFunctor, hf, hs, Option.map_some]

/-- A handler, or a call that a callback makes. -/
theorem loop_spec (h : s.Inv) {e : ConnEvent} (hl : s.Legal (.loop e)) :
    ∃ s', step s (.loop e) = some s' ∧ s'.Inv ∧
      s.session.conn.state.Forward s'.session.conn.state := by
  obtain ⟨hwhen, -, -, hz⟩ := hl
  have hstage := h.stage
  rcases hwhen with hreg | ⟨hclosed, hhandler⟩
  · rw [hreg] at hstage
    obtain ⟨hcore, hlive, hcalls⟩ := hstage
    obtain ⟨session, hs, hok⟩ := Session.step_spec hcore (Session.possible_of_sized hz fun _ => hlive)
    have hforward : s.session.conn.state.Forward session.conn.state := by
      rw [hok.state_eq]
      exact Session.forward_stateAfter hlive e
    refine ⟨{ s with
      session := session
      stage := if e = .handleRead (.data []) then .closed else s.stage }, ?_, ⟨?_, ?_, ?_⟩, hforward⟩
    · simp only [step, loop, hs, Option.map_some]
    · dsimp only
      rcases Session.quiet_or_closes hs with ⟨hq, hne⟩ | ⟨hcl, he⟩
      · rw [if_neg hne, hreg]
        exact ⟨hok.core, hok.live_iff.mpr ⟨hlive, hne⟩, hq.closeCalls_eq.trans hcalls⟩
      · rw [if_pos he]
        exact ⟨hok.core, hcl.state, by rw [hcl.closeCalls_eq, hcalls]⟩
    · intro t _
      dsimp only
      split_ifs
      · exact Or.inr rfl
      · exact Or.inl hreg
    · intro _
      dsimp only
      split_ifs
      · decide
      · rw [hreg]
        decide
  · rw [hclosed] at hstage
    obtain ⟨hcore, hst, hcalls⟩ := hstage
    have hposs : e.Possible s.session :=
      Session.possible_of_sized hz fun hc => absurd hc (by simp [hhandler])
    obtain ⟨session, hs, -⟩ := Session.step_spec hcore hposs
    obtain rfl := Session.step_disconnected hst hposs hs
    have hne : e ≠ .handleRead (.data []) := by
      rintro rfl
      exact absurd hhandler (by decide)
    refine ⟨s, ?_, h, Or.inl rfl⟩
    simp only [step, loop, hs, Option.map_some, if_neg hne]

theorem destroy_spec (h : s.Inv) (hl : s.Legal .destroy) :
    ∃ s', step s .destroy = some s' ∧ s'.Inv ∧
      s'.session.conn.state = s.session.conn.state := by
  obtain ⟨hclosed, hidle⟩ := hl
  have hstage := h.stage
  rw [hclosed] at hstage
  exact ⟨_, if_pos hstage.2.1, ⟨hstage, fun t ht => absurd (hidle t) ht, fun _ => by simp⟩, rfl⟩

/-- A legal step in time is made, goes forward and keeps the invariant. -/
theorem step_spec (h : s.Inv) {e : SharedEvent T} (hl : s.Legal e) (hin : s.SetsInTime e) :
    ∃ s', step s e = some s' ∧ s'.Inv ∧
      s.session.conn.state.Forward s'.session.conn.state := by
  cases e with
  | connectEstablished => exact connectEstablished_spec h hl
  | test t op =>
    obtain ⟨hinv, hs⟩ := test_spec h hl
    exact ⟨_, rfl, hinv, Or.inl (by rw [hs])⟩
  | setState t =>
    obtain ⟨hinv, hforward⟩ := setState_spec h hl hin
    exact ⟨_, rfl, hinv, hforward⟩
  | post t w =>
    obtain ⟨s', hs, hinv, hst⟩ := post_spec h hl
    exact ⟨s', hs, hinv, Or.inl hst.symm⟩
  | runFunctor w =>
    obtain ⟨s', hs, hinv, hst⟩ := runFunctor_spec h hl
    exact ⟨s', hs, hinv, Or.inl hst.symm⟩
  | loop e => exact loop_spec h hl
  | destroy =>
    obtain ⟨s', hs, hinv, hst⟩ := destroy_spec h hl
    exact ⟨s', hs, hinv, Or.inl hst.symm⟩

theorem oneWay_iff (h : s.Inv) {e : SharedEvent T} (hl : s.Legal e) :
    s.OneWay e ↔ s.SetsInTime e := by
  constructor
  · rintro ⟨s', hs, hforward, -⟩
    cases e with
    | setState t =>
      intro hst
      rw [← Option.some.inj hs] at hforward
      -- back to `kDisconnecting`
      have hback : StateE.Forward .kDisconnected .kDisconnecting := hst ▸ hforward
      simp [StateE.Forward] at hback
    | _ => trivial
  · intro hin
    obtain ⟨s', hs, hinv, hforward⟩ := step_spec h hl hin
    exact ⟨s', hs, hforward, hinv.stage.closeCalls_le⟩

omit [DecidableEq T] in
theorem start_inv (activeEvents : Flags) (sockfd : ℤ) (wcc hwm : Bool) (t : T) :
    (start activeEvents sockfd wcc hwm t).Inv :=
  ⟨⟨activeEvents, sockfd, wcc, hwm, rfl⟩, fun _ h => absurd rfl h, fun h => absurd rfl h⟩

end SharedConnection

end XWeb.Net
