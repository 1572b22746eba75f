import XWeb.Net.ConnectionMap

/-!
# The end of a `TcpServer`

`shutdown` half-closes a connection, it does not close it. So `~TcpServer` releases connections that
are not disconnected, and their channels stay in the poller.

* `Releasing`: what the loop of `~TcpServer` leaves as it was.
* `release_spec`, `releaseAll_spec`: the loop fails an assertion at the first connection that
  nobody else has a pointer to.
* `leaves_nothing_iff`: when `~TcpServer` does what it should.
-/

namespace XWeb.Net

open XWeb.Lib

namespace TcpServer

variable {d : Setup} {s t : TcpServer}

/-- User code has a pointer to the connection at `p`. -/
def HeldAt (s : TcpServer) (p : ℕ) : Prop := ∃ c, s.conns.cell p = some c ∧ c.held = true

/-! ## The loop over `conn_map_` -/

/-- In `t` some entries of `conn_map_` of `s` have been released. -/
structure Releasing (s t : TcpServer) : Prop where
  channels : t.epoller.channels = s.epoller.channels
  keys : t.epoller.KeysAgree
  isOpen : t.isOpen = s.isOpen
  acceptChannel : t.acceptChannel = s.acceptChannel
  connMap : ∀ x ∈ t.connMap, x ∈ s.connMap
  conns : ∀ q c, s.conns.cell q = some c → ∃ c', t.conns.cell q = some c' ∧ c'.held = c.held ∧
    c'.fd = c.fd ∧ (c.session.conn.Live → c'.session.conn.Live)

theorem Releasing.refl {s : TcpServer} (hk : s.epoller.KeysAgree) : Releasing s s :=
  ⟨rfl, hk, rfl, rfl, fun _ hx => hx, fun _ c hc => ⟨c, hc, rfl, rfl, fun hl => hl⟩⟩

/-- `shutdown` does not close. -/
theorem shutdown_live {session : Session} (h : session.conn.Live) : session.shutdown.conn.Live := by
  unfold Session.shutdown Session.shutdownInLoop
  split_ifs
  · exact Or.inr rfl
  · exact Or.inr rfl
  · exact h

/-- A connection in `conn_map_` is not closed, and its channel is registered or cannot be. -/
theorem Inv.entry (h : Inv d s) {x : Bytes × ℕ} (hx : x ∈ s.connMap) :
    ∃ c, s.conns.cell x.2 = some c ∧ c.name = x.1 ∧ c.session.conn.Live ∧
      (s.InService x.2 c ∨ s.Stillborn x.2 c) := by
  obtain ⟨c, hc, hn⟩ := h.entries x hx
  rcases (h.conns x.2 c hc).status with hin | hstill | hcl
  · exact ⟨c, hc, hn, hin.1, Or.inl hin⟩
  · exact ⟨c, hc, hn, hstill.1, Or.inr hstill⟩
  · exact absurd (mapped_of_mem hx) (by rw [hcl.2.1]; decide)

/-- One round: the connection goes on half-closed if user code has a pointer to it, else its
    destructor fails. -/
theorem release_spec (h : Inv d s) (ht : Releasing s t) {x : Bytes × ℕ} (hx : x ∈ s.connMap) :
    (s.HeldAt x.2 → ∃ t', t.release x = some t' ∧ Releasing s t') ∧
      (¬ s.HeldAt x.2 → t.release x = none) := by
  obtain ⟨c₀, hc₀, hname, hlive₀, hstatus⟩ := h.entry hx
  obtain ⟨c, hc, hheld, hfd, hlive⟩ := ht.conns x.2 c₀ hc₀
  have hquiet := c.session.quiet_shutdown
  have hreg : t.epoller.channels c.fd = some x.2 ∨ t.isOpen c.fd = false := by
    rw [ht.channels, ht.isOpen, hfd]
    rcases hstatus with hin | hstill
    · exact Or.inl hin.2.2.2
    · rw [hstill.2.2]
      exact Or.inr (h.valid (-1) (by decide))
  have hdown := shutdown_live (hlive hlive₀)
  obtain ⟨ep, hper, hch, hk⟩ := perform_quiet
    (s := { t with connMap := t.connMap.filter fun y => y.1 ≠ x.1 }) ht.keys 0#32 hquiet hreg
  -- no other entry points to the connection
  have hunmapped : ∀ {m : List (Bytes × ℕ)}, m = t.connMap.filter (fun y => y.1 ≠ x.1) →
      (m.any fun y => y.2 = x.2) = false := by
    rintro m rfl
    rw [Bool.eq_false_iff, Ne, List.any_eq_true]
    rintro ⟨y, hy, hyx⟩
    obtain ⟨hy, hyn⟩ := List.mem_filter.mp hy
    obtain ⟨c₁, hc₁, hn₁⟩ := h.entries y (ht.connMap y hy)
    rw [of_decide_eq_true hyx] at hc₁
    obtain rfl := Option.some.inj (hc₀.symm.trans hc₁)
    exact of_decide_eq_true hyn (hn₁.symm.trans hname)
  have hself := Heap.cell_set_self (Heap.live_of_cell hc) { c with session := c.session.shutdown }
  have hrelease : t.release x = if c.held then some { t with
      connMap := t.connMap.filter fun y => y.1 ≠ x.1
      conns := t.conns.set x.2 { c with session := c.session.shutdown }
      epoller := ep } else none := by
    simp only [release, hc, hper]
    unfold collect
    simp only [hself, mapped, hunmapped rfl, Bool.or_false]
    split_ifs with hh hst
    · rfl
    · rw [TcpConnection.Live, hst] at hdown
      exact absurd hdown (by decide)
    · rfl
  constructor
  · rintro ⟨c₁, hc₁, hh⟩
    obtain rfl := Option.some.inj (hc₀.symm.trans hc₁)
    refine ⟨_, hrelease.trans (if_pos (hheld.trans hh)), hch.trans ht.channels, hk, ht.isOpen,
      ht.acceptChannel, fun y hy => ht.connMap y (List.mem_filter.mp hy).1, fun q c₂ hc₂ => ?_⟩
    obtain ⟨c', hc', hheld', hfd', hlive'⟩ := ht.conns q c₂ hc₂
    rcases eq_or_ne q x.2 with rfl | hne
    · obtain rfl := Option.some.inj (hc.symm.trans hc')
      exact ⟨_, hself, hheld', hquiet.1.trans hfd', fun hl => shutdown_live (hlive' hl)⟩
    · exact ⟨c', (Heap.cell_set_of_ne t.conns hne _).trans hc', hheld', hfd', hlive'⟩
  · intro hh
    refine hrelease.trans (if_neg fun hc' => hh ⟨c₀, hc₀, hheld.symm.trans hc'⟩)

theorem releaseAll_spec (h : Inv d s) (l : List (Bytes × ℕ)) :
    ∀ {t}, (∀ x ∈ l, x ∈ s.connMap) → Releasing s t →
      ((∀ x ∈ l, s.HeldAt x.2) ∧ ∃ t', l.foldlM release t = some t' ∧ Releasing s t') ∨
      (¬ ∀ x ∈ l, s.HeldAt x.2) ∧ l.foldlM release t = none := by
  induction l with
  | nil =>
    intro t _ ht
    exact Or.inl ⟨by simp, t, rfl, ht⟩
  | cons x l ih =>
    intro t hl ht
    obtain ⟨hheld, hfree⟩ := release_spec h ht (hl x List.mem_cons_self)
    rw [List.foldlM_cons]
    by_cases hx : s.HeldAt x.2
    · obtain ⟨t₁, hs₁, ht₁⟩ := hheld hx
      rw [hs₁, List.forall_mem_cons]
      simp only [hx, true_and]
      exact ih (fun y hy => hl y (List.mem_cons_of_mem x hy)) ht₁
    · rw [hfree hx]
      exact Or.inr ⟨fun hall => hx (hall x List.mem_cons_self), rfl⟩

/-! ## The destructor -/

theorem close_channels (s : TcpServer) (fd : ℤ) :
    (s.close fd).epoller.channels = s.epoller.channels := by
  unfold close
  split_ifs
  · rfl
  · rfl

theorem destroyAcceptor_channels (hk : t.epoller.KeysAgree)
    (ht : t.isOpen t.acceptChannel.fd = true) : t.destroyAcceptor.epoller.channels =
      Function.update t.epoller.channels t.acceptChannel.fd none := by
  rw [destroyAcceptor, close_channels, close_channels]
  exact Epoller.remove_channels_eq hk t.acceptChannel ht

theorem close_keysAgree (hk : s.epoller.KeysAgree) {fd : ℤ} (hfd : s.epoller.channels fd = none) :
    (s.close fd).epoller.KeysAgree := by
  unfold close
  split_ifs
  · exact keysAgree_close hk hfd
  · exact hk

theorem destroyAcceptor_keysAgree (hk : t.epoller.KeysAgree)
    (ht : t.isOpen t.acceptChannel.fd = true) : t.destroyAcceptor.epoller.KeysAgree := by
  have hgone : (t.removeChannel t.acceptChannel).epoller.channels t.acceptChannel.fd = none := by
    show (t.epoller.remove _ t.acceptChannel).channels _ = _
    rw [Epoller.remove_channels_eq hk t.acceptChannel ht, Function.update_self]
  refine close_keysAgree (close_keysAgree (Epoller.remove_keysAgree hk _ _) hgone) ?_
  rw [close_channels]
  exact hgone

/-- `~TcpServer` runs without a failed assertion, and no channel but the poller's own is left: a
    descriptor of the server that is used again will be registered with `EPOLL_CTL_ADD`, which the
    kernel, that does not watch it any more, has no reason to refuse. -/
def LeavesNothing (d : Setup) (s : TcpServer) : Prop :=
  ∃ s', s.destructor = some s' ∧ (∀ fd p, s'.epoller.channels fd = some p → p = wakeupAddress) ∧
    ∀ fd, fd ≠ d.wakeupFd → s'.epoller.chosenOp fd = .add ∧ s'.epoller.interest fd = none

/-- `conn_map_` has no connections but those that a failed `accept()` has made and that user code
    has a pointer to. -/
def OnlyHeldStillborn (s : TcpServer) : Prop :=
  ∀ x ∈ s.connMap, ∃ c ∈ s.conns.cell x.2, c.held = true ∧ c.fd = -1

instance (s : TcpServer) : Decidable s.OnlyHeldStillborn :=
  inferInstanceAs (Decidable (∀ x ∈ s.connMap, ∃ c ∈ s.conns.cell x.2, c.held = true ∧ c.fd = -1))

/-- What is registered is the poller's channel, the acceptor's, or that of a connection in
    `conn_map_`. -/
theorem Inv.channels_cases (h : Inv d s) {fd : ℤ} {p : ℕ} (hp : s.epoller.channels fd = some p) :
    p = wakeupAddress ∧ fd = d.wakeupFd ∨ fd = d.listenFd ∨
      ∃ c, s.conns.cell p = some c ∧ c.fd = fd ∧ s.InService p c := by
  rcases h.registered fd p hp with hw | ⟨-, ha⟩ | ⟨c, hc, rfl, -⟩
  · exact Or.inl hw
  · exact Or.inr (Or.inl ha)
  · exact Or.inr (Or.inr ⟨c, hc, rfl, h.toCore.inService hc hp⟩)

theorem Inv.leavesNothing_iff (h : Inv d s) : s.LeavesNothing d ↔ s.OnlyHeldStillborn := by
  rcases releaseAll_spec h s.connMap (fun _ hx => hx) (Releasing.refl h.keys) with
    ⟨hheld, t, hall, ht⟩ | ⟨hfree, hnone⟩
  · have hopen : t.isOpen t.acceptChannel.fd = true := by
      rw [ht.isOpen, ht.acceptChannel, h.listen]
      exact h.opened.2
    have hk := destroyAcceptor_keysAgree ht.keys hopen
    have hch : t.destroyAcceptor.epoller.channels =
        Function.update s.epoller.channels d.listenFd none := by
      rw [destroyAcceptor_channels ht.keys hopen, ht.channels, ht.acceptChannel, h.listen]
    have hdest : s.destructor = some t.destroyAcceptor := by
      rw [destructor, hall]
      rfl
    constructor
    · rintro ⟨s', hs', hleft, -⟩ x hx
      obtain rfl := Option.some.inj (hdest.symm.trans hs')
      obtain ⟨c, hc, -, -, hstatus⟩ := h.entry hx
      obtain ⟨c', hc', hh⟩ := hheld x hx
      obtain rfl := Option.some.inj (hc.symm.trans hc')
      refine ⟨c, hc, hh, ?_⟩
      rcases hstatus with hin | hstill
      · -- an open connection stays in `channels_`
        have hkept : t.destroyAcceptor.epoller.channels c.fd = some x.2 := by
          rw [hch, Function.update_of_ne (h.fd_ne hc (Or.inl hin)).2]
          exact hin.2.2.2
        have haddr := (h.conns x.2 c hc).address
        rw [hleft c.fd x.2 hkept] at haddr
        exact absurd haddr (by decide)
      · exact hstill.2.2
    · intro hstill
      have hleft : ∀ fd p, t.destroyAcceptor.epoller.channels fd = some p →
          p = wakeupAddress ∧ fd = d.wakeupFd := by
        intro fd p hp
        rw [hch] at hp
        have hfd : fd ≠ d.listenFd := by
          rintro rfl
          rw [Function.update_self] at hp
          exact absurd hp (by simp)
        rw [Function.update_of_ne hfd] at hp
        rcases h.channels_cases hp with hw | ha | ⟨c, hc, rfl, hin⟩
        · exact hw
        · exact absurd ha hfd
        · obtain ⟨c', hc', -, hneg⟩ := hstill _ hin.2.1
          obtain rfl := Option.some.inj (hc.symm.trans hc')
          exact absurd hin.isOpen (by rw [hneg, h.valid (-1) (by decide)]; decide)
      refine ⟨_, hdest, fun fd p hp => (hleft fd p hp).1, fun fd hne => ?_⟩
      have hnone : t.destroyAcceptor.epoller.channels fd = none := by
        rw [Option.eq_none_iff_forall_ne_some]
        exact fun p hp => hne (hleft fd p hp).2
      have hunwatched : t.destroyAcceptor.epoller.interest fd = none := by
        have hfd := hk fd
        rw [hnone] at hfd
        simpa using hfd.symm
      exact ⟨(Epoller.chosenOp_eq_add_iff hk fd).mpr hunwatched, hunwatched⟩
  · refine iff_of_false ?_ fun hstill => hfree fun x hx => ?_
    · rintro ⟨s', hs', -⟩
      rw [destructor, hnone] at hs'
      exact absurd hs' (by simp)
    · obtain ⟨c, hc, hh, -⟩ := hstill x hx
      exact ⟨c, hc, hh⟩

/-- **The end of a server**: in the states that a server reaches, `~TcpServer` leaves nothing behind
    exactly if `conn_map_` only has connections from failed `accept()`s that user code keeps. -/
theorem leaves_nothing_iff (d : Setup) (es : List ServerEvent) (s : TcpServer)
    (hleg : Along step Legal (construct d) es) (hrun : run step (construct d) es = some s) :
    s.LeavesNothing d ↔ s.OnlyHeldStillborn := by
  have hinv : Inv d s := run_total_invariant (fun s e h hl => by
    obtain ⟨s', hs', hinv, -⟩ := step_spec h hl
    exact ⟨s', hs', hinv⟩) (construct_inv d) hleg hrun
  exact hinv.leavesNothing_iff

/-- A connection has been closed, and user code keeps one from a failed `accept()`. -/
theorem leaves_nothing_sample :
    ∃ s, run step (construct ordinarySetup)
        [.accept 5 0#32 0#32 true false, .connection 2 (.handleRead (.data [])) 0#32,
          .accept (-1) 0#32 0#32 false true] = some s ∧ s.LeavesNothing ordinarySetup := by
  have hrun : (run step (construct ordinarySetup)
      [.accept 5 0#32 0#32 true false, .connection 2 (.handleRead (.data [])) 0#32,
        .accept (-1) 0#32 0#32 false true]).isSome = true := by decide +kernel
  have hstill : ∀ s ∈ run step (construct ordinarySetup)
      [.accept 5 0#32 0#32 true false, .connection 2 (.handleRead (.data [])) 0#32,
        .accept (-1) 0#32 0#32 false true], s.OnlyHeldStillborn := by decide +kernel
  obtain ⟨s, hs⟩ := Option.isSome_iff_exists.mp hrun
  exact ⟨s, hs, (leaves_nothing_iff ordinarySetup _ s (by decide +kernel) hs).mpr (hstill s hs)⟩

/-- With one idle connection the assertion of `~TcpConnection` fails. -/
theorem destructor_fails :
    ¬ ∀ (d : Setup) (es : List ServerEvent) (s : TcpServer), Along step Legal (construct d) es →
      run step (construct d) es = some s → s.LeavesNothing d := by
  intro hall
  have hrun : (run step (construct ordinarySetup) [.accept 5 0#32 0#32 false false]).isSome = true :=
    by decide +kernel
  have hfails : ∀ s ∈ run step (construct ordinarySetup) [.accept 5 0#32 0#32 false false],
      s.destructor.isSome = false := by decide +kernel
  obtain ⟨s, hs⟩ := Option.isSome_iff_exists.mp hrun
  obtain ⟨s', hs', -⟩ := hall ordinarySetup _ s (by decide +kernel) hs
  exact absurd (hfails s hs) (by simp [hs'])

end TcpServer

end XWeb.Net
