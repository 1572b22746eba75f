import XWeb.Net.TcpServer

/-!
# `conn_map_` and the poller

* `TcpServer.Core`, `Inv`: how `conn_map_`, `channels_` and the open descriptors fit together.
* `step_spec`: every legal step is made and keeps `Inv`.
* `conn_map_mirrors_iff`: `conn_map_` only holds connections with a descriptor of their own that the
  poller has registered for them, in exactly the runs in which no `accept()` fails.
-/

namespace XWeb.Net

open XWeb.Lib

theorem Epoller.update_channels_eq {e : Epoller} (h : e.KeysAgree) {a : Answer}
    (hset : a.settime = true) (p : ℕ) (c : Channel) : (e.update a p c).1.channels =
      if a.ctl then Function.update e.channels c.fd (some p) else e.channels := by
  obtain ⟨armed, hu⟩ := Epoller.update_eq h a p c
  rw [hu]
  cases hctl : a.ctl <;> simp [hset]

theorem Epoller.remove_channels_eq {e : Epoller} (h : e.KeysAgree) {a : Answer} (c : Channel)
    (hctl : a.ctl = true) : (e.remove a c).channels = Function.update e.channels c.fd none := by
  rw [Epoller.remove_eq h]
  split_ifs with hok
  · rfl
  · have hnone : e.channels c.fd = none := by simpa [hctl] using hok
    rw [← hnone, Function.update_eq_self]

theorem connName_inj {port : ℤ} {i j : ℕ} (h : connName port i = connName port j) : i = j := by
  have htail := List.append_cancel_left h
  exact decimal_injective (List.cons.inj htail).2

/-- `accept()` does not fail. -/
def ServerEvent.Succeeds : ServerEvent → Prop
  | .accept connfd _ _ _ _ => connfd ≠ -1
  | .connection .. | .hold _ | .drop _ => True

instance : ∀ e : ServerEvent, Decidable e.Succeeds
  | .accept connfd _ _ _ _ => inferInstanceAs (Decidable (connfd ≠ -1))
  | .connection .. | .hold _ | .drop _ => instDecidableTrue

namespace TcpServer

/-! ## The invariant -/

/-- An open connection: it is in `conn_map_` and its descriptor is registered for it. -/
def InService (s : TcpServer) (p : ℕ) (c : Connection) : Prop :=
  c.session.conn.Live ∧ (c.name, p) ∈ s.connMap ∧ s.isOpen c.fd = true ∧
    s.epoller.channels c.fd = some p

/-- What a failed `accept()` leaves in `conn_map_`. -/
def Stillborn (s : TcpServer) (p : ℕ) (c : Connection) : Prop :=
  c.session.conn.Live ∧ (c.name, p) ∈ s.connMap ∧ c.fd = -1

/-- A closed connection that has not been destroyed. -/
def Closed (s : TcpServer) (p : ℕ) (c : Connection) : Prop :=
  c.session.conn.state = .kDisconnected ∧ s.mapped p = false ∧ s.isOpen c.fd = true ∧
    s.epoller.channels c.fd = none

/-- The connection at `p`. -/
structure ConnOk (s : TcpServer) (p : ℕ) (c : Connection) : Prop where
  session : c.session.Inv
  address : acceptAddress < p
  status : s.InService p c ∨ s.Stillborn p c ∨ s.Closed p c
  name : ∃ i < s.nextConnId, c.name = connName s.port i

/-- The invariant, but for who owns a connection. -/
structure Core (d : Setup) (s : TcpServer) : Prop where
  wakeup : s.epoller.channels d.wakeupFd = some wakeupAddress
  accept : s.epoller.channels d.listenFd = some acceptAddress
  listen : s.acceptChannel.fd = d.listenFd
  opened : s.isOpen d.wakeupFd = true ∧ s.isOpen d.listenFd = true
  valid : ∀ fd, fd < 0 → s.isOpen fd = false
  next : acceptAddress < s.conns.next
  conns : ∀ p c, s.conns.cell p = some c → s.ConnOk p c
  fds : ∀ p q c c', s.conns.cell p = some c → s.conns.cell q = some c' → c.fd = c'.fd →
    s.isOpen c.fd = true → p = q
  names : ∀ p q c c', s.conns.cell p = some c → s.conns.cell q = some c' → c.name = c'.name → p = q
  entries : ∀ x ∈ s.connMap, ∃ c, s.conns.cell x.2 = some c ∧ c.name = x.1
  registered : ∀ fd p, s.epoller.channels fd = some p →
    p = wakeupAddress ∧ fd = d.wakeupFd ∨ p = acceptAddress ∧ fd = d.listenFd ∨
      ∃ c, s.conns.cell p = some c ∧ c.fd = fd ∧ s.isOpen fd = true
  keys : s.epoller.KeysAgree

/-- `conn_map_` or user code has a pointer to the connection. -/
def Owned (s : TcpServer) (p : ℕ) (c : Connection) : Prop := c.held = true ∨ s.mapped p = true

/-- The invariant between two events. -/
structure Inv (d : Setup) (s : TcpServer) : Prop extends Core d s where
  owned : ∀ p c, s.conns.cell p = some c → s.Owned p c

variable {d : Setup} {s : TcpServer}

theorem mapped_of_mem {n : Bytes} {p : ℕ} (h : (n, p) ∈ s.connMap) : s.mapped p = true := by
  rw [mapped, List.any_eq_true]
  exact ⟨(n, p), h, by simp⟩

theorem mapped_iff {p : ℕ} : s.mapped p = true ↔ ∃ n, (n, p) ∈ s.connMap := by
  rw [mapped, List.any_eq_true]
  constructor
  · rintro ⟨⟨n, q⟩, hx, hq⟩
    obtain rfl : q = p := by simpa using hq
    exact ⟨n, hx⟩
  · rintro ⟨n, hx⟩
    exact ⟨(n, p), hx, by simp⟩

/-- The channel of a connection is registered only if the connection is open. -/
theorem Core.inService (h : Core d s) {p : ℕ} {c : Connection} (hc : s.conns.cell p = some c)
    (hp : s.epoller.channels c.fd = some p) : s.InService p c := by
  have hok := h.conns p c hc
  have haddr := hok.address
  rcases hok.status with hin | ⟨-, -, hfd⟩ | ⟨-, -, -, hnone⟩
  · exact hin
  · rcases h.registered c.fd p hp with ⟨rfl, -⟩ | ⟨rfl, -⟩ | ⟨c', -, -, hopen⟩
    · exact absurd haddr (by decide)
    · exact absurd haddr (by decide)
    · rw [hfd, h.valid (-1) (by decide)] at hopen
      exact absurd hopen (by decide)
  · rw [hnone] at hp
    exact absurd hp (by simp)

/-- The wakeup channel and the acceptor's channel stay registered when the channel of another open
    descriptor goes. -/
theorem Core.fd_ne (h : Core d s) {p : ℕ} {c : Connection} (hc : s.conns.cell p = some c)
    (hst : s.InService p c ∨ s.Closed p c) : c.fd ≠ d.wakeupFd ∧ c.fd ≠ d.listenFd := by
  have haddr := (h.conns p c hc).address
  have hchan : ∀ a, s.epoller.channels c.fd = some a → a = p := by
    intro a ha
    rcases hst with hin | hcl
    · exact Option.some.inj (ha.symm.trans hin.2.2.2)
    · exact absurd (ha.symm.trans hcl.2.2.2) (by simp)
  constructor
  · intro he
    have hp := hchan wakeupAddress (by rw [he]; exact h.wakeup)
    exact absurd haddr (by rw [← hp]; decide)
  · intro he
    have hp := hchan acceptAddress (by rw [he]; exact h.accept)
    exact absurd haddr (by rw [← hp]; decide)

theorem InService.isOpen {p : ℕ} {c : Connection} (h : s.InService p c) : s.isOpen c.fd = true :=
  h.2.2.1

theorem Closed.isOpen {p : ℕ} {c : Connection} (h : s.Closed p c) : s.isOpen c.fd = true := h.2.2.1

/-! ## A connection goes on -/

/-- What is there after a connection has been replaced by one with the same descriptor and name. -/
theorem cell_set_back {p q : ℕ} {c c' x : Connection} (hc : s.conns.cell p = some c)
    (hfd : c'.fd = c.fd) (hname : c'.name = c.name) (hx : (s.conns.set p c').cell q = some x) :
    ∃ x₀, s.conns.cell q = some x₀ ∧ x₀.fd = x.fd ∧ x₀.name = x.name := by
  rcases (Heap.cell_set_eq_some (Heap.live_of_cell hc)).mp hx with ⟨rfl, rfl⟩ | ⟨-, hx'⟩
  · exact ⟨c, hc, hfd.symm, hname.symm⟩
  · exact ⟨x, hx', rfl, rfl⟩

theorem Core.fds_set (h : Core d s) {p : ℕ} {c c' : Connection} (hc : s.conns.cell p = some c)
    (hfd : c'.fd = c.fd) (hname : c'.name = c.name) : ∀ q r x y,
    (s.conns.set p c').cell q = some x → (s.conns.set p c').cell r = some y → x.fd = y.fd →
      s.isOpen x.fd = true → q = r := by
  intro q r x y hx hy heq hopen
  obtain ⟨x₀, hx₀, hxfd, -⟩ := cell_set_back hc hfd hname hx
  obtain ⟨y₀, hy₀, hyfd, -⟩ := cell_set_back hc hfd hname hy
  exact h.fds q r x₀ y₀ hx₀ hy₀ (hxfd.trans (heq.trans hyfd.symm)) (hxfd ▸ hopen)

theorem Core.names_set (h : Core d s) {p : ℕ} {c c' : Connection} (hc : s.conns.cell p = some c)
    (hfd : c'.fd = c.fd) (hname : c'.name = c.name) : ∀ q r x y,
    (s.conns.set p c').cell q = some x → (s.conns.set p c').cell r = some y → x.name = y.name →
      q = r := by
  intro q r x y hx hy heq
  obtain ⟨x₀, hx₀, -, hxn⟩ := cell_set_back hc hfd hname hx
  obtain ⟨y₀, hy₀, -, hyn⟩ := cell_set_back hc hfd hname hy
  exact h.names q r x₀ y₀ hx₀ hy₀ (hxn.trans (heq.trans hyn.symm))

/-- The connection at `p` is replaced by one with the same descriptor and name. -/
theorem Core.setConn (h : Core d s) {p : ℕ} {c : Connection} (hc : s.conns.cell p = some c)
    (c' : Connection) (hfd : c'.fd = c.fd) (hname : c'.name = c.name) (hok : s.ConnOk p c')
    (e : Epoller) (he : e.channels = s.epoller.channels) (hk : e.KeysAgree) :
    Core d { s with conns := s.conns.set p c', epoller := e } := by
  have hlive := Heap.live_of_cell hc
  have hstatus : ∀ q x, s.ConnOk q x →
      ConnOk { s with conns := s.conns.set p c', epoller := e } q x := by
    intro q x hx
    refine ⟨hx.session, hx.address, ?_, hx.name⟩
    unfold InService Stillborn Closed
    rw [he]
    exact hx.status
  refine ⟨by rw [he]; exact h.wakeup, by rw [he]; exact h.accept, h.listen, h.opened, h.valid,
    h.next, ?_, h.fds_set hc hfd hname, h.names_set hc hfd hname, ?_, ?_, hk⟩
  · intro q x hx
    rcases (Heap.cell_set_eq_some hlive).mp hx with ⟨rfl, rfl⟩ | ⟨-, hx⟩
    · exact hstatus _ _ hok
    · exact hstatus _ _ (h.conns q x hx)
  · intro x hx
    obtain ⟨y, hy, hyn⟩ := h.entries x hx
    rcases eq_or_ne x.2 p with hxp | hne
    · rw [hxp] at hy
      obtain rfl := Option.some.inj (hc.symm.trans hy)
      exact ⟨c', by rw [hxp]; exact Heap.cell_set_self hlive c', hname.trans hyn⟩
    · exact ⟨y, (Heap.cell_set_of_ne s.conns hne c').trans hy, hyn⟩
  · intro fd q hq
    rw [he] at hq
    rcases h.registered fd q hq with hw | ha | ⟨x, hx, hxfd, hopen⟩
    · exact Or.inl hw
    · exact Or.inr (Or.inl ha)
    · refine Or.inr (Or.inr ?_)
      rcases eq_or_ne q p with rfl | hne
      · obtain rfl := Option.some.inj (hc.symm.trans hx)
        exact ⟨c', Heap.cell_set_self hlive c', hfd.trans hxfd, hopen⟩
      · exact ⟨x, (Heap.cell_set_of_ne s.conns hne c').trans hx, hxfd, hopen⟩

/-! ## A connection leaves the map -/

/-- Another connection, when that at `p` has gone out of `channels_` and `conn_map_`. -/
theorem Core.connOk_of_ne (h : Core d s) {p q : ℕ} {c x : Connection}
    (hc : s.conns.cell p = some c) (hx : s.conns.cell q = some x) (hqp : q ≠ p) {s' : TcpServer}
    (hmem : ∀ y, y ∈ s'.connMap ↔ y ∈ s.connMap ∧ y.1 ≠ c.name)
    (hchan : ∀ fd, fd ≠ c.fd → s'.epoller.channels fd = s.epoller.channels fd)
    (hopen : s'.isOpen = s.isOpen) (hnext : s'.nextConnId = s.nextConnId)
    (hport : s'.port = s.port) : s'.ConnOk q x := by
  obtain ⟨hxinv, haddr, hxst, hnm⟩ := h.conns q x hx
  have hxname : x.name ≠ c.name := fun heq => hqp (h.names q p x c hx hc heq)
  have hxfd : s.isOpen x.fd = true → x.fd ≠ c.fd := fun ho heq =>
    hqp (h.fds q p x c hx hc heq ho)
  refine ⟨hxinv, haddr, ?_, by rwa [hnext, hport]⟩
  unfold InService Stillborn Closed
  rw [hopen]
  rcases hxst with ⟨hl, hm, ho, hch⟩ | ⟨hl, hm, hneg⟩ | ⟨hd, hm, ho, hch⟩
  · exact Or.inl ⟨hl, (hmem _).mpr ⟨hm, hxname⟩, ho, (hchan _ (hxfd ho)).trans hch⟩
  · exact Or.inr (Or.inl ⟨hl, (hmem _).mpr ⟨hm, hxname⟩, hneg⟩)
  · refine Or.inr (Or.inr ⟨hd, ?_, ho, (hchan _ (hxfd ho)).trans hch⟩)
    rw [Bool.eq_false_iff] at hm ⊢
    intro hm'
    obtain ⟨n, hn⟩ := mapped_iff.mp hm'
    exact hm (mapped_iff.mpr ⟨n, ((hmem _).mp hn).1⟩)

/-- There is no entry with the name of the connection at `p` but its own. -/
theorem Core.not_mapped (h : Core d s) {p : ℕ} {c : Connection} (hc : s.conns.cell p = some c)
    {s' : TcpServer} (hmem : ∀ y, y ∈ s'.connMap ↔ y ∈ s.connMap ∧ y.1 ≠ c.name) :
    s'.mapped p = false := by
  rw [Bool.eq_false_iff]
  intro hm
  obtain ⟨n, hn⟩ := mapped_iff.mp hm
  obtain ⟨hn, hnc⟩ := (hmem _).mp hn
  obtain ⟨y, hy, hyn⟩ := h.entries _ hn
  obtain rfl := Option.some.inj (hc.symm.trans hy)
  exact hnc hyn.symm

/-- An open connection is closed: it goes out of `channels_` and `conn_map_`. -/
theorem Core.unmap (h : Core d s) {p : ℕ} {c c' : Connection} (hc : s.conns.cell p = some c)
    (hin : s.InService p c) (hfd : c'.fd = c.fd) (hname : c'.name = c.name) (hinv : c'.session.Inv)
    (hst : c'.session.conn.state = .kDisconnected) (e : Epoller)
    (he : e.channels = Function.update s.epoller.channels c.fd none) (hk : e.KeysAgree) :
    Core d { s with
      conns := s.conns.set p c'
      epoller := e
      connMap := s.connMap.filter fun x => x.1 ≠ c.name } := by
  have hlive := Heap.live_of_cell hc
  have hne := h.fd_ne hc (Or.inl hin)
  have hchan : ∀ fd, fd ≠ c.fd → e.channels fd = s.epoller.channels fd := by
    intro fd hfd
    rw [he, Function.update_of_ne hfd]
  have hmem : ∀ x, x ∈ s.connMap.filter (fun x => x.1 ≠ c.name) ↔ x ∈ s.connMap ∧ x.1 ≠ c.name := by
    intro x
    simp
  refine ⟨(hchan _ hne.1.symm).trans h.wakeup, (hchan _ hne.2.symm).trans h.accept, h.listen, h.opened,
    h.valid, h.next, ?_, h.fds_set hc hfd hname, h.names_set hc hfd hname, ?_, ?_, hk⟩
  · intro q x hx
    rcases (Heap.cell_set_eq_some hlive).mp hx with ⟨rfl, rfl⟩ | ⟨hqp, hx'⟩
    · obtain ⟨-, haddr, -, hnm⟩ := h.conns _ c hc
      refine ⟨hinv, haddr, Or.inr (Or.inr ⟨hst, h.not_mapped hc hmem, ?_, ?_⟩), by rwa [hname]⟩
      · rw [hfd]
        exact hin.isOpen
      · rw [hfd]
        show e.channels c.fd = none
        rw [he, Function.update_self]
    · exact h.connOk_of_ne hc hx' hqp hmem hchan rfl rfl rfl
  · intro x hx
    obtain ⟨hx, hxc⟩ := (hmem x).mp hx
    obtain ⟨y, hy, hyn⟩ := h.entries x hx
    have hxp : x.2 ≠ p := by
      intro hxp
      rw [hxp] at hy
      obtain rfl := Option.some.inj (hc.symm.trans hy)
      exact hxc hyn.symm
    exact ⟨y, (Heap.cell_set_of_ne s.conns hxp c').trans hy, hyn⟩
  · intro fd q hq
    have hqfd : fd ≠ c.fd := by
      rintro rfl
      rw [he, Function.update_self] at hq
      exact absurd hq (by simp)
    rcases h.registered fd q ((hchan fd hqfd).symm.trans hq) with hw | ha | ⟨x, hx, hxfd, hopen⟩
    · exact Or.inl hw
    · exact Or.inr (Or.inl ha)
    · have hqp : q ≠ p := by
        rintro rfl
        obtain rfl := Option.some.inj (hc.symm.trans hx)
        exact hqfd hxfd.symm
      exact Or.inr (Or.inr ⟨x, (Heap.cell_set_of_ne s.conns hqp c').trans hx, hxfd, hopen⟩)

/-! ## A connection is destroyed -/

/-- `close` takes a descriptor out of the interest list that is not in `channels_` any more. -/
theorem keysAgree_close {e : Epoller} (h : e.KeysAgree) {fd : ℤ} (hfd : e.channels fd = none) :
    Epoller.KeysAgree { e with interest := Function.update e.interest fd none } := by
  intro x
  rcases eq_or_ne x fd with rfl | hne
  · simp [hfd]
  · simpa [hne] using h x

theorem close_eq {fd : ℤ} (h : s.isOpen fd = true) : s.close fd =
    { s with
      isOpen := Function.update s.isOpen fd false
      epoller := { s.epoller with interest := Function.update s.epoller.interest fd none } } :=
  if_pos h

/-- A closed connection is destroyed and its descriptor closed. -/
theorem Core.destroy (h : Core d s) {p : ℕ} {c : Connection} (hc : s.conns.cell p = some c)
    (hcl : s.Closed p c) : Core d ({ s with conns := s.conns.free p }.close c.fd) := by
  have hne := h.fd_ne hc (Or.inr hcl)
  rw [close_eq (s := { s with conns := s.conns.free p }) hcl.isOpen]
  have hopen : ∀ fd, fd ≠ c.fd → Function.update s.isOpen c.fd false fd = s.isOpen fd :=
    fun fd hfd => Function.update_of_ne hfd ..
  have hback : ∀ {q x}, (s.conns.free p).cell q = some x → q ≠ p ∧ s.conns.cell q = some x :=
    Heap.cell_free_eq_some.mp
  have hxfd : ∀ {q x}, q ≠ p → s.conns.cell q = some x → s.isOpen x.fd = true → x.fd ≠ c.fd :=
    fun hqp hx ho heq => hqp (h.fds _ p _ c hx hc heq ho)
  refine ⟨h.wakeup, h.accept, h.listen,
    ⟨(hopen _ hne.1.symm).trans h.opened.1, (hopen _ hne.2.symm).trans h.opened.2⟩, ?_, h.next, ?_, ?_,
    ?_, ?_, ?_, keysAgree_close h.keys hcl.2.2.2⟩
  · intro fd hfd
    have hfdc : fd ≠ c.fd := by
      rintro rfl
      exact absurd ((h.valid _ hfd).symm.trans hcl.isOpen) (by decide)
    exact (hopen fd hfdc).trans (h.valid fd hfd)
  · intro q x hx
    obtain ⟨hqp, hx⟩ := hback hx
    obtain ⟨hxinv, haddr, hxst, hnm⟩ := h.conns q x hx
    refine ⟨hxinv, haddr, ?_, hnm⟩
    rcases hxst with ⟨hl, hm, ho, hch⟩ | hstill | ⟨hd, hm, ho, hch⟩
    · exact Or.inl ⟨hl, hm, (hopen _ (hxfd hqp hx ho)).trans ho, hch⟩
    · exact Or.inr (Or.inl hstill)
    · exact Or.inr (Or.inr ⟨hd, hm, (hopen _ (hxfd hqp hx ho)).trans ho, hch⟩)
  · intro q r x y hx hy heq ho
    have hstill : Function.update s.isOpen c.fd false x.fd = true := ho
    have hxc : x.fd ≠ c.fd := by
      intro he
      rw [he, Function.update_self] at hstill
      exact absurd hstill (by decide)
    exact h.fds q r x y (hback hx).2 (hback hy).2 heq ((hopen _ hxc).symm.trans hstill)
  · intro q r x y hx hy heq
    exact h.names q r x y (hback hx).2 (hback hy).2 heq
  · intro x hx
    obtain ⟨y, hy, hyn⟩ := h.entries x hx
    have hxp : x.2 ≠ p := by
      intro hxp
      have hm := hcl.2.1
      rw [Bool.eq_false_iff] at hm
      exact hm (mapped_iff.mpr ⟨x.1, by rw [← hxp]; exact hx⟩)
    exact ⟨y, Heap.cell_free_eq_some.mpr ⟨hxp, hy⟩, hyn⟩
  · intro fd q hq
    rcases h.registered fd q hq with hw | ha | ⟨x, hx, rfl, ho⟩
    · exact Or.inl hw
    · exact Or.inr (Or.inl ha)
    · have hqp : q ≠ p := by
        rintro rfl
        obtain rfl := Option.some.inj (hc.symm.trans hx)
        exact absurd (hq.symm.trans hcl.2.2.2) (by simp)
      exact Or.inr (Or.inr ⟨x, Heap.cell_free_eq_some.mpr ⟨hqp, hx⟩, rfl,
        (hopen _ (hxfd hqp hx ho)).trans ho⟩)

/-- When a pointer to `p` has gone, the connection is destroyed if nobody owns it. -/
theorem Core.collect (h : Core d s) {p : ℕ}
    (ho : ∀ q c, q ≠ p → s.conns.cell q = some c → s.Owned q c) :
    ∃ s', s.collect p = some s' ∧ Inv d s' ∧
      ∀ q c, s'.conns.cell q = some c → s.conns.cell q = some c := by
  unfold TcpServer.collect
  cases hc : s.conns.cell p with
  | none =>
    refine ⟨s, rfl, ⟨h, fun q c hq => ho q c ?_ hq⟩, fun q c hq => hq⟩
    rintro rfl
    exact absurd (hc.symm.trans hq) (by simp)
  | some c =>
    dsimp only
    by_cases hown : (c.held || s.mapped p) = true
    · refine ⟨s, if_pos hown, ⟨h, fun q x hq => ?_⟩, fun q c hq => hq⟩
      rcases eq_or_ne q p with rfl | hqp
      · obtain rfl := Option.some.inj (hc.symm.trans hq)
        simpa [Owned] using hown
      · exact ho q x hqp hq
    · have hm : s.mapped p = false := by
        rw [Bool.eq_false_iff]
        exact fun hm => hown (by simp [hm])
      -- an open or stillborn connection is in the map
      have hcl : s.Closed p c := by
        rcases (h.conns p c hc).status with hin | hstill | hcl
        · exact absurd (mapped_of_mem hin.2.1) (by simp [hm])
        · exact absurd (mapped_of_mem hstill.2.1) (by simp [hm])
        · exact hcl
      have hcells : ∀ q x, ({ s with conns := s.conns.free p }.close c.fd).conns.cell q = some x →
          q ≠ p ∧ s.conns.cell q = some x := by
        intro q x hx
        rw [close_eq (s := { s with conns := s.conns.free p }) hcl.isOpen] at hx
        exact Heap.cell_free_eq_some.mp hx
      refine ⟨_, by rw [if_neg hown, if_pos hcl.1], ⟨h.destroy hc hcl, fun q x hx => ?_⟩,
        fun q x hx => (hcells q x hx).2⟩
      obtain ⟨hqp, hx⟩ := hcells q x hx
      have hox := ho q x hqp hx
      rw [close_eq (s := { s with conns := s.conns.free p }) hcl.isOpen]
      exact hox

/-! ## What the poller sees of a connection -/

/-- The updates of a channel that is registered, or cannot be, leave `channels_` as it is. -/
theorem react_ordinary {t : TcpServer} (hk : t.epoller.KeysAgree) {p : ℕ} (n : Bytes) (stack : Flags)
    {fd : ℤ} {e : Entry} (he : Session.Ordinary fd e)
    (hreg : t.epoller.channels fd = some p ∨ t.isOpen fd = false) :
    ∃ ep, react p n stack t e = { t with epoller := ep } ∧ ep.channels = t.epoller.channels ∧
      ep.KeysAgree := by
  obtain ⟨hio, hconn⟩ := e
  obtain ⟨hrem, hclose, rfl⟩ := he
  cases hio with
  | updateChannel =>
    refine ⟨_, rfl, ?_, Epoller.update_keysAgree hk _ p hconn.channel⟩
    rw [Epoller.update_channels_eq hk rfl]
    rcases hreg with hreg | hclosed
    · split_ifs
      · rw [← hreg, Function.update_eq_self]
      · rfl
    · exact if_neg (by simpa using hclosed)
  | removeChannel => exact absurd rfl hrem
  | closeCallback => exact absurd rfl hclose
  | _ => exact ⟨t.epoller, rfl, rfl, hk⟩

theorem foldl_react_ordinary {p : ℕ} (n : Bytes) (stack : Flags) {fd : ℤ} (new : List Entry) :
    ∀ {t : TcpServer}, t.epoller.KeysAgree → (∀ e ∈ new, Session.Ordinary fd e) →
      (t.epoller.channels fd = some p ∨ t.isOpen fd = false) →
      ∃ ep, new.foldl (react p n stack) t = { t with epoller := ep } ∧
        ep.channels = t.epoller.channels ∧ ep.KeysAgree := by
  induction new with
  | nil => intro t hk _ _; exact ⟨t.epoller, rfl, rfl, hk⟩
  | cons e new ih =>
    intro t hk hnew hreg
    obtain ⟨ep, hep, hch, hk'⟩ := react_ordinary hk n stack (hnew e List.mem_cons_self) hreg
    obtain ⟨ep', hep', hch', hk''⟩ := ih (t := { t with epoller := ep }) hk'
      (fun e' he' => hnew e' (List.mem_cons_of_mem e he')) (by rw [hch]; exact hreg)
    exact ⟨ep', by rw [List.foldl_cons, hep, hep'], hch'.trans hch, hk''⟩

theorem perform_quiet (hk : s.epoller.KeysAgree) {p : ℕ} {c : Connection} {session : Session}
    (stack : Flags) (hq : c.session.Quiet session)
    (hreg : s.epoller.channels c.fd = some p ∨ s.isOpen c.fd = false) :
    ∃ ep, s.perform p c session stack =
        { s with conns := s.conns.set p { c with session := session }, epoller := ep } ∧
      ep.channels = s.epoller.channels ∧ ep.KeysAgree := by
  obtain ⟨-, new, hlog, hnew⟩ := hq
  have hdrop : session.log.drop c.session.log.length = new := by rw [hlog, List.drop_left]
  unfold perform
  rw [hdrop]
  exact foldl_react_ordinary c.name stack new hk hnew hreg

theorem perform_closes (hk : s.epoller.KeysAgree) {p : ℕ} {c : Connection} {session : Session}
    (stack : Flags) (hcl : c.session.Closes session) (hopen : s.isOpen c.fd = true) :
    ∃ ep, s.perform p c session stack =
        { s with
          conns := s.conns.set p { c with session := session }
          epoller := ep
          connMap := s.connMap.filter fun x => x.1 ≠ c.name } ∧
      ep.channels = Function.update s.epoller.channels c.fd none ∧ ep.KeysAgree := by
  have hdrop : session.log.drop c.session.log.length =
      [⟨.removeChannel, session.conn⟩, ⟨.closeCallback, session.conn⟩] := by
    rw [hcl.log_eq, List.drop_left]
  have hfd : session.conn.channel.fd = c.fd := hcl.fd_eq
  unfold perform
  rw [hdrop]
  refine ⟨_, rfl, ?_, Epoller.remove_keysAgree hk _ session.conn.channel⟩
  rw [← hfd]
  exact Epoller.remove_channels_eq hk session.conn.channel (by rw [hfd]; exact hopen)

/-! ## Events of a connection -/

/-- From `s` to `s'` no connection is made, and every connection keeps its descriptor. -/
def Within (s s' : TcpServer) : Prop :=
  ∀ q x', s'.conns.cell q = some x' → ∃ x, s.conns.cell q = some x ∧ x.fd = x'.fd

theorem within_setConn {p : ℕ} {c : Connection} (hc : s.conns.cell p = some c) (c' : Connection)
    (hfd : c'.fd = c.fd) {s' : TcpServer} (hs' : s'.conns = s.conns.set p c') : Within s s' := by
  intro q x hx
  rw [hs'] at hx
  rcases (Heap.cell_set_eq_some (Heap.live_of_cell hc)).mp hx with ⟨rfl, rfl⟩ | ⟨-, hx⟩
  · exact ⟨c, hc, hfd.symm⟩
  · exact ⟨x, hx, rfl⟩

/-- The pointers of the other connections when one of them changes. -/
theorem Inv.owned_others (h : Inv d s) {p : ℕ} {c' : Connection} (s' : TcpServer)
    (hconns : s'.conns = s.conns.set p c')
    (hmapped : ∀ q x, q ≠ p → s.conns.cell q = some x → s.mapped q = true → s'.mapped q = true) :
    ∀ q x, q ≠ p → s'.conns.cell q = some x → s'.Owned q x := by
  intro q x hqp hx
  rw [hconns, Heap.cell_set_of_ne s.conns hqp] at hx
  rcases h.owned q x hx with hheld | hm
  · exact Or.inl hheld
  · exact Or.inr (hmapped q x hqp hx hm)

/-- The pointer to a connection that has changed goes. -/
theorem Core.finish {t : TcpServer} (ht : Core d t) {p : ℕ} {c : Connection}
    (hc : s.conns.cell p = some c) (c' : Connection) (hfd : c'.fd = c.fd)
    (hconns : t.conns = s.conns.set p c')
    (hothers : ∀ q x, q ≠ p → t.conns.cell q = some x → t.Owned q x) :
    ∃ s', t.collect p = some s' ∧ Inv d s' ∧ Within s s' := by
  obtain ⟨s', hs', hinv, hback⟩ := ht.collect hothers
  exact ⟨s', hs', hinv, fun q x hx => within_setConn hc c' hfd hconns q x (hback q x hx)⟩

/-- A quiet event of a connection. -/
theorem quiet_spec (h : Inv d s) {p : ℕ} {c : Connection} (hc : s.conns.cell p = some c)
    {session : Session} (hq : c.session.Quiet session) (hinv : session.Inv)
    (hlive : session.conn.Live ↔ c.session.conn.Live)
    (hdead : c.session.conn.state = .kDisconnected → session = c.session) (stack : Flags) :
    ∃ s', (s.perform p c session stack).collect p = some s' ∧ Inv d s' ∧ Within s s' := by
  have hok := h.conns p c hc
  have hfd : ({ c with session := session } : Connection).fd = c.fd := hq.1
  have hperform : ∃ ep, s.perform p c session stack =
        { s with conns := s.conns.set p { c with session := session }, epoller := ep } ∧
      ep.channels = s.epoller.channels ∧ ep.KeysAgree := by
    rcases hok.status with hin | hstill | hcl
    · exact perform_quiet h.keys stack hq (Or.inl hin.2.2.2)
    · refine perform_quiet h.keys stack hq (Or.inr ?_)
      rw [hstill.2.2]
      exact h.valid (-1) (by decide)
    · refine ⟨s.epoller, ?_, rfl, h.keys⟩
      rw [hdead hcl.1, perform, List.drop_length]
      rfl
  obtain ⟨ep, hper, hch, hk⟩ := hperform
  have hok' : s.ConnOk p { c with session := session } := by
    refine ⟨hinv, hok.address, ?_, hok.name⟩
    rcases hok.status with hin | hstill | hcl
    · refine Or.inl ⟨hlive.mpr hin.1, hin.2.1, ?_, ?_⟩ <;> rw [hfd]
      · exact hin.isOpen
      · exact hin.2.2.2
    · exact Or.inr (Or.inl ⟨hlive.mpr hstill.1, hstill.2.1, hfd.trans hstill.2.2⟩)
    · rw [hdead hcl.1]
      exact Or.inr (Or.inr hcl)
  have hcore := h.toCore.setConn hc _ hfd rfl hok' ep hch hk
  have hothers := h.owned_others { s with
    conns := s.conns.set p { c with session := session }, epoller := ep } rfl
    fun q x _ _ hm => hm
  rw [hper]
  exact hcore.finish hc _ hfd rfl hothers

/-- The end-of-file of an open connection. -/
theorem closes_spec (h : Inv d s) {p : ℕ} {c : Connection} (hc : s.conns.cell p = some c)
    (hin : s.InService p c) {session : Session} (hcl : c.session.Closes session)
    (hinv : session.Inv) (stack : Flags) :
    ∃ s', (s.perform p c session stack).collect p = some s' ∧ Inv d s' ∧ Within s s' := by
  have hfd : ({ c with session := session } : Connection).fd = c.fd := hcl.fd_eq
  obtain ⟨ep, hper, hch, hk⟩ := perform_closes h.keys stack hcl hin.isOpen
  have hcore := h.toCore.unmap hc hin hfd rfl hinv hcl.state ep hch hk
  have hothers := h.owned_others { s with
      conns := s.conns.set p { c with session := session }
      epoller := ep
      connMap := s.connMap.filter fun x => x.1 ≠ c.name } rfl fun q x hqp hx hm => by
    obtain ⟨n, hn⟩ := mapped_iff.mp hm
    refine mapped_iff.mpr ⟨n, ?_⟩
    obtain ⟨y, hy, hyn⟩ := h.entries _ hn
    obtain rfl := Option.some.inj (hx.symm.trans hy)
    have hne : n ≠ c.name := fun he => hqp (h.names q p x c hx hc (hyn.trans he))
    simpa using ⟨hn, hne⟩
  rw [hper]
  exact hcore.finish hc _ hfd rfl hothers

theorem connection_spec (h : Inv d s) {p : ℕ} {e : ConnEvent} {stack : Flags}
    (hl : s.Legal (.connection p e stack)) :
    ∃ s', step s (.connection p e stack) = some s' ∧ Inv d s' ∧ Within s s' := by
  obtain ⟨c, hmem, hposs, hreg⟩ := hl
  have hc : s.conns.cell p = some c := hmem
  have hok := h.conns p c hc
  obtain ⟨session, hs, hstep⟩ := Session.step_spec hok.session.toCore hposs
  have hstep' : ∀ s', (s.perform p c session stack).collect p = some s' →
      step s (.connection p e stack) = some s' := by
    intro s' hs'
    simp only [step, hc, hs, Option.bind_some]
    exact hs'
  rcases Session.quiet_or_closes hs with ⟨hq, hne⟩ | ⟨hcl, rfl⟩
  · obtain ⟨s', hs', hinv, hw⟩ := quiet_spec h hc hq (hstep.inv hok.session)
      (by simp [hstep.live_iff, hne]) (fun hst => Session.step_disconnected hst hposs hs) stack
    exact ⟨s', hstep' s' hs', hinv, hw⟩
  · obtain ⟨s', hs', hinv, hw⟩ := closes_spec h hc (h.toCore.inService hc (hreg rfl)) hcl
      (hstep.inv hok.session) stack
    exact ⟨s', hstep' s' hs', hinv, hw⟩

theorem hold_spec (h : Inv d s) {p : ℕ} (hl : s.Legal (.hold p)) :
    ∃ s', step s (.hold p) = some s' ∧ Inv d s' ∧ Within s s' := by
  obtain ⟨c, hc⟩ := Heap.live_iff.mp hl
  have hok := h.conns p c hc
  have hcore := h.toCore.setConn hc { c with held := true } rfl rfl
    ⟨hok.session, hok.address, hok.status, hok.name⟩ s.epoller rfl h.keys
  have hothers := h.owned_others { s with conns := s.conns.set p { c with held := true } }
    rfl fun q x _ _ hm => hm
  refine ⟨{ s with conns := s.conns.set p { c with held := true } }, by simp only [step, hc],
    ⟨hcore, fun q x hx => ?_⟩, within_setConn hc { c with held := true } rfl rfl⟩
  rcases eq_or_ne q p with rfl | hqp
  · obtain rfl := Option.some.inj ((Heap.cell_set_self (Heap.live_of_cell hc) _).symm.trans hx)
    exact Or.inl rfl
  · exact hothers q x hqp hx

theorem drop_spec (h : Inv d s) {p : ℕ} (hl : s.Legal (.drop p)) :
    ∃ s', step s (.drop p) = some s' ∧ Inv d s' ∧ Within s s' := by
  obtain ⟨c, hmem, -⟩ := hl
  have hc : s.conns.cell p = some c := hmem
  have hok := h.conns p c hc
  have hcore := h.toCore.setConn hc { c with held := false } rfl rfl
    ⟨hok.session, hok.address, hok.status, hok.name⟩ s.epoller rfl h.keys
  have hothers := h.owned_others { s with conns := s.conns.set p { c with held := false } }
    rfl fun q x _ _ hm => hm
  simp only [step, hc]
  exact hcore.finish hc { c with held := false } rfl rfl hothers

/-! ## A new connection -/

/-- The descriptor of a connection is open, or `-1`. -/
theorem Core.fd_of_closed (h : Core d s) {p : ℕ} {c : Connection} (hc : s.conns.cell p = some c)
    (ho : s.isOpen c.fd = false) : c.fd = -1 := by
  rcases (h.conns p c hc).status with hin | hstill | hcl
  · exact absurd (ho.symm.trans hin.isOpen) (by decide)
  · exact hstill.2.2
  · exact absurd (ho.symm.trans hcl.isOpen) (by decide)

theorem Core.name_fresh (h : Core d s) {p : ℕ} {c : Connection} (hc : s.conns.cell p = some c) :
    c.name ≠ connName s.port s.nextConnId := by
  obtain ⟨i, hi, hn⟩ := (h.conns p c hc).name
  exact fun heq => absurd (connName_inj (hn.symm.trans heq)) (Nat.ne_of_lt hi)

/-- From `s` to `t` the connection `c` has been made: with a descriptor that gets open and
    registered, or with `-1`. -/
structure Adds (s t : TcpServer) (c : Connection) : Prop where
  port : t.port = s.port
  acceptChannel : t.acceptChannel = s.acceptChannel
  nextConnId : t.nextConnId = s.nextConnId + 1
  next : t.conns.next = s.conns.next + 1
  cells : ∀ q x, t.conns.cell q = some x ↔ q = s.conns.next ∧ x = c ∨ s.conns.cell q = some x
  connMap : t.connMap = s.connMap ++ [(c.name, s.conns.next)]
  name : c.name = connName s.port s.nextConnId
  session : c.session.Inv
  live : c.session.conn.Live
  fresh : s.isOpen c.fd = false
  isOpen : ∀ fd, fd ≠ c.fd → t.isOpen fd = s.isOpen fd
  channels : ∀ fd, fd ≠ c.fd → t.epoller.channels fd = s.epoller.channels fd
  fd : 0 ≤ c.fd ∧ t.isOpen c.fd = true ∧ t.epoller.channels c.fd = some s.conns.next ∨
    c.fd = -1 ∧ t.isOpen c.fd = false ∧ t.epoller.channels c.fd = s.epoller.channels c.fd
  keys : t.epoller.KeysAgree

section Adds

variable {t : TcpServer} {c : Connection}

/-- Nothing changes at a descriptor that was open. -/
theorem Adds.at_open (ha : Adds s t c) {fd : ℤ} (ho : s.isOpen fd = true) :
    t.isOpen fd = true ∧ t.epoller.channels fd = s.epoller.channels fd := by
  have hne : fd ≠ c.fd := by
    rintro rfl
    exact absurd (ha.fresh.symm.trans ho) (by decide)
  exact ⟨(ha.isOpen fd hne).trans ho, ha.channels fd hne⟩

theorem Adds.mem_connMap (ha : Adds s t c) {x : Bytes × ℕ} :
    x ∈ t.connMap ↔ x ∈ s.connMap ∨ x = (c.name, s.conns.next) := by
  rw [ha.connMap, List.mem_append, List.mem_singleton]

theorem Adds.mapped_old (ha : Adds s t c) {p : ℕ} (hp : p < s.conns.next) (hm : s.mapped p = false) :
    t.mapped p = false := by
  rw [Bool.eq_false_iff] at hm ⊢
  intro hm'
  obtain ⟨n, hn⟩ := mapped_iff.mp hm'
  rcases ha.mem_connMap.mp hn with hn | hn
  · exact hm (mapped_iff.mpr ⟨n, hn⟩)
  · have hpn : p = s.conns.next := congrArg Prod.snd hn
    omega

/-- A connection that was there has not got the new descriptor while that is open. -/
theorem Adds.fd_closed (ha : Adds s t c) (h : Core d s) {p : ℕ} {x : Connection}
    (hx : s.conns.cell p = some x) (heq : x.fd = c.fd) : t.isOpen c.fd = false := by
  have hneg := h.fd_of_closed hx (heq ▸ ha.fresh)
  rcases ha.fd with ⟨hpos, -, -⟩ | ⟨-, hclosed, -⟩
  · omega
  · exact hclosed

theorem Adds.name_ne (ha : Adds s t c) (h : Core d s) {p : ℕ} {x : Connection}
    (hx : s.conns.cell p = some x) : x.name ≠ c.name :=
  ha.name ▸ h.name_fresh hx

theorem Adds.connOk_old (ha : Adds s t c) {p : ℕ} {x : Connection} (hx : s.conns.cell p = some x)
    (hok : s.ConnOk p x) : t.ConnOk p x := by
  obtain ⟨hinv, haddr, hstatus, i, hi, hn⟩ := hok
  refine ⟨hinv, haddr, ?_, i, by rw [ha.nextConnId]; omega, by rw [ha.port]; exact hn⟩
  rcases hstatus with ⟨hl, hm, ho, hch⟩ | ⟨hl, hm, hneg⟩ | ⟨hd, hm, ho, hch⟩
  · obtain ⟨ho', hch'⟩ := ha.at_open ho
    exact Or.inl ⟨hl, ha.mem_connMap.mpr (Or.inl hm), ho', hch'.trans hch⟩
  · exact Or.inr (Or.inl ⟨hl, ha.mem_connMap.mpr (Or.inl hm), hneg⟩)
  · obtain ⟨ho', hch'⟩ := ha.at_open ho
    exact Or.inr (Or.inr ⟨hd, ha.mapped_old (Heap.live_of_cell hx).lt_next hm, ho', hch'.trans hch⟩)

theorem Adds.connOk_new (ha : Adds s t c) (h : Core d s) : t.ConnOk s.conns.next c := by
  have hmem : (c.name, s.conns.next) ∈ t.connMap := ha.mem_connMap.mpr (Or.inr rfl)
  refine ⟨ha.session, h.next, ?_, s.nextConnId, by rw [ha.nextConnId]; omega,
    by rw [ha.port]; exact ha.name⟩
  rcases ha.fd with ⟨-, ho, hch⟩ | ⟨hneg, -, -⟩
  · exact Or.inl ⟨ha.live, hmem, ho, hch⟩
  · exact Or.inr (Or.inl ⟨ha.live, hmem, hneg⟩)

theorem Adds.fds (ha : Adds s t c) (h : Core d s) : ∀ p q x y, t.conns.cell p = some x →
    t.conns.cell q = some y → x.fd = y.fd → t.isOpen x.fd = true → p = q := by
  intro p q x y hx hy heq ho
  rcases (ha.cells p x).mp hx with ⟨rfl, rfl⟩ | hx <;>
    rcases (ha.cells q y).mp hy with ⟨rfl, rfl⟩ | hy
  · rfl
  · exact absurd ((ha.fd_closed h hy heq.symm).symm.trans ho) (by decide)
  · rw [heq] at ho
    exact absurd ((ha.fd_closed h hx heq).symm.trans ho) (by decide)
  · have hne : x.fd ≠ c.fd := by
      intro hxc
      rw [hxc] at ho
      exact absurd ((ha.fd_closed h hx hxc).symm.trans ho) (by decide)
    exact h.fds p q x y hx hy heq ((ha.isOpen x.fd hne).symm.trans ho)

theorem Adds.names (ha : Adds s t c) (h : Core d s) : ∀ p q x y, t.conns.cell p = some x →
    t.conns.cell q = some y → x.name = y.name → p = q := by
  intro p q x y hx hy heq
  rcases (ha.cells p x).mp hx with ⟨rfl, rfl⟩ | hx <;>
    rcases (ha.cells q y).mp hy with ⟨rfl, rfl⟩ | hy
  · rfl
  · exact absurd heq.symm (ha.name_ne h hy)
  · exact absurd heq (ha.name_ne h hx)
  · exact h.names p q x y hx hy heq

theorem Adds.registered (ha : Adds s t c) (h : Core d s) {fd : ℤ} {p : ℕ}
    (hp : t.epoller.channels fd = some p) :
    p = wakeupAddress ∧ fd = d.wakeupFd ∨ p = acceptAddress ∧ fd = d.listenFd ∨
      ∃ x, t.conns.cell p = some x ∧ x.fd = fd ∧ t.isOpen fd = true := by
  have hold : s.epoller.channels fd = some p →
      p = wakeupAddress ∧ fd = d.wakeupFd ∨ p = acceptAddress ∧ fd = d.listenFd ∨
        ∃ x, t.conns.cell p = some x ∧ x.fd = fd ∧ t.isOpen fd = true := by
    intro hs
    rcases h.registered fd p hs with hw | hl | ⟨x, hx, hxfd, ho⟩
    · exact Or.inl hw
    · exact Or.inr (Or.inl hl)
    · exact Or.inr (Or.inr ⟨x, (ha.cells p x).mpr (Or.inr hx), hxfd, (ha.at_open ho).1⟩)
  by_cases hfd : fd = c.fd
  · rw [hfd] at hp hold ⊢
    rcases ha.fd with ⟨-, ho, hch⟩ | ⟨-, -, hch⟩
    · have hpn : p = s.conns.next := Option.some.inj (hp.symm.trans hch)
      exact Or.inr (Or.inr ⟨c, (ha.cells p c).mpr (Or.inl ⟨hpn, rfl⟩), rfl, ho⟩)
    · exact hold (hch.symm.trans hp)
  · exact hold ((ha.channels fd hfd).symm.trans hp)

theorem Adds.inv (ha : Adds s t c) (h : Inv d s) : Inv d t where
  wakeup := (ha.at_open h.opened.1).2.trans h.wakeup
  accept := (ha.at_open h.opened.2).2.trans h.accept
  listen := by rw [ha.acceptChannel]; exact h.listen
  opened := ⟨(ha.at_open h.opened.1).1, (ha.at_open h.opened.2).1⟩
  valid := by
    intro fd hneg
    by_cases hfd : fd = c.fd
    · rcases ha.fd with ⟨hpos, -, -⟩ | ⟨-, hclosed, -⟩
      · omega
      · rw [hfd]
        exact hclosed
    · exact (ha.isOpen fd hfd).trans (h.valid fd hneg)
  next := by rw [ha.next]; exact Nat.lt_succ_of_lt h.next
  conns := by
    intro p x hx
    rcases (ha.cells p x).mp hx with ⟨rfl, rfl⟩ | hx
    · exact ha.connOk_new h.toCore
    · exact ha.connOk_old hx (h.conns p x hx)
  fds := ha.fds h.toCore
  names := ha.names h.toCore
  entries := by
    intro x hx
    rcases ha.mem_connMap.mp hx with hx | rfl
    · obtain ⟨y, hy, hn⟩ := h.entries x hx
      exact ⟨y, (ha.cells x.2 y).mpr (Or.inr hy), hn⟩
    · exact ⟨c, (ha.cells s.conns.next c).mpr (Or.inl ⟨rfl, rfl⟩), rfl⟩
  registered := fun _ _ hp => ha.registered h.toCore hp
  keys := ha.keys
  owned := by
    intro p x hx
    rcases (ha.cells p x).mp hx with ⟨rfl, rfl⟩ | hx
    · exact Or.inr (mapped_iff.mpr ⟨x.name, ha.mem_connMap.mpr (Or.inr rfl)⟩)
    · rcases h.owned p x hx with hheld | hm
      · exact Or.inl hheld
      · obtain ⟨n, hn⟩ := mapped_iff.mp hm
        exact Or.inr (mapped_iff.mpr ⟨n, ha.mem_connMap.mpr (Or.inl hn)⟩)

end Adds

/-- The connection that `newConnection` makes, when `connectEstablished` has returned. -/
def newborn (s : TcpServer) (connfd : ℤ) (activeEvents : Flags) (hwm held : Bool) : Connection :=
  { name := connName s.port s.nextConnId
    session := Session.established activeEvents connfd s.writeCompleteCallback hwm
    held }

/-- The open descriptors when `accept()` has returned. -/
def accepted (s : TcpServer) (connfd : ℤ) : ℤ → Bool :=
  if 0 ≤ connfd then Function.update s.isOpen connfd true else s.isOpen

theorem handleConn_eq (s : TcpServer) (connfd : ℤ) (activeEvents stack : Flags) (hwm held : Bool)
    (hid : s.nextConnId + 1 < 2 ^ 31) :
    ∃ c, s.handleConn connfd activeEvents stack hwm held = some { s with
      nextConnId := s.nextConnId + 1
      conns := (s.conns.alloc c).set s.conns.next (s.newborn connfd activeEvents hwm held)
      connMap := s.connMap ++ [(connName s.port s.nextConnId, s.conns.next)]
      epoller := (s.epoller.update ⟨stack, true, s.accepted connfd connfd⟩ s.conns.next
        (s.newborn connfd activeEvents hwm held).session.conn.channel).1
      isOpen := s.accepted connfd } := by
  refine ⟨⟨connName s.port s.nextConnId,
    ⟨TcpConnection.construct activeEvents connfd s.writeCompleteCallback hwm, []⟩, held⟩, ?_⟩
  unfold handleConn accepted
  split_ifs
  · exact if_pos hid
  · exact if_pos hid

theorem accept_spec (h : Inv d s) {connfd : ℤ} {activeEvents stack : Flags} {hwm held : Bool}
    (hl : s.Legal (.accept connfd activeEvents stack hwm held)) :
    ∃ s', step s (.accept connfd activeEvents stack hwm held) = some s' ∧ Inv d s' ∧
      ∀ q x, s'.conns.cell q = some x ↔
        q = s.conns.next ∧ x = s.newborn connfd activeEvents hwm held ∨ s.conns.cell q = some x := by
  obtain ⟨hfd, hid⟩ := hl
  obtain ⟨c, hs⟩ := s.handleConn_eq connfd activeEvents stack hwm held hid
  have hchannels := Epoller.update_channels_eq h.keys
    (a := ⟨stack, true, s.accepted connfd connfd⟩) rfl s.conns.next
    (s.newborn connfd activeEvents hwm held).session.conn.channel
  have hchfd : (s.newborn connfd activeEvents hwm held).session.conn.channel.fd = connfd := rfl
  rw [hchfd] at hchannels
  refine ⟨_, hs, Adds.inv (c := s.newborn connfd activeEvents hwm held) ?_ h,
    fun q x => Heap.cell_alloc_set_eq_some⟩
  refine ⟨rfl, rfl, rfl, rfl, fun q x => Heap.cell_alloc_set_eq_some, rfl, rfl,
    Session.inv_established .., Or.inl rfl, ?_, ?_, ?_, ?_, Epoller.update_keysAgree h.keys _ _ _⟩
  · rcases hfd with rfl | ⟨-, hclosed⟩
    · exact h.valid (-1) (by decide)
    · exact hclosed
  · intro fd hne
    show s.accepted connfd fd = s.isOpen fd
    unfold accepted
    split_ifs
    · exact Function.update_of_ne hne ..
    · rfl
  · intro fd hne
    rw [hchannels]
    split_ifs
    · exact Function.update_of_ne hne ..
    · rfl
  · rcases hfd with rfl | ⟨hpos, -⟩
    · have hclosed : s.accepted (-1) (-1) = false := h.valid (-1) (by decide)
      refine Or.inr ⟨rfl, hclosed, ?_⟩
      rw [hchannels, hclosed]
      rfl
    · have hopen : s.accepted connfd connfd = true := by
        rw [accepted, if_pos hpos, Function.update_self]
      refine Or.inl ⟨hpos, hopen, ?_⟩
      rw [hchannels, hopen]
      exact Function.update_self ..

/-! ## Runs -/

/-- No connection is without a descriptor. -/
def AllValid (s : TcpServer) : Prop := ∀ p c, s.conns.cell p = some c → c.fd ≠ -1

/-- A legal step is made and keeps the invariant; only a failed `accept()` makes a connection
    without a descriptor. -/
theorem step_spec (h : Inv d s) {e : ServerEvent} (hl : s.Legal e) :
    ∃ s', step s e = some s' ∧ Inv d s' ∧ (s.AllValid → (s'.AllValid ↔ e.Succeeds)) := by
  have hwithin : ∀ {s'}, Within s s' → s.AllValid → s'.AllValid := by
    intro s' hw hv q x hx
    obtain ⟨y, hy, hyx⟩ := hw q x hx
    rw [← hyx]
    exact hv q y hy
  cases e with
  | accept connfd activeEvents stack hwm held =>
    obtain ⟨s', hs, hinv, hcells⟩ := accept_spec h hl
    refine ⟨s', hs, hinv, fun hv => ⟨fun hv' => ?_, fun hsucc q x hx => ?_⟩⟩
    · exact hv' s.conns.next _ ((hcells _ _).mpr (Or.inl ⟨rfl, rfl⟩))
    · rcases (hcells q x).mp hx with ⟨-, rfl⟩ | hx
      · exact hsucc
      · exact hv q x hx
  | connection p e stack =>
    obtain ⟨s', hs, hinv, hw⟩ := connection_spec h hl
    exact ⟨s', hs, hinv, fun hv => iff_of_true (hwithin hw hv) trivial⟩
  | hold p =>
    obtain ⟨s', hs, hinv, hw⟩ := hold_spec h hl
    exact ⟨s', hs, hinv, fun hv => iff_of_true (hwithin hw hv) trivial⟩
  | drop p =>
    obtain ⟨s', hs, hinv, hw⟩ := drop_spec h hl
    exact ⟨s', hs, hinv, fun hv => iff_of_true (hwithin hw hv) trivial⟩

/-- The poller with its wakeup channel, before the acceptor is made. -/
theorem construct_epoller (d : Setup) : ∃ e : Epoller, e.KeysAgree ∧
    e.channels = Function.update (fun _ => none) d.wakeupFd (some wakeupAddress) ∧
    (construct d).epoller =
      (e.update ⟨0#32, true, d.isOpen d.listenFd⟩ acceptAddress (registered d.listenFd true)).1 := by
  refine ⟨_, Epoller.update_keysAgree Epoller.init_keysAgree ⟨0#32, true, d.isOpen d.wakeupFd⟩
    wakeupAddress (registered d.wakeupFd false), ?_, rfl⟩
  rw [Epoller.update_channels_eq Epoller.init_keysAgree rfl]
  exact if_pos d.wakeup_open

theorem construct_channels (d : Setup) : (construct d).epoller.channels =
    Function.update (Function.update (fun _ => none) d.wakeupFd (some wakeupAddress)) d.listenFd
      (some acceptAddress) := by
  obtain ⟨e, hk, hch, hconstruct⟩ := construct_epoller d
  rw [hconstruct, Epoller.update_channels_eq hk rfl, hch]
  exact if_pos d.listen_open

theorem construct_keys (d : Setup) : (construct d).epoller.KeysAgree := by
  obtain ⟨e, hk, -, hconstruct⟩ := construct_epoller d
  rw [hconstruct]
  exact Epoller.update_keysAgree hk _ _ _

theorem construct_inv (d : Setup) : Inv d (construct d) where
  wakeup := by rw [construct_channels, Function.update_of_ne d.distinct, Function.update_self]
  accept := by rw [construct_channels, Function.update_self]
  listen := rfl
  opened := ⟨d.wakeup_open, d.listen_open⟩
  valid := d.valid
  next := Nat.lt_succ_self _
  conns := by intro p c hc; exact absurd hc (by nofun)
  fds := by intro p q c c' hc; exact absurd hc (by nofun)
  names := by intro p q c c' hc; exact absurd hc (by nofun)
  entries := by intro x hx; exact absurd hx (by nofun)
  registered := by
    intro fd p hp
    rw [construct_channels] at hp
    rcases eq_or_ne fd d.listenFd with rfl | hl
    · rw [Function.update_self] at hp
      exact Or.inr (Or.inl ⟨(Option.some.inj hp).symm, rfl⟩)
    · rw [Function.update_of_ne hl] at hp
      rcases eq_or_ne fd d.wakeupFd with rfl | hw
      · rw [Function.update_self] at hp
        exact Or.inl ⟨(Option.some.inj hp).symm, rfl⟩
      · rw [Function.update_of_ne hw] at hp
        exact absurd hp (by simp)
  keys := construct_keys d
  owned := by intro p c hc; exact absurd hc (by nofun)

/-- Every connection in `conn_map_` has a valid descriptor, which `channels_` maps to its channel,
    and no two have the same. -/
def Mirrors (s : TcpServer) : Prop :=
  (∀ x ∈ s.connMap, ∃ c, s.conns.cell x.2 = some c ∧ 0 ≤ c.fd ∧ s.isOpen c.fd = true ∧
    s.epoller.channels c.fd = some x.2) ∧
  ∀ x ∈ s.connMap, ∀ y ∈ s.connMap, ∀ c c', s.conns.cell x.2 = some c →
    s.conns.cell y.2 = some c' → c.fd = c'.fd → x = y

theorem Inv.mirrors_iff (h : Inv d s) : s.Mirrors ↔ s.AllValid := by
  constructor
  · rintro ⟨hmap, -⟩ p c hc hfd
    rcases (h.conns p c hc).status with hin | hstill | hcl
    · exact absurd hin.isOpen (by rw [hfd, h.valid (-1) (by decide)]; decide)
    · obtain ⟨c', hc', hpos, -, -⟩ := hmap _ hstill.2.1
      obtain rfl := Option.some.inj (hc.symm.trans hc')
      exact absurd hpos (by rw [hfd]; decide)
    · exact absurd hcl.isOpen (by rw [hfd, h.valid (-1) (by decide)]; decide)
  · intro hv
    have hin : ∀ x ∈ s.connMap, ∃ c, s.conns.cell x.2 = some c ∧ c.name = x.1 ∧
        s.InService x.2 c := by
      intro x hx
      obtain ⟨c, hc, hn⟩ := h.entries x hx
      rcases (h.conns x.2 c hc).status with hin | hstill | hcl
      · exact ⟨c, hc, hn, hin⟩
      · exact absurd hstill.2.2 (hv x.2 c hc)
      · exact absurd (mapped_of_mem hx) (by rw [hcl.2.1]; decide)
    refine ⟨fun x hx => ?_, fun x hx y hy c c' hc hc' heq => ?_⟩
    · obtain ⟨c, hc, -, hserv⟩ := hin x hx
      refine ⟨c, hc, ?_, hserv.isOpen, hserv.2.2.2⟩
      by_contra hneg
      exact absurd hserv.isOpen (by rw [h.valid c.fd (by omega)]; decide)
    · obtain ⟨c₁, hc₁, hn₁, hserv⟩ := hin x hx
      obtain ⟨c₂, hc₂, hn₂, -⟩ := hin y hy
      obtain rfl := Option.some.inj (hc.symm.trans hc₁)
      obtain rfl := Option.some.inj (hc'.symm.trans hc₂)
      have hp := h.fds x.2 y.2 c c' hc hc' heq hserv.isOpen
      rw [← hp] at hc'
      obtain rfl := Option.some.inj (hc.symm.trans hc')
      exact Prod.ext (hn₁.symm.trans hn₂) hp

/-- A failed `accept()` leaves `conn_map_` and `channels_` as they are. -/
def FailsCleanly (s : TcpServer) (e : ServerEvent) : Prop :=
  ¬ e.Succeeds → ∀ s', step s e = some s' →
    s'.connMap = s.connMap ∧ s'.epoller.channels = s.epoller.channels

/-- **`conn_map_` mirrors the poller** in exactly the runs in which no `accept()` fails. A run is
    any sequence of events at the listening socket and at the connections, with fewer than `2^31`
    connections; no step of it fails an assertion. -/
theorem conn_map_mirrors_iff (d : Setup) (es : List ServerEvent)
    (hleg : Along step Legal (construct d) es) :
    (∃ s, run step (construct d) es = some s) ∧
    (Throughout step Mirrors (construct d) es ∧ Along step FailsCleanly (construct d) es ↔
      ∀ e ∈ es, e.Succeeds) := by
  obtain ⟨s, hrun, -⟩ := run_total (I := Inv d) (fun s e h hl => by
    obtain ⟨s', hs, hinv, -⟩ := step_spec h hl
    exact ⟨s', hs, hinv⟩) es (construct d) (construct_inv d) hleg
  have hmirrors : Throughout step Mirrors (construct d) es ↔
      Along step (fun _ e => e.Succeeds) (construct d) es := by
    refine throughout_iff_along (J := Inv d) (fun s e h hm hl => ?_) es (construct d)
      (construct_inv d) ?_ hleg
    · obtain ⟨s', hs, hinv, hiff⟩ := step_spec h hl
      exact ⟨s', hs, hinv, hinv.mirrors_iff.trans (hiff (h.mirrors_iff.mp hm))⟩
    · exact (construct_inv d).mirrors_iff.mpr fun p c hc => absurd hc (by nofun)
  refine ⟨⟨s, hrun⟩, ?_⟩
  rw [hmirrors]
  constructor
  · rintro ⟨hsucc, -⟩
    exact forall_of_along hrun hsucc
  · intro hall
    have hsucc : Along step (fun _ e => e.Succeeds) (construct d) es := along_of_forall hall
    exact ⟨hsucc, hsucc.mono fun s e he hfail => absurd he hfail⟩

/-- The standard streams are open, the wakeup channel has 3 and the listening socket 4. -/
def ordinarySetup : Setup where
  port := 80
  writeCompleteCallback := true
  wakeupFd := 3
  listenFd := 4
  isOpen := fun fd => decide (0 ≤ fd ∧ fd < 5)
  wakeup_open := rfl
  listen_open := rfl
  distinct := by decide
  valid := by
    intro fd hfd
    simp only [decide_eq_false_iff_not]
    omega

/-- A descriptor is used again after its connection has been closed, another one stays. -/
theorem conn_map_mirrors_sample :
    Throughout step Mirrors (construct ordinarySetup)
      [.accept 5 0#32 EPOLLOUT false false, .accept 6 0#32 0#32 true true,
        .connection 2 (.handleRead (.data [])) 0#32, .accept 5 0#32 0#32 false false] :=
  (((conn_map_mirrors_iff ordinarySetup [.accept 5 0#32 EPOLLOUT false false,
    .accept 6 0#32 0#32 true true, .connection 2 (.handleRead (.data [])) 0#32,
    .accept 5 0#32 0#32 false false] (by decide +kernel)).2).mpr (by decide)).1

/-- One failed `accept()` puts a connection on descriptor `-1` into `conn_map_`. -/
theorem failed_accept_is_kept :
    ¬ ∀ (d : Setup) (es : List ServerEvent), Along step Legal (construct d) es →
      Throughout step Mirrors (construct d) es ∧ Along step FailsCleanly (construct d) es := by
  intro hall
  obtain ⟨hmirrors, -⟩ := hall ordinarySetup [.accept (-1) 0#32 0#32 false false] (by decide +kernel)
  have hend := hmirrors [.accept (-1) 0#32 0#32 false false] _ (List.prefix_refl _) rfl
  obtain ⟨c, hc, hpos, -⟩ := hend.1 (connName 80 0, 2) (List.mem_singleton_self _)
  rw [← Option.some.inj hc] at hpos
  exact absurd hpos (by decide)

end TcpServer

end XWeb.Net
