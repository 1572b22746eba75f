import XWeb.Lib.Run
import XWeb.Net.Reactor

/-!
# Destroyed channels in a batch

`EventLoop::loop` takes a batch of raw `Channel*` from `poll` and calls them one after the other,
while the handlers destroy channels at once.

* `Inv`: what `timers_` and `conn_map_` own exists and is owned once, and so far no channel of
  the batch has been destroyed.
* `Removable`: the poller can remove every channel.
* `step_spec`: a legal step that spares the batch is made, and keeps `Inv`.
* `dead_run`: a channel that is destroyed while it is in the batch stays in it: nothing calls it
  and gets past it.
* `dispatch_live_iff`: exactly which runs only call and only leave live channels.
-/

namespace XWeb.Net.Reactor

open XWeb.Lib

variable {σ ω ι : Type*}

/-! ## The invariant -/

/-- The invariant between any two steps. -/
structure Inv (r : Reactor σ) : Prop where
  timers_live : ∀ id p, r.timers id = some p → r.heap.Live p
  timers_inj : ∀ id id' p, r.timers id = some p → r.timers id' = some p → id = id'
  conns_live : ∀ p, (r.conns p).Alive → r.heap.Live p
  timers_conns : ∀ id p, r.timers id = some p → ¬ (r.conns p).Alive
  executing_live : ∀ p, r.executing = some p → r.heap.Live p
  active_live : ∀ p ∈ r.active, r.heap.Live p

theorem init_inv (s : σ) : Inv (init s) where
  timers_live := by intro id p h; exact absurd h (by nofun)
  timers_inj := by intro id id' p h; exact absurd h (by nofun)
  conns_live := by intro p h; exact absurd rfl h
  timers_conns := by intro id p h; exact absurd h (by nofun)
  executing_live := by intro p h; exact absurd h (by nofun)
  active_live := by intro p h; exact absurd h (by simp [init])

/-- A heap with at least the live objects of the old one, and any poller. -/
theorem Inv.setHeap {r : Reactor σ} (h : r.Inv) {heap : Heap Channel}
    (hlive : ∀ p, r.heap.Live p → heap.Live p) (s : σ) :
    Inv { r with heap := heap, poller := s } where
  timers_live := by intro id p hp; exact hlive p (h.timers_live id p hp)
  timers_inj := h.timers_inj
  conns_live := by intro p hp; exact hlive p (h.conns_live p hp)
  timers_conns := h.timers_conns
  executing_live := by intro p hp; exact hlive p (h.executing_live p hp)
  active_live := by intro p hp; exact hlive p (h.active_live p hp)

theorem Inv.create {r : Reactor σ} (h : r.Inv) (P : Poller σ ω ι) (c : Channel) (a : ω) :
    Inv (r.create P c a) := h.setHeap (fun _ hp => hp.alloc _) _

/-- What nobody owns and nobody will use can be destroyed. -/
theorem Inv.destroy {r : Reactor σ} (h : r.Inv) {p : ℕ} (ht : ∀ id, r.timers id ≠ some p)
    (hc : ¬ (r.conns p).Alive) (ha : r.Apart p) : ∃ r', r.destroy p = some r' ∧ r'.Inv := by
  refine ⟨_, if_neg ha.1, ?_, h.timers_inj, ?_, h.timers_conns, ?_, ?_⟩
  · intro id q hq
    exact (h.timers_live id q hq).free fun he => ht id (he ▸ hq)
  · intro q hq
    exact (h.conns_live q hq).free fun he => hc (he ▸ hq)
  · intro q hq
    exact (h.executing_live q hq).free fun he => ha.1 (he ▸ hq)
  · intro q hq
    exact (h.active_live q hq).free fun he => ha.2 (he ▸ hq)

/-! ## Masks -/

/-- The poller's `remove` is made for the mask of every channel. -/
def Removable (P : Poller σ ω ι) (r : Reactor σ) : Prop :=
  ∀ p c, r.heap.cell p = some c → P.fits c.events = true

theorem init_removable (P : Poller σ ω ι) (s : σ) : (init s).Removable P := by
  intro p c hc
  exact absurd hc (by nofun)

theorem Removable.create {P : Poller σ ω ι} {r : Reactor σ} (h : r.Removable P) {c : Channel}
    (hc : P.fits c.events = true) (a : ω) : (r.create P c a).Removable P := by
  intro p d hd
  rcases eq_or_ne p r.heap.next with rfl | hne
  · obtain rfl := Option.some.inj ((Heap.cell_alloc_self r.heap _).symm.trans hd)
    rw [P.update_events]
    exact hc
  · exact h p d ((Function.update_of_ne hne ..).symm.trans hd)

theorem Removable.free {P : Poller σ ω ι} {r : Reactor σ} (h : r.Removable P) (p : ℕ) :
    Removable P { r with heap := r.heap.free p } := by
  intro q c hc
  rcases Heap.cell_free r.heap p q with heq | hnone
  · exact h q c (heq.symm.trans hc)
  · exact absurd (hnone.symm.trans hc) (by nofun)

/-- The loop's own channels ask for one kind of event. -/
theorem fits_own (P : Poller σ ω ι) : P.fits CHANNEL_TIMER = true ∧ P.fits CHANNEL_READ = true ∧
    P.fits CHANNEL_CONN = true :=
  ⟨P.fits_of_two _ (by decide), P.fits_of_two _ (by decide), P.fits_of_two _ (by decide)⟩

theorem act_removable {P : Poller σ ω ι} {r r' : Reactor σ} (h : r.Removable P) {a : Action ω}
    (hleg : r.ActLegal P a) (hs : r.act P a = some r') : r'.Removable P := by
  obtain ⟨htimer, hread, hconn⟩ := fits_own P
  cases a with
  | addTimer fd interval isRepeat junk a =>
    have hnew : (r.create P (timerChannel fd interval isRepeat junk) a).Removable P :=
      h.create htimer a
    obtain ⟨-, rfl⟩ | ⟨old, -, -, rfl⟩ := addTimer_cases hs
    · exact hnew
    · exact hnew.free old
  | cancel id a =>
    obtain ⟨-, rfl⟩ | ⟨p, c, poller, -, -, -, -, rfl⟩ := cancel_cases hs
    · exact h
    · exact h.free p
  | attach fd isListen junk a =>
    cases hs
    refine h.create ?_ a
    cases isListen
    · exact hread
    · exact hconn
  | newConnection fd junk a =>
    cases hs
    exact h.create hread a
  | setEvent p event a =>
    obtain ⟨c, hc, rfl⟩ := setEvent_cases hs
    intro q d hd
    rcases eq_or_ne q p with rfl | hne
    · obtain rfl := Option.some.inj ((Heap.cell_set_self (Heap.live_of_cell hc) _).symm.trans hd)
      rw [P.update_events]
      exact hleg.2
    · exact h q d ((Heap.cell_set_of_ne r.heap hne _).symm.trans hd)
  | endOfFile a =>
    obtain ⟨p, c, poller, -, -, -, -, rfl⟩ := endOfFile_cases hs
    exact h
  | hold p =>
    cases hs
    exact h
  | drop p =>
    obtain ⟨-, rfl⟩ | ⟨-, -, rfl⟩ := release_cases hs
    · exact h
    · exact h.free p

theorem step_removable {P : Poller σ ω ι} {r r' : Reactor σ} (h : r.Removable P)
    {e : ReactorEvent ω ι} (hleg : r.Legal P e) (hs : step P r e = some r') : r'.Removable P := by
  cases e with
  | poll i =>
    obtain ⟨⟨ret, heap⟩, hpoll, rfl⟩ := Option.map_eq_some_iff.mp hs
    intro p c' hc'
    obtain ⟨c, hc, hevents⟩ := P.poll_events hpoll p c' hc'
    rw [hevents]
    exact h p c hc
  | begin =>
    obtain ⟨p, rest, c, -, -, rfl⟩ := begin_cases hs
    exact h
  | act a => exact act_removable h hleg.2 hs
  | finish =>
    cases hs
    exact h

/-! ## Timers -/

theorem Inv.eraseTimer {r : Reactor σ} (h : r.Inv) (id : ℤ) :
    Inv { r with timers := Function.update r.timers id none } := by
  have hold : ∀ i p, Function.update r.timers id none i = some p → r.timers i = some p := by
    intro i p hp
    rcases eq_or_ne i id with rfl | hne
    · simp at hp
    · rwa [Function.update_of_ne hne] at hp
  exact ⟨fun i p hp => h.timers_live i p (hold i p hp),
    fun i j p hp hp' => h.timers_inj i j p (hold i p hp) (hold j p hp'), h.conns_live,
    fun i p hp => h.timers_conns i p (hold i p hp), h.executing_live, h.active_live⟩

/-- An entry of `timers_` for a channel that nobody owns yet. -/
theorem Inv.putTimer {r : Reactor σ} (h : r.Inv) (fd : ℤ) {p : ℕ} (hp : r.heap.Live p)
    (ht : ∀ id, r.timers id ≠ some p) (hc : ¬ (r.conns p).Alive) :
    Inv { r with timers := Function.update r.timers fd (some p) } := by
  have hnew : ∀ i q, Function.update r.timers fd (some p) i = some q →
      (i = fd ∧ q = p) ∨ r.timers i = some q := by
    intro i q hq
    rcases eq_or_ne i fd with rfl | hne
    · rw [Function.update_self] at hq
      exact Or.inl ⟨rfl, (Option.some.inj hq).symm⟩
    · rw [Function.update_of_ne hne] at hq
      exact Or.inr hq
  refine ⟨?_, ?_, h.conns_live, ?_, h.executing_live, h.active_live⟩
  · intro i q hq
    rcases hnew i q hq with ⟨-, rfl⟩ | hq'
    · exact hp
    · exact h.timers_live i q hq'
  · intro i j q hi hj
    rcases hnew i q hi with ⟨rfl, rfl⟩ | hi'
    · rcases hnew j q hj with ⟨rfl, -⟩ | hj'
      · rfl
      · exact absurd hj' (ht j)
    · rcases hnew j q hj with ⟨-, rfl⟩ | hj'
      · exact absurd hi' (ht i)
      · exact h.timers_inj i j q hi' hj'
  · intro i q hq
    rcases hnew i q hq with ⟨-, rfl⟩ | hq'
    · exact hc
    · exact h.timers_conns i q hq'

theorem Inv.not_timer_next {r : Reactor σ} (h : r.Inv) (id : ℤ) : r.timers id ≠ some r.heap.next :=
  fun he => absurd (h.timers_live id _ he).lt_next (Nat.lt_irrefl _)

theorem Inv.not_conn_next {r : Reactor σ} (h : r.Inv) : ¬ (r.conns r.heap.next).Alive :=
  fun he => absurd (h.conns_live _ he).lt_next (Nat.lt_irrefl _)

theorem addTimer_spec (P : Poller σ ω ι) {r : Reactor σ} (h : r.Inv) {fd : ℤ} (interval : ℤ)
    (isRepeat : Bool) (junk : Flags) (a : ω) (hsp : ∀ p, r.timers fd = some p → r.Apart p) :
    ∃ r', r.addTimer P fd interval isRepeat junk a = some r' ∧ r'.Inv := by
  have hput := (h.create P (timerChannel fd interval isRepeat junk) a).putTimer fd
    (Heap.live_alloc_self _ _) h.not_timer_next h.not_conn_next
  unfold addTimer setTimer
  cases hfd : r.timers fd with
  | none =>
    rw [show (r.create P (timerChannel fd interval isRepeat junk) a).timers fd = none from hfd]
    exact ⟨_, rfl, hput⟩
  | some old =>
    rw [show (r.create P (timerChannel fd interval isRepeat junk) a).timers fd = some old from hfd]
    refine hput.destroy ?_ (h.timers_conns fd old hfd) (hsp old hfd)
    intro id hid
    -- the new entry is another channel, the other entries are other timers
    rcases eq_or_ne id fd with rfl | hne
    · have heq : r.heap.next = old := by simpa using hid
      exact h.not_timer_next id (heq ▸ hfd)
    · have hid : r.timers id = some old := by simpa [Reactor.create, hne] using hid
      exact hne (h.timers_inj id fd old hid hfd)

theorem cancel_spec {P : Poller σ ω ι} {r : Reactor σ} (h : r.Inv) (hrem : r.Removable P) {id : ℤ}
    (a : ω) (hsp : ∀ p, r.timers id = some p → r.Apart p) :
    ∃ r', r.cancel P id a = some r' ∧ r'.Inv := by
  unfold cancel
  cases hid : r.timers id with
  | none => exact ⟨r, rfl, h⟩
  | some p =>
    obtain ⟨c, hc⟩ := Heap.live_iff.mp (h.timers_live id p hid)
    obtain ⟨poller, hpoller⟩ := P.remove_fits r.poller a c (hrem p c hc)
    simp only [hc, hpoller, Option.bind_some]
    have herase := (h.setHeap (fun _ hp => hp) poller).eraseTimer id
    refine herase.destroy ?_ (h.timers_conns id p hid) (hsp p hid)
    intro i hi
    rcases eq_or_ne i id with rfl | hne
    · simp at hi
    · have hi : r.timers i = some p := by simpa [hne] using hi
      exact hne (h.timers_inj i id p hi hid)

/-! ## Connections -/

/-- The owners of a connection change. -/
theorem Inv.setConn {r : Reactor σ} (h : r.Inv) {p : ℕ} {owners : Shared Holder}
    (hlive : owners.Alive → r.heap.Live p) (ht : owners.Alive → ∀ id, r.timers id ≠ some p) :
    Inv { r with conns := Function.update r.conns p owners } := by
  have hnew : ∀ q, (Function.update r.conns p owners q).Alive →
      (q = p ∧ owners.Alive) ∨ (r.conns q).Alive := by
    intro q hq
    rcases eq_or_ne q p with rfl | hne
    · rw [Function.update_self] at hq
      exact Or.inl ⟨rfl, hq⟩
    · rw [Function.update_of_ne hne] at hq
      exact Or.inr hq
  refine ⟨h.timers_live, h.timers_inj, ?_, ?_, h.executing_live, h.active_live⟩
  · intro q hq
    rcases hnew q hq with ⟨rfl, ho⟩ | ho
    · exact hlive ho
    · exact h.conns_live q ho
  · intro id q hid hq
    rcases hnew q hq with ⟨rfl, ho⟩ | ho
    · exact ht ho id hid
    · exact h.timers_conns id q hid ho

theorem Inv.not_timer {r : Reactor σ} (h : r.Inv) {p : ℕ} (hp : (r.conns p).Alive) (id : ℤ) :
    r.timers id ≠ some p := fun hid => h.timers_conns id p hid hp

theorem release_spec {r : Reactor σ} (h : r.Inv) {p : ℕ} {o : Holder}
    (ho : o ∈ (r.conns p).owners) (hsp : (r.conns p).owners = [o] → r.Apart p) :
    ∃ r', r.release p o = some r' ∧ r'.Inv := by
  have halive : (r.conns p).Alive := Shared.alive_of_mem ho
  have hset : Inv { r with conns := Function.update r.conns p ((r.conns p).release o) } :=
    h.setConn (fun _ => h.conns_live p halive) fun _ => h.not_timer halive
  unfold release
  by_cases hlast : ((r.conns p).release o).Alive
  · exact ⟨_, if_pos hlast, hset⟩
  · have hone : (r.conns p).owners = [o] := Shared.eq_singleton_of_not_alive_release ho hlast
    simp only [if_neg hlast]
    exact hset.destroy (h.not_timer halive) (by simpa using hlast) (hsp hone)

theorem endOfFile_spec {P : Poller σ ω ι} {r : Reactor σ} (h : r.Inv) (hrem : r.Removable P) (a : ω)
    (hleg : r.ActLegal P (.endOfFile a)) (hsp : r.Spares (.act (.endOfFile a) : ReactorEvent ω ι)) :
    ∃ r', r.endOfFile P a = some r' ∧ r'.Inv := by
  obtain ⟨⟨p, handler⟩, hrun, -, hmap⟩ := hleg
  have hex : r.executing = some p := by simp [executing, Option.mem_def.mp hrun]
  obtain ⟨c, hc⟩ := Heap.live_iff.mp (h.executing_live p hex)
  obtain ⟨poller, hpoller⟩ := P.remove_fits r.poller a c (hrem p c hc)
  simp only [endOfFile, hex, hc, hpoller, Option.bind_some]
  exact release_spec (h.setHeap (fun _ hp => hp) _) hmap fun hone => absurd hone (hsp p hex)

theorem newConnection_inv (P : Poller σ ω ι) {r : Reactor σ} (h : r.Inv) (fd : ℤ) (junk : Flags)
    (a : ω) : Inv (r.newConnection P fd junk a) :=
  (h.create P _ a).setConn (fun _ => Heap.live_alloc_self _ _) fun _ => h.not_timer_next

theorem hold_inv {r : Reactor σ} (h : r.Inv) {p : ℕ} (hp : (r.conns p).Alive) :
    Inv (r.hold p) := h.setConn (fun _ => h.conns_live p hp) fun _ => h.not_timer hp

theorem setEvent_spec (P : Poller σ ω ι) {r : Reactor σ} (h : r.Inv) {p : ℕ}
    (hp : (r.conns p).Alive) (event : Flags) (a : ω) :
    ∃ r', r.setEvent P p event a = some r' ∧ r'.Inv := by
  obtain ⟨c, hc⟩ := Heap.live_iff.mp (h.conns_live p hp)
  simp only [setEvent, hc]
  exact ⟨_, rfl, h.setHeap (fun _ hq => Heap.live_set.mpr hq) _⟩

/-! ## Steps -/

theorem act_spec (P : Poller σ ω ι) {r : Reactor σ} (h : r.Inv) (hrem : r.Removable P) {a : Action ω}
    (hleg : r.ActLegal P a) (hsp : r.Spares (.act a : ReactorEvent ω ι)) :
    ∃ r', r.act P a = some r' ∧ r'.Inv := by
  cases a with
  | addTimer fd interval isRepeat junk a => exact addTimer_spec P h interval isRepeat junk a hsp
  | cancel id a => exact cancel_spec h hrem a hsp
  | attach fd isListen junk a => exact ⟨_, rfl, h.create P _ a⟩
  | newConnection fd junk a => exact ⟨_, rfl, newConnection_inv P h fd junk a⟩
  | setEvent p event a => exact setEvent_spec P h hleg.1 event a
  | endOfFile a => exact endOfFile_spec h hrem a hleg hsp
  | hold p => exact ⟨_, rfl, hold_inv h hleg⟩
  | drop p => exact release_spec h hleg hsp

theorem begin_spec {r : Reactor σ} (h : r.Inv) (hne : r.active ≠ []) :
    ∃ r', r.begin = some r' ∧ r'.Inv := by
  obtain ⟨p, rest, hact⟩ := List.exists_cons_of_ne_nil hne
  obtain ⟨c, hc⟩ := Heap.live_iff.mp (h.active_live p (by rw [hact]; exact List.mem_cons_self))
  simp only [begin, hact, hc]
  refine ⟨_, rfl, h.timers_live, h.timers_inj, h.conns_live, h.timers_conns, ?_, ?_⟩
  · intro q hq
    obtain ⟨-, -, rfl⟩ : ∃ k, c.handleEvent = some k ∧ p = q := by
      simpa [executing] using hq
    exact Heap.live_of_cell hc
  · intro q hq
    exact h.active_live q (by rw [hact]; exact List.mem_cons_of_mem p hq)

/-- A legal step that spares the batch is made. -/
theorem step_spec {P : Poller σ ω ι} {r : Reactor σ} (h : r.Inv) (hrem : r.Removable P)
    {e : ReactorEvent ω ι} (hleg : r.Legal P e) (hsp : r.Spares e) :
    ∃ r', step P r e = some r' ∧ r'.Inv := by
  cases e with
  | poll i =>
    obtain ⟨hrun, hact, hsome⟩ := hleg
    obtain ⟨⟨ret, heap⟩, hpoll⟩ := Option.isSome_iff_exists.mp hsome
    obtain ⟨hlive, hret⟩ := P.poll_live hpoll
    refine ⟨{ r with heap := heap, active := ret, calls := [] }, by simp [step, hpoll], ?_⟩
    have hset := h.setHeap (fun p hp => (hlive p).mpr hp) r.poller
    exact ⟨hset.timers_live, hset.timers_inj, hset.conns_live, hset.timers_conns,
      hset.executing_live, hret⟩
  | begin => exact begin_spec h hleg.2
  | act a => exact act_spec P h hrem hleg.2 hsp
  | finish =>
    exact ⟨_, rfl, h.timers_live, h.timers_inj, h.conns_live, h.timers_conns, by
      intro p hp; exact absurd hp (by nofun), h.active_live⟩

/-! ## The converse -/

/-- A channel of the batch that has been destroyed. -/
def Doomed (r : Reactor σ) (p : ℕ) : Prop := p ∈ r.active ∧ r.heap.Dead p

/-- The heap keeps its dead objects, and the batch is the same. -/
def Keeps (r r' : Reactor σ) : Prop :=
  (∀ p, r.heap.Dead p → r'.heap.Dead p) ∧ r'.active = r.active

/-- No action brings a channel back or takes it out of the batch. -/
theorem act_keeps {P : Poller σ ω ι} {r r' : Reactor σ} {a : Action ω}
    (hs : r.act P a = some r') : Keeps r r' := by
  cases a with
  | addTimer fd interval isRepeat junk a =>
    obtain ⟨-, rfl⟩ | ⟨old, -, -, rfl⟩ := addTimer_cases hs
    · exact ⟨fun p hp => hp.alloc _, rfl⟩
    · exact ⟨fun p hp => (hp.alloc _).free old, rfl⟩
  | cancel id a =>
    obtain ⟨-, rfl⟩ | ⟨q, c, poller, -, -, -, -, rfl⟩ := cancel_cases hs
    · exact ⟨fun p hp => hp, rfl⟩
    · exact ⟨fun p hp => hp.free q, rfl⟩
  | attach fd isListen junk a =>
    cases hs
    exact ⟨fun p hp => hp.alloc _, rfl⟩
  | newConnection fd junk a =>
    cases hs
    exact ⟨fun p hp => hp.alloc _, rfl⟩
  | setEvent q event a =>
    obtain ⟨c, -, rfl⟩ := setEvent_cases hs
    exact ⟨fun p hp => hp.set q _, rfl⟩
  | endOfFile a =>
    obtain ⟨q, c, poller, -, -, -, -, rfl⟩ := endOfFile_cases hs
    exact ⟨fun p hp => hp, rfl⟩
  | hold q =>
    cases hs
    exact ⟨fun p hp => hp, rfl⟩
  | drop q =>
    obtain ⟨-, rfl⟩ | ⟨-, -, rfl⟩ := release_cases hs
    · exact ⟨fun p hp => hp, rfl⟩
    · exact ⟨fun p hp => hp.free q, rfl⟩

theorem doomed_step {P : Poller σ ω ι} {r r' : Reactor σ} {e : ReactorEvent ω ι} {p : ℕ}
    (hp : r.Doomed p) (hleg : r.Legal P e) (hs : step P r e = some r') : r'.Doomed p := by
  obtain ⟨hact, hdead⟩ := hp
  cases e with
  | poll i =>
    rw [hleg.2.1] at hact
    exact absurd hact (by simp)
  | begin =>
    obtain ⟨q, rest, c, hq, hc, rfl⟩ := begin_cases hs
    rw [hq] at hact
    rcases List.mem_cons.mp hact with rfl | hmem
    · exact absurd (Heap.live_of_cell hc) hdead.not_live
    · exact ⟨hmem, hdead⟩
  | act a =>
    obtain ⟨hdead', hact'⟩ := act_keeps hs
    exact ⟨by rwa [hact'], hdead' p hdead⟩
  | finish =>
    cases hs
    exact ⟨hact, hdead⟩

/-- Once a channel of the batch has been destroyed, the iteration does not end. -/
theorem dead_run {P : Poller σ ω ι} {p : ℕ} {es : List (ReactorEvent ω ι)} {r r' : Reactor σ}
    (hp : r.Doomed p) (hleg : Along (step P) (Legal P) r es) (hrun : run (step P) r es = some r') :
    r'.Doomed p :=
  run_invariant_along (fun _ _ _ hp hleg hs => doomed_step hp hleg hs) es r r' hp hleg hrun

theorem apart_or_mem_active {r : Reactor σ} {p : ℕ} (hex : r.executing ≠ some p) :
    r.Apart p ∨ p ∈ r.active := by
  by_cases hmem : p ∈ r.active
  · exact Or.inr hmem
  · exact Or.inl ⟨hex, hmem⟩

/-- A step that is made spares the batch, or dooms a channel of it. -/
theorem spares_or_doomed {P : Poller σ ω ι} {r r' : Reactor σ} {e : ReactorEvent ω ι} (h : r.Inv)
    (hs : step P r e = some r') : r.Spares e ∨ ∃ p, r'.Doomed p := by
  cases e with
  | poll i => exact Or.inl trivial
  | begin => exact Or.inl trivial
  | finish => exact Or.inl trivial
  | act a =>
    cases a with
    | addTimer fd interval isRepeat junk a =>
      obtain ⟨hnone, -⟩ | ⟨old, hold, hex, rfl⟩ := addTimer_cases hs
      · exact Or.inl (by simp [Spares, hnone])
      · rcases apart_or_mem_active hex with hap | hmem
        · exact Or.inl fun p hp => by rwa [← Option.some.inj (hold.symm.trans hp)]
        · exact Or.inr ⟨old, hmem, ((h.timers_live fd old hold).alloc _).dead_free⟩
    | cancel id a =>
      obtain ⟨hnone, -⟩ | ⟨p, c, poller, hid, hc, -, hex, rfl⟩ := cancel_cases hs
      · exact Or.inl (by simp [Spares, hnone])
      · rcases apart_or_mem_active hex with hap | hmem
        · exact Or.inl fun q hq => by rwa [← Option.some.inj (hid.symm.trans hq)]
        · exact Or.inr ⟨p, hmem, (Heap.live_of_cell hc).dead_free⟩
    | attach fd isListen junk a => exact Or.inl trivial
    | newConnection fd junk a => exact Or.inl trivial
    | setEvent p event a => exact Or.inl trivial
    | endOfFile a =>
      -- the last owner would take the executing channel along
      obtain ⟨p, c, poller, hex, -, -, halive, -⟩ := endOfFile_cases hs
      refine Or.inl fun q hq hone => ?_
      obtain rfl : p = q := Option.some.inj (hex.symm.trans hq)
      exact absurd halive (Shared.not_alive_release hone)
    | hold p => exact Or.inl trivial
    | drop p =>
      obtain ⟨halive, -⟩ | ⟨-, hex, rfl⟩ := release_cases hs
      · exact Or.inl fun hone => absurd halive (Shared.not_alive_release hone)
      · by_cases hone : (r.conns p).owners = [.user]
        · have hlive : r.heap.Live p := h.conns_live p (by simp [Shared.Alive, hone])
          rcases apart_or_mem_active hex with hap | hmem
          · exact Or.inl fun _ => hap
          · exact Or.inr ⟨p, hmem, hlive.dead_free⟩
        · exact Or.inl fun h => absurd h hone

/-! ## Runs -/

/-- A legal step that spares the batch is made, and what is kept goes on. -/
theorem step_total {P : Poller σ ω ι} {r : Reactor σ} {e : ReactorEvent ω ι}
    (h : r.Inv ∧ r.Removable P) (hleg : r.Legal P e) (hsp : r.Spares e) :
    ∃ r', step P r e = some r' ∧ r'.Inv ∧ r'.Removable P := by
  obtain ⟨r', hs, h'⟩ := step_spec h.1 h.2 hleg hsp
  exact ⟨r', hs, h', step_removable h.2 hleg hs⟩

theorem run_of_spares {P : Poller σ ω ι} {r : Reactor σ} (h : r.Inv ∧ r.Removable P)
    {es : List (ReactorEvent ω ι)} (hleg : Along (step P) (Legal P) r es)
    (hsp : Along (step P) Spares r es) :
    ∃ r', run (step P) r es = some r' ∧ r'.Inv ∧ r'.Removable P :=
  run_total (I := fun r => r.Inv ∧ r.Removable P) (fun _ _ hinv hP => step_total hinv hP.1 hP.2) es r h
    (hleg.and hsp)

theorem spares_of_run {P : Poller σ ω ι} {es : List (ReactorEvent ω ι)} :
    ∀ {r r' : Reactor σ}, r.Inv ∧ r.Removable P → Along (step P) (Legal P) r es →
      run (step P) r es = some r' → r'.active = [] → Along (step P) Spares r es := by
  induction es with
  | nil => intro r r' _ _ _ _; trivial
  | cons e es ih =>
    intro r r' h hleg hrun hdone
    obtain ⟨r₁, hs, hrun⟩ := run_cons_eq_some.mp hrun
    have hsp : r.Spares e := by
      rcases spares_or_doomed h.1 hs with hsp | ⟨p, hdoom⟩
      · exact hsp
      · have hmem := (dead_run hdoom (hleg.2 r₁ hs) hrun).1
        rw [hdone] at hmem
        exact absurd hmem (by simp)
    obtain ⟨r₂, hs₂, h₁⟩ := step_total h hleg.1 hsp
    obtain rfl := Option.some.inj (hs.symm.trans hs₂)
    exact ⟨hsp, fun r₂ hs₂ => by
      obtain rfl := Option.some.inj (hs.symm.trans hs₂)
      exact ih h₁ (hleg.2 r₁ hs) hrun hdone⟩

/-- **Dispatch only touches live channels exactly if every step spares the batch.** Take any run
    of the loop from its start that ends between two iterations, over any poller. It never calls
    `handleEvent` on a destroyed channel and never destroys one that is executing if and only if
    no timer that is cancelled or replaced is executing or still to come in the batch, no
    connection that only `conn_map_` owns sees end-of-file, and user code lets go of no last
    pointer to a connection that is executing or still to come. -/
theorem dispatch_live_iff (P : Poller σ ω ι) (s : σ) (es : List (ReactorEvent ω ι))
    (hleg : Along (step P) (Legal P) (init s) es)
    (hdone : ∀ r, run (step P) (init s) es = some r → r.active = []) :
    (∃ r, run (step P) (init s) es = some r) ↔ Along (step P) Spares (init s) es := by
  constructor
  · rintro ⟨r, hrun⟩
    exact spares_of_run ⟨init_inv s, init_removable P s⟩ hleg hrun (hdone r hrun)
  · intro hsp
    obtain ⟨r, hrun, -⟩ := run_of_spares ⟨init_inv s, init_removable P s⟩ hleg hsp
    exact ⟨r, hrun⟩

/-- The answers of a kernel that grants everything. -/
def granted : Answer := ⟨0#32, true, true⟩

/-- A connection's handler cancels a timer that the batch does not report. -/
theorem dispatch_live_sample :
    ∃ r, run (step epollPoller) (init Epoller.init) [.act (.newConnection 7 0#32 granted),
      .act (.addTimer 5 1000 false 0#32 granted), .poll [⟨7, EPOLLIN⟩], .begin,
      .act (.cancel 5 granted), .finish] = some r :=
  (dispatch_live_iff epollPoller Epoller.init [.act (.newConnection 7 0#32 granted),
    .act (.addTimer 5 1000 false 0#32 granted), .poll [⟨7, EPOLLIN⟩], .begin,
    .act (.cancel 5 granted), .finish] (by decide +kernel)
    (by decide +kernel)).mpr (by decide +kernel)

/-- It cancels one that comes next in the batch, or sees end-of-file: the loop calls a destroyed
    channel, or destroys the one that it is calling. -/
theorem dispatch_uses_destroyed :
    ¬ (∀ es, Along (step epollPoller) (Legal epollPoller) (init Epoller.init) es →
      ∃ r, run (step epollPoller) (init Epoller.init) es = some r) ∧
    run (step epollPoller) (init Epoller.init) [.act (.newConnection 7 0#32 granted),
      .poll [⟨7, EPOLLIN⟩], .begin, .act (.endOfFile granted)] = none := by
  refine ⟨fun hall => ?_, rfl⟩
  obtain ⟨r, hr⟩ := hall [.act (.newConnection 7 0#32 granted),
    .act (.addTimer 5 1000 false 0#32 granted), .poll [⟨7, EPOLLIN⟩, ⟨5, EPOLLIN⟩], .begin,
    .act (.cancel 5 granted), .finish, .begin] (by decide +kernel)
  exact absurd hr (by nofun)

end XWeb.Net.Reactor
