import XWeb.Net.Dispatch

/-!
# Timers on the epoll backend

`Epoller::poll` marks a timer channel with `evt & !CHANNEL_READ`, which is zero, and
`handleEvent` calls nothing on a channel on which nothing is active.

* `TimerChannels`: every entry of `timers_` is a channel that waits for a timer.
* `act_frame`: an action leaves the channels of no connection as they are, or destroys them.
* `timer_not_called`: no iteration calls any handler on the channel of a timer.
* `timers_called_iff`: an iteration meets the timers that `epoll_wait` reports only if it
  reports none.
-/

namespace XWeb.Net

open XWeb.Lib

/-! ## What `poll` does to a timer -/

/-- A channel that waits for a timer, as `runAfter` and `runEvery` set it up. -/
def Channel.IsTimer (c : Channel) : Prop := c.isListenFd = false ∧ has c.events CHANNEL_TIMER = true

theorem Epoller.control_isTimer {e : Epoller} {a : Answer} {p : ℕ} {c : Channel} (h : c.IsTimer) :
    (e.control a p c).2.IsTimer := by
  unfold Epoller.control
  split <;> exact h

theorem Epoller.update_isTimer {e : Epoller} {a : Answer} {p : ℕ} {c : Channel} (h : c.IsTimer) :
    (e.update a p c).2.IsTimer := by
  unfold Epoller.update
  split
  · split
    · exact Epoller.control_isTimer h
    · exact h
  · exact Epoller.control_isTimer h

/-- Only the active events of a timer channel change, and they are zero if it is returned. -/
theorem Epoller.poll_timer {e : Epoller} {events : List EpollEvent} {h h' : Heap Channel}
    {ret : List ℕ} {p : ℕ} {c : Channel} (hc : h.cell p = some c)
    (ht : has c.events CHANNEL_TIMER = true) (hs : e.poll events h = some (ret, h')) :
    ∃ x, h'.cell p = some (c.setActiveEvent x) ∧ (p ∈ ret → x = 0#32) := by
  refine Epoller.poll_induct (e := e) (I := fun s => ∃ x, s.2.cell p = some (c.setActiveEvent x) ∧
    (p ∈ s.1 → x = 0#32)) ?_ events ([], h) (ret, h') ⟨c.activeEvents, hc, by simp⟩ hs
  intro s s' ev ⟨x, hx, hret⟩ hstep
  obtain rfl | ⟨q, d, -, hd, rfl⟩ := Epoller.pollOne_spec hstep
  · exact ⟨x, hx, hret⟩
  · rcases eq_or_ne p q with rfl | hne
    · obtain rfl : c.setActiveEvent x = d := Option.some.inj (hx.symm.trans hd)
      refine ⟨translate ev.events c.events, Heap.cell_set_self (Heap.live_of_cell hx) _, ?_⟩
      intro _
      exact Epoller.translate_timer ht _
    · refine ⟨x, (Heap.cell_set_of_ne s.2 hne _).trans hx, fun hmem => hret ?_⟩
      rcases List.mem_append.mp hmem with hmem | hmem
      · exact hmem
      · exact absurd (List.mem_singleton.mp hmem) hne

namespace Reactor

variable {σ ω ι : Type*}

/-! ## Channels that belong to no connection -/

/-- `p` has been allocated and is the channel of no connection. -/
def Other (r : Reactor σ) (p : ℕ) : Prop := p < r.heap.next ∧ ¬ (r.conns p).Alive

/-- From `r` to `r'` the channel at `p` is left as it is, or destroyed. -/
def Leaves (r r' : Reactor σ) (p : ℕ) : Prop :=
  r'.Other p ∧ (r'.heap.cell p = r.heap.cell p ∨ r'.heap.cell p = none) ∧ r'.active = r.active ∧
    r'.calls = r.calls

theorem other_create {r : Reactor σ} {p : ℕ} (hp : r.Other p) (P : Poller σ ω ι) (c : Channel)
    (a : ω) : (r.create P c a).Other p ∧ (r.create P c a).heap.cell p = r.heap.cell p := by
  constructor
  · exact ⟨Nat.lt_succ_of_lt hp.1, hp.2⟩
  · exact Function.update_of_ne (Nat.ne_of_lt hp.1) ..

theorem Other.setConn {r : Reactor σ} {p q : ℕ} (hp : r.Other p) (hne : p ≠ q)
    (owners : Shared Holder) :
    Other { r with conns := Function.update r.conns q owners } p :=
  ⟨hp.1, by simpa [hne] using hp.2⟩

/-- An action leaves the channels of no connection as they are, or destroys them. -/
theorem act_frame {P : Poller σ ω ι} {r r' : Reactor σ} {a : Action ω} {p : ℕ} (hp : r.Other p)
    (hleg : r.ActLegal P a) (hs : r.act P a = some r') : Leaves r r' p := by
  have hne_of_alive : ∀ q, (r.conns q).Alive → p ≠ q := by
    intro q hq he
    exact hp.2 (he ▸ hq)
  cases a with
  | addTimer fd interval isRepeat junk a =>
    obtain ⟨hother, hcell⟩ := other_create hp P (timerChannel fd interval isRepeat junk) a
    obtain ⟨-, rfl⟩ | ⟨old, -, -, rfl⟩ := addTimer_cases hs
    · exact ⟨hother, Or.inl hcell, rfl, rfl⟩
    · exact ⟨hother, by rw [← hcell]; exact Heap.cell_free _ old p, rfl, rfl⟩
  | cancel id a =>
    obtain ⟨-, rfl⟩ | ⟨q, c, poller, -, -, -, -, rfl⟩ := cancel_cases hs
    · exact ⟨hp, Or.inl rfl, rfl, rfl⟩
    · exact ⟨hp, Heap.cell_free r.heap q p, rfl, rfl⟩
  | attach fd isListen junk a =>
    cases hs
    obtain ⟨hother, hcell⟩ := other_create hp P ((Channel.construct junk fd isListen).setEvent
      (if isListen then CHANNEL_CONN else CHANNEL_READ)) a
    exact ⟨hother, Or.inl hcell, rfl, rfl⟩
  | newConnection fd junk a =>
    cases hs
    obtain ⟨hother, hcell⟩ := other_create hp P
      ((Channel.construct junk fd false).setEvent CHANNEL_READ) a
    exact ⟨hother.setConn (Nat.ne_of_lt hp.1) _, Or.inl hcell, rfl, rfl⟩
  | setEvent q event a =>
    obtain ⟨c, -, rfl⟩ := setEvent_cases hs
    exact ⟨hp, Or.inl (Heap.cell_set_of_ne r.heap (hne_of_alive q hleg.1) _), rfl, rfl⟩
  | endOfFile a =>
    obtain ⟨q, c, poller, -, -, -, halive, rfl⟩ := endOfFile_cases hs
    exact ⟨hp.setConn (hne_of_alive q (Shared.alive_of_release halive)) _, Or.inl rfl, rfl, rfl⟩
  | hold q =>
    cases hs
    exact ⟨hp.setConn (hne_of_alive q hleg) _, Or.inl rfl, rfl, rfl⟩
  | drop q =>
    have hset := hp.setConn (hne_of_alive q (Shared.alive_of_mem hleg))
      ((r.conns q).release .user)
    obtain ⟨-, rfl⟩ | ⟨-, -, rfl⟩ := release_cases hs
    · exact ⟨hset, Or.inl rfl, rfl, rfl⟩
    · exact ⟨hset, Heap.cell_free r.heap q p, rfl, rfl⟩

/-! ## Timer channels -/

/-- Every entry of `timers_` is a channel that waits for a timer. -/
def TimerChannels (r : Reactor σ) : Prop :=
  ∀ id p, r.timers id = some p → ∃ c, r.heap.cell p = some c ∧ c.IsTimer

theorem Inv.other {r : Reactor σ} (h : r.Inv) {id : ℤ} {p : ℕ} (hid : r.timers id = some p) :
    r.Other p := ⟨(h.timers_live id p hid).lt_next, h.timers_conns id p hid⟩

theorem isTimer_timerChannel (fd interval : ℤ) (isRepeat : Bool) (junk : Flags) :
    (timerChannel fd interval isRepeat junk).IsTimer := by
  refine ⟨rfl, ?_⟩
  show has CHANNEL_TIMER CHANNEL_TIMER = true
  decide

theorem addTimer_new {r r' : Reactor Epoller} {fd interval : ℤ} {isRepeat : Bool} {junk : Flags}
    {a : Answer} (hs : r.addTimer epollPoller fd interval isRepeat junk a = some r') :
    r'.timers = Function.update r.timers fd (some r.heap.next) ∧
      ∀ c, r'.heap.cell r.heap.next = some c → c.IsTimer := by
  have htimer : ∀ c, (r.create epollPoller (timerChannel fd interval isRepeat junk) a).heap.cell
      r.heap.next = some c → c.IsTimer := by
    intro c hc
    rw [← Option.some.inj ((Heap.cell_alloc_self r.heap _).symm.trans hc)]
    exact Epoller.update_isTimer (isTimer_timerChannel fd interval isRepeat junk)
  obtain ⟨-, rfl⟩ | ⟨old, -, -, rfl⟩ := addTimer_cases hs
  · exact ⟨rfl, htimer⟩
  · refine ⟨rfl, fun c hc => ?_⟩
    rcases Heap.cell_free (r.create epollPoller (timerChannel fd interval isRepeat junk) a).heap
      old r.heap.next with heq | hnone
    · exact htimer c (heq.symm.trans hc)
    · exact absurd (hnone.symm.trans hc) (by nofun)

/-- The entries of `timers_` after an action are old ones, or the one that `addTimer` makes. -/
theorem act_timers {r r' : Reactor Epoller} {a : Action Answer}
    (hs : r.act epollPoller a = some r') {id : ℤ} {p : ℕ} (hid : r'.timers id = some p) :
    r.timers id = some p ∨ ∀ c, r'.heap.cell p = some c → c.IsTimer := by
  cases a with
  | addTimer fd interval isRepeat junk a =>
    obtain ⟨htimers, hnew⟩ := addTimer_new hs
    rw [htimers] at hid
    rcases eq_or_ne id fd with rfl | hne
    · obtain rfl : r.heap.next = p := by simpa using hid
      exact Or.inr hnew
    · exact Or.inl (by simpa [hne] using hid)
  | cancel i a =>
    obtain ⟨-, rfl⟩ | ⟨q, c, poller, -, -, -, -, rfl⟩ := cancel_cases hs
    · exact Or.inl hid
    · rcases eq_or_ne id i with rfl | hne
      · simp at hid
      · exact Or.inl (by simpa [hne] using hid)
  | attach fd isListen junk a => cases hs; exact Or.inl hid
  | newConnection fd junk a => cases hs; exact Or.inl hid
  | setEvent q event a =>
    obtain ⟨c, -, rfl⟩ := setEvent_cases hs
    exact Or.inl hid
  | endOfFile a =>
    obtain ⟨q, c, poller, -, -, -, -, rfl⟩ := endOfFile_cases hs
    exact Or.inl hid
  | hold q => cases hs; exact Or.inl hid
  | drop q => obtain ⟨-, rfl⟩ | ⟨-, -, rfl⟩ := release_cases hs <;> exact Or.inl hid

/-- A step between two states of the invariant keeps the timer channels. -/
theorem step_timerChannels {r r' : Reactor Epoller} {e : ReactorEvent Answer (List EpollEvent)}
    (h : r.Inv) (h' : r'.Inv) (ht : r.TimerChannels) (hleg : r.Legal epollPoller e)
    (hs : step epollPoller r e = some r') : r'.TimerChannels := by
  intro id p hid
  cases e with
  | poll i =>
    obtain ⟨⟨ret, heap⟩, hpoll, rfl⟩ := Option.map_eq_some_iff.mp hs
    obtain ⟨c, hc, hct⟩ := ht id p hid
    obtain ⟨x, hx, -⟩ := Epoller.poll_timer hc hct.2 hpoll
    exact ⟨_, hx, hct⟩
  | begin =>
    obtain ⟨q, rest, c, -, -, rfl⟩ := begin_cases hs
    exact ht id p hid
  | act a =>
    obtain ⟨d, hd⟩ := Heap.live_iff.mp (h'.timers_live id p hid)
    rcases act_timers hs hid with hold | hnew
    · obtain ⟨c, hc, hct⟩ := ht id p hold
      obtain ⟨-, hcell, -, -⟩ := act_frame (h.other hold) hleg.2 hs
      rcases hcell with hcell | hnone
      · exact ⟨c, hcell.trans hc, hct⟩
      · exact absurd (hnone.symm.trans hd) (by nofun)
    · exact ⟨d, hd, hnew d hd⟩
  | finish =>
    cases hs
    exact ht id p hid

/-! ## One iteration -/

/-- The channel `p` has not been called in this iteration, and nothing is active on it if it is
    still to come. -/
structure Silent (r : Reactor σ) (p : ℕ) : Prop where
  other : r.Other p
  inactive : ∀ c, r.heap.cell p = some c → p ∈ r.active → c.handleEvent = none
  uncalled : ∀ k, (p, k) ∉ r.calls

/-- Within an iteration: any step but `poll`. -/
def Within : ReactorEvent ω ι → Prop
  | .poll _ => False
  | _ => True

instance : ∀ e : ReactorEvent ω ι, Decidable (Within e)
  | .poll _ => instDecidableFalse
  | .begin | .act _ | .finish => instDecidableTrue

theorem silent_step {P : Poller σ ω ι} {r r' : Reactor σ} {e : ReactorEvent ω ι} {p : ℕ}
    (h : r.Silent p) (hleg : r.Legal P e) (hw : Within e) (hs : step P r e = some r') :
    r'.Silent p := by
  cases e with
  | poll i => exact absurd hw id
  | begin =>
    obtain ⟨q, rest, c, hq, hc, rfl⟩ := begin_cases hs
    refine ⟨h.other, fun d hd hmem => h.inactive d hd (by rw [hq]; exact List.mem_cons_of_mem q hmem),
      fun k hk => ?_⟩
    rcases List.mem_append.mp hk with hk | hk
    · exact h.uncalled k hk
    · rcases eq_or_ne p q with rfl | hne
      · rw [h.inactive c hc (by rw [hq]; exact List.mem_cons_self)] at hk
        exact absurd hk (by simp)
      · obtain ⟨k', -, hk'⟩ : ∃ k', c.handleEvent = some k' ∧ (q, k') = (p, k) := by
          simpa using hk
        exact hne (congrArg Prod.fst hk').symm
  | act a =>
    obtain ⟨hother, hcell, hact, hcalls⟩ := act_frame h.other hleg.2 hs
    refine ⟨hother, fun c hc hmem => ?_, by rw [hcalls]; exact h.uncalled⟩
    rw [hact] at hmem
    rcases hcell with hcell | hnone
    · exact h.inactive c (hcell.symm.trans hc) hmem
    · exact absurd (hnone.symm.trans hc) (by nofun)
  | finish =>
    cases hs
    exact ⟨h.other, h.inactive, h.uncalled⟩

theorem silent_poll {r r' : Reactor Epoller} {events : List EpollEvent} (h : r.Inv)
    (ht : r.TimerChannels) (hs : step epollPoller r (.poll events) = some r') {id : ℤ} {p : ℕ}
    (hid : r.timers id = some p) : r'.Silent p := by
  obtain ⟨⟨ret, heap⟩, hpoll, rfl⟩ := Option.map_eq_some_iff.mp hs
  obtain ⟨c, hc, hct⟩ := ht id p hid
  obtain ⟨x, hx, hzero⟩ := Epoller.poll_timer hc hct.2 hpoll
  refine ⟨⟨(Heap.live_of_cell hx).lt_next, h.timers_conns id p hid⟩, fun d hd hmem => ?_, by simp⟩
  obtain rfl : c.setActiveEvent x = d := Option.some.inj (hx.symm.trans hd)
  exact Channel.handleEvent_eq_none hct.1 (hzero hmem)

/-! ## Runs -/

theorem run_timerChannels {es : List (ReactorEvent Answer (List EpollEvent))}
    {r : Reactor Epoller} (hleg : Along (step epollPoller) (Legal epollPoller) (init Epoller.init) es)
    (hrun : run (step epollPoller) (init Epoller.init) es = some r) (hdone : r.active = []) :
    r.Inv ∧ r.TimerChannels := by
  have hinit := And.intro (init_inv Epoller.init) (init_removable epollPoller Epoller.init)
  have hsp := spares_of_run hinit hleg hrun hdone
  have htotal : ∀ r e, (r.Inv ∧ r.Removable epollPoller) ∧ r.TimerChannels →
      r.Legal epollPoller e ∧ r.Spares e → ∃ r', step epollPoller r e = some r' ∧
        (r'.Inv ∧ r'.Removable epollPoller) ∧ r'.TimerChannels := by
    rintro r e ⟨hinv, ht⟩ ⟨hl, hsp⟩
    obtain ⟨r', hs, hinv'⟩ := step_total hinv hl hsp
    exact ⟨r', hs, hinv', step_timerChannels hinv.1 hinv'.1 ht hl hs⟩
  obtain ⟨⟨hinv, -⟩, ht⟩ := run_total_invariant htotal
    ⟨hinit, fun id p hid => absurd hid (by nofun)⟩ (hleg.and hsp) hrun
  exact ⟨hinv, ht⟩

/-- No iteration calls any handler on the channel of a timer. -/
theorem timer_not_called {es₀ es₁ : List (ReactorEvent Answer (List EpollEvent))}
    {events : List EpollEvent} {r₀ r₁ : Reactor Epoller}
    (hleg : Along (step epollPoller) (Legal epollPoller) (init Epoller.init)
      (es₀ ++ .poll events :: es₁))
    (hwithin : ∀ e ∈ es₁, Within e)
    (h₀ : run (step epollPoller) (init Epoller.init) es₀ = some r₀)
    (h₁ : run (step epollPoller) r₀ (.poll events :: es₁) = some r₁) {id : ℤ} {p : ℕ}
    (hid : r₀.timers id = some p) (k : Handler) : (p, k) ∉ r₁.calls := by
  obtain ⟨hbefore, hafter⟩ := along_append.mp hleg
  obtain ⟨hpoll, hiter⟩ := hafter r₀ h₀
  obtain ⟨hinv, ht⟩ := run_timerChannels hbefore h₀ hpoll.2.1
  obtain ⟨r, hs, hrun⟩ := run_cons_eq_some.mp h₁
  have hsilent : r₁.Silent p :=
    run_invariant_along (fun _ _ _ h he hs => silent_step h he.1 he.2 hs) es₁ r r₁
      (silent_poll hinv ht hs hid) ((hiter r hs).and (along_of_forall hwithin)) hrun
  exact hsilent.uncalled k

/-- For each timer that `epoll_wait` reports, the iteration from `r₀` to `r₁` calls the timer
    handler exactly once and no other handler on its channel. -/
def TimersCalled (r₀ r₁ : Reactor σ) (events : List EpollEvent) : Prop :=
  ∀ ev ∈ events, has ev.events EPOLLIN = true → ∀ p ∈ r₀.timers ev.fd,
    r₁.calls.count (p, .timer) = 1 ∧ ∀ k, (p, k) ∈ r₁.calls → k = .timer

/-- **Timers are called only where none is reported.** In every run over `Epoller`, an iteration
    that starts in `r₀` with what `epoll_wait` reports and leads to `r₁` calls the timers among
    it if and only if there is no timer among it. -/
theorem timers_called_iff (es₀ es₁ : List (ReactorEvent Answer (List EpollEvent)))
    (events : List EpollEvent) (r₀ r₁ : Reactor Epoller)
    (hleg : Along (step epollPoller) (Legal epollPoller) (init Epoller.init)
      (es₀ ++ .poll events :: es₁))
    (hwithin : ∀ e ∈ es₁, Within e)
    (h₀ : run (step epollPoller) (init Epoller.init) es₀ = some r₀)
    (h₁ : run (step epollPoller) r₀ (.poll events :: es₁) = some r₁) :
    TimersCalled r₀ r₁ events ↔
      ∀ ev ∈ events, has ev.events EPOLLIN = true → r₀.timers ev.fd = none := by
  constructor
  · intro hcalled ev hev hin
    cases hid : r₀.timers ev.fd with
    | none => rfl
    | some p =>
      have hcount := (hcalled ev hev hin p hid).1
      rw [List.count_eq_zero.mpr (timer_not_called hleg hwithin h₀ h₁ hid .timer)] at hcount
      exact absurd hcount (by simp)
  · intro hnone ev hev hin p hp
    exact absurd ((hnone ev hev hin).symm.trans hp) (by nofun)

/-- A timer is waiting and a connection is reported, alone and with the timer. -/
theorem timers_called_sample :
    ∃ r₀ r₁ r₂, run (step epollPoller) (init Epoller.init) [.act (.newConnection 7 0#32 granted),
        .act (.addTimer 5 1000 false 0#32 granted)] = some r₀ ∧
      run (step epollPoller) r₀ [.poll [⟨7, EPOLLIN⟩], .begin, .finish] = some r₁ ∧
      TimersCalled r₀ r₁ [⟨7, EPOLLIN⟩] ∧
      run (step epollPoller) r₀ [.poll [⟨7, EPOLLIN⟩, ⟨5, EPOLLIN⟩], .begin, .finish, .begin] =
        some r₂ ∧
      ¬ TimersCalled r₀ r₂ [⟨7, EPOLLIN⟩, ⟨5, EPOLLIN⟩] := by
  refine ⟨_, _, _, rfl, rfl, (timers_called_iff [.act (.newConnection 7 0#32 granted),
    .act (.addTimer 5 1000 false 0#32 granted)] [.begin, .finish] [⟨7, EPOLLIN⟩] _ _
    (by decide +kernel) (by decide) rfl rfl).mpr (by decide), rfl, ?_⟩
  exact (timers_called_iff [.act (.newConnection 7 0#32 granted),
    .act (.addTimer 5 1000 false 0#32 granted)] [.begin, .finish, .begin]
    [⟨7, EPOLLIN⟩, ⟨5, EPOLLIN⟩] _ _ (by decide +kernel) (by decide) rfl rfl).not.mpr (by decide)

/-- `runAfter(1000, cb)`, and one iteration in which the timer expires: nothing is called. -/
theorem timer_handler_not_called :
    ¬ ∀ (es₀ es₁ : List (ReactorEvent Answer (List EpollEvent))) (events : List EpollEvent)
      (r₀ r₁ : Reactor Epoller), Along (step epollPoller) (Legal epollPoller) (init Epoller.init)
        (es₀ ++ .poll events :: es₁) → (∀ e ∈ es₁, Within e) →
      run (step epollPoller) (init Epoller.init) es₀ = some r₀ →
      run (step epollPoller) r₀ (.poll events :: es₁) = some r₁ → r₁.active = [] →
      TimersCalled r₀ r₁ events := by
  intro hall
  have hcalled := hall [.act (.addTimer 5 1000 false 0#32 granted)] [.begin] [⟨5, EPOLLIN⟩] _ _
    (by decide +kernel) (by decide) rfl rfl rfl
  exact absurd (hcalled ⟨5, EPOLLIN⟩ (by decide) (by decide) 0 rfl).1 (by decide)

end Reactor

end XWeb.Net
