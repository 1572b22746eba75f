import XWeb.Net.Registration
import XWeb.Net.TimerDispatch

/-!
# Readiness on the epoll backend

What `epoll_wait` reports goes through `Epoller::poll`, which tests `EPOLLIN` with `&` and
`EPOLLOUT` with `==`, and then through `Channel::handleEvent`, which makes at most one call.

* `Registered`: an entry of `channels_` is a channel with that descriptor.
* `pollAll_reports`: `poll` returns the channel of each event, with its own active events.
* `Awaits`: in the iteration, the one call that is due on a channel has been made or is to come.
* `served_iff`: exactly which batches are answered as they should be.
-/

namespace XWeb.Net

open XWeb.Lib

/-! ## What a call of the poller does to `channels_` and to a channel -/

namespace Epoller

theorem control_alike (e : Epoller) (a : Answer) (p : ℕ) (c : Channel) :
    c.Alike (e.control a p c).2 := by
  unfold control
  split <;> exact Channel.Alike.refl c

theorem update_alike (e : Epoller) (a : Answer) (p : ℕ) (c : Channel) :
    c.Alike (e.update a p c).2 := by
  unfold update
  split
  · split
    · exact control_alike _ a p c
    · exact Channel.Alike.refl c
  · exact control_alike e a p c

/-- A new entry of `channels_` is the channel that is updated. -/
theorem control_channels {e : Epoller} {a : Answer} {p q : ℕ} {c : Channel} {fd : ℤ}
    (h : (e.control a p c).1.channels fd = some q) :
    q = p ∧ fd = c.fd ∨ e.channels fd = some q := by
  unfold control at h
  split at h
  · simp only at h
    rcases eq_or_ne fd c.fd with rfl | hne
    · rw [Function.update_self] at h
      exact Or.inl ⟨(Option.some.inj h).symm, rfl⟩
    · rw [Function.update_of_ne hne] at h
      exact Or.inr h
  · exact Or.inr h

theorem update_channels {e : Epoller} {a : Answer} {p q : ℕ} {c : Channel} {fd : ℤ}
    (h : (e.update a p c).1.channels fd = some q) :
    q = p ∧ fd = c.fd ∨ e.channels fd = some q := by
  unfold update at h
  split at h
  · split at h
    · rcases control_channels h with hnew | hold
      · exact Or.inl hnew
      · exact Or.inr hold
    · exact Or.inr h
  · exact control_channels h

theorem remove_channels {e e' : Epoller} {a : Answer} {c : Channel} {q : ℕ} {fd : ℤ}
    (hs : epollPoller.remove e a c = some e') (h : e'.channels fd = some q) :
    e.channels fd = some q := by
  obtain rfl : e.remove a c = e' := Option.some.inj hs
  unfold remove at h
  split at h
  · split at h
    · simp only at h
      rcases eq_or_ne fd c.fd with rfl | hne
      · exact absurd h (by simp)
      · rwa [Function.update_of_ne hne] at h
    · exact h
  · exact h

theorem tabled : Tabled epollPoller Epoller.channels where
  update_alike := update_alike
  update_channels := fun _ _ _ _ _ _ h => update_channels h
  remove_channels := fun _ _ _ _ hs _ _ h => remove_channels hs h
  poll_cells := fun _ _ _ _ _ h =>
    reportAll_cells EpollEvent.fd (fun ev c => translate ev.events c.events) h

/-! ## What `poll` reports -/

/-- A channel that no event of the batch is for is left alone. -/
theorem pollAll_other {e : Epoller} {events : List EpollEvent} {s s' : List ℕ × Heap Channel} {p : ℕ}
    (hp : ∀ ev ∈ events, e.channels ev.fd ≠ some p) (hs : events.foldlM e.pollOne s = some s') :
    s'.2.cell p = s.2.cell p ∧ (p ∈ s.1 → p ∈ s'.1) := by
  induction events generalizing s with
  | nil =>
    obtain rfl : s = s' := Option.some.inj hs
    exact ⟨rfl, id⟩
  | cons ev events ih =>
    obtain ⟨s₁, hs₁, hs⟩ := Option.bind_eq_some_iff.mp hs
    obtain ⟨hcell, hmem⟩ := ih (fun ev' hev' => hp ev' (List.mem_cons_of_mem _ hev')) hs
    obtain rfl | ⟨q, c, hq, hc, rfl⟩ := pollOne_spec hs₁
    · exact ⟨hcell, hmem⟩
    · have hne : p ≠ q := fun he => hp ev List.mem_cons_self (he ▸ hq)
      exact ⟨hcell.trans (Heap.cell_set_of_ne s.2 hne _), fun h => hmem (List.mem_append_left _ h)⟩

/-- The channel of an event is returned, with the active events that the event gives. -/
theorem pollAll_reports {e : Epoller} {events : List EpollEvent} {s s' : List ℕ × Heap Channel}
    {ev : EpollEvent} {p : ℕ} {c : Channel} (hnodup : (events.map EpollEvent.fd).Nodup)
    (hev : ev ∈ events) (hp : ∀ fd, e.channels fd = some p ↔ fd = ev.fd) (hc : s.2.cell p = some c)
    (hs : events.foldlM e.pollOne s = some s') :
    s'.2.cell p = some (c.setActiveEvent (translate ev.events c.events)) ∧ p ∈ s'.1 := by
  induction events generalizing s with
  | nil => exact absurd hev (by simp)
  | cons ev' events ih =>
    obtain ⟨hfirst, hnodup⟩ := List.nodup_cons.mp hnodup
    obtain ⟨s₁, hs₁, hrest⟩ := Option.bind_eq_some_iff.mp hs
    rcases List.mem_cons.mp hev with rfl | hev
    · -- the later events are for other descriptors
      have hlater : ∀ ev' ∈ events, e.channels ev'.fd ≠ some p := by
        intro ev' hev' he
        exact hfirst ((hp ev'.fd).mp he ▸ List.mem_map_of_mem hev')
      obtain ⟨hcell, hmem⟩ := pollAll_other hlater hrest
      rw [pollOne, (hp ev.fd).mpr rfl] at hs₁
      simp only [hc, Option.map_some, Option.some.injEq] at hs₁
      subst hs₁
      exact ⟨hcell.trans (Heap.cell_set_self (Heap.live_of_cell hc) _), hmem (by simp)⟩
    · have hc₁ : s₁.2.cell p = some c := by
        have hother : ∀ x ∈ [ev'], e.channels x.fd ≠ some p := by
          intro x hx he
          rw [List.mem_singleton.mp hx] at he
          exact hfirst ((hp ev'.fd).mp he ▸ List.mem_map_of_mem hev)
        have hone : [ev'].foldlM e.pollOne s = some s₁ := by
          rw [List.foldlM_cons, hs₁]
          rfl
        exact (pollAll_other hother hone).1.trans hc
      exact ih hnodup hev hc₁ hrest

end Epoller

namespace Reactor

/-! ## The registry of a reactor -/

/-- An entry of `channels_` is for a channel that was made for this descriptor. -/
def Registered (r : Reactor Epoller) : Prop :=
  ∀ fd p, r.poller.channels fd = some p →
    p < r.heap.next ∧ ∀ c, r.heap.cell p = some c → c.fd = fd

theorem run_registered {es : List (ReactorEvent Answer (List EpollEvent))} {r : Reactor Epoller}
    (hrun : run (step epollPoller) (init Epoller.init) es = some r) : r.Registered :=
  run_registeredIn Epoller.tabled (fun _ => rfl) hrun

/-! ## One iteration -/

/-- The handler that is due on the channel `p`, if any, has been called or will be, and no other. -/
structure Awaits (r : Reactor Epoller) (p : ℕ) (due : Option Handler) : Prop where
  allocated : p < r.heap.next
  ready : ∀ c, r.heap.cell p = some c → c.handleEvent = due
  only : ∀ k, (p, k) ∈ r.calls → due = some k
  made : ∀ k, due = some k → (p, k) ∈ r.calls ∨ p ∈ r.active

theorem awaits_step {r r' : Reactor Epoller} {e : ReactorEvent Answer (List EpollEvent)} {p : ℕ}
    {due : Option Handler} (h : r.Awaits p due) (hw : Within e)
    (hs : step epollPoller r e = some r') : r'.Awaits p due := by
  cases e with
  | poll i => exact absurd hw id
  | begin =>
    obtain ⟨q, rest, c, hq, hc, rfl⟩ := begin_cases hs
    refine ⟨h.allocated, h.ready, fun k hk => ?_, fun k hk => ?_⟩
    · rcases List.mem_append.mp hk with hk | hk
      · exact h.only k hk
      · obtain ⟨k', hk', he⟩ : ∃ k', c.handleEvent = some k' ∧ (q, k') = (p, k) := by
          simpa using hk
        obtain ⟨rfl, rfl⟩ := Prod.mk.inj he
        rw [← h.ready c hc, hk']
    · rcases h.made k hk with hmade | hmem
      · exact Or.inl (List.mem_append_left _ hmade)
      · rw [hq] at hmem
        rcases List.mem_cons.mp hmem with rfl | hmem
        · have hcall : c.handleEvent = some k := (h.ready c hc).trans hk
          exact Or.inl (List.mem_append_right _ (by simp [hcall]))
        · exact Or.inr hmem
  | act a =>
    obtain ⟨hnext, hact, hcalls⟩ := act_batch hs
    refine ⟨lt_of_lt_of_le h.allocated hnext, fun c' hc' => ?_, ?_, ?_⟩
    · obtain ⟨c, hc, halike⟩ := act_cell Epoller.tabled hs h.allocated hc'
      exact halike.handleEvent.trans (h.ready c hc)
    · rw [hcalls]
      exact h.only
    · rw [hact, hcalls]
      exact h.made
  | finish =>
    cases hs
    exact ⟨h.allocated, h.ready, h.only, h.made⟩

/-- What `handleEvent` calls on a channel that is neither a timer nor listening. -/
def due (reported : Flags) : Option Handler :=
  if has reported EPOLLIN then some .read
  else if reported = EPOLLOUT then some .write
  else none

theorem handleEvent_translate {c : Channel} (hl : c.isListenFd = false)
    (ht : has c.events CHANNEL_TIMER = false) (reported : Flags) :
    (c.setActiveEvent (Epoller.translate reported c.events)).handleEvent = due reported := by
  have hevent : (c.setActiveEvent (Epoller.translate reported c.events)).handleEvent =
      if has (Epoller.translate reported c.events) CHANNEL_READ then some .read
      else if has (Epoller.translate reported c.events) CHANNEL_WRITE then some .write
      else if has (Epoller.translate reported c.events) CHANNEL_TIMER then some .timer
      else none := by
    simp [Channel.handleEvent, Channel.setActiveEvent, hl]
  rw [hevent]
  unfold Epoller.translate due
  rw [ht]
  by_cases hin : has reported EPOLLIN = true <;> by_cases hout : reported = EPOLLOUT <;>
    simp [hin, hout] <;> decide

/-- An iteration calls on each reported channel the handler that is due, and no other. -/
theorem calls_iff {es₀ es₁ : List (ReactorEvent Answer (List EpollEvent))}
    {events : List EpollEvent} {r₀ r₁ : Reactor Epoller}
    (hnodup : (events.map EpollEvent.fd).Nodup) (hwithin : ∀ e ∈ es₁, Within e)
    (h₀ : run (step epollPoller) (init Epoller.init) es₀ = some r₀)
    (h₁ : run (step epollPoller) r₀ (.poll events :: es₁) = some r₁) (hdone : r₁.active = [])
    {ev : EpollEvent} (hev : ev ∈ events) {p : ℕ} (hp : r₀.poller.channels ev.fd = some p)
    {c : Channel} (hc : r₀.heap.cell p = some c) (hl : c.isListenFd = false)
    (ht : has c.events CHANNEL_TIMER = false) (k : Handler) :
    (p, k) ∈ r₁.calls ↔ due ev.events = some k := by
  have hreg : r₀.RegisteredIn Epoller.channels := run_registered h₀
  have hkey : ∀ fd, r₀.poller.channels fd = some p ↔ fd = ev.fd := hreg.key_iff hp hc
  obtain ⟨r, hs, hrun⟩ := run_cons_eq_some.mp h₁
  have hstart : r.Awaits p (due ev.events) := by
    obtain ⟨⟨ret, heap⟩, hpoll, rfl⟩ := Option.map_eq_some_iff.mp hs
    obtain ⟨hcell, hmem⟩ := Epoller.pollAll_reports hnodup hev hkey hc hpoll
    refine ⟨(Heap.live_of_cell hcell).lt_next, fun d hd => ?_, fun k hk => absurd hk (by simp),
      fun k _ => Or.inr hmem⟩
    rw [← Option.some.inj (hcell.symm.trans hd)]
    exact handleEvent_translate hl ht ev.events
  have hend : r₁.Awaits p (due ev.events) :=
    run_invariant_along (fun _ e _ h (he : Within e) hs => awaits_step h he hs) es₁ r r₁ hstart
      (along_of_forall hwithin) hrun
  constructor
  · exact hend.only k
  · intro hk
    rcases hend.made k hk with hmade | hact
    · exact hmade
    · rw [hdone] at hact
      exact absurd hact (by simp)

/-- The event is for a registered channel that is neither a timer nor listening. -/
def For (r : Reactor Epoller) (ev : EpollEvent) (p : ℕ) (c : Channel) : Prop :=
  r.poller.channels ev.fd = some p ∧ r.heap.cell p = some c ∧ c.isListenFd = false ∧
    has c.events CHANNEL_TIMER = false

/-- What the iteration from `r₀` to `r₁` owes to the events: the read handler to a readable channel
    with the READ interest, the write handler to a writable one with the WRITE interest, and some
    handler to every one. -/
def Served (r₀ r₁ : Reactor Epoller) (events : List EpollEvent) : Prop :=
  ∀ ev ∈ events, ∀ p c, r₀.For ev p c →
    (has ev.events EPOLLIN = true → c.isReading = true → (p, .read) ∈ r₁.calls) ∧
    (has ev.events EPOLLOUT = true → c.isWriting = true → (p, .write) ∈ r₁.calls) ∧
    ∃ k, (p, k) ∈ r₁.calls

/-- `EPOLLIN` without an `EPOLLOUT` that matters, or `EPOLLOUT` and nothing else. -/
def Servable (c : Channel) (reported : Flags) : Prop :=
  (has reported EPOLLIN = true ∧ ¬ (has reported EPOLLOUT = true ∧ c.isWriting = true)) ∨
    reported = EPOLLOUT

/-- **Combined events are lost.** In every run over `Epoller`, an iteration that starts in `r₀` with
    what `epoll_wait` reports and leads to `r₁` serves the events if and only if each of them is
    `EPOLLIN`, without `EPOLLOUT` on a channel with the WRITE interest, or exactly `EPOLLOUT`. -/
theorem served_iff (es₀ es₁ : List (ReactorEvent Answer (List EpollEvent)))
    (events : List EpollEvent) (r₀ r₁ : Reactor Epoller)
    (hnodup : (events.map EpollEvent.fd).Nodup) (hwithin : ∀ e ∈ es₁, Within e)
    (h₀ : run (step epollPoller) (init Epoller.init) es₀ = some r₀)
    (h₁ : run (step epollPoller) r₀ (.poll events :: es₁) = some r₁) (hdone : r₁.active = []) :
    Served r₀ r₁ events ↔ ∀ ev ∈ events, ∀ p c, r₀.For ev p c → Servable c ev.events := by
  have hone : ∀ ev ∈ events, ∀ p c, r₀.For ev p c →
      (((has ev.events EPOLLIN = true → c.isReading = true → (p, .read) ∈ r₁.calls) ∧
        (has ev.events EPOLLOUT = true → c.isWriting = true → (p, .write) ∈ r₁.calls) ∧
        ∃ k, (p, k) ∈ r₁.calls) ↔ Servable c ev.events) := by
    rintro ev hev p c ⟨hp, hc, hl, ht⟩
    simp only [calls_iff hnodup hwithin h₀ h₁ hdone hev hp hc hl ht]
    have hin : has EPOLLOUT EPOLLIN = false := by decide
    by_cases hread : has ev.events EPOLLIN = true
    · have hne : ev.events ≠ EPOLLOUT := fun he => by simp [he, hin] at hread
      simp [due, Servable, hread, hne]
    · by_cases hout : ev.events = EPOLLOUT
      · simp [due, Servable, hout, hin]
      · simp [due, Servable, hread, hout]
  constructor
  · intro hserved ev hev p c hfor
    exact (hone ev hev p c hfor).mp (hserved ev hev p c hfor)
  · intro hall ev hev p c hfor
    exact (hone ev hev p c hfor).mpr (hall ev hev p c hfor)

/-- A writable connection, and one whose peer has hung up behind its last bytes. -/
theorem served_sample :
    ∃ r₀ r₁, run (step epollPoller) (init Epoller.init) [.act (.newConnection 7 0#32 granted),
        .act (.setEvent 0 (CHANNEL_READ ||| CHANNEL_WRITE) granted),
        .act (.newConnection 8 0#32 granted)] = some r₀ ∧
      run (step epollPoller) r₀ [.poll [⟨7, EPOLLOUT⟩, ⟨8, EPOLLIN ||| EPOLLHUP⟩], .begin, .finish,
        .begin, .finish] = some r₁ ∧
      Served r₀ r₁ [⟨7, EPOLLOUT⟩, ⟨8, EPOLLIN ||| EPOLLHUP⟩] := by
  refine ⟨_, _, rfl, rfl, (served_iff [.act (.newConnection 7 0#32 granted),
    .act (.setEvent 0 (CHANNEL_READ ||| CHANNEL_WRITE) granted),
    .act (.newConnection 8 0#32 granted)] [.begin, .finish, .begin, .finish]
    [⟨7, EPOLLOUT⟩, ⟨8, EPOLLIN ||| EPOLLHUP⟩] _ _ (by decide) (by decide) rfl rfl rfl).mpr ?_⟩
  intro ev hev p c _
  rcases List.mem_cons.mp hev with rfl | hev
  · exact Or.inr rfl
  · rw [List.mem_singleton.mp hev]
    exact Or.inl ⟨by decide, fun hout => absurd hout.1 (by decide)⟩

/-- A connection that is readable and writable at once does not get its write handler called, and
    nobody reacts to a hang-up alone. -/
theorem readiness_lost :
    (∃ r₀ r₁, run (step epollPoller) (init Epoller.init) [.act (.newConnection 7 0#32 granted),
        .act (.setEvent 0 (CHANNEL_READ ||| CHANNEL_WRITE) granted)] = some r₀ ∧
      run (step epollPoller) r₀ [.poll [⟨7, EPOLLIN ||| EPOLLOUT⟩], .begin, .finish] = some r₁ ∧
      r₁.active = [] ∧ ¬ Served r₀ r₁ [⟨7, EPOLLIN ||| EPOLLOUT⟩]) ∧
    ∃ r₀ r₁, run (step epollPoller) (init Epoller.init) [.act (.newConnection 7 0#32 granted)] =
        some r₀ ∧
      run (step epollPoller) r₀ [.poll [⟨7, EPOLLHUP⟩], .begin] = some r₁ ∧
      r₁.active = [] ∧ ¬ Served r₀ r₁ [⟨7, EPOLLHUP⟩] := by
  constructor
  · refine ⟨_, _, rfl, rfl, rfl, fun hserved => ?_⟩
    have hwrite := (hserved ⟨7, EPOLLIN ||| EPOLLOUT⟩ (List.mem_singleton_self _) 0 _
      ⟨rfl, rfl, rfl, rfl⟩).2.1 (by decide) (by decide)
    exact absurd hwrite (by decide)
  · refine ⟨_, _, rfl, rfl, rfl, fun hserved => ?_⟩
    obtain ⟨k, hk⟩ := (hserved ⟨7, EPOLLHUP⟩ (List.mem_singleton_self _) 0 _
      ⟨rfl, rfl, rfl, rfl⟩).2.2
    exact absurd (show (0, k) ∈ [] from hk) List.not_mem_nil

end Reactor

end XWeb.Net
