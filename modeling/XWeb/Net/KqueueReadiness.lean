import XWeb.Net.KqueuePoller
import XWeb.Net.TimerDispatch

/-!
# Readiness on the kqueue backend

A batch of `kevent` has an entry for every filter of a descriptor that is ready, and all of them
come back as the same `Channel`. `poll` sets its one mask of active events for each of them before
any handler runs, so only the last one counts.

* `pollAll_last`: how often `poll` returns a channel, and with which active events.
* `Owes`: in the iteration, how many calls on a channel have been made and are to come.
* `answered_iff`: exactly which batches are answered as they should be.
-/

namespace XWeb.Net

open XWeb.Lib

/-! ## Counting -/

theorem eq_of_countP_one {α : Type*} {q : α → Bool} {l : List α} (hone : l.countP q = 1) {a b : α}
    (ha : a ∈ l) (hb : b ∈ l) (hqa : q a = true) (hqb : q b = true) : a = b := by
  rw [List.countP_eq_length_filter, List.length_eq_one_iff] at hone
  obtain ⟨x, hx⟩ := hone
  have hall : ∀ y ∈ l, q y = true → y = x := by
    intro y hy hqy
    have hmem : y ∈ l.filter q := List.mem_filter.mpr ⟨hy, hqy⟩
    rw [hx] at hmem
    exact List.mem_singleton.mp hmem
  exact (hall a ha hqa).trans (hall b hb hqb).symm

theorem countP_eq_one {α : Type*} [DecidableEq α] {q : α → Bool} {l : List α} (hnodup : l.Nodup)
    {a : α} (ha : a ∈ l) (hqa : q a = true) (hall : ∀ b ∈ l, q b = true → b = a) :
    l.countP q = 1 := by
  have hsame : ∀ b ∈ l, q b = true ↔ (b == a) = true := by
    intro b hb
    rw [beq_iff_eq]
    constructor
    · exact hall b hb
    · rintro rfl
      exact hqa
  rw [List.countP_congr hsame]
  exact (List.Nodup.count hnodup).trans (if_pos ha)

/-! ## What `poll` reports -/

/-- The handler that belongs to a filter. -/
def Channel.handlerOf (c : Channel) (filter : ℤ) : Option Handler :=
  if filter = EVFILT_READ then some (if c.isListenFd then .conn else .read)
  else if filter = EVFILT_WRITE then some .write
  else if filter = EVFILT_TIMER then some .timer
  else none

namespace KqueuePoller

/-- The loop of `poll` returns a channel once for each event of its descriptor, with what one of
    them, the last, makes active. -/
theorem pollAll_last {e : KqueuePoller} {p : ℕ} {fd : ℤ} (hp : ∀ i, e.channels i = some p ↔ i = fd)
    {c : Channel} (events : List Kevent) :
    ∀ {s s' : List ℕ × Heap Channel} {x : Flags}, s.2.cell p = some (c.setActiveEvent x) →
      events.foldlM (fun s ev => report e.channels ev.ident (fun _ => translate ev.filter) s) s =
        some s' →
      s'.1.count p = s.1.count p + events.countP (fun ev => ev.ident = fd) ∧
      ∃ y, s'.2.cell p = some (c.setActiveEvent y) ∧
        ((∃ ev ∈ events, ev.ident = fd ∧ y = translate ev.filter) ∨
          (∀ ev ∈ events, ev.ident ≠ fd) ∧ y = x) := by
  induction events with
  | nil =>
    intro s s' x hc hs
    obtain rfl : s = s' := Option.some.inj hs
    exact ⟨by simp, x, hc, Or.inr ⟨by simp, rfl⟩⟩
  | cons ev events ih =>
    intro s s' x hc hs
    obtain ⟨s₁, hs₁, hs⟩ := Option.bind_eq_some_iff.mp hs
    by_cases hev : ev.ident = fd
    · obtain ⟨hnone, -⟩ | ⟨q, d, hq, hd, rfl⟩ := report_cases hs₁
      · exact absurd (((hp ev.ident).mpr hev).symm.trans hnone) (by nofun)
      · obtain rfl : p = q := Option.some.inj (((hp ev.ident).mpr hev).symm.trans hq)
        obtain rfl : c.setActiveEvent x = d := Option.some.inj (hc.symm.trans hd)
        obtain ⟨hcount, y, hy, hfrom⟩ := ih (x := translate ev.filter)
          (Heap.cell_set_self (Heap.live_of_cell hd) _) hs
        refine ⟨?_, y, hy, Or.inl ?_⟩
        · rw [hcount, List.countP_cons_of_pos (by simpa using hev)]
          simp
          omega
        · obtain ⟨ev', hev', hid, hval⟩ | ⟨-, hval⟩ := hfrom
          · exact ⟨ev', List.mem_cons_of_mem _ hev', hid, hval⟩
          · exact ⟨ev, List.mem_cons_self, hev, hval⟩
    · have hsame : s₁.1.count p = s.1.count p ∧ s₁.2.cell p = s.2.cell p := by
        obtain ⟨-, rfl⟩ | ⟨q, d, hq, hd, rfl⟩ := report_cases hs₁
        · exact ⟨rfl, rfl⟩
        · have hne : p ≠ q := by
            rintro rfl
            exact hev ((hp ev.ident).mp hq)
          exact ⟨by simp [List.count_append, hne.symm],
            Heap.cell_set_of_ne s.2 hne _⟩
      obtain ⟨hcount, y, hy, hfrom⟩ := ih (hsame.2.trans hc) hs
      refine ⟨?_, y, hy, ?_⟩
      · rw [hcount, hsame.1, List.countP_cons_of_neg (by simpa using hev)]
      · refine hfrom.imp ?_ ?_
        · rintro ⟨ev', hev', h⟩
          exact ⟨ev', List.mem_cons_of_mem _ hev', h⟩
        · rintro ⟨hall, hval⟩
          exact ⟨List.forall_mem_cons.mpr ⟨hev, hall⟩, hval⟩

end KqueuePoller

namespace Reactor

/-! ## One iteration -/

variable {σ ω ι : Type*}

/-- Of `n` calls on the channel `p` some have been made and the others are to come; what is called
    is `due`, if anything. -/
structure Owes (r : Reactor σ) (p : ℕ) (due : Option Handler) (n : ℕ) : Prop where
  allocated : p < r.heap.next
  ready : ∀ c, r.heap.cell p = some c → c.handleEvent = due
  made : ∃ m, m + r.active.count p = n ∧
    ∀ k, r.calls.count (p, k) = if due = some k then m else 0

theorem owes_step {P : Poller σ ω ι} {channels : σ → ℤ → Option ℕ} (hP : Tabled P channels)
    {r r' : Reactor σ} {e : ReactorEvent ω ι} {p : ℕ} {due : Option Handler} {n : ℕ}
    (h : r.Owes p due n) (hw : Within e) (hs : step P r e = some r') : r'.Owes p due n := by
  obtain ⟨m, hm, hcount⟩ := h.made
  cases e with
  | poll i => exact absurd hw id
  | begin =>
    obtain ⟨q, rest, c, hq, hc, rfl⟩ := begin_cases hs
    refine ⟨h.allocated, h.ready, ?_⟩
    rw [hq] at hm
    rcases eq_or_ne q p with rfl | hne
    · rw [List.count_cons_self] at hm
      refine ⟨m + 1, by simp only; omega, fun k => ?_⟩
      rw [List.count_append, hcount k, h.ready c hc]
      cases due with
      | none => simp
      | some d =>
        by_cases hd : d = k
        · simp [hd]
        · simp [hd]
    · rw [List.count_cons_of_ne hne] at hm
      refine ⟨m, hm, fun k => ?_⟩
      rw [List.count_append, hcount k]
      cases c.handleEvent with
      | none => simp
      | some d => simp [hne]
  | act a =>
    obtain ⟨hnext, hact, hcalls⟩ := act_batch hs
    refine ⟨lt_of_lt_of_le h.allocated hnext, fun c' hc' => ?_, m, ?_, ?_⟩
    · obtain ⟨c, hc, halike⟩ := act_cell hP hs h.allocated hc'
      exact halike.handleEvent.trans (h.ready c hc)
    · rw [hact]
      exact hm
    · rw [hcalls]
      exact hcount
  | finish =>
    cases hs
    exact ⟨h.allocated, h.ready, h.made⟩

/-- Only channels of the batch are called. -/
def CallsWithin (ret : List ℕ) (r : Reactor σ) : Prop :=
  (∀ p ∈ r.active, p ∈ ret) ∧ ∀ x ∈ r.calls, x.1 ∈ ret

theorem callsWithin_step {P : Poller σ ω ι} {r r' : Reactor σ} {e : ReactorEvent ω ι} {ret : List ℕ}
    (h : r.CallsWithin ret) (hw : Within e) (hs : step P r e = some r') : r'.CallsWithin ret := by
  obtain ⟨hactive, hcalls⟩ := h
  cases e with
  | poll i => exact absurd hw id
  | begin =>
    obtain ⟨q, rest, c, hq, -, rfl⟩ := begin_cases hs
    rw [hq] at hactive
    refine ⟨fun p hp => hactive p (List.mem_cons_of_mem q hp), fun x hx => ?_⟩
    rcases List.mem_append.mp hx with hx | hx
    · exact hcalls x hx
    · obtain ⟨k, -, rfl⟩ : ∃ k, c.handleEvent = some k ∧ (q, k) = x := by simpa using hx
      exact hactive q List.mem_cons_self
  | act a =>
    obtain ⟨-, hact, hc⟩ := act_batch hs
    exact ⟨by rwa [hact], by rwa [hc]⟩
  | finish =>
    cases hs
    exact ⟨hactive, hcalls⟩

/-! ## Batches that are answered -/

/-- The event is for a channel in `channels_`. -/
def KeventFor (r : Reactor KqueuePoller) (ev : Kevent) (p : ℕ) (c : Channel) : Prop :=
  r.poller.channels ev.ident = some p ∧ r.heap.cell p = some c

/-- The iteration from `r₀` to `r₁` calls for every event of the batch the handler of its filter
    exactly once, and calls nothing else. -/
structure Answered (r₀ r₁ : Reactor KqueuePoller) (events : List Kevent) : Prop where
  called : ∀ ev ∈ events, ∀ p c, r₀.KeventFor ev p c → ∀ k, c.handlerOf ev.filter = some k →
    r₁.calls.count (p, k) = 1
  only : ∀ p k, (p, k) ∈ r₁.calls → ∃ ev ∈ events, ∃ c, r₀.KeventFor ev p c ∧
    c.handlerOf ev.filter = some k

/-- No channel has two events in the batch, and a listening one has none but READ. -/
def Separate (r₀ : Reactor KqueuePoller) (events : List Kevent) : Prop :=
  ∀ ev ∈ events, ∀ p c, r₀.KeventFor ev p c →
    (∀ ev' ∈ events, ev'.ident = ev.ident → ev' = ev) ∧
    (c.isListenFd = true → ev.filter = EVFILT_READ)

/-- What is called with the active events that a filter gives. -/
theorem handleEvent_filter (c : Channel) {filter : ℤ}
    (hfilter : filter ∈ [EVFILT_READ, EVFILT_WRITE, EVFILT_TIMER]) :
    (c.setActiveEvent (KqueuePoller.translate filter)).handleEvent =
      if c.isListenFd then some .conn else c.handlerOf filter := by
  unfold Channel.handleEvent Channel.handlerOf
  simp only [List.mem_cons, List.not_mem_nil, or_false] at hfilter
  cases hl : c.isListenFd with
  | true => simp [Channel.setActiveEvent, hl]
  | false =>
    rcases hfilter with rfl | rfl | rfl <;> simp [Channel.setActiveEvent, hl] <;> decide

theorem handlerOf_isSome (c : Channel) {filter : ℤ}
    (hfilter : filter ∈ [EVFILT_READ, EVFILT_WRITE, EVFILT_TIMER]) :
    ∃ k, c.handlerOf filter = some k := by
  simp only [List.mem_cons, List.not_mem_nil, or_false] at hfilter
  rcases hfilter with rfl | rfl | rfl
  · exact ⟨if c.isListenFd then .conn else .read, rfl⟩
  · exact ⟨.write, rfl⟩
  · exact ⟨.timer, rfl⟩

/-- For a listening channel the handler of a filter is the one that is called only if this is
    READ. -/
theorem handlerOf_eq_conn {c : Channel} {filter : ℤ} (h : c.handlerOf filter = some .conn) :
    filter = EVFILT_READ := by
  unfold Channel.handlerOf at h
  split at h
  · assumption
  · split at h
    · exact absurd h (by simp)
    · split at h
      · exact absurd h (by simp)
      · exact absurd h (by simp)

/-- An iteration calls a channel once for each of its events, and always what the last one makes
    active. -/
theorem calls_count {es₀ es₁ : List (ReactorEvent Unit (List Kevent))} {events : List Kevent}
    {r₀ r₁ : Reactor KqueuePoller} {wakeupFd : ℤ} (hwithin : ∀ e ∈ es₁, Within e)
    (h₀ : run (step kqueuePoller) (init (KqueuePoller.construct wakeupFd)) es₀ = some r₀)
    (h₁ : run (step kqueuePoller) r₀ (.poll events :: es₁) = some r₁) (hdone : r₁.active = [])
    {ev : Kevent} (hev : ev ∈ events) {p : ℕ} {c : Channel} (hfor : r₀.KeventFor ev p c) :
    ∃ last ∈ events, last.ident = ev.ident ∧ ∀ k, r₁.calls.count (p, k) =
      if (c.setActiveEvent (KqueuePoller.translate last.filter)).handleEvent = some k then
        events.countP (fun ev' => ev'.ident = ev.ident) else 0 := by
  obtain ⟨hp, hc⟩ := hfor
  have hreg : r₀.RegisteredIn KqueuePoller.channels :=
    run_registeredIn KqueuePoller.tabled (fun _ => rfl) h₀
  have hkey : ∀ fd, r₀.poller.channels fd = some p ↔ fd = ev.ident := hreg.key_iff hp hc
  obtain ⟨r, hs, hrun⟩ := run_cons_eq_some.mp h₁
  obtain ⟨⟨ret, heap⟩, hpoll, rfl⟩ := Option.map_eq_some_iff.mp hs
  obtain ⟨hcount, y, hcell, hfrom⟩ := KqueuePoller.pollAll_last hkey (x := c.activeEvents) events
    hc hpoll
  obtain ⟨last, hlast, hid, rfl⟩ | ⟨hnone, -⟩ := hfrom
  · refine ⟨last, hlast, hid, ?_⟩
    have hstart : Owes { r₀ with heap := heap, active := ret, calls := [] } p
        (c.setActiveEvent (KqueuePoller.translate last.filter)).handleEvent
        (events.countP (fun ev' => ev'.ident = ev.ident)) := by
      refine ⟨(Heap.live_of_cell hcell).lt_next, fun d hd => ?_, 0, by simpa using hcount, by simp⟩
      rw [← Option.some.inj (hcell.symm.trans hd)]
    have hend := run_invariant_along
      (fun _ e _ h (he : Within e) hs => owes_step KqueuePoller.tabled h he hs) es₁ _ r₁ hstart
      (along_of_forall hwithin) hrun
    obtain ⟨m, hm, hcalls⟩ := hend.made
    rw [hdone, List.count_nil, Nat.add_zero] at hm
    rw [hm] at hcalls
    exact hcalls
  · exact absurd rfl (hnone ev hev)

/-- A call is to the channel of an event. -/
theorem calls_mem {es₁ : List (ReactorEvent Unit (List Kevent))} {events : List Kevent}
    {r₀ r₁ : Reactor KqueuePoller} (hwithin : ∀ e ∈ es₁, Within e)
    (h₁ : run (step kqueuePoller) r₀ (.poll events :: es₁) = some r₁) {p : ℕ} {k : Handler}
    (hcall : (p, k) ∈ r₁.calls) : ∃ ev ∈ events, ∃ c, r₀.KeventFor ev p c := by
  obtain ⟨r, hs, hrun⟩ := run_cons_eq_some.mp h₁
  obtain ⟨⟨ret, heap⟩, hpoll, rfl⟩ := Option.map_eq_some_iff.mp hs
  have hstart : CallsWithin ret { r₀ with heap := heap, active := ret, calls := [] } :=
    ⟨fun _ hp => hp, by simp⟩
  have hend := run_invariant_along
    (fun _ e _ h (he : Within e) hs => callsWithin_step h he hs) es₁ _ r₁ hstart
    (along_of_forall hwithin) hrun
  have hret : p ∈ ret := hend.2 (p, k) hcall
  obtain ⟨hlive, hall⟩ := KqueuePoller.poll_live hpoll
  obtain ⟨c, hc⟩ := Heap.live_iff.mp ((hlive p).mp (hall p hret))
  rcases reportAll_mem Kevent.ident (fun ev _ => KqueuePoller.translate ev.filter) hpoll p hret
    with hnil | ⟨ev, hev, hp⟩
  · exact absurd hnil List.not_mem_nil
  · exact ⟨ev, hev, c, hp, hc⟩

/-- **Filters of one descriptor overwrite each other.** In every run over `KqueuePoller`, an
    iteration that starts in `r₀` with what `kevent` reports and leads to `r₁` answers the events
    if and only if no channel has two of them, and none but READ is for a listening one. -/
theorem answered_iff (wakeupFd : ℤ) (es₀ es₁ : List (ReactorEvent Unit (List Kevent)))
    (events : List Kevent) (r₀ r₁ : Reactor KqueuePoller) (hnodup : events.Nodup)
    (hfilter : ∀ ev ∈ events, r₀.poller.channels ev.ident ≠ none →
      ev.filter ∈ [EVFILT_READ, EVFILT_WRITE, EVFILT_TIMER])
    (hwithin : ∀ e ∈ es₁, Within e)
    (h₀ : run (step kqueuePoller) (init (KqueuePoller.construct wakeupFd)) es₀ = some r₀)
    (h₁ : run (step kqueuePoller) r₀ (.poll events :: es₁) = some r₁) (hdone : r₁.active = []) :
    Answered r₀ r₁ events ↔ Separate r₀ events := by
  have hknown : ∀ ev ∈ events, ∀ p c, r₀.KeventFor ev p c →
      ev.filter ∈ [EVFILT_READ, EVFILT_WRITE, EVFILT_TIMER] := by
    intro ev hev p c hfor
    exact hfilter ev hev (fun hnone => absurd (hfor.1.symm.trans hnone) (by nofun))
  constructor
  · intro h ev hev p c hfor
    obtain ⟨last, hlast, hid, hcalls⟩ := calls_count hwithin h₀ h₁ hdone hev hfor
    obtain ⟨k, hk⟩ := handlerOf_isSome c (hknown ev hev p c hfor)
    have hone := (hcalls k).symm.trans (h.called ev hev p c hfor k hk)
    split at hone
    · rename_i hdue
      refine ⟨fun ev' hev' hident => eq_of_countP_one hone hev' hev (by simpa using hident) (by simp),
        fun hl => ?_⟩
      rw [handleEvent_filter c (hknown last hlast p c ⟨hid ▸ hfor.1, hfor.2⟩), if_pos hl] at hdue
      exact handlerOf_eq_conn (hk.trans hdue.symm)
    · exact absurd hone (by decide)
  · intro h
    have hcount : ∀ ev ∈ events, ∀ p c, r₀.KeventFor ev p c → ∀ k,
        r₁.calls.count (p, k) = if c.handlerOf ev.filter = some k then 1 else 0 := by
      intro ev hev p c hfor k
      obtain ⟨hsingle, hlisten⟩ := h ev hev p c hfor
      obtain ⟨last, hlast, hid, hcalls⟩ := calls_count hwithin h₀ h₁ hdone hev hfor
      obtain rfl := hsingle last hlast hid
      have hdue : (c.setActiveEvent (KqueuePoller.translate last.filter)).handleEvent =
          c.handlerOf last.filter := by
        rw [handleEvent_filter c (hknown last hev p c hfor)]
        split
        · rename_i hl
          rw [hlisten hl]
          simp [Channel.handlerOf, hl]
        · rfl
      rw [hcalls k, hdue, countP_eq_one hnodup hev (by simp)
        (fun ev' hev' hident => hsingle ev' hev' (by simpa using hident))]
    refine ⟨fun ev hev p c hfor k hk => ?_, fun p k hcall => ?_⟩
    · rw [hcount ev hev p c hfor k, if_pos hk]
    · obtain ⟨ev, hev, c, hfor⟩ := calls_mem hwithin h₁ hcall
      refine ⟨ev, hev, c, hfor, ?_⟩
      by_contra hne
      have hzero := hcount ev hev p c hfor k
      rw [if_neg hne] at hzero
      exact List.count_eq_zero.mp hzero hcall

/-- A readable connection and a writable one. -/
theorem answered_sample :
    ∃ r₀ r₁, run (step kqueuePoller) (init (KqueuePoller.construct 50001))
        [.act (.newConnection 7 0#32 ()),
          .act (.setEvent 0 (CHANNEL_READ ||| CHANNEL_WRITE) ()),
          .act (.newConnection 8 0#32 ())] = some r₀ ∧
      run (step kqueuePoller) r₀ [.poll [⟨7, EVFILT_WRITE⟩, ⟨8, EVFILT_READ⟩], .begin, .finish,
        .begin, .finish] = some r₁ ∧
      Answered r₀ r₁ [⟨7, EVFILT_WRITE⟩, ⟨8, EVFILT_READ⟩] := by
  refine ⟨_, _, rfl, rfl, (answered_iff 50001 [.act (.newConnection 7 0#32 ()),
    .act (.setEvent 0 (CHANNEL_READ ||| CHANNEL_WRITE) ()), .act (.newConnection 8 0#32 ())]
    [.begin, .finish, .begin, .finish] [⟨7, EVFILT_WRITE⟩, ⟨8, EVFILT_READ⟩] _ _ (by decide)
    (by decide) (by decide) rfl rfl rfl).mpr ?_⟩
  rintro ev hev p c ⟨hp, hc⟩
  rcases List.mem_cons.mp hev with rfl | hev
  · obtain rfl : 0 = p := Option.some.inj hp
    refine ⟨by decide, fun hl => ?_⟩
    rw [← Option.some.inj hc] at hl
    exact absurd hl (by decide)
  · rw [List.mem_singleton.mp hev]
    exact ⟨by decide, fun _ => rfl⟩

/-- A connection that is readable and writable gets its write handler called twice, and its read
    handler not at all. -/
theorem readiness_swallowed :
    ∃ r₀ r₁, run (step kqueuePoller) (init (KqueuePoller.construct 50001))
        [.act (.newConnection 7 0#32 ()),
          .act (.setEvent 0 (CHANNEL_READ ||| CHANNEL_WRITE) ())] = some r₀ ∧
      run (step kqueuePoller) r₀ [.poll [⟨7, EVFILT_READ⟩, ⟨7, EVFILT_WRITE⟩], .begin, .finish,
        .begin, .finish] = some r₁ ∧
      r₁.active = [] ∧ r₁.calls = [(0, .write), (0, .write)] ∧
      ¬ Answered r₀ r₁ [⟨7, EVFILT_READ⟩, ⟨7, EVFILT_WRITE⟩] := by
  refine ⟨_, _, rfl, rfl, rfl, rfl, fun h => ?_⟩
  have hread := h.called ⟨7, EVFILT_READ⟩ List.mem_cons_self 0 _ ⟨rfl, rfl⟩ .read rfl
  exact absurd hread (by decide)

end Reactor

end XWeb.Net
