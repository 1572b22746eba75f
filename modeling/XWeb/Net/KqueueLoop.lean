import XWeb.Net.FunctorQueue
import XWeb.Net.KqueueFilters

/-!
# The loop over kqueue

`EventLoop` with the wakeup of `net/mac/kqueue_poller.cpp`: a user event, which `wakeup` triggers
and which the kernel clears when it reports it. `poll` has nothing to read and no channel to
return for it. So it is cleared earlier than the counter of an eventfd, and the loop over the
eventfd has a step more.

* `KqueueLoop.step`, `Enabled`: the steps, those of `EventLoop` apart from `wakeup` and `poll`.
* `Same`: the two loops agree but for the wakeup; `step_same`: each step is matched.
* `kqueue_functors_in_order`: every run is one of the loop over an eventfd, so functors are run in
  order and none is stuck.
-/

namespace XWeb.Net

open XWeb.Lib

variable {T F : Type*}

/-! ## The poller -/

namespace KqueuePoller

/-- The change of `wakeup` (line 109). Its `NOTE_TRIGGER` is in `fflags`. -/
def wakeupChange (e : KqueuePoller) : Change := ⟨e.wakeupFd, EVFILT_USER, 0#32, 0⟩

/-- What `kevent` reports when the filter has been triggered. -/
def userEvent (e : KqueuePoller) : Kevent := ⟨e.wakeupFd, EVFILT_USER⟩

/-- The filter of the wakeup is there and enabled. -/
def Registered (e : KqueuePoller) : Prop := e.kq e.wakeupFd EVFILT_USER = some true

/-- What `poll` returns (lines 83–102), for the loop. -/
def ready (e : KqueuePoller) (events : List Kevent) : List Ready :=
  (events.filterMap fun ev => e.channels ev.ident).map fun _ => .channel

theorem ready_of_poll {e : KqueuePoller} {events : List Kevent} {h h' : Heap Channel}
    {ret : List ℕ} (hs : e.poll events h = some (ret, h')) :
    e.ready events = ret.map fun _ => .channel := by
  have hret : ∀ (events : List Kevent) (s s' : List ℕ × Heap Channel),
      events.foldlM (fun s ev => report e.channels ev.ident (fun _ => translate ev.filter) s) s =
        some s' → s'.1 = s.1 ++ events.filterMap fun ev => e.channels ev.ident := by
    intro events
    induction events with
    | nil =>
      intro s s' hs
      obtain rfl : s = s' := Option.some.inj hs
      exact (List.append_nil _).symm
    | cons ev events ih =>
      intro s s' hs
      obtain ⟨s₁, hs₁, hs⟩ := Option.bind_eq_some_iff.mp hs
      rw [ih s₁ s' hs]
      rcases report_cases hs₁ with ⟨hnone, rfl⟩ | ⟨p, c, hp, -, rfl⟩
      · simp only [List.filterMap_cons, hnone]
      · simp only [List.filterMap_cons, hp, List.append_assoc, List.singleton_append]
  have hready : ret = events.filterMap fun ev => e.channels ev.ident := hret events _ _ hs
  rw [ready, hready]

theorem wakeup_not_mem_ready (e : KqueuePoller) (events : List Kevent) :
    Ready.wakeup ∉ e.ready events := by
  intro hmem
  obtain ⟨p, -, hp⟩ := List.mem_map.mp hmem
  cases hp

/-- The changes leave an entry that none of them is for as it is. -/
theorem attempt_other {i f : ℤ} {changes : List Change}
    (h : ∀ c ∈ changes, ¬ (i = c.ident ∧ f = c.filter)) :
    ∀ k : Kqueue, attempt Kqueue.apply k changes i f = k i f := by
  induction changes with
  | nil => intro k; rfl
  | cons c changes ih =>
    intro k
    obtain ⟨hc, hrest⟩ := List.forall_mem_cons.mp h
    cases happly : k.apply c with
    | none => rw [attempt_cons_of_none happly]
    | some k' =>
      rw [attempt_cons_of_some happly, ih hrest]
      have hput : ∀ x, k.put c.ident c.filter x i f = k i f := by
        intro x
        rw [Kqueue.put_apply, if_neg hc]
      unfold Kqueue.apply at happly
      split at happly
      · split at happly
        · split at happly
          · obtain rfl := Option.some.inj happly
            exact hput _
          · cases happly
        · split_ifs at happly <;> (obtain rfl := Option.some.inj happly; exact hput _)
      · cases happly

/-- The lists of changes of `update` and `remove` have one for each filter. -/
theorem eq_of_mem_changes {a b c : Bool} {x y z d : Change}
    (hd : d ∈ (if a then [x] else []) ++ (if b then [y] else []) ++ if c then [z] else []) :
    d = x ∨ d = y ∨ d = z := by
  have hone : ∀ {q : Bool} {w : Change}, d ∈ (if q then [w] else []) → d = w := by
    intro q w hw
    split at hw
    · exact List.mem_singleton.mp hw
    · cases hw
  rcases List.mem_append.mp hd with hd | hd
  · exact (List.mem_append.mp hd).imp hone fun h => Or.inl (hone h)
  · exact Or.inr (Or.inr (hone hd))

theorem updateChanges_filter (c : Channel) : ∀ d ∈ updateChanges c, d.filter ≠ EVFILT_USER := by
  intro d hd
  have hread : EVFILT_READ ≠ EVFILT_USER := by decide
  have hwrite : EVFILT_WRITE ≠ EVFILT_USER := by decide
  have htimer : EVFILT_TIMER ≠ EVFILT_USER := by decide
  rcases eq_of_mem_changes hd with rfl | rfl | rfl
  · exact hread
  · exact hwrite
  · exact htimer

theorem removeChanges_filter (c : Channel) : ∀ d ∈ removeChanges c, d.filter ≠ EVFILT_USER := by
  intro d hd
  have hread : EVFILT_READ ≠ EVFILT_USER := by decide
  have hwrite : CHANNEL_WRITE.toInt ≠ EVFILT_USER := by decide
  have htimer : EVFILT_TIMER ≠ EVFILT_USER := by decide
  rcases eq_of_mem_changes hd with rfl | rfl | rfl
  · exact hread
  · exact hwrite
  · exact htimer

theorem construct_registered (fd : ℤ) : (construct fd).Registered := by
  show Kqueue.put (fun _ _ => none) fd EVFILT_USER (some true) fd EVFILT_USER = some true
  rw [Kqueue.put_apply, if_pos ⟨rfl, rfl⟩]

theorem Registered.update {e : KqueuePoller} (h : e.Registered) (p : ℕ) (c : Channel) :
    (e.update p c).1.Registered :=
  (attempt_other (fun d hd hboth => updateChanges_filter c d hd hboth.2.symm) _).trans h

theorem Registered.remove {e e' : KqueuePoller} (h : e.Registered) {c : Channel}
    (hs : e.remove c = some e') : e'.Registered := by
  obtain ⟨-, rfl⟩ | ⟨-, -, rfl⟩ := remove_cases hs
  · exact h
  · exact (attempt_other (fun d hd hboth => removeChanges_filter c d hd hboth.2.symm) _).trans h

/-- The kernel takes the change of `wakeup`, and keeps the filter. -/
theorem Registered.apply {e : KqueuePoller} (h : e.Registered) :
    ∃ kq, e.kq.apply e.wakeupChange = some kq ∧ kq e.wakeupFd EVFILT_USER = some true := by
  have hentry : e.kq e.wakeupFd EVFILT_USER = some true := h
  refine ⟨e.kq.put e.wakeupFd EVFILT_USER (some true), ?_, ?_⟩
  · have hdel : has 0#32 EV_DELETE = false := by decide
    have hdis : has 0#32 EV_DISABLE = false := by decide
    have huser : EVFILT_USER ∈ [EVFILT_READ, EVFILT_WRITE, EVFILT_TIMER, EVFILT_USER] := by decide
    rw [Kqueue.apply, wakeupChange, if_pos huser]
    simp [hentry, hdel, hdis]
  · rw [Kqueue.put_apply, if_pos ⟨rfl, rfl⟩]

end KqueuePoller

/-! ## The loop -/

/-- An `EventLoop` whose poller is a `KqueuePoller`, and whether the kernel has the user event to
    report. There is no eventfd: that of `loop` is not used. -/
structure KqueueLoop (T F : Type*) where
  loop : EventLoop T F
  poller : KqueuePoller
  triggered : Bool

/-- A step of `EventLoop` that the poller has no part in; a call of `wakeup`; a return of `poll`,
    with what `kevent` reports; and what the loop thread does to the channels. -/
inductive KqueueEvent (T F : Type*)
  | own (e : EventLoop.Event T F)
  | wakeup (t : T)
  | poll (events : List Kevent)
  | update (p : ℕ) (channel : Channel)
  | remove (channel : Channel)

/-- The channels that the loop thread has still to handle. -/
def LoopPc.batch : LoopPc T F → List Ready
  | .dispatch batch | .handler batch => batch
  | _ => []

/-- The poller has no part in the step. -/
def EventLoop.Event.Own : EventLoop.Event T F → Prop
  | .wakeup _ | .poll _ => False
  | _ => True

namespace KqueueLoop

/-- The constructor, on thread `t`; `fd` is the static counter of `KqueuePoller`. -/
def construct (t : T) (fd : ℤ) : KqueueLoop T F :=
  ⟨EventLoop.construct t, KqueuePoller.construct fd, false⟩

variable [DecidableEq T]

/-- `wakeup` (`net/event_loop.cpp` line 106, and lines 107–111), the end of a call. An error of
    `kevent` is ignored. -/
def wakeup (s : KqueueLoop T F) (t : T) : KqueueLoop T F :=
  let change := s.poller.wakeupChange
  { loop := { s.loop with callers := Function.update s.loop.callers t .idle }
    poller := { s.poller with kq := attempt Kqueue.apply s.poller.kq [change] }
    triggered := s.triggered || (s.poller.kq.apply change).isSome }

/-- A return of `poll` (lines 78–104). The filter was added with `EV_CLEAR`. -/
def poll (s : KqueueLoop T F) (events : List Kevent) : KqueueLoop T F :=
  { s with
    loop := { s.loop with pc := .dispatch (s.poller.ready events) }
    triggered := s.triggered && !decide (s.poller.userEvent ∈ events) }

def step (s : KqueueLoop T F) : KqueueEvent T F → Option (KqueueLoop T F)
  | .own e => (s.loop.step e).map fun loop => { s with loop := loop }
  | .wakeup t => some (s.wakeup t)
  | .poll events => some (s.poll events)
  | .update p channel => some { s with poller := (s.poller.update p channel).1 }
  | .remove channel => (s.poller.remove channel).map fun poller => { s with poller := poller }

/-- The thread that makes the step is where the step begins, `kevent` reports the user event only if
    there is one, and no channel that is removed asks for READ, WRITE and TIMER together. -/
def Enabled (s : KqueueLoop T F) : KqueueEvent T F → Prop
  | .own e => e.Own ∧ s.loop.Enabled e
  | .wakeup t => s.loop.callers t ≠ .idle
  | .poll events => s.loop.pc = .poll ∧ (s.poller.userEvent ∈ events → s.triggered = true)
  | .update _ _ => s.loop.pc.inUserCode = true
  | .remove channel =>
    s.loop.pc.inUserCode = true ∧ KqueuePoller.fits channel.events = true

/-- The calls of `runInLoop` that queue their functor. -/
def posted (t₀ : T) : KqueueEvent T F → Option (T × F)
  | .own e => EventLoop.posted t₀ e
  | _ => none

/-! ## The loop over an eventfd -/

/-- `t` is the loop but for its eventfd, which is positive when the user event is to come. -/
structure Same (s : KqueueLoop T F) (t : EventLoop T F) : Prop where
  eq : t = { s.loop with eventfd := t.eventfd }
  triggered : s.triggered = true ↔ 0 < t.eventfd
  registered : s.poller.Registered
  batch : .wakeup ∉ s.loop.pc.batch

omit [DecidableEq T] in
theorem construct_same (t : T) (fd : ℤ) :
    Same (construct t fd : KqueueLoop T F) (EventLoop.construct t) :=
  ⟨rfl, by simp [construct, EventLoop.construct], KqueuePoller.construct_registered fd, nofun⟩

/-- The other steps do not look at the eventfd. -/
theorem own_step {l l' : EventLoop T F} {e : EventLoop.Event T F} (hown : e.Own)
    (hbatch : .wakeup ∉ l.pc.batch) (hs : l.step e = some l') (n : ℕ) :
    EventLoop.step { l with eventfd := n } e = some { l' with eventfd := n } ∧
      l'.eventfd = l.eventfd ∧ .wakeup ∉ l'.pc.batch := by
  cases EventLoop.moves_of_step hs with
  | wakeup t => exact absurd hown id
  | poll batch => exact absurd hown id
  | direct cb => exact ⟨EventLoop.step_of_moves (.direct cb), rfl, hbatch⟩
  | queue cb ht => exact ⟨EventLoop.step_of_moves (.queue cb ht), rfl, hbatch⟩
  | quit t => exact ⟨rfl, rfl, hbatch⟩
  | loop hrun => exact ⟨EventLoop.step_of_moves (.loop hrun), rfl, List.not_mem_nil⟩
  | stay hrun => exact ⟨EventLoop.step_of_moves (.stay hrun), rfl, List.not_mem_nil⟩
  | leave hrun => exact ⟨EventLoop.step_of_moves (.leave hrun), rfl, List.not_mem_nil⟩
  | handled hpc => exact ⟨EventLoop.step_of_moves (.handled hpc), rfl, List.not_mem_nil⟩
  | wakeupRead hpc =>
    rw [hpc] at hbatch
    exact absurd List.mem_cons_self hbatch
  | handle hpc =>
    rw [hpc] at hbatch
    exact ⟨EventLoop.step_of_moves (.handle hpc), rfl,
      fun hmem => hbatch (List.mem_cons_of_mem _ hmem)⟩
  | handlerEnd hpc =>
    rw [hpc] at hbatch
    exact ⟨EventLoop.step_of_moves (.handlerEnd hpc), rfl, hbatch⟩
  | swap => exact ⟨rfl, rfl, List.not_mem_nil⟩
  | finish hpc => exact ⟨EventLoop.step_of_moves (.finish hpc), rfl, List.not_mem_nil⟩
  | start hpc hcaller =>
    exact ⟨EventLoop.step_of_moves (.start hpc hcaller), rfl, List.not_mem_nil⟩
  | functorEnd hpc => exact ⟨EventLoop.step_of_moves (.functorEnd hpc), rfl, List.not_mem_nil⟩

variable {s : KqueueLoop T F} {t : EventLoop T F}

theorem Same.enabled (h : Same s t) {e : EventLoop.Event T F} (hown : e.Own)
    (hen : s.loop.Enabled e) : t.Enabled e := by
  rw [h.eq]
  cases e with
  | wakeup u => exact absurd hown id
  | poll batch => exact absurd hown id
  | _ => exact hen

/-- A step that the poller has no part in is made by both. -/
theorem Same.own (h : Same s t) {t₀ : T} (hinv : EventLoop.Inv t₀ t) {e : EventLoop.Event T F}
    (hown : e.Own) (hen : s.loop.Enabled e) :
    ∃ s', s.step (.own e) = some s' ∧ ∃ t', t.step e = some t' ∧ Same s' t' := by
  obtain ⟨t', ht', -⟩ := EventLoop.step_spec hinv (h.enabled hown hen)
  have hloop : s.loop = { t with eventfd := s.loop.eventfd } := by rw [h.eq]
  have hpc : t.pc = s.loop.pc := by rw [h.eq]
  obtain ⟨hs, hfd, hbatch⟩ := own_step hown (hpc ▸ h.batch) ht' s.loop.eventfd
  refine ⟨{ s with loop := { t' with eventfd := s.loop.eventfd } }, ?_, t', ht', rfl, ?_,
    h.registered, hbatch⟩
  · rw [step, hloop, hs]
    rfl
  · rw [hfd]
    exact h.triggered

/-- Every step is matched. When `kevent` reports the user event, `poll` returns the channel of the
    eventfd before the others, and its handler is called first. -/
theorem step_same {e : KqueueEvent T F} (h : Same s t) {t₀ : T} (hinv : EventLoop.Inv t₀ t)
    (hen : s.Enabled e) : ∃ s', s.step e = some s' ∧
      ∃ es t', Along EventLoop.step EventLoop.Enabled t es ∧ run EventLoop.step t es = some t' ∧
        Same s' t' := by
  cases e with
  | own e =>
    obtain ⟨hown, hloop⟩ := hen
    obtain ⟨s', hs', t', ht', hsame⟩ := h.own hinv hown hloop
    exact ⟨s', hs', [e], t', along_step (h.enabled hown hloop) ht' trivial, by rw [run_cons, ht']; rfl,
      hsame⟩
  | wakeup u =>
    obtain ⟨kq, happly, hentry⟩ := h.registered.apply
    have hen' : t.Enabled (.wakeup u) := by
      rw [h.eq]
      exact hen
    refine ⟨_, rfl, [.wakeup u], t.wakeup u, along_step hen' rfl trivial, rfl, ?_, ?_, ?_, h.batch⟩
    · rw [h.eq]
      rfl
    · simp [wakeup, EventLoop.wakeup, happly]
    · show attempt Kqueue.apply s.poller.kq [s.poller.wakeupChange] _ _ = _
      rw [attempt_cons_of_some happly]
      exact hentry
  | poll events =>
    obtain ⟨hpc, hreport⟩ := hen
    have hpc' : t.pc = .poll := by
      rw [h.eq]
      exact hpc
    have hbatch := s.poller.wakeup_not_mem_ready events
    by_cases huser : s.poller.userEvent ∈ events
    · have hpos := h.triggered.mp (hreport huser)
      refine ⟨_, rfl, [.poll (.wakeup :: s.poller.ready events), .dispatch],
        { t with eventfd := 0, pc := .dispatch (s.poller.ready events) },
        along_step ⟨hpc', fun _ => hpos⟩ rfl (along_step ⟨_, rfl⟩ rfl trivial), rfl, ?_, ?_,
        h.registered, hbatch⟩
      · rw [h.eq]
        rfl
      · simp [poll, huser]
    · refine ⟨_, rfl, [.poll (s.poller.ready events)],
        { t with pc := .dispatch (s.poller.ready events) },
        along_step ⟨hpc', fun hmem => absurd hmem hbatch⟩ rfl trivial, rfl, ?_, ?_, h.registered,
        hbatch⟩
      · rw [h.eq]
        rfl
      · simpa [poll, huser] using h.triggered
  | update p channel =>
    exact ⟨_, rfl, [], t, trivial, rfl, h.eq, h.triggered, h.registered.update p channel, h.batch⟩
  | remove channel =>
    obtain ⟨e', hrem⟩ := s.poller.remove_fits channel hen.2
    exact ⟨{ s with poller := e' }, by rw [step, hrem]; rfl, [], t, trivial, rfl, h.eq, h.triggered,
      h.registered.remove hrem, h.batch⟩

/-- A step pushes the functor that its call posts, and no other. -/
theorem step_postings {s s' : KqueueLoop T F} {e : KqueueEvent T F} (hen : s.Enabled e)
    (hs : s.step e = some s') : s'.loop.threadId = s.loop.threadId ∧
      s'.loop.postings = s.loop.postings ++ (posted s.loop.threadId e).toList := by
  cases e with
  | own e =>
    obtain ⟨loop, hloop, rfl⟩ := Option.map_eq_some_iff.mp hs
    exact EventLoop.step_pushed hloop
  | wakeup u => cases hs; exact ⟨rfl, (List.append_nil _).symm⟩
  | poll events => cases hs; exact ⟨rfl, (List.append_nil _).symm⟩
  | update p channel => cases hs; exact ⟨rfl, (List.append_nil _).symm⟩
  | remove channel =>
    obtain ⟨poller, -, rfl⟩ := Option.map_eq_some_iff.mp hs
    exact ⟨rfl, (List.append_nil _).symm⟩

theorem run_postings {t₀ : T} {fd : ℤ} {es : List (KqueueEvent T F)} {s : KqueueLoop T F}
    (h : Along step Enabled (construct t₀ fd) es) (hrun : run step (construct t₀ fd) es = some s) :
    s.loop.postings = es.filterMap (posted t₀) := by
  have hstep : ∀ (s : KqueueLoop T F) e s', s.loop.threadId = t₀ → s.Enabled e →
      s.step e = some s' → s'.loop.threadId = t₀ ∧
        s'.loop.postings = s.loop.postings ++ (posted t₀ e).toList := by
    intro s e s' ht hen hs
    obtain ⟨hthread, hpushed⟩ := step_postings hen hs
    exact ⟨hthread.trans ht, by rw [hpushed, ht]⟩
  exact run_log hstep es rfl h hrun

/-- **Functors of other threads, over kqueue.** Every run in which no channel is removed that asks
    for READ, WRITE and TIMER at once is one of the loop over an eventfd, with the same steps but
    for `poll`, and the user event is to come exactly when the eventfd is positive. So no queued
    functor is lost, repeated or overtaken: what was pushed are the functors that the calls post,
    in their order, and those that have been run, those that were swapped out and the queue are
    all that was pushed; each is run once and on the loop thread. And none is stuck: when the loop
    thread will block in `poll` before it looks at the queue and there is no user event, every
    functor in the queue is that of a thread that has pushed it and not yet called `wakeup()` for
    it. -/
theorem kqueue_functors_in_order (t₀ : T) (fd : ℤ) (es : List (KqueueEvent T F))
    (h : Along step Enabled (construct t₀ fd) es) :
    ∃ s, run step (construct t₀ fd) es = some s ∧
      (∃ es' t, Along EventLoop.step EventLoop.Enabled (EventLoop.construct t₀) es' ∧
        run EventLoop.step (EventLoop.construct t₀) es' = some t ∧
        t = { s.loop with eventfd := t.eventfd } ∧ (s.triggered = true ↔ 0 < t.eventfd)) ∧
      (s.loop.postings = es.filterMap (posted t₀) ∧
        s.loop.executed ++ s.loop.pc.swapped ++ s.loop.pendingFunctors = s.loop.pushed) ∧
      (s.loop.executed <+: s.loop.pushed ∧ (s.loop.pushed.map Queued.ticket).Nodup ∧
        ∀ r ∈ s.loop.ran, r.thread = t₀) ∧
      (s.loop.pc.beforeSwap = false → s.triggered = false →
        ∀ q ∈ s.loop.pendingFunctors, s.loop.callers q.owner = .pushed q.ticket) := by
  obtain ⟨s, hrun, es', t, halong, hrun', hsame, hinv⟩ := run_simulated
    (fun s t => Same s t ∧ EventLoop.Inv t₀ t) (fun s t e hrel hen => by
      obtain ⟨hsame, hinv⟩ := hrel
      obtain ⟨s', hs', es, t', halong, hrun, hsame'⟩ := step_same hsame hinv hen
      obtain ⟨u, hu, hinv'⟩ := run_total (fun _ _ hinv hen => EventLoop.step_spec hinv hen) es t
        hinv halong
      obtain rfl := Option.some.inj (hu.symm.trans hrun)
      exact ⟨s', hs', es, u, halong, hrun, hsame', hinv'⟩) es _ _
    ⟨construct_same t₀ fd, EventLoop.construct_inv t₀⟩ h
  have hloop : s.loop = { t with eventfd := s.loop.eventfd } := by rw [hsame.eq]
  refine ⟨s, hrun, ⟨es', t, halong, hrun', hsame.eq, hsame.triggered⟩, ⟨?_, ?_⟩, ?_, ?_⟩
  · exact run_postings h hrun
  · rw [hloop]
    exact hinv.order
  · rw [hloop]
    exact ⟨hinv.executed_isPrefix, hinv.tickets_nodup, hinv.ran⟩
  · intro hpc hquiet
    have hzero : ¬ 0 < t.eventfd := fun hpos => by
      rw [hsame.triggered.mpr hpos] at hquiet
      cases hquiet
    have hbefore : t.pc.beforeSwap = false := by
      rw [hsame.eq]
      exact hpc
    have hawaited := (hinv.woken_or_awaited hbefore).resolve_left hzero
    rw [hsame.eq] at hawaited
    exact hawaited

/-- Thread `1` posts functor `7` to the loop of thread `0`, which then runs it. -/
theorem kqueue_functors_in_order_sample :
    ∃ s, run step (construct 0 50000 : KqueueLoop ℕ ℕ) [.own (.loop 0), .own .test,
        .own (.runInLoop 1 7), .wakeup 1, .poll [⟨50000, EVFILT_USER⟩], .own .dispatch, .own .swap,
        .own .runNext] = some s ∧ s.loop.executed.map Queued.functor = [7] := by
  have h : Along step Enabled (construct 0 50000 : KqueueLoop ℕ ℕ) [.own (.loop 0), .own .test,
      .own (.runInLoop 1 7), .wakeup 1, .poll [⟨50000, EVFILT_USER⟩], .own .dispatch, .own .swap,
      .own .runNext] := by
    refine along_step ⟨trivial, rfl, rfl⟩ rfl (along_step ⟨trivial, rfl⟩ rfl ?_)
    refine along_step ⟨trivial, rfl⟩ rfl (along_step nofun rfl ?_)
    refine along_step ⟨rfl, fun _ => rfl⟩ rfl (along_step ⟨trivial, _, rfl⟩ rfl ?_)
    exact along_step ⟨trivial, rfl⟩ rfl (along_step ⟨trivial, _, rfl⟩ rfl trivial)
  obtain ⟨s, hrun, -, ⟨hpostings, horder⟩, -⟩ := kqueue_functors_in_order 0 50000 _ h
  refine ⟨s, hrun, ?_⟩
  -- nothing is left in the queue, so all that was posted has been run
  obtain ⟨hswapped, hpending⟩ : s.loop.pc.swapped = [] ∧ s.loop.pendingFunctors = [] := by
    obtain rfl := Option.some.inj hrun
    exact ⟨rfl, rfl⟩
  rw [hswapped, hpending, List.append_nil, List.append_nil] at horder
  calc s.loop.executed.map Queued.functor
      = s.loop.postings.map Prod.snd := by rw [horder, EventLoop.postings, List.map_map]; rfl
    _ = [7] := by rw [hpostings]; rfl

end KqueueLoop

end XWeb.Net
