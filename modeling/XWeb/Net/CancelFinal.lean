import XWeb.Net.TimerQueue

/-!
# Cancelling for good

`cancel` takes a timer out of `timers_` and the poller. It comes to nothing if the functor that is
to put the timer there has not been run yet: another thread has queued it, and the loop thread
calls `cancel`, which it runs at once.

* `Inv`: what holds between any two steps.
* `Effect`, `step_spec`: what a step does to the functors that wait and to the timers.
* `cancel_final_iff`: exactly which runs keep cancelled timers away.
-/

namespace XWeb.Net

open XWeb.Lib

variable {T σ ω ι : Type*}

/-! ## Functors -/

/-- The poller has no channel for a timer that `timers_` has not. -/
def Settled (channels : σ → ℤ → Option ℕ) (r : Reactor σ) (fd : ℤ) : Prop :=
  r.timers fd = none → channels r.poller fd = none

namespace TimerTask

/-- Its id has been given out, if it matters, and a deletion will succeed. -/
def Sound (ok : ω → Prop) (issued : List ℤ) : TimerTask ω → Prop
  | .add id .. => id ∈ issued
  | .cancel id known a => ok a ∧ (known = true → id ∈ issued)

variable {P : Poller σ ω ι} {channels : σ → ℤ → Option ℕ} {ok : ω → Prop} {I : σ → Prop}
  {issued : List ℤ}

theorem Sound.mono {task : TimerTask ω} (h : task.Sound ok issued) {issued' : List ℤ}
    (hsub : issued ⊆ issued') : task.Sound ok issued' := by
  cases task with
  | add id interval isRepeat junk a => exact hsub h
  | cancel id known a => exact ⟨h.1, fun hk => hsub (h.2 hk)⟩

theorem Sound.ends {task : TimerTask ω} (h : task.Sound ok issued) {id : ℤ}
    (hid : task.ends = some id) : id ∈ issued := by
  cases task with
  | add i interval isRepeat junk a => exact absurd hid (by simp [TimerTask.ends])
  | cancel i known a =>
    obtain ⟨hknown, rfl⟩ : known = true ∧ i = id := by simpa [TimerTask.ends] using hid
    exact h.2 hknown

/-- A functor that adds takes nothing away. -/
theorem ends_eq_none {task : TimerTask ω} {id : ℤ} (h : task.adds = some id) : task.ends = none := by
  cases task with
  | add i interval isRepeat junk a => rfl
  | cancel i known a => exact absurd h (by simp [adds])

theorem eq_id_of_adds {task : TimerTask ω} {id : ℤ} (h : task.adds = some id) : task.id = id := by
  cases task with
  | add i interval isRepeat junk a => exact Option.some.inj h
  | cancel i known a => exact absurd h (by simp [adds])

theorem eq_id_of_ends {task : TimerTask ω} {id : ℤ} (h : task.ends = some id) : task.id = id := by
  cases task with
  | add i interval isRepeat junk a => exact absurd h (by simp [TimerTask.ends])
  | cancel i known a =>
    obtain ⟨-, rfl⟩ : known = true ∧ i = id := by simpa [TimerTask.ends] using h
    rfl

/-- A functor changes the entry of its id, and leaves the poller settled. -/
theorem act_spec (hP : Tabled P channels) (hE : Erases P channels ok I) {r : Reactor σ}
    (h : r.TimersOk I) {task : TimerTask ω} (hsound : task.Sound ok issued) :
    ∃ r', task.act P r = some r' ∧ r'.TimersOk I ∧
      (∀ fd, Settled channels r fd → Settled channels r' fd) ∧
      (∀ fd, fd ≠ task.id → r'.timers fd = r.timers fd) ∧
      (r'.timers task.id = none ↔ task.adds = none) := by
  cases task with
  | add id interval isRepeat junk a =>
    obtain ⟨r', hr, hok, htimers, hnone⟩ := Reactor.addTimer_filed hP hE h id interval isRepeat junk
      a
    refine ⟨r', hr, hok, fun fd hset hfd => ?_, fun fd hne => ?_, ?_⟩
    · have hne : fd ≠ id := by
        rintro rfl
        rw [htimers, Function.update_self] at hfd
        exact absurd hfd (by nofun)
      rw [htimers, Function.update_of_ne hne] at hfd
      exact hnone fd hne (hset hfd)
    · rw [htimers]
      exact Function.update_of_ne hne ..
    · rw [htimers]
      simp [TimerTask.id, adds]
  | cancel id known a =>
    obtain ⟨r', hr, hok, htimers, hkeep, hgone⟩ := Reactor.cancel_filed hP hE h id hsound.1
    refine ⟨r', hr, hok, fun fd hset hfd => ?_, fun fd hne => ?_, ?_⟩
    · rcases eq_or_ne fd id with rfl | hne
      · by_cases hold : r.timers fd = none
        · exact hkeep fd (hset hold)
        · exact hgone hold
      · rw [htimers, Function.update_of_ne hne] at hfd
        exact hkeep fd (hset hfd)
    · rw [htimers]
      exact Function.update_of_ne hne ..
    · rw [htimers]
      simp [TimerTask.id, adds]

end TimerTask

namespace TimerSystem

variable {P : Poller σ ω ι} {channels : σ → ℤ → Option ℕ} {ok : ω → Prop} {I : σ → Prop} {t₀ : T}

/-! ## The invariant -/

structure Inv (channels : σ → ℤ → Option ℕ) (ok : ω → Prop) (I : σ → Prop) (t₀ : T)
    (s : TimerSystem T σ ω) : Prop where
  loop : s.loop.Inv t₀
  timers : s.reactor.TimersOk I
  settled : ∀ id ∈ s.issued, Settled channels s.reactor id
  returned : ∀ id ∈ s.returned, id ∈ s.issued
  adding : ∀ t id, s.adding t = some id → id ∈ s.issued
  cancelled : ∀ id ∈ s.cancelled, id ∈ s.issued
  waiting : ∀ q ∈ s.loop.waiting, q.functor.Sound ok s.issued

theorem start_inv (t₀ : T) {r : Reactor σ} (hquiet : r.running = none) (hpoller : I r.poller)
    (hnone : ∀ id, r.timers id = none) :
    Inv channels ok I t₀ (start t₀ r : TimerSystem T σ ω) where
  loop := EventLoop.construct_inv t₀
  timers := ⟨hquiet, hpoller, fun id p hp => absurd ((hnone id).symm.trans hp) (by nofun)⟩
  settled := by simp [start]
  returned := by simp [start]
  adding := by simp [start]
  cancelled := by simp [start]
  waiting := by simp [start, EventLoop.waiting, EventLoop.construct, LoopPc.swapped]

/-- `getTimerFd` gives out an id. -/
theorem Inv.issue {s : TimerSystem T σ ω} (h : Inv channels ok I t₀ s) {id : ℤ}
    (hfree : channels s.reactor.poller id = none) :
    Inv channels ok I t₀ { s with issued := id :: s.issued } where
  loop := h.loop
  timers := h.timers
  settled := List.forall_mem_cons.mpr ⟨fun _ => hfree, h.settled⟩
  returned := fun i hi => List.mem_cons_of_mem id (h.returned i hi)
  adding := fun t i hi => List.mem_cons_of_mem id (h.adding t i hi)
  cancelled := fun i hi => List.mem_cons_of_mem id (h.cancelled i hi)
  waiting := fun q hq => (h.waiting q hq).mono (List.subset_cons_self id s.issued)

theorem Inv.setLoop {s : TimerSystem T σ ω} (h : Inv channels ok I t₀ s)
    {loop : EventLoop T (TimerTask ω)} (hloop : loop.Inv t₀)
    (hwait : ∀ q ∈ loop.waiting, q.functor.Sound ok s.issued) :
    Inv channels ok I t₀ { s with loop := loop } :=
  { h with loop := hloop, waiting := hwait }

theorem Inv.perform (hP : Tabled P channels) (hE : Erases P channels ok I) {s : TimerSystem T σ ω}
    (h : Inv channels ok I t₀ s) {task : TimerTask ω} (hsound : task.Sound ok s.issued) :
    ∃ r', task.act P s.reactor = some r' ∧
      Inv channels ok I t₀ { s with reactor := r', cancelled := task.ends.toList ++ s.cancelled } := by
  obtain ⟨r', hr, hok, hset, -, -⟩ := TimerTask.act_spec hP hE h.timers hsound
  refine ⟨r', hr, { h with
    timers := hok
    settled := fun id hid => hset id (h.settled id hid)
    cancelled := fun id hid => ?_ }⟩
  rcases List.mem_append.mp hid with hid | hid
  · exact hsound.ends (Option.mem_toList.mp hid)
  · exact h.cancelled id hid

/-! ## What a step does -/

/-- A functor is queued, or run at once by the thread that makes it, or taken from the queue; or
    nothing of the kind. -/
inductive Effect (P : Poller σ ω ι) (ok : ω → Prop) (s s' : TimerSystem T σ ω) :
    TimerEvent T ω → Prop
  | queued {e} (q : Queued T (TimerTask ω)) (waiting : s'.loop.waiting = s.loop.waiting ++ [q])
      (fresh : ∀ id, q.functor.adds = some id → id ∉ s.issued) (not_run : e ≠ .thread .runNext)
      (reactor : s'.reactor = s.reactor) (cancelled : s'.cancelled = s.cancelled) : Effect P ok s s' e
  | direct {e} (task : TimerTask ω) (waiting : s'.loop.waiting = s.loop.waiting)
      (fresh : ∀ id, task.adds = some id → id ∉ s.issued) (not_run : e ≠ .thread .runNext)
      (call : ∀ id, task.ends = some id →
        ∃ a, e = .cancel s.loop.threadId id a ∧ id ∈ s.returned)
      (sound : task.Sound ok s'.issued) (reactor : task.act P s.reactor = some s'.reactor)
      (cancelled : s'.cancelled = task.ends.toList ++ s.cancelled) : Effect P ok s s' e
  | started (q : Queued T (TimerTask ω)) (functors : List (Queued T (TimerTask ω)))
      (pc : s.loop.pc = .run (q :: functors)) (waiting : s.loop.waiting = q :: s'.loop.waiting)
      (sound : q.functor.Sound ok s'.issued) (reactor : q.functor.act P s.reactor = some s'.reactor)
      (cancelled : s'.cancelled = q.functor.ends.toList ++ s.cancelled) :
      Effect P ok s s' (.thread .runNext)
  | silent {e} (waiting : s'.loop.waiting = s.loop.waiting)
      (not_run : ∀ q functors, s.loop.pc = .run (q :: functors) → e ≠ .thread .runNext)
      (reactor : s'.reactor = s.reactor) (cancelled : s'.cancelled = s.cancelled) : Effect P ok s s' e

variable [DecidableEq T]

theorem runInLoop_spec (hP : Tabled P channels) (hE : Erases P channels ok I) {s : TimerSystem T σ ω}
    (h : Inv channels ok I t₀ s) {t : T} (hfree : s.loop.Free t) {task : TimerTask ω}
    (hsound : task.Sound ok s.issued) :
    ∃ s', s.runInLoop P t task = some s' ∧ Inv channels ok I t₀ s' ∧ s'.issued = s.issued ∧
      s'.adding = s.adding ∧ s'.returned = s.returned ∧
      (t = s.loop.threadId ∧ s'.loop.waiting = s.loop.waiting ∧
        task.act P s.reactor = some s'.reactor ∧ s'.cancelled = task.ends.toList ++ s.cancelled ∨
      t ≠ s.loop.threadId ∧ s'.loop.waiting = s.loop.waiting ++ [⟨s.loop.pushed.length, t, task⟩] ∧
        s'.reactor = s.reactor ∧ s'.cancelled = s.cancelled) := by
  obtain ⟨loop, hloop, hinv⟩ := EventLoop.step_spec (e := .runInLoop t task) h.loop hfree
  obtain rfl : s.loop.runInLoop t task = loop := Option.some.inj hloop
  have hwaiting := s.loop.waiting_runInLoop t task
  have hset : Inv channels ok I t₀ { s with loop := s.loop.runInLoop t task } := by
    refine h.setLoop hinv fun q hq => ?_
    rw [hwaiting] at hq
    split at hq
    · exact h.waiting q hq
    · rcases List.mem_append.mp hq with hq | hq
      · exact h.waiting q hq
      · rw [List.mem_singleton.mp hq]
        exact hsound
  by_cases ht : t = s.loop.threadId
  · rw [if_pos ht] at hwaiting
    obtain ⟨r', hr, hinv'⟩ := hset.perform hP hE hsound
    refine ⟨_, ?_, hinv', rfl, rfl, rfl, Or.inl ⟨ht, hwaiting, hr, rfl⟩⟩
    have hr' : task.act P s.reactor = some r' := hr
    rw [runInLoop, if_pos ht, perform, hr']
    rfl
  · rw [if_neg ht] at hwaiting
    exact ⟨_, if_neg ht, hset, rfl, rfl, rfl, Or.inr ⟨ht, hwaiting, rfl, rfl⟩⟩

theorem schedule_spec (hP : Tabled P channels) (hE : Erases P channels ok I) {s : TimerSystem T σ ω}
    (h : Inv channels ok I t₀ s) {t : T} (hfree : s.loop.Free t) {id : ℤ} (hnew : id ∉ s.issued)
    (hnone : channels s.reactor.poller id = none) (interval : ℤ) (isRepeat : Bool) (junk : Flags)
    (a : ω) {e : TimerEvent T ω} (he : e ≠ .thread .runNext) :
    ∃ s', s.schedule P t id interval isRepeat junk a = some s' ∧ Inv channels ok I t₀ s' ∧
      Effect P ok s s' e := by
  obtain ⟨s₁, hs₁, hinv, hissued, hadding, hreturned, hcases⟩ := runInLoop_spec (t := t) hP hE
    (h.issue hnone) hfree (show (TimerTask.add id interval isRepeat junk a).Sound ok (id :: s.issued)
      from List.mem_cons_self)
  have hfresh : ∀ i, (TimerTask.add id interval isRepeat junk a).adds = some i → i ∉ s.issued := by
    intro i hi
    rw [← Option.some.inj hi]
    exact hnew
  have hmem : id ∈ s₁.issued := by
    rw [hissued]
    exact List.mem_cons_self
  simp only [schedule, hs₁]
  rcases hcases with ⟨ht, hwaiting, hr, hcancelled⟩ | ⟨ht, hwaiting, hr, hcancelled⟩
  · refine ⟨_, congrArg some (if_pos ht), { hinv with
      returned := List.forall_mem_cons.mpr ⟨hmem, hinv.returned⟩ }, ?_⟩
    exact .direct _ hwaiting hfresh he (fun i hi => absurd hi (by simp [TimerTask.ends])) hmem hr
      hcancelled
  · refine ⟨_, congrArg some (if_neg ht), { hinv with adding := fun t' i hi => ?_ }, ?_⟩
    · have hi : Function.update s₁.adding t (some id) t' = some i := hi
      rcases eq_or_ne t' t with rfl | hne
      · rw [Function.update_self] at hi
        rw [← Option.some.inj hi]
        exact hmem
      · rw [Function.update_of_ne hne] at hi
        exact hinv.adding t' i hi
    · exact .queued _ hwaiting hfresh he hr hcancelled

theorem cancel_spec (hP : Tabled P channels) (hE : Erases P channels ok I) {s : TimerSystem T σ ω}
    (h : Inv channels ok I t₀ s) {t : T} (hfree : s.loop.Free t) (id : ℤ) {a : ω} (ha : ok a) :
    ∃ s', s.cancel P t id a = some s' ∧ Inv channels ok I t₀ s' ∧
      Effect P ok s s' (.cancel t id a) := by
  have hsound : (TimerTask.cancel id (decide (id ∈ s.returned)) a).Sound ok s.issued :=
    ⟨ha, fun hknown => h.returned id (of_decide_eq_true hknown)⟩
  obtain ⟨s', hs', hinv, hissued, -, -,
      ⟨rfl, hwaiting, hr, hcancelled⟩ | ⟨ht, hwaiting, hr, hcancelled⟩⟩ :=
    runInLoop_spec (t := t) hP hE h hfree hsound
  · refine ⟨s', hs', hinv, .direct _ hwaiting (by simp [TimerTask.adds]) (by nofun) ?_
      (hissued ▸ hsound) hr hcancelled⟩
    intro i hi
    obtain ⟨hknown, rfl⟩ : id ∈ s.returned ∧ id = i := by simpa [TimerTask.ends] using hi
    exact ⟨a, rfl, hknown⟩
  · exact ⟨s', hs', hinv, .queued _ hwaiting (by simp [TimerTask.adds]) (by nofun) hr hcancelled⟩

/-- A step of a thread that ends no call and starts no functor. -/
theorem thread_silent {s : TimerSystem T σ ω} {e : EventLoop.Event T (TimerTask ω)}
    (hwake : ∀ t, e ≠ .wakeup t)
    (hrun : ∀ q functors, s.loop.pc = .run (q :: functors) → e ≠ .runNext) :
    s.thread P e = (s.loop.step e).map fun loop => { s with loop := loop } := by
  unfold thread
  cases e with
  | wakeup t => exact absurd rfl (hwake t)
  | runNext =>
    cases hpc : s.loop.pc with
    | run functors =>
      cases functors with
      | nil => cases s.loop.step .runNext <;> rfl
      | cons q functors => exact absurd rfl (hrun q functors hpc)
    | _ => cases s.loop.step .runNext <;> rfl
  | runInLoop t cb => cases s.loop.step (.runInLoop t cb) <;> rfl
  | quit t => cases s.loop.step (.quit t) <;> rfl
  | loop t => cases s.loop.step (.loop t) <;> rfl
  | test => cases s.loop.step .test <;> rfl
  | poll batch => cases s.loop.step (.poll batch) <;> rfl
  | dispatch => cases s.loop.step .dispatch <;> rfl
  | handlerEnd => cases s.loop.step .handlerEnd <;> rfl
  | swap => cases s.loop.step .swap <;> rfl
  | functorEnd => cases s.loop.step .functorEnd <;> rfl

theorem thread_spec (hP : Tabled P channels) (hE : Erases P channels ok I) {s : TimerSystem T σ ω}
    (h : Inv channels ok I t₀ s) {e : EventLoop.Event T (TimerTask ω)} (hen : s.loop.Enabled e)
    (hnew : ∀ t task, e ≠ .runInLoop t task) :
    ∃ s', s.thread P e = some s' ∧ Inv channels ok I t₀ s' ∧ Effect P ok s s' (.thread e) := by
  obtain ⟨loop, hloop, hinv⟩ := EventLoop.step_spec h.loop hen
  by_cases hrun : ∃ q functors, s.loop.pc = .run (q :: functors) ∧ e = .runNext
  · obtain ⟨q, functors, hpc, rfl⟩ := hrun
    have hwaiting := EventLoop.waiting_runNext hpc hloop
    have hsound := h.waiting q (by rw [hwaiting]; exact List.mem_cons_self)
    have hset : Inv channels ok I t₀ { s with loop := loop } := by
      refine h.setLoop hinv fun q' hq' => h.waiting q' ?_
      rw [hwaiting]
      exact List.mem_cons_of_mem q hq'
    obtain ⟨r', hr, hinv'⟩ := hset.perform hP hE hsound
    refine ⟨_, ?_, hinv', .started q functors hpc hwaiting hsound hr rfl⟩
    have hr' : q.functor.act P s.reactor = some r' := hr
    simp only [thread, hloop, Option.bind_some, hpc, perform, hr', Option.map_some]
  · have hnot : ∀ q functors, s.loop.pc = .run (q :: functors) → e ≠ .runNext :=
      fun q functors hpc he => hrun ⟨q, functors, hpc, he⟩
    obtain ⟨hpushed, hran⟩ := EventLoop.step_log hnew hnot hloop
    have hwaiting : loop.waiting = s.loop.waiting := h.loop.waiting_congr hinv hpushed hran
    have hset : Inv channels ok I t₀ { s with loop := loop } :=
      h.setLoop hinv (by rw [hwaiting]; exact h.waiting)
    have hnot' : ∀ q functors, s.loop.pc = .run (q :: functors) →
        TimerEvent.thread e ≠ .thread .runNext :=
      fun q functors hpc he => hnot q functors hpc (TimerEvent.thread.inj he)
    by_cases hwake : ∃ t, e = .wakeup t
    · obtain ⟨t, rfl⟩ := hwake
      refine ⟨{ s with
          loop := loop
          returned := (s.adding t).toList ++ s.returned
          adding := Function.update s.adding t none },
        by simp only [thread, hloop, Option.bind_some],
        { hset with returned := fun id hid => ?_, adding := fun t' id hid => ?_ },
        .silent hwaiting hnot' rfl rfl⟩
      · rcases List.mem_append.mp hid with hid | hid
        · exact h.adding t id (Option.mem_toList.mp hid)
        · exact h.returned id hid
      · have hid : Function.update s.adding t none t' = some id := hid
        rcases eq_or_ne t' t with rfl | hne
        · rw [Function.update_self] at hid
          exact absurd hid (by nofun)
        · rw [Function.update_of_ne hne] at hid
          exact h.adding t' id hid
    · refine ⟨{ s with loop := loop }, ?_, hset, .silent hwaiting hnot' rfl rfl⟩
      rw [thread_silent (fun t he => hwake ⟨t, he⟩) hnot, hloop]
      rfl

theorem step_spec (hP : Tabled P channels) (hE : Erases P channels ok I) {s : TimerSystem T σ ω}
    {e : TimerEvent T ω} (h : Inv channels ok I t₀ s) (hen : s.Enabled channels ok e) :
    ∃ s', s.step P e = some s' ∧ Inv channels ok I t₀ s' ∧ Effect P ok s s' e := by
  cases e with
  | runAfter t delay id junk a =>
    obtain ⟨hfree, hnew, hnone⟩ := hen
    exact schedule_spec hP hE h hfree hnew hnone delay false junk a (by nofun)
  | runEvery t interval id junk a =>
    obtain ⟨hfree, hnew, hnone⟩ := hen
    exact schedule_spec hP hE h hfree hnew hnone interval true junk a (by nofun)
  | cancel t id a => exact cancel_spec hP hE h hen.1 id hen.2
  | thread e => exact thread_spec hP hE h hen.1 hen.2

/-! ## Cancelled timers -/

/-- A timer that has been cancelled for good is neither in `timers_` nor in the poller. -/
def Final (channels : σ → ℤ → Option ℕ) (s : TimerSystem T σ ω) : Prop :=
  ∀ id ∈ s.cancelled, s.reactor.timers id = none ∧ channels s.reactor.poller id = none

/-- The functor that the loop thread takes from the queue adds no timer that has been cancelled. -/
def Timely (s : TimerSystem T σ ω) : TimerEvent T ω → Prop
  | .thread .runNext => ∀ q functors, s.loop.pc = .run (q :: functors) →
    ∀ id, q.functor.adds = some id → id ∉ s.cancelled
  | _ => True

/-- The loop thread does not call `cancel` for a timer while the functor that adds it waits. -/
def Prompt (s : TimerSystem T σ ω) : TimerEvent T ω → Prop
  | .cancel t id _ => t = s.loop.threadId → id ∈ s.returned →
    ∀ q ∈ s.loop.waiting, q.functor.adds ≠ some id
  | _ => True

omit [DecidableEq T] in
theorem timely_of_not_run {s : TimerSystem T σ ω} {e : TimerEvent T ω}
    (h : ∀ q functors, s.loop.pc = .run (q :: functors) → e ≠ .thread .runNext) : s.Timely e := by
  unfold Timely
  split
  · intro q functors hpc
    exact absurd rfl (h q functors hpc)
  · trivial

omit [DecidableEq T] in
theorem Inv.final_iff {s : TimerSystem T σ ω} (h : Inv channels ok I t₀ s) :
    s.Final channels ↔ ∀ id ∈ s.cancelled, s.reactor.timers id = none := by
  constructor
  · intro hfinal id hid
    exact (hfinal id hid).1
  · intro hnone id hid
    exact ⟨hnone id hid, h.settled id (h.cancelled id hid) (hnone id hid)⟩

omit [DecidableEq T] in
/-- A functor keeps the cancelled timers away unless it adds one. -/
theorem act_final (hP : Tabled P channels) (hE : Erases P channels ok I) {s s' : TimerSystem T σ ω}
    (h : Inv channels ok I t₀ s) (h' : Inv channels ok I t₀ s') (hfinal : s.Final channels)
    {task : TimerTask ω} {issued : List ℤ} (hsound : task.Sound ok issued)
    (hr : task.act P s.reactor = some s'.reactor)
    (hcancelled : s'.cancelled = task.ends.toList ++ s.cancelled) :
    s'.Final channels ↔ ∀ id, task.adds = some id → id ∉ s.cancelled := by
  obtain ⟨r', hr', -, -, hother, hself⟩ := TimerTask.act_spec hP hE h.timers hsound
  obtain rfl := Option.some.inj (hr'.symm.trans hr)
  rw [h'.final_iff, hcancelled]
  constructor
  · intro hnone id hadds hid
    have hgone := hnone id (List.mem_append_right _ hid)
    rw [← TimerTask.eq_id_of_adds hadds, hself, hadds] at hgone
    exact absurd hgone (by nofun)
  · intro hnot id hid
    rcases List.mem_append.mp hid with hends | hid
    · have hends := Option.mem_toList.mp hends
      rw [← TimerTask.eq_id_of_ends hends, hself]
      cases hadds : task.adds with
      | none => rfl
      | some i => exact absurd ((TimerTask.ends_eq_none hadds).symm.trans hends) (by nofun)
    · rcases eq_or_ne id task.id with rfl | hne
      · rw [hself]
        cases hadds : task.adds with
        | none => rfl
        | some i =>
          rw [TimerTask.eq_id_of_adds hadds] at hid
          exact absurd hid (hnot i hadds)
      · rw [hother id hne]
        exact (hfinal id hid).1

omit [DecidableEq T] in
theorem final_step (hP : Tabled P channels) (hE : Erases P channels ok I) {s s' : TimerSystem T σ ω}
    {e : TimerEvent T ω} (h : Inv channels ok I t₀ s) (h' : Inv channels ok I t₀ s')
    (hfinal : s.Final channels) (heff : Effect P ok s s' e) : s'.Final channels ↔ s.Timely e := by
  cases heff with
  | queued q waiting fresh not_run reactor cancelled =>
    refine iff_of_true ?_ (timely_of_not_run fun _ _ _ => not_run)
    unfold Final
    rwa [reactor, cancelled]
  | direct task waiting fresh not_run call sound reactor cancelled =>
    refine iff_of_true ?_ (timely_of_not_run fun _ _ _ => not_run)
    exact (act_final hP hE h h' hfinal sound reactor cancelled).mpr
      fun id hadds hid => fresh id hadds (h.cancelled id hid)
  | started q functors pc waiting sound reactor cancelled =>
    rw [act_final hP hE h h' hfinal sound reactor cancelled]
    constructor
    · intro hnot q' functors' hpc' id hadds
      obtain rfl : q = q' := by
        rw [pc] at hpc'
        exact (List.cons.inj (LoopPc.run.inj hpc')).1
      exact hnot id hadds
    · intro htimely id hadds
      exact htimely q functors pc id hadds
  | silent waiting not_run reactor cancelled =>
    refine iff_of_true ?_ (timely_of_not_run not_run)
    unfold Final
    rwa [reactor, cancelled]

/-! ## Prompt cancelling -/

/-- The functor that adds a timer does not wait any more when the timer has been cancelled for
    good, and does not wait behind the one that is going to. -/
structure Ordered (s : TimerSystem T σ ω) : Prop where
  gone : ∀ id ∈ s.cancelled, ∀ q ∈ s.loop.waiting, q.functor.adds ≠ some id
  order : s.loop.waiting.Pairwise fun q q' =>
    ∀ id, q.functor.ends = some id → q'.functor.adds ≠ some id

omit [DecidableEq T] in
theorem ordered_step {s s' : TimerSystem T σ ω} {e : TimerEvent T ω} (h : Inv channels ok I t₀ s)
    (hord : s.Ordered) (hprompt : s.Prompt e) (heff : Effect P ok s s' e) : s'.Ordered := by
  cases heff with
  | queued q waiting fresh not_run reactor cancelled =>
    refine ⟨fun id hid q' hq' => ?_, ?_⟩
    · rw [cancelled] at hid
      rw [waiting] at hq'
      rcases List.mem_append.mp hq' with hq' | hq'
      · exact hord.gone id hid q' hq'
      · rw [List.mem_singleton.mp hq']
        exact fun hadds => fresh id hadds (h.cancelled id hid)
    · rw [waiting, List.pairwise_append]
      refine ⟨hord.order, List.pairwise_singleton _ q, fun q₁ hq₁ q₂ hq₂ id hends hadds => ?_⟩
      rw [List.mem_singleton.mp hq₂] at hadds
      exact fresh id hadds ((h.waiting q₁ hq₁).ends hends)
  | direct task waiting fresh not_run call sound reactor cancelled =>
    refine ⟨fun id hid q hq => ?_, waiting ▸ hord.order⟩
    rw [waiting] at hq
    rw [cancelled] at hid
    rcases List.mem_append.mp hid with hends | hid
    · obtain ⟨a, rfl, hreturned⟩ := call id (Option.mem_toList.mp hends)
      exact hprompt rfl hreturned q hq
    · exact hord.gone id hid q hq
  | started q functors pc waiting sound reactor cancelled =>
    have horder := hord.order
    rw [waiting, List.pairwise_cons] at horder
    refine ⟨fun id hid q' hq' => ?_, horder.2⟩
    rw [cancelled] at hid
    rcases List.mem_append.mp hid with hends | hid
    · exact horder.1 q' hq' id (Option.mem_toList.mp hends)
    · refine hord.gone id hid q' ?_
      rw [waiting]
      exact List.mem_cons_of_mem q hq'
  | silent waiting not_run reactor cancelled =>
    exact ⟨by rw [cancelled, waiting]; exact hord.gone, waiting ▸ hord.order⟩

omit [DecidableEq T] in
theorem Ordered.timely {s : TimerSystem T σ ω} (h : s.Ordered) (e : TimerEvent T ω) : s.Timely e := by
  unfold Timely
  split
  · intro q functors hpc id hadds hid
    refine h.gone id hid q ?_ hadds
    simp [EventLoop.waiting, hpc, LoopPc.swapped]
  · trivial

/-! ## Runs -/

theorem final_iff (hP : Tabled P channels) (hE : Erases P channels ok I) {r : Reactor σ}
    (hquiet : r.running = none) (hpoller : I r.poller) (hnone : ∀ id, r.timers id = none)
    {es : List (TimerEvent T ω)}
    (hen : Along (step P) (Enabled channels ok) (start t₀ r) es) :
    (Throughout (step P) (Final channels) (start t₀ r) es ↔ Along (step P) Timely (start t₀ r) es) ∧
      (Along (step P) Prompt (start t₀ r) es → Along (step P) Timely (start t₀ r) es) := by
  have hstart : Inv channels ok I t₀ (start t₀ r : TimerSystem T σ ω) :=
    start_inv t₀ hquiet hpoller hnone
  constructor
  · refine throughout_iff_along (J := Inv channels ok I t₀) (fun s e h hfinal hen => ?_) es _ hstart
      (by simp [Final, start]) hen
    obtain ⟨s', hs', h', heff⟩ := step_spec hP hE h hen
    exact ⟨s', hs', h', final_step hP hE h h' hfinal heff⟩
  · intro hprompt
    refine along_of_invariant (J := fun s => Inv channels ok I t₀ s ∧ s.Ordered)
      (fun s e hJ _ => hJ.2.timely e) (fun s e s' hJ hQ hs => ?_) es _
      ⟨hstart, by simp [start],
        by simp [start, EventLoop.waiting, EventLoop.construct, LoopPc.swapped]⟩
      (hen.and hprompt)
    obtain ⟨t, ht, h', heff⟩ := step_spec hP hE hJ.1 hQ.1
    obtain rfl := Option.some.inj (ht.symm.trans hs)
    exact ⟨h', ordered_step hJ.1 hJ.2 hQ.2 heff⟩

/-- A new loop of the thread `t₀` over epoll, with the channel of its eventfd. -/
def epollStart (t₀ : T) (wakeupFd : ℤ) (junk : Flags) (a : Answer) : TimerSystem T Epoller Answer :=
  start t₀ ((Reactor.init Epoller.init).attach epollPoller wakeupFd false junk a)

/-- And one over kqueue. -/
def kqueueStart (t₀ : T) (wakeupFd : ℤ) : TimerSystem T KqueuePoller Unit :=
  start t₀ (Reactor.init (KqueuePoller.construct wakeupFd))

def EpollEnabled : TimerSystem T Epoller Answer → TimerEvent T Answer → Prop :=
  Enabled Epoller.channels fun a => a.ctl = true

def KqueueEnabled : TimerSystem T KqueuePoller Unit → TimerEvent T Unit → Prop :=
  Enabled KqueuePoller.channels fun _ => True

/-- **Cancelled timers can come back.** In every interleaving of threads that call `runAfter`,
    `runEvery` and `cancel` with the loop thread, over epoll and over kqueue, a timer that has
    been cancelled after its id was returned stays out of `timers_` and of the poller if and only
    if the loop thread takes no functor from the queue that adds a timer which has been cancelled.
    It takes none if it never calls `cancel` itself for a timer whose functor still waits. -/
theorem cancel_final_iff (t₀ : T) (wakeupFd : ℤ) (junk : Flags) (a : Answer)
    (es : List (TimerEvent T Answer)) (es' : List (TimerEvent T Unit))
    (hen : Along (step epollPoller) EpollEnabled (epollStart t₀ wakeupFd junk a) es)
    (hen' : Along (step kqueuePoller) KqueueEnabled (kqueueStart t₀ wakeupFd) es') :
    ((Throughout (step epollPoller) (Final Epoller.channels) (epollStart t₀ wakeupFd junk a) es ↔
        Along (step epollPoller) Timely (epollStart t₀ wakeupFd junk a) es) ∧
      (Along (step epollPoller) Prompt (epollStart t₀ wakeupFd junk a) es →
        Along (step epollPoller) Timely (epollStart t₀ wakeupFd junk a) es)) ∧
    (Throughout (step kqueuePoller) (Final KqueuePoller.channels) (kqueueStart t₀ wakeupFd) es' ↔
        Along (step kqueuePoller) Timely (kqueueStart t₀ wakeupFd) es') ∧
      (Along (step kqueuePoller) Prompt (kqueueStart t₀ wakeupFd) es' →
        Along (step kqueuePoller) Timely (kqueueStart t₀ wakeupFd) es') := by
  constructor
  · have hkeys :
        ((Reactor.init Epoller.init).attach epollPoller wakeupFd false junk a).poller.KeysAgree :=
      Epoller.update_keysAgree Epoller.init_keysAgree a 0 _
    exact final_iff Epoller.tabled Epoller.erases rfl hkeys (fun _ => rfl) hen
  · exact final_iff KqueuePoller.tabled KqueuePoller.erases rfl trivial (fun _ => rfl) hen'

/-- The loop thread makes a timer and cancels it; thread `1` does so too, through the queue, which
    the loop thread then works off. -/
def sampleCalls : List (TimerEvent ℕ Answer) :=
  [.runEvery 0 1000 5 0#32 Reactor.granted, .cancel 0 5 Reactor.granted,
    .runEvery 1 1000 6 0#32 Reactor.granted, .thread (.wakeup 1), .cancel 1 6 Reactor.granted,
    .thread (.wakeup 1), .thread (.loop 0), .thread .test, .thread (.poll [.wakeup]),
    .thread .dispatch, .thread .dispatch, .thread .swap, .thread .runNext, .thread .functorEnd,
    .thread .runNext]

theorem cancel_final_sample :
    Throughout (step epollPoller) (Final Epoller.channels) (epollStart (0 : ℕ) 3 0#32 Reactor.granted)
        sampleCalls ∧
      (∃ s, run (step epollPoller) (epollStart (0 : ℕ) 3 0#32 Reactor.granted) sampleCalls = some s ∧
        s.cancelled = [6, 5]) ∧
      Throughout (step kqueuePoller) (Final KqueuePoller.channels) (kqueueStart (0 : ℕ) 3)
        [.runEvery 0 1000 40001 0#32 (), .cancel 0 40001 ()] := by
  have hthread : ∀ {s : TimerSystem ℕ Epoller Answer} {e : EventLoop.Event ℕ (TimerTask Answer)},
      s.loop.Enabled e → (∀ t task, e ≠ .runInLoop t task) → EpollEnabled s (.thread e) :=
    fun hen hnew => ⟨hen, hnew⟩
  have hen : Along (step epollPoller) EpollEnabled (epollStart (0 : ℕ) 3 0#32 Reactor.granted)
      sampleCalls :=
    along_step ⟨rfl, List.not_mem_nil, rfl⟩ rfl <|
      along_step ⟨rfl, rfl⟩ rfl <|
      along_step ⟨rfl, by decide, rfl⟩ rfl <|
      along_step (hthread (by nofun) (by nofun)) rfl <|
      along_step ⟨rfl, rfl⟩ rfl <|
      along_step (hthread (by nofun) (by nofun)) rfl <|
      along_step (hthread ⟨rfl, rfl⟩ (by nofun)) rfl <|
      along_step (hthread rfl (by nofun)) rfl <|
      along_step (hthread ⟨rfl, fun _ => Nat.two_pos⟩ (by nofun)) rfl <|
      along_step (hthread ⟨_, rfl⟩ (by nofun)) rfl <|
      along_step (hthread ⟨_, rfl⟩ (by nofun)) rfl <|
      along_step (hthread rfl (by nofun)) rfl <|
      along_step (hthread ⟨_, rfl⟩ (by nofun)) rfl <|
      along_step (hthread ⟨_, _, rfl⟩ (by nofun)) rfl <|
      along_step (hthread ⟨_, rfl⟩ (by nofun)) rfl trivial
  have hen' : Along (step kqueuePoller) KqueueEnabled (kqueueStart (0 : ℕ) 3)
      [.runEvery 0 1000 40001 0#32 (), .cancel 0 40001 ()] :=
    along_step ⟨rfl, List.not_mem_nil, rfl⟩ rfl (along_step ⟨rfl, trivial⟩ rfl trivial)
  obtain ⟨⟨hiff, hprompt⟩, hiff', hprompt'⟩ := cancel_final_iff 0 3 0#32 Reactor.granted _ _ hen hen'
  have hrest : ∀ (s : TimerSystem ℕ Epoller Answer) (es : List (EventLoop.Event ℕ (TimerTask Answer))),
      Along (step epollPoller) Prompt s (es.map .thread) := by
    intro s es
    have hthreads : ∀ e ∈ es.map (TimerEvent.thread : _ → TimerEvent ℕ Answer),
        ∃ x, e = .thread x := by
      simp
    refine (along_of_forall hthreads).mono ?_
    rintro s e ⟨x, rfl⟩
    trivial
  refine ⟨hiff.mpr (hprompt ?_), ⟨_, rfl, rfl⟩, hiff'.mpr (hprompt' ?_)⟩
  · exact along_step trivial rfl <|
      along_step (fun _ _ _ hq => absurd hq List.not_mem_nil) rfl <|
      along_step trivial rfl <|
      along_step trivial rfl <|
      along_step (fun ht => absurd ht (by decide)) rfl <|
      hrest _ [.wakeup 1, .loop 0, .test, .poll [.wakeup], .dispatch, .dispatch, .swap, .runNext,
        .functorEnd, .runNext]
  · exact along_step trivial rfl
      (along_step (fun _ _ _ hq => absurd hq List.not_mem_nil) rfl trivial)

/-- Thread `1` makes a timer and hands its id to the loop thread, which cancels it before it comes
    to the queue. Then it adds the timer. -/
theorem cancelled_timer_added :
    ¬ ∀ (t₀ : ℕ) (wakeupFd : ℤ) (junk : Flags) (a : Answer) (es : List (TimerEvent ℕ Answer)),
      Along (step epollPoller) EpollEnabled (epollStart t₀ wakeupFd junk a) es →
      Throughout (step epollPoller) (Final Epoller.channels) (epollStart t₀ wakeupFd junk a) es := by
  intro hall
  have hthread : ∀ {s : TimerSystem ℕ Epoller Answer} {e : EventLoop.Event ℕ (TimerTask Answer)},
      s.loop.Enabled e → (∀ t task, e ≠ .runInLoop t task) → EpollEnabled s (.thread e) :=
    fun hen hnew => ⟨hen, hnew⟩
  have hfinal := hall 0 3 0#32 Reactor.granted
    [.runAfter 1 1000 5 0#32 Reactor.granted, .thread (.wakeup 1), .cancel 0 5 Reactor.granted,
      .thread (.loop 0), .thread .test, .thread (.poll [.wakeup]), .thread .dispatch,
      .thread .dispatch, .thread .swap, .thread .runNext]
    (along_step ⟨rfl, List.not_mem_nil, rfl⟩ rfl <|
      along_step (hthread (by nofun) (by nofun)) rfl <|
      along_step ⟨rfl, rfl⟩ rfl <|
      along_step (hthread ⟨rfl, rfl⟩ (by nofun)) rfl <|
      along_step (hthread rfl (by nofun)) rfl <|
      along_step (hthread ⟨rfl, fun _ => Nat.one_pos⟩ (by nofun)) rfl <|
      along_step (hthread ⟨_, rfl⟩ (by nofun)) rfl <|
      along_step (hthread ⟨_, rfl⟩ (by nofun)) rfl <|
      along_step (hthread rfl (by nofun)) rfl <|
      along_step (hthread ⟨_, rfl⟩ (by nofun)) rfl trivial)
  have hend := hfinal _ _ (List.prefix_refl _) rfl 5 List.mem_cons_self
  exact absurd hend.1 (by nofun)

end TimerSystem

end XWeb.Net
