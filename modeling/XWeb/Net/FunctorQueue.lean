import XWeb.Net.EventLoop

/-!
# Functors of other threads

* `Inv`: what holds between any two steps of the threads. The eventfd is read before the swap, so
  between the swap and the next `poll` a functor is in the queue only if the eventfd is positive
  or its wakeup is still to come.
* `step_spec`: every step that can be made is made, and keeps `Inv`.
* `Moves`: what `step` does, branch by branch, for proofs by cases; `moves_of_step` and
  `step_of_moves` say that it is `step`.
* `step_pushed`: a step pushes the functor that its call posts, and no other.
* `functors_in_order`: no queued functor is lost, repeated or overtaken, none waits for a `poll`
  that nothing ends.
-/

namespace XWeb.Net.EventLoop

open XWeb.Lib

variable {T F : Type*}

/-- Every functor in the queue is that of a thread that has still to call `wakeup()` for it. -/
def Awaited (s : EventLoop T F) : Prop :=
  ∀ q ∈ s.pendingFunctors, s.callers q.owner = .pushed q.ticket

/-- The invariant of all steps, for a loop of the thread `t₀`. -/
structure Inv (t₀ : T) (s : EventLoop T F) : Prop where
  threadId : s.threadId = t₀
  loopIdle : s.callers t₀ = .idle
  outside : s.pc = .outside → s.running = false
  caller : s.pc = .outside ∨ s.loopCaller = some t₀
  order : s.executed ++ s.pc.swapped ++ s.pendingFunctors = s.pushed
  tickets : s.pushed.map Queued.ticket = List.range s.pushed.length
  ran : ∀ r ∈ s.ran, r.thread = t₀
  woken : s.pc.beforeSwap = true ∨ 0 < s.eventfd ∨ s.Awaited

theorem construct_inv (t₀ : T) : Inv t₀ (construct t₀ : EventLoop T F) where
  threadId := rfl
  loopIdle := rfl
  outside := fun _ => rfl
  caller := Or.inl rfl
  order := rfl
  tickets := rfl
  ran := by simp [construct]
  woken := Or.inr (Or.inr (by simp [Awaited, construct]))

theorem Inv.executed_isPrefix {t₀ : T} {s : EventLoop T F} (h : Inv t₀ s) :
    s.executed <+: s.pushed := by
  rw [← h.order, List.append_assoc]
  exact List.prefix_append _ _

theorem Inv.tickets_nodup {t₀ : T} {s : EventLoop T F} (h : Inv t₀ s) :
    (s.pushed.map Queued.ticket).Nodup := by
  rw [h.tickets]
  exact List.nodup_range

theorem Inv.loopCaller_eq {t₀ : T} {s : EventLoop T F} (h : Inv t₀ s) (hpc : s.pc ≠ .outside) :
    s.loopCaller = some t₀ := h.caller.resolve_left hpc

/-- From the swap on, nothing in the queue is stuck. -/
theorem Inv.woken_or_awaited {t₀ : T} {s : EventLoop T F} (h : Inv t₀ s)
    (hpc : s.pc.beforeSwap = false) : 0 < s.eventfd ∨ s.Awaited :=
  h.woken.resolve_left (by simp [hpc])

theorem Inv.ran_concat {t₀ : T} {s : EventLoop T F} (h : Inv t₀ s) {x : Ran T F}
    (hx : x.thread = t₀) : ∀ r ∈ s.ran ++ [x], r.thread = t₀ := by
  intro r hr
  rcases List.mem_append.mp hr with hr | hr
  · exact h.ran r hr
  · rw [List.mem_singleton.mp hr]
    exact hx

/-- A thread that is in no call has nothing in an awaited queue. -/
theorem Awaited.owner_ne {s : EventLoop T F} (h : s.Awaited) {t : T} (ht : s.callers t = .idle)
    {q : Queued T F} (hq : q ∈ s.pendingFunctors) : q.owner ≠ t := by
  intro he
  have hpushed := h q hq
  rw [he, ht] at hpushed
  exact absurd hpushed (by nofun)

@[simp] theorem executed_ran_direct (s : EventLoop T F) (t : T) (cb : F) :
    executed { s with ran := s.ran ++ [.direct t cb] } = s.executed := by
  simp [executed]

/-! ## The loop thread -/

theorem test_inv {t₀ : T} {s : EventLoop T F} (h : Inv t₀ s) (hpc : s.pc = .test) :
    Inv t₀ s.test := by
  have horder : s.executed ++ [] ++ s.pendingFunctors = s.pushed := by
    simpa [hpc, LoopPc.swapped] using h.order
  have hwoken := h.woken_or_awaited (by rw [hpc]; rfl)
  have hcaller := h.loopCaller_eq (by rw [hpc]; nofun)
  unfold test
  split
  · exact ⟨h.threadId, h.loopIdle, by nofun, Or.inr hcaller, horder, h.tickets, h.ran,
      Or.inr hwoken⟩
  · rename_i hrun
    exact ⟨h.threadId, h.loopIdle, fun _ => by simpa using hrun, Or.inl rfl, horder, h.tickets,
      h.ran, Or.inr hwoken⟩

/-- Between the return of `poll` and the swap only `order` is at stake. -/
theorem inv_beforeSwap {t₀ : T} {s : EventLoop T F} (h : Inv t₀ s) (hsw : s.pc.swapped = [])
    (hout : s.pc ≠ .outside) (n : ℕ) {pc : LoopPc T F} (hb : pc.beforeSwap = true) :
    Inv t₀ { s with eventfd := n, pc := pc } := by
  have hpc : pc ≠ .outside ∧ pc.swapped = [] := by
    cases pc <;> simp_all [LoopPc.beforeSwap, LoopPc.swapped]
  refine ⟨h.threadId, h.loopIdle, fun he => absurd he hpc.1,
    Or.inr (h.loopCaller_eq hout), ?_, h.tickets, h.ran, Or.inl hb⟩
  have horder := h.order
  rw [hsw] at horder
  rwa [hpc.2]

theorem dispatch_inv {t₀ : T} {s : EventLoop T F} (h : Inv t₀ s) {batch : List Ready}
    (hpc : s.pc = .dispatch batch) : Inv t₀ (s.dispatch batch) := by
  have hsw : s.pc.swapped = [] := by rw [hpc]; rfl
  have hout : s.pc ≠ .outside := by rw [hpc]; nofun
  cases batch with
  | nil => exact inv_beforeSwap h hsw hout s.eventfd rfl
  | cons r batch =>
    cases r with
    | wakeup => exact inv_beforeSwap h hsw hout 0 rfl
    | channel => exact inv_beforeSwap h hsw hout s.eventfd rfl

/-- The swap empties the queue. -/
theorem swap_inv {t₀ : T} {s : EventLoop T F} (h : Inv t₀ s) (hpc : s.pc = .swap) :
    Inv t₀ s.swap := by
  have hcaller := h.loopCaller_eq (by rw [hpc]; nofun)
  refine ⟨h.threadId, h.loopIdle, by nofun, Or.inr hcaller, ?_, h.tickets, h.ran,
    Or.inr (Or.inr (by simp [Awaited, swap]))⟩
  simpa [hpc, LoopPc.swapped, swap, executed] using h.order

theorem runNext_spec {t₀ : T} {s : EventLoop T F} (h : Inv t₀ s) {functors : List (Queued T F)}
    (hpc : s.pc = .run functors) : ∃ s', s.runNext functors = some s' ∧ Inv t₀ s' := by
  have hcaller := h.loopCaller_eq (by rw [hpc]; nofun)
  have hwoken := h.woken_or_awaited (by rw [hpc]; rfl)
  have horder := h.order
  simp only [hpc, LoopPc.swapped] at horder
  cases functors with
  | nil =>
    exact ⟨_, rfl, h.threadId, h.loopIdle, by nofun, Or.inr hcaller, horder, h.tickets, h.ran,
      Or.inr hwoken⟩
  | cons q functors =>
    refine ⟨{ s with ran := s.ran ++ [.queued t₀ q], pc := .functor q functors },
      by simp [runNext, hcaller], h.threadId, h.loopIdle, by nofun, Or.inr hcaller, ?_, h.tickets,
      h.ran_concat rfl, Or.inr hwoken⟩
    rw [← horder]
    simp [executed, LoopPc.swapped]

theorem functorEnd_inv {t₀ : T} {s : EventLoop T F} (h : Inv t₀ s) {q : Queued T F}
    {functors : List (Queued T F)} (hpc : s.pc = .functor q functors) :
    Inv t₀ { s with pc := .run functors } := by
  have hcaller := h.loopCaller_eq (by rw [hpc]; nofun)
  have hwoken := h.woken_or_awaited (by rw [hpc]; rfl)
  have horder := h.order
  simp only [hpc, LoopPc.swapped] at horder
  exact ⟨h.threadId, h.loopIdle, by nofun, Or.inr hcaller, horder, h.tickets, h.ran,
    Or.inr hwoken⟩

/-! ## Calls of functions -/

theorem direct_inv {t₀ : T} {s : EventLoop T F} (h : Inv t₀ s) (cb : F) :
    Inv t₀ { s with ran := s.ran ++ [.direct t₀ cb] } := by
  refine ⟨h.threadId, h.loopIdle, h.outside, h.caller, ?_, h.tickets, h.ran_concat rfl, h.woken⟩
  simpa using h.order

variable [DecidableEq T]

theorem Inv.callers_idle {t₀ : T} {s : EventLoop T F} (h : Inv t₀ s) {t : T} (hfree : s.Free t) :
    s.callers t = .idle := by
  unfold Free at hfree
  split at hfree
  · rename_i ht
    rw [ht, h.threadId]
    exact h.loopIdle
  · exact hfree

theorem queueInLoop_inv {t₀ : T} {s : EventLoop T F} (h : Inv t₀ s) {t : T} (ht : t ≠ t₀)
    (hidle : s.callers t = .idle) (cb : F) : Inv t₀ (s.queueInLoop t cb) := by
  have hwake : t ≠ s.threadId ∨ s.callingPending = true := Or.inl (by rwa [h.threadId])
  refine ⟨h.threadId, ?_, h.outside, h.caller, ?_, ?_, h.ran, ?_⟩
  · rw [queueInLoop]
    exact (Function.update_of_ne (Ne.symm ht) ..).trans h.loopIdle
  · rw [queueInLoop, ← List.append_assoc]
    exact congrArg (· ++ _) h.order
  · simp [queueInLoop, h.tickets, List.range_succ]
  · refine h.woken.imp_right (Or.imp_right fun haw q hq => ?_)
    simp only [queueInLoop, if_pos hwake] at hq ⊢
    rcases List.mem_append.mp hq with hq | hq
    · rw [Function.update_of_ne (haw.owner_ne hidle hq)]
      exact haw q hq
    · rw [List.mem_singleton.mp hq]
      exact Function.update_self ..

theorem quit_inv {t₀ : T} {s : EventLoop T F} (h : Inv t₀ s) {t : T} (hidle : s.callers t = .idle) :
    Inv t₀ (s.quit t) := by
  refine ⟨h.threadId, ?_, fun _ => rfl, h.caller, h.order, h.tickets, h.ran, ?_⟩
  · rcases eq_or_ne t t₀ with rfl | hne
    · simp [quit, h.threadId]
    · rw [quit]
      exact (Function.update_of_ne (Ne.symm hne) ..).trans h.loopIdle
  · refine h.woken.imp_right (Or.imp_right fun haw q hq => ?_)
    exact (Function.update_of_ne (haw.owner_ne hidle hq) ..).trans (haw q hq)

/-- The write makes the eventfd positive, so nothing in the queue has to be awaited. -/
theorem wakeup_inv {t₀ : T} {s : EventLoop T F} (h : Inv t₀ s) {t : T}
    (hbusy : s.callers t ≠ .idle) : Inv t₀ (s.wakeup t) := by
  refine ⟨h.threadId, ?_, h.outside, h.caller, h.order, h.tickets, h.ran,
    Or.inr (Or.inl (Nat.succ_pos _))⟩
  have hne : t₀ ≠ t := by
    rintro rfl
    exact hbusy h.loopIdle
  exact (Function.update_of_ne hne ..).trans h.loopIdle

theorem loop_spec {t₀ : T} {s : EventLoop T F} (h : Inv t₀ s) (hpc : s.pc = .outside) :
    ∃ s', s.loop t₀ = some s' ∧ Inv t₀ s' := by
  have hrun : ¬ s.running = true := by simp [h.outside hpc]
  refine ⟨_, (if_pos h.threadId.symm).trans (if_neg hrun), h.threadId, h.loopIdle, by nofun,
    Or.inr rfl, ?_, h.tickets, h.ran, ?_⟩
  · simpa [hpc, executed, LoopPc.swapped] using h.order
  · simpa [hpc, LoopPc.beforeSwap, Awaited] using h.woken

/-! ## Cases of a step -/

/-- What `step` does, one constructor for each of its branches. -/
inductive Moves (s : EventLoop T F) : Event T F → EventLoop T F → Prop
  | direct (cb : F) :
      Moves s (.runInLoop s.threadId cb) { s with ran := s.ran ++ [.direct s.threadId cb] }
  | queue {t : T} (cb : F) (ht : t ≠ s.threadId) : Moves s (.runInLoop t cb) (s.queueInLoop t cb)
  | wakeup (t : T) : Moves s (.wakeup t) (s.wakeup t)
  | quit (t : T) : Moves s (.quit t) (s.quit t)
  | loop (hrun : s.running = false) :
      Moves s (.loop s.threadId)
        { s with running := true, loopCaller := some s.threadId, pc := .test }
  | stay (hrun : s.running = true) : Moves s .test { s with pc := .poll }
  | leave (hrun : s.running = false) :
      Moves s .test { s with loopCaller := none, pc := .outside }
  | poll (batch : List Ready) : Moves s (.poll batch) { s with pc := .dispatch batch }
  | handled (hpc : s.pc = .dispatch []) : Moves s .dispatch { s with pc := .swap }
  | wakeupRead {batch : List Ready} (hpc : s.pc = .dispatch (.wakeup :: batch)) :
      Moves s .dispatch { s with eventfd := 0, pc := .dispatch batch }
  | handle {batch : List Ready} (hpc : s.pc = .dispatch (.channel :: batch)) :
      Moves s .dispatch { s with pc := .handler batch }
  | handlerEnd {batch : List Ready} (hpc : s.pc = .handler batch) :
      Moves s .handlerEnd { s with pc := .dispatch batch }
  | swap : Moves s .swap s.swap
  | finish (hpc : s.pc = .run []) : Moves s .runNext { s with callingPending := false, pc := .test }
  | start {q : Queued T F} {functors : List (Queued T F)} {t : T}
      (hpc : s.pc = .run (q :: functors)) (hcaller : s.loopCaller = some t) :
      Moves s .runNext { s with ran := s.ran ++ [.queued t q], pc := .functor q functors }
  | functorEnd {q : Queued T F} {functors : List (Queued T F)} (hpc : s.pc = .functor q functors) :
      Moves s .functorEnd { s with pc := .run functors }

theorem moves_of_step {s s' : EventLoop T F} {e : Event T F} (hs : s.step e = some s') :
    s.Moves e s' := by
  cases e with
  | runInLoop t cb =>
    obtain rfl := Option.some.inj hs
    unfold runInLoop
    split
    · rename_i ht
      rw [ht]
      exact .direct cb
    · rename_i ht
      exact .queue cb ht
  | wakeup t =>
    obtain rfl := Option.some.inj hs
    exact .wakeup t
  | quit t =>
    obtain rfl := Option.some.inj hs
    exact .quit t
  | loop t =>
    simp only [step, loop] at hs
    split_ifs at hs with ht hrun
    obtain rfl := Option.some.inj hs
    rw [ht]
    exact .loop (eq_false_of_ne_true hrun)
  | test =>
    obtain rfl := Option.some.inj hs
    unfold test
    split
    · rename_i hrun
      exact .stay hrun
    · rename_i hrun
      exact .leave (eq_false_of_ne_true hrun)
  | poll batch =>
    obtain rfl := Option.some.inj hs
    exact .poll batch
  | dispatch =>
    simp only [step] at hs
    split at hs
    · rename_i batch hpc
      obtain rfl := Option.some.inj hs
      cases batch with
      | nil => exact .handled hpc
      | cons r batch =>
        cases r with
        | wakeup => exact .wakeupRead hpc
        | channel => exact .handle hpc
    · cases hs
  | handlerEnd =>
    simp only [step] at hs
    split at hs
    · rename_i batch hpc
      obtain rfl := Option.some.inj hs
      exact .handlerEnd hpc
    · cases hs
  | swap =>
    obtain rfl := Option.some.inj hs
    exact .swap
  | runNext =>
    simp only [step] at hs
    split at hs
    · rename_i functors hpc
      cases functors with
      | nil =>
        obtain rfl := Option.some.inj hs
        exact .finish hpc
      | cons q functors =>
        obtain ⟨t, hcaller, rfl⟩ := Option.map_eq_some_iff.mp hs
        exact .start hpc hcaller
    · cases hs
  | functorEnd =>
    simp only [step] at hs
    split at hs
    · rename_i q functors hpc
      obtain rfl := Option.some.inj hs
      exact .functorEnd hpc
    · cases hs

theorem step_of_moves {s s' : EventLoop T F} {e : Event T F} (h : s.Moves e s') :
    s.step e = some s' := by
  cases h with
  | direct cb => simp [step, runInLoop]
  | queue cb ht => simp [step, runInLoop, ht]
  | wakeup t => rfl
  | quit t => rfl
  | loop hrun => simp [step, loop, hrun]
  | stay hrun => simp [step, test, hrun]
  | leave hrun => simp [step, test, hrun]
  | poll batch => rfl
  | handled hpc => simp [step, hpc, dispatch]
  | wakeupRead hpc => simp [step, hpc, dispatch]
  | handle hpc => simp [step, hpc, dispatch]
  | handlerEnd hpc => simp [step, hpc]
  | swap => rfl
  | finish hpc => simp [step, hpc, runNext]
  | start hpc hcaller => simp [step, hpc, runNext, hcaller]
  | functorEnd hpc => simp [step, hpc]

/-! ## What is queued -/

/-- The steps of the loop thread add nothing to what is queued. -/
theorem queued_subset {s s' : EventLoop T F} {e : Event T F} (hloop : ofLoopThread e)
    (hs : s.step e = some s') {q : Queued T F} (hq : q ∈ s'.queued) : q ∈ s.queued := by
  unfold queued at hq ⊢
  cases moves_of_step hs with
  | direct cb => exact absurd hloop id
  | queue cb ht => exact absurd hloop id
  | wakeup t => exact absurd hloop id
  | quit t => exact absurd hloop id
  | swap =>
    rw [swap, List.append_nil] at hq
    exact List.mem_append_right _ hq
  | start hpc hcaller => rwa [hpc]
  | functorEnd hpc =>
    rw [hpc]
    exact List.mem_cons_of_mem _ hq
  -- what the other steps take from is empty
  | _ => exact List.mem_append_right _ hq

theorem mem_queued_runInLoop {s : EventLoop T F} {t : T} {cb : F} {q : Queued T F}
    (hq : q ∈ (s.runInLoop t cb).queued) : q ∈ s.queued ∨ q.functor = cb := by
  unfold runInLoop at hq
  split at hq
  · exact Or.inl hq
  · simp only [queued, queueInLoop, ← List.append_assoc] at hq
    rcases List.mem_append.mp hq with hq | hq
    · exact Or.inl hq
    · exact Or.inr (by rw [List.mem_singleton.mp hq])

/-! ## Steps and runs -/

theorem step_spec {t₀ : T} {s : EventLoop T F} {e : Event T F} (h : Inv t₀ s) (hen : s.Enabled e) :
    ∃ s', s.step e = some s' ∧ Inv t₀ s' := by
  cases e with
  | runInLoop t cb =>
    refine ⟨_, rfl, ?_⟩
    unfold runInLoop
    split
    · rename_i ht
      obtain rfl : t = t₀ := ht.trans h.threadId
      exact direct_inv h cb
    · rename_i ht
      exact queueInLoop_inv h (by rwa [← h.threadId]) (h.callers_idle hen) cb
  | wakeup t => exact ⟨_, rfl, wakeup_inv h hen⟩
  | quit t => exact ⟨_, rfl, quit_inv h (h.callers_idle hen)⟩
  | loop t =>
    obtain ⟨rfl, hpc⟩ := hen
    rw [step, h.threadId]
    exact loop_spec h hpc
  | test => exact ⟨_, rfl, test_inv h hen⟩
  | poll batch =>
    have hpc : s.pc = .poll := hen.1
    exact ⟨_, rfl, inv_beforeSwap h (by rw [hpc]; rfl) (by rw [hpc]; nofun) s.eventfd rfl⟩
  | dispatch =>
    obtain ⟨batch, hpc⟩ := hen
    exact ⟨_, by rw [step, hpc], dispatch_inv h hpc⟩
  | handlerEnd =>
    obtain ⟨batch, hpc⟩ := hen
    exact ⟨_, by rw [step, hpc], inv_beforeSwap h (by rw [hpc]; rfl) (by rw [hpc]; nofun)
      s.eventfd rfl⟩
  | swap => exact ⟨_, rfl, swap_inv h hen⟩
  | runNext =>
    obtain ⟨functors, hpc⟩ := hen
    rw [step, hpc]
    exact runNext_spec h hpc
  | functorEnd =>
    obtain ⟨q, functors, hpc⟩ := hen
    exact ⟨_, by rw [step, hpc], functorEnd_inv h hpc⟩

theorem step_pushed {s s' : EventLoop T F} {e : Event T F} (hs : s.step e = some s') :
    s'.threadId = s.threadId ∧ s'.postings = s.postings ++ (posted s.threadId e).toList := by
  have hsame : s.postings = s.postings ++ [] := (List.append_nil _).symm
  cases moves_of_step hs with
  | direct cb => exact ⟨rfl, by simp [posted, postings]⟩
  | queue cb ht => exact ⟨rfl, by simp [posted, ht, queueInLoop, postings]⟩
  | _ => exact ⟨rfl, hsame⟩

theorem run_spec {t₀ : T} {es : List (Event T F)} (h : Along step Enabled (construct t₀) es) :
    ∃ s, run step (construct t₀) es = some s ∧ Inv t₀ s :=
  run_total (fun _ _ hinv hen => step_spec hinv hen) es (construct t₀) (construct_inv t₀) h

/-- What is pushed in a run are the functors that are posted, in the order of the calls. -/
theorem run_postings {t₀ : T} {es : List (Event T F)} {s : EventLoop T F}
    (h : Along step Enabled (construct t₀) es) (hrun : run step (construct t₀) es = some s) :
    s.postings = es.filterMap (posted t₀) :=
  run_log (J := fun s => s.threadId = t₀) (fun s e s' ht hen hs => by
    obtain ⟨hthread, hpushed⟩ := step_pushed hs
    exact ⟨hthread.trans ht, by rw [hpushed, ht]⟩) es rfl h hrun

/-- **No queued functor is lost, repeated or overtaken.** In every interleaving of other threads
    with the loop thread, what was pushed are the functors that the calls post, in their order;
    those that have been run, those that were swapped out and the queue, one behind the other, are
    all that was pushed; each is run once and on the loop thread. And none is stuck: when the loop
    thread will block in `poll` before it looks at the queue and the eventfd is zero, every functor
    in the queue is that of a thread that has pushed it and not yet called `wakeup()` for it. -/
theorem functors_in_order (t₀ : T) (es : List (Event T F))
    (h : Along step Enabled (construct t₀) es) :
    ∃ s, run step (construct t₀) es = some s ∧
      (s.postings = es.filterMap (posted t₀) ∧
        s.executed ++ s.pc.swapped ++ s.pendingFunctors = s.pushed) ∧
      (s.executed <+: s.pushed ∧ (s.pushed.map Queued.ticket).Nodup ∧
        ∀ r ∈ s.ran, r.thread = t₀) ∧
      (s.pc.beforeSwap = false → s.eventfd = 0 →
        ∀ q ∈ s.pendingFunctors, s.callers q.owner = .pushed q.ticket) := by
  obtain ⟨s, hrun, hinv⟩ := run_spec h
  refine ⟨s, hrun, ⟨run_postings h hrun, hinv.order⟩,
    ⟨hinv.executed_isPrefix, hinv.tickets_nodup, hinv.ran⟩, fun hpc hfd => ?_⟩
  rcases hinv.woken_or_awaited hpc with hpos | haw
  · omega
  · exact haw

/-- Thread `1` posts functor `7` to the loop of thread `0`, which then runs it. -/
theorem functors_in_order_sample :
    ∃ s, run step (construct 0 : EventLoop ℕ ℕ) [.loop 0, .test, .runInLoop 1 7, .wakeup 1,
        .poll [.wakeup], .dispatch, .dispatch, .swap, .runNext] = some s ∧
      s.executed.map Queued.functor = [7] := by
  have h : Along step Enabled (construct 0 : EventLoop ℕ ℕ) [.loop 0, .test, .runInLoop 1 7,
      .wakeup 1, .poll [.wakeup], .dispatch, .dispatch, .swap, .runNext] := by
    simp [along_cons, Enabled, Free, step, construct, loop, test, runInLoop, queueInLoop, wakeup,
      dispatch, swap]
  obtain ⟨s, hrun, ⟨hpushed, horder⟩, -⟩ := functors_in_order 0 _ h
  refine ⟨s, hrun, ?_⟩
  -- nothing is left in the queue, so all that was posted has been run
  obtain ⟨hswapped, hpending⟩ : s.pc.swapped = [] ∧ s.pendingFunctors = [] := by
    obtain rfl := Option.some.inj hrun
    exact ⟨rfl, rfl⟩
  rw [hswapped, hpending, List.append_nil, List.append_nil] at horder
  calc s.executed.map Queued.functor
      = s.postings.map Prod.snd := by rw [horder, postings, List.map_map]; rfl
    _ = [7] := by rw [hpushed]; rfl

end XWeb.Net.EventLoop
