import XWeb.Net.FunctorQueue

/-!
# `EventLoopThread`

Model of `net/event_loop_thread.cpp`. `startLoop` makes a thread that constructs an `EventLoop`,
and waits until it is there; the thread then calls `loop`. `mtx_` and `cond_` are for this alone:
`startLoop` reads `loop_` once more behind its critical section, and the thread clears it without
the mutex. A wait can end without a reason.

Before `startLoop` has returned, nobody has a pointer to the loop and calls its functions.

* `EventLoopThread.step`, `Enabled`: one step of the caller, of the thread, or of its loop.
* `Inv`, `step_spec`: where the two can be, and what the members are then.
* `start_loop_hands_over`: `startLoop` returns the loop, and nothing keeps it from returning.
-/

namespace XWeb.Net

open XWeb.Lib

/-! ## Data -/

/-- Who has `mtx_`. -/
inductive Side
  | starter
  | runner
  deriving DecidableEq

/-- Where the call of `startLoop` is. -/
inductive StartPc
  /-- not made yet -/
  | idle
  /-- without the mutex, before line 19 -/
  | blocked
  /-- before the test of line 19 -/
  | test
  /-- in the wait of line 20 -/
  | asleep
  /-- before line 23 -/
  | read
  /-- it has returned: a loop, or null -/
  | returned (found : Bool)
  deriving DecidableEq

/-- Where `run` is. -/
inductive RunPc
  /-- not called yet -/
  | idle
  /-- before line 28 -/
  | blocked
  /-- before line 29 -/
  | create
  /-- before line 30 -/
  | notify
  /-- before line 31 -/
  | unlock
  /-- before line 32 -/
  | call
  /-- in `loop`, line 32 -/
  | inside
  /-- behind line 33 -/
  | done
  deriving DecidableEq

namespace RunPc

/-- The thread has the mutex. -/
def holds : RunPc → Bool
  | .create | .notify | .unlock => true
  | _ => false

/-- The loop has been constructed. -/
def made : RunPc → Bool
  | .notify | .unlock | .call | .inside | .done => true
  | _ => false

/-- `loop_` is set. -/
def hasLoop : RunPc → Bool
  | .notify | .unlock | .call | .inside => true
  | _ => false

end RunPc

/-- Where the two can be at a time. A caller that sleeps will still be notified; `startLoop` has not
    returned null; and `loop` does not end before `startLoop` has returned. -/
def Together : StartPc → RunPc → Prop
  | .idle, runner => runner = .idle
  | .blocked, runner => runner ≠ .idle ∧ runner ≠ .done
  | .test, runner => runner = .blocked ∨ runner = .call ∨ runner = .inside
  | .asleep, runner => runner = .blocked ∨ runner = .create ∨ runner = .notify
  | .read, runner => runner = .call ∨ runner = .inside
  | .returned found, runner =>
    found = true ∧ (runner = .call ∨ runner = .inside ∨ runner = .done)

/-- Who has the mutex. -/
def holder (starter : StartPc) (runner : RunPc) : Option Side :=
  if starter = .test then some .starter else if runner.holds then some .runner else none

/-- `mtx_`, whether `loop_` is set, the loop that it was set to, and the places of the two. -/
structure EventLoopThread (T F : Type*) where
  mtx : Option Side
  hasLoop : Bool
  eventLoop : Option (EventLoop T F)
  starter : StartPc
  runner : RunPc

/-- The call of `startLoop`, a step of its body, a step of `run`, the end of a wait without a
    reason, and a step of the loop. -/
inductive LoopThreadEvent (T F : Type*)
  | start
  | starter
  | runner
  | wake
  | loop (e : EventLoop.Event T F)

namespace EventLoopThread

variable {T F : Type*}

def construct : EventLoopThread T F := ⟨none, false, none, .idle, .idle⟩

/-! ## Steps -/

/-- Lines 17–23. -/
def startStep (s : EventLoopThread T F) : Option (EventLoopThread T F) :=
  match s.starter with
  | .blocked => if s.mtx = none then some { s with mtx := some .starter, starter := .test } else none
  | .test =>
    if s.hasLoop then some { s with mtx := none, starter := .read }
    else some { s with mtx := none, starter := .asleep }
  | .read => some { s with starter := .returned s.hasLoop }
  | _ => none

/-- `notify_one`. -/
def notify (s : EventLoopThread T F) : EventLoopThread T F :=
  if s.starter = .asleep then { s with starter := .blocked } else s

variable [DecidableEq T]

/-- `run` (lines 26–34) on thread `me`. -/
def runStep (me : T) (s : EventLoopThread T F) : Option (EventLoopThread T F) :=
  match s.runner with
  | .blocked => if s.mtx = none then some { s with mtx := some .runner, runner := .create } else none
  | .create =>
    some { s with eventLoop := some (EventLoop.construct me), hasLoop := true, runner := .notify }
  | .notify => some { s.notify with runner := .unlock }
  | .unlock => some { s with mtx := none, runner := .call }
  | .call => do
    let l ← s.eventLoop
    let l ← l.loop me
    return { s with eventLoop := some l, runner := .inside }
  | .inside => do
    let l ← s.eventLoop
    match l.pc with
    | .outside => some { s with hasLoop := false, runner := .done }
    | _ => none
  | _ => none

def step (me : T) (s : EventLoopThread T F) : LoopThreadEvent T F → Option (EventLoopThread T F)
  | .start => some { s with starter := .blocked, runner := .blocked }
  | .starter => s.startStep
  | .runner => s.runStep me
  | .wake => some { s with starter := .blocked }
  | .loop e => do
    let l ← s.eventLoop
    let l ← l.step e
    return { s with eventLoop := some l }

/-- The call of `loop` is that of `run`; the other steps of the loop thread come in it; and who
    calls a function of the loop has it from `startLoop`. -/
def Allowed (s : EventLoopThread T F) : EventLoop.Event T F → Prop
  | .loop _ => False
  | .runInLoop _ _ | .quit _ => s.starter = .returned true
  | .wakeup _ => True
  | _ => s.runner = .inside

/-- Who makes the step is where it begins, and has the mutex if it is needed. -/
def Enabled (s : EventLoopThread T F) : LoopThreadEvent T F → Prop
  | .start => s.starter = .idle
  | .starter => s.starter = .blocked ∧ s.mtx = none ∨ s.starter = .test ∨ s.starter = .read
  | .runner =>
    s.runner = .blocked ∧ s.mtx = none ∨ s.runner.holds = true ∨ s.runner = .call ∨
      s.runner = .inside ∧ ∃ l, s.eventLoop = some l ∧ l.pc = .outside
  | .wake => s.starter = .asleep
  | .loop e => s.Allowed e ∧ ∃ l, s.eventLoop = some l ∧ l.Enabled e

/-! ## The invariant -/

/-- Where the two are, and what the members are then. -/
structure Places (s : EventLoopThread T F) : Prop where
  together : Together s.starter s.runner
  mtx : s.mtx = holder s.starter s.runner
  hasLoop : s.hasLoop = s.runner.hasLoop
  made : s.eventLoop.isSome = s.runner.made

/-- The loop `l` of the thread `me`. Before `startLoop` has returned nobody calls `quit`. -/
structure Serves (me : T) (s : EventLoopThread T F) (l : EventLoop T F) : Prop where
  inv : EventLoop.Inv me l
  outside : s.runner ≠ .inside → l.pc = .outside
  running : s.starter ≠ .returned true → s.runner = .inside → l.running = true ∧ l.pc ≠ .outside

/-- The invariant of all steps, for the thread `me`. -/
structure Inv (me : T) (s : EventLoopThread T F) : Prop extends Places s where
  loop : ∀ l, s.eventLoop = some l → s.Serves me l

omit [DecidableEq T] in
theorem construct_inv (me : T) : Inv me (construct : EventLoopThread T F) :=
  ⟨⟨rfl, rfl, rfl, rfl⟩, nofun⟩

variable {me : T} {s s' : EventLoopThread T F}

omit [DecidableEq T] in
/-- What `startLoop` has returned is there. -/
theorem Places.exists_loop (h : s.Places) {found : Bool} (hst : s.starter = .returned found) :
    found = true ∧ ∃ l, s.eventLoop = some l := by
  have htogether := h.together
  rw [hst] at htogether
  refine ⟨htogether.1, Option.isSome_iff_exists.mp ?_⟩
  rw [h.made]
  rcases htogether.2 with hr | hr | hr <;> rw [hr] <;> rfl

/-- A step of the caller leaves `run` and the loop alone. -/
theorem startStep_spec (h : s.Places) (hen : s.Enabled .starter) :
    ∃ s', s.startStep = some s' ∧ s'.Places ∧ s'.runner = s.runner ∧ s'.eventLoop = s.eventLoop ∧
      s.starter ≠ .returned true := by
  obtain ⟨htogether, hmtx, hhas, hmade⟩ := h
  rcases hen with ⟨hpc, hfree⟩ | hpc | hpc <;> rw [hpc] at htogether hmtx
  · refine ⟨{ s with mtx := some .starter, starter := .test }, ?_, ⟨?_, rfl, hhas, hmade⟩, rfl, rfl,
      by simp [hpc]⟩
    · simp [startStep, hpc, hfree]
    · -- the mutex is free, so `run` is not in its critical section
      cases hr : s.runner <;> simp_all [Together, holder, RunPc.holds]
  · have hset : s.hasLoop = false ↔ s.runner = .blocked := by
      cases hr : s.runner <;> simp_all [Together, RunPc.hasLoop]
    by_cases hnull : s.hasLoop = false
    · rw [hset.mp hnull] at hhas hmade ⊢
      refine ⟨{ s with mtx := none, starter := .asleep }, by simp [startStep, hpc, hnull],
        ⟨Or.inl (hset.mp hnull), ?_, ?_, ?_⟩, hset.mp hnull, rfl, by simp [hpc]⟩
      · simp [holder, hset.mp hnull, RunPc.holds]
      · simpa [hset.mp hnull] using hhas
      · simpa [hset.mp hnull] using hmade
    · refine ⟨{ s with mtx := none, starter := .read }, by simp [startStep, hpc, hnull],
        ⟨?_, ?_, hhas, hmade⟩, rfl, rfl, by simp [hpc]⟩
      · exact htogether.resolve_left fun hr => hnull (hset.mpr hr)
      · rcases htogether.resolve_left fun hr => hnull (hset.mpr hr) with hr | hr <;>
          simp [holder, hr, RunPc.holds]
  · refine ⟨{ s with starter := .returned s.hasLoop }, by simp [startStep, hpc], ⟨?_, ?_, hhas, hmade⟩,
      rfl, rfl, by simp [hpc]⟩
    · rcases htogether with hr | hr <;> simp [Together, hhas, hr, RunPc.hasLoop]
    · rcases htogether with hr | hr <;> simp [hmtx, holder, hr, RunPc.holds]

omit [DecidableEq T] in
/-- Outside `loop` the loop stays as it is. -/
theorem Serves.move {l : EventLoop T F} (h : s.Serves me l) (hr : s.runner ≠ .inside)
    (hr' : s'.runner ≠ .inside) : s'.Serves me l :=
  ⟨h.inv, fun _ => h.outside hr, fun _ hin => absurd hin hr'⟩

/-- A step of `run`. -/
theorem runStep_spec (h : s.Inv me) (hen : s.Enabled .runner) :
    ∃ s', s.runStep me = some s' ∧ s'.Inv me := by
  obtain ⟨⟨htogether, hmtx, hhas, hmade⟩, hloop⟩ := h
  cases hr : s.runner with
  | idle => simp [Enabled, hr, RunPc.holds] at hen
  | done => simp [Enabled, hr, RunPc.holds] at hen
  | blocked =>
    have hfree : s.mtx = none := by simpa [Enabled, hr, RunPc.holds] using hen
    refine ⟨{ s with mtx := some .runner, runner := .create }, by simp [runStep, hr, hfree],
      ⟨?_, ?_, ?_, ?_⟩, fun l hl => (hloop l hl).move (by simp [hr]) nofun⟩
    · cases hst : s.starter <;> simp_all [Together, holder]
    · cases hst : s.starter <;> simp_all [Together, holder, RunPc.holds]
    · rw [hhas, hr]
      rfl
    · rw [hmade, hr]
      rfl
  | create =>
    refine ⟨_, by rw [runStep, hr], ⟨?_, ?_, rfl, rfl⟩, fun l hl => ?_⟩
    · cases hst : s.starter <;> simp_all [Together]
    · cases hst : s.starter <;> simp_all [Together, holder, RunPc.holds]
    · obtain rfl := Option.some.inj hl
      exact ⟨EventLoop.construct_inv me, fun _ => rfl, nofun⟩
  | notify =>
    have hstarter : s.starter = .blocked ∨ s.starter = .asleep := by
      cases hst : s.starter <;> simp_all [Together]
    refine ⟨{ s.notify with runner := .unlock }, by rw [runStep, hr], ⟨?_, ?_, ?_, ?_⟩, fun l hl => ?_⟩
    · rcases hstarter with hst | hst <;> simp [notify, hst, Together]
    · rcases hstarter with hst | hst <;> simp_all [notify, holder, RunPc.holds]
    · rcases hstarter with hst | hst <;> simp_all [notify, RunPc.hasLoop]
    · rcases hstarter with hst | hst <;> simp_all [notify, RunPc.made]
    · have hl' : s.eventLoop = some l := by
        rcases hstarter with hst | hst <;> simpa [notify, hst] using hl
      exact (hloop l hl').move (by simp [hr]) nofun
  | unlock =>
    have hstarter : s.starter = .blocked := by cases hst : s.starter <;> simp_all [Together]
    refine ⟨{ s with mtx := none, runner := .call }, by rw [runStep, hr], ⟨?_, ?_, ?_, ?_⟩,
      fun l hl => (hloop l hl).move (by simp [hr]) nofun⟩
    · simp [hstarter, Together]
    · simp [hstarter, holder, RunPc.holds]
    · rw [hhas, hr]
      rfl
    · rw [hmade, hr]
      rfl
  | call =>
    obtain ⟨l, hl⟩ : ∃ l, s.eventLoop = some l := by
      rw [hr] at hmade
      exact Option.isSome_iff_exists.mp hmade
    have hserves := hloop l hl
    have hpc := hserves.outside (by simp [hr])
    obtain ⟨l', hl', hinv⟩ := EventLoop.loop_spec hserves.inv hpc
    have hstarted : l'.running = true ∧ l'.pc = .test := by
      unfold EventLoop.loop at hl'
      split_ifs at hl'
      obtain rfl := Option.some.inj hl'
      exact ⟨rfl, rfl⟩
    refine ⟨{ s with eventLoop := some l', runner := .inside }, by simp [runStep, hr, hl, hl'],
      ⟨?_, ?_, ?_, rfl⟩, fun m hm => ?_⟩
    · cases hst : s.starter <;> simp_all [Together]
    · cases hst : s.starter <;> simp_all [Together, holder, RunPc.holds]
    · rw [hhas, hr]
      rfl
    · obtain rfl := Option.some.inj hm
      exact ⟨hinv, fun hne => absurd rfl hne, fun _ _ => ⟨hstarted.1, by simp [hstarted.2]⟩⟩
  | inside =>
    obtain ⟨l, hl, hpc⟩ : ∃ l, s.eventLoop = some l ∧ l.pc = .outside := by
      simpa [Enabled, hr, RunPc.holds] using hen
    have hserves := hloop l hl
    have hreturned : s.starter = .returned true := by
      by_contra hnot
      exact (hserves.running hnot hr).2 hpc
    refine ⟨{ s with hasLoop := false, runner := .done }, by simp [runStep, hr, hl, hpc],
      ⟨?_, ?_, rfl, ?_⟩, fun m hm => ?_⟩
    · simp [hreturned, Together]
    · simp [hmtx, hreturned, hr, holder, RunPc.holds]
    · rw [hmade, hr]
      rfl
    · obtain rfl : l = m := Option.some.inj (hl.symm.trans hm)
      exact ⟨hserves.inv, fun _ => hpc, nofun⟩

/-- A loop that runs ends only after a `quit`. -/
theorem step_running {l l' : EventLoop T F} {e : EventLoop.Event T F} (hrun : l.running = true)
    (hpc : l.pc ≠ .outside) (hquit : ∀ t, e ≠ .quit t) (hs : l.step e = some l') :
    l'.running = true ∧ l'.pc ≠ .outside := by
  cases EventLoop.moves_of_step hs with
  | direct cb => exact ⟨hrun, hpc⟩
  | queue cb ht => exact ⟨hrun, hpc⟩
  | wakeup t => exact ⟨hrun, hpc⟩
  | quit t => exact absurd rfl (hquit t)
  | loop _ => exact ⟨rfl, by simp⟩
  | leave hfalse => exact absurd (hrun.symm.trans hfalse) (by decide)
  | _ => exact ⟨hrun, by simp [EventLoop.swap]⟩

/-- A step of the loop. -/
theorem loopStep_spec (h : s.Inv me) {e : EventLoop.Event T F} (hen : s.Enabled (.loop e)) :
    ∃ l l', s.eventLoop = some l ∧ l.Enabled e ∧ l.step e = some l' ∧
      s.step me (.loop e) = some { s with eventLoop := some l' } ∧
      Inv me { s with eventLoop := some l' } := by
  obtain ⟨hallowed, l, hl, hlen⟩ := hen
  have hserves := h.loop l hl
  obtain ⟨l', hs, hinv⟩ := EventLoop.step_spec hserves.inv hlen
  refine ⟨l, l', hl, hlen, hs, by simp [step, hl, hs], ⟨h.together, h.mtx, h.hasLoop, ?_⟩,
    fun m hm => ?_⟩
  · rw [← h.made, hl]
    rfl
  · obtain rfl := Option.some.inj hm
    refine ⟨hinv, fun hr => ?_, fun hst hr => ?_⟩
    · have hpc := hserves.outside hr
      cases EventLoop.moves_of_step hs with
      | direct cb => exact hpc
      | queue cb ht => exact hpc
      | wakeup t => exact hpc
      | quit t => exact hpc
      | loop _ => exact absurd hallowed id
      | _ => exact absurd hallowed hr
    · obtain ⟨hrun, hpc⟩ := hserves.running hst hr
      refine step_running hrun hpc (fun t he => ?_) hs
      subst he
      exact hst hallowed

theorem step_spec {e : LoopThreadEvent T F} (h : s.Inv me) (hen : s.Enabled e) :
    ∃ s', s.step me e = some s' ∧ s'.Inv me := by
  cases e with
  | start =>
    have hst : s.starter = .idle := hen
    have hr : s.runner = .idle := by simpa [hst, Together] using h.together
    refine ⟨_, rfl, ⟨by simp [Together], ?_, ?_, ?_⟩, fun l hl =>
      (h.loop l hl).move (by simp [hr]) nofun⟩
    · simp [h.mtx, hst, hr, holder, RunPc.holds]
    · simp [h.hasLoop, hr, RunPc.hasLoop]
    · simp [h.made, hr, RunPc.made]
  | starter =>
    obtain ⟨s', hs', hplaces, hrunner, hloop, hnot⟩ := startStep_spec h.toPlaces hen
    refine ⟨s', hs', hplaces, fun l hl => ?_⟩
    have hserves := h.loop l (hloop ▸ hl)
    exact ⟨hserves.inv, fun hr => hserves.outside (hrunner ▸ hr),
      fun _ hr => hserves.running hnot (hrunner ▸ hr)⟩
  | runner => exact runStep_spec h hen
  | wake =>
    have hst : s.starter = .asleep := hen
    have htogether : s.runner = .blocked ∨ s.runner = .create ∨ s.runner = .notify := by
      simpa [hst, Together] using h.together
    refine ⟨_, rfl, ⟨?_, ?_, h.hasLoop, h.made⟩, fun l hl => ?_⟩
    · rcases htogether with hr | hr | hr <;> simp [Together, hr]
    · simp [h.mtx, hst, holder]
    · refine (h.loop l hl).move ?_ ?_ <;> rcases htogether with hr | hr | hr <;> simp [hr]
  | loop e =>
    obtain ⟨l, l', -, -, -, hs', hinv⟩ := loopStep_spec h hen
    exact ⟨_, hs', hinv⟩

/-! ## The end of `startLoop` -/

/-- How many steps of the two are left until `startLoop` has returned, at most. -/
def left (s : EventLoopThread T F) : ℕ :=
  (match s.starter with
    | .idle | .returned _ => 0
    | .blocked => 3
    | .test => 2
    | .asleep | .read => 1) +
  match s.runner with
    | .idle | .call | .inside | .done => 0
    | .blocked => 12
    | .create => 9
    | .notify => 6
    | .unlock => 3

/-- The way of `run` to its `loop`, while the caller waits. -/
theorem runStep_left (hst : s.starter = .blocked ∨ s.starter = .asleep)
    (hr : s.runner = .blocked ∧ s.mtx = none ∨ s.runner.holds = true) :
    ∃ s', s.runStep me = some s' ∧ s'.starter ≠ .idle ∧ s'.left < s.left := by
  rcases hr with ⟨hr, hfree⟩ | hholds
  · refine ⟨_, by simp [runStep, hr, hfree]; rfl, ?_, by simp [left, hr]⟩
    rcases hst with hst | hst <;> simp [hst]
  · cases hr : s.runner with
    | create =>
      refine ⟨_, by rw [runStep, hr], ?_, by simp [left, hr]⟩
      rcases hst with hst | hst <;> simp [hst]
    | notify =>
      refine ⟨_, by rw [runStep, hr], ?_, ?_⟩
      · rcases hst with hst | hst <;> simp [notify, hst]
      · rcases hst with hst | hst <;> simp [left, notify, hst, hr]
    | unlock =>
      refine ⟨_, by rw [runStep, hr], ?_, by simp [left, hr]⟩
      rcases hst with hst | hst <;> simp [hst]
    | _ => simp [hr, RunPc.holds] at hholds

/-- Until `startLoop` has returned one of the two can go on, and comes nearer to its end. -/
theorem exists_step (h : s.Inv me) (hidle : s.starter ≠ .idle) (hnot : s.starter ≠ .returned true) :
    ∃ e, (e = .starter ∨ e = .runner) ∧ s.Enabled e ∧
      ∃ s', s.step me e = some s' ∧ s'.starter ≠ .idle ∧ s'.left < s.left := by
  have htogether := h.together
  have hmtx := h.mtx
  cases hst : s.starter with
  | idle => exact absurd hst hidle
  | returned found =>
    rw [hst] at htogether hnot
    exact absurd (congrArg StartPc.returned htogether.1) hnot
  | test =>
    refine ⟨.starter, Or.inl rfl, Or.inr (Or.inl hst), ?_⟩
    cases hset : s.hasLoop <;> exact ⟨_, by simp [step, startStep, hst, hset]; rfl, by simp,
      by simp [left, hst]⟩
  | read =>
    exact ⟨.starter, Or.inl rfl, Or.inr (Or.inr hst), _, by simp [step, startStep, hst]; rfl, by simp,
      by simp [left, hst]⟩
  | blocked =>
    by_cases hholds : s.runner.holds = true
    · obtain ⟨s', hs', hleft⟩ := runStep_left (Or.inl hst) (Or.inr hholds)
      exact ⟨.runner, Or.inr rfl, Or.inr (Or.inl hholds), s', hs', hleft⟩
    · have hfree : s.mtx = none := by simp [hmtx, holder, hst, hholds]
      exact ⟨.starter, Or.inl rfl, Or.inl ⟨hst, hfree⟩, _,
        by simp [step, startStep, hst, hfree]; rfl, by simp, by simp [left, hst]⟩
  | asleep =>
    -- the thread has still to notify
    have hr : s.runner = .blocked ∧ s.mtx = none ∨ s.runner.holds = true := by
      rw [hst] at htogether
      rcases htogether with hr | hr | hr
      · exact Or.inl ⟨hr, by simp [hmtx, holder, hst, hr, RunPc.holds]⟩
      · exact Or.inr (by rw [hr]; rfl)
      · exact Or.inr (by rw [hr]; rfl)
    obtain ⟨s', hs', hleft⟩ := runStep_left (Or.inr hst) hr
    exact ⟨.runner, Or.inr rfl, hr.imp_right Or.inl, s', hs', hleft⟩

/-- From any state the two bring `startLoop` to its end by themselves. -/
theorem finishes : ∀ (n : ℕ) (s : EventLoopThread T F), s.left ≤ n → s.Inv me → s.starter ≠ .idle →
    ∃ es s', (∀ e ∈ es, e = .starter ∨ e = .runner) ∧ Along (step me) Enabled s es ∧
      run (step me) s es = some s' ∧ s'.starter = .returned true := by
  intro n
  induction n with
  | zero =>
    intro s hle h hidle
    by_cases hst : s.starter = .returned true
    · exact ⟨[], s, nofun, trivial, rfl, hst⟩
    · obtain ⟨e, -, -, s', -, -, hlt⟩ := exists_step h hidle hst
      omega
  | succ n ih =>
    intro s hle h hidle
    by_cases hst : s.starter = .returned true
    · exact ⟨[], s, nofun, trivial, rfl, hst⟩
    · obtain ⟨e, hwho, hen, s', hs', hidle', hlt⟩ := exists_step h hidle hst
      obtain ⟨t, ht, hinv⟩ := step_spec h hen
      obtain rfl := Option.some.inj (ht.symm.trans hs')
      obtain ⟨es, u, hes, halong, hrun, hu⟩ := ih t (by omega) hinv hidle'
      refine ⟨e :: es, u, ?_, along_step hen ht halong, run_cons_eq_some.mpr ⟨t, ht, hrun⟩, hu⟩
      exact List.forall_mem_cons.mpr ⟨hwho, hes⟩

/-- **`startLoop` hands over the loop.** In every interleaving of the caller, the thread, its loop
    and, once `startLoop` has returned, the other threads: no step fails; `startLoop` returns the
    loop that the thread has constructed, never null; while the caller sleeps, the thread has still
    to notify; and from every state the steps of the two alone lead to the return. -/
theorem start_loop_hands_over (me : T) (es : List (LoopThreadEvent T F))
    (h : Along (step me) Enabled construct es) :
    ∃ s, run (step me) construct es = some s ∧
      (∀ found, s.starter = .returned found →
        found = true ∧ ∃ l, s.eventLoop = some l ∧ l.threadId = me) ∧
      (s.starter = .asleep → s.runner = .blocked ∨ s.runner = .create ∨ s.runner = .notify) ∧
      (s.starter ≠ .idle → ∃ es' s', (∀ e ∈ es', e = .starter ∨ e = .runner) ∧
        Along (step me) Enabled s es' ∧ run (step me) s es' = some s' ∧
          s'.starter = .returned true) := by
  obtain ⟨s, hrun, hinv⟩ := run_total (fun _ _ hinv hen => step_spec hinv hen) es _
    (construct_inv me) h
  refine ⟨s, hrun, fun found hst => ?_, fun hst => ?_, fun hidle => ?_⟩
  · obtain ⟨hfound, l, hl⟩ := hinv.exists_loop hst
    exact ⟨hfound, l, hl, (hinv.loop l hl).inv.threadId⟩
  · have htogether := hinv.together
    rw [hst] at htogether
    exact htogether
  · exact finishes s.left s (Nat.le_refl _) hinv hidle

/-- The caller is asleep when the thread begins. -/
theorem start_loop_hands_over_sample :
    ∃ s, run (step 1) (construct : EventLoopThread ℕ ℕ) [.start, .starter, .starter, .runner,
        .runner, .runner, .runner, .starter, .starter, .starter] = some s ∧
      s.starter = .returned true ∧ ∃ l, s.eventLoop = some l ∧ l.threadId = 1 := by
  have h : Along (step 1) Enabled (construct : EventLoopThread ℕ ℕ) [.start, .starter, .starter,
      .runner, .runner, .runner, .runner, .starter, .starter, .starter] := by
    refine along_step rfl rfl (along_step (Or.inl ⟨rfl, rfl⟩) rfl ?_)
    refine along_step (Or.inr (Or.inl rfl)) rfl (along_step (Or.inl ⟨rfl, rfl⟩) rfl ?_)
    refine along_step (Or.inr (Or.inl rfl)) rfl (along_step (Or.inr (Or.inl rfl)) rfl ?_)
    refine along_step (Or.inr (Or.inl rfl)) rfl (along_step (Or.inl ⟨rfl, rfl⟩) rfl ?_)
    exact along_step (Or.inr (Or.inl rfl)) rfl (along_step (Or.inr (Or.inr rfl)) rfl trivial)
  obtain ⟨s, hrun, hreturned, -⟩ := start_loop_hands_over 1 _ h
  have hst : s.starter = .returned true := by
    obtain rfl := Option.some.inj hrun
    rfl
  exact ⟨s, hrun, hst, (hreturned true hst).2⟩

end EventLoopThread

end XWeb.Net
