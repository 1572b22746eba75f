import XWeb.Net.EventLoop

/-!
# The loop of a thread

`t_loopInThisThread` (`net/event_loop.cpp` lines 9–34) is set by the constructor of `EventLoop`,
which aborts if it is set already, and read by `getEventLoopOfCurrentThread`. The destructor calls
`quit`, whose effect goes with the object, and leaves the variable as it is.

* `Loops.step`: a thread constructs or destroys a loop.
* `Loops.Registered`: nothing was aborted, and each thread finds the loop that it has.
* `registered_iff`: the runs in which this is so.
-/

namespace XWeb.Net

open XWeb.Lib

/-- `t_loopInThisThread` of each thread, the loops that exist by their address, and whether the
    process has been aborted. -/
structure Loops (T F A : Type*) where
  loopInThisThread : T → Option A
  loops : A → Option (EventLoop T F)
  aborted : Bool

/-- A loop is constructed at an address, or the one there is destroyed, by a thread. -/
inductive LoopsEvent (T A : Type*)
  | construct (t : T) (this : A)
  | destroy (t : T) (this : A)
  deriving DecidableEq

/-- The event is a destruction. -/
def LoopsEvent.Destroys {T A : Type*} : LoopsEvent T A → Prop
  | .construct .. => False
  | .destroy .. => True

namespace Loops

variable {T F A : Type*}

/-- Before the first loop. -/
def init : Loops T F A := ⟨fun _ => none, fun _ => none, false⟩

/-- `getEventLoopOfCurrentThread` (lines 11–14), called on thread `t`. -/
def getEventLoopOfCurrentThread (s : Loops T F A) (t : T) : Option A := s.loopInThisThread t

/-- There is a loop at the address, which thread `t` has made. -/
def Has (s : Loops T F A) (t : T) (this : A) : Prop :=
  ∃ l, s.loops this = some l ∧ l.threadId = t

/-- A thread constructs a loop when it has none, at an address that is free, and destroys its own.
    -/
def Legal (s : Loops T F A) : LoopsEvent T A → Prop
  | .construct t this => s.loops this = none ∧ ∀ other, ¬ s.Has t other
  | .destroy t this => s.Has t this

/-- Nothing was aborted, and `getEventLoopOfCurrentThread` finds the loop of the thread, or none
    if it has none. -/
def Registered (s : Loops T F A) : Prop :=
  s.aborted = false ∧ ∀ t this, s.getEventLoopOfCurrentThread t = some this ↔ s.Has t this

variable [DecidableEq T] [DecidableEq A]

/-- The constructor (lines 16–29), where `LOG_FATAL` aborts, and the destructor (lines 31–34). -/
def step (s : Loops T F A) : LoopsEvent T A → Option (Loops T F A)
  | .construct t this =>
    if s.aborted then none
    else match s.loopInThisThread t with
      | some _ => some { s with aborted := true }
      | none =>
        some { s with
          loopInThisThread := Function.update s.loopInThisThread t (some this)
          loops := Function.update s.loops this (some (EventLoop.construct t)) }
  | .destroy _ this =>
    if s.aborted then none else some { s with loops := Function.update s.loops this none }

omit [DecidableEq T] [DecidableEq A] in
theorem init_registered : Registered (init : Loops T F A) := by
  refine ⟨rfl, fun t this => ⟨fun h => ?_, ?_⟩⟩
  · cases h
  · rintro ⟨l, hl, -⟩
    cases hl

variable {s : Loops T F A}

/-- A thread without a loop constructs one. -/
theorem construct_registered (h : s.Registered) {t : T} {this : A}
    (hlegal : s.Legal (.construct t this)) :
    ∃ s', s.step (.construct t this) = some s' ∧ s'.Registered := by
  obtain ⟨hfree, hnone⟩ := hlegal
  have hunset : s.loopInThisThread t = none := by
    rw [Option.eq_none_iff_forall_ne_some]
    exact fun other hother => hnone other ((h.2 t other).mp hother)
  have hs : s.step (.construct t this) = some { s with
      loopInThisThread := Function.update s.loopInThisThread t (some this)
      loops := Function.update s.loops this (some (EventLoop.construct t)) } := by
    simp [step, h.1, hunset]
  refine ⟨_, hs, h.1, fun u other => ?_⟩
  simp only [getEventLoopOfCurrentThread, Has]
  rcases eq_or_ne other this with rfl | hother
  · -- the new loop is that of `t` and of no other thread
    rcases eq_or_ne u t with rfl | hu
    · simp only [Function.update_self, true_iff]
      exact ⟨_, rfl, rfl⟩
    · have hmine : ¬ s.loopInThisThread u = some other := by
        intro hset
        obtain ⟨l, hl, -⟩ := (h.2 u other).mp hset
        exact absurd (hfree.symm.trans hl) (by simp)
      simp only [Function.update_self, Function.update_of_ne hu, hmine, false_iff]
      rintro ⟨l, hl, hthread⟩
      rw [← Option.some.inj hl] at hthread
      exact hu hthread.symm
  · rcases eq_or_ne u t with rfl | hu
    · simp only [Function.update_self, Function.update_of_ne hother]
      exact ⟨fun he => absurd (Option.some.inj he).symm hother,
        fun hhas => absurd hhas (hnone other)⟩
    · simp only [Function.update_of_ne hu, Function.update_of_ne hother]
      exact h.2 u other

/-- A loop that is destroyed is still found. -/
theorem destroy_not_registered (h : s.Registered) {t : T} {this : A}
    (hlegal : s.Legal (.destroy t this)) :
    ∃ s', s.step (.destroy t this) = some s' ∧ ¬ s'.Registered := by
  have hs : s.step (.destroy t this) =
      some { s with loops := Function.update s.loops this none } := by simp [step, h.1]
  refine ⟨_, hs, fun hreg => ?_⟩
  obtain ⟨l, hl, -⟩ := (hreg.2 t this).mp ((h.2 t this).mpr hlegal)
  simp only [Function.update_self] at hl
  cases hl

/-- A step keeps the registration exactly if it destroys nothing. -/
theorem step_registered (h : s.Registered) {e : LoopsEvent T A} (hlegal : s.Legal e) :
    ∃ s', s.step e = some s' ∧ (s'.Registered ↔ ¬ e.Destroys) := by
  cases e with
  | construct t this =>
    obtain ⟨s', hs', hreg⟩ := construct_registered h hlegal
    exact ⟨s', hs', iff_of_true hreg id⟩
  | destroy t this =>
    obtain ⟨s', hs', hnot⟩ := destroy_not_registered h hlegal
    exact ⟨s', hs', iff_of_false hnot fun hd => hd trivial⟩

/-- **When threads find their loops.** In a run in which any threads construct and destroy loops,
    no thread having two at a time: no construction aborts, and between the steps
    `getEventLoopOfCurrentThread` returns the loop that there is on the thread or null, exactly if
    no loop is destroyed. -/
theorem registered_iff (es : List (LoopsEvent T A))
    (h : Along step Legal (init : Loops T F A) es) :
    Throughout step Registered (init : Loops T F A) es ↔ ∀ e ∈ es, ¬ e.Destroys := by
  rw [throughout_iff_along_of_kept (J := fun _ => True) (P := fun _ e => ¬ e.Destroys)
    (fun s e _ hreg hlegal => ?_) es init trivial init_registered h]
  · constructor
    · intro hkept
      have hstep : ∀ (s : Loops T F A) (e : LoopsEvent T A), s.Registered →
          s.Legal e ∧ ¬ e.Destroys → ∃ s', s.step e = some s' ∧ s'.Registered := by
        rintro s e hreg ⟨hlegal, hkeeps⟩
        obtain ⟨s', hs', hiff⟩ := step_registered hreg hlegal
        exact ⟨s', hs', hiff.mpr hkeeps⟩
      obtain ⟨s, hrun, -⟩ := run_total hstep es init init_registered (h.and hkept)
      exact forall_of_along hrun hkept
    · exact along_of_forall
  · obtain ⟨s', hs', hiff⟩ := step_registered hreg hlegal
    exact ⟨s', hs', fun _ => trivial, hiff⟩

/-- Each of two threads constructs a loop. -/
theorem registered_iff_sample :
    Throughout step Registered (init : Loops Bool Unit ℕ)
      [.construct true 0, .construct false 1] := by
  have hlegal : Along step Legal (init : Loops Bool Unit ℕ)
      [.construct true 0, .construct false 1] := by
    refine along_step ⟨rfl, ?_⟩ rfl (along_step ⟨rfl, ?_⟩ rfl trivial)
    · rintro other ⟨l, hl, -⟩
      cases hl
    · rintro other ⟨l, hl, hthread⟩
      rcases eq_or_ne other 0 with rfl | hne
      · rw [← Option.some.inj hl] at hthread
        cases hthread
      · simp [init, hne] at hl
  exact (registered_iff _ hlegal).mpr (by simp [LoopsEvent.Destroys])

/-- A thread that has destroyed its loop cannot construct another one. -/
theorem next_loop_aborts : ¬ ∀ es : List (LoopsEvent Unit ℕ),
    Along step Legal (init : Loops Unit Unit ℕ) es →
      Throughout step Registered (init : Loops Unit Unit ℕ) es := by
  intro hall
  have hlegal : Along step Legal (init : Loops Unit Unit ℕ)
      [.construct () 0, .destroy () 0, .construct () 1] := by
    refine along_step ⟨rfl, ?_⟩ rfl
      (along_step ⟨_, rfl, rfl⟩ rfl (along_step ⟨rfl, ?_⟩ rfl trivial))
    · rintro other ⟨l, hl, -⟩
      cases hl
    · rintro other ⟨l, hl, -⟩
      rcases eq_or_ne other 0 with rfl | hne
      · cases hl
      · simp [init, hne] at hl
  obtain ⟨haborted, -⟩ := hall _ hlegal _ _ (List.prefix_refl _) rfl
  exact absurd haborted (by decide)

end Loops

end XWeb.Net
