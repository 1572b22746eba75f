import XWeb.Lib.Run
import Mathlib.Logic.Function.Basic

/-!
# Monitors

Data that is only used with a mutex taken, and one condition variable. The bodies of the calls are
a program: at each point it says how the data changes and what comes next. A thread that waits
gives the mutex back and falls asleep in one step; it is woken by `notify_all`, or without a
reason, and then needs the mutex again. Threads interleave in any order.

* `Monitor.step`, `step_cases`: one step of a thread.
* `Assertions`, `Assertions.Sound`: what is to hold at each point of a program, and what its
  sleepers wait for; and what has to be shown of each point.
* `Assertions.Inv`, `step_inv`, `run_inv`: from that, in every run, the data is as it is to be;
  `Assertions.Inv.asleep`: and nobody sleeps for what is already there.
-/

namespace XWeb.Lib

/-- What a thread does next: it goes on, waits, wakes all sleepers and goes on, or leaves. The point
    is where it does so. -/
inductive Control (P : Type*)
  | goto (p : P)
  | wait (p : P)
  | notifyAll (p : P)
  | leave
  deriving DecidableEq

/-- Where a thread is: not in a call, without the mutex that it needs to go on, with it, or
    asleep. -/
inductive MonitorPlace (P : Type*)
  | outside
  | blocked (p : P)
  | inside (p : P)
  | asleep (p : P)
  deriving DecidableEq

/-- `notify_all`, for one thread. -/
def MonitorPlace.notified {P : Type*} : MonitorPlace P → MonitorPlace P
  | .asleep p => .blocked p
  | place => place

/-- A thread begins a call at a point, takes the mutex, makes the step of its point, or wakes up. -/
inductive MonitorEvent (T P : Type*)
  | call (t : T) (p : P)
  | lock (t : T)
  | exec (t : T)
  | wake (t : T)
  deriving DecidableEq

/-- The thread that has the mutex, the data and the places of the threads. -/
structure Monitor (T P D : Type*) where
  mutex : Option T
  data : D
  places : T → MonitorPlace P

namespace Monitor

variable {T P D : Type*}

def init (d : D) : Monitor T P D := ⟨none, d, fun _ => .outside⟩

variable [DecidableEq T]

/-- The thread `t` goes to a place. -/
def move (s : Monitor T P D) (t : T) (place : MonitorPlace P) : Monitor T P D :=
  { s with places := Function.update s.places t place }

/-- The thread `t` goes on as the program says. -/
def follow (s : Monitor T P D) (t : T) : Control P → Monitor T P D
  | .goto p => s.move t (.inside p)
  | .wait p => { s.move t (.asleep p) with mutex := none }
  | .notifyAll p => { s with places := fun u => (s.places u).notified }.move t (.inside p)
  | .leave => { s.move t .outside with mutex := none }

/-- One step; `entry` are the points at which calls begin. -/
def step (entry : P → Bool) (code : P → D → D × Control P) (s : Monitor T P D) :
    MonitorEvent T P → Option (Monitor T P D)
  | .call t p =>
    match s.places t with
    | .outside => if entry p then some (s.move t (.blocked p)) else none
    | _ => none
  | .lock t =>
    match s.places t, s.mutex with
    | .blocked p, none => some { s.move t (.inside p) with mutex := some t }
    | _, _ => none
  | .exec t =>
    match s.places t with
    | .inside p => some ({ s with data := (code p s.data).1 }.follow t (code p s.data).2)
    | _ => none
  | .wake t =>
    match s.places t with
    | .asleep p => some (s.move t (.blocked p))
    | _ => none

/-- What a step can do. -/
inductive Stepped (entry : P → Bool) (code : P → D → D × Control P) (s s' : Monitor T P D) : Prop
  | called (t : T) (p : P) (place : s.places t = .outside) (begins : entry p = true)
      (eq : s' = s.move t (.blocked p))
  | locked (t : T) (p : P) (place : s.places t = .blocked p) (free : s.mutex = none)
      (eq : s' = { s.move t (.inside p) with mutex := some t })
  | executed (t : T) (p : P) (place : s.places t = .inside p)
      (eq : s' = { s with data := (code p s.data).1 }.follow t (code p s.data).2)
  | woken (t : T) (p : P) (place : s.places t = .asleep p) (eq : s' = s.move t (.blocked p))

variable {entry : P → Bool} {code : P → D → D × Control P} {s s' : Monitor T P D}

theorem step_cases {e : MonitorEvent T P} (hs : step entry code s e = some s') :
    Stepped entry code s s' := by
  cases e with
  | call t p =>
    simp only [step] at hs
    split at hs
    · next hplace =>
      split at hs
      · next hentry => exact .called t p hplace hentry (Option.some.inj hs).symm
      · cases hs
    · cases hs
  | lock t =>
    simp only [step] at hs
    split at hs
    · next p hplace hmutex => exact .locked t p hplace hmutex (Option.some.inj hs).symm
    · cases hs
  | exec t =>
    simp only [step] at hs
    split at hs
    · next p hplace => exact .executed t p hplace (Option.some.inj hs).symm
    · cases hs
  | wake t =>
    simp only [step] at hs
    split at hs
    · next p hplace => exact .woken t p hplace (Option.some.inj hs).symm
    · cases hs

/-! ## The rules -/

/-- What is to hold of the data when nobody has the mutex, for the thread inside at a point, and
    as long as a thread that is to go on at a point sleeps. A thread at a point that `owes` will
    wake all sleepers before it leaves. -/
structure Assertions (P D : Type*) where
  free : D → Prop
  inside : P → D → Prop
  asleep : P → D → Prop
  owes : P → D → Prop
  /-- the points at which a thread takes the mutex -/
  resumes : P → Prop

namespace Assertions

variable (A : Assertions P D)

/-- The sleepers are kept up, when the thread at `p` changes `d` to `d'` and then has the debt. -/
def Keeps (p : P) (d d' : D) (debt : Prop) : Prop :=
  ∀ r, A.asleep r d ∨ A.owes p d → A.asleep r d' ∨ debt

/-- What the step from `p` is to bring about. -/
def After (p : P) (d d' : D) : Control P → Prop
  | .goto q => A.inside q d' ∧ A.Keeps p d d' (A.owes q d')
  | .wait q => A.free d' ∧ A.resumes q ∧ A.asleep q d' ∧ A.Keeps p d d' False
  | .notifyAll q => A.inside q d'
  | .leave => A.free d' ∧ A.Keeps p d d' False

/-- The rules: what is to be shown of the program. -/
structure Sound (entry : P → Bool) (code : P → D → D × Control P) : Prop where
  of_entry : ∀ p, entry p = true → A.resumes p
  enter : ∀ p d, A.resumes p → A.free d → A.inside p d
  exec : ∀ p d, A.inside p d → A.After p d (code p d).1 (code p d).2

/-- The data, by who has the mutex and at which point. -/
def Held (s : Monitor T P D) : Option (T × P) → Prop
  | none => s.mutex = none ∧ A.free s.data
  | some (t, p) => s.mutex = some t ∧ s.places t = .inside p ∧ A.inside p s.data

/-- The thread that has the mutex will wake all sleepers. -/
def Debt (d : D) : Option (T × P) → Prop
  | none => False
  | some (_, p) => A.owes p d

/-- A thread in a place. -/
def Placed (d : D) (holder : Option (T × P)) (t : T) : MonitorPlace P → Prop
  | .outside => True
  | .blocked p => A.resumes p
  | .inside p => holder = some (t, p)
  | .asleep q => A.resumes q ∧ (A.asleep q d ∨ A.Debt d holder)

/-- The invariant of a program that keeps the rules. -/
structure Inv (s : Monitor T P D) (holder : Option (T × P)) : Prop where
  held : A.Held s holder
  placed : ∀ t, A.Placed s.data holder t (s.places t)

end Assertions

variable {A : Assertions P D} {holder : Option (T × P)}

omit [DecidableEq T] in
theorem init_inv {d : D} (h : A.free d) : A.Inv (init d : Monitor T P D) none :=
  ⟨⟨rfl, h⟩, fun _ => trivial⟩

/-- Only the place of `t` changes, which is not inside. -/
theorem Assertions.Inv.move (h : A.Inv s holder) {t : T} {place : MonitorPlace P}
    (hout : ∀ p, s.places t ≠ .inside p) (hplace : A.Placed s.data holder t place) :
    A.Inv (s.move t place) holder := by
  constructor
  · cases holder with
    | none => exact h.held
    | some x =>
      obtain ⟨hmutex, hx, hin⟩ := h.held
      have hne : x.1 ≠ t := by
        rintro rfl
        exact hout x.2 hx
      exact ⟨hmutex, (Function.update_of_ne hne ..).trans hx, hin⟩
  · intro u
    rcases eq_or_ne u t with rfl | hne
    · simpa only [Monitor.move, Function.update_self] using hplace
    · simpa only [Monitor.move, Function.update_of_ne hne] using h.placed u

omit [DecidableEq T] in
/-- The thread that has the mutex is the one inside. -/
theorem Assertions.Inv.of_inside (h : A.Inv s holder) {t : T} {p : P}
    (ht : s.places t = .inside p) :
    holder = some (t, p) := by
  have hplaced := h.placed t
  rw [ht] at hplaced
  exact hplaced

omit [DecidableEq T] in
/-- A thread that has not got the mutex, when another thread has made a step. -/
theorem Assertions.Placed.other {d d' : D} {u : T} {place : MonitorPlace P}
    {holder' : Option (T × P)} (h : A.Placed d holder u place) (hout : ∀ p, holder ≠ some (u, p))
    (hsleep : ∀ q, A.asleep q d ∨ A.Debt d holder → A.asleep q d' ∨ A.Debt d' holder') :
    A.Placed d' holder' u place := by
  cases place with
  | outside => trivial
  | blocked q => exact h
  | inside q => exact absurd h (hout q)
  | asleep q => exact ⟨h.1, hsleep q h.2⟩

omit [DecidableEq T] in
/-- The same when all sleepers have been woken. -/
theorem Assertions.Placed.notified {d d' : D} {u : T} {place : MonitorPlace P}
    {holder' : Option (T × P)} (h : A.Placed d holder u place)
    (hout : ∀ p, holder ≠ some (u, p)) : A.Placed d' holder' u place.notified := by
  cases place with
  | outside => trivial
  | blocked q => exact h
  | inside q => exact absurd h (hout q)
  | asleep q => exact h.1

/-- The step of the thread inside. -/
theorem exec_inv (hA : A.Sound entry code) (h : A.Inv s holder) {t : T} {p : P}
    (ht : s.places t = .inside p) :
    ∃ holder', A.Inv ({ s with data := (code p s.data).1 }.follow t (code p s.data).2) holder' := by
  obtain rfl := h.of_inside ht
  obtain ⟨hmutex, -, hin⟩ := h.held
  have hafter := hA.exec p s.data hin
  generalize code p s.data = result at hafter ⊢
  obtain ⟨d', control⟩ := result
  have hout : ∀ u ≠ t, ∀ q, some (t, p) ≠ some (u, q) := by
    rintro u hne q he
    exact hne (Prod.mk.inj (Option.some.inj he)).1.symm
  have hother : ∀ holder', A.Keeps p s.data d' (A.Debt d' holder') →
      ∀ u ≠ t, A.Placed d' holder' u (s.places u) :=
    fun _ hkeeps u hne => (h.placed u).other (hout u hne) hkeeps
  cases control with
  | goto q =>
    obtain ⟨hin', hkeeps⟩ := hafter
    refine ⟨some (t, q), ⟨hmutex, Function.update_self .., hin'⟩, fun u => ?_⟩
    rcases eq_or_ne u t with rfl | hne
    · simp only [follow, Monitor.move, Function.update_self]
      rfl
    · simpa only [follow, Monitor.move, Function.update_of_ne hne] using
        hother (some (t, q)) hkeeps u hne
  | wait q =>
    obtain ⟨hfree, hresumes, hasleep, hkeeps⟩ := hafter
    refine ⟨none, ⟨rfl, hfree⟩, fun u => ?_⟩
    rcases eq_or_ne u t with rfl | hne
    · simp only [follow, Monitor.move, Function.update_self]
      exact ⟨hresumes, Or.inl hasleep⟩
    · simpa only [follow, Monitor.move, Function.update_of_ne hne] using hother none hkeeps u hne
  | notifyAll q =>
    refine ⟨some (t, q), ⟨hmutex, Function.update_self .., hafter⟩, fun u => ?_⟩
    rcases eq_or_ne u t with rfl | hne
    · simp only [follow, Monitor.move, Function.update_self]
      rfl
    · simpa only [follow, Monitor.move, Function.update_of_ne hne] using
        (h.placed u).notified (hout u hne)
  | leave =>
    obtain ⟨hfree, hkeeps⟩ := hafter
    refine ⟨none, ⟨rfl, hfree⟩, fun u => ?_⟩
    rcases eq_or_ne u t with rfl | hne
    · simp only [follow, Monitor.move, Function.update_self]
      trivial
    · simpa only [follow, Monitor.move, Function.update_of_ne hne] using hother none hkeeps u hne

omit [DecidableEq T] in
/-- With the mutex free nobody is inside. -/
theorem Assertions.Inv.of_free (h : A.Inv s holder) (hfree : s.mutex = none) : holder = none := by
  cases holder with
  | none => rfl
  | some x => exact absurd (hfree.symm.trans h.held.1) (by simp)

theorem step_inv {e : MonitorEvent T P} (hA : A.Sound entry code) (h : A.Inv s holder)
    (hs : step entry code s e = some s') : ∃ holder', A.Inv s' holder' := by
  cases step_cases hs with
  | called t p place begins eq =>
    subst eq
    exact ⟨holder, h.move (by simp [place]) (hA.of_entry p begins)⟩
  | locked t p place free eq =>
    subst eq
    obtain rfl := h.of_free free
    have hresumes := h.placed t
    rw [place] at hresumes
    refine ⟨some (t, p), ⟨rfl, Function.update_self .., hA.enter p _ hresumes h.held.2⟩,
      fun u => ?_⟩
    rcases eq_or_ne u t with rfl | hne
    · simp only [Monitor.move, Function.update_self]
      rfl
    · have hother : A.Placed s.data (some (t, p)) u (s.places u) :=
        (h.placed u).other (fun _ => nofun) fun _ hasleep => Or.inl (hasleep.resolve_right id)
      simpa only [Monitor.move, Function.update_of_ne hne] using hother
  | executed t p place eq =>
    subst eq
    exact exec_inv hA h place
  | woken t p place eq =>
    subst eq
    have hplaced := h.placed t
    rw [place] at hplaced
    exact ⟨holder, h.move (by simp [place]) hplaced.1⟩

/-- **The rule for monitors.** Of a program that keeps the rules every run keeps the invariant. -/
theorem run_inv (hA : A.Sound entry code) {d : D} (hd : A.free d) {es : List (MonitorEvent T P)}
    (hrun : run (step entry code) (init d) es = some s) : ∃ holder, A.Inv s holder :=
  run_invariant (I := fun s => ∃ holder, A.Inv s holder)
    (fun _ _ _ ⟨_, h⟩ hs => step_inv hA h hs) es _ _ ⟨none, init_inv hd⟩ hrun

omit [DecidableEq T] in
/-- With the mutex free a sleeper has a reason to sleep. -/
theorem Assertions.Inv.asleep (h : A.Inv s holder) (hfree : s.mutex = none) {t : T} {q : P}
    (ht : s.places t = .asleep q) : A.asleep q s.data := by
  obtain rfl := h.of_free hfree
  have hplaced := h.placed t
  rw [ht] at hplaced
  exact hplaced.2.resolve_right id

end Monitor

end XWeb.Lib
