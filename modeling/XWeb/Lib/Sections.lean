import XWeb.Lib.Run
import Mathlib.Logic.Function.Basic

/-!
# Sections and a mutex

Threads make calls, and the body of a call is a section. Calls of some kinds take a mutex around
their body, the others do not. Threads interleave in any order.

* `Sections.step`, `step_cases`: a thread makes a call, takes the mutex, or leaves.
* `Sections.Inv`: a thread in a section whose call takes the mutex has it.
* `exclusive_iff`: for which calls of the threads no two of them are ever in a section together.
-/

namespace XWeb.Lib

/-- Where a thread is: not in a call, before the mutex, or in the body of a call. -/
inductive Place (C : Type*)
  | outside
  | blocked (c : C)
  | inside (c : C)
  deriving DecidableEq

/-- The thread that has the mutex, the places of the threads, and the calls that they have still to
    make. -/
structure Sections (T C : Type*) where
  mutex : Option T
  places : T → Place C
  todo : T → List C

/-- A thread begins its next call, takes the mutex, or comes to the end of the body. -/
inductive SectionEvent (T : Type*)
  | call (t : T)
  | lock (t : T)
  | leave (t : T)
  deriving DecidableEq

namespace Sections

variable {T C : Type*}

/-- No thread has begun. -/
def init (calls : T → List C) : Sections T C := ⟨none, fun _ => .outside, calls⟩

/-- At most one thread is in a section. -/
def Exclusive (s : Sections T C) : Prop :=
  ∀ t u c d, s.places t = .inside c → s.places u = .inside d → t = u

variable [DecidableEq T] {locks : C → Bool} {calls : T → List C} {s s' : Sections T C}

/-- One step of a thread; the calls `c` with `locks c` take the mutex. -/
def step (locks : C → Bool) (s : Sections T C) : SectionEvent T → Option (Sections T C)
  | .call t =>
    match s.places t, s.todo t with
    | .outside, c :: cs =>
      some { s with
        places := Function.update s.places t (if locks c then .blocked c else .inside c)
        todo := Function.update s.todo t cs }
    | _, _ => none
  | .lock t =>
    match s.places t, s.mutex with
    | .blocked c, none =>
      some { s with mutex := some t, places := Function.update s.places t (.inside c) }
    | _, _ => none
  | .leave t =>
    match s.places t with
    | .inside c =>
      some { s with
        mutex := if locks c then none else s.mutex
        places := Function.update s.places t .outside }
    | _ => none

/-- What a step can do. -/
theorem step_cases {e : SectionEvent T} (hs : step locks s e = some s') :
    (∃ t c cs, e = .call t ∧ s.places t = .outside ∧ s.todo t = c :: cs ∧
      s' = { s with
        places := Function.update s.places t (if locks c then .blocked c else .inside c)
        todo := Function.update s.todo t cs }) ∨
    (∃ t c, e = .lock t ∧ s.places t = .blocked c ∧ s.mutex = none ∧
      s' = { s with mutex := some t, places := Function.update s.places t (.inside c) }) ∨
    (∃ t c, e = .leave t ∧ s.places t = .inside c ∧
      s' = { s with
        mutex := if locks c then none else s.mutex
        places := Function.update s.places t .outside }) := by
  cases e with
  | call t =>
    left
    simp only [step] at hs
    split at hs
    · next c cs hplace htodo => exact ⟨t, c, cs, rfl, hplace, htodo, (Option.some.inj hs).symm⟩
    · cases hs
  | lock t =>
    right; left
    simp only [step] at hs
    split at hs
    · next c hplace hmutex => exact ⟨t, c, rfl, hplace, hmutex, (Option.some.inj hs).symm⟩
    · cases hs
  | leave t =>
    right; right
    simp only [step] at hs
    split at hs
    · next c hplace => exact ⟨t, c, rfl, hplace, (Option.some.inj hs).symm⟩
    · cases hs

/-! ## The invariant -/

/-- The body of a call that takes the mutex is entered with it, and threads make only their calls.
    -/
structure Inv (locks : C → Bool) (calls : T → List C) (s : Sections T C) : Prop where
  holds : ∀ t c, s.places t = .inside c → locks c = true → s.mutex = some t
  place : ∀ t c, s.places t = .blocked c ∨ s.places t = .inside c → c ∈ calls t
  todo : ∀ t, ∀ c ∈ s.todo t, c ∈ calls t

omit [DecidableEq T] in
theorem init_inv (calls : T → List C) : Inv locks calls (init calls) where
  holds _ _ h := by cases h
  place _ _ h := by rcases h with h | h <;> cases h
  todo _ _ h := h

/-- A thread makes its next call. -/
theorem Inv.call (h : Inv locks calls s) {t : T} {c : C} {cs : List C}
    (htodo : s.todo t = c :: cs) :
    Inv locks calls { s with
      places := Function.update s.places t (if locks c then .blocked c else .inside c)
      todo := Function.update s.todo t cs } := by
  have hc : c ∈ calls t := h.todo t c (by rw [htodo]; exact List.mem_cons_self)
  refine ⟨fun u d hu hd => ?_, fun u d hu => ?_, fun u d hd => ?_⟩
  · rcases eq_or_ne u t with rfl | hne
    · simp only [Function.update_self] at hu
      split at hu
      · cases hu
      · next hnot => cases hu; exact absurd hd hnot
    · simp only [Function.update_of_ne hne] at hu
      exact h.holds u d hu hd
  · rcases eq_or_ne u t with rfl | hne
    · simp only [Function.update_self] at hu
      split at hu <;> rcases hu with hu | hu <;> cases hu <;> exact hc
    · simp only [Function.update_of_ne hne] at hu
      exact h.place u d hu
  · rcases eq_or_ne u t with rfl | hne
    · simp only [Function.update_self] at hd
      exact h.todo u d (by rw [htodo]; exact List.mem_cons_of_mem c hd)
    · simp only [Function.update_of_ne hne] at hd
      exact h.todo u d hd

/-- A thread takes the mutex. -/
theorem Inv.lock (h : Inv locks calls s) {t : T} {c : C} (hplace : s.places t = .blocked c)
    (hmutex : s.mutex = none) :
    Inv locks calls { s with
      mutex := some t
      places := Function.update s.places t (.inside c) } := by
  refine ⟨fun u d hu hd => ?_, fun u d hu => ?_, h.todo⟩
  · rcases eq_or_ne u t with rfl | hne
    · rfl
    · simp only [Function.update_of_ne hne] at hu
      have hheld := h.holds u d hu hd
      rw [hmutex] at hheld
      cases hheld
  · rcases eq_or_ne u t with rfl | hne
    · simp only [Function.update_self] at hu
      rcases hu with hu | hu <;> cases hu
      exact h.place u c (Or.inl hplace)
    · simp only [Function.update_of_ne hne] at hu
      exact h.place u d hu

/-- A thread leaves. If others have the mutex, it has not. -/
theorem Inv.leave (h : Inv locks calls s) {t : T} {c : C} (hplace : s.places t = .inside c) :
    Inv locks calls { s with
      mutex := if locks c then none else s.mutex
      places := Function.update s.places t .outside } := by
  refine ⟨fun u d hu hd => ?_, fun u d hu => ?_, h.todo⟩
  · rcases eq_or_ne u t with rfl | hne
    · simp only [Function.update_self] at hu
      cases hu
    · simp only [Function.update_of_ne hne] at hu
      have hheld := h.holds u d hu hd
      simp only
      split
      · next hc =>
        have htheirs := h.holds t c hplace hc
        exact absurd (Option.some.inj (hheld.symm.trans htheirs)) hne
      · exact hheld
  · rcases eq_or_ne u t with rfl | hne
    · simp only [Function.update_self] at hu
      rcases hu with hu | hu <;> cases hu
    · simp only [Function.update_of_ne hne] at hu
      exact h.place u d hu

theorem step_inv {e : SectionEvent T} (h : Inv locks calls s) (hs : step locks s e = some s') :
    Inv locks calls s' := by
  obtain ⟨t, c, cs, -, -, htodo, rfl⟩ | ⟨t, c, -, hplace, hmutex, rfl⟩ | ⟨t, c, -, hplace, rfl⟩ :=
    step_cases hs
  · exact h.call htodo
  · exact h.lock hplace hmutex
  · exact h.leave hplace

/-- With the mutex around one of two sections at least, both are of one thread or one of them is not
    locked. -/
theorem Inv.exclusive (h : Inv locks calls s)
    (hcalls : ∀ t u, t ≠ u → (∃ c ∈ calls t, locks c = false) → calls u = []) : s.Exclusive := by
  intro t u c d ht hu
  by_contra hne
  have hmine : c ∈ calls t := h.place t c (Or.inr ht)
  have htheirs : d ∈ calls u := h.place u d (Or.inr hu)
  cases hc : locks c with
  | false =>
    rw [hcalls t u hne ⟨c, hmine, hc⟩] at htheirs
    exact absurd htheirs List.not_mem_nil
  | true =>
    cases hd : locks d with
    | false =>
      rw [hcalls u t (Ne.symm hne) ⟨d, htheirs, hd⟩] at hmine
      exact absurd hmine List.not_mem_nil
    | true =>
      have hheld := h.holds t c ht hc
      rw [h.holds u d hu hd] at hheld
      exact hne (Option.some.inj hheld).symm

/-! ## Which calls exclude each other -/

/-- A thread comes into the section of its next call when nobody has the mutex. -/
theorem run_enter (locks : C → Bool) {t : T} {c : C} {cs : List C} (hplace : s.places t = .outside)
    (hmutex : s.mutex = none) (htodo : s.todo t = c :: cs) :
    ∃ es s', run (step locks) s es = some s' ∧ s'.mutex = (if locks c then some t else none) ∧
      s'.places = Function.update s.places t (.inside c) ∧
      s'.todo = Function.update s.todo t cs := by
  cases hc : locks c with
  | false =>
    refine ⟨[.call t], _, by simp [step, hplace, htodo, hc]; rfl, ?_, rfl, rfl⟩
    simpa using hmutex
  | true =>
    refine ⟨[.call t, .lock t], _, by simp [step, hplace, htodo, hc, hmutex]; rfl, ?_, ?_, rfl⟩
    · simp
    · simp

/-- A thread makes its next calls while nobody else moves. -/
theorem run_calls (locks : C → Bool) {t : T} (cs rest : List C) : ∀ {s : Sections T C},
    s.places t = .outside → s.mutex = none → s.todo t = cs ++ rest →
      ∃ es, run (step locks) s es = some { s with todo := Function.update s.todo t rest } := by
  induction cs with
  | nil =>
    intro s _ _ htodo
    refine ⟨[], ?_⟩
    rw [List.nil_append] at htodo
    rw [run_nil, ← htodo, Function.update_eq_self]
  | cons c cs ih =>
    intro s hplace hmutex htodo
    obtain ⟨es, s', hrun, hmutex', hplaces, htodo'⟩ := run_enter locks hplace hmutex htodo
    have hleave : run (step locks) s (es ++ [.leave t]) =
        some { s with todo := Function.update s.todo t (cs ++ rest) } := by
      refine run_concat hrun ?_
      have hback : Function.update s'.places t .outside = s.places := by
        rw [hplaces, Function.update_idem, ← hplace, Function.update_eq_self]
      have hfree : (if locks c then none else s'.mutex) = s.mutex := by
        rw [hmutex', hmutex]
        cases locks c <;> rfl
      have hinside : s'.places t = .inside c := by rw [hplaces, Function.update_self]
      simp only [step, hinside, hback, hfree, htodo', List.append_eq]
    obtain ⟨es', hrest⟩ := ih (s := { s with todo := Function.update s.todo t (cs ++ rest) }) hplace
      hmutex (Function.update_self ..)
    refine ⟨es ++ [.leave t] ++ es', ?_⟩
    rw [run_append, hleave, Option.bind_some, hrest]
    simp only [Function.update_idem]

/-- One thread makes calls and enters the section of a call without the mutex, and then another
    thread enters one. -/
theorem run_meet {t u : T} (hne : t ≠ u) {c d : C} {before after ds : List C}
    (ht : s.places t = .outside) (hu : s.places u = .outside) (hmutex : s.mutex = none)
    (htodo : s.todo t = before ++ c :: after) (htodo' : s.todo u = d :: ds)
    (hfree : locks c = false) :
    ∃ es s', run (step locks) s es = some s' ∧ s'.places t = .inside c ∧
      s'.places u = .inside d := by
  obtain ⟨es, hbefore⟩ := run_calls locks before (c :: after) ht hmutex htodo
  obtain ⟨es', s₁, henter, hmutex₁, hplaces₁, htodo₁⟩ := run_enter locks (c := c)
    (s := { s with todo := Function.update s.todo t (c :: after) }) ht hmutex
    (Function.update_self ..)
  have hu₁ : s₁.places u = .outside := by
    rw [hplaces₁, Function.update_of_ne (Ne.symm hne)]
    exact hu
  have hfree₁ : s₁.mutex = none := by
    rw [hmutex₁, hfree]
    rfl
  have htodo₁' : s₁.todo u = d :: ds := by
    simp only [htodo₁, Function.update_of_ne (Ne.symm hne), htodo']
  obtain ⟨es'', s₂, hboth, -, hplaces₂, -⟩ := run_enter locks hu₁ hfree₁ htodo₁'
  refine ⟨es ++ (es' ++ es''), s₂, ?_, ?_, ?_⟩
  · exact run_append_eq_some.mpr ⟨_, hbefore, run_append_eq_some.mpr ⟨_, henter, hboth⟩⟩
  · rw [hplaces₂, Function.update_of_ne hne, hplaces₁, Function.update_self]
  · rw [hplaces₂, Function.update_self]

/-- **When sections exclude each other.** Given the calls that each thread makes, no interleaving
    brings two threads into their sections together, exactly if a thread that makes a call without
    the mutex is the only one that makes calls. -/
theorem exclusive_iff (locks : C → Bool) (calls : T → List C) :
    (∀ es s, run (step locks) (init calls) es = some s → s.Exclusive) ↔
      ∀ t u, t ≠ u → (∃ c ∈ calls t, locks c = false) → calls u = [] := by
  constructor
  · rintro hall t u hne ⟨c, hc, hfree⟩
    by_contra hcalls
    obtain ⟨before, after, ht⟩ := List.append_of_mem hc
    obtain ⟨d, ds, hu⟩ := List.exists_cons_of_ne_nil hcalls
    obtain ⟨es, s, hrun, hmine, htheirs⟩ :=
      run_meet (s := init calls) hne rfl rfl rfl ht hu hfree
    exact hne (hall es s hrun t u c d hmine htheirs)
  · intro hcalls es s hrun
    have hinv : Inv locks calls s :=
      run_invariant (fun s e s' h hs => step_inv h hs) es (init calls) s (init_inv calls) hrun
    exact hinv.exclusive hcalls

end Sections

end XWeb.Lib
