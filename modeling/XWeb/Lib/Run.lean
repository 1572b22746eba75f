import Mathlib.Data.List.Basic
import Mathlib.Tactic.Common

/-!
# Runs of a partial step function

A system is a step function `step : σ → ε → Option σ`. An event `e` carries every choice
of the environment (what a system call returns, which thread moves), so a run is a list of
events, and `step s e = none` means that there is no such step from `s`: the event is not
enabled, or the program aborts in it.

* `run`: the state a list of events leads to.
* `attempt`: as much of a list of events as can be made.
* `Along`: a condition on every step of a run, in the state in which the step is taken.
* `run_invariant`, `run_invariant_along`: an invariant of every step is one of every run.
* `run_total`: an invariant under which every step exists makes every run exist.
* `run_refines`: forward simulation by a total abstract step function, with progress.
* `run_simulated`: forward simulation by runs of another system, with progress.
* `Throughout`: a condition on every state a run comes through; `throughout_of_throughout`: from
  another such condition; `throughout_iff_along`: when it is one on the steps.
* `Always`: a condition on every entry of a log and the entries before it.
-/

namespace XWeb.Lib

variable {σ τ ε α : Type*}

/-! ## Runs -/

/-- The state after the events `es`, taken in order from `s`. -/
def run (step : σ → ε → Option σ) : σ → List ε → Option σ
  | s, [] => some s
  | s, e :: es => (step s e).bind fun s' => run step s' es

@[simp] theorem run_nil (step : σ → ε → Option σ) (s : σ) : run step s [] = some s := rfl

@[simp] theorem run_cons (step : σ → ε → Option σ) (s : σ) (e : ε) (es : List ε) :
    run step s (e :: es) = (step s e).bind fun s' => run step s' es := rfl

theorem run_append (step : σ → ε → Option σ) (es fs : List ε) :
    ∀ s, run step s (es ++ fs) = (run step s es).bind fun s' => run step s' fs := by
  induction es with
  | nil => intro s; rfl
  | cons e es ih =>
    intro s
    simp only [List.cons_append, run_cons, Option.bind_assoc]
    cases step s e with
    | none => rfl
    | some s' => exact ih s'

theorem run_append_eq_some {step : σ → ε → Option σ} {es fs : List ε} {s s'' : σ} :
    run step s (es ++ fs) = some s'' ↔ ∃ s', run step s es = some s' ∧ run step s' fs = some s'' := by
  rw [run_append, Option.bind_eq_some_iff]

/-- One step more. -/
theorem run_concat {step : σ → ε → Option σ} {es : List ε} {e : ε} {s s' s'' : σ}
    (hrun : run step s es = some s') (hs : step s' e = some s'') :
    run step s (es ++ [e]) = some s'' := by
  rw [run_append_eq_some]
  exact ⟨s', hrun, by rw [run_cons, hs]; rfl⟩

theorem run_cons_eq_some {step : σ → ε → Option σ} {e : ε} {es : List ε} {s s'' : σ} :
    run step s (e :: es) = some s'' ↔ ∃ s', step s e = some s' ∧ run step s' es = some s'' := by
  rw [run_cons, Option.bind_eq_some_iff]

/-- The steps `es` are made in order up to the first that cannot be made. -/
def attempt (step : σ → ε → Option σ) : σ → List ε → σ
  | s, [] => s
  | s, e :: es => match step s e with
    | some s' => attempt step s' es
    | none => s

theorem attempt_cons_of_some {step : σ → ε → Option σ} {s s' : σ} {e : ε} (h : step s e = some s')
    (es : List ε) : attempt step s (e :: es) = attempt step s' es := by
  simp [attempt, h]

theorem attempt_cons_of_none {step : σ → ε → Option σ} {s : σ} {e : ε} (h : step s e = none)
    (es : List ε) : attempt step s (e :: es) = s := by
  simp [attempt, h]

/-! ## Conditions along a run -/

/-- Every step of the run `es` from `s` satisfies `P` in the state in which it is taken. -/
def Along (step : σ → ε → Option σ) (P : σ → ε → Prop) : σ → List ε → Prop
  | _, [] => True
  | s, e :: es => P s e ∧ ∀ s' ∈ step s e, Along step P s' es

instance Along.decidable (step : σ → ε → Option σ) (P : σ → ε → Prop)
    [∀ s e, Decidable (P s e)] : ∀ s es, Decidable (Along step P s es)
  | _, [] => inferInstanceAs (Decidable True)
  | s, e :: es =>
    have : ∀ s', Decidable (Along step P s' es) := fun s' => Along.decidable step P s' es
    inferInstanceAs (Decidable (P s e ∧ ∀ s' ∈ step s e, Along step P s' es))

@[simp] theorem along_nil (step : σ → ε → Option σ) (P : σ → ε → Prop) (s : σ) :
    Along step P s [] := trivial

theorem along_cons {step : σ → ε → Option σ} {P : σ → ε → Prop} {s : σ} {e : ε} {es : List ε} :
    Along step P s (e :: es) ↔ P s e ∧ ∀ s', step s e = some s' → Along step P s' es := Iff.rfl

/-- One step of a run that is given by its states. -/
theorem along_step {step : σ → ε → Option σ} {P : σ → ε → Prop} {s s' : σ} {e : ε} {es : List ε}
    (hP : P s e) (hs : step s e = some s') (h : Along step P s' es) : Along step P s (e :: es) := by
  refine ⟨hP, fun t ht => ?_⟩
  rwa [Option.some.inj (ht.symm.trans hs)]

theorem Along.mono {step : σ → ε → Option σ} {P Q : σ → ε → Prop} (h : ∀ s e, P s e → Q s e)
    {es : List ε} : ∀ {s}, Along step P s es → Along step Q s es := by
  induction es with
  | nil => intro s _; trivial
  | cons e es ih => rintro s ⟨h1, h2⟩; exact ⟨h s e h1, fun s' hs' => ih (h2 s' hs')⟩

/-- A condition on the events alone. -/
theorem along_of_forall {step : σ → ε → Option σ} {Q : ε → Prop} {es : List ε} :
    ∀ {s}, (∀ e ∈ es, Q e) → Along step (fun _ e => Q e) s es := by
  induction es with
  | nil => intro s _; trivial
  | cons e es ih =>
    intro s h
    exact ⟨h e List.mem_cons_self, fun s' _ => ih fun e' he' => h e' (List.mem_cons_of_mem e he')⟩

/-- What a step cannot be made without, on a run that is made. -/
theorem along_of_run {step : σ → ε → Option σ} {P : σ → ε → Prop}
    (hP : ∀ s e s', step s e = some s' → P s e) (es : List ε) :
    ∀ {s s'}, run step s es = some s' → Along step P s es := by
  induction es with
  | nil => intro s s' _; trivial
  | cons e es ih =>
    intro s s'' hrun
    obtain ⟨s', hs', hrest⟩ := run_cons_eq_some.mp hrun
    exact along_step (hP s e s' hs') hs' (ih hrest)

/-- Back again, on a run that is made. -/
theorem forall_of_along {step : σ → ε → Option σ} {Q : ε → Prop} {es : List ε} :
    ∀ {s s'}, run step s es = some s' → Along step (fun _ e => Q e) s es → ∀ e ∈ es, Q e := by
  induction es with
  | nil => intro s s' _ _ e he; exact absurd he (by simp)
  | cons e es ih =>
    rintro s s'' hrun ⟨hQ, hQs⟩ e' he'
    obtain ⟨s', hs', hrest⟩ := run_cons_eq_some.mp hrun
    rcases List.mem_cons.mp he' with rfl | he'
    · exact hQ
    · exact ih hrest (hQs s' hs') e' he'

theorem Along.and {step : σ → ε → Option σ} {P Q : σ → ε → Prop} {es : List ε} :
    ∀ {s}, Along step P s es → Along step Q s es → Along step (fun s e => P s e ∧ Q s e) s es := by
  induction es with
  | nil => intro s _ _; trivial
  | cons e es ih =>
    rintro s ⟨hp, hps⟩ ⟨hq, hqs⟩
    exact ⟨⟨hp, hq⟩, fun s' hs' => ih (hps s' hs') (hqs s' hs')⟩

theorem along_append {step : σ → ε → Option σ} {P : σ → ε → Prop} {es fs : List ε} :
    ∀ {s}, Along step P s (es ++ fs) ↔
      Along step P s es ∧ ∀ s', run step s es = some s' → Along step P s' fs := by
  induction es with
  | nil => intro s; simp
  | cons e es ih =>
    intro s
    simp only [List.cons_append, along_cons, ih, run_cons_eq_some]
    constructor
    · rintro ⟨h1, h2⟩
      exact ⟨⟨h1, fun s' hs' => (h2 s' hs').1⟩, fun s'' ⟨s', hs', hr⟩ => (h2 s' hs').2 s'' hr⟩
    · rintro ⟨⟨h1, h2⟩, h3⟩
      exact ⟨h1, fun s' hs' => ⟨h2 s' hs', fun s'' hr => h3 s'' ⟨s', hs', hr⟩⟩⟩

/-! ## Invariants and refinement -/

theorem run_invariant_along {step : σ → ε → Option σ} {P : σ → ε → Prop} {I : σ → Prop}
    (hstep : ∀ s e s', I s → P s e → step s e = some s' → I s') :
    ∀ (es : List ε) (s s' : σ), I s → Along step P s es → run step s es = some s' → I s' := by
  intro es
  induction es with
  | nil => rintro s s' hI - ⟨⟩; exact hI
  | cons e es ih =>
    intro s s'' hI hP hrun
    obtain ⟨s', hs', hrun⟩ := run_cons_eq_some.mp hrun
    exact ih s' s'' (hstep s e s' hI hP.1 hs') (hP.2 s' hs') hrun

theorem run_invariant {step : σ → ε → Option σ} {I : σ → Prop}
    (hstep : ∀ s e s', I s → step s e = some s' → I s') (es : List ε) (s s' : σ) (hI : I s)
    (hrun : run step s es = some s') : I s' := by
  exact run_invariant_along (P := fun _ _ => True) (fun s e s' h _ => hstep s e s' h) es s s' hI
    (along_of_forall fun _ _ => trivial) hrun

/-- A log to which each step adds the entry that its event posts, if any, has those of the run. -/
theorem run_log {step : σ → ε → Option σ} {P : σ → ε → Prop} {J : σ → Prop} {log : σ → List α}
    {post : ε → Option α}
    (hstep : ∀ s e s', J s → P s e → step s e = some s' →
      J s' ∧ log s' = log s ++ (post e).toList) (es : List ε) :
    ∀ {s s'}, J s → Along step P s es → run step s es = some s' →
      log s' = log s ++ es.filterMap post := by
  induction es with
  | nil =>
    intro s s' _ _ hrun
    obtain rfl := Option.some.inj hrun
    exact (List.append_nil _).symm
  | cons e es ih =>
    rintro s s' hJ ⟨hP, hrest⟩ hrun
    obtain ⟨s₁, hs, hrun⟩ := run_cons_eq_some.mp hrun
    obtain ⟨hJ₁, hlog⟩ := hstep s e s₁ hJ hP hs
    rw [ih hJ₁ (hrest s₁ hs) hrun, hlog, List.append_assoc]
    cases hpost : post e <;> simp [hpost]

/-- Forward simulation with progress. If from related states every step that satisfies `P`
    exists and is matched by `astep`, then every run along `P` exists and is matched. -/
theorem run_refines {step : σ → ε → Option σ} (astep : τ → ε → τ) (R : σ → τ → Prop)
    {P : σ → ε → Prop}
    (hstep : ∀ s t e, R s t → P s e → ∃ s', step s e = some s' ∧ R s' (astep t e)) :
    ∀ (es : List ε) (s : σ) (t : τ), R s t → Along step P s es →
      ∃ s', run step s es = some s' ∧ R s' (es.foldl astep t) := by
  intro es
  induction es with
  | nil => intro s t hR _; exact ⟨s, rfl, hR⟩
  | cons e es ih =>
    rintro s t hR ⟨hP, hP'⟩
    obtain ⟨s', hs', hR'⟩ := hstep s t e hR hP
    obtain ⟨s'', hrun, hR''⟩ := ih s' (astep t e) hR' (hP' s' hs')
    exact ⟨s'', run_cons_eq_some.mpr ⟨s', hs', hrun⟩, hR''⟩

/-- Forward simulation by another system, with progress. If from related states every step that
    satisfies `P` exists and is matched by a run along `Q`, then so is every run along `P`. -/
theorem run_simulated {step : σ → ε → Option σ} {astep : τ → α → Option τ} (R : σ → τ → Prop)
    {P : σ → ε → Prop} {Q : τ → α → Prop}
    (hstep : ∀ s t e, R s t → P s e → ∃ s', step s e = some s' ∧
      ∃ as t', Along astep Q t as ∧ run astep t as = some t' ∧ R s' t') :
    ∀ (es : List ε) (s : σ) (t : τ), R s t → Along step P s es →
      ∃ s', run step s es = some s' ∧
        ∃ as t', Along astep Q t as ∧ run astep t as = some t' ∧ R s' t' := by
  intro es
  induction es with
  | nil => intro s t hR _; exact ⟨s, rfl, [], t, trivial, rfl, hR⟩
  | cons e es ih =>
    rintro s t hR ⟨hP, hP'⟩
    obtain ⟨s', hs', as, t', halong, hrun, hR'⟩ := hstep s t e hR hP
    obtain ⟨s'', hrun', bs, t'', halong', hruns, hR''⟩ := ih s' t' hR' (hP' s' hs')
    refine ⟨s'', run_cons_eq_some.mpr ⟨s', hs', hrun'⟩, as ++ bs, t'', ?_, ?_, hR''⟩
    · refine along_append.mpr ⟨halong, fun u hu => ?_⟩
      rwa [Option.some.inj (hu.symm.trans hrun)]
    · exact run_append_eq_some.mpr ⟨t', hrun, hruns⟩

/-- Progress and preservation: every run along `P` exists and ends in the invariant. -/
theorem run_total {step : σ → ε → Option σ} {P : σ → ε → Prop} {I : σ → Prop}
    (hstep : ∀ s e, I s → P s e → ∃ s', step s e = some s' ∧ I s') (es : List ε) (s : σ)
    (hI : I s) (hP : Along step P s es) : ∃ s', run step s es = some s' ∧ I s' := by
  exact run_refines (fun (u : Unit) _ => u) (fun s _ => I s) (fun s _ e hI hP => hstep s e hI hP)
    es s () hI hP

/-- Under an invariant `J`, conditions that agree on every step agree along every run. `J` has to be
    kept by the steps that satisfy them. -/
theorem along_iff_of_invariant {step : σ → ε → Option σ} {P Q R : σ → ε → Prop} {J : σ → Prop}
    (hiff : ∀ s e, J s → Q s e → (P s e ↔ R s e))
    (hJ : ∀ s e s', J s → Q s e → R s e → step s e = some s' → J s') (es : List ε) :
    ∀ s, J s → Along step Q s es → (Along step P s es ↔ Along step R s es) := by
  induction es with
  | nil => intro s _ _; exact Iff.rfl
  | cons e es ih =>
    rintro s hs ⟨hQ, hQs⟩
    have hhead := hiff s e hs hQ
    have htail : R s e → ∀ s', step s e = some s' → (Along step P s' es ↔ Along step R s' es) :=
      fun hR s' hs' => ih s' (hJ s e s' hs hQ hR hs') (hQs s' hs')
    rw [along_cons, along_cons]
    constructor
    · rintro ⟨hP, hPs⟩
      exact ⟨hhead.mp hP, fun s' hs' => (htail (hhead.mp hP) s' hs').mp (hPs s' hs')⟩
    · rintro ⟨hR, hRs⟩
      exact ⟨hhead.mpr hR, fun s' hs' => (htail hR s' hs').mpr (hRs s' hs')⟩

/-- A condition that follows from an invariant of the steps. -/
theorem along_of_invariant {step : σ → ε → Option σ} {P R : σ → ε → Prop} {J : σ → Prop}
    (hR : ∀ s e, J s → P s e → R s e) (hJ : ∀ s e s', J s → P s e → step s e = some s' → J s')
    (es : List ε) : ∀ s, J s → Along step P s es → Along step R s es := by
  induction es with
  | nil => intro s _ _; trivial
  | cons e es ih =>
    rintro s hs ⟨hP, hPs⟩
    exact ⟨hR s e hs hP, fun s' hs' => ih s' (hJ s e s' hs hP hs') (hPs s' hs')⟩

/-- Preservation alone: the state that a run leads to. -/
theorem run_total_invariant {step : σ → ε → Option σ} {P : σ → ε → Prop} {I : σ → Prop}
    (hstep : ∀ s e, I s → P s e → ∃ s', step s e = some s' ∧ I s') {es : List ε} {s s' : σ}
    (hI : I s) (hP : Along step P s es) (hrun : run step s es = some s') : I s' := by
  obtain ⟨t, ht, hIt⟩ := run_total hstep es s hI hP
  rwa [Option.some.inj (hrun.symm.trans ht)]

/-! ## Every state of a run -/

/-- Every state that the run `es` from `s` comes through satisfies `I`. -/
def Throughout (step : σ → ε → Option σ) (I : σ → Prop) (s : σ) (es : List ε) : Prop :=
  ∀ pre s', pre <+: es → run step s pre = some s' → I s'

theorem throughout_nil {step : σ → ε → Option σ} {I : σ → Prop} {s : σ} :
    Throughout step I s [] ↔ I s := by
  constructor
  · intro h
    exact h [] s List.nil_prefix rfl
  · intro hI pre s' hpre hrun
    obtain rfl := List.prefix_nil.mp hpre
    obtain rfl : s = s' := Option.some.inj hrun
    exact hI

theorem throughout_cons {step : σ → ε → Option σ} {I : σ → Prop} {s : σ} {e : ε} {es : List ε} :
    Throughout step I s (e :: es) ↔ I s ∧ ∀ s', step s e = some s' → Throughout step I s' es := by
  constructor
  · intro h
    refine ⟨h [] s List.nil_prefix rfl, fun s' hs' pre s'' hpre hrun => ?_⟩
    exact h (e :: pre) s'' (List.cons_prefix_cons.mpr ⟨rfl, hpre⟩)
      (run_cons_eq_some.mpr ⟨s', hs', hrun⟩)
  · rintro ⟨h1, h2⟩ pre s'' hpre hrun
    cases pre with
    | nil =>
      obtain rfl : s = s'' := Option.some.inj hrun
      exact h1
    | cons e' pre =>
      obtain ⟨rfl, htail⟩ := List.cons_prefix_cons.mp hpre
      obtain ⟨s', hs', hrest⟩ := run_cons_eq_some.mp hrun
      exact h2 s' hs' pre s'' htail hrest

instance Throughout.decidable (step : σ → ε → Option σ) (I : σ → Prop) [DecidablePred I] :
    ∀ s es, Decidable (Throughout step I s es)
  | s, [] => decidable_of_iff (I s) throughout_nil.symm
  | s, e :: es =>
    have : ∀ s', Decidable (Throughout step I s' es) := fun s' => Throughout.decidable step I s' es
    decidable_of_iff (I s ∧ ∀ s' ∈ step s e, Throughout step I s' es) throughout_cons.symm

theorem throughout_of_invariant {step : σ → ε → Option σ} {P : σ → ε → Prop} {J I : σ → Prop}
    (hstep : ∀ s e s', J s → P s e → step s e = some s' → J s') (hI : ∀ s, J s → I s)
    {es : List ε} {s : σ} (hJ : J s) (hP : Along step P s es) : Throughout step I s es := by
  rintro pre s' ⟨post, rfl⟩ hrun
  exact hI s' (run_invariant_along hstep pre s s' hJ (along_append.mp hP).1 hrun)

/-- An invariant of the steps between states of `K`, along a run that stays in `K`. -/
theorem throughout_of_throughout {step : σ → ε → Option σ} {P : σ → ε → Prop} {J K I : σ → Prop}
    (hstep : ∀ s e s', J s → K s → K s' → P s e → step s e = some s' → J s')
    (hI : ∀ s, J s → I s) (es : List ε) :
    ∀ s, J s → Along step P s es → Throughout step K s es → Throughout step I s es := by
  induction es with
  | nil => intro s hJ _ _; exact throughout_nil.mpr (hI s hJ)
  | cons e es ih =>
    rintro s hJ ⟨hP, hPs⟩ hK
    obtain ⟨hKs, hKs'⟩ := throughout_cons.mp hK
    refine throughout_cons.mpr ⟨hI s hJ, fun s' hs' => ?_⟩
    have hK' := hKs' s' hs'
    exact ih s' (hstep s e s' hJ hKs (hK' [] s' List.nil_prefix rfl) hP hs') (hPs s' hs') hK'

/-- Under an invariant `J` of the steps that satisfy `P`, if a step from a state of `I` leads to `I`
    exactly if it satisfies `P`, then a run stays in `I` exactly if all its steps satisfy `P`. -/
theorem throughout_iff_along_of_kept {step : σ → ε → Option σ} {P Q : σ → ε → Prop} {J I : σ → Prop}
    (hstep : ∀ s e, J s → I s → Q s e →
      ∃ s', step s e = some s' ∧ (P s e → J s') ∧ (I s' ↔ P s e))
    (es : List ε) : ∀ s, J s → I s → Along step Q s es →
      (Throughout step I s es ↔ Along step P s es) := by
  induction es with
  | nil => intro s _ hI _; exact ⟨fun _ => trivial, fun _ => throughout_nil.mpr hI⟩
  | cons e es ih =>
    rintro s hJ hI ⟨hQ, hQs⟩
    obtain ⟨s', hs', hJ', hiff⟩ := hstep s e hJ hI hQ
    rw [throughout_cons, along_cons]
    constructor
    · rintro ⟨-, h⟩
      have hI' : I s' := h s' hs' [] s' List.nil_prefix rfl
      have hP : P s e := hiff.mp hI'
      refine ⟨hP, fun t ht => ?_⟩
      obtain rfl := Option.some.inj (hs'.symm.trans ht)
      exact (ih s' (hJ' hP) hI' (hQs s' hs')).mp (h s' hs')
    · rintro ⟨hP, h⟩
      refine ⟨hI, fun t ht => ?_⟩
      obtain rfl := Option.some.inj (hs'.symm.trans ht)
      exact (ih s' (hJ' hP) (hiff.mpr hP) (hQs s' hs')).mpr (h s' hs')

/-- Where steps may fail: a run is made to its end and stays in `I` exactly if all its steps satisfy
    `P`, if that is when a step from a state of `I` is made and leads to `I`. -/
theorem total_throughout_iff_along {step : σ → ε → Option σ} {P : σ → ε → Prop} {J I : σ → Prop}
    (hstep : ∀ s e, J s → I s → (P s e ↔ ∃ s', step s e = some s' ∧ I s'))
    (hJ : ∀ s e s', J s → step s e = some s' → J s') (es : List ε) :
    ∀ s, J s → I s →
      ((∃ s', run step s es = some s') ∧ Throughout step I s es ↔ Along step P s es) := by
  induction es with
  | nil => intro s _ hI; exact ⟨fun _ => trivial, fun _ => ⟨⟨s, rfl⟩, throughout_nil.mpr hI⟩⟩
  | cons e es ih =>
    intro s hJs hI
    rw [throughout_cons, along_cons]
    constructor
    · rintro ⟨⟨s'', hrun⟩, -, h⟩
      obtain ⟨s', hs', hrun'⟩ := run_cons_eq_some.mp hrun
      have hI' : I s' := h s' hs' [] s' List.nil_prefix rfl
      refine ⟨(hstep s e hJs hI).mpr ⟨s', hs', hI'⟩, fun t ht => ?_⟩
      obtain rfl := Option.some.inj (hs'.symm.trans ht)
      exact (ih s' (hJ s e s' hJs hs') hI').mp ⟨⟨s'', hrun'⟩, h s' hs'⟩
    · rintro ⟨hP, h⟩
      obtain ⟨s', hs', hI'⟩ := (hstep s e hJs hI).mp hP
      obtain ⟨⟨s'', hrun⟩, hall⟩ := (ih s' (hJ s e s' hJs hs') hI').mpr (h s' hs')
      refine ⟨⟨s'', run_cons_eq_some.mpr ⟨s', hs', hrun⟩⟩, hI, fun t ht => ?_⟩
      obtain rfl := Option.some.inj (hs'.symm.trans ht)
      exact hall

/-- `throughout_iff_along_of_kept` under an invariant of every step. -/
theorem throughout_iff_along {step : σ → ε → Option σ} {P Q : σ → ε → Prop} {J I : σ → Prop}
    (hstep : ∀ s e, J s → I s → Q s e → ∃ s', step s e = some s' ∧ J s' ∧ (I s' ↔ P s e))
    (es : List ε) (s : σ) (hJ : J s) (hI : I s) (hQ : Along step Q s es) :
    Throughout step I s es ↔ Along step P s es := by
  refine throughout_iff_along_of_kept (fun s e hJ hI hQ => ?_) es s hJ hI hQ
  obtain ⟨s', hs', hJ', hiff⟩ := hstep s e hJ hI hQ
  exact ⟨s', hs', fun _ => hJ', hiff⟩

/-! ## Logs -/

/-- Every entry of the log `l` satisfies `P` together with the entries before it. -/
def Always (P : List α → α → Prop) (l : List α) : Prop :=
  ∀ pre a post, l = pre ++ a :: post → P pre a

@[simp] theorem always_nil (P : List α → α → Prop) : Always P [] := by
  intro pre a post h; simp at h

theorem Always.append {P : List α → α → Prop} {l m : List α} (hl : Always P l)
    (hm : ∀ pre a, a ∈ m → P pre a) : Always P (l ++ m) := by
  intro pre a post he
  obtain ⟨c, rfl, hc⟩ | ⟨c, rfl, hc⟩ := List.append_eq_append_iff.mp he
  · exact hm _ a (by rw [hc]; simp)
  · cases c with
    | nil => exact hm _ a (by rw [← List.nil_append m, ← hc]; simp)
    | cons b c =>
      obtain ⟨rfl, -⟩ := List.cons.inj hc
      exact hl pre a c rfl

theorem Always.concat {P : List α → α → Prop} {l : List α} {a : α} (hl : Always P l)
    (ha : P l a) : Always P (l ++ [a]) := by
  intro pre b post he
  rcases List.eq_nil_or_concat post with rfl | ⟨post', c, rfl⟩
  · obtain ⟨rfl, hb⟩ := List.append_inj' he rfl
    cases hb; exact ha
  · have he' : l ++ [a] = (pre ++ b :: post') ++ [c] := by simpa using he
    obtain ⟨rfl, _⟩ := List.append_inj' he' rfl
    exact hl pre b post' rfl

end XWeb.Lib
