import XWeb.Base.AsyncLoggingOrder

/-!
# What `stop` loses

`threadFunc` tests `running_` only at the top of its loop. Bytes that the producers still hold
when `stop` clears it are collected once more if the backend is then between its test and the
collection, and never otherwise.

* `covered_step`, `covered_run`: from the moment `running_` is cleared, whether a prefix of the
  stream will reach the file does not change any more.
* `stop_hands_over_iff`: exactly when every line appended before `stop()` reaches the file.
-/

namespace XWeb.Base.AsyncLogging

open XWeb.Lib

/-- The backend has the bytes `x`, or has still a collection before it. -/
def Covered (x : Bytes) (s : AsyncLogging) : Prop := s.backend.Open ∨ x <+: s.taken.flatten

theorem stream_eq (s : AsyncLogging) : s.stream = s.taken.flatten ++ s.pending.flatten := by
  simp [stream, chunks]

theorem Effect.stopped {s s' : AsyncLogging} {e : Event} (h : Effect s s' e) (hs : s.Stopped) :
    s'.Stopped := by
  cases h with
  | append _ _ hb hr => exact ⟨hr.trans hs.1, by rw [hb]; exact hs.2⟩
  | collect _ _ hb hr _ _ => exact ⟨hr.trans hs.1, by rw [hb]; nofun⟩
  | batch _ hb hr _ _ _ => exact ⟨hr.trans hs.1, by rw [hb]; nofun⟩
  | other _ _ hloop => exact (hloop hs).1

/-- A collection takes all of the stream, and no other step takes anything from the producers. -/
theorem Effect.covered_iff {s s' : AsyncLogging} {e : Event} {x : Bytes} (h : Effect s s' e)
    (hs : s.Stopped) (hno : s.NoDrop e) (hx : x <+: s.stream) : Covered x s' ↔ Covered x s := by
  unfold Covered
  cases h with
  | append ht _ hb _ => rw [ht, hb]
  | collect _ ho _ _ ht _ =>
    have hx' : x <+: s'.taken.flatten := by rwa [ht, List.flatten_append, ← stream_eq]
    exact iff_of_true (Or.inr hx') (Or.inl ho)
  | batch hb hb' _ _ hex _ => rw [hex (hno rfl), hb, hb']; rfl
  | other _ hsame hloop => rw [hsame.1, (hloop hs).2]

/-- What holds of every state after `running_` has been cleared. -/
structure After (x : Bytes) (s : AsyncLogging) : Prop where
  inv : s.Inv
  stopped : s.Stopped
  carried : x <+: s.stream

/-- The steps of a run without drops. -/
def Lossless (s : AsyncLogging) (e : Event) : Prop := s.Legal e ∧ s.NoDrop e

instance (s : AsyncLogging) (e : Event) : Decidable (s.Lossless e) := by
  unfold Lossless; infer_instance

theorem covered_step {x : Bytes} {s s' : AsyncLogging} {e : Event} (h : After x s)
    (hl : s.Lossless e) (hs : step s e = some s') :
    After x s' ∧ (Covered x s' ↔ Covered x s) := by
  obtain ⟨⟨hen, hshort⟩, hno⟩ := hl
  obtain ⟨t, ht, hinv, heff⟩ := step_spec h.inv hen hshort.intLen
  obtain rfl := Option.some.inj (hs.symm.trans ht)
  refine ⟨⟨hinv, heff.stopped h.stopped, ?_⟩, heff.covered_iff h.stopped hno h.carried⟩
  rw [heff.stream hshort hno]
  exact h.carried.trans (List.prefix_append _ _)

theorem covered_run {x : Bytes} {es : List Event} {s s' : AsyncLogging} (h : After x s)
    (hl : Along step Lossless s es) (hs : run step s es = some s') :
    After x s' ∧ (Covered x s' ↔ Covered x s) := by
  refine run_invariant_along (I := fun t => After x t ∧ (Covered x t ↔ Covered x s)) ?_ es s s'
    ⟨h, Iff.rfl⟩ hl hs
  intro t e t' ⟨ht, hiff⟩ hl hstep
  obtain ⟨ht', hiff'⟩ := covered_step ht hl hstep
  exact ⟨ht', hiff'.trans hiff⟩

/-- A finished backend has nothing left to write. -/
theorem covered_finished {x : Bytes} {s : AsyncLogging} (h : s.Inv) (hb : s.backend = .finished) :
    Covered x s ↔ x <+: (handed s.output).flatten := by
  have hB := h.backend
  simp only [BackendInv, hb] at hB
  simp [Covered, hb, Backend.Open, taken, unwritten, hB]

/-- **`stop` keeps everything exactly if** the backend has passed its test of `running_` and not
    yet collected when `running_` is cleared, or the producers hold no more bytes then than were
    appended since `stop` was called. Here `es₀` is the run before the call, `es₁` leads to `s₁`,
    in which `running_` is cleared, and `s₂` is the state in which `stop` returns. -/
theorem stop_hands_over_iff (es₀ es₁ es₂ : List Event) (s₁ s₂ : AsyncLogging)
    (h : Along step Lossless construct (es₀ ++ .stop :: es₁ ++ .clear :: es₂ ++ [.join]))
    (h₁ : run step construct (es₀ ++ .stop :: es₁) = some s₁)
    (h₂ : run step s₁ (.clear :: es₂ ++ [.join]) = some s₂) :
    (appended es₀).flatten <+: (handed s₂.output).flatten ↔
      s₁.backend.Open ∨ s₁.pending.flatten.length ≤ (appended es₁).flatten.length := by
  rw [List.append_assoc _ (.clear :: es₂), along_append] at h
  obtain ⟨hbefore, hafter⟩ := h
  obtain ⟨⟨⟨hclear, -⟩, -⟩, hafter⟩ := hafter s₁ h₁
  -- the stream when `running_` is cleared
  obtain ⟨t, ht, hinv, hstream⟩ := run_exact (hbefore.mono fun _ _ h => h.1)
    (hbefore.mono fun _ _ h => h.2)
  obtain rfl := Option.some.inj (h₁.symm.trans ht)
  have hcut : (appended es₀).flatten ++ (appended es₁).flatten =
      s₁.taken.flatten ++ s₁.pending.flatten := by
    rw [← stream_eq, hstream]
    simp [appended, Event.lines]
  -- the state after it is stopped, and has the same stream
  have hclear : s₁.stopper = .called := hclear
  have hne : s₁.stopper ≠ .idle := by rw [hclear]; decide
  obtain ⟨hinv', -⟩ := effect_stopper hinv (e := .clear) rfl (Or.inl hne) false .cleared
    fun _ => rfl
  have hstart : After (appended es₀).flatten { s₁ with running := false, stopper := .cleared } := by
    refine ⟨hinv', ⟨rfl, fun hb => ?_⟩, ?_⟩
    · have hB := hinv.backend
      simp only [BackendInv, show s₁.backend = .notStarted from hb, hclear] at hB
      exact absurd hB.2 (by decide)
    · change _ <+: s₁.stream
      rw [stream_eq, ← hcut]
      exact List.prefix_append _ _
  -- the rest of the run, up to the join with a finished backend
  obtain ⟨s₃, hrun, hjoin⟩ := run_append_eq_some.mp h₂
  obtain ⟨-, ⟨⟩, hrun⟩ := run_cons_eq_some.mp hrun
  obtain ⟨hmid, hlast⟩ := along_append.mp (hafter _ rfl)
  obtain ⟨hafter₃, hiff⟩ := covered_run hstart hmid hrun
  obtain ⟨⟨⟨⟨-, hfin⟩, -⟩, -⟩, -⟩ := hlast s₃ hrun
  obtain ⟨-, ⟨⟩, ⟨⟩⟩ := run_cons_eq_some.mp hjoin
  rw [← prefix_iff_of_append_eq hcut]
  exact (covered_finished hafter₃.inv hfin).symm.trans hiff

/-- `stop` finds the backend in its wait. -/
theorem stop_hands_over_sample :
    ∃ s, run step construct ([.start, .append [97, 10], .enter, .test, .lock] ++ .stop :: [] ++
        .clear :: [.notify, .wake, .batch, .write, .recycle, .test] ++ [.join]) = some s ∧
      [97, 10] <+: (handed s.output).flatten := by
  obtain ⟨s₂, hrun⟩ := Option.isSome_iff_exists.mp (show (run step construct
    (([.start, .append [97, 10], .enter, .test, .lock] ++ .stop :: []) ++
      (.clear :: [.notify, .wake, .batch, .write, .recycle, .test] ++ [.join]))).isSome
    by decide +kernel)
  obtain ⟨s₁, h₁, h₂⟩ := run_append_eq_some.mp hrun
  have hwait : (run step construct ([.start, .append [97, 10], .enter, .test, .lock] ++
    .stop :: [])).map AsyncLogging.backend = some .waiting := by decide +kernel
  rw [h₁] at hwait
  refine ⟨s₂, hrun, (stop_hands_over_iff [.start, .append [97, 10], .enter, .test, .lock] []
    [.notify, .wake, .batch, .write, .recycle, .test] s₁ s₂ (by decide +kernel) h₁ h₂).mpr
    (Or.inl ?_)⟩
  rw [show s₁.backend = .waiting from Option.some.inj hwait]
  trivial

/-- The backend is at the top of its loop when `running_` is cleared: the line is lost. -/
theorem stop_loses_line :
    ¬ ∀ (es₀ es₁ es₂ : List Event) (s : AsyncLogging),
      Along step Lossless construct (es₀ ++ .stop :: es₁ ++ .clear :: es₂ ++ [.join]) →
      run step construct (es₀ ++ .stop :: es₁ ++ .clear :: es₂ ++ [.join]) = some s →
      (appended es₀).flatten <+: (handed s.output).flatten := by
  intro h
  have hout : (run step construct ([.start, .enter, .append [97, 10]] ++ .stop :: [] ++
      .clear :: [.test, .notify] ++ [.join])).map AsyncLogging.output = some [] := by decide +kernel
  obtain ⟨s, hs, hempty⟩ := Option.map_eq_some_iff.mp hout
  have hlost := h [.start, .enter, .append [97, 10]] [] [.test, .notify] s (by decide +kernel) hs
  rw [hempty] at hlost
  exact absurd hlost (by decide)

end XWeb.Base.AsyncLogging
