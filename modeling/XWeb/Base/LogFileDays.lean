import XWeb.Base.LogFile

/-!
# The file of the day

The constructor opens a file only if what the memory holds for `lastRoll_` is earlier than the
time, and a new day is noticed when `count_`, which begins with what the memory holds, comes to
`checkEveryN_`, or when the file is full.

* `stale`: how many lines have been appended after a day has begun to a file of an earlier day.
* `Punctual`: the lines of each day that went to the open file are counted by `count_`.
* `right_file_iff`: exactly which memory makes every run right.
-/

namespace XWeb.Base

open XWeb.Lib LogFile

namespace LogRun

/-- A file that is named for a day before `D`. -/
def NamedBefore (c : LogConfig) (D : ℕ) (path : Bytes) : Prop :=
  ∃ d < D, path = getLogFileName c (d * kRollPerSeconds)

instance (c : LogConfig) (D : ℕ) (path : Bytes) : Decidable (NamedBefore c D path) :=
  inferInstanceAs (Decidable (∃ d < D, _))

/-- The line was appended on the day `D` or later to a file of an earlier day. -/
def Stale (c : LogConfig) (D : ℕ) (a : ℤ × Bytes) : Prop :=
  (D : ℤ) ≤ a.1 / kRollPerSeconds ∧ NamedBefore c D a.2

instance (c : LogConfig) (D : ℕ) : DecidablePred (Stale c D) :=
  fun _ => inferInstanceAs (Decidable (_ ∧ _))

def stale (c : LogConfig) (s : LogRun) (D : ℕ) : ℕ := s.appended.countP fun a => Stale c D a

/-- Times do not go back. -/
def InOrder (s : LogRun) (e : LogAppend) : Prop := s.clock ≤ e.now

instance (s : LogRun) (e : LogAppend) : Decidable (s.InOrder e) :=
  inferInstanceAs (Decidable (_ ≤ _))

/-- `file_` is not null when a line is appended. -/
def Open (s : LogRun) (_ : LogAppend) : Prop := s.logFile.file ≠ none

/-- After the beginning of a day at most `checkEveryN_` lines go to a file of an earlier day. -/
def Prompt (c : LogConfig) (s : LogRun) : Prop := ∀ D, (s.stale c D : ℤ) ≤ c.checkEveryN

variable {c : LogConfig} {m : LogMemory} {disk : Disk} {t₀ : ℤ}

theorem namedBefore_iff {t : ℤ} (ht : 0 ≤ t) (D : ℕ) :
    NamedBefore c D (getLogFileName c t) ↔ t / kRollPerSeconds < D := by
  have hnonneg : 0 ≤ t / kRollPerSeconds := Int.ediv_nonneg ht (by decide)
  constructor
  · rintro ⟨d, hd, hname⟩
    rw [getLogFileName_eq_iff, Int.mul_ediv_cancel _ (by decide)] at hname
    omega
  · intro hlt
    refine ⟨(t / kRollPerSeconds).toNat, by omega, ?_⟩
    rw [getLogFileName_eq_iff, Int.mul_ediv_cancel _ (by decide)]
    omega

/-- A line that is appended to the file of the day of `t`. -/
theorem stale_append {s s' : LogRun} {t now : ℤ} (ht : 0 ≤ t)
    (happended : s'.appended = (now, getLogFileName c t) :: s.appended) (D : ℕ) :
    s'.stale c D = s.stale c D +
      if t / kRollPerSeconds < D ∧ (D : ℤ) ≤ now / kRollPerSeconds then 1 else 0 := by
  unfold stale
  rw [happended, List.countP_cons]
  simp only [Stale, namedBefore_iff ht, decide_eq_true_eq, and_comm]

/-- The lines of the day `D` that went to the open file of an earlier day have been counted, and
    there are fewer than `checkEveryN_`; with a negative `rollSize_` there are none. -/
structure Punctual (c : LogConfig) (s : LogRun) (f : AppendFile) : Prop where
  dated : Dated c s f
  times : ∀ a ∈ s.appended, a.1 ≤ s.clock
  count : 0 ≤ c.rollSize → 0 ≤ s.logFile.count ∧ s.logFile.count < 2 ^ 31 - 1
  prompt : Prompt c s
  current : ∀ D : ℕ, s.logFile.lastRoll / kRollPerSeconds < D → s.stale c D = 0 ∨
    0 ≤ c.rollSize ∧ s.stale c D < c.checkEveryN ∧ s.stale c D ≤ s.logFile.count

/-- Of a day that has not begun there is nothing. -/
theorem stale_eq_zero {s : LogRun} (h : ∀ a ∈ s.appended, a.1 ≤ s.clock) {D : ℕ}
    (hD : s.clock / kRollPerSeconds < D) : s.stale c D = 0 := by
  refine List.countP_eq_zero.mpr fun a ha => ?_
  have hle : a.1 / kRollPerSeconds ≤ s.clock / kRollPerSeconds := Int.ediv_le_ediv (by decide) (h a ha)
  intro hstale
  obtain ⟨hD', -⟩ := of_decide_eq_true hstale
  omega

theorem start_punctual (disk : Disk) (hN : 1 ≤ c.checkEveryN) (h : m.lastRoll.toInt < t₀) (ht : 0 < t₀)
    (hcount : 0 ≤ c.rollSize → 0 ≤ m.count.toInt ∧ m.count.toInt < 2 ^ 31 - 1) :
    ∃ f, Punctual c (start c m disk t₀) f := by
  refine ⟨_, start_dated h ht, ?_, ?_, ?_, ?_⟩
  · rw [start_of_lt h]
    exact fun a ha => absurd ha List.not_mem_nil
  · rw [start_of_lt h]
    exact hcount
  · intro D
    rw [start_of_lt h]
    show ((0 : ℕ) : ℤ) ≤ c.checkEveryN
    omega
  · intro D _
    rw [start_of_lt h]
    exact .inl rfl

/-- The line of `e` is at the time `e.now`, which no line before it is behind. -/
theorem Punctual.times_append {s s' : LogRun} {e : LogAppend} {f : AppendFile} {path : Bytes}
    (h : Punctual c s f) (hnow : InOrder s e) (hclock : s'.clock = e.now)
    (happended : s'.appended = (e.now, path) :: s.appended) :
    ∀ a ∈ s'.appended, a.1 ≤ s'.clock := by
  rw [happended, hclock]
  intro a ha
  rcases List.mem_cons.mp ha with rfl | ha
  · exact Int.le_refl _
  · exact Int.le_trans (h.times a ha) hnow

/-- A line more of a day that begins after the open file's is still one of at most `checkEveryN_`. -/
theorem Punctual.prompt_append {s s' : LogRun} {e : LogAppend} {f : AppendFile}
    (h : Punctual c s f) (hN : 1 ≤ c.checkEveryN)
    (happended : s'.appended = (e.now, getLogFileName c s.logFile.lastRoll) :: s.appended) :
    Prompt c s' := by
  intro D
  rw [stale_append (Int.le_of_lt h.dated.positive) happended]
  have hold := h.prompt D
  split_ifs with hD
  · rcases h.current D hD.1 with hzero | ⟨-, hlt, -⟩
    · rw [hzero]
      omega
    · omega
  · exact hold

theorem step_punctual (hN : 1 ≤ c.checkEveryN) {s : LogRun} {e : LogAppend} {f : AppendFile}
    (h : Punctual c s f) (hnow : InOrder s e) :
    ∃ s', step c s e = some s' ∧ ∃ f', Punctual c s' f' := by
  obtain ⟨s', hs', hclock, happended, ⟨f', hdated⟩, hcases⟩ := step_spec h.dated hnow
  refine ⟨s', hs', f', ?_⟩
  have hpositive := h.dated.positive
  have hlast : s.logFile.lastRoll ≤ e.now := Int.le_trans h.dated.clock hnow
  have hstale := stale_append (c := c) (Int.le_of_lt hpositive) (h.dated.path ▸ happended)
  have htimes := h.times_append hnow hclock happended
  have hprompt := h.prompt_append hN (h.dated.path ▸ happended)
  -- when the open file is that of the day, nothing is stale yet
  have htoday : s'.logFile.lastRoll / kRollPerSeconds = e.now / kRollPerSeconds →
      ∀ D : ℕ, s'.logFile.lastRoll / kRollPerSeconds < D → s'.stale c D = 0 := by
    intro hday D hD
    exact stale_eq_zero htimes (by rw [hclock, ← hday]; exact hD)
  cases hcases with
  | counted size count eq same =>
    have hroll : 0 ≤ c.rollSize := by omega
    obtain ⟨hzero, hmax⟩ := h.count hroll
    have hint : toInt (s.logFile.count + 1) = s.logFile.count + 1 :=
      toInt_of_le_of_lt (by omega) (by omega)
    rw [hint] at eq count
    have hN' := c.checkEveryN_lt
    have hcount : s'.logFile.count = s.logFile.count + 1 := by rw [eq]
    have hroll' : s'.logFile.lastRoll = s.logFile.lastRoll := by rw [eq]
    refine ⟨hdated, htimes, fun _ => by omega, hprompt, fun D hD => .inr ⟨hroll, ?_⟩⟩
    rw [hroll'] at hD
    rw [hcount, hstale]
    rcases h.current D hD with hnone | ⟨-, hlt, hle⟩
    · split_ifs <;> omega
    · split_ifs <;> omega
  | checked size period lastFlush eq same =>
    have hcount : s'.logFile.count = 0 := by rw [eq]
    have hroll' : s'.logFile.lastRoll = s.logFile.lastRoll := by rw [eq]
    rw [h.dated.period, startOfDay_eq_iff (by omega) (by omega)] at period
    exact ⟨hdated, htimes, fun _ => by omega, hprompt,
      fun D hD => .inl (htoday (by rw [hroll', period]) D hD)⟩
  | refused late count le eq same =>
    have hcount : s'.logFile.count = count := by rw [eq]
    have hroll' : s'.logFile.lastRoll = s.logFile.lastRoll := by rw [eq]
    have hsame : s.logFile.lastRoll = e.now := Int.le_antisymm hlast late
    refine ⟨hdated, htimes, fun hroll => ?_, hprompt,
      fun D hD => .inl (htoday (by rw [hroll', hsame]) D hD)⟩
    have hold := h.count hroll
    omega
  | rolled later reason count le eq made =>
    have hcount : s'.logFile.count = count := by rw [eq]
    refine ⟨hdated, htimes, fun hroll => ?_, hprompt, fun D hD => .inl (htoday (by rw [eq]) D hD)⟩
    have hold := h.count hroll
    omega

/-! ## Memory that goes wrong -/

/-- An empty line at the time `t`. -/
def emptyLine (t : ℤ) : LogAppend := ⟨[], t, [0]⟩

/-- `k` empty lines at the time `t` have been appended to a file of the day of `t₀`, and `count_`
    is too small. -/
structure Behind (c : LogConfig) (t₀ t : ℤ) (k : ℕ) (s : LogRun) : Prop where
  file : ∃ f, s.logFile.file = some f ∧ f.path = getLogFileName c t₀ ∧ f.writtenBytes = 0
  clock : s.clock ≤ t
  appended : s.appended = List.replicate k (t, getLogFileName c t₀)
  count : toInt (s.logFile.count + 1) ≤ k

/-- One more line, as long as there are not `checkEveryN_`. -/
theorem step_behind {t₀ t : ℤ} {k : ℕ} {s : LogRun} (h : Behind c t₀ t k s) (hroll : 0 ≤ c.rollSize)
    (hk : k < c.checkEveryN) :
    ∃ s', step c s (emptyLine t) = some s' ∧ Behind c t₀ t (k + 1) s' := by
  obtain ⟨f, hf, hpath, hwritten⟩ := h.file
  have hcount := h.count
  have hN := c.checkEveryN_lt
  have hlow : -2 ^ 31 ≤ toInt (s.logFile.count + 1) := by
    unfold toInt
    have hle := Int.le_bmod (x := s.logFile.count + 1) (m := 2 ^ 32) (by decide)
    omega
  have hnext : toInt (toInt (s.logFile.count + 1) + 1) = toInt (s.logFile.count + 1) + 1 :=
    toInt_of_le_of_lt (by omega) (by omega)
  have happend := appendUnlocked_counted (c := c) hf s.disk (emptyLine t).line t (emptyLine t).fwrite
    (by simpa [emptyLine, hwritten] using hroll) (by omega)
  have hs' : step c s (emptyLine t) = some
      { logFile :=
          { s.logFile with
            file := some (f.append s.disk (emptyLine t).line (emptyLine t).fwrite).1
            count := toInt (s.logFile.count + 1) }
        disk := (f.append s.disk (emptyLine t).line (emptyLine t).fwrite).2
        clock := t
        appended := (t, f.path) :: s.appended } := by
    rw [step, hf, Option.bind_some]
    exact congrArg (Option.map _) happend
  refine ⟨_, hs', ⟨_, rfl, hpath, ?_⟩, Int.le_refl _, ?_, ?_⟩
  · simp [AppendFile.append, emptyLine, hwritten]
  · rw [h.appended, hpath, List.replicate_succ]
  · show toInt (toInt (s.logFile.count + 1) + 1) ≤ ((k + 1 : ℕ) : ℤ)
    omega

theorem start_behind (h : m.lastRoll.toInt < t₀) (hcount : toInt (m.count.toInt + 1) ≤ 0) {t : ℤ}
    (ht : t₀ ≤ t) :
    Behind c t₀ t 0 (start c m disk t₀) := by
  rw [start_of_lt h]
  refine ⟨⟨_, rfl, AppendFile.construct_path _ _, ?_⟩, ht, rfl, hcount⟩
  unfold AppendFile.construct
  split <;> rfl

theorem run_behind (disk : Disk) (h : m.lastRoll.toInt < t₀)
    (hcount : toInt (m.count.toInt + 1) ≤ 0) {t : ℤ} (ht : t₀ ≤ t)
    (hroll : 0 ≤ c.rollSize) (k : ℕ) (hk : k ≤ c.checkEveryN) :
    ∃ s, run (step c) (start c m disk t₀) (List.replicate k (emptyLine t)) = some s ∧
      Behind c t₀ t k s := by
  induction k with
  | zero => exact ⟨_, rfl, start_behind h hcount ht⟩
  | succ k ih =>
    obtain ⟨s, hrun, hs⟩ := ih (by omega)
    obtain ⟨s', hstep, hs'⟩ := step_behind hs hroll (by omega)
    refine ⟨s', ?_, hs'⟩
    rw [List.replicate_succ']
    exact run_concat hrun hstep

/-- A line goes to the file that is open, whatever happens then. -/
theorem step_appended {s : LogRun} {f : AppendFile} (hf : s.logFile.file = some f) (e : LogAppend) :
    ∃ s', step c s e = some s' ∧ s'.appended = (e.now, f.path) :: s.appended := by
  obtain ⟨l', disk', happend, -⟩ := appendUnlocked_spec (c := c) hf s.disk e.line e.now e.fwrite
  exact ⟨_, by rw [step, hf, Option.bind_some, happend]; rfl, rfl⟩

/-- `checkEveryN_ + 1` lines of the next day in a file of `t₀`. -/
theorem stale_replicate (ht : 0 ≤ t₀) {s : LogRun} {k : ℕ}
    (h : s.appended = List.replicate k (t₀ + kRollPerSeconds, getLogFileName c t₀)) :
    s.stale c (t₀ / kRollPerSeconds + 1).toNat = k := by
  have hnonneg : 0 ≤ t₀ / kRollPerSeconds := Int.ediv_nonneg ht (by decide)
  have hnext : (t₀ + kRollPerSeconds) / kRollPerSeconds = t₀ / kRollPerSeconds + 1 :=
    Int.add_ediv_of_dvd_right (Int.dvd_refl _) |>.trans rfl
  have hstale : Stale c (t₀ / kRollPerSeconds + 1).toNat
      (t₀ + kRollPerSeconds, getLogFileName c t₀) := by
    refine ⟨?_, (namedBefore_iff ht _).mpr (by omega)⟩
    show _ ≤ (t₀ + kRollPerSeconds) / kRollPerSeconds
    rw [hnext]
    omega
  unfold stale
  rw [h, List.countP_replicate, if_pos (decide_eq_true hstale)]

theorem not_prompt (disk : Disk) (h : m.lastRoll.toInt < t₀) (ht : 0 < t₀) (hN : 1 ≤ c.checkEveryN)
    (hcount : toInt (m.count.toInt + 1) ≤ 0) (hroll : 0 ≤ c.rollSize) :
    ∃ s, run (step c) (start c m disk t₀)
      (List.replicate (c.checkEveryN.toNat + 1) (emptyLine (t₀ + kRollPerSeconds))) = some s ∧
        ¬ Prompt c s := by
  have hday : t₀ ≤ t₀ + kRollPerSeconds := Int.le_add_of_nonneg_right (by decide)
  obtain ⟨s, hrun, hs⟩ :=
    run_behind (c := c) disk h hcount hday hroll c.checkEveryN.toNat (by omega)
  obtain ⟨f, hf, hpath, -⟩ := hs.file
  obtain ⟨s', hstep, happended⟩ := step_appended (c := c) hf (emptyLine (t₀ + kRollPerSeconds))
  refine ⟨s', ?_, fun hprompt => ?_⟩
  · rw [List.replicate_succ']
    exact run_concat hrun hstep
  · have happended' : s'.appended = List.replicate (c.checkEveryN.toNat + 1)
        (t₀ + kRollPerSeconds, getLogFileName c t₀) := by
      rw [happended, hs.appended, hpath, List.replicate_succ]
      rfl
    have hle := hprompt (t₀ / kRollPerSeconds + 1).toNat
    rw [stale_replicate (Int.le_of_lt ht) happended'] at hle
    omega

/-! ## Which memory is right -/

theorem inOrder_replicate {t : ℤ} (k : ℕ) :
    ∀ s : LogRun, s.clock ≤ t → Along (step c) InOrder s (List.replicate k (emptyLine t)) := by
  induction k with
  | zero => intro s _; trivial
  | succ k ih =>
    intro s hs
    refine ⟨hs, fun s' hs' => ih s' ?_⟩
    obtain ⟨f, -, hmap⟩ := Option.bind_eq_some_iff.mp hs'
    obtain ⟨r, -, rfl⟩ := Option.map_eq_some_iff.mp hmap
    exact Int.le_refl _

theorem toInt_succ_le_zero (count : BitVec 32) (h : ¬ (0 ≤ count.toInt ∧ count.toInt < 2 ^ 31 - 1)) :
    toInt (count.toInt + 1) ≤ 0 := by
  have hlow := BitVec.le_two_mul_toInt (x := count)
  have hhigh := BitVec.two_mul_toInt_lt (x := count)
  by_cases hneg : count.toInt < 0
  · rw [toInt_of_le_of_lt (by omega) (by omega)]
    omega
  · have hmax : count.toInt = 2 ^ 31 - 1 := by omega
    rw [hmax]
    decide

/-- **Whether the right file is open depends on the memory.** For every memory in which a
    `LogFile` is constructed, and every positive `checkEveryN_`: in every run of `append` at times
    that do not go back, `file_` is never null, and after the beginning of a day at most
    `checkEveryN_` lines go to a file of an earlier day, if and only if `lastRoll_` happens to be
    earlier than the time of construction and, unless `rollSize_` is negative and every line makes
    the file too large, `count_` is neither negative nor the largest `int`. -/
theorem right_file_iff (hN : 1 ≤ c.checkEveryN) (ht : 0 < t₀) :
    (∀ es, Along (step c) InOrder (start c m disk t₀) es →
      Along (step c) Open (start c m disk t₀) es ∧
        Throughout (step c) (Prompt c) (start c m disk t₀) es) ↔
    m.lastRoll.toInt < t₀ ∧ (0 ≤ c.rollSize → 0 ≤ m.count.toInt ∧ m.count.toInt < 2 ^ 31 - 1) := by
  constructor
  · intro hall
    have hlast : m.lastRoll.toInt < t₀ := by
      by_contra hlate
      have hclock : (start c m disk t₀).clock ≤ t₀ := Int.le_refl _
      have hopen := (hall [emptyLine t₀] (inOrder_replicate 1 _ hclock)).1
      exact hopen.1 (start_of_le (Int.not_lt.mp hlate))
    refine ⟨hlast, fun hroll => ?_⟩
    by_contra hcount
    obtain ⟨s, hrun, hlate⟩ :=
      not_prompt (c := c) disk hlast ht hN (toInt_succ_le_zero m.count hcount) hroll
    have hclock : (start c m disk t₀).clock ≤ t₀ + kRollPerSeconds :=
      Int.le_add_of_nonneg_right (by decide)
    exact hlate ((hall _ (inOrder_replicate _ _ hclock)).2 _ s (List.prefix_refl _) hrun)
  · rintro ⟨hlast, hcount⟩ es hes
    have hstart := start_punctual disk hN hlast ht hcount
    have hstep : ∀ s e s', (∃ f, Punctual c s f) → InOrder s e → step c s e = some s' →
        ∃ f, Punctual c s' f := by
      rintro s e s' ⟨f, hf⟩ horder hs'
      obtain ⟨t, ht, hpunctual⟩ := step_punctual hN hf horder
      rwa [Option.some.inj (hs'.symm.trans ht)]
    constructor
    · refine along_of_invariant (fun s e hs _ => ?_) hstep es _ hstart hes
      obtain ⟨f, hf⟩ := hs
      unfold Open
      rw [hf.dated.file]
      exact Option.some_ne_none f
    · exact throughout_of_invariant hstep (fun s hs => hs.choose_spec.prompt) hstart hes

/-- One line on the first day and two on the second. -/
def sampleAppends : List LogAppend :=
  [⟨ascii "up\n", 200, [3]⟩, ⟨ascii "day 2\n", 90000, [4, 2]⟩, ⟨ascii "down\n", 90001, [5]⟩]

/-- In memory that is zero, the first two lines go to the file of the first day. -/
theorem right_file_sample :
    Along (step .sample) Open (start .sample .zero (fun _ => none) 100) sampleAppends ∧
      Throughout (step .sample) (Prompt .sample) (start .sample .zero (fun _ => none) 100)
        sampleAppends :=
  (right_file_iff (by decide) (by decide)).mpr ⟨by decide, fun _ => by decide⟩ sampleAppends
    (by decide +kernel)

/-- With `lastRoll_ = 100` a `LogFile` that is constructed at the time `100` opens no file. -/
theorem no_file_open :
    ¬ ∀ (c : LogConfig) (m : LogMemory) (disk : Disk) (t₀ : ℤ) (es : List LogAppend),
      1 ≤ c.checkEveryN → 0 < t₀ → Along (step c) InOrder (start c m disk t₀) es →
      Along (step c) Open (start c m disk t₀) es ∧
        Throughout (step c) (Prompt c) (start c m disk t₀) es := by
  intro hall
  have hopen := (hall .sample ⟨0, 100, 0, 0⟩ (fun _ => none) 100 [emptyLine 100] (by decide)
    (by decide) (inOrder_replicate 1 _ (by decide))).1
  exact hopen.1 rfl

end LogRun

end XWeb.Base
