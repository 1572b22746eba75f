import XWeb.Base.LogFileDays
import Mathlib.Data.List.Flatten

/-!
# The files of a log, in the order of their days

The name of a file of `LogFile` tells the day of the roll that has opened it and nothing else, so a
roll on the day of the last one opens the same file again, behind what is there. As long as the
times do not go back the days grow, and what is appended to a file is appended in one piece of the
run.

* `LogAppend.accepted`: what the file gets of a line.
* `Filed`: a disk to which volumes have been added, one for each day.
* `run_filed`: read in the order of the days, the volumes are the lines of the run.
-/

namespace XWeb.Base

open XWeb.Lib LogFile

/-- What the calls of `fwrite` accept of the line. -/
def LogAppend.accepted (e : LogAppend) : Bytes :=
  e.line.take (AppendFile.written e.line.length e.fwrite)

/-- The lines of a file, none if there is no file. -/
def linesOf (disk : Disk) (path : Bytes) : List Bytes := (disk path).getD []

namespace AppendFile

theorem construct_self (disk : Disk) (path : Bytes) :
    (construct disk path).2 path = some (linesOf disk path) := by
  unfold construct linesOf
  cases hfile : disk path with
  | some lines => exact hfile
  | none => exact Function.update_self _ _ _

theorem construct_of_ne {disk : Disk} {path path' : Bytes} (h : path' ≠ path) :
    (construct disk path).2 path' = disk path' := by
  unfold construct
  split
  · rfl
  · exact Function.update_of_ne h _ _

end AppendFile

namespace LogRun

/-- The file of a day. -/
def dayFile (c : LogConfig) (day : ℤ) : Bytes := getLogFileName c (day * kRollPerSeconds)

/-- A day, and what has been appended to its file. -/
structure Volume where
  day : ℤ
  lines : List Bytes

def Volume.append (v : Volume) (line : Bytes) : Volume := { v with lines := v.lines ++ [line] }

/-- The volumes have been added to the files of `disk₀`, one for each of some days. -/
structure Filed (c : LogConfig) (disk₀ disk : Disk) (volumes : List Volume) : Prop where
  days : volumes.Pairwise fun v w => v.day < w.day
  held : ∀ v ∈ volumes,
    disk (dayFile c v.day) = some (linesOf disk₀ (dayFile c v.day) ++ v.lines)
  others : ∀ path, (∀ v ∈ volumes, path ≠ dayFile c v.day) → disk path = disk₀ path

variable {c : LogConfig} {m : LogMemory} {disk₀ disk : Disk} {t₀ : ℤ}

theorem getLogFileName_eq_dayFile (c : LogConfig) (t : ℤ) :
    getLogFileName c t = dayFile c (t / kRollPerSeconds) := by
  rw [dayFile, getLogFileName_eq_iff, Int.mul_ediv_cancel _ (by decide)]

theorem dayFile_eq_iff (d d' : ℤ) : dayFile c d = dayFile c d' ↔ d = d' := by
  rw [dayFile, dayFile, getLogFileName_eq_iff, Int.mul_ediv_cancel _ (by decide),
    Int.mul_ediv_cancel _ (by decide)]

/-! ## One volume more, one line more -/

theorem filed_nil (c : LogConfig) (disk : Disk) : Filed c disk disk [] where
  days := .nil
  held := fun _ hv => absurd hv List.not_mem_nil
  others := fun _ _ => rfl

/-- A file is opened on a day after those of the volumes. -/
theorem Filed.openDay {volumes : List Volume} (h : Filed c disk₀ disk volumes) {day : ℤ}
    (hday : ∀ v ∈ volumes, v.day < day) :
    Filed c disk₀ (AppendFile.construct disk (dayFile c day)).2 (volumes ++ [⟨day, []⟩]) := by
  have hfresh : ∀ v ∈ volumes, dayFile c day ≠ dayFile c v.day := by
    intro v hv heq
    rw [dayFile_eq_iff] at heq
    exact absurd (hday v hv) (heq ▸ Int.lt_irrefl _)
  have hold : disk (dayFile c day) = disk₀ (dayFile c day) := h.others _ hfresh
  refine ⟨List.pairwise_append.mpr ⟨h.days, List.pairwise_singleton _ _, ?_⟩, ?_, ?_⟩
  · intro v hv w hw
    obtain rfl := List.mem_singleton.mp hw
    exact hday v hv
  · intro v hv
    rcases List.mem_append.mp hv with hv | hv
    · rw [AppendFile.construct_of_ne (hfresh v hv).symm, h.held v hv]
    · obtain rfl := List.mem_singleton.mp hv
      rw [AppendFile.construct_self, linesOf, hold, List.append_nil, linesOf]
  · intro path hpath
    rw [AppendFile.construct_of_ne (hpath ⟨day, []⟩ (by simp))]
    exact h.others path fun v hv => hpath v (List.mem_append_left _ hv)

/-- The file of the last volume is opened again. -/
theorem Filed.reopen {volumes : List Volume} {v : Volume} (h : Filed c disk₀ disk volumes)
    (hv : v ∈ volumes) : (AppendFile.construct disk (dayFile c v.day)).2 = disk := by
  unfold AppendFile.construct
  rw [h.held v hv]

/-- A line is appended to the file of the last volume. -/
theorem Filed.append {older : List Volume} {today : Volume} (h : Filed c disk₀ disk (older ++ [today]))
    (line : Bytes) :
    Filed c disk₀
      (Function.update disk (dayFile c today.day)
        ((disk (dayFile c today.day)).map fun lines => lines ++ [line]))
      (older ++ [today.append line]) := by
  obtain ⟨hdays, -, hlt⟩ := List.pairwise_append.mp h.days
  refine ⟨List.pairwise_append.mpr ⟨hdays, List.pairwise_singleton _ _, ?_⟩, ?_, ?_⟩
  · intro v hv w hw
    obtain rfl := List.mem_singleton.mp hw
    exact hlt v hv today (by simp)
  · intro v hv
    rcases List.mem_append.mp hv with hv | hv
    · have hne : dayFile c v.day ≠ dayFile c today.day := by
        intro heq
        rw [dayFile_eq_iff] at heq
        exact absurd (hlt v hv today (by simp)) (heq ▸ Int.lt_irrefl _)
      rw [Function.update_of_ne hne, h.held v (List.mem_append_left _ hv)]
    · obtain rfl := List.mem_singleton.mp hv
      rw [Volume.append, Function.update_self, h.held today (by simp), Option.map_some,
        List.append_assoc]
  · intro path hpath
    have hne : path ≠ dayFile c today.day := hpath (today.append line) (by simp)
    rw [Function.update_of_ne hne]
    refine h.others path fun v hv => ?_
    rcases List.mem_append.mp hv with hv | hv
    · exact hpath v (List.mem_append_left _ hv)
    · obtain rfl := List.mem_singleton.mp hv
      exact hne

/-! ## Runs -/

/-- The open file is the one of the last volume, and the volumes hold `lines`. -/
structure Filing (c : LogConfig) (disk₀ : Disk) (s : LogRun) (lines : List Bytes) : Prop where
  dated : ∃ f, Dated c s f
  filed : ∃ older today, Filed c disk₀ s.disk (older ++ [today]) ∧
    today.day = s.logFile.lastRoll / kRollPerSeconds ∧
    (older ++ [today]).flatMap Volume.lines = lines

theorem start_filing (disk : Disk) (h : m.lastRoll.toInt < t₀) (ht : 0 < t₀) :
    Filing c disk (start c m disk t₀) [] := by
  refine ⟨⟨_, start_dated h ht⟩, [], ⟨t₀ / kRollPerSeconds, []⟩, ?_, ?_, rfl⟩
  · rw [start_of_lt h, getLogFileName_eq_dayFile]
    exact (filed_nil c disk).openDay fun v hv => absurd hv List.not_mem_nil
  · rw [start_of_lt h]

/-- A line goes to the last volume, and a roll on a later day begins another one. -/
theorem step_filing {s : LogRun} {lines : List Bytes} {e : LogAppend} (h : Filing c disk₀ s lines)
    (hnow : InOrder s e) :
    ∃ s', step c s e = some s' ∧ s'.clock = e.now ∧
      Filing c disk₀ s' (lines ++ [e.accepted]) := by
  obtain ⟨f, hdated⟩ := h.dated
  obtain ⟨older, today, hfiled, hday, hlines⟩ := h.filed
  obtain ⟨s', hs', hclock, -, hdated', hcases⟩ := step_spec hdated hnow
  have hpath : f.path = dayFile c today.day := by
    rw [hdated.path, getLogFileName_eq_dayFile, hday]
  -- the disk with the line in the open file
  have hwritten : Filed c disk₀ (f.append s.disk e.line e.fwrite).2
      (older ++ [today.append e.accepted]) := by
    rw [AppendFile.append, hpath]
    exact hfiled.append e.accepted
  have hflat : (older ++ [today.append e.accepted]).flatMap Volume.lines =
      lines ++ [e.accepted] := by
    rw [← hlines]
    simp [List.flatMap_append, Volume.append]
  have hsame : s'.disk = (f.append s.disk e.line e.fwrite).2 →
      s'.logFile.lastRoll = s.logFile.lastRoll → Filing c disk₀ s' (lines ++ [e.accepted]) := by
    intro hdisk hroll
    refine ⟨hdated', older, today.append e.accepted, ?_, ?_, hflat⟩
    · rw [hdisk]
      exact hwritten
    · rw [hroll]
      exact hday
  refine ⟨s', hs', hclock, ?_⟩
  cases hcases with
  | counted size count eq same => exact hsame same (by rw [eq])
  | checked size period lastFlush eq same => exact hsame same (by rw [eq])
  | refused late count le eq same => exact hsame same (by rw [eq])
  | rolled later reason count le eq made =>
    have hle : today.day ≤ e.now / kRollPerSeconds := by
      rw [hday]
      exact Int.ediv_le_ediv (by decide) (Int.le_of_lt later)
    rw [getLogFileName_eq_dayFile] at made
    rcases Int.lt_or_eq_of_le hle with hlt | heq
    · -- a new day
      refine ⟨hdated', older ++ [today.append e.accepted],
        ⟨e.now / kRollPerSeconds, []⟩, ?_, by rw [eq], ?_⟩
      · rw [made]
        refine hwritten.openDay fun v hv => ?_
        rcases List.mem_append.mp hv with hv | hv
        · have hbefore := (List.pairwise_append.mp hfiled.days).2.2 v hv today (by simp)
          omega
        · obtain rfl := List.mem_singleton.mp hv
          exact hlt
      · rw [List.flatMap_append, hflat]
        simp
    · refine ⟨hdated', older, today.append e.accepted, ?_, ?_, hflat⟩
      · have hreopen := hwritten.reopen (v := today.append e.accepted) (by simp)
        rw [made, ← heq]
        exact hreopen.symm ▸ hwritten
      · rw [eq]
        exact heq

/-- Times that grow. -/
theorem inOrder_of_pairwise (es : List LogAppend) :
    ∀ s : LogRun, (s.clock :: es.map LogAppend.now).Pairwise (· ≤ ·) →
      Along (step c) InOrder s es := by
  induction es with
  | nil => intro s _; trivial
  | cons e es ih =>
    intro s h
    obtain ⟨hle, hrest⟩ := List.pairwise_cons.mp h
    refine ⟨hle e.now (by simp), fun s' hs' => ih s' ?_⟩
    obtain ⟨f, -, hmap⟩ := Option.bind_eq_some_iff.mp hs'
    obtain ⟨r, -, rfl⟩ := Option.map_eq_some_iff.mp hmap
    exact hrest

theorem foldl_accepted (es : List LogAppend) :
    es.foldl (fun lines e => lines ++ [e.accepted]) [] = es.map LogAppend.accepted := by
  rw [List.map_eq_flatMap, List.flatMap_eq_foldl]

/-- **The files of a log.** For every log whose file is opened and every run of `append` at times
    that do not go back: the disk is the old one with one volume for each of some days, every line
    is in the volume of one day, and the volumes one behind the other, in the order of the days,
    are what the lines of the run left, in the order of the run. -/
theorem volumes_in_order (h : m.lastRoll.toInt < t₀) (ht : 0 < t₀) (es : List LogAppend)
    (hes : Along (step c) InOrder (start c m disk t₀) es) :
    ∃ s volumes, run (step c) (start c m disk t₀) es = some s ∧ Filed c disk s.disk volumes ∧
      volumes.flatMap Volume.lines = es.map LogAppend.accepted := by
  have hrun := run_refines (fun lines e => lines ++ [e.accepted]) (Filing c disk)
    (fun s lines e hs hnow => by
      obtain ⟨s', hs', -, hfiling⟩ := step_filing hs hnow
      exact ⟨s', hs', hfiling⟩) es _ _ (start_filing disk h ht) hes
  obtain ⟨s, hs, hfiling⟩ := hrun
  rw [foldl_accepted] at hfiling
  obtain ⟨older, today, hfiled, -, hlines⟩ := hfiling.filed
  exact ⟨s, older ++ [today], hs, hfiled, hlines⟩

/-- A line on each of two days. -/
theorem volumes_in_order_sample :
    ∃ s volumes, run (step .sample) (start .sample .zero (fun _ => none) 1)
        [⟨[97, 10], 1, [2]⟩, ⟨[98, 10], 86401, [2]⟩] = some s ∧
      Filed .sample (fun _ => none) s.disk volumes ∧
      volumes.flatMap Volume.lines = [[97, 10], [98, 10]] :=
  volumes_in_order (by decide) (by decide) [⟨[97, 10], 1, [2]⟩, ⟨[98, 10], 86401, [2]⟩]
    (inOrder_of_pairwise _ _ (by simp [start_of_lt (m := .zero) (show _ < 1 by decide)]))

end LogRun

end XWeb.Base
