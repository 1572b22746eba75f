import XWeb.Base.LogFile

/-!
# The size of the log files

`append_unlocked` compares `rollSize_` with what has been written since `file_` was opened, and a
roll on the day of the open file opens the same file again, at its end.

* `Bounded`: no file holds more than `rollSize_` bytes and its last line.
* `Sized`: what `writtenBytes_` says about the open file, and which files exist.
* `bounded_iff`: exactly which runs keep the files small.
-/

namespace XWeb.Base

open XWeb.Lib LogFile

/-- The bytes in a file. -/
def total (lines : List Bytes) : ℕ := (lines.map List.length).sum

@[simp] theorem total_nil : total [] = 0 := rfl

@[simp] theorem total_concat (lines : List Bytes) (line : Bytes) :
    total (lines ++ [line]) = total lines + line.length := by
  simp [total]

namespace Disk

/-- No file holds more than `rollSize` bytes and its last line. -/
def Bounded (rollSize : ℤ) (disk : Disk) : Prop :=
  ∀ path lines line, disk path = some (lines ++ [line]) →
    (total (lines ++ [line]) : ℤ) ≤ rollSize + line.length

/-- A file that `fopen` creates is empty. -/
theorem construct_some_iff (disk : Disk) (path path' : Bytes) (lines : List Bytes) :
    (AppendFile.construct disk path).2 path' = some lines ↔
      disk path' = some lines ∨ disk path = none ∧ path' = path ∧ lines = [] := by
  unfold AppendFile.construct
  cases hdisk : disk path with
  | some _ => simp
  | none =>
    rcases eq_or_ne path' path with rfl | hne
    · simp [hdisk, eq_comm]
    · simp [hne]

theorem bounded_construct (rollSize : ℤ) (disk : Disk) (path : Bytes) :
    Bounded rollSize (AppendFile.construct disk path).2 ↔ Bounded rollSize disk := by
  constructor
  · intro h path' lines line hlines
    exact h path' lines line ((construct_some_iff ..).mpr (.inl hlines))
  · intro h path' lines line hlines
    rcases (construct_some_iff ..).mp hlines with hold | ⟨-, -, hnil⟩
    · exact h path' lines line hold
    · exact absurd hnil (by simp)

/-- A line at the end of a file. -/
theorem bounded_append {rollSize : ℤ} {disk : Disk} {path : Bytes} (h : Bounded rollSize disk)
    (lines : List Bytes) (line : Bytes) :
    Bounded rollSize (Function.update disk path (some (lines ++ [line]))) ↔
      (total lines : ℤ) ≤ rollSize := by
  constructor
  · intro h'
    have hfile := h' path lines line (Function.update_self ..)
    rw [total_concat] at hfile
    omega
  · intro hle path' lines' line' hlines
    rcases eq_or_ne path' path with rfl | hne
    · rw [Function.update_self] at hlines
      obtain ⟨rfl, hline⟩ := List.append_inj' (Option.some.inj hlines) rfl
      obtain rfl := List.singleton_inj.mp hline
      rw [total_concat]
      omega
    · rw [Function.update_of_ne hne] at hlines
      exact h path' lines' line' hlines

end Disk

theorem AppendFile.append_disk {f : AppendFile} {disk : Disk} {lines : List Bytes}
    (h : disk f.path = some lines) {line : Bytes} {fwrite : List ℕ}
    (hwritten : written line.length fwrite = line.length) :
    (f.append disk line fwrite).2 = Function.update disk f.path (some (lines ++ [line])) := by
  unfold append
  rw [h, hwritten, List.take_length, Option.map_some]

namespace LogRun

/-- Time has gone on since the last call, and the line is written whole. -/
def Later (s : LogRun) (e : LogAppend) : Prop :=
  s.clock < e.now ∧ AppendFile.written e.line.length e.fwrite = e.line.length

def Bounded (c : LogConfig) (s : LogRun) : Prop := s.disk.Bounded c.rollSize

/-- The file that is open has not been there before it was opened. -/
def Fresh (c : LogConfig) (s : LogRun) (_ : LogAppend) : Prop :=
  0 ≤ c.rollSize ∧ ∀ f ∈ s.logFile.file, f.found = false

/-- `writtenBytes_` is the size of a new file; a file that has been opened again was full. Of the
    days to come there is no file. -/
structure Sized (c : LogConfig) (s : LogRun) (f : AppendFile) (lines : List Bytes) : Prop where
  dated : Dated c s f
  content : s.disk f.path = some lines
  size : if f.found then c.rollSize < total lines else f.writtenBytes = total lines
  small : 0 ≤ c.rollSize → f.writtenBytes ≤ c.rollSize
  days : ∀ path, s.disk path ≠ none →
    ∃ t, t / kRollPerSeconds ≤ s.logFile.lastRoll / kRollPerSeconds ∧ path = getLogFileName c t

variable {c : LogConfig} {m : LogMemory} {t₀ : ℤ}

theorem ediv_day_le {t t' : ℤ} (h : t ≤ t') : t / kRollPerSeconds ≤ t' / kRollPerSeconds :=
  Int.ediv_le_ediv (by decide) h

theorem start_sized (h : m.lastRoll.toInt < t₀) (ht : 0 < t₀) :
    ∃ f, Sized c (start c m (fun _ => none) t₀) f [] := by
  refine ⟨_, start_dated h ht, ?_, ?_, fun hpos => ?_, fun path hpath => ?_⟩
  · rw [start_of_lt h]
    simp [AppendFile.construct]
  · simp [AppendFile.construct]
  · simpa [AppendFile.construct] using hpos
  · rw [start_of_lt h] at hpath ⊢
    obtain ⟨lines, hlines⟩ := Option.ne_none_iff_exists'.mp hpath
    rcases (Disk.construct_some_iff (fun _ => none) _ _ _).mp hlines with hold | ⟨-, rfl, -⟩
    · exact absurd hold (by nofun)
    · exact ⟨t₀, Int.le_refl _, rfl⟩

theorem size_append {f : AppendFile} {lines : List Bytes} (line : Bytes)
    (h : if f.found then c.rollSize < total lines else f.writtenBytes = total lines) :
    if f.found then c.rollSize < total (lines ++ [line])
      else f.writtenBytes + line.length = total (lines ++ [line]) := by
  rw [total_concat]
  split_ifs at h ⊢
  · omega
  · omega

/-- The files after a line has been appended. -/
theorem Sized.days_append {s : LogRun} {f : AppendFile} {lines lines' : List Bytes}
    (h : Sized c s f lines) {path : Bytes} (hpath : Function.update s.disk f.path (some lines') path ≠ none) :
    ∃ t, t / kRollPerSeconds ≤ s.logFile.lastRoll / kRollPerSeconds ∧ path = getLogFileName c t := by
  rcases eq_or_ne path f.path with rfl | hne
  · exact ⟨s.logFile.lastRoll, Int.le_refl _, h.dated.path⟩
  · rw [Function.update_of_ne hne] at hpath
    exact h.days path hpath

/-- A later roll finds its file exactly if it is the file that has been open. -/
theorem Sized.found_iff {s : LogRun} {f : AppendFile} {lines : List Bytes} (h : Sized c s f lines)
    (lines' : List Bytes) {now : ℤ} (hnow : s.logFile.lastRoll < now) :
    Function.update s.disk f.path (some lines') (getLogFileName c now) ≠ none ↔
      now / kRollPerSeconds = s.logFile.lastRoll / kRollPerSeconds := by
  constructor
  · intro hne
    obtain ⟨t, ht, hname⟩ := h.days_append hne
    have hday := (getLogFileName_eq_iff now t).mp hname
    have hle := ediv_day_le (Int.le_of_lt hnow)
    omega
  · intro hday
    rw [(getLogFileName_eq_iff now _).mpr hday, ← h.dated.path, Function.update_self]
    exact Option.some_ne_none _

/-- `file_` is kept. -/
theorem Sized.stay {s s' : LogRun} {f f' : AppendFile} {lines : List Bytes} {line : Bytes}
    (h : Sized c s f lines) (hdated : Dated c s' f')
    (hfile : s'.logFile.file = some { f with writtenBytes := f.writtenBytes + line.length })
    (hdisk : s'.disk = Function.update s.disk f.path (some (lines ++ [line])))
    (hroll : s'.logFile.lastRoll = s.logFile.lastRoll)
    (hsmall : ((f.writtenBytes + line.length : ℕ) : ℤ) ≤ c.rollSize) :
    Sized c s' f' (lines ++ [line]) := by
  obtain rfl := Option.some.inj (hfile.symm.trans hdated.file)
  refine ⟨hdated, ?_, size_append line h.size, fun _ => hsmall, fun path hpath => ?_⟩
  · rw [hdisk]
    exact Function.update_self ..
  · rw [hdisk] at hpath
    rw [hroll]
    exact h.days_append hpath

/-- `file_` is opened at a later time. If it is found, then because the line has made it too
    large. -/
theorem Sized.roll {s s' : LogRun} {f f' : AppendFile} {lines : List Bytes} {line : Bytes} {now : ℤ}
    (h : Sized c s f lines) (hnow : s.logFile.lastRoll < now)
    (hreason : c.rollSize < ((f.writtenBytes + line.length : ℕ) : ℤ) ∨
      ((f.writtenBytes + line.length : ℕ) : ℤ) ≤ c.rollSize ∧ startOfDay now ≠ s.logFile.startOfPeriod)
    {disk : Disk} (hdisk : disk = Function.update s.disk f.path (some (lines ++ [line])))
    (hdated : Dated c s' f')
    (hfile : s'.logFile.file = some (AppendFile.construct disk (getLogFileName c now)).1)
    (hdisk' : s'.disk = (AppendFile.construct disk (getLogFileName c now)).2)
    (hroll : s'.logFile.lastRoll = now) : ∃ lines', Sized c s' f' lines' := by
  obtain rfl := Option.some.inj (hfile.symm.trans hdated.file)
  have hfound := h.found_iff (lines ++ [line]) hnow
  rw [← hdisk] at hfound
  have hdays : ∀ path, s'.disk path ≠ none →
      ∃ t, t / kRollPerSeconds ≤ s'.logFile.lastRoll / kRollPerSeconds ∧
        path = getLogFileName c t := by
    intro path hpath
    rw [hroll]
    obtain ⟨lines', hlines'⟩ := Option.ne_none_iff_exists'.mp hpath
    rw [hdisk', Disk.construct_some_iff] at hlines'
    rcases hlines' with hold | ⟨-, rfl, -⟩
    · rw [hdisk] at hold
      obtain ⟨t, ht, hname⟩ := h.days_append (Option.ne_none_iff_exists'.mpr ⟨lines', hold⟩)
      exact ⟨t, Int.le_trans ht (ediv_day_le (Int.le_of_lt hnow)), hname⟩
    · exact ⟨now, Int.le_refl _, rfl⟩
  cases hname : disk (getLogFileName c now) with
  | none =>
    refine ⟨[], hdated, ?_, ?_, fun hpos => ?_, hdays⟩
    · rw [hdisk', AppendFile.construct_path]
      exact (Disk.construct_some_iff ..).mpr (.inr ⟨hname, rfl, rfl⟩)
    · simp [AppendFile.construct, hname]
    · simpa [AppendFile.construct, hname] using hpos
  | some content =>
    have hday := hfound.mp (by rw [hname]; exact Option.some_ne_none _)
    have hcontent : content = lines ++ [line] := by
      rw [(getLogFileName_eq_iff now _).mpr hday, ← h.dated.path, hdisk, Function.update_self] at hname
      exact (Option.some.inj hname).symm
    refine ⟨content, hdated, ?_, ?_, fun hpos => ?_, hdays⟩
    · rw [hdisk', AppendFile.construct_path]
      exact (Disk.construct_some_iff ..).mpr (.inl hname)
    · simp only [AppendFile.construct, hname, if_true]
      rw [hcontent]
      have hsize := size_append line h.size
      rcases hreason with hlarge | ⟨-, hperiod⟩
      · split_ifs at hsize
        · exact hsize
        · omega
      · have hpositive := h.dated.positive
        exact absurd ((startOfDay_eq_iff (by omega) (by omega)).mpr hday) (h.dated.period ▸ hperiod)
    · simpa [AppendFile.construct, hname] using hpos

theorem step_sized {s : LogRun} {e : LogAppend} {f : AppendFile} {lines : List Bytes}
    (h : Sized c s f lines) (hlater : Later s e) :
    ∃ s', step c s e = some s' ∧ (∃ f' lines', Sized c s' f' lines') ∧
      (s'.Bounded c ↔
        Disk.Bounded c.rollSize (Function.update s.disk f.path (some (lines ++ [e.line])))) := by
  obtain ⟨hnow, hwritten⟩ := hlater
  obtain ⟨s', hs', -, -, ⟨f', hdated⟩, hcases⟩ := step_spec h.dated (Int.le_of_lt hnow)
  rw [AppendFile.append_disk h.content hwritten] at hcases
  have hlast : s.logFile.lastRoll < e.now := Int.lt_of_le_of_lt h.dated.clock hnow
  refine ⟨s', hs', ?_⟩
  unfold Bounded
  cases hcases with
  | counted size count eq same =>
    rw [same]
    exact ⟨⟨f', _, h.stay hdated (by rw [eq]; rfl) same (by rw [eq]) size⟩, Iff.rfl⟩
  | checked size period lastFlush eq same =>
    rw [same]
    exact ⟨⟨f', _, h.stay hdated (by rw [eq]; rfl) same (by rw [eq]) size⟩, Iff.rfl⟩
  | refused late count le eq same => omega
  | rolled later reason count le eq made =>
    obtain ⟨lines', hsized⟩ :=
      h.roll hlast reason rfl hdated (by rw [eq]) made (by rw [eq])
    rw [made]
    exact ⟨⟨f', lines', hsized⟩, Disk.bounded_construct ..⟩

/-- **Rolling does not bound the size.** In every run of `append` at strictly increasing times, on
    an empty disk and with all lines written, no file ever holds more than `rollSize_` bytes and
    its last line if and only if `rollSize_` is not negative and no line is appended to a file
    that has been opened again, which is what a roll does on the day of the file that it closes.
    -/
theorem bounded_iff (hm : m.lastRoll.toInt < t₀) (ht : 0 < t₀) (es : List LogAppend)
    (h : Along (step c) Later (start c m (fun _ => none) t₀) es) :
    Throughout (step c) (Bounded c) (start c m (fun _ => none) t₀) es ↔
      Along (step c) (Fresh c) (start c m (fun _ => none) t₀) es := by
  obtain ⟨f, hstart⟩ := start_sized (c := c) hm ht
  refine throughout_iff_along (J := fun s => ∃ f lines, Sized c s f lines)
    (fun s e hsized hbounded hlater => ?_) es _ ⟨f, [], hstart⟩ ?_ h
  · obtain ⟨f, lines, hsized⟩ := hsized
    obtain ⟨s', hs', hsized', hiff⟩ := step_sized hsized hlater
    refine ⟨s', hs', hsized', ?_⟩
    rw [hiff, Disk.bounded_append hbounded]
    have hsize := hsized.size
    have hsmall := hsized.small
    have hfresh : Fresh c s e ↔ 0 ≤ c.rollSize ∧ f.found = false := by
      simp [Fresh, hsized.dated.file]
    rw [hfresh]
    cases hfound : f.found with
    | true => simp only [hfound, if_true] at hsize; simp; omega
    | false => simp only [hfound] at hsize; simp at hsize ⊢; omega
  · intro path lines line hlines
    rw [start_of_lt hm] at hlines
    rcases (Disk.construct_some_iff (fun _ => none) _ _ _).mp hlines with hold | ⟨-, -, hnil⟩
    · exact absurd hold (by nofun)
    · exact absurd hnil (by simp)

/-- A line that is written at once. -/
def lineAt (now : ℤ) (line : Bytes) : LogAppend := ⟨line, now, [line.length]⟩

/-- The second day has its own file, and the roll by size is the last thing that happens. -/
theorem bounded_sample :
    Throughout (step .sample) (Bounded .sample) (start .sample .zero (fun _ => none) 100)
      [lineAt 200 [1, 2, 3, 4, 5, 6], lineAt 90000 [1, 2, 3, 4], lineAt 90001 [1, 2, 3, 4, 5, 6],
        lineAt 90002 [1, 2, 3, 4, 5, 6]] := by
  refine (bounded_iff (by decide) (by decide) _ ?_).mpr ?_
  · exact along_step ⟨by decide, rfl⟩ rfl <| along_step ⟨by decide, rfl⟩ rfl <|
      along_step ⟨by decide, rfl⟩ rfl <| along_step ⟨by decide, rfl⟩ rfl trivial
  · exact along_step ⟨by decide, by decide⟩ rfl <| along_step ⟨by decide, by decide⟩ rfl <|
      along_step ⟨by decide, by decide⟩ rfl <| along_step ⟨by decide, by decide⟩ rfl trivial

/-- Eleven bytes make the file of the day full; it is opened again, and the next line goes to its
    end. -/
theorem file_too_large :
    ¬ ∀ (c : LogConfig) (t₀ : ℤ) (es : List LogAppend), 0 < t₀ →
      Along (step c) Later (start c .zero (fun _ => none) t₀) es →
      Throughout (step c) (Bounded c) (start c .zero (fun _ => none) t₀) es := by
  intro hall
  have hbounded := hall .sample 100 [lineAt 200 [1, 2, 3, 4, 5, 6, 7, 8, 9, 10, 11], lineAt 201 [1]]
    (by decide)
    (along_step ⟨by decide, rfl⟩ rfl <| along_step ⟨by decide, rfl⟩ rfl trivial)
  have hend := hbounded _ _ (List.prefix_refl _) rfl (getLogFileName .sample 100)
    [[1, 2, 3, 4, 5, 6, 7, 8, 9, 10, 11]] [1] (by decide)
  exact absurd hend (by decide)

end LogRun

end XWeb.Base
