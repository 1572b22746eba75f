import XWeb.Lib.CivilDate
import XWeb.Lib.Run

/-!
# `LogFile`

Model of `base/log_file.cpp` and of `AppendFile` (`base/file_util.cpp`). The constructor leaves
`startOfPeriod_`, `lastRoll_`, `lastFlush_` and `count_` unset, so what the memory holds is a
parameter. A file on disk is the list of the lines that have been appended to it, with those that
are still in the buffer of its stream. `append` adds nothing to `append_unlocked` but a lock, and
`SERVER` is `false`.

* `LogFile.construct`, `rollFile`, `getLogFileName`, `appendUnlocked`: the member functions.
* `appendUnlocked_spec`: what a call of `append_unlocked` can do.
* `LogRun`: a `LogFile`, the disk and the clock.
* `LogRun.Dated`: the open file is named for the day of the last roll.
* `getLogFileName_eq_iff`: two times give one name exactly if they are on one day.
-/

namespace XWeb.Base

open XWeb.Lib

/-! ## `AppendFile` -/

/-- The lines of the files that exist. -/
abbrev Disk := Bytes → Option (List Bytes)

/-- `fp_` by the name of the file, and `writtenBytes_`; `found` is whether `fopen` has found the
    file. -/
structure AppendFile where
  path : Bytes
  writtenBytes : ℕ
  found : Bool

namespace AppendFile

/-- The constructor: `fopen(path, "a")`. -/
def construct (disk : Disk) (path : Bytes) : AppendFile × Disk :=
  match disk path with
  | some _ => (⟨path, 0, true⟩, disk)
  | none => (⟨path, 0, false⟩, Function.update disk path (some []))

/-- The loop of lines 24–34. `n` bytes of `len` have been written; the list is what `fwrite`
    returns. -/
def writeLoop (len : ℕ) : ℕ → List ℕ → ℕ
  | n, [] => n
  | n, x :: xs => if len - n > 0 then (if x = 0 then n else writeLoop len (n + x) xs) else n

/-- `n` at the end of `append`. -/
def written (len : ℕ) : List ℕ → ℕ
  | [] => 0
  | n :: xs => writeLoop len n xs

/-- `append` (lines 21–36). All of `len` is counted, whatever has been written. -/
def append (f : AppendFile) (disk : Disk) (line : Bytes) (fwrite : List ℕ) : AppendFile × Disk :=
  ({ f with writtenBytes := f.writtenBytes + line.length },
    Function.update disk f.path
      ((disk f.path).map fun lines => lines ++ [line.take (written line.length fwrite)]))

end AppendFile

/-! ## `LogFile` -/

def kRollPerSeconds : ℤ := 60 * 60 * 24

/-- `t / kRollPerSeconds_ * kRollPerSeconds_`. -/
def startOfDay (t : ℤ) : ℤ := t.tdiv kRollPerSeconds * kRollPerSeconds

/-- The members that are not changed, and what `ProcessInfo::hostname` returns. `checkEveryN_` is
    an `int`. -/
structure LogConfig where
  basename : Bytes
  hostname : Bytes
  rollSize : ℤ
  checkEveryN : ℤ
  flushInterval : ℤ
  checkEveryN_lt : checkEveryN < 2 ^ 31

/-- What the memory of the members holds that the constructor does not set. -/
structure LogMemory where
  startOfPeriod : BitVec 64
  lastRoll : BitVec 64
  lastFlush : BitVec 64
  count : BitVec 32

/-- Files of ten bytes, and a check at every second line. -/
def LogConfig.sample : LogConfig :=
  { basename := [97]
    hostname := [104]
    rollSize := 10
    checkEveryN := 2
    flushInterval := 3
    checkEveryN_lt := by decide }

def LogMemory.zero : LogMemory := ⟨0, 0, 0, 0⟩

structure LogFile where
  startOfPeriod : ℤ
  lastRoll : ℤ
  lastFlush : ℤ
  count : ℤ
  file : Option AppendFile

namespace LogFile

/-- `getLogFileName` at the time `now`. -/
def getLogFileName (c : LogConfig) (now : ℤ) : Bytes :=
  c.basename ++ ([46] ++ strftime (civil (now / kRollPerSeconds)) ++ [46]) ++ c.hostname ++
    [46, 108, 111, 103]

/-- `rollFile` (lines 19–32) at the time `now`. -/
def rollFile (c : LogConfig) (l : LogFile) (disk : Disk) (now : ℤ) : Bool × LogFile × Disk :=
  let filename := getLogFileName c now
  let start := startOfDay now
  if now > l.lastRoll then
    let (file, disk) := AppendFile.construct disk filename
    (true,
      { l with
        lastRoll := now
        lastFlush := now
        startOfPeriod := start
        file := some file }, disk)
  else (false, l, disk)

/-- The constructor (lines 6–17). -/
def construct (c : LogConfig) (m : LogMemory) (disk : Disk) (now : ℤ) : LogFile × Disk :=
  (rollFile c
    { startOfPeriod := m.startOfPeriod.toInt
      lastRoll := m.lastRoll.toInt
      lastFlush := m.lastFlush.toInt
      count := m.count.toInt
      file := none } disk now).2

/-- `append_unlocked` (lines 63–83) at the time `now`. Without a `file_` there is no step. -/
def appendUnlocked (c : LogConfig) (l : LogFile) (disk : Disk) (line : Bytes) (now : ℤ)
    (fwrite : List ℕ) : Option (LogFile × Disk) :=
  l.file.map fun f =>
    let (f, disk) := f.append disk line fwrite
    let l := { l with file := some f }
    if f.writtenBytes > c.rollSize then (rollFile c l disk now).2
    else
      let count := toInt (l.count + 1)
      if count ≥ c.checkEveryN then
        let l := { l with count := 0 }
        if startOfDay now ≠ l.startOfPeriod then (rollFile c l disk now).2
        else if now - l.lastFlush > c.flushInterval then ({ l with lastFlush := now }, disk)
        else (l, disk)
      else ({ l with count := count }, disk)

/-- What `append_unlocked` can do when the line has been written to `f`: nothing but count the
    line, check the period and find it unchanged, or roll; and `rollFile` may refuse. -/
inductive Appended (c : LogConfig) (l l' : LogFile) (f : AppendFile) (disk disk' : Disk)
    (now : ℤ) : Prop
  | counted (size : f.writtenBytes ≤ c.rollSize) (count : toInt (l.count + 1) < c.checkEveryN)
      (eq : l' = { l with file := some f, count := toInt (l.count + 1) }) (same : disk' = disk)
  | checked (size : f.writtenBytes ≤ c.rollSize) (period : startOfDay now = l.startOfPeriod)
      (lastFlush : ℤ) (eq : l' = { l with file := some f, count := 0, lastFlush := lastFlush })
      (same : disk' = disk)
  | refused (late : now ≤ l.lastRoll) (count : ℤ) (le : count = l.count ∨ count = 0)
      (eq : l' = { l with file := some f, count := count }) (same : disk' = disk)
  | rolled (later : l.lastRoll < now)
      (reason : c.rollSize < f.writtenBytes ∨
        f.writtenBytes ≤ c.rollSize ∧ startOfDay now ≠ l.startOfPeriod)
      (count : ℤ) (le : count = l.count ∨ count = 0)
      (eq : l' =
        { startOfPeriod := startOfDay now
          lastRoll := now
          lastFlush := now
          count := count
          file := some (AppendFile.construct disk (getLogFileName c now)).1 })
      (made : disk' = (AppendFile.construct disk (getLogFileName c now)).2)

variable {c : LogConfig} {l : LogFile} {disk : Disk} {now : ℤ}

theorem rollFile_cases {f : AppendFile} {count : ℤ} (le : count = l.count ∨ count = 0)
    (reason : c.rollSize < f.writtenBytes ∨
      f.writtenBytes ≤ c.rollSize ∧ startOfDay now ≠ l.startOfPeriod) :
    Appended c l (rollFile c { l with file := some f, count := count } disk now).2.1 f disk
      (rollFile c { l with file := some f, count := count } disk now).2.2 now := by
  unfold rollFile
  dsimp only
  split_ifs with hlater
  · exact .rolled hlater reason count le rfl rfl
  · exact .refused (Int.not_lt.mp hlater) count le rfl rfl

theorem appendUnlocked_spec {f : AppendFile} (hf : l.file = some f) (disk : Disk) (line : Bytes)
    (now : ℤ) (fwrite : List ℕ) :
    ∃ l' disk', appendUnlocked c l disk line now fwrite = some (l', disk') ∧
      Appended c l l' (f.append disk line fwrite).1 (f.append disk line fwrite).2 disk' now := by
  unfold appendUnlocked
  rw [hf]
  simp only [Option.map_some]
  split_ifs with hsize hcount hperiod hflush
  · exact ⟨_, _, rfl, rollFile_cases (.inl rfl) (.inl hsize)⟩
  · exact ⟨_, _, rfl, rollFile_cases (.inr rfl) (.inr ⟨Int.not_lt.mp hsize, hperiod⟩)⟩
  · exact ⟨_, _, rfl, .checked (Int.not_lt.mp hsize) (not_not.mp hperiod) _ rfl rfl⟩
  · exact ⟨_, _, rfl, .checked (Int.not_lt.mp hsize) (not_not.mp hperiod) l.lastFlush rfl rfl⟩
  · exact ⟨_, _, rfl, .counted (Int.not_lt.mp hsize) (Int.not_le.mp hcount) rfl rfl⟩

/-- A line that fits is counted, as long as there are not `checkEveryN_`. -/
theorem appendUnlocked_counted {f : AppendFile} (hf : l.file = some f) (disk : Disk) (line : Bytes)
    (now : ℤ) (fwrite : List ℕ) (hsize : ((f.writtenBytes + line.length : ℕ) : ℤ) ≤ c.rollSize)
    (hcount : toInt (l.count + 1) < c.checkEveryN) :
    appendUnlocked c l disk line now fwrite = some
      ({ l with
          file := some (f.append disk line fwrite).1
          count := toInt (l.count + 1) }, (f.append disk line fwrite).2) := by
  have hsize' : ¬ ((f.append disk line fwrite).1.writtenBytes : ℤ) > c.rollSize := Int.not_lt.mpr hsize
  unfold appendUnlocked
  rw [hf]
  simp only [Option.map_some]
  rw [if_neg hsize', if_neg (Int.not_le.mpr hcount)]

/-! ## Days -/

theorem getLogFileName_eq_iff (t t' : ℤ) :
    getLogFileName c t = getLogFileName c t' ↔ t / kRollPerSeconds = t' / kRollPerSeconds := by
  constructor
  · intro h
    have hbase := List.append_cancel_right (List.append_cancel_right h)
    have hdate := List.append_cancel_right (List.append_cancel_left hbase)
    exact strftime_injective (List.append_cancel_left hdate)
  · intro h
    rw [getLogFileName, h, getLogFileName]

theorem startOfDay_eq_iff {t t' : ℤ} (ht : 0 ≤ t) (ht' : 0 ≤ t') :
    startOfDay t = startOfDay t' ↔ t / kRollPerSeconds = t' / kRollPerSeconds := by
  unfold startOfDay
  rw [Int.tdiv_eq_ediv_of_nonneg ht, Int.tdiv_eq_ediv_of_nonneg ht']
  exact Int.mul_eq_mul_right_iff (by decide)

end LogFile

open LogFile

theorem AppendFile.construct_path (disk : Disk) (path : Bytes) :
    (construct disk path).1.path = path := by
  unfold construct
  split <;> rfl

/-! ## Runs -/

/-- A `LogFile` and the disk; the last time, and of each line that has been appended, latest
    first, when and to which file. -/
structure LogRun where
  logFile : LogFile
  disk : Disk
  clock : ℤ
  appended : List (ℤ × Bytes)

/-- A call of `append` with a line at the time `now`, and what the calls of `fwrite` return. -/
structure LogAppend where
  line : Bytes
  now : ℤ
  fwrite : List ℕ

namespace LogRun

/-- A `LogFile` is constructed at the time `t₀`. -/
def start (c : LogConfig) (m : LogMemory) (disk : Disk) (t₀ : ℤ) : LogRun :=
  { logFile := (construct c m disk t₀).1
    disk := (construct c m disk t₀).2
    clock := t₀
    appended := [] }

def step (c : LogConfig) (s : LogRun) (e : LogAppend) : Option LogRun :=
  s.logFile.file.bind fun f =>
    (s.logFile.appendUnlocked c s.disk e.line e.now e.fwrite).map fun r =>
      { logFile := r.1
        disk := r.2
        clock := e.now
        appended := (e.now, f.path) :: s.appended }

/-- `f` is open, and it is named for the day of the last roll. -/
structure Dated (c : LogConfig) (s : LogRun) (f : AppendFile) : Prop where
  file : s.logFile.file = some f
  path : f.path = getLogFileName c s.logFile.lastRoll
  period : s.logFile.startOfPeriod = startOfDay s.logFile.lastRoll
  positive : 0 < s.logFile.lastRoll
  clock : s.logFile.lastRoll ≤ s.clock

variable {c : LogConfig} {m : LogMemory} {disk : Disk} {t₀ : ℤ}

theorem start_of_lt (h : m.lastRoll.toInt < t₀) :
    start c m disk t₀ =
      { logFile :=
          { startOfPeriod := startOfDay t₀
            lastRoll := t₀
            lastFlush := t₀
            count := m.count.toInt
            file := some (AppendFile.construct disk (getLogFileName c t₀)).1 }
        disk := (AppendFile.construct disk (getLogFileName c t₀)).2
        clock := t₀
        appended := [] } := by
  unfold start construct rollFile
  dsimp only
  rw [if_pos h]

/-- If `lastRoll_` happens to be later than the time of construction, no file is opened. -/
theorem start_of_le (h : t₀ ≤ m.lastRoll.toInt) : (start c m disk t₀).logFile.file = none := by
  unfold start construct rollFile
  dsimp only
  rw [if_neg (by omega)]

theorem start_dated (h : m.lastRoll.toInt < t₀) (ht : 0 < t₀) :
    Dated c (start c m disk t₀) (AppendFile.construct disk (getLogFileName c t₀)).1 := by
  rw [start_of_lt h]
  exact ⟨rfl, AppendFile.construct_path _ _, rfl, ht, Int.le_refl _⟩

theorem step_spec {s : LogRun} {f : AppendFile} {e : LogAppend} (h : Dated c s f)
    (hnow : s.clock ≤ e.now) :
    ∃ s', step c s e = some s' ∧ s'.clock = e.now ∧ s'.appended = (e.now, f.path) :: s.appended ∧
      (∃ f', Dated c s' f') ∧
      Appended c s.logFile s'.logFile (f.append s.disk e.line e.fwrite).1
        (f.append s.disk e.line e.fwrite).2 s'.disk e.now := by
  obtain ⟨l', disk', happend, hcases⟩ := appendUnlocked_spec h.file s.disk e.line e.now e.fwrite
  refine ⟨_, by rw [step, h.file, Option.bind_some, happend]; rfl, rfl, rfl, ?_, hcases⟩
  have hlast : s.logFile.lastRoll ≤ e.now := Int.le_trans h.clock hnow
  cases hcases with
  | counted size count eq same =>
    subst eq
    exact ⟨_, rfl, h.path, h.period, h.positive, hlast⟩
  | checked size period lastFlush eq same =>
    subst eq
    exact ⟨_, rfl, h.path, h.period, h.positive, hlast⟩
  | refused late count le eq same =>
    subst eq
    exact ⟨_, rfl, h.path, h.period, h.positive, hlast⟩
  | rolled later reason count le eq made =>
    subst eq
    have hpositive : 0 < e.now := Int.lt_of_lt_of_le h.positive hlast
    exact ⟨_, rfl, AppendFile.construct_path _ _, rfl, hpositive, Int.le_refl _⟩

end LogRun

end XWeb.Base
