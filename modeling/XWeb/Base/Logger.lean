import XWeb.Base.LogStream

/-!
# `Logger`

Model of `base/logger.cpp` lines 31–115 and of `SourceFile` (`base/logger.h` lines 5–41). What
`strftime` makes of the local time is given.

* `Logger.construct`, `Logger.destroy`: the constructors and the destructor.
* `Logger.log`: the record of a logger and of what is inserted into its stream.
* `log_eq`: the record is what the buffer takes of the header, the insertions and a newline.
* `endsLine_iff`: when the record ends with a newline.
-/

namespace XWeb.Base

open XWeb.Lib

/-- `Logger::LogLevel`. -/
inductive LogLevel
  | trace
  | debug
  | info
  | warn
  | error
  | fatal
  deriving DecidableEq

/-- `LogLevelName` (lines 31–39). -/
def logLevelName : LogLevel → CString
  | .trace => ⟨ascii "TRACE", by decide⟩
  | .debug => ⟨ascii "DEBUG", by decide⟩
  | .info => ⟨ascii "INFO ", by decide⟩
  | .warn => ⟨ascii "WARN ", by decide⟩
  | .error => ⟨ascii "ERROR", by decide⟩
  | .fatal => ⟨ascii "FATAL", by decide⟩

/-- `SourceFile`. -/
structure SourceFile where
  data : Bytes
  size : ℤ

namespace SourceFile

/-- What is behind the last `c`: `strrchr(s, c) + 1`. -/
def behindLast (s : Bytes) (c : UInt8) : Option Bytes :=
  if c ∈ s then some (s.reverse.takeWhile (· ≠ c)).reverse else none

/-- What is behind the last slash, or else behind the last backslash. -/
def basename (filename : Bytes) : Bytes :=
  ((behindLast filename 47).or (behindLast filename 92)).getD filename

/-- The constructors. -/
def ofName (filename : CString) : SourceFile :=
  ⟨basename filename.val, toInt (basename filename.val).length⟩

theorem length_basename_le (filename : Bytes) : (basename filename).length ≤ filename.length := by
  have hbehind : ∀ c s, behindLast filename c = some s → s.length ≤ filename.length := by
    intro c s hs
    rw [behindLast] at hs
    split_ifs at hs
    obtain rfl := Option.some.inj hs
    have hrev : filename.reverse.length = filename.length := List.length_reverse
    rw [List.length_reverse, ← hrev]
    exact (List.takeWhile_sublist _).length_le
  rw [basename]
  cases hslash : behindLast filename 47 with
  | some s => exact hbehind 47 s hslash
  | none =>
    cases hbackslash : behindLast filename 92 with
    | some s => exact hbehind 92 s hbackslash
    | none => exact Nat.le_refl _

end SourceFile

/-- `operator<<(LogStream&, const SourceFile&)` (lines 41–45) and `LogStream::append`, which
    converts the `int` back. -/
def LogStream.insertFile (b : LogStream) (v : SourceFile) : Option LogStream :=
  b.append v.data (toSize v.size)

/-! ## The constructors and the destructor -/

/-- `"%s.%03d"` into `timeBufDst`, which has 64 bytes. -/
def timeBufDst (timeBuf : CString) (timeMs : ℕ) : CString :=
  ⟨(timeBuf.val ++ ascii "." ++ List.replicate (3 - (decimal timeMs).length) 48 ++
      decimalInt timeMs).take 63, by
    intro hmem
    have hmem := List.mem_of_mem_take hmem
    simp only [List.mem_append] at hmem
    rcases hmem with ((hmem | hmem) | hmem) | hmem
    · exact timeBuf.property hmem
    · exact absurd hmem (by decide)
    · exact absurd (List.eq_of_mem_replicate hmem) (by decide)
    · exact zero_not_mem_decimalInt timeMs hmem⟩

/-- The arguments of a constructor, and the time: `timeBuf` is what `strftime` makes of the local
    time, unless `localtime_r` fails. Only the third constructor has `func`. -/
structure LoggerArgs where
  timeBuf : Option CString
  timeMs : ℕ
  level : LogLevel
  filename : CString
  line : IntType.int.Value
  func : Option CString

/-- `Logger`: the members of `impl_` that are read later. -/
structure Logger where
  stream : LogStream
  level : LogLevel

namespace Logger

/-- `formatTime` (lines 59–85). -/
def formatTime (s : LogStream) (a : LoggerArgs) : Option LogStream :=
  match a.timeBuf with
  | none => some s
  | some timeBuf => s.insert (.cstr (some (timeBufDst timeBuf a.timeMs)))

/-- `Impl::Impl` (lines 47–57), and the third constructor of `Logger`. -/
def construct (data : Vector UInt8 kSmallBuffer) (a : LoggerArgs) : Option Logger := do
  let s ← formatTime (.new data) a
  let s ← s.insert (.char 124)
  let s ← s.insert (.cstr (some (logLevelName a.level)))
  let s ← s.insert (.cstr (some ⟨ascii "|", by decide⟩))
  let s ← s.insertFile (.ofName a.filename)
  let s ← s.insert (.char 58)
  let s ← s.insert (.integer .int a.line)
  let s ← s.insert (.char 32)
  match a.func with
  | none => some ⟨s, a.level⟩
  | some func => do
    let s ← s.insert (.cstr (some func))
    let s ← s.insert (.char 32)
    some ⟨s, a.level⟩

/-- `~Logger` (lines 87–90 and 108–115): what `g_output` is called with, and whether `abort` is. -/
def destroy (l : Logger) : Option (Bytes × Bool) := do
  let s ← l.stream.insert (.char newline)
  some (s.data.take s.length.toNat, l.level = .fatal)

/-- A logger with the insertions `es` into its stream. -/
def log (data : Vector UInt8 kSmallBuffer) (a : LoggerArgs) (es : List Insertion) :
    Option (Bytes × Bool) := do
  let l ← construct data a
  let s ← run LogStream.insert l.stream es
  destroy { l with stream := s }

/-- What the constructor inserts. -/
def header (a : LoggerArgs) : List Insertion :=
  (a.timeBuf.map fun timeBuf => Insertion.cstr (some (timeBufDst timeBuf a.timeMs))).toList ++
    [.char 124, .cstr (some (logLevelName a.level)), .cstr (some ⟨ascii "|", by decide⟩),
      .string (SourceFile.basename a.filename.val), .char 58, .integer .int a.line, .char 32] ++
    (a.func.map fun func => [Insertion.cstr (some func), .char 32]).getD []

/-! ## The record -/

theorem insertFile_ofName {filename : CString} (h : filename.val.length < 2 ^ 31) (b : LogStream) :
    b.insertFile (.ofName filename) = b.insert (.string (SourceFile.basename filename.val)) := by
  have hle := SourceFile.length_basename_le filename.val
  have hsize : toSize (toInt (SourceFile.basename filename.val).length) =
      (SourceFile.basename filename.val).length :=
    (toSize_toInt_eq_iff (by omega)).mpr (Or.inl (by omega))
  rw [LogStream.insertFile, SourceFile.ofName, hsize]
  rfl

theorem formatTime_eq (s : LogStream) (a : LoggerArgs) :
    formatTime s a = run LogStream.insert s
      (a.timeBuf.map fun timeBuf => .cstr (some (timeBufDst timeBuf a.timeMs))).toList := by
  rw [formatTime]
  cases a.timeBuf with
  | none => rfl
  | some timeBuf => simp [run]

/-- The constructors insert the header. -/
theorem construct_eq (data : Vector UInt8 kSmallBuffer) {a : LoggerArgs}
    (h : a.filename.val.length < 2 ^ 31) :
    construct data a =
      (run LogStream.insert (.new data) (header a)).map fun s => ⟨s, a.level⟩ := by
  rw [construct, header, run_append, run_append, ← formatTime_eq, Option.map_eq_bind]
  cases a.func <;> simp [run, insertFile_ofName h, Option.bind_assoc, Function.comp_def]

/-- All strings are shorter than 2^31 bytes. -/
def Short (e : Insertion) : Prop := ∀ s, e.appended = some s → s.length < 2 ^ 31

theorem short_header {a : LoggerArgs} (hfile : a.filename.val.length < 2 ^ 31)
    (hfunc : ∀ func, a.func = some func → func.val.length < 2 ^ 31) : ∀ e ∈ header a, Short e := by
  have hbase := SourceFile.length_basename_le a.filename.val
  have hlevel : (logLevelName a.level).val.length = 5 := by cases a.level <;> decide
  have hbar : (ascii "|").length = 1 := by decide
  intro e he s hs
  simp only [header, List.mem_append, Option.mem_toList, Option.map_eq_some_iff, List.mem_cons,
    List.not_mem_nil, or_false] at he
  rcases he with (⟨timeBuf, -, rfl⟩ | rfl | rfl | rfl | rfl | rfl | rfl | rfl) | he
  · obtain rfl := Option.some.inj hs
    exact Nat.lt_of_le_of_lt (List.length_take_le 63 _) (by decide)
  · obtain rfl := Option.some.inj hs
    simp
  · obtain rfl := Option.some.inj hs
    omega
  · obtain rfl := Option.some.inj hs
    exact hbar.trans_lt (by decide)
  · obtain rfl := Option.some.inj hs
    omega
  · obtain rfl := Option.some.inj hs
    simp
  · cases hs
  · obtain rfl := Option.some.inj hs
    simp
  · cases hf : a.func with
    | none =>
      rw [hf] at he
      exact absurd he List.not_mem_nil
    | some func =>
      rw [hf] at he
      rcases List.mem_cons.mp he with rfl | he
      · obtain rfl := Option.some.inj hs
        exact hfunc func hf
      · obtain rfl := List.mem_singleton.mp he
        obtain rfl := Option.some.inj hs
        simp

/-- What the buffer takes of the header and of what is inserted. -/
def taken (a : LoggerArgs) (es : List Insertion) : Bytes :=
  (header a ++ es).foldl Insertion.accept []

/-- **The record** is what the buffer takes, and a newline if the buffer takes it. -/
theorem log_eq (data : Vector UInt8 kSmallBuffer) {a : LoggerArgs} {es : List Insertion}
    (hfile : a.filename.val.length < 2 ^ 31)
    (hfunc : ∀ func, a.func = some func → func.val.length < 2 ^ 31) (hes : ∀ e ∈ es, Short e) :
    log data a es =
      some (Insertion.accept (taken a es) (.char newline), decide (a.level = .fatal)) := by
  have hshort : ∀ e ∈ header a ++ es, Short e := by
    intro e he
    rcases List.mem_append.mp he with he | he
    · exact short_header hfile hfunc e he
    · exact hes e he
  have hfits : Along LogStream.insert LogStream.Fits (.new data) (header a ++ es) :=
    Along.mono (fun b e he => LogStream.fits_of_length he b) (along_of_forall hshort)
  obtain ⟨b, hrun, htext⟩ := LogStream.run_insert hfits
  obtain ⟨b₁, hb₁, hrest⟩ := run_append_eq_some.mp hrun
  have hnewline : Short (.char newline) := by
    intro s hs
    obtain rfl := Option.some.inj hs
    simp
  obtain ⟨b', hb', htext'⟩ := LogStream.insert_of_fits (LogStream.fits_of_length hnewline b)
  have hlength : b'.length = b'.cur := b'.length_eq (by decide)
  rw [log, construct_eq data hfile, hb₁]
  simp only [Option.map_some, Option.bind_eq_bind, Option.bind_some]
  rw [hrest, Option.bind_some, destroy]
  simp only [hb', Option.bind_eq_bind, Option.bind_some]
  rw [hlength, Int.toNat_natCast, taken, ← LogStream.text_new data, ← htext, ← htext']
  rfl

/-- The record ends with a newline. -/
def EndsLine (data : Vector UInt8 kSmallBuffer) (a : LoggerArgs) (es : List Insertion) : Prop :=
  ∃ record aborts, log data a es = some (record, aborts) ∧ record.getLast? = some newline

/-- A newline is taken, or is there already. -/
theorem getLast_accept_newline (used : Bytes) :
    (Insertion.accept used (.char newline)).getLast? = some newline ↔
      used.length + 1 < kSmallBuffer ∨ used.getLast? = some newline := by
  have hneed : (Insertion.char newline).need = 2 := rfl
  rcases Nat.lt_or_ge kSmallBuffer (used.length + 2) with hlt | hge
  · rw [Insertion.accept_of_lt (by rwa [hneed])]
    constructor
    · exact Or.inr
    · rintro (hroom | hlast)
      · omega
      · exact hlast
  · rw [Insertion.accept_of_le (by rwa [hneed])]
    constructor
    · intro _
      exact Or.inl (by omega)
    · intro _
      exact List.getLast?_concat

/-- **A record ends its line** unless what the buffer has taken leaves one byte free and does not
    end with a newline. -/
theorem endsLine_iff (data : Vector UInt8 kSmallBuffer) (a : LoggerArgs) (es : List Insertion)
    (hfile : a.filename.val.length < 2 ^ 31)
    (hfunc : ∀ func, a.func = some func → func.val.length < 2 ^ 31) (hes : ∀ e ∈ es, Short e) :
    EndsLine data a es ↔
      (taken a es).length + 1 < kSmallBuffer ∨ (taken a es).getLast? = some newline := by
  rw [← getLast_accept_newline, EndsLine, log_eq data hfile hfunc hes]
  constructor
  · rintro ⟨record, aborts, hlog, hlast⟩
    obtain ⟨rfl, rfl⟩ := Prod.mk.inj (Option.some.inj hlog)
    exact hlast
  · intro hlast
    exact ⟨_, _, rfl, hlast⟩

/-- `LOG_INFO` in line 7 of a file. -/
def sampleArgs : LoggerArgs where
  timeBuf := some ⟨ascii "2024-05-01 12:00:00", by decide⟩
  timeMs := 42
  level := .info
  filename := ⟨ascii "src/a.cpp", by decide⟩
  line := ⟨7, by decide⟩
  func := none

theorem endsLine_iff_sample :
    EndsLine (Vector.replicate kSmallBuffer 0) sampleArgs [.string (ascii "ok")] := by
  refine (endsLine_iff _ sampleArgs _ (by decide) (fun func h => by cases h) ?_).mpr ?_
  · intro e he s hs
    obtain rfl := List.mem_singleton.mp he
    obtain rfl := Option.some.inj hs
    decide
  · exact Or.inl (by decide)

/-- A message of 3961 bytes behind a header of 38 leaves one byte free. -/
theorem full_record_lacks_newline :
    ¬ EndsLine (Vector.replicate kSmallBuffer 0) sampleArgs
      [.string (List.replicate 3961 120)] := by
  have hheader : (header sampleArgs).foldl Insertion.accept [] =
      ascii "2024-05-01 12:00:00.042|INFO |a.cpp:7 " := by decide
  have hlen : (ascii "2024-05-01 12:00:00.042|INFO |a.cpp:7 ").length = 38 := by decide
  have hsize : kSmallBuffer = 4000 := rfl
  have hneed : (Insertion.string (List.replicate 3961 120)).need = 3962 :=
    (Insertion.need_of_appended rfl).trans (by rw [List.length_replicate])
  have htaken : taken sampleArgs [.string (List.replicate 3961 120)] =
      ascii "2024-05-01 12:00:00.042|INFO |a.cpp:7 " ++ List.replicate 3961 120 := by
    rw [taken, List.foldl_append, hheader, List.foldl_cons, List.foldl_nil,
      Insertion.accept_of_le (by omega)]
    rfl
  have hshort : ∀ e ∈ [Insertion.string (List.replicate 3961 120)], Short e := by
    intro e he s hs
    obtain rfl := List.mem_singleton.mp he
    obtain rfl := Option.some.inj hs
    rw [List.length_replicate]
    decide
  rintro ⟨record, aborts, hlog, hlast⟩
  rw [log_eq _ (by decide) (fun func h => by cases h) hshort] at hlog
  obtain ⟨rfl, -⟩ := Prod.mk.inj (Option.some.inj hlog)
  rw [getLast_accept_newline, htaken, List.length_append, List.length_replicate, hlen,
    hsize] at hlast
  rcases hlast with hroom | hlast
  · exact absurd hroom (by decide)
  · rw [List.getLast?_append, List.getLast?_replicate] at hlast
    exact absurd hlast (by decide)

end Logger

end XWeb.Base
