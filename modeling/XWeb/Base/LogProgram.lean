import XWeb.Base.Logger
import XWeb.Base.LogPipeline

/-!
# From `LOG_DEBUG` to the disk

A program that logs through `AsyncLogging`, like `test/test_log.cpp`: the macros of
`base/logger.h` (lines 81–89), the threshold and the output function of `base/logger.cpp`
(lines 14 and 28), and `XWeb.Base.LogPipeline` behind them. A statement is two steps: its test of
the threshold, with the construction of the logger, and the destructor of the logger, which calls
the output function.

* `passes`: the statements that make a logger.
* `LogProgram.step`: a step of the program.
* `length_record_le`: what a logger hands over is shorter than a buffer of `AsyncLogging`.
* `program_log`: where the record of each statement is, in every state of every run.
-/

namespace XWeb.Base

open XWeb.Lib

/-- The number of an enumerator of `LogLevel`. -/
def LogLevel.value : LogLevel → ℕ
  | .trace => 0
  | .debug => 1
  | .info => 2
  | .warn => 3
  | .error => 4
  | .fatal => 5

/-- Whether the macro for the level makes a logger when `g_logLevel` is `threshold` (lines
    81–89). -/
def passes (threshold : LogLevel) : LogLevel → Bool
  | .trace => threshold.value ≤ LogLevel.trace.value
  | .debug => threshold.value ≤ LogLevel.debug.value
  | .info => threshold.value ≤ LogLevel.info.value
  | .warn | .error | .fatal => true

/-- A statement like `LOG_DEBUG << 1`: its macro by the level, `__FILE__`, `__LINE__` and
    `__func__`, the time, what is inserted, and what the memory of the logger holds. -/
structure Statement where
  level : LogLevel
  filename : CString
  line : IntType.int.Value
  func : CString
  timeBuf : Option CString
  timeMs : ℕ
  insertions : List Insertion
  memory : Vector UInt8 kSmallBuffer
  filename_lt : filename.val.length < 2 ^ 31
  func_lt : func.val.length < 2 ^ 31
  insertions_short : ∀ e ∈ insertions, Logger.Short e

namespace Statement

/-- The arguments of the constructor. Only `LOG_TRACE` and `LOG_DEBUG` give `__func__`. -/
def args (st : Statement) : LoggerArgs :=
  { timeBuf := st.timeBuf
    timeMs := st.timeMs
    level := st.level
    filename := st.filename
    line := st.line
    func := match st.level with
      | .trace | .debug => some st.func
      | .info | .warn | .error | .fatal => none }

/-- What the output function is called with, and whether the program is aborted then. -/
def log (st : Statement) : Option (Bytes × Bool) :=
  Logger.log st.memory st.args st.insertions

/-- What the output function is called with. -/
def record (st : Statement) : Bytes :=
  Insertion.accept (Logger.taken st.args st.insertions) (.char newline)

theorem log_eq (st : Statement) : st.log = some (st.record, decide (st.level = .fatal)) := by
  refine Logger.log_eq _ st.filename_lt (fun func hfunc => ?_) st.insertions_short
  have hlt := st.func_lt
  unfold args at hfunc
  dsimp only at hfunc
  split at hfunc <;> cases hfunc <;> exact hlt

/-- A record is what is in the buffer of a logger. -/
theorem length_record_le (st : Statement) : st.record.length ≤ kSmallBuffer := by
  have hlog := st.log_eq
  simp only [log, Logger.log, Logger.destroy, Option.bind_eq_bind, Option.bind_eq_some_iff] at hlog
  obtain ⟨l, -, s, -, s', -, heq⟩ := hlog
  obtain ⟨hrecord, -⟩ := Prod.mk.inj (Option.some.inj heq)
  rw [← hrecord]
  exact (List.length_take_le' _ _).trans_eq s'.length_data

end Statement

/-- `g_output`: `defaultOutput`, or a function that calls `append` of an `AsyncLogging`. -/
inductive OutputFunc
  | defaultOutput
  | append
  deriving DecidableEq

/-- The variables of `base/logger.cpp`, the loggers that are alive, and `AsyncLogging` with its
    file. `aborting` is set when a destructor is about to call `abort`. `passed` and `emitted` are
    the past: the statements that have made a logger, and the output functions that have been
    called, each with the statement. -/
structure LogProgram where
  logLevel : LogLevel
  output : OutputFunc
  loggers : List Statement
  pipeline : LogPipeline
  aborting : Bool
  aborted : Bool
  passed : List Statement
  emitted : List (OutputFunc × Statement)

namespace LogProgram

/-- The first values (lines 14 and 28). -/
def start (disk : Disk) : LogProgram :=
  { logLevel := .trace
    output := .defaultOutput
    loggers := []
    pipeline := .construct disk
    aborting := false
    aborted := false
    passed := []
    emitted := [] }

/-- `defaultOutput` (lines 22–26). -/
def defaultOutput (p : LogPipeline) (msg : Bytes) : LogPipeline :=
  { p with logging := { p.logging with cout := p.logging.cout ++ msg } }

/-- `enter` and `leave` are the two steps of a statement, `leave` of the logger number `i` at the
    time `now`; `abort` is the call of it. `thread` is a step of `AsyncLogging`. -/
inductive Event
  | enter (st : Statement)
  | leave (i : ℕ) (now : ℤ)
  | abort
  | setLogLevel (level : LogLevel)
  | setOutput (out : OutputFunc)
  | thread (e : PipelineEvent)

/-- The call of `g_output`. -/
def emit (c : LogConfig) (m : LogMemory) (s : LogProgram) (record : Bytes) (now : ℤ) :
    Option LogPipeline :=
  match s.output with
  | .defaultOutput => some (defaultOutput s.pipeline record)
  | .append => s.pipeline.step c m { event := .append record, now := now, fwrite := [] }

/-- One step. -/
def step (c : LogConfig) (m : LogMemory) (s : LogProgram) : Event → Option LogProgram
  | .enter st =>
    if passes s.logLevel st.level then
      some { s with loggers := s.loggers ++ [st], passed := s.passed ++ [st] }
    else some s
  | .leave i now => do
    let st ← s.loggers[i]?
    let (record, aborts) ← st.log
    let pipeline ← s.emit c m record now
    some { s with
      loggers := s.loggers.eraseIdx i
      pipeline := pipeline
      aborting := s.aborting || aborts
      emitted := s.emitted ++ [(s.output, st)] }
  | .abort => some { s with aborted := true }
  | .setLogLevel level => some { s with logLevel := level }
  | .setOutput out => some { s with output := out }
  | .thread e => do
    let pipeline ← s.pipeline.step c m e
    some { s with pipeline := pipeline }

/-- What the program, the threads of `AsyncLogging` and the clock can bring, as long as the
    program has not been aborted. -/
def Legal (m : LogMemory) (s : LogProgram) (e : Event) : Prop :=
  s.aborted = false ∧
    match e with
    | .leave i now => i < s.loggers.length ∧ ∀ output ∈ s.pipeline.output, output.clock ≤ now
    | .abort => s.aborting = true
    | .thread e => s.pipeline.Legal m e ∧ e.event.lines = []
    | _ => True

instance (m : LogMemory) (s : LogProgram) (e : Event) : Decidable (Legal m s e) := by
  cases e <;> unfold Legal <;> infer_instance

/-- No iteration drops buffers, and the disk takes all that it is given. -/
def Lossless (s : LogProgram) : Event → Prop
  | .thread e => s.pipeline.NoDrop e ∧ s.pipeline.Accepts e
  | _ => True

instance (s : LogProgram) (e : Event) : Decidable (s.Lossless e) := by
  cases e <;> unfold Lossless <;> infer_instance

/-- What `AsyncLogging` is given in a call of the output function. -/
def appends : OutputFunc × Statement → List Bytes
  | (.append, st) => [st.record]
  | (.defaultOutput, _) => []

/-- The records that `AsyncLogging` was given. -/
def appended (s : LogProgram) : List Bytes := s.emitted.flatMap appends

variable {c : LogConfig} {m : LogMemory} {disk : Disk}

/-! ## The console -/

/-- Every line is echoed, whatever becomes of it in the buffers. -/
theorem step_cout {s s' : AsyncLogging} {e : AsyncLogging.Event} (hconsole : s.consoleLog = true)
    (hs : s.step e = some s') :
    s'.consoleLog = true ∧ s'.cout = s.cout ++ e.lines.flatten := by
  have hsame : s'.consoleLog = s.consoleLog ∧ s'.cout = s.cout → e.lines = [] →
      s'.consoleLog = true ∧ s'.cout = s.cout ++ e.lines.flatten := by
    rintro ⟨hlog, hcout⟩ hlines
    exact ⟨hlog.trans hconsole, by rw [hcout, hlines, List.flatten_nil, List.append_nil]⟩
  cases e with
  | append line =>
    have hs : s.append line = some s' := hs
    unfold AsyncLogging.append at hs
    split at hs
    · cases hs
    · split at hs <;> obtain rfl := Option.some.inj hs <;>
        exact ⟨hconsole, by simp [AsyncLogging.echo, AsyncLogging.replaceCurrent, hconsole,
          AsyncLogging.Event.lines]⟩
  | enter =>
    have hs : s.enter = some s' := hs
    unfold AsyncLogging.enter at hs
    split_ifs at hs
    obtain rfl := Option.some.inj hs
    exact hsame ⟨rfl, rfl⟩ rfl
  | test =>
    have hs : s.test = some s' := hs
    unfold AsyncLogging.test at hs
    split_ifs at hs <;> obtain rfl := Option.some.inj hs <;> exact hsame ⟨rfl, rfl⟩ rfl
  | lock =>
    obtain rfl := Option.some.inj hs
    have hlock : s.lock.consoleLog = s.consoleLog ∧ s.lock.cout = s.cout := by
      unfold AsyncLogging.lock
      split <;> exact ⟨rfl, rfl⟩
    exact hsame hlock rfl
  | batch =>
    have hs : s.batch = some s' := hs
    unfold AsyncLogging.batch at hs
    split_ifs at hs <;> obtain rfl := Option.some.inj hs <;> exact hsame ⟨rfl, rfl⟩ rfl
  | write =>
    have hs : s.write s.backend.index = some s' := hs
    unfold AsyncLogging.write at hs
    split at hs
    · obtain rfl := Option.some.inj hs
      exact hsame ⟨rfl, rfl⟩ rfl
    · cases hs
  | recycle =>
    simp only [AsyncLogging.step, AsyncLogging.recycle, Option.bind_eq_bind,
      Option.bind_eq_some_iff] at hs
    obtain ⟨_, -, _, -, hs⟩ := hs
    obtain rfl := Option.some.inj hs
    exact hsame ⟨rfl, rfl⟩ rfl
  | start | wake | stop | clear | notify | join =>
    obtain rfl := Option.some.inj hs
    exact hsame ⟨rfl, rfl⟩ rfl

/-! ## The invariant -/

theorem short_record (st : Statement) : AsyncLogging.Event.Short (.append st.record) := by
  have hle := st.length_record_le
  have hlt : kSmallBuffer < kLargeBuffer := by decide
  show st.record.length < kLargeBuffer
  omega

/-- What holds of the program. -/
structure Inv (Q : Bytes → Bytes → Prop) (c : LogConfig) (disk : Disk) (s : LogProgram) : Prop where
  piped : LogPipeline.Piped Q c disk s.pipeline s.appended
  console : s.pipeline.logging.consoleLog = true
  cout : s.pipeline.logging.cout = (s.emitted.map fun e => e.2.record).flatten
  once : (s.emitted.map Prod.snd ++ s.loggers).Perm s.passed

/-- And if nothing is lost. -/
structure Exact (s : LogProgram) : Prop where
  plain : LogPipeline.Plain s.pipeline.logging
  stream : s.pipeline.logging.stream = s.appended.flatten

theorem start_inv (Q : Bytes → Bytes → Prop) (c : LogConfig) (disk : Disk) :
    Inv Q c disk (start disk) :=
  ⟨LogPipeline.construct_piped Q c disk, rfl, rfl, .refl _⟩

theorem start_exact (disk : Disk) : Exact (start disk) := ⟨rfl, rfl⟩

/-- What the call of `g_output` does, with the record of `st`. -/
theorem emit_spec {Q : Bytes → Bytes → Prop} {s : LogProgram} (h : Inv Q c disk s) (st : Statement)
    {now : ℤ} (hclock : ∀ output ∈ s.pipeline.output, output.clock ≤ now) :
    ∃ p, s.emit c m st.record now = some p ∧
      p.logging.consoleLog = true ∧ p.logging.cout = s.pipeline.logging.cout ++ st.record ∧
      LogPipeline.Piped Q c disk p (s.appended ++ appends (s.output, st)) ∧
      (LogPipeline.Plain s.pipeline.logging → LogPipeline.Plain p.logging) ∧
      p.logging.stream = s.pipeline.logging.stream ++ (appends (s.output, st)).flatten := by
  unfold emit appends
  cases s.output with
  | defaultOutput =>
    obtain ⟨hinv, hstored, hcarries⟩ := h.piped
    refine ⟨_, rfl, h.console, rfl, ⟨⟨hinv.current, hinv.next, hinv.buffers, hinv.toWrite,
      hinv.backend⟩, ⟨hstored.before, hstored.behind⟩, ?_⟩, id, ?_⟩
    · rw [List.append_nil]
      exact hcarries
    · rw [List.flatten_nil, List.append_nil]
      rfl
  | append =>
    have henter : AsyncLogging.Event.append st.record ≠ .enter := by
      intro h
      cases h
    have hlegal : s.pipeline.Legal m ⟨.append st.record, now, []⟩ :=
      ⟨⟨trivial, short_record st⟩, fun h => absurd h henter, hclock⟩
    have hgiven : ∀ logging, s.pipeline.logging.step (.append st.record) = some logging →
        LogPipeline.given s.pipeline.logging logging = [] := by
      intro logging hs
      rw [LogPipeline.given, (AsyncLogging.append_output hs).1, List.drop_length]
    obtain ⟨p, hp, hlog, heffect, hpiped⟩ := LogPipeline.step_piped (c := c) h.piped hlegal
      fun logging hs call hcall => by
        rw [hgiven logging hs] at hcall
        exact absurd hcall List.not_mem_nil
    obtain ⟨hconsole, hcout⟩ := step_cout h.console hlog
    have hno : s.pipeline.logging.NoDrop (.append st.record) := by
      intro h
      cases h
    refine ⟨p, hp, hconsole, by rw [hcout]; simp [AsyncLogging.Event.lines], hpiped,
      fun hplain => ?_, heffect.stream (short_record st) hno⟩
    exact LogPipeline.plain_step hplain (AsyncLogging.step_place (e := .append st.record) trivial hlog) hno

theorem perm_leave {α : Type*} {passed emitted loggers : List α} {i : ℕ}
    (h : (emitted ++ loggers).Perm passed) (hi : i < loggers.length) :
    (emitted ++ [loggers[i]] ++ loggers.eraseIdx i).Perm passed := by
  refine List.Perm.trans ?_ h
  rw [List.append_assoc, List.singleton_append]
  exact (List.getElem_cons_eraseIdx_perm hi).append_left emitted

/-- Every step exists and keeps the invariants, the second if it loses nothing. -/
theorem step_inv {Q : Bytes → Bytes → Prop} {s : LogProgram} {e : Event} (h : Inv Q c disk s)
    (hlegal : Legal m s e)
    (hQ : ∀ p, e = .thread p → ∀ logging, s.pipeline.logging.step p.event = some logging →
      ∀ call ∈ LogPipeline.calls p (LogPipeline.given s.pipeline.logging logging),
        Q call.accepted call.line) :
    ∃ s', step c m s e = some s' ∧ Inv Q c disk s' ∧
      (Lossless s e → Exact s → Exact s') := by
  obtain ⟨-, hlegal⟩ := hlegal
  cases e with
  | enter st =>
    rw [step]
    split
    · refine ⟨_, rfl, ⟨h.piped, h.console, h.cout, ?_⟩,
        fun _ hexact => ⟨hexact.plain, hexact.stream⟩⟩
      rw [← List.append_assoc]
      exact h.once.append_right [st]
    · exact ⟨s, rfl, h, fun _ hexact => hexact⟩
  | leave i now =>
    obtain ⟨hi, hclock⟩ := hlegal
    obtain ⟨p, hp, hconsole, hcout, hpiped, hplain, hstream⟩ :=
      emit_spec (m := m) h s.loggers[i] hclock
    have hconcat : s.appended ++ appends (s.output, s.loggers[i]) =
        (s.emitted ++ [(s.output, s.loggers[i])]).flatMap appends := by
      simp [appended]
    rw [hconcat] at hpiped
    refine ⟨{ s with
      loggers := s.loggers.eraseIdx i
      pipeline := p
      aborting := s.aborting || decide (s.loggers[i].level = .fatal)
      emitted := s.emitted ++ [(s.output, s.loggers[i])] },
      ?_, ⟨hpiped, hconsole, ?_, ?_⟩, fun _ hexact => ⟨hplain hexact.plain, ?_⟩⟩
    · simp only [step, List.getElem?_eq_getElem hi, Statement.log_eq, hp, Option.bind_eq_bind,
        Option.bind_some]
    · rw [hcout, h.cout]
      simp
    · rw [List.map_append]
      exact perm_leave h.once hi
    · rw [hstream, hexact.stream, ← List.flatten_append, hconcat]
      rfl
  | abort | setLogLevel _ | setOutput _ =>
    exact ⟨_, rfl, ⟨h.piped, h.console, h.cout, h.once⟩,
      fun _ hexact => ⟨hexact.plain, hexact.stream⟩⟩
  | thread p =>
    obtain ⟨hlegal, hlines⟩ := hlegal
    obtain ⟨p', hp', hlog, heffect, hpiped⟩ :=
      LogPipeline.step_piped (c := c) h.piped hlegal (hQ p rfl)
    obtain ⟨hconsole, hcout⟩ := step_cout h.console hlog
    rw [hlines, List.append_nil] at hpiped
    refine ⟨{ s with pipeline := p' }, ?_, ⟨hpiped, hconsole, ?_, h.once⟩,
      fun ⟨hno, _⟩ hexact => ⟨?_, ?_⟩⟩
    · simp only [step, hp', Option.bind_eq_bind, Option.bind_some]
    · rw [hcout, hlines, List.flatten_nil, List.append_nil]
      exact h.cout
    · exact LogPipeline.plain_step hexact.plain (AsyncLogging.step_place hlegal.1.1 hlog) hno
    · rw [heffect.stream hlegal.1.2 hno, hlines, List.flatten_nil, List.append_nil]
      exact hexact.stream

/-- **From the statement to the disk.** In every run of a program that logs, with any number of
    threads, thresholds and output functions set on the way, and whatever `fwrite` returns, as
    long as the clock does not go back and the memory of `lastRoll_` holds less than the time at
    which the backend constructs its file: no step fails; of the statements that pass the
    threshold each has its logger still or has given its record to the output function, once; all
    records that have been given are on the console, in this order; and the volumes in the order
    of the days are, buffer for buffer, the beginnings of what `output` was given, whose buffers
    consist of whole records, in the order in which they were given to `AsyncLogging`. Unless
    something is lost there, the files and then the buffers hold exactly these. -/
theorem program_log (c : LogConfig) (m : LogMemory) (disk : Disk) (es : List Event)
    (h : Along (step c m) (Legal m) (start disk) es) :
    ∃ s, run (step c m) (start disk) es = some s ∧
      (s.emitted.map Prod.snd ++ s.loggers).Perm s.passed ∧
      s.pipeline.logging.cout = (s.emitted.map fun e => e.2.record).flatten ∧
      (∃ volumes, LogRun.Filed c disk s.pipeline.files volumes ∧
        List.Forall₂ (· <+: ·) (volumes.flatMap LogRun.Volume.lines)
          (s.pipeline.logging.output.map Chunk.bytes)) ∧
      Carries (AsyncLogging.handed s.pipeline.logging.output) s.appended ∧
      (Along (step c m) Lossless (start disk) es →
        ∃ volumes, LogRun.Filed c disk s.pipeline.files volumes ∧
          (volumes.flatMap LogRun.Volume.lines).flatten ++
            (s.pipeline.logging.unwritten.map AsyncLogging.text).flatten ++
              s.pipeline.logging.pending.flatten = s.appended.flatten) := by
  obtain ⟨s, hs, hinv⟩ := run_total (I := Inv (· <+: ·) c disk) (fun s e hinv hlegal => by
    obtain ⟨s', hs', hinv', -⟩ := step_inv hinv hlegal
      fun _ _ _ _ _ _ => List.take_prefix _ _
    exact ⟨s', hs', hinv'⟩) es _ (start_inv _ c disk) h
  refine ⟨s, hs, hinv.once, hinv.cout, hinv.piped.stored.filed,
    hinv.piped.carries.sublist s.pipeline.logging.handed_sublist, fun hlossless => ?_⟩
  obtain ⟨s', hs', hinv', hexact⟩ := run_total (I := fun s => Inv Eq c disk s ∧ Exact s)
    (fun s e hs hboth => by
      obtain ⟨hlegal, hlossless⟩ := hboth
      obtain ⟨s', hs', hinv', hkeep⟩ := step_inv hs.1 hlegal fun p hp => by
        subst hp
        exact hlossless.2
      exact ⟨s', hs', hinv', hkeep hlossless hs.2⟩) es _
    ⟨start_inv Eq c disk, start_exact disk⟩ (h.and hlossless)
  obtain rfl := Option.some.inj (hs.symm.trans hs')
  obtain ⟨volumes, hfiled, -, hbytes⟩ := hinv'.piped.stored.exact hexact.plain
  exact ⟨volumes, hfiled, hbytes.trans hexact.stream⟩

/-- `LOG_DEBUG << "ok"` in line 12 of a file. -/
def sampleStatement : Statement where
  level := .debug
  filename := ⟨ascii "src/main.cpp", by decide⟩
  line := ⟨12, by decide⟩
  func := ⟨ascii "run", by decide⟩
  timeBuf := some ⟨ascii "2024-05-02 09:30:00", by decide⟩
  timeMs := 42
  insertions := [.string (ascii "ok")]
  memory := Vector.replicate kSmallBuffer 0
  filename_lt := by decide
  func_lt := by decide
  insertions_short := by
    intro e he s hs
    obtain rfl := List.mem_singleton.mp he
    obtain rfl := Option.some.inj hs
    decide

/-- The output function is set, the statement is executed, and the backend writes its record. -/
def sampleRun : List Event :=
  [.thread ⟨.start, 1, []⟩, .enter sampleStatement, .setOutput .append, .leave 0 1,
    .thread ⟨.enter, 1, []⟩, .thread ⟨.test, 1, []⟩, .thread ⟨.lock, 1, []⟩, .thread ⟨.wake, 2, []⟩,
    .thread ⟨.batch, 2, []⟩, .thread ⟨.write, 2, [49]⟩]

theorem program_log_sample :
    ∃ s volumes, run (step (LogPipeline.outputConfig [97] [104] 10) .zero) (start fun _ => none)
        sampleRun = some s ∧
      LogRun.Filed (LogPipeline.outputConfig [97] [104] 10) (fun _ => none) s.pipeline.files volumes ∧
      (volumes.flatMap LogRun.Volume.lines).flatten = sampleStatement.record := by
  obtain ⟨s, hs, -, -, -, -, hexact⟩ := program_log (LogPipeline.outputConfig [97] [104] 10) .zero
    (fun _ => none) sampleRun (by decide +kernel)
  obtain ⟨volumes, hfiled, hbytes⟩ := hexact (by decide +kernel)
  have hend : (run (step (LogPipeline.outputConfig [97] [104] 10) .zero) (start fun _ => none)
      sampleRun).map (fun s => (s.pipeline.logging.unwritten.map AsyncLogging.text,
        s.pipeline.logging.pending.flatten, s.appended)) =
      some ([], [], [sampleStatement.record]) := by
    decide +kernel
  rw [hs, Option.map_some, Option.some.injEq, Prod.mk.injEq, Prod.mk.injEq] at hend
  obtain ⟨hunwritten, hpending, happended⟩ := hend
  refine ⟨s, volumes, hs, hfiled, ?_⟩
  rw [hunwritten, hpending, happended] at hbytes
  simpa using hbytes

end LogProgram

end XWeb.Base
