import XWeb.Base.AsyncLoggingStop
import XWeb.Base.LogFileOrder
import Mathlib.Data.List.Forall2

/-!
# From `append` to the disk

`AsyncLogging` (`base/async_logging.cpp`) with the `LogFile output` that `threadFunc` constructs in
line 55 and gives its buffers to. `XWeb.Base.AsyncLogging` says what `output` is given, and
`XWeb.Base.LogFile` what a `LogFile` makes of it; here the steps of the threads bring the calls of
`LogFile`, with what `time` and `fwrite` return in them.

* `LogPipeline.step`: a step of a thread, and of `output` with it.
* `step_output`, `step_begun`: `output` is given something only after line 55.
* `log_on_disk`: what is on the disk in every state of every run.
* `log_on_disk_exact`: every byte of the log, from the first file to the last buffer.
-/

namespace XWeb.Base

open XWeb.Lib

/-- The characters that `output.append` is given. -/
def Chunk.bytes : Chunk → Bytes
  | .notice text => ascii text
  | .data bytes => bytes

/-- `AsyncLogging` and `output`, from line 55 on; before that only the disk. -/
structure LogPipeline where
  logging : AsyncLogging
  disk : Disk
  output : Option LogRun

/-- A step of a thread of `AsyncLogging`. `now` is the time, and `fwrite` is what the calls of
    `fwrite` return if the step is one of `output`. -/
structure PipelineEvent where
  event : AsyncLogging.Event
  now : ℤ
  fwrite : List ℕ

namespace LogPipeline

/-- The arguments of line 55, the last two by default (`base/log_file.h` lines 9–13). -/
def outputConfig (basename hostname : Bytes) (rollSize : ℤ) : LogConfig :=
  { basename := basename
    hostname := hostname
    rollSize := rollSize
    flushInterval := 3
    checkEveryN := 1024
    checkEveryN_lt := by decide }

def construct (disk : Disk) : LogPipeline :=
  { logging := .construct, disk := disk, output := none }

/-- What `output.append` is given in the step from `before` to `after`. -/
def given (before after : AsyncLogging) : List Chunk := after.output.drop before.output.length

/-- The calls of `output.append`. -/
def calls (e : PipelineEvent) (chunks : List Chunk) : List LogAppend :=
  chunks.map fun chunk => { line := chunk.bytes, now := e.now, fwrite := e.fwrite }

/-- One step. In the step `enter` the backend constructs `output`. -/
def step (c : LogConfig) (m : LogMemory) (s : LogPipeline) (e : PipelineEvent) :
    Option LogPipeline := do
  let logging ← s.logging.step e.event
  if e.event = .enter then
    some { s with logging := logging, output := some (.start c m s.disk e.now) }
  else
    match s.output with
    | none => some { s with logging := logging }
    | some output => do
      let output ← run (LogRun.step c) output (calls e (given s.logging logging))
      some { s with logging := logging, output := some output }

/-- The files. -/
def files (s : LogPipeline) : Disk :=
  match s.output with
  | none => s.disk
  | some output => output.disk

/-- Times do not go back, and `lastRoll_` happens to be earlier than the time of line 55. -/
structure Timely (m : LogMemory) (s : LogPipeline) (e : PipelineEvent) : Prop where
  memory : e.event = .enter → m.lastRoll.toInt < e.now ∧ 0 < e.now
  clock : ∀ output ∈ s.output, output.clock ≤ e.now

instance (m : LogMemory) (s : LogPipeline) (e : PipelineEvent) : Decidable (Timely m s e) :=
  decidable_of_iff ((e.event = .enter → m.lastRoll.toInt < e.now ∧ 0 < e.now) ∧
    ∀ output ∈ s.output, output.clock ≤ e.now) ⟨fun h => ⟨h.1, h.2⟩, fun h => ⟨h.1, h.2⟩⟩

/-- The steps that the threads, the callers of `append` and the clock can bring. -/
def Legal (m : LogMemory) (s : LogPipeline) (e : PipelineEvent) : Prop :=
  s.logging.Legal e.event ∧ Timely m s e

instance (m : LogMemory) (s : LogPipeline) (e : PipelineEvent) : Decidable (Legal m s e) :=
  inferInstanceAs (Decidable (_ ∧ _))

/-- The disk takes all that it is given. -/
def Accepts (s : LogPipeline) (e : PipelineEvent) : Prop :=
  ∀ logging ∈ s.logging.step e.event,
    ∀ call ∈ calls e (given s.logging logging), call.accepted = call.line

instance (s : LogPipeline) (e : PipelineEvent) : Decidable (s.Accepts e) :=
  inferInstanceAs (Decidable (∀ logging ∈ s.logging.step e.event, _))

/-- No iteration collects more than 25 buffers. -/
def NoDrop (s : LogPipeline) (e : PipelineEvent) : Prop := s.logging.NoDrop e.event

instance (s : LogPipeline) (e : PipelineEvent) : Decidable (s.NoDrop e) :=
  inferInstanceAs (Decidable (s.logging.NoDrop e.event))

end LogPipeline

/-! ## What a step gives to `output` -/

namespace AsyncLogging

/-- The backend is behind line 55. -/
def Begun (s : AsyncLogging) : Prop := s.backend ≠ .notStarted ∧ s.backend ≠ .entering

/-- What the two steps of the backend that write add to `output`. -/
inductive Gives (s s' : AsyncLogging) : Event → Prop
  | nothing {e : Event} (same : s'.output = s.output) : Gives s s' e
  | notice (text : String) (many : 25 < s.buffersToWrite.length)
      (out : s'.output = s.output ++ [.notice text]) : Gives s s' .batch
  | data (bytes : Bytes) (out : s'.output = s.output ++ [.data bytes]) : Gives s s' .write

theorem append_output {s s' : AsyncLogging} {line : Bytes} (h : s.append line = some s') :
    s'.output = s.output ∧ s'.backend = s.backend := by
  unfold append at h
  split at h
  · cases h
  · split at h <;> obtain rfl := Option.some.inj h <;> exact ⟨rfl, rfl⟩

theorem recycle_output {s s' : AsyncLogging} (h : s.recycle = some s') :
    s'.output = s.output ∧ s'.backend = .top := by
  simp only [recycle, Option.bind_eq_bind, Option.bind_eq_some_iff] at h
  obtain ⟨_, -, _, -, h⟩ := h
  obtain rfl := Option.some.inj h
  exact ⟨rfl, rfl⟩

theorem batch_output {s s' : AsyncLogging} (h : s.batch = some s') :
    Gives s s' .batch ∧ s'.backend = .writing 0 := by
  unfold batch at h
  split_ifs at h with hempty hmany
  · obtain rfl := Option.some.inj h
    exact ⟨.notice _ hmany rfl, rfl⟩
  · obtain rfl := Option.some.inj h
    exact ⟨.nothing rfl, rfl⟩

theorem write_output {s s' : AsyncLogging} {i : ℕ} (h : s.write i = some s') :
    Gives s s' .write ∧ s'.backend = .writing (i + 1) := by
  unfold write at h
  split at h
  · obtain rfl := Option.some.inj h
    exact ⟨.data _ rfl, rfl⟩
  · cases h

/-- Where a step is: before line 55, at it or behind it. -/
inductive Place (s s' : AsyncLogging) (e : Event) : Prop
  | before (ne : e ≠ .enter) (early : ¬ s.Begun) (early' : ¬ s'.Begun)
      (same : s'.output = s.output)
  | at (eq : e = .enter) (early : ¬ s.Begun) (begun' : s'.Begun) (same : s'.output = s.output)
  | behind (ne : e ≠ .enter) (begun : s.Begun) (begun' : s'.Begun) (gives : Gives s s' e)

/-- A step that leaves the backend where it is and `output` as it is. -/
theorem place_of_same {s s' : AsyncLogging} {e : Event} (hne : e ≠ .enter)
    (hbackend : s'.backend = s.backend) (hout : s'.output = s.output) : Place s s' e := by
  have hiff : s'.Begun ↔ s.Begun := by rw [Begun, hbackend, Begun]
  by_cases hbegun : s.Begun
  · exact .behind hne hbegun (hiff.mpr hbegun) (.nothing hout)
  · exact .before hne hbegun (hiff.not.mpr hbegun) hout

/-- A step of the loop. -/
theorem place_of_loop {s s' : AsyncLogging} {e : Event} (hne : e ≠ .enter) {b b' : Backend}
    (hb : s.backend = b) (hb' : s'.backend = b')
    (hplace : b ≠ .notStarted ∧ b ≠ .entering ∧ b' ≠ .notStarted ∧ b' ≠ .entering)
    (hgives : Gives s s' e) : Place s s' e := by
  obtain ⟨h1, h2, h1', h2'⟩ := hplace
  exact .behind hne ⟨hb ▸ h1, hb ▸ h2⟩ ⟨hb' ▸ h1', hb' ▸ h2'⟩ hgives

theorem step_place {s s' : AsyncLogging} {e : Event} (hen : s.Enabled e)
    (hs : s.step e = some s') : Place s s' e := by
  cases e with
  | append line =>
    obtain ⟨hout, hbackend⟩ := append_output hs
    exact place_of_same nofun hbackend hout
  | start =>
    obtain rfl := Option.some.inj hs
    have hen : s.backend = .notStarted := hen
    exact .before nofun (fun hb => hb.1 hen) (fun hb => hb.2 rfl) rfl
  | enter =>
    have hs : s.enter = some s' := hs
    unfold enter at hs
    split_ifs at hs
    obtain rfl := Option.some.inj hs
    exact .at rfl (fun hb => hb.2 hen) ⟨nofun, nofun⟩ rfl
  | test =>
    have hs : s.test = some s' := hs
    unfold test at hs
    split_ifs at hs <;> obtain rfl := Option.some.inj hs
    · exact place_of_loop nofun hen rfl ⟨nofun, nofun, nofun, nofun⟩ (.nothing rfl)
    · exact place_of_loop nofun hen rfl ⟨nofun, nofun, nofun, nofun⟩ (.nothing rfl)
  | lock =>
    obtain rfl := Option.some.inj hs
    unfold lock
    split
    · exact place_of_loop nofun hen rfl ⟨nofun, nofun, nofun, nofun⟩ (.nothing rfl)
    · exact place_of_loop nofun hen rfl ⟨nofun, nofun, nofun, nofun⟩ (.nothing rfl)
  | wake =>
    obtain rfl := Option.some.inj hs
    exact place_of_loop nofun hen rfl ⟨nofun, nofun, nofun, nofun⟩ (.nothing rfl)
  | batch =>
    obtain ⟨hgives, hb'⟩ := batch_output hs
    exact place_of_loop nofun hen hb' ⟨nofun, nofun, nofun, nofun⟩ hgives
  | write =>
    obtain ⟨i, -, hb⟩ := hen
    obtain ⟨hgives, hb'⟩ := write_output hs
    exact place_of_loop nofun hb hb' ⟨nofun, nofun, nofun, nofun⟩ hgives
  | recycle =>
    obtain ⟨hout, hb'⟩ := recycle_output hs
    exact place_of_loop nofun hen hb' ⟨nofun, nofun, nofun, nofun⟩ (.nothing hout)
  | stop | clear | notify | join =>
    obtain rfl := Option.some.inj hs
    exact place_of_same nofun rfl rfl

/-- What `output` has been given is the beginning of the stream. -/
theorem handed_sublist (s : AsyncLogging) : (handed s.output).Sublist s.chunks := by
  rw [chunks, taken, List.append_assoc]
  exact List.sublist_append_left _ _

end AsyncLogging

namespace LogPipeline

variable {c : LogConfig} {m : LogMemory} {disk : Disk}

/-! ## Runs -/

/-- What has been given to `output` is on the disk, line for line related by `Q`. -/
structure Stored (Q : Bytes → Bytes → Prop) (c : LogConfig) (disk : Disk) (s : LogPipeline) :
    Prop where
  before : s.output = none → ¬ s.logging.Begun ∧ s.disk = disk ∧ s.logging.output = []
  behind : ∀ output ∈ s.output, s.logging.Begun ∧ ∃ lines, LogRun.Filing c disk output lines ∧
    List.Forall₂ Q lines (s.logging.output.map Chunk.bytes)

/-- The calls of `output.append` in a step. -/
theorem run_calls {e : PipelineEvent} (chunks : List Chunk) : ∀ {output : LogRun}
    {lines : List Bytes}, LogRun.Filing c disk output lines → output.clock ≤ e.now →
    ∃ output', run (LogRun.step c) output (calls e chunks) = some output' ∧
      LogRun.Filing c disk output' (lines ++ (calls e chunks).map LogAppend.accepted) := by
  induction chunks with
  | nil =>
    intro output lines h _
    exact ⟨output, rfl, by simpa [calls] using h⟩
  | cons chunk chunks ih =>
    intro output lines h hclock
    obtain ⟨output', hstep, hclock', hfiling⟩ := LogRun.step_filing h
      (e := ⟨chunk.bytes, e.now, e.fwrite⟩) hclock
    obtain ⟨output'', hrun, hfiling'⟩ := ih hfiling (Int.le_of_eq hclock')
    refine ⟨output'', run_cons_eq_some.mpr ⟨output', hstep, hrun⟩, ?_⟩
    simpa [calls] using hfiling'

/-- What is given to `output` is given behind what it has been given before. -/
theorem output_append_given {s s' : AsyncLogging} {e : AsyncLogging.Event}
    (h : AsyncLogging.Place s s' e) : s'.output = s.output ++ given s s' := by
  have hprefix : s.output <+: s'.output := by
    cases h with
    | before _ _ _ same => exact same ▸ List.prefix_rfl
    | «at» _ _ _ same => exact same ▸ List.prefix_rfl
    | behind _ _ _ gives =>
      cases gives with
      | nothing same => exact same ▸ List.prefix_rfl
      | notice text _ out => exact out ▸ List.prefix_append _ _
      | data bytes out => exact out ▸ List.prefix_append _ _
  obtain ⟨rest, hrest⟩ := hprefix
  rw [given, ← hrest, List.drop_left]

theorem Stored.step {Q : Bytes → Bytes → Prop} {s : LogPipeline} {e : PipelineEvent}
    {logging : AsyncLogging} (h : Stored Q c disk s) (ht : Timely m s e)
    (hen : s.logging.Enabled e.event) (hs : s.logging.step e.event = some logging)
    (hQ : ∀ call ∈ calls e (given s.logging logging), Q call.accepted call.line) :
    ∃ s', LogPipeline.step c m s e = some s' ∧ s'.logging = logging ∧ Stored Q c disk s' := by
  have hplace := AsyncLogging.step_place hen hs
  have hgiven := output_append_given hplace
  rw [LogPipeline.step, hs, Option.bind_eq_bind, Option.bind_some]
  cases hplace with
  | before ne early early' same =>
    -- there is no `output` yet
    cases hout : s.output with
    | some output => exact absurd (h.behind output hout).1 early
    | none =>
      obtain ⟨-, hdisk, hnone⟩ := h.before hout
      rw [if_neg ne]
      exact ⟨_, rfl, rfl, fun _ => ⟨early', hdisk, same.trans hnone⟩, nofun⟩
  | «at» eq early begun' same =>
    cases hout : s.output with
    | some output => exact absurd (h.behind output hout).1 early
    | none =>
      obtain ⟨-, hdisk, hnone⟩ := h.before hout
      obtain ⟨hlast, hpos⟩ := ht.memory eq
      rw [if_pos eq]
      refine ⟨_, rfl, rfl, nofun, fun output hmem => ⟨begun', [], ?_, ?_⟩⟩
      · obtain rfl := Option.some.inj hmem
        rw [hdisk]
        exact LogRun.start_filing disk hlast hpos
      · rw [same, hnone]
        exact .nil
  | behind ne begun begun' gives =>
    cases hout : s.output with
    | none => exact absurd begun (h.before hout).1
    | some output =>
      obtain ⟨-, lines, hfiling, hlines⟩ := h.behind output hout
      obtain ⟨output', hrun, hfiling'⟩ := run_calls (given s.logging logging) hfiling
        (ht.clock output hout)
      rw [if_neg ne]
      simp only [hrun, Option.bind_eq_bind, Option.bind_some]
      refine ⟨_, rfl, rfl, nofun, fun o hmem => ?_⟩
      obtain rfl := Option.some.inj hmem
      refine ⟨begun', _, hfiling', ?_⟩
      rw [hgiven, List.map_append]
      refine List.rel_append hlines ?_
      rw [calls, List.map_map, List.forall₂_map_left_iff, List.forall₂_map_right_iff,
        List.forall₂_same]
      exact fun chunk hchunk => hQ _ (List.mem_map_of_mem hchunk)

theorem construct_stored (Q : Bytes → Bytes → Prop) (c : LogConfig) (disk : Disk) :
    Stored Q c disk (construct disk) where
  before := fun _ => ⟨fun h => h.1 rfl, rfl, rfl⟩
  behind := nofun

/-- The volumes on the disk. -/
theorem Stored.filed {Q : Bytes → Bytes → Prop} {s : LogPipeline} (h : Stored Q c disk s) :
    ∃ volumes, LogRun.Filed c disk s.files volumes ∧
      List.Forall₂ Q (volumes.flatMap LogRun.Volume.lines) (s.logging.output.map Chunk.bytes) := by
  unfold files
  cases hout : s.output with
  | none =>
    obtain ⟨-, hdisk, hnone⟩ := h.before hout
    refine ⟨[], ?_, by rw [hnone]; exact .nil⟩
    rw [hdisk]
    exact LogRun.filed_nil c disk
  | some output =>
    obtain ⟨-, lines, hfiling, hlines⟩ := h.behind output hout
    obtain ⟨older, today, hfiled, -, rfl⟩ := hfiling.filed
    exact ⟨older ++ [today], hfiled, hlines⟩

/-- Without notices, what `output` is given are buffers. -/
def Plain (s : AsyncLogging) : Prop :=
  s.output.map Chunk.bytes = AsyncLogging.handed s.output

/-- If nothing is lost, the volumes and then the buffers are the stream. -/
theorem Stored.exact {s : LogPipeline} (h : Stored Eq c disk s) (hplain : Plain s.logging) :
    ∃ volumes, LogRun.Filed c disk s.files volumes ∧
      volumes.flatMap LogRun.Volume.lines = AsyncLogging.handed s.logging.output ∧
      (volumes.flatMap LogRun.Volume.lines).flatten ++
        (s.logging.unwritten.map AsyncLogging.text).flatten ++ s.logging.pending.flatten =
          s.logging.stream := by
  obtain ⟨volumes, hfiled, hlines⟩ := h.filed
  rw [List.forall₂_eq_eq_eq, hplain] at hlines
  refine ⟨volumes, hfiled, hlines, ?_⟩
  rw [hlines, AsyncLogging.stream_eq, AsyncLogging.taken, List.flatten_append]

theorem plain_step {s s' : AsyncLogging} {e : AsyncLogging.Event} (h : Plain s)
    (hplace : AsyncLogging.Place s s' e) (hno : s.NoDrop e) : Plain s' := by
  have hsame : s'.output = s.output → Plain s' := by
    intro hout
    rw [Plain, hout]
    exact h
  cases hplace with
  | before _ _ _ same => exact hsame same
  | «at» _ _ _ same => exact hsame same
  | behind _ _ _ gives =>
    cases gives with
    | nothing same => exact hsame same
    | notice text many out => exact absurd (hno rfl) (Nat.not_le.mpr many)
    | data bytes out =>
      rw [Plain, out, List.map_append, AsyncLogging.handed_append_data, h]
      rfl

/-- The stream of `AsyncLogging`, and the disk. -/
structure Piped (Q : Bytes → Bytes → Prop) (c : LogConfig) (disk : Disk) (s : LogPipeline)
    (lines : List Bytes) : Prop where
  inv : s.logging.Inv
  stored : Stored Q c disk s
  carries : Carries s.logging.chunks lines

theorem construct_piped (Q : Bytes → Bytes → Prop) (c : LogConfig) (disk : Disk) :
    Piped Q c disk (construct disk) [] :=
  ⟨AsyncLogging.construct_inv, construct_stored Q c disk, (carries_nil []).fresh⟩

theorem step_piped {Q : Bytes → Bytes → Prop} {s : LogPipeline} {lines : List Bytes}
    {e : PipelineEvent} (h : Piped Q c disk s lines) (hlegal : Legal m s e)
    (hQ : ∀ logging, s.logging.step e.event = some logging →
      ∀ call ∈ calls e (given s.logging logging), Q call.accepted call.line) :
    ∃ s', step c m s e = some s' ∧ s.logging.step e.event = some s'.logging ∧
      AsyncLogging.Effect s.logging s'.logging e.event ∧
      Piped Q c disk s' (lines ++ e.event.lines) := by
  obtain ⟨⟨hen, hshort⟩, ht⟩ := hlegal
  obtain ⟨logging, hlog, hinv, heffect⟩ := AsyncLogging.step_spec h.inv hen hshort.intLen
  obtain ⟨s', hs', rfl, hstored⟩ := h.stored.step ht hen hlog (hQ logging hlog)
  exact ⟨s', hs', hlog, heffect, hinv, hstored, heffect.carries hshort h.carries⟩

theorem foldl_lines (es : List PipelineEvent) :
    es.foldl (fun lines e => lines ++ e.event.lines) [] =
      AsyncLogging.appended (es.map PipelineEvent.event) := by
  rw [AsyncLogging.appended, List.flatMap_map, List.flatMap_eq_foldl]

/-- **The log on the disk.** For every interleaving of the producers, the backend and the thread
    that calls `start` and `stop`, with whatever `fwrite` returns, as long as the clock does not
    go back, lines are shorter than `kLargeBuffer` and the memory of `lastRoll_` holds less than
    the time of line 55: no call of `output` fails. The disk is the old one with one volume for
    each of some days; the volumes in the order of the days are, buffer for buffer, the beginnings
    of what `output` was given; and each buffer that `output` was given consists of whole lines,
    in the order of the `append` calls. -/
theorem log_on_disk (c : LogConfig) (m : LogMemory) (disk : Disk) (es : List PipelineEvent)
    (h : Along (step c m) (Legal m) (construct disk) es) :
    ∃ s volumes, run (step c m) (construct disk) es = some s ∧
      LogRun.Filed c disk s.files volumes ∧
      List.Forall₂ (· <+: ·) (volumes.flatMap LogRun.Volume.lines)
        (s.logging.output.map Chunk.bytes) ∧
      Carries (AsyncLogging.handed s.logging.output)
        (AsyncLogging.appended (es.map PipelineEvent.event)) := by
  have hrun := run_refines (fun lines (e : PipelineEvent) => lines ++ e.event.lines)
    (Piped (· <+: ·) c disk) (fun s lines e hs hlegal => by
      obtain ⟨s', hs', -, -, hpiped⟩ := step_piped hs hlegal
        fun _ _ call _ => List.take_prefix _ _
      exact ⟨s', hs', hpiped⟩) es _ _ (construct_piped _ c disk) h
  obtain ⟨s, hs, hpiped⟩ := hrun
  rw [foldl_lines] at hpiped
  obtain ⟨volumes, hfiled, hlines⟩ := hpiped.stored.filed
  exact ⟨s, volumes, hs, hfiled, hlines, hpiped.carries.sublist s.logging.handed_sublist⟩

/-- A line is appended, and the backend writes it at the time `2`; `fwrite` accepts one byte and
    fails then. -/
def sampleEvents (fwrite : List ℕ) : List PipelineEvent :=
  [⟨.start, 1, []⟩, ⟨.append [97, 10], 1, []⟩, ⟨.enter, 1, []⟩, ⟨.test, 1, []⟩, ⟨.lock, 1, []⟩,
    ⟨.wake, 2, []⟩, ⟨.append [98, 10], 2, []⟩, ⟨.batch, 2, []⟩, ⟨.write, 2, fwrite⟩]

theorem log_on_disk_sample :
    ∃ s volumes, run (step (outputConfig [97] [104] 10) .zero) (construct fun _ => none)
        (sampleEvents [1, 0]) = some s ∧
      LogRun.Filed (outputConfig [97] [104] 10) (fun _ => none) s.files volumes ∧
      List.Forall₂ (· <+: ·) (volumes.flatMap LogRun.Volume.lines)
        (s.logging.output.map Chunk.bytes) ∧
      Carries (AsyncLogging.handed s.logging.output) [[97, 10], [98, 10]] :=
  log_on_disk _ .zero _ (sampleEvents [1, 0]) (by decide +kernel)

/-- **Every byte of the log.** As long as no iteration collects more than 25 buffers and the disk
    takes what it is given: the volumes in the order of the days, then the buffers that the backend
    is writing, then those of the producers, are the appended lines in their order; and no line is
    split between two buffers, let alone between two files. -/
theorem log_on_disk_exact (c : LogConfig) (m : LogMemory) (disk : Disk) (es : List PipelineEvent)
    (h : Along (step c m) (Legal m) (construct disk) es)
    (hno : Along (step c m) NoDrop (construct disk) es)
    (haccepts : Along (step c m) Accepts (construct disk) es) :
    ∃ s volumes, run (step c m) (construct disk) es = some s ∧
      LogRun.Filed c disk s.files volumes ∧
      Carries (volumes.flatMap LogRun.Volume.lines)
        (AsyncLogging.appended (es.map PipelineEvent.event)) ∧
      (volumes.flatMap LogRun.Volume.lines).flatten ++
        (s.logging.unwritten.map AsyncLogging.text).flatten ++ s.logging.pending.flatten =
          (AsyncLogging.appended (es.map PipelineEvent.event)).flatten := by
  have hrun := run_refines (fun lines (e : PipelineEvent) => lines ++ e.event.lines)
    (fun s lines => Piped Eq c disk s lines ∧ Plain s.logging ∧
      s.logging.stream = lines.flatten) ?_ es _ _
    ⟨construct_piped _ c disk, rfl, rfl⟩ ((h.and hno).and haccepts)
  · obtain ⟨s, hs, hpiped, hplain, hstream⟩ := hrun
    rw [foldl_lines] at hpiped hstream
    obtain ⟨volumes, hfiled, hlines, hbytes⟩ := hpiped.stored.exact hplain
    refine ⟨s, volumes, hs, hfiled, ?_, hbytes.trans hstream⟩
    rw [hlines]
    exact hpiped.carries.sublist s.logging.handed_sublist
  · rintro s lines e ⟨hpiped, hplain, hstream⟩ ⟨⟨hlegal, hno⟩, haccepts⟩
    obtain ⟨s', hs', hlog, heffect, hpiped'⟩ := step_piped hpiped hlegal haccepts
    have hplace := AsyncLogging.step_place hlegal.1.1 hlog
    refine ⟨s', hs', hpiped', plain_step hplain hplace hno, ?_⟩
    rw [heffect.stream hlegal.1.2 hno, hstream, List.flatten_append]

theorem log_on_disk_exact_sample :
    ∃ s volumes, run (step (outputConfig [97] [104] 10) .zero) (construct fun _ => none)
        (sampleEvents [2]) = some s ∧
      LogRun.Filed (outputConfig [97] [104] 10) (fun _ => none) s.files volumes ∧
      Carries (volumes.flatMap LogRun.Volume.lines) [[97, 10], [98, 10]] ∧
      (volumes.flatMap LogRun.Volume.lines).flatten ++
        (s.logging.unwritten.map AsyncLogging.text).flatten ++ s.logging.pending.flatten =
          [97, 10, 98, 10] :=
  log_on_disk_exact _ .zero _ (sampleEvents [2]) (by decide +kernel) (by decide +kernel)
    (by decide +kernel)

end LogPipeline

end XWeb.Base
