import XWeb.Lib.Framing
import XWeb.Net.InputStream

/-!
# Searching a `Buffer`

`findCRLF` and `findEOL` (`net/buffer.h` lines 48–71) look for the end of a line in the readable
bytes. A pointer is an index into `buffer_`, `NULL` is `none`; the overloads with a `start` assert
that it lies within the readable bytes.

* `find_resumed`: after a read, a search that begins where the last one gave up finds what a search
  of everything finds.
* `lineCalls_spec`, `lines_complete`: a message callback that takes lines out of the buffer gets the
  lines of the stream, however it arrives.
-/

namespace XWeb.Net

open XWeb.Lib

/-- `kCRLF` (`net/buffer.cpp` line 5). -/
def kCRLF : Bytes := [13, 10]

theorem kCRLF_ne_nil : kCRLF ≠ [] := List.cons_ne_nil _ _

/-- `memchr(s, c, n)`: the place of the first `c` among the `n` bytes from `s` on. -/
def memchr (s : Bytes) (c : UInt8) (n : ℕ) : Option ℕ := (s.take n).idxOf? c

namespace Buffer

/-! ## Model -/

/-- `findCRLF()` (lines 48–51). -/
def findCRLF (b : Buffer) : Option ℕ :=
  let crlf := b.readerIndex + search kCRLF b.contents
  if crlf = b.writerIndex then none else some crlf

/-- `findCRLF(const char* start)` (lines 53–59). -/
def findCRLFFrom (b : Buffer) (start : ℕ) : Option (Option ℕ) :=
  if b.readerIndex ≤ start ∧ start ≤ b.writerIndex then
    let crlf := start + search kCRLF (window b.buffer start b.writerIndex)
    some (if crlf = b.writerIndex then none else some crlf)
  else none

/-- `findEOL()` (lines 61–64). -/
def findEOL (b : Buffer) : Option ℕ :=
  (memchr b.peek 10 b.readableBytes).map fun i => b.readerIndex + i

/-- `findEOL(const char* start)` (lines 66–71). -/
def findEOLFrom (b : Buffer) (start : ℕ) : Option (Option ℕ) :=
  if b.readerIndex ≤ start ∧ start ≤ b.writerIndex then
    some ((memchr (b.buffer.drop start) 10 (sizeSub b.writerIndex start)).map fun i => start + i)
  else none

/-! ## First places -/

/-- The first place of `p` among the readable bytes from `start` on. -/
def firstFrom (p : Bytes) (b : Buffer) (start : ℕ) : Option ℕ :=
  let s := window b.buffer start b.writerIndex
  if search p s < s.length then some (start + search p s) else none

variable {b b' : Buffer} {p : Bytes} {start : ℕ}

theorem length_window_writer (h : b.Wf) (start : ℕ) :
    (window b.buffer start b.writerIndex).length = b.writerIndex - start :=
  length_window h.writer_le_size

theorem findCRLF_eq (h : b.Wf) : b.findCRLF = firstFrom kCRLF b b.readerIndex := by
  have hlen := length_window_writer h b.readerIndex
  have hle := search_le kCRLF (window b.buffer b.readerIndex b.writerIndex)
  have := h.reader_le_writer
  unfold findCRLF firstFrom contents
  dsimp only
  split_ifs <;> first | rfl | omega

theorem findCRLFFrom_eq (h : b.Wf) (h1 : b.readerIndex ≤ start) (h2 : start ≤ b.writerIndex) :
    b.findCRLFFrom start = some (firstFrom kCRLF b start) := by
  have hlen := length_window_writer h start
  have hle := search_le kCRLF (window b.buffer start b.writerIndex)
  unfold findCRLFFrom firstFrom
  dsimp only
  rw [if_pos ⟨h1, h2⟩]
  split_ifs <;> first | rfl | omega

theorem idxOf?_eq_search (c : UInt8) (s : Bytes) :
    s.idxOf? c = if search [c] s < s.length then some (search [c] s) else none := by
  induction s with
  | nil => rfl
  | cons x s ih =>
    rw [List.idxOf?_cons, ih, search, List.length_cons]
    by_cases hx : x = c
    · subst hx
      simp
    · have hpre : ¬ [c] <+: x :: s := by
        intro hpre
        exact hx (List.cons_prefix_cons.mp hpre).1.symm
      rw [if_neg hpre, if_neg (by simpa using hx)]
      split_ifs <;> first | rfl | omega

theorem findEOL_eq (h : b.Wf) : b.findEOL = firstFrom [10] b b.readerIndex := by
  unfold findEOL memchr firstFrom
  rw [h.take_peek.2, idxOf?_eq_search, contents]
  dsimp only
  split_ifs <;> rfl

theorem findEOLFrom_eq (h : b.Wf) (h1 : b.readerIndex ≤ start) (h2 : start ≤ b.writerIndex) :
    b.findEOLFrom start = some (firstFrom [10] b start) := by
  have hlt : b.writerIndex < 2 ^ 64 := lt_of_le_of_lt h.writer_le_size h.size_lt
  have hwindow : (b.buffer.drop start).take (b.writerIndex - start) =
      window b.buffer start b.writerIndex := by
    rw [List.take_drop, window]
    congr 2
    omega
  unfold findEOLFrom memchr firstFrom
  rw [if_pos ⟨h1, h2⟩, sizeSub_of_le h2 hlt, hwindow, idxOf?_eq_search]
  dsimp only
  split_ifs <;> rfl

/-- The search may begin behind a part in which `p` does not begin. -/
theorem firstFrom_add {i : ℕ} (hi : i ≤ b.contents.length)
    (hno : ∀ j < i, ¬ p <+: b.contents.drop j) :
    firstFrom p b (b.readerIndex + i) = firstFrom p b b.readerIndex := by
  have hdrop : window b.buffer (b.readerIndex + i) b.writerIndex = b.contents.drop i :=
    window_drop _ _ _ _
  have hsearch := search_drop hi hno
  have hlen : (b.contents.drop i).length = b.contents.length - i := List.length_drop
  unfold firstFrom
  dsimp only
  rw [hdrop]
  show _ = if search p b.contents < b.contents.length then some (b.readerIndex + search p b.contents)
    else none
  rw [hsearch, hlen]
  split_ifs
  · rw [Nat.add_assoc]
  · omega
  · omega
  · rfl

theorem firstFrom_eq_none (hp : p ≠ []) :
    firstFrom p b b.readerIndex = none ↔ ¬ p <:+: b.contents := by
  rw [← search_lt_iff hp]
  unfold firstFrom contents
  dsimp only
  split_ifs with hlt
  · exact iff_of_false (by simp) (not_not.mpr hlt)
  · exact iff_of_true rfl hlt

/-- Bytes have come behind those that were searched: all but the last `p.length - 1` may be left
    out. -/
theorem firstFrom_resumed (hp : p ≠ []) {more : Bytes} (h : b.Wf)
    (hc : b'.contents = b.contents ++ more) (hnone : firstFrom p b b.readerIndex = none) :
    firstFrom p b' (b'.readerIndex + (b.readableBytes + 1 - p.length)) =
      firstFrom p b' b'.readerIndex := by
  have hpos : 0 < p.length := List.length_pos_iff.mpr hp
  have hlen := h.length_contents
  have hlen' : b'.contents.length = b.contents.length + more.length := by
    rw [hc, List.length_append]
  refine firstFrom_add (by omega) fun j hj => ?_
  rw [hc]
  exact not_isPrefix_drop_append ((firstFrom_eq_none hp).mp hnone) more (by omega)

/-- What a search of everything returns. -/
theorem firstFrom_spec (hp : p ≠ []) :
    match firstFrom p b b.readerIndex with
    | none => ¬ p <:+: b.contents
    | some place => ∃ i, place = b.readerIndex + i ∧ p <+: b.contents.drop i ∧
        ∀ j < i, ¬ p <+: b.contents.drop j := by
  split
  · next hnone => exact (firstFrom_eq_none hp).mp hnone
  · next place hsome =>
    unfold firstFrom at hsome
    dsimp only at hsome
    split_ifs at hsome with hlt
    exact ⟨_, (Option.some.inj hsome).symm, isPrefix_drop_search hlt, fun j => not_isPrefix_drop⟩

end Buffer

/-- **Resumed searches.** For every well-formed buffer and everything that is read into it:
    `findCRLF` returns the first place if there is one; and when it or `findEOL` had found nothing
    before, a search that leaves out what was searched then, but for a last byte that may be the
    first of a `kCRLF`, fails no `assert` and returns what a search of everything returns. -/
theorem find_resumed {b : Buffer} (h : b.Wf) {bytes : Bytes}
    (hp : (BufferOp.readFd (.data bytes)).Pre b) :
    ∃ b', b.readFd (.data bytes) = some b' ∧
      (∀ place, b'.findCRLF = some place → ∃ i, place = b'.readerIndex + i ∧
        kCRLF <+: b'.contents.drop i ∧ ∀ j < i, ¬ kCRLF <+: b'.contents.drop j) ∧
      (b'.findCRLF = none → ¬ kCRLF <:+: b'.contents) ∧
      (b.findCRLF = none →
        b'.findCRLFFrom (b'.readerIndex + (b.readableBytes - 1)) = some b'.findCRLF) ∧
      (b.findEOL = none → b'.findEOLFrom (b'.readerIndex + b.readableBytes) = some b'.findEOL) := by
  obtain ⟨b', hb', hwf, hc⟩ := Buffer.readFd_data_spec h hp.2
  have hlen := h.length_contents
  have hlen' : b'.contents.length = b.contents.length + bytes.length := by
    rw [hc, List.length_append]
  have hwriter : b'.readerIndex + b'.contents.length = b'.writerIndex := by
    rw [hwf.length_contents, hwf.readableBytes_eq]
    have := hwf.reader_le_writer
    omega
  have hspec := Buffer.firstFrom_spec (b := b') kCRLF_ne_nil
  rw [← Buffer.findCRLF_eq hwf] at hspec
  refine ⟨b', hb', fun place hplace => ?_, fun hnone => ?_, fun hnone => ?_, fun hnone => ?_⟩
  · rw [hplace] at hspec
    exact hspec
  · rw [hnone] at hspec
    exact hspec
  · rw [Buffer.findCRLF_eq h] at hnone
    rw [Buffer.findCRLFFrom_eq hwf (by omega) (by omega), Buffer.findCRLF_eq hwf]
    exact congrArg some (Buffer.firstFrom_resumed kCRLF_ne_nil h hc hnone)
  · rw [Buffer.findEOL_eq h] at hnone
    rw [Buffer.findEOLFrom_eq hwf (by omega) (by omega), Buffer.findEOL_eq hwf]
    exact congrArg some (Buffer.firstFrom_resumed (by simp) h hc hnone)

/-- The first byte of a `kCRLF` has come before the read. -/
theorem find_resumed_sample :
    ∃ b', (Buffer.init.filled [97, 13]).readFd (.data [10, 98]) = some b' ∧
      b'.findCRLFFrom (b'.readerIndex + 1) = some (some (b'.readerIndex + 1)) := by
  have hwf : (Buffer.init.filled [97, 13]).Wf :=
    (Buffer.filled_spec Buffer.wf_init (by decide +kernel)).1
  have hpre : (BufferOp.readFd (.data [10, 98])).Pre (Buffer.init.filled [97, 13]) := by
    decide +kernel
  obtain ⟨b', hb', -, -, hcrlf, -⟩ := find_resumed hwf hpre
  have hfound : (Buffer.init.filled [97, 13, 10, 98]).findCRLF = some 9 := by decide +kernel
  have hread : b' = Buffer.init.filled [97, 13, 10, 98] :=
    Option.some.inj (hb'.symm.trans (by decide +kernel))
  subst hread
  refine ⟨_, hb', ?_⟩
  exact (hcrlf (by decide +kernel)).trans (congrArg some hfound)

/-! ## Taking lines -/

/-- The calls that `while (const char* crlf = buffer->findCRLF())` makes to take a line with
    `retrieveAsString(crlf - buffer->peek())` and its end with `retrieve(2)`. -/
def lineCalls : ℕ → Buffer → List MessageCall
  | 0, _ => []
  | fuel + 1, b =>
    match b.findCRLF with
    | none => []
    | some crlf =>
      let len := sizeSub crlf b.readerIndex
      .retrieveAsString len :: .retrieve 2 ::
        (((b.retrieve len).bind fun b => b.retrieve 2).map (lineCalls fuel)).getD []

/-- The message callback takes lines. -/
def Turn.TakesLines (s : Reader) (t : Turn) : Prop :=
  t.incoming ≠ [] → ∀ session ∈ t.event.step s.session,
    t.calls = lineCalls session.conn.inputBuffer.readableBytes session.conn.inputBuffer

instance (s : Reader) (t : Turn) : Decidable (t.TakesLines s) :=
  inferInstanceAs (Decidable (_ → _))

/-- A line is what comes before `kCRLF`. -/
def crlfLines : Framing UInt8 Bytes := delimited kCRLF kCRLF_ne_nil

theorem next_crlfLines (s : Bytes) : crlfLines.next s =
    if search kCRLF s < s.length then some (s.take (search kCRLF s), search kCRLF s + 2) else none :=
  rfl

theorem findCRLF_eq_next {b : Buffer} (h : b.Wf) :
    b.findCRLF = (crlfLines.next b.contents).map fun m => b.readerIndex + m.1.length := by
  rw [Buffer.findCRLF_eq h, next_crlfLines]
  unfold Buffer.firstFrom
  show (if search kCRLF b.contents < b.contents.length then _ else _) = _
  split_ifs with hlt
  · show _ = some (b.readerIndex + (b.contents.take (search kCRLF b.contents)).length)
    rw [List.length_take_of_le (Nat.le_of_lt hlt)]
    rfl
  · rfl

/-- A line, its end and what is behind it. -/
theorem eq_of_next_crlfLines {s line : Bytes} {n : ℕ} (h : crlfLines.next s = some (line, n)) :
    s = line ++ kCRLF ++ s.drop n ∧ n = line.length + 2 := by
  rw [next_crlfLines] at h
  split at h
  · next hlt =>
    obtain ⟨rfl, rfl⟩ := Prod.mk.inj (Option.some.inj h)
    obtain ⟨behind, hbehind⟩ := isPrefix_drop_search hlt
    have hdrop : s.drop (search kCRLF s + 2) = behind := by
      rw [← List.drop_drop, ← hbehind]
      rfl
    rw [hdrop, List.append_assoc, hbehind, List.take_append_drop,
      List.length_take_of_le (Nat.le_of_lt hlt)]
    exact ⟨rfl, rfl⟩
  · cases h

/-- The two calls that take a line and its end. -/
theorem line_spec {s : Reader} (h : s.session.Inv) {line behind : Bytes}
    (hline : s.contents = line ++ kCRLF ++ behind) :
    ∃ b s', (s.session.conn.inputBuffer.retrieve line.length).bind (fun b => b.retrieve 2) = some b ∧
      Along MessageCall.exec (fun s c => c.Possible s) s [.retrieveAsString line.length, .retrieve 2] ∧
      run MessageCall.exec s [.retrieveAsString line.length, .retrieve 2] = some s' ∧
      s'.session.conn.inputBuffer = b ∧ s'.taken = s.taken ++ [line, kCRLF] ∧ s'.contents = behind := by
  have hwf := h.inWf
  have hread : s.session.conn.inputBuffer.readableBytes = s.contents.length :=
    hwf.length_contents.symm
  rw [hline, List.length_append, List.length_append] at hread
  have hle : line.length ≤ s.session.conn.inputBuffer.readableBytes := by omega
  obtain ⟨b₁, hb₁, hwf₁, hc₁⟩ := Buffer.retrieve_spec hwf hle
  obtain ⟨c₁, hstr, -, -⟩ := Buffer.retrieveAsString_spec hwf hle
  have hsame : c₁ = b₁ := by
    rw [Buffer.retrieveAsString, if_pos hle, hb₁] at hstr
    exact (Prod.mk.inj (Option.some.inj hstr)).2.symm
  subst hsame
  have hin : s.session.conn.inputBuffer.contents = line ++ (kCRLF ++ behind) := by
    rw [← List.append_assoc]
    exact hline
  rw [hin, List.drop_left] at hc₁
  rw [hin, List.take_left] at hstr
  have hle₂ : 2 ≤ c₁.readableBytes := by
    rw [← hwf₁.length_contents, hc₁, List.length_append]
    exact Nat.le_add_right 2 _
  obtain ⟨b₂, hb₂, -, hc₂⟩ := Buffer.retrieve_spec hwf₁ hle₂
  rw [hc₁] at hc₂
  have hexec₁ : MessageCall.exec s (.retrieveAsString line.length) = some (s.take line c₁) := by
    rw [MessageCall.exec, hstr]
    rfl
  have hexec₂ : MessageCall.exec (s.take line c₁) (.retrieve 2) =
      some ((s.take line c₁).take kCRLF b₂) := by
    rw [MessageCall.exec, show (s.take line c₁).session.conn.inputBuffer = c₁ from rfl, hb₂,
      Reader.contents, show (s.take line c₁).session.conn.inputBuffer = c₁ from rfl, hc₁]
    rfl
  refine ⟨b₂, (s.take line c₁).take kCRLF b₂, by rw [hb₁]; exact hb₂, ?_, ?_, rfl, ?_, hc₂⟩
  · exact along_step hle hexec₁ (along_step hle₂ hexec₂ trivial)
  · rw [run_cons, hexec₁, Option.bind_some, run_cons, hexec₂]
    rfl
  · show s.taken ++ [line] ++ [kCRLF] = s.taken ++ [line, kCRLF]
    rw [List.append_assoc]
    rfl

/-- The loop, with enough fuel for the bytes in the buffer. -/
theorem lineCalls_spec (fuel : ℕ) : ∀ {s : Reader}, s.session.Inv → s.contents.length ≤ fuel →
    ∃ s' lines, Along MessageCall.exec (fun s c => c.Possible s) s
        (lineCalls fuel s.session.conn.inputBuffer) ∧
      run MessageCall.exec s (lineCalls fuel s.session.conn.inputBuffer) = some s' ∧
      s'.taken = s.taken ++ lines.flatMap (fun l => [l, kCRLF]) ∧
      crlfLines.Decodes s.contents lines s'.contents := by
  induction fuel with
  | zero =>
    intro s h hfuel
    have hempty : s.contents = [] := List.length_eq_zero_iff.mp (Nat.le_zero.mp hfuel)
    refine ⟨s, [], trivial, rfl, (List.append_nil _).symm, .rest ?_⟩
    rw [hempty]
    rfl
  | succ fuel ih =>
    intro s h hfuel
    have hfind := findCRLF_eq_next h.inWf
    cases hnext : crlfLines.next s.contents with
    | none =>
      have hnone : s.session.conn.inputBuffer.findCRLF = none := by
        rw [hfind, show crlfLines.next s.session.conn.inputBuffer.contents = none from hnext]
        rfl
      rw [lineCalls, hnone]
      exact ⟨s, [], trivial, rfl, (List.append_nil _).symm, .rest hnext⟩
    | some m =>
      obtain ⟨line, n⟩ := m
      obtain ⟨hline, hn⟩ := eq_of_next_crlfLines hnext
      have hsome : s.session.conn.inputBuffer.findCRLF =
          some (s.session.conn.inputBuffer.readerIndex + line.length) := by
        rw [hfind, show crlfLines.next s.session.conn.inputBuffer.contents = some (line, n) from hnext]
        rfl
      have hlen : sizeSub (s.session.conn.inputBuffer.readerIndex + line.length)
          s.session.conn.inputBuffer.readerIndex = line.length := by
        have hread : s.contents.length = _ := h.inWf.length_contents.trans h.inWf.readableBytes_eq
        have hle : line.length ≤ s.contents.length := by
          rw [hline, List.append_assoc, List.length_append]
          exact Nat.le_add_right _ _
        have := h.inWf.reader_le_writer
        have := h.inWf.writer_le_size
        have := h.inWf.size_lt
        rw [sizeSub_of_le (by omega) (by omega), Nat.add_sub_cancel_left]
      obtain ⟨b, s₁, hb, halong, hrun, rfl, htaken, hc⟩ := line_spec h hline
      have hinv : s₁.session.Inv := by
        obtain ⟨t, ht, hserves⟩ := MessageCall.run_spec _ h halong
        rw [← Option.some.inj (ht.symm.trans hrun)]
        exact hserves.session.inv
      have hshort : s₁.contents.length ≤ fuel := by
        rw [hc, List.length_drop]
        omega
      obtain ⟨s', lines, halong', hrun', htaken', hdecodes⟩ := ih hinv hshort
      rw [lineCalls, hsome]
      dsimp only
      rw [hlen, hb]
      refine ⟨s', line :: lines, ?_, ?_, ?_, .frame hnext (hc ▸ hdecodes)⟩
      · show Along _ _ s ([.retrieveAsString line.length, .retrieve 2] ++ lineCalls fuel _)
        refine along_append.mpr ⟨halong, fun t ht => ?_⟩
        rwa [Option.some.inj (ht.symm.trans hrun)]
      · show run _ s ([.retrieveAsString line.length, .retrieve 2] ++ lineCalls fuel _) = some s'
        exact run_append_eq_some.mpr ⟨s₁, hrun, hrun'⟩
      · rw [htaken', htaken, List.append_assoc]
        rfl

/-! ## Runs -/

/-- The lines taken so far are those of the bytes `q`. -/
def Reader.Lines (s : Reader) (q : Bytes) : Prop :=
  ∃ lines, s.taken = lines.flatMap (fun l => [l, kCRLF]) ∧ crlfLines.Decodes q lines s.contents

theorem lines_step {s : Reader} {q : Bytes} (h : s.session.Inv) (hl : s.Lines q) {t : Turn}
    (hp : t.event.Possible s.session) (ht : t.TakesLines s) :
    ∃ s', t.step s = some s' ∧ s'.session.Inv ∧ s'.Lines (q ++ t.incoming) := by
  obtain ⟨lines, htaken, hdecodes⟩ := hl
  obtain ⟨session, hevent, hok⟩ := Session.step_spec h.toCore hp
  have hinv : session.Inv := hok.inv h
  have hc : Reader.contents { s with session } = s.contents ++ t.incoming :=
    Session.input_step h.toCore hp hevent
  unfold Turn.step
  rw [hevent, Option.bind_some]
  by_cases hin : t.incoming = []
  · rw [hin, List.append_nil] at hc
    rw [if_pos hin, hin, List.append_nil]
    exact ⟨_, rfl, hinv, lines, htaken, hc ▸ hdecodes⟩
  · obtain ⟨s', more, halong, hrun, htaken', hmore⟩ := lineCalls_spec _ (s := { s with session }) hinv
      (Nat.le_of_eq hinv.inWf.length_contents)
    obtain ⟨s'', hs'', hserves⟩ := MessageCall.run_spec _ (s := { s with session }) hinv halong
    obtain rfl := Option.some.inj (hs''.symm.trans hrun)
    rw [if_neg hin, ht hin session hevent]
    refine ⟨_, hrun, hserves.session.inv, lines ++ more, ?_, hdecodes.append (hc ▸ hmore)⟩
    rw [htaken', htaken, List.flatMap_append]

section

variable (activeEvents : Flags) (sockfd : ℤ) (wcc hwm : Bool)

theorem lines_run (ts : List Turn)
    (hts : Along Turn.step (fun s t => t.event.Possible s.session ∧ t.TakesLines s)
      (Reader.established activeEvents sockfd wcc hwm) ts) :
    ∃ s, run Turn.step (Reader.established activeEvents sockfd wcc hwm) ts = some s ∧
      s.Lines (ts.flatMap Turn.incoming) := by
  have hstart : (Reader.established activeEvents sockfd wcc hwm).Lines [] := by
    refine ⟨[], rfl, ?_⟩
    have hempty : (Reader.established activeEvents sockfd wcc hwm).contents = [] :=
      Buffer.contents_init
    rw [hempty]
    exact .rest rfl
  have hsim : ∃ s, run Turn.step (Reader.established activeEvents sockfd wcc hwm) ts = some s ∧
      (s.session.Inv ∧ s.Lines (ts.foldl (fun q t => q ++ t.incoming) [])) := by
    refine run_refines _ (fun s q => s.session.Inv ∧ s.Lines q) ?_ ts _ []
      ⟨Session.inv_established activeEvents sockfd wcc hwm, hstart⟩ hts
    rintro s q t ⟨hinv, hl⟩ ⟨hp, ht⟩
    obtain ⟨s', hs', hinv', hl'⟩ := lines_step hinv hl hp ht
    exact ⟨s', hs', hinv', hl'⟩
  obtain ⟨s, hs, -, hl⟩ := hsim
  refine ⟨s, hs, ?_⟩
  rw [List.flatMap_eq_foldl]
  exact hl

/-- **Lines.** In every run of a connection whose message callback takes lines out of the buffer
    until `findCRLF` finds no more: no `assert` fails, the strings it gets are the lines of the
    bytes read, each with its end behind it, and what is in the buffer is the beginning of a line.
    -/
theorem lines_complete (ts : List Turn)
    (hts : Along Turn.step (fun s t => t.event.Possible s.session ∧ t.TakesLines s)
      (Reader.established activeEvents sockfd wcc hwm) ts) :
    ∃ (s : Reader) (lines : List Bytes),
      run Turn.step (Reader.established activeEvents sockfd wcc hwm) ts = some s ∧
      s.taken = lines.flatMap (fun l => [l, kCRLF]) ∧
      ts.flatMap Turn.incoming = lines.flatMap (fun l => l ++ kCRLF) ++ s.contents ∧
      (∀ l ∈ lines, ¬ kCRLF <:+: l) ∧ ¬ kCRLF <:+: s.contents := by
  obtain ⟨s, hs, lines, htaken, hdecodes⟩ := lines_run activeEvents sockfd wcc hwm ts hts
  exact ⟨s, lines, hs, htaken, hdecodes.delimited_spec⟩

/-- Two lines in three pieces, cut in the middle of an end. -/
theorem lines_complete_sample :
    ∃ (s : Reader) (lines : List Bytes), run Turn.step (Reader.established 0#32 8 false false)
      [⟨.handleRead (.data [97, 13]), []⟩,
        ⟨.handleRead (.data [10, 98, 99]), [.retrieveAsString 1, .retrieve 2]⟩,
        ⟨.handleRead (.data [13, 10, 100]), [.retrieveAsString 2, .retrieve 2]⟩] = some s ∧
      s.taken = lines.flatMap (fun l => [l, kCRLF]) ∧
      [97, 13, 10, 98, 99, 13, 10, 100] = lines.flatMap (fun l => l ++ kCRLF) ++ s.contents ∧
      (∀ l ∈ lines, ¬ kCRLF <:+: l) ∧ ¬ kCRLF <:+: s.contents :=
  lines_complete 0#32 8 false false _ (by decide +kernel)

/-- What arrives decides, not how it arrives. -/
theorem lines_of_incoming_eq (ts ts' : List Turn)
    (hts : Along Turn.step (fun s t => t.event.Possible s.session ∧ t.TakesLines s)
      (Reader.established activeEvents sockfd wcc hwm) ts)
    (hts' : Along Turn.step (fun s t => t.event.Possible s.session ∧ t.TakesLines s)
      (Reader.established activeEvents sockfd wcc hwm) ts')
    (heq : ts.flatMap Turn.incoming = ts'.flatMap Turn.incoming) :
    ∃ s s', run Turn.step (Reader.established activeEvents sockfd wcc hwm) ts = some s ∧
      run Turn.step (Reader.established activeEvents sockfd wcc hwm) ts' = some s' ∧
      s.taken = s'.taken ∧ s.contents = s'.contents := by
  obtain ⟨s, hs, lines, htaken, hdecodes⟩ := lines_run activeEvents sockfd wcc hwm ts hts
  obtain ⟨s', hs', lines', htaken', hdecodes'⟩ := lines_run activeEvents sockfd wcc hwm ts' hts'
  rw [heq] at hdecodes
  obtain ⟨rfl, hrest⟩ := hdecodes.unique hdecodes'
  exact ⟨s, s', hs, hs', htaken.trans htaken'.symm, hrest⟩

end

end XWeb.Net
