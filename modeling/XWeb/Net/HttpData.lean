import XWeb.Base.RioAhead
import XWeb.Net.Channel

/-!
# `HttpData`

Model of `read_requesthdrs` and `HttpData::handleRead` (`net/http_data.cpp` lines 12–25 and
77–93). What `printf` and `sscanf` make of the first line is not used, but they read it: up to its
NUL, and without one past the end of the array. The `rio_t` is a local of `handleRead`, and so what
it has read ahead is gone when `handleRead` returns.

* `readRequesthdrs`, `handleRead`: the functions.
* `serve`: `handleRead` is called until the stream is exhausted.
* `readRequesthdrs_spec`, `handleRead_spec`: headers up to an empty line, and one request.
-/

namespace XWeb.Net

open XWeb.Lib XWeb.Base

def MAXLINE : ℕ := 1024

/-- `"\r\n"`, as it is sent. -/
def emptyLine : Bytes := [13, 10]

/-- `strcmp(buf, "\r\n")` is `0`. No more than three bytes are compared. -/
def isEmptyLine (buf : Bytes) : Bool := buf.take 3 = [13, 10, 0]

/-- The memory in which a call of `handleRead` finds its locals: `rio_buf`, its own `buf`, and
    that of `read_requesthdrs`. -/
structure HttpFrame where
  rioBuf : Bytes
  buf : Bytes
  hdrsBuf : Bytes

structure HttpFrame.Sized (f : HttpFrame) : Prop where
  rioBuf : f.rioBuf.length = RIO_BUFSIZE
  buf : f.buf.length = MAXLINE
  hdrsBuf : f.hdrsBuf.length = MAXLINE

/-- The loop of `read_requesthdrs` (lines 16–23), with at most `calls` tests of its condition. -/
def requesthdrsLoop : ℕ → Bytes → Rio → Reads → Option (ℤ × Rio × Reads)
  | 0, _, _, _ => none
  | calls + 1, buf, rp, fd =>
    if isEmptyLine buf then some (0, rp, fd)
    else do
      let (ret, l) ← rp.rioReadlineb fd buf MAXLINE
      if ret = 0 then some (1, l.rp, l.fd) else requesthdrsLoop calls l.usrbuf l.rp l.fd

/-- `read_requesthdrs`. The result of the first call of `rio_readlineb` is not looked at. -/
def readRequesthdrs (calls : ℕ) (buf : Bytes) (rp : Rio) (fd : Reads) : Option (ℤ × Rio × Reads) := do
  let (_, l) ← rp.rioReadlineb fd buf MAXLINE
  requesthdrsLoop calls l.usrbuf l.rp l.fd

/-- The string in a block of memory. -/
def cString (buf : Bytes) : Bytes := buf.takeWhile (· ≠ 0)

/-- What `printf` and `sscanf` read at `buf`. Without a NUL they read past the end of the array. -/
def readString (buf : Bytes) : Option Bytes := if 0 ∈ buf then some (cString buf) else none

/-- `fd_`, as the results of `read` that are still to come, and `channel_`. -/
structure HttpData where
  fd : Reads
  channel : Channel

/-- `handleRead`: whether it recognises a request, for which it asks for WRITE, and its `rio_t` at
    the end. -/
def HttpData.handleRead (calls : ℕ) (f : HttpFrame) (h : HttpData) :
    Option (Bool × Rio × HttpData) := do
  let (_, l) ← (Rio.init f.rioBuf).rioReadlineb h.fd f.buf MAXLINE
  let _ ← readString l.usrbuf
  let (ret, rp, fd) ← readRequesthdrs calls f.hdrsBuf l.rp l.fd
  if ret = 1 then some (false, rp, { h with fd })
  else some (true, rp, { fd, channel := h.channel.setEvent (CHANNEL_READ ||| CHANNEL_WRITE) })

/-- Calls of `handleRead` until the stream is exhausted, in the frames from `frames i` on. For
    each request that is recognised, the bytes behind it that go with the `rio_t`. -/
def serve (calls : ℕ) (frames : ℕ → HttpFrame) : ℕ → ℕ → HttpData → Option (List Bytes)
  | 0, _, _ => none
  | n + 1, i, h =>
    if h.fd.stream = [] then some []
    else do
      let (done, rp, h) ← h.handleRead calls (frames i)
      let lost ← serve calls frames n (i + 1) h
      if done then some (rp.unread :: lost) else some lost

theorem readString_of_mem {buf : Bytes} (h : 0 ∈ buf) : readString buf = some (cString buf) := if_pos h

theorem mem_of_readString {buf text : Bytes} (h : readString buf = some text) : 0 ∈ buf := by
  unfold readString at h
  split_ifs at h with hnul
  exact hnul

/-! ## Lines as they are read -/

/-- A call of `rio_readlineb` reads `p` and no further. -/
def Piece (p : Bytes) : Prop := p ≠ [] ∧ ∀ s, firstLine newline (MAXLINE - 1) (p ++ s) = p

theorem piece_of_sep {text : Bytes} (hsep : newline ∉ text) (hlen : text.length < MAXLINE - 1) :
    Piece (text ++ [newline]) := by
  refine ⟨by simp, fun s => ?_⟩
  rw [List.append_assoc]
  exact firstLine_append_sep hsep hlen s

theorem piece_of_full {text : Bytes} (hsep : newline ∉ text) (hlen : text.length = MAXLINE - 1) :
    Piece text := by
  refine ⟨?_, fun s => ?_⟩
  · rintro rfl
    exact absurd hlen (by decide)
  · rw [← hlen]
    exact firstLine_append_full hsep s

theorem piece_newline : Piece [newline] :=
  show Piece ([] ++ [newline]) from piece_of_sep List.not_mem_nil (by decide)

theorem piece_emptyLine : Piece emptyLine :=
  show Piece ([13] ++ [newline]) from piece_of_sep (by decide) (by decide)

/-- In a piece there is no newline but at the end. -/
theorem Piece.sep_last {p : Bytes} (h : Piece p) : newline ∉ p.dropLast := by
  have hline : IsLine newline (MAXLINE - 1) (p ++ []) _ := isLine_firstLine (MAXLINE - 1) (p ++ [])
  rw [h.2 []] at hline
  exact hline.sep_last

/-- Memory that holds a line and a NUL. -/
theorem isEmptyLine_nul {p : Bytes} (hlast : newline ∉ p.dropLast) (t : Bytes) :
    isEmptyLine (p ++ 0 :: t) = true ↔ p = emptyLine := by
  unfold isEmptyLine emptyLine
  match p, hlast with
  | [], _ => simp
  | [a], _ => simp
  | [a, b], _ => simp
  | a :: b :: c :: p, hlast =>
    have hb : b ≠ 10 := by
      rintro rfl
      exact hlast (by simp [newline])
    simp [hb]

/-- Once a line has been stored, the test of the loop is whether it is the empty line. -/
theorem isEmptyLine_stored {l : Rio.Readlineb} {p : Bytes} (hlast : newline ∉ p.dropLast)
    (hst : l.stored = p) (hnul : l.usrbuf[l.bufp]? = some 0) :
    isEmptyLine l.usrbuf = true ↔ p = emptyLine := by
  obtain ⟨hlt, hzero⟩ := List.getElem?_eq_some_iff.mp hnul
  have hbuf : l.usrbuf = p ++ 0 :: l.usrbuf.drop (l.bufp + 1) := by
    rw [← hst, ← hzero, List.getElem_cons_drop]
    exact (List.take_append_drop l.bufp l.usrbuf).symm
  rw [hbuf]
  exact isEmptyLine_nul hlast _

/-- Pieces are lines of a stream that begins with them. -/
theorem lines_pieces {ps : List Bytes} (h : ∀ p ∈ ps, Piece p) {s : Bytes} {ls : List Bytes}
    (hls : Lines newline (MAXLINE - 1) s ls) :
    Lines newline (MAXLINE - 1) (ps.flatten ++ s) (ps ++ ls) := by
  induction ps with
  | nil => exact hls
  | cons p ps ih =>
    obtain ⟨hp, hps⟩ := List.forall_mem_cons.mp h
    have hline : IsLine newline (MAXLINE - 1) (p ++ (ps.flatten ++ s)) _ := isLine_firstLine _ _
    rw [hp.2] at hline
    rw [List.flatten_cons, List.append_assoc]
    refine .cons (by simp [hp.1]) hline ?_
    rw [List.drop_left]
    exact ih hps

/-- What is behind the first empty line. -/
def behindEmptyLine (ls : List Bytes) : Bytes := (ls.dropWhile (· ≠ emptyLine)).tail.flatten

/-! ## The headers -/

variable {cs : List Bytes} {rp : Rio} {fd : Reads} {buf : Bytes}

/-- The next round of the loop is what `read_requesthdrs` begins with. -/
theorem requesthdrsLoop_succ (h : Rio.Held cs rp fd) (hbuf : buf.length = MAXLINE)
    (htest : isEmptyLine buf = false) (hs : rp.unread ++ fd.stream ≠ []) (calls : ℕ) :
    requesthdrsLoop (calls + 1) buf rp fd = readRequesthdrs calls buf rp fd := by
  obtain ⟨ret, l, hcall, -, -, hret, -⟩ :=
    Rio.rioReadlineb_spec h.wf h.chunked hbuf (by decide) (by decide)
  have hnz : ret ≠ 0 := mt hret.mp hs
  simp [requesthdrsLoop, readRequesthdrs, htest, hcall, hnz]

/-- At end-of-file the loop gives up, unless the memory of `buf` happens to hold an empty line. -/
theorem readRequesthdrs_end (h : Rio.Held cs rp fd) (hs : rp.unread ++ fd.stream = [])
    (htest : isEmptyLine buf = false) {calls : ℕ} (hcalls : 0 < calls) :
    ∃ rp' fd', readRequesthdrs calls buf rp fd = some (1, rp', fd') ∧ Rio.Held cs rp' fd' ∧
      rp'.unread ++ fd'.stream = [] := by
  obtain ⟨calls, rfl⟩ := Nat.exists_eq_succ_of_ne_zero (Nat.ne_of_gt hcalls)
  obtain ⟨l, hcall, hbuf, hheld, hnil⟩ := Rio.rioReadlineb_end h hs buf MAXLINE (by decide)
  obtain ⟨l', hcall', -, hheld', hnil'⟩ :=
    Rio.rioReadlineb_end hheld hnil buf MAXLINE (by decide)
  refine ⟨l'.rp, l'.fd, ?_, hheld', hnil'⟩
  simp [readRequesthdrs, requesthdrsLoop, hcall, hbuf, htest, hcall']

/-- The lines of the stream are read up to the first that is empty, or to end-of-file. -/
theorem readRequesthdrs_lines {s : Bytes} {ls : List Bytes} (hls : Lines newline (MAXLINE - 1) s ls) :
    ∀ {calls : ℕ} {buf : Bytes} {rp : Rio} {fd : Reads}, Rio.Held cs rp fd → buf.length = MAXLINE →
      rp.unread ++ fd.stream = s → (s = [] → isEmptyLine buf = false) →
      (ls.takeWhile (· ≠ emptyLine)).length < calls →
      ∃ rp' fd', readRequesthdrs calls buf rp fd = some (if emptyLine ∈ ls then 0 else 1, rp', fd') ∧
        Rio.Held cs rp' fd' ∧ rp'.unread ++ fd'.stream = behindEmptyLine ls := by
  induction hls with
  | nil =>
    intro calls buf rp fd h _ hs htest hcalls
    exact readRequesthdrs_end h hs (htest rfl) hcalls
  | @cons s l ls hne hl hls ih =>
    intro calls buf rp fd h hbuf hs _ hcalls
    obtain ⟨calls, rfl⟩ := Nat.exists_eq_succ_of_ne_zero (Nat.ne_of_gt (Nat.zero_lt_of_lt hcalls))
    obtain ⟨ret, r, hcall, -, -, hret, hline⟩ :=
      Rio.rioReadlineb_spec h.wf h.chunked hbuf (by decide) (by decide)
    have hheld := Rio.rioReadlineb_held h hcall
    rw [hs] at hret hline
    obtain ⟨hst, hrem, hlen, hnul⟩ := hline (mt hret.mp hne)
    rw [← hl.eq_firstLine] at hst
    rw [hst] at hrem
    have htest := isEmptyLine_stored hl.sep_last hst hnul
    by_cases hempty : l = emptyLine
    · refine ⟨r.rp, r.fd, ?_, hheld, ?_⟩
      · simp [readRequesthdrs, hcall, requesthdrsLoop, htest.mpr hempty, hempty]
      · rw [behindEmptyLine, List.dropWhile_cons_of_neg (by simpa using hempty), List.tail_cons,
          hls.flatten_eq]
        exact hrem
    · have hfalse : isEmptyLine r.usrbuf = false := Bool.eq_false_iff.mpr (mt htest.mp hempty)
      rw [List.takeWhile_cons_of_pos (by simpa using hempty)] at hcalls
      obtain ⟨rp', fd', hall, hheld', hrest⟩ :=
        ih hheld hlen hrem (fun _ => hfalse) (Nat.lt_of_succ_lt_succ hcalls)
      have hmem : emptyLine ∈ l :: ls ↔ emptyLine ∈ ls := by simp [Ne.symm hempty]
      have hbehind : behindEmptyLine (l :: ls) = behindEmptyLine ls := by
        rw [behindEmptyLine, List.dropWhile_cons_of_pos (by simpa using hempty), behindEmptyLine]
      simp only [hmem, hbehind]
      by_cases hmore : s.drop l.length = []
      · obtain ⟨r', hend, -, hheld'', hnil⟩ := Rio.rioReadlineb_end hheld
          (show r.rp.unread ++ r.fd.stream = [] from hrem.trans hmore) r.usrbuf MAXLINE (by decide)
        have hls' := hls
        rw [hmore] at hls'
        obtain rfl := hls'.unique .nil
        refine ⟨r'.rp, r'.fd, ?_, hheld'', hnil⟩
        simp [readRequesthdrs, hcall, requesthdrsLoop, hfalse, hend]
      · refine ⟨rp', fd', ?_, hheld', hrest⟩
        rw [← hall, ← requesthdrsLoop_succ hheld hlen hfalse
          (show r.rp.unread ++ r.fd.stream ≠ [] from fun h => hmore (hrem.symm.trans h)) calls]
        simp [readRequesthdrs, hcall]

/-- Headers and an empty line are read to their end. -/
theorem readRequesthdrs_spec (ps : List Bytes) (rest : Bytes) {calls : ℕ} (h : Rio.Held cs rp fd)
    (hbuf : buf.length = MAXLINE) (hps : ∀ p ∈ ps, Piece p ∧ p ≠ emptyLine)
    (hs : rp.unread ++ fd.stream = ps.flatten ++ (emptyLine ++ rest)) (hcalls : ps.length < calls) :
    ∃ rp' fd', readRequesthdrs calls buf rp fd = some (0, rp', fd') ∧ Rio.Held cs rp' fd' ∧
      rp'.unread ++ fd'.stream = rest := by
  obtain ⟨ls, hls⟩ : ∃ ls, Lines newline (MAXLINE - 1) rest ls := exists_lines (by decide) rest
  have hpiece : ∀ p ∈ [emptyLine], Piece p := by simp [piece_emptyLine]
  have hempty := lines_pieces hpiece hls
  rw [List.flatten_singleton, List.singleton_append] at hempty
  have hne : ∀ p ∈ ps, decide (p ≠ emptyLine) = true := fun p hp => decide_eq_true (hps p hp).2
  obtain ⟨rp', fd', hall, hheld, hrest⟩ := readRequesthdrs_lines
    (lines_pieces (fun p hp => (hps p hp).1) hempty) h hbuf hs (by simp [emptyLine]) (by
      rw [List.takeWhile_append_of_pos hne, List.takeWhile_cons_of_neg (by simp), List.append_nil]
      exact hcalls)
  rw [if_pos (by simp)] at hall
  refine ⟨rp', fd', hall, hheld, hrest.trans ?_⟩
  rw [behindEmptyLine, List.dropWhile_append_of_pos hne, List.dropWhile_cons_of_neg (by simp),
    List.tail_cons, hls.flatten_eq]

/-! ## One activation -/

namespace HttpData

variable {f : HttpFrame} {h : HttpData} {calls : ℕ}

/-- A line, headers and an empty line are recognised as a request, whatever the line is. -/
theorem handleRead_spec (hf : f.Sized) (hfd : h.fd.Chunked) {first : Bytes} (hfirst : Piece first)
    {ps : List Bytes} (hps : ∀ p ∈ ps, Piece p ∧ p ≠ emptyLine) {rest : Bytes}
    (hs : h.fd.stream = first ++ (ps.flatten ++ (emptyLine ++ rest))) (hcalls : ps.length < calls) :
    ∃ rp h', h.handleRead calls f = some (true, rp, h') ∧ h'.fd.Chunked ∧
      Ahead h.fd.chunks rp.unread h'.fd.chunks ∧ rp.unread ++ h'.fd.stream = rest := by
  have hinit := Rio.held_init hf.rioBuf hfd
  have hunread : (Rio.init f.rioBuf).unread = [] := window_self _ _
  obtain ⟨ret, l, hcall, -, hheld, hrest, -, -, hnul⟩ := Rio.rioReadlineb_line hinit
    (by rw [hunread]; exact hs) hfirst.1 hf.buf (by decide) (by decide) (hfirst.2 _)
  obtain ⟨rp, fd, hhdrs, hheld', hrest'⟩ :=
    readRequesthdrs_spec ps rest hheld hf.hdrsBuf hps hrest hcalls
  refine ⟨rp, { fd, channel := h.channel.setEvent (CHANNEL_READ ||| CHANNEL_WRITE) }, ?_,
    hheld'.chunked, hheld'.ahead, hrest'⟩
  simp [handleRead, hcall, readString_of_mem (List.mem_of_getElem? hnul), hhdrs]

/-- A line and nothing else is not. -/
theorem handleRead_end (hf : f.Sized) (hfd : h.fd.Chunked) {first : Bytes} (hfirst : Piece first)
    (hs : h.fd.stream = first) (htest : isEmptyLine f.hdrsBuf = false) (hcalls : 0 < calls) :
    ∃ rp h', h.handleRead calls f = some (false, rp, h') ∧ h'.fd.Chunked ∧ h'.fd.stream = [] := by
  have hinit := Rio.held_init hf.rioBuf hfd
  have hunread : (Rio.init f.rioBuf).unread = [] := window_self _ _
  obtain ⟨ret, l, hcall, -, hheld, hrest, -, -, hnul⟩ := Rio.rioReadlineb_line (s := []) hinit
    (by rw [hunread, List.append_nil]; exact hs) hfirst.1 hf.buf (by decide) (by decide) (hfirst.2 _)
  obtain ⟨rp, fd, hhdrs, hheld', hnil⟩ := readRequesthdrs_end hheld hrest htest hcalls
  refine ⟨rp, { h with fd }, ?_, hheld'.chunked, (List.append_eq_nil_iff.mp hnil).2⟩
  simp [handleRead, hcall, readString_of_mem (List.mem_of_getElem? hnul), hhdrs]

end HttpData

end XWeb.Net
