import XWeb.Net.HttpRequests

/-!
# The end of the headers

`read_requesthdrs` (`net/http_data.cpp` lines 12–25) compares to an empty line what a call of
`rio_readlineb` has stored. Of a header that is longer than `buf` this is a piece, and the last
piece may be the carriage return and the newline alone.

* `EmptyLineAt`, `FirstEmptyLine`: where the headers end.
* `CutHeader`: a header that is cut in front of its carriage return.
* `first_empty_piece`: where `read_requesthdrs` ends.
* `headers_end_iff`: when these are the same.
-/

namespace XWeb.Net

open XWeb.Lib XWeb.Base

/-! ## Empty lines of a stream -/

/-- An empty line of `s`: a carriage return and a newline at the beginning of a line. -/
structure EmptyLineAt (s head rest : Bytes) : Prop where
  stream : s = head ++ (emptyLine ++ rest)
  start : LineStart newline head

structure FirstEmptyLine (s head rest : Bytes) : Prop extends EmptyLineAt s head rest where
  first : ∀ {head' rest' : Bytes}, EmptyLineAt s head' rest' → head.length ≤ head'.length

/-- A header of `s`, in front of the first empty line, of which `text` fills `buf` once or several
    times, and nothing but a carriage return and the newline is left. -/
structure CutHeader (s head text rest : Bytes) : Prop where
  stream : s = head ++ (text ++ (emptyLine ++ rest))
  start : LineStart newline head
  no_newline : newline ∉ text
  not_empty : text ≠ []
  full : MAXLINE - 1 ∣ text.length
  header : ∀ {head' rest' : Bytes}, EmptyLineAt s head' rest' → head.length < head'.length

/-- `read_requesthdrs` returns `0` behind the first empty line of `s`, which is what is left, and
    `1` if there is none. -/
def EndsExactly (buf : Bytes) (rp : Rio) (fd : Reads) (s : Bytes) : Prop :=
  ∃ calls ret rp' fd', readRequesthdrs calls buf rp fd = some (ret, rp', fd') ∧
    (∀ head rest, FirstEmptyLine s head rest → ret = 0 ∧ rp'.unread ++ fd'.stream = rest) ∧
    ((¬ ∃ head rest, EmptyLineAt s head rest) → ret = 1)

variable {s head text rest : Bytes} {ls : List Bytes}

theorem exists_firstEmptyLine (h : ∃ head rest, EmptyLineAt s head rest) :
    ∃ head rest, FirstEmptyLine s head rest := by
  obtain ⟨head, rest, hat⟩ := h
  induction hn : head.length using Nat.strongRecOn generalizing head rest with
  | _ n ih =>
    by_cases hfirst : ∀ head' rest', EmptyLineAt s head' rest' → head.length ≤ head'.length
    · exact ⟨head, rest, hat, fun hat' => hfirst _ _ hat'⟩
    · simp only [not_forall, Nat.not_le] at hfirst
      obtain ⟨head', rest', hat', hlt⟩ := hfirst
      exact ih _ (hn ▸ hlt) head' rest' hat' rfl

/-! ## Where a call ends -/

/-- Where a piece of the stream can be an empty line. -/
theorem emptyLine_mem_lines (hls : Lines newline (MAXLINE - 1) s ls)
    (hs : s = head ++ (emptyLine ++ rest)) (hend : LinesEnd newline (MAXLINE - 1) head) :
    ∃ ls₁ ls₂, ls = ls₁ ++ emptyLine :: ls₂ ∧ ls₁.flatten = head := by
  rw [hs] at hls
  obtain ⟨ls₁, ls₂, rfl, hhead, hls₂⟩ :=
    (hls.split_iff (show 0 < MAXLINE - 1 by decide) (by simp [emptyLine])).mpr hend
  obtain ⟨ls₃, hls₃⟩ : ∃ ls₃, Lines newline (MAXLINE - 1) rest ls₃ := exists_lines (by decide) rest
  have hpiece : ∀ p ∈ [emptyLine], Piece p := by simp [piece_emptyLine]
  have hempty := lines_pieces hpiece hls₃
  rw [List.flatten_singleton, List.singleton_append] at hempty
  exact ⟨ls₁, ls₃, by rw [hls₂.unique hempty], hhead⟩

/-- The first piece that is an empty line. -/
theorem first_empty_piece (hls : Lines newline (MAXLINE - 1) s ls) (hmem : emptyLine ∈ ls) :
    ∃ pre, s = pre ++ (emptyLine ++ behindEmptyLine ls) ∧ LinesEnd newline (MAXLINE - 1) pre ∧
      ∀ pre' rest', s = pre' ++ (emptyLine ++ rest') → LinesEnd newline (MAXLINE - 1) pre' →
        pre.length ≤ pre'.length := by
  obtain ⟨ls₁, ls₂, rfl, hnot⟩ := List.eq_append_cons_of_mem hmem
  have hne : ∀ l ∈ ls₁, decide (l ≠ emptyLine) = true := by
    intro l hl
    exact decide_eq_true fun he => hnot (he ▸ hl)
  have hbehind : behindEmptyLine (ls₁ ++ emptyLine :: ls₂) = ls₂.flatten := by
    rw [behindEmptyLine, List.dropWhile_append_of_pos hne, List.dropWhile_cons_of_neg (by simp),
      List.tail_cons]
  refine ⟨ls₁.flatten, ?_, hls.linesEnd (by simp), ?_⟩
  · rw [hbehind, ← hls.flatten_eq, List.flatten_append, List.flatten_cons]
  · intro pre' rest' hs hend
    obtain ⟨ls₃, ls₄, he, rfl⟩ := emptyLine_mem_lines hls hs hend
    -- an earlier piece that is an empty line would lie in `ls₁`
    obtain ⟨ls₅, rfl, -⟩ | ⟨ls₅, rfl, he'⟩ := List.append_eq_append_iff.mp he
    · rw [List.flatten_append, List.length_append]
      exact Nat.le_add_right _ _
    · cases ls₅ with
      | nil => rw [List.append_nil]
      | cons l ls₅ =>
        obtain ⟨rfl, -⟩ := List.cons.inj he'
        exact absurd (by simp) hnot

/-- More tests of the condition change nothing. -/
theorem requesthdrsLoop_mono {calls : ℕ} : ∀ {buf : Bytes} {rp : Rio} {fd : Reads}
    {res : ℤ × Rio × Reads}, requesthdrsLoop calls buf rp fd = some res → ∀ {calls' : ℕ},
      calls ≤ calls' → requesthdrsLoop calls' buf rp fd = some res := by
  induction calls with
  | zero => intro buf rp fd res h; exact absurd h (by simp [requesthdrsLoop])
  | succ calls ih =>
    intro buf rp fd res h calls' hle
    obtain ⟨calls', rfl⟩ := Nat.exists_eq_succ_of_ne_zero (Nat.ne_of_gt (Nat.zero_lt_of_lt hle))
    rw [requesthdrsLoop] at h ⊢
    split_ifs at h ⊢ with htest
    · exact h
    · obtain ⟨⟨ret, l⟩, hcall, hrest⟩ := Option.bind_eq_some_iff.mp h
      rw [hcall, Option.bind_eq_bind, Option.bind_some]
      simp only at hrest ⊢
      split_ifs at hrest ⊢
      · exact hrest
      · exact ih hrest (Nat.le_of_succ_le_succ hle)

theorem readRequesthdrs_mono {calls calls' : ℕ} {buf : Bytes} {rp : Rio} {fd : Reads}
    {res : ℤ × Rio × Reads} (h : readRequesthdrs calls buf rp fd = some res) (hle : calls ≤ calls') :
    readRequesthdrs calls' buf rp fd = some res := by
  obtain ⟨⟨ret, l⟩, hcall, hrest⟩ := Option.bind_eq_some_iff.mp h
  rw [readRequesthdrs, hcall, Option.bind_eq_bind, Option.bind_some]
  exact requesthdrsLoop_mono hrest hle

/-- The result does not depend on the number of calls that are allowed. -/
theorem readRequesthdrs_det {calls calls' : ℕ} {buf : Bytes} {rp : Rio} {fd : Reads}
    {res res' : ℤ × Rio × Reads} (h : readRequesthdrs calls buf rp fd = some res)
    (h' : readRequesthdrs calls' buf rp fd = some res') : res = res' := by
  have hmax := readRequesthdrs_mono h (Nat.le_max_left calls calls')
  have hmax' := readRequesthdrs_mono h' (Nat.le_max_right calls calls')
  exact Option.some.inj (hmax.symm.trans hmax')

/-! ## Headers -/

variable {cs : List Bytes} {rp : Rio} {fd : Reads} {buf : Bytes}

/-- With nothing left, memory that looks like an empty line is taken for one. -/
theorem readRequesthdrs_stale (h : Rio.Held cs rp fd) (hs : rp.unread ++ fd.stream = [])
    (htest : isEmptyLine buf = true) : ∃ rp' fd', readRequesthdrs 1 buf rp fd = some (0, rp', fd') := by
  obtain ⟨l, hcall, hbuf, -, -⟩ := Rio.rioReadlineb_end h hs buf MAXLINE (by decide)
  exact ⟨l.rp, l.fd, by simp [readRequesthdrs, requesthdrsLoop, hcall, hbuf, htest]⟩

/-- At end-of-file the memory of `buf` must not be taken for an empty line. -/
theorem EndsExactly.memory (hends : EndsExactly buf rp fd s) (h : Rio.Held cs rp fd)
    (hs : rp.unread ++ fd.stream = s) (hnil : s = []) : isEmptyLine buf = false := by
  subst hnil
  by_contra htest
  obtain ⟨calls, ret, rp', fd', hrun, -, hnone⟩ := hends
  obtain ⟨rp₁, fd₁, hrun₁⟩ := readRequesthdrs_stale h hs (Bool.not_eq_false _ ▸ htest)
  have hempty : ¬ ∃ head rest, EmptyLineAt [] head rest := by
    rintro ⟨head, rest, hat⟩
    exact absurd hat.stream (by simp [emptyLine])
  have hret := hnone hempty
  obtain ⟨hzero, -⟩ := Prod.mk.inj (readRequesthdrs_det hrun hrun₁)
  omega

/-- The same in terms of the lines as they are read. -/
theorem endsExactly_iff_lines (hls : Lines newline (MAXLINE - 1) s ls) (h : Rio.Held cs rp fd)
    (hbuf : buf.length = MAXLINE) (hs : rp.unread ++ fd.stream = s)
    (hmemory : s = [] → isEmptyLine buf = false) :
    EndsExactly buf rp fd s ↔
      (∀ head rest, FirstEmptyLine s head rest → emptyLine ∈ ls ∧ behindEmptyLine ls = rest) ∧
      ((¬ ∃ head rest, EmptyLineAt s head rest) → emptyLine ∉ ls) := by
  obtain ⟨rp₁, fd₁, hrun₁, -, hrest₁⟩ :=
    readRequesthdrs_lines hls h hbuf hs hmemory (Nat.lt_succ_self _)
  have hzero : (if emptyLine ∈ ls then (0 : ℤ) else 1) = 0 ↔ emptyLine ∈ ls := by
    split_ifs with hmem <;> simp [hmem]
  have hone : (if emptyLine ∈ ls then (0 : ℤ) else 1) = 1 ↔ emptyLine ∉ ls := by
    split_ifs with hmem <;> simp [hmem]
  constructor
  · rintro ⟨calls, ret, rp', fd', hrun, hfirst, hnone⟩
    obtain ⟨rfl, hsame⟩ := Prod.mk.inj (readRequesthdrs_det hrun hrun₁)
    obtain ⟨rfl, rfl⟩ := Prod.mk.inj hsame
    rw [hrest₁, hzero] at hfirst
    rw [hone] at hnone
    exact ⟨hfirst, hnone⟩
  · rintro ⟨hfirst, hnone⟩
    refine ⟨_, _, rp₁, fd₁, hrun₁, ?_⟩
    rw [hrest₁, hzero, hone]
    exact ⟨hfirst, hnone⟩

/-- The first line that is read as an empty one is the first empty line, or there is neither. -/
theorem lines_exact_iff (hls : Lines newline (MAXLINE - 1) s ls) :
    ((∀ head rest, FirstEmptyLine s head rest → emptyLine ∈ ls ∧ behindEmptyLine ls = rest) ∧
      ((¬ ∃ head rest, EmptyLineAt s head rest) → emptyLine ∉ ls)) ↔
      ¬ ∃ head text rest, CutHeader s head text rest := by
  constructor
  · rintro ⟨hfirst, hnone⟩ ⟨head, text, rest, hcut⟩
    have hend : LinesEnd newline (MAXLINE - 1) (head ++ text) :=
      ⟨head, text, rfl, hcut.start, hcut.no_newline, hcut.full⟩
    have hat : s = head ++ text ++ (emptyLine ++ rest) := by rw [hcut.stream, List.append_assoc]
    obtain ⟨ls₁, ls₂, he, -⟩ := emptyLine_mem_lines hls hat hend
    have hmem : emptyLine ∈ ls := by rw [he]; simp
    obtain ⟨head₀, rest₀, hfirst₀⟩ := exists_firstEmptyLine (not_not.mp fun h => hnone h hmem)
    obtain ⟨-, rfl⟩ := hfirst head₀ rest₀ hfirst₀
    obtain ⟨pre, hpre, -, hmin⟩ := first_empty_piece hls hmem
    have hle := hmin _ _ hat hend
    -- the first empty line lies behind the header
    have hbeyond := hfirst₀.start.beyond (hcut.stream.symm.trans hfirst₀.stream) hcut.no_newline
      (hcut.header hfirst₀.toEmptyLineAt)
    have hlen := congrArg List.length (hpre.symm.trans hfirst₀.stream)
    simp only [List.length_append] at hlen hle
    omega
  · intro hcut
    by_cases hmem : emptyLine ∈ ls
    · obtain ⟨pre, hpre, ⟨head, text, rfl, hstart, hsep, hdvd⟩, hmin⟩ := first_empty_piece hls hmem
      have hnil : text = [] := by
        by_contra hne
        have hstream : s = head ++ (text ++ (emptyLine ++ behindEmptyLine ls)) := by
          rw [← List.append_assoc]
          exact hpre
        refine hcut ⟨head, text, behindEmptyLine ls, hstream, hstart, hsep, hne, hdvd, fun hat => ?_⟩
        have hle := hmin _ _ hat.stream hat.start.linesEnd
        have hpos := List.length_pos_iff.mpr hne
        rw [List.length_append] at hle
        omega
      rw [hnil, List.append_nil] at hpre hmin
      refine ⟨fun head₀ rest₀ hfirst => ⟨hmem, ?_⟩,
        fun hnone => absurd ⟨head, _, ⟨hpre, hstart⟩⟩ hnone⟩
      have hle := hfirst.first ⟨hpre, hstart⟩
      have hge := hmin _ _ hfirst.stream hfirst.start.linesEnd
      have hsame := List.append_inj (hpre.symm.trans hfirst.stream) (Nat.le_antisymm hge hle)
      exact List.append_cancel_left hsame.2
    · refine ⟨fun head₀ rest₀ hfirst => absurd ?_ hmem, fun _ => hmem⟩
      obtain ⟨ls₁, ls₂, he, -⟩ := emptyLine_mem_lines hls hfirst.stream hfirst.start.linesEnd
      rw [he]
      simp

theorem endsExactly_iff (h : Rio.Held cs rp fd) (hbuf : buf.length = MAXLINE)
    (hs : rp.unread ++ fd.stream = s) :
    EndsExactly buf rp fd s ↔ (¬ ∃ head text rest, CutHeader s head text rest) ∧
      (s = [] → isEmptyLine buf = false) := by
  obtain ⟨ls, hls⟩ : ∃ ls, Lines newline (MAXLINE - 1) s ls := exists_lines (by decide) s
  rw [← lines_exact_iff hls]
  constructor
  · intro hends
    have hmemory := hends.memory h hs
    exact ⟨(endsExactly_iff_lines hls h hbuf hs hmemory).mp hends, hmemory⟩
  · rintro ⟨hexact, hmemory⟩
    exact (endsExactly_iff_lines hls h hbuf hs hmemory).mpr hexact

/-- The call of `handleRead` that reads the request line. -/
theorem requestLine_read {f : HttpFrame} (hf : f.Sized) (hfd : fd.Chunked)
    (hs : fd.stream = text ++ newline :: s) (hsep : newline ∉ text)
    (hlen : text.length < MAXLINE - 1) :
    ∃ ret l, (Rio.init f.rioBuf).rioReadlineb fd f.buf MAXLINE = some (ret, l) ∧
      Rio.Held fd.chunks l.rp l.fd ∧ l.rp.unread ++ l.fd.stream = s := by
  have hunread : (Rio.init f.rioBuf).unread = [] := window_self _ _
  have hpiece := piece_of_sep hsep hlen
  obtain ⟨ret, l, hcall, -, hheld, hrest, -⟩ := Rio.rioReadlineb_line (Rio.held_init hf.rioBuf hfd)
    (show (Rio.init f.rioBuf).unread ++ fd.stream = text ++ [newline] ++ s by
      rw [hunread, hs, List.append_assoc]; rfl)
    hpiece.1 hf.buf (by decide) (by decide) (hpiece.2 s)
  exact ⟨ret, l, hcall, hheld, hrest⟩

/-- **When the end of the headers is recognised exactly.** A request line that fits `buf` has been
    read, and `s` follows it, in chunks of any size, up to end-of-file. `read_requesthdrs` ends
    behind the first empty line, or at end-of-file with `1`, exactly if no header in front of that
    line is cut before its carriage return; and if nothing follows, the memory of its `buf` must not
    look like an empty line. -/
theorem headers_end_iff {f : HttpFrame} (hf : f.Sized) {fd : Reads} (hfd : fd.Chunked)
    {line s : Bytes} (hs : fd.stream = line ++ newline :: s) (hsep : newline ∉ line)
    (hlen : line.length < MAXLINE - 1) :
    ∃ ret l, (Rio.init f.rioBuf).rioReadlineb fd f.buf MAXLINE = some (ret, l) ∧
      l.rp.unread ++ l.fd.stream = s ∧
      (EndsExactly f.hdrsBuf l.rp l.fd s ↔ (¬ ∃ head text rest, CutHeader s head text rest) ∧
        (s = [] → isEmptyLine f.hdrsBuf = false)) := by
  obtain ⟨ret, l, hcall, hheld, hrest⟩ := requestLine_read hf hfd hs hsep hlen
  exact ⟨ret, l, hcall, hrest, endsExactly_iff hheld hf.hdrsBuf hrest⟩

theorem headers_end_iff_sample :
    ∃ ret l, (Rio.init zeroFrame.rioBuf).rioReadlineb inOneRead zeroFrame.buf MAXLINE = some (ret, l) ∧
      EndsExactly zeroFrame.hdrsBuf l.rp l.fd (emptyLine ++ getRequest.bytes) := by
  have hfd : inOneRead.Chunked := ⟨by decide, by decide, rfl⟩
  have hstream : inOneRead.stream = [71, 69, 84, 32, 47, 13] ++ newline ::
      (emptyLine ++ getRequest.bytes) := by decide
  obtain ⟨ret, l, hcall, -, hiff⟩ :=
    headers_end_iff zeroFrame_sized hfd hstream (by decide) (by decide)
  refine ⟨ret, l, hcall, hiff.mpr ⟨?_, by simp [emptyLine]⟩⟩
  rintro ⟨head, text, rest, hcut⟩
  have hle := Nat.le_of_dvd (List.length_pos_iff.mpr hcut.not_empty) hcut.full
  have hlen := congrArg List.length hcut.stream
  rw [List.length_append, getRequest.length_bytes, List.length_append, List.length_append] at hlen
  have hhead : getRequest.head.length = 7 := by decide
  have hmax : MAXLINE - 1 = 1023 := rfl
  have htwo : emptyLine.length = 2 := rfl
  omega

/-- A request line, a header of `MAXLINE - 1` bytes, and another one; there is no empty line. -/
def longHeader : Bytes := List.replicate (MAXLINE - 1) 65

def longRequest : Reads :=
  .next (.data (getRequest.line ++ (longHeader ++ (emptyLine ++ [66, 13, 10])))) (.always (.data []))

/-- The end of a long header is taken for an empty line. -/
theorem long_header_cut :
    ∃ ret l, (Rio.init zeroFrame.rioBuf).rioReadlineb longRequest zeroFrame.buf MAXLINE =
        some (ret, l) ∧
      (∃ rp' fd', readRequesthdrs 2 zeroFrame.hdrsBuf l.rp l.fd = some (0, rp', fd') ∧
        rp'.unread ++ fd'.stream = [66, 13, 10]) ∧
      ¬ EndsExactly zeroFrame.hdrsBuf l.rp l.fd (longHeader ++ (emptyLine ++ [66, 13, 10])) := by
  have hlong : newline ∉ longHeader := by
    intro hmem
    exact absurd (List.eq_of_mem_replicate hmem) (by decide)
  have hlen : longHeader.length = MAXLINE - 1 := List.length_replicate
  have hchunk : (getRequest.line ++ (longHeader ++ (emptyLine ++ [66, 13, 10]))).length = 1035 := by
    rw [List.length_append, List.length_append, hlen]
    rfl
  have hfd : longRequest.Chunked := by
    refine ⟨List.length_pos_iff.mp (by rw [hchunk]; decide), ?_, rfl⟩
    rw [hchunk]
    decide
  have hstream : longRequest.stream = [71, 69, 84, 32, 47, 13] ++ newline ::
      (longHeader ++ (emptyLine ++ [66, 13, 10])) := List.append_nil _
  obtain ⟨ret, l, hcall, hheld, hrest⟩ :=
    requestLine_read zeroFrame_sized hfd hstream (by decide) (by decide)
  have hpieces : ∀ p ∈ [longHeader], Piece p ∧ p ≠ emptyLine := by
    intro p hp
    obtain rfl := List.mem_singleton.mp hp
    refine ⟨piece_of_full hlong hlen, ?_⟩
    intro he
    exact absurd (congrArg List.length he) (by rw [hlen]; decide)
  obtain ⟨rp', fd', hrun, -, hrest'⟩ := readRequesthdrs_spec [longHeader] [66, 13, 10] hheld
    zeroFrame_sized.hdrsBuf hpieces (by rw [hrest, List.flatten_singleton]) (show 1 < 2 by decide)
  refine ⟨ret, l, hcall, ⟨rp', fd', hrun, hrest'⟩, fun hends => ?_⟩
  refine ((endsExactly_iff hheld zeroFrame_sized.hdrsBuf hrest).mp hends).1
    ⟨[], longHeader, [66, 13, 10], rfl, Or.inl rfl, hlong, ?_, hlen ▸ Nat.dvd_refl _, ?_⟩
  · exact List.length_pos_iff.mp (by rw [hlen]; decide)
  · intro head' rest' hat
    by_contra hnil
    obtain rfl := List.length_eq_zero_iff.mp (Nat.le_zero.mp (Nat.not_lt.mp hnil))
    have hcons : longHeader = 65 :: List.replicate (MAXLINE - 2) 65 := List.replicate_succ
    have hbyte := congrArg List.head? hat.stream
    rw [hcons, List.nil_append] at hbyte
    exact absurd (Option.some.inj hbyte) (by decide)

end XWeb.Net
