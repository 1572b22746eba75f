import XWeb.Net.HttpHeaders

/-!
# Headers and errors

`read_requesthdrs` (`net/http_data.cpp` lines 12–25) ends at an empty line, or when `rio_readlineb`
returns `0`. When `read` fails `rio_readlineb` returns `-1` and leaves a line that is not complete
without a NUL, and the loop goes on.

* `RequesthdrsReturns`: `read_requesthdrs` returns.
* `returns_iff_lines`: on a descriptor that fails at the end, in terms of the memory `buf`.
* `requesthdrs_returns_iff`: the descriptors on which `read_requesthdrs` returns.
-/

namespace XWeb.Net

open XWeb.Lib XWeb.Base

/-- `read_requesthdrs` returns after finitely many calls of `rio_readlineb`. -/
def RequesthdrsReturns (buf : Bytes) (rp : Rio) (fd : Reads) : Prop :=
  ∃ calls res, readRequesthdrs calls buf rp fd = some res

/-- What `buf` holds behind a call that has taken `line`, where an error follows. -/
def storeLine (buf line : Bytes) : Bytes :=
  overwrite buf 0 (if Rio.Readlineb.Complete (MAXLINE - 1) line then line ++ [0] else line)

variable {rp : Rio} {fd : Reads} {buf : Bytes} {errno : ℕ} {s : Bytes} {ls : List Bytes}

/-! ## The loop at an error -/

/-- With nothing left a call leaves `buf` as it is. -/
theorem readlineb_failed (h : rp.Wf) (hfd : fd.Delivers (.error errno))
    (hs : rp.unread ++ fd.stream = []) (hbuf : buf.length = MAXLINE) :
    ∃ ret l, rp.rioReadlineb fd buf MAXLINE = some (ret, l) ∧ ret ≠ 0 ∧ l.rp.Wf ∧
      l.fd.Delivers (.error errno) ∧ l.rp.unread ++ l.fd.stream = [] ∧ l.usrbuf = buf := by
  have hline : [] = firstLine newline (MAXLINE - 1) (rp.unread ++ fd.stream) := by
    rw [hs]
    rfl
  obtain ⟨ret, l, hcall, hret, hwf, hfd', hrem, hstore⟩ :=
    Rio.rioReadlineb_error h hfd hbuf (by decide) (by decide) hline
  refine ⟨ret, l, hcall, hret, hwf, hfd', hrem.trans (by rw [hs]; rfl), ?_⟩
  simpa [Rio.Readlineb.Complete, MAXLINE] using hstore

/-- Then the loop goes on for ever. -/
theorem requesthdrsLoop_stuck (calls : ℕ) : ∀ {rp : Rio} {fd : Reads}, rp.Wf →
    fd.Delivers (.error errno) → rp.unread ++ fd.stream = [] → buf.length = MAXLINE →
    isEmptyLine buf = false → requesthdrsLoop calls buf rp fd = none := by
  induction calls with
  | zero => intros; rfl
  | succ calls ih =>
    intro rp fd h hfd hs hbuf htest
    obtain ⟨ret, l, hcall, hret, hwf, hfd', hnil, hsame⟩ := readlineb_failed h hfd hs hbuf
    simp only [requesthdrsLoop, htest, hcall, Option.bind_eq_bind, Option.bind_some, hsame,
      if_neg hret]
    exact ih hwf hfd' hnil hbuf htest

/-- One call, and what follows it. -/
theorem returns_step {ret : ℤ} {l : Rio.Readlineb}
    (hcall : rp.rioReadlineb fd buf MAXLINE = some (ret, l))
    (hnext : ∃ ret' l', l.rp.rioReadlineb l.fd l.usrbuf MAXLINE = some (ret', l') ∧ ret' ≠ 0) :
    RequesthdrsReturns buf rp fd ↔
      isEmptyLine l.usrbuf = true ∨ RequesthdrsReturns l.usrbuf l.rp l.fd := by
  obtain ⟨ret', l', hcall', hret'⟩ := hnext
  have hfirst : ∀ calls, readRequesthdrs calls buf rp fd =
      requesthdrsLoop calls l.usrbuf l.rp l.fd := by
    intro calls
    simp only [readRequesthdrs, hcall, Option.bind_eq_bind, Option.bind_some]
  have hsucc : ∀ calls, isEmptyLine l.usrbuf = false →
      requesthdrsLoop (calls + 1) l.usrbuf l.rp l.fd = readRequesthdrs calls l.usrbuf l.rp l.fd := by
    intro calls htest
    simp [requesthdrsLoop, readRequesthdrs, htest, hcall', hret']
  constructor
  · rintro ⟨calls, res, hrun⟩
    rw [hfirst] at hrun
    by_cases htest : isEmptyLine l.usrbuf = true
    · exact Or.inl htest
    · cases calls with
      | zero => exact absurd hrun (by simp [requesthdrsLoop])
      | succ calls =>
        rw [hsucc calls (Bool.eq_false_iff.mpr htest)] at hrun
        exact Or.inr ⟨calls, res, hrun⟩
  · intro h
    by_cases htest : isEmptyLine l.usrbuf = true
    · exact ⟨1, (0, l.rp, l.fd), by rw [hfirst, requesthdrsLoop, if_pos htest]⟩
    · obtain ⟨calls, res, hrun⟩ := h.resolve_left htest
      exact ⟨calls + 1, res, by rw [hfirst, hsucc calls (Bool.eq_false_iff.mpr htest), hrun]⟩

theorem length_storeLine {line : Bytes} (hbuf : buf.length = MAXLINE)
    (hline : line.length ≤ MAXLINE - 1) : (storeLine buf line).length = MAXLINE := by
  have hmax : MAXLINE = 1024 := rfl
  rw [storeLine, length_overwrite, hbuf]
  split_ifs
  · rw [List.length_append, List.length_singleton]
    omega
  · omega

theorem isEmptyLine_storeLine {line : Bytes} (hlast : newline ∉ line.dropLast)
    (hcomplete : Rio.Readlineb.Complete (MAXLINE - 1) line) :
    isEmptyLine (storeLine buf line) = true ↔ line = emptyLine := by
  rw [storeLine, if_pos hcomplete, overwrite, List.take_zero, List.nil_append, List.append_assoc]
  exact isEmptyLine_nul hlast _

/-- A line with something behind it is complete. -/
theorem complete_of_rest {line : Bytes} (h : IsLine newline (MAXLINE - 1) s line)
    (hrest : s.drop line.length ≠ []) : Rio.Readlineb.Complete (MAXLINE - 1) line := by
  obtain hlast | ⟨-, hlen⟩ := h.full_of_rest hrest
  · exact Or.inr hlast
  · exact Or.inl hlen

/-- One of the lines must be an empty line, or `buf` look like one in the end. -/
theorem returns_iff_lines (hls : Lines newline (MAXLINE - 1) s ls) : ∀ {buf : Bytes} {rp : Rio}
    {fd : Reads}, rp.Wf → fd.Delivers (.error errno) → buf.length = MAXLINE →
      rp.unread ++ fd.stream = s →
      (RequesthdrsReturns buf rp fd ↔
        emptyLine ∈ ls ∨ isEmptyLine (ls.foldl storeLine buf) = true) := by
  induction hls with
  | nil =>
    intro buf rp fd h hfd hbuf hs
    obtain ⟨ret, l, hcall, hret, hwf, hfd', hnil, hsame⟩ := readlineb_failed h hfd hs hbuf
    simp only [List.not_mem_nil, false_or, List.foldl_nil]
    constructor
    · rintro ⟨calls, res, hrun⟩
      by_contra htest
      simp only [readRequesthdrs, hcall, Option.bind_eq_bind, Option.bind_some, hsame] at hrun
      rw [requesthdrsLoop_stuck calls hwf hfd' hnil hbuf (Bool.eq_false_iff.mpr htest)] at hrun
      exact absurd hrun (by simp)
    · intro htest
      exact ⟨1, (0, l.rp, l.fd), by simp [readRequesthdrs, hcall, hsame, requesthdrsLoop, htest]⟩
  | @cons s line ls hne hl hls ih =>
    intro buf rp fd h hfd hbuf hs
    have hline : line = firstLine newline (MAXLINE - 1) (rp.unread ++ fd.stream) := by
      rw [hs]
      exact hl.eq_firstLine
    obtain ⟨ret, l, hcall, -, hwf, hfd', hrem, hstore⟩ :=
      Rio.rioReadlineb_error h hfd hbuf (by decide) (by decide) hline
    rw [hs] at hrem
    have hsame : storeLine buf line = l.usrbuf := hstore.symm
    have hlen : l.usrbuf.length = MAXLINE := hsame ▸ length_storeLine hbuf hl.length_le
    obtain ⟨ret', l', hcall', hret', -⟩ :=
      Rio.rioReadlineb_error hwf hfd' hlen (by decide) (by decide) rfl
    rw [returns_step hcall ⟨ret', l', hcall', hret'⟩, ih hwf hfd' hlen hrem, List.mem_cons,
      List.foldl_cons, hsame]
    by_cases hcomplete : Rio.Readlineb.Complete (MAXLINE - 1) line
    · rw [← hsame, isEmptyLine_storeLine hl.sep_last hcomplete, or_assoc, eq_comm]
    · -- an incomplete line is the last one, and it is not empty
      have hend : s.drop line.length = [] := by
        by_contra hrest
        exact hcomplete (complete_of_rest hl hrest)
      rw [hend] at hls
      obtain rfl := hls.unique .nil
      have hnot : emptyLine ≠ line := by
        rintro rfl
        exact hcomplete (Or.inr rfl)
      simp [hnot]

/-! ## What `buf` holds in the end -/

theorem storeLine_incomplete {line : Bytes} (h : ¬ Rio.Readlineb.Complete (MAXLINE - 1) line) :
    storeLine buf line = line ++ buf.drop line.length := by
  rw [storeLine, if_neg h, overwrite, List.take_zero, List.nil_append, Nat.zero_add]

/-- A byte that is stored over a line and its NUL. -/
theorem isEmptyLine_return {line : Bytes} (hlast : newline ∉ line.dropLast)
    (hcomplete : Rio.Readlineb.Complete (MAXLINE - 1) line) (a : UInt8) (t : Bytes) :
    isEmptyLine ([a] ++ (line ++ 0 :: t).drop [a].length) = true ↔
      [a] = [13] ∧ ∃ c, line = [c, newline] := by
  obtain _ | ⟨b, _ | ⟨c, _ | ⟨d, line⟩⟩⟩ := line
  · exact absurd hcomplete (by simp [Rio.Readlineb.Complete, MAXLINE])
  · simp [isEmptyLine]
  · simp [isEmptyLine, newline]
  · have hc : c ≠ 10 := by
      rintro rfl
      exact hlast (by simp [newline])
    simp [isEmptyLine, hc]

/-- A carriage return is taken for an empty line if the line before it had two bytes. -/
theorem isEmptyLine_behind {line p : Bytes} (hlast : newline ∉ line.dropLast)
    (hcomplete : Rio.Readlineb.Complete (MAXLINE - 1) line) (hne : line ≠ emptyLine)
    (hp : newline ∉ p) (hp' : ¬ Rio.Readlineb.Complete (MAXLINE - 1) p) :
    isEmptyLine (storeLine (storeLine buf line) p) = true ↔
      p = [13] ∧ ∃ c, line = [c, newline] := by
  have hstore : storeLine buf line = line ++ 0 :: buf.drop (line.length + 1) := by
    rw [storeLine, if_pos hcomplete, overwrite, List.take_zero, List.nil_append, Nat.zero_add,
      List.append_assoc, List.length_append, List.length_singleton]
    rfl
  rw [storeLine_incomplete hp']
  cases p with
  | nil =>
    rw [List.length_nil, List.drop_zero, List.nil_append, isEmptyLine_storeLine hlast hcomplete]
    simp [hne]
  | cons a p =>
    cases p with
    | nil =>
      rw [hstore]
      exact isEmptyLine_return hlast hcomplete a _
    | cons b p =>
      have hb : b ≠ 10 := by
        rintro rfl
        exact hp (by simp [newline])
      simp [isEmptyLine, hb]

theorem newline_not_mem {p : Bytes} (hlast : newline ∉ p.dropLast)
    (hp : ¬ Rio.Readlineb.Complete (MAXLINE - 1) p) : newline ∉ p := by
  obtain rfl | ⟨q, c, rfl⟩ := List.eq_nil_or_concat p
  · exact List.not_mem_nil
  · rw [List.concat_eq_append, List.dropLast_concat] at hlast
    rw [List.concat_eq_append, List.mem_append, not_or, List.mem_singleton]
    refine ⟨hlast, fun hc => hp (Or.inr ?_)⟩
    rw [List.concat_eq_append, List.getLast?_concat, hc]

/-- Two bytes without a newline are not taken for an empty line. -/
theorem isEmptyLine_long (hs : newline ∉ s) (hlen : 2 ≤ s.length) :
    isEmptyLine (overwrite buf 0 s) = false := by
  match s, hs with
  | a :: b :: s, hs =>
    have hb : b ≠ 10 := by
      rintro rfl
      exact hs (by simp [newline])
    simp [isEmptyLine, overwrite, hb]

/-- A complete line without a newline is long. -/
theorem length_of_complete {line : Bytes} (h : Rio.Readlineb.Complete (MAXLINE - 1) line)
    (hline : newline ∉ line) : 2 ≤ line.length := by
  obtain hlen | hlast := h
  · rw [hlen]
    decide
  · exact absurd (List.mem_of_getLast? hlast) hline

/-- A complete line among the bytes: they do not make an empty line as they stand. -/
theorem not_unbroken {line : Bytes} (hls : Lines newline (MAXLINE - 1) s ls) (hline : line ∈ ls)
    (hcomplete : Rio.Readlineb.Complete (MAXLINE - 1) line) :
    ¬ (newline ∉ s ∧ isEmptyLine (overwrite buf 0 s) = true) := by
  rintro ⟨hs, htest⟩
  have hsub : line.Sublist s := hls.flatten_eq ▸ List.sublist_flatten_of_mem hline
  have hlen := length_of_complete hcomplete fun h => hs (hsub.subset h)
  rw [isEmptyLine_long hs (Nat.le_trans hlen hsub.length_le)] at htest
  exact absurd htest (by simp)

theorem isEmptyLine_foldl (hls : Lines newline (MAXLINE - 1) s ls) (hnot : emptyLine ∉ ls) :
    isEmptyLine (ls.foldl storeLine buf) = true ↔
      (∃ ls₁ c, ls = ls₁ ++ [[c, newline], [13]]) ∨
        newline ∉ s ∧ isEmptyLine (overwrite buf 0 s) = true := by
  have hincomplete : ¬ Rio.Readlineb.Complete (MAXLINE - 1) [13] := by decide
  obtain rfl | ⟨ls₁, p, rfl⟩ := List.eq_nil_or_concat ls
  · obtain rfl : s = [] := hls.flatten_eq.symm
    simp
  · rw [List.concat_eq_append] at hls hnot ⊢
    have hlast := hls.sep_last p (by simp)
    rw [List.foldl_append, List.foldl_cons, List.foldl_nil]
    by_cases hp : Rio.Readlineb.Complete (MAXLINE - 1) p
    · rw [isEmptyLine_storeLine hlast hp]
      have hne : p ≠ emptyLine := by
        rintro rfl
        exact hnot (by simp)
      simp only [hne, not_unbroken hls (by simp) hp, or_false, false_iff]
      rintro ⟨ls₂, c, he⟩
      have hp' := (List.append_inj' (he.trans (List.append_cons ls₂ _ _)) rfl).2
      rw [List.cons.inj hp' |>.1] at hp
      exact hincomplete hp
    · have hmem := newline_not_mem hlast hp
      obtain rfl | ⟨ls₂, line, rfl⟩ := List.eq_nil_or_concat ls₁
      · obtain rfl : p = s := by simpa using hls.flatten_eq
        have hone : ¬ ∃ ls₂ c, [] ++ [p] = ls₂ ++ [[c, newline], [13]] := by
          rintro ⟨ls₂, c, he⟩
          have hlen := congrArg List.length he
          rw [List.length_append, List.length_append] at hlen
          simp at hlen
        rw [List.foldl_nil, storeLine, if_neg hp, or_iff_right hone, and_iff_right hmem]
      · rw [List.concat_eq_append] at hls hnot ⊢
        have hline := hls.sep_last line (by simp)
        have hcomplete : Rio.Readlineb.Complete (MAXLINE - 1) line := by
          obtain h | ⟨-, h⟩ := hls.full_of_rest (by simp) line (by simp)
          · exact Or.inr h
          · exact Or.inl h
        have hne : line ≠ emptyLine := by
          rintro rfl
          exact hnot (by simp)
        rw [List.foldl_append, List.foldl_cons, List.foldl_nil,
          isEmptyLine_behind hline hcomplete hne hmem hp]
        simp only [not_unbroken hls (List.mem_append_left [p] (by simp)) hcomplete, or_false]
        constructor
        · rintro ⟨rfl, c, rfl⟩
          exact ⟨ls₂, c, by simp⟩
        · rintro ⟨ls₃, c, he⟩
          rw [List.append_assoc] at he
          have hboth := (List.append_inj' he rfl).2
          simp only [List.cons_append, List.nil_append, List.cons.injEq, and_true] at hboth
          exact ⟨hboth.2, c, hboth.1⟩

/-! ## Which headers end -/

/-- **When reading the headers ends.** `read` delivers bytes, with interrupted calls between them,
    and then `r` for ever. `read_requesthdrs` returns exactly if `r` is end-of-file, or one of the
    lines is empty, or the last bytes are a carriage return behind a line of two bytes, or there is
    no newline and what the memory of `buf` has behind the bytes makes them an empty line. -/
theorem requesthdrs_returns_iff {r : ReadOutcome} (h : rp.Wf) (hfd : fd.Delivers r)
    (hbuf : buf.length = MAXLINE)
    (hls : Lines newline (MAXLINE - 1) (rp.unread ++ fd.stream) ls) :
    RequesthdrsReturns buf rp fd ↔
      r = .data [] ∨ emptyLine ∈ ls ∨ (∃ ls₁ c, ls = ls₁ ++ [[c, newline], [13]]) ∨
        newline ∉ rp.unread ++ fd.stream ∧
          isEmptyLine (overwrite buf 0 (rp.unread ++ fd.stream)) = true := by
  cases r with
  | data bytes =>
    obtain rfl : bytes = [] := hfd.final
    refine iff_of_true ?_ (Or.inl rfl)
    obtain ⟨cs, hheld⟩ := Rio.held_of_wf h ((Reads.chunked_iff fd).mpr hfd)
    by_cases hmemory : rp.unread ++ fd.stream = [] → isEmptyLine buf = false
    · obtain ⟨rp', fd', hrun, -⟩ :=
        readRequesthdrs_lines hls hheld hbuf rfl hmemory (Nat.lt_succ_self _)
      exact ⟨_, _, hrun⟩
    · rw [Classical.not_imp] at hmemory
      obtain ⟨rp', fd', hrun⟩ :=
        readRequesthdrs_stale hheld hmemory.1 (Bool.not_eq_false _ ▸ hmemory.2)
      exact ⟨_, _, hrun⟩
  | error errno =>
    rw [returns_iff_lines hls h hfd hbuf rfl]
    by_cases hmem : emptyLine ∈ ls
    · simp [hmem]
    · rw [isEmptyLine_foldl hls hmem]
      simp

/-- A header is followed by an error. -/
def resetConnection : Reads :=
  .next (.data [72, 58, 32, 120, 13, 10]) (.always (.error 104))

theorem requesthdrs_returns_iff_sample :
    RequesthdrsReturns zeroFrame.hdrsBuf (Rio.init zeroFrame.rioBuf)
      (.next (.data getRequest.bytes) (.always (.error 104))) := by
  have hwf : (Rio.init zeroFrame.rioBuf).Wf := ⟨zeroFrame_sized.rioBuf, Nat.zero_le _⟩
  have hfd : Reads.Delivers (.error 104) (.next (.data getRequest.bytes) (.always (.error 104))) :=
    ⟨by decide, ⟨by decide, rfl⟩, ⟨by decide, trivial⟩⟩
  have hpieces : ∀ p ∈ [getRequest.line, emptyLine], Piece p := by
    have hline : Piece getRequest.line :=
      show Piece ([71, 69, 84, 32, 47, 13] ++ [newline]) from piece_of_sep (by decide) (by decide)
    simp [hline, piece_emptyLine]
  have hls : Lines newline (MAXLINE - 1) getRequest.bytes [getRequest.line, emptyLine] :=
    lines_pieces hpieces .nil
  exact (requesthdrs_returns_iff hwf hfd zeroFrame_sized.hdrsBuf hls).mpr (Or.inr (Or.inl (by simp)))

/-- Behind a header and an error `read_requesthdrs` goes on for ever. -/
theorem requesthdrs_never_returns :
    ¬ RequesthdrsReturns zeroFrame.hdrsBuf (Rio.init zeroFrame.rioBuf) resetConnection := by
  have hwf : (Rio.init zeroFrame.rioBuf).Wf := ⟨zeroFrame_sized.rioBuf, Nat.zero_le _⟩
  have hfd : resetConnection.Delivers (.error 104) := ⟨by decide, ⟨by decide, rfl⟩, by decide, trivial⟩
  have hpieces : ∀ p ∈ [[72, 58, 32, 120, 13, 10]], Piece p := by
    have hline : Piece [72, 58, 32, 120, 13, 10] :=
      show Piece ([72, 58, 32, 120, 13] ++ [newline]) from piece_of_sep (by decide) (by decide)
    simp [hline]
  have hls : Lines newline (MAXLINE - 1)
      ((Rio.init zeroFrame.rioBuf).unread ++ resetConnection.stream) [[72, 58, 32, 120, 13, 10]] :=
    lines_pieces hpieces .nil
  rw [returns_iff_lines hls hwf hfd zeroFrame_sized.hdrsBuf rfl, isEmptyLine_foldl hls (by decide)]
  rintro (hmem | ⟨ls₁, c, he⟩ | ⟨hs, -⟩)
  · exact absurd hmem (by decide)
  · have hlen := congrArg List.length he
    rw [List.length_append] at hlen
    simp at hlen
  · rw [← hls.flatten_eq] at hs
    exact hs (by decide)

end XWeb.Net
