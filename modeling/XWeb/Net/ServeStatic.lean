import XWeb.Base.RioTransfer
import XWeb.Lib.Decimal
import XWeb.Net.HttpData

/-!
# Serving a file

Model of `get_filetype` and `serve_static` (`net/http_data.cpp` lines 27–65). The calls of `sprintf`
that print `buf` into itself are taken to append to it. A descriptor that could not be opened is one
on which each `read` fails.

* `serveStatic`: the function, with at most `rounds` tests of the condition of its loop.
* `writeHeaders_spec`: the headers fit `buf`.
* `copyStep_spec`: a round of the loop, on a file that ends in any way.
* `serve_static_body_iff`: when the body is the file.
-/

namespace XWeb.Net

open XWeb.Lib XWeb.Base

/-! ## Headers -/

/-- `strstr(s, part)` is not null. -/
def strstr (s part : Bytes) : Bool := s.tails.any part.isPrefixOf

/-- `get_filetype` (lines 27–46): what it copies to `filetype`. -/
def getFiletype (filename : Bytes) : Bytes :=
  if strstr filename (ascii ".html") then ascii "text/html"
  else if strstr filename (ascii ".gif") then ascii "image/gif"
  else if strstr filename (ascii ".png") then ascii "image/png"
  else if strstr filename (ascii "image/jpeg") then ascii "image/jpeg"
  else if strstr filename (ascii ".mp4") then ascii "video/mp4"
  else ascii "text/plain"

/-- `sprintf` of a string and a NUL, which must fit `buf`. -/
def sprintf (buf text : Bytes) : Option Bytes :=
  if text.length < buf.length then some (overwrite buf 0 (text ++ [0])) else none

/-- The headers are printed to `buf` (lines 53–57). `filesize` is converted to `int`. -/
def writeHeaders (buf filename : Bytes) (filesize : ℤ) : Option Bytes := do
  let filetype := getFiletype filename
  let buf ← sprintf buf (ascii "HTTP/1.0 200 OK\r\n")
  let buf ← sprintf buf (cString buf ++ ascii "Server: Tiny Web Server\r\n")
  let buf ← sprintf buf (cString buf ++ ascii "Connection: close\r\n")
  let buf ← sprintf buf
    (cString buf ++ (ascii "Content-length: " ++ decimalInt (toInt filesize) ++ ascii "\r\n"))
  sprintf buf (cString buf ++ (ascii "Content-type: " ++ filetype ++ ascii "\r\n\r\n"))

/-! ## The loop -/

def EBADF : ℕ := 9

/-- What a call in the loop has returned. -/
inductive Transfer
  | read (ret : ℤ)
  | write (ret : ℤ)
  deriving DecidableEq

/-- The variables of `serve_static`, and the calls its loop has made. -/
structure ServeStatic where
  buf : Bytes
  srcfd : Reads
  fd : Sink
  log : List Transfer

/-- The condition of the loop and its body (lines 61–63): whether the loop goes on. -/
def copyStep (calls : ℕ) (l : ServeStatic) : Option (Bool × ServeStatic) := do
  let (n, r) ← rioReadn calls l.srcfd l.buf MAXLINE
  let l := { l with buf := r.usrbuf, srcfd := r.fd, log := l.log ++ [.read n] }
  if n = 0 then some (false, l)
  else
    let (w, fd) ← rioWriten calls l.fd l.buf MAXLINE
    some (true, { l with fd, log := l.log ++ [.write w] })

/-- The loop, up to a number of rounds: whether it still goes on then. -/
def copyRounds (calls : ℕ) : ℕ → ServeStatic → Option (Bool × ServeStatic)
  | 0, l => some (true, l)
  | rounds + 1, l => do
    let (more, l) ← copyStep calls l
    if more then copyRounds calls rounds l else some (false, l)

/-- `serve_static` (lines 48–65). `opened` is what `open` gives, `none` for `-1`. -/
def serveStatic (calls rounds : ℕ) (buf : Bytes) (fd : Sink) (filename : Bytes) (filesize : ℤ)
    (opened : Option Reads) : Option (Bool × ServeStatic) := do
  let buf ← writeHeaders buf filename filesize
  let (_, fd) ← rioWriten calls fd buf (cString buf).length
  copyRounds calls rounds { buf, srcfd := opened.getD (.always (.error EBADF)), fd, log := [] }

/-! ## What the headers are -/

/-- The headers and the empty line. -/
def headerText (filename : Bytes) (filesize : ℤ) : Bytes :=
  ascii "HTTP/1.0 200 OK\r\n" ++ ascii "Server: Tiny Web Server\r\n" ++ ascii "Connection: close\r\n" ++
    (ascii "Content-length: " ++ decimalInt (toInt filesize) ++ ascii "\r\n") ++
    (ascii "Content-type: " ++ getFiletype filename ++ ascii "\r\n\r\n")

theorem getFiletype_text (filename : Bytes) :
    0 ∉ getFiletype filename ∧ (getFiletype filename).length ≤ 10 := by
  unfold getFiletype
  split_ifs <;> decide

/-- A string and a NUL are that string. -/
theorem cString_nul {text : Bytes} (h : 0 ∉ text) (t : Bytes) : cString (text ++ 0 :: t) = text := by
  have hne : ∀ c ∈ text, decide (c ≠ 0) = true := by
    intro c hc
    exact decide_eq_true fun he => h (he ▸ hc)
  rw [cString, List.takeWhile_append_of_pos hne, List.takeWhile_cons_of_neg (by simp), List.append_nil]

theorem sprintf_spec {buf text : Bytes} (h : 0 ∉ text) (hlen : text.length < buf.length) :
    ∃ buf', sprintf buf text = some buf' ∧ buf'.length = buf.length ∧ cString buf' = text := by
  have hroom : 0 + (text ++ [0]).length ≤ buf.length := by
    rw [List.length_append, List.length_singleton]
    omega
  refine ⟨_, if_pos hlen, length_overwrite hroom, ?_⟩
  rw [overwrite, List.take_zero, List.nil_append, List.append_assoc]
  exact cString_nul h _

theorem sprintf_append {buf text more : Bytes} (hbuf : cString buf = text) (h : 0 ∉ text)
    (h' : 0 ∉ more) (hlen : (text ++ more).length < buf.length) :
    ∃ buf', sprintf buf (cString buf ++ more) = some buf' ∧ buf'.length = buf.length ∧
      cString buf' = text ++ more ∧ 0 ∉ text ++ more := by
  have hzero : 0 ∉ text ++ more := by
    rw [List.mem_append, not_or]
    exact ⟨h, h'⟩
  obtain ⟨buf', hs, hlen', htext⟩ := sprintf_spec hzero hlen
  exact ⟨buf', by rw [hbuf]; exact hs, hlen', htext, hzero⟩

/-- The headers fit `buf`. -/
theorem writeHeaders_spec {buf : Bytes} (hbuf : buf.length = MAXLINE) (filename : Bytes)
    (filesize : ℤ) :
    ∃ buf', writeHeaders buf filename filesize = some buf' ∧ buf'.length = MAXLINE ∧
      cString buf' = headerText filename filesize := by
  obtain ⟨hge, hlt⟩ := toInt_bounds filesize
  have hdigits := length_decimalInt hge hlt
  obtain ⟨htype, htype'⟩ := getFiletype_text filename
  have hsize : 0 ∉ ascii "Content-length: " ++ decimalInt (toInt filesize) ++ ascii "\r\n" := by
    simp only [List.mem_append, not_or]
    exact ⟨⟨by decide, zero_not_mem_decimalInt _⟩, by decide⟩
  have hkind : 0 ∉ ascii "Content-type: " ++ getFiletype filename ++ ascii "\r\n\r\n" := by
    simp only [List.mem_append, not_or]
    exact ⟨⟨by decide, htype⟩, by decide⟩
  have hsize' : (ascii "Content-length: " ++ decimalInt (toInt filesize) ++ ascii "\r\n").length ≤
      29 := by
    have hends : (ascii "Content-length: ").length + (ascii "\r\n").length = 18 := by decide
    rw [List.length_append, List.length_append]
    omega
  have hkind' : (ascii "Content-type: " ++ getFiletype filename ++ ascii "\r\n\r\n").length ≤ 28 := by
    have hends : (ascii "Content-type: ").length + (ascii "\r\n\r\n").length = 18 := by decide
    rw [List.length_append, List.length_append]
    omega
  have hfixed : (ascii "HTTP/1.0 200 OK\r\n" ++ ascii "Server: Tiny Web Server\r\n" ++
      ascii "Connection: close\r\n").length = 61 := by decide
  have hmax : MAXLINE = 1024 := rfl
  obtain ⟨buf₁, hs₁, hlen₁, htext₁⟩ := sprintf_spec
    (show 0 ∉ ascii "HTTP/1.0 200 OK\r\n" by decide) (show _ < buf.length by rw [hbuf]; decide)
  rw [hbuf] at hlen₁
  obtain ⟨buf₂, hs₂, hlen₂, htext₂, hz₂⟩ := sprintf_append htext₁ (by decide)
    (show 0 ∉ ascii "Server: Tiny Web Server\r\n" by decide) (by rw [hlen₁]; decide)
  rw [hlen₁] at hlen₂
  obtain ⟨buf₃, hs₃, hlen₃, htext₃, hz₃⟩ := sprintf_append htext₂ hz₂
    (show 0 ∉ ascii "Connection: close\r\n" by decide) (by rw [hlen₂]; decide)
  rw [hlen₂] at hlen₃
  obtain ⟨buf₄, hs₄, hlen₄, htext₄, hz₄⟩ := sprintf_append htext₃ hz₃ hsize (by
    rw [hlen₃, List.length_append]
    omega)
  rw [hlen₃] at hlen₄
  obtain ⟨buf₅, hs₅, hlen₅, htext₅, -⟩ := sprintf_append htext₄ hz₄ hkind (by
    rw [hlen₄, List.length_append, List.length_append]
    omega)
  refine ⟨buf₅, ?_, hlen₅.trans hlen₄, htext₅⟩
  simp only [writeHeaders, hs₁, hs₂, hs₃, hs₄, hs₅, Option.bind_eq_bind, Option.bind_some]

/-! ## One round -/

namespace ServeStatic

/-- The file ends with `r`, from its `M`-th call on `write` is not interrupted, and `calls` are
    enough for one transfer. -/
structure Serving (r : ReadOutcome) (M calls : ℕ) (l : ServeStatic) : Prop where
  final : r.Final
  ends : l.srcfd.EndsWith r
  cost : l.srcfd.cost < calls
  settles : l.fd.Settles M
  enough : M + MAXLINE < calls
  size : l.buf.length = MAXLINE

/-- What `rio_readn` returns. -/
def readValue (r : ReadOutcome) (l : ServeStatic) : ℤ :=
  if MAXLINE ≤ l.srcfd.stream.length then (MAXLINE : ℤ) else r.value.getD l.srcfd.stream.length

variable {r : ReadOutcome} {M calls : ℕ} {l : ServeStatic}

/-- The round that ends the loop. -/
theorem copyStep_last (h : l.Serving r M calls) (hn : l.readValue r = 0) :
    ∃ l', copyStep calls l = some (false, l') ∧ l'.fd = l.fd ∧ l'.log = l.log ++ [.read 0] := by
  obtain ⟨x, hread, -⟩ := rioReadn_spec h.final h.ends h.cost (show MAXLINE < 2 ^ 63 by decide)
    (Nat.le_of_eq h.size.symm)
  have hread' : rioReadn calls l.srcfd l.buf MAXLINE = some (l.readValue r, x) := hread
  exact ⟨{ l with buf := x.usrbuf, srcfd := x.fd, log := l.log ++ [.read 0] },
    by simp [copyStep, hread', hn], rfl, rfl⟩

/-- Any other round writes all of `buf`. -/
theorem copyStep_more (h : l.Serving r M calls) (hn : l.readValue r ≠ 0) :
    ∃ l' w, copyStep calls l = some (true, l') ∧ l'.Serving r M calls ∧
      l'.srcfd.stream = l.srcfd.stream.drop MAXLINE ∧
      l'.log = l.log ++ [.read (l.readValue r), .write w] ∧
      (l.fd.Clean → l'.fd.Clean ∧
        l'.fd.sent = l.fd.sent ++ overwrite l.buf 0 (l.srcfd.stream.take MAXLINE)) := by
  obtain ⟨x, hread, hbuf, hends, hrest, hcost⟩ := rioReadn_spec h.final h.ends h.cost
    (show MAXLINE < 2 ^ 63 by decide) (Nat.le_of_eq h.size.symm)
  have hread' : rioReadn calls l.srcfd l.buf MAXLINE = some (l.readValue r, x) := hread
  have hlen : x.usrbuf.length = MAXLINE := by
    rw [hbuf, length_overwrite, h.size]
    rw [h.size, List.length_take]
    omega
  obtain ⟨w, fd, k, hwrite, hset, hsent, hclean, hret⟩ := rioWriten_spec h.settles
    (show MAXLINE < 2 ^ 63 by decide) (Nat.le_of_eq hlen.symm) h.enough
  refine ⟨{ buf := x.usrbuf, srcfd := x.fd, fd := fd,
            log := l.log ++ [.read (l.readValue r), .write w] }, w, ?_,
    ⟨h.final, hends, Nat.lt_of_le_of_lt hcost h.cost, hset, h.enough, hlen⟩, hrest, rfl, ?_⟩
  · simp [copyStep, hread', hn, hwrite]
  · intro hok
    obtain ⟨-, rfl⟩ : w = MAXLINE ∧ k = MAXLINE := by
      obtain hdone | ⟨-, -, hdirty⟩ := hret
      · exact hdone
      · exact absurd hok hdirty
    refine ⟨hclean hok, ?_⟩
    rw [hsent, List.take_of_length_le (Nat.le_of_eq hlen), hbuf]

/-- At end-of-file `rio_readn` returns `0`, and only then. -/
theorem readValue_eof : l.readValue (.data []) = 0 ↔ l.srcfd.stream = [] := by
  rw [readValue, ← List.length_eq_zero_iff]
  have hmax : MAXLINE = 1024 := rfl
  split_ifs
  · omega
  · show ((l.srcfd.stream.length : ℕ) : ℤ) = 0 ↔ _
    omega

/-! ## All rounds on a file that is read to its end -/

/-- The number of bytes in all blocks of a file of `n` bytes. -/
def blocksLength (n : ℕ) : ℕ := MAXLINE * ((n + (MAXLINE - 1)) / MAXLINE)

theorem blocksLength_eq_iff (n : ℕ) : blocksLength n = n ↔ MAXLINE ∣ n := by
  unfold blocksLength MAXLINE
  omega

theorem copyRounds_eof (h : l.Serving (.data []) M calls) :
    ∃ rounds l' body, copyRounds calls rounds l = some (false, l') ∧
      (l.fd.Clean → l'.fd.sent = l.fd.sent ++ body ∧ l.srcfd.stream <+: body ∧
        body.length = blocksLength l.srcfd.stream.length) := by
  have hmax : MAXLINE = 1024 := rfl
  induction hlen : l.srcfd.stream.length using Nat.strongRecOn generalizing l with
  | _ len ih =>
    by_cases hnil : l.srcfd.stream = []
    · obtain ⟨l', hstep, hfd, -⟩ := copyStep_last h (readValue_eof.mpr hnil)
      refine ⟨1, l', [], by simp [copyRounds, hstep], fun _ => ?_⟩
      rw [hnil, List.length_nil] at hlen
      subst hlen
      exact ⟨by rw [hfd, List.append_nil], hnil ▸ List.nil_prefix, rfl⟩
    · obtain ⟨l₁, w, hstep, h₁, hrest, -, hsent⟩ := copyStep_more h (mt readValue_eof.mp hnil)
      have hpos := List.length_pos_iff.mpr hnil
      have hshort : l₁.srcfd.stream.length = l.srcfd.stream.length - MAXLINE := by
        rw [hrest, List.length_drop]
      obtain ⟨rounds, l', body, hrun, hbody⟩ := ih _ (by omega) h₁ rfl
      refine ⟨rounds + 1, l', overwrite l.buf 0 (l.srcfd.stream.take MAXLINE) ++ body,
        by simp [copyRounds, hstep, hrun], fun hok => ?_⟩
      obtain ⟨hok₁, hsent₁⟩ := hsent hok
      obtain ⟨hsent', hbegins, hblen⟩ := hbody hok₁
      have hblock : (overwrite l.buf 0 (l.srcfd.stream.take MAXLINE)).length = MAXLINE := by
        rw [length_overwrite, h.size]
        rw [h.size, List.length_take]
        omega
      refine ⟨by rw [hsent', hsent₁, List.append_assoc], ?_, ?_⟩
      · -- the last block may have old bytes of `buf` behind those of the file
        rw [hrest] at hbegins
        rcases Nat.lt_or_ge l.srcfd.stream.length MAXLINE with hlast | hfull
        · rw [List.take_of_length_le (Nat.le_of_lt hlast), overwrite, List.take_zero, List.nil_append,
            List.append_assoc]
          exact List.prefix_append _ _
        · have hwhole : overwrite l.buf 0 (l.srcfd.stream.take MAXLINE) =
              l.srcfd.stream.take MAXLINE := by
            rw [overwrite, List.take_zero, List.nil_append, List.drop_of_length_le, List.append_nil]
            rw [h.size, List.length_take]
            omega
          rw [hwhole]
          conv_lhs => rw [← List.take_append_drop MAXLINE l.srcfd.stream]
          exact (List.prefix_append_right_inj _).mpr hbegins
      · rw [List.length_append, hblock, hblen, hshort, hlen]
        unfold blocksLength
        rw [hmax]
        omega

end ServeStatic

/-! ## The body -/

open ServeStatic

/-- The headers are written, and then the loop begins. -/
theorem serveStatic_start {buf : Bytes} (hbuf : buf.length = MAXLINE) {fd : Sink} {M : ℕ}
    (hset : fd.Settles M) (filename : Bytes) (filesize : ℤ) (opened : Option Reads)
    {r : ReadOutcome} (hr : r.Final) (hends : (opened.getD (.always (.error EBADF))).EndsWith r)
    {calls : ℕ} (hcalls : (opened.getD (.always (.error EBADF))).cost + M + MAXLINE < calls) :
    ∃ l : ServeStatic, l.Serving r M calls ∧
      l.srcfd = opened.getD (.always (.error EBADF)) ∧ l.log = [] ∧
      (fd.Clean → l.fd.Clean ∧ l.fd.sent = fd.sent ++ headerText filename filesize) ∧
      ∀ rounds,
        serveStatic calls rounds buf fd filename filesize opened = copyRounds calls rounds l := by
  obtain ⟨buf', hheaders, hlen, htext⟩ := writeHeaders_spec hbuf filename filesize
  have hbegins : (cString buf') <+: buf' := List.takeWhile_prefix _
  have hshort : (cString buf').length ≤ MAXLINE := hlen ▸ hbegins.length_le
  obtain ⟨w, fd', k, hwrite, hset', hsent, hclean, hret⟩ := rioWriten_spec hset
    (show (cString buf').length < 2 ^ 63 from Nat.lt_of_le_of_lt hshort (by decide))
    hbegins.length_le (show M + (cString buf').length < calls by omega)
  refine ⟨{ buf := buf', srcfd := opened.getD (.always (.error EBADF)), fd := fd', log := [] },
    ⟨hr, hends, by simp only; omega, hset', by omega, hlen⟩, rfl, rfl, ?_, ?_⟩
  · intro hok
    obtain ⟨-, rfl⟩ : w = (cString buf').length ∧ k = (cString buf').length := by
      obtain hdone | ⟨-, -, hdirty⟩ := hret
      · exact hdone
      · exact absurd hok hdirty
    exact ⟨hclean hok, by rw [hsent, ← List.prefix_iff_eq_take.mp hbegins, htext]⟩
  · intro rounds
    simp [serveStatic, hheaders, hwrite]

/-- The file is written, and what makes it whole blocks. -/
theorem serveStatic_body {buf : Bytes} (hbuf : buf.length = MAXLINE) {fd : Sink} {M : ℕ}
    (hset : fd.Settles M) (hclean : fd.Clean) (filename : Bytes) (filesize : ℤ) {src : Reads}
    (hsrc : src.EndsWith (.data [])) :
    ∃ calls rounds l body,
      serveStatic calls rounds buf fd filename filesize (some src) = some (false, l) ∧
      l.fd.sent = fd.sent ++ (headerText filename filesize ++ body) ∧ src.stream <+: body ∧
      body.length = blocksLength src.stream.length := by
  obtain ⟨l, h, hfile, -, hhead, hrun⟩ := serveStatic_start hbuf hset filename filesize (some src)
    (show (ReadOutcome.data []).Final from rfl) hsrc (Nat.lt_succ_self _)
  obtain ⟨rounds, l', body, hbody, hspec⟩ := copyRounds_eof h
  obtain ⟨hok, hsent⟩ := hhead hclean
  obtain ⟨hsent', hbegins, hlen⟩ := hspec hok
  have hstream : l.srcfd.stream = src.stream := by rw [hfile, Option.getD_some]
  rw [hstream] at hbegins hlen
  exact ⟨_, rounds, l', body, (hrun rounds).trans hbody,
    by rw [hsent', hsent, List.append_assoc], hbegins, hlen⟩

/-- **When the body is the file.** A file of any length is read in pieces, and the socket takes what
    it is given in pieces, with interrupted calls on both sides and no other errors. `serve_static`
    returns; it has written the headers and then a body, which is the file, or as long as the file,
    exactly if the length of the file is a multiple of `MAXLINE`. -/
theorem serve_static_body_iff {buf : Bytes} (hbuf : buf.length = MAXLINE) {fd : Sink} {M : ℕ}
    (hset : fd.Settles M) (hclean : fd.Clean) (filename : Bytes) (filesize : ℤ) {src : Reads}
    (hsrc : src.EndsWith (.data [])) :
    ∃ calls rounds l body,
      serveStatic calls rounds buf fd filename filesize (some src) = some (false, l) ∧
      l.fd.sent = fd.sent ++ (headerText filename filesize ++ body) ∧
      (body = src.stream ↔ MAXLINE ∣ src.stream.length) ∧
      (body.length = src.stream.length ↔ MAXLINE ∣ src.stream.length) := by
  obtain ⟨calls, rounds, l, body, hrun, hsent, hbegins, hlen⟩ :=
    serveStatic_body hbuf hset hclean filename filesize hsrc
  have hlength : body.length = src.stream.length ↔ MAXLINE ∣ src.stream.length := by
    rw [hlen, blocksLength_eq_iff]
  refine ⟨calls, rounds, l, body, hrun, hsent, ?_, hlength⟩
  rw [← hlength]
  exact ⟨congrArg List.length, fun hsame => (hbegins.eq_of_length hsame.symm).symm⟩

/-- A file of one block, read in one piece. -/
def oneBlock : Reads := .next (.data (List.replicate MAXLINE 7)) (.always (.data []))

theorem serve_static_body_iff_sample :
    ∃ calls rounds l body, serveStatic calls rounds (List.replicate MAXLINE 0) slowSink
        (ascii "./home.html") 1024 (some oneBlock) = some (false, l) ∧
      l.fd.sent = slowSink.sent ++ (headerText (ascii "./home.html") 1024 ++ body) ∧
      body = oneBlock.stream := by
  have hlen : oneBlock.stream.length = MAXLINE := by
    rw [show oneBlock.stream = List.replicate MAXLINE 7 from List.append_nil _, List.length_replicate]
  have hfile : oneBlock.EndsWith (.data []) := by
    refine ⟨List.length_pos_iff.mp ?_, rfl⟩
    rw [List.length_replicate]
    decide
  obtain ⟨calls, rounds, l, body, hrun, hsent, hiff, -⟩ := serve_static_body_iff
    List.length_replicate slowSink_settles slowSink_clean (ascii "./home.html") 1024 hfile
  exact ⟨calls, rounds, l, body, hrun, hsent, hiff.mpr ⟨1, by rw [hlen, Nat.mul_one]⟩⟩

/-- A file of three bytes is served with a body of `1024`. -/
theorem short_file_padded :
    ∃ calls rounds l body, serveStatic calls rounds (List.replicate MAXLINE 0) slowSink
        (ascii "./home.html") 3 (some cutStream) = some (false, l) ∧
      l.fd.sent = slowSink.sent ++ (headerText (ascii "./home.html") 3 ++ body) ∧
      cutStream.stream = [1, 2, 3] ∧ body.length = 1024 ∧ body ≠ cutStream.stream := by
  obtain ⟨calls, rounds, l, body, hrun, hsent, -, hlen⟩ := serveStatic_body
    List.length_replicate slowSink_settles slowSink_clean (ascii "./home.html") 3 cutStream_ends
  have hbody : body.length = 1024 := hlen
  refine ⟨calls, rounds, l, body, hrun, hsent, rfl, hbody, ?_⟩
  rintro rfl
  exact absurd hbody (by decide)

end XWeb.Net
