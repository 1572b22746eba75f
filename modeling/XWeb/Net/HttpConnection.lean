import XWeb.Lib.Run
import XWeb.Net.HttpHeaders
import XWeb.Net.Readiness
import XWeb.Net.ServeStaticEnd

/-!
# The connection of an `HttpData`

Model of `HttpData::newRequest` and `HttpData::handleWrite` (`net/http_data.cpp` lines 95–111),
and of what the event loop makes of the descriptor with them and `handleRead`: `Epoller::poll`
reports it, `Channel::handleEvent` picks a handler, and the handler registers the channel again.
The poller may have other descriptors.

* `HttpConnection.step`: the descriptor is reported.
* `handleRead_returns`: `handleRead` returns on every stream that ends.
* `Later`: what has been sent stays sent, whatever `write` returns.
* `http_alternates`: between two responses there is a request, and WRITE is asked for exactly
  between a request and its response.
* `readable_unanswered`: as long as the descriptor is readable nothing is sent.
-/

namespace XWeb.Net

open XWeb.Lib XWeb.Base

/-! ## Model -/

/-- The name of the file (line 98). -/
def homeHtml : Bytes := ascii "./home.html"

namespace HttpData

/-- `handleWrite` (lines 95–106): whether it has served the file, for which it goes back to READ
    alone. `filesize` is what `stat` gives, `none` if it fails; `fuel` is how many rounds
    `serve_static` may make, and how many system calls in each. -/
def handleWrite (fuel : ℕ) (buf : Bytes) (filesize : Option ℤ) (opened : Option Reads)
    (h : HttpData) (out : Sink) : Option (Bool × HttpData × Sink) :=
  match filesize with
  | none => some (false, h, out)
  | some filesize => do
    let (more, l) ← serveStatic fuel fuel buf out homeHtml filesize opened
    if more then none
    else some (true, { h with channel := h.channel.setEvent CHANNEL_READ }, l.fd)

end HttpData

/-- What the handlers have done, apart from looking. -/
inductive HttpAct
  | request
  | response (bytes : Bytes)
  deriving DecidableEq

/-- What has been sent in it. -/
def HttpAct.sent : HttpAct → Bytes
  | .request => []
  | .response bytes => bytes

/-- The `HttpData` with its poller. `out` is the same descriptor, as it is written. -/
structure HttpConnection where
  data : HttpData
  out : Sink
  epoller : Epoller
  log : List HttpAct

/-- The descriptor is reported with the events `reported`. The rest is what the handler finds: the
    memory of its locals, the file, and the answer of the kernel to `update`. -/
structure HttpReport where
  reported : Flags
  frame : HttpFrame
  buf : Bytes
  filesize : Option ℤ
  opened : Option Reads
  answer : Answer

namespace HttpConnection

/-- The constructor of `HttpData`, with `fd` and a channel at the address `p`, and `newRequest`. -/
def newRequest (e : Epoller) (p : ℕ) (fd : ℤ) (junk : Flags) (a : Answer) (reads : Reads)
    (out : Sink) : HttpConnection :=
  let (epoller, channel) := e.update a p ((Channel.construct junk fd false).setEvent CHANNEL_READ)
  { data := { fd := reads, channel := channel }, out := out, epoller := epoller, log := [] }

/-- `loop_->updateChannel(channel_.get())` behind `act`. -/
def updateChannel (s : HttpConnection) (p : ℕ) (a : Answer) (act : HttpAct) : HttpConnection :=
  let (epoller, channel) := s.epoller.update a p s.data.channel
  { s with data := { s.data with channel := channel }, epoller := epoller, log := s.log ++ [act] }

/-- `setActiveEvent` in `poll`. -/
def active (s : HttpConnection) (reported : Flags) : HttpConnection :=
  { s with
    data := { s.data with
      channel := s.data.channel.setActiveEvent
        (Epoller.translate reported s.data.channel.events) } }

/-- `handleRead`, and what it ends with. -/
def read (fuel p : ℕ) (s : HttpConnection) (e : HttpReport) : Option HttpConnection := do
  let (done, _, data) ← s.data.handleRead fuel e.frame
  let s := { s with data := data }
  if done then some (s.updateChannel p e.answer .request) else some s

/-- `handleWrite`, and what it ends with. -/
def write (fuel p : ℕ) (s : HttpConnection) (e : HttpReport) : Option HttpConnection := do
  let (done, data, out) ← s.data.handleWrite fuel e.buf e.filesize e.opened s.out
  let sent := out.sent.drop s.out.sent.length
  let s := { s with data := data, out := out }
  if done then some (s.updateChannel p e.answer (.response sent)) else some s

/-- `handleEvent`, on what `poll` makes active. -/
def step (fuel p : ℕ) (s : HttpConnection) (e : HttpReport) : Option HttpConnection :=
  let s := s.active e.reported
  match s.data.channel.handleEvent with
  | some .read => s.read fuel p e
  | some .write => s.write fuel p e
  | _ => some s

/-- The kernel reports events of interest, or an error. Calls of `epoll_ctl` succeed, and what an
    uninitialised `epoll_event` holds does not ask for `EPOLLOUT`. -/
structure Legal (fd : ℤ) (s : HttpConnection) (e : HttpReport) : Prop where
  interest : ∃ mask ∈ s.epoller.interest fd,
    e.reported &&& ~~~(mask ||| EPOLLERR ||| EPOLLHUP) = 0#32
  ctl : e.answer.ctl = true
  stack : has e.answer.stack EPOLLOUT = false

/-- Each response comes right behind a request. -/
def Alternates (log : List HttpAct) : Prop :=
  Always (fun before act => ∀ bytes, act = .response bytes → before.getLast? = some .request) log

/-- A request has been recognised and not been answered. -/
def Pending (log : List HttpAct) : Prop := log.getLast? = some .request

instance (log : List HttpAct) : Decidable (Pending log) := inferInstanceAs (Decidable (_ = _))

end HttpConnection

/-! ## `handleRead` returns -/

section

variable {cs : List Bytes} {rp : Rio} {fd : Reads} {buf s : Bytes} {ls : List Bytes} {calls : ℕ}

theorem lines_ne_nil (h : Lines newline (MAXLINE - 1) s ls) : ∀ l ∈ ls, l ≠ [] := by
  induction h with
  | nil => exact fun l hl => absurd hl List.not_mem_nil
  | cons hs hl hls ih =>
    refine List.forall_mem_cons.mpr ⟨?_, ih⟩
    rw [hl.eq_firstLine]
    exact firstLine_ne_nil (by decide) hs

/-- The headers end, at an empty line or with the stream. -/
theorem readRequesthdrs_returns (h : Rio.Held cs rp fd) (hbuf : buf.length = MAXLINE)
    (hcalls : (rp.unread ++ fd.stream).length < calls) :
    ∃ ret rp' fd', readRequesthdrs calls buf rp fd = some (ret, rp', fd') ∧ Rio.Held cs rp' fd' ∧
      (rp'.unread ++ fd'.stream).length ≤ (rp.unread ++ fd.stream).length ∧
      (rp.unread ++ fd.stream = [] → isEmptyLine buf = false → ret = 1) := by
  by_cases hstale : rp.unread ++ fd.stream = [] ∧ isEmptyLine buf = true
  · -- the memory is taken for an empty line
    obtain ⟨hnil, htest⟩ := hstale
    obtain ⟨l, hcall, hsame, hheld, hnil'⟩ := Rio.rioReadlineb_end h hnil buf MAXLINE (by decide)
    obtain ⟨calls, rfl⟩ := Nat.exists_eq_succ_of_ne_zero (Nat.ne_of_gt (Nat.zero_lt_of_lt hcalls))
    refine ⟨0, l.rp, l.fd, ?_, hheld, ?_, fun _ hfalse => ?_⟩
    · simp [readRequesthdrs, requesthdrsLoop, hcall, hsame, htest]
    · rw [hnil']
      exact Nat.zero_le _
    · rw [htest] at hfalse
      exact absurd hfalse (by decide)
  · obtain ⟨ls, hls⟩ : ∃ ls, Lines newline (MAXLINE - 1) (rp.unread ++ fd.stream) ls :=
      exists_lines (by decide) _
    have hflat := hls.flatten_eq
    have hshort : (ls.takeWhile (· ≠ emptyLine)).length < calls := by
      have hle := length_le_length_flatten (lines_ne_nil hls)
      have hsub : (ls.takeWhile (· ≠ emptyLine)).length ≤ ls.length :=
        (List.takeWhile_sublist _).length_le
      rw [hflat] at hle
      omega
    obtain ⟨rp', fd', hread, hheld, hrest⟩ := readRequesthdrs_lines hls h hbuf rfl (fun hnil => by
      rw [← Bool.not_eq_true]
      exact fun htest => hstale ⟨hnil, htest⟩) hshort
    refine ⟨_, rp', fd', hread, hheld, ?_, fun hnil _ => ?_⟩
    · rw [hrest, behindEmptyLine, ← hflat]
      exact ((List.tail_sublist _).trans (List.dropWhile_sublist _)).flatten.length_le
    · rw [hnil] at hls
      obtain rfl := hls.unique .nil
      exact if_neg List.not_mem_nil

end

namespace HttpData

variable {f : HttpFrame} {h h' : HttpData} {calls calls' : ℕ}

/-- The stream gets shorter unless it is at its end. There `buf` is printed as it is, and nothing is
    recognised unless the memory is taken for an empty line. -/
theorem handleRead_returns (hf : f.Sized) (hnul : h.fd.stream = [] → 0 ∈ f.buf) (hfd : h.fd.Chunked)
    (hcalls : h.fd.stream.length < calls) :
    ∃ done rp h', h.handleRead calls f = some (done, rp, h') ∧ h'.fd.Chunked ∧
      h'.fd.stream.length ≤ h.fd.stream.length ∧
      (h.fd.stream = [] → isEmptyLine f.hdrsBuf = false → done = false) := by
  have hinit := Rio.held_init hf.rioBuf hfd
  have hunread : (Rio.init f.rioBuf).unread = [] := window_self _ _
  -- the first line, or nothing
  obtain ⟨ret, l, hcall, hheld, hle, hzero⟩ : ∃ ret l,
      (Rio.init f.rioBuf).rioReadlineb h.fd f.buf MAXLINE = some (ret, l) ∧
        Rio.Held h.fd.chunks l.rp l.fd ∧
        (l.rp.unread ++ l.fd.stream).length ≤ h.fd.stream.length ∧ 0 ∈ l.usrbuf := by
    obtain ⟨ret, l, hcall, -, -, hret, hline⟩ :=
      Rio.rioReadlineb_spec hinit.wf hinit.chunked hf.buf (by decide) (by decide)
    refine ⟨ret, l, hcall, Rio.rioReadlineb_held hinit hcall, ?_⟩
    rw [hunread, List.nil_append] at hret hline
    by_cases hnil : ret = 0
    · obtain ⟨l', hcall', hsame, -, hnil'⟩ := Rio.rioReadlineb_end hinit
        (by rw [hunread, List.nil_append]; exact hret.mp hnil) f.buf MAXLINE (by decide)
      obtain ⟨-, rfl⟩ := Prod.mk.inj (Option.some.inj (hcall.symm.trans hcall'))
      rw [hnil', hsame]
      exact ⟨Nat.zero_le _, hnul (hret.mp hnil)⟩
    · obtain ⟨-, hrem, -, hzero⟩ := hline hnil
      have hrem : l.rp.unread ++ l.fd.stream = h.fd.stream.drop l.stored.length := hrem
      rw [hrem, List.length_drop]
      exact ⟨Nat.sub_le _ _, List.mem_of_getElem? hzero⟩
  obtain ⟨ret', rp, fd, hhdrs, hheld', hle', hend⟩ :=
    readRequesthdrs_returns hheld hf.hdrsBuf (show _ < calls by omega)
  have hshort : fd.stream.length ≤ h.fd.stream.length := by
    rw [List.length_append] at hle'
    omega
  by_cases hdone : ret' = 1
  · exact ⟨false, rp, { h with fd }, by simp [handleRead, hcall, readString_of_mem hzero, hhdrs, hdone],
      hheld'.chunked, hshort, fun _ _ => rfl⟩
  · refine ⟨true, rp, { fd, channel := h.channel.setEvent (CHANNEL_READ ||| CHANNEL_WRITE) },
      by simp [handleRead, hcall, readString_of_mem hzero, hhdrs, hdone], hheld'.chunked, hshort,
      fun hnil htest => ?_⟩
    rw [hnil, List.length_nil, Nat.le_zero, List.length_eq_zero_iff] at hle
    exact absurd (hend hle htest) hdone

/-- Where it has returned at end-of-file, `buf` was a string. -/
theorem handleRead_nul {res : Bool × Rio × HttpData} (hres : h.handleRead calls f = some res)
    (hf : f.Sized) (hfd : h.fd.Chunked) (hs : h.fd.stream = []) : 0 ∈ f.buf := by
  have hunread : (Rio.init f.rioBuf).unread = [] := window_self _ _
  obtain ⟨l, hcall, hsame, -, -⟩ := Rio.rioReadlineb_end (Rio.held_init hf.rioBuf hfd)
    (by rw [hunread, List.nil_append]; exact hs) f.buf MAXLINE (by decide)
  rw [handleRead, hcall, Option.bind_eq_bind, Option.bind_some] at hres
  obtain ⟨text, htext, -⟩ := Option.bind_eq_some_iff.mp hres
  exact hsame ▸ mem_of_readString htext

theorem handleRead_mono {res : Bool × Rio × HttpData} (hres : h.handleRead calls f = some res)
    (hle : calls ≤ calls') : h.handleRead calls' f = some res := by
  obtain ⟨⟨ret, l⟩, hcall, hrest⟩ := Option.bind_eq_some_iff.mp hres
  obtain ⟨text, htext, hrest⟩ := Option.bind_eq_some_iff.mp hrest
  obtain ⟨⟨ret', rp, fd⟩, hhdrs, hdone⟩ := Option.bind_eq_some_iff.mp hrest
  rw [handleRead, hcall, Option.bind_eq_bind, Option.bind_some]
  simp only [htext, readRequesthdrs_mono hhdrs hle]
  exact hdone

end HttpData

/-! ## What has been sent -/

namespace HttpConnection

section

variable {fd fd' fd'' : Sink} {calls : ℕ}

/-- More calls of `write` have been made on the descriptor. -/
structure Later (fd fd' : Sink) : Prop where
  results : fd'.results = fd.results
  calls : fd.calls ≤ fd'.calls
  sent : fd.sent <+: fd'.sent

theorem Later.refl (fd : Sink) : Later fd fd := ⟨rfl, Nat.le_refl _, List.prefix_rfl⟩

theorem Later.trans (h : Later fd fd') (h' : Later fd' fd'') : Later fd fd'' :=
  ⟨h'.results.trans h.results, Nat.le_trans h.calls h'.calls, h.sent.trans h'.sent⟩

theorem later_accept (fd : Sink) (bytes : Bytes) : Later fd (fd.accept bytes) :=
  ⟨rfl, Nat.le_succ _, List.prefix_append _ _⟩

theorem Later.clean (h : Later fd fd') (hclean : fd.Clean) : fd'.Clean := by
  intro i hi errno hstop
  rw [h.results] at hstop
  exact hclean i (Nat.le_trans h.calls hi) errno hstop

theorem Later.settles (h : Later fd fd') {M : ℕ} (hset : fd.Settles M) : fd'.Settles M := by
  intro i hi
  rw [h.results]
  exact hset i hi

theorem writen_later {usrbuf : Bytes} (calls : ℕ) : ∀ {l l' : Writen} {ret : Option ℤ},
    Writen.loop usrbuf calls l = some (ret, l') → Later l.fd l'.fd := by
  induction calls with
  | zero => intro l l' ret h; exact absurd h (by simp [Writen.loop])
  | succ calls ih =>
    intro l l' ret h
    rw [Writen.loop] at h
    split_ifs at h with hpos
    · cases hres : l.fd.results l.fd.calls with
      | stopped errno =>
        rw [hres] at h
        simp only at h
        split_ifs at h
        · exact (later_accept l.fd []).trans (ih h)
        · obtain ⟨-, rfl⟩ := Prod.mk.inj (Option.some.inj h)
          exact later_accept l.fd []
      | wrote more =>
        rw [hres] at h
        simp only at h
        split_ifs at h
        exact (later_accept l.fd _).trans (ih h)
    · obtain ⟨-, rfl⟩ := Prod.mk.inj (Option.some.inj h)
      exact Later.refl l.fd

theorem rioWriten_later {usrbuf : Bytes} {n : ℕ} {ret : ℤ}
    (h : rioWriten calls fd usrbuf n = some (ret, fd')) : Later fd fd' := by
  obtain ⟨⟨v, l⟩, hl, hrest⟩ := Option.bind_eq_some_iff.mp h
  have hlater : Later fd l.fd := writen_later calls hl
  cases v <;> obtain ⟨-, rfl⟩ := Prod.mk.inj (Option.some.inj hrest) <;> exact hlater

theorem copyStep_later {l l' : ServeStatic} {more : Bool}
    (h : copyStep calls l = some (more, l')) : Later l.fd l'.fd := by
  obtain ⟨⟨n, r⟩, -, hrest⟩ := Option.bind_eq_some_iff.mp h
  simp only at hrest
  split_ifs at hrest
  · obtain ⟨-, rfl⟩ := Prod.mk.inj (Option.some.inj hrest)
    exact Later.refl l.fd
  · obtain ⟨⟨w, fd⟩, hwrite, hdone⟩ := Option.bind_eq_some_iff.mp hrest
    obtain ⟨-, rfl⟩ := Prod.mk.inj (Option.some.inj hdone)
    exact rioWriten_later hwrite

theorem copyRounds_later (rounds : ℕ) : ∀ {l l' : ServeStatic} {more : Bool},
    copyRounds calls rounds l = some (more, l') → Later l.fd l'.fd := by
  induction rounds with
  | zero =>
    intro l l' more h
    obtain ⟨-, rfl⟩ := Prod.mk.inj (Option.some.inj h)
    exact Later.refl l.fd
  | succ rounds ih =>
    intro l l' more h
    obtain ⟨⟨b, l₁⟩, hstep, hrest⟩ := Option.bind_eq_some_iff.mp h
    simp only at hrest
    split_ifs at hrest
    · exact (copyStep_later hstep).trans (ih hrest)
    · obtain ⟨-, rfl⟩ := Prod.mk.inj (Option.some.inj hrest)
      exact copyStep_later hstep

theorem serveStatic_later {rounds : ℕ} {buf filename : Bytes} {filesize : ℤ} {opened : Option Reads}
    {more : Bool} {l : ServeStatic}
    (h : serveStatic calls rounds buf fd filename filesize opened = some (more, l)) :
    Later fd l.fd := by
  obtain ⟨buf', -, hrest⟩ := Option.bind_eq_some_iff.mp h
  obtain ⟨⟨w, fd₁⟩, hwrite, hrun⟩ := Option.bind_eq_some_iff.mp hrest
  exact (rioWriten_later hwrite).trans (copyRounds_later rounds hrun)

end

/-! ## The channel and its registration -/

/-- The channel is registered, and asks for WRITE exactly behind a request. -/
structure Inv (p : ℕ) (fd : ℤ) (s : HttpConnection) : Prop where
  keys : s.epoller.KeysAgree
  fd_eq : s.data.channel.fd = fd
  notListen : s.data.channel.isListenFd = false
  events : s.data.channel.events =
    if Pending s.log then CHANNEL_READ ||| CHANNEL_WRITE else CHANNEL_READ
  registered : s.epoller.channels fd = some p
  interest : ∃ mask, s.epoller.interest fd = some mask ∧ has mask EPOLLIN = true ∧
    (has mask EPOLLOUT = true ↔ Pending s.log)

theorem pending_concat (log : List HttpAct) (act : HttpAct) :
    Pending (log ++ [act]) ↔ act = .request := by
  rw [Pending, List.getLast?_concat, Option.some.injEq]

theorem eventMask_read {stack : Flags} (h : has stack EPOLLOUT = false) :
    has (Epoller.eventMask stack CHANNEL_READ) EPOLLIN = true ∧
      has (Epoller.eventMask stack CHANNEL_READ) EPOLLOUT = false := by
  have hmask : Epoller.eventMask stack CHANNEL_READ = stack ||| EPOLLIN := by
    unfold Epoller.eventMask
    simp [show has CHANNEL_READ CHANNEL_READ = true by decide,
      show has CHANNEL_READ CHANNEL_WRITE = false by decide,
      show has CHANNEL_READ CHANNEL_TIMER = false by decide]
  rw [hmask, has_or, has_or, h]
  exact ⟨by rw [show has EPOLLIN EPOLLIN = true by decide, Bool.or_true], by decide⟩

theorem eventMask_readWrite (stack : Flags) :
    has (Epoller.eventMask stack (CHANNEL_READ ||| CHANNEL_WRITE)) EPOLLIN = true ∧
      has (Epoller.eventMask stack (CHANNEL_READ ||| CHANNEL_WRITE)) EPOLLOUT = true := by
  have hmask : Epoller.eventMask stack (CHANNEL_READ ||| CHANNEL_WRITE) =
      stack ||| EPOLLIN ||| EPOLLOUT := by
    unfold Epoller.eventMask
    simp [show has (CHANNEL_READ ||| CHANNEL_WRITE) CHANNEL_READ = true by decide,
      show has (CHANNEL_READ ||| CHANNEL_WRITE) CHANNEL_WRITE = true by decide,
      show has (CHANNEL_READ ||| CHANNEL_WRITE) CHANNEL_TIMER = false by decide]
  rw [hmask, has_or, has_or, has_or, has_or]
  exact ⟨by rw [show has EPOLLIN EPOLLIN = true by decide]; simp,
    by rw [show has EPOLLOUT EPOLLOUT = true by decide]; simp⟩

/-- A registration of the channel, with what it asks for behind `act`. -/
theorem update_inv {e : Epoller} (hkeys : e.KeysAgree) {a : Answer} {p : ℕ} {fd : ℤ} {c : Channel}
    (data : HttpData) {out : Sink} {log : List HttpAct} (hfd : c.fd = fd)
    (hlisten : c.isListenFd = false)
    (hevents : c.events = if Pending log then CHANNEL_READ ||| CHANNEL_WRITE else CHANNEL_READ)
    (hctl : a.ctl = true) (hstack : has a.stack EPOLLOUT = false) :
    Inv p fd { data := { data with channel := (e.update a p c).2 }, out := out,
               epoller := (e.update a p c).1, log := log } := by
  have htimer : has c.events CHANNEL_TIMER = false := by
    rw [hevents]
    split <;> decide
  have hupdate : e.update a p c =
      ({ e with
          interest := Function.update e.interest fd (some (Epoller.eventMask a.stack c.events))
          channels := Function.update e.channels fd (some p) }, c.updateEvent) := by
    rw [Epoller.update, htimer, if_neg Bool.false_ne_true, Epoller.control_eq hkeys, hctl,
      if_pos rfl, hfd]
  rw [hupdate]
  refine ⟨Epoller.keysAgree_update hkeys fd rfl e.armed, hfd, hlisten, hevents,
    Function.update_self _ _ _, _, Function.update_self _ _ _, ?_⟩
  rw [hevents]
  split
  · next hpending =>
    obtain ⟨hin, hout⟩ := eventMask_readWrite a.stack
    exact ⟨hin, iff_of_true hout hpending⟩
  · next hpending =>
    obtain ⟨hin, hout⟩ := eventMask_read hstack
    exact ⟨hin, iff_of_false (by rw [hout]; exact Bool.false_ne_true) hpending⟩

/-! ## One step -/

variable {fuel p : ℕ} {fd : ℤ} {s s' : HttpConnection} {e : HttpReport}

/-- What a step does: nothing that is seen outside, or it recognises a request, or it answers one.
    -/
inductive Acted (s s' : HttpConnection) (e : HttpReport) : Prop
  | silent (log : s'.log = s.log) (out : s'.out = s.out)
  | request (readable : has e.reported EPOLLIN = true) (log : s'.log = s.log ++ [.request])
      (out : s'.out = s.out)
  | response (writable : e.reported = EPOLLOUT) (pending : Pending s.log) (bytes : Bytes)
      (log : s'.log = s.log ++ [.response bytes]) (later : Later s.out s'.out)
      (sent : s'.out.sent = s.out.sent ++ bytes)

theorem Inv.active (h : Inv p fd s) (reported : Flags) : Inv p fd (s.active reported) :=
  ⟨h.keys, h.fd_eq, h.notListen, h.events, h.registered, h.interest⟩

theorem Inv.not_timer (h : Inv p fd s) : has s.data.channel.events CHANNEL_TIMER = false := by
  rw [h.events]
  split <;> decide

/-- The handler that is called. -/
theorem Inv.handleEvent (h : Inv p fd s) (reported : Flags) :
    (s.active reported).data.channel.handleEvent = Reactor.due reported :=
  Reactor.handleEvent_translate h.notListen h.not_timer reported

/-- `EPOLLOUT` is reported only when it has been asked for. -/
theorem Inv.pending (h : Inv p fd s) (hlegal : Legal fd s e) (hout : e.reported = EPOLLOUT) :
    Pending s.log := by
  obtain ⟨mask, hmask, hreported⟩ := hlegal.interest
  obtain ⟨mask', hmask', -, hiff⟩ := h.interest
  obtain rfl := Option.some.inj (hmask.symm.trans hmask')
  refine hiff.mp ?_
  -- a mask without the bit would not let it through
  have hbit : has (mask ||| EPOLLERR ||| EPOLLHUP) EPOLLOUT = true := by
    rw [← or_eq_right_iff, hout] at hreported
    rw [← hreported, has_or]
    exact Bool.or_eq_true_iff.mpr (Or.inl (by decide))
  rw [has_or, has_or] at hbit
  simpa [show has EPOLLERR EPOLLOUT = false by decide,
    show has EPOLLHUP EPOLLOUT = false by decide] using hbit

theorem handleRead_channel {f : HttpFrame} {d d' : HttpData} {done : Bool} {rp : Rio}
    (h : d.handleRead fuel f = some (done, rp, d')) :
    d'.channel = if done then d.channel.setEvent (CHANNEL_READ ||| CHANNEL_WRITE) else d.channel := by
  obtain ⟨⟨ret, l⟩, -, hrest⟩ := Option.bind_eq_some_iff.mp h
  obtain ⟨text, -, hrest⟩ := Option.bind_eq_some_iff.mp hrest
  obtain ⟨⟨ret', rp', fd'⟩, -, hdone⟩ := Option.bind_eq_some_iff.mp hrest
  simp only at hdone
  split_ifs at hdone <;> obtain ⟨rfl, -, rfl⟩ := hdone <;> rfl

theorem read_inv (h : Inv p fd s) (hlegal : Legal fd s e)
    (hreadable : has e.reported EPOLLIN = true) (hs : s.read fuel p e = some s') :
    Inv p fd s' ∧ Acted s s' e := by
  obtain ⟨⟨done, rp, data⟩, hread, hdone⟩ := Option.bind_eq_some_iff.mp hs
  have hchannel := handleRead_channel hread
  cases done with
  | true =>
    rw [if_pos rfl] at hchannel
    obtain rfl := Option.some.inj hdone
    refine ⟨update_inv h.keys data ?_ ?_ ?_ hlegal.ctl hlegal.stack, .request hreadable rfl rfl⟩
    · rw [hchannel]
      exact h.fd_eq
    · rw [hchannel]
      exact h.notListen
    · rw [hchannel, if_pos ((pending_concat _ _).mpr rfl)]
      rfl
  | false =>
    rw [if_neg Bool.false_ne_true] at hchannel
    obtain rfl := Option.some.inj hdone
    refine ⟨⟨h.keys, ?_, ?_, ?_, h.registered, h.interest⟩, .silent rfl rfl⟩
    · rw [hchannel]
      exact h.fd_eq
    · rw [hchannel]
      exact h.notListen
    · rw [hchannel]
      exact h.events

/-- `handleWrite` serves the file, or does nothing. -/
theorem handleWrite_cases {buf : Bytes} {filesize : Option ℤ} {opened : Option Reads}
    {d d' : HttpData} {out out' : Sink} {done : Bool}
    (h : d.handleWrite fuel buf filesize opened out = some (done, d', out')) :
    (done = false ∧ d' = d ∧ out' = out) ∨
      ∃ size l, done = true ∧ filesize = some size ∧
        serveStatic fuel fuel buf out homeHtml size opened = some (false, l) ∧
        d' = { d with channel := d.channel.setEvent CHANNEL_READ } ∧ out' = l.fd := by
  cases filesize with
  | none =>
    obtain ⟨rfl, rfl, rfl⟩ := h
    exact Or.inl ⟨rfl, rfl, rfl⟩
  | some size =>
    obtain ⟨⟨more, l⟩, hserve, hdone⟩ := Option.bind_eq_some_iff.mp h
    simp only at hdone
    split_ifs at hdone with hmore
    obtain ⟨rfl, rfl, rfl⟩ := hdone
    obtain rfl := Bool.eq_false_iff.mpr hmore
    exact Or.inr ⟨size, l, rfl, rfl, hserve, rfl, rfl⟩

theorem write_inv (h : Inv p fd s) (hlegal : Legal fd s e) (hwritable : e.reported = EPOLLOUT)
    (hs : s.write fuel p e = some s') : Inv p fd s' ∧ Acted s s' e := by
  obtain ⟨⟨done, data, out⟩, hwrite, hdone⟩ := Option.bind_eq_some_iff.mp hs
  rcases handleWrite_cases hwrite with ⟨rfl, rfl, rfl⟩ | ⟨size, l, rfl, -, hserve, rfl, rfl⟩
  · obtain rfl := Option.some.inj hdone
    exact ⟨h, .silent rfl rfl⟩
  · obtain rfl := Option.some.inj hdone
    have hlater := serveStatic_later hserve
    obtain ⟨bytes, hbytes⟩ := hlater.sent
    refine ⟨update_inv h.keys _ h.fd_eq h.notListen ?_ hlegal.ctl hlegal.stack,
      .response hwritable (h.pending hlegal hwritable) _ rfl hlater ?_⟩
    · have hanswered : ¬ Pending (s.log ++ [.response (l.fd.sent.drop s.out.sent.length)]) := by
        rw [pending_concat]
        nofun
      exact (if_neg hanswered).symm
    · show l.fd.sent = s.out.sent ++ l.fd.sent.drop s.out.sent.length
      rw [← hbytes, List.drop_left]

theorem step_inv (h : Inv p fd s) (hlegal : Legal fd s e) (hs : s.step fuel p e = some s') :
    Inv p fd s' ∧ Acted s s' e := by
  have hactive := h.active e.reported
  have hlegal' : Legal fd (s.active e.reported) e := ⟨hlegal.interest, hlegal.ctl, hlegal.stack⟩
  have hkeep : Inv p fd s' ∧ Acted (s.active e.reported) s' e → Inv p fd s' ∧ Acted s s' e := by
    rintro ⟨hinv, hacted⟩
    refine ⟨hinv, ?_⟩
    cases hacted with
    | silent log out => exact .silent log out
    | request readable log out => exact .request readable log out
    | response writable pending bytes log later sent =>
      exact .response writable pending bytes log later sent
  unfold step at hs
  dsimp only at hs
  rw [h.handleEvent] at hs
  unfold Reactor.due at hs
  split_ifs at hs with hin hout
  · exact hkeep (read_inv hactive hlegal' hin hs)
  · exact hkeep (write_inv hactive hlegal' hout hs)
  · obtain rfl := Option.some.inj hs
    exact ⟨hactive, .silent rfl rfl⟩

/-- The kernel may report `EPOLLIN` at any time, and `EPOLLOUT` behind a request. -/
theorem Inv.legal (h : Inv p fd s)
    (hreported : e.reported = EPOLLIN ∨ e.reported = EPOLLOUT ∧ Pending s.log)
    (hctl : e.answer.ctl = true) (hstack : has e.answer.stack EPOLLOUT = false) : Legal fd s e := by
  obtain ⟨mask, hmask, hin, hout⟩ := h.interest
  refine ⟨⟨mask, hmask, ?_⟩, hctl, hstack⟩
  rw [← or_eq_right_iff, BitVec.or_assoc, ← BitVec.or_assoc]
  rcases hreported with hr | ⟨hr, hpending⟩
  · rw [hr, show EPOLLIN ||| mask = mask from or_of_has (i := 0) hin]
  · rw [hr, show EPOLLOUT ||| mask = mask from or_of_has (i := 2) (hout.mpr hpending)]

theorem step_of_readable (h : Inv p fd s) (hin : has e.reported EPOLLIN = true) (fuel : ℕ) :
    s.step fuel p e = (s.active e.reported).read fuel p e := by
  have hdue : Reactor.due e.reported = some .read := if_pos hin
  unfold step
  dsimp only
  rw [h.handleEvent, hdue]

theorem step_of_writable (h : Inv p fd s) (hout : e.reported = EPOLLOUT) (fuel : ℕ) :
    s.step fuel p e = (s.active e.reported).write fuel p e := by
  have hdue : Reactor.due e.reported = some .write := by
    rw [hout]
    decide
  unfold step
  dsimp only
  rw [h.handleEvent, hdue]

/-! ## A request and its response -/

/-- What the handlers find: memory of the right size, a NUL in what may be printed, and if `stat`
    succeeds a file that can be read to its end. -/
structure Usable (e : HttpReport) : Prop where
  frame : e.frame.Sized
  nul : 0 ∈ e.frame.buf
  buf : e.buf.length = MAXLINE
  file : e.filesize ≠ none → ∃ src, e.opened = some src ∧ src.EndsWith (.data [])

/-- The headers, and the file in whole blocks. -/
def Whole (e : HttpReport) (bytes : Bytes) : Prop :=
  ∃ size src body, e.filesize = some size ∧ e.opened = some src ∧
    bytes = headerText homeHtml size ++ body ∧ src.stream <+: body ∧
    body.length = ServeStatic.blocksLength src.stream.length

/-- The client sends up to some end, and takes what is sent to it. -/
structure Good (p : ℕ) (fd : ℤ) (M : ℕ) (s : HttpConnection) : Prop where
  inv : Inv p fd s
  chunked : s.data.fd.Chunked
  clean : s.out.Clean
  settles : s.out.Settles M

section

variable {M : ℕ}

theorem Acted.later (h : Acted s s' e) : Later s.out s'.out := by
  cases h with
  | silent _ out => exact out ▸ Later.refl _
  | request _ _ out => exact out ▸ Later.refl _
  | response _ _ _ _ later _ => exact later

theorem Good.active (h : Good p fd M s) (reported : Flags) : Good p fd M (s.active reported) :=
  ⟨h.inv.active reported, h.chunked, h.clean, h.settles⟩

theorem Good.step (h : Good p fd M s) (hlegal : Legal fd s e) (hs : s.step fuel p e = some s')
    (hchunked : s'.data.fd.Chunked) : Good p fd M s' := by
  obtain ⟨hinv, hacted⟩ := step_inv h.inv hlegal hs
  exact ⟨hinv, hchunked, hacted.later.clean h.clean, hacted.later.settles h.settles⟩

/-- The handler of a descriptor that is readable returns. -/
theorem step_readable (h : Good p fd M s) (hu : Usable e) (hin : has e.reported EPOLLIN = true) :
    ∃ s', ∀ fuel, s.data.fd.stream.length < fuel → s.step fuel p e = some s' := by
  obtain ⟨done, rp, data, hread, -⟩ := HttpData.handleRead_returns
    (h := (s.active e.reported).data) hu.frame (fun _ => hu.nul) h.chunked (Nat.lt_succ_self _)
  refine ⟨if done then updateChannel { s.active e.reported with data := data } p e.answer .request
    else { s.active e.reported with data := data }, fun fuel hfuel => ?_⟩
  rw [step_of_readable h.inv hin]
  simp only [read, HttpData.handleRead_mono hread hfuel, Option.bind_eq_bind, Option.bind_some]
  cases done <;> rfl

/-- It recognises the request that is on the stream. -/
theorem step_request (h : Good p fd M s) (hu : Usable e) (hin : has e.reported EPOLLIN = true)
    {b rest : Bytes} (hb : Block b) (hs : s.data.fd.stream = b ++ (emptyLine ++ rest)) :
    ∃ s' u, (∀ fuel, s.data.fd.stream.length < fuel → s.step fuel p e = some s') ∧
      s'.log = s.log ++ [.request] ∧ s'.data.fd.Chunked ∧
      Ahead s.data.fd.chunks u s'.data.fd.chunks ∧ u ++ s'.data.fd.stream = rest := by
  obtain ⟨rp, data, hread, hchunked, hahead, hrest⟩ := HttpData.handleRead_block
    (h := (s.active e.reported).data) hu.frame h.chunked hb hs (Nat.lt_succ_self _)
  refine ⟨updateChannel { s.active e.reported with data := data } p e.answer .request,
    rp.unread, fun fuel hfuel => ?_, rfl, hchunked, hahead, hrest⟩
  rw [step_of_readable h.inv hin]
  simp only [read, HttpData.handleRead_mono hread hfuel, Option.bind_eq_bind, Option.bind_some,
    if_true]

/-- `handleWrite` sends the file behind its headers. -/
theorem write_response (h : Good p fd M s) (hu : Usable e) {size : ℤ}
    (hsize : e.filesize = some size) :
    ∃ enough s' bytes, (∀ fuel, enough ≤ fuel → s.write fuel p e = some s') ∧
      s'.log = s.log ++ [.response bytes] ∧ Whole e bytes ∧ s'.data.fd = s.data.fd := by
  obtain ⟨src, hopened, hends⟩ := hu.file (by rw [hsize]; nofun)
  obtain ⟨calls, rounds, l, body, hserve, hsent, hbegins, hlen⟩ :=
    serveStatic_body hu.buf h.settles h.clean homeHtml size hends
  have hbytes : l.fd.sent.drop s.out.sent.length = headerText homeHtml size ++ body := by
    rw [hsent, List.drop_left]
  refine ⟨max calls rounds, updateChannel { s with
      data := { s.data with channel := s.data.channel.setEvent CHANNEL_READ }
      out := l.fd } p e.answer (.response (headerText homeHtml size ++ body)), _,
    fun fuel hfuel => ?_, rfl, ⟨size, src, body, hsize, hopened, rfl, hbegins, hlen⟩, rfl⟩
  have hdone := serveStatic_done hserve (Nat.le_trans (Nat.le_max_left _ _) hfuel)
    (Nat.le_trans (Nat.le_max_right _ _) hfuel)
  simp only [write, HttpData.handleWrite, hsize, hopened, hdone, Option.bind_eq_bind,
    Option.bind_some, if_true, if_neg Bool.false_ne_true, hbytes]

/-- A client that is readable behind a request, and then writable, gets its response. -/
theorem request_answered (h : Good p fd M s) {e₁ e₂ : HttpReport} (hu₁ : Usable e₁) (hu₂ : Usable e₂)
    (hin : e₁.reported = EPOLLIN) (hout : e₂.reported = EPOLLOUT) (hfile : e₂.filesize.isSome = true)
    (ha₁ : e₁.answer.ctl = true ∧ has e₁.answer.stack EPOLLOUT = false)
    (ha₂ : e₂.answer.ctl = true ∧ has e₂.answer.stack EPOLLOUT = false) {b rest : Bytes}
    (hb : Block b) (hs : s.data.fd.stream = b ++ (emptyLine ++ rest)) :
    ∃ enough s' u bytes, (∀ fuel, enough ≤ fuel → Along (step fuel p) (Legal fd) s [e₁, e₂] ∧
        run (step fuel p) s [e₁, e₂] = some s') ∧
      s'.log = s.log ++ [.request, .response bytes] ∧ Whole e₂ bytes ∧ Good p fd M s' ∧
      Ahead s.data.fd.chunks u s'.data.fd.chunks ∧ u ++ s'.data.fd.stream = rest := by
  obtain ⟨s₁, u, hstep₁, hlog₁, hchunked₁, hahead, hrest⟩ :=
    step_request h hu₁ (by rw [hin]; decide) hb hs
  have hlegal₁ : Legal fd s e₁ := h.inv.legal (Or.inl hin) ha₁.1 ha₁.2
  have hgood₁ : Good p fd M s₁ := h.step hlegal₁ (hstep₁ _ (Nat.lt_succ_self _)) hchunked₁
  have hpending : Pending s₁.log := by
    rw [hlog₁]
    exact (pending_concat _ _).mpr rfl
  have hlegal₂ : Legal fd s₁ e₂ := hgood₁.inv.legal (Or.inr ⟨hout, hpending⟩) ha₂.1 ha₂.2
  obtain ⟨size, hsize⟩ := Option.isSome_iff_exists.mp hfile
  obtain ⟨enough, s₂, bytes, hwrite, hlog₂, hwhole, hfd₂⟩ :=
    write_response (p := p) (hgood₁.active e₂.reported) hu₂ hsize
  have hstep₂ : ∀ fuel, enough ≤ fuel → s₁.step fuel p e₂ = some s₂ := by
    intro fuel hfuel
    rw [step_of_writable hgood₁.inv hout]
    exact hwrite fuel hfuel
  have hsame : s₂.data.fd = s₁.data.fd := hfd₂
  refine ⟨max enough (s.data.fd.stream.length + 1), s₂, u, bytes, fun fuel hfuel => ?_, ?_, hwhole,
    hgood₁.step hlegal₂ (hstep₂ _ (Nat.le_refl _)) (hsame ▸ hchunked₁), ?_, ?_⟩
  · have h₁ := hstep₁ fuel (Nat.le_trans (Nat.le_max_right _ _) hfuel)
    have h₂ := hstep₂ fuel (Nat.le_trans (Nat.le_max_left _ _) hfuel)
    refine ⟨along_step hlegal₁ h₁ (along_step hlegal₂ h₂ trivial), ?_⟩
    simp [run_cons, h₁, h₂]
  · show s₂.log = _
    rw [hlog₂]
    show s₁.log ++ _ = _
    rw [hlog₁, List.append_assoc]
    rfl
  · rwa [hsame]
  · rwa [hsame]

end

/-! ## Runs -/

section

variable {es : List HttpReport} {e₀ : Epoller} {junk : Flags} {a : Answer} {reads : Reads}
  {out : Sink}

theorem newRequest_inv (hkeys : e₀.KeysAgree) (p : ℕ) (fd : ℤ) (junk : Flags) (reads : Reads)
    (out : Sink) (hctl : a.ctl = true) (hstack : has a.stack EPOLLOUT = false) :
    Inv p fd (newRequest e₀ p fd junk a reads out) := by
  have hnone : ¬ Pending [] := nofun
  exact update_inv (c := (Channel.construct junk fd false).setEvent CHANNEL_READ) hkeys
    { fd := reads, channel := Channel.construct junk fd false } rfl rfl (if_neg hnone).symm hctl
    hstack

/-- What has been sent is the responses, and each of them has its request. -/
structure Answers (out : Sink) (s : HttpConnection) : Prop where
  alternates : Alternates s.log
  sent : s.out.sent = out.sent ++ s.log.flatMap HttpAct.sent

theorem Acted.answers (h : Acted s s' e) (hs : Answers out s) : Answers out s' := by
  cases h with
  | silent log out => exact ⟨log ▸ hs.alternates, by rw [out, log]; exact hs.sent⟩
  | request readable log out =>
    refine ⟨?_, by rw [out, log, hs.sent]; simp [HttpAct.sent]⟩
    rw [log]
    exact hs.alternates.concat nofun
  | response writable pending bytes log later sent =>
    refine ⟨?_, by rw [sent, log, hs.sent]; simp [HttpAct.sent]⟩
    rw [log]
    exact hs.alternates.concat fun _ _ => pending

theorem run_answers (hkeys : e₀.KeysAgree) (hctl : a.ctl = true)
    (hstack : has a.stack EPOLLOUT = false)
    (h : Along (step fuel p) (Legal fd) (newRequest e₀ p fd junk a reads out) es)
    (hrun : run (step fuel p) (newRequest e₀ p fd junk a reads out) es = some s) :
    Inv p fd s ∧ Answers out s := by
  refine run_invariant_along (I := fun s => Inv p fd s ∧ Answers out s) ?_ es _ s
    ⟨newRequest_inv hkeys p fd junk reads out hctl hstack, always_nil _, (List.append_nil _).symm⟩
    h hrun
  rintro s e s' ⟨hinv, hanswers⟩ hlegal hs
  obtain ⟨hinv', hacted⟩ := step_inv hinv hlegal hs
  exact ⟨hinv', hacted.answers hanswers⟩

/-- **A response for a request.** Over a poller whose two tables agree, and where `epoll_ctl`
    succeeds and the uninitialised `epoll_event` holds no `EPOLLOUT`: in every run of a
    connection, whatever `poll` reports and the handlers find, and however far `write` gets, each
    response comes right behind a request that has been recognised; what has been sent is the
    responses, one behind the other; WRITE is asked for exactly while a request has not been
    answered; and the descriptor stays registered for READ. -/
theorem http_alternates (hkeys : e₀.KeysAgree) (hctl : a.ctl = true)
    (hstack : has a.stack EPOLLOUT = false)
    (h : Along (step fuel p) (Legal fd) (newRequest e₀ p fd junk a reads out) es)
    (hrun : run (step fuel p) (newRequest e₀ p fd junk a reads out) es = some s) :
    Alternates s.log ∧ s.out.sent = out.sent ++ s.log.flatMap HttpAct.sent ∧
      (s.data.channel.isWriting = true ↔ Pending s.log) ∧ s.epoller.channels fd = some p ∧
      ∃ mask ∈ s.epoller.interest fd, has mask EPOLLIN = true := by
  obtain ⟨hinv, halternates, hsent⟩ := run_answers hkeys hctl hstack h hrun
  obtain ⟨mask, hmask, hin, -⟩ := hinv.interest
  refine ⟨halternates, hsent, ?_, hinv.registered, mask, hmask, hin⟩
  rw [Channel.isWriting, hinv.events]
  split
  · next hpending => exact iff_of_true (by decide) hpending
  · next hpending => exact iff_of_false (by decide) hpending

/-- A report on the connection `5`, with memory that is all zero and a file of one block. -/
def sampleReport (reported : Flags) : HttpReport :=
  { reported := reported
    frame := zeroFrame
    buf := List.replicate MAXLINE 0
    filesize := some 1024
    opened := some oneBlock
    answer := ⟨0#32, true, true⟩ }

theorem sampleReport_usable (reported : Flags) : Usable (sampleReport reported) := by
  refine ⟨zeroFrame_sized, List.mem_replicate.mpr ⟨by decide, rfl⟩, List.length_replicate,
    fun _ => ⟨oneBlock, rfl, ?_, rfl⟩⟩
  exact List.length_pos_iff.mp (by rw [List.length_replicate]; decide)

/-- Two requests, each in a chunk. -/
def sampleStart : HttpConnection :=
  newRequest Epoller.init 1 5 0#32 ⟨0#32, true, true⟩ inTwoReads slowSink

theorem inTwoReads_chunked : inTwoReads.Chunked := ⟨by decide, by decide, by decide, by decide, rfl⟩

theorem sampleStart_good : Good 1 5 1 sampleStart :=
  ⟨newRequest_inv Epoller.init_keysAgree 1 5 0#32 inTwoReads slowSink rfl rfl, inTwoReads_chunked,
    slowSink_clean, slowSink_settles⟩

theorem block_getRequest : Block getRequest.head := by
  simpa using block_head getRequest getRequest.length_head_pos

/-- What reads the first request does not touch the second. -/
theorem inTwoReads_unread {u : Bytes} {cs : List Bytes} (h : Ahead inTwoReads.chunks u cs)
    (hlen : u.length + cs.flatten.length = 9) : u = [] := by
  have hall : inTwoReads.chunks.flatten.length = 9 + u.length + cs.flatten.length := by
    rw [Nat.add_assoc, hlen]
    rfl
  have hlt := ((h.begins_iff hall 1).mp ⟨0, Nat.one_pos, [getRequest.bytes], getRequest.bytes, [],
    rfl, rfl⟩).1
  exact List.length_eq_zero_iff.mp (Nat.lt_one_iff.mp hlt)

/-- Readable, writable, and readable again. -/
def sampleReports : List HttpReport :=
  [sampleReport EPOLLIN, sampleReport EPOLLOUT] ++ [sampleReport EPOLLIN]

theorem forall_sampleReports {P : HttpReport → Prop} (h : ∀ reported, P (sampleReport reported)) :
    ∀ e ∈ sampleReports, P e := by
  simp [sampleReports, h]

theorem sampleStart_run : ∃ enough s s' bytes, s.log = [.request, .response bytes, .request] ∧
    ∀ fuel, enough ≤ fuel →
      Along (step fuel 1) (Legal 5) sampleStart (sampleReports ++ [sampleReport EPOLLIN]) ∧
      run (step fuel 1) sampleStart sampleReports = some s ∧
      run (step fuel 1) s [sampleReport EPOLLIN] = some s' := by
  have hu := sampleReport_usable
  have hs : sampleStart.data.fd.stream = getRequest.head ++ (emptyLine ++ wire [getRequest]) := by
    decide
  obtain ⟨n, s₂, u, bytes, hboth, hlog₂, -, hgood₂, hahead, hrest⟩ := request_answered
    sampleStart_good (hu EPOLLIN) (hu EPOLLOUT) rfl rfl rfl ⟨rfl, rfl⟩ ⟨rfl, rfl⟩ block_getRequest hs
  -- the second request
  have hs₂ : s₂.data.fd.stream = getRequest.head ++ (emptyLine ++ wire []) := by
    have hlen := congrArg List.length hrest
    rw [List.length_append, ← Reads.flatten_chunks] at hlen
    rwa [inTwoReads_unread hahead hlen, List.nil_append, wire_cons] at hrest
  obtain ⟨s₃, -, hstep₃, hlog₃, hchunked₃, -⟩ :=
    step_request hgood₂ (hu EPOLLIN) (by decide) block_getRequest hs₂
  have hlegal₃ : Legal 5 s₂ (sampleReport EPOLLIN) := hgood₂.inv.legal (Or.inl rfl) rfl rfl
  have hgood₃ : Good 1 5 1 s₃ := hgood₂.step hlegal₃ (hstep₃ _ (Nat.lt_succ_self _)) hchunked₃
  -- and end-of-file, or what comes behind it
  obtain ⟨s₄, hstep₄⟩ := step_readable hgood₃ (hu EPOLLIN) (by decide)
  have hlegal₄ : Legal 5 s₃ (sampleReport EPOLLIN) := hgood₃.inv.legal (Or.inl rfl) rfl rfl
  refine ⟨n + s₂.data.fd.stream.length + s₃.data.fd.stream.length + 1, s₃, s₄, bytes, ?_,
    fun fuel hfuel => ?_⟩
  · rw [hlog₃, hlog₂]
    rfl
  · obtain ⟨hlegal, hrun⟩ := hboth fuel (by omega)
    have h₃ := hstep₃ fuel (by omega)
    have h₄ := hstep₄ fuel (by omega)
    have hrun₃ : run (step fuel 1) sampleStart sampleReports = some s₃ :=
      run_append_eq_some.mpr ⟨s₂, hrun, run_cons_eq_some.mpr ⟨s₃, h₃, rfl⟩⟩
    have halong₃ : Along (step fuel 1) (Legal 5) sampleStart sampleReports := by
      refine along_append.mpr ⟨hlegal, fun t ht => ?_⟩
      obtain rfl := Option.some.inj (hrun.symm.trans ht)
      exact along_step hlegal₃ h₃ trivial
    refine ⟨along_append.mpr ⟨halong₃, fun t ht => ?_⟩, hrun₃, run_cons_eq_some.mpr ⟨s₄, h₄, rfl⟩⟩
    obtain rfl := Option.some.inj (hrun₃.symm.trans ht)
    exact along_step hlegal₄ h₄ trivial

theorem http_alternates_sample :
    ∃ fuel s bytes, run (step fuel 1) sampleStart sampleReports = some s ∧
      s.log = [.request, .response bytes, .request] ∧ s.out.sent = slowSink.sent ++ bytes ∧
      Alternates s.log ∧ s.data.channel.isWriting = true := by
  obtain ⟨fuel, s, s', bytes, hlog, hall⟩ := sampleStart_run
  obtain ⟨hlegal, hrun, -⟩ := hall fuel (Nat.le_refl _)
  obtain ⟨halternates, hsent, hwriting, -⟩ :=
    http_alternates Epoller.init_keysAgree rfl rfl (along_append.mp hlegal).1 hrun
  refine ⟨fuel, s, bytes, hrun, hlog, ?_, halternates, hwriting.mpr (by rw [hlog]; rfl)⟩
  rw [hsent, hlog]
  simp [HttpAct.sent]

/-- **No answer while there is something to read.** Under the conditions of `http_alternates`,
    from every state of every run: as long as each report says that the descriptor is readable,
    nothing is sent, and a request that has not been answered stays so. A client that closes its
    side is readable for ever. -/
theorem readable_unanswered (es es' : List HttpReport) (hkeys : e₀.KeysAgree) (hctl : a.ctl = true)
    (hstack : has a.stack EPOLLOUT = false)
    (h : Along (step fuel p) (Legal fd) (newRequest e₀ p fd junk a reads out) (es ++ es'))
    (hreadable : ∀ e ∈ es', has e.reported EPOLLIN = true)
    (hrun : run (step fuel p) (newRequest e₀ p fd junk a reads out) es = some s)
    (hrun' : run (step fuel p) s es' = some s') :
    s'.out = s.out ∧ (Pending s.log → Pending s'.log) := by
  obtain ⟨hbefore, hafter⟩ := along_append.mp h
  obtain ⟨hinv, -⟩ := run_answers hkeys hctl hstack hbefore hrun
  obtain ⟨-, hout, hpending⟩ := run_invariant_along
    (I := fun t => Inv p fd t ∧ t.out = s.out ∧ (Pending s.log → Pending t.log))
    (fun t e t' ⟨hinv, hout, hpending⟩ ⟨hlegal, hin⟩ hs => by
      obtain ⟨hinv', hacted⟩ := step_inv hinv hlegal hs
      refine ⟨hinv', ?_⟩
      cases hacted with
      | silent log out => exact ⟨out.trans hout, fun hp => log ▸ hpending hp⟩
      | request readable log out =>
        exact ⟨out.trans hout, fun _ => log ▸ (pending_concat _ _).mpr rfl⟩
      | response writable _ _ _ _ _ =>
        rw [writable] at hin
        exact absurd hin (by decide)) es' s s' ⟨hinv, rfl, id⟩
    ((hafter s hrun).and (along_of_forall hreadable)) hrun'
  exact ⟨hout, hpending⟩

theorem readable_unanswered_sample :
    ∃ fuel s s', run (step fuel 1) sampleStart sampleReports = some s ∧
      run (step fuel 1) s [sampleReport EPOLLIN] = some s' ∧ s'.out = s.out ∧ Pending s'.log := by
  obtain ⟨fuel, s, s', bytes, hlog, hall⟩ := sampleStart_run
  obtain ⟨hlegal, hrun, hrun'⟩ := hall fuel (Nat.le_refl _)
  obtain ⟨hout, hpending⟩ := readable_unanswered sampleReports [sampleReport EPOLLIN]
    Epoller.init_keysAgree rfl rfl hlegal (fun e he => by
      rw [List.mem_singleton.mp he]
      decide) hrun hrun'
  exact ⟨fuel, s, s', hrun, hrun', hout, hpending (by rw [hlog]; rfl)⟩

end

end HttpConnection

end XWeb.Net
