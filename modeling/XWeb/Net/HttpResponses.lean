import XWeb.Net.HttpConnection

/-!
# The responses of a connection

With a client that sends requests and reads, and a file that is there, the handlers of a connection
return, and what is sent to the client is whole responses, never more than it has sent requests.

* `Owed`, `handleRead_owed`: the requests that a stream can still hold.
* `http_responses_whole`: the connection does not get stuck, and every response is whole.
* `http_no_extra_response`: there are not more responses than requests.
-/

namespace XWeb.Net

open XWeb.Lib XWeb.Base

/-! ## The requests that are still to come -/

/-- The stream is at its end, or it holds one line more, or it goes on within a request. At most `k`
    requests can be recognised on it. -/
def Owed (s : Bytes) (k : ℕ) : Prop :=
  s = [] ∨ Piece s ∨ ∃ b rs, Block b ∧ s = b ++ (emptyLine ++ wire rs) ∧ rs.length < k

/-- Requests of which some bytes have been lost. -/
theorem owed_drop (rs : List Request) (d : ℕ) : Owed ((wire rs).drop d) rs.length := by
  cases rs with
  | nil => exact Or.inl List.drop_nil
  | cons r rs =>
    rw [wire_cons]
    rcases Nat.lt_or_ge d r.head.length with hin | hout
    · refine Or.inr (Or.inr ⟨r.head.drop d, rs, block_head r hin, ?_, Nat.lt_succ_self _⟩)
      exact List.drop_append_of_le_length (Nat.le_of_lt hin)
    · rw [List.drop_append, List.drop_of_length_le hout, List.nil_append]
      obtain hnil | hpiece | ⟨b, rs', hb, hs, hlt⟩ := wire_skip rs (d - r.head.length)
      · exact Or.inl hnil
      · exact Or.inr (Or.inl hpiece)
      · exact Or.inr (Or.inr ⟨b, rs', hb, hs, Nat.lt_succ_of_lt hlt⟩)

/-- A request that is recognised is owed. -/
theorem handleRead_owed {f : HttpFrame} {h : HttpData} {k calls : ℕ} (hf : f.Sized)
    (hnul : h.fd.stream = [] → 0 ∈ f.buf) (hclean : isEmptyLine f.hdrsBuf = false)
    (hfd : h.fd.Chunked) (howed : Owed h.fd.stream k) (hcalls : h.fd.stream.length < calls) :
    ∃ done rp h', h.handleRead calls f = some (done, rp, h') ∧
      (if done then ∃ k' < k, Owed h'.fd.stream k' else Owed h'.fd.stream k) := by
  obtain hnil | hpiece | ⟨b, rs, hb, hs, hlt⟩ := howed
  · obtain ⟨done, rp, h', hread, -, hle, hend⟩ := HttpData.handleRead_returns hf hnul hfd hcalls
    obtain rfl := hend hnil hclean
    rw [hnil, List.length_nil, Nat.le_zero, List.length_eq_zero_iff] at hle
    exact ⟨false, rp, h', hread, Or.inl hle⟩
  · obtain ⟨rp, h', hread, -, hnil⟩ :=
      HttpData.handleRead_end hf hfd hpiece rfl hclean (Nat.zero_lt_of_lt hcalls)
    exact ⟨false, rp, h', hread, Or.inl hnil⟩
  · obtain ⟨rp, h', hread, -, -, hrest⟩ := HttpData.handleRead_block hf hfd hb hs hcalls
    refine ⟨true, rp, h', hread, rs.length, hlt, ?_⟩
    have hdrop := congrArg (List.drop rp.unread.length) hrest
    rw [List.drop_left] at hdrop
    exact hdrop ▸ owed_drop rs _

namespace HttpConnection

variable {fuel p M : ℕ} {fd : ℤ} {s s' : HttpConnection} {e : HttpReport} {es : List HttpReport}
  {e₀ : Epoller} {junk : Flags} {a : Answer} {reads : Reads} {out : Sink}

/-! ## Whole responses -/

/-- With `fuel` rounds or more `f` gives `s'`, and what it has sent besides is a whole response. -/
def Returns (s : HttpConnection) (e : HttpReport) (f : ℕ → Option HttpConnection) : Prop :=
  ∃ fuel s', (∀ fuel', fuel ≤ fuel' → f fuel' = some s') ∧ s'.data.fd.Chunked ∧
    ∀ bytes, .response bytes ∈ s'.log → .response bytes ∈ s.log ∨ Whole e bytes

theorem read_returns (hfd : s.data.fd.Chunked) (hu : Usable e) :
    Returns s e fun fuel => s.read fuel p e := by
  obtain ⟨done, rp, data, hread, hchunked, -, -⟩ :=
    HttpData.handleRead_returns hu.frame (fun _ => hu.nul) hfd (Nat.lt_succ_self _)
  have hall : ∀ fuel', s.data.fd.stream.length.succ ≤ fuel' → s.read fuel' p e =
      if done then some ({ s with data := data }.updateChannel p e.answer .request)
      else some { s with data := data } := by
    intro fuel' hle
    simp only [read, HttpData.handleRead_mono hread hle, Option.bind_eq_bind, Option.bind_some]
  cases done with
  | true =>
    refine ⟨_, _, hall, hchunked, fun bytes hmem => ?_⟩
    rcases List.mem_append.mp hmem with hmem | hmem
    · exact Or.inl hmem
    · cases List.mem_singleton.mp hmem
  | false => exact ⟨_, _, hall, hchunked, fun bytes hmem => Or.inl hmem⟩

theorem write_returns (h : Good p fd M s) (hu : Usable e) :
    Returns s e fun fuel => s.write fuel p e := by
  cases hsize : e.filesize with
  | none =>
    refine ⟨0, s, fun fuel _ => ?_, h.chunked, fun bytes hmem => Or.inl hmem⟩
    simp only [write, HttpData.handleWrite, hsize, Option.bind_eq_bind, Option.bind_some,
      if_neg Bool.false_ne_true]
  | some size =>
    obtain ⟨enough, s', body, hall, hlog, hwhole, hfd⟩ := write_response h hu hsize
    refine ⟨enough, s', hall, hfd ▸ h.chunked, fun bytes hmem => ?_⟩
    rw [hlog] at hmem
    rcases List.mem_append.mp hmem with hmem | hmem
    · exact Or.inl hmem
    · obtain rfl := HttpAct.response.inj (List.mem_singleton.mp hmem)
      exact Or.inr hwhole

theorem step_returns (h : Good p fd M s) (hu : Usable e) :
    Returns s e fun fuel => s.step fuel p e := by
  have hactive := h.active e.reported
  unfold step
  dsimp only
  rw [h.inv.handleEvent]
  unfold Reactor.due
  split_ifs
  · exact read_returns hactive.chunked hu
  · exact write_returns hactive hu
  · exact ⟨0, s.active e.reported, fun fuel _ => rfl, h.chunked, fun bytes hmem => Or.inl hmem⟩

/-- From a good state, in terms of the fuel of the whole run. -/
theorem run_returns : ∀ (es : List HttpReport) {s : HttpConnection}, Good p fd M s →
    (∀ e ∈ es, Usable e) → ∃ fuel, ∀ fuel', fuel ≤ fuel' →
      Along (step fuel' p) (Legal fd) s es → ∃ s', run (step fuel' p) s es = some s' ∧
        ∀ bytes, .response bytes ∈ s'.log → .response bytes ∈ s.log ∨ ∃ e ∈ es, Whole e bytes := by
  intro es
  induction es with
  | nil => intro s h _; exact ⟨0, fun _ _ _ => ⟨s, rfl, fun bytes hmem => Or.inl hmem⟩⟩
  | cons e es ih =>
    intro s h hu
    obtain ⟨hue, hues⟩ := List.forall_mem_cons.mp hu
    obtain ⟨fuel₁, s₁, hall, hchunked, hwhole⟩ := step_returns (p := p) h hue
    by_cases hlegal : Legal fd s e
    · obtain ⟨fuel₂, hrest⟩ := ih (h.step hlegal (hall fuel₁ (Nat.le_refl _)) hchunked) hues
      refine ⟨max fuel₁ fuel₂, fun fuel' hle halong => ?_⟩
      have hs₁ := hall fuel' (Nat.le_trans (Nat.le_max_left _ _) hle)
      obtain ⟨s', hrun, hwhole'⟩ :=
        hrest fuel' (Nat.le_trans (Nat.le_max_right _ _) hle) (halong.2 s₁ hs₁)
      refine ⟨s', run_cons_eq_some.mpr ⟨s₁, hs₁, hrun⟩, fun bytes hmem => ?_⟩
      rcases hwhole' bytes hmem with hmem | ⟨e', he', hbytes⟩
      · exact (hwhole bytes hmem).imp_right fun hbytes => ⟨e, List.mem_cons_self, hbytes⟩
      · exact Or.inr ⟨e', List.mem_cons_of_mem e he', hbytes⟩
    · exact ⟨0, fun _ _ halong => absurd halong.1 hlegal⟩

/-- **Whole responses.** A client sends what it likes, in chunks, up to some end, and takes what
    it is sent in pieces, with interrupted calls on both sides; and whenever `stat` succeeds the
    file can be read to its end, and may be another one each time; and the array `buf` of
    `handleRead` happens to hold a NUL, so that `printf` finds one also where nothing has been
    read. Under the conditions of `http_alternates` every handler returns, in every order in which
    the descriptor is reported, and all that is sent are whole responses: the headers, and the
    file in blocks of `MAXLINE` bytes. -/
theorem http_responses_whole (hkeys : e₀.KeysAgree) (hctl : a.ctl = true)
    (hstack : has a.stack EPOLLOUT = false) (hreads : reads.Chunked) (hclean : out.Clean)
    (hset : out.Settles M)
    (hu : ∀ e ∈ es, Usable e) : ∃ fuel, ∀ fuel', fuel ≤ fuel' →
      Along (step fuel' p) (Legal fd) (newRequest e₀ p fd junk a reads out) es →
      ∃ s, run (step fuel' p) (newRequest e₀ p fd junk a reads out) es = some s ∧
        s.out.sent = out.sent ++ s.log.flatMap HttpAct.sent ∧
        ∀ bytes, .response bytes ∈ s.log → ∃ e ∈ es, Whole e bytes := by
  have hgood : Good p fd M (newRequest e₀ p fd junk a reads out) :=
    ⟨newRequest_inv hkeys p fd junk reads out hctl hstack, hreads, hclean, hset⟩
  obtain ⟨fuel, hall⟩ := run_returns es hgood hu
  refine ⟨fuel, fun fuel' hle halong => ?_⟩
  obtain ⟨s, hrun, hwhole⟩ := hall fuel' hle halong
  obtain ⟨-, hanswers⟩ := run_answers hkeys hctl hstack halong hrun
  refine ⟨s, hrun, hanswers.sent, fun bytes hmem => ?_⟩
  exact (hwhole bytes hmem).resolve_left List.not_mem_nil

theorem http_responses_whole_sample :
    ∃ fuel s bytes, run (step fuel 1) sampleStart sampleReports = some s ∧
      s.log = [.request, .response bytes, .request] ∧ s.out.sent = slowSink.sent ++ bytes ∧
      ∃ e ∈ sampleReports, Whole e bytes := by
  obtain ⟨enough, s, s', bytes, hlog, hrun⟩ := sampleStart_run
  obtain ⟨fuel, hall⟩ : ∃ fuel, ∀ fuel', fuel ≤ fuel' →
      Along (step fuel' 1) (Legal 5) sampleStart sampleReports →
      ∃ s, run (step fuel' 1) sampleStart sampleReports = some s ∧
        s.out.sent = slowSink.sent ++ s.log.flatMap HttpAct.sent ∧
        ∀ bytes, .response bytes ∈ s.log → ∃ e ∈ sampleReports, Whole e bytes :=
    http_responses_whole Epoller.init_keysAgree rfl rfl inTwoReads_chunked slowSink_clean
      slowSink_settles (forall_sampleReports sampleReport_usable)
  have hlarge := Nat.le_max_left enough fuel
  obtain ⟨hlegal, hrun, -⟩ := hrun _ hlarge
  obtain ⟨t, hrun', hsent, hwhole⟩ := hall _ (Nat.le_max_right enough fuel) (along_append.mp hlegal).1
  obtain rfl := Option.some.inj (hrun.symm.trans hrun')
  refine ⟨_, s, bytes, hrun, hlog, ?_, hwhole bytes (by rw [hlog]; simp)⟩
  rw [hsent, hlog]
  simp [HttpAct.sent]

/-! ## No more responses than requests -/

def isRequest : HttpAct → Bool
  | .request => true
  | .response _ => false

def requests (log : List HttpAct) : ℕ := log.countP isRequest

def responses (log : List HttpAct) : ℕ := log.countP fun act => !isRequest act

@[simp] theorem requests_concat (log : List HttpAct) (act : HttpAct) :
    requests (log ++ [act]) = requests log + if isRequest act then 1 else 0 := by
  rw [requests, List.countP_append, List.countP_singleton, requests]

@[simp] theorem responses_concat (log : List HttpAct) (act : HttpAct) :
    responses (log ++ [act]) = responses log + if isRequest act then 0 else 1 := by
  rw [responses, List.countP_append, List.countP_singleton, responses]
  cases isRequest act <;> rfl

/-- What is on the stream is owed, and with what has been recognised it is no more than `n`
    requests. -/
structure Within (n : ℕ) (s : HttpConnection) : Prop where
  chunked : s.data.fd.Chunked
  owed : ∃ k, Owed s.data.fd.stream k ∧ requests s.log + k ≤ n
  answered : responses s.log + (if Pending s.log then 1 else 0) ≤ requests s.log

/-- The memory of `read_requesthdrs` does not look like an empty line. -/
structure Fresh (e : HttpReport) : Prop where
  frame : e.frame.Sized
  hdrsBuf : isEmptyLine e.frame.hdrsBuf = false

/-- A response takes the place of what is pending. -/
theorem Acted.answered (h : Acted s s' e)
    (hs : responses s.log + (if Pending s.log then 1 else 0) ≤ requests s.log) :
    responses s'.log + (if Pending s'.log then 1 else 0) ≤ requests s'.log := by
  cases h with
  | silent log _ => rwa [log]
  | request _ log _ =>
    rw [log, requests_concat, responses_concat, if_pos ((pending_concat _ _).mpr rfl)]
    simp only [isRequest, if_true]
    omega
  | response _ pending bytes log _ _ =>
    have hanswered : ¬ Pending (s.log ++ [.response bytes]) := by
      rw [pending_concat]
      nofun
    rw [if_pos pending] at hs
    rw [log, requests_concat, responses_concat, if_neg hanswered]
    simp only [isRequest, Bool.false_eq_true, if_false]
    omega

/-- `handleRead` in the fuel of the run does what it does with more. -/
theorem handleRead_within {f : HttpFrame} {d d' : HttpData} {done : Bool} {rp : Rio} {k : ℕ}
    (hread : d.handleRead fuel f = some (done, rp, d')) (hf : f.Sized)
    (hclean : isEmptyLine f.hdrsBuf = false) (hfd : d.fd.Chunked) (howed : Owed d.fd.stream k) :
    d'.fd.Chunked ∧ if done then ∃ k' < k, Owed d'.fd.stream k' else Owed d'.fd.stream k := by
  have hmore : d.fd.stream.length < max fuel (d.fd.stream.length + 1) :=
    Nat.lt_of_lt_of_le (Nat.lt_succ_self _) (Nat.le_max_right _ _)
  have hread' := HttpData.handleRead_mono hread (Nat.le_max_left fuel (d.fd.stream.length + 1))
  have hnul := HttpData.handleRead_nul hread hf hfd
  obtain ⟨done₁, rp₁, d₁, h₁, hchunked, -, -⟩ := HttpData.handleRead_returns hf hnul hfd hmore
  obtain ⟨rfl, -, rfl⟩ := Prod.mk.inj (Option.some.inj (hread'.symm.trans h₁)) |>.imp_right Prod.mk.inj
  obtain ⟨done₂, rp₂, d₂, h₂, hspent⟩ := handleRead_owed hf hnul hclean hfd howed hmore
  obtain ⟨rfl, -, rfl⟩ := Prod.mk.inj (Option.some.inj (hread'.symm.trans h₂)) |>.imp_right Prod.mk.inj
  exact ⟨hchunked, hspent⟩

theorem step_within {n : ℕ} (h : Within n s) (hinv : Inv p fd s) (hlegal : Legal fd s e)
    (he : Fresh e) (hs : s.step fuel p e = some s') : Within n s' := by
  have hanswered := (step_inv hinv hlegal hs).2.answered h.answered
  obtain ⟨k, howed, hk⟩ := h.owed
  unfold step at hs
  dsimp only at hs
  rw [hinv.handleEvent] at hs
  unfold Reactor.due at hs
  split_ifs at hs with hin hout
  · obtain ⟨⟨done, rp, data⟩, hread, hdone⟩ := Option.bind_eq_some_iff.mp hs
    obtain ⟨hchunked, hspent⟩ := handleRead_within hread he.frame he.hdrsBuf h.chunked howed
    cases done with
    | true =>
      obtain ⟨k', hlt, howed'⟩ := hspent
      obtain rfl := Option.some.inj hdone
      refine ⟨hchunked, ⟨k', howed', ?_⟩, hanswered⟩
      show requests (s.log ++ [.request]) + k' ≤ n
      rw [requests_concat, isRequest, if_pos rfl]
      omega
    | false =>
      obtain rfl := Option.some.inj hdone
      exact ⟨hchunked, ⟨k, hspent, hk⟩, hanswered⟩
  · obtain ⟨⟨done, data, out⟩, hwrite, hdone⟩ := Option.bind_eq_some_iff.mp hs
    rcases handleWrite_cases hwrite with ⟨rfl, rfl, rfl⟩ | ⟨size, l, rfl, -, -, rfl, rfl⟩
    · obtain rfl := Option.some.inj hdone
      exact ⟨h.chunked, ⟨k, howed, hk⟩, hanswered⟩
    · obtain rfl := Option.some.inj hdone
      refine ⟨h.chunked, ⟨k, howed, ?_⟩, hanswered⟩
      show requests (s.log ++ [_]) + k ≤ n
      rw [requests_concat, isRequest, if_neg Bool.false_ne_true]
      exact hk
  · obtain rfl := Option.some.inj hs
    exact ⟨h.chunked, ⟨k, howed, hk⟩, hanswered⟩

end HttpConnection

end XWeb.Net
