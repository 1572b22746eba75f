import XWeb.Net.HttpData

/-!
# Requests in a stream

Requests that a client sends one after another arrive in chunks of any size. An activation of
`handleRead` begins where a chunk begins, skips one line unseen, and ends at the first empty line
after it; the rest of the last chunk it has taken is lost.

* `Request`: a request as it is sent.
* `Started`: in every request a chunk begins early enough.
* `serve_spec`: the activations on such a stream.
* `requests_recognised_iff`: exactly which chunks get all requests recognised, and which none
  lost.
-/

namespace XWeb.Net

open XWeb.Lib XWeb.Base

/-! ## Requests -/

/-- A line that is sent with a request: up to `MAXLINE - 1` bytes and a newline, and not empty. -/
structure IsHeader (l : Bytes) : Prop where
  text : ∃ text, l = text ++ [newline] ∧ newline ∉ text ∧ text.length < MAXLINE
  not_empty : l ≠ emptyLine

/-- A request line and headers. -/
structure Request where
  line : Bytes
  headers : List Bytes
  lines_ok : ∀ l ∈ line :: headers, IsHeader l

namespace Request

/-- All but the empty line at the end. -/
def head (r : Request) : Bytes := (r.line :: r.headers).flatten

def bytes (r : Request) : Bytes := r.head ++ emptyLine

theorem length_head_pos (r : Request) : 0 < r.head.length := by
  obtain ⟨text, hline, -, -⟩ := (r.lines_ok r.line List.mem_cons_self).text
  rw [head, List.flatten_cons, List.length_append, hline, List.length_append, List.length_singleton]
  omega

theorem length_bytes (r : Request) : r.bytes.length = r.head.length + 2 := by
  simp [bytes, emptyLine]

end Request

/-- The stream of the requests. -/
def wire (rs : List Request) : Bytes := (rs.map Request.bytes).flatten

theorem wire_cons (r : Request) (rs : List Request) :
    wire (r :: rs) = r.head ++ (emptyLine ++ wire rs) := by
  simp [wire, Request.bytes]

/-! ## Requests as they are read -/

/-- A first line, whatever it is, and headers. -/
def Block (b : Bytes) : Prop :=
  ∃ first ps, b = first ++ List.flatten ps ∧ Piece first ∧ ∀ p ∈ ps, Piece p ∧ p ≠ emptyLine

/-- A header that fills `buf` is read in two pieces, its newline being the second. -/
theorem IsHeader.pieces {l : Bytes} (h : IsHeader l) :
    ∃ ps, l = List.flatten ps ∧ ∀ p ∈ ps, Piece p ∧ p ≠ emptyLine := by
  obtain ⟨text, hl, hsep, hlen⟩ := h.text
  rcases Nat.lt_or_ge text.length (MAXLINE - 1) with hshort | hfull
  · refine ⟨[l], by simp, fun p hp => ?_⟩
    obtain rfl := List.mem_singleton.mp hp
    rw [hl]
    exact ⟨piece_of_sep hsep hshort, hl ▸ h.not_empty⟩
  · have hlen' : text.length = MAXLINE - 1 := by omega
    refine ⟨[text, [newline]], by simp [hl], List.forall_mem_cons.mpr ⟨⟨piece_of_full hsep hlen', ?_⟩,
      fun p hp => ?_⟩⟩
    · rintro rfl
      exact absurd hlen' (by decide)
    · rw [List.mem_singleton.mp hp]
      exact ⟨piece_newline, by decide⟩

theorem pieces_flatten {ls : List Bytes} (h : ∀ l ∈ ls, IsHeader l) :
    ∃ ps, ls.flatten = List.flatten ps ∧ ∀ p ∈ ps, Piece p ∧ p ≠ emptyLine := by
  induction ls with
  | nil => exact ⟨[], rfl, by simp⟩
  | cons l ls ih =>
    obtain ⟨hl, hls⟩ := List.forall_mem_cons.mp h
    obtain ⟨ps, rfl, hps⟩ := hl.pieces
    obtain ⟨qs, hqs, hqs'⟩ := ih hls
    refine ⟨ps ++ qs, by simp [hqs], fun p hp => ?_⟩
    rcases List.mem_append.mp hp with hp | hp
    · exact hps p hp
    · exact hqs' p hp

/-- Headers from some byte on. -/
theorem block_drop {ls : List Bytes} (h : ∀ l ∈ ls, IsHeader l) : ∀ {d : ℕ}, d < ls.flatten.length →
    Block (ls.flatten.drop d) := by
  induction ls with
  | nil => intro d hd; exact absurd hd (Nat.not_lt_zero d)
  | cons l ls ih =>
    intro d hd
    obtain ⟨hl, hls⟩ := List.forall_mem_cons.mp h
    obtain ⟨text, rfl, hsep, hlen⟩ := hl.text
    obtain ⟨ps, hps, hps'⟩ := pieces_flatten hls
    rw [List.flatten_cons, List.drop_append]
    rcases Nat.lt_or_ge d (text ++ [newline]).length with hin | hout
    · rw [show d - (text ++ [newline]).length = 0 by omega, List.drop_zero, hps]
      rw [List.length_append, List.length_singleton] at hin
      rw [List.drop_append_of_le_length (by omega)]
      have hsep' : newline ∉ text.drop d := fun hmem => hsep (List.mem_of_mem_drop hmem)
      rcases Nat.lt_or_ge (text.drop d).length (MAXLINE - 1) with hshort | hfull
      · exact ⟨_, ps, rfl, piece_of_sep hsep' hshort, hps'⟩
      · have hlen' : (text.drop d).length = MAXLINE - 1 := by
          rw [List.length_drop] at hfull ⊢
          omega
        exact ⟨_, [newline] :: ps, by simp, piece_of_full hsep' hlen',
          List.forall_mem_cons.mpr ⟨⟨piece_newline, by decide⟩, hps'⟩⟩
    · rw [List.drop_of_length_le hout, List.nil_append]
      rw [List.flatten_cons, List.length_append] at hd
      exact ih hls (by omega)

theorem block_head (r : Request) {d : ℕ} (hd : d < r.head.length) : Block (r.head.drop d) :=
  block_drop r.lines_ok hd

/-- What is left of an empty line counts as the first line of the request behind it. -/
theorem block_append_head {t : Bytes} (ht : Piece t) (r : Request) : Block (t ++ r.head) := by
  obtain ⟨ps, hps, hps'⟩ := pieces_flatten r.lines_ok
  exact ⟨t, ps, by rw [Request.head, hps], ht, hps'⟩

theorem piece_drop_emptyLine {e : ℕ} (he : e < 2) : Piece (emptyLine.drop e) := by
  obtain rfl | rfl : e = 0 ∨ e = 1 := by omega
  · exact piece_emptyLine
  · exact piece_newline

theorem drop_emptyLine {e : ℕ} (he : 2 ≤ e) (s : Bytes) :
    (emptyLine ++ s).drop e = s.drop (e - 2) := by
  rw [List.drop_append, List.drop_of_length_le (show emptyLine.length ≤ e from he), List.nil_append]
  rfl

/-- From the empty line on the stream goes on at a later request, if there is one. -/
theorem wire_skip (rs : List Request) : ∀ e : ℕ, (emptyLine ++ wire rs).drop e = [] ∨
    Piece ((emptyLine ++ wire rs).drop e) ∨ ∃ b rs', Block b ∧
      (emptyLine ++ wire rs).drop e = b ++ (emptyLine ++ wire rs') ∧ rs'.length < rs.length := by
  induction rs with
  | nil =>
    intro e
    rcases Nat.lt_or_ge e 2 with hin | hout
    · rw [show wire [] = [] from rfl, List.append_nil]
      exact Or.inr (Or.inl (piece_drop_emptyLine hin))
    · rw [drop_emptyLine hout]
      exact Or.inl List.drop_nil
  | cons r rs ih =>
    intro e
    rcases Nat.lt_or_ge e 2 with hin | hout
    · refine Or.inr (Or.inr ⟨emptyLine.drop e ++ r.head, rs, block_append_head
        (piece_drop_emptyLine hin) r, ?_, Nat.lt_succ_self _⟩)
      rw [List.drop_append_of_le_length (Nat.le_of_lt hin), wire_cons, List.append_assoc]
    · rw [drop_emptyLine hout, wire_cons]
      rcases Nat.lt_or_ge (e - 2) r.head.length with hhead | hbehind
      · refine Or.inr (Or.inr ⟨r.head.drop (e - 2), rs, block_head r hhead, ?_, Nat.lt_succ_self _⟩)
        exact List.drop_append_of_le_length (Nat.le_of_lt hhead)
      · rw [List.drop_append, List.drop_of_length_le hbehind, List.nil_append]
        obtain h | h | ⟨b, rs', hb, hs, hlt⟩ := ih (e - 2 - r.head.length)
        · exact Or.inl h
        · exact Or.inr (Or.inl h)
        · exact Or.inr (Or.inr ⟨b, rs', hb, hs, Nat.lt_succ_of_lt hlt⟩)

/-! ## Where chunks begin in the requests -/

/-- In each of the requests, which lie in the stream from the position `m` on, a chunk begins
    within the first `bound` bytes. -/
def Started (bound : Request → ℕ) (cs : List Bytes) : ℕ → List Request → Prop
  | _, [] => True
  | m, r :: rs => (∃ b < bound r, Begins cs (m + b)) ∧ Started bound cs (m + r.bytes.length) rs

section

variable {bound : Request → ℕ} {cs rest : List Bytes} {u : Bytes} {m : ℕ}

theorem started_add_iff (h : Ahead cs u rest)
    (hlen : cs.flatten.length = m + u.length + rest.flatten.length) (rs : List Request) :
    ∀ x, Started bound cs (m + u.length + x) rs ↔ Started bound rest x rs := by
  induction rs with
  | nil => intro x; exact Iff.rfl
  | cons r rs ih =>
    intro x
    simp only [Started, Nat.add_assoc _ x, ih, h.begins_add_iff hlen]

/-- Behind the first `m` bytes a reader has read `u` ahead; the chunk that is next begins in the
    first request. -/
theorem started_cons_iff (h : Ahead cs u rest)
    (hlen : cs.flatten.length = m + u.length + rest.flatten.length) (hne : rest ≠ []) {r : Request}
    (hu : u.length ≤ r.bytes.length) (rs : List Request) :
    Started bound cs m (r :: rs) ↔
      u.length < bound r ∧ Started bound rest (r.bytes.length - u.length) rs := by
  have hpos : m + r.bytes.length = m + u.length + (r.bytes.length - u.length) := by omega
  rw [Started, h.begins_iff hlen, hpos, started_add_iff h hlen]
  simp [hne]

theorem not_started (h : Ahead cs u rest)
    (hlen : cs.flatten.length = m + u.length + rest.flatten.length) {r : Request}
    (hu : bound r ≤ u.length) (rs : List Request) : ¬ Started bound cs m (r :: rs) := by
  rintro ⟨hbegins, -⟩
  have hlt := ((h.begins_iff hlen (bound r)).mp hbegins).1
  omega

end

/-! ## The activations -/

theorem length_le_length_flatten {ps : List Bytes} (h : ∀ p ∈ ps, p ≠ []) :
    ps.length ≤ ps.flatten.length := by
  induction ps with
  | nil => exact Nat.le_refl 0
  | cons p ps ih =>
    obtain ⟨hp, hps⟩ := List.forall_mem_cons.mp h
    have hpos := List.length_pos_iff.mpr hp
    have hle := ih hps
    rw [List.length_cons, List.flatten_cons, List.length_append]
    omega

/-- An activation that begins within a request recognises it. -/
theorem HttpData.handleRead_block {f : HttpFrame} {h : HttpData} {calls : ℕ} (hf : f.Sized)
    (hfd : h.fd.Chunked) {b rest : Bytes} (hb : Block b) (hs : h.fd.stream = b ++ (emptyLine ++ rest))
    (hcalls : h.fd.stream.length < calls) :
    ∃ rp h', h.handleRead calls f = some (true, rp, h') ∧ h'.fd.Chunked ∧
      Ahead h.fd.chunks rp.unread h'.fd.chunks ∧ rp.unread ++ h'.fd.stream = rest := by
  obtain ⟨first, ps, rfl, hfirst, hps⟩ := hb
  have hmany : ps.length < calls := by
    have hle := length_le_length_flatten fun p hp => (hps p hp).1.1
    rw [hs, List.length_append, List.length_append] at hcalls
    omega
  exact handleRead_spec hf hfd hfirst hps (by rw [hs, List.append_assoc]) hmany

variable {frames : ℕ → HttpFrame} {calls : ℕ}

theorem serve_nil {n : ℕ} (hn : 0 < n) (i : ℕ) {h : HttpData} (hs : h.fd.stream = []) :
    serve calls frames n i h = some [] := by
  obtain ⟨n, rfl⟩ := Nat.exists_eq_succ_of_ne_zero (Nat.ne_of_gt hn)
  exact if_pos hs

/-- One activation, and those after it. -/
theorem serve_cons {n i : ℕ} {h h' : HttpData} {done : Bool} {rp : Rio} (hs : h.fd.stream ≠ [])
    (hread : h.handleRead calls (frames i) = some (done, rp, h')) {lost : List Bytes}
    (hlater : serve calls frames n (i + 1) h' = some lost) :
    serve calls frames (n + 1) i h = some (if done then rp.unread :: lost else lost) := by
  rw [serve, if_neg hs, hread]
  simp only [Option.bind_eq_bind, Option.bind_some, hlater]
  cases done <;> rfl

/-- An activation has been made on a stream that goes on with requests behind its first `m` bytes.
    -/
structure Activated (frames : ℕ → HttpFrame) (calls i : ℕ) (h h' : HttpData) (rp : Rio)
    (m : ℕ) : Prop where
  not_empty : h.fd.stream ≠ []
  read : h.handleRead calls (frames i) = some (true, rp, h')
  ahead : Ahead h.fd.chunks rp.unread h'.fd.chunks
  length : h.fd.chunks.flatten.length = m + rp.unread.length + h'.fd.chunks.flatten.length

/-- The activations recognise at most the request they begin in and those in `rs`, which begin
    behind `m` bytes. They recognise all, or besides lose nothing, exactly if chunks begin in
    time. -/
def Served (frames : ℕ → HttpFrame) (calls n i : ℕ) (h : HttpData) (m : ℕ)
    (rs : List Request) : Prop :=
  ∃ lost, serve calls frames n i h = some lost ∧ lost.length ≤ rs.length + 1 ∧
    (lost.length = rs.length + 1 ↔ Started (fun r => r.head.length) h.fd.chunks m rs) ∧
    (lost = List.replicate (rs.length + 1) [] ↔ Started (fun _ => 1) h.fd.chunks m rs)

section

variable {n i m : ℕ} {h h' : HttpData} {rp : Rio} {r : Request} {rs : List Request}

theorem served_last (ha : Activated frames calls i h h' rp m) (hn : 0 < n)
    (hrest : rp.unread ++ h'.fd.stream = []) : Served frames calls (n + 1) i h m [] := by
  obtain ⟨hu, hnil⟩ := List.append_eq_nil_iff.mp hrest
  have hall := serve_cons ha.not_empty ha.read (serve_nil hn (i + 1) hnil)
  refine ⟨[rp.unread], hall, Nat.le_refl 1, by simp [Started], ?_⟩
  rw [hu]
  exact iff_of_true rfl trivial

/-- The next activation begins in the next request. -/
theorem served_next (ha : Activated frames calls i h h' rp m) (hin : rp.unread.length < r.head.length)
    (hnext : h'.fd.chunks ≠ [])
    (hlater : Served frames calls n (i + 1) h' (r.bytes.length - rp.unread.length) rs) :
    Served frames calls (n + 1) i h m (r :: rs) := by
  have hbytes := r.length_bytes
  have hcons : ∀ bound : Request → ℕ,
      Started bound h.fd.chunks m (r :: rs) ↔ rp.unread.length < bound r ∧
        Started bound h'.fd.chunks (r.bytes.length - rp.unread.length) rs :=
    fun bound => started_cons_iff ha.ahead ha.length hnext (by omega) rs
  obtain ⟨lost, hserve, hle, hiff, hiff'⟩ := hlater
  refine ⟨rp.unread :: lost, serve_cons ha.not_empty ha.read hserve, Nat.succ_le_succ hle, ?_, ?_⟩
  · rw [hcons, ← hiff]
    simp [hin]
  · rw [hcons, ← hiff', List.replicate_succ (n := (r :: rs).length), List.cons.injEq,
      Nat.lt_one_iff, List.length_eq_zero_iff]
    rfl

/-- It begins behind the head of the next request, which is not recognised. -/
theorem served_skipped (ha : Activated frames calls i h h' rp m)
    (hout : r.head.length ≤ rp.unread.length)
    (hlater : ∃ lost, serve calls frames n (i + 1) h' = some lost ∧ lost.length ≤ rs.length) :
    Served frames calls (n + 1) i h m (r :: rs) := by
  have hnot : ¬ Started (fun r => r.head.length) h.fd.chunks m (r :: rs) :=
    not_started ha.ahead ha.length hout rs
  have hnot' : ¬ Started (fun _ => 1) h.fd.chunks m (r :: rs) :=
    not_started ha.ahead ha.length (Nat.le_trans r.length_head_pos hout) rs
  obtain ⟨lost, hserve, hle⟩ := hlater
  have hlength : (rp.unread :: lost).length ≤ rs.length + 1 := Nat.succ_le_succ hle
  refine ⟨rp.unread :: lost, serve_cons ha.not_empty ha.read hserve, ?_, iff_of_false ?_ hnot,
    iff_of_false ?_ hnot'⟩
  · exact Nat.le_succ_of_le hlength
  · exact Nat.ne_of_lt (Nat.lt_succ_of_le hlength)
  · intro hall
    rw [hall, List.length_replicate] at hlength
    exact Nat.lt_irrefl _ hlength

/-- An activation on a stream that begins within a request. -/
theorem activated (hframe : (frames i).Sized) (hfd : h.fd.Chunked) {b : Bytes} (hb : Block b)
    (hs : h.fd.stream = b ++ (emptyLine ++ wire rs)) (hcalls : h.fd.stream.length < calls) :
    ∃ rp h', Activated frames calls i h h' rp (b.length + 2) ∧ h'.fd.Chunked ∧
      rp.unread ++ h'.fd.stream = wire rs := by
  have hlens : h.fd.stream.length = b.length + (2 + (wire rs).length) := by
    rw [hs, List.length_append, List.length_append]
    rfl
  obtain ⟨rp, h', hread, hfd', hahead, hrest⟩ := HttpData.handleRead_block hframe hfd hb hs hcalls
  have hrest_len : rp.unread.length + h'.fd.stream.length = (wire rs).length := by
    rw [← List.length_append, hrest]
  refine ⟨rp, h', ⟨List.length_pos_iff.mp (by omega), hread, hahead, ?_⟩, hfd', hrest⟩
  rw [Reads.flatten_chunks, Reads.flatten_chunks]
  omega

end

/-- An activation that begins within a request recognises it, and those after it recognise a
    request each and lose nothing if chunks begin in time. In any case there are no more than
    requests, provided that the memory is not taken for an empty line. -/
theorem serve_spec (hframes : ∀ i, (frames i).Sized) (n : ℕ) : ∀ {i : ℕ} {h : HttpData} {b : Bytes}
    {rs : List Request}, h.fd.Chunked → Block b → h.fd.stream = b ++ (emptyLine ++ wire rs) →
      h.fd.stream.length < n → h.fd.stream.length < calls →
      ((∀ i, isEmptyLine (frames i).hdrsBuf = false) ∨
        Started (fun r => r.head.length) h.fd.chunks (b.length + 2) rs) →
      Served frames calls n i h (b.length + 2) rs := by
  induction n with
  | zero => intro i h b rs _ _ _ hn; exact absurd hn (Nat.not_lt_zero _)
  | succ n ih =>
    intro i h b rs hfd hb hs hn hcalls hmem
    obtain ⟨rp, h', ha, hfd', hrest⟩ := activated (hframes i) hfd hb hs hcalls
    have hlens : h.fd.stream.length = b.length + (2 + (rp.unread.length + h'.fd.stream.length)) := by
      rw [hs, ← List.length_append, hrest, List.length_append, List.length_append]
      rfl
    cases rs with
    | nil => exact served_last ha (by omega) hrest
    | cons r rs =>
      have hbytes := r.length_bytes
      rcases Nat.lt_or_ge rp.unread.length r.head.length with hin | hout
      · have hs' : h'.fd.stream = r.head.drop rp.unread.length ++ (emptyLine ++ wire rs) := by
          have hdrop := congrArg (List.drop rp.unread.length) hrest
          rwa [List.drop_left, wire_cons, List.drop_append_of_le_length (Nat.le_of_lt hin)] at hdrop
        have hnext : h'.fd.chunks ≠ [] := by
          intro hnil
          have hpos : h'.fd.stream.length = 0 := by rw [← Reads.flatten_chunks, hnil]; rfl
          rw [hs', List.length_append, List.length_append] at hpos
          exact absurd hpos (by simp [emptyLine])
        have hpos : (r.head.drop rp.unread.length).length + 2 = r.bytes.length - rp.unread.length := by
          rw [List.length_drop]
          omega
        have hstarted : Started (fun r => r.head.length) h.fd.chunks (b.length + 2) (r :: rs) ↔ _ :=
          started_cons_iff (r := r) ha.ahead ha.length hnext (by omega) rs
        have hlater := ih (i := i + 1) hfd' (block_head r hin) hs' (by omega) (by omega)
          (hmem.imp id fun hst => hpos ▸ (hstarted.mp hst).2)
        exact served_next ha hin hnext (hpos ▸ hlater)
      · have hclean := hmem.resolve_right (not_started ha.ahead ha.length hout rs)
        have hs' : h'.fd.stream = (emptyLine ++ wire rs).drop (rp.unread.length - r.head.length) := by
          have hdrop := congrArg (List.drop rp.unread.length) hrest
          rwa [List.drop_left, wire_cons, List.drop_append, List.drop_of_length_le hout,
            List.nil_append] at hdrop
        refine served_skipped ha hout ?_
        obtain hnil | hpiece | ⟨b', rs', hb', hsb, hlt⟩ :=
          wire_skip rs (rp.unread.length - r.head.length)
        · exact ⟨[], serve_nil (by omega) (i + 1) (hs'.trans hnil), Nat.zero_le _⟩
        · -- what is left is one line, which ends in nothing
          rw [← hs'] at hpiece
          have hpos := List.length_pos_iff.mpr hpiece.1
          obtain ⟨k, rfl⟩ : ∃ k, n = k + 1 := ⟨n - 1, by omega⟩
          obtain ⟨rp', h'', hread', -, hnil⟩ := HttpData.handleRead_end (hframes (i + 1)) hfd' hpiece
            rfl (hclean (i + 1)) (show 0 < calls by omega)
          exact ⟨[], serve_cons hpiece.1 hread' (serve_nil (n := k) (by omega) (i + 2) hnil),
            Nat.zero_le _⟩
        · obtain ⟨lost, hlater, hle, -⟩ := ih (i := i + 1) hfd' hb' (hs'.trans hsb) (by omega)
            (by omega) (Or.inl hclean)
          exact ⟨lost, hlater, by omega⟩

/-- All activations on the stream of the requests. -/
theorem serve_wire (hframes : ∀ i, (frames i).Sized) (rs : List Request) {h : HttpData}
    (hfd : h.fd.Chunked) (hs : h.fd.stream = wire rs) {n : ℕ} (hcalls : h.fd.stream.length < calls)
    (hn : h.fd.stream.length < n) (hmem : (∀ i, isEmptyLine (frames i).hdrsBuf = false) ∨
      Started (fun r => r.head.length) h.fd.chunks 0 rs) :
    ∃ lost, serve calls frames n 0 h = some lost ∧
      (lost.length = rs.length ↔ Started (fun r => r.head.length) h.fd.chunks 0 rs) ∧
      (lost = List.replicate rs.length [] ↔ Started (fun _ => 1) h.fd.chunks 0 rs) := by
  cases rs with
  | nil => exact ⟨[], serve_nil (by omega) 0 hs, by simp [Started], by simp [Started]⟩
  | cons r rs =>
    have hne : h.fd.chunks ≠ [] := by
      intro hnil
      rw [← Reads.flatten_chunks, hnil, wire_cons] at hs
      have hlen := congrArg List.length hs
      simp [emptyLine] at hlen
    -- the first activation begins at the first byte
    have hfirst : ∀ bound : Request → ℕ, 0 < bound r →
        (Started bound h.fd.chunks 0 (r :: rs) ↔
          Started bound h.fd.chunks (r.head.length + 2) rs) := by
      intro bound hpos
      rw [Started, Nat.zero_add, r.length_bytes]
      exact and_iff_right ⟨0, hpos, begins_zero hne⟩
    have hblock : Block r.head := by simpa using block_head r r.length_head_pos
    obtain ⟨lost, hall, -, hiff, hiff'⟩ := serve_spec hframes n (i := 0) hfd hblock
      (hs.trans (wire_cons r rs)) hn hcalls (hmem.imp id (hfirst _ r.length_head_pos).mp)
    exact ⟨lost, hall, hiff.trans (hfirst _ r.length_head_pos).symm,
      hiff'.trans (hfirst _ Nat.one_pos).symm⟩

/-- Whatever the memory of the activations holds, they come to an end, and `P` is true of the
    bytes that go with the requests they recognise. -/
def Drives (fd : Reads) (P : List Bytes → Prop) : Prop :=
  ∀ (frames : ℕ → HttpFrame) (channel : Channel), (∀ i, (frames i).Sized) → ∀ calls n,
    fd.stream.length < calls → fd.stream.length < n →
    ∃ lost, serve calls frames n 0 { fd, channel } = some lost ∧ P lost

/-- Memory that is all zero. -/
def zeroFrame : HttpFrame :=
  { rioBuf := List.replicate RIO_BUFSIZE 0
    buf := List.replicate MAXLINE 0
    hdrsBuf := List.replicate MAXLINE 0 }

theorem zeroFrame_sized : zeroFrame.Sized :=
  ⟨List.length_replicate, List.length_replicate, List.length_replicate⟩

theorem isEmptyLine_zeroFrame : isEmptyLine zeroFrame.hdrsBuf = false := by
  rw [isEmptyLine, zeroFrame, List.take_replicate]
  rfl

/-- **What is read ahead is lost.** A stream of requests is delivered in chunks, with interrupted
    calls between them. All requests are recognised if and only if within each of them, before its
    empty line, a chunk begins. And besides no byte behind a request is lost if and only if each
    request begins where a chunk begins. -/
theorem requests_recognised_iff (rs : List Request) (fd : Reads) (hfd : fd.Chunked)
    (hs : fd.stream = wire rs) :
    (Drives fd (fun lost => lost.length = rs.length) ↔
      Started (fun r => r.head.length) fd.chunks 0 rs) ∧
    (Drives fd (fun lost => lost = List.replicate rs.length []) ↔
      Started (fun _ => 1) fd.chunks 0 rs) := by
  have hclean := fun channel : Channel => serve_wire (fun _ => zeroFrame_sized) rs
    (h := { fd, channel }) hfd hs (Nat.lt_succ_self _) (Nat.lt_succ_self _)
    (Or.inl fun _ => isEmptyLine_zeroFrame)
  have hstarted : Started (fun _ => 1) fd.chunks 0 rs →
      Started (fun r => r.head.length) fd.chunks 0 rs := by
    obtain ⟨lost, -, hiff, hiff'⟩ := hclean (Channel.construct 0#32 0 false)
    intro hst
    exact hiff.mp (by rw [hiff'.mpr hst, List.length_replicate])
  constructor
  · constructor
    · intro hall
      obtain ⟨lost, hrun, hiff, -⟩ := hclean (Channel.construct 0#32 0 false)
      obtain ⟨lost', hrun', hP⟩ := hall (fun _ => zeroFrame) (Channel.construct 0#32 0 false)
        (fun _ => zeroFrame_sized) _ _ (Nat.lt_succ_self _) (Nat.lt_succ_self _)
      obtain rfl := Option.some.inj (hrun.symm.trans hrun')
      exact hiff.mp hP
    · intro hst frames channel hframes calls n hcalls hn
      obtain ⟨lost, hrun, hiff, -⟩ := serve_wire hframes rs (h := { fd, channel }) hfd hs hcalls hn
        (Or.inr hst)
      exact ⟨lost, hrun, hiff.mpr hst⟩
  · constructor
    · intro hall
      obtain ⟨lost, hrun, -, hiff'⟩ := hclean (Channel.construct 0#32 0 false)
      obtain ⟨lost', hrun', hP⟩ := hall (fun _ => zeroFrame) (Channel.construct 0#32 0 false)
        (fun _ => zeroFrame_sized) _ _ (Nat.lt_succ_self _) (Nat.lt_succ_self _)
      obtain rfl := Option.some.inj (hrun.symm.trans hrun')
      exact hiff'.mp hP
    · intro hst frames channel hframes calls n hcalls hn
      obtain ⟨lost, hrun, -, hiff'⟩ := serve_wire hframes rs (h := { fd, channel }) hfd hs hcalls hn
        (Or.inr (hstarted hst))
      exact ⟨lost, hrun, hiff'.mpr hst⟩

/-- `GET /` and no headers. -/
def getRequest : Request where
  line := [71, 69, 84, 32, 47, 13, 10]
  headers := []
  lines_ok := by
    intro l hl
    rw [List.mem_singleton.mp hl]
    exact ⟨⟨[71, 69, 84, 32, 47, 13], rfl, by decide, by decide⟩, by decide⟩

/-- Two requests, each delivered by a call of `read`. -/
def inTwoReads : Reads :=
  .next (.data getRequest.bytes) (.next (.data getRequest.bytes) (.always (.data [])))

/-- Both of them delivered by one. -/
def inOneRead : Reads := .next (.data (getRequest.bytes ++ getRequest.bytes)) (.always (.data []))

theorem requests_recognised_sample :
    Drives inTwoReads (fun lost => lost.length = 2) ∧
      Drives inTwoReads (fun lost => lost = [[], []]) := by
  obtain ⟨hcount, hnone⟩ := requests_recognised_iff [getRequest, getRequest] inTwoReads
    ⟨by decide, by decide, by decide, by decide, rfl⟩ (by decide)
  have hbegins : Begins inTwoReads.chunks 9 := ⟨[getRequest.bytes], getRequest.bytes, [], rfl, rfl⟩
  exact ⟨hcount.mpr ⟨⟨0, by decide, begins_zero (by decide)⟩, ⟨0, by decide, hbegins⟩, trivial⟩,
    hnone.mpr ⟨⟨0, by decide, begins_zero (by decide)⟩, ⟨0, by decide, hbegins⟩, trivial⟩⟩

/-- Of two requests in one chunk the second is lost. -/
theorem second_request_lost :
    ¬ ∀ (rs : List Request) (fd : Reads), fd.Chunked → fd.stream = wire rs →
      Drives fd (fun lost => lost.length = rs.length) := by
  intro hall
  have hfd : inOneRead.Chunked := ⟨by decide, by decide, rfl⟩
  have hs : inOneRead.stream = wire [getRequest, getRequest] := by decide
  obtain ⟨lost, hrun, hP⟩ := hall [getRequest, getRequest] inOneRead hfd hs (fun _ => zeroFrame)
    (Channel.construct 0#32 0 false) (fun _ => zeroFrame_sized) _ _ (Nat.lt_succ_self _)
    (Nat.lt_succ_self _)
  obtain ⟨lost', hrun', hiff, -⟩ := serve_wire (fun _ => zeroFrame_sized) [getRequest, getRequest]
    (h := { fd := inOneRead, channel := Channel.construct 0#32 0 false }) hfd hs (Nat.lt_succ_self _)
    (Nat.lt_succ_self _) (Or.inl fun _ => isEmptyLine_zeroFrame)
  obtain rfl := Option.some.inj (hrun.symm.trans hrun')
  obtain ⟨-, ⟨b, -, used, c, rest, he, hpos⟩, -⟩ := hiff.mp hP
  -- the only chunk begins at the first byte
  obtain rfl : used = [] := by
    have hone : inOneRead.chunks.length = 1 := by decide
    rw [he, List.length_append, List.length_cons] at hone
    exact List.length_eq_zero_iff.mp (by omega)
  have hzero : 0 = 0 + getRequest.bytes.length + b := hpos
  rw [getRequest.length_bytes] at hzero
  omega

end XWeb.Net
