import XWeb.Net.BufferQueue

/-!
# How large a buffer gets

Nothing makes `buffer_` smaller. It grows in `makeSpace` alone, and only when the bytes that are
free before and behind the contents together are too few, so that its size is below the readable
bytes plus what is asked for plus the reserve.

* `BufferOp.request`: the bytes an operation asks `ensureWritableBytes` for.
* `makeSpace_size`, `BufferOp.size_step`: the size after one call.
* `buffer_storage_bounded`: the size in every run, from bounds on the readable bytes and the
  requests.
-/

namespace XWeb.Net

open XWeb.Lib

namespace Buffer

/-! ## Growth -/

/-- `makeSpace(len)` moves the contents or resizes the vector to `writerIndex_ + len`. -/
theorem makeSpace_size {b b' : Buffer} (h : b.Wf) {len : ℕ} (hf : b.Fits len)
    (hs : b.makeSpace len = some b') :
    b'.buffer.length = b.buffer.length ∨
      b'.buffer.length < b.readableBytes + 2 * len + kCheapPrepend := by
  have hread := h.readableBytes_eq
  have hwrite := h.writableBytes_eq
  obtain ⟨h1, h2, h3, h4⟩ := h
  obtain ⟨hf1, hf2⟩ := hf
  unfold makeSpace at hs
  rw [sizeAdd_of_lt hf1, hwrite, prependableBytes, sizeAdd_of_lt (by omega)] at hs
  split_ifs at hs with hgrow hroom
  · -- `size - writerIndex + readerIndex < len + 8` bounds `writerIndex + len`
    obtain rfl := Option.some.inj hs
    rw [sizeAdd_of_lt hf2]
    by_cases hle : b.buffer.length ≤ b.writerIndex + len
    · right
      rw [length_resize b.buffer hle]
      omega
    · right
      simp only [resize, List.length_append, List.length_take, List.length_replicate]
      omega
  · dsimp only at hs
    split_ifs at hs
    obtain rfl := Option.some.inj hs
    left
    simp only
    rw [copyForward_eq (by omega) (by omega)]
    exact length_overwrite (by rw [length_window (by omega)]; omega)

theorem ensureWritableBytes_size {b b' : Buffer} (h : b.Wf) {len : ℕ} (hf : b.Fits len)
    (hs : b.ensureWritableBytes len = some b') :
    b'.buffer.length = b.buffer.length ∨
      b'.buffer.length < b.readableBytes + 2 * len + kCheapPrepend := by
  by_cases hlt : b.writableBytes < len
  · obtain ⟨b₁, hb₁, -, -, hroom⟩ := makeSpace_spec h hf hlt
    have he : b.ensureWritableBytes len = some b₁ := by
      simp [ensureWritableBytes, hlt, hb₁, hroom]
    obtain rfl := Option.some.inj (he.symm.trans hs)
    exact makeSpace_size h hf hb₁
  · have he : b.ensureWritableBytes len = some b := by
      simp [ensureWritableBytes, hlt, Nat.le_of_not_lt hlt]
    obtain rfl := Option.some.inj (he.symm.trans hs)
    exact Or.inl rfl

theorem append_size {b b' : Buffer} (h : b.Wf) {data : Bytes} (hf : b.Fits data.length)
    (hs : b.append data = some b') :
    b'.buffer.length = b.buffer.length ∨
      b'.buffer.length < b.readableBytes + 2 * data.length + kCheapPrepend := by
  obtain ⟨b₁, hb₁, hwf, -, hroom⟩ := ensureWritableBytes_spec h hf
  have he : b.append data = some (b₁.filled data) := by
    rw [append, hb₁]
    exact hasWritten_eq hwf hroom
  obtain rfl := Option.some.inj (he.symm.trans hs)
  rw [length_filled hwf hroom]
  exact ensureWritableBytes_size h hf hb₁

end Buffer

/-! ## One operation -/

namespace BufferOp

open Buffer

/-- The length of an `append` or `ensureWritableBytes`, and the part of a `readFd` that does not fit
    into the vector. -/
def request (b : Buffer) : BufferOp → ℕ
  | append data => data.length
  | ensureWritableBytes len => len
  | readFd (.data bytes) => bytes.length - b.writableBytes
  | _ => 0

instance (b : Buffer) (op : BufferOp) (M : ℕ) : Decidable (op.request b ≤ M) := Nat.decLe _ _

theorem retrieve_size {b b' : Buffer} {len : ℕ} (hs : b.retrieve len = some b') :
    b'.buffer.length = b.buffer.length := by
  unfold Buffer.retrieve at hs
  split_ifs at hs <;> obtain rfl := Option.some.inj hs <;> rfl

/-- When `readFd` fills the vector, what it then appends finds no room behind the contents. -/
theorem readFd_size {b b' : Buffer} (h : b.Wf) {bytes : Bytes} (hf : b.ReadFits bytes.length)
    (hs : b.readFd (.data bytes) = some b') :
    b'.buffer.length = b.buffer.length ∨ b'.buffer.length <
      b'.readableBytes + 2 * (bytes.length - b.writableBytes) + kCheapPrepend := by
  obtain ⟨b₀, hb₀, hwf', hc⟩ := readFd_data_spec h hf
  obtain rfl := Option.some.inj (hb₀.symm.trans hs)
  have hread : b₀.readableBytes = b.readableBytes + bytes.length := by
    rw [← hwf'.length_contents, hc, List.length_append, h.length_contents]
  by_cases hle : bytes.length ≤ b.writableBytes
  · obtain rfl := Option.some.inj ((readFd_inside h hle).symm.trans hs)
    left
    exact length_filled h hle
  · have hlt := Nat.lt_of_not_le hle
    obtain ⟨he, hwf₁, hc₁, hfit⟩ := readFd_overflow h hf hlt
    have hlen : (bytes.take b.writableBytes).length = b.writableBytes := by simp; omega
    have hread₁ : (b.filled (bytes.take b.writableBytes)).readableBytes =
        b.readableBytes + b.writableBytes := by
      rw [← hwf₁.length_contents, hc₁, List.length_append, h.length_contents, hlen]
    have hsize₁ : (b.filled (bytes.take b.writableBytes)).buffer.length = b.buffer.length :=
      length_filled h (Nat.le_of_eq hlen)
    have hsize := append_size hwf₁ hfit (he.symm.trans hs)
    rw [hsize₁, hread₁, List.length_drop] at hsize
    omega

/-- One call. The readable bytes before and after it are at most `R`, the request at most `M`. -/
theorem size_step {b b' : Buffer} (h : b.Wf) {op : BufferOp} (hpre : op.Pre b)
    (hs : exec b op = some b') {R M : ℕ} (hR : b.readableBytes ≤ R) (hR' : b'.readableBytes ≤ R)
    (hM : op.request b ≤ M) :
    b'.buffer.length ≤ max b.buffer.length (R + 2 * M + kCheapPrepend) := by
  have hkeep : b'.buffer.length = b.buffer.length →
      b'.buffer.length ≤ max b.buffer.length (R + 2 * M + kCheapPrepend) :=
    fun he => le_trans (le_of_eq he) (le_max_left _ _)
  cases op with
  | append data =>
    have hsize := append_size h hpre hs
    simp only [request] at hM
    omega
  | ensureWritableBytes len =>
    have hsize := ensureWritableBytes_size h hpre hs
    simp only [request] at hM
    omega
  | hasWritten data =>
    simp only [exec, hasWritten_eq h hpre, Option.some.injEq] at hs
    subst hs
    exact hkeep (length_filled h hpre)
  | unwrite len =>
    obtain rfl := Option.some.inj ((if_pos hpre).symm.trans hs)
    exact le_max_left _ _
  | retrieve len => exact hkeep (retrieve_size hs)
  | retrieveAll =>
    obtain rfl := Option.some.inj hs
    exact le_max_left _ _
  | retrieveAsString len =>
    obtain ⟨⟨result, b₁⟩, hb₁, rfl⟩ := Option.map_eq_some_iff.mp hs
    obtain ⟨b₂, hb₂, he⟩ := Option.map_eq_some_iff.mp ((if_pos hpre).symm.trans hb₁)
    obtain ⟨-, rfl⟩ := Prod.mk.inj he
    exact hkeep (retrieve_size hb₂)
  | prepend data =>
    have hsize := length_store ((if_pos hpre).symm.trans hs)
    exact hkeep hsize
  | readFd r =>
    cases r with
    | data bytes =>
      have hsize := readFd_size h hpre.2 hs
      simp only [request] at hM
      omega
    | error errno =>
      obtain rfl := Option.some.inj hs
      exact le_max_left _ _

end BufferOp

/-! ## Runs -/

/-- **Storage is bounded by the traffic.** In every run of operations from a default-constructed
    buffer, if the readable bytes never exceed `R` and no request exceeds `M`, then the vector never
    exceeds `max(1032, R + 2 * M + 8)` bytes. -/
theorem buffer_storage_bounded (ops : List BufferOp) (R M : ℕ)
    (hpre : Along BufferOp.exec (fun b op => op.Pre b) Buffer.init ops)
    (hR : Throughout BufferOp.exec (fun b => b.readableBytes ≤ R) Buffer.init ops)
    (hM : Along BufferOp.exec (fun b op => op.request b ≤ M) Buffer.init ops) :
    Throughout BufferOp.exec (fun b => b.buffer.length ≤ max 1032 (R + 2 * M + 8)) Buffer.init
      ops := by
  refine throughout_of_throughout
    (J := fun b => b.Wf ∧ b.buffer.length ≤ max 1032 (R + 2 * M + 8)) ?_ (fun b h => h.2) ops
    Buffer.init ⟨Buffer.wf_init, ?_⟩ (hpre.and hM) hR
  · rintro b op b' ⟨hwf, hsize⟩ hRb hRb' ⟨hop, hMop⟩ hs
    obtain ⟨b₁, hb₁, hwf', -⟩ := BufferOp.exec_spec hwf op hop
    obtain rfl := Option.some.inj (hb₁.symm.trans hs)
    have hgrow := BufferOp.size_step hwf hop hs hRb hRb' hMop
    exact ⟨hwf', le_trans hgrow (max_le hsize (le_max_right _ _))⟩
  · rw [Buffer.length_init]
    exact le_max_left _ _

/-- A run in which the vector grows. -/
theorem buffer_storage_bounded_sample :
    Throughout BufferOp.exec (fun b => b.buffer.length ≤ max 1032 (1500 + 2 * 1500 + 8)) Buffer.init
      [.append (List.replicate 1500 7), .retrieve 1500] :=
  buffer_storage_bounded [.append (List.replicate 1500 7), .retrieve 1500] 1500 1500
    (by decide +kernel) (by decide +kernel) (by decide +kernel)

end XWeb.Net
