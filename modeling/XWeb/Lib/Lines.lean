import Mathlib.Data.List.Basic
import Mathlib.Tactic.Common

/-!
# Splitting a list into lines

A line ends with a separator or when it is full. `firstLine sep k s` is the line at the front of
`s` when a line has room for `k` elements.

* `isLine_firstLine`: it is the longest beginning of `s` with room and no separator inside.
* `Lines.flatten_eq`: the lines of a list are the list.
* `Lines.unique`: a list has one splitting.
* `firstLine_append_sep`, `firstLine_append_full`: a given line at the front.
* `Lines.split_iff`: a list is split at some place exactly if that is the beginning of a line, or a
  multiple of `k` behind one.
-/

namespace XWeb.Lib

variable {α : Type*} {sep : α} {k : ℕ} {s l l' : List α}

/-! ## One line -/

/-- `l` begins `s`, has room in `k` cells and has no separator but at its end. -/
structure Fitting (sep : α) (k : ℕ) (s l : List α) : Prop where
  begins : l <+: s
  length_le : l.length ≤ k
  sep_last : sep ∉ l.dropLast

/-- The longest such list. -/
structure IsLine (sep : α) (k : ℕ) (s l : List α) : Prop extends Fitting sep k s l where
  longest : ∀ l', Fitting sep k s l' → l'.length ≤ l.length

theorem IsLine.unique (h : IsLine sep k s l) (h' : IsLine sep k s l') : l = l' := by
  have hle := h.longest l' h'.toFitting
  have hge := h'.longest l h.toFitting
  exact List.prefix_of_prefix_length_le h.begins h'.begins hge |>.eq_of_length (by omega)

theorem IsLine.append_drop (h : IsLine sep k s l) : l ++ s.drop l.length = s := by
  obtain ⟨t, rfl⟩ := h.begins
  rw [List.drop_left]

theorem fitting_nil : Fitting sep k s [] := ⟨List.nil_prefix, Nat.zero_le k, by simp⟩

/-- Behind an element that is not a separator the line goes on. -/
theorem fitting_cons {c : α} (hc : c ≠ sep) :
    Fitting sep (k + 1) (c :: s) (c :: l) ↔ Fitting sep k s l := by
  have hlast : sep ∉ (c :: l).dropLast ↔ sep ∉ l.dropLast := by
    cases l with
    | nil => simp
    | cons d l => simp [hc.symm]
  constructor
  · rintro ⟨h1, h2, h3⟩
    exact ⟨(List.cons_prefix_cons.mp h1).2, Nat.le_of_succ_le_succ h2, hlast.mp h3⟩
  · rintro ⟨h1, h2, h3⟩
    exact ⟨List.cons_prefix_cons.mpr ⟨rfl, h1⟩, Nat.succ_le_succ h2, hlast.mpr h3⟩

/-! ## All lines -/

/-- `ls` are the lines of `s`, one after another. -/
inductive Lines (sep : α) (k : ℕ) : List α → List (List α) → Prop
  | nil : Lines sep k [] []
  | cons {s l ls} (hs : s ≠ []) (hl : IsLine sep k s l) (hls : Lines sep k (s.drop l.length) ls) :
      Lines sep k s (l :: ls)

theorem Lines.flatten_eq {ls : List (List α)} (h : Lines sep k s ls) : ls.flatten = s := by
  induction h with
  | nil => rfl
  | cons hs hl hls ih => rw [List.flatten_cons, ih, hl.append_drop]

theorem Lines.sep_last {ls : List (List α)} (h : Lines sep k s ls) : ∀ l ∈ ls, sep ∉ l.dropLast := by
  induction h with
  | nil => simp
  | cons hs hl hls ih => exact List.forall_mem_cons.mpr ⟨hl.sep_last, ih⟩

theorem Lines.unique {ls ls' : List (List α)} (h : Lines sep k s ls) (h' : Lines sep k s ls') :
    ls = ls' := by
  induction h generalizing ls' with
  | nil =>
    cases h' with
    | nil => rfl
    | cons hs hl hls => exact absurd rfl hs
  | cons hs hl hls ih =>
    cases h' with
    | nil => exact absurd rfl hs
    | cons hs' hl' hls' =>
      obtain rfl := hl.unique hl'
      rw [ih hls']

/-! ## Where a list is split -/

/-- Behind `s` a line begins: `s` is empty or ends with a separator. -/
def LineStart (sep : α) (s : List α) : Prop := s = [] ∨ s.getLast? = some sep

/-- Behind `s` one of the lines begins, since the last of the lines ends there or is cut there. -/
def LinesEnd (sep : α) (k : ℕ) (s : List α) : Prop :=
  ∃ head text, s = head ++ text ∧ LineStart sep head ∧ sep ∉ text ∧ k ∣ text.length

theorem LineStart.append (h : s.getLast? = some sep) {t : List α} (ht : LineStart sep t) :
    LineStart sep (s ++ t) := by
  right
  obtain rfl | ht := ht
  · rwa [List.append_nil]
  · rw [List.getLast?_append, ht]
    rfl

theorem LineStart.linesEnd (h : LineStart sep s) : LinesEnd sep k s :=
  ⟨s, [], (List.append_nil s).symm, h, List.not_mem_nil, Nat.dvd_zero k⟩

/-- A line that begins behind `s` goes on to its separator. -/
theorem LineStart.beyond {text t s' t' : List α} (h : LineStart sep s')
    (hs : s ++ (text ++ t) = s' ++ t') (hsep : sep ∉ text) (hlt : s.length < s'.length) :
    s.length + text.length < s'.length := by
  obtain rfl | hlast := h
  · exact absurd hlt (Nat.not_lt_zero _)
  · by_contra hin
    rw [List.getLast?_eq_getElem?] at hlast
    have hcell : (s' ++ t')[s'.length - 1]? = some sep := by
      rw [List.getElem?_append_left (by omega), hlast]
    rw [← hs, List.getElem?_append_right (by omega), List.getElem?_append_left (by omega)] at hcell
    exact hsep (List.mem_of_getElem? hcell)

/-! ## Computing a line -/

variable [DecidableEq α]

/-- The first line of `s`. -/
def firstLine (sep : α) : ℕ → List α → List α
  | 0, _ => []
  | _ + 1, [] => []
  | k + 1, c :: s => if c = sep then [c] else c :: firstLine sep k s

theorem isLine_firstLine : ∀ (k : ℕ) (s : List α), IsLine sep k s (firstLine sep k s) := by
  intro k
  induction k with
  | zero => intro s; exact ⟨fitting_nil, fun l' h => h.length_le⟩
  | succ k ih =>
    intro s
    cases s with
    | nil => exact ⟨fitting_nil, fun l' h => h.begins.length_le⟩
    | cons c s =>
      rw [firstLine]
      split_ifs with hc
      · refine ⟨⟨⟨s, rfl⟩, by simp, by simp⟩, fun l' h => ?_⟩
        -- a second element would put the separator `c` inside
        match l', h with
        | [], _ => simp
        | [_], _ => simp
        | d :: d' :: l', h =>
          have hd := (List.cons_prefix_cons.mp h.begins).1
          exact absurd (List.mem_cons.mpr (Or.inl (hd.trans hc).symm)) h.sep_last
      · refine ⟨(fitting_cons hc).mpr (ih s).toFitting, fun l' h => ?_⟩
        cases l' with
        | nil => simp
        | cons d l' =>
          obtain rfl := (List.cons_prefix_cons.mp h.begins).1
          exact Nat.succ_le_succ ((ih s).longest l' ((fitting_cons hc).mp h))

/-- A line that ends with its separator. -/
theorem firstLine_append_sep {text : List α} (hsep : sep ∉ text) : ∀ {k : ℕ}, text.length < k →
    ∀ s, firstLine sep k (text ++ sep :: s) = text ++ [sep] := by
  induction text with
  | nil =>
    intro k hk s
    obtain ⟨k, rfl⟩ := Nat.exists_eq_succ_of_ne_zero (Nat.ne_of_gt hk)
    simp [firstLine]
  | cons c text ih =>
    intro k hk s
    obtain ⟨k, rfl⟩ := Nat.exists_eq_succ_of_ne_zero (Nat.ne_of_gt (Nat.zero_lt_of_lt hk))
    obtain ⟨hc, htext⟩ := not_or.mp (mt List.mem_cons.mpr hsep)
    rw [List.cons_append, firstLine, if_neg (Ne.symm hc), ih htext (Nat.lt_of_succ_lt_succ hk) s,
      List.cons_append]

/-- A line that is full. -/
theorem firstLine_append_full {text : List α} (hsep : sep ∉ text) (s : List α) :
    firstLine sep text.length (text ++ s) = text := by
  induction text with
  | nil => rfl
  | cons c text ih =>
    obtain ⟨hc, htext⟩ := not_or.mp (mt List.mem_cons.mpr hsep)
    rw [List.length_cons, List.cons_append, firstLine, if_neg (Ne.symm hc), ih htext]

theorem firstLine_ne_nil (hk : 0 < k) (hs : s ≠ []) : firstLine sep k s ≠ [] := by
  cases k with
  | zero => exact absurd hk (Nat.lt_irrefl 0)
  | succ k =>
    obtain ⟨c, s, rfl⟩ := List.exists_cons_of_ne_nil hs
    rw [firstLine]
    split_ifs <;> simp

theorem firstLine_eq_nil_iff (hk : 0 < k) : firstLine sep k s = [] ↔ s = [] := by
  constructor
  · intro h
    by_contra hs
    exact firstLine_ne_nil hk hs h
  · rintro rfl
    cases k <;> rfl

/-- A separator in front of `t` keeps the first line out of `t`. -/
theorem firstLine_append_of_mem {t : List α} (hmem : sep ∈ s) :
    firstLine sep k (s ++ t) = firstLine sep k s := by
  induction s generalizing k with
  | nil => exact absurd hmem List.not_mem_nil
  | cons c s ih =>
    cases k with
    | zero => rfl
    | succ k =>
      rw [List.cons_append, firstLine, firstLine]
      split_ifs with hc
      · rfl
      · rw [ih ((List.mem_cons.mp hmem).resolve_left (Ne.symm hc))]

theorem IsLine.eq_firstLine (h : IsLine sep k s l) : l = firstLine sep k s :=
  h.unique (isLine_firstLine k s)

theorem exists_lines (hk : 0 < k) : ∀ s : List α, ∃ ls, Lines sep k s ls := by
  intro s
  induction hn : s.length using Nat.strongRecOn generalizing s with
  | _ n ih =>
    by_cases hs : s = []
    · exact ⟨[], hs ▸ .nil⟩
    · have hne : firstLine sep k s ≠ [] := firstLine_ne_nil hk hs
      have hpos := List.length_pos_iff.mpr hne
      have hall := List.length_pos_iff.mpr hs
      obtain ⟨ls, hls⟩ := ih _ (by rw [List.length_drop]; omega)
        (s.drop (firstLine sep k s).length) rfl
      exact ⟨_, .cons hs (isLine_firstLine k s) hls⟩

/-! ## Splits -/

/-- A line that has something behind it ends with its separator, or it is full. -/
theorem IsLine.full_of_rest (h : IsLine sep k s l) (hrest : s.drop l.length ≠ []) :
    l.getLast? = some sep ∨ sep ∉ l ∧ l.length = k := by
  rw [h.eq_firstLine] at hrest ⊢
  clear h
  induction k generalizing s with
  | zero => exact Or.inr ⟨List.not_mem_nil, rfl⟩
  | succ k ih =>
    cases s with
    | nil => exact absurd rfl hrest
    | cons c s =>
      rw [firstLine] at hrest ⊢
      split_ifs at hrest ⊢ with hc
      · exact Or.inl (by rw [hc]; rfl)
      · refine (ih hrest).imp (fun hlast => ?_) fun ⟨hsep, hlen⟩ => ⟨?_, congrArg Nat.succ hlen⟩
        · rw [List.getLast?_cons, hlast]
          rfl
        · rw [List.mem_cons, not_or]
          exact ⟨Ne.symm hc, hsep⟩

theorem Lines.full_of_rest {ls₁ ls₂ : List (List α)} (h : Lines sep k s (ls₁ ++ ls₂)) (hne : ls₂ ≠ []) :
    ∀ l ∈ ls₁, l.getLast? = some sep ∨ sep ∉ l ∧ l.length = k := by
  induction ls₁ generalizing s with
  | nil => simp
  | cons l ls₁ ih =>
    cases h with
    | cons hs hl hls =>
      refine List.forall_mem_cons.mpr ⟨hl.full_of_rest fun hnil => ?_, ih hls⟩
      rw [hnil] at hls
      exact hne (List.append_eq_nil_iff.mp (hls.unique .nil)).2

/-- Lines that have something behind them. -/
theorem Lines.linesEnd {ls₁ ls₂ : List (List α)} (h : Lines sep k s (ls₁ ++ ls₂)) (hne : ls₂ ≠ []) :
    LinesEnd sep k ls₁.flatten := by
  have hfull := h.full_of_rest hne
  clear h
  induction ls₁ with
  | nil => exact LineStart.linesEnd (Or.inl rfl)
  | cons l ls₁ ih =>
    obtain ⟨hl, hls⟩ := List.forall_mem_cons.mp hfull
    obtain ⟨head, text, he, hhead, hsep, hdvd⟩ := ih hls
    rw [List.flatten_cons, he]
    obtain hlast | ⟨hmem, hlen⟩ := hl
    · exact ⟨l ++ head, text, (List.append_assoc l head text).symm, .append hlast hhead, hsep, hdvd⟩
    · obtain rfl | hend := hhead
      · -- the line is full, and so are those cut from it before
        refine ⟨[], l ++ text, rfl, Or.inl rfl, ?_, ?_⟩
        · rw [List.mem_append, not_or]
          exact ⟨hmem, hsep⟩
        · rw [List.length_append, hlen]
          exact Nat.dvd_add (Nat.dvd_refl k) hdvd
      · refine ⟨l ++ head, text, (List.append_assoc l head text).symm, Or.inr ?_, hsep, hdvd⟩
        rw [List.getLast?_append, hend]
        rfl

/-- The lines of a part that ends with a separator, and those behind it. -/
theorem Lines.append {ls ls' : List (List α)} {t : List α} (h : Lines sep k s ls)
    (hs : LineStart sep s) (ht : Lines sep k t ls') : Lines sep k (s ++ t) (ls ++ ls') := by
  induction h with
  | nil => exact ht
  | @cons s l ls hne hl hls ih =>
    have hlast : s.getLast? = some sep := hs.resolve_left hne
    have hl' : IsLine sep k (s ++ t) l := by
      rw [hl.eq_firstLine, ← firstLine_append_of_mem (List.mem_of_getLast? hlast)]
      exact isLine_firstLine k (s ++ t)
    refine .cons (by simp [hne]) hl' ?_
    rw [List.drop_append_of_le_length hl.begins.length_le]
    refine ih ?_
    by_cases hnil : s.drop l.length = []
    · exact Or.inl hnil
    · right
      rw [List.getLast?_drop, if_neg (by simpa using hnil), hlast]

/-- A part without a separator that is cut into full lines. -/
theorem lines_full (m : ℕ) : ∀ {text : List α}, sep ∉ text → text.length = k * m → 0 < k →
    ∃ ls, List.flatten ls = text ∧
      ∀ {t : List α} {ls' : List (List α)}, Lines sep k t ls' →
        Lines sep k (text ++ t) (ls ++ ls') := by
  induction m with
  | zero =>
    intro text _ hlen _
    obtain rfl := List.length_eq_zero_iff.mp hlen
    exact ⟨[], rfl, id⟩
  | succ m ih =>
    intro text hsep hlen hk
    rw [Nat.mul_succ] at hlen
    have htake : (text.take k).length = k := List.length_take_of_le (by omega)
    have hsep' : sep ∉ text.drop k := fun h => hsep (List.mem_of_mem_drop h)
    obtain ⟨ls, hflat, hls⟩ := ih hsep' (by rw [List.length_drop]; omega) hk
    refine ⟨text.take k :: ls, by rw [List.flatten_cons, hflat, List.take_append_drop], ?_⟩
    intro t ls' ht
    have hline : IsLine sep k (text.take k ++ (text.drop k ++ t)) _ := isLine_firstLine k _
    have hfull : firstLine sep k (text.take k ++ (text.drop k ++ t)) = text.take k := by
      have hsep' : sep ∉ text.take k := fun h => hsep (List.mem_of_mem_take h)
      have := firstLine_append_full hsep' (text.drop k ++ t)
      rwa [htake] at this
    rw [hfull] at hline
    rw [show text ++ t = text.take k ++ (text.drop k ++ t) by
      rw [← List.append_assoc, List.take_append_drop]]
    refine .cons ?_ hline ?_
    · intro hnil
      have := congrArg List.length hnil
      rw [List.length_append, htake, List.length_nil] at this
      omega
    · rw [List.drop_left]
      exact hls ht

/-- A list is split at some place exactly if a line ends or is cut there. -/
theorem Lines.split_iff {ls : List (List α)} {t : List α} (hk : 0 < k) (h : Lines sep k (s ++ t) ls)
    (ht : t ≠ []) :
    (∃ ls₁ ls₂, ls = ls₁ ++ ls₂ ∧ ls₁.flatten = s ∧ Lines sep k t ls₂) ↔ LinesEnd sep k s := by
  constructor
  · rintro ⟨ls₁, ls₂, rfl, rfl, hls₂⟩
    refine h.linesEnd ?_
    rintro rfl
    exact ht (hls₂.flatten_eq).symm
  · rintro ⟨head, text, rfl, hhead, hsep, m, hm⟩
    obtain ⟨ls₁, hls₁⟩ : ∃ ls₁, Lines sep k head ls₁ := exists_lines hk head
    obtain ⟨ls₂, hflat, hls₂⟩ := lines_full m hsep hm hk
    obtain ⟨ls₃, hls₃⟩ : ∃ ls₃, Lines sep k t ls₃ := exists_lines hk t
    refine ⟨ls₁ ++ ls₂, ls₃, ?_, by rw [List.flatten_append, hls₁.flatten_eq, hflat], hls₃⟩
    rw [List.append_assoc] at h ⊢
    exact h.unique (hls₁.append hhead (hls₂ hls₃))

end XWeb.Lib
