import Mathlib.Data.List.Basic
import Mathlib.Tactic.Common

/-!
# Windows of a list used as storage

A list is used as a block of memory of fixed length. `window l i j` is the half-open range
`[i, j)`, `overwrite l off d` stores `d` from `off` on, and `copyForward n l src dst` is the
element-by-element ascending copy of `n` cells inside the same block, which is what
`std::copy` does.

* `copyForward_eq`: when the destination is not after the source, the ascending copy is
  right even if the ranges overlap.
* `window_overwrite_back`, `window_overwrite_front`: storing just after or just before a
  window extends it; `overwrite_overwrite`: storing in two parts.
-/

namespace XWeb.Lib

variable {α : Type*}

/-- The cells `i ≤ k < j` of `l`. -/
def window (l : List α) (i j : ℕ) : List α := (l.take j).drop i

/-- `l` with `d` stored at the cells `off, off + 1, …`. -/
def overwrite (l : List α) (off : ℕ) (d : List α) : List α :=
  l.take off ++ d ++ l.drop (off + d.length)

/-- `n` assignments `l[dst] := l[src]`, both indices ascending. A read outside `l` ends the
    copy. -/
def copyForward : ℕ → List α → ℕ → ℕ → List α
  | 0, l, _, _ => l
  | n + 1, l, src, dst =>
    match l[src]? with
    | none => l
    | some x => copyForward n (l.set dst x) (src + 1) (dst + 1)

/-! ## Lengths and cells -/

theorem length_window {l : List α} {i j : ℕ} (h : j ≤ l.length) :
    (window l i j).length = j - i := by
  simp [window]; omega

theorem length_overwrite {l d : List α} {off : ℕ} (h : off + d.length ≤ l.length) :
    (overwrite l off d).length = l.length := by
  simp [overwrite]; omega

theorem getElem?_window (l : List α) (i j k : ℕ) :
    (window l i j)[k]? = if i + k < j then l[i + k]? else none := by
  simp [window, List.getElem?_drop, List.getElem?_take]

theorem getElem?_overwrite {l d : List α} {off : ℕ} (h : off ≤ l.length) (k : ℕ) :
    (overwrite l off d)[k]? =
      if k < off then l[k]? else if k < off + d.length then d[k - off]? else l[k]? := by
  have hmin : min off l.length = off := by omega
  simp only [overwrite, List.append_assoc, List.getElem?_append, List.length_take, hmin,
    List.getElem?_take, List.getElem?_drop]
  split_ifs with h1 h2 h3 h3
  · rfl
  · rfl
  · omega
  · omega
  · congr 1; omega

@[simp] theorem window_self (l : List α) (i : ℕ) : window l i i = [] := by
  simp [window]

@[simp] theorem overwrite_nil (l : List α) (off : ℕ) : overwrite l off [] = l := by
  simp [overwrite]

/-! ## Moving the ends of a window -/

theorem window_drop (l : List α) (i j n : ℕ) : window l (i + n) j = (window l i j).drop n := by
  simp [window]

theorem window_take (l : List α) (i j n : ℕ) (hn : i + n ≤ j) :
    window l i (i + n) = (window l i j).take n := by
  apply List.ext_getElem?
  intro k
  rw [getElem?_window, List.getElem?_take, getElem?_window]
  split_ifs <;> first | rfl | omega

/-- Two windows, one behind the other. -/
theorem window_add (l : List α) {i j k : ℕ} (hij : i ≤ j) (hj : j ≤ l.length) :
    window l i j ++ window l j (j + k) = window l i (j + k) := by
  have hlen : (l.take j).length = j := List.length_take_of_le hj
  have hsplit : l.take (j + k) = l.take j ++ (l.drop j).take k := List.take_add
  have hback : window l j (j + k) = (l.drop j).take k := by
    rw [window, hsplit]
    exact List.drop_left' hlen
  rw [hback, window, window, hsplit, List.drop_append_of_le_length (by omega)]

/-- Cells outside a window do not matter to it. -/
theorem window_congr {l l' : List α} {i j : ℕ} (h : ∀ k, i ≤ k → k < j → l[k]? = l'[k]?) :
    window l i j = window l' i j := by
  apply List.ext_getElem?
  intro k
  rw [getElem?_window, getElem?_window]
  split_ifs with hk
  · exact h (i + k) (by omega) hk
  · rfl

theorem window_append {l d : List α} {i j : ℕ} (h : j ≤ l.length) :
    window (l ++ d) i j = window l i j := by
  simp [window, List.take_append_of_le_length h]

theorem window_overwrite_self {l d : List α} {off : ℕ} (h : off + d.length ≤ l.length) :
    window (overwrite l off d) off (off + d.length) = d := by
  apply List.ext_getElem?
  intro k
  rw [getElem?_window, getElem?_overwrite (by omega)]
  split_ifs with h1 h2
  · omega
  · congr 1; omega
  · rw [List.getElem?_eq_none (by omega)]

theorem window_overwrite_back {l d : List α} {i j : ℕ} (hi : i ≤ j)
    (h : j + d.length ≤ l.length) :
    window (overwrite l j d) i (j + d.length) = window l i j ++ d := by
  apply List.ext_getElem?
  intro k
  rw [getElem?_window, getElem?_overwrite (by omega), List.getElem?_append, getElem?_window,
    length_window (by omega)]
  split_ifs with h1 h2 h3 h4 h5 h6 <;> first | rfl | omega | skip
  · congr 1; omega
  · rw [List.getElem?_eq_none (by omega)]

/-- Storing on behind what has been stored. -/
theorem overwrite_overwrite {l d e : List α} {off : ℕ} (h : off + d.length ≤ l.length) :
    overwrite (overwrite l off d) (off + d.length) e = overwrite l off (d ++ e) := by
  have hlen : (l.take off ++ d).length = off + d.length := by simp; omega
  have htake : (overwrite l off d).take (off + d.length) = l.take off ++ d := by
    rw [overwrite, ← hlen, List.take_left]
  have hdrop : (overwrite l off d).drop (off + d.length + e.length) =
      l.drop (off + (d ++ e).length) := by
    rw [overwrite, List.drop_append, List.drop_of_length_le (by omega), List.nil_append,
      List.drop_drop, hlen, List.length_append]
    congr 1
    omega
  rw [overwrite, htake, hdrop, overwrite, List.append_assoc (l.take off)]

theorem window_overwrite_front {l d : List α} {i j : ℕ} (hi : d.length ≤ i) (hij : i ≤ j)
    (h : j ≤ l.length) :
    window (overwrite l (i - d.length) d) (i - d.length) j = d ++ window l i j := by
  apply List.ext_getElem?
  intro k
  rw [getElem?_window, getElem?_overwrite (by omega), List.getElem?_append, getElem?_window]
  split_ifs with h1 h2 h3 h4 h5 h6 h7 <;> first | rfl | omega | skip
  · congr 1; omega
  · congr 1; omega

/-! ## The ascending copy -/

theorem copyForward_eq {n : ℕ} : ∀ {l : List α} {src dst : ℕ}, dst ≤ src → src + n ≤ l.length →
    copyForward n l src dst = overwrite l dst (window l src (src + n)) := by
  induction n with
  | zero => intro l src dst _ _; simp [copyForward]
  | succ n ih =>
    intro l src dst hd hs
    have hlt : src < l.length := by omega
    rw [copyForward, List.getElem?_eq_getElem hlt]
    simp only
    rw [ih (by omega) (by simp; omega)]
    have hw : window (l.set dst l[src]) (src + 1) (src + 1 + n) =
        window l (src + 1) (src + 1 + n) :=
      window_congr fun k hk _ => List.getElem?_set_ne (by omega)
    rw [hw]
    apply List.ext_getElem?
    intro k
    have hlen : (window l (src + 1) (src + 1 + n)).length = n := by
      rw [length_window (by omega)]; omega
    have hlen' : (window l src (src + (n + 1))).length = n + 1 := by
      rw [length_window (by omega)]; omega
    rw [getElem?_overwrite (by simp; omega), getElem?_overwrite (by omega), hlen, hlen',
      getElem?_window, getElem?_window, List.getElem?_set]
    rcases Nat.lt_trichotomy k dst with h | rfl | h
    · rw [if_pos (by omega), if_neg (by omega), if_pos h]
    · rw [if_pos (by omega), if_pos rfl, if_pos (by omega), if_neg (by omega), if_pos (by omega),
        if_pos (by omega), Nat.sub_self, Nat.add_zero, List.getElem?_eq_getElem hlt]
    · rw [if_neg (by omega : ¬ k < dst + 1), if_neg (by omega : ¬ k < dst)]
      by_cases hk : k < dst + (n + 1)
      · rw [if_pos (by omega), if_pos (by omega), if_pos hk, if_pos (by omega)]
        congr 1; omega
      · rw [if_neg (by omega), if_neg (by omega), if_neg hk]

end XWeb.Lib
