import Mathlib.Data.List.Infix
import Mathlib.Tactic.Common

/-!
# Messages in a stream

A stream arrives in pieces and is cut into messages by a function that looks at what is there: it
finds a message at the beginning, and how much of the stream this spends, or finds none yet. What
it has found does not depend on what comes behind it.

* `Framing.Decodes`: the messages of a stream, and what is left; `Framing.Decodes.unique`.
* `Framing.Decodes.append`: decoding what is there, keeping the rest and going on when more has come
  finds the messages of the whole stream.
* `search`: the first place of a pattern; `search_append` and `search_drop`: what may be added behind
  and left out in front.
* `delimited`: the messages that end with a delimiter, with `Framing.Decodes.delimited_spec`.
-/

namespace XWeb.Lib

variable {α M : Type*}

/-- How a stream is cut into messages. -/
structure Framing (α M : Type*) where
  next : List α → Option (M × ℕ)
  spends : ∀ {s m n}, next s = some (m, n) → 0 < n ∧ n ≤ s.length
  stable : ∀ {s m n} (t : List α), next s = some (m, n) → next (s ++ t) = some (m, n)

namespace Framing

/-- The messages of a stream, and what is left behind the last. -/
inductive Decodes (f : Framing α M) : List α → List M → List α → Prop
  | rest {s : List α} (none : f.next s = none) : Decodes f s [] s
  | frame {s rest : List α} {m : M} {n : ℕ} {ms : List M} (some : f.next s = some (m, n))
      (behind : Decodes f (s.drop n) ms rest) : Decodes f s (m :: ms) rest

variable {f : Framing α M}

theorem Decodes.unique {s rest : List α} {ms : List M} (h : f.Decodes s ms rest) :
    ∀ {ms' : List M} {rest' : List α}, f.Decodes s ms' rest' → ms = ms' ∧ rest = rest' := by
  induction h with
  | rest hnone =>
    intro ms' rest' h'
    cases h' with
    | rest _ => exact ⟨rfl, rfl⟩
    | frame hsome _ =>
      rw [hnone] at hsome
      cases hsome
  | frame hsome _ ih =>
    intro ms' rest' h'
    cases h' with
    | rest hnone =>
      rw [hnone] at hsome
      cases hsome
    | frame hsome' hbehind' =>
      obtain ⟨rfl, rfl⟩ := Prod.mk.inj (Option.some.inj (hsome.symm.trans hsome'))
      obtain ⟨rfl, rfl⟩ := ih hbehind'
      exact ⟨rfl, rfl⟩

/-- More has come. -/
theorem Decodes.append {s rest rest' t : List α} {ms ms' : List M} (h : f.Decodes s ms rest)
    (h' : f.Decodes (rest ++ t) ms' rest') : f.Decodes (s ++ t) (ms ++ ms') rest' := by
  induction h with
  | rest _ => exact h'
  | frame hsome _ ih =>
    refine .frame (f.stable t hsome) ?_
    rw [List.drop_append_of_le_length (f.spends hsome).2]
    exact ih h'

end Framing

/-! ## Delimiters -/

variable [DecidableEq α]

/-- `std::search`: the first place of the pattern `p` in `s`, or the length of `s`. -/
def search (p : List α) : List α → ℕ
  | [] => 0
  | x :: s => if p <+: x :: s then 0 else search p s + 1

theorem search_le (p s : List α) : search p s ≤ s.length := by
  induction s with
  | nil => exact Nat.le_refl 0
  | cons x s ih =>
    unfold search
    split
    · exact Nat.zero_le _
    · exact Nat.succ_le_succ ih

/-- Where a pattern is found it is. -/
theorem isPrefix_drop_search {p s : List α} (h : search p s < s.length) :
    p <+: s.drop (search p s) := by
  induction s with
  | nil => cases h
  | cons x s ih =>
    unfold search at h ⊢
    split
    · next hp => exact hp
    · next hp =>
      rw [if_neg hp] at h
      exact ih (Nat.lt_of_succ_lt_succ h)

/-- Before that it is nowhere. -/
theorem not_isPrefix_drop {p s : List α} {i : ℕ} (h : i < search p s) : ¬ p <+: s.drop i := by
  induction s generalizing i with
  | nil => cases h
  | cons x s ih =>
    unfold search at h
    split at h
    · cases h
    · next hp =>
      cases i with
      | zero => exact hp
      | succ i => exact ih (Nat.lt_of_succ_lt_succ h)

theorem length_le_of_search {p s : List α} (h : search p s < s.length) :
    search p s + p.length ≤ s.length := by
  have hle := (isPrefix_drop_search h).length_le
  rw [List.length_drop] at hle
  omega

/-- A search that does not stop before the end has found the pattern. -/
theorem search_lt_iff {p s : List α} (hp : p ≠ []) : search p s < s.length ↔ p <:+: s := by
  constructor
  · intro h
    exact (isPrefix_drop_search h).isInfix.trans (List.drop_suffix _ _).isInfix
  · rintro ⟨a, b, rfl⟩
    have hpos : 0 < p.length := List.length_pos_iff.mpr hp
    have hplace : p <+: (a ++ p ++ b).drop a.length := by
      rw [List.append_assoc, List.drop_left]
      exact List.prefix_append p b
    have hle : search p (a ++ p ++ b) ≤ a.length := by
      by_contra hlt
      exact not_isPrefix_drop (Nat.lt_of_not_le hlt) hplace
    rw [List.length_append, List.length_append]
    omega

/-- A search may begin behind a part in which the pattern does not begin. -/
theorem search_drop {p s : List α} {i : ℕ} (hi : i ≤ s.length) (h : ∀ j < i, ¬ p <+: s.drop j) :
    search p s = i + search p (s.drop i) := by
  induction i generalizing s with
  | zero => rw [List.drop_zero, Nat.zero_add]
  | succ i ih =>
    cases s with
    | nil => cases hi
    | cons x s =>
      have hx : ¬ p <+: x :: s := h 0 (Nat.succ_pos i)
      have hs : search p s = i + search p (s.drop i) :=
        ih (Nat.le_of_succ_le_succ hi) fun j hj => h (j + 1) (Nat.succ_lt_succ hj)
      rw [search, if_neg hx, hs, List.drop_succ_cons]
      omega

omit [DecidableEq α] in
/-- Where the pattern is not in `s`, it does not begin before the end of `s` unless it goes beyond. -/
theorem not_isPrefix_drop_append {p s : List α} (h : ¬ p <:+: s) (t : List α) {j : ℕ}
    (hj : j + p.length ≤ s.length) : ¬ p <+: (s ++ t).drop j := by
  intro hpre
  rw [List.drop_append_of_le_length (by omega)] at hpre
  have hle : p.length ≤ (s.drop j).length := by
    rw [List.length_drop]
    omega
  have hplace : p <+: s.drop j :=
    List.prefix_of_prefix_length_le hpre (List.prefix_append (s.drop j) t) hle
  exact h (hplace.isInfix.trans (List.drop_suffix j s).isInfix)

/-- What has been found stays where it is when more comes behind it. -/
theorem search_append {p s : List α} (h : search p s < s.length) (t : List α) :
    search p (s ++ t) = search p s := by
  induction s with
  | nil => cases h
  | cons x s ih =>
    by_cases hp : p <+: x :: s
    · have hp' : p <+: x :: (s ++ t) := hp.trans (List.prefix_append (x :: s) t)
      rw [List.cons_append, search, search, if_pos hp, if_pos hp']
    · rw [search, if_neg hp] at h
      have hlt := Nat.lt_of_succ_lt_succ h
      have hlen : p.length ≤ (x :: s).length := by
        have hle := length_le_of_search hlt
        rw [List.length_cons]
        omega
      have hp' : ¬ p <+: x :: (s ++ t) := fun hpre =>
        hp (List.prefix_of_prefix_length_le hpre (List.prefix_append (x :: s) t) hlen)
      rw [List.cons_append, search, search, if_neg hp, if_neg hp', ih hlt]

/-- A message is what comes before the next `p`. -/
def delimited (p : List α) (hp : p ≠ []) : Framing α (List α) where
  next := fun s =>
    if search p s < s.length then some (s.take (search p s), search p s + p.length) else none
  spends := by
    intro s m n h
    split at h
    · next hlt =>
      obtain ⟨-, rfl⟩ := Prod.mk.inj (Option.some.inj h)
      exact ⟨Nat.add_pos_right _ (List.length_pos_iff.mpr hp), length_le_of_search hlt⟩
    · cases h
  stable := by
    intro s m n t h
    split at h
    · next hlt =>
      obtain ⟨rfl, rfl⟩ := Prod.mk.inj (Option.some.inj h)
      have hlt' : search p s < (s ++ t).length := by
        rw [List.length_append]
        omega
      rw [search_append hlt t, if_pos hlt', List.take_append_of_le_length (Nat.le_of_lt hlt)]
    · cases h

theorem next_delimited (p : List α) (hp : p ≠ []) (s : List α) :
    (delimited p hp).next s =
      if search p s < s.length then some (s.take (search p s), search p s + p.length) else none :=
  rfl

/-- The messages with their delimiters are the stream, and the delimiter is nowhere else. -/
theorem Framing.Decodes.delimited_spec {p s rest : List α} {hp : p ≠ []} {ms : List (List α)}
    (h : (delimited p hp).Decodes s ms rest) :
    s = ms.flatMap (fun m => m ++ p) ++ rest ∧ (∀ m ∈ ms, ¬ p <:+: m) ∧ ¬ p <:+: rest := by
  induction h with
  | @rest s hnone =>
    refine ⟨rfl, fun m hm => absurd hm List.not_mem_nil, fun hinfix => ?_⟩
    rw [next_delimited, if_pos ((search_lt_iff hp).mpr hinfix)] at hnone
    cases hnone
  | @frame s rest m n ms hsome _ ih =>
    obtain ⟨hms, hfree, hrest⟩ := ih
    rw [next_delimited] at hsome
    split at hsome
    · next hlt =>
      obtain ⟨rfl, rfl⟩ := Prod.mk.inj (Option.some.inj hsome)
      refine ⟨?_, ?_, hrest⟩
      · obtain ⟨behind, hbehind⟩ := isPrefix_drop_search hlt
        have hdrop : s.drop (search p s + p.length) = behind := by
          rw [← List.drop_drop, ← hbehind, List.drop_left]
        rw [List.flatMap_cons, List.append_assoc, List.append_assoc, ← hms, hdrop, hbehind,
          List.take_append_drop]
      · intro m hm
        rcases List.mem_cons.mp hm with rfl | hm
        · -- a delimiter inside would have been found first
          intro hinfix
          have hlt' := (search_lt_iff hp).mpr hinfix
          have happ := search_append hlt' (s.drop (search p s))
          rw [List.take_append_drop] at happ
          rw [List.length_take] at hlt'
          omega
        · exact hfree m hm
    · cases hsome

end XWeb.Lib
