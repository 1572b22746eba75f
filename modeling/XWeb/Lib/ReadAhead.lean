import Mathlib.Data.List.Flatten
import Mathlib.Tactic.Common

/-!
# Reading ahead in a stream of chunks

A reader that hands out the elements of a stream one by one, and takes the next chunk only when it
has handed out all it has. Where it stops, it has read ahead to the end of a chunk.

* `Begins`: the positions at which a chunk begins.
* `Ahead`: what such a reader has read ahead, and the chunks that are still to come.
* `Ahead.begins_iff`, `Ahead.begins_add_iff`: where the chunks still to come begin.
-/

namespace XWeb.Lib

variable {α : Type*}

/-- A chunk begins at the position `b`. -/
def Begins (cs : List (List α)) (b : ℕ) : Prop :=
  ∃ used c rest, cs = used ++ c :: rest ∧ used.flatten.length = b

/-- Of the chunks `cs` some have been taken and `rest` are to come; of the last one that has been
    taken all but `u` has been handed out, which is not the whole chunk. -/
def Ahead (cs : List (List α)) (u : List α) (rest : List (List α)) : Prop :=
  ∃ used, cs = used ++ rest ∧
    (used = [] ∧ u = [] ∨ ∃ front last, used = front ++ [last] ∧ u.length < last.length)

variable {cs rest : List (List α)} {u : List α} {a : α}

theorem begins_zero (h : cs ≠ []) : Begins cs 0 := by
  obtain ⟨c, rest, rfl⟩ := List.exists_cons_of_ne_nil h
  exact ⟨[], c, rest, rfl, rfl⟩

/-! ## What the reader does -/

theorem ahead_start (cs : List (List α)) : Ahead cs [] cs := ⟨[], rfl, Or.inl ⟨rfl, rfl⟩⟩

/-- It hands out what it has. -/
theorem Ahead.take (h : Ahead cs (a :: u) rest) : Ahead cs u rest := by
  obtain ⟨used, hcs, ⟨-, hnil⟩ | ⟨front, last, hused, hlt⟩⟩ := h
  · exact absurd hnil (by simp)
  · exact ⟨used, hcs, Or.inr ⟨front, last, hused, Nat.lt_of_succ_lt hlt⟩⟩

/-- It takes the next chunk and hands out its first element. -/
theorem Ahead.refill (h : Ahead cs [] ((a :: u) :: rest)) : Ahead cs u rest := by
  obtain ⟨used, hcs, -⟩ := h
  exact ⟨used ++ [a :: u], by simp [hcs], Or.inr ⟨used, a :: u, rfl, Nat.lt_succ_self _⟩⟩

/-! ## Where chunks begin -/

variable {m : ℕ}

/-- Behind the `m` elements that have been handed out a chunk begins only behind those that have
    been taken. -/
theorem Ahead.used_prefix {used used' : List (List α)} {c : List α} {rest' : List (List α)}
    (hused : used = [] ∧ u = [] ∨ ∃ front last, used = front ++ [last] ∧ u.length < last.length)
    (hlen : used.flatten.length = m + u.length) (he : used ++ rest = used' ++ c :: rest')
    (hm : m ≤ used'.flatten.length) : ∃ x, used' = used ++ x ∧ rest = x ++ c :: rest' := by
  obtain ⟨x, hx, hrest⟩ | ⟨x, hx, hrest⟩ := List.append_eq_append_iff.mp he
  · exact ⟨x, hx, hrest⟩
  · cases x with
    | nil => exact ⟨[], by simpa using hx.symm, by simpa using hrest.symm⟩
    | cons d x =>
      -- `used'` would stop before the last chunk taken, where less has been handed out
      exfalso
      obtain ⟨rfl, -⟩ | ⟨front, last, rfl, hlt⟩ := hused
      · exact absurd hx (by simp)
      · have hshort : used' <+: front := by
          obtain ⟨y, z, hy⟩ : ∃ y z, d :: x = y ++ [z] := by
            obtain hnil | ⟨y, z, hy⟩ := List.eq_nil_or_concat (d :: x)
            · exact absurd hnil (by simp)
            · exact ⟨y, z, by simpa using hy⟩
          rw [hy, ← List.append_assoc] at hx
          exact ⟨y, (List.append_inj_left' hx rfl).symm⟩
        obtain ⟨y, rfl⟩ := hshort
        simp only [List.flatten_append, List.length_append, List.flatten_singleton] at hlen hm
        omega

/-- The first chunk to begin behind `m` begins behind what has been read ahead. -/
theorem Ahead.begins_iff (h : Ahead cs u rest)
    (hlen : cs.flatten.length = m + u.length + rest.flatten.length) (n : ℕ) :
    (∃ b < n, Begins cs (m + b)) ↔ u.length < n ∧ rest ≠ [] := by
  obtain ⟨used, rfl, hused⟩ := h
  have htaken : used.flatten.length = m + u.length := by
    simp only [List.flatten_append, List.length_append] at hlen
    omega
  constructor
  · rintro ⟨b, hb, used', c, rest', he, hpos⟩
    obtain ⟨x, rfl, hrest⟩ := used_prefix hused htaken he (by omega)
    simp only [List.flatten_append, List.length_append] at hpos
    exact ⟨by omega, by simp [hrest]⟩
  · rintro ⟨hn, hne⟩
    obtain ⟨c, rest', rfl⟩ := List.exists_cons_of_ne_nil hne
    exact ⟨u.length, hn, used, c, rest', rfl, htaken⟩

/-- From there on chunks begin where those to come do. -/
theorem Ahead.begins_add_iff (h : Ahead cs u rest)
    (hlen : cs.flatten.length = m + u.length + rest.flatten.length) (b : ℕ) :
    Begins cs (m + u.length + b) ↔ Begins rest b := by
  obtain ⟨used, rfl, hused⟩ := h
  have htaken : used.flatten.length = m + u.length := by
    simp only [List.flatten_append, List.length_append] at hlen
    omega
  constructor
  · rintro ⟨used', c, rest', he, hpos⟩
    obtain ⟨x, rfl, hrest⟩ := used_prefix hused htaken he (by omega)
    simp only [List.flatten_append, List.length_append] at hpos
    exact ⟨x, c, rest', hrest, by omega⟩
  · rintro ⟨x, c, rest', rfl, hpos⟩
    refine ⟨used ++ x, c, rest', by simp, ?_⟩
    simp only [List.flatten_append, List.length_append]
    omega

end XWeb.Lib
