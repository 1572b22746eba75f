import Mathlib.Data.List.Flatten
import Mathlib.Tactic.Common

/-!
# Lines carried in chunks

A stream is a list of chunks, each a block that collects whole lines. `Carries cs xs` says that
the chunks `cs` are cut from some of the lines `xs`, in order and at line boundaries only, so
whole chunks can be dropped and no line is torn.

* `Carries.extend`, `Carries.push`, `Carries.fresh`, `Carries.sublist`: the ways in which a
  stream of chunks changes.
* `prefix_iff_of_append_eq`: two ways to cut one stream in two.
* `Carries.lines`: the bytes of such a stream are those of a sublist of the lines.
-/

namespace XWeb.Lib

variable {α : Type*}

/-- Each chunk of `cs` is the concatenation of consecutive lines, and all these lines together
    are a sublist of `xs`. -/
def Carries (cs xs : List (List α)) : Prop :=
  ∃ parts : List (List (List α)), cs = parts.map List.flatten ∧ parts.flatten.Sublist xs

theorem carries_nil (xs : List (List α)) : Carries [] xs := ⟨[], rfl, List.nil_sublist xs⟩

theorem Carries.lines {cs xs : List (List α)} (h : Carries cs xs) :
    ∃ ys, List.Sublist ys xs ∧ cs.flatten = ys.flatten := by
  obtain ⟨parts, rfl, hsub⟩ := h
  exact ⟨parts.flatten, hsub, by rw [List.flatten_flatten]⟩

/-- The line `x` is appended to the last chunk. -/
theorem Carries.extend {cs xs : List (List α)} {c : List α} (h : Carries (cs ++ [c]) xs)
    (x : List α) : Carries (cs ++ [c ++ x]) (xs ++ [x]) := by
  obtain ⟨parts, hcs, hsub⟩ := h
  obtain ⟨ps, qs, rfl, rfl, hq⟩ := List.map_eq_append_iff.mp hcs.symm
  obtain ⟨q, rfl, rfl⟩ := List.map_eq_singleton_iff.mp hq
  refine ⟨ps ++ [q ++ [x]], by simp, ?_⟩
  have hlines : (ps ++ [q ++ [x]]).flatten = (ps ++ [q]).flatten ++ [x] := by simp
  rw [hlines]
  exact hsub.append (List.Sublist.refl [x])

/-- The line `x` starts a new chunk. -/
theorem Carries.push {cs xs : List (List α)} (h : Carries cs xs) (x : List α) :
    Carries (cs ++ [x]) (xs ++ [x]) := by
  obtain ⟨parts, rfl, hsub⟩ := h
  refine ⟨parts ++ [[x]], by simp, ?_⟩
  rw [List.flatten_append, List.flatten_singleton]
  exact hsub.append (List.Sublist.refl [x])

/-- An empty chunk is started. -/
theorem Carries.fresh {cs xs : List (List α)} (h : Carries cs xs) : Carries (cs ++ [[]]) xs := by
  obtain ⟨parts, rfl, hsub⟩ := h
  exact ⟨parts ++ [[]], by simp, by simpa using hsub⟩

/-- Some chunks are dropped. -/
theorem Carries.sublist {cs ds xs : List (List α)} (h : Carries cs xs) (hd : List.Sublist ds cs) :
    Carries ds xs := by
  obtain ⟨parts, rfl, hsub⟩ := h
  obtain ⟨parts', hp, rfl⟩ := List.sublist_map_iff.mp hd
  exact ⟨parts', rfl, hp.flatten.trans hsub⟩

/-- Of two ways to cut a stream in two, the first part of one begins the first part of the other
    exactly if its second part is the longer one. -/
theorem prefix_iff_of_append_eq {a b c d : List α} (h : a ++ b = c ++ d) :
    a <+: c ↔ d.length ≤ b.length := by
  have hlen : a.length + b.length = c.length + d.length := by simpa using congrArg List.length h
  have ha : a <+: c ++ d := h ▸ List.prefix_append a b
  constructor
  · intro hac
    have := hac.length_le
    omega
  · intro hdb
    exact List.prefix_of_prefix_length_le ha (List.prefix_append c d) (by omega)

end XWeb.Lib
