import Mathlib.Data.Nat.ModEq
import Mathlib.Tactic.Common

/-!
# Ids from a counter that wraps

A counter gives out ids one after another, and after `N` of them begins again. A table files
something under each id that its owner takes, until the id is given back; others take ids from the
same counter.

* `InTable`: the ids that are in the table; `inTable_take`, `inTable_giveBack`: how they change.
* `inTable_next_iff`: when the next id is one of them.
-/

namespace XWeb.Lib

/-- What happens to ids: the next one is taken, by the owner of the table or by another, or one is
    given back. -/
inductive IdUse (ι : Type*)
  | take (mine : Bool)
  | giveBack (id : ι)
  deriving DecidableEq

variable {ι : Type*}

def IdUse.isTake : IdUse ι → Bool
  | .take _ => true
  | .giveBack _ => false

/-- The number of ids that have been taken. -/
def takes (l : List (IdUse ι)) : ℕ := l.countP IdUse.isTake

theorem takes_append (l l' : List (IdUse ι)) : takes (l ++ l') = takes l + takes l' :=
  List.countP_append

theorem takes_take (mine : Bool) (l : List (IdUse ι)) : takes (.take mine :: l) = takes l + 1 :=
  List.countP_cons_of_pos rfl

@[simp] theorem takes_concat_take (l : List (IdUse ι)) (mine : Bool) :
    takes (l ++ [.take mine]) = takes l + 1 := by
  rw [takes_append]
  rfl

@[simp] theorem takes_concat_giveBack (l : List (IdUse ι)) (id : ι) :
    takes (l ++ [.giveBack id]) = takes l := by
  rw [takes_append]
  rfl

theorem takes_replicate (n : ℕ) (mine : Bool) :
    takes (List.replicate n (.take mine : IdUse ι)) = n := by
  induction n with
  | zero => rfl
  | succ n ih => rw [List.replicate_succ, takes_take, ih]

variable (ident : ℕ → ι)

/-- The id `x` has been taken by the owner of the table and not been given back since. -/
def InTable (l : List (IdUse ι)) (x : ι) : Prop :=
  ∃ before after, l = before ++ .take true :: after ∧ ident (takes before) = x ∧ .giveBack x ∉ after

/-- Each id that the owner has taken a multiple of `N` ids ago has been given back since. -/
def Reusable (N : ℕ) (l : List (IdUse ι)) : Prop :=
  ∀ before after, l = before ++ .take true :: after → N ∣ takes after + 1 →
    .giveBack (ident (takes before)) ∈ after

variable {ident} {l : List (IdUse ι)} {x y : ι}

theorem not_inTable_nil : ¬ InTable ident [] x := by
  rintro ⟨before, after, he, -⟩
  exact absurd he (by simp)

/-- A log that ends with `u`, and an entry of it. -/
theorem concat_split {u v : IdUse ι} {before after : List (IdUse ι)}
    (h : l ++ [u] = before ++ v :: after) :
    (after = [] ∧ u = v ∧ l = before) ∨
      ∃ after', after = after' ++ [u] ∧ l = before ++ v :: after' := by
  obtain rfl | ⟨after', w, rfl⟩ := List.eq_nil_or_concat after
  · obtain ⟨rfl, he⟩ := List.append_inj' h rfl
    exact Or.inl ⟨rfl, (List.cons.inj he).1, rfl⟩
  · rw [List.concat_eq_append, ← List.cons_append, ← List.append_assoc] at h
    obtain ⟨rfl, he⟩ := List.append_inj' h rfl
    right
    refine ⟨after', ?_, rfl⟩
    rw [List.concat_eq_append, he]

theorem inTable_take (mine : Bool) :
    InTable ident (l ++ [.take mine]) x ↔ InTable ident l x ∨ mine = true ∧ ident (takes l) = x := by
  constructor
  · rintro ⟨before, after, he, hid, hkept⟩
    obtain ⟨-, hu, rfl⟩ | ⟨after', rfl, rfl⟩ := concat_split he
    · exact Or.inr ⟨by simpa using hu, hid⟩
    · exact Or.inl ⟨before, after', rfl, hid, fun h => hkept (List.mem_append_left _ h)⟩
  · rintro (⟨before, after, rfl, hid, hkept⟩ | ⟨rfl, hid⟩)
    · exact ⟨before, after ++ [.take mine], by simp, hid, by simpa using hkept⟩
    · exact ⟨l, [], rfl, hid, by simp⟩

theorem inTable_giveBack : InTable ident (l ++ [.giveBack y]) x ↔ InTable ident l x ∧ x ≠ y := by
  constructor
  · rintro ⟨before, after, he, hid, hkept⟩
    obtain ⟨-, hu, -⟩ | ⟨after', rfl, rfl⟩ := concat_split he
    · exact absurd hu (by simp)
    · refine ⟨⟨before, after', rfl, hid, fun h => hkept (List.mem_append_left _ h)⟩, ?_⟩
      rintro rfl
      exact hkept (by simp)
  · rintro ⟨⟨before, after, rfl, hid, hkept⟩, hne⟩
    exact ⟨before, after ++ [.giveBack y], by simp, hid, by simp [hkept, hne]⟩

/-- The next id is in the table if it has been taken a multiple of `N` ids ago and kept. -/
theorem inTable_next_iff {N : ℕ} (hident : ∀ m n, ident m = ident n ↔ m % N = n % N)
    (l : List (IdUse ι)) : InTable ident l (ident (takes l)) ↔ ¬ Reusable ident N l := by
  have hdist : ∀ before after : List (IdUse ι), l = before ++ .take true :: after →
      (ident (takes before) = ident (takes l) ↔ N ∣ takes after + 1) := by
    rintro before after rfl
    rw [hident, takes_append, takes_take]
    have hmod := Nat.modEq_iff_dvd' (n := N) (Nat.le_add_right (takes before) (takes after + 1))
    rw [Nat.add_sub_cancel_left] at hmod
    exact hmod
  constructor
  · rintro ⟨before, after, he, hid, hkept⟩ hall
    have hback := hall before after he ((hdist before after he).mp hid)
    rw [hid] at hback
    exact hkept hback
  · intro hnot
    simp only [Reusable, not_forall] at hnot
    obtain ⟨before, after, he, hdvd, hkept⟩ := hnot
    have hid := (hdist before after he).mpr hdvd
    exact ⟨before, after, he, hid, hid ▸ hkept⟩

end XWeb.Lib
