import Mathlib.Logic.Function.Basic
import Mathlib.Tactic.Common

/-!
# A heap of objects

Objects of one type at numbered addresses. An address is used once, so an object that has been
freed is never confused with a later one.

* `Heap.alloc`, `Heap.free`, `Heap.set`, with what each does to the live and the dead objects.
-/

namespace XWeb.Lib

/-- The objects, and the address from which on nothing has been allocated. -/
structure Heap (α : Type*) where
  cell : ℕ → Option α
  next : ℕ
  fresh : ∀ p, next ≤ p → cell p = none

namespace Heap

variable {α : Type*}

def empty : Heap α := ⟨fun _ => none, 0, fun _ _ => rfl⟩

/-- There is an object at `p`. -/
def Live (h : Heap α) (p : ℕ) : Prop := (h.cell p).isSome = true

/-- There was an object at `p`, and it has been freed. -/
def Dead (h : Heap α) (p : ℕ) : Prop := p < h.next ∧ h.cell p = none

instance (h : Heap α) (p : ℕ) : Decidable (h.Live p) := inferInstanceAs (Decidable (_ = _))

theorem live_iff {h : Heap α} {p : ℕ} : h.Live p ↔ ∃ a, h.cell p = some a :=
  Option.isSome_iff_exists

theorem Live.lt_next {h : Heap α} {p : ℕ} (hp : h.Live p) : p < h.next := by
  by_contra hge
  simp [Live, h.fresh p (by omega)] at hp

theorem Dead.not_live {h : Heap α} {p : ℕ} (hp : h.Dead p) : ¬ h.Live p := by
  simp [Live, hp.2]

theorem live_of_cell {h : Heap α} {p : ℕ} {a : α} (hp : h.cell p = some a) : h.Live p := by
  simp [Live, hp]

/-! ## Allocation -/

/-- A new object, at the address `h.next`. -/
def alloc (h : Heap α) (a : α) : Heap α where
  cell := Function.update h.cell h.next (some a)
  next := h.next + 1
  fresh := by
    intro p hp
    rw [Function.update_of_ne (by omega)]
    exact h.fresh p (by omega)

@[simp] theorem cell_alloc_self (h : Heap α) (a : α) : (h.alloc a).cell h.next = some a :=
  Function.update_self ..

theorem cell_alloc_of_live {h : Heap α} {p : ℕ} (hp : h.Live p) (a : α) :
    (h.alloc a).cell p = h.cell p :=
  Function.update_of_ne (Nat.ne_of_lt hp.lt_next) ..

theorem live_alloc_self (h : Heap α) (a : α) : (h.alloc a).Live h.next := by simp [Live]

theorem Live.alloc {h : Heap α} {p : ℕ} (hp : h.Live p) (a : α) : (h.alloc a).Live p := by
  rw [Live, cell_alloc_of_live hp]
  exact hp

theorem Dead.alloc {h : Heap α} {p : ℕ} (hp : h.Dead p) (a : α) : (h.alloc a).Dead p :=
  ⟨Nat.lt_succ_of_lt hp.1, (Function.update_of_ne (Nat.ne_of_lt hp.1) ..).trans hp.2⟩

/-! ## Change of an object -/

/-- The object at `p` becomes `a`, if there is one. -/
def set (h : Heap α) (p : ℕ) (a : α) : Heap α where
  cell := Function.update h.cell p ((h.cell p).map fun _ => a)
  next := h.next
  fresh := by
    intro q hq
    rcases eq_or_ne q p with rfl | hne
    · rw [Function.update_self, h.fresh q hq]
      rfl
    · rw [Function.update_of_ne hne]
      exact h.fresh q hq

theorem cell_set_self {h : Heap α} {p : ℕ} (hp : h.Live p) (a : α) :
    (h.set p a).cell p = some a := by
  obtain ⟨b, hb⟩ := live_iff.mp hp
  simp [set, hb]

theorem cell_set_of_ne (h : Heap α) {p q : ℕ} (hne : q ≠ p) (a : α) :
    (h.set p a).cell q = h.cell q := Function.update_of_ne hne ..

@[simp] theorem live_set {h : Heap α} {p q : ℕ} {a : α} : (h.set p a).Live q ↔ h.Live q := by
  rcases eq_or_ne q p with rfl | hne
  · simp [Live, set]
  · rw [Live, cell_set_of_ne h hne]
    rfl

theorem Dead.set {h : Heap α} {q : ℕ} (hq : h.Dead q) (p : ℕ) (a : α) : (h.set p a).Dead q := by
  refine ⟨hq.1, ?_⟩
  rcases eq_or_ne q p with rfl | hne
  · simp [Heap.set, hq.2]
  · rw [cell_set_of_ne h hne]
    exact hq.2

/-- The objects after a change of one of them. -/
theorem cell_set_eq_some {h : Heap α} {p q : ℕ} {a b : α} (hp : h.Live p) :
    (h.set p a).cell q = some b ↔ q = p ∧ b = a ∨ q ≠ p ∧ h.cell q = some b := by
  rcases eq_or_ne q p with rfl | hne
  · simp [cell_set_self hp, eq_comm]
  · simp [cell_set_of_ne h hne, hne]

/-- The objects after an allocation. -/
theorem cell_alloc_eq_some {h : Heap α} {q : ℕ} {a b : α} :
    (h.alloc a).cell q = some b ↔ q = h.next ∧ b = a ∨ h.cell q = some b := by
  rcases eq_or_ne q h.next with rfl | hne
  · simp [h.fresh h.next (Nat.le_refl _), eq_comm]
  · have hcell : (h.alloc a).cell q = h.cell q := Function.update_of_ne hne ..
    simp [hcell, hne]

/-- The objects after an allocation and a change of the new object. -/
theorem cell_alloc_set_eq_some {h : Heap α} {q : ℕ} {a b c : α} :
    ((h.alloc a).set h.next b).cell q = some c ↔ q = h.next ∧ c = b ∨ h.cell q = some c := by
  rw [cell_set_eq_some (live_alloc_self h a), cell_alloc_eq_some]
  rcases eq_or_ne q h.next with rfl | hne
  · simp [h.fresh h.next (Nat.le_refl _)]
  · simp [hne]

/-! ## Destruction -/

/-- The object at `p` is destroyed. -/
def free (h : Heap α) (p : ℕ) : Heap α where
  cell := Function.update h.cell p none
  next := h.next
  fresh := by
    intro q hq
    rcases eq_or_ne q p with rfl | hne
    · exact Function.update_self ..
    · rw [Function.update_of_ne hne]
      exact h.fresh q hq

theorem cell_free_of_ne (h : Heap α) {p q : ℕ} (hne : q ≠ p) : (h.free p).cell q = h.cell q :=
  Function.update_of_ne hne ..

/-- The objects after the destruction of one of them. -/
theorem cell_free_eq_some {h : Heap α} {p q : ℕ} {b : α} :
    (h.free p).cell q = some b ↔ q ≠ p ∧ h.cell q = some b := by
  rcases eq_or_ne q p with rfl | hne
  · simp [free]
  · simp [cell_free_of_ne h hne, hne]

theorem cell_free (h : Heap α) (p q : ℕ) :
    (h.free p).cell q = h.cell q ∨ (h.free p).cell q = none := by
  rcases eq_or_ne q p with rfl | hne
  · exact Or.inr (Function.update_self ..)
  · exact Or.inl (cell_free_of_ne h hne)

theorem Live.free {h : Heap α} {p q : ℕ} (hq : h.Live q) (hne : q ≠ p) : (h.free p).Live q := by
  rw [Live, cell_free_of_ne h hne]
  exact hq

theorem Live.dead_free {h : Heap α} {p : ℕ} (hp : h.Live p) : (h.free p).Dead p :=
  ⟨hp.lt_next, Function.update_self ..⟩

theorem Dead.free {h : Heap α} {q : ℕ} (hq : h.Dead q) (p : ℕ) : (h.free p).Dead q := by
  refine ⟨hq.1, ?_⟩
  rcases eq_or_ne q p with rfl | hne
  · exact Function.update_self ..
  · rw [cell_free_of_ne h hne]
    exact hq.2

end Heap

end XWeb.Lib
