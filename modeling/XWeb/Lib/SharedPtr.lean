import Mathlib.Data.List.Basic
import Mathlib.Tactic.Common

/-!
# Shared ownership

The control block of an object held by `shared_ptr`s: the list of the pointers that own it. The
object is destroyed at the moment the last owner goes, and never comes back.

* `Shared.alive_release`: a release with another owner left destroys nothing.
* `Shared.Alive.not_destroyed`, `Shared.not_alive_release`: an owned object has not been destroyed,
  and the release of its only owner leaves none.
-/

namespace XWeb.Lib

/-- The owners of an object, each of which may own it several times. -/
structure Shared (ρ : Type*) where
  owners : List ρ
  created : Bool
  created_of_owned : owners ≠ [] → created = true
  deriving DecidableEq

namespace Shared

variable {ρ : Type*}

/-- An object that has not been created. -/
def unborn : Shared ρ := ⟨[], false, by simp⟩

/-- `make_shared`, or a `new` given to its first owner. -/
def make (r : ρ) : Shared ρ := ⟨[r], true, fun _ => rfl⟩

/-- A copy of the pointer, owned by `r`. -/
def share (p : Shared ρ) (r : ρ) : Shared ρ := ⟨r :: p.owners, true, fun _ => rfl⟩

/-- The object exists. -/
def Alive (p : Shared ρ) : Prop := p.owners ≠ []

/-- The object existed and has been destroyed. -/
def Destroyed (p : Shared ρ) : Prop := p.owners = [] ∧ p.created = true

instance (p : Shared ρ) : Decidable p.Alive :=
  decidable_of_iff (p.owners.isEmpty = false) (by simp [Alive])

instance (p : Shared ρ) : Decidable p.Destroyed :=
  decidable_of_iff (p.owners.isEmpty = true ∧ p.created = true) (by simp [Destroyed])

theorem Alive.not_destroyed {p : Shared ρ} (h : p.Alive) : ¬ p.Destroyed := fun hd => h hd.1

theorem alive_of_mem {p : Shared ρ} {r : ρ} (h : r ∈ p.owners) : p.Alive := List.ne_nil_of_mem h

theorem alive_make (r : ρ) : (make r).Alive := List.cons_ne_nil _ _

theorem alive_share (p : Shared ρ) (r : ρ) : (p.share r).Alive := List.cons_ne_nil _ _

theorem mem_share_self (p : Shared ρ) (r : ρ) : r ∈ (p.share r).owners := List.mem_cons_self

theorem mem_share {p : Shared ρ} {r : ρ} (h : r ∈ p.owners) (r' : ρ) : r ∈ (p.share r').owners :=
  List.mem_cons_of_mem _ h

variable [DecidableEq ρ]

/-- The pointer of `r` is destroyed or reset. -/
def release (p : Shared ρ) (r : ρ) : Shared ρ :=
  ⟨p.owners.erase r, p.created, fun h => p.created_of_owned fun hnil => h (by rw [hnil]; rfl)⟩

theorem mem_release {p : Shared ρ} {r r' : ρ} (h : r' ∈ p.owners) (hne : r' ≠ r) :
    r' ∈ (p.release r).owners := (List.mem_erase_of_ne hne).mpr h

theorem alive_release {p : Shared ρ} (h : 1 < p.owners.length) (r : ρ) : (p.release r).Alive := by
  apply List.ne_nil_of_length_pos
  have hlen := List.length_erase (a := r) (l := p.owners)
  rw [release, hlen]
  split <;> omega

theorem alive_of_release {p : Shared ρ} {r : ρ} (h : (p.release r).Alive) : p.Alive := by
  intro hnil
  apply h
  show p.owners.erase r = []
  rw [hnil, List.erase_nil]

theorem eq_singleton_of_not_alive_release {p : Shared ρ} {r : ρ} (hr : r ∈ p.owners)
    (h : ¬ (p.release r).Alive) : p.owners = [r] := by
  have hnil : p.owners.erase r = [] := not_not.mp h
  rcases List.erase_eq_nil_iff.mp hnil with hnil | hone
  · exact absurd hr (by simp [hnil])
  · exact hone

theorem not_alive_release {p : Shared ρ} {r : ρ} (h : p.owners = [r]) : ¬ (p.release r).Alive := by
  simp [Alive, release, h]

end Shared

end XWeb.Lib
