import Mathlib.Algebra.BigOperators.Group.Finset.Defs
import Mathlib.Algebra.Order.Group.Nat

/-!
Owns the natural numbers up to a bound with the addition that stays at the bound:
an ordered commutative monoid, to which saturating is a homomorphism.
-/

namespace Foundation

@[ext] structure Capped (top : Nat) where
  value : Nat
  within : value ≤ top

variable {top : Nat}

namespace Capped

instance : PartialOrder (Capped top) := PartialOrder.lift value fun _ _ => Capped.ext

instance : Zero (Capped top) := ⟨⟨0, Nat.zero_le top⟩⟩

instance : Add (Capped top) := ⟨fun a b => ⟨min (a.value + b.value) top, Nat.min_le_right _ _⟩⟩

@[simp] theorem zero_value : (0 : Capped top).value = 0 := rfl

@[simp] theorem add_value (a b : Capped top) : (a + b).value = min (a.value + b.value) top := rfl

theorem le_iff {a b : Capped top} : a ≤ b ↔ a.value ≤ b.value := Iff.rfl

instance : AddCommMonoid (Capped top) where
  add_assoc a b c := Capped.ext (by simp only [add_value]; omega)
  zero_add a := Capped.ext (by simp [a.within])
  add_zero a := Capped.ext (by simp [a.within])
  add_comm a b := Capped.ext (by simp only [add_value, Nat.add_comm])
  nsmul := nsmulRec

instance : IsOrderedAddMonoid (Capped top) where
  add_le_add_left a b le c := by
    rw [le_iff] at le
    simp only [le_iff, add_value]
    omega

instance : CanonicallyOrderedAdd (Capped top) where
  exists_add_of_le {a b} le := by
    have bound := b.within
    rw [le_iff] at le
    refine ⟨⟨b.value - a.value, by omega⟩, Capped.ext ?_⟩
    simp only [add_value]
    omega
  le_add_self a b := by
    have bound := a.within
    simp only [le_iff, add_value]
    omega
  le_self_add a b := by
    have bound := a.within
    simp only [le_iff, add_value]
    omega

end Capped

def saturate (top : Nat) : Nat →+ Capped top where
  toFun value := ⟨min value top, Nat.min_le_right _ _⟩
  map_zero' := Capped.ext (Nat.zero_min top)
  map_add' a b := Capped.ext (by simp only [Capped.add_value]; omega)

@[simp] theorem saturate_value (top value : Nat) : (saturate top value).value = min value top := rfl

theorem saturate_le {a b : Nat} (le : a ≤ b) : saturate top a ≤ saturate top b := by
  simp only [Capped.le_iff, saturate_value]
  omega

theorem saturate_add (a b : Nat) : saturate top (min (a + b) top) = saturate top a + saturate top b :=
  Capped.ext (by simp only [Capped.add_value, saturate_value]; omega)

end Foundation
