import Mathlib.Data.List.Infix

/-!
Owns the prefixes of a pattern that end a text: the longest one below a bound,
how it is found from a longer prefix and how it grows with the text, and the
count of a pattern's occurrences.
-/

namespace Foundation

open List

universe u

variable {α : Type u} {pattern text : List α} {bound j k : Nat} {byte : α}

/-- The longest prefix below the bound that ends the text has length `k`. -/
structure Border (pattern : List α) (bound : Nat) (text : List α) (k : Nat) : Prop where
  below : k < bound
  ends : pattern.take k <:+ text
  longest : ∀ j < bound, pattern.take j <:+ text → j ≤ k

/-- No prefix longer than `k` is continued by the byte. -/
structure Continuing (pattern : List α) (bound : Nat) (text : List α) (byte : α) (k : Nat) :
    Prop where
  below : k < bound
  ends : pattern.take k <:+ text
  longest : ∀ j < bound, pattern.take j <:+ text → pattern[j]? = some byte → j ≤ k

theorem Border.continuing (border : Border pattern bound text k) :
    Continuing pattern bound text byte k :=
  ⟨border.below, border.ends, fun j below ends _ => border.longest j below ends⟩

theorem take_suffix_take (shorter : j ≤ k) (ends : pattern.take j <:+ text)
    (longer : pattern.take k <:+ text) : pattern.take j <:+ pattern.take k := by
  apply suffix_of_suffix_length_le ends longer
  rw [length_take, length_take]
  omega

theorem Continuing.fall (continuing : Continuing pattern bound text byte k)
    (refused : pattern[k]? ≠ some byte) (border : Border pattern k (pattern.take k) j) :
    Continuing pattern bound text byte j where
  below := border.below.trans continuing.below
  ends := border.ends.trans continuing.ends
  longest i below ends continues := by
    have shorter := continuing.longest i below ends continues
    have apart : i ≠ k := fun same => refused (same ▸ continues)
    exact border.longest i (by omega) (take_suffix_take shorter ends continuing.ends)

theorem take_succ_suffix (inside : k < pattern.length) :
    pattern.take (k + 1) <:+ text ++ [byte] ↔
      pattern.take k <:+ text ∧ pattern[k]? = some byte := by
  rw [take_succ_eq_append_getElem inside, List.getElem?_eq_getElem inside, Option.some.injEq]
  constructor
  · rintro ⟨before, whole⟩
    rw [← append_assoc] at whole
    obtain ⟨sameText, sameByte⟩ := append_inj' whole rfl
    exact ⟨⟨before, sameText⟩, singleton_inj.mp sameByte⟩
  · rintro ⟨⟨before, rfl⟩, rfl⟩
    exact ⟨before, (append_assoc _ _ _).symm⟩

theorem Continuing.grow (continuing : Continuing pattern bound text byte k)
    (within : bound ≤ pattern.length) (continues : pattern[k]? = some byte) :
    Border pattern (bound + 1) (text ++ [byte]) (k + 1) where
  below := Nat.succ_lt_succ continuing.below
  ends := (take_succ_suffix (continuing.below.trans_le within)).mpr ⟨continuing.ends, continues⟩
  longest j below ends := by
    cases j with
    | zero => omega
    | succ j =>
      obtain ⟨earlier, same⟩ := (take_succ_suffix (by omega)).mp ends
      exact Nat.succ_le_succ (continuing.longest j (by omega) earlier same)

theorem Continuing.stay (continuing : Continuing pattern bound text byte 0)
    (within : bound ≤ pattern.length) (refused : pattern[0]? ≠ some byte) :
    Border pattern (bound + 1) (text ++ [byte]) 0 where
  below := Nat.succ_pos bound
  ends := nil_suffix
  longest j below ends := by
    cases j with
    | zero => exact Nat.le_refl 0
    | succ j =>
      obtain ⟨earlier, same⟩ := (take_succ_suffix (by omega)).mp ends
      obtain rfl := Nat.le_zero.mp (continuing.longest j (by omega) earlier same)
      exact absurd same refused

theorem Border.lower (border : Border pattern (bound + 1) text k) (below : k < bound) :
    Border pattern bound text k :=
  ⟨below, border.ends, fun j lower ends => border.longest j (by omega) ends⟩

theorem Border.fall (border : Border pattern (k + 1) text k)
    (own : Border pattern k (pattern.take k) j) : Border pattern k text j where
  below := own.below
  ends := own.ends.trans border.ends
  longest i below ends := own.longest i below (take_suffix_take below.le ends border.ends)

variable [BEq α]

/-- The number of positions of the text at which an occurrence of the pattern ends. -/
def occurrences (pattern text : List α) : Nat := text.inits.countP pattern.isSuffixOf

theorem occurrences_snoc : occurrences pattern (text ++ [byte]) =
    occurrences pattern text + if pattern.isSuffixOf (text ++ [byte]) then 1 else 0 := by
  simp [occurrences, inits_append, countP_append]

theorem occurrences_of_short [LawfulBEq α] (short : text.length < pattern.length) :
    occurrences pattern text = 0 := by
  rw [occurrences, countP_eq_zero]
  intro start member occurs
  have whole := (isSuffixOf_iff_suffix.mp occurs).length_le
  have within := ((mem_inits _ _).mp member).length_le
  omega

end Foundation
