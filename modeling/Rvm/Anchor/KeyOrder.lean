import Mathlib.Data.List.Lex
import Rvm.Anchor.Tokens

/-!
Owns the key order of canonical texts: UTF-16 is one text's only, so the order is
total on keys, and pairs with distinct keys have one sorted list.
-/

namespace Rvm.Anchor

open List

theorem utf16Units_ne_nil (char : Char) : utf16Units char ≠ [] := by
  unfold utf16Units
  split <;> simp

theorem utf16Units_prefix {left right : Char} {afterLeft afterRight : List Nat}
    (same : utf16Units left ++ afterLeft = utf16Units right ++ afterRight) :
    left = right ∧ afterLeft = afterRight := by
  have validLeft := toNat_valid left
  have validRight := toNat_valid right
  rw [← Char.toNat_inj]
  unfold utf16Units at same
  split at same <;> split at same <;>
    simp only [cons_append, nil_append, List.cons.injEq] at same
  · exact same
  · omega
  · omega
  · obtain ⟨high, low, after⟩ := same
    exact ⟨by omega, after⟩

theorem encodeUtf16_injective {left right : List Char}
    (same : encodeUtf16 left = encodeUtf16 right) : left = right := by
  unfold encodeUtf16 at same
  induction left generalizing right with
  | nil =>
    cases right with
    | nil => rfl
    | cons char others =>
      exact absurd (append_eq_nil_iff.mp same.symm).1 (utf16Units_ne_nil char)
  | cons char others ih =>
    cases right with
    | nil => exact absurd (append_eq_nil_iff.mp same).1 (utf16Units_ne_nil char)
    | cons first later =>
      rw [flatMap_cons, flatMap_cons] at same
      obtain ⟨rfl, rest⟩ := utf16Units_prefix same
      rw [ih rest]

theorem utf16Cmp_ne_gt {left right : List Char} :
    utf16Cmp left right ≠ .gt ↔ encodeUtf16 left ≤ encodeUtf16 right := by
  unfold utf16Cmp compareOfLessAndEq
  split
  case isTrue below => simp [below.le]
  case isFalse notBelow =>
    split
    case isTrue same => simp [same]
    case isFalse different => simp [lt_of_le_of_ne (not_lt.mp notBelow) (Ne.symm different)]

section Sorting

variable {α β : Type}

theorem keyLe_iff {left right : List Char × α} :
    KeyLe left right ↔ encodeUtf16 left.1 ≤ encodeUtf16 right.1 := utf16Cmp_ne_gt

instance : Std.Total (@KeyLe α) where
  total left right := by
    rw [keyLe_iff, keyLe_iff]
    exact le_total _ _

instance : IsTrans (List Char × α) KeyLe where
  trans left middle right := by
    rw [keyLe_iff, keyLe_iff, keyLe_iff]
    exact le_trans

theorem sortByKey_perm (pairs : List (List Char × α)) : (sortByKey pairs).Perm pairs :=
  perm_insertionSort KeyLe pairs

theorem mem_sortByKey {pairs : List (List Char × α)} {pair : List Char × α} :
    pair ∈ sortByKey pairs ↔ pair ∈ pairs := (sortByKey_perm pairs).mem_iff

theorem sortByKey_map (change : α → β) (pairs : List (List Char × α)) :
    sortByKey (pairs.map fun pair => (pair.1, change pair.2)) =
      (sortByKey pairs).map fun pair => (pair.1, change pair.2) :=
  (map_insertionSort KeyLe KeyLe (fun pair => (pair.1, change pair.2)) pairs
    fun _ _ _ _ => Iff.rfl).symm

theorem sortByKey_eq_of_perm {pairs others : List (List Char × α)} (order : pairs.Perm others)
    (distinct : (pairs.map Prod.fst).Nodup) : sortByKey pairs = sortByKey others := by
  have rearranged : (sortByKey pairs).Perm (sortByKey others) :=
    ((sortByKey_perm pairs).trans order).trans (sortByKey_perm others).symm
  refine rearranged.eq_of_pairwise (fun left right memLeft memRight below above => ?_)
    (pairwise_insertionSort KeyLe pairs) (pairwise_insertionSort KeyLe others)
  have sameKey := encodeUtf16_injective (le_antisymm (keyLe_iff.mp below) (keyLe_iff.mp above))
  exact inj_on_of_nodup_map distinct (mem_sortByKey.mp memLeft)
    (order.mem_iff.mpr (mem_sortByKey.mp memRight)) sameKey

end Sorting

end Rvm.Anchor
