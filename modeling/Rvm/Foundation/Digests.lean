import Mathlib.Data.List.Induction
import Mathlib.Data.Set.Function

/-!
Owns digests of lists: those that are extended one item at a time, and Merkle trees in which
an odd last node is its own sibling; when equal digests come from equal items.
-/

namespace Foundation

universe u v

variable {Digest : Type u} {Item : Type v}

def chainOf (extend : Digest → Item → Digest) (start : Digest) (items : List Item) : Digest :=
  items.foldl extend start

/-- What the extension was applied to. -/
def ChainInput (extend : Digest → Item → Digest) (start : Digest) (items : List Item)
    (input : Digest × Item) : Prop :=
  ∃ before after, items = before ++ input.2 :: after ∧ input.1 = chainOf extend start before

variable {extend : Digest → Item → Digest} {start : Digest} {items first second : List Item}

theorem chainOf_snoc {item : Item} :
    chainOf extend start (items ++ [item]) = extend (chainOf extend start items) item := by
  simp [chainOf]

@[simp]
theorem chainInput_nil {input : Digest × Item} : ¬ChainInput extend start [] input := by
  rintro ⟨before, after, split, _⟩
  simp at split

@[simp]
theorem chainInput_cons {item : Item} {input : Digest × Item} :
    ChainInput extend start (item :: items) input ↔
      input = (start, item) ∨ ChainInput extend (extend start item) items input := by
  constructor
  · rintro ⟨before, after, split, digest⟩
    cases before with
    | nil =>
      obtain ⟨rfl, -⟩ := List.cons.inj split
      exact .inl (Prod.ext digest rfl)
    | cons first before =>
      obtain ⟨rfl, rest⟩ := List.cons.inj split
      exact .inr ⟨before, after, rest, digest⟩
  · rintro (rfl | ⟨before, after, split, digest⟩)
    · exact ⟨[], items, rfl, rfl⟩
    · exact ⟨item :: before, after, by rw [split]; rfl, digest⟩

theorem ChainInput.last {item : Item} :
    ChainInput extend start (items ++ [item]) (chainOf extend start items, item) :=
  ⟨items, [], rfl, rfl⟩

theorem ChainInput.snoc {item : Item} {input : Digest × Item}
    (among : ChainInput extend start items input) :
    ChainInput extend start (items ++ [item]) input := by
  obtain ⟨before, after, split, digest⟩ := among
  exact ⟨before, after ++ [item], by simp [split], digest⟩

/-- Where the extension does not collide among its inputs, equal digests of equally
many items come from equal items. -/
theorem chainOf_injective
    (free : ∀ left right, ChainInput extend start first left →
      ChainInput extend start second right →
      extend left.1 left.2 = extend right.1 right.2 → left = right)
    (sameLength : first.length = second.length)
    (same : chainOf extend start first = chainOf extend start second) : first = second := by
  induction first using List.reverseRecOn generalizing second with
  | nil => exact (List.length_eq_zero_iff.mp sameLength.symm).symm
  | append_singleton first item ih =>
    cases second using List.reverseRecOn with
    | nil => simp at sameLength
    | append_singleton second other =>
      rw [chainOf_snoc, chainOf_snoc] at same
      have inputs := free _ _ ChainInput.last ChainInput.last same
      obtain ⟨digests, rfl⟩ := Prod.mk.inj inputs
      rw [ih (fun left right one other => free left right one.snoc other.snoc)
        (by simpa using sameLength) digests]

end Foundation

namespace Foundation

namespace Merkle

variable {α : Type} {first second level : List α} {join : α × α → α} {rounds : Nat}

def pairs : List α → List (α × α)
  | [] => []
  | [last] => [(last, last)]
  | left :: right :: rest => (left, right) :: pairs rest

def parents (join : α × α → α) (level : List α) : List α := (pairs level).map join

def levels (join : α × α → α) : Nat → List α → List α
  | 0, level => level
  | rounds + 1, level => if level.length > 1 then levels join rounds (parents join level) else level

def joined (join : α × α → α) : Nat → List α → List (α × α)
  | 0, _ => []
  | rounds + 1, level =>
    if level.length > 1 then pairs level ++ joined join rounds (parents join level) else []

theorem length_pairs (level : List α) : (pairs level).length = (level.length + 1) / 2 := by
  induction level using pairs.induct with
  | case1 => simp [pairs]
  | case2 last => simp [pairs]
  | case3 left right rest ih =>
    rw [pairs, List.length_cons, ih, List.length_cons, List.length_cons]
    omega

theorem length_parents (level : List α) : (parents join level).length = (level.length + 1) / 2 := by
  rw [parents, List.length_map, length_pairs]

theorem pairs_injective (lengths : first.length = second.length)
    (same : pairs first = pairs second) : first = second := by
  induction first using pairs.induct generalizing second with
  | case1 => exact (List.eq_nil_of_length_eq_zero lengths.symm).symm
  | case2 last =>
    obtain ⟨other, rfl⟩ := List.length_eq_one_iff.mp lengths.symm
    rw [(Prod.mk.inj (List.cons.inj same).1).1]
  | case3 left right rest ih =>
    match second, lengths, same with
    | other :: another :: others, lengths, same =>
      obtain ⟨here, later⟩ := List.cons.inj same
      obtain ⟨rfl, rfl⟩ := Prod.mk.inj here
      simp only [List.length_cons, Nat.add_right_cancel_iff] at lengths
      rw [ih lengths later]

theorem map_injective {β γ : Type} {image : β → γ} {left right : List β}
    (free : ∀ here ∈ left, ∀ there ∈ right, image here = image there → here = there)
    (same : left.map image = right.map image) : left = right := by
  induction left generalizing right with
  | nil => exact (List.map_eq_nil_iff.mp same.symm).symm
  | cons head rest ih =>
    cases right with
    | nil => cases same
    | cons other others =>
      obtain ⟨here, later⟩ := List.cons.inj same
      rw [free head List.mem_cons_self other List.mem_cons_self here]
      congr 1
      exact ih (fun one member another among =>
        free one (List.mem_cons_of_mem _ member) another (List.mem_cons_of_mem _ among)) later

theorem levels_injective (lengths : first.length = second.length)
    (free : Set.InjOn join { pair | pair ∈ joined join rounds first ++ joined join rounds second })
    (same : levels join rounds first = levels join rounds second) : first = second := by
  induction rounds generalizing first second with
  | zero => exact same
  | succ rounds ih =>
    unfold levels at same
    unfold joined at free
    by_cases more : first.length > 1
    · rw [if_pos more, if_pos (lengths ▸ more)] at same free
      have above : parents join first = parents join second := by
        apply ih _ _ same
        · rw [length_parents, length_parents, lengths]
        · apply free.mono
          intro pair member
          rcases List.mem_append.mp member with left | right
          · exact List.mem_append_left _ (List.mem_append_right _ left)
          · exact List.mem_append_right _ (List.mem_append_right _ right)
      apply pairs_injective lengths
      apply map_injective _ above
      intro pair left other right
      exact free (List.mem_append_left _ (List.mem_append_left _ left))
        (List.mem_append_right _ (List.mem_append_left _ right))
    · rwa [if_neg more, if_neg (lengths ▸ more)] at same

theorem length_levels (nonempty : level ≠ []) (enough : level.length ≤ rounds + 1) :
    (levels join rounds level).length = 1 := by
  have positive := List.length_pos_iff.mpr nonempty
  induction rounds generalizing level with
  | zero => exact Nat.le_antisymm enough positive
  | succ rounds ih =>
    unfold levels
    split
    · rename_i more
      have shrunk := @length_parents _ join level
      have left : 0 < (parents join level).length := by omega
      exact ih (List.length_pos_iff.mp left) (by omega) left
    · omega

end Merkle

end Foundation
