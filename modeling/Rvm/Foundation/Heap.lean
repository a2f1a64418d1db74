import Mathlib.Data.Multiset.Range

/-!
Owns binary max-heaps in the first cells of an array: the multiset of their
values, the heap order, and what one exchange with a parent or a child does to
each.
-/

namespace Foundation.Heap

open Multiset Function Equiv

universe u

variable {α : Type u} {cells : Nat → α} {len i j : Nat}

def contents (cells : Nat → α) (len : Nat) : Multiset α := (Multiset.range len).map cells

def exchange (cells : Nat → α) (i j : Nat) : Nat → α :=
  update (update cells i (cells j)) j (cells i)

theorem exchange_apply (cells : Nat → α) (i j k : Nat) :
    exchange cells i j k = cells (swap i j k) := by
  unfold exchange
  by_cases atSecond : k = j
  · rw [atSecond, update_self, swap_apply_right]
  · rw [update_of_ne atSecond]
    by_cases atFirst : k = i
    · rw [atFirst, update_self, swap_apply_left]
    · rw [update_of_ne atFirst, swap_apply_of_ne_of_ne atFirst atSecond]

@[simp] theorem exchange_left (cells : Nat → α) (i j : Nat) : exchange cells i j i = cells j := by
  rw [exchange_apply, swap_apply_left]

@[simp] theorem exchange_right (cells : Nat → α) (i j : Nat) : exchange cells i j j = cells i := by
  rw [exchange_apply, swap_apply_right]

theorem exchange_of_ne {k : Nat} (notFirst : k ≠ i) (notSecond : k ≠ j) :
    exchange cells i j k = cells k := by
  rw [exchange_apply, swap_apply_of_ne_of_ne notFirst notSecond]

theorem contents_succ (cells : Nat → α) (len : Nat) :
    contents cells (len + 1) = cells len ::ₘ contents cells len := by
  rw [contents, range_succ, map_cons, contents]

theorem mem_contents {value : α} : value ∈ contents cells len ↔ ∃ i, i < len ∧ cells i = value := by
  rw [contents, mem_map]
  simp only [mem_range]

theorem contents_congr {other : Nat → α} (same : ∀ i, i < len → other i = cells i) :
    contents other len = contents cells len :=
  map_congr rfl fun i inside => same i (mem_range.mp inside)

theorem swap_lt {k : Nat} (iInside : i < len) (jInside : j < len) (inside : k < len) :
    swap i j k < len := by
  rw [swap_apply_def]
  split
  · exact jInside
  · split
    · exact iInside
    · exact inside

theorem contents_exchange (iInside : i < len) (jInside : j < len) :
    contents (exchange cells i j) len = contents cells len := by
  have permuted : (Multiset.range len).map (swap i j) = Multiset.range len := by
    refine Multiset.Nodup.ext ((nodup_range len).map (swap i j).injective)
      (nodup_range len) |>.mpr fun k => ?_
    rw [mem_map, mem_range]
    constructor
    · rintro ⟨before, inside, rfl⟩
      exact swap_lt iInside jInside (mem_range.mp inside)
    · intro inside
      exact ⟨swap i j k, mem_range.mpr (swap_lt iInside jInside inside), swap_apply_self i j k⟩
  calc contents (exchange cells i j) len
      = (Multiset.range len).map (cells ∘ swap i j) :=
        map_congr rfl fun k _ => exchange_apply cells i j k
    _ = ((Multiset.range len).map (swap i j)).map cells := (map_map _ _ _).symm
    _ = contents cells len := by rw [permuted, contents]

theorem contents_replaceRoot [DecidableEq α] (cells : Nat → α) (len : Nat) :
    contents (update cells 0 (cells len)) len = (contents cells (len + 1)).erase (cells 0) := by
  have exchanged : contents (exchange cells 0 len) (len + 1) = contents cells (len + 1) :=
    contents_exchange (Nat.succ_pos len) (Nat.lt_succ_self len)
  rw [contents_succ, exchange_right] at exchanged
  rw [← exchanged, erase_cons_head]
  apply contents_congr
  intro k below
  rw [exchange, update_of_ne (Nat.ne_of_lt below)]

section Order

variable {key : α → Nat}

def parent (i : Nat) : Nat := (i - 1) / 2

theorem parent_lt (positive : 0 < i) : parent i < i := by
  unfold parent
  omega

def Ordered (key : α → Nat) (cells : Nat → α) (len : Nat) : Prop :=
  ∀ i, 0 < i → i < len → key (cells i) ≤ key (cells (parent i))

structure OrderedBelow (key : α → Nat) (cells : Nat → α) (len pos : Nat) : Prop where
  others : ∀ i, 0 < i → i < len → i ≠ pos → key (cells i) ≤ key (cells (parent i))
  across : ∀ i, 0 < i → i < len → 0 < pos → parent i = pos →
    key (cells i) ≤ key (cells (parent pos))

/-- Ordered, except that `pos` may be less than its children. -/
structure OrderedAbove (key : α → Nat) (cells : Nat → α) (len pos : Nat) : Prop where
  others : ∀ i, 0 < i → i < len → parent i ≠ pos → key (cells i) ≤ key (cells (parent i))
  across : ∀ i, 0 < i → i < len → 0 < pos → parent i = pos →
    key (cells i) ≤ key (cells (parent pos))

theorem Ordered.le_root (ordered : Ordered key cells len) (inside : i < len) :
    key (cells i) ≤ key (cells 0) := by
  induction i using Nat.strongRecOn with
  | ind i ih =>
    rcases Nat.eq_zero_or_pos i with rfl | positive
    · exact le_refl _
    · have smaller := parent_lt positive
      calc key (cells i) ≤ key (cells (parent i)) := ordered i positive inside
        _ ≤ key (cells 0) := ih (parent i) smaller (by omega)

theorem Ordered.append (ordered : Ordered key cells len) (value : α) :
    OrderedBelow key (update cells len value) (len + 1) len where
  others i positive inside apart := by
    have smaller := parent_lt positive
    rw [update_of_ne apart, update_of_ne (by omega)]
    exact ordered i positive (by omega)
  across i positive inside _ child := by
    have smaller := parent_lt positive
    omega

theorem OrderedBelow.ordered {pos : Nat} (below : OrderedBelow key cells len pos)
    (settled : 0 < pos → key (cells pos) ≤ key (cells (parent pos))) : Ordered key cells len := by
  intro i positive inside
  by_cases here : i = pos
  · subst here
    exact settled positive
  · exact below.others i positive inside here

theorem OrderedBelow.rise {pos : Nat} (below : OrderedBelow key cells len pos) (positive : 0 < pos)
    (greater : key (cells (parent pos)) < key (cells pos)) (inside : pos < len) :
    OrderedBelow key (exchange cells pos (parent pos)) len (parent pos) := by
  have smaller := parent_lt positive
  constructor
  · intro i iPositive iInside apart
    by_cases here : i = pos
    · rw [here, exchange_left, exchange_right]
      exact Nat.le_of_lt greater
    · rw [exchange_of_ne here apart]
      by_cases sibling : parent i = parent pos
      · rw [sibling, exchange_right]
        exact (sibling ▸ below.others i iPositive iInside here).trans (Nat.le_of_lt greater)
      · by_cases child : parent i = pos
        · rw [child, exchange_left]
          exact below.across i iPositive iInside positive child
        · rw [exchange_of_ne child sibling]
          exact below.others i iPositive iInside here
  · intro i iPositive iInside parentPositive sibling
    have upper := below.others (parent pos) parentPositive (by omega) (by omega)
    have higher := parent_lt parentPositive
    rw [exchange_of_ne (show parent (parent pos) ≠ pos by omega) (by omega)]
    by_cases here : i = pos
    · rw [here, exchange_left]
      exact upper
    · have apart : i ≠ parent pos := fun same => by
        have := parent_lt iPositive
        omega
      rw [exchange_of_ne here apart]
      exact (sibling ▸ below.others i iPositive iInside here).trans upper

theorem Ordered.replaceRoot (ordered : Ordered key cells len) (value : α) :
    OrderedAbove key (update cells 0 value) len 0 where
  others i positive inside apart := by
    rw [update_of_ne (Nat.ne_of_gt positive), update_of_ne apart]
    exact ordered i positive inside
  across _ _ _ positive := absurd positive (lt_irrefl 0)

theorem OrderedAbove.ordered {pos : Nat} (above : OrderedAbove key cells len pos)
    (settled : ∀ i, 0 < i → i < len → parent i = pos → key (cells i) ≤ key (cells pos)) :
    Ordered key cells len := by
  intro i positive inside
  by_cases child : parent i = pos
  · rw [child]
    exact settled i positive inside child
  · exact above.others i positive inside child

theorem Ordered.mono {shorter : Nat} (ordered : Ordered key cells len) (le : shorter ≤ len) :
    Ordered key cells shorter :=
  fun i positive inside => ordered i positive (Nat.lt_of_lt_of_le inside le)

theorem OrderedAbove.congr {other : Nat → α} {pos : Nat} (above : OrderedAbove key cells len pos)
    (same : ∀ i, i < len → other i = cells i) : OrderedAbove key other len pos where
  others i positive inside apart := by
    rw [same i inside, same (parent i) (Nat.lt_trans (parent_lt positive) inside)]
    exact above.others i positive inside apart
  across i positive inside posPositive child := by
    have posInside : pos < len := Nat.lt_trans (child ▸ parent_lt positive) inside
    rw [same i inside, same (parent pos) (Nat.lt_trans (parent_lt posPositive) posInside)]
    exact above.across i positive inside posPositive child

theorem OrderedAbove.sink {pos child : Nat} (above : OrderedAbove key cells len pos)
    (positive : 0 < child) (inside : child < len) (isChild : parent child = pos)
    (greatest : ∀ i, 0 < i → i < len → parent i = pos → key (cells i) ≤ key (cells child))
    (greater : key (cells pos) < key (cells child)) :
    OrderedAbove key (exchange cells pos child) len child := by
  have lower : pos < child := isChild ▸ parent_lt positive
  constructor
  · intro i iPositive iInside notBelow
    by_cases atChild : i = child
    · rw [atChild, exchange_right, isChild, exchange_left]
      exact Nat.le_of_lt greater
    · by_cases here : i = pos
      · have higher : parent pos < pos := parent_lt (here ▸ iPositive)
        rw [here, exchange_left, exchange_of_ne (by omega) (by omega)]
        exact above.across child positive inside (here ▸ iPositive) isChild
      · rw [exchange_of_ne here atChild]
        by_cases sibling : parent i = pos
        · rw [sibling, exchange_left]
          exact greatest i iPositive iInside sibling
        · rw [exchange_of_ne sibling notBelow]
          exact above.others i iPositive iInside sibling
  · intro i iPositive iInside _ grandchild
    have deeper : child < i := grandchild ▸ parent_lt iPositive
    rw [isChild, exchange_left, exchange_of_ne (by omega) (by omega)]
    exact grandchild ▸ above.others i iPositive iInside (by omega)

end Order

end Foundation.Heap
