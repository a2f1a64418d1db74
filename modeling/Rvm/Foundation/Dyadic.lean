import Mathlib.Algebra.BigOperators.Group.Finset.Piecewise
import Mathlib.Data.Nat.Bitwise
import Mathlib.Order.Interval.Finset.Nat
import Mathlib.Tactic.Ring

/-!
Owns tilings of an interval of pages by dyadic blocks: the block of order `k` and index `j`
covers the pages `j * 2 ^ k` up to `(j + 1) * 2 ^ k`. Splitting and merging keep a tiling.
-/

namespace Foundation.Dyadic

open List

structure Block where
  order : Nat
  index : Nat
deriving DecidableEq, Repr

namespace Block

def size (block : Block) : Nat := 2 ^ block.order

def first (block : Block) : Nat := block.index * block.size

def covers (block : Block) (page : Nat) : Bool := page / block.size == block.index

def Inside (total : Nat) (block : Block) : Prop := (block.index + 1) * block.size ≤ total

instance (total : Nat) (block : Block) : Decidable (block.Inside total) :=
  inferInstanceAs (Decidable (_ ≤ _))

def left (block : Block) : Block := ⟨block.order - 1, 2 * block.index⟩

def right (block : Block) : Block := ⟨block.order - 1, 2 * block.index + 1⟩

theorem size_pos (block : Block) : 0 < block.size := Nat.two_pow_pos _

variable {block : Block} {total : Nat}

theorem covers_iff {page : Nat} :
    block.covers page = true ↔ block.first ≤ page ∧ page < block.first + block.size := by
  have pos := block.size_pos
  rw [covers, beq_iff_eq, Nat.div_eq_iff pos, first]
  generalize block.index * block.size = start
  omega

theorem covers_first (block : Block) : block.covers block.first = true := by
  have pos := block.size_pos
  apply covers_iff.mpr
  omega

theorem first_lt (inside : block.Inside total) : block.first < total := by
  have pos := block.size_pos
  have expand : (block.index + 1) * block.size = block.index * block.size + block.size :=
    Nat.succ_mul _ _
  unfold Inside at inside
  unfold first
  omega

theorem lt_of_covers {page : Nat} (inside : block.Inside total)
    (covered : block.covers page = true) : page < total := by
  have bounds := covers_iff.mp covered
  have expand : (block.index + 1) * block.size = block.index * block.size + block.size :=
    Nat.succ_mul _ _
  unfold Inside at inside
  unfold first at bounds
  omega

theorem size_eq (positive : 0 < block.order) : block.size = 2 * 2 ^ (block.order - 1) := by
  unfold size
  rw [← Nat.pow_succ']
  congr 1
  omega

theorem covers_split (positive : 0 < block.order) (page : Nat) :
    (if block.covers page then 1 else 0) =
      (if block.left.covers page then 1 else 0) + (if block.right.covers page then 1 else 0) := by
  have halves := size_eq positive
  have firstEq : block.first = block.index * (2 * 2 ^ (block.order - 1)) := by
    rw [first, halves]
  have leftFirst : block.left.first = block.index * (2 * 2 ^ (block.order - 1)) := by
    simp only [first, size, left]
    ring
  have rightFirst : block.right.first =
      block.index * (2 * 2 ^ (block.order - 1)) + 2 ^ (block.order - 1) := by
    simp only [first, size, right]
    ring
  have leftSize : block.left.size = 2 ^ (block.order - 1) := rfl
  have rightSize : block.right.size = 2 ^ (block.order - 1) := rfl
  simp only [covers_iff, firstEq, leftFirst, rightFirst, leftSize, rightSize, halves]
  split_ifs <;> omega

theorem inside_split (positive : 0 < block.order) :
    block.Inside total ↔ block.left.Inside total ∧ block.right.Inside total := by
  have halves := size_eq positive
  have whole : (block.index + 1) * block.size = (2 * block.index + 1 + 1) * 2 ^ (block.order - 1) := by
    rw [halves]
    ring
  have less : (2 * block.index + 1) * 2 ^ (block.order - 1) ≤
      (2 * block.index + 1 + 1) * 2 ^ (block.order - 1) :=
    Nat.mul_le_mul_right _ (Nat.le_succ _)
  simp only [Inside, left, right, size] at whole ⊢
  rw [whole]
  constructor
  · intro within
    exact ⟨less.trans within, within⟩
  · exact And.right

end Block

structure Tiling (total : Nat) (blocks : List Block) : Prop where
  inside : ∀ block ∈ blocks, block.Inside total
  once : ∀ page, page < total → (blocks.countP fun block => block.covers page) = 1

variable {total : Nat} {block other : Block} {blocks rest : List Block}

theorem Tiling.perm (tiling : Tiling total blocks) (permuted : blocks.Perm rest) :
    Tiling total rest where
  inside := fun block member => tiling.inside block (permuted.mem_iff.mpr member)
  once := fun page below => by rw [← permuted.countP_eq, tiling.once page below]

theorem tiling_split (positive : 0 < block.order) :
    Tiling total (block :: rest) ↔ Tiling total (block.left :: block.right :: rest) := by
  have sameCount : ∀ page, (block :: rest).countP (fun block => block.covers page) =
      (block.left :: block.right :: rest).countP fun block => block.covers page := by
    intro page
    have split := Block.covers_split positive page
    simp only [countP_cons]
    omega
  have sameInside : (∀ member ∈ block :: rest, member.Inside total) ↔
      ∀ member ∈ block.left :: block.right :: rest, member.Inside total := by
    simp only [forall_mem_cons, Block.inside_split positive, and_assoc]
  constructor
  · intro tiling
    exact ⟨sameInside.mp tiling.inside, fun page below => sameCount page ▸ tiling.once page below⟩
  · intro tiling
    exact ⟨sameInside.mpr tiling.inside,
      fun page below => (sameCount page).trans (tiling.once page below)⟩

theorem tiling_uniform {order : Nat} (divides : 2 ^ order ∣ total) :
    Tiling total ((List.range (total / 2 ^ order)).map (Block.mk order)) where
  inside := by
    intro block member
    obtain ⟨index, below, rfl⟩ := mem_map.mp member
    exact (Nat.le_div_iff_mul_le (Nat.two_pow_pos order)).mp (mem_range.mp below)
  once := by
    intro page below
    have within : page / 2 ^ order < total / 2 ^ order := by
      obtain ⟨quotient, rfl⟩ := divides
      rw [Nat.mul_div_cancel_left _ (Nat.two_pow_pos order)]
      exact Nat.div_lt_of_lt_mul below
    have sameCount : (List.range (total / 2 ^ order)).countP
        ((fun block : Block => block.covers page) ∘ Block.mk order) =
        (List.range (total / 2 ^ order)).count (page / 2 ^ order) := by
      refine countP_congr fun index _ => ?_
      simp only [Function.comp_apply, Block.covers, Block.size, beq_iff_eq]
      exact eq_comm
    rw [countP_map, sameCount]
    exact count_eq_one_of_mem nodup_range (mem_range.mpr within)

theorem Tiling.apart (tiling : Tiling total (block :: rest)) (member : other ∈ rest) (page : Nat) :
    ¬ (block.covers page = true ∧ other.covers page = true) := by
  rintro ⟨first, second⟩
  have inside : block.Inside total := tiling.inside block (by simp)
  have below := Block.lt_of_covers inside first
  have counted := tiling.once page below
  have positive : 0 < rest.countP fun block => block.covers page :=
    countP_pos_iff.mpr ⟨other, member, second⟩
  rw [countP_cons, if_pos first] at counted
  omega

theorem Tiling.tail_pairwise (tiling : Tiling total (rest ++ blocks)) :
    blocks.Pairwise fun left right =>
      left.first + left.size ≤ right.first ∨ right.first + right.size ≤ left.first := by
  induction blocks generalizing rest with
  | nil => exact .nil
  | cons block blocks ih =>
    refine pairwise_cons.mpr ⟨fun other member => ?_, ?_⟩
    · have front : Tiling total (block :: (rest ++ blocks)) := tiling.perm perm_middle
      by_contra overlapping
      have blockPos := block.size_pos
      have otherPos := other.size_pos
      -- The later of the two first pages would be covered twice.
      have shared := front.apart (mem_append_right rest member) (max block.first other.first)
      simp only [Block.covers_iff] at shared
      omega
    · apply @ih (rest ++ [block])
      simpa using tiling

theorem Block.card_covered (inside : block.Inside total) :
    ((Finset.range total).filter fun page => block.covers page = true).card = block.size := by
  have expand : (block.index + 1) * block.size = block.index * block.size + block.size :=
    Nat.succ_mul _ _
  have interval : (Finset.range total).filter (fun page => block.covers page = true) =
      Finset.Ico block.first (block.first + block.size) := by
    ext page
    unfold Block.Inside at inside
    simp only [Finset.mem_filter, Finset.mem_range, Block.covers_iff, Finset.mem_Ico, Block.first]
    omega
  rw [interval, Nat.card_Ico]
  omega

theorem sum_countP (inside : ∀ block ∈ blocks, block.Inside total) :
    ∑ page ∈ Finset.range total, (blocks.countP fun block => block.covers page) =
      (blocks.map Block.size).sum := by
  induction blocks with
  | nil => simp
  | cons block blocks ih =>
    have blockInside : block.Inside total := inside block (by simp)
    have restInside : ∀ other ∈ blocks, other.Inside total :=
      fun other member => inside other (mem_cons_of_mem _ member)
    simp only [countP_cons, map_cons, sum_cons, Finset.sum_add_distrib]
    rw [ih restInside, ← Finset.card_filter, Block.card_covered blockInside]
    omega

theorem Tiling.sum_size (tiling : Tiling total blocks) : (blocks.map Block.size).sum = total := by
  rw [← sum_countP tiling.inside,
    Finset.sum_congr rfl fun page member => tiling.once page (Finset.mem_range.mp member)]
  simp

namespace Block

/-- The other half of the parent. -/
def buddy (block : Block) : Block := ⟨block.order, block.index ^^^ 1⟩

def up (block : Block) (levels : Nat) : Block := ⟨block.order + levels, block.index / 2 ^ levels⟩

@[simp] theorem up_zero (block : Block) : block.up 0 = block := by
  simp [up]

variable {block : Block}

theorem covers_up {page : Nat} (covered : block.covers page = true) (levels : Nat) :
    (block.up levels).covers page = true := by
  rw [covers, beq_iff_eq, size] at covered ⊢
  simp only [up]
  rw [Nat.pow_add, ← Nat.div_div_eq_div_mul, covered]

theorem eq_up {other : Block} (larger : block.order ≤ other.order)
    (covered : other.covers block.first = true) : other = block.up (other.order - block.order) := by
  obtain ⟨levels, sum⟩ := Nat.exists_eq_add_of_le larger
  cases other with
  | mk order index =>
    dsimp only at sum larger ⊢
    subst sum
    rw [covers, beq_iff_eq, size, first, size] at covered
    dsimp only at covered
    rw [Nat.pow_add, ← Nat.div_div_eq_div_mul, Nat.mul_div_cancel _ (Nat.two_pow_pos _)] at covered
    rw [up, Nat.add_sub_cancel_left, covered]

theorem buddy_left_right (order index : Nat) :
    (⟨order, 2 * index⟩ : Block).buddy = ⟨order, 2 * index + 1⟩ := by
  rw [buddy, Nat.xor_one_of_even (even_two_mul index)]

theorem buddy_buddy (block : Block) : block.buddy.buddy = block := by
  simp [buddy]

theorem buddy_ne (block : Block) : block.buddy ≠ block := by
  intro same
  have sameIndex : block.index ^^^ 1 = block.index := congrArg Block.index same
  rcases Nat.even_or_odd block.index with even | odd
  · rw [Nat.xor_one_of_even even] at sameIndex
    omega
  · have positive := Nat.odd_iff.mp odd
    rw [Nat.xor_one_of_odd odd] at sameIndex
    omega

theorem up_left (order index levels : Nat) :
    (⟨order, 2 * index⟩ : Block).up (levels + 1) = (⟨order + 1, index⟩ : Block).up levels := by
  simp only [up, mk.injEq]
  refine ⟨by omega, ?_⟩
  rw [Nat.pow_succ', ← Nat.div_div_eq_div_mul, Nat.mul_div_cancel_left _ (by decide)]

theorem up_right (order index levels : Nat) :
    (⟨order, 2 * index + 1⟩ : Block).up (levels + 1) = (⟨order + 1, index⟩ : Block).up levels := by
  simp only [up, mk.injEq]
  refine ⟨by omega, ?_⟩
  rw [Nat.pow_succ', ← Nat.div_div_eq_div_mul]
  congr 1
  omega

theorem inside_up {total levels : Nat} (inside : block.Inside total)
    (divides : 2 ^ (block.order + levels) ∣ total) : (block.up levels).Inside total := by
  obtain ⟨quotient, rfl⟩ := divides
  have below := first_lt inside
  rw [first, size, Nat.pow_add, Nat.mul_assoc, Nat.mul_comm] at below
  have index := Nat.div_lt_of_lt_mul (Nat.lt_of_mul_lt_mul_left below)
  rw [Inside, up, size, Nat.mul_comm]
  exact Nat.mul_le_mul_left _ index

end Block

def Merged (top : Nat) (marked : Block → Prop) : Prop :=
  ∀ block, block.order < top → marked block → ¬marked block.buddy

def Covered (marked : Block → Prop) (page : Nat) : Prop :=
  ∃ block, marked block ∧ block.covers page = true

/-- Of a covered block, the block or one above it is marked: each half has one,
and if both halves had only themselves they would be marked buddies. -/
theorem Merged.exists_up {top : Nat} {marked : Block → Prop} (merged : Merged top marked)
    {order index : Nat} (below : order ≤ top)
    (covered : ∀ page, (⟨order, index⟩ : Block).covers page = true → Covered marked page) :
    ∃ levels, marked ((⟨order, index⟩ : Block).up levels) := by
  induction order generalizing index with
  | zero =>
    have itself : (⟨0, index⟩ : Block).covers index = true := by simp [Block.covers, Block.size]
    obtain ⟨other, isMarked, covers⟩ := covered index itself
    have first : other.covers (⟨0, index⟩ : Block).first = true := by
      simpa [Block.first, Block.size] using covers
    have isUp := Block.eq_up (Nat.zero_le other.order) first
    exact ⟨other.order - 0, isUp ▸ isMarked⟩
  | succ order ih =>
    have leftHas : ∃ levels, marked ((⟨order, 2 * index⟩ : Block).up levels) := by
      apply ih (by omega)
      intro page isLeft
      apply covered
      have above := Block.covers_up isLeft 1
      rwa [Block.up_left, Block.up_zero] at above
    have rightHas : ∃ levels, marked ((⟨order, 2 * index + 1⟩ : Block).up levels) := by
      apply ih (by omega)
      intro page isRight
      apply covered
      have above := Block.covers_up isRight 1
      rwa [Block.up_right, Block.up_zero] at above
    obtain ⟨leftLevels, leftMarked⟩ := leftHas
    obtain ⟨rightLevels, rightMarked⟩ := rightHas
    cases leftLevels with
    | succ levels => exact ⟨levels, Block.up_left order index levels ▸ leftMarked⟩
    | zero =>
      cases rightLevels with
      | succ levels => exact ⟨levels, Block.up_right order index levels ▸ rightMarked⟩
      | zero =>
        rw [Block.up_zero] at leftMarked rightMarked
        have apart := merged ⟨order, 2 * index⟩ below leftMarked
        rw [Block.buddy_left_right] at apart
        exact absurd rightMarked apart

theorem Tiling.mem_iff_of_merged {top : Nat} (tiling : Tiling total blocks)
    (merged : Merged top (· ∈ blocks)) (bounded : ∀ block ∈ blocks, block.order ≤ top)
    (divides : 2 ^ top ∣ total) (block : Block) :
    block ∈ blocks ↔ block.order = top ∧ block.Inside total := by
  have whole : ∀ index, (⟨top, index⟩ : Block).Inside total → (⟨top, index⟩ : Block) ∈ blocks := by
    intro index inside
    have covered : ∀ page, (⟨top, index⟩ : Block).covers page = true → Covered (· ∈ blocks) page := by
      intro page covers
      have counted := tiling.once page (Block.lt_of_covers inside covers)
      exact countP_pos_iff.mp (by omega)
    obtain ⟨levels, member⟩ := merged.exists_up (Nat.le_refl top) covered
    have noLevels : levels = 0 := by
      have le : top + levels ≤ top := bounded _ member
      omega
    rwa [noLevels, Block.up_zero] at member
  constructor
  · intro member
    have inside := tiling.inside block member
    refine ⟨Nat.le_antisymm (bounded block member) (Nat.not_lt.mp fun lower => ?_), inside⟩
    -- The block of the top order above would cover the same page.
    have reach : block.order + (top - block.order) = top := by omega
    have above : block.up (top - block.order) ∈ blocks := by
      have upInside : (block.up (top - block.order)).Inside total :=
        Block.inside_up inside (reach.symm ▸ divides)
      rw [Block.up, reach] at upInside ⊢
      exact whole _ upInside
    have different : block.up (top - block.order) ≠ block := by
      intro same
      have sameOrder := congrArg Block.order same
      simp only [Block.up] at sameOrder
      omega
    exact (tiling.perm (perm_cons_erase member)).apart
      ((mem_erase_of_ne different).mpr above) block.first
      ⟨block.covers_first, Block.covers_up block.covers_first _⟩
  · rintro ⟨rfl, inside⟩
    exact whole block.index inside

end Foundation.Dyadic
