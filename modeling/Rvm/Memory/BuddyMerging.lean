import Rvm.Foundation.Checks
import Rvm.Memory.BuddySafety

/-!
Owns the maximal merging of the buddy allocator: whatever calls are made, misuse included,
no two free buddies stay below the coarsest order.
-/

namespace Rvm.Memory

open Foundation Foundation.Dyadic Block List

variable {totalPages words : Nat}

namespace BuddyAllocator

variable {alloc after : BuddyAllocator} {block other : Block}

/-! ### Free pages -/

/-- The page is recorded as free, at whichever order. -/
def PageFree (totalPages words : Nat) (alloc : BuddyAllocator) (page : Nat) : Prop :=
  Covered (alloc.Marked totalPages words) page

def AllFree (totalPages words : Nat) (alloc : BuddyAllocator) (block : Block) : Prop :=
  ∀ page, block.covers page = true → alloc.PageFree totalPages words page

def Placed (totalPages : Nat) (alloc : BuddyAllocator) : Prop :=
  ∀ bit, (alloc.bitmap (bit / 64)).getLsbD (bit % 64) = true →
    ∃ block ∈ allBlocks totalPages, bit = bitOffsetsOf totalPages block.order + block.index

/-- The bitmap is fully merged: no two buddies below the coarsest order are free,
and no bit is set that stands for no block. -/
structure Tidy (totalPages words : Nat) (alloc : BuddyAllocator) : Prop where
  shaped : Shaped totalPages words alloc
  placed : Placed totalPages alloc
  merged : Merged (maxUsableOrder totalPages) (alloc.Marked totalPages words)

theorem marked_setFree (shaped : Shaped totalPages words alloc)
    (member : block ∈ allBlocks totalPages) :
    (alloc.setFree words block.order block.index).Marked totalPages words other ↔
      alloc.Marked totalPages words other ∨ other = block := by
  unfold Marked
  by_cases otherMember : other ∈ allBlocks totalPages
  · simp [otherMember, isFree_setFree shaped member otherMember]
  · have different : other ≠ block := fun same => otherMember (same ▸ member)
    simp [otherMember, different]

theorem marked_clearFree (shaped : Shaped totalPages words alloc)
    (member : block ∈ allBlocks totalPages) :
    (alloc.clearFree words block.order block.index).Marked totalPages words other ↔
      alloc.Marked totalPages words other ∧ other ≠ block := by
  unfold Marked
  by_cases otherMember : other ∈ allBlocks totalPages
  · simp [otherMember, isFree_clearFree shaped member otherMember]
  · simp [otherMember]

theorem Placed.setFree (placed : Placed totalPages alloc) (shaped : Shaped totalPages words alloc)
    (member : block ∈ allBlocks totalPages) :
    Placed totalPages (alloc.setFree words block.order block.index) := by
  intro bit set
  rw [bit_setFree (shaped.word_lt member), Bool.or_eq_true, beq_iff_eq] at set
  rcases set with before | same
  · exact placed bit before
  · exact ⟨block, member, by rw [same, bitOffset, shaped.offsets]⟩

theorem Placed.clearFree (placed : Placed totalPages alloc) (order blk : Nat) :
    Placed totalPages (alloc.clearFree words order blk) := by
  intro bit set
  by_cases inside : alloc.bitOffset order blk / 64 < words
  · rw [bit_clearFree inside, Bool.and_eq_true] at set
    exact placed bit set.1
  · simp only [BuddyAllocator.clearFree, if_neg inside] at set
    exact placed bit set

/-! ### Setting and clearing -/

theorem Tidy.clear (tidy : Tidy totalPages words alloc) (member : block ∈ allBlocks totalPages) :
    Tidy totalPages words (alloc.clearFree words block.order block.index) where
  shaped := tidy.shaped.clear _ _
  placed := tidy.placed.clearFree _ _
  merged := by
    intro other below isMarked buddyMarked
    rw [marked_clearFree tidy.shaped member] at isMarked buddyMarked
    exact tidy.merged other below isMarked.1 buddyMarked.1

def MergedBut (totalPages words : Nat) (alloc : BuddyAllocator) (block : Block) : Prop :=
  ∀ other, other.order < maxUsableOrder totalPages → alloc.Marked totalPages words other →
    alloc.Marked totalPages words other.buddy → other = block ∨ other.buddy = block

theorem Tidy.mergedBut (tidy : Tidy totalPages words alloc)
    (member : block ∈ allBlocks totalPages) :
    MergedBut totalPages words (alloc.setFree words block.order block.index) block := by
  intro other below isMarked buddyMarked
  rw [marked_setFree tidy.shaped member] at isMarked buddyMarked
  by_contra neither
  push Not at neither
  exact tidy.merged other below (isMarked.resolve_right neither.1)
    (buddyMarked.resolve_right neither.2)

theorem MergedBut.merged (merged : MergedBut totalPages words alloc block)
    (lonely : block.order < maxUsableOrder totalPages →
      ¬alloc.Marked totalPages words block.buddy) :
    Merged (maxUsableOrder totalPages) (alloc.Marked totalPages words) := by
  intro other below isMarked buddyMarked
  rcases merged other below isMarked buddyMarked with rfl | rfl
  · exact lonely below buddyMarked
  · rw [buddy_buddy] at lonely
    exact lonely below isMarked

theorem Tidy.set (tidy : Tidy totalPages words alloc) (member : block ∈ allBlocks totalPages)
    (lonely : ¬alloc.Marked totalPages words block.buddy) :
    Tidy totalPages words (alloc.setFree words block.order block.index) where
  shaped := tidy.shaped.set _ _
  placed := tidy.placed.setFree tidy.shaped member
  merged := by
    apply (tidy.mergedBut member).merged
    intro _
    rw [marked_setFree tidy.shaped member]
    exact not_or.mpr ⟨lonely, block.buddy_ne⟩

/-! ### Allocation -/

variable {order addr exponent base : Nat}

/-- Splitting a block taken out keeps the bitmap merged, if no block is free at
the orders it is split to. -/
theorem splitDown_tidy :
    ∀ {currentOrder currentBlk : Nat} {alloc : BuddyAllocator}, Tidy totalPages words alloc →
      (⟨currentOrder, currentBlk⟩ : Block) ∈ allBlocks totalPages →
      (∀ other, alloc.Marked totalPages words other → order ≤ other.order →
        currentOrder ≤ other.order) →
      Tidy totalPages words (splitDown words order currentOrder currentBlk alloc).1 := by
  intro currentOrder
  induction currentOrder with
  | zero => exact fun tidy _ _ => tidy
  | succ currentOrder ih =>
    intro currentBlk alloc tidy member empty
    unfold splitDown
    split
    · next above =>
        have inside := (inside_split (Nat.succ_pos _)).mp (inside_of_mem member)
        have usable : currentOrder ≤ maxUsableOrder totalPages :=
          (Nat.le_succ _).trans (mem_allBlocks.mp member).1
        have leftMember : (⟨currentOrder, currentBlk * 2⟩ : Block) ∈ allBlocks totalPages := by
          rw [Nat.mul_comm]
          exact mem_allBlocks_of_inside usable inside.1
        have rightMember :
            (⟨currentOrder, currentBlk * 2 + 1⟩ : Block) ∈ allBlocks totalPages := by
          rw [Nat.mul_comm]
          exact mem_allBlocks_of_inside usable inside.2
        have lonely : ¬alloc.Marked totalPages words
            (⟨currentOrder, currentBlk * 2 + 1⟩ : Block).buddy := by
          intro isMarked
          have higher : currentOrder + 1 ≤ currentOrder :=
            empty _ isMarked (Nat.lt_succ_iff.mp above)
          omega
        apply ih (tidy.set rightMember lonely) leftMember
        intro other isMarked le
        rw [marked_setFree tidy.shaped rightMember] at isMarked
        rcases isMarked with before | rfl
        · exact (Nat.le_succ _).trans (empty other before le)
        · exact Nat.le_refl _
    · exact tidy

theorem allocPages_isOk_iff :
    (∃ result, alloc.allocPages totalPages words order = .ok result) ↔
      order ≤ maxUsableOrder totalPages ∧
        ∃ other, alloc.Marked totalPages words other ∧ order ≤ other.order := by
  rcases alloc.allocPages_cases totalPages words order with ⟨block, served, same⟩ | ⟨none, same⟩
  · have usable := served.enough.trans (mem_allBlocks.mp served.marked.1).1
    exact iff_of_true ⟨_, same⟩ ⟨usable, block, served.marked, served.enough⟩
  · rw [same]
    exact iff_of_false (fun ⟨_, refused⟩ => by cases refused) fun ⟨_, other, isMarked, le⟩ =>
      absurd le (Nat.not_le.mpr (none other isMarked))

theorem allocPages_tidy (tidy : Tidy totalPages words alloc)
    (allocated : alloc.allocPages totalPages words order = .ok (addr, after)) :
    Tidy totalPages words after := by
  rcases alloc.allocPages_cases totalPages words order with ⟨block, served, same⟩ | ⟨_, same⟩
  · rw [same] at allocated
    cases allocated
    apply splitDown_tidy (tidy.clear served.marked.1) served.marked.1
    intro other isMarked le
    rw [marked_clearFree tidy.shaped served.marked.1] at isMarked
    exact served.least other isMarked.1 le
  · rw [same] at allocated
    cases allocated

/-! ### Release -/

theorem parent_mem {blk : Nat} (below : order < maxUsableOrder totalPages)
    (member : (⟨order, blk⟩ : Block) ∈ allBlocks totalPages)
    (buddyMember : (⟨order, blk⟩ : Block).buddy ∈ allBlocks totalPages) :
    (⟨order + 1, blk / 2⟩ : Block) ∈ allBlocks totalPages := by
  apply mem_allBlocks_of_inside (show order + 1 ≤ maxUsableOrder totalPages from below)
  have left := inside_of_mem member
  have right := inside_of_mem buddyMember
  rw [inside_split (Nat.succ_pos _)]
  rcases Nat.even_or_odd blk with even | odd
  · have same : 2 * (blk / 2) = blk := Nat.two_mul_div_two_of_even even
    rw [Block.buddy, Nat.xor_one_of_even even] at right
    exact ⟨by rwa [Block.left, same], by rwa [Block.right, same]⟩
  · have same : 2 * (blk / 2) + 1 = blk := Nat.two_mul_div_two_add_one_of_odd odd
    rw [Block.buddy, Nat.xor_one_of_odd odd] at right
    refine ⟨?_, by rwa [Block.right, same]⟩
    rwa [Block.left, show 2 * (blk / 2) = blk - 1 by omega]

theorem coalesce_tidy :
    ∀ {left currentOrder currentBlk : Nat} {alloc : BuddyAllocator},
      Shaped totalPages words alloc → Placed totalPages alloc →
      MergedBut totalPages words alloc ⟨currentOrder, currentBlk⟩ →
      currentOrder + left = maxUsableOrder totalPages →
      (⟨currentOrder, currentBlk⟩ : Block) ∈ allBlocks totalPages →
      Tidy totalPages words (coalesce totalPages words left currentOrder currentBlk alloc) := by
  intro left
  induction left with
  | zero =>
    intro currentOrder currentBlk alloc shaped placed merged reach _
    refine ⟨shaped, placed, merged.merged fun below => ?_⟩
    dsimp only at below
    omega
  | succ left ih =>
    intro currentOrder currentBlk alloc shaped placed merged reach member
    unfold coalesce
    dsimp only
    split
    · next beyond =>
        refine ⟨shaped, placed, merged.merged fun _ isMarked => ?_⟩
        exact absurd (mem_allBlocks.mp isMarked.1).2 (Nat.not_lt.mpr beyond)
    · next within =>
        split
        · next buddyTaken =>
            refine ⟨shaped, placed, merged.merged fun _ isMarked => ?_⟩
            have buddyFree : alloc.isFree words currentOrder (currentBlk ^^^ 1) = true :=
              isMarked.2
            simp [buddyFree] at buddyTaken
        · have buddyMember : (⟨currentOrder, currentBlk⟩ : Block).buddy ∈ allBlocks totalPages :=
            mem_allBlocks.mpr ⟨(mem_allBlocks.mp member).1, Nat.lt_of_not_le within⟩
          have parentMember := parent_mem (by omega) member buddyMember
          have once : Shaped totalPages words _ := shaped.clear currentOrder currentBlk
          have twice : Shaped totalPages words _ := once.clear currentOrder (currentBlk ^^^ 1)
          apply ih (twice.set _ _)
            (((placed.clearFree _ _).clearFree _ _).setFree twice parentMember) ?_ (by omega)
            parentMember
          have cleared : ∀ other, BuddyAllocator.Marked totalPages words
              ((alloc.clearFree words currentOrder currentBlk).clearFree words currentOrder
                (currentBlk ^^^ 1)) other ↔
              (alloc.Marked totalPages words other ∧ other ≠ ⟨currentOrder, currentBlk⟩) ∧
                other ≠ (⟨currentOrder, currentBlk⟩ : Block).buddy :=
            fun other => (marked_clearFree once buddyMember).trans
              (and_congr_left' (marked_clearFree shaped member))
          intro other below isMarked buddyMarked
          by_contra neither
          push Not at neither
          -- A pair without the parent was a pair before, and is not the pair just cleared.
          rw [marked_setFree twice parentMember] at isMarked buddyMarked
          have pair := (cleared other).mp (isMarked.resolve_right neither.1)
          have buddyPair := (cleared other.buddy).mp (buddyMarked.resolve_right neither.2)
          rcases merged other below pair.1.1 buddyPair.1.1 with same | same
          · exact pair.1.2 same
          · exact buddyPair.1.2 same

/-- A release that succeeds is that of a block with a bit. -/
theorem freePages_ok (isPower : totalPages = 2 ^ exponent)
    (freed : alloc.freePages totalPages words addr order = .ok after) :
    ∃ block ∈ allBlocks totalPages, block.order = order ∧ addr = addressOf alloc.base block ∧
      after = coalesce totalPages words (maxUsableOrder totalPages - block.order) block.order
        block.index (alloc.setFree words block.order block.index) := by
  simp only [freePages, ite_error_eq_ok, not_not] at freed
  obtain ⟨usable, above, aligned, within, blockAligned, -, same⟩ := freed
  cases same
  generalize pageEq : (addr - alloc.base) / pageSize = page at *
  rw [Nat.shiftLeft_eq] at blockAligned
  have index : page >>> order < totalPages >>> order := by
    obtain ⟨quotient, whole⟩ := two_pow_dvd_total isPower (Nat.not_lt.mp usable)
    rw [Nat.shiftRight_eq_div_pow, Nat.shiftRight_eq_div_pow, whole,
      Nat.mul_div_cancel_left _ (Nat.two_pow_pos order)]
    exact Nat.div_lt_of_lt_mul (whole ▸ Nat.lt_of_not_le within)
  have member : (⟨order, page >>> order⟩ : Block) ∈ allBlocks totalPages :=
    mem_allBlocks.mpr ⟨Nat.not_lt.mp usable, index⟩
  refine ⟨_, member, rfl, ?_, rfl⟩
  have bytes : pageSize * page = addr - alloc.base := by
    rw [← pageEq]
    exact Nat.mul_div_cancel' (Nat.dvd_of_mod_eq_zero aligned)
  rw [addressOf, first, size]
  dsimp only
  rw [blockAligned, Nat.mul_comm page]
  omega

theorem freePages_tidy (isPower : totalPages = 2 ^ exponent) (tidy : Tidy totalPages words alloc)
    (freed : alloc.freePages totalPages words addr order = .ok after) :
    Tidy totalPages words after := by
  obtain ⟨block, member, -, -, rfl⟩ := freePages_ok isPower freed
  have usable := (mem_allBlocks.mp member).1
  exact coalesce_tidy (tidy.shaped.set _ _) (tidy.placed.setFree tidy.shaped member)
    (tidy.mergedBut member) (by omega) member

/-! ### Recorded free space -/

theorem isBlockFree_iff (isPower : totalPages = 2 ^ exponent)
    (member : block ∈ allBlocks totalPages) :
    alloc.isBlockFree totalPages words block.order block.index = true ↔
      ∃ levels, alloc.Marked totalPages words (block.up levels) := by
  unfold isBlockFree
  constructor
  · intro blocked
    have found : ∃ levels, block.order + levels ≤ maxUsableOrder totalPages ∧
        alloc.isFree words (block.order + levels) (block.index / 2 ^ levels) = true := by
      split at blocked
      · next free => exact ⟨0, (mem_allBlocks.mp member).1, by simpa using free⟩
      · obtain ⟨up, within, free⟩ := ancestorFree_iff.mp blocked
        refine ⟨up + 1, by omega, ?_⟩
        rw [Nat.div_div_eq_div_mul, ← Nat.pow_succ'] at free
        rwa [show block.order + (up + 1) = block.order + 1 + up by omega]
    obtain ⟨levels, usable, free⟩ := found
    have inside : (block.up levels).Inside totalPages :=
      inside_up (inside_of_mem member) (two_pow_dvd_total isPower usable)
    exact ⟨levels, mem_allBlocks_of_inside usable inside, free⟩
  · rintro ⟨levels, upMember, free⟩
    split
    · rfl
    · next notFree =>
        cases levels with
        | zero => exact absurd (by simpa using free) notFree
        | succ up =>
          have usable : block.order + (up + 1) ≤ maxUsableOrder totalPages :=
            (mem_allBlocks.mp upMember).1
          refine ancestorFree_iff.mpr ⟨up, by omega, ?_⟩
          rw [Nat.div_div_eq_div_mul, ← Nat.pow_succ',
            show block.order + 1 + up = block.order + (up + 1) by omega]
          exact free

theorem Tidy.allFree_iff (tidy : Tidy totalPages words alloc)
    (usable : block.order ≤ maxUsableOrder totalPages) :
    alloc.AllFree totalPages words block ↔
      ∃ levels, alloc.Marked totalPages words (block.up levels) := by
  constructor
  · exact fun free => tidy.merged.exists_up usable free
  · rintro ⟨levels, isMarked⟩ page covers
    exact ⟨_, isMarked, covers_up covers levels⟩

theorem Tidy.bitmap_eq {other : BuddyAllocator} (tidy : Tidy totalPages words alloc)
    (otherTidy : Tidy totalPages words other)
    (same : ∀ block, alloc.Marked totalPages words block ↔ other.Marked totalPages words block) :
    alloc.bitmap = other.bitmap := by
  have covered : ∀ {left right : BuddyAllocator}, Tidy totalPages words left →
      Tidy totalPages words right → (∀ block, left.Marked totalPages words block →
        right.Marked totalPages words block) →
      ∀ word bit, bit < 64 → (left.bitmap word).getLsbD bit = true →
        (right.bitmap word).getLsbD bit = true := by
    intro left right leftTidy rightTidy marks word bit small set
    have place : (64 * word + bit) / 64 = word ∧ (64 * word + bit) % 64 = bit := by omega
    obtain ⟨block, member, position⟩ := leftTidy.placed (64 * word + bit)
      (by rwa [place.1, place.2])
    have leftFree : left.isFree words block.order block.index = true := by
      have inBitmap := leftTidy.shaped.word_lt member
      rw [isFree_eq, bitSet, decide_eq_true inBitmap, Bool.true_and, bitOffset,
        leftTidy.shaped.offsets, ← position, place.1, place.2]
      exact set
    have rightFree := (marks block ⟨member, leftFree⟩).2
    rw [isFree_eq, bitSet, bitOffset, rightTidy.shaped.offsets, ← position, place.1,
      place.2] at rightFree
    exact (Bool.and_eq_true_iff.mp rightFree).2
  funext word
  apply BitVec.eq_of_getLsbD_eq
  intro bit small
  rw [Bool.eq_iff_iff]
  exact ⟨covered tidy otherTidy (fun block => (same block).mp) word bit small,
    covered otherTidy tidy (fun block => (same block).mpr) word bit small⟩

/-! ### Any calls -/

/-- The allocator that a call leaves, from any caller; a failing call changes
nothing. -/
def apply (totalPages words : Nat) (alloc : BuddyAllocator) : BuddyCall → BuddyAllocator
  | .allocPages order =>
    match alloc.allocPages totalPages words order with
    | .ok (_, after) => after
    | .error _ => alloc
  | .freePages addr order =>
    match alloc.freePages totalPages words addr order with
    | .ok after => after
    | .error _ => alloc

def Step (totalPages words : Nat) (alloc : BuddyAllocator) (call : BuddyCall)
    (next : BuddyAllocator) : Prop :=
  alloc.apply totalPages words call = next

theorem apply_tidy (isPower : totalPages = 2 ^ exponent) (tidy : Tidy totalPages words alloc)
    (call : BuddyCall) : Tidy totalPages words (alloc.apply totalPages words call) := by
  cases call with
  | allocPages order =>
    cases allocated : alloc.allocPages totalPages words order with
    | ok result =>
      simp only [apply, allocated]
      exact allocPages_tidy tidy allocated
    | error e => simpa only [apply, allocated] using tidy
  | freePages addr order =>
    cases freed : alloc.freePages totalPages words addr order with
    | ok result =>
      simp only [apply, freed]
      exact freePages_tidy isPower tidy freed
    | error e => simpa only [apply, freed] using tidy

theorem Placed.fill {indices : List Nat}
    (members : ∀ blk ∈ indices, (⟨order, blk⟩ : Block) ∈ allBlocks totalPages)
    (placed : Placed totalPages alloc) (shaped : Shaped totalPages words alloc) :
    Placed totalPages (indices.foldl (fun alloc blk => alloc.setFree words order blk) alloc) := by
  induction indices generalizing alloc with
  | nil => exact placed
  | cons blk rest ih =>
    have kept := placed.setFree shaped (members blk mem_cons_self)
    rw [foldl_cons]
    exact ih (fun other later => members other (mem_cons_of_mem blk later))
      kept (shaped.set order blk)

theorem placed_initFreeAll (positive : 0 < totalPages)
    (enough : totalBitmapBits totalPages ≤ 64 * words) (base : Nat) :
    Placed totalPages (initFreeAll totalPages words ⟨base, fun _ => 0, bitOffsetsOf totalPages⟩) := by
  have blank : Placed totalPages ⟨base, fun _ => 0, bitOffsetsOf totalPages⟩ := by
    intro bit set
    simp at set
  have shaped : Shaped totalPages words ⟨base, fun _ => 0, bitOffsetsOf totalPages⟩ :=
    ⟨rfl, enough, positive⟩
  have members : ∀ blk ∈ List.range (totalPages >>> maxUsableOrder totalPages),
      (⟨maxUsableOrder totalPages, blk⟩ : Block) ∈ allBlocks totalPages := fun blk member =>
    mem_allBlocks.mpr ⟨Nat.le_refl _, mem_range.mp member⟩
  exact blank.fill members shaped

theorem new_tidy (positive : 0 < totalPages)
    (created : BuddyAllocator.new totalPages words base = .ok alloc) :
    Tidy totalPages words alloc := by
  obtain ⟨shaped, -, marked⟩ := new_spec positive created
  refine ⟨shaped, ?_, fun block below isMarked => ?_⟩
  · unfold BuddyAllocator.new at created
    split at created
    · cases created
    · split at created
      · cases created
      · cases created
        exact placed_initFreeAll positive shaped.enough base
  · rw [(marked block isMarked.1).mp isMarked.2] at below
    exact absurd below (Nat.lt_irrefl _)

theorem run_tidy {history : List BuddyCall} (isPower : totalPages = 2 ^ exponent)
    (created : BuddyAllocator.new totalPages words base = .ok alloc)
    (run : Run (Step totalPages words) alloc history after) : Tidy totalPages words after :=
  run.stateInvariant (new_tidy (isPower ▸ Nat.two_pow_pos exponent) created)
    fun here call next tidy step =>
      (show here.apply totalPages words call = next from step) ▸ apply_tidy isPower tidy call

theorem step_of_client {client next : Client} {call : BuddyCall}
    (step : Client.Step totalPages words client call next) :
    Step totalPages words client.alloc call next.alloc := by
  unfold Step apply
  cases step with
  | allocated allocated => simp only [allocated]
  | exhausted exhausted => simp only [exhausted]
  | freed _ freed => simp only [freed]
  | refused _ refused => simp only [refused]

theorem run_of_client {start client : Client} {history : List BuddyCall}
    (run : Run (Client.Step totalPages words) start history client) :
    Run (Step totalPages words) start.alloc history client.alloc := by
  induction run with
  | nil => exact .nil
  | snoc _ step ih => exact ih.snoc (step_of_client step)

theorem exists_allFree_iff (tidy : Tidy totalPages words alloc)
    (usable : order ≤ maxUsableOrder totalPages) :
    (∃ index, (⟨order, index⟩ : Block).Inside totalPages ∧
        alloc.AllFree totalPages words ⟨order, index⟩) ↔
      ∃ other, alloc.Marked totalPages words other ∧ order ≤ other.order := by
  constructor
  · rintro ⟨index, -, free⟩
    obtain ⟨levels, isMarked⟩ := (tidy.allFree_iff usable).mp free
    exact ⟨_, isMarked, Nat.le_add_right order levels⟩
  · rintro ⟨⟨top, index⟩, isMarked, le⟩
    obtain ⟨levels, rfl⟩ := Nat.exists_eq_add_of_le le
    have isUp : (⟨order, index * 2 ^ levels⟩ : Block).up levels = ⟨order + levels, index⟩ := by
      rw [up, Nat.mul_div_cancel _ (Nat.two_pow_pos levels)]
    have start : (index * 2 ^ levels + 1) * 2 ^ order ≤ (index + 1) * 2 ^ (order + levels) := by
      rw [Nat.pow_add, Nat.mul_comm (2 ^ order), ← Nat.mul_assoc]
      apply Nat.mul_le_mul_right
      rw [Nat.succ_mul]
      exact Nat.add_le_add_left (Nat.two_pow_pos levels) _
    refine ⟨index * 2 ^ levels, start.trans (inside_of_mem isMarked.1), ?_⟩
    rw [tidy.allFree_iff usable]
    exact ⟨levels, isUp ▸ isMarked⟩

/-- No two free buddies are left, an allocation succeeds exactly where an aligned block is free,
and where the addresses do not wrap a client who returns everything restores the bitmap. -/
theorem coalescingComplete (totalPages words base exponent : Nat)
    (isPower : totalPages = 2 ^ exponent) (alloc : BuddyAllocator)
    (created : BuddyAllocator.new totalPages words base = .ok alloc) :
    (∀ history after, Run (Step totalPages words) alloc history after →
      Merged (maxUsableOrder totalPages) (after.Marked totalPages words) ∧
      ∀ order, (∃ result, after.allocPages totalPages words order = .ok result) ↔
        order ≤ maxUsableOrder totalPages ∧ ∃ index, (⟨order, index⟩ : Block).Inside totalPages ∧
          after.AllFree totalPages words ⟨order, index⟩) ∧
    (base + totalPages * pageSize < 18446744073709551616 →
      ∀ history client, Run (Client.Step totalPages words) ⟨alloc, []⟩ history client →
        client.outstanding = [] → client.alloc.bitmap = alloc.bitmap) := by
  refine ⟨fun history after run => ?_, fun fits history client run returned => ?_⟩
  · have tidy := run_tidy isPower created run
    refine ⟨tidy.merged, fun order => ?_⟩
    rw [allocPages_isOk_iff]
    exact and_congr_right fun usable => (exists_allFree_iff tidy usable).symm
  · obtain ⟨holds, sameBase⟩ := new_holds isPower created
    have tidy := new_tidy (isPower ▸ Nat.two_pow_pos exponent) created
    obtain ⟨-, held, finalHolds, same⟩ : client.Sound totalPages words base :=
      Run.stateInvariant (show Client.Sound totalPages words base ⟨_, []⟩ from
        ⟨sameBase, [], holds, .nil⟩)
        (fun _ _ _ sound step => client_step isPower fits sound step) run
    have finalTidy : Tidy totalPages words client.alloc :=
      run_tidy isPower created (run_of_client run)
    rw [returned, nil_perm, map_eq_nil_iff] at same
    subst same
    -- With nothing held, the free blocks tile the pages, and a merged tiling is unique.
    have coarsest : ∀ {some : BuddyAllocator}, Tidy totalPages words some →
        Holds totalPages words some [] → ∀ block, some.Marked totalPages words block ↔
          block.order = maxUsableOrder totalPages ∧ block.Inside totalPages := by
      intro some someTidy someHolds block
      have tiling := someHolds.tiling
      rw [append_nil] at tiling
      have isFreeBlock : ∀ block, block ∈ some.freeBlocks totalPages words ↔
          some.Marked totalPages words block := fun block => mem_freeBlocks
      rw [← isFreeBlock]
      apply tiling.mem_iff_of_merged _ (fun block member =>
        (mem_allBlocks.mp ((isFreeBlock block).mp member).1).1)
        (two_pow_dvd_total isPower (Nat.le_refl _))
      intro block below member buddyMember
      exact someTidy.merged block below ((isFreeBlock _).mp member) ((isFreeBlock _).mp buddyMember)
    exact finalTidy.bitmap_eq tidy fun block =>
      (coarsest finalTidy finalHolds block).trans (coarsest tidy holds block).symm

def sixteenPages : BuddyAllocator := initFreeAll 16 2 ⟨268435456, fun _ => 0, bitOffsetsOf 16⟩

/-- The law for a block that is allocated and returned. -/
theorem coalescingComplete_returned :
    ∃ client, Run (Client.Step 16 2) ⟨sixteenPages, []⟩ [.allocPages 2, .freePages 268435456 2]
      client ∧ client.alloc.bitmap = sixteenPages.bitmap := by
  have taken : Client.Step 16 2 ⟨sixteenPages, []⟩ (.allocPages 2)
      ⟨sixteenPages.apply 16 2 (.allocPages 2), [(268435456, 2)]⟩ := .allocated rfl
  have given : Client.Step 16 2 ⟨sixteenPages.apply 16 2 (.allocPages 2), [(268435456, 2)]⟩
      (.freePages 268435456 2) ⟨(sixteenPages.apply 16 2 (.allocPages 2)).apply 16 2
        (.freePages 268435456 2), [(268435456, 2)].erase (268435456, 2)⟩ :=
    .freed mem_cons_self rfl
  have run := (Run.single taken).snoc given
  exact ⟨_, run,
    (coalescingComplete 16 2 268435456 4 rfl sixteenPages rfl).2 (by decide) _ _ run rfl⟩

theorem allFree_new (isPower : totalPages = 2 ^ exponent)
    (created : BuddyAllocator.new totalPages words base = .ok alloc)
    (inside : block.Inside totalPages) : alloc.AllFree totalPages words block := by
  intro page covers
  have tiling := (new_holds isPower created).1.tiling
  rw [append_nil] at tiling
  have counted := tiling.once page (lt_of_covers inside covers)
  obtain ⟨other, member, otherCovers⟩ := countP_pos_iff.mp (by rw [counted]; decide)
  exact ⟨other, mem_freeBlocks.mp member, otherCovers⟩

/-- With `2048` pages, all free, there is no block of order `11`. -/
theorem coalescingComplete_aboveMaximum :
    ∃ alloc, BuddyAllocator.new 2048 64 0 = .ok alloc ∧
      ¬∀ history after, Run (Step 2048 64) alloc history after → ∀ order,
        (∃ result, after.allocPages 2048 64 order = .ok result) ↔
          ∃ index, (⟨order, index⟩ : Block).Inside 2048 ∧ after.AllFree 2048 64 ⟨order, index⟩ := by
  have created : BuddyAllocator.new 2048 64 0 = .ok _ := rfl
  have whole : (⟨11, 0⟩ : Block).Inside 2048 := by decide
  have power : 2048 = 2 ^ 11 := rfl
  refine ⟨_, created, fun complete => ?_⟩
  obtain ⟨result, allocated⟩ := (complete [] _ .nil 11).mpr
    ⟨0, whole, allFree_new power created whole⟩
  rw [allocPages, if_pos (by decide)] at allocated
  cases allocated

/-- Double frees are refused and change nothing: the check sees exactly the blocks of free pages.
-/
theorem doubleFreeRefused (totalPages words base exponent : Nat)
    (isPower : totalPages = 2 ^ exponent) (alloc : BuddyAllocator)
    (created : BuddyAllocator.new totalPages words base = .ok alloc) (history : List BuddyCall)
    (after : BuddyAllocator) (run : Run (Step totalPages words) alloc history after)
    (block : Block) (inside : block.Inside totalPages) :
    (after.AllFree totalPages words block →
      (∃ e, after.freePages totalPages words (addressOf after.base block) block.order = .error e) ∧
        after.apply totalPages words (.freePages (addressOf after.base block) block.order) = after) ∧
    (block.order ≤ maxUsableOrder totalPages →
      (after.isBlockFree totalPages words block.order block.index = true ↔
        after.AllFree totalPages words block)) := by
  have tidy := run_tidy isPower created run
  have seen : block.order ≤ maxUsableOrder totalPages →
      (after.isBlockFree totalPages words block.order block.index = true ↔
        after.AllFree totalPages words block) := fun usable =>
    (isBlockFree_iff isPower (mem_allBlocks_of_inside usable inside)).trans
      (tidy.allFree_iff usable).symm
  refine ⟨fun free => ?_, seen⟩
  have refused : ∃ e,
      after.freePages totalPages words (addressOf after.base block) block.order = .error e := by
    by_cases usable : block.order ≤ maxUsableOrder totalPages
    · rw [freePages_eq (mem_allBlocks_of_inside usable inside), if_pos ((seen usable).mpr free)]
      exact ⟨_, rfl⟩
    · rw [freePages, if_pos (Nat.lt_of_not_le usable)]
      exact ⟨_, rfl⟩
  obtain ⟨e, failed⟩ := refused
  refine ⟨⟨e, failed⟩, ?_⟩
  simp only [apply, failed]

/-- In a new allocator every block is free, recorded at the coarsest order. -/
theorem doubleFreeRefused_unused :
    (∃ e, sixteenPages.freePages 16 2 (addressOf sixteenPages.base ⟨2, 1⟩) 2 = .error e) ∧
      sixteenPages.apply 16 2 (.freePages (addressOf sixteenPages.base ⟨2, 1⟩) 2) =
        sixteenPages := by
  have created : BuddyAllocator.new 16 2 268435456 = .ok sixteenPages := rfl
  have inside : (⟨2, 1⟩ : Block).Inside 16 := by decide
  have power : 16 = 2 ^ 4 := rfl
  exact (doubleFreeRefused 16 2 268435456 4 power _ created [] _ .nil ⟨2, 1⟩ inside).1
    (allFree_new power created inside)

end BuddyAllocator

end Rvm.Memory
