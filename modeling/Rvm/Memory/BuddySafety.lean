import Mathlib.Data.List.Find
import Rvm.Foundation.Dyadic
import Rvm.Memory.Buddy

/-!
Owns the safety of the buddy allocator: the free blocks of the bitmap and the blocks held
outside it always tile the managed pages.
-/

namespace Rvm.Memory

open Foundation Foundation.Dyadic List Block

variable {totalPages words : Nat}

/-! ### Orders -/

private theorem maxUsableOrderFrom_spec (bound : Nat) (positive : 0 < totalPages) :
    maxUsableOrderFrom totalPages bound ≤ bound ∧
      2 ^ maxUsableOrderFrom totalPages bound ≤ totalPages := by
  induction bound with
  | zero => exact ⟨Nat.le_refl 0, positive⟩
  | succ bound ih =>
    unfold maxUsableOrderFrom
    split
    · exact ⟨ih.1.trans (Nat.le_succ _), ih.2⟩
    · exact ⟨Nat.le_refl _, by omega⟩

theorem maxUsableOrder_le (positive : 0 < totalPages) : maxUsableOrder totalPages ≤ maxOrder :=
  (maxUsableOrderFrom_spec maxOrder positive).1

theorem two_pow_dvd_total {exponent order : Nat} (isPower : totalPages = 2 ^ exponent)
    (usable : order ≤ maxUsableOrder totalPages) : 2 ^ order ∣ totalPages := by
  have positive : 0 < totalPages := isPower ▸ Nat.two_pow_pos exponent
  have fits := (maxUsableOrderFrom_spec maxOrder positive).2
  rw [isPower] at fits ⊢
  apply Nat.pow_dvd_pow
  have exponentLe : maxUsableOrder (2 ^ exponent) ≤ exponent :=
    (Nat.pow_le_pow_iff_right (by decide)).mp fits
  rw [isPower] at usable
  omega

/-! ### Bit positions -/

theorem bitsBelow_mono {low high : Nat} (le : low ≤ high) :
    bitsBelow totalPages low ≤ bitsBelow totalPages high := by
  induction le with
  | refl => exact Nat.le_refl _
  | step _ ih => exact ih.trans (Nat.le_add_right _ _)

theorem totalBitmapBits_eq : totalBitmapBits totalPages = bitsBelow totalPages (maxOrder + 1) := by
  have general : ∀ count, (List.range count).foldl (fun bits order => bits + totalPages >>> order) 0 =
      bitsBelow totalPages count := by
    intro count
    induction count with
    | zero => rfl
    | succ count ih =>
      rw [range_succ, foldl_append, ih]
      rfl
  exact general (maxOrder + 1)

theorem position_injective {order blk otherOrder otherBlk : Nat} (known : order ≤ maxOrder)
    (otherKnown : otherOrder ≤ maxOrder) (within : blk < totalPages >>> order)
    (otherWithin : otherBlk < totalPages >>> otherOrder)
    (same : bitOffsetsOf totalPages order + blk = bitOffsetsOf totalPages otherOrder + otherBlk) :
    order = otherOrder ∧ blk = otherBlk := by
  rw [bitOffsetsOf, bitOffsetsOf, if_pos known, if_pos otherKnown] at same
  rcases Nat.lt_trichotomy order otherOrder with lower | equal | higher
  · have le : bitsBelow totalPages (order + 1) ≤ bitsBelow totalPages otherOrder :=
      bitsBelow_mono lower
    simp only [bitsBelow] at le
    omega
  · subst equal
    exact ⟨rfl, by omega⟩
  · have le : bitsBelow totalPages (otherOrder + 1) ≤ bitsBelow totalPages order :=
      bitsBelow_mono higher
    simp only [bitsBelow] at le
    omega

theorem shift_and_one (word : BitVec 64) (bit : Nat) :
    ((word >>> bit) &&& 1#64 == 1#64) = word.getLsbD bit := by
  rw [Bool.eq_iff_iff, beq_iff_eq]
  constructor
  · intro same
    have lowest := congrArg (fun value => value.getLsbD 0) same
    simpa using lowest
  · intro set
    apply BitVec.eq_of_getLsbD_eq
    intro index _
    by_cases isZero : index = 0
    · simp [isZero, set]
    · simp [isZero]

/-! ### The bitmap as a set of blocks -/

def allBlocks (totalPages : Nat) : List Block :=
  (List.range (maxUsableOrder totalPages + 1)).flatMap fun order =>
    (List.range (totalPages >>> order)).map (Block.mk order)

variable {block : Block}

theorem mem_allBlocks :
    block ∈ allBlocks totalPages ↔
      block.order ≤ maxUsableOrder totalPages ∧ block.index < totalPages >>> block.order := by
  simp only [allBlocks, mem_flatMap, mem_range, mem_map, Nat.lt_succ_iff]
  constructor
  · rintro ⟨order, usable, index, within, rfl⟩
    exact ⟨usable, within⟩
  · rintro ⟨usable, within⟩
    exact ⟨block.order, usable, block.index, within, rfl⟩

theorem allBlocks_nodup : (allBlocks totalPages).Nodup := by
  refine nodup_flatMap.mpr ⟨fun order _ => ?_, ?_⟩
  · exact nodup_range.map fun left right same => by cases same; rfl
  · refine nodup_range.imp fun {left right} different block => ?_
    simp only [mem_map]
    rintro ⟨_, _, rfl⟩ ⟨_, _, same⟩
    cases same
    exact different rfl

theorem mem_allBlocks_of_inside (usable : block.order ≤ maxUsableOrder totalPages)
    (inside : block.Inside totalPages) : block ∈ allBlocks totalPages := by
  refine mem_allBlocks.mpr ⟨usable, ?_⟩
  rw [Nat.shiftRight_eq_div_pow]
  exact (Nat.le_div_iff_mul_le block.size_pos).mpr inside

theorem inside_of_mem (member : block ∈ allBlocks totalPages) : block.Inside totalPages := by
  have within := (mem_allBlocks.mp member).2
  rw [Nat.shiftRight_eq_div_pow] at within
  exact (Nat.le_div_iff_mul_le block.size_pos).mp within

namespace BuddyAllocator

structure Shaped (totalPages words : Nat) (alloc : BuddyAllocator) : Prop where
  offsets : alloc.bitOffsets = bitOffsetsOf totalPages
  enough : totalBitmapBits totalPages ≤ 64 * words
  positive : 0 < totalPages

def freeBlocks (totalPages words : Nat) (alloc : BuddyAllocator) : List Block :=
  (allBlocks totalPages).filter fun block => alloc.isFree words block.order block.index

variable {alloc after : BuddyAllocator} {block other : Block} {held : List Block}

/-- The bit at a position; none is set beyond the bitmap. -/
def bitSet (words : Nat) (alloc : BuddyAllocator) (bit : Nat) : Bool :=
  decide (bit / 64 < words) && (alloc.bitmap (bit / 64)).getLsbD (bit % 64)

theorem isFree_eq (order blk : Nat) :
    alloc.isFree words order blk = alloc.bitSet words (alloc.bitOffset order blk) := by
  simp only [isFree, bitSet, shift_and_one]
  split
  · next beyond => simp [Nat.not_lt.mpr beyond]
  · next below => simp [Nat.lt_of_not_le below]

@[simp] theorem setFree_bitOffsets (order blk : Nat) :
    (alloc.setFree words order blk).bitOffsets = alloc.bitOffsets := by
  unfold setFree
  dsimp only
  split <;> rfl

@[simp] theorem clearFree_bitOffsets (order blk : Nat) :
    (alloc.clearFree words order blk).bitOffsets = alloc.bitOffsets := by
  unfold clearFree
  dsimp only
  split <;> rfl

variable {order blk exponent : Nat}

theorem bit_setFree (inside : alloc.bitOffset order blk / 64 < words) (bit : Nat) :
    ((alloc.setFree words order blk).bitmap (bit / 64)).getLsbD (bit % 64) =
      ((alloc.bitmap (bit / 64)).getLsbD (bit % 64) || bit == alloc.bitOffset order blk) := by
  simp only [setFree, if_pos inside]
  generalize alloc.bitOffset order blk = position
  by_cases sameWord : bit / 64 = position / 64
  · rw [sameWord, Function.update_self, BitVec.getLsbD_or]
    congr 1
    rw [Bool.eq_iff_iff, beq_iff_eq]
    simp only [BitVec.getLsbD_shiftLeft, BitVec.getLsbD_one]
    simp
    omega
  · have different : bit ≠ position := fun equal => sameWord (by rw [equal])
    rw [Function.update_of_ne sameWord]
    simp [different]

theorem bit_clearFree (inside : alloc.bitOffset order blk / 64 < words) (bit : Nat) :
    ((alloc.clearFree words order blk).bitmap (bit / 64)).getLsbD (bit % 64) =
      ((alloc.bitmap (bit / 64)).getLsbD (bit % 64) && bit != alloc.bitOffset order blk) := by
  simp only [clearFree, if_pos inside]
  generalize alloc.bitOffset order blk = position
  by_cases sameWord : bit / 64 = position / 64
  · rw [sameWord, Function.update_self, BitVec.getLsbD_and]
    congr 1
    rw [Bool.eq_iff_iff, bne_iff_ne]
    simp only [BitVec.getLsbD_not, BitVec.getLsbD_shiftLeft, BitVec.getLsbD_one]
    simp
    omega
  · have different : bit ≠ position := fun equal => sameWord (by rw [equal])
    rw [Function.update_of_ne sameWord]
    simp [different]

theorem Shaped.word_lt (shaped : Shaped totalPages words alloc)
    (member : block ∈ allBlocks totalPages) :
    alloc.bitOffset block.order block.index / 64 < words := by
  obtain ⟨usable, within⟩ := mem_allBlocks.mp member
  have orderLe := usable.trans (maxUsableOrder_le shaped.positive)
  have le : bitsBelow totalPages (block.order + 1) ≤ totalBitmapBits totalPages :=
    totalBitmapBits_eq ▸ bitsBelow_mono (by omega)
  have enough := shaped.enough
  simp only [bitsBelow] at le
  rw [bitOffset, shaped.offsets, bitOffsetsOf, if_pos orderLe]
  omega

theorem Shaped.position_eq_iff (shaped : Shaped totalPages words alloc)
    (member : block ∈ allBlocks totalPages) (otherMember : other ∈ allBlocks totalPages) :
    alloc.bitOffset other.order other.index = alloc.bitOffset block.order block.index ↔
      other = block := by
  rw [bitOffset, bitOffset, shaped.offsets]
  constructor
  · intro same
    have known := (mem_allBlocks.mp member).1.trans (maxUsableOrder_le shaped.positive)
    have otherKnown := (mem_allBlocks.mp otherMember).1.trans (maxUsableOrder_le shaped.positive)
    obtain ⟨sameOrder, sameIndex⟩ := position_injective otherKnown known
      (mem_allBlocks.mp otherMember).2 (mem_allBlocks.mp member).2 same
    cases block
    cases other
    simp_all
  · rintro rfl
    rfl

theorem Shaped.set (shaped : Shaped totalPages words alloc) (order blk : Nat) :
    Shaped totalPages words (alloc.setFree words order blk) :=
  ⟨(setFree_bitOffsets ..).trans shaped.offsets, shaped.enough, shaped.positive⟩

theorem Shaped.clear (shaped : Shaped totalPages words alloc) (order blk : Nat) :
    Shaped totalPages words (alloc.clearFree words order blk) :=
  ⟨(clearFree_bitOffsets ..).trans shaped.offsets, shaped.enough, shaped.positive⟩

theorem isFree_setFree (shaped : Shaped totalPages words alloc)
    (member : block ∈ allBlocks totalPages) (otherMember : other ∈ allBlocks totalPages) :
    (alloc.setFree words block.order block.index).isFree words other.order other.index =
      (alloc.isFree words other.order other.index || other == block) := by
  have same := shaped.position_eq_iff member otherMember
  rw [isFree_eq, isFree_eq, bitOffset, setFree_bitOffsets, ← bitOffset, bitSet, bitSet,
    bit_setFree (shaped.word_lt member), decide_eq_true (shaped.word_lt otherMember),
    Bool.true_and, Bool.true_and]
  congr 1
  rw [Bool.eq_iff_iff, beq_iff_eq, beq_iff_eq, same]

theorem isFree_clearFree (shaped : Shaped totalPages words alloc)
    (member : block ∈ allBlocks totalPages) (otherMember : other ∈ allBlocks totalPages) :
    (alloc.clearFree words block.order block.index).isFree words other.order other.index =
      (alloc.isFree words other.order other.index && other != block) := by
  have same := shaped.position_eq_iff member otherMember
  rw [isFree_eq, isFree_eq, bitOffset, clearFree_bitOffsets, ← bitOffset, bitSet, bitSet,
    bit_clearFree (shaped.word_lt member), decide_eq_true (shaped.word_lt otherMember),
    Bool.true_and, Bool.true_and]
  congr 1
  rw [Bool.eq_iff_iff, bne_iff_ne, bne_iff_ne, ne_eq, same]

/-! ### Searching -/

theorem find?_word {word : BitVec 64} {count : Nat} (small : count ≤ 64) :
    (List.range count).find? (fun bit => word.getLsbD bit) =
      if word ≠ 0 ∧ trailingZeros word < count then some (trailingZeros word) else none := by
  unfold trailingZeros
  cases search : (List.range 64).find? fun bit => word.getLsbD bit with
  | none =>
    have unset := List.find?_range_eq_none.mp search
    rw [if_neg (by simp; omega), List.find?_range_eq_none]
    exact fun bit below => unset bit (by omega)
  | some bit =>
    obtain ⟨set, -, before⟩ := List.find?_range_eq_some.mp search
    have nonzero : word ≠ 0 := by
      rintro rfl
      simp at set
    rw [Option.getD_some]
    split
    · next within =>
        exact List.find?_range_eq_some.mpr ⟨set, mem_range.mpr within.2, before⟩
    · next beyond =>
        have above : count ≤ bit := Nat.not_lt.mp fun below => beyond ⟨nonzero, below⟩
        rw [List.find?_range_eq_none]
        exact fun other below => before other (by omega)

theorem find?_inWord {found : Nat → Bool} {word : BitVec 64} {offset count rest total : Nat}
    (small : count ≤ 64) (whole : total = count + rest)
    (inWord : ∀ bit < count, found (offset + bit) = word.getLsbD bit) :
    (List.range' offset total).find? found =
      if word ≠ 0 ∧ trailingZeros word < count then some (offset + trailingZeros word)
      else (List.range' (offset + count) rest).find? found := by
  have first : (List.range count).find? (found ∘ fun bit => offset + bit) = _ :=
    (List.find?_congr fun bit member => inWord bit (mem_range.mp member)).trans
      (find?_word small)
  rw [whole, ← range'_append_1, List.find?_append, range'_eq_map_range, List.find?_map, first]
  split
  · rfl
  · rfl

/-- The scan finds the first set bit from an aligned position on. -/
theorem scanWords_eq {start : Nat} : ∀ {left wordIdx remaining offset : Nat},
    left = words - wordIdx →
    start + offset = 64 * wordIdx ∨ remaining = 0 ∨ left = 0 ∧ 64 * words ≤ start + offset →
    alloc.scanWords left wordIdx remaining offset =
      (List.range' offset remaining).find? fun blk => alloc.bitSet words (start + blk) := by
  intro left
  induction left with
  | zero =>
    intro wordIdx remaining offset beyond aligned
    symm
    rw [scanWords, List.find?_range'_eq_none]
    intro blk le lt
    simp [bitSet, show ¬(start + blk) / 64 < words by omega]
  | succ left ih =>
    intro wordIdx remaining offset reach aligned
    unfold scanWords
    split
    · next none => rw [none, range'_zero, List.find?_nil]
    · next some =>
        have inWord : ∀ bit < min remaining 64,
            alloc.bitSet words (start + (offset + bit)) = (alloc.bitmap wordIdx).getLsbD bit := by
          intro bit below
          rw [bitSet, show (start + (offset + bit)) / 64 = wordIdx by omega,
            show (start + (offset + bit)) % 64 = bit by omega,
            decide_eq_true (show wordIdx < words by omega), Bool.true_and]
        rw [find?_inWord (Nat.min_le_right ..) (show remaining =
          min remaining 64 + (remaining - min remaining 64) by omega) inWord]
        dsimp only
        rw [ih (by omega) (by omega)]

theorem findFirstFree_eq (order : Nat) :
    alloc.findFirstFree totalPages words order =
      (List.range (totalPages >>> order)).find? fun blk => alloc.isFree words order blk := by
  simp only [isFree_eq, bitOffset]
  unfold findFirstFree
  dsimp only
  split
  · next none => rw [none, range_zero, List.find?_nil]
  · rw [range_eq_range']
    split
    · next partialWord =>
        generalize countEq : min (64 - alloc.bitOffsets order % 64) (totalPages >>> order) = count
        have inWord : ∀ bit < count, alloc.bitSet words (alloc.bitOffsets order + (0 + bit)) =
            (alloc.bitmap (alloc.bitOffsets order / 64) >>>
              (alloc.bitOffsets order % 64)).getLsbD bit := by
          intro bit below
          rw [BitVec.getLsbD_ushiftRight, bitSet,
            show (alloc.bitOffsets order + (0 + bit)) / 64 = alloc.bitOffsets order / 64 by omega,
            show (alloc.bitOffsets order + (0 + bit)) % 64 = alloc.bitOffsets order % 64 + bit by
              omega, decide_eq_true partialWord.2, Bool.true_and]
        rw [find?_inWord (show count ≤ 64 by omega)
          (show totalPages >>> order = count + (totalPages >>> order - count) by omega) inWord,
          Nat.zero_add, Nat.zero_add]
        split
        · next hit => rw [if_pos ⟨hit.1, by omega⟩]
        · next miss =>
            rw [if_neg fun hit => miss ⟨hit.1, by omega, by omega⟩]
            exact scanWords_eq (by omega) (by omega)
    · next fullWord => exact scanWords_eq (by omega) (by omega)

theorem findFirstFree_spec (found : alloc.findFirstFree totalPages words order = some blk) :
    blk < totalPages >>> order ∧ alloc.isFree words order blk = true := by
  rw [findFirstFree_eq, List.find?_range_eq_some] at found
  exact ⟨mem_range.mp found.2.1, found.1⟩

theorem findFirstFree_none (missed : alloc.findFirstFree totalPages words order = none)
    (within : blk < totalPages >>> order) : alloc.isFree words order blk = false := by
  rw [findFirstFree_eq, List.find?_range_eq_none] at missed
  simpa using missed blk within

/-- In each order that the table of offsets has, the search by words gives the least free block,
as a search bit by bit would, whatever the bitmap holds; its bit belongs to no other order. -/
theorem firstFreeExact (totalPages words base order : Nat) (bitmap : Nat → BitVec 64)
    (known : order ≤ maxOrder) :
    let alloc : BuddyAllocator := ⟨base, bitmap, bitOffsetsOf totalPages⟩
    alloc.findFirstFree totalPages words order =
        ((List.range (totalPages >>> order)).find? fun blk => alloc.isFree words order blk) ∧
      (∀ blk, alloc.findFirstFree totalPages words order = some blk ↔
        blk < totalPages >>> order ∧ alloc.isFree words order blk = true ∧
          ∀ earlier < blk, alloc.isFree words order earlier = false) ∧
      (alloc.findFirstFree totalPages words order = none ↔
        ∀ blk < totalPages >>> order, alloc.isFree words order blk = false) ∧
      ∀ blk, alloc.findFirstFree totalPages words order = some blk →
        ∀ otherOrder otherBlk, otherOrder ≤ maxOrder → otherBlk < totalPages >>> otherOrder →
          alloc.bitOffset otherOrder otherBlk = alloc.bitOffset order blk → otherOrder = order := by
  intro alloc
  refine ⟨findFirstFree_eq order, fun blk => ?_, ?_,
    fun blk found otherOrder otherBlk otherKnown within same => ?_⟩
  · rw [findFirstFree_eq, List.find?_range_eq_some, List.mem_range, and_left_comm]
    simp only [Bool.not_eq_true']
  · rw [findFirstFree_eq, List.find?_range_eq_none]
    simp only [Bool.not_eq_true']
  · exact (position_injective otherKnown known within (findFirstFree_spec found).1 same).1

/-- The 50 pairs of 100 pages have the bits from 100 on; only that of the pair 30 is set, in the
second of their words. -/
theorem firstFreeExact_pairs :
    findFirstFree 100 4 ⟨0, fun word => if word = 2 then 4 else 0, bitOffsetsOf 100⟩ 1 = some 30 :=
  ((firstFreeExact 100 4 0 1 _ (by decide)).2.1 30).mpr ⟨by decide, by decide, by decide⟩

/-! ### Taking and returning blocks -/

private theorem filter_perm_cons {old new : Block → Bool} {blocks : List Block}
    (nodup : blocks.Nodup) (member : block ∈ blocks) (fresh : old block = false)
    (same : ∀ other ∈ blocks, new other = (old other || other == block)) :
    (blocks.filter new).Perm (block :: blocks.filter old) := by
  refine (perm_ext_iff_of_nodup (nodup.filter _) ?_).mpr fun other => ?_
  · refine nodup_cons.mpr ⟨fun isOld => ?_, nodup.filter _⟩
    rw [(mem_filter.mp isOld).2] at fresh
    cases fresh
  · simp only [mem_filter, mem_cons]
    constructor
    · rintro ⟨inBlocks, isNew⟩
      rw [same other inBlocks, Bool.or_eq_true, beq_iff_eq] at isNew
      tauto
    · rintro (rfl | ⟨inBlocks, isOld⟩)
      · exact ⟨member, by simp [same _ member]⟩
      · exact ⟨inBlocks, by simp [same _ inBlocks, isOld]⟩

/-- The block has a bit and the bit is set. -/
def Marked (totalPages words : Nat) (alloc : BuddyAllocator) (block : Block) : Prop :=
  block ∈ allBlocks totalPages ∧ alloc.isFree words block.order block.index = true

theorem marked_of_found (usable : order ≤ maxUsableOrder totalPages)
    (found : alloc.findFirstFree totalPages words order = some blk) :
    alloc.Marked totalPages words ⟨order, blk⟩ :=
  ⟨mem_allBlocks.mpr ⟨usable, (findFirstFree_spec found).1⟩, (findFirstFree_spec found).2⟩

theorem order_ne_of_missed (missed : alloc.findFirstFree totalPages words order = none)
    (isMarked : alloc.Marked totalPages words other) : order ≠ other.order := by
  rintro rfl
  have unset := findFirstFree_none missed (mem_allBlocks.mp isMarked.1).2
  rw [isMarked.2] at unset
  cases unset

structure Holds (totalPages words : Nat) (alloc : BuddyAllocator) (held : List Block) : Prop where
  shaped : Shaped totalPages words alloc
  usable : ∀ block ∈ held, block.order ≤ maxUsableOrder totalPages
  tiling : Tiling totalPages (alloc.freeBlocks totalPages words ++ held)

theorem mem_freeBlocks : block ∈ alloc.freeBlocks totalPages words ↔
    block ∈ allBlocks totalPages ∧ alloc.isFree words block.order block.index = true :=
  mem_filter

theorem Holds.take (holds : Holds totalPages words alloc held)
    (member : block ∈ allBlocks totalPages)
    (free : alloc.isFree words block.order block.index = true) :
    Holds totalPages words (alloc.clearFree words block.order block.index) (block :: held) where
  shaped := holds.shaped.clear _ _
  usable := forall_mem_cons.mpr ⟨(mem_allBlocks.mp member).1, holds.usable⟩
  tiling := by
    have permuted : (alloc.freeBlocks totalPages words).Perm
        (block :: (alloc.clearFree words block.order block.index).freeBlocks totalPages words) := by
      refine filter_perm_cons allBlocks_nodup member ?_ fun other otherMember => ?_
      · rw [isFree_clearFree holds.shaped member member, bne_self_eq_false, Bool.and_false]
      · rw [isFree_clearFree holds.shaped member otherMember]
        by_cases same : other = block
        · simp [same, free]
        · rw [bne, beq_eq_false_iff_ne.mpr same, Bool.not_false, Bool.and_true, Bool.or_false]
    exact holds.tiling.perm ((permuted.append_right held).trans perm_middle.symm)

theorem Holds.not_free (holds : Holds totalPages words alloc (block :: held))
    (member : other ∈ allBlocks totalPages) {page : Nat} (covered : block.covers page = true)
    (alsoCovered : other.covers page = true) :
    alloc.isFree words other.order other.index = false := by
  by_contra free
  have isFreeBlock : other ∈ alloc.freeBlocks totalPages words ++ held :=
    mem_append_left _ (mem_freeBlocks.mpr ⟨member, by simpa using free⟩)
  exact (holds.tiling.perm perm_middle).apart isFreeBlock page ⟨covered, alsoCovered⟩

theorem Holds.member (holds : Holds totalPages words alloc (block :: held)) :
    block ∈ allBlocks totalPages :=
  mem_allBlocks_of_inside (holds.usable block (by simp)) (holds.tiling.inside block (by simp))

theorem Holds.put (holds : Holds totalPages words alloc (block :: held)) :
    Holds totalPages words (alloc.setFree words block.order block.index) held where
  shaped := holds.shaped.set _ _
  usable := (forall_mem_cons.mp holds.usable).2
  tiling := by
    have member := holds.member
    have permuted : ((alloc.setFree words block.order block.index).freeBlocks totalPages words).Perm
        (block :: alloc.freeBlocks totalPages words) :=
      filter_perm_cons allBlocks_nodup member
        (holds.not_free member block.covers_first block.covers_first)
        fun other otherMember => isFree_setFree holds.shaped member otherMember
    exact holds.tiling.perm (perm_middle.trans (permuted.append_right held).symm)

theorem Holds.perm {other : List Block} (holds : Holds totalPages words alloc held)
    (permuted : held.Perm other) : Holds totalPages words alloc other where
  shaped := holds.shaped
  usable := fun block member => holds.usable block (permuted.mem_iff.mpr member)
  tiling := holds.tiling.perm (permuted.append_left _)

theorem Holds.split (holds : Holds totalPages words alloc (block :: held))
    (positive : 0 < block.order) :
    Holds totalPages words alloc (block.left :: block.right :: held) where
  shaped := holds.shaped
  usable := by
    obtain ⟨usable, rest⟩ := forall_mem_cons.mp holds.usable
    have lower : block.order - 1 ≤ maxUsableOrder totalPages := by omega
    exact forall_mem_cons.mpr ⟨lower, forall_mem_cons.mpr ⟨lower, rest⟩⟩
  tiling := by
    have split := (tiling_split positive).mp (holds.tiling.perm perm_middle)
    refine split.perm ?_
    exact (perm_middle.trans (List.Perm.cons _ perm_middle)).symm

theorem Holds.merge (holds : Holds totalPages words alloc (block.left :: block.right :: held))
    (positive : 0 < block.order) (usable : block.order ≤ maxUsableOrder totalPages) :
    Holds totalPages words alloc (block :: held) where
  shaped := holds.shaped
  usable := by
    obtain ⟨-, rest⟩ := forall_mem_cons.mp holds.usable
    exact forall_mem_cons.mpr ⟨usable, (forall_mem_cons.mp rest).2⟩
  tiling := by
    have merged := (tiling_split positive).mpr
      (holds.tiling.perm (perm_middle.trans (List.Perm.cons _ perm_middle)))
    exact merged.perm perm_middle.symm

/-! ### Calls -/

@[simp] theorem setFree_base (order blk : Nat) :
    (alloc.setFree words order blk).base = alloc.base := by
  unfold setFree
  dsimp only
  split <;> rfl

@[simp] theorem clearFree_base (order blk : Nat) :
    (alloc.clearFree words order blk).base = alloc.base := by
  unfold clearFree
  dsimp only
  split <;> rfl

/-- The block that an allocation takes: no marked block of a lower order is large enough. -/
structure Served (totalPages words : Nat) (alloc : BuddyAllocator) (order : Nat)
    (block : Block) : Prop where
  marked : alloc.Marked totalPages words block
  enough : order ≤ block.order
  least : ∀ other, alloc.Marked totalPages words other → order ≤ other.order →
    block.order ≤ other.order

/-- What is returned when the block is taken out and split down. -/
def taken (words : Nat) (alloc : BuddyAllocator) (order : Nat) (block : Block) :
    Nat × BuddyAllocator :=
  let split := splitDown words order block.order block.index
    (alloc.clearFree words block.order block.index)
  (split.1.blockAddr order split.2, split.1)

theorem splitSearch_cases : ∀ {left splitOrder : Nat},
    splitOrder + left = maxUsableOrder totalPages + 1 → order ≤ splitOrder →
    (∀ other, alloc.Marked totalPages words other → order ≤ other.order →
      splitOrder ≤ other.order) →
    (∃ block, alloc.Served totalPages words order block ∧
      splitSearch totalPages words alloc order left splitOrder = .ok (alloc.taken words order block)) ∨
    (∀ other, alloc.Marked totalPages words other → other.order < order) ∧
      splitSearch totalPages words alloc order left splitOrder = .error .outOfMemory := by
  intro left
  induction left with
  | zero =>
    intro splitOrder reach _ empty
    refine Or.inr ⟨fun other isMarked => Nat.lt_of_not_le fun le => ?_, rfl⟩
    have top := (mem_allBlocks.mp isMarked.1).1
    have above := empty other isMarked le
    omega
  | succ left ih =>
    intro splitOrder reach le empty
    unfold splitSearch
    split
    · next blk found =>
        exact Or.inl ⟨⟨splitOrder, blk⟩, ⟨marked_of_found (by omega) found, le, empty⟩, rfl⟩
    · next missed =>
        exact ih (by omega) (by omega) fun other isMarked le =>
          Nat.lt_of_le_of_ne (empty other isMarked le) (order_ne_of_missed missed isMarked)

theorem allocPages_cases (totalPages words : Nat) (alloc : BuddyAllocator) (order : Nat) :
    (∃ block, alloc.Served totalPages words order block ∧
      alloc.allocPages totalPages words order = .ok (alloc.taken words order block)) ∨
    (∀ other, alloc.Marked totalPages words other → other.order < order) ∧
      alloc.allocPages totalPages words order = .error .outOfMemory := by
  unfold allocPages
  split
  · next above =>
      exact Or.inr ⟨fun other isMarked => (mem_allBlocks.mp isMarked.1).1.trans_lt above, rfl⟩
  · next usable =>
      split
      · next blk found =>
          have unsplit : splitDown words order order blk (alloc.clearFree words order blk) =
              (alloc.clearFree words order blk, blk) := by
            cases order with
            | zero => rfl
            | succ order => rw [splitDown, if_neg (Nat.lt_irrefl _)]
          refine Or.inl ⟨⟨order, blk⟩, ⟨marked_of_found (by omega) found, Nat.le_refl _,
            fun _ _ le => le⟩, ?_⟩
          simp only [taken, unsplit, blockAddr, clearFree_base]
      · next missed =>
          exact splitSearch_cases (by omega) (Nat.le_succ _) fun other isMarked le =>
            Nat.lt_of_le_of_ne le (order_ne_of_missed missed isMarked)

theorem splitDown_spec :
    ∀ {currentOrder currentBlk : Nat} {alloc : BuddyAllocator},
      Holds totalPages words alloc (⟨currentOrder, currentBlk⟩ :: held) → order ≤ currentOrder →
      Holds totalPages words (splitDown words order currentOrder currentBlk alloc).1
          (⟨order, (splitDown words order currentOrder currentBlk alloc).2⟩ :: held) ∧
        (splitDown words order currentOrder currentBlk alloc).1.base = alloc.base := by
  intro currentOrder
  induction currentOrder with
  | zero =>
    intro currentBlk alloc holds le
    obtain rfl : order = 0 := by omega
    exact ⟨holds, rfl⟩
  | succ currentOrder ih =>
    intro currentBlk alloc holds le
    unfold splitDown
    split
    · next above =>
        -- The right half is returned, the left half is split further.
        have halves : Holds totalPages words alloc
            (⟨currentOrder, 2 * currentBlk⟩ :: ⟨currentOrder, 2 * currentBlk + 1⟩ :: held) :=
          holds.split (Nat.succ_pos _)
        rw [Nat.mul_comm 2] at halves
        have returned := (halves.perm (List.Perm.swap ..)).put
        obtain ⟨finished, base⟩ := ih returned (by omega)
        exact ⟨finished, base.trans (setFree_base ..)⟩
    · obtain rfl : order = currentOrder + 1 := by omega
      exact ⟨holds, rfl⟩

/-- The block and the allocator that a successful allocation gives. -/
def Allocated (totalPages words : Nat) (before after : BuddyAllocator) (held : List Block)
    (order addr : Nat) : Prop :=
  ∃ blk, addr = before.blockAddr order blk ∧ after.base = before.base ∧
    Holds totalPages words after (⟨order, blk⟩ :: held)

/-- A successful allocation moves one block of the order asked for from the
bitmap to the holder. -/
theorem allocPages_spec {addr : Nat} (holds : Holds totalPages words alloc held)
    (allocated : alloc.allocPages totalPages words order = .ok (addr, after)) :
    Allocated totalPages words alloc after held order addr := by
  rcases alloc.allocPages_cases totalPages words order with ⟨block, served, same⟩ | ⟨_, same⟩
  · rw [same] at allocated
    cases allocated
    obtain ⟨finished, base⟩ :=
      splitDown_spec (holds.take served.marked.1 served.marked.2) served.enough
    have sameBase := base.trans (clearFree_base ..)
    exact ⟨_, by simp only [blockAddr, sameBase], sameBase, finished⟩
  · rw [same] at allocated
    cases allocated

private theorem buddy_halves (order blk : Nat) :
    ([⟨order, blk ^^^ 1⟩, ⟨order, blk⟩] : List Block).Perm
      [(⟨order + 1, blk / 2⟩ : Block).left, (⟨order + 1, blk / 2⟩ : Block).right] := by
  rcases Nat.even_or_odd blk with even | odd
  · have same : 2 * (blk / 2) = blk := Nat.two_mul_div_two_of_even even
    rw [Nat.xor_one_of_even even, left, right, same]
    exact List.Perm.swap ..
  · have same : 2 * (blk / 2) + 1 = blk := Nat.two_mul_div_two_add_one_of_odd odd
    rw [Nat.xor_one_of_odd odd, left, right, same, Nat.add_sub_cancel,
      show 2 * (blk / 2) = blk - 1 by omega]

private theorem isFree_after_put (holds : Holds totalPages words alloc (block :: held)) :
    (alloc.setFree words block.order block.index).isFree words block.order block.index = true := by
  rw [isFree_setFree holds.shaped holds.member holds.member]
  simp

theorem coalesce_spec :
    ∀ {left currentOrder currentBlk : Nat} {alloc : BuddyAllocator},
      Holds totalPages words alloc held → currentOrder + left = maxUsableOrder totalPages →
      (⟨currentOrder, currentBlk⟩ : Block) ∈ allBlocks totalPages →
      alloc.isFree words currentOrder currentBlk = true →
      Holds totalPages words (coalesce totalPages words left currentOrder currentBlk alloc) held ∧
        (coalesce totalPages words left currentOrder currentBlk alloc).base = alloc.base := by
  intro left
  induction left with
  | zero =>
    intro _ _ _ holds _ _ _
    exact ⟨holds, rfl⟩
  | succ left ih =>
    intro currentOrder currentBlk alloc holds reach member free
    unfold coalesce
    dsimp only
    split
    · exact ⟨holds, rfl⟩
    · next within =>
        split
        · exact ⟨holds, rfl⟩
        · next buddyFree =>
            have buddyMember : (⟨currentOrder, currentBlk ^^^ 1⟩ : Block) ∈ allBlocks totalPages :=
              mem_allBlocks.mpr ⟨(mem_allBlocks.mp member).1, Nat.lt_of_not_le within⟩
            have different : ((⟨currentOrder, currentBlk ^^^ 1⟩ : Block) !=
                ⟨currentOrder, currentBlk⟩) = true := by
              exact bne_iff_ne.mpr (buddy_ne ⟨currentOrder, currentBlk⟩)
            have taken := holds.take member free
            have stillFree : (alloc.clearFree words currentOrder currentBlk).isFree words
                currentOrder (currentBlk ^^^ 1) = true := by
              rw [isFree_clearFree holds.shaped member buddyMember, different, Bool.and_true]
              simpa using buddyFree
            have both := taken.take buddyMember stillFree
            have merged : Holds totalPages words _ (⟨currentOrder + 1, currentBlk / 2⟩ :: held) :=
              (both.perm ((buddy_halves currentOrder currentBlk).append_right held)).merge
                (Nat.succ_pos _) (by dsimp only; omega)
            obtain ⟨finished, base⟩ := ih merged.put (by omega) merged.member
              (isFree_after_put merged)
            refine ⟨finished, base.trans ?_⟩
            rw [setFree_base, clearFree_base, clearFree_base]

theorem ancestorFree_iff {left : Nat} :
    alloc.ancestorFree words left order blk = true ↔
      ∃ up, up < left ∧ alloc.isFree words (order + up) (blk / 2 ^ up) = true := by
  induction left generalizing order blk with
  | zero => simp [ancestorFree]
  | succ left ih =>
    unfold ancestorFree
    split
    · next free => exact iff_of_true rfl ⟨0, Nat.succ_pos _, by simpa using free⟩
    · next notFree =>
        rw [ih]
        constructor
        · rintro ⟨up, within, free⟩
          refine ⟨up + 1, by omega, ?_⟩
          rw [Nat.div_div_eq_div_mul, ← Nat.pow_succ'] at free
          rwa [show order + (up + 1) = order + 1 + up by omega]
        · rintro ⟨up, within, free⟩
          cases up with
          | zero => exact absurd (by simpa using free) notFree
          | succ up =>
            refine ⟨up, by omega, ?_⟩
            rw [Nat.div_div_eq_div_mul, ← Nat.pow_succ']
            rwa [show order + 1 + up = order + (up + 1) by omega]

theorem isBlockFree_of_held (isPower : totalPages = 2 ^ exponent)
    (holds : Holds totalPages words alloc (block :: held)) :
    alloc.isBlockFree totalPages words block.order block.index = false := by
  have notFree := holds.not_free holds.member block.covers_first block.covers_first
  unfold isBlockFree
  rw [if_neg (by simp [notFree])]
  by_contra ancestor
  obtain ⟨up, within, free⟩ := ancestorFree_iff.mp (by simpa using ancestor)
  rw [Nat.div_div_eq_div_mul, ← Nat.pow_succ'] at free
  have usable : block.order + 1 + up ≤ maxUsableOrder totalPages := by omega
  have powers : 2 ^ (block.order + 1 + up) = 2 ^ (up + 1) * 2 ^ block.order := by
    rw [← Nat.pow_add]
    congr 1
    omega
  have member : (⟨block.order + 1 + up, block.index / 2 ^ (up + 1)⟩ : Block) ∈
      allBlocks totalPages := by
    refine mem_allBlocks.mpr ⟨usable, ?_⟩
    obtain ⟨quotient, split⟩ := two_pow_dvd_total isPower usable
    have below := (mem_allBlocks.mp holds.member).2
    have whole : totalPages >>> block.order = 2 ^ (up + 1) * quotient := by
      rw [Nat.shiftRight_eq_div_pow, split, powers, Nat.mul_right_comm,
        Nat.mul_div_cancel _ (Nat.two_pow_pos _)]
    have above : totalPages >>> (block.order + 1 + up) = quotient := by
      rw [Nat.shiftRight_eq_div_pow, split, Nat.mul_div_cancel_left _ (Nat.two_pow_pos _)]
    rw [whole] at below
    rw [above]
    exact Nat.div_lt_of_lt_mul below
  have covers : (⟨block.order + 1 + up, block.index / 2 ^ (up + 1)⟩ : Block).covers block.first =
      true := by
    rw [covers, beq_iff_eq, first, size, size, powers,
      Nat.mul_div_mul_right _ _ (Nat.two_pow_pos _)]
  rw [holds.not_free member block.covers_first covers] at free
  cases free

def addressOf (base : Nat) (block : Block) : Nat := base + block.first * pageSize

theorem blockAddr_eq (inside : block.Inside totalPages)
    (fits : alloc.base + totalPages * pageSize < 18446744073709551616) :
    alloc.blockAddr block.order block.index = addressOf alloc.base block := by
  have below : block.first < totalPages := first_lt inside
  have bytes : block.first * pageSize ≤ totalPages * pageSize := Nat.mul_le_mul_right _ below.le
  have shifted : block.index <<< block.order = block.first := Nat.shiftLeft_eq ..
  rw [blockAddr, shifted, addressOf, asU64_of_lt (show
    block.first * pageSize < 18446744073709551616 by omega), asU64_of_lt (by omega)]

theorem freePages_eq (member : block ∈ allBlocks totalPages) :
    alloc.freePages totalPages words (addressOf alloc.base block) block.order =
      if alloc.isBlockFree totalPages words block.order block.index then .error .internalError
      else .ok (coalesce totalPages words (maxUsableOrder totalPages - block.order) block.order
        block.index (alloc.setFree words block.order block.index)) := by
  have below : block.first < totalPages := first_lt (inside_of_mem member)
  have usable : ¬ block.order > maxUsableOrder totalPages :=
    Nat.not_lt.mpr (mem_allBlocks.mp member).1
  have above : ¬ addressOf alloc.base block < alloc.base := Nat.not_lt.mpr (Nat.le_add_right _ _)
  have offset : addressOf alloc.base block - alloc.base = block.first * pageSize :=
    Nat.add_sub_cancel_left ..
  have page : block.first * pageSize / pageSize = block.first :=
    Nat.mul_div_cancel _ (by decide)
  have index : block.first >>> block.order = block.index := by
    rw [Nat.shiftRight_eq_div_pow]
    exact Nat.mul_div_cancel _ block.size_pos
  have aligned : block.index <<< block.order = block.first := Nat.shiftLeft_eq ..
  unfold freePages
  dsimp only
  rw [if_neg usable, if_neg above, offset,
    if_neg (by simp [Nat.mul_mod_left]), page, if_neg (Nat.not_le.mpr below), index,
    if_neg (by simp [aligned])]

theorem freePages_spec (isPower : totalPages = 2 ^ exponent)
    (holds : Holds totalPages words alloc (block :: held)) :
    ∃ after, alloc.freePages totalPages words (addressOf alloc.base block) block.order = .ok after ∧
      after.base = alloc.base ∧ Holds totalPages words after held := by
  have usable := (mem_allBlocks.mp holds.member).1
  obtain ⟨finished, base⟩ := coalesce_spec holds.put
    (show block.order + (maxUsableOrder totalPages - block.order) = maxUsableOrder totalPages by
      omega) holds.member (isFree_after_put holds)
  refine ⟨_, ?_, base.trans (setFree_base ..), finished⟩
  rw [freePages_eq holds.member, isBlockFree_of_held isPower holds]
  rfl

/-! ### Construction and counting -/

private theorem isFree_of_zero (order blk : Nat) (zero : alloc.bitmap = fun _ => 0) :
    alloc.isFree words order blk = false := by
  simp [isFree_eq, bitSet, zero]

/-- After `n` blocks of one order were marked in an empty bitmap, exactly these
are free. -/
private theorem foldl_setFree_spec (usable : order ≤ maxUsableOrder totalPages)
    (shaped : Shaped totalPages words alloc) (zero : alloc.bitmap = fun _ => 0) :
    ∀ count, count ≤ totalPages >>> order →
      Shaped totalPages words
          ((List.range count).foldl (fun alloc blk => alloc.setFree words order blk) alloc) ∧
        ((List.range count).foldl (fun alloc blk => alloc.setFree words order blk) alloc).base =
          alloc.base ∧
        ∀ other ∈ allBlocks totalPages,
          (((List.range count).foldl (fun alloc blk => alloc.setFree words order blk) alloc).isFree
            words other.order other.index = true ↔ other.order = order ∧ other.index < count) := by
  intro count
  induction count with
  | zero =>
    intro _
    exact ⟨shaped, rfl, fun other _ => by simp [isFree_of_zero _ _ zero]⟩
  | succ count ih =>
    intro le
    obtain ⟨shapedBefore, base, marked⟩ := ih (by omega)
    have member : (⟨order, count⟩ : Block) ∈ allBlocks totalPages :=
      mem_allBlocks.mpr ⟨usable, le⟩
    rw [range_succ, foldl_append, foldl_cons, foldl_nil]
    refine ⟨shapedBefore.set .., (setFree_base ..).trans base, fun other otherMember => ?_⟩
    rw [isFree_setFree shapedBefore member otherMember, Bool.or_eq_true, beq_iff_eq,
      marked other otherMember]
    constructor
    · rintro (⟨sameOrder, below⟩ | rfl)
      · exact ⟨sameOrder, by omega⟩
      · exact ⟨rfl, Nat.lt_succ_self _⟩
    · rintro ⟨rfl, below⟩
      rcases Nat.lt_succ_iff_lt_or_eq.mp below with earlier | rfl
      · exact Or.inl ⟨rfl, earlier⟩
      · exact Or.inr rfl

theorem new_spec {base : Nat} (positive : 0 < totalPages)
    (created : BuddyAllocator.new totalPages words base = .ok alloc) :
    Shaped totalPages words alloc ∧ alloc.base = base ∧ ∀ other ∈ allBlocks totalPages,
      (alloc.isFree words other.order other.index = true ↔
        other.order = maxUsableOrder totalPages) := by
  unfold BuddyAllocator.new at created
  split at created
  · cases created
  · split at created
    · cases created
    · next enough =>
        cases created
        have bits : totalBitmapBits totalPages ≤ 64 * words := by
          unfold requiredBitmapWords wordsForBits at enough
          omega
        have blank : Shaped totalPages words ⟨base, fun _ => 0, bitOffsetsOf totalPages⟩ :=
          ⟨rfl, bits, positive⟩
        obtain ⟨shaped, sameBase, marked⟩ := foldl_setFree_spec
          (Nat.le_refl (maxUsableOrder totalPages)) blank rfl _ (Nat.le_refl _)
        refine ⟨shaped, sameBase, fun other member => (marked other member).trans ?_⟩
        refine and_iff_left_of_imp fun sameOrder => ?_
        rw [← sameOrder]
        exact (mem_allBlocks.mp member).2

theorem new_holds {base : Nat} (isPower : totalPages = 2 ^ exponent)
    (created : BuddyAllocator.new totalPages words base = .ok alloc) :
    Holds totalPages words alloc [] ∧ alloc.base = base := by
  obtain ⟨shaped, sameBase, marked⟩ := new_spec (isPower ▸ Nat.two_pow_pos exponent) created
  refine ⟨⟨shaped, by simp, ?_⟩, sameBase⟩
  rw [append_nil]
  have divides := two_pow_dvd_total isPower (Nat.le_refl (maxUsableOrder totalPages))
  refine (tiling_uniform divides).perm ?_
  refine (perm_ext_iff_of_nodup ?_ (allBlocks_nodup.filter _)).mpr fun other => ?_
  · exact nodup_range.map fun left right same => by cases same; rfl
  · simp only [mem_map, mem_range, ← Nat.shiftRight_eq_div_pow]
    rw [show other ∈ List.filter _ _ ↔ _ from mem_filter]
    constructor
    · rintro ⟨index, below, rfl⟩
      have member : (⟨maxUsableOrder totalPages, index⟩ : Block) ∈ allBlocks totalPages :=
        mem_allBlocks.mpr ⟨Nat.le_refl _, below⟩
      exact ⟨member, (marked _ member).mpr rfl⟩
    · rintro ⟨member, free⟩
      have sameOrder := (marked other member).mp free
      refine ⟨other.index, ?_, by rw [← sameOrder]⟩
      rw [← sameOrder]
      exact (mem_allBlocks.mp member).2

private theorem foldl_add_if (count : Nat) (indices : List Nat) (chosen : Nat → Bool) (size : Nat) :
    indices.foldl (fun count index => if chosen index then count + size else count) count =
      count + ((indices.filter chosen).map fun _ => size).sum := by
  induction indices generalizing count with
  | nil => rfl
  | cons index rest ih =>
    rw [foldl_cons, ih, filter_cons]
    split
    · rw [map_cons, sum_cons]
      omega
    · rfl

theorem freePageCount_eq :
    alloc.freePageCount totalPages words = ((alloc.freeBlocks totalPages words).map size).sum := by
  have byOrder : ∀ (orders : List Nat) (count : Nat),
      orders.foldl (fun count order => (List.range (totalPages >>> order)).foldl (fun count blk =>
          if alloc.isFree words order blk then count + 2 ^ order else count) count) count =
        count + (((orders.flatMap fun order =>
          (List.range (totalPages >>> order)).map (Block.mk order)).filter fun block =>
            alloc.isFree words block.order block.index).map size).sum := by
    intro orders
    induction orders with
    | nil => exact fun count => rfl
    | cons order rest ih =>
      intro count
      rw [foldl_cons, ih, foldl_add_if, flatMap_cons,
        filter_append, map_append, sum_append, filter_map, map_map]
      exact Nat.add_assoc ..
  exact (byOrder _ 0).trans (Nat.zero_add _)

end BuddyAllocator

/-! ### Whole runs -/

open BuddyAllocator

def Client.Sound (totalPages words base : Nat) (client : Client) : Prop :=
  client.alloc.base = base ∧ ∃ held, Holds totalPages words client.alloc held ∧
    client.outstanding.Perm (held.map fun block => (addressOf base block, block.order))

theorem client_step {exponent base : Nat} {client next : Client} {call : BuddyCall}
    (isPower : totalPages = 2 ^ exponent)
    (fits : base + totalPages * pageSize < 18446744073709551616)
    (sound : client.Sound totalPages words base)
    (step : Client.Step totalPages words client call next) :
    next.Sound totalPages words base := by
  obtain ⟨rfl, held, holds, same⟩ := sound
  cases step with
  | allocated allocated =>
    obtain ⟨blk, rfl, sameBase, after⟩ := allocPages_spec holds allocated
    refine ⟨sameBase, _, after, ?_⟩
    rw [map_cons, ← blockAddr_eq (inside_of_mem after.member) fits]
    exact same.cons _
  | exhausted _ => exact ⟨rfl, held, holds, same⟩
  | freed outstanding freed =>
    obtain ⟨block, member, isBlock⟩ := mem_map.mp (same.mem_iff.mp outstanding)
    cases isBlock
    have front := holds.perm (perm_cons_erase member)
    obtain ⟨after, returned, sameBase, rest⟩ := freePages_spec isPower front
    rw [freed] at returned
    cases returned
    refine ⟨sameBase, _, rest, ?_⟩
    have moved := same.trans ((perm_cons_erase member).map _)
    rw [map_cons] at moved
    have erased := moved.erase (addressOf client.alloc.base block, block.order)
    rwa [erase_cons_head] at erased
  | refused _ _ => exact ⟨rfl, held, holds, same⟩

/-- Outstanding blocks are disjoint, aligned and inside the managed memory, and the free page
count is the rest. -/
theorem buddy_safety (totalPages words base exponent : Nat) (isPower : totalPages = 2 ^ exponent)
    (fits : base + totalPages * pageSize < 18446744073709551616) (alloc : BuddyAllocator)
    (created : BuddyAllocator.new totalPages words base = .ok alloc) (history : List BuddyCall)
    (client : Client) (run : Run (Client.Step totalPages words) ⟨alloc, []⟩ history client) :
    (client.outstanding.Pairwise fun left right =>
      left.1 + 2 ^ left.2 * pageSize ≤ right.1 ∨ right.1 + 2 ^ right.2 * pageSize ≤ left.1) ∧
    (∀ block ∈ client.outstanding, base ≤ block.1 ∧ (block.1 - base) % (2 ^ block.2 * pageSize) = 0 ∧
      block.1 + 2 ^ block.2 * pageSize ≤ base + totalPages * pageSize) ∧
    client.alloc.freePageCount totalPages words =
      totalPages - (client.outstanding.map fun block => 2 ^ block.2).sum := by
  have sound : client.Sound totalPages words base := by
    obtain ⟨holds, sameBase⟩ := new_holds isPower created
    exact run.stateInvariant ⟨sameBase, [], holds, .nil⟩
      fun _ _ _ sound step => client_step isPower fits sound step
  obtain ⟨rfl, held, holds, same⟩ := sound
  refine ⟨?_, fun block outstanding => ?_, ?_⟩
  · rw [same.pairwise_iff Or.symm, List.pairwise_map]
    refine holds.tiling.tail_pairwise.imp fun {left right} apart => ?_
    simp only [addressOf, Block.size] at apart ⊢
    rcases apart with before | before
    · have bytes := Nat.mul_le_mul_right pageSize before
      rw [Nat.add_mul] at bytes
      omega
    · have bytes := Nat.mul_le_mul_right pageSize before
      rw [Nat.add_mul] at bytes
      omega
  · obtain ⟨source, member, rfl⟩ := List.mem_map.mp (same.mem_iff.mp outstanding)
    have inside := holds.tiling.inside source (List.mem_append_right _ member)
    have bytes := Nat.mul_le_mul_right pageSize inside
    rw [Nat.succ_mul, Nat.add_mul] at bytes
    refine ⟨Nat.le_add_right _ _, ?_, ?_⟩
    · rw [addressOf, Nat.add_sub_cancel_left, Block.first, Block.size, Nat.mul_assoc]
      exact Nat.mul_mod_left ..
    · simp only [addressOf, Block.first, Block.size] at bytes ⊢
      omega
  · have whole := holds.tiling.sum_size
    rw [List.map_append, List.sum_append, ← freePageCount_eq] at whole
    rw [(same.map _).sum_eq, List.map_map]
    change _ = totalPages - (held.map Block.size).sum
    omega

/-- The law after one allocation of four pages. -/
theorem buddy_safety_one_block :
    ∃ alloc client, BuddyAllocator.new 16 2 268435456 = .ok alloc ∧
      Run (Client.Step 16 2) ⟨alloc, []⟩ [.allocPages 2] client ∧
      client.alloc.freePageCount 16 2 = 16 - (client.outstanding.map fun block => 2 ^ block.2).sum := by
  have step : Client.Step 16 2 ⟨_, []⟩ (.allocPages 2) _ :=
    .allocated (show allocPages 16 2 (initFreeAll 16 2 ⟨268435456, fun _ => 0, bitOffsetsOf 16⟩) 2 =
      .ok (_, _) from rfl)
  exact ⟨_, _, rfl, Run.single step,
    (buddy_safety 16 2 268435456 4 rfl (by decide) _ rfl _ _ (Run.single step)).2.2⟩

end Rvm.Memory
