import Mathlib.Algebra.Group.Nat.Defs
import Rvm.Foundation.Run
import Rvm.Types.Basic

/-!
Owns the buddy allocator of `rvm-memory/src/allocator.rs`: one bitmap with a bit
range for each order, word-wise search for a free block, allocation by
splitting and release with coalescing, and the step relation of a caller who
frees only what it was given.
-/

namespace Rvm.Memory

open Foundation

def maxOrder : Nat := 10

/-- `u64::trailing_zeros`; `64` for zero. -/
def trailingZeros (word : BitVec 64) : Nat :=
  ((List.range 64).find? fun bit => word.getLsbD bit).getD 64

def wordsForBits (bits : Nat) : Nat := (bits + 63) / 64

def totalBitmapBits (totalPages : Nat) : Nat :=
  (List.range (maxOrder + 1)).foldl (fun bits order => bits + totalPages >>> order) 0

/-- The bits of all orders below one. -/
def bitsBelow (totalPages : Nat) : Nat → Nat
  | 0 => 0
  | order + 1 => bitsBelow totalPages order + totalPages >>> order

/-- The cumulative bit offsets. The table has no entries above `maxOrder`, where the source
panics. -/
def bitOffsetsOf (totalPages order : Nat) : Nat :=
  if order ≤ maxOrder then bitsBelow totalPages order else 0

def maxUsableOrderFrom (totalPages : Nat) : Nat → Nat
  | 0 => 0
  | order + 1 =>
    if 2 ^ (order + 1) > totalPages then maxUsableOrderFrom totalPages order else order + 1

def maxUsableOrder (totalPages : Nat) : Nat := maxUsableOrderFrom totalPages maxOrder

structure BuddyAllocator where
  base : Nat
  /-- Bit set: block is free. -/
  bitmap : Nat → BitVec 64
  /-- Only the orders up to `maxOrder` are meaningful. -/
  bitOffsets : Nat → Nat

namespace BuddyAllocator

def requiredBitmapWords (totalPages : Nat) : Nat := wordsForBits (totalBitmapBits totalPages)

def bitOffset (alloc : BuddyAllocator) (order blk : Nat) : Nat := alloc.bitOffsets order + blk

def isFree (words : Nat) (alloc : BuddyAllocator) (order blk : Nat) : Bool :=
  let bit := alloc.bitOffset order blk
  if bit / 64 ≥ words then false
  else (alloc.bitmap (bit / 64) >>> (bit % 64)) &&& 1#64 == 1#64

def setFree (words : Nat) (alloc : BuddyAllocator) (order blk : Nat) : BuddyAllocator :=
  let bit := alloc.bitOffset order blk
  if bit / 64 < words then
    { alloc with
      bitmap := Function.update alloc.bitmap (bit / 64)
        (alloc.bitmap (bit / 64) ||| 1#64 <<< (bit % 64)) }
  else alloc

def clearFree (words : Nat) (alloc : BuddyAllocator) (order blk : Nat) : BuddyAllocator :=
  let bit := alloc.bitOffset order blk
  if bit / 64 < words then
    { alloc with
      bitmap := Function.update alloc.bitmap (bit / 64)
        (alloc.bitmap (bit / 64) &&& ~~~(1#64 <<< (bit % 64))) }
  else alloc

/-- The scan of full words; `left` is the number of bitmap words from `wordIdx`
on. -/
def scanWords (alloc : BuddyAllocator) : Nat → Nat → Nat → Nat → Option Nat
  | 0, _, _, _ => none
  | left + 1, wordIdx, remaining, bitOffsetInLevel =>
    if remaining = 0 then none
    else
      let word := alloc.bitmap wordIdx
      if word ≠ 0 ∧ trailingZeros word < min remaining 64 then
        some (bitOffsetInLevel + trailingZeros word)
      else
        scanWords alloc left (wordIdx + 1) (remaining - min remaining 64)
          (bitOffsetInLevel + min remaining 64)

def findFirstFree (totalPages words : Nat) (alloc : BuddyAllocator) (order : Nat) : Option Nat :=
  let blockCount := totalPages >>> order
  if blockCount = 0 then none
  else
    let startWord := alloc.bitOffsets order / 64
    let startBitInWord := alloc.bitOffsets order % 64
    if startBitInWord ≠ 0 ∧ startWord < words then
      let mask := alloc.bitmap startWord >>> startBitInWord
      if mask ≠ 0 ∧ trailingZeros mask < blockCount ∧ startBitInWord + trailingZeros mask < 64 then
        some (trailingZeros mask)
      else
        let consumed := min (64 - startBitInWord) blockCount
        scanWords alloc (words - (startWord + 1)) (startWord + 1) (blockCount - consumed) consumed
    else scanWords alloc (words - startWord) startWord blockCount 0

/-- Only the coarsest blocks are free initially. -/
def initFreeAll (totalPages words : Nat) (alloc : BuddyAllocator) : BuddyAllocator :=
  let order := maxUsableOrder totalPages
  (List.range (totalPages >>> order)).foldl (fun alloc blk => alloc.setFree words order blk)
    { alloc with bitmap := fun _ => 0 }

def new (totalPages words base : Nat) : Except RvmError BuddyAllocator :=
  if !isPageAligned base then .error .alignmentError
  else if words < requiredBitmapWords totalPages then .error .resourceLimitExceeded
  else .ok (initFreeAll totalPages words ⟨base, fun _ => 0, bitOffsetsOf totalPages⟩)

def blockAddr (alloc : BuddyAllocator) (order blk : Nat) : Nat :=
  asU64 (alloc.base + asU64 (blk <<< order * pageSize))

/-- Split block `blk` of the current order down to `order`: the right child of
each split becomes free, the left child is split on. -/
def splitDown (words order : Nat) : Nat → Nat → BuddyAllocator → BuddyAllocator × Nat
  | 0, currentBlk, alloc => (alloc, currentBlk)
  | currentOrder + 1, currentBlk, alloc =>
    if currentOrder + 1 > order then
      let leftChild := currentBlk * 2
      splitDown words order currentOrder leftChild (alloc.setFree words currentOrder (leftChild + 1))
    else (alloc, currentBlk)

def splitSearch (totalPages words : Nat) (alloc : BuddyAllocator) (order : Nat) :
    Nat → Nat → Except RvmError (Nat × BuddyAllocator)
  | 0, _ => .error .outOfMemory
  | left + 1, splitOrder =>
    match alloc.findFirstFree totalPages words splitOrder with
    | some blk =>
      let split := splitDown words order splitOrder blk (alloc.clearFree words splitOrder blk)
      .ok (split.1.blockAddr order split.2, split.1)
    | none => splitSearch totalPages words alloc order left (splitOrder + 1)

/-- Allocate `2 ^ order` contiguous pages. A failing call changes nothing. -/
def allocPages (totalPages words : Nat) (alloc : BuddyAllocator) (order : Nat) :
    Except RvmError (Nat × BuddyAllocator) :=
  if order > maxUsableOrder totalPages then .error .outOfMemory
  else
    match alloc.findFirstFree totalPages words order with
    | some blk => .ok (alloc.blockAddr order blk, alloc.clearFree words order blk)
    | none =>
      splitSearch totalPages words alloc order (maxUsableOrder totalPages - order) (order + 1)

def coalesce (totalPages words : Nat) : Nat → Nat → Nat → BuddyAllocator → BuddyAllocator
  | 0, _, _, alloc => alloc
  | left + 1, currentOrder, currentBlk, alloc =>
    let buddy := currentBlk ^^^ 1
    if buddy ≥ totalPages >>> currentOrder then alloc
    else if !alloc.isFree words currentOrder buddy then alloc
    else
      let cleared := (alloc.clearFree words currentOrder currentBlk).clearFree words currentOrder buddy
      coalesce totalPages words left (currentOrder + 1) (currentBlk / 2)
        (cleared.setFree words (currentOrder + 1) (currentBlk / 2))

def ancestorFree (words : Nat) (alloc : BuddyAllocator) : Nat → Nat → Nat → Bool
  | 0, _, _ => false
  | left + 1, order, blk =>
    if alloc.isFree words order blk then true else ancestorFree words alloc left (order + 1) (blk / 2)

def isBlockFree (totalPages words : Nat) (alloc : BuddyAllocator) (order blk : Nat) : Bool :=
  if alloc.isFree words order blk then true
  else alloc.ancestorFree words (maxUsableOrder totalPages - order) (order + 1) (blk / 2)

def freePages (totalPages words : Nat) (alloc : BuddyAllocator) (addr order : Nat) :
    Except RvmError BuddyAllocator :=
  if order > maxUsableOrder totalPages then .error .invalidTierTransition
  else if addr < alloc.base then .error .alignmentError
  else if (addr - alloc.base) % pageSize ≠ 0 then .error .alignmentError
  else
    let pageOffset := (addr - alloc.base) / pageSize
    if pageOffset ≥ totalPages then .error .alignmentError
    else
      let blockIndex := pageOffset >>> order
      if blockIndex <<< order ≠ pageOffset then .error .alignmentError
      else if alloc.isBlockFree totalPages words order blockIndex then .error .internalError
      else
        .ok (coalesce totalPages words (maxUsableOrder totalPages - order) order blockIndex
          (alloc.setFree words order blockIndex))

def freePageCount (totalPages words : Nat) (alloc : BuddyAllocator) : Nat :=
  (List.range (maxUsableOrder totalPages + 1)).foldl (fun count order =>
    (List.range (totalPages >>> order)).foldl (fun count blk =>
      if alloc.isFree words order blk then count + 2 ^ order else count) count) 0

end BuddyAllocator

/-- An allocator and the blocks it has outstanding: address and order. -/
structure Client where
  alloc : BuddyAllocator
  outstanding : List (Nat × Nat)

inductive BuddyCall where
  | allocPages (order : Nat)
  | freePages (addr order : Nat)
deriving DecidableEq, Repr

/-- One call: any allocation, or the release of an outstanding block with its own
order. A failing call leaves allocator and outstanding blocks alone. -/
inductive Client.Step (totalPages words : Nat) : Client → BuddyCall → Client → Prop
  | allocated {client : Client} {order addr : Nat} {after : BuddyAllocator} :
      client.alloc.allocPages totalPages words order = .ok (addr, after) →
      Step totalPages words client (.allocPages order) ⟨after, (addr, order) :: client.outstanding⟩
  | exhausted {client : Client} {order : Nat} {e : RvmError} :
      client.alloc.allocPages totalPages words order = .error e →
      Step totalPages words client (.allocPages order) client
  | freed {client : Client} {addr order : Nat} {after : BuddyAllocator} :
      (addr, order) ∈ client.outstanding →
      client.alloc.freePages totalPages words addr order = .ok after →
      Step totalPages words client (.freePages addr order)
        ⟨after, client.outstanding.erase (addr, order)⟩
  | refused {client : Client} {addr order : Nat} {e : RvmError} :
      (addr, order) ∈ client.outstanding →
      client.alloc.freePages totalPages words addr order = .error e →
      Step totalPages words client (.freePages addr order) client

end Rvm.Memory
