import Rvm.Foundation.Call
import Rvm.Foundation.Run
import Rvm.Types.Basic

/-!
Owns the stage-2 page table of `rvm-hal/src/aarch64/mmu.rs` and the operations of
`Aarch64Mmu` on it: one level-1 table, a pool of level-2 tables, descriptors that pack
an address, attributes and the number of a table, and the step relation of its
callers.
-/

namespace Rvm.Hal

open Foundation Foundation.Call

def l2BlockSize : BitVec 64 := 1#64 <<< 21

namespace S2Desc

def valid : BitVec 64 := 1#64 <<< 0

def table : BitVec 64 := 1#64 <<< 1

def af : BitVec 64 := 1#64 <<< 10

def memAttrNormalWb : BitVec 64 := 0xF#64 <<< 2

def memAttrDevice : BitVec 64 := 0x0#64 <<< 2

def shInner : BitVec 64 := 3#64 <<< 8

def shOuter : BitVec 64 := 2#64 <<< 8

def s2apRw : BitVec 64 := 3#64 <<< 6

def xn : BitVec 64 := 1#64 <<< 54

end S2Desc

abbrev Table := Vector (BitVec 64) 512

structure Stage2PageTable where
  l1Table : Table
  /-- The pool; the tables below `nextL2` are in use. -/
  l2Tables : Vector Table 4
  nextL2 : Nat

def l1Index (ipa : BitVec 64) : Nat := ((ipa >>> 30) &&& 0x1FF#64).toNat

def l2Index (ipa : BitVec 64) : Nat := ((ipa >>> 21) &&& 0x1FF#64).toNat

namespace Stage2PageTable

def maxL2Tables : Nat := 4

def new : Stage2PageTable where
  l1Table := Vector.replicate 512 0#64
  l2Tables := Vector.replicate 4 (Vector.replicate 512 0#64)
  nextL2 := 0

abbrev TableCall (α : Type) := Call RvmError Stage2PageTable α

/-- `placed` says where the tables of the pool lie in memory. -/
def allocL2For (placed : Nat → BitVec 64) (index : Nat) : TableCall Unit := do
  let here ← get
  throwIf (here.nextL2 ≥ maxL2Tables) .outOfMemory
  let l2Idx := here.nextL2
  let descriptor := (placed l2Idx &&& 0x0000FFFFFFFFF000#64) ||| S2Desc.table |||
    S2Desc.valid ||| BitVec.ofNat 64 l2Idx <<< 56
  set (⟨here.l1Table.setIfInBounds index descriptor,
    here.l2Tables.setIfInBounds l2Idx (Vector.replicate 512 0#64), l2Idx + 1⟩ : Stage2PageTable)

/-- The number of the level-2 table, in the software bits of a level-1 descriptor. -/
def stashed (descriptor : BitVec 64) : Nat := ((descriptor >>> 56) &&& 0xFF#64).toNat

def l1ToL2Index (index : Nat) : TableCall Nat := do
  let here ← get
  return stashed (← orPanic here.l1Table[index]?)

def readEntry (table index : Nat) : TableCall (BitVec 64) := do
  let here ← get
  let entries ← orPanic here.l2Tables[table]?
  orPanic entries[index]?

def writeEntry (table index : Nat) (descriptor : BitVec 64) : TableCall Unit := do
  let here ← get
  let entries ← orPanic here.l2Tables[table]?
  set { here with
    l2Tables := here.l2Tables.setIfInBounds table (entries.setIfInBounds index descriptor) }

def map2mbBlock (placed : Nat → BitVec 64) (ipa pa attrs : BitVec 64) : TableCall Unit := do
  throwIf (ipa &&& (l2BlockSize - 1) ≠ 0 ∨ pa &&& (l2BlockSize - 1) ≠ 0) .alignmentError
  let before ← get
  let l1Entry ← orPanic before.l1Table[l1Index ipa]?
  if l1Entry &&& S2Desc.valid = 0 then allocL2For placed (l1Index ipa)
  let l2Idx ← l1ToL2Index (l1Index ipa)
  let entry ← readEntry l2Idx (l2Index ipa)
  throwIf (entry &&& S2Desc.valid ≠ 0) .memoryOverlap
  let descriptor := (pa &&& 0x0000FFFFFFE00000#64) ||| attrs ||| S2Desc.af ||| S2Desc.valid
  writeEntry l2Idx (l2Index ipa) descriptor

def mapRam2mb (placed : Nat → BitVec 64) (ipa pa : BitVec 64) : TableCall Unit :=
  map2mbBlock placed ipa pa (S2Desc.memAttrNormalWb ||| S2Desc.shInner ||| S2Desc.s2apRw)

def mapDevice2mb (placed : Nat → BitVec 64) (ipa pa : BitVec 64) : TableCall Unit :=
  map2mbBlock placed ipa pa
    (S2Desc.memAttrDevice ||| S2Desc.shOuter ||| S2Desc.s2apRw ||| S2Desc.xn)

/-- The loop counts `addr` up in blocks, below an aligned size. -/
def identityMapRam (placed : Nat → BitVec 64) (size : BitVec 64) : TableCall Unit := do
  throwIf (size &&& (l2BlockSize - 1) ≠ 0) .internalError
  (List.range (size.toNat / l2BlockSize.toNat)).forM fun block =>
    let addr := BitVec.ofNat 64 (block * l2BlockSize.toNat)
    mapRam2mb placed addr addr

def mapPage (placed : Nat → BitVec 64) (guest host : BitVec 64) : TableCall Unit := do
  throwIf (guest &&& (l2BlockSize - 1) ≠ 0 ∨ host &&& (l2BlockSize - 1) ≠ 0) .alignmentError
  mapRam2mb placed guest host

def walk (guest : BitVec 64) : TableCall (Nat × BitVec 64) := do
  let here ← get
  let l1Entry ← orPanic here.l1Table[l1Index guest]?
  throwIf (l1Entry &&& S2Desc.valid = 0) .internalError
  let l2Idx ← l1ToL2Index (l1Index guest)
  let entry ← readEntry l2Idx (l2Index guest)
  throwIf (entry &&& S2Desc.valid = 0) .internalError
  return (l2Idx, entry)

def unmapPage (guest : BitVec 64) : TableCall Unit := do
  let (l2Idx, _) ← walk guest
  writeEntry l2Idx (l2Index guest) 0

def translate (guest : BitVec 64) : TableCall (BitVec 64) := do
  let (_, entry) ← walk guest
  let blockPa := entry &&& 0x0000FFFFFFE00000#64
  let offset := guest &&& (l2BlockSize - 1)
  return blockPa ||| offset

end Stage2PageTable

inductive MmuCall where
  | mapPage (guest host : BitVec 64)
  | unmapPage (guest : BitVec 64)
  | mapRam2mb (ipa pa : BitVec 64)
  | mapDevice2mb (ipa pa : BitVec 64)
  | identityMapRam (size : BitVec 64)
deriving DecidableEq

def MmuCall.serve (placed : Nat → BitVec 64) : MmuCall → Stage2PageTable.TableCall Unit
  | .mapPage guest host => Stage2PageTable.mapPage placed guest host
  | .unmapPage guest => Stage2PageTable.unmapPage guest
  | .mapRam2mb ipa pa => Stage2PageTable.mapRam2mb placed ipa pa
  | .mapDevice2mb ipa pa => Stage2PageTable.mapDevice2mb placed ipa pa
  | .identityMapRam size => Stage2PageTable.identityMapRam placed size

structure MmuEvent where
  call : MmuCall
  outcome : Except RvmError Unit

/-- A call, wherever the tables lie when it is made. -/
def Stage2PageTable.Step (here : Stage2PageTable) (event : MmuEvent) (next : Stage2PageTable) :
    Prop :=
  ∃ placed, (event.call.serve placed).runFrom here = some (event.outcome, next)

end Rvm.Hal
