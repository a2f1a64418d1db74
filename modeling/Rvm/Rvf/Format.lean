import Mathlib.Tactic.Common

/-!
Owns the part of the RVF v1 format that the stream path reads
(`rvm-rvf/src/{format.rs,policy.rs,container.rs}`): the magics and fixed sizes,
the segment types, their size classes and the size policy.
-/

namespace Rvm.Rvf

/-- The four bytes a segment header starts with. -/
def segmentMagicBytes : List UInt8 := [0x53, 0x46, 0x56, 0x52]

def rootPageMagicBytes : List UInt8 := [0x30, 0x4D, 0x56, 0x52]

def rootPageSize : Nat := 4096

def segTypeKernel : UInt8 := 0x0E
def segTypeEbpf : UInt8 := 0x0F
def segTypeWasm : UInt8 := 0x10

def isExecutable (segType : UInt8) : Bool :=
  segType == segTypeKernel || segType == segTypeEbpf || segType == segTypeWasm

/-- Which size budget a segment's bytes are charged against. -/
inductive SegmentClass where
  | runtime | model | state | memory
deriving DecidableEq, Repr

def segmentClass (segType : UInt8) : SegmentClass :=
  if isExecutable segType then .runtime
  else if segType ∈ [0x01, 0x02, 0x06, 0x08, 0x09] then .model
  else if segType ∈ [0x03, 0x04, 0x20, 0x21, 0x22, 0x23] then .state
  else .memory

structure SizePolicy where
  maxRuntimeBytes : Nat
  maxModelBytes : Nat
  maxStateBytes : Nat
  maxMemoryBytes : Nat
  maxContainerBytes : Nat
  maxSegments : Nat
deriving DecidableEq, Repr

def SizePolicy.failClosed : SizePolicy where
  maxRuntimeBytes := 1024 * 1024
  maxModelBytes := 64 * 1024 * 1024
  maxStateBytes := 16 * 1024 * 1024
  maxMemoryBytes := 4 * 1024 * 1024
  maxContainerBytes := 128 * 1024 * 1024
  maxSegments := 4096

def SizePolicy.budgetFor (policy : SizePolicy) : SegmentClass → Nat
  | .runtime => policy.maxRuntimeBytes
  | .model => policy.maxModelBytes
  | .state => policy.maxStateBytes
  | .memory => policy.maxMemoryBytes

end Rvm.Rvf
