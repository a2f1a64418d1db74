import Rvm.Foundation.Bytes
import Rvm.Foundation.Call
import Rvm.Types.Basic
import Rvm.Types.Capability

/-!
Owns the framing check of WASM modules of `rvm-wasm/src/lib.rs`: section ids and their
order, the LEB128 reader and `validate_module`. An index out of range and, in a build
that checks for it, an overflow are panics.
-/

namespace Rvm.Wasm

open Foundation Foundation.Call

def maxModuleSize : Nat := 1024 * 1024

inductive WasmSectionId where
  | custom | type | «import» | function | table | memory | global | «export» | start | element
  | code | data | dataCount | tag
deriving DecidableEq, Repr

namespace WasmSectionId

def asU8 : WasmSectionId → UInt8
  | .custom => 0
  | .type => 1
  | .import => 2
  | .function => 3
  | .table => 4
  | .memory => 5
  | .global => 6
  | .export => 7
  | .start => 8
  | .element => 9
  | .code => 10
  | .data => 11
  | .dataCount => 12
  | .tag => 13

def orderRank : WasmSectionId → Nat
  | .custom => 0
  | .type => 1
  | .import => 2
  | .function => 3
  | .table => 4
  | .memory => 5
  | .tag => 6
  | .global => 7
  | .export => 8
  | .start => 9
  | .element => 10
  | .dataCount => 11
  | .code => 12
  | .data => 13

def fromU8 : UInt8 → Option WasmSectionId
  | 0 => some .custom
  | 1 => some .type
  | 2 => some .import
  | 3 => some .function
  | 4 => some .table
  | 5 => some .memory
  | 6 => some .global
  | 7 => some .export
  | 8 => some .start
  | 9 => some .element
  | 10 => some .code
  | 11 => some .data
  | 12 => some .dataCount
  | 13 => some .tag
  | _ => none

theorem fromU8_asU8 (id : WasmSectionId) : fromU8 id.asU8 = some id := by
  cases id <;> rfl

theorem asU8_of_fromU8 {val : UInt8} {id : WasmSectionId} (known : fromU8 val = some id) :
    val = id.asU8 := by
  unfold fromU8 at known
  split at known <;> cases known <;> rfl

end WasmSectionId

structure WasmValidationResult where
  sectionCount : Nat
  hasType : Bool
  hasFunction : Bool
  hasMemory : Bool
  hasExport : Bool
  hasCode : Bool
  totalPayloadBytes : Nat
deriving DecidableEq, Repr

def WasmValidationResult.default : WasmValidationResult := ⟨0, false, false, false, false, false, 0⟩

abbrev WasmCall (α : Type) := Call RvmError Unit α

/-- The rounds of `read_leb128_u32` that are left; the fifth takes four bits only. -/
def readLebRounds (bytes : List UInt8) (start : Nat) : Nat → Nat → Nat → Nat → WasmCall (Nat × Nat)
  | 0, _, _, _ => throw .proofInvalid
  | remaining + 1, result, shift, pos => do
      throwIf (pos ≥ bytes.length) .proofInvalid
      let byte ← orPanic bytes[pos]?
      throwIf (remaining = 0 ∧ byte > 0x0F) .proofInvalid
      let result := result ||| asU32 ((byte &&& 0x7F).toNat <<< shift)
      if byte &&& 0x80 = 0 then
        return (result, pos + 1 - start)
      else
        readLebRounds bytes start remaining result (shift + 7) (pos + 1)

def readLeb128U32 (bytes : List UInt8) (start : Nat) : WasmCall (Nat × Nat) :=
  readLebRounds bytes start 5 0 0 start

/-- The variables of `validate_module`. -/
structure FramingState where
  pos : Nat
  lastNonCustomRank : Option Nat
  seenSections : Nat
  result : WasmValidationResult
deriving DecidableEq, Repr

/-- The flag that tells that a section is there. -/
def WasmValidationResult.track (result : WasmValidationResult) :
    WasmSectionId → WasmValidationResult
  | .type => { result with hasType := true }
  | .function => { result with hasFunction := true }
  | .memory => { result with hasMemory := true }
  | .export => { result with hasExport := true }
  | .code => { result with hasCode := true }
  | _ => result

/-- Read a section's header and check that its payload is there. Returns the id, the
size and where the payload starts. -/
def sectionHeader (bytes : List UInt8) (pos : Nat) : WasmCall (WasmSectionId × Nat × Nat) := do
  let idByte ← orPanic bytes[pos]?
  let id ← orThrow (WasmSectionId.fromU8 idByte) .proofInvalid
  let (size, read) ← readLeb128U32 bytes (pos + 1)
  throwIf (pos + 1 + read + size > bytes.length) .proofInvalid
  return (id, size, pos + 1 + read)

def enforceOrder (s : FramingState) (id : WasmSectionId) : WasmCall FramingState := do
  if id = .custom then
    return s
  else
    throwIf (∃ last ∈ s.lastNonCustomRank, id.orderRank ≤ last) .proofInvalid
    let bit := 1 <<< id.asU8.toNat
    throwIf (s.seenSections &&& bit ≠ 0) .proofInvalid
    return { s with
      seenSections := s.seenSections ||| bit
      lastNonCustomRank := some id.orderRank }

/-- One round of the loop over the sections. -/
def nextSection (checks : Bool) (bytes : List UInt8) (s : FramingState) :
    WasmCall FramingState := do
  let (id, size, payload) ← sectionHeader bytes s.pos
  let s ← enforceOrder s id
  let sectionCount ← orPanic (plainAdd checks 65536 s.result.sectionCount 1)
  return { s with
    pos := payload + size
    result := { s.result.track id with
      sectionCount := sectionCount
      totalPayloadBytes := min (s.result.totalPayloadBytes + size) u32Max } }

/-- The loop over the sections. Each takes a byte at least, so that a round for each
byte and one to stop are enough. -/
def validateSections (checks : Bool) (bytes : List UInt8) : Nat → FramingState →
    WasmCall WasmValidationResult
  | 0, _ => orPanic none
  | rounds + 1, s =>
    if s.pos < bytes.length then do
      let next ← nextSection checks bytes s
      validateSections checks bytes rounds next
    else
      return s.result

def wasmMagic : List UInt8 := [0x00, 0x61, 0x73, 0x6D]
def wasmVersion : List UInt8 := [0x01, 0x00, 0x00, 0x00]

def validateModule (checks : Bool) (bytes : List UInt8) : WasmCall WasmValidationResult := do
  throwIf (bytes.length > maxModuleSize) .resourceLimitExceeded
  throwIf (bytes.length < 8) .proofInvalid
  let magic ← orPanic (sliceAt bytes 0 4)
  throwIf (magic ≠ wasmMagic) .proofInvalid
  let version ← orPanic (sliceAt bytes 4 8)
  throwIf (version ≠ wasmVersion) .unsupported
  validateSections checks bytes (bytes.length + 1) ⟨8, none, 0, .default⟩

end Rvm.Wasm
