import Mathlib.Data.List.Sort
import Rvm.Foundation.Bytes
import Rvm.Foundation.Call
import Rvm.Rvf.Format
import Rvm.Types.Basic
import Rvm.Types.Capability

/-!
Owns the vocabulary of the stream verifier (`rvm-rvf/src/stream/{error.rs,events.rs,mod.rs}`),
its hash commitments (`commit.rs`, with SHA-256 and Ed25519 as the parameters of
`Primitives`), the stream descriptor with the checks a signed one passes (`descriptor.rs`;
a read outside is a panic), and replay protection over a shared store of pins (`pin.rs`).
-/

namespace Rvm.Rvf

open Foundation

inductive StreamError where
  | unknownSigner | descriptorTruncated | badMagic | unsupportedVersion | badFlags
  | limitExceeded | tableInvalid | badSignature | staleEpoch | epochConflict | expired
  | policyMismatch | chunkHashMismatch | tableHashMismatch | unexpectedFrame | frameSizeLie
  | requirementsUnmet | identityMismatch | weakChecksum | poisoned | badState | duplicateFlood
  | segmentMalformed | segmentMismatch | identityRequired | tooManyOpenSegments | clockRequired
deriving DecidableEq, Repr

inductive StreamState where
  | awaitDescriptor
  | ready
  | receiving
  | suspended
  | complete
  | completeUnverified
  | rejected (reason : StreamError)
  | poisoned (reason : StreamError)
deriving DecidableEq, Repr

def StreamState.isTerminal : StreamState → Bool
  | .rejected _ | .poisoned _ | .complete | .completeUnverified => true
  | _ => false

/-- Outcome of the whole-body identity check at completion. -/
inductive IdentityStatus where
  | verified | unverifiable | notPresent
deriving DecidableEq, Repr

structure PoisonInfo where
  segId : Option Nat
  chunkIndex : Nat
  reason : StreamError
deriving DecidableEq, Repr

structure VerifiedChunk where
  segId : Nat
  segType : UInt8
  chunkIndex : Nat
  segmentOffset : Nat
  bodyOffset : Nat
  bytes : List UInt8
deriving DecidableEq

/-- Result of accepting one frame. -/
inductive Event where
  | descriptorVerified (descriptorHash : Octets 32) (segCount bodyLen : Nat)
  | tableVerified (segId : Nat)
  | duplicate (segId chunkIndex : Nat)
  | unverified (segId chunkIndex : Nat)
  | duplicateDescriptor
  | chunk (chunk : VerifiedChunk) (segmentVerified : Bool) (stageVerified : Option Nat)
      (complete : Option IdentityStatus)
deriving DecidableEq

/-- The highest accepted epoch of a lineage. -/
structure EpochPin where
  epoch : Nat
  descriptorHash : Octets 32
  signerKeyId : Octets 8

inductive ReplayProtection where
  | unpinned
  | lookup (pin : Octets 8 → Octets 16 → Option EpochPin) (nowNs : Option Nat)
  | store (pin : Octets 8 → Octets 16 → Option EpochPin) (nowNs : Option Nat)

namespace ReplayProtection

def pinOf (signer : Octets 8) (fileId : Octets 16) : ReplayProtection → Option EpochPin
  | .unpinned => none
  | .lookup pin _ | .store pin _ => pin signer fileId

def now : ReplayProtection → Option Nat
  | .unpinned => none
  | .lookup _ nowNs | .store _ nowNs => nowNs

def isPinned : ReplayProtection → Bool
  | .unpinned => false
  | .lookup _ _ | .store _ _ => true

end ReplayProtection

structure StreamPolicy where
  maxDescriptorBytes : Nat
  maxSegments : Nat
  maxSegmentBytes : Nat
  maxUncompressedLen : Nat
  maxTableBytes : Nat
  maxOpenSegments : Nat
  size : SizePolicy
  trustedKeys : List (Octets 32)
  replay : ReplayProtection
  expectedPolicyHash : Option (Octets 32)
  faultBudget : Nat
  maxDuplicateFrames : Option Nat

def StreamPolicy.new (trustedKeys : List (Octets 32)) (replay : ReplayProtection) :
    StreamPolicy where
  maxDescriptorBytes := 1 <<< 20
  maxSegments := 16384
  maxSegmentBytes := 1 <<< 30
  maxUncompressedLen := 1 <<< 32
  maxTableBytes := 64 <<< 20
  maxOpenSegments := 256
  size := SizePolicy.failClosed
  trustedKeys := trustedKeys
  replay := replay
  expectedPolicyHash := none
  faultBudget := 4
  maxDuplicateFrames := none

/-- The cryptographic primitives of the stream: `sha256`, and whether a public
key decodes and strictly verifies a signature over a message. -/
structure Primitives where
  sha256 : List UInt8 → Octets 32
  verifyStrict : Octets 32 → List UInt8 → Octets 64 → Bool

def leafTag : UInt8 := 0x00
def tableTag : UInt8 := 0x01
def sigLen : Nat := 64

def sigDomain : List UInt8 :=
  [0x52, 0x56, 0x46, 0x2D, 0x76, 0x31, 0x2D, 0x73, 0x74, 0x72, 0x65, 0x61, 0x6D, 0x2D,
    0x64, 0x65, 0x73, 0x63, 0x72, 0x69, 0x70, 0x74, 0x6F, 0x72, 0x00]

def leafMessage (fileId : Octets 16) (segId chunkIndex : Nat) (bytes : List UInt8) : List UInt8 :=
  leafTag :: (fileId.toList ++ littleEndianBytes 8 segId ++ littleEndianBytes 4 chunkIndex
    ++ littleEndianBytes 8 bytes.length ++ bytes)

def tableMessage (fileId : Octets 16) (segId n : Nat) (flat : List UInt8) : List UInt8 :=
  tableTag :: (fileId.toList ++ littleEndianBytes 8 segId ++ littleEndianBytes 4 n ++ flat)

/-- The message a descriptor signature covers. -/
def signedMessage (unsigned : List UInt8) : List UInt8 := sigDomain ++ unsigned

theorem leafMessage_injective {fileId : Octets 16} {segId chunkIndex : Nat}
    {left right : List UInt8}
    (equal : leafMessage fileId segId chunkIndex left = leafMessage fileId segId chunkIndex right) :
    left = right := by
  simp only [leafMessage, List.cons.injEq, true_and, List.append_assoc,
    List.append_cancel_left_eq] at equal
  exact (List.append_inj equal (by rw [littleEndianBytes_length, littleEndianBytes_length])).2

theorem tableMessage_injective {fileId : Octets 16} {segId n : Nat} {left right : List UInt8}
    (equal : tableMessage fileId segId n left = tableMessage fileId segId n right) :
    left = right := by
  simpa only [tableMessage, List.cons.injEq, true_and, List.append_cancel_left_eq] using equal

namespace Primitives

variable (primitives : Primitives)

def leafHash (fileId : Octets 16) (segId chunkIndex : Nat) (bytes : List UInt8) : Octets 32 :=
  primitives.sha256 (leafMessage fileId segId chunkIndex bytes)

def chunkListHashFlat (fileId : Octets 16) (segId : Nat) (flat : List UInt8) :
    Option (Octets 32) :=
  if flat.length % 32 ≠ 0 then none
  else if flat.length / 32 ≥ 2 ^ 32 then none
  else some (primitives.sha256 (tableMessage fileId segId (flat.length / 32) flat))

def chunkListHash (fileId : Octets 16) (segId : Nat) (leaves : List (Octets 32)) : Octets 32 :=
  primitives.sha256
    (tableMessage fileId segId leaves.length (leaves.map List.Vector.toList).flatten)

def leaves (fileId : Octets 16) (segId : Nat) (chunks : List (List UInt8)) : List (Octets 32) :=
  chunks.mapIdx fun idx bytes => primitives.leafHash fileId segId idx bytes

/-- First 8 bytes of the hash of a public key. -/
def signerKeyId (publicKey : Octets 32) : Octets 8 :=
  ⟨(primitives.sha256 publicKey.toList).toList.take 8, by simp⟩

def descriptorHash (descriptor : List UInt8) : Octets 32 := primitives.sha256 descriptor

/-- Whether the trailing 64 bytes are a signature over the rest. -/
def verifyDescriptorSignature (descriptor : List UInt8) (publicKey : Octets 32) : Bool :=
  match octetsAt 64 descriptor (descriptor.length - sigLen) with
  | none => false
  | some signature =>
    primitives.verifyStrict publicKey
      (signedMessage (descriptor.take (descriptor.length - sigLen))) signature

end Primitives

open Foundation.Call

def magic : List UInt8 := [0x52, 0x56, 0x53, 0x44]
def version : Nat := 1
def headerSize : Nat := 0x90
def entrySize : Nat := 72
def trailerSize : Nat := 2 + sigLen
def flagChunked : Nat := 1
def flagIdentityPresent : Nat := 2
def flagsKnown : Nat := 7
def chunkLog2Segment : Nat := 0xFF
def chunkLog2Min : Nat := 12
def chunkLog2Max : Nat := 30
def segTypeRootPage : UInt8 := 0xFE
def maxStages : Nat := 32

/-- The validated fixed header. -/
structure StreamHeader where
  flags : Nat
  chunkLog2 : Nat
  fileId : Octets 16
  epoch : Nat
  bodyLen : Nat
  rvfIdentity : Octets 32
  policyHash : Octets 32
  segCount : Nat
  expiresNs : Nat
  signerKeyId : Octets 8
deriving DecidableEq

structure StreamEntry where
  segId : Nat
  segType : UInt8
  stage : Nat
  flags : Nat
  requiresMask : Nat
  bodyOffset : Nat
  storedLen : Nat
  uncompressedLen : Nat
  chunkTableHash : Octets 32
deriving DecidableEq

section Reads

variable {σ : Type} (b : List UInt8) (o : Nat)

def u8At : Call StreamError σ UInt8 := orPanic b[o]?
def u16At : Call StreamError σ Nat := orPanic (littleEndianAt 2 b o)
def u32At : Call StreamError σ Nat := orPanic (littleEndianAt 4 b o)
def u64At : Call StreamError σ Nat := orPanic (littleEndianAt 8 b o)
def arrayAt (width : Nat) : Call StreamError σ (Octets width) := orPanic (octetsAt width b o)

end Reads

/-- The bounds check of an index into the stages. -/
def stageSlot (stage : Nat) : Option Nat := if stage < maxStages then some stage else none

namespace StreamHeader

/-- Whether the chunk size is a known one and agrees with the flags. -/
def chunkedOk (flags chunkLog2 : Nat) : Bool :=
  if chunkLog2 = chunkLog2Segment then flags &&& flagChunked == 0
  else decide (chunkLog2Min ≤ chunkLog2) && decide (chunkLog2 ≤ chunkLog2Max) &&
    flags &&& flagChunked != 0

def parse {σ : Type} (b : List UInt8) : Call StreamError σ StreamHeader := do
  throwIf (b.length < headerSize) .descriptorTruncated
  throwIf ((← arrayAt b 0 4).toList ≠ magic) .badMagic
  throwIf ((← u16At b 4) ≠ version) .unsupportedVersion
  let flags ← u16At b 6
  let chunkLog2 ← u8At b 9
  let hashAlg ← u8At b 8
  let sigAlg ← u16At b 0x0A
  let reserved ← u32At b 0x0C
  let tail ← arrayAt b 0x88 8
  -- `flags & !FLAGS_KNOWN != 0`: a bit above the known ones.
  throwIf (flags > flagsKnown ∨ hashAlg ≠ 1 ∨ sigAlg ≠ 0 ∨ reserved ≠ 0 ∨
    tail ≠ Octets.zero 8 ∨ chunkedOk flags chunkLog2.toNat = false) .badFlags
  let segCount ← u32At b 0x70
  let tableLen ← u32At b 0x74
  throwIf (segCount * entrySize ≠ tableLen) .tableInvalid
  let rvfIdentity ← arrayAt b 0x30 32
  throwIf (flags &&& flagIdentityPresent = 0 ∧ rvfIdentity ≠ Octets.zero 32) .badFlags
  let fileId ← arrayAt b 0x10 16
  let epoch ← u64At b 0x20
  let bodyLen ← u64At b 0x28
  let policyHash ← arrayAt b 0x50 32
  let expiresNs ← u64At b 0x78
  let signerKeyId ← arrayAt b 0x80 8
  return { flags, chunkLog2 := chunkLog2.toNat, fileId, epoch, bodyLen, rvfIdentity, policyHash,
           segCount, expiresNs, signerKeyId }

variable (h : StreamHeader)

def chunkSize : Option Nat :=
  if h.chunkLog2 = chunkLog2Segment then none else some (1 <<< h.chunkLog2)

/-- Chunks in a segment; `none` when the count does not fit a `u32`. -/
def chunkCount (storedLen : Nat) : Option Nat :=
  match h.chunkSize with
  | some cs =>
    if storedLen > cs then
      let n := (storedLen + cs - 1) / cs
      if n ≤ 4294967295 then some n else none
    else some 1
  | none => some 1

def chunkLen (storedLen index : Nat) : Option Nat :=
  match h.chunkCount storedLen with
  | none => none
  | some n =>
    if index ≥ n then none
    else
      match h.chunkSize with
      | some cs =>
        if n > 1 then if index + 1 < n then some cs else some (storedLen - cs * (n - 1))
        else some storedLen
      | none => some storedLen

end StreamHeader

def StreamEntry.fromBytes {σ : Type} (b : List UInt8) : Call StreamError σ StreamEntry := do
  let segId ← u64At b 0
  let segType ← u8At b 8
  let stage ← u8At b 9
  let flags ← u16At b 10
  let requiresMask ← u32At b 12
  let bodyOffset ← u64At b 16
  let storedLen ← u64At b 24
  let uncompressedLen ← u64At b 32
  let chunkTableHash ← arrayAt b 40 32
  return { segId, segType, stage := stage.toNat, flags, requiresMask, bodyOffset, storedLen,
           uncompressedLen, chunkTableHash }

/-- The local variables of the table walk. -/
structure TableScan where
  entries : List StreamEntry
  expectOff : Nat
  classTotal : SegmentClass → Nat
  unionReq : Nat → Nat

def TableScan.empty : TableScan := ⟨[], 0, fun _ => 0, fun _ => 0⟩

/-- Whether an entry's lengths are wrong for its type: the root page entry is
the last one and has the size of a root page, any other holds a segment header. -/
def rowShapeInvalid (h : StreamHeader) (i : Nat) (e : StreamEntry) : Bool :=
  if e.segType = segTypeRootPage then
    decide (i + 1 ≠ h.segCount ∨ e.storedLen ≠ rootPageSize ∨ e.uncompressedLen ≠ 0)
  else decide (e.storedLen < 64)

def scanRow (h : StreamHeader) (policy : StreamPolicy) (row : Nat × List UInt8) :
    Call StreamError TableScan PUnit := do
  let e ← StreamEntry.fromBytes row.2
  let scan ← get
  throwIf (e.bodyOffset ≠ scan.expectOff ∨ e.storedLen = 0) .tableInvalid
  throwIf (e.flags ≠ 0) .tableInvalid
  throwIf (rowShapeInvalid h row.1 e) .tableInvalid
  throwIf (e.stage ≥ maxStages ∨ e.requiresMask &&& (1 <<< e.stage) ≠ 0) .tableInvalid
  throwIf (e.storedLen > policy.maxSegmentBytes ∨ e.uncompressedLen > policy.maxUncompressedLen)
    .limitExceeded
  throwIf (h.chunkSize = none ∧ e.storedLen > 4294967295) .limitExceeded
  let n ← orThrow (h.chunkCount e.storedLen) .limitExceeded
  throwIf (n > 1 ∧ n * 32 > policy.maxTableBytes) .limitExceeded
  let sizeClass := segmentClass e.segType
  let total ← orThrow (checkedAdd64 (scan.classTotal sizeClass) e.storedLen) .limitExceeded
  throwIf (total > policy.size.budgetFor sizeClass) .limitExceeded
  let expectOff ← orThrow (checkedAdd64 e.bodyOffset e.storedLen) .tableInvalid
  let stage ← orPanic (stageSlot e.stage)
  set
    { entries := scan.entries ++ [e]
      expectOff := expectOff
      classTotal := Function.update scan.classTotal sizeClass total
      unionReq := Function.update scan.unionReq stage
        (scan.unionReq stage ||| e.requiresMask) : TableScan }

def chunksExact (width : Nat) (bytes : List UInt8) : List (Nat × List UInt8) :=
  (List.range (bytes.length / width)).map fun i => (i, (bytes.drop (i * width)).take width)

def acyclicPass (req : Nat → Nat) (done : Nat) : Nat × Bool :=
  (List.range maxStages).foldl
    (fun pass s =>
      if pass.1 &&& (1 <<< s) = 0 ∧ req s &&& (4294967295 ^^^ pass.1) = 0 then
        (pass.1 ||| (1 <<< s), true)
      else pass)
    (done, false)

def acyclicPasses (req : Nat → Nat) : Nat → Nat → Nat
  | 0, done => done
  | passes + 1, done =>
    let pass := acyclicPass req done
    if pass.2 then acyclicPasses req passes pass.1 else pass.1

/-- Whether the stages can be done in some order. -/
def stagesAcyclic (req : Nat → Nat) : Bool := acyclicPasses req maxStages 0 == 4294967295

/-- The order of pairs that `sort_unstable` sorts by. -/
def IndexOrder (left right : Nat × Nat) : Prop :=
  left.1 < right.1 ∨ left.1 = right.1 ∧ left.2 ≤ right.2

instance : DecidableRel IndexOrder := fun left right =>
  inferInstanceAs (Decidable (left.1 < right.1 ∨ left.1 = right.1 ∧ left.2 ≤ right.2))

/-- The lookup table: segment ids with their entry index, sorted. -/
def sortedIndex (entries : List StreamEntry) : List (Nat × Nat) :=
  (entries.zipIdx.map fun entry => (entry.1.segId, entry.2)).insertionSort IndexOrder

/-- `windows(2).any(..)`: two neighbours with one segment id. -/
def repeatsId : List (Nat × Nat) → Bool
  | left :: right :: rest => left.1 == right.1 || repeatsId (right :: rest)
  | _ => false

def parseTable {σ : Type} (table : List UInt8) (h : StreamHeader) (policy : StreamPolicy) :
    Call StreamError σ (List StreamEntry × List (Nat × Nat)) := do
  throwIf (h.segCount = 0) .tableInvalid
  throwIf (h.bodyLen > policy.size.maxContainerBytes) .limitExceeded
  let walked ← within TableScan.empty do
    (chunksExact entrySize table).forM (scanRow h policy)
    get
  let scan := walked.1
  throwIf (scan.expectOff ≠ h.bodyLen) .tableInvalid
  let index := sortedIndex scan.entries
  throwIf (repeatsId index) .tableInvalid
  throwIf (stagesAcyclic scan.unionReq = false) .tableInvalid
  return (scan.entries, index)

/-- A descriptor that passed every check. -/
structure VerifiedDescriptor where
  header : StreamHeader
  entries : List StreamEntry
  index : List (Nat × Nat)
  descriptorHash : Octets 32
  signer : Octets 32
deriving DecidableEq

/-- The entry index of a segment id: a binary search on distinct sorted keys. -/
def VerifiedDescriptor.find (d : VerifiedDescriptor) (segId : Nat) : Option Nat :=
  (d.index.find? fun pair => pair.1 == segId).map (·.2)

def descriptorLen (segCount : Nat) : Option Nat :=
  let length := segCount * entrySize + (headerSize + trailerSize)
  if length < 18446744073709551616 then some length else none

variable (primitives : Primitives)

/-- The first trusted key with the header's key id that verifies the signature,
and whether a key with that id was met. -/
def findSigner (bytes : List UInt8) (keyId : Octets 8) (known : Bool) :
    List (Octets 32) → Option (Octets 32) × Bool
  | [] => (none, known)
  | pk :: rest =>
    if primitives.signerKeyId pk = keyId then
      if primitives.verifyDescriptorSignature bytes pk then (some pk, true)
      else findSigner bytes keyId true rest
    else findSigner bytes keyId known rest

def checkExpiry {σ : Type} (h : StreamHeader) (replay : ReplayProtection) :
    Call StreamError σ PUnit :=
  if h.expiresNs ≠ 0 ∧ replay.isPinned then do
    let now ← orThrow replay.now .clockRequired
    throwIf (now ≥ h.expiresNs) .expired
  else pure ⟨⟩

def checkPin {σ : Type} (h : StreamHeader) (dhash : Octets 32) :
    Option EpochPin → Call StreamError σ PUnit
  | none => pure ⟨⟩
  | some pin => do
    throwIf (h.epoch < pin.epoch) .staleEpoch
    throwIf (h.epoch = pin.epoch ∧ pin.descriptorHash ≠ dhash) .epochConflict

def decodeDescriptor {σ : Type} (bytes : List UInt8) (policy : StreamPolicy) :
    Call StreamError σ VerifiedDescriptor := do
  throwIf (bytes.length > policy.maxDescriptorBytes) .limitExceeded
  let h ← StreamHeader.parse bytes
  throwIf (h.segCount > policy.maxSegments ∨ h.segCount > policy.size.maxSegments) .limitExceeded
  throwIf (descriptorLen h.segCount ≠ some bytes.length) .descriptorTruncated
  let sigLenAt := headerSize + h.segCount * entrySize
  throwIf ((← u16At bytes sigLenAt) ≠ sigLen) .descriptorTruncated
  let found := findSigner primitives bytes h.signerKeyId false policy.trustedKeys
  let signer ← orThrow found.1 (if found.2 then .badSignature else .unknownSigner)
  checkExpiry h policy.replay
  throwIf (policy.expectedPolicyHash.any (· ≠ h.policyHash)) .policyMismatch
  let dhash := primitives.descriptorHash bytes
  checkPin h dhash (policy.replay.pinOf h.signerKeyId h.fileId)
  let rows ← orPanic (sliceAt bytes headerSize sigLenAt)
  let table ← parseTable rows h policy
  return { header := h, entries := table.1, index := table.2, descriptorHash := dhash, signer }

end Rvm.Rvf

namespace Rvm.Rvf

open Foundation

deriving instance DecidableEq for EpochPin

def VerifiedDescriptor.pin (d : VerifiedDescriptor) : EpochPin :=
  ⟨d.header.epoch, d.descriptorHash, d.header.signerKeyId⟩

structure PinStore (Pins : Type) where
  lookup : Pins → Octets 8 → Octets 16 → Option EpochPin
  advance : Pins → Octets 8 → Octets 16 → Option EpochPin → EpochPin → Bool × Pins

def memoryPinStore : PinStore (Octets 8 × Octets 16 → Option EpochPin) where
  lookup pins signer fileId := pins (signer, fileId)
  advance pins signer fileId expected new :=
    if pins (signer, fileId) ≠ expected ∨ ∃ pin ∈ expected, new.epoch < pin.epoch then (false, pins)
    else (true, Function.update pins (signer, fileId) (some new))

/-- `ReplayProtection` with the store left out: who holds it names the store. -/
inductive ReplayPolicy where
  | unpinned
  | lookup (pin : Octets 8 → Octets 16 → Option EpochPin) (nowNs : Option Nat)
  | store (nowNs : Option Nat)

def ReplayPolicy.over {Pins : Type} (store : PinStore Pins) (pins : Pins) :
    ReplayPolicy → ReplayProtection
  | .unpinned => .unpinned
  | .lookup pin nowNs => .lookup pin nowNs
  | .store nowNs => .store (store.lookup pins) nowNs

/-- The protection records into the store. -/
def ReplayPolicy.isStore : ReplayPolicy → Bool
  | .store _ => true
  | .unpinned | .lookup .. => false

end Rvm.Rvf
