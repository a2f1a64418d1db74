import Rvm.Foundation.Bytes
import Rvm.Foundation.Call
import Rvm.Foundation.Layout
import Rvm.Rvf.Format
import Rvm.Types.Basic

/-!
Owns the walk over an RVF container of `rvm-rvf/src/container.rs` with the header
and footer decoders of `format.rs` it uses. Slices and indices out of range
panic, so a call that returns has read inside the data only.
-/

namespace Rvm.Rvf

open Foundation Foundation.Call

/-- The errors of the container parser. -/
inductive RvfError where
  | badMagic
  | truncated
  | unsupportedVersion (version : UInt8)
  | payloadOutOfBounds
  | payloadTooLarge
  | malformedFooter
  | signedFlagWithoutFooter
  | noSegments
  | trailingBytes
  | tooManySegments
  | noForwardProgress
deriving DecidableEq, Repr

def segmentVersion : UInt8 := 1
def segmentHeaderSize : Nat := 64
def segmentAlignment : Nat := 64
def maxSegmentPayload : Nat := 4 * 1024 * 1024 * 1024
def maxSegments : Nat := 1048576
def signatureFooterMinSize : Nat := 8
def maxSignatureLength : Nat := 7856
def flagEncrypted : Nat := 0x0002
def flagSigned : Nat := 0x0004
def flagKnownMask : Nat := 0x0FFF

structure SegmentHeader where
  magic : List UInt8
  version : UInt8
  segType : UInt8
  flags : Nat
  segmentId : Nat
  payloadLength : Nat
  timestampNs : Nat
  checksumAlgo : UInt8
  compression : UInt8
  reserved0 : Nat
  reserved1 : Nat
  contentHash : Octets 16
  uncompressedLen : Nat
  alignmentPad : Nat
deriving DecidableEq

namespace SegmentHeader

variable {σ : Type}

def parse (data : List UInt8) : Call RvfError σ SegmentHeader := do
  throwIf (data.length < segmentHeaderSize) .truncated
  let magic ← orPanic (sliceAt data 0 4)
  throwIf (magic ≠ segmentMagicBytes) .badMagic
  let version ← orPanic data[4]?
  throwIf (version ≠ segmentVersion) (.unsupportedVersion version)
  return {
    magic
    version
    segType := ← orPanic data[5]?
    flags := ← orPanic (littleEndianAt 2 data 6)
    segmentId := ← orPanic (littleEndianAt 8 data 0x08)
    payloadLength := ← orPanic (littleEndianAt 8 data 0x10)
    timestampNs := ← orPanic (littleEndianAt 8 data 0x18)
    checksumAlgo := ← orPanic data[0x20]?
    compression := ← orPanic data[0x21]?
    reserved0 := ← orPanic (littleEndianAt 2 data 0x22)
    reserved1 := ← orPanic (littleEndianAt 4 data 0x24)
    contentHash := ← orPanic (octetsAt 16 data 0x28)
    uncompressedLen := ← orPanic (littleEndianAt 4 data 0x38)
    alignmentPad := ← orPanic (littleEndianAt 4 data 0x3C) }

def isSigned (header : SegmentHeader) : Bool :=
  (header.flags &&& flagKnownMask) &&& flagSigned == flagSigned

def isEncrypted (header : SegmentHeader) : Bool :=
  (header.flags &&& flagKnownMask) &&& flagEncrypted == flagEncrypted

end SegmentHeader

structure SignatureFooter where
  sigAlgo : Nat
  sigLength : Nat
  signature : List UInt8
  footerLength : Nat
deriving DecidableEq, Repr

def computeFooterLength (sigLength : Nat) : Nat := 2 + 2 + sigLength + 4

def decodeSignatureFooter {σ : Type} (data : List UInt8) : Call RvfError σ SignatureFooter := do
  throwIf (data.length < signatureFooterMinSize) .truncated
  let sigAlgo ← orPanic (littleEndianAt 2 data 0)
  let sigLength ← orPanic (littleEndianAt 2 data 2)
  throwIf (sigLength > maxSignatureLength) .malformedFooter
  throwIf (data.length < 4 + sigLength + 4) .truncated
  let footerLength ← orPanic (littleEndianAt 4 data (4 + sigLength))
  let signature ← orPanic (sliceAt data 4 (4 + sigLength))
  return ⟨sigAlgo, sigLength, signature, footerLength⟩

def alignUp (n : Nat) : Nat := boundary segmentAlignment n

/-- One bit of the CRC32C register. -/
def crcShift (crc : UInt32) : UInt32 := (crc >>> 1) ^^^ (0x82F63B78 &&& (0 - (crc &&& 1)))

def crc32c (data : List UInt8) : UInt32 :=
  ~~~ data.foldl (fun crc byte => crcShift^[8] (crc ^^^ byte.toUInt32)) 0xFFFFFFFF

def isLevel0Page {σ : Type} (page : List UInt8) : Call RvfError σ Bool := do
  if page.length ≠ rootPageSize then return false
  let stored ← orPanic (littleEndianAt 4 page 0xFFC)
  let magic ← orPanic (sliceAt page 0 4)
  let version ← orPanic (littleEndianAt 2 page 4)
  let sigLength ← orPanic (littleEndianAt 2 page 0x96)
  let covered ← orPanic (sliceAt page 0 0xFFC)
  return magic = rootPageMagicBytes && version = 1 && sigLength ≤ 3688 &&
    stored = (crc32c covered).toNat

def splitRootPage {σ : Type} (data : List UInt8) :
    Call RvfError σ (List UInt8 × Option Span) := do
  if data.length < rootPageSize + segmentHeaderSize then return (data, none)
  let start := data.length - rootPageSize
  if ← isLevel0Page (← orPanic (sliceAt data start data.length)) then
    return (← orPanic (sliceAt data 0 start), some ⟨start, data.length⟩)
  else return (data, none)

/-- One segment located in the byte stream. -/
structure ParsedSegment where
  index : Nat
  offset : Nat
  header : SegmentHeader
  payload : Span
  footer : Option Span
deriving DecidableEq

def ParsedSegment.payloadOf {ε : Type} (segment : ParsedSegment) (data : List UInt8) :
    Call ε Unit (List UInt8) :=
  orPanic (sliceAt data segment.payload.start segment.payload.stop)

def locateFooter {σ : Type} (data : List UInt8) (payloadEnd : Nat) : Call RvfError σ Span := do
  let decoded ← decodeSignatureFooter (← orPanic (sliceAt data payloadEnd data.length))
  throwIf (decoded.sigLength = 0) .signedFlagWithoutFooter
  throwIf (decoded.footerLength ≠ computeFooterLength decoded.sigLength) .malformedFooter
  let footerEnd ← orThrow
    ((checkedAdd64 payloadEnd decoded.footerLength).filter (· ≤ data.length)) .malformedFooter
  return ⟨payloadEnd, footerEnd⟩

def locateSegment {σ : Type} (data : List UInt8) (index offset : Nat) :
    Call RvfError σ (ParsedSegment × Nat) := do
  let header ← SegmentHeader.parse (← orPanic (sliceAt data offset data.length))
  throwIf (header.payloadLength > maxSegmentPayload) .payloadTooLarge
  let payloadStart := offset + segmentHeaderSize
  let payloadEnd ← orThrow (checkedAdd64 payloadStart header.payloadLength) .payloadOutOfBounds
  throwIf (payloadEnd > data.length) .payloadOutOfBounds
  let footer ← if header.isSigned then some <$> locateFooter data payloadEnd else pure none
  let next := alignUp (footer.elim payloadEnd Span.stop)
  throwIf (next ≤ offset) .noForwardProgress
  return (⟨index, offset, header, ⟨payloadStart, payloadEnd⟩, footer⟩, next)

def walkLoop {σ : Type} (data : List UInt8) :
    Nat → List ParsedSegment → Nat → Call RvfError σ (List ParsedSegment)
  | 0, _, _ => orPanic none
  | fuel + 1, segments, offset =>
    if offset < data.length then
      if data.length - offset < segmentHeaderSize then do
        let tail ← orPanic (sliceAt data offset data.length)
        if tail.all (· == 0) then return segments else throw .trailingBytes
      else do
        throwIf (segments.length ≥ maxSegments) .tooManySegments
        let (segment, next) ← locateSegment data segments.length offset
        -- Truncated padding after the final segment ends the walk.
        if next > data.length then return segments ++ [segment]
        else walkLoop data fuel (segments ++ [segment]) (min next data.length)
    else return segments

/-- Walk a segment area without root page. -/
def walkSegments {σ : Type} (fuel : Nat) (data : List UInt8) :
    Call RvfError σ (List ParsedSegment) := do
  throwIf (data.length < segmentHeaderSize) .truncated
  let segments ← walkLoop data fuel [] 0
  throwIf (segments = []) .noSegments
  return segments

structure WalkedContainer where
  segments : List ParsedSegment
  rootPage : Option Span
deriving DecidableEq

/-- Walk up to a supposed root page; when that fails, the page was none and the
whole data is the segment area. -/
def walkContainer {σ : Type} (fuel : Nat) (data : List UInt8) :
    Call RvfError σ WalkedContainer := do
  let (body, rootPage) ← splitRootPage data
  match ← attempt (walkSegments fuel body) with
  | .ok segments => return ⟨segments, rootPage⟩
  | .error e =>
    if rootPage.isSome then
      match ← attempt (walkSegments fuel data) with
      | .ok segments => return ⟨segments, none⟩
      | .error _ => throw e
    else throw e

def walk (data : List UInt8) : Call RvfError Unit (List ParsedSegment) :=
  WalkedContainer.segments <$> walkContainer (data.length + 1) data

end Rvm.Rvf
