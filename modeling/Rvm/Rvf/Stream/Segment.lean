import Rvm.Rvf.Report

/-!
Owns the checks of one segment while its chunks go by
(`rvm-rvf/src/stream/segment.rs`): the header, the hashers, the signature footer
and the padding, and the facts they come to. A hasher is the bytes it absorbed.
-/

namespace Rvm.Rvf

open Foundation Foundation.Call

def maxFooter : Nat := 8 + maxSignatureLength

/-- Why a segment could not be accepted. -/
inductive SegmentFault where
  | malformed (error : RvfError)
  | descriptorMismatch
deriving DecidableEq, Repr

/-- Where a pushed slice lies in the payload of the segment. -/
structure PayloadSpan where
  start : Nat
  stop : Nat
  payloadOffset : Nat
deriving DecidableEq, Repr

/-- `head` is the filled part of the header buffer. -/
structure SegmentChecker where
  segId : Nat
  segType : UInt8
  storedLen : Nat
  uncompressedLen : Nat
  bodyOffset : Nat
  pos : Nat
  head : List UInt8
  header : Option SegmentHeader
  xxh : Option (List UInt8)
  shake : Option (List UInt8)
  sha : Option (List UInt8)
  wasm : Option WasmPayloadScanner
  tail : List UInt8
  last : List UInt8
deriving DecidableEq

namespace SegmentChecker

def new (segId : Nat) (segType : UInt8) (bodyOffset storedLen uncompressedLen : Nat) :
    SegmentChecker where
  segId := segId
  segType := segType
  storedLen := storedLen
  uncompressedLen := uncompressedLen
  bodyOffset := bodyOffset
  pos := 0
  head := []
  header := none
  xxh := none
  shake := none
  sha := none
  wasm := none
  tail := []
  last := []

def keepLast (before bytes : List UInt8) : List UInt8 :=
  let seen := if segmentAlignment - 1 ≤ bytes.length then bytes else before ++ bytes
  seen.drop (seen.length - (segmentAlignment - 1))

/-- Judge the complete header and start the hashers it asks for. -/
def startPayload : Call SegmentFault SegmentChecker PUnit := do
  let c ← get
  let h ← translate .malformed (SegmentHeader.parse c.head)
  throwIf (h.payloadLength > maxSegmentPayload) (.malformed .payloadTooLarge)
  throwIf (segmentHeaderSize + h.payloadLength > c.storedLen) (.malformed .payloadOutOfBounds)
  throwIf (h.segType ≠ c.segType ∨ h.segmentId ≠ c.segId ∨ h.uncompressedLen > c.uncompressedLen)
    .descriptorMismatch
  set { c with
    xxh := if h.checksumAlgo = 2 then c.xxh else some []
    shake := if h.checksumAlgo = 2 ∨ h.isSigned then some [] else c.shake
    sha := if isExecutable h.segType then some [] else c.sha
    wasm := if h.segType = segTypeWasm ∧ h.isEncrypted = false then some .new else c.wasm
    header := some h }

def startIfComplete : Call SegmentFault SegmentChecker PUnit := do
  let c ← get
  if c.pos = segmentHeaderSize then startPayload else pure ⟨⟩

def takeHead (bytes : List UInt8) : Call SegmentFault SegmentChecker Nat := do
  let c ← get
  if c.pos < segmentHeaderSize then
    let taken := min (segmentHeaderSize - c.pos) bytes.length
    let filled := { c with head := c.head ++ bytes.take taken, pos := c.pos + taken }
    set filled
    startIfComplete
    return taken
  else return 0

/-- Payload bytes go into every hasher and into the scanner. -/
def absorb (c : SegmentChecker) (part : List UInt8) : SegmentChecker :=
  { c with
    xxh := c.xxh.map (· ++ part)
    shake := c.shake.map (· ++ part)
    sha := c.sha.map (· ++ part)
    -- A refused header is remembered by the scanner.
    wasm := c.wasm.map fun scanner => (scanner.push part).scanner
    pos := c.pos + part.length }

/-- Bytes behind the payload. -/
def passTail (c : SegmentChecker) (h : SegmentHeader) (bytes : List UInt8) : SegmentChecker :=
  { c with
    tail := if h.isSigned then c.tail ++ bytes.take (maxFooter - c.tail.length) else c.tail
    pos := c.pos + bytes.length }

/-- The bytes after the header buffer, of which `consumed` came before. -/
def takePayload (c : SegmentChecker) (h : SegmentHeader) (consumed : Nat) (bytes : List UInt8) :
    PayloadSpan × SegmentChecker :=
  let payloadEnd := segmentHeaderSize + h.payloadLength
  if c.pos < payloadEnd ∧ bytes ≠ [] then
    let taken := min (payloadEnd - c.pos) bytes.length
    (⟨consumed, consumed + taken, c.pos - segmentHeaderSize⟩,
      (c.absorb (bytes.take taken)).passTail h (bytes.drop taken))
  else (⟨0, 0, 0⟩, c.passTail h bytes)

def push (bytes : List UInt8) : Call SegmentFault SegmentChecker PayloadSpan := do
  modify fun c => { c with last := keepLast c.last bytes }
  let consumed ← takeHead bytes
  let c ← get
  match c.header with
  | none => return ⟨0, 0, 0⟩
  | some h =>
    let (span, next) := c.takePayload h consumed (bytes.drop consumed)
    set next
    return span

section Finish

variable {σ : Type} (primitives : VerifyPrimitives) (c : SegmentChecker)

def footerOf (payloadEnd : Nat) : Call SegmentFault σ SignatureFooter := do
  let decoded ← translate .malformed (decodeSignatureFooter c.tail)
  throwIf (decoded.sigLength = 0) (.malformed .signedFlagWithoutFooter)
  throwIf (decoded.footerLength ≠ computeFooterLength decoded.sigLength)
    (.malformed .malformedFooter)
  throwIf (payloadEnd + decoded.footerLength > c.storedLen) (.malformed .malformedFooter)
  return decoded

def zeroTail (isLast : Bool) (extra : Nat) : Bool :=
  isLast && decide (extra < segmentHeaderSize) && decide (extra ≤ c.last.length) &&
    (c.last.drop (c.last.length - extra)).all (· == 0)

def checkPadding (isLast : Bool) (stop : Nat) : Call SegmentFault σ PUnit := do
  let next := alignUp stop
  throwIf (c.storedLen > next ∧ c.zeroTail isLast (c.storedLen - next) = false)
    (.malformed .trailingBytes)
  throwIf (c.storedLen < next ∧ isLast = false) (.malformed .truncated)

/-- The 16 bytes a hasher comes to, zero where it was not started. -/
def digest16 (hash : List UInt8 → Octets 16) (absorbed : Option (List UInt8)) : Octets 16 :=
  (absorbed.map hash).getD (Octets.zero 16)

/-- The hash that the header's content hash is compared with. -/
def contentOf (h : SegmentHeader) : Octets 16 :=
  if h.checksumAlgo = 2 then digest16 primitives.shake256 c.shake
  else digest16 primitives.xxh3 c.xxh

def sigFactsOf (h : SegmentHeader) : Option SignatureFooter → SigFacts
  | none => .unsigned
  | some decoded =>
    .decoded decoded.sigAlgo decoded.sigLength (signatureOctets decoded.signature)
      (buildSignedMessage h (digest16 primitives.shake256 c.shake))

def finish (index : Nat) (isLast : Bool) :
    Call SegmentFault σ (ParsedSegment × SegmentFacts) := do
  let h ← orThrow c.header (.malformed .truncated)
  let payloadEnd := segmentHeaderSize + h.payloadLength
  let footer ← if h.isSigned then some <$> c.footerOf payloadEnd else pure none
  let stop := payloadEnd + (footer.map SignatureFooter.footerLength).getD 0
  c.checkPadding isLast stop
  let payloadStart := asU64 (c.bodyOffset + segmentHeaderSize)
  return (
    { index := index
      offset := c.bodyOffset
      header := h
      payload := ⟨payloadStart, asU64 (payloadStart + h.payloadLength)⟩
      footer :=
        if h.isSigned then some ⟨asU64 (c.bodyOffset + payloadEnd), asU64 (c.bodyOffset + stop)⟩
        else none },
    { contentHashOk := c.contentOf primitives h == h.contentHash
      sig := c.sigFactsOf primitives h footer
      payloadSha256 := c.sha.map primitives.sha256
      wasm := c.wasm.map fun scanner => (scanner.finish primitives.sha256).1 })

end Finish

end SegmentChecker

end Rvm.Rvf
