import Rvm.Foundation.Tables
import Rvm.Rvf.Stream.Frame
import Rvm.Rvf.Stream.Persisted
import Rvm.Rvf.Stream.Segment

/-!
Owns the loading rules over released chunks (`rvm-rvf/src/stream/admission.rs`): the
checkers of open segments, the metadata, and the report at completion. A value the
source unwraps with `expect` is a panic where it is missing.
-/

namespace Rvm.Rvf

open Foundation Foundation.Call

/-- Why admission refused. -/
inductive AdmissionError where
  | stream (reason : StreamError)
  | malformed (segId : Nat) (error : RvfError)
  | descriptorMismatch (segId : Nat)
  | identityRequired
  | tooManyOpenSegments
deriving DecidableEq, Repr

def AdmissionError.reason : AdmissionError → StreamError
  | .stream reason => reason
  | .malformed .. => .segmentMalformed
  | .descriptorMismatch .. => .segmentMismatch
  | .identityRequired => .identityRequired
  | .tooManyOpenSegments => .tooManyOpenSegments

/-- What a frame produced, after admission. -/
inductive AdmissionEvent where
  | descriptorVerified (descriptorHash : Octets 32) (segCount bodyLen : Nat)
  | tableVerified (segId : Nat)
  | duplicate (segId chunkIndex : Nat)
  | unverified (segId chunkIndex : Nat)
  | duplicateDescriptor
  | chunk (chunk : VerifiedChunk) (payload : List UInt8) (payloadOffset : Nat)
      (segmentVerified : Bool) (stageVerified : Option Nat) (complete : Option IdentityStatus)
deriving DecidableEq

structure StreamAdmission where
  verifier : StreamVerifier
  opts : VerifyOptions
  maxOpen : Nat
  unfinished : OrderedMap Nat SegmentChecker
  done : List (Option (ParsedSegment × SegmentFacts))
  metaPayloads : OrderedMap Nat (List UInt8)
  report : Option VerificationReport
  failure : Option AdmissionError

abbrev AdmissionCall := Call AdmissionError StreamAdmission

namespace StreamAdmission

def new (policy : StreamPolicy) (opts : VerifyOptions) : StreamAdmission where
  verifier := .new policy
  opts := opts
  maxOpen := policy.maxOpenSegments
  unfinished := .empty
  done := []
  metaPayloads := .empty
  report := none
  failure := none

def state (a : StreamAdmission) : StreamState := a.verifier.state

def poison (a : StreamAdmission) (reason : StreamError) : StreamError × StreamAdmission :=
  ((a.verifier.poison reason).1, { a with verifier := (a.verifier.poison reason).2 })

/-- Drop everything derived from released bytes; a stream that is live is poisoned
first. -/
def discardDerivedState (a : StreamAdmission) : StreamAdmission :=
  let verifier :=
    match a.verifier.state with
    | .poisoned _ | .rejected _ => a.verifier
    | _ => a.verifier.poisonAt .badState none 0
  { a with verifier, unfinished := .empty, metaPayloads := .empty, done := [], report := none }

def failWith (a : StreamAdmission) (e : AdmissionError) (seg : Option Nat) (chunk : Nat) :
    StreamAdmission :=
  let poisoned := { a with verifier := a.verifier.forcePoison e.reason seg chunk }
  { poisoned.discardDerivedState with failure := some e }

def onVerifier {α : Type} (call : StreamCall α) : Call StreamError StreamAdmission α :=
  onPart StreamAdmission.verifier (fun a v => { a with verifier := v }) call

def failing {α : Type} (e : AdmissionError) (seg : Option Nat) (chunk : Nat) : AdmissionCall α :=
  refuse e fun a => a.failWith e seg chunk

def failingIf (condition : Prop) [Decidable condition] (e : AdmissionError) (seg : Option Nat)
    (chunk : Nat) : AdmissionCall PUnit :=
  refuseIf condition e fun a => a.failWith e seg chunk

def fault (segId : Nat) : SegmentFault → AdmissionError
  | .malformed error => .malformed segId error
  | .descriptorMismatch => .descriptorMismatch segId

section Admit

variable (primitives : VerifyPrimitives)

def streamedInput (header : StreamHeader) (segments : List (ParsedSegment × SegmentFacts))
    (metaPayloads : List (List UInt8)) (complete : Option IdentityStatus) : ReportInput where
  identity := header.rvfIdentity
  containerBytes := header.bodyLen
  segments := segments
  metaPayloads := metaPayloads
  delivery := .streamed
  identityConfirmed := decide (complete = some .verified)

def finishReport (complete : Option IdentityStatus) : AdmissionCall PUnit := do
  let a ← get
  let d ← orPanic a.verifier.desc
  failingIf (d.header.flags &&& flagIdentityPresent = 0 ∨ complete = some .notPresent)
    .identityRequired none 0
  let segments := a.done.reduceOption
  set { a with done := a.done.map fun _ => none }
  failingIf (segments = []) (.malformed 0 .noSegments) none 0
  let report := buildReport primitives.toPrimitives
    (streamedInput d.header segments a.metaPayloads.values complete) a.opts
  modify fun a => { a with report := some report }

def completeReport (complete : Option IdentityStatus) : AdmissionCall PUnit :=
  if complete.isSome then finishReport primitives complete else pure ⟨⟩

def rootPageLen (a : StreamAdmission) : Nat :=
  ((a.verifier.desc.bind fun d => d.entries.getLast?).map StreamEntry.storedLen).getD 0

def checkLevel0Page (chunk : VerifiedChunk) : AdmissionCall PUnit :=
  if chunk.chunkIndex = 0 then do
    let a ← get
    let valid ← translate (.malformed chunk.segId) (isLevel0Page chunk.bytes)
    failingIf (valid = false ∨ a.rootPageLen ≠ rootPageSize) (.malformed chunk.segId .trailingBytes)
      (some chunk.segId) 0
  else pure ⟨⟩

def admitRootPage (chunk : VerifiedChunk) (complete : Option IdentityStatus) :
    AdmissionCall (List UInt8 × Nat) := do
  checkLevel0Page chunk
  completeReport primitives complete
  return ([], 0)

def openChecker (d : VerifiedDescriptor) (i : Nat) (chunk : VerifiedChunk) :
    AdmissionCall PUnit := do
  let a ← get
  if chunk.chunkIndex = 0 ∧ a.unfinished.get i = none then do
    failingIf (a.maxOpen ≤ a.unfinished.size) .tooManyOpenSegments (some chunk.segId)
      chunk.chunkIndex
    let e ← orPanic d.entries[i]?
    set { a with
      unfinished := a.unfinished.insert i
        (.new chunk.segId chunk.segType chunk.bodyOffset e.storedLen e.uncompressedLen) }
  else pure ⟨⟩

def onChecker {α : Type} (chunk : VerifiedChunk) (checker : SegmentChecker)
    (call : Call SegmentFault SegmentChecker α) : AdmissionCall (α × SegmentChecker) := do
  match ← orPanic (call.runFrom checker) with
  | (.ok value, next) => return (value, next)
  | (.error f, _) => failing (fault chunk.segId f) (some chunk.segId) chunk.chunkIndex

def keepMeta (i : Nat) (checker : SegmentChecker) (payload : List UInt8) (a : StreamAdmission) :
    StreamAdmission :=
  match checker.header with
  | some h =>
    if h.segType = segTypeMeta ∧ h.isEncrypted = false then
      { a with
        metaPayloads := a.metaPayloads.insert i ((a.metaPayloads.get i).getD [] ++ payload) }
    else a
  | none => a

def isLastSegment (d : VerifiedDescriptor) (i : Nat) : Bool :=
  let rootLast := d.entries.getLast?.any fun e => e.segType == segTypeRootPage
  decide (i + 1 = d.entries.length - if rootLast then 1 else 0)

def closeChecker (d : VerifiedDescriptor) (i : Nat) (chunk : VerifiedChunk)
    (checker : SegmentChecker) (segmentVerified : Bool) : AdmissionCall PUnit :=
  if segmentVerified then do
    modify fun a => { a with unfinished := a.unfinished.erase i }
    let (facts, _) ← onChecker chunk checker (checker.finish primitives i (isLastSegment d i))
    let a ← get
    let place ← orPanic (if i < a.done.length then some i else none)
    set { a with done := a.done.set place (some facts) }
  else pure ⟨⟩

def admitSegment (d : VerifiedDescriptor) (i : Nat) (chunk : VerifiedChunk)
    (segmentVerified : Bool) (complete : Option IdentityStatus) :
    AdmissionCall (List UInt8 × Nat) := do
  openChecker d i chunk
  let a ← get
  let checker ← orRefuse (a.unfinished.get i) (.descriptorMismatch chunk.segId) fun a =>
    a.failWith (.descriptorMismatch chunk.segId) (some chunk.segId) chunk.chunkIndex
  let (span, checker) ← onChecker chunk checker (SegmentChecker.push chunk.bytes)
  modify fun a => { a with unfinished := a.unfinished.insert i checker }
  let payload ← orPanic (sliceAt chunk.bytes span.start span.stop)
  modify (keepMeta i checker payload)
  closeChecker primitives d i chunk checker segmentVerified
  completeReport primitives complete
  return (payload, span.payloadOffset)

/-- `admit`: the payload bytes of a released chunk, and their offset in the payload. -/
def admitChunk (chunk : VerifiedChunk) (segmentVerified : Bool) (complete : Option IdentityStatus) :
    AdmissionCall (List UInt8 × Nat) := do
  let a ← get
  let d ← orPanic a.verifier.desc
  let i ← orPanic (d.find chunk.segId)
  if chunk.segType = segTypeRootPage then admitRootPage primitives chunk complete
  else admitSegment primitives d i chunk segmentVerified complete

/-- What the event of the verifier becomes. -/
def onEvent : Event → AdmissionCall AdmissionEvent
  | .descriptorVerified descriptorHash segCount bodyLen => do
    modify fun a => { a with done := List.replicate segCount none }
    return .descriptorVerified descriptorHash segCount bodyLen
  | .tableVerified segId => return .tableVerified segId
  | .duplicateDescriptor => return .duplicateDescriptor
  | .unverified segId chunkIndex => return .unverified segId chunkIndex
  | .duplicate segId chunkIndex => return .duplicate segId chunkIndex
  | .chunk chunk segmentVerified stageVerified complete => do
    let (payload, payloadOffset) ← admitChunk primitives chunk segmentVerified complete
    return .chunk chunk payload payloadOffset segmentVerified stageVerified complete

def push (frame : List UInt8) : AdmissionCall AdmissionEvent := do
  let a ← get
  match a.failure with
  | some f => throw f
  | none => onEvent primitives (← translate .stream (onVerifier (Rvf.push primitives.toPrimitives frame)))

/-- `finish_identity` of the wrapped verifier; the report is told. -/
def finishIdentity (readAt : ReadAt) : Call StreamError StreamAdmission PUnit := do
  onVerifier (Rvf.finishIdentity primitives.toPrimitives readAt)
  modify fun a =>
    { a with report := a.report.map fun report => { report with identityConfirmed := true } }

def target : FrameTarget StreamAdmission AdmissionEvent AdmissionError where
  state := state
  framePayloadLimit := fun a => a.verifier.framePayloadLimit
  poison := poison
  pushFrame := fun a frame => (push primitives frame).runFrom a

end Admit

end StreamAdmission

end Rvm.Rvf
