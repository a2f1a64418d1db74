import Rvm.Rvf.Stream.Descriptor

/-!
Owns the receiver state machine of a stream
(`rvm-rvf/src/stream/{verifier.rs,chunk.rs,ident.rs,frame.rs}`): installing a
descriptor, chunk and table frames, duplicates, faults, poisoning, suspension
and the identity verdict. Machine integers wrap as in the release profile; an
index out of range or a missing value that the source unwraps is a panic. The
identity hash runs inline, as without the `parallel-identity` feature.
-/

namespace Rvm.Rvf

open Foundation Foundation.Call

def frameDescriptor : UInt8 := 0x00
def frameChunk : UInt8 := 0x01
def frameChunkTable : UInt8 := 0x02

/-- Index-class segment types: Index, HotCache and MetaIndex. -/
def isIndex (segType : UInt8) : Bool := segType == 0x02 || segType == 0x08 || segType == 0x0D

structure SegState where
  n : Nat
  next : Nat
  leaves : Option (List UInt8)
  done : Bool
deriving DecidableEq

/-- The running identity hash: the bytes it absorbed and the file-order
bookkeeping. -/
structure IdentityTracker where
  absorbed : List UInt8
  pos : Nat
  feasible : Bool
deriving DecidableEq

namespace IdentityTracker

def new : IdentityTracker := ⟨[], 0, true⟩

/-- A released chunk either continues the body in file order or ends the hash. -/
def take (t : IdentityTracker) (bodyOffset : Nat) (bytes : List UInt8) : IdentityTracker :=
  if t.feasible ∧ t.pos = bodyOffset then
    { t with absorbed := t.absorbed ++ bytes, pos := asU64 (t.pos + bytes.length) }
  else { t with feasible := false }

end IdentityTracker

structure StreamVerifier where
  policy : StreamPolicy
  state : StreamState
  desc : Option VerifiedDescriptor
  segs : List SegState
  /-- Only stages below `MAX_STAGES` are meaningful. -/
  stageRemaining : Nat → Nat
  left : Nat
  faults : Nat
  verifiedBytes : Nat
  releasedChunks : Nat
  tableBytes : Nat
  identity : Option IdentityTracker
  identityStatus : Option IdentityStatus
  maxChunkLen : Nat
  maxTablePayload : Nat
  poisonInfo : Option PoisonInfo
  lastFault : Option PoisonInfo
  duplicatesIgnored : Nat
  duplicateCap : Nat

/-- A call on the verifier. -/
abbrev StreamCall := Call StreamError StreamVerifier

namespace StreamVerifier

def new (policy : StreamPolicy) : StreamVerifier where
  policy := policy
  state := .awaitDescriptor
  desc := none
  segs := []
  stageRemaining := fun _ => 0
  left := 0
  faults := 0
  verifiedBytes := 0
  releasedChunks := 0
  tableBytes := 0
  identity := none
  identityStatus := none
  maxChunkLen := 0
  maxTablePayload := 0
  poisonInfo := none
  lastFault := none
  duplicatesIgnored := 0
  duplicateCap := 0

def forcePoison (v : StreamVerifier) (reason : StreamError) (seg : Option Nat) (chunk : Nat) :
    StreamVerifier :=
  { v with
    state := .poisoned reason
    identity := none
    poisonInfo := v.poisonInfo.or (some ⟨seg, chunk, reason⟩) }

def poisonAt (v : StreamVerifier) (reason : StreamError) (seg : Option Nat) (chunk : Nat) :
    StreamVerifier :=
  match v.state with
  | .rejected _ | .complete | .completeUnverified | .suspended => v
  | _ => v.forcePoison reason seg chunk

def poison (v : StreamVerifier) (reason : StreamError) : StreamError × StreamVerifier :=
  (reason, v.poisonAt reason none 0)

def fault (v : StreamVerifier) (reason : StreamError) (seg : Option Nat) (chunk : Nat) :
    StreamVerifier :=
  let counted := { v with lastFault := some ⟨seg, chunk, reason⟩, faults := asU32 (v.faults + 1) }
  if counted.faults > v.policy.faultBudget then counted.poisonAt reason seg chunk else counted

def endOfInput (v : StreamVerifier) : StreamState × StreamVerifier :=
  match v.state with
  | .receiving | .ready => (.suspended, { v with state := .suspended })
  | state => (state, v)

def resume (v : StreamVerifier) : Bool × StreamVerifier :=
  if v.state = .suspended then (true, { v with state := .receiving }) else (false, v)

end StreamVerifier

def poisoning (reason : StreamError) (seg : Option Nat) (chunk : Nat) :
    StreamVerifier → StreamVerifier :=
  fun v => v.poisonAt reason seg chunk

def faulting (reason : StreamError) (seg : Option Nat) (chunk : Nat) :
    StreamVerifier → StreamVerifier :=
  fun v => v.fault reason seg chunk

section Install

variable (primitives : Primitives)

def SegState.opened (h : StreamHeader) (e : StreamEntry) : SegState :=
  ⟨(h.chunkCount e.storedLen).getD 1, 0, none, false⟩

def StreamVerifier.openSegment (v : StreamVerifier) (h : StreamHeader) (e : StreamEntry)
    (stage : Nat) : StreamVerifier :=
  let opened := SegState.opened h e
  { v with
    segs := v.segs ++ [opened]
    stageRemaining :=
      Function.update v.stageRemaining stage (asU32 (v.stageRemaining stage + 1))
    maxChunkLen := max v.maxChunkLen ((h.chunkLen e.storedLen 0).getD 0)
    maxTablePayload :=
      if opened.n > 1 then max v.maxTablePayload (32 * opened.n) else v.maxTablePayload }

def openEntry (h : StreamHeader) (e : StreamEntry) : StreamCall PUnit := do
  let stage ← orPanic (stageSlot e.stage)
  modify fun v => v.openSegment h e stage

def StreamVerifier.accept (v : StreamVerifier) (d : VerifiedDescriptor) : StreamVerifier :=
  let totalChunks := (v.segs.map SegState.n).sum
  { v with
    duplicateCap := v.policy.maxDuplicateFrames.getD (asU64 (4 * totalChunks + 64))
    left := d.entries.length
    identity :=
      if d.header.flags &&& flagIdentityPresent ≠ 0 then some IdentityTracker.new else v.identity
    desc := some d
    state := .ready }

def install (bytes : List UInt8) : StreamCall Event := do
  let v ← get
  match ← attempt (decodeDescriptor primitives bytes v.policy) with
  | .error e => refuse e fun v => { v with state := .rejected e }
  | .ok d =>
    d.entries.forM (openEntry d.header)
    modify fun v => v.accept d
    return .descriptorVerified d.descriptorHash d.header.segCount d.header.bodyLen

def StreamVerifier.fromDescriptor (bytes : List UInt8) (policy : StreamPolicy) :
    Option (Except StreamError StreamVerifier) :=
  ((install primitives bytes).runFrom (StreamVerifier.new policy)).map fun outcome =>
    outcome.1.map fun _ => outcome.2

end Install

section Chunks

variable (primitives : Primitives)

def entryAt (i : Nat) : StreamCall (StreamHeader × StreamEntry) := do
  let v ← get
  let d ← orPanic v.desc
  let e ← orPanic d.entries[i]?
  return (d.header, e)

def segAt (i : Nat) : StreamCall SegState := do
  let v ← get
  orPanic v.segs[i]?

/-- The stages a mask names, lowest first. -/
def requiredStages (mask : Nat) : List Nat := (List.range maxStages).filter mask.testBit

def wantedLeaf (e : StreamEntry) (leaves : Option (List UInt8)) (idx : Nat) :
    StreamCall (Octets 32) :=
  match leaves with
  | some l => orPanic (octetsAt 32 l (idx * 32))
  | none => pure e.chunkTableHash

def checkSegmentHeader (e : StreamEntry) (idx : Nat) (bytes : List UInt8) : StreamCall PUnit :=
  if idx = 0 ∧ (isExecutable e.segType ∨ isIndex e.segType) then do
    let start ← orPanic (octetsAt 4 bytes 0)
    let segType ← orPanic bytes[5]?
    refuseIf (start.toList ≠ segmentMagicBytes ∨ segType ≠ e.segType) .tableInvalid
      (poisoning .tableInvalid (some e.segId) idx)
    let checksum ← orPanic bytes[0x20]?
    refuseIf (checksum ≤ 1) .weakChecksum (poisoning .weakChecksum (some e.segId) idx)
  else pure ⟨⟩

def checkRootPage (e : StreamEntry) (idx : Nat) (bytes : List UInt8) : StreamCall PUnit :=
  if idx = 0 ∧ e.segType = segTypeRootPage then do
    let start ← orPanic (octetsAt 4 bytes 0)
    refuseIf (start.toList ≠ rootPageMagicBytes) .tableInvalid
      (poisoning .tableInvalid (some e.segId) idx)
  else pure ⟨⟩

def admitChunk (i segId idx : Nat) (bytes : List UInt8) : StreamCall PUnit := do
  let (h, e) ← entryAt i
  let s ← segAt i
  refuseIf (s.done ∨ idx ≠ s.next) .unexpectedFrame (faulting .unexpectedFrame (some segId) idx)
  refuseIf (h.chunkLen e.storedLen idx ≠ some bytes.length) .frameSizeLie
    (poisoning .frameSizeLie (some segId) idx)
  refuseIf (s.n > 1 ∧ s.leaves = none) .unexpectedFrame
    (faulting .unexpectedFrame (some segId) idx)
  let v ← get
  refuseIf (∃ st ∈ requiredStages e.requiresMask, v.stageRemaining st ≠ 0) .requirementsUnmet
    (faulting .requirementsUnmet (some segId) idx)
  let want ← wantedLeaf e s.leaves idx
  refuseIf (primitives.leafHash h.fileId segId idx bytes ≠ want) .chunkHashMismatch
    (faulting .chunkHashMismatch (some segId) idx)
  checkSegmentHeader e idx bytes
  checkRootPage e idx bytes

/-- Count an exact repeat of something already verified against the cap. -/
def countDuplicate (segId chunkIndex : Nat) : StreamCall PUnit := do
  modify fun v => { v with duplicatesIgnored := saturatingAdd64 v.duplicatesIgnored 1 }
  let v ← get
  refuseIf (v.duplicatesIgnored > v.duplicateCap) .duplicateFlood
    (poisoning .duplicateFlood (some segId) chunkIndex)

/-- A chunk below the next expected index. -/
def onDuplicateChunk (i idx : Nat) (bytes : List UInt8) : StreamCall Event := do
  let (h, e) ← entryAt i
  refuseIf (h.chunkLen e.storedLen idx ≠ some bytes.length) .frameSizeLie
    (poisoning .frameSizeLie (some e.segId) idx)
  let s ← segAt i
  if s.leaves = none ∧ s.n > 1 then do
    countDuplicate e.segId idx
    return .unverified e.segId idx
  else do
    let want ← wantedLeaf e s.leaves idx
    refuseIf (primitives.leafHash h.fileId e.segId idx bytes ≠ want) .chunkHashMismatch
      (faulting .chunkHashMismatch (some e.segId) idx)
    countDuplicate e.segId idx
    return .duplicate e.segId idx

/-- The identity verdict for the chunk that would complete the stream. -/
def completionStatus (extra : Nat) : StreamCall IdentityStatus := do
  let v ← get
  let d ← orPanic v.desc
  throwIf (asU64 (v.verifiedBytes + extra) ≠ d.header.bodyLen) .tableInvalid
  match v.identity with
  | none => return .notPresent
  | some t =>
    if t.feasible ∧ t.pos = d.header.bodyLen then do
      throwIf (primitives.sha256 t.absorbed ≠ d.header.rvfIdentity) .identityMismatch
      return .verified
    else return .unverifiable

/-- The verdict of the chunk that completes the stream, reached before anything
is advanced; a refusal poisons the stream. -/
def completing (completesStream : Bool) (segId idx extra : Nat) :
    StreamCall (Option IdentityStatus) :=
  if completesStream then do
    match ← attempt (completionStatus primitives extra) with
    | .ok st => return some st
    | .error c => refuse c (poisoning c (some segId) idx)
  else return none

namespace StreamVerifier

def track (v : StreamVerifier) (bodyOffset : Nat) (bytes : List UInt8) : StreamVerifier :=
  { v with identity := v.identity.map fun t => t.take bodyOffset bytes }

def advance (v : StreamVerifier) (i : Nat) (s : SegState) : StreamVerifier :=
  { v with segs := v.segs.set i { s with next := s.next + 1 } }

/-- Advance a segment past its last chunk: its table is freed. -/
def closeSegment (v : StreamVerifier) (i : Nat) (s : SegState) (stage : Nat) : StreamVerifier :=
  { v with
    segs := v.segs.set i { s with next := s.next + 1, leaves := none, done := true }
    tableBytes :=
      match s.leaves with
      | some l => asU64 (v.tableBytes + (18446744073709551616 - l.length))
      | none => v.tableBytes
    left := asU64 (v.left + 18446744073709551615)
    stageRemaining :=
      Function.update v.stageRemaining stage (asU32 (v.stageRemaining stage + 4294967295)) }

def settle (v : StreamVerifier) (length : Nat) (complete : Option IdentityStatus) :
    StreamVerifier :=
  let counted :=
    { v with
      verifiedBytes := asU64 (v.verifiedBytes + length)
      releasedChunks := asU64 (v.releasedChunks + 1) }
  match complete with
  | none => counted
  | some st =>
    { counted with
      identityStatus := some st
      identity := none
      state := if st = .unverifiable then .completeUnverified else .complete }

end StreamVerifier

def advanceSegment (i : Nat) (s : SegState) (e : StreamEntry) (completesSegment : Bool) :
    StreamCall (Option Nat) :=
  if completesSegment then do
    let stage ← orPanic (stageSlot e.stage)
    modify fun v => v.closeSegment i s stage
    let v ← get
    return if v.stageRemaining stage = 0 then some stage else none
  else do
    modify fun v => v.advance i s
    return none

def StreamHeader.segmentOffset (h : StreamHeader) (idx : Nat) : Nat :=
  (h.chunkSize.map fun cs => asU64 (idx * cs)).getD 0

def releaseChunk (i segId idx : Nat) (bytes : List UInt8) : StreamCall Event := do
  let (h, e) ← entryAt i
  let segmentOffset := h.segmentOffset idx
  let bodyOffset := asU64 (e.bodyOffset + segmentOffset)
  let s ← segAt i
  let v ← get
  let completesSegment := decide (s.next + 1 = s.n)
  let completesStream := completesSegment && decide (v.left = 1)
  modify fun v => v.track bodyOffset bytes
  let complete ← completing primitives completesStream segId idx bytes.length
  let stageVerified ← advanceSegment i s e completesSegment
  modify fun v => v.settle bytes.length complete
  return .chunk ⟨segId, e.segType, idx, segmentOffset, bodyOffset, bytes⟩ completesSegment
    stageVerified complete

def onChunk (f : List UInt8) : StreamCall Event := do
  refuseIf (f.length < 17) .frameSizeLie (poisoning .frameSizeLie none 0)
  let segId ← u64At f 1
  let idx ← u32At f 9
  let len ← u32At f 13
  let bytes := f.drop 17
  refuseIf (len ≠ bytes.length) .frameSizeLie (poisoning .frameSizeLie (some segId) idx)
  let v ← get
  let i ← orRefuse (v.desc.bind fun d => d.find segId) .unexpectedFrame
    (faulting .unexpectedFrame (some segId) idx)
  let s ← segAt i
  if idx < s.next then onDuplicateChunk primitives i idx bytes
  else do
    admitChunk primitives i segId idx bytes
    releaseChunk primitives i segId idx bytes

end Chunks

section Frames

variable (primitives : Primitives)

def StreamVerifier.keepTable (v : StreamVerifier) (i : Nat) (s : SegState) (flat : List UInt8) :
    StreamVerifier :=
  { v with
    tableBytes := asU64 (v.tableBytes + flat.length)
    segs := v.segs.set i { s with leaves := some flat } }

def onTable (f : List UInt8) : StreamCall Event := do
  refuseIf (f.length < 13) .frameSizeLie (poisoning .frameSizeLie none 0)
  let segId ← u64At f 1
  let n ← u32At f 9
  let flat := f.drop 13
  refuseIf (flat.length ≠ 32 * n) .frameSizeLie (poisoning .frameSizeLie (some segId) 0)
  let v ← get
  let i ← orRefuse (v.desc.bind fun d => d.find segId) .unexpectedFrame
    (faulting .unexpectedFrame (some segId) 0)
  let s ← segAt i
  refuseIf (s.n ≤ 1 ∨ s.leaves ≠ none ∨ s.done) .unexpectedFrame
    (faulting .unexpectedFrame (some segId) 0)
  refuseIf (n ≠ s.n) .frameSizeLie (poisoning .frameSizeLie (some segId) 0)
  let (h, e) ← entryAt i
  refuseIf (asU64 (v.tableBytes + flat.length) > v.policy.maxTableBytes) .limitExceeded
    (faulting .limitExceeded (some segId) 0)
  refuseIf (primitives.chunkListHashFlat h.fileId segId flat ≠ some e.chunkTableHash)
    .tableHashMismatch (faulting .tableHashMismatch (some segId) 0)
  modify fun v => v.keepTable i s flat
  return .tableVerified segId

def repeatsDescriptor (bytes : List UInt8) : StreamCall Bool := do
  let v ← get
  if bytes.length ≤ v.policy.maxDescriptorBytes then do
    let d ← orPanic v.desc
    return decide (primitives.descriptorHash bytes = d.descriptorHash)
  else return false

def onDescriptorAgain (f : List UInt8) : StreamCall Event := do
  refuseIf (f.length < 5) .frameSizeLie (poisoning .frameSizeLie none 0)
  let len ← u32At f 1
  refuseIf (len ≠ f.length - 5) .frameSizeLie (poisoning .frameSizeLie none 0)
  let same ← repeatsDescriptor primitives (f.drop 5)
  refuseIf (same = false) .unexpectedFrame (faulting .unexpectedFrame none 0)
  countDuplicate 0 0
  return .duplicateDescriptor

def onFirstFrame (f : List UInt8) : StreamCall Event := do
  refuseIf (f.length < 5 ∨ f[0]? ≠ some frameDescriptor) .unexpectedFrame
    (poisoning .unexpectedFrame none 0)
  let len ← u32At f 1
  refuseIf (len ≠ f.length - 5) .frameSizeLie (poisoning .frameSizeLie none 0)
  install primitives (f.drop 5)

def dispatch (f : List UInt8) : StreamCall Event :=
  if f[0]? = some frameChunk then onChunk primitives f
  else if f[0]? = some frameChunkTable then onTable primitives f
  else if f[0]? = some frameDescriptor then onDescriptorAgain primitives f
  else refuse .unexpectedFrame (faulting .unexpectedFrame none 0)

/-- The first accepted frame starts the reception. -/
def StreamVerifier.received (v : StreamVerifier) : StreamVerifier :=
  if v.state = .ready then { v with state := .receiving } else v

def push (frame : List UInt8) : StreamCall Event := do
  let v ← get
  match v.state with
  | .poisoned _ => throw .poisoned
  | .awaitDescriptor => onFirstFrame primitives frame
  | .ready | .receiving => do
    let event ← dispatch primitives frame
    modify StreamVerifier.received
    return event
  | _ => throw .badState

/-- A call a receiver makes. -/
inductive Request where
  | push (frame : List UInt8)
  | poison (reason : StreamError)
  | endOfInput
  | resume
deriving DecidableEq

/-- What the call answers. -/
inductive Reply where
  | event (result : Except StreamError Event)
  | poisoned (reason : StreamError)
  | ended (state : StreamState)
  | resumed (continued : Bool)

/-- Perform a call; `none` is a panic. -/
def StreamVerifier.perform (v : StreamVerifier) : Request → Option (Reply × StreamVerifier)
  | .push frame =>
    ((push primitives frame).runFrom v).map fun outcome => (.event outcome.1, outcome.2)
  | .poison reason => some (.poisoned (v.poison reason).1, (v.poison reason).2)
  | .endOfInput => some (.ended v.endOfInput.1, v.endOfInput.2)
  | .resume => some (.resumed v.resume.1, v.resume.2)

/-- Perform calls one after the other, with their replies. -/
def StreamVerifier.performAll (v : StreamVerifier) :
    List Request → Option (List (Request × Reply) × StreamVerifier)
  | [] => some ([], v)
  | request :: rest => do
    let (reply, next) ← v.perform primitives request
    let (history, final) ← next.performAll rest
    return ((request, reply) :: history, final)

def Step (here : StreamVerifier) (label : Request × Reply) (next : StreamVerifier) : Prop :=
  here.perform primitives label.1 = some (label.2, next)

end Frames

end Rvm.Rvf
