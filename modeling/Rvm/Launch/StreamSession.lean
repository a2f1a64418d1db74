import Rvm.Launch.Obligation
import Rvm.Rvf.Install
import Rvm.Rvf.Stream.Admission

/-!
Owns a streaming session (`rvm-launch/src/stream_session.rs` with `_ops`, `_pin`,
`_types` and `stream_target.rs`): frames go through admission, released WASM payloads
through the module validator, a finished stream is pinned, and its modules and
capabilities are handed over. The validator wraps a third-party parser and is a
parameter. Witness records change nothing a session holds and are left out.
-/

namespace Rvm.Launch

open Foundation Foundation.Call Rvf Cap

structure ModulePolicy (Limits : Type) where
  maxModuleBytes : Nat
  maxSectionBytes : Nat
  limits : Limits

def modulePolicyFor {Limits : Type} (size : SizePolicy) (base : ModulePolicy Limits) :
    ModulePolicy Limits :=
  let limit := min size.maxRuntimeBytes u64Max
  { base with maxModuleBytes := limit, maxSectionBytes := min limit base.maxSectionBytes }

/-- `StreamingModuleValidator` of `rvm-wasm`. -/
structure ModuleValidator (Limits Validator Validated ModuleError : Type) where
  new : ModulePolicy Limits → Validator
  push : Validator → List UInt8 → Except ModuleError Unit × Validator
  finish : Validator → Except ModuleError Validated

/-- A WASM module that passed every gate of the stream path. -/
structure VerifiedModule (Validated : Type) where
  bytes : List UInt8
  executable : VerifiedExecutable
  validated : Validated
  rvfIdentity : Octets 32
  descriptorHash : Octets 32
  sessionId : Nat

structure StreamPackage where
  identity : Octets 32
  byteLength : Nat
  segmentCount : Nat
  executables : List VerifiedExecutable
  capabilities : CapabilityMapping
deriving DecidableEq

def StreamPackage.fromReport (report : VerificationReport) : Except Host.HostError StreamPackage :=
  if report.ok = false then .error .unverified
  else if report.identityConfirmed = false then .error .identityUnconfirmed
  else .ok ⟨report.rvfIdentity, report.byteLength, report.segmentCount, report.executables,
    report.capabilities⟩

inductive SessionState where
  | receiving | complete | failed | poisoned
deriving DecidableEq, Repr

inductive SessionError (ModuleError : Type) where
  | stream (error : AdmissionError)
  | module (segId : Nat) (error : ModuleError)
  | wasmHeader (segId : Nat) (error : WasmPayloadError)
  | packageRefused
  | notComplete
  | noSuchModule
  | identityMismatch
  | identityUnverified
  | replay (reason : StreamError)
  | install (error : InstallError)
  | unusable

/-- What a frame did. -/
inductive SessionEvent where
  | descriptor
  | table
  | duplicateDescriptor
  | unverified (segId : Nat)
  | duplicate (segId : Nat)
  | chunk (segId : Nat) (segmentVerified : Bool) (stageVerified : Option Nat)
  | complete
deriving DecidableEq, Repr

structure PoisonReport where
  descriptorHash : Option (Octets 32)
  info : PoisonInfo
deriving DecidableEq

def PoisonReport.authenticated (report : PoisonReport) : Bool := report.descriptorHash.isSome

/-- A module that is being received. -/
structure ExecProgress (Validator : Type) where
  validator : Validator
  scanner : WasmPayloadScanner
  bytes : List UInt8

structure StreamSession (Limits Validator Validated ModuleError : Type) where
  admission : StreamAdmission
  modulePolicy : ModulePolicy Limits
  replay : ReplayPolicy
  sessionId : Nat
  reader : FrameReader
  exec : OrderedMap Nat (ExecProgress Validator)
  ready : OrderedMap Nat (List UInt8 × Validated)
  package : Option StreamPackage
  pendingPackage : Option StreamPackage
  state : SessionState
  failure : Option (SessionError ModuleError)
  poison : Option PoisonReport
  installed : List (Nat × Nat)
  obligationIssued : Bool
  pinRecorded : Bool

/-- A session and the store it shares with the others. -/
structure SessionScene (Limits Validator Validated ModuleError Pins : Type) where
  own : StreamSession Limits Validator Validated ModuleError
  pins : Pins

section Session

variable {Limits Validator Validated ModuleError Pins : Type}

namespace StreamSession

/-- `with_module_policy`. The replay protection of the stream policy is `replay` over
the store; it is looked up in whenever a frame arrives. -/
def withModulePolicy (policy : StreamPolicy) (replay : ReplayPolicy) (opts : VerifyOptions)
    (modulePolicy : ModulePolicy Limits) (sessionId : Nat) :
    StreamSession Limits Validator Validated ModuleError where
  admission := .new policy opts
  modulePolicy := modulePolicy
  replay := replay
  sessionId := sessionId
  reader := .new
  exec := .empty
  ready := .empty
  package := none
  pendingPackage := none
  state := .receiving
  failure := none
  poison := none
  installed := []
  obligationIssued := false
  pinRecorded := false

def new (policy : StreamPolicy) (replay : ReplayPolicy) (opts : VerifyOptions)
    (base : ModulePolicy Limits) (sessionId : Nat) :
    StreamSession Limits Validator Validated ModuleError :=
  withModulePolicy policy replay opts (modulePolicyFor policy.size base) sessionId

variable (session : StreamSession Limits Validator Validated ModuleError)

def descriptor : Option VerifiedDescriptor := session.admission.verifier.desc

def identityStatus : Option IdentityStatus := session.admission.verifier.identityStatus

def descriptorHash : Option (Octets 32) :=
  session.descriptor.map VerifiedDescriptor.descriptorHash

def report : Option VerificationReport :=
  session.admission.report.filter fun report =>
    decide (session.state = .complete) || !report.admissible

def fail (error : SessionError ModuleError) :
    StreamSession Limits Validator Validated ModuleError :=
  { session with
    state := .failed
    exec := .empty
    ready := .empty
    package := none
    pendingPackage := none
    failure := some error }

def poisonReport (reason : StreamError) : PoisonReport where
  descriptorHash := session.descriptorHash
  info := session.admission.verifier.poisonInfo.getD ⟨none, 0, reason⟩

def checkPoisoned : StreamSession Limits Validator Validated ModuleError :=
  match session.admission.state with
  | .poisoned reason =>
    { session with
      poison := session.poison.or (some (session.poisonReport reason))
      state := .poisoned
      exec := .empty
      ready := .empty
      package := none
      pendingPackage := none
      admission := session.admission.discardDerivedState }
  | _ => session

/-- The stream policy looks pins up in the store as it is now. -/
def lend (replay : ReplayProtection) : StreamSession Limits Validator Validated ModuleError :=
  { session with
    admission.verifier.policy.replay := replay }

end StreamSession

abbrev SessionCall (Limits Validator Validated ModuleError Pins : Type) :=
  Call (SessionError ModuleError) (SessionScene Limits Validator Validated ModuleError Pins)

def changeSession (change : StreamSession Limits Validator Validated ModuleError →
    StreamSession Limits Validator Validated ModuleError) :
    SessionCall Limits Validator Validated ModuleError Pins PUnit :=
  modify fun here => { here with own := change here.own }

section Pins

variable (store : PinStore Pins)

def pinCheck (session : StreamSession Limits Validator Validated ModuleError) (pins : Pins) :
    Except StreamError (Option EpochPin) :=
  match session.descriptor with
  | none => .ok none
  | some d =>
    match (session.replay.over store pins).pinOf d.header.signerKeyId d.header.fileId with
    | none => .ok none
    | some pin =>
      if d.header.epoch < pin.epoch then .error .staleEpoch
      else if d.header.epoch = pin.epoch ∧ pin.descriptorHash ≠ d.descriptorHash then
        .error .epochConflict
      else .ok (some pin)

def rejectReplay {α : Type} (reason : StreamError) :
    SessionCall Limits Validator Validated ModuleError Pins α :=
  refuse (.replay reason) fun here => { here with own := here.own.fail (.replay reason) }

/-- The rounds of the compare-and-set: a round that loses the race reads again. -/
def recordPin (d : VerifiedDescriptor) :
    Nat → SessionCall Limits Validator Validated ModuleError Pins PUnit
  | 0 => pure ⟨⟩
  | rounds + 1 => do
    let here ← get
    match pinCheck store here.own here.pins with
    | .error reason => rejectReplay reason
    | .ok current =>
      if here.own.replay.isStore then
        if here.own.pinRecorded then pure ⟨⟩
        else
          let (advanced, pins) :=
            store.advance here.pins d.header.signerKeyId d.header.fileId current d.pin
          set { here with pins := pins, own.pinRecorded := advanced }
          if advanced then pure ⟨⟩ else recordPin d rounds
      else pure ⟨⟩

def exposePackage : SessionCall Limits Validator Validated ModuleError Pins PUnit := do
  let here ← get
  let own := here.own
  let pending :=
    if own.pendingPackage = none ∧ own.package = none then
      own.admission.report.bind fun report => (StreamPackage.fromReport report).toOption
    else own.pendingPackage
  set { here with own := { own with pendingPackage := none, package := pending.or own.package } }

def promote : SessionCall Limits Validator Validated ModuleError Pins PUnit := do
  let here ← get
  if here.own.state = .complete ∧ here.own.identityStatus = some .verified then
    match here.own.descriptor with
    | none => pure ⟨⟩
    | some d =>
      recordPin store d 4
      let here ← get
      if here.own.replay.isStore ∧ here.own.pinRecorded = false then rejectReplay .staleEpoch
      else exposePackage
  else pure ⟨⟩

end Pins

section Frames

variable (primitives : VerifyPrimitives) (store : PinStore Pins)
  (validators : ModuleValidator Limits Validator Validated ModuleError)

def feedPiece (fed : Except ModuleError (Validator × List UInt8)) (piece : List UInt8) :
    Except ModuleError (Validator × List UInt8) := do
  let (validator, bytes) ← fed
  match validators.push validator piece with
  | (.ok _, next) => .ok (next, bytes ++ piece)
  | (.error error, _) => .error error

def progressOf (session : StreamSession Limits Validator Validated ModuleError) (segId : Nat) :
    ExecProgress Validator :=
  (session.exec.get segId).getD ⟨validators.new session.modulePolicy, .new, []⟩

/-- The payload ended: what the scanner held back, and the whole-module checks. -/
def finishModule (segId : Nat) (progress : ExecProgress Validator) :
    Except (SessionError ModuleError) (List UInt8 × Validated) := do
  let (facts, held) := progress.scanner.finish primitives.sha256
  match facts with
  | .rejected error => .error (.wasmHeader segId error)
  | .bare _ | .headed _ =>
    let (validator, bytes) ←
      (held.foldl (feedPiece validators) (.ok (progress.validator, progress.bytes))).mapError
        (.module segId)
    let validated ← (validators.finish validator).mapError (.module segId)
    return (bytes, validated)

/-- `feed_module`; a refusal fails the session, which drops what was received. -/
def feedModule (segId : Nat) (payload : List UInt8) (segmentVerified : Bool) :
    SessionCall Limits Validator Validated ModuleError Pins PUnit := do
  let here ← get
  let progress := progressOf validators here.own segId
  let scan := progress.scanner.push payload
  let (validator, bytes) ← orRefusal
    ((scan.sunk.foldl (feedPiece validators) (.ok (progress.validator, progress.bytes))).mapError
      (.module segId))
  orRefusal (scan.result.mapError (.wasmHeader segId))
  let progress : ExecProgress Validator := ⟨validator, scan.scanner, bytes⟩
  if segmentVerified then
    let finished ← orRefusal (finishModule primitives validators segId progress)
    changeSession fun own =>
      { own with exec := own.exec.erase segId, ready := own.ready.insert segId finished }
  else changeSession fun own => { own with exec := own.exec.insert segId progress }

def onComplete : SessionCall Limits Validator Validated ModuleError Pins SessionEvent := do
  let here ← get
  match here.own.admission.report.filter VerificationReport.ok with
  | none =>
    refuse .packageRefused fun here => { here with own := here.own.fail .packageRefused }
  | some report =>
    changeSession fun own =>
      { own with
        pendingPackage := (StreamPackage.fromReport report).toOption
        state := .complete }
    promote store
    return .complete

def feedChunk (chunk : VerifiedChunk) (payload : List UInt8) (segmentVerified : Bool) :
    SessionCall Limits Validator Validated ModuleError Pins PUnit :=
  if chunk.segType = segTypeWasm then do
    match ← attempt (feedModule primitives validators chunk.segId payload segmentVerified) with
    | .ok _ => pure ⟨⟩
    | .error error => refuse error fun here => { here with own := here.own.fail error }
  else pure ⟨⟩

def afterChunk (chunk : VerifiedChunk) (payload : List UInt8) (segmentVerified : Bool)
    (stageVerified : Option Nat) (complete : Option IdentityStatus) :
    SessionCall Limits Validator Validated ModuleError Pins SessionEvent := do
  feedChunk primitives validators chunk payload segmentVerified
  if complete.isSome then onComplete store
  else return .chunk chunk.segId segmentVerified stageVerified

def after : AdmissionEvent → SessionCall Limits Validator Validated ModuleError Pins SessionEvent
  | .descriptorVerified .. => return .descriptor
  | .tableVerified _ => return .table
  | .duplicate segId _ => return .duplicate segId
  | .unverified segId _ => return .unverified segId
  | .duplicateDescriptor => return .duplicateDescriptor
  | .chunk chunk payload _ segmentVerified stageVerified complete =>
    afterChunk primitives store validators chunk payload segmentVerified stageVerified complete

def onAdmission {ε α : Type} (reasonOf : ε → AdmissionError) (call : Call ε StreamAdmission α) :
    SessionCall Limits Validator Validated ModuleError Pins α := do
  let here ← get
  let lent := here.own.lend (here.own.replay.over store here.pins)
  let (outcome, admission) ← orPanic (call.runFrom lent.admission)
  set { here with own := { lent with admission := admission } }
  match outcome with
  | .ok value => return value
  | .error reason => refuse (.stream (reasonOf reason)) fun here =>
    { here with own := here.own.checkPoisoned }

def pushFrame (frame : List UInt8) :
    SessionCall Limits Validator Validated ModuleError Pins SessionEvent := do
  let here ← get
  throwIf (here.own.state ≠ .receiving) .unusable
  after primitives store validators
    (← onAdmission store id (StreamAdmission.push primitives frame))

def StreamSession.readerState (session : StreamSession Limits Validator Validated ModuleError) :
    StreamState :=
  match session.admission.state with
  | .complete => .complete
  | .completeUnverified => .completeUnverified
  | .rejected reason => .rejected reason
  | .poisoned reason => .poisoned reason
  | state => if session.state = .failed then .suspended else state

def sessionTarget : FrameTarget (SessionScene Limits Validator Validated ModuleError Pins)
    SessionEvent (SessionError ModuleError) where
  state here := here.own.readerState
  framePayloadLimit here := here.own.admission.verifier.framePayloadLimit
  poison here reason :=
    let poisoned := here.own.admission.poison reason
    (poisoned.1, { here with own.admission := poisoned.2 })
  pushFrame here frame := (pushFrame primitives store validators frame).runFrom here

/-- `feed`: accept bytes in arbitrary splits. -/
def feedBytes (data : List UInt8) :
    SessionCall Limits Validator Validated ModuleError Pins PUnit := do
  let here ← get
  let start : Feeding _ SessionEvent (SessionError ModuleError) :=
    ⟨here.own.reader, { here with own.reader := .new }, []⟩
  let (outcome, fed) ← orPanic
    ((feedLoop (sessionTarget primitives store validators) (data.length + 1) data).runFrom start)
  set { fed.target with own.reader := fed.reader }
  changeSession StreamSession.checkPoisoned
  orRefusal (outcome.mapError fun reason => .stream (.stream reason))

def confirmIdentity (readAt : ReadAt) :
    SessionCall Limits Validator Validated ModuleError Pins PUnit := do
  onAdmission store .stream (StreamAdmission.finishIdentity primitives readAt)
  changeSession StreamSession.checkPoisoned
  promote store

def StreamSession.finishedCheck (session : StreamSession Limits Validator Validated ModuleError) :
    Except (SessionError ModuleError) Unit :=
  match session.state with
  | .receiving => .error .notComplete
  | .failed | .poisoned => .error .unusable
  | .complete =>
    if session.identityStatus ≠ some .verified then .error .identityUnverified else .ok ()

def StreamSession.moduleOf (session : StreamSession Limits Validator Validated ModuleError)
    (segId : Nat) :
    Except (SessionError ModuleError) (VerifiedModule Validated) ×
      OrderedMap Nat (List UInt8 × Validated) :=
  match session.admission.report with
  | none => (.error .unusable, session.ready)
  | some report =>
    match report.executables.find? fun entry =>
        entry.segmentId = segId ∧ entry.segmentType = segTypeWasm with
    | none => (.error .noSuchModule, session.ready)
    | some executable =>
      match session.ready.get segId with
      | none => (.error .noSuchModule, session.ready)
      | some (bytes, validated) =>
        let left := session.ready.erase segId
        if executable.matches primitives.sha256 bytes then
          (.ok ⟨bytes, executable, validated, report.rvfIdentity,
            session.descriptorHash.getD (Octets.zero 32), session.sessionId⟩, left)
        else (.error .identityMismatch, left)

def takeModule (segId : Nat) :
    SessionCall Limits Validator Validated ModuleError Pins (VerifiedModule Validated) := do
  let here ← get
  orRefusal here.own.finishedCheck
  -- A newer epoch pinned since the session completed makes its module stale.
  let _ ← orRefusal ((pinCheck store here.own here.pins).mapError .replay)
  let (module, ready) := here.own.moduleOf primitives segId
  set { here with own.ready := ready }
  orRefusal module

/-- What `install_capabilities` is given beside the session. -/
structure InstallArgs where
  table : CapabilityTable
  owner : PartitionId
  epoch : Nat
  firstCapId : Nat

def installCapabilities (N : Nat) (args : InstallArgs)
    (session : StreamSession Limits Validator Validated ModuleError) :
    Except (SessionError ModuleError) Nat × CapabilityTable ×
      StreamSession Limits Validator Validated ModuleError :=
  match session.finishedCheck with
  | .error error => (.error error, args.table, session)
  | .ok () =>
    match session.package with
    | none => (.error .unusable, args.table, session)
    | some package =>
      match package.capabilities.installTracked N args.owner args.epoch args.firstCapId args.table with
      | (.error error, table) => (.error (.install error), table, session)
      | (.ok handles, table) =>
        (.ok handles.length, table, { session with installed := session.installed ++ handles })

def takeObligation (session : StreamSession Limits Validator Validated ModuleError) :
    Option PoisonObligation × StreamSession Limits Validator Validated ModuleError :=
  let authenticated := session.poison.any PoisonReport.authenticated
  if session.state ≠ .poisoned ∨ session.obligationIssued = true ∨ authenticated = false then
    (none, session)
  else
    (some ⟨session.sessionId, session.installed⟩,
      { session with obligationIssued := true, installed := [] })

end Frames

end Session

end Rvm.Launch
