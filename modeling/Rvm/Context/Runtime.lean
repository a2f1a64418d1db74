import Rvm.Context.Authority
import Rvm.Context.Profile
import Rvm.Context.Receipt

/-!
Owns the governed runtime of `rvm-context/src/runtime.rs`: its fourteen operations over any
backend and any clock. A panic of the backend or of the persistence callback unwinds through the
runtime; the state keeps, as ghosts, the calls of the backend with the witness log each was made
at, and all records ever appended to the log.
-/

namespace Rvm.Context

open Cap Foundation Foundation.Call Witness

/-- Why a call of the runtime did not return a value. -/
inductive Stop where
  | refused (error : ContextError)
  | panicked
deriving DecidableEq

/-- Persistent cursor for the runtime-owned context receipt chain. -/
structure ReceiptChainState where
  nextCheckpoint : WitnessCheckpoint
  nextEpochId : Nat
  previousReceiptId : Octets 32
deriving DecidableEq

def ReceiptChainState.genesis (nextCheckpoint : WitnessCheckpoint) : ReceiptChainState :=
  ⟨nextCheckpoint, 0, Octets.zero 32⟩

/-- A one-operation authorization to execute one pinned skill revision. -/
structure ExecutionPermit where
  actor : PartitionId
  pinnedUri : PinnedRuvUri
  revision : Revision
  capabilityHash : Nat
  witnessSequence : Nat

/-- What a runtime is generic over: the capacities, the hashes, the RVF verifier,
the backend `ρ` and the clock `κ`. -/
structure RuntimeParameters (ρ κ : Type) where
  capabilities : Nat
  grants : Nat
  witness : WitnessParameters
  verify : List UInt8 → VerifyOptions → Except Rvf.RvfError VerificationReport
  resolver : ContextResolver ρ
  timestampNs : κ → Nat × κ

/-- Capability-gated facade over one context resolver and witness ring. -/
structure ContextRuntime (ρ κ : Type) where
  actor : PartitionId
  authority : ContextAuthority
  resolver : ρ
  witness : WitnessLog
  receiptChain : ReceiptChainState
  clock : κ
  asked : List (ResolverCall × WitnessLog)
  recorded : List WitnessRecord

def validResultIntegrity (result : ResolvedContext) : Bool :=
  let aliasIsValid :=
    match result.aliasSnapshot with
    | some snapshot =>
      !snapshot.tombstone && decide (snapshot.revision = result.revision) &&
        sameLogicalName snapshot.aliasUri result.pinnedUri.uri
    | none => true
  decide (result.rvfLen ≤ maxRvfBytes) && decide (result.pinnedUri.revision = result.revision) &&
    aliasIsValid

def validExactResult (target : RuvUri) (result : ResolvedContext) : Bool :=
  validResultIntegrity result && sameLogicalName target result.pinnedUri.uri &&
    match target.revision with
    | none => result.aliasSnapshot.isSome
    | some revision => decide (revision = result.revision)

def hasDuplicates {α : Type} (pinnedUri : α → PinnedRuvUri) (entries : List α) : Bool :=
  !decide (entries.map pinnedUri).Nodup

def validEnumeration (root : RuvUri) (entries : List ResolvedContext) (limit : Nat)
    (recursive : Bool) : Bool :=
  decide (entries.length ≤ limit) && !hasDuplicates ResolvedContext.pinnedUri entries &&
    entries.all fun entry =>
      let candidate := entry.pinnedUri.uri
      validResultIntegrity entry && entry.aliasSnapshot.isSome && isWithin root candidate &&
        decide (candidate.path.length > root.path.length) &&
        (recursive || decide (candidate.path.length = root.path.length + 1))

/-- The checks on the revisions of one name. -/
def validHistory (target : RuvUri) (entries : List ResolvedContext) (limit : Nat) : Bool :=
  !(decide (entries.length > limit) ||
    (entries.any fun entry =>
      !validResultIntegrity entry || !sameLogicalName target entry.pinnedUri.uri) ||
    hasDuplicates ResolvedContext.pinnedUri entries)

def validHits (root : RuvUri) (hits : List ContextHit) (limit : Nat) : Bool :=
  decide (hits.length ≤ limit) &&
    (hits.all fun hit =>
      let candidate := hit.pinnedUri.uri
      decide (hit.revision = hit.pinnedUri.revision) &&
        match root.revision with
        | some revision => sameLogicalName root candidate && decide (hit.revision = revision)
        | none => isWithin root candidate) &&
    !hasDuplicates ContextHit.pinnedUri hits

def followingGeneration (generation : AliasGeneration) : Option AliasGeneration :=
  if generation.value + 1 ≤ u64Max then AliasGeneration.new (generation.value + 1) else none

def expectedGeneration (expected : Option AliasSnapshot) : Option AliasGeneration :=
  match expected with
  | none => some AliasGeneration.initial
  | some prior => followingGeneration prior.generation

def validAdvance (target : RuvUri) (expected : Option AliasSnapshot) (nextRevision : Revision)
    (snapshot : AliasSnapshot) : Bool :=
  !(snapshot.tombstone || !sameLogicalName snapshot.aliasUri target ||
    decide (snapshot.revision ≠ nextRevision) ||
    decide (some snapshot.generation ≠ expectedGeneration expected))

def validTombstone (target : RuvUri) (expected snapshot : AliasSnapshot) : Bool :=
  !(!snapshot.tombstone || !sameLogicalName snapshot.aliasUri target ||
    decide (snapshot.revision = expected.revision) ||
    decide (some snapshot.generation ≠ expectedGeneration (some expected)))

def logicalContextClock (nextTimestampNs : Nat) : Nat × Nat :=
  (nextTimestampNs, min (nextTimestampNs + 1) u64Max)

namespace ContextRuntime

variable {ρ κ : Type} (parameters : RuntimeParameters ρ κ)

def primitives : RvfPrimitives := ⟨parameters.witness.sha256, parameters.verify⟩

def withClock (actor : PartitionId) (authority : ContextAuthority) (resolver : ρ) (clock : κ) :
    ContextRuntime ρ κ where
  actor := actor
  authority := authority
  resolver := resolver
  witness := .new
  receiptChain := .genesis WitnessLog.new.checkpoint
  clock := clock
  asked := []
  recorded := []

def new (actor : PartitionId) (authority : ContextAuthority) (resolver : ρ) :
    ContextRuntime ρ Nat :=
  withClock actor authority resolver 0

abbrev RuntimeCall (ρ κ α : Type) := Call Stop (ContextRuntime ρ κ) α

/-- The log after a call, noted with the record the call stored, which is in the
cell that was the next to be written. -/
def withWitness (here : ContextRuntime ρ κ) (log : WitnessLog) : ContextRuntime ρ κ :=
  { here with
    witness := log
    recorded := here.recorded ++
      if log.written = here.witness.written then []
      else [log.records here.witness.writePos] }

def onWitness {α : Type} (call : Call ContextError WitnessLog α) : RuntimeCall ρ κ α :=
  onPart ContextRuntime.witness withWitness (translate .refused call)

def onAuthority {α : Type} (call : Call ContextError ContextAuthority α) : RuntimeCall ρ κ α :=
  onPart ContextRuntime.authority (fun here authority => { here with authority := authority })
    (translate .refused call)

/-- A method of the backend, noted with the log it is called at. -/
def ask {α : Type} (call : ResolverCall) (method : Call ContextError ρ α) : RuntimeCall ρ κ α := do
  let here ← get
  set { here with asked := here.asked ++ [(call, here.witness)] }
  match method.runFrom here.resolver with
  | none => throw .panicked
  | some (outcome, resolver) =>
    modify fun here => { here with resolver := resolver }
    translate .refused (orRefusal outcome)

def nextTimestamp : RuntimeCall ρ κ Nat := do
  let here ← get
  let (timestampNs, clock) := parameters.timestampNs here.clock
  set { here with clock := clock }
  return timestampNs

def authorize (request : ContextRequest) (operation : ContextOperation) :
    RuntimeCall ρ κ AuthorizedRequest := do
  let timestampNs ← nextTimestamp parameters
  let here ← get
  onWitness (here.authority.authorize parameters.witness parameters.capabilities here.actor
    timestampNs request operation)

def rejectResolver {α : Type} (request : AuthorizedRequest) : RuntimeCall ρ κ α := do
  let _ ← onWitness (emitAuthorized parameters.witness .proofRejected request)
  throw (.refused .resolverScopeViolation)

/-- A result of the backend that does not pass its checks is rejected. -/
def checked (valid : Bool) (request : AuthorizedRequest) : RuntimeCall ρ κ Unit :=
  if valid then pure () else rejectResolver parameters request

def complete (request : AuthorizedRequest) : RuntimeCall ρ κ Nat :=
  onWitness (emitAuthorized parameters.witness request.operation.actionKind request)

def refuseWhen (condition : Prop) [Decidable condition] (error : ContextError) :
    RuntimeCall ρ κ PUnit :=
  throwIf condition (.refused error)

def validateEnumLimit (limit : Nat) : RuntimeCall ρ κ PUnit :=
  refuseWhen (limit = 0 ∨ limit > maxEnumResults) .invalidResultLimit

def verifyProfile (rvf : List UInt8) (revision : Revision) :
    RuntimeCall ρ κ VerifiedContextProfile := do
  refuseWhen (rvf.length > maxRvfBytes) .objectTooLarge
  translate (fun _ => .refused .rvfVerificationFailed)
    (reading (VerifiedContextProfile.fromRvf (primitives parameters) rvf revision .pinnedIdentity []))

def resolve (request : ContextRequest) : RuntimeCall ρ κ ResolvedContext := do
  let authorized ← authorize parameters request .resolve
  let resolved ← ask (.resolve authorized) (parameters.resolver.resolve authorized)
  checked parameters (validExactResult authorized.target resolved) authorized
  let _ ← complete parameters authorized
  return resolved

def list (request : ContextRequest) (limit : Nat) : RuntimeCall ρ κ (List ResolvedContext) := do
  let authorized ← authorize parameters request .list
  validateEnumLimit limit
  let entries ← ask (.list authorized limit) (parameters.resolver.list authorized limit)
  checked parameters (validEnumeration authorized.target entries limit false) authorized
  let _ ← complete parameters authorized
  return entries

def tree (request : ContextRequest) (limit : Nat) : RuntimeCall ρ κ (List ResolvedContext) := do
  let authorized ← authorize parameters request .tree
  validateEnumLimit limit
  let entries ← ask (.tree authorized limit) (parameters.resolver.tree authorized limit)
  checked parameters (validEnumeration authorized.target entries limit true) authorized
  let _ ← complete parameters authorized
  return entries

def read (request : ContextRequest) : RuntimeCall ρ κ (ResolvedContext × List UInt8) := do
  let authorized ← authorize parameters request .read
  let (resolved, rvf) ← ask (.read authorized) (parameters.resolver.read authorized)
  checked parameters
    (validExactResult authorized.target resolved && decide (resolved.rvfLen = rvf.length)) authorized
  let profile ← verifyProfile parameters rvf resolved.revision
  let view := authorized.target.view.getD .content
  let output ← translate (fun _ => .refused .rvfVerificationFailed)
    (reading (profile.payload (primitives parameters) rvf view))
  let _ ← complete parameters authorized
  return (resolved, output)

def search (request : ContextRequest) (query : List UInt8) (limit : Nat) :
    RuntimeCall ρ κ (List ContextHit) := do
  let authorized ← authorize parameters request .search
  refuseWhen (query.isEmpty ∨ query.length > maxSearchQueryBytes) .invalidQuery
  refuseWhen (limit = 0 ∨ limit > maxSearchResults) .invalidResultLimit
  let hits ← ask (.search authorized query limit)
    (parameters.resolver.search authorized query limit)
  checked parameters (validHits authorized.target hits limit) authorized
  let _ ← complete parameters authorized
  return hits

def history (request : ContextRequest) (limit : Nat) : RuntimeCall ρ κ (List ResolvedContext) := do
  let authorized ← authorize parameters request .history
  validateEnumLimit limit
  let entries ← ask (.history authorized limit) (parameters.resolver.history authorized limit)
  checked parameters (validHistory authorized.target entries limit) authorized
  let _ ← complete parameters authorized
  return entries

def verify (request : ContextRequest) : RuntimeCall ρ κ ResolvedContext := do
  let authorized ← authorize parameters request .verify
  let (resolved, rvf) ← ask (.verify authorized) (parameters.resolver.verify authorized)
  checked parameters
    (validExactResult authorized.target resolved && decide (resolved.rvfLen = rvf.length)) authorized
  let _ ← verifyProfile parameters rvf resolved.revision
  let _ ← complete parameters authorized
  return resolved

def put (request : ContextRequest) (rvf : List UInt8) : RuntimeCall ρ κ ResolvedContext := do
  let authorized ← authorize parameters request .put
  let revision ← orThrow authorized.target.revision (.refused .pinnedUriRequired)
  let _ ← verifyProfile parameters rvf revision
  let resolved ← ask (.put authorized rvf) (parameters.resolver.put authorized rvf)
  checked parameters
    (validExactResult authorized.target resolved && decide (resolved.rvfLen = rvf.length)) authorized
  let _ ← complete parameters authorized
  return resolved

def compareAndSwapAlias (request : ContextRequest) (expected : Option AliasSnapshot)
    (nextRevision : Revision) : RuntimeCall ρ κ AliasSnapshot := do
  let authorized ← authorize parameters request .compareAndSwapAlias
  refuseWhen (expected.any fun snapshot =>
    snapshot.tombstone || !sameLogicalName snapshot.aliasUri authorized.target) .invalidTarget
  let snapshot ← ask (.compareAndSwapAlias authorized expected nextRevision)
    (parameters.resolver.compareAndSwapAlias authorized expected nextRevision)
  checked parameters (validAdvance authorized.target expected nextRevision snapshot) authorized
  let _ ← complete parameters authorized
  return snapshot

def forget (request : ContextRequest) (expected : AliasSnapshot) : RuntimeCall ρ κ AliasSnapshot := do
  let authorized ← authorize parameters request .forget
  refuseWhen (expected.tombstone || !sameLogicalName expected.aliasUri authorized.target)
    .invalidTarget
  let snapshot ← ask (.forget authorized expected) (parameters.resolver.forget authorized expected)
  checked parameters (validTombstone authorized.target expected snapshot) authorized
  let _ ← complete parameters authorized
  return snapshot

def authorizeExecute (request : ContextRequest) : RuntimeCall ρ κ ExecutionPermit := do
  let authorized ← authorize parameters request .execute
  let (resolved, rvf) ← ask (.prepareExecute authorized)
    (parameters.resolver.prepareExecute authorized)
  checked parameters
    (validExactResult authorized.target resolved && decide (resolved.rvfLen = rvf.length)) authorized
  let profile ← verifyProfile parameters rvf resolved.revision
  refuseWhen (!profile.isExecutable .content) .invalidTarget
  let witnessSequence ← complete parameters authorized
  return ⟨authorized.actor, resolved.pinnedUri, resolved.revision, authorized.capabilityHash,
    witnessSequence⟩

/-- The roll back of a failed grant takes fuel. -/
def grant (fuel : Nat) (request : ContextRequest) (childScope : ContextScope)
    (requestedRights : CapRights) (targetOwner : PartitionId) : RuntimeCall ρ κ CapabilityHandle := do
  let authorized ← authorize parameters request .grant
  let here ← get
  let handle ← onAuthority (ContextAuthority.delegate parameters.capabilities parameters.grants
    parameters.witness.sha256 fuel request.capability childScope requestedRights targetOwner here.actor)
  let _ ← complete parameters authorized
  return handle

def revoke (fuel : Nat) (request : ContextRequest) : RuntimeCall ρ κ Nat := do
  let authorized ← authorize parameters request .revoke
  let count ← onAuthority (ContextAuthority.revoke parameters.capabilities fuel request.capability)
  let _ ← complete parameters authorized
  return count

/-- What sealing is given beside the request: the record buffer, the commitments,
the signer, and the callback that makes the receipt durable. -/
structure SealArguments where
  scratch : List WitnessRecord
  commitments : EpochCommitments
  signer : WitnessSigner
  persist : SignedContextEpochReceipt → ReceiptChainState → Option (Except ContextError Unit)

def sealEpochTransactional (request : ContextRequest) (arguments : SealArguments) :
    RuntimeCall ρ κ (SignedContextEpochReceipt × WitnessCheckpoint) := do
  let sha256 := parameters.witness.sha256
  let authorized ← authorize parameters request .sealReceipt
  let here ← get
  let chain := here.receiptChain
  refuseWhen (chain.nextEpochId + 1 > u64Max) .receiptSealFailed
  refuseWhen (authorized.target.revision.map Revision.bytes ≠ some arguments.commitments.rvfIdentity)
    .invalidTarget
  let (receipt, nextCheckpoint) ← translate (fun _ => .refused .receiptSealFailed)
    (orRefusal (ContextEpochReceipt.sealFromLog sha256 parameters.witness.capacity
      parameters.witness.hasher chain.nextEpochId here.witness chain.nextCheckpoint
      arguments.scratch chain.previousReceiptId arguments.commitments))
  let signedReceipt := receipt.sign sha256 arguments.signer
  let followingState : ReceiptChainState :=
    ⟨nextCheckpoint, chain.nextEpochId + 1, signedReceipt.receiptId sha256⟩
  let verified ← translate (fun _ => .refused .receiptSealFailed)
    (orRefusal (signedReceipt.verify sha256 arguments.signer))
  let persisted ← orThrow (arguments.persist signedReceipt followingState) .panicked
  translate .refused (orRefusal persisted)
  let sealTimestampNs ← nextTimestamp parameters
  let _ ← onWitness (emitRecord parameters.witness
    (verified.sealRecord authorized.actor.asU32 authorized.capabilityHash sealTimestampNs))
  modify fun here => { here with receiptChain := followingState }
  return (signedReceipt, nextCheckpoint)

def sealEpoch (request : ContextRequest) (arguments : SealArguments) :
    RuntimeCall ρ κ (SignedContextEpochReceipt × WitnessCheckpoint) :=
  sealEpochTransactional parameters request
    { arguments with persist := fun _ _ => some (.ok ()) }

inductive Access where
  | resolve (request : ContextRequest)
  | list (request : ContextRequest) (limit : Nat)
  | tree (request : ContextRequest) (limit : Nat)
  | read (request : ContextRequest)
  | search (request : ContextRequest) (query : List UInt8) (limit : Nat)
  | history (request : ContextRequest) (limit : Nat)
  | verify (request : ContextRequest)
  | put (request : ContextRequest) (rvf : List UInt8)
  | compareAndSwapAlias (request : ContextRequest) (expected : Option AliasSnapshot)
      (nextRevision : Revision)
  | forget (request : ContextRequest) (expected : AliasSnapshot)
  | authorizeExecute (request : ContextRequest)
  | grant (request : ContextRequest) (childScope : ContextScope) (requestedRights : CapRights)
      (targetOwner : PartitionId)
  | revoke (request : ContextRequest)
  | sealEpoch (request : ContextRequest) (arguments : SealArguments)

/-- What a successful access returns. -/
inductive AccessReply where
  | resolved (resolved : ResolvedContext)
  | entries (entries : List ResolvedContext)
  | bytes (resolved : ResolvedContext) (output : List UInt8)
  | hits (hits : List ContextHit)
  | snapshot (snapshot : AliasSnapshot)
  | permit (permit : ExecutionPermit)
  | handle (handle : CapabilityHandle)
  | revoked (count : Nat)
  | epochSealed (receipt : SignedContextEpochReceipt) (nextCheckpoint : WitnessCheckpoint)

def serve (fuel : Nat) : Access → RuntimeCall ρ κ AccessReply
  | .resolve request => AccessReply.resolved <$> resolve parameters request
  | .list request limit => AccessReply.entries <$> list parameters request limit
  | .tree request limit => AccessReply.entries <$> tree parameters request limit
  | .read request => (fun result => .bytes result.1 result.2) <$> read parameters request
  | .search request query limit => AccessReply.hits <$> search parameters request query limit
  | .history request limit => AccessReply.entries <$> history parameters request limit
  | .verify request => AccessReply.resolved <$> verify parameters request
  | .put request rvf => AccessReply.resolved <$> put parameters request rvf
  | .compareAndSwapAlias request expected nextRevision =>
    AccessReply.snapshot <$> compareAndSwapAlias parameters request expected nextRevision
  | .forget request expected => AccessReply.snapshot <$> forget parameters request expected
  | .authorizeExecute request => AccessReply.permit <$> authorizeExecute parameters request
  | .grant request childScope requestedRights targetOwner =>
    AccessReply.handle <$>
      grant parameters fuel request childScope requestedRights targetOwner
  | .revoke request => AccessReply.revoked <$> revoke parameters fuel request
  | .sealEpoch request arguments =>
    (fun result => .epochSealed result.1 result.2) <$>
      sealEpochTransactional parameters request arguments

end ContextRuntime

end Rvm.Context
