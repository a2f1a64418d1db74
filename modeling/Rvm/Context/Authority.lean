import Rvm.Cap.DeepProof
import Rvm.Context.Resolver
import Rvm.Foundation.Tables
import Rvm.Witness.Log

/-!
Owns the context authority of `rvm-context/src/capability.rs`: the trusted scope
bindings of capability tokens, the administration of capabilities under them, and
the authorization of requests with the records it appends. Revocation walks take
fuel; a call without an outcome ran out of it.
-/

namespace Rvm.Context

open Cap Foundation Foundation.Call Witness

/-- Trusted scope binding for one live capability token identifier. -/
structure ContextGrant where
  tokenId : Nat
  scope : ContextScope
deriving DecidableEq

structure ContextGrantTable where
  grants : List ContextGrant
deriving DecidableEq

namespace ContextGrantTable

def new : ContextGrantTable := ⟨[]⟩

def get (table : ContextGrantTable) (tokenId : Nat) : Option ContextGrant :=
  entryFor ContextGrant.tokenId table.grants tokenId

def bind (G : Nat) (table : ContextGrantTable) (tokenId : Nat) (scope : ContextScope) :
    Except ContextError ContextGrantTable :=
  match table.get tokenId with
  | some existing => if existing.scope = scope then .ok table else .error .grantAlreadyBound
  | none =>
    if table.grants.length ≥ G then .error .grantTableFull
    else .ok ⟨table.grants ++ [⟨tokenId, scope⟩]⟩

def isLive (N : Nat) (manager : CapabilityManager) (tokenId : Nat) : Bool :=
  (List.range N).any fun index =>
    (manager.table.slots index).isValid && (manager.table.slots index).token.id == tokenId

def retainLive (N : Nat) (manager : CapabilityManager) (table : ContextGrantTable) :
    ContextGrantTable :=
  ⟨table.grants.filter fun grant => isLive N manager grant.tokenId⟩

def clear (_ : ContextGrantTable) : ContextGrantTable := ⟨[]⟩

end ContextGrantTable

/-- Owner of live context capabilities and their trusted scope bindings. -/
structure ContextAuthority where
  manager : CapabilityManager
  grants : ContextGrantTable

namespace ContextAuthority

def new (manager : CapabilityManager) : ContextAuthority := ⟨manager, .new⟩

def onManager {α : Type} (operation : CapabilityManager → Except CapError α × CapabilityManager) :
    Call ContextError ContextAuthority α := do
  let here ← get
  let (result, manager) := operation here.manager
  set { here with manager := manager }
  translate .capability (orRefusal result)

/-- Bind a capability just issued; when that fails, revoke it again, whatever the
revocation returns. -/
def bindIssued (N G fuel : Nat) (handle : CapabilityHandle) (scope : ContextScope) :
    Call ContextError ContextAuthority CapabilityHandle := do
  let here ← get
  let slot ← translate .capability
    (orRefusal (here.manager.table.lookup N handle.index handle.generation))
  match here.grants.bind G slot.token.id scope with
  | .error error =>
    let (_, manager) ← orPanic (here.manager.revoke N fuel handle.index handle.generation)
    set { here with manager := manager }
    throw error
  | .ok grants =>
    set { here with grants := grants }
    return handle

variable (N G : Nat) (sha256 : List UInt8 → Octets 32)

def issueRoot (fuel : Nat) (scope : ContextScope) (rights : CapRights)
    (owner caller : PartitionId) : Call ContextError ContextAuthority CapabilityHandle := do
  let badge := scope.fingerprint sha256
  let (index, generation) ← onManager fun manager =>
    manager.createRootCapabilityChecked N .context rights badge owner caller
  bindIssued N G fuel ⟨index, generation⟩ scope

/-- Bind an existing live context capability supplied by trusted kernel code. -/
def bindExisting (handle : CapabilityHandle) (scope : ContextScope) :
    Call ContextError ContextAuthority Unit := do
  let here ← get
  translate (fun _ => .accessDenied)
    (orRefusal (here.manager.verifyP1 N handle.index handle.generation .empty))
  let slot ← translate (fun _ => .accessDenied)
    (orRefusal (here.manager.table.lookup N handle.index handle.generation))
  throwIf (slot.token.capType ≠ .context) .accessDenied
  let grants ← orRefusal (here.grants.bind G slot.token.id scope)
  set { here with grants := grants }

def delegate (fuel : Nat) (source : CapabilityHandle) (childScope : ContextScope)
    (requestedRights : CapRights) (targetOwner caller : PartitionId) :
    Call ContextError ContextAuthority CapabilityHandle := do
  let here ← get
  translate (fun _ => .accessDenied)
    (orRefusal (here.manager.verifyP1 N source.index source.generation .grant))
  let sourceSlot ← translate (fun _ => .accessDenied)
    (orRefusal (here.manager.table.lookup N source.index source.generation))
  throwIf (sourceSlot.token.capType ≠ .context ∨ sourceSlot.owner ≠ caller) .accessDenied
  let parent ← orThrow (here.grants.get sourceSlot.token.id) .accessDenied
  throwIf (!parent.scope.containsScope childScope) .scopeEscalation
  let badge := childScope.fingerprint sha256
  let (index, generation) ← onManager fun manager =>
    manager.grantWithCaller N source.index source.generation requestedRights badge targetOwner
      (some caller)
  bindIssued N G fuel ⟨index, generation⟩ childScope

def revoke (fuel : Nat) (handle : CapabilityHandle) : Call ContextError ContextAuthority Nat := do
  let here ← get
  let (result, manager) ← orPanic (here.manager.revoke N fuel handle.index handle.generation)
  set { here with manager := manager }
  let revokedCount ← translate .capability (orRefusal result)
  set (⟨manager, here.grants.retainLive N manager⟩ : ContextAuthority)
  return revokedCount

def incrementEpoch (here : ContextAuthority) : ContextAuthority :=
  ⟨here.manager.incrementEpoch, here.grants.clear⟩

end ContextAuthority

def handleFingerprint (handle : CapabilityHandle) : Nat :=
  handle.index ^^^ ((BitVec.ofNat 32 handle.generation).rotateLeft 13).toNat

def digestBytes (digest : Octets 32) (start : Nat) : Vector UInt8 8 :=
  Vector.ofFn fun i => digest.toList.getD (start + i) 0

/-- The record of an operation on a target, before the log fills in its chain
fields. -/
def contextRecord (sha256 : List UInt8 → Octets 32) (action : ActionKind)
    (operation : ContextOperation) (actor : PartitionId) (capabilityHash timestampNs : Nat)
    (target : RuvUri) : WitnessRecord :=
  let digest := sha256 (utf8 target.toText)
  { WitnessRecord.zeroed with
    actionKind := action.asU8
    proofTier := 1
    flags := operation.asU8
    actorPartitionId := actor.asU32
    targetObjectId := littleEndianValue (digest.toList.take 8)
    capabilityHash := capabilityHash
    payload := digestBytes digest 8
    timestampNs := timestampNs }

/-- What appending to a log needs: the capacity of the ring and the hashes. -/
structure WitnessParameters where
  capacity : Nat
  hasher : ChainHasher
  sha256 : List UInt8 → Octets 32

variable (witness : WitnessParameters)

def emitRecord {ε : Type} (record : WitnessRecord) : Call ε WitnessLog Nat := do
  let log ← get
  let (sequence, log) := log.append witness.capacity witness.hasher record
  set log
  return sequence

def emitDecision {ε : Type} (action : ActionKind) (actor : PartitionId) (timestampNs : Nat)
    (request : ContextRequest) (capabilityHash : Nat) : Call ε WitnessLog Nat :=
  emitRecord witness (contextRecord witness.sha256 action request.operation actor capabilityHash
    timestampNs request.target)

def emitAuthorized {ε : Type} (action : ActionKind) (request : AuthorizedRequest) :
    Call ε WitnessLog Nat :=
  emitRecord witness (contextRecord witness.sha256 action request.operation request.actor
    request.capabilityHash request.timestampNs request.target)

def shapeError (request : ContextRequest) (expectedOperation : ContextOperation) : ContextError :=
  if request.operation ≠ expectedOperation then .operationMismatch
  else
    match expectedOperation with
    | .put | .verify | .execute | .sealReceipt =>
      if !request.target.isPinned then .pinnedUriRequired else .invalidTarget
    | .list | .tree | .history | .compareAndSwapAlias | .forget =>
      if request.target.isPinned then .versionlessUriRequired else .invalidTarget
    | .resolve | .read | .search | .grant | .revoke => .invalidTarget

namespace ContextAuthority

def deny {α : Type} (actor : PartitionId) (timestampNs : Nat) (request : ContextRequest)
    (capabilityHash : Nat) (reason : ContextError) : Call ContextError WitnessLog α := do
  let _ ← emitDecision witness .proofRejected actor timestampNs request capabilityHash
  throw reason

def authorize (N : Nat) (here : ContextAuthority) (actor : PartitionId) (timestampNs : Nat)
    (request : ContextRequest) (expectedOperation : ContextOperation) :
    Call ContextError WitnessLog AuthorizedRequest := do
  let denied := deny witness actor timestampNs request
  let capability := request.capability
  if valid : request.operation = expectedOperation ∧
      expectedOperation.targetShapeIsValid request.target = true then
    match here.manager.verifyP1 N capability.index capability.generation
        expectedOperation.requiredRights with
    | .error _ => denied (handleFingerprint capability) .accessDenied
    | .ok _ =>
      match here.manager.table.lookup N capability.index capability.generation with
      | .error _ => denied (handleFingerprint capability) .accessDenied
      | .ok slot =>
        let token := slot.token
        if token.capType ≠ .context ∨ slot.owner ≠ actor then
          denied token.truncatedHash .accessDenied
        else
          match here.grants.get token.id with
          | none => denied token.truncatedHash .accessDenied
          | some grant =>
            if !grant.scope.allows request.target expectedOperation then
              denied token.truncatedHash .accessDenied
            else
              let sequence ← emitDecision witness .proofVerifiedP1 actor timestampNs request
                token.truncatedHash
              return ⟨actor, expectedOperation, request.target, token.truncatedHash, sequence,
                timestampNs, valid.2⟩
  else
    denied (handleFingerprint capability) (shapeError request expectedOperation)

end ContextAuthority

inductive AuthorityCall where
  | issueRoot (scope : ContextScope) (rights : CapRights) (owner caller : PartitionId)
  | bindExisting (handle : CapabilityHandle) (scope : ContextScope)
  | delegate (source : CapabilityHandle) (childScope : ContextScope)
      (requestedRights : CapRights) (targetOwner caller : PartitionId)
  | revoke (handle : CapabilityHandle)
  | incrementEpoch

inductive AuthorityReply where
  | handle (handle : CapabilityHandle)
  | revoked (count : Nat)
  | done

structure AuthorityEvent where
  call : AuthorityCall
  outcome : Except ContextError AuthorityReply

namespace ContextAuthority

variable (N G : Nat) (sha256 : List UInt8 → Octets 32)

def serve (fuel : Nat) : AuthorityCall → Call ContextError ContextAuthority AuthorityReply
  | .issueRoot scope rights owner caller =>
    AuthorityReply.handle <$> issueRoot N G sha256 fuel scope rights owner caller
  | .bindExisting handle scope => (fun _ => .done) <$> bindExisting N G handle scope
  | .delegate source childScope requestedRights targetOwner caller =>
    AuthorityReply.handle <$>
      delegate N G sha256 fuel source childScope requestedRights targetOwner caller
  | .revoke handle => AuthorityReply.revoked <$> revoke N fuel handle
  | .incrementEpoch => do
    modify incrementEpoch
    return .done

def Step (here : ContextAuthority) (event : AuthorityEvent) (next : ContextAuthority) : Prop :=
  ∃ fuel, (serve N G sha256 fuel event.call).runFrom here = some (event.outcome, next)

end ContextAuthority

end Rvm.Context
