import Rvm.Types.Capability
import Rvm.Witness.Log

/-!
Owns the security gate of `rvm-security/src/gate.rs`: the capability check, the
proof commitment, the optional proof chain, and the one witness record each
decision appends.
-/

namespace Rvm.Security

open Witness

/-- Chain links supplied for verification, each with an auxiliary signature; only the first
`linkCount` of at most four are read. -/
structure P3WitnessChain where
  links : Nat → Nat × Nat
  signatures : Nat → Vector UInt8 8
  linkCount : Nat

/-- Each link's record hash is the next link's previous hash. -/
def verifyP3Chain (chain : P3WitnessChain) : Bool :=
  if chain.linkCount = 0 then false
  else (List.range (min chain.linkCount 4 - 1)).all fun i =>
    (chain.links i).2 == (chain.links (i + 1)).1

structure GateRequest where
  token : CapToken
  requiredType : CapType
  requiredRights : CapRights
  proofCommitment : Option WitnessHash
  requireP3 : Bool
  p3WitnessData : Option P3WitnessChain
  action : ActionKind
  targetObjectId : Nat
  timestampNs : Nat

structure GateResponse where
  witnessSequence : Nat
  proofTier : Nat
deriving DecidableEq, Repr

inductive SecurityError where
  | capabilityTypeMismatch | insufficientRights | policyViolation | derivationChainBroken
  | internal (error : RvmError)
deriving DecidableEq, Repr

/-- The decision on a request: the proof tier it satisfied. -/
def GateRequest.check (request : GateRequest) : Except SecurityError Nat :=
  if request.token.capType ≠ request.requiredType then .error .capabilityTypeMismatch
  else if request.token.hasRights request.requiredRights = false then .error .insufficientRights
  else if request.proofCommitment.any WitnessHash.isZero then .error .policyViolation
  else if request.requireP3 then
    if request.p3WitnessData.any verifyP3Chain then .ok 3 else .error .derivationChainBroken
  else if request.proofCommitment.isSome then .ok 2
  else .ok 1

def GateRequest.allowed (request : GateRequest) (proofTier : Nat) : WitnessRecord :=
  { WitnessRecord.zeroed with
    actionKind := request.action.asU8
    proofTier := proofTier
    targetObjectId := request.targetObjectId
    capabilityHash := request.token.truncatedHash
    timestampNs := request.timestampNs }

def GateRequest.rejection (request : GateRequest) : WitnessRecord :=
  { WitnessRecord.zeroed with
    actionKind := ActionKind.proofRejected.asU8
    targetObjectId := request.targetObjectId
    capabilityHash := request.token.truncatedHash
    timestampNs := request.timestampNs }

def checkAndExecute (N : Nat) (hasher : ChainHasher) (log : WitnessLog) (request : GateRequest) :
    Except SecurityError GateResponse × WitnessLog :=
  match request.check with
  | .error e => (.error e, (log.append N hasher request.rejection).2)
  | .ok proofTier =>
    let appended := log.append N hasher (request.allowed proofTier)
    (.ok ⟨appended.1, proofTier⟩, appended.2)

end Rvm.Security
