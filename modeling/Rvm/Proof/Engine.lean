import Rvm.Cap.DeepProof
import Rvm.Proof.Policy
import Rvm.Witness.Replay

/-!
Owns the proof engine of `rvm-proof/src/engine.rs`: its four entry points, the witness records
they emit, and when a `ProofVerifiedP3` record is truthful. Only `verify_p3_with_cap` walks the
derivation chain.
-/

namespace Rvm.Proof

open Rvm.Cap Rvm.Witness WitnessLog ActionKind

inductive ProofTier where
  | p1 | p2 | p3
deriving DecidableEq, Repr

def ProofTier.asU8 : ProofTier → Nat
  | .p1 => 1
  | .p2 => 2
  | .p3 => 3

structure ProofToken where
  tier : ProofTier
  epoch : Nat
  hash : Nat
deriving DecidableEq, Repr

/-- `ProofContext` with the fields that the engine reads besides the rules. -/
structure EngineContext extends ProofContext where
  targetObject : Nat
  capabilityHandle : Nat
  capabilityGeneration : Nat
  currentEpoch : Nat
deriving DecidableEq, Repr

def proofErrorToRvm : ProofError → RvmError
  | .invalidHandle => .insufficientCapability
  | .insufficientRights => .insufficientCapability
  | .staleCapability => .staleCapability
  | .policyViolation => .proofInvalid
  | .derivationChainBroken => .proofInvalid
  | .p3NotImplemented => .unsupported

def proofRecord (action : ActionKind) (context : EngineContext) (token : ProofToken) :
    WitnessRecord :=
  { WitnessRecord.zeroed with
    actionKind := action.asU8
    proofTier := token.tier.asU8
    actorPartitionId := context.partitionId.asU32
    targetObjectId := context.targetObject
    capabilityHash := token.hash }

section Emission

variable (W : Nat) (hasher : ChainHasher) (log : WitnessLog) (context : EngineContext)
  (token : ProofToken)

def emitProofWitness (action : ActionKind) : WitnessLog :=
  (log.append W hasher (proofRecord action context token)).2

def emitProofRejected : WitnessLog :=
  (log.append W hasher (proofRecord .proofRejected context token)).2

def emitSignedProofWitness (action : ActionKind) (sign : WitnessRecord → Vector UInt8 8) :
    WitnessLog :=
  (log.signedAppend W hasher (proofRecord action context token) sign).2

def emitSignedProofRejected (sign : WitnessRecord → Vector UInt8 8) : WitnessLog :=
  (log.signedAppend W hasher (proofRecord .proofRejected context token) sign).2

end Emission

structure ProofEngine where
  policy : PolicyEvaluator

def ProofTier.action : ProofTier → ActionKind
  | .p1 => .proofVerifiedP1
  | .p2 => .proofVerifiedP2
  | .p3 => .proofVerifiedP3

/-- The token that the P3 entry points record. -/
def p3Token (context : EngineContext) : ProofToken := ⟨.p3, context.currentEpoch, 0⟩

namespace ProofEngine

def new : ProofEngine := ⟨.new⟩

variable (N W fuel : Nat) (hasher : ChainHasher)

def verifyAndWitness (engine : ProofEngine) (token : ProofToken) (context : EngineContext)
    (manager : CapabilityManager) (log : WitnessLog) :
    Except RvmError Unit × ProofEngine × WitnessLog :=
  match manager.verifyP1 N context.capabilityHandle context.capabilityGeneration .prove with
  | .error e => (.error (proofErrorToRvm e), engine, emitProofRejected W hasher log context token)
  | .ok () =>
    match engine.policy.evaluateAllRules context.toProofContext with
    | (.error e, policy) => (.error e, ⟨policy⟩, emitProofRejected W hasher log context token)
    | (.ok (), policy) =>
      (.ok (), ⟨policy⟩, emitProofWitness W hasher log context token token.tier.action)

/-- The caller's `chain_valid` is ignored; the rules are evaluated afresh. -/
def verifyP3 (context : EngineContext) (log : WitnessLog) (_chainValid : Bool) :
    Except RvmError Unit × WitnessLog :=
  if (PolicyEvaluator.new.evaluateAllRules context.toProofContext).1.isOk then
    (.ok (), emitProofWitness W hasher log context (p3Token context) .proofVerifiedP3)
  else (.error .proofInvalid, emitProofRejected W hasher log context (p3Token context))

/-- Walks the derivation chain of the context's handle. -/
def verifyP3WithCap (context : EngineContext) (manager : CapabilityManager) (log : WitnessLog) :
    Option (Except RvmError Unit × WitnessLog) :=
  match manager.verifyP3 N fuel context.capabilityHandle context.capabilityGeneration
      context.maxDelegationDepth with
  | none => none
  | some (.ok ()) =>
    some (.ok (), emitProofWitness W hasher log context (p3Token context) .proofVerifiedP3)
  | some (.error _) =>
    some (.error .proofInvalid, emitProofRejected W hasher log context (p3Token context))

def verifyP3Signed (context : EngineContext) (log : WitnessLog)
    (sign : WitnessRecord → Vector UInt8 8) : Except RvmError Unit × WitnessLog :=
  if (PolicyEvaluator.new.evaluateAllRules context.toProofContext).1.isOk then
    (.ok (), emitSignedProofWitness W hasher log context (p3Token context) .proofVerifiedP3 sign)
  else
    (.error .proofInvalid, emitSignedProofRejected W hasher log context (p3Token context) sign)

end ProofEngine

inductive EngineCall where
  | verifyAndWitness (token : ProofToken)
  | verifyP3 (chainValid : Bool)
  | verifyP3WithCap
  | verifyP3Signed (sign : WitnessRecord → Vector UInt8 8)

structure EngineInput where
  engine : ProofEngine
  manager : CapabilityManager
  log : WitnessLog
  context : EngineContext

namespace EngineInput

variable {N W fuel : Nat} {hasher : ChainHasher} {input : EngineInput} {call : EngineCall}
  {after : WitnessLog}

def logAfter (N W fuel : Nat) (hasher : ChainHasher) (input : EngineInput) :
    EngineCall → Option WitnessLog
  | .verifyAndWitness token =>
    some (input.engine.verifyAndWitness N W hasher token input.context input.manager input.log).2.2
  | .verifyP3 chainValid =>
    some (ProofEngine.verifyP3 W hasher input.context input.log chainValid).2
  | .verifyP3WithCap =>
    (ProofEngine.verifyP3WithCap N W fuel hasher input.context input.manager input.log).map Prod.snd
  | .verifyP3Signed sign =>
    some (ProofEngine.verifyP3Signed W hasher input.context input.log sign).2

def EmitsVerifiedP3 (before after : WitnessLog) : Prop :=
  after.written = before.written + 1 ∧
    (after.records before.writePos).actionKind = proofVerifiedP3.asU8

def ChainVerifies (N : Nat) (input : EngineInput) : Prop :=
  input.manager.ChainVerifies N input.context.capabilityHandle input.context.capabilityGeneration
    input.context.maxDelegationDepth

def Truthful (N W : Nat) (hasher : ChainHasher) (input : EngineInput) (call : EngineCall) : Prop :=
  ∀ fuel after, input.logAfter N W fuel hasher call = some after →
    EmitsVerifiedP3 input.log after → input.ChainVerifies N

/-- The checks of the entry point, none of which looks at the chain, let it
record `ProofVerifiedP3`. -/
def Unwalked (N : Nat) (input : EngineInput) : EngineCall → Prop
  | .verifyAndWitness token =>
    token.tier = .p3 ∧
      input.manager.verifyP1 N input.context.capabilityHandle input.context.capabilityGeneration
        .prove = .ok () ∧
      input.engine.policy.allRulesValid input.context.toProofContext = true
  | .verifyP3 _ => PolicyEvaluator.new.allRulesValid input.context.toProofContext = true
  | .verifyP3WithCap => False
  | .verifyP3Signed _ => PolicyEvaluator.new.allRulesValid input.context.toProofContext = true

theorem emits_append_iff (before : WitnessLog) (record : WitnessRecord) :
    EmitsVerifiedP3 before (before.append W hasher record).2 ↔
      record.actionKind = proofVerifiedP3.asU8 := by
  have written : ((before.append W hasher record).2.records before.writePos).actionKind =
      record.actionKind := by
    rw [append, store]
    dsimp only
    rw [Function.update_self, stamp]
  rw [EmitsVerifiedP3, written]
  exact and_iff_right rfl

theorem emits_signedAppend_iff (before : WitnessLog) (record : WitnessRecord)
    (sign : WitnessRecord → Vector UInt8 8) :
    EmitsVerifiedP3 before (before.signedAppend W hasher record sign).2 ↔
      record.actionKind = proofVerifiedP3.asU8 := by
  have written : ((before.signedAppend W hasher record sign).2.records before.writePos).actionKind =
      record.actionKind := by
    rw [signedAppend, store]
    dsimp only
    rw [Function.update_self, signed, stamp]
  rw [EmitsVerifiedP3, written]
  exact and_iff_right rfl

theorem rejected_ne (context : EngineContext) (token : ProofToken) :
    (proofRecord .proofRejected context token).actionKind ≠ proofVerifiedP3.asU8 := by
  change proofRejected.asU8 ≠ proofVerifiedP3.asU8
  decide

theorem tier_action_iff (tier : ProofTier) :
    tier.action.asU8 = proofVerifiedP3.asU8 ↔ tier = .p3 := by
  cases tier <;> decide

theorem evaluateAllRules_isOk (evaluator : PolicyEvaluator) (context : ProofContext) :
    (evaluator.evaluateAllRules context).1.isOk = evaluator.allRulesValid context := by
  rw [PolicyEvaluator.evaluateAllRules]
  split
  · rename_i valid
    rw [valid]
    rfl
  · rename_i invalid
    rw [Bool.not_eq_true] at invalid
    rw [invalid]
    rfl

/-- The entry points that do not walk the chain emit the record exactly on their
own checks. -/
theorem emits_iff_unwalked (returned : input.logAfter N W fuel hasher call = some after)
    (other : call ≠ .verifyP3WithCap) :
    EmitsVerifiedP3 input.log after ↔ input.Unwalked N call := by
  cases call with
  | verifyAndWitness token =>
    cases returned
    rw [Unwalked, ProofEngine.verifyAndWitness]
    cases p1 : input.manager.verifyP1 N input.context.capabilityHandle
        input.context.capabilityGeneration .prove with
    | error e =>
      refine (emits_append_iff _ _).trans (iff_of_false (rejected_ne _ _) ?_)
      rintro ⟨_, passed, _⟩
      cases passed
    | ok passed =>
      rw [PolicyEvaluator.evaluateAllRules]
      cases valid : input.engine.policy.allRulesValid input.context.toProofContext with
      | false =>
        refine (emits_append_iff _ _).trans (iff_of_false (rejected_ne _ _) ?_)
        rintro ⟨_, _, allowed⟩
        cases allowed
      | true =>
        refine (emits_append_iff _ _).trans ((tier_action_iff token.tier).trans ?_)
        exact ⟨fun isP3 => ⟨isP3, rfl, rfl⟩, And.left⟩
  | verifyP3 chainValid =>
    cases returned
    rw [Unwalked, ProofEngine.verifyP3, evaluateAllRules_isOk]
    split
    · rename_i valid
      exact (emits_append_iff _ _).trans (iff_of_true rfl valid)
    · rename_i invalid
      exact (emits_append_iff _ _).trans (iff_of_false (rejected_ne _ _) invalid)
  | verifyP3WithCap => exact absurd rfl other
  | verifyP3Signed sign =>
    cases returned
    rw [Unwalked, ProofEngine.verifyP3Signed, evaluateAllRules_isOk]
    split
    · rename_i valid
      exact (emits_signedAppend_iff _ _ _).trans (iff_of_true rfl valid)
    · rename_i invalid
      exact (emits_signedAppend_iff _ _ _).trans (iff_of_false (rejected_ne _ _) invalid)

/-- The entry point that walks the chain emits the record for intact chains
only. -/
theorem withCap_chainVerifies
    (returned : input.logAfter N W fuel hasher .verifyP3WithCap = some after)
    (emits : EmitsVerifiedP3 input.log after) : input.ChainVerifies N := by
  rw [logAfter, ProofEngine.verifyP3WithCap] at returned
  cases walked : input.manager.verifyP3 N fuel input.context.capabilityHandle
      input.context.capabilityGeneration input.context.maxDelegationDepth with
  | none => simp [walked] at returned
  | some outcome =>
    rw [walked] at returned
    cases outcome with
    | ok _ => exact CapabilityManager.verifyP3_iff.mp ⟨fuel, walked⟩
    | error e =>
      cases returned
      exact absurd ((emits_append_iff _ _).mp emits) (rejected_ne _ _)

/-- A call is truthful exactly when its own checks refuse or the chain verifies;
and the chain verifies exactly when `verify_p3` of the manager accepts it. -/
theorem truthful_iff (N W : Nat) (hasher : ChainHasher) (input : EngineInput)
    (call : EngineCall) :
    (input.Truthful N W hasher call ↔ ¬input.Unwalked N call ∨ input.ChainVerifies N) ∧
      (input.ChainVerifies N ↔ ∃ fuel, input.manager.verifyP3 N fuel input.context.capabilityHandle
        input.context.capabilityGeneration input.context.maxDelegationDepth = some (.ok ())) := by
  refine ⟨?_, CapabilityManager.verifyP3_iff.symm⟩
  by_cases walks : call = .verifyP3WithCap
  · subst walks
    exact iff_of_true (fun fuel after returned emits => withCap_chainVerifies returned emits)
      (.inl id)
  · constructor
    · intro truthful
      by_cases unwalked : input.Unwalked N call
      · obtain ⟨after, returned⟩ : ∃ after, input.logAfter N W 0 hasher call = some after := by
          cases call with
          | verifyAndWitness token => exact ⟨_, rfl⟩
          | verifyP3 chainValid => exact ⟨_, rfl⟩
          | verifyP3WithCap => exact absurd rfl walks
          | verifyP3Signed sign => exact ⟨_, rfl⟩
        exact .inr (truthful 0 after returned ((emits_iff_unwalked returned walks).mpr unwalked))
      · exact .inl unwalked
    · rintro (refused | verifies) fuel after returned emits
      · exact absurd ((emits_iff_unwalked returned walks).mp emits) refused
      · exact verifies

def untracked : CapabilityManager :=
  (CapabilityManager.new ⟨8, false, 0⟩ |>.createRootCapability 4 .region .prove 0 ⟨1⟩).2

def untrackedInput : EngineInput where
  engine := .new
  manager := untracked
  log := .new
  context := ⟨⟨⟨1⟩, 4096, 8192, 1000, 500, 8, 1⟩, 42, 0, 1, 0⟩

/-- Three of the entry points record `ProofVerifiedP3` for a capability that
`verify_p3` rejects. -/
theorem untruthful :
    ¬untrackedInput.Truthful 4 16 pairingHasher (.verifyAndWitness ⟨.p3, 0, 0⟩) ∧
      ¬untrackedInput.Truthful 4 16 pairingHasher (.verifyP3 true) ∧
      ¬untrackedInput.Truthful 4 16 pairingHasher (.verifyP3Signed fun _ => Vector.replicate 8 0) := by
  have broken : ¬untrackedInput.ChainVerifies 4 := by
    rintro ⟨_, length, _, chained⟩
    cases chained with
    | root held _ => cases held
    | derived held _ _ _ _ _ _ => cases held
  have emitted : ∀ call after, untrackedInput.logAfter 4 16 0 pairingHasher call = some after →
      call ≠ .verifyP3WithCap → untrackedInput.Unwalked 4 call →
      ¬untrackedInput.Truthful 4 16 pairingHasher call :=
    fun call after returned other unwalked truthful =>
      broken (truthful 0 after returned ((emits_iff_unwalked returned other).mpr unwalked))
  refine ⟨emitted _ _ rfl (fun same => by cases same) ⟨rfl, by decide, by decide⟩,
    emitted _ _ rfl (fun same => by cases same) (by decide : _ = true),
    emitted _ _ rfl (fun same => by cases same) (by decide : _ = true)⟩

end EngineInput

end Rvm.Proof
