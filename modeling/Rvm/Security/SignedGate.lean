import Rvm.Security.Gate

/-!
Owns the signed security gate of `rvm-security/src/gate.rs`, which also verifies the
signatures of a proof chain, against the unsigned one.
-/

namespace Rvm.Security

open Witness

structure WitnessSigner where
  sign : WitnessRecord → Vector UInt8 8
  verify : WitnessRecord → Bool

namespace P3WitnessChain

def count (chain : P3WitnessChain) : Nat := min chain.linkCount 4

/-- The minimal record that the signature of a link is verified against: the hash fields
keep the low 32 bits of the link. -/
def linkRecord (chain : P3WitnessChain) (i : Nat) : WitnessRecord :=
  { WitnessRecord.zeroed with
    prevHash := asU32 (chain.links i).1
    recordHash := asU32 (chain.links i).2
    sequence := i
    aux := chain.signatures i }

def unsigned (chain : P3WitnessChain) (i : Nat) : Bool :=
  chain.signatures i == Vector.replicate 8 0

def Linked (chain : P3WitnessChain) : Prop :=
  ∀ i, i + 1 < chain.count → (chain.links i).2 = (chain.links (i + 1)).1

def ValidlySigned (signer : WitnessSigner) (chain : P3WitnessChain) : Prop :=
  ∀ i < chain.count, chain.unsigned i = true ∨ signer.verify (chain.linkRecord i) = true

end P3WitnessChain

def verifyChainSignatures (signer : WitnessSigner) (chain : P3WitnessChain) : Bool :=
  (List.range chain.count).all fun i => chain.unsigned i || signer.verify (chain.linkRecord i)

theorem verifyP3Chain_iff {chain : P3WitnessChain} :
    verifyP3Chain chain = true ↔ 0 < chain.linkCount ∧ chain.Linked := by
  unfold verifyP3Chain P3WitnessChain.Linked P3WitnessChain.count
  by_cases empty : chain.linkCount = 0
  · simp [empty]
  · simp only [if_neg empty, List.all_eq_true, List.mem_range, beq_iff_eq, Nat.lt_sub_iff_add_lt,
      Nat.pos_of_ne_zero empty, true_and]

theorem verifyChainSignatures_iff {signer : WitnessSigner} {chain : P3WitnessChain} :
    verifyChainSignatures signer chain = true ↔ chain.ValidlySigned signer := by
  simp [verifyChainSignatures, P3WitnessChain.ValidlySigned]

def GateRequest.checkSigned (signer : WitnessSigner) (request : GateRequest) :
    Except SecurityError Nat :=
  if request.token.capType ≠ request.requiredType then .error .capabilityTypeMismatch
  else if request.token.hasRights request.requiredRights = false then .error .insufficientRights
  else if request.proofCommitment.any WitnessHash.isZero then .error .policyViolation
  else if request.requireP3 then
    if request.p3WitnessData.any fun chain =>
      verifyP3Chain chain && verifyChainSignatures signer chain then .ok 3
    else .error .derivationChainBroken
  else if request.proofCommitment.isSome then .ok 2
  else .ok 1

def signedCheckAndExecute (N : Nat) (hasher : ChainHasher) (signer : WitnessSigner)
    (log : WitnessLog) (request : GateRequest) : Except SecurityError GateResponse × WitnessLog :=
  match request.checkSigned signer with
  | .error e => (.error e, (log.signedAppend N hasher request.rejection signer.sign).2)
  | .ok proofTier =>
    let appended := log.signedAppend N hasher (request.allowed proofTier) signer.sign
    (.ok ⟨appended.1, proofTier⟩, appended.2)

def verdict (response : Except SecurityError GateResponse) : Except SecurityError Nat :=
  response.map GateResponse.proofTier

def GateRequest.recordedAction (request : GateRequest) : Except SecurityError Nat → ActionKind
  | .error _ => .proofRejected
  | .ok _ => request.action

def RecordsOne (N : Nat) (hasher : ChainHasher) (before after : WitnessLog)
    (action : ActionKind) : Prop :=
  ∃ record, record.actionKind = action.asU8 ∧ record.sequence = before.sequence ∧
    after = before.store N hasher record

variable {N : Nat} {hasher : ChainHasher} {signer : WitnessSigner} {log : WitnessLog}
  {request : GateRequest}

@[simp]
theorem verdict_checkAndExecute :
    verdict (checkAndExecute N hasher log request).1 = request.check := by
  unfold checkAndExecute
  cases request.check <;> rfl

@[simp]
theorem verdict_signedCheckAndExecute :
    verdict (signedCheckAndExecute N hasher signer log request).1 = request.checkSigned signer := by
  unfold signedCheckAndExecute
  cases request.checkSigned signer <;> rfl

theorem checkAndExecute_records :
    RecordsOne N hasher log (checkAndExecute N hasher log request).2
      (request.recordedAction request.check) := by
  unfold checkAndExecute
  cases request.check with
  | error e => exact ⟨log.stamp hasher request.rejection, rfl, rfl, rfl⟩
  | ok proofTier => exact ⟨log.stamp hasher (request.allowed proofTier), rfl, rfl, rfl⟩

theorem signedCheckAndExecute_records :
    RecordsOne N hasher log (signedCheckAndExecute N hasher signer log request).2
      (request.recordedAction (request.checkSigned signer)) := by
  unfold signedCheckAndExecute
  cases request.checkSigned signer with
  | error e => exact ⟨log.signed hasher request.rejection signer.sign, rfl, rfl, rfl⟩
  | ok proofTier =>
    exact ⟨log.signed hasher (request.allowed proofTier) signer.sign, rfl, rfl, rfl⟩

/-- The stages that both gates go through, with the check of the proof chain left open. -/
def GateRequest.checkWith (chainOk : P3WitnessChain → Bool) (request : GateRequest) :
    Except SecurityError Nat :=
  if request.token.capType ≠ request.requiredType then .error .capabilityTypeMismatch
  else if request.token.hasRights request.requiredRights = false then .error .insufficientRights
  else if request.proofCommitment.any WitnessHash.isZero then .error .policyViolation
  else if request.requireP3 then
    if request.p3WitnessData.any chainOk then .ok 3 else .error .derivationChainBroken
  else if request.proofCommitment.isSome then .ok 2
  else .ok 1

theorem check_eq_checkWith : request.check = request.checkWith verifyP3Chain := rfl

theorem checkSigned_eq_checkWith : request.checkSigned signer = request.checkWith fun chain =>
    verifyP3Chain chain && verifyChainSignatures signer chain := rfl

theorem checkWith_congr {chainOk other : P3WitnessChain → Bool}
    (same : ∀ chain, request.p3WitnessData = some chain → chainOk chain = other chain) :
    request.checkWith chainOk = request.checkWith other := by
  unfold GateRequest.checkWith
  cases chained : request.p3WitnessData with
  | none => rfl
  | some chain => simp only [Option.any_some, same chain chained]

theorem chain_of_checkWith {chainOk : P3WitnessChain → Bool} {proofTier : Nat}
    (required : request.requireP3 = true)
    (allowed : request.checkWith chainOk = .ok proofTier) :
    ∃ chain, request.p3WitnessData = some chain ∧ chainOk chain = true := by
  unfold GateRequest.checkWith at allowed
  rw [if_pos required] at allowed
  cases chained : request.p3WitnessData with
  | none => simp [chained, ite_eq_iff] at allowed
  | some chain =>
    cases checked : chainOk chain with
    | true => exact ⟨chain, rfl, checked⟩
    | false => simp [chained, checked, ite_eq_iff] at allowed

/-- On chains whose links are unsigned or validly signed the gates decide alike; each gate records
its decision and allows only chains checked link by link. -/
theorem gates_agree (N : Nat) (hasher : ChainHasher) (signer : WitnessSigner)
    (request : GateRequest) (left right : WitnessLog) :
    ((∀ chain, request.p3WitnessData = some chain → chain.ValidlySigned signer) →
      verdict (checkAndExecute N hasher left request).1 =
        verdict (signedCheckAndExecute N hasher signer right request).1) ∧
    RecordsOne N hasher left (checkAndExecute N hasher left request).2
      (request.recordedAction (verdict (checkAndExecute N hasher left request).1)) ∧
    RecordsOne N hasher right (signedCheckAndExecute N hasher signer right request).2
      (request.recordedAction
        (verdict (signedCheckAndExecute N hasher signer right request).1)) ∧
    (request.requireP3 = true → ∀ proofTier,
      (verdict (checkAndExecute N hasher left request).1 = .ok proofTier →
        ∃ chain, request.p3WitnessData = some chain ∧ 0 < chain.linkCount ∧ chain.Linked) ∧
      (verdict (signedCheckAndExecute N hasher signer right request).1 = .ok proofTier →
        ∃ chain, request.p3WitnessData = some chain ∧ 0 < chain.linkCount ∧ chain.Linked ∧
          chain.ValidlySigned signer)) := by
  simp only [verdict_checkAndExecute, verdict_signedCheckAndExecute]
  refine ⟨fun validly => ?_, checkAndExecute_records, signedCheckAndExecute_records,
    fun required proofTier => ⟨fun allowed => ?_, fun allowed => ?_⟩⟩
  · rw [check_eq_checkWith, checkSigned_eq_checkWith]
    apply checkWith_congr
    intro chain chained
    rw [verifyChainSignatures_iff.mpr (validly chain chained), Bool.and_true]
  · obtain ⟨chain, chained, checked⟩ := chain_of_checkWith required allowed
    exact ⟨chain, chained, verifyP3Chain_iff.mp checked⟩
  · obtain ⟨chain, chained, checked⟩ := chain_of_checkWith required allowed
    obtain ⟨linked, signatures⟩ := (Bool.and_eq_true _ _).mp checked
    obtain ⟨nonempty, linked⟩ := verifyP3Chain_iff.mp linked
    exact ⟨chain, chained, nonempty, linked, verifyChainSignatures_iff.mp signatures⟩

def sampleSigner : WitnessSigner where
  sign record := littleEndian (record.recordHash + 1)
  verify record := record.aux == littleEndian (record.recordHash + 1)

/-- Two links, of which the second one is signed. -/
def sampleChain : P3WitnessChain where
  links i := (100 * i, 100 * (i + 1))
  signatures i := if i = 1 then littleEndian 201 else Vector.replicate 8 0
  linkCount := 2

def sampleRequest : GateRequest where
  token := ⟨1, .partition, ⟨3⟩, 1⟩
  requiredType := .partition
  requiredRights := ⟨1⟩
  proofCommitment := none
  requireP3 := true
  p3WitnessData := some sampleChain
  action := .partitionCreate
  targetObjectId := 42
  timestampNs := 7

theorem gates_agree_sample :
    verdict (checkAndExecute 4 ⟨Nat.add, foldU64ToU32⟩ .new sampleRequest).1 =
        verdict (signedCheckAndExecute 4 ⟨Nat.add, foldU64ToU32⟩ sampleSigner .new
          sampleRequest).1 ∧
      sampleRequest.check = .ok 3 := by
  have validly : ∀ chain, sampleRequest.p3WitnessData = some chain →
      chain.ValidlySigned sampleSigner := by
    intro chain chained
    obtain rfl := Option.some.inj chained
    exact verifyChainSignatures_iff.mp (by decide)
  exact ⟨(gates_agree 4 ⟨Nat.add, foldU64ToU32⟩ sampleSigner sampleRequest .new .new).1 validly,
    rfl⟩

end Rvm.Security
