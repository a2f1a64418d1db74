import Rvm.Cap.Verify

/-!
Owns the P2 rule evaluator of `rvm-proof/src/policy.rs`, a machine gated by its nonce
tracker, and the replay property of the two P2 paths. Of `ProofContext` it keeps the fields
the rules read.
-/

namespace Rvm.Proof

open Rvm.Cap NonceGated ProofVerifier

def maxLogical : Nat := 4096

structure ProofContext where
  partitionId : PartitionId
  regionBase : Nat
  regionLimit : Nat
  leaseExpiryNs : Nat
  currentTimeNs : Nat
  maxDelegationDepth : Nat
  nonce : Nat
deriving DecidableEq, Repr

inductive Rule where
  | ownershipChain | regionBounds | leaseExpiry | delegationDepth | nonceReplay | timeWindow
deriving DecidableEq, Repr

structure PolicyEvaluator extends NonceTracker where
  allowZeroNonce : Bool

namespace PolicyEvaluator

def new : PolicyEvaluator := { NonceTracker.new with allowZeroNonce := false }

def setAllowZeroNonce (evaluator : PolicyEvaluator) (allow : Bool) : PolicyEvaluator :=
  { evaluator with allowZeroNonce := allow }

def isNonceReplayed (evaluator : PolicyEvaluator) (nonce : Nat) : Bool :=
  if nonce = 0 then !evaluator.allowZeroNonce else evaluator.toNonceTracker.seen nonce

def recordNonce (evaluator : PolicyEvaluator) (nonce : Nat) : PolicyEvaluator :=
  { evaluator with toNonceTracker := evaluator.toNonceTracker.record nonce }

def evaluateRule (evaluator : PolicyEvaluator) (rule : Rule) (context : ProofContext) :
    Except RvmError Unit :=
  match rule with
  | .ownershipChain =>
    if context.partitionId.asU32 > maxLogical then .error .insufficientCapability else .ok ()
  | .regionBounds =>
    if context.regionBase < context.regionLimit then .ok () else .error .proofInvalid
  | .leaseExpiry =>
    if context.currentTimeNs ≤ context.leaseExpiryNs then .ok () else .error .deviceLeaseExpired
  | .delegationDepth =>
    if context.maxDelegationDepth ≤ 8 then .ok () else .error .delegationDepthExceeded
  | .nonceReplay =>
    if evaluator.isNonceReplayed context.nonce then .error .proofInvalid else .ok ()
  | .timeWindow =>
    if context.currentTimeNs ≤ context.leaseExpiryNs then .ok () else .error .proofBudgetExceeded

def allRulesValid (evaluator : PolicyEvaluator) (context : ProofContext) : Bool :=
  (evaluator.evaluateRule .ownershipChain context).isOk &&
  (evaluator.evaluateRule .regionBounds context).isOk &&
  (evaluator.evaluateRule .leaseExpiry context).isOk &&
  (evaluator.evaluateRule .delegationDepth context).isOk &&
  (evaluator.evaluateRule .nonceReplay context).isOk &&
  (evaluator.evaluateRule .timeWindow context).isOk

def evaluateAllRules (evaluator : PolicyEvaluator) (context : ProofContext) :
    Except RvmError Unit × PolicyEvaluator :=
  if evaluator.allRulesValid context then
    (.ok (), if context.nonce ≠ 0 then evaluator.recordNonce context.nonce else evaluator)
  else (.error .proofInvalid, evaluator)

/-- The rules that do not read the tracker. -/
def staticRules (context : ProofContext) : Bool :=
  decide (context.partitionId.asU32 ≤ maxLogical) &&
    decide (context.regionBase < context.regionLimit) &&
    decide (context.currentTimeNs ≤ context.leaseExpiryNs) &&
    decide (context.maxDelegationDepth ≤ 8)

private theorem isOk_ite {Error : Type} {condition : Prop} [Decidable condition] (error : Error) :
    (if condition then (.ok () : Except Error Unit) else .error error).isOk = decide condition := by
  split
  · next yes => simp [yes, Except.isOk, Except.toBool]
  · next no => simp [no, Except.isOk, Except.toBool]

private theorem isOk_ite_error {Error : Type} {condition : Prop} [Decidable condition]
    (error : Error) :
    (if condition then (.error error : Except Error Unit) else .ok ()).isOk =
      !decide condition := by
  split
  · next yes => simp [yes, Except.isOk, Except.toBool]
  · next no => simp [no, Except.isOk, Except.toBool]

theorem allRulesValid_eq (evaluator : PolicyEvaluator) (context : ProofContext) :
    evaluator.allRulesValid context =
      (staticRules context && !evaluator.isNonceReplayed context.nonce) := by
  have owner : (!decide (context.partitionId.asU32 > maxLogical)) =
      decide (context.partitionId.asU32 ≤ maxLogical) := by
    rw [Bool.eq_iff_iff]
    simp
  simp only [allRulesValid, evaluateRule, isOk_ite, isOk_ite_error, staticRules, owner,
    Bool.decide_eq_true]
  cases decide (context.currentTimeNs ≤ context.leaseExpiryNs) <;> simp

def callAllRules (evaluator : PolicyEvaluator) (context : ProofContext) :
    Bool × PolicyEvaluator :=
  let (result, next) := evaluateAllRules evaluator context
  (result.isOk, next)

theorem callAllRules_fst (evaluator : PolicyEvaluator) (context : ProofContext) :
    (callAllRules evaluator context).1 = evaluator.allRulesValid context := by
  cases valid : evaluator.allRulesValid context <;>
    simp [callAllRules, evaluateAllRules, valid, Except.isOk, Except.toBool]

def gated : NonceGated PolicyEvaluator ProofContext where
  step := callAllRules
  tracker := toNonceTracker
  nonce := ProofContext.nonce
  clears := staticRules
  accepts := by
    intro evaluator context nonzero
    rw [callAllRules_fst, allRulesValid_eq, isNonceReplayed, if_neg nonzero]
    simp
  refused := by
    intro evaluator context outcome
    rw [callAllRules_fst] at outcome
    simp [callAllRules, evaluateAllRules, outcome]
  zero := by
    intro evaluator context isZero
    simp only [callAllRules, evaluateAllRules, isZero]
    split <;> rfl
  recorded := by
    intro evaluator context nonzero outcome
    rw [callAllRules_fst] at outcome
    simp [callAllRules, evaluateAllRules, outcome, nonzero, recordNonce]

end PolicyEvaluator

open Foundation

/-- No accepted nonzero nonce is accepted again exactly when no accepted nonce displaced one still
above the watermark, on either path. -/
theorem nonce_refused_iff_no_live_eviction (N epoch : Nat) :
    (∀ history final,
      Run (gated N).Step (ProofVerifier.new epoch) history final →
      ((∀ first second here, history = first ++ second →
          Run (gated N).Step (ProofVerifier.new epoch) first here →
          (gated N).Refuses first here) ↔
        ∀ first label rest here, history = first ++ label :: rest →
          Run (gated N).Step (ProofVerifier.new epoch) first here →
          (gated N).Keeps here label)) ∧
    (∀ history final,
      Run PolicyEvaluator.gated.Step PolicyEvaluator.new history final →
      ((∀ first second here, history = first ++ second →
          Run PolicyEvaluator.gated.Step PolicyEvaluator.new first here →
          PolicyEvaluator.gated.Refuses first here) ↔
        ∀ first label rest here, history = first ++ label :: rest →
          Run PolicyEvaluator.gated.Step PolicyEvaluator.new first here →
          PolicyEvaluator.gated.Keeps here label)) :=
  ⟨fun _ _ run => refuses_iff_keeps rfl run,
    fun _ _ run => refuses_iff_keeps rfl run⟩

def sampleContext (nonce : Nat) : ProofContext where
  partitionId := ⟨1⟩
  regionBase := 4096
  regionLimit := 8192
  leaseExpiryNs := 1000
  currentTimeNs := 500
  maxDelegationDepth := 4
  nonce := nonce

/-- Two nonces share a hash slot: the second displaces the first above the watermark. -/
theorem nonce_refused_iff_no_live_eviction_colliding :
    ∃ final, Run PolicyEvaluator.gated.Step PolicyEvaluator.new
        [(sampleContext 1, true), (sampleContext 4097, true)] final ∧
      ¬ ∀ first label rest here,
        [(sampleContext 1, true), (sampleContext 4097, true)] = first ++ label :: rest →
          Run PolicyEvaluator.gated.Step PolicyEvaluator.new first here →
          PolicyEvaluator.gated.Keeps here label := by
  have run : Run PolicyEvaluator.gated.Step PolicyEvaluator.new
      [(sampleContext 1, true), (sampleContext 4097, true)] _ :=
    (extend .nil (sampleContext 1) (by decide)).snoc (by rfl)
  refine ⟨_, run, fun keeps => ?_⟩
  have refuses := ((nonce_refused_iff_no_live_eviction 1 0).2 _ _ run).mpr keeps _ [] _
    (List.append_nil _).symm run
  have again := refuses 1 ⟨by decide, sampleContext 1, by simp, rfl⟩ (sampleContext 1) rfl
  exact absurd again (by decide)

def sampleTable : CapabilityTable :=
  { CapabilityTable.new with
    slots := Function.update (fun _ => CapSlot.empty) 0
      ⟨⟨1, .region, .read, 0⟩, 1, ⟨1⟩, 0, u32Max, 0⟩ }

def sampleTree : DerivationTree :=
  ⟨Function.update (fun _ => DerivationNode.empty) 0 (DerivationNode.newRoot 0), 1⟩

def sampleCall (nonce : Nat) : ProofVerifier.P2Call :=
  ⟨sampleTable, sampleTree, 0, 1, ⟨1, 4096, 8192, 1000, 500, 8, nonce⟩⟩

/-- Both paths have a run that accepts the nonces `1`, `4097` and then `1` again. -/
theorem nonce_replayed_after_collision :
    (∃ final, Run (gated 64).Step (ProofVerifier.new 0)
      [(sampleCall 1, true), (sampleCall 4097, true), (sampleCall 1, true)] final) ∧
    ∃ final, Run PolicyEvaluator.gated.Step PolicyEvaluator.new
      [(sampleContext 1, true), (sampleContext 4097, true), (sampleContext 1, true)] final := by
  constructor
  · have first : Run (gated 64).Step (ProofVerifier.new 0)
        [(sampleCall 1, true)] _ := extend .nil (sampleCall 1) (by decide)
    have second : Run _ _ [(sampleCall 1, true), (sampleCall 4097, true)] _ :=
      extend first (sampleCall 4097) (by decide)
    exact ⟨_, extend second (sampleCall 1) (by decide)⟩
  · have first : Run PolicyEvaluator.gated.Step PolicyEvaluator.new
        [(sampleContext 1, true)] _ := extend .nil (sampleContext 1) (by decide)
    have second : Run _ _ [(sampleContext 1, true), (sampleContext 4097, true)] _ :=
      extend first (sampleContext 4097) (by decide)
    exact ⟨_, extend second (sampleContext 1) (by decide)⟩

end Rvm.Proof
