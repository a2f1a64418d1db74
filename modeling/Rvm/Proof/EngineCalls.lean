import Rvm.Proof.Engine

/-!
Owns single calls of `ProofEngine::verify_and_witness`: their one record, what a failing
call leaves alone, and the owner of the capability behind a success.
-/

namespace Rvm.Proof

open Foundation Rvm.Cap Rvm.Witness WitnessLog

/-- The arguments of a call besides the engine and the log. -/
structure VerifyCall where
  token : ProofToken
  context : EngineContext
  manager : CapabilityManager

namespace VerifyCall

variable (N W : Nat) (hasher : ChainHasher)

def run (call : VerifyCall) (engine : ProofEngine) (log : WitnessLog) :
    Except RvmError Unit × ProofEngine × WitnessLog :=
  engine.verifyAndWitness N W hasher call.token call.context call.manager log

def action (call : VerifyCall) : Except RvmError Unit → ActionKind
  | .ok () => call.token.tier.action
  | .error _ => .proofRejected

def record (call : VerifyCall) (outcome : Except RvmError Unit) : WitnessRecord :=
  proofRecord (call.action outcome) call.context call.token

def Shown (call : VerifyCall) : Prop :=
  call.manager.verifyP1 N call.context.capabilityHandle call.context.capabilityGeneration .prove =
    .ok ()

def Live (call : VerifyCall) (slot : CapSlot) : Prop :=
  call.manager.table.lookup N call.context.capabilityHandle call.context.capabilityGeneration =
      .ok slot ∧
    slot.token.epoch = call.manager.verifier.currentEpoch ∧ slot.token.hasRights .prove = true

variable {N W : Nat} {hasher : ChainHasher} {call : VerifyCall} {engine : ProofEngine}
  {log : WitnessLog}

theorem shown_iff : call.Shown N ↔ ∃ slot, call.Live N slot := by
  unfold Shown Live CapabilityManager.verifyP1 ProofVerifier.verifyP1
  cases call.manager.table.lookup N call.context.capabilityHandle
      call.context.capabilityGeneration with
  | error e => simp
  | ok slot =>
    by_cases current : slot.token.epoch = call.manager.verifier.currentEpoch
    · cases rights : slot.token.hasRights .prove <;> simp [current, rights]
    · simp [current]

theorem run_cases :
    (∃ e, ¬call.Shown N ∧ call.run N W hasher engine log =
      (.error e, engine, emitProofRejected W hasher log call.context call.token)) ∨
    (call.Shown N ∧ engine.policy.allRulesValid call.context.toProofContext = false ∧
      call.run N W hasher engine log =
        (.error .proofInvalid, engine, emitProofRejected W hasher log call.context call.token)) ∨
    ∃ policy, call.Shown N ∧ engine.policy.allRulesValid call.context.toProofContext = true ∧
      call.run N W hasher engine log =
        (.ok (), policy, emitProofWitness W hasher log call.context call.token
          call.token.tier.action) := by
  unfold Shown run ProofEngine.verifyAndWitness
  cases p1 : call.manager.verifyP1 N call.context.capabilityHandle
      call.context.capabilityGeneration .prove with
  | error e => exact .inl ⟨_, nofun, rfl⟩
  | ok passed =>
    rw [PolicyEvaluator.evaluateAllRules]
    cases valid : engine.policy.allRulesValid call.context.toProofContext with
    | false => exact .inr (.inl ⟨rfl, rfl, rfl⟩)
    | true => exact .inr (.inr ⟨_, rfl, rfl, rfl⟩)

theorem run_ok_iff : (call.run N W hasher engine log).1 = .ok () ↔
    call.Shown N ∧ engine.policy.allRulesValid call.context.toProofContext = true := by
  rcases @run_cases N W hasher call engine log with ⟨e, refused, ended⟩ |
    ⟨_, invalid, ended⟩ | ⟨_, shown, valid, ended⟩
  · simp [ended, refused]
  · simp [ended, invalid]
  · simp [ended, shown, valid]

theorem outcome_eq (log other : WitnessLog) :
    (call.run N W hasher engine log).1 = (call.run N W hasher engine other).1 := by
  unfold run ProofEngine.verifyAndWitness
  cases call.manager.verifyP1 N call.context.capabilityHandle
      call.context.capabilityGeneration .prove with
  | error e => rfl
  | ok passed =>
    rw [PolicyEvaluator.evaluateAllRules]
    cases engine.policy.allRulesValid call.context.toProofContext <;> rfl

theorem run_log : (call.run N W hasher engine log).2.2 =
    (log.append W hasher (call.record (call.run N W hasher engine log).1)).2 := by
  rcases @run_cases N W hasher call engine log with ⟨e, _, ended⟩ | ⟨_, _, ended⟩ | ⟨_, _, _, ended⟩
  · rw [ended]
    rfl
  · rw [ended]
    rfl
  · rw [ended]
    rfl

theorem run_failed {e : RvmError} (failed : (call.run N W hasher engine log).1 = .error e) :
    (call.run N W hasher engine log).2.1 = engine := by
  rcases @run_cases N W hasher call engine log with ⟨e, _, ended⟩ | ⟨_, _, ended⟩ | ⟨_, _, _, ended⟩
  · rw [ended]
  · rw [ended]
  · rw [ended] at failed
    cases failed

def Step (N W : Nat) (hasher : ChainHasher) (here : ProofEngine × WitnessLog)
    (label : VerifyCall × Except RvmError Unit) (next : ProofEngine × WitnessLog) : Prop :=
  label.1.run N W hasher here.1 here.2 = (label.2, next)

def entry (label : VerifyCall × Except RvmError Unit) : WitnessCall :=
  .append (label.1.record label.2)

theorem log_of_run {start final : ProofEngine × WitnessLog}
    {history : List (VerifyCall × Except RvmError Unit)}
    (ran : Run (Step N W hasher) start history final) :
    final.2 = start.2.run W hasher (history.map entry) := by
  induction ran with
  | nil => rfl
  | @snoc history label here final _ step ih =>
    have appended := @run_log N W hasher label.1 here.1 here.2
    rw [show label.1.run N W hasher here.1 here.2 = (label.2, final) from step] at appended
    rw [List.map_append, List.map_singleton, WitnessLog.run, List.foldl_append]
    rw [WitnessLog.run] at ih
    rw [← ih]
    exact appended

theorem engine_of_failing {start final : ProofEngine × WitnessLog}
    {history : List (VerifyCall × Except RvmError Unit)}
    (ran : Run (Step N W hasher) start history final)
    (failing : ∀ label ∈ history, label.2 ≠ .ok ()) : final.1 = start.1 := by
  induction ran with
  | nil => rfl
  | @snoc history label here final _ step ih =>
    rw [← ih fun other member =>
      failing other (List.mem_append_left [label] member)]
    have failed := failing label (List.mem_append_right history List.mem_cons_self)
    cases outcome : label.2 with
    | ok _ => exact absurd outcome failed
    | error e =>
      have ended : label.1.run N W hasher here.1 here.2 = (label.2, final) := step
      have kept := @run_failed N W hasher label.1 here.1 here.2 e (by rw [ended, outcome])
      rwa [ended] at kept

/-- One record for each call, and after failing calls any call ends as it would have without them.
-/
theorem witnessedOnce (N W : Nat) (hasher : ChainHasher) (engine : ProofEngine)
    (log : WitnessLog) :
    (∀ call : VerifyCall, ∃ outcome after next,
      call.run N W hasher engine log = (outcome, after, next) ∧
      next = (log.append W hasher (call.record outcome)).2 ∧
      next.written = log.written + 1 ∧
      (next.records log.writePos).actionKind = (call.action outcome).asU8 ∧
      (∀ slot, slot ≠ log.writePos → next.records slot = log.records slot) ∧
      (∀ e, outcome = .error e → after = engine)) ∧
    ∀ history final, Run (Step N W hasher) (engine, log) history final →
      final.2 = log.run W hasher (history.map entry) ∧
      ((∀ label ∈ history, label.2 ≠ .ok ()) → final.1 = engine ∧
        ∀ later : VerifyCall, (later.run N W hasher final.1 final.2).1 =
          (later.run N W hasher engine log).1) := by
  constructor
  · intro call
    have ended : call.run N W hasher engine log = ((call.run N W hasher engine log).1,
        (call.run N W hasher engine log).2.1,
        (log.append W hasher (call.record (call.run N W hasher engine log).1)).2) :=
      Prod.ext rfl (Prod.ext rfl run_log)
    refine ⟨_, _, _, ended, rfl, rfl, ?_, fun slot different => ?_,
      fun e failed => run_failed failed⟩
    · rw [append, store]
      dsimp only
      rw [Function.update_self]
      rfl
    · exact Function.update_of_ne different _ _
  · intro history final ran
    refine ⟨log_of_run ran, fun failing => ?_⟩
    have same : final.1 = engine := engine_of_failing ran failing
    refine ⟨same, fun later => ?_⟩
    rw [same]
    exact outcome_eq _ _

/-- A success, or a verified record, is for a live capability that may prove and
that the partition of the context owns. -/
def OwnerBound (N W : Nat) (hasher : ChainHasher) (call : VerifyCall) (engine : ProofEngine)
    (log : WitnessLog) : Prop :=
  let ended := call.run N W hasher engine log
  (ended.1 = .ok () ∨
      (ended.2.2.records log.writePos).actionKind = call.token.tier.action.asU8) →
    ∃ slot, call.Live N slot ∧ slot.owner = call.context.partitionId

theorem verified_iff :
    ((call.run N W hasher engine log).2.2.records log.writePos).actionKind =
        call.token.tier.action.asU8 ↔ (call.run N W hasher engine log).1 = .ok () := by
  rw [run_log, append, store]
  dsimp only
  rw [Function.update_self]
  cases outcome : (call.run N W hasher engine log).1 with
  | ok _ => exact iff_of_true rfl rfl
  | error e =>
    refine iff_of_false ?_ (by simp)
    change ActionKind.proofRejected.asU8 ≠ _
    cases call.token.tier <;> decide

/-- No check looks at the owner: a call is bound to it exactly when P1 or the rules
refuse, or the presented capability happens to be the partition's own. -/
theorem ownerBound_iff (N W : Nat) (hasher : ChainHasher) (call : VerifyCall)
    (engine : ProofEngine) (log : WitnessLog) :
    call.OwnerBound N W hasher engine log ↔
      call.manager.verifyP1 N call.context.capabilityHandle call.context.capabilityGeneration
          .prove ≠ .ok () ∨
        engine.policy.allRulesValid call.context.toProofContext = false ∨
        ∃ slot, call.manager.table.lookup N call.context.capabilityHandle
          call.context.capabilityGeneration = .ok slot ∧ slot.owner = call.context.partitionId := by
  unfold OwnerBound
  dsimp only
  rw [verified_iff, or_self, run_ok_iff, ← Bool.not_eq_true]
  constructor
  · intro bound
    by_cases shown : call.Shown N
    · by_cases valid : engine.policy.allRulesValid call.context.toProofContext = true
      · obtain ⟨slot, live, owned⟩ := bound ⟨shown, valid⟩
        exact .inr (.inr ⟨slot, live.1, owned⟩)
      · exact .inr (.inl valid)
    · exact .inl shown
  · intro condition accepted
    obtain ⟨slot, live⟩ := shown_iff.mp accepted.1
    rcases condition with refused | invalid | ⟨other, found, owned⟩
    · exact absurd accepted.1 refused
    · exact absurd accepted.2 invalid
    · obtain rfl := Except.ok.inj (live.1.symm.trans found)
      exact ⟨slot, live, owned⟩

/-- Partition `2` presents the handle of a capability of partition `1`. -/
def foreignCall : VerifyCall where
  token := ⟨.p2, 0, 0⟩
  context := ⟨⟨⟨2⟩, 4096, 8192, 1000, 500, 8, 1⟩, 42, 0, 1, 0⟩
  manager := EngineInput.untracked

/-- The foreign handle is accepted, and the record says `ProofVerifiedP2`. -/
theorem ownerBound_foreign : ¬foreignCall.OwnerBound 4 16 pairingHasher .new .new := by
  rw [OwnerBound]
  intro bound
  obtain ⟨slot, live, owned⟩ := bound (.inl (run_ok_iff.mpr ⟨rfl, by decide⟩))
  obtain rfl := Except.ok.inj (live.1.symm.trans rfl)
  exact absurd owned (by decide)

end VerifyCall

end Rvm.Proof
