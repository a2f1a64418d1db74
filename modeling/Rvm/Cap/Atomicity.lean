import Rvm.Cap.Issue
import Rvm.Cap.Revocation
import Rvm.Cap.SiblingWalks

/-!
Owns that calls of the capability manager are atomic: one that fails takes at most an
identifier. It holds while every insertion takes an unlisted slot; a manager without
tracking refuses every revocation.
-/

namespace Rvm.Cap

open Foundation DerivationTree

namespace CapabilityManager

variable {N : Nat} {manager before after : CapabilityManager} {forest : Handle → Option Handle}
  {lists : Nat → List Nat}

structure FailsCleanly (N : Nat) (manager : CapabilityManager) : Prop where
  unchanged : ∀ call e next, Step N manager (call, .error e) next →
    next = { manager with nextId := next.nextId } ∧ manager.nextId ≤ next.nextId
  revokes : ∀ index generation, manager.table.Live N index generation →
    ∃ count next, Step N manager (.revoke index generation, .ok (.revoked count)) next

/-- A grant that fails leaves no trace where linking cannot fail. -/
theorem grant_untouched {sourceIndex sourceGeneration : Nat} {requestedRights : CapRights}
    {badge : Nat} {target : PartitionId} {callerId : Option PartitionId} {e : CapError}
    (links : before.config.trackDerivation = true → ∃ forest lists, Forested N before forest lists)
    (called : before.grantWithCaller N sourceIndex sourceGeneration requestedRights badge target
      callerId = (.error e, after)) : Untouched before after := by
  rcases grantWithCaller_cases called with
    ⟨_, _, untouched⟩ | ⟨_, _, _, _, _, _, cleared, inserted, _, _, linking⟩
  · exact untouched
  · rcases linking with ⟨_, _, tracked, failed, _⟩ | ⟨succeeded, _⟩
    · obtain ⟨forest, lists, forested⟩ := links tracked
      exact absurd failed (forested.addChild_ne_error (grantCleared_spec cleared).1 inserted)
    · cases succeeded

theorem failed_untouched {call : Call} {e : CapError} (inv : before.table.Inv N)
    (links : before.config.trackDerivation = true → ∃ forest lists, Forested N before forest lists)
    (step : Step N before (call, .error e) after) : Untouched before after := by
  have answers := step.answers
  generalize outcomeEq : Except.error e = outcome at answers
  cases answers with
  | createRoot called =>
    rcases createRootCapability_cases inv called with ⟨_, _, untouched⟩ | ⟨_, rfl, _⟩
    · exact untouched
    · cases outcomeEq
  | @grant _ _ _ _ _ _ _ result _ _ called =>
    cases result with
    | error => exact grant_untouched links called
    | ok => cases outcomeEq
  | incrementEpoch => cases outcomeEq
  | revoke called =>
    rcases revoke_cases called with ⟨_, _, untouched⟩ | ⟨_, _, _, rfl, _⟩
    · exact untouched
    · cases outcomeEq

theorem failsCleanly_tracked {config : CapManagerConfig} {history : List (Call × Outcome)}
    (tracked : config.trackDerivation = true)
    (run : Run (Guarded (Step N) (TakesUnlisted N)) (.new config) history manager) :
    FailsCleanly N manager := by
  obtain ⟨lists, forested⟩ := forested_run tracked run
  constructor
  · intro call e next step
    have untouched := failed_untouched forested.table (fun _ => ⟨_, lists, forested⟩) step
    exact ⟨untouched.eq, untouched.nextId⟩
  · intro index generation live
    obtain ⟨count, next, returned⟩ := forested.revoke_returns live
    exact ⟨count, next, 2 * N + 2, Option.map_eq_some_iff.mpr ⟨_, returned, rfl⟩⟩

/-- Without tracking no node is ever valid, so a revocation succeeds on no handle. -/
theorem failsCleanly_untracked {config : CapManagerConfig} {history : List (Call × Outcome)}
    (untracked : config.trackDerivation = false)
    (run : Run (Step N) (.new config) history manager) :
    FailsCleanly N manager ↔ ∀ index generation, ¬ manager.table.Live N index generation := by
  have reached : manager.table.Inv N ∧ Unlinked manager ∧ manager.config = config := by
    induction run with
    | nil => exact ⟨CapabilityTable.new_inv N, fun _ _ => rfl, rfl⟩
    | snoc _ step ih =>
      obtain ⟨inv, unlinked, same⟩ := ih
      have frame := step_frame inv step
      exact ⟨frame.1, unlinked.step inv step, frame.2.2.2.trans same⟩
  obtain ⟨inv, unlinked, same⟩ := reached
  have here : manager.config.trackDerivation = false := same ▸ untracked
  constructor
  · intro clean index generation live
    obtain ⟨count, next, fuel, returned⟩ := clean.revokes index generation live
    obtain ⟨⟨result, after⟩, called, same⟩ := Option.map_eq_some_iff.mp returned
    obtain ⟨⟨e, rfl⟩, _⟩ := unlinked.revoke_quiet here called
    cases same
  · intro dead
    constructor
    · intro call e next step
      have links : manager.config.trackDerivation = true →
          ∃ forest lists, Forested N manager forest lists := by
        rw [here]
        exact nofun
      have untouched := failed_untouched inv links step
      exact ⟨untouched.eq, untouched.nextId⟩
    · exact fun index generation live => absurd live (dead index generation)

/-- Calls are atomic and live capabilities can be revoked while insertions take unlisted slots;
without tracking, where no capability is live. -/
theorem failsCleanly (N : Nat) (config : CapManagerConfig) (history : List (Call × Outcome))
    (manager : CapabilityManager) :
    (config.trackDerivation = true →
      Run (Guarded (Step N) (TakesUnlisted N)) (.new config) history manager →
      FailsCleanly N manager) ∧
    (config.trackDerivation = false → Run (Step N) (.new config) history manager →
      (FailsCleanly N manager ↔
        ∀ index generation, ¬ manager.table.Live N index generation)) :=
  ⟨failsCleanly_tracked, failsCleanly_untracked⟩

theorem failsCleanly_sampleChain :
    (∃ manager, Run (Guarded (Step 2) (TakesUnlisted 2)) (.new .new) sampleChain manager ∧
      FailsCleanly 2 manager) ∧
    FailsCleanly 2 (.new ⟨8, false, 0⟩) := by
  obtain ⟨manager, granted, _⟩ := sampleChain_run
  have empty : ∀ index generation,
      ¬ (CapabilityManager.new ⟨8, false, 0⟩).table.Live 2 index generation := by
    rintro index generation ⟨_, nonzero, same⟩
    exact nonzero same.symm
  exact ⟨⟨manager, granted, (failsCleanly 2 .new sampleChain manager).1 rfl granted⟩,
    ((failsCleanly 2 ⟨8, false, 0⟩ [] _).2 rfl .nil).mpr empty⟩

/-- Without tracking the only capability cannot be revoked; with it, revoking the source that
was granted one slot twice does not return. -/
theorem failsCleanly_fails :
    (∃ manager, Run (Step 2) (.new ⟨8, false, 0⟩)
      [(.createRootCapability .region .read 0 ⟨1⟩, .ok (.handle 0 1))] manager ∧
      ¬ FailsCleanly 2 manager) ∧
    ∃ manager, Run (Step 2) (.new .new) grantTwice manager ∧ ¬ FailsCleanly 2 manager := by
  constructor
  · have created : Run (Step 2) (.new ⟨8, false, 0⟩)
        [(.createRootCapability .region .read 0 ⟨1⟩, .ok (.handle 0 1))] _ := Run.single ⟨0, rfl⟩
    refine ⟨_, created, fun clean => ?_⟩
    exact (failsCleanly_untracked rfl created).mp clean 0 1 ⟨by decide, by decide, rfl⟩
  · have created : Run (Step 2) (.new .new) (grantTwice.take 1) _ := Run.single ⟨0, rfl⟩
    have granted : Run (Step 2) (.new .new) (grantTwice.take 2) _ := created.snoc ⟨0, rfl⟩
    have revoked : Run (Step 2) (.new .new) (grantTwice.take 3) _ := granted.snoc ⟨9, rfl⟩
    have again : Run (Step 2) (.new .new) grantTwice _ := revoked.snoc ⟨0, rfl⟩
    refine ⟨_, again, fun clean => ?_⟩
    obtain ⟨count, next, fuel, returned⟩ := clean.revokes 0 1 ⟨by decide, by decide, rfl⟩
    cases ((stuck rfl rfl (by decide) rfl).2.2 fuel).symm.trans returned

end CapabilityManager

end Rvm.Cap
