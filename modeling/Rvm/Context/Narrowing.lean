import Rvm.Context.Lineage

/-!
Owns the authority's guarantees over runs of administrative calls, and what a revocation
ends.
-/

namespace Rvm.Context

open Cap CapabilityManager Foundation Foundation.Call Witness CapManagerConfig

namespace ContextAuthority

variable {N G : Nat} {sha256 : List UInt8 → Octets 32} {config : CapManagerConfig}
  {earlier : List (Cap.Call × Outcome)} {manager : CapabilityManager}
  {here next final : ContextAuthority} {before after : List AuthorityEvent}
  {handle other : CapabilityHandle} {count : Nat}

def Permitted (scope : ContextScope) (rights : CapRights) (target : RuvUri)
    (operation : ContextOperation) : Prop :=
  scope.allows target operation = true ∧ rights.contains operation.requiredRights = true

variable {operation : ContextOperation}

theorem tracked_of_revoked (consistent : Consistent N here.manager)
    {fuel : Nat} (called : here.manager.revoke N fuel handle.index handle.generation =
      some (.ok count, next.manager)) : here.manager.config.trackDerivation = true := by
  cases tracking : here.manager.config.trackDerivation with
  | true => rfl
  | false =>
    obtain ⟨_, impossible⟩ := (consistent.unlinked.revoke_quiet tracking called).1
    cases impossible

section Revoked

variable (capacity : N ≤ u32Max) (bounded : config.initialEpoch < 4294967296)
  (made : Run (Guarded (CapabilityManager.Step N) (TakesUnlisted N)) (.new config) earlier manager)
  (run : Run (Tidy N G sha256) (.new manager) before here)
  (step : Step N G sha256 here ⟨.revoke handle, .ok (.revoked count)⟩ next)

include capacity bounded made run step

theorem revocation_forested :
    Consistent N here.manager ∧
      here.manager.config.trackDerivation = true ∧
      next.grants = here.grants.retainLive N next.manager ∧
      ∃ fuel lists, Forested N here.manager (lineage earlier before) lists ∧
        here.manager.revoke N fuel handle.index handle.generation =
          some (.ok count, next.manager) := by
  obtain ⟨consistent, same⟩ :=
    consistent_run bounded (made.mono fun _ _ _ => And.left)
  have reached := governed_run capacity (governed_new consistent) (run.mono fun _ _ _ => And.left)
  have effect := step_effect capacity reached.consistent step
  cases effect with
  | revoked called grants =>
    have tracked := tracked_of_revoked reached.consistent called
    have configured := congrArg trackDerivation (reached.config.trans same)
    obtain ⟨_, lists, forested⟩ :=
      forested_lineage capacity bounded (configured.symm.trans tracked) made run
    exact ⟨reached.consistent, tracked, grants, _, lists, forested, called⟩

theorem revoked_refused (rest : Run (Step N G sha256) next after final)
    (below : other = handle ∨ Descends (lineage earlier before) (pairOf other) (pairOf handle))
    (kept : ∀ event ∈ after, ¬ event.Returns other) {witness : WitnessParameters}
    {actor : PartitionId} {timestampNs : Nat} {request : ContextRequest} {log : WitnessLog}
    (presented : request.capability = other) :
    (authorize witness N final actor timestampNs request operation).Ensures log
      (fun _ _ => False) fun _ _ => True := by
  obtain ⟨consistent, tracked, _, _, _, forested, called⟩ :=
    revocation_forested capacity bounded made run step
  have effect := step_effect capacity consistent step
  obtain ⟨onward, config, _⟩ := effect.manager consistent
  have tracking := (congrArg trackDerivation config).trans tracked
  apply authorize_refused
  intro slot resolves
  rw [presented] at resolves
  have survived := resolves_since onward tracking (effect_run capacity onward rest) kept resolves
  exact revoked_dead forested called below survived

theorem revoked_unrelated (different : other ≠ handle)
    (apart : ¬ Descends (lineage earlier before) (pairOf other) (pairOf handle))
    {witness : WitnessParameters} {actor : PartitionId} {timestampNs : Nat}
    {request : ContextRequest} (presented : request.capability = other) :
    authorize witness N next actor timestampNs request operation =
      authorize witness N here actor timestampNs request operation := by
  obtain ⟨_, _, grants, _, _, forested, called⟩ :=
    revocation_forested capacity bounded made run step
  have unchanged : ∀ slot, next.Resolves N other slot ↔ here.Resolves N other slot :=
    fun _ => revoked_others forested called different apart
  rw [← presented] at unchanged
  apply authorize_congr (ruled_revoke called).verifier unchanged
  intro slot resolves
  rw [grants, ContextGrantTable.get_retainLive, if_pos]
  exact ContextGrantTable.isLive_iff.mpr ⟨_, _, slot, (unchanged slot).mpr resolves, rfl⟩

end Revoked

theorem refused_unchanged (capacity : N ≤ u32Max)
    (consistent : Consistent N here.manager) {call : AuthorityCall}
    {reason : ContextError} (step : Step N G sha256 here ⟨call, .error reason⟩ next) :
    next.grants = here.grants ∧
      (here.manager.config.trackDerivation = true ∨ call.managerCall sha256 = none →
        SameLive N here.manager next.manager) := by
  have effect := step_effect capacity consistent step
  cases effect with
  | refused same grants => exact ⟨grants, fun _ => same⟩
  | leaked untracked _ grants issue =>
    refine ⟨grants, fun either => ?_⟩
    rcases either with tracked | none
    · rw [untracked] at tracked
      cases tracked
    · exact absurd none issue

/-- A delegated capability is within its ancestors, a token is bound to one scope in an epoch
cycle, and refused calls change nothing. -/
theorem delegationNarrows (N G : Nat) (sha256 : List UInt8 → Octets 32) (capacity : N ≤ u32Max)
    (config : CapManagerConfig) (bounded : config.initialEpoch < 4294967296)
    (earlier : List (Cap.Call × Outcome)) (manager : CapabilityManager)
    (made : Run (CapabilityManager.Step N) (.new config) earlier manager) :
    (∀ before here event next after final source handle slot grant,
      Run (Step N G sha256) (.new manager) before here → Step N G sha256 here event next →
      Delegates event source handle → Run (Step N G sha256) next after final →
      rotations (before ++ event :: after) < 4294967296 →
      (∀ event ∈ after, ¬ event.Returns handle) → final.Resolves N handle slot →
      final.grants.get slot.token.id = some grant →
      ∃ parent parentGrant, here.Resolves N source parent ∧
        here.grants.get parent.token.id = some parentGrant ∧
        parentGrant.scope.containsScope grant.scope = true ∧
        parent.token.rights.contains slot.token.rights = true) ∧
    (∀ history final handle ancestor scope slot grant,
      AncestorOf N G sha256 (.new manager) history final handle ancestor scope →
      rotations history < 4294967296 → final.Resolves N handle slot →
      final.grants.get slot.token.id = some grant →
      ∀ target operation, Permitted grant.scope slot.token.rights target operation →
        Permitted scope ancestor.token.rights target operation) ∧
    (∀ before here after final id first second,
      Run (Step N G sha256) (.new manager) before here → Run (Step N G sha256) here after final →
      rotations (before ++ after) < 4294967296 → here.grants.get id = some first →
      final.grants.get id = some second → second.scope = first.scope) ∧
    (∀ history here call reason next,
      Run (Step N G sha256) (.new manager) history here →
      Step N G sha256 here ⟨call, .error reason⟩ next →
      next.grants = here.grants ∧
        (config.trackDerivation = true ∨ call.managerCall sha256 = none →
          CapabilityManager.SameLive N here.manager next.manager)) ∧
    ∀ before here handle count next,
      Run (Guarded (CapabilityManager.Step N) (CapabilityManager.TakesUnlisted N)) (.new config)
        earlier manager →
      Run (Tidy N G sha256) (.new manager) before here →
      Step N G sha256 here ⟨.revoke handle, .ok (.revoked count)⟩ next →
      ∀ witness : WitnessParameters, ∀ actor timestampNs request operation,
        (request.capability = handle ∨
            Descends (lineage earlier before) (pairOf request.capability) (pairOf handle) →
          ∀ after final log, Run (Step N G sha256) next after final →
            (∀ event ∈ after, ¬ event.Returns request.capability) →
            (authorize witness N final actor timestampNs request operation).Ensures log
              (fun _ _ => False) fun _ _ => True) ∧
        (request.capability ≠ handle →
          ¬ Descends (lineage earlier before) (pairOf request.capability) (pairOf handle) →
          authorize witness N next actor timestampNs request operation =
            authorize witness N here actor timestampNs request operation) := by
  obtain ⟨consistent, same⟩ := consistent_run bounded made
  have governed := governed_new consistent
  have reached := fun {history here} (run : Run (Step N G sha256) (.new manager) history here) =>
    governed_run capacity governed run
  simp only [Nat.zero_add] at reached
  refine ⟨?_, ?_, ?_, ?_, ?_⟩
  · intro before here event next after final source handle slot grant run step delegates rest cycle
      kept resolves held
    rw [rotations_append] at cycle
    exact delegation_narrows capacity (reached run) step delegates rest cycle kept resolves held
  · intro history final handle ancestor scope slot grant ancestry cycle resolves held target
      operation permitted
    obtain ⟨contains, attenuates⟩ := ancestry.narrows capacity governed cycle resolves held
    exact ⟨ContextScope.allows_of_containsScope contains permitted.1,
      CapRights.contains_trans attenuates permitted.2⟩
  · intro before here after final id first second run rest cycle held heldLater
    rw [rotations_append] at cycle
    exact bound_once capacity (reached run) rest cycle held heldLater
  · intro history here call reason next run step
    obtain ⟨grants, live⟩ := refused_unchanged capacity (reached run).consistent step
    have configured := congrArg trackDerivation ((reached run).config.trans same)
    refine ⟨grants, fun either => live (either.imp_left fun tracked => ?_)⟩
    exact configured.trans tracked
  · intro before here handle count next guarded run step witness actor timestampNs request operation
    constructor
    · intro below after final log rest kept
      exact revoked_refused capacity bounded guarded run step rest below kept rfl
    · intro different apart
      exact revoked_unrelated capacity bounded guarded run step different apart rfl

def sampleDigest (_ : List UInt8) : Octets 32 := .zero 32

def sampleScope : ContextScope :=
  ⟨sampleHost, sampleTenant, sampleSubject, .memory, [], .all⟩

def sampleInner : ContextScope := { sampleScope with pathPrefix := [sampleSegment] }

def sampleRoot : AuthorityEvent :=
  ⟨.issueRoot sampleScope (.union .read .grant) ⟨1⟩ ⟨0⟩, .ok (.handle ⟨0, 1⟩)⟩

def sampleChild : AuthorityEvent :=
  ⟨.delegate ⟨0, 1⟩ sampleInner .read ⟨2⟩ ⟨1⟩, .ok (.handle ⟨1, 1⟩)⟩

def sampleDelegation : List AuthorityEvent := [sampleRoot, sampleChild]

theorem sampleDelegation_run :
    ∃ here next, Run (Tidy 2 2 sampleDigest) (.new (.new .new)) sampleDelegation here ∧
      Step 2 2 sampleDigest here ⟨.revoke ⟨0, 1⟩, .ok (.revoked 2)⟩ next := by
  have rootTidy : ∀ middle, Step 2 2 sampleDigest (.new (.new .new)) sampleRoot middle →
      Tidy 2 2 sampleDigest (.new (.new .new)) sampleRoot middle := by
    intro middle step
    refine ⟨step, .inr ?_⟩
    intro issue outcome known slot taken
    cases known
    cases (show some 0 = some slot from taken)
    refine ⟨by decide, fun parent member => ?_⟩
    cases (DerivationTree.mem_arena.mp member).2
  have childTidy : ∀ middle, Step 2 2 sampleDigest (.new (.new .new)) sampleRoot middle →
      ∀ final, Step 2 2 sampleDigest middle sampleChild final →
      Tidy 2 2 sampleDigest middle sampleChild final := by
    rintro middle ⟨fuel, returned⟩ final step
    refine ⟨step, .inr ?_⟩
    intro issue outcome known slot taken
    cases known
    cases returned
    cases (show some 1 = some slot from taken)
    refine ⟨by decide, fun parent member isListed => ?_⟩
    obtain ⟨below, valid⟩ := DerivationTree.mem_arena.mp member
    interval_cases parent
    · rcases Relation.ReflTransGen.cases_head isListed with same | ⟨_, ⟨_, notNull, _⟩, _⟩
      · cases same
      · exact notNull rfl
    · cases valid
  have delegated : Run (Tidy 2 2 sampleDigest) (.new (.new .new)) sampleDelegation _ :=
    .cons (rootTidy _ ⟨0, rfl⟩) <| .single (childTidy _ ⟨0, rfl⟩ _ ⟨0, rfl⟩)
  exact ⟨_, _, delegated, ⟨9, rfl⟩⟩

/-- After the root is revoked the delegated capability is refused. -/
theorem delegationNarrows_sampleDelegation :
    ∃ here next, Run (Tidy 2 2 sampleDigest) (.new (.new .new)) sampleDelegation here ∧
      Step 2 2 sampleDigest here ⟨.revoke ⟨0, 1⟩, .ok (.revoked 2)⟩ next ∧
      ∀ (witness : WitnessParameters) actor timestampNs (request : ContextRequest) operation log,
        request.capability = ⟨1, 1⟩ →
        (authorize witness 2 next actor timestampNs request operation).Ensures log
          (fun _ _ => False) fun _ _ => True := by
  obtain ⟨here, next, run, step⟩ := sampleDelegation_run
  refine ⟨here, next, run, step, ?_⟩
  intro witness actor timestampNs request operation log presented
  obtain ⟨_, _, _, _, revoked⟩ :=
    delegationNarrows 2 2 sampleDigest (by decide) .new (by decide) [] (.new .new) .nil
  have delegated : Descends (lineage [] sampleDelegation) (pairOf ⟨1, 1⟩) (pairOf ⟨0, 1⟩) :=
    .single (by decide)
  apply (revoked sampleDelegation here ⟨0, 1⟩ 2 next .nil run step witness actor timestampNs request
    operation).1 _ [] next log .nil (by simp)
  rw [presented]
  exact .inr delegated

theorem run_incrementEpoch (here : ContextAuthority) (turns : Nat) :
    Run (Step N G sha256) here (List.replicate turns ⟨.incrementEpoch, .ok .done⟩)
      (incrementEpoch^[turns] here) := by
  induction turns with
  | zero => exact .nil
  | succ turns ih =>
    rw [List.replicate_succ', Function.iterate_succ_apply']
    exact ih.snoc ⟨0, rfl⟩

theorem incrementEpoch_iterate (here : ContextAuthority) (turns : Nat) :
    incrementEpoch^[turns + 1] here =
      ⟨{ here.manager with
          epoch := (here.manager.epoch + (turns + 1)) % 4294967296
          verifier := here.manager.verifier.setEpoch
            ((here.manager.epoch + (turns + 1)) % 4294967296) }, ⟨[]⟩⟩ := by
  induction turns with
  | zero => rfl
  | succ turns ih =>
    rw [Function.iterate_succ_apply', ih, incrementEpoch, CapabilityManager.incrementEpoch]
    simp only [Nat.mod_add_mod, Nat.add_assoc]
    rfl

theorem rebound_after_wrap :
    ∃ here after final first second,
      Run (Step 2 2 sampleDigest) (.new (.new .new)) (sampleDelegation.take 1) here ∧
      Run (Step 2 2 sampleDigest) here after final ∧ here.grants.get 1 = some first ∧
      final.grants.get 1 = some second ∧ second.scope ≠ first.scope := by
  have rebinds : ∀ here, Step 2 2 sampleDigest (.new (.new .new)) sampleRoot here →
      here.grants.get 1 = some ⟨1, sampleScope⟩ ∧
      ∃ final, Step 2 2 sampleDigest (incrementEpoch^[4294967296] here)
          ⟨.bindExisting ⟨0, 1⟩ sampleInner, .ok .done⟩ final ∧
        final.grants.get 1 = some ⟨1, sampleInner⟩ := by
    rintro here ⟨_, returned⟩
    cases returned
    rw [incrementEpoch_iterate _ 4294967295]
    exact ⟨rfl, _, ⟨0, rfl⟩, rfl⟩
  have step : Step 2 2 sampleDigest (.new (.new .new)) sampleRoot _ := ⟨0, rfl⟩
  obtain ⟨held, final, rebound, heldLater⟩ := rebinds _ step
  exact ⟨_, _, final, _, _, .single step, (run_incrementEpoch _ 4294967296).snoc rebound, held,
    heldLater, by decide⟩

/-- A slot still listed as a revoked child is reused for a root of its own. -/
def sampleReissue : List AuthorityEvent :=
  sampleDelegation ++
    [⟨.revoke ⟨1, 1⟩, .ok (.revoked 1)⟩,
      ⟨.issueRoot sampleInner .read ⟨3⟩ ⟨0⟩, .ok (.handle ⟨1, 2⟩)⟩]

/-- Revoking the old parent then takes the unrelated root down with it. -/
theorem unrelated_revoked_after_reuse :
    ∃ here next slot, Run (Step 2 2 sampleDigest) (.new (.new .new)) sampleReissue here ∧
      Step 2 2 sampleDigest here ⟨.revoke ⟨0, 1⟩, .ok (.revoked 2)⟩ next ∧
      ¬ Descends (lineage [] sampleReissue) (1, 2) (0, 1) ∧
      here.Resolves 2 ⟨1, 2⟩ slot ∧ ¬ next.Resolves 2 ⟨1, 2⟩ slot := by
  have revoked : Run (Step 2 2 sampleDigest) (.new (.new .new)) (sampleReissue.take 3) _ :=
    .cons ⟨0, rfl⟩ <| .cons ⟨0, rfl⟩ <| .single ⟨9, rfl⟩
  have reissued : Run (Step 2 2 sampleDigest) (.new (.new .new)) sampleReissue _ :=
    revoked.snoc ⟨0, rfl⟩
  refine ⟨_, _, _, reissued, ⟨9, rfl⟩, ?_, rfl, fun resolves => nomatch resolves⟩
  intro descends
  obtain ⟨parent, edge, -⟩ := Relation.TransGen.head'_iff.mp descends
  have noParent : lineage [] sampleReissue (1, 2) = none := by decide
  rw [noParent] at edge
  cases edge

def sampleUntracked : CapManagerConfig := { CapManagerConfig.new with trackDerivation := false }

/-- A token can be bound to two scopes, an unrelated capability can be revoked, and
a refused issue can leave a live capability. -/
theorem delegationNarrows_ends :
    (∃ here after final first second,
      Run (Step 2 2 sampleDigest) (.new (.new .new)) (sampleDelegation.take 1) here ∧
      Run (Step 2 2 sampleDigest) here after final ∧ here.grants.get 1 = some first ∧
      final.grants.get 1 = some second ∧ second.scope ≠ first.scope) ∧
    (∃ here next slot, Run (Step 2 2 sampleDigest) (.new (.new .new)) sampleReissue here ∧
      Step 2 2 sampleDigest here ⟨.revoke ⟨0, 1⟩, .ok (.revoked 2)⟩ next ∧
      ¬ Descends (lineage [] sampleReissue) (1, 2) (0, 1) ∧
      here.Resolves 2 ⟨1, 2⟩ slot ∧ ¬ next.Resolves 2 ⟨1, 2⟩ slot) ∧
    ∃ next slot, Step 2 0 sampleDigest (.new (.new sampleUntracked))
        ⟨.issueRoot sampleScope .read ⟨1⟩ ⟨0⟩, .error .grantTableFull⟩ next ∧
      next.Resolves 2 ⟨0, 1⟩ slot :=
  ⟨rebound_after_wrap, unrelated_revoked_after_reuse, _, _, ⟨9, rfl⟩, rfl⟩

end ContextAuthority

end Rvm.Context
