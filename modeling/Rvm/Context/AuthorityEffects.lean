import Rvm.Cap.Issue
import Rvm.Context.Authority
import Rvm.Foundation.Postconditions

/-!
Owns what one administrative call of the context authority can do to live handles and
bindings. Where derivations are not tracked nothing is ever revoked, and an issue that
cannot be bound stays live.
-/

namespace Rvm.Context

open Cap Foundation Foundation.Call CapabilityManager AuthorityCall

namespace ContextGrantTable

variable {N G : Nat} {table after : ContextGrantTable} {manager : CapabilityManager}
  {tokenId : Nat} {scope : ContextScope}

def Binds (before after : ContextGrantTable) (tokenId : Nat) (scope : ContextScope) : Prop :=
  ∀ id, after.get id = if id = tokenId then some ⟨tokenId, scope⟩ else before.get id

theorem tokenId_of_get {grant : ContextGrant} (found : table.get tokenId = some grant) :
    grant.tokenId = tokenId :=
  entryFor.keyOf_eq found

theorem bind_spec (bound : bind G table tokenId scope = .ok after) :
    Binds table after tokenId scope ∧ ∀ grant, table.get tokenId = some grant →
      grant.scope = scope := by
  unfold bind at bound
  split at bound
  · rename_i existing found
    split at bound
    · rename_i same
      cases bound
      constructor
      · intro id
        split
        · rename_i here
          rw [here, found, ← same, ← tokenId_of_get found]
        · rfl
      · intro grant again
        rw [← Option.some.inj (found.symm.trans again)]
        exact same
    · cases bound
  · rename_i absent
    split at bound
    · cases bound
    · cases bound
      constructor
      · intro id
        have append := @entryFor.append _ _ _ ContextGrant.tokenId table.grants id
          ⟨tokenId, scope⟩ absent
        exact append
      · intro grant again
        rw [absent] at again
        cases again

theorem isLive_iff : isLive N manager tokenId = true ↔
    ∃ i g slot, manager.table.lookup N i g = .ok slot ∧ slot.token.id = tokenId := by
  simp only [isLive, List.any_eq_true, List.mem_range, Bool.and_eq_true, CapSlot.isValid_eq_true,
    beq_iff_eq, CapabilityTable.lookup_eq_ok]
  constructor
  · rintro ⟨i, below, used, same⟩
    exact ⟨i, _, _, ⟨below, rfl, used, rfl⟩, same⟩
  · rintro ⟨i, _, _, ⟨below, rfl, used, _⟩, same⟩
    exact ⟨i, below, used, same⟩

theorem get_retainLive : (table.retainLive N manager).get tokenId =
    if isLive N manager tokenId then table.get tokenId else none :=
  entryFor.filter fun id => isLive N manager id

end ContextGrantTable

namespace ContextAuthority

open ContextGrantTable

variable {N G fuel : Nat} {sha256 : List UInt8 → Octets 32} {here next : ContextAuthority}

/-- What a refused issue leaves: the handles that were live, or one more where
derivations are not tracked. -/
def LeftLive (N : Nat) (before after : CapabilityManager) : Prop :=
  SameLive N before after ∨
    before.config.trackDerivation = false ∧ ∃ handle slot, Issued N before after handle slot

theorem issue_permits {Grants : CapSlot → Prop} {scope : ContextScope}
    {operation : CapabilityManager → Except CapError (Nat × Nat) × CapabilityManager}
    (capacity : N ≤ u32Max) (unlinked : Unlinked here.manager)
    (issues : ∀ result after, operation here.manager = (result, after) →
      (∃ e, result = .error e ∧ SameLive N here.manager after) ∨
        ∃ handle slot, result = .ok handle ∧ Issued N here.manager after handle slot ∧
          Grants slot) :
    (onManager operation >>= fun handle =>
      bindIssued N G fuel ⟨handle.1, handle.2⟩ scope).Permits here
      (fun handle next => ∃ slot,
        operation here.manager = (.ok (handle.index, handle.generation), next.manager) ∧
        Issued N here.manager next.manager (handle.index, handle.generation) slot ∧
        Grants slot ∧ ContextGrantTable.Binds here.grants next.grants slot.token.id scope)
      fun _ next => LeftLive N here.manager next.manager ∧ next.grants = here.grants ∧
        ((∃ e, operation here.manager = (.error e, next.manager)) ∨
          ∃ handle middle result, operation here.manager = (.ok handle, middle) ∧
            (here.manager.table.slots handle.1).generation = 0 ∧
            middle.revoke N fuel handle.1 handle.2 = some (result, next.manager)) := by
  rcases called : operation here.manager with ⟨result, after⟩
  unfold onManager bindIssued
  simp only [permits_bind, permits_get, permits_set, permits_translate, permits_orRefusal, called]
  rcases issues result after called with ⟨e, rfl, same⟩ | ⟨handle, slot, rfl, issued, grants⟩
  · refine ⟨fun _ impossible => (by cases impossible), fun reason _ => ?_⟩
    exact ⟨.inl same, trivial, .inl ⟨e, rfl⟩⟩
  · refine ⟨fun value same => ?_, fun _ impossible => by cases impossible⟩
    cases same
    refine ⟨fun found lookup => ?_, fun e failed => ?_⟩
    · obtain rfl := Except.ok.inj (issued.found.symm.trans lookup)
      split
      · simp only [permits_bind, permits_orPanic, permits_set, permits_throw]
        rintro ⟨result, manager⟩ revoked
        refine ⟨?_, trivial, .inr ⟨handle, after, result, rfl, issued.absent, revoked⟩⟩
        cases tracking : here.manager.config.trackDerivation with
        | true => exact .inl (issued.rolledBack capacity tracking revoked)
        | false => exact .inr ⟨tracking, handle, _, issued.stays unlinked tracking revoked⟩
      · rename_i grants bound
        simp only [permits_bind, permits_set, permits_pure]
        exact ⟨slot, trivial, issued, by assumption, (bind_spec bound).1⟩
    · rw [issued.found] at failed
      cases failed

end ContextAuthority

def AuthorityCall.managerCall (sha256 : List UInt8 → Octets 32) : AuthorityCall → Option Cap.Call
  | .issueRoot scope rights owner _ =>
    some (.createRootCapability .context rights (scope.fingerprint sha256) owner)
  | .bindExisting _ _ => none
  | .delegate source childScope requestedRights targetOwner caller =>
    some (.grantChecked source.index source.generation requestedRights
      (childScope.fingerprint sha256) targetOwner caller)
  | .revoke handle => some (.revoke handle.index handle.generation)
  | .incrementEpoch => some .incrementEpoch

namespace ContextAuthority

open ContextGrantTable

/-- What the manager did in a call that was refused: nothing, a call that failed,
or an issue into a free slot that was revoked again. -/
inductive Backed (N : Nat) (call : Option Cap.Call) (before : CapabilityManager) :
    CapabilityManager → Prop
  | untouched : Backed N call before before
  | failed {issue : Cap.Call} {e : CapError} {after : CapabilityManager} :
      call = some issue → CapabilityManager.Step N before (issue, .error e) after →
      Backed N call before after
  | rolledBack {issue : Cap.Call} {i g : Nat} {result : Except CapError Nat}
      {middle after : CapabilityManager} :
      call = some issue → (before.table.slots i).generation = 0 →
      CapabilityManager.Step N before (issue, .ok (.handle i g)) middle →
      CapabilityManager.Step N middle (.revoke i g, result.map .revoked) after →
      Backed N call before after

inductive Effect (N : Nat) (sha256 : List UInt8 → Octets 32) (here : ContextAuthority) :
    AuthorityEvent → ContextAuthority → Prop
  | refused {call : AuthorityCall} {reason : ContextError} {next : ContextAuthority}
      (same : SameLive N here.manager next.manager) (grants : next.grants = here.grants)
      (backed : Backed N (call.managerCall sha256) here.manager next.manager) :
      Effect N sha256 here ⟨call, .error reason⟩ next
  | leaked {call : AuthorityCall} {reason : ContextError} {pair : Nat × Nat} {slot : CapSlot}
      {next : ContextAuthority} (untracked : here.manager.config.trackDerivation = false)
      (issued : Issued N here.manager next.manager pair slot) (grants : next.grants = here.grants)
      (issue : call.managerCall sha256 ≠ none)
      (backed : Backed N (call.managerCall sha256) here.manager next.manager) :
      Effect N sha256 here ⟨call, .error reason⟩ next
  | rootIssued {scope : ContextScope} {rights : CapRights} {owner caller : PartitionId}
      {handle : CapabilityHandle} {slot : CapSlot} {next : ContextAuthority}
      (step : CapabilityManager.Step N here.manager
        (.createRootCapability .context rights (scope.fingerprint sha256) owner,
          .ok (.handle handle.index handle.generation)) next.manager)
      (issued : Issued N here.manager next.manager (handle.index, handle.generation) slot)
      (binds : ContextGrantTable.Binds here.grants next.grants slot.token.id scope) :
      Effect N sha256 here ⟨.issueRoot scope rights owner caller, .ok (.handle handle)⟩ next
  | bound {handle : CapabilityHandle} {scope : ContextScope} {slot : CapSlot}
      {next : ContextAuthority}
      (found : here.manager.table.lookup N handle.index handle.generation = .ok slot)
      (current : slot.token.epoch = here.manager.verifier.currentEpoch)
      (manager : next.manager = here.manager)
      (binds : ContextGrantTable.Binds here.grants next.grants slot.token.id scope)
      (once : ∀ grant, here.grants.get slot.token.id = some grant → grant.scope = scope) :
      Effect N sha256 here ⟨.bindExisting handle scope, .ok .done⟩ next
  | delegated {source : CapabilityHandle} {childScope : ContextScope}
      {requestedRights : CapRights} {targetOwner caller : PartitionId}
      {handle : CapabilityHandle} {parent slot : CapSlot} {grant : ContextGrant}
      {next : ContextAuthority}
      (step : CapabilityManager.Step N here.manager
        (.grantChecked source.index source.generation requestedRights
          (childScope.fingerprint sha256) targetOwner caller,
          .ok (.handle handle.index handle.generation)) next.manager)
      (found : here.manager.table.lookup N source.index source.generation = .ok parent)
      (granted : here.grants.get parent.token.id = some grant)
      (contains : grant.scope.containsScope childScope = true)
      (attenuates : parent.token.rights.contains slot.token.rights = true)
      (issued : Issued N here.manager next.manager (handle.index, handle.generation) slot)
      (binds : ContextGrantTable.Binds here.grants next.grants slot.token.id childScope) :
      Effect N sha256 here ⟨.delegate source childScope requestedRights targetOwner caller,
        .ok (.handle handle)⟩ next
  | revoked {handle : CapabilityHandle} {count fuel : Nat} {next : ContextAuthority}
      (revoked : here.manager.revoke N fuel handle.index handle.generation =
        some (.ok count, next.manager))
      (grants : next.grants = here.grants.retainLive N next.manager) :
      Effect N sha256 here ⟨.revoke handle, .ok (.revoked count)⟩ next
  | rotated : Effect N sha256 here ⟨.incrementEpoch, .ok .done⟩ here.incrementEpoch

variable {N G fuel : Nat} {sha256 : List UInt8 → Octets 32} {here next : ContextAuthority}

theorem verifyP1_spec {index generation : Nat} {rights : CapRights}
    (verified : here.manager.verifyP1 N index generation rights = .ok ()) :
    ∃ slot, here.manager.table.lookup N index generation = .ok slot ∧
      slot.token.epoch = here.manager.verifier.currentEpoch ∧
      slot.token.rights.contains rights = true := by
  unfold CapabilityManager.verifyP1 ProofVerifier.verifyP1 at verified
  split at verified
  · cases verified
  · rename_i slot found
    split at verified
    · cases verified
    · rename_i current
      split at verified
      · cases verified
      · rename_i held
        exact ⟨slot, found, by simpa using current, by simpa [CapToken.hasRights] using held⟩

theorem backed_of_issue {call : AuthorityCall} {issue : Cap.Call}
    (operation : CapabilityManager → Except CapError (Nat × Nat) × CapabilityManager)
    (known : call.managerCall sha256 = some issue)
    (applies : ∀ more, here.manager.apply N more issue = some (withHandle (operation here.manager)))
    (ended : (∃ e, operation here.manager = (.error e, next.manager)) ∨
      ∃ handle middle result, operation here.manager = (.ok handle, middle) ∧
        (here.manager.table.slots handle.1).generation = 0 ∧
        middle.revoke N fuel handle.1 handle.2 = some (result, next.manager)) :
    Backed N (call.managerCall sha256) here.manager next.manager := by
  rcases ended with ⟨e, failed⟩ | ⟨handle, middle, result, issued, absent, revoked⟩
  · exact .failed known ⟨0, by rw [applies, failed]; rfl⟩
  · exact .rolledBack known absent ⟨0, by rw [applies, issued]; rfl⟩ (step_of_revoke revoked)

theorem effect_of_leftLive {call : AuthorityCall} {reason : ContextError}
    (left : LeftLive N here.manager next.manager) (grants : next.grants = here.grants)
    (issue : call.managerCall sha256 ≠ none)
    (backed : Backed N (call.managerCall sha256) here.manager next.manager) :
    Effect N sha256 here ⟨call, .error reason⟩ next := by
  rcases left with same | ⟨untracked, _, _, issued⟩
  · exact .refused same grants backed
  · exact .leaked untracked issued grants issue backed

theorem issueRoot_permits (capacity : N ≤ u32Max) (inv : here.manager.table.Inv N)
    (unlinked : Unlinked here.manager) (scope : ContextScope)
    (rights : CapRights) (owner caller : PartitionId) :
    (issueRoot N G sha256 fuel scope rights owner caller).Permits here
      (fun handle next =>
        Effect N sha256 here ⟨.issueRoot scope rights owner caller, .ok (.handle handle)⟩ next)
      fun reason next =>
        Effect N sha256 here ⟨.issueRoot scope rights owner caller, .error reason⟩ next := by
  have issues := @issue_permits N G fuel here (fun _ => True) scope
    (fun manager => manager.createRootCapabilityChecked N .context rights
      (scope.fingerprint sha256) owner caller) capacity unlinked
  cases hypervisor : caller.isHypervisor with
  | false =>
    have unchecked : ∀ manager : CapabilityManager, manager.createRootCapabilityChecked N
        .context rights (scope.fingerprint sha256) owner caller =
        (.error .grantNotPermitted, manager) := by
      intro manager
      rw [CapabilityManager.createRootCapabilityChecked, hypervisor]
      rfl
    simp only [unchecked] at issues
    unfold issueRoot
    simp only [unchecked]
    apply (issues _).mono
    · rintro _ _ ⟨_, impossible, _⟩
      cases impossible
    · rintro reason next ⟨left, grants, ⟨e, failed⟩ | ⟨_, _, _, impossible, _⟩⟩
      · refine effect_of_leftLive left grants (by simp [managerCall]) ?_
        have untouched : here.manager = next.manager := congrArg Prod.snd failed
        rw [← untouched]
        exact .untouched
      · cases impossible
    · rintro _ _ same
      cases same
      exact .inl ⟨_, rfl, sameLive_refl _⟩
  | true =>
    have checked : ∀ manager : CapabilityManager, manager.createRootCapabilityChecked N
        .context rights (scope.fingerprint sha256) owner caller =
        manager.createRootCapability N .context rights (scope.fingerprint sha256) owner := by
      intro manager
      rw [CapabilityManager.createRootCapabilityChecked, hypervisor]
      rfl
    simp only [checked] at issues
    unfold issueRoot
    simp only [checked]
    apply (issues _).mono
    · rintro handle next ⟨slot, called, issued, _, binds⟩
      refine .rootIssued ⟨0, ?_⟩ issued binds
      rw [CapabilityManager.apply, called]
      rfl
    · rintro reason next ⟨left, grants, ended⟩
      exact effect_of_leftLive left grants (by simp [managerCall])
        (backed_of_issue (fun manager =>
          manager.createRootCapability N .context rights (scope.fingerprint sha256) owner)
          rfl (fun _ => rfl) ended)
    · intro result after called
      rcases issued_or_same_createRoot capacity inv called with
        same | ⟨handle, slot, ended, issued, _⟩
      · exact .inl same
      · exact .inr ⟨handle, slot, ended, issued, trivial⟩

theorem refused_untouched {call : AuthorityCall} {reason : ContextError} :
    Effect N sha256 here ⟨call, .error reason⟩ here :=
  .refused (sameLive_refl _) rfl .untouched

theorem bindExisting_permits (handle : CapabilityHandle) (scope : ContextScope) :
    (bindExisting N G handle scope).Permits here
      (fun _ next => Effect N sha256 here ⟨.bindExisting handle scope, .ok .done⟩ next)
      fun reason next => Effect N sha256 here ⟨.bindExisting handle scope, .error reason⟩ next := by
  unfold bindExisting
  simp only [permits_bind, permits_get, permits_translate, permits_orRefusal, permits_throwIf,
    permits_set]
  refine ⟨fun _ verified => ⟨fun slot found => ⟨fun _ => refused_untouched, fun _ =>
    ⟨fun grants bound => ?_, fun _ _ => refused_untouched⟩⟩, fun _ _ => refused_untouched⟩,
    fun _ _ => refused_untouched⟩
  obtain ⟨same, foundSame, current, _⟩ := verifyP1_spec verified
  obtain rfl := Except.ok.inj (found.symm.trans foundSame)
  obtain ⟨binds, once⟩ := bind_spec bound
  exact .bound found current rfl binds once

theorem delegate_permits (capacity : N ≤ u32Max) (inv : here.manager.table.Inv N)
    (unlinked : Unlinked here.manager) (source : CapabilityHandle)
    (childScope : ContextScope) (requestedRights : CapRights) (targetOwner caller : PartitionId) :
    (delegate N G sha256 fuel source childScope requestedRights targetOwner caller).Permits here
      (fun handle next => Effect N sha256 here
        ⟨.delegate source childScope requestedRights targetOwner caller, .ok (.handle handle)⟩ next)
      fun reason next => Effect N sha256 here
        ⟨.delegate source childScope requestedRights targetOwner caller, .error reason⟩ next := by
  unfold delegate
  simp only [permits_bind, permits_get, permits_translate, permits_orRefusal, permits_throwIf,
    permits_orThrow]
  refine ⟨fun _ verified => ⟨fun parent found => ⟨fun _ => refused_untouched, fun _ =>
    ⟨fun grant granted => ⟨fun _ => refused_untouched, fun contains => ?_⟩,
      fun _ => refused_untouched⟩⟩, fun _ _ => refused_untouched⟩, fun _ _ => refused_untouched⟩
  obtain ⟨same, foundSame, _, holds⟩ := verifyP1_spec verified
  obtain rfl := Except.ok.inj (found.symm.trans foundSame)
  apply permits_bind.mp
  apply (issue_permits capacity unlinked fun _ _ called =>
    issued_or_same_grant capacity inv found holds called).mono
  · rintro handle next ⟨slot, called, issued, attenuates, binds⟩
    refine .delegated ⟨0, ?_⟩ found granted (by simpa using contains) attenuates issued binds
    rw [CapabilityManager.apply, called]
    rfl
  · rintro reason next ⟨left, grants, ended⟩
    exact effect_of_leftLive left grants (by simp [managerCall])
      (backed_of_issue (fun manager =>
        manager.grantWithCaller N source.index source.generation requestedRights
          (childScope.fingerprint sha256) targetOwner (some caller)) rfl (fun _ => rfl) ended)

theorem revoke_permits (handle : CapabilityHandle) :
    (revoke N fuel handle).Permits here
      (fun count next => Effect N sha256 here ⟨.revoke handle, .ok (.revoked count)⟩ next)
      fun reason next => Effect N sha256 here ⟨.revoke handle, .error reason⟩ next := by
  unfold revoke
  simp only [permits_bind, permits_get, permits_orPanic, permits_set, permits_translate,
    permits_orRefusal, permits_pure]
  rintro ⟨result, manager⟩ called
  refine ⟨fun count same => ?_, fun e same => ?_⟩
  · dsimp only at same
    subst same
    exact .revoked called rfl
  · dsimp only at same
    subst same
    rcases revoke_cases called with ⟨_, _, quiet⟩ | ⟨_, _, _, impossible, _⟩
    · exact .refused (quiet.sameLive) rfl (.failed rfl (step_of_revoke called))
    · cases impossible

theorem step_effect {event : AuthorityEvent} (capacity : N ≤ u32Max)
    (consistent : Consistent N here.manager) (step : Step N G sha256 here event next) :
    Effect N sha256 here event next := by
  obtain ⟨fuel, ran⟩ := step
  obtain ⟨call, outcome⟩ := event
  have inv := consistent.named.table
  have unlinked := consistent.unlinked
  suffices permits : (serve N G sha256 fuel call).Permits here
      (fun reply next => Effect N sha256 here ⟨call, .ok reply⟩ next)
      fun reason next => Effect N sha256 here ⟨call, .error reason⟩ next by
    have effect := permits outcome next ran
    cases outcome with
    | ok reply => exact effect
    | error reason => exact effect
  cases call with
  | issueRoot scope rights owner caller =>
    exact permits_map.mpr (issueRoot_permits capacity inv unlinked scope rights owner caller)
  | bindExisting handle scope => exact permits_map.mpr (bindExisting_permits handle scope)
  | delegate source childScope requestedRights targetOwner caller =>
    exact permits_map.mpr (delegate_permits capacity inv unlinked source childScope
      requestedRights targetOwner caller)
  | revoke handle => exact permits_map.mpr (revoke_permits handle)
  | incrementEpoch =>
    simp only [serve, permits_bind, permits_modify, permits_pure]
    exact .rotated

end ContextAuthority

end Rvm.Context
