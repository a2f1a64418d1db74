import Rvm.Context.Delegation
import Rvm.Context.Runtime

/-!
Owns the mediation of the governed runtime: a backend is called for authorized
requests only, after the decision was witnessed, and its results reach the caller
only when they are within the request, whatever the backend answers.
-/

namespace Rvm.Context

open VerifiedContextProfile

open Cap Foundation Foundation.Call Witness List ResolvedContext ContextEpochReceipt

/-! ### Sound results -/

structure Consistent (result : ResolvedContext) : Prop where
  revision : result.pinnedUri.revision = result.revision
  size : result.rvfLen ≤ maxRvfBytes
  live : ∀ snapshot, result.aliasSnapshot = some snapshot → snapshot.tombstone = false ∧
    snapshot.revision = result.revision ∧
    snapshot.aliasUri.logicalName = result.pinnedUri.uri.logicalName

structure Exact (target : RuvUri) (result : ResolvedContext) : Prop where
  consistent : Consistent result
  name : result.pinnedUri.uri.logicalName = target.logicalName
  pinned : ∀ revision, target.revision = some revision → result.revision = revision
  resolved : target.revision = none → result.aliasSnapshot.isSome = true

/-- The name lies under the root. -/
structure Within (root candidate : RuvUri) : Prop where
  authority : candidate.authority = root.authority
  tenant : candidate.tenant = root.tenant
  subject : candidate.subject = root.subject
  collection : candidate.collection = root.collection
  path : root.path <+: candidate.path

structure Bounded {α : Type} (pinnedUri : α → PinnedRuvUri) (limit : Nat) (results : List α) :
    Prop where
  length : results.length ≤ limit
  distinct : (results.map pinnedUri).Nodup

theorem consistent_of_valid {result : ResolvedContext}
    (valid : validResultIntegrity result = true) : Consistent result := by
  simp only [validResultIntegrity, Bool.and_eq_true, decide_eq_true_eq] at valid
  obtain ⟨⟨size, revision⟩, live⟩ := valid
  refine ⟨revision, size, ?_⟩
  intro snapshot present
  simpa [present, and_assoc] using live

variable {root : RuvUri} {limit : Nat}

theorem within_of_isWithin {candidate : RuvUri} (valid : isWithin root candidate = true) :
    Within root candidate := by
  simp only [isWithin, Bool.and_eq_true, decide_eq_true_eq, pathHasPrefix_iff] at valid
  obtain ⟨⟨⟨⟨authority, tenant⟩, subject⟩, collection⟩, path⟩ := valid
  exact ⟨authority.symm, tenant.symm, subject.symm, collection.symm, path⟩

theorem within_of_name {candidate : RuvUri} (same : root.logicalName = candidate.logicalName) :
    Within root candidate := by
  simp only [RuvUri.logicalName, LogicalName.mk.injEq] at same
  obtain ⟨authority, tenant, subject, collection, path⟩ := same
  exact ⟨authority.symm, tenant.symm, subject.symm, collection.symm, path ▸ prefix_refl _⟩

theorem exact_of_valid {target : RuvUri} {result : ResolvedContext}
    (valid : validExactResult target result = true) : Exact target result := by
  simp only [validExactResult, Bool.and_eq_true, sameLogicalName_iff] at valid
  obtain ⟨⟨integrity, name⟩, matched⟩ := valid
  refine ⟨consistent_of_valid integrity, name.symm, ?_, ?_⟩
  · intro revision pinned
    simpa [pinned, eq_comm] using matched
  · intro versionless
    simpa [versionless] using matched

theorem enumerated_of_valid {entries : List ResolvedContext} {recursive : Bool}
    (valid : validEnumeration root entries limit recursive = true) :
    Bounded pinnedUri limit entries ∧ ∀ entry ∈ entries, Consistent entry ∧
      entry.aliasSnapshot.isSome = true ∧ Within root entry.pinnedUri.uri ∧
      root.path.length < entry.pinnedUri.uri.path.length ∧
      (recursive = false → entry.pinnedUri.uri.path.length = root.path.length + 1) := by
  simp only [validEnumeration, hasDuplicates, Bool.and_eq_true, decide_eq_true_eq, Bool.not_not,
    all_eq_true, Bool.or_eq_true] at valid
  obtain ⟨⟨length, distinct⟩, each⟩ := valid
  refine ⟨⟨length, distinct⟩, fun entry member => ?_⟩
  obtain ⟨⟨⟨⟨integrity, live⟩, inside⟩, deeper⟩, depth⟩ := each entry member
  refine ⟨consistent_of_valid integrity, live, within_of_isWithin inside, deeper, fun flat => ?_⟩
  rw [flat] at depth
  simpa using depth

theorem history_of_valid {target : RuvUri} {entries : List ResolvedContext}
    (valid : validHistory target entries limit = true) :
    Bounded pinnedUri limit entries ∧ ∀ entry ∈ entries, Consistent entry ∧
      entry.pinnedUri.uri.logicalName = target.logicalName := by
  simp only [validHistory, hasDuplicates, Bool.not_eq_true', Bool.or_eq_false_iff,
    decide_eq_false_iff_not, not_lt, Bool.not_eq_false', decide_eq_true_eq, any_eq_false,
    Bool.or_eq_true, Bool.not_eq_true', not_or, Bool.not_eq_false] at valid
  obtain ⟨⟨length, each⟩, distinct⟩ := valid
  refine ⟨⟨length, distinct⟩, fun entry member => ?_⟩
  obtain ⟨integrity, name⟩ := each entry member
  exact ⟨consistent_of_valid integrity, (sameLogicalName_iff.mp name).symm⟩

theorem hits_of_valid {hits : List ContextHit} (valid : validHits root hits limit = true) :
    Bounded ContextHit.pinnedUri limit hits ∧ ∀ hit ∈ hits,
      hit.pinnedUri.revision = hit.revision ∧ Within root hit.pinnedUri.uri ∧
      ∀ revision, root.revision = some revision → hit.revision = revision ∧
        hit.pinnedUri.uri.logicalName = root.logicalName := by
  simp only [validHits, hasDuplicates, Bool.and_eq_true, decide_eq_true_eq, Bool.not_not,
    all_eq_true] at valid
  obtain ⟨⟨length, each⟩, distinct⟩ := valid
  refine ⟨⟨length, distinct⟩, fun hit member => ?_⟩
  obtain ⟨revision, matched⟩ := each hit member
  refine ⟨revision.symm, ?_⟩
  cases pinned : root.revision with
  | some expected =>
    simp only [pinned, Bool.and_eq_true, sameLogicalName_iff, decide_eq_true_eq] at matched
    refine ⟨within_of_name matched.1, fun other same => ?_⟩
    rw [← Option.some.inj same]
    exact ⟨matched.2, matched.1.symm⟩
  | none =>
    simp only [pinned] at matched
    exact ⟨within_of_isWithin matched, fun _ impossible => by cases impossible⟩

/-! ### Authorization -/

/-- The authority admits the request: a live capability of the actor has the rights and is bound
to a scope that contains the target and shows the view. -/
structure Admits (N : Nat) (authority : ContextAuthority) (actor : PartitionId)
    (request : ContextRequest) (operation : ContextOperation) (slot : CapSlot)
    (scope : ContextScope) : Prop where
  sameOperation : request.operation = operation
  shape : operation.targetShapeIsValid request.target = true
  live : authority.Resolves N request.capability slot
  current : slot.token.epoch = authority.manager.verifier.currentEpoch
  isContext : slot.token.capType = .context
  owned : slot.owner = actor
  rights : slot.token.rights.contains operation.requiredRights = true
  bound : ∃ grant, authority.grants.get slot.token.id = some grant ∧ grant.scope = scope
  inAuthority : scope.authority = request.target.authority
  inTenant : scope.tenant = request.target.tenant
  inSubject : scope.subject = request.target.subject
  inCollection : scope.collection = request.target.collection
  inPath : scope.pathPrefix <+: request.target.path
  shows : scope.views.bits &&& operation.requiredViewBit request.target.view =
    operation.requiredViewBit request.target.view

def WitnessParameters.logged (witness : WitnessParameters) (log : WitnessLog)
    (record : WitnessRecord) : WitnessLog :=
  (log.append witness.capacity witness.hasher record).2

def AuthorizedRequest.recordOf (witness : WitnessParameters) (authorized : AuthorizedRequest)
    (action : ActionKind) : WitnessRecord :=
  contextRecord witness.sha256 action authorized.operation authorized.actor
    authorized.capabilityHash authorized.timestampNs authorized.target

structure Minted (N : Nat) (authority : ContextAuthority) (actor : PartitionId)
    (request : ContextRequest) (operation : ContextOperation) (authorized : AuthorizedRequest) :
    Prop where
  admitted : ∃ slot scope, Admits N authority actor request operation slot scope ∧
    authorized.capabilityHash = slot.token.truncatedHash
  operation : authorized.operation = operation
  actor : authorized.actor = actor
  target : authorized.target = request.target

section Authorizing

variable {witness : WitnessParameters} {N : Nat} {authority : ContextAuthority}
  {actor : PartitionId} {timestampNs : Nat} {request : ContextRequest}
  {operation : ContextOperation} {log : WitnessLog}

theorem deny_spec {Returned : AuthorizedRequest → WitnessLog → Prop} (hash : Nat)
    (reason : ContextError) :
    (ContextAuthority.deny witness actor timestampNs request hash reason).Ensures log Returned
      fun _ next => ∃ hash, next = witness.logged log (contextRecord witness.sha256 .proofRejected
        request.operation actor hash timestampNs request.target) :=
  ⟨hash, rfl⟩

theorem ContextAuthority.authorize_spec :
    (authority.authorize witness N actor timestampNs request operation).Ensures log
      (fun authorized next => Minted N authority actor request operation authorized ∧
        next = witness.logged log (authorized.recordOf witness .proofVerifiedP1))
      fun _ next => ∃ hash, next = witness.logged log (contextRecord witness.sha256 .proofRejected
        request.operation actor hash timestampNs request.target) := by
  unfold authorize
  dsimp only
  split
  · rename_i valid
    split
    · exact deny_spec _ _
    · rename_i verified
      obtain ⟨slot, found, current, rights⟩ := verifyP1_spec verified
      simp only [found]
      split
      · exact deny_spec _ _
      · rename_i kind
        rw [not_or, not_not, not_not] at kind
        split
        · exact deny_spec _ _
        · rename_i grant bound
          split
          · exact deny_spec _ _
          · rename_i allowed
            simp only [Bool.not_eq_true', Bool.not_eq_false, ContextScope.allows_iff] at allowed
            obtain ⟨inAuthority, tenant, subject, collection, path, view⟩ := allowed
            have admits : Admits N authority actor request operation slot grant.scope :=
              ⟨valid.1, valid.2, found, current, kind.1, kind.2, rights, ⟨grant, bound, rfl⟩,
                inAuthority, tenant, subject, collection, path, view⟩
            refine ⟨⟨⟨slot, _, admits, rfl⟩, rfl, rfl, rfl⟩, ?_⟩
            have same := valid.1
            subst same
            rfl
  · exact deny_spec _ _

theorem ContextAuthority.authorize_admits {slot : CapSlot} {grant : ContextGrant}
    (valid : request.operation = operation ∧ operation.targetShapeIsValid request.target = true)
    (verified : authority.manager.verifyP1 N request.capability.index
      request.capability.generation operation.requiredRights = .ok ())
    (found : authority.manager.table.lookup N request.capability.index
      request.capability.generation = .ok slot)
    (kind : slot.token.capType = .context ∧ slot.owner = actor)
    (bound : authority.grants.get slot.token.id = some grant)
    (allowed : grant.scope.allows request.target operation = true) :
    ∃ authorized, (authority.authorize witness N actor timestampNs request operation).runFrom log =
        some (.ok authorized,
          witness.logged log (authorized.recordOf witness .proofVerifiedP1)) ∧
      authorized.target = request.target ∧ authorized.timestampNs = timestampNs := by
  unfold authorize
  dsimp only
  rw [dif_pos valid, verified]
  dsimp only
  rw [found]
  dsimp only
  rw [if_neg (by simp [kind]), bound]
  dsimp only
  rw [if_neg (by simp [allowed])]
  obtain ⟨rfl, _⟩ := valid
  exact ⟨_, rfl, rfl, rfl⟩

end Authorizing

namespace ContextRuntime

namespace Access

def request : Access → ContextRequest
  | .resolve request | .list request _ | .tree request _ | .read request | .search request _ _
  | .history request _ | .verify request | .put request _ | .compareAndSwapAlias request _ _
  | .forget request _ | .authorizeExecute request | .grant request _ _ _ | .revoke request
  | .sealEpoch request _ => request

def operation : Access → ContextOperation
  | .resolve _ => .resolve
  | .list _ _ => .list
  | .tree _ _ => .tree
  | .read _ => .read
  | .search _ _ _ => .search
  | .history _ _ => .history
  | .verify _ => .verify
  | .put _ _ => .put
  | .compareAndSwapAlias _ _ _ => .compareAndSwapAlias
  | .forget _ _ => .forget
  | .authorizeExecute _ => .execute
  | .grant _ _ _ _ => .grant
  | .revoke _ => .revoke
  | .sealEpoch _ _ => .sealReceipt

def backendCall (authorized : AuthorizedRequest) : Access → Option ResolverCall
  | .resolve _ => some (.resolve authorized)
  | .list _ limit => some (.list authorized limit)
  | .tree _ limit => some (.tree authorized limit)
  | .read _ => some (.read authorized)
  | .search _ query limit => some (.search authorized query limit)
  | .history _ limit => some (.history authorized limit)
  | .verify _ => some (.verify authorized)
  | .put _ rvf => some (.put authorized rvf)
  | .compareAndSwapAlias _ expected nextRevision =>
    some (.compareAndSwapAlias authorized expected nextRevision)
  | .forget _ expected => some (.forget authorized expected)
  | .authorizeExecute _ => some (.prepareExecute authorized)
  | .grant _ _ _ _ | .revoke _ | .sealEpoch _ _ => none

end Access

variable {ρ κ : Type} (parameters : RuntimeParameters ρ κ) (here : ContextRuntime ρ κ)
  (access : Access)

/-- The backend was called with an authorized request for this access, and when it
was, the decision had been recorded. -/
def Mediated (ask : ResolverCall × WitnessLog) : Prop :=
  ∃ authorized, Minted parameters.capabilities here.authority here.actor access.request
      access.operation authorized ∧
    access.backendCall authorized = some ask.1 ∧
    ask.2 = parameters.witness.logged here.witness
      (authorized.recordOf parameters.witness .proofVerifiedP1)

/-- Every call of the backend since was mediated. -/
def AskedOnly (next : ContextRuntime ρ κ) : Prop :=
  ∃ asks, next.asked = here.asked ++ asks ∧ ∀ ask ∈ asks, Mediated parameters here access ask

def IsDecision (record : WitnessRecord) : Prop :=
  record.actionKind = ActionKind.proofVerifiedP1.asU8 ∨
    record.actionKind = ActionKind.proofRejected.asU8

structure Logs (records : List WitnessRecord) (next : ContextRuntime ρ κ) : Prop where
  witness : next.witness = records.foldl parameters.witness.logged here.witness
  recorded : next.recorded = here.recorded ++ here.witness.produced parameters.witness.capacity
    parameters.witness.hasher (records.map .append)

def DecidedOnly (next : ContextRuntime ρ κ) : Prop :=
  ∃ decisions, Logs parameters here decisions next ∧ ∀ record ∈ decisions, IsDecision record

/-- What an access leaves that was refused or that a panic ended. -/
structure Quiet (next : ContextRuntime ρ κ) : Prop where
  asked : AskedOnly parameters here access next
  decided : DecidedOnly parameters here next
  actor : next.actor = here.actor
  receiptChain : next.receiptChain = here.receiptChain

/-- The state after authorization, until the access completes. -/
structure Held (authorized : AuthorizedRequest) (next : ContextRuntime ρ κ) : Prop where
  minted : Minted parameters.capabilities here.authority here.actor access.request
    access.operation authorized
  logs : Logs parameters here [authorized.recordOf parameters.witness .proofVerifiedP1] next
  asked : AskedOnly parameters here access next
  actor : next.actor = here.actor
  receiptChain : next.receiptChain = here.receiptChain

/-- The state after an access that succeeded: the decision and the success are
recorded, in this order. -/
structure Completed (authorized : AuthorizedRequest) (next : ContextRuntime ρ κ) : Prop where
  minted : Minted parameters.capabilities here.authority here.actor access.request
    access.operation authorized
  logs : Logs parameters here [authorized.recordOf parameters.witness .proofVerifiedP1,
    authorized.recordOf parameters.witness access.operation.actionKind] next
  asked : AskedOnly parameters here access next
  actor : next.actor = here.actor
  receiptChain : next.receiptChain = here.receiptChain

variable {parameters here access} {authorized : AuthorizedRequest} {mid next : ContextRuntime ρ κ}

theorem Logs.append {records : List WitnessRecord} (logs : Logs parameters here records mid)
    {record : WitnessRecord} (witness : next.witness = parameters.witness.logged mid.witness record)
    (recorded : next.recorded =
      (mid.withWitness (parameters.witness.logged mid.witness record)).recorded) :
    Logs parameters here (records ++ [record]) next where
  witness := by
    rw [witness, foldl_append, ← logs.witness]
    rfl
  recorded := by
    have log : mid.witness = here.witness.run parameters.witness.capacity parameters.witness.hasher
        (records.map .append) := by
      rw [logs.witness, WitnessLog.run, foldl_map]
      rfl
    have advanced : (parameters.witness.logged mid.witness record).written ≠
        mid.witness.written := Nat.succ_ne_self _
    rw [map_append, WitnessLog.produced_append, ← log, ← append_assoc, ← logs.recorded,
      recorded, withWitness, if_neg advanced]
    show mid.recorded ++ [Function.update mid.witness.records mid.witness.writePos _ _] = _
    rw [Function.update_self]
    rfl

theorem logs_nil : Logs parameters here [] here := ⟨rfl, (append_nil _).symm⟩

theorem askedOnly_same (asked : next.asked = here.asked) : AskedOnly parameters here access next :=
  ⟨[], by rw [asked, append_nil], fun _ member => (not_mem_nil member).elim⟩

theorem Held.quiet (held : Held parameters here access authorized next) :
    Quiet parameters here access next where
  asked := held.asked
  decided := by
    refine ⟨[authorized.recordOf parameters.witness .proofVerifiedP1], held.logs, ?_⟩
    intro record member
    rw [mem_singleton.mp member]
    exact .inl rfl
  actor := held.actor
  receiptChain := held.receiptChain

/-! ### What each step keeps -/

theorem authorize_spec (access : Access) :
    (authorize parameters access.request access.operation).Ensures here
      (fun authorized next => Held parameters here access authorized next)
      fun _ next => Quiet parameters here access next := by
  unfold authorize nextTimestamp onWitness
  simp only [ensures_bind, ensures_get, ensures_set, ensures_pure, ensures_onPart,
    ensures_translate]
  apply ContextAuthority.authorize_spec.mono
  · rintro authorized log ⟨minted, rfl⟩
    exact ⟨minted, logs_nil.append rfl rfl, askedOnly_same rfl, rfl, rfl⟩
  · rintro _ log ⟨hash, rfl⟩
    refine ⟨askedOnly_same rfl, ⟨[_], logs_nil.append rfl rfl, ?_⟩, rfl, rfl⟩
    intro record member
    rw [mem_singleton.mp member]
    exact .inr rfl

variable {α : Type} {call : ResolverCall} {rvf : List UInt8}

theorem Held.ask {method : Call ContextError ρ α}
    (held : Held parameters here access authorized mid)
    (call_eq : access.backendCall authorized = some call) :
    (ask call method).Ensures mid (fun _ next => Held parameters here access authorized next)
      fun _ next => Quiet parameters here access next := by
  have asked : ∀ resolver, Held parameters here access authorized
      { mid with asked := mid.asked ++ [(call, mid.witness)], resolver := resolver } := by
    intro resolver
    refine ⟨held.minted, ⟨held.logs.witness, held.logs.recorded⟩, ?_, held.actor, held.receiptChain⟩
    obtain ⟨asks, same, mediated⟩ := held.asked
    refine ⟨asks ++ [(call, mid.witness)], by rw [same, append_assoc], ?_⟩
    intro ask member
    rcases mem_append.mp member with earlier | last
    · exact mediated ask earlier
    · rw [mem_singleton.mp last]
      exact ⟨authorized, held.minted, call_eq, held.logs.witness⟩
  unfold ContextRuntime.ask
  simp only [ensures_bind, ensures_get, ensures_set]
  cases method.runFrom mid.resolver with
  | none => exact (asked mid.resolver).quiet
  | some outcome =>
    obtain ⟨result, resolver⟩ := outcome
    simp only [ensures_bind, ensures_modify, ensures_translate, ensures_orRefusal]
    exact ⟨fun _ _ => asked resolver, fun _ _ => (asked resolver).quiet⟩

theorem Held.checked (held : Held parameters here access authorized mid) (valid : Bool) :
    (checked parameters valid authorized).Ensures mid (fun _ next => next = mid ∧ valid = true)
      fun _ next => Quiet parameters here access next := by
  unfold ContextRuntime.checked rejectResolver onWitness
  split
  · rename_i passed
    exact ⟨rfl, passed⟩
  · simp only [ensures_bind, ensures_onPart, ensures_translate, ensures_throw]
    refine ⟨held.asked, ⟨[authorized.recordOf parameters.witness .proofVerifiedP1,
      authorized.recordOf parameters.witness .proofRejected], held.logs.append rfl rfl, ?_⟩,
      held.actor, held.receiptChain⟩
    intro record member
    rcases mem_cons.mp member with rfl | last
    · exact .inl rfl
    · rw [mem_singleton.mp last]
      exact .inr rfl

theorem Held.complete (held : Held parameters here access authorized mid) :
    (complete parameters authorized).Ensures mid
      (fun _ next => Completed parameters here access authorized next)
      fun _ next => Quiet parameters here access next := by
  unfold ContextRuntime.complete onWitness
  simp only [ensures_onPart, ensures_translate]
  rw [held.minted.operation]
  exact ⟨held.minted, held.logs.append rfl rfl, held.asked, held.actor, held.receiptChain⟩

theorem verifyProfile_spec {revision : Revision} :
    (verifyProfile parameters rvf revision).Ensures mid
      (fun profile next => next = mid ∧
        VerifiedContextProfile.Bound parameters.witness.sha256 rvf revision profile)
      fun _ next => next = mid := by
  unfold verifyProfile refuseWhen
  simp only [ensures_bind, ensures_throwIf, ensures_translate, ensures_reading]
  refine ⟨fun _ => trivial, fun _ => ?_⟩
  apply fromRvf_spec.mono
  · exact fun _ _ bound => ⟨trivial, bound⟩
  · exact fun _ _ _ => trivial

/-! ### What each access returns -/

/-- Bytes read: the payload that the profile of a complete RVF binds to the view,
the RVF being the one the returned revision is the digest of. -/
def BoundBytes (sha256 : List UInt8 → Octets 32) (resolved : ResolvedContext)
    (view : ProgressiveView) (output : List UInt8) : Prop :=
  ∃ rvf, sha256 rvf = resolved.revision.bytes ∧ resolved.rvfLen = rvf.length ∧
    ProfileBound sha256 rvf view output

def Profiled (sha256 : List UInt8 → Octets 32) (revision : Revision) (rvf : List UInt8) : Prop :=
  ∃ profile, VerifiedContextProfile.Bound sha256 rvf revision profile

/-- What a successful access may return for its arguments. -/
def Sound (sha256 : List UInt8 → Octets 32) (actor : PartitionId) : Access → AccessReply → Prop
  | .resolve request, .resolved resolved => Exact request.target resolved
  | .list request limit, .entries entries =>
    Bounded pinnedUri limit entries ∧ ∀ entry ∈ entries, Consistent entry ∧
      Within request.target entry.pinnedUri.uri ∧
      entry.pinnedUri.uri.path.length = request.target.path.length + 1
  | .tree request limit, .entries entries =>
    Bounded pinnedUri limit entries ∧ ∀ entry ∈ entries, Consistent entry ∧
      Within request.target entry.pinnedUri.uri ∧
      request.target.path.length < entry.pinnedUri.uri.path.length
  | .read request, .bytes resolved output =>
    Exact request.target resolved ∧
      BoundBytes sha256 resolved (request.target.view.getD .content) output
  | .search request _ limit, .hits hits =>
    Bounded ContextHit.pinnedUri limit hits ∧ ∀ hit ∈ hits,
      hit.pinnedUri.revision = hit.revision ∧ Within request.target hit.pinnedUri.uri ∧
      ∀ revision, request.target.revision = some revision → hit.revision = revision ∧
        hit.pinnedUri.uri.logicalName = request.target.logicalName
  | .history request limit, .entries entries =>
    Bounded pinnedUri limit entries ∧ ∀ entry ∈ entries, Consistent entry ∧
      entry.pinnedUri.uri.logicalName = request.target.logicalName
  | .verify request, .resolved resolved =>
    Exact request.target resolved ∧ ∃ rvf, Profiled sha256 resolved.revision rvf
  | .put request rvf, .resolved resolved =>
    Exact request.target resolved ∧ resolved.rvfLen = rvf.length ∧
      Profiled sha256 resolved.revision rvf
  | .compareAndSwapAlias request expected nextRevision, .snapshot snapshot =>
    snapshot.tombstone = false ∧ snapshot.revision = nextRevision ∧
      snapshot.aliasUri.logicalName = request.target.logicalName ∧
      some snapshot.generation = expectedGeneration expected
  | .forget request expected, .snapshot snapshot =>
    snapshot.tombstone = true ∧ snapshot.revision ≠ expected.revision ∧
      snapshot.aliasUri.logicalName = request.target.logicalName ∧
      some snapshot.generation = expectedGeneration (some expected)
  | .authorizeExecute request, .permit permit =>
    permit.actor = actor ∧ permit.pinnedUri.revision = permit.revision ∧
      permit.pinnedUri.uri.logicalName = request.target.logicalName ∧
      request.target.revision = some permit.revision ∧
      ∃ rvf profile, VerifiedContextProfile.Bound sha256 rvf permit.revision profile ∧
        profile.isExecutable .content = true
  | .grant _ _ _ _, .handle _ => True
  | .revoke _, .revoked _ => True
  | .sealEpoch _ arguments, .epochSealed receipt _ =>
    receipt.receipt.rvfIdentity = arguments.commitments.rvfIdentity
  | _, _ => False

/-! ### Rules of an access -/

variable {α β : Type} {Result : α → Prop}

variable (parameters here access) in
/-- The rest of the access ends well: where it returns, the access has completed with
such a result, and where it is refused, only decisions were recorded. -/
def Serves (call : RuntimeCall ρ κ α) (mid : ContextRuntime ρ κ) (Result : α → Prop) : Prop :=
  call.Ensures mid
    (fun value next => (∃ authorized, Completed parameters here access authorized next) ∧
      Result value)
    fun _ next => Quiet parameters here access next

theorem serves_authorize {rest : AuthorizedRequest → RuntimeCall ρ κ α}
    (each : ∀ authorized mid, Held parameters here access authorized mid →
      Serves parameters here access (rest authorized) mid Result) :
    Serves parameters here access (authorize parameters access.request access.operation >>= rest)
      here Result := by
  rw [Serves, ensures_bind]
  exact (authorize_spec access).weaken each

theorem Held.asking (held : Held parameters here access authorized mid)
    {method : Call ContextError ρ β} {rest : β → RuntimeCall ρ κ α}
    (call_eq : access.backendCall authorized = some call)
    (each : ∀ value next, Held parameters here access authorized next →
      Serves parameters here access (rest value) next Result) :
    Serves parameters here access (ContextRuntime.ask call method >>= rest) mid Result := by
  rw [Serves, ensures_bind]
  exact (held.ask call_eq).weaken each

theorem Held.checking (held : Held parameters here access authorized mid) {valid : Bool}
    {rest : Unit → RuntimeCall ρ κ α}
    (passed : valid = true → Serves parameters here access (rest ()) mid Result) :
    Serves parameters here access (ContextRuntime.checked parameters valid authorized >>= rest) mid
      Result := by
  rw [Serves, ensures_bind]
  apply (held.checked valid).weaken
  rintro _ _ ⟨rfl, holds⟩
  exact passed holds

theorem Held.refuseWhen (held : Held parameters here access authorized mid) {condition : Prop}
    [Decidable condition] {error : ContextError} {rest : PUnit → RuntimeCall ρ κ α}
    (passed : ¬condition → Serves parameters here access (rest ⟨⟩) mid Result) :
    Serves parameters here access (ContextRuntime.refuseWhen condition error >>= rest) mid
      Result := by
  rw [Serves, ensures_bind, ContextRuntime.refuseWhen, ensures_throwIf]
  exact ⟨fun _ => held.quiet, passed⟩

theorem Held.verifying (held : Held parameters here access authorized mid) {revision : Revision}
    {rest : VerifiedContextProfile → RuntimeCall ρ κ α}
    (each : ∀ profile, VerifiedContextProfile.Bound parameters.witness.sha256 rvf revision profile →
      Serves parameters here access (rest profile) mid Result) :
    Serves parameters here access (verifyProfile parameters rvf revision >>= rest) mid Result := by
  rw [Serves, ensures_bind]
  apply verifyProfile_spec.mono _ fun _ _ same => same ▸ held.quiet
  rintro profile _ ⟨rfl, bound⟩
  exact each profile bound

theorem Held.completing (held : Held parameters here access authorized mid) {reply : Nat → α}
    (sound : ∀ sequence, Result (reply sequence)) :
    Serves parameters here access (do
      let sequence ← ContextRuntime.complete parameters authorized
      return reply sequence) mid Result := by
  rw [Serves, ensures_bind]
  apply held.complete.weaken
  intro sequence _ completed
  exact ⟨⟨authorized, completed⟩, sound sequence⟩

theorem Held.finish (held : Held parameters here access authorized mid)
    {method : Call ContextError ρ α} {valid : α → Bool}
    (call_eq : access.backendCall authorized = some call)
    (sound : ∀ result, valid result = true → Result result) :
    Serves parameters here access (do
      let result ← ContextRuntime.ask call method
      ContextRuntime.checked parameters (valid result) authorized
      let _ ← ContextRuntime.complete parameters authorized
      return result) mid Result := by
  apply held.asking call_eq
  intro result next held
  apply held.checking
  intro passed
  exact held.completing fun _ => sound result passed

theorem exact_of_bytes {target : RuvUri} {resolved : ResolvedContext}
    (valid : (validExactResult target resolved && decide (resolved.rvfLen = rvf.length)) = true) :
    Exact target resolved ∧ resolved.rvfLen = rvf.length := by
  rw [Bool.and_eq_true, decide_eq_true_eq] at valid
  exact ⟨exact_of_valid valid.1, valid.2⟩

/-! ### The accesses -/

variable (parameters here access) in
/-- The access ends well, with a result that is sound for its arguments. -/
def Answers (call : RuntimeCall ρ κ α) (reply : α → AccessReply) : Prop :=
  Serves parameters here access call here fun value =>
    Sound parameters.witness.sha256 here.actor access (reply value)

variable (request : ContextRequest)

theorem resolve_answers :
    Answers parameters here (.resolve request) (resolve parameters request) .resolved := by
  apply serves_authorize
  intro authorized mid held
  apply held.finish rfl
  intro resolved valid
  exact exact_of_valid (held.minted.target ▸ valid)

theorem list_answers (limit : Nat) :
    Answers parameters here (.list request limit) (list parameters request limit) .entries := by
  apply serves_authorize
  intro authorized mid held
  apply held.refuseWhen
  intro _
  apply held.finish rfl
  intro entries valid
  rw [held.minted.target] at valid
  obtain ⟨bounded, each⟩ := enumerated_of_valid valid
  refine ⟨bounded, fun entry member => ?_⟩
  obtain ⟨consistent, _, inside, _, depth⟩ := each entry member
  exact ⟨consistent, inside, depth rfl⟩

theorem tree_answers (limit : Nat) :
    Answers parameters here (.tree request limit) (tree parameters request limit) .entries := by
  apply serves_authorize
  intro authorized mid held
  apply held.refuseWhen
  intro _
  apply held.finish rfl
  intro entries valid
  rw [held.minted.target] at valid
  obtain ⟨bounded, each⟩ := enumerated_of_valid valid
  refine ⟨bounded, fun entry member => ?_⟩
  obtain ⟨consistent, _, inside, deeper, _⟩ := each entry member
  exact ⟨consistent, inside, deeper⟩

theorem search_answers (query : List UInt8) (limit : Nat) :
    Answers parameters here (.search request query limit) (search parameters request query limit)
      .hits := by
  apply serves_authorize
  intro authorized mid held
  apply held.refuseWhen
  intro _
  apply held.refuseWhen
  intro _
  apply held.finish rfl
  intro hits valid
  exact hits_of_valid (held.minted.target ▸ valid)

theorem history_answers (limit : Nat) :
    Answers parameters here (.history request limit) (history parameters request limit)
      .entries := by
  apply serves_authorize
  intro authorized mid held
  apply held.refuseWhen
  intro _
  apply held.finish rfl
  intro entries valid
  exact history_of_valid (held.minted.target ▸ valid)

theorem put_answers (rvf : List UInt8) :
    Answers parameters here (.put request rvf) (put parameters request rvf) .resolved := by
  apply serves_authorize
  intro authorized mid held
  rw [Serves, ensures_bind, ensures_orThrow]
  refine ⟨fun revision pinned => ?_, fun _ => held.quiet⟩
  apply held.verifying
  intro profile bound
  apply held.finish rfl
  intro resolved valid
  rw [held.minted.target] at valid pinned
  obtain ⟨found, sized⟩ := exact_of_bytes valid
  exact ⟨found, sized, profile, found.pinned revision pinned ▸ bound⟩

theorem compareAndSwapAlias_answers (expected : Option AliasSnapshot) (nextRevision : Revision) :
    Answers parameters here (.compareAndSwapAlias request expected nextRevision)
      (compareAndSwapAlias parameters request expected nextRevision) .snapshot := by
  apply serves_authorize
  intro authorized mid held
  apply held.refuseWhen
  intro _
  apply held.finish rfl
  intro snapshot valid
  rw [held.minted.target] at valid
  simp only [validAdvance, Bool.not_or, Bool.not_not, Bool.and_eq_true, Bool.not_eq_true',
    decide_eq_false_iff_not, Decidable.not_not, sameLogicalName_iff] at valid
  obtain ⟨⟨⟨live, name⟩, revision⟩, generation⟩ := valid
  exact ⟨live, revision, name, generation⟩

theorem forget_answers (expected : AliasSnapshot) :
    Answers parameters here (.forget request expected) (forget parameters request expected)
      .snapshot := by
  apply serves_authorize
  intro authorized mid held
  apply held.refuseWhen
  intro _
  apply held.finish rfl
  intro snapshot valid
  rw [held.minted.target] at valid
  simp only [validTombstone, Bool.not_or, Bool.not_not, Bool.and_eq_true, Bool.not_eq_true',
    decide_eq_false_iff_not, Decidable.not_not, sameLogicalName_iff] at valid
  obtain ⟨⟨⟨dead, name⟩, revision⟩, generation⟩ := valid
  exact ⟨dead, revision, name, generation⟩

theorem read_answers :
    Answers parameters here (.read request) (read parameters request)
      fun result => .bytes result.1 result.2 := by
  apply serves_authorize
  intro authorized mid held
  apply held.asking rfl
  rintro ⟨resolved, rvf⟩ mid held
  apply held.checking
  intro valid
  apply held.verifying
  intro profile bound
  rw [Serves, ensures_bind, ensures_translate, ensures_reading]
  apply (payload_spec bound _).mono _ fun _ _ _ => held.quiet
  intro output _ profiled
  apply held.completing
  intro _
  rw [held.minted.target] at valid profiled
  obtain ⟨found, sized⟩ := exact_of_bytes valid
  exact ⟨found, rvf, bound.hashed, sized, profiled⟩

theorem verify_answers :
    Answers parameters here (.verify request) (verify parameters request) .resolved := by
  apply serves_authorize
  intro authorized mid held
  apply held.asking rfl
  rintro ⟨resolved, rvf⟩ mid held
  apply held.checking
  intro valid
  apply held.verifying
  intro profile bound
  apply held.completing
  intro _
  rw [held.minted.target] at valid
  exact ⟨(exact_of_bytes valid).1, rvf, profile, bound⟩

theorem authorizeExecute_answers :
    Answers parameters here (.authorizeExecute request) (authorizeExecute parameters request)
      .permit := by
  apply serves_authorize
  intro authorized mid held
  apply held.asking rfl
  rintro ⟨resolved, rvf⟩ mid held
  apply held.checking
  intro valid
  apply held.verifying
  intro profile bound
  apply held.refuseWhen
  intro executable
  apply held.completing
  intro _
  obtain ⟨_, _, admits, _⟩ := held.minted.admitted
  rw [held.minted.target] at valid
  obtain ⟨found, _⟩ := exact_of_bytes valid
  -- The shape of an executable target has a revision.
  have shape : request.target.isPinned = true := by
    have whole := admits.shape
    simp only [Access.operation, Access.request, ContextOperation.targetShapeIsValid,
      Bool.and_eq_true] at whole
    exact whole.1.1
  obtain ⟨revision, pinned⟩ := Option.isSome_iff_exists.mp shape
  refine ⟨held.minted.actor, found.consistent.revision, found.name, ?_, rvf, profile, bound,
    by simpa using executable⟩
  rw [found.pinned revision pinned]
  exact pinned

/-! ### Administration and sealing -/

theorem Held.onAuthority (held : Held parameters here access authorized mid)
    (call : Call ContextError ContextAuthority α) :
    (onAuthority call).Permits mid (fun _ next => Held parameters here access authorized next)
      fun _ next => Quiet parameters here access next := by
  have changed : ∀ authority, Held parameters here access authorized
      { mid with authority := authority } :=
    fun _ => ⟨held.minted, ⟨held.logs.witness, held.logs.recorded⟩, held.asked, held.actor,
      held.receiptChain⟩
  unfold ContextRuntime.onAuthority
  simp only [permits_onPart, permits_translate]
  intro outcome authority _
  cases outcome with
  | ok value => exact changed authority
  | error reason => exact (changed authority).quiet

theorem grant_spec (fuel : Nat) (request : ContextRequest) (childScope : ContextScope)
    (requestedRights : CapRights) (targetOwner : PartitionId) :
    (grant parameters fuel request childScope requestedRights targetOwner).Permits here
      (fun _ next => ∃ authorized, Completed parameters here
        (.grant request childScope requestedRights targetOwner) authorized next)
      fun _ next => Quiet parameters here (.grant request childScope requestedRights targetOwner)
        next := by
  unfold grant
  rw [permits_bind]
  apply (authorize_spec (.grant request childScope requestedRights
    targetOwner)).permits.weaken
  intro authorized mid held
  rw [permits_bind, permits_get, permits_bind]
  apply (held.onAuthority _).weaken
  intro handle mid held
  rw [permits_bind]
  apply held.complete.permits.weaken
  intro _ final completed
  rw [permits_pure]
  exact ⟨authorized, completed⟩

theorem revoke_spec (fuel : Nat) (request : ContextRequest) :
    (revoke parameters fuel request).Permits here
      (fun _ next => ∃ authorized, Completed parameters here (.revoke request) authorized next)
      fun _ next => Quiet parameters here (.revoke request) next := by
  unfold revoke
  rw [permits_bind]
  apply (authorize_spec (.revoke request)).permits.weaken
  intro authorized mid held
  rw [permits_bind]
  apply (held.onAuthority _).weaken
  intro count mid held
  rw [permits_bind]
  apply held.complete.permits.weaken
  intro _ final completed
  rw [permits_pure]
  exact ⟨authorized, completed⟩

theorem verified_signed {sha256 : List UInt8 → Octets 32} {signed : SignedContextEpochReceipt}
    {signer : WitnessSigner} {verified : VerifiedContextEpochReceipt sha256}
    (accepted : signed.verify sha256 signer = .ok verified) : verified.signed = signed := by
  unfold SignedContextEpochReceipt.verify at accepted
  split at accepted
  · cases accepted
  · split at accepted
    · cases accepted
    · cases accepted
      rfl

/-- A successful seal: the snapshot includes the decision, the receipt continues
the cursor, and the record of the seal comes after both. -/
structure SealedEpoch (parameters : RuntimeParameters ρ κ) (here : ContextRuntime ρ κ)
    (request : ContextRequest) (arguments : SealArguments) (authorized : AuthorizedRequest)
    (unsigned : ContextEpochReceipt)
    (verified : VerifiedContextEpochReceipt parameters.witness.sha256) (sealTimestampNs : Nat)
    (nextCheckpoint : WitnessCheckpoint) (next : ContextRuntime ρ κ) : Prop where
  minted : Minted parameters.capabilities here.authority here.actor request .sealReceipt authorized
  sealing : sealFromLog parameters.witness.sha256 parameters.witness.capacity
    parameters.witness.hasher here.receiptChain.nextEpochId
    (parameters.witness.logged here.witness
      (authorized.recordOf parameters.witness .proofVerifiedP1))
    here.receiptChain.nextCheckpoint arguments.scratch here.receiptChain.previousReceiptId
    arguments.commitments = .ok (unsigned, nextCheckpoint)
  signed : verified.signed = unsigned.sign parameters.witness.sha256 arguments.signer
  room : here.receiptChain.nextEpochId + 1 ≤ u64Max
  logs : Logs parameters here [authorized.recordOf parameters.witness .proofVerifiedP1,
    verified.sealRecord authorized.actor.asU32 authorized.capabilityHash sealTimestampNs] next
  asked : AskedOnly parameters here (.sealEpoch request arguments) next
  actor : next.actor = here.actor
  receiptChain : next.receiptChain = ⟨nextCheckpoint, here.receiptChain.nextEpochId + 1,
    verified.signed.receiptId parameters.witness.sha256⟩

theorem sealEpochTransactional_spec (request : ContextRequest) (arguments : SealArguments) :
    (sealEpochTransactional parameters request arguments).Ensures here
      (fun result next => ∃ authorized unsigned verified sealTimestampNs,
        SealedEpoch parameters here request arguments authorized unsigned verified sealTimestampNs
          result.2 next ∧ verified.signed = result.1)
      fun _ next => Quiet parameters here (.sealEpoch request arguments) next := by
  unfold sealEpochTransactional
  rw [ensures_bind]
  apply (authorize_spec (.sealEpoch request arguments)).weaken
  intro authorized mid held
  simp only [ensures_bind, ensures_get, refuseWhen, ensures_throwIf, ensures_translate,
    ensures_orRefusal, ensures_orThrow]
  refine ⟨fun _ => held.quiet, fun room => ⟨fun _ => held.quiet, fun _ =>
    ⟨?_, fun _ _ => held.quiet⟩⟩⟩
  rintro ⟨unsigned, nextCheckpoint⟩ sealing
  refine ⟨fun verified accepted => ⟨fun persisted _ => ⟨fun _ _ => ?_, fun _ _ => held.quiet⟩,
    fun _ => held.quiet⟩, fun _ _ => held.quiet⟩
  simp only [nextTimestamp, onWitness, ensures_bind, ensures_get, ensures_set, ensures_pure,
    ensures_onPart, ensures_translate, emitRecord, ensures_modify]
  have signed := verified_signed accepted
  rw [held.receiptChain, held.logs.witness] at sealing
  rw [held.receiptChain] at room
  refine ⟨authorized, unsigned, verified, (parameters.timestampNs mid.clock).1, ?_, signed⟩
  refine ⟨held.minted, sealing, signed, Nat.not_lt.mp room, held.logs.append rfl rfl, held.asked,
    held.actor, ?_⟩
  rw [signed, held.receiptChain]

/-! ### Mediation -/

variable (parameters here access)

/-- A success: after the decision, one record of the operation was appended. -/
def Succeeded (next : ContextRuntime ρ κ) : Prop :=
  ∃ authorized record, Minted parameters.capabilities here.authority here.actor access.request
      access.operation authorized ∧
    record.actionKind = access.operation.actionKind.asU8 ∧
    Logs parameters here [authorized.recordOf parameters.witness .proofVerifiedP1, record] next

inductive Ended : Access → Except Stop AccessReply → ContextRuntime ρ κ → Prop
  | refused {access : Access} {next : ContextRuntime ρ κ} (reason : Stop) :
      Quiet parameters here access next → Ended access (.error reason) next
  | completed {access : Access} {reply : AccessReply} {next : ContextRuntime ρ κ}
      (authorized : AuthorizedRequest) : access.operation ≠ .sealReceipt →
      Completed parameters here access authorized next →
      Sound parameters.witness.sha256 here.actor access reply → Ended access (.ok reply) next
  | sealedEpoch {request : ContextRequest} {arguments : SealArguments}
      {authorized : AuthorizedRequest} {unsigned : ContextEpochReceipt}
      {verified : VerifiedContextEpochReceipt parameters.witness.sha256} {sealTimestampNs : Nat}
      {nextCheckpoint : WitnessCheckpoint} {next : ContextRuntime ρ κ} :
      SealedEpoch parameters here request arguments authorized unsigned verified sealTimestampNs
        nextCheckpoint next →
      Ended (.sealEpoch request arguments) (.ok (.epochSealed verified.signed nextCheckpoint)) next

variable {parameters here access}

theorem Answers.ended {call : RuntimeCall ρ κ α} {reply : α → AccessReply}
    (answers : Answers parameters here access call reply)
    (plain : access.operation ≠ .sealReceipt) :
    (reply <$> call).Ensures here
      (fun value next => Ended parameters here access (.ok value) next)
      fun reason next => Ended parameters here access (.error reason) next := by
  rw [ensures_map]
  apply answers.mono
  · intro value next ⟨⟨authorized, completed⟩, sound⟩
    exact .completed authorized plain completed sound
  · exact fun reason _ quiet => .refused reason quiet

theorem permits_ended {call : RuntimeCall ρ κ α} {reply : α → AccessReply}
    (plain : access.operation ≠ .sealReceipt) (permits : call.Permits here
      (fun _ next => ∃ authorized, Completed parameters here access authorized next)
      fun _ next => Quiet parameters here access next)
    (sound : ∀ value, Sound parameters.witness.sha256 here.actor access (reply value)) :
    (reply <$> call).Permits here
      (fun value next => Ended parameters here access (.ok value) next)
      fun reason next => Ended parameters here access (.error reason) next := by
  rw [permits_map]
  apply permits.mono
  · intro value next ⟨authorized, completed⟩
    exact .completed authorized plain completed (sound value)
  · exact fun reason _ quiet => .refused reason quiet

theorem SealedEpoch.seals {request : ContextRequest} {arguments : SealArguments}
    {unsigned : ContextEpochReceipt}
    {verified : VerifiedContextEpochReceipt parameters.witness.sha256} {sealTimestampNs : Nat}
    {nextCheckpoint : WitnessCheckpoint}
    (sealedEpoch : SealedEpoch parameters here request arguments authorized unsigned verified
      sealTimestampNs nextCheckpoint next) :
    ∃ (snapshot : WitnessSnapshot) (copied : List WitnessRecord) (first : WitnessRecord)
      (rest : List WitnessRecord),
      (parameters.witness.logged here.witness
        (authorized.recordOf parameters.witness .proofVerifiedP1)).snapshotSince
          parameters.witness.capacity here.receiptChain.nextCheckpoint arguments.scratch =
        (.ok snapshot, copied) ∧
      nextCheckpoint = snapshot.endCheckpoint ∧ copied.take snapshot.count = first :: rest ∧
      ContextEpochReceipt.Seals parameters.witness.sha256 parameters.witness.hasher
        here.receiptChain.nextEpochId here.receiptChain.nextCheckpoint first rest
        here.receiptChain.previousReceiptId arguments.commitments unsigned := by
  have sealing := sealedEpoch.sealing
  unfold sealFromLog at sealing
  dsimp only at sealing
  split at sealing
  · cases sealing
  · rename_i snapshot taken
    split at sealing
    · cases sealing
    · rename_i receipt records
      cases sealing
      obtain ⟨first, rest, copied, seals⟩ := seals_of_sealRecords records
      exact ⟨snapshot, _, first, rest, Prod.ext taken rfl, rfl, copied, seals⟩

theorem seal_ended (request : ContextRequest) (arguments : SealArguments) :
    ((fun result => AccessReply.epochSealed result.1 result.2) <$>
      sealEpochTransactional parameters request arguments).Ensures here
      (fun reply next => Ended parameters here (.sealEpoch request arguments) (.ok reply) next)
      fun reason next => Ended parameters here (.sealEpoch request arguments) (.error reason)
        next := by
  rw [ensures_map]
  apply (sealEpochTransactional_spec request arguments).mono
  · rintro ⟨receipt, nextCheckpoint⟩ next ⟨authorized, unsigned, verified, _, sealedEpoch, rfl⟩
    exact .sealedEpoch sealedEpoch
  · exact fun reason _ quiet => .refused reason quiet

/-- The accesses that change no capability. -/
def Access.isAdministrative : Access → Bool
  | .grant _ _ _ _ | .revoke _ => true
  | _ => false

/-- Every access that changes no capability has an outcome of its kind, whatever the
backend does. -/
theorem serve_ensures (fuel : Nat) (access : Access) (plain : access.isAdministrative = false) :
    (serve parameters fuel access).Ensures here
      (fun reply next => Ended parameters here access (.ok reply) next)
      fun reason next => Ended parameters here access (.error reason) next := by
  cases access with
  | resolve request => exact (resolve_answers request).ended nofun
  | list request limit => exact (list_answers request limit).ended nofun
  | tree request limit => exact (tree_answers request limit).ended nofun
  | read request => exact (read_answers request).ended nofun
  | search request query limit => exact (search_answers request query limit).ended nofun
  | history request limit => exact (history_answers request limit).ended nofun
  | verify request => exact (verify_answers request).ended nofun
  | put request rvf => exact (put_answers request rvf).ended nofun
  | compareAndSwapAlias request expected nextRevision =>
    exact (compareAndSwapAlias_answers request expected nextRevision).ended nofun
  | forget request expected => exact (forget_answers request expected).ended nofun
  | authorizeExecute request => exact (authorizeExecute_answers request).ended nofun
  | sealEpoch request arguments => exact seal_ended request arguments
  | grant _ _ _ _ => cases plain
  | revoke _ => cases plain

theorem serve_permits (fuel : Nat) (access : Access) :
    (serve parameters fuel access).Permits here
      (fun reply next => Ended parameters here access (.ok reply) next)
      fun reason next => Ended parameters here access (.error reason) next := by
  cases plain : access.isAdministrative with
  | false => exact (serve_ensures fuel access plain).permits
  | true =>
    cases access with
    | grant request childScope requestedRights targetOwner =>
      exact permits_ended nofun (grant_spec fuel request childScope requestedRights targetOwner)
        fun _ => trivial
    | revoke request => exact permits_ended nofun (revoke_spec fuel request) fun _ => trivial
    | _ => cases plain

theorem serve_ended {fuel : Nat} {outcome : Except Stop AccessReply}
    (ran : (serve parameters fuel access).runFrom here = some (outcome, next)) :
    Ended parameters here access outcome next := by
  have permitted := serve_permits fuel access outcome next ran
  cases outcome with
  | ok reply => exact permitted
  | error reason => exact permitted

/-- A backend is asked only after the decision was recorded, a result is within the request, and
an error leaves decisions only. -/
theorem accessMediated (parameters : RuntimeParameters ρ κ) (fuel : Nat)
    (here : ContextRuntime ρ κ) (access : Access) :
    (access.isAdministrative = false →
      ∃ outcome next, (serve parameters fuel access).runFrom here = some (outcome, next)) ∧
    ∀ outcome next, (serve parameters fuel access).runFrom here = some (outcome, next) →
      AskedOnly parameters here access next ∧
        match outcome with
        | .ok reply => Sound parameters.witness.sha256 here.actor access reply ∧
          Succeeded parameters here access next
        | .error _ => DecidedOnly parameters here next := by
  constructor
  · intro plain
    rcases (serve_ensures fuel access plain).outcome with ⟨reply, next, ran, _⟩ | ⟨e, next, ran, _⟩
    · exact ⟨_, next, ran⟩
    · exact ⟨_, next, ran⟩
  · intro outcome next ran
    cases serve_ended ran with
    | refused reason quiet => exact ⟨quiet.asked, quiet.decided⟩
    | completed authorized plain completed sound =>
      exact ⟨completed.asked, sound, authorized, _, completed.minted, rfl, completed.logs⟩
    | sealedEpoch sealedEpoch =>
      refine ⟨sealedEpoch.asked, ?_, _, _, sealedEpoch.minted, rfl, sealedEpoch.logs⟩
      obtain ⟨_, _, first, rest, _, _, _, seals⟩ := sealedEpoch.seals
      show ContextEpochReceipt.rvfIdentity _ = _
      rw [sealedEpoch.signed]
      exact seals.rvfIdentity

end ContextRuntime

end Rvm.Context
