import Rvm.Context.Profile
import Rvm.Context.QueryMatcher
import Rvm.Context.Resolver

/-!
Owns the bounded in-memory resolver of `rvm-context/src/resolver.rs`: its tables
of immutable objects and aliases, the reads, the governed search and the three
writes. Indices out of range panic.
-/

namespace Rvm.Context

open Foundation Foundation.Call

def tombstoneDomain : List UInt8 := utf8 "RUV-CONTEXT-TOMBSTONE-V1".toList

structure StoredObject where
  canonicalUri : RuvUri
  revision : Revision
  rvf : List UInt8
  tombstone : Bool
  forgotten : Bool
deriving DecidableEq

structure StoredAlias where
  snapshot : AliasSnapshot
deriving DecidableEq

/-- Objects are keyed by logical name and revision, aliases by logical name. -/
structure MemoryResolver where
  objects : List StoredObject
  aliases : List StoredAlias
deriving DecidableEq

def StoredObject.isFor (object : StoredObject) (target : RuvUri) (revision : Revision) : Bool :=
  decide (object.revision = revision) && sameLogicalName object.canonicalUri target

/-- A body that no read may release. -/
def StoredObject.isHidden (object : StoredObject) : Bool := object.tombstone || object.forgotten

namespace MemoryResolver

def new : MemoryResolver := ⟨[], []⟩

def ensureOperation {σ : Type} (request : AuthorizedRequest) (expected : ContextOperation) :
    Call ContextError σ (PLift (request.operation = expected)) :=
  if matching : request.operation = expected then pure ⟨matching⟩ else throw .operationMismatch

def objectFor (here : MemoryResolver) (target : RuvUri) (revision : Revision) :
    Option StoredObject :=
  here.objects.find? fun object => object.isFor target revision

def locate (here : MemoryResolver) (target : RuvUri) (revision : Revision) :
    Option (StoredObject × Nat) :=
  here.objects.zipIdx.find? fun entry => entry.1.isFor target revision

def aliasIndex (here : MemoryResolver) (target : RuvUri) : Option Nat :=
  here.aliases.findIdx? fun entry => sameLogicalName entry.snapshot.aliasUri target

def validateEnumerationLimit {σ : Type} (limit : Nat) : Call ContextError σ PUnit :=
  throwIf (limit = 0 ∨ limit > maxEnumResults) .invalidResultLimit

/-! #### Resolving -/

def resolvedFor (here : MemoryResolver) (target : RuvUri) :
    Call ContextError Unit (ResolvedContext × Nat) := do
  match target.revision with
  | some revision =>
    let (object, index) ← orThrow (here.locate target revision) .revisionNotFound
    throwIf object.isHidden .tombstoned
    let pinned ← translate (fun _ => .pinnedUriRequired) (orRefusal (PinnedRuvUri.tryFrom target))
    return (⟨pinned, revision, none, object.rvf.length⟩, index)
  | none =>
    let aliasIndex ← orThrow (here.aliasIndex target) .aliasNotFound
    let snapshot := (← orPanic here.aliases[aliasIndex]?).snapshot
    throwIf snapshot.tombstone .tombstoned
    let (object, index) ← orThrow (here.locate target snapshot.revision) .revisionNotFound
    throwIf (object.isHidden ∨ !sameLogicalName object.canonicalUri target)
      (if object.isHidden then .tombstoned else .revisionConflict)
    let pinned ← translate (fun _ => .invalidTarget)
      (orRefusal (target.withRevision snapshot.revision))
    return (⟨pinned, snapshot.revision, some snapshot, object.rvf.length⟩, index)

def resolvedBytes (here : MemoryResolver) (target : RuvUri) :
    Call ContextError Unit (ResolvedContext × List UInt8) := do
  let (resolved, objectIndex) ← here.resolvedFor target
  return (resolved, (← orPanic here.objects[objectIndex]?).rvf)

/-! #### Enumeration -/

/-- The loop body of `enumerate_aliases`. -/
def enumerateAlias (here : MemoryResolver) (target : RuvUri) (recursive : Bool)
    (entries : List ResolvedContext) (entry : StoredAlias) :
    Call ContextError Unit (List ResolvedContext) := do
  let snapshot := entry.snapshot
  let childDepth := snapshot.aliasUri.path.length
  let rootDepth := target.path.length
  let isDescendant := decide (childDepth > rootDepth) && isWithin target snapshot.aliasUri
  if snapshot.tombstone || !isDescendant || (!recursive && childDepth != rootDepth + 1) then
    return entries
  else
    match here.objectFor snapshot.aliasUri snapshot.revision with
    | none => return entries
    | some object =>
      if object.isHidden then return entries
      else
        let pinned ← translate (fun _ => .invalidTarget)
          (orRefusal (snapshot.aliasUri.withRevision snapshot.revision))
        return entries ++ [⟨pinned, snapshot.revision, some snapshot, object.rvf.length⟩]

def enumerateAliases (here : MemoryResolver) (target : RuvUri) (limit : Nat) (recursive : Bool) :
    Call ContextError Unit (List ResolvedContext) := do
  validateEnumerationLimit limit
  let entries ← here.aliases.foldlM (here.enumerateAlias target recursive) []
  let sorted := entries.insertionSort fun left right => left.pinnedUri.cmp right.pinnedUri ≠ .gt
  return sorted.take limit

/-- The loop body of `history`. -/
def historyEntry (target : RuvUri) (entries : List ResolvedContext) (object : StoredObject) :
    Call ContextError Unit (List ResolvedContext) := do
  if object.isHidden || !sameLogicalName object.canonicalUri target then return entries
  else
    let pinned ← translate (fun _ => .invalidTarget)
      (orRefusal (target.withRevision object.revision))
    return entries ++ [⟨pinned, object.revision, none, object.rvf.length⟩]

def historyEntries (here : MemoryResolver) (target : RuvUri) (limit : Nat) :
    Call ContextError Unit (List ResolvedContext) := do
  validateEnumerationLimit limit
  let aliasIndex ← orThrow (here.aliasIndex target) .aliasNotFound
  throwIf (← orPanic here.aliases[aliasIndex]?).snapshot.tombstone .tombstoned
  let entries ← here.objects.foldlM (historyEntry target) []
  let sorted := entries.insertionSort fun left right => left.revision.cmp right.revision ≠ .gt
  return sorted.take limit

/-! #### Search -/

def compareHits (left right : ContextHit) : Ordering :=
  (compare right.score left.score).then (left.pinnedUri.cmp right.pinnedUri)

/-- The position of the last hit that no later one exceeds (`max_by`). -/
def worstIndex : List (ContextHit × Nat) → Nat
  | [] => 0
  | first :: rest =>
    (rest.foldl (fun worst entry => if compareHits worst.1 entry.1 = .gt then worst else entry)
      first).2

/-- Keep the best hits, at most as many as the limit. -/
def pushTopHit (hits : List ContextHit) (limit : Nat) (hit : ContextHit) :
    Call ContextError Unit (List ContextHit) := do
  if hits.length < limit then return hits ++ [hit]
  else
    let index := worstIndex hits.zipIdx
    let worst ← orPanic hits[index]?
    if compareHits hit worst = .lt then return hits.set index hit
    else return hits

variable (primitives : RvfPrimitives)

def scoreView (object : StoredObject) (requested : Option ProgressiveView)
    (matcher : QueryMatcher) : Call ContextError Unit Nat := do
  let profile ← translate (fun _ => .rvfVerificationFailed)
    (VerifiedContextProfile.fromRvf primitives object.rvf object.revision .pinnedIdentity [])
  let view := requested.getD .overview
  if (profile.profile.view view).isNone then return 0
  else
    let payload ← translate (fun _ => .rvfVerificationFailed)
      (profile.payload primitives object.rvf view)
    matcher.occurrenceCount payload

def searchPinned (here : MemoryResolver) (target : RuvUri) (revision : Revision)
    (matcher : QueryMatcher) (limit : Nat) : Call ContextError Unit (List ContextHit) := do
  match here.objectFor target revision with
  | none => return []
  | some object =>
    if object.isHidden || !sameLogicalName object.canonicalUri target then return []
    else
      let score ← scoreView primitives object target.view matcher
      if score > 0 then
        let pinned ← translate (fun _ => .pinnedUriRequired)
          (orRefusal (PinnedRuvUri.tryFrom target))
        pushTopHit [] limit ⟨pinned, revision, score, none⟩
      else return []

/-- The loop body of an unpinned search. -/
def searchAlias (here : MemoryResolver) (target : RuvUri) (matcher : QueryMatcher) (limit : Nat)
    (hits : List ContextHit) (entry : StoredAlias) : Call ContextError Unit (List ContextHit) := do
  let snapshot := entry.snapshot
  if snapshot.tombstone || !isWithin target snapshot.aliasUri then return hits
  else
    match here.objectFor snapshot.aliasUri snapshot.revision with
    | none => return hits
    | some object =>
      if object.isHidden then return hits
      else
        let score ← scoreView primitives object target.view matcher
        if score = 0 then return hits
        else
          let pinned ← translate (fun _ => .invalidTarget)
            (orRefusal (snapshot.aliasUri.withRevision snapshot.revision))
          pushTopHit hits limit ⟨pinned, snapshot.revision, score, some snapshot.generation⟩

def searchHits (here : MemoryResolver) (target : RuvUri) (query : List UInt8) (limit : Nat) :
    Call ContextError Unit (List ContextHit) := do
  throwIf (query.isEmpty ∨ query.length > maxSearchQueryBytes) .invalidQuery
  throwIf (limit = 0 ∨ limit > maxSearchResults) .invalidResultLimit
  let matcher ← QueryMatcher.new query
  let hits ←
    match target.revision with
    | some revision => searchPinned primitives here target revision matcher limit
    | none => here.aliases.foldlM (searchAlias primitives here target matcher limit) []
  return hits.insertionSort fun left right => compareHits left right ≠ .gt

/-! #### Writes -/

def pushObject (here : MemoryResolver) (object : StoredObject) : MemoryResolver :=
  { here with objects := here.objects ++ [object] }

def put (objectCapacity : Nat) (request : AuthorizedRequest) (rvf : List UInt8) :
    Call ContextError MemoryResolver ResolvedContext := do
  let _ ← ensureOperation request .put
  throwIf (rvf.length > maxRvfBytes) .objectTooLarge
  let pinned ← translate (fun _ => .pinnedUriRequired)
    (orRefusal (PinnedRuvUri.tryFrom request.target))
  let revision := pinned.revision
  throwIf (primitives.sha256 rvf ≠ revision.bytes) .revisionHashMismatch
  let here ← get
  match here.objectFor request.target revision with
  | some existing =>
    throwIf (¬(existing.rvf = rvf ∧ !existing.isHidden ∧
      sameLogicalName existing.canonicalUri request.target)) .revisionConflict
    return ⟨pinned, revision, none, existing.rvf.length⟩
  | none =>
    throwIf (here.objects.length ≥ objectCapacity) .objectTableFull
    modify fun here => here.pushObject ⟨request.target, revision, rvf, false, false⟩
    return ⟨pinned, revision, none, rvf.length⟩

def setAlias (here : MemoryResolver) (index : Nat) (snapshot : AliasSnapshot) : MemoryResolver :=
  { here with aliases := here.aliases.set index ⟨snapshot⟩ }

def pushAlias (here : MemoryResolver) (snapshot : AliasSnapshot) : MemoryResolver :=
  { here with aliases := here.aliases ++ [⟨snapshot⟩] }

theorem versionless_of_shape {operation : ContextOperation} {target : RuvUri}
    (writes : operation = .compareAndSwapAlias ∨ operation = .forget)
    (shape : operation.targetShapeIsValid target = true) : target.isVersionless = true := by
  rcases writes with rfl | rfl
  · exact shape
  · exact shape

/-- `expected = none` means that the alias must be absent. -/
def compareAndSwapAlias (aliasCapacity : Nat) (request : AuthorizedRequest)
    (expected : Option AliasSnapshot) (nextRevision : Revision) :
    Call ContextError MemoryResolver AliasSnapshot := do
  let ⟨matching⟩ ← ensureOperation request .compareAndSwapAlias
  let versionless := versionless_of_shape (.inl matching) request.shape
  throwIf request.target.isPinned .immutableRevision
  let here ← get
  let next ← orThrow (here.objectFor request.target nextRevision) .revisionNotFound
  throwIf next.isHidden .tombstoned
  throwIf (!sameLogicalName next.canonicalUri request.target) .revisionConflict
  match here.aliasIndex request.target with
  | some index =>
    let current := (← orPanic here.aliases[index]?).snapshot
    throwIf current.tombstone .tombstoned
    throwIf (expected ≠ some current) .aliasConflict
    let generation ← orRefusal current.generation.checkedNext
    let snapshot : AliasSnapshot := ⟨request.target, nextRevision, generation, false, versionless⟩
    modify fun here => here.setAlias index snapshot
    return snapshot
  | none =>
    throwIf expected.isSome .aliasConflict
    throwIf (here.aliases.length ≥ aliasCapacity) .aliasTableFull
    let snapshot : AliasSnapshot := ⟨request.target, nextRevision, .initial, false, versionless⟩
    modify fun here => here.pushAlias snapshot
    return snapshot

def tombstonePayload (aliasUri : RuvUri) (expected : AliasSnapshot)
    (generation : AliasGeneration) : List UInt8 :=
  tombstoneDomain ++ [0] ++ utf8 aliasUri.toText ++ [0] ++ expected.revision.bytes.toList ++
    littleEndianBytes 8 generation.value

def insertTombstone (objectCapacity : Nat) (aliasUri : RuvUri) (expected : AliasSnapshot)
    (generation : AliasGeneration) : Call ContextError MemoryResolver Revision := do
  let payload := tombstonePayload aliasUri expected generation
  let revision : Revision := ⟨primitives.sha256 payload⟩
  let here ← get
  match here.objectFor aliasUri revision with
  | some existing =>
    throwIf (¬(existing.tombstone ∧ existing.rvf = payload)) .revisionConflict
    return revision
  | none =>
    throwIf (here.objects.length ≥ objectCapacity) .objectTableFull
    modify fun here => here.pushObject ⟨aliasUri, revision, payload, true, false⟩
    return revision

def forgetObject (target : RuvUri) (object : StoredObject) : StoredObject :=
  if !object.tombstone && sameLogicalName object.canonicalUri target then
    { object with forgotten := true }
  else object

def forgetObjects (here : MemoryResolver) (target : RuvUri) : MemoryResolver :=
  { here with objects := here.objects.map (forgetObject target) }

def forget (objectCapacity : Nat) (request : AuthorizedRequest) (expected : AliasSnapshot) :
    Call ContextError MemoryResolver AliasSnapshot := do
  let ⟨matching⟩ ← ensureOperation request .forget
  let versionless := versionless_of_shape (.inr matching) request.shape
  throwIf request.target.isPinned .immutableRevision
  let here ← get
  let index ← orThrow (here.aliasIndex request.target) .aliasNotFound
  let current := (← orPanic here.aliases[index]?).snapshot
  throwIf current.tombstone .tombstoned
  throwIf (current ≠ expected) .aliasConflict
  let generation ← orRefusal current.generation.checkedNext
  let revision ← insertTombstone primitives objectCapacity request.target expected generation
  let snapshot : AliasSnapshot := ⟨request.target, revision, generation, true, versionless⟩
  modify fun here => (here.forgetObjects request.target).setAlias index snapshot
  return snapshot

/-! #### The contract -/

def readFor {α : Type} (request : AuthorizedRequest) (operation : ContextOperation)
    (look : MemoryResolver → Call ContextError Unit α) : Call ContextError MemoryResolver α := do
  let _ ← ensureOperation request operation
  reading (look (← get))

def verifiedBytes (here : MemoryResolver) (target : RuvUri) :
    Call ContextError Unit (ResolvedContext × List UInt8) := do
  let (resolved, rvf) ← here.resolvedBytes target
  throwIf (primitives.sha256 rvf ≠ resolved.revision.bytes) .revisionHashMismatch
  return (resolved, rvf)

/-- `prepare_execute` takes pinned targets only. -/
def executableBytes (here : MemoryResolver) (target : RuvUri) :
    Call ContextError Unit (ResolvedContext × List UInt8) := do
  throwIf (!target.isPinned) .pinnedUriRequired
  here.resolvedBytes target

def resolver (objectCapacity aliasCapacity : Nat) : ContextResolver MemoryResolver where
  resolve := fun request => readFor request .resolve fun here =>
    Prod.fst <$> here.resolvedFor request.target
  list := fun request limit => readFor request .list fun here =>
    here.enumerateAliases request.target limit false
  tree := fun request limit => readFor request .tree fun here =>
    here.enumerateAliases request.target limit true
  read := fun request => readFor request .read fun here => here.resolvedBytes request.target
  search := fun request query limit => readFor request .search fun here =>
    searchHits primitives here request.target query limit
  history := fun request limit => readFor request .history fun here =>
    here.historyEntries request.target limit
  verify := fun request => readFor request .verify fun here =>
    verifiedBytes primitives here request.target
  put := put primitives objectCapacity
  compareAndSwapAlias := compareAndSwapAlias aliasCapacity
  forget := forget primitives objectCapacity
  prepareExecute := fun request => readFor request .execute fun here =>
    executableBytes here request.target

end MemoryResolver

end Rvm.Context
