import Rvm.Context.Capability
import Rvm.Foundation.Call
import Rvm.Types.Basic

/-!
Owns the resolver contract of `rvm-context/src/resolver.rs`: logical names, alias
snapshots with their generations, the results of resolution and search, and the
operations of a backend.
-/

namespace Rvm.Context

open Foundation Foundation.Call

def maxRvfBytes : Nat := 16 * 1024 * 1024
def maxSearchQueryBytes : Nat := 4 * 1024
def maxEnumResults : Nat := 64

def sameLogicalName (left right : RuvUri) : Bool :=
  decide (left.authority = right.authority) && decide (left.tenant = right.tenant) &&
    decide (left.subject = right.subject) && decide (left.collection = right.collection) &&
    decide (left.path = right.path)

def isWithin (root candidate : RuvUri) : Bool :=
  decide (root.authority = candidate.authority) && decide (root.tenant = candidate.tenant) &&
    decide (root.subject = candidate.subject) && decide (root.collection = candidate.collection) &&
    pathHasPrefix candidate.path root.path

/-- What two names of one logical object share. -/
structure LogicalName where
  authority : Authority
  tenant : TenantId
  subject : Subject
  collection : Collection
  path : List PathSegment
deriving DecidableEq

def RuvUri.logicalName (uri : RuvUri) : LogicalName :=
  ⟨uri.authority, uri.tenant, uri.subject, uri.collection, uri.path⟩

@[simp]
theorem sameLogicalName_iff {left right : RuvUri} :
    sameLogicalName left right = true ↔ left.logicalName = right.logicalName := by
  simp [sameLogicalName, RuvUri.logicalName, and_assoc]

@[ext]
structure AliasGeneration where
  value : Nat
  nonzero : value ≠ 0
  bounded : value ≤ u64Max

instance : DecidableEq AliasGeneration := fun left right =>
  decidable_of_iff (left.value = right.value) AliasGeneration.ext_iff.symm

namespace AliasGeneration

def initial : AliasGeneration := ⟨1, by decide, by decide⟩

def new (value : Nat) : Option AliasGeneration :=
  if valid : value ≠ 0 ∧ value ≤ u64Max then some ⟨value, valid.1, valid.2⟩ else none

def checkedNext (generation : AliasGeneration) : Except ContextError AliasGeneration :=
  if bounded : generation.value + 1 ≤ u64Max then
    .ok ⟨generation.value + 1, Nat.succ_ne_zero _, bounded⟩
  else .error .aliasGenerationExhausted

theorem checkedNext_value {generation next : AliasGeneration}
    (advanced : generation.checkedNext = .ok next) : next.value = generation.value + 1 := by
  unfold checkedNext at advanced
  split at advanced
  · cases advanced
    rfl
  · cases advanced

end AliasGeneration

/-- A name without revision and view. -/
def RuvUri.isVersionless (uri : RuvUri) : Bool := !uri.isPinned && uri.view.isNone

/-- Complete compare-and-swap state of a versionless alias. -/
structure AliasSnapshot where
  aliasUri : RuvUri
  revision : Revision
  generation : AliasGeneration
  tombstone : Bool
  versionless : aliasUri.isVersionless = true
deriving DecidableEq

/-- Refuses pinned aliases and view-qualified aliases. -/
def AliasSnapshot.new (aliasUri : RuvUri) (revision : Revision) (generation : AliasGeneration)
    (tombstone : Bool) : Except ContextError AliasSnapshot :=
  if versionless : aliasUri.isVersionless = true then
    .ok ⟨aliasUri, revision, generation, tombstone, versionless⟩
  else .error .versionlessUriRequired

/-- Metadata returned after resolving a target to one immutable revision. -/
structure ResolvedContext where
  pinnedUri : PinnedRuvUri
  revision : Revision
  aliasSnapshot : Option AliasSnapshot
  rvfLen : Nat
deriving DecidableEq

/-- One bounded result from a governed search. -/
structure ContextHit where
  pinnedUri : PinnedRuvUri
  revision : Revision
  score : Nat
  aliasGeneration : Option AliasGeneration
deriving DecidableEq

/-- Governed resolver operations over a backend `ρ`. -/
structure ContextResolver (ρ : Type) where
  resolve : AuthorizedRequest → Call ContextError ρ ResolvedContext
  list : AuthorizedRequest → Nat → Call ContextError ρ (List ResolvedContext)
  tree : AuthorizedRequest → Nat → Call ContextError ρ (List ResolvedContext)
  read : AuthorizedRequest → Call ContextError ρ (ResolvedContext × List UInt8)
  search : AuthorizedRequest → List UInt8 → Nat → Call ContextError ρ (List ContextHit)
  history : AuthorizedRequest → Nat → Call ContextError ρ (List ResolvedContext)
  verify : AuthorizedRequest → Call ContextError ρ (ResolvedContext × List UInt8)
  put : AuthorizedRequest → List UInt8 → Call ContextError ρ ResolvedContext
  compareAndSwapAlias : AuthorizedRequest → Option AliasSnapshot → Revision →
    Call ContextError ρ AliasSnapshot
  forget : AuthorizedRequest → AliasSnapshot → Call ContextError ρ AliasSnapshot
  prepareExecute : AuthorizedRequest → Call ContextError ρ (ResolvedContext × List UInt8)

inductive ResolverCall where
  | resolve (request : AuthorizedRequest)
  | list (request : AuthorizedRequest) (limit : Nat)
  | tree (request : AuthorizedRequest) (limit : Nat)
  | read (request : AuthorizedRequest)
  | search (request : AuthorizedRequest) (query : List UInt8) (limit : Nat)
  | history (request : AuthorizedRequest) (limit : Nat)
  | verify (request : AuthorizedRequest)
  | put (request : AuthorizedRequest) (rvf : List UInt8)
  | compareAndSwapAlias (request : AuthorizedRequest) (expected : Option AliasSnapshot)
      (nextRevision : Revision)
  | forget (request : AuthorizedRequest) (expected : AliasSnapshot)
  | prepareExecute (request : AuthorizedRequest)
deriving DecidableEq

/-- What a successful call returns. -/
inductive ResolverReply where
  | resolved (resolved : ResolvedContext)
  | bytes (resolved : ResolvedContext) (rvf : List UInt8)
  | entries (entries : List ResolvedContext)
  | hits (hits : List ContextHit)
  | snapshot (snapshot : AliasSnapshot)
deriving DecidableEq

def ContextResolver.serve {ρ : Type} (resolver : ContextResolver ρ) :
    ResolverCall → Call ContextError ρ ResolverReply
  | .resolve request => ResolverReply.resolved <$> resolver.resolve request
  | .list request limit => ResolverReply.entries <$> resolver.list request limit
  | .tree request limit => ResolverReply.entries <$> resolver.tree request limit
  | .read request => (fun result => .bytes result.1 result.2) <$> resolver.read request
  | .search request query limit => ResolverReply.hits <$> resolver.search request query limit
  | .history request limit => ResolverReply.entries <$> resolver.history request limit
  | .verify request => (fun result => .bytes result.1 result.2) <$> resolver.verify request
  | .put request rvf => ResolverReply.resolved <$> resolver.put request rvf
  | .compareAndSwapAlias request expected nextRevision =>
    ResolverReply.snapshot <$> resolver.compareAndSwapAlias request expected nextRevision
  | .forget request expected => ResolverReply.snapshot <$> resolver.forget request expected
  | .prepareExecute request =>
    (fun result => .bytes result.1 result.2) <$> resolver.prepareExecute request

end Rvm.Context
