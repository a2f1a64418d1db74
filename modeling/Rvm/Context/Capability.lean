import Rvm.Cap.Table
import Rvm.Context.Uri
import Rvm.Types.Witness

/-!
Owns the request vocabulary of `rvm-context/src/capability.rs` and `error.rs`:
operations with the rights, view and target shape they require, view masks,
trusted scopes, untrusted requests and the requests that were authorized. SHA-256 is a parameter.
-/

namespace Rvm.Context

open Foundation

inductive ContextError where
  | accessDenied | grantTableFull | grantAlreadyBound | scopeEscalation
  | capability (error : Cap.CapError)
  | pinnedUriRequired | versionlessUriRequired | immutableRevision | revisionNotFound
  | revisionConflict | aliasNotFound | aliasConflict | aliasGenerationExhausted | objectTableFull
  | aliasTableFull | objectTooLarge | invalidQuery | invalidResultLimit | tombstoned
  | operationMismatch | revisionHashMismatch | rvfVerificationFailed | receiptSealFailed
  | invalidTarget | resolverScopeViolation | backendUnavailable
deriving DecidableEq, Repr

def maxSearchResults : Nat := 64

structure CapabilityHandle where
  index : Nat
  generation : Nat
deriving DecidableEq, Repr

def viewBits : BitVec 8 := 0x0F#8

/-- The progressive representations a grant may disclose: at least one, and no
reserved bit. -/
structure ContextViewMask where
  bits : BitVec 8
  nonzero : bits ≠ 0#8
  known : bits &&& ~~~viewBits = 0#8
deriving DecidableEq

namespace ContextViewMask

def manifest : ContextViewMask := ⟨0x01#8, by decide, by decide⟩
def abstract : ContextViewMask := ⟨0x02#8, by decide, by decide⟩
def overview : ContextViewMask := ⟨0x04#8, by decide, by decide⟩
def content : ContextViewMask := ⟨0x08#8, by decide, by decide⟩
def all : ContextViewMask := ⟨0x0F#8, by decide, by decide⟩

def fromBits (bits : BitVec 8) : Option ContextViewMask :=
  if valid : bits ≠ 0#8 ∧ bits &&& ~~~viewBits = 0#8 then some ⟨bits, valid.1, valid.2⟩ else none

theorem union_nonzero (left right : ContextViewMask) : left.bits ||| right.bits ≠ 0#8 := by
  intro empty
  apply left.nonzero
  rw [BitVec.or_eq_zero_iff] at empty
  exact empty.1

theorem union_known (left right : ContextViewMask) :
    (left.bits ||| right.bits) &&& ~~~viewBits = 0#8 := by
  rw [BitVec.and_comm, BitVec.and_or_distrib_left, BitVec.and_comm, left.known, BitVec.and_comm,
    right.known]
  decide

def union (left right : ContextViewMask) : ContextViewMask :=
  ⟨left.bits ||| right.bits, union_nonzero left right, union_known left right⟩

def contains (mask other : ContextViewMask) : Bool := mask.bits &&& other.bits == other.bits

end ContextViewMask

def viewBit : ProgressiveView → BitVec 8
  | .abstract => ContextViewMask.abstract.bits
  | .overview => ContextViewMask.overview.bits
  | .content => ContextViewMask.content.bits

inductive ContextOperation where
  | resolve | list | tree | read | search | history | verify | put | compareAndSwapAlias | forget
  | execute | grant | revoke | sealReceipt
deriving DecidableEq, Repr

namespace ContextOperation

def asU8 : ContextOperation → Nat
  | .resolve => 0
  | .list => 1
  | .tree => 2
  | .read => 3
  | .search => 4
  | .history => 5
  | .verify => 6
  | .put => 7
  | .compareAndSwapAlias => 8
  | .forget => 9
  | .execute => 10
  | .grant => 11
  | .revoke => 12
  | .sealReceipt => 13

def requiredRights : ContextOperation → CapRights
  | .resolve | .list | .tree | .read | .search | .history => .read
  | .verify => CapRights.read.union .prove
  | .put | .compareAndSwapAlias | .forget => .write
  | .execute => .execute
  | .grant => .grant
  | .revoke => .revoke
  | .sealReceipt => .prove

/-- The witness action emitted after a successful operation. -/
def actionKind : ContextOperation → ActionKind
  | .resolve | .list | .tree | .history | .verify => .contextResolve
  | .read => .contextRead
  | .search => .contextSearch
  | .put => .contextPut
  | .compareAndSwapAlias => .contextAliasUpdate
  | .forget => .contextForget
  | .execute => .contextExecute
  | .grant => .capabilityGrant
  | .revoke => .capabilityRevoke
  | .sealReceipt => .contextEpochSeal

def requiredViewBit (operation : ContextOperation) : Option ProgressiveView → BitVec 8
  | some view => viewBit view
  | none =>
    match operation with
    | .resolve | .list | .tree | .history | .verify => ContextViewMask.manifest.bits
    | .read => ContextViewMask.content.bits
    | .search => ContextViewMask.overview.bits
    | .put | .compareAndSwapAlias | .forget | .execute | .grant | .revoke | .sealReceipt => 0#8

def targetShapeIsValid (operation : ContextOperation) (target : RuvUri) : Bool :=
  match operation with
  | .put | .verify | .sealReceipt => target.isPinned && target.view.isNone
  | .execute =>
    target.isPinned && target.view.isNone && decide (target.collection = .skills)
  | .list | .tree | .history | .compareAndSwapAlias | .forget =>
    !target.isPinned && target.view.isNone
  | .grant | .revoke => target.view.isNone
  | .resolve | .read | .search => true

end ContextOperation

/-- A trusted namespace and path-prefix binding. -/
structure ContextScope where
  authority : Authority
  tenant : TenantId
  subject : Subject
  collection : Collection
  pathPrefix : List PathSegment
  views : ContextViewMask
deriving DecidableEq

def pathHasPrefix (path leading : List PathSegment) : Bool :=
  decide (path.length ≥ leading.length) && decide (path.take leading.length = leading)

theorem pathHasPrefix_iff {path leading : List PathSegment} :
    pathHasPrefix path leading = true ↔ leading <+: path := by
  simp only [pathHasPrefix, Bool.and_eq_true, decide_eq_true_eq]
  constructor
  · intro both
    exact List.prefix_iff_eq_take.mpr both.2.symm
  · intro leads
    exact ⟨leads.length_le, (List.prefix_iff_eq_take.mp leads).symm⟩

namespace ContextScope

/-- The scope of a name; its revision and view are not part of it. -/
def fromUri (root : RuvUri) (views : ContextViewMask) : ContextScope :=
  ⟨root.authority, root.tenant, root.subject, root.collection, root.path, views⟩

def containsScope (scope child : ContextScope) : Bool :=
  decide (scope.authority = child.authority) && decide (scope.tenant = child.tenant) &&
    decide (scope.subject = child.subject) && decide (scope.collection = child.collection) &&
    pathHasPrefix child.pathPrefix scope.pathPrefix && scope.views.contains child.views

def allows (scope : ContextScope) (target : RuvUri) (operation : ContextOperation) : Bool :=
  if scope.authority ≠ target.authority ∨ scope.tenant ≠ target.tenant ∨
      scope.subject ≠ target.subject ∨ scope.collection ≠ target.collection ∨
      !pathHasPrefix target.path scope.pathPrefix then false
  else
    let requiredView := operation.requiredViewBit target.view
    scope.views.bits &&& requiredView == requiredView

/-- The first eight bytes of the digest, little-endian. -/
def fingerprint (sha256 : List UInt8 → Octets 32) (scope : ContextScope) : Nat :=
  let hashed := utf8 "RUV-CONTEXT-SCOPE-V1".toList ++ utf8 scope.authority.text ++ [0] ++
    utf8 scope.tenant.text ++ [0] ++ utf8 scope.subject.kind.asStr ++ [0] ++
    utf8 scope.subject.id.text ++ [0] ++ utf8 scope.collection.asStr ++
    (scope.pathPrefix.flatMap fun segment => 0xFF :: utf8 segment.text) ++
    [UInt8.ofBitVec scope.views.bits]
  littleEndianValue ((sha256 hashed).toList.take 8)

end ContextScope

/-- One request presented to the governed runtime. -/
structure ContextRequest where
  capability : CapabilityHandle
  operation : ContextOperation
  target : RuvUri
deriving DecidableEq

/-- A request proven against the live capability and trusted scope tables. Only
authorization builds one, after it checked the shape of the target. -/
structure AuthorizedRequest where
  actor : PartitionId
  operation : ContextOperation
  target : RuvUri
  capabilityHash : Nat
  witnessSequence : Nat
  timestampNs : Nat
  shape : operation.targetShapeIsValid target = true
deriving DecidableEq

end Rvm.Context
