import Mathlib.Data.List.Sort
import Rvm.Context.Capability
import Rvm.Rvf.ContainerWalk

/-!
Owns the context profile of an RVF (`rvm-context/src/profile.rs`): the mapping from
progressive views to segments and its record format. SHA-256 and the verification report of
`rvm-rvf` are parameters.
-/

namespace Rvm.Context

open Foundation Foundation.Call

def contextProfileMagic : List UInt8 := [0x52, 0x55, 0x56, 0x43]

def contextProfileVersion : UInt8 := 1
def maxContextRvfBytes : Nat := 16 * 1024 * 1024
def profileHeaderSize : Nat := 8
def viewRecordSize : Nat := 204
def maxViews : Nat := 3
def segTypeProfile : UInt8 := 0x0B

/-- Trust requirement applied to the profile segment. -/
inductive ProfileTrust where
  | trustedSignature | pinnedIdentity
deriving DecidableEq, Repr

/-- Failure while decoding or binding a context profile. -/
inductive ContextProfileError where
  | encoding (message : String)
  | contentViewRequired | duplicateView | duplicateSegment | invalidProvenance | zeroDigest
  | unverifiedRvf | identityMismatch | profileSegment | untrustedProfile | viewSegment
  | viewDigestMismatch | invalidRvf | rvfTooLarge
deriving DecidableEq, Repr

def isZero (revision : Revision) : Bool := revision.bytes.toList.all (· == 0)

structure DerivedView where
  source : Revision
  generator : Revision
  model : Revision
  prompt : Revision
  policy : Revision
deriving DecidableEq

namespace DerivedView

def digests (derived : DerivedView) : List Revision :=
  [derived.source, derived.generator, derived.model, derived.prompt, derived.policy]

def new (source generator model prompt policy : Revision) :
    Except ContextProfileError DerivedView :=
  let derived : DerivedView := ⟨source, generator, model, prompt, policy⟩
  if derived.digests.any isZero then .error .zeroDigest else .ok derived

end DerivedView

structure ProfileView where
  view : ProgressiveView
  segmentId : Nat
  payload : Revision
  derived : Option DerivedView
deriving DecidableEq

/-- The loop over the segments the views name; `earlier` are those before. -/
def checkSegments : List ProfileView → List ProfileView → Except ContextProfileError Unit
  | _, [] => .ok ()
  | earlier, view :: rest =>
    if view.segmentId = 0 ∨ isZero view.payload then .error .viewSegment
    else if earlier.any fun prior => prior.segmentId == view.segmentId then
      .error .duplicateSegment
    else checkSegments (earlier ++ [view]) rest

def checkDerived (content view : ProfileView) : Except ContextProfileError Unit :=
  if view.view = .content then .ok ()
  else
    match view.derived with
    | none => .error .invalidProvenance
    | some derived =>
      if derived.digests.any isZero then .error .zeroDigest
      else if derived.source ≠ content.payload then .error .invalidProvenance
      else .ok ()

def checkViews (views : List ProfileView) : Except ContextProfileError Unit :=
  if views.isEmpty || decide (views.length > maxViews) then .error .contentViewRequired
  else if (views.zip views.tail).any fun pair => pair.1.view == pair.2.view then
    .error .duplicateView
  else do
    checkSegments [] views
    match views.find? fun view => view.view == .content with
    | none => .error .contentViewRequired
    | some content =>
      if content.derived.isSome then .error .invalidProvenance
      else views.forM (checkDerived content)

structure ContextProfile where
  views : List ProfileView
  passed : checkViews views = .ok ()
deriving DecidableEq

namespace ContextProfile

def new (views : List ProfileView) : Except ContextProfileError ContextProfile :=
  let sorted := views.insertionSort fun left right => compare left.view right.view ≠ .gt
  match passed : checkViews sorted with
  | .ok () => .ok ⟨sorted, passed⟩
  | .error e => .error e

def view (profile : ContextProfile) (requested : ProgressiveView) : Option ProfileView :=
  profile.views.find? fun view => view.view == requested

end ContextProfile

def viewCode : ProgressiveView → UInt8
  | .abstract => 0
  | .overview => 1
  | .content => 2

def viewOfCode (code : UInt8) : Option ProgressiveView :=
  if code = 0 then some .abstract
  else if code = 1 then some .overview
  else if code = 2 then some .content
  else none

def encodeView (view : ProfileView) : List UInt8 :=
  [viewCode view.view, if view.derived.isSome then 1 else 0, 0, 0] ++
    littleEndianBytes 8 view.segmentId ++ view.payload.bytes.toList ++
    match view.derived with
    | some derived => derived.digests.flatMap fun digest => digest.bytes.toList
    | none => List.replicate 160 0

def ContextProfile.toBytes (profile : ContextProfile) : List UInt8 :=
  contextProfileMagic ++ [contextProfileVersion, UInt8.ofNat profile.views.length, 0, 0] ++
    profile.views.flatMap encodeView

def digestAt (data : List UInt8) (offset : Nat) : Call ContextProfileError Unit Revision := do
  return ⟨← orPanic (octetsAt 32 data offset)⟩

def decodeView (data : List UInt8) : Call ContextProfileError Unit ProfileView := do
  throwIf (data.length ≠ viewRecordSize) (.encoding "view record is malformed")
  throwIf ((← orPanic (sliceAt data 2 4)) ≠ [0, 0]) (.encoding "view record is malformed")
  let view ← orThrow (viewOfCode (← orPanic data[0]?)) (.encoding "unknown view")
  let segmentId ← orPanic (littleEndianAt 8 data 4)
  let payload ← digestAt data 12
  let flag ← orPanic data[1]?
  if flag = 0 then
    let absent ← orPanic (sliceAt data 44 data.length)
    throwIf (absent.any (· != 0)) (.encoding "absent provenance is nonzero")
    return ⟨view, segmentId, payload, none⟩
  else if flag = 1 then
    let derived ← orRefusal (DerivedView.new (← digestAt data 44) (← digestAt data 76)
      (← digestAt data 108) (← digestAt data 140) (← digestAt data 172))
    return ⟨view, segmentId, payload, some derived⟩
  else throw (.encoding "invalid provenance flag")

def decodeViewAt (data : List UInt8) (index : Nat) : Call ContextProfileError Unit ProfileView := do
  let start := profileHeaderSize + index * viewRecordSize
  decodeView (← orPanic (sliceAt data start (start + viewRecordSize)))

def ContextProfile.fromBytes (data : List UInt8) :
    Call ContextProfileError Unit ContextProfile := do
  throwIf (data.length < profileHeaderSize) (.encoding "wrong magic or truncated header")
  throwIf ((← orPanic (sliceAt data 0 4)) ≠ contextProfileMagic)
    (.encoding "wrong magic or truncated header")
  throwIf ((← orPanic data[4]?) ≠ contextProfileVersion) (.encoding "unsupported version")
  throwIf ((← orPanic (sliceAt data 6 8)) ≠ [0, 0]) (.encoding "reserved header bytes are nonzero")
  let count := (← orPanic data[5]?).toNat
  throwIf (count = 0 ∨ count > maxViews ∨
    data.length ≠ profileHeaderSize + count * viewRecordSize) (.encoding "wrong view count or length")
  let views ← (List.range count).mapM (decodeViewAt data)
  let profile ← orRefusal (ContextProfile.new views)
  throwIf (profile.toBytes ≠ data) (.encoding "noncanonical view order")
  return profile

/-- The checks of an RVF a report can record. -/
inductive CheckKind where
  | identity | rootManifestPresent | contentHash | executableSigned | signature | sizePolicy
  | capabilityMapping | streamProfile | streamDescriptor | streamSegment | streamPoisoned
  | streamComplete | streamModule | streamFault | wasmHeader
deriving DecidableEq, Repr

inductive CheckOutcome where
  | pass | fail | skip
deriving DecidableEq, Repr

structure VerificationRecord where
  check : CheckKind
  outcome : CheckOutcome
  segmentIndex : Option Nat
  segmentId : Option Nat
deriving DecidableEq, Repr

structure VerificationReport where
  rvfIdentity : Octets 32
  ok : Bool
  identityConfirmed : Bool
  records : List VerificationRecord

def VerificationReport.admissible (report : VerificationReport) : Bool :=
  report.ok && report.identityConfirmed

structure VerifyOptions where
  trustedKeys : List (Octets 32)
  allowUnsignedExecutable : Bool
  expectedIdentity : Option (Octets 32)
  sizePolicy : Rvf.SizePolicy
  permitBufferedStreamProfile : Bool
  requirePinnedIdentity : Bool

def VerifyOptions.withTrustedKeys (keys : List (Octets 32)) : VerifyOptions :=
  ⟨keys, false, none, .failClosed, false, false⟩

/-- The functions of `rvm-rvf` that binding a profile calls. -/
structure RvfPrimitives where
  sha256 : List UInt8 → Octets 32
  verify : List UInt8 → VerifyOptions → Except Rvf.RvfError VerificationReport

structure BoundSegment where
  view : ProgressiveView
  segmentType : UInt8
  payload : Span
deriving DecidableEq

/-- Profile proven to belong to a complete RVF. -/
structure VerifiedContextProfile where
  rvfIdentity : Revision
  profile : ContextProfile
  segments : List BoundSegment
deriving DecidableEq

namespace VerifiedContextProfile

variable (primitives : RvfPrimitives)

/-- Whether a signature of the profile segment passed against a trusted key. -/
def signaturePassed (report : VerificationReport) (segment : Rvf.ParsedSegment) : Bool :=
  segment.header.isSigned && report.records.any fun record =>
    decide (record.check = .signature) && decide (record.outcome = .pass) &&
      decide (record.segmentIndex = some segment.index) &&
      decide (record.segmentId = some segment.header.segmentId)

def findProfile (segments : List Rvf.ParsedSegment) :
    Call ContextProfileError Unit Rvf.ParsedSegment := do
  match segments.filter fun segment => segment.header.segType == segTypeProfile with
  | [] => throw .profileSegment
  | profileSegment :: others =>
    throwIf (others ≠ [] ∨ profileSegment.header.isEncrypted ∨
      profileSegment.header.compression ≠ 0) .profileSegment
    return profileSegment

def bindView (data : List UInt8) (segments : List Rvf.ParsedSegment) (view : ProfileView) :
    Call ContextProfileError Unit BoundSegment := do
  match segments.filter fun segment => segment.header.segmentId == view.segmentId with
  | [] => throw .viewSegment
  | segment :: others =>
    throwIf (others ≠ [] ∨ segment.header.segType = segTypeProfile ∨
      segment.header.compression ≠ 0) .viewSegment
    throwIf (view.view ≠ .content ∧ Rvf.isExecutable segment.header.segType) .viewSegment
    throwIf (primitives.sha256 (← segment.payloadOf data) ≠ view.payload.bytes) .viewDigestMismatch
    return ⟨view.view, segment.header.segType, segment.payload⟩

def bindVerified (data : List UInt8) (report : VerificationReport) (expectedIdentity : Revision)
    (trust : ProfileTrust) : Call ContextProfileError Unit VerifiedContextProfile := do
  let actual := primitives.sha256 data
  throwIf (actual ≠ report.rvfIdentity ∨ actual ≠ expectedIdentity.bytes) .identityMismatch
  throwIf (!report.admissible) .unverifiedRvf
  let segments ← translate (fun _ => .invalidRvf) (Rvf.walk data)
  let profileSegment ← findProfile segments
  throwIf (trust = .trustedSignature ∧ !signaturePassed report profileSegment) .untrustedProfile
  let profile ← ContextProfile.fromBytes (← profileSegment.payloadOf data)
  let bound ← profile.views.mapM (bindView primitives data segments)
  return ⟨expectedIdentity, profile, bound⟩

def fromRvf (data : List UInt8) (expectedIdentity : Revision) (trust : ProfileTrust)
    (trustedKeys : List (Octets 32)) : Call ContextProfileError Unit VerifiedContextProfile := do
  throwIf (data.length > maxContextRvfBytes) .rvfTooLarge
  let options : VerifyOptions :=
    { VerifyOptions.withTrustedKeys trustedKeys with
      expectedIdentity := some expectedIdentity.bytes
      allowUnsignedExecutable := decide (trust = .pinnedIdentity) }
  match primitives.verify data options with
  | .error _ => throw .invalidRvf
  | .ok report => bindVerified primitives data report expectedIdentity trust

variable (profile : VerifiedContextProfile)

def segmentOf (view : ProgressiveView) : Option BoundSegment :=
  profile.segments.find? fun segment => segment.view == view

def isExecutable (view : ProgressiveView) : Bool :=
  (profile.segmentOf view).any fun segment => Rvf.isExecutable segment.segmentType

def payload (data : List UInt8) (view : ProgressiveView) :
    Call ContextProfileError Unit (List UInt8) := do
  throwIf (primitives.sha256 data ≠ profile.rvfIdentity.bytes) .identityMismatch
  let segment ← orThrow (profile.segmentOf view) .viewSegment
  orThrow (sliceAt data segment.payload.start segment.payload.stop) .viewSegment

end VerifiedContextProfile

theorem decodeView_returns (data : List UInt8) :
    (decodeView data).Ensures () (fun _ _ => True) fun _ _ => True := by
  unfold decodeView digestAt
  simp only [ensures_bind, ensures_throwIf, implies_true, true_and, Decidable.not_not]
  intro whole
  have long : data.length = 204 := whole
  simp (disch := omega) [sliceAt_eq, littleEndianAt_eq, octetsAt_exists]

theorem decodeViewAt_returns {data : List UInt8} {index count : Nat} (below : index < count)
    (sized : data.length = profileHeaderSize + count * viewRecordSize) :
    (decodeViewAt data index).Ensures () (fun _ _ => True) fun _ _ => True := by
  have inside : (index + 1) * viewRecordSize ≤ count * viewRecordSize :=
    Nat.mul_le_mul_right _ below
  unfold decodeViewAt
  dsimp only
  rw [sliceAt_eq (by omega) (by rw [Nat.succ_mul] at inside; omega)]
  simp only [ensures_bind, ensures_orPanic, Option.some.injEq, exists_eq_left']
  exact decodeView_returns _

theorem fromBytes_returns (data : List UInt8) :
    (ContextProfile.fromBytes data).Ensures () (fun _ _ => True) fun _ _ => True := by
  unfold ContextProfile.fromBytes
  simp only [ensures_bind, ensures_throwIf, implies_true, true_and, not_lt]
  intro header
  have long : 8 ≤ data.length := header
  simp (disch := omega) only [sliceAt_eq, List.getElem?_eq_getElem, ensures_orPanic,
    Option.some.injEq, exists_eq_left', not_or, Decidable.not_not]
  rintro _ _ _ ⟨_, _, sized⟩
  apply Ensures.mono
  · exact ensures_mapM fun index member =>
      decodeViewAt_returns (List.mem_range.mp member) sized
  · intro views _ _
    simp
  · simp

structure ProfileOf (data : List UInt8) (segments : List Rvf.ParsedSegment)
    (profile : ContextProfile) : Prop where
  walked : (Rvf.walk data).runFrom () = some (.ok segments, ())
  decoded : ∃ segment payload,
    (segments.filter fun segment => segment.header.segType == segTypeProfile) = [segment] ∧
      sliceAt data segment.payload.start segment.payload.stop = some payload ∧
      (ContextProfile.fromBytes payload).runFrom () = some (.ok profile, ())

structure Binds (sha256 : List UInt8 → Octets 32) (data : List UInt8)
    (segments : List Rvf.ParsedSegment) (record : ProfileView) (bound : BoundSegment) : Prop where
  view : bound.view = record.view
  segment : ∃ segment,
    (segments.filter fun segment => segment.header.segmentId == record.segmentId) = [segment] ∧
      segment.header.segType ≠ segTypeProfile ∧ bound.segmentType = segment.header.segType ∧
      bound.payload = segment.payload
  digest : ∃ bytes, sliceAt data bound.payload.start bound.payload.stop = some bytes ∧
    sha256 bytes = record.payload.bytes

def ProfileBound (sha256 : List UInt8 → Octets 32) (data : List UInt8) (view : ProgressiveView)
    (bytes : List UInt8) : Prop :=
  ∃ segments profile record bound, ProfileOf data segments profile ∧ record ∈ profile.views ∧
    record.view = view ∧ Binds sha256 data segments record bound ∧
    sliceAt data bound.payload.start bound.payload.stop = some bytes

namespace VerifiedContextProfile

variable {primitives : RvfPrimitives} {data : List UInt8} {expectedIdentity : Revision}
  {trust : ProfileTrust} {trustedKeys : List (Octets 32)}

theorem findProfile_spec (segments : List Rvf.ParsedSegment) :
    (findProfile segments).Ensures ()
      (fun segment _ =>
        (segments.filter fun segment => segment.header.segType == segTypeProfile) = [segment])
      fun _ _ => True := by
  unfold findProfile
  split
  · exact trivial
  · rename_i segment others found
    simp only [ensures_bind, ensures_throwIf, ensures_pure, implies_true, true_and, not_or]
    intro single
    rw [found, Decidable.not_not.mp single.1]

theorem bindView_spec {segments : List Rvf.ParsedSegment}
    (inside : ∀ segment ∈ segments,
      segment.payload.start ≤ segment.payload.stop ∧ segment.payload.stop ≤ data.length)
    (view : ProfileView) :
    (bindView primitives data segments view).Ensures ()
      (fun bound _ => Binds primitives.sha256 data segments view bound) fun _ _ => True := by
  unfold bindView
  split
  · exact trivial
  · rename_i segment others found
    have member : segment ∈ segments := by
      apply List.mem_of_mem_filter
      rw [found]
      exact List.mem_cons_self
    have read := sliceAt_eq (inside segment member).1 (inside segment member).2
    simp only [ensures_bind, ensures_throwIf, ensures_pure, implies_true, true_and, not_or,
      Rvf.ParsedSegment.payloadOf, read, ensures_orPanic, Option.some.injEq, exists_eq_left',
      Decidable.not_not]
    rintro ⟨rfl, typed, _⟩ _ digest
    exact ⟨rfl, ⟨segment, found, typed, rfl, rfl⟩, _, read, digest⟩

structure Bound (sha256 : List UInt8 → Octets 32) (data : List UInt8) (expectedIdentity : Revision)
    (verified : VerifiedContextProfile) : Prop where
  hashed : sha256 data = expectedIdentity.bytes
  identity : verified.rvfIdentity = expectedIdentity
  segments : ∃ segments, ProfileOf data segments verified.profile ∧
    ∀ bound ∈ verified.segments, ∃ record ∈ verified.profile.views,
      Binds sha256 data segments record bound

theorem bindVerified_spec (report : VerificationReport) :
    (bindVerified primitives data report expectedIdentity trust).Ensures ()
      (fun verified _ => Bound primitives.sha256 data expectedIdentity verified)
      fun _ _ => True := by
  unfold bindVerified
  simp only [ensures_bind, ensures_throwIf, ensures_translate, implies_true, true_and, not_or,
    Decidable.not_not]
  intro identity _
  apply (Rvf.walk_spec data).traced.mono _ fun _ _ _ => trivial
  rintro segments _ ⟨inside, walked⟩
  apply (findProfile_spec segments).mono _ fun _ _ _ => trivial
  intro segment _ found _
  have member : segment ∈ segments := by
    apply List.mem_of_mem_filter
    rw [found]
    exact List.mem_cons_self
  have read := sliceAt_eq (inside segment member).1 (inside segment member).2
  simp only [Rvf.ParsedSegment.payloadOf, read, ensures_orPanic, Option.some.injEq, exists_eq_left']
  apply (fromBytes_returns _).traced.mono _ fun _ _ _ => trivial
  rintro profile _ ⟨_, decoded⟩
  apply (ensures_mapM fun view _ => bindView_spec inside view).mono _ fun _ _ _ => trivial
  intro bound _ binds
  exact ⟨identity.2, rfl, segments, ⟨walked, segment, _, found, read, decoded⟩, binds⟩

theorem fromRvf_spec :
    (fromRvf primitives data expectedIdentity trust trustedKeys).Ensures ()
      (fun verified _ => Bound primitives.sha256 data expectedIdentity verified)
      fun _ _ => True := by
  unfold fromRvf
  simp only [ensures_bind, ensures_throwIf, implies_true, true_and]
  intro _
  split
  · exact trivial
  · exact bindVerified_spec _

theorem payload_spec {verified : VerifiedContextProfile}
    (bound : Bound primitives.sha256 data expectedIdentity verified) (view : ProgressiveView) :
    (verified.payload primitives data view).Ensures ()
      (fun bytes _ => ProfileBound primitives.sha256 data view bytes) fun _ _ => True := by
  unfold payload
  simp only [ensures_bind, ensures_throwIf, ensures_orThrow, implies_true, true_and, and_true]
  intro _ segment found bytes read
  obtain ⟨segments, profileOf, binds⟩ := bound.segments
  obtain ⟨record, member, bindsRecord⟩ := binds segment (List.mem_of_find?_eq_some found)
  have sameView : segment.view = view := by
    simpa using List.find?_some found
  exact ⟨segments, verified.profile, record, segment, profileOf, member,
    bindsRecord.view.symm.trans sameView, bindsRecord, read⟩

end VerifiedContextProfile

end Rvm.Context
