import Mathlib.Algebra.Order.BigOperators.Group.List
import Mathlib.Algebra.Order.Group.Nat
import Rvm.Rvf.Declaration
import Rvm.Rvf.SegmentLayout
import Rvm.Rvf.Stream.Descriptor
import Rvm.Rvf.WasmPayload

/-!
Owns the one rule set that turns the facts of segments into a verification report
(`rvm-rvf/src/{report.rs,policy.rs,verify.rs,detail.rs}`): the size policy, the
records of every check, and which reports may be acted on.
-/

namespace Rvm.Rvf

open Foundation List Function

def segTypeManifest : UInt8 := 0x05
def segTypeMeta : UInt8 := 0x07
def sigAlgoEd25519 : Nat := 0
def ed25519SignatureLength : Nat := 64

def signContext : List UInt8 := utf8 "RVF-v1-segment".toList

/-- The primitives of a whole container: those of a stream, and the two content
hashes. -/
structure VerifyPrimitives extends Primitives where
  xxh3 : List UInt8 → Octets 16
  shake256 : List UInt8 → Octets 16

def VerifyPrimitives.contentHash (primitives : VerifyPrimitives) (algo : UInt8)
    (data : List UInt8) : Octets 16 :=
  if algo = 2 then primitives.shake256 data else primitives.xxh3 data

/-! ### Signed messages -/

def buildSignedMessage (header : SegmentHeader) (payloadHash : Octets 16) : List UInt8 :=
  header.toBytes.take 40 ++ header.contentHash.toList ++ signContext ++
    littleEndianBytes 8 header.segmentId ++ payloadHash.toList

/-! ### Size policy -/

inductive SizeViolation where
  | classBudget (sizeClass : SegmentClass) (declared limit : Nat)
  | containerBytes (declared limit : Nat)
  | segmentCount (declared limit : Nat)
deriving DecidableEq, Repr

def tally (segments : List ParsedSegment) : SegmentClass → Nat :=
  segments.foldl
    (fun t segment =>
      let sizeClass := segmentClass segment.header.segType
      update t sizeClass (saturatingAdd64 (t sizeClass) segment.header.payloadLength))
    fun _ => 0

def segmentClasses : List SegmentClass := [.runtime, .model, .state, .memory]

def checkSizes (containerBytes : Nat) (segments : List ParsedSegment) (policy : SizePolicy) :
    List SizeViolation :=
  (if containerBytes > policy.maxContainerBytes then
    [.containerBytes containerBytes policy.maxContainerBytes] else []) ++
  (if segments.length > policy.maxSegments then
    [.segmentCount segments.length policy.maxSegments] else []) ++
  segmentClasses.filterMap fun sizeClass =>
    let declared := tally segments sizeClass
    let limit := policy.budgetFor sizeClass
    if declared > limit then some (.classBudget sizeClass declared limit) else none

/-! ### Records -/

inductive CheckKind where
  | identity | rootManifestPresent | contentHash | executableSigned | signature | sizePolicy
  | capabilityMapping | streamProfile | streamDescriptor | streamSegment | streamPoisoned
  | streamComplete | streamModule | streamFault | wasmHeader
deriving DecidableEq, Repr

/-- The result of one check. -/
inductive Outcome where
  | pass | fail | skip
deriving DecidableEq, Repr

/-- Why a check of a package produced its outcome. -/
inductive DetailCode where
  | identityMatches | identityMismatch | rootManifestFound | rootManifestMissing
  | contentHashMatches | contentHashMismatch | executableIsSigned | executableIsUnsigned
  | unsignedExecutablePermitted | signatureVerifies | signatureRejected | noTrustedKey
  | unsupportedSignatureAlgorithm | footerMalformed | withinSizePolicy | exceedsSizePolicy
  | capabilitiesMapped | capabilityUnsupported | capabilityUnknown | streamProfileDowngrade
  | streamProfilePermitted | streamProfileSatisfied | identityNotPinned | wasmHeaderAccepted
  | wasmHeaderRejected (reason : WasmPayloadError)
deriving DecidableEq, Repr

structure VerificationRecord where
  check : CheckKind
  outcome : Outcome
  segmentIndex : Option Nat
  segmentId : Option Nat
  segmentType : UInt8
  detail : DetailCode
deriving DecidableEq, Repr

/-- Identity of an executable payload. -/
structure VerifiedExecutable where
  segmentId : Nat
  segmentType : UInt8
  byteLength : Nat
  sha256 : Octets 32
  moduleOffset : Nat
  moduleLength : Nat
  moduleSha256 : Octets 32
deriving DecidableEq

/-- Whether the bytes are exactly the code this identity represents. -/
def VerifiedExecutable.matches (sha256 : List UInt8 → Octets 32) (executable : VerifiedExecutable)
    (module : List UInt8) : Bool :=
  executable.moduleLength == module.length && executable.moduleSha256 == sha256 module

structure VerificationReport where
  rvfIdentity : Octets 32
  byteLength : Nat
  ok : Bool
  identityConfirmed : Bool
  segmentCount : Nat
  executables : List VerifiedExecutable
  records : List VerificationRecord
  capabilities : CapabilityMapping
  sizeViolations : List SizeViolation
deriving DecidableEq

def VerificationReport.admissible (report : VerificationReport) : Bool :=
  report.ok && report.identityConfirmed

structure VerifyOptions where
  trustedKeys : List (Octets 32)
  allowUnsignedExecutable : Bool
  expectedIdentity : Option (Octets 32)
  sizePolicy : SizePolicy
  permitBufferedStreamProfile : Bool
  requirePinnedIdentity : Bool

/-! ### Facts -/

/-- The 64 bytes of an Ed25519 signature, when there are as many. -/
def signatureOctets (signature : List UInt8) : Option (Octets 64) :=
  if exact : signature.length = 64 then some ⟨signature, exact⟩ else none

/-- What a signature footer turned out to be. -/
inductive SigFacts where
  | unsigned
  | malformed
  | decoded (algo length : Nat) (signature : Option (Octets 64)) (message : List UInt8)
deriving DecidableEq

structure SegmentFacts where
  contentHashOk : Bool
  sig : SigFacts
  payloadSha256 : Option (Octets 32)
  wasm : Option WasmPayloadFacts
deriving DecidableEq

inductive Delivery where
  | buffered | streamed
deriving DecidableEq, Repr

structure ReportInput where
  identity : Octets 32
  containerBytes : Nat
  segments : List (ParsedSegment × SegmentFacts)
  metaPayloads : List (List UInt8)
  delivery : Delivery
  identityConfirmed : Bool

/-! ### Building the report -/

def outcome (passed : Bool) : Outcome := if passed then .pass else .fail

def containerRecord (check : CheckKind) (outcome : Outcome) (detail : DetailCode) :
    VerificationRecord :=
  ⟨check, outcome, none, none, 0, detail⟩

def segmentRecord (check : CheckKind) (outcome : Outcome) (segment : ParsedSegment)
    (detail : DetailCode) : VerificationRecord :=
  ⟨check, outcome, some segment.index, some segment.header.segmentId, segment.header.segType,
    detail⟩

namespace ParsedSegment

def isExecutable (segment : ParsedSegment) : Bool := Rvf.isExecutable segment.header.segType

def isSigned (segment : ParsedSegment) : Bool := segment.header.isSigned

/-- Metadata whose declarations are read. -/
def isPlaintextMeta (segment : ParsedSegment) : Bool :=
  segment.header.segType == segTypeMeta && !segment.header.isEncrypted

end ParsedSegment

def rootManifest (segments : List ParsedSegment) : Option ParsedSegment :=
  segments.reverse.find? fun segment => segment.header.segType == segTypeManifest

def rootManifestRecord (segments : List ParsedSegment) : VerificationRecord :=
  match rootManifest segments with
  | some segment => segmentRecord .rootManifestPresent .pass segment .rootManifestFound
  | none => containerRecord .rootManifestPresent .fail .rootManifestMissing

def identityRecords (input : ReportInput) (opts : VerifyOptions) : List VerificationRecord :=
  (if opts.requirePinnedIdentity && opts.expectedIdentity.isNone &&
      decide (input.delivery = .buffered) then
    [containerRecord .identity .fail .identityNotPinned] else []) ++
  match opts.expectedIdentity with
  | none => []
  | some expected =>
    let same := decide (expected = input.identity)
    [containerRecord .identity (outcome same) (if same then .identityMatches else .identityMismatch)]

def sizeRecord (violations : List SizeViolation) : VerificationRecord :=
  containerRecord .sizePolicy (outcome violations.isEmpty)
    (if violations.isEmpty then .withinSizePolicy else .exceedsSizePolicy)

/-- The mapping that grants nothing. -/
def denyAll : CapabilityMapping := ⟨[], CapabilityClass.all⟩

def capabilityRecord (metaPayloads : List (List UInt8)) : CapabilityMapping × VerificationRecord :=
  if hasUnknownClassNameIn metaPayloads then
    (denyAll, containerRecord .capabilityMapping .fail .capabilityUnknown)
  else
    match mapDeclared (declaredClassesIn metaPayloads) with
    | .ok mapping => (mapping, containerRecord .capabilityMapping .pass .capabilitiesMapped)
    | .error _ => (denyAll, containerRecord .capabilityMapping .fail .capabilityUnsupported)

def streamProfileRecord (delivery : Delivery) (opts : VerifyOptions) : VerificationRecord :=
  match delivery with
  | .streamed => containerRecord .streamProfile .pass .streamProfileSatisfied
  | .buffered =>
    if opts.permitBufferedStreamProfile && opts.expectedIdentity.isSome then
      containerRecord .streamProfile .pass .streamProfilePermitted
    else containerRecord .streamProfile .fail .streamProfileDowngrade

def contentHashRecord (segment : ParsedSegment) (facts : SegmentFacts) : VerificationRecord :=
  segmentRecord .contentHash (outcome facts.contentHashOk) segment
    (if facts.contentHashOk then .contentHashMatches else .contentHashMismatch)

def executableSignedRecord (segment : ParsedSegment) (opts : VerifyOptions) : VerificationRecord :=
  if segment.isSigned then segmentRecord .executableSigned .pass segment .executableIsSigned
  else if opts.allowUnsignedExecutable then
    segmentRecord .executableSigned .skip segment .unsignedExecutablePermitted
  else segmentRecord .executableSigned .fail segment .executableIsUnsigned

def wasmHeaderRecord (segment : ParsedSegment) (facts : SegmentFacts) : List VerificationRecord :=
  match facts.wasm with
  | none | some (.bare _) => []
  | some (.headed _) => [segmentRecord .wasmHeader .pass segment .wasmHeaderAccepted]
  | some (.rejected reason) =>
    [segmentRecord .wasmHeader .fail segment (.wasmHeaderRejected reason)]

def verifiesUnder (primitives : Primitives) (keys : List (Octets 32))
    (signature : Option (Octets 64)) (message : List UInt8) : Bool :=
  signature.any fun bytes => keys.any fun raw => primitives.verifyStrict raw message bytes

def signatureRecord (primitives : Primitives) (segment : ParsedSegment) (sig : SigFacts)
    (opts : VerifyOptions) : VerificationRecord :=
  match sig with
  | .unsigned | .malformed => segmentRecord .signature .fail segment .footerMalformed
  | .decoded algo length signature message =>
    if algo ≠ sigAlgoEd25519 ∨ length ≠ ed25519SignatureLength then
      segmentRecord .signature (if segment.isExecutable then .fail else .skip) segment
        .unsupportedSignatureAlgorithm
    else if opts.trustedKeys = [] then
      segmentRecord .signature
        (if segment.isExecutable && !opts.allowUnsignedExecutable then .fail else .skip) segment
        .noTrustedKey
    else
      let verified := verifiesUnder primitives opts.trustedKeys signature message
      segmentRecord .signature (outcome verified) segment
        (if verified then .signatureVerifies else .signatureRejected)

def segmentRecords (primitives : Primitives) (opts : VerifyOptions)
    (entry : ParsedSegment × SegmentFacts) : List VerificationRecord :=
  [contentHashRecord entry.1 entry.2] ++
  (if entry.1.isExecutable then [executableSignedRecord entry.1 opts] else []) ++
  wasmHeaderRecord entry.1 entry.2 ++
  if entry.1.isSigned then [signatureRecord primitives entry.1 entry.2.sig opts] else []

/-- Where the code of an executable is, its length and its hash. -/
def moduleIdentity (segment : ParsedSegment) (facts : SegmentFacts) : Nat × Nat × Octets 32 :=
  match facts.wasm with
  | some (.headed span) | some (.bare span) => (span.offset, span.len, span.sha256)
  | some (.rejected _) => (0, 0, Octets.zero 32)
  | none => (0, segment.header.payloadLength, facts.payloadSha256.getD (Octets.zero 32))

def executableOf (segment : ParsedSegment) (facts : SegmentFacts) : VerifiedExecutable :=
  let module := moduleIdentity segment facts
  { segmentId := segment.header.segmentId
    segmentType := segment.header.segType
    byteLength := segment.header.payloadLength
    sha256 := facts.payloadSha256.getD (Octets.zero 32)
    moduleOffset := module.1
    moduleLength := module.2.1
    moduleSha256 := module.2.2 }

def reportRecords (primitives : Primitives) (input : ReportInput) (opts : VerifyOptions) :
    List VerificationRecord :=
  let segments := input.segments.map Prod.fst
  identityRecords input opts ++
  [rootManifestRecord segments,
    sizeRecord (checkSizes input.containerBytes segments opts.sizePolicy),
    (capabilityRecord input.metaPayloads).2] ++
  (if declaresStreamProfile input.metaPayloads then [streamProfileRecord input.delivery opts]
    else []) ++
  input.segments.flatMap (segmentRecords primitives opts)

def buildReport (primitives : Primitives) (input : ReportInput) (opts : VerifyOptions) :
    VerificationReport :=
  let segments := input.segments.map Prod.fst
  let records := reportRecords primitives input opts
  { rvfIdentity := input.identity
    byteLength := input.containerBytes
    ok := !records.any fun record => decide (record.outcome = .fail)
    identityConfirmed := input.identityConfirmed
    segmentCount := segments.length
    executables := (input.segments.filter fun entry => entry.1.isExecutable).map fun entry =>
      executableOf entry.1 entry.2
    records := records
    capabilities := (capabilityRecord input.metaPayloads).1
    sizeViolations := checkSizes input.containerBytes segments opts.sizePolicy }

/-! ### Size limits -/

def classBytes (segments : List ParsedSegment) (sizeClass : SegmentClass) : Nat :=
  ((segments.filter fun segment => segmentClass segment.header.segType = sizeClass).map
    fun segment => segment.header.payloadLength).sum

theorem classBytes_le (segments : List ParsedSegment) (sizeClass : SegmentClass) :
    classBytes segments sizeClass ≤
      (segments.map fun segment => segment.header.payloadLength).sum := by
  apply List.Sublist.sum_le_sum
  · exact filter_sublist.map _
  · exact fun _ _ => Nat.zero_le _

theorem tally_eq (segments : List ParsedSegment) (sizeClass : SegmentClass) :
    tally segments sizeClass = min (classBytes segments sizeClass) u64Max := by
  suffices loop : ∀ before : SegmentClass → Nat, before sizeClass ≤ u64Max →
      segments.foldl
        (fun t segment =>
          let sizeClass := segmentClass segment.header.segType
          update t sizeClass (saturatingAdd64 (t sizeClass) segment.header.payloadLength))
        before sizeClass = min (before sizeClass + classBytes segments sizeClass) u64Max by
    have total := loop (fun _ => 0) (Nat.zero_le _)
    rwa [Nat.zero_add] at total
  induction segments with
  | nil => exact fun before bounded => (Nat.min_eq_left bounded).symm
  | cons segment rest ih =>
    intro before bounded
    rw [foldl_cons, ih]
    · by_cases same : segmentClass segment.header.segType = sizeClass
      · subst same
        simp only [update_self, classBytes, filter_cons, decide_true, if_true,
          map_cons, sum_cons, saturatingAdd64]
        omega
      · simp [update_of_ne (Ne.symm same), classBytes, same]
    · by_cases same : segmentClass segment.header.segType = sizeClass
      · subst same
        rw [update_self]
        exact Nat.min_le_right _ _
      · rwa [update_of_ne (Ne.symm same)]

theorem checkSizes_eq_nil {containerBytes : Nat} {segments : List ParsedSegment}
    {policy : SizePolicy} : checkSizes containerBytes segments policy = [] ↔
      containerBytes ≤ policy.maxContainerBytes ∧ segments.length ≤ policy.maxSegments ∧
        ∀ sizeClass, tally segments sizeClass ≤ policy.budgetFor sizeClass := by
  have classes : ∀ {Holds : SegmentClass → Prop},
      (∀ sizeClass ∈ segmentClasses, Holds sizeClass) ↔ ∀ sizeClass, Holds sizeClass := by
    intro Holds
    refine ⟨fun all sizeClass => all sizeClass ?_, fun all sizeClass _ => all sizeClass⟩
    cases sizeClass <;> decide
  simp only [checkSizes, append_eq_nil_iff, filterMap_eq_nil_iff, classes, and_assoc]
  simp

/-! ### Which packages pass -/

section Passes

variable (primitives : Primitives) (opts : VerifyOptions)

structure SegmentPasses (entry : ParsedSegment × SegmentFacts) : Prop where
  contentHash : entry.2.contentHashOk = true
  signed : entry.1.isExecutable = true → entry.1.isSigned = true ∨ opts.allowUnsignedExecutable = true
  wasm : ∀ reason, entry.2.wasm ≠ some (.rejected reason)
  signature : entry.1.isSigned = true →
    (signatureRecord primitives entry.1 entry.2.sig opts).outcome ≠ .fail

/-- No record of the package fails. -/
structure Passes (input : ReportInput) : Prop where
  pinned : opts.requirePinnedIdentity = true → opts.expectedIdentity = none →
    input.delivery ≠ .buffered
  identity : ∀ expected, opts.expectedIdentity = some expected → expected = input.identity
  manifest : ∃ entry ∈ input.segments, entry.1.header.segType = segTypeManifest
  sizes : checkSizes input.containerBytes (input.segments.map Prod.fst) opts.sizePolicy = []
  known : hasUnknownClassNameIn input.metaPayloads = false
  representable : ∀ declared ∈ declaredClassesIn input.metaPayloads, declared.isRepresentable = true
  profile : declaresStreamProfile input.metaPayloads = true → input.delivery = .streamed ∨
    opts.permitBufferedStreamProfile = true ∧ opts.expectedIdentity.isSome = true
  segments : ∀ entry ∈ input.segments, SegmentPasses primitives opts entry

variable {primitives opts}

@[simp] theorem outcome_ne_fail (passed : Bool) : outcome passed ≠ .fail ↔ passed = true := by
  cases passed <;> simp [outcome]

theorem rootManifestRecord_ne_fail (segments : List ParsedSegment) :
    (rootManifestRecord segments).outcome ≠ .fail ↔
      ∃ segment ∈ segments, segment.header.segType = segTypeManifest := by
  unfold rootManifestRecord rootManifest
  cases found : segments.reverse.find? fun segment => segment.header.segType == segTypeManifest with
  | none =>
    simp only [containerRecord, ne_eq, not_true_eq_false, false_iff, not_exists, not_and]
    intro segment member same
    have absent := List.find?_eq_none.mp found segment (mem_reverse.mpr member)
    exact absent (beq_iff_eq.mpr same)
  | some segment =>
    simp only [segmentRecord, ne_eq, reduceCtorEq, not_false_eq_true, true_iff]
    exact ⟨segment, mem_reverse.mp (mem_of_find?_eq_some found),
      by simpa using List.find?_some found⟩

theorem capabilityRecord_ne_fail (metaPayloads : List (List UInt8)) :
    (capabilityRecord metaPayloads).2.outcome ≠ .fail ↔
      hasUnknownClassNameIn metaPayloads = false ∧
        ∀ declared ∈ declaredClassesIn metaPayloads, declared.isRepresentable = true := by
  unfold capabilityRecord
  split
  · rename_i unknown
    simp [containerRecord, unknown]
  · rename_i known
    have known : hasUnknownClassNameIn metaPayloads = false := by simpa using known
    cases mapped : mapDeclared (declaredClassesIn metaPayloads) with
    | ok mapping => simpa [containerRecord, known] using (mapDeclared_eq_ok.mp mapped).1
    | error refused =>
      simp only [containerRecord, known, true_and]
      refine iff_of_false (not_not.mpr rfl) fun representable => ?_
      rw [mapDeclared_eq_ok.mpr ⟨representable, rfl⟩] at mapped
      cases mapped

theorem streamProfileRecord_ne_fail (delivery : Delivery) :
    (streamProfileRecord delivery opts).outcome ≠ .fail ↔ delivery = .streamed ∨
      opts.permitBufferedStreamProfile = true ∧ opts.expectedIdentity.isSome = true := by
  cases delivery with
  | streamed => simp [streamProfileRecord, containerRecord]
  | buffered =>
    unfold streamProfileRecord
    dsimp only
    split <;> simp_all [containerRecord]

theorem identityRecords_ne_fail (input : ReportInput) :
    (∀ record ∈ identityRecords input opts, record.outcome ≠ .fail) ↔
      (opts.requirePinnedIdentity = true → opts.expectedIdentity = none →
        input.delivery ≠ .buffered) ∧
      ∀ expected, opts.expectedIdentity = some expected → expected = input.identity := by
  unfold identityRecords
  cases opts.expectedIdentity with
  | none =>
    cases opts.requirePinnedIdentity <;> cases input.delivery <;> simp [containerRecord]
  | some expected => simp [containerRecord]

theorem segmentRecords_ne_fail (entry : ParsedSegment × SegmentFacts) :
    (∀ record ∈ segmentRecords primitives opts entry, record.outcome ≠ .fail) ↔
      SegmentPasses primitives opts entry := by
  have executable : (executableSignedRecord entry.1 opts).outcome ≠ .fail ↔
      entry.1.isSigned = true ∨ opts.allowUnsignedExecutable = true := by
    unfold executableSignedRecord
    split
    · simp_all [segmentRecord]
    · split <;> simp_all [segmentRecord]
  have header : (∀ record ∈ wasmHeaderRecord entry.1 entry.2, record.outcome ≠ .fail) ↔
      ∀ reason, entry.2.wasm ≠ some (.rejected reason) := by
    unfold wasmHeaderRecord
    split <;> simp_all [segmentRecord]
  have split : (∀ record ∈ segmentRecords primitives opts entry, record.outcome ≠ .fail) ↔
      (contentHashRecord entry.1 entry.2).outcome ≠ .fail ∧
        (entry.1.isExecutable = true → (executableSignedRecord entry.1 opts).outcome ≠ .fail) ∧
          (∀ record ∈ wasmHeaderRecord entry.1 entry.2, record.outcome ≠ .fail) ∧
            (entry.1.isSigned = true →
              (signatureRecord primitives entry.1 entry.2.sig opts).outcome ≠ .fail) := by
    unfold segmentRecords
    cases entry.1.isExecutable <;> cases entry.1.isSigned <;>
      simp [or_imp, forall_and]
  rw [split, executable, header, contentHashRecord, segmentRecord, outcome_ne_fail]
  exact ⟨fun ⟨hash, signed, wasm, signature⟩ => ⟨hash, signed, wasm, signature⟩,
    fun passes => ⟨passes.contentHash, passes.signed, passes.wasm, passes.signature⟩⟩

theorem buildReport_ok (input : ReportInput) :
    (buildReport primitives input opts).ok = true ↔ Passes primitives opts input := by
  have records : (buildReport primitives input opts).ok = true ↔
      ∀ record ∈ reportRecords primitives input opts, record.outcome ≠ .fail := by
    simp [buildReport]
  have sizes : (sizeRecord (checkSizes input.containerBytes (input.segments.map Prod.fst)
      opts.sizePolicy)).outcome ≠ .fail ↔
      checkSizes input.containerBytes (input.segments.map Prod.fst) opts.sizePolicy = [] := by
    rw [sizeRecord, containerRecord, outcome_ne_fail, List.isEmpty_iff]
  have parts : (∀ record ∈ reportRecords primitives input opts, record.outcome ≠ .fail) ↔
      (∀ record ∈ identityRecords input opts, record.outcome ≠ .fail) ∧
      (rootManifestRecord (input.segments.map Prod.fst)).outcome ≠ .fail ∧
      (sizeRecord (checkSizes input.containerBytes (input.segments.map Prod.fst)
        opts.sizePolicy)).outcome ≠ .fail ∧
      (capabilityRecord input.metaPayloads).2.outcome ≠ .fail ∧
      (declaresStreamProfile input.metaPayloads = true →
        (streamProfileRecord input.delivery opts).outcome ≠ .fail) ∧
      ∀ entry ∈ input.segments, ∀ record ∈ segmentRecords primitives opts entry,
        record.outcome ≠ .fail := by
    unfold reportRecords
    simp only [forall_mem_append, forall_mem_cons, forall_mem_flatMap,
      not_mem_nil, false_imp_iff, implies_true, and_true, and_assoc]
    cases declaresStreamProfile input.metaPayloads <;> simp
  rw [records, parts, identityRecords_ne_fail, rootManifestRecord_ne_fail, sizes,
    capabilityRecord_ne_fail, streamProfileRecord_ne_fail]
  simp only [segmentRecords_ne_fail]
  constructor
  · rintro ⟨⟨pinned, identity⟩, ⟨segment, member, typed⟩, sizes, ⟨known, representable⟩, profile,
      segments⟩
    obtain ⟨entry, among, rfl⟩ := mem_map.mp member
    exact ⟨pinned, identity, ⟨entry, among, typed⟩, sizes, known, representable, profile, segments⟩
  · intro passes
    obtain ⟨entry, among, typed⟩ := passes.manifest
    exact ⟨⟨passes.pinned, passes.identity⟩, ⟨entry.1, mem_map_of_mem among, typed⟩,
      passes.sizes, ⟨passes.known, passes.representable⟩, passes.profile, passes.segments⟩

theorem buildReport_admissible (input : ReportInput) :
    (buildReport primitives input opts).admissible = true ↔
      Passes primitives opts input ∧ input.identityConfirmed = true := by
  rw [VerificationReport.admissible, Bool.and_eq_true, buildReport_ok]
  rfl

theorem Passes.capabilities {input : ReportInput} (passes : Passes primitives opts input) :
    mapDeclared (declaredClassesIn input.metaPayloads) =
      .ok (buildReport primitives input opts).capabilities := by
  have mapped := mapDeclared_eq_ok.mpr ⟨passes.representable, rfl⟩
  rw [buildReport, capabilityRecord, if_neg (by simp [passes.known]), mapped]

theorem signature_of_passes {segment : ParsedSegment} {sig : SigFacts}
    (passed : (signatureRecord primitives segment sig opts).outcome ≠ .fail)
    (executable : segment.isExecutable = true) (strict : opts.allowUnsignedExecutable = false) :
    ∃ signature message,
      sig = .decoded sigAlgoEd25519 ed25519SignatureLength (some signature) message ∧
      ∃ key ∈ opts.trustedKeys, primitives.verifyStrict key message signature = true := by
  cases sig with
  | unsigned => exact absurd rfl passed
  | malformed => exact absurd rfl passed
  | decoded algo length signature message =>
    rw [signatureRecord] at passed
    by_cases supported : algo ≠ sigAlgoEd25519 ∨ length ≠ ed25519SignatureLength
    · rw [if_pos supported, if_pos executable] at passed
      exact absurd rfl passed
    · rw [if_neg supported] at passed
      by_cases trusting : opts.trustedKeys = []
      · rw [if_pos trusting, if_pos (by simp [executable, strict])] at passed
        exact absurd rfl passed
      · rw [if_neg trusting] at passed
        dsimp only at passed
        rw [segmentRecord, outcome_ne_fail, verifiesUnder, Option.any_eq_true] at passed
        obtain ⟨bytes, rfl, verified⟩ := passed
        simp only [not_or, not_not] at supported
        obtain ⟨rfl, rfl⟩ := supported
        exact ⟨bytes, message, rfl, by simpa using verified⟩

end Passes

end Rvm.Rvf
