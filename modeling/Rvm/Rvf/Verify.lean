import Rvm.Rvf.Report

/-!
Owns the verification of a whole package (`rvm-rvf/src/verify.rs`): the facts of
the segments of a buffer and the report over them, and what an admissible report
guarantees of the bytes.
-/

namespace Rvm.Rvf

open Foundation Foundation.Call List ParsedSegment

section Facts

variable (primitives : VerifyPrimitives) (data : List UInt8)

def sigFacts (segment : ParsedSegment) (payload : List UInt8) : Call RvfError Unit SigFacts := do
  if segment.isSigned then
    match segment.footer with
    | none => return .malformed
    | some range =>
      match ← attempt (decodeSignatureFooter (← orPanic (sliceAt data range.start range.stop))) with
      | .error _ => return .malformed
      | .ok footer =>
        return .decoded footer.sigAlgo footer.sigLength (signatureOctets footer.signature)
          (buildSignedMessage segment.header (primitives.shake256 payload))
  else return .unsigned

def factsFromBuffer (segment : ParsedSegment) : Call RvfError Unit SegmentFacts := do
  let payload ← segment.payloadOf data
  let sig ← sigFacts primitives data segment payload
  return {
    contentHashOk :=
      primitives.contentHash segment.header.checksumAlgo payload == segment.header.contentHash
    sig
    payloadSha256 := if segment.isExecutable then some (primitives.sha256 payload) else none
    wasm :=
      if segment.header.segType == segTypeWasm && !segment.header.isEncrypted then
        some (scanPayload primitives.sha256 payload) else none }

def bufferedInput (segments : List ParsedSegment) (facts : List SegmentFacts)
    (metaPayloads : List (List UInt8)) : ReportInput where
  identity := primitives.sha256 data
  containerBytes := data.length
  segments := segments.zip facts
  metaPayloads := metaPayloads
  delivery := .buffered
  identityConfirmed := true

/-- Verify a container without executing any of it. -/
def verify (opts : VerifyOptions) : Call RvfError Unit VerificationReport := do
  let segments ← walk data
  let facts ← segments.mapM (factsFromBuffer primitives data)
  let metaPayloads ← (segments.filter isPlaintextMeta).mapM fun segment =>
    segment.payloadOf data
  return buildReport primitives.toPrimitives
    (bufferedInput primitives data segments facts metaPayloads) opts

end Facts

variable {primitives : VerifyPrimitives} {data : List UInt8} {opts : VerifyOptions}

def Carries (data : List UInt8) (segment : ParsedSegment) (algo length : Nat)
    (signature : List UInt8) : Prop :=
  ∃ range bytes footerLength, segment.footer = some range ∧
    sliceAt data range.start range.stop = some bytes ∧
      (decodeSignatureFooter bytes).runFrom () =
        some (.ok ⟨algo, length, signature, footerLength⟩, ())

structure FactsOf (primitives : VerifyPrimitives) (data : List UInt8) (segment : ParsedSegment)
    (facts : SegmentFacts) (payload : List UInt8) : Prop where
  read : sliceAt data segment.payload.start segment.payload.stop = some payload
  contentHash : facts.contentHashOk = true ↔
    primitives.contentHash segment.header.checksumAlgo payload = segment.header.contentHash
  sha256 : facts.payloadSha256 =
    if segment.isExecutable then some (primitives.sha256 payload) else none
  wasm : facts.wasm =
    if segment.header.segType == segTypeWasm && !segment.header.isEncrypted then
      some (scanPayload primitives.sha256 payload) else none
  unsigned : segment.isSigned = false → facts.sig = .unsigned
  decoded : ∀ algo length signature message, facts.sig = .decoded algo length signature message →
    message = buildSignedMessage segment.header (primitives.shake256 payload) ∧
      ∃ bytes, Carries data segment algo length bytes ∧ signature = signatureOctets bytes

variable {segment : ParsedSegment}

theorem sigFacts_spec (placed : Placed data segment) (payload : List UInt8) :
    (sigFacts primitives data segment payload).Ensures ()
      (fun sig _ => (segment.isSigned = false → sig = .unsigned) ∧
        ∀ algo length signature message, sig = .decoded algo length signature message →
          message = buildSignedMessage segment.header (primitives.shake256 payload) ∧
            ∃ bytes, Carries data segment algo length bytes ∧ signature = signatureOctets bytes)
      fun _ _ => True := by
  unfold sigFacts
  rw [ensures_ite]
  constructor
  · intro signed
    have isSigned : ¬segment.isSigned = false := by simp [signed]
    cases footer : segment.footer with
    | none => exact ⟨fun unsigned => absurd unsigned isSigned, fun _ _ _ _ same => by cases same⟩
    | some range =>
      obtain ⟨start, ordered, within⟩ := placed.behind range footer
      simp only [ensures_bind, ensures_orPanic, ensures_attempt]
      refine ⟨_, sliceAt_eq ordered within, ?_⟩
      apply (decodeSignatureFooter_returns _).traced.mono
      · rintro ⟨algo, length, signature, footerLength⟩ _ ⟨_, ran⟩
        rw [ensures_pure]
        refine ⟨fun unsigned => absurd unsigned isSigned, ?_⟩
        rintro _ _ _ _ ⟨⟩
        exact ⟨rfl, signature, ⟨range, _, footerLength, footer, sliceAt_eq ordered within, ran⟩,
          rfl⟩
      · intro e _ _
        rw [ensures_pure]
        exact ⟨fun unsigned => absurd unsigned isSigned, fun _ _ _ _ same => by cases same⟩
  · intro _
    exact ⟨fun _ => rfl, fun _ _ _ _ same => by cases same⟩

theorem factsFromBuffer_spec (placed : Placed data segment) :
    (factsFromBuffer primitives data segment).Ensures ()
      (fun facts _ => ∃ payload, FactsOf primitives data segment facts payload)
      fun _ _ => True := by
  obtain ⟨payload, read, _⟩ := placed.payload_sliceAt
  unfold factsFromBuffer
  simp only [ensures_bind, payloadOf, ensures_orPanic]
  refine ⟨payload, read, ?_⟩
  apply (sigFacts_spec placed payload).mono _ fun _ _ _ => trivial
  rintro sig _ ⟨unsigned, decoded⟩
  rw [ensures_pure]
  exact ⟨payload, read, beq_iff_eq, rfl, rfl, unsigned, decoded⟩

/-- The code of a segment with this payload: behind the header of a readable WASM
payload that has one, and the payload itself otherwise. -/
def CodeSpan (segment : ParsedSegment) (payload : List UInt8) (offset : Nat)
    (code : List UInt8) : Prop :=
  if segment.header.segType = segTypeWasm ∧ segment.header.isEncrypted = false then
    SplitsInto payload offset code
  else offset = 0 ∧ code = payload

structure Records (sha256 : List UInt8 → Octets 32) (data : List UInt8) (segment : ParsedSegment)
    (executable : VerifiedExecutable) : Prop where
  segmentId : executable.segmentId = segment.header.segmentId
  segmentType : executable.segmentType = segment.header.segType
  code : ∃ payload code, sliceAt data segment.payload.start segment.payload.stop = some payload ∧
    CodeSpan segment payload executable.moduleOffset code ∧
      executable.moduleLength = code.length ∧ executable.moduleSha256 = sha256 code

/-- The plaintext metadata of the container. -/
def MetaOf (data : List UInt8) (segments : List ParsedSegment) (metaPayloads : List (List UInt8)) :
    Prop :=
  List.Forall₂
    (fun segment payload =>
      sliceAt data segment.payload.start segment.payload.stop = some payload)
    (segments.filter isPlaintextMeta) metaPayloads

/-- What the loading rules ask of a container with these segments. -/
structure Verified (primitives : VerifyPrimitives) (data : List UInt8) (opts : VerifyOptions)
    (segments : List ParsedSegment) (report : VerificationReport) : Prop where
  signed : opts.allowUnsignedExecutable = false → ∀ segment ∈ segments,
    segment.isExecutable = true → ∃ payload signature,
      sliceAt data segment.payload.start segment.payload.stop = some payload ∧
        Carries data segment sigAlgoEd25519 ed25519SignatureLength signature.toList ∧
          ∃ key ∈ opts.trustedKeys, primitives.verifyStrict key
            (buildSignedMessage segment.header (primitives.shake256 payload)) signature = true
  hashed : ∀ segment ∈ segments, ∃ payload,
    sliceAt data segment.payload.start segment.payload.stop = some payload ∧
      primitives.contentHash segment.header.checksumAlgo payload = segment.header.contentHash
  manifest : ∃ segment ∈ segments, segment.header.segType = segTypeManifest
  containerBytes : data.length ≤ opts.sizePolicy.maxContainerBytes
  segmentCount : segments.length ≤ opts.sizePolicy.maxSegments
  /-- A buffer has fewer than `2^64` bytes. -/
  budgets : data.length ≤ u64Max → ∀ sizeClass,
    classBytes segments sizeClass ≤ opts.sizePolicy.budgetFor sizeClass
  identity : ∀ expected, opts.expectedIdentity = some expected → primitives.sha256 data = expected
  modules : List.Forall₂ (Records primitives.sha256 data) (segments.filter ParsedSegment.isExecutable)
    report.executables
  capabilities : ∃ metaPayloads, MetaOf data segments metaPayloads ∧
    (∀ declared, report.capabilities.isGranted declared = true ↔
      declared.isRepresentable = true ∧ ∃ payload ∈ metaPayloads, Declares payload declared) ∧
    ∀ payload ∈ metaPayloads, ∀ name ∈ declaredNames payload, name ≠ [] →
      ∃ declared : CapabilityClass, declared.asStr = name

theorem records_of_facts {facts : SegmentFacts} {payload : List UInt8}
    (placed : Placed data segment) (about : FactsOf primitives data segment facts payload)
    (passes : SegmentPasses primitives.toPrimitives opts (segment, facts))
    (executable : segment.isExecutable = true) :
    Records primitives.sha256 data segment (executableOf segment facts) := by
  refine ⟨rfl, rfl, payload, ?_⟩
  show ∃ code, _ ∧ CodeSpan segment payload (moduleIdentity segment facts).1 code ∧
    (moduleIdentity segment facts).2.1 = code.length ∧
      (moduleIdentity segment facts).2.2 = primitives.sha256 code
  have wasm := about.wasm
  unfold CodeSpan moduleIdentity
  by_cases readable : segment.header.segType = segTypeWasm ∧ segment.header.isEncrypted = false
  · rw [if_pos (by simp [readable.1, readable.2])] at wasm
    simp only [wasm, if_pos readable]
    cases found : scanPayload primitives.sha256 payload with
    | rejected reason => exact absurd (found ▸ wasm) (passes.wasm reason)
    | bare span | headed span =>
      obtain ⟨code, splits, length, hash⟩ :=
        @scanPayload_spec primitives.sha256 payload span (by rw [found]; rfl)
      exact ⟨code, about.read, splits, length, hash⟩
  · rw [if_neg (by simpa using readable)] at wasm
    simp only [wasm, if_neg readable]
    obtain ⟨other, read, length⟩ := placed.payload_sliceAt
    obtain rfl : payload = other := Option.some.inj (about.read.symm.trans read)
    refine ⟨payload, about.read, ⟨trivial, rfl⟩, length.symm, ?_⟩
    rw [about.sha256, if_pos executable]
    rfl

theorem exists_facts {segments : List ParsedSegment} {facts : List SegmentFacts}
    {About : ParsedSegment → SegmentFacts → Prop} (about : List.Forall₂ About segments facts)
    (member : segment ∈ segments) :
    ∃ entry ∈ segments.zip facts, entry.1 = segment ∧ About segment entry.2 := by
  rw [← map_fst_zip (Nat.le_of_eq about.length_eq)] at member
  obtain ⟨entry, among, rfl⟩ := mem_map.mp member
  exact ⟨entry, among, rfl, forall₂_zip about among⟩

theorem records_modules {segments : List ParsedSegment} {facts : List SegmentFacts}
    (about : List.Forall₂
      (fun segment facts => ∃ payload, FactsOf primitives data segment facts payload)
      segments facts)
    (placed : ∀ segment ∈ segments, Placed data segment)
    (passes : ∀ entry ∈ segments.zip facts, SegmentPasses primitives.toPrimitives opts entry) :
    List.Forall₂ (Records primitives.sha256 data) (segments.filter ParsedSegment.isExecutable)
      (((segments.zip facts).filter fun entry => entry.1.isExecutable).map fun entry =>
        executableOf entry.1 entry.2) := by
  induction about with
  | nil => exact .nil
  | @cons segment fact segments facts here _ ih =>
    have later := ih (fun other member =>
      placed other (mem_cons_of_mem _ member)) fun entry member =>
      passes entry (mem_cons_of_mem _ member)
    rw [zip_cons_cons]
    by_cases executable : segment.isExecutable = true
    · obtain ⟨payload, factsOf⟩ := here
      rw [filter_cons_of_pos executable,
        filter_cons_of_pos (a := (segment, fact)) executable, map_cons]
      exact .cons (records_of_facts (placed segment mem_cons_self) factsOf
        (passes _ mem_cons_self) executable) later
    · rw [filter_cons_of_neg executable,
        filter_cons_of_neg (a := (segment, fact)) executable]
      exact later

theorem verified_of_passes {segments : List ParsedSegment} {facts : List SegmentFacts}
    {metaPayloads : List (List UInt8)} (placed : ∀ segment ∈ segments, Placed data segment)
    (about : List.Forall₂
      (fun segment facts => ∃ payload, FactsOf primitives data segment facts payload)
      segments facts)
    (metaOf : MetaOf data segments metaPayloads)
    (total : (segments.map fun segment => segment.header.payloadLength).sum ≤ data.length)
    (passes : Passes primitives.toPrimitives opts
      (bufferedInput primitives data segments facts metaPayloads)) :
    Verified primitives data opts segments (buildReport primitives.toPrimitives
      (bufferedInput primitives data segments facts metaPayloads) opts) := by
  have names : ((segments.zip facts).map Prod.fst) = segments :=
    map_fst_zip (Nat.le_of_eq about.length_eq)
  have sizes := passes.sizes
  simp only [bufferedInput, names, checkSizes_eq_nil, tally_eq] at sizes
  refine
    { signed := ?_, hashed := ?_, manifest := ?_, containerBytes := sizes.1,
      segmentCount := sizes.2.1, budgets := ?_, identity := ?_, modules := ?_,
      capabilities := ⟨metaPayloads, metaOf, ?_, ?_⟩ }
  · intro strict segment member executable
    obtain ⟨entry, among, rfl, payload, factsOf⟩ := exists_facts about member
    have segmentPasses := passes.segments entry among
    have signed := (segmentPasses.signed executable).resolve_right (by simp [strict])
    obtain ⟨signature, message, decoded, key, trusted, verified⟩ :=
      signature_of_passes (segmentPasses.signature signed) executable strict
    obtain ⟨built, bytes, carries, same⟩ := factsOf.decoded _ _ _ _ decoded
    rw [built] at verified
    obtain ⟨exact', rfl⟩ : ∃ exact' : bytes.length = 64, signature = ⟨bytes, exact'⟩ := by
      unfold signatureOctets at same
      split at same
      · exact ⟨_, Option.some.inj same⟩
      · cases same
    exact ⟨payload, ⟨bytes, exact'⟩, factsOf.read, carries, key, trusted, verified⟩
  · intro segment member
    obtain ⟨entry, among, rfl, payload, factsOf⟩ := exists_facts about member
    exact ⟨payload, factsOf.read, factsOf.contentHash.mp (passes.segments entry among).contentHash⟩
  · obtain ⟨entry, among, typed⟩ := passes.manifest
    exact ⟨entry.1, (of_mem_zip among).1, typed⟩
  · intro bounded sizeClass
    have charged := sizes.2.2 sizeClass
    have below := classBytes_le segments sizeClass
    omega
  · exact fun expected same => (passes.identity expected same).symm
  · exact records_modules about placed passes.segments
  · intro declared
    rw [isGranted_mapDeclared passes.capabilities, mem_declaredClassesIn]
    refine ⟨fun declares => ⟨passes.representable declared ?_, declares⟩, And.right⟩
    exact mem_declaredClassesIn.mpr declares
  · intro payload member name named nonempty
    have known := passes.known
    simp only [bufferedInput, hasUnknownClassNameIn, any_eq_false, Bool.and_eq_true,
      Bool.not_eq_true', not_and, isEmpty_eq_false_iff, Bool.not_eq_true,
      Option.isNone_eq_false_iff, any_eq_true, not_exists] at known
    obtain ⟨declared, found⟩ := Option.isSome_iff_exists.mp (known payload member name named nonempty)
    exact ⟨declared, CapabilityClass.fromWire_eq_some.mp found⟩

/-- A report that may be acted on tells of a container that keeps every loading rule; where one is
broken it may not be. -/
theorem packageVerification (primitives : VerifyPrimitives) (data : List UInt8)
    (opts : VerifyOptions) :
    (verify primitives data opts).Ensures ()
      (fun report _ => ∃ segments, (walk data).runFrom () = some (.ok segments, ()) ∧
        (report.admissible = true → Verified primitives data opts segments report) ∧
        (¬Verified primitives data opts segments report → report.admissible = false))
      fun _ _ => True := by
  unfold verify
  rw [ensures_bind]
  apply (walk_bytes data).traced.mono _ fun _ _ _ => trivial
  rintro segments _ ⟨⟨placed, total⟩, walked⟩
  rw [ensures_bind]
  apply (ensures_mapM_inOrder fun segment member =>
    factsFromBuffer_spec (placed segment member)).mono _ fun _ _ _ => trivial
  intro facts _ about
  rw [ensures_bind]
  have payloads : ∀ segment ∈ segments.filter ParsedSegment.isPlaintextMeta,
      (segment.payloadOf data : Call RvfError Unit (List UInt8)).Ensures ()
        (fun payload _ =>
          sliceAt data segment.payload.start segment.payload.stop = some payload)
        fun _ _ => True := by
    intro segment member
    obtain ⟨payload, read, _⟩ := (placed segment (List.mem_of_mem_filter member)).payload_sliceAt
    rw [ParsedSegment.payloadOf, ensures_orPanic]
    exact ⟨payload, read, read⟩
  apply (ensures_mapM_inOrder payloads).mono _ fun _ _ _ => trivial
  intro metaPayloads _ metaOf
  rw [ensures_pure]
  have sound := fun admissible => @verified_of_passes _ _ opts _ _ _ placed about metaOf
    total ((buildReport_admissible _).mp admissible).1
  refine ⟨segments, walked, sound, fun broken => ?_⟩
  rw [← Bool.not_eq_true]
  exact fun admissible => broken (sound admissible)

end Rvm.Rvf
