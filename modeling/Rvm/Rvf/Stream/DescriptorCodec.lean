import Rvm.Foundation.Codec
import Rvm.Rvf.SegmentLayout
import Rvm.Rvf.Stream.Release

/-!
Owns the encoders of `rvm-rvf/src/stream/descriptor.rs`: the three fixed layouts of a stream
are inverse codecs, so that a decoded descriptor determines all of its bytes but the
signature.
-/

namespace Rvm.Rvf

open Foundation Foundation.Call List StreamEntry VerifiedDescriptor

/-- `to_bytes`: the algorithms are the constants the parser wants, what is reserved is zero. -/
def StreamHeader.toBytes (h : StreamHeader) : List UInt8 :=
  magic ++ littleEndianBytes 2 version ++ littleEndianBytes 2 h.flags ++ [1] ++
    [UInt8.ofNat h.chunkLog2] ++ List.replicate 6 0 ++ h.fileId.toList ++
    littleEndianBytes 8 h.epoch ++ littleEndianBytes 8 h.bodyLen ++ h.rvfIdentity.toList ++
    h.policyHash.toList ++ littleEndianBytes 4 h.segCount ++
    littleEndianBytes 4 (h.segCount * entrySize % 4294967296) ++
    littleEndianBytes 8 h.expiresNs ++ h.signerKeyId.toList ++ List.replicate 8 0

def StreamEntry.toBytes (e : StreamEntry) : List UInt8 :=
  littleEndianBytes 8 e.segId ++ [e.segType] ++ [UInt8.ofNat e.stage] ++
    littleEndianBytes 2 e.flags ++ littleEndianBytes 4 e.requiresMask ++
    littleEndianBytes 8 e.bodyOffset ++ littleEndianBytes 8 e.storedLen ++
    littleEndianBytes 8 e.uncompressedLen ++ e.chunkTableHash.toList

theorem segmentHeaderCodec :
    InverseCodec segmentHeaderSize SegmentHeader.WellFormed SegmentHeader.toBytes
      (@SegmentHeader.parse) where
  length _ wellFormed := SegmentHeader.toBytes_length wellFormed
  parse_toBytes _ _ _ _ wellFormed encoded := SegmentHeader.parse_toBytes wellFormed encoded
  toBytes_parse state block := by
    apply (SegmentHeader.parse_spec block).permits.mono _ fun _ _ _ => trivial
    intro header _ accepted
    rw [accepted.2.2]
    exact ⟨accepted.1, take_append_drop _ _⟩

namespace StreamHeader

/-- The headers that the checks of `parse` let through: flags that agree with the other fields,
and numbers of the widths of the layout. -/
structure WellFormed (h : StreamHeader) : Prop where
  flags : h.flags ≤ flagsKnown
  chunked : chunkedOk h.flags h.chunkLog2 = true
  table : h.segCount * entrySize < 256 ^ 4
  identity : h.flags &&& flagIdentityPresent = 0 → h.rvfIdentity = Octets.zero 32
  segCount : h.segCount < 256 ^ 4
  epoch : h.epoch < 256 ^ 8
  bodyLen : h.bodyLen < 256 ^ 8
  expiresNs : h.expiresNs < 256 ^ 8

def widths : List Nat := [4, 2, 2, 1, 1, 2, 4, 16, 8, 8, 32, 32, 4, 4, 8, 8, 8]

def fields (h : StreamHeader) : List (List UInt8) :=
  [magic, littleEndianBytes 2 version, littleEndianBytes 2 h.flags, [1],
    [UInt8.ofNat h.chunkLog2], littleEndianBytes 2 0, littleEndianBytes 4 0, h.fileId.toList,
    littleEndianBytes 8 h.epoch, littleEndianBytes 8 h.bodyLen, h.rvfIdentity.toList,
    h.policyHash.toList, littleEndianBytes 4 h.segCount,
    littleEndianBytes 4 (h.segCount * entrySize % 4294967296), littleEndianBytes 8 h.expiresNs,
    h.signerKeyId.toList, (Octets.zero 8).toList]

variable {h : StreamHeader}

theorem toBytes_eq : h.toBytes = h.fields.flatten := by
  have reserved : List.replicate 6 (0 : UInt8) = littleEndianBytes 2 0 ++ littleEndianBytes 4 0 :=
    rfl
  have tail : List.replicate 8 (0 : UInt8) = (Octets.zero 8).toList := rfl
  simp [toBytes, fields, reserved, tail]

theorem map_length_fields : h.fields.map List.length = widths := by
  simp [fields, widths, littleEndianBytes_length, magic]

theorem toBytes_length : h.toBytes.length = headerSize := by
  rw [toBytes_eq, length_flatten, map_length_fields]
  rfl

theorem WellFormed.chunkLog2 (wellFormed : h.WellFormed) : h.chunkLog2 < 256 := by
  rcases chunkedOk_bounds wellFormed.chunked with isSegment | ⟨_, below⟩
  · rw [isSegment]
    decide
  · exact Nat.lt_of_le_of_lt below (by decide)

theorem parse_toBytes {σ : Type} {state : σ} {rest b : List UInt8} (wellFormed : h.WellFormed)
    (encoded : h.toBytes ++ rest = b) :
    (parse b).Ensures state (fun parsed next => parsed = h ∧ next = state) fun _ _ => False := by
  have long : 144 ≤ b.length := by
    rw [← encoded, length_append, toBytes_length]
    exact Nat.le_add_right _ _
  have places := cut_flatten h.fields rest
  rw [map_length_fields, ← toBytes_eq, encoded] at places
  simp only [widths, fields, cut, drop_drop, Nat.reduceAdd, List.cons.injEq, and_true] at places
  obtain ⟨mark, current, flags, hashAlg, chunkLog2, sigAlg, reserved, fileId, epoch, bodyLen,
    rvfIdentity, policyHash, segCount, tableLen, expiresNs, signerKeyId, tail⟩ := places
  rw [← drop_zero (l := b)] at mark
  have short : ¬b.length < headerSize := Nat.not_lt.mpr long
  have chunkBack : (UInt8.ofNat h.chunkLog2).toNat = h.chunkLog2 :=
    Nat.mod_eq_of_lt wellFormed.chunkLog2
  have fits : h.flags < 256 ^ 2 := Nat.lt_of_le_of_lt wellFormed.flags (by decide)
  have tableBack : h.segCount * entrySize % 4294967296 = h.segCount * entrySize :=
    Nat.mod_eq_of_lt wellFormed.table
  have known : ¬h.flags > flagsKnown := Nat.not_lt.mpr wellFormed.flags
  have unidentified : ¬(h.flags &&& flagIdentityPresent = 0 ∧ h.rvfIdentity ≠ Octets.zero 32) :=
    fun absent => absent.2 (wellFormed.identity absent.1)
  rw [tableBack] at tableLen
  unfold parse u8At u16At u32At u64At arrayAt
  simp only [ensures_bind, ensures_throwIf, ensures_orPanic, ensures_pure, Option.some.injEq,
    exists_eq_left', short, false_implies, true_implies, true_and,
    not_false_eq_true, getElem?_of_take hashAlg, getElem?_of_take chunkLog2,
    @octetsAt_of_take b 4 0 ⟨magic, rfl⟩ (by omega) mark,
    littleEndianAt_of_take (by omega) current (by decide),
    littleEndianAt_of_take (by omega) flags fits,
    littleEndianAt_of_take (by omega) sigAlg (by decide),
    littleEndianAt_of_take (by omega) reserved (by decide),
    littleEndianAt_of_take (by omega) epoch wellFormed.epoch,
    littleEndianAt_of_take (by omega) bodyLen wellFormed.bodyLen,
    littleEndianAt_of_take (by omega) segCount wellFormed.segCount,
    littleEndianAt_of_take (by omega) tableLen wellFormed.table,
    littleEndianAt_of_take (by omega) expiresNs wellFormed.expiresNs,
    octetsAt_of_take (by omega) fileId, octetsAt_of_take (by omega) rvfIdentity,
    octetsAt_of_take (by omega) policyHash, octetsAt_of_take (by omega) signerKeyId,
    octetsAt_of_take (by omega) tail, chunkBack, wellFormed.chunked, known, unidentified,
    ne_eq, not_true_eq_false]
  exact ⟨⟨magic, rfl⟩, rfl, fun different => different rfl, fun _ => by simp⟩

/-- A header that is accepted is well formed, and every byte of it is in the value or is what
the encoder writes there. -/
theorem toBytes_parse {σ : Type} {state : σ} (b : List UInt8) :
    (parse b).Ensures state (fun h _ => h.WellFormed ∧ h.toBytes ++ b.drop headerSize = b)
      fun _ _ => True := by
  unfold parse
  by_cases short : b.length < headerSize
  · simp [short]
  have long : 144 ≤ b.length := Nat.not_lt.mp short
  simp (disch := omega) only [ensures_bind, ensures_throwIf, ensures_pure, short, ensures_arrayAt,
    ensures_u8At, ensures_u16At, ensures_u32At, ensures_u64At, implies_true, true_and,
    not_false_eq_true, not_or, Bool.not_eq_false, not_not, Nat.not_lt, gt_iff_lt, not_and,
    List.Vector.toList_mk, ne_eq]
  intro _ mark current shape table identity
  obtain ⟨known, hashAlg, sigAlg, reserved, tail, chunked⟩ := shape
  have tableLen := @littleEndianBytes_take b 116 4 (by omega)
  have tableFits := littleEndianValue_take_lt 4 (b.drop 116)
  rw [← table] at tableLen tableFits
  constructor
  · exact ⟨known, chunked, tableFits, identity, littleEndianValue_take_lt 4 _,
      littleEndianValue_take_lt 8 _, littleEndianValue_take_lt 8 _,
      littleEndianValue_take_lt 8 _⟩
  · have versionBytes := @littleEndianBytes_take b 4 2 (by omega)
    have sigAlgBytes := @littleEndianBytes_take b 10 2 (by omega)
    have reservedBytes := @littleEndianBytes_take b 12 4 (by omega)
    have tailBytes : (b.drop 136).take 8 = (Octets.zero 8).toList :=
      congrArg List.Vector.toList tail
    rw [current] at versionBytes
    rw [sigAlg] at sigAlgBytes
    rw [reserved] at reservedBytes
    have tableBack : littleEndianValue ((b.drop 112).take 4) * entrySize % 4294967296 =
        littleEndianValue ((b.drop 112).take 4) * entrySize := Nat.mod_eq_of_lt tableFits
    rw [toBytes_eq]
    refine Eq.trans (congrArg (· ++ _) ?_) (take_append_drop 144 b)
    refine Eq.trans (congrArg List.flatten ?_) (flatten_cut_take widths b)
    simp (disch := omega) only [fields, widths, cut, drop_drop, Nat.reduceAdd,
      littleEndianBytes_take, take_one_drop_eq_of_lt_length, get_eq_getElem,
      UInt8.ofNat_toNat, List.Vector.toList_mk, versionBytes, sigAlgBytes, reservedBytes,
      tailBytes, hashAlg]
    rw [tableBack, tableLen, ← mark, drop_zero]

end StreamHeader

theorem streamHeaderCodec :
    InverseCodec headerSize StreamHeader.WellFormed StreamHeader.toBytes
      (@StreamHeader.parse) where
  length _ _ := StreamHeader.toBytes_length
  parse_toBytes _ _ _ _ wellFormed encoded := StreamHeader.parse_toBytes wellFormed encoded
  toBytes_parse _ block := (StreamHeader.toBytes_parse block).permits

namespace StreamEntry

/-- The numbers have the widths of the row. -/
structure WellFormed (e : StreamEntry) : Prop where
  segId : e.segId < 256 ^ 8
  stage : e.stage < 256
  flags : e.flags < 256 ^ 2
  requiresMask : e.requiresMask < 256 ^ 4
  bodyOffset : e.bodyOffset < 256 ^ 8
  storedLen : e.storedLen < 256 ^ 8
  uncompressedLen : e.uncompressedLen < 256 ^ 8

def widths : List Nat := [8, 1, 1, 2, 4, 8, 8, 8, 32]

def fields (e : StreamEntry) : List (List UInt8) :=
  [littleEndianBytes 8 e.segId, [e.segType], [UInt8.ofNat e.stage], littleEndianBytes 2 e.flags,
    littleEndianBytes 4 e.requiresMask, littleEndianBytes 8 e.bodyOffset,
    littleEndianBytes 8 e.storedLen, littleEndianBytes 8 e.uncompressedLen,
    e.chunkTableHash.toList]

variable {e : StreamEntry}

theorem toBytes_eq : e.toBytes = e.fields.flatten := by
  simp [toBytes, fields]

theorem map_length_fields : e.fields.map List.length = widths := by
  simp [fields, widths, littleEndianBytes_length]

theorem toBytes_length : e.toBytes.length = entrySize := by
  rw [toBytes_eq, length_flatten, map_length_fields]
  rfl

theorem fromBytes_toBytes {σ : Type} {state : σ} {rest b : List UInt8} (wellFormed : e.WellFormed)
    (encoded : e.toBytes ++ rest = b) :
    (fromBytes b).Ensures state (fun parsed next => parsed = e ∧ next = state)
      fun _ _ => False := by
  have long : 72 ≤ b.length := by
    rw [← encoded, length_append, toBytes_length]
    exact Nat.le_add_right _ _
  have places := cut_flatten e.fields rest
  rw [map_length_fields, ← toBytes_eq, encoded] at places
  simp only [widths, fields, cut, drop_drop, Nat.reduceAdd, List.cons.injEq, and_true] at places
  obtain ⟨segId, segType, stage, flags, requiresMask, bodyOffset, storedLen, uncompressedLen,
    chunkTableHash⟩ := places
  have stageBack : (UInt8.ofNat e.stage).toNat = e.stage := Nat.mod_eq_of_lt wellFormed.stage
  rw [← drop_zero (l := b)] at segId
  unfold fromBytes u8At u16At u32At u64At arrayAt
  simp only [ensures_bind, ensures_orPanic, ensures_pure, Option.some.injEq, exists_eq_left',
    getElem?_of_take segType, getElem?_of_take stage,
    littleEndianAt_of_take (by omega) segId wellFormed.segId,
    littleEndianAt_of_take (by omega) flags wellFormed.flags,
    littleEndianAt_of_take (by omega) requiresMask wellFormed.requiresMask,
    littleEndianAt_of_take (by omega) bodyOffset wellFormed.bodyOffset,
    littleEndianAt_of_take (by omega) storedLen wellFormed.storedLen,
    littleEndianAt_of_take (by omega) uncompressedLen wellFormed.uncompressedLen,
    octetsAt_of_take (by omega) chunkTableHash, stageBack, and_self]

theorem toBytes_fromBytes {σ : Type} {state : σ} {b : List UInt8} (long : entrySize ≤ b.length) :
    (fromBytes b).Ensures state
      (fun e _ => e.WellFormed ∧ e.toBytes ++ b.drop entrySize = b) fun _ _ => False := by
  have inside : 72 ≤ b.length := long
  unfold fromBytes
  simp (disch := omega) only [ensures_bind, ensures_pure, ensures_arrayAt, ensures_u8At,
    ensures_u16At, ensures_u32At, ensures_u64At]
  constructor
  · exact ⟨littleEndianValue_take_lt 8 _, UInt8.toNat_lt _, littleEndianValue_take_lt 2 _,
      littleEndianValue_take_lt 4 _, littleEndianValue_take_lt 8 _, littleEndianValue_take_lt 8 _,
      littleEndianValue_take_lt 8 _⟩
  · rw [toBytes_eq]
    refine Eq.trans (congrArg (· ++ _) ?_) (take_append_drop 72 b)
    refine Eq.trans (congrArg List.flatten ?_) (flatten_cut_take widths b)
    simp (disch := omega) only [fields, widths, cut, drop_drop, Nat.reduceAdd,
      littleEndianBytes_take, take_one_drop_eq_of_lt_length, get_eq_getElem,
      UInt8.ofNat_toNat, List.Vector.toList_mk]
    rw [drop_zero]

end StreamEntry

theorem streamEntryCodec :
    InverseCodec entrySize StreamEntry.WellFormed toBytes
      (@StreamEntry.fromBytes) where
  length _ _ := toBytes_length
  parse_toBytes _ _ _ _ wellFormed encoded := fromBytes_toBytes wellFormed encoded
  toBytes_parse state block := by
    by_cases long : entrySize ≤ block.length
    · exact (toBytes_fromBytes long).permits.mono (fun _ _ accepted => accepted)
        fun _ _ _ => trivial
    · -- A row that is too short panics at its last field.
      have missing : octetsAt 32 block 40 = none := dif_neg long
      unfold fromBytes u8At u16At u32At u64At arrayAt
      simp [missing]

theorem scanRow_bytes {h : StreamHeader} {policy : StreamPolicy} {row : Nat × List UInt8}
    {scan : TableScan} (width : row.2.length = entrySize) :
    (scanRow h policy row).Permits scan
      (fun _ next => ∃ e : StreamEntry, next.entries = scan.entries ++ [e] ∧ e.toBytes = row.2)
      fun _ _ => True := by
  unfold scanRow
  rw [permits_bind]
  have read := (fromBytes_spec width).also (streamEntryCodec.toBytes_parse_block scan width)
  apply read.permits.mono _ fun _ _ _ => trivial
  rintro e _ ⟨rfl, accepted⟩
  simp only [permits_bind, permits_get, permits_throwIf, permits_orThrow, permits_orPanic,
    permits_set, implies_true, true_and, and_true]
  intro _ _ _ _ _ _ _ _ _ _ _ _ _ _ _ _
  exact ⟨e, rfl, accepted.2⟩

theorem parseTable_bytes {σ : Type} {table : List UInt8} {h : StreamHeader}
    {policy : StreamPolicy} {state : σ} (rows : table.length = h.segCount * entrySize) :
    (parseTable table h policy).Ensures state
      (fun result _ => (result.1.map toBytes).flatten = table) fun _ _ => True := by
  unfold parseTable
  simp only [ensures_bind, ensures_throwIf, ensures_within, ensures_pure, ensures_get,
    implies_true, true_and]
  intro _ _
  have walk := @ensures_forM StreamError TableScan _ TableScan.empty (fun _ _ => True)
    (scanRow h policy) (chunksExact entrySize table)
    (fun visited scan => scan.entries.map toBytes = visited.map Prod.snd) rfl
    (fun visited row rest here split encoded => by
      have width : row.2.length = entrySize :=
        chunksExact_width (split ▸ mem_append_right _ mem_cons_self)
      apply ((scanRow_spec width).also (scanRow_bytes width)).mono _ fun _ _ _ => trivial
      rintro _ next ⟨_, e, added, bytes⟩
      rw [added, map_append, map_append, encoded, map_singleton, bytes]
      rfl)
  apply walk.mono _ fun _ _ _ => trivial
  intro _ scan encoded _ _ _
  rw [encoded, chunksExact, map_map]
  refine (flatten_blocks entrySize _ table).trans (take_of_length_le ?_)
  rw [rows, Nat.mul_div_cancel _ (by decide)]

def VerifiedDescriptor.signedBytes (d : VerifiedDescriptor) : List UInt8 :=
  d.header.toBytes ++ (d.entries.map toBytes).flatten ++ littleEndianBytes 2 sigLen

/-- A descriptor that is accepted starts with the encodings of its header and its entries, and
only its signature follows them. -/
theorem decodeDescriptor_bytes {σ : Type} (primitives : Primitives) (bytes : List UInt8)
    (policy : StreamPolicy) (state : σ) :
    (decodeDescriptor primitives bytes policy).Ensures state
      (fun d _ => d.header.WellFormed ∧ d.signedBytes = bytes.take (bytes.length - sigLen))
      fun _ _ => True := by
  rw [decodeDescriptor_eq, ensures_bind]
  have read := (StreamHeader.parse_spec bytes state).both (StreamHeader.toBytes_parse bytes)
  apply (decodeFront_spec (read.mono (fun _ _ both => ⟨both.1.1, both.2⟩)
    fun _ _ both => both.1)).mono _ fun _ _ _ => trivial
  rintro ⟨h, rows, dhash, signer⟩ _ ⟨rfl, ⟨wellFormed, encoded⟩, cleared⟩
  unfold decodeTable
  rw [ensures_bind]
  apply (parseTable_bytes cleared.rows_length).mono _ fun _ _ _ => trivial
  intro table _ tableBytes
  refine ⟨wellFormed, ?_⟩
  have length : bytes.length = headerSize + h.segCount * entrySize + (2 + sigLen) := cleared.length
  have trailer := @littleEndianBytes_take bytes (headerSize + h.segCount * entrySize) 2 (by omega)
  have front : h.toBytes = bytes.take headerSize := by
    rw [← encoded, take_left' StreamHeader.toBytes_length]
  have whole : bytes.length - sigLen = headerSize + h.segCount * entrySize + 2 := by
    omega
  rw [cleared.marked] at trailer
  rw [signedBytes, tableBytes, cleared.rows, drop_take,
    Nat.add_sub_cancel_left, trailer, front, whole, take_add, take_add]

def Decodes (primitives : Primitives) (bytes : List UInt8) (d : VerifiedDescriptor) : Prop :=
  ∃ policy, (decodeDescriptor primitives bytes policy).runFrom () = some (.ok d, ())

theorem Decodes.signedBytes_eq {primitives : Primitives} {bytes : List UInt8}
    {d : VerifiedDescriptor} (decodes : Decodes primitives bytes d) :
    d.signedBytes = bytes.take (bytes.length - sigLen) := by
  obtain ⟨policy, accepted⟩ := decodes
  exact ((decodeDescriptor_bytes primitives bytes policy ()).permits _ _ accepted).2

/-- The three codecs are inverse, and two accepted descriptors with one header and one table
agree in every byte that is signed. -/
theorem descriptorCodecs_inverse (primitives : Primitives) :
    InverseCodec segmentHeaderSize SegmentHeader.WellFormed SegmentHeader.toBytes
        (@SegmentHeader.parse) ∧
      InverseCodec headerSize StreamHeader.WellFormed StreamHeader.toBytes
        (@StreamHeader.parse) ∧
      InverseCodec entrySize StreamEntry.WellFormed StreamEntry.toBytes
        (@StreamEntry.fromBytes) ∧
      ∀ left right d e, Decodes primitives left d → Decodes primitives right e →
        d.header = e.header → d.entries = e.entries →
        left.take (left.length - sigLen) = right.take (right.length - sigLen) := by
  refine ⟨segmentHeaderCodec, streamHeaderCodec, streamEntryCodec, ?_⟩
  intro left right d e leftDecodes rightDecodes header entries
  rw [← leftDecodes.signedBytes_eq, ← rightDecodes.signedBytes_eq,
    signedBytes, signedBytes, header, entries]

/-- A stand-in for a scheme in which the signer picks half of the signature. -/
def noncePrimitives : Primitives :=
  { samplePrimitives with
    verifyStrict := fun publicKey _ signature => signature.toList.take 32 = publicKey.toList }

def resignedDescriptor : List UInt8 :=
  sampleDescriptor.take (sampleDescriptor.length - 32) ++ List.replicate 32 8

/-- The sample descriptor, issued again in the next epoch. -/
def reissuedDescriptor : List UInt8 := sampleDescriptor.set 0x20 2

def decodedParts (bytes : List UInt8) : Option (StreamHeader × List StreamEntry) :=
  match (decodeDescriptor noncePrimitives bytes (.new [sampleKey] .unpinned)).runFrom () with
  | some (.ok d, _) => some (d.header, d.entries)
  | _ => none

theorem decodes_of_decodedParts {bytes : List UInt8} {parts : StreamHeader × List StreamEntry}
    (decoded : decodedParts bytes = some parts) :
    ∃ d, Decodes noncePrimitives bytes d ∧ d.header = parts.1 ∧ d.entries = parts.2 := by
  unfold decodedParts at decoded
  split at decoded
  · rename_i d _ accepted
    obtain rfl := Option.some.inj decoded
    exact ⟨d, ⟨_, accepted⟩, rfl, rfl⟩
  · cases decoded

/-- Different signed descriptors decode to one header and one table when they differ in the
signature, and to one table when they differ in the epoch. -/
theorem descriptorsShareTable :
    (∃ d e, Decodes noncePrimitives sampleDescriptor d ∧
      Decodes noncePrimitives resignedDescriptor e ∧ d.header = e.header ∧
      d.entries = e.entries ∧ sampleDescriptor ≠ resignedDescriptor) ∧
    ∃ d e, Decodes noncePrimitives sampleDescriptor d ∧
      Decodes noncePrimitives reissuedDescriptor e ∧ d.header ≠ e.header ∧
      d.entries = e.entries := by
  have resigned : decodedParts resignedDescriptor = decodedParts sampleDescriptor := by
    decide +kernel
  have reissued : (decodedParts reissuedDescriptor).map (fun parts => (parts.1.epoch, parts.2)) =
      (decodedParts sampleDescriptor).map fun parts => (2 * parts.1.epoch, parts.2) := by
    decide +kernel
  have firstEpoch : (decodedParts sampleDescriptor).map (fun parts => parts.1.epoch) = some 1 := by
    decide +kernel
  obtain ⟨parts, first, epoch⟩ := Option.map_eq_some_iff.mp firstEpoch
  rw [first, Option.map_some, epoch] at reissued
  obtain ⟨other, second, facts⟩ := Option.map_eq_some_iff.mp reissued
  obtain ⟨otherEpoch, otherEntries⟩ := Prod.mk.inj facts
  obtain ⟨d, firstDecodes, header, entries⟩ := decodes_of_decodedParts first
  obtain ⟨e, resignedDecodes, sameHeader, sameEntries⟩ :=
    decodes_of_decodedParts (resigned.trans first)
  obtain ⟨later, laterDecodes, laterHeader, laterEntries⟩ := decodes_of_decodedParts second
  refine ⟨⟨d, e, firstDecodes, resignedDecodes, header.trans sameHeader.symm,
    entries.trans sameEntries.symm, by decide +kernel⟩, d, later, firstDecodes, laterDecodes,
    fun same => ?_, entries.trans (otherEntries.symm.trans laterEntries.symm)⟩
  rw [header, laterHeader] at same
  rw [← same, epoch] at otherEpoch
  exact absurd otherEpoch (by decide)

end Rvm.Rvf
