import Rvm.Foundation.Postconditions
import Rvm.Rvf.ContainerWalk

/-!
Owns the correspondence between segments and their bytes: parsing is inverse to `to_bytes`
of `rvm-rvf/src/format.rs`, and every segment of a walk has its parts where it says.
-/

namespace Rvm.Rvf

open Foundation Foundation.Call List ParsedSegment

namespace SegmentHeader

def toBytes (header : SegmentHeader) : List UInt8 :=
  header.magic ++ [header.version] ++ [header.segType] ++ littleEndianBytes 2 header.flags ++
    littleEndianBytes 8 header.segmentId ++ littleEndianBytes 8 header.payloadLength ++
    littleEndianBytes 8 header.timestampNs ++ [header.checksumAlgo] ++ [header.compression] ++
    littleEndianBytes 2 header.reserved0 ++ littleEndianBytes 4 header.reserved1 ++
    header.contentHash.toList ++ littleEndianBytes 4 header.uncompressedLen ++
    littleEndianBytes 4 header.alignmentPad

/-- A header of this version whose numbers have the widths of the format. -/
structure WellFormed (header : SegmentHeader) : Prop where
  magic : header.magic = segmentMagicBytes
  version : header.version = segmentVersion
  flags : header.flags < 256 ^ 2
  segmentId : header.segmentId < 256 ^ 8
  payloadLength : header.payloadLength < 256 ^ 8
  timestampNs : header.timestampNs < 256 ^ 8
  reserved0 : header.reserved0 < 256 ^ 2
  reserved1 : header.reserved1 < 256 ^ 4
  uncompressedLen : header.uncompressedLen < 256 ^ 4
  alignmentPad : header.alignmentPad < 256 ^ 4

def fields (header : SegmentHeader) : List (List UInt8) :=
  [header.magic, [header.version], [header.segType], littleEndianBytes 2 header.flags,
    littleEndianBytes 8 header.segmentId, littleEndianBytes 8 header.payloadLength,
    littleEndianBytes 8 header.timestampNs, [header.checksumAlgo], [header.compression],
    littleEndianBytes 2 header.reserved0, littleEndianBytes 4 header.reserved1,
    header.contentHash.toList, littleEndianBytes 4 header.uncompressedLen,
    littleEndianBytes 4 header.alignmentPad]

def widths : List Nat := [4, 1, 1, 2, 8, 8, 8, 1, 1, 2, 4, 16, 4, 4]

variable {σ : Type} {state : σ} {header : SegmentHeader} {data : List UInt8}

theorem toBytes_eq : header.toBytes = header.fields.flatten := by
  simp [toBytes, fields]

theorem map_length_fields (wellFormed : header.WellFormed) :
    header.fields.map List.length = widths := by
  simp [fields, widths, littleEndianBytes_length, wellFormed.magic, segmentMagicBytes]

theorem toBytes_length (wellFormed : header.WellFormed) :
    header.toBytes.length = segmentHeaderSize := by
  rw [toBytes_eq, length_flatten, map_length_fields wellFormed]
  rfl

theorem parse_toBytes (wellFormed : header.WellFormed) {rest : List UInt8}
    (encoded : header.toBytes ++ rest = data) :
    (parse data : Call RvfError σ SegmentHeader).Ensures state
      (fun parsed here => parsed = header ∧ here = state) fun _ _ => False := by
  have long : 64 ≤ data.length := by
    rw [← encoded, length_append, toBytes_length wellFormed]
    exact Nat.le_add_right _ _
  have places := cut_flatten header.fields rest
  rw [map_length_fields wellFormed, ← toBytes_eq, encoded] at places
  simp only [widths, fields, cut, drop_drop, Nat.reduceAdd, List.cons.injEq, and_true] at places
  obtain ⟨magic, version, segType, flags, segmentId, payloadLength, timestampNs, checksumAlgo,
    compression, reserved0, reserved1, contentHash, uncompressedLen, alignmentPad⟩ := places
  have start : sliceAt data 0 4 = some segmentMagicBytes := by
    rw [← wellFormed.magic]
    rw [← Nat.zero_add 4]
    exact sliceAt_of_take (by omega) magic
  have short : ¬data.length < segmentHeaderSize := Nat.not_lt.mpr long
  unfold parse
  simp only [ensures_bind, ensures_throwIf, ensures_orPanic, ensures_pure]
  simp only [short, start, getElem?_of_take version, wellFormed.version, ne_eq, not_true_eq_false,
    not_false_eq_true, Option.some.injEq, exists_eq_left', false_implies, true_implies, true_and,
    getElem?_of_take segType, getElem?_of_take checksumAlgo, getElem?_of_take compression,
    littleEndianAt_of_take (by omega) flags wellFormed.flags,
    littleEndianAt_of_take (by omega) segmentId wellFormed.segmentId,
    littleEndianAt_of_take (by omega) payloadLength wellFormed.payloadLength,
    littleEndianAt_of_take (by omega) timestampNs wellFormed.timestampNs,
    littleEndianAt_of_take (by omega) reserved0 wellFormed.reserved0,
    littleEndianAt_of_take (by omega) reserved1 wellFormed.reserved1,
    littleEndianAt_of_take (by omega) uncompressedLen wellFormed.uncompressedLen,
    littleEndianAt_of_take (by omega) alignmentPad wellFormed.alignmentPad,
    octetsAt_of_take (by omega) contentHash]
  rw [← wellFormed.magic, ← wellFormed.version]
  trivial

theorem parse_spec (data : List UInt8) :
    (parse data : Call RvfError σ SegmentHeader).Ensures state
      (fun header _ => header.WellFormed ∧ segmentHeaderSize ≤ data.length ∧
        header.toBytes = data.take segmentHeaderSize) fun _ _ => True := by
  unfold parse
  simp only [ensures_bind, ensures_throwIf, ensures_orPanic, ensures_pure]
  refine ⟨fun _ => trivial, fun long => ?_⟩
  have long : 64 ≤ data.length := Nat.not_lt.mp long
  have start : sliceAt data 0 4 = some ((data.take 4).drop 0) :=
    sliceAt_eq (Nat.zero_le 4) (by omega)
  have byteAt : ∀ {i : Nat}, i < 64 → ∃ byte, data[i]? = some byte := fun {i} below =>
    ⟨_, List.getElem?_eq_getElem (Nat.lt_of_lt_of_le below long)⟩
  obtain ⟨version, atVersion⟩ := byteAt (i := 4) (by decide)
  obtain ⟨segType, atSegType⟩ := byteAt (i := 5) (by decide)
  obtain ⟨flags, atFlags⟩ := @littleEndianAt_exists data 2 6 (by omega)
  obtain ⟨segmentId, atSegmentId⟩ := @littleEndianAt_exists data 8 0x08 (by omega)
  obtain ⟨payloadLength, atPayloadLength⟩ := @littleEndianAt_exists data 8 0x10 (by omega)
  obtain ⟨timestampNs, atTimestampNs⟩ := @littleEndianAt_exists data 8 0x18 (by omega)
  obtain ⟨checksumAlgo, atChecksumAlgo⟩ := byteAt (i := 0x20) (by decide)
  obtain ⟨compression, atCompression⟩ := byteAt (i := 0x21) (by decide)
  obtain ⟨reserved0, atReserved0⟩ := @littleEndianAt_exists data 2 0x22 (by omega)
  obtain ⟨reserved1, atReserved1⟩ := @littleEndianAt_exists data 4 0x24 (by omega)
  obtain ⟨contentHash, atContentHash⟩ := @octetsAt_exists 16 0x28 data (by omega)
  obtain ⟨uncompressedLen, atUncompressedLen⟩ := @littleEndianAt_exists data 4 0x38 (by omega)
  obtain ⟨alignmentPad, atAlignmentPad⟩ := @littleEndianAt_exists data 4 0x3C (by omega)
  refine ⟨_, start, fun _ => trivial, fun magic => ⟨version, atVersion, fun _ => trivial,
    fun current => ?_⟩⟩
  refine ⟨segType, atSegType, flags, atFlags, segmentId, atSegmentId, payloadLength,
    atPayloadLength, timestampNs, atTimestampNs, checksumAlgo, atChecksumAlgo, compression,
    atCompression, reserved0, atReserved0, reserved1, atReserved1, contentHash, atContentHash,
    uncompressedLen, atUncompressedLen, alignmentPad, atAlignmentPad, ?_, long, ?_⟩
  · exact ⟨not_not.mp magic, not_not.mp current, littleEndianAt_lt atFlags,
      littleEndianAt_lt atSegmentId, littleEndianAt_lt atPayloadLength,
      littleEndianAt_lt atTimestampNs, littleEndianAt_lt atReserved0,
      littleEndianAt_lt atReserved1, littleEndianAt_lt atUncompressedLen,
      littleEndianAt_lt atAlignmentPad⟩
  · have sized : (data.take segmentHeaderSize).length = widths.sum :=
      length_take_of_le long
    rw [toBytes_eq]
    refine Eq.trans (congrArg List.flatten ?_) (flatten_cut sized)
    -- Every field lies within the first 64 bytes.
    have inner : ∀ {offset width : Nat}, offset + width ≤ 64 →
        ((data.take segmentHeaderSize).drop offset).take width = (data.drop offset).take width := by
      intro offset width inside
      rw [drop_take, take_take, Nat.min_eq_left]
      exact Nat.le_sub_of_add_le (Nat.add_comm offset width ▸ inside)
    simp only [widths, fields, cut, drop_drop, Nat.reduceAdd, List.cons.injEq, and_true]
    refine ⟨?_, ?_, ?_, ?_, ?_, ?_, ?_, ?_, ?_, ?_, ?_, ?_, ?_, ?_⟩
    · exact (drop_zero ▸ @inner 0 4 (by decide)).symm
    · rw [inner (by decide), take_of_getElem? atVersion]
    · rw [inner (by decide), take_of_getElem? atSegType]
    · rw [inner (by decide), littleEndianBytes_of_read atFlags]
    · rw [inner (by decide), littleEndianBytes_of_read atSegmentId]
    · rw [inner (by decide), littleEndianBytes_of_read atPayloadLength]
    · rw [inner (by decide), littleEndianBytes_of_read atTimestampNs]
    · rw [inner (by decide), take_of_getElem? atChecksumAlgo]
    · rw [inner (by decide), take_of_getElem? atCompression]
    · rw [inner (by decide), littleEndianBytes_of_read atReserved0]
    · rw [inner (by decide), littleEndianBytes_of_read atReserved1]
    · rw [inner (by decide), octetsAt_toList atContentHash]
    · rw [inner (by decide), littleEndianBytes_of_read atUncompressedLen]
    · rw [inner (by decide), littleEndianBytes_of_read atAlignmentPad]

end SegmentHeader

variable {σ : Type} {state : σ} {data : List UInt8}

/-- The segment's header stands at its offset and its payload behind it; a footer
stands behind the payload when the header is signed. -/
structure Placed (data : List UInt8) (segment : ParsedSegment) : Prop where
  wellFormed : segment.header.WellFormed
  header : (data.drop segment.offset).take segmentHeaderSize = segment.header.toBytes
  start : segment.payload.start = segment.offset + segmentHeaderSize
  stop : segment.payload.stop = segment.payload.start + segment.header.payloadLength
  inside : segment.payload.stop ≤ data.length
  limit : segment.header.payloadLength ≤ maxSegmentPayload
  footer : segment.footer.isSome = segment.header.isSigned
  behind : ∀ span, segment.footer = some span →
    span.start = segment.payload.stop ∧ span.start ≤ span.stop ∧ span.stop ≤ data.length

theorem Placed.extend {segment : ParsedSegment} {bound : Nat}
    (placed : Placed (data.take bound) segment) : Placed data segment where
  wellFormed := placed.wellFormed
  header := by
    have before := placed.header
    have inside := placed.inside
    rw [length_take, placed.stop, placed.start] at inside
    rw [drop_take, take_take, Nat.min_eq_left (by omega)] at before
    exact before
  start := placed.start
  stop := placed.stop
  inside := Nat.le_trans placed.inside (length_take_le' ..)
  limit := placed.limit
  footer := placed.footer
  behind := by
    intro span present
    obtain ⟨start, ordered, inside⟩ := placed.behind span present
    exact ⟨start, ordered, Nat.le_trans inside (length_take_le' ..)⟩

theorem Placed.payload_sliceAt {segment : ParsedSegment} (placed : Placed data segment) :
    ∃ payload, sliceAt data segment.payload.start segment.payload.stop = some payload ∧
      payload.length = segment.header.payloadLength := by
  have ordered : segment.payload.start ≤ segment.payload.stop := placed.stop ▸ Nat.le_add_right _ _
  refine ⟨_, sliceAt_eq ordered placed.inside, ?_⟩
  rw [length_drop, length_take_of_le placed.inside, placed.stop, Nat.add_sub_cancel_left]

theorem locateSegment_placed {index offset : Nat} :
    (locateSegment data index offset).Permits state
      (fun located _ => offset + segmentHeaderSize ≤ data.length → Placed data located.1)
      fun _ _ => True := by
  unfold locateSegment
  simp only [permits_bind, permits_orPanic, permits_throwIf, permits_orThrow, implies_true,
    and_true, true_and]
  intro rest sliced
  apply (SegmentHeader.parse_spec rest).permits.mono _ fun _ _ _ => trivial
  rintro header here ⟨wellFormed, long, encoded⟩ short payloadEnd added inside
  have total := checkedAdd64_eq added
  have front : ∀ _ : offset + segmentHeaderSize ≤ data.length,
      (data.drop offset).take segmentHeaderSize = header.toBytes := by
    intro fits
    have all := sliceAt_eq (Nat.le_trans (Nat.le_add_right _ _) fits) (Nat.le_refl data.length)
    rw [all, take_length] at sliced
    rw [encoded, ← Option.some.inj sliced]
  split
  · rename_i signed
    simp only [permits_bind, permits_map, permits_throwIf, permits_pure, implies_true, true_and]
    apply (locateFooter_spec (Nat.not_lt.mp inside)).permits.mono _ fun _ _ _ => trivial
    rintro footer _ ⟨start, ordered, within⟩ _ fits
    exact ⟨wellFormed, front fits, rfl, total, Nat.not_lt.mp inside, Nat.not_lt.mp short,
      signed.symm, fun span present => by
        obtain rfl := Option.some.inj present
        exact ⟨start, start ▸ ordered, within⟩⟩
  · rename_i unsigned
    simp only [permits_bind, permits_throwIf, permits_pure, implies_true, true_and]
    intro _ fits
    exact ⟨wellFormed, front fits, rfl, total, Nat.not_lt.mp inside, Nat.not_lt.mp short,
      (Bool.not_eq_true _ ▸ unsigned).symm, fun _ absent => by cases absent⟩

theorem walkLoop_placed {fuel offset : Nat} {segments : List ParsedSegment}
    (placed : ∀ segment ∈ segments, Placed data segment) :
    (walkLoop data fuel segments offset).Permits state
      (fun final _ => ∀ segment ∈ final, Placed data segment) fun _ _ => True := by
  induction fuel generalizing segments offset state with
  | zero => simp [walkLoop]
  | succ fuel ih =>
    unfold walkLoop
    simp only [permits_ite, permits_bind, permits_orPanic, permits_pure, permits_throw,
      permits_throwIf, implies_true, and_true, true_and]
    refine ⟨fun within => ⟨fun _ _ _ _ => placed, fun room _ => ?_⟩, fun _ => placed⟩
    apply locateSegment_placed.mono _ fun _ _ _ => trivial
    rintro ⟨segment, next⟩ here located
    have longer : ∀ other ∈ segments ++ [segment], Placed data other := by
      intro other member
      rcases mem_append.mp member with earlier | isLast
      · exact placed other earlier
      · obtain rfl := mem_singleton.mp isLast
        exact located (by omega)
    exact ⟨fun _ => longer, fun _ => ih longer⟩

theorem walkSegments_placed {fuel : Nat} :
    (walkSegments fuel data).Permits state
      (fun segments _ => ∀ segment ∈ segments, Placed data segment) fun _ _ => True := by
  unfold walkSegments
  simp only [permits_bind, permits_throwIf, permits_pure, implies_true, true_and]
  intro _
  apply (walkLoop_placed (by simp)).mono
  · exact fun _ _ placed _ => placed
  · simp

theorem walk_placed (data : List UInt8) :
    (walk data).Ensures () (fun segments _ => ∀ segment ∈ segments, Placed data segment)
      fun _ _ => True := by
  have permits : (walk data).Permits ()
      (fun segments _ => ∀ segment ∈ segments, Placed data segment) fun _ _ => True := by
    unfold walk walkContainer
    rw [permits_map, permits_bind]
    apply (splitRootPage_spec data).permits.mono _ fun _ _ _ => trivial
    rintro ⟨body, rootPage⟩ _ split
    obtain ⟨bound, rfl⟩ : ∃ bound, body = data.take bound := by
      rcases split with ⟨rfl, _⟩ | ⟨start, _, rfl, _⟩
      · exact ⟨_, take_length.symm⟩
      · exact ⟨start, rfl⟩
    rw [permits_bind, permits_attempt]
    apply walkSegments_placed.mono
    · intro segments _ placed
      rw [permits_pure]
      exact fun segment member => (placed segment member).extend
    · intro e _ _
      simp only [permits_ite, permits_bind, permits_throw, permits_attempt, implies_true, and_true]
      intro _
      apply walkSegments_placed.mono
      · intro segments _ placed
        rwa [permits_pure]
      · simp
  exact ((walk_spec data).also permits).mono (fun _ _ both => both.2) fun _ _ _ => trivial

theorem bytes_of_laid {segments : List ParsedSegment} {start finish bound : Nat}
    (laid : Laid segmentAlignment ranges start segments finish)
    (inside : ∀ segment ∈ segments, segment.stop ≤ bound)
    (placed : ∀ segment ∈ segments, Placed data segment) :
    start + (segments.map fun segment => segment.header.payloadLength).sum ≤ max start bound := by
  induction segments generalizing start with
  | nil => exact Nat.le_max_left _ _
  | cons segment rest ih =>
    obtain ⟨stop, parted, advanced, laidRest⟩ := laid
    have later := ih laidRest
      (fun other member => inside other (mem_cons_of_mem _ member))
      fun other member => placed other (mem_cons_of_mem _ member)
    have ends := (ends_of_endToEnd parted).2
    have here := inside segment mem_cons_self
    have payload := parted.within segment.payload (by simp [ParsedSegment.ranges])
    have sized := (placed segment mem_cons_self).stop
    have up := @le_boundary segmentAlignment stop (by decide)
    rw [map_cons, sum_cons]
    omega

theorem walk_bytes (data : List UInt8) :
    (walk data).Ensures ()
      (fun segments _ => (∀ segment ∈ segments, Placed data segment) ∧
        (segments.map fun segment => segment.header.payloadLength).sum ≤ data.length)
      fun _ _ => True := by
  have covered : (walk data).Ensures ()
      (fun segments _ => ∃ body rootPage, Split data body rootPage ∧ Covered body segments)
      fun _ _ => True := by
    unfold walk
    rw [ensures_map]
    exact (walkContainer_spec (Nat.lt_succ_self _)).weaken fun walked _ accepted =>
      ⟨accepted.choose, walked.rootPage, accepted.choose_spec⟩
  apply ((walk_placed data).both covered).mono _ fun _ _ _ => trivial
  rintro segments _ ⟨placed, body, rootPage, split, _, boundary, walked, _⟩
  have bodyLe : body.length ≤ data.length := by
    rcases split with ⟨rfl, _⟩ | ⟨start, _, rfl, _⟩
    · exact Nat.le_refl _
    · exact length_take_le' ..
  have total := bytes_of_laid walked.laid
    (fun segment member => Nat.le_trans (walked.inside segment member) bodyLe) placed
  exact ⟨placed, by omega⟩

end Rvm.Rvf
