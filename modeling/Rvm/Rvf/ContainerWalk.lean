import Rvm.Rvf.Container

/-!
Owns the soundness of the container walk: it returns for every byte string, reads
inside the data only, and the segments it reports are a layout of the data at
64-byte boundaries.
-/

namespace Rvm.Rvf

open Foundation Foundation.Call ParsedSegment List SegmentHeader WalkedContainer

variable {σ : Type} {state : σ} {data : List UInt8}

namespace ParsedSegment

def ranges (segment : ParsedSegment) : List Span :=
  ⟨segment.offset, segment.offset + segmentHeaderSize⟩ :: segment.payload :: segment.footer.toList

def stop (segment : ParsedSegment) : Nat := segment.footer.elim segment.payload.stop Span.stop

theorem ends_of_endToEnd {segment : ParsedSegment} {start finish : Nat}
    (parted : EndToEnd start segment.ranges finish) :
    segment.offset = start ∧ segment.stop = finish := by
  obtain ⟨index, offset, header, payload, footer⟩ := segment
  obtain ⟨here, _, _, _, tail⟩ := parted
  cases footer with
  | none => exact ⟨here, tail⟩
  | some footer => exact ⟨here, tail.2.2⟩

end ParsedSegment

theorem SegmentHeader.parse_returns (data : List UInt8) :
    (parse data).Ensures state (fun _ _ => True) fun _ _ => True := by
  unfold parse
  by_cases short : data.length < segmentHeaderSize
  · simp [short]
  have long : 64 ≤ data.length := Nat.not_lt.mp short
  simp (disch := omega) [short, sliceAt_eq, littleEndianAt_eq, octetsAt_eq]
  exact fun _ _ => ⟨_, rfl⟩

theorem decodeSignatureFooter_returns (data : List UInt8) :
    (decodeSignatureFooter data).Ensures state (fun _ _ => True) fun _ _ => True := by
  unfold decodeSignatureFooter
  by_cases short : data.length < signatureFooterMinSize
  · simp [short]
  have long : 8 ≤ data.length := Nat.not_lt.mp short
  rw [littleEndianAt_eq (by omega), littleEndianAt_eq (by omega)]
  simp only [ensures_bind, ensures_throwIf, ensures_orPanic, ensures_pure, Option.some.injEq,
    exists_eq_left', implies_true, true_and]
  intro _ _ enough
  rw [littleEndianAt_eq (by omega), sliceAt_eq (by omega) (by omega)]
  simp

theorem locateFooter_spec {payloadEnd : Nat} (inside : payloadEnd ≤ data.length) :
    (locateFooter data payloadEnd).Ensures state
      (fun footer _ => footer.start = payloadEnd ∧ payloadEnd ≤ footer.stop ∧
        footer.stop ≤ data.length) fun _ _ => True := by
  unfold locateFooter
  simp only [ensures_bind, sliceAt_eq inside (Nat.le_refl _), ensures_orPanic, Option.some.injEq,
    exists_eq_left']
  apply (decodeSignatureFooter_returns _).mono
  · intro decoded here _
    simp only [ensures_throwIf, ensures_orThrow, ensures_pure, implies_true, true_and, and_true]
    intro _ _ footerEnd located
    obtain ⟨added, within⟩ := Option.filter_eq_some_iff.mp located
    have total := checkedAdd64_eq added
    exact ⟨by omega, by simpa using within⟩
  · simp

theorem locateSegment_spec {index offset : Nat} (inside : offset + segmentHeaderSize ≤ data.length) :
    (locateSegment data index offset).Ensures state
      (fun located _ => EndToEnd offset located.1.ranges located.1.stop ∧
        offset < located.1.stop ∧ located.1.stop ≤ data.length ∧
        located.2 = alignUp located.1.stop) fun _ _ => True := by
  have room : offset + 64 ≤ data.length := inside
  unfold locateSegment
  rw [sliceAt_eq (by omega) (Nat.le_refl _)]
  simp only [ensures_bind, ensures_orPanic, Option.some.injEq, exists_eq_left']
  apply (parse_returns _).mono _ (fun _ _ _ => trivial)
  intro header here _
  simp only [ensures_throwIf, ensures_orThrow, implies_true, true_and, and_true, not_lt]
  intro _ payloadEnd added fits
  have total : payloadEnd = offset + 64 + header.payloadLength := checkedAdd64_eq added
  split
  · -- A signed segment ends with its footer.
    simp only [ensures_bind, ensures_map, ensures_throwIf, ensures_pure, implies_true, true_and]
    apply (locateFooter_spec fits).mono _ (fun _ _ _ => trivial)
    rintro footer _ ⟨behind, after, within⟩ _
    refine ⟨?_, ?_, within, rfl⟩
    · show EndToEnd offset [⟨offset, offset + 64⟩, ⟨offset + 64, payloadEnd⟩, footer] footer.stop
      simp only [EndToEnd, true_and, and_true]
      omega
    · show offset < footer.stop
      omega
  · simp only [ensures_bind, ensures_throwIf, ensures_pure, implies_true, true_and]
    intro _
    refine ⟨?_, ?_, fits, rfl⟩
    · show EndToEnd offset [⟨offset, offset + 64⟩, ⟨offset + 64, payloadEnd⟩] payloadEnd
      simp only [EndToEnd, true_and, and_true]
      omega
    · show offset < payloadEnd
      omega

structure Walked (data : List UInt8) (segments : List ParsedSegment) (boundary : Nat) : Prop where
  laid : Laid segmentAlignment ranges 0 segments boundary
  inside : ∀ segment ∈ segments, segment.stop ≤ data.length

theorem Walked.snoc {segments : List ParsedSegment} {segment : ParsedSegment} {offset : Nat}
    (walked : Walked data segments offset)
    (parted : EndToEnd offset segment.ranges segment.stop) (advanced : offset < segment.stop)
    (inside : segment.stop ≤ data.length) :
    Walked data (segments ++ [segment]) (alignUp segment.stop) where
  laid := walked.laid.snoc parted advanced
  inside := by
    intro other member
    rcases mem_append.mp member with earlier | isLast
    · exact walked.inside other earlier
    · obtain rfl := mem_singleton.mp isLast
      exact inside

/-- What is left behind the last boundary is short and zero. -/
def Tail (data : List UInt8) (boundary : Nat) : Prop :=
  data.length < boundary + segmentHeaderSize ∧
    ∀ i, boundary ≤ i → i < data.length → data[i]? = some 0

theorem tail_of_all {offset : Nat} (short : data.length - offset < segmentHeaderSize)
    (zeros : ((data.take data.length).drop offset).all (· == 0) = true) : Tail data offset := by
  refine ⟨by omega, fun i after before => ?_⟩
  rw [take_length, all_eq_true] at zeros
  have member : data[i] ∈ data.drop offset := by
    rw [mem_drop_iff_getElem]
    exact ⟨i - offset, by omega, by congr 1; omega⟩
  have zero : data[i] = 0 := by simpa using zeros _ member
  rw [List.getElem?_eq_getElem before, zero]

theorem walkLoop_spec {fuel offset : Nat} {segments : List ParsedSegment}
    (walked : Walked data segments offset) (within : offset ≤ data.length)
    (enough : data.length < fuel + offset) :
    (walkLoop data fuel segments offset).Ensures state
      (fun final _ => ∃ boundary, Walked data final boundary ∧ Tail data boundary)
      fun _ _ => True := by
  induction fuel generalizing segments offset state with
  | zero => omega
  | succ fuel ih =>
    unfold walkLoop
    by_cases ended : offset < data.length
    · rw [if_pos ended]
      by_cases short : data.length - offset < segmentHeaderSize
      · rw [if_pos short, sliceAt_eq (by omega) (Nat.le_refl _)]
        simp only [ensures_bind, ensures_orPanic, Option.some.injEq, exists_eq_left',
          ensures_ite, ensures_pure, ensures_throw, implies_true, and_true]
        exact fun zeros => ⟨offset, walked, tail_of_all short zeros⟩
      · rw [if_neg short]
        simp only [ensures_bind, ensures_throwIf, implies_true, true_and]
        intro _
        apply (locateSegment_spec (by omega)).mono _ (fun _ _ _ => trivial)
        rintro ⟨segment, next⟩ _ ⟨parted, advanced, inside, here⟩
        obtain rfl : next = alignUp segment.stop := here
        dsimp only at parted advanced inside ⊢
        have longer := walked.snoc parted advanced inside
        have up : segment.stop ≤ alignUp segment.stop := le_boundary (by decide)
        simp only [ensures_ite, ensures_pure]
        refine ⟨fun beyond => ⟨_, longer, ?_⟩, fun below => ?_⟩
        · exact ⟨by omega, fun i _ _ => by omega⟩
        · have reached : min (alignUp segment.stop) data.length = alignUp segment.stop := by omega
          rw [reached]
          exact ih longer (by omega) (by omega)
    · rw [if_neg ended]
      have atEnd : offset = data.length := by omega
      exact ⟨offset, walked, by rw [segmentHeaderSize]; omega, fun i _ _ => by omega⟩

def Covered (data : List UInt8) (segments : List ParsedSegment) : Prop :=
  segments ≠ [] ∧ ∃ boundary, Walked data segments boundary ∧ Tail data boundary

theorem walkSegments_spec {fuel : Nat} (enough : data.length < fuel) :
    (walkSegments fuel data).Ensures state (fun segments _ => Covered data segments)
      fun _ _ => True := by
  unfold walkSegments
  simp only [ensures_bind, ensures_throwIf, ensures_pure, implies_true, true_and]
  intro _
  have start : Walked data [] 0 := ⟨rfl, by simp⟩
  apply (walkLoop_spec start (Nat.zero_le _) enough).mono
  · exact fun segments _ walked nonempty => ⟨nonempty, walked⟩
  · simp

theorem isLevel0Page_returns (page : List UInt8) :
    (isLevel0Page page).Ensures state (fun _ _ => True) fun (_ : RvfError) _ => True := by
  unfold isLevel0Page
  by_cases exact : page.length = rootPageSize
  · have long : page.length = 4096 := exact
    simp (disch := omega) [exact, sliceAt_eq, littleEndianAt_eq]
  · simp [exact]

/-- The segment area before a supposed root page, or all of the data. -/
def Split (data body : List UInt8) (rootPage : Option Span) : Prop :=
  (body = data ∧ rootPage = none) ∨
    ∃ start, start + rootPageSize = data.length ∧ body = data.take start ∧
      rootPage = some ⟨start, data.length⟩

theorem splitRootPage_spec (data : List UInt8) :
    (splitRootPage data).Ensures state (fun split _ => Split data split.1 split.2)
      fun (_ : RvfError) _ => True := by
  unfold splitRootPage
  by_cases short : data.length < rootPageSize + segmentHeaderSize
  · rw [if_pos short]
    exact .inl ⟨rfl, rfl⟩
  · rw [if_neg short]
    have long : 4096 + 64 ≤ data.length := Nat.not_lt.mp short
    generalize startEq : data.length - rootPageSize = start
    have fits : start + rootPageSize = data.length := by
      rw [← startEq]
      exact Nat.sub_add_cancel (Nat.le_of_add_right_le long)
    have before : start ≤ data.length := Nat.le.intro fits
    dsimp only
    rw [sliceAt_eq before (Nat.le_refl _), sliceAt_eq (Nat.zero_le _) before]
    simp only [ensures_bind, ensures_orPanic, Option.some.injEq, exists_eq_left']
    apply (isLevel0Page_returns _).mono _ (fun _ _ _ => trivial)
    intro isPage _ _
    simp only [ensures_ite, ensures_bind, ensures_orPanic, ensures_pure, Option.some.injEq,
      exists_eq_left', drop_zero]
    exact ⟨fun _ => .inr ⟨start, fits, rfl, rfl⟩, fun _ => .inl ⟨rfl, rfl⟩⟩

theorem walkContainer_spec {fuel : Nat} (enough : data.length < fuel) :
    (walkContainer fuel data).Ensures state
      (fun walked _ => ∃ body, Split data body walked.rootPage ∧ Covered body walked.segments)
      fun _ _ => True := by
  unfold walkContainer
  simp only [ensures_bind]
  apply (splitRootPage_spec data).mono _ (fun _ _ _ => trivial)
  rintro ⟨body, rootPage⟩ _ split
  have bodyLe : body.length ≤ data.length := by
    rcases split with ⟨rfl, _⟩ | ⟨start, _, rfl, _⟩
    · exact Nat.le_refl _
    · exact length_take_le' ..
  rw [ensures_attempt]
  apply (walkSegments_spec (Nat.lt_of_le_of_lt bodyLe enough)).mono
  · exact fun segments _ covered => ⟨body, split, covered⟩
  · intro e here _
    simp only [ensures_ite, ensures_bind, ensures_throw, implies_true, and_true, ensures_attempt]
    intro _
    -- The second walk takes the whole data as segment area.
    apply (walkSegments_spec enough).mono
    · exact fun segments _ covered => ⟨data, .inl ⟨rfl, rfl⟩, covered⟩
    · simp

namespace WalkedContainer

/-- Headers, payloads and footers of all segments, in order. -/
def ranges (walked : WalkedContainer) : List Span := walked.segments.flatMap ParsedSegment.ranges

def areaEnd (walked : WalkedContainer) (data : List UInt8) : Nat :=
  walked.rootPage.elim data.length Span.start

/-- A byte of a header, payload, footer or of the root page. -/
def Holds (walked : WalkedContainer) (i : Nat) : Prop :=
  (∃ span ∈ walked.ranges, span.Contains i) ∨ ∃ page, walked.rootPage = some page ∧ page.Contains i

/-- A byte between the end of a segment and the next boundary. -/
def InGap (walked : WalkedContainer) (i : Nat) : Prop :=
  ∃ segment ∈ walked.segments, segment.stop ≤ i ∧ i < alignUp segment.stop

/-- A zero byte of the short tail behind the boundary after the last segment. -/
def InTail (walked : WalkedContainer) (data : List UInt8) (i : Nat) : Prop :=
  data[i]? = some 0 ∧ i < walked.areaEnd data ∧
    ∃ last, walked.segments.getLast? = some last ∧ alignUp last.stop ≤ i ∧
      walked.areaEnd data < alignUp last.stop + segmentAlignment

/-- What an accepted container guarantees. -/
structure Sound (walked : WalkedContainer) (data : List UInt8) : Prop where
  increasing : walked.segments.Pairwise fun left right => left.offset < right.offset
  aligned : ∀ segment ∈ walked.segments, segmentAlignment ∣ segment.offset
  next : ∀ i left right, walked.segments[i]? = some left → walked.segments[i + 1]? = some right →
    IsLeast {n | segmentAlignment ∣ n ∧ left.stop ≤ n} right.offset
  disjoint : walked.ranges.Pairwise Span.Disjoint
  inside : ∀ span ∈ walked.ranges, span.start ≤ span.stop ∧ span.stop ≤ data.length
  rootPage : ∀ page, walked.rootPage = some page →
    page.start + rootPageSize = page.stop ∧ page.stop = data.length ∧
      ∀ span ∈ walked.ranges, span.Disjoint page
  gaps : ∀ i < data.length, walked.Holds i ∨ walked.InGap i ∨ walked.InTail data i

theorem area_of_split {walked : WalkedContainer} {body : List UInt8}
    (split : Split data body walked.rootPage) :
    walked.areaEnd data ≤ data.length ∧ body = data.take (walked.areaEnd data) := by
  unfold areaEnd
  rcases split with ⟨rfl, none⟩ | ⟨start, page, rfl, some⟩
  · rw [none]
    exact ⟨Nat.le_refl _, take_length.symm⟩
  · rw [some]
    exact ⟨Nat.le.intro page, rfl⟩

theorem sound_of_covered {walked : WalkedContainer} {body : List UInt8}
    (split : Split data body walked.rootPage) (covered : Covered body walked.segments) :
    walked.Sound data := by
  obtain ⟨nonempty, last, ⟨laid, inside⟩, short, zeros⟩ := covered
  obtain ⟨areaLe, area⟩ := area_of_split split
  have bodyLength : body.length = walked.areaEnd data := by
    rw [area, length_take, Nat.min_eq_left areaLe]
  have within : ∀ span ∈ walked.ranges,
      span.start ≤ span.stop ∧ span.stop ≤ walked.areaEnd data := by
    intro span member
    obtain ⟨segment, segmentMember, spanMember⟩ := mem_flatMap.mp member
    obtain ⟨begin, finish, parted, _⟩ :=
      laid.placed (by decide) (Nat.dvd_zero _) segment segmentMember
    have stop := (ends_of_endToEnd parted).2
    have here := parted.within span spanMember
    have segmentInside := inside segment segmentMember
    omega
  exact
    { increasing := by
        apply (laid.ordered (by decide) (Nat.dvd_zero _)).imp
        rintro left right ⟨begin, finish, later, ending, leftParted, advanced, rightParted, after⟩
        rw [(ends_of_endToEnd leftParted).1, (ends_of_endToEnd rightParted).1]
        have up := @le_boundary segmentAlignment finish (by decide)
        omega
      aligned := by
        intro segment member
        obtain ⟨begin, finish, parted, _, aligned, _⟩ :=
          laid.placed (by decide) (Nat.dvd_zero _) segment member
        rw [(ends_of_endToEnd parted).1]
        exact aligned
      next := by
        intro i left right leftAt rightAt
        obtain ⟨begin, finish, ending, leftParted, rightParted⟩ := laid.neighbours leftAt rightAt
        rw [(ends_of_endToEnd leftParted).2, (ends_of_endToEnd rightParted).1]
        exact boundary_isLeast (by decide)
      disjoint := (laid.pairwise (by decide)).imp Span.Before.disjoint
      inside := fun span member => ⟨(within span member).1, (within span member).2.trans areaLe⟩
      rootPage := by
        intro page isPage
        rcases split with ⟨_, none⟩ | ⟨start, fits, _, some⟩
        · cases none.symm.trans isPage
        · obtain rfl := Option.some.inj (some.symm.trans isPage)
          refine ⟨fits, rfl, fun span member => Span.Before.disjoint ?_⟩
          have before := (within span member).2
          rw [areaEnd, some] at before
          exact before
      gaps := by
        intro i below
        by_cases inArea : i < walked.areaEnd data
        · by_cases inLayout : i < last
          · rcases laid.covers (Nat.zero_le i) inLayout with held | gap
            · exact .inl (.inl held)
            · obtain ⟨segment, member, begin, finish, parted, after, before⟩ := gap
              obtain ⟨-, rfl⟩ := ParsedSegment.ends_of_endToEnd parted
              exact .inr (.inl ⟨segment, member, after, before⟩)
          · -- Behind the last boundary the walk has checked for zeros.
            obtain ⟨final, isLast⟩ := Option.isSome_iff_exists.mp
              (List.getLast?_isSome.mpr nonempty)
            obtain ⟨begin, finish, parted, boundaryEq⟩ := laid.last isLast
            obtain ⟨-, rfl⟩ := ends_of_endToEnd parted
            have zero := zeros i (Nat.not_lt.mp inLayout) (bodyLength ▸ inArea)
            rw [area, List.getElem?_take_of_lt inArea] at zero
            refine .inr (.inr ⟨zero, inArea, final, isLast, ?_, ?_⟩)
            · rw [boundaryEq] at inLayout
              exact Nat.not_lt.mp inLayout
            · show walked.areaEnd data < boundary segmentAlignment final.stop + 64
              rw [← boundaryEq, ← bodyLength]
              exact short
        · left
          right
          rcases split with ⟨_, none⟩ | ⟨start, fits, _, some⟩
          · rw [areaEnd, none] at inArea
            exact absurd below inArea
          · rw [areaEnd, some] at inArea
            exact ⟨_, some, Nat.not_lt.mp inArea, below⟩ }

end WalkedContainer

theorem walk_spec (data : List UInt8) :
    (walk data).Ensures ()
      (fun segments _ => ∀ segment ∈ segments,
        segment.payload.start ≤ segment.payload.stop ∧ segment.payload.stop ≤ data.length)
      fun _ _ => True := by
  unfold walk
  rw [ensures_map]
  apply (walkContainer_spec (Nat.lt_succ_self _)).mono _ fun _ _ _ => trivial
  intro walked _ accepted segment member
  obtain ⟨body, split, covered⟩ := accepted
  apply (sound_of_covered split covered).inside
  apply mem_flatMap.mpr
  exact ⟨segment, member, mem_cons_of_mem _ mem_cons_self⟩

/-- The walk returns for every byte string, and an accepted container is sound. -/
theorem walkContainer_sound (data : List UInt8) (fuel : Nat) (enough : data.length < fuel) :
    ∃ outcome, (walkContainer fuel data).runFrom () = some (outcome, ()) ∧
      ∀ walked, outcome = .ok walked → walked.Sound data := by
  have spec : (walkContainer fuel data).Ensures () _ _ := walkContainer_spec enough
  rcases spec.outcome with ⟨walked, _, returned, body, split, covered⟩ | ⟨e, _, refused, _⟩
  · refine ⟨.ok walked, returned, fun other same => ?_⟩
    cases same
    exact sound_of_covered split covered
  · exact ⟨.error e, refused, fun walked same => by cases same⟩

def padded : List UInt8 :=
  segmentMagicBytes ++ [1, 7] ++ List.replicate 10 0 ++ [1] ++ List.replicate 47 0 ++ [9] ++
    List.replicate 63 0 ++ [0]

theorem padded_length : padded.length = 129 := by
  simp [padded, segmentMagicBytes]

/-- The segment the walk finds in it. -/
def paddedSegment : ParsedSegment where
  index := 0
  offset := 0
  header := ⟨segmentMagicBytes, 1, 7, 0, 0, 1, 0, 0, 0, 0, 0, Octets.zero 16, 0, 0⟩
  payload := ⟨64, 65⟩
  footer := none

theorem walkContainer_padded :
    (walkContainer 130 padded).runFrom () = some (.ok ⟨[paddedSegment], none⟩, ()) := by
  decide +kernel

theorem walkContainer_sound_padded :
    ∃ walked, (walkContainer 130 padded).runFrom () = some (.ok walked, ()) ∧
      walked.Sound padded := by
  obtain ⟨outcome, returned, sound⟩ := walkContainer_sound padded 130 (by simp [padded_length])
  rw [walkContainer_padded] at returned
  cases returned
  exact ⟨_, walkContainer_padded, sound _ rfl⟩

/-- The 64 bytes behind its payload belong to no header, payload, footer or root
page: 63 of them pad the segment, and the last is the tail. -/
theorem walkContainer_longGap :
    ∃ walked, (walkContainer 130 padded).runFrom () = some (.ok walked, ()) ∧
      65 + 64 ≤ padded.length ∧ ∀ i, 65 ≤ i → i < 65 + 64 → ¬ walked.Holds i := by
  refine ⟨_, walkContainer_padded, by simp [padded_length], fun i after before holds => ?_⟩
  rcases holds with ⟨span, member, contains⟩ | ⟨page, isPage, _⟩
  · have either : span = ⟨0, 64⟩ ∨ span = ⟨64, 65⟩ := by
      simpa [WalkedContainer.ranges, ParsedSegment.ranges, paddedSegment, segmentHeaderSize]
        using member
    rcases either with rfl | rfl
    · exact absurd contains.2 (Nat.not_lt.mpr (Nat.le_of_succ_le after))
    · exact absurd contains.2 (Nat.not_lt.mpr after)
  · cases isPage

end Rvm.Rvf
