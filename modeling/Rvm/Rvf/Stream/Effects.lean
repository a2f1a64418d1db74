import Rvm.Foundation.Counting
import Rvm.Rvf.Stream.Table
import Rvm.Rvf.Stream.Verifier

/-!
Owns what a pushed frame can do to a verifier: leave the records alone, keep a
chunk table, or release one chunk. One rule for each function of the verifier;
none of them panics in a consistent state.
-/

namespace Rvm.Rvf

open Foundation Foundation.Call StreamVerifier StreamHeader

def StreamState.Finished (state : StreamState) : Prop :=
  state = .complete ∨ state = .completeUnverified

/-- The descriptor and the segment records are as before, and the stream did not
complete. -/
structure Quiet (here next : StreamVerifier) : Prop where
  desc : next.desc = here.desc
  segs : next.segs = here.segs
  stageRemaining : next.stageRemaining = here.stageRemaining
  left : next.left = here.left
  verifiedBytes : next.verifiedBytes = here.verifiedBytes
  begun : next.state = .awaitDescriptor → here.state = .awaitDescriptor
  finished : next.state.Finished → here.state.Finished

theorem Quiet.refl (v : StreamVerifier) : Quiet v v :=
  ⟨rfl, rfl, rfl, rfl, rfl, id, id⟩

theorem Quiet.trans {first second third : StreamVerifier} (left : Quiet first second)
    (right : Quiet second third) : Quiet first third where
  desc := right.desc.trans left.desc
  segs := right.segs.trans left.segs
  stageRemaining := right.stageRemaining.trans left.stageRemaining
  left := right.left.trans left.left
  verifiedBytes := right.verifiedBytes.trans left.verifiedBytes
  begun := left.begun ∘ right.begun
  finished := left.finished ∘ right.finished

theorem quiet_forcePoison (v : StreamVerifier) (reason : StreamError) (seg : Option Nat)
    (chunk : Nat) : Quiet v (v.forcePoison reason seg chunk) where
  desc := rfl
  segs := rfl
  stageRemaining := rfl
  left := rfl
  verifiedBytes := rfl
  begun := by simp [forcePoison]
  finished := by simp [forcePoison, StreamState.Finished]

theorem quiet_poisonAt (v : StreamVerifier) (reason : StreamError) (seg : Option Nat)
    (chunk : Nat) : Quiet v (v.poisonAt reason seg chunk) := by
  unfold poisonAt
  split
  all_goals first | exact .refl v | exact quiet_forcePoison v reason seg chunk

variable {v : StreamVerifier} {bytes : List UInt8} {idx segId : Nat} {primitives : Primitives}

theorem quiet_poisoning {reason : StreamError} {seg : Option Nat} {chunk : Nat} :
    Quiet v (poisoning reason seg chunk v) :=
  quiet_poisonAt v reason seg chunk

theorem quiet_faulting {reason : StreamError} {seg : Option Nat} {chunk : Nat} :
    Quiet v (faulting reason seg chunk v) := by
  unfold faulting fault
  have counted : Quiet v { v with
      lastFault := some ⟨seg, chunk, reason⟩, faults := asU32 (v.faults + 1) } :=
    ⟨rfl, rfl, rfl, rfl, rfl, id, id⟩
  simp only
  split
  · exact counted.trans (quiet_poisonAt _ reason seg chunk)
  · exact counted

theorem quiet_track {bodyOffset : Nat} : Quiet v (v.track bodyOffset bytes) :=
  ⟨rfl, rfl, rfl, rfl, rfl, id, id⟩

theorem quiet_received (v : StreamVerifier) : Quiet v v.received := by
  unfold received
  split
  · exact ⟨rfl, rfl, rfl, rfl, rfl, by simp, by simp [StreamState.Finished]⟩
  · exact .refl v

theorem quiet_endOfInput (v : StreamVerifier) : Quiet v v.endOfInput.2 := by
  unfold endOfInput
  split
  · exact ⟨rfl, rfl, rfl, rfl, rfl, by simp, by simp [StreamState.Finished]⟩
  · exact ⟨rfl, rfl, rfl, rfl, rfl, by simp, by simp [StreamState.Finished]⟩
  · exact .refl v

theorem quiet_resume (v : StreamVerifier) : Quiet v v.resume.2 := by
  unfold resume
  split
  · exact ⟨rfl, rfl, rfl, rfl, rfl, by simp, by simp [StreamState.Finished]⟩
  · exact .refl v

/-- Segment `i` of a verifier that follows a descriptor: its entry, its record
and what their numbers promise. -/
structure Place (v : StreamVerifier) (d : VerifiedDescriptor) (i : Nat) (e : StreamEntry)
    (s : SegState) : Prop where
  installed : v.desc = some d
  parsed : d.header.Parsed
  entry : d.entries[i]? = some e
  seg : v.segs[i]? = some s
  fits : e.Fits d.header
  counted : d.header.chunkCount e.storedLen = some s.n
  table : ∀ flat, s.leaves = some flat → flat.length = 32 * s.n

variable {v : StreamVerifier} {d : VerifiedDescriptor} {i : Nat} {e : StreamEntry} {s : SegState}
  {Refused : StreamError → StreamVerifier → Prop}

theorem Place.moved {next : StreamVerifier} (place : Place v d i e s) (desc : next.desc = v.desc)
    (segs : next.segs = v.segs) : Place next d i e s :=
  { place with installed := desc.trans place.installed, seg := segs ▸ place.seg }

theorem ensures_entryAt {Returned : StreamHeader × StreamEntry → StreamVerifier → Prop}
    (place : Place v d i e s) :
    (entryAt i).Ensures v Returned Refused ↔ Returned (d.header, e) v := by
  simp [entryAt, place.installed, place.entry]

theorem ensures_segAt {Returned : SegState → StreamVerifier → Prop} (place : Place v d i e s) :
    (segAt i).Ensures v Returned Refused ↔ Returned s v := by
  simp [segAt, place.seg]

theorem stageSlot_eq (place : Place v d i e s) : stageSlot e.stage = some e.stage :=
  if_pos place.fits.stage

/-- The leaf that chunk `idx` of a segment is compared with. -/
def Wanted (e : StreamEntry) (leaves : Option (List UInt8)) (idx : Nat) (want : Octets 32) : Prop :=
  match leaves with
  | some flat => octetsAt 32 flat (idx * 32) = some want
  | none => want = e.chunkTableHash

theorem wantedLeaf_spec (place : Place v d i e s) (inside : idx < s.n) :
    (wantedLeaf e s.leaves idx).Ensures v
      (fun want next => next = v ∧ Wanted e s.leaves idx want) Refused := by
  unfold wantedLeaf Wanted
  cases kept : s.leaves with
  | none => simp
  | some flat =>
    have size := place.table flat kept
    simp only [ensures_orPanic]
    exact ⟨_, octetsAt_eq (by omega), trivial, octetsAt_eq (by omega)⟩

theorem checkSegmentHeader_spec (place : Place v d i e s)
    (length : d.header.chunkLen e.storedLen idx = some bytes.length) :
    (checkSegmentHeader e idx bytes).Ensures v (fun _ next => next = v)
      fun _ next => Quiet v next := by
  unfold checkSegmentHeader
  rw [ensures_ite]
  refine ⟨fun first => ?_, fun _ => rfl⟩
  obtain ⟨rfl, _⟩ := first
  have long := first_chunk_long place.parsed place.counted length
  have header := place.fits.header
  simp only [ensures_bind, ensures_orPanic, ensures_refuseIf]
  refine ⟨_, octetsAt_eq (by omega), _, List.getElem?_eq_getElem (by omega),
    fun _ => quiet_poisoning, fun _ => ?_⟩
  exact ⟨_, List.getElem?_eq_getElem (by omega), fun _ => quiet_poisoning, fun _ => trivial⟩

theorem checkRootPage_spec (place : Place v d i e s)
    (length : d.header.chunkLen e.storedLen idx = some bytes.length) :
    (checkRootPage e idx bytes).Ensures v (fun _ next => next = v)
      fun _ next => Quiet v next := by
  unfold checkRootPage
  rw [ensures_ite]
  refine ⟨fun first => ?_, fun _ => rfl⟩
  obtain ⟨rfl, _⟩ := first
  have long := first_chunk_long place.parsed place.counted length
  have header := place.fits.header
  simp only [ensures_bind, ensures_orPanic, ensures_refuseIf]
  exact ⟨_, octetsAt_eq (by omega), fun _ => quiet_poisoning, fun _ => trivial⟩

structure Admitted (primitives : Primitives) (v : StreamVerifier) (d : VerifiedDescriptor)
    (e : StreamEntry) (s : SegState) (segId idx : Nat) (bytes : List UInt8) : Prop where
  notDone : s.done = false
  next : idx = s.next
  length : d.header.chunkLen e.storedLen idx = some bytes.length
  tabled : s.n > 1 → s.leaves ≠ none
  required : ∀ st ∈ requiredStages e.requiresMask, v.stageRemaining st = 0
  leaf : Wanted e s.leaves idx (primitives.leafHash d.header.fileId segId idx bytes)

theorem admitChunk_spec (place : Place v d i e s) :
    (admitChunk primitives i segId idx bytes).Ensures v
      (fun _ next => next = v ∧ Admitted primitives v d e s segId idx bytes)
      fun _ next => Quiet v next := by
  unfold admitChunk
  simp only [ensures_bind, ensures_entryAt place, ensures_segAt place, ensures_refuseIf,
    ensures_get]
  refine ⟨fun _ => quiet_faulting, fun order => ⟨fun _ => quiet_poisoning, fun sized =>
    ⟨fun _ => quiet_faulting, fun tabled => ⟨fun _ => quiet_faulting, fun required => ?_⟩⟩⟩⟩
  have length := not_not.mp sized
  have inside := chunkLen_some_lt place.counted length
  apply (wantedLeaf_spec place inside).weaken
  rintro want _ ⟨rfl, wanted⟩
  refine ⟨fun _ => quiet_faulting, fun leaf => ?_⟩
  apply (checkSegmentHeader_spec place length).weaken
  rintro _ _ rfl
  apply (checkRootPage_spec place length).weaken
  rintro _ _ rfl
  refine ⟨rfl, ?_⟩
  exact
    { notDone := by simpa using fun done => order (.inl done)
      next := not_not.mp fun other => order (.inr other)
      length := length
      tabled := fun several none => tabled ⟨several, none⟩
      required := fun st member => not_not.mp fun open' => required ⟨st, member, open'⟩
      leaf := by rwa [not_not.mp leaf] }

theorem countDuplicate_spec :
    (countDuplicate segId idx).Ensures v (fun _ next => Quiet v next)
      fun _ next => Quiet v next := by
  have counted : Quiet v { v with duplicatesIgnored := saturatingAdd64 v.duplicatesIgnored 1 } :=
    ⟨rfl, rfl, rfl, rfl, rfl, id, id⟩
  unfold countDuplicate
  simp only [ensures_bind, ensures_modify, ensures_get, ensures_refuseIf]
  exact ⟨fun _ => counted.trans quiet_poisoning, fun _ => counted⟩

def Event.releases : Event → Option VerifiedChunk
  | .chunk released _ _ _ => some released
  | _ => none

theorem onDuplicateChunk_spec (place : Place v d i e s) :
    (onDuplicateChunk primitives i idx bytes).Ensures v
      (fun event next => event.releases = none ∧ Quiet v next) fun _ next => Quiet v next := by
  unfold onDuplicateChunk
  simp only [ensures_bind, ensures_entryAt place, ensures_segAt place, ensures_refuseIf,
    ensures_ite, ensures_pure]
  refine ⟨fun _ => quiet_poisoning, fun sized => ⟨fun _ => ?_, fun _ => ?_⟩⟩
  · apply countDuplicate_spec.weaken
    exact fun _ _ quiet => ⟨rfl, quiet⟩
  · have inside := chunkLen_some_lt place.counted (not_not.mp sized)
    apply (wantedLeaf_spec place inside).weaken
    rintro want _ ⟨rfl, _⟩
    refine ⟨fun _ => quiet_faulting, fun _ => ?_⟩
    apply countDuplicate_spec.weaken
    exact fun _ _ quiet => ⟨rfl, quiet⟩

def SegState.bumped (s : SegState) : SegState :=
  if s.next + 1 = s.n then { s with next := s.next + 1, leaves := none, done := true }
  else { s with next := s.next + 1 }

/-- What a release changes. -/
structure Advanced (v : StreamVerifier) (d : VerifiedDescriptor) (i : Nat) (e : StreamEntry)
    (s : SegState) (length : Nat) (next : StreamVerifier) : Prop where
  desc : next.desc = v.desc
  segs : next.segs = v.segs.set i s.bumped
  stageRemaining : next.stageRemaining =
    if s.next + 1 = s.n then
      Function.update v.stageRemaining e.stage (asU32 (v.stageRemaining e.stage + 4294967295))
    else v.stageRemaining
  left : next.left =
    if s.next + 1 = s.n then asU64 (v.left + 18446744073709551615) else v.left
  verifiedBytes : next.verifiedBytes = asU64 (v.verifiedBytes + length)
  begun : next.state = .awaitDescriptor → v.state = .awaitDescriptor
  finished : next.state.Finished → v.state.Finished ∨
    s.next + 1 = s.n ∧ v.left = 1 ∧ asU64 (v.verifiedBytes + length) = d.header.bodyLen

theorem completionStatus_spec {extra : Nat} (installed : v.desc = some d) :
    (completionStatus primitives extra).Ensures v
      (fun _ next => next = v ∧ asU64 (v.verifiedBytes + extra) = d.header.bodyLen)
      fun _ next => next = v := by
  unfold completionStatus
  simp only [ensures_bind, ensures_get, ensures_orPanic, ensures_throwIf]
  refine ⟨d, installed, fun _ => trivial, fun fills => ?_⟩
  cases v.identity with
  | none => exact ⟨rfl, not_not.mp fills⟩
  | some t =>
    simp only [ensures_ite, ensures_bind, ensures_throwIf, ensures_pure, true_and, implies_true,
      not_not.mp fills]

theorem completing_spec {completes : Bool} {extra : Nat} (installed : v.desc = some d) :
    (completing primitives completes segId idx extra).Ensures v
      (fun complete next => next = v ∧ (complete ≠ none → completes = true ∧
        asU64 (v.verifiedBytes + extra) = d.header.bodyLen))
      fun _ next => Quiet v next := by
  unfold completing
  cases completes with
  | false => simp
  | true =>
    rw [if_pos rfl, ensures_bind, ensures_attempt]
    apply (completionStatus_spec installed).mono
    · exact fun _ _ fills => ⟨fills.1, fun _ => ⟨rfl, fills.2⟩⟩
    · rintro _ _ rfl
      exact quiet_poisoning

theorem advanceSegment_spec {completes : Bool} (place : Place v d i e s) :
    (advanceSegment i s e completes).Ensures v
      (fun _ next =>
        next = if completes then v.closeSegment i s e.stage else v.advance i s)
      Refused := by
  unfold advanceSegment
  cases completes <;> simp [stageSlot_eq place]

theorem advanced_settle {length : Nat} {complete : Option IdentityStatus}
    (completed : complete ≠ none → s.next + 1 = s.n ∧ v.left = 1 ∧
      asU64 (v.verifiedBytes + length) = d.header.bodyLen) :
    Advanced v d i e s length
      ((if s.next + 1 = s.n then v.closeSegment i s e.stage else v.advance i s).settle
        length complete) := by
  have totals : ∀ here : StreamVerifier,
      (here.settle length complete).desc = here.desc ∧
      (here.settle length complete).segs = here.segs ∧
      (here.settle length complete).stageRemaining = here.stageRemaining ∧
      (here.settle length complete).left = here.left ∧
      (here.settle length complete).verifiedBytes = asU64 (here.verifiedBytes + length) ∧
      ((here.settle length complete).state = .awaitDescriptor → here.state = .awaitDescriptor) ∧
      ((here.settle length complete).state.Finished → here.state.Finished ∨ complete ≠ none) := by
    intro here
    cases complete with
    | none => exact ⟨rfl, rfl, rfl, rfl, rfl, id, .inl⟩
    | some st =>
      refine ⟨rfl, rfl, rfl, rfl, rfl, ?_, fun _ => .inr (by simp)⟩
      simp only [settle]
      split <;> simp
  obtain ⟨desc, segs, stageRemaining, left, verifiedBytes, begun, finished⟩ :=
    totals (if s.next + 1 = s.n then v.closeSegment i s e.stage else v.advance i s)
  exact
    { desc := desc.trans (by split <;> rfl)
      segs := segs.trans (by unfold SegState.bumped; split <;> rfl)
      stageRemaining := stageRemaining.trans (by split <;> rfl)
      left := left.trans (by split <;> rfl)
      verifiedBytes := verifiedBytes.trans (by split <;> rfl)
      begun := fun awaiting => by
        have before := begun awaiting
        split at before <;> exact before
      finished := fun ended => by
        rcases finished ended with before | some'
        · split at before <;> exact .inl before
        · exact .inr (completed some') }

theorem releaseChunk_spec (place : Place v d i e s) :
    (releaseChunk primitives i segId idx bytes).Ensures v
      (fun event next =>
        event.releases = some ⟨segId, e.segType, idx, d.header.segmentOffset idx,
          asU64 (e.bodyOffset + d.header.segmentOffset idx), bytes⟩ ∧
        Advanced v d i e s bytes.length next)
      fun _ next => Quiet v next := by
  unfold releaseChunk
  simp only [ensures_bind, ensures_entryAt place, ensures_segAt place, ensures_get,
    ensures_modify, ensures_pure]
  have tracked : Quiet v (v.track (asU64 (e.bodyOffset + d.header.segmentOffset idx)) bytes) :=
    quiet_track
  have place' := place.moved tracked.desc tracked.segs
  apply (completing_spec place'.installed).mono
  · rintro complete _ ⟨rfl, completed⟩
    apply (advanceSegment_spec place').weaken
    rintro stageVerified _ rfl
    refine ⟨rfl, ?_⟩
    simp only [decide_eq_true_eq]
    have advanced := @advanced_settle
      (v.track (asU64 (e.bodyOffset + d.header.segmentOffset idx)) bytes)
      d i e s bytes.length complete fun some' => by
        obtain ⟨both, fills⟩ := completed some'
        simp only [Bool.and_eq_true, decide_eq_true_eq] at both
        exact ⟨both.1, both.2, fills⟩
    exact { advanced with }
  · exact fun _ _ quiet => tracked.trans quiet

/-- A message that a frame makes the verifier hash: the leaf of the chunk it
carries, or the list of the leaves it carries. -/
def FrameMessage (fileId : Octets 16) (frame message : List UInt8) : Prop :=
  ∃ segId number, littleEndianAt 8 frame 1 = some segId ∧ littleEndianAt 4 frame 9 = some number ∧
    (message = leafMessage fileId segId number (frame.drop 17) ∨
      message = tableMessage fileId segId number (frame.drop 13))

structure Consistent (v : StreamVerifier) (d : VerifiedDescriptor) : Prop where
  installed : v.desc = some d
  valid : d.Valid
  length : v.segs.length = d.entries.length
  counted : ∀ (i : Nat) e s, d.entries[i]? = some e → v.segs[i]? = some s →
    d.header.chunkCount e.storedLen = some s.n
  table : ∀ (i : Nat) e s flat, d.entries[i]? = some e → v.segs[i]? = some s →
    s.leaves = some flat → flat.length = 32 * s.n

theorem Consistent.place {segId : Nat} (consistent : Consistent v d)
    (found : (v.desc.bind fun d => d.find segId) = some i) :
    ∃ e s, Place v d i e s ∧ e.segId = segId := by
  rw [consistent.installed, Option.bind_some] at found
  obtain ⟨e, entry, idEq⟩ := consistent.valid.found found
  have inside : i < v.segs.length := by
    rw [consistent.length]
    exact (List.getElem?_eq_some_iff.mp entry).1
  have seg := List.getElem?_eq_getElem inside
  exact ⟨e, v.segs[i],
    { installed := consistent.installed
      parsed := consistent.valid.header
      entry := entry
      seg := seg
      fits := consistent.valid.fits e (List.mem_of_getElem? entry)
      counted := consistent.counted _ e _ entry seg
      table := fun flat kept => consistent.table _ e _ flat entry seg kept },
    idEq⟩

/-- What keeping a table changes. -/
structure Kept (v : StreamVerifier) (i : Nat) (s : SegState) (flat : List UInt8)
    (next : StreamVerifier) : Prop where
  desc : next.desc = v.desc
  segs : next.segs = v.segs.set i { s with leaves := some flat }
  stageRemaining : next.stageRemaining = v.stageRemaining
  left : next.left = v.left
  verifiedBytes : next.verifiedBytes = v.verifiedBytes
  begun : next.state = .awaitDescriptor → v.state = .awaitDescriptor
  finished : next.state.Finished → v.state.Finished

/-- What an accepted frame can do. -/
inductive FrameEffect (primitives : Primitives) (v : StreamVerifier) (d : VerifiedDescriptor)
    (frame : List UInt8) (event : Event) (next : StreamVerifier) : Prop
  | quiet : event.releases = none → Quiet v next → FrameEffect primitives v d frame event next
  | table (i : Nat) (e : StreamEntry) (s : SegState) (flat : List UInt8) :
      event.releases = none → Place v d i e s → s.n > 1 → s.done = false →
      flat.length = 32 * s.n →
      primitives.chunkListHashFlat d.header.fileId e.segId flat = some e.chunkTableHash →
      FrameMessage d.header.fileId frame (tableMessage d.header.fileId e.segId s.n flat) →
      Kept v i s flat next → FrameEffect primitives v d frame event next
  | release (i : Nat) (e : StreamEntry) (s : SegState) (bytes : List UInt8) :
      event.releases = some ⟨e.segId, e.segType, s.next, d.header.segmentOffset s.next,
        asU64 (e.bodyOffset + d.header.segmentOffset s.next), bytes⟩ →
      Place v d i e s → Admitted primitives v d e s e.segId s.next bytes →
      FrameMessage d.header.fileId frame (leafMessage d.header.fileId e.segId s.next bytes) →
      Advanced v d i e s bytes.length next → FrameEffect primitives v d frame event next

section Frames

variable {primitives : Primitives} {f : List UInt8}

theorem onChunk_spec (consistent : Consistent v d) :
    (onChunk primitives f).Ensures v (FrameEffect primitives v d f)
      fun _ next => Quiet v next := by
  unfold onChunk
  rw [ensures_bind, ensures_refuseIf]
  refine ⟨fun _ => quiet_poisoning, fun short => ?_⟩
  simp (disch := omega) only [ensures_bind, ensures_u64At, ensures_u32At, ensures_refuseIf,
    ensures_get, ensures_orRefuse]
  refine ⟨fun _ => quiet_poisoning, fun _ => ⟨fun i found => ?_, fun _ => quiet_faulting⟩⟩
  obtain ⟨e, s, place, idEq⟩ := consistent.place found
  rw [ensures_segAt place, ← idEq, ensures_ite]
  refine ⟨fun _ => ?_, fun _ => ?_⟩
  · apply (onDuplicateChunk_spec place).weaken
    exact fun _ _ effect => .quiet effect.1 effect.2
  · rw [ensures_bind]
    apply (admitChunk_spec place).weaken
    rintro _ _ ⟨rfl, admitted⟩
    apply (releaseChunk_spec place).weaken
    rintro event next ⟨releases, advanced⟩
    have order := admitted.next
    rw [order] at releases admitted
    refine .release i e s _ releases place admitted ⟨_, _, littleEndianAt_eq (by omega),
      littleEndianAt_eq (by omega), .inl ?_⟩ advanced
    rw [idEq, order]

theorem onTable_spec (consistent : Consistent v d) :
    (onTable primitives f).Ensures v (FrameEffect primitives v d f)
      fun _ next => Quiet v next := by
  unfold onTable
  rw [ensures_bind, ensures_refuseIf]
  refine ⟨fun _ => quiet_poisoning, fun short => ?_⟩
  simp (disch := omega) only [ensures_bind, ensures_u64At, ensures_u32At, ensures_refuseIf,
    ensures_get, ensures_orRefuse]
  refine ⟨fun _ => quiet_poisoning, fun sized => ⟨fun i found => ?_, fun _ => quiet_faulting⟩⟩
  obtain ⟨e, s, place, idEq⟩ := consistent.place found
  simp only [ensures_segAt place, ensures_entryAt place, ensures_modify, ensures_pure]
  refine ⟨fun _ => quiet_faulting, fun open' => ⟨fun _ => quiet_poisoning, fun count =>
    ⟨fun _ => quiet_faulting, fun _ => ⟨fun _ => quiet_faulting, fun hashes => ?_⟩⟩⟩⟩
  simp only [not_or, not_le, Bool.not_eq_true] at open'
  refine .table i e s (f.drop 13) rfl place open'.1 open'.2.2 ?_ ?_ ?_
    ⟨rfl, rfl, rfl, rfl, rfl, id, id⟩
  · rw [← not_not.mp count]
    exact not_not.mp sized
  · rw [idEq]
    exact not_not.mp hashes
  · refine ⟨_, _, littleEndianAt_eq (by omega), littleEndianAt_eq (by omega), .inr ?_⟩
    rw [idEq, not_not.mp count]

theorem repeatsDescriptor_spec (installed : v.desc = some d) :
    (repeatsDescriptor primitives f).Ensures v (fun _ next => next = v) Refused := by
  unfold repeatsDescriptor
  simp only [ensures_bind, ensures_get, ensures_ite, ensures_orPanic, ensures_pure]
  exact ⟨fun _ => ⟨d, installed, trivial⟩, fun _ => trivial⟩

theorem onDescriptorAgain_spec (installed : v.desc = some d) :
    (onDescriptorAgain primitives f).Ensures v
      (fun event next => event.releases = none ∧ Quiet v next) fun _ next => Quiet v next := by
  unfold onDescriptorAgain
  rw [ensures_bind, ensures_refuseIf]
  refine ⟨fun _ => quiet_poisoning, fun short => ?_⟩
  rw [ensures_bind, ensures_u32At (by omega), ensures_bind, ensures_refuseIf]
  refine ⟨fun _ => quiet_poisoning, fun _ => ?_⟩
  rw [ensures_bind]
  apply (repeatsDescriptor_spec installed).weaken
  rintro same _ rfl
  simp only [ensures_bind, ensures_refuseIf, ensures_pure]
  refine ⟨fun _ => quiet_faulting, fun _ => ?_⟩
  apply countDuplicate_spec.weaken
  exact fun _ _ quiet => ⟨rfl, quiet⟩

theorem dispatch_spec (consistent : Consistent v d) :
    (dispatch primitives f).Ensures v (FrameEffect primitives v d f)
      fun _ next => Quiet v next := by
  unfold dispatch
  split
  · exact onChunk_spec consistent
  · split
    · exact onTable_spec consistent
    · split
      · apply (onDescriptorAgain_spec consistent.installed).weaken
        exact fun _ _ effect => .quiet effect.1 effect.2
      · exact quiet_faulting

end Frames

end Rvm.Rvf
