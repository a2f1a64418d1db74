import Rvm.Foundation.Overlay
import Rvm.Foundation.Run
import Rvm.Memory.Compression
import Rvm.Types.Capability

/-!
Owns the reconstruction of dormant memory (`rvm-memory/src/reconstruction.rs`): checkpoints,
the buffer of deltas and their replay. A damaged checkpoint is told by its 64-bit FNV-1a
hash only.
-/

namespace Rvm.Memory

open Foundation Foundation.Overlay List

/-! ### Checkpoints and deltas -/

structure CheckpointId where
  asU64 : Nat
deriving DecidableEq, Repr

structure OwnedRegionId where
  asU64 : Nat
deriving DecidableEq, Repr

structure WitnessDelta where
  sequence : Nat
  offset : Nat
  length : Nat
  dataHash : Nat
deriving DecidableEq, Repr

structure CompressedCheckpoint where
  id : CheckpointId
  regionId : OwnedRegionId
  witnessSequence : Nat
  uncompressedHash : Nat
  uncompressedSize : Nat
  compressedSize : Nat
deriving DecidableEq, Repr

structure ReconstructionResult where
  regionId : OwnedRegionId
  sizeBytes : Nat
  deltasApplied : Nat
  finalHash : Nat
deriving DecidableEq, Repr

def fnv1aHash (data : List UInt8) : Nat :=
  data.foldl (fun hash byte => (hash ^^^ byte.toNat) * 0x0100000001b3 % 18446744073709551616)
    0xcbf29ce484222325

/-- Returns the checkpoint and the compressed bytes, written to an output of this
capacity. -/
def createCheckpoint (regionId : OwnedRegionId) (checkpointId : CheckpointId)
    (witnessSequence : Nat) (data : List UInt8) (capacity : Nat) :
    Except RvmError (CompressedCheckpoint × List UInt8) :=
  if data.isEmpty then .error .resourceLimitExceeded
  else
    match compress data capacity with
    | .error e => .error e
    | .ok compressed =>
      .ok (⟨checkpointId, regionId, witnessSequence, fnv1aHash data, asU32 data.length,
        asU32 compressed.length⟩, compressed)

section Creation

variable {regionId : OwnedRegionId} {checkpointId : CheckpointId} {witnessSequence capacity : Nat}
  {data compressed : List UInt8}

theorem createCheckpoint_eq (nonempty : data ≠ [])
    (returned : compress data capacity = .ok compressed) :
    createCheckpoint regionId checkpointId witnessSequence data capacity =
      .ok (⟨checkpointId, regionId, witnessSequence, fnv1aHash data, asU32 data.length,
        asU32 compressed.length⟩, compressed) := by
  rw [createCheckpoint, if_neg (by rwa [List.isEmpty_iff]), returned]

theorem createCheckpoint_spec {checkpoint : CompressedCheckpoint}
    (created : createCheckpoint regionId checkpointId witnessSequence data capacity =
      .ok (checkpoint, compressed)) :
    compress data capacity = .ok compressed ∧
      checkpoint = ⟨checkpointId, regionId, witnessSequence, fnv1aHash data, asU32 data.length,
        asU32 compressed.length⟩ := by
  unfold createCheckpoint at created
  split at created
  · cases created
  · cases returned : compress data capacity with
    | error e => simp [returned] at created
    | ok written =>
      rw [returned] at created
      cases created
      exact ⟨rfl, rfl⟩

end Creation

structure ReconstructionPipeline where
  deltas : Nat → Option WitnessDelta
  deltaCount : Nat

namespace ReconstructionPipeline

def new : ReconstructionPipeline := ⟨fun _ => none, 0⟩

/-- Whether the last buffered delta is not before this one. -/
def outOfOrder (pipeline : ReconstructionPipeline) (delta : WitnessDelta) : Bool :=
  match pipeline.deltas (pipeline.deltaCount - 1) with
  | some last => decide (delta.sequence ≤ last.sequence)
  | none => false

def addDelta (maxDeltas : Nat) (pipeline : ReconstructionPipeline) (delta : WitnessDelta) :
    Except RvmError ReconstructionPipeline :=
  if pipeline.deltaCount ≥ maxDeltas then .error .resourceLimitExceeded
  else if 0 < pipeline.deltaCount ∧ pipeline.outOfOrder delta = true then
    .error .witnessChainBroken
  else
    .ok ⟨Function.update pipeline.deltas pipeline.deltaCount (some delta), pipeline.deltaCount + 1⟩

/-! ### Replay -/

/-- Check one delta and copy its data over the image; also counts. -/
def applyDelta (uncompressedSize : Nat) (deltaData : WitnessDelta → List UInt8)
    (state : List UInt8 × Nat) (delta : WitnessDelta) : Except RvmError (List UInt8 × Nat) :=
  if delta.offset + delta.length > uncompressedSize then .error .checkpointCorrupted
  else if (deltaData delta).length < delta.length then .error .checkpointCorrupted
  else if fnv1aHash ((deltaData delta).take delta.length) ≠ delta.dataHash then
    .error .witnessVerificationFailed
  else
    .ok (overwrite state.1 ⟨delta.offset, (deltaData delta).take delta.length⟩,
      asU32 (state.2 + 1))

/-- The loop over the buffered deltas; empty slots are skipped. -/
def applyDeltas (uncompressedSize : Nat) (deltaData : WitnessDelta → List UInt8)
    (pipeline : ReconstructionPipeline) (image : List UInt8) :
    Except RvmError (List UInt8 × Nat) :=
  (List.range pipeline.deltaCount).foldlM (fun state i =>
    match pipeline.deltas i with
    | some delta => applyDelta uncompressedSize deltaData state delta
    | none => .ok state) (image, 0)

/-- Returns the result and what the output buffer then holds. -/
def reconstruct (pipeline : ReconstructionPipeline) (checkpoint : CompressedCheckpoint)
    (compressedData output : List UInt8) (deltaData : WitnessDelta → List UInt8) :
    Except RvmError (ReconstructionResult × List UInt8) :=
  let uncompressedSize := checkpoint.uncompressedSize
  if compressedData.length < checkpoint.compressedSize then .error .checkpointCorrupted
  else if output.length < uncompressedSize then .error .resourceLimitExceeded
  else
    match decompress (compressedData.take checkpoint.compressedSize) uncompressedSize with
    | .error e => .error e
    | .ok base =>
      if base.length ≠ uncompressedSize then .error .checkpointCorrupted
      else if fnv1aHash base ≠ checkpoint.uncompressedHash then .error .checkpointCorrupted
      else
        match pipeline.applyDeltas uncompressedSize deltaData base with
        | .error e => .error e
        | .ok (image, applied) =>
          .ok (⟨checkpoint.regionId, asU32 uncompressedSize, applied, fnv1aHash image⟩,
            image ++ output.drop uncompressedSize)

end ReconstructionPipeline

/-! ### Filling the buffer -/

inductive DeltaCall where
  | addDelta (delta : WitnessDelta)
  | clear
deriving DecidableEq, Repr

namespace ReconstructionPipeline

def apply (maxDeltas : Nat) (pipeline : ReconstructionPipeline) :
    DeltaCall → Except RvmError Unit × ReconstructionPipeline
  | .addDelta delta =>
    match pipeline.addDelta maxDeltas delta with
    | .ok next => (.ok (), next)
    | .error e => (.error e, pipeline)
  | .clear => (.ok (), .new)

def Step (maxDeltas : Nat) (pipeline : ReconstructionPipeline)
    (label : DeltaCall × Except RvmError Unit) (next : ReconstructionPipeline) : Prop :=
  pipeline.apply maxDeltas label.1 = (label.2, next)

def noteCall (deltas : List WitnessDelta) : DeltaCall × Except RvmError Unit → List WitnessDelta
  | (.addDelta delta, .ok ()) => deltas ++ [delta]
  | (.addDelta _, .error _) => deltas
  | (.clear, _) => []

/-- The deltas accepted since the buffer was last cleared. -/
def accepted (history : List (DeltaCall × Except RvmError Unit)) : List WitnessDelta :=
  history.foldl noteCall []

structure Buffered (pipeline : ReconstructionPipeline) (deltas : List WitnessDelta) : Prop where
  count : pipeline.deltaCount = deltas.length
  slots : ∀ i, i < deltas.length → pipeline.deltas i = deltas[i]?
  increasing : deltas.Pairwise fun earlier later => earlier.sequence < later.sequence

variable {maxDeltas : Nat} {pipeline next : ReconstructionPipeline} {deltas : List WitnessDelta}

theorem buffered_new : Buffered new [] where
  count := rfl
  slots i below := absurd below (Nat.not_lt_zero i)
  increasing := .nil

theorem Buffered.addDelta (buffered : Buffered pipeline deltas) {delta : WitnessDelta}
    (added : pipeline.addDelta maxDeltas delta = .ok next) : Buffered next (deltas ++ [delta]) := by
  unfold ReconstructionPipeline.addDelta at added
  split at added
  · cases added
  · split at added
    · cases added
    · rename_i ordered
      cases added
      constructor
      · rw [length_append, length_singleton, buffered.count]
      · intro i below
        rw [length_append, length_singleton] at below
        dsimp only
        rw [buffered.count]
        by_cases last : i = deltas.length
        · rw [last, Function.update_self, List.getElem?_concat_length]
        · rw [Function.update_of_ne last, List.getElem?_append_left (by omega)]
          exact buffered.slots i (by omega)
      · rw [pairwise_append]
        refine ⟨buffered.increasing, pairwise_singleton _ _, fun earlier member later isNew => ?_⟩
        rw [mem_singleton.mp isNew]
        have nonempty : 0 < deltas.length := length_pos_of_mem member
        have last : deltas[deltas.length - 1]? = some (deltas.getLast (ne_nil_of_mem member)) := by
          rw [← List.getLast?_eq_getElem?, List.getLast?_eq_some_getLast]
        have inOrder : (deltas.getLast (ne_nil_of_mem member)).sequence < delta.sequence := by
          by_contra notAfter
          apply ordered
          refine ⟨buffered.count ▸ nonempty, ?_⟩
          rw [outOfOrder, buffered.count, buffered.slots _ (by omega), last]
          exact decide_eq_true (Nat.not_lt.mp notAfter)
        obtain ⟨i, inside, rfl⟩ := mem_iff_getElem.mp member
        by_cases isLast : i = deltas.length - 1
        · rw [getLast_eq_getElem] at inOrder
          simp only [isLast]
          exact inOrder
        · have before := pairwise_iff_getElem.mp buffered.increasing i (deltas.length - 1)
            inside (by omega) (by omega)
          rw [getLast_eq_getElem] at inOrder
          exact before.trans inOrder

theorem accepted_append_singleton (history : List (DeltaCall × Except RvmError Unit))
    (label : DeltaCall × Except RvmError Unit) :
    accepted (history ++ [label]) = noteCall (accepted history) label := by
  rw [accepted, foldl_append]
  rfl

theorem buffered_run {history : List (DeltaCall × Except RvmError Unit)}
    (run : Run (Step maxDeltas) new history pipeline) : Buffered pipeline (accepted history) := by
  induction run with
  | nil => exact buffered_new
  | @snoc history label here final _ step buffered =>
    rw [accepted_append_singleton]
    obtain ⟨call, outcome⟩ := label
    cases call with
    | clear =>
      cases step
      exact buffered_new
    | addDelta delta =>
      dsimp only [Step, apply] at step
      cases added : here.addDelta maxDeltas delta with
      | error e =>
        rw [added] at step
        cases step
        exact buffered
      | ok after =>
        rw [added] at step
        cases step
        exact buffered.addDelta added

theorem Buffered.applyDeltas (buffered : Buffered pipeline deltas) (uncompressedSize : Nat)
    (deltaData : WitnessDelta → List UInt8) (image : List UInt8) :
    pipeline.applyDeltas uncompressedSize deltaData image =
      deltas.foldlM (applyDelta uncompressedSize deltaData) (image, 0) := by
  have upTo : ∀ count, count ≤ deltas.length →
      (List.range count).foldlM (fun state i =>
        match pipeline.deltas i with
        | some delta => applyDelta uncompressedSize deltaData state delta
        | none => .ok state) (image, 0) =
      (deltas.take count).foldlM (applyDelta uncompressedSize deltaData) (image, 0) := by
    intro count below
    induction count with
    | zero => rfl
    | succ count ih =>
      have inside : count < deltas.length := below
      rw [range_succ, foldlM_append, ih (by omega), take_add_one,
        foldlM_append]
      congr 1
      funext state
      rw [foldlM_cons, buffered.slots count inside, List.getElem?_eq_getElem inside]
      rfl
  rw [ReconstructionPipeline.applyDeltas, buffered.count, upTo deltas.length (le_refl _),
    take_length]

end ReconstructionPipeline

/-! ### Replayed images -/

namespace WitnessDelta

structure Valid (uncompressedSize : Nat) (deltaData : WitnessDelta → List UInt8)
    (delta : WitnessDelta) : Prop where
  inside : delta.offset + delta.length ≤ uncompressedSize
  supplied : delta.length ≤ (deltaData delta).length
  intact : fnv1aHash ((deltaData delta).take delta.length) = delta.dataHash

/-- The delta writes the position. -/
def Covers (delta : WitnessDelta) (i : Nat) : Prop :=
  delta.offset ≤ i ∧ i < delta.offset + delta.length

def write (deltaData : WitnessDelta → List UInt8) (delta : WitnessDelta) : Write UInt8 :=
  ⟨delta.offset, (deltaData delta).take delta.length⟩

variable {uncompressedSize : Nat} {deltaData : WitnessDelta → List UInt8} {delta : WitnessDelta}

theorem Valid.write_length (valid : delta.Valid uncompressedSize deltaData) :
    (delta.write deltaData).values.length = delta.length := by
  rw [write, length_take, Nat.min_eq_left valid.supplied]

theorem Valid.write_covers_iff (valid : delta.Valid uncompressedSize deltaData) {i : Nat} :
    (delta.write deltaData).Covers i ↔ delta.Covers i := by
  rw [Write.Covers, valid.write_length]
  rfl

theorem Valid.write_inside (valid : delta.Valid uncompressedSize deltaData) :
    (delta.write deltaData).Inside uncompressedSize := by
  rw [Write.Inside, valid.write_length]
  exact valid.inside

end WitnessDelta

/-- The base image with the deltas' data, where of two deltas that write a
position the one with the larger sequence number shows. -/
structure Replayed (base : List UInt8) (deltas : List WitnessDelta)
    (deltaData : WitnessDelta → List UInt8) (image : List UInt8) : Prop where
  length : image.length = base.length
  untouched : ∀ i, (∀ delta ∈ deltas, ¬delta.Covers i) → image[i]? = base[i]?
  latest : ∀ i, ∀ delta ∈ deltas, delta.Covers i →
    (∀ other ∈ deltas, other.Covers i → other.sequence ≤ delta.sequence) →
    image[i]? = (deltaData delta)[i - delta.offset]?

section Replay

variable {base : List UInt8} {deltas : List WitnessDelta} {deltaData : WitnessDelta → List UInt8}

theorem replayed_overlay
    (increasing : deltas.Pairwise fun earlier later => earlier.sequence < later.sequence)
    (valid : ∀ delta ∈ deltas, delta.Valid base.length deltaData) :
    Replayed base deltas deltaData (overlay base (deltas.map (WitnessDelta.write deltaData))) := by
  have inside : ∀ write ∈ deltas.map (WitnessDelta.write deltaData), write.Inside base.length := by
    intro write member
    obtain ⟨delta, isDelta, rfl⟩ := mem_map.mp member
    exact (valid delta isDelta).write_inside
  refine ⟨overlay_length inside, fun i uncovered => ?_, fun i delta member covers greatest => ?_⟩
  · apply overlay_uncovered inside
    intro write isWrite covers
    obtain ⟨delta, isDelta, rfl⟩ := mem_map.mp isWrite
    exact uncovered delta isDelta ((valid delta isDelta).write_covers_iff.mp covers)
  · obtain ⟨first, later, rfl⟩ := append_of_mem member
    rw [map_append, map_cons] at inside ⊢
    have afterwards : ∀ write ∈ later.map (WitnessDelta.write deltaData), ¬write.Covers i := by
      intro write isWrite coversToo
      obtain ⟨other, isLater, rfl⟩ := mem_map.mp isWrite
      have isDelta : other ∈ first ++ delta :: later :=
        mem_append_right _ (mem_cons_of_mem delta isLater)
      have bounded := greatest other isDelta ((valid other isDelta).write_covers_iff.mp coversToo)
      have ordered := (pairwise_cons.mp (pairwise_append.mp increasing).2.1).1 other isLater
      omega
    rw [overlay_last inside ((valid delta member).write_covers_iff.mpr covers) afterwards]
    have near : i - delta.offset < delta.length := by
      have written := covers
      unfold WitnessDelta.Covers at written
      omega
    exact List.getElem?_take_of_lt near

theorem foldlM_applyDelta (valid : ∀ delta ∈ deltas, delta.Valid base.length deltaData)
    {image : List UInt8} (sameLength : image.length = base.length) (count : Nat) :
    deltas.foldlM (ReconstructionPipeline.applyDelta base.length deltaData) (image, asU32 count) =
      .ok (overlay image (deltas.map (WitnessDelta.write deltaData)),
        asU32 (count + deltas.length)) := by
  induction deltas generalizing image count with
  | nil => rfl
  | cons delta rest ih =>
    obtain ⟨inside, supplied, intact⟩ := valid delta mem_cons_self
    have applied : ReconstructionPipeline.applyDelta base.length deltaData (image, asU32 count)
        delta = .ok (overwrite image (delta.write deltaData), asU32 (count + 1)) := by
      rw [ReconstructionPipeline.applyDelta, if_neg (Nat.not_lt.mpr inside),
        if_neg (Nat.not_lt.mpr supplied), if_neg (not_not.mpr intact)]
      have counted : asU32 (asU32 count + 1) = asU32 (count + 1) :=
        Nat.mod_add_mod count 4294967296 1
      rw [counted]
      rfl
    have kept : (overwrite image (delta.write deltaData)).length = base.length := by
      rw [overwrite_length, sameLength]
      rw [sameLength]
      exact (valid delta mem_cons_self).write_inside
    have later := ih
      (fun other member => valid other (mem_cons_of_mem delta member)) kept (count + 1)
    rw [foldlM_cons, applied]
    refine later.trans ?_
    rw [map_cons, length_cons, Nat.add_assoc, Nat.add_comm 1]
    rfl

theorem applyDelta_isOk_iff {uncompressedSize : Nat} {delta : WitnessDelta}
    (state : List UInt8 × Nat) :
    (∃ next, ReconstructionPipeline.applyDelta uncompressedSize deltaData state delta = .ok next) ↔
      delta.Valid uncompressedSize deltaData := by
  unfold ReconstructionPipeline.applyDelta
  constructor
  · intro ⟨next, applied⟩
    split at applied
    · cases applied
    · next inside =>
        split at applied
        · cases applied
        · next supplied =>
            split at applied
            · cases applied
            · next intact =>
                exact ⟨Nat.not_lt.mp inside, Nat.not_lt.mp supplied, not_not.mp intact⟩
  · intro ⟨inside, supplied, intact⟩
    rw [if_neg (Nat.not_lt.mpr inside), if_neg (Nat.not_lt.mpr supplied),
      if_neg (not_not.mpr intact)]
    exact ⟨_, rfl⟩

theorem foldlM_applyDelta_error {uncompressedSize : Nat}
    (invalid : ∃ delta ∈ deltas, ¬delta.Valid uncompressedSize deltaData)
    (state : List UInt8 × Nat) :
    ∃ e, deltas.foldlM (ReconstructionPipeline.applyDelta uncompressedSize deltaData) state =
      .error e := by
  induction deltas generalizing state with
  | nil =>
    obtain ⟨delta, member, _⟩ := invalid
    cases member
  | cons first rest ih =>
    rw [foldlM_cons]
    cases applied : ReconstructionPipeline.applyDelta uncompressedSize deltaData state first with
    | error e => exact ⟨e, rfl⟩
    | ok next =>
      have firstValid := (applyDelta_isOk_iff state).mp ⟨next, applied⟩
      obtain ⟨delta, member, isInvalid⟩ := invalid
      rcases mem_cons.mp member with rfl | later
      · exact absurd firstValid isInvalid
      · exact ih ⟨delta, later, isInvalid⟩ next

end Replay

/-! ### Exact reconstruction -/

namespace ReconstructionPipeline

variable {maxDeltas : Nat} {pipeline : ReconstructionPipeline} {deltas : List WitnessDelta}
  {checkpoint : CompressedCheckpoint} {compressedData output : List UInt8}
  {deltaData : WitnessDelta → List UInt8}

/-- Whatever bytes it is given, a reconstruction that succeeds has replayed the
deltas over an image of the recorded size and hash. -/
theorem Buffered.reconstruct_sound (buffered : Buffered pipeline deltas)
    {result : ReconstructionResult} {final : List UInt8}
    (returned : pipeline.reconstruct checkpoint compressedData output deltaData =
      .ok (result, final)) :
    ∃ base image, base.length = checkpoint.uncompressedSize ∧
      fnv1aHash base = checkpoint.uncompressedHash ∧ Replayed base deltas deltaData image ∧
      final = image ++ output.drop base.length ∧ result.finalHash = fnv1aHash image ∧
      ∀ delta ∈ deltas, delta.Valid base.length deltaData := by
  unfold reconstruct at returned
  dsimp only at returned
  split at returned
  · cases returned
  · split at returned
    · cases returned
    · cases decompressed : decompress (compressedData.take checkpoint.compressedSize)
          checkpoint.uncompressedSize with
      | error e => simp [decompressed] at returned
      | ok base =>
        rw [decompressed] at returned
        dsimp only at returned
        split at returned
        · cases returned
        · rename_i sized
          rw [not_not] at sized
          split at returned
          · cases returned
          · rename_i hashed
            rw [← sized, buffered.applyDeltas] at returned
            by_cases valid : ∀ delta ∈ deltas, delta.Valid base.length deltaData
            · have applied := @foldlM_applyDelta base deltas deltaData valid base rfl 0
              rw [show asU32 0 = 0 from rfl] at applied
              rw [applied] at returned
              cases returned
              exact ⟨base, _, sized, not_not.mp hashed, replayed_overlay buffered.increasing valid,
                rfl, rfl, valid⟩
            · push Not at valid
              obtain ⟨e, failed⟩ := @foldlM_applyDelta_error deltas deltaData base.length valid
                (base, 0)
              rw [failed] at returned
              cases returned

theorem Buffered.reconstruct_created (buffered : Buffered pipeline deltas)
    {regionId : OwnedRegionId} {checkpointId : CheckpointId} {witnessSequence capacity : Nat}
    {data compressed : List UInt8}
    (created : createCheckpoint regionId checkpointId witnessSequence data capacity =
      .ok (checkpoint, compressed))
    (small : data.length < 4294967296) (compressedSmall : compressed.length < 4294967296)
    (room : data.length ≤ output.length) (trailing : List UInt8)
    (valid : ∀ delta ∈ deltas, delta.Valid data.length deltaData) :
    ∃ image, Replayed data deltas deltaData image ∧
      pipeline.reconstruct checkpoint (compressed ++ trailing) output deltaData =
        .ok (⟨regionId, data.length, asU32 deltas.length, fnv1aHash image⟩,
          image ++ output.drop data.length) := by
  obtain ⟨returned, rfl⟩ := createCheckpoint_spec created
  have size : asU32 data.length = data.length := Nat.mod_eq_of_lt small
  have compressedSize : asU32 compressed.length = compressed.length :=
    Nat.mod_eq_of_lt compressedSmall
  have applied := @foldlM_applyDelta data deltas deltaData valid data rfl 0
  rw [show asU32 0 = 0 from rfl, Nat.zero_add] at applied
  refine ⟨_, replayed_overlay buffered.increasing valid, ?_⟩
  rw [reconstruct]
  dsimp only
  rw [size, compressedSize, if_neg (by rw [length_append]; omega), if_neg (by omega),
    take_left' rfl, decompress_compress returned small (le_refl _)]
  dsimp only
  rw [if_neg (not_not.mpr rfl), if_neg (not_not.mpr rfl), buffered.applyDeltas, applied]
  dsimp only
  rw [size]

/-- The replayed image from the checkpoint as created and valid deltas, and a failure, or an image
of the recorded size and hash, from anything else. -/
theorem exactReconstruction {regionId : OwnedRegionId} {checkpointId : CheckpointId}
    {witnessSequence capacity : Nat} {data compressed : List UInt8}
    (created : createCheckpoint regionId checkpointId witnessSequence data capacity =
      .ok (checkpoint, compressed))
    (small : data.length < 4294967296) (compressedSmall : compressed.length < 4294967296)
    {history : List (DeltaCall × Except RvmError Unit)}
    (run : Run (Step maxDeltas) new history pipeline) (room : data.length ≤ output.length)
    (trailing : List UInt8) (deltaData : WitnessDelta → List UInt8) :
    (accepted history).Pairwise (fun earlier later => earlier.sequence < later.sequence) ∧
    ((∀ delta ∈ accepted history, delta.Valid data.length deltaData) →
      ∃ image, Replayed data (accepted history) deltaData image ∧
        pipeline.reconstruct checkpoint (compressed ++ trailing) output deltaData =
          .ok (⟨regionId, data.length, asU32 (accepted history).length, fnv1aHash image⟩,
            image ++ output.drop data.length)) ∧
    ((∃ delta ∈ accepted history, ¬delta.Valid data.length deltaData) →
      ∃ e, pipeline.reconstruct checkpoint (compressed ++ trailing) output deltaData =
        .error e) ∧
    ∀ record bytes result final,
      pipeline.reconstruct record bytes output deltaData = .ok (result, final) →
      ∃ base image, base.length = record.uncompressedSize ∧
        fnv1aHash base = record.uncompressedHash ∧
        Replayed base (accepted history) deltaData image ∧
        final = image ++ output.drop base.length ∧ result.finalHash = fnv1aHash image ∧
        ∀ delta ∈ accepted history, delta.Valid base.length deltaData := by
  have buffered := buffered_run run
  refine ⟨buffered.increasing, fun valid => ?_, fun invalid => ?_,
    fun record bytes result final returned => buffered.reconstruct_sound returned⟩
  · exact buffered.reconstruct_created created small compressedSmall room trailing valid
  · cases outcome : pipeline.reconstruct checkpoint (compressed ++ trailing) output deltaData with
    | error e => exact ⟨e, rfl⟩
    | ok returned =>
      obtain ⟨base, _, sized, _, _, _, _, valid⟩ := buffered.reconstruct_sound outcome
      obtain ⟨delta, member, isInvalid⟩ := invalid
      have recorded : checkpoint.uncompressedSize = data.length := by
        rw [(createCheckpoint_spec created).2]
        exact Nat.mod_eq_of_lt small
      rw [sized, recorded] at valid
      exact absurd (valid delta member) isInvalid

/-- A checkpoint of one byte and a delta that overwrites it. -/
theorem exactReconstruction_sample :
    ∃ (checkpoint : CompressedCheckpoint) (compressed : List UInt8)
      (pipeline : ReconstructionPipeline) (image : List UInt8),
      createCheckpoint ⟨1⟩ ⟨2⟩ 3 [5] 16 = .ok (checkpoint, compressed) ∧
        Replayed [5] [⟨1, 0, 1, fnv1aHash [9]⟩] (fun _ => [9]) image ∧
        pipeline.reconstruct checkpoint (compressed ++ []) [0] (fun _ => [9]) =
          .ok (⟨⟨1⟩, 1, 1, fnv1aHash image⟩, image ++ []) := by
  have compressed := @compress_literal [5] 16 (by decide) (by decide) (by decide) (by decide)
  have created := @createCheckpoint_eq ⟨1⟩ ⟨2⟩ 3 16 [5] _ (by decide) compressed
  have filled : Run (Step 4) new [(.addDelta ⟨1, 0, 1, fnv1aHash [9]⟩, .ok ())] _ := .single rfl
  have room : ([5] : List UInt8).length ≤ ([0] : List UInt8).length := le_refl 1
  obtain ⟨_, exact, _⟩ := exactReconstruction created (by decide) (by decide) filled room []
    fun _ => [9]
  obtain ⟨image, replayed, returned⟩ := exact fun delta member => by
    obtain rfl := List.mem_singleton.mp member
    exact ⟨by decide, by decide, by decide⟩
  exact ⟨_, _, _, image, created, replayed, returned⟩

/-! ### Where reconstruction is not exact -/

/-- Two images with one hash. -/
def collidingImages : List UInt8 × List UInt8 :=
  ([214, 79, 219, 93, 129, 164, 58, 1], [127, 121, 227, 213, 107, 141, 45, 78])

/-- The checkpoint of one image with the compressed bytes of another of the same
size and hash. -/
theorem reconstruct_colliding {left right : List UInt8} {compressed other : List UInt8}
    {regionId : OwnedRegionId} {checkpointId : CheckpointId} {witnessSequence capacity : Nat}
    (created : createCheckpoint regionId checkpointId witnessSequence left capacity =
      .ok (checkpoint, compressed))
    (small : left.length < 4294967296) (compressedSmall : compressed.length < 4294967296)
    (written : compress right capacity = .ok other) (sameLength : right.length = left.length)
    (sameSize : other.length = compressed.length) (sameHash : fnv1aHash right = fnv1aHash left)
    (room : left.length ≤ output.length) :
    new.reconstruct checkpoint other output deltaData =
      .ok (⟨regionId, left.length, 0, fnv1aHash right⟩, right ++ output.drop left.length) := by
  obtain ⟨_, rfl⟩ := createCheckpoint_spec created
  have size : asU32 left.length = left.length := Nat.mod_eq_of_lt small
  have compressedSize : asU32 compressed.length = compressed.length :=
    Nat.mod_eq_of_lt compressedSmall
  rw [reconstruct]
  dsimp only
  rw [size, compressedSize, if_neg (by omega), if_neg (by omega),
    take_of_length_le (Nat.le_of_eq sameSize),
    decompress_compress written (sameLength ▸ small) (Nat.le_of_eq sameLength)]
  dsimp only
  rw [if_neg (not_not.mpr sameLength), if_neg (not_not.mpr sameHash)]
  dsimp only [applyDeltas, new, range_zero, foldlM_nil]
  rw [size]
  rfl

theorem reconstruct_wrapped {count : Nat} (positive : 0 < count) (small : 2 * count < 4294967296)
    (wraps : asU32 (4 + 7 * count) = 7) :
    ∃ (checkpoint : CompressedCheckpoint) (compressed : List UInt8),
      createCheckpoint ⟨1⟩ ⟨2⟩ 3 (alternating count) (4 + 7 * count) =
          .ok (checkpoint, compressed) ∧
        ∀ output : List UInt8, (alternating count).length ≤ output.length →
          new.reconstruct checkpoint compressed output deltaData = .error .checkpointCorrupted := by
  have length := alternating_length count
  have header := littleEndianBytes_length 4 (alternating count).length
  have size : asU32 (alternating count).length = (alternating count).length :=
    Nat.mod_eq_of_lt (by omega)
  have compressed : compress (alternating count) (4 + 7 * count) =
      .ok (littleEndianBytes 4 (alternating count).length ++ alternatingBlocks count) := by
    rw [compress, if_neg (by omega), compressBlocks_alternating count _ (by omega)]
  have compressedSize : asU32 (littleEndianBytes 4 (alternating count).length ++
      alternatingBlocks count).length = 7 := by
    rw [length_append, header, alternatingBlocks_length, wraps]
  have taken : (littleEndianBytes 4 (alternating count).length ++ alternatingBlocks count).take 7 =
      littleEndianBytes 4 (alternating count).length ++ [1, 1, 0] := by
    obtain ⟨rest, rfl⟩ := Nat.exists_eq_add_one_of_ne_zero (Nat.ne_of_gt positive)
    rw [alternatingBlocks_succ, take_append, header, take_of_length_le (by rw [header]; decide)]
    rfl
  have value : littleEndianValue (littleEndianBytes 4 (alternating count).length) =
      (alternating count).length := by
    rw [littleEndianValue_bytes]
    exact size
  have notEmpty : alternating count ≠ [] := ne_nil_of_length_pos (by omega)
  refine ⟨_, _, createCheckpoint_eq notEmpty compressed, fun output room => ?_⟩
  rw [reconstruct]
  dsimp only
  rw [compressedSize, size, taken,
    if_neg (by rw [length_append, alternatingBlocks_length]; omega), if_neg (by omega),
    decompress_cut header (by omega) (by omega)]

/-- A damaged checkpoint is reconstructed to another image with the same hash; and
a created checkpoint whose compressed size wraps is not reconstructed. -/
theorem exactReconstruction_limits :
    (∃ (checkpoint : CompressedCheckpoint) (compressed damaged : List UInt8),
      createCheckpoint ⟨1⟩ ⟨2⟩ 3 collidingImages.1 64 = .ok (checkpoint, compressed) ∧
        damaged ≠ compressed ∧ collidingImages.2 ≠ collidingImages.1 ∧
        new.reconstruct checkpoint damaged (List.replicate 8 0) (fun _ => []) =
          .ok (⟨⟨1⟩, 8, 0, fnv1aHash collidingImages.2⟩, collidingImages.2 ++ [])) ∧
    ∃ (data : List UInt8) (checkpoint : CompressedCheckpoint) (compressed : List UInt8),
      data.length < 4294967296 ∧
      createCheckpoint ⟨1⟩ ⟨2⟩ 3 data 4294967303 = .ok (checkpoint, compressed) ∧
      ∀ output : List UInt8, data.length ≤ output.length →
        new.reconstruct checkpoint compressed output (fun _ => []) =
          .error .checkpointCorrupted := by
  constructor
  · have left := @compress_literal collidingImages.1 64 (by decide) (by decide) (by decide)
      (by decide)
    have right := @compress_literal collidingImages.2 64 (by decide) (by decide) (by decide)
      (by decide)
    have created := @createCheckpoint_eq ⟨1⟩ ⟨2⟩ 3 64 collidingImages.1 _ (by decide) left
    exact ⟨_, _, _, created, by decide, by decide, reconstruct_colliding created (by decide)
      (by decide) right rfl rfl (by decide) (by decide)⟩
  · have wraps : asU32 (4 + 7 * 613566757) = 7 := by decide
    obtain ⟨checkpoint, compressed, created, fails⟩ :=
      @reconstruct_wrapped (fun _ => []) 613566757 (by decide) (by decide) wraps
    have length := alternating_length 613566757
    exact ⟨_, checkpoint, compressed, by omega, created, fails⟩

end ReconstructionPipeline

end Rvm.Memory
