import Rvm.Memory.Reconstruction

/-!
Owns which deltas a reconstruction copies over the checkpoint's image, and in which
order: always a prefix of the buffered ones, and only writes behind the checkpoint
exactly while the first buffered delta is behind it.
-/

namespace Rvm.Memory

open Foundation List

namespace ReconstructionPipeline

/-- The buffered deltas in the order of the loop, which skips empty slots. -/
def pending (pipeline : ReconstructionPipeline) : List WitnessDelta :=
  (List.range pipeline.deltaCount).filterMap pipeline.deltas

/-- The loop over the deltas, with those that it has copied over the image. -/
def applyLogged (uncompressedSize : Nat) (deltaData : WitnessDelta → List UInt8) :
    List WitnessDelta → List UInt8 × Nat →
      Except RvmError (List UInt8 × Nat) × List WitnessDelta
  | [], state => (.ok state, [])
  | delta :: rest, state =>
    match applyDelta uncompressedSize deltaData state delta with
    | .error e => (.error e, [])
    | .ok next =>
      let later := applyLogged uncompressedSize deltaData rest next
      (later.1, delta :: later.2)

def reconstructLogged (pipeline : ReconstructionPipeline) (checkpoint : CompressedCheckpoint)
    (compressedData output : List UInt8) (deltaData : WitnessDelta → List UInt8) :
    Except RvmError (ReconstructionResult × List UInt8) × List WitnessDelta :=
  let uncompressedSize := checkpoint.uncompressedSize
  if compressedData.length < checkpoint.compressedSize then (.error .checkpointCorrupted, [])
  else if output.length < uncompressedSize then (.error .resourceLimitExceeded, [])
  else
    match decompress (compressedData.take checkpoint.compressedSize) uncompressedSize with
    | .error e => (.error e, [])
    | .ok base =>
      if base.length ≠ uncompressedSize then (.error .checkpointCorrupted, [])
      else if fnv1aHash base ≠ checkpoint.uncompressedHash then (.error .checkpointCorrupted, [])
      else
        match applyLogged uncompressedSize deltaData pipeline.pending (base, 0) with
        | (.error e, applied) => (.error e, applied)
        | (.ok (image, count), applied) =>
          (.ok (⟨checkpoint.regionId, asU32 uncompressedSize, count, fnv1aHash image⟩,
            image ++ output.drop uncompressedSize), applied)

variable {uncompressedSize : Nat} {deltaData : WitnessDelta → List UInt8}
  {pipeline : ReconstructionPipeline} {deltas : List WitnessDelta}
  {checkpoint : CompressedCheckpoint} {compressedData output : List UInt8}

theorem applyLogged_fst (deltas : List WitnessDelta) (state : List UInt8 × Nat) :
    (applyLogged uncompressedSize deltaData deltas state).1 =
      deltas.foldlM (applyDelta uncompressedSize deltaData) state := by
  induction deltas generalizing state with
  | nil => rfl
  | cons delta rest ih =>
    rw [foldlM_cons, applyLogged]
    cases applyDelta uncompressedSize deltaData state delta with
    | error e => rfl
    | ok next => exact ih next

theorem applyDeltas_eq (pipeline : ReconstructionPipeline) (image : List UInt8) :
    pipeline.applyDeltas uncompressedSize deltaData image =
      pipeline.pending.foldlM (applyDelta uncompressedSize deltaData) (image, 0) := by
  unfold applyDeltas pending
  generalize List.range pipeline.deltaCount = indices
  generalize (image, 0) = state
  induction indices generalizing state with
  | nil => rfl
  | cons i rest ih =>
    rw [foldlM_cons]
    cases buffered : pipeline.deltas i with
    | none =>
      rw [filterMap_cons_none buffered]
      exact ih state
    | some delta =>
      rw [filterMap_cons_some buffered, foldlM_cons]
      dsimp only
      cases applyDelta uncompressedSize deltaData state delta with
      | error e => rfl
      | ok next => exact ih next

theorem reconstructLogged_fst :
    (pipeline.reconstructLogged checkpoint compressedData output deltaData).1 =
      pipeline.reconstruct checkpoint compressedData output deltaData := by
  unfold reconstructLogged reconstruct
  dsimp only
  split
  · rfl
  · split
    · rfl
    · cases decompress (compressedData.take checkpoint.compressedSize)
          checkpoint.uncompressedSize with
      | error e => rfl
      | ok base =>
        dsimp only
        split
        · rfl
        · split
          · rfl
          · rw [applyDeltas_eq, ← applyLogged_fst]
            rcases applyLogged checkpoint.uncompressedSize deltaData pipeline.pending (base, 0)
              with ⟨_ | ⟨image, count⟩, applied⟩
            · rfl
            · rfl

theorem filterMap_range_getElem? (deltas : List WitnessDelta) :
    ((List.range deltas.length).filterMap fun i => deltas[i]?) = deltas := by
  induction deltas with
  | nil => rfl
  | cons delta rest ih =>
    simp only [length_cons, range_succ_eq_map, filterMap_cons,
      List.getElem?_cons_zero, filterMap_map]
    exact congrArg (delta :: ·) ih

theorem Buffered.pending_eq (buffered : Buffered pipeline deltas) : pipeline.pending = deltas := by
  have same : pipeline.pending = (List.range deltas.length).filterMap fun i => deltas[i]? := by
    rw [pending, buffered.count]
    exact filterMap_congr fun i inside => buffered.slots i (mem_range.mp inside)
  rw [same, filterMap_range_getElem?]

theorem applyLogged_spec (deltas : List WitnessDelta) (state : List UInt8 × Nat) :
    (∀ delta ∈ (applyLogged uncompressedSize deltaData deltas state).2,
      delta.Valid uncompressedSize deltaData) ∧
    ∃ skipped, deltas = (applyLogged uncompressedSize deltaData deltas state).2 ++ skipped ∧
      (∀ delta ∈ skipped.head?, ¬ delta.Valid uncompressedSize deltaData) ∧
      ((applyLogged uncompressedSize deltaData deltas state).1.isOk = true ↔ skipped = []) := by
  induction deltas generalizing state with
  | nil => exact ⟨nofun, [], rfl, nofun, iff_of_true rfl rfl⟩
  | cons delta rest ih =>
    rw [applyLogged]
    cases applied : applyDelta uncompressedSize deltaData state delta with
    | error e =>
      refine ⟨nofun, delta :: rest, rfl, fun first isFirst valid => ?_, ?_⟩
      · obtain rfl := Option.some.inj isFirst
        obtain ⟨next, succeeds⟩ := (applyDelta_isOk_iff state).mpr valid
        rw [applied] at succeeds
        cases succeeds
      · exact iff_of_false nofun nofun
    | ok next =>
      obtain ⟨allValid, skipped, splits, stops, complete⟩ := ih next
      have valid := (applyDelta_isOk_iff state).mp ⟨next, applied⟩
      exact ⟨forall_mem_cons.mpr ⟨valid, allValid⟩, skipped, congrArg (delta :: ·) splits,
        stops, complete⟩

def Restores (checkpoint : CompressedCheckpoint) (compressedData output : List UInt8) : Prop :=
  checkpoint.compressedSize ≤ compressedData.length ∧
    checkpoint.uncompressedSize ≤ output.length ∧
    ∃ base, decompress (compressedData.take checkpoint.compressedSize) checkpoint.uncompressedSize =
        .ok base ∧
      base.length = checkpoint.uncompressedSize ∧ fnv1aHash base = checkpoint.uncompressedHash

/-- The deltas newer than a sequence number are applied once each, in increasing order, and
no others; a call that fails may stop before the last. -/
structure AppliesNewer (sequence : Nat) (deltas applied : List WitnessDelta) (succeeded : Bool) :
    Prop where
  newer : ∀ delta ∈ applied, sequence < delta.sequence
  inOrder : applied.Pairwise fun earlier later => earlier.sequence < later.sequence
  complete : succeeded = true → ∀ delta ∈ deltas, sequence < delta.sequence → delta ∈ applied

/-- What a reconstruction copies: nothing, unless the checkpoint restores, and then what
its loop copies. -/
theorem reconstructLogged_cases :
    ¬ Restores checkpoint compressedData output ∧ (∃ e,
      pipeline.reconstructLogged checkpoint compressedData output deltaData = (.error e, [])) ∨
    Restores checkpoint compressedData output ∧ ∃ base,
      (pipeline.reconstructLogged checkpoint compressedData output deltaData).2 =
        (applyLogged checkpoint.uncompressedSize deltaData pipeline.pending (base, 0)).2 ∧
      (pipeline.reconstructLogged checkpoint compressedData output deltaData).1.isOk =
        (applyLogged checkpoint.uncompressedSize deltaData pipeline.pending (base, 0)).1.isOk := by
  unfold reconstructLogged
  dsimp only
  split
  · next short => exact .inl ⟨fun restores => Nat.not_lt.mpr restores.1 short, _, rfl⟩
  · next supplied =>
      split
      · next small => exact .inl ⟨fun restores => Nat.not_lt.mpr restores.2.1 small, _, rfl⟩
      · next room =>
          cases decoded : decompress (compressedData.take checkpoint.compressedSize)
              checkpoint.uncompressedSize with
          | error e =>
            refine .inl ⟨fun restores => ?_, e, rfl⟩
            obtain ⟨-, -, base, restored, -⟩ := restores
            rw [decoded] at restored
            cases restored
          | ok base =>
            have unique : Restores checkpoint compressedData output →
                base.length = checkpoint.uncompressedSize ∧
                  fnv1aHash base = checkpoint.uncompressedHash := by
              intro ⟨_, _, other, restored, known⟩
              rw [decoded] at restored
              exact Except.ok.inj restored ▸ known
            dsimp only
            split
            · next sized => exact .inl ⟨fun restores => sized (unique restores).1, _, rfl⟩
            · next sized =>
                split
                · next hashed => exact .inl ⟨fun restores => hashed (unique restores).2, _, rfl⟩
                · next hashed =>
                    refine .inr ⟨⟨Nat.not_lt.mp supplied, Nat.not_lt.mp room, base, decoded,
                      not_not.mp sized, not_not.mp hashed⟩, base, ?_⟩
                    rcases applyLogged checkpoint.uncompressedSize deltaData pipeline.pending
                      (base, 0) with ⟨_ | ⟨image, count⟩, applied⟩
                    · exact ⟨rfl, rfl⟩
                    · exact ⟨rfl, rfl⟩

/-- Each newer delta is applied once and in order, exactly where nothing is replayed or the first
delta is newer than the checkpoint. -/
theorem appliesNewer_iff {maxDeltas : Nat} {history : List (DeltaCall × Except RvmError Unit)}
    (run : Run (Step maxDeltas) new history pipeline) (checkpoint : CompressedCheckpoint)
    (compressedData output : List UInt8) (deltaData : WitnessDelta → List UInt8) :
    AppliesNewer checkpoint.witnessSequence (accepted history)
        (pipeline.reconstructLogged checkpoint compressedData output deltaData).2
        (pipeline.reconstruct checkpoint compressedData output deltaData).isOk ↔
      (Restores checkpoint compressedData output → ∀ first ∈ (accepted history).head?,
        first.Valid checkpoint.uncompressedSize deltaData →
          checkpoint.witnessSequence < first.sequence) := by
  have buffered := buffered_run run
  rw [← reconstructLogged_fst]
  rcases @reconstructLogged_cases deltaData pipeline checkpoint compressedData output with
    ⟨unrestored, e, failed⟩ | ⟨restored, base, copied, outcome⟩
  · rw [failed]
    exact iff_of_true ⟨nofun, .nil, nofun⟩ fun restores => absurd restores unrestored
  · obtain ⟨valid, skipped, splits, stops, complete⟩ :=
      @applyLogged_spec checkpoint.uncompressedSize deltaData (accepted history) (base, 0)
    rw [copied, outcome, buffered.pending_eq]
    generalize applyLogged checkpoint.uncompressedSize deltaData (accepted history) (base, 0) =
      loop at *
    have increasing := buffered.increasing
    constructor
    · intro applies _ first isFirst firstValid
      apply applies.newer
      rw [splits] at isFirst
      cases applied : loop.2 with
      | nil =>
        rw [applied] at isFirst
        exact absurd firstValid (stops first isFirst)
      | cons other rest =>
        rw [applied] at isFirst
        obtain rfl := Option.some.inj isFirst
        exact List.mem_cons_self
    · intro newer
      rw [splits] at increasing
      obtain ⟨inOrder, -, -⟩ := List.pairwise_append.mp increasing
      refine ⟨?_, inOrder, fun succeeded delta member _ => ?_⟩
      · cases applied : loop.2 with
        | nil => exact nofun
        | cons first rest =>
          rw [applied] at splits valid inOrder
          have past := newer restored first (by rw [splits]; rfl)
            (valid first List.mem_cons_self)
          have later := (List.pairwise_cons.mp inOrder).1
          exact List.forall_mem_cons.mpr
            ⟨past, fun delta member => past.trans (later delta member)⟩
      · rwa [splits, complete.mp succeeded, List.append_nil] at member

/-- A write with sequence number 5. -/
def earlyDelta : WitnessDelta := ⟨5, 0, 1, fnv1aHash [9]⟩

def earlyBuffer : ReconstructionPipeline :=
  ⟨Function.update new.deltas 0 (some earlyDelta), 1⟩

def oneByte (sequence : Nat) : CompressedCheckpoint × List UInt8 :=
  (⟨⟨2⟩, ⟨1⟩, sequence, fnv1aHash [5], 1, 8⟩, [1, 0, 0, 0, 1, 1, 0, 5])

theorem earlyBuffer_run : Run (Step 4) new [(.addDelta earlyDelta, .ok ())] earlyBuffer :=
  .single rfl

theorem compress_oneByte : compress [5] 16 = .ok (oneByte 0).2 :=
  @compress_literal [5] 16 (by decide) (by decide) (by decide) (by decide)

theorem createCheckpoint_oneByte (sequence : Nat) :
    createCheckpoint ⟨1⟩ ⟨2⟩ sequence [5] 16 = .ok (oneByte sequence) :=
  createCheckpoint_eq (by decide) compress_oneByte

/-- Against a checkpoint at sequence 3 the write is new. -/
theorem appliesNewer_iff_oneByte : AppliesNewer 3 [earlyDelta]
    (earlyBuffer.reconstructLogged (oneByte 3).1 (oneByte 3).2 [0] fun _ => [9]).2
    (earlyBuffer.reconstruct (oneByte 3).1 (oneByte 3).2 [0] fun _ => [9]).isOk := by
  refine (appliesNewer_iff earlyBuffer_run (oneByte 3).1 (oneByte 3).2 [0] fun _ => [9]).mpr ?_
  intro _ first isFirst _
  obtain rfl := Option.some.inj isFirst
  decide

/-- Against a checkpoint at sequence 10 it is part of the image already; it is applied all the
same, and the call succeeds. -/
theorem earlyDelta_applied :
    createCheckpoint ⟨1⟩ ⟨2⟩ 10 [5] 16 = .ok (oneByte 10) ∧
      Run (Step 4) new [(.addDelta earlyDelta, .ok ())] earlyBuffer ∧
      earlyBuffer.reconstructLogged (oneByte 10).1 (oneByte 10).2 [0] (fun _ => [9]) =
        (.ok (⟨⟨1⟩, 1, 1, fnv1aHash [9]⟩, [9]), [earlyDelta]) ∧
      earlyDelta.sequence ≤ (oneByte 10).1.witnessSequence ∧
      ¬ AppliesNewer (oneByte 10).1.witnessSequence [earlyDelta]
        (earlyBuffer.reconstructLogged (oneByte 10).1 (oneByte 10).2 [0] fun _ => [9]).2
        (earlyBuffer.reconstruct (oneByte 10).1 (oneByte 10).2 [0] fun _ => [9]).isOk := by
  have decoded : decompress ((oneByte 10).2.take (oneByte 10).1.compressedSize)
      (oneByte 10).1.uncompressedSize = .ok [5] :=
    decompress_compress compress_oneByte (by decide) (by decide)
  have returned : earlyBuffer.reconstructLogged (oneByte 10).1 (oneByte 10).2 [0] (fun _ => [9]) =
      (.ok (⟨⟨1⟩, 1, 1, fnv1aHash [9]⟩, [9]), [earlyDelta]) := by
    have buffered : earlyBuffer.pending = [earlyDelta] := rfl
    have applied : applyDelta 1 (fun _ => [9]) ([5], 0) earlyDelta = .ok ([9], 1) := by
      rw [applyDelta, if_neg (by decide), if_neg (by decide), if_neg (by decide)]
      rfl
    rw [reconstructLogged, if_neg (by decide), if_neg (by decide), decoded]
    dsimp only
    rw [if_neg (by decide), if_neg (by decide), buffered, applyLogged,
      show (oneByte 10).1.uncompressedSize = 1 from rfl, applied]
    rfl
  refine ⟨createCheckpoint_oneByte 10, earlyBuffer_run, returned, by decide, fun applies => ?_⟩
  have newer := applies.newer earlyDelta (by rw [returned]; exact List.mem_cons_self)
  exact absurd newer (by decide)

end ReconstructionPipeline

end Rvm.Memory
