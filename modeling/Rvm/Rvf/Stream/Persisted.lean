import Rvm.Foundation.Postconditions
import Rvm.Rvf.Stream.Effects

/-!
Owns the confirmation of an identity that a stream could not check on the way
(`StreamVerifier::finish_identity` of `rvm-rvf/src/stream/verifier.rs`) against the
persisted body.
-/

namespace Rvm.Rvf

open Foundation Foundation.Call

/-- What `read_at` fills a buffer with, given the offset and the length; `none`
where it returns `false`. -/
abbrev ReadAt := Nat → (length : Nat) → Option (List.Vector UInt8 length)

def readBuffer : Nat := 65536

def readChunk (readAt : ReadAt) (start length : Nat) : Option (List UInt8) := do
  let pieces ← (List.range ((length + (readBuffer - 1)) / readBuffer)).mapM fun piece =>
    readAt (asU64 (start + piece * readBuffer)) (min (length - piece * readBuffer) readBuffer) |>.map
      List.Vector.toList
  return pieces.flatten

section Confirm

variable (primitives : Primitives) (readAt : ReadAt)

def rereadChunk (h : StreamHeader) (e : StreamEntry) (idx : Nat) : StreamCall (List UInt8) :=
  orThrow
    (readChunk readAt (asU64 (e.bodyOffset + h.segmentOffset idx))
      ((h.chunkLen e.storedLen idx).getD 0))
    .badState

/-- The commitment that the re-read chunks of a segment have. -/
def rereadCommitment (h : StreamHeader) (e : StreamEntry) (n : Nat)
    (chunks : List (List UInt8)) : StreamCall (Octets 32) :=
  let leaves := primitives.leaves h.fileId e.segId chunks
  if n = 1 then orPanic leaves[0]? else pure (primitives.chunkListHash h.fileId e.segId leaves)

def judgeSegment (e : StreamEntry) (got : Octets 32) : StreamCall PUnit :=
  refuseIf (got ≠ e.chunkTableHash) .chunkHashMismatch fun v =>
    v.forcePoison .chunkHashMismatch (some e.segId) 0

/-- Re-read a segment; the bytes read so far are extended by it. -/
def confirmSegment (h : StreamHeader) (absorbed : List UInt8) (entry : StreamEntry × Nat) :
    StreamCall (List UInt8) := do
  let (e, i) := entry
  let s ← segAt i
  let chunks ← (List.range s.n).mapM (rereadChunk readAt h e)
  judgeSegment e (← rereadCommitment primitives h e s.n chunks)
  return absorbed ++ chunks.flatten

def finishIdentity : StreamCall PUnit := do
  let v ← get
  throwIf (v.state ≠ .completeUnverified ∨ v.identityStatus ≠ some .unverifiable) .badState
  let d ← orPanic v.desc
  let body ← d.entries.zipIdx.foldlM (confirmSegment primitives readAt d.header) []
  refuseIf (primitives.sha256 body ≠ d.header.rvfIdentity) .identityMismatch fun v =>
    v.forcePoison .identityMismatch none 0
  modify fun v => { v with identityStatus := some .verified, state := .complete }

variable {primitives readAt} {v : StreamVerifier}

theorem judgeSegment_spec (e : StreamEntry) (got : Octets 32) :
    (judgeSegment e got).Permits v (fun _ next => v = next)
      fun _ next => v = next ∨ ∃ reason seg chunk, next = v.forcePoison reason seg chunk := by
  simp only [judgeSegment, permits_refuseIf]
  exact ⟨fun _ => .inr ⟨_, _, _, rfl⟩, fun _ => trivial⟩

theorem confirmSegment_spec (h : StreamHeader) (absorbed : List UInt8) (entry : StreamEntry × Nat) :
    (confirmSegment primitives readAt h absorbed entry).Permits v (fun _ next => v = next)
      fun _ next => v = next ∨ ∃ reason seg chunk, next = v.forcePoison reason seg chunk := by
  obtain ⟨e, i⟩ := entry
  simp only [confirmSegment, segAt, permits_bind, permits_get, permits_orPanic]
  intro s _
  refine (@permits_mapM _ _ _ _ _ _ (fun here => v = here) _ _ rfl fun idx here same => ?_).mono
    (fun chunks here same => ?_) fun _ _ refused => refused
  · subst same
    simp only [rereadChunk, permits_orThrow]
    exact ⟨fun _ _ => trivial, fun _ => .inl trivial⟩
  · subst same
    simp only [rereadCommitment, permits_ite, permits_orPanic, permits_pure]
    exact ⟨fun _ _ _ => judgeSegment_spec e _, fun _ => judgeSegment_spec e _⟩

/-- A confirmation turns a stream without a verdict into a verified one; where it is
refused, the stream is as it was or poisoned. -/
theorem finishIdentity_spec :
    (finishIdentity primitives readAt).Permits v
      (fun _ next => v.state = .completeUnverified ∧ v.identityStatus = some .unverifiable ∧
        next = { v with identityStatus := some .verified, state := .complete })
      fun _ next => v = next ∨ ∃ reason seg chunk, next = v.forcePoison reason seg chunk := by
  simp only [finishIdentity, permits_bind, permits_get, permits_throwIf, permits_orPanic]
  refine ⟨fun _ => .inl trivial, fun ready d _ => ?_⟩
  apply (@permits_foldlM _ _ _ _ _ _ (fun _ here => v = here) _ _ _ rfl fun _ _ _ _ => ?_).weaken
  · rintro body _ rfl
    simp only [permits_refuseIf, permits_modify]
    simp only [not_or, ne_eq, Decidable.not_not] at ready
    exact ⟨fun _ => .inr ⟨_, _, _, rfl⟩, fun _ => ⟨ready.1, ready.2, trivial⟩⟩
  · subst_vars
    exact confirmSegment_spec _ _ _

end Confirm

end Rvm.Rvf
