import Rvm.Foundation.Postconditions
import Rvm.Rvf.Stream.Verifier

/-!
Owns frame encoding and byte-stream reassembly of `rvm-rvf/src/stream/frame.rs`:
the encoders, the target frames are pushed into, and the frame reader with its
two paths, frames that arrive whole and frames that are buffered.
-/

namespace Rvm.Rvf

open Foundation Foundation.Call StreamVerifier

/-- `descriptor_frame`; lengths are cast to `u32`. -/
def descriptorFrame (descriptor : List UInt8) : List UInt8 :=
  frameDescriptor :: (littleEndianBytes 4 descriptor.length ++ descriptor)

def chunkFrame (segId chunkIndex : Nat) (bytes : List UInt8) : List UInt8 :=
  frameChunk :: (littleEndianBytes 8 segId ++ littleEndianBytes 4 chunkIndex ++
    littleEndianBytes 4 bytes.length ++ bytes)

def tableFrame (segId : Nat) (leaves : List (Octets 32)) : List UInt8 :=
  frameChunkTable :: (littleEndianBytes 8 segId ++ littleEndianBytes 4 leaves.length ++
    (leaves.map List.Vector.toList).flatten)

def headerLen (frameType : UInt8) : Option Nat :=
  if frameType = frameDescriptor then some 5
  else if frameType = frameChunk then some 17
  else if frameType = frameChunkTable then some 13
  else none

/-- The payload size a frame header declares; `none` when it reads past its end. -/
def declaredPayload (h : List UInt8) : Option Nat := do
  let frameType ← h[0]?
  if frameType = frameDescriptor then littleEndianAt 4 h 1
  else if frameType = frameChunk then littleEndianAt 4 h 13
  else return 32 * (← littleEndianAt 4 h 9)

/-- Something frames can be pushed into. A push that panics has no result. -/
structure FrameTarget (Target Out Refusal : Type) where
  state : Target → StreamState
  framePayloadLimit : Target → UInt8 → Nat
  poison : Target → StreamError → StreamError × Target
  pushFrame : Target → List UInt8 → Option (Except Refusal Out × Target)

def StreamVerifier.framePayloadLimit (v : StreamVerifier) (frameType : UInt8) : Nat :=
  match v.state with
  | .awaitDescriptor => if frameType = frameDescriptor then v.policy.maxDescriptorBytes else 0
  | .ready | .receiving =>
    if frameType = frameChunk then v.maxChunkLen
    else if frameType = frameChunkTable then v.maxTablePayload
    else 0
  | _ => 0

def verifierTarget (primitives : Primitives) : FrameTarget StreamVerifier Event StreamError where
  state := state
  framePayloadLimit := framePayloadLimit
  poison := poison
  pushFrame := fun v frame => (push primitives frame).runFrom v

/-- The refusal of a state that cannot take more input. -/
def StreamState.refusal : StreamState → Option StreamError
  | .poisoned _ => some .poisoned
  | .rejected _ | .complete | .completeUnverified | .suspended => some .badState
  | _ => none

structure FrameReader where
  buf : List UInt8
  need : Option Nat
deriving DecidableEq, Repr

def FrameReader.new : FrameReader := ⟨[], none⟩

/-- What the reader did to its target: a frame pushed, with the result handed to
the sink, or the stream poisoned. -/
inductive Handed (Out Refusal : Type) where
  | pushed (frame : List UInt8) (result : Except Refusal Out)
  | poisoned (reason : StreamError)
deriving DecidableEq

structure Feeding (Target Out Refusal : Type) where
  reader : FrameReader
  target : Target
  handed : List (Handed Out Refusal)

def Feeding.new {Target Out Refusal : Type} (target : Target) : Feeding Target Out Refusal :=
  ⟨.new, target, []⟩

namespace Feeding

variable {Target Out Refusal : Type} (here : Feeding Target Out Refusal)

def handTo (target : Target) (handed : Handed Out Refusal) : Feeding Target Out Refusal :=
  { here with target := target, handed := here.handed ++ [handed] }

def withBuf (buf : List UInt8) : Feeding Target Out Refusal :=
  { here with reader := { here.reader with buf := buf } }

def withNeed (need : Option Nat) : Feeding Target Out Refusal :=
  { here with reader := { here.reader with need := need } }

end Feeding

section Feed

variable {Target Out Refusal : Type} (target : FrameTarget Target Out Refusal)

abbrev FeedCall (Target Out Refusal : Type) := Call StreamError (Feeding Target Out Refusal)

def refusePoisoned {α : Type} (reason : StreamError) : FeedCall Target Out Refusal α := do
  let here ← get
  let (error, poisoned) := target.poison here.target reason
  set (here.handTo poisoned (.poisoned reason))
  throw error

def pushComplete (frame : List UInt8) : FeedCall Target Out Refusal PUnit := do
  let here ← get
  let (result, pushed) ← orPanic (target.pushFrame here.target frame)
  set (here.handTo pushed (.pushed frame result))

def admitHeader (header : List UInt8) : FeedCall Target Out Refusal Nat := do
  let payload ← orPanic (declaredPayload header)
  let frameType ← orPanic header[0]?
  let here ← get
  if payload > target.framePayloadLimit here.target frameType then
    refusePoisoned target .frameSizeLie
  else return header.length + payload

/-- The path without a copy: a frame that is whole at the front of the input is
pushed, and the rest of the input returned. -/
def feedWhole (data : List UInt8) : FeedCall Target Out Refusal (Option (List UInt8)) := do
  let here ← get
  if here.reader.buf = [] then
    match headerLen (← orPanic data[0]?) with
    | none => refusePoisoned target .unexpectedFrame
    | some hl =>
      if data.length ≥ hl then
        let total ← admitHeader target (data.take hl)
        if data.length ≥ total then
          pushComplete target (data.take total)
          return some (data.drop total)
        else return none
      else return none
  else return none

/-- How many bytes the buffer is to reach: the whole frame, or its header first. -/
def goalOf (reader : FrameReader) (first : UInt8) : Option Nat :=
  reader.need.or (headerLen (reader.buf.head?.getD first))

/-- A header that is complete in the buffer is admitted, which fixes what the
frame needs. -/
def admitBuffered (goal : Nat) : FeedCall Target Out Refusal PUnit := do
  let here ← get
  if here.reader.need = none ∧ here.reader.buf.length = goal then
    let total ← admitHeader target here.reader.buf
    modify fun now => now.withNeed (some total)

def pushBuffered : FeedCall Target Out Refusal PUnit := do
  let here ← get
  if some here.reader.buf.length = here.reader.need then
    set (here.withNeed none)
    pushComplete target here.reader.buf
    modify fun now => now.withBuf []

/-- The bytes taken are in the buffer. -/
def settleBuffered (goal : Nat) : FeedCall Target Out Refusal PUnit := do
  admitBuffered target goal
  pushBuffered target

/-- The buffered path: take what the header or the frame still needs, and return
the rest of the input. -/
def feedBuffered (data : List UInt8) : FeedCall Target Out Refusal (List UInt8) := do
  let here ← get
  let goal ← orThrow (goalOf here.reader (← orPanic data[0]?)) .unexpectedFrame
  -- `target - self.buf.len()` must not underflow.
  let room ← orPanic (if here.reader.buf.length ≤ goal then
    some (goal - here.reader.buf.length) else none)
  let take := min room data.length
  set (here.withBuf (here.reader.buf ++ data.take take))
  settleBuffered target goal
  return data.drop take

/-- One round of the loop: the rest of the input after it. -/
def feedRound (data : List UInt8) : FeedCall Target Out Refusal (List UInt8) := do
  match ← feedWhole target data with
  | some rest => return rest
  | none => feedBuffered target data

def feedLoop : Nat → List UInt8 → FeedCall Target Out Refusal PUnit
  | 0, _ => orPanic none
  | fuel + 1, data =>
    if data = [] then pure ⟨⟩
    else do
      let here ← get
      match (target.state here.target).refusal with
      | some error => throw error
      | none => feedLoop fuel (← feedRound target data)

/-- Consume `data`: what it leaves, whether or not it refused the rest. -/
def feed (fuel : Nat) (here : Feeding Target Out Refusal) (data : List UInt8) :
    Option (Feeding Target Out Refusal) :=
  ((feedLoop target fuel data).runFrom here).map Prod.snd

def feedPieces (fuel : Nat) (here : Feeding Target Out Refusal) (pieces : List (List UInt8)) :
    Option (Feeding Target Out Refusal) :=
  pieces.foldlM (feed target fuel) here

section Keeps

variable {target} {Keeps : Target → Prop} {here : Feeding Target Out Refusal}

structure FrameTarget.KeptBy (target : FrameTarget Target Out Refusal) (Keeps : Target → Prop) :
    Prop where
  pushed : ∀ here frame result next, Keeps here → target.pushFrame here frame = some (result, next) →
    Keeps next
  poisoned : ∀ here reason, Keeps here → Keeps (target.poison here reason).2

theorem refusePoisoned_keeps {α : Type} {Returned : α → Feeding Target Out Refusal → Prop}
    (kept : target.KeptBy Keeps) (keeps : Keeps here.target) (reason : StreamError) :
    (refusePoisoned target reason).Permits here Returned fun _ next => Keeps next.target := by
  simp only [refusePoisoned, permits_bind, permits_get, permits_set, permits_throw]
  exact kept.poisoned _ _ keeps

theorem pushComplete_keeps (kept : target.KeptBy Keeps) (keeps : Keeps here.target)
    (frame : List UInt8) :
    (pushComplete target frame).Leaves here fun next => Keeps next.target := by
  simp only [pushComplete, permits_bind, permits_get, permits_orPanic, permits_set]
  exact fun outcome pushed => kept.pushed _ _ outcome.1 outcome.2 keeps pushed

theorem admitHeader_keeps (kept : target.KeptBy Keeps) (keeps : Keeps here.target)
    (header : List UInt8) :
    (admitHeader target header).Leaves here fun next => Keeps next.target := by
  simp only [admitHeader, permits_bind, permits_get, permits_orPanic, permits_ite, permits_pure]
  exact fun _ _ _ _ => ⟨fun _ => refusePoisoned_keeps kept keeps _, fun _ => keeps⟩

theorem feedWhole_keeps (kept : target.KeptBy Keeps) (keeps : Keeps here.target)
    (data : List UInt8) :
    (feedWhole target data).Leaves here fun next => Keeps next.target := by
  simp only [feedWhole, permits_bind, permits_get, permits_ite, permits_pure, permits_orPanic]
  refine ⟨fun _ first _ => ?_, fun _ => keeps⟩
  cases headerLen first with
  | none => exact refusePoisoned_keeps kept keeps _
  | some hl =>
    simp only [permits_bind, permits_ite, permits_pure]
    refine ⟨fun _ => ?_, fun _ => keeps⟩
    apply (admitHeader_keeps kept keeps _).weaken
    intro total next admitted
    exact ⟨fun _ => (pushComplete_keeps kept admitted _).mono (fun _ _ after => after)
      fun _ _ after => after, fun _ => admitted⟩

theorem admitBuffered_keeps (kept : target.KeptBy Keeps) (keeps : Keeps here.target) (goal : Nat) :
    (admitBuffered target goal).Leaves here fun next => Keeps next.target := by
  simp only [admitBuffered, permits_bind, permits_get, permits_ite, permits_pure, permits_modify]
  refine ⟨fun _ => ?_, fun _ => keeps⟩
  exact (admitHeader_keeps kept keeps _).mono (fun _ _ after => after) fun _ _ after => after

theorem pushBuffered_keeps (kept : target.KeptBy Keeps) (keeps : Keeps here.target) :
    (pushBuffered target).Leaves here fun next => Keeps next.target := by
  simp only [pushBuffered, permits_bind, permits_get, permits_ite, permits_pure, permits_modify,
    permits_set]
  refine ⟨fun _ => ?_, fun _ => keeps⟩
  have held : Keeps (here.withNeed none).target := keeps
  exact (pushComplete_keeps kept held _).mono (fun _ _ after => after) fun _ _ after => after

theorem feedBuffered_keeps (kept : target.KeptBy Keeps) (keeps : Keeps here.target)
    (data : List UInt8) :
    (feedBuffered target data).Leaves here fun next => Keeps next.target := by
  simp only [feedBuffered, settleBuffered, permits_bind, permits_get, permits_orPanic,
    permits_orThrow, permits_set, permits_pure]
  refine fun first _ => ⟨fun goal _ room _ => ?_, fun _ => keeps⟩
  have held : Keeps (here.withBuf (here.reader.buf ++ data.take (min room data.length))).target :=
    keeps
  apply (admitBuffered_keeps kept held goal).weaken
  exact fun _ _ admitted => pushBuffered_keeps kept admitted

theorem feedLoop_keeps (kept : target.KeptBy Keeps) (keeps : Keeps here.target) (fuel : Nat)
    (data : List UInt8) :
    (feedLoop target fuel data).Leaves here fun next => Keeps next.target := by
  induction fuel generalizing here data with
  | zero =>
    unfold feedLoop
    simp only [permits_orPanic]
    exact fun _ absent => by cases absent
  | succ fuel ih =>
    unfold feedLoop
    simp only [permits_ite, permits_pure, permits_bind, permits_get]
    refine ⟨fun _ => keeps, fun _ => ?_⟩
    cases (target.state here.target).refusal with
    | some error =>
      simp only [permits_throw]
      exact keeps
    | none =>
      simp only [feedRound, permits_bind]
      apply (feedWhole_keeps kept keeps data).weaken
      intro whole next after
      cases whole with
      | some rest =>
        simp only [permits_pure]
        exact ih after rest
      | none =>
        apply (feedBuffered_keeps kept after data).weaken
        exact fun rest last later => ih later rest

end Keeps

end Feed

end Rvm.Rvf
