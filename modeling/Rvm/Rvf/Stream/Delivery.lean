import Rvm.Rvf.Stream.Reassembly

/-!
Owns the delivery of frames over a byte stream: the frames the encoders build reach
the target as they are, however the bytes arrive, for the stream verifier and every
other target whose poison ends the stream.
-/

namespace Rvm.Rvf

open Foundation Foundation.Call List Feeding

/-- The arguments of one of the encoders. -/
inductive Frame where
  | descriptor (descriptor : List UInt8)
  | chunk (segId chunkIndex : Nat) (bytes : List UInt8)
  | table (segId : Nat) (leaves : List (Octets 32))

namespace Frame

def encode : Frame → List UInt8
  | .descriptor bytes => descriptorFrame bytes
  | .chunk segId chunkIndex bytes => chunkFrame segId chunkIndex bytes
  | .table segId leaves => tableFrame segId leaves

def frameType : Frame → UInt8
  | .descriptor _ => frameDescriptor
  | .chunk _ _ _ => frameChunk
  | .table _ _ => frameChunkTable

/-- The length that the encoder casts to `u32`. -/
def count : Frame → Nat
  | .descriptor bytes => bytes.length
  | .chunk _ _ bytes => bytes.length
  | .table _ leaves => leaves.length

def payloadLength : Frame → Nat
  | .descriptor bytes => bytes.length
  | .chunk _ _ bytes => bytes.length
  | .table _ leaves => 32 * leaves.length

theorem encode_cons (frame : Frame) : ∃ tail, frame.encode = frame.frameType :: tail := by
  cases frame <;> exact ⟨_, rfl⟩

theorem flatten_length (leaves : List (Octets 32)) :
    (leaves.map List.Vector.toList).flatten.length = 32 * leaves.length := by
  induction leaves with
  | nil => rfl
  | cons leaf rest ih =>
    rw [map_cons, flatten_cons, length_append, ih, List.Vector.toList_length, length_cons]
    omega

theorem encode_length (frame : Frame) :
    ∃ hl, headerLen frame.frameType = some hl ∧ frame.encode.length = hl + frame.payloadLength := by
  cases frame with
  | descriptor bytes =>
    refine ⟨5, rfl, ?_⟩
    simp [encode, descriptorFrame, payloadLength, littleEndianBytes_length]
    omega
  | chunk segId chunkIndex bytes =>
    refine ⟨17, rfl, ?_⟩
    simp [encode, chunkFrame, payloadLength, littleEndianBytes_length]
    omega
  | table segId leaves =>
    refine ⟨13, rfl, ?_⟩
    have flat := flatten_length leaves
    simp only [encode, tableFrame, payloadLength, length_cons, length_append,
      littleEndianBytes_length, flat]
    omega

theorem littleEndianAt_read {before after : List UInt8} {offset value : Nat}
    (place : before.length = offset) (small : value < 4294967296) :
    littleEndianAt 4 (before ++ (littleEndianBytes 4 value ++ after)) offset = some value := by
  have width := littleEndianBytes_length 4 value
  have power : 256 ^ 4 = 4294967296 := by decide
  rw [littleEndianAt_eq (by simp only [length_append]; omega), drop_left' place,
    take_left' width, littleEndianValue_bytes, power, Nat.mod_eq_of_lt small]

def intro : Frame → List UInt8
  | .descriptor _ => [frameDescriptor]
  | .chunk segId chunkIndex _ =>
    frameChunk :: (littleEndianBytes 8 segId ++ littleEndianBytes 4 chunkIndex)
  | .table segId _ => frameChunkTable :: littleEndianBytes 8 segId

theorem encode_eq (frame : Frame) : ∃ payload,
    frame.encode = frame.intro ++ littleEndianBytes 4 frame.count ++ payload := by
  cases frame with
  | descriptor bytes => exact ⟨bytes, rfl⟩
  | chunk segId chunkIndex bytes =>
    refine ⟨bytes, ?_⟩
    simp [encode, chunkFrame, intro, count]
  | table segId leaves =>
    refine ⟨(leaves.map List.Vector.toList).flatten, ?_⟩
    simp [encode, tableFrame, intro, count]

theorem intro_length (frame : Frame) :
    headerLen frame.frameType = some (frame.intro.length + 4) := by
  cases frame <;> simp [intro, littleEndianBytes_length, frameType, headerLen, frameDescriptor,
    frameChunk, frameChunkTable]

theorem declaredPayload_encode (frame : Frame) (small : frame.count < 4294967296) {hl : Nat}
    (known : headerLen frame.frameType = some hl) :
    declaredPayload (frame.encode.take hl) = some frame.payloadLength := by
  obtain ⟨payload, shape⟩ := frame.encode_eq
  have length : hl = frame.intro.length + 4 := Option.some.inj (known.symm.trans frame.intro_length)
  have header : frame.encode.take hl = frame.intro ++ (littleEndianBytes 4 frame.count ++ []) := by
    rw [shape, take_left' (by rw [length_append, littleEndianBytes_length, length]),
      append_nil]
  have read := @littleEndianAt_read frame.intro [] _ _ rfl small
  rw [header]
  cases frame with
  | descriptor bytes =>
    unfold declaredPayload
    exact read
  | chunk segId chunkIndex bytes =>
    have place : (Frame.chunk segId chunkIndex bytes).intro.length = 13 := by
      simp [intro, littleEndianBytes_length]
    rw [place] at read
    unfold declaredPayload
    exact read
  | table segId leaves =>
    have place : (Frame.table segId leaves).intro.length = 9 := by
      simp [intro, littleEndianBytes_length]
    rw [place] at read
    unfold declaredPayload
    simp only [intro, cons_append, List.getElem?_cons_zero] at read ⊢
    rw [read]
    rfl

end Frame

section Delivery

variable {Target Out Refusal : Type} {target : FrameTarget Target Out Refusal}

/-- The target takes these frames one after the other: each finds a target that
accepts input and a limit its payload keeps, and has a length that fits `u32`. -/
inductive Takes (target : FrameTarget Target Out Refusal) :
    Target → List Frame → List (Handed Out Refusal) → Target → Prop
  | nil {here : Target} : Takes target here [] [] here
  | cons {here next final : Target} {frame : Frame} {rest : List Frame}
      {result : Except Refusal Out} {handed : List (Handed Out Refusal)} :
      ¬ Refuses target here → frame.payloadLength ≤ target.framePayloadLimit here frame.frameType →
      frame.count < 4294967296 → target.pushFrame here frame.encode = some (result, next) →
      Takes target next rest handed final →
      Takes target here (frame :: rest) (.pushed frame.encode result :: handed) final

theorem feed_frame {here next : Target} {frame : Frame} {result : Except Refusal Out}
    {handed : List (Handed Out Refusal)} {rest : List UInt8} {fuel : Nat}
    (accepts : ¬ Refuses target here)
    (fits : frame.payloadLength ≤ target.framePayloadLimit here frame.frameType)
    (small : frame.count < 4294967296)
    (pushes : target.pushFrame here frame.encode = some (result, next)) :
    feed target (fuel + 1) ⟨.new, here, handed⟩ (frame.encode ++ rest) =
      feed target fuel ⟨.new, next, handed ++ [.pushed frame.encode result]⟩ rest := by
  obtain ⟨tail, shape⟩ := frame.encode_cons
  obtain ⟨hl, known, length⟩ := frame.encode_length
  have declared := frame.declaredPayload_encode small known
  have nonempty : frame.encode ++ rest ≠ [] := by
    rw [shape]
    exact cons_ne_nil _ _
  have inFront : (frame.encode ++ rest).take hl = frame.encode.take hl :=
    take_append_of_le_length (by omega)
  have whole := @feedRound_whole _ _ _ target ⟨[], here, handed⟩ frame.frameType (tail ++ rest) hl
    frame.payloadLength rfl known
    (by rw [← cons_append, ← shape, inFront, declared]) (Nat.not_lt.mpr fits)
    (by rw [← cons_append, ← shape, length_append]; omega)
  rw [← cons_append, ← shape, take_left' length, drop_left' length] at whole
  have round : (feedRound target (frame.encode ++ rest)).runFrom ⟨.new, here, handed⟩ =
      some (.ok rest, ⟨.new, next, handed ++ [.pushed frame.encode result]⟩) := by
    refine whole.trans ?_
    rw [pushes]
    rfl
  rw [feed_succ fuel _ nonempty accepts, round]
  rfl

theorem feed_frames {start final : Target} {frames : List Frame}
    {handed : List (Handed Out Refusal)} (takes : Takes target start frames handed final)
    {before : List (Handed Out Refusal)} {fuel : Nat}
    (enough : (frames.map Frame.encode).flatten.length < fuel) :
    feed target fuel ⟨.new, start, before⟩ (frames.map Frame.encode).flatten =
      some ⟨.new, final, before ++ handed⟩ := by
  induction takes generalizing before fuel with
  | nil =>
    cases fuel with
    | zero => cases enough
    | succ fuel =>
      rw [append_nil]
      rfl
  | @cons here next final frame rest result handed accepts fits small pushes _ ih =>
    cases fuel with
    | zero => cases enough
    | succ fuel =>
      rw [map_cons, flatten_cons, length_append] at enough
      obtain ⟨tail, shape⟩ := frame.encode_cons
      have positive : 0 < frame.encode.length := by
        rw [shape]
        exact Nat.succ_pos _
      rw [map_cons, flatten_cons, feed_frame accepts fits small pushes,
        ih (by omega), append_assoc]
      rfl

end Delivery

theorem verifierTarget_poisonRefuses (primitives : Primitives) :
    (verifierTarget primitives).PoisonRefuses := by
  intro v reason accepts
  have poisoned : (v.poisonAt reason none 0).state = .poisoned reason := by
    have taking : v.state.refusal = none := not_not.mp accepts
    unfold StreamVerifier.poisonAt
    cases state : v.state with
    | awaitDescriptor => rfl
    | ready => rfl
    | receiving => rfl
    | _ =>
      rw [state] at taking
      cases taking
  show (v.poisonAt reason none 0).state.refusal ≠ none
  rw [poisoned]
  exact Option.some_ne_none _

/-- Frame reassembly does not depend on how the bytes arrive, where poison ends the stream; and
frames within the limits arrive as they were encoded. -/
theorem frameReassembly {Target Out Refusal : Type} (target : FrameTarget Target Out Refusal)
    (start : Target) :
    (target.PoisonRefuses → ∀ fuel pieces, pieces.flatten.length < fuel →
      (feedPieces target fuel (.new start) pieces).map seen =
        (feedPieces target fuel (.new start) [pieces.flatten]).map seen) ∧
    (∀ fuel frames handed final, Takes target start frames handed final →
      (frames.map Frame.encode).flatten.length < fuel →
      feedPieces target fuel (.new start) [(frames.map Frame.encode).flatten] =
        some ⟨.new, final, handed⟩) ∧
    ∀ primitives, (verifierTarget primitives).PoisonRefuses := by
  refine ⟨fun lawful fuel pieces => feedPieces_flatten lawful start, ?_,
    verifierTarget_poisonRefuses⟩
  intro fuel frames handed final takes enough
  have fed := @feed_frames _ _ _ target start final frames handed takes [] fuel enough
  simpa [feedPieces, Feeding.new] using fed

def oneShot (limit : Nat) : FrameTarget Bool Unit Unit where
  state := fun closed => if closed then .complete else .ready
  framePayloadLimit := fun _ _ => limit
  poison := fun _ reason => (reason, true)
  pushFrame := fun _ _ => some (.ok (), true)

/-- A chunk of three bytes, cut within its header. -/
theorem frameReassembly_chunk :
    (feedPieces (oneShot 3) 64 (.new false)
      [(chunkFrame 7 0 [1, 2, 3]).take 5, (chunkFrame 7 0 [1, 2, 3]).drop 5]).map seen =
      some (true, [.pushed (chunkFrame 7 0 [1, 2, 3]) (.ok ())]) := by
  obtain ⟨cut, delivered, _⟩ := frameReassembly (oneShot 3) false
  have lawful : (oneShot 3).PoisonRefuses := fun _ _ _ => Option.some_ne_none _
  have takes : Takes (oneShot 3) false [.chunk 7 0 [1, 2, 3]]
      [.pushed (chunkFrame 7 0 [1, 2, 3]) (.ok ())] true :=
    .cons (by decide) (by decide) (by decide) rfl .nil
  rw [cut lawful 64 _ (by decide)]
  have whole := delivered 64 _ _ _ takes (by decide)
  exact congrArg (Option.map seen) whole

def stubborn : FrameTarget Unit Unit Unit where
  state := fun _ => .ready
  framePayloadLimit := fun _ _ => 0
  poison := fun _ reason => (reason, ())
  pushFrame := fun _ _ => some (.ok (), ())

/-- A chunk of a multiple of `2^32` bytes declares no payload: only its header is
pushed. -/
theorem feed_oneShot_wrapped {bytes : List UInt8} {limit fuel : Nat}
    (wraps : littleEndianBytes 4 bytes.length = [0, 0, 0, 0]) (nonempty : bytes ≠ []) :
    feed (oneShot limit) (fuel + 2) (.new false) (chunkFrame 0 0 bytes) =
      some ⟨.new, true, [.pushed (chunkFrame 0 0 []) (.ok ())]⟩ := by
  have shape : chunkFrame 0 0 bytes = (Frame.chunk 0 0 []).encode ++ bytes := by
    rw [chunkFrame, wraps]
    rfl
  have first := @feed_frame Bool Unit Unit (oneShot limit) false true (.chunk 0 0 []) (.ok ()) []
    bytes (fuel + 1) (not_not.mpr rfl) (Nat.zero_le _) (by decide) rfl
  have refuses : (oneShot limit).state true = .complete := rfl
  rw [shape]
  refine first.trans ?_
  unfold feed
  rw [feedLoop, if_neg nonempty]
  simp only [runFrom_bind, runFrom_get, refuses]
  rfl

theorem exists_bytes (count : Nat) : ∃ bytes : List UInt8, bytes.length = count :=
  ⟨List.replicate count 0, length_replicate⟩

/-- For the stubborn target the cutting matters: an unknown type discards the rest of
its piece, and no more. And of a chunk of `2^32` bytes within the limit only the header
is pushed. -/
theorem frameReassembly_differs :
    (∃ pieces : List (List UInt8), (feedPieces stubborn 20 (.new ()) pieces).map seen ≠
      (feedPieces stubborn 20 (.new ()) [pieces.flatten]).map seen) ∧
    ∃ bytes : List UInt8, bytes.length = 4294967296 ∧
      bytes.length ≤ (oneShot 4294967296).framePayloadLimit false frameChunk ∧
      ∀ fuel, ∃ final,
        feedPieces (oneShot 4294967296) (fuel + 2) (.new false) [chunkFrame 0 0 bytes] =
          some final ∧ final.handed ≠ [.pushed (chunkFrame 0 0 bytes) (.ok ())] := by
  constructor
  · refine ⟨[[0xFF], [0, 0, 0, 0, 0]], fun same => ?_⟩
    have handed := congrArg (Option.map fun seen => seen.2.length) same
    revert handed
    decide
  · obtain ⟨bytes, length⟩ := exists_bytes 4294967296
    refine ⟨bytes, length, Nat.le_of_eq length, fun fuel => ?_⟩
    have wraps : littleEndianBytes 4 bytes.length = [0, 0, 0, 0] := by
      rw [length]
      decide
    have nonempty : bytes ≠ [] := List.ne_nil_of_length_pos (length ▸ Nat.succ_pos _)
    have fed := @feed_oneShot_wrapped bytes 4294967296 fuel wraps nonempty
    refine ⟨_, (bind_pure _).trans fed, fun same => nonempty ?_⟩
    have frames := (List.cons.inj same).1
    have frame := (Handed.pushed.inj frames).1
    rw [chunkFrame, chunkFrame, wraps, List.length_nil] at frame
    exact (List.append_cancel_left (List.cons.inj frame).2).symm

end Rvm.Rvf
