import Rvm.Foundation.Overlay
import Rvm.Memory.Compression

/-!
Owns the decompressor of `rvm-memory/src/reconstruction.rs` on its output buffer, with the
two cursors of its loop and checked accesses, and the round trip into a larger buffer.
-/

namespace Rvm.Memory

open Foundation Foundation.Overlay List Block Option

/-! ### The loop on a buffer -/

/-- `output[start..stop].copy_from_slice(source)`; `none` is a panic. -/
def copyInto (output : List UInt8) (start stop : Nat) (source : List UInt8) : Option (List UInt8) :=
  if start ≤ stop ∧ stop ≤ output.length ∧ source.length = stop - start then
    some (overwrite output ⟨start, source⟩)
  else none

/-- What a call returns and the output buffer it leaves; `none` is a panic. -/
abbrev BufferCall := Option (Except RvmError Nat × List UInt8)

/-- The loop of `decompress` from its two cursors, with the check behind it. -/
def decompressLoop (input : List UInt8) (uncompressedLen inPos outPos : Nat)
    (output : List UInt8) : BufferCall :=
  if inPos < input.length ∧ outPos < uncompressedLen then
    if inPos + 3 > input.length then some (.error .checkpointCorrupted, output)
    else do
      let tag ← input[inPos]?
      let low ← input[inPos + 1]?
      let high ← input[inPos + 2]?
      let blockLen := littleEndianValue [low, high]
      if tag = tagZeroRun then
        if outPos + blockLen > uncompressedLen then some (.error .checkpointCorrupted, output)
        else
          let zeroed ← copyInto output outPos (outPos + blockLen) (List.replicate blockLen 0)
          decompressLoop input uncompressedLen (inPos + 3) (outPos + blockLen) zeroed
      else if tag = tagLiteral then
        if inPos + 3 + blockLen > input.length then some (.error .checkpointCorrupted, output)
        else if outPos + blockLen > uncompressedLen then some (.error .checkpointCorrupted, output)
        else
          let source ← sliceAt input (inPos + 3) (inPos + 3 + blockLen)
          let copied ← copyInto output outPos (outPos + blockLen) source
          decompressLoop input uncompressedLen (inPos + 3 + blockLen) (outPos + blockLen) copied
      else some (.error .checkpointCorrupted, output)
  else if outPos ≠ uncompressedLen then some (.error .checkpointCorrupted, output)
  else some (.ok uncompressedLen, output)
termination_by input.length - inPos

def decompressInto (input output : List UInt8) : BufferCall :=
  if input.length < 4 then some (.error .checkpointCorrupted, output)
  else do
    let uncompressedLen ← littleEndianAt 4 input 0
    if output.length < uncompressedLen then some (.error .resourceLimitExceeded, output)
    else decompressLoop input uncompressedLen 4 0 output

def declaredLength (input : List UInt8) : Nat := littleEndianValue (input.take 4)

section Loop

variable {input output source : List UInt8} {uncompressedLen inPos outPos start count : Nat}

def checkLength (uncompressedLen : Nat) (written : Except RvmError (List UInt8)) :
    Except RvmError (List UInt8) :=
  written.bind fun bytes =>
    if bytes.length ≠ uncompressedLen then .error .checkpointCorrupted else .ok bytes

/-- A call that returns, changes nothing from the declared length on, and writes what
the list of written bytes says. -/
def Produces (call : BufferCall) (output : List UInt8) (uncompressedLen : Nat)
    (written : Except RvmError (List UInt8)) : Prop :=
  ∃ outcome final, call = some (outcome, final) ∧ final.length = output.length ∧
    final.drop uncompressedLen = output.drop uncompressedLen ∧
    outcome.map (fun count => final.take count) = written ∧
    ∀ count, outcome = .ok count → count = uncompressedLen

theorem copyInto_eq (same : source.length = count) (fits : start + count ≤ output.length) :
    copyInto output start (start + count) source = some (overwrite output ⟨start, source⟩) :=
  if_pos ⟨Nat.le_add_right _ _, fits, same.trans (Nat.add_sub_cancel_left _ _).symm⟩

theorem overwrite_length' (same : source.length = count) (fits : start + count ≤ output.length) :
    (overwrite output ⟨start, source⟩).length = output.length :=
  overwrite_length (by rwa [Write.Inside, same])

theorem overwrite_take (same : source.length = count) (fits : start + count ≤ output.length) :
    (overwrite output ⟨start, source⟩).take (start + count) = output.take start ++ source := by
  have taken : (output.take start).length = start := length_take_of_le (by omega)
  exact take_left' (by rw [length_append, taken, same])

theorem overwrite_drop (same : source.length = count) (fits : start + count ≤ output.length)
    (inside : start + count ≤ uncompressedLen) :
    (overwrite output ⟨start, source⟩).drop uncompressedLen = output.drop uncompressedLen := by
  have taken : (output.take start).length = start := length_take_of_le (by omega)
  have long : (output.take start ++ source).length = start + count := by
    rw [length_append, taken, same]
  dsimp only [overwrite]
  rw [same, drop_append, drop_of_length_le (by omega), nil_append, long,
    drop_drop, Nat.add_sub_cancel' inside]

theorem Produces.copied {next : List UInt8 → BufferCall}
    {written : Except RvmError (List UInt8)} (same : source.length = count)
    (fits : start + count ≤ output.length) (inside : start + count ≤ uncompressedLen)
    (produces : Produces (next (overwrite output ⟨start, source⟩))
      (overwrite output ⟨start, source⟩) uncompressedLen written) :
    Produces ((copyInto output start (start + count) source).bind next) output uncompressedLen
      written := by
  rw [copyInto_eq same fits, bind_some]
  obtain ⟨outcome, final, returned, sameLength, untouched, bytes, declared⟩ := produces
  refine ⟨outcome, final, returned, ?_, ?_, bytes, declared⟩
  · exact sameLength.trans (overwrite_length' same fits)
  · exact untouched.trans (overwrite_drop same fits inside)

theorem produces_error (e : RvmError) :
    Produces (some (.error e, output)) output uncompressedLen (.error e) :=
  ⟨.error e, output, rfl, rfl, rfl, rfl, nofun⟩

theorem decompressBlocks_nil {written : List UInt8} :
    decompressBlocks uncompressedLen [] written = .ok written := by
  rw [decompressBlocks, ite_self]

theorem decompressBlocks_short {written : List UInt8} (unfinished : written.length < uncompressedLen)
    (unread : 0 < input.length) (short : input.length < 3) :
    decompressBlocks uncompressedLen input written = .error .checkpointCorrupted := by
  match input with
  | [_] => rw [decompressBlocks.eq_def, if_neg (by omega)]
  | [_, _] => rw [decompressBlocks.eq_def, if_neg (by omega)]

theorem decompressLoop_spec (room : uncompressedLen ≤ output.length)
    (inside : outPos ≤ uncompressedLen) :
    Produces (decompressLoop input uncompressedLen inPos outPos output) output uncompressedLen
      (checkLength uncompressedLen
        (decompressBlocks uncompressedLen (input.drop inPos) (output.take outPos))) := by
  induction remaining : input.length - inPos using Nat.strong_induction_on
    generalizing inPos outPos output with
  | _ size ih =>
    subst remaining
    have written : (output.take outPos).length = outPos := length_take_of_le (by omega)
    rw [decompressLoop]
    split
    · next more =>
        obtain ⟨unread, unfinished⟩ := more
        split
        · next short =>
            rw [decompressBlocks_short (by omega) (by rw [length_drop]; omega)
              (by rw [length_drop]; omega)]
            exact produces_error .checkpointCorrupted
        · next whole =>
            have low : inPos + 1 < input.length := by omega
            have high : inPos + 2 < input.length := by omega
            rw [drop_eq_getElem_cons unread, drop_eq_getElem_cons low,
              drop_eq_getElem_cons high, decompressBlocks, if_neg (by omega)]
            simp only [List.getElem?_eq_getElem unread, List.getElem?_eq_getElem low,
              List.getElem?_eq_getElem high, bind_eq_bind, bind_some, written]
            generalize littleEndianValue [input[inPos + 1], input[inPos + 2]] = blockLen
            by_cases zeroRun : input[inPos] = tagZeroRun
            · rw [if_pos zeroRun, if_pos zeroRun]
              by_cases long : outPos + blockLen > uncompressedLen
              · rw [if_pos long, if_pos long]
                exact produces_error .checkpointCorrupted
              · rw [if_neg long, if_neg long]
                have zeros : (List.replicate blockLen (0 : UInt8)).length = blockLen :=
                  length_replicate
                have fits : outPos + blockLen ≤ output.length := by omega
                apply Produces.copied zeros fits (by omega)
                rw [← overwrite_take zeros fits]
                apply ih _ _ _ (by omega) rfl
                · omega
                · rwa [overwrite_length' zeros fits]
            · rw [if_neg zeroRun, if_neg zeroRun]
              by_cases literal : input[inPos] = tagLiteral
              · rw [if_pos literal, if_pos literal, length_drop]
                by_cases cutOff : inPos + 3 + blockLen > input.length
                · rw [if_pos cutOff, if_pos (by omega)]
                  exact produces_error .checkpointCorrupted
                · have supplied : ¬ blockLen > input.length - (inPos + 2 + 1) := by omega
                  rw [if_neg cutOff, if_neg supplied]
                  by_cases long : outPos + blockLen > uncompressedLen
                  · rw [if_pos long, if_pos long]
                    exact produces_error .checkpointCorrupted
                  · rw [if_neg long, if_neg long, sliceAt_eq (by omega) (by omega),
                      bind_some, drop_take, Nat.add_sub_cancel_left, drop_drop]
                    have taken : ((input.drop (inPos + 3)).take blockLen).length = blockLen :=
                      length_take_of_le (by rw [length_drop]; omega)
                    have fits : outPos + blockLen ≤ output.length := by omega
                    apply Produces.copied taken fits (by omega)
                    rw [← overwrite_take taken fits]
                    apply ih _ _ _ (by omega) rfl
                    · omega
                    · rwa [overwrite_length' taken fits]
              · rw [if_neg literal, if_neg literal]
                exact produces_error .checkpointCorrupted
    · next ended =>
        by_cases filled : outPos = uncompressedLen
        · rw [if_neg (not_not.mpr filled), decompressBlocks_full (by omega)]
          refine ⟨.ok uncompressedLen, output, rfl, rfl, rfl, ?_, fun _ same => ?_⟩
          · rw [checkLength, Except.bind, if_neg (by omega), ← filled]
            rfl
          · cases same
            rfl
        · rw [if_pos filled, drop_of_length_le (by omega), decompressBlocks_nil, checkLength,
            Except.bind, if_pos (by omega)]
          exact produces_error .checkpointCorrupted

end Loop

section Decompress

variable {input output bytes result written : List UInt8} {uncompressedLen capacity : Nat}

theorem decompress_eq (input : List UInt8) (capacity : Nat) :
    decompress input capacity =
      if input.length < 4 then .error .checkpointCorrupted
      else if capacity < declaredLength input then .error .resourceLimitExceeded
      else checkLength (declaredLength input)
        (decompressBlocks (declaredLength input) (input.drop 4) []) := by
  rw [decompress, show declaredLength input = littleEndianValue (input.take 4) from rfl]
  split
  · rfl
  · split
    · next small => rw [if_pos small]
    · next room =>
        rw [if_neg room]
        cases decompressBlocks (littleEndianValue (input.take 4)) (input.drop 4) [] with
        | error e => rfl
        | ok bytes => rfl

/-- The call on a buffer is the decompression of lists. -/
theorem decompressInto_spec (input output : List UInt8) :
    Produces (decompressInto input output) output (declaredLength input)
      (decompress input output.length) := by
  rw [decompressInto, decompress_eq]
  split
  · exact produces_error .checkpointCorrupted
  · next long =>
      have read : littleEndianAt 4 input 0 = some (declaredLength input) :=
        littleEndianAt_eq (by omega)
      rw [read]
      simp only [bind_eq_bind, bind_some]
      split
      · exact produces_error .resourceLimitExceeded
      · next room => exact decompressLoop_spec (Nat.not_lt.mp room) (Nat.zero_le _)

theorem decompressInto_unwritten
    (refused : input.length < 4 ∨ output.length < declaredLength input) :
    ∃ e, decompressInto input output = some (.error e, output) := by
  rw [decompressInto]
  split
  · exact ⟨.checkpointCorrupted, rfl⟩
  · next long =>
      have read : littleEndianAt 4 input 0 = some (declaredLength input) :=
        littleEndianAt_eq (by omega)
      rw [read]
      simp only [bind_eq_bind, bind_some]
      rw [if_pos (refused.resolve_left long)]
      exact ⟨.resourceLimitExceeded, rfl⟩

/-! ### What is accepted -/

/-- The payload begins with whole blocks that stand for the bytes, as many as the header
declares. -/
def Carries (input bytes : List UInt8) : Prop :=
  4 ≤ input.length ∧ bytes.length = declaredLength input ∧
    ∃ (blocks : List Block) (rest : List UInt8),
      (∀ block ∈ blocks, block.expand.length ≤ 0xFFFF) ∧
      input.drop 4 = blocks.flatMap encode ++ rest ∧ blocks.flatMap expand = bytes

theorem littleEndianBytes_of_two (low high : UInt8) :
    littleEndianBytes 2 (littleEndianValue [low, high]) = [low, high] :=
  littleEndianBytes_value [low, high]

theorem littleEndianValue_two_le (low high : UInt8) : littleEndianValue [low, high] ≤ 0xFFFF := by
  have below := littleEndianValue_lt [low, high]
  rw [length_cons, length_singleton] at below
  omega

theorem blocks_cons {block : Block} {header : List UInt8} (encodes : header = block.encode)
    (small : block.expand.length ≤ 0xFFFF)
    (later : ∃ (blocks : List Block) (rest : List UInt8),
      (∀ block ∈ blocks, block.expand.length ≤ 0xFFFF) ∧
      input = blocks.flatMap encode ++ rest ∧
      result = (written ++ block.expand) ++ blocks.flatMap expand) :
    ∃ (blocks : List Block) (rest : List UInt8),
      (∀ block ∈ blocks, block.expand.length ≤ 0xFFFF) ∧
      header ++ input = blocks.flatMap encode ++ rest ∧
      result = written ++ blocks.flatMap expand := by
  obtain ⟨blocks, rest, allSmall, splits, writes⟩ := later
  refine ⟨block :: blocks, rest, forall_mem_cons.mpr ⟨small, allSmall⟩, ?_, ?_⟩
  · rw [encodes, splits, flatMap_cons, append_assoc]
  · rw [writes, flatMap_cons, append_assoc]

theorem decompressBlocks_blocks
    (returned : decompressBlocks uncompressedLen input written = .ok result) :
    ∃ (blocks : List Block) (rest : List UInt8),
      (∀ block ∈ blocks, block.expand.length ≤ 0xFFFF) ∧
      input = blocks.flatMap encode ++ rest ∧
      result = written ++ blocks.flatMap expand := by
  have stopped : ∀ rest written, (.ok written : Except RvmError (List UInt8)) = .ok result →
      ∃ (blocks : List Block) (rest' : List UInt8),
        (∀ block ∈ blocks, block.expand.length ≤ 0xFFFF) ∧
        rest = blocks.flatMap encode ++ rest' ∧
        result = written ++ blocks.flatMap expand := by
    intro rest written same
    cases same
    exact ⟨[], rest, nofun, rfl, (append_nil _).symm⟩
  fun_induction decompressBlocks uncompressedLen input written with
  | case1 input written full => exact stopped input written returned
  | case2 written unfinished => exact stopped [] written returned
  | case4 written unfinished low high rest blockLen fits ih =>
    have encodes : [tagZeroRun, low, high] = (zeroRun blockLen).encode := by
      rw [encode, littleEndianBytes_of_two]
    exact blocks_cons encodes
      (by rw [expand, length_replicate]; exact littleEndianValue_two_le low high)
      (ih returned)
  | case7 written unfinished low high rest blockLen supplied fits different ih =>
    have taken : (rest.take blockLen).length = blockLen :=
      length_take_of_le (Nat.not_lt.mp supplied)
    have encodes : [tagLiteral, low, high] ++ rest.take blockLen =
        (literal (rest.take blockLen)).encode := by
      rw [encode, taken, littleEndianBytes_of_two]
    have joined := blocks_cons encodes
      (by rw [expand, taken]; exact littleEndianValue_two_le low high)
      (ih returned)
    rwa [append_assoc, take_append_drop] at joined
  | _ => cases returned

theorem decompress_eq_ok_iff :
    decompress input capacity = .ok bytes ↔ Carries input bytes ∧ bytes.length ≤ capacity := by
  rw [decompress_eq]
  constructor
  · intro returned
    split at returned
    · cases returned
    · next long =>
        split at returned
        · cases returned
        · next room =>
            cases loop : decompressBlocks (declaredLength input) (input.drop 4) [] with
            | error e =>
              rw [loop] at returned
              cases returned
            | ok result =>
              rw [loop, checkLength, Except.bind] at returned
              split at returned
              · cases returned
              · next complete =>
                  cases returned
                  obtain ⟨blocks, rest, small, splits, writes⟩ := decompressBlocks_blocks loop
                  have declared := not_not.mp complete
                  refine ⟨⟨Nat.not_lt.mp long, declared, blocks, rest, small, splits, ?_⟩, ?_⟩
                  · exact writes.symm
                  · omega
  · rintro ⟨⟨long, declared, blocks, rest, small, splits, rfl⟩, room⟩
    rw [if_neg (by omega), if_neg (by omega), splits,
      decompressBlocks_encode small (by rw [length_nil, declared, Nat.zero_add]),
      nil_append, checkLength, Except.bind, if_neg (not_not.mpr declared)]

/-- Every call returns, writes nothing past the declared length, and succeeds only on whole blocks
of that length. -/
theorem decompressSafe (input output : List UInt8) :
    ∃ outcome final, decompressInto input output = some (outcome, final) ∧
      final.length = output.length ∧
      (∀ i, declaredLength input ≤ i → final[i]? = output[i]?) ∧
      (input.length < 4 ∨ output.length < declaredLength input → final = output) ∧
      (∀ count, outcome = .ok count →
        count = declaredLength input ∧ Carries input (final.take count)) ∧
      ((∃ e, outcome = .error e) ↔
        ¬ ∃ bytes, Carries input bytes ∧ bytes.length ≤ output.length) := by
  obtain ⟨outcome, final, returned, sameLength, untouched, decoded, declared⟩ :=
    decompressInto_spec input output
  refine ⟨outcome, final, returned, sameLength, fun i past => ?_, fun refused => ?_,
    fun count succeeded => ⟨declared count succeeded, ?_⟩, ?_⟩
  · have same := congrArg (·[i - declaredLength input]?) untouched
    simpa only [List.getElem?_drop, Nat.add_sub_cancel' past] using same
  · obtain ⟨e, unwritten⟩ := decompressInto_unwritten refused
    rw [unwritten] at returned
    cases returned
    rfl
  · subst succeeded
    exact (decompress_eq_ok_iff.mp decoded.symm).1
  · cases outcome with
    | error e =>
      refine iff_of_true ⟨e, rfl⟩ ?_
      intro ⟨bytes, accepted⟩
      rw [decompress_eq_ok_iff.mpr accepted] at decoded
      cases decoded
    | ok count =>
      apply iff_of_false nofun
      exact not_not.mpr ⟨final.take count, decompress_eq_ok_iff.mp decoded.symm⟩

end Decompress

/-! ### Bytes after the last block -/

theorem Block.encode_length (block : Block) : 3 ≤ block.encode.length := by
  cases block with
  | zeroRun count | literal bytes => simp [encode, littleEndianBytes_length]

/-- One literal byte, and another byte behind its block. -/
def trailingByte : List UInt8 := [1, 0, 0, 0, 1, 1, 0, 7, 255]

/-- The loop ends with the output full: the last byte is never read, and the payload is
not made of whole blocks. -/
theorem decompressSafe_trailing :
    decompressInto trailingByte [0] = some (.ok 1, [7]) ∧
      ¬ ∃ blocks : List Block, trailingByte.drop 4 = blocks.flatMap encode ∧
        blocks.flatMap expand = [7] := by
  constructor
  · have header : littleEndianAt 4 trailingByte 0 = some 1 := by decide
    have literal : copyInto [0] 0 1 [7] = some [7] := by decide
    rw [decompressInto, if_neg (by decide), header, bind_eq_bind, bind_some,
      if_neg (by decide), decompressLoop, if_pos (by decide), if_neg (by decide)]
    show (copyInto [0] 0 1 [7]).bind (decompressLoop trailingByte 1 8 1) = _
    rw [literal, bind_some, decompressLoop, if_neg (by decide), if_neg (by decide)]
  · intro ⟨blocks, whole, expands⟩
    match blocks with
    | [] => cases expands
    | [.zeroRun count] => simp [trailingByte, encode, tagZeroRun] at whole
    | [.literal bytes] =>
      have one : bytes = [7] := by simpa [expand] using expands
      rw [one] at whole
      simp [trailingByte, encode, littleEndianBytes] at whole
    | first :: second :: others =>
      have long := congrArg List.length whole
      have two := first.encode_length
      have three := second.encode_length
      rw [flatMap_cons, flatMap_cons, length_append, length_append] at long
      simp only [trailingByte, length_drop, length_cons, length_nil] at long
      omega

/-! ### The size of compressed data -/

def blocksOf (input : List UInt8) : List Block :=
  match input with
  | [] => []
  | byte :: rest =>
    if isZero byte = true then
      let runLen := runLength isZero 0xFFFF (byte :: rest)
      .zeroRun runLen :: blocksOf ((byte :: rest).drop runLen)
    else
      let litLen := runLength (fun byte => !isZero byte) 0xFFFF (byte :: rest)
      .literal ((byte :: rest).take litLen) :: blocksOf ((byte :: rest).drop litLen)
termination_by input.length
decreasing_by
  · have positive := @runLength_pos isZero 0xFFFF byte rest (by decide) (by assumption)
    rw [length_drop, length_cons]
    omega
  · have positive := @runLength_pos (fun byte => !isZero byte) 0xFFFF byte rest (by decide)
      (by simp only [*]; rfl)
    rw [length_drop, length_cons]
    omega

/-- What compression writes, into a large enough output. -/
def compressed (data : List UInt8) : List UInt8 :=
  littleEndianBytes 4 data.length ++ (blocksOf data).flatMap encode

section Size

variable {input written : List UInt8} {capacity : Nat}

theorem blocksOf_zeroRun {byte : UInt8} {rest : List UInt8} (zero : isZero byte = true) :
    (blocksOf (byte :: rest)).flatMap encode =
      (tagZeroRun :: littleEndianBytes 2 (runLength isZero 0xFFFF (byte :: rest))) ++
        (blocksOf ((byte :: rest).drop (runLength isZero 0xFFFF (byte :: rest)))).flatMap
          encode := by
  rw [blocksOf, if_pos zero]
  exact flatMap_cons

theorem blocksOf_literal {byte : UInt8} {rest : List UInt8} (nonzero : ¬ isZero byte = true)
    {litLen : Nat} (counted : runLength (fun byte => !isZero byte) 0xFFFF (byte :: rest) = litLen) :
    (blocksOf (byte :: rest)).flatMap encode =
      (tagLiteral :: littleEndianBytes 2 litLen ++ (byte :: rest).take litLen) ++
        (blocksOf ((byte :: rest).drop litLen)).flatMap encode := by
  have inside := (@runLength_le (fun byte => !isZero byte) 0xFFFF (byte :: rest)).2
  rw [counted] at inside
  rw [blocksOf, if_neg nonzero]
  dsimp only
  rw [counted, flatMap_cons, encode, length_take_of_le inside]

theorem compressBlocks_eq (started : written.length ≤ capacity) :
    compressBlocks capacity input written =
      if capacity < written.length + ((blocksOf input).flatMap encode).length then
        .error .resourceLimitExceeded
      else .ok (written ++ (blocksOf input).flatMap encode) := by
  fun_induction compressBlocks capacity input written with
  | case1 written =>
    rw [blocksOf, flatMap_nil, length_nil, append_nil, if_neg (by omega)]
  | case2 written byte rest zero full =>
    rw [blocksOf_zeroRun zero, if_pos]
    rw [length_append, length_cons, littleEndianBytes_length]
    omega
  | case3 written byte rest zero runLen room ih =>
    rw [ih (by
      rw [length_append, length_cons, littleEndianBytes_length]; omega)]
    rw [blocksOf_zeroRun zero, length_append, length_append, Nat.add_assoc,
      append_assoc]
  | case4 written byte rest nonzero litLen full =>
    have inside := (@runLength_le (fun byte => !isZero byte) 0xFFFF (byte :: rest)).2
    rw [blocksOf_literal nonzero rfl, if_pos]
    rw [length_append, length_append, length_cons, littleEndianBytes_length,
      length_take_of_le inside]
    omega
  | case5 written byte rest nonzero litLen room ih =>
    have inside := (@runLength_le (fun byte => !isZero byte) 0xFFFF (byte :: rest)).2
    rw [ih (by
      rw [length_append, length_append, length_cons, littleEndianBytes_length,
        length_take_of_le inside]
      omega)]
    rw [@blocksOf_literal byte rest nonzero litLen rfl]
    simp only [length_append, append_assoc, Nat.add_assoc]

theorem runLength_stops {test : UInt8 → Bool} {limit : Nat} (input : List UInt8)
    (below : runLength test limit input < limit) :
    ∀ byte ∈ (input.drop (runLength test limit input)).head?, test byte = false := by
  induction limit generalizing input with
  | zero => exact absurd below (Nat.not_lt_zero _)
  | succ limit ih =>
    cases input with
    | nil => exact nofun
    | cons first rest =>
      rw [runLength] at below ⊢
      split
      · next passes =>
          rw [if_pos passes] at below
          exact ih rest (Nat.lt_of_succ_lt_succ below)
      · next stops =>
          intro byte member
          obtain rfl := some.inj member
          simpa using stops

/-- A literal byte costs a header, which the run behind it saves again. -/
def slack (input : List UInt8) : Nat := if input.head?.any fun byte => !isZero byte then 1 else 0

theorem slack_le (input : List UInt8) : slack input ≤ 1 := by
  unfold slack
  split
  · exact le_refl _
  · exact Nat.zero_le _

/-- Blocks take at most seven bytes for every two bytes of the input. -/
theorem blocksOf_size (input : List UInt8) :
    2 * ((blocksOf input).flatMap encode).length ≤ 7 * input.length + slack input := by
  fun_induction blocksOf input with
  | case1 => exact Nat.zero_le _
  | case2 byte rest zero runLen ih =>
    have positive : 0 < runLen := runLength_pos (by decide) zero
    have inside : runLen ≤ (byte :: rest).length := (runLength_le 0xFFFF (byte :: rest)).2
    have later := slack_le ((byte :: rest).drop runLen)
    rw [length_drop] at ih
    rw [flatMap_cons, length_append, encode, length_cons,
      littleEndianBytes_length]
    omega
  | case3 byte rest nonzero litLen ih =>
    have positive : 0 < litLen := runLength_pos (by decide) (by simpa using nonzero)
    have inside : litLen ≤ (byte :: rest).length := (runLength_le 0xFFFF (byte :: rest)).2
    have later := slack_le ((byte :: rest).drop litLen)
    have costs : slack (byte :: rest) = 1 := by
      rw [slack, if_pos (by simpa using nonzero)]
    rw [length_drop] at ih
    rw [flatMap_cons, length_append, encode, length_append,
      length_cons, littleEndianBytes_length, length_take_of_le inside, costs]
    by_cases one : litLen = 1
    · -- A single literal byte ends before a zero, whose run has no bytes of its own.
      have saves : slack ((byte :: rest).drop litLen) = 0 := by
        have stops := @runLength_stops (fun byte => !isZero byte) 0xFFFF (byte :: rest) (by omega)
        unfold slack
        cases next : ((byte :: rest).drop litLen).head? with
        | none => rfl
        | some follower => simpa using stops follower next
      omega
    · omega

/-! ### The round trip -/

variable {data : List UInt8}

theorem compress_eq (data : List UInt8) (capacity : Nat) :
    compress data capacity =
      if capacity < (compressed data).length then .error .resourceLimitExceeded
      else .ok (compressed data) := by
  have header := littleEndianBytes_length 4 data.length
  rw [compress, compressed, length_append, header]
  by_cases small : capacity < 4
  · rw [if_pos small, if_pos (by omega)]
  · rw [if_neg small, compressBlocks_eq (by omega), header]

theorem compressed_length_le (data : List UInt8) :
    2 * (compressed data).length ≤ 7 * data.length + 9 := by
  have size := blocksOf_size data
  have one := slack_le data
  rw [compressed, length_append, littleEndianBytes_length]
  omega

theorem declaredLength_compressed (small : data.length < 4294967296) :
    declaredLength (compressed data) = data.length := by
  rw [declaredLength, compressed, take_left' (littleEndianBytes_length 4 data.length),
    littleEndianValue_bytes_of_lt small]

/-- Compression fails only where the output is too small, and what it wrote decompresses to the
data in any buffer that holds it. -/
theorem compressionRoundTrip (data out : List UInt8) (small : data.length < 4294967296) :
    (compress data out.length =
      if out.length < (compressed data).length then .error .resourceLimitExceeded
      else .ok (compressed data)) ∧
    2 * (compressed data).length ≤ 7 * data.length + 9 ∧
    ∀ bytes, compress data out.length = .ok bytes → ∀ buffer, data.length ≤ buffer.length →
      decompressInto bytes buffer = some (.ok data.length, data ++ buffer.drop data.length) := by
  refine ⟨compress_eq data out.length, compressed_length_le data, fun bytes written => ?_⟩
  intro buffer room
  have isCompressed : bytes = compressed data := by
    rw [compress_eq] at written
    split at written
    · cases written
    · exact (Except.ok.inj written).symm
  obtain ⟨outcome, final, returned, sameLength, untouched, decoded, declared⟩ :=
    decompressInto_spec bytes buffer
  rw [decompress_compress written small room] at decoded
  cases outcome with
  | error e => cases decoded
  | ok count =>
    have whole : count = data.length := by
      rw [declared count rfl, isCompressed, declaredLength_compressed small]
    have front : final.take data.length = data := whole ▸ Except.ok.inj decoded
    have back : final.drop data.length = buffer.drop data.length := by
      rwa [← declaredLength_compressed small, ← isCompressed]
    have joined := take_append_drop data.length final
    rw [front, back] at joined
    rw [returned, whole, joined]

/-- Two zeros and a literal byte, into a buffer of four. -/
theorem compressionRoundTrip_sample :
    ∃ bytes, compress [0, 0, 5] 11 = .ok bytes ∧
      decompressInto bytes [9, 9, 9, 9] = some (.ok 3, [0, 0, 5, 9]) := by
  obtain ⟨written, bounded, decodes⟩ :=
    compressionRoundTrip [0, 0, 5] (List.replicate 11 0) (by decide)
  rw [length_replicate, if_neg ?_] at written
  · exact ⟨_, written, decodes _ written [9, 9, 9, 9] (by decide)⟩
  · simp [compressed, blocksOf, isZero, runLength, encode, littleEndianBytes]

end Size

end Rvm.Memory
