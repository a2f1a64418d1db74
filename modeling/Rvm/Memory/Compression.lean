import Rvm.Foundation.Bytes
import Rvm.Types.Basic

/-!
Owns the run-length compressor of `rvm-memory/src/reconstruction.rs`: a length
header, then blocks of zeros and literal blocks of at most `0xFFFF` bytes.
Compressing writes the blocks of a decomposition of the input, and decompressing
the blocks gives the input back.
-/

namespace Rvm.Memory

open Foundation List

def tagZeroRun : UInt8 := 0x00

def tagLiteral : UInt8 := 0x01

/-- How many leading bytes pass the test, up to a limit. -/
def runLength (test : UInt8 → Bool) : Nat → List UInt8 → Nat
  | 0, _ => 0
  | _ + 1, [] => 0
  | limit + 1, byte :: rest => if test byte then runLength test limit rest + 1 else 0

theorem runLength_le {test : UInt8 → Bool} (limit : Nat) (input : List UInt8) :
    runLength test limit input ≤ limit ∧ runLength test limit input ≤ input.length := by
  induction limit generalizing input with
  | zero => exact ⟨Nat.zero_le _, Nat.zero_le _⟩
  | succ limit ih =>
    cases input with
    | nil => exact ⟨Nat.zero_le _, Nat.zero_le _⟩
    | cons byte rest =>
      have later := ih rest
      rw [runLength]
      split
      · exact ⟨Nat.succ_le_succ later.1, Nat.succ_le_succ later.2⟩
      · exact ⟨Nat.zero_le _, Nat.zero_le _⟩

theorem runLength_pos {test : UInt8 → Bool} {limit : Nat} {byte : UInt8} {rest : List UInt8}
    (room : 0 < limit) (passes : test byte = true) :
    0 < runLength test limit (byte :: rest) := by
  obtain ⟨limit, rfl⟩ := Nat.exists_eq_add_one_of_ne_zero (Nat.ne_of_gt room)
  rw [runLength, if_pos passes]
  exact Nat.succ_pos _

theorem runLength_all {test : UInt8 → Bool} (limit : Nat) (input : List UInt8) :
    ∀ byte ∈ input.take (runLength test limit input), test byte = true := by
  induction limit generalizing input with
  | zero => exact fun byte member => absurd member (not_mem_nil)
  | succ limit ih =>
    cases input with
    | nil => exact fun byte member => absurd member (not_mem_nil)
    | cons first rest =>
      rw [runLength]
      split
      · rename_i passes
        intro byte member
        rw [take_succ_cons] at member
        rcases mem_cons.mp member with rfl | tail
        · exact passes
        · exact ih rest byte tail
      · exact fun byte member => absurd member (not_mem_nil)

def isZero (byte : UInt8) : Bool := byte == 0

def compressBlocks (capacity : Nat) (input written : List UInt8) : Except RvmError (List UInt8) :=
  match input with
  | [] => .ok written
  | byte :: rest =>
    if isZero byte = true then
      let runLen := runLength isZero 0xFFFF (byte :: rest)
      if written.length + 3 > capacity then .error .resourceLimitExceeded
      else
        compressBlocks capacity ((byte :: rest).drop runLen)
          (written ++ tagZeroRun :: littleEndianBytes 2 runLen)
    else
      let litLen := runLength (fun byte => !isZero byte) 0xFFFF (byte :: rest)
      if written.length + 3 + litLen > capacity then .error .resourceLimitExceeded
      else
        compressBlocks capacity ((byte :: rest).drop litLen)
          (written ++ tagLiteral :: littleEndianBytes 2 litLen ++ (byte :: rest).take litLen)
termination_by input.length
decreasing_by
  · have positive := @runLength_pos isZero 0xFFFF byte rest (by decide)
      (by assumption)
    rw [length_drop, length_cons]
    omega
  · have positive := @runLength_pos (fun byte => !isZero byte) 0xFFFF byte rest (by decide)
      (by simp only [*]; rfl)
    rw [length_drop, length_cons]
    omega

def compress (input : List UInt8) (capacity : Nat) : Except RvmError (List UInt8) :=
  if capacity < 4 then .error .resourceLimitExceeded
  else compressBlocks capacity input (littleEndianBytes 4 input.length)

/-- The block loop of `decompress`; it ends with the input or with the output
full. -/
def decompressBlocks (uncompressedLen : Nat) (input written : List UInt8) :
    Except RvmError (List UInt8) :=
  if written.length ≥ uncompressedLen then .ok written
  else
    match input with
    | [] => .ok written
    | tag :: low :: high :: rest =>
      let blockLen := littleEndianValue [low, high]
      if tag = tagZeroRun then
        if written.length + blockLen > uncompressedLen then .error .checkpointCorrupted
        else decompressBlocks uncompressedLen rest (written ++ List.replicate blockLen 0)
      else if tag = tagLiteral then
        if blockLen > rest.length then .error .checkpointCorrupted
        else if written.length + blockLen > uncompressedLen then .error .checkpointCorrupted
        else
          decompressBlocks uncompressedLen (rest.drop blockLen) (written ++ rest.take blockLen)
      else .error .checkpointCorrupted
    | _ => .error .checkpointCorrupted
termination_by input.length
decreasing_by
  · rw [length_cons, length_cons, length_cons]
    omega
  · rw [length_drop, length_cons, length_cons, length_cons]
    omega

def decompress (input : List UInt8) (capacity : Nat) : Except RvmError (List UInt8) :=
  if input.length < 4 then .error .checkpointCorrupted
  else
    let uncompressedLen := littleEndianValue (input.take 4)
    if capacity < uncompressedLen then .error .resourceLimitExceeded
    else
      match decompressBlocks uncompressedLen (input.drop 4) [] with
      | .error e => .error e
      | .ok written =>
        if written.length ≠ uncompressedLen then .error .checkpointCorrupted else .ok written

inductive Block where
  | zeroRun (count : Nat)
  | literal (bytes : List UInt8)

namespace Block

def expand : Block → List UInt8
  | .zeroRun count => List.replicate count 0
  | .literal bytes => bytes

def encode : Block → List UInt8
  | .zeroRun count => tagZeroRun :: littleEndianBytes 2 count
  | .literal bytes => tagLiteral :: littleEndianBytes 2 bytes.length ++ bytes

def Fits (block : Block) : Prop := 0 < block.expand.length ∧ block.expand.length ≤ 0xFFFF

end Block

variable {input written rest : List UInt8} {capacity uncompressedLen : Nat}

theorem replicate_zero_of_isZero (zeros : ∀ byte ∈ input, isZero byte = true) :
    List.replicate input.length 0 = input :=
  (eq_replicate_iff.mpr ⟨rfl, fun byte member => by
    simpa [isZero] using zeros byte member⟩).symm

theorem compressBlocks_spec (input written : List UInt8) {result : List UInt8}
    (returned : compressBlocks capacity input written = .ok result) :
    ∃ blocks : List Block, (∀ block ∈ blocks, block.Fits) ∧
      blocks.flatMap Block.expand = input ∧ result = written ++ blocks.flatMap Block.encode := by
  induction hypothesis : input.length using Nat.strong_induction_on generalizing input written with
  | _ size ih =>
    subst hypothesis
    cases input with
    | nil =>
      rw [compressBlocks] at returned
      cases returned
      exact ⟨[], fun block member => absurd member not_mem_nil, rfl, (append_nil _).symm⟩
    | cons byte rest =>
      rw [compressBlocks] at returned
      split at returned
      · rename_i zero
        have positive := @runLength_pos isZero 0xFFFF byte rest (by decide) zero
        obtain ⟨small, inside⟩ := @runLength_le isZero 0xFFFF (byte :: rest)
        have zeros := @runLength_all isZero 0xFFFF (byte :: rest)
        dsimp only at returned
        generalize runLength isZero 0xFFFF (byte :: rest) = runLen at *
        split at returned
        · cases returned
        · obtain ⟨blocks, fit, expands, written⟩ := ih _
            (by rw [length_drop, length_cons]; omega) _ _ returned rfl
          have run : List.replicate runLen 0 = (byte :: rest).take runLen := by
            have zeroRun := replicate_zero_of_isZero zeros
            rwa [length_take, Nat.min_eq_left inside] at zeroRun
          refine ⟨.zeroRun runLen :: blocks, fun block member => ?_, ?_, ?_⟩
          · rcases mem_cons.mp member with rfl | later
            · rw [Block.Fits, Block.expand, length_replicate]
              exact ⟨positive, small⟩
            · exact fit block later
          · rw [flatMap_cons, expands, Block.expand, run, take_append_drop]
          · rw [written, flatMap_cons, Block.encode, append_assoc]
      · rename_i nonzero
        have positive := @runLength_pos (fun byte => !isZero byte) 0xFFFF byte rest (by decide)
          (by simpa using nonzero)
        obtain ⟨small, inside⟩ :=
          @runLength_le (fun byte => !isZero byte) 0xFFFF (byte :: rest)
        dsimp only at returned
        generalize runLength (fun byte => !isZero byte) 0xFFFF (byte :: rest) = litLen at *
        split at returned
        · cases returned
        · obtain ⟨blocks, fit, expands, written⟩ := ih _
            (by rw [length_drop, length_cons]; omega) _ _ returned rfl
          have taken : ((byte :: rest).take litLen).length = litLen := by
            rw [length_take, Nat.min_eq_left inside]
          refine ⟨.literal ((byte :: rest).take litLen) :: blocks, fun block member => ?_, ?_, ?_⟩
          · rcases mem_cons.mp member with rfl | later
            · rw [Block.Fits, Block.expand, taken]
              exact ⟨positive, small⟩
            · exact fit block later
          · rw [flatMap_cons, expands, Block.expand, take_append_drop]
          · rw [written, flatMap_cons, Block.encode, taken]
            simp only [append_assoc, cons_append]

theorem littleEndianBytes_two (value : Nat) :
    littleEndianBytes 2 value = [UInt8.ofNat value, UInt8.ofNat (value / 256)] := rfl

theorem decompressBlocks_full (full : uncompressedLen ≤ written.length) :
    decompressBlocks uncompressedLen input written = .ok written := by
  rw [decompressBlocks.eq_def, if_pos full]

theorem decompressBlocks_block {block : Block} (small : block.expand.length ≤ 0xFFFF)
    (unfinished : written.length < uncompressedLen)
    (room : written.length + block.expand.length ≤ uncompressedLen) :
    decompressBlocks uncompressedLen (block.encode ++ rest) written =
      decompressBlocks uncompressedLen rest (written ++ block.expand) := by
  have counted : littleEndianValue (littleEndianBytes 2 block.expand.length) =
      block.expand.length := by
    rw [littleEndianValue_bytes]
    exact Nat.mod_eq_of_lt (by omega)
  rw [littleEndianBytes_two] at counted
  cases block with
  | zeroRun count =>
    dsimp only [Block.expand] at *
    rw [length_replicate] at *
    dsimp only [Block.encode, littleEndianBytes_two, cons_append, nil_append]
    rw [decompressBlocks, if_neg (by omega)]
    dsimp only
    rw [counted, if_pos rfl, if_neg (by omega)]
  | literal bytes =>
    dsimp only [Block.expand] at *
    dsimp only [Block.encode, littleEndianBytes_two, cons_append, nil_append]
    rw [decompressBlocks, if_neg (by omega)]
    dsimp only
    rw [counted, if_neg (by decide), if_pos rfl, if_neg (by rw [length_append]; omega),
      if_neg (by omega), take_left' rfl, drop_left' rfl]

theorem decompressBlocks_encode {blocks : List Block}
    (small : ∀ block ∈ blocks, block.expand.length ≤ 0xFFFF)
    (fills : written.length + (blocks.flatMap Block.expand).length = uncompressedLen) :
    decompressBlocks uncompressedLen (blocks.flatMap Block.encode ++ rest) written =
      .ok (written ++ blocks.flatMap Block.expand) := by
  induction blocks generalizing written with
  | nil =>
    rw [flatMap_nil, length_nil] at fills
    rw [decompressBlocks_full (by omega), flatMap_nil, append_nil]
  | cons block later ih =>
    by_cases full : uncompressedLen ≤ written.length
    · have nothing : ((block :: later).flatMap Block.expand) = [] :=
        eq_nil_of_length_eq_zero (by omega)
      rw [decompressBlocks_full full, nothing, append_nil]
    · rw [flatMap_cons, length_append] at fills
      rw [flatMap_cons, flatMap_cons, append_assoc,
        decompressBlocks_block (small block mem_cons_self) (by omega) (by omega),
        ih (fun other member => small other (mem_cons_of_mem block member))
          (by rw [length_append]; omega), append_assoc]

theorem decompress_compress {compressed : List UInt8} {room : Nat}
    (returned : compress input capacity = .ok compressed) (small : input.length < 4294967296)
    (fits : input.length ≤ room) : decompress compressed room = .ok input := by
  unfold compress at returned
  split at returned
  · cases returned
  · obtain ⟨blocks, fit, expands, rfl⟩ := compressBlocks_spec input _ returned
    have header := littleEndianBytes_length 4 input.length
    have length : littleEndianValue (littleEndianBytes 4 input.length) = input.length := by
      rw [littleEndianValue_bytes]
      exact Nat.mod_eq_of_lt small
    rw [decompress, if_neg (by rw [length_append]; omega)]
    dsimp only
    rw [take_left' header, drop_left' header, length, if_neg (by omega),
      ← append_nil (blocks.flatMap Block.encode),
      decompressBlocks_encode (fun block member => (fit block member).2)
        (by rw [expands, length_nil]; omega), expands, nil_append]
    dsimp only
    rw [if_neg (not_not.mpr rfl)]

theorem runLength_eq_length {test : UInt8 → Bool} {limit : Nat}
    (passes : ∀ byte ∈ input, test byte = true) (short : input.length ≤ limit) :
    runLength test limit input = input.length := by
  induction limit generalizing input with
  | zero =>
    rw [runLength]
    exact (Nat.le_zero.mp short).symm
  | succ limit ih =>
    cases input with
    | nil => rfl
    | cons byte rest =>
      rw [length_cons] at short ⊢
      rw [runLength, if_pos (passes byte mem_cons_self), ih
        (fun other member => passes other (mem_cons_of_mem byte member)) (by omega)]

theorem runLength_one {test : UInt8 → Bool} {limit : Nat} {first : UInt8}
    (passes : test first = true) (ends : ∀ byte ∈ rest.head?, test byte = false) :
    runLength test (limit + 2) (first :: rest) = 1 := by
  rw [runLength, if_pos passes]
  cases rest with
  | nil => rfl
  | cons second others =>
    rw [runLength, if_neg (by rw [ends second rfl]; decide)]

theorem compress_literal {input : List UInt8} {capacity : Nat} (nonempty : input ≠ [])
    (allNonzero : (input.all fun byte => !isZero byte) = true) (short : input.length ≤ 0xFFFF)
    (room : 7 + input.length ≤ capacity) :
    compress input capacity = .ok (littleEndianBytes 4 input.length ++
      tagLiteral :: littleEndianBytes 2 input.length ++ input) := by
  have nonzero : ∀ byte ∈ input, isZero byte = false := fun byte member =>
    (Bool.not_eq_true' _).mp (all_eq_true.mp allNonzero byte member)
  have whole : runLength (fun byte => !isZero byte) 0xFFFF input = input.length :=
    runLength_eq_length (all_eq_true.mp allNonzero) short
  have header := littleEndianBytes_length 4 input.length
  cases input with
  | nil => exact absurd rfl nonempty
  | cons byte rest =>
    rw [compress, if_neg (by omega), compressBlocks,
      if_neg (by rw [nonzero byte mem_cons_self]; decide)]
    dsimp only
    rw [whole, if_neg (by omega), drop_length, take_length, compressBlocks]

/-- `count` times a one and a zero. -/
def alternating (count : Nat) : List UInt8 := (List.replicate count [1, 0]).flatten

/-- Each pair takes seven bytes. -/
def alternatingBlocks (count : Nat) : List UInt8 :=
  (List.replicate count [1, 1, 0, 1, 0, 1, 0]).flatten

theorem alternating_succ (count : Nat) : alternating (count + 1) = 1 :: 0 :: alternating count := by
  rw [alternating, replicate_succ, flatten_cons]
  rfl

theorem alternatingBlocks_succ (count : Nat) :
    alternatingBlocks (count + 1) = [1, 1, 0, 1, 0, 1, 0] ++ alternatingBlocks count := by
  rw [alternatingBlocks, replicate_succ, flatten_cons]
  rfl

theorem alternating_length (count : Nat) : (alternating count).length = 2 * count := by
  induction count with
  | zero => rfl
  | succ count ih =>
    rw [alternating_succ, length_cons, length_cons, ih]
    omega

theorem alternatingBlocks_length (count : Nat) : (alternatingBlocks count).length = 7 * count := by
  induction count with
  | zero => rfl
  | succ count ih =>
    rw [alternatingBlocks_succ, length_append, ih]
    change 7 + 7 * count = _
    omega

theorem compressBlocks_alternating (count : Nat) (written : List UInt8)
    (room : written.length + 7 * count ≤ capacity) :
    compressBlocks capacity (alternating count) written =
      .ok (written ++ alternatingBlocks count) := by
  induction count generalizing written with
  | zero =>
    rw [alternating, alternatingBlocks, replicate_zero, flatten_nil, compressBlocks,
      replicate_zero, flatten_nil, append_nil]
  | succ count ih =>
    have literal : runLength (fun byte => !isZero byte) 0xFFFF (1 :: 0 :: alternating count) = 1 :=
      runLength_one (by decide) fun byte member => by
        obtain rfl := Option.some.inj member
        decide
    have zeros : runLength isZero 0xFFFF (0 :: alternating count) = 1 := by
      apply runLength_one (by decide)
      intro byte member
      cases count with
      | zero => cases member
      | succ count =>
        rw [alternating_succ] at member
        obtain rfl := Option.some.inj member
        decide
    rw [alternating_succ, compressBlocks, if_neg (by decide)]
    dsimp only
    rw [literal, if_neg (by omega), drop_succ_cons, drop_zero, compressBlocks,
      if_pos (by decide)]
    dsimp only
    rw [zeros, if_neg ?_, drop_succ_cons, drop_zero, ih, alternatingBlocks_succ]
    · simp only [append_assoc, cons_append, nil_append]
      rfl
    · simp only [length_append, length_cons, littleEndianBytes_length, length_take]
      omega
    · simp only [length_append, length_cons, littleEndianBytes_length, length_take]
      omega

/-- A literal block cut off behind its length is rejected. -/
theorem decompress_cut {header : List UInt8} {room : Nat} (four : header.length = 4)
    (positive : 0 < littleEndianValue header) (fits : littleEndianValue header ≤ room) :
    decompress (header ++ [1, 1, 0]) room = .error .checkpointCorrupted := by
  rw [decompress, if_neg (by rw [length_append]; omega)]
  dsimp only
  rw [take_left' four, drop_left' four, if_neg (by omega), decompressBlocks.eq_def,
    if_neg (by rw [length_nil]; omega)]
  rfl

end Rvm.Memory
