import Mathlib.Tactic.Ring
import Rvm.Foundation.BitField
import Rvm.Foundation.Numerals
import Rvm.Wasm.Framing

/-!
Owns what `validate_module` accepts: the modules framed by sections whose sizes are LEB128
numbers and whose ranks increase, with a summary of the sections, as long as the counter
of the sections does not overflow.
-/

namespace Rvm.Wasm

open Foundation Foundation.Call List WasmSectionId WasmValidationResult

/-! ### LEB128 -/

variable {bytes data rest : List UInt8} {checks : Bool}

theorem low_bits (byte : UInt8) : (byte &&& 0x7F).toNat = byte.toNat % 128 := by
  rw [UInt8.toNat_and]
  exact Nat.and_two_pow_sub_one_eq_mod byte.toNat 7

theorem high_bit (byte : UInt8) : byte &&& 0x80 = 0 ↔ byte.toNat < 128 := by
  have below := byte.toNat_lt
  have masked : (byte &&& 0x80).toNat = (byte.toNat.testBit 7).toNat * 128 := by
    rw [UInt8.toNat_and]
    exact Nat.and_two_pow byte.toNat 7
  rw [← UInt8.toNat_inj, masked, Nat.testBit_eq_decide_div_mod_eq]
  by_cases large : byte.toNat / 2 ^ 7 % 2 = 1
  · simp only [large, decide_true, Bool.toNat_true]
    constructor
    · nofun
    · omega
  · simp only [large, decide_false, Bool.toNat_false]
    simp only [Nat.zero_mul, UInt8.toNat_zero, true_iff]
    omega

theorem or_shifted {low bits shift : Nat} (below : low < 2 ^ shift)
    (small : bits <<< shift < 4294967296) :
    low ||| asU32 (bits <<< shift) = low + bits * 2 ^ shift := by
  rw [asU32, Nat.mod_eq_of_lt small, Nat.or_comm, ← Nat.shiftLeft_add_eq_or_of_lt below,
    Nat.shiftLeft_eq, Nat.add_comm]

theorem round_bounds {remaining result shift low : Nat} (budget : shift + 7 * (remaining + 1) = 35)
    (below : result < 2 ^ shift) (seven : low < 128) (four : remaining = 0 → low ≤ 15) :
    low <<< shift < 4294967296 ∧ result + low * 2 ^ shift < 2 ^ (shift + 7) ∧
      result + low * 2 ^ shift < 4294967296 := by
  rw [Nat.shiftLeft_eq]
  have next : result + low * 2 ^ shift < 2 ^ (shift + 7) := by
    have whole : (low + 1) * 2 ^ shift ≤ 128 * 2 ^ shift := Nat.mul_le_mul_right _ seven
    rw [Nat.add_mul, Nat.one_mul] at whole
    rw [Nat.pow_add]
    omega
  have total : result + low * 2 ^ shift < 4294967296 := by
    cases remaining with
    | zero =>
      obtain rfl : shift = 28 := by omega
      have fifteen := four rfl
      omega
    | succ remaining =>
      have grows : 2 ^ (shift + 7) ≤ 2 ^ 28 := Nat.pow_le_pow_right (by decide) (by omega)
      exact Nat.lt_trans (Nat.lt_of_lt_of_le next grows) (by decide)
  exact ⟨Nat.lt_of_le_of_lt (Nat.le_add_left _ _) total, next, total⟩

/-- A number of at most this many bytes, whose value at its place fits 32 bits. -/
def SizeAt (remaining result shift : Nat) (data size : List UInt8) (value : Nat)
    (rest : List UInt8) : Prop :=
  data = size ++ rest ∧ Leb128 size value ∧ size.length ≤ remaining ∧
    result + value * 2 ^ shift < 4294967296

theorem readLebRounds_spec {start remaining result shift pos : Nat} (left : start ≤ pos)
    (budget : shift + 7 * remaining = 35) (below : result < 2 ^ shift) :
    (readLebRounds bytes start remaining result shift pos).Ensures ()
      (fun read _ => ∃ size value rest,
        SizeAt remaining result shift (bytes.drop pos) size value rest ∧
          read = (result + value * 2 ^ shift, pos + size.length - start))
      fun _ _ => ¬∃ size value rest,
        SizeAt remaining result shift (bytes.drop pos) size value rest := by
  induction remaining generalizing result shift pos with
  | zero =>
    simp only [readLebRounds, ensures_throw]
    rintro ⟨size, value, rest, _, encodes, short, _⟩
    have long := encodes.length_pos
    omega
  | succ remaining ih =>
    simp only [readLebRounds, ensures_bind, ensures_throwIf, ensures_orPanic, ensures_ite,
      ensures_pure]
    constructor
    · rintro outside ⟨size, value, rest, shape, encodes, _⟩
      rw [drop_of_length_le outside] at shape
      exact encodes.ne_nil (append_eq_nil_iff.mp shape.symm).1
    · intro inside
      have within : pos < bytes.length := Nat.not_le.mp inside
      refine ⟨bytes[pos], List.getElem?_eq_getElem within, ?_⟩
      generalize read : bytes[pos] = byte
      have shape : bytes.drop pos = byte :: bytes.drop (pos + 1) := by
        rw [drop_eq_getElem_cons within, read]
      have small := byte.toNat_lt
      rw [high_bit, low_bits]
      constructor
      · rintro ⟨rfl, large⟩ ⟨size, value, rest, same, encodes, short, fits⟩
        have sixteen : 16 ≤ byte.toNat := UInt8.lt_iff_toNat_lt.mp large
        obtain rfl : shift = 28 := by omega
        cases encodes with
        | last low =>
          obtain ⟨rfl, _⟩ := List.cons.inj (shape.symm.trans same)
          omega
        | more _ later =>
          have long := later.length_pos
          rw [length_cons] at short
          omega
      · intro fine
        have placed : remaining = 0 → byte.toNat ≤ 15 := fun last =>
          Nat.not_lt.mp fun large => fine ⟨last, UInt8.lt_iff_toNat_lt.mpr large⟩
        obtain ⟨shifted, next, total⟩ := @round_bounds remaining result shift (byte.toNat % 128)
          budget below (Nat.mod_lt _ (by decide)) fun last =>
            Nat.le_trans (Nat.mod_le _ _) (placed last)
        rw [or_shifted below shifted]
        constructor
        · intro isLast
          rw [Nat.mod_eq_of_lt isLast] at total ⊢
          exact ⟨[byte], byte.toNat, _, ⟨shape, .last isLast, Nat.succ_pos _, total⟩, rfl⟩
        · intro goesOn
          have large : 128 ≤ byte.toNat := Nat.not_lt.mp goesOn
          have digit : byte.toNat % 128 = byte.toNat - 128 := by omega
          -- The value of the rest counts 128 times, from its own place.
          have value_eq : ∀ value,
              result + byte.toNat % 128 * 2 ^ shift + value * 2 ^ (shift + 7) =
                result + (byte.toNat - 128 + 128 * value) * 2 ^ shift := by
            intro value
            rw [digit, Nat.pow_add]
            ring
          apply (ih (Nat.le_succ_of_le left) (by omega) next).mono
          · rintro _ _ ⟨size, value, rest, ⟨same, encodes, short, fits⟩, rfl⟩
            refine ⟨byte :: size, _, rest, ⟨?_, .more large encodes, ?_, ?_⟩, ?_⟩
            · rw [shape, same]
              rfl
            · exact Nat.succ_le_succ short
            · rw [← value_eq]
              exact fits
            · rw [value_eq, length_cons, Nat.succ_add, Nat.add_succ]
          · rintro _ _ absent ⟨size, value, rest, same, encodes, short, fits⟩
            cases encodes with
            | last low =>
              obtain ⟨rfl, _⟩ := List.cons.inj (shape.symm.trans same)
              omega
            | @more _ later value _ encodes =>
              obtain ⟨rfl, sameRest⟩ := List.cons.inj (shape.symm.trans same)
              refine absent ⟨later, value, rest, sameRest, encodes,
                Nat.le_of_succ_le_succ short, ?_⟩
              rw [value_eq]
              exact fits

/-- The size field at the start of some bytes. -/
def SizeField (data size : List UInt8) (value : Nat) (rest : List UInt8) : Prop :=
  data = size ++ rest ∧ Leb128 size value ∧ size.length ≤ 5 ∧ value < 4294967296

theorem readLeb128U32_spec (start : Nat) :
    (readLeb128U32 bytes start).Ensures ()
      (fun read _ => ∃ size value rest, SizeField (bytes.drop start) size value rest ∧
        read = (value, size.length))
      fun _ _ => ¬∃ size value rest, SizeField (bytes.drop start) size value rest := by
  have spec := @readLebRounds_spec bytes start 5 0 0 start (Nat.le_refl _) rfl Nat.one_pos
  simp only [SizeAt, Nat.zero_add, Nat.pow_zero, Nat.mul_one, Nat.add_sub_cancel_left] at spec
  exact spec

/-! ### Sections -/

structure WasmSection where
  id : WasmSectionId
  size : List UInt8
  payload : List UInt8
  sized : Leb128 size payload.length
  short : size.length ≤ 5
  small : payload.length < 4294967296

namespace WasmSection

variable {first second : WasmSection} {left right : List UInt8} {done sections : List WasmSection}

def toBytes (sec : WasmSection) : List UInt8 := sec.id.asU8 :: (sec.size ++ sec.payload)

def tile (sections : List WasmSection) : List UInt8 := sections.flatMap toBytes

theorem unique (same : first.toBytes ++ left = second.toBytes ++ right) :
    first = second ∧ left = right := by
  obtain ⟨id, size, payload, sized, _, _⟩ := first
  obtain ⟨otherId, otherSize, otherPayload, otherSized, _, _⟩ := second
  simp only [toBytes, cons_append, append_assoc, List.cons.injEq] at same
  obtain ⟨sameId, sameRest⟩ := same
  have ids : some id = some otherId := by
    rw [← fromU8_asU8 id, ← fromU8_asU8 otherId, sameId]
  obtain rfl := Option.some.inj ids
  obtain ⟨rfl, lengths, samePayload⟩ := sized.unique otherSized sameRest
  obtain ⟨rfl, rfl⟩ := append_inj samePayload lengths
  exact ⟨rfl, rfl⟩

theorem tile_cons (sec : WasmSection) (sections : List WasmSection) :
    tile (sec :: sections) = sec.toBytes ++ tile sections :=
  flatMap_cons

theorem tile_snoc (done : List WasmSection) (sec : WasmSection) :
    tile (done ++ [sec]) = tile done ++ sec.toBytes := by
  unfold tile
  rw [flatMap_append, flatMap_singleton]

theorem tile_eq_nil (empty : tile sections = []) : sections = [] := by
  cases sections with
  | nil => rfl
  | cons sec rest =>
    rw [tile_cons] at empty
    exact nomatch (append_eq_nil_iff.mp empty).1

theorem tile_prefix (same : tile done ++ left = tile sections) :
    ∃ more, sections = done ++ more ∧ left = tile more := by
  induction done generalizing sections with
  | nil => exact ⟨sections, rfl, same⟩
  | cons sec done ih =>
    cases sections with
    | nil =>
      rw [tile_cons] at same
      cases same
    | cons other sections =>
      rw [tile_cons, tile_cons, append_assoc] at same
      obtain ⟨rfl, sameRest⟩ := unique same
      obtain ⟨more, rfl, rest⟩ := ih sameRest
      exact ⟨more, rfl, rest⟩

theorem payloads_le_tile (sections : List WasmSection) :
    (sections.map fun sec => sec.payload.length).sum ≤ (tile sections).length := by
  induction sections with
  | nil => exact Nat.le_refl 0
  | cons sec rest ih =>
    rw [tile_cons, length_append, map_cons, sum_cons, toBytes, length_cons, length_append]
    omega

theorem length_le_tile (sections : List WasmSection) :
    sections.length ≤ (tile sections).length := by
  induction sections with
  | nil => exact Nat.le_refl 0
  | cons sec rest ih =>
    rw [tile_cons, length_append, toBytes, length_cons, length_cons]
    omega

def ranks (sections : List WasmSection) : List Nat :=
  (sections.filter fun sec => sec.id ≠ .custom).map fun sec => sec.id.orderRank

/-- Non-custom sections come in the order of the format, none twice. -/
def Ordered (sections : List WasmSection) : Prop := (ranks sections).Pairwise (· < ·)

theorem ranks_snoc (done : List WasmSection) (sec : WasmSection) :
    ranks (done ++ [sec]) =
      if sec.id = .custom then ranks done else ranks done ++ [sec.id.orderRank] := by
  unfold ranks
  rw [filter_append, map_append]
  by_cases custom : sec.id = .custom
  · simp [custom]
  · simp [custom]

theorem ordered_snoc (done : List WasmSection) (sec : WasmSection) :
    Ordered (done ++ [sec]) ↔ Ordered done ∧
      (sec.id = .custom ∨ ∀ rank ∈ ranks done, rank < sec.id.orderRank) := by
  unfold Ordered
  rw [ranks_snoc]
  by_cases custom : sec.id = .custom
  · simp [custom]
  · simp [custom, pairwise_append]

theorem Ordered.of_append (ordered : Ordered (done ++ sections)) : Ordered done := by
  unfold Ordered ranks at ordered ⊢
  rw [filter_append, map_append] at ordered
  exact (pairwise_append.mp ordered).1

theorem lt_all_iff_last {ranks : List Nat} (increasing : ranks.Pairwise (· < ·)) (next : Nat) :
    (∀ rank ∈ ranks, rank < next) ↔ ∀ last ∈ ranks.getLast?, last < next := by
  constructor
  · exact fun all last isLast => all last (mem_of_getLast? isLast)
  · intro ofLast rank member
    obtain ⟨before, last, rfl⟩ : ∃ before last, ranks = before ++ [last] :=
      ⟨_, _, (dropLast_append_getLast (ne_nil_of_mem member)).symm⟩
    have final := ofLast last (by simp)
    rcases mem_append.mp member with earlier | here
    · have lower := (pairwise_append.mp increasing).2.2 rank earlier last (by simp)
      exact Nat.lt_trans lower final
    · rw [mem_singleton.mp here]
      exact final

/-- What is said of the sections of a module. -/
def summary (sections : List WasmSection) : WasmValidationResult where
  sectionCount := sections.length
  hasType := sections.any (·.id = .type)
  hasFunction := sections.any (·.id = .function)
  hasMemory := sections.any (·.id = .memory)
  hasExport := sections.any (·.id = .export)
  hasCode := sections.any (·.id = .code)
  totalPayloadBytes := (sections.map fun sec => sec.payload.length).sum

theorem summary_snoc (done : List WasmSection) (sec : WasmSection) :
    summary (done ++ [sec]) = { (summary done).track sec.id with
      sectionCount := done.length + 1
      totalPayloadBytes := (summary done).totalPayloadBytes + sec.payload.length } := by
  unfold summary
  simp only [any_append, any_cons, any_nil, Bool.or_false, length_append,
    length_singleton, map_append, map_cons, map_nil, sum_append,
    sum_cons, sum_nil, Nat.add_zero]
  cases sec.id <;> simp [track]

end WasmSection

open WasmSection

/-! ### One round -/

theorem sectionHeader_spec {pos : Nat} (inside : pos < bytes.length) :
    (sectionHeader bytes pos).Ensures ()
      (fun header _ => ∃ (sec : WasmSection) (rest : List UInt8),
        bytes.drop pos = sec.toBytes ++ rest ∧ header.1 = sec.id ∧
          header.2.1 = sec.payload.length ∧ header.2.2 + header.2.1 = pos + sec.toBytes.length)
      fun _ _ => ¬∃ (sec : WasmSection) (rest : List UInt8),
        bytes.drop pos = sec.toBytes ++ rest := by
  simp only [sectionHeader, ensures_bind, ensures_orPanic, ensures_orThrow, ensures_throwIf,
    ensures_pure]
  refine ⟨bytes[pos], List.getElem?_eq_getElem inside, ?_⟩
  have shape : bytes.drop pos = bytes[pos] :: bytes.drop (pos + 1) :=
    drop_eq_getElem_cons inside
  constructor
  · intro id known
    have idByte := asU8_of_fromU8 known
    apply (readLeb128U32_spec (pos + 1)).mono
    · rintro _ _ ⟨size, value, rest, ⟨split, encodes, short, small⟩, rfl⟩
      have long := congrArg List.length split
      rw [length_drop, length_append] at long
      constructor
      · rintro beyond ⟨sec, after, same⟩
        rw [shape, WasmSection.toBytes, cons_append, List.cons.injEq, split, append_assoc] at same
        obtain ⟨rfl, lengths, rfl⟩ := encodes.unique sec.sized same.2
        rw [length_append, ← lengths] at long
        omega
      · intro fits
        have room : value ≤ rest.length := by omega
        have taken : (rest.take value).length = value := length_take_of_le room
        refine ⟨⟨id, size, rest.take value, by rwa [taken], short, by rwa [taken]⟩,
          rest.drop value, ?_, rfl, taken.symm, ?_⟩
        · rw [shape, split, idByte, WasmSection.toBytes, cons_append, append_assoc,
            take_append_drop]
        · show pos + 1 + size.length + value = pos + ((size ++ rest.take value).length + 1)
          rw [length_append, taken]
          omega
    · rintro _ _ absent ⟨sec, after, same⟩
      rw [shape, WasmSection.toBytes, cons_append, List.cons.injEq, append_assoc] at same
      exact absent ⟨sec.size, _, _, same.2, sec.sized, sec.short, sec.small⟩
  · rintro unknown ⟨sec, after, same⟩
    rw [shape, WasmSection.toBytes, cons_append, List.cons.injEq] at same
    rw [same.1, fromU8_asU8] at unknown
    cases unknown

/-- The sections that were read, and what the loop keeps of them. -/
structure Follows (checks : Bool) (bytes : List UInt8) (done : List WasmSection)
    (s : FramingState) : Prop where
  small : bytes.length ≤ maxModuleSize
  bytes : wasmMagic ++ wasmVersion ++ tile done ++ bytes.drop s.pos = bytes
  pos : s.pos = 8 + (tile done).length
  ordered : Ordered done
  last : s.lastNonCustomRank = (ranks done).getLast?
  seen : ∀ id : WasmSectionId, id ≠ .custom → s.seenSections.testBit id.asU8.toNat = true →
    id.orderRank ∈ ranks done
  result : s.result = { summary done with sectionCount := done.length % 65536 }
  counted : checks = true → done.length < 65536

variable {done sections : List WasmSection} {s : FramingState}

theorem asU8_inj {first second : WasmSectionId} (same : first.asU8.toNat = second.asU8.toNat) :
    first = second := by
  have bytes := UInt8.toNat_inj.mp same
  have ids : some first = some second := by
    rw [← fromU8_asU8 first, ← fromU8_asU8 second, bytes]
  exact Option.some.inj ids

theorem enforceOrder_spec (follows : Follows checks bytes done s) (sec : WasmSection) :
    (enforceOrder s sec.id).Ensures ()
      (fun next _ => Ordered (done ++ [sec]) ∧ next.pos = s.pos ∧ next.result = s.result ∧
        next.lastNonCustomRank = (ranks (done ++ [sec])).getLast? ∧
        ∀ id : WasmSectionId, id ≠ .custom → next.seenSections.testBit id.asU8.toNat = true →
          id.orderRank ∈ ranks (done ++ [sec]))
      fun _ _ => ¬Ordered (done ++ [sec]) := by
  simp only [enforceOrder, ensures_ite, ensures_bind, ensures_throwIf, ensures_pure]
  rw [ordered_snoc, ranks_snoc]
  constructor
  · intro custom
    rw [if_pos custom]
    exact ⟨⟨follows.ordered, .inl custom⟩, trivial, trivial, follows.last, follows.seen⟩
  · intro named
    rw [if_neg named, follows.last, lt_all_iff_last follows.ordered]
    constructor
    · rintro ⟨last, isLast, tooLow⟩ ⟨_, custom | later⟩
      · exact named custom
      · exact absurd (later last isLast) (Nat.not_lt.mpr tooLow)
    · intro inOrder
      have later : ∀ last ∈ (ranks done).getLast?, last < sec.id.orderRank := fun last isLast =>
        Nat.not_le.mp fun tooLow => inOrder ⟨last, isLast, tooLow⟩
      constructor
      · intro twice
        have before := follows.seen sec.id named (land_bit_ne_zero.mp twice)
        have below := (lt_all_iff_last follows.ordered _).mpr later _ before
        omega
      · intro _
        refine ⟨⟨follows.ordered, .inr later⟩, trivial, trivial, (List.getLast?_concat ..).symm, ?_⟩
        intro id other set
        rw [testBit_lor_bit, Bool.or_eq_true] at set
        rcases set with before | here
        · exact mem_append_left _ (follows.seen id other before)
        · obtain rfl := asU8_inj (beq_iff_eq.mp here)
          exact mem_append_right _ (mem_singleton_self _)

theorem Follows.tile_length (follows : Follows checks bytes done s) :
    8 + (tile done).length + (bytes.drop s.pos).length = bytes.length := by
  have lengths := congrArg List.length follows.bytes
  simp only [length_append] at lengths
  exact lengths

theorem Follows.total (follows : Follows checks bytes done s) {sec : WasmSection}
    {rest : List UInt8} (here : bytes.drop s.pos = sec.toBytes ++ rest) :
    min ((summary done).totalPayloadBytes + sec.payload.length) u32Max =
      (summary done).totalPayloadBytes + sec.payload.length := by
  have before : (summary done).totalPayloadBytes ≤ (tile done).length := payloads_le_tile done
  have whole := follows.tile_length
  have payload : sec.payload.length ≤ (bytes.drop s.pos).length := by
    rw [here, toBytes]
    simp only [length_append, length_cons]
    omega
  have small := follows.small
  unfold maxModuleSize at small
  unfold u32Max
  omega

theorem counted_next {count : Nat} (room : checks = true → count + 1 < 65536) :
    plainAdd checks 65536 (count % 65536) 1 = some ((count + 1) % 65536) := by
  by_cases fits : count % 65536 + 1 < 65536
  · rw [plainAdd_of_lt fits]
    congr 1
    omega
  · rw [plainAdd_of_le (Nat.not_lt.mp fits)]
    cases checks with
    | true =>
      have below := room rfl
      omega
    | false =>
      rw [if_neg Bool.false_ne_true]
      congr 1
      omega

theorem nextSection_spec (follows : Follows checks bytes done s) (inside : s.pos < bytes.length)
    (room : checks = true → ∀ (sec : WasmSection) (rest : List UInt8),
      bytes.drop s.pos = sec.toBytes ++ rest → Ordered (done ++ [sec]) →
        done.length + 1 < 65536) :
    (nextSection checks bytes s).Ensures ()
      (fun next _ => ∃ sec, Follows checks bytes (done ++ [sec]) next ∧
        bytes.drop s.pos = sec.toBytes ++ bytes.drop next.pos)
      fun _ _ => ¬∃ (sec : WasmSection) (rest : List UInt8),
        bytes.drop s.pos = sec.toBytes ++ rest ∧ Ordered (done ++ [sec]) := by
  simp only [nextSection, ensures_bind]
  apply (sectionHeader_spec inside).mono
  · rintro ⟨id, size, payload⟩ _ ⟨sec, rest, here, rfl, rfl, ends⟩
    apply (enforceOrder_spec follows sec).mono
    · rintro middle _ ⟨ordered, pos, result, last, seen⟩
      have counter : middle.result.sectionCount = done.length % 65536 := by
        rw [result, follows.result]
      have fits := fun checked => room checked sec rest here ordered
      simp only [ensures_orPanic, ensures_pure]
      refine ⟨(done.length + 1) % 65536, by rw [counter, counted_next fits], sec, ?_⟩
      have after : bytes.drop (payload + sec.payload.length) = rest := by
        rw [ends, ← drop_drop, here, drop_left]
      refine ⟨⟨follows.small, ?_, ?_, ordered, last, seen, ?_, ?_⟩, ?_⟩
      · have split := follows.bytes
        rw [here] at split
        simp only [after, tile_snoc, append_assoc] at split ⊢
        exact split
      · show payload + sec.payload.length = _
        rw [ends, follows.pos, tile_snoc, length_append, Nat.add_assoc]
      · simp only [result, follows.result]
        rw [summary_snoc, length_append, length_singleton]
        have total := follows.total here
        cases sec.id <;> simp only [track, total]
      · intro checked
        rw [length_append]
        exact fits checked
      · rw [here, after]
    · rintro _ _ disordered ⟨other, after, same, ordered⟩
      obtain ⟨rfl, _⟩ := unique (here.symm.trans same)
      exact disordered ordered
  · rintro _ _ absent ⟨sec, rest, here, _⟩
    exact absent ⟨sec, rest, here⟩

/-! ### All rounds -/

/-- The module that sections make. -/
def Framed (bytes : List UInt8) (sections : List WasmSection) : Prop :=
  bytes = wasmMagic ++ wasmVersion ++ tile sections ∧ Ordered sections

theorem Framed.more (framed : Framed bytes sections) (follows : Follows checks bytes done s) :
    ∃ more, sections = done ++ more ∧ bytes.drop s.pos = tile more := by
  have split := follows.bytes.trans framed.1
  simp only [append_assoc, append_cancel_left_eq] at split
  exact tile_prefix split

theorem validateSections_spec {rounds : Nat} (follows : Follows checks bytes done s)
    (enough : bytes.length < s.pos + rounds)
    (room : checks = true → ∀ (more : List WasmSection) (rest : List UInt8),
      bytes.drop s.pos = tile more ++ rest → Ordered (done ++ more) →
        done.length + more.length < 65536) :
    (validateSections checks bytes rounds s).Ensures ()
      (fun result _ => ∃ sections, Framed bytes sections ∧
        result = { summary sections with sectionCount := sections.length % 65536 })
      fun _ _ => ¬∃ sections, Framed bytes sections := by
  induction rounds generalizing done s with
  | zero =>
    have inside := follows.tile_length
    rw [length_drop, ← follows.pos] at inside
    omega
  | succ rounds ih =>
    simp only [validateSections, ensures_ite, ensures_bind, ensures_pure]
    constructor
    · intro inside
      have fits : checks = true → ∀ (sec : WasmSection) (rest : List UInt8),
          bytes.drop s.pos = sec.toBytes ++ rest → Ordered (done ++ [sec]) →
            done.length + 1 < 65536 := fun checked sec rest here ordered =>
        room checked [sec] rest (by rw [here, tile_cons, tile, flatMap_nil, append_nil])
          ordered
      apply (nextSection_spec follows inside fits).mono
      · rintro next _ ⟨sec, later, here⟩
        have ahead : next.pos = s.pos + sec.toBytes.length := by
          rw [later.pos, follows.pos, tile_snoc, length_append, Nat.add_assoc]
        have long : 0 < sec.toBytes.length := Nat.succ_pos _
        apply ih later (by omega)
        intro checked more rest shape ordered
        rw [append_assoc, singleton_append] at ordered
        have below := room checked (sec :: more) rest
          (by rw [here, shape, tile_cons, append_assoc]) ordered
        rw [length_append]
        rw [length_cons] at below
        exact (Nat.add_right_comm _ _ _).trans_lt below
      · rintro _ _ absent ⟨sections, framed⟩
        obtain ⟨more, rfl, shape⟩ := framed.more follows
        cases more with
        | nil =>
          rw [tile, flatMap_nil, drop_eq_nil_iff] at shape
          exact absurd inside (Nat.not_lt.mpr shape)
        | cons sec more =>
          have ordered := framed.2
          rw [← singleton_append, ← append_assoc] at ordered
          exact absent ⟨sec, _, shape.trans (tile_cons sec more), ordered.of_append⟩
    · intro ended
      have split := follows.bytes
      rw [drop_of_length_le (Nat.not_lt.mp ended), append_nil] at split
      exact ⟨done, ⟨split.symm, follows.ordered⟩, follows.result⟩

theorem validateSections_overflows {rounds : Nat} {more : List WasmSection}
    (follows : Follows true bytes done s) (shape : bytes.drop s.pos = tile more ++ rest)
    (ordered : Ordered (done ++ more)) (many : 65536 ≤ done.length + more.length) :
    ¬(validateSections true bytes rounds s).Ensures () (fun _ _ => True) fun _ _ => True := by
  induction rounds generalizing done s more with
  | zero =>
    simp [validateSections]
  | succ rounds ih =>
    have below := follows.counted rfl
    cases more with
    | nil =>
      exact absurd below (Nat.not_lt.mpr many)
    | cons sec more =>
      rw [tile_cons, append_assoc] at shape
      rw [← singleton_append, ← append_assoc] at ordered
      have inside : s.pos < bytes.length := by
        refine Nat.not_le.mp fun outside => ?_
        rw [drop_of_length_le outside] at shape
        cases shape
      rw [validateSections, if_pos inside]
      simp only [ensures_bind]
      intro terminates
      by_cases room : done.length + 1 < 65536
      · have spec := nextSection_spec follows inside fun _ _ _ _ _ => room
        rcases (spec.both terminates).outcome with
          ⟨next, _, _, ⟨other, later, here⟩, goesOn⟩ | ⟨_, _, _, refused, _⟩
        · obtain ⟨rfl, left⟩ := unique (here.symm.trans shape)
          refine ih later left ?_ ?_ goesOn
          · exact ordered
          · rw [length_append, length_singleton]
            rw [length_cons] at many
            omega
        · exact refused ⟨sec, _, shape, ordered.of_append⟩
      · have full : s.result.sectionCount = 65535 := by
          rw [follows.result]
          show done.length % 65536 = 65535
          omega
        simp only [nextSection, ensures_bind] at terminates
        rcases ((sectionHeader_spec inside).both terminates).outcome with
          ⟨header, _, _, ⟨other, _, here, isSec, _⟩, orders⟩ | ⟨_, _, _, refused, _⟩
        · obtain ⟨rfl, _⟩ := unique (here.symm.trans shape)
          rw [isSec] at orders
          rcases ((enforceOrder_spec follows other).both orders).outcome with
            ⟨middle, _, _, ⟨_, _, result, _⟩, counts⟩ | ⟨_, _, _, refused, _⟩
          · rw [ensures_orPanic, result, full, plainAdd_of_le (by decide)] at counts
            obtain ⟨_, overflow, _⟩ := counts
            cases overflow
          · exact refused ordered.of_append
        · exact refused ⟨sec, _, shape⟩

/-! ### Modules -/

theorem validateModule_of_preamble {body : List UInt8} (small : bytes.length ≤ maxModuleSize)
    (shape : bytes = wasmMagic ++ wasmVersion ++ body) :
    validateModule checks bytes =
      validateSections checks bytes (bytes.length + 1) ⟨8, none, 0, .default⟩ := by
  have long : 8 ≤ bytes.length := by
    rw [shape, length_append]
    exact Nat.le_add_right 8 _
  have magic : sliceAt bytes 0 4 = some wasmMagic := by
    rw [sliceAt_eq (Nat.zero_le 4) (by omega), shape]
    rfl
  have version : sliceAt bytes 4 8 = some wasmVersion := by
    rw [sliceAt_eq (by decide) long, shape]
    rfl
  unfold validateModule
  rw [magic, version]
  unfold throwIf
  rw [if_neg (Nat.not_lt.mpr small), if_neg (Nat.not_lt.mpr long)]
  rfl

theorem validateModule_refuses (foreign : ∀ body, bytes ≠ wasmMagic ++ wasmVersion ++ body) :
    (validateModule checks bytes).Ensures () (fun _ _ => False) fun _ _ => True := by
  simp only [validateModule, ensures_bind, ensures_throwIf, ensures_orPanic]
  refine ⟨fun _ => trivial, fun _ => ⟨fun _ => trivial, fun long => ?_⟩⟩
  have inside : 8 ≤ bytes.length := Nat.not_lt.mp long
  refine ⟨_, sliceAt_eq (Nat.zero_le 4) (by omega), fun _ => trivial, fun magic => ?_⟩
  refine ⟨_, sliceAt_eq (by decide) inside, fun _ => trivial, fun version => ?_⟩
  refine (foreign (bytes.drop 8) ?_).elim
  rw [← not_not.mp magic, ← not_not.mp version, drop_zero]
  have four : bytes.take 4 = (bytes.take 8).take 4 := by
    rw [take_take]
    rfl
  rw [four, take_append_drop, take_append_drop]

theorem Framed.unique {other : List WasmSection} (framed : Framed bytes sections)
    (also : Framed bytes other) : sections = other := by
  have same : tile sections ++ [] = tile other := by
    rw [append_nil]
    exact append_cancel_left (framed.1.symm.trans also.1)
  obtain ⟨more, rfl, rest⟩ := tile_prefix same
  rw [tile_eq_nil rest.symm, append_nil]

/-- Sections at the start of a module that the counter of sections cannot hold. -/
def TooMany (bytes : List UInt8) (sections : List WasmSection) (rest : List UInt8) : Prop :=
  bytes = wasmMagic ++ wasmVersion ++ tile sections ++ rest ∧ Ordered sections ∧
    65536 ≤ sections.length

def Overflows (bytes : List UInt8) : Prop := ∃ sections rest, TooMany bytes sections rest

/-- In one build, the check ends without a panic; it returns for framed modules alone, with
what their sections are, and refuses the others. -/
def ExactIn (checks : Bool) (bytes : List UInt8) : Prop :=
  (validateModule checks bytes).Ensures ()
    (fun result _ => ∃ sections, Framed bytes sections ∧ result = summary sections)
    fun _ _ => ¬∃ sections, Framed bytes sections

/-- Exact in every build: where overflow is checked for, there is none. -/
def FramingExact (bytes : List UInt8) : Prop := ∀ checks, ExactIn checks bytes

theorem follows_preamble {body : List UInt8} (small : bytes.length ≤ maxModuleSize)
    (shape : bytes = wasmMagic ++ wasmVersion ++ body) :
    Follows checks bytes [] ⟨8, none, 0, .default⟩ where
  small := small
  bytes := by
    rw [shape]
    rfl
  pos := rfl
  ordered := List.Pairwise.nil
  last := rfl
  seen _ _ set := by
    rw [Nat.zero_testBit] at set
    cases set
  result := rfl
  counted _ := by decide

/-- A build without overflow checks goes wrong only where the sections are all of the
module. -/
theorem exactIn_iff (small : bytes.length ≤ maxModuleSize) :
    ExactIn checks bytes ↔
      ¬∃ sections rest, TooMany bytes sections rest ∧ (checks = true ∨ rest = []) := by
  have enough : bytes.length < 8 + (bytes.length + 1) := by omega
  constructor
  · rintro exact ⟨sections, rest, ⟨shape, ordered, many⟩, visible⟩
    rw [append_assoc] at shape
    have follows := @follows_preamble bytes checks _ small shape
    have here : bytes.drop 8 = tile sections ++ rest := by
      rw [shape]
      rfl
    unfold ExactIn at exact
    rw [validateModule_of_preamble small shape] at exact
    cases checks with
    | true =>
      have terminates := exact.mono (fun _ _ _ => trivial) fun _ _ _ => trivial
      exact validateSections_overflows follows here ordered (by simpa using many) terminates
    | false =>
      obtain rfl : rest = [] := visible.resolve_left Bool.false_ne_true
      rw [append_nil] at shape
      have spec := validateSections_spec follows enough nofun
      rcases (exact.both spec).outcome with
        ⟨_, _, _, ⟨told, framed, rfl⟩, counted, also, wrapped⟩ | ⟨_, _, _, _, refused⟩
      · obtain rfl := framed.unique also
        obtain rfl := framed.unique ⟨shape, ordered⟩
        have count : told.length = told.length % 65536 :=
          congrArg sectionCount wrapped
        omega
      · exact refused ⟨sections, shape, ordered⟩
  · intro bounded
    unfold ExactIn
    by_cases preambled : ∃ body, bytes = wasmMagic ++ wasmVersion ++ body
    · obtain ⟨body, shape⟩ := preambled
      rw [validateModule_of_preamble small shape]
      have follows := @follows_preamble bytes checks _ small shape
      have here : bytes.drop 8 = body := by
        rw [shape]
        rfl
      have room : checks = true → ∀ (more : List WasmSection) (rest : List UInt8),
          bytes.drop 8 = tile more ++ rest → Ordered more → more.length < 65536 := by
        intro checked more rest same ordered
        refine Nat.not_le.mp fun many => bounded ⟨more, rest, ⟨?_, ordered, many⟩, .inl checked⟩
        rw [append_assoc, ← same, here, shape]
      refine (validateSections_spec follows enough ?_).weaken ?_
      · simpa using room
      · rintro _ _ ⟨sections, framed, rfl⟩
        refine ⟨sections, framed, ?_⟩
        have few : sections.length < 65536 := by
          refine Nat.not_le.mp fun many =>
            bounded ⟨sections, [], ⟨?_, framed.2, many⟩, .inr rfl⟩
          rw [append_nil]
          exact framed.1
        rw [Nat.mod_eq_of_lt few]
        rfl
    · apply (validateModule_refuses fun body shape => preambled ⟨body, shape⟩).mono
      · exact fun _ _ impossible => impossible.elim
      · rintro _ _ _ ⟨sections, shape, _⟩
        exact preambled ⟨_, shape⟩

/-- The check is exact for the modules that do not start with 65536 sections. -/
theorem framingCheckExact (small : bytes.length ≤ maxModuleSize) :
    FramingExact bytes ↔ ¬Overflows bytes := by
  constructor
  · rintro exact ⟨sections, rest, tooMany⟩
    exact (exactIn_iff small).mp (exact true) ⟨sections, rest, tooMany, .inl rfl⟩
  · intro bounded checks
    apply (exactIn_iff small).mpr
    rintro ⟨sections, rest, tooMany, _⟩
    exact bounded ⟨sections, rest, tooMany⟩

def emptyCustom : WasmSection where
  id := .custom
  size := [0]
  payload := []
  sized := .last (by decide)
  short := by decide
  small := by decide

theorem not_overflows (short : bytes.length < 65536) : ¬Overflows bytes := by
  rintro ⟨sections, rest, shape, _, many⟩
  have whole := congrArg List.length shape
  have counts := length_le_tile sections
  simp only [length_append] at whole
  omega

theorem framingCheckExact_oneSection :
    FramingExact (wasmMagic ++ wasmVersion ++ tile [emptyCustom]) :=
  (framingCheckExact (by decide)).mpr (not_overflows (by decide))

def customSections (count : Nat) : List WasmSection := List.replicate count emptyCustom

theorem ordered_customSections (count : Nat) : Ordered (customSections count) := by
  have unranked : ranks (customSections count) = [] := by
    unfold ranks customSections
    rw [filter_replicate_of_neg (by decide)]
    rfl
  unfold Ordered
  rw [unranked]
  exact List.Pairwise.nil

theorem length_tile_customSections (count : Nat) :
    (tile (customSections count)).length = 2 * count := by
  induction count with
  | zero => rfl
  | succ count ih =>
    rw [customSections, replicate_succ, tile_cons, length_append]
    show 2 + (tile (customSections count)).length = _
    omega

def customModule (count : Nat) : List UInt8 :=
  wasmMagic ++ wasmVersion ++ tile (customSections count)

theorem tooMany_customSections {count : Nat} (many : 65536 ≤ count) :
    TooMany (customModule count) (customSections count) [] := by
  refine ⟨(append_nil _).symm, ordered_customSections count, ?_⟩
  rw [customSections, length_replicate]
  exact many

theorem not_framingExact_customModule {count : Nat} (many : 65536 ≤ count)
    (small : (customModule count).length ≤ maxModuleSize) : ¬FramingExact (customModule count) := by
  intro exact
  have checked : ExactIn true (customModule count) := exact true
  exact (exactIn_iff small).mp checked ⟨_, _, tooMany_customSections many, .inl rfl⟩

theorem sectionCountOverflows :
    (customModule 65536).length ≤ maxModuleSize ∧ ¬FramingExact (customModule 65536) := by
  have small : (customModule 65536).length ≤ maxModuleSize := by
    unfold customModule
    rw [List.length_append, length_tile_customSections]
    decide
  exact ⟨small, not_framingExact_customModule (Nat.le_refl 65536) small⟩

end Rvm.Wasm
