import Rvm.Foundation.Layout
import Rvm.Rvf.Stream.DescriptorCodec
import Rvm.Rvf.Stream.Frame

/-!
Owns the geometry of chunks (`descriptor.rs` and `chunk.rs` of `rvm-rvf/src/stream`) in
machine words, with and without overflow checks: for an accepted header it is exact, and
chunks lie end to end.
-/

namespace Rvm.Rvf

open Foundation Foundation.Call StreamHeader List

/-! ### In machine words -/

def divCeil64 (checks : Bool) (left right : Nat) : Option Nat :=
  if right = 0 then none
  else if left % right > 0 then plainAdd checks 18446744073709551616 (left / right) 1
  else some (left / right)

theorem divCeil_cases {left right : Nat} (positive : 0 < right) :
    (left + right - 1) / right = if left % right > 0 then left / right + 1 else left / right := by
  have parts := Nat.div_add_mod left right
  have small := Nat.mod_lt left positive
  split
  · apply Nat.div_eq_of_lt_le
    · rw [Nat.succ_mul, Nat.mul_comm]
      omega
    · rw [Nat.succ_mul, Nat.succ_mul, Nat.mul_comm]
      omega
  · apply Nat.div_eq_of_lt_le
    · rw [Nat.mul_comm]
      omega
    · rw [Nat.succ_mul, Nat.mul_comm]
      omega

theorem divCeil64_eq {checks : Bool} {left right : Nat} (positive : 0 < right)
    (word : left < 18446744073709551616) :
    divCeil64 checks left right = some ((left + right - 1) / right) := by
  rw [divCeil64, if_neg (Nat.pos_iff_ne_zero.mp positive), divCeil_cases positive]
  split
  · rename_i partly
    have several : 1 < right := by
      by_contra whole
      obtain rfl : right = 1 := by omega
      rw [Nat.mod_one] at partly
      exact Nat.lt_irrefl 0 partly
    have nonzero : 0 < left := Nat.pos_of_ne_zero fun zero => by
      rw [zero, Nat.zero_mod] at partly
      exact Nat.lt_irrefl 0 partly
    have smaller := Nat.div_lt_self nonzero several
    exact plainAdd_of_lt (by omega)
  · rfl

namespace StreamHeader

variable {h : StreamHeader} {storedLen n index : Nat}

theorem chunkCount_word (counted : h.chunkCount storedLen = some n) : n ≤ 4294967295 := by
  unfold chunkCount at counted
  dsimp only at counted
  split at counted
  · split_ifs at counted with _ fits
    · exact Option.some.inj counted ▸ fits
    · exact Option.some.inj counted ▸ by decide
  · exact Option.some.inj counted ▸ by decide

theorem before_last {cs : Nat} (parsed : h.Parsed) (counted : h.chunkCount storedLen = some n)
    (sized : h.chunkSize = some cs) (several : 1 < n) : cs * (n - 1) < storedLen := by
  rcases chunkCount_cases parsed counted with ⟨single, _⟩ | ⟨size, same, _, _, before, _⟩
  · exact absurd several (single ▸ Nat.lt_irrefl 1)
  · obtain rfl : cs = size := Option.some.inj (sized.symm.trans same)
    rwa [Nat.mul_comm]

namespace InWords

section Definitions

variable (checks : Bool) (h : StreamHeader)

/-- `chunk_size` in words; the outer `Option` is the panic of a build that checks for overflow. -/
def chunkSize : Option (Option Nat) :=
  if h.chunkLog2 = chunkLog2Segment then some none
  else (plainBit checks 64 h.chunkLog2).map some

def chunkCount (storedLen : Nat) : Option (Option Nat) := do
  match ← chunkSize checks h with
  | some cs =>
    if storedLen > cs then
      let n ← divCeil64 checks storedLen cs
      return if n ≤ 4294967295 then some n else none
    else return some 1
  | none => return some 1

def chunkLen (storedLen index : Nat) : Option (Option Nat) := do
  match ← chunkCount checks h storedLen with
  | none => return none
  | some n =>
    if index ≥ n then return none
    else
      match ← chunkSize checks h with
      | some cs =>
        if n > 1 then
          let next ← plainAdd checks 4294967296 index 1
          if next < n then return some cs
          else
            let before ← plainSub checks 18446744073709551616 n 1
            let start ← plainMul checks 18446744073709551616 cs before
            let rest ← plainSub checks 18446744073709551616 storedLen start
            return some rest
        else return some storedLen
      | none => return some storedLen

/-- Where a chunk starts in its segment: `chunk_size().map_or(0, |cs| u64::from(idx) * cs)`. -/
def segmentOffset (index : Nat) : Option Nat := do
  match ← chunkSize checks h with
  | some cs => plainMul checks 18446744073709551616 index cs
  | none => return 0

end Definitions

variable {checks : Bool}

theorem chunkSize_eq (parsed : h.Parsed) : chunkSize checks h = some h.chunkSize := by
  unfold chunkSize StreamHeader.chunkSize
  split
  · rfl
  · rename_i chunked
    have bounds := parsed.chunkLog2.resolve_left chunked
    rw [plainBit_of_lt (bounds.2.trans_lt (by decide))]
    rfl

theorem chunkCount_eq (parsed : h.Parsed) (word : storedLen < 18446744073709551616) :
    chunkCount checks h storedLen = some (h.chunkCount storedLen) := by
  unfold chunkCount StreamHeader.chunkCount
  rw [chunkSize_eq parsed, Option.bind_eq_bind, Option.bind_some]
  cases sized : h.chunkSize with
  | none => rfl
  | some cs =>
    have large := chunkSize_ge parsed sized
    dsimp only
    split
    · rw [divCeil64_eq (by omega) word]
      rfl
    · rfl

theorem chunkLen_eq (parsed : h.Parsed) (word : storedLen < 18446744073709551616) :
    chunkLen checks h storedLen index = some (h.chunkLen storedLen index) := by
  unfold chunkLen StreamHeader.chunkLen
  rw [chunkCount_eq parsed word, chunkSize_eq parsed]
  simp only [Option.bind_eq_bind, Option.bind_some]
  cases counted : h.chunkCount storedLen with
  | none => rfl
  | some n =>
    have count := chunkCount_word counted
    dsimp only
    split
    · rfl
    · rename_i inside
      cases sized : h.chunkSize with
      | none => rfl
      | some cs =>
        dsimp only
        split
        · rename_i several
          have before := before_last parsed counted sized several
          rw [plainAdd_of_lt (by omega), plainSub_of_le (by omega), Option.bind_some,
            Option.bind_some, plainMul_of_lt (by omega), Option.bind_some,
            plainSub_of_le (by omega), Option.bind_some]
          split <;> rfl
        · rfl

end InWords

/-! ### How many, how long, where -/

/-- The chunk size; in the segment-granular profile the whole of the segment. -/
def chunkUnit (h : StreamHeader) (storedLen : Nat) : Nat := h.chunkSize.getD storedLen

theorem covered_eq_filled {k : Nat} :
    h.covered storedLen k = filled (h.chunkUnit storedLen) storedLen k := by
  unfold covered chunkUnit filled
  cases h.chunkSize with
  | some cs => rfl
  | none =>
    dsimp only [Option.getD_none]
    split
    · rename_i first
      rw [first, Nat.zero_mul, Nat.zero_min]
    · exact (Nat.min_eq_right (Nat.le_mul_of_pos_left _ (by omega))).symm

theorem chunkLen_filled (parsed : h.Parsed) (counted : h.chunkCount storedLen = some n)
    (inside : index < n) : ∃ length, h.chunkLen storedLen index = some length ∧
      filled (h.chunkUnit storedLen) storedLen index + length =
        filled (h.chunkUnit storedLen) storedLen (index + 1) := by
  obtain ⟨length, measured, step⟩ := chunkLen_eq parsed counted inside
  rw [covered_eq_filled, covered_eq_filled] at step
  exact ⟨length, measured, step⟩

theorem chunkCount_bounds (parsed : h.Parsed) (counted : h.chunkCount storedLen = some n)
    (positive : 1 ≤ storedLen) :
    (n - 1) * h.chunkUnit storedLen < storedLen ∧ storedLen ≤ n * h.chunkUnit storedLen := by
  rcases chunkCount_cases parsed counted with ⟨rfl, short⟩ | ⟨cs, sized, _, _, before, reach⟩
  · rw [Nat.sub_self, Nat.zero_mul, one_mul, chunkUnit]
    refine ⟨positive, ?_⟩
    cases sized : h.chunkSize with
    | none => exact Nat.le_refl _
    | some cs => exact short cs sized
  · rw [chunkUnit, sized]
    exact ⟨before, reach⟩

theorem chunkUnit_pos (parsed : h.Parsed) (positive : 1 ≤ storedLen) :
    0 < h.chunkUnit storedLen := by
  unfold chunkUnit
  cases sized : h.chunkSize with
  | none => exact positive
  | some cs =>
    have large := chunkSize_ge parsed sized
    exact Nat.lt_of_lt_of_le (by decide) large

theorem chunkLen_beyond (counted : h.chunkCount storedLen = some n) (beyond : n ≤ index) :
    h.chunkLen storedLen index = none := by
  unfold chunkLen
  rw [counted]
  exact if_pos beyond

/-- A chunk of a segment, exactly and in the words of either build. -/
structure ChunkPlace (h : StreamHeader) (storedLen index length : Nat) : Prop where
  measured : h.chunkLen storedLen index = some length
  positive : 1 ≤ length
  short : length ≤ h.chunkUnit storedLen
  offset : ∀ checks, InWords.segmentOffset checks h index = some (index * h.chunkUnit storedLen)
  stop : ∀ checks, plainAdd checks 18446744073709551616 (index * h.chunkUnit storedLen) length =
    some (index * h.chunkUnit storedLen + length)
  inside : index * h.chunkUnit storedLen + length ≤ storedLen

theorem chunkPlace (parsed : h.Parsed) (positive : 1 ≤ storedLen)
    (word : storedLen < 18446744073709551616) (counted : h.chunkCount storedLen = some n)
    (inside : index < n) : ∃ length, h.ChunkPlace storedLen index length := by
  obtain ⟨length, measured, step⟩ := chunkLen_filled parsed counted inside
  obtain ⟨before, _⟩ := chunkCount_bounds parsed counted positive
  have reached : index * h.chunkUnit storedLen ≤ (n - 1) * h.chunkUnit storedLen :=
    Nat.mul_le_mul_right _ (by omega)
  have here : index * h.chunkUnit storedLen < storedLen := Nat.lt_of_le_of_lt reached before
  have grows := filled_lt_succ (chunkUnit_pos parsed positive) here
  have unit := @filled_succ_le (h.chunkUnit storedLen) storedLen index
  have ends := @filled_le (h.chunkUnit storedLen) storedLen (index + 1)
  rw [filled_of_le here.le] at step grows unit
  refine ⟨length, measured, by omega, by omega, fun checks => ?_,
    fun checks => plainAdd_of_lt (by omega), by omega⟩
  unfold InWords.segmentOffset
  rw [InWords.chunkSize_eq parsed, Option.bind_eq_bind, Option.bind_some]
  unfold chunkUnit at here ⊢
  cases sized : h.chunkSize with
  | none =>
    have single : n = 1 := by
      unfold chunkCount at counted
      rw [sized] at counted
      exact (Option.some.inj counted).symm
    obtain rfl : index = 0 := by omega
    rw [Nat.zero_mul]
    rfl
  | some cs =>
    rw [sized] at here
    exact plainMul_of_lt (Nat.lt_trans here word)

/-- The spans of a segment's chunks. -/
def chunkSpans (h : StreamHeader) (storedLen n : Nat) : List Span :=
  spansBetween (filled (h.chunkUnit storedLen) storedLen) n

theorem chunkSpans_endToEnd (parsed : h.Parsed) (counted : h.chunkCount storedLen = some n)
    (positive : 1 ≤ storedLen) : EndToEnd 0 (h.chunkSpans storedLen n) storedLen :=
  pieces_endToEnd (chunkCount_bounds parsed counted positive).2

theorem chunkSpans_size (parsed : h.Parsed) (counted : h.chunkCount storedLen = some n) :
    ((h.chunkSpans storedLen n).map Span.size).map some =
      (List.range n).map (h.chunkLen storedLen) := by
  rw [chunkSpans, spansBetween, map_map, map_map]
  apply map_congr_left
  intro index member
  obtain ⟨length, measured, step⟩ := chunkLen_filled parsed counted (mem_range.mp member)
  rw [measured, Function.comp_apply, Function.comp_apply]
  exact congrArg some (Nat.sub_eq_of_eq_add' step.symm)

/-- No chunk is longer than the first, by which the verifier bounds what it takes. -/
theorem chunkLen_le_first (parsed : h.Parsed) (counted : h.chunkCount storedLen = some n)
    {first length : Nat} (measuredFirst : h.chunkLen storedLen 0 = some first)
    (measured : h.chunkLen storedLen index = some length) : length ≤ first := by
  obtain ⟨exactFirst, sameFirst, stepFirst⟩ :=
    chunkLen_filled parsed counted (chunkCount_pos parsed counted)
  obtain ⟨exactLen, same, step⟩ :=
    chunkLen_filled parsed counted (chunkLen_some_lt counted measured)
  obtain rfl : exactFirst = first := Option.some.inj (sameFirst.symm.trans measuredFirst)
  obtain rfl : exactLen = length := Option.some.inj (same.symm.trans measured)
  have unit := @filled_succ_le (h.chunkUnit storedLen) storedLen index
  have ends := @filled_le (h.chunkUnit storedLen) storedLen (index + 1)
  rw [filled_zero, filled] at stepFirst
  omega

/-- The chunks of a segment of `storedLen` bytes. -/
structure Geometry (h : StreamHeader) (storedLen n : Nat) : Prop where
  count : 1 ≤ n ∧ n ≤ 4294967295
  countInWords : ∀ checks, InWords.chunkCount checks h storedLen = some (some n)
  lengthInWords : ∀ checks index,
    InWords.chunkLen checks h storedLen index = some (h.chunkLen storedLen index)
  placed : ∀ index < n, ∃ length, h.ChunkPlace storedLen index length
  beyond : ∀ index, n ≤ index → h.chunkLen storedLen index = none
  total : ∃ lengths : List Nat, lengths.map some = (List.range n).map (h.chunkLen storedLen) ∧
    lengths.sum = storedLen

theorem Parsed.geometry (parsed : h.Parsed) (positive : 1 ≤ storedLen)
    (inside : storedLen ≤ h.bodyLen) (counted : h.chunkCount storedLen = some n) :
    h.Geometry storedLen n := by
  have word : storedLen < 18446744073709551616 := Nat.lt_of_le_of_lt inside parsed.bodyLen
  have laid := chunkSpans_endToEnd parsed counted positive
  exact
    { count := ⟨chunkCount_pos parsed counted, chunkCount_word counted⟩
      countInWords := fun checks => (InWords.chunkCount_eq parsed word).trans (congrArg some counted)
      lengthInWords := fun checks index => InWords.chunkLen_eq parsed word
      placed := fun index below => chunkPlace parsed positive word counted below
      beyond := fun index after => chunkLen_beyond counted after
      total := ⟨_, chunkSpans_size parsed counted, by simpa using laid.sum_size⟩ }

end StreamHeader

/-! ### Accepted headers -/

theorem chunkGeometry {σ : Type} {b : List UInt8} {state next : σ} {h : StreamHeader}
    {storedLen n : Nat}
    (accepted : (StreamHeader.parse b : Call StreamError σ StreamHeader).runFrom state =
      some (.ok h, next))
    (positive : 1 ≤ storedLen) (inside : storedLen ≤ h.bodyLen)
    (counted : h.chunkCount storedLen = some n) : h.Geometry storedLen n := by
  have parsed := StreamHeader.parse_spec b state
  rw [Call.Ensures, accepted] at parsed
  exact parsed.2.geometry positive inside counted

theorem StreamHeader.WellFormed.accepted {σ : Type} {state : σ} {h : StreamHeader}
    {rest b : List UInt8} (wellFormed : h.WellFormed) (encoded : h.toBytes ++ rest = b) :
    (parse b : Call StreamError σ StreamHeader).runFrom state = some (.ok h, state) := by
  rcases (@StreamHeader.parse_toBytes h σ state rest b wellFormed encoded).outcome with
    ⟨_, _, ran, rfl, rfl⟩ | ⟨_, _, _, refused⟩
  · exact ran
  · exact refused.elim

def chunkedHeader : StreamHeader where
  flags := flagChunked
  chunkLog2 := chunkLog2Min
  fileId := .zero 16
  epoch := 1
  bodyLen := 10000
  rvfIdentity := .zero 32
  policyHash := .zero 32
  segCount := 1
  expiresNs := 0
  signerKeyId := .zero 8

theorem chunkedHeader_wellFormed : chunkedHeader.WellFormed where
  flags := by decide
  chunked := by decide
  table := by decide
  identity _ := rfl
  segCount := by decide
  epoch := by decide
  bodyLen := by decide
  expiresNs := by decide

theorem chunkGeometry_threeChunks :
    (List.range 4).map (chunkedHeader.chunkLen 10000) =
        [some 4096, some 4096, some 1808, none] ∧
      chunkedHeader.Geometry 10000 3 :=
  ⟨by decide, chunkGeometry
    (@StreamHeader.WellFormed.accepted Unit () _ [] _ chunkedHeader_wellFormed rfl)
    (by decide) (by decide) (by decide)⟩

/-! ### The chunks of a stream -/

/-- Where the chunks of an entry lie in the body; `n` as the verifier opens the segment. -/
def StreamEntry.chunkSpans (h : StreamHeader) (e : StreamEntry) : List Span :=
  (h.chunkSpans e.storedLen ((h.chunkCount e.storedLen).getD 1)).map fun span =>
    span.shift e.bodyOffset

theorem StreamEntry.Fits.chunkSpans_endToEnd {h : StreamHeader} {e : StreamEntry}
    (fits : e.Fits h) (parsed : h.Parsed) :
    EndToEnd e.bodyOffset (e.chunkSpans h) (e.bodyOffset + e.storedLen) := by
  obtain ⟨n, counted⟩ := fits.counted
  have header := fits.header
  rw [StreamEntry.chunkSpans, counted]
  exact (StreamHeader.chunkSpans_endToEnd parsed counted (by omega)).shift

namespace VerifiedDescriptor.Valid

variable {d : VerifiedDescriptor} {e : StreamEntry}

theorem endToEnd (valid : d.Valid) {parts : StreamEntry → List Span}
    (parted : ∀ e ∈ d.entries,
      EndToEnd e.bodyOffset (parts e) (e.bodyOffset + e.storedLen)) :
    EndToEnd 0 (d.entries.flatMap parts) d.header.bodyLen := by
  suffices rest : ∀ before after, d.entries = before ++ after →
      EndToEnd (storedTotal before) (after.flatMap parts) (storedTotal d.entries) from
    valid.total ▸ rest [] d.entries rfl
  intro before after split
  induction after generalizing before with
  | nil => rw [split, append_nil]; rfl
  | cons e after ih =>
    have offset := valid.laid before e after split
    have here := parted e (split ▸ mem_append_right _ mem_cons_self)
    have later := ih (before ++ [e]) (by rw [split, append_assoc]; rfl)
    rw [storedTotal_append, storedTotal_cons, storedTotal_nil, Nat.add_zero, ← offset] at later
    rw [← offset, flatMap_cons]
    exact here.append later

end VerifiedDescriptor.Valid

/-! ### The frames that the verifier takes -/

section Limit

variable {primitives : Primitives} {h : StreamHeader} {visited : List StreamEntry}
  {v : StreamVerifier} {e : StreamEntry}

/-- Frames may be as long as the first chunk of each entry opened so far. -/
def TakesFirst (h : StreamHeader) (visited : List StreamEntry) (v : StreamVerifier) : Prop :=
  ∀ e ∈ visited, ∀ first, h.chunkLen e.storedLen 0 = some first → first ≤ v.maxChunkLen

theorem TakesFirst.round (takes : TakesFirst h visited v) (stage : e.stage < maxStages)
    {Refused : StreamError → StreamVerifier → Prop} :
    (openEntry h e).Ensures v (fun _ next => TakesFirst h (visited ++ [e]) next) Refused := by
  have slot : stageSlot e.stage = some e.stage := if_pos stage
  unfold openEntry
  simp only [ensures_bind, ensures_orPanic, ensures_modify, slot, Option.some.injEq,
    exists_eq_left']
  intro other member first measured
  rcases mem_append.mp member with earlier | here
  · exact (takes other earlier first measured).trans (Nat.le_max_left _ _)
  · obtain rfl := mem_singleton.mp here
    rw [StreamVerifier.openSegment, measured]
    exact Nat.le_max_right _ _

/-- No chunk of an accepted descriptor is too long for a frame. -/
theorem install_takesChunks (bytes : List UInt8) :
    (install primitives bytes).Ensures v
      (fun _ next => ∃ d, next.desc = some d ∧ ∀ e ∈ d.entries, ∀ index length,
        d.header.chunkLen e.storedLen index = some length →
          length ≤ next.framePayloadLimit frameChunk)
      fun _ _ => True := by
  unfold install
  simp only [ensures_bind, ensures_get, ensures_attempt]
  apply (decodeDescriptor_spec primitives bytes v.policy v).mono
  · rintro d here ⟨rfl, valid⟩
    simp only [ensures_modify, ensures_pure]
    have walk := @ensures_forM StreamError StreamVerifier _ here (fun _ _ => True)
      (openEntry d.header) d.entries (TakesFirst d.header)
      (fun _ member => (not_mem_nil member).elim)
      fun visited e rest here split takes => takes.round
        (valid.fits e (by rw [split]; exact mem_append_right _ mem_cons_self)).stage
    apply walk.weaken
    intro _ final takes
    refine ⟨d, rfl, fun e entry index length measured => ?_⟩
    obtain ⟨n, counted⟩ := (valid.fits e entry).counted
    obtain ⟨first, measuredFirst, _⟩ := chunkLen_eq valid.header counted
      (chunkCount_pos valid.header counted)
    have bound := takes e entry first measuredFirst
    exact (chunkLen_le_first valid.header counted measuredFirst measured).trans bound
  · exact fun _ _ _ => trivial

end Limit

end Rvm.Rvf
