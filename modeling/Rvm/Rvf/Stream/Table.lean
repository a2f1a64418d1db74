import Rvm.Rvf.Stream.Descriptor

/-!
Owns what an accepted descriptor guarantees: the header's bounds, the tiling of
the body by the entries, distinct segment ids and the arithmetic of chunks.
-/

namespace Rvm.Rvf

open Foundation Foundation.Call List StreamEntry StreamHeader TableScan

/-! ### Reads -/

section Reads

variable {σ : Type} {b : List UInt8} {o width : Nat} {state : σ}
  {Refused : StreamError → σ → Prop}

theorem ensures_u8At {Returned : UInt8 → σ → Prop} (inside : o < b.length) :
    (u8At b o).Ensures state Returned Refused ↔ Returned b[o] state := by
  simp [u8At, List.getElem?_eq_getElem inside]

variable {Returned : Nat → σ → Prop}

theorem ensures_u16At (inside : o + 2 ≤ b.length) :
    (u16At b o).Ensures state Returned Refused ↔
      Returned (littleEndianValue ((b.drop o).take 2)) state := by
  simp [u16At, littleEndianAt_eq inside]

theorem ensures_u32At (inside : o + 4 ≤ b.length) :
    (u32At b o).Ensures state Returned Refused ↔
      Returned (littleEndianValue ((b.drop o).take 4)) state := by
  simp [u32At, littleEndianAt_eq inside]

theorem ensures_u64At (inside : o + 8 ≤ b.length) :
    (u64At b o).Ensures state Returned Refused ↔
      Returned (littleEndianValue ((b.drop o).take 8)) state := by
  simp [u64At, littleEndianAt_eq inside]

theorem ensures_arrayAt {Returned : Octets width → σ → Prop} (inside : o + width ≤ b.length) :
    (arrayAt b o width).Ensures state Returned Refused ↔
      Returned ⟨(b.drop o).take width, by rw [length_take, length_drop]; omega⟩ state := by
  rw [arrayAt, octetsAt_eq inside, ensures_orPanic]
  exact ⟨fun ⟨_, equal, holds⟩ => Option.some.inj equal ▸ holds, fun holds => ⟨_, rfl, holds⟩⟩

end Reads

namespace StreamHeader

structure Parsed (h : StreamHeader) : Prop where
  chunkLog2 : h.chunkLog2 = chunkLog2Segment ∨
    chunkLog2Min ≤ h.chunkLog2 ∧ h.chunkLog2 ≤ chunkLog2Max
  bodyLen : h.bodyLen < 256 ^ 8
  segCount : h.segCount < 256 ^ 4

theorem chunkedOk_bounds {flags chunkLog2 : Nat} (ok : chunkedOk flags chunkLog2 = true) :
    chunkLog2 = chunkLog2Segment ∨ chunkLog2Min ≤ chunkLog2 ∧ chunkLog2 ≤ chunkLog2Max := by
  unfold chunkedOk at ok
  split at ok
  · exact .inl ‹_›
  · simp only [Bool.and_eq_true, decide_eq_true_eq] at ok
    exact .inr ok.1

theorem parse_spec {σ : Type} (b : List UInt8) (state : σ) :
    (parse b).Ensures state (fun h next => next = state ∧ h.Parsed) fun _ next => next = state := by
  unfold parse
  by_cases short : b.length < headerSize
  · simp [short]
  have long : 144 ≤ b.length := Nat.not_lt.mp short
  simp (disch := omega) only [ensures_bind, ensures_throwIf, ensures_pure, short, ensures_arrayAt,
    ensures_u8At, ensures_u16At, ensures_u32At, ensures_u64At, implies_true, true_and,
    not_false_eq_true, not_or, Bool.not_eq_false]
  intro _ _ _ shape _ _
  exact ⟨chunkedOk_bounds shape.2.2.2.2.2, littleEndianValue_take_lt 8 _,
    littleEndianValue_take_lt 4 _⟩

end StreamHeader

/-! ### Chunks -/

namespace StreamHeader

variable {h : StreamHeader} {storedLen n index : Nat}

def chunkStart (h : StreamHeader) (index : Nat) : Nat :=
  match h.chunkSize with
  | some cs => index * cs
  | none => 0

def covered (h : StreamHeader) (storedLen k : Nat) : Nat :=
  match h.chunkSize with
  | some cs => min (k * cs) storedLen
  | none => if k = 0 then 0 else storedLen

theorem chunkSize_ge {cs : Nat} (parsed : h.Parsed) (sized : h.chunkSize = some cs) :
    4096 ≤ cs := by
  unfold chunkSize at sized
  split at sized
  · cases sized
  · rename_i chunked
    have bounds := parsed.chunkLog2.resolve_left chunked
    have power : 2 ^ 12 ≤ 2 ^ h.chunkLog2 := Nat.pow_le_pow_right (by decide) bounds.1
    rwa [← Option.some.inj sized, Nat.one_shiftLeft]

theorem chunkCount_cases (parsed : h.Parsed) (counted : h.chunkCount storedLen = some n) :
    (n = 1 ∧ ∀ cs, h.chunkSize = some cs → storedLen ≤ cs) ∨
      ∃ cs, h.chunkSize = some cs ∧ 4096 ≤ cs ∧ 1 < n ∧ (n - 1) * cs < storedLen ∧
        storedLen ≤ n * cs := by
  unfold chunkCount at counted
  split at counted
  · rename_i cs sized
    split at counted
    · rename_i long
      simp only at counted
      split at counted
      · have large := chunkSize_ge parsed sized
        obtain rfl := Option.some.inj counted
        have floor := Nat.div_mul_le_self (storedLen + cs - 1) cs
        have ceiling := @Nat.lt_div_mul_add (storedLen + cs - 1) cs (by omega)
        have several : 1 < (storedLen + cs - 1) / cs :=
          (Nat.le_div_iff_mul_le (by omega)).mpr (by omega)
        refine .inr ⟨cs, sized, large, several, ?_, by omega⟩
        rw [Nat.sub_mul]
        omega
      · cases counted
    · rename_i short
      refine .inl ⟨(Option.some.inj counted).symm, fun other same => ?_⟩
      rw [sized] at same
      have : cs = other := Option.some.inj same
      omega
  · rename_i unsized
    exact .inl ⟨(Option.some.inj counted).symm, fun cs same => by simp [unsized] at same⟩

theorem chunkCount_pos (parsed : h.Parsed) (counted : h.chunkCount storedLen = some n) : 0 < n := by
  rcases chunkCount_cases parsed counted with ⟨rfl, _⟩ | ⟨_, _, _, several, _⟩ <;> omega

theorem covered_sized {cs k : Nat} (sized : h.chunkSize = some cs) :
    h.covered storedLen k = min (k * cs) storedLen := by
  rw [covered, sized]

@[simp]
theorem covered_zero : h.covered storedLen 0 = 0 := by
  unfold covered
  split <;> simp

theorem covered_le {k : Nat} : h.covered storedLen k ≤ storedLen := by
  unfold covered
  split
  · exact Nat.min_le_right _ _
  · split <;> omega

theorem covered_all (parsed : h.Parsed) (counted : h.chunkCount storedLen = some n) :
    h.covered storedLen n = storedLen := by
  unfold covered
  rcases chunkCount_cases parsed counted with ⟨rfl, short⟩ | ⟨cs, sized, _, _, _, reach⟩
  · split
    · rename_i cs sized
      rw [one_mul]
      exact Nat.min_eq_right (short cs sized)
    · rfl
  · rw [sized]
    exact Nat.min_eq_right reach

theorem chunkStart_eq (parsed : h.Parsed) (counted : h.chunkCount storedLen = some n)
    (inside : index < n) : h.chunkStart index = h.covered storedLen index := by
  rcases chunkCount_cases parsed counted with ⟨rfl, _⟩ | ⟨cs, sized, _, _, before, _⟩
  · obtain rfl : index = 0 := by omega
    rw [covered_zero, chunkStart]
    split <;> simp
  · rw [covered_sized sized, chunkStart, sized]
    have reached : index * cs ≤ (n - 1) * cs := Nat.mul_le_mul_right cs (by omega)
    exact (Nat.min_eq_left (reached.trans before.le)).symm

theorem chunkLen_eq (parsed : h.Parsed) (counted : h.chunkCount storedLen = some n)
    (inside : index < n) : ∃ length, h.chunkLen storedLen index = some length ∧
      h.covered storedLen index + length = h.covered storedLen (index + 1) := by
  unfold chunkLen
  rw [counted]
  simp only [if_neg (Nat.not_le.mpr inside)]
  rcases chunkCount_cases parsed counted with ⟨rfl, short⟩ | ⟨cs, sized, _, several, before, reach⟩
  · obtain rfl : index = 0 := by omega
    rw [covered_zero, covered_all parsed counted]
    split <;> exact ⟨storedLen, rfl, Nat.zero_add _⟩
  · rw [covered_sized sized, covered_sized sized, sized]
    simp only [if_pos several]
    have here : index * cs ≤ (n - 1) * cs := Nat.mul_le_mul_right cs (by omega)
    split
    · have next : (index + 1) * cs ≤ (n - 1) * cs := Nat.mul_le_mul_right cs (by omega)
      refine ⟨cs, rfl, ?_⟩
      rw [Nat.min_eq_left (by omega), Nat.min_eq_left (by omega), Nat.succ_mul]
    · obtain rfl : index = n - 1 := by omega
      refine ⟨_, rfl, ?_⟩
      rw [Nat.min_eq_left (by omega), Nat.sub_add_cancel (by omega), Nat.min_eq_right reach,
        Nat.mul_comm cs]
      omega

theorem chunkLen_some_lt {length : Nat} (counted : h.chunkCount storedLen = some n)
    (measured : h.chunkLen storedLen index = some length) : index < n := by
  unfold chunkLen at measured
  rw [counted] at measured
  simp only at measured
  split at measured
  · cases measured
  · omega

/-- A first chunk holds the segment header, or the whole of a short segment. -/
theorem first_chunk_long {length : Nat} (parsed : h.Parsed)
    (counted : h.chunkCount storedLen = some n)
    (measured : h.chunkLen storedLen 0 = some length) : min 4096 storedLen ≤ length := by
  obtain ⟨exactLen, measuredAs, step⟩ := chunkLen_eq parsed counted (chunkCount_pos parsed counted)
  obtain rfl : exactLen = length := Option.some.inj (measuredAs.symm.trans measured)
  rw [covered_zero, Nat.zero_add] at step
  rw [step]
  unfold covered
  split
  · rename_i cs sized
    have large := chunkSize_ge parsed sized
    omega
  · simp

end StreamHeader

/-! ### Rows -/

/-- What an accepted row guarantees. -/
structure StreamEntry.Fits (h : StreamHeader) (e : StreamEntry) : Prop where
  stage : e.stage < maxStages
  header : 64 ≤ e.storedLen
  rootPage : e.segType = segTypeRootPage → e.storedLen = rootPageSize
  counted : ∃ n, h.chunkCount e.storedLen = some n

variable {σ : Type} {h : StreamHeader} {policy : StreamPolicy} {state : σ} {row : Nat × List UInt8}

theorem fromBytes_spec {b : List UInt8} (width : b.length = entrySize) :
    (fromBytes b).Ensures state (fun _ next => next = state) fun _ _ => False := by
  have long : 72 ≤ b.length := width.ge
  unfold fromBytes
  simp (disch := omega) only [ensures_bind, ensures_pure, ensures_arrayAt, ensures_u8At,
    ensures_u16At, ensures_u32At, ensures_u64At]

theorem lengths_of_shape {i : Nat} {e : StreamEntry} (shape : rowShapeInvalid h i e = false) :
    64 ≤ e.storedLen ∧ (e.segType = segTypeRootPage → e.storedLen = rootPageSize) := by
  unfold rowShapeInvalid at shape
  split at shape
  · simp only [decide_eq_false_iff_not, not_or, not_not] at shape
    exact ⟨by rw [shape.2.1]; decide, fun _ => shape.2.1⟩
  · simp only [decide_eq_false_iff_not, Nat.not_lt] at shape
    exact ⟨shape, fun root => absurd root ‹_›⟩

/-- A row of the right width does not panic; an accepted one continues the
tiling where the scan stood. -/
theorem scanRow_spec {scan : TableScan} (width : row.2.length = entrySize) :
    (scanRow h policy row).Ensures scan
      (fun _ next => ∃ e : StreamEntry, next.entries = scan.entries ++ [e] ∧
        e.bodyOffset = scan.expectOff ∧ next.expectOff = scan.expectOff + e.storedLen ∧ e.Fits h)
      fun _ _ => True := by
  unfold scanRow
  rw [ensures_bind]
  apply (fromBytes_spec width).mono
  · rintro e _ rfl
    simp only [ensures_bind, ensures_get, ensures_throwIf, ensures_orThrow, ensures_orPanic,
      ensures_set, implies_true, true_and, and_true, not_or, not_not, Bool.not_eq_true,
      Nat.not_le, ge_iff_le]
    rintro ⟨offset, _⟩ _ shape ⟨stage, _⟩ _ _ n counted _ total _ _ expectOff added
    have lengths := lengths_of_shape shape
    refine ⟨e.stage, if_pos stage, e, rfl, offset, ?_, stage, lengths.1, lengths.2, n, counted⟩
    rw [checkedAdd64_eq added, offset]
  · exact fun _ _ impossible => impossible.elim

theorem chunksExact_width {width : Nat} {bytes : List UInt8}
    (member : row ∈ chunksExact width bytes) : row.2.length = width := by
  obtain ⟨i, inside, rfl⟩ := mem_map.mp member
  have fits : (i + 1) * width ≤ bytes.length :=
    (Nat.mul_le_mul_right width (mem_range.mp inside)).trans (Nat.div_mul_le_self _ _)
  rw [Nat.succ_mul] at fits
  rw [length_take, length_drop]
  omega

/-! ### The lookup table -/

instance : Std.Total IndexOrder where
  total left right := by
    unfold IndexOrder
    omega

instance : IsTrans (Nat × Nat) IndexOrder where
  trans left middle right := by
    unfold IndexOrder
    omega

theorem mem_sortedIndex {entries : List StreamEntry} {pair : Nat × Nat}
    (member : pair ∈ sortedIndex entries) :
    ∃ e, entries[pair.2]? = some e ∧ e.segId = pair.1 := by
  have indexed := (mem_insertionSort _).mp member
  obtain ⟨entry, inside, rfl⟩ := mem_map.mp indexed
  exact ⟨entry.1, mem_zipIdx_iff_getElem?.mp inside, rfl⟩

theorem ids_increase {pairs : List (Nat × Nat)} (sorted : pairs.Pairwise IndexOrder)
    (apart : repeatsId pairs = false) : pairs.Pairwise fun left right => left.1 < right.1 := by
  induction pairs with
  | nil => exact .nil
  | cons first rest ih =>
    obtain ⟨below, restSorted⟩ := pairwise_cons.mp sorted
    cases rest with
    | nil => exact pairwise_singleton _ _
    | cons second tail =>
      simp only [repeatsId, Bool.or_eq_false_iff, beq_eq_false_iff_ne] at apart
      have increasing := ih restSorted apart.2
      have ahead : first.1 < second.1 := by
        have order := below second mem_cons_self
        have different := apart.1
        unfold IndexOrder at order
        omega
      refine pairwise_cons.mpr ⟨?_, increasing⟩
      intro pair member
      rcases mem_cons.mp member with rfl | later
      · exact ahead
      · exact ahead.trans ((pairwise_cons.mp increasing).1 pair later)

theorem ids_distinct {entries : List StreamEntry}
    (apart : repeatsId (sortedIndex entries) = false) :
    (entries.map segId).Nodup := by
  have increasing := ids_increase (pairwise_insertionSort IndexOrder _) apart
  have distinct : ((sortedIndex entries).map Prod.fst).Nodup :=
    pairwise_map.mpr (increasing.imp fun below => below.ne)
  have rearranged := (perm_insertionSort IndexOrder
    (entries.zipIdx.map fun entry => (entry.1.segId, entry.2))).map Prod.fst
  have ids := rearranged.nodup_iff.mp distinct
  rwa [map_map, show (Prod.fst ∘ fun entry : StreamEntry × Nat => (entry.1.segId, entry.2)) =
    segId ∘ Prod.fst from rfl, ← map_map, zipIdx_map_fst] at ids

/-! ### The walk -/

def storedTotal (entries : List StreamEntry) : Nat := (entries.map storedLen).sum

@[simp]
theorem storedTotal_append (first second : List StreamEntry) :
    storedTotal (first ++ second) = storedTotal first + storedTotal second := by
  simp [storedTotal]

@[simp]
theorem storedTotal_cons (e : StreamEntry) (rest : List StreamEntry) :
    storedTotal (e :: rest) = e.storedLen + storedTotal rest := by
  simp [storedTotal]

@[simp]
theorem storedTotal_nil : storedTotal [] = 0 := rfl

def Laid (entries : List StreamEntry) : Prop :=
  ∀ before e after, entries = before ++ e :: after → e.bodyOffset = storedTotal before

theorem Laid.snoc {entries : List StreamEntry} {e : StreamEntry} (laid : Laid entries)
    (offset : e.bodyOffset = storedTotal entries) : Laid (entries ++ [e]) := by
  intro before other after split
  rcases eq_nil_or_concat after with rfl | ⟨middle, last, rfl⟩
  · obtain ⟨rfl, same⟩ := append_inj' split rfl
    obtain rfl := singleton_inj.mp same
    exact offset
  · rw [concat_eq_append, ← cons_append, ← append_assoc] at split
    exact laid before other middle (append_inj' split rfl).1

/-- The scan stands at the end of well-formed entries laid end to end. -/
structure Scanned (h : StreamHeader) (rows : List (Nat × List UInt8)) (scan : TableScan) : Prop where
  count : scan.entries.length = rows.length
  laid : Laid scan.entries
  expectOff : scan.expectOff = storedTotal scan.entries
  fits : ∀ e ∈ scan.entries, e.Fits h

theorem scanned_empty (h : StreamHeader) : Scanned h [] empty where
  count := rfl
  laid := by
    intro before e after split
    simp [empty] at split
  expectOff := rfl
  fits := by simp [empty]

theorem Scanned.round {rows : List (Nat × List UInt8)} {scan : TableScan}
    (scanned : Scanned h rows scan) (width : row.2.length = entrySize) :
    (scanRow h policy row).Ensures scan (fun _ next => Scanned h (rows ++ [row]) next)
      fun _ _ => True := by
  apply (scanRow_spec width).mono
  · rintro _ next ⟨e, entriesEq, offset, expectEq, fits⟩
    refine ⟨by simp [entriesEq, scanned.count], ?_, ?_, ?_⟩
    · rw [entriesEq]
      exact scanned.laid.snoc (offset.trans scanned.expectOff)
    · simp [entriesEq, expectEq, scanned.expectOff]
    · intro other member
      rw [entriesEq, mem_append, mem_singleton] at member
      rcases member with earlier | rfl
      · exact scanned.fits other earlier
      · exact fits
  · exact fun _ _ _ => trivial

/-! ### Accepted descriptors -/

/-- What an accepted descriptor guarantees. -/
structure VerifiedDescriptor.Valid (d : VerifiedDescriptor) : Prop where
  header : d.header.Parsed
  count : d.entries.length = d.header.segCount
  laid : Laid d.entries
  total : storedTotal d.entries = d.header.bodyLen
  fits : ∀ e ∈ d.entries, e.Fits d.header
  index : d.index = sortedIndex d.entries
  distinct : (d.entries.map segId).Nodup

theorem VerifiedDescriptor.Valid.inside {d : VerifiedDescriptor} {e : StreamEntry}
    (valid : d.Valid) (entry : e ∈ d.entries) : e.bodyOffset + e.storedLen ≤ d.header.bodyLen := by
  obtain ⟨before, after, split⟩ := append_of_mem entry
  have offset := valid.laid before e after split
  have total := valid.total
  rw [split, storedTotal_append, storedTotal_cons] at total
  omega

theorem VerifiedDescriptor.Valid.unique {d : VerifiedDescriptor} {left right : StreamEntry}
    (valid : d.Valid) (leftIn : left ∈ d.entries) (rightIn : right ∈ d.entries)
    (same : left.segId = right.segId) : left = right :=
  inj_on_of_nodup_map valid.distinct leftIn rightIn same

theorem VerifiedDescriptor.Valid.found {d : VerifiedDescriptor} {segId i : Nat} (valid : d.Valid)
    (found : d.find segId = some i) : ∃ e, d.entries[i]? = some e ∧ e.segId = segId := by
  rw [VerifiedDescriptor.find, valid.index] at found
  obtain ⟨pair, first, rfl⟩ := Option.map_eq_some_iff.mp found
  obtain ⟨e, entry, same⟩ := mem_sortedIndex (mem_of_find?_eq_some first)
  exact ⟨e, entry, same.trans (by simpa using find?_some first)⟩

theorem parseTable_spec {table : List UInt8} (rows : table.length = h.segCount * entrySize)
    (parsed : h.Parsed) :
    (parseTable table h policy).Ensures state
      (fun result next => next = state ∧ ∀ dhash signer,
        VerifiedDescriptor.Valid ⟨h, result.1, result.2, dhash, signer⟩)
      fun _ next => next = state := by
  unfold parseTable
  simp only [ensures_bind, ensures_throwIf, ensures_within, ensures_pure, ensures_get,
    implies_true, true_and]
  intro _ _
  have walk := @ensures_forM StreamError TableScan _ empty (fun _ _ => True)
    (scanRow h policy) (chunksExact entrySize table) (Scanned h) (scanned_empty h)
    (fun visited row rest here split scanned => scanned.round
      (chunksExact_width (by rw [split]; exact mem_append_right _ mem_cons_self)))
  apply walk.mono
  · intro _ scan scanned total apart _ dhash signer
    have rowCount : (chunksExact entrySize table).length = h.segCount := by
      rw [chunksExact, length_map, length_range, rows]
      exact Nat.mul_div_cancel _ (by decide)
    exact
      { header := parsed
        count := scanned.count.trans rowCount
        laid := scanned.laid
        total := scanned.expectOff.symm.trans (not_not.mp total)
        fits := scanned.fits
        index := rfl
        distinct := ids_distinct (Bool.not_eq_true _ ▸ apart) }
  · exact fun _ _ _ => trivial

/-! ### Decoding -/

theorem descriptorLen_eq {segCount length : Nat} (exactly : descriptorLen segCount = some length) :
    length = segCount * 72 + 210 := by
  unfold descriptorLen at exactly
  simp only at exactly
  split at exactly
  · exact (Option.some.inj exactly).symm
  · cases exactly

theorem checkExpiry_spec {replay : ReplayProtection} :
    (checkExpiry h replay).Ensures state (fun _ next => next = state)
      fun _ next => next = state := by
  unfold checkExpiry
  split <;> simp

theorem checkPin_spec {dhash : Octets 32} {pin : Option EpochPin} :
    (checkPin h dhash pin).Ensures state (fun _ next => next = state)
      fun _ next => next = state := by
  cases pin <;> simp [checkPin]

/-- What a decode knows when it comes to the table. -/
structure DescriptorFront where
  header : StreamHeader
  rows : List UInt8
  descriptorHash : Octets 32
  signer : Octets 32

section Decoding

variable {σ : Type} (primitives : Primitives) (bytes : List UInt8) (policy : StreamPolicy)

/-- The checks before the table, in their order. -/
def decodeFront : Call StreamError σ DescriptorFront := do
  throwIf (bytes.length > policy.maxDescriptorBytes) .limitExceeded
  let h ← parse bytes
  throwIf (h.segCount > policy.maxSegments ∨ h.segCount > policy.size.maxSegments) .limitExceeded
  throwIf (descriptorLen h.segCount ≠ some bytes.length) .descriptorTruncated
  let sigLenAt := headerSize + h.segCount * entrySize
  throwIf ((← u16At bytes sigLenAt) ≠ sigLen) .descriptorTruncated
  let found := findSigner primitives bytes h.signerKeyId false policy.trustedKeys
  let signer ← orThrow found.1 (if found.2 then .badSignature else .unknownSigner)
  checkExpiry h policy.replay
  throwIf (policy.expectedPolicyHash.any (· ≠ h.policyHash)) .policyMismatch
  let dhash := primitives.descriptorHash bytes
  checkPin h dhash (policy.replay.pinOf h.signerKeyId h.fileId)
  let rows ← orPanic (sliceAt bytes headerSize sigLenAt)
  return { header := h, rows, descriptorHash := dhash, signer }

def decodeTable (front : DescriptorFront) : Call StreamError σ VerifiedDescriptor := do
  let table ← parseTable front.rows front.header policy
  return { header := front.header, entries := table.1, index := table.2,
           descriptorHash := front.descriptorHash, signer := front.signer }

theorem decodeDescriptor_eq : (decodeDescriptor primitives bytes policy : Call StreamError σ _) =
    decodeFront primitives bytes policy >>= decodeTable policy := by
  simp only [decodeDescriptor, decodeFront, bind_assoc, pure_bind, decodeTable]

/-- What holds of the bytes whose table is read. -/
structure Cleared (front : DescriptorFront) : Prop where
  small : bytes.length ≤ policy.maxDescriptorBytes
  segments : front.header.segCount ≤ policy.maxSegments ∧
    front.header.segCount ≤ policy.size.maxSegments
  length : bytes.length = headerSize + front.header.segCount * entrySize + trailerSize
  marked : littleEndianValue ((bytes.drop (headerSize + front.header.segCount * entrySize)).take 2)
    = sigLen
  rows : front.rows = (bytes.take (headerSize + front.header.segCount * entrySize)).drop headerSize
  trusted : front.signer ∈ policy.trustedKeys
  signed : primitives.verifyDescriptorSignature bytes front.signer = true

variable {primitives bytes policy}

theorem findSigner_trusted {keyId : Octets 8} {keys : List (Octets 32)} {known : Bool}
    {signer : Octets 32} (found : (findSigner primitives bytes keyId known keys).1 = some signer) :
    signer ∈ keys ∧ primitives.verifyDescriptorSignature bytes signer = true := by
  induction keys generalizing known with
  | nil => cases found
  | cons pk rest ih =>
    unfold findSigner at found
    split_ifs at found with _ verified
    · obtain rfl := Option.some.inj found
      exact ⟨mem_cons_self, verified⟩
    all_goals
      obtain ⟨member, signed⟩ := ih found
      exact ⟨mem_cons_of_mem pk member, signed⟩

theorem Cleared.rows_length {front : DescriptorFront}
    (cleared : Cleared primitives bytes policy front) :
    front.rows.length = front.header.segCount * entrySize := by
  have length := cleared.length
  rw [cleared.rows, length_drop, length_take]
  omega

/-- The front reads inside the bytes; `Read` is what reading the header tells. -/
theorem decodeFront_spec {state : σ} {Read : StreamHeader → Prop}
    (read : (parse bytes).Ensures state (fun h next => next = state ∧ Read h)
      fun _ next => next = state) :
    (decodeFront primitives bytes policy).Ensures state
      (fun front next => next = state ∧ Read front.header ∧ Cleared primitives bytes policy front)
      fun _ next => next = state := by
  unfold decodeFront
  simp only [ensures_bind, ensures_throwIf, implies_true, true_and]
  intro small
  apply read.weaken
  rintro h _ ⟨rfl, readable⟩
  refine ⟨fun _ => rfl, fun segments => ⟨fun _ => rfl, fun exactly => ?_⟩⟩
  have length := descriptorLen_eq (not_not.mp exactly)
  have sigInside : headerSize + h.segCount * entrySize + 2 ≤ bytes.length := by
    simp only [headerSize, entrySize]
    omega
  have rows := @sliceAt_eq bytes headerSize (headerSize + h.segCount * entrySize)
    (Nat.le_add_right _ _) (by omega)
  rw [ensures_u16At sigInside]
  refine ⟨fun _ => rfl, fun marked => ?_⟩
  rw [ensures_orThrow]
  refine ⟨fun signer found => checkExpiry_spec.mono ?_ fun _ _ same => same, fun _ => rfl⟩
  rintro _ _ rfl
  refine ⟨fun _ => rfl, fun _ => checkPin_spec.mono ?_ fun _ _ same => same⟩
  rintro _ _ rfl
  rw [ensures_orPanic]
  obtain ⟨trusted, signed⟩ := findSigner_trusted found
  exact ⟨_, rows, rfl, readable, Nat.not_lt.mp small, by simpa using segments, by
    simp only [headerSize, entrySize, trailerSize, sigLen]
    omega, not_not.mp marked, rfl, trusted, signed⟩

end Decoding

theorem decodeDescriptor_cleared (primitives : Primitives) (bytes : List UInt8)
    (policy : StreamPolicy) (state : σ) :
    (decodeDescriptor primitives bytes policy).Ensures state
      (fun d next => next = state ∧ d.Valid ∧
        ∃ rows, Cleared primitives bytes policy ⟨d.header, rows, d.descriptorHash, d.signer⟩)
      fun _ next => next = state := by
  rw [decodeDescriptor_eq, ensures_bind]
  apply (decodeFront_spec (parse_spec bytes state)).weaken
  rintro front _ ⟨rfl, parsed, cleared⟩
  unfold decodeTable
  rw [ensures_bind]
  apply (parseTable_spec cleared.rows_length parsed).weaken
  rintro table _ ⟨rfl, valid⟩
  exact ⟨rfl, valid _ _, front.rows, cleared⟩

theorem decodeDescriptor_spec (primitives : Primitives) (bytes : List UInt8) (policy : StreamPolicy)
    (state : σ) :
    (decodeDescriptor primitives bytes policy).Ensures state
      (fun d next => next = state ∧ d.Valid) fun _ next => next = state :=
  (decodeDescriptor_cleared primitives bytes policy state).weaken
    fun _ _ decoded => ⟨decoded.1, decoded.2.1⟩

/-- The signature at the end of the bytes is the signer's over all that precede it. -/
def SignedBy (primitives : Primitives) (bytes : List UInt8) (signer : Octets 32) : Prop :=
  ∃ signature : Octets 64, signature.toList = bytes.drop (bytes.length - sigLen) ∧
    primitives.verifyStrict signer (signedMessage (bytes.take (bytes.length - sigLen))) signature =
      true

theorem signedBy_of_verify {primitives : Primitives} {bytes : List UInt8} {signer : Octets 32}
    (signed : primitives.verifyDescriptorSignature bytes signer = true) :
    SignedBy primitives bytes signer := by
  unfold Primitives.verifyDescriptorSignature at signed
  split at signed
  · cases signed
  · rename_i signature read
    refine ⟨signature, (octetsAt_toList read).trans (take_of_length_le ?_), signed⟩
    rw [length_drop, sigLen]
    omega

/-- The numbers that a decode computes from a header without a check fit their words. -/
structure StreamHeader.Words (h : StreamHeader) : Prop where
  segCount : h.segCount < 2 ^ 32
  shift : ∀ cs, h.chunkSize = some cs → h.chunkLog2 < 64
  leaves : ∀ storedLen n, h.chunkCount storedLen = some n → n * 32 < 2 ^ 64

theorem StreamHeader.Parsed.words (parsed : h.Parsed) : h.Words where
  segCount := parsed.segCount
  shift cs sized := by
    rcases parsed.chunkLog2 with whole | bounds
    · rw [chunkSize, if_pos whole] at sized
      cases sized
    · exact bounds.2.trans_lt (by decide)
  leaves storedLen n counted := by
    unfold chunkCount at counted
    split at counted
    · dsimp only at counted
      split_ifs at counted with _ fits
      all_goals
        cases counted
        omega
    · cases counted
      decide

/-- A decode of any bytes returns; it walks a table that the policy bounds, and accepts what a
trusted key signed. -/
structure DecodesSafely {σ : Type} (primitives : Primitives) (bytes : List UInt8)
    (policy : StreamPolicy) (state : σ) : Prop where
  returns : ∃ outcome, (decodeDescriptor primitives bytes policy).runFrom state =
    some (outcome, state)
  products : ∀ segCount < 256 ^ 4, headerSize + segCount * entrySize + trailerSize < 2 ^ 64
  frontFirst : (decodeDescriptor primitives bytes policy : Call StreamError σ _) =
    decodeFront primitives bytes policy >>= decodeTable policy
  cleared : ∀ front next,
    (decodeFront primitives bytes policy).runFrom state = some (.ok front, next) →
    Cleared primitives bytes policy front ∧ front.header.Words ∧
      front.rows.length = front.header.segCount * entrySize
  accepted : ∀ d next, (decodeDescriptor primitives bytes policy).runFrom state = some (.ok d, next) →
    bytes.length = headerSize + d.entries.length * entrySize + trailerSize ∧
      d.signer ∈ policy.trustedKeys ∧ SignedBy primitives bytes d.signer

theorem decodeDescriptor_safe {σ : Type} (primitives : Primitives) (bytes : List UInt8)
    (policy : StreamPolicy) (state : σ) : DecodesSafely primitives bytes policy state := by
  have decode := decodeDescriptor_cleared primitives bytes policy state
  constructor
  case returns =>
    rcases decode.outcome with ⟨d, _, ran, rfl, _⟩ | ⟨reason, _, ran, rfl⟩
    · exact ⟨_, ran⟩
    · exact ⟨_, ran⟩
  case products =>
    intro segCount word
    simp only [headerSize, entrySize, trailerSize, sigLen]
    omega
  case frontFirst => exact decodeDescriptor_eq primitives bytes policy
  case cleared =>
    intro front next ran
    have reached := @decodeFront_spec σ primitives bytes policy _ _
      (parse_spec bytes state)
    rw [Ensures, ran] at reached
    exact ⟨reached.2.2, reached.2.1.words, reached.2.2.rows_length⟩
  case accepted =>
    intro d next ran
    rw [Ensures, ran] at decode
    obtain ⟨_, valid, rows, cleared⟩ := decode
    rw [valid.count]
    exact ⟨cleared.length, cleared.trusted, signedBy_of_verify cleared.signed⟩

end Rvm.Rvf
