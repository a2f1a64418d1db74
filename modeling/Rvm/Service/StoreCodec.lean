import Rvm.Context.CanonicalUri
import Rvm.Context.Resolver
import Rvm.Service.Error

/-!
Owns the wire codecs of `rvm-context-service/src/store.rs`: logical keys, alias records and
index jobs. A component of a vector is the bit pattern of its `f32`.
-/

namespace Rvm.Service

open Context Foundation Foundation.Call List PinnedRuvUri RuvUri

def aliasBytes : Nat := 41
def maxJobUriBytes : Nat := 4096
def maxJobDimensions : Nat := 4096

def logicalKey (uri : RuvUri) : List Char :=
  "ruv://".toList ++ uri.authority.text ++ '/' :: uri.tenant.text ++ '/' :: uri.subject.kind.asStr ++
    '/' :: uri.subject.id.text ++ '/' :: uri.collection.asStr ++
    uri.path.flatMap fun segment => '/' :: segment.text

def parsePinned (value : List Char) : Except ServiceError PinnedRuvUri :=
  match fromStr value >>= tryFrom with
  | .ok pinned => .ok pinned
  | .error _ => .error (.corruptState "stored pinned URI is invalid")

def encodeAlias (snapshot : AliasSnapshot) : List UInt8 :=
  snapshot.revision.bytes.toList ++ littleEndianBytes 8 snapshot.generation.value ++
    [if snapshot.tombstone then 1 else 0]

def decodeAlias (aliasUri : RuvUri) (bytes : List UInt8) :
    Call ServiceError Unit AliasSnapshot := do
  throwIf (bytes.length ≠ aliasBytes) (.corruptState "invalid alias record")
  let flag ← orPanic bytes[40]?
  throwIf (flag > 1) (.corruptState "invalid alias record")
  let revision ← orPanic (octetsAt 32 bytes 0)
  let value ← orPanic (littleEndianAt 8 bytes 32)
  let generation ← orThrow (AliasGeneration.new value) (.corruptState "zero alias generation")
  translate (fun _ => .corruptState "invalid alias identity")
    (orRefusal (AliasSnapshot.new aliasUri ⟨revision⟩ generation (decide (flag = 1))))

section Aliases

variable {snapshot : AliasSnapshot} {bytes : List UInt8}

theorem decodeAlias_encode (encoded : encodeAlias snapshot = bytes) :
    (decodeAlias snapshot.aliasUri bytes).Ensures () (fun decoded _ => decoded = snapshot)
      fun _ _ => False := by
  have places := cut_flatten [snapshot.revision.bytes.toList,
    littleEndianBytes 8 snapshot.generation.value, [if snapshot.tombstone then 1 else 0]] []
  have joined : [snapshot.revision.bytes.toList, littleEndianBytes 8 snapshot.generation.value,
      [if snapshot.tombstone then 1 else 0]].flatten ++ [] = encodeAlias snapshot := by
    simp [encodeAlias]
  have long : (encodeAlias snapshot).length = 41 := by
    simp [encodeAlias, littleEndianBytes_length]
  rw [joined] at places
  rw [encoded] at long places
  simp only [map_cons, map_nil, littleEndianBytes_length, List.Vector.toList_length, cut,
    drop_drop, Nat.reduceAdd, length_singleton, List.cons.injEq, and_true] at places
  obtain ⟨revision, generation, tombstone⟩ := places
  have made : AliasSnapshot.new snapshot.aliasUri ⟨snapshot.revision.bytes⟩ snapshot.generation
      snapshot.tombstone = .ok snapshot := dif_pos snapshot.versionless
  have nonzero := snapshot.generation.nonzero
  have bounded := snapshot.generation.bounded
  have generated : AliasGeneration.new snapshot.generation.value = some snapshot.generation :=
    dif_pos ⟨nonzero, bounded⟩
  unfold u64Max at bounded
  have flag := getElem?_of_take tombstone
  have atRevision : octetsAt 32 bytes 0 = some _ := octetsAt_of_take (by omega) revision
  simp only [decodeAlias, ensures_bind, ensures_throwIf, ensures_orPanic, ensures_orThrow,
    ensures_translate, ensures_orRefusal]
  have small : ¬(if snapshot.tombstone then (1 : UInt8) else 0) > 1 := by
    split <;> decide
  have read : decide ((if snapshot.tombstone then (1 : UInt8) else 0) = 1) = snapshot.tombstone := by
    cases snapshot.tombstone <;> rfl
  simp only [long, aliasBytes, ne_eq, not_true_eq_false, false_implies, not_false_eq_true, and_true,
    Option.some.injEq, exists_eq_left', flag, small, atRevision,
    littleEndianAt_of_take (by omega) generation (show _ < 256 ^ 8 by omega), generated, read, made,
    forall_eq', reduceCtorEq, implies_true, Except.ok.injEq]

theorem decodeAlias_spec (aliasUri : RuvUri) (bytes : List UInt8) :
    (decodeAlias aliasUri bytes).Ensures ()
      (fun snapshot _ => snapshot.aliasUri = aliasUri ∧ encodeAlias snapshot = bytes)
      fun _ _ => True := by
  simp only [decodeAlias, ensures_bind, ensures_throwIf, ensures_orPanic, ensures_orThrow,
    ensures_translate, ensures_orRefusal]
  refine ⟨fun _ => trivial, fun long => ?_⟩
  have long : bytes.length = 41 := not_not.mp long
  obtain ⟨revision, atRevision⟩ := @octetsAt_exists 32 0 bytes (by omega)
  obtain ⟨value, atGeneration⟩ := @littleEndianAt_exists bytes 8 32 (by omega)
  have atFlag := List.getElem?_eq_getElem (show 40 < bytes.length by omega)
  generalize bytes[40] = flag at atFlag
  refine ⟨flag, atFlag, fun _ => trivial, fun small => ⟨revision, atRevision, value, atGeneration,
    fun generation generated => ⟨fun snapshot made => ?_, fun _ _ => trivial⟩, fun _ => trivial⟩⟩
  unfold AliasGeneration.new at generated
  split at generated
  · obtain rfl := Option.some.inj generated
    unfold AliasSnapshot.new at made
    split at made
    · obtain rfl := Except.ok.inj made
      refine ⟨rfl, Eq.trans ?_ (@flatten_cut _ [32, 8, 1] bytes long)⟩
      have bit : (if decide (flag = 1) = true then (1 : UInt8) else 0) = flag := by
        have below : flag.toNat ≤ 1 := Nat.not_lt.mp small
        split
        · rename_i one
          exact (of_decide_eq_true one).symm
        · rename_i other
          apply UInt8.toNat_inj.mp
          have zero : flag.toNat ≠ 1 := fun one => other (decide_eq_true (UInt8.toNat_inj.mp one))
          show 0 = flag.toNat
          omega
      simp only [encodeAlias, cut, drop_drop, Nat.reduceAdd, flatten_cons,
        flatten_nil, append_nil, octetsAt_toList atRevision,
        littleEndianBytes_of_read atGeneration, take_of_getElem? atFlag, bit, drop_zero,
        append_assoc]
    · cases made
  · cases generated

end Aliases

def isFinite (bits : UInt32) : Bool := decide (bits.toNat / 2 ^ 23 % 2 ^ 8 ≠ 2 ^ 8 - 1)

def vectorBytes (vector : List UInt32) : List UInt8 :=
  vector.flatMap fun bits => littleEndianBytes 4 bits.toNat

/-- The chunks of exactly four bytes, as bit patterns. -/
def vectorOf : List UInt8 → List UInt32
  | first :: second :: third :: fourth :: rest =>
    UInt32.ofNat (littleEndianValue [first, second, third, fourth]) :: vectorOf rest
  | _ => []

inductive IndexJob where
  | erase
  | upsert (pinned : PinnedRuvUri) (vector : List UInt32)
deriving DecidableEq

namespace IndexJob

def encode : IndexJob → Except ServiceError (List UInt8)
  | .erase => .ok [0]
  | .upsert pinned vector =>
    let uri := utf8 pinned.uri.toText
    if uri.length > maxJobUriBytes ∨ vector.length > maxJobDimensions then
      .error (.corruptState "index job exceeds bounds")
    else
      -- both lengths are `u16` values
      .ok ([1] ++ littleEndianBytes 2 uri.length ++ littleEndianBytes 2 vector.length ++ uri ++
        vectorBytes vector)

def decode (bytes : List UInt8) : Call ServiceError Unit IndexJob := do
  if bytes = [0] then return .erase
  throwIf (bytes.length < 5 ∨ bytes.take 1 ≠ [1]) (.corruptState "invalid index job")
  let uriLen ← orPanic (littleEndianAt 2 bytes 1)
  let dimensions ← orPanic (littleEndianAt 2 bytes 3)
  -- the sum is below 2^19
  throwIf (uriLen = 0 ∨ uriLen > maxJobUriBytes ∨ dimensions = 0 ∨ dimensions > maxJobDimensions ∨
    bytes.length ≠ 5 + uriLen + dimensions * 4) (.corruptState "invalid index job lengths")
  let uriBytes ← orPanic (sliceAt bytes 5 (5 + uriLen))
  let uri ← orThrow (fromUtf8 uriBytes) (.corruptState "index URI is not UTF-8")
  let pinned ← orRefusal (parsePinned uri)
  let rest ← orPanic (sliceAt bytes (5 + uriLen) bytes.length)
  let vector := vectorOf rest
  throwIf (vector.any fun bits => !isFinite bits) (.corruptState "non-finite persisted vector")
  return .upsert pinned vector

end IndexJob

theorem vectorBytes_length (vector : List UInt32) :
    (vectorBytes vector).length = vector.length * 4 := by
  induction vector with
  | nil => rfl
  | cons bits rest ih =>
    have cons : vectorBytes (bits :: rest) = littleEndianBytes 4 bits.toNat ++ vectorBytes rest :=
      rfl
    rw [cons, length_append, littleEndianBytes_length, ih, length_cons]
    omega

theorem vectorOf_bytes (vector : List UInt32) : vectorOf (vectorBytes vector) = vector := by
  induction vector with
  | nil => rfl
  | cons bits rest ih =>
    have cons : vectorBytes (bits :: rest) = littleEndianBytes 4 bits.toNat ++ vectorBytes rest :=
      rfl
    have value := littleEndianValue_bytes_of_lt (show bits.toNat < 256 ^ 4 from bits.toNat_lt)
    have front : vectorOf (littleEndianBytes 4 bits.toNat ++ vectorBytes rest) =
        UInt32.ofNat (littleEndianValue (littleEndianBytes 4 bits.toNat)) ::
          vectorOf (vectorBytes rest) := rfl
    rw [cons, front, value, ih, UInt32.ofNat_toNat]

theorem vectorBytes_of {count : Nat} {bytes : List UInt8} (long : bytes.length = count * 4) :
    vectorBytes (vectorOf bytes) = bytes ∧ (vectorOf bytes).length = count := by
  induction count generalizing bytes with
  | zero =>
    rw [eq_nil_of_length_eq_zero (long.trans (Nat.zero_mul 4))]
    exact ⟨rfl, rfl⟩
  | succ count ih =>
    obtain ⟨first, second, third, fourth, rest, rfl⟩ :
        ∃ first second third fourth rest, bytes = first :: second :: third :: fourth :: rest := by
      match bytes with
      | first :: second :: third :: fourth :: rest => exact ⟨_, _, _, _, _, rfl⟩
      | [] | [_] | [_, _] | [_, _, _] =>
        simp only [length_cons, length_nil] at long
        omega
    simp only [length_cons] at long
    obtain ⟨same, length⟩ := @ih rest (by omega)
    have small : littleEndianValue [first, second, third, fourth] < 256 ^ 4 :=
      littleEndianValue_lt [first, second, third, fourth]
    have again : littleEndianBytes 4 (littleEndianValue [first, second, third, fourth]) = _ :=
      littleEndianBytes_value [first, second, third, fourth]
    constructor
    · have cons : vectorBytes (vectorOf (first :: second :: third :: fourth :: rest)) =
          littleEndianBytes 4 (UInt32.ofNat
            (littleEndianValue [first, second, third, fourth])).toNat ++
            vectorBytes (vectorOf rest) := rfl
      rw [cons, UInt32.toNat_ofNat_of_lt' (show _ < 4294967296 by omega), same, again]
      rfl
    · rw [vectorOf, length_cons, length]

/-- What the constructors of pinned names return. -/
def Constructed (pinned : PinnedRuvUri) : Prop :=
  ∃ uri : RuvUri, uri.Obtainable ∧ tryFrom uri = .ok pinned

theorem tryFrom_eq {uri : RuvUri} {pinned : PinnedRuvUri}
    (made : tryFrom uri = .ok pinned) : pinned.uri = uri := by
  unfold tryFrom at made
  split at made
  · cases made
    rfl
  · cases made

theorem Constructed.text {pinned : PinnedRuvUri} (constructed : Constructed pinned) :
    parsePinned pinned.uri.toText = .ok pinned ∧ (utf8 pinned.uri.toText).length ≤ maxUriBytes := by
  obtain ⟨uri, obtainable, made⟩ := constructed
  have same := tryFrom_eq made
  have bounded := obtainable.bounded
  rw [same]
  constructor
  · have read : fromStr uri.toText >>= tryFrom = .ok pinned :=
      bind_eq_ok.mpr ⟨uri, (canonical_fromStr _ _).mpr ⟨rfl, bounded⟩, made⟩
    rw [parsePinned, read]
  · rw [utf8_length, byteLength_toText]
    exact (validateComplete_eq_ok.mp bounded).2.2

theorem Constructed.text_injective {first second : PinnedRuvUri} (left : Constructed first)
    (right : Constructed second) (same : utf8 first.uri.toText = utf8 second.uri.toText) :
    first = second := by
  have read := left.text.1
  rw [utf8_injective same, right.text.1] at read
  exact (Except.ok.inj read).symm

theorem parsePinned_eq {value : List Char} {pinned : PinnedRuvUri}
    (read : parsePinned value = .ok pinned) :
    pinned.uri.toText = value ∧ Constructed pinned := by
  unfold parsePinned at read
  split at read
  · rename_i found parsed
    obtain rfl := Except.ok.inj read
    obtain ⟨uri, spelled, made⟩ := bind_eq_ok.mp parsed
    rw [tryFrom_eq made]
    refine ⟨((canonical_fromStr _ _).mp spelled).1, uri, ?_, made⟩
    apply RuvUri.Obtainable.parsed
    rw [parse, String.toList_ofList]
    exact spelled
  · cases read

namespace IndexJob

/-- The jobs that are written: a constructed name, and a vector that is neither empty
nor infinite. -/
def Storable : IndexJob → Prop
  | .erase => True
  | .upsert pinned vector =>
    Constructed pinned ∧ vector ≠ [] ∧ ∀ bits ∈ vector, isFinite bits = true

variable {job : IndexJob} {bytes : List UInt8} {pinned : PinnedRuvUri} {vector : List UInt32}

def fields (pinned : PinnedRuvUri) (vector : List UInt32) : List (List UInt8) :=
  [[1], littleEndianBytes 2 (utf8 pinned.uri.toText).length, littleEndianBytes 2 vector.length,
    utf8 pinned.uri.toText, vectorBytes vector]

theorem encode_upsert (constructed : Constructed pinned) :
    (upsert pinned vector).encode = if vector.length > maxJobDimensions then
      .error (.corruptState "index job exceeds bounds") else .ok (fields pinned vector).flatten := by
  have short := constructed.text.2
  unfold maxUriBytes at short
  have few : ¬(utf8 pinned.uri.toText).length > maxJobUriBytes := by
    unfold maxJobUriBytes
    omega
  simp [encode, fields, few]

theorem decode_encode (storable : job.Storable) (encoded : job.encode = .ok bytes) :
    (decode bytes).Ensures () (fun decoded _ => decoded = job) fun _ _ => False := by
  cases job with
  | erase =>
    obtain rfl : [0] = bytes := Except.ok.inj encoded
    exact rfl
  | upsert pinned vector =>
    obtain ⟨constructed, nonempty, finite⟩ := storable
    rw [encode_upsert constructed] at encoded
    split at encoded
    · cases encoded
    · rename_i few
      have flat := Except.ok.inj encoded
      obtain ⟨read, short⟩ := constructed.text
      have places := cut_flatten (fields pinned vector) []
      have long := congrArg List.length flat
      rw [append_nil, flat] at places
      simp only [fields, map_cons, map_nil, littleEndianBytes_length, vectorBytes_length,
        cut, drop_drop, Nat.reduceAdd, length_singleton, List.cons.injEq, and_true]
        at places
      simp only [fields, length_flatten, map_cons, map_nil, sum_cons,
        sum_nil, littleEndianBytes_length, vectorBytes_length, length_singleton] at long
      obtain ⟨version, uriLen, dimensions, uri, rest⟩ := places
      unfold maxUriBytes at short
      unfold maxJobDimensions at few
      have named : (utf8 pinned.uri.toText).length ≠ 0 := by
        intro empty
        have none : pinned.uri.toText = [] :=
          utf8_injective (eq_nil_of_length_eq_zero empty)
        simp [toText, scheme] at none
      have many : vector.length ≠ 0 := fun empty => nonempty (eq_nil_of_length_eq_zero empty)
      have other : bytes ≠ [0] := by
        rintro rfl
        simp at version
      have allFinite : ¬(vector.any fun bits => !isFinite bits) = true := by
        simpa using finite
      have whole : bytes.length = 5 + (utf8 pinned.uri.toText).length + vector.length * 4 := by omega
      have last := sliceAt_of_take (by omega) rest
      rw [← whole] at last
      rw [decode, if_neg other]
      simp only [ensures_bind, ensures_throwIf, ensures_orPanic, ensures_orThrow, ensures_orRefusal,
        ensures_pure]
      have shape : ¬(bytes.length < 5 ∨ bytes.take 1 ≠ [1]) := by
        simp only [version, ne_eq, not_true_eq_false, or_false]
        omega
      have lengths : ¬((utf8 pinned.uri.toText).length = 0 ∨
          (utf8 pinned.uri.toText).length > maxJobUriBytes ∨ vector.length = 0 ∨
          vector.length > maxJobDimensions ∨
          bytes.length ≠ 5 + (utf8 pinned.uri.toText).length + vector.length * 4) := by
        unfold maxJobUriBytes maxJobDimensions
        omega
      simp only [shape, littleEndianAt_of_take (by omega) uriLen (show _ < 65536 by omega),
        littleEndianAt_of_take (by omega) dimensions (show _ < 65536 by omega), lengths,
        sliceAt_of_take (by omega) uri, fromUtf8_eq_some.mpr rfl, read, last, vectorOf_bytes,
        allFinite, false_implies, not_false_eq_true, true_implies, true_and, and_true,
        Option.some.injEq, Except.ok.injEq, exists_eq_left', forall_eq', reduceCtorEq, implies_true]

/-- Decoding never reads out of range; what it accepts was written, and is encoded as it
was. -/
theorem decode_spec (bytes : List UInt8) :
    (decode bytes).Ensures () (fun job _ => job.Storable ∧ job.encode = .ok bytes)
      fun _ _ => True := by
  rw [decode]
  split
  · rename_i erased
    exact ⟨trivial, congrArg Except.ok erased.symm⟩
  · simp only [ensures_bind, ensures_throwIf, ensures_orPanic, ensures_orThrow, ensures_orRefusal,
      ensures_pure]
    refine ⟨fun _ => trivial, fun shape => ?_⟩
    push Not at shape
    obtain ⟨long, version⟩ := shape
    obtain ⟨uriLen, atUriLen⟩ := @littleEndianAt_exists bytes 2 1 (by omega)
    obtain ⟨dimensions, atDimensions⟩ := @littleEndianAt_exists bytes 2 3 (by omega)
    refine ⟨uriLen, atUriLen, dimensions, atDimensions, fun _ => trivial, fun lengths => ?_⟩
    push Not at lengths
    obtain ⟨_, _, many, few, whole⟩ := lengths
    have atUri := @sliceAt_eq bytes 5 (5 + uriLen) (Nat.le_add_right _ _) (by omega)
    have atRest := @sliceAt_eq bytes (5 + uriLen) bytes.length (by omega) (Nat.le_refl _)
    obtain ⟨uriField, uriLong⟩ := sliceAt_field atUri
    obtain ⟨restField, restLong⟩ := sliceAt_field atRest
    rw [Nat.add_sub_cancel_left] at uriField uriLong
    generalize List.drop 5 (List.take (5 + uriLen) bytes) = uriBytes at *
    generalize List.drop (5 + uriLen) (List.take bytes.length bytes) = rest at *
    obtain ⟨same, count⟩ := @vectorBytes_of dimensions rest (by omega)
    refine ⟨uriBytes, atUri, fun uri read => ⟨fun pinned parsed => ⟨rest, atRest, fun _ => trivial,
      fun finite => ?_⟩, fun _ _ => trivial⟩, fun _ => trivial⟩
    obtain ⟨spelled, constructed⟩ := parsePinned_eq parsed
    constructor
    · refine ⟨constructed, ?_, by simpa using finite⟩
      intro empty
      rw [empty] at count
      exact many count.symm
    · rw [encode_upsert constructed, if_neg (by omega)]
      apply congrArg
      refine Eq.trans (congrArg List.flatten ?_)
        (@flatten_cut _ [1, 2, 2, uriLen, dimensions * 4] bytes ?_)
      · simp only [fields, cut, drop_drop, Nat.reduceAdd, List.cons.injEq, and_true, spelled,
          fromUtf8_eq_some.mp read, uriLong, count, same]
        refine ⟨version.symm, littleEndianBytes_of_read atUriLen,
          littleEndianBytes_of_read atDimensions, uriField.symm, ?_⟩
        rw [← restField]
        congr 1
        omega
      · simp only [sum_cons, sum_nil]
        omega

end IndexJob

end Rvm.Service
