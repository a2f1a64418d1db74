import Rvm.Service.Error

/-!
Owns the per-object envelopes of `rvm-context-service/src/crypto.rs`: sealing and opening
an object under a wrapped key, and the wire format. The cipher and the key provider are
parameters; what a seal draws at random is an argument.
-/

namespace Rvm.Service

open Foundation Foundation.Call List

def envelopeMagic : List UInt8 := utf8 "RUE1".toList
def tagBytes : Nat := 16
def maxKeyIdBytes : Nat := 255
def maxWrappedKeyBytes : Nat := 64 * 1024

structure WrappedDataKey where
  keyId : List Char
  ciphertext : List UInt8
  bounded : ¬(keyId = [] ∨ byteLength keyId > maxKeyIdBytes ∨ ciphertext = [] ∨
    ciphertext.length > maxWrappedKeyBytes)
deriving DecidableEq

def WrappedDataKey.new (keyId : List Char) (ciphertext : List UInt8) :
    Except ServiceError WrappedDataKey :=
  if invalid : keyId = [] ∨ byteLength keyId > maxKeyIdBytes ∨ ciphertext = [] ∨
      ciphertext.length > maxWrappedKeyBytes then .error (.cryptography "invalid wrapped data key")
  else .ok ⟨keyId, ciphertext, invalid⟩

theorem WrappedDataKey.new_eq {keyId : List Char} {ciphertext : List UInt8} {key : WrappedDataKey}
    (made : WrappedDataKey.new keyId ciphertext = .ok key) :
    key.keyId = keyId ∧ key.ciphertext = ciphertext := by
  unfold WrappedDataKey.new at made
  split at made
  · cases made
  · cases made
    exact ⟨rfl, rfl⟩

/-- AES-256-GCM by its documentation: a tag of 16 bytes, a limit on what is encrypted,
and decryption that inverts encryption. -/
structure AuthenticatedCipher where
  encrypt : Octets 32 → Octets 12 → List UInt8 → List UInt8 → Option (List UInt8)
  decrypt : Octets 32 → Octets 12 → List UInt8 → List UInt8 → Option (List UInt8)
  encrypt_length : ∀ key nonce aad message ciphertext,
    encrypt key nonce aad message = some ciphertext →
      ciphertext.length = message.length + tagBytes ∧ message.length ≤ 2 ^ 36
  decrypt_encrypt : ∀ key nonce aad message ciphertext,
    encrypt key nonce aad message = some ciphertext →
      decrypt key nonce aad ciphertext = some message

/-- The boundary to a KMS. What a wrap draws at random is an argument. -/
structure DataKeyProvider where
  wrap : List UInt8 → List Char → Octets 32 → Except ServiceError WrappedDataKey
  unwrap : List Char → WrappedDataKey → Except ServiceError (Octets 32)

structure SealDraws where
  dataKey : Option (Octets 32)
  wrapping : List UInt8
  nonce : Option (Octets 12)

structure EncryptedObject where
  wrappedKey : WrappedDataKey
  nonce : Octets 12
  plaintextLen : Nat
  ciphertext : List UInt8
deriving DecidableEq

namespace EncryptedObject

def orFail {α : Type} (value : Option α) (error : ServiceError) : Except ServiceError α :=
  match value with
  | some present => .ok present
  | none => .error error

def sealObject (cipher : AuthenticatedCipher) (provider : DataKeyProvider) (draws : SealDraws)
    (tenant : List Char) (aad plaintext : List UInt8) : Except ServiceError EncryptedObject := do
  let dataKey ← orFail draws.dataKey (.cryptography "operating-system randomness failed")
  let wrappedKey ← provider.wrap draws.wrapping tenant dataKey
  let nonce ← orFail draws.nonce (.cryptography "operating-system randomness failed")
  let ciphertext ← orFail (cipher.encrypt dataKey nonce aad plaintext)
    (.cryptography "object encryption failed")
  return ⟨wrappedKey, nonce, plaintext.length, ciphertext⟩

def openObject (cipher : AuthenticatedCipher) (provider : DataKeyProvider) (tenant : List Char)
    (aad : List UInt8) (object : EncryptedObject) : Except ServiceError (List UInt8) := do
  let dataKey ← provider.unwrap tenant object.wrappedKey
  let plaintext ← orFail (cipher.decrypt dataKey object.nonce aad object.ciphertext)
    (.cryptography "object authentication failed")
  if plaintext.length ≠ object.plaintextLen then .error (.corruptState "plaintext length mismatch")
  else .ok plaintext

def encode (object : EncryptedObject) : Except ServiceError (List UInt8) :=
  let keyId := utf8 object.wrappedKey.keyId
  let wrapped := object.wrappedKey.ciphertext
  if keyId.length ≥ 2 ^ 16 then .error (.corruptState "key identifier is too long")
  else if wrapped.length ≥ 2 ^ 32 then .error (.corruptState "wrapped key is too long")
  else if object.plaintextLen ≥ 2 ^ 64 then .error (.corruptState "object is too large")
  else
    .ok (envelopeMagic ++ [1] ++ littleEndianBytes 2 keyId.length ++
      littleEndianBytes 4 wrapped.length ++ littleEndianBytes 8 object.plaintextLen ++
      object.nonce.toList ++ keyId ++ wrapped ++ object.ciphertext)

def decode (bytes : List UInt8) : Call ServiceError Unit EncryptedObject := do
  throwIf (bytes.length < 31 + tagBytes ∨ bytes.take 4 ≠ envelopeMagic ∨
    (bytes.drop 4).take 1 ≠ [1]) (.corruptState "invalid object envelope")
  let keyIdLen ← orPanic (littleEndianAt 2 bytes 5)
  let wrappedLen ← orPanic (littleEndianAt 4 bytes 7)
  let plaintextLen ← orPanic (littleEndianAt 8 bytes 11)
  throwIf (keyIdLen = 0 ∨ keyIdLen > maxKeyIdBytes ∨ wrappedLen > maxWrappedKeyBytes)
    (.corruptState "invalid envelope lengths")
  let wrappedStart ← orThrow (checkedAdd64 31 keyIdLen) (.corruptState "envelope length overflow")
  let ciphertextStart ← orThrow (checkedAdd64 wrappedStart wrappedLen)
    (.corruptState "envelope length overflow")
  throwIf (ciphertextStart + tagBytes > bytes.length) (.corruptState "truncated object envelope")
  let keyBytes ← orPanic (sliceAt bytes 31 wrappedStart)
  let keyId ← orThrow (fromUtf8 keyBytes) (.corruptState "key identifier is not UTF-8")
  let wrapped ← orPanic (sliceAt bytes wrappedStart ciphertextStart)
  let wrappedKey ← orRefusal (WrappedDataKey.new keyId wrapped)
  let nonce ← orPanic (octetsAt 12 bytes 19)
  let ciphertext ← orPanic (sliceAt bytes ciphertextStart bytes.length)
  return ⟨wrappedKey, nonce, plaintextLen, ciphertext⟩

/-- What `seal` and `decode` produce: the ciphertext has a tag, the length is a `u64`. -/
structure WellFormed (object : EncryptedObject) : Prop where
  tagged : tagBytes ≤ object.ciphertext.length
  plaintextLen : object.plaintextLen < 2 ^ 64

def fields (object : EncryptedObject) : List (List UInt8) :=
  [envelopeMagic, [1], littleEndianBytes 2 (utf8 object.wrappedKey.keyId).length,
    littleEndianBytes 4 object.wrappedKey.ciphertext.length,
    littleEndianBytes 8 object.plaintextLen, object.nonce.toList, utf8 object.wrappedKey.keyId,
    object.wrappedKey.ciphertext, object.ciphertext]

def widths (keyIdLen wrappedLen ciphertextLen : Nat) : List Nat :=
  [4, 1, 2, 4, 8, 12, keyIdLen, wrappedLen, ciphertextLen]

variable {object : EncryptedObject} {bytes : List UInt8}

theorem encode_eq (wellFormed : object.WellFormed) : object.encode = .ok object.fields.flatten := by
  have bounded := object.wrappedKey.bounded
  simp only [not_or, Nat.not_lt, gt_iff_lt] at bounded
  unfold maxKeyIdBytes maxWrappedKeyBytes at bounded
  have fits := wellFormed.plaintextLen
  rw [encode, utf8_length, if_neg (by omega), if_neg (by omega), if_neg (by omega), ← utf8_length]
  simp [fields]

theorem map_length_fields (object : EncryptedObject) : object.fields.map List.length =
    widths (utf8 object.wrappedKey.keyId).length object.wrappedKey.ciphertext.length
      object.ciphertext.length := by
  simp [fields, widths, littleEndianBytes_length, envelopeMagic]
  rfl

theorem decode_encode (wellFormed : object.WellFormed) (encoded : object.encode = .ok bytes) :
    (decode bytes).Ensures () (fun decoded _ => decoded = object) fun _ _ => False := by
  rw [encode_eq wellFormed, Except.ok.injEq] at encoded
  have places := cut_flatten object.fields []
  have long := congrArg List.sum (map_length_fields object)
  rw [← length_flatten, encoded] at long
  rw [append_nil, encoded, map_length_fields] at places
  simp only [widths, fields, cut, drop_drop, Nat.reduceAdd, List.cons.injEq, and_true]
    at places
  simp only [widths, sum_cons, sum_nil, Nat.add_zero] at long
  obtain ⟨magic, version, keyIdLen, wrappedLen, plaintextLen, nonce, keyId, wrapped, ciphertext⟩ :=
    places
  have bounded := object.wrappedKey.bounded
  have tagged := wellFormed.tagged
  have fits := wellFormed.plaintextLen
  rw [← utf8_length] at bounded
  simp only [not_or, Nat.not_lt, gt_iff_lt] at bounded
  obtain ⟨named, nameShort, present, wrappedShort⟩ := bounded
  unfold maxKeyIdBytes at nameShort
  unfold maxWrappedKeyBytes at wrappedShort
  unfold tagBytes at tagged
  have positive : (utf8 object.wrappedKey.keyId).length ≠ 0 := by
    intro empty
    exact named (utf8_injective (eq_nil_of_length_eq_zero empty))
  have whole : bytes.length = 31 + (utf8 object.wrappedKey.keyId).length +
      object.wrappedKey.ciphertext.length + object.ciphertext.length := by omega
  have key : WrappedDataKey.new object.wrappedKey.keyId object.wrappedKey.ciphertext =
      .ok object.wrappedKey := dif_neg object.wrappedKey.bounded
  have last := sliceAt_of_take (by omega) ciphertext
  rw [← whole] at last
  simp only [decode, ensures_bind, ensures_throwIf, ensures_orPanic, ensures_orThrow,
    ensures_orRefusal, ensures_pure]
  have notShort : ¬bytes.length < 31 + tagBytes := by
    unfold tagBytes
    omega
  have room : ¬31 + (utf8 object.wrappedKey.keyId).length + object.wrappedKey.ciphertext.length +
      tagBytes > bytes.length := by
    unfold tagBytes
    omega
  have lengths : ¬((utf8 object.wrappedKey.keyId).length = 0 ∨
      (utf8 object.wrappedKey.keyId).length > maxKeyIdBytes ∨
      object.wrappedKey.ciphertext.length > maxWrappedKeyBytes) := by
    unfold maxKeyIdBytes maxWrappedKeyBytes
    omega
  simp only [notShort, magic, version, ne_eq, not_true_eq_false, or_self, false_implies,
    not_false_eq_true, and_true, Option.some.injEq, Except.ok.injEq, exists_eq_left',
    forall_eq', reduceCtorEq, implies_true,
    littleEndianAt_of_take (by omega) keyIdLen (show _ < 65536 by omega),
    littleEndianAt_of_take (by omega) wrappedLen (show _ < 4294967296 by omega),
    littleEndianAt_of_take (by omega) plaintextLen fits, lengths,
    checkedAdd64_of_le (show 31 + (utf8 object.wrappedKey.keyId).length ≤ u64Max by
      unfold u64Max
      omega),
    checkedAdd64_of_le (show 31 + (utf8 object.wrappedKey.keyId).length +
      object.wrappedKey.ciphertext.length ≤ u64Max by
        unfold u64Max
        omega),
    room, sliceAt_of_take (by omega) keyId, fromUtf8_eq_some.mpr rfl,
    sliceAt_of_take (by omega) wrapped, key, octetsAt_of_take (by omega) nonce, last]

/-- Decoding never reads out of range; what it accepts is an envelope, and is encoded as
it was. -/
theorem decode_spec (bytes : List UInt8) :
    (decode bytes).Ensures ()
      (fun object _ => object.WellFormed ∧ object.encode = .ok bytes) fun _ _ => True := by
  simp only [decode, ensures_bind, ensures_throwIf, ensures_orPanic, ensures_orThrow,
    ensures_orRefusal, ensures_pure]
  refine ⟨fun _ => trivial, fun shape => ?_⟩
  push Not at shape
  obtain ⟨long, magic, version⟩ := shape
  unfold tagBytes at long
  obtain ⟨keyIdLen, atKeyIdLen⟩ := @littleEndianAt_exists bytes 2 5 (by omega)
  obtain ⟨wrappedLen, atWrappedLen⟩ := @littleEndianAt_exists bytes 4 7 (by omega)
  obtain ⟨plaintextLen, atPlaintextLen⟩ := @littleEndianAt_exists bytes 8 11 (by omega)
  obtain ⟨nonce, atNonce⟩ := @octetsAt_exists 12 19 bytes (by omega)
  refine ⟨keyIdLen, atKeyIdLen, wrappedLen, atWrappedLen, plaintextLen, atPlaintextLen,
    fun _ => trivial, fun lengths => ⟨fun wrappedStart first => ⟨fun ciphertextStart second =>
      ⟨fun _ => trivial, fun room => ?_⟩, fun _ => trivial⟩, fun _ => trivial⟩⟩
  obtain rfl := checkedAdd64_eq first
  obtain rfl := checkedAdd64_eq second
  unfold tagBytes at room
  have atKey := @sliceAt_eq bytes 31 (31 + keyIdLen) (Nat.le_add_right _ _) (by omega)
  have atWrapped := @sliceAt_eq bytes (31 + keyIdLen) (31 + keyIdLen + wrappedLen)
    (Nat.le_add_right _ _) (by omega)
  have atCiphertext := @sliceAt_eq bytes (31 + keyIdLen + wrappedLen) bytes.length (by omega)
    (Nat.le_refl _)
  obtain ⟨keyField, keyLong⟩ := sliceAt_field atKey
  obtain ⟨wrappedField, wrappedLong⟩ := sliceAt_field atWrapped
  obtain ⟨ciphertextField, ciphertextLong⟩ := sliceAt_field atCiphertext
  rw [Nat.add_sub_cancel_left] at keyField keyLong wrappedField wrappedLong
  generalize List.drop 31 (List.take (31 + keyIdLen) bytes) = keyBytes at *
  generalize List.drop (31 + keyIdLen) (List.take (31 + keyIdLen + wrappedLen) bytes) = wrapped at *
  generalize List.drop (31 + keyIdLen + wrappedLen) (List.take bytes.length bytes) = ciphertext at *
  refine ⟨keyBytes, atKey, fun keyId read => ⟨wrapped, atWrapped, fun wrappedKey made =>
    ⟨nonce, atNonce, ciphertext, atCiphertext, ?_⟩, fun _ _ => trivial⟩, fun _ => trivial⟩
  have wellFormed : (⟨wrappedKey, nonce, plaintextLen, ciphertext⟩ : EncryptedObject).WellFormed := by
    constructor
    · show 16 ≤ ciphertext.length
      omega
    · exact littleEndianAt_lt atPlaintextLen
  refine ⟨wellFormed, ?_⟩
  obtain ⟨sameKeyId, sameWrapped⟩ := WrappedDataKey.new_eq made
  rw [encode_eq wellFormed]
  apply congrArg
  refine Eq.trans (congrArg List.flatten ?_)
    (@flatten_cut _ (widths keyIdLen wrappedLen ciphertext.length) bytes ?_)
  · simp only [widths, fields, cut, drop_drop, Nat.reduceAdd, List.cons.injEq, and_true]
    rw [sameKeyId, sameWrapped, fromUtf8_eq_some.mp read, keyLong, wrappedLong]
    exact ⟨magic.symm, version.symm, littleEndianBytes_of_read atKeyIdLen,
      littleEndianBytes_of_read atWrappedLen, littleEndianBytes_of_read atPlaintextLen,
      octetsAt_toList atNonce, keyField.symm, wrappedField.symm, ciphertextLong ▸ ciphertextField.symm⟩
  · simp only [widths, sum_cons, sum_nil]
    omega

end EncryptedObject

end Rvm.Service
