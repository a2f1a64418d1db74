import Rvm.Foundation.Bytes
import Rvm.Memory.Reconstruction
import Rvm.Witness.Log

/-!
Owns the signers of witness records (`rvm-witness/src/signer.rs`, the bridge of
`rvm-kernel/src/lib.rs`) and the FNV-1a loops they and the other crates hash with. SHA-256,
HMAC-SHA256 and the bridged signer of digests are parameters.
-/

namespace Rvm.Witness

open Foundation

/-- `hash ^= byte`, then a wrapping product with the prime. -/
def fnvStep (hash : Nat) (byte : UInt8) : Nat :=
  (hash ^^^ byte.toNat) * 0x00000100000001b3 % 18446744073709551616

/-- The loop of `rvm-types`: eight bytes at a time, then what remains one by one. -/
def fnv1aUnrolled (hash : Nat) : List UInt8 → Nat
  | b0 :: b1 :: b2 :: b3 :: b4 :: b5 :: b6 :: b7 :: rest =>
    let hash := fnvStep (fnvStep (fnvStep (fnvStep hash b0) b1) b2) b3
    let hash := fnvStep (fnvStep (fnvStep (fnvStep hash b4) b5) b6) b7
    fnv1aUnrolled hash rest
  | remainder => remainder.foldl fnvStep hash

theorem fnv1aUnrolled_eq (hash : Nat) (data : List UInt8) :
    fnv1aUnrolled hash data = data.foldl fnvStep hash := by
  fun_induction fnv1aUnrolled hash data with
  | case1 hash b0 b1 b2 b3 b4 b5 b6 b7 rest first second ih =>
    simpa only [List.foldl_cons, first, second] using ih
  | case2 => rfl

/-- The loop of the signer. -/
def StrictSigner.fnv1a64 (data : List UInt8) : Nat := data.foldl fnvStep 0xcbf29ce484222325

def recordToBytes (record : WitnessRecord) : List UInt8 :=
  littleEndianBytes 8 record.sequence ++ littleEndianBytes 8 record.timestampNs ++
    [UInt8.ofNat record.actionKind, UInt8.ofNat record.proofTier, UInt8.ofNat record.flags, 0] ++
    littleEndianBytes 4 record.actorPartitionId ++ littleEndianBytes 8 record.targetObjectId ++
    littleEndianBytes 4 record.capabilityHash ++ record.payload.toList ++
    littleEndianBytes 4 record.prevHash ++ littleEndianBytes 4 record.recordHash ++
    record.aux.toList ++ List.replicate 4 0

/-- What every signer digests: the fields before `aux` and `pad`. -/
def contentBytes (record : WitnessRecord) : List UInt8 := (recordToBytes record).take 52

theorem contentBytes_aux (record : WitnessRecord) (aux : Vector UInt8 8) :
    contentBytes { record with aux := aux } = contentBytes record := by
  simp only [contentBytes, recordToBytes]
  rw [List.append_assoc _ aux.toList, List.append_assoc _ record.aux.toList]
  refine (List.take_append_of_le_length ?_).trans (List.take_append_of_le_length ?_).symm
  all_goals simp [littleEndianBytes_length]

/-- The signers of a record; the bridge wraps a signer of digests. -/
inductive RecordSigner where
  | null
  | strict
  | hmac (key : Octets 32)
  | adapter (sign : Octets 32 → Octets 64)

/-- `diff |= expected[i] ^ actual[i]` over all bytes, then `diff == 0`. -/
def constantTimeEq (expected actual : Vector UInt8 8) : Bool :=
  (List.finRange 8).foldl (fun diff i => diff ||| (expected[i] ^^^ actual[i])) 0 == 0

theorem constantTimeEq_self (bytes : Vector UInt8 8) : constantTimeEq bytes bytes = true := by
  unfold constantTimeEq
  simp

namespace RecordSigner

variable (sha256 : List UInt8 → Octets 32) (hmacSha256 : Octets 32 → List UInt8 → Octets 32)

/-- The first eight bytes of a tag. -/
def truncated {width : Nat} (tag : Octets width) : Vector UInt8 8 :=
  Vector.ofFn fun i => tag.toList.getD i 0

def sign : RecordSigner → WitnessRecord → Vector UInt8 8
  | null, _ => Vector.replicate 8 0
  | strict, record => littleEndian (StrictSigner.fnv1a64 (contentBytes record))
  | hmac key, record => truncated (hmacSha256 key (contentBytes record))
  | adapter sign, record => truncated (sign (sha256 (contentBytes record)))

def verify (signer : RecordSigner) (record : WitnessRecord) : Bool :=
  match signer with
  | null => true
  | strict => record.aux == strict.sign sha256 hmacSha256 record
  | hmac key => constantTimeEq ((hmac key).sign sha256 hmacSha256 record) record.aux
  | adapter inner => constantTimeEq ((adapter inner).sign sha256 hmacSha256 record) record.aux

theorem sign_aux (signer : RecordSigner) (record : WitnessRecord) (aux : Vector UInt8 8) :
    signer.sign sha256 hmacSha256 { record with aux := aux } =
      signer.sign sha256 hmacSha256 record := by
  cases signer <;> simp only [sign, contentBytes_aux]

theorem verify_signed (signer : RecordSigner) (record : WitnessRecord) :
    signer.verify sha256 hmacSha256
      { record with aux := signer.sign sha256 hmacSha256 record } = true := by
  cases signer with
  | null => rfl
  | strict => simp only [verify, sign_aux, beq_self_eq_true]
  | hmac key | adapter inner => simp only [verify, sign_aux, constantTimeEq_self]

end RecordSigner

/-- The unrolled hash is that of the plain loops, and the record that `signed_append` stores
verifies, because its content is what was signed. -/
theorem hashAndSignaturePathsAgree :
    (∀ data, fnv1aUnrolled 0xcbf29ce484222325 data = StrictSigner.fnv1a64 data ∧
      fnv1aUnrolled 0xcbf29ce484222325 data = Memory.fnv1aHash data ∧
      fnv1aUnrolled 0xcbf29ce484222325 data = fnv1a64 data) ∧
    ∀ (sha256 : List UInt8 → Octets 32) (hmacSha256 : Octets 32 → List UInt8 → Octets 32)
      (signer : RecordSigner) (N : Nat) (hasher : ChainHasher) (log : WitnessLog)
      (record : WitnessRecord),
      let written := (log.signedAppend N hasher record
        (signer.sign sha256 hmacSha256)).2.records log.writePos
      signer.verify sha256 hmacSha256 written = true ∧
        contentBytes written = contentBytes (log.stamp hasher record) := by
  refine ⟨fun data => ?_, fun sha256 hmacSha256 signer N hasher log record => ?_⟩
  · rw [fnv1aUnrolled_eq]
    exact ⟨rfl, rfl, rfl⟩
  · have stored : (log.signedAppend N hasher record
        (signer.sign sha256 hmacSha256)).2.records log.writePos =
        log.signed hasher record (signer.sign sha256 hmacSha256) := Function.update_self ..
    rw [stored]
    exact ⟨signer.verify_signed sha256 hmacSha256 _, contentBytes_aux _ _⟩

end Rvm.Witness
