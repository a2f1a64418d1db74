import Rvm.Service.Envelope
import Rvm.Service.StoreCodec

/-!
Owns what binds a stored object to its tenant and its pinned name, where the cipher is
ideal, the provider unwraps nothing that it did not wrap, and no data key is drawn twice.
-/

namespace Rvm.Service

open Context Foundation Foundation.Call EncryptedObject List

namespace EncryptedObject

def openBytes (cipher : AuthenticatedCipher) (provider : DataKeyProvider) (tenant : List Char)
    (pinned : PinnedRuvUri) (bytes : List UInt8) : Call ServiceError Unit (List UInt8) := do
  let object ← decode bytes
  orRefusal (object.openObject cipher provider tenant (utf8 pinned.uri.toText))

variable {cipher : AuthenticatedCipher} {provider : DataKeyProvider}

theorem orFail_eq {α : Type} {value : Option α} {error : ServiceError} {result : α}
    (present : orFail value error = .ok result) : value = some result := by
  cases value with
  | none => cases present
  | some found => exact congrArg some (Except.ok.inj present)

structure Sealed (cipher : AuthenticatedCipher) (provider : DataKeyProvider) where
  draws : SealDraws
  tenant : List Char
  pinned : PinnedRuvUri
  constructed : Constructed pinned
  plaintext : List UInt8
  object : EncryptedObject
  made : sealObject cipher provider draws tenant (utf8 pinned.uri.toText) plaintext = .ok object

theorem sealObject_eq {draws : SealDraws} {tenant : List Char} {aad plaintext : List UInt8}
    {object : EncryptedObject}
    (made : sealObject cipher provider draws tenant aad plaintext = .ok object) :
    ∃ dataKey, draws.dataKey = some dataKey ∧
      provider.wrap draws.wrapping tenant dataKey = .ok object.wrappedKey ∧
      cipher.encrypt dataKey object.nonce aad plaintext = some object.ciphertext ∧
      object.plaintextLen = plaintext.length := by
  obtain ⟨dataKey, drawn, made⟩ := bind_eq_ok.mp made
  obtain ⟨wrappedKey, wrapped, made⟩ := bind_eq_ok.mp made
  obtain ⟨nonce, _, made⟩ := bind_eq_ok.mp made
  obtain ⟨ciphertext, encrypted, made⟩ := bind_eq_ok.mp made
  obtain rfl := Except.ok.inj made
  exact ⟨dataKey, orFail_eq drawn, wrapped, orFail_eq encrypted, rfl⟩

theorem Sealed.wellFormed (sealedObject : Sealed cipher provider) :
    sealedObject.object.WellFormed := by
  obtain ⟨dataKey, _, _, encrypted, long⟩ := sealObject_eq sealedObject.made
  obtain ⟨tagged, short⟩ := cipher.encrypt_length _ _ _ _ _ encrypted
  exact ⟨by omega, by omega⟩

theorem openObject_eq {object : EncryptedObject} {tenant : List Char} {aad plaintext : List UInt8}
    (opened : object.openObject cipher provider tenant aad = .ok plaintext) :
    ∃ dataKey, provider.unwrap tenant object.wrappedKey = .ok dataKey ∧
      cipher.decrypt dataKey object.nonce aad object.ciphertext = some plaintext ∧
      plaintext.length = object.plaintextLen := by
  obtain ⟨dataKey, unwrapped, opened⟩ := bind_eq_ok.mp opened
  obtain ⟨found, decrypted, opened⟩ := bind_eq_ok.mp opened
  split at opened
  · cases opened
  · rename_i same
    obtain rfl := Except.ok.inj opened
    exact ⟨dataKey, unwrapped, orFail_eq decrypted, not_not.mp same⟩

/-- After some seals: only their ciphertexts decrypt, only their keys are unwrapped and
only for their tenants, and no data key was drawn twice. -/
structure Ideal (history : List (Sealed cipher provider)) : Prop where
  authentic : ∀ dataKey nonce aad ciphertext plaintext,
    cipher.decrypt dataKey nonce aad ciphertext = some plaintext →
    ∃ made ∈ history, made.draws.dataKey = some dataKey ∧ made.object.nonce = nonce ∧
      utf8 made.pinned.uri.toText = aad ∧ made.object.ciphertext = ciphertext
  unwraps : ∀ made ∈ history, ∀ dataKey, made.draws.dataKey = some dataKey →
    provider.unwrap made.tenant made.object.wrappedKey = .ok dataKey
  wrapped : ∀ tenant wrappedKey dataKey, provider.unwrap tenant wrappedKey = .ok dataKey →
    ∃ made ∈ history, made.tenant = tenant ∧ made.object.wrappedKey = wrappedKey
  tenants : ∀ first ∈ history, ∀ second ∈ history,
    first.object.wrappedKey = second.object.wrappedKey → first.tenant = second.tenant
  fresh : ∀ first ∈ history, ∀ second ∈ history,
    first.draws.dataKey = second.draws.dataKey → first = second

variable {history : List (Sealed cipher provider)} {made : Sealed cipher provider}
  {tenant : List Char} {pinned : PinnedRuvUri} {bytes : List UInt8}

theorem Ideal.opened (ideal : Ideal history) {object : EncryptedObject} {aad plaintext : List UInt8}
    (opened : object.openObject cipher provider tenant aad = .ok plaintext) :
    ∃ made ∈ history, made.tenant = tenant ∧ utf8 made.pinned.uri.toText = aad ∧
      made.object = object ∧ made.plaintext = plaintext := by
  obtain ⟨dataKey, unwrapped, decrypted, long⟩ := openObject_eq opened
  obtain ⟨owner, owned, sameTenant, sameKey⟩ := ideal.wrapped _ _ _ unwrapped
  obtain ⟨made, member, drawn, nonce, named, ciphertext⟩ := ideal.authentic _ _ _ _ _ decrypted
  obtain ⟨ownKey, ownDrawn, _, _, _⟩ := sealObject_eq owner.made
  have same : ownKey = dataKey := by
    have again := ideal.unwraps owner owned ownKey ownDrawn
    rw [sameTenant, sameKey, unwrapped] at again
    exact (Except.ok.inj again).symm
  obtain rfl := ideal.fresh owner owned made member (by rw [ownDrawn, drawn, same])
  obtain ⟨madeKey, madeDrawn, _, encrypted, madeLong⟩ := sealObject_eq owner.made
  have sealedText : owner.plaintext = plaintext := by
    rw [drawn] at madeDrawn
    have inverse := cipher.decrypt_encrypt _ _ _ _ _ encrypted
    rw [← Option.some.inj madeDrawn, nonce, named, ciphertext, decrypted] at inverse
    exact (Option.some.inj inverse).symm
  refine ⟨owner, member, sameTenant, named, ?_, sealedText⟩
  rw [← sealedText, ← madeLong] at long
  obtain ⟨wrappedKey, nonce, plaintextLen, ciphertext⟩ := object
  dsimp only at *
  subst sameKey nonce long ciphertext
  rfl

theorem Ideal.openBytes_spec (ideal : Ideal history) (constructed : Constructed pinned) :
    (openBytes cipher provider tenant pinned bytes).Ensures ()
      (fun plaintext _ => ∃ made ∈ history, made.tenant = tenant ∧ made.pinned = pinned ∧
        made.object.encode = .ok bytes ∧ made.plaintext = plaintext)
      fun _ _ => True := by
  rw [openBytes, ensures_bind]
  apply (decode_spec bytes).mono
  · rintro object _ ⟨_, encoded⟩
    rw [ensures_orRefusal]
    refine ⟨fun plaintext opened => ?_, fun _ _ => trivial⟩
    obtain ⟨made, member, sameTenant, named, rfl, rfl⟩ := ideal.opened opened
    exact ⟨made, member, sameTenant, made.constructed.text_injective constructed named, encoded, rfl⟩
  · exact fun _ _ _ => trivial

theorem Ideal.openBytes_own (ideal : Ideal history) (member : made ∈ history)
    (encoded : made.object.encode = .ok bytes) :
    (openBytes cipher provider made.tenant made.pinned bytes).Ensures ()
      (fun plaintext _ => plaintext = made.plaintext) fun _ _ => False := by
  rw [openBytes, ensures_bind]
  apply (decode_encode made.wellFormed encoded).weaken
  rintro object _ rfl
  obtain ⟨dataKey, drawn, _, encrypted, long⟩ := sealObject_eq made.made
  have unwrapped := ideal.unwraps made member dataKey drawn
  have decrypted := cipher.decrypt_encrypt _ _ _ _ _ encrypted
  have opened : made.object.openObject cipher provider made.tenant
      (utf8 made.pinned.uri.toText) = .ok made.plaintext := by
    refine bind_eq_ok.mpr ⟨dataKey, unwrapped, bind_eq_ok.mpr ⟨made.plaintext, ?_, ?_⟩⟩
    · rw [decrypted]
      rfl
    · rw [if_neg (not_not.mpr long.symm)]
  rw [opened]
  exact ensures_pure.mpr rfl

theorem Ideal.encode_injective (ideal : Ideal history) {other : Sealed cipher provider}
    (member : made ∈ history) (otherMember : other ∈ history)
    (encoded : made.object.encode = .ok bytes) (same : other.object.encode = .ok bytes) :
    other = made := by
  have left := decode_encode made.wellFormed encoded
  have right := decode_encode other.wellFormed same
  have objects : other.object = made.object := by
    rcases left.outcome with ⟨object, _, ran, decoded⟩ | ⟨_, _, _, impossible⟩
    · rw [Ensures, ran] at right
      exact right.symm.trans decoded
    · exact impossible.elim
  have tenants := ideal.tenants other otherMember made member (by rw [objects])
  obtain ⟨dataKey, drawn, _⟩ := sealObject_eq made.made
  obtain ⟨otherKey, otherDrawn, _⟩ := sealObject_eq other.made
  have unwrapped := ideal.unwraps other otherMember otherKey otherDrawn
  rw [tenants, objects, ideal.unwraps made member dataKey drawn] at unwrapped
  exact ideal.fresh other otherMember made member (by rw [drawn, otherDrawn, Except.ok.inj unwrapped])

end EncryptedObject

open EncryptedObject in
/-- The formats are inverse to their decoders, and an envelope opens for its tenant and name
alone. -/
theorem storedObjects (cipher : AuthenticatedCipher) (provider : DataKeyProvider)
    (history : List (Sealed cipher provider)) (ideal : Ideal history) :
    (∀ object : EncryptedObject, object.WellFormed → ∃ bytes, object.encode = .ok bytes ∧
      (decode bytes).Ensures () (fun decoded _ => decoded = object)
        fun _ _ => False) ∧
    (∀ bytes, (decode bytes).Ensures ()
      (fun object _ => object.WellFormed ∧ object.encode = .ok bytes) fun _ _ => True) ∧
    (∀ made ∈ history, ∃ bytes, made.object.encode = .ok bytes ∧
      (openBytes cipher provider made.tenant made.pinned bytes).Ensures ()
        (fun plaintext _ => plaintext = made.plaintext) (fun _ _ => False) ∧
      ∀ tenant pinned, Constructed pinned → (tenant, pinned) ≠ (made.tenant, made.pinned) →
        (openBytes cipher provider tenant pinned bytes).Ensures () (fun _ _ => False)
          fun _ _ => True) ∧
    (∀ tenant pinned bytes, Constructed pinned →
      (openBytes cipher provider tenant pinned bytes).Ensures ()
        (fun plaintext _ => ∃ made ∈ history, made.tenant = tenant ∧ made.pinned = pinned ∧
          made.object.encode = .ok bytes ∧ made.plaintext = plaintext)
        fun _ _ => True) ∧
    (∀ snapshot : AliasSnapshot,
      (decodeAlias snapshot.aliasUri (encodeAlias snapshot)).Ensures ()
        (fun decoded _ => decoded = snapshot) fun _ _ => False) ∧
    (∀ aliasUri bytes, (decodeAlias aliasUri bytes).Ensures ()
      (fun snapshot _ => snapshot.aliasUri = aliasUri ∧ encodeAlias snapshot = bytes)
      fun _ _ => True) ∧
    (∀ job : IndexJob, job.Storable → ∀ bytes, job.encode = .ok bytes →
      (IndexJob.decode bytes).Ensures () (fun decoded _ => decoded = job) fun _ _ => False) ∧
    ∀ bytes, (IndexJob.decode bytes).Ensures ()
      (fun job _ => job.Storable ∧ job.encode = .ok bytes) fun _ _ => True := by
  refine ⟨fun object wellFormed => ⟨_, encode_eq wellFormed, ?_⟩, decode_spec, ?_,
    fun _ _ _ constructed => ideal.openBytes_spec constructed,
    fun snapshot => decodeAlias_encode rfl, decodeAlias_spec,
    fun _ storable _ encoded => IndexJob.decode_encode storable encoded, IndexJob.decode_spec⟩
  · exact decode_encode wellFormed (encode_eq wellFormed)
  · intro made member
    have encoded := encode_eq made.wellFormed
    refine ⟨_, encoded, ideal.openBytes_own member encoded, ?_⟩
    intro tenant pinned constructed other
    apply (ideal.openBytes_spec constructed).mono
    · rintro _ _ ⟨second, secondMember, rfl, rfl, same, _⟩
      obtain rfl := ideal.encode_injective member secondMember encoded same
      exact other rfl
    · exact fun _ _ _ => trivial

section Replay

/-- Two names of the tenant `t`. -/
def replayPinned (path : List PathSegment) : PinnedRuvUri :=
  ⟨⟨sampleHost, sampleTenant, sampleSubject, .memory, path, some ⟨.zero 32⟩, none⟩, ⟨.zero 32⟩⟩

theorem replayPinned_constructed {path : List PathSegment} (known : path ∈ [[], [sampleSegment]]) :
    Constructed (replayPinned path) := by
  refine ⟨(replayPinned path).uri, ?_, rfl⟩
  apply RuvUri.Obtainable.parsed
  apply (RuvUri.canonical_parse _ _).mpr ⟨rfl, ?_⟩
  unfold RuvUri.Bounded
  revert path
  decide

def replayKey (n : UInt8) : Octets 32 := List.Vector.replicate 32 n

/-- What was encrypted, and under which keys: one object twice, and another one. -/
def replayAsked : List (Octets 32 × List UInt8 × List UInt8) :=
  [(replayKey 0, utf8 (replayPinned []).uri.toText, [7]),
    (replayKey 1, utf8 (replayPinned []).uri.toText, [7]),
    (replayKey 2, utf8 (replayPinned [sampleSegment]).uri.toText, [8, 9])]

def replayTag : List UInt8 := List.replicate 16 0

def replayCipher : AuthenticatedCipher where
  encrypt dataKey nonce aad message :=
    if nonce = .zero 12 ∧ (dataKey, aad, message) ∈ replayAsked then some (message ++ replayTag)
    else none
  decrypt dataKey nonce aad ciphertext :=
    let message := ciphertext.take (ciphertext.length - 16)
    if (nonce = .zero 12 ∧ (dataKey, aad, message) ∈ replayAsked) ∧
      ciphertext = message ++ replayTag then some message else none
  encrypt_length dataKey nonce aad message ciphertext encrypted := by
    split at encrypted
    · rename_i asked
      obtain rfl := Option.some.inj encrypted
      have short : ∀ entry ∈ replayAsked, entry.2.2.length ≤ 2 ^ 36 := by decide
      exact ⟨length_append, short _ asked.2⟩
    · cases encrypted
  decrypt_encrypt dataKey nonce aad message ciphertext encrypted := by
    split at encrypted
    · rename_i asked
      obtain rfl := Option.some.inj encrypted
      have front : (message ++ replayTag).take ((message ++ replayTag).length - 16) = message := by
        simp [replayTag]
      rw [front, if_pos ⟨asked, rfl⟩]
    · cases encrypted

def replayWrapped (n : UInt8) : WrappedDataKey :=
  ⟨['k'], [n], by
    simp only [cons_ne_nil, length_singleton, false_or]
    decide⟩

def replayProvider : DataKeyProvider where
  wrap _ _ dataKey := .ok (replayWrapped dataKey.head)
  unwrap tenant wrapped :=
    match [0, 1, 2].find? fun n => tenant = ['t'] ∧ wrapped = replayWrapped n with
    | some n => .ok (replayKey n)
    | none => .error (.cryptography "data key unwrap failed")

open EncryptedObject in
def replayed (n : UInt8) (path : List PathSegment) (plaintext : List UInt8)
    (known : path ∈ [[], [sampleSegment]])
    (asked : (replayKey n, utf8 (replayPinned path).uri.toText, plaintext) ∈ replayAsked) :
    Sealed replayCipher replayProvider where
  draws := ⟨some (replayKey n), [], some (.zero 12)⟩
  tenant := ['t']
  pinned := replayPinned path
  constructed := replayPinned_constructed known
  plaintext := plaintext
  object := ⟨replayWrapped n, .zero 12, plaintext.length, plaintext ++ replayTag⟩
  made := by
    have encrypted : replayCipher.encrypt (replayKey n) (.zero 12)
        (utf8 (replayPinned path).uri.toText) plaintext = some (plaintext ++ replayTag) :=
      if_pos ⟨rfl, asked⟩
    show (orFail (replayCipher.encrypt _ _ _ _) _ >>= fun ciphertext => _) = _
    rw [encrypted]
    rfl

open EncryptedObject in
def replayHistory : List (Sealed replayCipher replayProvider) :=
  [replayed 0 [] [7] (by decide) (by decide), replayed 1 [] [7] (by decide) (by decide),
    replayed 2 [sampleSegment] [8, 9] (by decide) (by decide)]

theorem replayed_of_asked : ∀ asked ∈ replayAsked, ∃ made ∈ replayHistory,
    made.draws.dataKey = some asked.1 ∧ made.object.nonce = .zero 12 ∧
      utf8 made.pinned.uri.toText = asked.2.1 ∧
      made.object.ciphertext = asked.2.2 ++ replayTag := by
  simp only [replayAsked, forall_mem_cons]
  exact ⟨⟨_, .head _, rfl, rfl, rfl, rfl⟩, ⟨_, .tail _ (.head _), rfl, rfl, rfl, rfl⟩,
    ⟨_, .tail _ (.tail _ (.head _)), rfl, rfl, rfl, rfl⟩, nofun⟩

open EncryptedObject in
theorem replay_ideal : Ideal replayHistory where
  authentic dataKey nonce aad ciphertext plaintext decrypted := by
    simp only [replayCipher] at decrypted
    split at decrypted
    · rename_i asked
      obtain ⟨⟨rfl, member⟩, same⟩ := asked
      obtain rfl := Option.some.inj decrypted
      rw [same]
      exact replayed_of_asked _ member
    · cases decrypted
  unwraps := by
    simp only [replayHistory, forall_mem_cons]
    refine ⟨?_, ?_, ?_, fun _ none => absurd none not_mem_nil⟩ <;> intro _ drawn <;>
      rw [← Option.some.inj drawn] <;> rfl
  wrapped tenant wrappedKey dataKey unwrapped := by
    simp only [replayProvider] at unwrapped
    split at unwrapped
    · rename_i n found
      have key := List.find?_some found
      obtain ⟨rfl, rfl⟩ := of_decide_eq_true key
      have member := mem_of_find?_eq_some found
      simp only [mem_cons, not_mem_nil, or_false] at member
      rcases member with rfl | rfl | rfl
      · exact ⟨_, .head _, rfl, rfl⟩
      · exact ⟨_, .tail _ (.head _), rfl, rfl⟩
      · exact ⟨_, .tail _ (.tail _ (.head _)), rfl, rfl⟩
    · cases unwrapped
  tenants := by
    have tenant : ∀ made ∈ replayHistory, made.tenant = ['t'] := by
      simp [replayHistory, replayed]
    exact fun first left second right _ => (tenant first left).trans (tenant second right).symm
  fresh first left second right same := by
    simp only [replayHistory, mem_cons, not_mem_nil, or_false] at left right
    rcases left with rfl | rfl | rfl <;> rcases right with rfl | rfl | rfl <;>
      first | rfl | exact absurd same (by decide)

open EncryptedObject in
/-- The bytes of another envelope sealed for the tenant and the name open as well. -/
theorem replayedEnvelope :
    ∃ (cipher : AuthenticatedCipher) (provider : DataKeyProvider)
      (history : List (Sealed cipher provider)), Ideal history ∧
      ∃ made ∈ history, ∃ bytes altered, made.object.encode = .ok bytes ∧ altered ≠ bytes ∧
        (openBytes cipher provider made.tenant made.pinned altered).Ensures ()
          (fun plaintext _ => plaintext = made.plaintext) fun _ _ => False := by
  have opened := @Ideal.openBytes_own replayCipher replayProvider _
    (replayed 1 [] [7] (by decide) (by decide)) _ replay_ideal (by simp [replayHistory])
    (encode_eq (Sealed.wellFormed _))
  refine ⟨_, _, _, replay_ideal, replayed 0 [] [7] (by decide) (by decide),
    by simp [replayHistory], _, _, encode_eq (Sealed.wellFormed _), ?_, opened⟩
  intro same
  have cutThere := congrArg (fun bytes => bytes.drop 32) same
  exact absurd cutThere (by decide)

def replayAlias : AliasSnapshot :=
  ⟨{ (replayPinned []).uri with revision := none }, ⟨.zero 32⟩, .initial, false, by decide⟩

/-- A name with the vector `[1.0, -2.0]`. -/
def replayJob : IndexJob := .upsert (replayPinned []) [0x3F800000, 0xC0000000]

open EncryptedObject in
/-- Of three envelopes under two names, the last one is opened. -/
theorem storedObjects_replay : ∃ sealedObject ∈ replayHistory, ∃ bytes,
    sealedObject.object.encode = .ok bytes ∧
    (openBytes replayCipher replayProvider ['t'] (replayPinned [sampleSegment]) bytes).Ensures ()
      (fun plaintext _ => plaintext = [8, 9]) (fun _ _ => False) ∧
    (openBytes replayCipher replayProvider ['t'] (replayPinned []) bytes).Ensures ()
      (fun _ _ => False) (fun _ _ => True) ∧
    (decodeAlias replayAlias.aliasUri (encodeAlias replayAlias)).Ensures ()
      (fun decoded _ => decoded = replayAlias) (fun _ _ => False) ∧
    ∃ job, replayJob.encode = .ok job ∧
      (IndexJob.decode job).Ensures () (fun decoded _ => decoded = replayJob) fun _ _ => False := by
  obtain ⟨_, _, kept, _, aliases, _, jobs, _⟩ :=
    storedObjects replayCipher replayProvider _ replay_ideal
  obtain ⟨bytes, encoded, own, others⟩ :=
    kept (replayed 2 [sampleSegment] [8, 9] (by decide) (by decide)) (by simp [replayHistory])
  have constructed := @replayPinned_constructed [] (by decide)
  obtain ⟨job, encodedJob⟩ : ∃ job, replayJob.encode = .ok job :=
    ⟨_, (IndexJob.encode_upsert constructed).trans (if_neg (by decide))⟩
  have storable : replayJob.Storable :=
    ⟨constructed, cons_ne_nil _ _, forall_mem_cons.mpr ⟨rfl, forall_mem_singleton.mpr rfl⟩⟩
  exact ⟨_, by simp [replayHistory], bytes, encoded, own,
    others ['t'] _ constructed (fun same => nomatch congrArg (fun pair => pair.2.uri.path) same),
    aliases replayAlias, job, encodedJob, jobs replayJob storable job encodedJob⟩

end Replay

end Rvm.Service
