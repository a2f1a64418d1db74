import Rvm.Anchor.Json
import Rvm.Foundation.Base64
import Rvm.Foundation.Bytes
import Rvm.Types.Capability

/-!
Owns the base64 of `rvm-anchor/src/receipt.rs`: the decoder, and what it reads: any run of
groups, also where one before the last is filled up or unused bits are set.
-/

namespace Rvm.Anchor

open Foundation

inductive ReceiptError
  | json (error : JsonError)
  | unknownField (name : List Char)
  | «structure» (rule : String)
  | unsupportedSchemaVersion
  | unsupportedGateVersion
  | contentIdMismatch (field : String)
  | signatureMissing
  | signatureMalformed (rule : String)
  | untrustedSigner
  | signatureInvalid
  | statistics (rule : String)
  | corpusRolesOverlap
  | gateWithoutTermVerification
  | expired
deriving DecidableEq

def base64Value (b : UInt8) : Option Nat :=
  if 65 ≤ b ∧ b ≤ 90 then some (b - 65).toNat
  else if 97 ≤ b ∧ b ≤ 122 then some ((b - 97).toNat + 26)
  else if 48 ≤ b ∧ b ≤ 57 then some ((b - 48).toNat + 52)
  else if b = 43 then some 62
  else if b = 47 then some 63
  else none

/-- One round of the loop over the bytes of a chunk. -/
def appendValue (acc : Nat) (b : UInt8) : Option Nat :=
  (base64Value b).map fun value => asU32 (acc <<< 6) ||| value

/-- One round of the loop over the chunks. -/
def decodeChunk (chunk : List UInt8) : Option (List UInt8) :=
  let padding := (chunk.reverse.takeWhile (· = 61)).length
  let body := chunk.take (4 - padding)
  if padding > 2 ∨ body.any (fun b => (base64Value b).isNone) then none
  else do
    let acc ← body.foldlM appendValue 0
    let acc := asU32 (acc <<< (6 * padding))
    return UInt8.ofNat (acc >>> 16) ::
      ((if padding < 2 then [UInt8.ofNat (acc >>> 8)] else []) ++
        if padding < 1 then [UInt8.ofNat acc] else [])

/-- The chunks of four bytes. -/
def decodeChunks : List UInt8 → Option (List UInt8)
  | [] => some []
  | a :: b :: c :: d :: rest => do
      let out ← decodeChunk [a, b, c, d]
      let more ← decodeChunks rest
      return out ++ more
  -- The length was checked.
  | _ => none

def base64Decode (text : List Char) : Option (List UInt8) :=
  let bytes := utf8 text
  if bytes.length % 4 ≠ 0 then none else decodeChunks bytes

def ed25519SpkiPrefix : List UInt8 :=
  [0x30, 0x2a, 0x30, 0x05, 0x06, 0x03, 0x2b, 0x65, 0x70, 0x03, 0x21, 0x00]

/-- The text between the lines that start with dashes. -/
def pemBody (pem : List Char) : List Char :=
  ((lines pem).filter fun line => !"-----".toList.isPrefixOf line).flatten

def textField (value : Json) (key : String) : Option (List Char) :=
  (value.get key.toList).bind Json.asStr

def extractSignerKey (signature : Json) : Except ReceiptError (Octets 32) := do
  let some pem := textField signature "publicKeyPem"
    | throw (.signatureMalformed "publicKeyPem missing")
  let some der := base64Decode (pemBody pem)
    | throw (.signatureMalformed "publicKeyPem base64")
  if shape : der.length = 44 ∧ der.take 12 = ed25519SpkiPrefix then
    return .ofList (der.drop 12) (by rw [List.length_drop, shape.1])
  else
    throw (.signatureMalformed "publicKeyPem is not Ed25519 SPKI")

def isAsciiAlphanumeric (b : UInt8) : Bool :=
  (65 ≤ b && b ≤ 90) || (97 ≤ b && b ≤ 122) || (48 ≤ b && b ≤ 57)

def isSignatureBase64 (text : List Char) : Bool :=
  let bytes := utf8 text
  bytes.length = 88 && (bytes.take 86).all (fun b => isAsciiAlphanumeric b || b = 43 || b = 47) &&
    bytes[86]? = some 61 && bytes[87]? = some 61

def decodeSignature (signature : Json) : Except ReceiptError (Octets 64) := do
  let some text := textField signature "signatureBase64"
    | throw (.signatureMalformed "signatureBase64 missing")
  if !isSignatureBase64 text then
    throw (.signatureMalformed "signatureBase64 outside ^[A-Za-z0-9+/]\x7b86\x7d==$")
  else
    let some bytes := base64Decode text
      | throw (.signatureMalformed "signature base64")
    if width : bytes.length = 64 then
      return .ofList bytes width
    else
      throw (.signatureMalformed "signature is not 64 bytes")

open Foundation.Base64

theorem base64Value_symbol (digit : Fin 64) : base64Value (symbol digit) = some digit.val := by
  revert digit
  decide

theorem symbol_of_base64Value {b : UInt8} {value : Nat} (known : base64Value b = some value) :
    ∃ digit : Fin 64, b = symbol digit ∧ value = digit.val := by
  have all : ∀ code : Fin 256, ∀ value ∈ base64Value (UInt8.ofNat code.val),
      value < 64 ∧ symbol (digit value) = UInt8.ofNat code.val := by decide +kernel
  have here := all ⟨b.toNat, b.toNat_lt⟩ value
  rw [UInt8.ofNat_toNat] at here
  obtain ⟨bounded, same⟩ := here known
  exact ⟨digit value, same.symm, (Nat.mod_eq_of_lt bounded).symm⟩

theorem appendValue_symbol {acc : Nat} (digit : Fin 64) (bounded : acc < 67108864) :
    appendValue acc (symbol digit) = some (acc * 64 + digit.val) := by
  have fits : acc <<< 6 < 4294967296 := by
    rw [Nat.shiftLeft_eq]
    omega
  unfold appendValue asU32
  rw [base64Value_symbol, Option.map_some, Nat.mod_eq_of_lt fits,
    ← Nat.shiftLeft_add_eq_or_of_lt digit.isLt, Nat.shiftLeft_eq]

theorem symbol_ne (digit : Fin 64) : symbol digit ≠ 61 := symbol_ne_pad digit

theorem byte_eq {value expected : Nat} (same : value % 256 = expected % 256) :
    UInt8.ofNat value = UInt8.ofNat expected := by
  apply UInt8.toNat_inj.mp
  rw [UInt8.toNat_ofNat', UInt8.toNat_ofNat']
  exact same

theorem decodeChunk_symbols (group : Group) : decodeChunk group.symbols = some group.bytes := by
  cases group with
  | full w x y z =>
    have acc : [symbol w, symbol x, symbol y, symbol z].foldlM appendValue 0 =
        some (((w.val * 64 + x) * 64 + y) * 64 + z) := by
      simp (disch := omega) [List.foldlM, appendValue_symbol]
    simp [decodeChunk, Group.symbols, symbol_ne, base64Value_symbol, acc]
    simp only [Group.bytes, List.cons.injEq, and_true]
    refine ⟨byte_eq ?_, byte_eq ?_, byte_eq ?_⟩ <;>
      simp only [asU32, Nat.shiftRight_eq_div_pow] <;> omega
  | two w x y =>
    have acc : [symbol w, symbol x, symbol y].foldlM appendValue 0 =
        some ((w.val * 64 + x) * 64 + y) := by
      simp (disch := omega) [List.foldlM, appendValue_symbol]
    simp [decodeChunk, Group.symbols, pad, symbol_ne, base64Value_symbol, acc]
    simp only [Group.bytes, List.cons.injEq, and_true]
    refine ⟨byte_eq ?_, byte_eq ?_⟩ <;>
      simp only [asU32, Nat.shiftRight_eq_div_pow, Nat.shiftLeft_eq] <;> omega
  | one w x =>
    have acc : [symbol w, symbol x].foldlM appendValue 0 = some (w.val * 64 + x) := by
      simp (disch := omega) [List.foldlM, appendValue_symbol]
    simp [decodeChunk, Group.symbols, pad, symbol_ne, base64Value_symbol, acc]
    simp only [Group.bytes, List.cons.injEq, and_true]
    refine byte_eq ?_
    simp only [asU32, Nat.shiftRight_eq_div_pow, Nat.shiftLeft_eq]
    omega

theorem symbols_of_decodeChunk {a b c d : UInt8} {out : List UInt8}
    (decoded : decodeChunk [a, b, c, d] = some out) :
    ∃ group : Group, [a, b, c, d] = group.symbols := by
  have known : ∀ byte : UInt8, base64Value byte ≠ none → ∃ digit, byte = symbol digit := by
    intro byte valued
    obtain ⟨value, found⟩ := Option.ne_none_iff_exists'.mp valued
    obtain ⟨digit, same, _⟩ := symbol_of_base64Value found
    exact ⟨digit, same⟩
  unfold decodeChunk at decoded
  by_cases last : d = 61
  · by_cases third : c = 61
    · by_cases second : b = 61
      · have three : 3 ≤ ([a, b, c, d].reverse.takeWhile (· = 61)).length := by
          by_cases first : a = 61 <;> simp [last, third, second, first]
        rw [if_pos (.inl three)] at decoded
        cases decoded
      · simp only [last, third] at decoded
        simp [second] at decoded
        obtain ⟨w, rfl⟩ := known a decoded.1.1
        obtain ⟨x, rfl⟩ := known b decoded.1.2
        exact ⟨.one w x, by rw [last, third]; rfl⟩
    · simp only [last] at decoded
      simp [third] at decoded
      obtain ⟨w, rfl⟩ := known a decoded.1.1
      obtain ⟨x, rfl⟩ := known b decoded.1.2.1
      obtain ⟨y, rfl⟩ := known c decoded.1.2.2
      exact ⟨.two w x y, by rw [last]; rfl⟩
  · simp [last] at decoded
    obtain ⟨w, rfl⟩ := known a decoded.1.1
    obtain ⟨x, rfl⟩ := known b decoded.1.2.1
    obtain ⟨y, rfl⟩ := known c decoded.1.2.2.1
    obtain ⟨z, rfl⟩ := known d decoded.1.2.2.2
    exact ⟨.full w x y z, rfl⟩

theorem decodeChunks_symbols (groups : List Group) :
    decodeChunks (symbols groups) = some (bytes groups) := by
  induction groups with
  | nil => rfl
  | cons group groups ih =>
    have first := decodeChunk_symbols group
    cases group <;>
      simp [symbols, bytes, Group.symbols, decodeChunks] at first ih ⊢ <;>
      simp [first, ih]

theorem symbols_of_decodeChunks {data out : List UInt8} (decoded : decodeChunks data = some out) :
    ∃ groups, data = symbols groups := by
  induction data using decodeChunks.induct generalizing out with
  | case1 => exact ⟨[], rfl⟩
  | case2 a b c d rest ih =>
    rw [decodeChunks] at decoded
    simp only [Option.bind_eq_bind, Option.bind_eq_some_iff] at decoded
    obtain ⟨head, isGroup, more, later, _⟩ := decoded
    obtain ⟨group, first⟩ := symbols_of_decodeChunk isGroup
    obtain ⟨groups, rfl⟩ := ih later
    refine ⟨group :: groups, ?_⟩
    show [a, b, c, d] ++ symbols groups = _
    rw [first, symbols, symbols, List.flatMap_cons]
  | case3 => simp [decodeChunks] at decoded

theorem base64Decode_eq_some {text : List Char} {out : List UInt8} :
    base64Decode text = some out ↔ ∃ groups, utf8 text = symbols groups ∧ out = bytes groups := by
  simp only [base64Decode]
  constructor
  · intro decoded
    split at decoded
    · cases decoded
    · obtain ⟨groups, same⟩ := symbols_of_decodeChunks decoded
      rw [same, decodeChunks_symbols] at decoded
      exact ⟨groups, same, (Option.some.inj decoded).symm⟩
  · rintro ⟨groups, same, rfl⟩
    have whole : (symbols groups).length % 4 = 0 := by
      rw [symbols, List.length_flatMap]
      simp [Group.symbols_length]
    rw [same, if_neg (not_not.mpr whole), decodeChunks_symbols]

/-- A text of groups that the standard encoding does not make: one before the last is filled
up, or an unused bit is set. -/
def Loose (text : List Char) : Prop :=
  ∃ groups, utf8 text = symbols groups ∧ ¬Standard groups

def DecodedExactly (text : List Char) : Prop :=
  ∀ out, base64Decode text = some out ↔ utf8 text = encode out

theorem decodedExactly_iff (text : List Char) : DecodedExactly text ↔ ¬Loose text := by
  constructor
  · rintro exact ⟨groups, same, nonStandard⟩
    have decoded := (exact (bytes groups)).mp (base64Decode_eq_some.mpr ⟨groups, same, rfl⟩)
    obtain ⟨others, standard, also, _⟩ := eq_encode_iff.mp decoded
    obtain rfl := symbols_injective (same.symm.trans also)
    exact nonStandard standard
  · intro strict out
    rw [base64Decode_eq_some, eq_encode_iff]
    constructor
    · rintro ⟨groups, same, rfl⟩
      by_contra absent
      exact strict ⟨groups, same, fun standard => absent ⟨groups, standard, same, rfl⟩⟩
    · rintro ⟨groups, _, same, rfl⟩
      exact ⟨groups, same, rfl⟩

theorem DecodedExactly.injective {first second : List Char} {out : List UInt8}
    (left : DecodedExactly first) (right : DecodedExactly second)
    (decoded : base64Decode first = some out) (also : base64Decode second = some out) :
    first = second :=
  utf8_injective (((left out).mp decoded).trans ((right out).mp also).symm)

theorem decodeSignature_ok {signature : Json} {value : Octets 64}
    (accepted : decodeSignature signature = .ok value) :
    ∃ text, textField signature "signatureBase64" = some text ∧
      base64Decode text = some value.toList := by
  unfold decodeSignature at accepted
  cases found : textField signature "signatureBase64" with
  | none => simp [found] at accepted
  | some text =>
    by_cases pattern : isSignatureBase64 text = true
    · cases decoded : base64Decode text with
      | none => simp [found, decoded, pattern] at accepted
      | some bytes =>
        simp only [found, decoded, pattern, Bool.not_true, if_neg Bool.false_ne_true]
          at accepted
        by_cases width : bytes.length = 64
        · rw [dif_pos width] at accepted
          cases accepted
          exact ⟨text, rfl, decoded⟩
        · rw [dif_neg width] at accepted
          cases accepted
    · simp [found, pattern] at accepted

theorem extractSignerKey_ok {signature : Json} {key : Octets 32}
    (accepted : extractSignerKey signature = .ok key) :
    ∃ pem, textField signature "publicKeyPem" = some pem ∧
      base64Decode (pemBody pem) = some (ed25519SpkiPrefix ++ key.toList) := by
  unfold extractSignerKey at accepted
  cases found : textField signature "publicKeyPem" with
  | none => simp [found] at accepted
  | some pem =>
    cases decoded : base64Decode (pemBody pem) with
    | none => simp [found, decoded] at accepted
    | some der =>
      simp only [found, decoded] at accepted
      by_cases shape : der.length = 44 ∧ der.take 12 = ed25519SpkiPrefix
      · rw [dif_pos shape] at accepted
        cases accepted
        refine ⟨pem, rfl, ?_⟩
        rw [decoded, ← shape.2]
        exact congrArg some (List.take_append_drop 12 der).symm
      · rw [dif_neg shape] at accepted
        cases accepted

/-- What exact decoding of some texts means: each denotes the bytes that it encodes, and no two
envelopes spell one signature or key differently. -/
structure Base64Exact (texts : Set (List Char)) : Prop where
  exact : ∀ text ∈ texts, DecodedExactly text
  injective : ∀ first ∈ texts, ∀ second ∈ texts, ∀ out, base64Decode first = some out →
    base64Decode second = some out → first = second
  signatures : ∀ first second value, decodeSignature first = .ok value →
    decodeSignature second = .ok value → ∀ left ∈ texts, ∀ right ∈ texts,
      textField first "signatureBase64" = some left →
        textField second "signatureBase64" = some right → left = right
  keys : ∀ first second key, extractSignerKey first = .ok key → extractSignerKey second = .ok key →
    ∀ left right, pemBody left ∈ texts → pemBody right ∈ texts →
      textField first "publicKeyPem" = some left → textField second "publicKeyPem" = some right →
        pemBody left = pemBody right

/-- Decoding is exact on the texts that are not loose. -/
theorem base64DecodedExactly (texts : Set (List Char)) :
    Base64Exact texts ↔ ∀ text ∈ texts, ¬Loose text := by
  constructor
  · exact fun exact text member => (decodedExactly_iff text).mp (exact.exact text member)
  · intro strict
    have exact : ∀ text ∈ texts, DecodedExactly text := fun text member =>
      (decodedExactly_iff text).mpr (strict text member)
    refine ⟨exact, ?_, ?_, ?_⟩
    · exact fun first left second right out => (exact first left).injective (exact second right)
    · intro first second value accepted also left leftIn right rightIn isLeft isRight
      obtain ⟨text, named, decoded⟩ := decodeSignature_ok accepted
      obtain rfl := Option.some.inj (named.symm.trans isLeft)
      obtain ⟨other, alsoNamed, alsoDecoded⟩ := decodeSignature_ok also
      obtain rfl := Option.some.inj (alsoNamed.symm.trans isRight)
      exact (exact text leftIn).injective (exact other rightIn) decoded alsoDecoded
    · intro first second key accepted also left right leftIn rightIn isLeft isRight
      obtain ⟨pem, named, decoded⟩ := extractSignerKey_ok accepted
      obtain rfl := Option.some.inj (named.symm.trans isLeft)
      obtain ⟨other, alsoNamed, alsoDecoded⟩ := extractSignerKey_ok also
      obtain rfl := Option.some.inj (alsoNamed.symm.trans isRight)
      exact (exact _ leftIn).injective (exact _ rightIn) decoded alsoDecoded

/-- Set unused bits, and a group that is filled up before the last, are taken. -/
theorem looseTextsDecoded :
    base64Decode "AB==".toList = some [0] ∧ base64Decode "AA==AA==".toList = some [0, 0] ∧
      ¬Base64Exact {"AB==".toList} ∧ ¬Base64Exact {"AA==AA==".toList} := by
  have bits : base64Decode "AB==".toList = some [0] := by decide
  have early : base64Decode "AA==AA==".toList = some [0, 0] := by decide
  refine ⟨bits, early, fun exact => ?_, fun exact => ?_⟩
  · have encoded := (exact.exact _ rfl [0]).mp bits
    exact absurd encoded (by decide)
  · have encoded := (exact.exact _ rfl [0, 0]).mp early
    exact absurd encoded (by decide)

end Rvm.Anchor
