import Mathlib.Algebra.Group.Int.Defs
import Mathlib.Data.List.Sort
import Rvm.Foundation.Tables
import Rvm.Foundation.Text

/-!
Owns the JSON model of `rvm-anchor/src/jcs.rs`: values, their canonical text and the parser.
A text is its characters: the parser compares bytes with ASCII bytes only, so every position
it stops at is between characters.
-/

namespace Rvm.Anchor

open Foundation

/-- A parsed JSON value, restricted to the contract's number domain. -/
inductive Json
  | null
  | bool (value : Bool)
  | int (value : Int64)
  | str (text : List Char)
  | arr (items : List Json)
  | obj (pairs : List (List Char × Json))

inductive JsonError
  | syntaxError
  | nonConformingNumber
  | duplicateKey
  | trailingData
  | badEscape
  /-- Only of the model: the fuel of a loop is spent. -/
  | outOfFuel
deriving DecidableEq

namespace Json

def get (value : Json) (key : List Char) : Option Json :=
  match value with
  | obj pairs => (entryFor Prod.fst pairs key).map Prod.snd
  | _ => none

def asStr : Json → Option (List Char)
  | str text => some text
  | _ => none

def asInt : Json → Option Int64
  | int value => some value
  | _ => none

def asBool : Json → Option Bool
  | bool value => some value
  | _ => none

def asArr : Json → Option (List Json)
  | arr items => some items
  | _ => none

def asObj : Json → Option (List (List Char × Json))
  | obj pairs => some pairs
  | _ => none

end Json

def utf16Units (char : Char) : List Nat :=
  if char.toNat < 0x10000 then [char.toNat]
  else [0xD800 + (char.toNat - 0x10000) / 0x400, 0xDC00 + (char.toNat - 0x10000) % 0x400]

def encodeUtf16 (text : List Char) : List Nat := text.flatMap utf16Units

/-- The JCS key order. -/
def utf16Cmp (left right : List Char) : Ordering :=
  compareOfLessAndEq (encodeUtf16 left) (encodeUtf16 right)

def KeyLe {α : Type} (left right : List Char × α) : Prop := utf16Cmp left.1 right.1 ≠ .gt

instance {α : Type} : DecidableRel (@KeyLe α) := fun _ _ => inferInstanceAs (Decidable (_ ≠ _))

/-- `sort_by` on the keys; it is stable. -/
def sortByKey {α : Type} (pairs : List (List Char × α)) : List (List Char × α) :=
  pairs.insertionSort KeyLe

def lowerHex4 (value : Nat) : List Char :=
  [value / 0x1000 % 16, value / 0x100 % 16, value / 0x10 % 16, value % 16].map Nat.digitChar

def escapeChar (char : Char) : List Char :=
  if char = '"' then ['\\', '"']
  else if char = '\\' then ['\\', '\\']
  else if char = '\x08' then ['\\', 'b']
  else if char = '\t' then ['\\', 't']
  else if char = '\n' then ['\\', 'n']
  else if char = '\x0c' then ['\\', 'f']
  else if char = '\r' then ['\\', 'r']
  else if char.toNat < 0x20 then '\\' :: 'u' :: lowerHex4 char.toNat
  else [char]

def writeEscaped (text : List Char) : List Char := '"' :: text.flatMap escapeChar ++ ['"']

def displayInt (value : Int64) : List Char :=
  if value.toInt < 0 then '-' :: Nat.toDigits 10 value.toInt.natAbs
  else Nat.toDigits 10 value.toInt.natAbs

def joined (texts : List (List Char)) : List Char := [','].intercalate texts

mutual

def writeCanonical : Json → List Char
  | .null => "null".toList
  | .bool true => "true".toList
  | .bool false => "false".toList
  | .int value => displayInt value
  | .str text => writeEscaped text
  | .arr items => '[' :: joined (writeItems items) ++ [']']
  | .obj pairs =>
    -- The source sorts the pairs and then writes their values.
    '{' :: joined ((sortByKey (writeValues pairs)).map fun pair =>
      writeEscaped pair.1 ++ ':' :: pair.2) ++ ['}']

def writeItems : List Json → List (List Char)
  | [] => []
  | item :: rest => writeCanonical item :: writeItems rest

def writeValues : List (List Char × Json) → List (List Char × List Char)
  | [] => []
  | (key, value) :: rest => (key, writeCanonical value) :: writeValues rest

end

def Json.canonicalize (value : Json) : List Char := writeCanonical value

def isWs (char : Char) : Bool := char = ' ' || char = '\t' || char = '\n' || char = '\r'

def skipWs (text : List Char) : List Char := text.dropWhile isWs

def parseLiteral (literal : List Char) (value : Json) (text : List Char) :
    Except JsonError (Json × List Char) :=
  match stripText literal text with
  | some rest => .ok (value, rest)
  | none => .error .syntaxError

def parseI64 (negative : Bool) (digits : List Char) : Option Int64 :=
  let magnitude := Nat.ofDigitChars 10 digits 0
  let value : Int := if negative then -magnitude else magnitude
  if -2 ^ 63 ≤ value ∧ value < 2 ^ 63 then some (Int64.ofInt value) else none

def parseDigits (negative : Bool) (text : List Char) : Except JsonError (Json × List Char) :=
  let digits := text.takeWhile Char.isDigit
  let rest := text.dropWhile Char.isDigit
  if digits = [] then .error .syntaxError
  -- Leading zeros are invalid JSON except for a bare 0.
  else if digits.head? = some '0' ∧ digits.length > 1 then .error .syntaxError
  else if rest.head? = some '.' ∨ rest.head? = some 'e' ∨ rest.head? = some 'E' then
    .error .nonConformingNumber
  -- "-0" is negative zero.
  else if negative ∧ digits = ['0'] then .error .nonConformingNumber
  else
    match parseI64 negative digits with
    | some value => .ok (.int value, rest)
    | none => .error .nonConformingNumber

def parseNumber (text : List Char) : Except JsonError (Json × List Char) :=
  if text.head? = some '-' then parseDigits true text.tail else parseDigits false text

def hexDigit? (char : Char) : Option Nat :=
  if '0' ≤ char ∧ char ≤ '9' then some (char.toNat - '0'.toNat)
  else if 'a' ≤ char ∧ char ≤ 'f' then some (char.toNat - 'a'.toNat + 10)
  else if 'A' ≤ char ∧ char ≤ 'F' then some (char.toNat - 'A'.toNat + 10)
  else none

def parseHexDigits : Nat → Nat → List Char → Except JsonError (Nat × List Char)
  | 0, value, text => .ok (value, text)
  | _ + 1, _, [] => .error .badEscape
  | count + 1, value, char :: rest =>
    match hexDigit? char with
    | some digit => parseHexDigits count (value * 16 + digit) rest
    | none => .error .badEscape

def parseHex4 (text : List Char) : Except JsonError (Nat × List Char) := parseHexDigits 4 0 text

def charFromU32 (code : Nat) : Option Char :=
  if valid : code.isValidChar then some (Char.ofNatAux code valid) else none

def charFor (code : Nat) (rest : List Char) : Except JsonError (Char × List Char) :=
  match charFromU32 code with
  | some char => .ok (char, rest)
  | none => .error .badEscape

def isHighSurrogate (unit : Nat) : Bool := 0xD800 ≤ unit && unit ≤ 0xDBFF

def isLowSurrogate (unit : Nat) : Bool := 0xDC00 ≤ unit && unit ≤ 0xDFFF

def parseUnicodeEscape (text : List Char) : Except JsonError (Char × List Char) := do
  let (unit, rest) ← parseHex4 text
  if isHighSurrogate unit then
    match stripText ['\\', 'u'] rest with
    | some rest =>
      let (low, rest) ← parseHex4 rest
      if isLowSurrogate low then
        charFor (0x10000 + (unit - 0xD800) * 0x400 + (low - 0xDC00)) rest
      else .error .badEscape
    | none => .error .badEscape
  else if isLowSurrogate unit then .error .badEscape
  else charFor unit rest

/-- What a letter after `\` stands for. -/
def shortEscape? (letter : Char) : Option Char :=
  if letter = '"' then some '"'
  else if letter = '\\' then some '\\'
  else if letter = '/' then some '/'
  else if letter = 'b' then some '\x08'
  else if letter = 'f' then some '\x0c'
  else if letter = 'n' then some '\n'
  else if letter = 'r' then some '\r'
  else if letter = 't' then some '\t'
  else none

/-- `parse_string` after a `\`. -/
def parseEscape : List Char → Except JsonError (Char × List Char)
  | [] => .error .badEscape
  | letter :: rest =>
    match shortEscape? letter with
    | some char => .ok (char, rest)
    | none => if letter = 'u' then parseUnicodeEscape rest else .error .badEscape

/-- The loop of `parse_string`: every round takes a character of the text. -/
def parseStringLoop : Nat → List Char → List Char → Except JsonError (List Char × List Char)
  | 0, _, _ => .error .outOfFuel
  | _ + 1, _, [] => .error .syntaxError
  | fuel + 1, out, char :: rest =>
    if char = '"' then .ok (out, rest)
    else if char = '\\' then do
      let (escaped, rest) ← parseEscape rest
      parseStringLoop fuel (out ++ [escaped]) rest
    else if char.toNat < 0x20 then .error .syntaxError
    else parseStringLoop fuel (out ++ [char]) rest

/-- `parse_string` after its opening quote. -/
def parseString (text : List Char) : Except JsonError (List Char × List Char) :=
  parseStringLoop (text.length + 1) [] text

/-- `return Err(JsonError::Syntax)` unless the text goes on with the character. -/
def expect (char : Char) (text : List Char) : Except JsonError (List Char) :=
  if text.head? = some char then .ok text.tail else .error .syntaxError

mutual

def parseValue : Nat → List Char → Except JsonError (Json × List Char)
  | 0, _ => .error .outOfFuel
  | fuel + 1, text =>
    let text := skipWs text
    if text.head? = some '{' then parseObject fuel text.tail
    else if text.head? = some '[' then parseArray fuel text.tail
    else if text.head? = some '"' then do
      let (text, rest) ← parseString text.tail
      return (.str text, rest)
    else if text.head? = some 't' then parseLiteral "true".toList (.bool true) text
    else if text.head? = some 'f' then parseLiteral "false".toList (.bool false) text
    else if text.head? = some 'n' then parseLiteral "null".toList .null text
    else if text.head? = some '-' ∨ text.head?.any Char.isDigit then parseNumber text
    else .error .syntaxError

/-- `parse_array` after its opening bracket. -/
def parseArray : Nat → List Char → Except JsonError (Json × List Char)
  | 0, _ => .error .outOfFuel
  | fuel + 1, text =>
    let text := skipWs text
    if text.head? = some ']' then .ok (.arr [], text.tail) else parseItems fuel [] text

/-- The loop of `parse_array`. -/
def parseItems : Nat → List Json → List Char → Except JsonError (Json × List Char)
  | 0, _, _ => .error .outOfFuel
  | fuel + 1, items, text => do
    let (item, rest) ← parseValue fuel text
    let rest := skipWs rest
    if rest.head? = some ',' then parseItems fuel (items ++ [item]) rest.tail
    else if rest.head? = some ']' then .ok (.arr (items ++ [item]), rest.tail)
    else .error .syntaxError

/-- `parse_object` after its opening brace. -/
def parseObject : Nat → List Char → Except JsonError (Json × List Char)
  | 0, _ => .error .outOfFuel
  | fuel + 1, text =>
    let text := skipWs text
    if text.head? = some '}' then .ok (.obj [], text.tail) else parseMembers fuel [] text

/-- The loop of `parse_object`. -/
def parseMembers : Nat → List (List Char × Json) → List Char → Except JsonError (Json × List Char)
  | 0, _, _ => .error .outOfFuel
  | fuel + 1, pairs, text => do
    let (key, rest) ← parseString (← expect '"' (skipWs text))
    if pairs.any fun pair => pair.1 = key then .error .duplicateKey
    else
      let (value, rest) ← parseValue fuel (← expect ':' (skipWs rest))
      let rest := skipWs rest
      if rest.head? = some ',' then parseMembers fuel (pairs ++ [(key, value)]) rest.tail
      else if rest.head? = some '}' then .ok (.obj (pairs ++ [(key, value)]), rest.tail)
      else .error .syntaxError

end

def parseFuel (text : List Char) : Nat := 3 * text.length + 1

def Json.parse (text : List Char) : Except JsonError Json := do
  let (value, rest) ← parseValue (parseFuel text) text
  if skipWs rest ≠ [] then .error .trailingData else .ok value

mutual

def distinctKeys : Json → Bool
  | .arr items => distinctItems items
  | .obj pairs => decide (pairs.map Prod.fst).Nodup && distinctValues pairs
  | _ => true

def distinctItems : List Json → Bool
  | [] => true
  | item :: rest => distinctKeys item && distinctItems rest

def distinctValues : List (List Char × Json) → Bool
  | [] => true
  | (_, value) :: rest => distinctKeys value && distinctValues rest

end

section Values

variable {items : List Json} {pairs : List (List Char × Json)}

theorem distinctItems_iff : distinctItems items = true ↔ ∀ item ∈ items, distinctKeys item := by
  induction items with
  | nil => simp [distinctItems]
  | cons item rest ih => simp [distinctItems, ih]

theorem distinctValues_iff : distinctValues pairs = true ↔ ∀ pair ∈ pairs, distinctKeys pair.2 := by
  induction pairs with
  | nil => simp [distinctValues]
  | cons pair rest ih =>
    rw [distinctValues, Bool.and_eq_true, ih, List.forall_mem_cons]

@[simp] theorem distinctKeys_arr :
    distinctKeys (.arr items) = true ↔ ∀ item ∈ items, distinctKeys item := by
  rw [distinctKeys, distinctItems_iff]

@[simp] theorem distinctKeys_obj : distinctKeys (.obj pairs) = true ↔
    (pairs.map Prod.fst).Nodup ∧ ∀ pair ∈ pairs, distinctKeys pair.2 := by
  rw [distinctKeys, Bool.and_eq_true, decide_eq_true_iff, distinctValues_iff]

theorem writeItems_eq_map : writeItems items = items.map writeCanonical := by
  induction items with
  | nil => rfl
  | cons item rest ih => rw [writeItems, ih, List.map_cons]

theorem writeValues_eq_map :
    writeValues pairs = pairs.map fun pair => (pair.1, writeCanonical pair.2) := by
  induction pairs with
  | nil => rfl
  | cons pair rest ih => rw [writeValues, ih, List.map_cons]

theorem Json.within {motive : Json → Prop} (null : motive .null)
    (bool : ∀ value, motive (.bool value)) (int : ∀ value, motive (.int value))
    (str : ∀ text, motive (.str text))
    (arr : ∀ items, (∀ item ∈ items, motive item) → motive (.arr items))
    (obj : ∀ pairs, (∀ pair ∈ pairs, motive pair.2) → motive (.obj pairs)) (value : Json) :
    motive value :=
  @Json.rec motive (fun items => ∀ item ∈ items, motive item)
    (fun pairs => ∀ pair ∈ pairs, motive pair.2) (fun pair => motive pair.2)
    null bool int str arr obj (List.forall_mem_nil _)
    (fun _ _ head tail => List.forall_mem_cons.mpr ⟨head, tail⟩) (List.forall_mem_nil _)
    (fun _ _ head tail => List.forall_mem_cons.mpr ⟨head, tail⟩) (fun _ _ value => value) value

end Values

end Rvm.Anchor
