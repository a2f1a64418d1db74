import Mathlib.Algebra.GroupWithZero.Nat
import Mathlib.Data.List.DropRight
import Rvm.Foundation.Checks

/-!
Owns text as lists of characters: its length in bytes, splitting, lowercase hexadecimal,
formats in which every value has one text, and lines and words.
-/

namespace Foundation

open List

def byteLength (text : List Char) : Nat := (text.map Char.utf8Size).sum

def utf8 (text : List Char) : List UInt8 := text.flatMap String.utf8EncodeChar

def fromUtf8 (bytes : List UInt8) : Option (List Char) :=
  (String.fromUTF8? bytes.toByteArray).map String.toList

def stripText (leading text : List Char) : Option (List Char) :=
  if leading <+: text then some (text.drop leading.length) else none

/-- `split_once`: the text before and after the first separator. -/
def splitOnce (separator : Char) : List Char → Option (List Char × List Char)
  | [] => none
  | char :: rest =>
    if char = separator then some ([], rest)
    else (splitOnce separator rest).map fun parts => (char :: parts.1, parts.2)

def isAscii (char : Char) : Bool := decide (char.val ≤ 127)

section Lengths

theorem byteLength_append (first second : List Char) :
    byteLength (first ++ second) = byteLength first + byteLength second := by
  rw [byteLength, map_append, sum_append]
  rfl

theorem byteLength_flatMap {α : Type} (spell : α → List Char) (values : List α) :
    byteLength (values.flatMap spell) = (values.map fun value => byteLength (spell value)).sum := by
  induction values with
  | nil => rfl
  | cons value rest ih =>
    rw [flatMap_cons, byteLength_append, ih, map_cons, sum_cons]

theorem byteLength_eq_length {text : List Char} (ascii : ∀ char ∈ text, isAscii char = true) :
    byteLength text = text.length := by
  induction text with
  | nil => rfl
  | cons char rest ih =>
    have one : char.utf8Size = 1 :=
      Char.utf8Size_eq_one_iff.mpr (of_decide_eq_true (ascii char mem_cons_self))
    have later := ih fun other member =>
      ascii other (mem_cons_of_mem char member)
    have cons : byteLength (char :: rest) = char.utf8Size + byteLength rest := rfl
    rw [cons, one, later, length_cons, Nat.add_comm]

theorem utf8_length (text : List Char) : (utf8 text).length = byteLength text := by
  rw [utf8, length_flatMap, byteLength]
  congr 1
  exact map_congr_left fun char _ => String.length_utf8EncodeChar char

theorem fromUtf8_eq_some {bytes : List UInt8} {text : List Char} :
    fromUtf8 bytes = some text ↔ utf8 text = bytes := by
  unfold fromUtf8 String.fromUTF8?
  constructor
  · intro read
    split at read
    · rename_i valid
      have same : (String.ofList text).toByteArray = bytes.toByteArray := by
        rw [← Option.some.inj read, String.ofList_toList]
        rfl
      rw [String.toByteArray_ofList] at same
      exact toByteArray_inj.mp same
    · cases read
  · rintro rfl
    rw [dif_pos (show (utf8 text).toByteArray.IsValidUTF8 from ByteArray.isValidUTF8_utf8Encode)]
    exact congrArg some String.toList_ofList

theorem utf8_injective : Function.Injective utf8 := by
  intro first second same
  have read := fromUtf8_eq_some.mpr same
  rw [fromUtf8_eq_some.mpr rfl] at read
  exact (Option.some.inj read).symm

end Lengths

section Splitting

variable {separator : Char} {text before after leading rest : List Char}

theorem stripText_eq_some : stripText leading text = some rest ↔ text = leading ++ rest := by
  unfold stripText
  constructor
  · intro stripped
    split at stripped
    · rename_i leads
      obtain ⟨tail, rfl⟩ := leads
      rw [drop_left] at stripped
      rw [Option.some.inj stripped]
    · cases stripped
  · rintro rfl
    rw [if_pos (prefix_append leading rest), drop_left]

theorem splitOnce_eq_none : splitOnce separator text = none ↔ separator ∉ text := by
  induction text with
  | nil => exact iff_of_true rfl not_mem_nil
  | cons char rest ih =>
    rw [splitOnce]
    split
    · rename_i same
      exact iff_of_false (fun none => by cases none) fun absent =>
        absent (same ▸ mem_cons_self)
    · rename_i different
      rw [Option.map_eq_none_iff, ih, mem_cons]
      exact ⟨fun absent present => present.elim (fun same => different same.symm) absent,
        fun absent present => absent (.inr present)⟩

theorem splitOnce_eq_some : splitOnce separator text = some (before, after) ↔
    text = before ++ separator :: after ∧ separator ∉ before := by
  induction text generalizing before with
  | nil =>
    refine iff_of_false (fun found => by cases found) ?_
    rintro ⟨empty, _⟩
    simp at empty
  | cons char rest ih =>
    rw [splitOnce]
    split
    · rename_i same
      subst same
      constructor
      · intro found
        cases found
        exact ⟨rfl, not_mem_nil⟩
      · rintro ⟨shape, absent⟩
        cases before with
        | nil =>
          rw [nil_append] at shape
          rw [(List.cons.inj shape).2]
        | cons first others =>
          rw [cons_append] at shape
          exact absurd ((List.cons.inj shape).1 ▸ mem_cons_self) absent
    · rename_i different
      rw [Option.map_eq_some_iff]
      constructor
      · rintro ⟨⟨first, last⟩, found, parts⟩
        cases parts
        obtain ⟨rfl, absent⟩ := ih.mp found
        refine ⟨rfl, fun present => ?_⟩
        rcases mem_cons.mp present with same | later
        · exact different same.symm
        · exact absent later
      · rintro ⟨shape, absent⟩
        cases before with
        | nil =>
          rw [nil_append] at shape
          exact absurd (List.cons.inj shape).1 different
        | cons first others =>
          rw [cons_append] at shape
          obtain ⟨rfl, restShape⟩ := List.cons.inj shape
          exact ⟨(others, after), ih.mpr ⟨restShape, fun present =>
            absent (mem_cons_of_mem char present)⟩, rfl⟩

theorem intercalate_cons (first : List Char) (others : List (List Char)) :
    [separator].intercalate (first :: others) = first ++ others.flatMap (separator :: ·) := by
  induction others generalizing first with
  | nil => simp
  | cons other later ih =>
    rw [intercalate_cons_cons, ih, flatMap_cons, append_assoc]
    rfl

theorem mem_intercalate {char : Char} {parts : List (List Char)}
    (member : char ∈ [separator].intercalate parts) :
    char = separator ∨ ∃ part ∈ parts, char ∈ part := by
  cases parts with
  | nil => cases member
  | cons first others =>
    rw [intercalate_cons] at member
    rcases mem_append.mp member with inFirst | inOthers
    · exact .inr ⟨first, mem_cons_self, inFirst⟩
    · obtain ⟨other, listed, inOther⟩ := mem_flatMap.mp inOthers
      rcases mem_cons.mp inOther with same | inside
      · exact .inl same
      · exact .inr ⟨other, mem_cons_of_mem first listed, inside⟩

theorem getLast?_intercalate_ne {first : List Char} {others : List (List Char)}
    (nonempty : ∀ part ∈ first :: others, part ≠ [])
    (absent : ∀ part ∈ first :: others, separator ∉ part) :
    ([separator].intercalate (first :: others)).getLast? ≠ some separator := by
  rw [intercalate_cons]
  induction others generalizing first with
  | nil =>
    intro last
    rw [flatMap_nil, append_nil] at last
    exact absent first mem_cons_self (mem_of_getLast? last)
  | cons other later ih =>
    have rest := ih
      (fun part member => nonempty part (mem_cons_of_mem first member))
      (fun part member => absent part (mem_cons_of_mem first member))
    have some_last : other ++ later.flatMap (separator :: ·) ≠ [] := fun empty =>
      nonempty other (mem_cons_of_mem first mem_cons_self)
        (append_eq_nil_iff.mp empty).1
    have shape : first ++ (other :: later).flatMap (separator :: ·) =
        (first ++ [separator]) ++ (other ++ later.flatMap (separator :: ·)) := by
      rw [flatMap_cons, append_assoc]
      rfl
    rw [shape, List.getLast?_append_of_ne_nil _ some_last]
    exact rest

end Splitting

section Canonical

variable {τ ε α β : Type}

def Canonical (parse : τ → Except ε α) (print : α → τ) (Valid : α → Prop) : Prop :=
  ∀ text value, parse text = .ok value ↔ print value = text ∧ Valid value

variable {parse : τ → Except ε α} {print : α → τ} {Valid : α → Prop}

theorem Canonical.print_eq_iff (canonical : Canonical parse print Valid) {first second : α}
    (firstValid : Valid first) (secondValid : Valid second) :
    first = second ↔ print first = print second := by
  constructor
  · exact congrArg print
  · intro same
    have readFirst := (canonical (print first) first).mpr ⟨rfl, firstValid⟩
    have readSecond := (canonical (print first) second).mpr ⟨same.symm, secondValid⟩
    rw [readFirst] at readSecond
    exact Except.ok.inj readSecond

theorem Canonical.text_unique (canonical : Canonical parse print Valid) {first second : τ}
    {value : α} (readFirst : parse first = .ok value) (readSecond : parse second = .ok value) :
    first = second := by
  rw [← ((canonical first value).mp readFirst).1, ← ((canonical second value).mp readSecond).1]

theorem mapM_eq_ok {read : τ → Except ε α} (reads : ∀ text value, read text = .ok value ↔
    print value = text) (texts : List τ) (values : List α) :
    texts.mapM read = .ok values ↔ values.map print = texts := by
  induction texts generalizing values with
  | nil =>
    rw [mapM_nil, map_eq_nil_iff]
    exact ⟨fun made => by cases made; rfl, fun empty => by rw [empty]; rfl⟩
  | cons text rest ih =>
    rw [mapM_cons, bind_eq_ok]
    constructor
    · rintro ⟨value, readText, later⟩
      obtain ⟨others, readRest, made⟩ := bind_eq_ok.mp later
      cases made
      rw [map_cons, (reads text value).mp readText, (ih others).mp readRest]
    · intro printed
      cases values with
      | nil => cases printed
      | cons value others =>
        obtain ⟨printedText, printedRest⟩ := List.cons.inj printed
        exact ⟨value, (reads text value).mpr printedText, bind_eq_ok.mpr
          ⟨others, (ih others).mpr printedRest, rfl⟩⟩

end Canonical

def hexDigits : List Char :=
  ['0', '1', '2', '3', '4', '5', '6', '7', '8', '9', 'a', 'b', 'c', 'd', 'e', 'f']

def hexDigit (nibble : Nat) : Char := hexDigits.getD nibble '0'

def isHexDigit (char : Char) : Bool := char.isDigit || (decide ('a' ≤ char) && decide (char ≤ 'f'))

/-- Two digits for each byte, the high half first. -/
def hexText (bytes : List UInt8) : List Char :=
  bytes.flatMap fun (byte : UInt8) => [hexDigit (byte >>> 4).toNat, hexDigit (byte &&& 0x0f).toNat]

/-- The value of a digit, and zero for any other character. -/
def hexNibble (char : Char) : UInt8 :=
  if char.isDigit then UInt8.ofNat (char.toNat - 48)
  else if 'a' ≤ char ∧ char ≤ 'f' then UInt8.ofNat (char.toNat - 97 + 10)
  else 0

/-- One byte for each pair of digits. -/
def hexBytes : List Char → List UInt8
  | high :: low :: rest => ((hexNibble high <<< 4) ||| hexNibble low) :: hexBytes rest
  | _ => []

section Hex

theorem hexText_length (bytes : List UInt8) : (hexText bytes).length = 2 * bytes.length := by
  induction bytes with
  | nil => rfl
  | cons byte rest ih =>
    have cons : (hexText (byte :: rest)).length = (hexText rest).length + 2 := rfl
    rw [cons, ih, length_cons]
    omega

theorem hexBytes_length (text : List Char) : (hexBytes text).length = text.length / 2 := by
  induction text using hexBytes.induct with
  | case1 high low rest ih =>
    rw [hexBytes, length_cons, ih, length_cons, length_cons]
    omega
  | case2 text short =>
    match text with
    | [] => rfl
    | [single] => simp [hexBytes]
    | high :: low :: rest => exact absurd rfl (short high low rest)

theorem isAscii_of_isHexDigit {char : Char} (digit : isHexDigit char = true) :
    char.toNat < 128 := by
  simp only [isHexDigit, Char.isDigit, Bool.or_eq_true, Bool.and_eq_true, decide_eq_true_eq] at digit
  rcases digit with ⟨_, high⟩ | ⟨_, high⟩
  · have bound : char.val.toNat ≤ 57 := high
    exact Nat.lt_of_le_of_lt bound (by decide)
  · have bound : char.val.toNat ≤ 102 := high
    exact Nat.lt_of_le_of_lt bound (by decide)

theorem mem_hexDigits {char : Char} (digit : isHexDigit char = true) : char ∈ hexDigits := by
  have all : ∀ n : Fin 128, isHexDigit (Char.ofNat n.val) = true →
      Char.ofNat n.val ∈ hexDigits := by
    decide
  have here := all ⟨char.toNat, isAscii_of_isHexDigit digit⟩
  rw [Char.ofNat_toNat] at here
  exact here digit

theorem hexNibble_hexDigit (byte : UInt8) :
    (hexNibble (hexDigit (byte >>> 4).toNat) <<< 4) |||
      hexNibble (hexDigit (byte &&& 0x0f).toNat) = byte := by
  have all : ∀ n : Fin 256, (hexNibble (hexDigit (UInt8.ofNat n.val >>> 4).toNat) <<< 4) |||
      hexNibble (hexDigit (UInt8.ofNat n.val &&& 0x0f).toNat) = UInt8.ofNat n.val := by
    decide +kernel
  have here := all ⟨byte.toNat, byte.toNat_lt⟩
  rwa [UInt8.ofNat_toNat] at here

theorem hexDigit_hexNibble : ∀ high ∈ hexDigits, ∀ low ∈ hexDigits,
    [hexDigit (((hexNibble high <<< 4) ||| hexNibble low) >>> 4).toNat,
      hexDigit (((hexNibble high <<< 4) ||| hexNibble low) &&& 0x0f).toNat] = [high, low] := by
  have all : (hexDigits.all fun high => hexDigits.all fun low => decide
      ([hexDigit (((hexNibble high <<< 4) ||| hexNibble low) >>> 4).toNat,
        hexDigit (((hexNibble high <<< 4) ||| hexNibble low) &&& 0x0f).toNat] = [high, low])) =
      true := by
    decide +kernel
  intro high highDigit low lowDigit
  exact of_decide_eq_true (all_eq_true.mp (all_eq_true.mp all high highDigit) low lowDigit)

theorem hexBytes_hexText (bytes : List UInt8) : hexBytes (hexText bytes) = bytes := by
  induction bytes with
  | nil => rfl
  | cons byte rest ih =>
    have cons : hexBytes (hexText (byte :: rest)) =
        ((hexNibble (hexDigit (byte >>> 4).toNat) <<< 4) |||
          hexNibble (hexDigit (byte &&& 0x0f).toNat)) :: hexBytes (hexText rest) := rfl
    rw [cons, hexNibble_hexDigit, ih]

theorem hexText_hexBytes {text : List Char} (digits : ∀ char ∈ text, isHexDigit char = true)
    (even : text.length % 2 = 0) : hexText (hexBytes text) = text := by
  induction text using hexBytes.induct with
  | case1 high low rest ih =>
    have spelled := hexDigit_hexNibble high (mem_hexDigits (digits high mem_cons_self)) low
      (mem_hexDigits (digits low (mem_cons_of_mem high mem_cons_self)))
    have later := ih
      (fun char member => digits char (mem_cons_of_mem high (mem_cons_of_mem low member)))
      (by rw [length_cons, length_cons] at even; omega)
    rw [hexBytes, hexText, flatMap_cons, spelled]
    exact congrArg (fun tail => high :: low :: tail) later
  | case2 text short =>
    match text with
    | [] => rfl
    | [single] =>
      rw [length_singleton] at even
      exact absurd even (by decide)
    | high :: low :: rest => exact absurd rfl (short high low rest)

theorem isHexDigit_hexDigit (nibble : Nat) : isHexDigit (hexDigit nibble) = true := by
  by_cases small : nibble < 16
  · have all : ∀ n : Fin 16, isHexDigit (hexDigit n.val) = true := by decide
    exact all ⟨nibble, small⟩
  · have outside : hexDigits[nibble]? = none := List.getElem?_eq_none (Nat.not_lt.mp small)
    rw [hexDigit, getD_eq_getElem?_getD, outside]
    decide

theorem isHexDigit_hexText (bytes : List UInt8) : ∀ char ∈ hexText bytes, isHexDigit char = true := by
  intro char member
  obtain ⟨byte, _, inPair⟩ := mem_flatMap.mp member
  rcases mem_cons.mp inPair with rfl | inSingle
  · exact isHexDigit_hexDigit _
  · rw [mem_singleton.mp inSingle]
    exact isHexDigit_hexDigit _

end Hex

/-- The code points with the Unicode property `White_Space`. -/
def whitespacePoints : List Nat :=
  [0x09, 0x0A, 0x0B, 0x0C, 0x0D, 0x20, 0x85, 0xA0, 0x1680, 0x2000, 0x2001, 0x2002, 0x2003, 0x2004,
    0x2005, 0x2006, 0x2007, 0x2008, 0x2009, 0x200A, 0x2028, 0x2029, 0x202F, 0x205F, 0x3000]

def isWhitespace (char : Char) : Bool := whitespacePoints.contains char.toNat

def trim (text : List Char) : List Char := (text.dropWhile isWhitespace).rdropWhile isWhitespace

/-- A line without the carriage return before its line feed. -/
def stripReturn (line : List Char) : List Char :=
  if line.getLast? = some '\r' then line.dropLast else line

/-- `lines`: a last line without line feed is taken as it stands, and none stands
behind the last line feed. -/
def lines (text : List Char) : List (List Char) :=
  let pieces := text.splitOn '\n'
  pieces.dropLast.map stripReturn ++ (pieces.getLast?.filter (· ≠ [])).toList

end Foundation
