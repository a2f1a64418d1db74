import Rvm.Anchor.Document
import Rvm.Foundation.Numerals

/-!
Owns how the parser reads tokens: whitespace is skipped, a number is read from the
text of its value and from no other, and a string token from each of its spellings.
-/

namespace Rvm.Anchor

open Foundation List Option

variable {text rest : List Char}

theorem skipWs_gap (gap : Gap) : skipWs (gap.text ++ rest) = skipWs rest :=
  dropWhile_append_of_pos gap.blank

variable {char : Char} {negative : Bool} {digits : List Char} {value : Int64} {unit : Nat}

theorem skipWs_cons (token : isWs char = false) : skipWs (char :: rest) = char :: rest := by
  rw [skipWs, dropWhile_cons_of_neg (by simp [token])]

theorem gap_skipWs (text : List Char) : ∃ gap : Gap, text = gap.text ++ skipWs text :=
  ⟨⟨text.takeWhile isWs, fun _ member => mem_takeWhile_imp member⟩, takeWhile_append_dropWhile.symm⟩

theorem skipWs_length (text : List Char) : (skipWs text).length ≤ text.length :=
  (dropWhile_suffix isWs).length_le

/-- What may stand after a value: the end of the text, whitespace or punctuation. -/
def Ends (rest : List Char) : Prop :=
  ∀ char, rest.head? = some char → isWs char = true ∨ char = ',' ∨ char = ']' ∨ char = '}'

theorem Ends.nil : Ends [] := nofun

theorem Ends.gap (gap : Gap) (ends : Ends rest) : Ends (gap.text ++ rest) := by
  intro char head
  cases shape : gap.text with
  | nil => exact ends char (by simpa [shape] using head)
  | cons first others =>
    rw [shape] at head
    have first_eq : first = char := by simpa using head
    exact .inl (gap.blank char (by simp [shape, first_eq]))

theorem Ends.no_digit (ends : Ends rest) (head : rest.head? = some char) :
    char.isDigit = false ∧ char ≠ '.' ∧ char ≠ 'e' ∧ char ≠ 'E' := by
  rcases ends char head with blank | rfl | rfl | rfl
  · simp only [isWs, Bool.or_eq_true, decide_eq_true_eq] at blank
    rcases blank with ((rfl | rfl) | rfl) | rfl <;> decide
  all_goals decide

theorem parseI64_digits (value : Int64) :
    parseI64 (value.toInt < 0) (Nat.toDigits 10 value.toInt.natAbs) = some value := by
  have below := value.toInt_lt
  have above := value.le_toInt
  have signed : (if decide (value.toInt < 0) = true then -(value.toInt.natAbs : Int)
      else (value.toInt.natAbs : Int)) = value.toInt := by
    split <;> rename_i sign <;> rw [decide_eq_true_eq] at sign <;> omega
  unfold parseI64
  simp only [Nat.ofDigitChars_ten_toDigits, signed]
  rw [if_pos ⟨above, below⟩, Int64.ofInt_toInt]

theorem parseI64_toInt (parsed : parseI64 negative digits = some value) :
    value.toInt = if negative then -(Nat.ofDigitChars 10 digits 0 : Int)
      else Nat.ofDigitChars 10 digits 0 := by
  unfold parseI64 at parsed
  dsimp only at parsed
  rw [ite_none_right_eq_some] at parsed
  obtain ⟨⟨above, below⟩, same⟩ := parsed
  rw [← some.inj same, Int64.toInt_ofInt_of_le above below]

theorem displayInt_parseI64 (numeral : Numeral digits)
    (notMinusZero : ¬ (negative = true ∧ digits = ['0']))
    (parsed : parseI64 negative digits = some value) :
    displayInt value = if negative then '-' :: digits else digits := by
  have spelled := numeral.toDigits_ofDigitChars
  have toInt := parseI64_toInt parsed
  unfold displayInt
  cases negative with
  | false =>
    have natural : value.toInt = (Nat.ofDigitChars 10 digits 0 : Int) := toInt
    rw [natural, if_neg (by omega), Int.natAbs_natCast, spelled]
    rfl
  | true =>
    have negated : value.toInt = -(Nat.ofDigitChars 10 digits 0 : Int) := toInt
    have positive : Nat.ofDigitChars 10 digits 0 ≠ 0 := by
      intro zero
      rw [zero, Nat.toDigits_zero] at spelled
      exact notMinusZero ⟨rfl, spelled.symm⟩
    rw [negated, if_pos (by omega), Int.natAbs_neg, Int.natAbs_natCast, spelled]
    rfl

theorem displayInt_head (value : Int64) :
    ∃ char others, displayInt value = char :: others ∧ (char = '-' ∨ char.isDigit = true) := by
  have numeral := Numeral.toDigits value.toInt.natAbs
  unfold displayInt
  split
  · exact ⟨_, _, rfl, .inl rfl⟩
  · obtain ⟨char, others, shape⟩ := exists_cons_of_ne_nil numeral.nonempty
    exact ⟨char, others, shape, .inr (numeral.digit char (by simp [shape]))⟩

theorem digits_span (numeral : Numeral digits) (ends : Ends rest) :
    (digits ++ rest).takeWhile Char.isDigit = digits ∧
      (digits ++ rest).dropWhile Char.isDigit = rest := by
  rw [takeWhile_append_of_pos numeral.digit, dropWhile_append_of_pos numeral.digit]
  cases rest with
  | nil => simp
  | cons char others => simp [(ends.no_digit rfl).1]

theorem parseDigits_toDigits (numeral : Numeral digits)
    (notMinusZero : ¬ (negative = true ∧ digits = ['0']))
    (read : parseI64 negative digits = some value) (ends : Ends rest) :
    parseDigits negative (digits ++ rest) = .ok (.int value, rest) := by
  obtain ⟨taken, remaining⟩ := digits_span numeral ends
  have continues : ¬ (rest.head? = some '.' ∨ rest.head? = some 'e' ∨ rest.head? = some 'E') := by
    rintro (head | head | head) <;> simpa using ends.no_digit head
  have leading : ¬ (digits.head? = some '0' ∧ digits.length > 1) := by
    rintro ⟨zero, long⟩
    rw [numeral.leading zero] at long
    simp at long
  unfold parseDigits
  simp only [taken, remaining, if_neg numeral.nonempty, if_neg leading, if_neg continues,
    if_neg notMinusZero, read]

theorem parseNumber_displayInt (value : Int64) (ends : Ends rest) :
    parseNumber (displayInt value ++ rest) = .ok (.int value, rest) := by
  have numeral := Numeral.toDigits value.toInt.natAbs
  have read := parseI64_digits value
  unfold parseNumber displayInt
  by_cases negative : value.toInt < 0
  · have notZero : Nat.toDigits 10 value.toInt.natAbs ≠ ['0'] := by
      intro zero
      have same := congrArg (Nat.ofDigitChars 10 · 0) zero
      rw [Nat.ofDigitChars_ten_toDigits] at same
      have : value.toInt.natAbs = 0 := same
      omega
    rw [decide_eq_true negative] at read
    rw [if_pos negative, cons_append, List.head?_cons, if_pos rfl]
    exact parseDigits_toDigits numeral (fun minusZero => notZero minusZero.2) read ends
  · obtain ⟨char, others, shape⟩ := exists_cons_of_ne_nil numeral.nonempty
    have unsigned : (Nat.toDigits 10 value.toInt.natAbs ++ rest).head? ≠ some '-' := by
      have digit := numeral.digit char (by simp [shape])
      rw [shape]
      rintro head
      rw [some.inj head] at digit
      simp at digit
    rw [decide_eq_false negative] at read
    rw [if_neg negative, if_neg unsigned]
    exact parseDigits_toDigits numeral (fun minusZero => nomatch minusZero.1) read ends

theorem parseDigits_sound {value : Json} (parsed : parseDigits negative text = .ok (value, rest)) :
    ∃ number, value = .int number ∧
      (if negative then '-' :: text else text) = displayInt number ++ rest := by
  unfold parseDigits at parsed
  simp only at parsed
  split at parsed
  case isTrue => cases parsed
  case isFalse nonempty =>
  split at parsed
  case isTrue => cases parsed
  case isFalse leading =>
  split at parsed
  case isTrue => cases parsed
  case isFalse =>
  split at parsed
  case isTrue => cases parsed
  case isFalse notMinusZero =>
  split at parsed
  case h_2 => cases parsed
  case h_1 number read =>
  cases parsed
  have numeral : Numeral (text.takeWhile Char.isDigit) := by
    refine ⟨nonempty, fun _ member => mem_takeWhile_imp member, fun zero => ?_⟩
    obtain ⟨char, others, shape⟩ := exists_cons_of_ne_nil nonempty
    rw [shape] at zero leading ⊢
    cases others with
    | nil => rw [some.inj zero]
    | cons => exact absurd ⟨zero, by simp⟩ leading
  refine ⟨number, rfl, ?_⟩
  rw [displayInt_parseI64 numeral notMinusZero read]
  split <;> simp [takeWhile_append_dropWhile]

theorem parseNumber_sound {value : Json} (parsed : parseNumber text = .ok (value, rest)) :
    ∃ number, value = .int number ∧ text = displayInt number ++ rest := by
  unfold parseNumber at parsed
  split at parsed
  case isTrue negative =>
    obtain ⟨number, value_eq, spelled⟩ := parseDigits_sound parsed
    refine ⟨number, value_eq, ?_⟩
    rw [← spelled, if_pos rfl]
    exact (cons_head?_tail negative).symm
  case isFalse => simpa using parseDigits_sound parsed

theorem parseHexDigits_eq_ok {count value : Nat} :
    parseHexDigits count value text = .ok (unit, rest) ↔
      ∃ digits values, text = digits ++ rest ∧ digits.length = count ∧
        digits.mapM hexDigit? = some values ∧
        values.foldl (fun value digit => value * 16 + digit) value = unit := by
  induction count generalizing value text with
  | zero =>
    constructor
    · intro parsed
      cases parsed
      exact ⟨[], [], rfl, rfl, rfl, rfl⟩
    · rintro ⟨digits, values, rfl, empty, reads, rfl⟩
      obtain rfl := eq_nil_of_length_eq_zero empty
      cases reads
      rfl
  | succ count ih =>
    constructor
    · intro parsed
      cases text with
      | nil => cases parsed
      | cons char others =>
        unfold parseHexDigits at parsed
        split at parsed
        case h_2 => cases parsed
        case h_1 digit read =>
          obtain ⟨digits, values, shape, length, reads, folded⟩ :=
            ih.mp parsed
          exact ⟨char :: digits, digit :: values, by rw [shape]; rfl, by simp [length],
            by simp [read, reads], folded⟩
    · rintro ⟨digits, values, rfl, length, reads, rfl⟩
      obtain ⟨char, others, rfl⟩ := exists_cons_of_length_eq_add_one length
      rw [mapM_cons] at reads
      obtain ⟨digit, read, reads⟩ := bind_eq_some_iff.mp reads
      obtain ⟨later, readOthers, same⟩ := bind_eq_some_iff.mp reads
      obtain rfl := some.inj same
      unfold parseHexDigits
      simp only [cons_append, read]
      exact ih.mpr
        ⟨others, later, rfl, Nat.succ.inj length, readOthers, rfl⟩

theorem parseHex4_eq_ok : parseHex4 text = .ok (unit, rest) ↔
    ∃ digits, text = digits ++ rest ∧ hexUnit? digits = some unit := by
  unfold parseHex4 hexUnit?
  rw [parseHexDigits_eq_ok]
  constructor
  · rintro ⟨digits, values, shape, length, reads, folded⟩
    exact ⟨digits, shape, by rw [if_pos length, reads, map_some, folded]⟩
  · rintro ⟨digits, shape, found⟩
    rw [ite_none_right_eq_some, map_eq_some_iff] at found
    obtain ⟨length, values, reads, folded⟩ := found
    exact ⟨digits, values, shape, length, reads, folded⟩

theorem hexDigit?_lt {digit : Nat} (read : hexDigit? char = some digit) : digit < 16 := by
  unfold hexDigit? at read
  simp only [Char.le_def, UInt32.le_iff_toNat_le, Char.toNat_val] at read
  split at read
  case isTrue range =>
    rw [← some.inj read]
    simp at range ⊢
    omega
  split at read
  case isTrue range =>
    rw [← some.inj read]
    simp at range ⊢
    omega
  split at read
  case isTrue range =>
    rw [← some.inj read]
    simp at range ⊢
    omega
  cases read

theorem hexDigits_lt {values : List Nat} (value : Nat)
    (reads : digits.mapM hexDigit? = some values) :
    values.foldl (fun value digit => value * 16 + digit) value <
      (value + 1) * 16 ^ digits.length := by
  induction digits generalizing value values with
  | nil =>
    cases reads
    simp
  | cons char others ih =>
    rw [mapM_cons] at reads
    obtain ⟨digit, read, reads⟩ := bind_eq_some_iff.mp reads
    obtain ⟨later, readOthers, same⟩ := bind_eq_some_iff.mp reads
    obtain rfl := some.inj same
    have bound := ih (value * 16 + digit) readOthers
    have small := hexDigit?_lt read
    rw [foldl_cons, length_cons, Nat.pow_succ', ← Nat.mul_assoc]
    exact Nat.lt_of_lt_of_le bound (Nat.mul_le_mul_right _ (by omega))

theorem hexUnit?_lt (reads : hexUnit? digits = some unit) : unit < 0x10000 := by
  unfold hexUnit? at reads
  rw [ite_none_right_eq_some, map_eq_some_iff] at reads
  obtain ⟨length, values, reads, rfl⟩ := reads
  simpa [length] using hexDigits_lt 0 reads

theorem charFromU32_eq_some {code : Nat} : charFromU32 code = some char ↔ char.toNat = code := by
  unfold charFromU32
  constructor
  · intro found
    by_cases valid : code.isValidChar
    · rw [dif_pos valid] at found
      exact congrArg Char.toNat (some.inj found).symm
    · rw [dif_neg valid] at found
      cases found
  · rintro rfl
    rw [dif_pos (show char.toNat.isValidChar from char.valid)]
    exact congrArg some (Char.ext rfl)

theorem charFor_eq_ok {code : Nat} {others : List Char} :
    charFor code rest = .ok (char, others) ↔ char.toNat = code ∧ others = rest := by
  unfold charFor
  rw [← charFromU32_eq_some]
  split
  case h_1 found read => simp [read, eq_comm]
  case h_2 read => simp [read]

theorem toNat_valid (char : Char) :
    char.toNat < 0xD800 ∨ 0xDFFF < char.toNat ∧ char.toNat < 0x110000 := char.valid

theorem utf16Units_eq_one : utf16Units char = [unit] ↔ char.toNat = unit ∧ unit < 0x10000 := by
  unfold utf16Units
  split <;> simp_all <;> omega

theorem utf16Units_eq_two {high low : Nat} : utf16Units char = [high, low] ↔
    isHighSurrogate high = true ∧ isLowSurrogate low = true ∧
      char.toNat = 0x10000 + (high - 0xD800) * 0x400 + (low - 0xDC00) := by
  have valid := toNat_valid char
  unfold utf16Units isHighSurrogate isLowSurrogate
  split <;> simp_all <;> omega

theorem parseUnicodeEscape_eq_ok :
    parseUnicodeEscape text = .ok (char, rest) ↔
      (∃ digits unit, text = digits ++ rest ∧ hexUnit? digits = some unit ∧
        utf16Units char = [unit]) ∨
      ∃ highDigits lowDigits high low, text = highDigits ++ '\\' :: 'u' :: lowDigits ++ rest ∧
        hexUnit? highDigits = some high ∧ hexUnit? lowDigits = some low ∧
        utf16Units char = [high, low] := by
  unfold parseUnicodeEscape
  constructor
  · intro parsed
    obtain ⟨⟨unit, afterUnit⟩, readUnit, unitRead⟩ := bind_eq_ok.mp parsed
    obtain ⟨digits, rfl, reads⟩ := parseHex4_eq_ok.mp readUnit
    simp only at unitRead
    split at unitRead
    case isTrue high =>
      split at unitRead
      case h_2 => cases unitRead
      case h_1 afterPrefix stripped =>
        obtain ⟨⟨low, afterLow⟩, readLow, lowRead⟩ := bind_eq_ok.mp unitRead
        obtain ⟨lowDigits, rfl, readsLow⟩ := parseHex4_eq_ok.mp readLow
        simp only at lowRead
        split at lowRead
        case isFalse => cases lowRead
        case isTrue isLow =>
          obtain ⟨code, rfl⟩ := charFor_eq_ok.mp lowRead
          refine .inr ⟨digits, lowDigits, unit, low, ?_, reads, readsLow,
            utf16Units_eq_two.mpr ⟨high, isLow, code⟩⟩
          rw [stripText_eq_some.mp stripped]
          simp
    case isFalse =>
      split at unitRead
      case isTrue => cases unitRead
      case isFalse =>
        obtain ⟨code, rfl⟩ := charFor_eq_ok.mp unitRead
        exact .inl ⟨digits, unit, rfl, reads, utf16Units_eq_one.mpr ⟨code, hexUnit?_lt reads⟩⟩
  · rintro (⟨digits, unit, rfl, reads, encodes⟩ |
      ⟨highDigits, lowDigits, high, low, rfl, readsHigh, readsLow, encodes⟩)
    · obtain ⟨code, small⟩ := utf16Units_eq_one.mp encodes
      have valid := toNat_valid char
      have notHigh : isHighSurrogate unit = false := by
        simp [isHighSurrogate]
        omega
      have notLow : isLowSurrogate unit = false := by
        simp [isLowSurrogate]
        omega
      refine bind_eq_ok.mpr ⟨(unit, rest), parseHex4_eq_ok.mpr ⟨digits, rfl, reads⟩, ?_⟩
      simp only [notHigh, notLow]
      exact charFor_eq_ok.mpr ⟨code, rfl⟩
    · obtain ⟨isHigh, isLow, code⟩ := utf16Units_eq_two.mp encodes
      have stripped : stripText ['\\', 'u'] ('\\' :: 'u' :: lowDigits ++ rest) =
          some (lowDigits ++ rest) := stripText_eq_some.mpr rfl
      refine bind_eq_ok.mpr ⟨(high, '\\' :: 'u' :: lowDigits ++ rest),
        parseHex4_eq_ok.mpr ⟨highDigits, by simp, readsHigh⟩, ?_⟩
      simp only [isHigh, if_true, stripped]
      refine bind_eq_ok.mpr ⟨(low, rest), parseHex4_eq_ok.mpr ⟨lowDigits, rfl, readsLow⟩, ?_⟩
      simp only [isLow, if_true]
      exact charFor_eq_ok.mpr ⟨code, rfl⟩

theorem parseEscape_eq_ok : parseEscape text = .ok (char, rest) ↔
    ∃ spelled, text = spelled ++ rest ∧ Spells ('\\' :: spelled) char := by
  constructor
  · intro parsed
    cases text with
    | nil => cases parsed
    | cons letter others =>
      rw [parseEscape] at parsed
      split at parsed
      case h_1 found short =>
        cases parsed
        exact ⟨[letter], rfl, .short short⟩
      case h_2 =>
        split at parsed
        case isFalse => cases parsed
        case isTrue isU =>
          subst isU
          rcases parseUnicodeEscape_eq_ok.mp parsed with
            ⟨digits, unit, rfl, reads, encodes⟩ |
            ⟨highDigits, lowDigits, high, low, rfl, readsHigh, readsLow, encodes⟩
          · exact ⟨'u' :: digits, rfl, .unit reads encodes⟩
          · exact ⟨'u' :: highDigits ++ '\\' :: 'u' :: lowDigits, by simp,
              .pair readsHigh readsLow encodes⟩
  · rintro ⟨spelled, rfl, spells⟩
    generalize whole : '\\' :: spelled = all at spells
    cases spells with
    | plain _ backslash => exact absurd (List.cons.inj whole).1.symm backslash
    | short short =>
      obtain rfl := (List.cons.inj whole).2
      simp [parseEscape, short]
    | unit reads encodes =>
      obtain rfl := (List.cons.inj whole).2
      exact parseUnicodeEscape_eq_ok.mpr (.inl ⟨_, _, rfl, reads, encodes⟩)
    | pair readsHigh readsLow encodes =>
      obtain rfl := (List.cons.inj whole).2
      exact parseUnicodeEscape_eq_ok.mpr
        (.inr ⟨_, _, _, _, by simp, readsHigh, readsLow, encodes⟩)

theorem parseStringLoop_piece (piece : Piece) (fuel : Nat) (out : List Char) :
    parseStringLoop (fuel + 1) out (piece.text ++ rest) =
      parseStringLoop fuel (out ++ [piece.char]) rest := by
  obtain ⟨spelled, char, spells⟩ := piece
  by_cases escaped : ∃ others, spelled = '\\' :: others
  · obtain ⟨others, rfl⟩ := escaped
    have read : parseEscape (others ++ rest) = .ok (char, rest) :=
      parseEscape_eq_ok.mpr ⟨others, rfl, spells⟩
    rw [cons_append, parseStringLoop, if_neg (by decide), if_pos rfl, read]
    rfl
  · cases spells with
    | plain quote backslash control =>
      rw [cons_append, parseStringLoop, if_neg quote, if_neg backslash, if_neg control]
      rfl
    | short | unit | pair => exact absurd ⟨_, rfl⟩ escaped

theorem parseStringLoop_pieces (pieces : List Piece) {fuel : Nat} (out : List Char)
    (enough : pieces.length < fuel) :
    parseStringLoop fuel out (pieces.flatMap Piece.text ++ '"' :: rest) =
      .ok (out ++ pieces.map Piece.char, rest) := by
  obtain ⟨fuel, rfl⟩ : ∃ more, fuel = more + 1 := ⟨fuel - 1, by omega⟩
  induction pieces generalizing fuel out with
  | nil => simp [parseStringLoop]
  | cons piece others ih =>
    obtain ⟨more, rfl⟩ : ∃ more, fuel = more + 1 := ⟨fuel - 1, by simp at enough; omega⟩
    rw [flatMap_cons, append_assoc, parseStringLoop_piece, ih _ more (by simpa using enough)]
    simp

theorem parseStringLoop_sound {fuel : Nat} {out string : List Char}
    (parsed : parseStringLoop fuel out text = .ok (string, rest)) :
    ∃ pieces : List Piece, text = pieces.flatMap Piece.text ++ '"' :: rest ∧
      string = out ++ pieces.map Piece.char := by
  induction fuel generalizing text out with
  | zero => cases parsed
  | succ fuel ih =>
    cases text with
    | nil => cases parsed
    | cons char others =>
      unfold parseStringLoop at parsed
      split at parsed
      case isTrue quote =>
        cases parsed
        exact ⟨[], by rw [quote]; rfl, (append_nil _).symm⟩
      case isFalse quote =>
        split at parsed
        case isTrue backslash =>
          obtain ⟨⟨escaped, afterEscape⟩, readEscape, later⟩ := bind_eq_ok.mp parsed
          obtain ⟨spelled, rfl, spells⟩ := parseEscape_eq_ok.mp readEscape
          obtain ⟨pieces, rfl, rfl⟩ := ih later
          subst backslash
          exact ⟨⟨_, _, spells⟩ :: pieces, by simp, by simp⟩
        case isFalse backslash =>
          split at parsed
          case isTrue => cases parsed
          case isFalse control =>
            obtain ⟨pieces, rfl, rfl⟩ := ih parsed
            exact ⟨⟨_, _, .plain quote backslash control⟩ :: pieces, by simp, by simp⟩

theorem pieces_length (pieces : List Piece) :
    pieces.length ≤ (pieces.flatMap Piece.text).length := by
  induction pieces with
  | nil => exact Nat.le_refl 0
  | cons piece others ih =>
    have positive : 0 < piece.text.length := by
      obtain ⟨spelled, char, spells⟩ := piece
      cases spells <;> simp
    rw [flatMap_cons, length_append, length_cons]
    omega

theorem parseString_token (pieces : List Piece) :
    parseString ((stringToken pieces ++ rest).tail) = .ok (pieces.map Piece.char, rest) := by
  have tail : (stringToken pieces ++ rest).tail = pieces.flatMap Piece.text ++ '"' :: rest := by
    simp [stringToken]
  have enough := pieces_length pieces
  rw [tail, parseString, parseStringLoop_pieces pieces [] (by
    rw [length_append]
    omega), nil_append]

theorem parseString_sound {string : List Char} (parsed : parseString text = .ok (string, rest)) :
    ∃ pieces, '"' :: text = stringToken pieces ++ rest ∧ string = pieces.map Piece.char := by
  obtain ⟨pieces, rfl, rfl⟩ := parseStringLoop_sound parsed
  exact ⟨pieces, by simp [stringToken], nil_append _⟩

end Rvm.Anchor
