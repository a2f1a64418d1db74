import Mathlib.Data.List.Basic
import Mathlib.Data.List.Induction

/-!
Owns numerals: unsigned LEB128 as a relation between bytes and numbers (seven bits a byte,
lowest first, and the high bit set in every byte but the last), and decimal numerals as
texts, the digits that number one value and no other.
-/

namespace Foundation

/-- These bytes are a number; encodings longer than needed count. -/
inductive Leb128 : List UInt8 → Nat → Prop
  | last {byte : UInt8} : byte.toNat < 128 → Leb128 [byte] byte.toNat
  | more {byte : UInt8} {rest : List UInt8} {value : Nat} : 128 ≤ byte.toNat →
      Leb128 rest value → Leb128 (byte :: rest) (byte.toNat - 128 + 128 * value)

namespace Leb128

variable {first second left right rest : List UInt8} {value other : Nat} {byte : UInt8}

theorem ne_nil (encodes : Leb128 first value) : first ≠ [] := by
  cases encodes <;> nofun

theorem length_pos (encodes : Leb128 first value) : 0 < first.length :=
  List.length_pos_of_ne_nil encodes.ne_nil

/-- Where a number ends is told by its own bytes. -/
theorem unique (encodes : Leb128 first value) (again : Leb128 second other)
    (same : first ++ left = second ++ right) : first = second ∧ value = other ∧ left = right := by
  induction encodes generalizing second other with
  | @last byte small =>
    cases again with
    | last _ =>
      obtain ⟨rfl, rfl⟩ := List.cons.inj same
      exact ⟨rfl, rfl, rfl⟩
    | more large _ =>
      obtain ⟨rfl, _⟩ := List.cons.inj same
      omega
  | @more byte rest value large _ ih =>
    cases again with
    | last small =>
      obtain ⟨rfl, _⟩ := List.cons.inj same
      omega
    | more _ later =>
      obtain ⟨rfl, sameRest⟩ := List.cons.inj same
      obtain ⟨rfl, rfl, rfl⟩ := ih later sameRest
      exact ⟨rfl, rfl, rfl⟩

end Leb128

/-- Digits that no shorter numeral of the same value drops. -/
structure Numeral (digits : List Char) : Prop where
  nonempty : digits ≠ []
  digit : ∀ char ∈ digits, char.isDigit = true
  leading : digits.head? = some '0' → digits = ['0']

theorem digitChar_of_isDigit {char : Char} (digit : char.isDigit = true) :
    char.toNat - '0'.toNat < 10 ∧ Nat.digitChar (char.toNat - '0'.toNat) = char := by
  have bounds : 48 ≤ char.toNat ∧ char.toNat ≤ 57 := by
    simpa [Char.isDigit, UInt32.le_iff_toNat_le] using digit
  refine ⟨by simp; omega, ?_⟩
  rw [← Char.toNat_inj, Nat.toNat_digitChar_of_lt_ten (by simp; omega)]
  simp
  omega

namespace Numeral

variable {digits : List Char}

theorem toDigits (value : Nat) : Numeral (Nat.toDigits 10 value) where
  nonempty := Nat.toDigits_ne_nil
  digit char member := Nat.isDigit_of_mem_toDigits (by decide) (by decide) member
  leading := by
    induction value using Nat.strongRecOn with
    | ind value ih =>
      intro zero
      by_cases small : value < 10
      · rw [Nat.toDigits_of_lt_base small] at zero ⊢
        rw [Option.some.inj zero]
      · exfalso
        rw [Nat.toDigits_of_base_le (by decide) (Nat.le_of_not_lt small), List.head?_append,
          Option.or_of_isSome (by simp)] at zero
        have shorter := ih (value / 10) (by omega) zero
        have same := congrArg (Nat.ofDigitChars 10 · 0) shorter
        rw [Nat.ofDigitChars_ten_toDigits] at same
        have : value / 10 = 0 := same
        omega

theorem toDigits_ofDigitChars (numeral : Numeral digits) :
    Nat.toDigits 10 (Nat.ofDigitChars 10 digits 0) = digits := by
  induction digits using List.reverseRecOn with
  | nil => exact absurd rfl numeral.nonempty
  | append_singleton front last ih =>
    obtain ⟨small, spelled⟩ := digitChar_of_isDigit (numeral.digit last (by simp))
    have last_eq : Nat.ofDigitChars 10 (front ++ [last]) 0 =
        10 * Nat.ofDigitChars 10 front 0 + (last.toNat - '0'.toNat) := by
      rw [Nat.ofDigitChars_append, Nat.ofDigitChars_cons, Nat.ofDigitChars_nil]
    rw [last_eq]
    cases front with
    | nil =>
      rw [Nat.ofDigitChars_nil, Nat.mul_zero, Nat.zero_add, Nat.toDigits_of_lt_base small,
        spelled, List.nil_append]
    | cons first middle =>
      have notZero : first ≠ '0' := by
        rintro rfl
        simpa using numeral.leading rfl
      have shorter : Numeral (first :: middle) :=
        ⟨List.cons_ne_nil _ _, 
          fun char member => numeral.digit char (List.mem_append_left [last] member),
          fun zero => absurd (Option.some.inj zero) notZero⟩
      have front_eq := ih shorter
      have positive : 0 < Nat.ofDigitChars 10 (first :: middle) 0 := by
        refine Nat.pos_of_ne_zero fun zero => ?_
        rw [zero, Nat.toDigits_zero] at front_eq
        exact notZero (List.cons.inj front_eq).1.symm
      rw [← Nat.toDigits_append_toDigits (by decide) positive small, front_eq,
        Nat.toDigits_of_lt_base small, spelled]

end Numeral

end Foundation
