import Mathlib.Data.List.Basic

/-!
Owns base64: groups of four symbols for three, two or one byte, the groups that a lenient
reader takes, and the standard encoding, where a group that is filled up comes last and
leaves no bit unused.
-/

namespace Foundation

open List

namespace Base64

def symbol (digit : Fin 64) : UInt8 :=
  if digit.val < 26 then UInt8.ofNat (65 + digit.val)
  else if digit.val < 52 then UInt8.ofNat (97 + (digit.val - 26))
  else if digit.val < 62 then UInt8.ofNat (48 + (digit.val - 52))
  else if digit.val = 62 then 43
  else 47

def pad : UInt8 := 61

theorem symbol_injective : Function.Injective symbol := by
  unfold Function.Injective
  decide +kernel

theorem symbol_ne_pad (digit : Fin 64) : symbol digit ≠ pad := by
  revert digit
  decide

inductive Group where
  | full (first second third fourth : Fin 64)
  | two (first second third : Fin 64)
  | one (first second : Fin 64)
deriving DecidableEq

namespace Group

def symbols : Group → List UInt8
  | full w x y z => [symbol w, symbol x, symbol y, symbol z]
  | two w x y => [symbol w, symbol x, symbol y, pad]
  | one w x => [symbol w, symbol x, pad, pad]

def bytes : Group → List UInt8
  | full w x y z => [UInt8.ofNat (w * 4 + x / 16), UInt8.ofNat (x % 16 * 16 + y / 4),
      UInt8.ofNat (y % 4 * 64 + z)]
  | two w x y => [UInt8.ofNat (w * 4 + x / 16), UInt8.ofNat (x % 16 * 16 + y / 4)]
  | one w x => [UInt8.ofNat (w * 4 + x / 16)]

def Padded : Group → Prop
  | full .. => False
  | two .. => True
  | one .. => True

/-- No bit that stands for nothing is set. -/
def Tight : Group → Prop
  | full .. => True
  | two _ _ y => y.val % 4 = 0
  | one _ x => x.val % 16 = 0

variable {group other : Group}

theorem symbols_length (group : Group) : group.symbols.length = 4 := by
  cases group <;> rfl

theorem symbols_injective (same : group.symbols = other.symbols) : group = other := by
  cases group <;> cases other <;>
    simp [symbols, symbol_injective.eq_iff, symbol_ne_pad, (symbol_ne_pad _).symm] at same
  all_goals simp [same]

theorem tight_of_not_padded (unpadded : ¬group.Padded) : group.Tight := by
  cases group with
  | full w x y z => trivial
  | two w x y => exact absurd trivial unpadded
  | one w x => exact absurd trivial unpadded

end Group

def symbols (groups : List Group) : List UInt8 := groups.flatMap Group.symbols

def bytes (groups : List Group) : List UInt8 := groups.flatMap Group.bytes

variable {groups others rest : List Group} {group : Group}

theorem symbols_injective (same : symbols groups = symbols others) : groups = others := by
  induction groups generalizing others with
  | nil =>
    cases others with
    | nil => rfl
    | cons other others => cases other <;> cases same
  | cons group groups ih =>
    cases others with
    | nil => cases group <;> cases same
    | cons other others =>
      simp only [symbols, flatMap_cons] at same
      have widths : group.symbols.length = other.symbols.length := by
        rw [group.symbols_length, other.symbols_length]
      obtain ⟨first, later⟩ := append_inj same widths
      rw [Group.symbols_injective first, ih later]

/-- Groups as the standard has them: none but the last is filled up, and no unused bit is
set. -/
def Standard (groups : List Group) : Prop :=
  (∀ group ∈ groups, group.Tight) ∧ ∀ group ∈ groups.dropLast, ¬group.Padded

theorem standard_cons (more : rest ≠ []) :
    Standard (group :: rest) ↔ ¬group.Padded ∧ Standard rest := by
  unfold Standard
  rw [dropLast_cons_of_ne_nil more, forall_mem_cons, forall_mem_cons]
  constructor
  · exact fun ⟨⟨_, tight⟩, unpadded, early⟩ => ⟨unpadded, tight, early⟩
  · exact fun ⟨unpadded, tight, early⟩ =>
      ⟨⟨Group.tight_of_not_padded unpadded, tight⟩, unpadded, early⟩

theorem standard_singleton : Standard [group] ↔ group.Tight := by
  simp [Standard]

def digit (value : Nat) : Fin 64 := Fin.ofNat 64 value

def groupsOf : List UInt8 → List Group
  | [] => []
  | [a] => [.one (digit (a.toNat / 4)) (digit (a.toNat % 4 * 16))]
  | [a, b] => [.two (digit (a.toNat / 4)) (digit (a.toNat % 4 * 16 + b.toNat / 16))
      (digit (b.toNat % 16 * 4))]
  | a :: b :: c :: rest => .full (digit (a.toNat / 4)) (digit (a.toNat % 4 * 16 + b.toNat / 16))
      (digit (b.toNat % 16 * 4 + c.toNat / 64)) (digit (c.toNat % 64)) :: groupsOf rest

def encode (data : List UInt8) : List UInt8 := symbols (groupsOf data)

theorem standard_groupsOf (data : List UInt8) : Standard (groupsOf data) := by
  induction data using groupsOf.induct with
  | case1 => simp [groupsOf, Standard]
  | case2 a =>
    rw [groupsOf, standard_singleton]
    show a.toNat % 4 * 16 % 64 % 16 = 0
    omega
  | case3 a b =>
    rw [groupsOf, standard_singleton]
    show b.toNat % 16 * 4 % 64 % 4 = 0
    omega
  | case4 a b c rest ih =>
    rw [groupsOf]
    by_cases last : groupsOf rest = []
    · rw [last, standard_singleton]
      trivial
    · exact (standard_cons last).mpr ⟨id, ih⟩

/-! The bits of three bytes, and of four digits. -/

theorem first_byte (a : UInt8) {low : Nat} (below : low < 16) :
    UInt8.ofNat ((digit (a.toNat / 4)).val * 4 +
      (digit (a.toNat % 4 * 16 + low)).val / 16) = a := by
  have bounded := a.toNat_lt
  apply UInt8.toNat_inj.mp
  rw [UInt8.toNat_ofNat']
  show (a.toNat / 4 % 64 * 4 + (a.toNat % 4 * 16 + low) % 64 / 16) % 256 = a.toNat
  omega

theorem second_byte (a b : UInt8) {low : Nat} (below : low < 4) :
    UInt8.ofNat ((digit (a.toNat % 4 * 16 + b.toNat / 16)).val % 16 * 16 +
      (digit (b.toNat % 16 * 4 + low)).val / 4) = b := by
  have bounded := b.toNat_lt
  apply UInt8.toNat_inj.mp
  rw [UInt8.toNat_ofNat']
  show ((a.toNat % 4 * 16 + b.toNat / 16) % 64 % 16 * 16 +
    (b.toNat % 16 * 4 + low) % 64 / 4) % 256 = b.toNat
  omega

theorem third_byte (b c : UInt8) :
    UInt8.ofNat ((digit (b.toNat % 16 * 4 + c.toNat / 64)).val % 4 * 64 +
      (digit (c.toNat % 64)).val) = c := by
  have bounded := c.toNat_lt
  apply UInt8.toNat_inj.mp
  rw [UInt8.toNat_ofNat']
  show ((b.toNat % 16 * 4 + c.toNat / 64) % 64 % 4 * 64 + c.toNat % 64 % 64) % 256 = c.toNat
  omega

theorem bytes_groupsOf (data : List UInt8) : bytes (groupsOf data) = data := by
  induction data using groupsOf.induct with
  | case1 => rfl
  | case2 a =>
    have first := first_byte a (show 0 < 16 by decide)
    simp only [Nat.add_zero] at first
    simp only [groupsOf, bytes, flatMap_singleton, Group.bytes, first]
  | case3 a b =>
    have first := first_byte a (show b.toNat / 16 < 16 by have := b.toNat_lt; omega)
    have second := second_byte a b (show 0 < 4 by decide)
    simp only [Nat.add_zero] at second
    simp only [groupsOf, bytes, flatMap_singleton, Group.bytes, first, second]
  | case4 a b c rest ih =>
    have first := first_byte a (show b.toNat / 16 < 16 by have := b.toNat_lt; omega)
    have second := second_byte a b (show c.toNat / 64 < 4 by have := c.toNat_lt; omega)
    rw [bytes] at ih
    simp only [groupsOf, bytes, flatMap_cons, Group.bytes, first, second, third_byte,
      ih, cons_append, nil_append]

theorem digit_eq {value : Nat} {expected : Fin 64} (same : value = expected.val) :
    digit value = expected := by
  rw [same]
  exact Fin.ofNat_val_eq_self expected

theorem groupsOf_bytes (standard : Standard groups) : groupsOf (bytes groups) = groups := by
  induction groups with
  | nil => rfl
  | cons group rest ih =>
    cases group with
    | full w x y z =>
      have later : Standard rest := by
        by_cases last : rest = []
        · rw [last]
          simp [Standard]
        · exact ((standard_cons last).mp standard).2
      show groupsOf (UInt8.ofNat _ :: UInt8.ofNat _ :: UInt8.ofNat _ :: bytes rest) = _
      rw [groupsOf, ih later]
      congr 2 <;> apply digit_eq <;> simp only [UInt8.toNat_ofNat'] <;> omega
    | two w x y =>
      obtain rfl : rest = [] := by
        by_contra more
        exact ((standard_cons more).mp standard).1 trivial
      have tight : y.val % 4 = 0 := standard_singleton.mp standard
      show groupsOf [UInt8.ofNat _, UInt8.ofNat _] = _
      rw [groupsOf]
      congr 2 <;> apply digit_eq <;> simp only [UInt8.toNat_ofNat'] <;> omega
    | one w x =>
      obtain rfl : rest = [] := by
        by_contra more
        exact ((standard_cons more).mp standard).1 trivial
      have tight : x.val % 16 = 0 := standard_singleton.mp standard
      show groupsOf [UInt8.ofNat _] = _
      rw [groupsOf]
      congr 2 <;> apply digit_eq <;> simp only [UInt8.toNat_ofNat'] <;> omega

theorem eq_encode_iff {text data : List UInt8} :
    text = encode data ↔ ∃ groups, Standard groups ∧ text = symbols groups ∧
      data = bytes groups := by
  constructor
  · exact fun same => ⟨groupsOf data, standard_groupsOf data, same, (bytes_groupsOf data).symm⟩
  · rintro ⟨groups, standard, rfl, rfl⟩
    rw [encode, groupsOf_bytes standard]

end Base64

end Foundation
