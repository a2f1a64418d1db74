import Mathlib.Algebra.GroupWithZero.Nat
import Mathlib.Data.Vector.Basic

/-!
Owns byte strings: fixed-width strings, little-endian integers, slices whose bounds are
checked, and strings laid out as consecutive fields of given widths, where cutting a string
into its fields is inverse to joining them.
-/

namespace Foundation

open List

/-- A string of exactly `width` bytes. -/
abbrev Octets (width : Nat) := List.Vector UInt8 width

def Octets.ofList {width : Nat} (bytes : List UInt8) (same : bytes.length = width) : Octets width :=
  ⟨bytes, same⟩

def Octets.zero (width : Nat) : Octets width := List.Vector.replicate width 0

def octetsAt (width : Nat) (bytes : List UInt8) (offset : Nat) : Option (Octets width) :=
  if inside : offset + width ≤ bytes.length then
    some ⟨(bytes.drop offset).take width, by
      rw [length_take, length_drop]
      omega⟩
  else none

def sliceAt (bytes : List UInt8) (start stop : Nat) : Option (List UInt8) :=
  if start ≤ stop ∧ stop ≤ bytes.length then some ((bytes.take stop).drop start) else none

def littleEndianValue : List UInt8 → Nat
  | [] => 0
  | byte :: rest => byte.toNat + 256 * littleEndianValue rest

def littleEndianBytes : Nat → Nat → List UInt8
  | 0, _ => []
  | width + 1, value => UInt8.ofNat value :: littleEndianBytes width (value / 256)

def littleEndianAt (width : Nat) (bytes : List UInt8) (offset : Nat) : Option Nat :=
  (octetsAt width bytes offset).map fun octets => littleEndianValue octets.toList

variable {width offset : Nat} {bytes : List UInt8}

theorem octetsAt_eq (inside : offset + width ≤ bytes.length) :
    octetsAt width bytes offset = some ⟨(bytes.drop offset).take width, by
      rw [length_take, length_drop]
      omega⟩ :=
  dif_pos inside

theorem octetsAt_exists (inside : offset + width ≤ bytes.length) :
    ∃ octets, octetsAt width bytes offset = some octets :=
  ⟨_, octetsAt_eq inside⟩

theorem octetsAt_toList {octets : Octets width} (read : octetsAt width bytes offset = some octets) :
    octets.toList = (bytes.drop offset).take width := by
  unfold octetsAt at read
  split at read
  · rw [← Option.some.inj read]
    rfl
  · cases read

theorem sliceAt_eq {start stop : Nat} (ordered : start ≤ stop) (inside : stop ≤ bytes.length) :
    sliceAt bytes start stop = some ((bytes.take stop).drop start) :=
  if_pos ⟨ordered, inside⟩

theorem octetsAt_flatten {strings : List (Octets width)} {i : Nat} {octets : Octets width}
    (found : strings[i]? = some octets) :
    octetsAt width (strings.map List.Vector.toList).flatten (i * width) = some octets := by
  induction strings generalizing i with
  | nil => cases found
  | cons first rest ih =>
    rw [map_cons, flatten_cons]
    cases i with
    | zero =>
      obtain rfl : first = octets := Option.some.inj found
      rw [octetsAt_eq (by simp)]
      congr 1
      apply Subtype.ext
      change List.take width (List.drop (0 * width) (first.toList ++ _)) = first.toList
      rw [Nat.zero_mul, drop_zero, take_left' first.toList_length]
    | succ i =>
      have later := ih found
      have shape := octetsAt_toList later
      have inside : i * width + width ≤ ((rest.map List.Vector.toList).flatten).length := by
        by_contra outside
        rw [octetsAt, dif_neg outside] at later
        cases later
      rw [octetsAt_eq (by rw [length_append, first.toList_length, Nat.succ_mul]; omega)]
      congr 1
      apply Subtype.ext
      change List.take width (List.drop _ (first.toList ++ _)) = octets.toList
      rw [shape, Nat.succ_mul, Nat.add_comm (i * width), ← drop_drop,
        drop_left' first.toList_length]

theorem littleEndianValue_lt (bytes : List UInt8) :
    littleEndianValue bytes < 256 ^ bytes.length := by
  induction bytes with
  | nil => exact Nat.one_pos
  | cons byte rest ih =>
    have small := byte.toNat_lt
    rw [littleEndianValue, length_cons, pow_succ]
    omega

theorem littleEndianBytes_length (width value : Nat) :
    (littleEndianBytes width value).length = width := by
  induction width generalizing value with
  | zero => rfl
  | succ width ih =>
    rw [littleEndianBytes, length_cons, ih]

def littleEndianOctets (width value : Nat) : Octets width :=
  ⟨littleEndianBytes width value, littleEndianBytes_length width value⟩

theorem littleEndianValue_bytes (width value : Nat) :
    littleEndianValue (littleEndianBytes width value) = value % 256 ^ width := by
  induction width generalizing value with
  | zero => exact (Nat.mod_one value).symm
  | succ width ih =>
    have low : (UInt8.ofNat value).toNat = value % 256 := rfl
    rw [littleEndianBytes, littleEndianValue, ih, low, pow_succ', Nat.mod_mul]

theorem littleEndianAt_eq (inside : offset + width ≤ bytes.length) :
    littleEndianAt width bytes offset =
      some (littleEndianValue ((bytes.drop offset).take width)) := by
  rw [littleEndianAt, octetsAt_eq inside]
  rfl

theorem littleEndianValue_take_lt (width : Nat) (bytes : List UInt8) :
    littleEndianValue (bytes.take width) < 256 ^ width :=
  (littleEndianValue_lt _).trans_le
    (Nat.pow_le_pow_right (by decide) (length_take_le width bytes))

end Foundation

namespace Foundation

section Cutting

variable {α : Type}

/-- The consecutive fields of these widths, from the front. -/
def cut : List Nat → List α → List (List α)
  | [], _ => []
  | width :: widths, items => items.take width :: cut widths (items.drop width)

theorem cut_flatten (fields : List (List α)) (rest : List α) :
    cut (fields.map List.length) (fields.flatten ++ rest) = fields := by
  induction fields with
  | nil => rfl
  | cons field fields ih =>
    rw [List.map_cons, cut, List.flatten_cons, List.append_assoc, List.take_left, List.drop_left,
      ih]

theorem flatten_cut {widths : List Nat} {items : List α} (long : items.length = widths.sum) :
    (cut widths items).flatten = items := by
  induction widths generalizing items with
  | nil => exact (List.eq_nil_of_length_eq_zero long).symm
  | cons width widths ih =>
    have later : (items.drop width).length = widths.sum := by
      rw [List.length_drop, long, List.sum_cons, Nat.add_sub_cancel_left]
    rw [cut, List.flatten_cons, ih later, List.take_append_drop]

end Cutting

theorem littleEndianBytes_value (bytes : List UInt8) :
    littleEndianBytes bytes.length (littleEndianValue bytes) = bytes := by
  induction bytes with
  | nil => rfl
  | cons byte rest ih =>
    have small := byte.toNat_lt
    have low : UInt8.ofNat (byte.toNat + 256 * littleEndianValue rest) = byte := by
      apply UInt8.toNat_inj.mp
      rw [UInt8.toNat_ofNat', Nat.add_mul_mod_self_left]
      exact Nat.mod_eq_of_lt small
    have high : (byte.toNat + 256 * littleEndianValue rest) / 256 = littleEndianValue rest := by
      omega
    rw [List.length_cons, littleEndianValue, littleEndianBytes, low, high, ih]

theorem littleEndianValue_bytes_of_lt {width value : Nat} (fits : value < 256 ^ width) :
    littleEndianValue (littleEndianBytes width value) = value := by
  rw [littleEndianValue_bytes, Nat.mod_eq_of_lt fits]

section Reading

variable {bytes : List UInt8} {width offset : Nat}

theorem octetsAt_of_take {octets : Octets width} (inside : offset + width ≤ bytes.length)
    (field : (bytes.drop offset).take width = octets.toList) :
    octetsAt width bytes offset = some octets := by
  rw [octetsAt_eq inside]
  exact congrArg some (Subtype.ext field)

theorem getElem?_of_take {byte : UInt8} (field : (bytes.drop offset).take 1 = [byte]) :
    bytes[offset]? = some byte := by
  have front := congrArg List.head? field
  rwa [List.head?_take, if_neg Nat.one_ne_zero, List.head?_drop] at front

theorem take_of_getElem? {byte : UInt8} (read : bytes[offset]? = some byte) :
    (bytes.drop offset).take 1 = [byte] := by
  rw [← List.head?_drop] at read
  obtain ⟨rest, same⟩ := List.head?_eq_some_iff.mp read
  rw [same]
  rfl

theorem sliceAt_of_take {slice : List UInt8} (inside : offset + width ≤ bytes.length)
    (field : (bytes.drop offset).take width = slice) :
    sliceAt bytes offset (offset + width) = some slice := by
  rw [sliceAt_eq (Nat.le_add_right _ _) inside, List.drop_take, Nat.add_sub_cancel_left, field]

theorem sliceAt_field {stop : Nat} {slice : List UInt8}
    (read : sliceAt bytes offset stop = some slice) :
    (bytes.drop offset).take (stop - offset) = slice ∧ slice.length = stop - offset := by
  unfold sliceAt at read
  split at read
  · rename_i inside
    rw [List.drop_take] at read
    rw [← Option.some.inj read]
    refine ⟨rfl, ?_⟩
    rw [List.length_take, List.length_drop]
    omega
  · cases read

theorem littleEndianAt_of_take {value : Nat} (inside : offset + width ≤ bytes.length)
    (field : (bytes.drop offset).take width = littleEndianBytes width value)
    (fits : value < 256 ^ width) : littleEndianAt width bytes offset = some value := by
  rw [littleEndianAt_eq inside, field, littleEndianValue_bytes_of_lt fits]

theorem littleEndianBytes_of_read {value : Nat}
    (read : littleEndianAt width bytes offset = some value) :
    littleEndianBytes width value = (bytes.drop offset).take width := by
  by_cases inside : offset + width ≤ bytes.length
  · rw [littleEndianAt_eq inside] at read
    have exact : ((bytes.drop offset).take width).length = width := by
      rw [List.length_take, List.length_drop]
      omega
    have again := littleEndianBytes_value ((bytes.drop offset).take width)
    rwa [exact, Option.some.inj read] at again
  · rw [littleEndianAt, octetsAt, dif_neg inside] at read
    cases read

theorem littleEndianAt_exists (inside : offset + width ≤ bytes.length) :
    ∃ value, littleEndianAt width bytes offset = some value :=
  ⟨_, littleEndianAt_eq inside⟩

theorem littleEndianAt_lt {value : Nat}
    (read : littleEndianAt width bytes offset = some value) : value < 256 ^ width := by
  by_cases inside : offset + width ≤ bytes.length
  · rw [littleEndianAt_eq inside] at read
    rw [← Option.some.inj read]
    exact littleEndianValue_take_lt width _
  · rw [littleEndianAt, octetsAt, dif_neg inside] at read
    cases read

end Reading

end Foundation
