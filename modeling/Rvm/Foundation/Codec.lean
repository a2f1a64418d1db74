import Rvm.Foundation.Bytes
import Rvm.Foundation.Postconditions

/-!
Owns codecs of fixed width whose two directions undo each other, so that no byte of a block
is ignored; and blocks laid end to end.
-/

namespace Foundation

open Foundation.Call List

/-- `toBytes` and `parse` are inverse between the well-formed values and the blocks of
`width` bytes that are accepted; what follows a block is not looked at. -/
structure InverseCodec {ε α : Type} (width : Nat) (WellFormed : α → Prop)
    (toBytes : α → List UInt8) (parse : ∀ {σ : Type}, List UInt8 → Call ε σ α) : Prop where
  length : ∀ value, WellFormed value → (toBytes value).length = width
  parse_toBytes : ∀ {σ : Type} (state : σ) value (rest block : List UInt8), WellFormed value →
    toBytes value ++ rest = block → (parse block).Ensures state
      (fun parsed next => parsed = value ∧ next = state) fun _ _ => False
  toBytes_parse : ∀ {σ : Type} (state : σ) (block : List UInt8), (parse block).Permits state
    (fun value _ => WellFormed value ∧ toBytes value ++ block.drop width = block)
    fun _ _ => True

namespace InverseCodec

variable {ε α : Type} {width : Nat} {WellFormed : α → Prop} {toBytes : α → List UInt8}
  {parse : ∀ {σ : Type}, List UInt8 → Call ε σ α}

theorem toBytes_parse_block (codec : InverseCodec width WellFormed toBytes parse) {σ : Type}
    (state : σ) {block : List UInt8} (sized : block.length = width) :
    (parse block).Permits state (fun value _ => WellFormed value ∧ toBytes value = block)
      fun _ _ => True := by
  apply (codec.toBytes_parse state block).mono _ fun _ _ _ => trivial
  intro value _ accepted
  have whole := accepted.2
  rw [drop_of_length_le sized.le, append_nil] at whole
  exact ⟨accepted.1, whole⟩

end InverseCodec

theorem flatten_cut_take {α : Type} (widths : List Nat) (items : List α) :
    (cut widths items).flatten = items.take widths.sum := by
  induction widths generalizing items with
  | nil => rfl
  | cons width widths ih =>
    rw [cut, flatten_cons, ih, sum_cons, take_add]

theorem littleEndianBytes_take {bytes : List UInt8} {offset width : Nat}
    (inside : offset + width ≤ bytes.length) :
    littleEndianBytes width (littleEndianValue ((bytes.drop offset).take width)) =
      (bytes.drop offset).take width := by
  have sized : ((bytes.drop offset).take width).length = width := by
    rw [length_take, length_drop]
    omega
  have again := littleEndianBytes_value ((bytes.drop offset).take width)
  rwa [sized] at again

theorem flatten_blocks {α : Type} (width count : Nat) (items : List α) :
    ((List.range count).map fun i => (items.drop (i * width)).take width).flatten =
      items.take (count * width) := by
  induction count with
  | zero => simp
  | succ count ih =>
    rw [range_succ, map_append, flatten_append, ih, Nat.succ_mul, take_add]
    simp

end Foundation
