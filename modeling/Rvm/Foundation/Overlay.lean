import Mathlib.Data.List.Basic

/-!
Owns images of fixed length with writes laid over them in order: a write changes
exactly the positions it covers, and after a list of writes each position shows
the last write that covers it.
-/

namespace Foundation.Overlay

open List

universe u

variable {α : Type u}

structure Write (α : Type u) where
  offset : Nat
  values : List α

def Write.Covers (write : Write α) (i : Nat) : Prop :=
  write.offset ≤ i ∧ i < write.offset + write.values.length

def Write.Inside (write : Write α) (size : Nat) : Prop :=
  write.offset + write.values.length ≤ size

def overwrite (image : List α) (write : Write α) : List α :=
  image.take write.offset ++ write.values ++ image.drop (write.offset + write.values.length)

def overlay (image : List α) (writes : List (Write α)) : List α := writes.foldl overwrite image

variable {image : List α} {write : Write α} {writes later : List (Write α)} {i : Nat}

theorem overwrite_length (inside : write.Inside image.length) :
    (overwrite image write).length = image.length := by
  unfold Write.Inside at inside
  rw [overwrite, length_append, length_append, length_take, length_drop]
  omega

theorem overwrite_covered (inside : write.Inside image.length) (covers : write.Covers i) :
    (overwrite image write)[i]? = write.values[i - write.offset]? := by
  unfold Write.Inside at inside
  obtain ⟨after, before⟩ := covers
  have taken : (image.take write.offset).length = write.offset := by
    rw [length_take]
    omega
  rw [overwrite, List.getElem?_append_left (by rw [length_append]; omega),
    List.getElem?_append_right (by omega), taken]

theorem overwrite_uncovered (inside : write.Inside image.length) (uncovered : ¬write.Covers i) :
    (overwrite image write)[i]? = image[i]? := by
  unfold Write.Inside at inside
  unfold Write.Covers at uncovered
  have taken : (image.take write.offset).length = write.offset := by
    rw [length_take]
    omega
  rw [overwrite]
  by_cases before : i < write.offset
  · rw [List.getElem?_append_left (by rw [length_append]; omega),
      List.getElem?_append_left (by omega), List.getElem?_take_of_lt before]
  · rw [List.getElem?_append_right (by rw [length_append]; omega), length_append, taken,
      List.getElem?_drop]
    congr 1
    omega

theorem overlay_length (inside : ∀ write ∈ writes, write.Inside image.length) :
    (overlay image writes).length = image.length := by
  induction writes generalizing image with
  | nil => rfl
  | cons first rest ih =>
    have kept := overwrite_length (inside first mem_cons_self)
    have later := @ih (overwrite image first) fun write member =>
      kept ▸ inside write (mem_cons_of_mem first member)
    exact later.trans kept

theorem overlay_uncovered (inside : ∀ write ∈ writes, write.Inside image.length)
    (uncovered : ∀ write ∈ writes, ¬write.Covers i) :
    (overlay image writes)[i]? = image[i]? := by
  induction writes generalizing image with
  | nil => rfl
  | cons first rest ih =>
    have kept := overwrite_length (inside first mem_cons_self)
    have later := @ih (overwrite image first)
      (fun write member => kept ▸ inside write (mem_cons_of_mem first member))
      fun write member => uncovered write (mem_cons_of_mem first member)
    exact later.trans (overwrite_uncovered (inside first mem_cons_self)
      (uncovered first mem_cons_self))

theorem overlay_last (inside : ∀ other ∈ writes ++ write :: later, other.Inside image.length)
    (covers : write.Covers i) (uncovered : ∀ other ∈ later, ¬other.Covers i) :
    (overlay image (writes ++ write :: later))[i]? = write.values[i - write.offset]? := by
  have before : ∀ other ∈ writes, other.Inside image.length := fun other member =>
    inside other (mem_append_left _ member)
  have earlier := overlay_length before
  have here : write.Inside (overlay image writes).length :=
    earlier ▸ inside write (mem_append_right _ mem_cons_self)
  have kept := overwrite_length here
  have split : overlay image (writes ++ write :: later) =
      overlay (overwrite (overlay image writes) write) later := by
    rw [overlay, foldl_append]
    rfl
  rw [split, overlay_uncovered (fun other member => ?_) uncovered, overwrite_covered here covers]
  rw [kept, earlier]
  exact inside other (mem_append_right _ (mem_cons_of_mem write member))

end Foundation.Overlay
