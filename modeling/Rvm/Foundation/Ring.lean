import Mathlib.Data.Nat.ModEq

/-!
Owns the contents of a ring buffer: the list that `count` cells from `head` on,
modulo the capacity, hold in order. Writing behind the last cell appends and
emptying the head cell removes the first element.
-/

namespace Foundation.Ring

open Function List

universe u

variable {α : Type u} {capacity head : Nat} {buffer : Nat → Option α} {contents : List α}

structure Holds (capacity : Nat) (buffer : Nat → Option α) (head : Nat) (contents : List α) :
    Prop where
  fits : contents.length ≤ capacity
  cells : ∀ i, i < contents.length → buffer ((head + i) % capacity) = contents[i]?

theorem holds_nil (capacity head : Nat) (buffer : Nat → Option α) : Holds capacity buffer head [] :=
  ⟨Nat.zero_le _, fun _ below => absurd below (Nat.not_lt_zero _)⟩

theorem cell_ne {i j : Nat} (lt : i < j) (near : j < i + capacity) :
    (head + i) % capacity ≠ (head + j) % capacity := by
  intro same
  have difference : (head + j) % capacity = (head + i + (j - i)) % capacity := by
    congr 1
    omega
  rw [difference] at same
  have divides : capacity ∣ j - i := by
    have congruent : head + i ≡ head + i + (j - i) [MOD capacity] := same
    have zero : 0 ≡ j - i [MOD capacity] :=
      Nat.ModEq.add_left_cancel' (head + i) (by simpa using congruent)
    exact (Nat.modEq_zero_iff_dvd).mp zero.symm
  have le := Nat.le_of_dvd (by omega) divides
  omega

theorem Holds.push (holds : Holds capacity buffer head contents) (room : contents.length < capacity)
    (value : α) :
    Holds capacity (update buffer ((head + contents.length) % capacity) (some value)) head
      (contents ++ [value]) where
  fits := by
    rw [length_append, length_singleton]
    exact room
  cells := by
    intro i below
    rw [length_append, length_singleton] at below
    by_cases last : i = contents.length
    · subst last
      rw [update_self]
      simp
    · have earlier : i < contents.length := by omega
      rw [update_of_ne (cell_ne earlier (by omega)), holds.cells i earlier,
        List.getElem?_append_left earlier]

theorem Holds.head_cell {value : α} {rest : List α}
    (holds : Holds capacity buffer head (value :: rest)) :
    buffer (head % capacity) = some value :=
  holds.cells 0 (by simp)

theorem Holds.pop {value : α} {rest : List α} (holds : Holds capacity buffer head (value :: rest)) :
    Holds capacity (update buffer (head % capacity) none) ((head + 1) % capacity) rest where
  fits := by
    have fits := holds.fits
    simp only [length_cons] at fits
    omega
  cells := by
    intro i below
    have fits := holds.fits
    simp only [length_cons] at fits
    have shifted : ((head + 1) % capacity + i) % capacity = (head + (i + 1)) % capacity := by
      rw [Nat.mod_add_mod]
      congr 1
      omega
    have different : head % capacity ≠ (head + (i + 1)) % capacity :=
      @cell_ne capacity head 0 (i + 1) (Nat.succ_pos i) (by omega)
    rw [shifted, update_of_ne different.symm,
      holds.cells (i + 1) (by simpa using below), List.getElem?_cons_succ]

/-- Element `i` of the history is in cell `i` modulo the capacity, as long as it
is one of the last `capacity` elements. -/
def Retains (capacity : Nat) (cells : Nat → α) (history : List α) : Prop :=
  ∀ i, i < history.length → history.length ≤ i + capacity →
    history[i]? = some (cells (i % capacity))

variable {cells : Nat → α} {history : List α}

theorem retains_nil (capacity : Nat) (cells : Nat → α) : Retains capacity cells [] :=
  fun _ below => absurd below (Nat.not_lt_zero _)

theorem Retains.push (retains : Retains capacity cells history) (value : α) :
    Retains capacity (update cells (history.length % capacity) value)
      (history ++ [value]) := by
  intro i below recent
  rw [length_append, length_singleton] at below recent
  by_cases last : i = history.length
  · subst last
    rw [update_self, List.getElem?_concat_length]
  · have earlier : i < history.length := by omega
    have different : i % capacity ≠ history.length % capacity := by
      have apart := @cell_ne capacity 0 i history.length earlier (by omega)
      rwa [Nat.zero_add, Nat.zero_add] at apart
    rw [update_of_ne different, List.getElem?_append_left earlier]
    exact retains i earlier (by omega)

theorem Retains.recent (retains : Retains capacity cells history)
    (full : capacity ≤ history.length) {cell : Nat} (below : cell < capacity) :
    ∃ i, i < history.length ∧ history.length ≤ i + capacity ∧ history[i]? = some (cells cell) := by
  obtain ⟨distance, distanceEq⟩ : ∃ distance, distance = history.length - 1 - cell := ⟨_, rfl⟩
  have split := Nat.div_add_mod distance capacity
  have short := Nat.mod_lt distance (Nat.zero_lt_of_lt below)
  have position : (cell + capacity * (distance / capacity)) % capacity = cell := by
    rw [Nat.add_mul_mod_self_left, Nat.mod_eq_of_lt below]
  refine ⟨cell + capacity * (distance / capacity), by omega, by omega, ?_⟩
  rw [retains _ (by omega) (by omega), position]

end Foundation.Ring
