import Mathlib.Algebra.BigOperators.Group.List.Basic
import Mathlib.Algebra.GroupWithZero.Nat
import Mathlib.Data.List.Count

/-!
Owns sliding windows over points in time (the bound on every half-open window, how it
survives one more point, and a store that remembers the points near a time), and sums of
weights over fixed items and their changing records.
-/

namespace Foundation

open List

/-- The points in the half-open window of a width that begins at a time. -/
def countFrom (width start : Nat) (points : List Nat) : Nat :=
  points.countP fun point => start ≤ point ∧ point < start + width

def Windowed (limit width : Nat) (points : List Nat) : Prop :=
  ∀ start, countFrom width start points ≤ limit

/-- The points in the half-open window of a width that ends at a time and contains
it. -/
def countEnding (width now : Nat) (points : List Nat) : Nat :=
  points.countP fun point => point ≤ now ∧ now < point + width

def Remembers (width now : Nat) (store points : List Nat) : Prop :=
  ∀ point, now < point + width → point < now + width → store.count point = points.count point

variable {limit width now : Nat} {store points : List Nat}

theorem countP_eq_of_count_eq {α : Type} [DecidableEq α] {first second : List α} {p : α → Bool}
    (agree : ∀ a, p a = true → first.count a = second.count a) :
    first.countP p = second.countP p := by
  rw [countP_eq_length_filter, countP_eq_length_filter]
  apply List.Perm.length_eq
  rw [perm_iff_count]
  intro a
  by_cases counted : p a = true
  · rw [count_filter counted, count_filter counted, agree a counted]
  · rw [count_eq_zero_of_not_mem fun member => counted (mem_filter.mp member).2,
      count_eq_zero_of_not_mem fun member => counted (mem_filter.mp member).2]

theorem windowed_nil : Windowed limit width [] := fun _ => Nat.zero_le _

/-- One more point fits where the store remembers the points near it, has none
later, and fewer than the limit in the window that ends at it. -/
theorem Windowed.snoc (bounded : Windowed limit width points)
    (remembers : Remembers width now store points) (latest : ∀ point ∈ store, point ≤ now)
    (room : countEnding width now store < limit) : Windowed limit width (points ++ [now]) := by
  intro start
  rw [countFrom, countP_append, countP_singleton]
  by_cases within : start ≤ now ∧ now < start + width
  · rw [if_pos (decide_eq_true within)]
    have same : countFrom width start points = countFrom width start store := by
      apply countP_eq_of_count_eq
      intro point inside
      have inside := of_decide_eq_true inside
      exact (remembers point (by omega) (by omega)).symm
    have fewer : countFrom width start store ≤ countEnding width now store := by
      apply countP_mono_left
      intro point member inside
      have inside := of_decide_eq_true inside
      exact decide_eq_true ⟨latest point member, by omega⟩
    calc countFrom width start points + 1 = countFrom width start store + 1 := by rw [same]
      _ ≤ countEnding width now store + 1 := Nat.add_le_add_right fewer 1
      _ ≤ limit := room
  · rw [if_neg fun inside => within (of_decide_eq_true inside), Nat.add_zero]
    exact bounded start

end Foundation

namespace Foundation

variable {Item Record : Type}

def tally (items : List Item) (records : List Record) (weight : Item → Record → Nat) : Nat :=
  (List.zipWith weight items records).sum

variable {items : List Item} {records : List Record} {weight : Item → Record → Nat}

theorem tally_set {i : Nat} {item : Item} {old new : Record}
    (itemAt : items[i]? = some item) (recordAt : records[i]? = some old) :
    tally items (records.set i new) weight + weight item old =
      tally items records weight + weight item new := by
  induction items generalizing records i with
  | nil => cases itemAt
  | cons first rest ih =>
    cases records with
    | nil => cases recordAt
    | cons record others =>
      cases i with
      | zero =>
        obtain rfl : first = item := Option.some.inj itemAt
        obtain rfl : record = old := Option.some.inj recordAt
        simp only [tally, List.set_cons_zero, List.zipWith_cons_cons, List.sum_cons]
        omega
      | succ i =>
        have step := ih (i := i) itemAt recordAt
        simp only [tally, List.set_cons_succ, List.zipWith_cons_cons, List.sum_cons] at step ⊢
        omega

theorem tally_le {bound : Item → Nat} (bounded : ∀ item ∈ items, ∀ record,
    weight item record ≤ bound item) : tally items records weight ≤ (items.map bound).sum := by
  induction items generalizing records with
  | nil => simp [tally]
  | cons first rest ih =>
    cases records with
    | nil => simp [tally]
    | cons record others =>
      have later := @ih others
        fun item member => bounded item (List.mem_cons_of_mem first member)
      have here := bounded first List.mem_cons_self record
      simp only [tally, List.zipWith_cons_cons, List.sum_cons, List.map_cons] at later ⊢
      omega

theorem weight_of_tally_zero {i : Nat} {item : Item} {record : Record}
    (zero : tally items records weight = 0)
    (itemAt : items[i]? = some item) (recordAt : records[i]? = some record) :
    weight item record = 0 := by
  have member : weight item record ∈ List.zipWith weight items records := by
    apply List.mem_of_getElem?
    rw [List.getElem?_zipWith, itemAt, recordAt]
  exact List.sum_eq_zero_iff_forall_eq_nat.mp zero _ member

theorem tally_map {make : Item → Record} :
    tally items (items.map make) weight = (items.map fun item => weight item (make item)).sum := by
  unfold tally
  rw [List.zipWith_map_right, List.zipWith_self]

end Foundation
