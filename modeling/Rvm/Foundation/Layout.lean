import Mathlib.Algebra.GroupWithZero.Nat
import Mathlib.Order.Bounds.Basic
import Mathlib.Tactic.Common

/-!
Owns layouts of items in a row of positions: spans laid end to end, pieces of one size of
which the last may be shorter, and items that start at the next boundary of a unit.
-/

namespace Foundation

open List

structure Span where
  start : Nat
  stop : Nat
deriving DecidableEq, Repr

namespace Span

def Contains (span : Span) (i : Nat) : Prop := span.start ≤ i ∧ i < span.stop

def size (span : Span) : Nat := span.stop - span.start

def shift (span : Span) (offset : Nat) : Span := ⟨offset + span.start, offset + span.stop⟩

instance (span : Span) (i : Nat) : Decidable (span.Contains i) :=
  inferInstanceAs (Decidable (_ ∧ _))

def Disjoint (left right : Span) : Prop := ∀ i, ¬ (left.Contains i ∧ right.Contains i)

def Before (left right : Span) : Prop := left.stop ≤ right.start

theorem Before.disjoint {left right : Span} (before : left.Before right) : left.Disjoint right := by
  rintro i ⟨⟨_, inLeft⟩, inRight, _⟩
  exact absurd (Nat.lt_of_lt_of_le inLeft before) (Nat.not_lt.mpr inRight)

end Span

def EndToEnd : Nat → List Span → Nat → Prop
  | start, [], stop => start = stop
  | start, span :: rest, stop =>
    span.start = start ∧ start ≤ span.stop ∧ EndToEnd span.stop rest stop

namespace EndToEnd

variable {start middle stop : Nat} {spans later : List Span}

theorem le (laid : EndToEnd start spans stop) : start ≤ stop := by
  induction spans generalizing start with
  | nil => exact Nat.le_of_eq laid
  | cons span rest ih =>
    exact laid.2.1.trans (ih laid.2.2)

theorem within (laid : EndToEnd start spans stop) :
    ∀ span ∈ spans, start ≤ span.start ∧ span.start ≤ span.stop ∧ span.stop ≤ stop := by
  induction spans generalizing start with
  | nil => simp
  | cons first rest ih =>
    obtain ⟨here, ordered, laidRest⟩ := laid
    intro span member
    rcases mem_cons.mp member with rfl | later
    · exact ⟨Nat.le_of_eq here.symm, here ▸ ordered, laidRest.le⟩
    · obtain ⟨after, rest⟩ := ih laidRest span later
      exact ⟨ordered.trans after, rest⟩

theorem pairwise (laid : EndToEnd start spans stop) : spans.Pairwise Span.Before := by
  induction spans generalizing start with
  | nil => exact .nil
  | cons first rest ih =>
    obtain ⟨_, _, laidRest⟩ := laid
    exact .cons (fun span member => (laidRest.within span member).1)
      (ih laidRest)

theorem covers (laid : EndToEnd start spans stop) {i : Nat} (after : start ≤ i)
    (before : i < stop) : ∃ span ∈ spans, span.Contains i := by
  induction spans generalizing start with
  | nil =>
    have same : start = stop := laid
    omega
  | cons first rest ih =>
    obtain ⟨here, _, laidRest⟩ := laid
    by_cases inFirst : i < first.stop
    · exact ⟨first, mem_cons_self, here ▸ after, inFirst⟩
    · obtain ⟨span, member, contains⟩ :=
        ih laidRest (Nat.not_lt.mp inFirst)
      exact ⟨span, mem_cons_of_mem first member, contains⟩

theorem append (laid : EndToEnd start spans middle) (continued : EndToEnd middle later stop) :
    EndToEnd start (spans ++ later) stop := by
  induction spans generalizing start with
  | nil =>
    obtain rfl : start = middle := laid
    exact continued
  | cons span rest ih => exact ⟨laid.1, laid.2.1, ih laid.2.2⟩

theorem sum_size (laid : EndToEnd start spans stop) : start + (spans.map Span.size).sum = stop := by
  induction spans generalizing start with
  | nil => exact laid
  | cons span rest ih =>
    obtain ⟨here, ordered, laidRest⟩ := laid
    have later := ih laidRest
    rw [map_cons, sum_cons, Span.size]
    omega

theorem shift {offset : Nat} (laid : EndToEnd start spans stop) :
    EndToEnd (offset + start) (spans.map fun span => span.shift offset) (offset + stop) := by
  induction spans generalizing start with
  | nil => exact congrArg (offset + ·) laid
  | cons span rest ih =>
    exact ⟨congrArg (offset + ·) laid.1, Nat.add_le_add_left laid.2.1 offset, ih laid.2.2⟩

end EndToEnd

section Pieces

/-- The spans from each of the first marks to the next one. -/
def spansBetween (mark : Nat → Nat) (count : Nat) : List Span :=
  (List.range count).map fun i => ⟨mark i, mark (i + 1)⟩

theorem spansBetween_endToEnd {mark : Nat → Nat} {count : Nat}
    (rising : ∀ i < count, mark i ≤ mark (i + 1)) :
    EndToEnd (mark 0) (spansBetween mark count) (mark count) := by
  induction count with
  | zero => rfl
  | succ count ih =>
    have before := ih fun i below => rising i (Nat.lt_succ_of_lt below)
    have last : EndToEnd (mark count) [⟨mark count, mark (count + 1)⟩] (mark (count + 1)) :=
      ⟨rfl, rising count (Nat.lt_succ_self count), rfl⟩
    rw [spansBetween, range_succ, map_append]
    exact before.append last

/-- How far pieces of one size fill a row of `total` positions when the last is cut short. -/
def filled (size total k : Nat) : Nat := min (k * size) total

variable {size total k : Nat}

theorem filled_zero : filled size total 0 = 0 := by
  rw [filled, Nat.zero_mul, Nat.zero_min]

theorem filled_of_le (within : k * size ≤ total) : filled size total k = k * size :=
  Nat.min_eq_left within

theorem filled_all (reach : total ≤ k * size) : filled size total k = total :=
  Nat.min_eq_right reach

theorem filled_le : filled size total k ≤ total := Nat.min_le_right _ _

theorem filled_succ_le : filled size total (k + 1) ≤ filled size total k + size := by
  rw [filled, filled, Nat.succ_mul]
  omega

theorem filled_le_succ : filled size total k ≤ filled size total (k + 1) := by
  rw [filled, filled, Nat.succ_mul]
  omega

theorem filled_lt_succ (positive : 0 < size) (before : k * size < total) :
    filled size total k < filled size total (k + 1) := by
  rw [filled, filled, Nat.succ_mul]
  omega

theorem pieces_endToEnd {count : Nat} (reach : total ≤ count * size) :
    EndToEnd 0 (spansBetween (filled size total) count) total := by
  have laid := @spansBetween_endToEnd (filled size total) count fun _ _ => filled_le_succ
  rwa [filled_zero, filled_all reach] at laid

end Pieces

/-- The first multiple of `unit` at or after a position. -/
def boundary (unit position : Nat) : Nat := (position + unit - 1) / unit * unit

section Boundaries

variable {unit position : Nat}

theorem le_boundary (positive : 0 < unit) : position ≤ boundary unit position := by
  have small := Nat.lt_div_mul_add (a := position + unit - 1) positive
  unfold boundary
  omega

theorem boundary_lt (positive : 0 < unit) : boundary unit position < position + unit := by
  have small := Nat.div_mul_le_self (position + unit - 1) unit
  unfold boundary
  omega

theorem boundary_dvd : unit ∣ boundary unit position := Nat.dvd_mul_left ..

theorem boundary_isLeast (positive : 0 < unit) :
    IsLeast {n | unit ∣ n ∧ position ≤ n} (boundary unit position) := by
  refine ⟨⟨boundary_dvd, le_boundary positive⟩, ?_⟩
  rintro other ⟨⟨k, rfl⟩, after⟩
  have below := @boundary_lt unit position positive
  rw [boundary, Nat.mul_comm unit k]
  rw [boundary] at below
  apply Nat.mul_le_mul_right
  have strict : (position + unit - 1) / unit * unit < (k + 1) * unit := by
    rw [Nat.succ_mul, Nat.mul_comm k]
    omega
  exact Nat.lt_succ_iff.mp (Nat.lt_of_mul_lt_mul_right strict)

end Boundaries

section Items

variable {α : Type} {unit start middle stop : Nat} {parts : α → List Span} {items : List α}

/-- Each item's parts lie end to end, are not all empty, and the next item starts
at the first boundary after them. -/
def Laid (unit : Nat) (parts : α → List Span) : Nat → List α → Nat → Prop
  | start, [], stop => start = stop
  | start, item :: rest, stop =>
    ∃ finish, EndToEnd start (parts item) finish ∧ start < finish ∧
      Laid unit parts (boundary unit finish) rest stop

namespace Laid

theorem append {later : List α} (laid : Laid unit parts start items middle)
    (continued : Laid unit parts middle later stop) :
    Laid unit parts start (items ++ later) stop := by
  induction items generalizing start with
  | nil =>
    obtain rfl : start = middle := laid
    exact continued
  | cons item rest ih =>
    obtain ⟨finish, parted, advanced, laidRest⟩ := laid
    exact ⟨finish, parted, advanced, ih laidRest⟩

theorem snoc {item : α} {finish : Nat} (laid : Laid unit parts start items middle)
    (parted : EndToEnd middle (parts item) finish) (advanced : middle < finish) :
    Laid unit parts start (items ++ [item]) (boundary unit finish) :=
  laid.append ⟨finish, parted, advanced, rfl⟩

theorem le (positive : 0 < unit) (laid : Laid unit parts start items stop) : start ≤ stop := by
  induction items generalizing start with
  | nil => exact Nat.le_of_eq laid
  | cons item rest ih =>
    obtain ⟨finish, _, advanced, laidRest⟩ := laid
    have up := @le_boundary unit finish positive
    have rest := ih laidRest
    omega

theorem neighbours (laid : Laid unit parts start items stop) {i : Nat} {left right : α}
    (leftAt : items[i]? = some left) (rightAt : items[i + 1]? = some right) :
    ∃ begin finish ending, EndToEnd begin (parts left) finish ∧
      EndToEnd (boundary unit finish) (parts right) ending := by
  induction items generalizing start i with
  | nil => cases leftAt
  | cons item rest ih =>
    obtain ⟨finish, parted, _, laidRest⟩ := laid
    cases i with
    | zero =>
      obtain rfl := Option.some.inj leftAt
      cases rest with
      | nil => cases rightAt
      | cons next rest =>
        obtain rfl := Option.some.inj rightAt
        obtain ⟨ending, nextParted, _⟩ := laidRest
        exact ⟨start, finish, ending, parted, nextParted⟩
    | succ i => exact ih laidRest leftAt rightAt

theorem last (laid : Laid unit parts start items stop) {item : α}
    (isLast : items.getLast? = some item) :
    ∃ begin finish, EndToEnd begin (parts item) finish ∧ stop = boundary unit finish := by
  induction items generalizing start with
  | nil => cases isLast
  | cons first rest ih =>
    obtain ⟨finish, parted, _, laidRest⟩ := laid
    cases rest with
    | nil =>
      obtain rfl : first = item := Option.some.inj isLast
      exact ⟨start, finish, parted, laidRest.symm⟩
    | cons second rest =>
      rw [List.getLast?_cons_cons] at isLast
      exact ih laidRest isLast

theorem placed (positive : 0 < unit) (aligned : unit ∣ start)
    (laid : Laid unit parts start items stop) :
    ∀ item ∈ items, ∃ begin finish, EndToEnd begin (parts item) finish ∧ begin < finish ∧
      unit ∣ begin ∧ start ≤ begin ∧ boundary unit finish ≤ stop := by
  induction items generalizing start with
  | nil => simp
  | cons first rest ih =>
    obtain ⟨finish, parted, advanced, laidRest⟩ := laid
    intro item member
    rcases mem_cons.mp member with rfl | later
    · exact ⟨start, finish, parted, advanced, aligned, Nat.le_refl _, laidRest.le positive⟩
    · obtain ⟨begin, ending, here⟩ := ih boundary_dvd laidRest item later
      have up := @le_boundary unit finish positive
      exact ⟨begin, ending, here.1, here.2.1, here.2.2.1, by omega, here.2.2.2.2⟩

theorem ordered (positive : 0 < unit) (aligned : unit ∣ start)
    (laid : Laid unit parts start items stop) :
    items.Pairwise fun left right => ∃ begin finish later ending,
      EndToEnd begin (parts left) finish ∧ begin < finish ∧
        EndToEnd later (parts right) ending ∧ boundary unit finish ≤ later := by
  induction items generalizing start with
  | nil => exact .nil
  | cons item rest ih =>
    obtain ⟨finish, parted, advanced, laidRest⟩ := laid
    refine .cons (fun other member => ?_) (ih boundary_dvd laidRest)
    obtain ⟨later, ending, otherParted, _, _, after, _⟩ :=
      laidRest.placed positive boundary_dvd other member
    exact ⟨start, finish, later, ending, parted, advanced, otherParted, after⟩

theorem pairwise (positive : 0 < unit) (laid : Laid unit parts start items stop) :
    (items.flatMap parts).Pairwise Span.Before := by
  induction items generalizing start with
  | nil => exact .nil
  | cons item rest ih =>
    obtain ⟨finish, parted, _, laidRest⟩ := laid
    rw [flatMap_cons, pairwise_append]
    refine ⟨parted.pairwise, ih laidRest, fun left inItem right inRest => ?_⟩
    obtain ⟨other, otherMember, rightMember⟩ := mem_flatMap.mp inRest
    obtain ⟨begin, ending, otherParted, _, _, after, _⟩ :=
      laidRest.placed positive boundary_dvd other otherMember
    have leftEnds := (parted.within left inItem).2.2
    have rightStarts := (otherParted.within right rightMember).1
    have up := @le_boundary unit finish positive
    show left.stop ≤ right.start
    omega

theorem covers (laid : Laid unit parts start items stop) {i : Nat} (after : start ≤ i)
    (before : i < stop) :
    (∃ span ∈ items.flatMap parts, span.Contains i) ∨
      ∃ item ∈ items, ∃ begin finish, EndToEnd begin (parts item) finish ∧
        finish ≤ i ∧ i < boundary unit finish := by
  induction items generalizing start with
  | nil =>
    have same : start = stop := laid
    omega
  | cons item rest ih =>
    obtain ⟨finish, parted, _, laidRest⟩ := laid
    rw [flatMap_cons]
    by_cases inItem : i < finish
    · obtain ⟨span, member, contains⟩ := parted.covers after inItem
      exact .inl ⟨span, mem_append_left _ member, contains⟩
    · by_cases inGap : i < boundary unit finish
      · exact .inr ⟨item, mem_cons_self, start, finish, parted, Nat.not_lt.mp inItem, inGap⟩
      · rcases ih laidRest (Nat.not_lt.mp inGap) with covered | gap
        · obtain ⟨span, member, contains⟩ := covered
          exact .inl ⟨span, mem_append_right _ member, contains⟩
        · obtain ⟨other, member, placed⟩ := gap
          exact .inr ⟨other, mem_cons_of_mem item member, placed⟩

end Laid

end Items

end Foundation
