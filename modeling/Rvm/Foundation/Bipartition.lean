import Rvm.Foundation.MinCut

/-!
Owns the bipartitions of a list of distinct vertices and the weight across them:
what is chosen by place is a bipartition, every bipartition is chosen so, and its
weight is that across the two sets of places.
-/

namespace Foundation

open Finset

variable {α M : Type} [AddCommMonoid M] {weight : α → α → M} {w : Nat → Nat → M}
  {name : Nat → α} {n : Nat} {nodes left right : List α} {choose : Nat → Bool}

/-- Two sides that are not empty and together list every node once. -/
structure Bipartition (nodes left right : List α) : Prop where
  covers : (left ++ right).Perm nodes
  leftNonempty : left ≠ []
  rightNonempty : right ≠ []

/-- The total weight from one side to the other. -/
def crossWeight (weight : α → α → M) (left right : List α) : M :=
  (left.map fun a => (right.map (weight a)).sum).sum

structure MinimumCut [LE M] (weight : α → α → M) (nodes left right : List α) (value : M) : Prop
    extends Bipartition nodes left right where
  weighs : value = crossWeight weight left right
  least : ∀ other rest, Bipartition nodes other rest → value ≤ crossWeight weight other rest

def pick (name : Nat → α) (n : Nat) (choose : Nat → Bool) : List α :=
  ((List.range n).filter choose).map name

def chosen (n : Nat) (choose : Nat → Bool) : Finset Nat :=
  (range n).filter fun i => choose i = true

theorem mem_chosen {i : Nat} : i ∈ chosen n choose ↔ i < n ∧ choose i = true := by
  rw [chosen, mem_filter, mem_range]

theorem mem_pick {a : α} : a ∈ pick name n choose ↔ ∃ i, i < n ∧ choose i = true ∧ name i = a := by
  simp only [pick, List.mem_map, List.mem_filter, List.mem_range, and_assoc]

theorem pick_succ (k : Nat) :
    pick name (k + 1) choose = pick name k choose ++ if choose k = true then [name k] else [] := by
  rw [pick, pick, List.range_succ, List.filter_append, List.map_append]
  cases here : choose k <;> simp [here]

theorem pick_take {k : Nat} (isChosen : choose k = true) :
    pick name (k + 1) choose = pick name k choose ++ [name k] := by
  rw [pick_succ, if_pos isChosen]

theorem pick_skip {k : Nat} (notChosen : choose k = false) :
    pick name (k + 1) choose = pick name k choose := by
  rw [pick_succ, if_neg (Bool.not_eq_true _ ▸ notChosen), List.append_nil]

theorem chosen_not : chosen n (fun i => !choose i) = range n \ chosen n choose := by
  ext i
  rw [mem_sdiff, mem_chosen, mem_chosen, mem_range]
  cases choose i <;> simp

theorem pick_perm : (pick name n choose ++ pick name n fun i => !choose i).Perm
    ((List.range n).map name) := by
  rw [pick, pick, ← List.map_append]
  exact (List.filter_append_perm choose (List.range n)).map name

theorem pick_ne_nil : pick name n choose ≠ [] ↔ (chosen n choose).Nonempty := by
  constructor
  · intro nonempty
    obtain ⟨a, member⟩ := List.exists_mem_of_ne_nil _ nonempty
    obtain ⟨i, inside, isChosen, _⟩ := mem_pick.mp member
    exact ⟨i, mem_chosen.mpr ⟨inside, isChosen⟩⟩
  · rintro ⟨i, member⟩
    obtain ⟨inside, isChosen⟩ := mem_chosen.mp member
    exact List.ne_nil_of_mem (mem_pick.mpr ⟨i, inside, isChosen, rfl⟩)

theorem pick_nodup (distinct : ((List.range n).map name).Nodup) : (pick name n choose).Nodup :=
  distinct.sublist (List.filter_sublist.map name)

theorem pick_sum (value : α → M) :
    ((pick name n choose).map value).sum = ∑ i ∈ chosen n choose, value (name i) := by
  have distinct : ((List.range n).filter choose).Nodup := List.nodup_range.filter choose
  have places : ((List.range n).filter choose).toFinset = chosen n choose := by
    ext i
    rw [List.mem_toFinset, List.mem_filter, List.mem_range, mem_chosen]
  rw [pick, List.map_map, ← places, List.sum_toFinset _ distinct]
  rfl

theorem pick_crossWeight
    (same : ∀ i j, i < n → j < n → i ≠ j → w i j = weight (name i) (name j)) :
    crossWeight weight (pick name n choose) (pick name n fun i => !choose i) =
      across w (chosen n choose) (range n \ chosen n choose) := by
  rw [crossWeight, pick_sum, across, ← chosen_not]
  refine sum_congr rfl fun i member => ?_
  rw [pick_sum]
  refine sum_congr rfl fun j other => ?_
  obtain ⟨iInside, iChosen⟩ := mem_chosen.mp member
  obtain ⟨jInside, jOther⟩ := mem_chosen.mp other
  refine (same i j iInside jInside fun here => ?_).symm
  rw [here] at iChosen
  rw [iChosen] at jOther
  cases jOther

theorem crossWeight_perm {other rest : List α} (first : left.Perm other) (second : right.Perm rest) :
    crossWeight weight left right = crossWeight weight other rest := by
  have rows : (fun a => (right.map (weight a)).sum) = fun a => (rest.map (weight a)).sum :=
    funext fun a => (second.map (weight a)).sum_eq
  rw [crossWeight, crossWeight, rows]
  exact (first.map _).sum_eq

theorem Bipartition.exists_choice [DecidableEq α] (bipartition : Bipartition nodes left right)
    (distinct : nodes.Nodup) (listed : (List.range n).map name = nodes) :
    ∃ choose, (pick name n choose).Perm left ∧ (pick name n fun i => !choose i).Perm right := by
  have sides : (left ++ right).Nodup := bipartition.covers.nodup_iff.mpr distinct
  have places : ((List.range n).map name).Nodup := listed ▸ distinct
  have known : ∀ a, a ∈ left ++ right ↔ ∃ i, i < n ∧ name i = a := by
    intro a
    rw [bipartition.covers.mem_iff, ← listed, List.mem_map]
    exact exists_congr fun i => and_congr_left' List.mem_range
  refine ⟨fun i => decide (name i ∈ left), ?_, ?_⟩
  · refine (List.perm_ext_iff_of_nodup (pick_nodup places) sides.of_append_left).mpr fun a => ?_
    rw [mem_pick]
    constructor
    · rintro ⟨i, _, isChosen, rfl⟩
      exact of_decide_eq_true isChosen
    · intro member
      obtain ⟨i, inside, rfl⟩ := (known a).mp (List.mem_append_left right member)
      exact ⟨i, inside, decide_eq_true member, rfl⟩
  · refine (List.perm_ext_iff_of_nodup (pick_nodup places) sides.of_append_right).mpr fun a => ?_
    rw [mem_pick]
    constructor
    · rintro ⟨i, inside, isOther, rfl⟩
      have member := (known (name i)).mpr ⟨i, inside, rfl⟩
      exact (List.mem_append.mp member).resolve_left (by simpa using isOther)
    · intro member
      obtain ⟨i, inside, rfl⟩ := (known a).mp (List.mem_append_right left member)
      have notLeft : name i ∉ left := fun also =>
        List.disjoint_of_nodup_append sides also member
      exact ⟨i, inside, by simpa using notLeft, rfl⟩

theorem Bipartition.exists_part [DecidableEq α] (bipartition : Bipartition nodes left right)
    (distinct : nodes.Nodup) (listed : (List.range n).map name = nodes)
    (same : ∀ i j, i < n → j < n → i ≠ j → w i j = weight (name i) (name j)) :
    ∃ part ⊆ Finset.range n, part.Nonempty ∧ part ≠ Finset.range n ∧
      crossWeight weight left right = across w part (Finset.range n \ part) := by
  obtain ⟨choose, toLeft, toRight⟩ := bipartition.exists_choice distinct listed
  have first : pick name n choose ≠ [] := fun none =>
    bipartition.leftNonempty (List.nil_perm.mp (none ▸ toLeft))
  have second : (pick name n fun i => !choose i) ≠ [] := fun none =>
    bipartition.rightNonempty (List.nil_perm.mp (none ▸ toRight))
  rw [pick_ne_nil, chosen_not] at second
  refine ⟨chosen n choose, Finset.filter_subset _ _, pick_ne_nil.mp first, fun whole => ?_, ?_⟩
  · rw [whole, Finset.sdiff_self] at second
    exact Finset.not_nonempty_empty second
  · rw [← crossWeight_perm toLeft toRight, pick_crossWeight same]

theorem minimumCut_pick [DecidableEq α] [LE M] {value : M} (distinct : nodes.Nodup)
    (listed : (List.range n).map name = nodes)
    (same : ∀ i j, i < n → j < n → i ≠ j → w i j = weight (name i) (name j))
    (nonempty : (chosen n choose).Nonempty) (proper : chosen n choose ≠ range n)
    (attained : across w (chosen n choose) (range n \ chosen n choose) = value)
    (least : ∀ part ⊆ range n, part.Nonempty → part ≠ range n →
      value ≤ across w part (range n \ part)) :
    MinimumCut weight nodes (pick name n choose) (pick name n fun i => !choose i) value := by
  refine ⟨⟨listed ▸ pick_perm, pick_ne_nil.mpr nonempty, pick_ne_nil.mpr ?_⟩, ?_, ?_⟩
  · rw [chosen_not]
    exact sdiff_nonempty.mpr fun whole =>
      proper (Finset.Subset.antisymm (filter_subset _ _) whole)
  · rw [pick_crossWeight same, attained]
  · intro other rest bipartition
    obtain ⟨part, inside, partNonempty, partProper, weighs⟩ :=
      bipartition.exists_part distinct listed same
    rw [weighs]
    exact least part inside partNonempty partProper

end Foundation
