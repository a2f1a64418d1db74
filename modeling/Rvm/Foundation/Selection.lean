import Mathlib.Data.List.Pairwise
import Mathlib.Data.List.Sort

/-!
Owns bounded selection: keeping the best elements of a stream by replacing the worst one is
sorting the whole and cutting it off; and what a loop collects from the entries it visits.
-/

namespace Foundation

open List

def AtMost {α : Type} (cmp : α → α → Ordering) (left right : α) : Prop := cmp left right ≠ .gt

namespace AtMost

variable {α : Type} {cmp : α → α → Ordering}

instance : DecidableRel (AtMost cmp) := fun _ _ => inferInstanceAs (Decidable (_ ≠ _))

theorem iff_isLE {left right : α} : AtMost cmp left right ↔ (cmp left right).isLE :=
  Ordering.isLE_iff_ne_gt.symm

instance [Std.OrientedCmp cmp] : Std.Total (AtMost cmp) where
  total left right := by
    unfold AtMost
    rw [@Std.OrientedCmp.eq_swap _ cmp _ right left]
    cases cmp left right <;> simp

instance [Std.TransCmp cmp] : IsTrans α (AtMost cmp) where
  trans left middle right first second := by
    rw [iff_isLE] at first second ⊢
    exact Std.TransCmp.isLE_trans first second

end AtMost

variable {α : Type} {order : α → α → Prop} {limit : Nat} {all kept rest : List α} {fresh : α}

/-- The kept elements, with those that were passed over: the limit was reached before any
was, and no kept one comes after one of them. -/
structure Best (order : α → α → Prop) (limit : Nat) (all kept : List α) : Prop where
  split : ∃ rest, all.Perm (kept ++ rest) ∧ (rest ≠ [] → kept.length = limit) ∧
    ∀ one ∈ kept, ∀ other ∈ rest, order one other
  short : kept.length ≤ limit

namespace Best

theorem nil (order : α → α → Prop) (limit : Nat) : Best order limit [] [] :=
  ⟨⟨[], .nil, fun wrong => absurd rfl wrong, nofun⟩, Nat.zero_le limit⟩

theorem grow (best : Best order limit all kept) (room : kept.length < limit) :
    Best order limit (all ++ [fresh]) (kept ++ [fresh]) := by
  obtain ⟨rest, perm, reached, _⟩ := best.split
  obtain rfl : rest = [] := by
    by_contra more
    exact absurd (reached more) (Nat.ne_of_lt room)
  refine ⟨⟨[], ?_, fun wrong => absurd rfl wrong, nofun⟩, ?_⟩
  · rw [append_nil] at perm ⊢
    exact perm.append_right [fresh]
  · rw [length_append]
    exact room

variable {index : Nat} {worst : α}

theorem eq_around (at_index : kept[index]? = some worst) :
    kept = kept.take index ++ worst :: kept.drop (index + 1) := by
  obtain ⟨inside, isAt⟩ := List.getElem?_eq_some_iff.mp at_index
  rw [← isAt, getElem_cons_drop, take_append_drop]

theorem set_eq (at_index : kept[index]? = some worst) :
    kept.set index fresh = kept.take index ++ fresh :: kept.drop (index + 1) :=
  set_eq_take_append_cons_drop.trans (if_pos (List.getElem?_eq_some_iff.mp at_index).1)

variable (full : kept.length = limit)
  (isWorst : ∀ one ∈ kept, order one worst)

include full isWorst

theorem replace [IsTrans α order] (best : Best order limit all kept)
    (at_index : kept[index]? = some worst) (before : order fresh worst) :
    Best order limit (all ++ [fresh]) (kept.set index fresh) := by
  obtain ⟨rest, perm, _, ahead⟩ := best.split
  obtain ⟨inside, isAt⟩ := List.getElem?_eq_some_iff.mp at_index
  have member : worst ∈ kept := isAt ▸ getElem_mem inside
  refine ⟨⟨worst :: rest, ?_, fun _ => ?_, ?_⟩, ?_⟩
  · rw [set_eq at_index]
    rw [eq_around at_index] at perm
    calc
      (all ++ [fresh]).Perm (fresh :: all) := perm_append_singleton fresh all
      List.Perm _ (fresh :: (kept.take index ++ worst :: kept.drop (index + 1) ++ rest)) :=
        perm.cons fresh
      List.Perm _ (fresh :: (kept.take index ++ kept.drop (index + 1) ++ worst :: rest)) := by
        apply List.Perm.cons
        rw [append_assoc, append_assoc]
        apply List.Perm.append_left
        exact perm_middle.symm
      List.Perm _ (kept.take index ++ fresh :: kept.drop (index + 1) ++ worst :: rest) := by
        rw [append_assoc, append_assoc]
        exact perm_middle.symm
  · rw [length_set, full]
  · intro one oneIn other otherIn
    have below : order one worst := by
      rcases mem_or_eq_of_mem_set oneIn with old | rfl
      · exact isWorst one old
      · exact before
    rcases mem_cons.mp otherIn with rfl | passed
    · exact below
    · exact IsTrans.trans _ _ _ below (ahead worst member other passed)
  · rw [length_set, full]

theorem pass [IsTrans α order] (best : Best order limit all kept) (after : order worst fresh) :
    Best order limit (all ++ [fresh]) kept := by
  obtain ⟨rest, perm, _, ahead⟩ := best.split
  refine ⟨⟨fresh :: rest, ?_, fun _ => full, ?_⟩, best.short⟩
  · calc
      (all ++ [fresh]).Perm (kept ++ rest ++ [fresh]) := perm.append_right [fresh]
      _ = kept ++ (rest ++ [fresh]) := append_assoc ..
      List.Perm _ (kept ++ fresh :: rest) :=
        (perm_append_singleton fresh rest).append_left kept
  · intro one oneIn other otherIn
    rcases mem_cons.mp otherIn with rfl | passed
    · exact IsTrans.trans _ _ _ (isWorst one oneIn) after
    · exact ahead one oneIn other passed

omit full isWorst

theorem sorted [DecidableRel order] [Std.Total order] [IsTrans α order]
    (best : Best order limit all kept)
    (antisymmetric : ∀ one ∈ all, ∀ other ∈ all, order one other → order other one → one = other) :
    kept.insertionSort order = (all.insertionSort order).take limit := by
  obtain ⟨rest, perm, reached, ahead⟩ := best.split
  have whole : all.insertionSort order = kept.insertionSort order ++ rest.insertionSort order := by
    apply List.Perm.eq_of_pairwise
    · intro one other oneIn otherIn
      have among : other ∈ all := by
        apply perm.mem_iff.mpr
        simpa [mem_insertionSort] using otherIn
      exact antisymmetric one ((mem_insertionSort order).mp oneIn) other among
    · exact pairwise_insertionSort order all
    · apply pairwise_append.mpr
      refine ⟨pairwise_insertionSort order kept, pairwise_insertionSort order rest, ?_⟩
      intro one oneIn other otherIn
      exact ahead one ((mem_insertionSort order).mp oneIn) other
        ((mem_insertionSort order).mp otherIn)
    · calc
        (all.insertionSort order).Perm all := perm_insertionSort order all
        List.Perm _ (kept ++ rest) := perm
        List.Perm _ (kept.insertionSort order ++ rest.insertionSort order) :=
          (perm_insertionSort order kept).symm.append (perm_insertionSort order rest).symm
  rw [whole]
  by_cases none : rest = []
  · rw [none, insertionSort_nil, append_nil, take_of_length_le]
    rw [length_insertionSort]
    exact best.short
  · rw [take_left']
    rw [length_insertionSort, reached none]

end Best

/-- What a bounded enumeration returns: of the elements that qualify, each once and in
order, the first ones up to the limit. -/
def FirstOf {α : Type} (cmp : α → α → Ordering) (limit : Nat) (Qualifies : α → Prop)
    (results : List α) : Prop :=
  ∃ all : List α, all.Pairwise (fun left right => cmp left right = .lt) ∧
    (∀ item, item ∈ all ↔ Qualifies item) ∧ results = all.take limit

variable {cmp : α → α → Ordering} {Qualifies : α → Prop}

theorem firstOf_sorted [Std.TransCmp cmp] (qualify : ∀ item, item ∈ all ↔ Qualifies item)
    (distinct : all.Pairwise fun left right => cmp left right ≠ .eq) :
    FirstOf cmp limit Qualifies ((all.insertionSort (AtMost cmp)).take limit) := by
  refine ⟨all.insertionSort (AtMost cmp), ?_, fun item => ?_, rfl⟩
  · have apart : (all.insertionSort (AtMost cmp)).Pairwise
        fun left right => cmp left right ≠ .eq := by
      apply (perm_insertionSort (AtMost cmp) all).symm.pairwise distinct
      intro left right differ same
      exact differ (Std.OrientedCmp.eq_comm.mp same)
    apply ((pairwise_insertionSort (AtMost cmp) all).and apart).imp
    rintro left right ⟨atMost, differ⟩
    unfold AtMost at atMost
    revert atMost differ
    cases cmp left right <;> decide
  · rw [mem_insertionSort, qualify]

theorem Best.firstOf [Std.TransCmp cmp] (best : Best (AtMost cmp) limit all kept)
    (qualify : ∀ item, item ∈ all ↔ Qualifies item)
    (distinct : all.Pairwise fun left right => cmp left right ≠ .eq) :
    FirstOf cmp limit Qualifies (kept.insertionSort (AtMost cmp)) := by
  rw [best.sorted]
  · exact firstOf_sorted qualify distinct
  · intro one oneIn other otherIn left right
    by_contra apart
    have symmetric : Std.Symm fun left right => cmp left right ≠ .eq :=
      ⟨fun _ _ differ same => differ (Std.OrientedCmp.eq_comm.mp same)⟩
    have differ : cmp one other ≠ .eq := distinct.forall oneIn otherIn apart
    unfold AtMost at left right
    rw [@Std.OrientedCmp.eq_swap _ cmp _ other one] at right
    revert left right differ
    cases cmp one other <;> decide

/-- What a loop has collected from the entries it visited, one item at most for each:
the items that the entries give, under different names. -/
structure Collected {Entry Item Name : Type} (Gives : Entry → Item → Prop) (nameOf : Item → Name)
    (visited : List Entry) (items : List Item) : Prop where
  members : ∀ item, item ∈ items ↔ ∃ entry ∈ visited, Gives entry item
  apart : (items.map nameOf).Nodup

namespace Collected

variable {Entry Item Name : Type} {Gives : Entry → Item → Prop} {nameOf : Item → Name}
  {entryName : Entry → Name} {visited : List Entry} {items : List Item} {entry : Entry}
  {item : Item}

theorem nil : Collected Gives nameOf [] [] := ⟨by simp, .nil⟩

theorem skip (collected : Collected Gives nameOf visited items)
    (nothing : ∀ item, ¬ Gives entry item) :
    Collected Gives nameOf (visited ++ [entry]) items := by
  refine ⟨fun item => ?_, collected.apart⟩
  simp [collected.members, or_and_right, exists_or, nothing]

theorem add (collected : Collected Gives nameOf visited items)
    (only : ∀ other, Gives entry other ↔ other = item)
    (named : ∀ entry item, Gives entry item → nameOf item = entryName entry)
    (fresh : entryName entry ∉ visited.map entryName) :
    Collected Gives nameOf (visited ++ [entry]) (items ++ [item]) := by
  refine ⟨fun other => ?_, ?_⟩
  · simp [collected.members, or_and_right, exists_or, only]
  · rw [map_append, map_singleton]
    apply List.Nodup.append collected.apart (nodup_singleton _)
    rw [disjoint_singleton, named entry item ((only item).mpr rfl)]
    intro taken
    obtain ⟨other, among, same⟩ := mem_map.mp taken
    obtain ⟨earlier, seen, gives⟩ := (collected.members other).mp among
    apply fresh
    rw [← same, named earlier other gives]
    exact mem_map_of_mem seen

theorem distinct {cmp : Item → Item → Ordering} (collected : Collected Gives nameOf visited items)
    (sameName : ∀ left right, cmp left right = .eq → nameOf left = nameOf right) :
    items.Pairwise fun left right => cmp left right ≠ .eq := by
  apply (pairwise_map.mp collected.apart).imp
  exact fun differ same => differ (sameName _ _ same)

end Collected

end Foundation
