import Mathlib.Data.List.Basic

/-!
Owns spans over a shared sequence: several owners append to it in turn, each keeps the
spans of positions that it appended, and the spans of an owner cover exactly what it
appended.
-/

namespace Foundation

variable {Owner Item : Type} {owner another : Owner} {tags : List (Option Owner)}
  {spans : List (Nat × Nat)} {number count : Nat}

def inSpans (spans : List (Nat × Nat)) (number : Nat) : Bool :=
  spans.any fun span => number ≥ span.1 && number < span.2

theorem inSpans_append {more : List (Nat × Nat)} :
    inSpans (spans ++ more) number = (inSpans spans number || inSpans more number) :=
  List.any_append

theorem inSpans_singleton {first last : Nat} :
    inSpans [(first, last)] number = true ↔ first ≤ number ∧ number < last := by
  simp [inSpans]

/-- The spans cover exactly the positions tagged with an owner. -/
def Spanning (spans : List (Nat × Nat)) (owner : Owner) (tags : List (Option Owner)) : Prop :=
  ∀ number, inSpans spans number = true ↔ tags[number]? = some (some owner)

theorem getElem?_tagged {tag : Option Owner} :
    (tags ++ List.replicate count tag)[number]? = some (some owner) ↔
      tags[number]? = some (some owner) ∨
        (tags.length ≤ number ∧ number < tags.length + count) ∧ tag = some owner := by
  rw [List.getElem?_append]
  split
  · rename_i below
    constructor
    · exact Or.inl
    · rintro (before | ⟨⟨above, _⟩, _⟩)
      · exact before
      · omega
  · rename_i above
    rw [List.getElem?_replicate]
    constructor
    · intro found
      split at found
      · exact Or.inr ⟨⟨by omega, by omega⟩, Option.some.inj found⟩
      · cases found
    · rintro (before | ⟨⟨_, inside⟩, rfl⟩)
      · exact (above (List.getElem?_eq_some_iff.mp before).1).elim
      · rw [if_pos (by omega)]

theorem Spanning.other (spanning : Spanning spans owner tags) {tag : Option Owner}
    (different : tag ≠ some owner) : Spanning spans owner (tags ++ List.replicate count tag) := by
  intro number
  rw [getElem?_tagged, spanning number]
  simp [different]

theorem Spanning.own (spanning : Spanning spans owner tags) :
    Spanning (spans ++ [(tags.length, tags.length + count)]) owner
      (tags ++ List.replicate count (some owner)) := by
  intro number
  rw [inSpans_append, Bool.or_eq_true, getElem?_tagged, spanning number, inSpans_singleton]
  simp

theorem Spanning.empty (fresh : ∀ number : Nat, tags[number]? ≠ some (some owner)) :
    Spanning [] owner tags :=
  fun number => ⟨nofun, fun tagged => (fresh number tagged).elim⟩

theorem Spanning.disjoint (spanning : Spanning spans owner tags) {others : List (Nat × Nat)}
    (spanningOther : Spanning others another tags) (different : owner ≠ another)
    (inside : inSpans spans number = true) : inSpans others number ≠ true := by
  intro insideOther
  have mine := (spanning number).mp inside
  have theirs := (spanningOther number).mp insideOther
  exact different (Option.some.inj (Option.some.inj (mine.symm.trans theirs)))

section Owned

variable [DecidableEq Owner]

def ownedBy (owner : Owner) : List Item → List (Option Owner) → List Item
  | item :: items, tag :: tags =>
    if tag = some owner then item :: ownedBy owner items tags else ownedBy owner items tags
  | _, _ => []

variable {items : List Item} {number : Item → Nat}

def Numbered (number : Item → Nat) (items : List Item) : Prop :=
  ∀ (i : Nat) item, items[i]? = some item → number item = i

theorem filter_inSpans (numbered : Numbered number items) (sameLength : items.length = tags.length)
    (spanning : Spanning spans owner tags) :
    items.filter (fun item => inSpans spans (number item)) = ownedBy owner items tags := by
  suffices from_ : ∀ offset, (∀ (i : Nat) item, items[i]? = some item → number item = offset + i) →
      (∀ i, inSpans spans (offset + i) = true ↔ tags[i]? = some (some owner)) →
      items.filter (fun item => inSpans spans (number item)) = ownedBy owner items tags from
    from_ 0 (fun i item found => (numbered i item found).trans (Nat.zero_add i).symm)
      fun i => (Nat.zero_add i).symm ▸ spanning i
  clear numbered spanning
  induction items generalizing tags with
  | nil => exact fun _ _ _ => rfl
  | cons item items ih =>
    intro offset numbered covered
    cases tags with
    | nil => cases sameLength
    | cons tag tags =>
      have later := ih (Nat.succ.inj sameLength) (offset + 1)
        (fun i item found => by
          rw [numbered (i + 1) item found]
          omega)
        fun i => by
          rw [Nat.add_assoc, Nat.add_comm 1 i]
          exact covered (i + 1)
      have here : inSpans spans (number item) = true ↔ tag = some owner := by
        rw [numbered 0 item rfl, covered 0]
        exact ⟨Option.some.inj, congrArg some⟩
      rw [ownedBy, List.filter_cons, later]
      by_cases mine : tag = some owner
      · rw [if_pos mine, if_pos (here.mpr mine)]
      · rw [if_neg mine, if_neg fun inside => mine (here.mp inside)]

theorem mem_ownedBy {i : Nat} {item : Item} (found : items[i]? = some item)
    (tagged : tags[i]? = some (some owner)) : item ∈ ownedBy owner items tags := by
  induction items generalizing tags i with
  | nil => cases found
  | cons first items ih =>
    cases tags with
    | nil => cases tagged
    | cons tag tags =>
      rw [ownedBy]
      cases i with
      | zero =>
        obtain rfl := Option.some.inj found
        obtain rfl := Option.some.inj tagged
        rw [if_pos rfl]
        exact List.mem_cons_self
      | succ i =>
        have later := ih found tagged
        split
        · exact List.mem_cons_of_mem _ later
        · exact later

theorem Numbered.pairwise (numbered : Numbered number items) :
    items.Pairwise fun left right => number left < number right := by
  rw [List.pairwise_iff_getElem]
  intro i j belowI belowJ before
  rw [numbered i _ (List.getElem?_eq_getElem belowI), numbered j _ (List.getElem?_eq_getElem belowJ)]
  exact before

end Owned

end Foundation
