import Mathlib.Data.Finset.Card
import Mathlib.Data.List.Range

/-!
Owns tables of fixed size: the count of their occupied slots under filling and emptying,
free slots, records with distinct keys, and the invariant rules of a sweep.
-/

namespace Foundation

open Function List Option

def occupied (size : Nat) (used : Nat → Bool) : Nat := (List.range size).countP used

section Occupancy

variable {size i : Nat} {used other : Nat → Bool}

theorem occupied_congr (same : ∀ i, i < size → other i = used i) :
    occupied size other = occupied size used :=
  countP_congr fun i inRange => by rw [same i (mem_range.mp inRange)]

theorem occupied_succ :
    occupied (size + 1) used = occupied size used + if used size = true then 1 else 0 := by
  rw [occupied, range_succ, countP_append, countP_singleton, occupied]

@[simp] theorem occupied_none : occupied size (fun _ => false) = 0 := by
  simp [occupied]

theorem occupied_fill (below : i < size) (free : used i = false) (filled : other i = true)
    (same : ∀ j, j ≠ i → other j = used j) : occupied size other = occupied size used + 1 := by
  induction size with
  | zero => cases below
  | succ size ih =>
    simp only [occupied, range_succ, countP_append, countP_singleton] at *
    by_cases last : i = size
    · subst last
      have before : List.countP other (List.range i) = List.countP used (List.range i) :=
        occupied_congr fun j inside => same j (Nat.ne_of_lt inside)
      rw [before, free, filled]
      rfl
    · rw [ih (by omega), same size (Ne.symm last)]
      omega

theorem occupied_clear (below : i < size) (held : used i = true) (cleared : other i = false)
    (same : ∀ j, j ≠ i → other j = used j) : occupied size other + 1 = occupied size used :=
  (occupied_fill below cleared held fun j apart => (same j apart).symm).symm

theorem exists_free (room : occupied size used < size) : ∃ i, i < size ∧ used i = false := by
  by_contra full
  push Not at full
  have all : List.countP used (List.range size) = (List.range size).length :=
    countP_eq_length.mpr fun i inRange => by
      simpa using full i (mem_range.mp inRange)
  rw [length_range] at all
  exact absurd all (Nat.ne_of_lt room)

theorem occupied_le_of_below {bound : Nat}
    (below : ∀ i, i < size → used i = true → i < bound) : occupied size used ≤ bound := by
  have within : ((List.range size).filter used).toFinset ⊆ Finset.range bound := by
    intro i member
    rw [List.mem_toFinset, mem_filter, mem_range] at member
    exact Finset.mem_range.mpr (below i member.1 member.2)
  have counted := Finset.card_le_card within
  rwa [toFinset_card_of_nodup (nodup_range.filter used), Finset.card_range,
    ← countP_eq_length_filter] at counted

end Occupancy

section Keyed

variable {Record : Type} {size i : Nat} {table : Nat → Record} {held : Record → Bool}
  {key : Record → Nat} {record : Record}

def Distinct (size : Nat) (held : Record → Bool) (key : Record → Nat) (table : Nat → Record) :
    Prop :=
  ∀ i j, i < size → j < size → held (table i) = true → held (table j) = true →
    key (table i) = key (table j) → i = j

theorem Distinct.update (distinct : Distinct size held key table)
    (fresh : held record = true → ∀ j, j < size → j ≠ i → held (table j) = true →
      key (table j) ≠ key record) :
    Distinct size held key (update table i record) := by
  intro j k jBelow kBelow jHeld kHeld same
  by_cases jHere : j = i
  · by_cases kHere : k = i
    · exact jHere.trans kHere.symm
    · rw [jHere, update_self] at jHeld same
      rw [update_of_ne kHere] at kHeld same
      exact absurd same.symm (fresh jHeld k kBelow kHere kHeld)
  · rw [update_of_ne jHere] at jHeld same
    by_cases kHere : k = i
    · rw [kHere, update_self] at kHeld same
      exact absurd same (fresh kHeld j jBelow jHere jHeld)
    · rw [update_of_ne kHere] at kHeld same
      exact distinct j k jBelow kBelow jHeld kHeld same

theorem Distinct.replace (distinct : Distinct size held key table) (below : i < size)
    (inUse : held (table i) = true) (sameKey : key record = key (table i)) :
    Distinct size held key (Function.update table i record) :=
  distinct.update fun _ j jBelow different jHeld same =>
    different (distinct j i jBelow below jHeld inUse (same.trans sameKey))

theorem find_range_eq_some_iff {test : Nat → Bool}
    (only : ∀ j k, j < size → k < size → test j = true → test k = true → j = k) :
    (List.range size).find? test = some i ↔ i < size ∧ test i = true := by
  constructor
  · intro found
    exact ⟨mem_range.mp (mem_of_find?_eq_some found), List.find?_some found⟩
  · rintro ⟨below, passes⟩
    cases found : (List.range size).find? test with
    | none => exact absurd passes (List.find?_eq_none.mp found i (mem_range.mpr below))
    | some j =>
      have jBelow := mem_range.mp (mem_of_find?_eq_some found)
      rw [only j i jBelow below (List.find?_some found) passes]

theorem occupied_update (below : i < size) (free : held (table i) = false)
    (filled : held record = true) :
    occupied size (fun j => held (update table i record j)) =
      occupied size (fun j => held (table j)) + 1 := by
  refine occupied_fill below free ?_ fun j apart => ?_
  · rw [update_self, filled]
  · rw [update_of_ne apart]

theorem occupied_erase (below : i < size) (inUse : held (table i) = true)
    (cleared : held record = false) :
    occupied size (fun j => held (update table i record j)) + 1 =
      occupied size (fun j => held (table j)) := by
  refine occupied_clear below inUse ?_ fun j apart => ?_
  · rw [update_self, cleared]
  · rw [update_of_ne apart]

def lookup (size : Nat) (held : Record → Bool) (key : Record → Nat) (table : Nat → Record)
    (wanted : Nat) : Option Record :=
  ((List.range size).find? fun i => held (table i) && decide (key (table i) = wanted)).map table

theorem lookup_eq_none_iff {wanted : Nat} : lookup size held key table wanted = none ↔
    ∀ i, i < size → held (table i) = true → key (table i) ≠ wanted := by
  simp [lookup]

theorem Distinct.find_eq_some_iff (distinct : Distinct size held key table) {wanted : Nat} :
    (List.range size).find? (fun j => held (table j) && decide (key (table j) = wanted)) = some i ↔
      i < size ∧ held (table i) = true ∧ key (table i) = wanted := by
  rw [find_range_eq_some_iff, Bool.and_eq_true, decide_eq_true_iff]
  intro j k jBelow kBelow jPasses kPasses
  rw [Bool.and_eq_true, decide_eq_true_iff] at jPasses kPasses
  exact distinct j k jBelow kBelow jPasses.1 kPasses.1 (jPasses.2.trans kPasses.2.symm)

theorem Distinct.lookup_eq_some_iff (distinct : Distinct size held key table) {wanted : Nat} :
    lookup size held key table wanted = some record ↔
      ∃ i, i < size ∧ held (table i) = true ∧ key (table i) = wanted ∧ table i = record := by
  simp only [lookup, map_eq_some_iff, distinct.find_eq_some_iff, and_assoc]

theorem Distinct.lookup_update (distinct : Distinct size held key table)
    (after : Distinct size held key (Function.update table i record)) (below : i < size)
    (filled : held record = true) (replaces : held (table i) = true → key (table i) = key record) :
    lookup size held key (Function.update table i record) =
      Function.update (lookup size held key table) (key record) (some record) := by
  funext wanted
  by_cases same : wanted = key record
  · subst same
    rw [update_self, after.lookup_eq_some_iff]
    exact ⟨i, below, by simpa using filled, by simp, by simp⟩
  · rw [update_of_ne same]
    apply Option.ext
    intro other
    rw [after.lookup_eq_some_iff, distinct.lookup_eq_some_iff]
    apply exists_congr
    intro j
    by_cases here : j = i
    · subst here
      simp only [update_self]
      constructor
      · exact fun ⟨_, _, isWanted, _⟩ => absurd isWanted.symm same
      · exact fun ⟨_, inUse, isWanted, _⟩ => absurd (isWanted.symm.trans (replaces inUse)) same
    · rw [update_of_ne here]

theorem Distinct.lookup_erase (distinct : Distinct size held key table) (below : i < size)
    (inUse : held (table i) = true) (cleared : held record = false) :
    lookup size held key (Function.update table i record) =
      Function.update (lookup size held key table) (key (table i)) none := by
  have after : Distinct size held key (Function.update table i record) :=
    distinct.update fun filled => by simp [cleared] at filled
  funext wanted
  apply Option.ext
  intro other
  by_cases same : wanted = key (table i)
  · subst same
    rw [update_self, after.lookup_eq_some_iff]
    constructor
    · rintro ⟨j, jBelow, jHeld, sameKey, -⟩
      by_cases here : j = i
      · simp [here, cleared] at jHeld
      · rw [update_of_ne here] at jHeld sameKey
        exact absurd (distinct j i jBelow below jHeld inUse sameKey) here
    · exact nofun
  · rw [update_of_ne same, after.lookup_eq_some_iff, distinct.lookup_eq_some_iff]
    apply exists_congr
    intro j
    by_cases here : j = i
    · subst here
      simp only [update_self]
      constructor
      · exact fun ⟨_, filled, _⟩ => by simp [cleared] at filled
      · exact fun ⟨_, _, isWanted, _⟩ => absurd isWanted.symm same
    · rw [update_of_ne here]

end Keyed

section Tables

variable {α : Type} {size i k : Nat} {slots : Nat → Option α} {value held : α}

theorem filled_cases (found : update slots i (some value) k = some held) :
    k = i ∧ held = value ∨ k ≠ i ∧ slots k = some held := by
  by_cases here : k = i
  · rw [here, update_self] at found
    exact .inl ⟨here, (some.inj found).symm⟩
  · rw [update_of_ne here] at found
    exact .inr ⟨here, found⟩

theorem emptied_cases (found : update slots i none k = some held) :
    k ≠ i ∧ slots k = some held := by
  by_cases here : k = i
  · rw [here, update_self] at found
    cases found
  · rw [update_of_ne here] at found
    exact ⟨here, found⟩

theorem occupied_filled (below : i < size) (free : slots i = none) :
    occupied size (fun j => (update slots i (some value) j).isSome) =
      occupied size (fun j => (slots j).isSome) + 1 :=
  occupied_update below (isSome_eq_false_iff.mpr (isNone_iff_eq_none.mpr free)) rfl

theorem occupied_emptied (below : i < size) (holds : slots i = some held) :
    occupied size (fun j => (update slots i none j).isSome) + 1 =
      occupied size fun j => (slots j).isSome :=
  occupied_erase below (isSome_iff_exists.mpr ⟨held, holds⟩) rfl

end Tables

section Sweeps

variable {State : Type} {size : Nat} {Holds : Nat → State → Prop} {start : State}

/-- A fallible sweep over all slots returns when each visit does, and keeps what
each visit keeps. -/
theorem sweep_returns {visit : State → Nat → Option State} (initial : Holds 0 start)
    (kept : ∀ i here, i < size → Holds i here →
      ∃ next, visit here i = some next ∧ Holds (i + 1) next) :
    ∃ final, (List.range size).foldlM visit start = some final ∧ Holds size final := by
  induction size with
  | zero => exact ⟨start, rfl, initial⟩
  | succ size ih =>
    obtain ⟨here, swept, holds⟩ := ih fun i here below =>
      kept i here (Nat.lt_succ_of_lt below)
    obtain ⟨next, visited, after⟩ := kept size here (Nat.lt_succ_self size) holds
    refine ⟨next, ?_, after⟩
    rw [range_succ, foldlM_append, swept]
    simpa using visited

theorem sweep_holds {visit : State → Nat → Option State} (initial : Holds 0 start)
    (kept : ∀ i here next, i < size → Holds i here → visit here i = some next →
      Holds (i + 1) next) {final : State}
    (swept : (List.range size).foldlM visit start = some final) : Holds size final := by
  induction size generalizing final with
  | zero => exact some.inj swept ▸ initial
  | succ size ih =>
    rw [range_succ, foldlM_append] at swept
    obtain ⟨here, first, last⟩ := bind_eq_some_iff.mp swept
    have holds := ih (fun i here next below =>
      kept i here next (Nat.lt_succ_of_lt below)) first
    exact kept size here final (Nat.lt_succ_self size) holds (by simpa using last)

theorem sweep_relates {α : Type} {visit : State → α → Option State} {relation : State → State → Prop}
    (same : ∀ here, relation here here)
    (chained : ∀ {first second third}, relation first second → relation second third →
      relation first third)
    (visited : ∀ {here item next}, visit here item = some next → relation here next)
    {items : List α} {final : State} (swept : items.foldlM visit start = some final) :
    relation start final := by
  induction items generalizing start with
  | nil =>
    obtain rfl := some.inj swept
    exact same _
  | cons item rest ih =>
    rw [foldlM_cons] at swept
    obtain ⟨here, first, later⟩ := bind_eq_some_iff.mp swept
    exact chained (visited first) (ih later)

theorem sweep_keeps {visit : State → Nat → State} (initial : Holds 0 start)
    (kept : ∀ i here, i < size → Holds i here → Holds (i + 1) (visit here i)) :
    Holds size ((List.range size).foldl visit start) := by
  induction size with
  | zero => exact initial
  | succ size ih =>
    rw [range_succ, foldl_append]
    exact kept size _ (Nat.lt_succ_self size) (ih fun i here below =>
      kept i here (Nat.lt_succ_of_lt below))

end Sweeps

end Foundation
