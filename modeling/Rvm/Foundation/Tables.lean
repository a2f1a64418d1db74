import Mathlib.Data.List.Nodup
import Mathlib.Order.Lattice

/-!
Owns tables kept as lists and searched by a key, and maps kept as their entries in the order
of the keys, so that maps that agree on every key are the same list.
-/

namespace Foundation

universe u v

variable {Entry : Type u} {Key : Type v} [DecidableEq Key]

def entryFor (keyOf : Entry → Key) (entries : List Entry) (key : Key) : Option Entry :=
  entries.find? fun entry => decide (keyOf entry = key)

namespace entryFor

variable {keyOf : Entry → Key} {entries : List Entry} {entry : Entry} {key other : Key}

theorem keyOf_eq (found : entryFor keyOf entries key = some entry) : keyOf entry = key := by
  simpa using List.find?_some found

theorem mem (found : entryFor keyOf entries key = some entry) : entry ∈ entries :=
  List.mem_of_find?_eq_some found

theorem eq_none : entryFor keyOf entries key = none ↔ ∀ entry ∈ entries, keyOf entry ≠ key := by
  simp [entryFor]

theorem at_index {index : Nat}
    (found : entries.findIdx? (fun entry => decide (keyOf entry = key)) = some index) :
    ∃ entry, entries[index]? = some entry ∧ entryFor keyOf entries key = some entry := by
  induction entries generalizing index with
  | nil => cases found
  | cons first rest ih =>
    rw [List.findIdx?_cons] at found
    by_cases here : keyOf first = key
    · rw [if_pos (by simpa using here)] at found
      cases found
      exact ⟨first, rfl, by simp [entryFor, here]⟩
    · rw [if_neg (by simpa using here)] at found
      obtain ⟨later, foundLater, rfl⟩ := Option.map_eq_some_iff.mp found
      obtain ⟨entry, located, same⟩ := ih foundLater
      exact ⟨entry, located, by simpa [entryFor, here] using same⟩

theorem none_of_index
    (absent : entries.findIdx? (fun entry => decide (keyOf entry = key)) = none) :
    entryFor keyOf entries key = none := by
  rw [eq_none]
  intro entry member
  simpa using List.findIdx?_eq_none_iff.mp absent entry member

theorem set {index : Nat} (fresh : Entry)
    (found : entries.findIdx? (fun entry => decide (keyOf entry = keyOf fresh)) = some index) :
    entryFor keyOf (entries.set index fresh) other =
      if other = keyOf fresh then some fresh else entryFor keyOf entries other := by
  induction entries generalizing index with
  | nil => cases found
  | cons first rest ih =>
    rw [List.findIdx?_cons] at found
    by_cases here : keyOf first = keyOf fresh
    · rw [if_pos (by simpa using here)] at found
      cases found
      by_cases same : other = keyOf fresh
      · simp [entryFor, same]
      · simp [entryFor, same, here, Ne.symm same]
    · rw [if_neg (by simpa using here)] at found
      obtain ⟨later, foundLater, rfl⟩ := Option.map_eq_some_iff.mp found
      have rest := ih foundLater
      by_cases atFirst : keyOf first = other
      · have different : ¬ other = keyOf fresh := fun same => here (atFirst.trans same)
        simp [entryFor, atFirst, different]
      · simpa [entryFor, atFirst] using rest

theorem set_blank {index : Nat} {blank : Key} (fresh : Entry)
    (vacant : entries.findIdx? (fun entry => decide (keyOf entry = blank)) = some index)
    (absent : entryFor keyOf entries (keyOf fresh) = none) (named : other ≠ blank) :
    entryFor keyOf (entries.set index fresh) other =
      if other = keyOf fresh then some fresh else entryFor keyOf entries other := by
  induction entries generalizing index with
  | nil => cases vacant
  | cons first rest ih =>
    rw [List.findIdx?_cons] at vacant
    by_cases here : keyOf first = blank
    · rw [if_pos (by simpa using here)] at vacant
      cases vacant
      by_cases same : other = keyOf fresh
      · simp [entryFor, same]
      · simp [entryFor, same, here, Ne.symm same, Ne.symm named]
    · rw [if_neg (by simpa using here)] at vacant
      obtain ⟨later, foundLater, rfl⟩ := Option.map_eq_some_iff.mp vacant
      have notFirst : keyOf first ≠ keyOf fresh := fun same =>
        eq_none.mp absent first List.mem_cons_self same
      have absentLater : entryFor keyOf rest (keyOf fresh) = none :=
        eq_none.mpr fun entry member => eq_none.mp absent entry (List.mem_cons_of_mem _ member)
      have rest := ih foundLater absentLater
      by_cases atFirst : keyOf first = other
      · have different : ¬ other = keyOf fresh := fun same => notFirst (atFirst.trans same)
        simp [entryFor, atFirst, different]
      · simpa [entryFor, atFirst] using rest

theorem append (fresh : Entry) (absent : entryFor keyOf entries (keyOf fresh) = none) :
    entryFor keyOf (entries ++ [fresh]) other =
      if other = keyOf fresh then some fresh else entryFor keyOf entries other := by
  rw [entryFor, List.find?_append]
  by_cases same : other = keyOf fresh
  · subst same
    rw [entryFor] at absent
    simp [absent]
  · simp [entryFor, same, Ne.symm same]

theorem filter (keep : Key → Bool) :
    entryFor keyOf (entries.filter fun entry => keep (keyOf entry)) key =
      if keep key then entryFor keyOf entries key else none := by
  induction entries with
  | nil => simp [entryFor]
  | cons first rest ih =>
    unfold entryFor at ih ⊢
    by_cases here : keyOf first = key
    · cases kept : keep key <;> simp_all
    · cases kept : keep (keyOf first) <;> simp_all

end entryFor

end Foundation

namespace Foundation

universe u v

variable {Key : Type u} {Value : Type v} [LinearOrder Key]

structure OrderedMap (Key : Type u) (Value : Type v) [LinearOrder Key] where
  entries : List (Key × Value)
  ordered : entries.Pairwise fun first second => first.1 < second.1

namespace OrderedMap

instance [DecidableEq Value] : DecidableEq (OrderedMap Key Value) := fun left right =>
  decidable_of_iff (left.entries = right.entries) (by cases left; cases right; simp)

def empty : OrderedMap Key Value := ⟨[], .nil⟩

def get (map : OrderedMap Key Value) (key : Key) : Option Value :=
  (entryFor Prod.fst map.entries key).map Prod.snd

def size (map : OrderedMap Key Value) : Nat := map.entries.length

def values (map : OrderedMap Key Value) : List Value := map.entries.map Prod.snd

def place (key : Key) (value : Value) : List (Key × Value) → List (Key × Value)
  | [] => [(key, value)]
  | entry :: rest =>
    if key < entry.1 then (key, value) :: entry :: rest
    else if key = entry.1 then (key, value) :: rest
    else entry :: place key value rest

theorem mem_place {key : Key} {value : Value} {entries : List (Key × Value)}
    {entry : Key × Value} (member : entry ∈ place key value entries) :
    entry = (key, value) ∨ entry ∈ entries := by
  induction entries with
  | nil => exact .inl (List.mem_singleton.mp member)
  | cons first rest ih =>
    unfold place at member
    split at member
    · exact List.mem_cons.mp member
    · split at member
      · exact (List.mem_cons.mp member).imp_right (List.mem_cons_of_mem _)
      · rcases List.mem_cons.mp member with same | later
        · exact .inr (same ▸ List.mem_cons_self)
        · exact (ih later).imp_right (List.mem_cons_of_mem _)

theorem place_ordered {key : Key} {value : Value} {entries : List (Key × Value)}
    (ordered : entries.Pairwise fun first second => first.1 < second.1) :
    (place key value entries).Pairwise fun first second => first.1 < second.1 := by
  induction entries with
  | nil => exact List.pairwise_singleton _ _
  | cons first rest ih =>
    obtain ⟨below, restOrdered⟩ := List.pairwise_cons.mp ordered
    unfold place
    split
    · rename_i before
      refine List.pairwise_cons.mpr ⟨fun entry member => ?_, ordered⟩
      rcases List.mem_cons.mp member with rfl | later
      · exact before
      · exact lt_trans before (below entry later)
    · split
      · rename_i same
        exact List.pairwise_cons.mpr ⟨fun entry member => same ▸ below entry member, restOrdered⟩
      · rename_i notBefore different
        refine List.pairwise_cons.mpr ⟨fun entry member => ?_, ih restOrdered⟩
        rcases mem_place member with rfl | later
        · exact lt_of_le_of_ne (not_lt.mp notBefore) (Ne.symm different)
        · exact below entry later

def insert (map : OrderedMap Key Value) (key : Key) (value : Value) : OrderedMap Key Value :=
  ⟨place key value map.entries, place_ordered map.ordered⟩

/-- `remove`. -/
def erase (map : OrderedMap Key Value) (key : Key) : OrderedMap Key Value :=
  ⟨map.entries.filter fun entry => entry.1 ≠ key, map.ordered.filter _⟩

end OrderedMap

end Foundation
