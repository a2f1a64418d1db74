import Rvm.Context.Capability
import Rvm.Foundation.Borders
import Rvm.Foundation.Call

/-!
Owns the linear matcher of `rvm-context/src/resolver.rs`: the failure table of a query and
the count of its occurrences. An index out of range panics, as does a fall-back that does
not end.
-/

namespace Rvm.Context

open Foundation Foundation.Call List

structure QueryMatcher where
  needle : List UInt8
  failure : List Nat
deriving DecidableEq

namespace QueryMatcher

/-- The `while` loops: fall back along the failure table to a prefix the byte
continues, or to the empty one. -/
def fallBack (needle : List UInt8) (failure : List Nat) (byte : UInt8) :
    Nat → Nat → Call ContextError Unit Nat
  | 0, _ => orPanic none
  | fuel + 1, matched =>
    if matched > 0 then do
      if byte ≠ (← orPanic needle[matched]?) then
        fallBack needle failure byte fuel (← orPanic failure[matched - 1]?)
      else return matched
    else return matched

/-- One round of the loop of `new` over the needle. -/
def extend (needle : List UInt8) (table : List Nat × Nat) (index : Nat) :
    Call ContextError Unit (List Nat × Nat) := do
  let byte ← orPanic needle[index]?
  let matched ← fallBack needle table.1 byte (needle.length + 1) table.2
  if byte = (← orPanic needle[matched]?) then
    return (table.1.set index (matched + 1), matched + 1)
  else return (table.1, matched)

def new (needle : List UInt8) : Call ContextError Unit QueryMatcher := do
  let table ← (List.range' 1 (needle.length - 1)).foldlM (extend needle)
    (List.replicate needle.length 0, 0)
  return ⟨needle, table.1⟩

/-- One round of the loop of `occurrence_count` over the haystack. -/
def scan (matcher : QueryMatcher) (seen : Nat × Nat) (byte : UInt8) :
    Call ContextError Unit (Nat × Nat) := do
  let matched ← fallBack matcher.needle matcher.failure byte (matcher.needle.length + 1) seen.1
  if byte = (← orPanic matcher.needle[matched]?) then
    if matched + 1 = matcher.needle.length then
      -- `saturating_add`
      return (← orPanic matcher.failure[matched]?, min (seen.2 + 1) u32Max)
    else return (matched + 1, seen.2)
  else return (matched, seen.2)

def occurrenceCount (matcher : QueryMatcher) (haystack : List UInt8) :
    Call ContextError Unit Nat := do
  if matcher.needle.isEmpty || decide (haystack.length < matcher.needle.length) then return 0
  else
    let seen ← haystack.foldlM (scan matcher) (0, 0)
    return seen.2

structure Table (needle : List UInt8) (failure : List Nat) : Prop where
  length : failure.length = needle.length
  border : ∀ (i entry : Nat), failure[i]? = some entry →
    Border needle (i + 1) (needle.take (i + 1)) entry

/-- The table while it is built: the borders of the prefixes up to `count`, then zeros. -/
structure Filled (needle : List UInt8) (failure : List Nat) (count : Nat) : Prop where
  length : failure.length = needle.length
  border : ∀ (i entry : Nat), i < count → failure[i]? = some entry →
    Border needle (i + 1) (needle.take (i + 1)) entry
  blank : ∀ (i entry : Nat), count ≤ i → failure[i]? = some entry → entry = 0

variable {needle text haystack : List UInt8} {failure later : List Nat} {byte : UInt8}

theorem Table.filled (table : Table needle failure) : Filled needle failure needle.length where
  length := table.length
  border i entry _ := table.border i entry
  blank i entry above found := by
    rw [List.getElem?_eq_none (table.length.trans_le above)] at found
    cases found

theorem Filled.snoc {count : Nat} (filled : Filled needle failure count)
    (length : later.length = failure.length)
    (others : ∀ i, i ≠ count → later[i]? = failure[i]?)
    (here : ∀ entry, later[count]? = some entry →
      Border needle (count + 1) (needle.take (count + 1)) entry) :
    Filled needle later (count + 1) where
  length := length.trans filled.length
  border i entry below found := by
    by_cases last : i = count
    · subst last
      exact here entry found
    · exact filled.border i entry (by omega) (others i last ▸ found)
  blank i entry above found := filled.blank i entry (by omega) (others i (by omega) ▸ found)

theorem fallBack_spec {bound fuel matched count : Nat} (filled : Filled needle failure count)
    (ready : bound ≤ count) (within : bound ≤ needle.length)
    (continuing : Continuing needle bound text byte matched) (enough : matched < fuel) :
    (fallBack needle failure byte fuel matched).Ensures ()
      (fun shorter _ => Continuing needle bound text byte shorter ∧
        (shorter = 0 ∨ needle[shorter]? = some byte)) fun _ _ => False := by
  induction fuel generalizing matched with
  | zero => omega
  | succ fuel ih =>
    unfold fallBack
    have below := continuing.below
    by_cases fallen : matched > 0
    · have inside : matched < needle.length := by omega
      have previous : matched - 1 < failure.length := by
        rw [filled.length]
        omega
      have border := filled.border (matched - 1) _ (by omega) (List.getElem?_eq_getElem previous)
      rw [Nat.sub_add_cancel fallen] at border
      rw [if_pos fallen]
      simp only [ensures_bind, ensures_orPanic, ensures_ite, ensures_pure,
        List.getElem?_eq_getElem inside, List.getElem?_eq_getElem previous, Option.some.injEq,
        exists_eq_left', ne_eq, not_not]
      refine ⟨fun differs => ih (continuing.fall ?_ border) ?_,
        fun same => ⟨continuing, .inr same.symm⟩⟩
      · rw [List.getElem?_eq_getElem inside, ne_eq, Option.some.injEq]
        exact fun same => differs same.symm
      · have shorter := border.below
        omega
    · rw [if_neg fallen]
      exact ⟨continuing, .inl (by omega)⟩

theorem extend_spec {table : List Nat × Nat} {count : Nat} (filled : Filled needle table.1 count)
    (inside : count < needle.length) (border : Border needle count (needle.take count) table.2) :
    (extend needle table count).Ensures ()
      (fun next _ => Filled needle next.1 (count + 1) ∧
        Border needle (count + 1) (needle.take (count + 1)) next.2) fun _ _ => False := by
  have below := border.below
  unfold extend
  simp only [ensures_bind, ensures_orPanic, List.getElem?_eq_getElem inside, Option.some.injEq,
    exists_eq_left']
  apply (fallBack_spec filled (Nat.le_refl _) inside.le border.continuing (by omega)).weaken
  rintro matched _ ⟨continuing, stopped⟩
  have shorter : matched < needle.length := continuing.below.trans inside
  rw [take_succ_eq_append_getElem inside]
  simp only [List.getElem?_eq_getElem shorter, Option.some.injEq, exists_eq_left', ensures_ite,
    ensures_pure] at stopped ⊢
  refine ⟨fun same => ?_, fun differs => ?_⟩
  · have grown := continuing.grow inside.le (List.getElem?_eq_getElem shorter ▸ congrArg _ same.symm)
    refine ⟨filled.snoc length_set (fun i apart => List.getElem?_set_ne (Ne.symm apart))
      fun entry found => ?_, grown⟩
    rw [List.getElem?_set_self (filled.length ▸ inside)] at found
    rw [take_succ_eq_append_getElem inside, ← Option.some.inj found]
    exact grown
  · obtain rfl := stopped.resolve_right fun same => differs same.symm
    have stays := continuing.stay inside.le fun same =>
      differs (Option.some.inj (List.getElem?_eq_getElem shorter ▸ same)).symm
    refine ⟨filled.snoc rfl (fun _ _ => rfl) fun entry found => ?_, stays⟩
    rw [take_succ_eq_append_getElem inside, filled.blank count entry (Nat.le_refl _) found]
    exact stays

theorem new_spec (needle : List UInt8) :
    (new needle).Ensures ()
      (fun matcher _ => matcher.needle = needle ∧ Table matcher.needle matcher.failure)
      fun _ _ => False := by
  unfold new
  have single : Border needle 1 (needle.take 1) 0 :=
    ⟨Nat.one_pos, nil_suffix, fun j below _ => Nat.le_of_lt_succ below⟩
  have zero : ∀ (i entry : Nat), (List.replicate needle.length 0)[i]? = some entry → entry = 0 :=
    fun i entry found => eq_of_mem_replicate (mem_of_getElem? found)
  have initial : Filled needle (List.replicate needle.length 0) 1 := by
    refine ⟨length_replicate, fun i entry below found => ?_, fun i entry _ => zero i entry⟩
    obtain rfl := Nat.lt_one_iff.mp below
    rw [zero 0 entry found]
    exact single
  rw [ensures_bind]
  apply (ensures_foldlM (fun visited table _ => Filled needle table.1 (visited.length + 1) ∧
    Border needle (visited.length + 1) (needle.take (visited.length + 1)) table.2)
    ⟨initial, single⟩ _).weaken
  rintro table _ ⟨filled, _⟩
  refine ⟨rfl, filled.length, fun i entry found => filled.border i entry ?_ found⟩
  have inside := (List.getElem?_eq_some_iff.mp found).1
  rw [filled.length] at inside
  rw [length_range']
  omega
  · intro visited index rest table _ split filled
    have position : (List.range' 1 (needle.length - 1))[visited.length]? = some index := by
      rw [split, List.getElem?_append_right (Nat.le_refl _), Nat.sub_self]
      rfl
    obtain ⟨within, located⟩ := List.getElem?_eq_some_iff.mp position
    rw [length_range'] at within
    rw [getElem_range', Nat.one_mul, Nat.add_comm] at located
    rw [← located, length_append]
    exact extend_spec filled.1 (by omega) filled.2

structure Scanned (needle text : List UInt8) (seen : Nat × Nat) : Prop where
  border : Border needle needle.length text seen.1
  count : seen.2 = min (occurrences needle text) u32Max

theorem Scanned.shorter {seen : Nat × Nat} {matched : Nat} (scanned : Scanned needle text seen)
    (border : Border needle (needle.length + 1) (text ++ [byte]) matched)
    (below : matched < needle.length) : Scanned needle (text ++ [byte]) (matched, seen.2) where
  border := border.lower below
  count := by
    have absent : needle.isSuffixOf (text ++ [byte]) = false := by
      rw [← Bool.not_eq_true, isSuffixOf_iff_suffix]
      intro occurs
      have longest := border.longest needle.length (Nat.lt_succ_self _)
        (by rwa [take_length])
      omega
    rw [occurrences_snoc, absent, scanned.count]
    rfl

variable {matcher : QueryMatcher}

theorem scan_spec (table : Table matcher.needle matcher.failure) {seen : Nat × Nat}
    (scanned : Scanned matcher.needle text seen) (byte : UInt8) :
    (matcher.scan seen byte).Ensures ()
      (fun next _ => Scanned matcher.needle (text ++ [byte]) next) fun _ _ => False := by
  have below := scanned.border.below
  unfold scan
  rw [ensures_bind]
  apply (fallBack_spec table.filled (Nat.le_refl _) (Nat.le_refl _) scanned.border.continuing
    (by omega)).weaken
  rintro matched _ ⟨continuing, stopped⟩
  have shorter : matched < matcher.needle.length := continuing.below
  have previous : matched < matcher.failure.length := table.length.symm ▸ shorter
  simp only [ensures_bind, ensures_orPanic, List.getElem?_eq_getElem shorter,
    List.getElem?_eq_getElem previous, Option.some.injEq, exists_eq_left', ensures_ite,
    ensures_pure] at stopped ⊢
  refine ⟨fun same => ?_, fun differs => ?_⟩
  · have grown := continuing.grow (Nat.le_refl _)
      (List.getElem?_eq_getElem shorter ▸ congrArg _ same.symm)
    refine ⟨fun whole => ?_, fun part => scanned.shorter grown (by omega)⟩
    have own := table.border matched _ (List.getElem?_eq_getElem previous)
    have occurs : matcher.needle.isSuffixOf (text ++ [byte]) = true := by
      have ends := grown.ends
      rwa [whole, take_length, ← isSuffixOf_iff_suffix] at ends
    constructor
    · rw [whole] at own grown
      exact grown.fall own
    · rw [occurrences_snoc, occurs, scanned.count]
      simp only [if_true]
      omega
  · obtain rfl := stopped.resolve_right fun same => differs same.symm
    have stays := continuing.stay (Nat.le_refl _) fun same =>
      differs (Option.some.inj (List.getElem?_eq_getElem shorter ▸ same)).symm
    exact scanned.shorter stays shorter

theorem occurrenceCount_spec (table : Table matcher.needle matcher.failure)
    (haystack : List UInt8) :
    (matcher.occurrenceCount haystack).Ensures ()
      (fun count _ => matcher.needle ≠ [] →
        count = min (occurrences matcher.needle haystack) u32Max) fun _ _ => False := by
  unfold occurrenceCount
  split
  · rename_i unsearched
    intro nonempty
    have short : haystack.length < matcher.needle.length := by simpa [nonempty] using unsearched
    rw [occurrences_of_short short, Nat.zero_min]
  · rename_i searched
    have positive : 0 < matcher.needle.length := by
      apply length_pos_iff.mpr
      simp_all
    have initial : Scanned matcher.needle [] (0, 0) := by
      refine ⟨⟨positive, nil_suffix, fun j below ends => ?_⟩, ?_⟩
      · have nothing := ends.length_le
        rw [length_take, length_nil] at nothing
        omega
      · rw [@occurrences_of_short _ matcher.needle [] _ _ positive, Nat.zero_min]
    rw [ensures_bind]
    apply (ensures_foldlM (fun visited seen _ => Scanned matcher.needle visited seen) initial _).weaken
    exact fun _ _ scanned _ => scanned.count
    · exact fun _ byte _ seen _ _ scanned => scan_spec table scanned byte

theorem occurrenceCount_returns (table : Table matcher.needle matcher.failure)
    (haystack : List UInt8) :
    (matcher.occurrenceCount haystack).Ensures () (fun _ _ => True) fun _ _ => False :=
  (occurrenceCount_spec table haystack).weaken fun _ _ _ => trivial

/-- The count of a matcher is the number of occurrences of its query, up to `u32::MAX`; neither
loop indexes out of range. -/
theorem occurrenceCount_exact (needle haystack : List UInt8) (nonempty : needle ≠ []) :
    (do (← new needle).occurrenceCount haystack).runFrom () =
      some (.ok (min (occurrences needle haystack) u32Max), ()) := by
  have counted : (do (← new needle).occurrenceCount haystack).Ensures ()
      (fun count _ => count = min (occurrences needle haystack) u32Max) fun _ _ => False := by
    rw [ensures_bind]
    apply (new_spec needle).weaken
    rintro matcher _ ⟨rfl, table⟩
    exact (occurrenceCount_spec table haystack).weaken fun _ _ exactly => exactly nonempty
  rcases counted.outcome with ⟨count, _, ran, rfl⟩ | ⟨_, _, _, impossible⟩
  · exact ran
  · exact impossible.elim

/-- Occurrences may overlap. -/
theorem occurrenceCount_overlapping :
    (do (← new [1, 2, 1]).occurrenceCount [1, 2, 1, 2, 1]).runFrom () = some (.ok 2, ()) :=
  (occurrenceCount_exact [1, 2, 1] [1, 2, 1, 2, 1] (by decide)).trans (by decide)

end QueryMatcher

end Rvm.Context
