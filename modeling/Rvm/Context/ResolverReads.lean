import Rvm.Context.MemoryResolver
import Rvm.Foundation.Tables

/-!
Owns the views of the in-memory resolver's tables, and what its reads can
release: bodies that are not hidden. Every read returns, the governed search with
its profile check and matcher included.
-/

namespace Rvm.Context

open Foundation Foundation.Call ResolvedContext List VerifiedContextProfile

namespace MemoryResolver

variable {primitives : RvfPrimitives} {objectCapacity aliasCapacity : Nat}
  {here next : MemoryResolver}

def keyOf (object : StoredObject) : LogicalName × Revision :=
  (object.canonicalUri.logicalName, object.revision)

def storedBytes (here : MemoryResolver) (name : LogicalName) (revision : Revision) :
    Option (List UInt8) :=
  (entryFor keyOf here.objects (name, revision)).map StoredObject.rvf

def aliasOf (here : MemoryResolver) (name : LogicalName) : Option AliasSnapshot :=
  (entryFor (fun entry : StoredAlias => entry.snapshot.aliasUri.logicalName) here.aliases name).map
    StoredAlias.snapshot

def Visible (here : MemoryResolver) (name : LogicalName) (revision : Revision) : Prop :=
  ∃ object ∈ here.objects, keyOf object = (name, revision) ∧ object.isHidden = false

variable {object : StoredObject} {target : RuvUri} {revision : Revision}

theorem isFor_iff :
    object.isFor target revision = true ↔ keyOf object = (target.logicalName, revision) := by
  simp [StoredObject.isFor, keyOf, and_comm]

theorem objectFor_eq (target : RuvUri) (revision : Revision) :
    here.objectFor target revision =
      entryFor keyOf here.objects (target.logicalName, revision) := by
  unfold objectFor entryFor
  congr 1
  funext object
  rw [Bool.eq_iff_iff, isFor_iff, decide_eq_true_iff]

theorem visible_of_objectFor (found : here.objectFor target revision = some object)
    (shown : object.isHidden = false) : here.Visible target.logicalName revision := by
  rw [objectFor_eq] at found
  exact ⟨object, entryFor.mem found, entryFor.keyOf_eq found, shown⟩

theorem locate_spec {index : Nat} (located : here.locate target revision = some (object, index)) :
    here.objects[index]? = some object ∧ here.objectFor target revision = some object := by
  have member := mem_of_find?_eq_some located
  refine ⟨mk_mem_zipIdx_iff_getElem?.mp member, ?_⟩
  have unindexed : here.objects = here.objects.zipIdx.map Prod.fst := by simp
  unfold objectFor
  rw [unindexed, List.find?_map]
  exact congrArg (Option.map Prod.fst) located

theorem aliasIndex_eq (target : RuvUri) :
    here.aliasIndex target = here.aliases.findIdx? fun entry =>
      decide (entry.snapshot.aliasUri.logicalName = target.logicalName) := by
  unfold aliasIndex
  congr 1
  funext entry
  rw [Bool.eq_iff_iff, sameLogicalName_iff, decide_eq_true_iff]

theorem aliasIndex_spec {index : Nat} (found : here.aliasIndex target = some index) :
    ∃ entry, here.aliases[index]? = some entry ∧
      here.aliasOf target.logicalName = some entry.snapshot := by
  rw [aliasIndex_eq] at found
  obtain ⟨entry, located, same⟩ := entryFor.at_index found
  exact ⟨entry, located, by rw [aliasOf, same, Option.map_some]⟩

theorem aliasIndex_none (absent : here.aliasIndex target = none) :
    here.aliasOf target.logicalName = none := by
  rw [aliasIndex_eq] at absent
  rw [aliasOf, entryFor.none_of_index absent, Option.map_none]

end MemoryResolver

theorem withRevision_spec {uri : RuvUri} {revision : Revision} {pinned : PinnedRuvUri}
    (made : uri.withRevision revision = .ok pinned) :
    pinned.uri.logicalName = uri.logicalName ∧ pinned.revision = revision := by
  obtain ⟨_, _, same⟩ := bind_eq_ok.mp made
  cases same
  exact ⟨rfl, rfl⟩

theorem tryFrom_spec {uri : RuvUri} {pinned : PinnedRuvUri}
    (made : PinnedRuvUri.tryFrom uri = .ok pinned) :
    pinned.uri = uri ∧ uri.revision = some pinned.revision := by
  unfold PinnedRuvUri.tryFrom at made
  split at made
  · rename_i revision pin
    cases made
    exact ⟨rfl, pin⟩
  · cases made

def ResolvedContext.released (resolved : ResolvedContext) : LogicalName × Revision :=
  (resolved.pinnedUri.uri.logicalName, resolved.revision)

def ContextHit.released (hit : ContextHit) : LogicalName × Revision :=
  (hit.pinnedUri.uri.logicalName, hit.revision)

namespace MemoryResolver

variable {primitives : RvfPrimitives} {objectCapacity aliasCapacity : Nat}
  {here next : MemoryResolver}

theorem resolvedFor_spec (target : RuvUri) :
    (here.resolvedFor target).Ensures ()
      (fun result _ => ∃ object, here.objects[result.2]? = some object ∧
        here.objectFor target result.1.revision = some object ∧ object.isHidden = false ∧
        result.1.pinnedUri.uri.logicalName = target.logicalName)
      fun _ _ => True := by
  unfold resolvedFor
  split
  · rename_i revision pin
    simp only [ensures_bind, ensures_orThrow, ensures_throwIf, ensures_translate,
      ensures_orRefusal, ensures_pure, implies_true, true_and, and_true, Prod.forall]
    intro object index located shown pinned made
    obtain ⟨position, found⟩ := locate_spec located
    exact ⟨object, position, found, by simpa using shown, by rw [(tryFrom_spec made).1]⟩
  · simp only [ensures_bind, ensures_orThrow, ensures_orPanic, ensures_throwIf, ensures_translate,
      ensures_orRefusal, ensures_pure, implies_true, true_and, and_true, Prod.forall]
    intro aliasIndex indexed
    obtain ⟨entry, stored, _⟩ := aliasIndex_spec indexed
    refine ⟨entry, stored, fun _ object index located shown pinned made => ?_⟩
    obtain ⟨position, found⟩ := locate_spec located
    refine ⟨object, position, found, ?_, (withRevision_spec made).1⟩
    cases hidden : object.isHidden <;> simp_all

theorem resolvedFor_visible (target : RuvUri) :
    (here.resolvedFor target).Ensures ()
      (fun result _ => here.Visible result.1.released.1 result.1.released.2)
      fun _ _ => True := by
  apply (resolvedFor_spec target).mono _ fun _ _ _ => trivial
  rintro result _ ⟨object, _, found, shown, named⟩
  rw [released, named]
  exact visible_of_objectFor found shown

theorem resolvedBytes_spec (target : RuvUri) :
    (here.resolvedBytes target).Ensures ()
      (fun result _ => here.Visible result.1.released.1 result.1.released.2 ∧
        here.storedBytes result.1.released.1 result.1.released.2 = some result.2)
      fun _ _ => True := by
  unfold resolvedBytes
  rw [ensures_bind]
  apply (resolvedFor_spec target).mono _ fun _ _ _ => trivial
  rintro ⟨resolved, index⟩ _ ⟨object, position, found, shown, named⟩
  simp only [ensures_bind, ensures_orPanic, ensures_pure]
  refine ⟨object, position, ?_⟩
  rw [released, named]
  refine ⟨visible_of_objectFor found shown, ?_⟩
  rw [storedBytes, ← objectFor_eq, found, Option.map_some]

theorem verifiedBytes_spec (target : RuvUri) :
    (verifiedBytes primitives here target).Ensures ()
      (fun result _ => here.Visible result.1.released.1 result.1.released.2 ∧
        here.storedBytes result.1.released.1 result.1.released.2 = some result.2)
      fun _ _ => True := by
  unfold verifiedBytes
  rw [ensures_bind]
  apply (resolvedBytes_spec target).weaken
  intro result _ read
  simp only [ensures_bind, ensures_throwIf, ensures_pure, implies_true, true_and]
  exact fun _ => read

theorem executableBytes_spec (target : RuvUri) :
    (here.executableBytes target).Ensures ()
      (fun result _ => here.Visible result.1.released.1 result.1.released.2 ∧
        here.storedBytes result.1.released.1 result.1.released.2 = some result.2)
      fun _ _ => True := by
  unfold executableBytes
  simp only [ensures_bind, ensures_throwIf, implies_true, true_and]
  exact fun _ => resolvedBytes_spec target

/-- Every one of these revisions has a body that is not hidden. -/
def AllVisible (here : MemoryResolver) (released : List (LogicalName × Revision)) : Prop :=
  ∀ pair ∈ released, here.Visible pair.1 pair.2

theorem allVisible_nil : here.AllVisible [] := fun _ member => (not_mem_nil member).elim

theorem AllVisible.snoc {released : List (LogicalName × Revision)} {pair : LogicalName × Revision}
    (all : here.AllVisible released) (one : here.Visible pair.1 pair.2) :
    here.AllVisible (released ++ [pair]) := by
  intro other member
  rcases mem_append.mp member with earlier | last
  · exact all other earlier
  · rw [mem_singleton.mp last]
    exact one

theorem AllVisible.of_subset {released fewer : List (LogicalName × Revision)}
    (all : here.AllVisible released) (among : fewer ⊆ released) : here.AllVisible fewer :=
  fun pair member => all pair (among member)

theorem sorted_take_subset {α β : Type} (order : α → α → Prop) [DecidableRel order] (limit : Nat)
    (items : List α) (disclose : α → β) :
    ((items.insertionSort order).take limit).map disclose ⊆ items.map disclose :=
  map_subset _ fun _ member =>
    (mem_insertionSort order).mp (mem_of_mem_take member)

variable {target : RuvUri} {limit : Nat} {matcher : QueryMatcher}

theorem enumerateAlias_spec {recursive : Bool} {entries : List ResolvedContext}
    (all : here.AllVisible (entries.map released)) (entry : StoredAlias) :
    (here.enumerateAlias target recursive entries entry).Ensures ()
      (fun later _ => here.AllVisible (later.map released)) fun _ _ => True := by
  unfold enumerateAlias
  dsimp only
  split
  · exact all
  · split
    · exact all
    · rename_i object found
      split
      · exact all
      · rename_i shown
        simp only [ensures_bind, ensures_translate, ensures_orRefusal, ensures_pure,
          implies_true, and_true, map_append, map_singleton]
        intro pinned made
        apply all.snoc
        obtain ⟨named, _⟩ := withRevision_spec made
        rw [released, named]
        exact visible_of_objectFor found (by simpa using shown)

theorem enumerateAliases_spec (target : RuvUri) (limit : Nat) (recursive : Bool) :
    (here.enumerateAliases target limit recursive).Ensures ()
      (fun entries _ => here.AllVisible (entries.map released))
      fun _ _ => True := by
  unfold enumerateAliases validateEnumerationLimit
  simp only [ensures_bind, ensures_throwIf, ensures_pure, implies_true, true_and]
  intro _
  apply (ensures_foldlM
    (fun _ entries _ => here.AllVisible (entries.map released))
    allVisible_nil _).weaken
  · exact fun entries _ all => all.of_subset (sorted_take_subset _ _ _ _)
  · exact fun _ entry _ entries _ _ all => enumerateAlias_spec all entry

theorem historyEntry_spec {entries : List ResolvedContext}
    (all : here.AllVisible (entries.map released)) {object : StoredObject}
    (stored : object ∈ here.objects) :
    (historyEntry target entries object).Ensures ()
      (fun later _ => here.AllVisible (later.map released)) fun _ _ => True := by
  unfold historyEntry
  split
  · exact all
  · rename_i passed
    simp only [ensures_bind, ensures_translate, ensures_orRefusal, ensures_pure, implies_true,
      and_true, map_append, map_singleton]
    intro pinned made
    apply all.snoc
    obtain ⟨named, _⟩ := withRevision_spec made
    simp only [Bool.or_eq_true, Bool.not_eq_true', not_or, Bool.not_eq_true,
      Bool.not_eq_false, sameLogicalName_iff] at passed
    exact ⟨object, stored, by rw [keyOf, released, named, passed.2], passed.1⟩

theorem historyEntries_spec (target : RuvUri) (limit : Nat) :
    (here.historyEntries target limit).Ensures ()
      (fun entries _ => here.AllVisible (entries.map released))
      fun _ _ => True := by
  unfold historyEntries validateEnumerationLimit
  simp only [ensures_bind, ensures_throwIf, ensures_orThrow, ensures_orPanic, ensures_pure,
    implies_true, true_and, and_true]
  intro _ index indexed
  obtain ⟨entry, stored, _⟩ := aliasIndex_spec indexed
  refine ⟨entry, stored, fun _ => ?_⟩
  apply (ensures_foldlM
    (fun _ entries _ => here.AllVisible (entries.map released))
    allVisible_nil _).weaken
  · exact fun entries _ all => all.of_subset (sorted_take_subset _ _ _ _)
  · intro visited object rest entries _ split all
    apply historyEntry_spec all
    rw [split]
    exact mem_append_right _ mem_cons_self

theorem worst_mem (others : List (ContextHit × Nat)) (first : ContextHit × Nat) :
    others.foldl (fun worst entry =>
      if compareHits worst.1 entry.1 = .gt then worst else entry) first ∈ first :: others := by
  induction others generalizing first with
  | nil => exact mem_singleton_self first
  | cons other others ih =>
    rw [foldl_cons]
    split
    · rcases mem_cons.mp (ih first) with same | later
      · rw [same]
        exact mem_cons_self
      · exact mem_cons_of_mem _ (mem_cons_of_mem _ later)
    · exact mem_cons_of_mem _ (ih other)

theorem worstIndex_lt {entries : List (ContextHit × Nat)} {bound : Nat}
    (some : entries ≠ []) (below : ∀ entry ∈ entries, entry.2 < bound) :
    worstIndex entries < bound := by
  cases entries with
  | nil => exact absurd rfl some
  | cons first rest => exact below _ (worst_mem rest first)

theorem pushTopHit_spec {hits : List ContextHit} (positive : 0 < limit) {hit : ContextHit}
    (all : here.AllVisible (hits.map ContextHit.released))
    (one : here.Visible hit.released.1 hit.released.2) :
    (pushTopHit hits limit hit).Ensures ()
      (fun later _ => here.AllVisible (later.map ContextHit.released)) fun _ _ => False := by
  unfold pushTopHit
  split
  · rw [ensures_pure, map_append]
    exact all.snoc one
  · rename_i full
    have inside : worstIndex hits.zipIdx < hits.length := by
      apply worstIndex_lt
      · intro empty
        have length := congrArg List.length empty
        rw [length_zipIdx, length_nil] at length
        omega
      · intro entry member
        have position := mk_mem_zipIdx_iff_getElem?.mp member
        exact (List.getElem?_eq_some_iff.mp position).1
    simp only [ensures_bind, ensures_orPanic, List.getElem?_eq_getElem inside, Option.some.injEq,
      exists_eq_left', ensures_ite, ensures_pure]
    refine ⟨fun _ => ?_, fun _ => all⟩
    apply (all.snoc one).of_subset
    intro pair member
    obtain ⟨kept, among, rfl⟩ := mem_map.mp member
    rcases mem_or_eq_of_mem_set among with earlier | rfl
    · exact mem_append_left _ (mem_map_of_mem earlier)
    · exact mem_append_right _ (mem_singleton_self _)

theorem scoreView_returns (table : QueryMatcher.Table matcher.needle matcher.failure)
    (object : StoredObject) (requested : Option ProgressiveView) :
    (scoreView primitives object requested matcher).Ensures () (fun _ _ => True)
      fun _ _ => True := by
  unfold scoreView
  simp only [ensures_bind, ensures_translate]
  apply fromRvf_spec.mono _ fun _ _ _ => trivial
  intro profile _ bound
  split
  · exact trivial
  · rw [ensures_bind, ensures_translate]
    apply (payload_spec bound _).mono _ fun _ _ _ => trivial
    intro payload _ _
    exact (QueryMatcher.occurrenceCount_returns table payload).mono (fun _ _ _ => trivial)
      fun _ _ _ => trivial

theorem searchPinned_spec (table : QueryMatcher.Table matcher.needle matcher.failure)
    (positive : 0 < limit) (target : RuvUri) (revision : Revision) :
    (searchPinned primitives here target revision matcher limit).Ensures ()
      (fun hits _ => here.AllVisible (hits.map ContextHit.released)) fun _ _ => True := by
  unfold searchPinned
  split
  · exact allVisible_nil
  · rename_i object found
    split
    · exact allVisible_nil
    · rename_i passed
      rw [ensures_bind]
      apply (scoreView_returns table object target.view).mono _ fun _ _ _ => trivial
      intro score _ _
      split
      · simp only [ensures_bind, ensures_translate, ensures_orRefusal, implies_true, and_true]
        intro pinned made
        apply (pushTopHit_spec positive allVisible_nil _).mono (fun _ _ all => all)
          fun _ _ _ => trivial
        rw [ContextHit.released, (tryFrom_spec made).1]
        exact visible_of_objectFor found (by simp_all)
      · exact allVisible_nil

theorem searchAlias_spec (table : QueryMatcher.Table matcher.needle matcher.failure)
    (positive : 0 < limit) {hits : List ContextHit}
    (all : here.AllVisible (hits.map ContextHit.released)) (entry : StoredAlias) :
    (searchAlias primitives here target matcher limit hits entry).Ensures ()
      (fun later _ => here.AllVisible (later.map ContextHit.released)) fun _ _ => True := by
  unfold searchAlias
  dsimp only
  split
  · exact all
  · split
    · exact all
    · rename_i object found
      split
      · exact all
      · rename_i shown
        rw [ensures_bind]
        apply (scoreView_returns table object target.view).mono _ fun _ _ _ => trivial
        intro score _ _
        split
        · exact all
        · simp only [ensures_bind, ensures_translate, ensures_orRefusal, implies_true, and_true]
          intro pinned made
          apply (pushTopHit_spec positive all _).mono (fun _ _ later => later)
            fun _ _ _ => trivial
          rw [ContextHit.released, (withRevision_spec made).1]
          exact visible_of_objectFor found (by simpa using shown)

theorem searchHits_spec (target : RuvUri) (query : List UInt8) (limit : Nat) :
    (searchHits primitives here target query limit).Ensures ()
      (fun hits _ => here.AllVisible (hits.map ContextHit.released)) fun _ _ => True := by
  unfold searchHits
  simp only [ensures_bind, ensures_throwIf, implies_true, true_and]
  intro _ bounded
  have positive : 0 < limit := by omega
  apply (QueryMatcher.new_spec query).mono _ fun _ _ _ => trivial
  rintro matcher _ ⟨_, table⟩
  have sorted : ∀ hits : List ContextHit, here.AllVisible (hits.map ContextHit.released) →
      here.AllVisible ((hits.insertionSort fun left right =>
        compareHits left right ≠ .gt).map ContextHit.released) := by
    intro hits all
    apply all.of_subset
    exact map_subset _ fun _ member => (mem_insertionSort _).mp member
  split
  · rw [ensures_bind]
    exact (searchPinned_spec table positive target _).weaken fun hits _ => sorted hits
  · rw [ensures_bind]
    apply (ensures_foldlM (fun _ hits _ => here.AllVisible (hits.map ContextHit.released))
      allVisible_nil _).weaken
    · exact fun hits _ => sorted hits
    · exact fun _ entry _ hits _ _ all => searchAlias_spec table positive all entry

end MemoryResolver

end Rvm.Context
