import Rvm.Context.ResolverReads
import Rvm.Foundation.Versioned

/-!
Owns what a call of the in-memory resolver can do: a write adds one object,
advances one alias, or withdraws a name for good, a read changes nothing, and so
does a call that is refused. Every call returns.
-/

namespace Rvm.Context

open Foundation Foundation.Call List ResolvedContext

namespace MemoryResolver

variable {primitives : RvfPrimitives} {objectCapacity aliasCapacity : Nat}
  {here next : MemoryResolver}

/-- All of an object but whether it is forgotten. -/
def record (object : StoredObject) : RuvUri × Revision × List UInt8 × Bool :=
  (object.canonicalUri, object.revision, object.rvf, object.tombstone)

def Hashed (sha256 : List UInt8 → Octets 32) (here : MemoryResolver) : Prop :=
  ∀ object ∈ here.objects, sha256 object.rvf = object.revision.bytes

structure Withdrawn (here : MemoryResolver) (name : LogicalName) (revision : Revision) : Prop where
  registered : here.storedBytes name revision ≠ none
  hidden : ¬ here.Visible name revision

/-- What calls do to the objects: none is lost or changed but for the mark that
forgets it, and what is withdrawn stays so. -/
structure Evolves (sha256 : List UInt8 → Octets 32) (here next : MemoryResolver) : Prop where
  kept : here.objects.map record <+: next.objects.map record
  hashed : here.Hashed sha256 → next.Hashed sha256
  withdrawn : ∀ name revision, here.Withdrawn name revision → next.Withdrawn name revision

variable {sha256 : List UInt8 → Octets 32} {middle : MemoryResolver}

theorem storedBytes_eq (name : LogicalName) (revision : Revision) :
    here.storedBytes name revision =
      ((here.objects.map record).find? fun entry =>
        decide ((entry.1.logicalName, entry.2.1) = (name, revision))).map fun entry => entry.2.2.1 := by
  rw [List.find?_map, Option.map_map]
  rfl

theorem Evolves.storedBytes {name : LogicalName} {revision : Revision} {bytes : List UInt8}
    (evolves : Evolves sha256 here next) (stored : here.storedBytes name revision = some bytes) :
    next.storedBytes name revision = some bytes := by
  rw [storedBytes_eq] at stored ⊢
  obtain ⟨entry, found, same⟩ := Option.map_eq_some_iff.mp stored
  rw [← same, evolves.kept.find?_eq_some found, Option.map_some]

theorem Evolves.refl (here : MemoryResolver) : Evolves sha256 here here :=
  ⟨prefix_rfl, id, fun _ _ => id⟩

theorem Evolves.trans (first : Evolves sha256 here middle) (second : Evolves sha256 middle next) :
    Evolves sha256 here next :=
  ⟨first.kept.trans second.kept, second.hashed ∘ first.hashed,
    fun name revision => second.withdrawn name revision ∘ first.withdrawn name revision⟩

theorem Evolves.congr (evolves : Evolves sha256 here middle) (same : next.objects = middle.objects) :
    Evolves sha256 here next := by
  obtain ⟨objects, aliases⟩ := next
  obtain rfl : objects = middle.objects := same
  refine ⟨evolves.kept, evolves.hashed, fun name revision withdrawn => ?_⟩
  have still := evolves.withdrawn name revision withdrawn
  exact ⟨still.registered, still.hidden⟩

theorem evolves_pushObject {object : StoredObject}
    (fresh : entryFor keyOf here.objects (keyOf object) = none)
    (hashes : sha256 object.rvf = object.revision.bytes) :
    Evolves sha256 here (here.pushObject object) where
  kept := by
    rw [pushObject, map_append]
    exact prefix_append _ _
  hashed := by
    intro hashed other member
    rcases mem_append.mp member with earlier | last
    · exact hashed other earlier
    · rw [mem_singleton.mp last]
      exact hashes
  withdrawn := by
    intro name revision withdrawn
    have older : (name, revision) ≠ keyOf object := by
      intro same
      apply withdrawn.registered
      rw [storedBytes, same, fresh, Option.map_none]
    constructor
    · rw [storedBytes, pushObject, entryFor.append object fresh, if_neg older]
      exact withdrawn.registered
    · rintro ⟨other, member, key, shown⟩
      rcases mem_append.mp member with earlier | last
      · exact withdrawn.hidden ⟨other, earlier, key, shown⟩
      · rw [mem_singleton.mp last] at key
        exact older key.symm

@[simp]
theorem keyOf_forgetObject (target : RuvUri) (object : StoredObject) :
    keyOf (forgetObject target object) = keyOf object := by
  unfold forgetObject
  split <;> rfl

theorem record_forgetObject (target : RuvUri) (object : StoredObject) :
    record (forgetObject target object) = record object := by
  unfold forgetObject
  split <;> rfl

variable {target : RuvUri} {snapshot : AliasSnapshot} {call : ResolverCall}

theorem forgetObject_hidden {object : StoredObject}
    (hidden : object.isHidden = true ∨ object.canonicalUri.logicalName = target.logicalName) :
    (forgetObject target object).isHidden = true := by
  unfold forgetObject
  split
  · simp [StoredObject.isHidden]
  · rename_i unmarked
    cases tombstone : object.tombstone <;> simp_all [StoredObject.isHidden]

theorem records_forgetObjects (target : RuvUri) :
    (here.forgetObjects target).objects.map record = here.objects.map record := by
  rw [forgetObjects, map_map]
  exact map_congr_left fun object _ => record_forgetObject target object

theorem storedBytes_forgetObjects (target : RuvUri) (name : LogicalName) (revision : Revision) :
    (here.forgetObjects target).storedBytes name revision = here.storedBytes name revision := by
  rw [storedBytes_eq, records_forgetObjects, ← storedBytes_eq]

theorem evolves_forgetObjects (target : RuvUri) : Evolves sha256 here (here.forgetObjects target) := by
  refine ⟨records_forgetObjects target ▸ prefix_rfl, ?_, ?_⟩
  · intro hashed other member
    obtain ⟨object, among, rfl⟩ := mem_map.mp member
    have same := record_forgetObject target object
    simp only [record, Prod.mk.injEq] at same
    rw [same.2.2.1, same.2.1]
    exact hashed object among
  · intro name revision withdrawn
    constructor
    · rw [storedBytes_forgetObjects]
      exact withdrawn.registered
    · rintro ⟨other, member, key, shown⟩
      obtain ⟨object, among, rfl⟩ := mem_map.mp member
      rw [keyOf_forgetObject] at key
      apply withdrawn.hidden
      refine ⟨object, among, key, ?_⟩
      by_contra hidden
      rw [forgetObject_hidden (.inl (by simpa using hidden))] at shown
      cases shown

theorem withdrawn_forgetObjects {revision : Revision}
    (registered : here.storedBytes target.logicalName revision ≠ none) :
    (here.forgetObjects target).Withdrawn target.logicalName revision := by
  constructor
  · rw [storedBytes_forgetObjects]
    exact registered
  · rintro ⟨other, member, key, shown⟩
    obtain ⟨object, among, rfl⟩ := mem_map.mp member
    rw [keyOf_forgetObject] at key
    rw [forgetObject_hidden (.inr (congrArg Prod.fst key))] at shown
    cases shown

structure AliasStep (here : MemoryResolver) (name : LogicalName) (advance : Advance AliasSnapshot)
    (next : MemoryResolver) : Prop where
  advances : Advances (fun snapshot => snapshot.generation.value)
    (fun snapshot => snapshot.tombstone = true) (here.aliasOf name) advance (next.aliasOf name)
  others : ∀ other, other ≠ name → next.aliasOf other = here.aliasOf other

theorem aliasOf_setAlias {index : Nat} (found : here.aliasIndex target = some index)
    (named : snapshot.aliasUri.logicalName = target.logicalName) (name : LogicalName) :
    (here.setAlias index snapshot).aliasOf name =
      if name = target.logicalName then some snapshot else here.aliasOf name := by
  rw [aliasIndex_eq, ← named] at found
  have set := @entryFor.set _ _ _ (fun entry : StoredAlias => entry.snapshot.aliasUri.logicalName)
    here.aliases name index ⟨snapshot⟩ found
  rw [aliasOf, setAlias, set, ← named]
  split <;> rfl

theorem aliasOf_pushAlias (absent : here.aliasIndex target = none)
    (named : snapshot.aliasUri.logicalName = target.logicalName) (name : LogicalName) :
    (here.pushAlias snapshot).aliasOf name =
      if name = target.logicalName then some snapshot else here.aliasOf name := by
  rw [aliasIndex_eq, ← named] at absent
  have append := @entryFor.append _ _ _
    (fun entry : StoredAlias => entry.snapshot.aliasUri.logicalName) here.aliases name ⟨snapshot⟩
    (entryFor.none_of_index absent)
  rw [aliasOf, pushAlias, append, ← named]
  split <;> rfl

theorem aliasStep_of_setAlias {index : Nat} {current : AliasSnapshot}
    (found : here.aliasIndex target = some index)
    (held : here.aliasOf target.logicalName = some current) (live : current.tombstone = false)
    (named : snapshot.aliasUri.logicalName = target.logicalName)
    (advanced : current.generation.checkedNext = .ok snapshot.generation)
    (aliases : next.aliases = (here.setAlias index snapshot).aliases) :
    AliasStep here target.logicalName (some current, snapshot) next := by
  have after : ∀ name, next.aliasOf name =
      if name = target.logicalName then some snapshot else here.aliasOf name := by
    intro name
    rw [← aliasOf_setAlias found named, aliasOf, aliases, aliasOf]
  refine ⟨⟨held.symm, ?_, ?_, ?_⟩, fun other different => ?_⟩
  · intro state same
    obtain rfl := Option.some.inj (held.symm.trans same)
    simp [live]
  · rw [after, if_pos rfl]
  · rw [held]
    exact AliasGeneration.checkedNext_value advanced
  · rw [after, if_neg different]

theorem aliasStep_of_pushAlias (absent : here.aliasIndex target = none)
    (named : snapshot.aliasUri.logicalName = target.logicalName)
    (first : snapshot.generation = .initial) :
    AliasStep here target.logicalName (none, snapshot) (here.pushAlias snapshot) := by
  have held := aliasIndex_none absent
  refine ⟨⟨held.symm, ?_, ?_, ?_⟩, fun other different => ?_⟩
  · intro state same
    cases held.symm.trans same
  · rw [aliasOf_pushAlias absent named, if_pos rfl]
  · rw [held, first]
    rfl
  · rw [aliasOf_pushAlias absent named, if_neg different]

@[simp]
theorem ensures_ensureOperation {σ : Type} {state : σ} {request : AuthorizedRequest}
    {expected : ContextOperation} {Returned : PLift (request.operation = expected) → σ → Prop}
    {Refused : ContextError → σ → Prop} :
    (ensureOperation request expected).Ensures state Returned Refused ↔
      (∀ matching, Returned matching state) ∧
        (request.operation ≠ expected → Refused .operationMismatch state) := by
  unfold ensureOperation
  by_cases matching : request.operation = expected
  · rw [dif_pos matching]
    exact ⟨fun returns => ⟨fun _ => returns, fun mismatch => absurd matching mismatch⟩,
      fun either => either.1 ⟨matching⟩⟩
  · rw [dif_neg matching]
    exact ⟨fun refuses => ⟨fun same => absurd same.down matching, fun _ => refuses⟩,
      fun either => either.2 matching⟩

theorem put_spec (request : AuthorizedRequest) (rvf : List UInt8) :
    (put primitives objectCapacity request rvf).Ensures here
      (fun resolved next => Evolves primitives.sha256 here next ∧ next.aliases = here.aliases ∧
        next.Visible resolved.released.1 resolved.released.2)
      fun _ next => next = here := by
  unfold put
  simp only [ensures_bind, ensures_ensureOperation, ensures_throwIf, ensures_translate,
    ensures_orRefusal, ensures_get, implies_true, and_true, true_and]
  intro _ _ pinned made hashes
  obtain ⟨sameUri, _⟩ := tryFrom_spec made
  split
  · rename_i existing found
    simp only [ensures_bind, ensures_throwIf, ensures_pure, implies_true, true_and, not_not]
    intro same
    refine ⟨.refl here, ?_⟩
    rw [released, sameUri]
    exact visible_of_objectFor found (by simpa using same.2.1)
  · rename_i absent
    simp only [ensures_bind, ensures_throwIf, ensures_modify, ensures_pure, implies_true, true_and]
    intro _
    rw [objectFor_eq] at absent
    refine ⟨evolves_pushObject absent (not_not.mp hashes), rfl, ?_⟩
    rw [released, sameUri]
    exact ⟨_, mem_append_right _ (mem_singleton_self _), rfl, rfl⟩

theorem compareAndSwapAlias_spec (request : AuthorizedRequest) (expected : Option AliasSnapshot)
    (nextRevision : Revision) :
    (compareAndSwapAlias aliasCapacity request expected nextRevision).Ensures here
      (fun snapshot next => next.objects = here.objects ∧
        AliasStep here request.target.logicalName (expected, snapshot) next)
      fun _ next => next = here := by
  unfold compareAndSwapAlias
  simp only [ensures_bind, ensures_ensureOperation, ensures_throwIf, ensures_orThrow, ensures_get,
    implies_true, and_true, true_and]
  intro _ _ object _ _ _
  split
  · rename_i index found
    obtain ⟨entry, stored, held⟩ := aliasIndex_spec found
    simp only [ensures_bind, ensures_orPanic, ensures_throwIf, ensures_orRefusal, ensures_modify,
      ensures_pure, implies_true, and_true, true_and, not_not]
    refine ⟨entry, stored, fun live presented generation advanced => ⟨rfl, ?_⟩⟩
    rw [presented]
    exact aliasStep_of_setAlias found held (by simpa using live) rfl advanced rfl
  · rename_i absent
    simp only [ensures_bind, ensures_throwIf, ensures_modify, ensures_pure, implies_true, true_and]
    intro presented _
    obtain rfl : expected = none := by simpa using presented
    exact ⟨rfl, aliasStep_of_pushAlias absent rfl rfl⟩

theorem insertTombstone_spec (aliasUri : RuvUri) (expected : AliasSnapshot)
    (generation : AliasGeneration) :
    (insertTombstone primitives objectCapacity aliasUri expected generation).Ensures here
      (fun _ next => Evolves primitives.sha256 here next ∧ next.aliases = here.aliases)
      fun _ next => next = here := by
  unfold insertTombstone
  simp only [ensures_bind, ensures_get]
  split
  · simp only [ensures_bind, ensures_throwIf, ensures_pure, implies_true, and_true, true_and]
    exact fun _ => .refl here
  · rename_i absent
    simp only [ensures_bind, ensures_throwIf, ensures_modify, ensures_pure, implies_true, true_and]
    intro _
    rw [objectFor_eq] at absent
    exact ⟨evolves_pushObject absent rfl, rfl⟩

theorem forget_spec (request : AuthorizedRequest) (expected : AliasSnapshot) :
    (forget primitives objectCapacity request expected).Ensures here
      (fun snapshot next => Evolves primitives.sha256 here next ∧
        AliasStep here request.target.logicalName (some expected, snapshot) next ∧
        snapshot.tombstone = true ∧
        ∀ revision, here.storedBytes request.target.logicalName revision ≠ none →
          next.Withdrawn request.target.logicalName revision)
      fun _ next => next = here := by
  unfold forget
  simp only [ensures_bind, ensures_ensureOperation, ensures_throwIf, ensures_orThrow, ensures_get,
    ensures_orPanic, ensures_orRefusal, implies_true, and_true, true_and, not_not]
  intro _ _ index found
  obtain ⟨entry, stored, held⟩ := aliasIndex_spec found
  refine ⟨entry, stored, ?_⟩
  rintro live rfl generation advanced
  apply (insertTombstone_spec _ _ _).weaken
  rintro revision middle ⟨evolves, aliases⟩
  simp only [ensures_modify, ensures_pure]
  refine ⟨(evolves.trans (evolves_forgetObjects request.target)).congr rfl, ?_, trivial, ?_⟩
  · apply aliasStep_of_setAlias found held (by simpa using live) rfl advanced
    rw [setAlias, setAlias, forgetObjects, aliases]
  · intro other registered
    cases bytes : here.storedBytes request.target.logicalName other with
    | none => exact absurd bytes registered
    | some body =>
      have still : middle.storedBytes request.target.logicalName other ≠ none := by
        rw [evolves.storedBytes bytes]
        exact Option.some_ne_none _
      have withdrawn := withdrawn_forgetObjects still
      exact ⟨withdrawn.registered, withdrawn.hidden⟩

theorem readFor_spec {α : Type} {request : AuthorizedRequest} {operation : ContextOperation}
    {look : MemoryResolver → Call ContextError Unit α} {Shows : α → Prop}
    (looks : (look here).Ensures () (fun value _ => Shows value) fun _ _ => True) :
    (readFor request operation look).Ensures here (fun value next => next = here ∧ Shows value)
      fun _ next => next = here := by
  unfold readFor
  simp only [ensures_bind, ensures_ensureOperation, ensures_get, ensures_reading, implies_true,
    and_true, true_and]
  exact fun _ => looks.mono (fun _ _ shows => shows) fun _ _ _ => trivial

theorem resolved_spec (target : RuvUri) :
    (Prod.fst <$> here.resolvedFor target).Ensures ()
      (fun resolved _ => here.Visible resolved.released.1 resolved.released.2) fun _ _ => True :=
  ensures_map.mpr (resolvedFor_visible target)

def releases : ResolverReply → List (LogicalName × Revision)
  | .resolved resolved => [resolved.released]
  | .bytes resolved _ => [resolved.released]
  | .entries entries => entries.map released
  | .hits hits => hits.map ContextHit.released
  | .snapshot _ => []

def advanceOf : ResolverCall → ResolverReply → Option (LogicalName × Advance AliasSnapshot)
  | .compareAndSwapAlias request expected _, .snapshot snapshot =>
    some (request.target.logicalName, expected, snapshot)
  | .forget request expected, .snapshot snapshot =>
    some (request.target.logicalName, some expected, snapshot)
  | _, _ => none

structure Effect (sha256 : List UInt8 → Octets 32) (here : MemoryResolver) (call : ResolverCall)
    (reply : ResolverReply) (next : MemoryResolver) : Prop where
  evolves : Evolves sha256 here next
  released : next.AllVisible (releases reply)
  read : ∀ resolved rvf, reply = .bytes resolved rvf →
    next.storedBytes resolved.released.1 resolved.released.2 = some rvf
  advance : ∀ name advance, advanceOf call reply = some (name, advance) →
    AliasStep here name advance next
  noAdvance : advanceOf call reply = none → ∀ name, next.aliasOf name = here.aliasOf name
  forgets : ∀ request expected snapshot, call = .forget request expected →
    reply = .snapshot snapshot → snapshot.tombstone = true ∧
      ∀ revision, here.storedBytes request.target.logicalName revision ≠ none →
        next.Withdrawn request.target.logicalName revision

theorem effect_of_read {reply : ResolverReply} (released : here.AllVisible (releases reply))
    (read : ∀ resolved rvf, reply = .bytes resolved rvf →
      here.storedBytes resolved.released.1 resolved.released.2 = some rvf)
    (quiet : ∀ snapshot, reply ≠ .snapshot snapshot) : Effect sha256 here call reply here where
  evolves := .refl here
  released := released
  read := read
  advance := by
    intro name advance advanced
    cases reply with
    | snapshot snapshot => exact absurd rfl (quiet snapshot)
    | _ => cases call <;> cases advanced
  noAdvance := fun _ _ => rfl
  forgets := fun _ _ snapshot _ same => absurd same (quiet snapshot)

theorem effect_of_entries {entries : List ResolvedContext}
    (all : here.AllVisible (entries.map released)) :
    Effect sha256 here call (.entries entries) here :=
  effect_of_read all (fun _ _ same => by cases same) fun _ same => by cases same

theorem effect_of_bytes {result : ResolvedContext × List UInt8}
    (shown : here.Visible result.1.released.1 result.1.released.2)
    (stored : here.storedBytes result.1.released.1 result.1.released.2 = some result.2) :
    Effect sha256 here call (.bytes result.1 result.2) here := by
  apply effect_of_read (allVisible_nil.snoc shown)
  · intro resolved rvf same
    cases same
    exact stored
  · exact fun _ same => by cases same

/-- Step lemma: a call returns; where it succeeds it has its effect, and where it
is refused it changes nothing. -/
theorem serve_spec (call : ResolverCall) :
    ((resolver primitives objectCapacity aliasCapacity).serve call).Ensures here
      (fun reply next => Effect primitives.sha256 here call reply next)
      fun _ next => next = here := by
  cases call with
  | resolve request =>
    apply ensures_map.mpr
    apply (readFor_spec (resolved_spec request.target)).weaken
    rintro resolved _ ⟨rfl, shown⟩
    exact effect_of_read (allVisible_nil.snoc shown) (fun _ _ same => by cases same)
      fun _ same => by cases same
  | list request limit =>
    apply ensures_map.mpr
    apply (readFor_spec (enumerateAliases_spec request.target limit false)).weaken
    rintro entries _ ⟨rfl, all⟩
    exact effect_of_entries all
  | tree request limit =>
    apply ensures_map.mpr
    apply (readFor_spec (enumerateAliases_spec request.target limit true)).weaken
    rintro entries _ ⟨rfl, all⟩
    exact effect_of_entries all
  | read request =>
    apply ensures_map.mpr
    apply (readFor_spec (resolvedBytes_spec request.target)).weaken
    rintro result _ ⟨rfl, shown, stored⟩
    exact effect_of_bytes shown stored
  | search request query limit =>
    apply ensures_map.mpr
    apply (readFor_spec (searchHits_spec request.target query limit)).weaken
    rintro hits _ ⟨rfl, all⟩
    exact effect_of_read all (fun _ _ same => by cases same) fun _ same => by cases same
  | history request limit =>
    apply ensures_map.mpr
    apply (readFor_spec (historyEntries_spec request.target limit)).weaken
    rintro entries _ ⟨rfl, all⟩
    exact effect_of_entries all
  | verify request =>
    apply ensures_map.mpr
    apply (readFor_spec (verifiedBytes_spec request.target)).weaken
    rintro result _ ⟨rfl, shown, stored⟩
    exact effect_of_bytes shown stored
  | put request rvf =>
    apply ensures_map.mpr
    apply (put_spec request rvf).weaken
    rintro resolved next ⟨evolves, aliases, shown⟩
    exact
      { evolves := evolves
        released := allVisible_nil.snoc shown
        read := fun _ _ same => by cases same
        advance := fun _ _ same => by cases same
        noAdvance := fun _ name => by rw [aliasOf, aliases, aliasOf]
        forgets := fun _ _ _ same => by cases same }
  | compareAndSwapAlias request expected nextRevision =>
    apply ensures_map.mpr
    apply (compareAndSwapAlias_spec request expected nextRevision).weaken
    rintro snapshot next ⟨objects, step⟩
    exact
      { evolves := (Evolves.refl here).congr objects
        released := allVisible_nil
        read := fun _ _ same => by cases same
        advance := fun name advance same => by cases same; exact step
        noAdvance := fun same => by cases same
        forgets := fun _ _ _ same => by cases same }
  | forget request expected =>
    apply ensures_map.mpr
    apply (forget_spec request expected).weaken
    rintro snapshot next ⟨evolves, step, closed, withdrawn⟩
    exact
      { evolves := evolves
        released := allVisible_nil
        read := fun _ _ same => by cases same
        advance := fun name advance same => by cases same; exact step
        noAdvance := fun same => by cases same
        forgets := by
          intro _ _ _ same reply
          cases same
          cases reply
          exact ⟨closed, withdrawn⟩ }
  | prepareExecute request =>
    apply ensures_map.mpr
    apply (readFor_spec (executableBytes_spec request.target)).weaken
    rintro result _ ⟨rfl, shown, stored⟩
    exact effect_of_bytes shown stored

end MemoryResolver

end Rvm.Context
