import Rvm.Context.AliasHistory
import Rvm.Foundation.Selection

/-!
Owns the enumerating reads of the in-memory resolver: a search returns the best hits of all
revisions in scope, and `list` and `tree` the first of all matching aliases, in whatever order
the aliases were created.
-/

namespace Rvm.Context

open Foundation Std List PinnedRuvUri LawfulEqOrd

/-! ### URIs -/

instance : TransOrd SubjectKind where
  eq_swap {left right} := by cases left <;> cases right <;> rfl
  isLE_trans {left middle right} := by cases left <;> cases middle <;> cases right <;> decide

instance : LawfulEqOrd SubjectKind where
  compare_self {kind} := by cases kind <;> rfl
  eq_of_compare {left right} := by cases left <;> cases right <;> decide

instance : TransOrd Collection where
  eq_swap {left right} := by cases left <;> cases right <;> rfl
  isLE_trans {left middle right} := by cases left <;> cases middle <;> cases right <;> decide

instance : LawfulEqOrd Collection where
  compare_self {collection} := by cases collection <;> rfl
  eq_of_compare {left right} := by cases left <;> cases right <;> decide

instance : TransOrd ProgressiveView where
  eq_swap {left right} := by cases left <;> cases right <;> rfl
  isLE_trans {left middle right} := by cases left <;> cases middle <;> cases right <;> decide

instance : LawfulEqOrd ProgressiveView where
  compare_self {view} := by cases view <;> rfl
  eq_of_compare {left right} := by cases left <;> cases right <;> decide

instance : TransCmp Revision.cmp :=
  inferInstanceAs (TransCmp (compareOn fun revision : Revision => revision.bytes.toList))

/-- The parts of a URI, compared one after the other. -/
instance : TransCmp RuvUri.cmp :=
  inferInstanceAs (TransCmp (compareLex (compareOn fun uri : RuvUri => uri.authority.text) <|
    compareLex (compareOn fun uri => uri.tenant.text) <|
    compareLex (compareOn fun uri => uri.subject.kind) <|
    compareLex (compareOn fun uri => uri.subject.id.text) <|
    compareLex (compareOn fun uri => uri.collection) <|
    compareLex (compareOn fun uri => uri.path.map Checked.text) <|
    compareLex (compareOn fun uri => uri.revision.map (·.bytes.toList)) <|
    compareOn fun uri => uri.view))

theorem Revision.toList_injective :
    Function.Injective fun revision : Revision => revision.bytes.toList := by
  rintro ⟨left⟩ ⟨right⟩ same
  exact congrArg Revision.mk (Subtype.ext same)

theorem RuvUri.eq_of_cmp {left right : RuvUri} (same : left.cmp right = .eq) : left = right := by
  simp only [RuvUri.cmp, Ordering.then_eq_eq] at same
  obtain ⟨authority, tenant, kind, id, collection, path, revision, view⟩ := same
  have authority := Checked.ext (eq_of_compare authority)
  have tenant := Checked.ext (eq_of_compare tenant)
  have kind := eq_of_compare kind
  have id := Checked.ext (eq_of_compare id)
  have collection := eq_of_compare collection
  have path := map_injective_iff.mpr (fun _ _ => Checked.ext) (eq_of_compare path)
  have revision := Option.map_injective Revision.toList_injective
    (eq_of_compare revision)
  have view := eq_of_compare view
  obtain ⟨_, _, ⟨_, _⟩, _, _, _, _⟩ := left
  obtain ⟨_, _, ⟨_, _⟩, _, _, _, _⟩ := right
  simp only at authority tenant kind id collection path revision view
  rw [authority, tenant, kind, id, collection, path, revision, view]

theorem transCmp_comap {α β : Type} (cmp : β → β → Ordering) [TransCmp cmp] (image : α → β) :
    TransCmp fun left right => cmp (image left) (image right) where
  eq_swap := OrientedCmp.eq_swap
  isLE_trans := TransCmp.isLE_trans

instance : TransCmp cmp := by
  have byUri := transCmp_comap RuvUri.cmp uri
  have byRevision := transCmp_comap Revision.cmp revision
  exact inferInstanceAs (TransCmp (compareLex (fun left right : PinnedRuvUri =>
    left.uri.cmp right.uri) fun left right => left.revision.cmp right.revision))

theorem PinnedRuvUri.name_of_cmp {left right : PinnedRuvUri} (same : left.cmp right = .eq) :
    left.uri.logicalName = right.uri.logicalName := by
  rw [RuvUri.eq_of_cmp (Ordering.then_eq_eq.mp same).1]

/-! ### Results -/

def compareEntries (left right : ResolvedContext) : Ordering :=
  left.pinnedUri.cmp right.pinnedUri

instance : TransCmp compareEntries := transCmp_comap cmp ResolvedContext.pinnedUri

namespace MemoryResolver

instance : TransCmp compareHits := by
  have byScore : TransCmp fun left right : ContextHit => compare right.score left.score :=
    @TransCmp.opposite _ (compareOn ContextHit.score) _
  have byUri := transCmp_comap cmp ContextHit.pinnedUri
  exact inferInstanceAs (TransCmp (compareLex (fun left right : ContextHit =>
    compare right.score left.score) fun left right => left.pinnedUri.cmp right.pinnedUri))

/-- No element comes after the one that the fold of `max_by` keeps. -/
theorem worst_above (others : List (ContextHit × Nat)) (first : ContextHit × Nat) :
    ∀ entry ∈ first :: others, AtMost compareHits entry.1 (others.foldl (fun worst entry =>
      if compareHits worst.1 entry.1 = .gt then worst else entry) first).1 := by
  induction others generalizing first with
  | nil => exact forall_mem_singleton.mpr ((Std.Total.total first.1 first.1).elim id id)
  | cons other others ih =>
    rw [foldl_cons]
    split
    · rename_i after
      have above := ih first
      have top := above first mem_cons_self
      have below : AtMost compareHits other.1 first.1 := by
        unfold AtMost
        rw [@OrientedCmp.eq_swap _ compareHits _ other.1 first.1, after]
        decide
      rw [forall_mem_cons, forall_mem_cons]
      exact ⟨top, IsTrans.trans _ _ _ below top,
        fun entry member => above entry (mem_cons_of_mem _ member)⟩
    · rename_i notAfter
      have above := ih other
      rw [forall_mem_cons]
      exact ⟨IsTrans.trans _ _ _ notAfter (above other mem_cons_self), above⟩

theorem worstIndex_spec {hits : List ContextHit} (nonempty : hits ≠ []) :
    ∃ worst, hits[worstIndex hits.zipIdx]? = some worst ∧
      ∀ one ∈ hits, AtMost compareHits one worst := by
  obtain ⟨first, rest, isCons⟩ : ∃ first rest, hits.zipIdx = first :: rest := by
    apply exists_cons_of_ne_nil
    exact fun empty => nonempty (zipIdx_eq_nil_iff.mp empty)
  obtain ⟨worst, index, member, above⟩ : ∃ worst, worstIndex hits.zipIdx = worst.2 ∧
      worst ∈ hits.zipIdx ∧ ∀ entry ∈ hits.zipIdx, AtMost compareHits entry.1 worst.1 := by
    rw [isCons]
    exact ⟨_, rfl, worst_mem rest first, worst_above rest first⟩
  refine ⟨worst.1, ?_, fun one among => ?_⟩
  · rw [index]
    exact mk_mem_zipIdx_iff_getElem?.mp member
  · obtain ⟨i, inside, isAt⟩ := mem_iff_getElem.mp among
    have entry : (one, i) ∈ hits.zipIdx :=
      mk_mem_zipIdx_iff_getElem?.mpr (List.getElem?_eq_some_iff.mpr ⟨inside, isAt⟩)
    exact above _ entry

theorem pushTopHit_best {hits all : List ContextHit} {limit : Nat} (positive : 0 < limit)
    (best : Best (AtMost compareHits) limit all hits) (hit : ContextHit) :
    (pushTopHit hits limit hit).Ensures ()
      (fun kept _ => Best (AtMost compareHits) limit (all ++ [hit]) kept) fun _ _ => False := by
  unfold pushTopHit
  split
  · rename_i room
    exact best.grow room
  · rename_i reached
    have full : hits.length = limit := Nat.le_antisymm best.short (Nat.not_lt.mp reached)
    have nonempty : hits ≠ [] := by
      rintro rfl
      exact Nat.ne_of_gt positive full.symm
    obtain ⟨worst, found, isWorst⟩ := worstIndex_spec nonempty
    simp only [Call.ensures_bind, Call.ensures_orPanic, found, Option.some.injEq, exists_eq_left',
      Call.ensures_ite, Call.ensures_pure]
    constructor
    · intro before
      apply best.replace full isWorst found
      unfold AtMost
      rw [before]
      decide
    · intro notBefore
      apply best.pass full isWorst
      unfold AtMost
      rw [@OrientedCmp.eq_swap _ compareHits _ worst hit]
      revert notBefore
      cases compareHits hit worst <;> decide

end MemoryResolver

open Foundation.Call

namespace MemoryResolver

variable {primitives : RvfPrimitives} {objectCapacity aliasCapacity : Nat}
  {here next : MemoryResolver} {target : RuvUri} {history : List ResolverEvent}

/-! ### The names of the aliases -/

def aliasName (entry : StoredAlias) : LogicalName := entry.snapshot.aliasUri.logicalName

def DistinctAliases (here : MemoryResolver) : Prop := (here.aliases.map aliasName).Nodup

variable {snapshot : AliasSnapshot} {visited : List StoredAlias} {entry : StoredAlias}
  {recursive : Bool} {limit : Nat}

theorem names_setAlias {index : Nat} (found : here.aliasIndex target = some index)
    (named : snapshot.aliasUri.logicalName = target.logicalName) :
    (here.setAlias index snapshot).aliases.map aliasName = here.aliases.map aliasName := by
  obtain ⟨entry, stored, held⟩ := aliasIndex_spec found
  obtain ⟨inside, isAt⟩ := List.getElem?_eq_some_iff.mp stored
  have same : aliasName ⟨snapshot⟩ = aliasName entry :=
    named.trans (aliasOf_named held).symm
  rw [setAlias, map_set, same, ← isAt]
  apply ext_getElem
  · rw [length_set]
  · intro i _ _
    rw [getElem_set]
    split
    · rename_i isIndex
      subst isIndex
      rw [getElem_map]
    · rfl

theorem distinct_setAlias {index : Nat} (distinct : DistinctAliases here)
    (found : here.aliasIndex target = some index)
    (named : snapshot.aliasUri.logicalName = target.logicalName) :
    DistinctAliases (here.setAlias index snapshot) := by
  rw [DistinctAliases, names_setAlias found named]
  exact distinct

theorem distinct_pushAlias (distinct : DistinctAliases here)
    (absent : here.aliasIndex target = none)
    (named : snapshot.aliasUri.logicalName = target.logicalName) :
    DistinctAliases (here.pushAlias snapshot) := by
  rw [DistinctAliases, pushAlias, map_append, map_singleton]
  apply List.Nodup.append distinct (nodup_singleton _)
  rw [disjoint_singleton]
  intro taken
  obtain ⟨entry, member, same⟩ := mem_map.mp taken
  have none := Option.map_eq_none_iff.mp (aliasIndex_none absent)
  exact entryFor.eq_none.mp none entry member (same.trans named)

theorem compareAndSwapAlias_distinct (distinct : DistinctAliases here) (request : AuthorizedRequest)
    (expected : Option AliasSnapshot) (nextRevision : Revision) :
    (compareAndSwapAlias aliasCapacity request expected nextRevision).Ensures here
      (fun _ next => DistinctAliases next) fun _ next => DistinctAliases next := by
  unfold compareAndSwapAlias
  simp only [ensures_bind, ensures_ensureOperation, ensures_throwIf, ensures_orThrow, ensures_get]
  refine ⟨fun _ => ⟨fun _ => distinct, fun _ => ⟨fun object _ => ?_, fun _ => distinct⟩⟩,
    fun _ => distinct⟩
  refine ⟨fun _ => distinct, fun _ => ⟨fun _ => distinct, fun _ => ?_⟩⟩
  split
  · rename_i index found
    obtain ⟨entry, stored, _⟩ := aliasIndex_spec found
    simp only [ensures_bind, ensures_orPanic, ensures_throwIf, ensures_orRefusal, ensures_modify,
      ensures_pure]
    refine ⟨entry, stored, fun _ => distinct, fun _ => ⟨fun _ => distinct, fun _ => ?_⟩⟩
    exact ⟨fun _ _ => distinct_setAlias distinct found rfl, fun _ _ => distinct⟩
  · rename_i absent
    simp only [ensures_bind, ensures_throwIf, ensures_modify, ensures_pure]
    exact ⟨fun _ => distinct, fun _ => ⟨fun _ => distinct,
      fun _ => distinct_pushAlias distinct absent rfl⟩⟩

theorem forget_distinct (distinct : DistinctAliases here) (request : AuthorizedRequest)
    (expected : AliasSnapshot) :
    (forget primitives objectCapacity request expected).Ensures here
      (fun _ next => DistinctAliases next) fun _ next => DistinctAliases next := by
  unfold forget
  simp only [ensures_bind, ensures_ensureOperation, ensures_throwIf, ensures_orThrow, ensures_get,
    ensures_orPanic, ensures_orRefusal]
  refine ⟨fun _ => ⟨fun _ => distinct, fun _ => ⟨fun index found => ?_, fun _ => distinct⟩⟩,
    fun _ => distinct⟩
  obtain ⟨entry, stored, _⟩ := aliasIndex_spec found
  refine ⟨entry, stored, fun _ => distinct, fun _ => ⟨fun _ => distinct, fun _ => ?_⟩⟩
  refine ⟨fun generation _ => ?_, fun _ _ => distinct⟩
  apply (insertTombstone_spec _ _ _).mono
  · rintro revision middle ⟨_, aliases⟩
    simp only [ensures_modify, ensures_pure]
    have kept : DistinctAliases middle := by
      rw [DistinctAliases, aliases]
      exact distinct
    have indexed : middle.aliasIndex request.target = some index := by
      rw [aliasIndex, aliases]
      exact found
    exact distinct_setAlias kept indexed rfl
  · rintro _ _ rfl
    exact distinct

theorem read_distinct {α : Type} {request : AuthorizedRequest} {operation : ContextOperation}
    {look : MemoryResolver → Call ContextError Unit α} {Shows : α → Prop}
    (distinct : DistinctAliases here) (reply : α → ResolverReply)
    (looks : (look here).Ensures () (fun value _ => Shows value) fun _ _ => True) :
    (reply <$> readFor request operation look).Ensures here (fun _ next => DistinctAliases next)
      fun _ next => DistinctAliases next := by
  apply ensures_map.mpr
  apply (readFor_spec looks).mono
  · rintro _ _ ⟨rfl, _⟩
    exact distinct
  · rintro _ _ rfl
    exact distinct

theorem serve_distinct (distinct : DistinctAliases here) (call : ResolverCall) :
    ((resolver primitives objectCapacity aliasCapacity).serve call).Ensures here
      (fun _ next => DistinctAliases next) fun _ next => DistinctAliases next := by
  cases call with
  | resolve request => exact read_distinct distinct _ (resolved_spec request.target)
  | list request limit => exact read_distinct distinct _ (enumerateAliases_spec _ limit false)
  | tree request limit => exact read_distinct distinct _ (enumerateAliases_spec _ limit true)
  | read request => exact read_distinct distinct _ (resolvedBytes_spec request.target)
  | search request query limit => exact read_distinct distinct _ (searchHits_spec _ query limit)
  | history request limit => exact read_distinct distinct _ (historyEntries_spec _ limit)
  | verify request => exact read_distinct distinct _ (verifiedBytes_spec request.target)
  | put request rvf =>
    apply ensures_map.mpr
    apply (put_spec request rvf).mono
    · rintro _ next ⟨_, aliases, _⟩
      rw [DistinctAliases, aliases]
      exact distinct
    · rintro _ _ rfl
      exact distinct
  | compareAndSwapAlias request expected nextRevision =>
    exact ensures_map.mpr (compareAndSwapAlias_distinct distinct request expected nextRevision)
  | forget request expected => exact ensures_map.mpr (forget_distinct distinct request expected)
  | prepareExecute request => exact read_distinct distinct _ (executableBytes_spec request.target)

theorem run_distinct (run : Run (Step primitives objectCapacity aliasCapacity) .new history here) :
    DistinctAliases here := by
  have empty : DistinctAliases .new := nodup_nil
  apply run.stateInvariant empty
  intro before event after distinct step
  have kept := @serve_distinct primitives objectCapacity aliasCapacity before distinct event.call
  rcases kept.outcome with ⟨_, _, ran, kept⟩ | ⟨_, _, ran, kept⟩
  · obtain ⟨_, rfl⟩ := Prod.mk.inj (Option.some.inj (step.symm.trans ran))
    exact kept
  · obtain ⟨_, rfl⟩ := Prod.mk.inj (Option.some.inj (step.symm.trans ran))
    exact kept

theorem fresh_of_split (distinct : DistinctAliases here) {rest : List StoredAlias}
    (split : here.aliases = visited ++ entry :: rest) :
    aliasName entry ∉ visited.map aliasName := by
  rw [DistinctAliases, split, map_append, map_cons] at distinct
  exact fun taken => (nodup_append.mp distinct).2.2 _ taken _ mem_cons_self rfl

/-! ### What qualifies -/

/-- The current revision of a name and its body: neither the alias nor the body was withdrawn. -/
structure IsCurrent (here : MemoryResolver) (entry : StoredAlias) (pinned : PinnedRuvUri)
    (object : StoredObject) : Prop where
  live : entry.snapshot.tombstone = false
  stored : here.objectFor entry.snapshot.aliasUri entry.snapshot.revision = some object
  shown : object.isHidden = false
  made : entry.snapshot.aliasUri.withRevision entry.snapshot.revision = .ok pinned

structure IsBelow (target : RuvUri) (recursive : Bool) (entry : StoredAlias) : Prop where
  within : isWithin target entry.snapshot.aliasUri = true
  deeper : target.path.length < entry.snapshot.aliasUri.path.length
  child : recursive = false → entry.snapshot.aliasUri.path.length = target.path.length + 1

/-- What `list` and `tree` can return for an alias. -/
def Listed (here : MemoryResolver) (target : RuvUri) (recursive : Bool) (entry : StoredAlias)
    (result : ResolvedContext) : Prop :=
  IsBelow target recursive entry ∧ ∃ pinned object, IsCurrent here entry pinned object ∧
    result = ⟨pinned, entry.snapshot.revision, some entry.snapshot, object.rvf.length⟩

structure Scores (primitives : RvfPrimitives) (target : RuvUri) (matcher : QueryMatcher)
    (object : StoredObject) (score : Nat) : Prop where
  counted : (scoreView primitives object target.view matcher).runFrom () = some (.ok score, ())
  positive : 0 < score

/-- What an unpinned search can return for an alias. -/
def Found (primitives : RvfPrimitives) (here : MemoryResolver) (target : RuvUri)
    (matcher : QueryMatcher) (entry : StoredAlias) (hit : ContextHit) : Prop :=
  isWithin target entry.snapshot.aliasUri = true ∧ ∃ pinned object score,
    IsCurrent here entry pinned object ∧ Scores primitives target matcher object score ∧
    hit = ⟨pinned, entry.snapshot.revision, score, some entry.snapshot.generation⟩

/-- A hit of a search: of the pinned revision alone, or of the current revisions of all names
within the target. -/
inductive IsHit (primitives : RvfPrimitives) (here : MemoryResolver) (target : RuvUri)
    (matcher : QueryMatcher) : ContextHit → Prop
  | pinned {revision : Revision} {object : StoredObject} {pinned : PinnedRuvUri} {score : Nat}
      (pin : target.revision = some revision)
      (stored : here.objectFor target revision = some object) (shown : object.isHidden = false)
      (made : tryFrom target = .ok pinned)
      (scores : Scores primitives target matcher object score) :
      IsHit primitives here target matcher ⟨pinned, revision, score, none⟩
  | current {entry : StoredAlias} {hit : ContextHit} (unpinned : target.revision = none)
      (among : entry ∈ here.aliases) (found : Found primitives here target matcher entry hit) :
      IsHit primitives here target matcher hit

/-! ### Enumeration -/

def resultName (result : ResolvedContext) : LogicalName := result.pinnedUri.uri.logicalName

theorem Listed.named (entry : StoredAlias) (result : ResolvedContext)
    (listed : Listed here target recursive entry result) : resultName result = aliasName entry := by
  obtain ⟨_, pinned, object, current, rfl⟩ := listed
  exact (withRevision_spec current.made).1

theorem isBelow_iff :
    IsBelow target recursive entry ↔
      (decide (entry.snapshot.aliasUri.path.length > target.path.length) &&
        isWithin target entry.snapshot.aliasUri) = true ∧
      (!recursive && entry.snapshot.aliasUri.path.length != target.path.length + 1) = false := by
  constructor
  · rintro ⟨inside, deeper, child⟩
    cases recursive <;> simp_all
  · rintro ⟨inside, child⟩
    simp only [Bool.and_eq_true, decide_eq_true_eq] at inside
    refine ⟨inside.2, inside.1, ?_⟩
    rintro rfl
    simpa using child

theorem IsCurrent.same {pinned other : PinnedRuvUri} {object body : StoredObject}
    (left : IsCurrent here entry pinned object) (right : IsCurrent here entry other body) :
    pinned = other ∧ object = body :=
  ⟨Except.ok.inj (left.made.symm.trans right.made),
    Option.some.inj (left.stored.symm.trans right.stored)⟩

theorem enumerateAlias_collects {entries : List ResolvedContext}
    (collected : Collected (Listed here target recursive) resultName visited entries)
    (fresh : aliasName entry ∉ visited.map aliasName) :
    (here.enumerateAlias target recursive entries entry).Ensures ()
      (fun later _ =>
        Collected (Listed here target recursive) resultName (visited ++ [entry]) later)
      fun _ _ => True := by
  unfold enumerateAlias
  dsimp only
  split
  · rename_i passed
    apply collected.skip
    rintro result ⟨below, pinned, object, current, _⟩
    obtain ⟨inside, child⟩ := isBelow_iff.mp below
    rw [inside, child, current.live] at passed
    cases passed
  · rename_i passed
    simp only [Bool.or_eq_true, not_or, Bool.not_eq_true, Bool.not_eq_false,
      Bool.not_eq_true'] at passed
    obtain ⟨⟨live, inside⟩, child⟩ := passed
    have below := isBelow_iff.mpr ⟨inside, child⟩
    split
    · rename_i absent
      apply collected.skip
      rintro result ⟨_, pinned, object, current, _⟩
      cases absent.symm.trans current.stored
    · rename_i object stored
      split
      · rename_i hidden
        apply collected.skip
        rintro result ⟨_, pinned, other, current, _⟩
        obtain rfl := Option.some.inj (stored.symm.trans current.stored)
        cases hidden.symm.trans current.shown
      · rename_i shown
        simp only [ensures_bind, ensures_translate, ensures_orRefusal, ensures_pure,
          implies_true, and_true]
        intro pinned made
        have current : IsCurrent here entry pinned object :=
          ⟨live, stored, by simpa using shown, made⟩
        refine collected.add (fun other => ⟨?_, ?_⟩) Listed.named fresh
        · rintro ⟨_, otherPinned, otherObject, otherCurrent, rfl⟩
          obtain ⟨rfl, rfl⟩ := current.same otherCurrent
          rfl
        · rintro rfl
          exact ⟨below, pinned, object, current, rfl⟩

theorem enumerateAliases_first (distinct : DistinctAliases here) (limit : Nat) (recursive : Bool) :
    (here.enumerateAliases target limit recursive).Ensures ()
      (fun entries _ => (0 < limit ∧ limit ≤ maxEnumResults) ∧
        FirstOf compareEntries limit
          (fun result => ∃ entry ∈ here.aliases, Listed here target recursive entry result) entries)
      fun _ _ => True := by
  unfold enumerateAliases validateEnumerationLimit
  simp only [ensures_bind, ensures_throwIf, ensures_pure, implies_true, true_and]
  intro bounded
  apply (ensures_foldlM
    (fun visited entries _ => Collected (Listed here target recursive) resultName visited entries)
    Collected.nil _).weaken
  · intro entries _ collected
    refine ⟨by omega, firstOf_sorted collected.members (collected.distinct ?_)⟩
    exact fun _ _ same => name_of_cmp same
  · exact fun _ _ _ _ _ split collected =>
      enumerateAlias_collects collected (fresh_of_split distinct split)

/-! ### Search -/

def hitName (hit : ContextHit) : LogicalName := hit.pinnedUri.uri.logicalName

variable {matcher : QueryMatcher}

theorem Found.named (entry : StoredAlias) (hit : ContextHit)
    (found : Found primitives here target matcher entry hit) : hitName hit = aliasName entry := by
  obtain ⟨_, pinned, object, score, current, _, rfl⟩ := found
  exact (withRevision_spec current.made).1

theorem Scores.same {object : StoredObject} {score other : Nat}
    (left : Scores primitives target matcher object score)
    (right : Scores primitives target matcher object other) : score = other :=
  Except.ok.inj (Prod.mk.inj (Option.some.inj (left.counted.symm.trans right.counted))).1

theorem compareHits_named (left right : ContextHit) (same : compareHits left right = .eq) :
    hitName left = hitName right :=
  name_of_cmp (Ordering.then_eq_eq.mp same).2

def Scanned (primitives : RvfPrimitives) (here : MemoryResolver) (target : RuvUri)
    (matcher : QueryMatcher) (limit : Nat) (visited : List StoredAlias) (kept : List ContextHit) :
    Prop :=
  ∃ all, Collected (Found primitives here target matcher) hitName visited all ∧
    Best (AtMost compareHits) limit all kept

theorem searchAlias_scans (table : QueryMatcher.Table matcher.needle matcher.failure)
    (positive : 0 < limit) {hits : List ContextHit}
    (scanned : Scanned primitives here target matcher limit visited hits)
    (fresh : aliasName entry ∉ visited.map aliasName) :
    (searchAlias primitives here target matcher limit hits entry).Ensures ()
      (fun later _ => Scanned primitives here target matcher limit (visited ++ [entry]) later)
      fun _ _ => True := by
  obtain ⟨all, collected, best⟩ := scanned
  unfold searchAlias
  dsimp only
  split
  · rename_i passed
    refine ⟨all, collected.skip ?_, best⟩
    rintro hit ⟨inside, pinned, object, score, current, _⟩
    rw [inside, current.live] at passed
    cases passed
  · rename_i passed
    simp only [Bool.or_eq_true, not_or, Bool.not_eq_true, Bool.not_eq_false,
      Bool.not_eq_true'] at passed
    obtain ⟨live, inside⟩ := passed
    split
    · rename_i absent
      refine ⟨all, collected.skip ?_, best⟩
      rintro hit ⟨_, pinned, object, score, current, _⟩
      cases absent.symm.trans current.stored
    · rename_i object stored
      split
      · rename_i hidden
        refine ⟨all, collected.skip ?_, best⟩
        rintro hit ⟨_, pinned, other, score, current, _⟩
        obtain rfl := Option.some.inj (stored.symm.trans current.stored)
        cases hidden.symm.trans current.shown
      · rename_i shown
        rw [ensures_bind]
        apply (scoreView_returns table object target.view).traced.mono _ fun _ _ _ => trivial
        rintro score _ ⟨_, counted⟩
        split
        · rename_i silent
          refine ⟨all, collected.skip ?_, best⟩
          rintro hit ⟨_, pinned, other, score', current, scores, _⟩
          obtain rfl := Option.some.inj (stored.symm.trans current.stored)
          cases counted.symm.trans scores.counted
          exact Nat.ne_of_gt scores.positive silent
        · rename_i occurs
          simp only [ensures_bind, ensures_translate, ensures_orRefusal, implies_true, and_true]
          intro pinned made
          have current : IsCurrent here entry pinned object :=
            ⟨live, stored, by simpa using shown, made⟩
          have scores : Scores primitives target matcher object score :=
            ⟨counted, Nat.pos_of_ne_zero occurs⟩
          apply (pushTopHit_best positive best _).mono _ fun _ _ _ => trivial
          intro kept _ better
          refine ⟨_, collected.add (fun other => ⟨?_, ?_⟩) Found.named fresh, better⟩
          · rintro ⟨_, otherPinned, otherObject, otherScore, otherCurrent, otherScores, rfl⟩
            obtain ⟨rfl, rfl⟩ := current.same otherCurrent
            rw [scores.same otherScores]
          · rintro rfl
            exact ⟨inside, pinned, object, score, current, scores, rfl⟩

theorem isHit_of_pin {revision : Revision} (pin : target.revision = some revision)
    {hit : ContextHit} : IsHit primitives here target matcher hit ↔
      ∃ object score, here.objectFor target revision = some object ∧ object.isHidden = false ∧
        Scores primitives target matcher object score ∧
        hit = ⟨⟨target, revision⟩, revision, score, none⟩ := by
  have made : tryFrom target = .ok ⟨target, revision⟩ := by
    rw [tryFrom, pin]
  constructor
  · rintro (⟨pin', stored, shown, made', scores⟩ | ⟨unpinned, _, _⟩)
    · obtain rfl := Option.some.inj (pin.symm.trans pin')
      obtain rfl := Except.ok.inj (made.symm.trans made')
      exact ⟨_, _, stored, shown, scores, rfl⟩
    · cases unpinned.symm.trans pin
  · rintro ⟨object, score, stored, shown, scores, rfl⟩
    exact .pinned pin stored shown made scores

theorem firstOf_nothing {Qualifies : ContextHit → Prop} (nothing : ∀ hit, ¬ Qualifies hit) :
    FirstOf compareHits limit Qualifies
      (([] : List ContextHit).insertionSort (AtMost compareHits)) := by
  apply (Best.nil _ limit).firstOf _ .nil
  exact fun hit => ⟨nofun, fun qualifies => absurd qualifies (nothing hit)⟩

theorem searchPinned_first (table : QueryMatcher.Table matcher.needle matcher.failure)
    (positive : 0 < limit) {revision : Revision} (pin : target.revision = some revision) :
    (searchPinned primitives here target revision matcher limit).Ensures ()
      (fun hits _ => FirstOf compareHits limit (IsHit primitives here target matcher)
        (hits.insertionSort (AtMost compareHits)))
      fun _ _ => True := by
  unfold searchPinned
  split
  · rename_i absent
    apply firstOf_nothing
    intro hit isHit
    obtain ⟨object, _, stored, _⟩ := (isHit_of_pin pin).mp isHit
    cases absent.symm.trans stored
  · rename_i object stored
    have isFor : object.isFor target revision = true := by
      have found := List.find?_some stored
      exact found
    have sameName : sameLogicalName object.canonicalUri target = true :=
      (Bool.and_eq_true_iff.mp isFor).2
    split
    · rename_i hidden
      apply firstOf_nothing
      intro hit isHit
      obtain ⟨other, _, stored', shown, _⟩ := (isHit_of_pin pin).mp isHit
      obtain rfl := Option.some.inj (stored.symm.trans stored')
      rw [shown, sameName] at hidden
      cases hidden
    · rename_i passed
      rw [sameName, Bool.not_true, Bool.or_false, Bool.not_eq_true] at passed
      rw [ensures_bind]
      apply (scoreView_returns table object target.view).traced.mono _ fun _ _ _ => trivial
      rintro score _ ⟨_, counted⟩
      split
      · rename_i occurs
        have scores : Scores primitives target matcher object score := ⟨counted, occurs⟩
        simp only [ensures_bind, ensures_translate, ensures_orRefusal, implies_true, and_true]
        intro pinned made
        rw [tryFrom, pin] at made
        cases made
        apply (pushTopHit_best positive (Best.nil _ limit) _).mono _ fun _ _ _ => trivial
        intro kept _ best
        apply best.firstOf _ (pairwise_singleton _ _)
        intro hit
        rw [isHit_of_pin pin, nil_append, mem_singleton]
        constructor
        · rintro rfl
          exact ⟨object, score, stored, passed, scores, rfl⟩
        · rintro ⟨other, otherScore, stored', _, otherScores, rfl⟩
          obtain rfl := Option.some.inj (stored.symm.trans stored')
          rw [scores.same otherScores]
      · rename_i silent
        apply firstOf_nothing
        intro hit isHit
        obtain ⟨other, otherScore, stored', _, scores, _⟩ := (isHit_of_pin pin).mp isHit
        obtain rfl := Option.some.inj (stored.symm.trans stored')
        cases counted.symm.trans scores.counted
        exact silent scores.positive

theorem searchHits_first (distinct : DistinctAliases here) (query : List UInt8) (limit : Nat) :
    (searchHits primitives here target query limit).Ensures ()
      (fun hits _ => (0 < limit ∧ limit ≤ maxSearchResults) ∧ ∃ matcher,
        (QueryMatcher.new query).runFrom () = some (.ok matcher, ()) ∧
        FirstOf compareHits limit (IsHit primitives here target matcher) hits)
      fun _ _ => True := by
  unfold searchHits
  simp only [ensures_bind, ensures_throwIf, implies_true, true_and]
  intro _ bounded
  have positive : 0 < limit := by omega
  apply (QueryMatcher.new_spec query).traced.mono _ fun _ _ _ => trivial
  rintro matcher _ ⟨⟨_, table⟩, prepared⟩
  split
  · rename_i revision pin
    rw [ensures_bind]
    apply (searchPinned_first table positive pin).weaken
    exact fun hits _ first => ⟨by omega, matcher, prepared, first⟩
  · rename_i unpinned
    rw [ensures_bind]
    apply (ensures_foldlM (fun visited hits _ =>
      Scanned primitives here target matcher limit visited hits)
      ⟨[], .nil, .nil _ _⟩ _).weaken
    · rintro hits _ ⟨all, collected, best⟩
      refine ⟨by omega, matcher, prepared, best.firstOf (fun hit => ?_)
        (collected.distinct compareHits_named)⟩
      rw [collected.members]
      constructor
      · rintro ⟨entry, among, found⟩
        exact .current unpinned among found
      · rintro (⟨pin, _⟩ | ⟨_, among, found⟩)
        · cases unpinned.symm.trans pin
        · exact ⟨_, among, found⟩
    · exact fun _ _ _ _ _ split scanned =>
        searchAlias_scans table positive scanned (fresh_of_split distinct split)

/-! ### The results -/

theorem readFor_shows {α : Type} {request : AuthorizedRequest} {operation : ContextOperation}
    {look : MemoryResolver → Call ContextError Unit α} {Shows : α → Prop} {value : α}
    (returned : (readFor request operation look).runFrom here = some (.ok value, next))
    (looks : (look here).Ensures () (fun value _ => Shows value) fun _ _ => True) :
    Shows value := by
  rcases (readFor_spec looks).outcome with ⟨_, _, ran, _, shows⟩ | ⟨_, _, ran, _⟩
  · cases returned.symm.trans ran
    exact shows
  · cases returned.symm.trans ran

/-- In every state that calls reach, a search has the first of all hits and the listings the first
of all aliases, up to the limit. -/
theorem globalTopResults
    (run : Run (Step primitives objectCapacity aliasCapacity) .new history here) :
    (∀ request query limit hits next,
      ((resolver primitives objectCapacity aliasCapacity).search request query limit).runFrom here =
        some (.ok hits, next) →
      (0 < limit ∧ limit ≤ maxSearchResults) ∧ ∃ matcher,
        (QueryMatcher.new query).runFrom () = some (.ok matcher, ()) ∧
        FirstOf compareHits limit (IsHit primitives here request.target matcher) hits) ∧
    (∀ request limit entries next,
      ((resolver primitives objectCapacity aliasCapacity).list request limit).runFrom here =
        some (.ok entries, next) →
      (0 < limit ∧ limit ≤ maxEnumResults) ∧ FirstOf compareEntries limit
        (fun result => ∃ entry ∈ here.aliases, Listed here request.target false entry result)
        entries) ∧
    ∀ request limit entries next,
      ((resolver primitives objectCapacity aliasCapacity).tree request limit).runFrom here =
        some (.ok entries, next) →
      (0 < limit ∧ limit ≤ maxEnumResults) ∧ FirstOf compareEntries limit
        (fun result => ∃ entry ∈ here.aliases, Listed here request.target true entry result)
        entries := by
  have distinct := run_distinct run
  refine ⟨?_, ?_, ?_⟩
  · intro request query limit hits next returned
    have shows := readFor_shows returned (searchHits_first distinct query limit)
    exact shows
  · intro request limit entries next returned
    have shows := readFor_shows returned (enumerateAliases_first distinct limit false)
    exact shows
  · intro request limit entries next returned
    have shows := readFor_shows returned (enumerateAliases_first distinct limit true)
    exact shows

/-- A segment of an RVF, padded as its writer does. -/
def segmentBytes (segType : UInt8) (id : Nat) (contentHash : String) (payload : List UInt8) :
    List UInt8 :=
  let padding := (64 - payload.length % 64) % 64
  Rvf.segmentMagicBytes ++ [1, segType, 0, 0] ++
    [id, payload.length, id].flatMap (littleEndianBytes 8) ++ 2 :: List.replicate 7 0 ++
    hexBytes contentHash.toList ++ List.replicate 4 0 ++ littleEndianBytes 4 padding ++ payload ++
    List.replicate padding 0

/-- SHA-256 of the content `aaa`. -/
def tiedContent : Revision :=
  ⟨⟨hexBytes "9834876dcfb05cb167a5c24953eba58c4ac89b1adf57f28f2f9d09af107ee8f0".toList, by decide⟩⟩

/-- SHA-256 of the body below. -/
def tiedRevision : Revision :=
  ⟨⟨hexBytes "33d37302d84bef80914c940ed813e004ab23fc722550d96ccf61e2d819df839e".toList, by decide⟩⟩

/-- The content with its profile and a manifest; the content hashes are those of SHAKE-256. -/
def tiedBody : List UInt8 :=
  segmentBytes 0x07 1 "ee08135fa8a4484f024aad234c916d34" (utf8 "aaa".toList) ++
    segmentBytes segTypeProfile 2 "d2adc944e15923eea3c1299bc14e41db"
      (contextProfileMagic ++ [1, 1, 0, 0] ++ encodeView ⟨.content, 1, tiedContent, none⟩) ++
    segmentBytes 0x05 3 "abe807196cbf5ce1019888adb4978b22" (utf8 "root".toList)

def tiedPrimitives : RvfPrimitives where
  sha256 bytes := if bytes.length = 3 then tiedContent.bytes else tiedRevision.bytes
  verify _ _ := .ok ⟨tiedRevision.bytes, true, true, []⟩

/-- The last segments of three names, in the order in which their aliases are created. -/
def tiedSegments : List PathSegment :=
  [⟨['b'], by decide⟩, ⟨['c'], by decide⟩, ⟨['a'], by decide⟩]

def tiedAlias (segment : PathSegment) : AliasSnapshot :=
  ⟨{ sampleAlias with path := [segment] }, tiedRevision, .initial, false, rfl⟩

def tiedPinned (segment : PathSegment) : PinnedRuvUri :=
  ⟨{ sampleAlias with path := [segment], revision := some tiedRevision }, tiedRevision⟩

def tiedEvents (segment : PathSegment) : List ResolverEvent :=
  [⟨.put ⟨⟨1⟩, .put, (tiedPinned segment).uri, 0, 0, 0, rfl⟩ tiedBody,
      .ok (.resolved ⟨tiedPinned segment, tiedRevision, none, 576⟩)⟩,
    ⟨.compareAndSwapAlias ⟨⟨1⟩, .compareAndSwapAlias, (tiedAlias segment).aliasUri, 0, 0, 0, rfl⟩
      none tiedRevision, .ok (.snapshot (tiedAlias segment))⟩]

def tiedState : MemoryResolver where
  objects := tiedSegments.map fun segment =>
    ⟨(tiedPinned segment).uri, tiedRevision, tiedBody, false, false⟩
  aliases := tiedSegments.map fun segment => ⟨tiedAlias segment⟩

set_option maxRecDepth 4000 in
theorem tied_run :
    Run (Step tiedPrimitives 4 4) .new (tiedSegments.flatMap tiedEvents) tiedState :=
  .cons rfl <| .cons rfl <| .cons rfl <| .cons rfl <| .cons rfl <| .single rfl

def tiedSearch : AuthorizedRequest :=
  ⟨⟨1⟩, .search, { sampleAlias with path := [], view := some .content }, 0, 0, 0, rfl⟩

def tiedHit (segment : PathSegment) : ContextHit :=
  ⟨tiedPinned segment, tiedRevision, 2, some .initial⟩

/-- Three hits of one score, of which the two with the first names are returned. -/
theorem globalTopResults_tied : ∃ matcher,
    (QueryMatcher.new (utf8 "aa".toList)).runFrom () = some (.ok matcher, ()) ∧
    FirstOf compareHits 2 (IsHit tiedPrimitives tiedState tiedSearch.target matcher)
      [tiedHit ⟨['a'], by decide⟩, tiedHit ⟨['b'], by decide⟩] := by
  have found : ((resolver tiedPrimitives 4 4).search tiedSearch (utf8 "aa".toList) 2).runFrom
      tiedState = some (.ok [tiedHit ⟨['a'], by decide⟩, tiedHit ⟨['b'], by decide⟩], tiedState) := by
    decide +kernel
  exact ((globalTopResults tied_run).1 tiedSearch _ 2 _ tiedState found).2

end MemoryResolver

end Rvm.Context
