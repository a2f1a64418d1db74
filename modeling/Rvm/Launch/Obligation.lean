import Rvm.Launch.Operations
import Rvm.Launch.Sweep

/-!
Owns the obligation that a poisoned stream leaves
(`rvm-launch/src/stream_obligation.rs`): its discharge over the capability table, the
instances and the registry, and when it revokes exactly the authority of the session.
-/

namespace Rvm.Launch

open Foundation Foundation.Call Cap CapabilityTable Traced Wasm List

/-- What an instance records of the session that verified its module. -/
structure StreamOrigin where
  sessionId : Nat
  descriptorHash : Octets 32

structure StreamedInstance where
  own : Instance
  streamOrigin : Option StreamOrigin

def StreamedInstance.StartedFrom (sessionId : Nat) (streamed : StreamedInstance) : Prop :=
  streamed.streamOrigin.map StreamOrigin.sessionId = some sessionId

instance {sessionId : Nat} {streamed : StreamedInstance} :
    Decidable (streamed.StartedFrom sessionId) :=
  inferInstanceAs (Decidable (_ = _))

structure PoisonObligation where
  sessionId : Nat
  handles : List (Nat × Nat)

structure Discharged where
  revoked : Nat
  terminated : Nat
deriving DecidableEq, Repr

/-- What a discharge works on. -/
structure ObligationScene where
  table : CapabilityTable
  instances : List StreamedInstance
  registry : Registry

namespace PoisonObligation

def terminateStarted (sessionId timestampNs terminated i : Nat) :
    Call LaunchError ObligationScene Nat := do
  let here ← get
  match here.instances[i]? with
  | none => return terminated
  | some streamed =>
    if streamed.StartedFrom sessionId ∧ streamed.own.state ≠ .terminated then
      onPart (fun here => Scene.mk streamed.own here.registry)
        (fun here scene => { here with
          instances := here.instances.set i { streamed with own := scene.own }
          registry := scene.registry })
        (Instance.terminate timestampNs)
      return terminated + 1
    else return terminated

def discharge (N : Nat) (obligation : PoisonObligation) (timestampNs : Nat) :
    Call LaunchError ObligationScene Discharged := do
  let here ← get
  let swept ← orPanic (Sweep.revokeAll N here.table obligation.handles)
  modify fun here => { here with table := swept.table }
  let terminated ← (List.range here.instances.length).foldlM
    (terminateStarted obligation.sessionId timestampNs) 0
  return ⟨swept.revoked, terminated⟩

def Spares (sessionId : Nat) (before after : List StreamedInstance) : Prop :=
  ∀ (i : Nat) (streamed : StreamedInstance), before[i]? = some streamed →
    ¬streamed.StartedFrom sessionId → after[i]? = some streamed

def Ended (sessionId : Nat) (positions : List Nat) (instances : List StreamedInstance) : Prop :=
  ∀ i ∈ positions, ∀ streamed, instances[i]? = some streamed → streamed.StartedFrom sessionId →
    streamed.own.state = .terminated

variable {sessionId timestampNs terminated i : Nat} {here : ObligationScene}
  {before : List StreamedInstance} {visited : List Nat} {table : CapabilityTable}

theorem terminate_ends {scene : Scene} :
    (Instance.terminate timestampNs).Ensures scene
      (fun _ next => next.own.state = .terminated) fun _ _ => True := by
  have entered : ∀ (scene : Scene) (detail start : Nat),
      (Instance.enter .instanceTerminated .terminated timestampNs detail start).Ensures scene
        (fun _ next => next.own.state = .terminated) fun _ _ => True := fun scene detail start =>
    (enter_spec _ _ _ _ _).mono (fun _ _ after => after.2.2.1) fun _ _ _ => trivial
  simp only [Instance.terminate, ensures_bind, ensures_get, ensures_modify]
  apply (guard_spec .terminate timestampNs).mono _ fun _ _ _ => trivial
  rintro _ _ ⟨rfl, -⟩
  split
  · rw [onAgents, ensures_bind, ensures_translate, ensures_onPart]
    simp only [Registry.terminate, Registry.emitAgentWitness, ensures_bind, ensures_get,
      ensures_orThrow, ensures_set, ensures_modify]
    exact ⟨fun _ _ => entered _ _ _, fun _ => trivial⟩
  · exact entered _ _ _

/-- What holds between two instances of the loop. -/
structure Between (sessionId : Nat) (table : CapabilityTable) (before : List StreamedInstance)
    (visited : List Nat) (here : ObligationScene) : Prop where
  table : here.table = table
  length : here.instances.length = before.length
  spares : Spares sessionId before here.instances
  ended : Ended sessionId visited here.instances

theorem terminateStarted_spec (between : Between sessionId table before visited here) :
    (terminateStarted sessionId timestampNs terminated i).Ensures here
      (fun _ next => Between sessionId table before (visited ++ [i]) next)
      fun _ next => next.table = table ∧ Spares sessionId before next.instances := by
  -- What is known of the position `i` alone is enough to go on.
  have extend : (∀ streamed, here.instances[i]? = some streamed → streamed.StartedFrom sessionId →
      streamed.own.state = .terminated) → Between sessionId table before (visited ++ [i]) here := by
    intro atPosition
    refine { between with ended := fun j member => ?_ }
    rcases mem_append.mp member with earlier | new
    · exact between.ended j earlier
    · exact mem_singleton.mp new ▸ atPosition
  unfold terminateStarted
  rw [ensures_bind, ensures_get]
  cases found : here.instances[i]? with
  | none =>
    apply extend
    rw [found]
    nofun
  | some streamed =>
    simp only [ensures_ite, ensures_pure]
    constructor
    · rintro ⟨started, -⟩
      rw [ensures_bind, ensures_onPart]
      have inside : i < here.instances.length := (List.getElem?_eq_some_iff.mp found).1
      have spares : ∀ own, Spares sessionId before
          (here.instances.set i { streamed with own := own }) := by
        intro own j other present apart
        have kept := between.spares j other present apart
        by_cases same : i = j
        · subst same
          rw [found] at kept
          exact (apart (Option.some.inj kept ▸ started)).elim
        · rw [List.getElem?_set_ne same, kept]
      apply terminate_ends.mono
      · intro _ scene ended
        refine ⟨between.table, ?_, spares _, ?_⟩
        · rw [length_set, between.length]
        · intro j member other present matches_
          by_cases same : i = j
          · subst same
            rw [List.getElem?_set_self inside] at present
            rw [← Option.some.inj present]
            exact ended
          · rw [List.getElem?_set_ne same] at present
            rcases mem_append.mp member with earlier | new
            · exact between.ended j earlier other present matches_
            · exact (same (mem_singleton.mp new).symm).elim
      · intro _ scene _
        exact ⟨between.table, spares _⟩
    · intro idle
      apply extend
      intro other present started
      obtain rfl : streamed = other := Option.some.inj (found.symm.trans present)
      by_contra live
      exact idle ⟨started, live⟩

theorem terminateStarted_loop :
    ((List.range here.instances.length).foldlM (terminateStarted sessionId timestampNs) 0).Ensures
      here
      (fun _ next => Between sessionId here.table here.instances
        (List.range here.instances.length) next)
      fun _ next => next.table = here.table ∧ Spares sessionId here.instances next.instances := by
  apply ensures_foldlM fun visited _ next =>
    Between sessionId here.table here.instances visited next
  · exact ⟨rfl, rfl, fun _ _ present _ => present, nofun⟩
  · intro visited i _ terminated next _ between
    exact terminateStarted_spec between

/-- The capability in a slot is one of the handles, or was derived from one. -/
def Covered (traced : Traced) (handles : List (Nat × Nat)) (index : Nat) : Prop :=
  (traced.occupant index).handle ∈ handles ∨
    ∃ ancestor ∈ traced.ancestors index, ancestor.handle ∈ handles

instance {traced : Traced} {handles : List (Nat × Nat)} {index : Nat} :
    Decidable (Covered traced handles index) :=
  inferInstanceAs (Decidable (_ ∨ _))

/-- The capability that another was derived from is still in its slot. -/
def StillThere (N : Nat) (traced : Traced) (parent : Inserted) : Prop :=
  InUse N traced.table parent.handle.1 ∧ traced.serials parent.handle.1 = parent.serial

/-- A capability whose parent was removed, and that is not a handle itself, hangs by
its parent's slot from a handle exactly where it was derived from one. -/
def Aligned (N : Nat) (traced : Traced) (handles : List (Nat × Nat)) : Prop :=
  ∀ index parent rest, InUse N traced.table index → traced.ancestors index = parent :: rest →
    ¬StillThere N traced parent → (traced.occupant index).handle ∉ handles →
    (Sweep.Hangs N traced.table handles parent.handle.1 ↔
      ∃ ancestor ∈ parent :: rest, ancestor.handle ∈ handles)

/-- Afterwards what is covered is gone, and everything else is untouched. -/
def Exact (N : Nat) (traced : Traced) (handles : List (Nat × Nat)) (after : CapabilityTable) :
    Prop :=
  ∀ index, InUse N traced.table index →
    (Covered traced handles index → ¬InUse N after index) ∧
      (¬Covered traced handles index → after.slots index = traced.table.slots index)

variable {N : Nat} {traced : Traced} {handles : List (Nat × Nat)}

theorem aligned_of_stillThere
    (there : ∀ index parent rest, InUse N traced.table index →
      traced.ancestors index = parent :: rest → StillThere N traced parent) :
    Aligned N traced handles :=
  fun index parent rest inUse descends gone => (gone (there index parent rest inUse descends)).elim

theorem hangs_iff {index : Nat} (inUse : InUse N traced.table index) :
    Sweep.Hangs N traced.table handles index ↔
      (traced.occupant index).handle ∈ handles ∨ 0 < (traced.table.slots index).depth ∧
        Sweep.Hangs N traced.table handles (traced.table.slots index).parentIndex := by
  constructor
  · intro hangs
    cases hangs with
    | handle _ among => exact .inl among
    | child _ deep above => exact .inr ⟨deep, above⟩
  · rintro (among | ⟨deep, above⟩)
    · exact .handle inUse among
    · exact .child inUse deep above

theorem hangs_iff_covered (recorded : Recorded N traced) :
    (∀ index, InUse N traced.table index →
      (Sweep.Hangs N traced.table handles index ↔ Covered traced handles index)) ↔
      Aligned N traced handles := by
  constructor
  · intro agree index parent rest inUse descends _ apart
    obtain ⟨deep, parentIndex, -, -⟩ := recorded.child index parent rest inUse descends
    have same := agree index inUse
    rw [hangs_iff inUse, Covered, descends, parentIndex] at same
    constructor
    · intro above
      exact (same.mp (.inr ⟨deep, above⟩)).resolve_left apart
    · intro among
      exact ((same.mpr (.inr among)).resolve_left apart).2
  · intro aligned index inUse
    induction chain : traced.ancestors index generalizing index with
    | nil =>
      have shallow := recorded.root index inUse chain
      rw [hangs_iff inUse, Covered, chain, shallow]
      simp
    | cons parent rest ih =>
      obtain ⟨deep, parentIndex, -, kept⟩ := recorded.child index parent rest inUse chain
      by_cases among : (traced.occupant index).handle ∈ handles
      · exact ⟨fun _ => .inl among, fun _ => .handle inUse among⟩
      · have above : Sweep.Hangs N traced.table handles parent.handle.1 ↔
            ∃ ancestor ∈ parent :: rest, ancestor.handle ∈ handles := by
          by_cases there : StillThere N traced parent
          · obtain ⟨occupant, ancestors⟩ := kept there.1 there.2
            rw [ih parent.handle.1 there.1 ancestors, Covered, occupant,
              ancestors, exists_mem_cons_iff]
          · exact aligned index parent rest inUse chain there among
        rw [hangs_iff inUse, Covered, chain, parentIndex, above]
        simp [among, deep]

def removedCount (N : Nat) (before after : CapabilityTable) : Nat :=
  (List.range N).countP fun index =>
    (before.slots index).isValid && !(after.slots index).isValid

structure Swept (N : Nat) (handles : List (Nat × Nat)) (before : CapabilityTable)
    (final : Sweep) : Prop where
  nodup : final.gone.Nodup
  revoked : final.revoked = final.gone.length
  gone : ∀ index, index ∈ final.gone ↔ Sweep.Hangs N before handles index
  slots : ∀ index, final.table.slots index =
    if index ∈ final.gone then (before.slots index).invalidate else before.slots index

theorem Swept.removed {before : CapabilityTable} {final : Sweep}
    (swept : Swept N handles before final) {index : Nat} (inUse : InUse N before index) :
    ¬InUse N final.table index ↔ Sweep.Hangs N before handles index := by
  rw [← swept.gone, InUse, swept.slots]
  by_cases gone : index ∈ final.gone
  · simp [gone]
  · rw [if_neg gone]
    exact ⟨fun removed => (removed inUse).elim, fun present => (gone present).elim⟩

theorem Swept.counted {before : CapabilityTable} {final : Sweep}
    (swept : Swept N handles before final) :
    final.revoked = removedCount N before final.table := by
  rw [swept.revoked, removedCount, countP_eq_length_filter]
  apply List.Perm.length_eq
  rw [perm_ext_iff_of_nodup swept.nodup (nodup_range.filter _)]
  intro index
  rw [mem_filter, mem_range, swept.slots]
  constructor
  · intro gone
    have inUse := ((swept.gone index).mp gone).inUse
    refine ⟨inUse.1, ?_⟩
    simp [gone, inUse.2, CapSlot.isValid]
  · rintro ⟨-, removed⟩
    by_contra present
    simp [present] at removed

/-- The sweep revokes exactly the authority of the session, where the orphans are
aligned. -/
theorem Swept.exact_iff (recorded : Recorded N traced) {final : Sweep}
    (swept : Swept N handles traced.table final) :
    Exact N traced handles final.table ↔ Aligned N traced handles := by
  rw [← hangs_iff_covered recorded]
  refine forall₂_congr fun index inUse => ?_
  rw [swept.removed inUse]
  constructor
  · rintro ⟨removed, untouched⟩
    refine ⟨fun hangs => ?_, removed⟩
    by_contra apart
    exact (swept.removed inUse).mpr hangs ⟨inUse.1, untouched apart ▸ inUse.2⟩
  · intro agree
    refine ⟨agree.mpr, fun apart => ?_⟩
    rw [swept.slots, if_neg fun gone => apart (agree.mp ((swept.gone index).mp gone))]

/-- A discharge ends and revokes the capabilities of the session with those derived from them,
exactly where the orphans of the table are aligned. -/
theorem dischargeRevokesAuthority (capacity : N ≤ u32Max)
    {labels : List (TableCall × TableOutcome)} (run : Run (Traced.Step N) Traced.new labels traced)
    (obligation : PoisonObligation) (held : here.table = traced.table) :
    (discharge N obligation timestampNs).Ensures here
      (fun discharged next =>
        (Exact N traced obligation.handles next.table ↔ Aligned N traced obligation.handles) ∧
        discharged.revoked = removedCount N traced.table next.table ∧
        Spares obligation.sessionId here.instances next.instances ∧
        ∀ streamed ∈ next.instances, streamed.StartedFrom obligation.sessionId →
          streamed.own.state = .terminated)
      fun _ next =>
        (Exact N traced obligation.handles next.table ↔ Aligned N traced obligation.handles) ∧
        Spares obligation.sessionId here.instances next.instances := by
  have recorded := recorded_of_run capacity run
  obtain ⟨final, ended, nodup, revoked, gone, slots⟩ :=
    Sweep.revokeAll_spec capacity here.table obligation.handles
  rw [held] at gone slots
  have swept : Swept N obligation.handles traced.table final := ⟨nodup, revoked, gone, slots⟩
  simp only [discharge, ensures_bind, ensures_get, ensures_orPanic, ensures_modify, ensures_pure]
  refine ⟨final, ended, ?_⟩
  apply (@terminateStarted_loop obligation.sessionId timestampNs
    { here with table := final.table }).mono
  · intro _ next between
    refine ⟨between.table ▸ swept.exact_iff recorded, between.table ▸ swept.counted,
      between.spares, fun streamed member started => ?_⟩
    obtain ⟨i, found⟩ := List.mem_iff_getElem?.mp member
    have inside : i < next.instances.length := (List.getElem?_eq_some_iff.mp found).1
    exact between.ended i (List.mem_range.mpr (between.length ▸ inside)) streamed found started
  · rintro _ next ⟨table, spares⟩
    exact ⟨table ▸ swept.exact_iff recorded, spares⟩

def sampleToken : CapToken := ⟨1, .region, .empty, 0⟩

def issued (here : Traced) (outcome : Except CapError ((Nat × Nat) × CapabilityTable))
    (ancestors : List Inserted) : Traced :=
  match outcome with
  | .ok (handle, after) => here.placed after handle.1 ancestors
  | .error _ => here

def sampleRoot : Traced := issued .new (insertRoot 4 .new sampleToken ⟨1⟩ 0) []

def sampleChild : Traced :=
  issued sampleRoot (insertDerived 4 sampleRoot.table sampleToken ⟨2⟩ 1 0 0)
    (sampleRoot.occupant 0 :: sampleRoot.ancestors 0)

/-- The root is removed. -/
def sampleOrphan : Traced := { sampleChild with table := sampleChild.table.forceInvalidate 4 0 }

/-- Slot 0 is used again, for a root of the session. -/
def sampleReuse : Traced :=
  issued sampleOrphan (insertRoot 4 sampleOrphan.table sampleToken ⟨3⟩ 0) []

theorem run_sampleChild : Run (Traced.Step 4) Traced.new
    (([] ++ [(.insertRoot sampleToken ⟨1⟩ 0, .ok (.handle 0 1))]) ++
      [(.insertDerived sampleToken ⟨2⟩ 1 0 0, .ok (.handle 1 1))]) sampleChild :=
  (Run.nil.snoc (@Traced.Step.insertedRoot 4 _ _ _ _ (0, 1) _ rfl)).snoc
    (@Traced.Step.insertedDerived 4 _ _ _ _ (1, 1) _ (0, 1) 1 ⟨by decide, by decide, rfl⟩ rfl
      (by decide) rfl)

theorem dischargeRevokesAuthority_family :
    (discharge 4 ⟨7, [(0, 1)]⟩ 9).Ensures ⟨sampleChild.table, [], ⟨.new 4, []⟩⟩
      (fun _ next => Exact 4 sampleChild [(0, 1)] next.table)
      fun _ next => Exact 4 sampleChild [(0, 1)] next.table := by
  have aligned : Aligned 4 sampleChild [(0, 1)] := by
    apply aligned_of_stillThere
    intro index parent rest _ descends
    by_cases derived : index = 1
    · subst derived
      obtain ⟨rfl, -⟩ := List.cons.inj descends
      exact ⟨⟨by decide, by decide⟩, rfl⟩
    · have root : sampleChild.ancestors index = sampleRoot.ancestors index :=
        Function.update_of_ne derived _ _
      have none : sampleRoot.ancestors index = [] := by
        show Function.update (fun _ => []) 0 [] index = _
        rw [Function.update_eq_self]
      cases descends.symm.trans (root.trans none)
  exact (dischargeRevokesAuthority (by decide) run_sampleChild ⟨7, [(0, 1)]⟩ rfl).mono
    (fun _ _ discharged => discharged.1.mpr aligned) fun _ _ refused => refused.1.mpr aligned

/-- The orphan in slot 1 was derived from the removed root, not from the session's
root that is now in its slot, and is revoked with it. -/
theorem reusedParent : (∃ labels, Run (Traced.Step 4) Traced.new labels sampleReuse) ∧
    (discharge 4 ⟨7, [(0, 2)]⟩ 9).Ensures ⟨sampleReuse.table, [], ⟨.new 4, []⟩⟩
      (fun discharged next => discharged.revoked = 2 ∧ ¬Exact 4 sampleReuse [(0, 2)] next.table)
      fun _ _ => False := by
  obtain ⟨table, ran, empty⟩ : ∃ table,
      (discharge 4 ⟨7, [(0, 2)]⟩ 9).runFrom ⟨sampleReuse.table, [], ⟨.new 4, []⟩⟩ =
        some (.ok ⟨2, 0⟩, ⟨table, [], ⟨.new 4, []⟩⟩) ∧ (table.slots 1).generation = 0 :=
    ⟨_, rfl, rfl⟩
  rw [Ensures, ran]
  have run : Run (Traced.Step 4) Traced.new _ sampleReuse :=
    (run_sampleChild.snoc (@Traced.Step.removed 4 _ 0 1 _ rfl)).snoc
      (@Traced.Step.insertedRoot 4 _ _ _ _ (0, 2) _ rfl)
  refine ⟨⟨_, run⟩, rfl, fun exact => ?_⟩
  have untouched := (exact 1 ⟨by decide, by decide⟩).2 (by decide)
  have kept : (table.slots 1).generation = 1 := congrArg CapSlot.generation untouched
  rw [empty] at kept
  cases kept

end PoisonObligation

end Rvm.Launch
