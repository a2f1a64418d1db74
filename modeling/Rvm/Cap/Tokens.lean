import Rvm.Cap.Manager

/-!
Owns where the live slots after a call come from, what a derived slot owes to its source,
and the identity of tokens over runs, whatever the derivation tree.
-/

namespace Rvm.Cap

open Foundation CapabilityTable DerivationTree

namespace DerivationTree

variable {N : Nat} {tree : DerivationTree}

theorem mem_collectLoop {fuel node : Nat} {stack visited final : List Nat}
    (collects : collectLoop N tree fuel stack visited = some final) (member : node ∈ visited) :
    node ∈ final := by
  induction fuel generalizing stack visited with
  | zero => cases collects
  | succ fuel ih =>
    cases stack with
    | nil =>
      cases collects
      exact member
    | cons current stack =>
      rw [collectLoop] at collects
      split at collects
      · exact ih collects member
      · dsimp only at collects
        split at collects
        · cases collects
        · apply ih collects
          split
          · exact List.mem_append_left _ member
          · exact member

theorem collectSubtree_first {fuel index : Nat} {collected : List Nat} (below : index < N)
    (valid : (tree.nodes index).isValid = true)
    (collects : collectSubtree N tree fuel index = some collected) :
    ∃ fuel stack, pushChildren N tree fuel (tree.nodes index).firstChild [] = some stack ∧
      collectLoop N tree fuel stack [index] = some collected := by
  rw [collectSubtree, if_pos ⟨below, valid⟩] at collects
  cases fuel with
  | zero => cases collects
  | succ fuel =>
    have proceed : ¬ (index ≥ N ∨ (!(tree.nodes index).isValid) = true) := by
      simp [valid, below]
    have room : ([] : List Nat).length < N := Nat.lt_of_le_of_lt (Nat.zero_le _) below
    rw [collectLoop, if_neg proceed] at collects
    dsimp only at collects
    rw [if_pos room] at collects
    split at collects
    · cases collects
    · exact ⟨fuel, _, by assumption, collects⟩

theorem mem_collectSubtree {fuel index : Nat} {collected : List Nat} (below : index < N)
    (valid : (tree.nodes index).isValid = true)
    (collects : collectSubtree N tree fuel index = some collected) : index ∈ collected := by
  obtain ⟨_, _, _, later⟩ := collectSubtree_first below valid collects
  exact mem_collectLoop later List.mem_cons_self

theorem valid_of_revoke {fuel index : Nat} {result : Nat × DerivationTree}
    (revokes : tree.revoke N fuel index = some (.ok result)) :
    index < N ∧ (tree.nodes index).isValid = true := by
  unfold revoke at revokes
  split at revokes
  · cases revokes
  · rename_i inside
    split at revokes
    · cases revokes
    · rename_i valid
      exact ⟨Nat.not_le.mp inside, by simpa using valid⟩

end DerivationTree

/-- What a derived slot owes to its source: the law of `validate_grant`. -/
structure Attenuates (maxDepth : Nat) (source slot : CapSlot) : Prop where
  rights : source.token.rights.contains slot.token.rights = true
  capType : slot.token.capType = source.token.capType
  depth : slot.depth = source.depth + 1
  within : slot.depth ≤ maxDepth
  permitted : source.token.rights.contains .grant = true ∨
    source.token.rights.contains .grantOnce = true

theorem Attenuates.strip {maxDepth : Nat} {source slot : CapSlot}
    (attenuates : Attenuates maxDepth source slot) :
    Attenuates maxDepth source (CapabilityManager.stripGrantOnce slot) where
  rights := CapRights.contains_trans attenuates.rights (CapRights.contains_difference _ _)
  capType := attenuates.capType
  depth := attenuates.depth
  within := attenuates.within
  permitted := attenuates.permitted

namespace CapabilityManager

variable {N : Nat} {before after : CapabilityManager}

/-- A live slot that was there before the call, possibly stripped since. -/
def Kept (before after : CapabilityManager) (index : Nat) : Prop :=
  (before.table.slots index).generation ≠ 0 ∧
    (after.table.slots index = before.table.slots index ∨
      after.table.slots index = stripGrantOnce (before.table.slots index))

structure Filled (N : Nat) (before after : CapabilityManager) (call : Call) (slot : CapSlot) :
    Prop where
  id : slot.token.id = before.nextId
  taken : after.nextId = before.nextId + 1
  root : call.source = none → slot.depth = 0
  derived : ∀ index generation, call.source = some (index, generation) →
    ∃ source, before.table.lookup N index generation = .ok source ∧
      Attenuates before.grantPolicy.maxDepth source slot

theorem Filled.strip {call : Call} {slot : CapSlot} (filled : Filled N before after call slot) :
    Filled N before after call (stripGrantOnce slot) where
  id := filled.id
  taken := filled.taken
  root := filled.root
  derived := by
    intro index generation source
    obtain ⟨sourceSlot, found, attenuates⟩ := filled.derived index generation source
    exact ⟨sourceSlot, found, attenuates.strip⟩

theorem Kept.of_eq {index : Nat} (live : (after.table.slots index).generation ≠ 0)
    (same : after.table.slots index = before.table.slots index) : Kept before after index :=
  ⟨same ▸ live, Or.inl same⟩

def Accounted (N : Nat) (before after : CapabilityManager) (call : Call) : Prop :=
  ∃ filled, ∀ index, (after.table.slots index).generation ≠ 0 →
    Kept before after index ∨
      index = filled ∧ Filled N before after call (after.table.slots index)

private theorem accounted_of_quiet {call : Call} (quiet : Quiet before after) :
    Accounted N before after call :=
  ⟨0, fun _ live => Or.inl (Kept.of_eq live (by rw [quiet.table]))⟩

private theorem accounted_createRoot {capType : CapType} {rights : CapRights} {badge : Nat}
    {owner : PartitionId} {result : Except CapError (Nat × Nat)} (inv : before.table.Inv N)
    (called : before.createRootCapability N capType rights badge owner = (result, after)) :
    Accounted N before after (.createRootCapability capType rights badge owner) := by
  rcases createRootCapability_cases inv called with ⟨_, _, quiet⟩ | ⟨_, _, _, taken, _, inserted, _⟩
  · exact accounted_of_quiet quiet.toQuiet
  · obtain ⟨filled, _, _, _, _, _, _, _, slots, _⟩ := insertDerived_spec inv inserted
    refine ⟨filled, fun index live => ?_⟩
    by_cases same : index = filled
    · subst same
      refine Or.inr ⟨rfl, ?_⟩
      rw [slots, Function.update_self]
      exact ⟨rfl, taken, fun _ => rfl, fun _ _ derived => by cases derived⟩
    · exact Or.inl (Kept.of_eq live (by rw [slots, Function.update_of_ne same]))

private theorem accounted_grant {call : Call} {sourceIndex sourceGeneration : Nat}
    {requestedRights : CapRights} {badge : Nat} {target : PartitionId}
    {callerId : Option PartitionId} {result : Except CapError (Nat × Nat)}
    (inv : before.table.Inv N) (fromSource : call.source = some (sourceIndex, sourceGeneration))
    (called : before.grantWithCaller N sourceIndex sourceGeneration requestedRights badge target
      callerId = (result, after)) :
    Accounted N before after call := by
  rcases grantWithCaller_cases called with
    ⟨_, _, quiet⟩ | ⟨source, token, depth, consume, handle, table, cleared, inserted, _, taken, linking⟩
  · exact accounted_of_quiet quiet.toQuiet
  · obtain ⟨found, validated⟩ := grantCleared_spec cleared
    obtain ⟨rfl, rfl, within, contained, permitted, -⟩ := validateGrant_spec validated
    obtain ⟨filled, _, _, _, free, _, _, _, slots, _⟩ :=
      insertDerived_spec inv inserted
    -- Rollback and consumption only invalidate or strip slots of the grown table.
    have shrunk : ∀ index, (after.table.slots index).generation ≠ 0 →
        after.table.slots index = table.slots index ∨
          after.table.slots index = stripGrantOnce (table.slots index) := by
      intro index live
      rcases linking with ⟨_, _, _, _, rolledBack, _⟩ | ⟨_, finished, _⟩
      · rw [rolledBack, forceInvalidate_slots] at live ⊢
        split
        · next invalidated => simp [if_pos invalidated] at live
        · exact Or.inl rfl
      · rw [finished]
        split
        · exact consumeGrantOnce_slots index
        · exact Or.inl rfl
    refine ⟨filled, fun index live => ?_⟩
    by_cases same : index = filled
    · subst same
      have filledSlot : Filled N before after call (table.slots index) := by
        rw [slots, Function.update_self]
        refine ⟨rfl, taken, fun noSource => ?_, fun otherIndex otherGeneration derived => ?_⟩
        · rw [noSource] at fromSource
          cases fromSource
        · rw [derived] at fromSource
          cases fromSource
          exact ⟨source, found, contained, rfl, rfl, within, permitted⟩
      refine Or.inr ⟨rfl, ?_⟩
      rcases shrunk index live with same | stripped
      · exact same ▸ filledSlot
      · exact stripped ▸ filledSlot.strip
    · have unchanged : table.slots index = before.table.slots index := by
        rw [slots, Function.update_of_ne same]
      have cases := shrunk index live
      rw [unchanged] at cases
      refine Or.inl ⟨?_, cases⟩
      rcases cases with kept | stripped
      · exact kept ▸ live
      · rw [stripped] at live
        exact live

private theorem accounted_revoke {fuel index generation : Nat} {result : Except CapError Nat}
    (called : before.revoke N fuel index generation = some (result, after)) :
    Accounted N before after (.revoke index generation) := by
  rcases revoke_cases called with ⟨_, _, quiet⟩ | ⟨_, collected, _, _, _, _, _, _, _, invalidated⟩
  · exact accounted_of_quiet quiet.toQuiet
  · refine ⟨0, fun other live => Or.inl (Kept.of_eq live ?_)⟩
    rw [invalidated, foldl_forceInvalidate_slots] at live ⊢
    split
    · next gone => simp [if_pos gone] at live
    · rfl

theorem step_accounted {label : Call × Outcome} (inv : before.table.Inv N)
    (step : Step N before label after) : Accounted N before after label.1 := by
  obtain ⟨call, outcome⟩ := label
  cases step.answers with
  | createRoot called => exact accounted_createRoot inv called
  | grant grants called => exact accounted_grant inv grants.source called
  | incrementEpoch => exact ⟨0, fun _ live => Or.inl (Kept.of_eq live rfl)⟩
  | revoke called => exact accounted_revoke called

theorem Kept.id_eq {index : Nat} (kept : Kept before after index) :
    (after.table.slots index).token.id = (before.table.slots index).token.id := by
  rcases kept.2 with same | stripped
  · rw [same]
  · rw [stripped]
    rfl

end CapabilityManager

def CapabilityTable.Used (table : CapabilityTable) (i : Nat) : Prop := (table.slots i).generation ≠ 0

def CapabilityTable.idAt (table : CapabilityTable) (i : Nat) : Nat := (table.slots i).token.id

/-- Slots are only emptied; those still in use keep their identifiers. -/
def CapabilityTable.Keeps (before after : CapabilityTable) : Prop :=
  ∀ i, after.Used i → before.Used i ∧ after.idAt i = before.idAt i

namespace CapabilityTable

variable {N : Nat} {table : CapabilityTable}

theorem keeps_foldl_forceInvalidate (indices : List Nat) :
    table.Keeps (indices.foldl (forceInvalidate N) table) := by
  intro i used
  rw [Used, foldl_forceInvalidate_slots] at used
  rw [idAt, foldl_forceInvalidate_slots]
  split at used
  · exact absurd (CapSlot.invalidate_generation _) used
  · rename_i untouched
    rw [if_neg untouched]
    exact ⟨used, rfl⟩

end CapabilityTable

namespace CapabilityManager

variable {N : Nat} {manager before after : CapabilityManager}

/-- The identifiers in use were handed out, each to one slot. -/
structure Named (N : Nat) (manager : CapabilityManager) : Prop where
  table : manager.table.Inv N
  assigned : ∀ i, manager.table.Used i → manager.table.idAt i < manager.nextId
  single : ∀ i j, manager.table.Used i → manager.table.Used j →
    manager.table.idAt i = manager.table.idAt j → i = j

/-- The identifier was handed out and is in no slot in use. -/
structure Spent (manager : CapabilityManager) (id : Nat) : Prop where
  assigned : id < manager.nextId
  absent : ∀ i, manager.table.Used i → manager.table.idAt i ≠ id

/-- Slots in use keep their identifiers, but for one that takes the next. -/
def Carries (before after : CapabilityManager) : Prop :=
  before.nextId ≤ after.nextId ∧ ∃ fresh, ∀ i, after.table.Used i →
    (before.table.Used i ∧ after.table.idAt i = before.table.idAt i) ∨
      (i = fresh ∧ after.table.idAt i = before.nextId ∧ before.nextId < after.nextId)

theorem named_new (N : Nat) (config : CapManagerConfig) : Named N (.new config) where
  table := new_inv N
  assigned := fun _ used => absurd rfl used
  single := fun _ _ used => absurd rfl used

theorem carries_of_step {label : Call × Outcome} (inv : before.table.Inv N)
    (step : Step N before label after) : Carries before after := by
  obtain ⟨fresh, accounted⟩ := step_accounted inv step
  refine ⟨(step_frame inv step).2.1, fresh, fun i used => ?_⟩
  rcases accounted i used with kept | ⟨same, filled⟩
  · exact .inl ⟨kept.1, kept.id_eq⟩
  · exact .inr ⟨same, filled.id, by rw [filled.taken]; exact Nat.lt_succ_self _⟩

theorem Named.carries (named : Named N before) (inv : after.table.Inv N)
    (carries : Carries before after) : Named N after := by
  obtain ⟨assigned, fresh, carried⟩ := carries
  refine ⟨inv, fun i used => ?_, fun i j usedI usedJ sameId => ?_⟩
  · rcases carried i used with ⟨usedBefore, same⟩ | ⟨_, same, taken⟩
    · rw [same]
      exact Nat.lt_of_lt_of_le (named.assigned i usedBefore) assigned
    · rw [same]
      exact taken
  · rcases carried i usedI with ⟨beforeI, sameI⟩ | ⟨freshI, sameI, _⟩
    · rcases carried j usedJ with ⟨beforeJ, sameJ⟩ | ⟨_, sameJ, _⟩
      · exact named.single i j beforeI beforeJ (sameI.symm.trans (sameId.trans sameJ))
      · have older := named.assigned i beforeI
        omega
    · rcases carried j usedJ with ⟨beforeJ, sameJ⟩ | ⟨freshJ, _, _⟩
      · have older := named.assigned j beforeJ
        omega
      · exact freshI.trans freshJ.symm

theorem Spent.carries {id : Nat} (spent : Spent before id) (carries : Carries before after) :
    Spent after id := by
  obtain ⟨assigned, fresh, carried⟩ := carries
  refine ⟨Nat.lt_of_lt_of_le spent.assigned assigned, fun i used => ?_⟩
  rcases carried i used with ⟨usedBefore, same⟩ | ⟨_, same, _⟩
  · rw [same]
    exact spent.absent i usedBefore
  · rw [same]
    exact (Nat.ne_of_lt spent.assigned).symm

theorem Named.step {label : Call × Outcome} (named : Named N before)
    (step : Step N before label after) : Named N after :=
  named.carries (step_frame named.table step).1 (carries_of_step named.table step)

theorem Named.spent_of_revoke {index generation count : Nat} {slot : CapSlot}
    (named : Named N before)
    (found : before.table.lookup N index generation = .ok slot)
    (step : Step N before (.revoke index generation, .ok (.revoked count)) after) :
    Spent after slot.token.id := by
  obtain ⟨fuel, returned⟩ := step
  obtain ⟨⟨result, manager⟩, revoked, same⟩ := Option.map_eq_some_iff.mp returned
  obtain ⟨_, slotEq, used, _⟩ := lookup_eq_ok.mp found
  have usedHere : before.table.Used index := by
    rw [CapabilityTable.Used, slotEq]
    exact used
  have idHere : before.table.idAt index = slot.token.id := congrArg (fun s => s.token.id) slotEq
  rcases revoke_cases revoked with
    ⟨e, failed, _⟩ | ⟨_, collected, _, _, _, taken, _, collects, revokes, invalidated⟩
  · rw [failed] at same
    cases same
  · obtain rfl := (Prod.mk.inj same).2
    obtain ⟨below, valid⟩ := valid_of_revoke revokes
    have listed : index ∈ padded N collected :=
      List.mem_append_left _ (mem_collectSubtree below valid collects)
    refine ⟨?_, fun i stillUsed sameId => ?_⟩
    · rw [taken, ← idHere]
      exact named.assigned index usedHere
    · rw [invalidated] at stillUsed sameId
      obtain ⟨usedBefore, kept⟩ := keeps_foldl_forceInvalidate _ i stillUsed
      obtain rfl := named.single i index usedBefore usedHere
        (kept.symm.trans (sameId.trans idHere.symm))
      rw [CapabilityTable.Used, foldl_forceInvalidate_slots,
        if_pos ⟨listed, below, usedHere⟩] at stillUsed
      exact stillUsed (CapSlot.invalidate_generation _)

end CapabilityManager

end Rvm.Cap
