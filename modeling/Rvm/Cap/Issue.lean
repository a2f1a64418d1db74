import Rvm.Cap.Tokens

/-!
Owns what the capability manager's calls do to live handles, whatever the derivation tree.
Capacities have indices that fit the handle's `u32`.
-/

namespace Rvm.Cap

open Foundation CapabilityTable DerivationTree Function

namespace CapabilityTable

variable {N : Nat} {table after : CapabilityTable} {i g : Nat} {found : CapSlot}

theorem lookup_inserted {index : Nat} {slot : CapSlot} (below : index < N)
    (free : (table.slots index).generation = 0) (nonzero : slot.generation ≠ 0)
    (slots : after.slots = update table.slots index slot) :
    after.lookup N i g = .ok found ↔
      table.lookup N i g = .ok found ∨ (i = index ∧ g = slot.generation ∧ found = slot) := by
  rw [lookup_eq_ok, lookup_eq_ok, slots]
  by_cases here : i = index
  · subst here
    rw [update_self]
    constructor
    · rintro ⟨_, rfl, _, rfl⟩
      exact .inr ⟨rfl, rfl, rfl⟩
    · rintro (⟨_, rfl, used, _⟩ | ⟨_, rfl, rfl⟩)
      · exact absurd free used
      · exact ⟨below, rfl, nonzero, rfl⟩
  · rw [update_of_ne here]
    simp [here]

theorem lookup_invalidated (indices : List Nat) :
    (indices.foldl (forceInvalidate N) table).lookup N i g = .ok found ↔
      table.lookup N i g = .ok found ∧ i ∉ indices := by
  rw [lookup_eq_ok, lookup_eq_ok, foldl_forceInvalidate_slots]
  by_cases named : i ∈ indices
  · simp only [named, true_and, not_true_eq_false, and_false, iff_false]
    split
    · rintro ⟨_, rfl, used, _⟩
      exact used (CapSlot.invalidate_generation _)
    · rename_i dead
      rintro ⟨below, rfl, used, _⟩
      exact dead ⟨below, used⟩
  · simp [named]

theorem lookup_forceInvalidate (index : Nat) :
    (table.forceInvalidate N index).lookup N i g = .ok found ↔
      table.lookup N i g = .ok found ∧ i ≠ index := by
  have invalidated := @lookup_invalidated N table i g found [index]
  simpa using invalidated

end CapabilityTable

namespace CapabilityManager

variable {N : Nat} {before middle after : CapabilityManager}

/-- The same handles are live, with the same slots, and verify alike. -/
structure SameLive (N : Nat) (before after : CapabilityManager) : Prop where
  lookup : ∀ i g slot,
    after.table.lookup N i g = .ok slot ↔ before.table.lookup N i g = .ok slot
  verifier : after.verifier = before.verifier
  epoch : after.epoch = before.epoch
  config : after.config = before.config
  nextId : before.nextId ≤ after.nextId

/-- One handle was added, with the next identifier and a node without children. -/
structure Issued (N : Nat) (before after : CapabilityManager) (handle : Nat × Nat)
    (slot : CapSlot) : Prop where
  absent : (before.table.slots handle.1).generation = 0
  lookup : ∀ i g found, after.table.lookup N i g = .ok found ↔
    before.table.lookup N i g = .ok found ∨ ((i, g) = handle ∧ found = slot)
  id : slot.token.id = before.nextId
  tokenEpoch : slot.token.epoch = before.epoch
  verifier : after.verifier = before.verifier
  epoch : after.epoch = before.epoch
  config : after.config = before.config
  nextId : before.nextId < after.nextId
  node : before.config.trackDerivation = true →
    (after.derivation.nodes handle.1).isValid = true ∧
      (after.derivation.nodes handle.1).firstChild = u32Max
  unlinked : before.config.trackDerivation = false → after.derivation = before.derivation

theorem Untouched.sameLive (quiet : Untouched before after) : SameLive N before after where
  lookup := fun _ _ _ => by rw [quiet.table]
  verifier := quiet.verifier
  epoch := quiet.epoch
  config := quiet.config
  nextId := quiet.nextId

variable {slot : CapSlot} {badge fuel index generation i g : Nat} {result : Except CapError Nat}

theorem Issued.found {handle : Nat × Nat} (issued : Issued N before after handle slot) :
    after.table.lookup N handle.1 handle.2 = .ok slot :=
  (issued.lookup _ _ _).mpr (.inr ⟨rfl, rfl⟩)

theorem sameLive_refl (manager : CapabilityManager) : SameLive N manager manager :=
  (untouched_refl manager).sameLive

theorem issued_of_insertion (below : index < N)
    (free : (before.table.slots index).generation = 0) (nonzero : slot.generation ≠ 0)
    (slots : after.table.slots = update before.table.slots index slot)
    (id : slot.token.id = before.nextId) (tokenEpoch : slot.token.epoch = before.epoch)
    (rules : Ruled before after) (taken : after.nextId = before.nextId + 1)
    (node : before.config.trackDerivation = true →
      (after.derivation.nodes index).isValid = true ∧
        (after.derivation.nodes index).firstChild = u32Max)
    (unlinked : before.config.trackDerivation = false → after.derivation = before.derivation) :
    Issued N before after (index, slot.generation) slot where
  absent := free
  lookup i g found := by
    rw [lookup_inserted below free nonzero slots, Prod.mk.injEq, and_assoc]
  id := id
  tokenEpoch := tokenEpoch
  verifier := rules.verifier
  epoch := rules.epoch
  config := rules.config
  nextId := taken ▸ Nat.lt_succ_self _
  node := node
  unlinked := unlinked

theorem issued_or_same_createRoot (capacity : N ≤ u32Max) (inv : before.table.Inv N)
    {capType : CapType} {rights : CapRights} {owner : PartitionId}
    {result : Except CapError (Nat × Nat)}
    (called : before.createRootCapability N capType rights badge owner = (result, after)) :
    (∃ e, result = .error e ∧ SameLive N before after) ∨
      ∃ handle slot, result = .ok handle ∧ Issued N before after handle slot ∧
        slot.token.rights = rights := by
  rcases createRootCapability_cases inv called with
    ⟨e, rfl, quiet⟩ | ⟨handle, rfl, rules, taken, _, inserted, registered⟩
  · exact .inl ⟨e, rfl, quiet.sameLive⟩
  · obtain ⟨index, _, _, below, free, handleEq, generationEq, nonzero, slots, _⟩ :=
      insertDerived_spec inv inserted
    rw [asU32_of_lt (Nat.lt_of_lt_of_le below capacity)] at handleEq
    obtain ⟨handleIndex, generation⟩ := handle
    obtain rfl := handleEq
    refine .inr ⟨_, _, rfl, issued_of_insertion below free nonzero slots rfl rfl rules taken
      ?_ ?_, rfl⟩
    · intro tracked
      rw [if_pos tracked] at registered
      rw [(addRoot_spec registered).2, update_self]
      exact ⟨rfl, rfl⟩
    · intro untracked
      rwa [untracked, if_neg Bool.false_ne_true] at registered

theorem issued_or_same_grant (capacity : N ≤ u32Max) (inv : before.table.Inv N)
    {sourceIndex sourceGeneration : Nat} {requestedRights : CapRights} {target : PartitionId}
    {callerId : Option PartitionId} {source : CapSlot} {result : Except CapError (Nat × Nat)}
    (foundSource : before.table.lookup N sourceIndex sourceGeneration = .ok source)
    (holds : source.token.rights.contains .grant = true)
    (called : before.grantWithCaller N sourceIndex sourceGeneration requestedRights badge target
      callerId = (result, after)) :
    (∃ e, result = .error e ∧ SameLive N before after) ∨
      ∃ handle slot, result = .ok handle ∧ Issued N before after handle slot ∧
        source.token.rights.contains slot.token.rights = true := by
  rcases grantWithCaller_cases called with ⟨e, rfl, quiet⟩ |
    ⟨granted, token, depth, consume, handle, table, cleared, inserted, rules, taken, linking⟩
  · exact .inl ⟨e, rfl, quiet.sameLive⟩
  · obtain ⟨foundGranted, validated⟩ := grantCleared_spec cleared
    obtain rfl := Except.ok.inj (foundSource.symm.trans foundGranted)
    obtain ⟨rfl, rfl, _, contained, _, consumes⟩ := validateGrant_spec validated
    have keeps : consume = false := by
      cases consume with
      | false => rfl
      | true =>
        rw [consumes.mp rfl] at holds
        cases holds
    obtain ⟨index, _, _, below, free, handleEq, generationEq, nonzero, slots, _⟩ :=
      insertDerived_spec inv inserted
    rw [asU32_of_lt (Nat.lt_of_lt_of_le below capacity)] at handleEq
    obtain ⟨handleIndex, generation⟩ := handle
    obtain rfl := handleEq
    have grown := fun i g found => @CapabilityTable.lookup_inserted N before.table table i g found
      _ _ below free nonzero slots
    rcases linking with ⟨e, rfl, _, _, rolledBack, _⟩ | ⟨rfl, finished, registered⟩
    · refine .inl ⟨e, rfl, ⟨fun i g slot => ?_, rules.verifier, rules.epoch, rules.config, by omega⟩⟩
      rw [rolledBack, lookup_forceInvalidate, grown]
      constructor
      · rintro ⟨old | ⟨same, _⟩, other⟩
        · exact old
        · exact absurd same other
      · intro old
        refine ⟨.inl old, ?_⟩
        rintro rfl
        obtain ⟨_, rfl, used, _⟩ := lookup_eq_ok.mp old
        exact used free
    · rw [keeps, if_neg Bool.false_ne_true] at finished
      refine .inr ⟨_, _, rfl, issued_of_insertion below free nonzero (finished ▸ slots) rfl rfl
        rules taken ?_ ?_, contained⟩
      · intro tracked
        rw [if_pos tracked] at registered
        rw [(addChild_spec registered).2.2.2, update_self]
        exact ⟨rfl, rfl⟩
      · intro untracked
        rwa [untracked, if_neg Bool.false_ne_true] at registered

theorem collectSubtree_leaf {tree : DerivationTree} {collected : List Nat} (below : index < N)
    (valid : (tree.nodes index).isValid = true) (childless : (tree.nodes index).firstChild = u32Max)
    (collects : tree.collectSubtree N fuel index = some collected) : collected = [index] := by
  obtain ⟨fuel, stack, pushed, later⟩ := collectSubtree_first below valid collects
  cases fuel with
  | zero => cases later
  | succ fuel =>
    rw [childless, pushChildren, if_pos rfl] at pushed
    cases pushed
    cases later
    rfl

theorem step_of_revoke (called : before.revoke N fuel index generation = some (result, after)) :
    Step N before (.revoke index generation, result.map .revoked) after := by
  refine ⟨fuel, ?_⟩
  rw [apply, called, Option.map_some]

theorem lookup_of_revoke {count : Nat}
    (called : before.revoke N fuel index generation = some (.ok count, after))
    (found : after.table.lookup N i g = .ok slot) : before.table.lookup N i g = .ok slot := by
  rcases revoke_cases called with ⟨_, failed, _⟩ | ⟨_, _, _, _, _, _, _, _, _, invalidated⟩
  · cases failed
  · rw [invalidated, lookup_invalidated] at found
    exact found.1

theorem Issued.rolledBack {handle : Nat × Nat} {slot : CapSlot} {fuel : Nat}
    {result : Except CapError Nat} (issued : Issued N before middle handle slot)
    (capacity : N ≤ u32Max) (tracked : before.config.trackDerivation = true)
    (called : middle.revoke N fuel handle.1 handle.2 = some (result, after)) :
    SameLive N before after := by
  obtain ⟨below, _⟩ := lookup_eq_ok.mp issued.found
  obtain ⟨valid, childless⟩ := issued.node tracked
  rcases revoke_cases called with
    ⟨e, rfl, _⟩ | ⟨_, collected, _, _, rules, taken, _, collects, _, invalidated⟩
  · -- The node is valid, so the walk cannot be refused.
    unfold revoke revokeCapability at called
    simp only [issued.found] at called
    cases collects : middle.derivation.collectSubtree N fuel handle.1 with
    | none => simp [collects] at called
    | some collected =>
      have walk : middle.derivation.revoke N fuel handle.1 =
          (middle.derivation.revokeSubtree N fuel handle.1).map .ok := by
        rw [DerivationTree.revoke, if_neg (Nat.not_le.mpr below), if_neg (by simp [valid])]
      simp only [collects, walk] at called
      cases marks : middle.derivation.revokeSubtree N fuel handle.1 with
      | none => simp [marks] at called
      | some marked => simp [marks] at called
  · obtain rfl := collectSubtree_leaf below valid childless collects
    refine ⟨fun i g found => ?_, rules.verifier.trans issued.verifier, rules.epoch.trans issued.epoch,
      rules.config.trans issued.config, ?_⟩
    · rw [invalidated, lookup_invalidated, issued.lookup]
      constructor
      · rintro ⟨old | ⟨same, _⟩, unnamed⟩
        · exact old
        · obtain rfl := same
          exact absurd (List.mem_append_left _ (List.mem_singleton_self _)) unnamed
      · intro old
        obtain ⟨inside, rfl, used, _⟩ := lookup_eq_ok.mp old
        refine ⟨.inl old, fun named => ?_⟩
        rcases List.mem_append.mp named with issuedIndex | padding
        · rw [List.mem_singleton.mp issuedIndex] at used
          exact used issued.absent
        · have isNull := (List.mem_replicate.mp padding).2
          omega
    · rw [taken]
      exact issued.nextId.le

def Unlinked (manager : CapabilityManager) : Prop :=
  manager.config.trackDerivation = false → ∀ index, (manager.derivation.nodes index).isValid = false

theorem Unlinked.congr (unlinked : Unlinked before) (config : after.config = before.config)
    (derivation : before.config.trackDerivation = false → after.derivation = before.derivation) :
    Unlinked after := by
  intro untracked
  rw [config] at untracked
  rw [derivation untracked]
  exact unlinked untracked

theorem Unlinked.revoke_quiet (unlinked : Unlinked before)
    (untracked : before.config.trackDerivation = false)
    (called : before.revoke N fuel index generation = some (result, after)) :
    (∃ e, result = .error e) ∧ Untouched before after := by
  rcases revoke_cases called with ⟨e, rfl, quiet⟩ | ⟨_, _, _, _, _, _, _, _, marks, _⟩
  · exact ⟨⟨e, rfl⟩, quiet⟩
  · unfold DerivationTree.revoke at marks
    split at marks
    · cases marks
    · rw [if_pos (by simp [unlinked untracked index])] at marks
      cases marks

theorem Issued.stays {handle : Nat × Nat} (issued : Issued N before middle handle slot)
    (unlinked : Unlinked before) (untracked : before.config.trackDerivation = false)
    (called : middle.revoke N fuel handle.1 handle.2 = some (result, after)) :
    Issued N before after handle slot := by
  have middleUntracked : middle.config.trackDerivation = false := issued.config ▸ untracked
  have quiet := ((unlinked.congr issued.config issued.unlinked).revoke_quiet middleUntracked called).2
  exact
    { absent := issued.absent
      lookup := by rw [quiet.table]; exact issued.lookup
      id := issued.id
      tokenEpoch := issued.tokenEpoch
      verifier := quiet.verifier.trans issued.verifier
      epoch := quiet.epoch.trans issued.epoch
      config := quiet.config.trans issued.config
      nextId := Nat.lt_of_lt_of_le issued.nextId quiet.nextId
      node := fun tracked => by rw [untracked] at tracked; cases tracked
      unlinked := fun same => quiet.derivation.trans (issued.unlinked same) }

theorem Named.lookup_single {manager : CapabilityManager} (named : Named N manager) {j h : Nat}
    {first second : CapSlot} (left : manager.table.lookup N i g = .ok first)
    (right : manager.table.lookup N j h = .ok second) (same : first.token.id = second.token.id) :
    i = j ∧ g = h ∧ first = second := by
  obtain ⟨_, rfl, usedLeft, rfl⟩ := lookup_eq_ok.mp left
  obtain ⟨_, rfl, usedRight, rfl⟩ := lookup_eq_ok.mp right
  obtain rfl := named.single i j usedLeft usedRight same
  exact ⟨rfl, rfl, rfl⟩

theorem Named.lookup_assigned {manager : CapabilityManager} (named : Named N manager)
    (found : manager.table.lookup N i g = .ok slot) : slot.token.id < manager.nextId := by
  obtain ⟨_, rfl, used, _⟩ := lookup_eq_ok.mp found
  exact named.assigned i used

structure Current (manager : CapabilityManager) : Prop where
  verifier : manager.verifier.currentEpoch = manager.epoch
  bounded : manager.epoch < 4294967296

theorem Current.congr (current : Current before) (rules : Ruled before after) : Current after where
  verifier := by rw [rules.verifier, rules.epoch]; exact current.verifier
  bounded := rules.epoch ▸ current.bounded

theorem Current.step {label : Call × Outcome} (inv : before.table.Inv N) (current : Current before)
    (step : Step N before label after) : Current after := by
  obtain ⟨call, outcome⟩ := label
  cases step.answers with
  | createRoot called => exact current.congr (ruled_createRoot inv called)
  | grant _ called => exact current.congr (ruled_grant called)
  | incrementEpoch => exact ⟨rfl, Nat.mod_lt _ (by decide)⟩
  | revoke called => exact current.congr (ruled_revoke called)

theorem Unlinked.step {label : Call × Outcome} (inv : before.table.Inv N)
    (unlinked : Unlinked before) (step : Step N before label after) : Unlinked after := by
  obtain ⟨call, outcome⟩ := label
  cases step.answers with
  | createRoot called =>
    rcases createRootCapability_cases inv called with
      ⟨_, _, quiet⟩ | ⟨_, _, rules, _, _, _, registered⟩
    · exact unlinked.congr quiet.config fun _ => quiet.derivation
    · apply unlinked.congr rules.config
      intro untracked
      rwa [untracked, if_neg Bool.false_ne_true] at registered
  | grant _ called =>
    rcases grantWithCaller_cases called with
      ⟨_, _, quiet⟩ | ⟨_, _, _, _, _, _, _, _, rules, _, linking⟩
    · exact unlinked.congr quiet.config fun _ => quiet.derivation
    · apply unlinked.congr rules.config
      intro untracked
      rcases linking with ⟨_, _, _, _, _, same⟩ | ⟨_, _, registered⟩
      · exact same
      · rwa [untracked, if_neg Bool.false_ne_true] at registered
  | incrementEpoch => exact unlinked.congr rfl fun _ => rfl
  | revoke called =>
    exact unlinked.congr (ruled_revoke called).config fun untracked =>
      (unlinked.revoke_quiet untracked called).2.derivation

/-- The invariant of a manager that its authority builds on. -/
structure Consistent (N : Nat) (manager : CapabilityManager) : Prop where
  named : Named N manager
  current : Current manager
  unlinked : Unlinked manager

theorem Consistent.step {label : Call × Outcome} (consistent : Consistent N before)
    (step : Step N before label after) : Consistent N after where
  named := consistent.named.step step
  current := consistent.current.step consistent.named.table step
  unlinked := consistent.unlinked.step consistent.named.table step

theorem consistent_run {config : CapManagerConfig} {history : List (Call × Outcome)}
    {final : CapabilityManager} (bounded : config.initialEpoch < 4294967296)
    (run : Run (Step N) (.new config) history final) :
    Consistent N final ∧ final.config = config := by
  induction run with
  | nil => exact ⟨⟨named_new N config, ⟨rfl, bounded⟩, fun _ _ => rfl⟩, rfl⟩
  | snoc _ step ih =>
    obtain ⟨consistent, same⟩ := ih
    exact ⟨consistent.step step, (step_frame consistent.named.table step).2.2.2.trans same⟩

end CapabilityManager

end Rvm.Cap
