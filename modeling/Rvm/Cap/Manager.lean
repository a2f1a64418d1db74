import Rvm.Cap.Verify

/-!
Owns the capability manager of `rvm-cap/src/manager.rs` with the grant rules of
`grant.rs` and the revocation of `revoke.rs`, and its calls as a labelled step
relation. Calls return their result and the manager they leave, since a failed
call can already have changed the manager (`next_id`, for one).
-/

namespace Rvm.Cap

open Foundation CapabilityTable DerivationTree

/-! ### Granting -/

structure GrantPolicy where
  maxDepth : Nat
  allowGrantOnce : Bool
deriving DecidableEq, Repr

/-- Monotonic attenuation. Returns the derived token, its depth and whether
`GRANT_ONCE` is consumed. The badge is carried by the slot, not the token. -/
def validateGrant (source : CapSlot) (requestedRights : CapRights) (newId epoch : Nat)
    (policy : GrantPolicy) : Except CapError (CapToken × Nat × Bool) :=
  let sourceRights := source.token.rights
  let hasGrant := sourceRights.contains .grant
  let hasGrantOnce := policy.allowGrantOnce && sourceRights.contains .grantOnce
  if !hasGrant && !hasGrantOnce then .error .grantNotPermitted
  else if !sourceRights.contains requestedRights then .error .rightsEscalation
  -- `u8::checked_add(1)`
  else if source.depth + 1 > 255 then .error .delegationDepthExceeded
  else if source.depth + 1 > policy.maxDepth then .error .delegationDepthExceeded
  else .ok (⟨newId, source.token.capType, requestedRights, epoch⟩, source.depth + 1,
    !hasGrant && hasGrantOnce)

theorem validateGrant_spec {source : CapSlot} {requestedRights : CapRights} {newId epoch : Nat}
    {policy : GrantPolicy} {token : CapToken} {depth : Nat} {consume : Bool}
    (validated : validateGrant source requestedRights newId epoch policy =
      .ok (token, depth, consume)) :
    token = ⟨newId, source.token.capType, requestedRights, epoch⟩ ∧
      depth = source.depth + 1 ∧ depth ≤ policy.maxDepth ∧
      source.token.rights.contains requestedRights = true ∧
      (source.token.rights.contains .grant = true ∨
        source.token.rights.contains .grantOnce = true) ∧
      (consume = true ↔ source.token.rights.contains .grant = false) := by
  simp only [validateGrant] at validated
  split at validated
  · cases validated
  · next permitted =>
      split at validated
      · cases validated
      · next attenuated =>
          split at validated
          · cases validated
          · split at validated
            · cases validated
            · next within =>
                cases validated
                refine ⟨rfl, rfl, by omega, by simpa using attenuated, ?_, ?_⟩
                · cases held : source.token.rights.contains .grant <;> simp_all
                · cases held : source.token.rights.contains .grant <;> simp_all

/-! ### The manager -/

structure CapManagerConfig where
  maxDelegationDepth : Nat
  trackDerivation : Bool
  initialEpoch : Nat
deriving DecidableEq, Repr

/-- `DEFAULT_MAX_DELEGATION_DEPTH` and the defaults of `CapManagerConfig::new`. -/
def CapManagerConfig.new : CapManagerConfig := ⟨8, true, 0⟩

structure ManagerStats where
  capsCreated : Nat
  capsGranted : Nat
  capsRevoked : Nat
  revokeOperations : Nat
  maxDepthReached : Nat
deriving DecidableEq, Repr

structure CapabilityManager where
  table : CapabilityTable
  derivation : DerivationTree
  verifier : ProofVerifier
  config : CapManagerConfig
  grantPolicy : GrantPolicy
  epoch : Nat
  nextId : Nat
  stats : ManagerStats

def wrappingAdd64 (left right : Nat) : Nat := (left + right) % 18446744073709551616

namespace CapabilityManager

def new (config : CapManagerConfig) : CapabilityManager where
  table := .new
  derivation := .new
  verifier := .new config.initialEpoch
  config := config
  grantPolicy := ⟨config.maxDelegationDepth, true⟩
  epoch := config.initialEpoch
  nextId := 1
  stats := ⟨0, 0, 0, 0, 0⟩

def incrementEpoch (manager : CapabilityManager) : CapabilityManager :=
  let epoch := (manager.epoch + 1) % 4294967296
  { manager with epoch := epoch, verifier := manager.verifier.setEpoch epoch }

/-- The manager after an identifier is taken. -/
def bumpId (manager : CapabilityManager) : CapabilityManager :=
  { manager with nextId := manager.nextId + 1 }

/-- `next_id.checked_add(1)`; the identifier taken is the old value. -/
def takeId (manager : CapabilityManager) : Except CapError (Nat × CapabilityManager) :=
  if manager.nextId + 1 > u64Max then .error .tableFull
  else .ok (manager.nextId, manager.bumpId)

def withTable (manager : CapabilityManager) (table : CapabilityTable) : CapabilityManager :=
  { manager with table := table }

def withDerivation (manager : CapabilityManager) (tree : DerivationTree) : CapabilityManager :=
  { manager with derivation := tree }

def countCreated (manager : CapabilityManager) : CapabilityManager :=
  { manager with
    stats := { manager.stats with capsCreated := wrappingAdd64 manager.stats.capsCreated 1 } }

def registerRoot (N : Nat) (manager : CapabilityManager) (handle : Nat × Nat) :
    Except CapError (Nat × Nat) × CapabilityManager :=
  if manager.config.trackDerivation then
    match manager.derivation.addRoot N handle.1 manager.epoch with
    | .error e => (.error e, manager)
    | .ok tree => (.ok handle, (manager.withDerivation tree).countCreated)
  else (.ok handle, manager.countCreated)

def createRootCapability (N : Nat) (manager : CapabilityManager) (capType : CapType)
    (rights : CapRights) (badge : Nat) (owner : PartitionId) :
    Except CapError (Nat × Nat) × CapabilityManager :=
  match manager.takeId with
  | .error e => (.error e, manager)
  | .ok (id, taken) =>
    match manager.table.insertRoot N ⟨id, capType, rights, manager.epoch⟩ owner badge with
    | .error e => (.error e, taken)
    | .ok (handle, table) => registerRoot N (taken.withTable table) handle

def createRootCapabilityChecked (N : Nat) (manager : CapabilityManager) (capType : CapType)
    (rights : CapRights) (badge : Nat) (owner callerId : PartitionId) :
    Except CapError (Nat × Nat) × CapabilityManager :=
  if !callerId.isHypervisor then (.error .grantNotPermitted, manager)
  else manager.createRootCapability N capType rights badge owner

def stripGrantOnce (slot : CapSlot) : CapSlot :=
  { slot with
    token := { slot.token with rights := slot.token.rights.difference .grantOnce } }

/-- Strip `GRANT_ONCE` from the source, if its handle still resolves. -/
def consumeGrantOnce (N : Nat) (table : CapabilityTable) (index generation : Nat) :
    CapabilityTable :=
  match table.lookup N index generation with
  | .error _ => table
  | .ok slot => { table with slots := Function.update table.slots index (stripGrantOnce slot) }

def finishGrant (N : Nat) (manager : CapabilityManager) (sourceIndex sourceGeneration depth : Nat)
    (consume : Bool) : CapabilityManager :=
  { manager with
    table :=
      if consume then consumeGrantOnce N manager.table sourceIndex sourceGeneration
      else manager.table
    stats :=
      { manager.stats with
        capsGranted := wrappingAdd64 manager.stats.capsGranted 1
        maxDepthReached := max depth manager.stats.maxDepthReached } }

/-- Link the child inserted under `handle`; when that fails, roll back the
table insertion. -/
def linkChild (N : Nat) (manager : CapabilityManager) (sourceIndex sourceGeneration : Nat)
    (handle : Nat × Nat) (depth : Nat) (consume : Bool) :
    Except CapError (Nat × Nat) × CapabilityManager :=
  if manager.config.trackDerivation then
    match manager.derivation.addChild N sourceIndex handle.1 depth manager.epoch with
    | .error e => (.error e, manager.withTable (manager.table.forceInvalidate N handle.1))
    | .ok tree =>
      (.ok handle,
        (manager.withDerivation tree).finishGrant N sourceIndex sourceGeneration depth consume)
  else (.ok handle, manager.finishGrant N sourceIndex sourceGeneration depth consume)

def grantWithCaller (N : Nat) (manager : CapabilityManager) (sourceIndex sourceGeneration : Nat)
    (requestedRights : CapRights) (badge : Nat) (targetOwner : PartitionId)
    (callerId : Option PartitionId) : Except CapError (Nat × Nat) × CapabilityManager :=
  match manager.table.lookup N sourceIndex sourceGeneration with
  | .error e => (.error e, manager)
  | .ok source =>
    if callerId.any (fun caller => source.owner ≠ caller) then (.error .grantNotPermitted, manager)
    else
      match manager.takeId with
      | .error e => (.error e, manager)
      | .ok (id, taken) =>
        match validateGrant source requestedRights id manager.epoch manager.grantPolicy with
        | .error e => (.error e, taken)
        | .ok (token, depth, consume) =>
          match manager.table.insertDerived N token targetOwner depth sourceIndex badge with
          | .error e => (.error e, taken)
          | .ok (handle, table) =>
            linkChild N (taken.withTable table) sourceIndex sourceGeneration handle depth consume

/-- `revoke_capability`: collect the subtree, revoke it in the tree, then
invalidate every collected slot. `none` when a walk runs out of fuel. -/
def revokeCapability (N fuel : Nat) (table : CapabilityTable) (tree : DerivationTree)
    (index generation : Nat) :
    Option (Except CapError Nat × CapabilityTable × DerivationTree) :=
  match table.lookup N index generation with
  | .error e => some (.error e, table, tree)
  | .ok _ =>
    match tree.collectSubtree N fuel index with
    | none => none
    | some revokedIndices =>
      match tree.revoke N fuel index with
      | none => none
      | some (.error _) => some (.error .revoked, table, tree)
      | some (.ok (revoked, tree)) =>
        some (.ok revoked,
          (padded N revokedIndices).foldl (forceInvalidate N) table,
          tree)

def revoke (N fuel : Nat) (manager : CapabilityManager) (index generation : Nat) :
    Option (Except CapError Nat × CapabilityManager) :=
  match revokeCapability N fuel manager.table manager.derivation index generation with
  | none => none
  | some (.error e, table, tree) => some (.error e, { manager with table := table, derivation := tree })
  | some (.ok revoked, table, tree) =>
    some (.ok revoked,
      { manager with
        table := table
        derivation := tree
        stats :=
          { manager.stats with
            capsRevoked := wrappingAdd64 manager.stats.capsRevoked revoked
            revokeOperations := wrappingAdd64 manager.stats.revokeOperations 1 } })

end CapabilityManager

/-! ### Calls -/

inductive Call where
  | createRootCapability (capType : CapType) (rights : CapRights) (badge : Nat)
      (owner : PartitionId)
  | grant (sourceIndex sourceGeneration : Nat) (requestedRights : CapRights) (badge : Nat)
      (targetOwner : PartitionId)
  | grantChecked (sourceIndex sourceGeneration : Nat) (requestedRights : CapRights) (badge : Nat)
      (targetOwner callerId : PartitionId)
  | incrementEpoch
  | revoke (index generation : Nat)
deriving DecidableEq, Repr

/-- The handle a grant derives from. -/
def Call.source : Call → Option (Nat × Nat)
  | .grant index generation _ _ _ => some (index, generation)
  | .grantChecked index generation _ _ _ _ => some (index, generation)
  | _ => none

/-- What a successful call returns. -/
inductive Reply where
  | handle (index generation : Nat)
  | revoked (count : Nat)
  | done
deriving DecidableEq, Repr

abbrev Outcome := Except CapError Reply

namespace CapabilityManager

def withHandle (result : Except CapError (Nat × Nat) × CapabilityManager) :
    Outcome × CapabilityManager :=
  (result.1.map fun handle => .handle handle.1 handle.2, result.2)

def apply (N fuel : Nat) (manager : CapabilityManager) : Call → Option (Outcome × CapabilityManager)
  | .createRootCapability capType rights badge owner =>
    some (withHandle (manager.createRootCapability N capType rights badge owner))
  | .grant index generation rights badge target =>
    some (withHandle (manager.grantWithCaller N index generation rights badge target none))
  | .grantChecked index generation rights badge target caller =>
    some (withHandle (manager.grantWithCaller N index generation rights badge target (some caller)))
  | .incrementEpoch => some (.ok .done, manager.incrementEpoch)
  | .revoke index generation =>
    (manager.revoke N fuel index generation).map fun result => (result.1.map .revoked, result.2)

def Step (N : Nat) (manager : CapabilityManager) (label : Call × Outcome)
    (next : CapabilityManager) : Prop :=
  ∃ fuel, manager.apply N fuel label.1 = some (label.2, next)

/-! ### What a call can do -/

/-- The calls that grant; only a checked one names its caller. -/
inductive Grants (index generation : Nat) (rights : CapRights) (badge : Nat)
    (target : PartitionId) : Call → Option PartitionId → Prop
  | unchecked : Grants index generation rights badge target
      (.grant index generation rights badge target) none
  | checked {caller : PartitionId} : Grants index generation rights badge target
      (.grantChecked index generation rights badge target caller) (some caller)

/-- What a call that returned ran. -/
inductive Answers (N : Nat) (before : CapabilityManager) :
    Call → Outcome → CapabilityManager → Prop
  | createRoot {capType rights badge owner result after}
      (called : before.createRootCapability N capType rights badge owner = (result, after)) :
      Answers N before (.createRootCapability capType rights badge owner)
        (withHandle (result, after)).1 after
  | grant {call index generation rights badge target callerId result after}
      (grants : Grants index generation rights badge target call callerId)
      (called : before.grantWithCaller N index generation rights badge target callerId =
        (result, after)) :
      Answers N before call (withHandle (result, after)).1 after
  | incrementEpoch : Answers N before .incrementEpoch (.ok .done) before.incrementEpoch
  | revoke {fuel index generation result after}
      (called : before.revoke N fuel index generation = some (result, after)) :
      Answers N before (.revoke index generation) (result.map .revoked) after

theorem Step.answers {before after : CapabilityManager} {call : Call} {outcome : Outcome}
    {N : Nat} (step : Step N before (call, outcome) after) : Answers N before call outcome after := by
  obtain ⟨fuel, returned⟩ := step
  cases call with
  | createRootCapability =>
    cases returned
    exact .createRoot rfl
  | grant =>
    cases returned
    exact .grant .unchecked rfl
  | grantChecked =>
    cases returned
    exact .grant .checked rfl
  | incrementEpoch =>
    cases returned
    exact .incrementEpoch
  | revoke =>
    obtain ⟨⟨result, manager⟩, called, same⟩ := Option.map_eq_some_iff.mp returned
    cases same
    exact .revoke called

theorem consumeGrantOnce_slots {N : Nat} {table : CapabilityTable} {index generation : Nat}
    (other : Nat) :
    (consumeGrantOnce N table index generation).slots other = table.slots other ∨
      (consumeGrantOnce N table index generation).slots other =
        stripGrantOnce (table.slots other) := by
  unfold consumeGrantOnce
  split
  · exact Or.inl rfl
  · next slot found =>
      obtain ⟨-, rfl, -⟩ := lookup_eq_ok.mp found
      by_cases same : other = index
      · subst same
        exact Or.inr (Function.update_self ..)
      · exact Or.inl (Function.update_of_ne same ..)

variable {N index generation badge sourceIndex sourceGeneration fuel : Nat}
  {table : CapabilityTable} {before after manager : CapabilityManager}
  {result : Except CapError (Nat × Nat)} {requestedRights : CapRights}
  {callerId : Option PartitionId}

theorem Grants.source {call : Call} {target : PartitionId}
    (grants : Grants index generation requestedRights badge target call callerId) :
    call.source = some (index, generation) := by
  cases grants <;> rfl

theorem consumeGrantOnce_source (live : table.Live N index generation) :
    (consumeGrantOnce N table index generation).slots index =
      stripGrantOnce (table.slots index) := by
  unfold consumeGrantOnce
  rw [live_iff_lookup.mp live]
  exact Function.update_self ..

theorem consumeGrantOnce_inv (inv : table.Inv N) :
    (consumeGrantOnce N table index generation).Inv N := by
  constructor
  · unfold consumeGrantOnce
    split
    · exact inv.hint
    · exact inv.hint
  · intro other free
    rcases @consumeGrantOnce_slots N table index generation other with same | stripped
    · rw [same] at free ⊢
      exact inv.stashed other free
    · rw [stripped] at free ⊢
      exact inv.stashed other free

/-- The fields that only `increment_epoch` and construction write. -/
structure SameRules (before after : CapabilityManager) : Prop where
  config : after.config = before.config
  grantPolicy : after.grantPolicy = before.grantPolicy
  epoch : after.epoch = before.epoch

structure Ruled (before after : CapabilityManager) : Prop extends SameRules before after where
  verifier : after.verifier = before.verifier

/-- A failed call that left table and tree alone. -/
structure Quiet (before after : CapabilityManager) : Prop extends SameRules before after where
  table : after.table = before.table
  derivation : after.derivation = before.derivation
  nextId : before.nextId ≤ after.nextId

theorem takeId_spec {id : Nat} (taken : before.takeId = .ok (id, after)) :
    id = before.nextId ∧ after = before.bumpId := by
  unfold takeId at taken
  split at taken
  · cases taken
  · cases taken
    exact ⟨rfl, rfl⟩

/-- A failed call that took at most an identifier. -/
structure Untouched (before after : CapabilityManager) : Prop extends Quiet before after where
  verifier : after.verifier = before.verifier
  stats : after.stats = before.stats

theorem Untouched.ruled (untouched : Untouched before after) : Ruled before after :=
  ⟨untouched.toSameRules, untouched.verifier⟩

theorem Untouched.eq (untouched : Untouched before after) :
    after = { before with nextId := after.nextId } := by
  obtain ⟨⟨⟨config, grantPolicy, epoch⟩, table, derivation, _⟩, verifier, stats⟩ := untouched
  rw [← config, ← grantPolicy, ← epoch, ← table, ← derivation, ← verifier, ← stats]

theorem untouched_refl (manager : CapabilityManager) : Untouched manager manager :=
  ⟨⟨⟨rfl, rfl, rfl⟩, rfl, rfl, Nat.le_refl _⟩, rfl, rfl⟩

theorem untouched_bumpId (manager : CapabilityManager) : Untouched manager manager.bumpId :=
  ⟨⟨⟨rfl, rfl, rfl⟩, rfl, rfl, Nat.le_succ _⟩, rfl, rfl⟩

/-- A root creation fails quietly, or inserts a root with a fresh identifier
and registers it. -/
theorem createRootCapability_cases {capType : CapType} {rights : CapRights} {owner : PartitionId}
    (inv : before.table.Inv N)
    (called : before.createRootCapability N capType rights badge owner = (result, after)) :
    (∃ e, result = .error e ∧ Untouched before after) ∨
      ∃ handle, result = .ok handle ∧ Ruled before after ∧
        after.nextId = before.nextId + 1 ∧ before.takeId = .ok (before.nextId, before.bumpId) ∧
        before.table.insertRoot N ⟨before.nextId, capType, rights, before.epoch⟩ owner badge =
          .ok (handle, after.table) ∧
        if before.config.trackDerivation then
          before.derivation.addRoot N handle.1 before.epoch = .ok after.derivation
        else after.derivation = before.derivation := by
  unfold createRootCapability at called
  split at called
  · next e _ =>
      cases called
      exact Or.inl ⟨e, rfl, untouched_refl _⟩
  · next id middle taken =>
      obtain ⟨rfl, rfl⟩ := takeId_spec taken
      split at called
      · next e _ =>
          cases called
          exact Or.inl ⟨e, rfl, untouched_bumpId _⟩
      · next handle table inserted =>
          refine Or.inr ⟨handle, ?_⟩
          unfold registerRoot at called
          split at called
          · next tracked =>
              have tracked : before.config.trackDerivation = true := tracked
              split at called
              · next e failed =>
                  -- The handle's index is below `N`, so registration cannot fail.
                  obtain ⟨slot, _, _, below, _, index, _⟩ :=
                    insertDerived_spec inv inserted
                  have small : handle.1 < N :=
                    index ▸ Nat.lt_of_le_of_lt (Nat.mod_le _ _) below
                  simp [addRoot, Nat.not_le.mpr small] at failed
              · next tree added =>
                  cases called
                  refine ⟨rfl, ⟨⟨rfl, rfl, rfl⟩, rfl⟩, rfl, taken, inserted, ?_⟩
                  rw [if_pos tracked]
                  exact added
          · next untracked =>
              have untracked : ¬ before.config.trackDerivation = true := untracked
              cases called
              refine ⟨rfl, ⟨⟨rfl, rfl, rfl⟩, rfl⟩, rfl, taken, inserted, ?_⟩
              rw [if_neg untracked]
              rfl

/-- The tests a grant passes before it inserts: the source resolves, the caller
owns it, an identifier is left and the request is valid. -/
def grantCleared (N : Nat) (manager : CapabilityManager) (sourceIndex sourceGeneration : Nat)
    (requestedRights : CapRights) (callerId : Option PartitionId) :
    Except CapError (CapSlot × CapToken × Nat × Bool) :=
  match manager.table.lookup N sourceIndex sourceGeneration with
  | .error e => .error e
  | .ok source =>
    if callerId.any (fun caller => source.owner ≠ caller) then .error .grantNotPermitted
    else
      match manager.takeId with
      | .error e => .error e
      | .ok (id, _) =>
        match validateGrant source requestedRights id manager.epoch manager.grantPolicy with
        | .error e => .error e
        | .ok (token, depth, consume) => .ok (source, token, depth, consume)

theorem grantCleared_spec {source : CapSlot} {token : CapToken} {depth : Nat} {consume : Bool}
    (cleared : manager.grantCleared N sourceIndex sourceGeneration requestedRights callerId =
      .ok (source, token, depth, consume)) :
    manager.table.lookup N sourceIndex sourceGeneration = .ok source ∧
      validateGrant source requestedRights manager.nextId manager.epoch manager.grantPolicy =
        .ok (token, depth, consume) := by
  unfold grantCleared at cleared
  split at cleared
  · cases cleared
  · next found =>
      split at cleared
      · cases cleared
      · split at cleared
        · cases cleared
        · next taken =>
            obtain ⟨rfl, -⟩ := takeId_spec taken
            split at cleared
            · cases cleared
            · next validated =>
                cases cleared
                exact ⟨found, validated⟩

def Linking (N : Nat) (before after : CapabilityManager) (table : CapabilityTable)
    (sourceIndex sourceGeneration : Nat) (handle : Nat × Nat) (depth : Nat) (consume : Bool)
    (result : Except CapError (Nat × Nat)) : Prop :=
  (∃ e, result = .error e ∧ before.config.trackDerivation = true ∧
      before.derivation.addChild N sourceIndex handle.1 depth before.epoch = .error e ∧
      after.table = table.forceInvalidate N handle.1 ∧ after.derivation = before.derivation) ∨
    (result = .ok handle ∧
      after.table =
        (if consume then consumeGrantOnce N table sourceIndex sourceGeneration else table) ∧
      if before.config.trackDerivation then
        before.derivation.addChild N sourceIndex handle.1 depth before.epoch = .ok after.derivation
      else after.derivation = before.derivation)

theorem linkChild_cases {handle : Nat × Nat} {depth : Nat} {consume : Bool}
    (called : linkChild N (before.bumpId.withTable table) sourceIndex sourceGeneration handle depth
      consume = (result, after)) :
    Ruled before after ∧ after.nextId = before.nextId + 1 ∧
      Linking N before after table sourceIndex sourceGeneration handle depth consume result := by
  unfold linkChild at called
  split at called
  · next tracked =>
      have tracked : before.config.trackDerivation = true := tracked
      split at called
      · next e failed =>
          cases called
          exact ⟨⟨⟨rfl, rfl, rfl⟩, rfl⟩, rfl, Or.inl ⟨e, rfl, tracked, failed, rfl, rfl⟩⟩
      · next tree added =>
          cases called
          refine ⟨⟨⟨rfl, rfl, rfl⟩, rfl⟩, rfl, Or.inr ⟨rfl, rfl, ?_⟩⟩
          rw [if_pos tracked]
          exact added
  · next untracked =>
      have untracked : ¬ before.config.trackDerivation = true := untracked
      cases called
      refine ⟨⟨⟨rfl, rfl, rfl⟩, rfl⟩, rfl, Or.inr ⟨rfl, rfl, ?_⟩⟩
      rw [if_neg untracked]
      rfl

/-- A grant fails quietly, or passes its tests, inserts the derived slot and
links it. -/
theorem grantWithCaller_cases {target : PartitionId}
    (called : before.grantWithCaller N sourceIndex sourceGeneration requestedRights badge target
      callerId = (result, after)) :
    (∃ e, result = .error e ∧ Untouched before after) ∨
      ∃ source token depth consume handle table,
        before.grantCleared N sourceIndex sourceGeneration requestedRights callerId =
          .ok (source, token, depth, consume) ∧
        before.table.insertDerived N token target depth sourceIndex badge = .ok (handle, table) ∧
        Ruled before after ∧ after.nextId = before.nextId + 1 ∧
        Linking N before after table sourceIndex sourceGeneration handle depth consume result := by
  unfold grantWithCaller at called
  split at called
  · next e _ =>
      cases called
      exact Or.inl ⟨e, rfl, untouched_refl _⟩
  · next source found =>
      split at called
      · cases called
        exact Or.inl ⟨_, rfl, untouched_refl _⟩
      · next owned =>
          split at called
          · next e _ =>
              cases called
              exact Or.inl ⟨e, rfl, untouched_refl _⟩
          · next id middle taken =>
              obtain ⟨rfl, rfl⟩ := takeId_spec taken
              split at called
              · next e _ =>
                  cases called
                  exact Or.inl ⟨e, rfl, untouched_bumpId _⟩
              · next token depth consume validated =>
                  split at called
                  · next e _ =>
                      cases called
                      exact Or.inl ⟨e, rfl, untouched_bumpId _⟩
                  · next handle table inserted =>
                      refine Or.inr ⟨source, token, depth, consume, handle, table, ?_, inserted,
                        linkChild_cases called⟩
                      simp only [grantCleared, found, if_neg owned, taken, validated]

theorem revoke_mono {more : Nat} {result : Except CapError Nat × CapabilityManager}
    (returned : manager.revoke N fuel index generation = some result) (le : fuel ≤ more) :
    manager.revoke N more index generation = some result := by
  unfold revoke revokeCapability at returned ⊢
  cases found : manager.table.lookup N index generation with
  | error e => simpa only [found] using returned
  | ok slot =>
    simp only [found] at returned ⊢
    cases collects : manager.derivation.collectSubtree N fuel index with
    | none => simp [collects] at returned
    | some collected =>
      simp only [collects] at returned
      simp only [collectSubtree_mono collects le]
      cases revokes : manager.derivation.revoke N fuel index with
      | none => simp [revokes] at returned
      | some outcome =>
        simp only [revokes] at returned
        simp only [DerivationTree.revoke_mono revokes le]
        exact returned

theorem apply_mono {more : Nat} {call : Call} {result : Outcome × CapabilityManager}
    (returned : manager.apply N fuel call = some result) (le : fuel ≤ more) :
    manager.apply N more call = some result := by
  cases call with
  | revoke index generation =>
    obtain ⟨pair, revoked, rfl⟩ := Option.map_eq_some_iff.mp returned
    exact Option.map_eq_some_iff.mpr ⟨pair, revoke_mono revoked le, rfl⟩
  | _ => exact returned

theorem apply_unique {N : Nat} {before left right : CapabilityManager} {call : Call}
    {leftOutcome rightOutcome : Outcome} (first : Step N before (call, leftOutcome) left)
    (second : Step N before (call, rightOutcome) right) :
    leftOutcome = rightOutcome ∧ left = right := by
  obtain ⟨fuel, leftReturned⟩ := first
  obtain ⟨more, rightReturned⟩ := second
  have leftMore := apply_mono leftReturned (Nat.le_max_left fuel more)
  have rightMore := apply_mono rightReturned (Nat.le_max_right fuel more)
  have same := leftMore.symm.trans rightMore
  cases same
  exact ⟨rfl, rfl⟩

theorem step_functional (here : CapabilityManager) (label : Call × Outcome)
    (left right : CapabilityManager) (first : Step N here label left)
    (second : Step N here label right) : left = right :=
  (apply_unique first second).2

theorem revoke_cases {result : Except CapError Nat}
    (called : before.revoke N fuel index generation = some (result, after)) :
    (∃ e, result = .error e ∧ Untouched before after) ∨
      ∃ slot collected revoked, result = .ok revoked ∧ Ruled before after ∧
        after.nextId = before.nextId ∧
        before.table.lookup N index generation = .ok slot ∧
        before.derivation.collectSubtree N fuel index = some collected ∧
        before.derivation.revoke N fuel index = some (.ok (revoked, after.derivation)) ∧
        after.table = (padded N collected).foldl
          (forceInvalidate N) before.table := by
  unfold revoke revokeCapability at called
  cases found : before.table.lookup N index generation with
  | error e =>
    simp only [found] at called
    cases called
    exact Or.inl ⟨e, rfl, untouched_refl _⟩
  | ok slot =>
    simp only [found] at called
    cases collects : before.derivation.collectSubtree N fuel index with
    | none => simp [collects] at called
    | some collected =>
      simp only [collects] at called
      cases revokes : before.derivation.revoke N fuel index with
      | none => simp [revokes] at called
      | some outcome =>
        simp only [revokes] at called
        rcases outcome with e | ⟨revoked, tree⟩
        · cases called
          exact Or.inl ⟨_, rfl, untouched_refl _⟩
        · cases called
          exact Or.inr ⟨slot, collected, revoked, rfl, ⟨⟨rfl, rfl, rfl⟩, rfl⟩, rfl, rfl, rfl, rfl, rfl⟩

section Ruling

variable {N : Nat} {before after : CapabilityManager}

theorem ruled_grant {sourceIndex sourceGeneration : Nat} {requestedRights : CapRights}
    {badge : Nat} {target : PartitionId} {callerId : Option PartitionId}
    (called : before.grantWithCaller N sourceIndex sourceGeneration requestedRights badge target
      callerId = (result, after)) : Ruled before after := by
  rcases grantWithCaller_cases called with ⟨_, _, quiet⟩ | ⟨_, _, _, _, _, _, _, _, rules, _⟩
  · exact quiet.ruled
  · exact rules

theorem ruled_createRoot {capType : CapType} {rights : CapRights} {badge : Nat}
    {owner : PartitionId} (inv : before.table.Inv N)
    (called : before.createRootCapability N capType rights badge owner = (result, after)) :
    Ruled before after := by
  rcases createRootCapability_cases inv called with ⟨_, _, quiet⟩ | ⟨_, _, rules, _⟩
  · exact quiet.ruled
  · exact rules

theorem ruled_revoke {fuel index generation : Nat} {result : Except CapError Nat}
    (called : before.revoke N fuel index generation = some (result, after)) :
    Ruled before after := by
  rcases revoke_cases called with ⟨_, _, quiet⟩ | ⟨_, _, _, _, rules, _⟩
  · exact quiet.ruled
  · exact rules

end Ruling

private theorem grant_frame {target : PartitionId} (inv : before.table.Inv N)
    (called : before.grantWithCaller N sourceIndex sourceGeneration requestedRights badge target
      callerId = (result, after)) :
    after.table.Inv N ∧ before.nextId ≤ after.nextId ∧ after.grantPolicy = before.grantPolicy ∧
      after.config = before.config := by
  rcases grantWithCaller_cases called with
    ⟨_, _, quiet⟩ | ⟨_, _, _, _, _, _, _, inserted, rules, taken, linking⟩
  · exact ⟨quiet.table ▸ inv, quiet.nextId, quiet.grantPolicy, quiet.config⟩
  · have grown := insertDerived_inv inv inserted
    refine ⟨?_, by omega, rules.grantPolicy, rules.config⟩
    rcases linking with ⟨_, _, _, _, rolledBack, _⟩ | ⟨_, finished, _⟩
    · exact rolledBack ▸ forceInvalidate_inv grown _
    · rw [finished]
      split
      · exact consumeGrantOnce_inv grown
      · exact grown

/-- Every call keeps the table's invariant and the grant rules, and gives no
identifier back. -/
theorem step_frame {label : Call × Outcome} (inv : before.table.Inv N)
    (step : Step N before label after) :
    after.table.Inv N ∧ before.nextId ≤ after.nextId ∧ after.grantPolicy = before.grantPolicy ∧
      after.config = before.config := by
  obtain ⟨call, outcome⟩ := label
  cases step.answers with
  | createRoot called =>
    rcases createRootCapability_cases inv called with ⟨_, _, quiet⟩ | ⟨_, _, rules, taken, _, inserted, _⟩
    · exact ⟨quiet.table ▸ inv, quiet.nextId, quiet.grantPolicy, quiet.config⟩
    · exact ⟨insertDerived_inv inv inserted,
        (Nat.le_succ _).trans_eq taken.symm, rules.grantPolicy, rules.config⟩
  | grant _ called => exact grant_frame inv called
  | incrementEpoch => exact ⟨inv, Nat.le_refl _, rfl, rfl⟩
  | revoke called =>
    rcases revoke_cases called with ⟨_, _, quiet⟩ | ⟨_, _, _, _, rules, taken, _, _, _, invalidated⟩
    · exact ⟨quiet.table ▸ inv, quiet.nextId, quiet.grantPolicy, quiet.config⟩
    · exact ⟨invalidated ▸ foldl_forceInvalidate_inv inv _,
        Nat.le_of_eq taken.symm, rules.grantPolicy, rules.config⟩

end CapabilityManager

end Rvm.Cap
