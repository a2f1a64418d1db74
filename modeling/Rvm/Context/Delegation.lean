import Rvm.Context.AuthorityEffects

/-!
Owns bindings and delegation over runs of the context authority: a token is bound
to one scope until the epochs wrap, and what a delegated capability can do its
ancestors could.
-/

namespace Rvm.Context

open Cap Foundation Foundation.Call CapabilityManager AuthorityEvent List

/-! ### Scopes -/

theorem ContextViewMask.contains_iff {mask other : ContextViewMask} :
    mask.contains other = true ↔
      ∀ index, other.bits.getLsbD index = true → mask.bits.getLsbD index = true :=
  @CapRights.contains_iff ⟨mask.bits⟩ ⟨other.bits⟩

namespace ContextScope

variable {scope child grandchild : ContextScope} {target : RuvUri} {operation : ContextOperation}

theorem containsScope_iff : scope.containsScope child = true ↔
    scope.authority = child.authority ∧ scope.tenant = child.tenant ∧
      scope.subject = child.subject ∧ scope.collection = child.collection ∧
      scope.pathPrefix <+: child.pathPrefix ∧ scope.views.contains child.views = true := by
  simp [containsScope, pathHasPrefix_iff, and_assoc]

theorem allows_iff : scope.allows target operation = true ↔
    scope.authority = target.authority ∧ scope.tenant = target.tenant ∧
      scope.subject = target.subject ∧ scope.collection = target.collection ∧
      scope.pathPrefix <+: target.path ∧
      scope.views.bits &&& operation.requiredViewBit target.view =
        operation.requiredViewBit target.view := by
  unfold allows
  by_cases named : scope.authority = target.authority ∧ scope.tenant = target.tenant ∧
      scope.subject = target.subject ∧ scope.collection = target.collection ∧
      pathHasPrefix target.path scope.pathPrefix = true
  · obtain ⟨authority, tenant, subject, collection, leads⟩ := named
    simp [authority, tenant, subject, collection, leads, pathHasPrefix_iff.mp leads]
  · rw [if_pos (by simp only [ne_eq, Bool.not_eq_true']; grind)]
    simp only [Bool.false_eq_true, false_iff]
    intro all
    exact named ⟨all.1, all.2.1, all.2.2.1, all.2.2.2.1, pathHasPrefix_iff.mpr all.2.2.2.2.1⟩

theorem containsScope_trans (outer : scope.containsScope child = true)
    (inner : child.containsScope grandchild = true) : scope.containsScope grandchild = true := by
  rw [containsScope_iff] at *
  obtain ⟨authority, tenant, subject, collection, leads, views⟩ := outer
  obtain ⟨authority', tenant', subject', collection', leads', views'⟩ := inner
  refine ⟨authority.trans authority', tenant.trans tenant', subject.trans subject',
    collection.trans collection', leads.trans leads', ?_⟩
  rw [ContextViewMask.contains_iff] at *
  exact fun index set => views index (views' index set)

theorem allows_of_containsScope (contains : scope.containsScope child = true)
    (allowed : child.allows target operation = true) : scope.allows target operation = true := by
  rw [containsScope_iff] at contains
  rw [allows_iff] at *
  obtain ⟨authority, tenant, subject, collection, leads, views⟩ := contains
  obtain ⟨authority', tenant', subject', collection', leads', bit⟩ := allowed
  refine ⟨authority.trans authority', tenant.trans tenant', subject.trans subject',
    collection.trans collection', leads.trans leads', ?_⟩
  -- The child's views are among the scope's, and the bit is among the child's.
  have within : scope.views.bits &&& child.views.bits = child.views.bits := by
    simpa [ContextViewMask.contains] using views
  rw [← bit, ← BitVec.and_assoc, within]

end ContextScope

/-! ### Events -/

namespace AuthorityEvent

def rotates (event : AuthorityEvent) : Bool :=
  match event.call, event.outcome with
  | .incrementEpoch, .ok _ => true
  | _, _ => false

theorem rotates_refused (call : AuthorityCall) (reason : ContextError) :
    rotates ⟨call, .error reason⟩ = false := by
  cases call <;> rfl

def Returns (event : AuthorityEvent) (handle : CapabilityHandle) : Prop :=
  event.outcome = .ok (.handle handle)

end AuthorityEvent

/-- How often the epoch was rotated. -/
def rotations (history : List AuthorityEvent) : Nat := history.countP rotates

theorem rotations_snoc (history : List AuthorityEvent) (event : AuthorityEvent) :
    rotations (history ++ [event]) = rotations history + if event.rotates then 1 else 0 := by
  rw [rotations, countP_append, countP_singleton, rotations]

namespace ContextAuthority

open ContextGrantTable

variable {N G : Nat} {sha256 : List UInt8 → Octets 32}
  {start here middle next final : ContextAuthority} {event : AuthorityEvent}
  {history before after : List AuthorityEvent} {count id : Nat} {scope : ContextScope}
  {handle : CapabilityHandle} {slot : CapSlot}

def Resolves (N : Nat) (here : ContextAuthority) (handle : CapabilityHandle) (slot : CapSlot) :
    Prop :=
  here.manager.table.lookup N handle.index handle.generation = .ok slot

theorem pair_inj {left right : CapabilityHandle}
    (same : (left.index, left.generation) = (right.index, right.generation)) : left = right := by
  cases left
  cases right
  cases same
  rfl

/-- A handle that resolves after a call resolved before, to the same slot, or the
call returned it, or it stayed live unbound where derivations are not tracked. -/
theorem Effect.resolves_back (effect : Effect N sha256 here event next)
    (resolves : next.Resolves N handle slot) :
    here.Resolves N handle slot ∨ event.Returns handle ∨
      here.manager.config.trackDerivation = false := by
  cases effect with
  | refused same => exact .inl ((same.lookup _ _ _).mp resolves)
  | leaked untracked => exact .inr (.inr untracked)
  | @rootIssued _ _ _ _ fresh _ _ _ issued | @delegated _ _ _ _ _ fresh _ _ _ _ _ _ _ _ _ issued =>
    rcases (issued.lookup _ _ _).mp resolves with old | ⟨same, _⟩
    · exact .inl old
    · exact .inr (.inl (congrArg (Except.ok ∘ AuthorityReply.handle) (pair_inj same).symm))
  | bound _ _ manager =>
    left
    rw [Resolves, ← manager]
    exact resolves
  | revoked called => exact .inl (lookup_of_revoke called resolves)
  | rotated => exact .inl resolves

theorem Effect.resolves_kept (effect : Effect N sha256 here event next)
    (unlinked : Unlinked here.manager) (untracked : here.manager.config.trackDerivation = false)
    (resolves : here.Resolves N handle slot) : next.Resolves N handle slot := by
  cases effect with
  | refused same => exact (same.lookup _ _ _).mpr resolves
  | leaked _ issued | rootIssued _ issued | delegated _ _ _ _ _ issued =>
    exact (issued.lookup _ _ _).mpr (.inl resolves)
  | bound _ _ manager =>
    rw [Resolves, manager]
    exact resolves
  | revoked called =>
    obtain ⟨_, impossible⟩ := (unlinked.revoke_quiet untracked called).1
    cases impossible
  | rotated => exact resolves

theorem Backed.consistent {call : Option Cap.Call} {before after : CapabilityManager}
    (backed : Backed N call before after) (consistent : Consistent N before) :
    Consistent N after := by
  cases backed with
  | untouched => exact consistent
  | failed _ step => exact consistent.step step
  | rolledBack _ _ step rollback => exact (consistent.step step).step rollback

theorem Effect.manager (effect : Effect N sha256 here event next)
    (consistent : Consistent N here.manager) :
    Consistent N next.manager ∧ next.manager.config = here.manager.config ∧
      here.manager.nextId ≤ next.manager.nextId := by
  cases effect with
  | refused same _ backed => exact ⟨backed.consistent consistent, same.config, same.nextId⟩
  | leaked _ issued _ _ backed =>
    exact ⟨backed.consistent consistent, issued.config, issued.nextId.le⟩
  | rootIssued step issued | delegated step _ _ _ _ issued =>
    exact ⟨consistent.step step, issued.config, issued.nextId.le⟩
  | bound _ _ manager =>
    rw [manager]
    exact ⟨consistent, rfl, Nat.le_refl _⟩
  | revoked called =>
    have step := step_of_revoke called
    have frame := step_frame consistent.named.table step
    exact ⟨consistent.step step, frame.2.2.2, frame.2.1⟩
  | rotated =>
    have step : CapabilityManager.Step N here.manager (.incrementEpoch, .ok .done)
        here.manager.incrementEpoch := ⟨0, rfl⟩
    exact ⟨consistent.step step, rfl, Nat.le_refl _⟩

theorem Effect.epoch (effect : Effect N sha256 here event next) (still : event.rotates = false) :
    next.manager.verifier = here.manager.verifier ∧ next.manager.epoch = here.manager.epoch := by
  cases effect with
  | refused same => exact ⟨same.verifier, same.epoch⟩
  | leaked _ issued | rootIssued _ issued => exact ⟨issued.verifier, issued.epoch⟩
  | bound _ _ manager =>
    rw [manager]
    exact ⟨rfl, rfl⟩
  | delegated _ _ _ _ _ issued => exact ⟨issued.verifier, issued.epoch⟩
  | revoked called => exact ⟨(ruled_revoke called).verifier, (ruled_revoke called).epoch⟩
  | rotated => cases still

/-! ### Bindings -/

/-- The invariant of a run in which the epoch was rotated `count` times: bound
tokens are live and of the current epoch. -/
structure Governed (N : Nat) (start : ContextAuthority) (count : Nat) (here : ContextAuthority) :
    Prop where
  consistent : Consistent N here.manager
  config : here.manager.config = start.manager.config
  epoch : here.manager.epoch = (start.manager.epoch + count) % 4294967296
  bound : ∀ id grant, here.grants.get id = some grant →
    ∃ handle slot, here.Resolves N handle slot ∧ slot.token.id = id ∧
      slot.token.epoch = here.manager.epoch

theorem Governed.binds {fresh : CapSlot} (governed : Governed N start count here)
    (found : next.Resolves N handle fresh) (epoch : fresh.token.epoch = here.manager.epoch)
    (kept : ∀ handle slot, here.Resolves N handle slot → next.Resolves N handle slot)
    (binds : ContextGrantTable.Binds here.grants next.grants fresh.token.id scope) :
    ∀ id grant, next.grants.get id = some grant →
      ∃ handle slot, next.Resolves N handle slot ∧ slot.token.id = id ∧
        slot.token.epoch = here.manager.epoch := by
  intro id grant held
  rw [binds id] at held
  split at held
  · rename_i same
    exact ⟨handle, fresh, found, same.symm, epoch⟩
  · obtain ⟨older, slot, resolves, same, current⟩ := governed.bound id grant held
    exact ⟨older, slot, kept older slot resolves, same, current⟩

theorem Governed.step (governed : Governed N start count here)
    (effect : Effect N sha256 here event next) :
    Governed N start (count + if event.rotates then 1 else 0) next := by
  obtain ⟨consistent, same, _⟩ := effect.manager governed.consistent
  have config := same.trans governed.config
  have verified := governed.consistent.current.verifier
  cases turning : event.rotates with
  | true =>
    cases effect with
    | rotated =>
      refine ⟨consistent, config, ?_, fun _ _ held => by cases held⟩
      show (here.manager.epoch + 1) % 4294967296 = _
      rw [governed.epoch, if_pos rfl, Nat.mod_add_mod, Nat.add_assoc]
    | refused | leaked =>
      rw [rotates_refused] at turning
      cases turning
    | _ => cases turning
  | false =>
    obtain ⟨verifier, epoch⟩ := effect.epoch turning
    refine ⟨consistent, config, epoch.trans governed.epoch, ?_⟩
    rw [epoch]
    cases effect with
    | refused same grants =>
      intro id grant held
      rw [grants] at held
      obtain ⟨handle, slot, resolves, found⟩ := governed.bound id grant held
      exact ⟨handle, slot, (same.lookup _ _ _).mpr resolves, found⟩
    | leaked _ issued grants =>
      intro id grant held
      rw [grants] at held
      obtain ⟨handle, slot, resolves, found⟩ := governed.bound id grant held
      exact ⟨handle, slot, (issued.lookup _ _ _).mpr (.inl resolves), found⟩
    | rootIssued _ issued binds | delegated _ _ _ _ _ issued binds =>
      exact governed.binds issued.found issued.tokenEpoch
        (fun _ _ old => (issued.lookup _ _ _).mpr (.inl old)) binds
    | bound found current manager binds =>
      have resolves : ∀ handle slot, here.Resolves N handle slot →
          next.Resolves N handle slot := by
        intro handle slot old
        rw [Resolves, manager]
        exact old
      exact governed.binds (resolves _ _ found) (current.trans verified) resolves binds
    | revoked called grants =>
      intro id grant held
      rw [grants, get_retainLive] at held
      split at held
      · rename_i live
        obtain ⟨i, g, slot, resolves, same⟩ := isLive_iff.mp live
        have older := lookup_of_revoke called resolves
        obtain ⟨handle, bound, found, sameId, current⟩ := governed.bound id grant held
        obtain ⟨_, _, rfl⟩ :=
          governed.consistent.named.lookup_single older found (same.trans sameId.symm)
        exact ⟨⟨i, g⟩, slot, resolves, same, current⟩
      · cases held
    | rotated => cases turning

/-- An issued token is bound to the scope, or unbound for the rest of an epoch
cycle: where it is still live, it is of an epoch that was rotated away. -/
structure Settled (N : Nat) (start : ContextAuthority) (count : Nat) (here : ContextAuthority)
    (id : Nat) (scope : ContextScope) : Prop where
  assigned : id < here.manager.nextId
  binding : here.grants.get id = some ⟨id, scope⟩ ∨
    here.grants.get id = none ∧ ∀ handle slot, here.Resolves N handle slot → slot.token.id = id →
      ∃ earlier < count, slot.token.epoch = (start.manager.epoch + earlier) % 4294967296

variable {grant : ContextGrant}

theorem Settled.unique (settled : Settled N start count here id scope)
    (held : here.grants.get id = some grant) : grant.scope = scope := by
  rcases settled.binding with bound | ⟨unbound, _⟩
  · rw [← Option.some.inj (bound.symm.trans held)]
  · cases unbound.symm.trans held

theorem Governed.settled (governed : Governed N start count here)
    (held : here.grants.get id = some grant) : Settled N start count here id grant.scope := by
  obtain ⟨_, _, resolves, rfl, _⟩ := governed.bound id grant held
  refine ⟨governed.consistent.named.lookup_assigned resolves, .inl ?_⟩
  rw [held]
  congr 1
  rw [← tokenId_of_get held]

theorem Settled.issued {fresh : CapSlot} {pair : Nat × Nat}
    (settled : Settled N start count here id scope)
    (issued : Issued N here.manager next.manager pair fresh)
    (kept : id ≠ fresh.token.id → next.grants.get id = here.grants.get id) :
    Settled N start count next id scope := by
  have older : id ≠ fresh.token.id := by
    rw [issued.id]
    exact Nat.ne_of_lt settled.assigned
  refine ⟨settled.assigned.trans issued.nextId, ?_⟩
  rw [kept older]
  refine settled.binding.imp_right fun ⟨unbound, past⟩ => ⟨unbound, ?_⟩
  intro handle slot resolves same
  rcases (issued.lookup _ _ _).mp resolves with old | ⟨_, rfl⟩
  · exact past handle slot old same
  · exact absurd same.symm older

theorem Settled.step (governed : Governed N start count here) (cycle : count < 4294967296)
    (settled : Settled N start count here id scope) (effect : Effect N sha256 here event next) :
    Settled N start (count + if event.rotates then 1 else 0) next id scope := by
  have grows := (effect.manager governed.consistent).2.2
  cases effect with
  | refused same grants =>
    rw [rotates_refused]
    refine ⟨Nat.lt_of_lt_of_le settled.assigned same.nextId, ?_⟩
    rw [grants]
    refine settled.binding.imp_right fun ⟨unbound, past⟩ => ⟨unbound, ?_⟩
    exact fun handle slot resolves => past handle slot ((same.lookup _ _ _).mp resolves)
  | leaked _ issued grants =>
    rw [rotates_refused]
    exact settled.issued issued fun _ => by rw [grants]
  | rootIssued _ issued binds | delegated _ _ _ _ _ issued binds =>
    exact settled.issued issued fun other => (binds id).trans (if_neg other)
  | @bound _ other slot _ found current manager binds once =>
    have resolves_iff : ∀ handle slot,
        next.Resolves N handle slot ↔ here.Resolves N handle slot := by
      intro handle slot
      unfold Resolves
      rw [manager]
    refine ⟨Nat.lt_of_lt_of_le settled.assigned grows, ?_⟩
    simp only [resolves_iff]
    rw [binds id]
    by_cases same : id = slot.token.id
    · rw [if_pos same]
      subst same
      rcases settled.binding with bound | ⟨_, past⟩
      · rw [show scope = other from once _ bound]
        exact .inl rfl
      · -- A token of an epoch rotated away is not verified before the epochs wrap.
        obtain ⟨earlier, before, epoch⟩ := past _ slot found rfl
        have now : slot.token.epoch = (start.manager.epoch + count) % 4294967296 :=
          (current.trans governed.consistent.current.verifier).trans governed.epoch
        omega
    · rw [if_neg same]
      exact settled.binding
  | revoked called grants =>
    refine ⟨Nat.lt_of_lt_of_le settled.assigned grows, ?_⟩
    rw [grants, get_retainLive]
    split
    · refine settled.binding.imp_right fun ⟨unbound, past⟩ => ⟨unbound, ?_⟩
      exact fun handle slot resolves => past handle slot (lookup_of_revoke called resolves)
    · rename_i dead
      refine .inr ⟨rfl, fun handle slot resolves same => ?_⟩
      exact absurd (isLive_iff.mpr ⟨_, _, _, resolves, same⟩) dead
  | rotated =>
    refine ⟨settled.assigned, .inr ⟨rfl, fun handle slot resolves same => ?_⟩⟩
    have resolvesHere : here.Resolves N handle slot := resolves
    rcases settled.binding with bound | ⟨_, past⟩
    · obtain ⟨_, _, found, sameId, epoch⟩ := governed.bound id _ bound
      obtain ⟨_, _, rfl⟩ :=
        governed.consistent.named.lookup_single resolvesHere found (same.trans sameId.symm)
      exact ⟨count, Nat.lt_succ_self _, epoch.trans governed.epoch⟩
    · obtain ⟨earlier, before, epoch⟩ := past handle slot resolvesHere same
      exact ⟨earlier, Nat.lt_succ_of_lt before, epoch⟩

/-! ### Runs -/

theorem governed_new {manager : CapabilityManager} (consistent : Consistent N manager) :
    Governed N (.new manager) 0 (.new manager) where
  consistent := consistent
  config := rfl
  epoch := (Nat.mod_eq_of_lt consistent.current.bounded).symm
  bound := fun _ _ held => by cases held

theorem rotations_append (before after : List AuthorityEvent) :
    rotations (before ++ after) = rotations before + rotations after :=
  countP_append

theorem governed_run (capacity : N ≤ u32Max) (governed : Governed N start count here)
    (run : Run (Step N G sha256) here history final) :
    Governed N start (count + rotations history) final := by
  induction run with
  | nil => exact governed
  | snoc _ step ih =>
    have effect := step_effect capacity ih.consistent step
    rw [rotations_snoc, ← Nat.add_assoc]
    exact ih.step effect

theorem consistent_effects (consistent : Consistent N here.manager)
    (run : Run (Effect N sha256) here history final) :
    Consistent N final.manager ∧ final.manager.config = here.manager.config := by
  induction run with
  | nil => exact ⟨consistent, rfl⟩
  | snoc _ effect ih =>
    obtain ⟨kept, config, _⟩ := effect.manager ih.1
    exact ⟨kept, config.trans ih.2⟩

theorem effect_run (capacity : N ≤ u32Max) (consistent : Consistent N here.manager)
    (run : Run (Step N G sha256) here history final) :
    Run (Effect N sha256) here history final := by
  induction run with
  | nil => exact .nil
  | snoc _ step ih =>
    have reached := (consistent_effects consistent ih).1
    exact ih.snoc (step_effect capacity reached step)

theorem resolves_since (consistent : Consistent N here.manager)
    (tracked : here.manager.config.trackDerivation = true)
    (run : Run (Effect N sha256) here history final)
    (kept : ∀ event ∈ history, ¬ event.Returns handle) (resolves : final.Resolves N handle slot) :
    here.Resolves N handle slot := by
  induction run with
  | nil => exact resolves
  | snoc earlier effect ih =>
    rcases effect.resolves_back resolves with old | returned | untracked
    · exact ih (fun event member => kept event (mem_append_left _ member)) old
    · exact absurd returned (kept _ (mem_append_right _ (mem_singleton_self _)))
    · rw [(consistent_effects consistent earlier).2, tracked] at untracked
      cases untracked

theorem resolves_forever (consistent : Consistent N here.manager)
    (untracked : here.manager.config.trackDerivation = false)
    (run : Run (Effect N sha256) here history final) (resolves : here.Resolves N handle slot) :
    final.Resolves N handle slot := by
  induction run with
  | nil => exact resolves
  | snoc earlier effect ih =>
    obtain ⟨reached, config⟩ := consistent_effects consistent earlier
    exact effect.resolves_kept reached.unlinked (config ▸ untracked) ih

theorem resolves_same {first : CapSlot} (consistent : Consistent N here.manager)
    (run : Run (Effect N sha256) here history final)
    (kept : ∀ event ∈ history, ¬ event.Returns handle) (found : here.Resolves N handle first)
    (resolves : final.Resolves N handle slot) : slot = first := by
  cases tracking : here.manager.config.trackDerivation with
  | true =>
    have older := resolves_since consistent tracking run kept resolves
    exact Except.ok.inj (older.symm.trans found)
  | false =>
    have later := resolves_forever consistent tracking run found
    exact Except.ok.inj (resolves.symm.trans later)

theorem settled_run (capacity : N ≤ u32Max) (governed : Governed N start count here)
    (settled : Settled N start count here id scope)
    (run : Run (Step N G sha256) here history final)
    (cycle : count + rotations history < 4294967296) :
    Settled N start (count + rotations history) final id scope := by
  induction run with
  | nil => exact settled
  | snoc before step ih =>
    have reached := governed_run capacity governed before
    have effect := step_effect capacity reached.consistent step
    rw [rotations_snoc, ← Nat.add_assoc] at cycle ⊢
    have earlier := Nat.lt_of_le_of_lt (Nat.le_add_right _ _) cycle
    exact (ih earlier).step reached earlier effect

theorem bound_once (capacity : N ≤ u32Max) (governed : Governed N start count here)
    (run : Run (Step N G sha256) here history final)
    (cycle : count + rotations history < 4294967296) {first second : ContextGrant}
    (held : here.grants.get id = some first) (heldLater : final.grants.get id = some second) :
    second.scope = first.scope :=
  (settled_run capacity governed (governed.settled held) run cycle).unique heldLater

/-! ### Ancestors -/

def Delegates (event : AuthorityEvent) (source handle : CapabilityHandle) : Prop :=
  ∃ childScope requestedRights targetOwner caller, event =
    ⟨.delegate source childScope requestedRights targetOwner caller, .ok (.handle handle)⟩

/-- In a run to a state, a capability was delegated, directly or transitively, from
one that had this slot and scope at that time. -/
inductive AncestorOf (N G : Nat) (sha256 : List UInt8 → Octets 32) (start : ContextAuthority) :
    List AuthorityEvent → ContextAuthority → CapabilityHandle → CapSlot → ContextScope → Prop
  | parent {before after : List AuthorityEvent} {here next final : ContextAuthority}
      {event : AuthorityEvent} {source handle : CapabilityHandle} {slot : CapSlot}
      {grant : ContextGrant} :
      Run (Step N G sha256) start before here → Step N G sha256 here event next →
      Delegates event source handle → Run (Step N G sha256) next after final →
      (∀ event ∈ after, ¬ event.Returns handle) →
      here.Resolves N source slot → here.grants.get slot.token.id = some grant →
      AncestorOf N G sha256 start (before ++ event :: after) final handle slot grant.scope
  | further {before after : List AuthorityEvent} {here next final : ContextAuthority}
      {event : AuthorityEvent} {source handle : CapabilityHandle} {slot : CapSlot}
      {scope : ContextScope} :
      AncestorOf N G sha256 start before here source slot scope → Step N G sha256 here event next →
      Delegates event source handle → Run (Step N G sha256) next after final →
      (∀ event ∈ after, ¬ event.Returns handle) →
      AncestorOf N G sha256 start (before ++ event :: after) final handle slot scope

theorem run_cons {first : AuthorityEvent} (step : Step N G sha256 here first next)
    (run : Run (Step N G sha256) next after final) :
    Run (Step N G sha256) here (first :: after) final :=
  (Run.single step).append run

theorem AncestorOf.run {ancestor : CapSlot}
    (ancestry : AncestorOf N G sha256 start history final handle ancestor scope) :
    Run (Step N G sha256) start history final := by
  induction ancestry with
  | parent reached step _ rest => exact reached.append (run_cons step rest)
  | further _ step _ rest _ ih =>
    exact ih.append (run_cons step rest)

theorem delegation_narrows {source : CapabilityHandle} (capacity : N ≤ u32Max)
    (governed : Governed N start count here) (step : Step N G sha256 here event next)
    (delegates : Delegates event source handle) (run : Run (Step N G sha256) next after final)
    (cycle : count + rotations (event :: after) < 4294967296)
    (kept : ∀ event ∈ after, ¬ event.Returns handle) (resolves : final.Resolves N handle slot)
    (held : final.grants.get slot.token.id = some grant) :
    ∃ parent parentGrant, here.Resolves N source parent ∧
      here.grants.get parent.token.id = some parentGrant ∧
      parentGrant.scope.containsScope grant.scope = true ∧
      parent.token.rights.contains slot.token.rights = true := by
  have effect := step_effect capacity governed.consistent step
  have onward := governed.step effect
  have unchanged := fun {first : CapSlot} (found : next.Resolves N handle first) =>
    resolves_same onward.consistent (effect_run capacity onward.consistent run) kept found resolves
  have split : rotations (event :: after) = (if event.rotates then 1 else 0) + rotations after := by
    rw [← singleton_append, rotations_append, ← nil_append [event], rotations_snoc]
    simp [rotations]
  rw [split, ← Nat.add_assoc] at cycle
  obtain ⟨childScope, requestedRights, targetOwner, caller, rfl⟩ := delegates
  cases effect with
  | delegated _ found granted contains attenuates issued binds =>
    obtain rfl := unchanged issued.found
    refine ⟨_, _, found, granted, ?_, attenuates⟩
    have bound := binds slot.token.id
    rw [if_pos rfl] at bound
    rw [bound_once capacity onward run cycle bound held]
    exact contains

/-- What a capability is bound to and holds, each of its ancestors was bound to
and held. -/
theorem AncestorOf.narrows {ancestor : CapSlot}
    (ancestry : AncestorOf N G sha256 start history final handle ancestor scope)
    (capacity : N ≤ u32Max) (governed : Governed N start 0 start)
    (cycle : rotations history < 4294967296) (resolves : final.Resolves N handle slot)
    (held : final.grants.get slot.token.id = some grant) :
    scope.containsScope grant.scope = true ∧
      ancestor.token.rights.contains slot.token.rights = true := by
  induction ancestry generalizing slot grant with
  | parent reached step delegates rest kept found granted =>
    have here := governed_run capacity governed reached
    rw [rotations_append, ← Nat.zero_add (rotations _)] at cycle
    obtain ⟨parent, parentGrant, foundParent, grantedParent, contains, attenuates⟩ :=
      delegation_narrows capacity here step delegates rest cycle kept resolves held
    obtain rfl := Except.ok.inj (found.symm.trans foundParent)
    obtain rfl := Option.some.inj (granted.symm.trans grantedParent)
    exact ⟨contains, attenuates⟩
  | further ancestry step delegates rest kept ih =>
    have here := governed_run capacity governed ancestry.run
    rw [rotations_append] at cycle
    have earlier := Nat.lt_of_le_of_lt (Nat.le_add_right _ _) cycle
    rw [← Nat.zero_add (rotations _)] at cycle
    obtain ⟨parent, parentGrant, foundParent, grantedParent, contains, attenuates⟩ :=
      delegation_narrows capacity here step delegates rest cycle kept resolves held
    obtain ⟨outer, rights⟩ := ih earlier foundParent grantedParent
    exact ⟨ContextScope.containsScope_trans outer contains,
      CapRights.contains_trans rights attenuates⟩

end ContextAuthority

end Rvm.Context
