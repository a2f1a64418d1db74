import Rvm.Cap.Tokens

/-!
Owns monotonic attenuation over runs of the capability manager, and the single use of
`GRANT_ONCE`. A capability is identified by its token's identifier, which is never issued
twice.
-/

namespace Rvm.Cap

open Foundation CapabilityTable CapRights List

namespace CapabilityManager

variable {N : Nat} {config : CapManagerConfig} {before after : CapabilityManager}
  {history : List (Call × Outcome)} {final : CapabilityManager}

/-! ### Identifiers -/

structure Identified (N : Nat) (config : CapManagerConfig) (manager : CapabilityManager) : Prop where
  table : manager.table.Inv N
  policy : manager.grantPolicy = ⟨config.maxDelegationDepth, true⟩
  issued : ∀ index, (manager.table.slots index).generation ≠ 0 →
    (manager.table.slots index).token.id < manager.nextId
  distinct : ∀ left right, (manager.table.slots left).generation ≠ 0 →
    (manager.table.slots right).generation ≠ 0 →
    (manager.table.slots left).token.id = (manager.table.slots right).token.id → left = right

theorem identified_new (N : Nat) (config : CapManagerConfig) :
    Identified N config (.new config) where
  table := new_inv N
  policy := rfl
  issued := fun _ live => absurd rfl live
  distinct := fun _ _ live => absurd rfl live

theorem identified_step {label : Call × Outcome} (identified : Identified N config before)
    (step : Step N before label after) : Identified N config after := by
  have named : Named N after :=
    Named.step ⟨identified.table, identified.issued, identified.distinct⟩ step
  have policy := (step_frame identified.table step).2.2.1
  exact ⟨named.table, policy.trans identified.policy, named.assigned, named.single⟩

variable {start : CapabilityManager} {id : Nat}

theorem identified_run (identified : Identified N config start)
    (run : Run (Step N) start history final) : Identified N config final :=
  run.stateInvariant identified fun _ _ _ here step => identified_step here step

theorem nextId_mono (identified : Identified N config start)
    (run : Run (Step N) start history final) : start.nextId ≤ final.nextId := by
  induction run with
  | nil => exact Nat.le_refl _
  | snoc before step ih =>
    have table := (identified_run identified before).table
    exact ih.trans (step_frame table step).2.1

theorem rights_persist {Holds : CapRights → Prop}
    (stable : ∀ rights, Holds rights → Holds (rights.difference .grantOnce))
    (identified : Identified N config start) (old : id < start.nextId)
    (initial : ∀ index, (start.table.slots index).generation ≠ 0 →
      (start.table.slots index).token.id = id → Holds (start.table.slots index).token.rights)
    (run : Run (Step N) start history final) :
    ∀ index, (final.table.slots index).generation ≠ 0 →
      (final.table.slots index).token.id = id → Holds (final.table.slots index).token.rights := by
  induction run with
  | nil => exact initial
  | @snoc labels label middle final before step ih =>
    intro index live same
    have reached := identified_run identified before
    obtain ⟨filled, accounted⟩ := step_accounted reached.table step
    rcases accounted index live with kept | ⟨-, fresh⟩
    · have earlier := ih index kept.1 (kept.id_eq ▸ same)
      rcases kept.2 with unchanged | stripped
      · exact unchanged ▸ earlier
      · rw [stripped]
        exact stable _ earlier
    · have grows := nextId_mono identified before
      have id := fresh.id
      omega

/-! ### Grants in a run -/

abbrev Reaches (N : Nat) (config : CapManagerConfig) (history : List (Call × Outcome))
    (manager : CapabilityManager) : Prop :=
  Run (Step N) (.new config) history manager

structure Made (N : Nat) (config : CapManagerConfig) (history first : List (Call × Outcome))
    (here next : CapabilityManager) (label : Call × Outcome) : Prop where
  placed : ∃ rest, history = first ++ label :: rest
  reached : Reaches N config first here
  step : Step N here label next

def CreatedRoot (N : Nat) (config : CapManagerConfig) (history : List (Call × Outcome))
    (id : Nat) : Prop :=
  ∃ first here next label, Made N config history first here next label ∧
    label.1.source = none ∧ here.nextId = id ∧ next.nextId = id + 1

/-- The run granted the capability `id` after its first calls `first`, from the
capability that stood as `source` at that moment. -/
def GrantedFrom (N : Nat) (config : CapManagerConfig) (history first : List (Call × Outcome))
    (source : CapSlot) (id : Nat) : Prop :=
  ∃ here next label index generation, Made N config history first here next label ∧
    label.1.source = some (index, generation) ∧
    here.table.lookup N index generation = .ok source ∧
    here.nextId = id ∧ next.nextId = id + 1

def GrantsFrom (N : Nat) (config : CapManagerConfig) (history first : List (Call × Outcome))
    (id : Nat) : Prop :=
  ∃ here next call reply index generation source,
    Made N config history first here next (call, .ok reply) ∧
    call.source = some (index, generation) ∧
    here.table.lookup N index generation = .ok source ∧ source.token.id = id

/-- At some point of the run the capability `id` holds `GRANT_ONCE` but not
`GRANT`. -/
def HeldGrantOnce (N : Nat) (config : CapManagerConfig) (history : List (Call × Outcome))
    (id : Nat) : Prop :=
  ∃ first rest here index generation slot, history = first ++ rest ∧
    Reaches N config first here ∧ here.table.lookup N index generation = .ok slot ∧
    slot.token.id = id ∧ slot.token.rights.contains .grantOnce = true ∧
    slot.token.rights.contains .grant = false

/-- The capability `id` descends from a root that stood as `root` when the chain
of grants left it (or that is `id` itself, as it stands). -/
inductive Lineage (N : Nat) (config : CapManagerConfig) :
    List (Call × Outcome) → Nat → CapSlot → Prop
  | root {history : List (Call × Outcome)} {manager : CapabilityManager} {index generation : Nat}
      {slot : CapSlot} : Reaches N config history manager →
      manager.table.lookup N index generation = .ok slot →
      CreatedRoot N config history slot.token.id → Lineage N config history slot.token.id slot
  | granted {history first : List (Call × Outcome)} {source root : CapSlot} {id : Nat} :
      GrantedFrom N config history first source id →
      Lineage N config first source.token.id root → Lineage N config history id root

variable {first second : List (Call × Outcome)} {here next : CapabilityManager}
  {label : Call × Outcome}

theorem Made.extend (made : Made N config history first here next label)
    (more : List (Call × Outcome)) : Made N config (history ++ more) first here next label where
  placed := by
    obtain ⟨rest, rfl⟩ := made.placed
    exact ⟨rest ++ more, by simp⟩
  reached := made.reached
  step := made.step

theorem Made.rest (made : Made N config history first here next label)
    (run : Reaches N config history final) : ∃ rest, Run (Step N) next rest final := by
  obtain ⟨rest, rfl⟩ := made.placed
  rw [append_cons] at run
  exact ⟨rest, Run.continues step_functional (made.reached.snoc made.step) run⟩

theorem Made.snoc_cases {last : Call × Outcome}
    (made : Made N config (history ++ [last]) first here next label) :
    Made N config history first here next label ∨ (first = history ∧ label = last) := by
  obtain ⟨rest, placed⟩ := made.placed
  rcases eq_nil_or_concat' rest with rfl | ⟨front, final, rfl⟩
  · obtain ⟨sameFirst, sameLabel⟩ := append_inj' placed rfl
    exact Or.inr ⟨sameFirst.symm, (singleton_inj.mp sameLabel).symm⟩
  · rw [← cons_append, ← append_assoc] at placed
    obtain ⟨sameHistory, -⟩ := append_inj' placed rfl
    exact Or.inl ⟨⟨front, sameHistory⟩, made.reached, made.step⟩

/-- Of two calls of a run, the one made after fewer calls was made on the way to
the other. -/
theorem Made.earlier {laterHere laterNext : CapabilityManager} {later : Call × Outcome}
    (made : Made N config history first here next label)
    (madeLater : Made N config history second laterHere laterNext later)
    (lt : first.length < second.length) : Made N config second first here next label where
  placed := by
    obtain ⟨rest, placed⟩ := made.placed
    obtain ⟨laterRest, placedLater⟩ := madeLater.placed
    have left : first ++ [label] <+: history := ⟨rest, by simp [placed]⟩
    have right : second <+: history := ⟨later :: laterRest, placedLater.symm⟩
    obtain ⟨between, same⟩ := prefix_of_prefix_length_le left right (by simp; omega)
    exact ⟨between, by simp [← same]⟩
  reached := made.reached
  step := made.step

theorem reaches_identified (run : Reaches N config history final) : Identified N config final :=
  identified_run (identified_new N config) run

theorem Made.id_lt (made : Made N config history first here next label)
    (run : Reaches N config history final) (taken : next.nextId = id + 1) : id < final.nextId := by
  obtain ⟨rest, rest_run⟩ := made.rest run
  have identified := identified_step (reaches_identified made.reached) made.step
  have grows := nextId_mono identified rest_run
  omega

/-! ### The law -/

theorem live_origin (run : Reaches N config history final) :
    ∀ index, (final.table.slots index).generation ≠ 0 →
      CreatedRoot N config history (final.table.slots index).token.id ∨
        ∃ first source, GrantedFrom N config history first source
          (final.table.slots index).token.id := by
  induction run with
  | nil => exact fun _ live => absurd rfl live
  | @snoc history last middle final before step ih =>
    intro index live
    obtain ⟨filled, accounted⟩ := step_accounted (reaches_identified before).table step
    rcases accounted index live with kept | ⟨-, fresh⟩
    · rw [kept.id_eq]
      rcases ih index kept.1 with
        ⟨first, here, next, label, made, isRoot⟩ |
          ⟨first, source, here, next, label, sourceIndex, generation, made, isGrant⟩
      · exact Or.inl ⟨first, here, next, label, made.extend _, isRoot⟩
      · exact Or.inr ⟨first, source, here, next, label, sourceIndex, generation, made.extend _,
          isGrant⟩
    · have made : Made N config (history ++ [last]) history middle final last :=
        ⟨⟨[], rfl⟩, before, step⟩
      have taken : final.nextId = (final.table.slots index).token.id + 1 := by
        rw [fresh.id, fresh.taken]
      rcases fromSource : last.1.source with _ | ⟨sourceIndex, generation⟩
      · exact Or.inl ⟨_, _, _, _, made, fromSource, fresh.id.symm, taken⟩
      · obtain ⟨source, found, -⟩ := fresh.derived sourceIndex generation fromSource
        exact Or.inr ⟨_, source, _, _, _, _, _, made, fromSource, found, fresh.id.symm, taken⟩

/-- Every live capability attenuates the one it was granted from, as that one
stood at the moment of the grant. -/
theorem live_attenuates (run : Reaches N config history final) :
    ∀ index, (final.table.slots index).generation ≠ 0 → ∀ first source,
      GrantedFrom N config history first source (final.table.slots index).token.id →
      Attenuates config.maxDelegationDepth source (final.table.slots index) := by
  induction run with
  | nil => exact fun _ live => absurd rfl live
  | @snoc history last middle final before step ih =>
    intro index live first source granted
    have identified := reaches_identified before
    obtain ⟨here, next, label, sourceIndex, generation, made, fromSource, found, taken, follows⟩ :=
      granted
    obtain ⟨filled, accounted⟩ := step_accounted identified.table step
    rcases accounted index live with kept | ⟨-, fresh⟩
    · rcases made.snoc_cases with earlier | ⟨rfl, rfl⟩
      · rw [kept.id_eq] at taken follows
        have attenuates := ih index kept.1 first source
          ⟨here, next, label, sourceIndex, generation, earlier, fromSource, found, taken, follows⟩
        rcases kept.2 with same | stripped
        · exact same ▸ attenuates
        · exact stripped ▸ attenuates.strip
      · -- The last call took a fresh identifier, not the kept one.
        obtain rfl := Run.deterministic step_functional before made.reached
        have old := identified.issued index kept.1
        rw [← kept.id_eq] at old
        omega
    · rcases made.snoc_cases with earlier | ⟨rfl, rfl⟩
      · have old := earlier.id_lt before follows
        have id := fresh.id
        omega
      · obtain rfl := Run.deterministic step_functional before made.reached
        obtain ⟨other, otherFound, attenuates⟩ := fresh.derived sourceIndex generation fromSource
        rw [found] at otherFound
        cases otherFound
        rw [identified.policy] at attenuates
        exact attenuates

/-- A live capability's rights are within those of the root it descends from. -/
theorem lineage_contains {root : CapSlot} (lineage : Lineage N config history id root) :
    ∀ {final index generation slot}, Reaches N config history final →
      final.table.lookup N index generation = .ok slot → slot.token.id = id →
      root.token.rights.contains slot.token.rights = true := by
  induction lineage with
  | @root history manager rootIndex _ rootSlot reached rootFound _ =>
    intro final index generation slot run found same
    obtain rfl := Run.deterministic step_functional reached run
    obtain ⟨-, rootEq, rootLive, -⟩ := lookup_eq_ok.mp rootFound
    obtain ⟨-, slotEq, slotLive, -⟩ := lookup_eq_ok.mp found
    subst rootEq slotEq
    obtain rfl := (reaches_identified reached).distinct index rootIndex slotLive rootLive same
    exact contains_refl _
  | @granted history first source root id granted _ ih =>
    intro final index generation slot run found same
    obtain ⟨-, slotEq, slotLive, -⟩ := lookup_eq_ok.mp found
    subst slotEq same
    have attenuates := live_attenuates run index slotLive first source granted
    obtain ⟨here, next, label, sourceIndex, sourceGeneration, made, _, sourceFound, _⟩ := granted
    exact contains_trans (ih made.reached sourceFound rfl)
      attenuates.rights

/-- Every live capability descends from a root: the chain of grants ends, since
each grant of it was made earlier in the run. -/
theorem lineage_exists :
    ∀ (length : Nat) {history final index generation slot}, history.length ≤ length →
      Reaches N config history final → final.table.lookup N index generation = .ok slot →
      ∃ root, Lineage N config history slot.token.id root := by
  intro length
  induction length with
  | zero =>
    intro history final index generation slot short run found
    obtain rfl : history = [] := length_eq_zero_iff.mp (by omega)
    obtain rfl := Run.deterministic step_functional (.nil : Reaches N config [] _) run
    obtain ⟨-, rfl, live, -⟩ := lookup_eq_ok.mp found
    exact absurd rfl live
  | succ length ih =>
    intro history final index generation slot short run found
    obtain ⟨-, rfl, live, -⟩ := lookup_eq_ok.mp found
    rcases live_origin run index live with isRoot | ⟨first, source, granted⟩
    · exact ⟨_, .root run found isRoot⟩
    · obtain ⟨here, next, label, sourceIndex, sourceGeneration, made, _, sourceFound, _⟩ :=
        id granted
      obtain ⟨rest, placed⟩ := made.placed
      have shorter : first.length ≤ length := by
        have := congrArg List.length placed
        simp only [length_append, length_cons] at this
        omega
      obtain ⟨root, lineage⟩ := ih shorter made.reached sourceFound
      exact ⟨root, .granted granted lineage⟩

/-! ### Single use -/

private theorem grantWithCaller_spends {sourceIndex sourceGeneration : Nat}
    {requestedRights : CapRights} {badge : Nat} {target : PartitionId}
    {callerId : Option PartitionId} {handle : Nat × Nat} {source : CapSlot}
    (inv : before.table.Inv N)
    (found : before.table.lookup N sourceIndex sourceGeneration = .ok source)
    (called : before.grantWithCaller N sourceIndex sourceGeneration requestedRights badge target
      callerId = (.ok handle, after)) :
    (source.token.rights.contains .grant = true ∨
        source.token.rights.contains .grantOnce = true) ∧
      (source.token.rights.contains .grant = false →
        after.table.slots sourceIndex = stripGrantOnce source) := by
  rcases grantWithCaller_cases called with
    ⟨_, failed, _⟩ | ⟨_, _, _, consume, _, table, cleared, inserted, _, _, linking⟩
  · cases failed
  · obtain ⟨foundAgain, validated⟩ := grantCleared_spec cleared
    rw [found] at foundAgain
    cases foundAgain
    obtain ⟨-, -, -, -, permitted, consumes⟩ := validateGrant_spec validated
    obtain ⟨filled, _, _, _, free, _, _, _, slots, _⟩ :=
      insertDerived_spec inv inserted
    refine ⟨permitted, fun lacking => ?_⟩
    obtain ⟨below, rfl, live, same⟩ := lookup_eq_ok.mp found
    have elsewhere : sourceIndex ≠ filled := fun isFilled => live (isFilled ▸ free)
    have unchanged : table.slots sourceIndex = before.table.slots sourceIndex := by
      rw [slots, Function.update_of_ne elsewhere]
    rcases linking with ⟨_, failed, _⟩ | ⟨_, finished, _⟩
    · cases failed
    · rw [finished, if_pos (consumes.mpr lacking), ← unchanged]
      refine consumeGrantOnce_source ⟨below, same ▸ live, ?_⟩
      rw [unchanged, same]

theorem grant_spends {call : Call} {reply : Reply} {index generation : Nat} {source : CapSlot}
    (inv : before.table.Inv N) (fromSource : call.source = some (index, generation))
    (found : before.table.lookup N index generation = .ok source)
    (step : Step N before (call, .ok reply) after) :
    (source.token.rights.contains .grant = true ∨
        source.token.rights.contains .grantOnce = true) ∧
      (source.token.rights.contains .grant = false →
        after.table.slots index = stripGrantOnce source) := by
  have answers := step.answers
  generalize outcomeEq : Except.ok reply = outcome at answers
  cases answers with
  | @grant _ _ _ _ _ _ _ result _ grants called =>
    cases grants.source.symm.trans fromSource
    cases result with
    | error => cases outcomeEq
    | ok => exact grantWithCaller_spends inv found called
  | _ => cases fromSource

/-- A property of rights that the loss of `GRANT_ONCE` keeps passes from one
sighting of a capability to every later one of the run. -/
theorem sighting_persists {Holds : CapRights → Prop} {rest : List (Call × Outcome)}
    {index generation laterIndex laterGeneration : Nat} {slot later : CapSlot}
    (stable : ∀ rights, Holds rights → Holds (rights.difference .grantOnce))
    (reached : Reaches N config first here) (run : Reaches N config (first ++ rest) final)
    (found : here.table.lookup N index generation = .ok slot)
    (laterFound : final.table.lookup N laterIndex laterGeneration = .ok later)
    (same : later.token.id = slot.token.id) (holds : Holds slot.token.rights) :
    Holds later.token.rights := by
  have identified := reaches_identified reached
  obtain ⟨-, rfl, live, -⟩ := lookup_eq_ok.mp found
  obtain ⟨-, rfl, laterLive, -⟩ := lookup_eq_ok.mp laterFound
  refine rights_persist stable identified (identified.issued index live) ?_
    (Run.continues step_functional reached run) laterIndex laterLive same
  intro other otherLive otherSame
  rwa [identified.distinct other index otherLive live otherSame]

/-- A capability that ever holds `GRANT_ONCE` without `GRANT` lacks `GRANT` all
its life. -/
theorem heldGrantOnce_lacks_grant {index generation : Nat} {slot : CapSlot}
    {rest : List (Call × Outcome)} (placed : history = first ++ rest)
    (held : HeldGrantOnce N config history id) (reached : Reaches N config first here)
    (found : here.table.lookup N index generation = .ok slot) (same : slot.token.id = id) :
    slot.token.rights.contains .grant = false := by
  obtain ⟨left, right, there, thereIndex, thereGeneration, thereSlot, split, thereReached,
    thereFound, thereSame, _, lacks⟩ := held
  have firstPrefix : first <+: history := ⟨rest, placed.symm⟩
  have leftPrefix : left <+: history := ⟨right, split.symm⟩
  rcases prefix_or_prefix_of_prefix leftPrefix firstPrefix with ⟨between, rfl⟩ | ⟨between, rfl⟩
  · refine @sighting_persists N config here left there (fun rights => rights.contains .grant = false)
      between _ _ _ _ _ _ ?_ thereReached reached thereFound found (by rw [same, thereSame]) lacks
    intro rights lacking
    rwa [difference_grantOnce_contains_grant]
  · by_contra holds
    have stays := @sighting_persists N config there first here
      (fun rights => rights.contains .grant = true) between _ _ _ _ _ _
      (fun rights holding => by rwa [difference_grantOnce_contains_grant])
      reached thereReached found thereFound (by rw [same, thereSame]) (by simpa using holds)
    rw [lacks] at stays
    cases stays

/-- After a grant from a capability without `GRANT`, no later grant from it in
the same run succeeds. -/
theorem not_granted_again (held : HeldGrantOnce N config history id)
    (grants : GrantsFrom N config history first id) (again : GrantsFrom N config history second id)
    (lt : first.length < second.length) : False := by
  obtain ⟨here, next, call, reply, index, generation, source, made, fromSource, found, same⟩ := grants
  obtain ⟨laterHere, laterNext, laterCall, laterReply, laterIndex, laterGeneration, later, madeLater,
    laterFrom, laterFound, laterSame⟩ := again
  obtain ⟨rest, placed⟩ := made.placed
  have identified := reaches_identified made.reached
  have lacks := heldGrantOnce_lacks_grant placed held made.reached found same
  have stripped := (grant_spends identified.table fromSource found made.step).2 lacks
  obtain ⟨below, -, live, generationEq⟩ := lookup_eq_ok.mp found
  have foundAfter : next.table.lookup N index generation = .ok (stripGrantOnce source) :=
    lookup_eq_ok.mpr ⟨below, stripped, live, generationEq⟩
  obtain ⟨between, placedBetween⟩ := (made.earlier madeLater lt).placed
  have reached : Reaches N config ((first ++ [(call, .ok reply)]) ++ between) laterHere := by
    rw [← append_cons, ← placedBetween]
    exact madeLater.reached
  have spent := @sighting_persists N config laterHere (first ++ [(call, .ok reply)]) next
    (fun rights => rights.contains .grant = false ∧ rights.contains .grantOnce = false)
    between _ _ _ _ _ _
    (fun rights spent => ⟨by rw [difference_grantOnce_contains_grant]; exact spent.1,
      difference_grantOnce_not_contains rights⟩)
    (made.reached.snoc made.step) reached foundAfter laterFound (by rw [laterSame, ← same]; rfl)
    ⟨(difference_grantOnce_contains_grant _).trans lacks, difference_grantOnce_not_contains _⟩
  rcases (grant_spends (reaches_identified madeLater.reached).table laterFrom laterFound
    madeLater.step).1 with permitted | permitted
  · rw [spent.1] at permitted
    cases permitted
  · rw [spent.2] at permitted
    cases permitted

/-- A live capability is a root or within its source and its root, and `GRANT_ONCE` without
`GRANT` is the source of at most one grant. -/
theorem attenuation (N : Nat) (config : CapManagerConfig) (history : List (Call × Outcome))
    (final : CapabilityManager) (run : Reaches N config history final) :
    (∀ index generation slot, final.table.lookup N index generation = .ok slot →
      (CreatedRoot N config history slot.token.id ∨
        ∃ first source, GrantedFrom N config history first source slot.token.id) ∧
      (∀ first source, GrantedFrom N config history first source slot.token.id →
        Attenuates config.maxDelegationDepth source slot) ∧
      (∃ root, Lineage N config history slot.token.id root) ∧
      ∀ root, Lineage N config history slot.token.id root →
        root.token.rights.contains slot.token.rights = true) ∧
    ∀ id, HeldGrantOnce N config history id → ∀ first second,
      GrantsFrom N config history first id → GrantsFrom N config history second id →
      first = second := by
  constructor
  · intro index generation slot found
    obtain ⟨-, rfl, live, -⟩ := CapabilityTable.lookup_eq_ok.mp found
    exact ⟨live_origin run index live, live_attenuates run index live,
      lineage_exists _ (Nat.le_refl _) run found,
      fun root lineage => lineage_contains lineage run found rfl⟩
  · intro id held first second grants again
    rcases Nat.lt_trichotomy first.length second.length with earlier | same | later
    · exact (not_granted_again held grants again earlier).elim
    · obtain ⟨_, _, _, _, _, _, _, made, _⟩ := grants
      obtain ⟨_, _, _, _, _, _, _, madeAgain, _⟩ := again
      obtain ⟨_, placed⟩ := made.placed
      obtain ⟨_, placedAgain⟩ := madeAgain.placed
      exact (List.append_inj (placed.symm.trans placedAgain) same).1
    · exact (not_granted_again held again grants later).elim

def sampleGrant : List (Call × Outcome) :=
  [(.createRootCapability .region (.union .read .grantOnce) 7 ⟨1⟩, .ok (.handle 0 1)),
    (.grant 0 1 .read 9 ⟨2⟩, .ok (.handle 1 1))]

/-- The law at the child of that grant. -/
theorem attenuation_sampleGrant :
    ∃ final slot, Reaches 4 .new sampleGrant final ∧ final.table.lookup 4 1 1 = .ok slot ∧
      slot.token.rights = .read ∧
      ∀ first source, GrantedFrom 4 .new sampleGrant first source slot.token.id →
        Attenuates 8 source slot := by
  have created : Reaches 4 .new [(.createRootCapability .region (.union .read .grantOnce) 7 ⟨1⟩,
      .ok (.handle 0 1))] _ := Run.single ⟨0, rfl⟩
  have granted : Reaches 4 .new sampleGrant _ := created.snoc ⟨0, rfl⟩
  exact ⟨_, _, granted, rfl, rfl, ((attenuation 4 .new sampleGrant _ granted).1 1 1 _ rfl).2.1⟩

end CapabilityManager

end Rvm.Cap
