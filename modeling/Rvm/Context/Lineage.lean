import Rvm.Cap.Revocation
import Rvm.Context.Delegation

/-!
Owns the lineage of context capabilities: where handles come from, and what a revocation
ends, while no issue reuses a slot that a live node still lists as a child.
-/

namespace Rvm.Context

open Cap Foundation Foundation.Call CapabilityManager CapabilityTable

namespace ContextAuthority

open ContextGrantTable

variable {N G : Nat} {sha256 : List UInt8 → Octets 32}
  {start here next final : ContextAuthority} {event : AuthorityEvent}
  {history before after : List AuthorityEvent} {count : Nat} {handle : CapabilityHandle}
  {slot : CapSlot}

def pairOf (handle : CapabilityHandle) : Handle := (handle.index, handle.generation)

def extend (lineage : Handle → Option Handle) (event : AuthorityEvent) : Handle → Option Handle :=
  match event.call, event.outcome with
  | .issueRoot _ _ _ _, .ok (.handle handle) => Function.update lineage (pairOf handle) none
  | .delegate source _ _ _ _, .ok (.handle handle) =>
    Function.update lineage (pairOf handle) (some (pairOf source))
  | _, _ => lineage

/-- Where the handles come from, after the manager's own calls and those of the
authority: each from the source of its most recent issue. -/
def lineage (earlier : List (Cap.Call × Outcome)) (history : List AuthorityEvent) :
    Handle → Option Handle :=
  history.foldl extend (delegationForest earlier)

theorem lineage_snoc (earlier : List (Cap.Call × Outcome)) (history : List AuthorityEvent)
    (event : AuthorityEvent) :
    lineage earlier (history ++ [event]) = extend (lineage earlier history) event := by
  simp [lineage]

theorem extend_refused (forest : Handle → Option Handle) (call : AuthorityCall)
    (reason : ContextError) : extend forest ⟨call, .error reason⟩ = forest := by
  cases call <;> rfl

/-- A step that leaves the manager alone or whose issue takes no slot that a live
node still lists as a child. -/
def Tidy (N G : Nat) (sha256 : List UInt8 → Octets 32) (here : ContextAuthority)
    (event : AuthorityEvent) (next : ContextAuthority) : Prop :=
  Step N G sha256 here event next ∧ (next.manager = here.manager ∨
    ∀ issue outcome, event.call.managerCall sha256 = some issue →
      here.manager.TakesUnlisted N (issue, outcome))

variable {forest : Handle → Option Handle} {lists : Nat → List Nat} {manager : CapabilityManager}

theorem forested_of_agree {other : Handle → Option Handle}
    (forested : Forested N manager forest lists)
    (agree : ∀ i g slot, manager.table.lookup N i g = .ok slot → other (i, g) = forest (i, g)) :
    Forested N manager other lists :=
  { forested with
    agrees := by
      intro child member parent isParent
      have live : manager.table.Live N child (manager.table.slots child).generation :=
        forested.live_iff.mpr ⟨member, rfl⟩
      rw [agree _ _ _ (live_iff_lookup.mp live)]
      exact forested.agrees child member parent isParent }

theorem takesUnlisted_revoke {i g : Nat} {outcome : Outcome} :
    manager.TakesUnlisted N (.revoke i g, outcome) := by
  intro slot taken
  cases taken

theorem forested_of_backed {call : Option Cap.Call} {before after : CapabilityManager}
    (named : Named N before) (tracked : before.config.trackDerivation = true)
    (forested : Forested N before forest lists) (backed : Backed N call before after)
    (same : SameLive N before after)
    (takes : after = before ∨ ∀ issue outcome, call = some issue →
      before.TakesUnlisted N (issue, outcome)) :
    ∃ grown, Forested N after forest grown := by
  rcases takes with rfl | takes
  · exact ⟨lists, forested⟩
  · cases backed with
    | untouched => exact ⟨lists, forested⟩
    | failed known step => exact forested_step tracked forested (takes _ _ known) step
    | @rolledBack issue i g result middle _ known absent step rollback =>
      obtain ⟨grown, middleForested⟩ := forested_step tracked forested (takes _ _ known) step
      have config := (step_frame named.table step).2.2.2
      obtain ⟨shrunk, afterForested⟩ := forested_step (config ▸ tracked) middleForested
        takesUnlisted_revoke rollback
      refine ⟨shrunk, forested_of_agree afterForested fun j h slot live => ?_⟩
      obtain ⟨_, rfl, used, _⟩ := lookup_eq_ok.mp ((same.lookup j h slot).mp live)
      have apart : (j, h) ≠ (i, g) := by
        intro collides
        rw [(Prod.mk.inj collides).1] at used
        exact used absent
      cases result with
      | ok count | error e => exact (Function.update_of_ne apart _ _).symm

/-- Step lemma: lineage, table and tree go on describing one forest. -/
theorem forested_extend (named : Named N here.manager)
    (tracked : here.manager.config.trackDerivation = true)
    (forested : Forested N here.manager forest lists) (effect : Effect N sha256 here event next)
    (takes : next.manager = here.manager ∨ ∀ issue outcome,
      event.call.managerCall sha256 = some issue →
        here.manager.TakesUnlisted N (issue, outcome)) :
    ∃ grown, Forested N next.manager (extend forest event) grown := by
  cases effect with
  | refused same _ backed =>
    rw [extend_refused]
    exact forested_of_backed named tracked forested backed same takes
  | leaked untracked =>
    rw [tracked] at untracked
    cases untracked
  | rootIssued step issued | delegated step _ _ _ _ issued =>
    rcases takes with stays | takes
    · have counted := issued.nextId
      rw [stays] at counted
      exact absurd counted (Nat.lt_irrefl _)
    · exact forested_step tracked forested (takes _ _ rfl) step
  | bound _ _ manager =>
    rw [manager]
    exact ⟨lists, forested⟩
  | revoked called =>
    exact forested_step tracked forested takesUnlisted_revoke (step_of_revoke called)
  | rotated => exact ⟨lists, forested.congr rfl rfl⟩

theorem forested_lineage {config : CapManagerConfig} {earlier : List (Cap.Call × Outcome)}
    (capacity : N ≤ u32Max) (bounded : config.initialEpoch < 4294967296)
    (tracked : config.trackDerivation = true)
    (made : Run (Guarded (CapabilityManager.Step N) (CapabilityManager.TakesUnlisted N))
      (.new config) earlier manager) (run : Run (Tidy N G sha256) (.new manager) history final) :
    Governed N (.new manager) (rotations history) final ∧
      ∃ lists, Forested N final.manager (lineage earlier history) lists := by
  obtain ⟨consistent, same⟩ := consistent_run bounded (made.mono fun _ _ _ => And.left)
  induction run with
  | nil => exact ⟨governed_new consistent, forested_run tracked made⟩
  | snoc _ step ih =>
    obtain ⟨reached, lists, forested⟩ := ih
    have effect := step_effect capacity reached.consistent step.1
    have tracking := (congrArg CapManagerConfig.trackDerivation (reached.config.trans same)).trans
      tracked
    rw [lineage_snoc, rotations_snoc]
    exact ⟨reached.step effect,
      forested_extend reached.consistent.named tracking forested effect step.2⟩

section Authorizing

variable {witness : WitnessParameters} {actor : PartitionId} {timestampNs : Nat}
  {request : ContextRequest} {expectedOperation : ContextOperation} {log : Witness.WitnessLog}

theorem authorize_refused (dead : ∀ slot, ¬ here.Resolves N request.capability slot) :
    (authorize witness N here actor timestampNs request expectedOperation).Ensures log
      (fun _ _ => False) fun _ _ => True := by
  unfold authorize
  dsimp only
  split
  · cases found : here.manager.table.lookup N request.capability.index
        request.capability.generation with
    | ok slot => exact absurd found (dead slot)
    | error e =>
      simp only [CapabilityManager.verifyP1, ProofVerifier.verifyP1, found]
      simp [deny, emitDecision, emitRecord]
  · simp [deny, emitDecision, emitRecord]

theorem authorize_congr (verifier : next.manager.verifier = here.manager.verifier)
    (resolves : ∀ slot, next.Resolves N request.capability slot ↔
      here.Resolves N request.capability slot)
    (bindings : ∀ slot, here.Resolves N request.capability slot →
      next.grants.get slot.token.id = here.grants.get slot.token.id) :
    authorize witness N next actor timestampNs request expectedOperation =
      authorize witness N here actor timestampNs request expectedOperation := by
  unfold authorize CapabilityManager.verifyP1 ProofVerifier.verifyP1
  cases found : here.manager.table.lookup N request.capability.index
      request.capability.generation with
  | ok slot =>
    have foundNext : next.manager.table.lookup N request.capability.index
        request.capability.generation = .ok slot := (resolves slot).mpr found
    simp only [found, foundNext, verifier, bindings slot found]
  | error e =>
    cases foundNext : next.manager.table.lookup N request.capability.index
        request.capability.generation with
    | ok slot =>
      have resolved := (resolves slot).mp foundNext
      rw [Resolves, found] at resolved
      cases resolved
    | error _ => simp only [found, foundNext]

end Authorizing

theorem revoked_dead {forest : Handle → Option Handle} {lists : Nat → List Nat} {fuel : Nat}
    (forested : Forested N here.manager forest lists)
    (called : here.manager.revoke N fuel handle.index handle.generation =
      some (.ok count, next.manager)) {descendant : CapabilityHandle}
    (below : descendant = handle ∨ Descends forest (pairOf descendant) (pairOf handle)) :
    ¬ next.Resolves N descendant slot := by
  intro resolves
  obtain ⟨member, generation, visited, revoked⟩ := forested.revoked called
  have exactly := forested.revocationExact member revoked
  rw [generation] at exactly
  obtain ⟨inside, same, used, generationEq⟩ := lookup_eq_ok.mp resolves
  have liveNext : next.manager.table.Live N descendant.index descendant.generation :=
    ⟨inside, generationEq ▸ used, by rw [same, generationEq]⟩
  rcases below with rfl | descends
  · exact exactly.self liveNext
  · have older := lookup_of_revoke called resolves
    obtain ⟨_, sameHere, _, _⟩ := lookup_eq_ok.mp older
    have live : here.manager.table.Live N descendant.index descendant.generation :=
      ⟨inside, generationEq ▸ used, by rw [sameHere, generationEq]⟩
    exact exactly.descendants (pairOf descendant) live descends liveNext

theorem revoked_others {forest : Handle → Option Handle} {lists : Nat → List Nat} {fuel : Nat}
    (forested : Forested N here.manager forest lists)
    (called : here.manager.revoke N fuel handle.index handle.generation =
      some (.ok count, next.manager)) {other : CapabilityHandle} (different : other ≠ handle)
    (apart : ¬ Descends forest (pairOf other) (pairOf handle)) :
    next.Resolves N other slot ↔ here.Resolves N other slot := by
  refine ⟨lookup_of_revoke called, fun resolves => ?_⟩
  obtain ⟨member, generation, visited, revoked⟩ := forested.revoked called
  have exactly := forested.revocationExact member revoked
  rw [generation] at exactly
  obtain ⟨inside, same, used, generationEq⟩ := lookup_eq_ok.mp resolves
  have live : here.manager.table.Live N other.index other.generation :=
    ⟨inside, generationEq ▸ used, by rw [same, generationEq]⟩
  have distinct : pairOf other ≠ pairOf handle := by
    intro collides
    obtain ⟨index, generation⟩ := Prod.mk.inj collides
    exact different (by cases other; cases handle; simp_all)
  have kept := exactly.others (pairOf other) live distinct apart
  rw [Resolves] at resolves ⊢
  exact kept.trans resolves

end ContextAuthority

end Rvm.Context
