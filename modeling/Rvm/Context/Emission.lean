import Rvm.Context.Mediation

/-!
Owns how many records each access of the governed runtime appends to the witness log:
at most two, and one where an epoch is not sealed; each has a timestamp of the clock.
-/

namespace Rvm.Context

open Cap Foundation Foundation.Call Witness ContextRuntime List

namespace ContextRuntime

variable {ρ κ : Type} {parameters : RuntimeParameters ρ κ} {here mid next : ContextRuntime ρ κ}

theorem Logs.trans {first second : List WitnessRecord} (before : Logs parameters here first mid)
    (after : Logs parameters mid second next) :
    Logs parameters here (first ++ second) next where
  witness := by rw [after.witness, before.witness, foldl_append]
  recorded := by
    have log : mid.witness = here.witness.run parameters.witness.capacity parameters.witness.hasher
        (first.map .append) := by
      rw [before.witness, WitnessLog.run, foldl_map]
      rfl
    rw [after.recorded, before.recorded, map_append, WitnessLog.produced_append, ← log,
      append_assoc]

def Timed (record : WitnessRecord) : Prop := record.timestampNs ≤ u64Max

/-- At most so many records were appended, and the cursor stayed. -/
structure Emitted (parameters : RuntimeParameters ρ κ) (most : Nat)
    (here next : ContextRuntime ρ κ) : Prop where
  logs : ∃ records, Logs parameters here records next ∧ records.length ≤ most ∧
    ∀ record ∈ records, Timed record
  receiptChain : next.receiptChain = here.receiptChain

def emission (parameters : RuntimeParameters ρ κ) : Grading (ContextRuntime ρ κ) where
  Moves := Emitted parameters
  still _ := ⟨⟨[], logs_nil, Nat.le_refl _, fun _ member => by cases member⟩, rfl⟩
  further := by
    rintro first second here mid next ⟨⟨records, logs, few, timed⟩, receiptChain⟩
      ⟨⟨more, further, fewer, alsoTimed⟩, same⟩
    refine ⟨⟨records ++ more, logs.trans further, ?_, fun record member => ?_⟩,
      same.trans receiptChain⟩
    · rw [length_append]
      omega
    · rcases mem_append.mp member with earlier | later
      · exact timed record earlier
      · exact alsoTimed record later
  weaker := by
    rintro first second here next le ⟨⟨records, logs, few, timed⟩, receiptChain⟩
    exact ⟨⟨records, logs, few.trans le, timed⟩, receiptChain⟩

variable {authorized : AuthorizedRequest}

theorem emitted_one (record : WitnessRecord) (timed : Timed record)
    (witness : next.witness = parameters.witness.logged here.witness record)
    (recorded : next.recorded =
      (here.withWitness (parameters.witness.logged here.witness record)).recorded)
    (receiptChain : next.receiptChain = here.receiptChain) : Emitted parameters 1 here next :=
  ⟨⟨[record], logs_nil.append witness recorded, Nat.le_refl _, by simpa using timed⟩, receiptChain⟩

theorem authorize_timed {witness : WitnessParameters} {N : Nat} {authority : ContextAuthority}
    {actor : PartitionId} {timestampNs : Nat} {request : ContextRequest}
    {operation : ContextOperation} {log : WitnessLog} :
    (authority.authorize witness N actor timestampNs request operation).Ensures log
      (fun authorized _ => authorized.timestampNs = timestampNs) fun _ _ => True := by
  unfold ContextAuthority.authorize
  dsimp only
  split
  · split
    · exact trivial
    · split
      · exact trivial
      · split
        · exact trivial
        · split
          · exact trivial
          · split
            · exact trivial
            · exact rfl
  · exact trivial

theorem authorize_decides (clocked : ∀ clock, (parameters.timestampNs clock).1 ≤ u64Max)
    (request : ContextRequest) (operation : ContextOperation) :
    (authorize parameters request operation).Ensures here
      (fun authorized next => authorized.timestampNs ≤ u64Max ∧ Emitted parameters 1 here next)
      fun _ next => Emitted parameters 1 here next := by
  unfold authorize nextTimestamp onWitness
  simp only [ensures_bind, ensures_get, ensures_set, ensures_pure, ensures_onPart,
    ensures_translate]
  apply (ContextAuthority.authorize_spec.both authorize_timed).mono
  · rintro authorized log ⟨⟨_, rfl⟩, timestamp⟩
    have timed : authorized.timestampNs ≤ u64Max := timestamp ▸ clocked _
    exact ⟨timed, emitted_one (authorized.recordOf _ _) timed rfl rfl rfl⟩
  · rintro _ log ⟨⟨hash, rfl⟩, _⟩
    exact emitted_one (contextRecord _ _ _ _ _ _ _) (clocked _) rfl rfl rfl

theorem authorize_emits (clocked : ∀ clock, (parameters.timestampNs clock).1 ≤ u64Max)
    (request : ContextRequest) (operation : ContextOperation) :
    Bounds (emission parameters) (authorize parameters request operation) 1 1
      fun authorized => authorized.timestampNs ≤ u64Max :=
  fun _ => (authorize_decides clocked request operation).permits

theorem ask_emits {α : Type} (call : ResolverCall) (method : Call ContextError ρ α) :
    Bounds (emission parameters) (ask call method) 0 0 fun _ => True := by
  intro here
  have kept : ∀ asked resolver, Emitted parameters 0 here
      { here with asked := asked, resolver := resolver } :=
    fun _ _ => ⟨⟨[], ⟨rfl, (append_nil _).symm⟩, Nat.le_refl _, fun _ member => by cases member⟩,
      rfl⟩
  apply Ensures.permits
  unfold ask
  simp only [ensures_bind, ensures_get, ensures_set]
  cases method.runFrom here.resolver with
  | none => exact kept _ here.resolver
  | some outcome =>
    simp only [ensures_bind, ensures_modify, ensures_translate, ensures_orRefusal]
    exact ⟨fun _ _ => ⟨trivial, kept _ _⟩, fun _ _ => kept _ _⟩

theorem complete_emits (timed : authorized.timestampNs ≤ u64Max) :
    Bounds (emission parameters) (complete parameters authorized) 1 1 fun _ => True := by
  intro here
  apply Ensures.permits
  unfold complete onWitness
  simp only [ensures_onPart, ensures_translate]
  exact ⟨trivial, emitted_one (authorized.recordOf _ _) timed rfl rfl rfl⟩

theorem checked_emits (timed : authorized.timestampNs ≤ u64Max) (valid : Bool) :
    Bounds (emission parameters) (checked parameters valid authorized) 0 1 fun _ => True := by
  unfold checked rejectResolver
  split
  · exact bounds_done.mono (Nat.le_refl _) (Nat.zero_le _)
  · intro here
    apply Ensures.permits
    unfold onWitness
    simp only [ensures_bind, ensures_onPart, ensures_translate, ensures_throw]
    exact emitted_one (authorized.recordOf _ _) timed rfl rfl rfl

theorem refuseWhen_emits (condition : Prop) [Decidable condition] (error : ContextError) :
    Bounds (emission parameters) (refuseWhen condition error) 0 0 fun _ => True :=
  bounds_throwIf

theorem verifyProfile_emits (rvf : List UInt8) (revision : Revision) :
    Bounds (emission parameters) (verifyProfile parameters rvf revision) 0 0 fun _ => True := by
  apply bounds_of_keeps
  intro here
  apply Ensures.permits
  exact verifyProfile_spec.mono (fun _ _ bound => bound.1) fun _ _ same => same

theorem onAuthority_emits {α : Type} (call : Call ContextError ContextAuthority α) :
    Bounds (emission parameters) (onAuthority call : RuntimeCall ρ κ α) 0 0 fun _ => True := by
  have kept : ∀ here authority, Emitted parameters 0 here
      ({ here with authority := authority } : ContextRuntime ρ κ) :=
    fun _ _ => ⟨⟨[], ⟨rfl, (append_nil _).symm⟩, Nat.le_refl _, fun _ member => by cases member⟩,
      rfl⟩
  intro here
  unfold onAuthority
  simp only [permits_onPart, permits_translate]
  intro outcome authority _
  cases outcome with
  | ok value => exact ⟨trivial, kept here authority⟩
  | error reason => exact kept here authority

theorem finish_emits {α : Type} (timed : authorized.timestampNs ≤ u64Max) (call : ResolverCall)
    (method : Call ContextError ρ α) (valid : α → Bool) :
    Bounds (emission parameters) (do
      let result ← ask call method
      checked parameters (valid result) authorized
      let _ ← complete parameters authorized
      return result) 1 1 fun _ => True :=
  ((ask_emits call method).bind fun result _ => (checked_emits timed (valid result)).bind fun _ _ =>
    (complete_emits timed).bind fun _ _ => bounds_done).mono
      (by decide) (by decide)

section Accesses

variable (clocked : ∀ clock, (parameters.timestampNs clock).1 ≤ u64Max)

include clocked

theorem authorized_emits {α : Type} {request : ContextRequest} {operation : ContextOperation}
    {rest : AuthorizedRequest → RuntimeCall ρ κ α}
    (each : ∀ authorized, authorized.timestampNs ≤ u64Max →
      Bounds (emission parameters) (rest authorized) 1 1 fun _ => True) :
    Bounds (emission parameters) (authorize parameters request operation >>= rest) 2 2
      fun _ => True :=
  ((authorize_emits clocked request operation).bind each).mono (by decide) (by decide)

theorem read_emits (request : ContextRequest) :
    Bounds (emission parameters) (read parameters request) 2 2 fun _ => True := by
  apply authorized_emits clocked
  intro authorized timed
  refine ((ask_emits _ _).bind fun result _ => (checked_emits timed _).bind fun _ _ =>
    (verifyProfile_emits _ _).bind fun profile _ => bounds_reading.translate.bind fun _ _ =>
      (complete_emits timed).bind fun _ _ => bounds_done).mono ?_ ?_
  · decide
  · decide

theorem verify_emits (request : ContextRequest) :
    Bounds (emission parameters) (verify parameters request) 2 2 fun _ => True := by
  apply authorized_emits clocked
  intro authorized timed
  refine ((ask_emits _ _).bind fun result _ => (checked_emits timed _).bind fun _ _ =>
    (verifyProfile_emits _ _).bind fun _ _ => (complete_emits timed).bind fun _ _ =>
      bounds_done).mono ?_ ?_
  · decide
  · decide

theorem authorizeExecute_emits (request : ContextRequest) :
    Bounds (emission parameters) (authorizeExecute parameters request) 2 2 fun _ => True := by
  apply authorized_emits clocked
  intro authorized timed
  refine ((ask_emits _ _).bind fun result _ => (checked_emits timed _).bind fun _ _ =>
    (verifyProfile_emits _ _).bind fun _ _ => (refuseWhen_emits _ _).bind fun _ _ =>
      (complete_emits timed).bind fun _ _ => bounds_done).mono ?_ ?_
  · decide
  · decide

theorem put_emits (request : ContextRequest) (rvf : List UInt8) :
    Bounds (emission parameters) (put parameters request rvf) 2 2 fun _ => True := by
  apply authorized_emits clocked
  intro authorized timed
  refine (bounds_orThrow.bind fun revision _ => (verifyProfile_emits _ _).bind fun _ _ =>
    finish_emits timed _ _ _).mono ?_ ?_
  · decide
  · decide

theorem grant_emits (fuel : Nat) (request : ContextRequest) (childScope : ContextScope)
    (requestedRights : CapRights) (targetOwner : PartitionId) :
    Bounds (emission parameters)
      (grant parameters fuel request childScope requestedRights targetOwner) 2 2 fun _ => True := by
  apply authorized_emits clocked
  intro authorized timed here
  rw [permits_bind, permits_get]
  refine (((onAuthority_emits _).bind fun _ _ => (complete_emits timed).bind fun _ _ =>
    bounds_done).mono ?_ ?_) here
  · decide
  · decide

theorem revoke_emits (fuel : Nat) (request : ContextRequest) :
    Bounds (emission parameters) (revoke parameters fuel request) 2 2 fun _ => True := by
  apply authorized_emits clocked
  intro authorized timed
  refine ((onAuthority_emits _).bind fun _ _ => (complete_emits timed).bind fun _ _ =>
    bounds_done).mono ?_ ?_
  · decide
  · decide

theorem serve_emits (fuel : Nat) (access : Access) (plain : access.operation ≠ .sealReceipt) :
    Bounds (emission parameters) (serve parameters fuel access) 2 2 fun _ => True := by
  have limited : ∀ {α : Type} {condition : Prop} [Decidable condition] {error : ContextError}
      {rest : RuntimeCall ρ κ α}, Bounds (emission parameters) rest 1 1 (fun _ => True) →
      Bounds (emission parameters) (refuseWhen condition error >>= fun _ => rest) 1 1
        fun _ => True :=
    fun bounds => ((refuseWhen_emits _ _).bind fun _ _ => bounds).mono (by decide) (by decide)
  cases access with
  | resolve request =>
    exact (authorized_emits clocked fun _ timed => finish_emits timed _ _ _).map
  | list request limit | tree request limit | history request limit
  | compareAndSwapAlias request expected nextRevision | forget request expected =>
    exact (authorized_emits clocked fun _ timed => limited (finish_emits timed _ _ _)).map
  | read request => exact (read_emits clocked request).map
  | search request query limit =>
    exact (authorized_emits clocked fun _ timed =>
      limited (limited (finish_emits timed _ _ _))).map
  | verify request => exact (verify_emits clocked request).map
  | put request rvf => exact (put_emits clocked request rvf).map
  | authorizeExecute request => exact (authorizeExecute_emits clocked request).map
  | grant request childScope requestedRights targetOwner =>
    exact (grant_emits clocked fuel request childScope requestedRights targetOwner).map
  | revoke request => exact (revoke_emits clocked fuel request).map
  | sealEpoch request arguments => exact (plain rfl).elim

theorem seal_emits (request : ContextRequest) (arguments : SealArguments) :
    (sealEpochTransactional parameters request arguments).Ensures here
      (fun _ next => ∃ records, Logs parameters here records next ∧ ∀ record ∈ records, Timed record)
      fun _ next => Emitted parameters 1 here next := by
  unfold sealEpochTransactional
  rw [ensures_bind]
  apply (authorize_decides clocked request .sealReceipt).weaken
  intro authorized mid ⟨_, emitted⟩
  simp only [ensures_bind, ensures_get, refuseWhen, ensures_throwIf, ensures_translate,
    ensures_orRefusal, ensures_orThrow, nextTimestamp, onWitness, emitRecord, ensures_onPart,
    ensures_set, ensures_modify, ensures_pure]
  refine ⟨fun _ => emitted, fun _ => ⟨fun _ => emitted, fun _ => ⟨?_, fun _ _ => emitted⟩⟩⟩
  rintro ⟨unsigned, nextCheckpoint⟩ _
  refine ⟨fun verified _ => ⟨fun _ _ => ⟨fun _ _ => ?_, fun _ _ => emitted⟩, fun _ => emitted⟩,
    fun _ _ => emitted⟩
  -- the record of the seal has the time of its own reading of the clock
  obtain ⟨records, logs, _, timed⟩ := emitted.logs
  refine ⟨_, logs.append rfl rfl, fun record member => ?_⟩
  rcases mem_append.mp member with earlier | last
  · exact timed record earlier
  · rw [mem_singleton.mp last]
    exact clocked _

end Accesses

theorem Logs.timed {records : List WitnessRecord} (logs : Logs parameters here records next)
    (earlier : ∀ record ∈ here.recorded, Timed record) (timed : ∀ record ∈ records, Timed record) :
    ∀ record ∈ next.recorded, Timed record := by
  have produced : ∀ (records : List WitnessRecord) (log : WitnessLog),
      (∀ record ∈ records, Timed record) →
      ∀ record ∈ log.produced parameters.witness.capacity parameters.witness.hasher
        (records.map .append), Timed record := by
    intro records
    induction records with
    | nil => exact fun _ _ _ member => by cases member
    | cons head rest ih =>
      intro log timed record member
      rcases mem_cons.mp member with first | later
      · rw [first]
        exact timed head mem_cons_self
      · exact ih _ (fun record among => timed record (mem_cons_of_mem _ among))
          record later
  rw [logs.recorded]
  intro record member
  rcases mem_append.mp member with before | after
  · exact earlier record before
  · exact produced records here.witness timed record after

end ContextRuntime

end Rvm.Context
