import Rvm.Wasm.Quota

/-!
Owns the resource quotas over runs: the amounts admitted since the counters last started,
and that usage agrees with them while no sum of CPU time leaves the `u64` range.
-/

namespace Rvm.Wasm

open Foundation Foundation.Call ResourceKind QuotaEntry

/-! ### Requests -/

inductive QuotaRequest where
  | register (partition : PartitionId) (quota : PartitionQuota)
  | checkAndRecordCpu (partition : PartitionId) (us : Nat)
  | checkAndRecordMemory (partition : PartitionId) (pages : Nat)
  | checkAndRecordIpc (partition : PartitionId)
  | resetEpochCounters
deriving DecidableEq

abbrev QuotaOutcome := Except RvmError Unit

namespace QuotaRequest

def charge : QuotaRequest → Option (ResourceKind × PartitionId × Nat)
  | .checkAndRecordCpu partition us => some (.cpu, partition, us)
  | .checkAndRecordMemory partition pages => some (.memory, partition, pages)
  | .checkAndRecordIpc partition => some (.ipc, partition, 1)
  | _ => none

def partition : QuotaRequest → Option PartitionId
  | .register partition _ => some partition
  | .checkAndRecordCpu partition _ => some partition
  | .checkAndRecordMemory partition _ => some partition
  | .checkAndRecordIpc partition => some partition
  | .resetEpochCounters => none

end QuotaRequest

/-- Whether a reset at the start of an epoch clears the counter. -/
def ResourceKind.perEpoch : ResourceKind → Bool
  | .cpu => true
  | .memory => false
  | .ipc => true

def admitCall (kind : ResourceKind) (partition : PartitionId) (sum : Nat) :
    QuotaRequest × QuotaOutcome → Nat
  | (_, .error _) => sum
  | (.register registered _, .ok _) => if registered = partition then 0 else sum
  | (.resetEpochCounters, .ok _) => if kind.perEpoch then 0 else sum
  | (request, .ok _) =>
    match request.charge with
    | some (charged, payer, amount) =>
      if charged = kind ∧ payer = partition then sum + amount else sum
    | none => sum

/-- The sum of the amounts admitted since the counter last started. -/
def admitted (kind : ResourceKind) (partition : PartitionId)
    (history : List (QuotaRequest × QuotaOutcome)) : Nat :=
  history.foldl (admitCall kind partition) 0

namespace QuotaTracker

def perform (checks : Bool) (tracker : QuotaTracker) : QuotaRequest →
    Option (QuotaOutcome × QuotaTracker)
  | .register partition quota => (register partition quota).runFrom tracker
  | .checkAndRecordCpu partition us => (checkAndRecordCpu checks partition us).runFrom tracker
  | .checkAndRecordMemory partition pages =>
    (checkAndRecordMemory checks partition pages).runFrom tracker
  | .checkAndRecordIpc partition => (checkAndRecordIpc checks partition).runFrom tracker
  | .resetEpochCounters => resetEpochCounters.runFrom tracker

def Step (checks : Bool) (here : QuotaTracker) (label : QuotaRequest × QuotaOutcome)
    (next : QuotaTracker) : Prop :=
  here.perform checks label.1 = some (label.2, next)

theorem perform_charge {checks : Bool} {tracker : QuotaTracker} {request : QuotaRequest}
    {kind : ResourceKind} {partition : PartitionId} {amount : Nat}
    (charges : request.charge = some (kind, partition, amount)) :
    tracker.perform checks request =
      (checkAndRecord checks kind partition amount).runFrom tracker := by
  cases request <;> cases charges <;> rfl

/-! ### Entries -/

variable {checks : Bool} {here next tracker : QuotaTracker} {entry old : QuotaEntry}
  {partition other : PartitionId} {kind otherKind : ResourceKind} {amount : Nat}

theorem partition_of_find (found : tracker.find partition = some entry) :
    entry.partition = partition := by
  have located := Option.join_eq_some_iff.mp found
  have named : partitionOf (some entry) = some partition := entryFor.keyOf_eq located
  exact Option.some.inj named

theorem entryFor_of_find (absent : tracker.find partition = none) :
    entryFor partitionOf tracker.quotas (some partition) = none := by
  cases located : entryFor partitionOf tracker.quotas (some partition) with
  | none => rfl
  | some slot =>
    have named := entryFor.keyOf_eq located
    cases slot with
    | none => cases named
    | some entry =>
      simp [find, located] at absent

theorem find_placed {slots : List (Option QuotaEntry)}
    (placed : entryFor partitionOf slots (some other) =
      if some other = partitionOf (some entry) then some (some entry)
      else entryFor partitionOf tracker.quotas (some other)) :
    (entryFor partitionOf slots (some other)).join =
      if other = entry.partition then some entry else tracker.find other := by
  rw [placed]
  by_cases same : other = entry.partition
  · have named : some other = partitionOf (some entry) := congrArg some same
    rw [if_pos named, if_pos same]
    rfl
  · have unnamed : some other ≠ partitionOf (some entry) := fun equal =>
      same (Option.some.inj equal)
    rw [if_neg unnamed, if_neg same]
    rfl

theorem find_write (found : tracker.find entry.partition = some old) :
    (tracker.write entry).find other =
      if other = entry.partition then some entry else tracker.find other := by
  unfold write
  split
  · rename_i nowhere
    rw [find, entryFor.none_of_index nowhere] at found
    cases found
  · rename_i index located
    exact find_placed (entryFor.set (some entry) located)

theorem find_reset :
    ({ tracker with quotas := tracker.quotas.map (Option.map reset) } :
      QuotaTracker).find partition = (tracker.find partition).map reset := by
  unfold find entryFor
  rw [List.find?_map]
  have sameName : (fun slot => decide (partitionOf slot = some partition)) ∘
      Option.map reset = fun slot => decide (partitionOf slot = some partition) := by
    funext slot
    cases slot <;> rfl
  rw [sameName]
  cases List.find? _ tracker.quotas with
  | none => rfl
  | some slot => rfl

/-! ### What each call does -/

theorem register_spec (quota : PartitionQuota) :
    (register partition quota).Ensures here
      (fun _ next => here.find partition = none ∧ ∀ other, next.find other =
        if other = partition then some ⟨partition, quota, .none⟩ else here.find other)
      fun _ next => next = here := by
  simp only [register, ensures_bind, ensures_get, ensures_throwIf, ensures_orThrow, ensures_set]
  refine ⟨fun _ => trivial, fun unknown => ⟨fun _ => trivial, fun _ =>
    ⟨fun index vacant => ?_, fun _ => trivial⟩⟩⟩
  have absent : here.find partition = none := by simpa using unknown
  exact ⟨absent, fun other => @find_placed here ⟨partition, quota, .none⟩ other _
    (entryFor.set_blank _ vacant (entryFor_of_find absent) (by simp))⟩

/-- The check compares a sum that is over the limit exactly when the true sum is. -/
def Judged (checks : Bool) (kind : ResourceKind) (entry : QuotaEntry) (amount : Nat) : Prop :=
  ∃ total, kind.total checks (kind.used entry.usage) amount = some total ∧
    (kind.limit entry.quota < total ↔ kind.limit entry.quota < kind.used entry.usage + amount)

def charged (kind : ResourceKind) (entry : QuotaEntry) (amount : Nat) : QuotaEntry :=
  { entry with usage := kind.record entry.usage amount }

/-- A record within a limit adds exactly, and to its own counter only. -/
theorem used_charged (fits : kind.used entry.usage + amount ≤ kind.limit entry.quota) :
    otherKind.used (charged kind entry amount).usage =
      if otherKind = kind then kind.used entry.usage + amount else otherKind.used entry.usage := by
  have cpu := entry.quota.cpu_le
  have memory := entry.quota.memory_le
  have ipc := entry.quota.ipc_le
  cases kind <;> cases otherKind <;>
    simp only [charged, record, used, limit,
      saturatingAdd64, saturatingAdd32, reduceCtorEq, if_true, if_false] at fits ⊢ <;>
    omega

/-! ### Sums out of range -/

/-- A request whose CPU time brings the counter to `2^64` or beyond, in a build that
panics there, or where the wrapped sum is within the quota. -/
def Misjudged (checks : Bool) (here : QuotaTracker) (request : QuotaRequest) : Prop :=
  ∃ partition us entry, request = .checkAndRecordCpu partition us ∧
    here.find partition = some entry ∧ 18446744073709551616 ≤ entry.usage.cpuUs + us ∧
    (checks = true ∨
      (entry.usage.cpuUs + us) % 18446744073709551616 ≤ entry.quota.maxCpuUsPerEpoch)

variable {request : QuotaRequest}

theorem judged_of_not_misjudged (charges : request.charge = some (kind, partition, amount))
    (sound : ¬Misjudged checks here request) (found : here.find partition = some entry) :
    Judged checks kind entry amount := by
  cases request <;> cases charges
  · have bound := entry.quota.cpu_le
    unfold u64Max at bound
    by_cases fits : entry.usage.cpuUs + amount < 18446744073709551616
    · exact ⟨_, plainAdd_of_lt fits, Iff.rfl⟩
    · have beyond := Nat.not_lt.mp fits
      have unchecked : checks = false := by
        by_contra checked
        exact sound ⟨_, _, entry, rfl, found, beyond, .inl (by simpa using checked)⟩
      have exceeds : ¬(entry.usage.cpuUs + amount) % 18446744073709551616 ≤
          entry.quota.maxCpuUsPerEpoch := fun within =>
        sound ⟨_, _, entry, rfl, found, beyond, .inr within⟩
      refine ⟨_, (plainAdd_of_le beyond).trans (by rw [unchecked]; rfl), ?_⟩
      show entry.quota.maxCpuUsPerEpoch < _ ↔ entry.quota.maxCpuUsPerEpoch < entry.usage.cpuUs + _
      omega
  · exact ⟨_, rfl, Iff.rfl⟩
  · exact ⟨_, rfl, Iff.rfl⟩

theorem charge_spec (charges : request.charge = some (kind, partition, amount))
    (sound : ¬Misjudged checks here request) :
    (checkAndRecord checks kind partition amount).Ensures here
      (fun _ next => ∃ entry, here.find partition = some entry ∧
        kind.used entry.usage + amount ≤ kind.limit entry.quota ∧
        next = here.write (charged kind entry amount))
      fun reason next => next = here ∧ match here.find partition with
        | none => reason = .partitionNotFound
        | some entry => reason = .resourceLimitExceeded ∧
            kind.limit entry.quota < kind.used entry.usage + amount := by
  simp only [checkAndRecord, ensures_bind, ensures_get, ensures_throwIf, ensures_orThrow,
    ensures_orPanic, ensures_set]
  constructor
  · intro entry found
    obtain ⟨total, sum, alike⟩ := judged_of_not_misjudged charges sound found
    simp only [found, sum, Option.some.injEq, exists_eq_left']
    exact ⟨fun beyond => ⟨trivial, trivial, alike.mp beyond⟩,
      fun fits => ⟨Nat.not_lt.mp fun beyond => fits (alike.mpr beyond), rfl⟩⟩
  · intro absent
    simp only [absent]
    exact ⟨trivial, trivial⟩

theorem find_charged (found : here.find partition = some entry) :
    (here.write (charged kind entry amount)).find other =
      if other = partition then some (charged kind entry amount) else here.find other := by
  obtain rfl := partition_of_find found
  exact @find_write here (charged kind entry amount) entry other found

/-! ### The law of one call -/

/-- What is asked of a call, in the state before it. -/
structure Lawful (checks : Bool) (here : QuotaTracker) (request : QuotaRequest) : Prop where
  returns : here.perform checks request ≠ none
  refused : ∀ reason next, here.perform checks request = some (.error reason, next) → next = here
  exact : ∀ kind partition amount entry, request.charge = some (kind, partition, amount) →
    here.find partition = some entry →
      ((∃ next, here.perform checks request = some (.error .resourceLimitExceeded, next)) ↔
        kind.limit entry.quota < kind.used entry.usage + amount)
  recorded : ∀ kind partition amount next, request.charge = some (kind, partition, amount) →
    here.perform checks request = some (.ok ⟨⟩, next) →
      ∃ before after, here.find partition = some before ∧ next.find partition = some after ∧
        after.quota = before.quota ∧ ∀ other, other.used after.usage =
          if other = kind then kind.used before.usage + amount else other.used before.usage
  others : ∀ partition outcome next, request.partition = some partition →
    here.perform checks request = some (outcome, next) →
      ∀ other, other ≠ partition → next.find other = here.find other

theorem charge_partition (charges : request.charge = some (kind, partition, amount)) :
    request.partition = some partition := by
  cases request <;> cases charges <;> rfl

theorem lawful_charge (charges : request.charge = some (kind, partition, amount))
    (sound : ¬Misjudged checks here request) : Lawful checks here request := by
  have spec := charge_spec charges sound
  unfold Ensures at spec
  have performed := @perform_charge checks here request _ _ _ charges
  cases ran : (checkAndRecord checks kind partition amount).runFrom here with
  | none => simp [ran] at spec
  | some pair =>
    obtain ⟨outcome, next⟩ := pair
    rw [ran] at spec performed
    cases outcome with
    | error reason =>
      obtain ⟨rfl, why⟩ := spec
      constructor
      · simp [performed]
      · intro _ _ again
        rw [performed] at again
        exact (congrArg Prod.snd (Option.some.inj again)).symm
      · intro _ _ _ entry again found
        cases charges.symm.trans again
        rw [found] at why
        obtain ⟨rfl, beyond⟩ := why
        exact iff_of_true ⟨_, performed⟩ beyond
      · intro _ _ _ _ _ again
        rw [performed] at again
        cases again
      · intro _ _ _ _ again other _
        rw [performed] at again
        cases again
        rfl
    | ok value =>
      obtain ⟨before, located, fits, rfl⟩ := spec
      constructor
      · simp [performed]
      · intro _ _ again
        rw [performed] at again
        cases again
      · intro _ _ _ entry again found
        cases charges.symm.trans again
        cases located.symm.trans found
        refine iff_of_false ?_ (Nat.not_lt.mpr fits)
        rintro ⟨_, refused⟩
        rw [performed] at refused
        cases refused
      · intro _ _ _ _ again ran
        cases charges.symm.trans again
        rw [performed] at ran
        cases ran
        refine ⟨before, charged kind before amount, located, ?_, rfl, fun other => ?_⟩
        · rw [find_charged located, if_pos rfl]
        · exact used_charged fits
      · intro _ _ _ named ran other different
        cases named.symm.trans (charge_partition charges)
        rw [performed] at ran
        cases ran
        rw [find_charged located, if_neg different]

theorem lawful_register (quota : PartitionQuota) :
    Lawful checks here (.register partition quota) := by
  have spec := @register_spec here partition quota
  unfold Ensures at spec
  cases ran : (register partition quota).runFrom here with
  | none => simp [ran] at spec
  | some pair =>
    obtain ⟨outcome, next⟩ := pair
    rw [ran] at spec
    have performed : here.perform checks (.register partition quota) = some (outcome, next) := ran
    constructor
    · simp [performed]
    · intro reason _ again
      rw [performed] at again
      cases again
      exact spec
    · exact fun _ _ _ _ charges => nomatch charges
    · exact fun _ _ _ _ charges => nomatch charges
    · intro _ _ _ named again other different
      obtain rfl := Option.some.inj named
      rw [performed] at again
      cases again
      cases outcome with
      | error reason => rw [show next = here from spec]
      | ok value => rw [spec.2 other, if_neg different]

theorem lawful_reset : Lawful checks here .resetEpochCounters where
  returns := nofun
  refused := nofun
  exact := nofun
  recorded := nofun
  others := nofun

theorem lawful_iff (request : QuotaRequest) :
    Lawful checks here request ↔ ¬Misjudged checks here request := by
  constructor
  · rintro lawful ⟨partition, us, entry, rfl, found, beyond, wrong⟩
    have bound := entry.quota.cpu_le
    unfold u64Max at bound
    have exceeds : entry.quota.maxCpuUsPerEpoch < entry.usage.cpuUs + us := by omega
    obtain ⟨next, refused⟩ := (lawful.exact .cpu partition us entry rfl found).mpr exceeds
    have spec : (checkAndRecord checks .cpu partition us).Ensures here (fun _ _ => False)
        fun _ _ => True := by
      rw [Ensures, show (checkAndRecord checks .cpu partition us).runFrom here = _ from refused]
      trivial
    simp only [checkAndRecord, ensures_bind, ensures_get, ensures_throwIf, ensures_orThrow,
      ensures_orPanic, ensures_set] at spec
    obtain ⟨total, sum, fits⟩ := spec.1 entry found
    rw [ResourceKind.total, ResourceKind.used, plainAdd_of_le beyond] at sum
    cases checked : checks with
    | true => simp [checked] at sum
    | false =>
      rw [checked] at sum wrong
      obtain rfl := Option.some.inj sum
      exact fits.2 (Nat.not_lt.mpr (wrong.resolve_left (by simp)))
  · intro sound
    cases request with
    | register partition quota => exact lawful_register quota
    | checkAndRecordCpu partition us | checkAndRecordMemory partition pages
    | checkAndRecordIpc partition => exact lawful_charge rfl sound
    | resetEpochCounters => exact lawful_reset

/-! ### Runs -/

def registered (partition : PartitionId) (history : List (QuotaRequest × QuotaOutcome)) :
    Option PartitionQuota :=
  history.foldl (fun quota label =>
    match label with
    | (.register named given, .ok _) => if named = partition then some given else quota
    | _ => quota) none

structure Metered (history : List (QuotaRequest × QuotaOutcome)) (tracker : QuotaTracker) :
    Prop where
  quota : ∀ partition, (tracker.find partition).map (·.quota) = registered partition history
  admitted : ∀ partition entry, tracker.find partition = some entry → ∀ kind : ResourceKind,
    kind.used entry.usage = admitted kind partition history
  within : ∀ partition entry, tracker.find partition = some entry → ∀ kind : ResourceKind,
    kind.used entry.usage ≤ kind.limit entry.quota
  agents : ∀ partition entry, tracker.find partition = some entry → entry.usage.agentCount = 0

variable {history : List (QuotaRequest × QuotaOutcome)}

theorem admitted_snoc (label : QuotaRequest × QuotaOutcome) :
    admitted kind partition (history ++ [label]) =
      admitCall kind partition (admitted kind partition history) label := by
  rw [Wasm.admitted, List.foldl_append]
  rfl

theorem Metered.refused (metered : Metered history here) (request : QuotaRequest)
    (reason : RvmError) : Metered (history ++ [(request, .error reason)]) here where
  quota partition := by
    rw [metered.quota, registered, registered, List.foldl_append]
    cases request <;> rfl
  admitted partition entry found kind := by
    rw [metered.admitted _ _ found, admitted_snoc, admitCall]
  within := metered.within
  agents := metered.agents

/-- In a table with one new entry, an entry that is found is that one or an earlier one. -/
theorem located_cases {held : QuotaEntry}
    (found : next.find other = if other = partition then some entry else here.find other)
    (located : next.find other = some held) :
    other = partition ∧ held = entry ∨ other ≠ partition ∧ here.find other = some held := by
  rw [found] at located
  split at located
  · next same => exact .inl ⟨same, (Option.some.inj located).symm⟩
  · next different => exact .inr ⟨different, located⟩

theorem Metered.register (metered : Metered history here) (quota : PartitionQuota)
    (found : ∀ other, next.find other =
      if other = partition then some ⟨partition, quota, .none⟩ else here.find other) :
    Metered (history ++ [(.register partition quota, .ok ⟨⟩)]) next := by
  constructor
  · intro other
    have before := metered.quota other
    rw [registered] at before ⊢
    rw [found, List.foldl_append, ← before]
    by_cases same : other = partition
    · simp [same]
    · simp [same, Ne.symm same]
  · intro other entry located kind
    rw [admitted_snoc, admitCall]
    rcases located_cases (found other) located with ⟨same, rfl⟩ | ⟨different, earlier⟩
    · rw [if_pos same.symm]
      cases kind <;> rfl
    · rw [if_neg different.symm, metered.admitted _ _ earlier]
  · intro other entry located kind
    rcases located_cases (found other) located with ⟨_, rfl⟩ | ⟨_, earlier⟩
    · cases kind <;> exact Nat.zero_le _
    · exact metered.within _ _ earlier kind
  · intro other entry located
    rcases located_cases (found other) located with ⟨_, rfl⟩ | ⟨_, earlier⟩
    · rfl
    · exact metered.agents _ _ earlier

theorem admit_charge {sum : Nat} (charges : request.charge = some (kind, partition, amount)) :
    admitCall otherKind other sum (request, .ok ⟨⟩) =
      if kind = otherKind ∧ partition = other then sum + amount else sum := by
  cases request <;> cases charges <;> rfl

theorem registered_charge (charges : request.charge = some (kind, partition, amount))
    (outcome : QuotaOutcome) :
    registered other (history ++ [(request, outcome)]) = registered other history := by
  rw [registered, registered, List.foldl_append]
  cases request <;> cases charges <;> cases outcome <;> rfl

theorem Metered.charge (metered : Metered history here)
    (charges : request.charge = some (kind, partition, amount))
    (found : here.find partition = some entry)
    (fits : kind.used entry.usage + amount ≤ kind.limit entry.quota) :
    Metered (history ++ [(request, .ok ⟨⟩)]) (here.write (charged kind entry amount)) := by
  constructor
  · intro other
    rw [registered_charge charges, ← metered.quota, find_charged found]
    by_cases same : other = partition
    · rw [if_pos same, same, found]
      rfl
    · rw [if_neg same]
  · intro other held located otherKind
    rw [admitted_snoc, admit_charge charges]
    rcases located_cases (find_charged found) located with ⟨same, rfl⟩ | ⟨different, earlier⟩
    · rw [used_charged fits, same]
      by_cases own : otherKind = kind
      · rw [if_pos own, own, if_pos ⟨rfl, rfl⟩, metered.admitted _ _ found]
      · rw [if_neg own, if_neg fun both => own both.1.symm, metered.admitted _ _ found]
    · rw [if_neg fun both => different both.2.symm, metered.admitted _ _ earlier]
  · intro other held located otherKind
    rcases located_cases (find_charged found) located with ⟨_, rfl⟩ | ⟨_, earlier⟩
    · rw [used_charged fits]
      by_cases own : otherKind = kind
      · rw [if_pos own, own]
        exact fits
      · rw [if_neg own]
        exact metered.within _ _ found otherKind
    · exact metered.within _ _ earlier otherKind
  · intro other held located
    rcases located_cases (find_charged found) located with ⟨_, rfl⟩ | ⟨_, earlier⟩
    · have before := metered.agents _ _ found
      cases kind <;> exact before
    · exact metered.agents _ _ earlier

theorem used_reset : kind.used entry.reset.usage =
    if kind.perEpoch then 0 else kind.used entry.usage := by
  cases kind <;> rfl

theorem Metered.reset (metered : Metered history here) :
    Metered (history ++ [(.resetEpochCounters, .ok ⟨⟩)])
      { here with quotas := here.quotas.map (Option.map reset) } := by
  constructor
  · intro partition
    rw [find_reset, Option.map_map]
    have before := metered.quota partition
    rw [registered] at before ⊢
    rw [List.foldl_append, ← before]
    rfl
  · intro partition entry found kind
    rw [find_reset] at found
    obtain ⟨before, located, rfl⟩ := Option.map_eq_some_iff.mp found
    rw [used_reset, admitted_snoc, admitCall, metered.admitted _ _ located]
  · intro partition entry found kind
    rw [find_reset] at found
    obtain ⟨before, located, rfl⟩ := Option.map_eq_some_iff.mp found
    rw [used_reset]
    split
    · exact Nat.zero_le _
    · exact metered.within _ _ located kind
  · intro partition entry found
    rw [find_reset] at found
    obtain ⟨before, located, rfl⟩ := Option.map_eq_some_iff.mp found
    exact metered.agents partition before located

theorem Metered.step (metered : Metered history here) {label : QuotaRequest × QuotaOutcome}
    (step : Step checks here label next) (sound : ¬Misjudged checks here label.1) :
    Metered (history ++ [label]) next := by
  obtain ⟨request, outcome⟩ := label
  cases outcome with
  | error reason =>
    obtain rfl := ((lawful_iff request).mpr sound).refused reason next step
    exact metered.refused request reason
  | ok value =>
    cases charges : request.charge with
    | some pair =>
      obtain ⟨kind, partition, amount⟩ := pair
      have spec := charge_spec charges sound
      rw [Ensures, ← perform_charge charges, show _ = _ from step] at spec
      obtain ⟨entry, found, fits, rfl⟩ := spec
      exact metered.charge charges found fits
    | none =>
      cases request with
      | register partition quota =>
        have spec := @register_spec here partition quota
        rw [Ensures, show (QuotaTracker.register partition quota).runFrom here = _ from step] at spec
        exact metered.register quota spec.2
      | resetEpochCounters =>
        cases step
        exact metered.reset
      | _ => cases charges

def sampleQuota : PartitionQuota := ⟨10, 4, 2, 1, by decide, by decide, by decide⟩

def sampleHistory : List (QuotaRequest × QuotaOutcome) :=
  [(.register ⟨1⟩ sampleQuota, .ok ⟨⟩), (.checkAndRecordCpu ⟨1⟩ 1, .ok ⟨⟩)]

def sampleRegistered : QuotaTracker := ⟨[some ⟨⟨1⟩, sampleQuota, .none⟩], 1⟩

def sampleTracker : QuotaTracker := ⟨[some ⟨⟨1⟩, sampleQuota, ⟨1, 0, 0, 0⟩⟩], 1⟩

theorem sampleRun (checks : Bool) :
    Run (Guarded (Step checks) fun here label => ¬Misjudged checks here label.1) (new 1)
      sampleHistory sampleTracker := by
  have registered : Step checks (new 1) (.register ⟨1⟩ sampleQuota, .ok ⟨⟩) sampleRegistered := rfl
  have charged : Step checks sampleRegistered (.checkAndRecordCpu ⟨1⟩ 1, .ok ⟨⟩) sampleTracker :=
    rfl
  refine (Run.single ⟨registered, ?_⟩).snoc ⟨charged, ?_⟩
  · rintro ⟨_, _, entry, same, found, beyond, _⟩
    cases same
    cases found
    exact absurd beyond (by decide)
  · rintro ⟨_, _, _, same, _⟩
    cases same

end QuotaTracker

end Rvm.Wasm
