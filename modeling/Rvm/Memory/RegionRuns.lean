import Rvm.Foundation.Slots
import Rvm.Memory.Region

/-!
Owns the bookkeeping of the region manager over runs that mix explicit and automatic
identifiers, while none in use is taken again. The run that breaks this stands at the end.
-/

namespace Rvm.Memory

open Foundation Function RegionManager

inductive RegionReply where
  | created (regionId : Nat)
  | destroyed (region : OwnedRegion)
  | transferred
deriving DecidableEq, Repr

abbrev RegionOutcome := Except RvmError RegionReply

/-- What an event does to the regions that a caller knows by their identifiers. -/
def RegionCall.record (directory : Nat → Option OwnedRegion) :
    RegionCall × RegionOutcome → Nat → Option OwnedRegion
  | (.create config, .ok _) => update directory config.id (some config.toRegion)
  | (.createAutoId owner guestBase hostBase pageCount tier permissions, .ok (.created id)) =>
    update directory id
      (some ⟨id, owner, guestBase, hostBase, pageCount, tier, permissions, true⟩)
  | (.destroy regionId, .ok _) => update directory regionId none
  | (.transfer regionId newOwner, .ok _) =>
    update directory regionId
      ((directory regionId).map fun region => { region with owner := newOwner })
  | _ => directory

/-- The region most recently created under each identifier and not destroyed since, with
the owner it was last transferred to. -/
def latest (history : List (RegionCall × RegionOutcome)) : Nat → Option OwnedRegion :=
  history.foldl RegionCall.record fun _ => none

theorem latest_snoc (history : List (RegionCall × RegionOutcome))
    (event : RegionCall × RegionOutcome) :
    latest (history ++ [event]) = RegionCall.record (latest history) event := by
  simp [latest]

namespace RegionManager

def call (MAX : Nat) (manager : RegionManager) : RegionCall → RegionOutcome × RegionManager
  | .create config => (manager.create MAX config).map (Except.map .created) id
  | .createAutoId owner guestBase hostBase pageCount tier permissions =>
    (manager.createAutoId MAX owner guestBase hostBase pageCount tier permissions).map
      (Except.map .created) id
  | .destroy regionId => (manager.destroy MAX regionId).map (Except.map .destroyed) id
  | .transfer regionId newOwner =>
    (manager.transfer MAX regionId newOwner).map (Except.map fun _ => .transferred) id

def Event (MAX : Nat) (manager : RegionManager) (event : RegionCall × RegionOutcome)
    (next : RegionManager) : Prop :=
  manager.call MAX event.1 = (event.2, next)

variable {MAX regionId idx : Nat} {manager next : RegionManager} {config : RegionConfig}
  {directory : Nat → Option OwnedRegion}

theorem event_functional (here : RegionManager) (event : RegionCall × RegionOutcome)
    (left right : RegionManager) (first : Event MAX here event left)
    (second : Event MAX here event right) : left = right :=
  congrArg Prod.snd (Eq.trans (Eq.symm first) second)

theorem step_of_event {event : RegionCall × RegionOutcome}
    (happened : Event MAX manager event next) :
    Step MAX manager event.1 next := by
  have after := congrArg Prod.snd happened
  obtain ⟨call, outcome⟩ := event
  cases call with
  | create _ | createAutoId _ _ _ _ _ _ | destroy _ | transfer _ _ => exact after

/-- What `create` checks of a configuration. -/
structure Admits (MAX : Nat) (manager : RegionManager) (config : RegionConfig) : Prop where
  guestAligned : isPageAligned config.guestBase = true
  hostAligned : isPageAligned config.hostBase = true
  positive : config.pageCount ≠ 0
  room : manager.count < MAX
  apart : ∀ i, i < MAX → (manager.regions i).occupied = true →
    conflicts config (manager.regions i) = false

def Fresh (MAX : Nat) (manager : RegionManager) (call : RegionCall) : Prop :=
  ∀ config, manager.requested call = some config → Admits MAX manager config →
    ∀ i, i < MAX → (manager.regions i).occupied = true → (manager.regions i).id ≠ config.id

theorem scanSlots_eq {regions : Nat → OwnedRegion} {indices : List Nat}
    (apart : ∀ i ∈ indices, (regions i).occupied = true → conflicts config (regions i) = false)
    (free : Option Nat) : scanSlots config regions indices free =
      .ok (free.or (indices.find? fun i => !(regions i).occupied)) := by
  induction indices generalizing free with
  | nil => simp [scanSlots]
  | cons i rest ih =>
    have later := ih fun j member => apart j (List.mem_cons_of_mem i member)
    unfold scanSlots
    cases inUse : (regions i).occupied with
    | false =>
      simp only [Bool.not_false, if_true]
      rw [later]
      cases free with
      | none => simp [inUse]
      | some slot => simp
    | true =>
      have noConflict := apart i List.mem_cons_self inUse
      simp only [noConflict]
      rw [List.find?_cons_of_neg (by simp [inUse])]
      simpa using later free

theorem createSlot_isOk_iff
    (counted : manager.count = occupied MAX fun i => (manager.regions i).occupied) :
    (∃ idx, manager.createSlot MAX config = .ok idx) ↔ Admits MAX manager config := by
  constructor
  · intro ⟨idx, cleared⟩
    have checked := createSlot_spec cleared
    simp only [createSlot] at cleared
    split at cleared
    · cases cleared
    · next guestAligned =>
        split at cleared
        · cases cleared
        · next hostAligned =>
            split at cleared
            · cases cleared
            · next positive =>
                split at cleared
                · cases cleared
                · next room =>
                    exact ⟨by simpa using guestAligned, by simpa using hostAligned, positive,
                      Nat.not_le.mp room, checked.2.2.2⟩
  · intro admitted
    obtain ⟨i, below, isFree⟩ := exists_free (counted ▸ admitted.room)
    have scanned := scanSlots_eq
      (fun i (member : i ∈ List.range MAX) => admitted.apart i (List.mem_range.mp member)) none
    cases found : (List.range MAX).find? fun i => !(manager.regions i).occupied with
    | none =>
      have inUse := List.find?_eq_none.mp found i (List.mem_range.mpr below)
      simp [isFree] at inUse
    | some idx =>
      rw [found] at scanned
      refine ⟨idx, ?_⟩
      rw [createSlot, if_neg (by simp [admitted.guestAligned]),
        if_neg (by simp [admitted.hostAligned]), if_neg admitted.positive,
        if_neg (Nat.not_le.mpr admitted.room), scanned]
      rfl

/-- The table agrees with the directory of its callers. -/
structure Bookkept (MAX : Nat) (directory : Nat → Option OwnedRegion) (manager : RegionManager) :
    Prop where
  distinct : Distinct MAX OwnedRegion.occupied OwnedRegion.id manager.regions
  counted : manager.count = occupied MAX fun i => (manager.regions i).occupied
  found : manager.get MAX = directory

/-- One region of the table becomes another, and every other slot stays as it is. -/
def Replaces (MAX : Nat) (manager next : RegionManager) (region changed : OwnedRegion) : Prop :=
  ∃ i, i < MAX ∧ manager.regions i = region ∧
    next.regions = update manager.regions i changed

def ActsOn (MAX : Nat) (directory : Nat → Option OwnedRegion) (manager next : RegionManager) :
    RegionCall × RegionOutcome → Prop
  | (.destroy regionId, .ok reply) => ∃ region, directory regionId = some region ∧
      reply = .destroyed region ∧ Replaces MAX manager next region .empty
  | (.destroy regionId, .error e) =>
    e = .partitionNotFound ∧ directory regionId = none ∧ next = manager
  | (.transfer regionId newOwner, .ok _) => ∃ region, directory regionId = some region ∧
      Replaces MAX manager next region { region with owner := newOwner }
  | (.transfer regionId _, .error e) =>
    (e = .partitionNotFound ↔ directory regionId = none) ∧ next = manager
  | _ => True

theorem get_eq_lookup :
    manager.get MAX = lookup MAX OwnedRegion.occupied OwnedRegion.id manager.regions := rfl

theorem bookkept_new (MAX : Nat) : Bookkept MAX (latest []) .new where
  distinct := fun _ _ _ _ held => by cases held
  counted := occupied_none.symm
  found := by
    funext regionId
    rw [get_eq_lookup]
    exact lookup_eq_none_iff.mpr fun _ _ held => by cases held

theorem Bookkept.findSlot_spec (bookkept : Bookkept MAX directory manager)
    (found : manager.findSlot MAX regionId = some idx) :
    idx < MAX ∧ (manager.regions idx).occupied = true ∧ (manager.regions idx).id = regionId ∧
      directory regionId = some (manager.regions idx) := by
  obtain ⟨below, inUse, sameId⟩ := bookkept.distinct.find_eq_some_iff.mp found
  refine ⟨below, inUse, sameId, ?_⟩
  rw [← bookkept.found, get, found]
  rfl

theorem Bookkept.directory_eq_none (bookkept : Bookkept MAX directory manager)
    (missing : manager.findSlot MAX regionId = none) : directory regionId = none := by
  rw [← bookkept.found, get, missing]
  rfl

theorem Bookkept.created (bookkept : Bookkept MAX directory manager)
    (fresh : ∀ i, i < MAX → (manager.regions i).occupied = true →
      (manager.regions i).id ≠ config.id)
    (cleared : manager.createSlot MAX config = .ok idx) :
    Bookkept MAX (update directory config.id (some config.toRegion))
      (manager.create MAX config).2 := by
  obtain ⟨below, isFree, -, -⟩ := createSlot_spec cleared
  have distinct : Distinct MAX OwnedRegion.occupied OwnedRegion.id
      (update manager.regions idx config.toRegion) :=
    bookkept.distinct.update fun _ j jBelow _ jHeld => fresh j jBelow jHeld
  rw [create, cleared]
  constructor
  · exact distinct
  · exact (congrArg (· + 1) bookkept.counted).trans
      (@occupied_update _ _ _ _ OwnedRegion.occupied _ below isFree rfl).symm
  · rw [← bookkept.found]
    exact bookkept.distinct.lookup_update distinct below rfl fun inUse => by simp [isFree] at inUse

theorem Bookkept.destroyed (bookkept : Bookkept MAX directory manager)
    (found : manager.findSlot MAX regionId = some idx) :
    Bookkept MAX (update directory regionId none) (manager.destroy MAX regionId).2 := by
  obtain ⟨below, inUse, sameId, -⟩ := bookkept.findSlot_spec found
  rw [destroy, found]
  constructor
  · exact bookkept.distinct.update nofun
  · have cleared := @occupied_erase _ MAX idx manager.regions OwnedRegion.occupied .empty below
      inUse rfl
    have counted := bookkept.counted
    dsimp only
    omega
  · rw [← bookkept.found, ← sameId]
    exact bookkept.distinct.lookup_erase below inUse rfl

theorem Bookkept.changed (bookkept : Bookkept MAX directory manager) {region : OwnedRegion}
    (below : idx < MAX) (inUse : (manager.regions idx).occupied = true)
    (stays : region.occupied = true) (sameId : region.id = (manager.regions idx).id) :
    Bookkept MAX (update directory region.id (some region))
      { manager with regions := update manager.regions idx region } := by
  have distinct := bookkept.distinct.replace below inUse sameId
  constructor
  · exact distinct
  · refine bookkept.counted.trans (occupied_congr fun j _ => ?_).symm
    dsimp only
    by_cases here : j = idx
    · rw [here, update_self, stays, inUse]
    · rw [update_of_ne here]
  · rw [← bookkept.found]
    exact bookkept.distinct.lookup_update distinct below stays fun _ => sameId.symm

theorem Bookkept.event (bookkept : Bookkept MAX directory manager)
    {event : RegionCall × RegionOutcome} (fresh : Fresh MAX manager event.1)
    (happened : Event MAX manager event next) :
    Bookkept MAX (RegionCall.record directory event) next ∧
      ActsOn MAX directory manager next event := by
  obtain ⟨call, outcome⟩ := event
  cases call with
  | create config =>
    refine ⟨?_, trivial⟩
    cases cleared : manager.createSlot MAX config with
    | error e =>
      simp only [Event, call, create, cleared] at happened
      cases happened
      exact bookkept
    | ok idx =>
      have admitted := (createSlot_isOk_iff bookkept.counted).mp ⟨idx, cleared⟩
      have created := bookkept.created (fresh config rfl admitted) cleared
      simp only [create, cleared] at created
      simp only [Event, call, create, cleared] at happened
      cases happened
      exact created
  | createAutoId owner guestBase hostBase pageCount tier permissions =>
    refine ⟨?_, ?_⟩
    · have bumped : Bookkept MAX directory manager.bumpId :=
        ⟨bookkept.distinct, bookkept.counted, bookkept.found⟩
      generalize isRequested : (⟨manager.nextId, owner, guestBase, hostBase, pageCount, tier,
        permissions⟩ : RegionConfig) = config at *
      cases cleared : manager.bumpId.createSlot MAX config with
      | error e =>
        simp only [Event, call, createAutoId, isRequested, create, cleared]
          at happened
        cases happened
        exact bumped
      | ok idx =>
        have admitted := (createSlot_isOk_iff bumped.counted).mp ⟨idx, cleared⟩
        have sameChecks : Admits MAX manager config :=
          ⟨admitted.guestAligned, admitted.hostAligned, admitted.positive, admitted.room,
            admitted.apart⟩
        have created := bumped.created
          (fresh config (congrArg some isRequested) sameChecks) cleared
        simp only [create, cleared] at created
        simp only [Event, call, createAutoId, isRequested, create, cleared]
          at happened
        cases happened
        subst isRequested
        exact created
    · cases outcome with
      | ok _ => trivial
      | error _ => trivial
  | destroy regionId =>
    cases found : manager.findSlot MAX regionId with
    | none =>
      simp only [Event, call, destroy, found] at happened
      cases happened
      exact ⟨bookkept, rfl, bookkept.directory_eq_none found, rfl⟩
    | some idx =>
      obtain ⟨below, -, -, known⟩ := bookkept.findSlot_spec found
      have destroyed := bookkept.destroyed found
      simp only [destroy, found] at destroyed
      simp only [Event, call, destroy, found] at happened
      cases happened
      exact ⟨destroyed, _, known, rfl, idx, below, rfl, rfl⟩
  | transfer regionId newOwner =>
    cases found : manager.findSlot MAX regionId with
    | none =>
      simp only [Event, call, transfer, found] at happened
      cases happened
      exact ⟨bookkept, ⟨fun _ => bookkept.directory_eq_none found, fun _ => rfl⟩, rfl⟩
    | some idx =>
      obtain ⟨below, inUse, sameId, known⟩ := bookkept.findSlot_spec found
      simp only [Event, call, transfer, found] at happened
      split at happened
      · cases happened
        exact ⟨bookkept, by simp [known], rfl⟩
      · cases happened
        refine ⟨?_, _, known, idx, below, rfl, rfl⟩
        show Bookkept MAX (update directory regionId
          ((directory regionId).map fun region => { region with owner := newOwner })) _
        have changed : Bookkept MAX _ _ :=
          @Bookkept.changed _ _ _ _ bookkept { manager.regions idx with owner := newOwner }
            below inUse inUse rfl
        rw [known, ← sameId]
        exact changed

variable {history : List (RegionCall × RegionOutcome)} {final : RegionManager}

theorem bookkept_run (run : Run (Event MAX) new history final)
    (fresh : ∀ first event rest here, history = first ++ event :: rest →
      Run (Event MAX) new first here → Fresh MAX here event.1) :
    Bookkept MAX (latest history) final := by
  induction run with
  | nil => exact bookkept_new MAX
  | @snoc labels last middle final before happened ih =>
    have earlier := ih fun first event rest here split run =>
      fresh first event (rest ++ [last]) here (by simp [split]) run
    rw [latest_snoc]
    exact (earlier.event (fresh labels last [] middle rfl before) happened).1

theorem not_distinct_of_created {i : Nat}
    (counted : manager.count = occupied MAX fun i => (manager.regions i).occupied)
    (admitted : Admits MAX manager config) (below : i < MAX)
    (inUse : (manager.regions i).occupied = true) (sameId : (manager.regions i).id = config.id) :
    ¬ Distinct MAX OwnedRegion.occupied OwnedRegion.id (manager.create MAX config).2.regions := by
  obtain ⟨idx, cleared⟩ := (createSlot_isOk_iff counted).mpr admitted
  obtain ⟨idxBelow, isFree, -, -⟩ := createSlot_spec cleared
  have apart : i ≠ idx := by
    intro same
    simp [← same, inUse] at isFree
  simp only [create, cleared]
  intro distinct
  apply apart
  apply distinct i idx below idxBelow
  · rwa [update_of_ne apart]
  · rw [update_self]
    rfl
  · rw [update_of_ne apart, update_self]
    exact sameId

theorem fresh_of_distinct {event : RegionCall × RegionOutcome}
    (counted : manager.count = occupied MAX fun i => (manager.regions i).occupied)
    (happened : Event MAX manager event next)
    (distinct : Distinct MAX OwnedRegion.occupied OwnedRegion.id next.regions) :
    Fresh MAX manager event.1 := by
  intro config isRequested admitted i below inUse sameId
  have after := step_of_event happened
  obtain ⟨call, outcome⟩ := event
  cases call with
  | create _ =>
    cases isRequested
    subst after
    exact not_distinct_of_created counted admitted below inUse sameId distinct
  | createAutoId _ _ _ _ _ _ =>
    cases isRequested
    subst after
    have bumped : Admits MAX manager.bumpId _ :=
      ⟨admitted.guestAligned, admitted.hostAligned, admitted.positive, admitted.room,
        admitted.apart⟩
    exact @not_distinct_of_created _ manager.bumpId _ _ counted bumped below inUse sameId distinct
  | destroy _ => cases isRequested
  | transfer _ _ => cases isRequested

/-- Table, count and lookups agree all along a run if and only if no call creates a region under
an identifier in use. -/
theorem bookkept_iff_fresh (MAX : Nat) (history : List (RegionCall × RegionOutcome))
    (final : RegionManager) (run : Run (Event MAX) new history final) :
    ((∀ first rest here, history = first ++ rest → Run (Event MAX) new first here →
        Bookkept MAX (latest first) here) ∧
      ∀ first event rest here next, history = first ++ event :: rest →
        Run (Event MAX) new first here → Event MAX here event next →
        ActsOn MAX (latest first) here next event) ↔
    ∀ first event rest here, history = first ++ event :: rest → Run (Event MAX) new first here →
      Fresh MAX here event.1 := by
  constructor
  · rintro ⟨bookkept, -⟩ first event rest here rfl before
    have continued := before.continues event_functional run
    rw [← List.singleton_append] at continued
    obtain ⟨next, single, -⟩ := continued.split
    have extended := before.append single
    obtain ⟨here', before', happened⟩ := extended.last
    obtain rfl := before.deterministic event_functional before'
    exact fresh_of_distinct (bookkept first _ here rfl before).counted happened
      (bookkept (first ++ [event]) rest next (by simp) extended).distinct
  · intro fresh
    have prefixes : ∀ first rest here, history = first ++ rest → Run (Event MAX) new first here →
        Bookkept MAX (latest first) here := by
      rintro first rest here rfl before
      apply bookkept_run before
      rintro earlier event later middle rfl
      exact fresh earlier event (later ++ rest) middle (by simp)
    refine ⟨prefixes, fun first event rest here next split before happened => ?_⟩
    have bookkept := prefixes first _ here split before
    exact (bookkept.event (fresh first event rest here split before) happened).2

/-- The first automatic identifier is 1, which an explicit creation has already taken. -/
def mixedHistory : List (RegionCall × RegionOutcome) :=
  [(.create ⟨1, ⟨1⟩, 0, 0, 1, .warm, .readWrite⟩, .ok (.created 1)),
    (.createAutoId ⟨2⟩ 0 4096 1 .warm .readWrite, .ok (.created 1)),
    (.destroy 1, .ok (.destroyed ⟨1, ⟨1⟩, 0, 0, 1, .warm, .readWrite, true⟩))]

/-- A run with one creation; no identifier is in use before it. -/
theorem bookkept_iff_fresh_created : ∃ final, Run (Event 4) new (mixedHistory.take 1) final ∧
    Bookkept 4 (latest (mixedHistory.take 1)) final := by
  have run : Run (Event 4) new (mixedHistory.take 1) _ := .single rfl
  refine ⟨_, run, ((bookkept_iff_fresh 4 _ _ run).mpr ?_).1 _ [] _ rfl run⟩
  rintro first event rest here split before config - - i - inUse
  have start : first = [] := by
    have total := congrArg List.length split
    simp [mixedHistory] at total
    exact List.eq_nil_of_length_eq_zero (by omega)
  subst start
  obtain rfl := before.deterministic event_functional .nil
  cases inUse

set_option maxRecDepth 8000 in
/-- The automatic identifier repeats the explicit one, and destroying it removes the region
created first instead of the last. -/
theorem regionIdReused : ∃ middle final, Run (Event 4) new (mixedHistory.take 2) middle ∧
    Run (Event 4) new mixedHistory final ∧
    ¬ Distinct 4 OwnedRegion.occupied OwnedRegion.id middle.regions ∧
    latest (mixedHistory.take 2) 1 = some ⟨1, ⟨2⟩, 0, 4096, 1, .warm, .readWrite, true⟩ ∧
    middle.get 4 1 = some ⟨1, ⟨1⟩, 0, 0, 1, .warm, .readWrite, true⟩ ∧
    final.get 4 1 = some ⟨1, ⟨2⟩, 0, 4096, 1, .warm, .readWrite, true⟩ := by
  have second : Run (Event 4) new (mixedHistory.take 2) _ := .cons rfl <| .single rfl
  have third : Run (Event 4) new mixedHistory _ := second.snoc rfl
  refine ⟨_, _, second, third, fun distinct => ?_, rfl, rfl, rfl⟩
  have same := distinct 0 1 (by decide) (by decide) rfl rfl rfl
  cases same

end RegionManager

end Rvm.Memory
