import Rvm.Memory.Region

/-!
Owns guest memory isolation over runs of the region manager. An end at or past `2 ^ 64`
wraps and escapes the overlap checks; the failing run stands at the end.
-/

namespace Rvm.Memory

open Foundation

/-- The region contains the guest address, in unbounded arithmetic. -/
def OwnedRegion.SpansGuest (region : OwnedRegion) (addr : Nat) : Prop :=
  region.guestBase ≤ addr ∧ addr < region.guestBase + region.sizeBytes

def GuestApart (left right : OwnedRegion) : Prop :=
  left.guestBase + left.sizeBytes ≤ right.guestBase ∨
    right.guestBase + right.sizeBytes ≤ left.guestBase

def HostApart (left right : OwnedRegion) : Prop :=
  left.hostBase + left.sizeBytes ≤ right.hostBase ∨
    right.hostBase + right.sizeBytes ≤ left.hostBase

/-- Both ends of the region are `u64` values. -/
structure OwnedRegion.Fits (region : OwnedRegion) : Prop where
  guest : region.guestBase + region.sizeBytes < 18446744073709551616
  host : region.hostBase + region.sizeBytes < 18446744073709551616

theorem GuestApart.symm {left right : OwnedRegion} (apart : GuestApart left right) :
    GuestApart right left := Or.symm apart

theorem HostApart.symm {left right : OwnedRegion} (apart : HostApart left right) :
    HostApart right left := Or.symm apart

theorem overlaps_eq_false {start stop existingStart existingStop : Nat} :
    overlaps start stop existingStart existingStop = false ↔
      existingStop ≤ start ∨ stop ≤ existingStart := by
  simp only [overlaps, Bool.and_eq_false_iff, decide_eq_false_iff_not, Nat.not_lt]

namespace OwnedRegion.Fits

variable {region : OwnedRegion}

theorem guestEnd_eq (fits : region.Fits) : region.guestEnd = region.guestBase + region.sizeBytes :=
  asU64_of_lt fits.guest

theorem hostEnd_eq (fits : region.Fits) : region.hostEnd = region.hostBase + region.sizeBytes :=
  asU64_of_lt fits.host

theorem containsGuest_iff (fits : region.Fits) (addr : Nat) :
    region.containsGuest addr = true ↔ region.SpansGuest addr := by
  rw [OwnedRegion.containsGuest, fits.guestEnd_eq, Bool.and_eq_true, decide_eq_true_iff,
    decide_eq_true_iff]
  exact Iff.rfl

end OwnedRegion.Fits

namespace RegionManager

variable {MAX : Nat} {manager next : RegionManager}

theorem apart_of_no_conflict {config : RegionConfig} {region : OwnedRegion}
    (configFits : config.toRegion.Fits) (fits : region.Fits)
    (noConflict : conflicts config region = false) :
    HostApart config.toRegion region ∧
      (config.owner = region.owner → GuestApart config.toRegion region) := by
  have guestStop : asU64 (config.guestBase + config.pageCount * pageSize) =
      config.toRegion.guestBase + config.toRegion.sizeBytes := configFits.guestEnd_eq
  have hostStop : asU64 (config.hostBase + config.pageCount * pageSize) =
      config.toRegion.hostBase + config.toRegion.sizeBytes := configFits.hostEnd_eq
  rw [conflicts, Bool.or_eq_false_iff, guestStop, hostStop, fits.guestEnd_eq, fits.hostEnd_eq,
    overlaps_eq_false] at noConflict
  obtain ⟨guestSide, hostSide⟩ := noConflict
  refine ⟨hostSide.symm, fun sameOwner => ?_⟩
  rw [sameOwner, decide_eq_true rfl, Bool.true_and, overlaps_eq_false] at guestSide
  exact guestSide.symm

/-- Occupied regions fit and are pairwise apart: in host space all of them, in
guest space those of one owner. -/
structure Isolated (MAX : Nat) (manager : RegionManager) : Prop where
  fits : ∀ i, i < MAX → (manager.regions i).occupied = true → (manager.regions i).Fits
  hostApart : ∀ i j, i < MAX → j < MAX → i ≠ j → (manager.regions i).occupied = true →
    (manager.regions j).occupied = true → HostApart (manager.regions i) (manager.regions j)
  guestApart : ∀ i j, i < MAX → j < MAX → i ≠ j → (manager.regions i).occupied = true →
    (manager.regions j).occupied = true → (manager.regions i).owner = (manager.regions j).owner →
    GuestApart (manager.regions i) (manager.regions j)

theorem isolated_new (MAX : Nat) : Isolated MAX .new where
  fits := fun _ _ occupied => by cases occupied
  hostApart := fun _ _ _ _ _ occupied => by cases occupied
  guestApart := fun _ _ _ _ _ occupied => by cases occupied

/-- Writing one entry keeps isolation when the entry, if occupied, fits and is
apart from the others. -/
theorem Isolated.write {idx : Nat} {region : OwnedRegion} (isolated : Isolated MAX manager)
    (same : next.regions = Function.update manager.regions idx region)
    (fits : region.occupied = true → region.Fits)
    (apart : region.occupied = true → ∀ i, i < MAX → i ≠ idx →
      (manager.regions i).occupied = true → HostApart region (manager.regions i) ∧
        (region.owner = (manager.regions i).owner → GuestApart region (manager.regions i))) :
    Isolated MAX next := by
  have atIdx : next.regions idx = region := by rw [same, Function.update_self]
  have elsewhere : ∀ i, i ≠ idx → next.regions i = manager.regions i :=
    fun i different => by rw [same, Function.update_of_ne different]
  constructor
  · intro i below occupied
    by_cases isIdx : i = idx
    · subst isIdx
      rw [atIdx] at occupied ⊢
      exact fits occupied
    · rw [elsewhere i isIdx] at occupied ⊢
      exact isolated.fits i below occupied
  · intro i j iBelow jBelow different iOccupied jOccupied
    by_cases iIsIdx : i = idx
    · subst iIsIdx
      rw [atIdx] at iOccupied ⊢
      rw [elsewhere j different.symm] at jOccupied ⊢
      exact (apart iOccupied j jBelow different.symm jOccupied).1
    · by_cases jIsIdx : j = idx
      · subst jIsIdx
        rw [atIdx] at jOccupied ⊢
        rw [elsewhere i different] at iOccupied ⊢
        exact (apart jOccupied i iBelow different iOccupied).1.symm
      · rw [elsewhere i iIsIdx] at iOccupied ⊢
        rw [elsewhere j jIsIdx] at jOccupied ⊢
        exact isolated.hostApart i j iBelow jBelow different iOccupied jOccupied
  · intro i j iBelow jBelow different iOccupied jOccupied sameOwner
    by_cases iIsIdx : i = idx
    · subst iIsIdx
      rw [atIdx] at iOccupied sameOwner ⊢
      rw [elsewhere j different.symm] at jOccupied sameOwner ⊢
      exact (apart iOccupied j jBelow different.symm jOccupied).2 sameOwner
    · by_cases jIsIdx : j = idx
      · subst jIsIdx
        rw [atIdx] at jOccupied sameOwner ⊢
        rw [elsewhere i different] at iOccupied sameOwner ⊢
        exact ((apart jOccupied i iBelow different iOccupied).2 sameOwner.symm).symm
      · rw [elsewhere i iIsIdx] at iOccupied sameOwner ⊢
        rw [elsewhere j jIsIdx] at jOccupied sameOwner ⊢
        exact isolated.guestApart i j iBelow jBelow different iOccupied jOccupied sameOwner

/-- A configuration that passes the checks of `create` ends below `2 ^ 64` in
guest and host space. -/
def EndsFit (MAX : Nat) (manager : RegionManager) (call : RegionCall) : Prop :=
  ∀ config idx, manager.requested call = some config → manager.createSlot MAX config = .ok idx →
    config.toRegion.Fits

theorem Isolated.create {config : RegionConfig} (isolated : Isolated MAX manager)
    (fits : ∀ idx, manager.createSlot MAX config = .ok idx → config.toRegion.Fits) :
    Isolated MAX (manager.create MAX config).2 := by
  unfold RegionManager.create
  split
  · exact isolated
  · next idx cleared =>
      obtain ⟨_, _, _, noConflict⟩ := createSlot_spec cleared
      have configFits := fits idx cleared
      apply isolated.write rfl (fun _ => configFits)
      intro _ i below _ occupied
      exact apart_of_no_conflict configFits (isolated.fits i below occupied)
        (noConflict i below occupied)

theorem Isolated.destroy (isolated : Isolated MAX manager) (regionId : Nat) :
    Isolated MAX (manager.destroy MAX regionId).2 := by
  unfold RegionManager.destroy
  split
  · exact isolated.write rfl (fun occupied => by cases occupied) (fun occupied => by cases occupied)
  · exact isolated

theorem Isolated.transfer (isolated : Isolated MAX manager) (regionId : Nat)
    (newOwner : PartitionId) : Isolated MAX (manager.transfer MAX regionId newOwner).2 := by
  unfold RegionManager.transfer
  split
  · exact isolated
  · next idx found =>
      obtain ⟨idxBelow, idxOccupied⟩ := findSlot_spec found
      split
      · exact isolated
      · next unblocked =>
          have fits := isolated.fits idx idxBelow idxOccupied
          apply @Isolated.write MAX manager _ idx { manager.regions idx with owner := newOwner }
            isolated rfl (fun _ => ⟨fits.guest, fits.host⟩)
          intro _ i below different occupied
          refine ⟨isolated.hostApart idx i idxBelow below different.symm idxOccupied occupied, ?_⟩
          intro sameOwner
          have notBlocking : manager.blocksTransfer idx newOwner i = false := by
            by_contra blocking
            exact unblocked (List.any_eq_true.mpr
              ⟨i, List.mem_range.mpr below, by simpa using blocking⟩)
          have ownerEq : (manager.regions i).owner = newOwner := sameOwner.symm
          have otherFits := isolated.fits i below occupied
          simp only [blocksTransfer, different, occupied, ownerEq, fits.guestEnd_eq,
            otherFits.guestEnd_eq, decide_false, Bool.not_true, Bool.or_self, ne_eq, not_true_eq_false,
            Bool.not_false, Bool.true_and, overlaps_eq_false] at notBlocking
          exact notBlocking.symm

theorem isolated_step {call : RegionCall} (isolated : Isolated MAX manager)
    (fits : EndsFit MAX manager call) (step : Step MAX manager call next) : Isolated MAX next := by
  subst step
  cases call with
  | create config => exact isolated.create fun idx cleared => fits config idx rfl cleared
  | createAutoId owner guestBase hostBase pageCount tier permissions =>
    have bumped : Isolated MAX manager.bumpId :=
      ⟨isolated.fits, isolated.hostApart, isolated.guestApart⟩
    exact bumped.create fun idx cleared => fits _ idx rfl cleared
  | destroy regionId => exact isolated.destroy regionId
  | transfer regionId newOwner => exact isolated.transfer regionId newOwner

def Covers (MAX : Nat) (manager : RegionManager) (i : Nat) (owner : PartitionId) (guest : Nat) :
    Prop :=
  i < MAX ∧ (manager.regions i).occupied = true ∧ (manager.regions i).owner = owner ∧
    (manager.regions i).SpansGuest guest

variable {guest : Nat} {owner : PartitionId}

theorem Isolated.covers_unique {i j : Nat} (isolated : Isolated MAX manager)
    (left : manager.Covers MAX i owner guest) (right : manager.Covers MAX j owner guest) :
    i = j := by
  by_contra different
  have apart := isolated.guestApart i j left.1 right.1 different left.2.1 right.2.1
    (left.2.2.1.trans right.2.2.1.symm)
  have leftSpan := left.2.2.2
  have rightSpan := right.2.2.2
  unfold GuestApart at apart
  unfold OwnedRegion.SpansGuest at leftSpan rightSpan
  omega

theorem Isolated.translate_eq_some {mapping : AddressMapping} (isolated : Isolated MAX manager)
    (mapped : manager.translate MAX owner guest = some mapping) :
    ∃ i, manager.Covers MAX i owner guest ∧
      mapping = ⟨guest, (manager.regions i).hostBase + (guest - (manager.regions i).guestBase),
        (manager.regions i).permissions⟩ := by
  obtain ⟨i, found, rfl⟩ := Option.map_eq_some_iff.mp mapped
  have below := List.mem_range.mp (List.mem_of_find?_eq_some found)
  have matching := List.find?_some found
  simp only [Bool.and_eq_true, decide_eq_true_iff] at matching
  obtain ⟨⟨occupied, isOwner⟩, contains⟩ := matching
  have fits := isolated.fits i below occupied
  have spans := (fits.containsGuest_iff guest).mp contains
  refine ⟨i, ⟨below, occupied, isOwner, spans⟩, ?_⟩
  have hostFits := fits.host
  unfold OwnedRegion.SpansGuest at spans
  rw [asU64_of_lt (by omega)]

theorem Isolated.translate_isSome {i : Nat} (isolated : Isolated MAX manager)
    (covers : manager.Covers MAX i owner guest) :
    (manager.translate MAX owner guest).isSome = true := by
  obtain ⟨below, occupied, isOwner, spans⟩ := covers
  rw [translate, Option.isSome_map, List.find?_isSome]
  refine ⟨i, List.mem_range.mpr below, ?_⟩
  have contains := ((isolated.fits i below occupied).containsGuest_iff guest).mpr spans
  simp only [occupied, isOwner, contains, decide_true, Bool.and_self]

/-- While regions end below `2 ^ 64`, occupied regions are apart and translation is exact and
injective over all owners. -/
theorem isolation (MAX : Nat) (history : List RegionCall) (manager : RegionManager)
    (run : Run (Guarded (Step MAX) (EndsFit MAX)) .new history manager) :
    (∀ i j, i < MAX → j < MAX → i ≠ j → (manager.regions i).occupied = true →
      (manager.regions j).occupied = true →
      HostApart (manager.regions i) (manager.regions j) ∧
        ((manager.regions i).owner = (manager.regions j).owner →
          GuestApart (manager.regions i) (manager.regions j))) ∧
    (∀ owner guest i j, manager.Covers MAX i owner guest → manager.Covers MAX j owner guest → i = j) ∧
    (∀ owner guest i, manager.Covers MAX i owner guest →
      manager.translate MAX owner guest =
        some ⟨guest, (manager.regions i).hostBase + (guest - (manager.regions i).guestBase),
          (manager.regions i).permissions⟩) ∧
    (∀ owner guest, (∀ i, ¬ manager.Covers MAX i owner guest) →
      manager.translate MAX owner guest = none) ∧
    ∀ owner guest other otherGuest mapping otherMapping,
      manager.translate MAX owner guest = some mapping →
      manager.translate MAX other otherGuest = some otherMapping →
      mapping.host = otherMapping.host → owner = other ∧ guest = otherGuest := by
  have isolated : Isolated MAX manager :=
    run.stateInvariant (isolated_new MAX) fun _ _ _ isolated step =>
      isolated_step isolated step.2 step.1
  refine ⟨fun i j iBelow jBelow different iOccupied jOccupied =>
      ⟨isolated.hostApart i j iBelow jBelow different iOccupied jOccupied,
        isolated.guestApart i j iBelow jBelow different iOccupied jOccupied⟩,
    fun owner guest i j => isolated.covers_unique, fun owner guest i covers => ?_,
    fun owner guest uncovered => ?_,
    fun owner guest other otherGuest mapping otherMapping mapped otherMapped sameHost => ?_⟩
  · obtain ⟨mapping, mapped⟩ := Option.isSome_iff_exists.mp (isolated.translate_isSome covers)
    obtain ⟨j, coversToo, rfl⟩ := isolated.translate_eq_some mapped
    rw [mapped, isolated.covers_unique covers coversToo]
  · cases mapped : manager.translate MAX owner guest with
    | none => rfl
    | some mapping =>
      obtain ⟨i, covers, -⟩ := isolated.translate_eq_some mapped
      exact absurd covers (uncovered i)
  · obtain ⟨i, covers, rfl⟩ := isolated.translate_eq_some mapped
    obtain ⟨j, otherCovers, rfl⟩ := isolated.translate_eq_some otherMapped
    have span := covers.2.2.2
    have otherSpan := otherCovers.2.2.2
    unfold OwnedRegion.SpansGuest at span otherSpan
    dsimp only at sameHost
    by_cases same : i = j
    · subst same
      exact ⟨covers.2.2.1.symm.trans otherCovers.2.2.1, by omega⟩
    · have apart := isolated.hostApart i j covers.1 otherCovers.1 same covers.2.1 otherCovers.2.1
      unfold HostApart at apart
      omega

def sampleRegion : RegionConfig := ⟨1, ⟨1⟩, 4096, 8192, 1, .warm, .readWrite⟩

/-- Its pages translate after its creation. -/
theorem isolation_sampleRegion :
    ((RegionManager.new.create 2 sampleRegion).2).translate 2 ⟨1⟩ 5000 =
      some ⟨5000, 9096, .readWrite⟩ := by
  have run : Run (Guarded (Step 2) (EndsFit 2)) .new [.create sampleRegion]
      (RegionManager.new.create 2 sampleRegion).2 := by
    apply Run.single
    refine ⟨rfl, fun config idx isConfig _ => ?_⟩
    cases isConfig
    exact ⟨by decide, by decide⟩
  exact (isolation 2 [.create sampleRegion] _ run).2.2.1 ⟨1⟩ 5000 0
    ⟨by decide, rfl, rfl, by decide, by decide⟩

def lastPage (id owner : Nat) : RegionConfig :=
  ⟨id, ⟨owner⟩, 4096, 18446744073709547520, 1, .warm, .readWrite⟩

/-- The host end of the last page wraps to `0`, so that two partitions are given
the same host page. -/
theorem last_page_shared :
    ∃ manager, Run (Step 2) .new [.create (lastPage 1 1), .create (lastPage 2 2)] manager ∧
      (manager.regions 0).occupied = true ∧ (manager.regions 1).occupied = true ∧
      ¬ HostApart (manager.regions 0) (manager.regions 1) ∧
      manager.translate 2 ⟨1⟩ 4096 = some ⟨4096, 18446744073709547520, .readWrite⟩ ∧
      manager.translate 2 ⟨2⟩ 4096 = some ⟨4096, 18446744073709547520, .readWrite⟩ := by
  have second : Run (Step 2) .new [.create (lastPage 1 1), .create (lastPage 2 2)] _ :=
    .cons rfl <| .single rfl
  refine ⟨_, second, rfl, rfl, ?_, rfl, rfl⟩
  unfold HostApart
  decide

end RegionManager

end Rvm.Memory
