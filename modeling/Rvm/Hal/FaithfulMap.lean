import Rvm.Hal.Translation

/-!
Owns the statement about stage-2 translation over every run of its callers: the
mappings that are live after a history, when no mask drops a bit of an address, and
that translation is then the map of the live mappings.
-/

namespace Rvm.Hal

open Foundation Foundation.Call Stage2PageTable List

structure Mapping where
  block : Nat
  pa : Nat
deriving DecidableEq

def Mapping.Covers (mapping : Mapping) (addr : Nat) : Prop :=
  mapping.block ≤ addr ∧ addr < mapping.block + 2 ^ 21

instance (mapping : Mapping) (addr : Nat) : Decidable (mapping.Covers addr) :=
  inferInstanceAs (Decidable (_ ∧ _))

def MmuCall.mappings : MmuCall → List Mapping
  | .mapPage ipa pa | .mapRam2mb ipa pa | .mapDevice2mb ipa pa => [⟨ipa.toNat, pa.toNat⟩]
  | .unmapPage _ => []
  | .identityMapRam size =>
    (List.range (size.toNat / 2 ^ 21)).map fun block => ⟨block * 2 ^ 21, block * 2 ^ 21⟩

/-- The addresses whose translation a call may change. -/
def MmuCall.Touches (call : MmuCall) (addr : Nat) : Prop :=
  match call with
  | .unmapPage guest => addr / 2 ^ 21 = guest.toNat / 2 ^ 21
  | _ => ∃ mapping ∈ call.mappings, mapping.Covers addr

def MmuEvent.apply (live : List Mapping) (event : MmuEvent) : List Mapping :=
  match event.outcome, event.call with
  | .error _, _ => live
  | .ok _, .unmapPage guest => live.filter fun mapping => ¬mapping.Covers guest.toNat
  | .ok _, call => call.mappings ++ live

/-- The mappings that succeeded and are not unmapped yet. -/
def liveMappings (events : List MmuEvent) : List Mapping := events.foldl MmuEvent.apply []

/-- The condition on a call that looks an address up: the mask drops no bit of one that
selects a mapped block. -/
def Direct (here : Stage2PageTable) (guest : BitVec 64) : Prop :=
  here.blockAt (blockNumber guest) ≠ none → guest.toNat < 2 ^ 39

/-- Where a call changes the tables, the masks drop no bit of its addresses, and an
identity map does not end halfway. -/
def MmuCall.Exact (here : Stage2PageTable) : MmuCall → Prop
  | .mapPage ipa pa | .mapRam2mb ipa pa | .mapDevice2mb ipa pa =>
    Aligned ipa pa → here.blockAt (blockNumber ipa) = none → ¬here.Full (blockNumber ipa) →
      ipa.toNat < 2 ^ 39 ∧ pa.toNat < 2 ^ 48
  | .unmapPage guest => Direct here guest
  | .identityMapRam size => size.toNat % 2 ^ 21 = 0 → size.toNat ≠ 0 →
      here.blockAt 0 = none → ¬here.Full 0 → here.Fits size.toNat

abbrev ExactRun : List MmuEvent → Stage2PageTable → Prop :=
  Run (Guarded Step fun here event => event.call.Exact here) new

structure Agrees (here : Stage2PageTable) (live : List Mapping) : Prop where
  linked : here.Linked
  sound : ∀ mapping ∈ live, mapping.block % 2 ^ 21 = 0 ∧ mapping.block < 2 ^ 39 ∧
    here.blockAt (mapping.block / 2 ^ 21) = some mapping.pa
  complete : ∀ block pa, here.blockAt block = some pa → ⟨block * 2 ^ 21, pa⟩ ∈ live

namespace Agrees

variable {here next : Stage2PageTable} {live : List Mapping}

theorem new : Agrees Stage2PageTable.new [] where
  linked := new_linked
  sound := nofun
  complete block pa found := by
    rw [blockAt_new] at found
    cases found

theorem covers_iff (agrees : Agrees here live) {mapping : Mapping} (member : mapping ∈ live)
    (addr : Nat) : mapping.Covers addr ↔ addr / 2 ^ 21 = mapping.block / 2 ^ 21 := by
  have aligned := (agrees.sound mapping member).1
  unfold Mapping.Covers
  omega

theorem mapped (agrees : Agrees here live) {ipa pa : BitVec 64} (aligned : Aligned ipa pa)
    (indexed : ipa.toNat < 2 ^ 39) (addressed : pa.toNat < 2 ^ 48)
    (mapped : Mapped here next (blockNumber ipa) (pa &&& addressMask).toNat) :
    Agrees next (⟨ipa.toNat, pa.toNat⟩ :: live) := by
  have number : blockNumber ipa = ipa.toNat / 2 ^ 21 := by
    rw [blockNumber]
    omega
  have host : (pa &&& addressMask).toNat = pa.toNat :=
    @window_toNat_of_fits 64 _ 21 27 addressMask rfl aligned.2 addressed
  rw [number, host] at mapped
  have start := aligned.1
  constructor
  · exact mapped.linked
  · intro mapping member
    rcases mem_cons.mp member with rfl | earlier
    · refine ⟨aligned.1, indexed, ?_⟩
      rw [mapped.blocks, if_pos rfl]
    · obtain ⟨isAligned, below, found⟩ := agrees.sound mapping earlier
      refine ⟨isAligned, below, ?_⟩
      rw [mapped.blocks, if_neg, found]
      intro same
      rw [same, mapped.absent] at found
      cases found
  · intro block host found
    rw [mapped.blocks] at found
    split at found
    · rename_i isBlock
      have here : block * 2 ^ 21 = ipa.toNat := by omega
      rw [here, ← Option.some.inj found]
      exact mem_cons_self
    · exact mem_cons_of_mem _ (agrees.complete block host found)

theorem unmapped (agrees : Agrees here live) {guest : BitVec 64}
    (indexed : guest.toNat < 2 ^ 39) (linked : next.Linked)
    (blocks : ∀ block, next.blockAt block =
      if block = blockNumber guest then none else here.blockAt block) :
    Agrees next (live.filter fun mapping => ¬mapping.Covers guest.toNat) := by
  have number : blockNumber guest = guest.toNat / 2 ^ 21 := by
    rw [blockNumber]
    omega
  rw [number] at blocks
  constructor
  · exact linked
  · intro mapping member
    obtain ⟨earlier, apart⟩ := mem_filter.mp member
    obtain ⟨isAligned, below, found⟩ := agrees.sound mapping earlier
    refine ⟨isAligned, below, ?_⟩
    rw [blocks, if_neg, found]
    intro same
    exact of_decide_eq_true apart ((agrees.covers_iff earlier _).mpr same.symm)
  · intro block host found
    rw [blocks] at found
    split at found
    · cases found
    · rename_i other
      have member := agrees.complete block host found
      refine mem_filter.mpr ⟨member, decide_eq_true fun covers => other ?_⟩
      rw [(agrees.covers_iff member _).mp covers]
      exact (Nat.mul_div_cancel block (Nat.two_pow_pos 21)).symm

theorem identityMapped (agrees : Agrees here live) {size : Nat} (fits : here.Fits size)
    (linked : next.Linked)
    (blocks : ∀ block, next.blockAt block =
      if block < size / 2 ^ 21 then some (block * 2 ^ 21) else here.blockAt block) :
    Agrees next (((List.range (size / 2 ^ 21)).map fun block =>
      ⟨block * 2 ^ 21, block * 2 ^ 21⟩) ++ live) := by
  have indexed := fits.indexed
  constructor
  · exact linked
  · intro mapping member
    rcases mem_append.mp member with fresh | earlier
    · obtain ⟨block, below, rfl⟩ := mem_map.mp fresh
      have below := mem_range.mp below
      refine ⟨Nat.mul_mod_left _ _, by show block * 2 ^ 21 < 2 ^ 39; omega, ?_⟩
      show next.blockAt (block * 2 ^ 21 / 2 ^ 21) = _
      rw [Nat.mul_div_cancel block (Nat.two_pow_pos 21), blocks, if_pos below]
    · obtain ⟨isAligned, below, found⟩ := agrees.sound mapping earlier
      refine ⟨isAligned, below, ?_⟩
      rw [blocks, if_neg, found]
      intro inside
      rw [fits.free _ inside] at found
      cases found
  · intro block host found
    rw [blocks] at found
    split at found
    · rename_i below
      rw [← Option.some.inj found]
      exact mem_append_left _ (mem_map.mpr ⟨block, mem_range.mpr below, rfl⟩)
    · exact mem_append_right _ (agrees.complete block host found)

end Agrees

variable {here next : Stage2PageTable} {live : List Mapping}

/-- What an exact call leaves: it maps blocks that were free, or it changes nothing. -/
def MmuCall.Served (here : Stage2PageTable) (live : List Mapping) (call : MmuCall)
    (serve : TableCall Unit) : Prop :=
  serve.Ensures here
    (fun _ next => Agrees next (MmuEvent.apply live ⟨call, .ok ()⟩) ∧
      ∀ mapping ∈ call.mappings, mapping.block % 2 ^ 21 = 0 ∧
        here.blockAt (mapping.block / 2 ^ 21) = none)
    fun _ next => next = here

theorem map_served (agrees : Agrees here live) {ipa pa : BitVec 64} {serve : TableCall Unit}
    (spec : serve.Ensures here
      (fun _ next => Aligned ipa pa ∧ Mapped here next (blockNumber ipa) (pa &&& addressMask).toNat)
      fun reason next => next = here ∧ Unmapped here ipa pa reason)
    (exact : Aligned ipa pa → here.blockAt (blockNumber ipa) = none →
      ¬here.Full (blockNumber ipa) → ipa.toNat < 2 ^ 39 ∧ pa.toNat < 2 ^ 48) :
    serve.Ensures here
      (fun _ next => Agrees next (⟨ipa.toNat, pa.toNat⟩ :: live) ∧
        ∀ mapping ∈ [(⟨ipa.toNat, pa.toNat⟩ : Mapping)], mapping.block % 2 ^ 21 = 0 ∧
          here.blockAt (mapping.block / 2 ^ 21) = none)
      fun _ next => next = here := by
  apply spec.mono
  · rintro _ next ⟨aligned, mapped⟩
    have room : ¬here.Full (blockNumber ipa) := by
      intro full
      have taken := mapped.nextL2
      rw [if_pos full.1] at taken
      have room := mapped.linked.room
      have none := full.2
      omega
    obtain ⟨indexed, addressed⟩ := exact aligned mapped.absent room
    refine ⟨agrees.mapped aligned indexed addressed mapped, fun mapping member => ?_⟩
    rw [mem_singleton.mp member]
    have number : blockNumber ipa = ipa.toNat / 2 ^ 21 := by
      rw [blockNumber]
      omega
    exact ⟨aligned.1, number ▸ mapped.absent⟩
  · exact fun _ _ refused => refused.1

theorem identityMapRam_served (agrees : Agrees here live) (placed : Nat → BitVec 64)
    (size : BitVec 64) (exact : (MmuCall.identityMapRam size).Exact here) :
    MmuCall.Served here live (.identityMapRam size) (identityMapRam placed size) := by
  by_cases aligned : size.toNat % 2 ^ 21 = 0
  · by_cases mapsFirst : size.toNat = 0 ∨ (here.blockAt 0 = none ∧ ¬here.Full 0)
    · have fits : here.Fits size.toNat := by
        rcases mapsFirst with empty | ⟨free, room⟩
        · rw [empty]
          exact ⟨Nat.zero_le _, nofun, agrees.linked.room⟩
        · by_cases empty : size.toNat = 0
          · rw [empty]
            exact ⟨Nat.zero_le _, nofun, agrees.linked.room⟩
          · exact exact aligned empty free room
      apply (identityMapRam_fits agrees.linked placed size aligned fits).mono _
        fun _ _ impossible => impossible.elim
      rintro _ next ⟨linked, blocks⟩
      refine ⟨agrees.identityMapped fits linked blocks, fun mapping member => ?_⟩
      obtain ⟨block, below, rfl⟩ := mem_map.mp member
      refine ⟨Nat.mul_mod_left _ _, ?_⟩
      show here.blockAt (block * 2 ^ 21 / 2 ^ 21) = none
      rw [Nat.mul_div_cancel block (Nat.two_pow_pos 21)]
      exact fits.free block (mem_range.mp below)
    · rw [not_or, not_and, not_not] at mapsFirst
      exact (identityMapRam_refused agrees.linked placed aligned mapsFirst.1 mapsFirst.2).mono
        (fun _ _ impossible => impossible.elim) fun _ _ same => same
  · unfold MmuCall.Served identityMapRam
    simp only [ensures_bind, ensures_throwIf]
    refine ⟨fun _ => trivial, fun low => ?_⟩
    exact (aligned ((low_eq_zero size).mp (not_not.mp low))).elim

theorem serve_served (agrees : Agrees here live) (placed : Nat → BitVec 64) (call : MmuCall)
    (exact : call.Exact here) : call.Served here live (call.serve placed) := by
  cases call with
  | mapPage guest host => exact map_served agrees (mapPage_spec agrees.linked placed guest host) exact
  | mapRam2mb ipa pa => exact map_served agrees (mapRam2mb_spec agrees.linked placed ipa pa) exact
  | mapDevice2mb ipa pa =>
    exact map_served agrees (map2mbBlock_spec agrees.linked placed ipa pa (by decide)) exact
  | identityMapRam size => exact identityMapRam_served agrees placed size exact
  | unmapPage guest =>
    apply (unmapPage_spec agrees.linked guest).mono
    · rintro _ next ⟨linked, ⟨pa, found⟩, blocks⟩
      have indexed : guest.toNat < 2 ^ 39 := by
        apply exact
        rw [found]
        exact Option.some_ne_none pa
      exact ⟨agrees.unmapped indexed linked blocks, nofun⟩
    · exact fun _ _ refused => refused.1

variable {event : MmuEvent} {guest : BitVec 64}

theorem Agrees.step (agrees : Agrees here live)
    (step : Guarded Step (fun here event => event.call.Exact here) here event next) :
    Agrees next (event.apply live) := by
  obtain ⟨⟨placed, ran⟩, exact⟩ := step
  have served := serve_served agrees placed event.call exact
  rw [MmuCall.Served, Ensures, ran] at served
  obtain ⟨call, outcome⟩ := event
  cases outcome with
  | ok _ => exact served.1
  | error _ => exact served ▸ agrees

theorem agrees_of_run {events : List MmuEvent} (run : ExactRun events here) :
    Agrees here (liveMappings events) := by
  induction run with
  | nil => exact Agrees.new
  | snoc _ step ih =>
    rw [liveMappings, foldl_append]
    exact ih.step step

def translated (here : Stage2PageTable) (guest : BitVec 64) :
    Option (Except RvmError (BitVec 64)) :=
  ((Stage2PageTable.translate guest).runFrom here).map Prod.fst

def Mapping.Gives (mapping : Mapping) (guest host : BitVec 64) : Prop :=
  mapping.Covers guest.toNat ∧ host.toNat = mapping.pa + (guest.toNat - mapping.block)

theorem Agrees.blockAt_iff (agrees : Agrees here live) (direct : Direct here guest) (pa : Nat) :
    here.blockAt (blockNumber guest) = some pa ↔
      ∃ mapping ∈ live, mapping.Covers guest.toNat ∧ mapping.pa = pa := by
  constructor
  · intro found
    have member := agrees.complete _ _ found
    have indexed := direct (found ▸ Option.some_ne_none pa)
    refine ⟨_, member, ?_, rfl⟩
    unfold Mapping.Covers blockNumber
    dsimp only
    omega
  · rintro ⟨mapping, member, covers, rfl⟩
    obtain ⟨aligned, below, found⟩ := agrees.sound mapping member
    rw [← found]
    unfold Mapping.Covers at covers
    congr 1
    rw [blockNumber]
    omega

theorem translated_some (linked : here.Linked) {guest : BitVec 64} {pa : Nat}
    (found : here.blockAt (blockNumber guest) = some pa) :
    ∃ host, translated here guest = some (.ok host) ∧ host.toNat = pa + guest.toNat % 2 ^ 21 := by
  rcases (translate_spec linked guest).outcome with
    ⟨host, next, ran, _, other, again, address⟩ | ⟨reason, next, _, _, _, absent⟩
  · rw [found] at again
    refine ⟨host, ?_, Option.some.inj again ▸ address⟩
    rw [translated, ran]
    rfl
  · rw [found] at absent
    cases absent

theorem translated_none (linked : here.Linked) (absent : here.blockAt (blockNumber guest) = none) :
    translated here guest = some (.error .internalError) := by
  rcases (translate_spec linked guest).outcome with
    ⟨host, next, _, _, other, found, _⟩ | ⟨reason, next, ran, _, rfl, _⟩
  · rw [absent] at found
    cases found
  · rw [translated, ran]
    rfl

theorem translated_congr (linked : here.Linked) (nextLinked : next.Linked)
    (same : next.blockAt (blockNumber guest) = here.blockAt (blockNumber guest)) :
    translated next guest = translated here guest := by
  cases found : here.blockAt (blockNumber guest) with
  | none =>
    rw [found] at same
    rw [translated_none linked found, translated_none nextLinked same]
  | some pa =>
    rw [found] at same
    obtain ⟨host, first, address⟩ := translated_some linked found
    obtain ⟨other, second, otherAddress⟩ := translated_some nextLinked same
    rw [first, second, BitVec.eq_of_toNat_eq (otherAddress.trans address.symm)]

structure Faithful (live : List Mapping) (here : Stage2PageTable) : Prop where
  translates : ∀ guest, Direct here guest → ∀ host,
    translated here guest = some (.ok host) ↔ ∃ mapping ∈ live, mapping.Gives guest host
  fails : ∀ guest, Direct here guest → (∀ mapping ∈ live, ¬mapping.Covers guest.toNat) →
    translated here guest = some (.error .internalError)

/-- What a step leaves of the translations and of the live mappings. -/
structure Kept (live : List Mapping) (here : Stage2PageTable) (event : MmuEvent)
    (next : Stage2PageTable) : Prop where
  refused : ∀ reason, event.outcome = .error reason →
    ∀ guest, translated next guest = translated here guest
  outside : ∀ guest, Direct here guest → Direct next guest →
    ¬event.call.Touches guest.toNat → translated next guest = translated here guest
  fresh : event.outcome = .ok () → ∀ mapping ∈ event.call.mappings, ∀ old ∈ live,
    ∀ addr, mapping.Covers addr → ¬old.Covers addr

theorem Agrees.faithful (agrees : Agrees here live) : Faithful live here := by
  constructor
  · intro guest direct host
    constructor
    · intro found
      cases block : here.blockAt (blockNumber guest) with
      | none =>
        rw [translated_none agrees.linked block] at found
        cases found
      | some pa =>
        obtain ⟨mapping, member, covers, rfl⟩ := (agrees.blockAt_iff direct pa).mp block
        obtain ⟨other, again, address⟩ := translated_some agrees.linked block
        rw [found] at again
        cases again
        have aligned := (agrees.sound mapping member).1
        refine ⟨mapping, member, covers, ?_⟩
        unfold Mapping.Covers at covers
        omega
    · rintro ⟨mapping, member, covers, gives⟩
      have block := (agrees.blockAt_iff direct mapping.pa).mpr ⟨mapping, member, covers, rfl⟩
      obtain ⟨other, found, address⟩ := translated_some agrees.linked block
      have aligned := (agrees.sound mapping member).1
      have same : other = host := by
        apply BitVec.eq_of_toNat_eq
        unfold Mapping.Covers at covers
        omega
      rw [found, same]
  · intro guest direct uncovered
    apply translated_none agrees.linked
    cases block : here.blockAt (blockNumber guest) with
    | none => rfl
    | some pa =>
      obtain ⟨mapping, member, covers, _⟩ := (agrees.blockAt_iff direct pa).mp block
      exact (uncovered mapping member covers).elim

theorem Agrees.covering_apply (agrees : Agrees here live) {addr : Nat}
    (untouched : ¬event.call.Touches addr) {mapping : Mapping} (covers : mapping.Covers addr) :
    mapping ∈ event.apply live ↔ mapping ∈ live := by
  obtain ⟨call, outcome⟩ := event
  have added : (∀ guest, call ≠ .unmapPage guest) →
      (mapping ∈ call.mappings ++ live ↔ mapping ∈ live) := by
    intro maps
    refine mem_append.trans (or_iff_right fun fresh => untouched ?_)
    cases call with
    | unmapPage guest => exact (maps guest rfl).elim
    | mapPage _ _ | mapRam2mb _ _ | mapDevice2mb _ _ | identityMapRam _ =>
      exact ⟨mapping, fresh, covers⟩
  cases outcome with
  | error _ => exact Iff.rfl
  | ok _ =>
    cases call with
    | unmapPage guest =>
      refine mem_filter.trans (and_iff_left_of_imp fun member => decide_eq_true ?_)
      intro coversGuest
      apply untouched
      exact ((agrees.covers_iff member addr).mp covers).trans
        ((agrees.covers_iff member _).mp coversGuest).symm
    | mapPage _ _ | mapRam2mb _ _ | mapDevice2mb _ _ | identityMapRam _ => exact added nofun

theorem Agrees.kept (agrees : Agrees here live)
    (step : Guarded Step (fun here event => event.call.Exact here) here event next) :
    Kept live here event next := by
  have after := agrees.step step
  obtain ⟨⟨placed, ran⟩, exact⟩ := step
  have served := serve_served agrees placed event.call exact
  rw [MmuCall.Served, Ensures, ran] at served
  constructor
  · intro reason refused guest
    rw [refused] at served
    rw [show next = here from served]
  · intro guest direct afterDirect untouched
    apply translated_congr agrees.linked after.linked
    refine Option.ext fun pa => ?_
    rw [agrees.blockAt_iff direct, after.blockAt_iff afterDirect]
    constructor
    · rintro ⟨mapping, member, covers, host⟩
      exact ⟨mapping, (agrees.covering_apply untouched covers).mp member, covers, host⟩
    · rintro ⟨mapping, member, covers, host⟩
      exact ⟨mapping, (agrees.covering_apply untouched covers).mpr member, covers, host⟩
  · intro succeeded mapping member old isLive addr covers oldCovers
    rw [succeeded] at served
    obtain ⟨aligned, free⟩ := served.2 mapping member
    obtain ⟨oldAligned, _, found⟩ := agrees.sound old isLive
    have same : old.block / 2 ^ 21 = mapping.block / 2 ^ 21 := by
      unfold Mapping.Covers at covers oldCovers
      omega
    rw [same, free] at found
    cases found

/-- In a run of exact calls, translation is the map of the live mappings, and every exact
call keeps what it does not touch. -/
theorem translationFaithful {events : List MmuEvent} (run : ExactRun events here) :
    Faithful (liveMappings events) here ∧ ∀ event next,
      Guarded Step (fun here event => event.call.Exact here) here event next →
        Kept (liveMappings events) here event next :=
  ⟨(agrees_of_run run).faithful, fun _ _ step => (agrees_of_run run).kept step⟩

theorem mapPage_succeeds (linked : here.Linked) {guest host : BitVec 64}
    (aligned : Aligned guest host) (free : here.blockAt (blockNumber guest) = none)
    (room : ¬here.Full (blockNumber guest)) :
    ∃ next, Step here ⟨.mapPage guest host, .ok ()⟩ next ∧
      Mapped here next (blockNumber guest) (host &&& addressMask).toNat := by
  rcases (mapPage_spec linked (fun _ => 0) guest host).outcome with
    ⟨_, next, ran, _, mapped⟩ | ⟨_, _, _, _, unmapped⟩
  · exact ⟨next, ⟨_, ran⟩, mapped⟩
  · cases unmapped with
    | unaligned unaligned => exact (unaligned aligned).elim
    | full _ full => exact (room full).elim
    | occupied _ occupied =>
      rw [free] at occupied
      cases occupied

theorem mapPage_first {guest host : BitVec 64} (aligned : Aligned guest host) :
    ∃ next, Step new ⟨.mapPage guest host, .ok ()⟩ next ∧
      Mapped new next (blockNumber guest) (host &&& addressMask).toNat :=
  mapPage_succeeds new_linked aligned (blockAt_new _) fun full => absurd full.2 (by decide)

theorem identityMapRam_succeeds (linked : here.Linked) {size : BitVec 64}
    (aligned : size.toNat % 2 ^ 21 = 0) (fits : here.Fits size.toNat) :
    ∃ next, Step here ⟨.identityMapRam size, .ok ()⟩ next ∧ next.Linked ∧
      ∀ block, next.blockAt block =
        if block < size.toNat / 2 ^ 21 then some (block * 2 ^ 21) else here.blockAt block := by
  rcases (identityMapRam_fits linked (fun _ => 0) size aligned fits).outcome with
    ⟨_, next, ran, mapped⟩ | ⟨_, _, _, impossible⟩
  · exact ⟨next, ⟨_, ran⟩, mapped⟩
  · exact impossible.elim

theorem unmapPage_succeeds (linked : here.Linked) {guest : BitVec 64} {pa : Nat}
    (found : here.blockAt (blockNumber guest) = some pa) :
    ∃ next, Step here ⟨.unmapPage guest, .ok ()⟩ next := by
  rcases (unmapPage_spec linked guest).outcome with ⟨_, next, ran, _⟩ | ⟨_, _, _, _, absent⟩
  · exact ⟨next, fun _ => 0, ran⟩
  · rw [found] at absent
    cases absent

theorem not_full {pa : Nat} {block other : Nat} (found : here.blockAt other = some pa)
    (same : block / 512 = other / 512) : ¬here.Full block := by
  rintro ⟨none, _⟩
  rw [blockAt, ← same, none] at found
  cases found

def remapped : List MmuEvent :=
  [⟨.identityMapRam 0x400000, .ok ()⟩, ⟨.mapPage 0x400000 0x200000000, .ok ()⟩,
    ⟨.mapPage 0x600000 0x300000000, .ok ()⟩, ⟨.unmapPage 0x400000, .ok ()⟩]

/-- Two blocks mapped to themselves, two mapped elsewhere, and one of these unmapped. -/
theorem translationFaithful_remapped : ∃ here, ExactRun remapped here ∧
    translated here 0x3456 = some (.ok 0x3456) ∧
      translated here 0x601234 = some (.ok 0x300001234) ∧
      translated here 0x401234 = some (.error .internalError) := by
  have fits : new.Fits (0x400000 : BitVec 64).toNat :=
    ⟨by decide, fun block _ => blockAt_new block, by decide +kernel⟩
  obtain ⟨loaded, load, linked, blocks⟩ := identityMapRam_succeeds new_linked (by decide) fits
  have zero : loaded.blockAt 0 = some 0 := blocks 0
  obtain ⟨first, mapFirst, mapped⟩ := @mapPage_succeeds loaded linked 0x400000 0x200000000
    ⟨by decide, by decide⟩ ((blocks 2).trans (blockAt_new 2)) (not_full zero rfl)
  obtain ⟨second, mapSecond, further⟩ := @mapPage_succeeds first mapped.linked 0x600000 0x300000000
    ⟨by decide, by decide⟩ ((mapped.blocks 3).trans ((blocks 3).trans (blockAt_new 3)))
    (not_full ((mapped.blocks 0).trans zero) rfl)
  obtain ⟨last, unmap⟩ := @unmapPage_succeeds second further.linked 0x400000 _
    ((further.blocks 2).trans (mapped.blocks 2))
  have run : ExactRun remapped last :=
    .cons ⟨load, fun _ _ _ _ => fits⟩ <| .cons ⟨mapFirst, fun _ _ _ => ⟨by decide, by decide⟩⟩ <|
      .cons ⟨mapSecond, fun _ _ _ => ⟨by decide, by decide⟩⟩ <| .single ⟨unmap, fun _ => by decide⟩
  have faithful := (translationFaithful run).1
  refine ⟨last, run, ?_, ?_, ?_⟩
  · rw [faithful.translates _ fun _ => by decide]
    exact ⟨⟨0, 0⟩, by decide, by decide, by decide⟩
  · rw [faithful.translates _ fun _ => by decide]
    exact ⟨⟨0x600000, 0x300000000⟩, by decide, by decide, by decide⟩
  · exact faithful.fails _ (fun _ => by decide) (by decide)

/-- Beyond 512 GiB an address is taken for another, and beyond 256 TiB a host address
loses its high bits. -/
theorem translation_drops_bits :
    (∃ events here, Run Step new events here ∧ translated here 0 = some (.ok 0) ∧
      ∀ mapping ∈ liveMappings events, ¬mapping.Covers 0) ∧
    ∃ events here, Run Step new events here ∧ translated here 0 = some (.ok 0) ∧
      liveMappings events = [⟨0, 2 ^ 48⟩] := by
  constructor
  · obtain ⟨here, step, mapped⟩ := @mapPage_first 0x8000000000 0 ⟨by decide, by decide⟩
    obtain ⟨host, found, address⟩ := @translated_some here mapped.linked 0 0 (mapped.blocks 0)
    refine ⟨_, here, .single step, ?_, by decide⟩
    rw [found, BitVec.eq_of_toNat_eq (x := host) (y := 0) address]
  · obtain ⟨here, step, mapped⟩ := @mapPage_first 0 0x1000000000000 ⟨by decide, by decide⟩
    obtain ⟨host, found, address⟩ := @translated_some here mapped.linked 0 0 (mapped.blocks 0)
    refine ⟨_, here, .single step, ?_, rfl⟩
    rw [found, BitVec.eq_of_toNat_eq (x := host) (y := 0) address]

end Rvm.Hal
