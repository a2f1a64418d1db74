import Rvm.Coherence.MinCut
import Rvm.Foundation.MinCut
import Rvm.Foundation.Saturation

/-!
Owns the correctness of the phases and merges of the minimum cut over weights that saturate:
a phase is a maximum adjacency ordering and a merge is a contraction.
-/

namespace Rvm.Coherence

open Finset Foundation Function

def activeSet (n : Nat) (active : Nat → Bool) : Finset Nat :=
  (Finset.range n).filter fun i => active i = true

def groupSet (n : Nat) (groups : Nat → Nat → Bool) (i : Nat) : Finset Nat :=
  (Finset.range n).filter fun j => groups i j = true

theorem mem_activeSet {n i : Nat} {active : Nat → Bool} :
    i ∈ activeSet n active ↔ i < n ∧ active i = true := by
  rw [activeSet, mem_filter, mem_range]

theorem mem_groupSet {n i j : Nat} {groups : Nat → Nat → Bool} :
    j ∈ groupSet n groups i ↔ j < n ∧ groups i j = true := by
  rw [groupSet, mem_filter, mem_range]

/-! ### Sums that do not saturate -/

/-- No key saturates when the tightest node joins `A`. -/
def AdvanceFits (n : Nat) (w : Nat → Nat → Nat) (active : Nat → Bool) (phase : PhaseState) : Prop :=
  ∀ i, i < n → active i = true → (phase.advance n w active).inA i = false →
    phase.key i + w (phase.advance n w active).last i ≤ u64Max

def phaseAfter (n : Nat) (w : Nat → Nat → Nat) (active : Nat → Bool) (joined : Nat) : PhaseState :=
  Nat.repeat (PhaseState.advance n w active) joined (startPhase n w active)

/-- No weight saturates when the last two nodes of a phase are merged. -/
def MergeFits (n : Nat) (state : CutState) (s t : Nat) : Prop :=
  ∀ i, i < n → state.active i = true → i ≠ s → i ≠ t →
    state.w s i + state.w t i ≤ u64Max ∧ state.w i s + state.w i t ≤ u64Max

/-- No sum that one phase and its merge compute saturates. -/
structure StepFits (n activeCount : Nat) (state : CutState) : Prop where
  keys : ∀ joined, joined < activeCount - 1 →
    AdvanceFits n state.w state.active (phaseAfter n state.w state.active joined)
  merge : MergeFits n state (minimumCutPhase n state.w state.active activeCount).secondToLast
    (minimumCutPhase n state.w state.active activeCount).last

/-- No sum that the phases compute saturates. -/
def PhasesFit (n : Nat) : Nat → CutState → Prop
  | 0, _ => True
  | 1, _ => True
  | activeCount + 2, state =>
    StepFits n (activeCount + 2) state ∧
      PhasesFit n (activeCount + 1) (state.step n (activeCount + 2))

/-- The weights as the sums of the phases take them. -/
def capped (w : Nat → Nat → Nat) (i j : Nat) : Capped u64Max := saturate u64Max (w i j)

theorem across_capped (adj : Nat → Nat → Nat) (left right : Finset Nat) :
    across (capped adj) left right = saturate u64Max (across adj left right) := by
  simp only [across, capped, map_sum]

/-! ### One phase -/

section Phase

variable {n : Nat} {w : Nat → Nat → Nat} {active : Nat → Bool}

/-- What the fold has found among the first nodes: no candidate, or one with the
largest key. -/
structure Foremost (active inA : Nat → Bool) (key : Nat → Nat) (visited : Nat)
    (best : Nat × Nat × Bool) : Prop where
  nothing : best.2.2 = false → ∀ i, i < visited → active i = true → inA i = true
  value : best.2.2 = true → best.1 = key best.2.1
  candidate : best.2.2 = true → best.2.1 < visited ∧ active best.2.1 = true ∧ inA best.2.1 = false
  largest : best.2.2 = true → ∀ i, i < visited → active i = true → inA i = false → key i ≤ best.1

theorem tightest_foremost (inA : Nat → Bool) (key : Nat → Nat) (visited : Nat) :
    Foremost active inA key visited (tightest visited active inA key) := by
  induction visited with
  | zero =>
    have unfound : (tightest 0 active inA key).2.2 ≠ true := Bool.false_ne_true
    exact ⟨fun _ i below => absurd below (Nat.not_lt_zero i), fun found => absurd found unfound,
      fun found => absurd found unfound, fun found => absurd found unfound⟩
  | succ k ih =>
    have unfolded : tightest (k + 1) active inA key =
        if active k = true ∧ inA k = false ∧
            (key k > (tightest k active inA key).1 ∨ (tightest k active inA key).2.2 = false) then
          (key k, k, true)
        else tightest k active inA key := by
      rw [tightest, List.range_succ, List.foldl_append]
      rfl
    rw [unfolded]
    generalize tightest k active inA key = best at ih ⊢
    split
    · rename_i better
      refine ⟨fun found => absurd found.symm Bool.false_ne_true, fun _ => rfl,
        fun _ => ⟨Nat.lt_succ_self k, better.1, better.2.1⟩, fun _ i below isActive notInA => ?_⟩
      rcases Nat.lt_succ_iff_lt_or_eq.mp below with earlier | rfl
      · cases found : best.2.2 with
        | false =>
          rw [ih.nothing found i earlier isActive] at notInA
          cases notInA
        | true =>
          rcases better.2.2 with larger | first
          · exact (ih.largest found i earlier isActive notInA).trans larger.le
          · rw [first] at found
            cases found
      · exact le_refl _
    · rename_i worse
      refine ⟨fun found i below isActive => ?_, ih.value, fun found => ?_,
        fun found i below isActive notInA => ?_⟩
      · rcases Nat.lt_succ_iff_lt_or_eq.mp below with earlier | rfl
        · exact ih.nothing found i earlier isActive
        · by_contra notInA
          exact worse ⟨isActive, by simpa using notInA, .inr found⟩
      · obtain ⟨bound, isActive, notInA⟩ := ih.candidate found
        exact ⟨Nat.lt_succ_of_lt bound, isActive, notInA⟩
      · rcases Nat.lt_succ_iff_lt_or_eq.mp below with earlier | rfl
        · exact ih.largest found i earlier isActive notInA
        · exact Nat.not_lt.mp fun larger => worse ⟨isActive, notInA, .inl larger⟩

theorem tightest_spec {inA : Nat → Bool} {key : Nat → Nat} {i : Nat} (below : i < n)
    (isActive : active i = true) (notInA : inA i = false) :
    (tightest n active inA key).2.1 ∈ activeSet n active ∧
      inA (tightest n active inA key).2.1 = false ∧
      ∀ j ∈ activeSet n active, inA j = false → key j ≤ key (tightest n active inA key).2.1 := by
  have foremost := @tightest_foremost active inA key n
  cases found : (tightest n active inA key).2.2 with
  | false =>
    rw [foremost.nothing found i below isActive] at notInA
    cases notInA
  | true =>
    obtain ⟨bound, chosenActive, chosenNotInA⟩ := foremost.candidate found
    refine ⟨mem_activeSet.mpr ⟨bound, chosenActive⟩, chosenNotInA, fun j member left => ?_⟩
    obtain ⟨inside, activeJ⟩ := mem_activeSet.mp member
    rw [← foremost.value found]
    exact foremost.largest found j inside activeJ left

def placedSet (n : Nat) (active : Nat → Bool) (phase : PhaseState) : Finset Nat :=
  (activeSet n active).filter fun i => phase.inA i = true

structure Ordered (n : Nat) (w : Nat → Nat → Nat) (active : Nat → Bool) (joined : Nat)
    (phase : PhaseState) : Prop where
  ordering : ∃ before, MaxAdjacent (capped w) (activeSet n active) (placedSet n active phase) before
    phase.last ∧ (0 < joined → before = phase.secondToLast)
  placed : ∀ i, phase.inA i = true → i ∈ activeSet n active
  count : (placedSet n active phase).card = joined + 1
  keys : ∀ i ∈ activeSet n active, phase.inA i = false →
    saturate u64Max (phase.key i) = pull (capped w) (placedSet n active phase) i
  lastKey : 0 < joined → saturate u64Max (phase.key phase.last) =
    pull (capped w) ((placedSet n active phase).erase phase.last) phase.last
  root : 0 ∈ activeSet n active → phase.inA 0 = true ∧ (0 < joined → phase.last ≠ 0)

theorem ordered_start (nonempty : (activeSet n active).Nonempty) :
    Ordered n w active 0 (startPhase n w active) := by
  obtain ⟨start, found⟩ : ∃ start, (List.range n).find? active = some start := by
    obtain ⟨i, member⟩ := nonempty
    obtain ⟨below, isActive⟩ := mem_activeSet.mp member
    refine Option.isSome_iff_exists.mp (List.find?_isSome.mpr ⟨i, List.mem_range.mpr below, isActive⟩)
  have startActive : start ∈ activeSet n active :=
    mem_activeSet.mpr ⟨List.mem_range.mp (List.mem_of_find?_eq_some found), List.find?_some found⟩
  have inA : ∀ i, (startPhase n w active).inA i = true ↔ i = start := by
    intro i
    rw [startPhase, found]
    dsimp only [Option.getD_some]
    by_cases here : i = start
    · rw [here, update_self]
      exact iff_of_true rfl rfl
    · rw [update_of_ne here]
      exact iff_of_false Bool.false_ne_true here
  have placed : placedSet n active (startPhase n w active) = {start} := by
    ext i
    rw [placedSet, mem_filter, inA, mem_singleton]
    exact ⟨And.right, fun here => ⟨here ▸ startActive, here⟩⟩
  have last : (startPhase n w active).last = start := by
    rw [startPhase, found]
    rfl
  refine ⟨⟨start, ?_, fun positive => absurd positive (Nat.lt_irrefl 0)⟩, fun i isIn => ?_, ?_,
    fun i member left => ?_, fun positive => absurd positive (Nat.lt_irrefl 0), fun member => ?_⟩
  · rw [placed, last]
    exact .start startActive
  · rw [(inA i).mp isIn]
    exact startActive
  · rw [placed, card_singleton]
  · obtain ⟨below, isActive⟩ := mem_activeSet.mp member
    rw [placed, pull, sum_singleton]
    rw [startPhase, found] at left ⊢
    exact congrArg _ (if_pos ⟨below, isActive, left⟩)
  · -- the first active node is the first of all
    refine ⟨(inA 0).mpr ?_, fun positive => absurd positive (Nat.lt_irrefl 0)⟩
    by_contra later
    have inactive := (List.find?_range_eq_some.mp found).2.2 0 (Nat.pos_of_ne_zero (Ne.symm later))
    rw [(mem_activeSet.mp member).2] at inactive
    cases inactive

theorem Ordered.advance {joined : Nat} {phase : PhaseState} (ordered : Ordered n w active joined phase)
    (more : joined + 1 < (activeSet n active).card) :
    Ordered n w active (joined + 1) (phase.advance n w active) := by
  obtain ⟨i, member, left⟩ : ∃ i ∈ activeSet n active, phase.inA i = false := by
    by_contra none
    push Not at none
    have full : placedSet n active phase = activeSet n active :=
      filter_true_of_mem fun i member => by simpa using none i member
    rw [← ordered.count, full] at more
    exact lt_irrefl _ more
  obtain ⟨below, isActive⟩ := mem_activeSet.mp member
  obtain ⟨chosen, fresh, largest⟩ := @tightest_spec n active phase.inA phase.key i below isActive left
  set node := (tightest n active phase.inA phase.key).2.1 with nodeEq
  have inA : ∀ j, (phase.advance n w active).inA j = true ↔ j = node ∨ phase.inA j = true := by
    intro j
    change update phase.inA node true j = true ↔ _
    by_cases here : j = node
    · rw [here, update_self]
      exact iff_of_true rfl (.inl rfl)
    · rw [update_of_ne here]
      exact (or_iff_right here).symm
  have last : (phase.advance n w active).last = node := rfl
  have notPlaced : node ∉ placedSet n active phase := by
    rw [placedSet, mem_filter, fresh]
    exact fun isPlaced => Bool.false_ne_true isPlaced.2
  have placed : placedSet n active (phase.advance n w active) =
      insert node (placedSet n active phase) := by
    ext j
    rw [placedSet, mem_filter, inA, mem_insert, placedSet, mem_filter]
    constructor
    · rintro ⟨activeJ, here | earlier⟩
      · exact .inl here
      · exact .inr ⟨activeJ, earlier⟩
    · rintro (here | ⟨activeJ, earlier⟩)
      · exact ⟨here ▸ chosen, .inl here⟩
      · exact ⟨activeJ, .inr earlier⟩
  have notIn : ∀ j ∈ activeSet n active, j ∉ placedSet n active phase → phase.inA j = false := by
    intro j activeJ outside
    rw [placedSet, mem_filter] at outside
    simpa [activeJ] using outside
  obtain ⟨before, ordering, _⟩ := ordered.ordering
  refine ⟨⟨phase.last, ?_, fun _ => rfl⟩, fun j isIn => ?_, ?_, fun j activeJ leftJ => ?_, fun _ => ?_,
    fun member => ?_⟩
  · rw [placed, last]
    refine .place ordering chosen notPlaced fun u activeU outside => ?_
    have leftU := notIn u activeU outside
    rw [← ordered.keys u activeU leftU, ← ordered.keys node chosen fresh]
    exact saturate_le (largest u activeU leftU)
  · rcases (inA j).mp isIn with here | earlier
    · exact here ▸ chosen
    · exact ordered.placed j earlier
  · rw [placed, card_insert_of_notMem notPlaced, ordered.count]
  · obtain ⟨belowJ, isActiveJ⟩ := mem_activeSet.mp activeJ
    have leftBefore : phase.inA j = false := by
      cases isIn : phase.inA j with
      | false => rfl
      | true =>
        rw [(inA j).mpr (.inr isIn)] at leftJ
        cases leftJ
    have key : (phase.advance n w active).key j = saturatingAdd64 (phase.key j) (w node j) :=
      if_pos ⟨belowJ, isActiveJ, leftJ⟩
    rw [key, saturatingAdd64, saturate_add, ordered.keys j activeJ leftBefore, placed,
      pull_insert notPlaced, capped]
  · have key : (phase.advance n w active).key node = phase.key node :=
      if_neg fun left => Bool.noConfusion (((inA node).mpr (.inl rfl)).symm.trans left.2.2)
    rw [last, key, placed, erase_insert notPlaced, ordered.keys node chosen fresh]
  · have isIn := (ordered.root member).1
    refine ⟨(inA 0).mpr (.inr isIn), fun _ here => ?_⟩
    rw [last] at here
    rw [here, isIn] at fresh
    cases fresh

theorem ordered_after (nonempty : (activeSet n active).Nonempty) {joined : Nat}
    (room : joined < (activeSet n active).card) :
    Ordered n w active joined (phaseAfter n w active joined) := by
  induction joined with
  | zero => exact ordered_start nonempty
  | succ joined ih =>
    exact (ih (Nat.lt_of_succ_lt room)).advance room

theorem minimumCutPhase_spec {activeCount : Nat} (count : (activeSet n active).card = activeCount)
    (many : 2 ≤ activeCount) :
    let phase := minimumCutPhase n w active activeCount
    ∃ placed before, MaxAdjacent (capped w) (activeSet n active) placed before phase.secondToLast ∧
      phase.last ∉ placed ∧ insert phase.last placed = activeSet n active ∧
      saturate u64Max (phase.key phase.last) = pull (capped w) placed phase.last ∧
      (0 ∈ activeSet n active → phase.last ≠ 0) := by
  intro phase
  have nonempty : (activeSet n active).Nonempty := card_pos.mp (by omega)
  have ordered : Ordered n w active (activeCount - 1) phase :=
    ordered_after nonempty (by omega)
  have full : placedSet n active phase = activeSet n active := by
    refine eq_of_subset_of_card_le (filter_subset _ _) ?_
    rw [ordered.count, count]
    omega
  obtain ⟨before, ordering, second⟩ := ordered.ordering
  rw [second (by omega)] at ordering
  obtain ⟨earlier, beforeThat, earlierOrdering, fresh, all⟩ :=
    ordering.lastStep (by rw [ordered.count]; omega)
  refine ⟨earlier, beforeThat, earlierOrdering, fresh, all.trans full, ?_,
    fun member => (ordered.root member).2 (by omega)⟩
  rw [ordered.lastKey (by omega), ← all, erase_insert fresh]

end Phase

/-! ### Merges -/

section Merges

variable {n : Nat} {adj : Nat → Nat → Nat} {state : CutState} {s t : Nat}

theorem activeSet_retire (active : Nat → Bool) (t : Nat) :
    activeSet n (update active t false) = (activeSet n active).erase t := by
  ext i
  rw [mem_activeSet, mem_erase, mem_activeSet]
  by_cases here : i = t
  · rw [here, update_self]
    exact iff_of_false (fun held => Bool.false_ne_true held.2) fun held => held.1 rfl
  · rw [update_of_ne here]
    exact ⟨fun held => ⟨here, held⟩, And.right⟩

theorem groupSet_merge (groups : Nat → Nat → Bool) (s t : Nat) :
    groupSet n (mergeGroups n s t groups) =
      update (groupSet n groups) s (groupSet n groups s ∪ groupSet n groups t) := by
  funext i
  by_cases here : i = s
  · rw [here, update_self]
    ext j
    rw [mem_union, mem_groupSet, mem_groupSet, mem_groupSet, mergeGroups, update_self]
    simp only [Bool.or_eq_true, Bool.and_eq_true, decide_eq_true_eq]
    tauto
  · rw [update_of_ne here, groupSet, mergeGroups, update_of_ne here, groupSet]

theorem mergeWeights_symmetric {active : Nat → Bool} {w : Nat → Nat → Nat}
    (symmetric : ∀ i j, w i j = w j i) (i j : Nat) :
    mergeWeights n active s t w i j = mergeWeights n active s t w j i := by
  unfold mergeWeights
  by_cases row : i = s ∧ j < n ∧ active j = true ∧ j ≠ s ∧ j ≠ t
  · have notColumn : ¬ (j = s ∧ i < n ∧ active i = true ∧ i ≠ s ∧ i ≠ t) :=
      fun column => column.2.2.2.1 row.1
    rw [if_pos row, if_neg notColumn, if_pos row, symmetric s j, symmetric t j]
  · by_cases column : j = s ∧ i < n ∧ active i = true ∧ i ≠ s ∧ i ≠ t
    · rw [if_neg row, if_pos column, if_pos column, symmetric i s, symmetric i t]
    · rw [if_neg row, if_neg column, if_neg column, if_neg row]
      exact symmetric i j

theorem mergeWeights_row {i : Nat} (below : i < n) (isActive : state.active i = true) (notS : i ≠ s)
    (notT : i ≠ t) :
    capped (mergeWeights n state.active s t state.w) s i = capped state.w s i + capped state.w t i := by
  rw [capped, mergeWeights, if_pos ⟨rfl, below, isActive, notS, notT⟩]
  exact saturate_add _ _

theorem mergeWeights_kept {active : Nat → Bool} {w : Nat → Nat → Nat} {i j : Nat} (iNotS : i ≠ s)
    (jNotS : j ≠ s) : mergeWeights n active s t w i j = w i j := by
  rw [mergeWeights, if_neg fun row => iNotS row.1, if_neg fun column => jNotS column.1]

/-- The best cut so far is that of a node that was merged, against all others. -/
structure Attained (n : Nat) (adj : Nat → Nat → Nat) (state : CutState) : Prop where
  retired : state.bestCutNode ∉ activeSet n state.active
  nonempty : (groupSet n state.groups state.bestCutNode).Nonempty
  proper : groupSet n state.groups state.bestCutNode ≠ Finset.range n
  weight : across (capped adj) (groupSet n state.groups state.bestCutNode)
    (Finset.range n \ groupSet n state.groups state.bestCutNode) = saturate u64Max state.bestCutWeight

/-- What holds between two phases. -/
structure Cutting (n : Nat) (adj : Nat → Nat → Nat) (activeCount : Nat) (state : CutState) :
    Prop where
  contraction : Contraction (capped adj) (Finset.range n) (activeSet n state.active)
    (groupSet n state.groups) (capped state.w)
  matrix : ∀ i j, state.w i j = state.w j i
  count : (activeSet n state.active).card = activeCount
  root : 0 ∈ activeSet n state.active
  bounds : Bounds (capped adj) (Finset.range n) (activeSet n state.active) (groupSet n state.groups)
    (saturate u64Max state.bestCutWeight)
  best : state.bestCutWeight < u64Max ∧ Attained n adj state ∨
    state.bestCutWeight = u64Max ∧ state.bestCutNode = 0

theorem Cutting.step {activeCount : Nat} (symmetric : ∀ i j, adj i j = adj j i)
    (cutting : Cutting n adj activeCount state) (many : 2 ≤ activeCount) :
    Cutting n adj (activeCount - 1) (state.step n activeCount) := by
  obtain ⟨placed, before, ordering, fresh, all, key, kept⟩ :=
    @minimumCutPhase_spec n state.w state.active activeCount cutting.count many
  unfold CutState.step CutState.contract
  generalize minimumCutPhase n state.w state.active activeCount = phase
    at ordering fresh all key kept
  obtain ⟨inA, keys, s, t⟩ := phase
  dsimp only at ordering fresh all key kept ⊢
  have tActive : t ∈ activeSet n state.active := all ▸ mem_insert_self t placed
  have sPlaced : s ∈ placed := ordering.last_mem.1
  have sActive : s ∈ activeSet n state.active := ordering.last_mem.2 sPlaced
  have apart : s ≠ t := fun same => fresh (same ▸ sPlaced)
  have cut := cutting.contraction.pull_eq (fun i j => congrArg _ (symmetric i j)) fresh all
  have matrix := @mergeWeights_symmetric n s t state.active state.w cutting.matrix
  have merged := cutting.contraction.merge sActive tActive apart
    (fun i j => congrArg _ (matrix i j))
    (fun i member notS notT => mergeWeights_row (mem_activeSet.mp member).1
      (mem_activeSet.mp member).2 notS notT)
    (fun i _ j _ iNotS _ jNotS _ => congrArg _ (mergeWeights_kept iNotS jNotS))
  refine ⟨?_, matrix, ?_, ?_, ?_, ?_⟩
  · rw [activeSet_retire, groupSet_merge]
    exact merged
  · rw [activeSet_retire, card_erase_of_mem tActive, cutting.count]
  · rw [activeSet_retire]
    exact mem_erase.mpr ⟨(kept cutting.root).symm, cutting.root⟩
  · rw [activeSet_retire, groupSet_merge]
    refine cutting.bounds.phase cutting.contraction ordering fresh all sActive ?_ ?_
    · refine saturate_le ?_
      split
      · exact Nat.le_of_lt ‹_›
      · exact le_refl _
    · rw [← key]
      refine saturate_le ?_
      split
      · exact le_refl _
      · exact Nat.not_lt.mp ‹_›
  · have regrouped : ∀ node, node ≠ s → groupSet n (mergeGroups n s t state.groups) node =
        groupSet n state.groups node := fun node notS => by
      rw [groupSet_merge, update_of_ne notS]
    by_cases improves : keys t < state.bestCutWeight
    · have top : state.bestCutWeight ≤ u64Max :=
        cutting.best.elim (fun best => best.1.le) fun best => best.1.le
      simp only [improves, if_true]
      refine .inl ⟨Nat.lt_of_lt_of_le improves top, ?_, ?_, ?_, ?_⟩
      · rw [activeSet_retire]
        exact notMem_erase t _
      · rw [regrouped t apart.symm]
        exact cutting.contraction.nonempty t tActive
      · -- the group of `s` is not empty and not in that of `t`
        rw [regrouped t apart.symm]
        intro whole
        obtain ⟨a, inS⟩ := cutting.contraction.nonempty s sActive
        have known : a ∈ Finset.range n := mem_of_mem_filter a inS
        exact disjoint_left.mp (cutting.contraction.disjoint s sActive t tActive apart) inS
          (whole ▸ known)
      · rw [regrouped t apart.symm, key]
        exact cut.symm
    · simp only [improves, if_false]
      refine cutting.best.imp_left fun best => ⟨best.1, ?_⟩
      have attained := best.2
      have notS : state.bestCutNode ≠ s := fun same => attained.retired (same ▸ sActive)
      refine ⟨?_, ?_, ?_, ?_⟩
      · rw [activeSet_retire]
        exact fun member => attained.retired (mem_of_mem_erase member)
      · rw [regrouped _ notS]
        exact attained.nonempty
      · rw [regrouped _ notS]
        exact attained.proper
      · rw [regrouped _ notS]
        exact attained.weight

/-- Run lemma: the phases return within the budget and end with one group. -/
theorem Cutting.run (symmetric : ∀ i j, adj i j = adj j i) {maxIterations : Nat} :
    ∀ (activeCount : Nat) (state : CutState), Cutting n adj (activeCount + 1) state →
      state.iterationCount + activeCount ≤ maxIterations →
      ∃ final, runPhases n maxIterations (activeCount + 1) state = .ok final ∧
        Cutting n adj 1 final := by
  intro activeCount
  induction activeCount with
  | zero => exact fun state cutting _ => ⟨state, rfl, cutting⟩
  | succ activeCount ih =>
    intro state cutting budget
    have within : ¬ state.iterationCount ≥ maxIterations := by omega
    have next := cutting.step symmetric (by omega)
    have spent : (state.step n (activeCount + 2)).iterationCount = state.iterationCount + 1 := rfl
    obtain ⟨final, returned, last⟩ := ih _ next (by rw [spent]; omega)
    refine ⟨final, ?_, last⟩
    rw [runPhases, if_neg within]
    exact returned

/-- A symmetric matrix with entries for the first nodes only. -/
structure LocalMatrix (n : Nat) (adj : Nat → Nat → Nat) : Prop where
  symmetric : ∀ i j, adj i j = adj j i
  outside : ∀ i j, ¬ (i < n ∧ j < n) → adj i j = 0

theorem cutting_initial (matrix : LocalMatrix n adj) (positive : 0 < n) :
    Cutting n adj n (initialState adj n) := by
  have active : activeSet n (initialState adj n).active = Finset.range n := by
    ext i
    rw [mem_activeSet, mem_range, initialState]
    simp
  have weights : (initialState adj n).w = adj := by
    funext i j
    by_cases inside : i < n ∧ j < n
    · exact if_pos inside
    · exact (if_neg inside).trans (matrix.outside i j inside).symm
  have single : ∀ a ∈ Finset.range n, groupSet n (initialState adj n).groups a = {a} := by
    intro a member
    ext j
    have below := mem_range.mp member
    rw [mem_groupSet, mem_singleton, initialState]
    simp only [decide_eq_true_eq]
    exact ⟨fun held => held.2.2.symm, fun here => ⟨here ▸ below, below, here.symm⟩⟩
  refine ⟨?_, ?_, ?_, ?_, ?_, .inr ⟨rfl, rfl⟩⟩
  · rw [active, weights]
    exact contraction_start (fun i j => congrArg _ (matrix.symmetric i j)) single
  · rw [weights]
    exact matrix.symmetric
  · rw [active, card_range]
  · rw [active]
    exact mem_range.mpr positive
  · rw [active]
    exact bounds_start single _

/-- The phases end with a minimum cut if any cut weighs less than the initial value,
and with all nodes in the first group else. -/
theorem runPhases_minimum {maxIterations : Nat} (matrix : LocalMatrix n adj) (positive : 0 < n)
    (budget : n ≤ maxIterations + 1) :
    ∃ final, runPhases n maxIterations n (initialState adj n) = .ok final ∧
      (∀ part ⊆ Finset.range n, part.Nonempty → part ≠ Finset.range n →
        final.bestCutWeight ≤ across adj part (Finset.range n \ part)) ∧
      (final.bestCutWeight < u64Max ∧ Attained n adj final ∨
        final.bestCutWeight = u64Max ∧ groupSet n final.groups final.bestCutNode = Finset.range n) := by
  obtain ⟨count, rfl⟩ : ∃ count, n = count + 1 := ⟨n - 1, by omega⟩
  have started : (initialState adj (count + 1)).iterationCount + count ≤ maxIterations := by
    have zero : (initialState adj (count + 1)).iterationCount = 0 := rfl
    omega
  obtain ⟨final, returned, cutting⟩ :=
    Cutting.run matrix.symmetric count _ (cutting_initial matrix positive) started
  obtain ⟨i, alone⟩ := card_eq_one.mp cutting.count
  have bounds := cutting.bounds
  have covers := cutting.contraction.covers
  have root := cutting.root
  rw [alone] at bounds covers root
  rw [singleton_biUnion] at covers
  refine ⟨final, returned, fun part inside nonempty proper => ?_, cutting.best.imp_right fun best => ?_⟩
  · have least := bounds.finish covers inside nonempty proper
    have top : final.bestCutWeight ≤ u64Max :=
      cutting.best.elim (fun best => best.1.le) fun best => best.1.le
    rw [across_capped, Capped.le_iff, saturate_value, saturate_value, Nat.min_eq_left top] at least
    exact least.trans (Nat.min_le_left _ _)
  · rw [best.2, mem_singleton.mp root]
    exact ⟨best.1, covers⟩

end Merges

end Rvm.Coherence
