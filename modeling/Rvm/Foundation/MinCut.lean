import Mathlib.Algebra.Order.BigOperators.Group.Finset

/-!
Owns minimum cuts of weighted undirected graphs by maximum adjacency orderings:
the weight across two vertex sets, the cut-of-the-phase theorem, and the
contraction of vertices into groups. Vertices are an arbitrary type and weights
an ordered commutative monoid.
-/

namespace Foundation

open Finset Function

universe u v x

variable {V : Type u} {M : Type v} [AddCommMonoid M]

/-- The weight of the edges between two sets. -/
def across (w : V → V → M) (left right : Finset V) : M := ∑ a ∈ left, ∑ b ∈ right, w a b

/-- The weight of the edges between a set and a vertex. -/
def pull (w : V → V → M) (placed : Finset V) (v : V) : M := ∑ a ∈ placed, w a v

/-- The weight of the edges in a set whose ends are on different sides. -/
def crossing (w : V → V → M) (side : V → Bool) (placed : Finset V) : M :=
  across w (placed.filter fun a => side a = true) (placed.filter fun a => side a = false)

/-- The members of a set on the side of a vertex. -/
def sameSide (side : V → Bool) (placed : Finset V) (v : V) : Finset V :=
  placed.filter fun a => side a = side v

def otherSide (side : V → Bool) (placed : Finset V) (v : V) : Finset V :=
  placed.filter fun a => side a ≠ side v

variable {w : V → V → M} {side : V → Bool} {placed vertices : Finset V}

theorem across_comm (symmetric : ∀ a b, w a b = w b a) (left right : Finset V) :
    across w left right = across w right left := by
  rw [across, across, sum_comm]
  exact sum_congr rfl fun b _ => sum_congr rfl fun a _ => symmetric a b

theorem pull_eq_sides (side : V → Bool) (placed : Finset V) (v : V) :
    pull w placed v = pull w (sameSide side placed v) v + pull w (otherSide side placed v) v :=
  (sum_filter_add_sum_filter_not placed (fun a => side a = side v) fun a => w a v).symm

variable [DecidableEq V]

theorem across_union_left {first second right : Finset V} (disjoint : Disjoint first second) :
    across w (first ∪ second) right = across w first right + across w second right :=
  sum_union disjoint

theorem across_union_right {left first second : Finset V} (disjoint : Disjoint first second) :
    across w left (first ∪ second) = across w left first + across w left second := by
  simp only [across, sum_union disjoint, sum_add_distrib]

variable {v : V}

theorem across_insert_right {left right : Finset V} (fresh : v ∉ right) :
    across w left (insert v right) = across w left right + pull w left v := by
  simp only [across, pull, sum_insert fresh, sum_add_distrib, add_comm]

theorem pull_insert {u : V} (fresh : v ∉ placed) :
    pull w (insert v placed) u = pull w placed u + w v u := by
  rw [pull, sum_insert fresh, add_comm, pull]

theorem crossing_insert (symmetric : ∀ a b, w a b = w b a) (fresh : v ∉ placed) :
    crossing w side (insert v placed) =
      crossing w side placed + pull w (otherSide side placed v) v := by
  have joins : ∀ bit, side v = bit → (insert v placed).filter (fun a => side a = bit) =
      insert v (placed.filter fun a => side a = bit) := by
    intro bit here
    rw [filter_insert, if_pos here]
  have stays : ∀ bit, side v ≠ bit → (insert v placed).filter (fun a => side a = bit) =
      placed.filter fun a => side a = bit := by
    intro bit apart
    rw [filter_insert, if_neg apart]
  have freshIn : ∀ bit, v ∉ placed.filter fun a => side a = bit :=
    fun _ member => fresh (mem_of_mem_filter v member)
  cases here : side v with
  | true =>
    have others : otherSide side placed v = placed.filter fun a => side a = false := by
      simp only [otherSide, here, ne_eq, Bool.not_eq_true]
    rw [crossing, joins true here, stays false (by simp [here]), across_comm symmetric,
      across_insert_right (freshIn true), across_comm symmetric, crossing, others]
  | false =>
    have others : otherSide side placed v = placed.filter fun a => side a = true := by
      simp only [otherSide, here, ne_eq, Bool.not_eq_false]
    rw [crossing, joins false here, stays true (by simp [here]),
      across_insert_right (freshIn false), crossing, others]

/-- The vertices placed by a maximum adjacency ordering, the last but one and the
last of them; each was pulled at least as much as the vertices left. -/
inductive MaxAdjacent [LE M] (w : V → V → M) (vertices : Finset V) : Finset V → V → V → Prop
  | start {v : V} (member : v ∈ vertices) : MaxAdjacent w vertices {v} v v
  | place {placed : Finset V} {before last v : V} (earlier : MaxAdjacent w vertices placed before last)
      (member : v ∈ vertices) (fresh : v ∉ placed)
      (tightest : ∀ u ∈ vertices, u ∉ placed → pull w placed u ≤ pull w placed v) :
      MaxAdjacent w vertices (insert v placed) last v

theorem MaxAdjacent.last_mem [LE M] {before last : V}
    (ordering : MaxAdjacent w vertices placed before last) : last ∈ placed ∧ placed ⊆ vertices := by
  induction ordering with
  | start member => exact ⟨mem_singleton_self _, singleton_subset_iff.mpr member⟩
  | place _ member _ _ ih =>
    exact ⟨mem_insert_self _ _, insert_subset member ih.2⟩

theorem MaxAdjacent.lastStep [LE M] {before last : V}
    (ordering : MaxAdjacent w vertices placed before last) (many : 1 < placed.card) :
    ∃ earlier beforeThat, MaxAdjacent w vertices earlier beforeThat before ∧ last ∉ earlier ∧
      insert last earlier = placed := by
  cases ordering with
  | start member => exact absurd many (by rw [card_singleton]; exact lt_irrefl 1)
  | place earlier _ fresh _ => exact ⟨_, _, earlier, fresh, rfl⟩

section Order

variable [PartialOrder M] [IsOrderedAddMonoid M] [CanonicallyOrderedAdd M]

/-- A vertex left on the other side than the last one placed is pulled by its own
side at most as much as what crosses already. -/
theorem MaxAdjacent.sameSide_le (symmetric : ∀ a b, w a b = w b a) {before last : V}
    (ordering : MaxAdjacent w vertices placed before last) (side : V → Bool) :
    ∀ u ∈ vertices, u ∉ placed → side u ≠ side last →
      pull w (sameSide side placed u) u ≤ crossing w side placed := by
  induction ordering with
  | @start v member =>
    intro u _ _ apart
    have nobody : sameSide side {v} u = ∅ := by
      rw [sameSide, filter_singleton, if_neg apart.symm]
    rw [nobody, pull, sum_empty]
    exact zero_le
  | @place placed before last v earlier member fresh tightest ih =>
    intro u left notPlaced apart
    obtain ⟨notV, notBefore⟩ := not_or.mp (fun either => notPlaced (mem_insert.mpr either))
    have own : sameSide side (insert v placed) u = sameSide side placed u := by
      rw [sameSide, filter_insert, if_neg apart.symm, sameSide]
    -- with two sides, the other side of the new vertex is the side of `u`
    have others : otherSide side placed v = sameSide side placed u := by
      refine filter_congr fun a _ => ?_
      revert apart
      cases side a <;> cases side v <;> cases side u <;> decide
    rw [own, crossing_insert symmetric fresh]
    by_cases sameAsLast : side u = side last
    · have vApart : side v ≠ side last := fun same => apart (sameAsLast.trans same.symm)
      calc pull w (sameSide side placed u) u
          ≤ pull w placed u := by
            rw [pull_eq_sides side placed u]
            exact le_self_add
        _ ≤ pull w placed v := tightest u left notBefore
        _ = pull w (sameSide side placed v) v + pull w (otherSide side placed v) v :=
            pull_eq_sides side placed v
        _ ≤ crossing w side placed + pull w (otherSide side placed v) v :=
            add_le_add_left (ih v member fresh vApart) _
    · exact (ih u left notBefore sameAsLast).trans le_self_add

theorem MaxAdjacent.cutOfPhase (symmetric : ∀ a b, w a b = w b a) {before last t : V}
    (ordering : MaxAdjacent w vertices placed before last) (member : t ∈ vertices)
    (fresh : t ∉ placed) (side : V → Bool) (separates : side t ≠ side last) :
    pull w placed t ≤ crossing w side (insert t placed) := by
  rw [crossing_insert symmetric fresh, pull_eq_sides side placed t]
  exact add_le_add_left (ordering.sameSide_le symmetric side t member fresh separates) _

end Order

section Contraction

variable {ι : Type x} {nodes : Finset V} {active : Finset ι} {group : ι → Finset V}
  {merged : ι → ι → M}

structure Contraction (w : V → V → M) (nodes : Finset V) (active : Finset ι) (group : ι → Finset V)
    (merged : ι → ι → M) : Prop where
  covers : active.biUnion group = nodes
  disjoint : ∀ i ∈ active, ∀ j ∈ active, i ≠ j → Disjoint (group i) (group j)
  nonempty : ∀ i ∈ active, (group i).Nonempty
  weight : ∀ i ∈ active, ∀ j ∈ active, i ≠ j → merged i j = across w (group i) (group j)
  symmetric : ∀ i j, merged i j = merged j i

/-- No group is split between a set and its complement. -/
def Respects (active : Finset ι) (group : ι → Finset V) (part : Finset V) : Prop :=
  ∀ i ∈ active, group i ⊆ part ∨ Disjoint (group i) part

/-- The weight is below that of every cut that splits a group. -/
def Bounds (w : V → V → M) [LE M] (nodes : Finset V) (active : Finset ι) (group : ι → Finset V)
    (best : M) : Prop :=
  ∀ part ⊆ nodes, ¬ Respects active group part → best ≤ across w part (nodes \ part)

theorem across_biUnion {left right : Finset ι}
    (leftDisjoint : ∀ i ∈ left, ∀ j ∈ left, i ≠ j → Disjoint (group i) (group j))
    (rightDisjoint : ∀ i ∈ right, ∀ j ∈ right, i ≠ j → Disjoint (group i) (group j)) :
    across w (left.biUnion group) (right.biUnion group) =
      ∑ i ∈ left, ∑ j ∈ right, across w (group i) (group j) := by
  rw [across, sum_biUnion leftDisjoint]
  refine sum_congr rfl fun i _ => ?_
  simp only [across, sum_biUnion rightDisjoint]
  exact sum_comm

variable {part : Finset V}

theorem biUnion_inside (covers : active.biUnion group = nodes) (inside : part ⊆ nodes)
    (respects : Respects active group part) :
    (active.filter fun i => decide (group i ⊆ part) = true).biUnion group = part := by
  ext a
  simp only [mem_biUnion, mem_filter, decide_eq_true_eq]
  constructor
  · rintro ⟨i, ⟨_, contained⟩, member⟩
    exact contained member
  · intro member
    obtain ⟨i, isActive, inGroup⟩ := mem_biUnion.mp (covers.symm ▸ inside member)
    rcases respects i isActive with contained | disjoint
    · exact ⟨i, ⟨isActive, contained⟩, inGroup⟩
    · exact absurd member (disjoint_left.mp disjoint inGroup)

theorem Contraction.biUnion_outside (contraction : Contraction w nodes active group merged)
    (respects : Respects active group part) :
    (active.filter fun i => decide (group i ⊆ part) = false).biUnion group = nodes \ part := by
  ext a
  simp only [mem_biUnion, mem_filter, decide_eq_false_iff_not, mem_sdiff]
  constructor
  · rintro ⟨i, ⟨isActive, apart⟩, member⟩
    have outside := (respects i isActive).resolve_left apart
    refine ⟨?_, disjoint_left.mp outside member⟩
    rw [← contraction.covers]
    exact mem_biUnion.mpr ⟨i, isActive, member⟩
  · rintro ⟨known, outside⟩
    obtain ⟨i, isActive, inGroup⟩ := mem_biUnion.mp (contraction.covers.symm ▸ known)
    exact ⟨i, ⟨isActive, fun contained => outside (contained inGroup)⟩, inGroup⟩

theorem Contraction.crossing_eq (contraction : Contraction w nodes active group merged)
    (inside : part ⊆ nodes) (respects : Respects active group part) :
    crossing merged (fun i => decide (group i ⊆ part)) active = across w part (nodes \ part) := by
  have among : ∀ bit, ∀ i ∈ active.filter fun i => decide (group i ⊆ part) = bit,
      ∀ j ∈ active.filter fun i => decide (group i ⊆ part) = bit, i ≠ j →
        Disjoint (group i) (group j) := fun _ i memberI j memberJ =>
    contraction.disjoint i (mem_of_mem_filter i memberI) j (mem_of_mem_filter j memberJ)
  have whole := @across_biUnion V M _ w _ ι group _ _ (among true) (among false)
  rw [biUnion_inside contraction.covers inside respects, contraction.biUnion_outside respects]
    at whole
  rw [whole, crossing, across]
  refine sum_congr rfl fun i memberI => sum_congr rfl fun j memberJ => ?_
  obtain ⟨activeI, insideI⟩ := mem_filter.mp memberI
  obtain ⟨activeJ, outsideJ⟩ := mem_filter.mp memberJ
  refine contraction.weight i activeI j activeJ ?_
  rintro rfl
  rw [insideI] at outsideJ
  cases outsideJ

theorem contraction_start {vertex : V → Finset V} (symmetric : ∀ a b, w a b = w b a)
    (single : ∀ a ∈ nodes, vertex a = {a}) : Contraction w nodes nodes vertex w where
  covers := by
    ext a
    rw [mem_biUnion]
    constructor
    · rintro ⟨b, member, inGroup⟩
      rw [single b member, mem_singleton] at inGroup
      exact inGroup ▸ member
    · intro member
      exact ⟨a, member, by rw [single a member]; exact mem_singleton_self a⟩
  disjoint a memberA b memberB different := by
    rw [single a memberA, single b memberB, disjoint_singleton]
    exact different
  nonempty a member := by
    rw [single a member]
    exact singleton_nonempty a
  weight a memberA b memberB _ := by
    rw [single a memberA, single b memberB, across, sum_singleton, sum_singleton]
  symmetric := symmetric

theorem bounds_start [LE M] {vertex : V → Finset V} (single : ∀ a ∈ nodes, vertex a = {a})
    (best : M) : Bounds w nodes nodes vertex best := by
  intro part _ splits
  refine absurd (fun a known => ?_) splits
  rw [single a known]
  by_cases member : a ∈ part
  · exact .inl (singleton_subset_iff.mpr member)
  · exact .inr (disjoint_singleton_left.mpr member)

theorem Bounds.finish [LE M] {best : M} {i : ι} (bounds : Bounds w nodes {i} group best)
    (whole : group i = nodes) (inside : part ⊆ nodes) (nonempty : part.Nonempty)
    (proper : part ≠ nodes) : best ≤ across w part (nodes \ part) := by
  refine bounds part inside fun respects => ?_
  rcases respects i (mem_singleton_self i) with contained | disjoint
  · exact proper (inside.antisymm (whole ▸ contained))
  · obtain ⟨a, member⟩ := nonempty
    exact disjoint_left.mp disjoint (whole ▸ inside member) member

variable [DecidableEq ι] {placed : Finset ι} {s t before last : ι}

theorem Contraction.pull_eq (contraction : Contraction w nodes active group merged)
    (symmetric : ∀ a b, w a b = w b a) (fresh : t ∉ placed) (all : insert t placed = active) :
    pull merged placed t = across w (group t) (nodes \ group t) := by
  have tActive : t ∈ active := all ▸ mem_insert_self t placed
  have placedActive : ∀ i ∈ placed, i ∈ active := fun i member =>
    all ▸ mem_insert_of_mem member
  have apart : ∀ i ∈ placed, i ≠ t := fun i member same => fresh (same ▸ member)
  have outside : placed.biUnion group = nodes \ group t := by
    have disjoint : Disjoint (placed.biUnion group) (group t) :=
      (disjoint_biUnion_left _ _ _).mpr fun i member =>
        contraction.disjoint i (placedActive i member) t tActive (apart i member)
    rw [← contraction.covers, ← all, biUnion_insert, union_sdiff_left,
      sdiff_eq_self_of_disjoint disjoint]
  have among : ∀ i ∈ placed, ∀ j ∈ placed, i ≠ j → Disjoint (group i) (group j) :=
    fun i memberI j memberJ =>
      contraction.disjoint i (placedActive i memberI) j (placedActive j memberJ)
  have alone : ∀ i ∈ ({t} : Finset ι), ∀ j ∈ ({t} : Finset ι), i ≠ j →
      Disjoint (group i) (group j) := by
    intro i memberI j memberJ different
    rw [mem_singleton] at memberI memberJ
    exact absurd (memberI.trans memberJ.symm) different
  have whole := @across_biUnion V M _ w _ ι group _ _ among alone
  rw [outside, singleton_biUnion] at whole
  rw [across_comm symmetric, whole, pull]
  refine sum_congr rfl fun i member => ?_
  rw [sum_singleton]
  exact contraction.weight i (placedActive i member) t tActive (apart i member)

theorem Contraction.merge (contraction : Contraction w nodes active group merged)
    (sActive : s ∈ active) (tActive : t ∈ active) (apart : s ≠ t) {after : ι → ι → M}
    (symmetricAfter : ∀ i j, after i j = after j i)
    (joined : ∀ i ∈ active, i ≠ s → i ≠ t → after s i = merged s i + merged t i)
    (kept : ∀ i ∈ active, ∀ j ∈ active, i ≠ s → i ≠ t → j ≠ s → j ≠ t → after i j = merged i j) :
    Contraction w nodes (active.erase t) (update group s (group s ∪ group t)) after := by
  have others : ∀ i, i ≠ s → update group s (group s ∪ group t) i = group i :=
    fun i different => update_of_ne different _ _
  have self : update group s (group s ∪ group t) s = group s ∪ group t :=
    update_self _ _ _
  have both := contraction.disjoint s sActive t tActive apart
  refine ⟨?_, fun i memberI j memberJ different => ?_, fun i member => ?_,
    fun i memberI j memberJ different => ?_, symmetricAfter⟩
  · rw [← contraction.covers]
    ext a
    simp only [mem_biUnion, mem_erase]
    constructor
    · rintro ⟨i, ⟨_, isActive⟩, member⟩
      by_cases here : i = s
      · rw [here, self, mem_union] at member
        exact member.elim (fun inS => ⟨s, sActive, inS⟩) fun inT => ⟨t, tActive, inT⟩
      · rw [others i here] at member
        exact ⟨i, isActive, member⟩
    · rintro ⟨i, isActive, member⟩
      by_cases either : i = s ∨ i = t
      · refine ⟨s, ⟨apart, sActive⟩, ?_⟩
        rw [self, mem_union]
        rcases either with here | here
        · exact .inl (here ▸ member)
        · exact .inr (here ▸ member)
      · obtain ⟨notS, notT⟩ := not_or.mp either
        exact ⟨i, ⟨notT, isActive⟩, by rwa [others i notS]⟩
  · obtain ⟨notTI, activeI⟩ := mem_erase.mp memberI
    obtain ⟨notTJ, activeJ⟩ := mem_erase.mp memberJ
    by_cases iIsS : i = s
    · rw [iIsS] at different
      rw [iIsS, self, others j different.symm]
      exact disjoint_union_left.mpr
        ⟨contraction.disjoint s sActive j activeJ different,
          contraction.disjoint t tActive j activeJ notTJ.symm⟩
    · by_cases jIsS : j = s
      · rw [jIsS, self, others i iIsS]
        exact disjoint_union_right.mpr
          ⟨contraction.disjoint i activeI s sActive iIsS,
            contraction.disjoint i activeI t tActive notTI⟩
      · rw [others i iIsS, others j jIsS]
        exact contraction.disjoint i activeI j activeJ different
  · by_cases here : i = s
    · rw [here, self]
      exact (contraction.nonempty s sActive).inl
    · rw [others i here]
      exact contraction.nonempty i (mem_of_mem_erase member)
  · obtain ⟨notTI, activeI⟩ := mem_erase.mp memberI
    obtain ⟨notTJ, activeJ⟩ := mem_erase.mp memberJ
    by_cases iIsS : i = s
    · rw [iIsS] at different
      rw [iIsS, self, others j different.symm, joined j activeJ different.symm notTJ,
        across_union_left both, contraction.weight s sActive j activeJ different,
        contraction.weight t tActive j activeJ notTJ.symm]
    · by_cases jIsS : j = s
      · rw [jIsS, self, others i iIsS, symmetricAfter, joined i activeI iIsS notTI,
          across_union_right both, contraction.symmetric s i, contraction.symmetric t i,
          contraction.weight i activeI s sActive iIsS, contraction.weight i activeI t tActive notTI]
      · rw [others i iIsS, others j jIsS, kept i activeI j activeJ iIsS notTI jIsS notTJ]
        exact contraction.weight i activeI j activeJ different

/-- A part that respects the groups either separates two of them or still respects
the groups after these are joined. -/
theorem Respects.merge (respects : Respects active group part) (sActive : s ∈ active)
    (tActive : t ∈ active) (together : group s ⊆ part ↔ group t ⊆ part) :
    Respects (active.erase t) (update group s (group s ∪ group t)) part := by
  intro i member
  by_cases here : i = s
  · rw [here, update_self]
    rcases respects s sActive with inside | outside
    · exact .inl (union_subset inside (together.mp inside))
    · by_cases tInside : group t ⊆ part
      · exact .inl (union_subset (together.mpr tInside) tInside)
      · exact .inr (disjoint_union_left.mpr
          ⟨outside, (respects t tActive).resolve_left tInside⟩)
  · rw [update_of_ne here]
    exact respects i (mem_of_mem_erase member)

variable [PartialOrder M] [IsOrderedAddMonoid M] [CanonicallyOrderedAdd M]

/-- A phase: a value below the bound so far and the cut of the phase bounds the
cuts that split a group once its last two vertices are contracted. -/
theorem Bounds.phase {best lower : M} (bounds : Bounds w nodes active group best)
    (contraction : Contraction w nodes active group merged)
    (ordering : MaxAdjacent merged active placed before s) (fresh : t ∉ placed)
    (all : insert t placed = active) (sActive : s ∈ active) (below : lower ≤ best)
    (belowCut : lower ≤ pull merged placed t) :
    Bounds w nodes (active.erase t) (update group s (group s ∪ group t)) lower := by
  intro part inside splits
  have tActive : t ∈ active := all ▸ mem_insert_self t placed
  by_cases respects : Respects active group part
  · have separates : ¬ (group s ⊆ part ↔ group t ⊆ part) := fun together =>
      splits (respects.merge sActive tActive together)
    have cut := ordering.cutOfPhase contraction.symmetric tActive fresh
      (fun i => decide (group i ⊆ part)) (by simpa [eq_comm, iff_comm] using separates)
    rw [all, contraction.crossing_eq inside respects] at cut
    exact belowCut.trans cut
  · exact below.trans (bounds part inside respects)

end Contraction

end Foundation
