import Mathlib.Data.List.Nodup
import Mathlib.Data.List.Perm.Subperm
import Rvm.Cap.Ancestry

/-!
Owns the revocation sweep of `rvm-launch/src/stream_obligation.rs`: in rounds, what hangs
from the handles of a session by parent slots.
-/

namespace Rvm.Launch

open Cap CapabilityTable Traced List

structure Sweep where
  table : CapabilityTable
  gone : List Nat
  revoked : Nat

namespace Sweep

/-- `caps.remove(index, generation)`, counted; a stale handle is passed over. -/
def removeCounting (N count : Nat) (here : Sweep) (handle : Nat × Nat) : Sweep :=
  match here.table.remove N handle.1 handle.2 with
  | .ok after => ⟨after, here.gone ++ [handle.1], here.revoked + count⟩
  | .error _ => here

def remove (N : Nat) : Sweep → Nat × Nat → Sweep := removeCounting N 0

def removeChild (N : Nat) : Sweep → Nat × Nat → Sweep := removeCounting N 1

def slotsInUse (N : Nat) (table : CapabilityTable) : List (Nat × CapSlot) :=
  ((List.range N).filter fun index => (table.slots index).isValid).map fun index =>
    (asU32 index, table.slots index)

/-- The capabilities whose parent's slot was revoked. -/
def children (N : Nat) (here : Sweep) : List (Nat × Nat) :=
  ((slotsInUse N here.table).filter fun entry =>
    0 < entry.2.depth && here.gone.contains entry.2.parentIndex).map fun entry =>
      (entry.1, entry.2.generation)

/-- The rounds of the sweep, of which it takes a bounded number. -/
def rounds (N : Nat) : Nat → Sweep → Option Sweep
  | 0, _ => none
  | fuel + 1, here =>
    match children N here with
    | [] => some here
    | child :: rest => rounds N fuel ((child :: rest).foldl (removeChild N) here)

def revokeAll (N : Nat) (table : CapabilityTable) (handles : List (Nat × Nat)) : Option Sweep :=
  let roots := handles.foldl (remove N) ⟨table, [], 0⟩
  rounds N (N + 1) { roots with revoked := roots.gone.length }

/-- A capability in use that is one of the handles, or whose parent's slot holds one
that hangs from a handle. -/
inductive Hangs (N : Nat) (table : CapabilityTable) (handles : List (Nat × Nat)) : Nat → Prop
  | handle {index : Nat} : InUse N table index →
      (index, (table.slots index).generation) ∈ handles → Hangs N table handles index
  | child {index : Nat} : InUse N table index → 0 < (table.slots index).depth →
      Hangs N table handles (table.slots index).parentIndex → Hangs N table handles index

variable {N : Nat} {table : CapabilityTable} {handles : List (Nat × Nat)} {here : Sweep}

theorem Hangs.inUse {index : Nat} (hangs : Hangs N table handles index) : InUse N table index := by
  cases hangs with
  | handle inUse => exact inUse
  | child inUse => exact inUse

structure Partial (N : Nat) (table : CapabilityTable) (handles : List (Nat × Nat)) (here : Sweep) :
    Prop where
  nodup : here.gone.Nodup
  hangs : ∀ index ∈ here.gone, Hangs N table handles index
  slots : ∀ index, here.table.slots index =
    if index ∈ here.gone then (table.slots index).invalidate else table.slots index

theorem partial_start : Partial N table handles ⟨table, [], 0⟩ where
  nodup := nodup_nil
  hangs := nofun
  slots _ := (if_neg not_mem_nil).symm

theorem Partial.inUse (swept : Partial N table handles here) {index : Nat}
    (inUse : InUse N here.table index) :
    index ∉ here.gone ∧ InUse N table index ∧ here.table.slots index = table.slots index := by
  have slot := swept.slots index
  by_cases gone : index ∈ here.gone
  · rw [if_pos gone] at slot
    exact (inUse.2 (by rw [slot]; rfl)).elim
  · rw [if_neg gone] at slot
    exact ⟨gone, ⟨inUse.1, slot ▸ inUse.2⟩, slot⟩

theorem Partial.removed (swept : Partial N table handles here) {handle : Nat × Nat} {revoked : Nat}
    {after : CapabilityTable} (removed : here.table.remove N handle.1 handle.2 = .ok after)
    (hangs : Live N table handle.1 handle.2 → Hangs N table handles handle.1) :
    Partial N table handles ⟨after, here.gone ++ [handle.1], revoked⟩ := by
  obtain ⟨live, -, slots⟩ := remove_spec removed
  obtain ⟨fresh, before, same⟩ := swept.inUse ⟨live.1, live.2.2 ▸ live.2.1⟩
  have below := hangs ⟨live.1, live.2.1, same ▸ live.2.2⟩
  constructor
  · exact swept.nodup.append (nodup_singleton _) (disjoint_singleton.mpr fresh)
  · intro index member
    rcases mem_append.mp member with earlier | new
    · exact swept.hangs index earlier
    · exact mem_singleton.mp new ▸ below
  · intro index
    rw [slots]
    by_cases last : index = handle.1
    · subst last
      rw [Function.update_self, same, if_pos (by simp)]
    · rw [Function.update_of_ne last, swept.slots index]
      simp [last]

theorem Partial.removeCounting (swept : Partial N table handles here) (count : Nat)
    {handle : Nat × Nat} (hangs : Live N table handle.1 handle.2 → Hangs N table handles handle.1) :
    Partial N table handles (removeCounting N count here handle) ∧
      here.gone ⊆ (removeCounting N count here handle).gone ∧
      (Live N table handle.1 handle.2 → handle.1 ∈ (removeCounting N count here handle).gone) := by
  unfold Sweep.removeCounting
  cases outcome : here.table.remove N handle.1 handle.2 with
  | ok after =>
    exact ⟨swept.removed outcome hangs, subset_append_left _ _, fun _ => by simp⟩
  | error reason =>
    refine ⟨swept, List.Subset.refl _, fun live => ?_⟩
    by_contra present
    have same := swept.slots handle.1
    rw [if_neg present] at same
    have found := live_iff_lookup.mp (⟨live.1, live.2.1, same ▸ live.2.2⟩ : Live N here.table _ _)
    rw [CapabilityTable.remove, found] at outcome
    cases outcome

theorem Partial.foldl (swept : Partial N table handles here) (count : Nat)
    (items : List (Nat × Nat))
    (hangs : ∀ item ∈ items, Live N table item.1 item.2 → Hangs N table handles item.1) :
    Partial N table handles (items.foldl (Sweep.removeCounting N count) here) ∧
      here.gone ⊆ (items.foldl (Sweep.removeCounting N count) here).gone ∧
      ∀ item ∈ items, Live N table item.1 item.2 →
        item.1 ∈ (items.foldl (Sweep.removeCounting N count) here).gone := by
  induction items generalizing here with
  | nil => exact ⟨swept, List.Subset.refl _, nofun⟩
  | cons item rest ih =>
    obtain ⟨first, grows, gone⟩ := swept.removeCounting count (hangs item mem_cons_self)
    obtain ⟨final, growsOn, others⟩ := ih first fun other member =>
      hangs other (mem_cons_of_mem _ member)
    refine ⟨final, List.Subset.trans grows growsOn, fun other member live => ?_⟩
    rcases mem_cons.mp member with rfl | member
    · exact growsOn (gone live)
    · exact others other member live

theorem foldl_counted (items : List (Nat × Nat)) (counted : here.revoked = here.gone.length) :
    (items.foldl (removeChild N) here).revoked = (items.foldl (removeChild N) here).gone.length := by
  induction items generalizing here with
  | nil => exact counted
  | cons item rest ih =>
    apply ih
    unfold removeChild removeCounting
    split
    · simp [counted]
    · exact counted

theorem mem_children {child : Nat × Nat} (capacity : N ≤ u32Max) :
    child ∈ children N here ↔ InUse N here.table child.1 ∧
      0 < (here.table.slots child.1).depth ∧ (here.table.slots child.1).parentIndex ∈ here.gone ∧
      child.2 = (here.table.slots child.1).generation := by
  have small : ∀ index, index < N → asU32 index = index := fun index below =>
    asU32_of_lt (Nat.lt_of_lt_of_le below capacity)
  simp only [children, slotsInUse, mem_map, mem_filter, mem_range,
    Bool.and_eq_true, decide_eq_true_eq, contains_iff_mem, CapSlot.isValid_eq_true]
  constructor
  · rintro ⟨_, ⟨⟨index, ⟨below, used⟩, rfl⟩, deep, orphaned⟩, rfl⟩
    rw [small index below]
    exact ⟨⟨below, used⟩, deep, orphaned, rfl⟩
  · rintro ⟨⟨below, used⟩, deep, orphaned, generation⟩
    refine ⟨(child.1, here.table.slots child.1), ⟨⟨child.1, ⟨below, used⟩, ?_⟩, deep, orphaned⟩, ?_⟩
    · rw [small _ below]
    · rw [← generation]

theorem Partial.length_le (swept : Partial N table handles here) : here.gone.length ≤ N := by
  have inside : here.gone ⊆ List.range N := fun index member =>
    mem_range.mpr (swept.hangs index member).inUse.1
  simpa using (subperm_of_subset swept.nodup inside).length_le

theorem Partial.child_hangs (capacity : N ≤ u32Max) (swept : Partial N table handles here)
    {child : Nat × Nat} (member : child ∈ children N here) :
    Hangs N table handles child.1 ∧ Live N table child.1 child.2 ∧ child.1 ∉ here.gone := by
  obtain ⟨inUse, deep, orphaned, generation⟩ := (mem_children capacity).mp member
  obtain ⟨fresh, before, same⟩ := swept.inUse inUse
  rw [same] at deep orphaned generation
  exact ⟨.child before deep (swept.hangs _ orphaned),
    ⟨before.1, generation ▸ before.2, generation.symm⟩, fresh⟩

theorem rounds_spec (capacity : N ≤ u32Max) {fuel : Nat} (swept : Partial N table handles here)
    (counted : here.revoked = here.gone.length) (enough : N < here.gone.length + fuel) :
    ∃ final, rounds N fuel here = some final ∧ Partial N table handles final ∧
      final.revoked = final.gone.length ∧ here.gone ⊆ final.gone ∧ children N final = [] := by
  induction fuel generalizing here with
  | zero =>
    have most := swept.length_le
    omega
  | succ fuel ih =>
    unfold rounds
    cases found : children N here with
    | nil => exact ⟨here, rfl, swept, counted, List.Subset.refl _, found⟩
    | cons child rest =>
      have every : ∀ item ∈ child :: rest, Hangs N table handles item.1 ∧
          Live N table item.1 item.2 ∧ item.1 ∉ here.gone := fun item member =>
        swept.child_hangs capacity (found ▸ member)
      obtain ⟨next, grows, removed⟩ := swept.foldl 1 (child :: rest) fun item member _ =>
        (every item member).1
      have first := every child mem_cons_self
      -- The first child of the round is gone after it, and was not before.
      have more : here.gone.length <
          ((child :: rest).foldl (removeChild N) here).gone.length := by
        have both : child.1 :: here.gone ⊆ ((child :: rest).foldl (removeChild N) here).gone :=
          cons_subset.mpr ⟨removed child mem_cons_self first.2.1, grows⟩
        have distinct : (child.1 :: here.gone).Nodup :=
          nodup_cons.mpr ⟨first.2.2, swept.nodup⟩
        exact (subperm_of_subset distinct both).length_le
      have left : N < ((child :: rest).foldl (removeChild N) here).gone.length + fuel := by
        omega
      obtain ⟨final, ended, last, total, growsOn, none⟩ :=
        ih next (foldl_counted _ counted) left
      exact ⟨final, ended, last, total, List.Subset.trans grows growsOn, none⟩

theorem revokeAll_spec (capacity : N ≤ u32Max) (table : CapabilityTable)
    (handles : List (Nat × Nat)) :
    ∃ final, revokeAll N table handles = some final ∧ final.gone.Nodup ∧
      final.revoked = final.gone.length ∧
      (∀ index, index ∈ final.gone ↔ Hangs N table handles index) ∧
      ∀ index, final.table.slots index =
        if index ∈ final.gone then (table.slots index).invalidate else table.slots index := by
  obtain ⟨roots, -, removed⟩ := (@partial_start N table handles).foldl 0 handles
    fun item member live => .handle ⟨live.1, live.2.2 ▸ live.2.1⟩ (by rw [live.2.2]; exact member)
  have counting : Partial N table handles { handles.foldl (remove N) ⟨table, [], 0⟩ with
      revoked := (handles.foldl (remove N) ⟨table, [], 0⟩).gone.length } :=
    ⟨roots.nodup, roots.hangs, roots.slots⟩
  obtain ⟨final, ended, swept, counted, grows, none⟩ :=
    @rounds_spec N table handles _ capacity (N + 1) counting rfl (by omega)
  refine ⟨final, ended, swept.nodup, counted, fun index => ⟨swept.hangs index, fun hangs => ?_⟩,
    swept.slots⟩
  induction hangs with
  | handle inUse among => exact grows (removed _ among ⟨inUse.1, inUse.2, rfl⟩)
  | @child index inUse deep _ ih =>
    by_contra present
    have same := swept.slots index
    rw [if_neg present] at same
    have orphan : (index, (final.table.slots index).generation) ∈ children N final :=
      (mem_children capacity).mpr ⟨⟨inUse.1, same ▸ inUse.2⟩, same ▸ deep, same ▸ ih, rfl⟩
    rw [none] at orphan
    cases orphan

end Sweep

end Rvm.Launch
