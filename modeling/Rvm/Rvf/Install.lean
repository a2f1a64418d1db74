import Mathlib.Data.Finset.Card
import Rvm.Cap.Table
import Rvm.Rvf.Declaration

/-!
Owns the installation of a capability mapping into a table (`install_tracked` of
`rvm-rvf/src/capability.rs`): every granted binding becomes a root capability, or
none does.
-/

namespace Rvm.Rvf

open Cap Cap.CapabilityTable List

inductive InstallError where
  | capabilityTableFull
deriving DecidableEq, Repr

section Install

variable (N : Nat) (owner : PartitionId) (epoch firstCapId : Nat)

/-- Binding number `i` as a root capability; the badge is the class. -/
def installBinding (table : CapabilityTable) (i : Nat) (binding : RvmBinding) :
    Except CapError ((Nat × Nat) × CapabilityTable) :=
  insertRoot N table ⟨asU64 (firstCapId + i), binding.capType, binding.rights, epoch⟩ owner
    binding.declared.asU8

def uninstall (table : CapabilityTable) (handle : Nat × Nat) : CapabilityTable :=
  match remove N table handle.1 handle.2 with
  | .ok next => next
  | .error _ => table

/-- The loop of `install_tracked` over the bindings that remain. -/
def installFrom (i : Nat) (handles : List (Nat × Nat)) (table : CapabilityTable) :
    List RvmBinding → Except InstallError (List (Nat × Nat)) × CapabilityTable
  | [] => (.ok handles, table)
  | binding :: rest =>
    match installBinding N owner epoch firstCapId table i binding with
    | .ok (handle, next) => installFrom (i + 1) (handles ++ [handle]) next rest
    | .error _ => (.error .capabilityTableFull, handles.foldl (uninstall N) table)

def CapabilityMapping.installTracked (mapping : CapabilityMapping) (table : CapabilityTable) :
    Except InstallError (List (Nat × Nat)) × CapabilityTable :=
  installFrom N owner epoch firstCapId 0 [] table mapping.granted

end Install

def freeSlots (N : Nat) (table : CapabilityTable) : Finset Nat :=
  (Finset.range N).filter fun i => (table.slots i).generation = 0

def SameCapabilities (before after : CapabilityTable) : Prop :=
  ∀ i, after.slots i = before.slots i ∨
    (before.slots i).generation = 0 ∧ (after.slots i).generation = 0

variable {N : Nat} {before table : CapabilityTable}

structure Inserted (N : Nat) (before : CapabilityTable) (handles : List (Nat × Nat))
    (table : CapabilityTable) : Prop where
  inv : Inv N table
  live : ∀ handle ∈ handles, handle.1 < N ∧ handle.2 ≠ 0 ∧
    (before.slots handle.1).generation = 0 ∧ (table.slots handle.1).generation = handle.2
  once : (handles.map Prod.fst).Nodup
  others : ∀ i ∉ handles.map Prod.fst, table.slots i = before.slots i ∨
    (before.slots i).generation = 0 ∧ (table.slots i).generation = 0

theorem inserted_nil (inv : Inv N table) : Inserted N table [] table where
  inv := inv
  live := fun _ member => (not_mem_nil member).elim
  once := nodup_nil
  others := fun _ _ => .inl rfl

theorem findFreeSlot_error {e : CapError} (inv : Inv N table)
    (full : findFreeSlot N table = .error e) : freeSlots N table = ∅ := by
  have hint := inv.hint
  unfold findFreeSlot at full
  split at full
  · cases full
  · rename_i noneAfter
    split at full
    · cases full
    · rename_i noneBefore
      rw [List.find?_eq_none] at noneAfter noneBefore
      refine Finset.filter_eq_empty_iff.mpr fun i below free => ?_
      have inside := Finset.mem_range.mp below
      by_cases after : table.freeHint ≤ i
      · exact noneAfter i (mem_range'_1.mpr (by omega)) (by simpa using free)
      · exact noneBefore i (mem_range.mpr (by omega)) (by simpa using free)

variable {owner : PartitionId} {epoch firstCapId i : Nat} {binding : RvmBinding}
  {handles : List (Nat × Nat)}

theorem installBinding_ok {handle : Nat × Nat} {next : CapabilityTable} (capacity : N ≤ u32Max)
    (inv : Inv N table)
    (inserted : installBinding N owner epoch firstCapId table i binding = .ok (handle, next)) :
    Inv N next ∧ handle.1 ∈ freeSlots N table ∧ handle.2 ≠ 0 ∧
      (next.slots handle.1).generation = handle.2 ∧
      (∀ other, other ≠ handle.1 → next.slots other = table.slots other) ∧
      freeSlots N next = (freeSlots N table).erase handle.1 := by
  obtain ⟨handleIndex, generation⟩ := handle
  obtain ⟨index, _, _, below, free, same, _, nonzero, slots, _, _⟩ := insertDerived_spec inv inserted
  have bound : u32Max = 4294967295 := rfl
  obtain rfl : handleIndex = index := same.trans (Nat.mod_eq_of_lt (by omega))
  refine ⟨insertDerived_inv inv inserted, ?_, nonzero, ?_, ?_, ?_⟩
  · exact Finset.mem_filter.mpr ⟨Finset.mem_range.mpr below, free⟩
  · simp [slots]
  · intro other different
    rw [slots, Function.update_of_ne different]
  · ext other
    by_cases here : other = handleIndex
    · simp [freeSlots, here, slots, nonzero]
    · simp [freeSlots, here, slots]

theorem installBinding_error {e : CapError} (inv : Inv N table)
    (full : installBinding N owner epoch firstCapId table i binding = .error e) :
    freeSlots N table = ∅ := by
  unfold installBinding insertRoot insertDerived at full
  split at full
  · exact findFreeSlot_error inv ‹_›
  · cases full

theorem uninstall_inserted {handle : Nat × Nat}
    (inserted : Inserted N before (handle :: handles) table) :
    Inserted N before handles (uninstall N table handle) := by
  obtain ⟨below, nonzero, free, here⟩ := inserted.live handle mem_cons_self
  obtain ⟨fresh, once⟩ := nodup_cons.mp inserted.once
  have found : lookup N table handle.1 handle.2 = .ok (table.slots handle.1) :=
    live_iff_lookup.mp ⟨below, nonzero, here⟩
  have removed : uninstall N table handle = forceInvalidate N table handle.1 := by
    simp only [uninstall, remove, found]
  have slots := @forceInvalidate_slots N table handle.1
  rw [removed]
  refine ⟨forceInvalidate_inv inserted.inv _, fun other member => ?_, once, fun i missing => ?_⟩
  · have apart : other.1 ≠ handle.1 := fun same =>
      fresh (same ▸ mem_map_of_mem member)
    rw [slots, if_neg fun all => apart all.1]
    exact inserted.live other (mem_cons_of_mem _ member)
  · rw [slots]
    split
    · rename_i all
      exact .inr ⟨all.1 ▸ free, rfl⟩
    · rename_i untouched
      have apart : i ≠ handle.1 := fun same => untouched ⟨same, below, here ▸ nonzero⟩
      exact inserted.others i (by simpa [apart] using missing)

theorem uninstall_all (inserted : Inserted N before handles table) :
    SameCapabilities before (handles.foldl (uninstall N) table) := by
  induction handles generalizing table with
  | nil => exact fun i => inserted.others i not_mem_nil
  | cons handle rest ih =>
    exact ih (uninstall_inserted inserted)

theorem Inserted.extend {handle : Nat × Nat} {next : CapabilityTable} (capacity : N ≤ u32Max)
    (inserted : Inserted N before handles table)
    (ok : installBinding N owner epoch firstCapId table i binding = .ok (handle, next)) :
    Inserted N before (handles ++ [handle]) next := by
  obtain ⟨inv, free, nonzero, here, others, _⟩ := installBinding_ok capacity inserted.inv ok
  obtain ⟨inside, empty⟩ := Finset.mem_filter.mp free
  have fresh : handle.1 ∉ handles.map Prod.fst := by
    intro member
    obtain ⟨other, among, same⟩ := mem_map.mp member
    obtain ⟨_, live, _, there⟩ := inserted.live other among
    exact live (there.symm.trans (same ▸ empty))
  have wasFree : (before.slots handle.1).generation = 0 := by
    rcases inserted.others _ fresh with same | both
    · rw [← same]
      exact empty
    · exact both.1
  refine ⟨inv, fun other member => ?_, ?_, fun i missing => ?_⟩
  · rcases mem_append.mp member with earlier | last
    · have apart : other.1 ≠ handle.1 := fun same => fresh (same ▸ mem_map_of_mem earlier)
      rw [others _ apart]
      exact inserted.live other earlier
    · rw [mem_singleton.mp last]
      exact ⟨Finset.mem_range.mp inside, nonzero, wasFree, here⟩
  · rw [map_append, nodup_append]
    refine ⟨inserted.once, nodup_singleton _, fun first member second last => ?_⟩
    rw [mem_singleton.mp last]
    exact fun same => fresh (same ▸ member)
  · simp only [map_append, mem_append, not_or, map_cons, map_nil,
      mem_singleton] at missing
    rw [others i missing.2]
    exact inserted.others i missing.1

/-- An installation succeeds exactly where there is room for every binding that
remains, and a failed one leaves the capabilities as they were. -/
theorem installFrom_spec {bindings : List RvmBinding} (capacity : N ≤ u32Max)
    (inserted : Inserted N before handles table) :
    ((∃ all, (installFrom N owner epoch firstCapId i handles table bindings).1 = .ok all) ↔
      bindings.length ≤ (freeSlots N table).card) ∧
    ∀ e, (installFrom N owner epoch firstCapId i handles table bindings).1 = .error e →
      SameCapabilities before (installFrom N owner epoch firstCapId i handles table bindings).2 := by
  induction bindings generalizing i handles table with
  | nil => exact ⟨⟨fun _ => Nat.zero_le _, fun _ => ⟨handles, rfl⟩⟩, fun e failed => by cases failed⟩
  | cons binding rest ih =>
    unfold installFrom
    cases outcome : installBinding N owner epoch firstCapId table i binding with
    | error e =>
      have none' := installBinding_error inserted.inv outcome
      refine ⟨⟨fun installed => ?_, fun room => ?_⟩, fun _ _ => uninstall_all inserted⟩
      · obtain ⟨_, ok⟩ := installed
        cases ok
      · simp [none'] at room
    | ok result =>
      obtain ⟨handle, next⟩ := result
      obtain ⟨_, free, _, _, _, left⟩ := installBinding_ok capacity inserted.inv outcome
      obtain ⟨room, kept⟩ := ih (i := i + 1) (inserted.extend capacity outcome)
      refine ⟨room.trans ?_, kept⟩
      rw [left, Finset.card_erase_of_mem free, length_cons]
      have some' : 0 < (freeSlots N table).card := Finset.card_pos.mpr ⟨_, free⟩
      omega

/-- `install_tracked` succeeds exactly where the table has room, and leaves the
capabilities as they were where it fails. -/
theorem CapabilityMapping.installTracked_spec (mapping : CapabilityMapping) (owner : PartitionId)
    (epoch firstCapId : Nat) (capacity : N ≤ u32Max) (inv : Inv N table) :
    ((∃ handles, (mapping.installTracked N owner epoch firstCapId table).1 = .ok handles) ↔
      mapping.granted.length ≤ (freeSlots N table).card) ∧
    ∀ e, (mapping.installTracked N owner epoch firstCapId table).1 = .error e →
      SameCapabilities table (mapping.installTracked N owner epoch firstCapId table).2 :=
  installFrom_spec capacity (inserted_nil inv)

end Rvm.Rvf
