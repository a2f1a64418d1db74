import Mathlib.Data.List.Nodup
import Mathlib.Data.List.Range
import Rvm.Foundation.Run

/-!
Owns versioned registers: absent or a state with a level, advanced by compare-and-swap until
closed. Over any run levels count up from one and no presented state is presented twice.
-/

namespace Foundation

open List

universe u v

variable {State : Type u} {Key : Type v}

abbrev Advance (State : Type u) := Option State × State

/-- One step of a register. -/
structure Advances (level : State → Nat) (Closed : State → Prop) (here : Option State)
    (advance : Advance State) (next : Option State) : Prop where
  presents : advance.1 = here
  still : ∀ state, here = some state → ¬ Closed state
  installs : next = some advance.2
  level : level advance.2 = (here.elim 0 level) + 1

namespace Advances

variable {level : State → Nat} {Closed : State → Prop} {history before after : List (Advance State)}
  {register : Option State}

theorem holds_last (run : Run (Advances level Closed) none history register) :
    register = history.getLast?.map Prod.snd := by
  cases run with
  | nil => rfl
  | snoc _ step => rw [step.installs, List.getLast?_concat, Option.map_some]

theorem level_eq (run : Run (Advances level Closed) none history register) :
    register.elim 0 level = history.length := by
  induction run with
  | nil => rfl
  | snoc _ step ih =>
    rw [step.installs, length_append, Option.elim_some, step.level, ih]
    rfl

theorem levels (run : Run (Advances level Closed) none history register) :
    history.map (fun advance => level advance.2) = List.range' 1 history.length := by
  induction run with
  | nil => rfl
  | snoc before step ih =>
    rw [map_append, ih, length_append, length_singleton,
      range'_concat, map_singleton, step.level, level_eq before, Nat.one_mul,
      Nat.add_comm]

theorem levels_presented (run : Run (Advances level Closed) none history register) :
    history.map (fun advance => advance.1.elim 0 level) = List.range history.length := by
  induction run with
  | nil => rfl
  | snoc before step ih =>
    rw [map_append, ih, length_append, length_singleton,
      range_succ, map_singleton, step.presents, level_eq before]

/-- No two advances present the same: none is lost, and a state that is left does
not come back. -/
theorem presented_once (run : Run (Advances level Closed) none history register) :
    (history.map Prod.fst).Nodup := by
  apply List.Nodup.of_map fun presented => presented.elim 0 level
  rw [map_map]
  show (history.map fun advance => advance.1.elim 0 level).Nodup
  rw [levels_presented run]
  exact nodup_range

theorem closed_last {last : Advance State}
    (run : Run (Advances level Closed) none (before ++ last :: after) register)
    (closes : Closed last.2) : after = [] := by
  cases after with
  | nil => rfl
  | cons next rest =>
    rw [append_cons, append_cons] at run
    obtain ⟨_, extended, _⟩ := run.split
    obtain ⟨_, reached, step⟩ := extended.last
    have held := holds_last reached
    rw [List.getLast?_concat] at held
    exact absurd closes (step.still _ held)

end Advances

section Families

variable [DecidableEq Key] {level : State → Nat} {Closed : State → Prop}
  {history : List (Key × Advance State)} {key : Key}

def advanceAt (key : Key) (entry : Key × Advance State) : Option (Advance State) :=
  if entry.1 = key then some entry.2 else none

/-- The advances of one register of a family. -/
def advancesAt (history : List (Key × Advance State)) (key : Key) : List (Advance State) :=
  history.filterMap (advanceAt key)

theorem presented_once_in_family (keyOf : State → Key)
    (runs : ∀ key, ∃ register, Run (Advances level Closed) none (advancesAt history key) register)
    (keyed : ∀ entry ∈ history, ∀ state, entry.2.1 = some state → keyOf state = entry.1) :
    history.Pairwise fun earlier later => earlier.2.1 = later.2.1 →
      earlier.2.1 = none ∧ earlier.1 ≠ later.1 := by
  rw [pairwise_iff_forall_sublist]
  intro earlier later among same
  have apart : earlier.1 ≠ later.1 := by
    intro sameKey
    obtain ⟨register, run⟩ := runs later.1
    have both : [earlier.2, later.2].Sublist (advancesAt history later.1) := by
      have kept := among.filterMap (advanceAt later.1)
      simp only [filterMap_cons, filterMap_nil, advanceAt, sameKey, if_true] at kept
      exact kept
    have distinct := (both.map Prod.fst).nodup (Advances.presented_once run)
    simp [same] at distinct
  refine ⟨?_, apart⟩
  cases presented : earlier.2.1 with
  | none => rfl
  | some state =>
    have first := keyed earlier (among.subset (by simp)) state presented
    have second := keyed later (among.subset (by simp)) state (same ▸ presented)
    exact absurd (first.symm.trans second) apart

end Families

end Foundation
