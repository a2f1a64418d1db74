import Mathlib.Data.List.Induction
import Mathlib.Logic.Relation

/-!
Owns runs of a labelled transition relation: finite label sequences, their
prefixes, the invariant rules used for every "in every reachable state"
statement, and walks of a deterministic relation.
-/

namespace Foundation

open List

universe u v

variable {State : Type u} {Label : Type v}

/-- A finite run, extended at its end so that the label list is the history. -/
inductive Run (Step : State → Label → State → Prop) (start : State) :
    List Label → State → Prop
  | nil : Run Step start [] start
  | snoc {labels : List Label} {label : Label} {middle final : State} :
      Run Step start labels middle → Step middle label final →
      Run Step start (labels ++ [label]) final

def Guarded (Step : State → Label → State → Prop) (Condition : State → Label → Prop) :
    State → Label → State → Prop :=
  fun here label next => Step here label next ∧ Condition here label

namespace Run

variable {Step : State → Label → State → Prop} {start middle final : State}
  {labels first second : List Label}

theorem invariant {Holds : List Label → State → Prop}
    (initial : Holds [] start)
    (kept : ∀ history here label next, Run Step start history here →
      Holds history here → Step here label next → Holds (history ++ [label]) next)
    (run : Run Step start labels final) : Holds labels final := by
  induction run with
  | nil => exact initial
  | snoc before step ih =>
    exact kept _ _ _ _ before ih step

theorem stateInvariant {Holds : State → Prop} (initial : Holds start)
    (kept : ∀ here label next, Holds here → Step here label next → Holds next)
    (run : Run Step start labels final) : Holds final := by
  induction run with
  | nil => exact initial
  | snoc _ step ih => exact kept _ _ _ ih step

theorem append (left : Run Step start first middle)
    (right : Run Step middle second final) :
    Run Step start (first ++ second) final := by
  induction right with
  | nil => simpa using left
  | snoc _ step ih =>
    rw [← append_assoc]
    exact ih.snoc step

theorem single {label : Label} (step : Step start label final) : Run Step start [label] final := by
  have extended : Run Step start ([] ++ [label]) final := .snoc .nil step
  exact extended

theorem cons {label : Label} (step : Step start label middle) (run : Run Step middle labels final) :
    Run Step start (label :: labels) final :=
  (single step).append run

theorem split (run : Run Step start (first ++ second) final) :
    ∃ here, Run Step start first here ∧ Run Step here second final := by
  induction second using List.reverseRecOn generalizing final with
  | nil => exact ⟨final, by simpa using run, .nil⟩
  | append_singleton second label ih =>
    rw [← append_assoc] at run
    generalize labelsEq : first ++ second ++ [label] = labels at run
    cases run with
    | nil => simp at labelsEq
    | snoc before step =>
      obtain ⟨rfl, lastEq⟩ := append_inj' labelsEq rfl
      obtain rfl := singleton_inj.mp lastEq
      obtain ⟨here, left, right⟩ := ih before
      exact ⟨here, left, right.snoc step⟩

theorem last {label : Label} (run : Run Step start (labels ++ [label]) final) :
    ∃ here, Run Step start labels here ∧ Step here label final := by
  generalize historyEq : labels ++ [label] = history at run
  cases run with
  | nil => simp at historyEq
  | snoc before step =>
    obtain ⟨rfl, lastEq⟩ := append_inj' historyEq rfl
    obtain rfl := singleton_inj.mp lastEq
    exact ⟨_, before, step⟩

theorem split_at {label : Label} (run : Run Step start (first ++ label :: second) final) :
    ∃ here next, Run Step start first here ∧ Step here label next ∧ Run Step next second final := by
  rw [append_cons] at run
  obtain ⟨next, upTo, rest⟩ := run.split
  obtain ⟨here, before, step⟩ := upTo.last
  exact ⟨here, next, before, step, rest⟩

theorem mono {Other : State → Label → State → Prop}
    (weaker : ∀ here label next, Step here label next → Other here label next)
    (run : Run Step start labels final) : Run Other start labels final := by
  induction run with
  | nil => exact .nil
  | snoc _ step ih => exact ih.snoc (weaker _ _ _ step)

theorem deterministic {other : State}
    (functional : ∀ here label left right, Step here label left → Step here label right →
      left = right)
    (run : Run Step start labels final) (again : Run Step start labels other) :
    final = other := by
  induction run generalizing other with
  | nil =>
    generalize emptyEq : ([] : List Label) = empty at again
    cases again with
    | nil => rfl
    | snoc _ _ => simp at emptyEq
  | snoc _ step ih =>
    obtain ⟨_, before, otherStep⟩ := again.last
    obtain rfl := ih before
    exact functional _ _ _ _ step otherStep

theorem continues
    (functional : ∀ here label left right, Step here label left → Step here label right →
      left = right)
    (before : Run Step start first middle) (run : Run Step start (first ++ second) final) :
    Run Step middle second final := by
  obtain ⟨here, left, right⟩ := run.split
  obtain rfl := deterministic functional left before
  exact right

theorem forall_labels {Shows : Label → Prop}
    (shown : ∀ here label next, Step here label next → Shows label)
    (run : Run Step start labels final) : ∀ label ∈ labels, Shows label := by
  induction run with
  | nil => exact fun _ member => (not_mem_nil member).elim
  | snoc _ step ih =>
    intro label member
    rcases mem_append.mp member with earlier | last
    · exact ih label earlier
    · rw [mem_singleton.mp last]
      exact shown _ _ _ step

theorem project {View : Type*} {Event : Type*} {Other : View → Event → View → Prop}
    (view : State → View) (event : Label → Option Event)
    (moves : ∀ here label next seen, Step here label next → event label = some seen →
      Other (view here) seen (view next))
    (keeps : ∀ here label next, Step here label next → event label = none →
      view next = view here)
    (run : Run Step start labels final) :
    Run Other (view start) (labels.filterMap event) (view final) := by
  induction run with
  | nil => exact .nil
  | snoc _ step ih =>
    rw [filterMap_append, filterMap_cons, filterMap_nil]
    split
    · rename_i silent
      rw [append_nil, keeps _ _ _ step silent]
      exact ih
    · rename_i seen
      exact ih.snoc (moves _ _ _ _ step seen)

theorem guarded {Condition : State → Label → Prop}
    (run : Run Step start labels final)
    (meets : ∀ first label rest here, labels = first ++ label :: rest →
      Run Step start first here → Condition here label) :
    Run (Guarded Step Condition) start labels final := by
  induction run with
  | nil => exact .nil
  | @snoc labels last middle final before step ih =>
    have earlier := ih fun first label rest here split run =>
      meets first label (rest ++ [last]) here (by simp [split]) run
    exact earlier.snoc ⟨step, meets labels last [] middle rfl before⟩

theorem invariantWhen {Holds : List Label → State → Prop}
    {Condition : List Label → State → Label → Prop} (initial : Holds [] start)
    (kept : ∀ history here label next, Holds history here → Condition history here label →
      Step here label next → Holds (history ++ [label]) next)
    (meets : ∀ first label rest here, labels = first ++ label :: rest →
      Run Step start first here → Condition first here label)
    (run : Run Step start labels final) : Holds labels final := by
  induction run with
  | nil => exact initial
  | @snoc labels last middle final before step ih =>
    have earlier := ih fun first label rest here split run =>
      meets first label (rest ++ [last]) here (by simp [split]) run
    exact kept labels middle last final earlier (meets labels last [] middle rfl before) step

end Run

section Walks

open Relation

variable {Next : State → State → Prop} {Fine : State → Prop} {start place other : State}

theorem passed_or_ahead (functional : Relator.RightUnique Next)
    (walk : ReflTransGen (fun here next => Next here next ∧ Fine here) start place)
    (leads : ReflTransGen Next start other) : Fine other ∨ ReflTransGen Next place other := by
  induction walk using ReflTransGen.head_induction_on with
  | refl => exact .inr leads
  | head step _ ih =>
    rcases ReflTransGen.cases_head leads with rfl | ⟨next, moved, later⟩
    · exact .inl step.2
    · obtain rfl := functional moved step.1
      exact ih later

theorem eq_of_stuck (stuck : ∀ next, ¬ Next place next) (leads : ReflTransGen Next place other) :
    other = place := by
  rcases ReflTransGen.cases_head leads with same | ⟨next, moved, _⟩
  · exact same.symm
  · exact absurd moved (stuck next)

theorem leads_of_stuck (functional : Relator.RightUnique Next)
    (stuck : ∀ next, ¬ Next place next) (ends : ReflTransGen Next start place)
    (leads : ReflTransGen Next start other) : ReflTransGen Next other place := by
  rcases ReflTransGen.total_of_right_unique functional leads ends with ahead | behind
  · exact ahead
  · exact eq_of_stuck stuck behind ▸ .refl

end Walks

end Foundation
