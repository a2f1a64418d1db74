import Mathlib.Algebra.GroupWithZero.Nat
import Mathlib.Algebra.Order.Group.Multiset
import Mathlib.Data.List.Range
import Rvm.Foundation.Heap
import Rvm.Foundation.Run
import Rvm.Types.Basic
import Rvm.Types.Capability

/-!
Owns the scheduler of `rvm-sched/src/scheduler.rs`: one binary max-heap of run queue entries
for each CPU, priorities from urgency and cut pressure, epochs and degraded mode; and that a
per-CPU run queue is a priority queue, with the account of a run. The scheduling mode, which
no operation here reads, is left out.
-/

namespace Rvm.Sched

open Function Multiset

def maxRunQueue : Nat := 32

def computePriority (deadlineUrgency : Nat) (cutPressure : CutPressure) : Nat :=
  deadlineUrgency + min (cutPressure.asFixed >>> 16) 65535

structure RunQueueEntry where
  partitionId : PartitionId
  deadlineUrgency : Nat
  cutPressure : CutPressure
  priority : Nat
deriving DecidableEq, Repr

/-- The hypervisor partition marks an empty slot. -/
def RunQueueEntry.empty : RunQueueEntry := ⟨.hypervisor, 0, .zero, 0⟩

def RunQueueEntry.isEmpty (entry : RunQueueEntry) : Bool := entry.partitionId.isHypervisor

/-! ### The heap of a CPU -/

/-- The cells of a run queue; only indices below `maxRunQueue` are meaningful. -/
abbrev RunQueue := Nat → RunQueueEntry

namespace RunQueue

def swap (queue : RunQueue) (i j : Nat) : RunQueue :=
  update (update queue i (queue j)) j (queue i)

/-- Bubble the entry at `pos` toward the root; `pos` is enough fuel. -/
def siftUp : Nat → RunQueue → Nat → RunQueue
  | 0, queue, _ => queue
  | fuel + 1, queue, pos =>
    let parent := (pos - 1) / 2
    if 0 < pos ∧ (queue parent).priority < (queue pos).priority then
      siftUp fuel (swap queue pos parent) parent
    else queue

def larger (queue : RunQueue) (len child largest : Nat) : Nat :=
  if child < len ∧ (queue largest).priority < (queue child).priority then child else largest

/-- Push the entry at `pos` below larger children; `len` is enough fuel. -/
def siftDown (len : Nat) : Nat → RunQueue → Nat → RunQueue
  | 0, queue, _ => queue
  | fuel + 1, queue, pos =>
    let largest := larger queue len (2 * pos + 2) (larger queue len (2 * pos + 1) pos)
    if largest = pos then queue else siftDown len fuel (swap queue pos largest) largest

def push (queue : RunQueue) (len : Nat) (entry : RunQueueEntry) : RunQueue :=
  siftUp len (update queue len entry) len

def pop (queue : RunQueue) (len : Nat) : RunQueue :=
  let moved := if 1 < len then update queue 0 (queue (len - 1)) else queue
  siftDown (len - 1) (len - 1) (update moved (len - 1) .empty) 0

end RunQueue

/-! ### The scheduler -/

structure EpochSummary where
  epoch : Nat
  switchCount : Nat
  runnableCount : Nat
deriving DecidableEq, Repr

structure EpochTracker where
  currentEpoch : Nat
  switchCount : Nat
deriving DecidableEq, Repr

namespace EpochTracker

def new : EpochTracker := ⟨0, 0⟩

def recordSwitch (tracker : EpochTracker) : EpochTracker :=
  { tracker with switchCount := min (tracker.switchCount + 1) 65535 }

def advance (tracker : EpochTracker) (runnableCount : Nat) : EpochSummary × EpochTracker :=
  (⟨tracker.currentEpoch, tracker.switchCount, runnableCount⟩,
    ⟨asU32 (tracker.currentEpoch + 1), 0⟩)

end EpochTracker

structure PerCpuScheduler where
  current : Option PartitionId
  idle : Bool
deriving DecidableEq, Repr

structure Scheduler where
  perCpu : Nat → PerCpuScheduler
  runQueues : Nat → RunQueue
  queueLens : Nat → Nat
  epoch : EpochTracker
  degraded : Bool

namespace Scheduler

def new : Scheduler := ⟨fun _ => ⟨none, true⟩, fun _ _ => .empty, fun _ => 0, .new, false⟩

def currentEpoch (scheduler : Scheduler) : Nat := scheduler.epoch.currentEpoch

def enterDegraded (scheduler : Scheduler) : Scheduler := { scheduler with degraded := true }

def exitDegraded (scheduler : Scheduler) : Scheduler := { scheduler with degraded := false }

/-- Advance the epoch; the number of runnable partitions is clamped to `u16`. -/
def tickEpoch (maxCpus : Nat) (scheduler : Scheduler) : EpochSummary × Scheduler :=
  let runnable := ((List.range maxCpus).map scheduler.queueLens).sum
  let advanced := scheduler.epoch.advance (min (asU32 runnable) 65535)
  (advanced.1, { scheduler with epoch := advanced.2 })

def enqueue (maxCpus : Nat) (scheduler : Scheduler) (cpu : Nat) (partitionId : PartitionId)
    (deadlineUrgency : Nat) (cutPressure : CutPressure) : Bool × Scheduler :=
  let len := scheduler.queueLens cpu
  if cpu ≥ maxCpus ∨ len ≥ maxRunQueue then (false, scheduler)
  else
    let effective := if scheduler.degraded then .zero else cutPressure
    let entry : RunQueueEntry :=
      ⟨partitionId, deadlineUrgency, effective, computePriority deadlineUrgency effective⟩
    (true,
      { scheduler with
        runQueues :=
          update scheduler.runQueues cpu ((scheduler.runQueues cpu).push len entry)
        queueLens := update scheduler.queueLens cpu (len + 1) })

/-- Take the root of a CPU's heap and make it current. -/
def dispatch (scheduler : Scheduler) (cpu : Nat) : Scheduler :=
  let queue := scheduler.runQueues cpu
  let len := scheduler.queueLens cpu
  { scheduler with
    perCpu := update scheduler.perCpu cpu ⟨some (queue 0).partitionId, false⟩
    runQueues := update scheduler.runQueues cpu (queue.pop len)
    queueLens := update scheduler.queueLens cpu (len - 1)
    epoch := scheduler.epoch.recordSwitch }

def switchNext (maxCpus : Nat) (scheduler : Scheduler) (cpu : Nat) :
    Option (Option PartitionId × PartitionId) × Scheduler :=
  if cpu ≥ maxCpus ∨ scheduler.queueLens cpu = 0 then (none, scheduler)
  else if (scheduler.runQueues cpu 0).isEmpty then (none, scheduler)
  else
    (some ((scheduler.perCpu cpu).current, (scheduler.runQueues cpu 0).partitionId),
      scheduler.dispatch cpu)

end Scheduler

open Foundation Foundation.Heap

/-! ### The heap of a CPU -/

namespace RunQueue

variable {queue : RunQueue} {len pos : Nat} {entry : RunQueueEntry}

/-- No entry before its parent. -/
abbrev Heaped (queue : RunQueue) (len : Nat) : Prop := Ordered RunQueueEntry.priority queue len

theorem siftUp_succ (fuel : Nat) (queue : RunQueue) (pos : Nat) :
    siftUp (fuel + 1) queue pos =
      if 0 < pos ∧ (queue (parent pos)).priority < (queue pos).priority then
        siftUp fuel (exchange queue pos (parent pos)) (parent pos)
      else queue := rfl

theorem siftUp_spec {fuel : Nat} (enough : pos ≤ fuel) (inside : pos < len)
    (below : OrderedBelow RunQueueEntry.priority queue len pos) :
    Heaped (siftUp fuel queue pos) len ∧
      contents (siftUp fuel queue pos) len = contents queue len := by
  induction fuel generalizing queue pos with
  | zero => exact ⟨below.ordered fun positive => absurd positive (by omega), rfl⟩
  | succ fuel ih =>
    rw [siftUp_succ]
    by_cases rises : 0 < pos ∧ (queue (parent pos)).priority < (queue pos).priority
    · rw [if_pos rises]
      have smaller := parent_lt rises.1
      obtain ⟨heaped, kept⟩ := ih (show parent pos ≤ fuel by omega)
        (Nat.lt_trans smaller inside) (below.rise rises.1 rises.2 inside)
      exact ⟨heaped, kept.trans (contents_exchange inside (Nat.lt_trans smaller inside))⟩
    · rw [if_neg rises]
      refine ⟨below.ordered fun positive => ?_, rfl⟩
      exact Nat.not_lt.mp fun greater => rises ⟨positive, greater⟩

/-- The cell that `siftDown` compares with: the greatest of `pos` and its
children. -/
def largest (queue : RunQueue) (len pos : Nat) : Nat :=
  larger queue len (2 * pos + 2) (larger queue len (2 * pos + 1) pos)

theorem larger_spec (queue : RunQueue) (len child best : Nat) :
    (larger queue len child best = best ∨
        larger queue len child best = child ∧ child < len ∧
          (queue best).priority < (queue child).priority) ∧
      (queue best).priority ≤ (queue (larger queue len child best)).priority ∧
      (child < len → (queue child).priority ≤ (queue (larger queue len child best)).priority) := by
  unfold larger
  split
  · rename_i better
    exact ⟨.inr ⟨rfl, better⟩, Nat.le_of_lt better.2, fun _ => le_refl _⟩
  · rename_i notBetter
    refine ⟨.inl rfl, le_refl _, fun inside => ?_⟩
    exact Nat.not_lt.mp fun greater => notBetter ⟨inside, greater⟩

/-- The greatest of a cell and its children is the cell or a greater child, and
no child is greater. -/
theorem largest_spec (queue : RunQueue) (len pos : Nat) :
    (largest queue len pos = pos ∨ 0 < largest queue len pos ∧ largest queue len pos < len ∧
        parent (largest queue len pos) = pos ∧
        (queue pos).priority < (queue (largest queue len pos)).priority) ∧
      ∀ i, 0 < i → i < len → parent i = pos →
        (queue i).priority ≤ (queue (largest queue len pos)).priority := by
  obtain ⟨leftCases, overPos, overLeft⟩ := larger_spec queue len (2 * pos + 1) pos
  obtain ⟨rightCases, overBest, overRight⟩ :=
    larger_spec queue len (2 * pos + 2) (larger queue len (2 * pos + 1) pos)
  unfold largest
  generalize larger queue len (2 * pos + 1) pos = best at *
  generalize larger queue len (2 * pos + 2) best = winner at *
  constructor
  · rcases rightCases with rfl | ⟨rfl, inside, greater⟩
    · rcases leftCases with rfl | ⟨rfl, inside, greater⟩
      · exact .inl rfl
      · exact .inr ⟨by omega, inside, by unfold parent; omega, greater⟩
    · exact .inr ⟨by omega, inside, by unfold parent; omega, Nat.lt_of_le_of_lt overPos greater⟩
  · intro i positive inside child
    have either : i = 2 * pos + 1 ∨ i = 2 * pos + 2 := by
      unfold parent at child
      omega
    rcases either with rfl | rfl
    · exact (overLeft inside).trans overBest
    · exact overRight inside

theorem siftDown_succ (len fuel : Nat) (queue : RunQueue) (pos : Nat) :
    siftDown len (fuel + 1) queue pos =
      if largest queue len pos = pos then queue
      else siftDown len fuel (exchange queue pos (largest queue len pos))
        (largest queue len pos) := rfl

theorem siftDown_spec {fuel : Nat} (enough : len ≤ pos + fuel)
    (above : OrderedAbove RunQueueEntry.priority queue len pos) :
    Heaped (siftDown len fuel queue pos) len ∧
      contents (siftDown len fuel queue pos) len = contents queue len := by
  induction fuel generalizing queue pos with
  | zero =>
    refine ⟨above.ordered fun i positive inside child => ?_, rfl⟩
    have lower := parent_lt positive
    omega
  | succ fuel ih =>
    obtain ⟨cases, greatest⟩ := largest_spec queue len pos
    rw [siftDown_succ]
    by_cases settled : largest queue len pos = pos
    · rw [if_pos settled]
      rw [settled] at greatest
      exact ⟨above.ordered greatest, rfl⟩
    · rw [if_neg settled]
      obtain ⟨positive, inside, child, greater⟩ := cases.resolve_left settled
      have deeper : pos < largest queue len pos := by
        have lower := parent_lt positive
        omega
      obtain ⟨heaped, kept⟩ := ih (by omega)
        (above.sink positive inside child greatest greater)
      exact ⟨heaped, kept.trans (contents_exchange (Nat.lt_trans deeper inside) inside)⟩

theorem push_spec (heaped : Heaped queue len) (entry : RunQueueEntry) :
    Heaped (push queue len entry) (len + 1) ∧
      contents (push queue len entry) (len + 1) = entry ::ₘ contents queue len := by
  obtain ⟨pushed, kept⟩ := siftUp_spec (le_refl len) (Nat.lt_succ_self len)
    (heaped.append entry)
  refine ⟨pushed, kept.trans ?_⟩
  rw [contents_succ, update_self]
  congr 1
  exact contents_congr fun i inside => update_of_ne (Nat.ne_of_lt inside) entry queue

theorem pop_spec (heaped : Heaped queue (len + 1)) :
    Heaped (pop queue (len + 1)) len ∧
      contents (pop queue (len + 1)) len = (contents queue (len + 1)).erase (queue 0) ∧
      queue 0 ∈ contents queue (len + 1) ∧
      ∀ entry ∈ contents queue (len + 1), entry.priority ≤ (queue 0).priority := by
  let moved := if 1 < len + 1 then update queue 0 (queue len) else queue
  have cells : ∀ i, i < len → update moved len .empty i = update queue 0 (queue len) i := by
    intro i inside
    rw [update_of_ne (Nat.ne_of_lt inside)]
    exact congrFun (if_pos (by omega)) i
  have above : OrderedAbove RunQueueEntry.priority (update moved len .empty) len 0 :=
    ((heaped.mono (Nat.le_succ len)).replaceRoot (queue len)).congr cells
  obtain ⟨popped, kept⟩ := siftDown_spec (show len ≤ 0 + len by omega) above
  refine ⟨popped, kept.trans ?_, mem_contents.mpr ⟨0, Nat.succ_pos len, rfl⟩, ?_⟩
  · rw [contents_congr cells, contents_replaceRoot]
  · intro entry member
    obtain ⟨i, inside, rfl⟩ := mem_contents.mp member
    exact heaped.le_root inside

end RunQueue

/-! ### Calls -/

inductive SchedulerCall where
  | enqueue (cpu : Nat) (partitionId : PartitionId) (deadlineUrgency : Nat)
      (cutPressure : CutPressure)
  | switchNext (cpu : Nat)
  | tickEpoch
  | enterDegraded
  | exitDegraded
deriving DecidableEq, Repr

inductive SchedulerReply where
  | enqueued (accepted : Bool)
  | switched (ids : Option (Option PartitionId × PartitionId))
  | epoch (summary : EpochSummary)
  | done
deriving DecidableEq, Repr

namespace Scheduler

variable {maxCpus : Nat} {scheduler next : Scheduler}

def apply (maxCpus : Nat) (scheduler : Scheduler) : SchedulerCall → SchedulerReply × Scheduler
  | .enqueue cpu partitionId deadlineUrgency cutPressure =>
    let result := scheduler.enqueue maxCpus cpu partitionId deadlineUrgency cutPressure
    (.enqueued result.1, result.2)
  | .switchNext cpu =>
    let result := scheduler.switchNext maxCpus cpu
    (.switched result.1, result.2)
  | .tickEpoch =>
    let result := scheduler.tickEpoch maxCpus
    (.epoch result.1, result.2)
  | .enterDegraded => (.done, scheduler.enterDegraded)
  | .exitDegraded => (.done, scheduler.exitDegraded)

def Step (maxCpus : Nat) (scheduler : Scheduler) (label : SchedulerCall × SchedulerReply)
    (next : Scheduler) : Prop :=
  scheduler.apply maxCpus label.1 = (label.2, next)

def entries (scheduler : Scheduler) (cpu : Nat) : Multiset RunQueueEntry :=
  contents (scheduler.runQueues cpu) (scheduler.queueLens cpu)

def Served (maxCpus : Nat) (before after : Scheduler) : SchedulerCall × SchedulerReply → Prop
  | (.enqueue cpu id urgency pressure, .enqueued true) =>
    let effective := if before.degraded then .zero else pressure
    after.entries = update before.entries cpu
      (⟨id, urgency, effective, computePriority urgency effective⟩ ::ₘ before.entries cpu)
  | (.enqueue _ _ _ _, .enqueued false) => after.entries = before.entries
  | (.switchNext cpu, .switched none) =>
    after.entries = before.entries ∧ (cpu < maxCpus → before.entries cpu = 0)
  | (.switchNext cpu, .switched (some (_, id))) => ∃ entry ∈ before.entries cpu,
    entry.partitionId = id ∧ (∀ other ∈ before.entries cpu, other.priority ≤ entry.priority) ∧
      after.entries = update before.entries cpu ((before.entries cpu).erase entry)
  | (.tickEpoch, .epoch _) | (.enterDegraded, .done) | (.exitDegraded, .done) =>
    after.entries = before.entries
  | _ => False

/-- An accepted partition is not the hypervisor, whose identifier marks an empty
slot. -/
def Schedulable (maxCpus : Nat) (scheduler : Scheduler) (label : SchedulerCall × SchedulerReply) :
    Prop :=
  match label.1 with
  | .enqueue cpu id _ _ =>
    cpu < maxCpus → scheduler.queueLens cpu < maxRunQueue → id.isHypervisor = false
  | _ => True

/-! ### What a call does -/

def Heaped (scheduler : Scheduler) : Prop :=
  ∀ cpu, (scheduler.runQueues cpu).Heaped (scheduler.queueLens cpu)

structure Orderly (scheduler : Scheduler) : Prop where
  heaped : scheduler.Heaped
  visible : ∀ cpu, ∀ entry ∈ scheduler.entries cpu, entry.isEmpty = false

theorem enqueue_cases (scheduler : Scheduler) (cpu : Nat) (id : PartitionId) (urgency : Nat)
    (pressure : CutPressure) (heaped : scheduler.Heaped) :
    scheduler.enqueue maxCpus cpu id urgency pressure = (false, scheduler) ∨
      ∃ entry next, scheduler.enqueue maxCpus cpu id urgency pressure = (true, next) ∧
        cpu < maxCpus ∧ scheduler.queueLens cpu < maxRunQueue ∧
        entry = ⟨id, urgency, if scheduler.degraded then .zero else pressure,
          computePriority urgency (if scheduler.degraded then .zero else pressure)⟩ ∧
        next.Heaped ∧
        next.entries = update scheduler.entries cpu (entry ::ₘ scheduler.entries cpu) := by
  unfold enqueue
  dsimp only
  split
  · exact .inl rfl
  · rename_i accepted
    obtain ⟨known, room⟩ := not_or.mp accepted
    refine .inr ⟨_, _, rfl, Nat.not_le.mp known, Nat.not_le.mp room, rfl, fun other => ?_, ?_⟩
    · dsimp only
      by_cases here : other = cpu
      · rw [here, update_self, update_self]
        exact (RunQueue.push_spec (heaped cpu) _).1
      · rw [update_of_ne here, update_of_ne here]
        exact heaped other
    · funext other
      by_cases here : other = cpu
      · rw [here, update_self, entries]
        dsimp only
        rw [update_self, update_self]
        exact (RunQueue.push_spec (heaped cpu) _).2
      · rw [update_of_ne here, entries]
        dsimp only
        rw [update_of_ne here, update_of_ne here]
        rfl

theorem switchNext_cases (scheduler : Scheduler) (cpu : Nat) (heaped : scheduler.Heaped) :
    scheduler.switchNext maxCpus cpu = (none, scheduler) ∧
        (cpu < maxCpus → scheduler.entries cpu = 0 ∨
          ∃ entry ∈ scheduler.entries cpu, entry.isEmpty = true) ∨
      ∃ entry, scheduler.switchNext maxCpus cpu =
          (some ((scheduler.perCpu cpu).current, entry.partitionId), scheduler.dispatch cpu) ∧
        cpu < maxCpus ∧ entry.isEmpty = false ∧ entry ∈ scheduler.entries cpu ∧
        (∀ other ∈ scheduler.entries cpu, other.priority ≤ entry.priority) ∧
        (scheduler.dispatch cpu).Heaped ∧
        (scheduler.dispatch cpu).entries =
          update scheduler.entries cpu ((scheduler.entries cpu).erase entry) := by
  unfold switchNext
  by_cases idle : cpu ≥ maxCpus ∨ scheduler.queueLens cpu = 0
  · rw [if_pos idle]
    refine .inl ⟨rfl, fun known => .inl ?_⟩
    rw [entries, idle.resolve_left (Nat.not_le.mpr known)]
    rfl
  · rw [if_neg idle]
    obtain ⟨known, queued⟩ := not_or.mp idle
    obtain ⟨len, lenEq⟩ := Nat.exists_eq_succ_of_ne_zero queued
    have queueHeaped := heaped cpu
    rw [lenEq] at queueHeaped
    obtain ⟨popped, taken, member, first⟩ := RunQueue.pop_spec queueHeaped
    have entriesEq : scheduler.entries cpu = contents (scheduler.runQueues cpu) (len + 1) := by
      rw [entries, lenEq]
    rw [← entriesEq] at taken member first
    by_cases hidden : (scheduler.runQueues cpu 0).isEmpty
    · rw [if_pos hidden]
      exact .inl ⟨rfl, fun _ => .inr ⟨_, member, hidden⟩⟩
    · rw [if_neg hidden]
      refine .inr ⟨_, rfl, Nat.not_le.mp known, by simpa using hidden, member, first,
        fun other => ?_, ?_⟩
      · unfold dispatch
        dsimp only
        by_cases here : other = cpu
        · rw [here, update_self, update_self, lenEq]
          exact popped
        · rw [update_of_ne here, update_of_ne here]
          exact heaped other
      · funext other
        unfold dispatch
        rw [entries]
        dsimp only
        by_cases here : other = cpu
        · rw [here, update_self, update_self, update_self, lenEq]
          exact taken
        · rw [update_of_ne here, update_of_ne here, update_of_ne here]
          rfl

theorem Orderly.step {label : SchedulerCall × SchedulerReply} (orderly : scheduler.Orderly)
    (step : Step maxCpus scheduler label next) :
    Served maxCpus scheduler next label ∧ (Schedulable maxCpus scheduler label → next.Orderly) := by
  obtain ⟨heaped, visible⟩ := orderly
  obtain ⟨call, reply⟩ := label
  cases call with
  | enqueue cpu id urgency pressure =>
    rcases @enqueue_cases maxCpus scheduler cpu id urgency pressure heaped with
      refused | ⟨entry, after, accepted, known, room, rfl, afterHeaped, pushed⟩
    · rw [Step, apply, refused] at step
      cases step
      exact ⟨rfl, fun _ => ⟨heaped, visible⟩⟩
    · rw [Step, apply, accepted] at step
      cases step
      refine ⟨pushed, fun schedulable => ⟨afterHeaped, fun other queued member => ?_⟩⟩
      rw [pushed] at member
      by_cases here : other = cpu
      · rw [here, update_self, mem_cons] at member
        rcases member with rfl | earlier
        · exact schedulable known room
        · exact visible cpu queued earlier
      · rw [update_of_ne here] at member
        exact visible other queued member
  | switchNext cpu =>
    rcases @switchNext_cases maxCpus scheduler cpu heaped with
      ⟨idle, empty⟩ | ⟨entry, switched, known, shown, member, first, afterHeaped, popped⟩
    · rw [Step, apply, idle] at step
      cases step
      refine ⟨⟨rfl, fun known => ?_⟩, fun _ => ⟨heaped, visible⟩⟩
      rcases empty known with none | ⟨entry, member, hidden⟩
      · exact none
      · rw [visible cpu entry member] at hidden
        cases hidden
    · rw [Step, apply, switched] at step
      cases step
      refine ⟨⟨entry, member, rfl, first, popped⟩, fun _ => ⟨afterHeaped, ?_⟩⟩
      intro other queued inside
      rw [popped] at inside
      by_cases here : other = cpu
      · rw [here, update_self] at inside
        exact visible cpu queued (mem_of_mem_erase inside)
      · rw [update_of_ne here] at inside
        exact visible other queued inside
  | tickEpoch | enterDegraded | exitDegraded =>
    cases step
    exact ⟨rfl, fun _ => ⟨heaped, visible⟩⟩

/-! ### The account of a run -/

def enqueuedId (cpu : Nat) : SchedulerCall × SchedulerReply → Option PartitionId
  | (.enqueue target id _ _, .enqueued true) => if target = cpu then some id else none
  | _ => none

def dispatchedId (cpu : Nat) : SchedulerCall × SchedulerReply → Option PartitionId
  | (.switchNext target, .switched (some (_, id))) => if target = cpu then some id else none
  | _ => none

/-- The partitions that a history put on a CPU, or took from it. -/
def collected (pick : SchedulerCall × SchedulerReply → Option PartitionId)
    (history : List (SchedulerCall × SchedulerReply)) : Multiset PartitionId :=
  history.filterMap pick

theorem collected_snoc (pick : SchedulerCall × SchedulerReply → Option PartitionId)
    (history : List (SchedulerCall × SchedulerReply)) (label : SchedulerCall × SchedulerReply) :
    collected pick (history ++ [label]) = collected pick history + ((pick label).toList : List _) := by
  rw [collected, List.filterMap_append, ← coe_add, collected]
  cases picked : pick label <;> simp [picked]

def queuedIds (scheduler : Scheduler) (cpu : Nat) : Multiset PartitionId :=
  (scheduler.entries cpu).map RunQueueEntry.partitionId

theorem queuedIds_same (same : next.entries = scheduler.entries) (cpu : Nat) :
    scheduler.queuedIds cpu + 0 = 0 + next.queuedIds cpu := by
  rw [queuedIds, queuedIds, same, add_zero, zero_add]

theorem Served.account {label : SchedulerCall × SchedulerReply}
    (served : Served maxCpus scheduler next label) (cpu : Nat) :
    scheduler.queuedIds cpu + ((enqueuedId cpu label).toList : List _) =
      ((dispatchedId cpu label).toList : List _) + next.queuedIds cpu := by
  obtain ⟨call, reply⟩ := label
  cases call with
  | enqueue target id urgency pressure =>
    cases reply with
    | enqueued accepted =>
      cases accepted with
      | false => exact queuedIds_same served cpu
      | true =>
        change scheduler.queuedIds cpu + (((if target = cpu then some id else none).toList :
          List _) : Multiset _) = 0 + next.queuedIds cpu
        rw [Served] at served
        by_cases here : target = cpu
        · subst here
          rw [if_pos rfl, queuedIds, queuedIds, served, update_self, map_cons]
          simp [add_comm]
        · rw [if_neg here, queuedIds, queuedIds, served,
            update_of_ne (Ne.symm here)]
          exact queuedIds_same rfl cpu
    | switched | epoch | done => exact served.elim
  | switchNext target =>
    cases reply with
    | switched ids =>
      cases ids with
      | none => exact queuedIds_same served.1 cpu
      | some pair =>
        obtain ⟨old, new⟩ := pair
        obtain ⟨entry, member, rfl, _, popped⟩ := served
        change scheduler.queuedIds cpu + 0 =
          (((if target = cpu then some entry.partitionId else none).toList : List _) :
            Multiset _) + next.queuedIds cpu
        by_cases here : target = cpu
        · subst here
          rw [if_pos rfl, queuedIds, queuedIds, popped, update_self]
          conv_lhs => rw [← cons_erase member, map_cons]
          simp
        · rw [if_neg here, queuedIds, queuedIds, popped,
            update_of_ne (Ne.symm here)]
          exact queuedIds_same rfl cpu
    | enqueued | epoch | done => exact served.elim
  | tickEpoch =>
    cases reply with
    | epoch summary => exact queuedIds_same served cpu
    | enqueued | switched | done => exact served.elim
  | enterDegraded | exitDegraded =>
    cases reply with
    | done => exact queuedIds_same served cpu
    | enqueued | switched | epoch => exact served.elim

/-! ### Runs -/

theorem orderly_new : (new : Scheduler).Orderly where
  heaped _ _ _ inside := absurd inside (Nat.not_lt_zero _)
  visible _ _ member := absurd member (notMem_zero _)

theorem orderly_run {history : List (SchedulerCall × SchedulerReply)}
    (run : Run (Guarded (Step maxCpus) (Schedulable maxCpus)) .new history scheduler) :
    scheduler.Orderly :=
  run.stateInvariant orderly_new fun _ _ _ orderly guarded =>
    (orderly.step guarded.1).2 guarded.2

def Accounted (cpu : Nat) (history : List (SchedulerCall × SchedulerReply))
    (scheduler : Scheduler) : Prop :=
  collected (enqueuedId cpu) history =
    collected (dispatchedId cpu) history + scheduler.queuedIds cpu

theorem accounted_run {history : List (SchedulerCall × SchedulerReply)} (cpu : Nat)
    (run : Run (Guarded (Step maxCpus) (Schedulable maxCpus)) .new history scheduler) :
    Accounted cpu history scheduler := by
  induction run with
  | nil => rfl
  | snoc before guarded ih =>
    have served := ((orderly_run before).step guarded.1).1
    rw [Accounted, collected_snoc, collected_snoc, ih, add_assoc, served.account cpu, add_assoc]

/-- A queued entry that looks empty ends up at the root, and hides what is queued
with it. -/
theorem exists_hidden {cpu : Nat} (heaped : scheduler.Heaped)
    (hidden : ∃ entry ∈ scheduler.entries cpu, entry.isEmpty = true) :
    ∃ history later, Run (Step maxCpus) scheduler history later ∧
      (later.switchNext maxCpus cpu).1 = none ∧ later.entries cpu ≠ 0 := by
  obtain ⟨entry, member, empty⟩ := hidden
  generalize sizeEq : (scheduler.entries cpu).card = size
  induction size generalizing scheduler with
  | zero =>
    rw [card_eq_zero] at sizeEq
    rw [sizeEq] at member
    exact absurd member (notMem_zero entry)
  | succ size ih =>
    rcases @switchNext_cases maxCpus scheduler cpu heaped with
      ⟨idle, _⟩ | ⟨root, switched, _, shown, rootMember, _, afterHeaped, popped⟩
    · refine ⟨[], scheduler, .nil, by rw [idle], fun none => ?_⟩
      rw [none] at member
      exact absurd member (notMem_zero entry)
    · have apart : entry ≠ root := fun same => by
        rw [same, shown] at empty
        cases empty
      have here : (scheduler.dispatch cpu).entries cpu = (scheduler.entries cpu).erase root := by
        rw [popped, update_self]
      obtain ⟨history, later, run, quiet, queued⟩ := ih afterHeaped
        (here ▸ (mem_erase_of_ne apart).mpr member)
        (by rw [here, card_erase_of_mem rootMember, sizeEq]; rfl)
      have step : Step maxCpus scheduler (.switchNext cpu, .switched
          (some ((scheduler.perCpu cpu).current, root.partitionId))) (scheduler.dispatch cpu) := by
        rw [Step, apply, switched]
      exact ⟨_, later, (Run.single step).append run, quiet, queued⟩

/-- While no accepted partition is the hypervisor, every call serves the priority queues of all
CPUs, and what was put on a CPU is taken from it once. -/
theorem priorityQueue {history : List (SchedulerCall × SchedulerReply)}
    (run : Run (Guarded (Step maxCpus) (Schedulable maxCpus)) .new history scheduler) :
    (∀ label next, Step maxCpus scheduler label next → Served maxCpus scheduler next label) ∧
      (∀ cpu, Accounted cpu history scheduler) ∧
      ∀ label next, Step maxCpus scheduler label next → ¬Schedulable maxCpus scheduler label →
        ∃ cpu history later, cpu < maxCpus ∧ Run (Step maxCpus) next history later ∧
          (later.switchNext maxCpus cpu).1 = none ∧ later.entries cpu ≠ 0 := by
  have orderly := orderly_run run
  refine ⟨fun label next step => (orderly.step step).1, fun cpu => accounted_run cpu run, ?_⟩
  rintro ⟨call, reply⟩ next step unschedulable
  cases call with
  | enqueue cpu id urgency pressure =>
    change ¬(cpu < maxCpus → scheduler.queueLens cpu < maxRunQueue → id.isHypervisor = false)
      at unschedulable
    push Not at unschedulable
    obtain ⟨known, room, isHypervisor⟩ := unschedulable
    rcases @enqueue_cases maxCpus scheduler cpu id urgency pressure orderly.heaped with
      refused | ⟨entry, after, accepted, _, _, rfl, afterHeaped, pushed⟩
    · unfold enqueue at refused
      dsimp only at refused
      rw [if_neg (by omega)] at refused
      cases refused
    · rw [Step, apply, accepted] at step
      cases step
      have queued : ∃ entry ∈ after.entries cpu, entry.isEmpty = true := by
        rw [pushed, update_self]
        exact ⟨_, Multiset.mem_cons_self _ _,
          by simpa [RunQueueEntry.isEmpty] using isHypervisor⟩
      obtain ⟨history, later, run, quiet, remains⟩ := @exists_hidden maxCpus _ _ afterHeaped queued
      exact ⟨cpu, history, later, known, run, quiet, remains⟩
  | switchNext | tickEpoch | enterDegraded | exitDegraded => exact absurd trivial unschedulable

/-- Two partitions of different urgency, and the one that is taken first. -/
def sampleHistory : List (SchedulerCall × SchedulerReply) :=
  [(.enqueue 0 ⟨1⟩ 5 .zero, .enqueued true), (.enqueue 0 ⟨2⟩ 9 .zero, .enqueued true),
    (.switchNext 0, .switched (some (none, ⟨2⟩)))]

theorem priorityQueue_sample :
    ∃ scheduler, Run (Step 2) .new sampleHistory scheduler ∧ Accounted 0 sampleHistory scheduler := by
  have run : Run (Guarded (Step 2) (Schedulable 2)) .new sampleHistory _ :=
    .cons ⟨rfl, fun _ _ => rfl⟩ <| .cons ⟨rfl, fun _ _ => rfl⟩ <| .single ⟨rfl, trivial⟩
  exact ⟨_, run.mono fun _ _ _ guarded => guarded.1, (priorityQueue run).2.1 0⟩

/-- The hypervisor before a partition: both are queued, and nothing is returned. -/
def hiddenHistory : List (SchedulerCall × SchedulerReply) :=
  [(.enqueue 0 .hypervisor 9 .zero, .enqueued true), (.enqueue 0 ⟨1⟩ 5 .zero, .enqueued true),
    (.switchNext 0, .switched none)]

theorem priorityQueue_hidden :
    ∃ scheduler, Run (Step 2) .new hiddenHistory scheduler ∧
      scheduler.entries 0 ≠ 0 ∧ (scheduler.switchNext 2 0).1 = none := by
  have run : Run (Step 2) .new hiddenHistory _ := .cons rfl <| .cons rfl <| .single rfl
  exact ⟨_, run, by decide, rfl⟩

end Scheduler

end Rvm.Sched
