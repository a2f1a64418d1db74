import Mathlib.Data.List.Nodup

/-!
Owns singly linked lists threaded through an array: the cells met from a first
cell to a sentinel, and how they change when a cell is linked in front, when the
first cell is dropped and when the predecessor of a cell skips it.
-/

namespace Foundation

open List Function

def Threads (next : Nat → Nat) (stop : Nat) : Nat → List Nat → Prop
  | first, [] => first = stop
  | first, cell :: rest => first = cell ∧ cell ≠ stop ∧ Threads next stop (next cell) rest

namespace Threads

variable {next other : Nat → Nat} {stop first : Nat} {cells left right : List Nat}

theorem unique (threads : Threads next stop first left) (again : Threads next stop first right) :
    left = right := by
  induction left generalizing first right with
  | nil =>
    cases right with
    | nil => rfl
    | cons cell rest => exact absurd (again.1.symm.trans threads) again.2.1
  | cons cell rest ih =>
    obtain ⟨rfl, inside, later⟩ := threads
    cases right with
    | nil => exact absurd again inside
    | cons other others =>
      obtain ⟨rfl, _, otherLater⟩ := again
      rw [ih later otherLater]

variable {cell : Nat}

theorem suffix (threads : Threads next stop first (left ++ cell :: right)) :
    Threads next stop (next cell) right := by
  induction left generalizing first with
  | nil => exact threads.2.2
  | cons _ rest ih => exact ih threads.2.2

/-- No cell is met twice: its successors would have two lists. -/
theorem nodup (threads : Threads next stop first cells) : cells.Nodup := by
  induction cells generalizing first with
  | nil => exact nodup_nil
  | cons cell rest ih =>
    obtain ⟨_, _, later⟩ := threads
    refine nodup_cons.mpr ⟨fun repeated => ?_, ih later⟩
    obtain ⟨before, after, rfl⟩ := append_of_mem repeated
    have same := congrArg List.length (later.unique later.suffix)
    rw [length_append, length_cons] at same
    omega

theorem ne_stop (threads : Threads next stop first cells) (member : cell ∈ cells) :
    cell ≠ stop := by
  induction cells generalizing first with
  | nil => cases member
  | cons head rest ih =>
    rcases mem_cons.mp member with rfl | behind
    · exact threads.2.1
    · exact ih threads.2.2 behind

/-- Only the successors of the cells themselves matter. -/
theorem congr (threads : Threads next stop first cells)
    (same : ∀ cell ∈ cells, other cell = next cell) : Threads other stop first cells := by
  induction cells generalizing first with
  | nil => exact threads
  | cons cell rest ih =>
    refine ⟨threads.1, threads.2.1, ?_⟩
    rw [same cell mem_cons_self]
    exact ih threads.2.2 fun behind member =>
      same behind (mem_cons_of_mem cell member)

theorem update (threads : Threads next stop first cells) (successor : Nat)
    (elsewhere : cell ∉ cells) : Threads (update next cell successor) stop first cells :=
  threads.congr fun behind member =>
    update_of_ne (fun same : behind = cell => elsewhere (same ▸ member)) successor next

theorem redirect (threads : Threads next stop first cells) {tail : List Nat}
    (same : ∀ here, here ≠ cell → other here = next here)
    (behind : Threads other stop (other cell) tail) :
    ∃ after, Threads other stop first after ∧
      ∀ here ∈ after, here ∈ cells ∨ cell ∈ cells ∧ here ∈ tail := by
  induction cells generalizing first with
  | nil => exact ⟨[], threads, fun _ member => by cases member⟩
  | cons head rest ih =>
    obtain ⟨rfl, inside, later⟩ := threads
    by_cases here : first = cell
    · subst here
      refine ⟨first :: tail, ⟨rfl, inside, behind⟩, fun other member => ?_⟩
      rcases mem_cons.mp member with rfl | later
      · exact .inl mem_cons_self
      · exact .inr ⟨mem_cons_self, later⟩
    · obtain ⟨after, threads, members⟩ := ih later
      refine ⟨first :: after, ⟨rfl, inside, same first here ▸ threads⟩, fun other member => ?_⟩
      rcases mem_cons.mp member with rfl | later
      · exact .inl mem_cons_self
      · exact (members other later).imp (mem_cons_of_mem first) fun both =>
          ⟨mem_cons_of_mem first both.1, both.2⟩

theorem push (threads : Threads next stop first cells) (inside : cell ≠ stop)
    (fresh : cell ∉ cells) :
    Threads (Function.update next cell first) stop cell (cell :: cells) := by
  refine ⟨rfl, inside, ?_⟩
  rw [Function.update_self]
  exact threads.update first fresh

theorem next_mem (threads : Threads next stop first cells) (member : cell ∈ cells)
    (goes : next cell ≠ stop) : next cell ∈ cells := by
  obtain ⟨before, after, rfl⟩ := append_of_mem member
  cases after with
  | nil => exact absurd threads.suffix goes
  | cons successor rest =>
    rw [threads.suffix.1]
    exact mem_append_right before (mem_cons_of_mem cell mem_cons_self)

theorem skip (threads : Threads next stop first cells) {before : Nat} (member : before ∈ cells)
    (goes : next before = cell) (inside : cell ≠ stop) :
    Threads (Function.update next before (next cell)) stop first (cells.erase cell) := by
  induction cells generalizing first with
  | nil => cases member
  | cons head rest ih =>
    have headOnce := (nodup_cons.mp threads.nodup).1
    obtain ⟨rfl, notStop, later⟩ := threads
    by_cases here : first = before
    · subst here
      cases rest with
      | nil => exact absurd (goes.symm.trans later) inside
      | cons successor others =>
        obtain ⟨rfl, _, beyond⟩ := later
        have distinct : first ≠ next first := fun same =>
          headOnce (mem_cons.mpr (.inl same))
        have notBeyond : first ∉ others := fun again =>
          headOnce (mem_cons_of_mem _ again)
        subst goes
        rw [erase_cons_tail (by simpa using distinct), erase_cons_head]
        refine ⟨rfl, notStop, ?_⟩
        rw [update_self]
        exact beyond.update _ notBeyond
    · have inRest : before ∈ rest :=
        (mem_cons.mp member).resolve_left fun same => here same.symm
      have targetInRest : cell ∈ rest := goes ▸ later.next_mem inRest (goes ▸ inside)
      have distinct : first ≠ cell := fun same => headOnce (same ▸ targetInRest)
      rw [erase_cons_tail (by simpa using distinct)]
      refine ⟨rfl, notStop, ?_⟩
      rw [update_of_ne here]
      exact ih later inRest

end Threads

end Foundation
