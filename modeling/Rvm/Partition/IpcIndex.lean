import Rvm.Partition.IpcFifo

/-!
Owns the agreement of the hashed edge index with a scan of the channel table over
runs: while the counter of edge identifiers has not come round, stale entries never resolve
to another edge, identifiers are assigned once, and a destroyed edge stays gone.
-/

namespace Rvm.Partition

open Foundation List Option

def IpcCall.operatesOn : IpcCall → Option Nat
  | .createChannel _ _ => none
  | .destroyChannel edgeId | .send edgeId _ _ | .sendUnchecked edgeId _ | .receive edgeId =>
    some edgeId

namespace IpcManager

def scan (maxEdges : Nat) (manager : IpcManager) (edgeId : Nat) : Option (Nat × ChannelMeta) :=
  (List.range maxEdges).findSome? fun i =>
    (manager.channelIn edgeId i).map fun channel => (i, channel)

/-- `find_mut`, which tests the indexed slot before it borrows it. -/
def findMut (maxEdges : Nat) (manager : IpcManager) (edgeId : Nat) : Option (Nat × ChannelMeta) :=
  match manager.edgeIndex (edgeId % maxEdges) with
  | some idx =>
    if (manager.queues idx).any fun channel => channel.edgeId = edgeId then
      (manager.queues idx).map fun channel => (idx, channel)
    else manager.scan maxEdges edgeId
  | none => manager.scan maxEdges edgeId

variable {maxEdges queueSize edgeId : Nat} {manager next : IpcManager}

variable {i : Nat} {channel : ChannelMeta} {history : List (IpcCall × IpcOutcome)}

theorem Numbered.scan_eq_some_iff (numbered : Numbered maxEdges history manager) :
    manager.scan maxEdges edgeId = some (i, channel) ↔
      manager.queues i = some channel ∧ channel.edgeId = edgeId := by
  constructor
  · intro scanned
    obtain ⟨j, -, mapped⟩ := exists_of_findSome?_eq_some scanned
    obtain ⟨held, heldIn, pair⟩ := map_eq_some_iff.mp mapped
    cases pair
    exact channelIn_eq_some.mp heldIn
  · intro held
    have heldIn := channelIn_eq_some.mpr held
    cases scanned : manager.scan maxEdges edgeId with
    | none =>
      have missed := List.findSome?_eq_none_iff.mp scanned i
        (mem_range.mpr (numbered.slotBelow i channel held.1))
      rw [heldIn] at missed
      cases missed
    | some found =>
      obtain ⟨j, -, mapped⟩ := exists_of_findSome?_eq_some scanned
      obtain ⟨other, otherIn, rfl⟩ := map_eq_some_iff.mp mapped
      obtain ⟨otherHeld, sameEdge⟩ := channelIn_eq_some.mp otherIn
      obtain rfl := numbered.unique i j channel other held.1 otherHeld (held.2.trans sameEdge.symm)
      rw [some.inj (held.1.symm.trans otherHeld)]

theorem Numbered.find_eq_scan (numbered : Numbered maxEdges history manager) (edgeId : Nat) :
    manager.find maxEdges edgeId = manager.scan maxEdges edgeId := by
  unfold find
  dsimp only
  cases fast : (manager.edgeIndex (edgeId % maxEdges)).bind fun i =>
      (manager.channelIn edgeId i).map fun channel => (i, channel) with
  | none => rfl
  | some found =>
    obtain ⟨i, -, mapped⟩ := bind_eq_some_iff.mp fast
    obtain ⟨channel, heldIn, rfl⟩ := map_eq_some_iff.mp mapped
    exact (numbered.scan_eq_some_iff.mpr (channelIn_eq_some.mp heldIn)).symm

theorem Numbered.findMut_eq_scan (numbered : Numbered maxEdges history manager) (edgeId : Nat) :
    manager.findMut maxEdges edgeId = manager.scan maxEdges edgeId := by
  unfold findMut
  cases manager.edgeIndex (edgeId % maxEdges) with
  | none => rfl
  | some i =>
    dsimp only
    cases held : manager.queues i with
    | none => rfl
    | some channel =>
      by_cases sameEdge : channel.edgeId = edgeId
      · rw [if_pos (by simpa using sameEdge)]
        exact (numbered.scan_eq_some_iff.mpr ⟨held, sameEdge⟩).symm
      · rw [if_neg (by simpa using sameEdge)]

variable {label : IpcCall × IpcOutcome}

/-- An identifier that was given and has no channel any more. -/
structure Gone (history : List (IpcCall × IpcOutcome)) (manager : IpcManager) (edgeId : Nat) :
    Prop where
  given : edgeId ∈ created history
  absent : ∀ i channel, manager.queues i = some channel → channel.edgeId ≠ edgeId

theorem Gone.setChannel (gone : Gone history manager edgeId) {changed : ChannelMeta}
    (held : manager.queues i = some channel) (sameEdge : changed.edgeId = channel.edgeId) :
    Gone (history ++ [label]) (manager.setChannel i changed) edgeId := by
  refine ⟨mem_created_snoc gone.given, fun j other found => ?_⟩
  rcases filled_cases found with ⟨-, rfl⟩ | ⟨-, kept⟩
  · rw [sameEdge]
    exact gone.absent i channel held
  · exact gone.absent j other kept

theorem Gone.effect (gone : Gone history manager edgeId)
    (numbered : Numbered maxEdges history manager)
    (few : (created (history ++ [label])).length ≤ 18446744073709551616)
    (effect : Effect maxEdges queueSize manager label next) :
    Gone (history ++ [label]) next edgeId := by
  cases effect with
  | idle | bumped => exact ⟨mem_created_snoc gone.given, gone.absent⟩
  | opened _ _ =>
    rw [created, filterMap_append, length_append] at few
    refine ⟨mem_created_snoc gone.given, fun j other found => ?_⟩
    rcases filled_cases found with ⟨-, rfl⟩ | ⟨-, kept⟩
    · rintro rfl
      exact numbered.fresh few gone.given
    · exact gone.absent j other kept
  | closed _ =>
    exact ⟨mem_created_snoc gone.given,
      fun j other found => gone.absent j other (emptied_cases found).2⟩
  | delivered held _ _ _ _ => exact gone.setChannel held rfl
  | taken held => exact gone.setChannel held rfl

theorem Numbered.gone_of_destroy (numbered : Numbered maxEdges history manager) {reply : IpcReply}
    (step : Step maxEdges queueSize manager (.destroyChannel edgeId, .ok reply) next) :
    Gone (history ++ [(.destroyChannel edgeId, .ok reply)]) next edgeId := by
  unfold Step apply destroyChannel at step
  dsimp only at step
  split at step
  · next i found =>
      cases step
      have isSome := List.find?_some found
      obtain ⟨channel, heldIn⟩ := isSome_iff_exists.mp isSome
      obtain ⟨held, rfl⟩ := channelIn_eq_some.mp heldIn
      refine ⟨mem_created_snoc (numbered.assigned i channel held), fun j other kept sameEdge => ?_⟩
      obtain ⟨different, was⟩ := emptied_cases kept
      exact different (numbered.unique j i other channel was held sameEdge)
  · cases step

theorem Gone.find_none (gone : Gone history manager edgeId) : manager.find maxEdges edgeId = none := by
  cases found : manager.find maxEdges edgeId with
  | none => rfl
  | some slot =>
    obtain ⟨held, sameEdge⟩ := find_sound found
    exact absurd sameEdge (gone.absent _ _ held)

theorem Gone.fails (gone : Gone history manager edgeId)
    (step : Step maxEdges queueSize manager label next)
    (operates : label.1.operatesOn = some edgeId) : ∃ e, label.2 = .error e := by
  have missing := @Gone.find_none maxEdges edgeId manager history gone
  obtain ⟨call, outcome⟩ := label
  unfold Step apply at step
  cases call with
  | createChannel _ _ => cases operates
  | destroyChannel _ =>
    cases operates
    have unheld : (List.range maxEdges).find?
        (fun i => (manager.channelIn edgeId i).isSome) = none := by
      rw [List.find?_eq_none]
      intro i _ isSome
      obtain ⟨channel, heldIn⟩ := isSome_iff_exists.mp isSome
      obtain ⟨held, sameEdge⟩ := channelIn_eq_some.mp heldIn
      exact gone.absent i channel held sameEdge
    simp only [destroyChannel, unheld] at step
    cases step
    exact ⟨_, rfl⟩
  | send _ msg callerId =>
    cases operates
    simp only [send, missing] at step
    split at step
    · cases step
      exact ⟨_, rfl⟩
    · cases step
      exact ⟨_, rfl⟩
  | sendUnchecked _ _ =>
    cases operates
    simp only [sendUnchecked, missing] at step
    cases step
    exact ⟨_, rfl⟩
  | receive _ =>
    cases operates
    simp only [receive, missing] at step
    cases step
    exact ⟨_, rfl⟩

theorem Gone.run {later : List (IpcCall × IpcOutcome)}
    (before : Run (Step maxEdges queueSize) new history manager)
    (gone : Gone history manager edgeId) (run : Run (Step maxEdges queueSize) manager later next)
    (few : (created (history ++ later)).length ≤ 18446744073709551616) :
    Gone (history ++ later) next edgeId ∧ ∀ label ∈ later, label.1.operatesOn = some edgeId →
      ∃ e, label.2 = .error e := by
  induction run with
  | nil => exact ⟨(append_nil history).symm ▸ gone, nofun⟩
  | @snoc later label here final upTo step ih =>
    rw [← append_assoc] at few ⊢
    have fewHere := created_length_le.trans few
    obtain ⟨goneHere, failed⟩ := ih fewHere
    have numbered := numbered_of_run (before.append upTo) fewHere
    refine ⟨goneHere.effect numbered few (effect_of_step step), fun other member operates => ?_⟩
    rcases mem_append.mp member with earlier | last
    · exact failed other earlier operates
    · obtain rfl := mem_singleton.mp last
      exact goneHere.fails step operates

/-- Up to `2^64` creations both lookups answer what a scan answers, identifiers are given once,
and nothing succeeds on an edge that was destroyed. -/
theorem indexAgreesWithScan (maxEdges queueSize : Nat) (history : List (IpcCall × IpcOutcome))
    (manager : IpcManager) (run : Run (Step maxEdges queueSize) new history manager)
    (few : (created history).length ≤ 18446744073709551616) :
    (∀ edgeId, manager.find maxEdges edgeId = manager.scan maxEdges edgeId ∧
      manager.findMut maxEdges edgeId = manager.scan maxEdges edgeId) ∧
    (∀ hash i, manager.edgeIndex hash = some i → i < maxEdges) ∧
    (created history).Nodup ∧
    ∀ first second edgeId reply, history = first ++ (.destroyChannel edgeId, .ok reply) :: second →
      (∀ label ∈ second, label.1.operatesOn = some edgeId → ∃ e, label.2 = .error e) ∧
      manager.find maxEdges edgeId = none ∧
      manager.commWeight maxEdges edgeId = .error .partitionNotFound := by
  have numbered := numbered_of_run run few
  refine ⟨fun edgeId => ⟨numbered.find_eq_scan edgeId, numbered.findMut_eq_scan edgeId⟩,
    numbered.entryBelow, numbered.nodup few, ?_⟩
  rintro first second edgeId reply rfl
  obtain ⟨here, after, before, step, rest⟩ := run.split_at
  rw [append_cons] at few
  have fewBefore : (created first).length ≤ 18446744073709551616 := by
    rw [append_assoc, created, filterMap_append, length_append] at few
    exact (Nat.le_add_right _ _).trans few
  have destroyed := (numbered_of_run before fewBefore).gone_of_destroy step
  obtain ⟨gone, failed⟩ := destroyed.run (before.snoc step) rest few
  refine ⟨failed, gone.find_none, ?_⟩
  rw [commWeight, gone.find_none]

/-- In a table of two slots the third edge takes the slot and the index entry of the
first, which was destroyed. -/
def reuseHistory : List (IpcCall × IpcOutcome) :=
  [(.createChannel ⟨1⟩ ⟨2⟩, .ok (.edge 1)), (.createChannel ⟨2⟩ ⟨1⟩, .ok (.edge 2)),
    (.destroyChannel 1, .ok .done), (.createChannel ⟨1⟩ ⟨3⟩, .ok (.edge 3))]

theorem indexAgreesWithScan_reused : ∃ manager, Run (Step 2 4) new reuseHistory manager ∧
    manager.find 2 3 = manager.scan 2 3 ∧ manager.find 2 1 = none := by
  have run : Run (Step 2 4) new reuseHistory _ :=
    .cons rfl (.cons rfl (.cons rfl (.single rfl)))
  obtain ⟨agree, _, _, gone⟩ := indexAgreesWithScan 2 4 reuseHistory _ run (by decide)
  exact ⟨_, run, (agree 3).1, (gone (reuseHistory.take 2) (reuseHistory.drop 3) 1 .done rfl).2.1⟩

/-- When the counter has come round, the identifier of an open edge is given again. -/
theorem indexAgreesWithScan_broken : ∃ history manager, Run (Step 2 2) new history manager ∧
    ¬(created history).Nodup := by
  obtain ⟨here, opening, channel, alone, first⟩ : ∃ here,
      Run (Step 2 2) new [(.createChannel ⟨1⟩ ⟨2⟩, .ok (.edge 1))] here ∧
      ∃ channel, Alone channel here 2 ∧ channel.edgeId = 1 :=
    ⟨_, .single rfl, _, ⟨rfl, rfl, rfl, rfl⟩, rfl⟩
  obtain ⟨middle, next, round, alone, -⟩ := comesRound alone first
  refine ⟨_, _, (opening.append round).snoc alone.opens, fun once => ?_⟩
  rw [created, filterMap_append, filterMap_append] at once
  exact (nodup_append.mp once).2.2 1 (mem_append_left _ (mem_singleton_self 1)) 1
    (mem_singleton_self 1) rfl

end IpcManager

end Rvm.Partition
