import Mathlib.Data.Nat.Bitwise
import Rvm.Foundation.Ring
import Rvm.Foundation.Slots
import Rvm.Partition.Ipc

/-!
Owns the delivery argument over runs of the channel table, as long as the counter of edge
identifiers has not come round. The histories of an edge are read off the labels of the run, so
that they outlive its channel.
-/

namespace Rvm.Partition

open Foundation List Option

/-! ### Queues -/

namespace MessageQueue

variable {exponent : Nat} {queue next : MessageQueue} {contents : List IpcMessage}

structure Queued (capacity : Nat) (queue : MessageQueue) (contents : List IpcMessage) : Prop where
  ring : Ring.Holds capacity queue.buffer queue.head contents
  counted : queue.count = contents.length
  headBelow : queue.head < capacity
  tailEq : queue.tail = (queue.head + queue.count) % capacity

theorem queued_new {capacity : Nat} (positive : 0 < capacity) : Queued capacity .new [] where
  ring := Ring.holds_nil capacity 0 _
  counted := rfl
  headBelow := positive
  tailEq := (Nat.zero_mod capacity).symm

theorem wrap_eq (exponent index : Nat) :
    (index + 1) &&& (2 ^ exponent - 1) = (index + 1) % 2 ^ exponent :=
  Nat.and_two_pow_sub_one_eq_mod (index + 1) exponent

theorem Queued.send {msg : IpcMessage} (queued : Queued (2 ^ exponent) queue contents)
    (accepted : queue.send (2 ^ exponent) msg = .ok next) :
    Queued (2 ^ exponent) next (contents ++ [msg]) := by
  unfold MessageQueue.send at accepted
  split at accepted
  · cases accepted
  · rename_i room
    cases accepted
    rw [queued.counted] at room
    have pushed := queued.ring.push (Nat.not_le.mp room) msg
    rw [← queued.counted, ← queued.tailEq] at pushed
    refine ⟨pushed, ?_, queued.headBelow, ?_⟩
    · rw [length_append, length_singleton, ← queued.counted]
    · dsimp only
      rw [wrap_eq, queued.tailEq, Nat.mod_add_mod, Nat.add_assoc]

theorem Queued.receive_nil (queued : Queued (2 ^ exponent) queue []) :
    queue.receive (2 ^ exponent) = (none, queue) :=
  if_pos queued.counted

theorem Queued.receive_cons {msg : IpcMessage}
    (queued : Queued (2 ^ exponent) queue (msg :: contents)) :
    (queue.receive (2 ^ exponent)).1 = some msg ∧
      Queued (2 ^ exponent) (queue.receive (2 ^ exponent)).2 contents := by
  have counted : queue.count = contents.length + 1 := queued.counted
  have nonempty : queue.count ≠ 0 := by omega
  have headEq : queue.head % 2 ^ exponent = queue.head := Nat.mod_eq_of_lt queued.headBelow
  have popped := queued.ring.pop
  rw [MessageQueue.receive, if_neg nonempty, wrap_eq]
  rw [headEq] at popped
  constructor
  · rw [← queued.ring.head_cell, headEq]
  · refine ⟨popped, ?_, Nat.mod_lt _ (Nat.two_pow_pos exponent), ?_⟩
    · dsimp only
      omega
    · dsimp only
      rw [queued.tailEq, Nat.mod_add_mod]
      congr 1
      omega

end MessageQueue

/-! ### Histories of an edge -/

def sentOn (edgeId : Nat) : IpcCall × IpcOutcome → Option IpcMessage
  | (.send sentEdge msg _, .ok _) => if sentEdge = edgeId then some msg else none
  | (.sendUnchecked sentEdge msg, .ok _) => if sentEdge = edgeId then some msg else none
  | _ => none

def receivedOn (edgeId : Nat) : IpcCall × IpcOutcome → Option IpcMessage
  | (.receive receivedEdge, .ok (.message msg)) => if receivedEdge = edgeId then msg else none
  | _ => none

def sent (edgeId : Nat) (history : List (IpcCall × IpcOutcome)) : List IpcMessage :=
  history.filterMap (sentOn edgeId)

def received (edgeId : Nat) (history : List (IpcCall × IpcOutcome)) : List IpcMessage :=
  history.filterMap (receivedOn edgeId)

/-- The identifier that a call assigned. -/
def createdEdge : IpcCall × IpcOutcome → Option Nat
  | (.createChannel _ _, .ok (.edge edgeId)) => some edgeId
  | _ => none

/-- The identifiers assigned so far, in order. -/
def created (history : List (IpcCall × IpcOutcome)) : List Nat := history.filterMap createdEdge

section Histories

variable {edgeId : Nat} {history : List (IpcCall × IpcOutcome)} {label : IpcCall × IpcOutcome}
  {msg : IpcMessage}

theorem sent_append (later : List (IpcCall × IpcOutcome)) :
    sent edgeId (history ++ later) = sent edgeId history ++ sent edgeId later :=
  filterMap_append

theorem received_append (later : List (IpcCall × IpcOutcome)) :
    received edgeId (history ++ later) = received edgeId history ++ received edgeId later :=
  filterMap_append

theorem sent_snoc_none (silent : sentOn edgeId label = none) :
    sent edgeId (history ++ [label]) = sent edgeId history := by
  simp [sent, filterMap_append, silent]

theorem sent_snoc_some (sends : sentOn edgeId label = some msg) :
    sent edgeId (history ++ [label]) = sent edgeId history ++ [msg] := by
  simp [sent, filterMap_append, sends]

theorem received_snoc_none (silent : receivedOn edgeId label = none) :
    received edgeId (history ++ [label]) = received edgeId history := by
  simp [received, filterMap_append, silent]

theorem received_snoc_some (receives : receivedOn edgeId label = some msg) :
    received edgeId (history ++ [label]) = received edgeId history ++ [msg] := by
  simp [received, filterMap_append, receives]

theorem created_snoc_none (silent : createdEdge label = none) :
    created (history ++ [label]) = created history := by
  simp [created, filterMap_append, silent]

theorem created_length_le :
    (created history).length ≤ (created (history ++ [label])).length := by
  rw [created, created, filterMap_append, length_append]
  exact Nat.le_add_right _ _

end Histories

/-! ### What a call does -/

namespace IpcManager

variable {maxEdges queueSize exponent : Nat} {manager next : IpcManager} {i : Nat}
  {channel : ChannelMeta}

theorem channelIn_eq_some {edgeId : Nat} :
    manager.channelIn edgeId i = some channel ↔
      manager.queues i = some channel ∧ channel.edgeId = edgeId := by
  rw [channelIn, filter_eq_some_iff, decide_eq_true_iff]

theorem find_sound {edgeId : Nat} (found : manager.find maxEdges edgeId = some (i, channel)) :
    manager.queues i = some channel ∧ channel.edgeId = edgeId := by
  have placed : ∀ j, (manager.channelIn edgeId j).map (fun held => (j, held)) = some (i, channel) →
      manager.queues i = some channel ∧ channel.edgeId = edgeId := by
    intro j mapped
    obtain ⟨held, heldIn, pair⟩ := map_eq_some_iff.mp mapped
    cases pair
    exact channelIn_eq_some.mp heldIn
  rw [find, or_eq_some_iff] at found
  cases found with
  | inl indexed =>
    obtain ⟨j, -, mapped⟩ := bind_eq_some_iff.mp indexed
    exact placed j mapped
  | inr scanned =>
    obtain ⟨j, -, mapped⟩ := exists_of_findSome?_eq_some scanned.2
    exact placed j mapped

/-- What one call can do to the table; the labels say what it puts on an edge or
takes from it, and which edge it creates. -/
inductive Effect (maxEdges queueSize : Nat) (manager : IpcManager) :
    IpcCall × IpcOutcome → IpcManager → Prop
  | idle {label : IpcCall × IpcOutcome} (sendsNothing : ∀ edgeId, sentOn edgeId label = none)
      (receivesNothing : ∀ edgeId, receivedOn edgeId label = none)
      (createsNothing : createdEdge label = none) :
      Effect maxEdges queueSize manager label manager
  | bumped {source dest : PartitionId} (room : manager.edgeCount < maxEdges)
      (full : ∀ i, i < maxEdges → (manager.queues i).isSome) :
      Effect maxEdges queueSize manager (.createChannel source dest, .error .internalError)
        manager.bumpEdgeId
  | opened {source dest : PartitionId} {i : Nat} (below : i < maxEdges)
      (free : manager.queues i = none) :
      Effect maxEdges queueSize manager
        (.createChannel source dest, .ok (.edge manager.nextEdgeId))
        (manager.bumpEdgeId.openChannel maxEdges manager.nextEdgeId i source dest)
  | closed {i : Nat} {channel : ChannelMeta} (held : manager.queues i = some channel) :
      Effect maxEdges queueSize manager (.destroyChannel channel.edgeId, .ok .done)
        (manager.closeChannel maxEdges channel.edgeId i)
  | delivered {call : IpcCall} {i : Nat} {channel : ChannelMeta} {msg : IpcMessage}
      {queue : MessageQueue} (held : manager.queues i = some channel)
      (accepted : channel.queue.send queueSize msg = .ok queue)
      (sends : ∀ edgeId, sentOn edgeId (call, .ok .done) =
        if channel.edgeId = edgeId then some msg else none)
      (receivesNothing : ∀ edgeId, receivedOn edgeId (call, .ok .done) = none)
      (createsNothing : createdEdge (call, .ok .done) = none) :
      Effect maxEdges queueSize manager (call, .ok .done)
        (manager.setChannel i
          { channel with queue := queue, weight := min (channel.weight + 1) u64Max })
  | taken {i : Nat} {channel : ChannelMeta} (held : manager.queues i = some channel) :
      Effect maxEdges queueSize manager
        (.receive channel.edgeId, .ok (.message (channel.queue.receive queueSize).1))
        (manager.setChannel i { channel with queue := (channel.queue.receive queueSize).2 })

theorem deliver_effect {call : IpcCall} {msg : IpcMessage} (held : manager.queues i = some channel)
    (sends : ∀ edgeId, sentOn edgeId (call, .ok .done) =
      if channel.edgeId = edgeId then some msg else none)
    (failsSilently : ∀ edgeId e, sentOn edgeId (call, .error e) = none)
    (receivesNothing : ∀ edgeId outcome, receivedOn edgeId (call, outcome) = none)
    (createsNothing : ∀ outcome, createdEdge (call, outcome) = none) :
    Effect maxEdges queueSize manager
      (call, (manager.deliver queueSize i channel msg).1.map fun _ => .done)
      (manager.deliver queueSize i channel msg).2 := by
  rw [deliver]
  cases accepted : channel.queue.send queueSize msg with
  | error e =>
    exact .idle (fun edgeId => failsSilently edgeId e) (fun edgeId => receivesNothing edgeId _)
      (createsNothing _)
  | ok queue =>
    exact .delivered held accepted sends (fun edgeId => receivesNothing edgeId _) (createsNothing _)

theorem createChannel_effect (source dest : PartitionId) :
    Effect maxEdges queueSize manager
      (.createChannel source dest, (manager.createChannel maxEdges source dest).1.map .edge)
      (manager.createChannel maxEdges source dest).2 := by
  rw [createChannel]
  split
  · exact .idle (fun _ => rfl) (fun _ => rfl) rfl
  · rename_i room
    cases free : (List.range maxEdges).find? fun i => (manager.queues i).isNone with
    | none =>
      refine .bumped (Nat.not_le.mp room) fun i below => ?_
      have taken := List.find?_eq_none.mp free i (mem_range.mpr below)
      rwa [isNone_iff_eq_none, ← ne_eq, ne_none_iff_isSome] at taken
    | some i =>
      have below := mem_range.mp (mem_of_find?_eq_some free)
      have isFree := List.find?_some free
      exact .opened below (isNone_iff_eq_none.mp isFree)

theorem destroyChannel_effect (edgeId : Nat) :
    Effect maxEdges queueSize manager
      (.destroyChannel edgeId, (manager.destroyChannel maxEdges edgeId).1.map fun _ => .done)
      (manager.destroyChannel maxEdges edgeId).2 := by
  rw [destroyChannel]
  cases found : (List.range maxEdges).find? fun i => (manager.channelIn edgeId i).isSome with
  | none => exact .idle (fun _ => rfl) (fun _ => rfl) rfl
  | some i =>
    have isSome := List.find?_some found
    obtain ⟨channel, heldIn⟩ := isSome_iff_exists.mp isSome
    obtain ⟨held, rfl⟩ := channelIn_eq_some.mp heldIn
    exact .closed held

theorem sendUnchecked_effect (edgeId : Nat) (msg : IpcMessage) :
    Effect maxEdges queueSize manager
      (.sendUnchecked edgeId msg,
        (manager.sendUnchecked maxEdges queueSize edgeId msg).1.map fun _ => .done)
      (manager.sendUnchecked maxEdges queueSize edgeId msg).2 := by
  rw [sendUnchecked]
  cases found : manager.find maxEdges edgeId with
  | none => exact .idle (fun _ => rfl) (fun _ => rfl) rfl
  | some slot =>
    obtain ⟨i, channel⟩ := slot
    obtain ⟨held, rfl⟩ := find_sound found
    exact deliver_effect held (fun _ => rfl) (fun _ _ => rfl) (fun _ _ => rfl) fun _ => rfl

theorem send_effect (edgeId : Nat) (msg : IpcMessage) (callerId : PartitionId) :
    Effect maxEdges queueSize manager
      (.send edgeId msg callerId,
        (manager.send maxEdges queueSize edgeId msg callerId).1.map fun _ => .done)
      (manager.send maxEdges queueSize edgeId msg callerId).2 := by
  rw [send]
  split
  · exact .idle (fun _ => rfl) (fun _ => rfl) rfl
  · cases found : manager.find maxEdges edgeId with
    | none => exact .idle (fun _ => rfl) (fun _ => rfl) rfl
    | some slot =>
      obtain ⟨i, channel⟩ := slot
      obtain ⟨held, rfl⟩ := find_sound found
      dsimp only
      split
      · exact .idle (fun _ => rfl) (fun _ => rfl) rfl
      · exact deliver_effect held (fun _ => rfl) (fun _ _ => rfl) (fun _ _ => rfl) fun _ => rfl

theorem receive_effect (edgeId : Nat) :
    Effect maxEdges queueSize manager
      (.receive edgeId, (manager.receive maxEdges queueSize edgeId).1.map .message)
      (manager.receive maxEdges queueSize edgeId).2 := by
  rw [receive]
  cases found : manager.find maxEdges edgeId with
  | none => exact .idle (fun _ => rfl) (fun _ => rfl) rfl
  | some slot =>
    obtain ⟨i, channel⟩ := slot
    obtain ⟨held, rfl⟩ := find_sound found
    exact .taken held

theorem effect_of_step {label : IpcCall × IpcOutcome}
    (step : Step maxEdges queueSize manager label next) :
    Effect maxEdges queueSize manager label next := by
  obtain ⟨call, outcome⟩ := label
  unfold Step at step
  dsimp only at step
  cases call with
  | createChannel source dest =>
    cases step
    exact createChannel_effect source dest
  | destroyChannel edgeId =>
    cases step
    exact destroyChannel_effect edgeId
  | send edgeId msg callerId =>
    cases step
    exact send_effect edgeId msg callerId
  | sendUnchecked edgeId msg =>
    cases step
    exact sendUnchecked_effect edgeId msg
  | receive edgeId =>
    cases step
    exact receive_effect edgeId

/-! ### Identifiers over a run -/

/-- The table as calls leave it: channels and index entries inside the table and counted, one
channel an edge, and the identifiers given so far in the order of the counter. -/
structure Numbered (maxEdges : Nat) (history : List (IpcCall × IpcOutcome))
    (manager : IpcManager) : Prop where
  slotBelow : ∀ i channel, manager.queues i = some channel → i < maxEdges
  entryBelow : ∀ hash i, manager.edgeIndex hash = some i → i < maxEdges
  counted : manager.edgeCount = occupied maxEdges fun i => (manager.queues i).isSome
  unique : ∀ i j channel other, manager.queues i = some channel → manager.queues j = some other →
    channel.edgeId = other.edgeId → i = j
  assigned : ∀ i channel, manager.queues i = some channel → channel.edgeId ∈ created history
  given : created history = (List.range (created history).length).map fun k => asU64 (k + 1)
  counter : manager.nextEdgeId = asU64 ((created history).length + 1)

section Numbering

variable {history : List (IpcCall × IpcOutcome)} {label : IpcCall × IpcOutcome}

theorem numbered_new (maxEdges : Nat) : Numbered maxEdges [] .new where
  slotBelow := nofun
  entryBelow := nofun
  counted := occupied_none.symm
  unique := nofun
  assigned := nofun
  given := rfl
  counter := rfl

/-- Up to `2^64` creations no identifier was given before. -/
theorem Numbered.fresh (numbered : Numbered maxEdges history manager)
    (few : (created history).length + 1 ≤ 18446744073709551616) :
    manager.nextEdgeId ∉ created history := by
  intro again
  rw [numbered.given, numbered.counter] at again
  obtain ⟨k, inRange, same⟩ := mem_map.mp again
  have below := mem_range.mp inRange
  unfold asU64 at same
  omega

theorem Numbered.nodup (numbered : Numbered maxEdges history manager)
    (few : (created history).length ≤ 18446744073709551616) : (created history).Nodup := by
  rw [numbered.given]
  refine Nodup.map_on (fun j jInRange k kInRange same => ?_) nodup_range
  have jBelow := mem_range.mp jInRange
  have kBelow := mem_range.mp kInRange
  unfold asU64 at same
  omega

theorem Numbered.silent (numbered : Numbered maxEdges history manager)
    (createsNothing : createdEdge label = none) :
    Numbered maxEdges (history ++ [label]) manager := by
  have same := @created_snoc_none history label createsNothing
  refine ⟨numbered.slotBelow, numbered.entryBelow, numbered.counted, numbered.unique, ?_, ?_, ?_⟩
  · rw [same]
    exact numbered.assigned
  · rw [same]
    exact numbered.given
  · rw [same]
    exact numbered.counter

theorem Numbered.setChannel (numbered : Numbered maxEdges history manager) {changed : ChannelMeta}
    (held : manager.queues i = some channel) (sameEdge : changed.edgeId = channel.edgeId) :
    Numbered maxEdges history (manager.setChannel i changed) := by
  have before : ∀ j other, (manager.setChannel i changed).queues j = some other →
      ∃ old, manager.queues j = some old ∧ old.edgeId = other.edgeId := by
    intro j other found
    rcases filled_cases found with ⟨rfl, rfl⟩ | ⟨-, kept⟩
    · exact ⟨channel, held, sameEdge.symm⟩
    · exact ⟨other, kept, rfl⟩
  refine ⟨?_, numbered.entryBelow, ?_, ?_, ?_, numbered.given, numbered.counter⟩
  · intro j other found
    obtain ⟨old, was, -⟩ := before j other found
    exact numbered.slotBelow j old was
  · refine numbered.counted.trans (occupied_congr fun j _ => ?_)
    by_cases here : j = i
    · rw [here, setChannel_queues, Function.update_self, held]
      rfl
    · rw [setChannel_queues, Function.update_of_ne here]
  · intro j k left right leftFound rightFound same
    obtain ⟨leftOld, leftWas, leftSame⟩ := before j left leftFound
    obtain ⟨rightOld, rightWas, rightSame⟩ := before k right rightFound
    exact numbered.unique j k leftOld rightOld leftWas rightWas
      (leftSame.trans (same.trans rightSame.symm))
  · intro j other found
    obtain ⟨old, was, same⟩ := before j other found
    exact same ▸ numbered.assigned j old was

theorem Numbered.opened (numbered : Numbered maxEdges history manager) {source dest : PartitionId}
    {i : Nat} (below : i < maxEdges) (free : manager.queues i = none)
    (fresh : manager.nextEdgeId ∉ created history) :
    Numbered maxEdges
      (history ++ [(.createChannel source dest, .ok (.edge manager.nextEdgeId))])
      (manager.bumpEdgeId.openChannel maxEdges manager.nextEdgeId i source dest) := by
  have before : ∀ j other,
      (manager.bumpEdgeId.openChannel maxEdges manager.nextEdgeId i source dest).queues j =
        some other → (j = i ∧ other.edgeId = manager.nextEdgeId) ∨
          manager.queues j = some other ∧ other.edgeId ∈ created history := by
    intro j other found
    rcases filled_cases found with ⟨rfl, rfl⟩ | ⟨-, kept⟩
    · exact .inl ⟨rfl, rfl⟩
    · exact .inr ⟨kept, numbered.assigned j other kept⟩
  have more : created (history ++ [(.createChannel source dest, .ok (.edge manager.nextEdgeId))]) =
      created history ++ [manager.nextEdgeId] := by
    rw [created, filterMap_append]
    rfl
  constructor
  · intro j other found
    rcases before j other found with ⟨rfl, -⟩ | ⟨kept, -⟩
    · exact below
    · exact numbered.slotBelow j other kept
  · intro hash j found
    rcases filled_cases found with ⟨-, rfl⟩ | ⟨-, kept⟩
    · exact below
    · exact numbered.entryBelow hash j kept
  · exact (congrArg (· + 1) numbered.counted).trans (occupied_filled below free).symm
  · intro j k left right leftFound rightFound same
    rcases before j left leftFound with ⟨rfl, leftNew⟩ | ⟨leftKept, leftOld⟩
    · rcases before k right rightFound with ⟨rfl, -⟩ | ⟨-, rightOld⟩
      · rfl
      · exact absurd (leftNew.symm.trans same ▸ rightOld) fresh
    · rcases before k right rightFound with ⟨rfl, rightNew⟩ | ⟨rightKept, -⟩
      · exact absurd (same.trans rightNew ▸ leftOld) fresh
      · exact numbered.unique j k left right leftKept rightKept same
  · intro j other found
    rw [more]
    rcases before j other found with ⟨-, isNew⟩ | ⟨-, old⟩
    · exact mem_append_right _ (mem_singleton.mpr isNew)
    · exact mem_append_left _ old
  · rw [more, length_append, length_singleton, range_succ, map_append, ← numbered.given,
      numbered.counter]
    rfl
  · rw [more, length_append, length_singleton]
    have bumped : asU64 (manager.nextEdgeId + 1) = asU64 ((created history).length + 1 + 1) := by
      rw [numbered.counter]
      unfold asU64
      omega
    exact bumped

theorem Numbered.closed (numbered : Numbered maxEdges history manager) (edgeId : Nat)
    (held : manager.queues i = some channel) :
    Numbered maxEdges history (manager.closeChannel maxEdges edgeId i) where
  slotBelow j other found := numbered.slotBelow j other (emptied_cases found).2
  entryBelow hash j found := by
    unfold closeChannel at found
    dsimp only at found
    split at found
    · exact numbered.entryBelow hash j (emptied_cases found).2
    · exact numbered.entryBelow hash j found
  counted := by
    have emptied := occupied_emptied (numbered.slotBelow i channel held) held
    rw [← numbered.counted] at emptied
    exact Nat.sub_eq_of_eq_add emptied.symm
  unique j k left right leftFound rightFound :=
    numbered.unique j k left right (emptied_cases leftFound).2 (emptied_cases rightFound).2
  assigned j other found := numbered.assigned j other (emptied_cases found).2
  given := numbered.given
  counter := numbered.counter

theorem Numbered.effect (numbered : Numbered maxEdges history manager)
    (few : (created (history ++ [label])).length ≤ 18446744073709551616)
    (effect : Effect maxEdges queueSize manager label next) :
    Numbered maxEdges (history ++ [label]) next := by
  cases effect with
  | idle _ _ createsNothing => exact numbered.silent createsNothing
  | bumped room full =>
    -- the count of channels is exact, so there is a free slot where it leaves room
    rw [numbered.counted] at room
    obtain ⟨i, below, free⟩ := exists_free room
    rw [full i below] at free
    cases free
  | opened below free =>
    refine numbered.opened below free (numbered.fresh ?_)
    rwa [created, filterMap_append, length_append] at few
  | closed held => exact (numbered.closed _ held).silent rfl
  | delivered held _ _ _ createsNothing =>
    apply (numbered.setChannel held _).silent createsNothing
    rfl
  | taken held =>
    apply (numbered.setChannel held _).silent
    · rfl
    · rfl

theorem numbered_of_run (run : Run (Step maxEdges queueSize) .new history manager)
    (few : (created history).length ≤ 18446744073709551616) :
    Numbered maxEdges history manager := by
  induction run with
  | nil => exact numbered_new maxEdges
  | snoc _ step ih => exact (ih (created_length_le.trans few)).effect few (effect_of_step step)

end Numbering

/-! ### Delivery over a run -/

/-- What holds of a channel in the table. -/
structure Served (queueSize : Nat) (history : List (IpcCall × IpcOutcome))
    (channel : ChannelMeta) : Prop where
  weightEq : channel.weight = min (sent channel.edgeId history).length u64Max
  queued : ∃ contents, channel.queue.Queued queueSize contents ∧
    sent channel.edgeId history = received channel.edgeId history ++ contents

/-- The delivery invariant: every edge, open or not, has received a prefix of what it was
sent, and nothing before it was created. -/
structure Delivered (queueSize : Nat) (history : List (IpcCall × IpcOutcome))
    (manager : IpcManager) : Prop where
  served : ∀ i channel, manager.queues i = some channel → Served queueSize history channel
  unassigned : ∀ edgeId, edgeId ∉ created history →
    sent edgeId history = [] ∧ received edgeId history = []
  inOrder : ∀ edgeId, received edgeId history <+: sent edgeId history

theorem delivered_new (queueSize : Nat) : Delivered queueSize [] .new where
  served := fun _ _ held => by cases held
  unassigned := fun _ _ => ⟨rfl, rfl⟩
  inOrder := fun _ => nil_prefix

section Steps

variable {history : List (IpcCall × IpcOutcome)} {label : IpcCall × IpcOutcome}

theorem Served.silent (served : Served queueSize history channel)
    (sendsNothing : sentOn channel.edgeId label = none)
    (receivesNothing : receivedOn channel.edgeId label = none) :
    Served queueSize (history ++ [label]) channel where
  weightEq := by
    rw [sent_snoc_none sendsNothing]
    exact served.weightEq
  queued := by
    rw [sent_snoc_none sendsNothing, received_snoc_none receivesNothing]
    exact served.queued

theorem mem_created_snoc {edgeId : Nat} (known : edgeId ∈ created history) :
    edgeId ∈ created (history ++ [label]) := by
  rw [created, filterMap_append]
  exact mem_append_left _ known

theorem Delivered.silent (delivered : Delivered queueSize history manager)
    (kept : ∀ i channel, next.queues i = some channel → manager.queues i = some channel)
    (sendsNothing : ∀ edgeId, sentOn edgeId label = none)
    (receivesNothing : ∀ edgeId, receivedOn edgeId label = none) :
    Delivered queueSize (history ++ [label]) next where
  served := fun i channel held =>
    (delivered.served i channel (kept i channel held)).silent (sendsNothing channel.edgeId)
      (receivesNothing channel.edgeId)
  unassigned := by
    intro edgeId unknown
    rw [sent_snoc_none (sendsNothing edgeId), received_snoc_none (receivesNothing edgeId)]
    exact delivered.unassigned edgeId fun known => unknown (mem_created_snoc known)
  inOrder := by
    intro edgeId
    rw [sent_snoc_none (sendsNothing edgeId), received_snoc_none (receivesNothing edgeId)]
    exact delivered.inOrder edgeId

theorem Delivered.opened (positive : 0 < queueSize)
    (delivered : Delivered queueSize history manager) {source dest : PartitionId} {i : Nat}
    (fresh : manager.nextEdgeId ∉ created history) :
    Delivered queueSize
      (history ++ [(.createChannel source dest, .ok (.edge manager.nextEdgeId))])
      (manager.bumpEdgeId.openChannel maxEdges manager.nextEdgeId i source dest) := by
  have silent := @Delivered.silent queueSize manager manager history
    (.createChannel source dest, .ok (.edge manager.nextEdgeId)) delivered
    (fun _ _ held => held) (fun _ => rfl) fun _ => rfl
  have noHistory := delivered.unassigned manager.nextEdgeId fresh
  refine ⟨?_, silent.unassigned, silent.inOrder⟩
  intro j channel found
  rcases filled_cases found with ⟨-, rfl⟩ | ⟨-, kept⟩
  · refine ⟨?_, [], MessageQueue.queued_new positive, ?_⟩
    · rw [sent_snoc_none rfl, noHistory.1]
      rfl
    · rw [sent_snoc_none rfl, received_snoc_none rfl, noHistory.1, noHistory.2]
      rfl
  · exact silent.served j channel kept

theorem Delivered.rewritten (numbered : Numbered maxEdges history manager)
    (delivered : Delivered queueSize history manager) {i : Nat} {channel renewed : ChannelMeta}
    (held : manager.queues i = some channel) (sameEdge : renewed.edgeId = channel.edgeId)
    (otherSends : ∀ edgeId, edgeId ≠ channel.edgeId → sentOn edgeId label = none)
    (otherReceives : ∀ edgeId, edgeId ≠ channel.edgeId → receivedOn edgeId label = none)
    (weightEq : renewed.weight = min (sent channel.edgeId (history ++ [label])).length u64Max)
    (queued : ∃ contents, renewed.queue.Queued queueSize contents ∧
      sent channel.edgeId (history ++ [label]) =
        received channel.edgeId (history ++ [label]) ++ contents) :
    Delivered queueSize (history ++ [label]) (manager.setChannel i renewed) := by
  constructor
  · intro j other otherFound
    rcases filled_cases otherFound with ⟨-, rfl⟩ | ⟨different, otherHeld⟩
    · refine ⟨?_, ?_⟩
      · rw [sameEdge]
        exact weightEq
      · rw [sameEdge]
        exact queued
    · have otherEdge : other.edgeId ≠ channel.edgeId := fun same =>
        different (numbered.unique j i other channel otherHeld held same)
      exact (delivered.served j other otherHeld).silent (otherSends _ otherEdge)
        (otherReceives _ otherEdge)
  · intro edgeId unknown
    have unknownBefore : edgeId ∉ created history := fun known => unknown (mem_created_snoc known)
    have different : edgeId ≠ channel.edgeId := fun same =>
      unknownBefore (same ▸ numbered.assigned i channel held)
    rw [sent_snoc_none (otherSends edgeId different),
      received_snoc_none (otherReceives edgeId different)]
    exact delivered.unassigned edgeId unknownBefore
  · intro edgeId
    by_cases isEdge : edgeId = channel.edgeId
    · obtain ⟨contents, -, sentEq⟩ := queued
      rw [isEdge]
      exact ⟨contents, sentEq.symm⟩
    · rw [sent_snoc_none (otherSends edgeId isEdge),
        received_snoc_none (otherReceives edgeId isEdge)]
      exact delivered.inOrder edgeId

theorem Delivered.step (numbered : Numbered maxEdges history manager)
    (delivered : Delivered (2 ^ exponent) history manager)
    (few : (created (history ++ [label])).length ≤ 18446744073709551616)
    (step : Step maxEdges (2 ^ exponent) manager label next) :
    Delivered (2 ^ exponent) (history ++ [label]) next := by
  cases effect_of_step step with
  | idle sendsNothing receivesNothing _ =>
    exact delivered.silent (fun _ _ held => held) sendsNothing receivesNothing
  | bumped =>
    exact delivered.silent (fun _ _ held => held) (fun _ => rfl) fun _ => rfl
  | opened _ _ =>
    rw [created, filterMap_append, length_append] at few
    exact delivered.opened (Nat.two_pow_pos exponent) (numbered.fresh few)
  | @closed i channel held =>
    refine delivered.silent ?_ (fun _ => rfl) fun _ => rfl
    intro j other otherHeld
    rw [closeChannel_queues] at otherHeld
    exact (emptied_cases otherHeld).2
  | @delivered call i channel msg queue held accepted sends receivesNothing _ =>
    have served := delivered.served i channel held
    obtain ⟨contents, queued, sentEq⟩ := served.queued
    have sendsHere : sentOn channel.edgeId (call, .ok .done) = some msg := by rw [sends, if_pos rfl]
    refine delivered.rewritten numbered held rfl ?_ (fun edgeId _ => receivesNothing edgeId) ?_ ?_
    · intro edgeId different
      rw [sends, if_neg different.symm]
    · rw [sent_snoc_some sendsHere, length_append, length_singleton]
      dsimp only
      rw [served.weightEq]
      omega
    · refine ⟨contents ++ [msg], queued.send accepted, ?_⟩
      rw [sent_snoc_some sendsHere, received_snoc_none (receivesNothing channel.edgeId), sentEq,
        append_assoc]
  | @taken i channel held =>
    have served := delivered.served i channel held
    obtain ⟨contents, queued, sentEq⟩ := served.queued
    refine delivered.rewritten numbered held rfl (fun _ _ => rfl) ?_ ?_ ?_
    · intro edgeId different
      exact if_neg different.symm
    · rw [sent_snoc_none rfl]
      exact served.weightEq
    · cases contents with
      | nil =>
        have nothing := queued.receive_nil
        refine ⟨[], ?_, ?_⟩
        · dsimp only
          rw [nothing]
          exact queued
        · have takesNothing : receivedOn channel.edgeId
              (.receive channel.edgeId, .ok (.message none)) = none := if_pos rfl
          rw [nothing, sent_snoc_none rfl, received_snoc_none takesNothing]
          exact sentEq
      | cons msg rest =>
        have oldest := queued.receive_cons
        have takes : receivedOn channel.edgeId
            (.receive channel.edgeId,
              .ok (.message (channel.queue.receive (2 ^ exponent)).1)) = some msg :=
          (if_pos rfl).trans oldest.1
        refine ⟨rest, oldest.2, ?_⟩
        rw [sent_snoc_none rfl, received_snoc_some takes, sentEq, append_assoc]
        rfl

theorem delivered_of_run (run : Run (Step maxEdges (2 ^ exponent)) .new history manager)
    (few : (created history).length ≤ 18446744073709551616) :
    Delivered (2 ^ exponent) history manager := by
  induction run with
  | nil => exact delivered_new (2 ^ exponent)
  | snoc before step ih =>
    have fewBefore := created_length_le.trans few
    exact (ih fewBefore).step (numbered_of_run before fewBefore) few step

end Steps

/-- A channel in the table is found under its edge, whatever the index says. -/
theorem find_of_held
    (unique : ∀ j other, manager.queues j = some other → other.edgeId = channel.edgeId → j = i)
    (below : i < maxEdges) (held : manager.queues i = some channel) :
    manager.find maxEdges channel.edgeId = some (i, channel) := by
  have heldIn : manager.channelIn channel.edgeId i = some channel :=
    channelIn_eq_some.mpr ⟨held, rfl⟩
  cases found : manager.find maxEdges channel.edgeId with
  | none =>
    rw [find, or_eq_none_iff] at found
    have missed := List.findSome?_eq_none_iff.mp found.2 i (mem_range.mpr below)
    rw [heldIn] at missed
    cases missed
  | some slot =>
    obtain ⟨j, other⟩ := slot
    obtain ⟨otherHeld, sameEdge⟩ := find_sound found
    obtain rfl := unique j other otherHeld sameEdge
    rw [held] at otherHeld
    cases otherHeld
    rfl

theorem failed_unchanged {call : IpcCall} {e : RvmError} (transfers : call.transfers = true)
    (step : Step maxEdges queueSize manager (call, .error e) next) : next = manager := by
  generalize labelEq : (call, (.error e : IpcOutcome)) = label at step
  cases effect_of_step step with
  | idle => rfl
  | bumped =>
    cases labelEq
    cases transfers
  | opened | closed | delivered | taken => cases labelEq

/-- A failed send or receive changes nothing, and up to `2^64` creations the messages received on
an edge are a prefix of the messages sent on it, and an open channel holds the others and has the
number of its sends as weight. -/
theorem fifo (maxEdges exponent : Nat) (history : List (IpcCall × IpcOutcome))
    (manager : IpcManager) (run : Run (Step maxEdges (2 ^ exponent)) .new history manager) :
    ((created history).length ≤ 18446744073709551616 →
      (∀ edgeId, received edgeId history <+: sent edgeId history) ∧
      ∀ i channel, manager.queues i = some channel →
        manager.find maxEdges channel.edgeId = some (i, channel) ∧
        channel.weight = min (sent channel.edgeId history).length u64Max ∧
        (received channel.edgeId history).length + channel.queue.count =
          (sent channel.edgeId history).length) ∧
      ∀ call e next, call.transfers = true →
        Step maxEdges (2 ^ exponent) manager (call, .error e) next → next = manager := by
  refine ⟨fun few => ?_, fun _ _ _ transfers step => failed_unchanged transfers step⟩
  have numbered := numbered_of_run run few
  have delivered := delivered_of_run run few
  refine ⟨delivered.inOrder, fun i channel held => ?_⟩
  have served := delivered.served i channel held
  obtain ⟨contents, queued, sentEq⟩ := served.queued
  refine ⟨?_, served.weightEq, ?_⟩
  · apply find_of_held _ (numbered.slotBelow i channel held) held
    intro j other otherHeld sameEdge
    exact numbered.unique j i other channel otherHeld held sameEdge
  · rw [sentEq, List.length_append, queued.counted]

def sampleMessage (sequence : Nat) : IpcMessage := ⟨⟨1⟩, ⟨2⟩, 1, 0, 0, sequence, 0⟩

/-- Three messages through the two cells of the first edge, while the second edge is destroyed
and a third takes its slot. -/
def sampleHistory : List (IpcCall × IpcOutcome) :=
  [(.createChannel ⟨1⟩ ⟨2⟩, .ok (.edge 1)), (.createChannel ⟨1⟩ ⟨3⟩, .ok (.edge 2)),
    (.send 1 (sampleMessage 5) ⟨1⟩, .ok .done),
    (.send 2 (sampleMessage 8) ⟨1⟩, .ok .done),
    (.sendUnchecked 1 (sampleMessage 6), .ok .done),
    (.receive 1, .ok (.message (some (sampleMessage 5)))),
    (.destroyChannel 2, .ok .done), (.createChannel ⟨1⟩ ⟨4⟩, .ok (.edge 3)),
    (.send 1 (sampleMessage 7) ⟨1⟩, .ok .done),
    (.send 3 (sampleMessage 9) ⟨1⟩, .ok .done),
    (.receive 3, .ok (.message (some (sampleMessage 9)))),
    (.receive 1, .ok (.message (some (sampleMessage 6))))]

theorem fifo_sampleHistory :
    ∃ manager, Run (Step 2 (2 ^ 1)) .new sampleHistory manager ∧
      ∀ edgeId, received edgeId sampleHistory <+: sent edgeId sampleHistory := by
  have run : Run (Step 2 (2 ^ 1)) .new sampleHistory _ :=
    .cons rfl <| .cons rfl <| .cons rfl <| .cons rfl <| .cons rfl <| .cons rfl <|
      .cons rfl <| .cons rfl <| .cons rfl <| .cons rfl <| .cons rfl <| .cons rfl .nil
  exact ⟨_, run, ((fifo 2 1 sampleHistory _ run).1 (by decide)).1⟩

/-! ### When the counter comes round -/

/-- Of two slots only the first is in use, and the next identifier is `edgeId`. -/
structure Alone (channel : ChannelMeta) (manager : IpcManager) (edgeId : Nat) : Prop where
  held : manager.queues 0 = some channel
  free : manager.queues 1 = none
  counted : manager.edgeCount = 1
  counter : manager.nextEdgeId = edgeId

theorem Alone.opens {edgeId : Nat} (alone : Alone channel manager edgeId) :
    Step 2 2 manager (.createChannel ⟨1⟩ ⟨2⟩, .ok (.edge edgeId))
      (manager.bumpEdgeId.openChannel 2 edgeId 1 ⟨1⟩ ⟨2⟩) := by
  simp [Step, apply, createChannel, alone.counted, alone.counter, List.range_succ, alone.held,
    alone.free, Except.map]

/-- A second channel is created and destroyed. -/
theorem Alone.cycle {edgeId : Nat} (alone : Alone channel manager edgeId)
    (apart : channel.edgeId ≠ edgeId) :
    ∃ next, Run (Step 2 2) manager
        [(.createChannel ⟨1⟩ ⟨2⟩, .ok (.edge edgeId)), (.destroyChannel edgeId, .ok .done)] next ∧
      Alone channel next (asU64 (edgeId + 1)) := by
  have closed : Step 2 2 (manager.bumpEdgeId.openChannel 2 edgeId 1 ⟨1⟩ ⟨2⟩)
      (.destroyChannel edgeId, .ok .done)
      ((manager.bumpEdgeId.openChannel 2 edgeId 1 ⟨1⟩ ⟨2⟩).closeChannel 2 edgeId 1) := by
    simp [Step, apply, destroyChannel, channelIn, bumpEdgeId, List.range_succ, alone.held, apart,
      Except.map]
  exact ⟨_, .cons alone.opens (.single closed), alone.held, rfl, alone.counted,
    congrArg (fun counter => asU64 (counter + 1)) alone.counter⟩

/-- With the first channel kept open, `2^64 - 1` others lead the counter back to its edge. -/
theorem comesRound (alone : Alone channel manager 2) (first : channel.edgeId = 1) :
    ∃ history next, Run (Step 2 2) manager history next ∧ Alone channel next 1 ∧
      ∀ edgeId, sent edgeId history = [] ∧ received edgeId history = [] := by
  have cycles : ∀ count, count ≤ u64Max → ∃ history next, Run (Step 2 2) manager history next ∧
      Alone channel next (asU64 (count + 2)) ∧
      ∀ edgeId, sent edgeId history = [] ∧ received edgeId history = [] := by
    intro count within
    induction count with
    | zero => exact ⟨[], manager, .nil, alone, fun _ => ⟨rfl, rfl⟩⟩
    | succ count ih =>
      obtain ⟨history, here, run, aloneHere, silent⟩ := ih (Nat.le_of_succ_le within)
      have apart : channel.edgeId ≠ asU64 (count + 2) := by
        unfold u64Max at within
        rw [first]
        unfold asU64
        omega
      obtain ⟨next, cycle, aloneNext⟩ := aloneHere.cycle apart
      have counter : asU64 (asU64 (count + 2) + 1) = asU64 (count + 1 + 2) := by
        unfold asU64
        omega
      refine ⟨_, next, run.append cycle, counter ▸ aloneNext, fun edgeId => ?_⟩
      rw [sent_append, received_append, (silent edgeId).1, (silent edgeId).2]
      exact ⟨rfl, rfl⟩
  exact cycles u64Max le_rfl

/-- Edge `1` waits with a message while the counter comes round; a second edge `1` then delivers
a later message before it. -/
theorem fifo_broken : ∃ history manager, Run (Step 2 2) .new history manager ∧
    ¬received 1 history <+: sent 1 history := by
  obtain ⟨here, opening, channel, alone, first⟩ : ∃ here,
      Run (Step 2 2) .new [(.createChannel ⟨1⟩ ⟨2⟩, .ok (.edge 1)),
        (.send 1 (sampleMessage 5) ⟨1⟩, .ok .done)] here ∧
      ∃ channel, Alone channel here 2 ∧ channel.edgeId = 1 :=
    ⟨_, .cons rfl (.single rfl), _, ⟨rfl, rfl, rfl, rfl⟩, rfl⟩
  obtain ⟨middle, next, round, alone, silent⟩ := comesRound alone first
  have closing : Run (Step 2 2) next [(.createChannel ⟨1⟩ ⟨2⟩, .ok (.edge 1)),
      (.send 1 (sampleMessage 6) ⟨1⟩, .ok .done),
      (.receive 1, .ok (.message (some (sampleMessage 6))))] _ :=
    .cons alone.opens (.cons rfl (.single rfl))
  refine ⟨_, _, (opening.append round).append closing, ?_⟩
  rw [sent_append, sent_append, received_append, received_append, (silent 1).1, (silent 1).2]
  decide

end IpcManager

end Rvm.Partition
