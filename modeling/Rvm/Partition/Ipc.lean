import Mathlib.Data.List.Range
import Rvm.Foundation.Run
import Rvm.Types.Basic
import Rvm.Types.Capability

/-!
Owns inter-partition message passing (`rvm-partition/src/ipc.rs`): the
ring-buffer message queue, the channel table with its hashed edge index and
linear fallback, and the calls as a labelled step relation.
-/

namespace Rvm.Partition

open Foundation Function

structure IpcMessage where
  sender : PartitionId
  receiver : PartitionId
  edgeId : Nat
  payloadLen : Nat
  msgType : Nat
  sequence : Nat
  capabilityHash : Nat
deriving DecidableEq, Repr

structure MessageQueue where
  /-- Only indices below the capacity are meaningful. -/
  buffer : Nat → Option IpcMessage
  head : Nat
  tail : Nat
  count : Nat

namespace MessageQueue

def new : MessageQueue := ⟨fun _ => none, 0, 0, 0⟩

/-- Enqueue; indices wrap with `& (CAPACITY - 1)`. -/
def send (capacity : Nat) (queue : MessageQueue) (msg : IpcMessage) : Except RvmError MessageQueue :=
  if queue.count ≥ capacity then .error .resourceLimitExceeded
  else .ok
    { buffer := update queue.buffer queue.tail (some msg)
      head := queue.head
      tail := (queue.tail + 1) &&& (capacity - 1)
      count := queue.count + 1 }

/-- Dequeue; the cell read is emptied. -/
def receive (capacity : Nat) (queue : MessageQueue) : Option IpcMessage × MessageQueue :=
  if queue.count = 0 then (none, queue)
  else
    (queue.buffer queue.head,
      { buffer := update queue.buffer queue.head none
        head := (queue.head + 1) &&& (capacity - 1)
        tail := queue.tail
        count := queue.count - 1 })

end MessageQueue

structure ChannelMeta where
  edgeId : Nat
  source : PartitionId
  dest : PartitionId
  queue : MessageQueue
  weight : Nat

structure IpcManager where
  /-- The channel table; only indices below `MAX_EDGES` are meaningful. -/
  queues : Nat → Option ChannelMeta
  edgeIndex : Nat → Option Nat
  edgeCount : Nat
  nextEdgeId : Nat

namespace IpcManager

def new : IpcManager := ⟨fun _ => none, fun _ => none, 0, 1⟩

/-- The channel in a slot, if it is the one with this edge. -/
def channelIn (manager : IpcManager) (edgeId i : Nat) : Option ChannelMeta :=
  (manager.queues i).filter fun channel => channel.edgeId = edgeId

/-- The slot and channel of an edge: the hash index first, then a linear scan. -/
def find (maxEdges : Nat) (manager : IpcManager) (edgeId : Nat) : Option (Nat × ChannelMeta) :=
  let indexed := (manager.edgeIndex (edgeId % maxEdges)).bind fun i =>
    (manager.channelIn edgeId i).map fun channel => (i, channel)
  indexed.or ((List.range maxEdges).findSome? fun i =>
    (manager.channelIn edgeId i).map fun channel => (i, channel))

/-- The manager after an edge identifier is taken; the counter is a `u64`. -/
def bumpEdgeId (manager : IpcManager) : IpcManager :=
  { manager with nextEdgeId := asU64 (manager.nextEdgeId + 1) }

def openChannel (maxEdges : Nat) (manager : IpcManager) (edgeId i : Nat) (source dest : PartitionId) :
    IpcManager :=
  { manager with
    queues := update manager.queues i (some ⟨edgeId, source, dest, .new, 0⟩)
    edgeIndex := update manager.edgeIndex (edgeId % maxEdges) (some i)
    edgeCount := manager.edgeCount + 1 }

@[simp] theorem openChannel_queues (maxEdges : Nat) (manager : IpcManager) (edgeId i : Nat)
    (source dest : PartitionId) :
    (manager.openChannel maxEdges edgeId i source dest).queues =
      update manager.queues i (some ⟨edgeId, source, dest, .new, 0⟩) := rfl

def createChannel (maxEdges : Nat) (manager : IpcManager) (source dest : PartitionId) :
    Except RvmError Nat × IpcManager :=
  if manager.edgeCount ≥ maxEdges then (.error .resourceLimitExceeded, manager)
  else
    match (List.range maxEdges).find? fun i => (manager.queues i).isNone with
    | some i =>
      (.ok manager.nextEdgeId,
        manager.bumpEdgeId.openChannel maxEdges manager.nextEdgeId i source dest)
    | none => (.error .internalError, manager.bumpEdgeId)

def setChannel (manager : IpcManager) (i : Nat) (channel : ChannelMeta) : IpcManager :=
  { manager with queues := update manager.queues i (some channel) }

@[simp] theorem setChannel_queues (manager : IpcManager) (i : Nat) (channel : ChannelMeta) :
    (manager.setChannel i channel).queues =
      update manager.queues i (some channel) := rfl

/-- The common end of both sends: enqueue and count. -/
def deliver (queueSize : Nat) (manager : IpcManager) (i : Nat) (channel : ChannelMeta)
    (msg : IpcMessage) : Except RvmError Unit × IpcManager :=
  match channel.queue.send queueSize msg with
  | .error e => (.error e, manager)
  | .ok queue =>
    (.ok (), manager.setChannel i
      { channel with queue := queue, weight := min (channel.weight + 1) u64Max })

def send (maxEdges queueSize : Nat) (manager : IpcManager) (edgeId : Nat) (msg : IpcMessage)
    (callerId : PartitionId) : Except RvmError Unit × IpcManager :=
  if msg.sender ≠ callerId then (.error .insufficientCapability, manager)
  else
    match manager.find maxEdges edgeId with
    | none => (.error .partitionNotFound, manager)
    | some (i, channel) =>
      if channel.source ≠ callerId then (.error .insufficientCapability, manager)
      else manager.deliver queueSize i channel msg

def sendUnchecked (maxEdges queueSize : Nat) (manager : IpcManager) (edgeId : Nat)
    (msg : IpcMessage) : Except RvmError Unit × IpcManager :=
  match manager.find maxEdges edgeId with
  | none => (.error .partitionNotFound, manager)
  | some (i, channel) => manager.deliver queueSize i channel msg

def receive (maxEdges queueSize : Nat) (manager : IpcManager) (edgeId : Nat) :
    Except RvmError (Option IpcMessage) × IpcManager :=
  match manager.find maxEdges edgeId with
  | none => (.error .partitionNotFound, manager)
  | some (i, channel) =>
    let received := channel.queue.receive queueSize
    (.ok received.1, manager.setChannel i { channel with queue := received.2 })

/-- Empty a slot, and the hash entry that points to it. -/
def closeChannel (maxEdges : Nat) (manager : IpcManager) (edgeId i : Nat) : IpcManager :=
  { manager with
    queues := update manager.queues i none
    edgeIndex :=
      if manager.edgeIndex (edgeId % maxEdges) = some i then
        update manager.edgeIndex (edgeId % maxEdges) none
      else manager.edgeIndex
    edgeCount := manager.edgeCount - 1 }

@[simp] theorem closeChannel_queues (maxEdges : Nat) (manager : IpcManager) (edgeId i : Nat) :
    (manager.closeChannel maxEdges edgeId i).queues = update manager.queues i none := rfl

def destroyChannel (maxEdges : Nat) (manager : IpcManager) (edgeId : Nat) :
    Except RvmError Unit × IpcManager :=
  match (List.range maxEdges).find? fun i => (manager.channelIn edgeId i).isSome with
  | some i => (.ok (), manager.closeChannel maxEdges edgeId i)
  | none => (.error .partitionNotFound, manager)

def commWeight (maxEdges : Nat) (manager : IpcManager) (edgeId : Nat) : Except RvmError Nat :=
  match manager.find maxEdges edgeId with
  | none => .error .partitionNotFound
  | some (_, channel) => .ok channel.weight

end IpcManager

inductive IpcCall where
  | createChannel (source dest : PartitionId)
  | destroyChannel (edgeId : Nat)
  | send (edgeId : Nat) (msg : IpcMessage) (callerId : PartitionId)
  | sendUnchecked (edgeId : Nat) (msg : IpcMessage)
  | receive (edgeId : Nat)
deriving DecidableEq, Repr

/-- The calls that move a message. -/
def IpcCall.transfers : IpcCall → Bool
  | .createChannel _ _ | .destroyChannel _ => false
  | .send _ _ _ | .sendUnchecked _ _ | .receive _ => true

/-- What a successful call returns. -/
inductive IpcReply where
  | edge (edgeId : Nat)
  | done
  | message (msg : Option IpcMessage)
deriving DecidableEq, Repr

abbrev IpcOutcome := Except RvmError IpcReply

namespace IpcManager

def apply (maxEdges queueSize : Nat) (manager : IpcManager) : IpcCall → IpcOutcome × IpcManager
  | .createChannel source dest =>
    let result := manager.createChannel maxEdges source dest
    (result.1.map .edge, result.2)
  | .destroyChannel edgeId =>
    let result := manager.destroyChannel maxEdges edgeId
    (result.1.map fun _ => .done, result.2)
  | .send edgeId msg callerId =>
    let result := manager.send maxEdges queueSize edgeId msg callerId
    (result.1.map fun _ => .done, result.2)
  | .sendUnchecked edgeId msg =>
    let result := manager.sendUnchecked maxEdges queueSize edgeId msg
    (result.1.map fun _ => .done, result.2)
  | .receive edgeId =>
    let result := manager.receive maxEdges queueSize edgeId
    (result.1.map .message, result.2)

def Step (maxEdges queueSize : Nat) (manager : IpcManager) (label : IpcCall × IpcOutcome)
    (next : IpcManager) : Prop :=
  manager.apply maxEdges queueSize label.1 = (label.2, next)

end IpcManager

end Rvm.Partition
