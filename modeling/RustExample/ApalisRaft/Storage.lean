import Mathlib.Data.Finset.Basic
import Mathlib.Data.List.Sort
import RustExample.Foundation.RecordLog

/-!
# A task queue over a replicated store

The tasks of the queue are records of a replicated key-value store. The leader gives a queued task
to a follower, the follower claims what it was given and hands it to an executor, and the
acknowledgement stores the result. Each of them writes the whole record, from what it read before;
between the read and the write anything may happen, and the write may be committed although the
writer is told that it failed.

Source: `libp2p_openraft_multi_raft_rocksdb/src/apalis_raft.rs`, `src/store.rs`.

* The store is a log of records. A node reads the table of the log that it has applied. The other
  keys of the store and records that cannot be decoded are left out.
* A poll of the queue, with the execution and the acknowledgement of the task that it returns, is
  a call. Calls of any nodes and workers interleave.
* The hash of a task id, the clock, the metrics of a node and the attempt of an executed task are
  inputs.
* A call that fails before it writes has no effect; it may as well stop where it is.
-/

namespace RustExample.ApalisRaft

open Function

/-! ### Records -/

/-- The status of a stored task. -/
inductive StoredStatus where
  | pending | queued | running | done | failed | killed
  deriving DecidableEq, Repr

/-- The result of a task. -/
structure TaskResultRecord where
  ok : Bool
  payload : List UInt8
  error : Option String
  deriving DecidableEq

/-- The record of a task in the store. -/
structure StoredTask where
  taskId : String
  payload : List UInt8
  attempts : ℕ
  status : StoredStatus
  runAt : UInt64
  idempotencyKey : Option String
  lockBy : Option String
  assignedNodeId : Option String
  result : Option TaskResultRecord
  deriving DecidableEq

/-- A task as it is queued and as it is given to an executor. -/
structure CompactTask where
  args : List UInt8
  taskId : String
  attempt : ℕ
  status : StoredStatus
  runAt : UInt64
  idempotencyKey : Option String
  lockBy : Option String
  assignedNodeId : Option String
  deriving DecidableEq

/-- The record of a task. -/
def StoredTask.fromCompactTask (task : CompactTask) : StoredTask where
  taskId := task.taskId
  payload := task.args
  attempts := task.attempt
  status := task.status
  runAt := task.runAt
  idempotencyKey := task.idempotencyKey
  lockBy := task.lockBy
  assignedNodeId := task.assignedNodeId
  result := none

/-- The task of a record. -/
def StoredTask.intoCompactTask (record : StoredTask) : CompactTask where
  args := record.payload
  taskId := record.taskId
  attempt := record.attempts
  status := record.status
  runAt := record.runAt
  idempotencyKey := record.idempotencyKey
  lockBy := record.lockBy
  assignedNodeId := record.assignedNodeId

/-- The record of a queued task. -/
def persistTask (task : CompactTask) : StoredTask :=
  .fromCompactTask { task with status := .queued }

/-! ### The scheduler of the leader -/

/-- The voters other than the node itself and the leader. -/
def followerNodeIds (node : String) (voters : List String) (currentLeader : Option String) :
    List String :=
  (voters.filter fun id => id ≠ node ∧ currentLeader ≠ some id).insertionSort (· ≤ ·)

/-- The follower with the number of the task's hash. -/
def selectFollowerForTask (hash : String → ℕ) (followers : List String) (taskId : String) :
    Option String :=
  if followers = [] then none else followers[hash taskId % followers.length]?

/-- What the leader writes: the first queued task that is due, given to a follower. -/
def scheduleNextToFollower (hash : String → ℕ) (followers : List String) (now : UInt64)
    (entries : List StoredTask) : Option StoredTask := do
  let record ← entries.find? fun record => record.status = .queued ∧ record.runAt ≤ now
  let target ← selectFollowerForTask hash followers record.taskId
  return { record with status := .running, lockBy := none, assignedNodeId := some target }

/-! ### The claim of a follower -/

/-- A record that a worker of a node may claim. -/
def StoredTask.Assigned (node worker : String) (record : StoredTask) : Prop :=
  record.status = .running ∧ record.assignedNodeId = some node ∧
    (record.lockBy = none ∨ record.lockBy = some worker)

instance (node worker : String) : DecidablePred (StoredTask.Assigned node worker) :=
  fun _ => inferInstanceAs (Decidable (_ ∧ _ ∧ _))

/-! ### Acknowledgements -/

/-- What came of a task: a value, one that cannot be encoded, or an error. -/
inductive TaskOutcome where
  | value (payload : List UInt8)
  | notEncodable
  | error (message : String)

/-- What the acknowledgement writes; nothing if the value cannot be encoded. -/
def ackRecord (task : CompactTask) (attempt : ℕ) : TaskOutcome → Option StoredTask
  | .value payload => some (record .done ⟨true, payload, none⟩)
  | .notEncodable => none
  | .error message => some (record .failed ⟨false, [], some message⟩)
where
  record (status : StoredStatus) (result : TaskResultRecord) : StoredTask :=
    { taskId := task.taskId, payload := [], attempts := attempt, status := status
      runAt := task.runAt, idempotencyKey := task.idempotencyKey, lockBy := task.lockBy
      assignedNodeId := task.assignedNodeId, result := some result }

/-! ### Calls -/

/-- The stages of a call. A write under way has a note whether it was committed; one that was
reported as failed may still be. -/
inductive Call where
  | unused
  | ensured (node : String) (followers : List String) (index : ℕ)
  | scheduling (record : StoredTask) (committed : Bool)
  | scanning (node worker : String) (entries : List StoredTask)
  | claiming (node : String) (record : StoredTask) (committed : Bool)
  | executing (node : String) (task : CompactTask)
  | acking (node : String) (record : StoredTask) (committed : Bool)
  | abandoned (record : StoredTask)
  | finished

/-- The record of a call's write that is still to be committed, and the call after that. -/
def Call.commit : Call → Option (StoredTask × Call)
  | .scheduling record false => some (record, .scheduling record true)
  | .claiming node record false => some (record, .claiming node record true)
  | .acking node record false => some (record, .acking node record true)
  | .abandoned record => some (record, .finished)
  | _ => none

/-- What is left of a write that was reported as failed. -/
def Call.leave (record : StoredTask) (committed : Bool) : Call :=
  if committed then .finished else .abandoned record

/-- The log, what every node has applied and claimed, the calls, and the tasks handed out. -/
structure Cluster where
  log : List StoredTask
  applied : String → ℕ
  claimed : String → Finset String
  calls : ℕ → Call
  handed : List CompactTask

namespace Cluster

/-- Nothing is stored, applied or claimed. -/
def initial : Cluster := ⟨[], fun _ => 0, fun _ => ∅, fun _ => .unused, []⟩

/-- The records that the committed log leads to. -/
def records (s : Cluster) : KeyStore String StoredTask := RecordLog.table StoredTask.taskId s.log

/-- The records that a node reads, in the order of their keys. -/
def entries (s : Cluster) (node : String) : List StoredTask :=
  (RecordLog.table StoredTask.taskId (s.log.take (s.applied node))).toList.map Prod.snd

/-- Call `c` comes to a stage. -/
def setCall (s : Cluster) (c : ℕ) (call : Call) : Cluster :=
  { s with calls := update s.calls c call }

/-- A write is committed. -/
def write (s : Cluster) (record : StoredTask) : Cluster := { s with log := s.log ++ [record] }

/-- The node claims a task. -/
def insertLocalClaim (s : Cluster) (node taskId : String) : Cluster :=
  { s with claimed := update s.claimed node (insert taskId (s.claimed node)) }

/-- The node drops its claim. -/
def removeLocalClaim (s : Cluster) (node taskId : String) : Cluster :=
  { s with claimed := update s.claimed node ((s.claimed node).erase taskId) }

/-- A task goes to an executor. -/
def handOut (s : Cluster) (task : CompactTask) : Cluster := { s with handed := s.handed ++ [task] }

theorem calls_setCall (s : Cluster) (c : ℕ) (call : Call) (c' : ℕ) :
    (s.setCall c call).calls c' = if c' = c then call else s.calls c' :=
  update_apply _ _ _ _

theorem claimed_insertLocalClaim (s : Cluster) (node taskId node' : String) :
    (s.insertLocalClaim node taskId).claimed node' =
      if node' = node then insert taskId (s.claimed node) else s.claimed node' :=
  update_apply _ _ _ _

theorem claimed_removeLocalClaim (s : Cluster) (node taskId node' : String) :
    (s.removeLocalClaim node taskId).claimed node' =
      if node' = node then (s.claimed node).erase taskId else s.claimed node' :=
  update_apply _ _ _ _

/-- One round of the loop over the entries that a follower has read. -/
def scan (s : Cluster) (c : ℕ) (node worker : String) : List StoredTask → Cluster
  | [] => s.setCall c .finished
  | record :: entries =>
    if record.Assigned node worker ∧ record.taskId ∉ s.claimed node then
      (s.insertLocalClaim node record.taskId).setCall c
        (.claiming node { record with lockBy := some worker } false)
    else s.setCall c (.scanning node worker entries)

/-- A write returns without an error. -/
def writeOk (s : Cluster) (c : ℕ) : Option Cluster :=
  match s.calls c with
  | .scheduling _ true => some (s.setCall c .finished)
  | .claiming node record true =>
    some ((s.setCall c (.executing node record.intoCompactTask)).handOut record.intoCompactTask)
  | .acking node record true => some ((s.setCall c .finished).removeLocalClaim node record.taskId)
  | _ => none

/-- A write returns with an error, whatever comes of it. -/
def writeErr (s : Cluster) (c : ℕ) : Option Cluster :=
  match s.calls c with
  | .scheduling record committed => some (s.setCall c (.leave record committed))
  | .claiming node record committed =>
    some ((s.setCall c (.leave record committed)).removeLocalClaim node record.taskId)
  | .acking _ record committed => some (s.setCall c (.leave record committed))
  | _ => none

end Cluster

/-- What may happen. -/
inductive Event where
  | submit (task : CompactTask)
  | replicate (node : String) (index : ℕ)
  | ensureLinearizableRead (c : ℕ) (node : String) (voters : List String)
      (currentLeader : Option String)
  | schedule (c : ℕ) (now : UInt64)
  | readEntries (c : ℕ) (node worker : String)
  | scan (c : ℕ)
  | commit (c : ℕ)
  | writeOk (c : ℕ)
  | writeErr (c : ℕ)
  | ack (c attempt : ℕ) (outcome : TaskOutcome)

/-- One step of the cluster. New tasks have new ids. A linearizable read is of what was committed
when it was asked for, or more. -/
def Step (hash : String → ℕ) (s : Cluster) (e : Event) (s' : Cluster) : Prop :=
  match e with
  | .submit task => (∀ record ∈ s.log, record.taskId ≠ task.taskId) ∧
      s' = s.write (persistTask task)
  | .replicate node index => s.applied node ≤ index ∧ index ≤ s.log.length ∧
      s' = { s with applied := update s.applied node index }
  | .ensureLinearizableRead c node voters currentLeader => s.calls c = .unused ∧
      s' = s.setCall c
        (if followerNodeIds node voters currentLeader = [] then .finished
        else .ensured node (followerNodeIds node voters currentLeader) s.log.length)
  | .schedule c now => ∃ node followers index, s.calls c = .ensured node followers index ∧
      index ≤ s.applied node ∧
      s' = s.setCall c
        (match scheduleNextToFollower hash followers now (s.entries node) with
        | some record => .scheduling record false
        | none => .finished)
  | .readEntries c node worker => s.calls c = .unused ∧
      s' = s.setCall c (.scanning node worker (s.entries node))
  | .scan c => ∃ node worker entries, s.calls c = .scanning node worker entries ∧
      s' = s.scan c node worker entries
  | .commit c => ∃ record call, (s.calls c).commit = some (record, call) ∧
      s' = (s.write record).setCall c call
  | .writeOk c => s.writeOk c = some s'
  | .writeErr c => s.writeErr c = some s'
  | .ack c attempt outcome => ∃ node task, s.calls c = .executing node task ∧
      s' = s.setCall c
        (match ackRecord task attempt outcome with
        | some record => .acking node record false
        | none => .finished)

end RustExample.ApalisRaft
