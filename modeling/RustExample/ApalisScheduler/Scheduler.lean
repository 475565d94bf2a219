import Mathlib.Data.List.AList
import RustExample.Foundation.Run

/-!
# A scheduler that dispatches tasks to workers

The scheduler keeps a record of every task in its store. A submitted task is given to the next
worker and waits in the table of pending requests, or it waits in the backlog if no worker is
registered. A failed request puts its task back into the backlog, and a response closes the record
of its task.

Source: `apalis_libp2p_rocksdb_example/src/network.rs`, `src/store.rs`, `src/model.rs`,
`src/main.rs` (`run_scheduler`).

* The store is the column family `tasks`, and its writes succeed. The clock and the events that
  change nothing of the scheduler are left out.
* `requestId n` is the identifier of the `n`-th request of a swarm.
* `commands` holds the demo tasks that the producer has recorded and the loop has not received.
-/

namespace RustExample.ApalisScheduler

/-! ### Tasks and records -/

/-- A submitted task. -/
structure DistributedTask where
  id : String
  payload : String
  createdAt : ℤ
  deriving DecidableEq

/-- The status of a task. -/
inductive TaskStatus where
  | created | assigned | received | running | completed | failed
  deriving DecidableEq

/-- `Completed | Failed`. -/
def TaskStatus.Terminal (status : TaskStatus) : Prop := status = .completed ∨ status = .failed

instance (status : TaskStatus) : Decidable status.Terminal :=
  inferInstanceAs (Decidable (_ ∨ _))

/-- The stored record of a task. -/
structure TaskRecord where
  task : DistributedTask
  status : TaskStatus
  node : Option String
  output : Option String
  deriving DecidableEq

/-- The answer of a worker. -/
structure TaskResponse where
  taskId : String
  accepted : Bool
  output : String
  worker : String
  deriving DecidableEq

/-- The records of the store, by the id of their task. -/
abbrev TaskStore := String → Option TaskRecord

/-- Sets the status, and keeps the rest. -/
def TaskStore.putStatus (store : TaskStore) (task : DistributedTask) (status : TaskStatus)
    (node output : Option String) : TaskStore :=
  Function.update store task.id (some ⟨task, status, node, output⟩)

/-- The id of a registration. -/
def workerRegistrationTaskId : String := "worker-registration"

/-! ### The loop of the scheduler -/

variable {PeerId RequestId : Type}

/-- The `NetworkRunner` of a scheduler, with its store. -/
structure Scheduler (PeerId RequestId : Type) where
  store : TaskStore
  commands : List DistributedTask
  workers : List PeerId
  nextWorker : UInt64
  pending : AList fun _ : RequestId => DistributedTask
  backlog : List DistributedTask
  /-- The number of requests that the swarm has sent. -/
  requests : ℕ

/-- A scheduler that starts over its store. -/
def start (store : TaskStore) : Scheduler PeerId RequestId where
  store := store
  commands := []
  workers := []
  nextWorker := 0
  pending := ∅
  backlog := []
  requests := 0

namespace Scheduler

variable [DecidableEq RequestId] [ToString PeerId] (requestId : ℕ → RequestId)
  (s : Scheduler PeerId RequestId)

/-- Sends a task to the next worker. -/
def dispatch (task : DistributedTask) : Scheduler PeerId RequestId :=
  if h : 0 < s.workers.length then
    let peer := s.workers.get ⟨s.nextWorker.toNat % s.workers.length, Nat.mod_lt _ h⟩
    { s with
      nextWorker := s.nextWorker + 1
      store := s.store.putStatus task .assigned (some (toString peer)) none
      requests := s.requests + 1
      pending := s.pending.insert (requestId s.requests) task }
  else
    { s with backlog := s.backlog ++ [task] }

/-- Dispatches a task, or puts it off. -/
def submitTask (task : DistributedTask) : Scheduler PeerId RequestId :=
  if s.workers.isEmpty then
    { s with backlog := s.backlog ++ [task] }
  else
    s.dispatch requestId task

/-- `for _ in 0 .. count`: the loop ends early when the backlog is empty. -/
def drainTimes : ℕ → Scheduler PeerId RequestId → Scheduler PeerId RequestId
  | 0, s => s
  | count + 1, s =>
    match s.backlog with
    | [] => s
    | task :: backlog => drainTimes count ({ s with backlog := backlog }.dispatch requestId task)

/-- Dispatches the backlog. -/
def drainBacklog : Scheduler PeerId RequestId :=
  if s.workers.isEmpty || s.backlog.isEmpty then s
  else drainTimes requestId s.backlog.length s

variable [DecidableEq PeerId]

/-- A worker registers itself. -/
def handleWorkerRegistration (peer : PeerId) : Scheduler PeerId RequestId :=
  let workers := if peer ∈ s.workers then s.workers else s.workers ++ [peer]
  drainBacklog requestId { s with workers := workers }

/-- Takes a task and answers. -/
def handleSubmission (localPeerId : String) (peer : PeerId) (task : DistributedTask) :
    TaskResponse × Scheduler PeerId RequestId :=
  let store := s.store.putStatus task .created none (some s!"submitted by {peer}")
  (⟨task.id, true, "submitted to scheduler", localPeerId⟩,
    submitTask requestId { s with store := store } task)

/-- A worker has answered. -/
def handleTaskResponse (id : RequestId) (response : TaskResponse) : Scheduler PeerId RequestId :=
  if response.taskId = workerRegistrationTaskId then s
  else
    match s.pending.lookup id with
    | none => s
    | some task =>
      let status := if response.accepted then .completed else .failed
      { s with
        pending := s.pending.erase id
        store := s.store.putStatus task status (some response.worker) (some response.output) }

/-- A request has failed. -/
def outboundFailure (peer : PeerId) (id : RequestId) : Scheduler PeerId RequestId :=
  let s := { s with workers := s.workers.filter (· ≠ peer) }
  match s.pending.lookup id with
  | none => s
  | some task => { s with pending := s.pending.erase id, backlog := s.backlog ++ [task] }

/-- A worker has left. -/
def connectionClosed (peer : PeerId) : Scheduler PeerId RequestId :=
  { s with workers := s.workers.filter (· ≠ peer) }

/-- The producer records a demo task and sends it to the loop. -/
def produce (task : DistributedTask) : Scheduler PeerId RequestId :=
  { s with
    store := s.store.putStatus task .created none none
    commands := s.commands ++ [task] }

end Scheduler

/-! ### Runs -/

/-- What comes to the scheduler. -/
inductive Event (PeerId RequestId : Type) where
  | submission (peer : PeerId) (task : DistributedTask) (response : TaskResponse)
  | produced (task : DistributedTask)
  | command (task : DistributedTask)
  | registration (peer : PeerId)
  | response (id : RequestId) (response : TaskResponse)
  | outboundFailure (peer : PeerId) (id : RequestId)
  | connectionClosed (peer : PeerId)
  | retryTick
  | restart

/-- One event. The id of a new task has no record. -/
def Step [DecidableEq PeerId] [DecidableEq RequestId] [ToString PeerId]
    (requestId : ℕ → RequestId) (localPeerId : String)
    (s : Scheduler PeerId RequestId) : Event PeerId RequestId → Scheduler PeerId RequestId → Prop
  | .submission peer task response, s' =>
    s.store task.id = none ∧ s.handleSubmission requestId localPeerId peer task = (response, s')
  | .produced task, s' => s.store task.id = none ∧ s' = s.produce task
  | .command task, s' => ∃ commands, s.commands = task :: commands ∧
    s' = { s with commands := commands }.submitTask requestId task
  | .registration peer, s' => s' = s.handleWorkerRegistration requestId peer
  | .response id response, s' => s' = s.handleTaskResponse id response
  | .outboundFailure peer id, s' => s' = s.outboundFailure peer id
  | .connectionClosed peer, s' => s' = s.connectionClosed peer
  | .retryTick, s' => s' = s.drainBacklog requestId
  | .restart, s' => s' = start s.store

end RustExample.ApalisScheduler
