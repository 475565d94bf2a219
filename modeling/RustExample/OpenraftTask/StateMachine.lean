import Mathlib.Data.Finset.Basic
import RustExample.Foundation.KeyStore

/-!
# The replicated task queue

The state machine of the task queue keeps its task records in the database, and the queue of
pending tasks and the progress of the schedulers both in the database and in memory. The commands
of a batch work on copies of the queue and of the progress, and read the records through the ones
that the batch has staged.

Source: `openraft_task/src/types_kv.rs`, `openraft_task/src/rocksstore_crud/state_machine.rs`.

* Records are kept as values, not as their text. A queue that was never written is read as the
  empty one, and kept as that.
* The identity of an entry and the membership of the group are type parameters.
* The response of every entry is kept; the source sends it if a client waits for it.
-/

namespace RustExample.OpenraftTask

/-! ### Records, commands and responses -/

/-- The status of a task. -/
inductive TaskStatus where
  | pending | running | done | failed | killed
  deriving DecidableEq, Repr

/-- The result of a task. -/
structure TaskResult where
  ok : Bool
  payload : List UInt8
  error : Option String
  deriving DecidableEq

/-- The record of a task. -/
structure TaskRecord where
  taskId : String
  payload : List UInt8
  attempts : UInt64
  status : TaskStatus
  runAt : UInt64
  lockBy : Option String
  result : Option TaskResult
  claimedAt : Option UInt64
  deriving DecidableEq

/-- The record of a new task. -/
def TaskRecord.pending (taskId : String) (payload : List UInt8) (runAt : UInt64) : TaskRecord where
  taskId := taskId
  payload := payload
  attempts := 0
  status := .pending
  runAt := runAt
  lockBy := none
  result := none
  claimedAt := none

/-- The progress of a scheduler. -/
structure SchedulerState where
  lastTick : Option UInt64 := none
  runs : UInt64 := 0
  generatedTaskIds : List String := []
  deriving DecidableEq

/-- The commands. -/
inductive QueueCommand where
  | submit (task : TaskRecord)
  | submitBatch (tasks : List TaskRecord)
  | claim (workerId : String) (now : UInt64)
  | complete (taskId : String) (result : List UInt8)
  | fail (taskId reason : String) (retry : Bool)
  | kill (taskId : String)
  | reclaim (timeoutSecs now : UInt64)
  | scheduleBatch (schedulerId : String) (now intervalSecs : UInt64) (maxTasks : Option ℕ)
      (tasks : List TaskRecord)

/-- The responses. -/
inductive QueueResponse where
  | submitted (taskId : String)
  | submittedBatch (count : ℕ)
  | claimed (task : Option TaskRecord)
  | updated (taskId : String)
  | reclaimed (count : ℕ)
  | scheduled (schedulerId : String) (count totalGenerated : ℕ) (lastTick : Option UInt64)
      (generatedTaskIds : List String)
  | none
  deriving DecidableEq

/-- Subtraction of times that stops at zero. -/
def saturatingSub (a b : UInt64) : UInt64 := if b ≤ a then a - b else 0

/-- The successor of a counter that stops at the largest value. -/
def saturatingSucc (a : UInt64) : UInt64 := if a = UInt64.ofNat (2 ^ 64 - 1) then a else a + 1

/-! ### Commands in a batch -/

/-- The task records of the database. -/
abbrev TaskStore := KeyStore String TaskRecord

/-- The write batch, the staged records, and the copies of the memory. -/
structure Stage where
  batch : List (KeyStore.Write String TaskRecord)
  stagedTasks : TaskStore
  pending : List String
  pendingIds : Finset String
  schedulerStates : KeyStore String SchedulerState

namespace Stage

/-- Write a record into the batch, and stage it. -/
def putTask (s : Stage) (id : String) (task : TaskRecord) : Stage :=
  { s with
    batch := s.batch ++ [⟨id, some task⟩]
    stagedTasks := s.stagedTasks.insert id task }

/-- Queue a task that is not in the queue. -/
def enqueue (s : Stage) (id : String) : Stage :=
  if id ∈ s.pendingIds then s
  else { s with pending := s.pending ++ [id], pendingIds := insert id s.pendingIds }

/-- Take a task out of the queue. -/
def dequeue (s : Stage) (id : String) : Stage :=
  { s with pending := s.pending.filter (· ≠ id), pendingIds := s.pendingIds.erase id }

/-- Keeps a task as pending. -/
def insertPendingTask (s : Stage) (task : TaskRecord) : Stage :=
  (s.putTask task.taskId task).enqueue task.taskId

/-- A staged record wins over the one in the database. -/
def loadTask (db : TaskStore) (s : Stage) (id : String) : Option TaskRecord :=
  match s.stagedTasks[id]? with
  | some task => some task
  | none => db[id]?

end Stage

variable (db : TaskStore)

/-- Submits a task. -/
def submitTask (s : Stage) (task : TaskRecord) : Stage :=
  s.insertPendingTask { task with status := .pending, lockBy := none, result := none }

/-- The task, claimed by a worker. -/
def TaskRecord.claim (task : TaskRecord) (workerId : String) (now : UInt64) : TaskRecord :=
  { task with
    status := .running, lockBy := some workerId, claimedAt := some now
    attempts := saturatingSucc task.attempts }

/-- Go through the queue up to the first task that may run. Tasks that wait go behind the rest; what
is not pending leaves it. -/
def claimNext (workerId : String) (now : UInt64) :
    List String → List String → Stage → Stage × Option TaskRecord
  | [], skipped, s => ({ s with pending := skipped }, none)
  | id :: rest, skipped, s =>
    match s.loadTask db id with
    | none => claimNext workerId now rest skipped { s with pendingIds := s.pendingIds.erase id }
    | some task =>
      if task.status ≠ .pending then
        claimNext workerId now rest skipped { s with pendingIds := s.pendingIds.erase id }
      else if now < task.runAt then claimNext workerId now rest (skipped ++ [id]) s
      else
        let claimed := task.claim workerId now
        ({ s.putTask task.taskId claimed with
            pending := rest ++ skipped, pendingIds := s.pendingIds.erase id }, some claimed)

/-- A running task whose worker has had it for too long. -/
def TaskRecord.Stalled (timeoutSecs now : UInt64) (task : TaskRecord) : Prop :=
  task.status = .running ∧
    ∀ claimedAt, task.claimedAt = some claimedAt → timeoutSecs ≤ saturatingSub now claimedAt

instance (timeoutSecs now : UInt64) : DecidablePred (TaskRecord.Stalled timeoutSecs now) :=
  fun task =>
    match h : task.claimedAt with
    | some claimedAt => decidable_of_iff
        (task.status = .running ∧ timeoutSecs ≤ saturatingSub now claimedAt) (by
          simp [TaskRecord.Stalled, h])
    | none => decidable_of_iff (task.status = .running) (by simp [TaskRecord.Stalled, h])

/-- The stalled tasks that a scan of the database finds; staged records take precedence. -/
def stalledTasks (timeoutSecs now : UInt64) (s : Stage) : List TaskRecord :=
  db.toList.filterMap fun p =>
    let task := s.stagedTasks[p.1]?.getD p.2
    if task.Stalled timeoutSecs now then some task else none

/-- Takes a task back. -/
def reclaimTask (s : Stage) (task : TaskRecord) : Stage :=
  s.insertPendingTask { task with status := .pending, lockBy := none, claimedAt := none }

/-- The loop over the tasks of a tick; it stops when the scheduler has generated enough. -/
def scheduleTasks (maxTasks : Option ℕ) :
    List TaskRecord → Stage → SchedulerState → List String →
      Stage × SchedulerState × List String
  | [], s, state, generated => (s, state, generated)
  | task :: tasks, s, state, generated =>
    if maxTasks.any (· ≤ state.generatedTaskIds.length) then (s, state, generated)
    else if (s.loadTask db task.taskId).isSome then
      scheduleTasks maxTasks tasks s state generated
    else if task.taskId ∈ state.generatedTaskIds then
      scheduleTasks maxTasks tasks s state generated
    else
      let task := { task with
        status := .pending, lockBy := none, result := none, claimedAt := none }
      scheduleTasks maxTasks tasks (s.insertPendingTask task)
        { state with generatedTaskIds := state.generatedTaskIds ++ [task.taskId] }
        (generated ++ [task.taskId])

/-- The end of a tick: the scheduler keeps what the loop has generated. -/
def finishTick (schedulerId : String) (now : UInt64) :
    Stage × SchedulerState × List String → Stage × QueueResponse
  | (s, state, generated) =>
    let state := { state with lastTick := some now, runs := saturatingSucc state.runs }
    ({ s with schedulerStates := s.schedulerStates.insert schedulerId state },
      .scheduled schedulerId generated.length state.generatedTaskIds.length state.lastTick
        generated)

/-- A tick of a scheduler; it comes to nothing if the last one is too recent. -/
def applyScheduleBatch (s : Stage) (schedulerId : String) (now intervalSecs : UInt64)
    (maxTasks : Option ℕ) (tasks : List TaskRecord) : Stage × QueueResponse :=
  let state := s.schedulerStates[schedulerId]?.getD {}
  let s := { s with schedulerStates := s.schedulerStates.insert schedulerId state }
  if state.lastTick.any (fun lastTick => saturatingSub now lastTick < intervalSecs) then
    (s, .scheduled schedulerId 0 state.generatedTaskIds.length state.lastTick [])
  else finishTick schedulerId now (scheduleTasks db maxTasks tasks s state [])

/-- Performs a command. -/
def applyCommand (s : Stage) : QueueCommand → Stage × QueueResponse
  | .submit task => (submitTask s task, .submitted task.taskId)
  | .submitBatch tasks => (tasks.foldl submitTask s, .submittedBatch tasks.length)
  | .claim workerId now =>
    let (s, claimed) := claimNext db workerId now s.pending [] s
    (s, .claimed claimed)
  | .complete id result =>
    match s.loadTask db id with
    | some task =>
      (s.putTask id { task with status := .done, result := some ⟨true, result, none⟩ },
        .updated id)
    | none => (s, .updated id)
  | .fail id reason retry =>
    match s.loadTask db id with
    | some task =>
      let task := { task with result := some ⟨false, [], some reason⟩ }
      if retry then
        ((s.enqueue id).putTask id
          { task with status := .pending, lockBy := none, claimedAt := none }, .updated id)
      else (s.putTask id { task with status := .failed }, .updated id)
    | none => (s, .updated id)
  | .kill id =>
    match s.loadTask db id with
    | some task =>
      ((s.putTask id { task with status := .killed, lockBy := none }).dequeue id, .updated id)
    | none => (s.dequeue id, .updated id)
  | .reclaim timeoutSecs now =>
    let toReclaim := stalledTasks db timeoutSecs now s
    (toReclaim.foldl reclaimTask s, .reclaimed toReclaim.length)
  | .scheduleBatch schedulerId now intervalSecs maxTasks tasks =>
    applyScheduleBatch db s schedulerId now intervalSecs maxTasks tasks

/-! ### Batches of entries -/

variable {L M : Type}

/-- What an entry holds. -/
inductive EntryPayload (M : Type) where
  | blank
  | normal (command : QueueCommand)
  | membership (mem : M)

/-- An entry of the log. -/
structure Entry (L M : Type) where
  logId : L
  payload : EntryPayload M

/-- A membership with the entry that brought it. -/
structure StoredMembership (L M : Type) where
  logId : Option L
  membership : M

/-- The column families `sm_data` and `sm_meta`. -/
structure Db (L M : Type) where
  tasks : TaskStore
  lastAppliedLog : Option L
  lastMembership : Option (StoredMembership L M)
  pendingQueue : List String
  schedulerStates : KeyStore String SchedulerState

/-- The state machine. -/
structure RocksStateMachine (L M : Type) where
  db : Db L M
  pending : List String
  pendingIds : Finset String
  schedulerStates : KeyStore String SchedulerState

/-- What the loop over the entries of a batch has collected. -/
structure Batch (L M : Type) where
  stage : Stage
  lastAppliedLog : Option L
  lastMembership : Option (StoredMembership L M)
  responses : List QueueResponse

/-- Applies an entry. -/
def applyEntry (b : Batch L M) (entry : Entry L M) : Batch L M :=
  let b := { b with lastAppliedLog := some entry.logId }
  match entry.payload with
  | .blank => { b with responses := b.responses ++ [.none] }
  | .normal command =>
    let (stage, response) := applyCommand db b.stage command
    { b with stage := stage, responses := b.responses ++ [response] }
  | .membership mem =>
    { b with
      lastMembership := some ⟨some entry.logId, mem⟩, responses := b.responses ++ [.none] }

namespace RocksStateMachine

/-- The state machine of a new replica. -/
def initial : RocksStateMachine L M := ⟨⟨∅, none, none, [], ∅⟩, [], ∅, ∅⟩

/-- The start of a batch: nothing is staged. -/
def startBatch (sm : RocksStateMachine L M) : Batch L M :=
  ⟨⟨[], ∅, sm.pending, sm.pendingIds, sm.schedulerStates⟩, none, none, []⟩

/-- Write a batch, and then take over the copies that it worked on. -/
def finishBatch (sm : RocksStateMachine L M) (b : Batch L M) : RocksStateMachine L M where
  db :=
    { tasks := sm.db.tasks.writeAll b.stage.batch
      lastAppliedLog := b.lastAppliedLog.or sm.db.lastAppliedLog
      lastMembership := b.lastMembership.or sm.db.lastMembership
      pendingQueue := b.stage.pending
      schedulerStates := b.stage.schedulerStates }
  pending := b.stage.pending
  pendingIds := b.stage.pendingIds
  schedulerStates := b.stage.schedulerStates

/-- Apply a batch of committed entries: the state machine after it, and a response per entry. -/
def apply (sm : RocksStateMachine L M) (entries : List (Entry L M)) :
    RocksStateMachine L M × List QueueResponse :=
  let b := entries.foldl (applyEntry sm.db.tasks) sm.startBatch
  (sm.finishBatch b, b.responses)

/-- Apply batches one after the other. -/
def applyBatches (sm : RocksStateMachine L M) :
    List (List (Entry L M)) → RocksStateMachine L M × List QueueResponse
  | [] => (sm, [])
  | entries :: batches =>
    let (sm, responses) := sm.apply entries
    let (sm, responses') := sm.applyBatches batches
    (sm, responses ++ responses')

end RocksStateMachine

end RustExample.OpenraftTask
