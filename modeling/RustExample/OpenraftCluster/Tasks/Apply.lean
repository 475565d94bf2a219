import RustExample.Foundation.KeyStore
import RustExample.OpenraftCluster.Tasks.Records

/-!
# State transitions of the task domain

The code that the raft state machine runs for every committed task command. A command reads the
current values of the keys it needs and returns the mutations of the key space, which the caller
performs in order, and the response for the proposer. A stored record that cannot be read is the
only error.

Source: `src/tasks/apply.rs`.

* Encoding a record cannot fail, so the error of `encode_record` has no counterpart.
* The reader is a function of the key; the closures of the source keep no state of their own.
-/

namespace RustExample.OpenraftCluster

open JsonText

/-! ### Mutations and readers -/

/-- One mutation of the key space; `none` deletes. -/
abbrev KvMutation := KeyStore.Write String String

/-- The write of a value. -/
def KvMutation.put (key value : String) : KvMutation := ⟨key, some value⟩

/-- The removal of a key. -/
def KvMutation.del (key : String) : KvMutation := ⟨key, none⟩

/-- A read of the current value of a key. -/
abbrev StateRead := String → Except String (Option String)

/-- The key space of a replica, `sm_data`. -/
abbrev KeySpace := KeyStore String String

/-- Reads what the map holds. -/
def KeySpace.reader (s : KeySpace) : StateRead := fun key => .ok s[key]?

/-- The commands that may make a task schedulable. -/
def isScheduleEvent : TaskRequest → Bool
  | .taskEnqueue .. | .taskRequeue _ | .taskReplay .. | .taskFail .. | .workerLease .. => true
  | .taskAssign .. | .taskClaim .. | .taskMarkCommitted .. | .taskDone .. | .taskVacuum _ => false

/-- Addition of 32-bit counters that stops at the largest one. -/
def saturatingAdd (a b : UInt32) : UInt32 :=
  if a.toNat + b.toNat < 2 ^ 32 then a + b else UInt32.ofNat (2 ^ 32 - 1)

/-- The `{:?}` text of an optional value. -/
def debugOption {α : Type} (debug : α → String) : Option α → String
  | none => "None"
  | some a => "Some(" ++ debug a ++ ")"

variable (texts : TextForms)

/-- The result of a command that writes nothing. -/
def unchanged (result : TaskOpResult) : Except String (List KvMutation × Response) :=
  .ok ([], result.intoResponse texts)

/-- The record stored under the key of a task; a value that cannot be read is an error. -/
def readRecord (read : StateRead) (id : String) : Except String (Option TaskRecord) := do
  match ← read (recKey id) with
  | none => return none
  | some raw =>
    match texts.taskRecord.fromStr raw with
    | .ok record => return some record
    | .error err => throw ("corrupt task record " ++ id ++ ": " ++ err)

/-- The JSON of a record. -/
def encodeRecord (record : TaskRecord) : String := texts.taskRecord.toStr record

/-! ### The commands -/

/-- The owner of a running task: node and lease epoch match the record. -/
def ackMatches (record : TaskRecord) (nodeId : String) (leaseEpoch : UInt64) : Bool :=
  record.status = .running && record.assignedNodeId = some nodeId &&
    record.leaseEpoch = some leaseEpoch

/-- The fields that the rejection of a claim or of a commit mark quotes. -/
def ownerText (record : TaskRecord) : String :=
  "status=" ++ record.status.asStr ++
    ", assigned=" ++ debugOption texts.debugStr record.assignedNodeId ++
    ", lease=" ++ debugOption (fun epoch => toString epoch.toNat) record.leaseEpoch

/-- The part of an enqueue behind the idempotency check. -/
def enqueueFresh (read : StateRead) (id payload : String) (runAt : UInt64)
    (idemKey : Option String) (createdAt : UInt64) :
    Except String (List KvMutation × Response) := do
  match ← readRecord texts read id with
  | some _ => unchanged texts ⟨true, some id, some true, none, none⟩
  | none =>
    let record : TaskRecord :=
      { id, payload, status := .queued, attempts := 0, runAt, idemKey, assignedNodeId := none
        leaseEpoch := none, committed := false, error := none, updatedAt := runAt, createdAt
        completedAt := 0, result := none }
    let mutations := [.put (recKey id) (encodeRecord texts record), .put (queuedIdxKey runAt id) id]
    return (mutations ++ (idemKey.map fun idem => KvMutation.put (idemRecordKey idem) id).toList,
      TaskOpResult.intoResponse texts ⟨true, some id, some false, none, none⟩)

/-- An existing idempotency key wins: the original id is returned and nothing is written. -/
def applyEnqueue (read : StateRead) (id payload : String) (runAt : UInt64)
    (idemKey : Option String) (createdAt : UInt64) :
    Except String (List KvMutation × Response) := do
  match idemKey with
  | none => enqueueFresh texts read id payload runAt idemKey createdAt
  | some idem =>
    match ← read (idemRecordKey idem) with
    | some existingId => unchanged texts ⟨true, some existingId, some true, none, none⟩
    | none => enqueueFresh texts read id payload runAt idemKey createdAt

/-- Assigns a queued task. -/
def applyAssign (read : StateRead) (id nodeId : String) (leaseEpoch now : UInt64) :
    Except String (List KvMutation × Response) := do
  match ← readRecord texts read id with
  | none => unchanged texts (.rejected "task not found")
  | some record =>
    if record.status ≠ .queued then
      unchanged texts (.rejected ("task is " ++ record.status.asStr ++ ", not queued"))
    else
      let queuedKey := queuedIdxKey record.runAt id
      let record := { record with
        status := .assigned, assignedNodeId := some nodeId, leaseEpoch := some leaseEpoch
        updatedAt := now }
      return ([.put (recKey id) (encodeRecord texts record), .del queuedKey,
        .put (assignedIdxKey nodeId id) (toString leaseEpoch.toNat)],
        TaskOpResult.okResult.intoResponse texts)

/-- Claims an assigned task. -/
def applyClaim (read : StateRead) (id nodeId : String) (leaseEpoch now : UInt64) :
    Except String (List KvMutation × Response) := do
  match ← readRecord texts read id with
  | none => unchanged texts (.rejected "task not found")
  | some record =>
    if record.status ≠ .assigned ∨ record.assignedNodeId ≠ some nodeId ∨
        record.leaseEpoch ≠ some leaseEpoch then
      unchanged texts (.rejected ("claim mismatch: " ++ ownerText texts record))
    else
      let record := { record with
        status := .running, attempts := saturatingAdd record.attempts 1, updatedAt := now }
      return ([.put (recKey id) (encodeRecord texts record)],
        TaskOpResult.intoResponse texts ⟨true, some id, none, some record, none⟩)

/-- Mark a running task as past its point of no return. -/
def applyMarkCommitted (read : StateRead) (id nodeId : String) (leaseEpoch now : UInt64) :
    Except String (List KvMutation × Response) := do
  match ← readRecord texts read id with
  | none => unchanged texts (.rejected "task not found")
  | some record =>
    if !ackMatches record nodeId leaseEpoch then
      unchanged texts (.rejected ("commit-mark mismatch: " ++ ownerText texts record))
    else if record.committed then
      unchanged texts .okResult
    else
      let record := { record with committed := true, updatedAt := now }
      return ([.put (recKey id) (encodeRecord texts record)],
        TaskOpResult.okResult.intoResponse texts)

/-- Completes a running task. -/
def applyDone (read : StateRead) (id nodeId : String) (leaseEpoch : UInt64) (attempts : UInt32)
    (now : UInt64) (result : Option String) : Except String (List KvMutation × Response) := do
  match ← readRecord texts read id with
  | none => unchanged texts (.rejected "task not found")
  | some record =>
    if !ackMatches record nodeId leaseEpoch then
      unchanged texts (.rejected "stale ack ignored")
    else
      let assignedKey := assignedIdxKey nodeId id
      let record := { record with
        status := .done, attempts, error := none, result, updatedAt := now, completedAt := now }
      return ([.put (recKey id) (encodeRecord texts record), .del assignedKey,
        .put (terminalIdxKey now id) id], TaskOpResult.okResult.intoResponse texts)

/-- The note that a suppressed retry appends to the error. -/
def retrySuppressedNote : String :=
  " (retry suppressed: task passed its commit point; side effect may have executed — needs " ++
    "reconciliation)"

/-- A failed execution: a positive `retryAt` queues the task again, unless it is committed. -/
def applyFail (read : StateRead) (id nodeId : String) (leaseEpoch : UInt64) (attempts : UInt32)
    (error : String) (retryAt now : UInt64) : Except String (List KvMutation × Response) := do
  match ← readRecord texts read id with
  | none => unchanged texts (.rejected "task not found")
  | some record =>
    if !ackMatches record nodeId leaseEpoch then
      unchanged texts (.rejected "stale ack ignored")
    else
      let suppressed : Bool := record.committed && 0 < retryAt
      let error := if suppressed then error ++ retrySuppressedNote else error
      let retryAt := if suppressed then 0 else retryAt
      let assignedKey := assignedIdxKey nodeId id
      let record := { record with
        attempts, error := some error, assignedNodeId := none, leaseEpoch := none
        updatedAt := now }
      if 0 < retryAt then
        let record := { record with status := .queued, runAt := retryAt }
        return ([.put (recKey id) (encodeRecord texts record), .del assignedKey,
          .put (queuedIdxKey retryAt id) id], TaskOpResult.okResult.intoResponse texts)
      else
        let record := { record with status := .failed, completedAt := now }
        return ([.put (recKey id) (encodeRecord texts record), .del assignedKey,
          .put (terminalIdxKey now id) id], TaskOpResult.okResult.intoResponse texts)

/-- The error that a refused requeue leaves in the record. -/
def requeueRefusedError : String :=
  "requeue refused: task passed its commit point on a lost worker; side effect may have " ++
    "executed — needs reconciliation"

/-- Queue an assigned or running task again; one past its commit point fails for good. -/
def applyRequeue (read : StateRead) (id : String) :
    Except String (List KvMutation × Response) := do
  match ← readRecord texts read id with
  | none => unchanged texts (.rejected "task not found")
  | some record =>
    if record.status ≠ .assigned ∧ record.status ≠ .running then
      unchanged texts (.rejected ("task is " ++ record.status.asStr ++ ", not assigned/running"))
    else
      let mutations :=
        (record.assignedNodeId.map fun node => KvMutation.del (assignedIdxKey node id)).toList
      let record := { record with assignedNodeId := none, leaseEpoch := none }
      if record.committed then
        let now := max record.updatedAt record.createdAt
        let record := { record with
          status := .failed, completedAt := now, error := some requeueRefusedError }
        return (.put (recKey id) (encodeRecord texts record) ::
          (mutations ++ [.put (terminalIdxKey now id) id]),
          TaskOpResult.intoResponse texts
            ⟨true, some id, none, none,
              some "committed task failed terminally instead of requeued"⟩)
      else
        let record := { record with status := .queued }
        return (.put (recKey id) (encodeRecord texts record) ::
          (mutations ++ [.put (queuedIdxKey record.runAt id) id]),
          TaskOpResult.okResult.intoResponse texts)

/-- The rejection of a replay of a task past its commit point. -/
def replayRefusedReason : String :=
  "replay refused: task passed its commit point; side effect may have executed — needs " ++
    "reconciliation"

/-- Return a failed task to the queue with a fresh attempt budget. -/
def applyReplay (read : StateRead) (id : String) (now : UInt64) :
    Except String (List KvMutation × Response) := do
  match ← readRecord texts read id with
  | none => unchanged texts (.rejected "task not found")
  | some record =>
    if record.status ≠ .failed then
      unchanged texts (.rejected ("task is " ++ record.status.asStr ++ ", not failed"))
    else if record.committed then
      unchanged texts (.rejected replayRefusedReason)
    else
      let terminalKey := terminalIdxKey record.completedAt id
      let record := { record with
        status := .queued, attempts := 0, runAt := now, error := none, updatedAt := now
        completedAt := 0 }
      return ([.put (recKey id) (encodeRecord texts record), .del terminalKey,
        .put (queuedIdxKey now id) id],
        TaskOpResult.intoResponse texts ⟨true, some id, none, none, none⟩)

/-- One round of the vacuum loop: a terminal record goes with its index entry and its
idempotency key; any other id is skipped. -/
def vacuumOne (read : StateRead) (removed : List KvMutation × ℕ) (id : String) :
    Except String (List KvMutation × ℕ) := do
  match ← readRecord texts read id with
  | none => return removed
  | some record =>
    if record.status ≠ .done ∧ record.status ≠ .failed then
      return removed
    else
      return (removed.1 ++ .del (recKey id) :: .del (terminalIdxKey record.completedAt id) ::
        (record.idemKey.map fun idem => KvMutation.del (idemRecordKey idem)).toList,
        removed.2 + 1)

/-- Removes finished tasks. -/
def applyVacuum (read : StateRead) (ids : List String) :
    Except String (List KvMutation × Response) := do
  let (mutations, removed) ← ids.foldlM (vacuumOne texts read) ([], 0)
  return (mutations, TaskOpResult.intoResponse texts
    ⟨true, none, none, none, some ("vacuumed " ++ toString removed)⟩)

/-- Keeps the lease of a worker. -/
def applyWorkerLease (nodeId workerName : String) (leaseEpoch expiresAt : UInt64) :
    Except String (List KvMutation × Response) :=
  .ok ([.put (workerKey nodeId)
    (texts.workerLease.toStr { nodeId, workerName, leaseEpoch, expiresAt })],
    TaskOpResult.okResult.intoResponse texts)

/-- Apply one task command: the mutations of the key space and the response. -/
def applyTaskCommand (read : StateRead) : TaskRequest → Except String (List KvMutation × Response)
  | .taskEnqueue id payload runAt idemKey createdAt =>
    applyEnqueue texts read id payload runAt idemKey createdAt
  | .taskAssign id nodeId leaseEpoch now => applyAssign texts read id nodeId leaseEpoch now
  | .taskClaim id nodeId leaseEpoch now => applyClaim texts read id nodeId leaseEpoch now
  | .taskMarkCommitted id nodeId leaseEpoch now =>
    applyMarkCommitted texts read id nodeId leaseEpoch now
  | .taskDone id nodeId leaseEpoch attempts now result =>
    applyDone texts read id nodeId leaseEpoch attempts now result
  | .taskFail id nodeId leaseEpoch attempts error retryAt now =>
    applyFail texts read id nodeId leaseEpoch attempts error retryAt now
  | .taskRequeue id => applyRequeue texts read id
  | .taskReplay id now => applyReplay texts read id now
  | .taskVacuum ids => applyVacuum texts read ids
  | .workerLease nodeId workerName leaseEpoch expiresAt =>
    applyWorkerLease texts nodeId workerName leaseEpoch expiresAt

/-! ### Commands on a key space -/

/-- Apply a command to a key space and perform its mutations in order. -/
def applyCommand (s : KeySpace) (cmd : TaskRequest) : Except String (KeySpace × Response) := do
  let (mutations, response) ← applyTaskCommand texts s.reader cmd
  return (s.writeAll mutations, response)

/-- A command as its proposer sees it: what was asked and what was answered. -/
structure CommandEvent where
  cmd : TaskRequest
  response : Response

/-- One step of a run of task commands. -/
def CommandStep (s : KeySpace) (e : CommandEvent) (s' : KeySpace) : Prop :=
  applyCommand texts s e.cmd = .ok (s', e.response)

/-- The record of a task in a key space, if there is one that can be read. -/
def recordAt (s : KeySpace) (id : String) : Option TaskRecord :=
  s[recKey id]?.bind fun raw => (texts.taskRecord.fromStr raw).toOption

/-- The lease of a worker in a key space, if there is one that can be read. -/
def leaseAt (s : KeySpace) (nodeId : String) : Option WorkerLeaseRecord :=
  s[workerKey nodeId]?.bind fun raw => (texts.workerLease.fromStr raw).toOption

end RustExample.OpenraftCluster
