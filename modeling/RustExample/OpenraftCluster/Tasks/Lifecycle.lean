import RustExample.OpenraftCluster.Tasks.Apply

/-!
# The lifecycle of a task

What the task domain is for, without keys and texts: a table of tasks, each in one phase of its
lifecycle. A phase carries the data that only it has, so that an unowned running task, a
committed queued task or a completion time of an open task cannot be written down.

* `TaskState.accept` is what an accepted command does to the task it names.
* `TaskTable.perform` is what a command does to the table; a rejected command does nothing.
-/

namespace RustExample.OpenraftCluster

open Function

/-! ### Phases -/

/-- The phases of a task with the data that belongs to each. -/
inductive Phase where
  | queued
  | assigned (nodeId : String) (leaseEpoch : UInt64)
  | running (nodeId : String) (leaseEpoch : UInt64) (committed : Bool)
  | done (nodeId : String) (leaseEpoch : UInt64) (committed : Bool) (completedAt : UInt64)
  | failed (committed : Bool) (completedAt : UInt64)
  deriving DecidableEq

namespace Phase

/-- The status of a phase. -/
def status : Phase → TaskStatus
  | queued => .queued
  | assigned _ _ => .assigned
  | running _ _ _ => .running
  | done _ _ _ _ => .done
  | failed _ _ => .failed

/-- The node and the lease epoch that own the task. -/
def owner : Phase → Option (String × UInt64)
  | assigned nodeId leaseEpoch | running nodeId leaseEpoch _ | done nodeId leaseEpoch _ _ =>
    some (nodeId, leaseEpoch)
  | queued | failed _ _ => none

/-- The task is past its point of no return. -/
def committed : Phase → Bool
  | running _ _ c | done _ _ c _ | failed c _ => c
  | queued | assigned _ _ => false

/-- When the task was completed. -/
def completedAt : Phase → UInt64
  | done _ _ _ t | failed _ t => t
  | queued | assigned _ _ | running _ _ _ => 0

/-- A phase that a vacuum removes. -/
def isTerminal : Phase → Bool
  | done _ _ _ _ | failed _ _ => true
  | queued | assigned _ _ | running _ _ _ => false

/-- The commit flag of a task running under the given owner. -/
def runBy (nodeId : String) (leaseEpoch : UInt64) : Phase → Option Bool
  | running n e c => if n = nodeId ∧ e = leaseEpoch then some c else none
  | queued | assigned _ _ | done _ _ _ _ | failed _ _ => none

theorem runBy_eq_some {nodeId : String} {leaseEpoch : UInt64} {p : Phase} {c : Bool} :
    p.runBy nodeId leaseEpoch = some c ↔ p = running nodeId leaseEpoch c := by
  cases p with
  | running n e b =>
    simp only [runBy, running.injEq, Option.ite_none_right_eq_some, Option.some.injEq]
    tauto
  | _ => simp [runBy]

end Phase

/-! ### Tasks -/

/-- A task of the queue. -/
structure TaskState where
  payload : String
  idemKey : Option String
  createdAt : UInt64
  attempts : UInt32
  runAt : UInt64
  error : Option String
  updatedAt : UInt64
  result : Option String
  phase : Phase
  deriving DecidableEq

namespace TaskState

/-- The record that stores a task. -/
def toRecord (id : String) (t : TaskState) : TaskRecord where
  id := id
  payload := t.payload
  status := t.phase.status
  attempts := t.attempts
  runAt := t.runAt
  idemKey := t.idemKey
  assignedNodeId := t.phase.owner.map Prod.fst
  leaseEpoch := t.phase.owner.map Prod.snd
  committed := t.phase.committed
  error := t.error
  updatedAt := t.updatedAt
  createdAt := t.createdAt
  completedAt := t.phase.completedAt
  result := t.result

/-- The task that an enqueue creates. -/
def new (payload : String) (runAt : UInt64) (idemKey : Option String) (createdAt : UInt64) :
    TaskState where
  payload := payload
  idemKey := idemKey
  createdAt := createdAt
  attempts := 0
  runAt := runAt
  error := none
  updatedAt := runAt
  result := none
  phase := .queued

/-- The task after its assignment. -/
def assign (t : TaskState) (nodeId : String) (leaseEpoch now : UInt64) : TaskState :=
  { t with phase := .assigned nodeId leaseEpoch, updatedAt := now }

/-- The task after its claim: one more attempt. -/
def claim (t : TaskState) (nodeId : String) (leaseEpoch now : UInt64) : TaskState :=
  { t with
    phase := .running nodeId leaseEpoch false, attempts := saturatingAdd t.attempts 1
    updatedAt := now }

/-- The task after the mark of its point of no return. -/
def markCommitted (t : TaskState) (nodeId : String) (leaseEpoch now : UInt64) : TaskState :=
  { t with phase := .running nodeId leaseEpoch true, updatedAt := now }

/-- The task after its execution. -/
def finish (t : TaskState) (nodeId : String) (leaseEpoch : UInt64) (committed : Bool)
    (attempts : UInt32) (now : UInt64) (result : Option String) : TaskState :=
  { t with
    phase := .done nodeId leaseEpoch committed now, attempts, error := none, result
    updatedAt := now }

/-- The task after a failure that is retried. -/
def retry (t : TaskState) (attempts : UInt32) (error : String) (retryAt now : UInt64) :
    TaskState :=
  { t with phase := .queued, attempts, error := some error, runAt := retryAt, updatedAt := now }

/-- The task after a failure for good. -/
def fail (t : TaskState) (committed : Bool) (attempts : UInt32) (error : String) (now : UInt64) :
    TaskState :=
  { t with phase := .failed committed now, attempts, error := some error, updatedAt := now }

/-- The task, queued again. -/
def requeue (t : TaskState) : TaskState := { t with phase := .queued }

/-- A committed task whose requeue was refused. -/
def refuseRequeue (t : TaskState) : TaskState :=
  { t with
    phase := .failed true (max t.updatedAt t.createdAt), error := some requeueRefusedError }

/-- A failed task back in the queue with a fresh attempt budget. -/
def replay (t : TaskState) (now : UInt64) : TaskState :=
  { t with phase := .queued, attempts := 0, runAt := now, error := none, updatedAt := now }

/-! ### Fields after a move -/

section

variable (t : TaskState) (nodeId error payload : String)
  (leaseEpoch now retryAt runAt createdAt : UInt64) (committed : Bool) (attempts : UInt32)
  (result idemKey : Option String)

@[simp] theorem new_phase : (new payload runAt idemKey createdAt).phase = .queued := rfl

@[simp] theorem assign_phase :
    (t.assign nodeId leaseEpoch now).phase = .assigned nodeId leaseEpoch := rfl

@[simp] theorem claim_phase :
    (t.claim nodeId leaseEpoch now).phase = .running nodeId leaseEpoch false := rfl

@[simp] theorem markCommitted_phase :
    (t.markCommitted nodeId leaseEpoch now).phase = .running nodeId leaseEpoch true := rfl

@[simp] theorem finish_phase : (t.finish nodeId leaseEpoch committed attempts now result).phase =
    .done nodeId leaseEpoch committed now := rfl

@[simp] theorem retry_phase : (t.retry attempts error retryAt now).phase = .queued := rfl

@[simp] theorem fail_phase : (t.fail committed attempts error now).phase = .failed committed now :=
  rfl

@[simp] theorem requeue_phase : t.requeue.phase = .queued := rfl

@[simp] theorem refuseRequeue_phase :
    t.refuseRequeue.phase = .failed true (max t.updatedAt t.createdAt) := rfl

@[simp] theorem replay_phase : (t.replay now).phase = .queued := rfl

end

/-- What an accepted command makes of the task it names, and its answer. -/
def accept (id : String) (t : TaskState) : TaskRequest → Option (TaskState × TaskOpResult)
  | .taskAssign _ nodeId leaseEpoch now =>
    if t.phase = .queued then some (t.assign nodeId leaseEpoch now, .okResult) else none
  | .taskClaim _ nodeId leaseEpoch now =>
    if t.phase = .assigned nodeId leaseEpoch then
      let t := t.claim nodeId leaseEpoch now
      some (t, ⟨true, some id, none, some (t.toRecord id), none⟩)
    else none
  | .taskMarkCommitted _ nodeId leaseEpoch now =>
    (t.phase.runBy nodeId leaseEpoch).map fun committed =>
      (if committed then t else t.markCommitted nodeId leaseEpoch now, .okResult)
  | .taskDone _ nodeId leaseEpoch attempts now result =>
    (t.phase.runBy nodeId leaseEpoch).map fun committed =>
      (t.finish nodeId leaseEpoch committed attempts now result, .okResult)
  | .taskFail _ nodeId leaseEpoch attempts error retryAt now =>
    (t.phase.runBy nodeId leaseEpoch).map fun committed =>
      (if 0 < retryAt then
        if committed then t.fail true attempts (error ++ retrySuppressedNote) now
        else t.retry attempts error retryAt now
      else t.fail committed attempts error now, .okResult)
  | .taskRequeue _ =>
    match t.phase with
    | .assigned _ _ | .running _ _ false => some (t.requeue, .okResult)
    | .running _ _ true =>
      some (t.refuseRequeue, ⟨true, some id, none, none,
        some "committed task failed terminally instead of requeued"⟩)
    | .queued | .done _ _ _ _ | .failed _ _ => none
  | .taskReplay _ now =>
    match t.phase with
    | .failed false _ => some (t.replay now, ⟨true, some id, none, none, none⟩)
    | .failed true _ | .queued | .assigned _ _ | .running _ _ _ | .done _ _ _ _ => none
  | .taskEnqueue .. | .taskVacuum _ | .workerLease .. => none

/-- All that an accepted command can make of a task. -/
inductive Move (t : TaskState) : TaskRequest → TaskState → Prop
  | assign {id nodeId leaseEpoch now} (h : t.phase = .queued) :
      Move t (.taskAssign id nodeId leaseEpoch now) (t.assign nodeId leaseEpoch now)
  | claim {id nodeId leaseEpoch now} (h : t.phase = .assigned nodeId leaseEpoch) :
      Move t (.taskClaim id nodeId leaseEpoch now) (t.claim nodeId leaseEpoch now)
  | markCommitted {id nodeId leaseEpoch now} (h : t.phase = .running nodeId leaseEpoch false) :
      Move t (.taskMarkCommitted id nodeId leaseEpoch now) (t.markCommitted nodeId leaseEpoch now)
  | remark {id nodeId leaseEpoch now} (h : t.phase = .running nodeId leaseEpoch true) :
      Move t (.taskMarkCommitted id nodeId leaseEpoch now) t
  | finish {id nodeId leaseEpoch committed attempts now result}
      (h : t.phase = .running nodeId leaseEpoch committed) :
      Move t (.taskDone id nodeId leaseEpoch attempts now result)
        (t.finish nodeId leaseEpoch committed attempts now result)
  | retry {id nodeId leaseEpoch attempts error retryAt now}
      (h : t.phase = .running nodeId leaseEpoch false) (hretry : 0 < retryAt) :
      Move t (.taskFail id nodeId leaseEpoch attempts error retryAt now)
        (t.retry attempts error retryAt now)
  | fail {id nodeId leaseEpoch committed attempts error error' retryAt now}
      (h : t.phase = .running nodeId leaseEpoch committed)
      (hretry : 0 < retryAt → committed = true) :
      Move t (.taskFail id nodeId leaseEpoch attempts error retryAt now)
        (t.fail committed attempts error' now)
  | requeueAssigned {id nodeId leaseEpoch} (h : t.phase = .assigned nodeId leaseEpoch) :
      Move t (.taskRequeue id) t.requeue
  | requeueRunning {id nodeId leaseEpoch} (h : t.phase = .running nodeId leaseEpoch false) :
      Move t (.taskRequeue id) t.requeue
  | refuseRequeue {id nodeId leaseEpoch} (h : t.phase = .running nodeId leaseEpoch true) :
      Move t (.taskRequeue id) t.refuseRequeue
  | replay {id now completedAt} (h : t.phase = .failed false completedAt) :
      Move t (.taskReplay id now) (t.replay now)

/-- **All that an accepted command can do.** -/
theorem move_of_accept {id : String} {t t' : TaskState} {cmd : TaskRequest} {res : TaskOpResult}
    (h : t.accept id cmd = some (t', res)) : t.Move cmd t' ∧ res.ok = true := by
  cases cmd with
  | taskAssign id' nodeId leaseEpoch now =>
    obtain ⟨hp, rfl, rfl⟩ : t.phase = .queued ∧ t.assign nodeId leaseEpoch now = t' ∧ _ = res := by
      simpa [accept] using h
    exact ⟨.assign hp, rfl⟩
  | taskClaim id' nodeId leaseEpoch now =>
    obtain ⟨hp, rfl, rfl⟩ : t.phase = .assigned nodeId leaseEpoch ∧
        t.claim nodeId leaseEpoch now = t' ∧ _ = res := by
      simpa [accept] using h
    exact ⟨.claim hp, rfl⟩
  | taskMarkCommitted id' nodeId leaseEpoch now =>
    obtain ⟨committed, hp, ht⟩ := Option.map_eq_some_iff.mp h
    obtain ⟨⟩ := ht
    rw [Phase.runBy_eq_some] at hp
    cases committed with
    | true => exact ⟨.remark hp, rfl⟩
    | false => exact ⟨.markCommitted hp, rfl⟩
  | taskDone id' nodeId leaseEpoch attempts now result =>
    obtain ⟨committed, hp, ht⟩ := Option.map_eq_some_iff.mp h
    obtain ⟨⟩ := ht
    exact ⟨.finish (Phase.runBy_eq_some.mp hp), rfl⟩
  | taskFail id' nodeId leaseEpoch attempts error retryAt now =>
    obtain ⟨committed, hp, ht⟩ := Option.map_eq_some_iff.mp h
    obtain ⟨⟩ := ht
    rw [Phase.runBy_eq_some] at hp
    refine ⟨?_, rfl⟩
    split_ifs with hretry hc
    · exact .fail (hc ▸ hp) fun _ => rfl
    · exact .retry (by simpa [hc] using hp) hretry
    · exact .fail hp fun hr => absurd hr hretry
  | taskRequeue id' =>
    cases hp : t.phase with
    | assigned nodeId leaseEpoch =>
      obtain ⟨rfl, rfl⟩ : t.requeue = t' ∧ _ = res := by simpa [accept, hp] using h
      exact ⟨.requeueAssigned hp, rfl⟩
    | running nodeId leaseEpoch committed =>
      cases committed with
      | false =>
        obtain ⟨rfl, rfl⟩ : t.requeue = t' ∧ _ = res := by simpa [accept, hp] using h
        exact ⟨.requeueRunning hp, rfl⟩
      | true =>
        obtain ⟨rfl, rfl⟩ : t.refuseRequeue = t' ∧ _ = res := by simpa [accept, hp] using h
        exact ⟨.refuseRequeue hp, rfl⟩
    | queued | done _ _ _ _ | failed _ _ => simp [accept, hp] at h
  | taskReplay id' now =>
    cases hp : t.phase with
    | failed committed completedAt =>
      cases committed with
      | false =>
        obtain ⟨rfl, rfl⟩ : t.replay now = t' ∧ _ = res := by simpa [accept, hp] using h
        exact ⟨.replay hp, rfl⟩
      | true => simp [accept, hp] at h
    | queued | assigned _ _ | running _ _ _ | done _ _ _ _ => simp [accept, hp] at h
  | taskEnqueue | taskVacuum | workerLease => simp [accept] at h

end TaskState

/-! ### The table -/

/-- The task that a lifecycle command names. -/
def TaskRequest.target : TaskRequest → Option String
  | .taskAssign id _ _ _ | .taskClaim id _ _ _ | .taskMarkCommitted id _ _ _
  | .taskDone id _ _ _ _ _ | .taskFail id _ _ _ _ _ _ | .taskRequeue id | .taskReplay id _ =>
    some id
  | .taskEnqueue .. | .taskVacuum _ | .workerLease .. => none

/-- The task table: the tasks by id, the idempotency table and the worker leases. -/
structure TaskTable where
  task : String → Option TaskState
  idem : String → Option String
  lease : String → Option WorkerLeaseRecord

/-- A command as the table answers it. -/
structure TableEvent where
  cmd : TaskRequest
  result : TaskOpResult

namespace TaskTable

/-- A table without tasks. -/
def empty : TaskTable := ⟨fun _ => none, fun _ => none, fun _ => none⟩

/-- The table with one task changed. -/
def setTask (T : TaskTable) (id : String) (t : TaskState) : TaskTable :=
  { T with task := update T.task id (some t) }

/-- The table with a new task and its idempotency key. -/
def addTask (T : TaskTable) (id : String) (t : TaskState) : TaskTable :=
  { T with
    task := update T.task id (some t)
    idem := match t.idemKey with
      | some k => update T.idem k (some id)
      | none => T.idem }

/-- A task that a vacuum of `id` removes. -/
def vacuumable (T : TaskTable) (id : String) : Option TaskState :=
  (T.task id).filter fun t => t.phase.isTerminal

variable {T : TaskTable}

theorem vacuumable_eq_some {id : String} {t : TaskState} :
    T.vacuumable id = some t ↔ T.task id = some t ∧ t.phase.isTerminal = true := by
  simp [vacuumable, Option.filter_eq_some_iff]

/-- The table without the terminal tasks of a list and without their idempotency keys. -/
def vacuum (T : TaskTable) (ids : List String) : TaskTable :=
  { T with
    task := fun id => if id ∈ ids ∧ (T.vacuumable id).isSome then none else T.task id
    idem := fun k =>
      if ∃ id ∈ ids, (T.vacuumable id).any fun t => t.idemKey = some k then none else T.idem k }

/-- The table with a worker lease. -/
def setLease (T : TaskTable) (nodeId : String) (lease : WorkerLeaseRecord) : TaskTable :=
  { T with lease := update T.lease nodeId (some lease) }

/-- The id that answers an enqueue without a new task. -/
def existing (T : TaskTable) (id : String) (idemKey : Option String) : Option String :=
  (idemKey.bind T.idem).or ((T.task id).map fun _ => id)

/-- What a command makes of the table, and its answer; `none` is a rejection. -/
def perform (T : TaskTable) : TaskRequest → Option (TaskTable × TaskOpResult)
  | .taskEnqueue id payload runAt idemKey createdAt =>
    match T.existing id idemKey with
    | some id' => some (T, ⟨true, some id', some true, none, none⟩)
    | none => some (T.addTask id (.new payload runAt idemKey createdAt),
        ⟨true, some id, some false, none, none⟩)
  | .taskVacuum ids =>
    some (T.vacuum ids, ⟨true, none, none, none,
      some ("vacuumed " ++ toString (ids.countP fun id => (T.vacuumable id).isSome))⟩)
  | .workerLease nodeId workerName leaseEpoch expiresAt =>
    some (T.setLease nodeId { nodeId, workerName, leaseEpoch, expiresAt }, .okResult)
  | cmd => cmd.target.bind fun id =>
      (T.task id).bind fun t => (t.accept id cmd).map fun p => (T.setTask id p.1, p.2)

/-- One step of the table: a command performed, or a rejection that changes nothing. -/
def Step (T : TaskTable) (e : TableEvent) (T' : TaskTable) : Prop :=
  T.perform e.cmd = some (T', e.result) ∨
    T.perform e.cmd = none ∧ T' = T ∧ e.result.ok = false

/-- All that a step can make of the table. -/
inductive Effect (T : TaskTable) : TableEvent → TaskTable → Prop
  | rejected {e} (hok : e.result.ok = false) : Effect T e T
  | deduplicated {id payload runAt idemKey createdAt id'} (h : T.existing id idemKey = some id') :
      Effect T ⟨.taskEnqueue id payload runAt idemKey createdAt,
        ⟨true, some id', some true, none, none⟩⟩ T
  | enqueued {id payload runAt idemKey createdAt} (h : T.existing id idemKey = none) :
      Effect T ⟨.taskEnqueue id payload runAt idemKey createdAt,
        ⟨true, some id, some false, none, none⟩⟩
        (T.addTask id (.new payload runAt idemKey createdAt))
  | moved {id t t' e} (hid : e.cmd.target = some id) (ht : T.task id = some t)
      (hmove : t.Move e.cmd t') (hok : e.result.ok = true) : Effect T e (T.setTask id t')
  | vacuumed {ids res} (hok : res.ok = true) : Effect T ⟨.taskVacuum ids, res⟩ (T.vacuum ids)
  | leased {nodeId workerName leaseEpoch expiresAt} :
      Effect T ⟨.workerLease nodeId workerName leaseEpoch expiresAt, .okResult⟩
        (T.setLease nodeId { nodeId, workerName, leaseEpoch, expiresAt })

theorem perform_eq_bind {cmd : TaskRequest} {id : String} (hid : cmd.target = some id) :
    T.perform cmd =
      (T.task id).bind fun t => (t.accept id cmd).map fun p => (T.setTask id p.1, p.2) := by
  cases cmd <;> cases hid <;> rfl

/-- **All that a step can do.** -/
theorem Step.effect {T' : TaskTable} {e : TableEvent} (h : T.Step e T') : T.Effect e T' := by
  obtain ⟨cmd, res⟩ := e
  rcases h with h | ⟨-, rfl, hok⟩
  · cases hid : cmd.target with
    | some id =>
      rw [perform_eq_bind hid] at h
      obtain ⟨t, ht, h⟩ := Option.bind_eq_some_iff.mp h
      obtain ⟨p, hp, hT⟩ := Option.map_eq_some_iff.mp h
      obtain ⟨⟩ := hT
      obtain ⟨hmove, hok⟩ := TaskState.move_of_accept hp
      exact .moved hid ht hmove hok
    | none =>
      cases cmd with
      | taskEnqueue id payload runAt idemKey createdAt =>
        cases hex : T.existing id idemKey with
        | some id' =>
          obtain ⟨rfl, rfl⟩ : T = T' ∧ _ = res := by simpa [perform, hex] using h
          exact .deduplicated hex
        | none =>
          obtain ⟨rfl, rfl⟩ : T.addTask id _ = T' ∧ _ = res := by simpa [perform, hex] using h
          exact .enqueued hex
      | taskVacuum ids =>
        obtain ⟨rfl, rfl⟩ : T.vacuum ids = T' ∧ _ = res := by simpa [perform] using h
        exact .vacuumed rfl
      | workerLease nodeId workerName leaseEpoch expiresAt =>
        obtain ⟨rfl, rfl⟩ : T.setLease nodeId _ = T' ∧ _ = res := by simpa [perform] using h
        exact .leased
      | _ => simp [TaskRequest.target] at hid
  · exact .rejected hok

/-- What a step does to one task. -/
inductive EffectOn (T : TaskTable) (id : String) (e : TableEvent) (T' : TaskTable) : Prop
  | frame (heq : T'.task id = T.task id) (hno : e.cmd.target = some id → e.result.ok = false)
  | created {payload runAt idemKey createdAt} (hnone : T.task id = none)
      (hcmd : e.cmd = .taskEnqueue id payload runAt idemKey createdAt)
      (hsome : T'.task id = some (.new payload runAt idemKey createdAt))
      (hnew : e.result.deduplicated = some false)
  | moved {t t'} (ht : T.task id = some t) (ht' : T'.task id = some t')
      (htarget : e.cmd.target = some id) (hmove : t.Move e.cmd t') (hok : e.result.ok = true)
  | vacuumed {t ids} (ht : T.task id = some t) (hterminal : t.phase.isTerminal = true)
      (hcmd : e.cmd = .taskVacuum ids) (hid : id ∈ ids) (hnone : T'.task id = none)

theorem task_eq_none_of_existing {id : String} {idemKey : Option String}
    (h : T.existing id idemKey = none) : T.task id = none ∧ idemKey.bind T.idem = none := by
  obtain ⟨hidem, htask⟩ := Option.or_eq_none_iff.mp h
  exact ⟨Option.map_eq_none_iff.mp htask, hidem⟩

/-- **One task in a step.** A task is untouched, created, moved or vacuumed. -/
theorem Step.effectOn {T' : TaskTable} {e : TableEvent} (h : T.Step e T') (id : String) :
    T.EffectOn id e T' := by
  cases h.effect with
  | rejected hok => exact .frame rfl fun _ => hok
  | deduplicated | leased => exact .frame rfl nofun
  | @enqueued id' payload runAt idemKey createdAt hex =>
    by_cases hid : id = id'
    · subst hid
      exact .created (task_eq_none_of_existing hex).1 rfl (update_self ..) rfl
    · exact .frame (update_of_ne hid ..) nofun
  | @moved id' t t' e htarget ht hmove hok =>
    by_cases hid : id = id'
    · subst hid
      exact .moved ht (update_self ..) htarget hmove hok
    · refine .frame (update_of_ne hid ..) fun h => ?_
      exact absurd (Option.some.inj (h.symm.trans htarget)) hid
  | @vacuumed ids =>
    by_cases hv : id ∈ ids ∧ (T.vacuumable id).isSome
    · obtain ⟨t, ht⟩ := Option.isSome_iff_exists.mp hv.2
      obtain ⟨htask, hterminal⟩ := vacuumable_eq_some.mp ht
      exact .vacuumed htask hterminal rfl hv.1 (if_pos hv)
    · exact .frame (if_neg hv) nofun

theorem ok_of_perform {T' : TaskTable} {cmd : TaskRequest} {res : TaskOpResult}
    (h : T.perform cmd = some (T', res)) : res.ok = true := by
  cases hid : cmd.target with
  | some id =>
    rw [perform_eq_bind hid] at h
    obtain ⟨t, -, h⟩ := Option.bind_eq_some_iff.mp h
    obtain ⟨p, hp, hT⟩ := Option.map_eq_some_iff.mp h
    obtain ⟨-, rfl⟩ := Prod.mk.inj hT
    exact (TaskState.move_of_accept hp).2
  | none =>
    cases cmd with
    | taskEnqueue id payload runAt idemKey createdAt =>
      simp only [perform] at h
      split at h <;> · obtain ⟨-, rfl⟩ := Prod.mk.inj (Option.some.inj h); rfl
    | taskVacuum | workerLease =>
      obtain ⟨-, rfl⟩ := Prod.mk.inj (Option.some.inj h)
      rfl
    | _ => simp [TaskRequest.target] at hid

/-- The table after a command, performed or rejected. -/
def next (T : TaskTable) (cmd : TaskRequest) : TaskTable := ((T.perform cmd).map Prod.fst).getD T

/-- The commands of a list with their acceptance, performed from `T`. -/
def trace (T : TaskTable) : List TaskRequest → List (TaskRequest × Bool)
  | [] => []
  | cmd :: cmds => (cmd, (T.perform cmd).isSome) :: (T.next cmd).trace cmds

theorem Step.eq_next {T' : TaskTable} {e : TableEvent} (h : T.Step e T') :
    T' = T.next e.cmd ∧ e.result.ok = (T.perform e.cmd).isSome := by
  rcases h with h | ⟨h, rfl, hok⟩
  · simp [next, h, ok_of_perform h]
  · simp [next, h, hok]

end TaskTable

end RustExample.OpenraftCluster
