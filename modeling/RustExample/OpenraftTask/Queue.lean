import RustExample.Foundation.Run
import RustExample.OpenraftTask.Batches

/-!
# The queue and the task records

The queue of pending tasks, the set of its ids and the status in the records are kept by different
lines of the commands. The queue may hold ids whose task is not pending any more; a claim drops
them when it meets them. What no command may do is to leave a pending task out of the queue.
-/

namespace RustExample.OpenraftTask

open List

/-! ### Records, queue and ids -/

namespace Stage

/-- The queue has no duplicates, its set has its ids, every record is under its own id, and every
pending task is in the queue. -/
structure Queued (db : TaskStore) (s : Stage) : Prop where
  nodup : s.pending.Nodup
  ids : ∀ id, id ∈ s.pendingIds ↔ id ∈ s.pending
  key : ∀ id task, s.loadTask db id = some task → task.taskId = id
  queued : ∀ id task, s.loadTask db id = some task → task.status = .pending → id ∈ s.pending

variable {db db' : TaskStore} {s s' : Stage}

theorem Queued.of_matches (h : s.Queued db) (hmatch : s.Matches db db' s') : s'.Queued db' where
  nodup := hmatch.pending ▸ h.nodup
  ids id := by rw [← hmatch.pending, ← hmatch.pendingIds, h.ids]
  key id task hid := h.key id task ((hmatch.load id).trans hid)
  queued id task hid hstatus :=
    hmatch.pending ▸ h.queued id task ((hmatch.load id).trans hid) hstatus

/-- A record may change under its own id, if it stays in the queue while it is pending. -/
theorem Queued.putTask (h : s.Queued db) {id : String} {task : TaskRecord}
    (hid : task.taskId = id) (hstatus : task.status = .pending → id ∈ s.pending) :
    (s.putTask id task).Queued db := by
  refine ⟨h.nodup, h.ids, fun id' task' h' => ?_, fun id' task' h' hpending => ?_⟩
  all_goals
    rw [loadTask_putTask] at h'
    split_ifs at h' with heq
  · obtain ⟨⟩ := h'
    exact hid.trans heq
  · exact h.key id' task' h'
  · obtain ⟨⟩ := h'
    exact heq ▸ hstatus hpending
  · exact h.queued id' task' h' hpending

theorem mem_pending_enqueue (h : s.Queued db) (id : String) : id ∈ (s.enqueue id).pending := by
  rw [Stage.enqueue]
  split_ifs with hmem
  · exact (h.ids id).mp hmem
  · simp

theorem Queued.enqueue (h : s.Queued db) (id : String) : (s.enqueue id).Queued db := by
  rw [Stage.enqueue]
  split_ifs with hmem
  · exact h
  · have hnot : id ∉ s.pending := fun hid => hmem ((h.ids id).mpr hid)
    have hnodup : (s.pending ++ [id]).Nodup := by
      simpa only [concat_eq_append] using h.nodup.concat hnot
    refine ⟨hnodup, fun id' => ?_, h.key,
      fun id' task hid hstatus => mem_append_left _ (h.queued id' task hid hstatus)⟩
    simp [h.ids, or_comm]

theorem loadTask_enqueue (id id' : String) :
    (s.enqueue id).loadTask db id' = s.loadTask db id' := by
  rw [Stage.enqueue]
  split_ifs <;> rfl

theorem putTask_enqueue (id id' : String) (task : TaskRecord) :
    (s.putTask id task).enqueue id' = (s.enqueue id').putTask id task := by
  rw [Stage.enqueue, Stage.enqueue, Stage.putTask]
  split_ifs <;> rfl

theorem loadTask_insertPendingTask (task : TaskRecord) (id : String) :
    (s.insertPendingTask task).loadTask db id =
      if task.taskId = id then some task else s.loadTask db id := by
  rw [Stage.insertPendingTask, loadTask_enqueue, loadTask_putTask]

theorem Queued.insertPendingTask (h : s.Queued db) (task : TaskRecord) :
    (s.insertPendingTask task).Queued db := by
  rw [Stage.insertPendingTask, putTask_enqueue]
  exact (h.enqueue _).putTask rfl fun _ => mem_pending_enqueue h _

/-- A task that is not pending may leave the queue. -/
theorem Queued.dequeue (h : s.Queued db) {id : String}
    (hid : ∀ task, s.loadTask db id = some task → task.status ≠ .pending) :
    (s.dequeue id).Queued db := by
  refine ⟨h.nodup.filter _, fun id' => ?_, h.key, fun id' task hload hstatus => ?_⟩
  · simp [Stage.dequeue, h.ids, and_comm]
  · have hne : id' ≠ id := by
      rintro rfl
      exact hid task hload hstatus
    simpa [Stage.dequeue, hne] using h.queued id' task hload hstatus

/-- A task that may be claimed now. -/
def Claimable (db : TaskStore) (s : Stage) (now : UInt64) (id : String) (task : TaskRecord) :
    Prop :=
  s.loadTask db id = some task ∧ task.status = .pending ∧ task.runAt ≤ now

theorem Queued.of_perm (h : s.Queued db) {pending : List String} (hperm : pending.Perm s.pending) :
    Queued db { s with pending := pending } where
  nodup := hperm.nodup_iff.mpr h.nodup
  ids id := (h.ids id).trans hperm.mem_iff.symm
  key := h.key
  queued id task hid hstatus := hperm.mem_iff.mpr (h.queued id task hid hstatus)

/-- The first task of the queue may leave it, if it is not pending. -/
theorem Queued.of_cons {id : String} {rest : List String}
    (h : Queued db { s with pending := id :: rest })
    (hid : ∀ task, s.loadTask db id = some task → task.status ≠ .pending) :
    Queued db { s with pending := rest, pendingIds := s.pendingIds.erase id } := by
  obtain ⟨hnotMem, hnodup⟩ := List.nodup_cons.mp h.nodup
  refine ⟨hnodup, fun id' => ?_, h.key, fun id' task hload hstatus => ?_⟩
  · have hids : id' ∈ s.pendingIds ↔ id' ∈ id :: rest := h.ids id'
    simp only [Finset.mem_erase, hids, mem_cons]
    constructor
    · rintro ⟨hne, heq | hrest⟩
      · exact absurd heq hne
      · exact hrest
    · intro hrest
      exact ⟨fun heq => hnotMem (heq ▸ hrest), .inr hrest⟩
  · rcases List.mem_cons.mp (h.queued id' task hload hstatus) with rfl | hrest
    · exact absurd hstatus (hid task hload)
    · exact hrest

end Stage

/-! ### Claims -/

section Commands

variable {db : TaskStore} {s : Stage}

/-- What going through `queue` comes to: no task in it may be claimed and the records stay, or one
is claimed and no other changes. -/
def Claims (db : TaskStore) (s : Stage) (workerId : String) (now : UInt64) (queue : List String)
    (r : Stage × Option TaskRecord) : Prop :=
  (r.2 = none ∧ (∀ id ∈ queue, ∀ task, ¬s.Claimable db now id task) ∧
    ∀ id, r.1.loadTask db id = s.loadTask db id) ∨
  ∃ id ∈ queue, ∃ task, s.Claimable db now id task ∧ r.2 = some (task.claim workerId now) ∧
    ∀ id', r.1.loadTask db id' =
      if task.taskId = id' then some (task.claim workerId now) else s.loadTask db id'

theorem Claims.cons {workerId : String} {now : UInt64} {id : String} {rest : List String}
    {s s' : Stage} {r : Stage × Option TaskRecord} (h : Claims db s' workerId now rest r)
    (hload : ∀ id', s'.loadTask db id' = s.loadTask db id')
    (hid : ∀ task, ¬s.Claimable db now id task) : Claims db s workerId now (id :: rest) r := by
  simp only [Claims, Stage.Claimable, hload] at h hid ⊢
  rcases h with ⟨hnone, hall, hsame⟩ | ⟨id', hid', task, hclaim, hsome, hchange⟩
  · exact .inl ⟨hnone, List.forall_mem_cons.mpr ⟨hid, hall⟩, hsame⟩
  · exact .inr ⟨id', mem_cons_of_mem _ hid', task, hclaim, hsome, hchange⟩

theorem claimNext_claims (workerId : String) (now : UInt64) (queue skipped : List String)
    (s : Stage) : Claims db s workerId now queue (claimNext db workerId now queue skipped s) := by
  induction queue generalizing skipped s with
  | nil => exact .inl ⟨rfl, nofun, fun _ => rfl⟩
  | cons id rest ih =>
    rw [claimNext]
    cases hload : s.loadTask db id with
    | none =>
      refine (ih skipped _).cons (fun _ => rfl) fun task hclaim => ?_
      exact absurd (hclaim.1.symm.trans hload) (Option.some_ne_none task)
    | some task =>
      have hself {task' : TaskRecord} (hclaim : s.Claimable db now id task') :
          task.status = .pending ∧ task.runAt ≤ now := by
        obtain rfl := Option.some.inj (hload.symm.trans hclaim.1)
        exact hclaim.2
      dsimp only
      split_ifs with hstatus hrun
      · exact (ih skipped _).cons (fun _ => rfl) fun task' hclaim => hstatus (hself hclaim).1
      · exact (ih _ s).cons (fun _ => rfl)
          fun task' hclaim => UInt64.not_le.mpr hrun (hself hclaim).2
      · exact .inr ⟨id, mem_cons_self, task,
          ⟨hload, not_not.mp hstatus, UInt64.not_lt.mp hrun⟩, rfl,
          fun _ => Stage.loadTask_putTask _ _ _⟩

/-- Tasks that wait go behind the rest of the queue, and what leaves it is not pending. -/
theorem claimNext_queued (workerId : String) (now : UInt64) {queue skipped : List String}
    {s : Stage} (h : Stage.Queued db { s with pending := queue ++ skipped }) :
    (claimNext db workerId now queue skipped s).1.Queued db := by
  induction queue generalizing skipped s with
  | nil => exact h
  | cons id rest ih =>
    rw [claimNext]
    cases hload : s.loadTask db id with
    | none => exact ih (h.of_cons fun task htask =>
        absurd (htask.symm.trans hload) (Option.some_ne_none task))
    | some task =>
      have hself (task' : TaskRecord) (htask : s.loadTask db id = some task') : task' = task :=
        Option.some.inj (htask.symm.trans hload)
      dsimp only
      split_ifs with hstatus hrun
      · exact ih (h.of_cons fun task' htask => hself task' htask ▸ hstatus)
      · refine ih (h.of_perm ?_)
        rw [← append_assoc]
        exact (perm_append_singleton id (rest ++ skipped)).trans (List.Perm.refl _)
      · have hkey : task.taskId = id := h.key id task hload
        have hput : Stage.Queued db (Stage.putTask { s with pending := id :: rest ++ skipped }
            task.taskId (task.claim workerId now)) := h.putTask rfl (by simp [TaskRecord.claim])
        refine hput.of_cons fun task' htask => ?_
        rw [Stage.loadTask_putTask, if_pos hkey] at htask
        obtain ⟨⟩ := htask
        simp [TaskRecord.claim]

/-! ### Every command -/

/-- **The loop of a tick** keeps what the insertion of a pending task without a record keeps. -/
theorem scheduleTasks_invariant {P : Stage → Prop}
    (hP : ∀ s task, P s → s.loadTask db task.taskId = none → task.status = .pending →
      P (s.insertPendingTask task))
    (h : P s) (maxTasks : Option ℕ) (tasks : List TaskRecord) (state : SchedulerState)
    (generated : List String) : P (scheduleTasks db maxTasks tasks s state generated).1 := by
  induction tasks generalizing s state generated with
  | nil => exact h
  | cons task tasks ih =>
    rw [scheduleTasks]
    split_ifs with hlimit hload hgenerated
    · exact h
    · exact ih h _ _
    · exact ih h _ _
    · exact ih (hP _ _ h (by simpa using hload) rfl) _ _

theorem Stage.Queued.progress (h : s.Queued db) (states : KeyStore String SchedulerState) :
    Queued db { s with schedulerStates := states } :=
  ⟨h.nodup, h.ids, h.key, h.queued⟩

theorem applyScheduleBatch_queued (h : s.Queued db) (schedulerId : String)
    (now intervalSecs : UInt64) (maxTasks : Option ℕ) (tasks : List TaskRecord) :
    (applyScheduleBatch db s schedulerId now intervalSecs maxTasks tasks).1.Queued db := by
  rw [applyScheduleBatch]
  split_ifs
  · exact h.progress _
  · exact Stage.Queued.progress (scheduleTasks_invariant (P := Stage.Queued db)
      (fun _ task h _ _ => h.insertPendingTask task) (h.progress _) maxTasks tasks _ []) _

/-- **One command.** In any batch it keeps the records, the queue and its ids in step. -/
theorem applyCommand_queued (h : s.Queued db) (command : QueueCommand) :
    (applyCommand db s command).1.Queued db := by
  cases command with
  | submit task => exact h.insertPendingTask _
  | submitBatch tasks =>
    exact List.foldlRecOn tasks submitTask h fun _ h task _ => h.insertPendingTask _
  | claim workerId now =>
    exact claimNext_queued workerId now (by simpa only [append_nil] using h)
  | complete id result =>
    rw [applyCommand]
    cases hload : s.loadTask db id with
    | none => exact h
    | some task => exact h.putTask (h.key id task hload) (by simp)
  | fail id reason retry =>
    rw [applyCommand]
    cases hload : s.loadTask db id with
    | none => exact h
    | some task =>
      cases retry with
      | true =>
        have hkey := h.key id task hload
        exact (h.enqueue id).putTask hkey fun _ => Stage.mem_pending_enqueue h id
      | false => exact h.putTask (h.key id task hload) (by simp)
  | kill id =>
    rw [applyCommand]
    cases hload : s.loadTask db id with
    | none => exact h.dequeue fun task htask =>
        absurd (htask.symm.trans hload) (Option.some_ne_none task)
    | some task =>
      have hput : (s.putTask id { task with status := .killed, lockBy := none }).Queued db :=
        h.putTask (h.key id task hload) (by simp)
      refine hput.dequeue fun task' htask => ?_
      rw [Stage.loadTask_putTask, if_pos rfl] at htask
      obtain ⟨⟩ := htask
      simp
  | reclaim timeoutSecs now =>
    exact List.foldlRecOn _ reclaimTask h fun _ h task _ => h.insertPendingTask _
  | scheduleBatch schedulerId now intervalSecs maxTasks tasks =>
    exact applyScheduleBatch_queued h schedulerId now intervalSecs maxTasks tasks

theorem Stage.Staged.matches (h : s.Staged db) : s.Matches db db s :=
  ⟨h, h, fun _ => rfl, rfl, rfl, rfl⟩

theorem Stage.Staged.applyCommand (h : s.Staged db) (command : QueueCommand) :
    (OpenraftTask.applyCommand db s command).1.Staged db :=
  (applyCommand_matches_of_scan h.matches command fun _ _ _ => rfl).1.staged

/-! ### The record of one task -/

theorem mem_stalledTasks {timeoutSecs now : UInt64} {task : TaskRecord} :
    task ∈ stalledTasks db timeoutSecs now s ↔
      ∃ id, db[id]? ≠ none ∧ s.loadTask db id = some task ∧ task.Stalled timeoutSecs now := by
  rw [stalledTasks_eq, mem_map]
  constructor
  · rintro ⟨⟨id, task'⟩, hmem, rfl⟩
    rw [Std.ExtTreeMap.mem_toList_iff_getElem?_eq_some, getElem?_stalledScan] at hmem
    split_ifs at hmem with hid
    obtain ⟨hload, hstalled⟩ := Option.filter_eq_some_iff.mp hmem
    exact ⟨id, hid, hload, of_decide_eq_true hstalled⟩
  · rintro ⟨id, hid, hload, hstalled⟩
    refine ⟨(id, task), Std.ExtTreeMap.mem_toList_iff_getElem?_eq_some.mpr ?_, rfl⟩
    rw [getElem?_stalledScan, if_neg hid]
    exact Option.filter_eq_some_iff.mpr ⟨hload, decide_eq_true hstalled⟩

/-- A scheduler generates only tasks that have no record. -/
theorem loadTask_scheduleTasks (id : String) (maxTasks : Option ℕ) (tasks : List TaskRecord)
    (state : SchedulerState) (generated : List String) :
    (scheduleTasks db maxTasks tasks s state generated).1.loadTask db id = s.loadTask db id ∨
      s.loadTask db id = none ∧ ∃ task,
        (scheduleTasks db maxTasks tasks s state generated).1.loadTask db id = some task ∧
          task.status = .pending := by
  refine scheduleTasks_invariant (P := fun s' => s'.loadTask db id = s.loadTask db id ∨
    s.loadTask db id = none ∧ ∃ task, s'.loadTask db id = some task ∧ task.status = .pending)
    (fun s' task h hnone hstatus => ?_) (.inl rfl) maxTasks tasks state generated
  have hinsert : (s'.insertPendingTask task).loadTask db id = _ :=
    Stage.loadTask_insertPendingTask task id
  split_ifs at hinsert with heq
  · -- The task that is generated had no record, before the tick either.
    rw [heq] at hnone
    refine .inr ⟨?_, task, hinsert, hstatus⟩
    rcases h with hsame | ⟨hnone', -⟩
    · exact hsame.symm.trans hnone
    · exact hnone'
  · rw [hinsert]
    exact h

/-- A command that queues a task: a submission, a retry, or a scan that finds it stalled. -/
def Requeues (id : String) (db : TaskStore) : QueueCommand → Prop
  | .submit task => task.taskId = id
  | .submitBatch tasks => ∃ task ∈ tasks, task.taskId = id
  | .fail id' _ retry => id' = id ∧ retry = true
  | .reclaim timeoutSecs now => ∃ task, db[id]? = some task ∧ task.Stalled timeoutSecs now
  | .claim .. | .complete .. | .kill _ | .scheduleBatch .. => False

/-- The status that a command writes into the record of a task. -/
def Sets (db : TaskStore) (id : String) : QueueCommand → TaskStatus → Prop
  | .submit task, status => task.taskId = id ∧ status = .pending
  | .submitBatch tasks, status => (∃ task ∈ tasks, task.taskId = id) ∧ status = .pending
  | .claim .., status => (∃ task, db[id]? = some task ∧ task.status = .pending) ∧ status = .running
  | .complete id' _, status => id' = id ∧ status = .done
  | .fail id' _ retry, status => id' = id ∧ status = if retry then .pending else .failed
  | .kill id', status => id' = id ∧ status = .killed
  | .reclaim timeoutSecs now, status =>
    (∃ task, db[id]? = some task ∧ task.Stalled timeoutSecs now) ∧ status = .pending
  | .scheduleBatch .., status => db[id]? = none ∧ status = .pending

theorem requeues_of_sets {id : String} (hid : db[id]? ≠ none) {command : QueueCommand}
    (h : Sets db id command .pending) : Requeues id db command := by
  cases command with
  | submit | submitBatch | reclaim => exact h.1
  | claim | complete | kill => exact absurd h.2 nofun
  | fail id' reason retry =>
    refine ⟨h.1, ?_⟩
    by_contra hretry
    exact absurd (h.2.trans (if_neg hretry)) nofun
  | scheduleBatch => exact absurd h.1 hid

/-- The record of a task after a list of insertions of pending tasks. -/
theorem loadTask_foldl_pending {f : Stage → TaskRecord → Stage}
    (hf : ∀ s task, ∃ task', f s task = s.insertPendingTask task' ∧ task'.taskId = task.taskId ∧
      task'.status = .pending)
    (id : String) (tasks : List TaskRecord) (s : Stage) :
    (tasks.foldl f s).loadTask db id = s.loadTask db id ∨ ∃ task,
      (tasks.foldl f s).loadTask db id = some task ∧ (∃ t ∈ tasks, t.taskId = id) ∧
        task.status = .pending := by
  induction tasks generalizing s with
  | nil => exact .inl rfl
  | cons t tasks ih =>
    obtain ⟨t', heq, hid, hstatus⟩ := hf s t
    have hinsert :
        (f s t).loadTask db id = if t.taskId = id then some t' else s.loadTask db id := by
      rw [heq, Stage.loadTask_insertPendingTask, hid]
    rcases ih (f s t) with hsame | ⟨task, htask, ⟨u, hu, huid⟩, hpending⟩
    · split_ifs at hinsert with hmem
      · exact .inr ⟨t', hsame.trans hinsert, ⟨t, mem_cons_self, hmem⟩, hstatus⟩
      · exact .inl (hsame.trans hinsert)
    · exact .inr ⟨task, htask, ⟨u, mem_cons_of_mem _ hu, huid⟩, hpending⟩

/-- **The record after a command** is the one before, or has the status that is written. -/
theorem applyCommand_status (h : s.Queued db) (hfresh : ∀ id, s.loadTask db id = db[id]?)
    (id : String) (command : QueueCommand) :
    (applyCommand db s command).1.loadTask db id = s.loadTask db id ∨ ∃ task,
      (applyCommand db s command).1.loadTask db id = some task ∧
        Sets db id command task.status := by
  have put {id' : String} {new : TaskRecord} (hnew : id' = id → Sets db id command new.status) :
      (s.putTask id' new).loadTask db id = s.loadTask db id ∨ ∃ task,
        (s.putTask id' new).loadTask db id = some task ∧ Sets db id command task.status := by
    rw [Stage.loadTask_putTask]
    split_ifs with heq
    · exact .inr ⟨new, rfl, hnew heq⟩
    · exact .inl rfl
  cases command with
  | submit new =>
    rw [applyCommand, submitTask, Stage.loadTask_insertPendingTask]
    split_ifs with heq
    · exact .inr ⟨_, rfl, heq, rfl⟩
    · exact .inl rfl
  | submitBatch tasks =>
    exact loadTask_foldl_pending (f := submitTask) (fun _ _ => ⟨_, rfl, rfl, rfl⟩) id tasks s
  | claim workerId now =>
    rcases claimNext_claims workerId now s.pending [] s with
      ⟨-, -, hsame⟩ | ⟨id', -, claimed, hclaim, -, hchange⟩
    · exact .inl (hsame id)
    · have hkey : claimed.taskId = id' := h.key id' claimed hclaim.1
      have hafter := hchange id
      split_ifs at hafter with heq
      · obtain rfl : id' = id := hkey.symm.trans heq
        exact .inr ⟨_, hafter, ⟨claimed, (hfresh id').symm.trans hclaim.1, hclaim.2.1⟩, rfl⟩
      · exact .inl hafter
  | complete id' result =>
    rw [applyCommand]
    cases s.loadTask db id' with
    | none => exact .inl rfl
    | some task' => exact put fun heq => ⟨heq, rfl⟩
  | fail id' reason retry =>
    rw [applyCommand]
    cases s.loadTask db id' with
    | none => exact .inl rfl
    | some task' =>
      cases retry with
      | true =>
        dsimp only
        rw [if_pos rfl, ← Stage.putTask_enqueue, Stage.loadTask_enqueue]
        exact put fun heq => ⟨heq, rfl⟩
      | false => exact put fun heq => ⟨heq, rfl⟩
  | kill id' =>
    rw [applyCommand]
    cases s.loadTask db id' with
    | none => exact .inl rfl
    | some task' => exact put fun heq => ⟨heq, rfl⟩
  | reclaim timeoutSecs now =>
    refine (loadTask_foldl_pending (f := reclaimTask) (fun _ _ => ⟨_, rfl, rfl, rfl⟩) id
      (stalledTasks db timeoutSecs now s) s).imp_right ?_
    rintro ⟨task, htask, ⟨t, ht, htid⟩, hpending⟩
    obtain ⟨id', -, hload, hstalled⟩ := mem_stalledTasks.mp ht
    obtain rfl : id' = id := (h.key id' t hload).symm.trans htid
    exact ⟨task, htask, ⟨t, (hfresh id').symm.trans hload, hstalled⟩, hpending⟩
  | scheduleBatch schedulerId now intervalSecs maxTasks tasks =>
    rw [applyCommand, applyScheduleBatch]
    split_ifs
    · exact .inl rfl
    · refine (loadTask_scheduleTasks (s := { s with schedulerStates := _ }) id maxTasks tasks _
        []).imp_right ?_
      rintro ⟨hnone, task, htask, hpending⟩
      exact ⟨task, htask, (hfresh id).symm.trans hnone, hpending⟩

end Commands

/-! ### Batches -/

variable {L M : Type}

namespace RocksStateMachine

/-- The records and the queue of a state machine are in step. -/
def Queued (sm : RocksStateMachine L M) : Prop := sm.startBatch.stage.Queued sm.db.tasks

theorem loadTask_startBatch (sm : RocksStateMachine L M) (id : String) :
    sm.startBatch.stage.loadTask sm.db.tasks id = sm.db.tasks[id]? := by
  rw [Stage.loadTask, startBatch, Std.ExtTreeMap.getElem?_empty]

theorem queued_initial : (initial : RocksStateMachine L M).Queued := by
  have hnone (id : String) : (initial : RocksStateMachine L M).startBatch.stage.loadTask
      (initial : RocksStateMachine L M).db.tasks id = none :=
    (loadTask_startBatch _ id).trans Std.ExtTreeMap.getElem?_empty
  exact ⟨nodup_nil, fun id => by simp [initial, startBatch],
    fun id task hid => absurd ((hnone id).symm.trans hid) nofun,
    fun id task hid => absurd ((hnone id).symm.trans hid) nofun⟩

/-- A batch leads to the state that its stage shows. -/
theorem apply_matches (sm : RocksStateMachine L M) (entries : List (Entry L M)) :
    (entries.foldl (applyEntry sm.db.tasks) sm.startBatch).stage.Matches sm.db.tasks
      (sm.apply entries).1.db.tasks (sm.apply entries).1.startBatch.stage := by
  have hstart : sm.startBatch.stage.Staged sm.db.tasks := sm.loadTask_startBatch
  suffices h : (entries.foldl (applyEntry sm.db.tasks) sm.startBatch).stage.Staged sm.db.tasks from
    h.matches.rebase
  generalize sm.startBatch = b at hstart
  induction entries generalizing b with
  | nil => exact hstart
  | cons entry entries ih =>
    obtain ⟨logId, payload⟩ := entry
    cases payload with
    | blank | membership mem => exact ih _ hstart
    | normal command => exact ih _ (hstart.applyCommand command)

/-- **One batch.** It keeps the records and the queue in step. -/
theorem Queued.apply {sm : RocksStateMachine L M} (h : sm.Queued) (entries : List (Entry L M)) :
    (sm.apply entries).1.Queued := by
  refine Stage.Queued.of_matches ?_ (sm.apply_matches entries)
  rw [Queued] at h
  generalize sm.startBatch = b at h ⊢
  induction entries generalizing b with
  | nil => exact h
  | cons entry entries ih =>
    obtain ⟨logId, payload⟩ := entry
    cases payload with
    | blank | membership mem => exact ih _ h
    | normal command => exact ih _ (applyCommand_queued h command)

end RocksStateMachine

/-! ### Commands in batches of their own -/

/-- A command that was applied in a batch of its own, with its response. -/
structure Applied (L : Type) where
  logId : L
  command : QueueCommand
  response : QueueResponse

/-- The command handed a task out. -/
def Applied.Claims (e : Applied L) (id : String) : Prop :=
  ∃ task, e.response = .claimed (some task) ∧ task.taskId = id

/-- Apply one command in a batch of its own. -/
def CommandStep (sm : RocksStateMachine L M) (e : Applied L) (sm' : RocksStateMachine L M) : Prop :=
  sm.apply [⟨e.logId, .normal e.command⟩] = (sm', [e.response])

namespace CommandStep

variable {sm sm' : RocksStateMachine L M} {e : Applied L}

theorem of_apply (sm : RocksStateMachine L M) (logId : L) (command : QueueCommand) :
    CommandStep sm ⟨logId, command, (applyCommand sm.db.tasks sm.startBatch.stage command).2⟩
      (sm.apply [⟨logId, .normal command⟩]).1 := rfl

theorem response (h : CommandStep sm e sm') :
    (applyCommand sm.db.tasks sm.startBatch.stage e.command).2 = e.response :=
  (List.cons.inj (Prod.mk.inj h).2).1

theorem stage_matches (h : CommandStep sm e sm') :
    (applyCommand sm.db.tasks sm.startBatch.stage e.command).1.Matches sm.db.tasks sm'.db.tasks
      sm'.startBatch.stage := by
  obtain rfl : _ = sm' := (Prod.mk.inj h).1
  exact sm.apply_matches [⟨e.logId, .normal e.command⟩]

theorem getElem?_tasks (h : CommandStep sm e sm') (id : String) :
    sm'.db.tasks[id]? =
      (applyCommand sm.db.tasks sm.startBatch.stage e.command).1.loadTask sm.db.tasks id :=
  (sm'.loadTask_startBatch id).symm.trans (h.stage_matches.load id).symm

theorem queued (h : CommandStep sm e sm') (hsm : sm.Queued) : sm'.Queued :=
  (applyCommand_queued hsm e.command).of_matches h.stage_matches

theorem status (h : CommandStep sm e sm') (hsm : sm.Queued) (id : String) :
    sm'.db.tasks[id]? = sm.db.tasks[id]? ∨
      ∃ task, sm'.db.tasks[id]? = some task ∧ Sets sm.db.tasks id e.command task.status := by
  rw [h.getElem?_tasks, ← sm.loadTask_startBatch]
  exact applyCommand_status hsm sm.loadTask_startBatch id e.command

end CommandStep

/-- What a claim does: it returns a task if and only if one is pending and due, which has become a
running one of the worker. -/
structure ClaimsDueTask (sm : RocksStateMachine L M) (workerId : String) (now : UInt64)
    (claimed : Option TaskRecord) (sm' : RocksStateMachine L M) : Prop where
  isSome_iff : claimed.isSome ↔
    ∃ (id : String) (task : TaskRecord), sm.db.tasks[id]? = some task ∧ task.status = .pending ∧
      task.runAt ≤ now
  taken : ∀ task', claimed = some task' →
    (∃ task, sm.db.tasks[task'.taskId]? = some task ∧ task.status = .pending ∧ task.runAt ≤ now ∧
      task' = { task with
        status := .running, lockBy := some workerId, claimedAt := some now
        attempts := task'.attempts } ∧
      task'.attempts.toNat = min (task.attempts.toNat + 1) (2 ^ 64 - 1)) ∧
    sm'.db.tasks[task'.taskId]? = some task'

theorem toNat_saturatingSucc (a : UInt64) :
    (saturatingSucc a).toNat = min (a.toNat + 1) (2 ^ 64 - 1) := by
  have hlt := a.toNat_lt
  rw [saturatingSucc]
  split_ifs with hmax
  · rw [hmax]
    rfl
  · have hne : a.toNat ≠ 2 ^ 64 - 1 := fun heq => hmax (UInt64.toNat_inj.mp heq)
    rw [UInt64.toNat_add, UInt64.toNat_one]
    omega

/-- **A claim.** From any state in which records and queue are in step. -/
theorem CommandStep.claimsDueTask {sm sm' : RocksStateMachine L M} {logId : L} {workerId : String}
    {now : UInt64} {response : QueueResponse} (hsm : sm.Queued)
    (h : CommandStep sm ⟨logId, .claim workerId now, response⟩ sm') :
    ∃ claimed, response = .claimed claimed ∧ ClaimsDueTask sm workerId now claimed sm' := by
  have hload := sm.loadTask_startBatch
  refine ⟨_, h.response.symm, ?_⟩
  have hclaims : Claims sm.db.tasks sm.startBatch.stage workerId now sm.startBatch.stage.pending
      (claimNext sm.db.tasks workerId now sm.startBatch.stage.pending [] sm.startBatch.stage) :=
    claimNext_claims workerId now _ [] _
  rcases hclaims with
    ⟨hnone, hall, -⟩ | ⟨id, hid, task, ⟨htask, hstatus, hrun⟩, hsome, hchange⟩
  · rw [hnone]
    refine ⟨iff_of_false nofun ?_, nofun⟩
    rintro ⟨id, task, htask, hstatus, hrun⟩
    rw [← hload] at htask
    exact hall id (hsm.queued id task htask hstatus) task ⟨htask, hstatus, hrun⟩
  · rw [hsome]
    have hkey : task.taskId = id := hsm.key id task htask
    have hafter := (h.getElem?_tasks id).trans (hchange id)
    rw [if_pos hkey] at hafter
    rw [hload] at htask
    refine ⟨iff_of_true rfl ⟨id, task, htask, hstatus, hrun⟩, ?_⟩
    rintro _ ⟨⟩
    refine ⟨⟨task, ?_, hstatus, hrun, rfl, toNat_saturatingSucc _⟩, ?_⟩
    · exact (congrArg (sm.db.tasks[·]?) hkey).trans htask
    · exact (congrArg (sm'.db.tasks[·]?) hkey).trans hafter

/-! ### Runs -/

/-- Apply a list of commands: what was applied, and the state reached. -/
def RocksStateMachine.applyCommands (sm : RocksStateMachine L M) :
    List (L × QueueCommand) → List (Applied L) × RocksStateMachine L M
  | [] => ([], sm)
  | (logId, command) :: commands =>
    let (sm', responses) := sm.apply [⟨logId, .normal command⟩]
    let (es, sm') := sm'.applyCommands commands
    (responses.map (⟨logId, command, ·⟩) ++ es, sm')

/-- Every list of commands has its run from every state. -/
theorem run_applyCommands (sm : RocksStateMachine L M) (commands : List (L × QueueCommand)) :
    Run CommandStep sm (sm.applyCommands commands).1 (sm.applyCommands commands).2 := by
  induction commands generalizing sm with
  | nil => exact .nil
  | cons c commands ih => exact (ih _).cons (.of_apply sm c.1 c.2)

variable {es : List (Applied L)} {sm : RocksStateMachine L M}

theorem queued_of_run (run : Run CommandStep .initial es sm) : sm.Queued :=
  run.invariant RocksStateMachine.queued_initial fun _ _ _ hsm h => h.queued hsm

/-- Between events `i` and `k` a command happened of which `P` holds in the state before it. -/
def Between (M : Type) (P : TaskStore → QueueCommand → Prop) (es : List (Applied L)) (i k : ℕ) :
    Prop :=
  ∃ j e sm, i < j ∧ j < k ∧ es[j]? = some e ∧
    Run CommandStep (.initial : RocksStateMachine L M) (es.take j) sm ∧ P sm.db.tasks e.command

namespace Between

variable {P : TaskStore → QueueCommand → Prop} {i k : ℕ}

theorem of_append {es' : List (Applied L)} (h : Between M P es i k) :
    Between M P (es ++ es') i k := by
  obtain ⟨j, e, sm, hij, hjk, hj, run, hP⟩ := h
  have hlt := (List.getElem?_eq_some_iff.mp hj).1
  refine ⟨j, e, sm, hij, hjk, (getElem?_append_left hlt).trans hj, ?_, hP⟩
  rwa [take_append_of_le_length hlt.le]

theorem of_take (h : Between M P (es.take k) i k) : Between M P es i k := by
  have happend : Between M P (es.take k ++ es.drop k) i k := h.of_append
  rwa [take_append_drop] at happend

theorem mono {k' : ℕ} (h : Between M P es i k) (hk : k ≤ k') : Between M P es i k' := by
  obtain ⟨j, e, sm, hij, hjk, hrest⟩ := h
  exact ⟨j, e, sm, hij, hjk.trans_le hk, hrest⟩

theorem last {e : Applied L} (run : Run CommandStep (.initial : RocksStateMachine L M) es sm)
    (hi : i < es.length) (hP : P sm.db.tasks e.command) :
    Between M P (es ++ [e]) i (es.length + 1) := by
  refine ⟨es.length, e, sm, hi, Nat.lt_succ_self _, getElem?_snoc.mpr (.inr ⟨rfl, rfl⟩), ?_, hP⟩
  rwa [take_left]

end Between

theorem eq_claim_of_claimed {db : TaskStore} {s : Stage} {command : QueueCommand}
    {claimed : Option TaskRecord} (h : (applyCommand db s command).2 = .claimed claimed) :
    ∃ workerId now, command = .claim workerId now := by
  cases command with
  | claim workerId now => exact ⟨workerId, now, rfl⟩
  | submit | submitBatch | reclaim => cases h
  | complete | kill =>
    simp only [applyCommand] at h
    split at h
    · cases h
    · cases h
  | fail =>
    simp only [applyCommand] at h
    split at h
    · split_ifs at h
    · cases h
  | scheduleBatch =>
    simp only [applyCommand, applyScheduleBatch] at h
    split_ifs at h
    cases h

/-- A claim leaves the task that it hands out running. -/
theorem CommandStep.running {sm' : RocksStateMachine L M} {e : Applied L} (hsm : sm.Queued)
    (h : CommandStep sm e sm') {id : String} (hclaims : e.Claims id) :
    (∃ task, sm.db.tasks[id]? = some task ∧ task.status = .pending) ∧
      ∃ task, sm'.db.tasks[id]? = some task ∧ task.status = .running := by
  obtain ⟨logId, command, response⟩ := e
  obtain ⟨task', rfl, rfl⟩ := hclaims
  obtain ⟨workerId, now, rfl⟩ := eq_claim_of_claimed h.response
  obtain ⟨claimed, heq, hclaimed⟩ := h.claimsDueTask hsm
  obtain rfl := QueueResponse.claimed.inj heq
  obtain ⟨⟨task, htask, hstatus, -, hrecord, -⟩, hafter⟩ := hclaimed.taken task' rfl
  exact ⟨⟨task, htask, hstatus⟩, task', hafter, by rw [hrecord]⟩

variable {P : String → TaskStore → QueueCommand → Prop} {S : TaskStatus → Prop}

/-- **After a claim** a command of `P` happened since, or the status is still in `S`: only the
commands of `P` lead out of it. -/
theorem between_or_status (hrunning : S .running)
    (hsets : ∀ id (db : TaskStore) command status, db[id]? ≠ none → Sets db id command status →
      S status ∨ P id db command) (run : Run CommandStep (.initial : RocksStateMachine L M) es sm)
    {i : ℕ} {c : Applied L} {id : String} (hi : es[i]? = some c) (hclaims : c.Claims id) :
    Between M (P id) es i es.length ∨ ∃ task, sm.db.tasks[id]? = some task ∧ S task.status := by
  induction run with
  | nil => simp at hi
  | @snoc es sm sm' e run hstep ih =>
    have hsm := queued_of_run run
    rw [length_append, length_singleton]
    rcases getElem?_snoc.mp hi with hi | ⟨rfl, rfl⟩
    · rcases ih hi with hbetween | ⟨task, htask, hstatus⟩
      · exact .inl (hbetween.of_append.mono (Nat.le_succ _))
      · rcases hstep.status hsm id with hsame | ⟨task', htask', hset⟩
        · exact .inr ⟨task, hsame.trans htask, hstatus⟩
        · rcases hsets id _ _ _ (htask ▸ nofun) hset with hS | hP
          · exact .inr ⟨task', htask', hS⟩
          · exact .inl (.last run (List.getElem?_eq_some_iff.mp hi).1 hP)
    · obtain ⟨-, task, htask, hstatus⟩ := hstep.running hsm hclaims
      exact .inr ⟨task, htask, hstatus ▸ hrunning⟩

theorem between_or_status_at (hrunning : S .running)
    (hsets : ∀ id (db : TaskStore) command status, db[id]? ≠ none → Sets db id command status →
      S status ∨ P id db command) {k : ℕ}
    (run : Run CommandStep (.initial : RocksStateMachine L M) (es.take k) sm) {i : ℕ} (hik : i < k)
    {c : Applied L} {id : String} (hi : es[i]? = some c) (hclaims : c.Claims id) :
    Between M (P id) es i k ∨ ∃ task, sm.db.tasks[id]? = some task ∧ S task.status := by
  have hlen : (es.take k).length ≤ k := length_take_le k es
  have hi' : (es.take k)[i]? = some c := (getElem?_take_of_lt hik).trans hi
  exact (between_or_status hrunning hsets run hi' hclaims).imp_left
    fun hbetween => (hbetween.mono hlen).of_take

/-- **No queued task is lost or handed out twice.** After any commands, each in a batch of its own:
the queue has no duplicates and every pending task, and its set of ids is right; a claim returns a
task if and only if one is pending and due, and it becomes a running one of the worker; between two
claims of one task a command returned it to the queue. -/
theorem queue_run (run : Run CommandStep (.initial : RocksStateMachine L M) es sm) :
    (sm.pending.Nodup ∧ (∀ id, id ∈ sm.pendingIds ↔ id ∈ sm.pending) ∧
      ∀ id task, sm.db.tasks[id]? = some task → task.status = .pending → id ∈ sm.pending) ∧
    (∀ logId workerId now, ∃ claimed sm',
      CommandStep sm ⟨logId, .claim workerId now, .claimed claimed⟩ sm' ∧
        ClaimsDueTask sm workerId now claimed sm') ∧
    ∀ i k e e' id, i < k → es[i]? = some e → e.Claims id → es[k]? = some e' → e'.Claims id →
      Between M (Requeues id) es i k := by
  have hsm := queued_of_run run
  refine ⟨⟨hsm.nodup, hsm.ids, fun id task htask => ?_⟩, fun logId workerId now => ?_, ?_⟩
  · exact hsm.queued id task ((sm.loadTask_startBatch id).trans htask)
  · have hstep := CommandStep.of_apply sm logId (.claim workerId now)
    obtain ⟨claimed, hclaimed, hdue⟩ := hstep.claimsDueTask hsm
    exact ⟨claimed, _, hclaimed ▸ hstep, hdue⟩
  · intro i k e e' id hik hi hclaims hk hclaims'
    obtain ⟨smk, smk', hrun, hstep, -⟩ := run.at_event hk
    obtain ⟨⟨task, htask, hstatus⟩, -⟩ := hstep.running (queued_of_run hrun) hclaims'
    have hcases := between_or_status_at (S := (· ≠ .pending)) (P := Requeues) nofun
      (fun id db command status hid hset => ?_) hrun hik hi hclaims
    · rcases hcases with hbetween | ⟨task', htask', hstatus'⟩
      · exact hbetween
      · obtain ⟨⟩ := htask'.symm.trans htask
        exact absurd hstatus hstatus'
    · by_cases hpending : status = .pending
      · exact .inr (requeues_of_sets hid (hpending ▸ hset))
      · exact .inl hpending

/-- A task that is submitted, claimed, failed with a retry and claimed again. -/
def retryLog : List (ℕ × QueueCommand) :=
  [(1, .submit (.pending "t" [] 0)), (2, .claim "w" 5), (3, .fail "t" "lost" true),
    (4, .claim "w" 7)]

/-- The task of `retryLog` in the hands of its worker. -/
def retriedTask (attempts claimedAt : UInt64) (result : Option TaskResult) : TaskRecord :=
  { TaskRecord.pending "t" [] 0 with
    attempts := attempts, status := .running, lockBy := some "w", result := result
    claimedAt := some claimedAt }

/-- The run of a retried task: its two claims have the failure between them. -/
theorem queue_run_retry :
    ∃ es sm e e', Run CommandStep (.initial : RocksStateMachine ℕ Unit) es sm ∧
    es.map (fun e => (e.logId, e.command)) = retryLog ∧
      es[1]? = some e ∧ e.Claims "t" ∧ es[3]? = some e' ∧ e'.Claims "t" ∧
      Between Unit (Requeues "t") es 1 3 := by
  have run := run_applyCommands (.initial : RocksStateMachine ℕ Unit) retryLog
  refine ⟨_, _, _, _, run, rfl, rfl, ?_, rfl, ?_,
    (queue_run run).2.2 1 3 _ _ "t" (by decide) rfl ?_ rfl ?_⟩
  · exact ⟨retriedTask 1 5 none, by decide, rfl⟩
  · exact ⟨retriedTask 2 7 (some ⟨false, [], some "lost"⟩), by decide, rfl⟩
  · exact ⟨retriedTask 1 5 none, by decide, rfl⟩
  · exact ⟨retriedTask 2 7 (some ⟨false, [], some "lost"⟩), by decide, rfl⟩

end RustExample.OpenraftTask
