import RustExample.OpenraftTask.StateMachine

/-!
# Batches and the staged records

Replicas cut the log into batches differently. Every command but one reads the records through
the staging layer of its batch, and does the same in a batch of its own. The scan for stalled
tasks goes through the database and only replaces what it finds there by staged records: a task
that was submitted and claimed in the same batch is not found.
-/

namespace RustExample.OpenraftTask

open List

/-! ### Stages that stand for the same state -/

namespace Stage

/-- The records read through the stage are those after the write of its batch. -/
def Staged (db : TaskStore) (s : Stage) : Prop :=
  ∀ id, s.loadTask db id = (db.writeAll s.batch)[id]?

/-- Two stages, over their databases, show the same records, and have the same queue and the same
progress of the schedulers. -/
structure Matches (db : TaskStore) (s : Stage) (db' : TaskStore) (s' : Stage) : Prop where
  staged : s.Staged db
  staged' : s'.Staged db'
  load : ∀ id, s.loadTask db id = s'.loadTask db' id
  pending : s.pending = s'.pending
  pendingIds : s.pendingIds = s'.pendingIds
  schedulerStates : s.schedulerStates = s'.schedulerStates

variable {db db' : TaskStore} {s s' : Stage}

theorem loadTask_putTask (id : String) (task : TaskRecord) (id' : String) :
    (s.putTask id task).loadTask db id' = if id = id' then some task else s.loadTask db id' := by
  simp only [loadTask, putTask, KeyStore.getElem?_put]
  split_ifs <;> rfl

theorem Staged.putTask (h : s.Staged db) (id : String) (task : TaskRecord) :
    (s.putTask id task).Staged db := by
  intro id'
  rw [loadTask_putTask, Stage.putTask, KeyStore.writeAll_append, KeyStore.writeAll_cons,
    KeyStore.writeAll_nil, KeyStore.getElem?_write, h id']

theorem Matches.written (h : s.Matches db db' s') :
    db.writeAll s.batch = db'.writeAll s'.batch := by
  ext id : 1
  rw [← h.staged, ← h.staged', h.load]

theorem Matches.putTask (h : s.Matches db db' s') (id : String) (task : TaskRecord) :
    (s.putTask id task).Matches db db' (s'.putTask id task) := by
  refine ⟨h.staged.putTask id task, h.staged'.putTask id task, fun id' => ?_, h.pending,
    h.pendingIds, h.schedulerStates⟩
  rw [loadTask_putTask, loadTask_putTask, h.load]

theorem Matches.queue (h : s.Matches db db' s') (pending : List String)
    (pendingIds : Finset String) :
    Matches db { s with pending, pendingIds } db' { s' with pending, pendingIds } :=
  ⟨h.staged, h.staged', h.load, rfl, rfl, h.schedulerStates⟩

theorem Matches.progress (h : s.Matches db db' s')
    (schedulerStates : KeyStore String SchedulerState) :
    Matches db { s with schedulerStates } db' { s' with schedulerStates } :=
  ⟨h.staged, h.staged', h.load, h.pending, h.pendingIds, rfl⟩

theorem Matches.enqueue (h : s.Matches db db' s') (id : String) :
    (s.enqueue id).Matches db db' (s'.enqueue id) := by
  rw [Stage.enqueue, Stage.enqueue, h.pending, h.pendingIds]
  split_ifs
  · exact h
  · exact h.queue _ _

theorem Matches.dequeue (h : s.Matches db db' s') (id : String) :
    (s.dequeue id).Matches db db' (s'.dequeue id) := by
  rw [Stage.dequeue, Stage.dequeue, h.pending, h.pendingIds]
  exact h.queue _ _

theorem Matches.insertPendingTask (h : s.Matches db db' s') (task : TaskRecord) :
    (s.insertPendingTask task).Matches db db' (s'.insertPendingTask task) :=
  (h.putTask _ _).enqueue _

theorem Matches.foldl {f : Stage → TaskRecord → Stage}
    (hf : ∀ {s s'} task, Matches db s db' s' → Matches db (f s task) db' (f s' task))
    (h : s.Matches db db' s') (tasks : List TaskRecord) :
    (tasks.foldl f s).Matches db db' (tasks.foldl f s') := by
  induction tasks generalizing s s' with
  | nil => exact h
  | cons task tasks ih => exact ih (hf task h)

end Stage

/-! ### The commands -/

section Commands

variable {db db' : TaskStore} {s s' : Stage}

theorem claimNext_matches (h : s.Matches db db' s') (workerId : String) (now : UInt64)
    (queue skipped : List String) :
    (claimNext db workerId now queue skipped s).1.Matches db db'
        (claimNext db' workerId now queue skipped s').1 ∧
      (claimNext db workerId now queue skipped s).2 =
        (claimNext db' workerId now queue skipped s').2 := by
  induction queue generalizing skipped s s' with
  | nil => exact ⟨⟨h.staged, h.staged', h.load, rfl, h.pendingIds, h.schedulerStates⟩, rfl⟩
  | cons id rest ih =>
    have herase : Stage.Matches db { s with pendingIds := s.pendingIds.erase id } db'
        { s' with pendingIds := s'.pendingIds.erase id } :=
      ⟨h.staged, h.staged', h.load, h.pending, by rw [h.pendingIds], h.schedulerStates⟩
    rw [claimNext, claimNext, h.load id]
    cases s'.loadTask db' id with
    | none => exact ih herase skipped
    | some task =>
      dsimp only
      split_ifs with hstatus hrun
      · exact ih herase skipped
      · exact ih h (skipped ++ [id])
      · rw [h.pendingIds]
        exact ⟨(h.putTask _ _).queue _ _, rfl⟩

theorem scheduleTasks_matches (h : s.Matches db db' s') (maxTasks : Option ℕ)
    (tasks : List TaskRecord) (state : SchedulerState) (generated : List String) :
    (scheduleTasks db maxTasks tasks s state generated).1.Matches db db'
        (scheduleTasks db' maxTasks tasks s' state generated).1 ∧
      (scheduleTasks db maxTasks tasks s state generated).2 =
        (scheduleTasks db' maxTasks tasks s' state generated).2 := by
  induction tasks generalizing s s' state generated with
  | nil => exact ⟨h, rfl⟩
  | cons task tasks ih =>
    rw [scheduleTasks, scheduleTasks, h.load task.taskId]
    split_ifs
    · exact ⟨h, rfl⟩
    · exact ih h _ _
    · exact ih h _ _
    · exact ih (h.insertPendingTask _) _ _

theorem finishTick_matches {p q : Stage × SchedulerState × List String}
    (h : p.1.Matches db db' q.1) (hrest : p.2 = q.2) (schedulerId : String) (now : UInt64) :
    (finishTick schedulerId now p).1.Matches db db' (finishTick schedulerId now q).1 ∧
      (finishTick schedulerId now p).2 = (finishTick schedulerId now q).2 := by
  obtain ⟨s, state, generated⟩ := p
  obtain ⟨s', _⟩ := q
  obtain rfl := hrest
  rw [finishTick, finishTick, h.schedulerStates]
  exact ⟨h.progress _, rfl⟩

theorem applyScheduleBatch_matches (h : s.Matches db db' s') (schedulerId : String)
    (now intervalSecs : UInt64) (maxTasks : Option ℕ) (tasks : List TaskRecord) :
    (applyScheduleBatch db s schedulerId now intervalSecs maxTasks tasks).1.Matches db db'
        (applyScheduleBatch db' s' schedulerId now intervalSecs maxTasks tasks).1 ∧
      (applyScheduleBatch db s schedulerId now intervalSecs maxTasks tasks).2 =
        (applyScheduleBatch db' s' schedulerId now intervalSecs maxTasks tasks).2 := by
  rw [applyScheduleBatch, applyScheduleBatch, h.schedulerStates]
  split_ifs
  · exact ⟨h.progress _, rfl⟩
  · obtain ⟨hloop, hrest⟩ := scheduleTasks_matches (h.progress _) maxTasks tasks _ []
    exact finishTick_matches hloop hrest schedulerId now

/-! ### The scan for stalled tasks -/

/-- A stalled task that the batch has staged, and that the database does not have. -/
def Overlooks (db : TaskStore) (s : Stage) : QueueCommand → Prop
  | .reclaim timeoutSecs now =>
    ∃ (id : String) (task : TaskRecord), s.stagedTasks[id]? = some task ∧ db[id]? = none ∧
      task.Stalled timeoutSecs now
  | .submit _ | .submitBatch _ | .claim .. | .complete .. | .fail .. | .kill _
  | .scheduleBatch .. => False

/-- The records of the database that a scan finds stalled. -/
def stalledScan (db : TaskStore) (timeoutSecs now : UInt64) (s : Stage) : TaskStore :=
  db.filterMap fun id task =>
    (some (s.stagedTasks[id]?.getD task)).filter fun (task : TaskRecord) =>
      task.Stalled timeoutSecs now

theorem stalledTasks_eq (timeoutSecs now : UInt64) :
    stalledTasks db timeoutSecs now s = (stalledScan db timeoutSecs now s).toList.map Prod.snd := by
  rw [stalledTasks, stalledScan, Std.ExtTreeMap.toList_filterMap, map_filterMap]
  congr 1
  funext p
  simp [Option.filter_some]

/-- A scan finds the stalled tasks of the database, as the batch reads them. -/
theorem getElem?_stalledScan (timeoutSecs now : UInt64) (id : String) :
    (stalledScan db timeoutSecs now s)[id]? =
      if db[id]? = none then none
      else (s.loadTask db id).filter fun task => task.Stalled timeoutSecs now := by
  rw [stalledScan, Std.ExtTreeMap.getElem?_filterMap', Stage.loadTask]
  cases db[id]? with
  | none => rfl
  | some task => cases s.stagedTasks[id]? <;> simp

/-- The scan of a batch finds no other tasks than that of a batch of its own, and as many exactly
when it overlooks none. -/
theorem stalledTasks_eq_iff (h : s.Matches db db' s') (hfresh : s'.stagedTasks = ∅)
    (timeoutSecs now : UInt64) :
    ((stalledTasks db timeoutSecs now s).length = (stalledTasks db' timeoutSecs now s').length ↔
        ¬Overlooks db s (.reclaim timeoutSecs now)) ∧
      (¬Overlooks db s (.reclaim timeoutSecs now) →
        stalledTasks db timeoutSecs now s = stalledTasks db' timeoutSecs now s') := by
  have hload (id : String) : s'.loadTask db' id = db'[id]? := by
    rw [Stage.loadTask, hfresh, Std.ExtTreeMap.getElem?_empty]
  have hscan' (id : String) : (stalledScan db' timeoutSecs now s')[id]? =
      (s.loadTask db id).filter fun task => task.Stalled timeoutSecs now := by
    rw [getElem?_stalledScan, h.load, hload]
    split_ifs with hid
    · rw [hid]
      rfl
    · rfl
  have hsub (id : String) (task : TaskRecord)
      (hid : (stalledScan db timeoutSecs now s)[id]? = some task) :
      (stalledScan db' timeoutSecs now s')[id]? = some task := by
    rw [getElem?_stalledScan] at hid
    split_ifs at hid
    rw [hscan', hid]
  have heq : stalledScan db timeoutSecs now s = stalledScan db' timeoutSecs now s' ↔
      ¬Overlooks db s (.reclaim timeoutSecs now) := by
    constructor
    · rintro hscan ⟨id, task, hstaged, hdb, hstalled⟩
      have hid := congrArg (·[id]?) hscan
      simp [getElem?_stalledScan, hdb, hscan', Stage.loadTask, hstaged, hstalled,
        Option.filter_some] at hid
    · intro hsees
      ext id : 1
      rw [getElem?_stalledScan, hscan']
      split_ifs with hdb
      · rw [Stage.loadTask, hdb]
        cases hstaged : s.stagedTasks[id]? with
        | none => rfl
        | some task =>
          have hstalled : ¬task.Stalled timeoutSecs now :=
            fun hstalled => hsees ⟨id, task, hstaged, hdb, hstalled⟩
          simp [hstalled, Option.filter_some]
      · rfl
  refine ⟨⟨fun hlen => heq.mp (KeyStore.eq_of_subset_of_length hsub ?_), fun hsees => ?_⟩,
    fun hsees => ?_⟩
  · rw [stalledTasks_eq, stalledTasks_eq, length_map, length_map] at hlen
    exact Nat.le_of_eq hlen.symm
  · rw [stalledTasks_eq, stalledTasks_eq, heq.mpr hsees]
  · rw [stalledTasks_eq, stalledTasks_eq, heq.mpr hsees]

/-- From stages of the same state a command leads to such stages and answers the same, if its scan
finds the same. -/
theorem applyCommand_matches_of_scan (h : s.Matches db db' s') (command : QueueCommand)
    (hscan : ∀ timeoutSecs now, command = .reclaim timeoutSecs now →
      stalledTasks db timeoutSecs now s = stalledTasks db' timeoutSecs now s') :
    (applyCommand db s command).1.Matches db db' (applyCommand db' s' command).1 ∧
      (applyCommand db s command).2 = (applyCommand db' s' command).2 := by
  cases command with
  | submit task => exact ⟨h.insertPendingTask _, rfl⟩
  | submitBatch tasks =>
    exact ⟨Stage.Matches.foldl (f := submitTask) (fun _ h => h.insertPendingTask _) h tasks, rfl⟩
  | claim workerId now =>
    have hclaim := claimNext_matches h workerId now s'.pending []
    rw [applyCommand, applyCommand, h.pending]
    exact ⟨hclaim.1, congrArg QueueResponse.claimed hclaim.2⟩
  | complete id result =>
    rw [applyCommand, applyCommand, h.load id]
    cases s'.loadTask db' id with
    | none => exact ⟨h, rfl⟩
    | some task => exact ⟨h.putTask _ _, rfl⟩
  | fail id reason retry =>
    rw [applyCommand, applyCommand, h.load id]
    cases s'.loadTask db' id with
    | none => exact ⟨h, rfl⟩
    | some task =>
      cases retry with
      | true => exact ⟨(h.enqueue id).putTask _ _, rfl⟩
      | false => exact ⟨h.putTask _ _, rfl⟩
  | kill id =>
    rw [applyCommand, applyCommand, h.load id]
    cases s'.loadTask db' id with
    | none => exact ⟨h.dequeue id, rfl⟩
    | some task => exact ⟨(h.putTask _ _).dequeue id, rfl⟩
  | reclaim timeoutSecs now =>
    rw [applyCommand, applyCommand, hscan timeoutSecs now rfl]
    exact ⟨Stage.Matches.foldl (f := reclaimTask) (fun _ h => h.insertPendingTask _) h _, rfl⟩
  | scheduleBatch schedulerId now intervalSecs maxTasks tasks =>
    exact applyScheduleBatch_matches h schedulerId now intervalSecs maxTasks tasks

/-- **One command** does and answers in a batch what it does in one of its own, unless it is a scan
that overlooks a staged task; then the answers differ. -/
theorem applyCommand_matches (h : s.Matches db db' s') (hfresh : s'.stagedTasks = ∅)
    (command : QueueCommand) :
    ((applyCommand db s command).2 = (applyCommand db' s' command).2 ↔
        ¬Overlooks db s command) ∧
      (¬Overlooks db s command →
        (applyCommand db s command).1.Matches db db' (applyCommand db' s' command).1) := by
  have hsame (hsees : ¬Overlooks db s command) := applyCommand_matches_of_scan h command
    fun timeoutSecs now hcommand =>
      (stalledTasks_eq_iff h hfresh timeoutSecs now).2 (hcommand ▸ hsees)
  refine ⟨⟨fun hresponse => ?_, fun hsees => (hsame hsees).2⟩, fun hsees => (hsame hsees).1⟩
  cases command with
  | reclaim timeoutSecs now =>
    exact (stalledTasks_eq_iff h hfresh timeoutSecs now).1.mp
      (QueueResponse.reclaimed.inj hresponse)
  | submit | submitBatch | claim | complete | fail | kill | scheduleBatch => exact not_false

end Commands

/-! ### Entries -/

variable {L M : Type}

/-- An entry whose scan overlooks a staged task. -/
def Entry.Overlooks (db : TaskStore) (s : Stage) (entry : Entry L M) : Prop :=
  match entry.payload with
  | .normal command => OpenraftTask.Overlooks db s command
  | .blank | .membership _ => False

/-- What is in memory is what is in the database. -/
structure RocksStateMachine.Persisted (sm : RocksStateMachine L M) : Prop where
  pendingQueue : sm.db.pendingQueue = sm.pending
  schedulerStates : sm.db.schedulerStates = sm.schedulerStates

/-- The batch `b` on the state machine `sm`, if it were written now, would lead to `sm'`. -/
structure Batch.Stands (sm : RocksStateMachine L M) (b : Batch L M)
    (sm' : RocksStateMachine L M) : Prop where
  stage : b.stage.Matches sm.db.tasks sm'.db.tasks sm'.startBatch.stage
  persisted : sm'.Persisted
  lastAppliedLog : b.lastAppliedLog.or sm.db.lastAppliedLog = sm'.db.lastAppliedLog
  lastMembership : b.lastMembership.or sm.db.lastMembership = sm'.db.lastMembership

/-- A stage whose batch was written stands for the state without one. -/
theorem Stage.Matches.rebase {db db' : TaskStore} {s s' : Stage} (h : s.Matches db db' s') :
    s.Matches db (db'.writeAll s'.batch)
      ⟨[], ∅, s'.pending, s'.pendingIds, s'.schedulerStates⟩ := by
  have hload (id : String) : loadTask (db'.writeAll s'.batch)
      ⟨[], ∅, s'.pending, s'.pendingIds, s'.schedulerStates⟩ id = (db'.writeAll s'.batch)[id]? := by
    rw [loadTask, Std.ExtTreeMap.getElem?_empty]
  exact ⟨h.staged, hload, fun id => by rw [hload, h.load, h.staged'], h.pending, h.pendingIds,
    h.schedulerStates⟩

namespace Batch.Stands

variable {sm sm' : RocksStateMachine L M} {b : Batch L M}

theorem start (h : sm.Persisted) : Stands sm sm.startBatch sm := by
  have hload (id : String) : sm.startBatch.stage.loadTask sm.db.tasks id = sm.db.tasks[id]? := by
    rw [Stage.loadTask, RocksStateMachine.startBatch, Std.ExtTreeMap.getElem?_empty]
  exact ⟨⟨hload, hload, fun _ => rfl, rfl, rfl, rfl⟩, h, rfl, rfl⟩

/-- Written now, the batch leads to the state that it stands for. -/
theorem finishBatch_eq (h : Stands sm b sm') : sm.finishBatch b = sm' := by
  obtain ⟨hstage, ⟨hqueue, hprogress⟩, hlog, hmem⟩ := h
  have hwritten : sm.db.tasks.writeAll b.stage.batch = sm'.db.tasks := hstage.written
  rw [RocksStateMachine.finishBatch, hwritten, hlog, hmem, hstage.pending, hstage.pendingIds,
    hstage.schedulerStates]
  obtain ⟨⟨tasks, lastAppliedLog, lastMembership, pendingQueue, schedulers⟩, pending, pendingIds,
    schedulerStates⟩ := sm'
  obtain rfl : pendingQueue = pending := hqueue
  obtain rfl : schedulers = schedulerStates := hprogress
  rfl

/-- **One entry of a batch** is answered as in one of its own exactly if it overlooks no staged
task; the batch then stands for it too. -/
theorem applyEntry (h : Stands sm b sm') (entry : Entry L M) :
    ∃ r r', (OpenraftTask.applyEntry sm.db.tasks b entry).responses = b.responses ++ [r] ∧
      (sm'.apply [entry]).2 = [r'] ∧ (r = r' ↔ ¬entry.Overlooks sm.db.tasks b.stage) ∧
      (¬entry.Overlooks sm.db.tasks b.stage →
        Stands sm (OpenraftTask.applyEntry sm.db.tasks b entry) (sm'.apply [entry]).1) := by
  obtain ⟨logId, payload⟩ := entry
  cases payload with
  | blank =>
    exact ⟨.none, .none, rfl, rfl, iff_of_true rfl not_false,
      fun _ => ⟨h.stage, ⟨rfl, rfl⟩, rfl, h.lastMembership⟩⟩
  | membership mem =>
    exact ⟨.none, .none, rfl, rfl, iff_of_true rfl not_false,
      fun _ => ⟨h.stage, ⟨rfl, rfl⟩, rfl, rfl⟩⟩
  | normal command =>
    obtain ⟨hresponse, hstage⟩ := applyCommand_matches h.stage rfl command
    exact ⟨_, _, rfl, rfl, hresponse,
      fun hsees => ⟨(hstage hsees).rebase, ⟨rfl, rfl⟩, rfl, h.lastMembership⟩⟩

end Batch.Stands

/-! ### Batches -/

/-- No scan among the entries of a batch overlooks a staged task. -/
def Batch.SeesAll (db : TaskStore) (b : Batch L M) : List (Entry L M) → Prop
  | [] => True
  | entry :: entries => ¬entry.Overlooks db b.stage ∧ (applyEntry db b entry).SeesAll db entries

namespace RocksStateMachine

/-- No scan of any batch overlooks a task that its batch has staged. -/
def SeesAll (sm : RocksStateMachine L M) : List (List (Entry L M)) → Prop
  | [] => True
  | entries :: batches =>
    sm.startBatch.SeesAll sm.db.tasks entries ∧ (sm.apply entries).1.SeesAll batches

theorem applyBatches_cons (sm : RocksStateMachine L M) (entries : List (Entry L M))
    (batches : List (List (Entry L M))) :
    sm.applyBatches (entries :: batches) =
      (((sm.apply entries).1.applyBatches batches).1,
        (sm.apply entries).2 ++ ((sm.apply entries).1.applyBatches batches).2) := rfl

theorem applyBatches_append (sm : RocksStateMachine L M)
    (batches batches' : List (List (Entry L M))) :
    sm.applyBatches (batches ++ batches') =
      (((sm.applyBatches batches).1.applyBatches batches').1,
        (sm.applyBatches batches).2 ++ ((sm.applyBatches batches).1.applyBatches batches').2) := by
  induction batches generalizing sm with
  | nil => rfl
  | cons entries batches ih =>
    simp only [cons_append, applyBatches_cons, ih, append_assoc]

theorem persisted_apply (sm : RocksStateMachine L M) (entries : List (Entry L M)) :
    (sm.apply entries).1.Persisted := ⟨rfl, rfl⟩

theorem Persisted.applyBatches {sm : RocksStateMachine L M} (h : sm.Persisted)
    (batches : List (List (Entry L M))) : (sm.applyBatches batches).1.Persisted := by
  induction batches generalizing sm with
  | nil => exact h
  | cons entries batches ih => exact ih (sm.persisted_apply entries)

end RocksStateMachine

/-! ### Responses -/

theorem applyEntry_responses (db : TaskStore) (b : Batch L M) (entry : Entry L M) :
    ∃ r, (applyEntry db b entry).responses = b.responses ++ [r] := by
  obtain ⟨logId, payload⟩ := entry
  cases payload <;> exact ⟨_, rfl⟩

theorem foldl_applyEntry_responses (db : TaskStore) (b : Batch L M) (entries : List (Entry L M)) :
    ∃ rs, (entries.foldl (applyEntry db) b).responses = b.responses ++ rs ∧
      rs.length = entries.length := by
  induction entries generalizing b with
  | nil => exact ⟨[], by simp, rfl⟩
  | cons entry entries ih =>
    obtain ⟨r, hr⟩ := applyEntry_responses db b entry
    obtain ⟨rs, hrs, hlen⟩ := ih (applyEntry db b entry)
    refine ⟨r :: rs, ?_, by simp [hlen]⟩
    rw [foldl_cons, hrs, hr, append_assoc, singleton_append]

theorem RocksStateMachine.length_apply (sm : RocksStateMachine L M) (entries : List (Entry L M)) :
    (sm.apply entries).2.length = entries.length := by
  obtain ⟨rs, hrs, hlen⟩ := foldl_applyEntry_responses sm.db.tasks sm.startBatch entries
  rw [apply, hrs, ← hlen]
  simp [startBatch]

theorem RocksStateMachine.length_applyBatches (sm : RocksStateMachine L M)
    (batches : List (List (Entry L M))) :
    (sm.applyBatches batches).2.length = batches.flatten.length := by
  induction batches generalizing sm with
  | nil => rfl
  | cons entries batches ih =>
    rw [applyBatches_cons, flatten_cons, length_append, length_append,
      length_apply, ih]

/-! ### The cuts between batches -/

/-- **The entries of a batch** are answered as in batches of their own exactly if no scan overlooks
a staged task; the batch then stands for all of them. -/
theorem Batch.Stands.applyAll {sm sm' : RocksStateMachine L M} {b : Batch L M}
    (h : Stands sm b sm') (entries : List (Entry L M)) :
    ((entries.foldl (OpenraftTask.applyEntry sm.db.tasks) b).responses =
        b.responses ++ (sm'.applyBatches (entries.map ([·]))).2 ↔ b.SeesAll sm.db.tasks entries) ∧
      (b.SeesAll sm.db.tasks entries →
        Stands sm (entries.foldl (OpenraftTask.applyEntry sm.db.tasks) b)
          (sm'.applyBatches (entries.map ([·]))).1) := by
  induction entries generalizing b sm' with
  | nil => exact ⟨iff_of_true (by simp [RocksStateMachine.applyBatches]) trivial, fun _ => h⟩
  | cons entry entries ih =>
    obtain ⟨r, r', hr, hr', hsame, hstands⟩ := h.applyEntry entry
    rw [map_cons, RocksStateMachine.applyBatches_cons, foldl_cons, SeesAll, ← hsame, hr']
    obtain ⟨rs, hrs, -⟩ := foldl_applyEntry_responses sm.db.tasks
      (OpenraftTask.applyEntry sm.db.tasks b entry) entries
    by_cases heq : r = r'
    · obtain ⟨hresponses, hall⟩ := ih (hstands (hsame.mp heq))
      rw [hr, append_assoc, heq] at hresponses
      exact ⟨⟨fun hsees => ⟨heq, hresponses.mp hsees⟩, fun hsees => hresponses.mpr hsees.2⟩,
        fun hsees => hall hsees.2⟩
    · refine ⟨iff_of_false (fun hresponses => heq ?_) fun hsees => heq hsees.1,
        fun hsees => absurd hsees.1 heq⟩
      rw [hrs, hr, append_assoc] at hresponses
      exact (List.cons.inj (append_cancel_left hresponses)).1

/-- Batches do what their entries do alone, exactly if no scan overlooks a staged task. -/
theorem RocksStateMachine.Persisted.applyBatches_eq_iff {sm : RocksStateMachine L M}
    (h : sm.Persisted) (batches : List (List (Entry L M))) :
    sm.applyBatches batches = sm.applyBatches (batches.flatten.map ([·])) ↔ sm.SeesAll batches := by
  induction batches generalizing sm with
  | nil => exact iff_of_true rfl trivial
  | cons entries batches ih =>
    obtain ⟨hresponses, hstands⟩ := (Batch.Stands.start h).applyAll entries
    replace hresponses : (sm.apply entries).2 = (sm.applyBatches (entries.map ([·]))).2 ↔
        sm.startBatch.SeesAll sm.db.tasks entries := hresponses
    rw [flatten_cons, map_append, applyBatches_append, applyBatches_cons, SeesAll]
    have hlen : (sm.apply entries).2.length = (sm.applyBatches (entries.map ([·]))).2.length := by
      rw [length_apply, length_applyBatches, ← flatMap_def, flatMap_singleton']
    constructor
    · intro heq
      obtain ⟨hstate, hall⟩ := Prod.mk.inj heq
      obtain ⟨hhead, htail⟩ := List.append_inj hall hlen
      have hsees := hresponses.mp hhead
      have hfinish : (sm.apply entries).1 = (sm.applyBatches (entries.map ([·]))).1 :=
        (hstands hsees).finishBatch_eq
      rw [← hfinish] at hstate htail
      exact ⟨hsees, (ih (sm.persisted_apply entries)).mp (Prod.ext hstate htail)⟩
    · rintro ⟨hsees, hrest⟩
      have hfinish : (sm.apply entries).1 = (sm.applyBatches (entries.map ([·]))).1 :=
        (hstands hsees).finishBatch_eq
      rw [← hfinish, ← hresponses.mpr hsees, ← (ih (sm.persisted_apply entries)).mpr hrest]

/-- **The cuts between batches.** Batches leave the same records, queue, progress and metadata, and
answer every entry alike, as batches of one entry each, if and only if no scan overlooks a task that
its batch staged. -/
theorem applyBatches_eq_single_iff (earlier batches : List (List (Entry L M))) :
    (RocksStateMachine.initial.applyBatches earlier).1.applyBatches batches =
        (RocksStateMachine.initial.applyBatches earlier).1.applyBatches
          (batches.flatten.map ([·])) ↔
      (RocksStateMachine.initial.applyBatches earlier).1.SeesAll batches :=
  (RocksStateMachine.Persisted.applyBatches ⟨rfl, rfl⟩ earlier).applyBatches_eq_iff batches

/-- A task that is submitted, claimed at once and reclaimed. -/
def reclaimLog : List (Entry ℕ Unit) :=
  [⟨1, .normal (.submit (.pending "t" [] 0))⟩, ⟨2, .normal (.claim "w" 5)⟩,
    ⟨3, .normal (.reclaim 0 5)⟩]

/-- **Batches matter.** In one batch the scan does not find the task; in batches of their own the
entries return it to the queue. -/
theorem reclaim_overlooks_staged :
    (RocksStateMachine.initial.applyBatches [reclaimLog]).2[2]? = some (.reclaimed 0) ∧
      (RocksStateMachine.initial.applyBatches (reclaimLog.map ([·]))).2[2]? =
        some (.reclaimed 1) ∧
      ((RocksStateMachine.initial.applyBatches [reclaimLog]).1.db.tasks["t"]?.map
        TaskRecord.status) = some .running ∧
      ((RocksStateMachine.initial.applyBatches (reclaimLog.map ([·]))).1.db.tasks["t"]?.map
        TaskRecord.status) = some .pending := by
  decide

end RustExample.OpenraftTask
