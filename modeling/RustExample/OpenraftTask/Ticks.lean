import RustExample.OpenraftTask.Queue

/-!
# The ticks of a scheduler

Every leader may propose a tick of a scheduler, with its own clock and its own candidates. A tick
comes to nothing if the last one is too recent. Otherwise it generates those candidates that have
no record, up to a total for the scheduler. The progress of a scheduler sums up its ticks.

* A run is a sequence of entries and of ends of batches, so that it covers every way to cut the
  entries into batches.
-/

namespace RustExample.OpenraftTask

open SchedulerState List

variable {L M : Type}

/-! ### Runs -/

/-- A state machine, and the batch that it works on. -/
structure Applier (L M : Type) where
  sm : RocksStateMachine L M
  batch : Batch L M

/-- An entry of a batch, or the end of the batch. -/
inductive ApplierEvent (L M : Type) where
  | entry (entry : Entry L M)
  | finish

namespace Applier

/-- A new batch. -/
def start (sm : RocksStateMachine L M) : Applier L M := ⟨sm, sm.startBatch⟩

/-- What an event does. -/
def step (r : Applier L M) : ApplierEvent L M → Applier L M
  | .entry entry => { r with batch := applyEntry r.sm.db.tasks r.batch entry }
  | .finish => start (r.sm.finishBatch r.batch)

/-- The record of a task, as the batch reads it. -/
def load (r : Applier L M) (id : String) : Option TaskRecord :=
  r.batch.stage.loadTask r.sm.db.tasks id

end Applier

/-- A new state machine after some events. -/
def applierAfter (es : List (ApplierEvent L M)) : Applier L M :=
  es.foldl Applier.step (.start .initial)

/-! ### Ticks -/

/-- The progress of a scheduler. -/
def Stage.progressOf (s : Stage) (schedulerId : String) : SchedulerState :=
  s.schedulerStates[schedulerId]?.getD {}

/-- Sets the progress of a scheduler. -/
def Stage.setProgress (s : Stage) (schedulerId : String) (state : SchedulerState) : Stage :=
  { s with schedulerStates := s.schedulerStates.insert schedulerId state }

/-- The last tick is not too recent. -/
def SchedulerState.Due (state : SchedulerState) (now intervalSecs : UInt64) : Prop :=
  ¬state.lastTick.any fun lastTick => saturatingSub now lastTick < intervalSecs

instance (state : SchedulerState) (now intervalSecs : UInt64) :
    Decidable (state.Due now intervalSecs) := inferInstanceAs (Decidable ¬_)

/-- A tick that came to something, with the ids that its response says it generated. -/
structure Tick where
  schedulerId : String
  now : UInt64
  generated : List String

/-- The tasks that a tick generates. -/
def QueueResponse.generatedTaskIds : QueueResponse → List String
  | .scheduled _ _ _ _ generatedTaskIds => generatedTaskIds
  | _ => []

/-- The tick of a command. -/
def tickOf (db : TaskStore) (s : Stage) : QueueCommand → Option Tick
  | .scheduleBatch schedulerId now intervalSecs maxTasks tasks =>
    if (s.progressOf schedulerId).Due now intervalSecs then
      some ⟨schedulerId, now,
        (applyScheduleBatch db s schedulerId now intervalSecs maxTasks tasks).2.generatedTaskIds⟩
    else none
  | _ => none

/-- The tick of an event. -/
def Applier.tick (r : Applier L M) : ApplierEvent L M → Option Tick
  | .entry ⟨_, .normal command⟩ => tickOf r.sm.db.tasks r.batch.stage command
  | _ => none

/-- The ticks from a state on. -/
def ticksFrom (r : Applier L M) : List (ApplierEvent L M) → List Tick
  | [] => []
  | e :: es => (r.tick e).toList ++ ticksFrom (r.step e) es

/-- The ticks from the start. -/
def ticks (es : List (ApplierEvent L M)) : List Tick := ticksFrom (.start .initial) es

/-- The ticks of a scheduler. -/
def ticksOf (schedulerId : String) (es : List (ApplierEvent L M)) : List Tick :=
  (ticks es).filter fun t => t.schedulerId = schedulerId

/-- What a tick adds to the progress. -/
def SchedulerState.tick (state : SchedulerState) (t : Tick) : SchedulerState where
  lastTick := some t.now
  runs := saturatingSucc state.runs
  generatedTaskIds := state.generatedTaskIds ++ t.generated

theorem ticks_snoc (es : List (ApplierEvent L M)) (e : ApplierEvent L M) :
    ticks (es ++ [e]) = ticks es ++ ((applierAfter es).tick e).toList := by
  have hfrom (r : Applier L M) (es : List (ApplierEvent L M)) : ticksFrom r (es ++ [e]) =
      ticksFrom r es ++ ((es.foldl Applier.step r).tick e).toList := by
    induction es generalizing r with
    | nil => simp [ticksFrom]
    | cons c es ih => simp [ticksFrom, ih]
  exact hfrom _ es

theorem applierAfter_snoc (es : List (ApplierEvent L M)) (e : ApplierEvent L M) :
    applierAfter (es ++ [e]) = (applierAfter es).step e := by
  rw [applierAfter, foldl_append]
  rfl

/-! ### What one command generates -/

section Commands

variable {db : TaskStore} {s s' : Stage}

/-- The tasks `new` got a record, and no record changed. -/
structure Generates (db : TaskStore) (s s' : Stage) (new : List String) : Prop where
  nodup : new.Nodup
  fresh : ∀ id ∈ new, s.loadTask db id = none
  recorded : ∀ id ∈ new, (s'.loadTask db id).isSome
  kept : ∀ id task, s.loadTask db id = some task → s'.loadTask db id = some task

theorem Generates.nil (db : TaskStore) (s : Stage) : Generates db s s [] :=
  ⟨nodup_nil, by simp, by simp, fun _ _ h => h⟩

theorem Generates.cons {task : TaskRecord} {new : List String}
    (h : Generates db (s.insertPendingTask task) s' new)
    (hnone : s.loadTask db task.taskId = none) : Generates db s s' (task.taskId :: new) := by
  have hload (id : String) : (s.insertPendingTask task).loadTask db id =
      if task.taskId = id then some task else s.loadTask db id :=
    Stage.loadTask_insertPendingTask task id
  have hself : (s.insertPendingTask task).loadTask db task.taskId = some task :=
    (hload _).trans (if_pos rfl)
  refine ⟨List.nodup_cons.mpr ⟨fun hmem => ?_, h.nodup⟩, ?_, ?_, fun id task' hid => ?_⟩
  · rw [h.fresh _ hmem] at hself
    cases hself
  · refine List.forall_mem_cons.mpr ⟨hnone, fun id hid => ?_⟩
    have hfresh := h.fresh id hid
    rw [hload] at hfresh
    split_ifs at hfresh
    exact hfresh
  · refine List.forall_mem_cons.mpr ⟨?_, h.recorded⟩
    rw [h.kept _ _ hself]
    rfl
  · refine h.kept id task' ?_
    rw [hload, if_neg, hid]
    rintro rfl
    rw [hnone] at hid
    cases hid

/-- What the loop generates, which stays within the total. -/
theorem scheduleTasks_generates (maxTasks : Option ℕ) (tasks : List TaskRecord)
    (state : SchedulerState) (generated : List String) :
    ∃ new, (scheduleTasks db maxTasks tasks s state generated).2 =
        ({ state with generatedTaskIds := state.generatedTaskIds ++ new }, generated ++ new) ∧
      (scheduleTasks db maxTasks tasks s state generated).1.schedulerStates = s.schedulerStates ∧
      Generates db s (scheduleTasks db maxTasks tasks s state generated).1 new ∧
      ∀ limit, maxTasks = some limit → state.generatedTaskIds.length ≤ limit →
        (state.generatedTaskIds ++ new).length ≤ limit := by
  induction tasks generalizing s state generated with
  | nil => exact ⟨[], by simp [scheduleTasks], rfl, .nil db s, by simp⟩
  | cons task tasks ih =>
    rw [scheduleTasks]
    split_ifs with hlimit hload hmem
    · exact ⟨[], by simp, rfl, .nil db s, by simp⟩
    · exact ih state generated
    · exact ih state generated
    · have hnone : s.loadTask db task.taskId = none := by simpa using hload
      obtain ⟨new, heq, hstates, hnew, hlen⟩ := ih (s := s.insertPendingTask { task with
          status := .pending, lockBy := none, result := none, claimedAt := none })
        { state with generatedTaskIds := state.generatedTaskIds ++ [task.taskId] }
        (generated ++ [task.taskId])
      have hcons : Generates db s _ _ := Generates.cons hnew hnone
      refine ⟨task.taskId :: new, ?_, ?_, hcons, fun limit hmax hle => ?_⟩
      · simpa using heq
      · rw [hstates, Stage.insertPendingTask, Stage.enqueue]
        split_ifs <;> rfl
      · -- There is room for one more, since the loop has not stopped.
        have hroom : state.generatedTaskIds.length < limit := by simpa [hmax] using hlimit
        simpa using hlen limit hmax (by simpa using Nat.succ_le_of_lt hroom)

theorem applyScheduleBatch_eq (schedulerId : String) (now intervalSecs : UInt64)
    (maxTasks : Option ℕ) (tasks : List TaskRecord) :
    applyScheduleBatch db s schedulerId now intervalSecs maxTasks tasks =
      if (s.progressOf schedulerId).Due now intervalSecs then
        finishTick schedulerId now (scheduleTasks db maxTasks tasks
          (s.setProgress schedulerId (s.progressOf schedulerId)) (s.progressOf schedulerId) [])
      else (s.setProgress schedulerId (s.progressOf schedulerId),
        .scheduled schedulerId 0 (s.progressOf schedulerId).generatedTaskIds.length
          (s.progressOf schedulerId).lastTick []) :=
  (ite_not _ _ _).symm

variable {schedulerId : String}

/-- A tick that is due generates tasks, and adds itself to the progress of its scheduler. -/
theorem applyScheduleBatch_of_due {now intervalSecs : UInt64}
    (hdue : (s.progressOf schedulerId).Due now intervalSecs) (maxTasks : Option ℕ)
    (tasks : List TaskRecord) :
    ∃ new s', applyScheduleBatch db s schedulerId now intervalSecs maxTasks tasks =
        finishTick schedulerId now (s', { s.progressOf schedulerId with
          generatedTaskIds := (s.progressOf schedulerId).generatedTaskIds ++ new }, new) ∧
      s'.schedulerStates = (s.setProgress schedulerId (s.progressOf schedulerId)).schedulerStates ∧
      Generates db s s' new ∧
      ∀ limit, maxTasks = some limit →
        (s.progressOf schedulerId).generatedTaskIds.length ≤ limit →
        ((s.progressOf schedulerId).generatedTaskIds ++ new).length ≤ limit := by
  obtain ⟨new, hloop, hstates, hnew, hlen⟩ := @scheduleTasks_generates db
    (s.setProgress schedulerId (s.progressOf schedulerId)) maxTasks tasks
    (s.progressOf schedulerId) []
  refine ⟨new, _, ?_, hstates, ⟨hnew.nodup, hnew.fresh, hnew.recorded, hnew.kept⟩, hlen⟩
  rw [applyScheduleBatch_eq, if_pos hdue, ← Prod.eta (scheduleTasks _ _ _ _ _ _), hloop]
  rfl

theorem progressOf_setProgress (schedulerId sid : String) (state : SchedulerState) :
    (s.setProgress schedulerId state).progressOf sid =
      if schedulerId = sid then state else s.progressOf sid := by
  simp only [Stage.progressOf, Stage.setProgress, KeyStore.getElem?_put]
  split_ifs <;> rfl

theorem schedulerStates_enqueue (id : String) :
    (s.enqueue id).schedulerStates = s.schedulerStates := by
  rw [Stage.enqueue]
  split_ifs <;> rfl

theorem schedulerStates_foldl {f : Stage → TaskRecord → Stage}
    (hf : ∀ s task, (f s task).schedulerStates = s.schedulerStates) (tasks : List TaskRecord) :
    (tasks.foldl f s).schedulerStates = s.schedulerStates := by
  induction tasks generalizing s with
  | nil => rfl
  | cons task tasks ih => exact ih.trans (hf s task)

theorem schedulerStates_claimNext (workerId : String) (now : UInt64)
    (queue skipped : List String) :
    (claimNext db workerId now queue skipped s).1.schedulerStates = s.schedulerStates := by
  induction queue generalizing skipped s with
  | nil => rfl
  | cons id rest ih =>
    rw [claimNext]
    cases s.loadTask db id with
    | none => exact ih _
    | some task =>
      dsimp only
      split_ifs
      · exact ih _
      · exact ih _
      · rfl

/-- A command that is no tick leaves the progress of the schedulers. -/
theorem schedulerStates_applyCommand {command : QueueCommand}
    (h : ∀ schedulerId now intervalSecs maxTasks tasks,
      command ≠ .scheduleBatch schedulerId now intervalSecs maxTasks tasks) :
    (applyCommand db s command).1.schedulerStates = s.schedulerStates := by
  cases command with
  | submit task => exact schedulerStates_enqueue _
  | submitBatch tasks =>
    exact schedulerStates_foldl (f := submitTask) (fun _ _ => schedulerStates_enqueue _) tasks
  | claim workerId now => exact schedulerStates_claimNext workerId now _ _
  | complete id result =>
    rw [applyCommand]
    cases s.loadTask db id <;> rfl
  | fail id reason retry =>
    rw [applyCommand]
    cases s.loadTask db id with
    | none => rfl
    | some task =>
      cases retry with
      | true => exact schedulerStates_enqueue id
      | false => rfl
  | kill id =>
    rw [applyCommand]
    cases s.loadTask db id <;> rfl
  | reclaim timeoutSecs now =>
    exact schedulerStates_foldl (f := reclaimTask) (fun _ _ => schedulerStates_enqueue _) _
  | scheduleBatch => exact absurd rfl (h _ _ _ _ _)

/-- **The progress of the schedulers after a command**: a tick adds itself to its own. -/
theorem progressOf_applyCommand (command : QueueCommand) (sid : String) :
    (applyCommand db s command).1.progressOf sid =
      ((tickOf db s command).toList.filter fun t => t.schedulerId = sid).foldl
        tick (s.progressOf sid) := by
  by_cases hcommand : ∃ schedulerId now intervalSecs maxTasks tasks,
      command = .scheduleBatch schedulerId now intervalSecs maxTasks tasks
  · obtain ⟨schedulerId, now, intervalSecs, maxTasks, tasks, rfl⟩ := hcommand
    rw [applyCommand, tickOf]
    by_cases hdue : (s.progressOf schedulerId).Due now intervalSecs
    · obtain ⟨new, s', happly, hstates, -⟩ :=
        @applyScheduleBatch_of_due db _ _ _ _ hdue maxTasks tasks
      have hsid : s'.progressOf sid = s.progressOf sid := by
        rw [Stage.progressOf, hstates]
        refine (progressOf_setProgress schedulerId sid _).trans ?_
        split_ifs with heq
        · rw [heq]
        · rfl
      rw [if_pos hdue, happly]
      refine (progressOf_setProgress (s := s') schedulerId sid _).trans ?_
      split_ifs with heq
      · subst heq
        simp [tick, finishTick, QueueResponse.generatedTaskIds]
      · simp [heq, hsid]
    · rw [if_neg hdue, applyScheduleBatch_eq, if_neg hdue]
      refine (progressOf_setProgress schedulerId sid _).trans ?_
      split_ifs with heq
      · rw [heq]
        rfl
      · rfl
  · have hnone : tickOf db s command = none := by
      cases command with
      | scheduleBatch => exact absurd ⟨_, _, _, _, _, rfl⟩ hcommand
      | submit | submitBatch | claim | complete | fail | kill | reclaim => rfl
    have hstates : (applyCommand db s command).1.schedulerStates = s.schedulerStates :=
      schedulerStates_applyCommand fun _ _ _ _ _ h => hcommand ⟨_, _, _, _, _, h⟩
    rw [hnone, Stage.progressOf, hstates]
    rfl

theorem tickOf_generates {command : QueueCommand} {t : Tick} (h : tickOf db s command = some t) :
    Generates db s (applyCommand db s command).1 t.generated := by
  cases command with
  | scheduleBatch schedulerId now intervalSecs maxTasks tasks =>
    rw [tickOf, Option.ite_none_right_eq_some] at h
    obtain ⟨hdue, ht⟩ := h
    obtain ⟨⟩ := ht
    obtain ⟨new, s', happly, -, hnew, -⟩ :=
      @applyScheduleBatch_of_due db _ _ _ _ hdue maxTasks tasks
    rw [applyCommand, happly]
    exact ⟨hnew.nodup, hnew.fresh, hnew.recorded, hnew.kept⟩
  | submit | submitBatch | claim | complete | fail | kill | reclaim => cases h

theorem loadTask_scheduleBatch {now intervalSecs : UInt64} {maxTasks : Option ℕ}
    {tasks : List TaskRecord} {id : String} {task : TaskRecord} (h : s.loadTask db id = some task) :
    (applyCommand db s
      (.scheduleBatch schedulerId now intervalSecs maxTasks tasks)).1.loadTask db id =
      some task := by
  by_cases hdue : (s.progressOf schedulerId).Due now intervalSecs
  · have htick : tickOf db s (.scheduleBatch schedulerId now intervalSecs maxTasks tasks) =
        some _ := if_pos hdue
    exact (tickOf_generates htick).kept id task h
  · rw [applyCommand, applyScheduleBatch_eq, if_neg hdue]
    exact h

theorem isSome_loadTask_applyCommand (command : QueueCommand) {id : String}
    (h : (s.loadTask db id).isSome) : ((applyCommand db s command).1.loadTask db id).isSome := by
  have put (id' : String) (task : TaskRecord) :
      ((s.putTask id' task).loadTask db id).isSome := by
    rw [Stage.loadTask_putTask]
    split_ifs
    · rfl
    · exact h
  cases command with
  | submit task =>
    rw [applyCommand, submitTask, Stage.insertPendingTask, Stage.loadTask_enqueue]
    exact put _ _
  | submitBatch tasks =>
    rcases loadTask_foldl_pending (f := submitTask) (fun _ _ => ⟨_, rfl, rfl, rfl⟩) id tasks s with
      hsame | ⟨task, htask, -⟩
    · exact hsame ▸ h
    · exact Option.isSome_of_eq_some htask
  | claim workerId now =>
    rcases claimNext_claims workerId now s.pending [] s with
      ⟨-, -, hsame⟩ | ⟨id', -, claimed, -, -, hchange⟩
    · exact (hsame id) ▸ h
    · rw [applyCommand]
      rw [hchange id]
      split_ifs
      · rfl
      · exact h
  | complete id' result =>
    rw [applyCommand]
    cases s.loadTask db id' with
    | none => exact h
    | some task => exact put _ _
  | fail id' reason retry =>
    rw [applyCommand]
    cases s.loadTask db id' with
    | none => exact h
    | some task =>
      cases retry with
      | true =>
        dsimp only
        rw [if_pos rfl, ← Stage.putTask_enqueue, Stage.loadTask_enqueue]
        exact put _ _
      | false => exact put _ _
  | kill id' =>
    rw [applyCommand]
    cases s.loadTask db id' with
    | none => exact h
    | some task => exact put _ _
  | reclaim timeoutSecs now =>
    rcases loadTask_foldl_pending (f := reclaimTask) (fun _ _ => ⟨_, rfl, rfl, rfl⟩) id
      (stalledTasks db timeoutSecs now s) s with hsame | ⟨task, htask, -⟩
    · exact hsame ▸ h
    · exact Option.isSome_of_eq_some htask
  | scheduleBatch schedulerId now intervalSecs maxTasks tasks =>
    obtain ⟨task, htask⟩ := Option.isSome_iff_exists.mp h
    exact Option.isSome_of_eq_some (loadTask_scheduleBatch htask)

end Commands

/-! ### What runs generate -/

section Runs

variable {r : Applier L M} {e : ApplierEvent L M} {es : List (ApplierEvent L M)}

/-- Every event adds its tick to the progress of the scheduler. -/
theorem progressOf_step (r : Applier L M) (e : ApplierEvent L M) (sid : String) :
    (r.step e).batch.stage.progressOf sid =
      ((r.tick e).toList.filter fun t => t.schedulerId = sid).foldl tick
        (r.batch.stage.progressOf sid) := by
  rcases e with ⟨logId, payload⟩ | _
  · cases payload with
    | blank | membership => rfl
    | normal command => exact progressOf_applyCommand command sid
  · rfl

/-- **The progress of a scheduler** sums up its ticks. -/
theorem progressOf_applierAfter (es : List (ApplierEvent L M)) (sid : String) :
    (applierAfter es).batch.stage.progressOf sid =
      (ticksOf sid es).foldl tick {} := by
  induction es using List.reverseRecOn with
  | nil =>
    show Option.getD (∅ : KeyStore String SchedulerState)[sid]? {} = _
    rw [Std.ExtTreeMap.getElem?_empty]
    rfl
  | append_singleton es e ih =>
    rw [applierAfter_snoc, progressOf_step, ticksOf, ticks_snoc, filter_append,
      foldl_append, ih]
    rfl

theorem foldl_tick (ts : List Tick) :
    (ts.foldl tick {}).lastTick = ts.getLast?.map Tick.now ∧
      (ts.foldl tick {}).runs.toNat = min ts.length (2 ^ 64 - 1) ∧
      (ts.foldl tick {}).generatedTaskIds = ts.flatMap Tick.generated := by
  induction ts using List.reverseRecOn with
  | nil => exact ⟨rfl, rfl, rfl⟩
  | append_singleton ts t ih =>
    obtain ⟨-, hruns, hgenerated⟩ := ih
    rw [foldl_append, foldl_cons, foldl_nil]
    refine ⟨?_, ?_, ?_⟩
    · simp [tick]
    · rw [tick, toNat_saturatingSucc, hruns, length_append]
      simp only [length_singleton]
      omega
    · simp [tick, hgenerated]

theorem staged_applierAfter (es : List (ApplierEvent L M)) :
    (applierAfter es).batch.stage.Staged (applierAfter es).sm.db.tasks := by
  induction es using List.reverseRecOn with
  | nil => exact RocksStateMachine.loadTask_startBatch _
  | append_singleton es e ih =>
    rw [applierAfter_snoc]
    rcases e with ⟨logId, payload⟩ | _
    · cases payload with
      | blank | membership => exact ih
      | normal command => exact ih.applyCommand command
    · exact RocksStateMachine.loadTask_startBatch _

theorem load_finish (h : r.batch.stage.Staged r.sm.db.tasks) (id : String) :
    (r.step .finish).load id = r.load id :=
  (RocksStateMachine.loadTask_startBatch _ id).trans (h id).symm

theorem isSome_load_step (h : r.batch.stage.Staged r.sm.db.tasks) {id : String}
    (hid : (r.load id).isSome) : ((r.step e).load id).isSome := by
  rcases e with ⟨logId, payload⟩ | _
  · cases payload with
    | blank | membership => exact hid
    | normal command => exact isSome_loadTask_applyCommand command hid
  · rwa [load_finish h]

theorem tick_generates {t : Tick} (h : r.tick e = some t) :
    t.generated.Nodup ∧ (∀ id ∈ t.generated, r.load id = none) ∧
      ∀ id ∈ t.generated, ((r.step e).load id).isSome := by
  rcases e with ⟨logId, payload⟩ | _
  · cases payload with
    | blank | membership => cases h
    | normal command =>
      have hnew := tickOf_generates h
      exact ⟨hnew.nodup, hnew.fresh, hnew.recorded⟩
  · cases h

/-- **No task is generated twice**, by whichever schedulers: what was generated has a record. -/
theorem nodup_generated (es : List (ApplierEvent L M)) :
    ((ticks es).flatMap Tick.generated).Nodup ∧
      ∀ id ∈ (ticks es).flatMap Tick.generated, ((applierAfter es).load id).isSome := by
  induction es using List.reverseRecOn with
  | nil => exact ⟨nodup_nil, by simp [ticks, ticksFrom]⟩
  | append_singleton es e ih =>
    have hkept (id : String) (hid : id ∈ (ticks es).flatMap Tick.generated) :
        ((applierAfter (es ++ [e])).load id).isSome := by
      rw [applierAfter_snoc]
      exact isSome_load_step (staged_applierAfter es) (ih.2 id hid)
    rw [ticks_snoc, flatMap_append]
    rcases htick : (applierAfter es).tick e with _ | t
    · simpa using And.intro ih.1 hkept
    · obtain ⟨hnodup, hfresh, hrecorded⟩ := tick_generates htick
      rw [← applierAfter_snoc] at hrecorded
      simp only [Option.toList_some, flatMap_cons, flatMap_nil, append_nil]
      refine ⟨List.nodup_append.mpr ⟨ih.1, hnodup, ?_⟩, fun id hid => ?_⟩
      · rintro id hold _ hnew rfl
        have hsome := ih.2 id hold
        rw [hfresh id hnew] at hsome
        cases hsome
      · exact (List.mem_append.mp hid).elim (hkept id) (hrecorded id)

/-! ### Schedulers with fixed terms -/

/-- Everybody who proposes a tick of the scheduler gives it the same interval and total. -/
def SameTerms (schedulerId : String) (intervalSecs : UInt64) (maxTasks : Option ℕ)
    (es : List (ApplierEvent L M)) : Prop :=
  ∀ logId now interval limit tasks,
    .entry ⟨logId, .normal (.scheduleBatch schedulerId now interval limit tasks)⟩ ∈ es →
    interval = intervalSecs ∧ limit = maxTasks

/-- What holds of the ticks of a scheduler: no task is generated twice, the total is kept, the
ticks are an interval apart, none changes a record, and the progress counts them and tells the
last one. -/
structure TicksSound (schedulerId : String) (intervalSecs : UInt64) (maxTasks : Option ℕ)
    (es : List (ApplierEvent L M)) : Prop where
  once : ((ticks es).flatMap Tick.generated).Nodup
  bounded : ∀ limit, maxTasks = some limit →
    ((ticksOf schedulerId es).flatMap Tick.generated).length ≤ limit
  spaced : 0 < intervalSecs → (ticksOf schedulerId es).Pairwise fun a b =>
    a.now.toNat + intervalSecs.toNat ≤ b.now.toNat
  kept : ∀ k logId now interval limit tasks id task,
    es[k]? = some (.entry ⟨logId, .normal (.scheduleBatch schedulerId now interval limit tasks)⟩) →
    (applierAfter (es.take k)).load id = some task →
    (applierAfter (es.take (k + 1))).load id = some task
  runs : ((applierAfter es).batch.stage.progressOf schedulerId).runs.toNat =
    min (ticksOf schedulerId es).length (2 ^ 64 - 1)
  lastTick : ((applierAfter es).batch.stage.progressOf schedulerId).lastTick =
    (ticksOf schedulerId es).getLast?.map Tick.now

variable {schedulerId : String} {intervalSecs : UInt64} {maxTasks : Option ℕ}

theorem SchedulerState.Due.le {state : SchedulerState} {now last : UInt64}
    (h : state.Due now intervalSecs) (hpos : 0 < intervalSecs)
    (hlast : state.lastTick = some last) :
    last.toNat + intervalSecs.toNat ≤ now.toNat := by
  have hpos' : 0 < intervalSecs.toNat := UInt64.lt_iff_toNat_lt.mp hpos
  have hle : intervalSecs.toNat ≤ (saturatingSub now last).toNat := by
    simpa [SchedulerState.Due, hlast, UInt64.le_iff_toNat_le] using h
  rw [saturatingSub] at hle
  split_ifs at hle with hlast_le
  · rw [UInt64.toNat_sub_of_le _ _ hlast_le] at hle
    omega
  · simp at hle
    omega

/-- A tick with the terms is due, and within the total. -/
theorem tick_terms {t : Tick} (h : r.tick e = some t)
    (hterms : SameTerms t.schedulerId intervalSecs maxTasks [e]) :
    (r.batch.stage.progressOf t.schedulerId).Due t.now intervalSecs ∧
      ∀ limit, maxTasks = some limit →
        (r.batch.stage.progressOf t.schedulerId).generatedTaskIds.length ≤ limit →
        ((r.batch.stage.progressOf t.schedulerId).generatedTaskIds ++ t.generated).length ≤
          limit := by
  rcases e with ⟨logId, payload⟩ | _
  · cases payload with
    | blank | membership => cases h
    | normal command =>
      cases command with
      | scheduleBatch sid now interval limit tasks =>
        rw [Applier.tick, tickOf, Option.ite_none_right_eq_some] at h
        obtain ⟨hdue, ht⟩ := h
        obtain ⟨⟩ := ht
        obtain ⟨rfl, rfl⟩ := hterms _ _ _ _ _ mem_cons_self
        obtain ⟨new, s', happly, -, -, hlen⟩ :=
          @applyScheduleBatch_of_due r.sm.db.tasks _ _ _ _ hdue limit tasks
        refine ⟨hdue, fun l hl hle => ?_⟩
        rw [happly]
        exact hlen l hl hle
      | submit | submitBatch | claim | complete | fail | kill | reclaim => cases h
  · cases h

/-- An entry of an ordered list is the last one or comes before it. -/
theorem eq_or_rel_getLast {α : Type} {R : α → α → Prop} {l : List α} {a b : α} (h : l.Pairwise R)
    (hb : l.getLast? = some b) (ha : a ∈ l) : a = b ∨ R a b := by
  obtain ⟨l, rfl⟩ := List.getLast?_eq_some_iff.mp hb
  rcases List.mem_append.mp ha with ha | ha
  · exact .inr ((List.pairwise_append.mp h).2.2 a ha b mem_cons_self)
  · exact .inl (List.mem_singleton.mp ha)

/-- A tick of the scheduler comes at the end, or there is none. -/
theorem ticksOf_snoc (schedulerId : String) (es : List (ApplierEvent L M)) (e : ApplierEvent L M) :
    ticksOf schedulerId (es ++ [e]) = ticksOf schedulerId es ∨
      ∃ t, (applierAfter es).tick e = some t ∧ t.schedulerId = schedulerId ∧
        ticksOf schedulerId (es ++ [e]) = ticksOf schedulerId es ++ [t] := by
  rw [ticksOf, ticks_snoc, filter_append]
  rcases htick : (applierAfter es).tick e with _ | t
  · exact .inl (by simp [ticksOf])
  · by_cases hid : t.schedulerId = schedulerId
    · exact .inr ⟨t, rfl, hid, by simp [ticksOf, hid]⟩
    · exact .inl (by simp [ticksOf, hid])

theorem SameTerms.of_snoc (h : SameTerms schedulerId intervalSecs maxTasks (es ++ [e])) :
    SameTerms schedulerId intervalSecs maxTasks es ∧
      SameTerms schedulerId intervalSecs maxTasks [e] :=
  ⟨fun _ _ _ _ _ hmem => h _ _ _ _ _ (mem_append_left _ hmem),
    fun _ _ _ _ _ hmem => h _ _ _ _ _ (mem_append_right _ hmem)⟩

theorem length_generated_le (h : SameTerms schedulerId intervalSecs maxTasks es) {limit : ℕ}
    (hlimit : maxTasks = some limit) :
    ((ticksOf schedulerId es).flatMap Tick.generated).length ≤ limit := by
  induction es using List.reverseRecOn with
  | nil => exact Nat.zero_le _
  | append_singleton es e ih =>
    obtain ⟨hes, he⟩ := h.of_snoc
    rcases ticksOf_snoc schedulerId es e with hsame | ⟨t, htick, rfl, hsnoc⟩
    · rw [hsame]
      exact ih hes
    · obtain ⟨-, hlen⟩ := tick_terms htick he
      rw [progressOf_applierAfter, (foldl_tick _).2.2] at hlen
      simpa [hsnoc] using hlen limit hlimit (ih hes)

/-- Ticks of a scheduler are an interval apart: each is due after the one before. -/
theorem pairwise_ticksOf (h : SameTerms schedulerId intervalSecs maxTasks es)
    (hpos : 0 < intervalSecs) : (ticksOf schedulerId es).Pairwise fun a b =>
      a.now.toNat + intervalSecs.toNat ≤ b.now.toNat := by
  induction es using List.reverseRecOn with
  | nil => exact List.Pairwise.nil
  | append_singleton es e ih =>
    obtain ⟨hes, he⟩ := h.of_snoc
    rcases ticksOf_snoc schedulerId es e with hsame | ⟨t, htick, rfl, hsnoc⟩
    · rw [hsame]
      exact ih hes
    · obtain ⟨hdue, -⟩ := tick_terms htick he
      rw [progressOf_applierAfter] at hdue
      have hlast := (foldl_tick (ticksOf t.schedulerId es)).1
      rw [hsnoc, pairwise_append]
      refine ⟨ih hes, pairwise_singleton _ _, fun a ha b hb => ?_⟩
      obtain rfl := List.mem_singleton.mp hb
      obtain ⟨l, hl⟩ := Option.isSome_iff_exists.mp
        (List.getLast?_isSome.mpr (ne_nil_of_mem ha))
      have hle := hdue.le hpos (hlast.trans (congrArg (Option.map Tick.now) hl))
      rcases eq_or_rel_getLast (ih hes) hl ha with rfl | hal
      · exact hle
      · omega

/-- **The ticks of a scheduler** with fixed terms, whatever the proposers, clocks, candidates, other
commands and ends of batches. -/
theorem scheduler_ticks_sound (h : SameTerms schedulerId intervalSecs maxTasks es) :
    TicksSound schedulerId intervalSecs maxTasks es := by
  refine ⟨(nodup_generated es).1, fun _ hlimit => length_generated_le h hlimit, pairwise_ticksOf h,
    fun k logId now interval limit tasks id task hk hload => ?_, ?_, ?_⟩
  · rw [take_add_one, hk, Option.toList_some, applierAfter_snoc]
    exact loadTask_scheduleBatch hload
  · rw [progressOf_applierAfter]
    exact (foldl_tick _).2.1
  · rw [progressOf_applierAfter]
    exact (foldl_tick _).1

end Runs

/-- A tick of the scheduler `s`, every ten seconds and up to three tasks. -/
def proposedTick (now : UInt64) (ids : List String) : ApplierEvent Unit Unit :=
  .entry ⟨(), .normal (.scheduleBatch "s" now 10 (some 3) (ids.map fun id => .pending id [] 0))⟩

/-- Ticks of two leaders, one of them too early, with a task that is killed in between. -/
def twoLeaders : List (ApplierEvent Unit Unit) :=
  [proposedTick 100 ["a", "b", "a"], .finish, proposedTick 105 ["c"],
    .entry ⟨(), .normal (.kill "a")⟩, .finish, proposedTick 110 ["a", "c", "d"], .finish]

example : (ticksOf "s" twoLeaders).map (fun t => (t.now, t.generated)) =
    [(100, ["a", "b"]), (110, ["c"])] := by decide +kernel

theorem scheduler_ticks_sound_two_leaders : TicksSound "s" 10 (some 3) twoLeaders := by
  refine scheduler_ticks_sound fun logId now interval limit tasks hmem => ?_
  simp only [twoLeaders, proposedTick, mem_cons, ApplierEvent.entry.injEq, Entry.mk.injEq,
    EntryPayload.normal.injEq, QueueCommand.scheduleBatch.injEq, not_mem_nil, or_false,
    reduceCtorEq, and_false, false_or] at hmem
  rcases hmem with h | h | h
  all_goals exact ⟨h.2.2.2.1, h.2.2.2.2.1⟩

end RustExample.OpenraftTask
