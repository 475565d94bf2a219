import RustExample.OpenraftTask.Queue

/-!
# Acknowledgements

A worker completes or fails the task that it claimed. By then the task may have been reclaimed,
killed or handed to another worker, but the two commands look neither at the status of the task
nor at its lock: a late acknowledgement overwrites whatever it finds. It does no harm only if it
says again what the record already says.
-/

namespace RustExample.OpenraftTask

variable {L M : Type}

/-! ### What an acknowledgement writes -/

/-- The task that a command acknowledges. -/
def QueueCommand.acked : QueueCommand → Option String
  | .complete id _ | .fail id _ _ => some id
  | .submit _ | .submitBatch _ | .claim .. | .kill _ | .reclaim .. | .scheduleBatch .. => none

/-- The record of the task after an acknowledgement. -/
def QueueCommand.ackRecord : QueueCommand → TaskRecord → TaskRecord
  | .complete _ result, task => { task with status := .done, result := some ⟨true, result, none⟩ }
  | .fail _ reason retry, task =>
    let task := { task with result := some ⟨false, [], some reason⟩ }
    if retry then { task with status := .pending, lockBy := none, claimedAt := none }
    else { task with status := .failed }
  | .submit _, task | .submitBatch _, task | .claim .., task | .kill _, task | .reclaim .., task
  | .scheduleBatch .., task => task

/-- An acknowledgement that says what the record already says. -/
def QueueCommand.Repeats : QueueCommand → TaskRecord → Prop
  | .complete _ result, task => task.status = .done ∧ task.result = some ⟨true, result, none⟩
  | .fail _ reason retry, task => task.result = some ⟨false, [], some reason⟩ ∧
    if retry then task.status = .pending ∧ task.lockBy = none ∧ task.claimedAt = none
    else task.status = .failed
  | .submit _, _ | .submitBatch _, _ | .claim .., _ | .kill _, _ | .reclaim .., _
  | .scheduleBatch .., _ => True

theorem ackRecord_eq_iff (command : QueueCommand) (task : TaskRecord) :
    command.ackRecord task = task ↔ command.Repeats task := by
  obtain ⟨taskId, payload, attempts, status, runAt, lockBy, result, claimedAt⟩ := task
  cases command with
  | complete => simp [QueueCommand.ackRecord, QueueCommand.Repeats, eq_comm]
  | fail id reason retry =>
    cases retry with
    | true => simp [QueueCommand.ackRecord, QueueCommand.Repeats, eq_comm]; tauto
    | false => simp [QueueCommand.ackRecord, QueueCommand.Repeats, eq_comm]; tauto
  | submit | submitBatch | claim | kill | reclaim | scheduleBatch => exact iff_of_true rfl trivial

namespace CommandStep

variable {sm sm' : RocksStateMachine L M} {e : Applied L} {id : String}

/-- **An acknowledgement.** It overwrites the record of its task, whatever that says. -/
theorem getElem?_of_acked (h : CommandStep sm e sm') (hack : e.command.acked = some id) :
    sm'.db.tasks[id]? = (sm.db.tasks[id]?).map e.command.ackRecord := by
  obtain ⟨logId, command, response⟩ := e
  rw [h.getElem?_tasks, ← sm.loadTask_startBatch]
  cases command with
  | complete id' result =>
    obtain rfl : id' = id := Option.some.inj hack
    cases hload : sm.startBatch.stage.loadTask sm.db.tasks id' with
    | none => simp only [applyCommand, hload, Option.map_none]
    | some task =>
      simp only [applyCommand, hload, Stage.loadTask_putTask, if_true, Option.map_some,
        QueueCommand.ackRecord]
  | fail id' reason retry =>
    obtain rfl : id' = id := Option.some.inj hack
    cases hload : sm.startBatch.stage.loadTask sm.db.tasks id' with
    | none => simp only [applyCommand, hload, Option.map_none]
    | some task =>
      cases retry with
      | true =>
        simp only [applyCommand, hload, Stage.loadTask_putTask, if_true, Option.map_some,
          QueueCommand.ackRecord]
      | false =>
        simp only [applyCommand, hload, Stage.loadTask_putTask, if_true, Option.map_some,
          QueueCommand.ackRecord, Bool.false_eq_true, if_false]
  | submit | submitBatch | claim | kill | reclaim | scheduleBatch => cases hack

/-- An acknowledgement that repeats the record leaves the queue as it is. -/
theorem pending_of_repeats (hsm : sm.Queued) (h : CommandStep sm e sm')
    (hack : e.command.acked = some id)
    (hrepeats : ∀ task, sm.db.tasks[id]? = some task → e.command.Repeats task) :
    sm'.pending = sm.pending := by
  obtain ⟨logId, command, response⟩ := e
  refine h.stage_matches.pending.symm.trans ?_
  cases command with
  | complete id' result =>
    rw [applyCommand]
    cases sm.startBatch.stage.loadTask sm.db.tasks id' with
    | none => rfl
    | some task => rfl
  | fail id' reason retry =>
    obtain rfl : id' = id := Option.some.inj hack
    rw [applyCommand]
    cases hload : sm.startBatch.stage.loadTask sm.db.tasks id' with
    | none => rfl
    | some task =>
      cases retry with
      | true =>
        have hstatus := (hrepeats task ((sm.loadTask_startBatch id').symm.trans hload)).2.1
        have hmem := (hsm.ids id').mpr (hsm.queued id' task hload hstatus)
        show (sm.startBatch.stage.enqueue id').pending = sm.pending
        rw [Stage.enqueue, if_pos hmem]
        rfl
      | false => rfl
  | submit | submitBatch | claim | kill | reclaim | scheduleBatch => cases hack

theorem getElem?_of_kill (h : CommandStep sm e sm') (hkill : e.command = .kill id) :
    sm'.db.tasks[id]? =
      (sm.db.tasks[id]?).map fun task => { task with status := .killed, lockBy := none } := by
  rw [h.getElem?_tasks, hkill, ← sm.loadTask_startBatch, applyCommand]
  cases hload : sm.startBatch.stage.loadTask sm.db.tasks id with
  | none => exact hload
  | some task => exact (Stage.loadTask_putTask _ _ _).trans (if_pos rfl)

end CommandStep

/-! ### Runs with acknowledgements -/

/-- The command submits the task. -/
def QueueCommand.Submits (id : String) : QueueCommand → Prop
  | .submit task => task.taskId = id
  | .submitBatch tasks => ∃ task ∈ tasks, task.taskId = id
  | .claim .. | .complete .. | .fail .. | .kill _ | .reclaim .. | .scheduleBatch .. => False

/-- A command that ends the claim of a task: it kills it, or finds it stalled. -/
def Ends (id : String) (db : TaskStore) : QueueCommand → Prop
  | .kill id' => id' = id
  | .reclaim timeoutSecs now => ∃ task, db[id]? = some task ∧ task.Stalled timeoutSecs now
  | .submit _ | .submitBatch _ | .claim .. | .complete .. | .fail .. | .scheduleBatch .. => False

/-- The task is done or killed. -/
def TaskRecord.Terminal (task : TaskRecord) : Prop := task.status = .done ∨ task.status = .killed

/-- The state before event `k`. -/
def StateAt (es : List (Applied L)) (k : ℕ) (sm : RocksStateMachine L M) : Prop :=
  Run CommandStep .initial (es.take k) sm

/-- Every acknowledgement is sent for a claim of its task that comes before it. -/
def Acknowledges (es : List (Applied L)) (claimOf : ℕ → ℕ) : Prop :=
  ∀ k e id, es[k]? = some e → e.command.acked = some id →
    claimOf k < k ∧ ∃ c, es[claimOf k]? = some c ∧ c.Claims id

/-- The acknowledgement at `k` is stale: the task was reclaimed or killed after its claim. -/
def Stale (M : Type) (es : List (Applied L)) (claimOf : ℕ → ℕ) (id : String) (k : ℕ) : Prop :=
  Between M (Ends id) es (claimOf k) k

/-- Terminal states are final: while nobody submits the task, it keeps its result. A stale
acknowledgement changes neither the record nor the queue. -/
structure AcksSound (M : Type) (es : List (Applied L)) (claimOf : ℕ → ℕ) : Prop where
  final : ∀ j k (sm sm' : RocksStateMachine L M) id task, j ≤ k → StateAt es j sm →
    StateAt es k sm' → sm.db.tasks[id]? = some task → task.Terminal →
    (∀ i e, j ≤ i → i < k → es[i]? = some e → ¬e.command.Submits id) →
    ∃ task', sm'.db.tasks[id]? = some task' ∧ task'.status ≠ .pending ∧
      task'.status ≠ .running ∧ task'.result = task.result
  ignored : ∀ k e id (sm sm' : RocksStateMachine L M), es[k]? = some e →
    e.command.acked = some id → Stale M es claimOf id k → StateAt es k sm →
    StateAt es (k + 1) sm' →
    sm'.db.tasks[id]? = sm.db.tasks[id]? ∧ sm'.pending = sm.pending

/-- Every acknowledgement that is stale, or finds its task done, says what the record says. -/
def LateAcksRepeat (M : Type) (es : List (Applied L)) (claimOf : ℕ → ℕ) : Prop :=
  ∀ k e id (sm : RocksStateMachine L M) task, es[k]? = some e → e.command.acked = some id →
    StateAt es k sm → sm.db.tasks[id]? = some task →
    Stale M es claimOf id k ∨ task.status = .done → e.command.Repeats task

variable {sm : RocksStateMachine L M}

/-- **One command.** A terminal task keeps its result, if nobody submits it and an acknowledgement
says what its record says. -/
theorem CommandStep.terminal {sm' : RocksStateMachine L M} {e : Applied L} {id : String}
    {task : TaskRecord} (hsm : sm.Queued) (h : CommandStep sm e sm')
    (htask : sm.db.tasks[id]? = some task) (hterminal : task.Terminal)
    (hsubmit : ¬e.command.Submits id) (hack : e.command.acked = some id → e.command.Repeats task) :
    ∃ task', sm'.db.tasks[id]? = some task' ∧ task'.Terminal ∧ task'.result = task.result := by
  by_cases hacked : e.command.acked = some id
  · refine ⟨task, ?_, hterminal, rfl⟩
    rw [h.getElem?_of_acked hacked, htask, Option.map_some,
      (ackRecord_eq_iff _ _).mpr (hack hacked)]
  rcases h.status hsm id with hsame | ⟨task', htask', hsets⟩
  · exact ⟨task, hsame.trans htask, hterminal, rfl⟩
  have hstatus {t : TaskRecord} (ht : sm.db.tasks[id]? = some t) :
      t.status = .done ∨ t.status = .killed := by
    obtain ⟨⟩ := htask.symm.trans ht
    exact hterminal
  generalize hcommand : e.command = command at hsets hsubmit hacked
  cases command with
  | submit | submitBatch => exact absurd hsets.1 hsubmit
  | claim workerId now =>
    obtain ⟨⟨t, ht, hpending⟩, -⟩ := hsets
    exact absurd (hpending ▸ hstatus ht) nofun
  | complete id' | fail id' => exact absurd (congrArg some hsets.1) hacked
  | kill id' =>
    obtain rfl := hsets.1
    refine ⟨{ task with status := .killed, lockBy := none }, ?_, .inr rfl, rfl⟩
    rw [h.getElem?_of_kill hcommand, htask, Option.map_some]
  | reclaim timeoutSecs now =>
    obtain ⟨⟨t, ht, hstalled⟩, -⟩ := hsets
    exact absurd (hstalled.1 ▸ hstatus ht) nofun
  | scheduleBatch => exact absurd (htask.symm.trans hsets.1) nofun

section Runs

variable {es : List (Applied L)} {claimOf : ℕ → ℕ} {k : ℕ}

theorem CommandStep.unique (sm : RocksStateMachine L M) (e : Applied L)
    (sm₁ sm₂ : RocksStateMachine L M) (h₁ : CommandStep sm e sm₁) (h₂ : CommandStep sm e sm₂) :
    sm₁ = sm₂ :=
  (Prod.mk.inj (h₁.symm.trans h₂)).1

theorem StateAt.unique {sm₁ sm₂ : RocksStateMachine L M} (h₁ : StateAt es k sm₁)
    (h₂ : StateAt es k sm₂) : sm₁ = sm₂ :=
  Run.state_unique CommandStep.unique h₁ h₂

/-- A state is reached by one more command, or the run has ended. -/
theorem StateAt.succ {sm' : RocksStateMachine L M} (h : StateAt es (k + 1) sm') :
    (es[k]? = none ∧ StateAt es k sm') ∨
      ∃ e sm, es[k]? = some e ∧ StateAt es k sm ∧ CommandStep sm e sm' := by
  rw [StateAt, List.take_add_one] at h
  cases he : es[k]? with
  | none =>
    rw [he, Option.toList_none, List.append_nil] at h
    exact .inl ⟨rfl, h⟩
  | some e =>
    rw [he, Option.toList_some] at h
    obtain ⟨sm, hsm, hstep⟩ := h.of_snoc
    exact .inr ⟨e, sm, rfl, hsm, hstep⟩

/-- An acknowledgement that finds its task killed is stale. -/
theorem Acknowledges.stale_of_killed (hacks : Acknowledges es claimOf) {e : Applied L} {id : String}
    (he : es[k]? = some e) (hack : e.command.acked = some id) (hsm : StateAt es k sm)
    {task : TaskRecord} (htask : sm.db.tasks[id]? = some task) (hkilled : task.status = .killed) :
    Stale M es claimOf id k := by
  obtain ⟨hlt, c, hc, hclaims⟩ := hacks k e id he hack
  have hcases := between_or_status_at (S := (· ≠ .killed)) (P := Ends) nofun
    (fun id db command status hid hset => ?_) hsm hlt hc hclaims
  · rcases hcases with hbetween | ⟨task', htask', hstatus⟩
    · exact hbetween
    · obtain ⟨⟩ := htask'.symm.trans htask
      exact absurd hkilled hstatus
  · cases command with
    | submit | submitBatch | claim | complete | reclaim => exact .inl (hset.2 ▸ nofun)
    | fail id' reason retry =>
      refine .inl (hset.2 ▸ ?_)
      split_ifs <;> exact nofun
    | kill id' => exact .inr hset.1
    | scheduleBatch => exact absurd hset.1 hid

theorem done_result (run : Run CommandStep .initial es sm) (id : String) (task : TaskRecord)
    (htask : sm.db.tasks[id]? = some task) (hdone : task.status = .done) :
    ∃ payload, task.result = some ⟨true, payload, none⟩ := by
  induction run generalizing task with
  | nil => exact absurd htask (by simp [RocksStateMachine.initial])
  | @snoc es sm sm' e run hstep ih =>
    rcases hstep.status (queued_of_run run) id with hsame | ⟨task', htask', hsets⟩
    · exact ih task (hsame.symm.trans htask) hdone
    · obtain ⟨⟩ := htask'.symm.trans htask
      rw [hdone] at hsets
      generalize hcommand : e.command = command at hsets
      cases command with
      | complete id' payload =>
        have hack : e.command.acked = some id := by rw [hcommand, hsets.1]; rfl
        rw [hstep.getElem?_of_acked hack, hcommand] at htask
        obtain ⟨task, -, rfl⟩ := Option.map_eq_some_iff.mp htask
        exact ⟨payload, rfl⟩
      | submit | submitBatch | claim | kill | reclaim | scheduleBatch => cases hsets.2
      | fail id' reason retry => cases retry <;> cases hsets.2

/-- The record and the state after the acknowledgement at `k`. -/
theorem StateAt.ack {sm' : RocksStateMachine L M} {e : Applied L} {id : String}
    (hsm : StateAt es k sm) (hsm' : StateAt es (k + 1) sm') (he : es[k]? = some e)
    (hack : e.command.acked = some id) :
    CommandStep sm e sm' ∧ sm'.db.tasks[id]? = (sm.db.tasks[id]?).map e.command.ackRecord := by
  rcases hsm'.succ with ⟨hnone, -⟩ | ⟨e', sm₁, he', hsm₁, hstep⟩
  · exact absurd (he.symm.trans hnone) nofun
  · obtain ⟨⟩ := he.symm.trans he'
    obtain rfl := hsm.unique hsm₁
    exact ⟨hstep, hstep.getElem?_of_acked hack⟩

theorem not_submits_of_acked {command : QueueCommand} {id id' : String}
    (hack : command.acked = some id') : ¬command.Submits id := by
  cases command with
  | complete | fail => exact not_false
  | submit | submitBatch | claim | kill | reclaim | scheduleBatch => cases hack

/-- An acknowledgement of a done task that leaves it final repeats its record. -/
theorem repeats_of_final {command : QueueCommand} {id : String} {task : TaskRecord}
    (hack : command.acked = some id) (hdone : task.status = .done)
    (hcompleted : ∃ payload, task.result = some ⟨true, payload, none⟩)
    (hpending : (command.ackRecord task).status ≠ .pending)
    (hresult : (command.ackRecord task).result = task.result) : command.Repeats task := by
  cases command with
  | complete id' result => exact ⟨hdone, hresult.symm⟩
  | fail id' reason retry =>
    cases retry with
    | true => exact absurd rfl hpending
    | false =>
      obtain ⟨payload, hpayload⟩ := hcompleted
      exact absurd (hresult.trans hpayload) nofun
  | submit | submitBatch | claim | kill | reclaim | scheduleBatch => cases hack

theorem AcksSound.lateAcksRepeat (run : Run CommandStep .initial es sm)
    (h : AcksSound M es claimOf) :
    LateAcksRepeat M es claimOf := by
  intro k e id smk task he hack hsm htask hlate
  obtain ⟨sm', hsm'⟩ := run.take (k + 1)
  have hafter := (hsm.ack hsm' he hack).2
  rw [htask, Option.map_some] at hafter
  by_cases hstale : Stale M es claimOf id k
  · have hsame := (h.ignored k e id smk sm' he hack hstale hsm hsm').1
    rw [hafter, htask] at hsame
    exact (ackRecord_eq_iff _ _).mp (Option.some.inj hsame)
  · -- The task is done, and the acknowledgement may not change its result.
    have hdone := hlate.resolve_left hstale
    obtain ⟨task', htask', hpending, -, hresult⟩ := h.final k (k + 1) smk sm' id task
      (Nat.le_succ k) hsm hsm' htask (.inl hdone) fun i c hki hik hc => by
        obtain rfl : i = k := Nat.le_antisymm (Nat.le_of_lt_succ hik) hki
        obtain ⟨⟩ := he.symm.trans hc
        exact not_submits_of_acked hack
    obtain ⟨⟩ := hafter.symm.trans htask'
    exact repeats_of_final hack hdone (done_result hsm id task htask hdone) hpending hresult

/-- Along a run a terminal task stays terminal with its result. -/
theorem LateAcksRepeat.terminal (hacks : Acknowledges es claimOf) (h : LateAcksRepeat M es claimOf)
    {j : ℕ} {sm' : RocksStateMachine L M} {id : String} {task : TaskRecord} (hjk : j ≤ k)
    (hsm : StateAt es j sm) (hsm' : StateAt es k sm') (htask : sm.db.tasks[id]? = some task)
    (hterminal : task.Terminal)
    (hsubmit : ∀ i e, j ≤ i → i < k → es[i]? = some e → ¬e.command.Submits id) :
    ∃ task', sm'.db.tasks[id]? = some task' ∧ task'.Terminal ∧ task'.result = task.result := by
  induction k, hjk using Nat.le_induction generalizing sm' with
  | base => exact ⟨task, by rwa [hsm'.unique hsm], hterminal, rfl⟩
  | succ k hjk ih =>
    have hsubmit' (i : ℕ) (c : Applied L) (hji : j ≤ i) (hik : i < k) :=
      hsubmit i c hji (Nat.lt_succ_of_lt hik)
    rcases hsm'.succ with ⟨-, hsame⟩ | ⟨e, smk, he, hsmk, hstep⟩
    · exact ih hsame hsubmit'
    · obtain ⟨taskk, htaskk, hterminalk, hresultk⟩ := ih hsmk hsubmit'
      have hrepeats (hack : e.command.acked = some id) : e.command.Repeats taskk := by
        refine h k e id smk taskk he hack hsmk htaskk ?_
        exact hterminalk.symm.imp_left fun hkilled =>
          hacks.stale_of_killed he hack hsmk htaskk hkilled
      obtain ⟨task', htask', hterminal', hresult'⟩ := hstep.terminal (queued_of_run hsmk) htaskk
        hterminalk (hsubmit k e hjk (Nat.lt_succ_self k) he) hrepeats
      exact ⟨task', htask', hterminal', hresult'.trans hresultk⟩

theorem LateAcksRepeat.acksSound (hacks : Acknowledges es claimOf)
    (h : LateAcksRepeat M es claimOf) : AcksSound M es claimOf where
  final j k sm sm' id task hjk hsm hsm' htask hterminal hsubmit := by
    obtain ⟨task', htask', hstatus | hstatus, hresult⟩ :=
      h.terminal hacks hjk hsm hsm' htask hterminal hsubmit
    · exact ⟨task', htask', hstatus ▸ nofun, hstatus ▸ nofun, hresult⟩
    · exact ⟨task', htask', hstatus ▸ nofun, hstatus ▸ nofun, hresult⟩
  ignored k e id sm sm' he hack hstale hsm hsm' := by
    obtain ⟨hstep, hafter⟩ := hsm.ack hsm' he hack
    have hrepeats (task : TaskRecord) (htask : sm.db.tasks[id]? = some task) :
        e.command.Repeats task := h k e id sm task he hack hsm htask (.inl hstale)
    refine ⟨?_, hstep.pending_of_repeats (queued_of_run hsm) hack hrepeats⟩
    rw [hafter]
    cases htask : sm.db.tasks[id]? with
    | none => rfl
    | some task => rw [Option.map_some, (ackRecord_eq_iff _ _).mpr (hrepeats task htask)]

/-- **Late acknowledgements.** If workers acknowledge what they claimed, terminal states are final
and stale acknowledgements ignored if and only if every one that is stale or finds its task done
says what the record says. -/
theorem acksSound_iff_lateAcksRepeat {sm : RocksStateMachine L M}
    (run : Run CommandStep .initial es sm) (hacks : Acknowledges es claimOf) :
    AcksSound M es claimOf ↔ LateAcksRepeat M es claimOf :=
  ⟨fun h => h.lateAcksRepeat run, fun h => h.acksSound hacks⟩

end Runs

/-! ### A completion in time, and a failure after a kill -/

/-- What applying a list of commands from the start leads to. -/
def applied (commands : List (ℕ × QueueCommand)) : List (Applied ℕ) × RocksStateMachine ℕ Unit :=
  RocksStateMachine.initial.applyCommands commands

/-- A task that is submitted, claimed and completed, and completed again. -/
def completeLog : List (ℕ × QueueCommand) :=
  [(1, .submit (.pending "t" [] 0)), (2, .claim "w" 5), (3, .complete "t" [1]),
    (4, .complete "t" [1])]

theorem acknowledges_completeLog : Acknowledges (applied completeLog).1 fun _ => 1 := by
  rintro (_ | _ | _ | _ | k) e id ⟨⟩ hack
  · cases hack
  · cases hack
  · cases hack
    exact ⟨by decide, _, rfl, retriedTask 1 5 none, by decide, rfl⟩
  · cases hack
    exact ⟨by decide, _, rfl, retriedTask 1 5 none, by decide, rfl⟩

/-- A completion in time, and a late one that says the same. -/
theorem acksSound_iff_lateAcksRepeat_complete :
    AcksSound Unit (applied completeLog).1 fun _ => 1 := by
  refine (acksSound_iff_lateAcksRepeat (run_applyCommands .initial completeLog)
    acknowledges_completeLog).mpr ?_
  rintro (_ | _ | _ | _ | k) e id sm task ⟨⟩ hack hsm htask hlate
  · cases hack
  · cases hack
  · cases hack
    have hclaimed : StateAt (applied completeLog).1 2 (applied (completeLog.take 2)).2 :=
      run_applyCommands .initial (completeLog.take 2)
    obtain rfl := StateAt.unique hsm hclaimed
    rcases hlate with ⟨j, -, -, hj, hj', -⟩ | hdone
    · have hlt : 1 < j := hj
      omega
    · have hrunning := congrArg (Option.map TaskRecord.status) htask
      rw [Option.map_some, hdone] at hrunning
      exact absurd hrunning (by decide)
  · cases hack
    have hdone : StateAt (applied completeLog).1 3 (applied (completeLog.take 3)).2 :=
      run_applyCommands .initial (completeLog.take 3)
    obtain rfl := StateAt.unique hsm hdone
    obtain ⟨⟩ := htask
    exact ⟨rfl, rfl⟩

/-- A task that is submitted, claimed, killed, and failed by its worker afterwards. -/
def killLog : List (ℕ × QueueCommand) :=
  [(1, .submit (.pending "t" [] 0)), (2, .claim "w" 5), (3, .kill "t"),
    (4, .fail "t" "lost" true)]

theorem acknowledges_killLog : Acknowledges (applied killLog).1 fun _ => 1 := by
  rintro (_ | _ | _ | _ | k) e id ⟨⟩ hack
  · cases hack
  · cases hack
  · cases hack
  · cases hack
    exact ⟨by decide, _, rfl, retriedTask 1 5 none, by decide, rfl⟩

/-- **A killed task runs again**: its worker fails it after that, with a retry. -/
theorem late_ack_revives_killed :
    Run CommandStep .initial (applied killLog).1 (applied killLog).2 ∧
      Acknowledges (applied killLog).1 (fun _ => 1) ∧ (applied killLog).2.pending = ["t"] ∧
      ¬AcksSound Unit (applied killLog).1 fun _ => 1 := by
  refine ⟨run_applyCommands _ _, acknowledges_killLog, by decide, fun h => ?_⟩
  have hkilled : StateAt (applied killLog).1 3 (applied (killLog.take 3)).2 :=
    run_applyCommands .initial (killLog.take 3)
  have hend : StateAt (applied killLog).1 4 (applied killLog).2 :=
    run_applyCommands .initial killLog
  obtain ⟨task', htask', hpending, -⟩ := h.final 3 4 _ _ "t"
    { retriedTask 1 5 none with status := .killed, lockBy := none } (by decide) hkilled hend
    (by decide) (.inr rfl) fun i e hi hi' he => by
      obtain rfl : i = 3 := by omega
      cases he
      exact not_false
  have hstatus := congrArg (Option.map TaskRecord.status) htask'
  refine hpending (Option.some.inj (hstatus.symm.trans ?_))
  decide

end RustExample.OpenraftTask
