import Mathlib.Data.List.Induction
import Mathlib.Data.List.Nodup
import RustExample.Foundation.KeyStore

/-!
# A task queue as a replicated state machine

The state has the status of every task and a queue of the ids to hand out. A submission and a
failure with a retry write the status and push the id, a claim takes the first id of the queue and
writes its status, and a completion and a failure without a retry write only the status. No command
looks at the status that was there.

Source: `octopii_with_origin_openraft/src/octopii_task_queue.rs` (`TaskQueueStateMachine`).

* Commands are given decoded. A command that cannot be decoded changes nothing.
* A snapshot is written and read by a `Bincode`. A state that cannot be written gives no bytes.
-/

namespace RustExample.OctopiiQueue

open List

section Commands

/-! ### Commands -/

/-- The bytes of a payload. -/
abbrev Bytes := List UInt8

/-- The commands. -/
inductive TaskCmd where
  | submit (taskId : String) (payload : Bytes)
  | claim (workerId : String)
  | complete (taskId : String) (result : Bytes)
  | fail (taskId : String) (reason : String) (retry : Bool)
  | status (taskId : String)
  deriving DecidableEq

/-- The status of a task. -/
inductive TaskStatus where
  | pending
  | assigned (worker : String)
  | done (result : Bytes)
  | failed (reason : String)
  deriving DecidableEq

/-- The tasks are a `HashMap`, the queue a `VecDeque`. -/
structure QueueState where
  tasks : KeyStore String TaskStatus
  pending : List String

/-- `QueueState::default()`. -/
def QueueState.default : QueueState := ⟨∅, []⟩

/-- What `apply` answers. -/
inductive Response where
  | ok
  | taskId (id : String)
  | empty
  | status (status : Option TaskStatus)
  deriving DecidableEq

/-- `TaskQueueStateMachine::apply`. -/
def QueueState.apply (state : QueueState) : TaskCmd → Response × QueueState
  | .submit taskId _ =>
    (.ok, { tasks := state.tasks.insert taskId .pending, pending := state.pending ++ [taskId] })
  | .claim workerId =>
    match state.pending with
    | taskId :: pending =>
      (.taskId taskId, { tasks := state.tasks.insert taskId (.assigned workerId), pending })
    | [] => (.empty, state)
  | .complete taskId result =>
    (.ok, { state with tasks := state.tasks.insert taskId (.done result) })
  | .fail taskId reason retry =>
    if retry then
      (.ok, { tasks := state.tasks.insert taskId .pending, pending := state.pending ++ [taskId] })
    else (.ok, { state with tasks := state.tasks.insert taskId (.failed reason) })
  | .status taskId => (.status state.tasks[taskId]?, state)

/-- The state after a list of commands. -/
def queueAfter (cmds : List TaskCmd) : QueueState :=
  cmds.foldl (fun state cmd => (state.apply cmd).2) .default

/-! ### Snapshots -/

/-- `bincode::serialize` and `bincode::deserialize` for a state. -/
structure Bincode where
  serialize : QueueState → Except String Bytes
  deserialize : Bytes → Except String QueueState

/-- A state that is read as it was written. -/
def Bincode.Lossless (bincode : Bincode) (state : QueueState) : Prop :=
  ∃ data, bincode.serialize state = .ok data ∧ bincode.deserialize data = .ok state

/-- Writes the state. -/
def snapshot (bincode : Bincode) (state : QueueState) : Bytes :=
  match bincode.serialize state with
  | .ok data => data
  | .error _ => []

/-- `restore`: the outcome and the state it leaves. -/
def restore (bincode : Bincode) (state : QueueState) (data : Bytes) :
    Except String Unit × QueueState :=
  match bincode.deserialize data with
  | .ok restored => (.ok (), restored)
  | .error err => (.error err, state)

theorem restore_snapshot {bincode : Bincode} {state : QueueState} (h : bincode.Lossless state)
    (old : QueueState) : restore bincode old (snapshot bincode state) = (.ok (), state) := by
  obtain ⟨data, hwrite, hread⟩ := h
  rw [snapshot, hwrite, restore, hread]

/-! ### One command -/

variable {state : QueueState} {cmds : List TaskCmd} {cmd : TaskCmd} {id : String}

theorem getElem?_insert (tasks : KeyStore String TaskStatus) (taskId id : String)
    (status : TaskStatus) :
    (tasks.insert taskId status)[id]? = if taskId = id then some status else tasks[id]? := by
  simp [Std.ExtTreeMap.getElem?_insert]

/-- The id that a command hands out. -/
def QueueState.handsOut (state : QueueState) : TaskCmd → Option String
  | .claim _ => state.pending.head?
  | _ => none

/-- A submission of a task, or a failure of it with a retry. -/
def TaskCmd.Requeues (cmd : TaskCmd) (id : String) : Prop :=
  (∃ payload, cmd = .submit id payload) ∨ ∃ reason, cmd = .fail id reason true

/-- **The status of a task after a command**: pending after a submission and a retry, assigned after
a claim of it, done or failed after such a report. -/
theorem getElem?_tasks_apply (state : QueueState) (cmd : TaskCmd) (id : String) :
    cmd.Requeues id ∧ (state.apply cmd).2.tasks[id]? = some .pending ∨
      state.handsOut cmd = some id ∧
        (∃ worker, (state.apply cmd).2.tasks[id]? = some (.assigned worker)) ∨
      (∃ result, cmd = .complete id result ∧
        (state.apply cmd).2.tasks[id]? = some (.done result)) ∨
      (∃ reason, cmd = .fail id reason false ∧
        (state.apply cmd).2.tasks[id]? = some (.failed reason)) ∨
      state.handsOut cmd ≠ some id ∧ (state.apply cmd).2.tasks[id]? = state.tasks[id]? := by
  cases cmd with
  | submit taskId payload =>
    simp only [QueueState.apply, getElem?_insert]
    split_ifs with hid
    · exact .inl ⟨.inl ⟨payload, by rw [hid]⟩, rfl⟩
    · simp [QueueState.handsOut]
  | claim workerId =>
    simp only [QueueState.apply, QueueState.handsOut]
    cases state.pending with
    | nil => simp
    | cons taskId pending =>
      simp only [getElem?_insert, head?_cons]
      split_ifs with hid
      · exact .inr (.inl ⟨by rw [hid], workerId, rfl⟩)
      · simp [hid]
  | complete taskId result =>
    simp only [QueueState.apply, getElem?_insert]
    split_ifs with hid
    · exact .inr (.inr (.inl ⟨result, by rw [hid], rfl⟩))
    · simp [QueueState.handsOut]
  | fail taskId reason retry =>
    cases retry with
    | true =>
      simp only [QueueState.apply, if_true, getElem?_insert]
      split_ifs with hid
      · exact .inl ⟨.inr ⟨reason, by rw [hid]⟩, rfl⟩
      · simp [QueueState.handsOut]
    | false =>
      simp only [QueueState.apply, Bool.false_eq_true, if_false, getElem?_insert]
      split_ifs with hid
      · exact .inr (.inr (.inr (.inl ⟨reason, by rw [hid], rfl⟩)))
      · simp [QueueState.handsOut]
  | status taskId => simp [QueueState.apply, QueueState.handsOut]

/-- A task that is not pending becomes pending only by being requeued. -/
theorem requeues_of_pending (h : (state.apply cmd).2.tasks[id]? = some .pending)
    (hnot : state.tasks[id]? ≠ some .pending) : cmd.Requeues id := by
  rcases getElem?_tasks_apply state cmd id with ⟨hcmd, -⟩ | ⟨-, worker, hid⟩ | ⟨result, -, hid⟩ |
    ⟨reason, -, hid⟩ | ⟨-, hid⟩
  · exact hcmd
  · cases hid.symm.trans h
  · cases hid.symm.trans h
  · cases hid.symm.trans h
  · exact absurd (hid.symm.trans h) hnot

/-! ### Lists of commands -/

theorem queueAfter_snoc (cmds : List TaskCmd) (cmd : TaskCmd) :
    queueAfter (cmds ++ [cmd]) = ((queueAfter cmds).apply cmd).2 := by
  rw [queueAfter, foldl_append]
  rfl

theorem queueAfter_take_succ {n : ℕ} (h : cmds[n]? = some cmd) :
    queueAfter (cmds.take (n + 1)) = ((queueAfter (cmds.take n)).apply cmd).2 := by
  rw [take_add_one, h, Option.toList_some, queueAfter_snoc]

theorem mem_pending_apply (h : id ∈ state.pending) (hnot : state.handsOut cmd ≠ some id) :
    id ∈ (state.apply cmd).2.pending := by
  cases cmd with
  | submit taskId payload => exact mem_append_left _ h
  | claim workerId =>
    simp only [QueueState.apply, QueueState.handsOut] at hnot ⊢
    cases hp : state.pending with
    | nil => exact absurd h (by simp [hp])
    | cons taskId pending =>
      rw [hp] at h hnot
      have hne : id ≠ taskId := fun heq => hnot (by rw [heq, head?_cons])
      exact (List.mem_cons.mp h).resolve_left hne
  | complete taskId result => exact h
  | fail taskId reason retry =>
    cases retry with
    | true => exact mem_append_left _ h
    | false => exact h
  | status taskId => exact h

theorem mem_pending_of_requeues (h : cmd.Requeues id) : id ∈ (state.apply cmd).2.pending := by
  rcases h with ⟨payload, rfl⟩ | ⟨reason, rfl⟩ <;> simp [QueueState.apply]

/-- **No pending task is lost.** A task whose status is pending is in the queue. -/
theorem mem_pending_of_pending (h : (queueAfter cmds).tasks[id]? = some .pending) :
    id ∈ (queueAfter cmds).pending := by
  induction cmds using List.reverseRecOn with
  | nil => simp [queueAfter, QueueState.default] at h
  | append_singleton cmds cmd ih =>
    rw [queueAfter_snoc] at h ⊢
    by_cases hold : (queueAfter cmds).tasks[id]? = some .pending
    · by_cases hout : (queueAfter cmds).handsOut cmd = some id
      · rcases getElem?_tasks_apply (queueAfter cmds) cmd id with ⟨hcmd, -⟩ |
          ⟨-, worker, hid⟩ | ⟨result, -, hid⟩ | ⟨reason, -, hid⟩ | ⟨hnot, -⟩
        · exact mem_pending_of_requeues hcmd
        · cases hid.symm.trans h
        · cases hid.symm.trans h
        · cases hid.symm.trans h
        · exact absurd hout hnot
      · exact mem_pending_apply (ih hold) hout
    · exact mem_pending_of_requeues (requeues_of_pending h hold)

/-- A task that fails at its worker and is to be tried again. -/
theorem mem_pending_of_pending_retry :
    "a" ∈ (queueAfter [.submit "a" [], .claim "w", .fail "a" "busy" true]).pending :=
  mem_pending_of_pending (by simp [queueAfter, QueueState.apply])

end Commands

section Reports

/-! ### What a list of commands should keep -/

/-- Command `n` hands out `id`. -/
def HandedOut (cmds : List TaskCmd) (n : ℕ) (id : String) : Prop :=
  ∃ cmd, cmds[n]? = some cmd ∧ (queueAfter (cmds.take n)).handsOut cmd = some id

/-- A queue with the pending tasks, each once. -/
structure QueueState.InStep (state : QueueState) : Prop where
  nodup : state.pending.Nodup
  mem_iff : ∀ id, id ∈ state.pending ↔ state.tasks[id]? = some .pending

/-- After any number of commands the queue has the pending tasks, each once, and a snapshot restores
the state. A claim hands out a pending task only, and not again before it is requeued. A task that
is done stays so until it is submitted again. -/
structure KeepsQueue (cmds : List TaskCmd) : Prop where
  inStep : ∀ n, (queueAfter (cmds.take n)).InStep
  claim_pending : ∀ n id, HandedOut cmds n id →
    (queueAfter (cmds.take n)).tasks[id]? = some .pending
  claims_apart : ∀ i j id, i < j → HandedOut cmds i id → HandedOut cmds j id →
    ∃ k cmd, i < k ∧ k < j ∧ cmds[k]? = some cmd ∧ cmd.Requeues id
  done_stays : ∀ n cmd id result, cmds[n]? = some cmd →
    (queueAfter (cmds.take n)).tasks[id]? = some (.done result) →
      (∃ result', (queueAfter (cmds.take (n + 1))).tasks[id]? = some (.done result')) ∨
        ∃ payload, cmd = .submit id payload
  restores : ∀ n bincode old, Bincode.Lossless bincode (queueAfter (cmds.take n)) →
    restore bincode old (snapshot bincode (queueAfter (cmds.take n))) =
      (.ok (), queueAfter (cmds.take n))

/-- A submission or report fits if the task is not pending, a failure if it is not done either. -/
def QueueState.Fits (state : QueueState) : TaskCmd → Prop
  | .submit id _ | .complete id _ => state.tasks[id]? ≠ some .pending
  | .fail id _ _ => state.tasks[id]? ≠ some .pending ∧
      ∀ result, state.tasks[id]? ≠ some (.done result)
  | .claim _ | .status _ => True

/-! ### One command -/

namespace QueueState

variable {state : QueueState} {cmd : TaskCmd} {id : String}

theorem InStep.notMem (h : state.InStep) (hid : state.tasks[id]? ≠ some .pending) :
    id ∉ state.pending :=
  fun hmem => hid ((h.mem_iff id).mp hmem)

/-- Pushing a task keeps the queue in step exactly if it is not there. -/
theorem inStep_push_iff (h : state.InStep) :
    InStep ⟨state.tasks.insert id .pending, state.pending ++ [id]⟩ ↔ id ∉ state.pending := by
  constructor
  · intro hpush hmem
    exact (List.nodup_append.mp hpush.nodup).2.2 id hmem id (mem_singleton_self id) rfl
  · intro hnot
    have hnodup : (state.pending ++ [id]).Nodup := by
      simpa only [concat_eq_append] using h.nodup.concat hnot
    refine ⟨hnodup, fun id' => ?_⟩
    rw [getElem?_insert, mem_append, mem_singleton, h.mem_iff]
    split_ifs with hid
    · simp [hid]
    · simp [Ne.symm hid]

/-- Writing another status keeps the queue in step exactly if the task is not there. -/
theorem inStep_write_iff (h : state.InStep) (status : TaskStatus) (hstatus : status ≠ .pending) :
    InStep ⟨state.tasks.insert id status, state.pending⟩ ↔ id ∉ state.pending := by
  constructor
  · intro hwrite hmem
    have hid := (hwrite.mem_iff id).mp hmem
    rw [getElem?_insert, if_pos rfl] at hid
    exact hstatus (Option.some.inj hid)
  · intro hnot
    refine ⟨h.nodup, fun id' => ?_⟩
    rw [getElem?_insert]
    split_ifs with hid
    · rw [← hid]
      exact iff_of_false hnot fun hsome => hstatus (Option.some.inj hsome)
    · exact h.mem_iff id'

/-- A claim takes a task out of the queue and out of its status. -/
theorem InStep.claim (h : state.InStep) (workerId : String) :
    (state.apply (.claim workerId)).2.InStep := by
  rw [apply]
  cases hp : state.pending with
  | nil => exact h
  | cons taskId pending =>
    have hnodup := h.nodup
    rw [hp] at hnodup
    obtain ⟨hnot, hrest⟩ := List.nodup_cons.mp hnodup
    refine ⟨hrest, fun id => ?_⟩
    rw [getElem?_insert]
    split_ifs with hid
    · rw [← hid]
      exact iff_of_false hnot (by simp)
    · rw [← h.mem_iff, hp, mem_cons]
      exact ⟨.inr, fun hmem => hmem.resolve_left (Ne.symm hid)⟩

/-- **One command that fits.** -/
theorem InStep.apply (h : state.InStep) (hfits : state.Fits cmd) : (state.apply cmd).2.InStep := by
  cases cmd with
  | submit id payload => exact (inStep_push_iff h).mpr (h.notMem hfits)
  | claim workerId => exact h.claim workerId
  | complete id result => exact (inStep_write_iff h (.done result) (by simp)).mpr (h.notMem hfits)
  | fail id reason retry =>
    cases retry with
    | true => exact (inStep_push_iff h).mpr (h.notMem hfits.1)
    | false => exact (inStep_write_iff h (.failed reason) (by simp)).mpr (h.notMem hfits.1)
  | status id => exact h

/-- A command that keeps the queue in step and tasks done fits. -/
theorem InStep.fits (h : state.InStep) (h' : (state.apply cmd).2.InStep)
    (hdone : ∀ id result, state.tasks[id]? = some (.done result) →
      (∃ result', (state.apply cmd).2.tasks[id]? = some (.done result')) ∨
        ∃ payload, cmd = .submit id payload) : state.Fits cmd := by
  have hpending : ∀ {id : String}, id ∉ state.pending → state.tasks[id]? ≠ some .pending :=
    fun hnot hid => hnot ((h.mem_iff _).mpr hid)
  cases cmd with
  | submit id payload => exact hpending ((inStep_push_iff h).mp h')
  | claim workerId => trivial
  | complete id result => exact hpending ((inStep_write_iff h (.done result) nofun).mp h')
  | fail id reason retry =>
    refine ⟨?_, fun result hid => ?_⟩
    · cases retry with
      | true => exact hpending ((inStep_push_iff h).mp h')
      | false => exact hpending ((inStep_write_iff h (.failed reason) nofun).mp h')
    · rcases hdone id result hid with ⟨result', hid'⟩ | ⟨payload, hcmd⟩
      · cases retry <;> simp [QueueState.apply] at hid'
      · cases hcmd
  | status id => trivial

theorem tasks_of_handsOut (h : state.handsOut cmd = some id) :
    ∃ worker, (state.apply cmd).2.tasks[id]? = some (.assigned worker) := by
  cases cmd with
  | claim workerId =>
    rw [handsOut] at h
    rw [QueueState.apply]
    cases hp : state.pending with
    | nil => simp [hp] at h
    | cons taskId pending =>
      rw [hp, head?_cons] at h
      exact ⟨workerId, by rw [getElem?_insert, if_pos (Option.some.inj h)]⟩
  | _ => cases h

/-- A task that is done stays so under a command that fits and does not submit it. -/
theorem InStep.done_stays {result : Bytes} (h : state.InStep) (hfits : state.Fits cmd)
    (hid : state.tasks[id]? = some (.done result)) :
    (∃ result', (state.apply cmd).2.tasks[id]? = some (.done result')) ∨
      ∃ payload, cmd = .submit id payload := by
  rcases getElem?_tasks_apply state cmd id with ⟨hcmd, -⟩ | ⟨hout, -⟩ | ⟨result', -, hid'⟩ |
    ⟨reason, rfl, -⟩ | ⟨-, hid'⟩
  · rcases hcmd with hsubmit | ⟨reason, rfl⟩
    · exact .inr hsubmit
    · exact absurd hid (hfits.2 result)
  · cases cmd with
    | claim workerId =>
      have hpending := (h.mem_iff id).mp (mem_of_head? hout)
      cases hid.symm.trans hpending
    | _ => cases hout
  · exact .inl ⟨result', hid'⟩
  · exact absurd hid (hfits.2 result)
  · exact .inl ⟨result, hid'.trans hid⟩

end QueueState

/-! ### Lists of commands -/

variable {cmds : List TaskCmd} {id : String}

/-- A task that becomes pending again was requeued in between. -/
theorem exists_requeues {m n : ℕ} (hmn : m ≤ n)
    (hm : (queueAfter (cmds.take m)).tasks[id]? ≠ some .pending)
    (hn : (queueAfter (cmds.take n)).tasks[id]? = some .pending) :
    ∃ k cmd, m ≤ k ∧ k < n ∧ cmds[k]? = some cmd ∧ cmd.Requeues id := by
  induction n with
  | zero =>
    obtain rfl : m = 0 := by omega
    exact absurd hn hm
  | succ n ih =>
    by_cases hlast : m = n + 1
    · rw [hlast] at hm
      exact absurd hn hm
    by_cases hold : (queueAfter (cmds.take n)).tasks[id]? = some .pending
    · obtain ⟨k, cmd, hmk, hkn, hcmd, hrequeues⟩ := ih (by omega) hold
      exact ⟨k, cmd, hmk, by omega, hcmd, hrequeues⟩
    · cases hcmd : cmds[n]? with
      | none =>
        rw [take_add_one, hcmd, Option.toList_none, append_nil] at hn
        exact absurd hn hold
      | some cmd =>
        rw [queueAfter_take_succ hcmd] at hn
        exact ⟨n, cmd, by omega, by omega, hcmd, requeues_of_pending hn hold⟩

/-- **Lists of commands that fit.** What the queue should keep is kept exactly if every command fits
the status of its task by then. -/
theorem keeps_queue_iff (cmds : List TaskCmd) :
    KeepsQueue cmds ↔ ∀ n cmd, cmds[n]? = some cmd → (queueAfter (cmds.take n)).Fits cmd := by
  constructor
  · intro h n cmd hcmd
    have hsucc := h.inStep (n + 1)
    rw [queueAfter_take_succ hcmd] at hsucc
    refine (h.inStep n).fits hsucc fun id result hid => ?_
    rw [← queueAfter_take_succ hcmd]
    exact h.done_stays n cmd id result hcmd hid
  · intro hfits
    have hinStep : ∀ n, (queueAfter (cmds.take n)).InStep := by
      intro n
      induction n with
      | zero => exact ⟨nodup_nil, fun id => by simp [queueAfter, QueueState.default]⟩
      | succ n ih =>
        cases hcmd : cmds[n]? with
        | none =>
          rw [take_add_one, hcmd, Option.toList_none, append_nil]
          exact ih
        | some cmd =>
          rw [queueAfter_take_succ hcmd]
          exact ih.apply (hfits n cmd hcmd)
    have hclaim : ∀ n id, HandedOut cmds n id →
        (queueAfter (cmds.take n)).tasks[id]? = some .pending := by
      rintro n id ⟨cmd, -, hout⟩
      cases cmd with
      | claim workerId => exact ((hinStep n).mem_iff id).mp (mem_of_head? hout)
      | _ => cases hout
    refine ⟨hinStep, hclaim, fun i j id hij hi hj => ?_,
      fun n cmd id result hcmd hid => ?_, fun n bincode old hloss => restore_snapshot hloss old⟩
    · obtain ⟨cmd, hcmd, hout⟩ := hi
      obtain ⟨worker, hassigned⟩ := QueueState.tasks_of_handsOut hout
      have hnot : (queueAfter (cmds.take (i + 1))).tasks[id]? ≠ some .pending := by
        rw [queueAfter_take_succ hcmd, hassigned]
        simp
      obtain ⟨k, cmd', hik, hkj, hk, hrequeues⟩ := exists_requeues hij hnot (hclaim j id hj)
      exact ⟨k, cmd', hik, hkj, hk, hrequeues⟩
    · rw [queueAfter_take_succ hcmd]
      exact (hinStep n).done_stays (hfits n cmd hcmd) hid

/-- A client submits a task twice, and two workers claim it. -/
def resubmitted : List TaskCmd := [.submit "a" [], .submit "a" [], .claim "w", .claim "w'"]

/-- The second claim hands out a task that is assigned and was not requeued since the first. -/
theorem resubmitted_task_handed_out_twice :
    (queueAfter (resubmitted.take 2)).pending = ["a", "a"] ∧ HandedOut resubmitted 2 "a" ∧
      HandedOut resubmitted 3 "a" ∧
      (queueAfter (resubmitted.take 3)).tasks["a"]? = some (.assigned "w") ∧
      ¬KeepsQueue resubmitted := by
  refine ⟨rfl, ⟨.claim "w", rfl, rfl⟩, ⟨.claim "w'", rfl, rfl⟩, by decide, fun h => ?_⟩
  have hnodup := (h.inStep 2).nodup
  revert hnodup
  decide

end Reports

end RustExample.OctopiiQueue
