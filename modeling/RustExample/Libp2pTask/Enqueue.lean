import Mathlib.Data.Finset.Insert
import RustExample.Foundation.Calls

/-!
# Enqueueing a task once

A task that reaches a node is marked as seen, journalled and, on a follower, sent to the channel
of the worker. Any number of calls interleave; each journal append and the send may fail, and the
raft role may change between any two steps.

Source: `libp2p_task/src/state.rs`, `enqueue_task_once`, `mark_task_seen`;
`libp2p_task/src/raft_role.rs`.

* `Call` lists the points of a call between its awaits. An event `advance` has the error of the
  append or the send that it performs, if it fails; a failed append leaves the journal as it was.
* The channel is the list of the tasks that were sent. The times in the journal are left out.
-/

namespace RustExample.Libp2pTask.Enqueue

open List

/-! ### Tasks -/

/-- A submitted task. -/
structure DistributedTask where
  id : String
  kind : String
  payload : String
  submittedBy : String
  submittedAtMs : ℕ
deriving DecidableEq, Repr

/-- The stages of a task. -/
inductive TaskStage
  | published
  | submittedLocally
  | receivedFromLibp2p
  | openRaftFollowerConfirmed
  | waitingForOpenRaftState
  | skippedOnOpenRaftNonFollower
  | enqueuedInApalis
  | startedByApalis
  | finishedByApalis
deriving DecidableEq, Repr

/-- What is told of a task. -/
structure TaskUnderstanding where
  taskId : String
  stage : TaskStage
  node : String
  detail : String
deriving DecidableEq, Repr

/-- What became of a task. -/
inductive TaskDispatch
  | enqueued
  | alreadyHandled
  | skippedOnNonFollower
  | waitingForOpenRaftState
deriving DecidableEq, Repr

/-- The server states of openraft. -/
inductive ServerState
  | learner
  | follower
  | candidate
  | leader
  | shutdown
deriving DecidableEq, Repr

/-- `{:?}` -/
def ServerState.debug : ServerState → String
  | .learner => "Learner"
  | .follower => "Follower"
  | .candidate => "Candidate"
  | .leader => "Leader"
  | .shutdown => "Shutdown"

/-! ### The state of a node -/

/-- The journal, the tasks that were sent, the raft role, and the ids that are marked. -/
structure AppState where
  peerId : String
  localNodeId : String
  journal : List TaskUnderstanding
  incomingTasks : List DistributedTask
  state : Option ServerState
  currentLeader : Option String
  seenTasks : Finset String
deriving DecidableEq

/-- The state of a new node. -/
def AppState.new (peerId localNodeId : String) (state : Option ServerState)
    (currentLeader : Option String) : AppState :=
  ⟨peerId, localNodeId, [], [], state, currentLeader, ∅⟩

/-! ### Calls -/

/-- The points of `enqueue_task_once` between its awaits. -/
inductive Call
  /-- Before `raft_role.state()`. -/
  | enter (task : DistributedTask) (acceptedStage : TaskStage) (acceptedDetail : String)
  /-- The state is unknown: before the two appends. -/
  | acceptUnknown (task : DistributedTask) (acceptedStage : TaskStage) (acceptedDetail : String)
  | delay (task : DistributedTask)
  /-- Before `mark_task_seen`. -/
  | mark (task : DistributedTask) (acceptedStage : TaskStage) (acceptedDetail : String)
      (openraftState : ServerState)
  /-- Marked: before the append. -/
  | accept (task : DistributedTask) (acceptedStage : TaskStage) (acceptedDetail : String)
      (openraftState : ServerState)
  /-- Before `raft_role.is_follower()`. -/
  | checkRole (task : DistributedTask) (openraftState : ServerState)
  /-- No follower: before the append. -/
  | skip (task : DistributedTask) (openraftState : ServerState)
  /-- Before `raft_role.current_leader()`. -/
  | readLeader (task : DistributedTask) (openraftState : ServerState)
  /-- Before the append. -/
  | confirm (task : DistributedTask) (openraftState : ServerState) (leaderDetail : String)
  /-- Before the send. -/
  | send (task : DistributedTask)
  /-- Sent: before the last append. -/
  | record (task : DistributedTask)
  | returned (task : DistributedTask) (result : Except String TaskDispatch)
deriving DecidableEq

/-- `journal.append(..).await?`, after which the call goes on as `next`. -/
def AppState.append (s : AppState) (task : DistributedTask) (stage : TaskStage) (detail : String)
    (failure : Option String) (next : Call) : AppState × Call :=
  match failure with
  | none => ({ s with journal := s.journal ++ [⟨task.id, stage, s.peerId, detail⟩] }, next)
  | some e => (s, .returned task (.error e))

/-- `incoming_tasks.send(task).await.context(..)?` -/
def AppState.send (s : AppState) (task : DistributedTask) (failure : Option String)
    (next : Call) : AppState × Call :=
  match failure with
  | none => ({ s with incomingTasks := s.incomingTasks ++ [task] }, next)
  | some _ => (s, .returned task (.error "enqueue task for apalis worker"))

namespace Call

/-- The next step of a call, whose append or send fails with `failure`. -/
def next (s : AppState) (failure : Option String) : Call → Option (AppState × Call)
  | .enter task acceptedStage acceptedDetail =>
    match s.state with
    | none => some (s, .acceptUnknown task acceptedStage acceptedDetail)
    | some openraftState => some (s, .mark task acceptedStage acceptedDetail openraftState)
  | .acceptUnknown task acceptedStage acceptedDetail =>
    some (s.append task acceptedStage acceptedDetail failure (.delay task))
  | .delay task =>
    some (s.append task .waitingForOpenRaftState
      "openraft server state is unknown; apalis execution is delayed" failure
      (.returned task (.ok .waitingForOpenRaftState)))
  | .mark task acceptedStage acceptedDetail openraftState =>
    if task.id ∈ s.seenTasks then some (s, .returned task (.ok .alreadyHandled))
    else some ({ s with seenTasks := insert task.id s.seenTasks },
      .accept task acceptedStage acceptedDetail openraftState)
  | .accept task acceptedStage acceptedDetail openraftState =>
    some (s.append task acceptedStage acceptedDetail failure (.checkRole task openraftState))
  | .checkRole task openraftState =>
    if s.state = some .follower then some (s, .readLeader task openraftState)
    else some (s, .skip task openraftState)
  | .skip task openraftState =>
    some (s.append task .skippedOnOpenRaftNonFollower
      s!"local openraft state is {openraftState.debug}; apalis task must run only on a follower"
      failure (.returned task (.ok .skippedOnNonFollower)))
  | .readLeader task openraftState =>
    some (s, .confirm task openraftState (s.currentLeader.getD "unknown"))
  | .confirm task openraftState leaderDetail =>
    some (s.append task .openRaftFollowerConfirmed
      (s!"openraft leader={leaderDetail}; local node={s.localNodeId} is {openraftState.debug} " ++
        "and may run apalis task")
      failure (.send task))
  | .send task => some (s.send task failure (.record task))
  | .record task =>
    some (s.append task .enqueuedInApalis "task enqueued into apalis memory backend" failure
      (.returned task (.ok .enqueued)))
  | .returned .. => none

end Call

/-! ### Runs -/

/-- The raft role changes, a call is made, or the `i`-th call takes a step. -/
inductive Event
  | setState (state : Option ServerState)
  | setCurrentLeader (leaderId : Option String)
  | call (task : DistributedTask) (acceptedStage : TaskStage) (acceptedDetail : String)
  | advance (i : ℕ) (failure : Option String)

/-- A node with its calls. -/
abbrev Node := AppState × List Call

/-- What an event does, if it may happen. -/
def step (x : Node) : Event → Option Node
  | .setState state => some ({ x.1 with state }, x.2)
  | .setCurrentLeader leaderId => some ({ x.1 with currentLeader := leaderId }, x.2)
  | .call task acceptedStage acceptedDetail =>
    some (x.1, x.2 ++ [.enter task acceptedStage acceptedDetail])
  | .advance i failure =>
    x.2[i]?.bind fun c => (c.next x.1 failure).map fun r => (r.1, x.2.set i r.2)

/-- One event. -/
abbrev Step (x : Node) (e : Event) (x' : Node) : Prop := step x e = some x'

/-- The task was sent, or one of its calls has skipped it. -/
def Settled (x : Node) (id : String) : Prop :=
  id ∈ x.1.incomingTasks.map DistributedTask.id ∨
    ∃ task, task.id = id ∧ .returned task (.ok .skippedOnNonFollower) ∈ x.2

/-- All calls have returned. -/
def Quiescent (x : Node) : Prop := ∀ c ∈ x.2, ∃ task result, c = .returned task result

/-- The appends and the send between the mark and the moment the task was sent or skipped. -/
def Call.Pending : Call → Prop
  | .accept .. | .skip .. | .confirm .. | .send .. => True
  | _ => False

/-- The event is no failure between the mark and the moment the task was sent or skipped. -/
def Harmless (x : Node) : Event → Prop
  | .advance i (some _) => ∀ c, x.2[i]? = some c → ¬ c.Pending
  | _ => True

/-! ### The mark of a task -/

/-- The id that a call has marked and not sent: it still will, or it has skipped the task. -/
def Call.marked : Call → Option String
  | .accept task .. | .checkRole task _ | .skip task _ | .readLeader task _ | .confirm task _ _
  | .send task | .returned task (.ok .skippedOnNonFollower) => some task.id
  | _ => none

/-- `1` for the call that has marked the id. -/
def Call.weight (id : String) (c : Call) : ℕ := if c.marked = some id then 1 else 0

/-- `1` if the id is marked. -/
def AppState.mark (s : AppState) (id : String) : ℕ := if id ∈ s.seenTasks then 1 else 0

/-- How often a task was sent. -/
def AppState.sent (s : AppState) (id : String) : ℕ :=
  (s.incomingTasks.map DistributedTask.id).count id

/-- How often a task was sent, is still to be sent, or was skipped. -/
def load (x : Node) (id : String) : ℕ := x.1.sent id + tally (Call.weight id) x.2

@[simp] theorem weight_returned_error (id : String) (task : DistributedTask) (e : String) :
    (Call.returned task (.error e)).weight id = 0 := by
  simp [Call.weight, Call.marked]

variable {failure : Option String}

theorem append_spec {s s' : AppState} {task : DistributedTask} {stage : TaskStage} {detail : String}
    {next c : Call} (h : s.append task stage detail failure next = (s', c)) (id : String) :
    s'.sent id = s.sent id ∧ s'.mark id = s.mark id ∧
      (failure = none ∧ c = next ∨ failure ≠ none ∧ c.weight id = 0) := by
  cases failure with
  | none =>
    obtain ⟨⟩ := h
    exact ⟨rfl, rfl, .inl ⟨rfl, rfl⟩⟩
  | some e =>
    obtain ⟨⟩ := h
    exact ⟨rfl, rfl, .inr ⟨nofun, weight_returned_error id task e⟩⟩

/-- An append that does not fail, or that belongs to no marked task, keeps the balance. -/
theorem append_balance {s s' : AppState} {task : DistributedTask} {stage : TaskStage}
    {detail : String} {next c c' : Call} (h : s.append task stage detail failure next = (s', c'))
    (hok : failure = none ∨ ¬ c.Pending) (id : String) (hnext : next.weight id = c.weight id)
    (hc : ¬ c.Pending → c.weight id = 0) :
    s'.sent id + c'.weight id + s.mark id = s.sent id + c.weight id + s'.mark id := by
  obtain ⟨hsent, hmark, ⟨-, rfl⟩ | ⟨hne, hzero⟩⟩ := append_spec h id
  · rw [hsent, hmark, hnext]
  · rw [hsent, hmark, hzero, hc (hok.resolve_left hne)]

/-- **A step that loses nothing** keeps the balance between the mark and what comes of it. -/
theorem next_balance {s s' : AppState} {c c' : Call} (h : c.next s failure = some (s', c'))
    (hok : failure = none ∨ ¬ c.Pending) (id : String) :
    s'.sent id + c'.weight id + s.mark id = s.sent id + c.weight id + s'.mark id := by
  have hpending {c : Call} (hc : c.Pending) : ¬ c.Pending → c.weight id = 0 := absurd hc
  cases c with
  | enter task stage detail =>
    rw [Call.next] at h
    split at h <;> obtain ⟨rfl, rfl⟩ := Prod.mk.inj (Option.some.inj h) <;> rfl
  | acceptUnknown | delay | record =>
    exact append_balance (Option.some.inj h) hok id rfl fun _ => rfl
  | accept | skip | confirm =>
    exact append_balance (Option.some.inj h) hok id rfl (hpending trivial)
  | checkRole task openraftState =>
    rw [Call.next] at h
    split at h <;> obtain ⟨rfl, rfl⟩ := Prod.mk.inj (Option.some.inj h) <;> rfl
  | readLeader =>
    obtain ⟨⟩ := h
    rfl
  | returned => cases h
  | mark task stage detail openraftState =>
    rw [Call.next] at h
    split_ifs at h with hmem
    · obtain ⟨⟩ := h
      rfl
    · obtain ⟨⟩ := h
      -- the id is marked, and this call has marked it
      by_cases hid : task.id = id
      · subst hid
        simp [AppState.sent, AppState.mark, Call.weight, Call.marked, hmem]
      · simp [AppState.sent, AppState.mark, Call.weight, Call.marked, hid, Ne.symm hid]
  | send task =>
    obtain rfl : failure = none := hok.resolve_right (not_not_intro trivial)
    obtain ⟨⟩ := h
    -- the call gives its mark up for what was sent
    by_cases hid : task.id = id
    · subst hid
      simp [AppState.sent, AppState.mark, Call.weight, Call.marked]
    · simp [AppState.sent, AppState.mark, Call.weight, Call.marked, hid]

/-- **A failure between the mark and the send** leaves the mark, and nothing comes of it. -/
theorem next_loses {s s' : AppState} {c c' : Call} {e : String}
    (h : c.next s (some e) = some (s', c')) (hc : c.Pending) :
    s' = s ∧ (∀ id, c'.weight id = 0) ∧ ∃ id, c.weight id = 1 := by
  have happend {task : DistributedTask} {stage : TaskStage} {detail : String} {next : Call}
      (h : s.append task stage detail (some e) next = (s', c')) :
      s' = s ∧ ∀ id, c'.weight id = 0 := by
    obtain ⟨⟩ := h
    exact ⟨rfl, fun id => weight_returned_error id task e⟩
  cases c with
  | accept task | skip task | confirm task =>
    obtain ⟨hs, hw⟩ := happend (Option.some.inj h)
    exact ⟨hs, hw, task.id, if_pos rfl⟩
  | send task =>
    obtain ⟨⟩ := h
    exact ⟨rfl, fun id => weight_returned_error id task _, task.id, if_pos rfl⟩
  | _ => exact hc.elim

/-! ### Steps of a node -/

/-- A step that loses nothing keeps the balance of every id. -/
theorem step_balance {x x' : Node} {e : Event} (h : step x e = some x') (hok : Harmless x e)
    (id : String) : load x' id + x.1.mark id = load x id + x'.1.mark id := by
  cases e with
  | setState | setCurrentLeader =>
    obtain ⟨⟩ := h
    rfl
  | call task stage detail =>
    obtain ⟨⟩ := h
    rw [load, tally_snoc]
    rfl
  | advance i failure =>
    obtain ⟨c, hi, h⟩ := Option.bind_eq_some_iff.mp h
    obtain ⟨⟨s', c'⟩, hnext, rfl⟩ := Option.map_eq_some_iff.mp h
    have hc : failure = none ∨ ¬ c.Pending := by
      cases failure with
      | none => exact .inl rfl
      | some e => exact .inr (hok c hi)
    have hbalance := next_balance hnext hc id
    have htally := tally_set (Call.weight id) hi c'
    simp only [load]
    omega

/-- A failure between the mark and the send loses a task that is marked. -/
theorem step_loses {x x' : Node} {e : Event} (h : step x e = some x') (hlost : ¬ Harmless x e) :
    x'.1 = x.1 ∧ (∀ id, load x' id ≤ load x id) ∧ ∃ id, load x' id + 1 = load x id := by
  cases e with
  | setState | setCurrentLeader | call => exact absurd trivial hlost
  | advance i failure =>
    cases failure with
    | none => exact absurd trivial hlost
    | some e =>
      obtain ⟨c, hi, h⟩ := Option.bind_eq_some_iff.mp h
      obtain ⟨⟨s', c'⟩, hnext, rfl⟩ := Option.map_eq_some_iff.mp h
      have hc : c.Pending := by
        by_contra hnot
        exact hlost fun d hd => Option.some.inj (hi.symm.trans hd) ▸ hnot
      obtain ⟨rfl, hzero, id, hone⟩ := next_loses hnext hc
      have htally (id : String) := tally_set (Call.weight id) hi c'
      refine ⟨rfl, fun id => ?_, id, ?_⟩
      · have := htally id
        have := hzero id
        simp only [load]
        omega
      · have := htally id
        have := hzero id
        simp only [load]
        omega

/-! ### Runs of a node -/

theorem mark_le_one (s : AppState) (id : String) : s.mark id ≤ 1 := by
  rw [AppState.mark]
  split_ifs <;> omega

theorem mark_eq_one {s : AppState} {id : String} : s.mark id = 1 ↔ id ∈ s.seenTasks := by
  rw [AppState.mark]
  split_ifs with h <;> simp [h]

/-- What comes of the marks: never more than one for each, exactly one if nothing was lost, and
none for some mark otherwise. -/
structure Sound (x₀ : Node) (es : List Event) (x : Node) : Prop where
  le_mark : ∀ id, load x id ≤ x.1.mark id
  eq_mark : Run.AtEvents Step x₀ Harmless es → ∀ id, load x id = x.1.mark id
  lost : ¬ Run.AtEvents Step x₀ Harmless es → ∃ id, x.1.mark id = 1 ∧ load x id = 0

/-- **One step** of a run. -/
theorem Sound.step {x₀ x x' : Node} {es : List Event} {e : Event} (run : Run Step x₀ es x)
    (h : Sound x₀ es x) (hstep : step x e = some x') : Sound x₀ (es ++ [e]) x' := by
  have hdet (t : Node) (ht : Run Step x₀ es t) : t = x :=
    Run.state_unique (fun _ _ _ _ h h' => Option.some.inj (h.symm.trans h')) ht run
  have hlast (hall : Run.AtEvents Step x₀ Harmless (es ++ [e])) : Harmless x e :=
    hall es.length x e (by rwa [take_left]) (by simp)
  by_cases hok : Harmless x e
  · have hbalance := step_balance hstep hok
    have hsnoc : Run.AtEvents Step x₀ Harmless (es ++ [e]) ↔ Run.AtEvents Step x₀ Harmless es :=
      ⟨Run.AtEvents.of_append, fun hall => hall.snoc fun t ht => hdet t ht ▸ hok⟩
    refine ⟨fun id => ?_, fun hall id => ?_, fun hnot => ?_⟩
    · have := hbalance id
      have := h.le_mark id
      omega
    · have := hbalance id
      have := h.eq_mark (hsnoc.mp hall) id
      omega
    · -- a task that is lost stays lost
      obtain ⟨id, hmark, hload⟩ := h.lost fun hall => hnot (hsnoc.mpr hall)
      have := hbalance id
      have := mark_le_one x'.1 id
      exact ⟨id, by omega, by omega⟩
  · obtain ⟨hsame, hle, id, hlost⟩ := step_loses hstep hok
    refine ⟨fun id => hsame ▸ (hle id).trans (h.le_mark id), fun hall => absurd (hlast hall) hok,
      fun _ => ⟨id, ?_⟩⟩
    have := h.le_mark id
    have := mark_le_one x.1 id
    rw [hsame]
    exact ⟨by omega, by omega⟩

/-- **A run** of a node. -/
theorem sound_of_run {s₀ : AppState} (hsent : s₀.incomingTasks = []) (hseen : s₀.seenTasks = ∅)
    {es : List Event} {x : Node} (run : Run Step (s₀, []) es x) : Sound (s₀, []) es x := by
  refine run.history ⟨fun id => ?_, fun _ id => ?_, fun hnot => absurd nofun hnot⟩
    fun _ _ _ _ run h hstep => h.step run hstep
  all_goals simp [load, AppState.sent, AppState.mark, hsent, hseen]

/-- A call that has returned has a mark if it has skipped its task. -/
theorem marked_returned {task : DistributedTask} {result : Except String TaskDispatch}
    {id : String} : (Call.returned task result).marked = some id ↔
      task.id = id ∧ result = .ok .skippedOnNonFollower := by
  rcases result with e | dispatch
  · simp [Call.marked]
  · cases dispatch <;> simp [Call.marked]

/-- At rest, what comes of a mark is a task that was sent or skipped. -/
theorem settled_iff_load {x : Node} (hx : Quiescent x) {id : String} :
    Settled x id ↔ 0 < load x id := by
  have hweight : 0 < tally (Call.weight id) x.2 ↔
      ∃ task, task.id = id ∧ .returned task (.ok .skippedOnNonFollower) ∈ x.2 := by
    rw [tally, List.sum_pos_iff_exists_pos_nat]
    constructor
    · rintro ⟨_, hmem, hpos⟩
      obtain ⟨c, hc, rfl⟩ := List.mem_map.mp hmem
      obtain ⟨task, result, rfl⟩ := hx c hc
      have hmarked : (Call.returned task result).marked = some id := by
        by_contra hne
        simp [Call.weight, hne] at hpos
      obtain ⟨hid, rfl⟩ := marked_returned.mp hmarked
      exact ⟨task, hid, hc⟩
    · rintro ⟨task, rfl, hmem⟩
      exact ⟨_, mem_map_of_mem hmem, by simp [Call.weight, Call.marked]⟩
  rw [Settled, load, Nat.add_pos_iff_pos_or_pos, hweight, AppState.sent, count_pos_iff]

/-- **Enqueueing once.** Each task is sent at most once. At rest, every marked task was sent or
skipped exactly if no append or send failed in between. -/
theorem enqueueTaskOnce_settles_iff (peerId localNodeId : String) (state : Option ServerState)
    (currentLeader : Option String) (es : List Event) (x : Node)
    (run : Run Step (.new peerId localNodeId state currentLeader, []) es x) :
    (x.1.incomingTasks.map DistributedTask.id).Nodup ∧
      (Quiescent x → ((∀ id ∈ x.1.seenTasks, Settled x id) ↔
        Run.AtEvents Step (.new peerId localNodeId state currentLeader, []) Harmless es)) := by
  have hsound := sound_of_run rfl rfl run
  refine ⟨List.nodup_iff_count_le_one.mpr fun id => ?_,
    fun hx => ⟨fun hall => ?_, fun hall id hid => ?_⟩⟩
  · have hle := (hsound.le_mark id).trans (mark_le_one x.1 id)
    rw [load, AppState.sent] at hle
    omega
  · by_contra hnot
    obtain ⟨id, hmark, hload⟩ := hsound.lost hnot
    have hsettled := (settled_iff_load hx).mp (hall id (mark_eq_one.mp hmark))
    omega
  · rw [settled_iff_load hx, hsound.eq_mark hall id, mark_eq_one.mpr hid]
    exact Nat.one_pos

/-- A task. -/
def oneTask : DistributedTask := ⟨"t", "email.send", "p", "n", 0⟩

/-- A follower enqueues a task, and nothing fails. -/
theorem enqueueTaskOnce_settles_oneTask :
    ∃ x, Run Step (.new "n" "1" (some .follower) none, [])
        (.call oneTask .receivedFromLibp2p "d" :: List.replicate 8 (.advance 0 none)) x ∧
      x.2 = [.returned oneTask (.ok .enqueued)] ∧ ∀ id ∈ x.1.seenTasks, Settled x id := by
  have hcalls : ((Event.call oneTask .receivedFromLibp2p "d" ::
      List.replicate 8 (.advance 0 none)).foldlM step
        (.new "n" "1" (some .follower) none, [])).map Prod.snd =
      some [.returned oneTask (.ok .enqueued)] := by
    decide
  obtain ⟨x, hx, hreturned⟩ := Option.map_eq_some_iff.mp hcalls
  have hrun := Run.of_foldlM hx
  refine ⟨x, hrun, hreturned, ((enqueueTaskOnce_settles_iff _ _ _ _ _ x hrun).2 ?_).mpr ?_⟩
  · intro c hc
    rw [hreturned, mem_singleton] at hc
    exact ⟨_, _, hc⟩
  · intro n t e _ he
    rcases List.mem_cons.mp (mem_of_getElem? he) with rfl | he
    · trivial
    · rw [eq_of_mem_replicate he]
      trivial

/-- The append after the mark fails: the task is offered again, and is not enqueued. -/
theorem enqueueTaskOnce_loses_oneTask :
    ∃ x, Run Step (.new "n" "1" (some .follower) none, [])
        [.call oneTask .receivedFromLibp2p "d", .advance 0 none, .advance 0 none,
          .advance 0 (some "write task understanding"),
          .call oneTask .receivedFromLibp2p "d", .advance 1 none, .advance 1 none] x ∧
      x.2 = [.returned oneTask (.error "write task understanding"),
        .returned oneTask (.ok .alreadyHandled)] ∧
      Quiescent x ∧ ¬ ∀ id ∈ x.1.seenTasks, Settled x id := by
  have hend : ([Event.call oneTask .receivedFromLibp2p "d", .advance 0 none, .advance 0 none,
      .advance 0 (some "write task understanding"), .call oneTask .receivedFromLibp2p "d",
      .advance 1 none, .advance 1 none].foldlM step (.new "n" "1" (some .follower) none, [])) =
      some (⟨"n", "1", [], [], some .follower, none, {"t"}⟩,
        [.returned oneTask (.error "write task understanding"),
          .returned oneTask (.ok .alreadyHandled)]) := by
    decide
  refine ⟨_, Run.of_foldlM hend, rfl, ?_, fun hall => ?_⟩
  · intro c hc
    rcases List.mem_pair.mp hc with rfl | rfl <;> exact ⟨_, _, rfl⟩
  · obtain hsent | ⟨task, -, hskipped⟩ := hall "t" (Finset.mem_singleton_self _)
    · exact not_mem_nil hsent
    · simp at hskipped

end RustExample.Libp2pTask.Enqueue
