import Mathlib.Data.List.Nodup
import RustExample.OpenraftCluster.Tasks.Scans

/-!
# The scheduler of the task group

The leader hands out the queued tasks that are due. A pass first returns tasks to the queue whose
worker is lost or hangs, then scans the queued index up to the first task that is not due yet and
proposes an assignment for each task before it. The vacuum scans the terminal index in the same way.

Source: `src/tasks/scheduler.rs`.

* A pass reads the key space several times and proposes commands in between. The group it runs in is
  a parameter: a read and a proposal may find that others have written, and a proposal may fail.
* What the key space holds under `task:` was written by task commands, whose nodes are peer ids and
  have no colon.
* An error of a read and an unknown group are left out, and so are logs, metrics and the wake of a
  worker after its assignment.
* Instants are numbers of nanoseconds.
-/

namespace RustExample.OpenraftCluster

open List

variable (texts : TextForms)

/-! ### The group of a scheduler -/

/-- The key spaces that task commands reach. -/
def Reached (s : KeySpace) : Prop :=
  ∃ es, (∀ e ∈ es, e.cmd.NodeColonFree) ∧ Run (CommandStep texts) ∅ es s

/-- A group with states `σ`: what a read finds and what becomes of a proposal. -/
structure TaskGroup (σ : Type) where
  read : σ → KeySpace × σ
  clientWrite : TaskRequest → σ → Except String Response × σ
  reached : ∀ g, Reached texts (read g).1

/-- What a pass finds outside of the key space: the time, the configuration and the peers. -/
structure PassInputs where
  now : UInt64
  tickNow : ℕ
  stuckRequeueSecs : UInt64
  /-- The node id is that of a peer which is connected or has announced itself. -/
  isPeerAlive : String → Bool
  xxh3 : String → UInt64

/-! ### Workers -/

/-- How long a worker may be away, in ns. -/
def workerDisconnectGrace : ℕ := 15 * 10 ^ 9

/-- Since when a worker is disconnected. -/
abbrev DownSince := String → Option ℕ

/-- The workers of a pass. -/
structure WorkerView where
  assignable : List WorkerLeaseRecord
  retained : List String

/-- The workers that were found so far. -/
structure WorkerScan where
  assignable : List WorkerLeaseRecord
  retained : List String
  leasedIds : List String
  downSince : DownSince

variable {texts}

/-- Takes the lease of a worker. -/
def WorkerScan.lease (pass : PassInputs) (scan : WorkerScan) (lease : WorkerLeaseRecord) :
    WorkerScan :=
  let scan := { scan with leasedIds := lease.nodeId :: scan.leasedIds }
  let forgotten : DownSince := fun id => if id = lease.nodeId then none else scan.downSince id
  if lease.expiresAt < pass.now then { scan with downSince := forgotten }
  else if pass.isPeerAlive lease.nodeId then
    { scan with
      downSince := forgotten
      retained := lease.nodeId :: scan.retained
      assignable := scan.assignable ++ [lease] }
  else
    let since := (scan.downSince lease.nodeId).getD pass.tickNow
    let scan := { scan with
      downSince := fun id => if id = lease.nodeId then some since else scan.downSince id }
    if pass.tickNow - since < workerDisconnectGrace then
      { scan with retained := lease.nodeId :: scan.retained }
    else scan

variable (texts) in
/-- The workers in the store. -/
def workerView (pass : PassInputs) (downSince : DownSince) (entries : List (String × String)) :
    WorkerView × DownSince :=
  let leases := entries.filterMap fun e => (texts.workerLease.fromStr e.2).toOption
  let scan := leases.foldl (WorkerScan.lease pass) ⟨[], [], [], downSince⟩
  (⟨scan.assignable.mergeSort fun a b => a.nodeId ≤ b.nodeId, scan.retained⟩,
    fun id => if id ∈ scan.leasedIds then scan.downSince id else none)

/-- The worker at the task's hash. -/
def selectWorker (xxh3 : String → UInt64) (workers : List WorkerLeaseRecord) (taskId : String) :
    Option WorkerLeaseRecord :=
  if workers.isEmpty then none else workers[(xxh3 taskId).toNat % workers.length]?

/-! ### A pass -/

/-- The difference, or zero. -/
def saturatingSub (a b : UInt64) : UInt64 := if a < b then 0 else a - b

/-- A task on a worker that is retained is stuck if it was not updated for too long. -/
def isStuck (pass : PassInputs) (record : TaskRecord) : Bool :=
  (record.status = .assigned || record.status = .running) &&
    pass.stuckRequeueSecs < saturatingSub pass.now record.updatedAt

namespace TaskGroup

variable {σ : Type} (group : TaskGroup texts σ) (pass : PassInputs)

/-- The first scan of a pass: the tasks that are taken from their workers. -/
def requeueInFlight (retained : List String) :
    List (String × String) → σ → Except String Unit × List TaskRequest × σ
  | [], g => (.ok (), [], g)
  | (key, _) :: rest, g =>
    match parseAssignedIdxKey key with
    | none => requeueInFlight retained rest g
    | some (nodeId, taskId) =>
      let (requeues, g) :=
        if nodeId ∉ retained then (true, g)
        else
          let (s, g) := group.read g
          ((recordAt texts s taskId).any (isStuck pass), g)
      if requeues then
        match group.clientWrite (.taskRequeue taskId) g with
        | (.error err, g) =>
          (.error ("requeue " ++ taskId ++ " failed: " ++ err), [.taskRequeue taskId], g)
        | (.ok _, g) =>
          let (result, proposed, g) := requeueInFlight retained rest g
          (result, .taskRequeue taskId :: proposed, g)
      else requeueInFlight retained rest g

/-- The second scan of a pass: the tasks that are due. -/
def assignDue (workers : List WorkerLeaseRecord) :
    List (String × String) → σ → Except String (Option UInt64) × List TaskRequest × σ
  | [], g => (.ok none, [], g)
  | (key, _) :: rest, g =>
    match parseQueuedIdxKey key with
    | none => assignDue workers rest g
    | some (runAt, taskId) =>
      if pass.now < runAt then (.ok (some runAt), [], g)
      else
        match selectWorker pass.xxh3 workers taskId with
        | none => (.ok none, [], g)
        | some worker =>
          let assign := .taskAssign taskId worker.nodeId worker.leaseEpoch pass.now
          match group.clientWrite assign g with
          | (.error err, g) => (.error ("assign " ++ taskId ++ " failed: " ++ err), [assign], g)
          | (.ok _, g) =>
            -- a rejected assignment is skipped, an accepted one wakes its worker
            let (result, proposed, g) := assignDue workers rest g
            (result, assign :: proposed, g)

/-- The part of a pass before the queue is read. -/
def requeueStage (downSince : DownSince) (g : σ) :
    WorkerView × DownSince × Except String Unit × List TaskRequest × σ :=
  let (s, g) := group.read g
  let (view, downSince) := workerView texts pass downSince (s.entriesWithPrefix taskWorkerPrefix)
  let (s, g) := group.read g
  (view, downSince, group.requeueInFlight pass view.retained
    (s.entriesWithPrefix taskAssignedIdxPrefix) g)

/-- One pass: what it returns, what it has proposed, and what it leaves. -/
def schedulerTick (downSince : DownSince) (g : σ) :
    Except String (Option UInt64) × List TaskRequest × DownSince × σ :=
  match group.requeueStage pass downSince g with
  | (_, downSince, .error err, requeued, g) => (.error err, requeued, downSince, g)
  | (view, downSince, .ok (), requeued, g) =>
    let (s, g) := group.read g
    if view.assignable.isEmpty then (.ok none, requeued, downSince, g)
    else
      let (result, assigned, g) :=
        group.assignDue pass view.assignable (s.entriesWithPrefix taskQueuedIdxPrefix) g
      (result, requeued ++ assigned, downSince, g)

end TaskGroup

/-! ### The vacuum -/

/-- The tasks of one vacuum. -/
def vacuumBatchLimit : ℕ := 256

/-- The loop over the terminal index, with the ids it has selected. -/
def expiredIds (cutoff : UInt64) : List String → List (String × String) → List String
  | ids, [] => ids
  | ids, (key, _) :: rest =>
    match parseTerminalIdxKey key with
    | none => expiredIds cutoff ids rest
    | some (completedAt, taskId) =>
      if cutoff < completedAt then ids
      else if vacuumBatchLimit ≤ (ids ++ [taskId]).length then ids ++ [taskId]
      else expiredIds cutoff (ids ++ [taskId]) rest

/-- Removes finished tasks by the scan. -/
def TaskGroup.vacuumExpiredTasks {σ : Type} (group : TaskGroup texts σ) (now retention : UInt64)
    (g : σ) : Except String Unit × List TaskRequest × σ :=
  let (s, g) := group.read g
  let ids := expiredIds (saturatingSub now retention) []
    (s.entriesWithPrefix taskTerminalIdxPrefix)
  if ids.isEmpty then (.ok (), [], g)
  else
    match group.clientWrite (.taskVacuum ids) g with
    | (.error err, g) => (.error ("vacuum failed: " ++ err), [.taskVacuum ids], g)
    | (.ok _, g) => (.ok (), [.taskVacuum ids], g)

/-! ### Scans that stop -/

section Scans

variable {α : Type} {l : List α} {p : α → Bool}

/-- A scan that stops at the first element that is not in question misses none. -/
theorem takeWhile_eq_filter (h : l.Pairwise fun a b => p b → p a) : l.takeWhile p = l.filter p := by
  induction l with
  | nil => rfl
  | cons a l ih =>
    obtain ⟨hhead, htail⟩ := List.pairwise_cons.mp h
    rw [takeWhile_cons, filter_cons]
    split_ifs with ha
    · rw [ih htail]
    · exact (List.filter_eq_nil_iff.mpr fun b hb hpb => ha (hhead b hb hpb)).symm

theorem mem_takeWhile_iff (h : l.Pairwise fun a b => p b → p a) {a : α} :
    a ∈ l.takeWhile p ↔ a ∈ l ∧ p a = true := by
  rw [takeWhile_eq_filter h, mem_filter]

/-- What a scan stops at comes before everything else that is not in question. -/
theorem head?_dropWhile_eq_some {r : α → α → Prop} (hr : l.Pairwise r) {a : α}
    (ha : (l.dropWhile p).head? = some a) :
    a ∈ l ∧ p a = false ∧ ∀ b ∈ l, p b = false → b = a ∨ r a b := by
  induction l with
  | nil => cases ha
  | cons c l ih =>
    obtain ⟨hhead, htail⟩ := List.pairwise_cons.mp hr
    rw [dropWhile_cons] at ha
    split_ifs at ha with hc
    · obtain ⟨hmem, hpa, hleast⟩ := ih htail ha
      refine ⟨mem_cons_of_mem c hmem, hpa, fun b hb hpb => ?_⟩
      rcases List.mem_cons.mp hb with rfl | hb
      · rw [hc] at hpb
        cases hpb
      · exact hleast b hb hpb
    · obtain ⟨⟩ := ha
      refine ⟨mem_cons_self, Bool.eq_false_iff.mpr hc, fun b hb _ => ?_⟩
      exact (List.mem_cons.mp hb).imp_right (hhead b)

theorem head?_dropWhile_eq_none (h : (l.dropWhile p).head? = none) : ∀ a ∈ l, p a = true := by
  rw [head?_eq_none_iff, dropWhile_eq_nil_iff] at h
  exact h

end Scans

/-! ### What a pass proposes -/

variable (texts) in
/-- A queued task with its due time. -/
def QueuedAt (s : KeySpace) (runAt : UInt64) (id : String) : Prop :=
  ∃ r, recordAt texts s id = some r ∧ r.status = .queued ∧ r.runAt = runAt

variable (texts) in
/-- A task that is done or has failed, with the time of it. -/
def TerminalAt (s : KeySpace) (completedAt : UInt64) (id : String) : Prop :=
  ∃ r, recordAt texts s id = some r ∧ (r.status = .done ∨ r.status = .failed) ∧
    r.completedAt = completedAt

variable (texts) in
/-- **The queued tasks that are due are assigned**, each once, and the next time is returned. -/
structure AssignsDue (s : KeySpace) (pass : PassInputs) (workers : List WorkerLeaseRecord)
    (nextDue : Option UInt64) (assigned : List TaskRequest) : Prop where
  each_once : ∃ ids : List String, ids.Nodup ∧
    (∀ id, id ∈ ids ↔ ∃ runAt ≤ pass.now, QueuedAt texts s runAt id) ∧
    List.Forall₂ (fun id cmd => ∃ worker ∈ workers,
      cmd = .taskAssign id worker.nodeId worker.leaseEpoch pass.now) ids assigned
  eq_some_iff : ∀ t, nextDue = some t ↔
    IsLeast {runAt | pass.now < runAt ∧ ∃ id, QueuedAt texts s runAt id} t
  eq_none_iff : nextDue = none ↔ ∀ runAt id, QueuedAt texts s runAt id → runAt ≤ pass.now

variable (texts) in
/-- **The oldest tasks that have expired are selected**, up to the bound of a batch. -/
structure SelectsOldest (s : KeySpace) (cutoff : UInt64) (ids : List String) : Prop where
  nodup : ids.Nodup
  length_le : ids.length ≤ vacuumBatchLimit
  expired : ∀ id ∈ ids, ∃ completedAt ≤ cutoff, TerminalAt texts s completedAt id
  oldest : ∀ completedAt id, TerminalAt texts s completedAt id → completedAt ≤ cutoff → id ∉ ids →
    ids.length = vacuumBatchLimit ∧
      ∀ id' ∈ ids, ∃ completedAt', TerminalAt texts s completedAt' id' ∧
        Before (completedAt', id') (completedAt, id)

variable {workers : List WorkerLeaseRecord}

theorem exists_selectWorker (xxh3 : String → UInt64) (h : workers ≠ []) (taskId : String) :
    ∃ worker ∈ workers, selectWorker xxh3 workers taskId = some worker := by
  have hlt : (xxh3 taskId).toNat % workers.length < workers.length :=
    Nat.mod_lt _ (length_pos_of_ne_nil h)
  refine ⟨workers[(xxh3 taskId).toNat % workers.length], getElem_mem hlt, ?_⟩
  rw [selectWorker, if_neg (by simpa using h), getElem?_eq_getElem hlt]

variable {es : List (UInt64 × String)}

/-- The second scan stops at the first task that is not due. -/
theorem TaskGroup.exists_assignDue {σ : Type} (group : TaskGroup texts σ) (pass : PassInputs)
    (hworkers : workers ≠ [])
    (hwrite : ∀ cmd g, ∃ response, (group.clientWrite cmd g).1 = .ok response)
    {entries : List (String × String)}
    (hes : entries.map Prod.fst = es.map (timeIdxKey taskQueuedIdxPrefix)) (g : σ) :
    ∃ assigned g', group.assignDue pass workers entries g =
        (.ok ((es.dropWhile (·.1 ≤ pass.now)).head?.map Prod.fst), assigned, g') ∧
      List.Forall₂ (fun id cmd => ∃ worker ∈ workers,
          cmd = .taskAssign id worker.nodeId worker.leaseEpoch pass.now)
        ((es.takeWhile (·.1 ≤ pass.now)).map Prod.snd) assigned := by
  induction es generalizing entries g with
  | nil =>
    obtain rfl := List.map_eq_nil_iff.mp hes
    exact ⟨[], g, rfl, .nil⟩
  | cons e es ih =>
    obtain ⟨⟨key, value⟩, rest, rfl, hkey, hrest⟩ := List.map_eq_cons_iff.mp hes
    obtain rfl : key = timeIdxKey taskQueuedIdxPrefix e := hkey
    have hparse : parseQueuedIdxKey (timeIdxKey taskQueuedIdxPrefix e) = some (e.1, e.2) :=
      parseTimeIdxKey_timeIdxKey taskQueuedIdxPrefix e
    rw [assignDue, hparse, dropWhile_cons, takeWhile_cons]
    dsimp only
    by_cases hdue : e.1 ≤ pass.now
    · obtain ⟨worker, hworker, hselect⟩ := exists_selectWorker pass.xxh3 hworkers e.2
      rw [if_neg (UInt64.not_lt.mpr hdue), if_pos (decide_eq_true hdue),
        if_pos (decide_eq_true hdue), hselect]
      dsimp only
      obtain ⟨response, hresponse⟩ :=
        hwrite (.taskAssign e.2 worker.nodeId worker.leaseEpoch pass.now) g
      generalize group.clientWrite (.taskAssign e.2 worker.nodeId worker.leaseEpoch pass.now) g =
        answer at hresponse ⊢
      obtain ⟨_, g'⟩ := answer
      obtain rfl := hresponse
      obtain ⟨assigned, g'', hassign, hforall⟩ := ih hrest g'
      dsimp only
      rw [hassign]
      exact ⟨_, g'', rfl, .cons ⟨worker, hworker, rfl⟩ hforall⟩
    · rw [if_pos (UInt64.not_le.mp hdue), if_neg fun h => hdue (of_decide_eq_true h),
        if_neg fun h => hdue (of_decide_eq_true h)]
      exact ⟨[], g, rfl, .nil⟩

/-! ### The entries of an index -/

theorem Before.ne {e e' : UInt64 × String} (h : Before e e') : e ≠ e' := by
  rintro rfl
  rcases h with h | ⟨-, h⟩
  · exact UInt64.lt_irrefl _ h
  · exact String.lt_irrefl _ h

theorem Before.le {e e' : UInt64 × String} (h : Before e e') : e.1 ≤ e'.1 := by
  rcases h with h | ⟨h, -⟩
  · exact UInt64.le_of_lt h
  · exact h ▸ UInt64.le_refl _

section Listed

variable {es : List (UInt64 × String)} (hes : es.Pairwise Before) {bound : UInt64}
include hes

/-- The entries up to a bound are those at which a scan does not stop. -/
theorem mem_takeWhile_le_iff {e : UInt64 × String} :
    e ∈ es.takeWhile (·.1 ≤ bound) ↔ e ∈ es ∧ e.1 ≤ bound := by
  rw [mem_takeWhile_iff (hes.imp fun h hb =>
    decide_eq_true (UInt64.le_trans h.le (of_decide_eq_true hb))), decide_eq_true_iff]

theorem nodup_ids (hunique : ∀ e ∈ es, ∀ e' ∈ es, e.2 = e'.2 → e.1 = e'.1) :
    ((es.takeWhile (·.1 ≤ bound)).map Prod.snd).Nodup := by
  refine List.Nodup.map_on (fun e he e' he' heq => ?_) ?_
  · have hmem := (mem_takeWhile_le_iff hes).mp he
    have hmem' := (mem_takeWhile_le_iff hes).mp he'
    exact Prod.ext (hunique e hmem.1 e' hmem'.1 heq) heq
  · exact (hes.imp Before.ne).sublist (takeWhile_sublist _)

/-- The time at which a scan stops is the least one past the bound. -/
theorem head?_dropWhile_le_eq_some_iff {t : UInt64} :
    (es.dropWhile (·.1 ≤ bound)).head?.map Prod.fst = some t ↔
      IsLeast {time | bound < time ∧ ∃ id, (time, id) ∈ es} t := by
  have hsome {e : UInt64 × String} (he : (es.dropWhile (·.1 ≤ bound)).head? = some e) :
      IsLeast {time | bound < time ∧ ∃ id, (time, id) ∈ es} e.1 := by
    obtain ⟨hmem, hpast, hleast⟩ := head?_dropWhile_eq_some hes he
    refine ⟨⟨UInt64.not_le.mp (of_decide_eq_false hpast), e.2, hmem⟩, ?_⟩
    rintro time ⟨htime, id, hid⟩
    rcases hleast _ hid (decide_eq_false (UInt64.not_le.mpr htime)) with rfl | hbefore
    · exact UInt64.le_refl _
    · exact hbefore.le
  constructor
  · intro h
    obtain ⟨e, he, rfl⟩ := Option.map_eq_some_iff.mp h
    exact hsome he
  · rintro ⟨⟨htime, id, hid⟩, hlower⟩
    rcases hhead : (es.dropWhile (·.1 ≤ bound)).head? with _ | e
    · have hle := of_decide_eq_true (head?_dropWhile_eq_none hhead _ hid)
      exact absurd hle (UInt64.not_le.mpr htime)
    · obtain ⟨hmem, hlower'⟩ := hsome hhead
      rw [hhead]
      exact congrArg some (UInt64.le_antisymm (hlower' ⟨htime, id, hid⟩) (hlower hmem))

end Listed

/-- What a scan of an index lists, if the index lists the tasks `P`. -/
theorem exists_listed {s : KeySpace} {keyPrefix : String} {P : UInt64 → String → Prop}
    (hkeys : ∀ rest, keyPrefix ++ rest ∈ s →
      ∃ time id, keyPrefix ++ rest = timeIdxKey keyPrefix (time, id))
    (hmem : ∀ time id, timeIdxKey keyPrefix (time, id) ∈ s ↔ P time id) :
    ∃ es : List (UInt64 × String),
      (s.entriesWithPrefix keyPrefix).map Prod.fst = es.map (timeIdxKey keyPrefix) ∧
        es.Pairwise Before ∧ ∀ time id, (time, id) ∈ es ↔ P time id := by
  obtain ⟨es, hes, hsorted, hmem'⟩ := s.exists_scan keyPrefix fun rest hrest => by
    obtain ⟨time, id, h⟩ := hkeys rest hrest
    exact ⟨(time, id), h⟩
  exact ⟨es, hes, hsorted, fun time id => (hmem' (time, id)).trans (hmem time id)⟩

/-! ### What a pass does -/

theorem QueuedAt.unique {s : KeySpace} {id : String} {t t' : UInt64} (h : QueuedAt texts s t id)
    (h' : QueuedAt texts s t' id) : t = t' := by
  obtain ⟨r, hr, -, rfl⟩ := h
  obtain ⟨r', hr', -, rfl⟩ := h'
  rw [Option.some.inj (hr.symm.trans hr')]

theorem TerminalAt.unique {s : KeySpace} {id : String} {t t' : UInt64}
    (h : TerminalAt texts s t id) (h' : TerminalAt texts s t' id) : t = t' := by
  obtain ⟨r, hr, -, rfl⟩ := h
  obtain ⟨r', hr', -, rfl⟩ := h'
  rw [Option.some.inj (hr.symm.trans hr')]

namespace TaskGroup

variable {σ : Type} (group : TaskGroup texts σ) (pass : PassInputs)

theorem indexMirror (g : σ) : IndexMirror texts (group.read g).1 := by
  obtain ⟨es, hnode, run⟩ := group.reached g
  obtain ⟨T, hm, hT⟩ := exists_mirrored_table hnode run
  exact hm.indexMirror hT

theorem exists_assignsDue (hworkers : workers ≠ [])
    (hwrite : ∀ cmd g, ∃ response, (group.clientWrite cmd g).1 = .ok response) {s : KeySpace}
    (h : IndexMirror texts s) (g : σ) :
    ∃ nextDue assigned g',
      group.assignDue pass workers (s.entriesWithPrefix taskQueuedIdxPrefix) g =
        (.ok nextDue, assigned, g') ∧
      AssignsDue texts s pass workers nextDue assigned := by
  obtain ⟨es, hes, hsorted, hmem⟩ := exists_listed h.no_other_queued h.queued
  obtain ⟨assigned, g', hassign, hforall⟩ :=
    group.exists_assignDue pass hworkers hwrite hes g
  have hlisted (runAt : UInt64) (id : String) :
      (runAt, id) ∈ es ↔ QueuedAt texts s runAt id := hmem runAt id
  refine ⟨_, assigned, g', hassign, ⟨_, ?_, fun id => ?_, hforall⟩, fun t => ?_, ?_⟩
  · refine nodup_ids hsorted fun e he e' he' heq => ?_
    exact QueuedAt.unique ((hlisted e.1 e.2).mp he) (heq ▸ (hlisted e'.1 e'.2).mp he')
  · simp only [mem_map, mem_takeWhile_le_iff hsorted]
    constructor
    · rintro ⟨⟨runAt, id⟩, ⟨he, hdue⟩, rfl⟩
      exact ⟨runAt, hdue, (hlisted runAt id).mp he⟩
    · rintro ⟨runAt, hdue, hqueued⟩
      exact ⟨(runAt, id), ⟨(hlisted runAt id).mpr hqueued, hdue⟩, rfl⟩
  · simp only [head?_dropWhile_le_eq_some_iff hsorted, hlisted]
  · rw [Option.map_eq_none_iff]
    constructor
    · intro hnone runAt id hqueued
      exact of_decide_eq_true (head?_dropWhile_eq_none hnone _ ((hlisted runAt id).mpr hqueued))
    · intro hall
      rw [head?_eq_none_iff, dropWhile_eq_nil_iff]
      exact fun e he => decide_eq_true (hall e.1 e.2 ((hlisted e.1 e.2).mp he))

theorem requeueInFlight_ok
    (hwrite : ∀ cmd g, ∃ response, (group.clientWrite cmd g).1 = .ok response)
    (retained : List String) (entries : List (String × String)) (g : σ) :
    (group.requeueInFlight pass retained entries g).1 = .ok () := by
  induction entries generalizing g with
  | nil => rfl
  | cons entry rest ih =>
    obtain ⟨key, value⟩ := entry
    rw [requeueInFlight]
    split
    · exact ih g
    · rename_i nodeId taskId hparse
      split
      rename_i requeues g' hreason
      split_ifs
      · obtain ⟨response, hresponse⟩ := hwrite (.taskRequeue taskId) g'
        split
        · rename_i hfailed
          rw [hfailed] at hresponse
          cases hresponse
        · exact ih _
      · exact ih g'

end TaskGroup

theorem expiredIds_eq {cutoff : UInt64} {entries : List (String × String)}
    (hes : entries.map Prod.fst = es.map (timeIdxKey taskTerminalIdxPrefix)) {ids : List String}
    (hids : ids.length < vacuumBatchLimit) :
    expiredIds cutoff ids entries = ids ++
      ((es.takeWhile (·.1 ≤ cutoff)).map Prod.snd).take (vacuumBatchLimit - ids.length) := by
  induction es generalizing entries ids with
  | nil =>
    obtain rfl := List.map_eq_nil_iff.mp hes
    simp [expiredIds]
  | cons e es ih =>
    obtain ⟨⟨key, value⟩, rest, rfl, hkey, hrest⟩ := List.map_eq_cons_iff.mp hes
    obtain rfl : key = timeIdxKey taskTerminalIdxPrefix e := hkey
    have hparse : parseTerminalIdxKey (timeIdxKey taskTerminalIdxPrefix e) = some (e.1, e.2) :=
      parseTimeIdxKey_timeIdxKey taskTerminalIdxPrefix e
    obtain ⟨left, hleft⟩ : ∃ left, vacuumBatchLimit - ids.length = left + 1 :=
      Nat.exists_eq_succ_of_ne_zero (by omega)
    rw [expiredIds, hparse, takeWhile_cons, hleft]
    dsimp only
    by_cases hexpired : e.1 ≤ cutoff
    · rw [if_neg (UInt64.not_lt.mpr hexpired), if_pos (decide_eq_true hexpired), map_cons,
        take_succ_cons, length_append, length_singleton]
      split_ifs with hfull
      · obtain rfl : left = 0 := by omega
        rw [take_zero]
      · have hlength : (ids ++ [e.2]).length = ids.length + 1 := by simp
        have hleft' : vacuumBatchLimit - (ids ++ [e.2]).length = left := by omega
        rw [ih hrest (by omega), hleft', append_assoc, singleton_append]
    · rw [if_pos (UInt64.not_le.mp hexpired), if_neg fun h => hexpired (of_decide_eq_true h)]
      simp

theorem selectsOldest {s : KeySpace} (h : IndexMirror texts s) (cutoff : UInt64) :
    SelectsOldest texts s cutoff
      (expiredIds cutoff [] (s.entriesWithPrefix taskTerminalIdxPrefix)) := by
  obtain ⟨es, hes, hsorted, hmem⟩ := exists_listed h.no_other_terminal h.terminal
  have hlisted (completedAt : UInt64) (id : String) :
      (completedAt, id) ∈ es ↔ TerminalAt texts s completedAt id := hmem completedAt id
  have hids : expiredIds cutoff [] (s.entriesWithPrefix taskTerminalIdxPrefix) =
      ((es.takeWhile (·.1 ≤ cutoff)).take vacuumBatchLimit).map Prod.snd := by
    rw [expiredIds_eq hes (by decide), nil_append, map_take]
    rfl
  rw [hids]
  refine ⟨?_, ?_, ?_, ?_⟩
  · rw [map_take]
    refine (nodup_ids hsorted fun e he e' he' heq => ?_).sublist (take_sublist _ _)
    exact TerminalAt.unique ((hlisted e.1 e.2).mp he) (heq ▸ (hlisted e'.1 e'.2).mp he')
  · rw [length_map, length_take]
    exact Nat.min_le_left _ _
  · intro id hid
    obtain ⟨e, he, rfl⟩ := List.mem_map.mp hid
    obtain ⟨hmem, hexpired⟩ := (mem_takeWhile_le_iff hsorted).mp (mem_of_mem_take he)
    exact ⟨e.1, hexpired, (hlisted e.1 e.2).mp hmem⟩
  · intro completedAt id hterminal hexpired hnot
    -- the task stands behind the first ones of the list, and is not selected with them
    have hdrop : (completedAt, id) ∈ (es.takeWhile (·.1 ≤ cutoff)).drop vacuumBatchLimit := by
      have hin := (mem_takeWhile_le_iff hsorted).mpr
        ⟨(hlisted completedAt id).mpr hterminal, hexpired⟩
      rw [← take_append_drop vacuumBatchLimit (es.takeWhile (·.1 ≤ cutoff)),
        mem_append] at hin
      exact hin.resolve_left fun htake => hnot (mem_map_of_mem htake)
    refine ⟨?_, fun id' hid' => ?_⟩
    · have hpos := length_pos_of_mem hdrop
      rw [length_drop] at hpos
      rw [length_map, length_take]
      omega
    · obtain ⟨e, he, rfl⟩ := List.mem_map.mp hid'
      have hsorted' := hsorted.sublist (takeWhile_sublist (·.1 ≤ cutoff))
      rw [← take_append_drop vacuumBatchLimit (es.takeWhile (·.1 ≤ cutoff)),
        pairwise_append] at hsorted'
      refine ⟨e.1, (hlisted e.1 e.2).mp ?_, hsorted'.2.2 e he _ hdrop⟩
      exact ((mem_takeWhile_le_iff hsorted).mp (mem_of_mem_take he)).1

/-- **The order of a scan is the order of time.** Queued keys are in the order of their times, and
are taken apart again. A pass with workers whose writes do not fail assigns exactly the tasks that
are due, each once, and returns the least time of the others. The vacuum proposes the oldest expired
tasks. -/
theorem scan_order_is_time_order {σ : Type} (group : TaskGroup texts σ) :
    (∀ runAt id runAt' id',
      (queuedIdxKey runAt id).toByteArray.data.toList <
          (queuedIdxKey runAt' id').toByteArray.data.toList ↔
        runAt < runAt' ∨ runAt = runAt' ∧
          id.toByteArray.data.toList < id'.toByteArray.data.toList) ∧
    (∀ runAt id, parseQueuedIdxKey (queuedIdxKey runAt id) = some (runAt, id)) ∧
    (∀ pass downSince g, (∀ cmd g, ∃ response, (group.clientWrite cmd g).1 = .ok response) →
      (group.requeueStage pass downSince g).1.assignable ≠ [] →
      ∃ view downSince' requeued g₁ nextDue assigned g₂,
        group.requeueStage pass downSince g = (view, downSince', .ok (), requeued, g₁) ∧
        group.schedulerTick pass downSince g =
          (.ok nextDue, requeued ++ assigned, downSince', g₂) ∧
        AssignsDue texts (group.read g₁).1 pass view.assignable nextDue assigned) ∧
    ∀ now retention g, ∃ ids,
      SelectsOldest texts (group.read g).1 (saturatingSub now retention) ids ∧
      (group.vacuumExpiredTasks now retention g).2.1 =
        if ids = [] then [] else [.taskVacuum ids] := by
  have hkey (runAt : UInt64) (id : String) :
      queuedIdxKey runAt id = timeIdxKey taskQueuedIdxPrefix (runAt, id) := rfl
  refine ⟨fun runAt id runAt' id' => ?_, fun runAt id => ?_,
    fun pass downSince g hwrite hworkers => ?_, fun now retention g => ?_⟩
  · rw [hkey, hkey]
    exact bytes_timeIdxKey_lt_iff
  · rw [hkey]
    exact parseTimeIdxKey_timeIdxKey taskQueuedIdxPrefix (runAt, id)
  · have hok : (group.requeueStage pass downSince g).2.2.1 = .ok () :=
      group.requeueInFlight_ok pass hwrite _ _ _
    rw [TaskGroup.schedulerTick]
    generalize group.requeueStage pass downSince g = stage at hok hworkers ⊢
    obtain ⟨view, downSince', result, requeued, g₁⟩ := stage
    obtain rfl : result = .ok () := hok
    have hne : view.assignable ≠ [] := hworkers
    obtain ⟨nextDue, assigned, g₂, hassign, hdue⟩ :=
      group.exists_assignsDue pass hne hwrite (group.indexMirror g₁) (group.read g₁).2
    refine ⟨view, downSince', requeued, g₁, nextDue, assigned, g₂, rfl, ?_, hdue⟩
    dsimp only
    rw [if_neg (by simpa using hne), hassign]
  · refine ⟨_, selectsOldest (group.indexMirror g) _, ?_⟩
    rw [TaskGroup.vacuumExpiredTasks]
    dsimp only
    simp only [List.isEmpty_iff]
    split_ifs
    · rfl
    · split
      · rfl
      · rfl

/-! ### A group with one writer -/

theorem Reached.exists_apply {s : KeySpace} (h : Reached texts s) (cmd : TaskRequest) :
    ∃ s' response, applyCommand texts s cmd = .ok (s', response) := by
  obtain ⟨es, -, run⟩ := h
  obtain ⟨s', e, -, rfl, -, hstep, -⟩ := (represents_of_run run).exists_step cmd
  exact ⟨s', _, hstep⟩

theorem Reached.apply {s s' : KeySpace} {cmd : TaskRequest} {response : Response}
    (h : Reached texts s) (hfree : cmd.NodeColonFree)
    (happly : applyCommand texts s cmd = .ok (s', response)) : Reached texts s' := by
  obtain ⟨es, hnode, run⟩ := h
  have hstep : CommandStep texts s ⟨cmd, response⟩ s' := happly
  refine ⟨es ++ [⟨cmd, response⟩], fun e he => ?_, run.snoc hstep⟩
  rcases List.mem_append.mp he with he | he
  · exact hnode e he
  · obtain rfl := List.mem_singleton.mp he
    exact hfree

instance : DecidablePred TaskRequest.NodeColonFree
  | .taskAssign _ nodeId _ _ => inferInstanceAs (Decidable (ColonFree nodeId))
  | .taskEnqueue .. | .taskClaim .. | .taskMarkCommitted .. | .taskDone .. | .taskFail ..
  | .taskRequeue _ | .taskReplay .. | .taskVacuum _ | .workerLease .. => .isTrue trivial

variable (texts) in
/-- A group in which nobody else writes. No node of it has a colon. -/
def quietGroup : TaskGroup texts { s : KeySpace // Reached texts s } where
  read g := (g.1, g)
  clientWrite cmd g :=
    match happly : applyCommand texts g.1 cmd with
    | .error err => (.error err, g)
    | .ok (s, response) =>
      if hfree : cmd.NodeColonFree then (.ok response, ⟨s, g.2.apply hfree happly⟩)
      else (.ok response, g)
  reached g := g.2

theorem quietGroup_clientWrite (cmd : TaskRequest) (g : { s : KeySpace // Reached texts s }) :
    ∃ response, ((quietGroup texts).clientWrite cmd g).1 = .ok response := by
  obtain ⟨s', response, happly⟩ := g.2.exists_apply cmd
  dsimp only [quietGroup]
  split
  · rename_i herror
    rw [happly] at herror
    cases herror
  · split_ifs
    · exact ⟨_, rfl⟩
    · exact ⟨_, rfl⟩

/-- A worker whose lease has not expired and who is alive is assigned tasks. -/
theorem mem_workerView {pass : PassInputs} {downSince : DownSince}
    {entries : List (String × String)} {lease : WorkerLeaseRecord} {key value : String}
    (hmem : (key, value) ∈ entries) (hvalue : texts.workerLease.fromStr value = .ok lease)
    (hfresh : ¬lease.expiresAt < pass.now) (halive : pass.isPeerAlive lease.nodeId = true) :
    lease ∈ (workerView texts pass downSince entries).1.assignable := by
  have hmono (scan : WorkerScan) (l : WorkerLeaseRecord) (h : lease ∈ scan.assignable) :
      lease ∈ (scan.lease pass l).assignable := by
    rw [WorkerScan.lease]
    dsimp only
    split_ifs
    · exact h
    · exact mem_append_left _ h
    · exact h
    · exact h
  have hfold (leases : List WorkerLeaseRecord) (scan : WorkerScan)
      (h : lease ∈ scan.assignable ∨ lease ∈ leases) :
      lease ∈ (leases.foldl (WorkerScan.lease pass) scan).assignable := by
    induction leases generalizing scan with
    | nil => exact h.resolve_right not_mem_nil
    | cons l leases ih =>
      refine ih _ ?_
      rcases h with h | h
      · exact .inl (hmono scan l h)
      · rcases List.mem_cons.mp h with rfl | h
        · refine .inl ?_
          rw [WorkerScan.lease]
          dsimp only
          rw [if_neg hfresh, if_pos halive]
          exact mem_append_right _ mem_cons_self
        · exact .inr h
  have hlease : lease ∈ entries.filterMap fun e => (texts.workerLease.fromStr e.2).toOption :=
    List.mem_filterMap.mpr ⟨_, hmem, by rw [hvalue]; rfl⟩
  exact List.mem_mergeSort.mpr (hfold _ _ (.inr hlease))

/-- A pass at time 150. -/
def duePass : PassInputs := ⟨150, 0, 60, fun _ => true, fun _ => 0⟩

/-- A pass over two tasks that are due and one that is not. -/
theorem scan_order_is_time_order_due : ∃ g : { s : KeySpace // Reached jsonForms s },
    QueuedAt jsonForms g.1 100 "t1" ∧ QueuedAt jsonForms g.1 120 "t2" ∧
      QueuedAt jsonForms g.1 300 "t3" ∧
      ∃ view downSince requeued g₁ nextDue assigned g₂,
        (quietGroup jsonForms).requeueStage duePass (fun _ => none) g =
          (view, downSince, .ok (), requeued, g₁) ∧
        (quietGroup jsonForms).schedulerTick duePass (fun _ => none) g =
          (.ok nextDue, requeued ++ assigned, downSince, g₂) ∧
        AssignsDue jsonForms g₁.1 duePass view.assignable nextDue assigned := by
  obtain ⟨es, s, run, hes, hs⟩ := exists_commandRun jsonForms
    [.workerLease "n1" "mailer" 7 200, .taskEnqueue "t1" "mail" 100 none 100,
      .taskEnqueue "t2" "mail" 120 none 100, .taskEnqueue "t3" "mail" 300 none 100]
  have hreached : Reached jsonForms s := by
    refine ⟨es, fun e he => ?_, run⟩
    have hcmd : e.cmd ∈ es.map CommandEvent.cmd := mem_map_of_mem he
    rw [map_cmd_of_outcome hes] at hcmd
    simp [TaskTable.trace] at hcmd
    rcases hcmd with h | h | h | h <;> rw [h] <;> trivial
  have hqueued : QueuedAt jsonForms s 100 "t1" ∧ QueuedAt jsonForms s 120 "t2" ∧
      QueuedAt jsonForms s 300 "t3" := by
    simp only [QueuedAt, hs.recordAt_eq]
    exact ⟨⟨_, rfl, rfl, rfl⟩, ⟨_, rfl, rfl, rfl⟩, ⟨_, rfl, rfl, rfl⟩⟩
  have hvalue : s[workerKey "n1"]? = some (jsonForms.workerLease.toStr ⟨"n1", "mailer", 7, 200⟩) :=
    hs (.worker "n1") trivial
  have hentry : (workerKey "n1", jsonForms.workerLease.toStr ⟨"n1", "mailer", 7, 200⟩) ∈
      s.entriesWithPrefix taskWorkerPrefix := by
    rw [KeySpace.entriesWithPrefix_eq, mem_filter,
      Std.ExtTreeMap.mem_toList_iff_getElem?_eq_some]
    refine ⟨hvalue, String.startsWith_string_iff.mpr ⟨"n1".toList, ?_⟩⟩
    exact String.toList_append.symm
  have hworkers : ((quietGroup jsonForms).requeueStage duePass (fun _ => none)
      ⟨s, hreached⟩).1.assignable ≠ [] :=
    ne_nil_of_mem (mem_workerView hentry (jsonForms.workerLease.fromStr_toStr _)
      (by decide) rfl)
  exact ⟨⟨s, hreached⟩, hqueued.1, hqueued.2.1, hqueued.2.2,
    (scan_order_is_time_order (quietGroup jsonForms)).2.2.1 duePass (fun _ => none) ⟨s, hreached⟩
      quietGroup_clientWrite hworkers⟩

end RustExample.OpenraftCluster
