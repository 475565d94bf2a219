import RustExample.OpenraftCluster.Tasks.Fencing

/-!
# The attempt cap

A claim counts an attempt, and a worker whose execution failed proposes no retry once the attempts
of its claim have reached the cap. A requeue hands the task back without a look at its attempts:
a task whose worker dies or hangs each time is claimed without end and never dead-lettered.
-/

namespace RustExample.OpenraftCluster

open List

/-! ### Executions -/

/-- The executions that a task may have. -/
def maxTaskAttempts : UInt32 := 3

/-- The first backoff. -/
def retryBackoffBaseSecs : UInt64 := 5

/-- What the retry delay takes from other crates: the delays in milliseconds that grow from a
base, and the hash that spreads a batch of retries. -/
structure RetryCrates where
  exponential : UInt64 → ℕ → UInt64
  xxh3 : String → UInt64

/-- The backoff after some attempts. -/
def retryBackoffSecs (crates : RetryCrates) (taskId : String) (attempts : UInt32) : UInt64 :=
  let backoff := crates.exponential (retryBackoffBaseSecs * 1000) (min attempts 6).toNat / 1000
  let jitter := crates.xxh3 (taskId ++ ":" ++ toString attempts.toNat) % (backoff / 2 + 1)
  backoff + jitter

/-- The acknowledgement; `outcome` is what the handler made of the claimed record. -/
def executionAck (crates : RetryCrates) (record : TaskRecord) (nodeId : String)
    (leaseEpoch now : UInt64) : Except String (Option String) → TaskRequest
  | .ok result => .taskDone record.id nodeId leaseEpoch record.attempts now result
  | .error error =>
    let retryAt := if maxTaskAttempts ≤ record.attempts then 0
      else now + retryBackoffSecs crates record.id record.attempts
    .taskFail record.id nodeId leaseEpoch record.attempts error retryAt now

/-- A report of the task `id` under the given node and lease epoch. -/
def TaskRequest.Reports (id nodeId : String) (leaseEpoch : UInt64) : TaskRequest → Prop
  | .taskDone id' n e _ _ _ | .taskFail id' n e _ _ _ _ => id' = id ∧ n = nodeId ∧ e = leaseEpoch
  | _ => False

theorem lt_maxTaskAttempts_of_retry {crates : RetryCrates} {record : TaskRecord}
    {id nodeId nodeId' error : String} {leaseEpoch leaseEpoch' now now' retryAt : UInt64}
    {attempts : UInt32} {outcome : Except String (Option String)}
    (h : TaskRequest.taskFail id nodeId leaseEpoch attempts error retryAt now =
      executionAck crates record nodeId' leaseEpoch' now' outcome) (hretry : 0 < retryAt) :
    attempts < maxTaskAttempts := by
  cases outcome with
  | ok result => simp [executionAck] at h
  | error error' =>
    obtain ⟨-, -, -, rfl, -, rfl, -⟩ := TaskRequest.taskFail.inj h
    by_contra hle
    rw [UInt32.not_lt] at hle
    simp [hle] at hretry

variable (texts : TextForms)

/-- Completions and failures are what the execution begun at the position `issuer` proposes. -/
def WorkerRun (crates : RetryCrates) (es : List CommandEvent) (issuer : ℕ → ℕ) : Prop :=
  ∀ j e id nodeId leaseEpoch, es[j]? = some e → e.cmd.Reports id nodeId leaseEpoch →
    issuer j < j ∧ ∃ c record now outcome, es[issuer j]? = some c ∧
      c.Claims texts id nodeId leaseEpoch ∧
      (TaskOpResult.fromResponse texts c.response).bind TaskOpResult.record = some record ∧
      e.cmd = executionAck crates record nodeId leaseEpoch now outcome

/-! ### Counting claims -/

/-- The command is a claim. -/
@[simp] def TaskRequest.isClaim : TaskRequest → Bool
  | .taskClaim .. => true
  | _ => false

/-- A successful claim of the task `id` by any worker. -/
def CommandEvent.claimsTask (id : String) (e : CommandEvent) : Bool :=
  e.cmd.isClaim && e.cmd.target = some id && e.response.isOk texts

/-- The creation or an accepted replay of the task `id`. -/
def CommandEvent.Starts (id : String) (e : CommandEvent) : Prop :=
  e.Creates texts id ∨ e.Replays texts id

/-- The successful claims of the task `id` after the position `i`. -/
def claimsSince (id : String) (es : List CommandEvent) (i : ℕ) : ℕ :=
  (es.drop (i + 1)).countP (CommandEvent.claimsTask texts id)

/-- Between two starts a task is claimed as often as the cap allows. A terminal task is not claimed
before it starts again. -/
def CapsAttempts (es : List CommandEvent) : Prop :=
  ∀ id i j, HeldSince (CommandEvent.Starts texts id) (CommandEvent.Starts texts id) (es.take j) i →
    claimsSince texts id (es.take j) i ≤ maxTaskAttempts.toNat

/-- A command respects the attempts in the record: a requeue of a running task finds attempts left,
and a retry carries those of the record. -/
def KeepsAttempts (s : KeySpace) : TaskRequest → Prop
  | .taskRequeue id => ∀ r, recordAt texts s id = some r → r.status = .running →
      r.committed = false → r.attempts < maxTaskAttempts
  | .taskFail id nodeId leaseEpoch attempts _ retryAt _ => ∀ r, recordAt texts s id = some r →
      ackMatches r nodeId leaseEpoch = true → r.committed = false → 0 < retryAt →
        attempts = r.attempts
  | _ => True

/-! ### The invariant -/

/-- Attempts against claims: a task that may still be claimed is below the cap. -/
def TaskState.Spent (claims : ℕ) (t : TaskState) : Prop :=
  match t.phase with
  | .queued | .assigned _ _ => t.attempts.toNat = claims ∧ claims < maxTaskAttempts.toNat
  | .running _ _ _ => t.attempts.toNat = claims
  | .done _ _ _ _ | .failed _ _ => True

/-- What the history of a run says about the attempts of one task. -/
def AttemptInvariant (id : String) (es : List CommandEvent) (T : TaskTable) : Prop :=
  ∀ i, HeldSince (CommandEvent.Starts texts id) (CommandEvent.Starts texts id) es i →
    claimsSince texts id es i ≤ maxTaskAttempts.toNat ∧
      ∀ t, T.task id = some t → t.Spent (claimsSince texts id es i)

variable {texts} {id : String} {es : List CommandEvent} {e : CommandEvent} {i : ℕ}

theorem claimsSince_snoc (hi : i < es.length) : claimsSince texts id (es ++ [e]) i =
    claimsSince texts id es i + if e.claimsTask texts id then 1 else 0 := by
  rw [claimsSince, drop_append_of_le_length hi, countP_append, countP_singleton]
  rfl

theorem claimsSince_length : claimsSince texts id (es ++ [e]) es.length = 0 := by
  simp [claimsSince]

/-- The claims since a position, read off the commands and their acceptance. -/
theorem claimsSince_eq_countP : claimsSince texts id es i =
    ((es.map (CommandEvent.outcome texts)).drop (i + 1)).countP
      fun p => p.1.isClaim && p.1.target = some id && p.2 := by
  rw [← map_drop, countP_map]
  rfl

theorem attemptInvariant_empty : AttemptInvariant texts id [] TaskTable.empty :=
  fun i h => absurd h.lt_length (Nat.not_lt_zero i)

theorem toNat_saturatingAdd_one {a : UInt32} (h : a.toNat < maxTaskAttempts.toNat) :
    (saturatingAdd a 1).toNat = a.toNat + 1 := by
  have hmax : maxTaskAttempts.toNat = 3 := rfl
  have hone : (1 : UInt32).toNat = 1 := rfl
  rw [saturatingAdd, if_pos (by omega), UInt32.toNat_add]
  omega

variable {T T' : TaskTable} {e : TableEvent}

/-- A start leaves the task queued with a fresh attempt budget. -/
theorem TaskTable.Step.queued_of_starts (hstep : T.Step e T')
    (hstart : (e.toCommand texts).Starts texts id) :
    ∃ t, T'.task id = some t ∧ t.phase = .queued ∧ t.attempts = 0 := by
  rcases hstart with ⟨⟨payload, runAt, idemKey, createdAt, hcmd⟩, res, hres, hnew⟩ |
    ⟨⟨now, hcmd⟩, hok⟩
  · simp only [TableEvent.toCommand_cmd, TableEvent.fromResponse_toCommand] at hcmd hres
    obtain ⟨⟩ := hres
    cases hex : T.existing id idemKey with
    | some id' =>
      simp only [Step, hcmd, perform, hex, Option.some.injEq, Prod.mk.injEq] at hstep
      rcases hstep with ⟨-, hres⟩ | ⟨hnone, -⟩
      · simp [← hres] at hnew
      · simp at hnone
    | none =>
      refine ⟨.new payload runAt idemKey createdAt, ?_, rfl, rfl⟩
      rw [hstep.eq_next.1]
      simp [next, hcmd, perform, hex, addTask]
  · simp only [TableEvent.toCommand_cmd, TableEvent.isOk_toCommand] at hcmd hok
    cases hstep.effectOn id with
    | frame _ hno => simp [hno (by rw [hcmd]; rfl)] at hok
    | created _ hcmd' => simp [hcmd] at hcmd'
    | vacuumed _ _ hcmd' => simp [hcmd] at hcmd'
    | moved _ ht' _ hmove =>
      rw [hcmd] at hmove
      cases hmove with
      | replay => exact ⟨_, ht', rfl, rfl⟩

/-- **One move.** A move that is no start keeps the attempts in line with the claims. -/
theorem TaskState.Spent.move {t t' : TaskState} {n : ℕ} {cmd : TaskRequest} (h : t.Spent n)
    (hmove : t.Move cmd t') (hreplay : ∀ now, cmd ≠ .taskReplay id now)
    (hid : cmd.target = some id)
    (hrequeue : ∀ n e, cmd = .taskRequeue id → t.phase = .running n e false →
      t.attempts < maxTaskAttempts)
    (hretry : ∀ n e attempts error retryAt now,
      cmd = .taskFail id n e attempts error retryAt now → t.phase = .running n e false →
        0 < retryAt → attempts = t.attempts ∧ attempts < maxTaskAttempts) :
    t'.Spent (n + if cmd.isClaim then 1 else 0) := by
  cases hmove with
  | assign hp => simpa [Spent, hp, assign] using h
  | claim hp =>
    simp only [Spent, hp] at h
    simp [Spent, claim, toNat_saturatingAdd_one (h.1 ▸ h.2), h.1]
  | markCommitted hp => simpa [Spent, hp, markCommitted] using h
  | remark hp => simpa using h
  | finish | fail | refuseRequeue => simp [Spent]
  | @retry id' nodeId leaseEpoch attempts error retryAt now hp hpos =>
    obtain rfl : id' = id := by simpa [TaskRequest.target] using hid
    obtain ⟨rfl, hlt⟩ := hretry nodeId leaseEpoch attempts error retryAt now rfl hp hpos
    simp only [Spent, hp] at h
    simpa [Spent, retry, h] using (UInt32.lt_iff_toNat_lt.mp hlt)
  | requeueAssigned hp => simpa [Spent, hp, requeue] using h
  | @requeueRunning id' nodeId leaseEpoch hp =>
    obtain rfl : id' = id := by simpa [TaskRequest.target] using hid
    have hlt := hrequeue nodeId leaseEpoch rfl hp
    simp only [Spent, hp] at h
    simpa [Spent, requeue, h] using (UInt32.lt_iff_toNat_lt.mp hlt)
  | @replay id' now =>
    obtain rfl : id' = id := by simpa [TaskRequest.target] using hid
    exact absurd rfl (hreplay now)

theorem TaskState.Spent.lt_of_claim {t t' : TaskState} {n : ℕ} {cmd : TaskRequest}
    (h : t.Spent n) (hmove : t.Move cmd t') (hclaim : cmd.isClaim = true) :
    n < maxTaskAttempts.toNat := by
  cases hmove with
  | claim hp =>
    simp only [Spent, hp] at h
    exact h.2
  | _ => simp at hclaim

theorem claimsTask_of_target_ne (h : e.cmd.target = some id → e.result.ok = false) :
    (e.toCommand texts).claimsTask texts id = false := by
  by_cases hid : e.cmd.target = some id
  · simp [CommandEvent.claimsTask, h hid]
  · simp [CommandEvent.claimsTask, hid]

theorem claimsTask_of_target (hid : e.cmd.target = some id) (hok : e.result.ok = true) :
    (e.toCommand texts).claimsTask texts id = e.cmd.isClaim := by
  simp [CommandEvent.claimsTask, hid, hok]

/-- **One step.** A command that keeps the attempts, of workers that give up at the cap, is safe. -/
theorem AttemptInvariant.step {s : KeySpace} (h : AttemptInvariant texts id es T)
    (hr : Represents texts s T) (hstep : T.Step e T') (hkeep : KeepsAttempts texts s e.cmd)
    (hretry : ∀ n ep attempts error retryAt now,
      e.cmd = .taskFail id n ep attempts error retryAt now → 0 < retryAt →
        attempts < maxTaskAttempts) :
    AttemptInvariant texts id (es ++ [e.toCommand texts]) T' := by
  intro i hi
  rcases hi.of_snoc with ⟨hi, hno⟩ | ⟨rfl, hstart⟩
  · obtain ⟨hle, hspent⟩ := h i hi
    rw [claimsSince_snoc hi.lt_length]
    cases hstep.effectOn id with
    | frame heq hno => simpa [claimsTask_of_target_ne hno, heq] using ⟨hle, hspent⟩
    | created _ hcmd _ hnew =>
      exact absurd (.inl ⟨⟨_, _, _, _, hcmd⟩, _, by simp, hnew⟩) hno
    | vacuumed _ _ hcmd _ hnone => simpa [CommandEvent.claimsTask, hcmd, hnone] using hle
    | moved ht ht' htarget hmove hok =>
      have hrecord := hr.recordAt_eq id
      rw [ht, Option.map_some] at hrecord
      have hreplay now : e.cmd ≠ .taskReplay id now := fun hcmd =>
        hno (.inr ⟨⟨now, hcmd⟩, by simpa using hok⟩)
      have hspent' := (hspent _ ht).move hmove hreplay htarget
        (fun n ep hcmd hp => ?_) fun n ep attempts error retryAt now hcmd hp hpos => ⟨?_, ?_⟩
      · rw [claimsTask_of_target htarget hok]
        refine ⟨?_, fun t'' ht'' => ?_⟩
        · split_ifs with hclaim
          · exact (hspent _ ht).lt_of_claim hmove hclaim
          · exact hle
        · obtain ⟨⟩ := ht'.symm.trans ht''
          exact hspent'
      · rw [hcmd] at hkeep
        exact hkeep _ hrecord (by simp [TaskState.toRecord, hp, Phase.status])
          (by simp [TaskState.toRecord, hp, Phase.committed])
      · rw [hcmd] at hkeep
        exact hkeep _ hrecord
          (by simp [TaskState.toRecord, ackMatches, hp, Phase.status, Phase.owner])
          (by simp [TaskState.toRecord, hp, Phase.committed]) hpos
      · exact hretry _ _ _ _ _ _ hcmd hpos
  · obtain ⟨t, ht, hp, hattempts⟩ := hstep.queued_of_starts hstart
    rw [claimsSince_length]
    refine ⟨Nat.zero_le _, fun t' ht' => ?_⟩
    obtain ⟨⟩ := ht.symm.trans ht'
    simp [TaskState.Spent, hp, hattempts, maxTaskAttempts]

section Capped

variable {es : List CommandEvent} {s : KeySpace} {crates : RetryCrates} {issuer : ℕ → ℕ}

/-- The invariant of attempts holds after every prefix of a run. -/
theorem exists_attemptInvariant (hworker : WorkerRun texts crates es issuer)
    (hkeep : ∀ j s e, Run (CommandStep texts) ∅ (es.take j) s → es[j]? = some e →
      KeepsAttempts texts s e.cmd) (id : String) (j : ℕ)
    (run : Run (CommandStep texts) ∅ (es.take j) s) :
    ∃ T, Represents texts s T ∧ AttemptInvariant texts id (es.take j) T := by
  induction j generalizing s with
  | zero =>
    rw [take_zero] at run ⊢
    obtain rfl := run.eq_of_nil
    exact ⟨TaskTable.empty, represents_empty, attemptInvariant_empty⟩
  | succ j ih =>
    rcases Nat.lt_or_ge j es.length with hj | hj
    swap
    · rw [take_of_length_le (by omega), ← take_of_length_le hj] at run ⊢
      exact ih run
    have he : es[j]? = some es[j] := getElem?_eq_getElem hj
    rw [take_succ_eq_append_getElem hj] at run ⊢
    obtain ⟨s₁, run₁, hstep⟩ := run.of_snoc
    obtain ⟨T, hr, h⟩ := ih run₁
    obtain ⟨e, T', hT, hcmd, hr', -⟩ := hr.step hstep
    rw [← hcmd] at he ⊢
    refine ⟨T', hr', h.step hr hT (hkeep j s₁ _ run₁ he) ?_⟩
    intro n ep attempts error retryAt now hfail hpos
    obtain ⟨-, c, record, now', outcome, -, -, -, hack⟩ :=
      hworker j _ id n ep he (by simp [hfail, TaskRequest.Reports])
    exact lt_maxTaskAttempts_of_retry (by rw [← hack, TableEvent.toCommand_cmd, hfail]) hpos

/-- **The attempt cap.** If all commands respect the attempts in the record, a task is claimed at
most three times between two of its starts. -/
theorem attemptsCapped_of_keepsAttempts (run : Run (CommandStep texts) ∅ es s)
    (hworker : WorkerRun texts crates es issuer)
    (hkeep : ∀ j s e, Run (CommandStep texts) ∅ (es.take j) s → es[j]? = some e →
      KeepsAttempts texts s e.cmd) : CapsAttempts texts es := by
  intro id i j hi
  obtain ⟨s₁, run₁⟩ := run.take j
  obtain ⟨T, -, h⟩ := exists_attemptInvariant hworker hkeep id j run₁
  exact (h i hi).1

end Capped

/-- A task whose worker dies twice and fails the third time, with the answers of its commands. -/
def twiceRequeued : List (TaskRequest × Bool) :=
  [(.taskEnqueue "t1" "mail" 100 none 100, true), (.taskAssign "t1" "A" 1 101, true),
    (.taskClaim "t1" "A" 1 102, true), (.taskRequeue "t1", true),
    (.taskAssign "t1" "B" 1 103, true), (.taskClaim "t1" "B" 1 104, true),
    (.taskRequeue "t1", true), (.taskAssign "t1" "C" 1 105, true),
    (.taskClaim "t1" "C" 1 106, true), (.taskFail "t1" "C" 1 3 "refused" 0 107, true)]

/-- Delays that double, without jitter. -/
def plainCrates : RetryCrates := ⟨fun base n => base * 2 ^ n, fun _ => 0⟩

/-- The attempt cap of a task that is dead-lettered at its third attempt. -/
theorem attemptsCapped_of_keepsAttempts_deadLettered : ∃ es s,
    Run (CommandStep jsonForms) ∅ es s ∧ es.map (CommandEvent.outcome jsonForms) = twiceRequeued ∧
      WorkerRun jsonForms plainCrates es (fun _ => 8) ∧ CapsAttempts jsonForms es := by
  obtain ⟨es, s, run, htrace, -⟩ := exists_commandRun jsonForms (twiceRequeued.map Prod.fst)
  have hes : es.map (CommandEvent.outcome jsonForms) = twiceRequeued := htrace.trans rfl
  have hworker : WorkerRun jsonForms plainCrates es (fun _ => 8) := by
    intro j e id n ep hj hrep
    have hl := outcome_getElem? hes hj
    have hlt : j < 10 := (List.getElem?_eq_some_iff.mp hl).1
    obtain ⟨c, hc, hccmd, hcok⟩ := exists_of_outcome hes (show twiceRequeued[8]? = some _ from rfl)
    have hres := fromResponse_of_run run hc (by rw [map_cmd_of_outcome hes, hccmd]; rfl)
    interval_cases j <;> obtain ⟨hcmd, -⟩ := Prod.mk.inj (Option.some.inj hl) <;>
      rw [← hcmd] at hrep ⊢ <;> try exact hrep.elim
    obtain ⟨rfl, rfl, rfl⟩ := hrep
    exact ⟨by decide, c, _, 107, .error "refused", hc, ⟨⟨_, hccmd⟩, hcok⟩, by rw [hres]; rfl, rfl⟩
  refine ⟨es, s, run, hes, hworker, attemptsCapped_of_keepsAttempts run hworker ?_⟩
  intro j s₁ e run₁ hj
  have hl := outcome_getElem? hes hj
  have hlt : j < 10 := (List.getElem?_eq_some_iff.mp hl).1
  have hr := represents_of_run run₁
  rw [map_take, map_cmd_of_outcome hes] at hr
  interval_cases j <;> obtain ⟨hcmd, -⟩ := Prod.mk.inj (Option.some.inj hl) <;>
    rw [← hcmd] <;> try trivial
  all_goals
    intro r hrecord
    obtain rfl := Option.some.inj ((hr.recordAt_eq "t1").symm.trans hrecord)
    decide

/-! ### Requeues without end -/

/-- A task whose worker dies again and again, with the answers of its commands. -/
def neverAcknowledged : List (TaskRequest × Bool) :=
  [(.taskEnqueue "t1" "mail" 100 none 100, true), (.taskAssign "t1" "A" 1 101, true),
    (.taskClaim "t1" "A" 1 102, true), (.taskRequeue "t1", true),
    (.taskAssign "t1" "B" 1 103, true), (.taskClaim "t1" "B" 1 104, true),
    (.taskRequeue "t1", true), (.taskAssign "t1" "C" 1 105, true),
    (.taskClaim "t1" "C" 1 106, true), (.taskRequeue "t1", true),
    (.taskAssign "t1" "D" 1 107, true), (.taskClaim "t1" "D" 1 108, true)]

/-- **Requeues break the cap.** A task is claimed a fourth time after its enqueue. -/
theorem requeued_task_exceeds_attempts : ∃ es s, Run (CommandStep jsonForms) ∅ es s ∧
    es.map (CommandEvent.outcome jsonForms) = neverAcknowledged ∧
      WorkerRun jsonForms plainCrates es (fun _ => 0) ∧ ¬CapsAttempts jsonForms es ∧
        ∃ r, recordAt jsonForms s "t1" = some r ∧ r.status = .running ∧ r.attempts = 4 := by
  obtain ⟨es, s, run, htrace, hr⟩ := exists_commandRun jsonForms (neverAcknowledged.map Prod.fst)
  have hes : es.map (CommandEvent.outcome jsonForms) = neverAcknowledged := htrace.trans rfl
  obtain ⟨e₀, he₀, hcmd₀, -⟩ := exists_of_outcome hes (show neverAcknowledged[0]? = some _ from rfl)
  refine ⟨es, s, run, hes, fun j e id n ep hj hrep => ?_, fun hcaps => ?_,
    _, hr.recordAt_eq "t1", rfl, rfl⟩
  · have hl := outcome_getElem? hes hj
    have hlt : j < 12 := (List.getElem?_eq_some_iff.mp hl).1
    interval_cases j <;> obtain ⟨hcmd, -⟩ := Prod.mk.inj (Option.some.inj hl) <;>
      rw [← hcmd] at hrep <;> exact hrep.elim
  · have hlen : es.length = 12 := by
      rw [← length_map (CommandEvent.outcome jsonForms), hes]
      rfl
    have hheld : HeldSince (CommandEvent.Starts jsonForms "t1") (CommandEvent.Starts jsonForms "t1")
        es 0 := by
      refine ⟨⟨e₀, he₀, .inl ⟨⟨_, _, _, _, hcmd₀⟩, _, fromResponse_of_run run he₀
        (by rw [map_cmd_of_outcome hes, hcmd₀]; rfl), rfl⟩⟩, fun k c hk hc hstart => ?_⟩
      have hl := outcome_getElem? hes hc
      have hlt : k < 12 := (List.getElem?_eq_some_iff.mp hl).1
      interval_cases k <;> obtain ⟨hcmd, -⟩ := Prod.mk.inj (Option.some.inj hl) <;>
        simp [CommandEvent.Starts, CommandEvent.Creates, CommandEvent.Replays, ← hcmd] at hstart
    have hle := hcaps "t1" 0 12 (by rwa [take_of_length_le hlen.le])
    rw [take_of_length_le hlen.le, claimsSince_eq_countP, hes] at hle
    exact absurd hle (by decide)

end RustExample.OpenraftCluster
