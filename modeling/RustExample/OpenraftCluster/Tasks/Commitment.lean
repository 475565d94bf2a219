import RustExample.OpenraftCluster.Tasks.JsonForms
import RustExample.OpenraftCluster.Tasks.Refinement

/-!
# The point of no return is final

A worker marks a running task as committed right before an irreversible side effect. From then on
the task is never run again, whatever is proposed in whatever order: the commands that usually put
a task back into the queue fail it for good instead.
-/

namespace RustExample.OpenraftCluster

/-! ### The lifecycle of a committed task -/

namespace TaskState.Move

variable {t t' : TaskState} {cmd : TaskRequest}

/-- **No move takes the commit flag back.** -/
theorem committed (hmove : t.Move cmd t') (hc : t.phase.committed = true) :
    t'.phase.committed = true := by
  cases hmove with
  | assign h | claim h | requeueAssigned h => simp [h, Phase.committed] at hc
  | retry h | requeueRunning h => simp [h, Phase.committed] at hc
  | replay h => simp [h, Phase.committed] at hc
  | markCommitted | refuseRequeue => rfl
  | remark => exact hc
  | finish h | fail h => simpa [h, Phase.committed] using hc

end TaskState.Move

/-- A command that starts a new execution of the task `id` or prepares one. -/
def TaskRequest.StartsRun (id : String) : TaskRequest → Prop
  | .taskAssign id' _ _ _ | .taskClaim id' _ _ _ | .taskReplay id' _ => id' = id
  | _ => False

/-- A command that gives the task `id` up. -/
def TaskRequest.GivesUp (id : String) : TaskRequest → Prop
  | .taskFail id' _ _ _ _ _ _ | .taskRequeue id' => id' = id
  | _ => False

theorem TaskRequest.StartsRun.target {id : String} {cmd : TaskRequest} (h : cmd.StartsRun id) :
    cmd.target = some id := by
  cases cmd <;> simp_all [StartsRun, TaskRequest.target]

theorem TaskRequest.GivesUp.target {id : String} {cmd : TaskRequest} (h : cmd.GivesUp id) :
    cmd.target = some id := by
  cases cmd <;> simp_all [GivesUp, TaskRequest.target]

/-- A committed task is in one of the three phases that may carry the flag. -/
theorem Phase.status_of_committed {p : Phase} (hc : p.committed = true) :
    p.status = .running ∨ p.status = .done ∨ p.status = .failed := by
  cases p <;> simp_all [committed, status]

theorem TaskState.Move.not_startsRun {id : String} {t t' : TaskState} {cmd : TaskRequest}
    (hmove : t.Move cmd t') (hc : t.phase.committed = true) : ¬cmd.StartsRun id := by
  intro hstart
  cases hmove with
  | assign h | claim h | replay h => simp [h, Phase.committed] at hc
  | _ => exact hstart

theorem TaskState.Move.failed_of_givesUp {id : String} {t t' : TaskState} {cmd : TaskRequest}
    (hmove : t.Move cmd t') (hc : t.phase.committed = true) (hgives : cmd.GivesUp id) :
    ∃ completedAt, t'.phase = .failed true completedAt := by
  cases hmove with
  | retry h | requeueAssigned h | requeueRunning h => simp [h, Phase.committed] at hc
  | @fail id' nodeId leaseEpoch committed attempts error error' retryAt now h =>
    obtain rfl : committed = true := by simpa [h, Phase.committed] using hc
    exact ⟨now, rfl⟩
  | refuseRequeue => exact ⟨_, rfl⟩
  | _ => exact hgives.elim

/-! ### Runs -/

variable (texts : TextForms)

/-- What the commit flag of the task `id` promises in a state. -/
structure CommitFinal (s : KeySpace) (id : String) : Prop where
  committed : ∃ r, recordAt texts s id = some r ∧ r.committed = true ∧
    (r.status = .running ∨ r.status = .done ∨ r.status = .failed)
  no_rerun : ∀ e s', CommandStep texts s e s' → e.cmd.StartsRun id →
    e.response.isOk texts = false
  fails : ∀ e s', CommandStep texts s e s' → e.cmd.GivesUp id → e.response.isOk texts = true →
    ∃ r, recordAt texts s' id = some r ∧ r.status = .failed ∧
      s'[terminalIdxKey r.completedAt id]? = some id
  deleted : ∀ e s', CommandStep texts s e s' → recordAt texts s' id = none →
    ∃ ids, e.cmd = .taskVacuum ids ∧ id ∈ ids

/-- A step after which the task `id` still has a record. -/
def KeepsTask (id : String) (s : KeySpace) (e : CommandEvent) (s' : KeySpace) : Prop :=
  CommandStep texts s e s' ∧ recordAt texts s' id ≠ none

/-- A key space that shows a table in which the task `id` is committed. -/
def ShowsCommitted (id : String) (s : KeySpace) : Prop :=
  ∃ T t, Represents texts s T ∧ T.task id = some t ∧ t.phase.committed = true

variable {texts}

theorem ShowsCommitted.step {id : String} {s s' : KeySpace} {e : CommandEvent}
    (h : ShowsCommitted texts id s) (hstep : KeepsTask texts id s e s') :
    ShowsCommitted texts id s' := by
  obtain ⟨T, t, hr, ht, hc⟩ := h
  obtain ⟨e', T', hT, rfl, hr', -⟩ := hr.step hstep.1
  have hkeep : T'.task id ≠ none := by
    intro hnone
    exact hstep.2 (by rw [hr'.recordAt_eq, hnone, Option.map_none])
  cases hT.effectOn id with
  | frame heq => exact ⟨T', t, hr', heq.trans ht, hc⟩
  | created hnone => simp [ht] at hnone
  | moved ht₁ ht' _ hmove =>
    obtain ⟨⟩ := ht.symm.trans ht₁
    exact ⟨T', _, hr', ht', hmove.committed hc⟩
  | vacuumed _ _ _ _ hnone => exact absurd hnone hkeep

theorem ShowsCommitted.commitFinal {id : String} {s : KeySpace} (h : ShowsCommitted texts id s) :
    CommitFinal texts s id := by
  obtain ⟨T, t, hr, ht, hc⟩ := h
  have hmoved {e : TableEvent} {T' : TaskTable} (hT : T.Step e T')
      (htarget : e.cmd.target = some id) (hok : e.result.ok = true) :
      ∃ t', T'.task id = some t' ∧ t.Move e.cmd t' := by
    cases hT.effectOn id with
    | frame _ hno => simp [hno htarget] at hok
    | created hnone => simp [ht] at hnone
    | moved ht₁ ht' _ hmove =>
      obtain ⟨⟩ := ht.symm.trans ht₁
      exact ⟨_, ht', hmove⟩
    | vacuumed _ _ hcmd => simp [hcmd, TaskRequest.target] at htarget
  refine ⟨⟨t.toRecord id, ?_, hc, Phase.status_of_committed hc⟩, ?_, ?_, ?_⟩
  · rw [hr.recordAt_eq, ht, Option.map_some]
  · intro e s' hstep hstart
    obtain ⟨e', T', hT, rfl, -⟩ := hr.step hstep
    by_contra hok
    obtain ⟨t', -, hmove⟩ := hmoved hT hstart.target (by simpa [TableEvent.toCommand] using hok)
    exact hmove.not_startsRun hc hstart
  · intro e s' hstep hgives hok
    obtain ⟨e', T', hT, rfl, hr', -⟩ := hr.step hstep
    obtain ⟨t', ht', hmove⟩ := hmoved hT hgives.target (by simpa [TableEvent.toCommand] using hok)
    obtain ⟨completedAt, hp⟩ := hmove.failed_of_givesUp hc hgives
    refine ⟨t'.toRecord id, ?_, ?_, ?_⟩
    · rw [hr'.recordAt_eq, ht', Option.map_some]
    · simp [TaskState.toRecord, hp, Phase.status]
    · have hkey := hr' (.terminal completedAt id) trivial
      simpa [TaskTable.content, ht', TaskState.indexValue, TaskState.indexEntry, hp,
        TaskKey.render, TaskState.toRecord, Phase.completedAt] using hkey
  · intro e s' hstep hnone
    obtain ⟨e', T', hT, rfl, hr', -⟩ := hr.step hstep
    rw [hr'.recordAt_eq, Option.map_eq_none_iff] at hnone
    cases hT.effectOn id with
    | frame heq => simp [hnone, ht] at heq
    | created _ _ hsome => simp [hnone] at hsome
    | moved _ ht' => simp [hnone] at ht'
    | vacuumed _ _ hcmd hid => exact ⟨_, hcmd, hid⟩

/-- **The point of no return is final.** From a state in which a record is committed, every
continuation that does not delete the task keeps the promise of the flag. -/
theorem commitFinal_of_run {es es' : List CommandEvent} {s s' : KeySpace} {id : String}
    {r : TaskRecord} (run : Run (CommandStep texts) ∅ es s)
    (hr : recordAt texts s id = some r) (hc : r.committed = true)
    (more : Run (KeepsTask texts id) s es' s') : CommitFinal texts s' id := by
  obtain ⟨-, T, -, -, hrep⟩ := exists_tableRun run
  obtain ⟨t, ht, rfl⟩ := Option.map_eq_some_iff.mp ((hrep.recordAt_eq id).symm.trans hr)
  have hcommitted : ShowsCommitted texts id s' :=
    more.invariant ⟨T, t, hrep, ht, hc⟩ fun _ _ _ h hstep => h.step hstep
  exact hcommitted.commitFinal

/-- A committed task stays out of the queue when it is requeued. -/
theorem commitFinal_of_run_requeued : ∃ es e s s', Run (CommandStep jsonForms) ∅ es s ∧
    e.cmd = .taskRequeue "t1" ∧ KeepsTask jsonForms "t1" s e s' ∧
      CommitFinal jsonForms s' "t1" := by
  obtain ⟨es, s, run, -, hr⟩ := exists_commandRun jsonForms
    [.taskEnqueue "t1" "mail" 100 none 100, .taskAssign "t1" "n1" 7 101,
      .taskClaim "t1" "n1" 7 102, .taskMarkCommitted "t1" "n1" 7 103]
  obtain ⟨s', e, T', hcmd, hT, hstep, hr', -⟩ := hr.exists_step (.taskRequeue "t1")
  have hkeep : KeepsTask jsonForms "t1" s (e.toCommand jsonForms) s' := by
    refine ⟨hstep, ?_⟩
    rw [hr'.recordAt_eq, hT.eq_next.1, hcmd, ne_eq, Option.map_eq_none_iff]
    exact Option.some_ne_none _
  refine ⟨es, e.toCommand jsonForms, s, s', run, hcmd, hkeep, ?_⟩
  exact commitFinal_of_run run (hr.recordAt_eq "t1") rfl (Run.nil.snoc hkeep)

end RustExample.OpenraftCluster
