import Mathlib.Tactic.IntervalCases
import RustExample.OpenraftCluster.Tasks.Commitment

/-!
# The fence of superseded executions

An execution begins with a successful claim and acknowledges under the node and the lease epoch of
its claim. The record keeps the owner as a pair of node and lease epoch, and an acknowledgement is
compared with that pair. A worker raises its epoch only when it renews its lease, so a task that
is requeued and handed back to the same worker in between has the same owner again: the late
acknowledgement of the first execution passes the fence.
-/

namespace RustExample.OpenraftCluster

open List

/-! ### Executions and what supersedes them -/

/-- An acknowledgement of the task `id` under the given node and lease epoch. -/
def TaskRequest.IsAck (id nodeId : String) (leaseEpoch : UInt64) : TaskRequest → Prop
  | .taskMarkCommitted id' n e _ | .taskDone id' n e _ _ _ | .taskFail id' n e _ _ _ _ =>
    id' = id ∧ n = nodeId ∧ e = leaseEpoch
  | _ => False

variable (texts : TextForms)

namespace CommandEvent

/-- A successful claim, the begin of an execution. -/
def Claims (id nodeId : String) (leaseEpoch : UInt64) (e : CommandEvent) : Prop :=
  (∃ now, e.cmd = .taskClaim id nodeId leaseEpoch now) ∧ e.response.isOk texts = true

/-- The event marks the task as committed. -/
def Marks (id nodeId : String) (leaseEpoch : UInt64) (e : CommandEvent) : Prop :=
  (∃ now, e.cmd = .taskMarkCommitted id nodeId leaseEpoch now) ∧ e.response.isOk texts = true

/-- A requeue, or an accepted failure or replay, of the task `id`. -/
def Supersedes (id : String) (e : CommandEvent) : Prop :=
  e.cmd = .taskRequeue id ∨ e.response.isOk texts = true ∧
    ((∃ n ep attempts error retryAt now, e.cmd = .taskFail id n ep attempts error retryAt now) ∨
      ∃ now, e.cmd = .taskReplay id now)

/-- An enqueue that created the task `id`. -/
def Creates (id : String) (e : CommandEvent) : Prop :=
  (∃ payload runAt idemKey createdAt, e.cmd = .taskEnqueue id payload runAt idemKey createdAt) ∧
    ∃ res, TaskOpResult.fromResponse texts e.response = some res ∧ res.deduplicated = some false

/-- An accepted replay of the task `id`. -/
def Replays (id : String) (e : CommandEvent) : Prop :=
  (∃ now, e.cmd = .taskReplay id now) ∧ e.response.isOk texts = true

end CommandEvent

/-- The environment of the fence: an acknowledgement comes from the execution that began at the
position `issuer`, and an assignment carries the epoch in the current lease of its worker. -/
structure ExecutionRun (es : List CommandEvent) (issuer : ℕ → ℕ) : Prop where
  issued : ∀ j e id nodeId leaseEpoch, es[j]? = some e → e.cmd.IsAck id nodeId leaseEpoch →
    issuer j < j ∧ ∃ c, es[issuer j]? = some c ∧ c.Claims texts id nodeId leaseEpoch
  leased : ∀ j s e id nodeId leaseEpoch now, Run (CommandStep texts) ∅ (es.take j) s →
    es[j]? = some e → e.cmd = .taskAssign id nodeId leaseEpoch now →
      ∃ lease, leaseAt texts s nodeId = some lease ∧ lease.leaseEpoch = leaseEpoch

/-- An acknowledgement is accepted only if nothing superseded its execution. -/
def FencesAcks (es : List CommandEvent) (issuer : ℕ → ℕ) : Prop :=
  ∀ j e id nodeId leaseEpoch k c, es[j]? = some e → e.cmd.IsAck id nodeId leaseEpoch →
    e.response.isOk texts = true → issuer j < k → k < j → es[k]? = some c →
      ¬c.Supersedes texts id

/-- Between the creations and replays of a task, one execution at most gets its commit mark. -/
def MarksOnce (es : List CommandEvent) (issuer : ℕ → ℕ) : Prop :=
  ∀ i j d e id n n' ep ep', i < j → es[i]? = some d → d.Marks texts id n ep →
    es[j]? = some e → e.Marks texts id n' ep' →
      (∀ k c, i < k → k < j → es[k]? = some c → ¬c.Creates texts id ∧ ¬c.Replays texts id) →
        issuer i = issuer j

/-- No two claims of a task succeed under the same node and lease epoch. -/
def FreshClaims (es : List CommandEvent) : Prop :=
  ∀ (i j : ℕ) (c d : CommandEvent) id nodeId leaseEpoch, i < j → es[i]? = some c →
    c.Claims texts id nodeId leaseEpoch → es[j]? = some d → ¬d.Claims texts id nodeId leaseEpoch

/-! ### The owner of a running task -/

variable {ep : UInt64}

theorem TaskTable.isSome_perform_requeue {T : TaskTable} {id : String} {t : TaskState} {n : String}
    {c : Bool} (ht : T.task id = some t) (hp : t.phase = .running n ep c) :
    (T.perform (.taskRequeue id)).isSome = true := by
  rw [perform_eq_bind rfl, ht, Option.bind_some]
  cases c <;> simp [TaskState.accept, hp]

theorem TaskState.Move.phase_of_isAck {t t' : TaskState} {cmd : TaskRequest} {id n : String}
    (hmove : t.Move cmd t') (hack : cmd.IsAck id n ep) :
    ∃ c, t.phase = .running n ep c := by
  cases hmove with
  | markCommitted h | remark h | finish h | retry h | fail h =>
    obtain ⟨-, rfl, rfl⟩ := hack
    exact ⟨_, h⟩
  | _ => exact hack.elim

theorem TaskRequest.IsAck.target {cmd : TaskRequest} {id n : String} (hack : cmd.IsAck id n ep) :
    cmd.target = some id := by
  cases cmd <;> first
    | exact hack.elim
    | exact congrArg some hack.1

/-- What the history of a run says about the owner and the commit mark of one task. -/
structure FenceInvariant (id : String) (es : List CommandEvent) (T : TaskTable) : Prop where
  owner : ∀ t n ep c, T.task id = some t → t.phase = .running n ep c →
    ∃ i, HeldSince (CommandEvent.Claims texts id n ep) (CommandEvent.Supersedes texts id) es i
  marked : ∀ i n ep,
    HeldSince (CommandEvent.Marks texts id n ep) (CommandEvent.Creates texts id) es i →
      T.task id = none ∨ ∃ t, T.task id = some t ∧ t.phase.committed = true ∧
        ∀ n' ep' c, t.phase = .running n' ep' c → n' = n ∧ ep' = ep

variable {texts} {id : String}

theorem fenceInvariant_empty : FenceInvariant texts id [] TaskTable.empty := by
  refine ⟨fun t n ep c ht => by simp [TaskTable.empty] at ht, fun i n ep h => ?_⟩
  exact absurd h.lt_length (Nat.not_lt_zero i)

variable {T T' : TaskTable} {e : TableEvent} {es : List CommandEvent}

/-- A command that leaves a running task alone does not supersede its execution. -/
theorem TaskTable.Step.not_supersedes_of_frame {t : TaskState} {n : String} {c : Bool}
    (hstep : T.Step e T') (ht : T.task id = some t) (hp : t.phase = .running n ep c)
    (hno : e.cmd.target = some id → e.result.ok = false) :
    ¬(e.toCommand texts).Supersedes texts id := by
  rintro (hcmd | ⟨hok, hcmd⟩)
  · have hperform := hstep.eq_next.2
    simp only [TableEvent.toCommand_cmd] at hcmd
    rw [hcmd, isSome_perform_requeue ht hp, hno (by rw [hcmd]; rfl)] at hperform
    exact absurd hperform (by decide)
  · have htarget : e.cmd.target = some id := by
      rcases hcmd with ⟨_, _, _, _, _, _, hcmd⟩ | ⟨_, hcmd⟩ <;>
        · simp only [TableEvent.toCommand_cmd] at hcmd
          rw [hcmd]
          rfl
    simp [hno htarget] at hok

/-- A running task was claimed by the move, or has the same owner and is only marked. -/
theorem TaskState.Move.running_cases {t t' : TaskState} {cmd : TaskRequest} {n : String} {c : Bool}
    (hmove : t.Move cmd t') (hp : t'.phase = .running n ep c) :
    (∃ id now, cmd = .taskClaim id n ep now ∧ t.phase = .assigned n ep) ∨
      (∃ id now, cmd = .taskMarkCommitted id n ep now) ∧ ∃ c', t.phase = .running n ep c' := by
  cases hmove with
  | @claim id nodeId leaseEpoch now h =>
    obtain ⟨rfl, rfl, -⟩ : nodeId = n ∧ leaseEpoch = ep ∧ _ := by simpa using hp
    exact .inl ⟨id, now, rfl, h⟩
  | @markCommitted id nodeId leaseEpoch now h =>
    obtain ⟨rfl, rfl, -⟩ : nodeId = n ∧ leaseEpoch = ep ∧ _ := by simpa using hp
    exact .inr ⟨⟨id, now, rfl⟩, false, h⟩
  | @remark id nodeId leaseEpoch now h =>
    obtain ⟨rfl, rfl, -⟩ : nodeId = n ∧ leaseEpoch = ep ∧ _ := by simpa [h] using hp
    exact .inr ⟨⟨id, now, rfl⟩, true, h⟩
  | assign | finish | retry | fail | requeueAssigned | requeueRunning | refuseRequeue | replay =>
    simp at hp

theorem FenceInvariant.owner_step (h : FenceInvariant texts id es T) (hstep : T.Step e T')
    (t' : TaskState) (n : String) (ep : UInt64) (c : Bool) (ht' : T'.task id = some t')
    (hp' : t'.phase = .running n ep c) :
    ∃ i, HeldSince (CommandEvent.Claims texts id n ep) (CommandEvent.Supersedes texts id)
      (es ++ [e.toCommand texts]) i := by
  cases hstep.effectOn id with
  | frame heq hno =>
    have ht := heq.symm.trans ht'
    obtain ⟨i, hi⟩ := h.owner t' n ep c ht hp'
    exact ⟨i, hi.snoc (hstep.not_supersedes_of_frame ht hp' hno)⟩
  | created _ _ hsome =>
    obtain ⟨⟩ := ht'.symm.trans hsome
    simp at hp'
  | moved ht hsome htarget hmove hok =>
    obtain ⟨⟩ := ht'.symm.trans hsome
    rcases hmove.running_cases hp' with ⟨id', now, hcmd, -⟩ | ⟨⟨id', now, hcmd⟩, c', hp⟩
    · obtain rfl : id' = id := by simpa [hcmd, TaskRequest.target] using htarget
      exact ⟨es.length, .last ⟨⟨now, hcmd⟩, by simpa using hok⟩⟩
    · obtain ⟨i, hi⟩ := h.owner _ n ep c' ht hp
      refine ⟨i, hi.snoc ?_⟩
      simp [CommandEvent.Supersedes, hcmd]
  | vacuumed _ _ _ _ hnone => simp [hnone] at ht'

theorem FenceInvariant.marked_step (h : FenceInvariant texts id es T) (hstep : T.Step e T')
    (i : ℕ) (n : String) (ep : UInt64)
    (hi : HeldSince (CommandEvent.Marks texts id n ep) (CommandEvent.Creates texts id)
      (es ++ [e.toCommand texts]) i) :
    T'.task id = none ∨ ∃ t, T'.task id = some t ∧ t.phase.committed = true ∧
      ∀ n' ep' c, t.phase = .running n' ep' c → n' = n ∧ ep' = ep := by
  rcases hi.of_snoc with ⟨hi, hcreate⟩ | ⟨-, ⟨now, hcmd⟩, hok⟩
  · cases hstep.effectOn id with
    | frame heq =>
      rw [heq]
      exact h.marked i n ep hi
    | created _ hcmd _ hnew =>
      exact absurd ⟨⟨_, _, _, _, hcmd⟩, _, by simp, hnew⟩ hcreate
    | moved ht ht' _ hmove =>
      rcases h.marked i n ep hi with hnone | ⟨t, ht₁, hc, howner⟩
      · simp [hnone] at ht
      · obtain ⟨⟩ := ht.symm.trans ht₁
        refine .inr ⟨_, ht', hmove.committed hc, fun n' ep' c hp' => ?_⟩
        rcases hmove.running_cases hp' with ⟨_, _, _, hp⟩ | ⟨-, c', hp⟩
        · simp [hp, Phase.committed] at hc
        · exact howner n' ep' c' hp
    | vacuumed _ _ _ _ hnone => exact .inl hnone
  · have htarget : e.cmd.target = some id := by
      simp only [TableEvent.toCommand_cmd] at hcmd
      rw [hcmd]
      rfl
    simp only [TableEvent.toCommand_cmd, TableEvent.isOk_toCommand] at hcmd hok
    cases hstep.effectOn id with
    | frame _ hno => simp [hno htarget] at hok
    | created _ hcmd' => simp [hcmd] at hcmd'
    | vacuumed _ _ hcmd' => simp [hcmd] at hcmd'
    | moved ht ht' _ hmove =>
      rw [hcmd] at hmove
      refine .inr ⟨_, ht', ?_⟩
      cases hmove with
      | markCommitted => simp [Phase.committed]
      | remark hp =>
        rw [hp]
        simp [Phase.committed]

/-- **One step.** The history invariant of the fence is preserved by every command. -/
theorem FenceInvariant.step (h : FenceInvariant texts id es T) (hstep : T.Step e T') :
    FenceInvariant texts id (es ++ [e.toCommand texts]) T' :=
  ⟨h.owner_step hstep, h.marked_step hstep⟩

theorem exists_fenceInvariant {s : KeySpace} (id : String)
    (run : Run (CommandStep texts) ∅ es s) :
    ∃ T, Represents texts s T ∧ FenceInvariant texts id es T := by
  induction run with
  | nil => exact ⟨TaskTable.empty, represents_empty, fenceInvariant_empty⟩
  | snoc _ hstep ih =>
    obtain ⟨T, hr, h⟩ := ih
    obtain ⟨e', T', hT, rfl, hr', -⟩ := hr.step hstep
    exact ⟨T', hr', h.step hT⟩

/-- The environment of the fence, read off the commands and their acceptance. -/
theorem executionRun_of_outcome {es : List CommandEvent} {l : List (TaskRequest × Bool)}
    {issuer : ℕ → ℕ} (hes : es.map (CommandEvent.outcome texts) = l)
    (hissued : ∀ j p id n ep, l[j]? = some p → p.1.IsAck id n ep →
      issuer j < j ∧ ∃ now, l[issuer j]? = some (.taskClaim id n ep now, true))
    (hleased : ∀ j id n ep now ok, l[j]? = some (.taskAssign id n ep now, ok) →
      ∃ lease, (((l.map Prod.fst).take j).foldl TaskTable.next TaskTable.empty).lease n =
        some lease ∧ lease.leaseEpoch = ep) : ExecutionRun texts es issuer := by
  refine ⟨fun j e id n ep hj hack => ?_, fun j s e id n ep now run hj hcmd => ?_⟩
  · obtain ⟨hlt, now, hclaim⟩ := hissued j _ id n ep (outcome_getElem? hes hj) hack
    obtain ⟨c, hc, hccmd, hcok⟩ := exists_of_outcome hes hclaim
    exact ⟨hlt, c, hc, ⟨now, hccmd⟩, hcok⟩
  · have hl := outcome_getElem? hes hj
    rw [hcmd] at hl
    obtain ⟨lease, hlease, hepoch⟩ := hleased j id n ep now _ hl
    have hr := represents_of_run run
    rw [map_take, map_cmd_of_outcome hes] at hr
    exact ⟨lease, (hr.leaseAt_eq n).trans hlease, hepoch⟩

/-! ### Fresh claims keep the fence -/

section Fresh

variable {s : KeySpace} {issuer : ℕ → ℕ}

/-- When an acknowledgement is accepted, the task runs under its node and lease epoch. -/
theorem exists_running_of_ack (run : Run (CommandStep texts) ∅ es s) {j : ℕ} {e : CommandEvent}
    {n : String} (hj : es[j]? = some e) (hack : e.cmd.IsAck id n ep)
    (hok : e.response.isOk texts = true) :
    ∃ T t c, FenceInvariant texts id (es.take j) T ∧ T.task id = some t ∧
      t.phase = .running n ep c := by
  obtain ⟨s₁, s₂, run₁, hstep, -⟩ := run.at_event hj
  obtain ⟨T, hr, h⟩ := exists_fenceInvariant id run₁
  obtain ⟨e', T', hT, rfl, -⟩ := hr.step hstep
  simp only [TableEvent.toCommand_cmd, TableEvent.isOk_toCommand] at hack hok
  cases hT.effectOn id with
  | frame _ hno => simp [hno hack.target] at hok
  | created _ hcmd => simp [hcmd, TaskRequest.IsAck] at hack
  | vacuumed _ _ hcmd => simp [hcmd, TaskRequest.IsAck] at hack
  | moved ht _ _ hmove =>
    obtain ⟨c, hp⟩ := hmove.phase_of_isAck hack
    exact ⟨T, _, c, h, ht, hp⟩

theorem FreshClaims.eq (hfresh : FreshClaims texts es) {i j : ℕ} {c d : CommandEvent} {n : String}
    (hi : es[i]? = some c) (hc : c.Claims texts id n ep) (hj : es[j]? = some d)
    (hd : d.Claims texts id n ep) : i = j := by
  rcases lt_trichotomy i j with hlt | rfl | hlt
  · exact absurd hd (hfresh i j c d id n ep hlt hi hc hj)
  · rfl
  · exact absurd hc (hfresh j i d c id n ep hlt hj hd hi)

/-- With fresh claims the execution of an accepted acknowledgement owns the task. -/
theorem ExecutionRun.heldSince (hexec : ExecutionRun texts es issuer)
    (hfresh : FreshClaims texts es) (run : Run (CommandStep texts) ∅ es s) {j : ℕ}
    {e : CommandEvent} {n : String} (hj : es[j]? = some e) (hack : e.cmd.IsAck id n ep)
    (hok : e.response.isOk texts = true) :
    HeldSince (CommandEvent.Claims texts id n ep) (CommandEvent.Supersedes texts id) (es.take j)
      (issuer j) := by
  obtain ⟨T, t, c, h, ht, hp⟩ := exists_running_of_ack run hj hack hok
  obtain ⟨i, hi⟩ := h.owner t n ep c ht hp
  obtain ⟨d, hd, hclaim⟩ := hi.event
  have hij : i < j := by simpa using hi.lt_length.trans_le (length_take_le ..)
  rw [getElem?_take_of_lt hij] at hd
  obtain ⟨-, c', hc', hclaim'⟩ := hexec.issued j e id n ep hj hack
  exact hfresh.eq hd hclaim hc' hclaim' ▸ hi

/-- **The fence holds under fresh claims.** If no two claims of a task succeed under the same node
and lease epoch, superseded executions are fenced off, and one at most gets its commit mark. -/
theorem fenced_of_freshClaims (run : Run (CommandStep texts) ∅ es s)
    (hexec : ExecutionRun texts es issuer) (hfresh : FreshClaims texts es) :
    FencesAcks texts es issuer ∧ MarksOnce texts es issuer := by
  refine ⟨fun j e id n ep k c hj hack hok hik hkj hk => ?_, ?_⟩
  · have hheld := hexec.heldSince hfresh run hj hack hok
    exact hheld.none_after k c hik (by rw [getElem?_take_of_lt hkj, hk])
  · intro i j d e id n n' ep ep' hij hi hd hj he hbetween
    obtain ⟨⟨now, hdcmd⟩, hdok⟩ := hd
    obtain ⟨⟨now', hecmd⟩, heok⟩ := he
    have hdack : d.cmd.IsAck id n ep := by simp [hdcmd, TaskRequest.IsAck]
    have heack : e.cmd.IsAck id n' ep' := by simp [hecmd, TaskRequest.IsAck]
    obtain ⟨T, t, c, h, ht, hp⟩ := exists_running_of_ack run hj heack heok
    have hmarked : HeldSince (CommandEvent.Marks texts id n ep) (CommandEvent.Creates texts id)
        (es.take j) i := by
      refine ⟨⟨d, by rw [getElem?_take_of_lt hij, hi], ⟨now, hdcmd⟩, hdok⟩,
        fun k c hik hk => ?_⟩
      have hkj : k < j := by
        by_contra hle
        rw [getElem?_take_eq_none (by omega)] at hk
        simp at hk
      rw [getElem?_take_of_lt hkj] at hk
      exact (hbetween k c hik hkj hk).1
    rcases h.marked i n ep hmarked with hnone | ⟨t', ht', -, howner⟩
    · simp [hnone] at ht
    · obtain ⟨⟩ := ht.symm.trans ht'
      obtain ⟨rfl, rfl⟩ := howner n' ep' c hp
      obtain ⟨-, c₁, hc₁, hclaim₁⟩ := hexec.issued i d id _ _ hi hdack
      obtain ⟨-, c₂, hc₂, hclaim₂⟩ := hexec.issued j e id _ _ hj heack
      exact hfresh.eq hc₁ hclaim₁ hc₂ hclaim₂

end Fresh

/-- A task is requeued while it runs and handed back to the same worker under a renewed lease: the
late mark of the first execution is rejected. -/
def renewal : List (TaskRequest × Bool) :=
  [(.workerLease "A" "w" 1 1000, true), (.taskEnqueue "t1" "mail" 100 none 100, true),
    (.taskAssign "t1" "A" 1 101, true), (.taskClaim "t1" "A" 1 102, true),
    (.taskRequeue "t1", true), (.workerLease "A" "w" 2 2000, true),
    (.taskAssign "t1" "A" 2 103, true), (.taskClaim "t1" "A" 2 104, true),
    (.taskMarkCommitted "t1" "A" 1 105, false), (.taskMarkCommitted "t1" "A" 2 106, true)]

theorem renewal_claim {j : ℕ} {id n : String} {now : UInt64} {ok : Bool}
    (hj : renewal[j]? = some (.taskClaim id n ep now, ok)) : j = 3 ∧ ep = 1 ∨ j = 7 ∧ ep = 2 := by
  have hlt : j < 10 := (List.getElem?_eq_some_iff.mp hj).1
  interval_cases j <;> simp_all [renewal]

/-- The fence of a task that is reassigned under a renewed lease. -/
theorem fenced_of_freshClaims_renewal : ∃ es s, Run (CommandStep jsonForms) ∅ es s ∧
    es.map (CommandEvent.outcome jsonForms) = renewal ∧
      FencesAcks jsonForms es (fun j => if j = 8 then 3 else 7) ∧
        MarksOnce jsonForms es (fun j => if j = 8 then 3 else 7) := by
  obtain ⟨es, s, run, htrace, -⟩ := exists_commandRun jsonForms (renewal.map Prod.fst)
  have hes : es.map (CommandEvent.outcome jsonForms) = renewal := htrace.trans rfl
  have hexec : ExecutionRun jsonForms es (fun j => if j = 8 then 3 else 7) := by
    refine executionRun_of_outcome hes (fun j p id n ep hj hack => ?_)
      fun j id n ep now ok hj => ?_
    · have hlt : j < 10 := (List.getElem?_eq_some_iff.mp hj).1
      interval_cases j <;> obtain rfl := Option.some.inj hj <;>
        first
        | exact hack.elim
        | (obtain ⟨rfl, rfl, rfl⟩ := hack; exact ⟨by decide, _, rfl⟩)
    · have hlt : j < 10 := (List.getElem?_eq_some_iff.mp hj).1
      interval_cases j <;> first
        | (obtain ⟨-, rfl, rfl, -⟩ := TaskRequest.taskAssign.inj
            (Prod.mk.inj (Option.some.inj hj)).1; exact ⟨_, rfl, rfl⟩)
        | simp [renewal] at hj
  refine ⟨es, s, run, hes, fenced_of_freshClaims run hexec ?_⟩
  rintro i j c d id n ep hij hi ⟨⟨now, hc⟩, -⟩ hj ⟨⟨now', hd⟩, -⟩
  have hli := outcome_getElem? hes hi
  have hlj := outcome_getElem? hes hj
  rw [hc] at hli
  rw [hd] at hlj
  rcases renewal_claim hli with ⟨rfl, hepi⟩ | ⟨rfl, hepi⟩ <;>
    rcases renewal_claim hlj with ⟨rfl, hepj⟩ | ⟨rfl, hepj⟩ <;>
      first
      | omega
      | exact absurd (hepi.symm.trans hepj) (by decide)

/-! ### The pair of node and lease epoch comes back -/

/-- A task is requeued while it runs and handed back to the same worker under the same lease. The
two marks come from different executions. -/
def reassignment : List (TaskRequest × Bool) :=
  [(.workerLease "A" "w" 1 1000, true), (.taskEnqueue "t1" "mail" 100 none 100, true),
    (.taskAssign "t1" "A" 1 101, true), (.taskClaim "t1" "A" 1 102, true),
    (.taskRequeue "t1", true), (.taskAssign "t1" "A" 1 103, true),
    (.taskClaim "t1" "A" 1 104, true), (.taskMarkCommitted "t1" "A" 1 105, true),
    (.taskMarkCommitted "t1" "A" 1 106, true)]

/-- The late mark at position 7 comes from the first execution, any other one from the second. -/
def reassignmentIssuer (j : ℕ) : ℕ := if j = 7 then 3 else 6

theorem reassignment_executionRun {es : List CommandEvent}
    (hes : es.map (CommandEvent.outcome jsonForms) = reassignment) :
    ExecutionRun jsonForms es reassignmentIssuer := by
  refine executionRun_of_outcome hes (fun j p id n ep hj hack => ?_) fun j id n ep now ok hj => ?_
  · have hlt : j < 9 := (List.getElem?_eq_some_iff.mp hj).1
    interval_cases j <;> obtain rfl := Option.some.inj hj <;>
      first
      | exact hack.elim
      | (obtain ⟨rfl, rfl, rfl⟩ := hack; exact ⟨by decide, _, rfl⟩)
  · have hlt : j < 9 := (List.getElem?_eq_some_iff.mp hj).1
    interval_cases j <;> first
      | (obtain ⟨-, rfl, rfl, -⟩ := TaskRequest.taskAssign.inj
          (Prod.mk.inj (Option.some.inj hj)).1; exact ⟨_, rfl, rfl⟩)
      | simp [reassignment] at hj

/-- **The fence fails when the pair comes back**: the late mark of the first execution is accepted,
and both executions get their commit mark. -/
theorem reassigned_task_breaks_fence : ∃ es issuer s, Run (CommandStep jsonForms) ∅ es s ∧
    ExecutionRun jsonForms es issuer ∧ es.map (CommandEvent.outcome jsonForms) = reassignment ∧
      ¬FencesAcks jsonForms es issuer ∧ ¬MarksOnce jsonForms es issuer := by
  obtain ⟨es, s, run, htrace, -⟩ := exists_commandRun jsonForms (reassignment.map Prod.fst)
  have hes : es.map (CommandEvent.outcome jsonForms) = reassignment := htrace.trans rfl
  obtain ⟨e₇, he₇, hcmd₇, hok₇⟩ := exists_of_outcome hes (show reassignment[7]? = some _ from rfl)
  obtain ⟨e₈, he₈, hcmd₈, hok₈⟩ := exists_of_outcome hes (show reassignment[8]? = some _ from rfl)
  obtain ⟨e₄, he₄, hcmd₄, -⟩ := exists_of_outcome hes (show reassignment[4]? = some _ from rfl)
  refine ⟨es, reassignmentIssuer, s, run, reassignment_executionRun hes, hes, fun hfence => ?_,
    fun honce => ?_⟩
  · have hack : e₇.cmd.IsAck "t1" "A" 1 := by simp [hcmd₇, TaskRequest.IsAck]
    exact hfence 7 e₇ "t1" "A" 1 4 e₄ he₇ hack hok₇ (by decide) (by decide) he₄ (.inl hcmd₄)
  · have heq := honce 7 8 e₇ e₈ "t1" "A" "A" 1 1 (by decide) he₇ ⟨⟨105, hcmd₇⟩, hok₇⟩ he₈
      ⟨⟨106, hcmd₈⟩, hok₈⟩ fun k c hk hk' _ => by omega
    exact absurd heq (by decide)

/-! ### What a claim hands out -/

section Handout

/-- An enqueue that created the task of a record, with what the record says of it. -/
def CommandEvent.Enqueued (texts : TextForms) (record : TaskRecord) (e : CommandEvent) : Prop :=
  (∃ runAt, e.cmd =
    .taskEnqueue record.id record.payload runAt record.idemKey record.createdAt) ∧
    e.Creates texts record.id

variable {s : KeySpace}

theorem TaskState.Move.enqueued {t t' : TaskState} {cmd : TaskRequest} (h : t.Move cmd t') :
    CommandEvent.Enqueued texts (t'.toRecord id) = CommandEvent.Enqueued texts (t.toRecord id) := by
  cases h <;> rfl

theorem TaskTable.Step.not_creates {t : TaskState} (hstep : T.Step e T') (ht : T.task id = some t) :
    ¬(e.toCommand texts).Creates texts id := by
  rintro ⟨⟨payload, runAt, idemKey, createdAt, hcmd⟩, res, hres, hnew⟩
  simp only [TableEvent.toCommand_cmd, TableEvent.fromResponse_toCommand] at hcmd hres
  obtain ⟨⟩ := hres
  cases hex : T.existing id idemKey with
  | none => simp [(task_eq_none_of_existing hex).1] at ht
  | some id' =>
    simp only [Step, hcmd, perform, hex, Option.some.injEq, Prod.mk.injEq] at hstep
    rcases hstep with ⟨-, hres⟩ | ⟨hnone, -⟩
    · simp [← hres] at hnew
    · simp at hnone

/-- The history that stands behind a task. -/
theorem exists_enqueued (id : String) (run : Run (CommandStep texts) ∅ es s) :
    ∃ T, Represents texts s T ∧ ∀ t, T.task id = some t →
      ∃ i, HeldSince (CommandEvent.Enqueued texts (t.toRecord id)) (CommandEvent.Creates texts id)
        es i := by
  induction run with
  | nil => exact ⟨TaskTable.empty, represents_empty, fun t ht => by simp [TaskTable.empty] at ht⟩
  | @snoc es _ _ _ _ hstep ih =>
    obtain ⟨T, hr, h⟩ := ih
    obtain ⟨e, T', hT, rfl, hr', -⟩ := hr.step hstep
    refine ⟨T', hr', fun t' ht' => ?_⟩
    cases hT.effectOn id with
    | frame heq =>
      have ht := heq.symm.trans ht'
      obtain ⟨i, hi⟩ := h t' ht
      exact ⟨i, hi.snoc (hT.not_creates ht)⟩
    | created _ hcmd hsome hnew =>
      obtain ⟨⟩ := ht'.symm.trans hsome
      exact ⟨es.length, .last ⟨⟨_, hcmd⟩, ⟨_, _, _, _, hcmd⟩, _, by simp, hnew⟩⟩
    | moved ht hsome _ hmove =>
      obtain ⟨⟩ := ht'.symm.trans hsome
      obtain ⟨i, hi⟩ := h _ ht
      rw [hmove.enqueued]
      exact ⟨i, hi.snoc (hT.not_creates ht)⟩
    | vacuumed _ _ _ _ hnone => simp [hnone] at ht'

/-- **A worker gets what was enqueued.** An accepted claim answers with the payload, the key and the
time of the enqueue that created the task, and no other enqueue created it since. -/
theorem claimed_as_enqueued (run : Run (CommandStep texts) ∅ es s) {j : ℕ} {c : CommandEvent}
    {n : String} {ep : UInt64} (hj : es[j]? = some c) (hc : c.Claims texts id n ep) :
    ∃ res record, TaskOpResult.fromResponse texts c.response = some res ∧
      res.record = some record ∧ record.id = id ∧ ∃ i,
        HeldSince (CommandEvent.Enqueued texts record) (CommandEvent.Creates texts id)
          (es.take j) i := by
  obtain ⟨⟨now, hcmd⟩, hok⟩ := hc
  obtain ⟨s₁, s₂, run₁, hstep, -⟩ := run.at_event hj
  obtain ⟨T, hr, h⟩ := exists_enqueued id run₁
  obtain ⟨e, T', hT, rfl, -⟩ := hr.step hstep
  simp only [TableEvent.toCommand_cmd, TableEvent.isOk_toCommand] at hcmd hok
  rcases hT with hperform | ⟨-, -, hno⟩
  · rw [hcmd, TaskTable.perform_eq_bind rfl] at hperform
    obtain ⟨t, ht, hperform⟩ := Option.bind_eq_some_iff.mp hperform
    obtain ⟨p, hp, hpair⟩ := Option.map_eq_some_iff.mp hperform
    simp only [TaskState.accept, Option.ite_none_right_eq_some, Option.some.injEq] at hp
    obtain ⟨-, rfl⟩ := hp
    exact ⟨e.result, (t.claim n ep now).toRecord id, e.fromResponse_toCommand,
      by rw [← (Prod.mk.inj hpair).2], rfl, h t ht⟩
  · simp [hno] at hok

/-- Both claims of the renewed execution, before and after the requeue. -/
theorem claimed_as_enqueued_renewal : ∃ es s, Run (CommandStep jsonForms) ∅ es s ∧
    es.map (CommandEvent.outcome jsonForms) = renewal ∧
    ∀ j ∈ [3, 7], ∃ c res record, es[j]? = some c ∧
      TaskOpResult.fromResponse jsonForms c.response = some res ∧ res.record = some record ∧
      record.id = "t1" ∧ ∃ i, HeldSince (CommandEvent.Enqueued jsonForms record)
        (CommandEvent.Creates jsonForms "t1") (es.take j) i := by
  obtain ⟨es, s, run, htrace, -⟩ := exists_commandRun jsonForms (renewal.map Prod.fst)
  have hes : es.map (CommandEvent.outcome jsonForms) = renewal := htrace.trans rfl
  have hclaim {j : ℕ} {ep now : UInt64}
      (hj : renewal[j]? = some (.taskClaim "t1" "A" ep now, true)) :
      ∃ c res record, es[j]? = some c ∧
        TaskOpResult.fromResponse jsonForms c.response = some res ∧ res.record = some record ∧
        record.id = "t1" ∧ ∃ i, HeldSince (CommandEvent.Enqueued jsonForms record)
          (CommandEvent.Creates jsonForms "t1") (es.take j) i := by
    obtain ⟨c, hc, hcmd, hok⟩ := exists_of_outcome hes hj
    obtain ⟨res, record, hclaimed⟩ := claimed_as_enqueued run hc ⟨⟨_, hcmd⟩, hok⟩
    exact ⟨c, res, record, hc, hclaimed⟩
  exact ⟨es, s, run, hes, List.forall_mem_cons.mpr
    ⟨hclaim rfl, List.forall_mem_singleton.mpr (hclaim rfl)⟩⟩

end Handout

end RustExample.OpenraftCluster
