import RustExample.OpenraftCluster.Tasks.JsonForms
import RustExample.OpenraftCluster.Tasks.Refinement

/-!
# The secondary indexes mirror the records

The scheduler, the workers and the vacuum find tasks through three secondary indexes and never
scan the records. In every state that task commands reach, each record stands in exactly one
index, under the time or the node that the record carries, and no index holds anything else.
-/

namespace RustExample.OpenraftCluster

open KeyStore

variable (texts : TextForms)

/-- A key of the secondary indexes that lists the task `id`. -/
def ListsTask (id key : String) : Prop :=
  (∃ runAt, key = queuedIdxKey runAt id) ∨
    (∃ nodeId, ColonFree nodeId ∧ key = assignedIdxKey nodeId id) ∨
    ∃ completedAt, key = terminalIdxKey completedAt id

/-- The indexes list exactly the records, each once, with the values that these carry. -/
structure IndexMirror (s : KeySpace) : Prop where
  queued : ∀ runAt id, queuedIdxKey runAt id ∈ s ↔
    ∃ r, recordAt texts s id = some r ∧ r.status = .queued ∧ r.runAt = runAt
  assigned : ∀ nodeId id, ColonFree nodeId → (assignedIdxKey nodeId id ∈ s ↔
    ∃ r, recordAt texts s id = some r ∧ (r.status = .assigned ∨ r.status = .running) ∧
      r.assignedNodeId = some nodeId)
  assigned_value : ∀ nodeId id value, ColonFree nodeId →
    s[assignedIdxKey nodeId id]? = some value →
      ∃ r epoch, recordAt texts s id = some r ∧ r.leaseEpoch = some epoch ∧
        value = toString epoch.toNat
  terminal : ∀ completedAt id, terminalIdxKey completedAt id ∈ s ↔
    ∃ r, recordAt texts s id = some r ∧ (r.status = .done ∨ r.status = .failed) ∧
      r.completedAt = completedAt
  no_other_queued : ∀ rest, taskQueuedIdxPrefix ++ rest ∈ s →
    ∃ runAt id, taskQueuedIdxPrefix ++ rest = queuedIdxKey runAt id
  no_other_assigned : ∀ rest, taskAssignedIdxPrefix ++ rest ∈ s →
    ∃ nodeId id, ColonFree nodeId ∧ taskAssignedIdxPrefix ++ rest = assignedIdxKey nodeId id
  no_other_terminal : ∀ rest, taskTerminalIdxPrefix ++ rest ∈ s →
    ∃ completedAt id, taskTerminalIdxPrefix ++ rest = terminalIdxKey completedAt id
  exactly_one : ∀ id r, recordAt texts s id = some r → ∃! key, ListsTask id key ∧ key ∈ s
  no_dangling : ∀ id key, ListsTask id key → key ∈ s → ∃ r, recordAt texts s id = some r

variable {texts}

/-- The node that a command assigns a task to has no colon. -/
def TaskRequest.NodeColonFree : TaskRequest → Prop
  | .taskAssign _ nodeId _ _ => ColonFree nodeId
  | _ => True

/-- An assignment is the only move that brings a node in. -/
theorem TaskState.Move.nodeColonFree {id : String} {t t' : TaskState} {cmd : TaskRequest}
    (hmove : t.Move cmd t') (hcmd : cmd.NodeColonFree)
    (ht : (t.indexEntry id).1.NodeColonFree) : (t'.indexEntry id).1.NodeColonFree := by
  cases hmove with
  | assign => exact hcmd
  | claim h | markCommitted h =>
    rw [indexEntry, h] at ht
    exact ht
  | remark => exact ht
  | finish | retry | fail | requeueAssigned | requeueRunning | refuseRequeue | replay =>
    exact trivial

/-- A run of commands with colon-free nodes keeps the key space the exact content of a table. -/
theorem exists_mirrored_table {es : List CommandEvent} {s : KeySpace}
    (hnode : ∀ e ∈ es, e.cmd.NodeColonFree) (run : Run (CommandStep texts) ∅ es s) :
    ∃ T, Mirrors texts TaskKey.NodeColonFree s T ∧ T.Within TaskKey.NodeColonFree := by
  induction run with
  | nil => exact ⟨TaskTable.empty, mirrors_empty _, nofun⟩
  | @snoc es s s' e run hstep ih =>
    obtain ⟨T, hm, hT⟩ := ih fun e he => hnode e (List.mem_append_left _ he)
    obtain ⟨e', T', hstep', rfl, -, hmirror⟩ :=
      (hm.represents separates_nodeColonFree).step hstep
    have hcmd : e'.cmd.NodeColonFree := hnode (e'.toCommand texts) (by simp)
    have hT' : T'.Within TaskKey.NodeColonFree :=
      hstep'.within hT (fun _ _ _ _ _ _ => trivial) fun _ _ _ _ _ hmove => hmove.nodeColonFree hcmd
    exact ⟨T', hmirror _ separates_nodeColonFree hT hT' hm, hT'⟩

/-! ### Index entries and record fields -/

namespace TaskState

variable {id : String} {t : TaskState}

theorem indexEntry_eq_queued {runAt : UInt64} : (t.indexEntry id).1 = .queued runAt id ↔
    (t.toRecord id).status = .queued ∧ (t.toRecord id).runAt = runAt := by
  cases hp : t.phase <;> simp [indexEntry, toRecord, hp, Phase.status]

theorem indexEntry_eq_assigned {nodeId : String} : (t.indexEntry id).1 = .assigned nodeId id ↔
    ((t.toRecord id).status = .assigned ∨ (t.toRecord id).status = .running) ∧
      (t.toRecord id).assignedNodeId = some nodeId := by
  cases hp : t.phase <;> simp [indexEntry, toRecord, hp, Phase.status, Phase.owner]

theorem indexEntry_eq_terminal {completedAt : UInt64} :
    (t.indexEntry id).1 = .terminal completedAt id ↔
      ((t.toRecord id).status = .done ∨ (t.toRecord id).status = .failed) ∧
        (t.toRecord id).completedAt = completedAt := by
  cases hp : t.phase <;> simp [indexEntry, toRecord, hp, Phase.status, Phase.completedAt]

theorem leaseEpoch_of_indexEntry {nodeId : String}
    (h : (t.indexEntry id).1 = .assigned nodeId id) :
    ∃ epoch, (t.toRecord id).leaseEpoch = some epoch ∧
      (t.indexEntry id).2 = toString epoch.toNat := by
  cases hp : t.phase <;> simp_all [indexEntry, toRecord, Phase.owner]

end TaskState

theorem listsTask_iff {id key : String} : ListsTask id key ↔
    ∃ k : TaskKey, k.NodeColonFree ∧ k.listed = some id ∧ key = k.render := by
  constructor
  · rintro (⟨runAt, rfl⟩ | ⟨nodeId, hfree, rfl⟩ | ⟨completedAt, rfl⟩)
    · exact ⟨.queued runAt id, trivial, rfl, rfl⟩
    · exact ⟨.assigned nodeId id, hfree, rfl, rfl⟩
    · exact ⟨.terminal completedAt id, trivial, rfl, rfl⟩
  · rintro ⟨k, hfree, hlisted, rfl⟩
    cases k <;> cases hlisted
    · exact .inl ⟨_, rfl⟩
    · exact .inr (.inl ⟨_, hfree, rfl⟩)
    · exact .inr (.inr ⟨_, rfl⟩)

/-! ### A mirrored table mirrors its records -/

namespace Mirrors

variable {s : KeySpace} {T : TaskTable} (h : Mirrors texts TaskKey.NodeColonFree s T)
include h

/-- An index key is present exactly when it is the entry of the task it lists. -/
theorem mem_iff {k : TaskKey} {id : String} (hfree : k.NodeColonFree)
    (hlisted : k.listed = some id) :
    k.render ∈ s ↔ ∃ t, T.task id = some t ∧ (t.indexEntry id).1 = k := by
  rw [Std.ExtTreeMap.mem_iff_isSome_getElem?, h.shows k hfree,
    TaskTable.content_of_listed texts T hlisted]
  cases T.task id <;> simp [TaskState.indexValue]

theorem exists_recordAt_iff {id : String} {P : TaskRecord → Prop} :
    (∃ r, recordAt texts s id = some r ∧ P r) ↔ ∃ t, T.task id = some t ∧ P (t.toRecord id) := by
  rw [(h.represents separates_nodeColonFree).recordAt_eq]
  cases T.task id <;> simp

/-- A key under the prefix of one kind is a key of that kind. -/
theorem exists_key {kind : KeyKind} {rest : String} (hmem : kind.text ++ rest ∈ s) :
    ∃ k : TaskKey, k.NodeColonFree ∧ kind.text ++ rest = k.render ∧ k.kind = kind := by
  obtain ⟨value, hvalue⟩ := Option.isSome_iff_exists.mp
    (Std.ExtTreeMap.mem_iff_isSome_getElem?.mp hmem)
  obtain ⟨k, hfree, hk⟩ := h.covers _ value hvalue
  refine ⟨k, hfree, hk.symm, ?_⟩
  rw [TaskKey.render_eq_append] at hk
  exact KeyKind.eq_of_append_eq hk

theorem indexMirror (hT : T.Within TaskKey.NodeColonFree) : IndexMirror texts s where
  queued runAt id := by
    rw [h.exists_recordAt_iff]
    exact (h.mem_iff (k := .queued runAt id) trivial rfl).trans
      (exists_congr fun t => and_congr_right fun _ => TaskState.indexEntry_eq_queued)
  assigned nodeId id hfree := by
    rw [h.exists_recordAt_iff]
    exact (h.mem_iff (k := .assigned nodeId id) hfree rfl).trans
      (exists_congr fun t => and_congr_right fun _ => TaskState.indexEntry_eq_assigned)
  assigned_value nodeId id value hfree hvalue := by
    have hcontent : T.content texts (.assigned nodeId id) = some value :=
      (h.shows (.assigned nodeId id) hfree).symm.trans hvalue
    obtain ⟨t, ht, hv⟩ := Option.bind_eq_some_iff.mp hcontent
    obtain ⟨hentry, rfl⟩ : (t.indexEntry id).1 = .assigned nodeId id ∧ _ = value := by
      simpa [TaskState.indexValue] using hv
    obtain ⟨epoch, hepoch, hvalue⟩ := TaskState.leaseEpoch_of_indexEntry hentry
    refine ⟨t.toRecord id, epoch, ?_, hepoch, hvalue⟩
    rw [(h.represents separates_nodeColonFree).recordAt_eq, ht, Option.map_some]
  terminal completedAt id := by
    rw [h.exists_recordAt_iff]
    exact (h.mem_iff (k := .terminal completedAt id) trivial rfl).trans
      (exists_congr fun t => and_congr_right fun _ => TaskState.indexEntry_eq_terminal)
  no_other_queued rest hmem := by
    obtain ⟨k, -, hk, hkind⟩ := h.exists_key (show KeyKind.text .queued ++ rest ∈ s from hmem)
    cases k with
    | queued runAt id => exact ⟨runAt, id, hk⟩
    | _ => cases hkind
  no_other_assigned rest hmem := by
    obtain ⟨k, hfree, hk, hkind⟩ := h.exists_key (show KeyKind.text .assigned ++ rest ∈ s from hmem)
    cases k with
    | assigned nodeId id => exact ⟨nodeId, id, hfree, hk⟩
    | _ => cases hkind
  no_other_terminal rest hmem := by
    obtain ⟨k, -, hk, hkind⟩ := h.exists_key (show KeyKind.text .terminal ++ rest ∈ s from hmem)
    cases k with
    | terminal completedAt id => exact ⟨completedAt, id, hk⟩
    | _ => cases hkind
  exactly_one id r hr := by
    rw [(h.represents separates_nodeColonFree).recordAt_eq] at hr
    obtain ⟨t, ht, rfl⟩ := Option.map_eq_some_iff.mp hr
    have hentry : (t.indexEntry id).1.NodeColonFree := hT id t ht
    refine ⟨(t.indexEntry id).1.render, ⟨?_, ?_⟩, ?_⟩
    · exact listsTask_iff.mpr ⟨_, hentry, t.listed_indexEntry id, rfl⟩
    · exact (h.mem_iff hentry (t.listed_indexEntry id)).mpr ⟨t, ht, rfl⟩
    · rintro key ⟨hlists, hmem⟩
      obtain ⟨k, hfree, hlisted, rfl⟩ := listsTask_iff.mp hlists
      obtain ⟨t', ht', rfl⟩ := (h.mem_iff hfree hlisted).mp hmem
      rw [Option.some.inj (ht'.symm.trans ht)]
  no_dangling id key hlists hmem := by
    obtain ⟨k, hfree, hlisted, rfl⟩ := listsTask_iff.mp hlists
    obtain ⟨t, ht, -⟩ := (h.mem_iff hfree hlisted).mp hmem
    refine ⟨t.toRecord id, ?_⟩
    rw [(h.represents separates_nodeColonFree).recordAt_eq, ht, Option.map_some]

end Mirrors

/-- **Index/record mirror.** With colon-free node ids, the indexes list exactly the records. -/
theorem indexMirror_of_run {es : List CommandEvent} {s : KeySpace}
    (hnode : ∀ e ∈ es, e.cmd.NodeColonFree) (run : Run (CommandStep texts) ∅ es s) :
    IndexMirror texts s := by
  obtain ⟨T, hm, hT⟩ := exists_mirrored_table hnode run
  exact hm.indexMirror hT

/-- The mirror after a task was enqueued and assigned. -/
theorem indexMirror_of_run_assigned : ∃ es s, es.map (CommandEvent.outcome jsonForms) =
      [(.taskEnqueue "t1" "mail" 100 none 100, true), (.taskAssign "t1" "n1" 7 101, true)] ∧
    Run (CommandStep jsonForms) ∅ es s ∧ IndexMirror jsonForms s := by
  obtain ⟨es, s, run, hes, -⟩ := exists_commandRun jsonForms
    [.taskEnqueue "t1" "mail" 100 none 100, .taskAssign "t1" "n1" 7 101]
  have hnode : ∀ p ∈ es.map (CommandEvent.outcome jsonForms), p.1.NodeColonFree := by
    rw [hes]
    simp [TaskTable.trace, TaskRequest.NodeColonFree, ColonFree]
  exact ⟨es, s, hes, run, indexMirror_of_run
    (fun e he => hnode _ (List.mem_map_of_mem he)) run⟩

end RustExample.OpenraftCluster
