import RustExample.Foundation.Fallible
import RustExample.Foundation.Run
import RustExample.OpenraftCluster.Tasks.Lifecycle

/-!
# The key space stores the task table

Every key of the task domain has a value that the task table determines: a record for a task, one
entry of one secondary index for a task, the idempotency table and the leases.
`applyTaskCommand` on a key space that shows a table writes exactly the difference between the
table and the table after the command.
-/

namespace RustExample.OpenraftCluster

open Function KeyStore TaskKey TaskState TaskTable List

variable (texts : TextForms)

/-! ### The content of a table -/

/-- The entry of the secondary indexes that stands for a task. -/
def TaskState.indexEntry (id : String) (t : TaskState) : TaskKey × String :=
  match t.phase with
  | .queued => (.queued t.runAt id, id)
  | .assigned nodeId leaseEpoch | .running nodeId leaseEpoch _ =>
    (.assigned nodeId id, toString leaseEpoch.toNat)
  | .done _ _ _ completedAt | .failed _ completedAt => (.terminal completedAt id, id)

theorem TaskState.indexEntry_of_isTerminal {id : String} {t : TaskState}
    (h : t.phase.isTerminal = true) :
    t.indexEntry id = (.terminal t.phase.completedAt id, id) := by
  unfold indexEntry
  cases hp : t.phase <;> simp_all [Phase.isTerminal, Phase.completedAt]

/-- The value of an index key as far as one task determines it. -/
def TaskState.indexValue (id : String) (t : TaskState) (key : TaskKey) : Option String :=
  if (t.indexEntry id).1 = key then some (t.indexEntry id).2 else none

/-- The value of every key of the task domain. -/
def TaskTable.content (T : TaskTable) : TaskKey → Option String
  | .record id => (T.task id).map fun t => encodeRecord texts (t.toRecord id)
  | .idem k => T.idem k
  | .worker nodeId => (T.lease nodeId).map texts.workerLease.toStr
  | .queued runAt id => (T.task id).bind fun t => t.indexValue id (.queued runAt id)
  | .assigned nodeId id => (T.task id).bind fun t => t.indexValue id (.assigned nodeId id)
  | .terminal completedAt id => (T.task id).bind fun t => t.indexValue id (.terminal completedAt id)

/-- The task that a key of an index lists. -/
def TaskKey.listed : TaskKey → Option String
  | .queued _ id | .assigned _ id | .terminal _ id => some id
  | .record _ | .idem _ | .worker _ => none

theorem TaskTable.content_of_listed (T : TaskTable) {key : TaskKey} {id : String}
    (h : key.listed = some id) :
    T.content texts key = (T.task id).bind fun t => t.indexValue id key := by
  cases key <;> cases h <;> rfl

theorem TaskState.listed_indexEntry (id : String) (t : TaskState) :
    (t.indexEntry id).1.listed = some id := by
  unfold indexEntry
  cases t.phase <;> rfl

/-- The writes that turn the content of a task into that of another. -/
def TaskState.moveWrites (id : String) (t t' : TaskState) : List (Write TaskKey String) :=
  ⟨.record id, some (encodeRecord texts (t'.toRecord id))⟩ ::
    if t.indexEntry id = t'.indexEntry id then []
    else [⟨(t.indexEntry id).1, none⟩, ⟨(t'.indexEntry id).1, some (t'.indexEntry id).2⟩]

/-- **A move of a task.** The record is rewritten, and a new entry replaces the old one. -/
theorem TaskTable.assignAll_moveWrites {T : TaskTable} {id : String} {t : TaskState}
    (ht : T.task id = some t) (t' : TaskState) :
    assignAll (T.content texts) (t.moveWrites texts id t') = (T.setTask id t').content texts := by
  have hlisted := t.listed_indexEntry id
  have hlisted' := t'.listed_indexEntry id
  have hrec (u : TaskState) : (u.indexEntry id).1 ≠ .record id := by
    intro h
    simpa [h, listed] using u.listed_indexEntry id
  funext key
  cases hkey : key.listed with
  | some id' =>
    rw [content_of_listed texts _ hkey]
    have hne : key ≠ .record id := by
      rintro rfl
      simp [listed] at hkey
    by_cases hid : id' = id
    · subst hid
      have hold : T.content texts key = t.indexValue id' key := by
        rw [content_of_listed texts _ hkey, ht, Option.bind_some]
      simp only [setTask, update_self, Option.bind_some, moveWrites]
      split_ifs with hentry
      · simp [update_of_ne hne, hold, indexValue, hentry]
      · simp only [assignAll_cons, assignAll_nil, update_apply, hold, hne, if_false,
          indexValue, eq_comm (a := key)]
        split_ifs <;> rfl
    · have hother (u : TaskState) : key ≠ (u.indexEntry id).1 := by
        rintro rfl
        rw [u.listed_indexEntry id] at hkey
        exact hid (Option.some.inj hkey).symm
      simp only [setTask, update_of_ne hid, moveWrites]
      rw [← content_of_listed texts _ hkey]
      split_ifs <;> simp [update_of_ne, hne, hother]
  | none =>
    have hindex (u : TaskState) : key ≠ (u.indexEntry id).1 := by
      rintro rfl
      rw [u.listed_indexEntry id] at hkey
      simp at hkey
    have hold : assignAll (T.content texts) (t.moveWrites texts id t') key =
        update (T.content texts) (.record id)
          (some (encodeRecord texts (t'.toRecord id))) key := by
      simp only [moveWrites]
      split_ifs <;> simp [update_of_ne, hindex]
    rw [hold]
    cases key with
    | record id' =>
      by_cases hid : id' = id
      · subst hid
        simp [content, setTask]
      · simp [content, setTask, update_of_ne, hid]
    | idem | worker => simp [content, setTask, update_of_ne]
    | _ => simp [listed] at hkey

/-! ### The commands follow the lifecycle -/

/-- The outcome of a lifecycle command on a task is the one that its lifecycle allows. -/
def Answers (id : String) (t : TaskState) (out : Except String (List KvMutation × Response)) :
    Option (TaskState × TaskOpResult) → Prop
  | some (t', res) => ∃ ws : List (Write TaskKey String),
      out = .ok (ws.map (Write.rename TaskKey.render), res.intoResponse texts) ∧
        (ws = t.moveWrites texts id t' ∨ ws = [] ∧ t' = t)
  | none => ∃ reason, out = unchanged texts (.rejected reason)

@[simp] theorem rename_render_put (key : TaskKey) (value : String) :
    Write.rename render ⟨key, some value⟩ = KvMutation.put key.render value := rfl

@[simp] theorem rename_render_del (key : TaskKey) :
    Write.rename render ⟨key, (none : Option String)⟩ = KvMutation.del key.render := rfl

theorem ackMatches_toRecord (id : String) (t : TaskState) (nodeId : String) (leaseEpoch : UInt64) :
    ackMatches (t.toRecord id) nodeId leaseEpoch = (t.phase.runBy nodeId leaseEpoch).isSome := by
  cases hp : t.phase with
  | running n e c =>
    by_cases hn : n = nodeId <;> by_cases he : e = leaseEpoch <;>
      simp [ackMatches, toRecord, Phase.status, Phase.owner, Phase.runBy, hp, hn, he]
  | _ => simp [ackMatches, toRecord, hp, Phase.status, Phase.runBy]

section

variable {texts} {read : StateRead} {id : String} {t : TaskState}
  (h : readRecord texts read id = .ok (some (t.toRecord id)))
include h

-- the record of a task and its index entry compute from its phase
attribute [local simp] TaskState.moveWrites TaskState.toRecord TaskState.indexEntry TaskKey.render
  Phase.status Phase.owner Phase.committed Phase.completedAt

theorem applyAssign_answers (nodeId : String) (leaseEpoch now : UInt64) :
    Answers texts id t (applyAssign texts read id nodeId leaseEpoch now)
      (t.accept id (.taskAssign id nodeId leaseEpoch now)) := by
  rw [applyAssign, h, ok_bind]
  by_cases hp : t.phase = .queued
  · rw [accept, if_pos hp]
    refine ⟨_, ?_, .inl rfl⟩
    simp [assign, hp]
  · rw [accept, if_neg hp]
    have hstatus : (t.toRecord id).status ≠ .queued := by
      cases hq : t.phase <;> simp_all
    exact ⟨_, if_pos hstatus⟩

theorem applyClaim_answers (nodeId : String) (leaseEpoch now : UInt64) :
    Answers texts id t (applyClaim texts read id nodeId leaseEpoch now)
      (t.accept id (.taskClaim id nodeId leaseEpoch now)) := by
  rw [applyClaim, h, ok_bind]
  by_cases hp : t.phase = .assigned nodeId leaseEpoch
  · rw [accept, if_pos hp]
    refine ⟨_, ?_, .inl rfl⟩
    simp [claim, hp]
  · rw [accept, if_neg hp]
    have hmismatch : (t.toRecord id).status ≠ .assigned ∨
        (t.toRecord id).assignedNodeId ≠ some nodeId ∨
          (t.toRecord id).leaseEpoch ≠ some leaseEpoch := by
      cases hq : t.phase <;> simp_all
      tauto
    exact ⟨_, if_pos hmismatch⟩

theorem applyMarkCommitted_answers (nodeId : String) (leaseEpoch now : UInt64) :
    Answers texts id t (applyMarkCommitted texts read id nodeId leaseEpoch now)
      (t.accept id (.taskMarkCommitted id nodeId leaseEpoch now)) := by
  rw [applyMarkCommitted, h, ok_bind]
  simp only [ackMatches_toRecord, accept]
  cases hrun : t.phase.runBy nodeId leaseEpoch with
  | none => exact ⟨_, rfl⟩
  | some committed =>
    rw [Phase.runBy_eq_some] at hrun
    cases committed with
    | true =>
      refine ⟨[], ?_, .inr ⟨rfl, rfl⟩⟩
      simp [hrun, unchanged]
    | false =>
      refine ⟨_, ?_, .inl rfl⟩
      simp [markCommitted, hrun]

theorem applyDone_answers (nodeId : String) (leaseEpoch : UInt64) (attempts : UInt32)
    (now : UInt64) (result : Option String) :
    Answers texts id t (applyDone texts read id nodeId leaseEpoch attempts now result)
      (t.accept id (.taskDone id nodeId leaseEpoch attempts now result)) := by
  rw [applyDone, h, ok_bind]
  simp only [ackMatches_toRecord, accept]
  cases hrun : t.phase.runBy nodeId leaseEpoch with
  | none => exact ⟨_, rfl⟩
  | some committed =>
    rw [Phase.runBy_eq_some] at hrun
    refine ⟨_, ?_, .inl rfl⟩
    simp [finish, hrun]

theorem applyFail_answers (nodeId : String) (leaseEpoch : UInt64) (attempts : UInt32)
    (error : String) (retryAt now : UInt64) :
    Answers texts id t (applyFail texts read id nodeId leaseEpoch attempts error retryAt now)
      (t.accept id (.taskFail id nodeId leaseEpoch attempts error retryAt now)) := by
  rw [applyFail, h, ok_bind]
  simp only [ackMatches_toRecord, accept]
  cases hrun : t.phase.runBy nodeId leaseEpoch with
  | none => exact ⟨_, rfl⟩
  | some committed =>
    rw [Phase.runBy_eq_some] at hrun
    refine ⟨_, ?_, .inl rfl⟩
    by_cases hretry : 0 < retryAt <;> cases committed <;>
      simp [fail, retry, hrun, hretry]

theorem applyRequeue_answers :
    Answers texts id t (applyRequeue texts read id) (t.accept id (.taskRequeue id)) := by
  rw [applyRequeue, h, ok_bind]
  cases hp : t.phase with
  | assigned nodeId leaseEpoch =>
    simp only [accept, hp]
    refine ⟨_, ?_, .inl rfl⟩
    simp [requeue, hp]
  | running nodeId leaseEpoch committed =>
    cases committed <;>
    · simp only [accept, hp]
      refine ⟨_, ?_, .inl rfl⟩
      simp [requeue, refuseRequeue, hp]
  | queued | done _ _ _ _ | failed _ _ =>
    simp only [accept, hp]
    refine ⟨_, if_pos ?_⟩
    simp [hp]

theorem applyReplay_answers (now : UInt64) :
    Answers texts id t (applyReplay texts read id now) (t.accept id (.taskReplay id now)) := by
  rw [applyReplay, h, ok_bind]
  cases hp : t.phase with
  | failed committed completedAt =>
    cases committed with
    | false =>
      simp only [accept, hp]
      refine ⟨_, ?_, .inl rfl⟩
      simp [replay, hp]
    | true =>
      simp only [accept, hp]
      refine ⟨replayRefusedReason, ?_⟩
      simp [hp]
  | queued | assigned _ _ | running _ _ _ | done _ _ _ _ =>
    simp only [accept, hp]
    refine ⟨_, if_pos ?_⟩
    simp [hp]
end

/-! ### The commands on a table -/

/-- Keys other than the entries of the assigned index. -/
def TaskKey.Unassigned : TaskKey → Prop
  | .assigned _ _ => False
  | .record _ | .queued _ _ | .terminal _ _ | .idem _ | .worker _ => True

/-- Keys whose node id has no colon. -/
def TaskKey.NodeColonFree : TaskKey → Prop
  | .assigned nodeId _ => ColonFree nodeId
  | .record _ | .queued _ _ | .terminal _ _ | .idem _ | .worker _ => True

/-- Keys whose task id has no colon. -/
def TaskKey.TaskColonFree : TaskKey → Prop
  | .assigned _ id => ColonFree id
  | .record _ | .queued _ _ | .terminal _ _ | .idem _ | .worker _ => True

theorem TaskKey.Unassigned.eq_of_render {k k' : TaskKey} (hk' : k'.Unassigned)
    (h : k.render = k'.render) : k = k' := by
  rw [render_eq_render] at h
  cases k' <;> cases k <;> first
    | exact h
    | exact hk'.elim

/-- Keys that their texts keep apart, and that leave out assigned entries only. -/
structure Separates (P : TaskKey → Prop) : Prop where
  unassigned : ∀ k, k.Unassigned → P k
  eq_of_render : ∀ k k', P k → P k' → k.render = k'.render → k = k'

variable {P : TaskKey → Prop}

/-- Only keys of the assigned index may fall together. -/
theorem separates_of_assigned (hun : ∀ k, k.Unassigned → P k)
    (hassigned : ∀ n i n' i', P (.assigned n i) → P (.assigned n' i') →
      n ++ ":" ++ i = n' ++ ":" ++ i' → n = n' ∧ i = i') : Separates P where
  unassigned := hun
  eq_of_render k k' hk hk' h := by
    rw [TaskKey.render_eq_render] at h
    cases k <;> cases k' <;> first
      | exact h
      | (obtain ⟨rfl, rfl⟩ := hassigned _ _ _ _ hk hk' h; rfl)

theorem separates_nodeColonFree : Separates TaskKey.NodeColonFree := by
  refine separates_of_assigned (fun k hk => ?_)
    fun _ _ _ _ hk hk' => (ColonFree.append_inj hk hk').mp
  cases k <;> first
    | exact trivial
    | exact hk.elim

theorem separates_taskColonFree : Separates TaskKey.TaskColonFree := by
  refine separates_of_assigned (fun k hk => ?_) fun _ _ _ _ hk hk' =>
    (ColonFree.append_inj_right hk hk').mp
  cases k <;> first
    | exact trivial
    | exact hk.elim

/-- A key space that shows a table. Assigned entries are left out: no command reads them, and with
arbitrary ids two of them may fall together. -/
def Represents (s : KeySpace) (T : TaskTable) : Prop :=
  Shows TaskKey.render TaskKey.Unassigned s (T.content texts)

/-- A key space that is exactly the content of a table on a set of keys. -/
structure Mirrors (P : TaskKey → Prop) (s : KeySpace) (T : TaskTable) : Prop where
  shows : Shows TaskKey.render P s (T.content texts)
  covers : Covers TaskKey.render P s

/-- The index entries of the tasks of a table are in `P`. -/
def TaskTable.Within (P : TaskKey → Prop) (T : TaskTable) : Prop :=
  ∀ id t, T.task id = some t → P (t.indexEntry id).1

variable {texts} {s : KeySpace} {T : TaskTable}

theorem Mirrors.represents (hP : Separates P) (h : Mirrors texts P s T) :
    Represents texts s T :=
  fun key hkey => h.shows key (hP.unassigned key hkey)

theorem Represents.readRecord_eq (h : Represents texts s T) (id : String) :
    readRecord texts s.reader id = .ok ((T.task id).map (·.toRecord id)) := by
  have hrec : s[recKey id]? = T.content texts (.record id) := h (.record id) trivial
  rw [readRecord, KeySpace.reader, hrec]
  cases ht : T.task id <;> simp [TaskTable.content, ht, encodeRecord]

theorem Represents.recordAt_eq (h : Represents texts s T) (id : String) :
    recordAt texts s id = (T.task id).map (·.toRecord id) := by
  have hrec : s[recKey id]? = T.content texts (.record id) := h (.record id) trivial
  rw [recordAt, hrec]
  cases ht : T.task id <;> simp [TaskTable.content, ht, encodeRecord, Except.toOption]

variable (texts) in
/-- What the code does with a command is what the table does with it: the mutations `ws` lead to the
content after the command, and touch the assigned index at entries of the two tables only. -/
def Refines (T : TaskTable) (out : Except String (List KvMutation × Response)) :
    Option (TaskTable × TaskOpResult) → Prop
  | some (T', res) => ∃ ws : List (Write TaskKey String),
      out = .ok (ws.map (Write.rename TaskKey.render), res.intoResponse texts) ∧
        assignAll (T.content texts) ws = T'.content texts ∧
        ∀ P, Separates P → T.Within P → T'.Within P → ∀ w ∈ ws, P w.key
  | none => ∃ reason, out = unchanged texts (.rejected reason)

theorem moveWrites_within (hP : Separates P) {id : String} {t t' : TaskState}
    (ht : P (t.indexEntry id).1) (ht' : P (t'.indexEntry id).1) {w : Write TaskKey String}
    (hw : w ∈ t.moveWrites texts id t') : P w.key := by
  rcases List.mem_cons.mp hw with rfl | hw
  · exact hP.unassigned _ trivial
  · split_ifs at hw
    · simp at hw
    · obtain rfl | rfl : w = _ ∨ w = _ := by simpa using hw
      · exact ht
      · exact ht'

theorem TaskTable.setTask_eq_self {T : TaskTable} {id : String} {t : TaskState}
    (ht : T.task id = some t) : T.setTask id t = T := by
  have htask : update T.task id (some t) = T.task := by
    rw [← ht, update_eq_self]
  rw [setTask, htask]

/-- A lifecycle command that follows the lifecycle refines the table. -/
theorem Answers.refines {id : String} {t : TaskState} {cmd : TaskRequest}
    {out : Except String (List KvMutation × Response)} (hid : cmd.target = some id)
    (ht : T.task id = some t) (h : Answers texts id t out (t.accept id cmd)) :
    Refines texts T out (T.perform cmd) := by
  rw [perform_eq_bind hid, ht, Option.bind_some]
  cases hacc : t.accept id cmd with
  | none =>
    rw [hacc] at h
    exact h
  | some p =>
    obtain ⟨t', res⟩ := p
    rw [hacc] at h
    obtain ⟨ws, hout, rfl | ⟨rfl, rfl⟩⟩ := h
    · refine ⟨_, hout, assignAll_moveWrites texts ht t', fun P hP hT hT' w hw => ?_⟩
      exact moveWrites_within hP (hT id t ht) (hT' id t' (by simp [TaskTable.setTask])) hw
    · refine ⟨[], hout, ?_, by simp⟩
      rw [assignAll_nil, setTask_eq_self ht]

/-- **A new task**: its record, its queued entry and its idempotency key are written. -/
theorem TaskTable.assignAll_addWrites {id : String} (hid : T.task id = none) (t : TaskState) :
    assignAll (T.content texts)
        (⟨.record id, some (encodeRecord texts (t.toRecord id))⟩ ::
          ⟨(t.indexEntry id).1, some (t.indexEntry id).2⟩ ::
          (t.idemKey.map fun k => (⟨.idem k, some id⟩ : Write TaskKey String)).toList) =
      (T.addTask id t).content texts := by
  have hlisted := t.listed_indexEntry id
  funext key
  cases hkey : key.listed with
  | some id' =>
    have hrec : key ≠ .record id := by
      rintro rfl
      simp [listed] at hkey
    have hidem (k : String) : key ≠ .idem k := by
      rintro rfl
      simp [listed] at hkey
    have hwrites : assignAll (T.content texts)
        (⟨.record id, some (encodeRecord texts (t.toRecord id))⟩ ::
          ⟨(t.indexEntry id).1, some (t.indexEntry id).2⟩ ::
          (t.idemKey.map fun k => (⟨.idem k, some id⟩ : Write TaskKey String)).toList) key =
        update (T.content texts) (t.indexEntry id).1 (some (t.indexEntry id).2) key := by
      cases t.idemKey <;> simp [update_apply, hrec, hidem]
    rw [hwrites, content_of_listed texts _ hkey]
    by_cases hid' : id' = id
    · subst hid'
      have hold : T.content texts key = none := by
        rw [content_of_listed texts _ hkey, hid, Option.bind_none]
      simp only [addTask, update_self, Option.bind_some, indexValue,
        update_apply, hold, eq_comm (a := key)]
    · have hother : key ≠ (t.indexEntry id).1 := by
        rintro rfl
        exact hid' (Option.some.inj (hkey.symm.trans hlisted))
      rw [update_of_ne hother, content_of_listed texts _ hkey]
      simp [addTask, update_of_ne hid']
  | none =>
    have hindex : key ≠ (t.indexEntry id).1 := by
      rintro rfl
      rw [hlisted] at hkey
      simp at hkey
    cases key with
    | record id' =>
      by_cases hid' : id' = id
      · subst hid'
        cases t.idemKey <;> simp [content, addTask, hindex]
      · cases t.idemKey <;> simp [content, addTask, hindex, hid']
    | idem k =>
      cases hk : t.idemKey with
      | none => simp [content, addTask, hindex, hk]
      | some k' => simp [content, addTask, update_apply, hindex, hk]
    | worker nodeId => cases t.idemKey <;> simp [content, addTask, hindex]
    | _ => simp [listed] at hkey

theorem enqueueFresh_refines (h : Represents texts s T) {id payload : String} {runAt : UInt64}
    {idemKey : Option String} {createdAt : UInt64} (hidem : idemKey.bind T.idem = none) :
    Refines texts T (enqueueFresh texts s.reader id payload runAt idemKey createdAt)
      (T.perform (.taskEnqueue id payload runAt idemKey createdAt)) := by
  rw [enqueueFresh, h.readRecord_eq, ok_bind]
  cases ht : T.task id with
  | some t =>
    simp only [perform, existing, hidem, ht, Option.map_some, Option.none_or]
    exact ⟨[], rfl, rfl, by simp⟩
  | none =>
    simp only [perform, existing, hidem, ht, Option.map_none, Option.none_or]
    refine ⟨_, ?_, assignAll_addWrites ht _, fun P hP _ _ w hw => hP.unassigned _ ?_⟩
    · cases idemKey <;> rfl
    · cases idemKey <;> simp [new, TaskState.indexEntry] at hw <;>
        rcases hw with rfl | rfl | rfl <;> trivial

theorem applyEnqueue_refines (h : Represents texts s T) (id payload : String) (runAt : UInt64)
    (idemKey : Option String) (createdAt : UInt64) :
    Refines texts T (applyEnqueue texts s.reader id payload runAt idemKey createdAt)
      (T.perform (.taskEnqueue id payload runAt idemKey createdAt)) := by
  cases idemKey with
  | none => exact enqueueFresh_refines h rfl
  | some k =>
    have hk : s.reader (idemRecordKey k) = .ok (T.idem k) :=
      congrArg Except.ok (h (.idem k) trivial)
    rw [applyEnqueue, hk, ok_bind]
    cases hidem : T.idem k with
    | none => exact enqueueFresh_refines h hidem
    | some id' =>
      simp only [perform, existing, Option.bind_some, hidem, Option.some_or]
      exact ⟨[], rfl, rfl, by simp⟩

/-- The deletes of a vacuum of one task. -/
def TaskTable.vacuumWrites (T : TaskTable) (id : String) : List (Write TaskKey String) :=
  match T.vacuumable id with
  | none => []
  | some t => ⟨.record id, none⟩ :: ⟨.terminal t.phase.completedAt id, none⟩ ::
      (t.idemKey.map fun k => (⟨.idem k, none⟩ : Write TaskKey String)).toList

theorem vacuumOne_eq (h : Represents texts s T) (removed : List KvMutation × ℕ) (id : String) :
    vacuumOne texts s.reader removed id =
      .ok (removed.1 ++ (T.vacuumWrites id).map (Write.rename render),
        removed.2 + if (T.vacuumable id).isSome then 1 else 0) := by
  rw [vacuumOne, h.readRecord_eq, ok_bind]
  cases ht : T.task id with
  | none => simp [TaskTable.vacuumWrites, vacuumable, ht]
  | some t =>
    by_cases hterminal : t.phase.isTerminal = true
    · have hv : T.vacuumable id = some t := TaskTable.vacuumable_eq_some.mpr ⟨ht, hterminal⟩
      have hstatus : ¬((t.toRecord id).status ≠ .done ∧ (t.toRecord id).status ≠ .failed) := by
        cases hp : t.phase <;> simp_all [toRecord, Phase.status, Phase.isTerminal]
      simp only [Option.map_some, hstatus, if_false]
      cases hk : t.idemKey <;>
        simp [TaskTable.vacuumWrites, hv, hk, toRecord, render]
    · have hv : T.vacuumable id = none := by
        simp [vacuumable, ht, hterminal]
      have hstatus : (t.toRecord id).status ≠ .done ∧ (t.toRecord id).status ≠ .failed := by
        cases hp : t.phase <;> simp_all [toRecord, Phase.status, Phase.isTerminal]
      simp [TaskTable.vacuumWrites, hv, hstatus]

theorem foldlM_vacuumOne (h : Represents texts s T) (ids : List String)
    (removed : List KvMutation × ℕ) :
    ids.foldlM (vacuumOne texts s.reader) removed =
      .ok (removed.1 ++ (ids.flatMap T.vacuumWrites).map (Write.rename render),
        removed.2 + ids.countP fun id => (T.vacuumable id).isSome) := by
  induction ids generalizing removed with
  | nil => simp
  | cons id ids ih =>
    rw [foldlM_cons, vacuumOne_eq h, ok_bind, ih]
    simp only [flatMap_cons, map_append, append_assoc, countP_cons]
    congr 2
    omega

theorem TaskTable.mem_vacuumWrites {T : TaskTable} {id : String} {w : Write TaskKey String} :
    w ∈ T.vacuumWrites id ↔ w.value = none ∧ ∃ t, T.vacuumable id = some t ∧
      (w.key = .record id ∨ w.key = .terminal t.phase.completedAt id ∨
        ∃ k, t.idemKey = some k ∧ w.key = .idem k) := by
  obtain ⟨key, value⟩ := w
  cases hv : T.vacuumable id with
  | none => simp [vacuumWrites, hv]
  | some t => cases hk : t.idemKey <;> simp [vacuumWrites, hv, hk] <;> tauto

/-- **A vacuum.** The deletes remove exactly the terminal tasks of the list. -/
theorem TaskTable.assignAll_vacuumWrites (ids : List String) :
    assignAll (T.content texts) (ids.flatMap T.vacuumWrites) = (T.vacuum ids).content texts := by
  funext key
  rw [assignAll_of_forall_del fun w hw => by
    obtain ⟨id, -, hid⟩ := List.mem_flatMap.mp hw
    exact (mem_vacuumWrites.mp hid).1]
  have hmem : (∃ w ∈ ids.flatMap T.vacuumWrites, w.key = key) ↔
      ∃ id ∈ ids, ∃ t, T.vacuumable id = some t ∧ (key = .record id ∨
        key = .terminal t.phase.completedAt id ∨ ∃ k, t.idemKey = some k ∧ key = .idem k) := by
    constructor
    · rintro ⟨w, hw, rfl⟩
      obtain ⟨id, hid, hw⟩ := List.mem_flatMap.mp hw
      exact ⟨id, hid, (mem_vacuumWrites.mp hw).2⟩
    · rintro ⟨id, hid, ht⟩
      exact ⟨⟨key, none⟩, List.mem_flatMap.mpr ⟨id, hid, mem_vacuumWrites.mpr ⟨rfl, ht⟩⟩, rfl⟩
  simp only [hmem]
  cases hkey : key.listed with
  | some id =>
    rw [content_of_listed texts _ hkey, content_of_listed texts _ hkey]
    by_cases hv : id ∈ ids ∧ (T.vacuumable id).isSome
    · obtain ⟨t, ht⟩ := Option.isSome_iff_exists.mp hv.2
      obtain ⟨htask, hterminal⟩ := vacuumable_eq_some.mp ht
      have hnew : (T.vacuum ids).task id = none := if_pos hv
      rw [hnew, htask, Option.bind_none, Option.bind_some, ite_eq_left_iff]
      intro hnot
      rw [indexValue, indexEntry_of_isTerminal hterminal, if_neg]
      rintro rfl
      exact hnot ⟨id, hv.1, t, ht, .inr (.inl rfl)⟩
    · have hnew : (T.vacuum ids).task id = T.task id := if_neg hv
      rw [hnew, if_neg]
      rintro ⟨id', hid', t, ht, rfl | rfl | ⟨k, -, rfl⟩⟩
      · simp [listed] at hkey
      · obtain rfl : id' = id := by simpa [listed] using hkey
        exact hv ⟨hid', by simp [ht]⟩
      · simp [listed] at hkey
  | none =>
    cases key with
    | record id =>
      simp only [content, vacuum, TaskKey.record.injEq, reduceCtorEq, and_false, exists_false,
        or_false]
      by_cases hv : id ∈ ids ∧ (T.vacuumable id).isSome
      · obtain ⟨t, ht⟩ := Option.isSome_iff_exists.mp hv.2
        rw [if_pos hv, if_pos ⟨id, hv.1, t, ht, rfl⟩, Option.map_none]
      · rw [if_neg hv, if_neg]
        rintro ⟨id', hid', t, ht, rfl⟩
        exact hv ⟨hid', by simp [ht]⟩
    | idem k =>
      have hidem : (∃ id ∈ ids, (T.vacuumable id).any (fun t => t.idemKey = some k) = true) ↔
          ∃ id ∈ ids, ∃ t, T.vacuumable id = some t ∧ t.idemKey = some k := by
        refine exists_congr fun id => and_congr_right fun _ => ?_
        cases T.vacuumable id <;> simp
      simp only [content, vacuum, reduceCtorEq, false_or, TaskKey.idem.injEq, hidem,
        exists_eq_right']
    | worker nodeId => simp [content, vacuum]
    | _ => simp [listed] at hkey

theorem applyVacuum_refines (h : Represents texts s T) (ids : List String) :
    Refines texts T (applyVacuum texts s.reader ids) (T.perform (.taskVacuum ids)) := by
  rw [applyVacuum, foldlM_vacuumOne h, ok_bind]
  refine ⟨ids.flatMap T.vacuumWrites, ?_, assignAll_vacuumWrites ids,
    fun P hP _ _ w hw => hP.unassigned _ ?_⟩
  · simp
  · obtain ⟨id, -, hw⟩ := List.mem_flatMap.mp hw
    obtain ⟨-, t, -, hk | hk | ⟨k, -, hk⟩⟩ := TaskTable.mem_vacuumWrites.mp hw <;>
      exact hk ▸ trivial

theorem applyWorkerLease_refines (nodeId workerName : String) (leaseEpoch expiresAt : UInt64) :
    Refines texts T (applyWorkerLease texts nodeId workerName leaseEpoch expiresAt)
      (T.perform (.workerLease nodeId workerName leaseEpoch expiresAt)) := by
  let lease : WorkerLeaseRecord := { nodeId, workerName, leaseEpoch, expiresAt }
  refine ⟨[⟨.worker nodeId, some (texts.workerLease.toStr lease)⟩], rfl, ?_,
    fun P hP _ _ w hw => hP.unassigned _ (by simp_all [TaskKey.Unassigned])⟩
  funext key
  cases key with
  | worker nodeId' =>
    by_cases hn : nodeId' = nodeId
    · simp [TaskTable.content, setLease, hn, lease]
    · simp [TaskTable.content, setLease, hn]
  | _ => simp [TaskTable.content, setLease]

/-- **Refinement of one command**: mutations and response are the table's, and none fails. -/
theorem applyTaskCommand_refines (h : Represents texts s T) (cmd : TaskRequest) :
    Refines texts T (applyTaskCommand texts s.reader cmd) (T.perform cmd) := by
  have hlife {id : String} (hid : cmd.target = some id)
      (hmissing : readRecord texts s.reader id = .ok none →
        applyTaskCommand texts s.reader cmd = unchanged texts (.rejected "task not found"))
      (hfound : ∀ t, readRecord texts s.reader id = .ok (some (t.toRecord id)) →
        Answers texts id t (applyTaskCommand texts s.reader cmd) (t.accept id cmd)) :
      Refines texts T (applyTaskCommand texts s.reader cmd) (T.perform cmd) := by
    have hread := h.readRecord_eq id
    cases ht : T.task id with
    | some t => exact (hfound t (by rw [hread, ht]; rfl)).refines hid ht
    | none =>
      rw [perform_eq_bind hid, ht]
      exact ⟨_, hmissing (by rw [hread, ht]; rfl)⟩
  cases cmd with
  | taskEnqueue id payload runAt idemKey createdAt =>
    exact applyEnqueue_refines h id payload runAt idemKey createdAt
  | taskAssign id nodeId leaseEpoch now =>
    refine hlife rfl (fun hr => ?_) fun t hr => applyAssign_answers hr nodeId leaseEpoch now
    rw [applyTaskCommand, applyAssign, hr, ok_bind]
  | taskClaim id nodeId leaseEpoch now =>
    refine hlife rfl (fun hr => ?_) fun t hr => applyClaim_answers hr nodeId leaseEpoch now
    rw [applyTaskCommand, applyClaim, hr, ok_bind]
  | taskMarkCommitted id nodeId leaseEpoch now =>
    refine hlife rfl (fun hr => ?_) fun t hr =>
      applyMarkCommitted_answers hr nodeId leaseEpoch now
    rw [applyTaskCommand, applyMarkCommitted, hr, ok_bind]
  | taskDone id nodeId leaseEpoch attempts now result =>
    refine hlife rfl (fun hr => ?_) fun t hr =>
      applyDone_answers hr nodeId leaseEpoch attempts now result
    rw [applyTaskCommand, applyDone, hr, ok_bind]
  | taskFail id nodeId leaseEpoch attempts error retryAt now =>
    refine hlife rfl (fun hr => ?_) fun t hr =>
      applyFail_answers hr nodeId leaseEpoch attempts error retryAt now
    rw [applyTaskCommand, applyFail, hr, ok_bind]
  | taskRequeue id =>
    refine hlife rfl (fun hr => ?_) fun t hr => applyRequeue_answers hr
    rw [applyTaskCommand, applyRequeue, hr, ok_bind]
  | taskReplay id now =>
    refine hlife rfl (fun hr => ?_) fun t hr => applyReplay_answers hr now
    rw [applyTaskCommand, applyReplay, hr, ok_bind]
  | taskVacuum ids => exact applyVacuum_refines h ids
  | workerLease nodeId workerName leaseEpoch expiresAt =>
    exact applyWorkerLease_refines nodeId workerName leaseEpoch expiresAt

/-! ### Steps and runs -/

variable (texts) in
/-- The proposer's view of a table event. -/
def TableEvent.toCommand (e : TableEvent) : CommandEvent := ⟨e.cmd, e.result.intoResponse texts⟩

@[simp] theorem TableEvent.toCommand_cmd (e : TableEvent) : (e.toCommand texts).cmd = e.cmd := rfl

@[simp] theorem TableEvent.isOk_toCommand (e : TableEvent) :
    (e.toCommand texts).response.isOk texts = e.result.ok := by
  simp [toCommand]

@[simp] theorem TableEvent.fromResponse_toCommand (e : TableEvent) :
    TaskOpResult.fromResponse texts (e.toCommand texts).response = some e.result := by
  simp [toCommand]

/-- A step keeps the index entries in `P` if what it makes of each task does. -/
theorem TaskTable.Step.within {T' : TaskTable} {e : TableEvent} (h : T.Step e T') (hT : T.Within P)
    (hnew : ∀ id payload runAt idemKey createdAt,
      e.cmd = .taskEnqueue id payload runAt idemKey createdAt → P (.queued runAt id))
    (hmoved : ∀ id t t', e.cmd.target = some id → T.task id = some t → t.Move e.cmd t' →
      P (t.indexEntry id).1 → P (t'.indexEntry id).1) : T'.Within P := by
  intro id t' ht'
  cases h.effectOn id with
  | frame heq => exact hT id t' (heq.symm.trans ht')
  | created _ hcmd hsome =>
    obtain ⟨⟩ := ht'.symm.trans hsome
    exact hnew _ _ _ _ _ hcmd
  | moved ht hsome htarget hmove =>
    obtain ⟨⟩ := ht'.symm.trans hsome
    exact hmoved id _ _ htarget ht hmove (hT id _ ht)
  | vacuumed _ _ _ _ hnone => simp [hnone] at ht'

theorem represents_empty : Represents texts ∅ empty := by
  intro key _
  cases key <;> simp [TaskTable.content, empty]

theorem mirrors_empty (P : TaskKey → Prop) : Mirrors texts P ∅ empty := by
  refine ⟨fun key _ => ?_, fun key value h => ?_⟩
  · cases key <;> simp [TaskTable.content, empty]
  · simp at h

/-- **One step.** A command is answered, and leads to a key space that shows the table after it; on
separated keys it leads from a mirror to a mirror. -/
theorem Represents.exists_step (h : Represents texts s T) (cmd : TaskRequest) :
    ∃ s' e T', e.cmd = cmd ∧ T.Step e T' ∧ CommandStep texts s (e.toCommand texts) s' ∧
      Represents texts s' T' ∧ ∀ P, Separates P → T.Within P → T'.Within P →
        Mirrors texts P s T → Mirrors texts P s' T' := by
  have href := applyTaskCommand_refines h cmd
  cases hperform : T.perform cmd with
  | none =>
    rw [hperform] at href
    obtain ⟨reason, hout⟩ := href
    refine ⟨s, ⟨cmd, .rejected reason⟩, T, rfl, .inr ⟨hperform, rfl, rfl⟩, ?_, h,
      fun _ _ _ _ hm => hm⟩
    simp [CommandStep, TableEvent.toCommand, applyCommand, hout, unchanged]
  | some p =>
    obtain ⟨T', res⟩ := p
    rw [hperform] at href
    obtain ⟨ws, hout, hcontent, hws⟩ := href
    have hstep : T.Step ⟨cmd, res⟩ T' := .inl hperform
    refine ⟨s.writeAll (ws.map (Write.rename render)), ⟨cmd, res⟩, T', rfl, hstep, ?_, ?_,
      fun P hP hT hT' hm => ⟨?_, hm.covers.writeAll (hws P hP hT hT')⟩⟩
    · simp only [CommandStep, TableEvent.toCommand, applyCommand, hout, ok_bind, pure_eq_ok]
    · rw [Represents, ← hcontent]
      exact Shows.writeAll (fun w _ key hkey => hkey.eq_of_render) h
    · rw [← hcontent]
      exact Shows.writeAll
        (fun w hw key hkey => hP.eq_of_render _ _ (hws P hP hT hT' w hw) hkey) hm.shows

/-- **Simulation.** Every step of the code is a step of the table. -/
theorem Represents.step (h : Represents texts s T) {e : CommandEvent} {s' : KeySpace}
    (hstep : CommandStep texts s e s') :
    ∃ e' T', T.Step e' T' ∧ e'.toCommand texts = e ∧ Represents texts s' T' ∧
      ∀ P, Separates P → T.Within P → T'.Within P → Mirrors texts P s T →
        Mirrors texts P s' T' := by
  obtain ⟨s₁, e', T', hcmd, hT, hs₁, hr, hm⟩ := h.exists_step e.cmd
  simp only [CommandStep, TableEvent.toCommand, hcmd] at hs₁ hstep
  obtain ⟨rfl, hresponse⟩ := Prod.mk.inj (Except.ok.inj (hs₁.symm.trans hstep))
  refine ⟨e', T', hT, ?_, hr, hm⟩
  rw [TableEvent.toCommand, hcmd, hresponse]

variable {es : List CommandEvent}

/-- **Runs.** A run of task commands from the empty key space is a run of the table. -/
theorem exists_tableRun (run : Run (CommandStep texts) ∅ es s) :
    ∃ es' T, Run TaskTable.Step empty es' T ∧
      es'.map (TableEvent.toCommand texts) = es ∧ Represents texts s T :=
  run.simulate (TableEvent.toCommand texts) represents_empty
    fun _ _ _ _ hR hstep => by
      obtain ⟨e', T', hT, he, hR', -⟩ := hR.step hstep
      exact ⟨e', T', hT, he, hR'⟩

theorem Represents.leaseAt_eq (h : Represents texts s T) (nodeId : String) :
    leaseAt texts s nodeId = T.lease nodeId := by
  have hlease : s[workerKey nodeId]? = T.content texts (.worker nodeId) :=
    h (.worker nodeId) trivial
  rw [leaseAt, hlease]
  cases hl : T.lease nodeId <;> simp [TaskTable.content, hl, Except.toOption]

/-- The commands of a run determine the table that its last state shows. -/
theorem represents_of_run (run : Run (CommandStep texts) ∅ es s) :
    Represents texts s ((es.map CommandEvent.cmd).foldl next empty) := by
  induction run with
  | nil => exact represents_empty
  | snoc _ hstep ih =>
    obtain ⟨e', T', hT, rfl, h', -⟩ := ih.step hstep
    obtain rfl := hT.eq_next.1
    simpa [TableEvent.toCommand] using h'

variable (texts) in
/-- A command with its acceptance, as its proposer sees it. -/
def CommandEvent.outcome (e : CommandEvent) : TaskRequest × Bool := (e.cmd, e.response.isOk texts)

/-- Commands have a run from a key space that shows a table, to the table they lead to. -/
theorem Represents.exists_run (h : Represents texts s T) (cmds : List TaskRequest) :
    ∃ es s', Run (CommandStep texts) s es s' ∧
      es.map (CommandEvent.outcome texts) = T.trace cmds ∧
      Represents texts s' (cmds.foldl next T) := by
  induction cmds generalizing s T with
  | nil => exact ⟨[], s, .nil, rfl, h⟩
  | cons cmd cmds ih =>
    obtain ⟨s₁, e, T₁, rfl, hT, hs, hr, -⟩ := h.exists_step cmd
    obtain ⟨rfl, hok⟩ := hT.eq_next
    obtain ⟨es, s', run, hes, hr'⟩ := ih hr
    refine ⟨e.toCommand texts :: es, s', run.cons hs, ?_, hr'⟩
    rw [map_cons, hes, trace, ← hok]
    simp [CommandEvent.outcome, TableEvent.toCommand]

variable (texts) in
/-- No command of a run fails: every sequence of commands has a run. -/
theorem exists_commandRun (cmds : List TaskRequest) :
    ∃ es s, Run (CommandStep texts) ∅ es s ∧
      es.map (CommandEvent.outcome texts) = empty.trace cmds ∧
      Represents texts s (cmds.foldl next empty) :=
  represents_empty.exists_run cmds

variable {l : List (TaskRequest × Bool)}

theorem outcome_getElem? (hes : es.map (CommandEvent.outcome texts) = l) {j : ℕ} {e : CommandEvent}
    (hj : es[j]? = some e) : l[j]? = some (e.cmd, e.response.isOk texts) := by
  rw [← hes, getElem?_map, hj]
  rfl

theorem exists_of_outcome (hes : es.map (CommandEvent.outcome texts) = l) {j : ℕ}
    {cmd : TaskRequest} {ok : Bool} (hj : l[j]? = some (cmd, ok)) :
    ∃ e, es[j]? = some e ∧ e.cmd = cmd ∧ e.response.isOk texts = ok := by
  rw [← hes, getElem?_map] at hj
  obtain ⟨e, he, hout⟩ := Option.map_eq_some_iff.mp hj
  obtain ⟨hcmd, hok⟩ := Prod.mk.inj hout
  exact ⟨e, he, hcmd, hok⟩

/-- The table reached by the commands before an event answers the event. -/
theorem fromResponse_of_run (run : Run (CommandStep texts) ∅ es s) {j : ℕ} {e : CommandEvent}
    (hj : es[j]? = some e) {p : TaskTable × TaskOpResult}
    (hp : (((es.map CommandEvent.cmd).take j).foldl next empty).perform e.cmd =
      some p) : TaskOpResult.fromResponse texts e.response = some p.2 := by
  obtain ⟨s₁, s₂, run₁, hstep, -⟩ := run.at_event hj
  have hr := represents_of_run run₁
  rw [map_take] at hr
  obtain ⟨e', T', hT, rfl, -⟩ := hr.step hstep
  rw [TableEvent.toCommand_cmd] at hp
  rcases hT with hT | ⟨hnone, -⟩
  · obtain ⟨⟩ := hT.symm.trans hp
    exact e'.fromResponse_toCommand
  · simp [hnone] at hp

theorem map_cmd_of_outcome (hes : es.map (CommandEvent.outcome texts) = l) :
    es.map CommandEvent.cmd = l.map Prod.fst := by
  rw [← hes, map_map]
  rfl

end RustExample.OpenraftCluster
