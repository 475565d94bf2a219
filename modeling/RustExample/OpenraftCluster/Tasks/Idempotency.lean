import RustExample.OpenraftCluster.Tasks.Indexes

/-!
# The idempotency table

An enqueue with an idempotency key is answered with the task that already carries the key. The
table that decides this is written by the enqueue and cleaned by the vacuum with the key kept in
the record; in every reachable state it lists exactly the keys of the live records. A command
changes nothing that belongs to a task it does not name.
-/

namespace RustExample.OpenraftCluster

open KeyStore

/-! ### The table of keys -/

theorem TaskState.Move.idemKey_eq {t t' : TaskState} {cmd : TaskRequest} (h : t.Move cmd t') :
    t'.idemKey = t.idemKey := by
  cases h <;> rfl

namespace TaskTable

/-- The table of keys lists exactly the keys of the tasks. -/
def IdemConsistent (T : TaskTable) : Prop :=
  ∀ k id, T.idem k = some id ↔ ∃ t, T.task id = some t ∧ t.idemKey = some k

variable {T T' : TaskTable}

theorem idemConsistent_empty : empty.IdemConsistent := by
  intro k id
  simp [empty]

theorem IdemConsistent.setTask {id : String} {t t' : TaskState} (h : T.IdemConsistent)
    (ht : T.task id = some t) (hkey : t'.idemKey = t.idemKey) :
    (T.setTask id t').IdemConsistent := by
  intro k id'
  by_cases hid : id' = id
  · subst hid
    simpa [TaskTable.setTask, ht, hkey] using h k id'
  · simpa [TaskTable.setTask, Function.update_of_ne hid] using h k id'

theorem IdemConsistent.addTask {id : String} {t : TaskState} (h : T.IdemConsistent)
    (hid : T.task id = none) (hkey : t.idemKey.bind T.idem = none) :
    (T.addTask id t).IdemConsistent := by
  intro k id'
  have hidem : (T.addTask id t).idem k = if t.idemKey = some k then some id else T.idem k := by
    cases hk : t.idemKey with
    | none => simp [TaskTable.addTask, hk]
    | some k' => simp [TaskTable.addTask, hk, Function.update_apply, eq_comm]
  rw [hidem]
  by_cases hid' : id' = id
  · subst hid'
    have hnone : T.idem k ≠ some id' := by
      rw [ne_eq, h k id', hid]
      simp
    by_cases hk : t.idemKey = some k <;> simp [TaskTable.addTask, hk, hnone]
  · by_cases hk : t.idemKey = some k
    · have hfree : T.idem k = none := by simpa [hk] using hkey
      have hlist := h k id'
      rw [hfree] at hlist
      simpa [TaskTable.addTask, hk, Function.update_of_ne hid', Ne.symm hid'] using hlist
    · simpa [TaskTable.addTask, hk, Function.update_of_ne hid'] using h k id'

theorem IdemConsistent.vacuum (h : T.IdemConsistent) (ids : List String) :
    (T.vacuum ids).IdemConsistent := by
  intro k id
  have hremoved : (∃ id' ∈ ids, (T.vacuumable id').any (fun t => t.idemKey = some k) = true) ↔
      ∃ id' ∈ ids, (T.vacuumable id').isSome ∧ T.idem k = some id' := by
    refine exists_congr fun id' => and_congr_right fun _ => ?_
    cases hv : T.vacuumable id' with
    | none => simp
    | some t =>
      rw [h k id', (vacuumable_eq_some.mp hv).1]
      simp
  simp only [TaskTable.vacuum, hremoved]
  by_cases hid : T.idem k = some id
  · obtain ⟨t, ht, hk⟩ := (h k id).mp hid
    by_cases hv : id ∈ ids ∧ (T.vacuumable id).isSome
    · rw [if_pos ⟨id, hv.1, hv.2, hid⟩, if_pos hv]
      simp
    · rw [if_neg, if_neg hv, hid]
      · simpa using ⟨t, ht, hk⟩
      · rintro ⟨id', hmem, hsome, hid'⟩
        obtain ⟨⟩ := hid'.symm.trans hid
        exact hv ⟨hmem, hsome⟩
  · have hnone : ¬∃ t, T.task id = some t ∧ t.idemKey = some k := fun ht => hid ((h k id).mpr ht)
    constructor
    · intro hsome
      split_ifs at hsome
      exact absurd hsome hid
    · rintro ⟨t, ht, hk⟩
      split_ifs at ht
      exact absurd ⟨t, ht, hk⟩ hnone

/-- **Every command keeps the table of keys consistent.** -/
theorem Step.idemConsistent {e : TableEvent} (hstep : T.Step e T') (h : T.IdemConsistent) :
    T'.IdemConsistent := by
  cases hstep.effect with
  | rejected | deduplicated => exact h
  | leased => exact fun k id => h k id
  | enqueued hex =>
    obtain ⟨hid, hkey⟩ := task_eq_none_of_existing hex
    exact h.addTask hid hkey
  | moved _ ht hmove => exact h.setTask ht hmove.idemKey_eq
  | vacuumed => exact h.vacuum _

/-- In a reachable table the keys are consistent. -/
theorem idemConsistent_of_run {es : List TableEvent} (run : Run Step empty es T) :
    T.IdemConsistent :=
  run.invariant idemConsistent_empty fun _ _ _ h hstep => hstep.idemConsistent h

end TaskTable

/-! ### The tasks that a command names -/

/-- The tasks that a command names. -/
def TaskRequest.names : TaskRequest → List String
  | .taskEnqueue id _ _ _ _ => [id]
  | .taskAssign id _ _ _ | .taskClaim id _ _ _ | .taskMarkCommitted id _ _ _
  | .taskDone id _ _ _ _ _ | .taskFail id _ _ _ _ _ _ | .taskRequeue id | .taskReplay id _ => [id]
  | .taskVacuum ids => ids
  | .workerLease .. => []

theorem TaskRequest.mem_names_of_target {cmd : TaskRequest} {id : String}
    (h : cmd.target = some id) : id ∈ cmd.names := by
  cases cmd <;> cases h <;> simp [names]

/-- A step leaves the tasks alone that its command does not name. -/
theorem TaskTable.Step.task_eq {T T' : TaskTable} {e : TableEvent} (h : T.Step e T') {id : String}
    (hid : id ∉ e.cmd.names) : T'.task id = T.task id := by
  cases h.effectOn id with
  | frame heq => exact heq
  | created _ hcmd => simp [hcmd, TaskRequest.names] at hid
  | moved _ _ htarget => exact absurd (TaskRequest.mem_names_of_target htarget) hid
  | vacuumed _ _ hcmd hmem => simp [hcmd, TaskRequest.names, hmem] at hid

variable (texts : TextForms)

/-- What the idempotency table promises in a state. -/
structure IdemTable (s : KeySpace) : Prop where
  entry_iff : ∀ k id, s[idemRecordKey k]? = some id ↔
    ∃ r, recordAt texts s id = some r ∧ r.idemKey = some k
  unique : ∀ k id id' r r', recordAt texts s id = some r → r.idemKey = some k →
    recordAt texts s id' = some r' → r'.idemKey = some k → id = id'
  deduplicates : ∀ id payload runAt k createdAt id' r, recordAt texts s id' = some r →
    r.idemKey = some k →
      applyTaskCommand texts s.reader (.taskEnqueue id payload runAt (some k) createdAt) =
        unchanged texts ⟨true, some id', some true, none, none⟩
  vacuum_own : ∀ ids response s' k id, CommandStep texts s ⟨.taskVacuum ids, response⟩ s' →
    s[idemRecordKey k]? = some id → s'[idemRecordKey k]? ≠ some id →
      id ∈ ids ∧ recordAt texts s' id = none

/-- A command leaves other tasks alone, but for entries of the assigned index. -/
def FramesTasks (s : KeySpace) : Prop :=
  ∀ e s' id, CommandStep texts s e s' → id ∉ e.cmd.names →
    s'[recKey id]? = s[recKey id]? ∧
      (∀ runAt, s'[queuedIdxKey runAt id]? = s[queuedIdxKey runAt id]?) ∧
      (∀ completedAt, s'[terminalIdxKey completedAt id]? = s[terminalIdxKey completedAt id]?) ∧
      ∀ k, s'[idemRecordKey k]? = some id ↔ s[idemRecordKey k]? = some id

/-- A command leaves the entries of the assigned index alone that list a task it does not
name. -/
def FramesAssigned (s : KeySpace) : Prop :=
  ∀ e s' id, CommandStep texts s e s' → id ∉ e.cmd.names → ColonFree id →
    ∀ nodeId, s'[assignedIdxKey nodeId id]? = s[assignedIdxKey nodeId id]?

/-- An enqueue draws an id without a colon, such as a UUID. -/
def TaskRequest.EnqueuesColonFree : TaskRequest → Prop
  | .taskEnqueue id _ _ _ _ => ColonFree id
  | _ => True

variable {texts} {s : KeySpace} {T : TaskTable}

theorem Represents.idem_eq (h : Represents texts s T) (k : String) :
    s[idemRecordKey k]? = T.idem k :=
  h (.idem k) trivial

theorem Represents.exists_recordAt_iff (h : Represents texts s T) {id k : String} :
    (∃ r, recordAt texts s id = some r ∧ r.idemKey = some k) ↔
      ∃ t, T.task id = some t ∧ t.idemKey = some k := by
  rw [h.recordAt_eq]
  cases T.task id <;> simp [TaskState.toRecord]

theorem Represents.idemTable (h : Represents texts s T) (hT : T.IdemConsistent) :
    IdemTable texts s := by
  have hentry : ∀ k id, s[idemRecordKey k]? = some id ↔
      ∃ r, recordAt texts s id = some r ∧ r.idemKey = some k := by
    intro k id
    rw [h.idem_eq, hT k id, h.exists_recordAt_iff]
  refine ⟨hentry, ?_, ?_, ?_⟩
  · intro k id id' r r' hr hk hr' hk'
    have hid := (hentry k id).mpr ⟨r, hr, hk⟩
    rw [(hentry k id').mpr ⟨r', hr', hk'⟩] at hid
    exact (Option.some.inj hid).symm
  · intro id payload runAt k createdAt id' r hr hk
    have hread : s.reader (idemRecordKey k) = .ok (some id') :=
      congrArg Except.ok ((hentry k id').mpr ⟨r, hr, hk⟩)
    rw [applyTaskCommand, applyEnqueue, hread, ok_bind]
  · intro ids response s' k id hstep hbefore hafter
    obtain ⟨e', T', hT', he, h', -⟩ := h.step hstep
    have hcmd : e'.cmd = .taskVacuum ids := congrArg CommandEvent.cmd he
    obtain ⟨t, ht, hk⟩ := (hT k id).mp ((h.idem_eq k).symm.trans hbefore)
    rw [h'.idem_eq, ne_eq, hT'.idemConsistent hT k id] at hafter
    rw [h'.recordAt_eq, Option.map_eq_none_iff]
    cases hT'.effectOn id with
    | frame heq => exact absurd ⟨t, heq.trans ht, hk⟩ hafter
    | created hnone => simp [ht] at hnone
    | moved _ _ htarget => simp [hcmd, TaskRequest.target] at htarget
    | vacuumed _ _ hcmd' hid hnone =>
      obtain rfl : ids = _ := TaskRequest.taskVacuum.inj (hcmd.symm.trans hcmd')
      exact ⟨hid, hnone⟩

theorem Represents.framesTasks (h : Represents texts s T) (hT : T.IdemConsistent) :
    FramesTasks texts s := by
  intro e s' id hstep hid
  obtain ⟨e', T', hT', rfl, h', -⟩ := h.step hstep
  have htask : T'.task id = T.task id := hT'.task_eq hid
  refine ⟨?_, fun runAt => ?_, fun completedAt => ?_, fun k => ?_⟩
  · refine (h' (.record id) trivial).trans (Eq.trans ?_ (h (.record id) trivial).symm)
    simp [TaskTable.content, htask]
  · refine (h' (.queued runAt id) trivial).trans (Eq.trans ?_ (h (.queued runAt id) trivial).symm)
    simp [TaskTable.content, htask]
  · refine (h' (.terminal completedAt id) trivial).trans
      (Eq.trans ?_ (h (.terminal completedAt id) trivial).symm)
    simp [TaskTable.content, htask]
  · rw [h'.idem_eq, h.idem_eq, hT'.idemConsistent hT k id, hT k id, htask]

/-! ### Colon-free tasks -/

/-- The entries of colon-free tasks are colon-free. -/
theorem taskColonFree_indexEntry {id : String} (hid : ColonFree id) (t : TaskState) :
    (t.indexEntry id).1.TaskColonFree := by
  cases hp : t.phase with
  | assigned | running => simpa [TaskState.indexEntry, hp, TaskKey.TaskColonFree] using hid
  | _ => simp [TaskState.indexEntry, hp, TaskKey.TaskColonFree]

theorem within_taskColonFree (hT : ∀ id t, T.task id = some t → ColonFree id) :
    T.Within TaskKey.TaskColonFree :=
  fun id t ht => taskColonFree_indexEntry (hT id t ht) t

theorem TaskTable.Step.within_taskColonFree {T' : TaskTable} {e : TableEvent} (h : T.Step e T')
    (hT : ∀ id t, T.task id = some t → ColonFree id) : T'.Within TaskKey.TaskColonFree :=
  h.within (OpenraftCluster.within_taskColonFree hT) (fun _ _ _ _ _ _ => trivial)
    fun id t t' _ ht _ _ => taskColonFree_indexEntry (hT id t ht) t'

/-! ### Runs -/

/-- A run whose enqueues draw colon-free ids mirrors a table of colon-free tasks. -/
theorem exists_colonFree_table {es : List CommandEvent}
    (hid : ∀ e ∈ es, e.cmd.EnqueuesColonFree) (run : Run (CommandStep texts) ∅ es s) :
    ∃ T, Mirrors texts TaskKey.TaskColonFree s T ∧ ∀ id t, T.task id = some t → ColonFree id := by
  induction run with
  | nil => exact ⟨TaskTable.empty, mirrors_empty _, nofun⟩
  | @snoc es s s' e run hstep ih =>
    obtain ⟨T, hm, hT⟩ := ih fun e he => hid e (List.mem_append_left _ he)
    obtain ⟨e', T', hT', rfl, -, hm'⟩ := (hm.represents separates_taskColonFree).step hstep
    refine ⟨T', hm' _ separates_taskColonFree (within_taskColonFree hT)
      (hT'.within_taskColonFree hT) hm, fun id t ht => ?_⟩
    cases hT'.effectOn id with
    | frame heq => exact hT id t (heq.symm.trans ht)
    | created _ hcmd =>
      have hcmd' := hid (e'.toCommand texts) (by simp)
      simpa [TableEvent.toCommand, hcmd, TaskRequest.EnqueuesColonFree] using hcmd'
    | moved ht₁ => exact hT id _ ht₁
    | vacuumed _ _ _ _ hnone => simp [hnone] at ht

theorem framesAssigned_of_mirrors (hm : Mirrors texts TaskKey.TaskColonFree s T)
    (hT : ∀ id t, T.task id = some t → ColonFree id) : FramesAssigned texts s := by
  intro e s' id hstep hid hfree nodeId
  obtain ⟨e', T', hT', rfl, -, hm'⟩ := (hm.represents separates_taskColonFree).step hstep
  have hm₁ := hm' _ separates_taskColonFree (within_taskColonFree hT)
    (hT'.within_taskColonFree hT) hm
  refine (hm₁.shows (.assigned nodeId id) hfree).trans
    (Eq.trans ?_ (hm.shows (.assigned nodeId id) hfree).symm)
  simp [TaskTable.content, hT'.task_eq hid]

/-- **The idempotency table** lists exactly the keys of the live records, and a command changes
nothing of a task that it does not name; for the assigned index this needs the ids without a colon
that enqueues draw. -/
theorem idemTable_of_run {es : List CommandEvent} (run : Run (CommandStep texts) ∅ es s) :
    IdemTable texts s ∧ FramesTasks texts s ∧
      ((∀ e ∈ es, e.cmd.EnqueuesColonFree) → FramesAssigned texts s) := by
  obtain ⟨es', T, tableRun, -, h⟩ := exists_tableRun run
  have hT := TaskTable.idemConsistent_of_run tableRun
  refine ⟨h.idemTable hT, h.framesTasks hT, fun hid => ?_⟩
  obtain ⟨T', hm, hfree⟩ := exists_colonFree_table hid run
  exact framesAssigned_of_mirrors hm hfree

/-- The idempotency table after a second enqueue with the same key. -/
theorem idemTable_of_run_deduplicated : ∃ es s, Run (CommandStep jsonForms) ∅ es s ∧
    es.map (CommandEvent.outcome jsonForms) =
      [(.taskEnqueue "t1" "mail" 100 (some "k1") 100, true),
        (.taskEnqueue "t2" "mail" 100 (some "k1") 101, true)] ∧
    IdemTable jsonForms s ∧ FramesTasks jsonForms s ∧ FramesAssigned jsonForms s := by
  obtain ⟨es, s, run, hes, -⟩ := exists_commandRun jsonForms
    [.taskEnqueue "t1" "mail" 100 (some "k1") 100, .taskEnqueue "t2" "mail" 100 (some "k1") 101]
  have hid : ∀ p ∈ es.map (CommandEvent.outcome jsonForms), p.1.EnqueuesColonFree := by
    rw [hes]
    simp [TaskTable.trace, TaskRequest.EnqueuesColonFree, ColonFree]
  obtain ⟨hidem, hframe, hassigned⟩ := idemTable_of_run run
  exact ⟨es, s, run, hes, hidem, hframe,
    hassigned fun e he => hid _ (List.mem_map_of_mem he)⟩

end RustExample.OpenraftCluster
