import RustExample.Foundation.CommitPoint
import RustExample.OpenraftTask.Snapshot

/-!
# Failing calls of the task queue

A batch stages everything and fails only before it writes. An installation writes the database in
the middle of its steps.

Source: `openraft_task/src/rocksstore_crud/state_machine.rs`.

* Every fallible step of a call has its outcome as an input of the call. The read of an entry and
  its command have theirs in the stream.
* A write batch reaches the database as a whole or not at all.
* The reader of the received bytes is a parameter.
-/

namespace RustExample.OpenraftTask

open List

variable {L M : Type}

/-- Calls that may fail. -/
abbrev QueueM (L M : Type) := Call (RocksStateMachine L M) String

/-! ### Applying a batch -/

/-- The steps of the two calls that may fail, apart from reading what they are given. -/
inductive IoStep where
  | serializeLogId | serializeMembership | serializePending | serializeSchedulers
  | iterate | writeBatch | flushWal | writeFile
  deriving DecidableEq

/-- An entry of the stream. `commandError` is the error of its command, if there is one. -/
structure ApplyItem (L M : Type) where
  entry : Entry L M
  commandError : Option String := none

/-- The error of a command of an entry. -/
def ApplyItem.runCommand (item : ApplyItem L M) : Except String Unit :=
  match item.entry.payload with
  | .normal _ => attempt item.commandError
  | .blank | .membership _ => .ok ()

/-- One round of the loop over the stream. -/
def applyItem (db : TaskStore) (b : Batch L M) (item : Except String (ApplyItem L M)) :
    Except String (Batch L M) := do
  let item ← item
  item.runCommand
  return applyEntry db b item.entry

/-- Apply a batch: the responses. -/
def applyCall (items : List (Except String (ApplyItem L M))) (faults : IoStep → Option String) :
    QueueM L M (List QueueResponse) := do
  let sm ← get
  let b ← .ofExcept (items.foldlM (applyItem sm.db.tasks) sm.startBatch)
  .ofExcept (if b.lastAppliedLog.isSome then attempt (faults .serializeLogId) else .ok ())
  .ofExcept (if b.lastMembership.isSome then attempt (faults .serializeMembership) else .ok ())
  .ofExcept (attempt (faults .serializePending))
  .ofExcept (attempt (faults .serializeSchedulers))
  .ofExcept (attempt (faults .writeBatch))
  modify fun sm => { sm with db := (sm.finishBatch b).db }
  modify fun sm => { sm with
    pending := b.stage.pending
    pendingIds := b.stage.pendingIds
    schedulerStates := b.stage.schedulerStates }
  return b.responses

/-! ### Installing a snapshot -/

/-- What a snapshot file holds beside its own metadata; the metadata to install is an argument. -/
abbrev SnapshotReader (L M : Type) := List UInt8 → Except String (Snapshot L M)

/-- Installs what was received. -/
def installSnapshotCall (reader : SnapshotReader L M) (metadata : SnapshotMeta L M)
    (rawBytes : List UInt8) (faults : IoStep → Option String) : QueueM L M Unit := do
  let file ← .ofExcept (reader rawBytes)
  .ofExcept (attempt (faults .serializePending))
  .ofExcept (attempt (faults .serializeSchedulers))
  .ofExcept (if metadata.lastLogId.isSome then attempt (faults .serializeLogId) else .ok ())
  .ofExcept (attempt (faults .serializeMembership))
  .ofExcept (attempt (faults .iterate))
  .ofExcept (attempt (faults .writeBatch))
  modify fun sm => { sm with db := (sm.installSnapshot { file with metadata := metadata }).db }
  .ofExcept (attempt (faults .flushWal))
  .ofExcept (attempt (faults .writeFile))
  modify fun sm => { sm with
    pending := file.pending
    pendingIds := file.pending.toFinset
    schedulerStates := file.schedulerStates }

/-! ### Runs of calls -/

/-- The calls of a state machine with the outcomes of their steps. -/
inductive QueueCall (L M : Type) where
  | apply (items : List (Except String (ApplyItem L M))) (faults : IoStep → Option String)
  | installSnapshot (metadata : SnapshotMeta L M) (rawBytes : List UInt8)
      (faults : IoStep → Option String)

variable (reader : SnapshotReader L M)

/-- The outcome of a call, without the responses, and the state machine that it leaves. -/
def QueueCall.exec (sm : RocksStateMachine L M) :
    QueueCall L M → Except String Unit × RocksStateMachine L M
  | .apply items faults => Prod.map (Except.map fun _ => ()) id ((applyCall items faults).exec sm)
  | .installSnapshot metadata rawBytes faults =>
    (installSnapshotCall reader metadata rawBytes faults).exec sm

/-- One call with its faults. -/
def QueueCallStep (sm : RocksStateMachine L M) (call : QueueCall L M)
    (sm' : RocksStateMachine L M) : Prop :=
  sm' = (call.exec reader sm).2

/-- The state machine that is opened on a database. -/
def RocksStateMachine.new (db : Db L M) : RocksStateMachine L M :=
  ⟨db, db.pendingQueue, db.pendingQueue.toFinset, db.schedulerStates⟩

/-- The memory holds the queue, its ids and the progress of the schedulers of the database. -/
structure RocksStateMachine.Agrees (sm : RocksStateMachine L M) : Prop extends sm.Persisted where
  pendingIds : sm.pendingIds = sm.db.pendingQueue.toFinset

/-- A call that fails leaves the state machine as it was. -/
def FailsClean (sm : RocksStateMachine L M) (call : QueueCall L M) : Prop :=
  ∀ err sm', call.exec reader sm = (.error err, sm') → sm' = sm

/-- The database is what the snapshot would make it. -/
structure Snapshot.Holds (snap : Snapshot L M) (db : Db L M) : Prop where
  tasks : (∅ : TaskStore).writeAll (snap.tasks.map fun p => ⟨p.1, some p.2⟩) = db.tasks
  lastAppliedLog : ∀ id, snap.metadata.lastLogId = some id → db.lastAppliedLog = some id
  lastMembership : db.lastMembership = some snap.metadata.lastMembership
  pendingQueue : db.pendingQueue = snap.pending
  schedulerStates : db.schedulerStates = snap.schedulerStates

/-- No step up to the write of the database fails. -/
structure Writable (metadata : SnapshotMeta L M) (faults : IoStep → Option String) : Prop where
  serializePending : faults .serializePending = none
  serializeSchedulers : faults .serializeSchedulers = none
  serializeLogId : metadata.lastLogId.isSome → faults .serializeLogId = none
  serializeMembership : faults .serializeMembership = none
  iterate : faults .iterate = none
  writeBatch : faults .writeBatch = none

/-- An installation that gets as far as its write flushes the log and writes the snapshot file,
unless the database held the snapshot already. -/
def WritesFollow (sm : RocksStateMachine L M) : QueueCall L M → Prop
  | .apply _ _ => True
  | .installSnapshot metadata rawBytes faults =>
    ∀ file, reader rawBytes = .ok file → Writable metadata faults →
      { file with metadata := metadata }.Holds sm.db ∨
        faults .flushWal = none ∧ faults .writeFile = none

/-- A snapshot that is installed names no task twice in its queue. -/
def QueueCall.Distinct : QueueCall L M → Prop
  | .apply _ _ => True
  | .installSnapshot _ rawBytes _ => ∀ file, reader rawBytes = .ok file → file.pending.Nodup

/-! ### The queue and its ids -/

namespace Stage

/-- The queue has no duplicates and its set has the ids in it, whatever the records are. -/
structure Listed (s : Stage) : Prop where
  nodup : s.pending.Nodup
  ids : s.pendingIds = s.pending.toFinset

variable {s : Stage}

theorem Listed.mem_iff (h : s.Listed) {id : String} : id ∈ s.pendingIds ↔ id ∈ s.pending := by
  rw [h.ids, mem_toFinset]

theorem Listed.putTask (h : s.Listed) (id : String) (task : TaskRecord) :
    (s.putTask id task).Listed := ⟨h.nodup, h.ids⟩

theorem Listed.progress (h : s.Listed) (states : KeyStore String SchedulerState) :
    Listed { s with schedulerStates := states } := ⟨h.nodup, h.ids⟩

theorem Listed.enqueue (h : s.Listed) (id : String) : (s.enqueue id).Listed := by
  rw [Stage.enqueue]
  split_ifs with hmem
  · exact h
  · refine ⟨List.nodup_append.mpr ⟨h.nodup, nodup_singleton id, ?_⟩, ?_⟩
    · rintro a ha b hb rfl
      exact hmem (h.mem_iff.mpr (List.mem_singleton.mp hb ▸ ha))
    · ext a
      simp only [h.ids, Finset.mem_insert, mem_toFinset, mem_append, mem_singleton,
        or_comm]

theorem Listed.insertPendingTask (h : s.Listed) (task : TaskRecord) :
    (s.insertPendingTask task).Listed := (h.putTask _ _).enqueue _

theorem Listed.dequeue (h : s.Listed) (id : String) : (s.dequeue id).Listed := by
  refine ⟨h.nodup.filter _, ?_⟩
  ext a
  simp [Stage.dequeue, h.ids, and_comm]

theorem Listed.of_perm {queue pending : List String} (h : Listed { s with pending := queue })
    (hperm : pending.Perm queue) : Listed { s with pending := pending } where
  nodup := hperm.nodup_iff.mpr h.nodup
  ids := by
    ext a
    rw [h.mem_iff, mem_toFinset]
    exact hperm.mem_iff.symm

theorem Listed.of_cons {id : String} {rest : List String}
    (h : Listed { s with pending := id :: rest }) :
    Listed { s with pending := rest, pendingIds := s.pendingIds.erase id } := by
  obtain ⟨hnotMem, hnodup⟩ := List.nodup_cons.mp h.nodup
  refine ⟨hnodup, ?_⟩
  ext a
  have hids : a ∈ s.pendingIds ↔ a ∈ id :: rest := h.mem_iff
  rw [Finset.mem_erase, hids, mem_cons, mem_toFinset]
  constructor
  · rintro ⟨hne, hmem⟩
    exact hmem.resolve_left hne
  · exact fun hmem => ⟨fun heq => hnotMem (heq ▸ hmem), .inr hmem⟩

end Stage

section Commands

variable {db : TaskStore} {s : Stage}

theorem claimNext_listed (workerId : String) (now : UInt64) {queue skipped : List String}
    {s : Stage} (h : Stage.Listed { s with pending := queue ++ skipped }) :
    (claimNext db workerId now queue skipped s).1.Listed := by
  induction queue generalizing skipped s with
  | nil => exact h
  | cons id rest ih =>
    rw [claimNext]
    cases s.loadTask db id with
    | none => exact ih h.of_cons
    | some task =>
      dsimp only
      split_ifs with hstatus hrun
      · exact ih h.of_cons
      · refine ih (h.of_perm ?_)
        rw [← append_assoc]
        exact perm_append_singleton id (rest ++ skipped)
      · exact (h.putTask _ (task.claim workerId now)).of_cons

/-- **One command.** It keeps the queue and its ids in step. -/
theorem applyCommand_listed (h : s.Listed) (command : QueueCommand) :
    (applyCommand db s command).1.Listed := by
  cases command with
  | submit task => exact h.insertPendingTask _
  | submitBatch tasks =>
    exact List.foldlRecOn tasks submitTask h fun _ h task _ => h.insertPendingTask _
  | claim workerId now =>
    exact claimNext_listed workerId now (by simpa only [append_nil] using h)
  | complete id result =>
    rw [applyCommand]
    cases s.loadTask db id with
    | none => exact h
    | some task => exact h.putTask _ _
  | fail id reason retry =>
    rw [applyCommand]
    cases s.loadTask db id with
    | none => exact h
    | some task =>
      cases retry with
      | true => exact (h.enqueue id).putTask _ _
      | false => exact h.putTask _ _
  | kill id =>
    rw [applyCommand]
    cases s.loadTask db id with
    | none => exact h.dequeue id
    | some task => exact (h.putTask _ _).dequeue id
  | reclaim timeoutSecs now =>
    exact List.foldlRecOn _ reclaimTask h fun _ h task _ => h.insertPendingTask _
  | scheduleBatch schedulerId now intervalSecs maxTasks tasks =>
    rw [applyCommand, applyScheduleBatch]
    split_ifs
    · exact h.progress _
    · exact Stage.Listed.progress (scheduleTasks_invariant (P := Stage.Listed)
        (fun _ task h _ _ => h.insertPendingTask task) (h.progress _) maxTasks tasks _ []) _

end Commands

theorem applyEntry_listed {db : TaskStore} {b : Batch L M} (h : b.stage.Listed)
    (entry : Entry L M) : (applyEntry db b entry).stage.Listed := by
  obtain ⟨logId, payload⟩ := entry
  cases payload with
  | blank | membership mem => exact h
  | normal command => exact applyCommand_listed h command

/-! ### The steps of the calls -/

/-- **A batch is all or nothing.** All of its fallible steps stand before its write. -/
theorem applyCall_atomic (items : List (Except String (ApplyItem L M)))
    (faults : IoStep → Option String) : (applyCall items faults).Atomic := by
  refine Call.reads_get.bind_atomic fun sm => (Call.reads_ofExcept _).bind_atomic fun b => ?_
  refine (Call.reads_ofExcept _).bind_atomic fun _ => (Call.reads_ofExcept _).bind_atomic fun _ =>
    (Call.reads_ofExcept _).bind_atomic fun _ => (Call.reads_ofExcept _).bind_atomic fun _ =>
    (Call.reads_ofExcept _).bind_atomic fun _ => Call.Total.atomic ?_
  exact (Call.total_modify _).bind fun _ => (Call.total_modify _).bind fun _ => Call.total_pure _

variable {sm sm' : RocksStateMachine L M}

theorem foldlM_applyItem_eq_ok {db : TaskStore} {items : List (Except String (ApplyItem L M))}
    {b b' : Batch L M} (h : items.foldlM (applyItem db) b = .ok b') :
    ∃ read : List (ApplyItem L M), items = read.map .ok ∧
      b' = (read.map ApplyItem.entry).foldl (applyEntry db) b := by
  obtain ⟨read, hitems, hread⟩ := foldlM_items_eq_ok (fun b item b' hitem => by
    obtain ⟨item, rfl, hround⟩ := bind_eq_ok.mp hitem
    obtain ⟨⟨⟩, -, hentry⟩ := bind_eq_ok.mp hround
    exact ⟨item, rfl, hentry⟩) h
  refine ⟨read, hitems, ?_⟩
  rw [foldl_map]
  exact (Except.ok.inj (List.foldlM_pure.symm.trans hread)).symm

/-- A batch that succeeds applied the entries of its stream. -/
theorem apply_of_ok {items : List (Except String (ApplyItem L M))}
    {faults : IoStep → Option String} {responses : List QueueResponse}
    (h : (applyCall items faults).exec sm = (.ok responses, sm')) :
    ∃ read : List (ApplyItem L M), items = read.map .ok ∧
      sm.apply (read.map ApplyItem.entry) = (sm', responses) := by
  obtain ⟨_, _, hget, h⟩ := Call.exec_bind_eq_ok.mp h
  obtain ⟨⟨rfl⟩, rfl⟩ := Prod.mk.inj hget
  simp only [Call.exec_ofExcept_bind_eq_ok] at h
  obtain ⟨b, hb, ⟨⟩, -, ⟨⟩, -, ⟨⟩, -, ⟨⟩, -, ⟨⟩, -, h⟩ := h
  obtain ⟨read, hitems, rfl⟩ := foldlM_applyItem_eq_ok hb
  obtain ⟨hresponses, rfl⟩ := Prod.mk.inj h
  obtain ⟨⟩ := hresponses
  exact ⟨read, hitems, rfl⟩

section Install

variable {reader : SnapshotReader L M} {metadata : SnapshotMeta L M} {rawBytes : List UInt8}
  {faults : IoStep → Option String} {file : Snapshot L M}

/-- The state after the write of the database, before the memory follows. -/
def RocksStateMachine.installed (sm : RocksStateMachine L M) (metadata : SnapshotMeta L M)
    (file : Snapshot L M) : RocksStateMachine L M :=
  { sm with db := (sm.installSnapshot { file with metadata := metadata }).db }

theorem serializeLogId_eq_ok :
    (if metadata.lastLogId.isSome then attempt (faults .serializeLogId) else .ok ()) = .ok () ↔
      (metadata.lastLogId.isSome → faults .serializeLogId = none) := by
  split_ifs with h <;> simp [h]

/-- An installation that succeeds installs the snapshot. -/
theorem install_of_ok
    (h : (installSnapshotCall reader metadata rawBytes faults).exec sm = (.ok (), sm')) :
    ∃ file, reader rawBytes = .ok file ∧
      sm' = sm.installSnapshot { file with metadata := metadata } := by
  simp only [installSnapshotCall, Call.exec_ofExcept_bind_eq_ok] at h
  obtain ⟨file, hfile, ⟨⟩, -, ⟨⟩, -, ⟨⟩, -, ⟨⟩, -, ⟨⟩, -, ⟨⟩, -, h⟩ := h
  obtain ⟨⟨⟩, _, hmodify, h⟩ := Call.exec_bind_eq_ok.mp h
  obtain ⟨-, rfl⟩ := Prod.mk.inj hmodify
  simp only [Call.exec_ofExcept_bind_eq_ok] at h
  obtain ⟨⟨⟩, -, ⟨⟩, -, h⟩ := h
  obtain ⟨-, rfl⟩ := Prod.mk.inj h
  exact ⟨file, hfile, rfl⟩

/-- An installation that fails changed nothing, or failed behind its write. -/
theorem install_of_error {err : String}
    (h : (installSnapshotCall reader metadata rawBytes faults).exec sm = (.error err, sm')) :
    sm' = sm ∨ ∃ file, reader rawBytes = .ok file ∧ Writable metadata faults ∧
      ¬(faults .flushWal = none ∧ faults .writeFile = none) ∧ sm' = sm.installed metadata file := by
  rw [installSnapshotCall] at h
  rcases Call.exec_ofExcept_bind_eq_error.mp h with ⟨-, h⟩ | ⟨file, hfile, h⟩
  · exact .inl h
  rcases Call.exec_ofExcept_bind_eq_error.mp h with ⟨-, h⟩ | ⟨⟨⟩, h₁, h⟩
  · exact .inl h
  rcases Call.exec_ofExcept_bind_eq_error.mp h with ⟨-, h⟩ | ⟨⟨⟩, h₂, h⟩
  · exact .inl h
  rcases Call.exec_ofExcept_bind_eq_error.mp h with ⟨-, h⟩ | ⟨⟨⟩, h₃, h⟩
  · exact .inl h
  rcases Call.exec_ofExcept_bind_eq_error.mp h with ⟨-, h⟩ | ⟨⟨⟩, h₄, h⟩
  · exact .inl h
  rcases Call.exec_ofExcept_bind_eq_error.mp h with ⟨-, h⟩ | ⟨⟨⟩, h₅, h⟩
  · exact .inl h
  rcases Call.exec_ofExcept_bind_eq_error.mp h with ⟨-, h⟩ | ⟨⟨⟩, h₆, h⟩
  · exact .inl h
  have hwritable : Writable metadata faults :=
    ⟨attempt_eq_ok.mp h₁, attempt_eq_ok.mp h₂, serializeLogId_eq_ok.mp h₃, attempt_eq_ok.mp h₄,
      attempt_eq_ok.mp h₅, attempt_eq_ok.mp h₆⟩
  rcases Call.exec_bind_eq_error.mp h with h | ⟨⟨⟩, _, hmodify, h⟩
  · cases h
  obtain ⟨-, rfl⟩ := Prod.mk.inj hmodify
  refine .inr ⟨file, hfile, hwritable, ?_⟩
  rcases Call.exec_ofExcept_bind_eq_error.mp h with ⟨hflush, rfl⟩ | ⟨⟨⟩, -, h⟩
  · refine ⟨fun hnone => ?_, rfl⟩
    rw [hnone.1] at hflush
    cases hflush
  rcases Call.exec_ofExcept_bind_eq_error.mp h with ⟨hwrite, rfl⟩ | ⟨⟨⟩, -, h⟩
  · refine ⟨fun hnone => ?_, rfl⟩
    rw [hnone.2] at hwrite
    cases hwrite
  · cases h

/-- An installation that fails behind its write leaves the database replaced. -/
theorem exists_error_of_late_failure (hfile : reader rawBytes = .ok file)
    (hwritable : Writable metadata faults)
    (hlate : ¬(faults .flushWal = none ∧ faults .writeFile = none)) :
    ∃ err, (installSnapshotCall reader metadata rawBytes faults).exec sm =
      (.error err, sm.installed metadata file) := by
  have hlogId := serializeLogId_eq_ok.mpr hwritable.serializeLogId
  have hnone : attempt (none : Option String) = .ok () := rfl
  simp only [installSnapshotCall, Call.exec_bind, Call.exec_ofExcept, Call.exec_modify, hfile,
    hwritable.serializePending, hwritable.serializeSchedulers, hlogId,
    hwritable.serializeMembership, hwritable.iterate, hwritable.writeBatch, hnone]
  cases hflush : faults .flushWal with
  | some err => exact ⟨err, rfl⟩
  | none =>
    cases hwrite : faults .writeFile with
    | some err => exact ⟨err, rfl⟩
    | none => exact absurd ⟨hflush, hwrite⟩ hlate

theorem installed_tasks (sm : RocksStateMachine L M) (snap : Snapshot L M) :
    (sm.installSnapshot snap).db.tasks =
      (∅ : TaskStore).writeAll (snap.tasks.map fun p => ⟨p.1, some p.2⟩) := by
  rw [RocksStateMachine.installSnapshot, KeyStore.writeAll_append, KeyStore.writeAll_clear]

/-- The database holds a snapshot exactly if its installation does not change the database. -/
theorem Snapshot.holds_iff {snap : Snapshot L M} :
    snap.Holds sm.db ↔ (sm.installSnapshot snap).db = sm.db := by
  constructor
  · rintro ⟨htasks, hlog, hmem, hqueue, hstates⟩
    have hlast : snap.metadata.lastLogId.or sm.db.lastAppliedLog = sm.db.lastAppliedLog := by
      cases hid : snap.metadata.lastLogId with
      | none => rfl
      | some id => exact (hlog id hid).symm
    have hinstalled := (installed_tasks sm snap).trans htasks
    obtain ⟨⟨tasks, lastAppliedLog, lastMembership, pendingQueue, states⟩, _, _, _⟩ := sm
    simp only [RocksStateMachine.installSnapshot, Db.mk.injEq] at *
    exact ⟨hinstalled, hlast, hmem.symm, hqueue.symm, hstates.symm⟩
  · intro h
    refine ⟨(installed_tasks sm snap).symm.trans (congrArg Db.tasks h), fun id hid => ?_,
      (congrArg Db.lastMembership h).symm, (congrArg Db.pendingQueue h).symm,
      (congrArg Db.schedulerStates h).symm⟩
    have hlast := congrArg Db.lastAppliedLog h
    rw [RocksStateMachine.installSnapshot] at hlast
    simpa only [hid, Option.some_or] using hlast.symm

end Install

/-! ### Memory and database -/

variable {reader : SnapshotReader L M}

/-- A call fails clean exactly when no installation fails behind its write. -/
theorem failsClean_iff {call : QueueCall L M} :
    FailsClean reader sm call ↔ WritesFollow reader sm call := by
  cases call with
  | apply items faults =>
    refine iff_of_true (fun err sm' h => ?_) trivial
    exact applyCall_atomic items faults sm err sm' (Call.forget_eq_error.mp h)
  | installSnapshot metadata rawBytes faults =>
    constructor
    · intro h file hfile hwritable
      by_contra hnot
      obtain ⟨hholds, hlate⟩ := not_or.mp hnot
      obtain ⟨err, hexec⟩ := exists_error_of_late_failure hfile hwritable hlate
      have hdb : (sm.installed metadata file).db = sm.db :=
        congrArg RocksStateMachine.db (h err _ hexec)
      exact hholds (Snapshot.holds_iff.mpr hdb)
    · intro h err sm' hexec
      rcases install_of_error hexec with rfl | ⟨file, hfile, hwritable, hlate, rfl⟩
      · rfl
      · rw [RocksStateMachine.installed,
          Snapshot.holds_iff.mp ((h file hfile hwritable).resolve_right hlate)]

/-- What holds between the calls: memory and database agree, and no task is queued twice. -/
structure RocksStateMachine.InStep (sm : RocksStateMachine L M) : Prop extends sm.Agrees where
  nodup : sm.db.pendingQueue.Nodup

theorem RocksStateMachine.inStep_new {db : Db L M} (h : db.pendingQueue.Nodup) :
    (new db).InStep := ⟨⟨⟨rfl, rfl⟩, rfl⟩, h⟩

theorem RocksStateMachine.InStep.apply (h : sm.InStep) (entries : List (Entry L M)) :
    (sm.apply entries).1.InStep := by
  have hlisted : (entries.foldl (applyEntry sm.db.tasks) sm.startBatch).stage.Listed := by
    have hstart : sm.startBatch.stage.Listed := by
      have hnodup : sm.pending.Nodup := h.pendingQueue ▸ h.nodup
      exact ⟨hnodup, h.pendingIds.trans (congrArg List.toFinset h.pendingQueue)⟩
    generalize sm.startBatch = b at hstart ⊢
    induction entries generalizing b with
    | nil => exact hstart
    | cons entry entries ih => exact ih _ (applyEntry_listed hstart entry)
  exact ⟨⟨⟨rfl, rfl⟩, hlisted.ids⟩, hlisted.nodup⟩

/-- **One call** keeps memory and database in agreement if it changes nothing when it fails. -/
theorem RocksStateMachine.InStep.step (h : sm.InStep) {call : QueueCall L M}
    (hdistinct : call.Distinct reader) (hclean : FailsClean reader sm call)
    (hstep : QueueCallStep reader sm call sm') : sm'.InStep := by
  obtain rfl := hstep
  cases hexec : call.exec reader sm with
  | mk outcome sm' =>
    cases outcome with
    | error err => exact (hclean err sm' hexec).symm ▸ h
    | ok u =>
      cases call with
      | apply items faults =>
        obtain ⟨responses, happly⟩ := Call.forget_eq_ok.mp hexec
        obtain ⟨read, -, hread⟩ := apply_of_ok happly
        have hinstep := h.apply (read.map ApplyItem.entry)
        rwa [hread] at hinstep
      | installSnapshot metadata rawBytes faults =>
        obtain ⟨file, hfile, rfl⟩ := install_of_ok hexec
        exact ⟨⟨⟨rfl, rfl⟩, rfl⟩, hdistinct file hfile⟩

variable (reader) in
/-- Memory and database agree after every call, and a call that fails changes nothing. -/
def CallsAgree (db : Db L M) (calls : List (QueueCall L M)) : Prop :=
  Run.Always (QueueCallStep reader) (.new db) RocksStateMachine.Agrees calls ∧
    Run.AtEvents (QueueCallStep reader) (.new db) (FailsClean reader) calls

/-- **Failing calls.** If memory and database agree after every call and every failed call changes
nothing, no installation has failed between a write that changed the database and its end. The
converse holds if no queue that is opened or installed names a task twice. -/
theorem queue_calls_agree (db : Db L M) (calls : List (QueueCall L M)) :
    (CallsAgree reader db calls →
      Run.AtEvents (QueueCallStep reader) (.new db) (WritesFollow reader) calls) ∧
    (db.pendingQueue.Nodup → (∀ call ∈ calls, call.Distinct reader) →
      Run.AtEvents (QueueCallStep reader) (.new db) (WritesFollow reader) calls →
        CallsAgree reader db calls) := by
  constructor
  · rintro ⟨-, hclean⟩ n sm call hrun hcall
    exact failsClean_iff.mp (hclean n sm call hrun hcall)
  · intro hdb hdistinct hfollow
    have hclean : Run.AtEvents (QueueCallStep reader) (.new db) (FailsClean reader) calls :=
      fun n sm call hrun hcall => failsClean_iff.mpr (hfollow n sm call hrun hcall)
    have hboth : Run.AtEvents (QueueCallStep reader) (.new db)
        (fun sm call => FailsClean reader sm call ∧ call.Distinct reader) calls :=
      fun n sm call hrun hcall =>
        ⟨hclean n sm call hrun hcall, hdistinct call (mem_of_getElem? hcall)⟩
    refine ⟨fun n sm hrun => ?_, hclean⟩
    have hinstep : sm.InStep :=
      (hrun.of_atEvents (hboth.take n)).invariant (RocksStateMachine.inStep_new hdb)
        fun _ _ _ h hstep => h.step hstep.2.2 hstep.2.1 hstep.1
    exact hinstep.toAgrees

/-! ### An installation without its snapshot file -/

/-- The queue with one pending task, read out of everything. -/
def oneTaskReader : SnapshotReader ℕ Unit := fun _ =>
  .ok ⟨⟨some 1, ⟨none, ()⟩⟩, ["t"], ∅, [("t", .pending "t" [] 0)]⟩

/-- The installation of that queue on a full disk. -/
def fullDiskInstall : QueueCall ℕ Unit :=
  .installSnapshot ⟨some 1, ⟨none, ()⟩⟩ []
    fun step => if step = .writeFile then some "no space left on device" else none

/-- **An installation is not all or nothing.** The snapshot file cannot be written: the database has
the installed queue and the memory has not, and the next batch writes the empty queue over it, with
the task still pending. -/
theorem torn_install_reverts_queue :
    (∃ err sm', fullDiskInstall.exec oneTaskReader (.new RocksStateMachine.initial.db) =
        (.error err, sm') ∧ sm'.db.pendingQueue = ["t"] ∧ sm'.pending = [] ∧
      (sm'.apply []).1.db.pendingQueue = [] ∧
      ((sm'.apply []).1.db.tasks["t"]?.map TaskRecord.status) = some .pending) ∧
    ¬CallsAgree oneTaskReader RocksStateMachine.initial.db [fullDiskInstall] := by
  obtain ⟨err, hexec⟩ : ∃ err, fullDiskInstall.exec oneTaskReader
      (.new RocksStateMachine.initial.db) = (.error err,
        (RocksStateMachine.new RocksStateMachine.initial.db).installed ⟨some 1, ⟨none, ()⟩⟩
          ⟨⟨some 1, ⟨none, ()⟩⟩, ["t"], ∅, [("t", .pending "t" [] 0)]⟩) :=
    exists_error_of_late_failure rfl ⟨rfl, rfl, fun _ => rfl, rfl, rfl, rfl⟩ (by decide)
  refine ⟨⟨err, _, hexec, rfl, rfl, rfl, by decide⟩, fun hagree => ?_⟩
  have hclean := congrArg (·.db.pendingQueue) (hagree.2 0 _ fullDiskInstall .nil rfl err _ hexec)
  exact absurd hclean nofun

end RustExample.OpenraftTask
