import RustExample.OpenraftTask.Queue

/-!
# Snapshots of the task queue

A snapshot of the queue has four parts. The builder is a copy of the state machine, so the pending
ids and the progress of the schedulers are from the moment at which it was made; the last applied
log id, the membership and the records are read later, from the database that the state machine
goes on to write to. A batch in between leaves the parts at different prefixes of the log.

Source: `openraft_task/src/rocksstore_crud/state_machine.rs`.

* The file in which a replica keeps a snapshot is left out: a snapshot is what is sent.
* The log is given with the batches in which it is applied.
* A replica does not install a snapshot that is behind it.
-/

namespace RustExample.OpenraftTask

open List

variable {L M : Type}

/-! ### Building and installing -/

/-- What a snapshot says of itself. -/
structure SnapshotMeta (L M : Type) where
  lastLogId : Option L
  lastMembership : StoredMembership L M

/-- A snapshot with its data. -/
structure Snapshot (L M : Type) where
  metadata : SnapshotMeta L M
  pending : List String
  schedulerStates : KeyStore String SchedulerState
  tasks : List (String × TaskRecord)

/-- The membership in the metadata, or the default one. -/
def Db.storedMembership [Inhabited M] (db : Db L M) : StoredMembership L M :=
  db.lastMembership.getD ⟨none, default⟩

/-- What a copy of a state machine has of its own; the database is shared. -/
structure QueueMemory where
  pending : List String
  schedulerStates : KeyStore String SchedulerState

namespace RocksStateMachine

/-- What is kept in memory. -/
def memory (sm : RocksStateMachine L M) : QueueMemory := ⟨sm.pending, sm.schedulerStates⟩

/-- The snapshot of a state machine. -/
def snapshot [Inhabited M] (sm : RocksStateMachine L M) : Snapshot L M where
  metadata := ⟨sm.db.lastAppliedLog, sm.db.storedMembership⟩
  pending := sm.pending
  schedulerStates := sm.schedulerStates
  tasks := sm.db.tasks.toList

/-- Replace the records, the queue, the progress and the metadata in one batch. A last applied log
id stays if the snapshot has none. -/
def installSnapshot (sm : RocksStateMachine L M) (snap : Snapshot L M) :
    RocksStateMachine L M where
  db :=
    { tasks := sm.db.tasks.writeAll
        ((sm.db.tasks.toList.map fun p => KeyStore.Write.mk p.1 none) ++
          snap.tasks.map fun p => KeyStore.Write.mk p.1 (some p.2))
      lastAppliedLog := snap.metadata.lastLogId.or sm.db.lastAppliedLog
      lastMembership := some snap.metadata.lastMembership
      pendingQueue := snap.pending
      schedulerStates := snap.schedulerStates }
  pending := snap.pending
  pendingIds := snap.pending.toFinset
  schedulerStates := snap.schedulerStates

/-- The state with its membership as it is read: one that was never written is the default. -/
def settled [Inhabited M] (sm : RocksStateMachine L M) : RocksStateMachine L M :=
  { sm with db := { sm.db with lastMembership := some sm.db.storedMembership } }

end RocksStateMachine

/-- The stages of a build: the copy, the log id, the metadata, and the records. -/
inductive SnapshotBuilder (L M : Type) where
  | idle
  | cloned (memory : QueueMemory)
  | readLog (memory : QueueMemory) (lastAppliedLog : Option L)
  | readMeta (memory : QueueMemory) (metadata : SnapshotMeta L M)
  | built (snap : Snapshot L M)

/-- A replica that applies its log while it builds a snapshot. -/
structure Replica (L M : Type) where
  sm : RocksStateMachine L M
  applied : ℕ
  builder : SnapshotBuilder L M

def Replica.initial : Replica L M := ⟨.initial, 0, .idle⟩

/-- What happens at a replica: the next batch is applied, or the builder takes a step. -/
inductive ReplicaEvent where
  | apply | getSnapshotBuilder | readLastApplied | readLastMembership | takeView
  deriving DecidableEq

/-- One step of a replica whose log comes in `batches`. -/
def ReplicaStep [Inhabited M] (batches : List (List (Entry L M))) (r : Replica L M)
    (e : ReplicaEvent) (r' : Replica L M) : Prop :=
  match e with
  | .apply => ∃ entries, batches[r.applied]? = some entries ∧
      r' = { r with sm := (r.sm.apply entries).1, applied := r.applied + 1 }
  | .getSnapshotBuilder => r.builder = .idle ∧ r' = { r with builder := .cloned r.sm.memory }
  | .readLastApplied => ∃ memory, r.builder = .cloned memory ∧
      r' = { r with builder := .readLog memory r.sm.db.lastAppliedLog }
  | .readLastMembership => ∃ memory lastLogId, r.builder = .readLog memory lastLogId ∧
      r' = { r with builder := .readMeta memory ⟨lastLogId, r.sm.db.storedMembership⟩ }
  | .takeView => ∃ memory metadata, r.builder = .readMeta memory metadata ∧
      r' = { r with
        builder := .built
          ⟨metadata, memory.pending, memory.schedulerStates, r.sm.db.tasks.toList⟩ }

/-- The number of batches applied in a history. -/
def appliedIn (es : List ReplicaEvent) : ℕ := es.count .apply

/-! ### Consistent cuts -/

/-- The state after the first batches of a log. -/
def stateAt (batches : List (List (Entry L M))) (k : ℕ) : RocksStateMachine L M :=
  (RocksStateMachine.initial.applyBatches (batches.take k)).1

/-- The id of the last entry. -/
def lastLogId (entries : List (Entry L M)) : Option L := entries.getLast?.map Entry.logId

/-- A replica that has applied something does not install the snapshot of an empty log. -/
def RocksStateMachine.MayInstall (sm : RocksStateMachine L M) (snap : Snapshot L M) : Prop :=
  snap.metadata.lastLogId = none → sm.db.lastAppliedLog = none

/-- A snapshot is the state after the first `k` batches, up to its last log id. A replica that
installs it goes on like one that applied every entry, with all pending tasks in its queue. -/
structure CutAt [Inhabited M] (batches : List (List (Entry L M))) (snap : Snapshot L M) (k : ℕ) :
    Prop where
  upTo : lastLogId (batches.take k).flatten = snap.metadata.lastLogId
  parts : snap = (stateAt batches k).snapshot
  converges : ∀ sm : RocksStateMachine L M, sm.MayInstall snap → ∀ rest,
    ((sm.installSnapshot snap).applyBatches rest).1.settled =
      ((stateAt batches k).applyBatches rest).1.settled
  queued : ∀ sm : RocksStateMachine L M, sm.MayInstall snap → ∀ rest id task,
    ((sm.installSnapshot snap).applyBatches rest).1.db.tasks[id]? = some task →
      task.status = .pending → id ∈ ((sm.installSnapshot snap).applyBatches rest).1.pending

/-- The batches applied between two steps of the builder left `f` as it was. -/
def Keeps {α : Type} (batches : List (List (Entry L M))) (es : List ReplicaEvent)
    (e e' : ReplicaEvent) (f : RocksStateMachine L M → α) : Prop :=
  ∀ i j, es[i]? = some e → es[j]? = some e' →
    f (stateAt batches (appliedIn (es.take i))) = f (stateAt batches (appliedIn (es.take j)))

/-- Batches before the log id was read left what was copied, those after it what was not yet. -/
structure Undisturbed [Inhabited M] (batches : List (List (Entry L M)))
    (es : List ReplicaEvent) : Prop where
  memory : Keeps batches es .getSnapshotBuilder .readLastApplied RocksStateMachine.memory
  membership : Keeps batches es .readLastMembership .readLastApplied
    fun sm => sm.db.storedMembership
  tasks : Keeps batches es .takeView .readLastApplied fun sm => sm.db.tasks.toList

/-! ### States along the log -/

namespace RocksStateMachine

variable {sm sm' : RocksStateMachine L M}

theorem lastAppliedLog_apply (sm : RocksStateMachine L M) (entries : List (Entry L M)) :
    (sm.apply entries).1.db.lastAppliedLog = (lastLogId entries).or sm.db.lastAppliedLog := by
  have hfold (b : Batch L M) : (entries.foldl (applyEntry sm.db.tasks) b).lastAppliedLog =
      (lastLogId entries).or b.lastAppliedLog := by
    induction entries using List.reverseRecOn with
    | nil => rfl
    | append_singleton entries entry ih =>
      obtain ⟨logId, payload⟩ := entry
      rw [foldl_append, lastLogId, getLast?_concat]
      cases payload <;> rfl
  rw [apply, finishBatch, hfold, startBatch, Option.or_none]

theorem lastAppliedLog_applyBatches (sm : RocksStateMachine L M)
    (batches : List (List (Entry L M))) :
    (sm.applyBatches batches).1.db.lastAppliedLog =
      (lastLogId batches.flatten).or sm.db.lastAppliedLog := by
  induction batches generalizing sm with
  | nil => rfl
  | cons entries batches ih =>
    rw [applyBatches_cons, ih, lastAppliedLog_apply, flatten_cons, ← Option.or_assoc,
      lastLogId, lastLogId, lastLogId, getLast?_append, Option.map_or]

theorem Persisted.apply_nil (h : sm.Persisted) : (sm.apply []).1 = sm := by
  have hdb : (sm.apply []).1.db = sm.db := by
    change { sm.db with pendingQueue := sm.pending, schedulerStates := sm.schedulerStates } = sm.db
    rw [← h.pendingQueue, ← h.schedulerStates]
  change { sm with db := (sm.apply []).1.db } = sm
  rw [hdb]

theorem Persisted.applyBatches_of_flatten (h : sm.Persisted) {batches : List (List (Entry L M))}
    (hnil : batches.flatten = []) : (sm.applyBatches batches).1 = sm := by
  induction batches with
  | nil => rfl
  | cons entries batches ih =>
    rw [flatten_cons, append_eq_nil_iff] at hnil
    rw [applyBatches_cons, hnil.1, h.apply_nil]
    exact ih hnil.2

theorem Queued.applyBatches (h : sm.Queued) (batches : List (List (Entry L M))) :
    (sm.applyBatches batches).1.Queued := by
  induction batches generalizing sm with
  | nil => exact h
  | cons entries batches ih => exact ih (h.apply entries)

end RocksStateMachine

section Log

variable {batches : List (List (Entry L M))} {k k' : ℕ}

theorem stateAt_succ {entries : List (Entry L M)} (h : batches[k]? = some entries) :
    stateAt batches (k + 1) = ((stateAt batches k).apply entries).1 := by
  rw [stateAt, take_add_one, h, RocksStateMachine.applyBatches_append]
  rfl

theorem persisted_stateAt (batches : List (List (Entry L M))) (k : ℕ) :
    (stateAt batches k).Persisted :=
  RocksStateMachine.Persisted.applyBatches ⟨rfl, rfl⟩ _

theorem queued_stateAt (batches : List (List (Entry L M))) (k : ℕ) :
    (stateAt batches k).Queued :=
  RocksStateMachine.queued_initial.applyBatches _

theorem lastAppliedLog_stateAt (batches : List (List (Entry L M))) (k : ℕ) :
    (stateAt batches k).db.lastAppliedLog = lastLogId (batches.take k).flatten := by
  rw [stateAt, RocksStateMachine.lastAppliedLog_applyBatches]
  exact Option.or_none

/-- In a log with distinct ids, a longer prefix ends with another id. -/
theorem eq_nil_of_lastLogId_append {entries rest : List (Entry L M)}
    (hnodup : ((entries ++ rest).map Entry.logId).Nodup)
    (h : lastLogId (entries ++ rest) = lastLogId entries) : rest = [] := by
  induction rest using List.reverseRecOn with
  | nil => rfl
  | append_singleton rest entry _ =>
    rw [lastLogId, ← append_assoc, getLast?_concat, Option.map_some, eq_comm, lastLogId,
      Option.map_eq_some_iff] at h
    obtain ⟨entry', hentry', hid⟩ := h
    rw [map_append, nodup_append'] at hnodup
    refine absurd hid fun hid => hnodup.2.2 (mem_map_of_mem (mem_of_getLast? hentry')) ?_
    rw [hid]
    exact mem_map_of_mem (mem_append_right _ (mem_singleton_self _))

theorem stateAt_eq_of_lastLogId (hlog : (batches.flatten.map Entry.logId).Nodup)
    (h : lastLogId (batches.take k).flatten = lastLogId (batches.take k').flatten) :
    stateAt batches k = stateAt batches k' := by
  wlog hle : k ≤ k' generalizing k k'
  · exact (this h.symm (Nat.le_of_not_le hle)).symm
  have htake : batches.take k' = batches.take k ++ (batches.take k').drop k := by
    conv_lhs => rw [← take_append_drop k (batches.take k')]
    rw [take_take, Nat.min_eq_left hle]
  have hsub : (batches.take k').flatten.Sublist batches.flatten :=
    (List.take_prefix k' batches).flatten.sublist
  rw [htake, flatten_append] at h hsub
  have hnil := eq_nil_of_lastLogId_append (hlog.sublist (hsub.map _)) h.symm
  rw [stateAt, stateAt, htake, RocksStateMachine.applyBatches_append]
  exact ((persisted_stateAt batches k).applyBatches_of_flatten hnil).symm

end Log

/-! ### Installed snapshots -/

section Install

variable [Inhabited M]

namespace RocksStateMachine

variable {sm sm' : RocksStateMachine L M}

/-- The membership is only ever read as the default one if there is none. -/
theorem settled_apply (h : sm.settled = sm'.settled) (entries : List (Entry L M)) :
    (sm.apply entries).1.settled = (sm'.apply entries).1.settled := by
  have hsettled (sm : RocksStateMachine L M) :
      (sm.settled.apply entries).1.settled = (sm.apply entries).1.settled := by
    have hmem (mem : Option (StoredMembership L M)) (default : StoredMembership L M) :
        (mem.or (some (sm.db.lastMembership.getD default))).getD default =
          (mem.or sm.db.lastMembership).getD default := by
      cases mem <;> rfl
    simp only [apply, finishBatch, settled, Db.storedMembership, hmem]
    rfl
  rw [← hsettled sm, h, hsettled]

theorem settled_applyBatches (h : sm.settled = sm'.settled) (batches : List (List (Entry L M))) :
    (sm.applyBatches batches).1.settled = (sm'.applyBatches batches).1.settled := by
  induction batches generalizing sm sm' with
  | nil => exact h
  | cons entries batches ih => exact ih (settled_apply h entries)

/-- A replica that installs the snapshot of a state is in that state. -/
theorem settled_installSnapshot (hpersisted : sm.Persisted) (hqueued : sm.Queued)
    (hinstall : sm'.MayInstall sm.snapshot) :
    (sm'.installSnapshot sm.snapshot).settled = sm.settled := by
  have htasks : (sm'.installSnapshot sm.snapshot).db.tasks = sm.db.tasks := by
    rw [installSnapshot, KeyStore.writeAll_append, KeyStore.writeAll_clear]
    exact KeyStore.writeAll_toList sm.db.tasks
  have hlog : (sm'.installSnapshot sm.snapshot).db.lastAppliedLog = sm.db.lastAppliedLog := by
    rw [installSnapshot, snapshot]
    cases hlast : sm.db.lastAppliedLog with
    | none => rw [hinstall hlast, Option.or_none]
    | some id => rfl
  have hids : sm.pending.toFinset = sm.pendingIds := by
    ext id
    rw [mem_toFinset]
    exact (hqueued.ids id).symm
  have hdb : (sm'.installSnapshot sm.snapshot).db =
      { sm.db with lastMembership := some sm.db.storedMembership } := by
    change { (sm'.installSnapshot sm.snapshot).db with
      lastMembership := some sm.db.storedMembership
      pendingQueue := sm.pending
      schedulerStates := sm.schedulerStates } = _
    dsimp only
    rw [htasks, hlog, ← hpersisted.pendingQueue, ← hpersisted.schedulerStates]
  have hinstalled : sm'.installSnapshot sm.snapshot = sm.settled := by
    change { sm with
      db := (sm'.installSnapshot sm.snapshot).db, pendingIds := sm.pending.toFinset } = sm.settled
    rw [hdb, hids]
    rfl
  rw [hinstalled]
  rfl

end RocksStateMachine

variable {batches : List (List (Entry L M))} {snap : Snapshot L M} {k : ℕ}

/-- The state after a prefix of the log makes a consistent cut. -/
theorem CutAt.of_parts (hlast : lastLogId (batches.take k).flatten = snap.metadata.lastLogId)
    (hparts : snap = (stateAt batches k).snapshot) : CutAt batches snap k := by
  have hsettled (sm : RocksStateMachine L M) (hinstall : sm.MayInstall snap)
      (rest : List (List (Entry L M))) : ((sm.installSnapshot snap).applyBatches rest).1.settled =
        ((stateAt batches k).applyBatches rest).1.settled := by
    subst hparts
    exact RocksStateMachine.settled_applyBatches (RocksStateMachine.settled_installSnapshot
      (persisted_stateAt batches k) (queued_stateAt batches k) hinstall) rest
  refine ⟨hlast, hparts, hsettled, fun sm hinstall rest id task htask hpending => ?_⟩
  have hsame := hsettled sm hinstall rest
  have htasks : ((sm.installSnapshot snap).applyBatches rest).1.db.tasks =
      ((stateAt batches k).applyBatches rest).1.db.tasks := congrArg (fun sm => sm.db.tasks) hsame
  have hpend : ((sm.installSnapshot snap).applyBatches rest).1.pending =
      ((stateAt batches k).applyBatches rest).1.pending :=
    congrArg (fun sm => sm.pending) hsame
  have hqueued := (queued_stateAt batches k).applyBatches rest
  rw [htasks, ← RocksStateMachine.loadTask_startBatch] at htask
  rw [hpend]
  exact hqueued.queued id task htask hpending

end Install

/-! ### The builder beside the state machine -/

section Builder

variable {batches : List (List (Entry L M))} {es : List ReplicaEvent} {e e' : ReplicaEvent}

/-- The step `e` of the builder read the part `f` as `a`. -/
def Reads {α : Type} (batches : List (List (Entry L M))) (es : List ReplicaEvent)
    (e : ReplicaEvent) (f : RocksStateMachine L M → α) (a : α) : Prop :=
  ∃ i, OccursAt es e i ∧ f (stateAt batches (appliedIn (es.take i))) = a

theorem Reads.snoc {α : Type} {f : RocksStateMachine L M → α} {a : α} (h : Reads batches es e f a)
    (hne : e' ≠ e) : Reads batches (es ++ [e']) e f a := by
  obtain ⟨i, hi, ha⟩ := h
  exact ⟨i, hi.snoc hne, by rw [take_append_of_le_length hi.lt_length.le, ha]⟩

theorem Reads.last {α : Type} (f : RocksStateMachine L M → α) (he : e ∉ es) :
    Reads batches (es ++ [e]) e f (f (stateAt batches (appliedIn es))) :=
  ⟨es.length, .last he, by rw [take_left]⟩

theorem Reads.map {α : Type} {sm : RocksStateMachine L M} (h : Reads batches es e id sm)
    (f : RocksStateMachine L M → α) : Reads batches es e f (f sm) := by
  obtain ⟨i, hi, hsm⟩ := h
  exact ⟨i, hi, congrArg f hsm⟩

/-- What was read at two steps is the same exactly if the batches in between kept it. -/
theorem Reads.keeps_iff {α : Type} {f : RocksStateMachine L M → α} {a a' : α}
    (h : Reads batches es e f a) (h' : Reads batches es e' f a') :
    Keeps batches es e e' f ↔ a = a' := by
  obtain ⟨i, hi, rfl⟩ := h
  obtain ⟨j, hj, rfl⟩ := h'
  constructor
  · exact fun hkeeps => hkeeps i j ((hi i).mpr rfl) ((hj j).mpr rfl)
  · intro hsame i' j' hi' hj'
    rwa [(hi i').mp hi', (hj j').mp hj']

variable [Inhabited M]

/-- What the history says about the stage of the builder. -/
def SnapshotBuilder.Matches (batches : List (List (Entry L M))) (es : List ReplicaEvent) :
    SnapshotBuilder L M → Prop
  | .idle =>
    .getSnapshotBuilder ∉ es ∧ .readLastApplied ∉ es ∧ .readLastMembership ∉ es ∧ .takeView ∉ es
  | .cloned memory =>
    .readLastApplied ∉ es ∧ .readLastMembership ∉ es ∧ .takeView ∉ es ∧
      Reads batches es .getSnapshotBuilder RocksStateMachine.memory memory
  | .readLog memory lastLogId =>
    .readLastMembership ∉ es ∧ .takeView ∉ es ∧
      Reads batches es .getSnapshotBuilder RocksStateMachine.memory memory ∧
      ∃ sm, Reads batches es .readLastApplied id sm ∧ sm.db.lastAppliedLog = lastLogId
  | .readMeta memory metadata =>
    .takeView ∉ es ∧
      Reads batches es .getSnapshotBuilder RocksStateMachine.memory memory ∧
      (∃ sm, Reads batches es .readLastApplied id sm ∧
        sm.db.lastAppliedLog = metadata.lastLogId) ∧
      Reads batches es .readLastMembership (fun sm => sm.db.storedMembership)
        metadata.lastMembership
  | .built snap =>
    Reads batches es .getSnapshotBuilder RocksStateMachine.memory
        ⟨snap.pending, snap.schedulerStates⟩ ∧
      (∃ sm, Reads batches es .readLastApplied id sm ∧
        sm.db.lastAppliedLog = snap.metadata.lastLogId) ∧
      Reads batches es .readLastMembership (fun sm => sm.db.storedMembership)
        snap.metadata.lastMembership ∧
      Reads batches es .takeView (fun sm => sm.db.tasks.toList) snap.tasks

/-- The state of a replica in terms of its history. -/
structure ReplicaInvariant (batches : List (List (Entry L M))) (es : List ReplicaEvent)
    (r : Replica L M) : Prop where
  applied : r.applied = appliedIn es
  state : r.sm = stateAt batches (appliedIn es)
  builder : r.builder.Matches batches es

theorem SnapshotBuilder.Matches.apply {builder : SnapshotBuilder L M}
    (h : builder.Matches batches es) : builder.Matches batches (es ++ [.apply]) := by
  cases builder with
  | idle => simpa [Matches] using h
  | cloned memory =>
    obtain ⟨hlog, hmem, hview, hclone⟩ := h
    exact ⟨by simpa using hlog, by simpa using hmem, by simpa using hview, hclone.snoc nofun⟩
  | readLog memory lastLogId =>
    obtain ⟨hmem, hview, hclone, sm, hsm, hlast⟩ := h
    exact ⟨by simpa using hmem, by simpa using hview, hclone.snoc nofun, sm, hsm.snoc nofun, hlast⟩
  | readMeta memory metadata =>
    obtain ⟨hview, hclone, ⟨sm, hsm, hlast⟩, hmem⟩ := h
    exact ⟨by simpa using hview, hclone.snoc nofun, ⟨sm, hsm.snoc nofun, hlast⟩, hmem.snoc nofun⟩
  | built snap =>
    obtain ⟨hclone, ⟨sm, hsm, hlast⟩, hmem, htasks⟩ := h
    exact ⟨hclone.snoc nofun, ⟨sm, hsm.snoc nofun, hlast⟩, hmem.snoc nofun, htasks.snoc nofun⟩

/-- **One step.** Batches and the steps of the builder preserve the invariant. -/
theorem ReplicaInvariant.step {r r' : Replica L M} (h : ReplicaInvariant batches es r)
    (hstep : ReplicaStep batches r e r') : ReplicaInvariant batches (es ++ [e]) r' := by
  obtain ⟨happlied, hstate, hbuilder⟩ := h
  have hquiet (hne : e ≠ .apply) : appliedIn (es ++ [e]) = appliedIn es := by
    simp [appliedIn, count_append, hne]
  cases e with
  | apply =>
    obtain ⟨entries, hentries, rfl⟩ := hstep
    have hsucc : appliedIn (es ++ [.apply]) = appliedIn es + 1 := by simp [appliedIn]
    refine ⟨by rw [hsucc, happlied], ?_, hbuilder.apply⟩
    rw [hsucc, stateAt_succ (happlied ▸ hentries), hstate]
  | getSnapshotBuilder =>
    obtain ⟨hidle, rfl⟩ := hstep
    rw [hidle] at hbuilder
    obtain ⟨hclone, hlog, hmem, hview⟩ := hbuilder
    refine ⟨happlied.trans (hquiet nofun).symm, by rw [hquiet nofun, ← hstate], ?_⟩
    exact ⟨by simpa using hlog, by simpa using hmem, by simpa using hview, hstate ▸ .last _ hclone⟩
  | readLastApplied =>
    obtain ⟨memory, hcloned, rfl⟩ := hstep
    rw [hcloned] at hbuilder
    obtain ⟨hlog, hmem, hview, hclone⟩ := hbuilder
    refine ⟨happlied.trans (hquiet nofun).symm, by rw [hquiet nofun, ← hstate], ?_⟩
    exact ⟨by simpa using hmem, by simpa using hview, hclone.snoc nofun,
      _, hstate ▸ .last id hlog, rfl⟩
  | readLastMembership =>
    obtain ⟨memory, lastLogId, hread, rfl⟩ := hstep
    rw [hread] at hbuilder
    obtain ⟨hmem, hview, hclone, sm, hsm, hlast⟩ := hbuilder
    refine ⟨happlied.trans (hquiet nofun).symm, by rw [hquiet nofun, ← hstate], ?_⟩
    exact ⟨by simpa using hview, hclone.snoc nofun, ⟨sm, hsm.snoc nofun, hlast⟩,
      hstate ▸ .last (fun sm => sm.db.storedMembership) hmem⟩
  | takeView =>
    obtain ⟨memory, metadata, hread, rfl⟩ := hstep
    rw [hread] at hbuilder
    obtain ⟨hview, hclone, ⟨sm, hsm, hlast⟩, hmem⟩ := hbuilder
    refine ⟨happlied.trans (hquiet nofun).symm, by rw [hquiet nofun, ← hstate], ?_⟩
    exact ⟨hclone.snoc nofun, ⟨sm, hsm.snoc nofun, hlast⟩, hmem.snoc nofun,
      hstate ▸ .last (fun sm => sm.db.tasks.toList) hview⟩

theorem replicaInvariant_of_run {r : Replica L M}
    (run : Run (ReplicaStep batches) Replica.initial es r) : ReplicaInvariant batches es r :=
  run.history ⟨rfl, rfl, nofun, nofun, nofun, nofun⟩ fun _ _ _ _ _ h hstep => h.step hstep


/-- **Snapshots are consistent cuts exactly when the builder was not disturbed.** The parts are the
state after the log up to the last log id, a replica that installs them goes on like one that
applied every entry, and no pending task is left out, if and only if the batches between the reads
left the parts as they were. -/
theorem snapshot_cut_iff_undisturbed (hlog : (batches.flatten.map Entry.logId).Nodup)
    {r : Replica L M} (run : Run (ReplicaStep batches) Replica.initial es r) {snap : Snapshot L M}
    (hsnap : r.builder = .built snap) :
    (∃ k, CutAt batches snap k) ↔ Undisturbed batches es := by
  have hbuilder := (replicaInvariant_of_run run).builder
  rw [hsnap] at hbuilder
  obtain ⟨hclone, ⟨sm, hread, hlast⟩, hmem, htasks⟩ := hbuilder
  have hkmem := hclone.keeps_iff (hread.map RocksStateMachine.memory)
  have hkmembership := hmem.keeps_iff (hread.map fun sm => sm.db.storedMembership)
  have hktasks := htasks.keeps_iff (hread.map fun sm => sm.db.tasks.toList)
  obtain ⟨j, -, rfl⟩ := hread
  replace hlast : lastLogId (batches.take (appliedIn (es.take j))).flatten =
      snap.metadata.lastLogId := (lastAppliedLog_stateAt _ _).symm.trans hlast
  constructor
  · rintro ⟨k, hcut⟩
    have hstate := stateAt_eq_of_lastLogId hlog (hcut.upTo.trans hlast.symm)
    obtain rfl := hstate ▸ hcut.parts
    exact ⟨hkmem.mpr rfl, hkmembership.mpr rfl, hktasks.mpr rfl⟩
  · rintro ⟨hmemory, hmembership, hview⟩
    refine ⟨appliedIn (es.take j), .of_parts hlast ?_⟩
    obtain ⟨⟨lastLogId, membership⟩, pending, states, tasks⟩ := snap
    obtain ⟨rfl, rfl⟩ := QueueMemory.mk.inj (hkmem.mp hmemory)
    obtain rfl := hkmembership.mp hmembership
    obtain rfl := hktasks.mp hview
    obtain rfl := (lastAppliedLog_stateAt _ _).trans hlast
    rfl

end Builder

/-! ### Two builds -/

/-- A log with one task and a blank entry. -/
def taskLog : List (List (Entry ℕ Unit)) :=
  [[⟨1, .normal (.submit (.pending "t" [] 0))⟩], [⟨2, .blank⟩]]

/-- A build during which only the blank entry is applied. -/
def quietBuild : List ReplicaEvent :=
  [.apply, .getSnapshotBuilder, .readLastApplied, .apply, .readLastMembership, .takeView]

theorem eq_idxOf_of_quietBuild {e : ReplicaEvent} (he : e ≠ .apply) {i : ℕ}
    (hi : quietBuild[i]? = some e) : i = quietBuild.idxOf e := by
  have hpos : ∀ i < 6, ∀ e ∈ quietBuild, e ≠ .apply → quietBuild[i]? = some e →
      i = quietBuild.idxOf e := by decide
  exact hpos i (List.getElem?_eq_some_iff.mp hi).1 e (mem_of_getElem? hi) he hi

/-- A snapshot that is a consistent cut. -/
theorem snapshot_cut_iff_undisturbed_quiet : ∃ r snap,
    Run (ReplicaStep taskLog) Replica.initial quietBuild r ∧ r.builder = .built snap ∧
      ∃ k, CutAt taskLog snap k := by
  have run : ∃ r snap, Run (ReplicaStep taskLog) Replica.initial quietBuild r ∧
      r.builder = .built snap :=
    ⟨_, _, (((((Run.nil.snoc ⟨_, rfl, rfl⟩).snoc ⟨rfl, rfl⟩).snoc ⟨_, rfl, rfl⟩).snoc
      ⟨_, rfl, rfl⟩).snoc ⟨_, _, rfl, rfl⟩).snoc ⟨_, _, rfl, rfl⟩, rfl⟩
  obtain ⟨r, snap, run, hsnap⟩ := run
  have hkeeps {α : Type} {e e' : ReplicaEvent} {f : RocksStateMachine ℕ Unit → α}
      (he : e ≠ .apply) (he' : e' ≠ .apply)
      (hsame : f (stateAt taskLog (appliedIn (quietBuild.take (quietBuild.idxOf e)))) =
        f (stateAt taskLog (appliedIn (quietBuild.take (quietBuild.idxOf e'))))) :
      Keeps taskLog quietBuild e e' f := by
    intro i j hi hj
    rw [eq_idxOf_of_quietBuild he hi, eq_idxOf_of_quietBuild he' hj, hsame]
  exact ⟨r, snap, run, hsnap, (snapshot_cut_iff_undisturbed (by decide) run hsnap).mpr
    ⟨hkeeps nofun nofun rfl, hkeeps nofun nofun rfl, hkeeps nofun nofun rfl⟩⟩

/-- A build whose copy is made before the task is submitted. -/
def lostBuild : List ReplicaEvent :=
  [.getSnapshotBuilder, .apply, .readLastApplied, .readLastMembership, .takeView]

/-- **A queued task is lost.** It is submitted between the copy of the queue and the read of the log
id: a replica that installs the snapshot has it pending, but not in its queue. -/
theorem snapshot_loses_queued_task : ∃ r snap,
    Run (ReplicaStep taskLog) Replica.initial lostBuild r ∧ r.builder = .built snap ∧
      snap.metadata.lastLogId = some 1 ∧
      (RocksStateMachine.initial.installSnapshot snap).db.tasks["t"]? =
        some (.pending "t" [] 0) ∧
      (RocksStateMachine.initial.installSnapshot snap).pending = [] ∧
      ¬∃ k, CutAt taskLog snap k := by
  refine ⟨_, _, ((((Run.nil.snoc ⟨rfl, rfl⟩).snoc ⟨_, rfl, rfl⟩).snoc ⟨_, rfl, rfl⟩).snoc
      ⟨_, _, rfl, rfl⟩).snoc ⟨_, _, rfl, rfl⟩, rfl, rfl, by decide, rfl, ?_⟩
  rintro ⟨k, hcut⟩
  have htask := hcut.queued .initial (fun _ => rfl) [] "t" (.pending "t" [] 0) (by decide) rfl
  exact absurd htask not_mem_nil


end RustExample.OpenraftTask
