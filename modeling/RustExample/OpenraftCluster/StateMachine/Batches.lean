import RustExample.OpenraftCluster.Tasks.JsonForms
import RustExample.OpenraftCluster.Tasks.Refinement

/-!
# The raft state machine and its batches

The state machine of a replica keeps its data and its raft metadata in two column families of one
database, and a copy of the data in memory. A batch of committed entries is applied in one write
of the database: while the batch is collected, task commands read through an overlay of its
pending writes.

Replicas cut the stream of committed entries into batches differently. What a batch does to a
state machine is what its entries do one after the other, each against the data that the entries
before it left: the overlay of a batch shows the data after its pending writes, and the write
batch, the overlay and the changes of the memory record the same writes.

Source: `src/rocksstore_crud/state_machine.rs`.

* The metadata is kept as values, not as their text.
* The membership of a group is a type parameter, and so is what identifies a waiting client.
* A batch that fails leaves the state machine as it was, and answers nobody.
-/

namespace RustExample.OpenraftCluster

open List

section Application

/-! ### The log -/

/-- The identity of a log entry: the leader that proposed it, and its index. -/
structure LogId where
  term : UInt64
  nodeId : String
  index : UInt64
  deriving DecidableEq, Repr

/-- What a log entry carries. -/
inductive EntryPayload (M : Type) where
  | blank
  | normal (req : Request)
  | membership (mem : M)

/-- An entry of the log. -/
structure Entry (M : Type) where
  logId : LogId
  payload : EntryPayload M

/-- A membership with the entry that brought it. -/
structure StoredMembership (M : Type) where
  logId : Option LogId
  membership : M
  deriving DecidableEq

/-! ### The database -/

variable {M R : Type}

/-- The column families `sm_data` and `sm_meta`. -/
structure Db (M : Type) where
  smData : KeySpace
  lastAppliedLog : Option LogId
  lastMembership : Option (StoredMembership M)

/-- The writes of both column families that reach the database at once. -/
structure WriteBatch (M : Type) where
  smData : List KvMutation := []
  lastAppliedLog : Option LogId := none
  lastMembership : Option (StoredMembership M) := none

/-- Writes a batch. -/
def Db.writeBatchSync (db : Db M) (batch : WriteBatch M) : Db M where
  smData := db.smData.writeAll batch.smData
  lastAppliedLog := batch.lastAppliedLog.or db.lastAppliedLog
  lastMembership := batch.lastMembership.or db.lastMembership

/-- A change of the data in memory. -/
inductive DataChange where
  | set (key value : String)
  | delete (key : String)

/-- Takes changes into the map. -/
def applyMemoryChanges (map : KeySpace) (changes : List DataChange) : KeySpace :=
  changes.foldl (fun map change =>
    match change with
    | .set key value => map.insert key value
    | .delete key => map.erase key) map

/-- The state machine of a replica: its database and the data in memory. -/
structure RocksStateMachine (M : Type) where
  db : Db M
  data : KeySpace

/-! ### A batch -/

/-- What the loop over the entries of a batch has collected. -/
structure Batch (M R : Type) where
  dataChanges : List DataChange := []
  lastAppliedLog : Option LogId := none
  lastMembership : Option (StoredMembership M) := none
  responses : List (R × Response) := []
  smData : List KvMutation := []
  overlay : KeyStore.Overlay String String := ∅
  scheduleEvent : Bool := false

namespace Batch

/-- Collect the write of a key in the write batch, in the overlay and for the memory. -/
def put (b : Batch M R) (key value : String) : Batch M R :=
  { b with
    smData := b.smData ++ [.put key value], overlay := b.overlay.insert key (some value)
    dataChanges := b.dataChanges ++ [.set key value] }

/-- Collect the deletion of a key. -/
def delete (b : Batch M R) (key : String) : Batch M R :=
  { b with
    smData := b.smData ++ [.del key], overlay := b.overlay.insert key none
    dataChanges := b.dataChanges ++ [.delete key] }

/-- Collect a mutation of a task command. -/
def mutate (b : Batch M R) (mutation : KvMutation) : Batch M R :=
  match mutation.value with
  | some value => b.put mutation.key value
  | none => b.delete mutation.key

/-- Read a key as a task command of the batch does. -/
def read (b : Batch M R) (db : Db M) : StateRead := fun key =>
  match b.overlay[key]? with
  | some pending => .ok pending
  | none => .ok db.smData[key]?

/-- The response of an entry is kept for the client that waits for it. -/
def respond (b : Batch M R) (responder : Option R) (response : Response) : Batch M R :=
  match responder with
  | some responder => { b with responses := b.responses ++ [(responder, response)] }
  | none => b

end Batch

variable (texts : TextForms)

/-- One round of the loop over the entries of a batch. -/
def applyEntry (db : Db M) (b : Batch M R) (e : Entry M × Option R) : Except String (Batch M R) :=
  let (entry, responder) := e
  let b := { b with lastAppliedLog := some entry.logId }
  match entry.payload with
  | .blank => return b.respond responder .none
  | .normal (.set key value) =>
    let response := if responder.isSome then .new value else .none
    return (b.put key value).respond responder response
  | .normal (.delete key) => return (b.delete key).respond responder .none
  | .normal (.task cmd) => do
    let b := { b with scheduleEvent := b.scheduleEvent || isScheduleEvent cmd }
    let (mutations, response) ← applyTaskCommand texts (b.read db) cmd
    return (mutations.foldl Batch.mutate b).respond responder response
  | .membership mem =>
    let b := { b with lastMembership := some ⟨some entry.logId, mem⟩ }
    return b.respond responder .none

/-- The state machine after a batch, its responses, and whether it woke the scheduler. -/
structure Applied (M R : Type) where
  sm : RocksStateMachine M
  responses : List (R × Response)
  notifySchedule : Bool

/-- Apply a batch of committed entries. -/
def RocksStateMachine.apply (sm : RocksStateMachine M) (entries : List (Entry M × Option R)) :
    Except String (Applied M R) := do
  let b ← entries.foldlM (applyEntry texts sm.db) {}
  let db := sm.db.writeBatchSync ⟨b.smData, b.lastAppliedLog, b.lastMembership⟩
  let data := if b.dataChanges.isEmpty then sm.data else applyMemoryChanges sm.data b.dataChanges
  return ⟨⟨db, data⟩, b.responses, b.scheduleEvent⟩

/-- Apply batches one after the other: the state machine at the end, and all responses in the
order in which they were sent. -/
def RocksStateMachine.applyBatches (sm : RocksStateMachine M) :
    List (List (Entry M × Option R)) → Except String (RocksStateMachine M × List (R × Response))
  | [] => return (sm, [])
  | entries :: batches => do
    let applied ← sm.apply texts entries
    let (sm, responses) ← applied.sm.applyBatches batches
    return (sm, applied.responses ++ responses)

end Application

section Batches

variable {M R : Type}

/-! ### One entry at a time -/

/-- The membership that an entry brings. -/
def Entry.storedMembership (entry : Entry M) : Option (StoredMembership M) :=
  match entry.payload with
  | .membership mem => some ⟨some entry.logId, mem⟩
  | .blank | .normal _ => none

/-- What an entry writes and answers; `wanted` tells whether a client waits. -/
def EntryPayload.effect (texts : TextForms) (read : StateRead) (wanted : Bool) :
    EntryPayload M → Except String (List KvMutation × Response)
  | .blank => .ok ([], .none)
  | .normal (.set key value) => .ok ([.put key value], if wanted then .new value else .none)
  | .normal (.delete key) => .ok ([.del key], .none)
  | .normal (.task cmd) => applyTaskCommand texts read cmd
  | .membership _ => .ok ([], .none)

/-- The database after an entry, and the response if a client waits for it. -/
def Db.commit (texts : TextForms) (db : Db M) (e : Entry M × Option R) :
    Except String (Db M × List (R × Response)) := do
  let p ← e.1.payload.effect texts db.smData.reader e.2.isSome
  return (⟨db.smData.writeAll p.1, some e.1.logId, e.1.storedMembership.or db.lastMembership⟩,
    (e.2.map fun r => (r, p.2)).toList)

/-- Apply entries one after the other. -/
def Db.commitAll (texts : TextForms) (db : Db M) :
    List (Entry M × Option R) → Except String (Db M × List (R × Response))
  | [] => return (db, [])
  | e :: es => do
    let p ← db.commit texts e
    let q ← p.1.commitAll texts es
    return (q.1, p.2 ++ q.2)

variable {texts : TextForms}

theorem Db.commitAll_cons {db db' : Db M} {e : Entry M × Option R} {responses : List (R × Response)}
    (h : db.commit texts e = .ok (db', responses)) (es : List (Entry M × Option R)) :
    db.commitAll texts (e :: es) =
      (db'.commitAll texts es).map fun p => (p.1, responses ++ p.2) := by
  rw [commitAll, h, ok_bind]
  cases db'.commitAll texts es <;> rfl

theorem Db.commitAll_append (db : Db M) (es es' : List (Entry M × Option R)) :
    db.commitAll texts (es ++ es') = (do
      let p ← db.commitAll texts es
      let q ← p.1.commitAll texts es'
      return (q.1, p.2 ++ q.2)) := by
  induction es generalizing db with
  | nil =>
    simp only [nil_append, commitAll, pure_bind]
    cases db.commitAll texts es' <;> rfl
  | cons e es ih =>
    simp only [cons_append, commitAll, ih, bind_assoc, pure_bind, append_assoc]

/-! ### The batch in progress -/

/-- The write of a change. -/
def DataChange.mutation : DataChange → KvMutation
  | set key value => .put key value
  | delete key => .del key

theorem applyMemoryChanges_eq (map : KeySpace) (changes : List DataChange) :
    applyMemoryChanges map changes = map.writeAll (changes.map DataChange.mutation) := by
  induction changes generalizing map with
  | nil => rfl
  | cons change changes ih => cases change <;> exact ih _

/-- The write batch of a batch in progress. -/
def Batch.writeBatch (b : Batch M R) : WriteBatch M :=
  ⟨b.smData, b.lastAppliedLog, b.lastMembership⟩

/-- A batch on the database `db` stands for the entries seen: written now it leads to `db'`, and a
task command reads `db'` through it. -/
structure Batch.Pending (b : Batch M R) (db db' : Db M) (responses : List (R × Response)) :
    Prop where
  shadows : b.overlay.Shadows b.smData
  changes : b.dataChanges.map DataChange.mutation = b.smData
  written : db.writeBatchSync b.writeBatch = db'
  responses : b.responses = responses

namespace Batch

theorem pending_empty (db : Db M) : ({} : Batch M R).Pending db db [] :=
  ⟨KeyStore.Overlay.shadows_empty, rfl, rfl, rfl⟩

variable {b : Batch M R} {db db' : Db M} {responses : List (R × Response)}

/-- A task command of the batch reads the data after the pending writes. -/
theorem Pending.read_eq (h : b.Pending db db' responses) : b.read db = db'.smData.reader := by
  funext key
  have hread := h.shadows db.smData key
  have hdata : db.smData.writeAll b.smData = db'.smData := congrArg Db.smData h.written
  rw [hdata, KeyStore.Overlay.read] at hread
  rw [KeySpace.reader, ← hread, read]
  cases b.overlay[key]? <;> rfl

theorem Pending.mutate (h : b.Pending db db' responses) (w : KvMutation) :
    (b.mutate w).Pending db { db' with smData := db'.smData.write w } responses := by
  obtain ⟨hshadows, hchanges, rfl, hresponses⟩ := h
  obtain ⟨key, _ | value⟩ := w
  · refine ⟨hshadows.record ⟨key, none⟩, ?_, ?_, hresponses⟩
    · simp [Batch.mutate, delete, hchanges, DataChange.mutation]
    · simp [Batch.mutate, delete, writeBatch, Db.writeBatchSync, KeyStore.writeAll_append,
        KvMutation.del]
  · refine ⟨hshadows.record ⟨key, some value⟩, ?_, ?_, hresponses⟩
    · simp [Batch.mutate, put, hchanges, DataChange.mutation]
    · simp [Batch.mutate, put, writeBatch, Db.writeBatchSync, KeyStore.writeAll_append,
        KvMutation.put]

theorem Pending.mutateAll (h : b.Pending db db' responses) (ws : List KvMutation) :
    (ws.foldl Batch.mutate b).Pending db { db' with smData := db'.smData.writeAll ws }
      responses := by
  induction ws generalizing b db' with
  | nil => exact h
  | cons w ws ih => exact ih (h.mutate w)

theorem Pending.note (h : b.Pending db db' responses) (entry : Entry M) (event : Bool) :
    Pending { b with
      lastAppliedLog := some entry.logId
      lastMembership := entry.storedMembership.or b.lastMembership, scheduleEvent := event } db
      ⟨db'.smData, some entry.logId, entry.storedMembership.or db'.lastMembership⟩
      responses := by
  obtain ⟨hshadows, hchanges, rfl, hresponses⟩ := h
  refine ⟨hshadows, hchanges, ?_, hresponses⟩
  simp [writeBatch, Db.writeBatchSync, Option.or_assoc]

theorem Pending.respond (h : b.Pending db db' responses) (responder : Option R)
    (response : Response) : (b.respond responder response).Pending db db'
      (responses ++ (responder.map fun r => (r, response)).toList) := by
  obtain ⟨hshadows, hchanges, hwritten, rfl⟩ := h
  cases responder with
  | none => exact ⟨hshadows, hchanges, hwritten, by simp [Batch.respond]⟩
  | some r => exact ⟨hshadows, hchanges, hwritten, rfl⟩

variable (texts : TextForms)

/-- **One entry of a batch.** It fails as it does on the current database, or leads to a batch
that stands for one more entry. -/
theorem Pending.applyEntry (h : b.Pending db db' responses) (e : Entry M × Option R) :
    (∃ err, db'.commit texts e = .error err ∧ applyEntry texts db b e = .error err) ∨
      ∃ db'' responses' b', db'.commit texts e = .ok (db'', responses') ∧
        applyEntry texts db b e = .ok b' ∧ b'.Pending db db'' (responses ++ responses') := by
  obtain ⟨⟨logId, payload⟩, responder⟩ := e
  cases payload with
  | blank =>
    exact .inr ⟨_, _, _, rfl, rfl, (h.note ⟨logId, .blank⟩ b.scheduleEvent).respond _ _⟩
  | membership mem =>
    exact .inr ⟨_, _, _, rfl, rfl, (h.note ⟨logId, .membership mem⟩ b.scheduleEvent).respond _ _⟩
  | normal req =>
    have hnote (event : Bool) := h.note ⟨logId, .normal req⟩ event
    cases req with
    | set key value =>
      exact .inr ⟨_, _, _, rfl, rfl,
        ((hnote b.scheduleEvent).mutate (.put key value)).respond _ _⟩
    | delete key =>
      exact .inr ⟨_, _, _, rfl, rfl, ((hnote b.scheduleEvent).mutate (.del key)).respond _ _⟩
    | task cmd =>
      have hnote := hnote (b.scheduleEvent || isScheduleEvent cmd)
      have happly : OpenraftCluster.applyEntry texts db b
          (⟨logId, .normal (.task cmd)⟩, responder) =
          applyTaskCommand texts db'.smData.reader cmd >>= fun p =>
            pure (Batch.respond (p.1.foldl Batch.mutate { b with
              lastAppliedLog := some logId
              scheduleEvent := b.scheduleEvent || isScheduleEvent cmd })
              responder p.2) := by
        rw [← hnote.read_eq]
        rfl
      rw [happly, Db.commit, EntryPayload.effect]
      cases applyTaskCommand texts db'.smData.reader cmd with
      | error err => exact .inl ⟨err, rfl, rfl⟩
      | ok p => exact .inr ⟨_, _, _, rfl, rfl, (hnote.mutateAll p.1).respond responder p.2⟩

/-- The entries of a batch fail as one after the other, or lead to a batch that stands for all. -/
theorem Pending.foldlM (h : b.Pending db db' responses) (es : List (Entry M × Option R)) :
    (∃ err, db'.commitAll texts es = .error err ∧
        es.foldlM (OpenraftCluster.applyEntry texts db) b = .error err) ∨
      ∃ db'' responses' b', db'.commitAll texts es = .ok (db'', responses') ∧
        es.foldlM (OpenraftCluster.applyEntry texts db) b = .ok b' ∧
          b'.Pending db db'' (responses ++ responses') := by
  induction es generalizing b db' responses with
  | nil => exact .inr ⟨db', [], b, rfl, rfl, by simpa using h⟩
  | cons e es ih =>
    rw [foldlM_cons]
    rcases h.applyEntry texts e with ⟨err, hcommit, happly⟩ |
      ⟨db₁, responses₁, b₁, hcommit, happly, h₁⟩
    · exact .inl ⟨err, by rw [Db.commitAll, hcommit]; rfl, by rw [happly]; rfl⟩
    · rw [Db.commitAll_cons hcommit, happly, ok_bind]
      rcases ih h₁ with ⟨err, hcommit, happly⟩ | ⟨db₂, responses₂, b₂, hcommit, happly, h₂⟩
      · exact .inl ⟨err, by rw [hcommit]; rfl, happly⟩
      · refine .inr ⟨db₂, responses₁ ++ responses₂, b₂, by rw [hcommit]; rfl, happly, ?_⟩
        simpa using h₂

end Batch

/-! ### Batches -/

variable (texts) in
/-- **A batch is its entries in order**, in database, memory and responses; it fails as they do. -/
theorem RocksStateMachine.apply_eq {sm : RocksStateMachine M} (hmem : sm.data = sm.db.smData)
    (es : List (Entry M × Option R)) :
    (sm.apply texts es).map (fun a => (a.sm, a.responses)) =
      (sm.db.commitAll texts es).map fun p => (⟨p.1, p.1.smData⟩, p.2) := by
  rcases (Batch.pending_empty sm.db).foldlM texts es with ⟨err, hcommit, happly⟩ |
    ⟨db', responses, b, hcommit, happly, h⟩
  · rw [apply, happly, hcommit]
    rfl
  · obtain ⟨-, hchanges, rfl, rfl⟩ := h
    rw [apply, happly, hcommit]
    have hdata : (if b.dataChanges.isEmpty then sm.data
        else applyMemoryChanges sm.data b.dataChanges) = sm.db.smData.writeAll b.smData := by
      rw [← hchanges, ← hmem]
      split_ifs with hempty
      · rw [List.isEmpty_iff.mp hempty]
        rfl
      · exact applyMemoryChanges_eq sm.data b.dataChanges
    simp only [ok_bind, hdata]
    rfl

theorem RocksStateMachine.applyBatches_eq {sm : RocksStateMachine M}
    (hmem : sm.data = sm.db.smData) (batches : List (List (Entry M × Option R))) :
    sm.applyBatches texts batches =
      (sm.db.commitAll texts batches.flatten).map fun p => (⟨p.1, p.1.smData⟩, p.2) := by
  induction batches generalizing sm with
  | nil =>
    obtain ⟨db, data⟩ := sm
    obtain rfl : data = db.smData := hmem
    rfl
  | cons entries batches ih =>
    have happly := apply_eq texts hmem entries
    rw [applyBatches, flatten_cons, Db.commitAll_append]
    cases hcommit : sm.db.commitAll texts entries with
    | error err =>
      cases ha : sm.apply texts entries with
      | error err' =>
        obtain rfl : err' = err := by simpa [ha, hcommit, Except.map] using happly
        rfl
      | ok a => simp [ha, hcommit, Except.map] at happly
    | ok p =>
      cases ha : sm.apply texts entries with
      | error err => simp [ha, hcommit, Except.map] at happly
      | ok a =>
        obtain ⟨hsm, hresponses⟩ : a.sm = ⟨p.1, p.1.smData⟩ ∧ a.responses = p.2 := by
          simpa [ha, hcommit, Except.map] using happly
        rw [ok_bind, ok_bind, hsm, hresponses, ih rfl]
        cases p.1.commitAll texts batches.flatten <;> rfl

/-- **The cuts between batches do not matter.** Entries that can be applied one by one lead in every
cut to the same database, memory and responses, and the memory agrees with the database again. -/
theorem applyBatches_eq_of_flatten {sm sm' : RocksStateMachine M} {responses : List (R × Response)}
    {es : List (Entry M × Option R)} (hmem : sm.data = sm.db.smData)
    (hes : sm.applyBatches texts (es.map fun e => [e]) = .ok (sm', responses))
    (batches : List (List (Entry M × Option R))) (hcut : batches.flatten = es) :
    sm.applyBatches texts batches = .ok (sm', responses) ∧ sm'.data = sm'.db.smData := by
  have hsingle : (es.map fun e => [e]).flatten = es := by
    rw [← flatMap_def, flatMap_singleton']
  rw [RocksStateMachine.applyBatches_eq hmem, hsingle] at hes
  rw [RocksStateMachine.applyBatches_eq hmem, hcut, hes]
  cases hcommit : sm.db.commitAll texts es with
  | error err => simp [hcommit, Except.map] at hes
  | ok p =>
    obtain ⟨rfl, rfl⟩ : _ = sm' ∧ _ = responses := by simpa [hcommit, Except.map] using hes
    exact ⟨rfl, rfl⟩

variable (texts) in
/-- A task command on data that show a table does not fail. -/
theorem Db.exists_commit_task (db : Db M) {T : TaskTable} (h : Represents texts db.smData T)
    (logId : LogId) (cmd : TaskRequest) (responder : Option R) :
    ∃ db' responses, db.commit texts (⟨logId, .normal (.task cmd)⟩, responder) =
      .ok (db', responses) ∧ Represents texts db'.smData (T.next cmd) := by
  obtain ⟨s', e, T', rfl, hT, hstep, hr, -⟩ := h.exists_step cmd
  obtain rfl := hT.eq_next.1
  rw [CommandStep, TableEvent.toCommand_cmd, applyCommand] at hstep
  cases hout : applyTaskCommand texts db.smData.reader e.cmd with
  | error err => simp [hout, Bind.bind, Except.bind] at hstep
  | ok p =>
    obtain ⟨rfl, -⟩ : db.smData.writeAll p.1 = s' ∧ _ := by simpa [hout] using hstep
    exact ⟨_, _, by rw [commit, EntryPayload.effect, hout]; rfl, hr⟩

/-- A short log whose writes have waiting clients. -/
def shortLog : List (Entry Unit × Option ℕ) :=
  [(⟨⟨1, "n1", 1⟩, .normal (.task (.taskEnqueue "t1" "mail" 100 none 100))⟩, some 0),
    (⟨⟨1, "n1", 2⟩, .normal (.task (.taskAssign "t1" "A" 1 101))⟩, some 1),
    (⟨⟨1, "n1", 3⟩, .membership ()⟩, none), (⟨⟨1, "n1", 4⟩, .normal (.set "a" "1")⟩, some 2),
    (⟨⟨1, "n1", 5⟩, .normal (.delete "a")⟩, none), (⟨⟨1, "n1", 6⟩, .blank⟩, none)]

/-- The short log cut in two batches around an empty one. -/
theorem applyBatches_eq_of_flatten_shortLog : ∃ sm' responses,
    (⟨⟨∅, none, none⟩, ∅⟩ : RocksStateMachine Unit).applyBatches jsonForms
      [shortLog.take 4, [], shortLog.drop 4] = .ok (sm', responses) ∧
        sm'.data = sm'.db.smData := by
  obtain ⟨db₁, responses₁, hcommit₁, h₁⟩ := Db.exists_commit_task jsonForms
    (⟨∅, none, none⟩ : Db Unit) represents_empty ⟨1, "n1", 1⟩
    (.taskEnqueue "t1" "mail" 100 none 100) (some 0)
  obtain ⟨db₂, responses₂, hcommit₂, -⟩ := Db.exists_commit_task jsonForms db₁ h₁ ⟨1, "n1", 2⟩
    (.taskAssign "t1" "A" 1 101) (some 1)
  have hes : ∃ p, (⟨⟨∅, none, none⟩, ∅⟩ : RocksStateMachine Unit).applyBatches jsonForms
      (shortLog.map fun e => [e]) = .ok p := by
    have hsingle : (shortLog.map fun e => [e]).flatten = shortLog := rfl
    rw [RocksStateMachine.applyBatches_eq rfl, hsingle, shortLog, Db.commitAll_cons hcommit₁,
      Db.commitAll_cons hcommit₂]
    exact ⟨_, rfl⟩
  obtain ⟨⟨sm', responses⟩, hes⟩ := hes
  exact ⟨sm', responses, applyBatches_eq_of_flatten rfl hes _ rfl⟩

end Batches

end RustExample.OpenraftCluster
