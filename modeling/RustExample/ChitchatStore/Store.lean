import RustExample.Foundation.Fallible
import RustExample.Foundation.KeyStore
import RustExample.Foundation.RaftLog
import RustExample.Foundation.Run

/-!
# A store of tables and its snapshots

The tables of a replica, a counter for the names of snapshots and the current snapshot are behind
three mutexes, which the operations take one after the other. An entry is applied in one section.
An installation replaces the tables in one section and the current snapshot in the next. A builder
copies the tables, takes a number and stores its snapshot in three sections.

Source: `chitchat_openraft_axum_example/src/distributed/store.rs` and `raft_types.rs`.

* A section under a mutex is one step. Entries are applied and snapshots installed by one worker;
  any number of builders run beside it. What a builder returns is the snapshot that it stored.
* Bytes of a received snapshot are read by `fromSlice`. The replicas share a log, and a received
  snapshot is of a prefix of it that contains the entries applied so far.
* A log id is shown by `display`. Tables are dropped at once, and the counter does not overflow.
-/

namespace RustExample.ChitchatStore

open Raft

variable {L M B T : Type}

/-! ### Tables -/

/-- The name of a table. -/
abbrev Table := String

/-- A key of a table. -/
abbrev Key := String

/-- A value of a table. -/
abbrev Value := List UInt8

/-- The content of a table. -/
abbrev TableData := KeyStore Key Value

/-- All tables. -/
abbrev Tables := KeyStore Table TableData

/-- How a value meets an old one. -/
inductive UpsertEnum where
  | overwrite
  | appendBytes

/-- The new value. -/
def UpsertEnum.upsert (upsertFn : UpsertEnum) (old new : Value) : Value :=
  match upsertFn with
  | .overwrite => new
  | .appendBytes => old ++ new

/-- What an upsert did. -/
inductive UpsertAction where
  | inserted
  | merged
  | noChange

/-- A request to the store. -/
inductive Request where
  | set (table : Table) (key : Key) (value : Value)
  | get (table : Table) (key : Key)
  | batchSet (table : Table) (values : List (Key × Value))
  | batchGet (table : Table) (keys : List Key)
  | upsert (table : Table) (key : Key) (value : Value) (upsertFn : UpsertEnum)
  | batchUpsert (table : Table) (upsertFn : UpsertEnum) (values : List (Key × Value))
  | createTable (table : Table)
  | dropTable (table : Table)
  | cloneTable (source target : Table)
  | allTables

/-- Its response. -/
inductive Response where
  | set (result : Except String Unit)
  | get (result : Except String (Option Value))
  | batchGet (result : Except String (List (Key × Value)))
  | upsert (result : Except String UpsertAction)
  | batchUpsert (result : Except String (List (Key × UpsertAction)))
  | createTable (result : Except String Unit)
  | dropTable (result : Except String Unit)
  | cloneTable (result : Except String Unit)
  | allTables (result : Except String (List Table))
  | empty

/-- One key of `upsert` and of `batch_upsert`. -/
def TableData.upsert (tableData : TableData) (upsertFn : UpsertEnum) (key : Key) (value : Value) :
    TableData × UpsertAction :=
  match tableData[key]? with
  | some old =>
    (tableData.insert key (upsertFn.upsert old value),
      if upsertFn.upsert old value ≠ old then .merged else .noChange)
  | none => (tableData.insert key value, .inserted)

namespace Tables

variable (data : Tables)

/-- `self.data.entry(table).or_default()`. -/
def entry (table : Table) : TableData := data[table]?.getD ∅

/-- Removes a table. -/
def dropTable (table : Table) : Tables := data.erase table

/-- The value at a key. -/
def get (table : Table) (key : Key) : Option Value := data[table]?.bind fun m => m[key]?

/-- Sets a value, in a new table if need be. -/
def set (table : Table) (key : Key) (value : Value) : Tables :=
  data.insert table ((data.entry table).insert key value)

/-- Sets several values. -/
def batchSet (table : Table) (values : List (Key × Value)) : Tables :=
  data.insert table (values.foldl (fun m p => m.insert p.1 p.2) (data.entry table))

/-- Sets a value or adds to it. -/
def upsert (table : Table) (upsertFn : UpsertEnum) (key : Key) (value : Value) :
    Tables × UpsertAction :=
  let res := (data.entry table).upsert upsertFn key value
  (data.insert table res.1, res.2)

/-- Upserts several values. -/
def batchUpsert (table : Table) (upsertFn : UpsertEnum) (values : List (Key × Value)) :
    Tables × List (Key × UpsertAction) :=
  let res := values.foldl (fun (m, actions) p =>
    let r := TableData.upsert m upsertFn p.1 p.2
    (r.1, actions ++ [(p.1, r.2)])) (data.entry table, [])
  (data.insert table res.1, res.2)

/-- Copies a table. -/
def cloneTable (source target : Table) : Tables := data.insert target (data.entry source)

/-- A new empty table. -/
def newTable (table : Table) : Tables := data.insert table ∅

/-- The names of the tables. -/
def tables : List Table := data.keys

/-- The values at some keys. -/
def batchGet (table : Table) (keys : List Key) : List (Key × Value) :=
  match data[table]? with
  | none => []
  | some m => keys.filterMap fun key => m[key]?.map fun value => (key, value)

/-- The branch of `apply` for a request. -/
def handle : Request → Tables × Response
  | .set table key value => (data.set table key value, .set (.ok ()))
  | .batchSet table values => (data.batchSet table values, .set (.ok ()))
  | .get table key => (data, .get (.ok (data.get table key)))
  | .batchGet table keys => (data, .batchGet (.ok (data.batchGet table keys)))
  | .upsert table key value upsertFn =>
    let res := data.upsert table upsertFn key value
    (res.1, .upsert (.ok res.2))
  | .batchUpsert table upsertFn values =>
    let res := data.batchUpsert table upsertFn values
    (res.1, .batchUpsert (.ok res.2))
  | .createTable table => (data.newTable table, .createTable (.ok ()))
  | .dropTable table => (data.dropTable table, .dropTable (.ok ()))
  | .allTables => (data, .allTables (.ok data.tables))
  | .cloneTable source target => (data.cloneTable source target, .cloneTable (.ok ()))

end Tables

/-- The tables and their requests. -/
def tableMachine : Machine Tables Request where
  initial := ∅
  exec data request := (data.handle request).1

/-! ### The store -/

/-- The applied state. -/
structure StateMachineData (L M : Type) where
  lastApplied : Option L
  lastMembership : StoredMembership L M
  data : Tables

/-- Apply one entry in the section of `apply`. -/
def StateMachineData.apply (sm : StateMachineData L M) (entry : Entry L Request M) :
    StateMachineData L M × Response :=
  match entry.payload with
  | .blank => ({ sm with lastApplied := some entry.logId }, .empty)
  | .normal request =>
    ({ sm with lastApplied := some entry.logId, data := (sm.data.handle request).1 },
      (sm.data.handle request).2)
  | .membership m =>
    ({ sm with lastApplied := some entry.logId, lastMembership := ⟨some entry.logId, m⟩ }, .empty)

/-- What a snapshot says of itself. -/
structure SnapshotMeta (L M : Type) where
  lastLogId : Option L
  lastMembership : StoredMembership L M
  snapshotId : String

/-- A snapshot with its data. -/
structure StoredSnapshot (L M : Type) where
  metadata : SnapshotMeta L M
  data : StateMachineData L M

/-- A snapshot of a copy of the state machine, with its number. -/
def StateMachineData.snapshot (display : L → String) (data : StateMachineData L M) (idx : ℕ) :
    StoredSnapshot L M where
  metadata :=
    { lastLogId := data.lastApplied
      lastMembership := data.lastMembership
      snapshotId :=
        match data.lastApplied with
        | some last => s!"{display last}-{idx}"
        | none => s!"--{idx}" }
  data := data

/-- What `install_snapshot` makes of a snapshot that it is sent. -/
def receivedSnapshot (fromSlice : T → Except String (StateMachineData L M))
    (metadata : SnapshotMeta L M) (bytes : T) : Except String (StoredSnapshot L M) := do
  let data ← fromSlice bytes
  return ⟨metadata, { data with
    lastApplied := metadata.lastLogId
    lastMembership := metadata.lastMembership }⟩

/-- The log id and the membership are those of the metadata, whatever the bytes hold. -/
theorem receivedSnapshot_eq_ok {fromSlice : T → Except String (StateMachineData L M)}
    {metadata : SnapshotMeta L M} {bytes : T} {snapshot : StoredSnapshot L M}
    (h : receivedSnapshot fromSlice metadata bytes = .ok snapshot) :
    snapshot.metadata = metadata ∧ snapshot.data.lastApplied = metadata.lastLogId ∧
      snapshot.data.lastMembership = metadata.lastMembership := by
  obtain ⟨data, -, hdata⟩ := bind_eq_ok.mp h
  cases hdata
  exact ⟨rfl, rfl, rfl⟩

/-- The worker, outside `install_snapshot` or between its sections. -/
inductive Worker (L M : Type) where
  | idle
  | installing (snapshot : StoredSnapshot L M)

/-- A builder, outside `build_snapshot` or between its sections. -/
inductive Builder (L M : Type) where
  | idle
  | copied (data : StateMachineData L M)
  | numbered (snapshot : StoredSnapshot L M)

/-- The state machine with its snapshots. -/
structure StateMachineStore (L M B : Type) where
  stateMachine : StateMachineData L M
  snapshotIdx : ℕ
  currentSnapshot : Option (StoredSnapshot L M)
  worker : Worker L M
  builders : B → Builder L M

namespace StateMachineStore

/-- `StateMachineStore::default()`. -/
def initial [Inhabited M] : StateMachineStore L M B where
  stateMachine := ⟨none, ⟨none, default⟩, ∅⟩
  snapshotIdx := 0
  currentSnapshot := none
  worker := .idle
  builders _ := .idle

/-- The builder `b` comes to a phase. -/
def setBuilder [DecidableEq B] (s : StateMachineStore L M B) (b : B) (phase : Builder L M) :
    StateMachineStore L M B :=
  { s with builders := Function.update s.builders b phase }

end StateMachineStore

/-! ### Sections -/

/-- The sections of a store. Those that copy or store something show it. -/
inductive Event (L M B T : Type) where
  | apply (entry : Entry L Request M)
  | refuseInstall (metadata : SnapshotMeta L M) (bytes : T)
  | installState (metadata : SnapshotMeta L M) (bytes : T)
  | storeInstalled (snapshot : StoredSnapshot L M)
  | copy (b : B) (data : StateMachineData L M)
  | number (b : B)
  | store (b : B) (snapshot : StoredSnapshot L M)

/-- The snapshot that a section stores. -/
def Event.stored : Event L M B T → Option (StoredSnapshot L M)
  | .storeInstalled snapshot | .store _ snapshot => some snapshot
  | _ => none

section Steps

variable [LinearOrder L] [Inhabited M] [DecidableEq B] (display : L → String)
  (fromSlice : T → Except String (StateMachineData L M)) (log : Log L Request M)

/-- A copy of the state machine as a state of the log. -/
def StateMachineData.applied (data : StateMachineData L M) : Applied Tables L M :=
  ⟨data.data, data.lastApplied, data.lastMembership⟩

/-- One step of the store. -/
def StoreStep (s : StateMachineStore L M B) (e : Event L M B T)
    (s' : StateMachineStore L M B) : Prop :=
  match e with
  | .apply entry => s.worker = .idle ∧ log.Follows s.stateMachine.lastApplied entry ∧
      s' = { s with stateMachine := (s.stateMachine.apply entry).1 }
  | .refuseInstall metadata bytes => s.worker = .idle ∧
      (∃ err, receivedSnapshot fromSlice metadata bytes = .error err) ∧ s' = s
  | .installState metadata bytes => ∃ snapshot, s.worker = .idle ∧
      receivedSnapshot fromSlice metadata bytes = .ok snapshot ∧
      log.IsPrefixState tableMachine snapshot.data.applied ∧
      s.stateMachine.lastApplied ≤ metadata.lastLogId ∧
      s' = { s with stateMachine := snapshot.data, worker := .installing snapshot }
  | .storeInstalled snapshot => s.worker = .installing snapshot ∧
      s' = { s with currentSnapshot := some snapshot, worker := .idle }
  | .copy b data => s.builders b = .idle ∧ s.stateMachine = data ∧
      s' = s.setBuilder b (.copied data)
  | .number b => ∃ data, s.builders b = .copied data ∧
      s' = { s.setBuilder b (.numbered (data.snapshot display (s.snapshotIdx + 1))) with
        snapshotIdx := s.snapshotIdx + 1 }
  | .store b snapshot => s.builders b = .numbered snapshot ∧
      s' = { s.setBuilder b .idle with currentSnapshot := some snapshot }

end Steps

end RustExample.ChitchatStore
