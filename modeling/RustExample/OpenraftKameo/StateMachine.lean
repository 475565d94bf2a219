import RustExample.Foundation.JsonText
import RustExample.Foundation.KeyStore
import RustExample.Foundation.RaftLog
import RustExample.Foundation.Run

/-!
# A state machine in an actor, and its snapshots

The map of a replica is owned by an actor and reached by messages; how far the log is applied, the
last membership and the current snapshot are kept behind a mutex. Applying an entry, installing a
snapshot and building one each hold the operation lock from their first step to their last.

Source: `openraft_kameo/src/lib.rs`.

* A step is what happens between two awaits: taking the operation lock, an actor handling a
  message, a section under the mutex of `inner`, and releasing the lock. Entries are applied and
  snapshots installed by one worker, which owns the state machine; builders are clones.
* Messages to the actor succeed. The text of a snapshot is written and read by `serde`.
* The replicas of a cluster share a log. A replica installs only what some replica has returned as
  a snapshot, and nothing that ends before its last applied entry.
-/

namespace RustExample.OpenraftKameo

open Raft JsonText

variable {L M B N : Type}

/-! ### The actor -/

/-- The command of the store. -/
structure SetCommand where
  key : String
  value : String

/-- `BTreeMap<String, String>`. -/
abbrev KvMap := KeyStore String String

/-- The actor with the map. -/
structure KvStoreActor where
  state : KvMap

namespace KvStoreActor

/-- `SetCommand`: the reply is the value that was there. -/
def handleSet (actor : KvStoreActor) (msg : SetCommand) : KvStoreActor × Option String :=
  (⟨actor.state.insert msg.key msg.value⟩, actor.state[msg.key]?)

/-- `DumpState`. -/
def handleDump (actor : KvStoreActor) : KvMap := actor.state

/-- `InstallState`. -/
def handleInstall (_ : KvStoreActor) (state : KvMap) : KvStoreActor := ⟨state⟩

end KvStoreActor

/-- The map as a state machine. -/
def kvMachine : Machine KvMap SetCommand where
  initial := ∅
  exec state cmd := ((⟨state⟩ : KvStoreActor).handleSet cmd).1.state

/-! ### The state machine -/

/-- What a snapshot says of itself. -/
structure SnapshotMeta (L M : Type) where
  lastLogId : Option L
  lastMembership : StoredMembership L M

/-- A snapshot with its data. -/
structure StoredSnapshot (L M : Type) where
  metadata : SnapshotMeta L M
  data : String

/-- What was applied. -/
structure RaftStateMachineInner (L M : Type) where
  lastAppliedLog : Option L
  lastMembership : StoredMembership L M
  currentSnapshot : Option (StoredSnapshot L M)

/-- Who holds the operation lock. -/
inductive Holder (B : Type) where
  | worker
  | builder (b : B)
  deriving DecidableEq

/-- The worker, outside or inside `apply` for one entry or `install_snapshot`. -/
inductive Worker (L M : Type) where
  | idle
  | applying (entry : Entry L SetCommand M)
  | answered (logId : L) (response : Option String)
  | applied (response : Option String)
  | installing (snapshot : StoredSnapshot L M) (state : KvMap)
  | replaced (snapshot : StoredSnapshot L M)
  | installed (result : Except String Unit)

/-- A clone, outside or inside `build_snapshot`. -/
inductive Builder (L M : Type) where
  | idle
  | locked
  | dumped (data : String)
  | built (snapshot : StoredSnapshot L M)

/-- The actor with its snapshots. -/
structure RaftStateMachineStore (L M B : Type) where
  actor : KvStoreActor
  inner : RaftStateMachineInner L M
  operationLock : Option (Holder B)
  worker : Worker L M
  builders : B → Builder L M

namespace RaftStateMachineStore

/-- Nothing is applied. -/
def new [Inhabited M] : RaftStateMachineStore L M B where
  actor := ⟨∅⟩
  inner := ⟨none, ⟨none, default⟩, none⟩
  operationLock := none
  worker := .idle
  builders _ := .idle

variable (s : RaftStateMachineStore L M B)

/-- What `apply` does with the payload of an entry. -/
def handleEntry (entry : Entry L SetCommand M) : RaftStateMachineStore L M B :=
  match entry.payload with
  | .blank => { s with worker := .answered entry.logId none }
  | .normal cmd =>
    { s with
      actor := (s.actor.handleSet cmd).1
      worker := .answered entry.logId (s.actor.handleSet cmd).2 }
  | .membership m =>
    { s with
      inner := { s.inner with lastMembership := ⟨some entry.logId, m⟩ }
      worker := .answered entry.logId none }

/-- `install_snapshot` before it asks the actor. A text that cannot be read is an error. -/
def beginInstall (serde : Serde KvMap) (snapshot : StoredSnapshot L M) :
    RaftStateMachineStore L M B :=
  match serde.fromStr snapshot.data with
  | .ok state =>
    { s with operationLock := some .worker, worker := .installing snapshot state }
  | .error err => { s with operationLock := some .worker, worker := .installed (.error err) }

/-- The snapshot of `inner` with the map that was dumped. -/
def snapshotOf (data : String) : StoredSnapshot L M :=
  ⟨⟨s.inner.lastAppliedLog, s.inner.lastMembership⟩, data⟩

/-- The builder `b` comes to a phase. -/
def setBuilder [DecidableEq B] (b : B) (phase : Builder L M) : RaftStateMachineStore L M B :=
  { s with builders := Function.update s.builders b phase }

end RaftStateMachineStore

/-! ### Steps -/

/-- The steps of a replica. Those that return show what they return. -/
inductive Event (L M B : Type) where
  | lockApply (entry : Entry L SetCommand M)
  | handleEntry
  | setApplied
  | respond (response : Option String)
  | lockInstall (snapshot : StoredSnapshot L M)
  | installState
  | setInstalled
  | returnInstall (result : Except String Unit)
  | lockBuild (b : B)
  | dump (b : B)
  | store (b : B)
  | returnBuild (b : B) (snapshot : StoredSnapshot L M)
  | getCurrentSnapshot (snapshot : Option (StoredSnapshot L M))

/-- The snapshot that a step returns. -/
def Event.returned : Event L M B → Option (StoredSnapshot L M)
  | .returnBuild _ snapshot => some snapshot
  | .getCurrentSnapshot snapshot => snapshot
  | _ => none

section Steps

variable [LinearOrder L] [DecidableEq B] (serde : Serde KvMap) (log : Log L SetCommand M)

/-- One step of a replica that is sent the snapshots of `sent`. -/
def StoreStep (sent : List (StoredSnapshot L M)) (s : RaftStateMachineStore L M B)
    (e : Event L M B) (s' : RaftStateMachineStore L M B) : Prop :=
  match e with
  | .lockApply entry => s.worker = .idle ∧ s.operationLock = none ∧
      log.Follows s.inner.lastAppliedLog entry ∧
      s' = { s with operationLock := some .worker, worker := .applying entry }
  | .handleEntry => ∃ entry, s.worker = .applying entry ∧ s' = s.handleEntry entry
  | .setApplied => ∃ logId response, s.worker = .answered logId response ∧
      s' = { s with
        inner := { s.inner with lastAppliedLog := some logId }
        worker := .applied response }
  | .respond response => s.worker = .applied response ∧
      s' = { s with operationLock := none, worker := .idle }
  | .lockInstall snapshot => s.worker = .idle ∧ s.operationLock = none ∧ snapshot ∈ sent ∧
      s.inner.lastAppliedLog ≤ snapshot.metadata.lastLogId ∧ s' = s.beginInstall serde snapshot
  | .installState => ∃ snapshot state, s.worker = .installing snapshot state ∧
      s' = { s with actor := s.actor.handleInstall state, worker := .replaced snapshot }
  | .setInstalled => ∃ snapshot, s.worker = .replaced snapshot ∧
      s' = { s with
        inner :=
          { lastAppliedLog := snapshot.metadata.lastLogId
            lastMembership := snapshot.metadata.lastMembership
            currentSnapshot := some snapshot }
        worker := .installed (.ok ()) }
  | .returnInstall result => s.worker = .installed result ∧
      s' = { s with operationLock := none, worker := .idle }
  | .lockBuild b => s.builders b = .idle ∧ s.operationLock = none ∧
      s' = { s.setBuilder b .locked with operationLock := some (.builder b) }
  | .dump b => s.builders b = .locked ∧
      s' = s.setBuilder b (.dumped (serde.toStr s.actor.handleDump))
  | .store b => ∃ data, s.builders b = .dumped data ∧
      s' = { s.setBuilder b (.built (s.snapshotOf data)) with
        inner := { s.inner with currentSnapshot := some (s.snapshotOf data) } }
  | .returnBuild b snapshot => s.builders b = .built snapshot ∧
      s' = { s.setBuilder b .idle with operationLock := none }
  | .getCurrentSnapshot snapshot => s.inner.currentSnapshot = snapshot ∧ s' = s

/-- The replicas of a cluster and the snapshots that they returned. -/
structure Cluster (L M B N : Type) where
  nodes : N → RaftStateMachineStore L M B
  sent : List (StoredSnapshot L M)

/-- No node has started. -/
def Cluster.initial [Inhabited M] : Cluster L M B N := ⟨fun _ => .new, []⟩

/-- One event of a node. -/
def ClusterStep [DecidableEq N] (c : Cluster L M B N) (e : N × Event L M B)
    (c' : Cluster L M B N) : Prop :=
  ∃ s, StoreStep serde log c.sent (c.nodes e.1) e.2 s ∧
    c' = ⟨Function.update c.nodes e.1 s, c.sent ++ e.2.returned.toList⟩

end Steps

/-! ### JSON -/

/-- The members of a JSON object of strings, as a map. -/
def mapOfMembers : List (String × Value) → Option (List (String × String))
  | [] => some []
  | (key, .str value) :: members => (mapOfMembers members).map ((key, value) :: ·)
  | _ => none

theorem mapOfMembers_map (entries : List (String × String)) :
    mapOfMembers (entries.map fun p => (p.1, .str p.2)) = some entries := by
  induction entries with
  | nil => rfl
  | cons p entries ih => simp [mapOfMembers, ih]

/-- The object with the entries of a map, in the order of the keys. -/
def mapShape : Shape KvMap where
  toValue state := .obj (state.toList.map fun p => (p.1, .str p.2))
  ofValue
    | .obj members =>
      (mapOfMembers members).map fun entries =>
        (∅ : KvMap).writeAll (entries.map fun p => ⟨p.1, some p.2⟩)
    | _ => none
  ofValue_toValue state := by
    simp only [mapOfMembers_map, Option.map_some, KeyStore.writeAll_toList]

/-- `serde_json::to_vec` and `serde_json::from_slice` for a map of strings. -/
def mapSerde : Serde KvMap := .ofShape mapShape

end RustExample.OpenraftKameo
