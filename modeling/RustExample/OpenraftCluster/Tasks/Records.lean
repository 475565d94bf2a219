import RustExample.Foundation.JsonText
import RustExample.Foundation.KeyText

/-!
# Records, commands and keys of the task domain

The data of the replicated task queue of `openraft_libp2p_cluster`: the task record and the worker
lease, as the state machine stores them, the commands of the task domain, and the structured
result that a command answers its proposer with.

The keys under the reserved prefix `task:` are those of the records, the three secondary indexes,
the idempotency table and the worker leases. A text determines the key, with one exception: an
entry of the assigned index lists the node and the task with a colon between them, and the two are
told apart only if one of them has no colon of its own.

Source: `src/types_kv.rs`, `src/tasks/records.rs`, `src/tasks/keys.rs`.

* `TextForms` lists the text forms of the stored and answered values: what `sonic_rs::to_string`
  writes `sonic_rs::from_str` reads back.
* `TaskRequest` is the enumeration of the task commands; its arguments are the machine integers
  and strings of the source.
* `TaskKey` names what a key stands for, and `TaskKey.render` is its text.
-/

namespace RustExample.OpenraftCluster

section Records

open JsonText

/-! ### Stored records -/

/-- The status of a task. -/
inductive TaskStatus where
  | queued
  | assigned
  | running
  | done
  | failed
  deriving DecidableEq, Repr

/-- The name of a status in the texts of rejections. -/
def TaskStatus.asStr : TaskStatus → String
  | queued => "queued"
  | assigned => "assigned"
  | running => "running"
  | done => "done"
  | failed => "failed"

/-- The replicated record of a task. -/
structure TaskRecord where
  id : String
  payload : String
  status : TaskStatus
  attempts : UInt32
  runAt : UInt64
  idemKey : Option String
  assignedNodeId : Option String
  leaseEpoch : Option UInt64
  committed : Bool
  error : Option String
  updatedAt : UInt64
  createdAt : UInt64
  completedAt : UInt64
  result : Option String
  deriving DecidableEq, Repr

/-- The replicated lease of a worker. -/
structure WorkerLeaseRecord where
  nodeId : String
  workerName : String
  leaseEpoch : UInt64
  expiresAt : UInt64
  deriving DecidableEq, Repr

/-! ### Commands -/

/-- The commands of the task domain. -/
inductive TaskRequest where
  | taskEnqueue (id payload : String) (runAt : UInt64) (idemKey : Option String)
      (createdAt : UInt64)
  | taskAssign (id nodeId : String) (leaseEpoch now : UInt64)
  | taskClaim (id nodeId : String) (leaseEpoch now : UInt64)
  | taskMarkCommitted (id nodeId : String) (leaseEpoch now : UInt64)
  | taskDone (id nodeId : String) (leaseEpoch : UInt64) (attempts : UInt32) (now : UInt64)
      (result : Option String)
  | taskFail (id nodeId : String) (leaseEpoch : UInt64) (attempts : UInt32) (error : String)
      (retryAt now : UInt64)
  | taskRequeue (id : String)
  | taskReplay (id : String) (now : UInt64)
  | taskVacuum (ids : List String)
  | workerLease (nodeId workerName : String) (leaseEpoch expiresAt : UInt64)
  deriving DecidableEq, Repr

/-- A request to the replicated state machine. -/
inductive Request where
  | set (key value : String)
  | delete (key : String)
  | task (cmd : TaskRequest)
  deriving DecidableEq, Repr

/-- A response of the state machine. -/
structure Response where
  value : Option String
  deriving DecidableEq, Repr

/-- The response without a value. -/
def Response.none : Response := ⟨Option.none⟩

/-- A response with a value. -/
def Response.new (value : String) : Response := ⟨some value⟩

/-- The structured result of a task command. -/
structure TaskOpResult where
  ok : Bool
  id : Option String
  deduplicated : Option Bool
  record : Option TaskRecord
  reason : Option String
  deriving DecidableEq, Repr

/-- The plain acceptance, `TaskOpResult::ok()`. -/
def TaskOpResult.okResult : TaskOpResult := ⟨true, none, none, none, none⟩

/-- A result that refuses. -/
def TaskOpResult.rejected (reason : String) : TaskOpResult := ⟨false, none, none, none, some reason⟩

/-! ### Text forms -/

/-- The JSON of `sonic_rs`, and the `{:?}` text of a string, which rejections quote. -/
structure TextForms where
  taskRecord : Serde TaskRecord
  workerLease : Serde WorkerLeaseRecord
  taskOpResult : Serde TaskOpResult
  debugStr : String → String

variable (texts : TextForms)

/-- The response that carries a result. -/
def TaskOpResult.intoResponse (r : TaskOpResult) : Response := ⟨some (texts.taskOpResult.toStr r)⟩

/-- The result that a response carries, if it can be read. -/
def TaskOpResult.fromResponse (response : Response) : Option TaskOpResult :=
  response.value.bind fun value => (texts.taskOpResult.fromStr value).toOption

@[simp] theorem TaskOpResult.fromResponse_intoResponse (r : TaskOpResult) :
    fromResponse texts (r.intoResponse texts) = some r := by
  simp [fromResponse, intoResponse, Except.toOption]

/-- The proposer sees `ok = true`. -/
def Response.isOk (response : Response) : Bool :=
  (TaskOpResult.fromResponse texts response).any TaskOpResult.ok

@[simp] theorem Response.isOk_intoResponse (r : TaskOpResult) :
    (r.intoResponse texts).isOk texts = r.ok := by
  simp [isOk]

end Records

section Keys

/-! ### Key builders -/

def taskRecPrefix : String := "task:rec:"

def taskQueuedIdxPrefix : String := "task:idx:queued:"

def taskAssignedIdxPrefix : String := "task:idx:assigned:"

def taskTerminalIdxPrefix : String := "task:idx:terminal:"

def taskIdemPrefix : String := "task:idem:"

def taskWorkerPrefix : String := "task:worker:"

/-- The decimal of a 64-bit number, padded to the twenty digits of the largest one. -/
def padded20 (n : UInt64) : String := String.ofList (KeyText.padded 20 n.toNat)

/-- The key of a record. -/
def recKey (id : String) : String := taskRecPrefix ++ id

/-- The key of a queued task. -/
def queuedIdxKey (runAt : UInt64) (id : String) : String :=
  taskQueuedIdxPrefix ++ padded20 runAt ++ ":" ++ id

/-- The key of an assigned task. -/
def assignedIdxKey (nodeId id : String) : String := taskAssignedIdxPrefix ++ nodeId ++ ":" ++ id

/-- The key of a finished task. -/
def terminalIdxKey (completedAt : UInt64) (id : String) : String :=
  taskTerminalIdxPrefix ++ padded20 completedAt ++ ":" ++ id

/-- The key of an idempotency key. -/
def idemRecordKey (idemKey : String) : String := taskIdemPrefix ++ idemKey

/-- The key of a worker. -/
def workerKey (nodeId : String) : String := taskWorkerPrefix ++ nodeId

/-! ### Typed keys -/

/-- What a key of the task domain stands for. -/
inductive TaskKey where
  | record (id : String)
  | queued (runAt : UInt64) (id : String)
  | assigned (nodeId id : String)
  | terminal (completedAt : UInt64) (id : String)
  | idem (idemKey : String)
  | worker (nodeId : String)
  deriving DecidableEq

namespace TaskKey

/-- The text of a key. -/
def render : TaskKey → String
  | record id => recKey id
  | queued runAt id => queuedIdxKey runAt id
  | assigned nodeId id => assignedIdxKey nodeId id
  | terminal completedAt id => terminalIdxKey completedAt id
  | idem idemKey => idemRecordKey idemKey
  | worker nodeId => workerKey nodeId

/-- Keys are equal, or assigned entries that differ only in the colon that ends the node. -/
def SameText : TaskKey → TaskKey → Prop
  | assigned nodeId id, assigned nodeId' id' => nodeId ++ ":" ++ id = nodeId' ++ ":" ++ id'
  | k, k' => k = k'

end TaskKey

/-- A text without a colon, as `keys.rs` promises of node ids and of the UUIDs of tasks. -/
def ColonFree (text : String) : Prop := ':' ∉ text.toList

instance (text : String) : Decidable (ColonFree text) :=
  inferInstanceAs (Decidable (':' ∉ text.toList))

/-- Texts around a colon are determined if their characters are. -/
theorem append_colon_inj {n n' i i' : String}
    (h : n.toList ++ ':' :: i.toList = n'.toList ++ ':' :: i'.toList →
      n.toList = n'.toList ∧ i.toList = i'.toList) :
    n ++ ":" ++ i = n' ++ ":" ++ i' ↔ n = n' ∧ i = i' := by
  refine ⟨fun heq => ?_, by rintro ⟨rfl, rfl⟩; rfl⟩
  have hlist : n.toList ++ ':' :: i.toList = n'.toList ++ ':' :: i'.toList := by
    simpa using congrArg String.toList heq
  obtain ⟨hn, hi⟩ := h hlist
  exact ⟨String.toList_inj.mp hn, String.toList_inj.mp hi⟩

/-- The text behind a colon-free node and the node itself are determined. -/
theorem ColonFree.append_inj {n n' i i' : String} (h : ColonFree n) (h' : ColonFree n') :
    n ++ ":" ++ i = n' ++ ":" ++ i' ↔ n = n' ∧ i = i' :=
  append_colon_inj (KeyText.append_separator_inj h h')

/-- The node in front of a colon-free task id and the task id itself are determined. -/
theorem ColonFree.append_inj_right {n n' i i' : String} (h : ColonFree i) (h' : ColonFree i') :
    n ++ ":" ++ i = n' ++ ":" ++ i' ↔ n = n' ∧ i = i' :=
  append_colon_inj (KeyText.append_separator_inj' h h')

/-- The padded number in front of a colon is determined, and so is the text behind it. -/
theorem padded20_append_inj {t t' : UInt64} {i i' : String} :
    padded20 t ++ ":" ++ i = padded20 t' ++ ":" ++ i' ↔ t = t' ∧ i = i' := by
  refine ⟨fun heq => ?_, by rintro ⟨rfl, rfl⟩; rfl⟩
  have hfree (n : UInt64) : ColonFree (padded20 n) := by
    simpa [ColonFree, padded20] using KeyText.separator_notMem_padded 20 n.toNat
  obtain ⟨ht, hi⟩ := ((hfree t).append_inj (hfree t')).mp heq
  have hpadded : KeyText.padded 20 t.toNat = KeyText.padded 20 t'.toNat := by
    simpa [padded20] using congrArg String.toList ht
  exact ⟨UInt64.toNat_inj.mp (KeyText.padded_injective 20 hpadded), hi⟩

/-! ### The text determines the key -/

/-- The kinds of keys of the task domain. -/
inductive KeyKind where
  | record
  | queued
  | assigned
  | terminal
  | idem
  | worker

/-- The prefix that the keys of a kind share. -/
def KeyKind.text : KeyKind → String
  | record => taskRecPrefix
  | queued => taskQueuedIdxPrefix
  | assigned => taskAssignedIdxPrefix
  | terminal => taskTerminalIdxPrefix
  | idem => taskIdemPrefix
  | worker => taskWorkerPrefix

/-- The prefixes of two kinds differ within their common length. -/
theorem KeyKind.eq_of_append_eq {a b : KeyKind} {t t' : String}
    (h : a.text ++ t = b.text ++ t') : a = b := by
  cases a <;> cases b <;> first
    | rfl
    | simp [text, taskRecPrefix, taskQueuedIdxPrefix, taskAssignedIdxPrefix,
        taskTerminalIdxPrefix, taskIdemPrefix, taskWorkerPrefix, ← String.toList_inj] at h

namespace TaskKey

/-- The kind of a key. -/
def kind : TaskKey → KeyKind
  | record _ => .record
  | queued _ _ => .queued
  | assigned _ _ => .assigned
  | terminal _ _ => .terminal
  | idem _ => .idem
  | worker _ => .worker

/-- The text of a key behind the prefix of its kind. -/
def body : TaskKey → String
  | record id => id
  | queued runAt id => padded20 runAt ++ ":" ++ id
  | assigned nodeId id => nodeId ++ ":" ++ id
  | terminal completedAt id => padded20 completedAt ++ ":" ++ id
  | idem idemKey => idemKey
  | worker nodeId => nodeId

theorem render_eq_append (k : TaskKey) : k.render = k.kind.text ++ k.body := by
  cases k <;>
    simp only [render, recKey, queuedIdxKey, assignedIdxKey, terminalIdxKey, idemRecordKey,
      workerKey, kind, KeyKind.text, body, String.append_assoc]

/-- **Texts of keys** agree only if the keys do, or assigned entries run together alike. -/
@[simp] theorem render_eq_render {k k' : TaskKey} : k.render = k'.render ↔ k.SameText k' := by
  constructor
  · intro h
    rw [render_eq_append, render_eq_append] at h
    have hkind := KeyKind.eq_of_append_eq h
    rw [hkind, String.append_right_inj] at h
    cases k <;> cases k' <;> first
      | (cases hkind; done)
      | simpa [SameText, body, padded20_append_inj] using h
  · intro h
    cases k <;> cases k' <;> simp_all [SameText, render, assignedIdxKey, String.append_assoc]

end TaskKey

end Keys

end RustExample.OpenraftCluster
