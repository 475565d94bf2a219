import RustExample.OpenraftCluster.Tasks.Records

/-!
# The JSON of the task domain

The texts that the derived serializers give the stored records and the answers: the fields under
their source names in declaration order, an absent optional field left out where the source skips
it and `null` elsewhere. A field with a default may be absent when a record is read.

Source: `src/tasks/records.rs`.
-/

namespace RustExample.OpenraftCluster

open JsonText JsonText.Value

/-! ### Fields -/

/-- A number below `2 ^ 64`. -/
def asU64 (v : Value) : Option UInt64 :=
  v.asNum.bind fun n => if n < UInt64.size then some (UInt64.ofNat n) else none

/-- A number below `2 ^ 32`. -/
def asU32 (v : Value) : Option UInt32 :=
  v.asNum.bind fun n => if n < UInt32.size then some (UInt32.ofNat n) else none

@[simp] theorem asU64_num (n : UInt64) : asU64 (num n.toNat) = some n := by
  simp [asU64, asNum, n.toNat_lt_size]

@[simp] theorem asU32_num (n : UInt32) : asU32 (num n.toNat) = some n := by
  simp [asU32, asNum, n.toNat_lt_size]

@[simp] theorem asStr_str (s : String) : asStr (str s) = some s := rfl

@[simp] theorem asBool_bool (b : Bool) : asBool (bool b) = some b := rfl

/-- A field that may be absent, with its default. -/
def asDefault {α : Type} (f : Value → Option α) (d : α) : Option Value → Option α
  | none => some d
  | some v => f v

@[simp] theorem asOption_ofOption_u64 (o : Option UInt64) :
    asOption asU64 (some (ofOption (fun n => num n.toNat) o)) = some o := by
  cases o <;> simp [asOption, ofOption]

@[simp] theorem asOption_none {α : Type} (f : Value → Option α) : asOption f none = some none :=
  rfl

@[simp] theorem asOption_str (s : String) : asOption asStr (some (str s)) = some (some s) := rfl

@[simp] theorem asOption_bool (b : Bool) : asOption asBool (some (bool b)) = some (some b) := rfl

/-- The member of a field that is left out when it has no value. -/
def optionalMember (name : String) : Option Value → List (String × Value)
  | none => []
  | some v => [(name, v)]

/-! ### Records -/

/-- The name of a status in a record. -/
def TaskStatus.variant : TaskStatus → String
  | queued => "Queued"
  | assigned => "Assigned"
  | running => "Running"
  | done => "Done"
  | failed => "Failed"

/-- The status of a name. -/
def TaskStatus.ofVariant : String → Option TaskStatus
  | "Queued" => some queued
  | "Assigned" => some assigned
  | "Running" => some running
  | "Done" => some done
  | "Failed" => some failed
  | _ => none

@[simp] theorem TaskStatus.ofVariant_variant (s : TaskStatus) : ofVariant s.variant = some s := by
  cases s <;> rfl

/-- The JSON object of a task record. -/
def TaskRecord.toValue (r : TaskRecord) : Value :=
  obj ([("id", str r.id), ("payload", str r.payload), ("status", str r.status.variant),
    ("attempts", num r.attempts.toNat), ("run_at", num r.runAt.toNat),
    ("idem_key", ofOption str r.idemKey), ("assigned_node_id", ofOption str r.assignedNodeId),
    ("lease_epoch", ofOption (fun n => num n.toNat) r.leaseEpoch), ("committed", bool r.committed),
    ("error", ofOption str r.error), ("updated_at", num r.updatedAt.toNat),
    ("created_at", num r.createdAt.toNat), ("completed_at", num r.completedAt.toNat)] ++
    optionalMember "result" (r.result.map str))

/-- Reads a record. -/
def TaskRecord.ofValue (v : Value) : Option TaskRecord := do
  let id ← (← v.member "id").asStr
  let payload ← (← v.member "payload").asStr
  let status ← TaskStatus.ofVariant (← (← v.member "status").asStr)
  let attempts ← asU32 (← v.member "attempts")
  let runAt ← asU64 (← v.member "run_at")
  let idemKey ← asOption asStr (v.member "idem_key")
  let assignedNodeId ← asOption asStr (v.member "assigned_node_id")
  let leaseEpoch ← asOption asU64 (v.member "lease_epoch")
  let committed ← asDefault asBool false (v.member "committed")
  let error ← asOption asStr (v.member "error")
  let updatedAt ← asDefault asU64 0 (v.member "updated_at")
  let createdAt ← asDefault asU64 0 (v.member "created_at")
  let completedAt ← asDefault asU64 0 (v.member "completed_at")
  let result ← asOption asStr (v.member "result")
  return { id, payload, status, attempts, runAt, idemKey, assignedNodeId, leaseEpoch, committed
           error, updatedAt, createdAt, completedAt, result }

theorem TaskRecord.ofValue_toValue (r : TaskRecord) : ofValue r.toValue = some r := by
  obtain ⟨id, payload, status, attempts, runAt, idemKey, assignedNodeId, leaseEpoch, committed,
    error, updatedAt, createdAt, completedAt, result⟩ := r
  cases result <;> simp [ofValue, toValue, member, optionalMember, asDefault, List.lookup_cons]

@[simp] theorem TaskRecord.asOption_toValue (r : TaskRecord) :
    asOption ofValue (some r.toValue) = some (some r) :=
  congrArg (Option.map some) r.ofValue_toValue

/-- How a record is written and read. -/
def TaskRecord.shape : Shape TaskRecord := ⟨toValue, ofValue, ofValue_toValue⟩

/-- The JSON object of a worker lease. -/
def WorkerLeaseRecord.toValue (l : WorkerLeaseRecord) : Value :=
  obj [("node_id", str l.nodeId), ("worker_name", str l.workerName),
    ("lease_epoch", num l.leaseEpoch.toNat), ("expires_at", num l.expiresAt.toNat)]

/-- Reads a lease. -/
def WorkerLeaseRecord.ofValue (v : Value) : Option WorkerLeaseRecord := do
  let nodeId ← (← v.member "node_id").asStr
  let workerName ← (← v.member "worker_name").asStr
  let leaseEpoch ← asU64 (← v.member "lease_epoch")
  let expiresAt ← asU64 (← v.member "expires_at")
  return { nodeId, workerName, leaseEpoch, expiresAt }

theorem WorkerLeaseRecord.ofValue_toValue (l : WorkerLeaseRecord) :
    ofValue l.toValue = some l := by
  simp [ofValue, toValue, member, List.lookup_cons]

/-- How a lease is written and read. -/
def WorkerLeaseRecord.shape : Shape WorkerLeaseRecord := ⟨toValue, ofValue, ofValue_toValue⟩

/-- The JSON object of a command result. -/
def TaskOpResult.toValue (r : TaskOpResult) : Value :=
  obj (("ok", bool r.ok) :: (optionalMember "id" (r.id.map str) ++
    optionalMember "deduplicated" (r.deduplicated.map bool) ++
    optionalMember "record" (r.record.map TaskRecord.toValue) ++
    optionalMember "reason" (r.reason.map str)))

/-- Reads a result. -/
def TaskOpResult.ofValue (v : Value) : Option TaskOpResult := do
  let ok ← (← v.member "ok").asBool
  let id ← asOption asStr (v.member "id")
  let deduplicated ← asOption asBool (v.member "deduplicated")
  let record ← asOption TaskRecord.ofValue (v.member "record")
  let reason ← asOption asStr (v.member "reason")
  return { ok, id, deduplicated, record, reason }

theorem TaskOpResult.ofValue_toValue (r : TaskOpResult) : ofValue r.toValue = some r := by
  obtain ⟨ok, id, deduplicated, record, reason⟩ := r
  cases id <;> cases deduplicated <;> cases record <;> cases reason <;>
    simp [ofValue, toValue, member, optionalMember, List.lookup_cons]

/-- How a result is written and read. -/
def TaskOpResult.shape : Shape TaskOpResult := ⟨toValue, ofValue, ofValue_toValue⟩

/-! ### Debug texts -/

/-- The `{:?}` text of a character: quotation marks, backslashes and control characters escaped. -/
def debugChar (c : Char) : List Char :=
  if c = quote ∨ c = backslash then [backslash, c]
  else if c = '\n' then [backslash, 'n']
  else if c = '\r' then [backslash, 'r']
  else if c = '\t' then [backslash, 't']
  else if c = Char.ofNat 0 then [backslash, '0']
  else if c.toNat < 32 ∨ c.toNat = 127 then
    [backslash, 'u', '\x7b'] ++ Nat.toDigits 16 c.toNat ++ ['\x7d']
  else [c]

/-- The `{:?}` text of a string. -/
def debugStr (s : String) : String :=
  String.ofList (quote :: (s.toList.flatMap debugChar ++ [quote]))

/-- The text forms of the task domain. -/
def jsonForms : TextForms where
  taskRecord := Serde.ofShape TaskRecord.shape
  workerLease := Serde.ofShape WorkerLeaseRecord.shape
  taskOpResult := Serde.ofShape TaskOpResult.shape
  debugStr := debugStr

example : jsonForms.workerLease.toStr ⟨"n1", "w", 7, 90⟩ =
    "\x7b\"node_id\":\"n1\",\"worker_name\":\"w\",\"lease_epoch\":7,\"expires_at\":90\x7d" := by
  decide +kernel

end RustExample.OpenraftCluster
