import RustExample.OpenraftCluster.Membership.Handlers
import RustExample.OpenraftCluster.Network.Envelope
import RustExample.OpenraftCluster.WasmSync.Manifest

/-!
# The wire codec of the unified RPC protocol

Raft, task, sqlite and wasm messages travel as JSON and kv messages as protobuf, in the envelope
of the kind. Raft snapshots and wasm chunks are taken out of the JSON and travel compressed beside
it. The reader stops at its size limit, so that it may see only the first part of a message.

Source: `src/network/proto_codec.rs`, `src/network/rpc.rs`.

* The JSON texts, the protobuf of kv messages and zstd are parameters with their laws.
* A stream is what arrives of it before it ends.
-/

namespace RustExample.OpenraftCluster

open Protobuf List

/-! ### Messages -/

/-- The messages of raft, the generated code and other services; the codec reads none of them. -/
structure RpcTypes where
  AppendEntriesRequest : Type
  AppendEntriesResponse : Type
  VoteRequest : Type
  VoteResponse : Type
  RocksRequest : Type
  ClientWriteResponse : Type
  Vote : Type
  SnapshotMeta : Type
  SnapshotResponse : Type
  RaftMetrics : Type
  RaftError : Type
  ClientWriteRaftError : Type
  RaftKvRequest : Type
  RaftKvResponse : Type
  SqliteSyncRpcRequestMessage : Type
  SqliteSyncRpcResponseMessage : Type
  TaskRpcRequestMessage : Type
  TaskRpcResponseMessage : Type

/-- The operations of Raft. -/
inductive RaftRpcOp (T : RpcTypes)
  | appendEntries (request : T.AppendEntriesRequest)
  | vote (request : T.VoteRequest)
  | clientWrite (request : T.RocksRequest)
  | getMetrics
  | joinCluster (request : JoinClusterRequest)
  | addLearner (request : AddLearnerRequest)
  | fullSnapshot (vote : T.Vote) (snapshotMeta : T.SnapshotMeta) (data : List UInt8)

/-- An operation on a group. -/
structure RaftRpcRequest (T : RpcTypes) where
  groupId : String
  op : RaftRpcOp T

/-- The answers of Raft. -/
inductive RaftRpcResponse (T : RpcTypes)
  | appendEntries (result : Except T.RaftError T.AppendEntriesResponse)
  | vote (result : Except T.RaftError T.VoteResponse)
  | clientWrite (result : Except T.ClientWriteRaftError T.ClientWriteResponse)
  | getMetrics (metrics : T.RaftMetrics)
  | joinCluster (response : JoinClusterResponse)
  | addLearner (response : AddLearnerRpcResponse)
  | fullSnapshot (result : Except T.RaftError T.SnapshotResponse)
  | error (message : String)

/-- The requests. -/
inductive UnifiedRpcRequest (T : RpcTypes)
  | raft (request : RaftRpcRequest T)
  | kv (request : T.RaftKvRequest)
  | sqliteSync (message : T.SqliteSyncRpcRequestMessage)
  | task (message : T.TaskRpcRequestMessage)
  | wasmSync (request : WasmSyncRequest)

/-- The responses. -/
inductive UnifiedRpcResponse (T : RpcTypes)
  | raft (response : RaftRpcResponse T)
  | kv (response : T.RaftKvResponse)
  | sqliteSync (message : T.SqliteSyncRpcResponseMessage)
  | task (message : T.TaskRpcResponseMessage)
  | wasmSync (response : WasmSyncResponse)

/-! ### Encodings of the parts -/

/-- Why a message is refused: a text, or what is wrong with the envelope. -/
inductive InvalidData
  | message (text : String)
  | envelope (error : DecodeError)

/-- A JSON encoding of a type: what it writes it reads back. -/
structure JsonCodec (α : Type) where
  toVec : α → Except String (List UInt8)
  fromSlice : List UInt8 → Except String α
  lossless : ∀ {a bytes}, toVec a = .ok bytes → fromSlice bytes = .ok a
  bounded : ∀ {a bytes}, toVec a = .ok bytes → bytes.length < maxBufferLen

/-- A protobuf encoding of a type, which cannot fail. -/
structure ProstCodec (α : Type) where
  encodeToVec : α → List UInt8
  decode : List UInt8 → Except String α
  lossless : ∀ a, decode (encodeToVec a) = .ok a
  bounded : ∀ a, (encodeToVec a).length < maxBufferLen

/-- A compression of bytes; a frame is never empty, it starts with a header. -/
structure Zstd where
  encodeAll : List UInt8 → Except String (List UInt8)
  decodeAll : List UInt8 → Except String (List UInt8)
  lossless : ∀ {data frame}, encodeAll data = .ok frame → decodeAll frame = .ok data
  bounded : ∀ {data frame}, encodeAll data = .ok frame → frame.length < maxBufferLen
  frame_ne_nil : ∀ {data frame}, encodeAll data = .ok frame → frame ≠ []

/-- The encodings that the codec of the protocol uses. -/
structure RpcCodecs (T : RpcTypes) where
  zstd : Zstd
  raftRequest : JsonCodec (RaftRpcRequest T)
  raftResponse : JsonCodec (RaftRpcResponse T)
  kvRequest : ProstCodec T.RaftKvRequest
  kvResponse : ProstCodec T.RaftKvResponse
  sqliteSyncRequest : JsonCodec T.SqliteSyncRpcRequestMessage
  sqliteSyncResponse : JsonCodec T.SqliteSyncRpcResponseMessage
  taskRequest : JsonCodec T.TaskRpcRequestMessage
  taskResponse : JsonCodec T.TaskRpcResponseMessage
  wasmSyncRequest : JsonCodec WasmSyncRequest
  wasmSyncResponse : JsonCodec WasmSyncResponse

/-- The error without its text. -/
def invalidData {α : Type} (result : Except String α) : Except InvalidData α :=
  result.mapError .message

theorem invalidData_eq_ok {α : Type} {result : Except String α} {a : α} :
    invalidData result = .ok a ↔ result = .ok a := by
  cases result with
  | error e => simp [invalidData, Except.mapError]
  | ok b => simp [invalidData, Except.mapError]

theorem invalidData_bind {α β : Type} {result : Except String α} {a : α} (h : result = .ok a)
    (f : α → Except InvalidData β) : (invalidData result >>= f) = f a := by
  rw [h]
  rfl

/-! ### Kinds -/

def kindRaft : UInt32 := 1

def kindKv : UInt32 := 2

def kindSqliteSync : UInt32 := 3

def kindTask : UInt32 := 4

def kindWasmSync : UInt32 := 5

/-- The kinds of messages, which the tags on the wire stand for. -/
inductive MessageKind
  | raft
  | kv
  | sqliteSync
  | task
  | wasmSync
deriving DecidableEq, Repr

/-- The number of a kind. -/
def MessageKind.tag : MessageKind → UInt32
  | .raft => kindRaft
  | .kv => kindKv
  | .sqliteSync => kindSqliteSync
  | .task => kindTask
  | .wasmSync => kindWasmSync

theorem MessageKind.tag_inj {k l : MessageKind} (h : k.tag = l.tag) : k = l := by
  revert h
  cases k <;> cases l <;> decide

theorem MessageKind.tag_ne_zero (k : MessageKind) : k.tag ≠ 0 := by
  cases k <;> decide

variable {T : RpcTypes}

/-- The kind of a request. -/
def UnifiedRpcRequest.kind : UnifiedRpcRequest T → MessageKind
  | .raft _ => .raft
  | .kv _ => .kv
  | .sqliteSync _ => .sqliteSync
  | .task _ => .task
  | .wasmSync _ => .wasmSync

/-- The kind of a response. -/
def UnifiedRpcResponse.kind : UnifiedRpcResponse T → MessageKind
  | .raft _ => .raft
  | .kv _ => .kv
  | .sqliteSync _ => .sqliteSync
  | .task _ => .task
  | .wasmSync _ => .wasmSync

/-! ### Writing -/

/-- The snapshot of a request, and the request without it. -/
def RaftRpcRequest.takeSnapshot : RaftRpcRequest T → List UInt8 × RaftRpcRequest T
  | ⟨groupId, .fullSnapshot vote snapshotMeta data⟩ =>
    (data, ⟨groupId, .fullSnapshot vote snapshotMeta []⟩)
  | request => ([], request)

/-- The chunk of a response, and the response without it. -/
def WasmSyncResponse.takeChunk : WasmSyncResponse → List UInt8 × WasmSyncResponse
  | .chunk sha256 index data => (data, .chunk sha256 index [])
  | response => ([], response)

/-- The frame beside the payload; without data there is none. -/
def binaryFrame (zstd : Zstd) (data : List UInt8) : Except InvalidData (List UInt8) :=
  if data.isEmpty then .ok [] else invalidData (zstd.encodeAll data)

/-- An envelope with JSON and nothing beside it. -/
def jsonEnvelope {α : Type} (json : JsonCodec α) (kind : UInt32) (a : α) :
    Except InvalidData ProtoEnvelope := do
  let payload ← invalidData (json.toVec a)
  pure ⟨payload, [], kind⟩

variable (C : RpcCodecs T)

/-- The envelope of a request. -/
def requestEnvelope : UnifiedRpcRequest T → Except InvalidData ProtoEnvelope
  | .raft raft => do
    let binary ← binaryFrame C.zstd raft.takeSnapshot.1
    let payload ← invalidData (C.raftRequest.toVec raft.takeSnapshot.2)
    pure ⟨payload, binary, kindRaft⟩
  | .kv kv => .ok ⟨C.kvRequest.encodeToVec kv, [], kindKv⟩
  | .sqliteSync message => jsonEnvelope C.sqliteSyncRequest kindSqliteSync message
  | .task message => jsonEnvelope C.taskRequest kindTask message
  | .wasmSync message => jsonEnvelope C.wasmSyncRequest kindWasmSync message

/-- The envelope of a response. -/
def responseEnvelope : UnifiedRpcResponse T → Except InvalidData ProtoEnvelope
  | .raft raft => jsonEnvelope C.raftResponse kindRaft raft
  | .kv kv => .ok ⟨C.kvResponse.encodeToVec kv, [], kindKv⟩
  | .sqliteSync message => jsonEnvelope C.sqliteSyncResponse kindSqliteSync message
  | .task message => jsonEnvelope C.taskResponse kindTask message
  | .wasmSync message => do
    let binary ← binaryFrame C.zstd message.takeChunk.1
    let payload ← invalidData (C.wasmSyncResponse.toVec message.takeChunk.2)
    pure ⟨payload, binary, kindWasmSync⟩

/-- Writes a request. -/
def encodeUnifiedRequest (req : UnifiedRpcRequest T) : Except InvalidData (List UInt8) := do
  let envelope ← requestEnvelope C req
  pure envelope.encodeToVec

/-- Writes a response. -/
def encodeUnifiedResponse (resp : UnifiedRpcResponse T) : Except InvalidData (List UInt8) := do
  let envelope ← responseEnvelope C resp
  pure envelope.encodeToVec

/-- The text of a value can be written. -/
def JsonCodec.Encodes {α : Type} (json : JsonCodec α) (a : α) : Prop :=
  ∃ bytes, json.toVec a = .ok bytes

/-- What travels beside the payload can be compressed. -/
def Zstd.Encodes (zstd : Zstd) (data : List UInt8) : Prop :=
  data ≠ [] → ∃ frame, zstd.encodeAll data = .ok frame

/-- The parts of a request can be encoded. -/
def RequestEncodes : UnifiedRpcRequest T → Prop
  | .raft raft =>
    C.zstd.Encodes raft.takeSnapshot.1 ∧ C.raftRequest.Encodes raft.takeSnapshot.2
  | .kv _ => True
  | .sqliteSync message => C.sqliteSyncRequest.Encodes message
  | .task message => C.taskRequest.Encodes message
  | .wasmSync message => C.wasmSyncRequest.Encodes message

/-- The parts of a response can be encoded. -/
def ResponseEncodes : UnifiedRpcResponse T → Prop
  | .raft raft => C.raftResponse.Encodes raft
  | .kv _ => True
  | .sqliteSync message => C.sqliteSyncResponse.Encodes message
  | .task message => C.taskResponse.Encodes message
  | .wasmSync message =>
    C.zstd.Encodes message.takeChunk.1 ∧ C.wasmSyncResponse.Encodes message.takeChunk.2

/-! ### Reading -/

/-- Reattach a frame to the decoded raft request. -/
def attachSnapshotBinary (zstd : Zstd) (request : RaftRpcRequest T) (binary : List UInt8) :
    Except InvalidData (RaftRpcRequest T) :=
  if binary.isEmpty then .ok request
  else
    match request with
    | ⟨groupId, .fullSnapshot vote snapshotMeta _⟩ => do
      let data ← invalidData (zstd.decodeAll binary)
      pure ⟨groupId, .fullSnapshot vote snapshotMeta data⟩
    | _ => .error (.message "binary frame on a non-snapshot raft request")

/-- Reattach a frame to the decoded answer of a wasm peer. -/
def attachChunkBinary (zstd : Zstd) (response : WasmSyncResponse) (binary : List UInt8) :
    Except InvalidData WasmSyncResponse :=
  if binary.isEmpty then .ok response
  else
    match response with
    | .chunk sha256 index _ => do
      let data ← invalidData (zstd.decodeAll binary)
      pure (.chunk sha256 index data)
    | _ => .error (.message "binary frame on a non-chunk wasm sync response")

/-- The request in an envelope. -/
def decodeUnifiedRequest (envelope : ProtoEnvelope) : Except InvalidData (UnifiedRpcRequest T) :=
  if envelope.kind = kindRaft then do
    let request ← invalidData (C.raftRequest.fromSlice envelope.payload)
    let request ← attachSnapshotBinary C.zstd request envelope.binary
    pure (.raft request)
  else if envelope.kind = kindKv then do
    let request ← invalidData (C.kvRequest.decode envelope.payload)
    pure (.kv request)
  else if envelope.kind = kindSqliteSync then do
    let message ← invalidData (C.sqliteSyncRequest.fromSlice envelope.payload)
    pure (.sqliteSync message)
  else if envelope.kind = kindTask then do
    let message ← invalidData (C.taskRequest.fromSlice envelope.payload)
    pure (.task message)
  else if envelope.kind = kindWasmSync then do
    let message ← invalidData (C.wasmSyncRequest.fromSlice envelope.payload)
    pure (.wasmSync message)
  else .error (.message ("unknown rpc request kind: " ++ toString envelope.kind))

/-- The response in an envelope. -/
def decodeUnifiedResponse (envelope : ProtoEnvelope) :
    Except InvalidData (UnifiedRpcResponse T) :=
  if envelope.kind = kindRaft then do
    let response ← invalidData (C.raftResponse.fromSlice envelope.payload)
    pure (.raft response)
  else if envelope.kind = kindKv then do
    let response ← invalidData (C.kvResponse.decode envelope.payload)
    pure (.kv response)
  else if envelope.kind = kindSqliteSync then do
    let message ← invalidData (C.sqliteSyncResponse.fromSlice envelope.payload)
    pure (.sqliteSync message)
  else if envelope.kind = kindTask then do
    let message ← invalidData (C.taskResponse.fromSlice envelope.payload)
    pure (.task message)
  else if envelope.kind = kindWasmSync then do
    let response ← invalidData (C.wasmSyncResponse.fromSlice envelope.payload)
    let response ← attachChunkBinary C.zstd response envelope.binary
    pure (.wasmSync response)
  else .error (.message ("unknown rpc response kind: " ++ toString envelope.kind))

/-- What arrives is read up to the limit, and no further. -/
def readEnvelope (arriving : List UInt8) (limit : UInt64) : Except InvalidData ProtoEnvelope :=
  (ProtoEnvelope.decode (arriving.take limit.toNat)).mapError .envelope

/-- The size limits of a codec. -/
structure UnifiedCodec where
  requestSizeMaximum : UInt64 := 64 * 1024 * 1024
  responseSizeMaximum : UInt64 := 10 * 1024 * 1024

namespace UnifiedCodec

variable (codec : UnifiedCodec)

/-- Reads a request. -/
def readRequest (arriving : List UInt8) : Except InvalidData (UnifiedRpcRequest T) := do
  let envelope ← readEnvelope arriving codec.requestSizeMaximum
  decodeUnifiedRequest C envelope

/-- Reads a response. -/
def readResponse (arriving : List UInt8) : Except InvalidData (UnifiedRpcResponse T) := do
  let envelope ← readEnvelope arriving codec.responseSizeMaximum
  decodeUnifiedResponse C envelope

end UnifiedCodec

/-! ### Parts of a message -/

theorem jsonEnvelope_eq_ok {α : Type} {json : JsonCodec α} {kind : UInt32} {a : α}
    {e : ProtoEnvelope} (h : jsonEnvelope json kind a = .ok e) :
    ∃ payload, json.toVec a = .ok payload ∧ e = ⟨payload, [], kind⟩ := by
  obtain ⟨payload, hpayload, hok⟩ := bind_eq_ok.mp h
  cases hok
  exact ⟨payload, invalidData_eq_ok.mp hpayload, rfl⟩

variable {zstd : Zstd}

theorem binaryFrame_eq_ok {data binary : List UInt8} (h : binaryFrame zstd data = .ok binary) :
    (data = [] ∧ binary = []) ∨ (data ≠ [] ∧ zstd.encodeAll data = .ok binary) := by
  rw [binaryFrame] at h
  split_ifs at h with hdata
  · cases h
    exact .inl ⟨List.isEmpty_iff.mp hdata, rfl⟩
  · exact .inr ⟨fun hnil => hdata (List.isEmpty_iff.mpr hnil), invalidData_eq_ok.mp h⟩

/-- A text that can be written is put in an envelope. -/
theorem exists_jsonEnvelope_iff {α : Type} {json : JsonCodec α} {kind : UInt32} {a : α} :
    (∃ e, jsonEnvelope json kind a = .ok e) ↔ json.Encodes a := by
  constructor
  · rintro ⟨e, he⟩
    obtain ⟨payload, hpayload, -⟩ := jsonEnvelope_eq_ok he
    exact ⟨payload, hpayload⟩
  · rintro ⟨payload, hpayload⟩
    exact ⟨⟨payload, [], kind⟩, invalidData_bind hpayload _⟩

/-- Data that can be compressed is put beside a text that can be written. -/
theorem exists_framed_iff {α : Type} {json : JsonCodec α} {kind : UInt32} {data : List UInt8}
    {a : α} :
    (∃ e, (do
      let binary ← binaryFrame zstd data
      let payload ← invalidData (json.toVec a)
      pure (ProtoEnvelope.mk payload binary kind)) = .ok e) ↔
        zstd.Encodes data ∧ json.Encodes a := by
  constructor
  · rintro ⟨e, he⟩
    obtain ⟨binary, hbinary, he⟩ := bind_eq_ok.mp he
    obtain ⟨payload, hpayload, -⟩ := bind_eq_ok.mp he
    refine ⟨fun hdata => ?_, payload, invalidData_eq_ok.mp hpayload⟩
    rcases binaryFrame_eq_ok hbinary with ⟨hnil, -⟩ | ⟨-, henc⟩
    · exact absurd hnil hdata
    · exact ⟨binary, henc⟩
  · rintro ⟨hzstd, payload, hpayload⟩
    by_cases hdata : data = []
    · subst hdata
      exact ⟨_, invalidData_bind hpayload _⟩
    · obtain ⟨frame, hframe⟩ := hzstd hdata
      have hbinary : binaryFrame zstd data = .ok frame := by
        rw [binaryFrame, if_neg (by simpa using hdata), invalidData_eq_ok.mpr hframe]
      rw [hbinary]
      exact ⟨_, invalidData_bind hpayload _⟩

theorem length_binaryFrame {data binary : List UInt8} (h : binaryFrame zstd data = .ok binary) :
    binary.length < maxBufferLen := by
  rcases binaryFrame_eq_ok h with ⟨-, rfl⟩ | ⟨-, henc⟩
  · exact Nat.two_pow_pos 63
  · exact zstd.bounded henc

theorem Zstd.not_isEmpty (zstd : Zstd) {data frame : List UInt8}
    (h : zstd.encodeAll data = .ok frame) : ¬ frame.isEmpty :=
  fun hnil => zstd.frame_ne_nil h (List.isEmpty_iff.mp hnil)

/-- What is taken out of a request is attached to it again. -/
theorem attachSnapshotBinary_takeSnapshot {request : RaftRpcRequest T} {binary : List UInt8}
    (h : binaryFrame zstd request.takeSnapshot.1 = .ok binary) :
    attachSnapshotBinary zstd request.takeSnapshot.2 binary = .ok request := by
  obtain ⟨groupId, op⟩ := request
  rcases binaryFrame_eq_ok h with ⟨hdata, rfl⟩ | ⟨hdata, henc⟩
  · cases op with
    | fullSnapshot vote snapshotMeta data =>
      cases hdata
      rfl
    | _ => rfl
  · cases op with
    | fullSnapshot vote snapshotMeta data =>
      show attachSnapshotBinary zstd ⟨groupId, .fullSnapshot vote snapshotMeta []⟩ binary = _
      rw [attachSnapshotBinary, if_neg (zstd.not_isEmpty henc), zstd.lossless henc]
      rfl
    | _ => exact absurd rfl hdata

/-- What is taken out of an answer is attached to it again. -/
theorem attachChunkBinary_takeChunk {response : WasmSyncResponse} {binary : List UInt8}
    (h : binaryFrame zstd response.takeChunk.1 = .ok binary) :
    attachChunkBinary zstd response.takeChunk.2 binary = .ok response := by
  rcases binaryFrame_eq_ok h with ⟨hdata, rfl⟩ | ⟨hdata, henc⟩
  · cases response with
    | chunk sha256 index data =>
      cases hdata
      rfl
    | _ => rfl
  · cases response with
    | chunk sha256 index data =>
      show attachChunkBinary zstd (.chunk sha256 index []) binary = _
      rw [attachChunkBinary, if_neg (zstd.not_isEmpty henc), zstd.lossless henc]
      rfl
    | _ => exact absurd rfl hdata

/-! ### Values in envelopes -/

/-- Every value whose parts can be encoded has an envelope, which is read as that value only. -/
structure Travels {α : Type} (toEnvelope : α → Except InvalidData ProtoEnvelope)
    (ofEnvelope : ProtoEnvelope → Except InvalidData α) (encodes : α → Prop)
    (kind : α → MessageKind) : Prop where
  made : ∀ a, (∃ e, toEnvelope a = .ok e) ↔ encodes a
  bounded : ∀ {a e}, toEnvelope a = .ok e → e.Bounded
  back : ∀ {a e}, toEnvelope a = .ok e → ofEnvelope e = .ok a
  kind : ∀ {a e}, ofEnvelope e = .ok a → e.kind = (kind a).tag

variable {C}

theorem bounded_jsonEnvelope {α : Type} {json : JsonCodec α} {kind : UInt32} {a : α}
    {e : ProtoEnvelope} (h : jsonEnvelope json kind a = .ok e) : e.Bounded := by
  obtain ⟨payload, hpayload, rfl⟩ := jsonEnvelope_eq_ok h
  exact ⟨json.bounded hpayload, Nat.two_pow_pos 63⟩

theorem requestEnvelope_raft_eq_ok {raft : RaftRpcRequest T} {e : ProtoEnvelope}
    (h : requestEnvelope C (.raft raft) = .ok e) :
    ∃ binary payload, binaryFrame C.zstd raft.takeSnapshot.1 = .ok binary ∧
      C.raftRequest.toVec raft.takeSnapshot.2 = .ok payload ∧ e = ⟨payload, binary, kindRaft⟩ := by
  obtain ⟨binary, hbinary, h⟩ := bind_eq_ok.mp h
  obtain ⟨payload, hpayload, h⟩ := bind_eq_ok.mp h
  cases h
  exact ⟨binary, payload, hbinary, invalidData_eq_ok.mp hpayload, rfl⟩

theorem responseEnvelope_wasmSync_eq_ok {message : WasmSyncResponse} {e : ProtoEnvelope}
    (h : responseEnvelope C (.wasmSync message) = .ok e) :
    ∃ binary payload, binaryFrame C.zstd message.takeChunk.1 = .ok binary ∧
      C.wasmSyncResponse.toVec message.takeChunk.2 = .ok payload ∧
      e = ⟨payload, binary, kindWasmSync⟩ := by
  obtain ⟨binary, hbinary, h⟩ := bind_eq_ok.mp h
  obtain ⟨payload, hpayload, h⟩ := bind_eq_ok.mp h
  cases h
  exact ⟨binary, payload, hbinary, invalidData_eq_ok.mp hpayload, rfl⟩

theorem bind_pure_eq_ok {α β : Type} {result : Except InvalidData α} {f : α → β} {b : β}
    (h : (result >>= fun a => pure (f a)) = .ok b) : ∃ a, b = f a := by
  obtain ⟨a, -, hok⟩ := bind_eq_ok.mp h
  cases hok
  exact ⟨a, rfl⟩

theorem travels_request (C : RpcCodecs T) :
    Travels (requestEnvelope C) (decodeUnifiedRequest C) (RequestEncodes C)
      UnifiedRpcRequest.kind where
  made a := by
    cases a with
    | raft raft => exact exists_framed_iff
    | kv kv => exact ⟨fun _ => trivial, fun _ => ⟨_, rfl⟩⟩
    | sqliteSync message => exact exists_jsonEnvelope_iff
    | task message => exact exists_jsonEnvelope_iff
    | wasmSync message => exact exists_jsonEnvelope_iff
  bounded {a e} h := by
    cases a with
    | raft raft =>
      obtain ⟨binary, payload, hbinary, hpayload, rfl⟩ := requestEnvelope_raft_eq_ok h
      exact ⟨C.raftRequest.bounded hpayload, length_binaryFrame hbinary⟩
    | kv kv =>
      cases h
      exact ⟨C.kvRequest.bounded kv, Nat.two_pow_pos 63⟩
    | sqliteSync message => exact bounded_jsonEnvelope h
    | task message => exact bounded_jsonEnvelope h
    | wasmSync message => exact bounded_jsonEnvelope h
  back {a e} h := by
    cases a with
    | raft raft =>
      obtain ⟨binary, payload, hbinary, hpayload, rfl⟩ := requestEnvelope_raft_eq_ok h
      have hattach : (attachSnapshotBinary C.zstd raft.takeSnapshot.2 binary >>=
          fun r => pure (UnifiedRpcRequest.raft r)) = .ok (.raft raft) := by
        rw [attachSnapshotBinary_takeSnapshot hbinary]
        rfl
      exact (invalidData_bind (C.raftRequest.lossless hpayload) _).trans hattach
    | kv kv =>
      cases h
      exact invalidData_bind (C.kvRequest.lossless kv) _
    | sqliteSync message =>
      obtain ⟨payload, hpayload, rfl⟩ := jsonEnvelope_eq_ok h
      exact invalidData_bind (C.sqliteSyncRequest.lossless hpayload) _
    | task message =>
      obtain ⟨payload, hpayload, rfl⟩ := jsonEnvelope_eq_ok h
      exact invalidData_bind (C.taskRequest.lossless hpayload) _
    | wasmSync message =>
      obtain ⟨payload, hpayload, rfl⟩ := jsonEnvelope_eq_ok h
      exact invalidData_bind (C.wasmSyncRequest.lossless hpayload) _
  kind {a e} h := by
    rw [decodeUnifiedRequest] at h
    split_ifs at h with h₁ h₂ h₃ h₄ h₅
    · obtain ⟨request, -, h⟩ := bind_eq_ok.mp h
      obtain ⟨request', rfl⟩ := bind_pure_eq_ok h
      exact h₁
    · obtain ⟨request, rfl⟩ := bind_pure_eq_ok h
      exact h₂
    · obtain ⟨message, rfl⟩ := bind_pure_eq_ok h
      exact h₃
    · obtain ⟨message, rfl⟩ := bind_pure_eq_ok h
      exact h₄
    · obtain ⟨message, rfl⟩ := bind_pure_eq_ok h
      exact h₅

theorem travels_response (C : RpcCodecs T) :
    Travels (responseEnvelope C) (decodeUnifiedResponse C) (ResponseEncodes C)
      UnifiedRpcResponse.kind where
  made a := by
    cases a with
    | raft raft => exact exists_jsonEnvelope_iff
    | kv kv => exact ⟨fun _ => trivial, fun _ => ⟨_, rfl⟩⟩
    | sqliteSync message => exact exists_jsonEnvelope_iff
    | task message => exact exists_jsonEnvelope_iff
    | wasmSync message => exact exists_framed_iff
  bounded {a e} h := by
    cases a with
    | raft raft => exact bounded_jsonEnvelope h
    | kv kv =>
      cases h
      exact ⟨C.kvResponse.bounded kv, Nat.two_pow_pos 63⟩
    | sqliteSync message => exact bounded_jsonEnvelope h
    | task message => exact bounded_jsonEnvelope h
    | wasmSync message =>
      obtain ⟨binary, payload, hbinary, hpayload, rfl⟩ := responseEnvelope_wasmSync_eq_ok h
      exact ⟨C.wasmSyncResponse.bounded hpayload, length_binaryFrame hbinary⟩
  back {a e} h := by
    cases a with
    | raft raft =>
      obtain ⟨payload, hpayload, rfl⟩ := jsonEnvelope_eq_ok h
      exact invalidData_bind (C.raftResponse.lossless hpayload) _
    | kv kv =>
      cases h
      exact invalidData_bind (C.kvResponse.lossless kv) _
    | sqliteSync message =>
      obtain ⟨payload, hpayload, rfl⟩ := jsonEnvelope_eq_ok h
      exact invalidData_bind (C.sqliteSyncResponse.lossless hpayload) _
    | task message =>
      obtain ⟨payload, hpayload, rfl⟩ := jsonEnvelope_eq_ok h
      exact invalidData_bind (C.taskResponse.lossless hpayload) _
    | wasmSync message =>
      obtain ⟨binary, payload, hbinary, hpayload, rfl⟩ := responseEnvelope_wasmSync_eq_ok h
      have hattach : (attachChunkBinary C.zstd message.takeChunk.2 binary >>=
          fun r => pure (UnifiedRpcResponse.wasmSync r : UnifiedRpcResponse T)) =
            .ok (.wasmSync message) := by
        rw [attachChunkBinary_takeChunk hbinary]
        rfl
      exact (invalidData_bind (C.wasmSyncResponse.lossless hpayload) _).trans hattach
  kind {a e} h := by
    rw [decodeUnifiedResponse] at h
    split_ifs at h with h₁ h₂ h₃ h₄ h₅
    · obtain ⟨response, rfl⟩ := bind_pure_eq_ok h
      exact h₁
    · obtain ⟨response, rfl⟩ := bind_pure_eq_ok h
      exact h₂
    · obtain ⟨message, rfl⟩ := bind_pure_eq_ok h
      exact h₃
    · obtain ⟨message, rfl⟩ := bind_pure_eq_ok h
      exact h₄
    · obtain ⟨response, -, h⟩ := bind_eq_ok.mp h
      obtain ⟨response', rfl⟩ := bind_pure_eq_ok h
      exact h₅

/-! ### Bytes on the wire -/

/-- Every value whose parts can be encoded is written, and read back if it keeps within the limit.
Else it is refused, and no part of it that lacks its end is read. -/
structure ReadsBack {α : Type} (write : α → Except InvalidData (List UInt8))
    (read : List UInt8 → Except InvalidData α) (encodes : α → Prop) (limit : UInt64) : Prop where
  written : ∀ a, (∃ bytes, write a = .ok bytes) ↔ encodes a
  whole : ∀ {a bytes}, write a = .ok bytes → bytes.length ≤ limit.toNat → read bytes = .ok a
  tooLong : ∀ {a bytes}, write a = .ok bytes → limit.toNat < bytes.length →
    ∃ e, read bytes = .error e
  cut : ∀ {a bytes p}, write a = .ok bytes → p <+: bytes → p ≠ bytes → ∃ e, read p = .error e

/-- What is written as a value of some kind is not read as a value of another kind. -/
def KeepsKind {α β : Type} (write : α → Except InvalidData (List UInt8))
    (read : List UInt8 → Except InvalidData β) (kind : α → MessageKind)
    (kind' : β → MessageKind) : Prop :=
  ∀ {a bytes b}, write a = .ok bytes → read bytes = .ok b → kind' b = kind a

section Travels

variable {α β : Type} {toEnvelope : α → Except InvalidData ProtoEnvelope}
  {ofEnvelope : ProtoEnvelope → Except InvalidData α} {encodes : α → Prop}
  {kind : α → MessageKind}

theorem Travels.kind_ne_zero (h : Travels toEnvelope ofEnvelope encodes kind) {a : α}
    {e : ProtoEnvelope} (he : ofEnvelope e = .ok a) : e.kind ≠ 0 := by
  rw [h.kind he]
  exact (kind a).tag_ne_zero

theorem write_eq_ok {a : α} {bytes : List UInt8}
    (h : (toEnvelope a >>= fun e => pure e.encodeToVec) = .ok bytes) :
    ∃ e, toEnvelope a = .ok e ∧ bytes = e.encodeToVec := by
  obtain ⟨e, he, hok⟩ := bind_eq_ok.mp h
  cases hok
  exact ⟨e, he, rfl⟩

variable {arriving : List UInt8}

theorem readEnvelope_eq_ok {limit : UInt64} {e : ProtoEnvelope} :
    readEnvelope arriving limit = .ok e ↔
      ProtoEnvelope.decode (arriving.take limit.toNat) = .ok e := by
  rw [readEnvelope]
  cases ProtoEnvelope.decode (arriving.take limit.toNat) with
  | error err => simp [Except.mapError]
  | ok m => simp [Except.mapError]

/-- An envelope without its kind is not read as a value. -/
theorem Travels.ofEnvelope_of_kind_zero (h : Travels toEnvelope ofEnvelope encodes kind)
    {e : ProtoEnvelope} (hkind : e.kind = 0) : ∃ err, ofEnvelope e = .error err := by
  cases he : ofEnvelope e with
  | error err => exact ⟨err, rfl⟩
  | ok a => exact absurd hkind (h.kind_ne_zero he)

/-- An envelope of which the reader does not see the end is not read as a value. -/
theorem Travels.read_cut (h : Travels toEnvelope ofEnvelope encodes kind) {e : ProtoEnvelope}
    (hbounded : e.Bounded) (hkind : e.kind ≠ 0) {limit : UInt64}
    (hp : arriving.take limit.toNat <+: e.encodeToVec)
    (hne : arriving.take limit.toNat ≠ e.encodeToVec) :
    ∃ err, (readEnvelope arriving limit >>= ofEnvelope) = .error err := by
  rcases ProtoEnvelope.decode_cut hbounded hkind hp hne with ⟨err, herr⟩ | ⟨m, hm, hzero⟩
  · exact ⟨.envelope err, by rw [readEnvelope, herr]; rfl⟩
  · obtain ⟨err, herr⟩ := h.ofEnvelope_of_kind_zero hzero
    exact ⟨err, by rw [readEnvelope_eq_ok.mpr hm, ok_bind, herr]⟩

theorem Travels.readsBack (h : Travels toEnvelope ofEnvelope encodes kind) (limit : UInt64) :
    ReadsBack (fun a => toEnvelope a >>= fun e => pure e.encodeToVec)
      (fun arriving => readEnvelope arriving limit >>= ofEnvelope) encodes limit where
  written a := by
    rw [← h.made a]
    constructor
    · rintro ⟨bytes, hwrite⟩
      obtain ⟨e, he, -⟩ := write_eq_ok hwrite
      exact ⟨e, he⟩
    · rintro ⟨e, he⟩
      exact ⟨e.encodeToVec, by rw [he, ok_bind, pure_eq_ok]⟩
  whole {a bytes} hwrite hlen := by
    obtain ⟨e, he, rfl⟩ := write_eq_ok hwrite
    have hdecode : readEnvelope e.encodeToVec limit = .ok e := by
      rw [readEnvelope_eq_ok, take_of_length_le hlen]
      exact ProtoEnvelope.decode_encodeToVec (h.bounded he) (h.kind_ne_zero (h.back he))
    show (readEnvelope e.encodeToVec limit >>= ofEnvelope) = _
    rw [hdecode, ok_bind, h.back he]
  tooLong {a bytes} hwrite hlen := by
    obtain ⟨e, he, rfl⟩ := write_eq_ok hwrite
    refine h.read_cut (h.bounded he) (h.kind_ne_zero (h.back he)) (List.take_prefix _ _) ?_
    intro heq
    have hlen' := congrArg List.length heq
    rw [length_take] at hlen'
    omega
  cut {a bytes p} hwrite hp hne := by
    obtain ⟨e, he, rfl⟩ := write_eq_ok hwrite
    refine h.read_cut (h.bounded he) (h.kind_ne_zero (h.back he))
      ((List.take_prefix _ p).trans hp) ?_
    intro heq
    have htake := List.take_prefix limit.toNat p
    rw [heq] at htake
    exact hne (hp.eq_of_length_le htake.length_le)

/-- Whatever reader gets the bytes of a value, it finds a value of the same kind or none. -/
theorem Travels.keepsKind (h : Travels toEnvelope ofEnvelope encodes kind)
    {toEnvelope' : β → Except InvalidData ProtoEnvelope}
    {ofEnvelope' : ProtoEnvelope → Except InvalidData β} {encodes' : β → Prop}
    {kind' : β → MessageKind} (h' : Travels toEnvelope' ofEnvelope' encodes' kind')
    (limit : UInt64) :
    KeepsKind (fun a => toEnvelope a >>= fun e => pure e.encodeToVec)
      (fun arriving => readEnvelope arriving limit >>= ofEnvelope') kind kind' := by
  intro a bytes b hwrite hread
  obtain ⟨e, he, rfl⟩ := write_eq_ok hwrite
  have hne := h.kind_ne_zero (h.back he)
  by_cases hcut : e.encodeToVec.take limit.toNat = e.encodeToVec
  · obtain ⟨m, hm, hb⟩ := bind_eq_ok.mp hread
    rw [readEnvelope_eq_ok, hcut,
      ProtoEnvelope.decode_encodeToVec (h.bounded he) hne] at hm
    cases hm
    have htag : (kind' b).tag = (kind a).tag := by rw [← h'.kind hb, h.kind (h.back he)]
    exact MessageKind.tag_inj htag
  · obtain ⟨err, herr⟩ := h'.read_cut (h.bounded he) hne (List.take_prefix _ _) hcut
    exact absurd (hread.symm.trans herr) (by simp)

end Travels

/-! ### Frames -/

/-- A frame beside a request is read as the snapshot of that request, or the request is refused. -/
theorem attachSnapshotBinary_eq_ok {request request' : RaftRpcRequest T} {binary : List UInt8}
    (hbinary : binary ≠ []) (h : attachSnapshotBinary zstd request binary = .ok request') :
    ∃ groupId vote snapshotMeta data, request' = ⟨groupId, .fullSnapshot vote snapshotMeta data⟩ ∧
      zstd.decodeAll binary = .ok data := by
  have hframe : ¬ binary.isEmpty := fun hnil => hbinary (List.isEmpty_iff.mp hnil)
  obtain ⟨groupId, op⟩ := request
  unfold attachSnapshotBinary at h
  rw [if_neg hframe] at h
  cases op with
  | fullSnapshot vote snapshotMeta old =>
    obtain ⟨data, hdata, h⟩ := bind_eq_ok.mp h
    cases h
    exact ⟨groupId, vote, snapshotMeta, data, rfl, invalidData_eq_ok.mp hdata⟩
  | _ => cases h

/-- A frame beside an answer is read as its chunk, or the answer is refused. -/
theorem attachChunkBinary_eq_ok {response response' : WasmSyncResponse} {binary : List UInt8}
    (hbinary : binary ≠ []) (h : attachChunkBinary zstd response binary = .ok response') :
    ∃ sha256 index data, response' = .chunk sha256 index data ∧
      zstd.decodeAll binary = .ok data := by
  have hframe : ¬ binary.isEmpty := fun hnil => hbinary (List.isEmpty_iff.mp hnil)
  unfold attachChunkBinary at h
  rw [if_neg hframe] at h
  cases response with
  | chunk sha256 index old =>
    obtain ⟨data, hdata, h⟩ := bind_eq_ok.mp h
    cases h
    exact ⟨sha256, index, data, rfl, invalidData_eq_ok.mp hdata⟩
  | _ => cases h

theorem decodeUnifiedRequest_frame {e : ProtoEnvelope} {request : RaftRpcRequest T}
    (hbinary : e.binary ≠ []) (h : decodeUnifiedRequest C e = .ok (.raft request)) :
    ∃ groupId vote snapshotMeta data, request = ⟨groupId, .fullSnapshot vote snapshotMeta data⟩ ∧
      C.zstd.decodeAll e.binary = .ok data := by
  have hkind : e.kind = kindRaft := (travels_request C).kind h
  rw [decodeUnifiedRequest, if_pos hkind] at h
  obtain ⟨plain, -, h⟩ := bind_eq_ok.mp h
  obtain ⟨request', hattach, h⟩ := bind_eq_ok.mp h
  cases h
  exact attachSnapshotBinary_eq_ok hbinary hattach

theorem decodeUnifiedResponse_frame {e : ProtoEnvelope} {response : WasmSyncResponse}
    (hbinary : e.binary ≠ []) (h : decodeUnifiedResponse C e = .ok (.wasmSync response)) :
    ∃ sha256 index data, response = .chunk sha256 index data ∧
      C.zstd.decodeAll e.binary = .ok data := by
  have hkind : e.kind = kindWasmSync := (travels_response C).kind h
  rw [decodeUnifiedResponse, hkind, if_neg (show kindWasmSync ≠ kindRaft by decide),
    if_neg (show kindWasmSync ≠ kindKv by decide),
    if_neg (show kindWasmSync ≠ kindSqliteSync by decide),
    if_neg (show kindWasmSync ≠ kindTask by decide), if_pos rfl] at h
  obtain ⟨plain, -, h⟩ := bind_eq_ok.mp h
  obtain ⟨response', hattach, h⟩ := bind_eq_ok.mp h
  cases h
  exact attachChunkBinary_eq_ok hbinary hattach

/-! ### The codec -/

/-- **Requests and responses are written and read back.** The encoder refuses a value only if one of
its parts cannot be encoded; what it writes is read back, and never from a part that lacks the end.
A reader finds a value of the kind that was written or none. A frame beside the payload is read as a
raft snapshot or a wasm chunk only. -/
theorem unifiedCodec_faithful (C : RpcCodecs T) (codec : UnifiedCodec) :
    ReadsBack (encodeUnifiedRequest C) (codec.readRequest C) (RequestEncodes C)
      codec.requestSizeMaximum ∧
    ReadsBack (encodeUnifiedResponse C) (codec.readResponse C) (ResponseEncodes C)
      codec.responseSizeMaximum ∧
    KeepsKind (encodeUnifiedRequest C) (codec.readRequest C) UnifiedRpcRequest.kind
      UnifiedRpcRequest.kind ∧
    KeepsKind (encodeUnifiedRequest C) (codec.readResponse C) UnifiedRpcRequest.kind
      UnifiedRpcResponse.kind ∧
    KeepsKind (encodeUnifiedResponse C) (codec.readRequest C) UnifiedRpcResponse.kind
      UnifiedRpcRequest.kind ∧
    KeepsKind (encodeUnifiedResponse C) (codec.readResponse C) UnifiedRpcResponse.kind
      UnifiedRpcResponse.kind ∧
    (∀ {e : ProtoEnvelope} {request : RaftRpcRequest T}, e.binary ≠ [] →
      decodeUnifiedRequest C e = .ok (.raft request) →
        ∃ groupId vote snapshotMeta data,
          request = ⟨groupId, .fullSnapshot vote snapshotMeta data⟩ ∧
            C.zstd.decodeAll e.binary = .ok data) ∧
    ∀ {e : ProtoEnvelope} {response : WasmSyncResponse}, e.binary ≠ [] →
      decodeUnifiedResponse C e = .ok (.wasmSync response) →
        ∃ sha256 index data, response = .chunk sha256 index data ∧
          C.zstd.decodeAll e.binary = .ok data :=
  ⟨(travels_request C).readsBack _, (travels_response C).readsBack _,
    (travels_request C).keepsKind (travels_request C) _,
    (travels_request C).keepsKind (travels_response C) _,
    (travels_response C).keepsKind (travels_request C) _,
    (travels_response C).keepsKind (travels_response C) _,
    decodeUnifiedRequest_frame, decodeUnifiedResponse_frame⟩

/-! ### A snapshot on the wire -/

/-- The bytes of an ASCII text. -/
def ascii (text : String) : List UInt8 := text.toList.map fun c => UInt8.ofNat c.toNat

/-- An encoding of the values it has a text for. -/
def JsonCodec.ofTexts {α : Type} (toVec : α → Except String (List UInt8))
    (fromSlice : List UInt8 → Except String α)
    (h : ∀ {a bytes}, toVec a = .ok bytes →
      fromSlice bytes = .ok a ∧ bytes.length < maxBufferLen) : JsonCodec α :=
  ⟨toVec, fromSlice, fun ha => (h ha).1, fun ha => (h ha).2⟩

/-- A codec that writes nothing. -/
def JsonCodec.none (α : Type) : JsonCodec α :=
  .ofTexts (fun _ => .error "unsupported") (fun _ => .error "unsupported") fun h => by cases h

/-- A codec of the empty message. -/
def ProstCodec.unit : ProstCodec Unit :=
  ⟨fun _ => [], fun _ => .ok (), fun _ => rfl, fun _ => Nat.two_pow_pos 63⟩

def plainTypes : RpcTypes where
  AppendEntriesRequest := Unit
  AppendEntriesResponse := Unit
  VoteRequest := Unit
  VoteResponse := Unit
  RocksRequest := Unit
  ClientWriteResponse := Unit
  Vote := Unit
  SnapshotMeta := Unit
  SnapshotResponse := Unit
  RaftMetrics := Unit
  RaftError := Unit
  ClientWriteRaftError := Unit
  RaftKvRequest := Unit
  RaftKvResponse := Unit
  SqliteSyncRpcRequestMessage := Unit
  SqliteSyncRpcResponseMessage := Unit
  TaskRpcRequestMessage := Unit
  TaskRpcResponseMessage := Unit

def snapshotText : List UInt8 :=
  ascii ("\x7b\"group_id\":\"g\",\"op\":\x7b\"FullSnapshot\":" ++
    "\x7b\"vote\":null,\"meta\":null,\"data\":[]\x7d\x7d\x7d")

def errorText : List UInt8 := ascii "\x7b\"Error\":\"boom\"\x7d"

/-- The compressed form of the one byte `a`. -/
def frameOfA : List UInt8 := [0x28, 0xB5, 0x2F, 0xFD, 0x00, 0x58, 0x09, 0x00, 0x00, 0x61]

def snapshotCodecs : RpcCodecs plainTypes where
  zstd :=
    { encodeAll := fun data => if data = [0x61] then .ok frameOfA else .error "unsupported"
      decodeAll := fun frame => if frame = frameOfA then .ok [0x61] else .error "unsupported"
      lossless := fun {data frame} h => by
        split_ifs at h with hdata
        cases h
        rw [if_pos rfl, hdata]
      bounded := fun {data frame} h => by
        split_ifs at h with hdata
        cases h
        decide
      frame_ne_nil := fun {data frame} h => by
        split_ifs at h with hdata
        cases h
        decide }
  raftRequest := .ofTexts
    (fun
      | ⟨"g", .fullSnapshot _ _ []⟩ => .ok snapshotText
      | _ => .error "unsupported")
    (fun bytes =>
      if bytes = snapshotText then .ok ⟨"g", .fullSnapshot () () []⟩ else .error "unsupported")
    (fun {a bytes} h => by
      split at h
      · cases h
        exact ⟨if_pos rfl, by decide⟩
      · cases h)
  raftResponse := .ofTexts
    (fun
      | .error "boom" => .ok errorText
      | _ => .error "unsupported")
    (fun bytes => if bytes = errorText then .ok (.error "boom") else .error "unsupported")
    (fun {a bytes} h => by
      split at h
      · cases h
        exact ⟨if_pos rfl, by decide⟩
      · cases h)
  kvRequest := .unit
  kvResponse := .unit
  sqliteSyncRequest := .none _
  sqliteSyncResponse := .none _
  taskRequest := .none _
  taskResponse := .none _
  wasmSyncRequest := .none _
  wasmSyncResponse := .none _

def snapshotRequest : UnifiedRpcRequest plainTypes := .raft ⟨"g", .fullSnapshot () () [0x61]⟩

def errorResponse : UnifiedRpcResponse plainTypes := .raft (.error "boom")

def snapshotBytes : List UInt8 := ProtoEnvelope.encodeToVec ⟨snapshotText, frameOfA, kindRaft⟩

def errorBytes : List UInt8 := ProtoEnvelope.encodeToVec ⟨errorText, [], kindRaft⟩

/-- A snapshot of one byte and an error go over the wire and come back, with the default limits. -/
theorem unifiedCodec_faithful_snapshot :
    (∃ bytes, encodeUnifiedRequest snapshotCodecs snapshotRequest = .ok bytes ∧
      UnifiedCodec.readRequest snapshotCodecs {} bytes = .ok snapshotRequest) ∧
    ∃ bytes, encodeUnifiedResponse snapshotCodecs errorResponse = .ok bytes ∧
      UnifiedCodec.readResponse snapshotCodecs {} bytes = .ok errorResponse := by
  obtain ⟨hrequests, hresponses, -⟩ := unifiedCodec_faithful snapshotCodecs {}
  have hframe : snapshotCodecs.zstd.Encodes [0x61] := fun _ => ⟨frameOfA, rfl⟩
  obtain ⟨bytes, hbytes⟩ := (hrequests.written snapshotRequest).mpr ⟨hframe, snapshotText, rfl⟩
  obtain ⟨bytes', hbytes'⟩ := (hresponses.written errorResponse).mpr ⟨errorText, rfl⟩
  obtain rfl : snapshotBytes = bytes := Except.ok.inj hbytes
  obtain rfl : errorBytes = bytes' := Except.ok.inj hbytes'
  exact ⟨⟨_, hbytes, hrequests.whole hbytes (by decide)⟩,
    ⟨_, hbytes', hresponses.whole hbytes' (by decide)⟩⟩

end RustExample.OpenraftCluster
