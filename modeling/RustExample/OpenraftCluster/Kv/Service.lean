import RustExample.OpenraftCluster.Tasks.Apply

/-!
# The key-value service

A key-value request at a replica of its group. A request reads the data of the state machine at
most once; it is answered from what it read, or it proposes one write and is answered when raft has
applied it.

Source: `src/network/openraft_dispatcher.rs`, `src/tasks/rpc.rs`.

* A failed linearizable read and a failed write are errors of raft, which the model leaves out.
-/

namespace RustExample.OpenraftCluster

/-! ### Requests and responses -/

/-- The operations. -/
inductive KvRequestOp where
  | get (key : String)
  | set (key value : String)
  | update (key value : String)
  | delete (key : String)
  | listPrefix (keyPrefix : String)
  deriving DecidableEq, Repr

/-- An operation on a group. -/
structure RaftKvRequest where
  groupId : String
  op : Option KvRequestOp

/-- The answers. -/
inductive KvResponseOp where
  | get (found : Bool) (value : String)
  | set (ok : Bool) (value : String)
  | update (ok : Bool) (value : String)
  | delete (ok : Bool)
  | listPrefix (entries : List (String × String))
  | error (message leaderId : String)
  deriving DecidableEq, Repr

/-- The role of a replica in its group. -/
inductive ReplicaRole where
  | leader
  | follower (currentLeader : Option String)

/-- How far a request gets with one read: an answer, or a write with the answer made of the
response. -/
inductive KvProgress where
  | answered (response : KvResponseOp)
  | writing (req : Request) (reply : Response → KvResponseOp)

/-! ### Handlers -/

/-- An answer that tells an error. -/
def kvErrorResponse (message : String) : KvResponseOp := .error message ""

/-- The entries whose key starts with a prefix, in the order of their keys. -/
def KeySpace.entriesWithPrefix (s : KeySpace) (keyPrefix : String) : List (String × String) :=
  (s.toList.dropWhile fun p => compare p.1 keyPrefix = .lt).takeWhile fun p =>
    p.1.startsWith keyPrefix

/-- What a request does with the data it reads at the leader. -/
def KvRequestOp.handle (s : KeySpace) : KvRequestOp → KvProgress
  | .get key =>
    match s[key]? with
    | some value => .answered (.get true value)
    | none => .answered (.get false "")
  | .set key value =>
    .writing (.set key value) fun response => .set true (response.value.getD value)
  | .update key value =>
    if s[key]?.isSome then
      .writing (.set key value) fun response => .update true (response.value.getD value)
    else .answered (.update false "")
  | .delete key =>
    if s[key]?.isSome then .writing (.delete key) fun _ => .delete true
    else .answered (.delete false)
  | .listPrefix keyPrefix => .answered (.listPrefix (s.entriesWithPrefix keyPrefix))

/-- Serves a request. -/
def processKvRequest (role : ReplicaRole) (s : KeySpace) (request : RaftKvRequest) : KvProgress :=
  if request.groupId.isEmpty then .answered (kvErrorResponse "missing group_id")
  else
    match role with
    | .follower none => .answered (kvErrorResponse "no leader available")
    | .follower (some leaderId) => .answered (.error "forward_to_leader" leaderId)
    | .leader =>
      match request.op with
      | none => .answered (kvErrorResponse "missing request op")
      | some op => op.handle s

end RustExample.OpenraftCluster
