import Mathlib.Data.Finset.Card
import RustExample.Foundation.Fence
import RustExample.Foundation.KeyStore

/-!
# The membership of a raft group

The voters and the nodes of a raft group, what its leader reads of them, and the calls by which the
membership guard and the request handlers change them.

Source: the handles of `openraft` that `src/membership_guard.rs`,
`src/network/openraft_dispatcher.rs` and `src/http/membership.rs` call.

* Errors of raft are their texts, and times are natural numbers.
* A change of the membership is one call. A call that fails may have been carried out, or have left
  the group in the joint membership of the old and the new voters.
* The polls that wait for a learner to catch up are one call.
* The membership is changed by one leader, which keeps the fence of the group.
-/

namespace RustExample.OpenraftCluster

/-- The id of a node. -/
abbrev NodeId := String

/-- The voters of a group, and the addresses of its voters and learners. -/
structure Membership where
  voters : Finset NodeId
  nodes : KeyStore NodeId String

namespace Membership

/-- All members. -/
def nodeIds (m : Membership) : List NodeId := m.nodes.toList.map Prod.fst

/-- The members that are no voters. -/
def learnerIds (m : Membership) : List NodeId := m.nodeIds.filter fun id => id ∉ m.voters

/-- The address of a member. -/
def getNode (m : Membership) (id : NodeId) : Option String := m.nodes[id]?

end Membership

/-- What a node reads of its group; `heartbeat` lists how long ago each member has acknowledged. -/
structure RaftMetrics where
  id : NodeId
  isLeader : Bool
  currentLeader : Option NodeId
  membership : Membership
  heartbeat : Option (List (NodeId × Option ℕ))

/-- The address of the current leader. -/
def RaftMetrics.leaderAddr (metrics : RaftMetrics) : Option String :=
  metrics.currentLeader.bind metrics.membership.getNode

/-! ### Requests of other nodes -/

/-- The request for a learner. -/
structure AddLearnerRequest where
  nodeId : NodeId
  addr : String

/-- Its answer. -/
structure AddLearnerRpcResponse where
  ok : Bool
  leaderId : Option NodeId
  leaderAddr : Option String
  error : Option String

/-- The answer to a request that was sent on to the leader. -/
inductive ForwardedResponse where
  | addLearner (response : AddLearnerRpcResponse)
  | error (message : String)
  | other (response : String)
  | failed (err : String)

/-! ### Calls -/

/-- The calls of openraft. -/
inductive RaftCall where
  | metrics
  | addLearner (nodeId : NodeId) (addr : String)
  | changeMembership (voters : Finset NodeId)
  | removeNodes (nodes : Finset NodeId)
  | waitForMember (nodeId : NodeId) (minMatchedIndex timeoutMs : ℕ)
  | forwardAddLearner (leaderId : NodeId) (leaderAddr : Option String) (req : AddLearnerRequest)

/-- What a call returns. -/
abbrev RaftCall.Result : RaftCall → Type
  | .metrics => RaftMetrics
  | .addLearner _ _ => Except String ℕ
  | .changeMembership _ | .removeNodes _ | .waitForMember _ _ _ => Except String Unit
  | .forwardAddLearner _ _ _ => ForwardedResponse

/-- What the calls of `openraft` may do. Adding a learner and removing a node leave the voters; a
voter is not removed. A successful change makes the voters the given ones. -/
structure RaftGroup where
  addLearner : Membership → NodeId → String → Except String ℕ → Membership → Prop
  changeMembership : Membership → Finset NodeId → Except String Unit → Membership → Prop
  removeNodes : Membership → Finset NodeId → Except String Unit → Membership → Prop
  voters_addLearner {m m' : Membership} {id : NodeId} {addr : String} {res : Except String ℕ} :
    addLearner m id addr res m' → m'.voters = m.voters
  voters_removeNodes {m m' : Membership} {ids : Finset NodeId} {res : Except String Unit} :
    removeNodes m ids res m' → m'.voters = m.voters
  voters_changeMembership {m m' : Membership} {voters : Finset NodeId} :
    changeMembership m voters (.ok ()) m' → m'.voters = voters
  voters_changeMembership_error {m m' : Membership} {voters : Finset NodeId} {err : String} :
    changeMembership m voters (.error err) m' →
      m'.voters = m.voters ∨ m'.voters = m.voters ∪ voters ∨ m'.voters = voters

/-- What a call answers, and what it makes of the membership. -/
def RaftGroup.Exec (raft : RaftGroup) (m : Membership) :
    (call : RaftCall) → call.Result → Membership → Prop
  | .metrics, res, m' => res.membership = m ∧ m' = m
  | .addLearner id addr, res, m' => raft.addLearner m id addr res m'
  | .changeMembership voters, res, m' => raft.changeMembership m voters res m'
  | .removeNodes ids, res, m' => raft.removeNodes m ids res m'
  | .waitForMember _ _ _, _, m' | .forwardAddLearner _ _ _, _, m' => m' = m

/-- The calls that leave the voters as they are. -/
def RaftCall.KeepsVoters : RaftCall → Prop
  | .changeMembership _ => False
  | .metrics | .addLearner _ _ | .removeNodes _ | .waitForMember _ _ _
  | .forwardAddLearner _ _ _ => True

theorem RaftGroup.Exec.voters_eq {raft : RaftGroup} {m m' : Membership} {call : RaftCall}
    {res : call.Result} (hcall : call.KeepsVoters) (h : raft.Exec m call res m') :
    m'.voters = m.voters := by
  cases call with
  | metrics => rw [h.2]
  | addLearner id addr => exact raft.voters_addLearner h
  | changeMembership voters => exact hcall.elim
  | removeNodes ids => exact raft.voters_removeNodes h
  | waitForMember id index timeout => exact congrArg Membership.voters h
  | forwardAddLearner leaderId leaderAddr req => exact congrArg Membership.voters h

end RustExample.OpenraftCluster
