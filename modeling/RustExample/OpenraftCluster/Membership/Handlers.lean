import Mathlib.Data.List.Sort
import RustExample.OpenraftCluster.Membership.Group

/-!
# Who changes the membership

The membership guard and the request handlers of a leader, as programs of calls to raft that share
the membership fence of the group. The handlers take the fence before they read the membership; a
tick of the guard reads the membership, looks for a dead member, and takes the fence to act on what
it has read.

Source: `src/membership_guard.rs`, `src/network/openraft_dispatcher.rs`, `src/http/membership.rs`.

* A tick of the guard is given what it observes beside the metrics: the time, the timeouts, who is
  alive and the nodes it knows.
* The requests over HTTP are those for one group; their nodes are known to the network.
-/

namespace RustExample.OpenraftCluster

/-! ### Requests and answers -/

/-- The request to join. -/
structure JoinClusterRequest where
  nodeId : NodeId
  addr : String
  maxVoters : ℕ
  catchUpTimeoutMs : ℕ

/-- Its answer. -/
structure JoinClusterResponse where
  ok : Bool
  joined : Bool
  alreadyMember : Bool
  voterCount : ℕ
  maxVoters : ℕ
  leaderId : Option NodeId
  leaderAddr : Option String
  error : Option String

/-- The answer to a request to add a member over HTTP. -/
structure AddMemberResponse where
  groupId : String
  ok : Bool
  beforeVoters : Finset NodeId
  afterVoters : Finset NodeId
  leaderId : Option NodeId
  learnerAdded : Bool
  promoted : Bool
  error : Option String

/-- The answer to a request to remove or replace a member over HTTP. -/
structure ChangeMemberResponse where
  groupId : String
  ok : Bool
  beforeVoters : Finset NodeId
  afterVoters : Finset NodeId
  leaderId : Option NodeId
  error : Option String

/-- How a program ends. A tick of the guard leaves since when members are down. -/
inductive MembershipAnswer where
  | guard (downSince : List (NodeId × ℕ))
  | error (message : String)
  | joinCluster (response : JoinClusterResponse)
  | addLearner (response : AddLearnerRpcResponse)
  | addMember (response : AddMemberResponse)
  | removeMember (response : ChangeMemberResponse)
  | replaceMember (response : ChangeMemberResponse)

/-- A program under the fence. -/
abbrev MembershipProgram := FencedProgram RaftCall RaftCall.Result MembershipAnswer

/-! ### The guard -/

/-- What a tick observes beside the metrics; `aliveLater` tells who is alive when it acts. -/
structure GuardTick where
  downSince : List (NodeId × ℕ)
  now : ℕ
  voterReplaceTimeout : ℕ
  ackTimeout : ℕ
  alive : NodeId → Bool
  aliveLater : NodeId → Bool
  knownNodes : List (NodeId × String)

/-- The members whose last acknowledgement is recent. -/
def freshRaftAcks (metrics : RaftMetrics) (ackTimeout : ℕ) : List NodeId :=
  match metrics.heartbeat with
  | none => []
  | some heartbeat =>
    (heartbeat.filter fun p => p.2.any fun elapsed => elapsed < ackTimeout).map Prod.fst

namespace GuardTick

/-- A member is down from the first tick on which neither the network nor raft has heard of it. -/
def trackMember (tick : GuardTick) (metrics : RaftMetrics) (downSince : List (NodeId × ℕ))
    (member : NodeId) : List (NodeId × ℕ) :=
  if member = metrics.id then downSince
  else if tick.alive member || (freshRaftAcks metrics tick.ackTimeout).contains member then
    downSince.filter fun p => p.1 ≠ member
  else if downSince.any fun p => p.1 = member then downSince
  else downSince ++ [(member, tick.now)]

/-- Since when the members are down. -/
def trackDown (tick : GuardTick) (metrics : RaftMetrics) : List (NodeId × ℕ) :=
  let memberIds := metrics.membership.nodeIds
  (memberIds.foldl (tick.trackMember metrics) tick.downSince).filter fun p =>
    memberIds.contains p.1 && p.1 ≠ metrics.id

/-- The member that is down for longest, if it is down for longer than the timeout. -/
def pickExpired (tick : GuardTick) (downSince : List (NodeId × ℕ)) : Option (NodeId × ℕ) :=
  let expired := (downSince.map fun p => (p.1, tick.now - p.2)).filter fun p =>
    tick.voterReplaceTimeout ≤ p.2
  expired.foldl (fun longest p =>
    match longest with
    | some q => if q.2 ≤ p.2 then some p else some q
    | none => some p) none

/-- The member that the tick acts on. -/
def deadMember (tick : GuardTick) (metrics : RaftMetrics) : Option NodeId :=
  (tick.pickExpired (tick.trackDown metrics)).map Prod.fst

end GuardTick

/-- The first learner that is alive and acknowledges, or else the first one that is alive. -/
def pickPromotableLearner (alive : NodeId → Bool) (raftAckFresh : List NodeId) :
    List NodeId → Option NodeId → Option NodeId
  | [], connectedOnly => connectedOnly
  | learner :: learners, connectedOnly =>
    if !alive learner then pickPromotableLearner alive raftAckFresh learners connectedOnly
    else if raftAckFresh.contains learner then some learner
    else pickPromotableLearner alive raftAckFresh learners (connectedOnly.or (some learner))

/-- The first node by its id that is alive and no member. -/
def pickSpareWorker (tick : GuardTick) (memberIds : List NodeId) (deadMember : NodeId) :
    Option (NodeId × String) :=
  let candidates := tick.knownNodes.filter fun p =>
    !(memberIds.contains p.1 || p.1 = deadMember) && tick.aliveLater p.1
  (candidates.insertionSort fun p q => p.1 ≤ q.1).head?

/-- Adds a spare worker as a learner. -/
def backfillLearner (tick : GuardTick) (memberIds : List NodeId) (deadMember : NodeId)
    (answer : MembershipAnswer) : MembershipProgram :=
  match pickSpareWorker tick memberIds deadMember with
  | some (nodeId, addr) => .call (.addLearner nodeId addr) fun _ => .done answer
  | none => .done answer

/-- Replace the dead voter by the promoted learner, or remove the dead learner. -/
def executeMembershipChange (tick : GuardTick) (voters : Finset NodeId) (memberIds : List NodeId)
    (deadMember : NodeId) (promoted : Option NodeId) (answer : MembershipAnswer) :
    MembershipProgram :=
  match promoted with
  | some promoted =>
    .call (.changeMembership (insert promoted (voters.erase deadMember))) fun
      | .ok () => backfillLearner tick memberIds deadMember answer
      | .error _ => .done answer
  | none =>
    .call (.removeNodes {deadMember}) fun
      | .ok () => backfillLearner tick memberIds deadMember answer
      | .error _ => .done answer

/-- One tick of the guard. It takes the fence after it has read the membership. -/
def guardTick (tick : GuardTick) : MembershipProgram :=
  .call .metrics fun metrics =>
    if !metrics.isLeader then .done (.guard [])
    else
      let answer := MembershipAnswer.guard (tick.trackDown metrics)
      match tick.deadMember metrics with
      | none => .done answer
      | some deadMember =>
        .tryFence answer <|
          let voters := metrics.membership.voters
          let memberIds := metrics.membership.nodeIds
          if deadMember ∈ voters then
            match pickPromotableLearner tick.aliveLater (freshRaftAcks metrics tick.ackTimeout)
              metrics.membership.learnerIds none with
            | none => .done answer
            | some promoted =>
              executeMembershipChange tick voters memberIds deadMember (some promoted) answer
          else executeMembershipChange tick voters memberIds deadMember none answer

/-! ### Requests of other nodes -/

/-- The answer while another change is on. -/
def changeInProgress : String :=
  "another membership change is in progress for this group; retry later"

/-- Serves a request for a learner. -/
def addLearner (req : AddLearnerRequest) : MembershipProgram :=
  .tryFence (.error changeInProgress) <| .call .metrics fun metrics =>
    let answer (ok : Bool) (error : Option String) : MembershipProgram :=
      .done (.addLearner ⟨ok, metrics.currentLeader, metrics.leaderAddr, error⟩)
    if !metrics.isLeader then
      answer false (some "add_learner must be submitted to the leader node")
    else
      .call (.addLearner req.nodeId req.addr) fun
        | .ok _ => answer true none
        | .error err => answer false (some ("add_learner failed: " ++ err))

/-- Serves a request to join. -/
def joinCluster (req : JoinClusterRequest) : MembershipProgram :=
  .tryFence (.error changeInProgress) <| .call .metrics fun metrics =>
    let beforeVoters := metrics.membership.voters
    let answer (ok joined alreadyMember : Bool) (voterCount : ℕ) (leaderId : Option NodeId)
        (error : Option String) : MembershipProgram :=
      .done (.joinCluster ⟨ok, joined, alreadyMember, voterCount, req.maxVoters, leaderId,
        metrics.leaderAddr, error⟩)
    if !metrics.isLeader then
      answer false false false beforeVoters.card metrics.currentLeader
        (some "membership changes must be submitted to the leader node")
    else if req.nodeId ∈ beforeVoters then
      answer true false true beforeVoters.card metrics.currentLeader none
    else if req.maxVoters ≤ beforeVoters.card then
      answer true false false beforeVoters.card metrics.currentLeader
        (some "openraft control membership is full")
    else
      .call (.addLearner req.nodeId req.addr) fun
        | .error err =>
          answer false false false beforeVoters.card metrics.currentLeader
            (some ("add_learner failed: " ++ err))
        | .ok learnerLogIndex =>
          .call (.waitForMember req.nodeId learnerLogIndex req.catchUpTimeoutMs) fun
            | .error err =>
              .call .metrics fun metrics' =>
                answer false false false metrics'.membership.voters.card metrics'.currentLeader
                  (some err)
            | .ok () =>
              .call .metrics fun metrics' =>
                let voters := insert req.nodeId metrics'.membership.voters
                .call (.changeMembership voters) fun
                  | .ok () => answer true true false voters.card metrics.currentLeader none
                  | .error err =>
                    answer false false false voters.card metrics.currentLeader
                      (some ("change_membership failed: " ++ err))

/-! ### Requests over HTTP -/

/-- That answer for a named group. -/
def groupChangeInProgress (groupId : String) : String :=
  "another membership change is in progress for group " ++ groupId ++ "; retry later"

/-- The answer to an addition that was sent on to the leader of the group. -/
def forwardAddLearnerAnswer (groupId : String) (leaderId : NodeId) (beforeVoters : Finset NodeId)
    (response : ForwardedResponse) : AddMemberResponse :=
  let (ok, learnerAdded, error) :=
    match response with
    | .addLearner resp =>
      if resp.ok then (true, true, none)
      else (false, false, some (resp.error.getD "add_learner forwarding rejected"))
    | .error message => (false, false, some ("forward add_learner to leader failed: " ++ message))
    | .other text => (false, false, some ("unexpected add_learner forwarding response: " ++ text))
    | .failed err => (false, false, some ("forward add_learner to leader failed: " ++ err))
  ⟨groupId, ok, beforeVoters, beforeVoters, some leaderId, learnerAdded, false, error⟩

/-- Adds a member to a group. -/
def addOpenraftMemberToGroup (groupId : String) (targetNodeId : NodeId) (targetAddr : String)
    (promote : Bool) (catchUpTimeoutMs : ℕ) : MembershipProgram :=
  .tryFence (.addMember ⟨groupId, false, ∅, ∅, none, false, false,
    some (groupChangeInProgress groupId)⟩) <| .call .metrics fun metrics =>
    let beforeVoters := metrics.membership.voters
    let answer (ok : Bool) (afterVoters : Finset NodeId) (leaderId : Option NodeId)
        (learnerAdded promoted : Bool) (error : Option String) : MembershipProgram :=
      .done (.addMember ⟨groupId, ok, beforeVoters, afterVoters, leaderId, learnerAdded, promoted,
        error⟩)
    if !metrics.isLeader then
      match promote, metrics.currentLeader with
      | false, some leaderId =>
        .call (.forwardAddLearner leaderId (metrics.membership.getNode leaderId)
          ⟨targetNodeId, targetAddr⟩) fun response =>
            .done (.addMember (forwardAddLearnerAnswer groupId leaderId beforeVoters response))
      | _, _ =>
        answer false beforeVoters metrics.currentLeader false false
          (some "membership changes must be submitted to the leader node")
    else if targetNodeId ∈ beforeVoters then
      answer true beforeVoters metrics.currentLeader false false none
    else
      .call (.addLearner targetNodeId targetAddr) fun
        | .error err =>
          answer false beforeVoters metrics.currentLeader false false
            (some ("add_learner failed: " ++ err))
        | .ok learnerLogIndex =>
          if !promote then
            .call .metrics fun metrics' =>
              answer true metrics'.membership.voters metrics'.currentLeader true false none
          else
            .call (.waitForMember targetNodeId learnerLogIndex catchUpTimeoutMs) fun
              | .error err =>
                .call .metrics fun metrics' =>
                  answer false metrics'.membership.voters metrics'.currentLeader true false
                    (some err)
              | .ok () =>
                .call .metrics fun metrics' =>
                  let voters := insert targetNodeId metrics'.membership.voters
                  .call (.changeMembership voters) fun
                    | .ok () => answer true voters metrics.currentLeader true true none
                    | .error err =>
                      answer false voters metrics.currentLeader true false
                        (some ("change_membership failed: " ++ err))

/-- Removes a member from a group. -/
def removeOpenraftMemberFromGroup (groupId : String) (targetNodeId : NodeId) :
    MembershipProgram :=
  .tryFence (.removeMember ⟨groupId, false, ∅, ∅, none, some (groupChangeInProgress groupId)⟩) <|
    .call .metrics fun metrics =>
      let beforeVoters := metrics.membership.voters
      let remaining := beforeVoters.erase targetNodeId
      let answer (ok : Bool) (afterVoters : Finset NodeId) (error : Option String) :
          MembershipProgram :=
        .done (.removeMember ⟨groupId, ok, beforeVoters, afterVoters, metrics.currentLeader, error⟩)
      if !metrics.isLeader then
        answer false remaining (some "membership changes must be submitted to the leader node")
      else if targetNodeId ∉ beforeVoters then answer true beforeVoters none
      else if remaining = ∅ then
        answer false ∅ (some "refusing to remove the last openraft voter")
      else
        .call (.changeMembership remaining) fun
          | .ok () => answer true remaining none
          | .error err => answer false remaining (some ("change_membership failed: " ++ err))

/-- Replaces a member of a group. -/
def replaceOpenraftMemberInGroup (groupId : String) (oldNodeId newNodeId : NodeId)
    (newAddr : String) (catchUpTimeoutMs : ℕ) : MembershipProgram :=
  .tryFence (.replaceMember ⟨groupId, false, ∅, ∅, none, some (groupChangeInProgress groupId)⟩) <|
    .call .metrics fun metrics =>
      let beforeVoters := metrics.membership.voters
      let answer (ok : Bool) (afterVoters : Finset NodeId) (error : Option String) :
          MembershipProgram :=
        .done (.replaceMember ⟨groupId, ok, beforeVoters, afterVoters, metrics.currentLeader,
          error⟩)
      let fail (error : String) : MembershipProgram := answer false beforeVoters (some error)
      if !metrics.isLeader then fail "membership changes must be submitted to the leader node"
      else if oldNodeId ∉ beforeVoters ∧ newNodeId ∈ beforeVoters then answer true beforeVoters none
      else if oldNodeId ∉ beforeVoters then
        fail ("old node " ++ oldNodeId ++ " is not a voter of group " ++ groupId)
      else
        .call (.addLearner newNodeId newAddr) fun
          | .error err => fail ("add_learner failed: " ++ err)
          | .ok learnerLogIndex =>
            .call (.waitForMember newNodeId learnerLogIndex catchUpTimeoutMs) fun
              | .error err => fail err
              | .ok () =>
                let voters := insert newNodeId (beforeVoters.erase oldNodeId)
                .call (.changeMembership voters) fun
                  | .ok () => answer true voters none
                  | .error err => fail ("change_membership failed: " ++ err)

/-! ### All of them -/

/-- What changes the membership of the group. -/
inductive MembershipRequest where
  | guard (tick : GuardTick)
  | joinCluster (req : JoinClusterRequest)
  | addLearner (req : AddLearnerRequest)
  | addMember (targetNodeId : NodeId) (targetAddr : String) (promote : Bool)
      (catchUpTimeoutMs : ℕ)
  | removeMember (targetNodeId : NodeId)
  | replaceMember (oldNodeId newNodeId : NodeId) (newAddr : String) (catchUpTimeoutMs : ℕ)

/-- The program of a request. -/
def MembershipRequest.program (groupId : String) : MembershipRequest → MembershipProgram
  | .guard tick => guardTick tick
  | .joinCluster req => OpenraftCluster.joinCluster req
  | .addLearner req => OpenraftCluster.addLearner req
  | .addMember node addr promote timeout =>
    addOpenraftMemberToGroup groupId node addr promote timeout
  | .removeMember node => removeOpenraftMemberFromGroup groupId node
  | .replaceMember old new addr timeout =>
    replaceOpenraftMemberInGroup groupId old new addr timeout

end RustExample.OpenraftCluster
