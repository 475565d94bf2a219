import RustExample.Foundation.CallProgram
import RustExample.OpenraftCluster.Membership.Changes

/-!
# Joining the control cluster

A node that is no control node asks to become a voter of every raft group. It reads the first group,
and sends a request for one group after the other, following each group to its leader. A watcher
tries again at every tick until an attempt comes to an outcome.

Source: `src/app/membership_join.rs`, `run_control_join_watcher` of `src/app/worker_services.rs`,
`remote_openraft_voters_contain_self` of `src/app/startup.rs`.

* An attempt is a program of calls over the network: it fetches the metrics of a group, or sends a
  request to a node. The addresses of leaders are known to the network, so that the registration of
  a leader is left out.
* The list of the groups is not empty: the group of the tasks is always one of them.
* `left` counts the redirects that may still be followed.
* A request is handled by the leader of its group, as a thread of the group; or a node that is not
  the leader answers it, from its own view; or the call fails, with or without a thread.
* The metrics that an attempt fetches are those of some node, and need not be up to date.
-/

namespace RustExample.OpenraftCluster

/-- The id of a group. -/
abbrev GroupId := String

/-- What the nodes agree on. -/
structure ControlLayout where
  maxControlNodes : ℕ
  groupIds : List GroupId
  groupIds_ne_nil : groupIds ≠ []

/-- The group that is asked first. -/
def ControlLayout.firstGroup (layout : ControlLayout) : GroupId :=
  layout.groupIds.head layout.groupIds_ne_nil

/-- The groups and the node. -/
structure ControlRuntime extends ControlLayout where
  id : NodeId

/-- How an attempt ends. -/
inductive JoinClusterOutcome where
  | joined
  | alreadyMember
  | full
  deriving DecidableEq

/-! ### Calls over the network -/

/-- The calls to other nodes. -/
inductive JoinCall where
  | fetchMetrics (groupId : GroupId)
  | requestJoin (groupTarget : NodeId) (groupId : GroupId) (addr : String) (left : ℕ)

/-- What a call returns. -/
abbrev JoinCall.Result : JoinCall → Type
  | .fetchMetrics _ => Option RaftMetrics
  | .requestJoin _ _ _ _ => Except String MembershipAnswer

/-- The group of a call. -/
def JoinCall.groupId : JoinCall → GroupId
  | .fetchMetrics groupId => groupId
  | .requestJoin _ groupId _ _ => groupId

/-- A program of such calls. -/
abbrev JoinProgram := CallProgram JoinCall JoinCall.Result

/-- The calls so far, with their results. -/
abbrev JoinLog := CallLog JoinCall JoinCall.Result

/-- How often a leader is followed. -/
def controlJoinMaxLeaderRedirects : ℕ := 3

/-- The time limit of a catch-up. -/
def controlJoinCatchUpTimeoutSecs : ℕ := 30

/-- Asks for the metrics of a group. -/
def fetchRemoteGroupMetrics (groupId : GroupId) : JoinProgram (Option RaftMetrics) :=
  .perform (JoinCall.fetchMetrics groupId)

/-- The request that a node sends. -/
def ControlRuntime.joinRequest (runtime : ControlRuntime) (advertiseAddr : String) :
    JoinClusterRequest :=
  ⟨runtime.id, advertiseAddr, runtime.maxControlNodes, controlJoinCatchUpTimeoutSecs * 1000⟩

/-- Asks to join, and follows the leader. -/
def requestJoinControlGroup (groupTarget : NodeId) (groupId : GroupId) (advertiseAddr : String)
    (left : ℕ) : JoinProgram (Except String JoinClusterResponse) := do
  match ← CallProgram.perform (JoinCall.requestJoin groupTarget groupId advertiseAddr left) with
  | .error err => pure (.error err)
  | .ok (.joinCluster response) => pure (.ok response)
  | .ok (.error message) => pure (.error ("join request failed: " ++ message))
  | .ok _ => pure (.error "unexpected join response")

/-! ### An attempt -/

/-- The voters of every group contain the node, as far as the metrics tell. -/
def votersContainSelf (selfId : NodeId) : List GroupId → JoinProgram Bool
  | [] => pure true
  | groupId :: groupIds => do
    match ← fetchRemoteGroupMetrics groupId with
    | none => pure false
    | some metrics =>
      if selfId ∉ metrics.membership.voters then pure false else votersContainSelf selfId groupIds

/-- The node is a voter of every group. -/
def remoteOpenraftVotersContainSelf (selfId : NodeId) (groupIds : List GroupId) :
    JoinProgram Bool :=
  if groupIds.isEmpty then pure false else votersContainSelf selfId groupIds

/-- The leader to which a request is redirected, if it is not known not to lead. -/
def JoinClusterResponse.leaderHint (runtime : ControlRuntime) (groupTarget : NodeId)
    (response : JoinClusterResponse) : Option NodeId :=
  response.leaderId.filter fun leaderId => leaderId ≠ groupTarget && leaderId ≠ runtime.id

/-- What a node makes of a response; `redirect` goes on while redirects may be followed. -/
def followJoinResponse (runtime : ControlRuntime) (groupId : GroupId) (groupTarget : NodeId)
    (redirect : Option (NodeId → JoinProgram (Except String JoinClusterOutcome)))
    (response : JoinClusterResponse) : JoinProgram (Except String JoinClusterOutcome) :=
  if response.alreadyMember then pure (.ok .alreadyMember)
  else if response.joined then pure (.ok .joined)
  else
    match response.leaderHint runtime groupTarget, redirect with
    | some leaderId, some redirect => redirect leaderId
    | _, _ =>
      if response.maxVoters ≤ response.voterCount then pure (.ok .full)
      else
        pure (.error ("join group " ++ groupId ++ " failed: " ++
          response.error.getD "unknown error"))

/-- The requests for one group, until they are not redirected any more. -/
def requestJoinGroup (runtime : ControlRuntime) (groupId : GroupId) (advertiseAddr : String) :
    ℕ → NodeId → JoinProgram (Except String JoinClusterOutcome)
  | 0, groupTarget => do
    match ← requestJoinControlGroup groupTarget groupId advertiseAddr 0 with
    | .error err => pure (.error err)
    | .ok response => followJoinResponse runtime groupId groupTarget none response
  | left + 1, groupTarget => do
    match ← requestJoinControlGroup groupTarget groupId advertiseAddr (left + 1) with
    | .error err => pure (.error err)
    | .ok response =>
      let redirect leaderId := requestJoinGroup runtime groupId advertiseAddr left leaderId
      followJoinResponse runtime groupId groupTarget (some redirect) response

/-- The groups one after the other, from the same node; `joinedAny` tells that one was joined. -/
def requestJoinAllGroups (runtime : ControlRuntime) (targetNode : NodeId)
    (advertiseAddr : String) : List GroupId → Bool →
      JoinProgram (Except String JoinClusterOutcome)
  | [], joinedAny => pure (.ok (if joinedAny then .joined else .alreadyMember))
  | groupId :: groupIds, joinedAny => do
    match ← requestJoinGroup runtime groupId advertiseAddr controlJoinMaxLeaderRedirects
      targetNode with
    | .error err => pure (.error err)
    | .ok .alreadyMember => requestJoinAllGroups runtime targetNode advertiseAddr groupIds joinedAny
    | .ok .joined => requestJoinAllGroups runtime targetNode advertiseAddr groupIds true
    | .ok .full => pure (.ok .full)

/-- The node that the requests of an attempt go to first. -/
def joinTarget (runtime : ControlRuntime) (bootstrapNode : NodeId) (metrics : RaftMetrics) :
    NodeId :=
  match metrics.currentLeader with
  | some leaderId => if leaderId ≠ runtime.id then leaderId else bootstrapNode
  | none => bootstrapNode

/-- Tries one node after the other. -/
def tryJoinControlCluster (runtime : ControlRuntime) (advertiseAddr : String) :
    List NodeId → JoinProgram (Option JoinClusterOutcome)
  | [] => pure none
  | bootstrapNode :: bootstrapNodes =>
    if bootstrapNode = runtime.id then
      tryJoinControlCluster runtime advertiseAddr bootstrapNodes
    else do
      match ← fetchRemoteGroupMetrics runtime.firstGroup with
      | none => tryJoinControlCluster runtime advertiseAddr bootstrapNodes
      | some metrics =>
        let requestJoin : JoinProgram (Option JoinClusterOutcome) := do
          match ← requestJoinAllGroups runtime (joinTarget runtime bootstrapNode metrics)
            advertiseAddr runtime.groupIds false with
          | .ok outcome => pure (some outcome)
          | .error _ => tryJoinControlCluster runtime advertiseAddr bootstrapNodes
        if (metrics.membership.getNode runtime.id).isSome then do
          if ← remoteOpenraftVotersContainSelf runtime.id runtime.groupIds then
            pure (some .alreadyMember)
          else requestJoin
        else if runtime.maxControlNodes ≤ metrics.membership.voters.card then pure (some .full)
        else requestJoin

/-! ### The watchers -/

/-- How the watcher ends. -/
inductive ControlJoinWatchResult where
  | joined
  | alreadyMember
  | full
  | shutdown
  deriving DecidableEq

/-- An attempt: its calls, what it does next, and the thread that handles its request. -/
structure JoinAttempt (ι : Type) where
  log : JoinLog
  program : JoinProgram (Option JoinClusterOutcome)
  request : Option ι

/-- The join watcher of a node: not started, between two ticks, in an attempt, or stopped. -/
inductive JoinWatch (ι : Type) where
  | idle
  | waiting (bootstrapNodes : List NodeId) (advertiseAddr : String)
  | trying (bootstrapNodes : List NodeId) (advertiseAddr : String) (attempt : JoinAttempt ι)
  | stopped (result : ControlJoinWatchResult)

variable {ι : Type}

/-- The watcher at its start. -/
def runControlJoinWatcher (layout : ControlLayout) (bootstrapNodes : List NodeId)
    (advertiseAddr : String) : JoinWatch ι :=
  if bootstrapNodes.isEmpty || layout.maxControlNodes = 0 then .stopped .full
  else .waiting bootstrapNodes advertiseAddr

/-- The result of an outcome. -/
def JoinClusterOutcome.result : JoinClusterOutcome → ControlJoinWatchResult
  | .joined => .joined
  | .alreadyMember => .alreadyMember
  | .full => .full

/-- The watcher goes on with an attempt, or ends it. -/
def JoinWatch.resume (bootstrapNodes : List NodeId) (advertiseAddr : String) (log : JoinLog) :
    JoinProgram (Option JoinClusterOutcome) → JoinWatch ι
  | .done (some outcome) => .stopped outcome.result
  | .done none => .waiting bootstrapNodes advertiseAddr
  | .call call k => .trying bootstrapNodes advertiseAddr ⟨log, .call call k, none⟩

/-- The watcher has been started and has not stopped. -/
def JoinWatch.Active : JoinWatch ι → Prop
  | .waiting _ _ | .trying _ _ _ => True
  | .idle | .stopped _ => False

/-! ### The groups and the watchers -/

/-- The groups, the answers that their threads have sent, and the watchers. -/
structure JoinSystem (ι : Type) where
  groups : GroupId → GroupState ι
  replies : GroupId → ι → Option MembershipAnswer
  watch : NodeId → JoinWatch ι

/-- What may happen. -/
inductive JoinEvent (ι : Type) where
  | start (n : NodeId) (bootstrapNodes : List NodeId) (advertiseAddr : String)
  | tick (n : NodeId)
  | send (n : NodeId) (groupId : GroupId) (i : ι)
  | answer (n : NodeId) (call : JoinCall) (res : call.Result)
  | shutdown (n : NodeId)
  | group (groupId : GroupId) (e : GroupEvent ι)

/-- What a node that is not the leader answers to a request. -/
def RejectedBy (metrics : RaftMetrics) (req : JoinClusterRequest) (answer : MembershipAnswer) :
    Prop :=
  match joinCluster req with
  | .tryFence _ (.call .metrics k) => metrics.isLeader = false ∧ k metrics = .done answer
  | _ => False

namespace JoinSystem

/-- A node's watcher comes to a stage. -/
def setWatch (s : JoinSystem ι) (n : NodeId) (w : JoinWatch ι) : JoinSystem ι :=
  { s with watch := Function.update s.watch n w }

/-- A group comes to a state. -/
def setGroup (s : JoinSystem ι) (groupId : GroupId) (group : GroupState ι) : JoinSystem ι :=
  { s with groups := Function.update s.groups groupId group }

/-- The answer of a thread that has finished is on its way. -/
def record [DecidableEq ι] (s : JoinSystem ι) (groupId : GroupId) :
    GroupEvent ι → JoinSystem ι
  | .finish i _ a =>
    let sent := Function.update (s.replies groupId) i (some a)
    { s with replies := Function.update s.replies groupId sent }
  | .start _ _ | .fence _ _ | .busy _ | .call _ _ _ _ => s

/-- The voters of a group. -/
def voters (s : JoinSystem ι) (groupId : GroupId) : Finset NodeId := (s.groups groupId).obj.voters

/-- No watcher has started, and no thread of a group. -/
def initial (m : GroupId → Membership) : JoinSystem ι :=
  ⟨fun groupId => .initial (m groupId), fun _ _ => none, fun _ => .idle⟩

end JoinSystem

/-- The steps of the watchers and of the groups. -/
inductive JoinStep [DecidableEq ι] (layout : ControlLayout) (raft : RaftGroup)
    (s : JoinSystem ι) : JoinEvent ι → JoinSystem ι → Prop
  | start (n : NodeId) (bootstrapNodes : List NodeId) (advertiseAddr : String)
      (h : s.watch n = .idle) :
      JoinStep layout raft s (.start n bootstrapNodes advertiseAddr)
        (s.setWatch n (runControlJoinWatcher layout bootstrapNodes advertiseAddr))
  | tick (n : NodeId) (bootstrapNodes : List NodeId) (advertiseAddr : String)
      (h : s.watch n = .waiting bootstrapNodes advertiseAddr) :
      JoinStep layout raft s (.tick n) (s.setWatch n (.resume bootstrapNodes advertiseAddr []
        (tryJoinControlCluster ⟨layout, n⟩ advertiseAddr bootstrapNodes)))
  | probe (n : NodeId) (bootstrapNodes : List NodeId) (advertiseAddr : String) (log : JoinLog)
      (groupId : GroupId) (k : Option RaftMetrics → JoinProgram (Option JoinClusterOutcome))
      (res : Option RaftMetrics)
      (h : s.watch n = .trying bootstrapNodes advertiseAddr
        ⟨log, .call (.fetchMetrics groupId) k, none⟩) :
      JoinStep layout raft s (.answer n (.fetchMetrics groupId) res)
        (s.setWatch n (.resume bootstrapNodes advertiseAddr (log ++ [⟨.fetchMetrics groupId, res⟩])
          (k res)))
  | send (n : NodeId) (bootstrapNodes : List NodeId) (advertiseAddr : String) (log : JoinLog)
      (target : NodeId) (groupId : GroupId) (addr : String) (left : ℕ)
      (k : Except String MembershipAnswer → JoinProgram (Option JoinClusterOutcome)) (i : ι)
      (group : GroupState ι)
      (h : s.watch n = .trying bootstrapNodes advertiseAddr
        ⟨log, .call (.requestJoin target groupId addr left) k, none⟩)
      (hstart : GroupStep raft groupId (s.groups groupId)
        (.start i (.joinCluster (ControlRuntime.joinRequest ⟨layout, n⟩ addr))) group) :
      JoinStep layout raft s (.send n groupId i)
        ((s.setGroup groupId group).setWatch n (.trying bootstrapNodes advertiseAddr
          ⟨log, .call (.requestJoin target groupId addr left) k, some i⟩))
  | reply (n : NodeId) (bootstrapNodes : List NodeId) (advertiseAddr : String) (log : JoinLog)
      (target : NodeId) (groupId : GroupId) (addr : String) (left : ℕ)
      (k : Except String MembershipAnswer → JoinProgram (Option JoinClusterOutcome)) (i : ι)
      (answer : MembershipAnswer)
      (h : s.watch n = .trying bootstrapNodes advertiseAddr
        ⟨log, .call (.requestJoin target groupId addr left) k, some i⟩)
      (hreply : s.replies groupId i = some answer) :
      JoinStep layout raft s (.answer n (.requestJoin target groupId addr left) (.ok answer))
        (s.setWatch n (.resume bootstrapNodes advertiseAddr
          (log ++ [⟨.requestJoin target groupId addr left, .ok answer⟩]) (k (.ok answer))))
  | reject (n : NodeId) (bootstrapNodes : List NodeId) (advertiseAddr : String) (log : JoinLog)
      (target : NodeId) (groupId : GroupId) (addr : String) (left : ℕ)
      (k : Except String MembershipAnswer → JoinProgram (Option JoinClusterOutcome))
      (metrics : RaftMetrics) (answer : MembershipAnswer)
      (h : s.watch n = .trying bootstrapNodes advertiseAddr
        ⟨log, .call (.requestJoin target groupId addr left) k, none⟩)
      (hreject : RejectedBy metrics (ControlRuntime.joinRequest ⟨layout, n⟩ addr) answer) :
      JoinStep layout raft s (.answer n (.requestJoin target groupId addr left) (.ok answer))
        (s.setWatch n (.resume bootstrapNodes advertiseAddr
          (log ++ [⟨.requestJoin target groupId addr left, .ok answer⟩]) (k (.ok answer))))
  | fail (n : NodeId) (bootstrapNodes : List NodeId) (advertiseAddr : String) (log : JoinLog)
      (target : NodeId) (groupId : GroupId) (addr : String) (left : ℕ)
      (k : Except String MembershipAnswer → JoinProgram (Option JoinClusterOutcome))
      (request : Option ι) (err : String)
      (h : s.watch n = .trying bootstrapNodes advertiseAddr
        ⟨log, .call (.requestJoin target groupId addr left) k, request⟩) :
      JoinStep layout raft s (.answer n (.requestJoin target groupId addr left) (.error err))
        (s.setWatch n (.resume bootstrapNodes advertiseAddr
          (log ++ [⟨.requestJoin target groupId addr left, .error err⟩]) (k (.error err))))
  | shutdown (n : NodeId) (h : (s.watch n).Active) :
      JoinStep layout raft s (.shutdown n) (s.setWatch n (.stopped .shutdown))
  | group (groupId : GroupId) (e : GroupEvent ι) (group : GroupState ι)
      (h : GroupStep raft groupId (s.groups groupId) e group)
      (hstart : ∀ i req, e ≠ .start i (.joinCluster req)) :
      JoinStep layout raft s (.group groupId e) ((s.setGroup groupId group).record groupId e)

end RustExample.OpenraftCluster
