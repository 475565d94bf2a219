import RustExample.OpenraftCluster.Membership.Joining

/-!
# Seats, and what an attempt to join learns

A request to join is granted only while the group has a seat free: under the fence of the group,
the voters that it has counted are those that it adds the node to. This needs nothing of the guard,
whose changes may be computed from voters that are no longer in force.

An attempt sends a request for a later group only when it has been shown to be a voter of the first
one. It ends as a member only when it has been shown to be a voter of every group, and as full only
on an answer that tells it that there is no seat. That answer may come from any group.
-/

namespace RustExample.OpenraftCluster

open List

/-- The answer says that the node is a voter. -/
def MembershipAnswer.grants : MembershipAnswer → Bool
  | .joinCluster response => response.joined || response.alreadyMember
  | _ => false

/-- A request to join adds its node to the voters in force, if there are few enough of them. -/
def MembershipRequest.seatPolicy (r : MembershipRequest) :
    FencePolicy RaftCall RaftCall.Result (Finset NodeId) MembershipAnswer where
  fresh _ _ := True
  allowed _ voters call :=
    match r with
    | .joinCluster req =>
      voters.card < req.maxVoters ∧ call = .changeMembership (insert req.nodeId voters)
    | _ => ∃ proposed, call = .changeMembership proposed
  post _ voters answer :=
    match r with
    | .joinCluster req => answer.grants → req.nodeId ∈ voters
    | _ => True

section Programs

variable (raft : RaftGroup) (groupId : String)

/-- The program of a request takes a seat only if one is free. -/
abbrev TakesSeat (r : MembershipRequest) (p : MembershipProgram) : Prop :=
  p.Free raft.Exec Membership.voters RaftCall.KeepsVoters r.seatPolicy []

theorem joinCluster_takesSeat (req : JoinClusterRequest) :
    TakesSeat raft (.joinCluster req) (joinCluster req) := by
  refine ⟨fun _ => nofun, fun voters _ => .inl ⟨trivial, fun m metrics m' hvoters hexec => ?_⟩⟩
  obtain ⟨rfl, rfl⟩ := hexec
  dsimp only
  split_ifs with hleader hmember hfull
  · exact nofun
  · exact fun _ => hvoters ▸ hmember
  · exact nofun
  · refine .inl ⟨trivial, fun _ res _ _ _ => ?_⟩
    cases res with
    | error err => exact nofun
    | ok index =>
      refine .inl ⟨trivial, fun _ res _ _ _ => ?_⟩
      cases res with
      | error err => exact .inl ⟨trivial, fun _ _ _ _ _ => nofun⟩
      | ok _ =>
        refine .inl ⟨trivial, fun m' metrics' _ hvoters' hexec' => ?_⟩
        obtain ⟨rfl, rfl⟩ := hexec'
        have hfree : voters.card < req.maxVoters := hvoters ▸ Nat.lt_of_not_le hfull
        refine .inr ⟨⟨hfree, congrArg (RaftCall.changeMembership <| insert req.nodeId ·)
          hvoters'⟩, fun m res m'' _ hexec => ?_⟩
        cases res with
        | ok _ =>
          exact fun _ => (raft.voters_changeMembership hexec).symm ▸ Finset.mem_insert_self _ _
        | error err => exact nofun

theorem guardTick_takesSeat (tick : GuardTick) : TakesSeat raft (.guard tick) (guardTick tick) := by
  refine ⟨trivial, fun m metrics m' _ => ?_⟩
  dsimp only
  split_ifs
  · exact fun _ => trivial
  · cases tick.deadMember metrics with
    | none => exact fun _ => trivial
    | some dead =>
      refine ⟨fun _ => trivial, fun voters _ => ?_⟩
      split_ifs
      · cases pickPromotableLearner tick.aliveLater (freshRaftAcks metrics tick.ackTimeout)
          metrics.membership.learnerIds none with
        | none => trivial
        | some promoted =>
          refine .inr ⟨⟨_, rfl⟩, fun _ res _ _ _ => ?_⟩
          cases res with
          | ok _ => exact (backfillLearner_spent tick tick _ _ _ _ _).mono fun _ _ _ _ => trivial
          | error err => trivial
      · refine .inl ⟨trivial, fun _ res _ _ _ => ?_⟩
        cases res with
        | ok _ =>
          exact ((backfillLearner_spent tick tick _ _ _ _ _).mono fun _ _ _ _ => trivial).held
        | error err => trivial

/-- Every request takes a seat only if one is free. -/
theorem MembershipRequest.program_takesSeat (r : MembershipRequest) :
    TakesSeat raft r (r.program groupId) := by
  have hfollows : Follows raft r (r.program groupId) := r.program_follows raft groupId
  have hallowed (log : MembershipLog) (v : Finset NodeId) (call : RaftCall)
      (h : r.policy.allowed log v call) : ∃ proposed, call = .changeMembership proposed :=
    h.imp fun _ => And.left
  cases r with
  | guard tick => exact guardTick_takesSeat raft tick
  | joinCluster req => exact joinCluster_takesSeat raft req
  | addLearner req =>
    exact hfollows.mono (fun _ _ _ => trivial) hallowed fun _ _ _ _ => trivial
  | addMember target addr promote timeout =>
    exact hfollows.mono (fun _ _ _ => trivial) hallowed fun _ _ _ _ => trivial
  | removeMember target =>
    exact hfollows.mono (fun _ _ _ => trivial) hallowed fun _ _ _ _ => trivial
  | replaceMember old new addr timeout =>
    exact hfollows.mono (fun _ _ _ => trivial) hallowed fun _ _ _ _ => trivial

end Programs

/-! ### What a step makes of the voters -/

section Steps

variable {ι : Type}

/-- The events keep to the seats. -/
abbrev SeatDisciplined (raft : RaftGroup) (es : List (GroupEvent ι)) (s : GroupState ι) : Prop :=
  FenceSystem.Disciplined raft.Exec Membership.voters RaftCall.KeepsVoters
    MembershipRequest.seatPolicy es s

variable [DecidableEq ι] {raft : RaftGroup} {groupId : String} {es : List (GroupEvent ι)}
  {e : GroupEvent ι} {s s' : GroupState ι}

theorem seatDisciplined_of_run {m : Membership}
    (run : Run (GroupStep raft groupId) (.initial m) es s) : SeatDisciplined raft es s :=
  FenceSystem.disciplined_of_run (fun _ _ _ _ hcall hexec => hexec.voters_eq hcall)
    (MembershipRequest.program_takesSeat raft groupId) <|
    run.imp fun _ e _ h => ⟨h, by cases e <;> first | trivial | exact fun _ _ => trivial⟩

/-- A request to join that changes the voters adds its node, and has found a seat. -/
def Seated (s s' : GroupState ι) (e : GroupEvent ι) (req : JoinClusterRequest) : Prop :=
  (∃ i t, s.stage i = .running t ∧ t.request = .joinCluster req ∧
    ∃ call res, e = .call i (.joinCluster req) call res) ∧
    s.obj.voters.card < req.maxVoters ∧ s'.obj.voters = insert req.nodeId s.obj.voters

/-- **What a step makes of the voters.** -/
theorem voters_cases_of_step (hd : SeatDisciplined raft es s) (h : GroupStep raft groupId s e s') :
    s'.obj.voters = s.obj.voters ∨ (∃ req, Seated s s' e req) ∨
      ∃ i r proposed res, e = .call i r (.changeMembership proposed) res ∧
        (∀ req, r ≠ .joinCluster req) ∧
        (s'.obj.voters = s.obj.voters ∪ proposed ∨ s'.obj.voters = proposed) := by
  cases h with
  | start i r hi => exact .inl rfl
  | fence i r log busy p hi hfree => exact .inl rfl
  | busy i r log busy p hi htaken => exact .inl rfl
  | finish i r log a hi => exact .inl rfl
  | call i r log call k res m hi hexec =>
    by_cases hcall : call.KeepsVoters
    · exact .inl (hexec.voters_eq hcall)
    obtain ⟨-, -, -, -, hallowed⟩ := hd.allowed hi hcall
    have hchange {proposed : Finset NodeId} (hp : call = .changeMembership proposed) :
        m.voters = s.obj.voters ∨ m.voters = s.obj.voters ∪ proposed ∨ m.voters = proposed := by
      subst hp
      cases res with
      | ok _ => exact .inr (.inr (raft.voters_changeMembership hexec))
      | error err => exact raft.voters_changeMembership_error hexec
    cases r with
    | joinCluster req =>
      obtain ⟨hfree, rfl⟩ := hallowed
      rcases hchange rfl with hm | hm | hm
      · exact .inl hm
      · have hunion : s.obj.voters ∪ insert req.nodeId s.obj.voters =
            insert req.nodeId s.obj.voters :=
          Finset.union_eq_right.mpr (Finset.subset_insert _ _)
        exact .inr (.inl ⟨req, ⟨i, _, hi, rfl, _, _, rfl⟩, hfree, hm.trans hunion⟩)
      · exact .inr (.inl ⟨req, ⟨i, _, hi, rfl, _, _, rfl⟩, hfree, hm⟩)
    | _ =>
      obtain ⟨proposed, rfl⟩ := hallowed
      exact (hchange rfl).imp_right fun hm => .inr ⟨i, _, proposed, res, rfl, nofun, hm⟩

end Steps

/-! ### What an attempt learns -/

/-- An answer of the calls shows the node as a voter of the group. -/
def ShowsVoter (n : NodeId) (groupId : GroupId) (log : JoinLog) : Prop :=
  (∃ metrics, ⟨.fetchMetrics groupId, some metrics⟩ ∈ log ∧ n ∈ metrics.membership.voters) ∨
    ∃ target addr left answer, ⟨.requestJoin target groupId addr left, .ok answer⟩ ∈ log ∧
      answer.grants

/-- An answer says that there is no seat: the metrics of the first group do not know the node and
count all voters there may be, or the response to a request neither grants nor redirects it, and
counts as many. -/
def TellsFull (runtime : ControlRuntime) : (call : JoinCall) → call.Result → Prop
  | .fetchMetrics groupId, some metrics =>
    groupId = runtime.firstGroup ∧ metrics.membership.getNode runtime.id = none ∧
      runtime.maxControlNodes ≤ metrics.membership.voters.card
  | .requestJoin target _ _ left, .ok (.joinCluster response) =>
    ¬response.alreadyMember ∧ ¬response.joined ∧
      (response.leaderHint runtime target = none ∨ left = 0) ∧
      response.maxVoters ≤ response.voterCount
  | _, _ => False

variable {runtime : ControlRuntime} {n : NodeId} {groupId : GroupId} {log log' : JoinLog}

theorem ShowsVoter.mono (hsub : log ⊆ log') (h : ShowsVoter n groupId log) :
    ShowsVoter n groupId log' := by
  rcases h with ⟨metrics, hmem, hvoter⟩ | ⟨target, addr, left, answer, hmem, hgrants⟩
  · exact .inl ⟨metrics, hsub hmem, hvoter⟩
  · exact .inr ⟨target, addr, left, answer, hsub hmem, hgrants⟩

/-- An attempt asks the first group first. -/
def JoinAllowed (runtime : ControlRuntime) (log : JoinLog) : JoinCall → Prop
  | .fetchMetrics _ => True
  | .requestJoin _ groupId _ _ =>
    groupId = runtime.firstGroup ∨ ShowsVoter runtime.id runtime.firstGroup log

/-- The last call tells that there is no seat. -/
def EndsFull (runtime : ControlRuntime) (log : JoinLog) : Prop :=
  ∃ c, log.getLast? = some c ∧ TellsFull runtime c.1 c.2

theorem endsFull_snoc {call : JoinCall} {res : call.Result} :
    EndsFull runtime (log ++ [⟨call, res⟩]) ↔ TellsFull runtime call res := by
  simp [EndsFull]

theorem shows_append :
    ShowsVoter n groupId (log ++ log') ↔ ShowsVoter n groupId log ∨ ShowsVoter n groupId log' := by
  constructor
  · rintro (⟨metrics, hmem, hvoter⟩ | ⟨target, addr, left, answer, hmem, hgrants⟩)
    · exact (List.mem_append.mp hmem).imp (fun h => .inl ⟨metrics, h, hvoter⟩)
        fun h => .inl ⟨metrics, h, hvoter⟩
    · exact (List.mem_append.mp hmem).imp
        (fun h => .inr ⟨target, addr, left, answer, h, hgrants⟩)
        fun h => .inr ⟨target, addr, left, answer, h, hgrants⟩
  · rintro (h | h)
    · exact h.mono (subset_append_left _ _)
    · exact h.mono (subset_append_right _ _)

/-- How the requests for some groups end. -/
def GroupsPost (runtime : ControlRuntime) (groupIds : List GroupId) (log : JoinLog) :
    Except String JoinClusterOutcome → Prop
  | .error _ => True
  | .ok .full => EndsFull runtime log
  | .ok .joined | .ok .alreadyMember => ∀ g ∈ groupIds, ShowsVoter runtime.id g log

/-- What an outcome says of the calls. -/
def JoinPost (runtime : ControlRuntime) (log : JoinLog) : Option JoinClusterOutcome → Prop
  | none => True
  | some outcome => GroupsPost runtime runtime.groupIds log (.ok outcome)

theorem votersContainSelf_follows (groupIds : List GroupId) (log : JoinLog) :
    (votersContainSelf runtime.id groupIds).Follows (JoinAllowed runtime)
      (fun log' contained =>
        contained = true → ∀ g ∈ groupIds, ShowsVoter runtime.id g log') log := by
  induction groupIds generalizing log with
  | nil => exact fun _ => nofun
  | cons groupId groupIds ih =>
    refine CallProgram.follows_perform trivial fun res => ?_
    cases res with
    | none => exact CallProgram.follows_pure nofun
    | some metrics =>
      dsimp only
      split_ifs with hvoter
      · refine (ih _).extends.imp ?_
        rintro log' contained ⟨hsub, h⟩ hcontained g hg
        rcases List.mem_cons.mp hg with rfl | hg
        · exact .inl ⟨metrics, hsub (by simp), hvoter⟩
        · exact h hcontained g hg
      · exact CallProgram.follows_pure nofun

theorem requestJoinControlGroup_follows {target : NodeId} {addr : String} {left : ℕ}
    {f : Except String JoinClusterResponse → JoinProgram (Except String JoinClusterOutcome)}
    (hfirst : groupId = runtime.firstGroup ∨ ShowsVoter runtime.id runtime.firstGroup log)
    (herror : ∀ log' err, (f (.error err)).Follows (JoinAllowed runtime)
      (GroupsPost runtime [groupId]) log')
    (hok : ∀ response, (f (.ok response)).Follows (JoinAllowed runtime)
      (GroupsPost runtime [groupId])
      (log ++ [⟨.requestJoin target groupId addr left, .ok (.joinCluster response)⟩])) :
    (requestJoinControlGroup target groupId addr left >>= f).Follows (JoinAllowed runtime)
      (GroupsPost runtime [groupId]) log := by
  refine ⟨hfirst, fun res => ?_⟩
  rcases res with err | answer
  · exact herror _ _
  · cases answer with
    | joinCluster response => exact hok response
    | _ => exact herror _ _

theorem followJoinResponse_follows {target : NodeId} {addr : String} {left : ℕ}
    {redirect : Option (NodeId → JoinProgram (Except String JoinClusterOutcome))}
    {response : JoinClusterResponse} (hlog : log = log' ++
      [⟨.requestJoin target groupId addr left, .ok (.joinCluster response)⟩])
    (hnone : redirect = none → left = 0)
    (hredirect : ∀ p leaderId, redirect = some p → (p leaderId).Follows (JoinAllowed runtime)
      (GroupsPost runtime [groupId]) log) :
    (followJoinResponse runtime groupId target redirect response).Follows (JoinAllowed runtime)
      (GroupsPost runtime [groupId]) log := by
  have hmem : ⟨.requestJoin target groupId addr left, .ok (.joinCluster response)⟩ ∈ log := by
    rw [hlog]
    exact mem_append_right _ (mem_singleton_self _)
  have hshows (hgrants : (MembershipAnswer.joinCluster response).grants) :
      ∀ g ∈ [groupId], ShowsVoter runtime.id g log := by
    intro g hg
    obtain rfl := List.mem_singleton.mp hg
    exact .inr ⟨target, addr, left, _, hmem, hgrants⟩
  have hstay (halready : ¬response.alreadyMember) (hjoined : ¬response.joined)
      (hno : response.leaderHint runtime target = none ∨ left = 0) (err : String) :
      (if response.maxVoters ≤ response.voterCount then pure (.ok .full)
        else pure (.error err) : JoinProgram (Except String JoinClusterOutcome)).Follows
        (JoinAllowed runtime) (GroupsPost runtime [groupId]) log := by
    split_ifs with hfull
    · exact CallProgram.follows_pure
        (hlog ▸ endsFull_snoc.mpr ⟨halready, hjoined, hno, hfull⟩)
    · exact CallProgram.follows_pure trivial
  rw [followJoinResponse.eq_def]
  by_cases halready : response.alreadyMember
  · rw [if_pos halready]
    exact CallProgram.follows_pure (hshows (by simp [MembershipAnswer.grants, halready]))
  by_cases hjoined : response.joined
  · rw [if_neg halready, if_pos hjoined]
    exact CallProgram.follows_pure (hshows (by simp [MembershipAnswer.grants, hjoined]))
  rw [if_neg halready, if_neg hjoined]
  cases hhint : response.leaderHint runtime target with
  | none => exact hstay halready hjoined (.inl hhint) _
  | some leaderId =>
    cases redirect with
    | none => exact hstay halready hjoined (.inr (hnone rfl)) _
    | some p => exact hredirect p leaderId rfl

theorem requestJoinGroup_follows {groupId : GroupId} (addr : String) (left : ℕ) (target : NodeId)
    {log : JoinLog}
    (hfirst : groupId = runtime.firstGroup ∨ ShowsVoter runtime.id runtime.firstGroup log) :
    (requestJoinGroup runtime groupId addr left target).Follows (JoinAllowed runtime)
      (GroupsPost runtime [groupId]) log := by
  induction left generalizing target log with
  | zero =>
    refine requestJoinControlGroup_follows hfirst (fun _ _ => trivial) fun response => ?_
    exact followJoinResponse_follows rfl (fun _ => rfl) nofun
  | succ left ih =>
    refine requestJoinControlGroup_follows hfirst (fun _ _ => trivial) fun response => ?_
    refine followJoinResponse_follows rfl nofun fun p leaderId hp => ?_
    obtain ⟨⟩ := hp
    exact ih leaderId (hfirst.imp_right (ShowsVoter.mono (subset_append_left _ _)))

/-- The groups in their order: those that come before have answered. -/
theorem requestJoinAllGroups_follows (addr : String) (target : NodeId) (groupIds : List GroupId)
    (joinedAny : Bool) (log : JoinLog)
    (hfirst : groupIds.head? = some runtime.firstGroup ∨
      ShowsVoter runtime.id runtime.firstGroup log) :
    (requestJoinAllGroups runtime target addr groupIds joinedAny).Follows (JoinAllowed runtime)
      (GroupsPost runtime groupIds) log := by
  induction groupIds generalizing joinedAny log with
  | nil => cases joinedAny <;> exact fun g => nofun
  | cons groupId groupIds ih =>
    have hgroup : groupId = runtime.firstGroup ∨ ShowsVoter runtime.id runtime.firstGroup log :=
      hfirst.imp_left Option.some.inj
    refine (requestJoinGroup_follows addr _ target hgroup).extends.bind ?_
    rintro log' outcome ⟨hsub, hpost⟩
    have hrest (joinedAny : Bool) (hshows : ∀ g ∈ [groupId], ShowsVoter runtime.id g log') :
        (requestJoinAllGroups runtime target addr groupIds joinedAny).Follows
          (JoinAllowed runtime) (GroupsPost runtime (groupId :: groupIds)) log' := by
      have hself : ShowsVoter runtime.id groupId log' := hshows groupId (mem_singleton_self _)
      have hnext : ShowsVoter runtime.id runtime.firstGroup log' :=
        hgroup.elim (fun h => h ▸ hself) (ShowsVoter.mono hsub)
      refine (ih joinedAny log' (.inr hnext)).extends.imp ?_
      rintro log'' outcome ⟨hsub', hpost'⟩
      rcases outcome with err | outcome
      · trivial
      · have hall (h : ∀ g ∈ groupIds, ShowsVoter runtime.id g log'') :
            ∀ g ∈ groupId :: groupIds, ShowsVoter runtime.id g log'' :=
          List.forall_mem_cons.mpr ⟨hself.mono hsub', h⟩
        cases outcome with
        | joined => exact hall hpost'
        | alreadyMember => exact hall hpost'
        | full => exact hpost'
    rcases outcome with err | outcome
    · exact CallProgram.follows_pure trivial
    · cases outcome with
      | joined => exact hrest true hpost
      | alreadyMember => exact hrest joinedAny hpost
      | full => exact CallProgram.follows_pure hpost

/-- **An attempt ends with a seat in every group, or because it is told that there is none.** -/
theorem tryJoinControlCluster_follows (addr : String) (bootstrapNodes : List NodeId)
    (log : JoinLog) :
    (tryJoinControlCluster runtime addr bootstrapNodes).Follows (JoinAllowed runtime)
      (JoinPost runtime) log := by
  induction bootstrapNodes generalizing log with
  | nil => exact CallProgram.follows_pure trivial
  | cons bootstrapNode bootstrapNodes ih =>
    rw [tryJoinControlCluster]
    split_ifs with hself
    · exact ih log
    · refine CallProgram.follows_perform trivial fun res => ?_
      cases res with
      | none => exact ih _
      | some metrics =>
        have hjoin
            {next : Except String JoinClusterOutcome → JoinProgram (Option JoinClusterOutcome)}
            (hok : ∀ outcome, next (.ok outcome) = pure (some outcome))
            (herror : ∀ err, next (.error err) = tryJoinControlCluster runtime addr bootstrapNodes)
            (log : JoinLog) :
            (requestJoinAllGroups runtime (joinTarget runtime bootstrapNode metrics) addr
              runtime.groupIds false >>= next).Follows (JoinAllowed runtime) (JoinPost runtime)
              log := by
          refine (requestJoinAllGroups_follows addr _ _ _ log
            (.inl (head?_eq_some_head _))).bind ?_
          rintro log' (err | outcome) hpost
          · rw [herror]
            exact ih log'
          · rw [hok]
            exact CallProgram.follows_pure hpost
        dsimp only
        split_ifs with hknown hfull
        · rw [remoteOpenraftVotersContainSelf, if_neg (by simpa using runtime.groupIds_ne_nil)]
          refine (votersContainSelf_follows runtime.groupIds _).bind fun log' contained hpost => ?_
          cases contained with
          | true => exact CallProgram.follows_pure (hpost rfl)
          | false => exact hjoin (fun _ => rfl) (fun _ => rfl) log'
        · exact CallProgram.follows_pure
            (endsFull_snoc.mpr ⟨rfl, by simpa using hknown, hfull⟩)
        · exact hjoin (fun _ => rfl) (fun _ => rfl) _

end RustExample.OpenraftCluster
