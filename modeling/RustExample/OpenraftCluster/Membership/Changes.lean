import RustExample.OpenraftCluster.Membership.Handlers

/-!
# Membership changes are not lost

A change of the membership proposes all voters. It is computed from a voter set that its proposer
has read, so that it undoes what others have changed since then. The fence of the group makes the
read and the change one: the handlers take it before they read, and propose what their request
makes of the voters in force.

A tick of the guard reads the voters before it takes the fence. A node that joins in
between is ejected.
-/

namespace RustExample.OpenraftCluster

/-! ### What a request changes -/

/-- The dead voter that a tick replaces, and the learner that it promotes. -/
def GuardTick.replacement (tick : GuardTick) (metrics : RaftMetrics) : Option (NodeId × NodeId) :=
  match tick.deadMember metrics with
  | some dead =>
    if dead ∈ metrics.membership.voters then
      (pickPromotableLearner tick.aliveLater (freshRaftAcks metrics tick.ackTimeout)
        metrics.membership.learnerIds none).map fun promoted => (dead, promoted)
    else none
  | none => none

/-- The calls so far, with their results. -/
abbrev MembershipLog := CallLog RaftCall RaftCall.Result

namespace MembershipRequest

/-- The proposed voters are what the request makes of `voters`. -/
def Computes (log : MembershipLog) (voters proposed : Finset NodeId) : MembershipRequest → Prop
  | .guard tick => ∃ metrics dead promoted, ⟨.metrics, metrics⟩ ∈ log ∧
      tick.replacement metrics = some (dead, promoted) ∧ dead ∈ voters ∧ promoted ∉ voters ∧
      proposed = insert promoted (voters.erase dead)
  | .joinCluster req => proposed = insert req.nodeId voters
  | .addLearner _ => False
  | .addMember target _ _ _ => proposed = insert target voters
  | .removeMember target => proposed = voters.erase target
  | .replaceMember old new _ _ => proposed = insert new (voters.erase old)

/-- The request names a voter to be removed. -/
def Names (log : MembershipLog) (node : NodeId) : MembershipRequest → Prop
  | .guard tick => ∃ metrics promoted, ⟨.metrics, metrics⟩ ∈ log ∧
      tick.replacement metrics = some (node, promoted)
  | .joinCluster _ | .addLearner _ | .addMember _ _ _ _ => False
  | .removeMember target => target = node
  | .replaceMember old _ _ _ => old = node

/-- The voter that an answer promises: one that joined, was promoted or replaced another. -/
def admitted : MembershipRequest → MembershipAnswer → Option NodeId
  | .joinCluster req, .joinCluster response =>
    if response.ok && (response.joined || response.alreadyMember) then some req.nodeId else none
  | .addMember target _ _ _, .addMember response =>
    if response.ok && (response.promoted || !response.learnerAdded) then some target else none
  | .replaceMember _ new _ _, .replaceMember response => if response.ok then some new else none
  | _, _ => none

variable {r : MembershipRequest} {log : MembershipLog} {voters proposed : Finset NodeId}
  {node : NodeId}

/-- A proposal keeps the voters that its request does not name. -/
theorem Computes.mem (h : r.Computes log voters proposed) (hnode : node ∈ voters)
    (hnames : ¬r.Names log node) : node ∈ proposed := by
  cases r with
  | guard tick =>
    obtain ⟨metrics, dead, promoted, hlog, hreplace, -, -, rfl⟩ := h
    have hne : node ≠ dead := by
      rintro rfl
      exact hnames ⟨metrics, promoted, hlog, hreplace⟩
    exact Finset.mem_insert_of_mem (Finset.mem_erase.mpr ⟨hne, hnode⟩)
  | joinCluster req =>
    obtain rfl : proposed = _ := h
    exact Finset.mem_insert_of_mem hnode
  | addLearner req => exact h.elim
  | addMember target addr promote timeout =>
    obtain rfl : proposed = _ := h
    exact Finset.mem_insert_of_mem hnode
  | removeMember target =>
    obtain rfl : proposed = _ := h
    exact Finset.mem_erase.mpr ⟨fun heq => hnames heq.symm, hnode⟩
  | replaceMember old new addr timeout =>
    obtain rfl : proposed = _ := h
    exact Finset.mem_insert_of_mem (Finset.mem_erase.mpr ⟨fun heq => hnames heq.symm, hnode⟩)

/-- The guard takes the fence only if the voters it has read are in force; others need not care. -/
def policy (r : MembershipRequest) :
    FencePolicy RaftCall RaftCall.Result (Finset NodeId) MembershipAnswer where
  fresh log voters :=
    match r with
    | .guard tick => ∀ metrics, ⟨.metrics, metrics⟩ ∈ log → (tick.replacement metrics).isSome →
        metrics.membership.voters = voters
    | _ => True
  allowed log voters call := ∃ proposed, call = .changeMembership proposed ∧
    r.Computes log voters proposed
  post _ voters answer := ∀ node, r.admitted answer = some node → node ∈ voters

end MembershipRequest

/-! ### Every program follows its policy -/

variable {alive : NodeId → Bool}

theorem mem_of_pickPromotableLearner {fresh learners : List NodeId} {connectedOnly : Option NodeId}
    {learner : NodeId}
    (h : pickPromotableLearner alive fresh learners connectedOnly = some learner) :
    learner ∈ learners ∨ connectedOnly = some learner := by
  induction learners generalizing connectedOnly with
  | nil => exact .inr h
  | cons l learners ih =>
    rw [pickPromotableLearner] at h
    split_ifs at h
    · exact (ih h).imp_left (List.mem_cons_of_mem l)
    · obtain ⟨⟩ := h
      exact .inl List.mem_cons_self
    · rcases ih h with hmem | hor
      · exact .inl (List.mem_cons_of_mem l hmem)
      · cases connectedOnly with
        | none =>
          obtain ⟨⟩ := hor
          exact .inl List.mem_cons_self
        | some l' => exact .inr hor

theorem notMem_voters_of_pickPromotableLearner {fresh : List NodeId} {m : Membership}
    {learner : NodeId} (h : pickPromotableLearner alive fresh m.learnerIds none = some learner) :
    learner ∉ m.voters := by
  rcases mem_of_pickPromotableLearner h with hmem | hnone
  · simpa using (List.mem_filter.mp hmem).2
  · cases hnone

section Programs

variable (raft : RaftGroup) (groupId : String)

/-- The program of a request follows its policy. -/
abbrev Follows (r : MembershipRequest) (p : MembershipProgram) : Prop :=
  p.Free raft.Exec Membership.voters RaftCall.KeepsVoters r.policy []

variable {raft groupId}

/-- The guard backfills after its change, or after it has removed a learner. -/
theorem backfillLearner_spent (tick tick' : GuardTick) (memberIds : List NodeId) (dead : NodeId)
    (answer : MembershipAnswer) (voters : Finset NodeId) (log : MembershipLog) :
    (backfillLearner tick memberIds dead answer).Spent RaftCall.KeepsVoters
      (MembershipRequest.policy (.guard tick')) voters log := by
  rw [backfillLearner]
  cases pickSpareWorker tick memberIds dead with
  | none => exact fun _ => nofun
  | some p => exact ⟨trivial, fun _ _ => nofun⟩

/-- The change of a request under the fence, and how the request ends with it. -/
theorem changeMembership_held {r : MembershipRequest} {log : MembershipLog}
    {voters proposed proposed' : Finset NodeId} {k : Except String Unit → MembershipProgram}
    {answer : MembershipAnswer} (hproposed : proposed = proposed')
    (hcomputes : r.Computes log voters proposed') (hok : k (.ok ()) = .done answer)
    (hadmitted : ∀ node, r.admitted answer = some node → node ∈ proposed)
    (herror : ∀ err, ∃ answer', k (.error err) = .done answer' ∧ r.admitted answer' = none) :
    FencedProgram.Held raft.Exec Membership.voters RaftCall.KeepsVoters r.policy voters log
      (.call (.changeMembership proposed) k) := by
  subst hproposed
  refine .inr ⟨⟨proposed, rfl, hcomputes⟩, fun m res m' _ hexec => ?_⟩
  cases res with
  | ok _ =>
    rw [hok]
    intro node hnode
    exact (raft.voters_changeMembership hexec).symm ▸ hadmitted node hnode
  | error err =>
    obtain ⟨answer', hk, hnone⟩ := herror err
    rw [hk]
    intro node hnode
    cases hnone.symm.trans hnode

/-- An addition that was sent on promises no voter. -/
theorem admitted_forwardAddLearnerAnswer (target : NodeId) (addr : String) (promote : Bool)
    (timeout : ℕ) (leaderId : NodeId) (voters : Finset NodeId) (response : ForwardedResponse) :
    (MembershipRequest.addMember target addr promote timeout).admitted
      (.addMember (forwardAddLearnerAnswer groupId leaderId voters response)) = none := by
  cases response with
  | addLearner resp =>
    simp only [forwardAddLearnerAnswer]
    split_ifs <;> rfl
  | error message => rfl
  | other text => rfl
  | failed err => rfl

variable (raft groupId)

theorem guardTick_follows (tick : GuardTick) : Follows raft (.guard tick) (guardTick tick) := by
  refine ⟨trivial, fun m metrics m' _ => ?_⟩
  have hlog : (⟨.metrics, metrics⟩ : (call : RaftCall) × call.Result) ∈
      ([] ++ [⟨.metrics, metrics⟩] : MembershipLog) := List.mem_singleton_self _
  dsimp only
  split_ifs
  · exact fun _ _ => nofun
  · cases hdead : tick.deadMember metrics with
    | none => exact fun _ _ => nofun
    | some dead =>
      refine ⟨fun _ _ => nofun, fun voters hfresh => ?_⟩
      split_ifs with hvoter
      · cases hpick : pickPromotableLearner tick.aliveLater (freshRaftAcks metrics tick.ackTimeout)
          metrics.membership.learnerIds none with
        | none => exact fun _ => nofun
        | some promoted =>
          have hreplace : tick.replacement metrics = some (dead, promoted) := by
            simp [GuardTick.replacement, hdead, hvoter, hpick]
          obtain rfl := hfresh metrics hlog (by rw [hreplace]; rfl)
          refine .inr ⟨⟨_, rfl, metrics, dead, promoted, hlog, hreplace, hvoter,
            notMem_voters_of_pickPromotableLearner hpick, rfl⟩, fun _ res _ _ _ => ?_⟩
          cases res with
          | ok _ => exact backfillLearner_spent _ _ _ _ _ _ _
          | error err => exact fun _ => nofun
      · refine .inl ⟨trivial, fun _ res _ _ _ => ?_⟩
        cases res with
        | ok _ => exact (backfillLearner_spent _ _ _ _ _ _ _).held
        | error err => exact fun _ => nofun

theorem addLearner_follows (req : AddLearnerRequest) :
    Follows raft (.addLearner req) (addLearner req) := by
  refine ⟨fun _ _ => nofun, fun voters _ => .inl ⟨trivial, fun m metrics m' hvoters hexec => ?_⟩⟩
  dsimp only
  split_ifs
  · exact fun _ => nofun
  · refine .inl ⟨trivial, fun _ res _ _ _ => ?_⟩
    cases res <;> exact fun _ => nofun

theorem joinCluster_follows (req : JoinClusterRequest) :
    Follows raft (.joinCluster req) (joinCluster req) := by
  refine ⟨fun _ _ => nofun, fun voters _ => .inl ⟨trivial, fun m metrics m' hvoters hexec => ?_⟩⟩
  obtain ⟨rfl, rfl⟩ := hexec
  dsimp only
  split_ifs with hleader hmember hfull
  · exact fun _ => nofun
  · rintro node hnode
    obtain ⟨⟩ := hnode
    exact hvoters ▸ hmember
  · exact fun _ => nofun
  · refine .inl ⟨trivial, fun _ res _ _ _ => ?_⟩
    cases res with
    | error err => exact fun _ => nofun
    | ok index =>
      refine .inl ⟨trivial, fun _ res _ _ _ => ?_⟩
      cases res with
      | error err => exact .inl ⟨trivial, fun _ _ _ _ _ _ => nofun⟩
      | ok _ =>
        refine .inl ⟨trivial, fun m' metrics' _ hvoters' hexec' => ?_⟩
        obtain ⟨rfl, rfl⟩ := hexec'
        exact changeMembership_held (congrArg (insert req.nodeId) hvoters') rfl rfl
          (fun node hnode => Option.some.inj hnode ▸ Finset.mem_insert_self _ _)
          fun _ => ⟨_, rfl, rfl⟩

theorem addOpenraftMemberToGroup_follows (target : NodeId) (addr : String) (promote : Bool)
    (timeout : ℕ) : Follows raft (.addMember target addr promote timeout)
      (addOpenraftMemberToGroup groupId target addr promote timeout) := by
  refine ⟨fun _ _ => nofun, fun voters _ => .inl ⟨trivial, fun m metrics m' hvoters hexec => ?_⟩⟩
  obtain ⟨rfl, rfl⟩ := hexec
  dsimp only
  split_ifs with hleader hmember hpromote
  · split
    · refine .inl ⟨trivial, fun _ response _ _ _ node hnode => ?_⟩
      rw [admitted_forwardAddLearnerAnswer] at hnode
      cases hnode
    · exact fun _ => nofun
  · rintro node hnode
    obtain ⟨⟩ := hnode
    exact hvoters ▸ hmember
  · refine .inl ⟨trivial, fun _ res _ _ _ => ?_⟩
    cases res with
    | error err => exact fun _ => nofun
    | ok index => exact .inl ⟨trivial, fun _ _ _ _ _ _ => nofun⟩
  · refine .inl ⟨trivial, fun _ res _ _ _ => ?_⟩
    cases res with
    | error err => exact fun _ => nofun
    | ok index =>
      refine .inl ⟨trivial, fun _ res _ _ _ => ?_⟩
      cases res with
      | error err => exact .inl ⟨trivial, fun _ _ _ _ _ _ => nofun⟩
      | ok _ =>
        refine .inl ⟨trivial, fun m' metrics' _ hvoters' hexec' => ?_⟩
        obtain ⟨rfl, rfl⟩ := hexec'
        exact changeMembership_held (congrArg (insert target) hvoters') rfl rfl
          (fun node hnode => Option.some.inj hnode ▸ Finset.mem_insert_self _ _)
          fun _ => ⟨_, rfl, rfl⟩

theorem removeOpenraftMemberFromGroup_follows (target : NodeId) :
    Follows raft (.removeMember target) (removeOpenraftMemberFromGroup groupId target) := by
  refine ⟨fun _ _ => nofun, fun voters _ => .inl ⟨trivial, fun m metrics m' hvoters hexec => ?_⟩⟩
  obtain ⟨rfl, rfl⟩ := hexec
  dsimp only
  split_ifs
  · exact fun _ => nofun
  · exact fun _ => nofun
  · exact changeMembership_held (congrArg (Finset.erase · target) hvoters) rfl rfl (fun _ => nofun)
      fun _ => ⟨_, rfl, rfl⟩
  · exact fun _ => nofun

theorem replaceOpenraftMemberInGroup_follows (old new : NodeId) (addr : String) (timeout : ℕ) :
    Follows raft (.replaceMember old new addr timeout)
      (replaceOpenraftMemberInGroup groupId old new addr timeout) := by
  refine ⟨fun _ _ => nofun, fun voters _ => .inl ⟨trivial, fun m metrics m' hvoters hexec => ?_⟩⟩
  obtain ⟨rfl, rfl⟩ := hexec
  dsimp only
  split_ifs with hleader hdone hold
  · exact fun _ => nofun
  · rintro node hnode
    obtain ⟨⟩ := hnode
    exact hvoters ▸ hdone.2
  · refine .inl ⟨trivial, fun _ res _ _ _ => ?_⟩
    cases res with
    | error err => exact fun _ => nofun
    | ok index =>
      refine .inl ⟨trivial, fun _ res _ _ _ => ?_⟩
      cases res with
      | error err => exact fun _ => nofun
      | ok _ =>
        exact changeMembership_held (congrArg (fun v => insert new (v.erase old)) hvoters) rfl rfl
          (fun node hnode => Option.some.inj hnode ▸ Finset.mem_insert_self _ _)
          fun _ => ⟨_, rfl, rfl⟩
  · exact fun _ => nofun

theorem MembershipRequest.program_follows (r : MembershipRequest) :
    Follows raft r (r.program groupId) := by
  cases r with
  | guard tick => exact guardTick_follows raft tick
  | joinCluster req => exact joinCluster_follows raft req
  | addLearner req => exact addLearner_follows raft req
  | addMember target addr promote timeout =>
    exact addOpenraftMemberToGroup_follows raft groupId target addr promote timeout
  | removeMember target => exact removeOpenraftMemberFromGroup_follows raft groupId target
  | replaceMember old new addr timeout =>
    exact replaceOpenraftMemberInGroup_follows raft groupId old new addr timeout

end Programs

/-! ### Runs of a group -/

/-- The leader of a group: its membership, the holder of the fence and the requests in progress. -/
abbrev GroupState (ι : Type) :=
  FenceSystem RaftCall RaftCall.Result Membership ι MembershipRequest MembershipAnswer

/-- The events of a group. -/
abbrev GroupEvent (ι : Type) :=
  FenceEvent RaftCall RaftCall.Result Membership ι MembershipRequest MembershipAnswer

section Runs

variable {ι : Type}

/-- The steps of the requests of a group. -/
abbrev GroupStep [DecidableEq ι] (raft : RaftGroup) (groupId : String) :
    GroupState ι → GroupEvent ι → GroupState ι → Prop :=
  FenceSystem.Step raft.Exec (MembershipRequest.program groupId)

/-- A tick of the guard that takes the fence to replace a voter has read the voters in force. -/
def GuardReadsCurrent (s : GroupState ι) : GroupEvent ι → Prop
  | .fence i _ => ∀ t tick metrics, s.stage i = .running t → t.request = .guard tick →
      ⟨.metrics, metrics⟩ ∈ t.log → (tick.replacement metrics).isSome →
        metrics.membership.voters = s.obj.voters
  | .start _ _ | .busy _ | .call _ _ _ _ | .finish _ _ _ => True

/-- The change of an event names a voter to be removed. -/
def NamesVoter (es : List (GroupEvent ι)) (node : NodeId) : GroupEvent ι → Prop
  | .call i r (.changeMembership _) _ =>
    ∃ log : MembershipLog, (∀ c ∈ log, .call i r c.1 c.2 ∈ es) ∧ r.Names log node
  | _ => False

/-- **No change of the membership is lost.** A request about to propose voters computes them from
those in force since it took the fence; a replacement by the guard removes the dead voter only. A
voter that an answer has promised stays one until a change names it. -/
structure ChangesKept (es : List (GroupEvent ι)) (s : GroupState ι) : Prop where
  computed : ∀ i r log proposed k,
    s.stage i = .running ⟨r, log, .call (.changeMembership proposed) k⟩ →
      ∃ j m, FenceSystem.FencedSince es i m j ∧ m.voters = s.obj.voters ∧
        r.Computes log m.voters proposed
  replaced : ∀ i tick log proposed k,
    s.stage i = .running ⟨.guard tick, log, .call (.changeMembership proposed) k⟩ →
      ∃ metrics dead promoted, ⟨.metrics, metrics⟩ ∈ log ∧
        tick.replacement metrics = some (dead, promoted) ∧ s.obj.voters \ proposed = {dead} ∧
        proposed \ s.obj.voters = {promoted}
  kept : ∀ (k : ℕ) i r answer node, es[k]? = some (.finish i r answer) →
    r.admitted answer = some node → (∀ (l : ℕ) e, k < l → es[l]? = some e →
      ¬NamesVoter es node e) → node ∈ s.obj.voters

/-- The events keep to the policy. -/
abbrev GroupDisciplined (raft : RaftGroup) (es : List (GroupEvent ι)) (s : GroupState ι) : Prop :=
  FenceSystem.Disciplined raft.Exec Membership.voters RaftCall.KeepsVoters MembershipRequest.policy
    es s

variable {raft : RaftGroup} {groupId : String} {es : List (GroupEvent ι)} {e : GroupEvent ι}
  {s s' : GroupState ι} {node : NodeId}

theorem GuardReadsCurrent.takesFresh (h : GuardReadsCurrent s e) :
    s.TakesFresh Membership.voters MembershipRequest.policy e := by
  cases e with
  | fence i m =>
    rintro ⟨r, log, p⟩ ht
    cases r with
    | guard tick => exact fun metrics hlog => h _ tick metrics ht rfl hlog
    | _ => trivial
  | _ => trivial

theorem guardReadsCurrent_of_log {i : ι} {r : MembershipRequest} {metrics : RaftMetrics}
    {p : MembershipProgram} {m : Membership}
    (hi : s.stage i = .running ⟨r, [⟨.metrics, metrics⟩], p⟩)
    (h : metrics.membership.voters = s.obj.voters) : GuardReadsCurrent s (.fence i m) := by
  intro t tick metrics' ht _ hlog _
  obtain rfl := FenceStage.running.inj (hi.symm.trans ht)
  obtain rfl : metrics' = metrics := by simpa using hlog
  exact h

theorem NamesVoter.snoc {c : GroupEvent ι} (h : NamesVoter es node c) :
    NamesVoter (es ++ [e]) node c := by
  cases c with
  | call i r call res =>
    cases call with
    | changeMembership voters =>
      obtain ⟨log, hlog, hnames⟩ := h
      exact ⟨log, fun c hc => List.mem_append_left _ (hlog c hc), hnames⟩
    | _ => exact h
  | _ => exact h

variable [DecidableEq ι]

theorem mem_voters_of_step (hd : GroupDisciplined raft es s) (h : GroupStep raft groupId s e s')
    (hnode : node ∈ s.obj.voters) (hnames : ¬NamesVoter es node e) : node ∈ s'.obj.voters := by
  cases h with
  | start i r hi => exact hnode
  | fence i r log busy p hi hfree => exact hnode
  | busy i r log busy p hi htaken => exact hnode
  | finish i r log a hi => exact hnode
  | call i r log call k res m hi hexec =>
    by_cases hcall : call.KeepsVoters
    · exact (hexec.voters_eq hcall).symm ▸ hnode
    · obtain ⟨-, -, -, -, proposed, rfl, hcomputes⟩ := hd.allowed hi hcall
      have hproposed : node ∈ proposed :=
        hcomputes.mem hnode fun hlog => hnames ⟨log, hd.logged hi, hlog⟩
      cases res with
      | ok _ => exact (raft.voters_changeMembership hexec).symm ▸ hproposed
      | error err =>
        rcases raft.voters_changeMembership_error hexec with hm | hm | hm
        · exact hm.symm ▸ hnode
        · exact hm.symm ▸ Finset.mem_union_right _ hproposed
        · exact hm.symm ▸ hproposed

omit [DecidableEq ι] in
/-- What a request is about to propose, as long as all of them follow their policy. -/
theorem computes_of_disciplined (hd : GroupDisciplined raft es s) {i : ι} {r : MembershipRequest}
    {log : MembershipLog} {proposed : Finset NodeId} {k : Except String Unit → MembershipProgram}
    (hi : s.stage i = .running ⟨r, log, .call (.changeMembership proposed) k⟩) :
    ∃ j m, FenceSystem.FencedSince es i m j ∧ m.voters = s.obj.voters ∧
      r.Computes log m.voters proposed := by
  obtain ⟨j, m, hsince, hm, proposed', hcall, hcomputes⟩ := hd.allowed hi id
  obtain rfl := RaftCall.changeMembership.inj hcall
  exact ⟨j, m, hsince, hm, hm.symm ▸ hcomputes⟩

theorem MembershipRequest.Computes.sdiff {tick : GuardTick} {log : MembershipLog}
    {voters proposed : Finset NodeId}
    (h : (MembershipRequest.guard tick).Computes log voters proposed) :
    ∃ metrics dead promoted, ⟨.metrics, metrics⟩ ∈ log ∧
      tick.replacement metrics = some (dead, promoted) ∧ voters \ proposed = {dead} ∧
      proposed \ voters = {promoted} := by
  obtain ⟨metrics, dead, promoted, hlog, hreplace, hdead, hpromoted, rfl⟩ := h
  refine ⟨metrics, dead, promoted, hlog, hreplace, ?_, ?_⟩
  · rw [Finset.sdiff_insert_of_notMem hpromoted, Finset.sdiff_erase_self hdead]
  · rw [Finset.insert_sdiff_of_notMem _ hpromoted,
      Finset.sdiff_eq_empty_iff_subset.mpr (Finset.erase_subset dead voters)]
    rfl

/-- **No change of the membership is lost as long as the guard has read the voters in force.** If a
tick takes the fence to replace a voter only while the voters it has read are in force, every change
is computed from the voters in force, and promised voters are removed only by a change that names
them. -/
theorem changesKept_of_guardReadsCurrent {m : Membership}
    (run : Run (fun s e s' => GroupStep raft groupId s e s' ∧ GuardReadsCurrent s e) (.initial m) es
      s) : ChangesKept es s := by
  have hdisciplined {es : List (GroupEvent ι)} {s : GroupState ι}
      (run : Run (fun s e s' => GroupStep raft groupId s e s' ∧ GuardReadsCurrent s e) (.initial m)
        es s) : GroupDisciplined raft es s :=
    FenceSystem.disciplined_of_run (fun _ _ _ _ hcall hexec => hexec.voters_eq hcall)
      (MembershipRequest.program_follows raft groupId)
      (run.imp fun _ _ _ h => ⟨h.1, h.2.takesFresh⟩)
  refine ⟨fun i r log proposed k => computes_of_disciplined (hdisciplined run), ?_, ?_⟩
  · intro i tick log proposed k hi
    obtain ⟨j, m', -, hm, hcomputes⟩ := computes_of_disciplined (hdisciplined run) hi
    exact hm ▸ hcomputes.sdiff
  · induction run with
    | nil =>
      intro k i r answer node hk
      simp at hk
    | @snoc es s s' e run h ih =>
      intro k i r answer node hk hadmitted hno
      rcases getElem?_snoc.mp hk with hk | ⟨rfl, rfl⟩
      · have hnode := ih k i r answer node hk hadmitted fun l c hl hc hnames =>
          hno l c hl (getElem?_snoc.mpr (.inl hc)) hnames.snoc
        refine mem_voters_of_step (hdisciplined run) h.1 hnode fun hnames => ?_
        have hlen : k < es.length := (List.getElem?_eq_some_iff.mp hk).1
        exact hno es.length e hlen (getElem?_snoc.mpr (.inr ⟨rfl, rfl⟩)) hnames.snoc
      · cases h.1 with
        | finish i r log a hi => exact (hdisciplined run).post hi node hadmitted

end Runs

/-! ### A guard and a join -/

/-- The nodes of a group without the given ones. -/
def Membership.dropNodes (m : Membership) (ids : Finset NodeId) : KeyStore NodeId String :=
  Std.ExtTreeMap.ofList (m.nodes.toList.filter fun p => p.1 ∉ ids)

/-- A raft group that carries out every valid change. -/
def validRaft : RaftGroup where
  addLearner m id addr res m' := (∃ index, res = .ok index) ∧
    m' = if m.nodes.contains id then m else { m with nodes := m.nodes.insert id addr }
  changeMembership m voters res m' :=
    if voters ≠ ∅ ∧ ∀ id ∈ voters, m.nodes.contains id then
      res = .ok () ∧ m' = ⟨voters, m.dropNodes (m.voters \ voters)⟩
    else (∃ err, res = .error err) ∧ m' = m
  removeNodes m ids res m' :=
    if Disjoint ids m.voters then
      res = .ok () ∧ m' = { m with nodes := m.dropNodes ids }
    else (∃ err, res = .error err) ∧ m' = m
  voters_addLearner h := by
    rw [h.2]
    split_ifs <;> rfl
  voters_removeNodes h := by
    split_ifs at h <;> rw [h.2]
  voters_changeMembership h := by
    split_ifs at h
    · rw [h.2]
    · obtain ⟨⟨err, herr⟩, -⟩ := h
      cases herr
  voters_changeMembership_error h := by
    split_ifs at h
    · cases h.1
    · exact Or.inl (congrArg Membership.voters h.2)

/-- Three voters and the learner `"n4"`. -/
def threeVoters : Membership :=
  ⟨{"n1", "n2", "n3"},
    Std.ExtTreeMap.ofList [("n1", "a1"), ("n2", "a2"), ("n3", "a3"), ("n4", "a4")]⟩

/-- What the leader knows. -/
def leaderMetrics (m : Membership) : RaftMetrics := ⟨"n1", true, some "n1", m, none⟩

/-- A tick on which the voter `"n3"` is down for longer than the timeout. -/
def voterDown : GuardTick := ⟨[("n3", 0)], 100, 10, 5, fun id => id ≠ "n3", fun _ => true, []⟩

def joinsFifth : JoinClusterRequest := ⟨"n5", "a5", 7, 1000⟩

/-- The membership with the learner `"n5"`. -/
def fifthLearner : Membership := { threeVoters with nodes := threeVoters.nodes.insert "n5" "a5" }

/-- The membership with the voter `"n5"`. -/
def fifthVoter : Membership :=
  ⟨{"n5", "n1", "n2", "n3"},
    fifthLearner.dropNodes (fifthLearner.voters \ {"n5", "n1", "n2", "n3"})⟩

/-- The guard replaces the voter by the learner. -/
def guardReplaces : List (GroupEvent ℕ) :=
  [.start 0 (.guard voterDown), .call 0 (.guard voterDown) .metrics (leaderMetrics threeVoters),
    .fence 0 threeVoters,
    .call 0 (.guard voterDown) (.changeMembership {"n4", "n1", "n2"}) (.ok ()),
    .finish 0 (.guard voterDown) (.guard [("n3", 0)])]

/-- A guard that has read the voters in force. -/
theorem changesKept_of_guardReadsCurrent_replaces :
    ∃ s : GroupState ℕ, s.obj.voters = {"n4", "n1", "n2"} ∧ ChangesKept guardReplaces s := by
  have hrun : Run (fun s e s' => GroupStep validRaft "group" s e s' ∧ GuardReadsCurrent s e)
      (.initial threeVoters) guardReplaces _ :=
    .cons ⟨FenceSystem.Step.start 0 _ rfl, trivial⟩ <|
    .cons ⟨FenceSystem.Step.call 0 _ _ RaftCall.metrics _ _ _ rfl ⟨rfl, rfl⟩, trivial⟩ <|
    .cons ⟨FenceSystem.Step.fence 0 _ _ _ _ rfl rfl, guardReadsCurrent_of_log rfl rfl⟩ <|
    .cons ⟨FenceSystem.Step.call 0 _ _ (RaftCall.changeMembership _) _ _ _ rfl ⟨rfl, rfl⟩,
      trivial⟩ <|
    .cons ⟨FenceSystem.Step.finish 0 _ _ _ rfl, trivial⟩ .nil
  exact ⟨_, rfl, changesKept_of_guardReadsCurrent hrun⟩

/-- The guard finds a voter dead, `"n5"` joins, and the guard replaces the voter as read. -/
def staleGuard : List (GroupEvent ℕ) :=
  [.start 0 (.guard voterDown), .call 0 (.guard voterDown) .metrics (leaderMetrics threeVoters),
    .start 1 (.joinCluster joinsFifth), .fence 1 threeVoters,
    .call 1 (.joinCluster joinsFifth) .metrics (leaderMetrics threeVoters),
    .call 1 (.joinCluster joinsFifth) (.addLearner "n5" "a5") (.ok 7),
    .call 1 (.joinCluster joinsFifth) (.waitForMember "n5" 7 1000) (.ok ()),
    .call 1 (.joinCluster joinsFifth) .metrics (leaderMetrics fifthLearner),
    .call 1 (.joinCluster joinsFifth) (.changeMembership {"n5", "n1", "n2", "n3"}) (.ok ()),
    .finish 1 (.joinCluster joinsFifth)
      (.joinCluster ⟨true, true, false, 4, 7, some "n1", some "a1", none⟩),
    .fence 0 fifthVoter, .call 0 (.guard voterDown) (.changeMembership {"n4", "n1", "n2"}) (.ok ()),
    .finish 0 (.guard voterDown) (.guard [("n3", 0)])]

theorem exists_staleGuard : ∃ s : GroupState ℕ,
    Run (GroupStep validRaft "group") (.initial threeVoters) staleGuard s ∧
      s.obj.voters = {"n4", "n1", "n2"} :=
  ⟨_, .cons (FenceSystem.Step.start 0 _ rfl) <|
      .cons (FenceSystem.Step.call 0 _ _ RaftCall.metrics _ _ _ rfl ⟨rfl, rfl⟩) <|
      .cons (FenceSystem.Step.start 1 _ rfl) <|
      .cons (FenceSystem.Step.fence 1 _ _ _ _ rfl rfl) <|
      .cons (FenceSystem.Step.call 1 _ _ RaftCall.metrics _ _ _ rfl ⟨rfl, rfl⟩) <|
      .cons (FenceSystem.Step.call 1 _ _ (RaftCall.addLearner _ _) _ _ _ rfl ⟨⟨7, rfl⟩, rfl⟩) <|
      .cons (FenceSystem.Step.call 1 _ _ (RaftCall.waitForMember _ _ _) _ _ _ rfl rfl) <|
      .cons (FenceSystem.Step.call 1 _ _ RaftCall.metrics _ _ _ rfl ⟨rfl, rfl⟩) <|
      .cons (FenceSystem.Step.call 1 _ _ (RaftCall.changeMembership _) _ _ _ rfl ⟨rfl, rfl⟩) <|
      .cons (FenceSystem.Step.finish 1 _ _ _ rfl) <|
      .cons (FenceSystem.Step.fence 0 _ _ _ _ rfl rfl) <|
      .cons (FenceSystem.Step.call 0 _ _ (RaftCall.changeMembership _) _ _ _ rfl ⟨rfl, rfl⟩) <|
      .cons (FenceSystem.Step.finish 0 _ _ _ rfl) .nil, rfl⟩

theorem metrics_of_mem_staleGuard {metrics : RaftMetrics}
    (h : .call 0 (.guard voterDown) .metrics metrics ∈ staleGuard) :
    metrics = leaderMetrics threeVoters := by
  simpa [staleGuard] using h

/-- **A guard with a stale read ejects a voter.** The node `"n5"` was told that it has joined; the
guard, which has read the voters before, replaces `"n3"` and removes `"n5"` too. -/
theorem stale_guard_ejects_voter : ∃ s : GroupState ℕ,
    Run (GroupStep validRaft "group") (.initial threeVoters) staleGuard s ∧
      ¬ChangesKept staleGuard s := by
  obtain ⟨s, hrun, hvoters⟩ := exists_staleGuard
  refine ⟨s, hrun, fun h => ?_⟩
  have hnode := h.kept 9 1 _ _ "n5" rfl rfl fun l e hl he hnames => ?_
  · rw [hvoters] at hnode
    exact absurd hnode (by decide)
  · have hlen : l < 13 := (List.getElem?_eq_some_iff.mp he).1
    obtain rfl | rfl | rfl : l = 10 ∨ l = 11 ∨ l = 12 := by omega
    · obtain ⟨⟩ := he
      exact hnames
    · obtain ⟨⟩ := he
      obtain ⟨log, hlog, metrics, promoted, hmem, hreplace⟩ := hnames
      obtain rfl := metrics_of_mem_staleGuard (hlog _ hmem)
      have hdead : voterDown.replacement (leaderMetrics threeVoters) = some ("n3", "n4") := by
        decide
      simp [hdead] at hreplace
    · obtain ⟨⟩ := he
      exact hnames

end RustExample.OpenraftCluster
