import RustExample.OpenraftCluster.Membership.Group

/-!
# The check before a group is wiped

A node that starts up, or that has just started, asks the nodes it knows for their view of a raft
group until one of them says that it leads the group. If the membership that this leader reports
leaves the node out, the node deletes its data of the group, or shuts down to do so on the next
start. The index of the reported membership is not looked at, so that a leader that has been
deposed may be believed over a later membership, the node's own included.

Source: `src/app/startup.rs` (`cleanup_removed_local_groups`, `fetch_group_metrics_inner`) and
`src/app/node_maintenance.rs` (`run_openraft_startup_verifier`).

* The known nodes are given with their replies, in the order in which they are asked.
* Of the metrics, what the check reads is kept, and the term.
* The verifier polls its groups until none is pending; here is what it does with one group in one
  poll.
-/

namespace RustExample.OpenraftCluster.MembershipCleanup

open List

/-! ### Views of a group -/

/-- A membership with the index of its log entry, if it is from the log. -/
structure StoredMembership where
  logId : Option ℕ
  membership : Membership

/-- The order of log ids: what is not from the log comes first. -/
def StoredMembership.rank (m : StoredMembership) : ℕ :=
  match m.logId with
  | none => 0
  | some index => index + 1

/-- The node is a voter or a learner. -/
def StoredMembership.Contains (m : StoredMembership) (id : NodeId) : Prop :=
  (m.membership.getNode id).isSome

/-- The metrics of one node. `isLeader` is the live state, not the recorded leader. -/
structure GroupMetrics where
  id : NodeId
  currentTerm : ℕ
  isLeader : Bool
  membershipConfig : StoredMembership

/-- What a node answers to the request for its metrics. -/
inductive Reply
  | metrics (m : GroupMetrics)
  | error (message : String)
  | other (response : String)
  | failed (err : String)

/-! ### The check -/

/-- The first metrics, or the first ones of a leader. -/
def fetchGroupMetricsInner (selfId : NodeId) (requireLeader : Bool) :
    List (NodeId × Reply) → Option GroupMetrics
  | [] => none
  | (nodeId, reply) :: rest =>
    if nodeId = selfId then fetchGroupMetricsInner selfId requireLeader rest
    else
      match reply with
      | .metrics m =>
        if requireLeader && !m.isLeader then fetchGroupMetricsInner selfId requireLeader rest
        else some m
      | .error _ | .other _ | .failed _ => fetchGroupMetricsInner selfId requireLeader rest

/-- The metrics of the first leader that replies. -/
def fetchAuthoritativeGroupMetrics (selfId : NodeId) (replies : List (NodeId × Reply)) :
    Option GroupMetrics :=
  fetchGroupMetricsInner selfId true replies

/-- The body of the loop in `cleanup_removed_local_groups`: is the group removed? -/
def removesGroup (selfId : NodeId) (persisted : Option StoredMembership)
    (replies : List (NodeId × Reply)) : Bool :=
  match persisted with
  | none => false
  | some localMembership =>
    if (localMembership.membership.getNode selfId).isNone then false
    else
      match fetchAuthoritativeGroupMetrics selfId replies with
      | none => false
      | some remoteMetrics =>
        let remoteMembership := remoteMetrics.membershipConfig.membership
        if remoteMembership.nodeIds = [] then false
        else if (remoteMembership.getNode selfId).isSome then false
        else true

/-- The groups whose store is removed, and what the function returns. `persisted` reads the stored
membership, and `removeStore` is the outcome of a removal. -/
def cleanupRemovedLocalGroups (selfId : NodeId)
    (persisted : String → Except String (Option StoredMembership))
    (replies : String → List (NodeId × Reply)) (removeStore : String → Except String Unit) :
    List String → List String × Except String Bool
  | [] => ([], .ok false)
  | groupId :: groupIds =>
    match persisted groupId with
    | .error err => ([], .error err)
    | .ok localMembership =>
      let rest := cleanupRemovedLocalGroups selfId persisted replies removeStore groupIds
      if removesGroup selfId localMembership (replies groupId) then
        match removeStore groupId with
        | .error err => ([groupId], .error err)
        | .ok () => (groupId :: rest.1, rest.2.map fun _ => true)
      else rest

/-- How the check ends. -/
inductive Verdict
  | pending
  | verified
  | shutdown
  deriving DecidableEq, Repr

/-- One group in one poll of the startup verifier. -/
def verifyGroup (selfId : NodeId) (bootAsControl localIsLeader : Bool)
    (replies : List (NodeId × Reply)) : Verdict :=
  if localIsLeader then .verified
  else
    match fetchAuthoritativeGroupMetrics selfId replies with
    | some leaderMetrics =>
      let membership := leaderMetrics.membershipConfig.membership
      let inMembership := (membership.getNode selfId).isSome
      if bootAsControl && membership.nodeIds ≠ [] && !inMembership then .shutdown
      else .verified
    | none => .pending

/-! ### What the check should follow -/

/-- The metrics that are received: those of other nodes, up to the first leader. -/
def received (selfId : NodeId) : List (NodeId × Reply) → List GroupMetrics
  | [] => []
  | (nodeId, reply) :: rest =>
    if nodeId = selfId then received selfId rest
    else
      match reply with
      | .metrics m => if m.isLeader then [m] else m :: received selfId rest
      | .error _ | .other _ | .failed _ => received selfId rest

/-- The node's own membership and those it is told. -/
def views (selfId : NodeId) (persisted : Option StoredMembership)
    (replies : List (NodeId × Reply)) : List StoredMembership :=
  persisted.toList ++ (received selfId replies).map (·.membershipConfig)

/-- A membership with the greatest log index. -/
def IsNewest (m : StoredMembership) (l : List StoredMembership) : Prop :=
  m ∈ l ∧ ∀ m' ∈ l, m'.rank ≤ m.rank

/-- The newest membership leaves the node out. -/
def Removed (selfId : NodeId) (persisted : Option StoredMembership)
    (replies : List (NodeId × Reply)) : Prop :=
  ∀ m, IsNewest m (views selfId persisted replies) → ¬ m.Contains selfId

/-- The views that raft permits: memberships are entries of one log, and a term has one leader. -/
structure RaftPermits (selfId : NodeId) (persisted : Option StoredMembership)
    (replies : List (NodeId × Reply)) : Prop where
  one_log : ∃ log : Option ℕ → Membership, ∀ m ∈ views selfId persisted replies,
    m.membership = log m.logId
  one_leader : ∀ m ∈ received selfId replies, ∀ m' ∈ received selfId replies, m.isLeader = true →
    m'.isLeader = true → m.currentTerm = m'.currentTerm → m.id = m'.id

/-- The first leader that replies answers this. -/
def FirstLeader (selfId : NodeId) (replies : List (NodeId × Reply)) (r : GroupMetrics) : Prop :=
  ∃ before nodeId after, replies = before ++ (nodeId, .metrics r) :: after ∧ nodeId ≠ selfId ∧
    r.isLeader = true ∧ ∀ p ∈ before, p.1 = selfId ∨ ∀ m, p.2 = .metrics m → m.isLeader = false

/-- The first leader that replies leaves the node out, which the newest membership has. -/
def Misled (selfId : NodeId) (persisted : Option StoredMembership)
    (replies : List (NodeId × Reply)) : Prop :=
  ∃ r m, FirstLeader selfId replies r ∧ r.membershipConfig.membership.nodeIds ≠ [] ∧
    ¬ r.membershipConfig.Contains selfId ∧ IsNewest m (views selfId persisted replies) ∧
    r.membershipConfig.rank < m.rank ∧ m.Contains selfId

section Check

variable {selfId : NodeId} {persisted : Option StoredMembership} {replies : List (NodeId × Reply)}
  {r : GroupMetrics}

theorem FirstLeader.cons (h : FirstLeader selfId replies r) {p : NodeId × Reply}
    (hp : p.1 = selfId ∨ ∀ m, p.2 = .metrics m → m.isLeader = false) :
    FirstLeader selfId (p :: replies) r := by
  obtain ⟨before, nodeId, after, rfl, hne, hleader, hbefore⟩ := h
  refine ⟨p :: before, nodeId, after, rfl, hne, hleader, fun q hq => ?_⟩
  rcases List.mem_cons.mp hq with rfl | hq
  · exact hp
  · exact hbefore q hq

theorem FirstLeader.of_fetch (h : fetchAuthoritativeGroupMetrics selfId replies = some r) :
    FirstLeader selfId replies r := by
  induction replies with
  | nil => cases h
  | cons p replies ih =>
    obtain ⟨nodeId, reply⟩ := p
    rw [fetchAuthoritativeGroupMetrics, fetchGroupMetricsInner.eq_def] at h
    dsimp only at h
    by_cases hself : nodeId = selfId
    · rw [if_pos hself] at h
      exact (ih h).cons (.inl hself)
    rw [if_neg hself] at h
    cases reply with
    | metrics m =>
      cases hleader : m.isLeader with
      | false =>
        simp only [hleader, Bool.not_false, Bool.and_self, if_true] at h
        refine (ih h).cons (.inr fun m' hm' => ?_)
        cases hm'
        exact hleader
      | true =>
        simp only [hleader, Bool.not_true, Bool.and_false, Bool.false_eq_true, if_false] at h
        obtain ⟨⟩ := h
        exact ⟨[], nodeId, replies, rfl, hself, hleader, nofun⟩
    | error | other | failed => exact (ih h).cons (.inr nofun)

theorem FirstLeader.fetch_and_mem (h : FirstLeader selfId replies r) :
    fetchAuthoritativeGroupMetrics selfId replies = some r ∧ r ∈ received selfId replies := by
  obtain ⟨before, nodeId, after, rfl, hne, hleader, hbefore⟩ := h
  induction before with
  | nil =>
    simp [fetchAuthoritativeGroupMetrics, fetchGroupMetricsInner, received, hne, hleader]
  | cons p before ih =>
    obtain ⟨nodeId', reply⟩ := p
    have hp := hbefore _ mem_cons_self
    obtain ⟨hfetch, hmem⟩ := ih fun q hq => hbefore q (mem_cons_of_mem _ hq)
    rw [cons_append, fetchAuthoritativeGroupMetrics, fetchGroupMetricsInner.eq_def,
      received.eq_def]
    dsimp only
    by_cases hself : nodeId' = selfId
    · rw [if_pos hself, if_pos hself]
      exact ⟨hfetch, hmem⟩
    rw [if_neg hself, if_neg hself]
    cases reply with
    | metrics m =>
      have hm : m.isLeader = false := hp.resolve_left hself m rfl
      simp only [hm, Bool.not_false, Bool.and_self, if_true, Bool.false_eq_true, if_false]
      exact ⟨hfetch, mem_cons_of_mem _ hmem⟩
    | error | other | failed => exact ⟨hfetch, hmem⟩

theorem fetchAuthoritative_eq_some :
    fetchAuthoritativeGroupMetrics selfId replies = some r ↔ FirstLeader selfId replies r :=
  ⟨.of_fetch, fun h => h.fetch_and_mem.1⟩

/-- The first leader that replies leaves the node out. -/
def LeftOut (selfId : NodeId) (replies : List (NodeId × Reply)) : Prop :=
  ∃ r, FirstLeader selfId replies r ∧ r.membershipConfig.membership.nodeIds ≠ [] ∧
    ¬ r.membershipConfig.Contains selfId

/-- The node has stored a membership that contains it. -/
def StoresItself (selfId : NodeId) (persisted : Option StoredMembership) : Prop :=
  ∃ l, persisted = some l ∧ l.Contains selfId

theorem removesGroup_iff : removesGroup selfId persisted replies = true ↔
    StoresItself selfId persisted ∧ LeftOut selfId replies := by
  simp only [StoresItself, LeftOut, ← fetchAuthoritative_eq_some, removesGroup,
    StoredMembership.Contains]
  cases persisted with
  | none => simp
  | some l =>
    cases hself : l.membership.getNode selfId with
    | none => simp [hself]
    | some addr =>
      cases hfetch : fetchAuthoritativeGroupMetrics selfId replies with
      | none => simp [hself]
      | some r =>
        cases hget : r.membershipConfig.membership.getNode selfId <;> simp [hself, hget]

theorem verifyGroup_eq_shutdown {bootAsControl localIsLeader : Bool} :
    verifyGroup selfId bootAsControl localIsLeader replies = .shutdown ↔
      bootAsControl = true ∧ localIsLeader = false ∧ LeftOut selfId replies := by
  simp only [LeftOut, ← fetchAuthoritative_eq_some, verifyGroup, StoredMembership.Contains]
  cases localIsLeader with
  | true => simp
  | false =>
    cases hfetch : fetchAuthoritativeGroupMetrics selfId replies with
    | none => simp
    | some r =>
      cases bootAsControl <;>
        cases hget : r.membershipConfig.membership.getNode selfId <;> simp [hget]

/-! ### When the decision is right -/

theorem logId_eq_of_rank_eq {m m' : StoredMembership} (h : m.rank = m'.rank) :
    m.logId = m'.logId := by
  unfold StoredMembership.rank at h
  cases hm : m.logId <;> cases hm' : m'.logId <;> simp_all

/-- A node that is left out although the newest membership has it has been misled. -/
theorem misled_of_not_removed (hraft : RaftPermits selfId persisted replies)
    (hleft : LeftOut selfId replies) (h : ¬ Removed selfId persisted replies) :
    Misled selfId persisted replies := by
  obtain ⟨r, hfirst, hnonempty, hout⟩ := hleft
  simp only [Removed, not_forall, not_not] at h
  obtain ⟨m, hnewest, hm⟩ := h
  have hr : r.membershipConfig ∈ views selfId persisted replies :=
    mem_append_right _ (mem_map_of_mem hfirst.fetch_and_mem.2)
  refine ⟨r, m, hfirst, hnonempty, hout, hnewest, ?_, hm⟩
  refine lt_of_le_of_ne (hnewest.2 _ hr) fun heq => hout ?_
  obtain ⟨log, hlog⟩ := hraft.one_log
  rw [StoredMembership.Contains, hlog _ hr, logId_eq_of_rank_eq heq, ← hlog _ hnewest.1]
  exact hm

/-- A misled node is left out although it has not been removed. -/
theorem Misled.not_removed (h : Misled selfId persisted replies) :
    LeftOut selfId replies ∧ ¬ Removed selfId persisted replies := by
  obtain ⟨r, m, hfirst, hnonempty, hout, hnewest, -, hm⟩ := h
  exact ⟨⟨r, hfirst, hnonempty, hout⟩, fun hremoved => hremoved m hnewest hm⟩

/-- Only groups for which the check says so are removed. -/
theorem removesGroup_of_mem_cleanup {persisted : String → Except String (Option StoredMembership)}
    {replies : String → List (NodeId × Reply)} {removeStore : String → Except String Unit}
    {groupIds : List String} {groupId : String}
    (h : groupId ∈ (cleanupRemovedLocalGroups selfId persisted replies removeStore groupIds).1) :
    ∃ p, persisted groupId = .ok p ∧ removesGroup selfId p (replies groupId) = true := by
  induction groupIds with
  | nil => cases h
  | cons g groupIds ih =>
    rw [cleanupRemovedLocalGroups] at h
    cases hpersisted : persisted g with
    | error => simp [hpersisted] at h
    | ok p =>
      simp only [hpersisted] at h
      split_ifs at h with hremoves
      · cases hstore : removeStore g with
        | error =>
          simp only [hstore, mem_singleton] at h
          exact h ▸ ⟨p, hpersisted, hremoves⟩
        | ok =>
          simp only [hstore, mem_cons] at h
          rcases h with rfl | h
          · exact ⟨p, hpersisted, hremoves⟩
          · exact ih h
      · exact ih h

/-- **A group is wiped, and the node shut down, only after its removal, exactly where the node is
not misled.** Whatever raft permits, it removes a group only if the newest membership it knows
leaves it out, unless it has stored one with itself and the first leader that replied is behind; the
same of the shutdown. No other groups are removed. -/
theorem wipe_safe_iff (hraft : RaftPermits selfId persisted replies) :
    ((removesGroup selfId persisted replies = true → Removed selfId persisted replies) ↔
      ¬ (StoresItself selfId persisted ∧ Misled selfId persisted replies)) ∧
    (∀ bootAsControl localIsLeader,
      (verifyGroup selfId bootAsControl localIsLeader replies = .shutdown →
        Removed selfId persisted replies) ↔
      ¬ (bootAsControl = true ∧ localIsLeader = false ∧ Misled selfId persisted replies)) ∧
    ∀ persisted replies removeStore groupIds, ∀ groupId ∈
      (cleanupRemovedLocalGroups selfId persisted replies removeStore groupIds).1,
      ∃ p, persisted groupId = .ok p ∧ removesGroup selfId p (replies groupId) = true := by
  refine ⟨?_, fun bootAsControl localIsLeader => ?_, fun _ _ _ _ _ => removesGroup_of_mem_cleanup⟩
  · rw [removesGroup_iff]
    constructor
    · rintro h ⟨hself, hmisled⟩
      exact hmisled.not_removed.2 (h ⟨hself, hmisled.not_removed.1⟩)
    · rintro h ⟨hself, hleft⟩
      by_contra hremoved
      exact h ⟨hself, misled_of_not_removed hraft hleft hremoved⟩
  · rw [verifyGroup_eq_shutdown]
    constructor
    · rintro h ⟨hboot, hlocal, hmisled⟩
      exact hmisled.not_removed.2 (h ⟨hboot, hlocal, hmisled.not_removed.1⟩)
    · rintro h ⟨hboot, hlocal, hleft⟩
      by_contra hremoved
      exact h ⟨hboot, hlocal, misled_of_not_removed hraft hleft hremoved⟩

end Check

/-! ### A deposed leader -/

/-- The memberships with and without node `c`. -/
def withC : Membership :=
  ⟨{"a", "b", "c"},
    (((∅ : KeyStore NodeId String).insert "a" "/a").insert "b" "/b").insert "c" "/c"⟩

def withoutC : Membership :=
  ⟨{"a", "b"}, ((∅ : KeyStore NodeId String).insert "a" "/a").insert "b" "/b"⟩

/-- The log of a group from which node `c` has been removed, and to which it was added again. -/
def readded : Option ℕ → Membership
  | some 3 => withoutC
  | _ => withC

/-- What a leader of term 1 reports, whose log ends at entry 3. -/
def leaderA : NodeId × Reply := ("a", .metrics ⟨"a", 1, true, ⟨some 3, withoutC⟩⟩)

theorem getNode_withC : (withC.getNode "c").isSome = true := by decide +kernel

theorem getNode_withoutC : (withoutC.getNode "c").isSome = false := by decide +kernel

theorem views_leaderA (index : ℕ) : views "c" (some ⟨some index, withC⟩) [leaderA] =
    [⟨some index, withC⟩, ⟨some 3, withoutC⟩] := rfl

theorem raftPermits_leaderA {index : ℕ} (h : index ≠ 3) :
    RaftPermits "c" (some ⟨some index, withC⟩) [leaderA] where
  one_log := by
    refine ⟨readded, fun m hm => ?_⟩
    rw [views_leaderA, mem_cons, mem_singleton] at hm
    rcases hm with rfl | rfl
    · show withC = readded (some index)
      unfold readded
      split
      next heq => exact absurd (Option.some.inj heq) h
      next => rfl
    · rfl
  one_leader m hm m' hm' _ _ _ := by
    have hreceived : received "c" [leaderA] = [⟨"a", 1, true, ⟨some 3, withoutC⟩⟩] := rfl
    rw [hreceived, mem_singleton] at hm hm'
    rw [hm, hm']

/-- A node that has been removed, and not added again, removes its data. -/
theorem wipe_safe_iff_removed :
    removesGroup "c" (some ⟨some 2, withC⟩) [leaderA] = true ∧
      Removed "c" (some ⟨some 2, withC⟩) [leaderA] := by
  have hremoves : removesGroup "c" (some ⟨some 2, withC⟩) [leaderA] = true := by
    decide +kernel
  refine ⟨hremoves, (wipe_safe_iff (raftPermits_leaderA (by decide))).1.mpr ?_ hremoves⟩
  rintro ⟨-, r, m, -, -, -, ⟨hmem, hmax⟩, -, hm⟩
  rw [views_leaderA] at hmem hmax
  have hle := hmax ⟨some 3, withoutC⟩ (by simp)
  rw [mem_cons, mem_singleton] at hmem
  rcases hmem with rfl | rfl
  · exact absurd hle (by decide)
  · exact absurd hm (by simp [StoredMembership.Contains, getNode_withoutC])

/-- Node `c` was added again and has stored that. The deposed leader of term 1 replies first: the
node removes its data, or shuts down. -/
theorem wipe_of_current_member :
    RaftPermits "c" (some ⟨some 7, withC⟩) [leaderA] ∧
    removesGroup "c" (some ⟨some 7, withC⟩) [leaderA] = true ∧
    verifyGroup "c" true false [leaderA] = .shutdown ∧
    ¬ Removed "c" (some ⟨some 7, withC⟩) [leaderA] := by
  refine ⟨raftPermits_leaderA (by decide), by decide +kernel, by decide +kernel, fun h => ?_⟩
  refine h ⟨some 7, withC⟩ ⟨by rw [views_leaderA]; simp, fun m hm => ?_⟩ getNode_withC
  rw [views_leaderA, mem_cons, mem_singleton] at hm
  rcases hm with rfl | rfl <;> decide

end RustExample.OpenraftCluster.MembershipCleanup
