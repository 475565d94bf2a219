import RustExample.OpenraftCluster.Membership.JoinAttempts

/-!
# Joining is all or nothing

A watcher stops as a member when every group has answered so, and as full when one of them has
answered that it has no seat. Nothing takes back what the groups before have granted: a node to
which the second group has no seat left stays a voter of the first one, and its watcher stops.
-/

namespace RustExample.OpenraftCluster

open Function

variable {ι : Type}

/-! ### What the joins keep -/

/-- The node is a voter of every group or of none. -/
def AllOrNone (layout : ControlLayout) (s : JoinSystem ι) (n : NodeId) : Prop :=
  (∀ g ∈ layout.groupIds, n ∈ s.voters g) ∨ ∀ g ∈ layout.groupIds, n ∉ s.voters g

/-- A watcher that stops, and not for a shutdown, leaves its node in every group or in none. -/
def StopsWhole (layout : ControlLayout) (s s' : JoinSystem ι) : Prop :=
  ∀ n result, (∀ r, s.watch n ≠ .stopped r) → s'.watch n = .stopped result → result ≠ .shutdown →
    AllOrNone layout s' n

/-- A request to join does not raise the number of voters of its group over the limit. -/
def KeepsSeats (layout : ControlLayout) (s s' : JoinSystem ι) : JoinEvent ι → Prop
  | .group g (.call _ (.joinCluster _) _ _) =>
    (s'.voters g).card ≤ (s.voters g).card ∨ (s'.voters g).card ≤ layout.maxControlNodes
  | _ => True

/-- The node is a voter of the first group if it is a voter of any. -/
def InFirst (layout : ControlLayout) (s : JoinSystem ι) (n : NodeId) : Prop :=
  ∀ g ∈ layout.groupIds, n ∈ s.voters g → n ∈ s.voters layout.firstGroup

/-- Another change leaves a joining node's seats, and gives it none before the first group's. -/
def LeavesJoining (layout : ControlLayout) (s : JoinSystem ι) (g : GroupId) :
    GroupEvent ι → Prop
  | .call _ r (.changeMembership proposed) _ => (∀ req, r ≠ .joinCluster req) →
      ∀ n, (s.watch n).Active → (n ∈ s.voters g → n ∈ proposed) ∧
        (n ∈ proposed → n ∈ s.voters g ∨ g = layout.firstGroup ∨ n ∈ s.voters layout.firstGroup)
  | _ => True

/-- Metrics that show the node as a voter are right about it. -/
def ShownRight (s : JoinSystem ι) (n : NodeId) : (call : JoinCall) → call.Result → Prop
  | .fetchMetrics g, some metrics => n ∈ metrics.membership.voters → n ∈ s.voters g
  | _, _ => True

/-- **The steps that do not tear a join apart.** A watcher starts with its node in the first group
if in any, and in none if there is no one to ask. The metrics are right where they show the node as
a voter. Only the first group says that there is no seat, and while the node has none there. No
change of another kind interferes. -/
def JoinsUntorn (layout : ControlLayout) (s : JoinSystem ι) : JoinEvent ι → Prop
  | .start n bootstrapNodes _ => InFirst layout s n ∧
      (bootstrapNodes = [] ∨ layout.maxControlNodes = 0 → n ∉ s.voters layout.firstGroup)
  | .answer n call res => ShownRight s n call res ∧
      (TellsFull ⟨layout, n⟩ call res →
        call.groupId = layout.firstGroup ∧ n ∉ s.voters layout.firstGroup)
  | .group g e => LeavesJoining layout s g e
  | .tick _ | .send _ _ _ | .shutdown _ => True

/-- No thread handles a request of the node. -/
def NoRequests (s : JoinSystem ι) (n : NodeId) : Prop :=
  ∀ g i t req, (s.groups g).stage i = .running t → t.request = .joinCluster req → req.nodeId ≠ n

/-- The requests for the later groups are those of a voter of the first one. -/
def RequestsInOrder (layout : ControlLayout) (s : JoinSystem ι) (n : NodeId) : Prop :=
  ∀ g i t req, (s.groups g).stage i = .running t → t.request = .joinCluster req →
    req.nodeId = n → g = layout.firstGroup ∨ n ∈ s.voters layout.firstGroup

/-- A thread that handles a request of the node, or has handled it. -/
structure Awaits (s : JoinSystem ι) (n : NodeId) (g : GroupId) (i : ι) : Prop where
  started : (s.groups g).stage i ≠ .waiting
  mine : ∀ t, (s.groups g).stage i = .running t →
    ∃ req, t.request = .joinCluster req ∧ req.nodeId = n
  granted : ∀ answer, s.replies g i = some answer → answer.grants → n ∈ s.voters g

/-- What an attempt has been shown is so, and it goes on as an attempt does. -/
structure AttemptKeeps (layout : ControlLayout) (s : JoinSystem ι) (n : NodeId)
    (attempt : JoinAttempt ι) : Prop where
  shown : ∀ g, ShowsVoter n g attempt.log → n ∈ s.voters g
  follows : attempt.program.Follows (JoinAllowed ⟨layout, n⟩) (JoinPost ⟨layout, n⟩) attempt.log
  awaits : ∀ i, attempt.request = some i → ∀ target g addr left k,
    attempt.program = .call (.requestJoin target g addr left) k → Awaits s n g i

/-- The joins in progress. -/
structure JoinsKept (layout : ControlLayout) (s : JoinSystem ι) : Prop where
  unanswered : ∀ g i, (s.groups g).stage i = .waiting → s.replies g i = none
  idle : ∀ n, s.watch n = .idle → NoRequests s n
  inFirst : ∀ n, (s.watch n).Active → InFirst layout s n
  inOrder : ∀ n, (s.watch n).Active → RequestsInOrder layout s n
  attempts : ∀ n b a attempt, s.watch n = .trying b a attempt → AttemptKeeps layout s n attempt

variable {layout : ControlLayout} {raft : RaftGroup} {s s' : JoinSystem ι} {n : NodeId}

theorem joinsKept_initial (m : GroupId → Membership) :
    JoinsKept layout (.initial m : JoinSystem ι) where
  unanswered _ _ _ := rfl
  idle _ _ _ _ _ _ := nofun
  inFirst _ := nofun
  inOrder _ := nofun
  attempts _ _ _ _ := nofun

/-! ### Steps of a watcher -/

theorem AttemptKeeps.setWatch {attempt : JoinAttempt ι} (h : AttemptKeeps layout s n attempt)
    (n' : NodeId) (w : JoinWatch ι) : AttemptKeeps layout (s.setWatch n' w) n attempt where
  shown := h.shown
  follows := h.follows
  awaits i hi target g addr left k hk :=
    let ⟨hstarted, hmine, hgranted⟩ := h.awaits i hi target g addr left k hk
    ⟨hstarted, hmine, hgranted⟩

theorem JoinsKept.setWatch (h : JoinsKept layout s) {w : JoinWatch ι} (hidle : w ≠ .idle)
    (hactive : w.Active → InFirst layout s n ∧ RequestsInOrder layout s n)
    (hattempt : ∀ b a attempt, w = .trying b a attempt → AttemptKeeps layout s n attempt) :
    JoinsKept layout (s.setWatch n w) := by
  have hwatch (n' : NodeId) :
      n' = n ∧ (s.setWatch n w).watch n' = w ∨ (s.setWatch n w).watch n' = s.watch n' := by
    by_cases hn : n' = n
    · subst hn
      exact .inl ⟨rfl, by simp [JoinSystem.setWatch]⟩
    · exact .inr (by simp [JoinSystem.setWatch, hn])
  refine ⟨h.unanswered, fun n' hn' => ?_, fun n' hn' => ?_, fun n' hn' => ?_,
    fun n' b a attempt hn' => ?_⟩
  · rcases hwatch n' with ⟨-, hw⟩ | hw
    · exact absurd (hw.symm.trans hn') hidle
    · exact h.idle n' (hw.symm.trans hn')
  · rcases hwatch n' with ⟨rfl, hw⟩ | hw
    · exact (hactive (hw ▸ hn')).1
    · exact h.inFirst n' (hw ▸ hn')
  · rcases hwatch n' with ⟨rfl, hw⟩ | hw
    · exact (hactive (hw ▸ hn')).2
    · exact h.inOrder n' (hw ▸ hn')
  · rcases hwatch n' with ⟨rfl, hw⟩ | hw
    · exact (hattempt b a attempt (hw.symm.trans hn')).setWatch n' w
    · exact (h.attempts n' b a attempt (hw.symm.trans hn')).setWatch n w

variable {log : JoinLog}

/-- What an attempt has been shown, with the next answer. -/
theorem shown_snoc {call : JoinCall} {res : call.Result}
    (hlog : ∀ g, ShowsVoter n g log → n ∈ s.voters g)
    (hres : ∀ g, ShowsVoter n g [⟨call, res⟩] → n ∈ s.voters g) (g : GroupId)
    (h : ShowsVoter n g (log ++ [⟨call, res⟩])) : n ∈ s.voters g :=
  (shows_append.mp h).elim (hlog g) (hres g)

/-- **A watcher that stops with its node in every group or in none.** -/
theorem allOrNone_of_resume {b : List NodeId} {a : String}
    {p : JoinProgram (Option JoinClusterOutcome)} {result : ControlJoinWatchResult}
    (hp : p.Follows (JoinAllowed ⟨layout, n⟩) (JoinPost ⟨layout, n⟩) log)
    (hshown : ∀ g, ShowsVoter n g log → n ∈ s.voters g) (hfirst : InFirst layout s n)
    (hfull : EndsFull ⟨layout, n⟩ log → n ∉ s.voters layout.firstGroup)
    (hstop : (.resume b a log p : JoinWatch ι) = .stopped result) : AllOrNone layout s n := by
  cases p with
  | call call k => cases hstop
  | done outcome =>
    cases outcome with
    | none => cases hstop
    | some outcome =>
      cases outcome with
      | joined => exact .inl fun g hg => hshown g (hp g hg)
      | alreadyMember => exact .inl fun g hg => hshown g (hp g hg)
      | full => exact .inr fun g hg hn => hfull hp (hfirst g hg hn)

theorem JoinsKept.resume (h : JoinsKept layout s) (hactive : (s.watch n).Active) {b : List NodeId}
    {a : String} {p : JoinProgram (Option JoinClusterOutcome)}
    (hp : p.Follows (JoinAllowed ⟨layout, n⟩) (JoinPost ⟨layout, n⟩) log)
    (hshown : ∀ g, ShowsVoter n g log → n ∈ s.voters g) :
    JoinsKept layout (s.setWatch n (.resume b a log p)) := by
  refine h.setWatch ?_ (fun _ => ⟨h.inFirst n hactive, h.inOrder n hactive⟩) ?_
  · rcases p with (_ | outcome) | ⟨call, k⟩ <;> exact nofun
  · intro b' a' attempt hw
    rcases p with (_ | outcome) | ⟨call, k⟩
    · cases hw
    · cases hw
    · obtain ⟨-, -, rfl⟩ := JoinWatch.trying.inj hw
      exact ⟨hshown, hp, fun i => nofun⟩

theorem shows_requestJoin {target : NodeId} {g g' : GroupId} {addr : String} {left : ℕ}
    {res : Except String MembershipAnswer}
    (h : ShowsVoter n g' [⟨.requestJoin target g addr left, res⟩]) :
    g' = g ∧ ∃ answer, res = .ok answer ∧ answer.grants := by
  rcases h with ⟨metrics, hmem, -⟩ | ⟨target', addr', left', answer, hmem, hgrants⟩
  · cases List.mem_singleton.mp hmem
  · cases List.mem_singleton.mp hmem
    exact ⟨rfl, answer, rfl, hgrants⟩

theorem shows_fetchMetrics {g g' : GroupId} {res : Option RaftMetrics}
    (h : ShowsVoter n g' [⟨.fetchMetrics g, res⟩]) :
    g' = g ∧ ∃ metrics, res = some metrics ∧ n ∈ metrics.membership.voters := by
  rcases h with ⟨metrics, hmem, hvoter⟩ | ⟨target', addr', left', answer, hmem, -⟩
  · cases List.mem_singleton.mp hmem
    exact ⟨rfl, metrics, rfl, hvoter⟩
  · cases List.mem_singleton.mp hmem

variable {req : JoinClusterRequest}

theorem RejectedBy.not_grants {metrics : RaftMetrics} {answer : MembershipAnswer}
    (h : RejectedBy metrics req answer) : ¬answer.grants := by
  obtain ⟨hleader, hanswer⟩ := h
  dsimp only at hanswer
  rw [if_pos (by simp [hleader])] at hanswer
  obtain rfl := FencedProgram.done.inj hanswer
  exact nofun

theorem stopsWhole_setWatch {w : JoinWatch ι}
    (h : ∀ result, w = .stopped result → result ≠ .shutdown → AllOrNone layout s n) :
    StopsWhole layout s (s.setWatch n w) := by
  intro n' result hrunning hstop hresult
  by_cases hn : n' = n
  · subst hn
    exact h result (by simpa [JoinSystem.setWatch] using hstop) hresult
  · exact absurd (by simpa [JoinSystem.setWatch, hn] using hstop) (hrunning result)

/-- **An answer keeps the joins in progress**; who stops on it is in every group or in none. -/
theorem JoinsKept.answered (h : JoinsKept layout s) {b : List NodeId} {a : String} {call : JoinCall}
    {k : call.Result → JoinProgram (Option JoinClusterOutcome)} {request : Option ι}
    (hn : s.watch n = .trying b a ⟨log, .call call k, request⟩) {res : call.Result}
    (hres : ∀ g, ShowsVoter n g [⟨call, res⟩] → n ∈ s.voters g)
    (hfull : TellsFull ⟨layout, n⟩ call res → n ∉ s.voters layout.firstGroup) :
    JoinsKept layout (s.setWatch n (.resume b a (log ++ [⟨call, res⟩]) (k res))) ∧
      StopsWhole layout s (s.setWatch n (.resume b a (log ++ [⟨call, res⟩]) (k res))) := by
  have hactive : (s.watch n).Active := by rw [hn]; trivial
  obtain ⟨hshown, hfollows, -⟩ := h.attempts n b a _ hn
  have hshown' := shown_snoc hshown hres
  refine ⟨h.resume hactive (hfollows.2 res) hshown', stopsWhole_setWatch fun result hstop _ => ?_⟩
  exact allOrNone_of_resume (hfollows.2 res) hshown' (h.inFirst n hactive)
    (fun hends => hfull (endsFull_snoc.mp hends)) hstop

/-! ### Steps of a group -/

section Groups

variable [DecidableEq ι] {g g' : GroupId} {e : GroupEvent ι} {es : List (GroupEvent ι)}
  {group : GroupState ι} {i : ι}

/-- The groups and the watchers after a step of a group. -/
def JoinSystem.afterGroup (s : JoinSystem ι) (g : GroupId) (e : GroupEvent ι)
    (group : GroupState ι) : JoinSystem ι :=
  (s.setGroup g group).record g e

theorem groups_afterGroup : (s.afterGroup g e group).groups = update s.groups g group := by
  cases e <;> rfl

theorem watch_afterGroup : (s.afterGroup g e group).watch = s.watch := by
  cases e <;> rfl

/-- An answer is on its way, or a thread has just sent it. -/
theorem replies_afterGroup {answer : MembershipAnswer}
    (h : (s.afterGroup g e group).replies g' i = some answer) :
    s.replies g' i = some answer ∨ g' = g ∧ ∃ r, e = .finish i r answer := by
  cases e with
  | finish j r a =>
    by_cases hg : g' = g
    · subst hg
      by_cases hi : i = j
      · subst hi
        obtain rfl : a = answer := by
          simpa [JoinSystem.afterGroup, JoinSystem.record] using h
        exact .inr ⟨rfl, r, rfl⟩
      · exact .inl (by
          simpa [JoinSystem.afterGroup, JoinSystem.record, JoinSystem.setGroup, hi] using h)
    · exact .inl (by
        simpa [JoinSystem.afterGroup, JoinSystem.record, JoinSystem.setGroup, hg] using h)
  | _ => exact .inl h

theorem voters_afterGroup (g' : GroupId) : (s.afterGroup g e group).voters g' =
    if g' = g then group.obj.voters else s.voters g' := by
  rw [JoinSystem.voters, groups_afterGroup]
  split_ifs with hg
  · subst hg
    rw [update_self]
  · rw [update_of_ne hg, JoinSystem.voters]

theorem mem_voters_afterGroup (hd : SeatDisciplined raft es (s.groups g))
    (hstep : GroupStep raft g (s.groups g) e group) (hleaves : LeavesJoining layout s g e)
    (hactive : (s.watch n).Active) (hn : n ∈ s.voters g') :
    n ∈ (s.afterGroup g e group).voters g' := by
  rw [voters_afterGroup]
  split_ifs with hg
  · subst hg
    rcases voters_cases_of_step hd hstep with hm | ⟨req, -, -, hm⟩ |
      ⟨i, r, proposed, res, rfl, hr, hm⟩
    · exact hm ▸ hn
    · exact hm ▸ Finset.mem_insert_of_mem hn
    · have hproposed : n ∈ proposed := (hleaves hr n hactive).1 hn
      rcases hm with hm | hm
      · exact hm ▸ Finset.mem_union_right _ hproposed
      · exact hm ▸ hproposed
  · exact hn

/-- A node that is joining is given a seat in a later group only if it has one in the first. -/
theorem JoinsKept.mem_voters (h : JoinsKept layout s) (hd : SeatDisciplined raft es (s.groups g))
    (hstep : GroupStep raft g (s.groups g) e group) (hleaves : LeavesJoining layout s g e)
    (hactive : (s.watch n).Active) (hn : n ∈ (s.afterGroup g e group).voters g') :
    n ∈ s.voters g' ∨ g' = layout.firstGroup ∨ n ∈ s.voters layout.firstGroup := by
  rw [voters_afterGroup] at hn
  split_ifs at hn with hg
  · subst hg
    rcases voters_cases_of_step hd hstep with hm | ⟨req, ⟨i, t, hi, ht, -⟩, -, hm⟩ |
      ⟨i, r, proposed, res, rfl, hr, hm⟩
    · rw [hm] at hn
      exact .inl hn
    · rcases Finset.mem_insert.mp (hm ▸ hn) with rfl | hn
      · exact .inr (h.inOrder _ hactive g' i t req hi ht rfl)
      · exact .inl hn
    · have hgiven := (hleaves hr n hactive).2
      rcases hm with hm | hm
      · exact (Finset.mem_union.mp (hm ▸ hn)).elim Or.inl hgiven
      · exact hgiven (hm ▸ hn)
  · exact .inl hn

/-- A request goes on, and its answer is true when it is sent. -/
theorem Awaits.afterGroup (h : Awaits s n g' i) (hd : SeatDisciplined raft es (s.groups g))
    (hstep : GroupStep raft g (s.groups g) e group)
    (hkept : n ∈ s.voters g' → n ∈ (s.afterGroup g e group).voters g') :
    Awaits (s.afterGroup g e group) n g' i := by
  have hgroup : (s.afterGroup g e group).groups g' = s.groups g' ∨
      g' = g ∧ (s.afterGroup g e group).groups g' = group := by
    rw [groups_afterGroup]
    by_cases hg : g' = g
    · subst hg
      exact .inr ⟨rfl, update_self g' group s.groups⟩
    · exact .inl (update_of_ne hg group s.groups)
  refine ⟨fun hwaiting => ?_, fun t ht => ?_, fun answer hanswer hgrants => ?_⟩
  · rcases hgroup with hsame | ⟨rfl, hnew⟩
    · exact h.started (hsame ▸ hwaiting)
    · exact h.started (hstep.waiting (hnew ▸ hwaiting))
  · rcases hgroup with hsame | ⟨rfl, hnew⟩
    · exact h.mine t (hsame ▸ ht)
    · rcases hstep.running (hnew ▸ ht) with ⟨t', ht', hreq⟩ | hstart
      · exact hreq ▸ h.mine t' ht'
      · cases hstep with
        | start j r hj =>
          obtain ⟨rfl, -⟩ := FenceEvent.start.inj hstart
          exact absurd hj h.started
        | _ => cases hstart
  · rcases replies_afterGroup hanswer with hold | ⟨rfl, r, rfl⟩
    · exact hkept (h.granted answer hold hgrants)
    · cases hstep with
      | finish j r log a hj =>
        obtain ⟨req, hreq, rfl⟩ := h.mine _ hj
        obtain rfl : r = .joinCluster req := hreq
        exact hkept (hd.post hj hgrants)

/-- **A step of a group keeps the joins**, if its requests are those of the first group's voters. -/
theorem JoinsKept.afterGroup (h : JoinsKept layout s) (hd : SeatDisciplined raft es (s.groups g))
    (hstep : GroupStep raft g (s.groups g) e group) (hleaves : LeavesJoining layout s g e)
    (hstart : ∀ i req, e = .start i (.joinCluster req) → (s.watch req.nodeId).Active ∧
      (g = layout.firstGroup ∨ req.nodeId ∈ s.voters layout.firstGroup)) :
    JoinsKept layout (s.afterGroup g e group) := by
  have hkept {n : NodeId} (hactive : (s.watch n).Active) {g' : GroupId} :
      n ∈ s.voters g' → n ∈ (s.afterGroup g e group).voters g' :=
    mem_voters_afterGroup hd hstep hleaves hactive
  have hrequest {g' : GroupId} {i : ι} {t : FenceThread RaftCall RaftCall.Result
      MembershipRequest MembershipAnswer} {req : JoinClusterRequest}
      (ht : ((s.afterGroup g e group).groups g').stage i = .running t)
      (hreq : t.request = .joinCluster req) :
      (∃ t', (s.groups g').stage i = .running t' ∧ t'.request = .joinCluster req) ∨
        (s.watch req.nodeId).Active ∧
          (g' = layout.firstGroup ∨ req.nodeId ∈ s.voters layout.firstGroup) := by
    rw [groups_afterGroup] at ht
    by_cases hg : g' = g
    · subst hg
      rw [update_self] at ht
      rcases hstep.running ht with ⟨t', ht', hsame⟩ | he
      · exact .inl ⟨t', ht', hsame.trans hreq⟩
      · exact .inr (hstart i req (hreq ▸ he))
    · rw [update_of_ne hg] at ht
      exact .inl ⟨t, ht, hreq⟩
  refine ⟨fun g' i hi => ?_, fun n hn g' i t req ht hreq => ?_, fun n hn g' hg' hmem => ?_,
    fun n hn g' i t req ht hreq hid => ?_, fun n b a attempt hn => ?_⟩
  · have hwaiting : (s.groups g').stage i = .waiting := by
      rw [groups_afterGroup] at hi
      by_cases hg : g' = g
      · subst hg
        exact hstep.waiting (by simpa using hi)
      · simpa [hg] using hi
    cases hreply : (s.afterGroup g e group).replies g' i with
    | none => rfl
    | some answer =>
      rcases replies_afterGroup hreply with hold | ⟨rfl, r, rfl⟩
      · cases (h.unanswered g' i hwaiting).symm.trans hold
      · cases hstep with
        | finish j r log a hj => cases hwaiting.symm.trans hj
  · rw [watch_afterGroup] at hn
    rcases hrequest ht hreq with ⟨t', ht', hreq'⟩ | ⟨hactive, -⟩
    · exact h.idle n hn g' i t' req ht' hreq'
    · rintro rfl
      rw [hn] at hactive
      exact hactive
  · rw [watch_afterGroup] at hn
    rcases h.mem_voters hd hstep hleaves hn hmem with hold | rfl | hfirst
    · exact hkept hn (h.inFirst n hn g' hg' hold)
    · exact hmem
    · exact hkept hn hfirst
  · rw [watch_afterGroup] at hn
    subst hid
    rcases hrequest ht hreq with ⟨t', ht', hreq'⟩ | ⟨-, horder⟩
    · exact (h.inOrder _ hn g' i t' req ht' hreq' rfl).imp_right (hkept hn)
    · exact horder.imp_right (hkept hn)
  · rw [watch_afterGroup] at hn
    have hactive : (s.watch n).Active := by rw [hn]; trivial
    obtain ⟨hshown, hfollows, hawaits⟩ := h.attempts n b a attempt hn
    exact ⟨fun g hg => hkept hactive (hshown g hg), hfollows, fun i hi target g' addr left k hk =>
      (hawaits i hi target g' addr left k hk).afterGroup hd hstep (hkept hactive)⟩

end Groups

/-! ### Steps -/

section Steps

variable [DecidableEq ι] {e : JoinEvent ι}

/-- **A request that is sent.** -/
theorem JoinsKept.sent (h : JoinsKept layout s) {es : List (GroupEvent ι)} {b : List NodeId}
    {a : String} {target : NodeId} {g : GroupId} {addr : String} {left : ℕ}
    {k : Except String MembershipAnswer → JoinProgram (Option JoinClusterOutcome)} {i : ι}
    {group : GroupState ι} (hd : SeatDisciplined raft es (s.groups g))
    (hn : s.watch n = .trying b a ⟨log, .call (.requestJoin target g addr left) k, none⟩)
    (hstart : GroupStep raft g (s.groups g)
      (.start i (.joinCluster (ControlRuntime.joinRequest ⟨layout, n⟩ addr))) group) :
    JoinsKept layout ((s.setGroup g group).setWatch n
      (.trying b a ⟨log, .call (.requestJoin target g addr left) k, some i⟩)) := by
  have hactive : (s.watch n).Active := by rw [hn]; trivial
  obtain ⟨hshown, hfollows, -⟩ := h.attempts n b a _ hn
  have hleaves : LeavesJoining layout s g
      (.start i (.joinCluster (ControlRuntime.joinRequest ⟨layout, n⟩ addr))) := trivial
  have hkept := h.afterGroup hd hstart hleaves fun i' req he => by
    obtain ⟨-, he⟩ := FenceEvent.start.inj he
    obtain rfl := MembershipRequest.joinCluster.inj he
    exact ⟨hactive, hfollows.1.imp_right (hshown _)⟩
  refine hkept.setWatch nofun (fun _ => ⟨hkept.inFirst n hactive, hkept.inOrder n hactive⟩) ?_
  intro b' a' attempt hw
  obtain ⟨-, -, rfl⟩ := JoinWatch.trying.inj hw
  refine ⟨fun g' hg' => mem_voters_afterGroup hd hstart hleaves hactive (hshown g' hg'), hfollows,
    fun i' hi' target' g' addr' left' k' hk' => ?_⟩
  obtain ⟨⟩ := hi'
  obtain ⟨rfl, rfl, rfl, rfl⟩ := JoinCall.requestJoin.inj (CallProgram.call.inj hk').1
  cases hstart with
  | start _ _ hi =>
    refine ⟨?_, fun t ht => ?_, fun answer hanswer => ?_⟩
    · simp [groups_afterGroup, FenceSystem.setStage]
    · obtain rfl : _ = t := by simpa [groups_afterGroup, FenceSystem.setStage] using ht
      exact ⟨_, rfl, rfl⟩
    · cases (h.unanswered g i hi).symm.trans hanswer

/-- **A step keeps the joins in progress**; who stops in it is in every group or in none. -/
theorem JoinsKept.step (h : JoinsKept layout s)
    (hd : ∀ g, ∃ es, SeatDisciplined raft es (s.groups g)) (hstep : JoinStep layout raft s e s')
    (huntorn : JoinsUntorn layout s e) : JoinsKept layout s' ∧ StopsWhole layout s s' := by
  cases hstep with
  | start n b a hn =>
    obtain ⟨hfirst, hnone⟩ := huntorn
    refine ⟨h.setWatch ?_ ?_ ?_,
      stopsWhole_setWatch fun result hstop _ => .inr fun g hg hmem => ?_⟩
    · rw [runControlJoinWatcher]
      split_ifs <;> exact nofun
    · exact fun _ =>
        ⟨hfirst, fun g i t req ht hreq hid => absurd hid (h.idle n hn g i t req ht hreq)⟩
    · intro b' a' attempt hw
      rw [runControlJoinWatcher] at hw
      split_ifs at hw
    · rw [runControlJoinWatcher] at hstop
      split_ifs at hstop with hnobody
      exact hnone (by simpa using hnobody) (hfirst g hg hmem)
  | tick n b a hn =>
    have hactive : (s.watch n).Active := by rw [hn]; trivial
    have hfollows := @tryJoinControlCluster_follows ⟨layout, n⟩ a b []
    have hshown (g : GroupId) (hg : ShowsVoter n g []) : n ∈ s.voters g := by
      rcases hg with ⟨metrics, hmem, -⟩ | ⟨target, addr, left, answer, hmem, -⟩ <;> cases hmem
    refine ⟨h.resume hactive hfollows hshown, stopsWhole_setWatch fun result hstop _ => ?_⟩
    exact allOrNone_of_resume hfollows hshown (h.inFirst n hactive) (fun ⟨c, hc, _⟩ => nomatch hc)
      hstop
  | probe n b a log g k res hn =>
    obtain ⟨hright, hfull⟩ := huntorn
    refine h.answered hn (fun g' hg' => ?_) fun htold => (hfull htold).2
    obtain ⟨rfl, metrics, rfl, hvoter⟩ := shows_fetchMetrics hg'
    exact hright hvoter
  | send n b a log target g addr left k i group hn hstart =>
    obtain ⟨es, hes⟩ := hd g
    refine ⟨h.sent hes hn hstart, ?_⟩
    -- the group has changed, which is nothing to the watchers
    change StopsWhole layout (s.setGroup g group) _
    refine stopsWhole_setWatch fun result hstop _ => ?_
    cases hstop
  | reply n b a log target g addr left k i answer hn hreply =>
    refine h.answered hn (fun g' hg' => ?_) fun htold => (huntorn.2 htold).2
    obtain ⟨rfl, answer', hanswer, hgrants⟩ := shows_requestJoin hg'
    obtain ⟨⟩ := hanswer
    exact ((h.attempts n b a _ hn).awaits i rfl _ _ _ _ _ rfl).granted _ hreply hgrants
  | reject n b a log target g addr left k metrics answer hn hreject =>
    refine h.answered hn (fun g' hg' => ?_) fun htold => (huntorn.2 htold).2
    obtain ⟨rfl, answer', hanswer, hgrants⟩ := shows_requestJoin hg'
    obtain ⟨⟩ := hanswer
    exact absurd hgrants hreject.not_grants
  | fail n b a log target g addr left k request err hn =>
    refine h.answered hn (fun g' hg' => ?_) fun htold => (huntorn.2 htold).2
    obtain ⟨rfl, answer', hanswer, -⟩ := shows_requestJoin hg'
    cases hanswer
  | shutdown n hn =>
    refine ⟨h.setWatch nofun nofun nofun, stopsWhole_setWatch fun result hstop hresult => ?_⟩
    cases hstop
    exact absurd rfl hresult
  | group g e group hgroup hstart =>
    obtain ⟨es, hes⟩ := hd g
    refine ⟨h.afterGroup hes hgroup huntorn fun i req he => absurd he (hstart i req), ?_⟩
    intro n result hrunning hstop
    exact absurd (watch_afterGroup (s := s) ▸ hstop) (hrunning result)

/-! ### Runs -/

theorem JoinStep.group_cases (h : JoinStep layout raft s e s') (g : GroupId) :
    s'.groups g = s.groups g ∨ ∃ ge, GroupStep raft g (s.groups g) ge (s'.groups g) ∧
      ((∃ n addr i, ge = .start i (.joinCluster (ControlRuntime.joinRequest ⟨layout, n⟩ addr))) ∨
        e = .group g ge ∧ ∀ i req, ge ≠ .start i (.joinCluster req)) := by
  cases h with
  | send n b a log target g' addr left k i group hn hstart =>
    by_cases hg : g = g'
    · subst hg
      exact .inr ⟨_, by simpa [JoinSystem.setWatch, JoinSystem.setGroup] using hstart,
        .inl ⟨n, addr, i, rfl⟩⟩
    · exact .inl (update_of_ne hg _ _)
  | group g' ge group hgroup hstart =>
    change (s.afterGroup g' ge group).groups g = s.groups g ∨
      ∃ ge', GroupStep raft g (s.groups g) ge' ((s.afterGroup g' ge group).groups g) ∧ _
    rw [groups_afterGroup]
    by_cases hg : g = g'
    · subst hg
      exact .inr ⟨ge, by simpa using hgroup, .inr ⟨rfl, hstart⟩⟩
    · exact .inl (update_of_ne hg _ _)
  | _ => exact .inl rfl

variable {m : GroupId → Membership} {es : List (JoinEvent ι)}

theorem group_run (run : Run (JoinStep layout raft) (.initial m) es s) (g : GroupId) :
    ∃ ges, Run (GroupStep raft g) (.initial (m g)) ges (s.groups g) := by
  induction run with
  | nil => exact ⟨[], .nil⟩
  | snoc run h ih =>
    obtain ⟨ges, hges⟩ := ih
    rcases h.group_cases g with hsame | ⟨ge, hstep, -⟩
    · exact ⟨ges, hsame ▸ hges⟩
    · exact ⟨ges ++ [ge], hges.snoc hstep⟩

theorem groups_disciplined (run : Run (JoinStep layout raft) (.initial m) es s) (g : GroupId) :
    ∃ ges, SeatDisciplined raft ges (s.groups g) :=
  (group_run run g).imp fun _ => seatDisciplined_of_run

theorem maxVoters_of_run (run : Run (JoinStep layout raft) (.initial m) es s) {g : GroupId} {i : ι}
    {t : FenceThread RaftCall RaftCall.Result MembershipRequest MembershipAnswer}
    (ht : (s.groups g).stage i = .running t) (hreq : t.request = .joinCluster req) :
    req.maxVoters = layout.maxControlNodes := by
  induction run generalizing t with
  | nil => cases ht
  | snoc run h ih =>
    rcases h.group_cases g with hsame | ⟨ge, hstep, hge⟩
    · exact ih (hsame ▸ ht) hreq
    · rcases hstep.running ht with ⟨t', ht', hsame⟩ | rfl
      · exact ih ht' (hsame.trans hreq)
      · rcases hge with ⟨n, addr, j, hge⟩ | ⟨-, hstart⟩
        · obtain ⟨-, hjoin⟩ := FenceEvent.start.inj hge
          obtain rfl := MembershipRequest.joinCluster.inj (hreq.symm.trans hjoin)
          rfl
        · exact absurd (congrArg (FenceEvent.start i) hreq) (hstart i req)

/-- **A request to join never overfills its group.** -/
theorem keepsSeats_of_run (run : Run (JoinStep layout raft) (.initial m) es s)
    (hstep : JoinStep layout raft s e s') : KeepsSeats layout s s' e := by
  cases hstep with
  | group g ge group hgroup hstart =>
    cases ge with
    | call i r call res =>
      cases r with
      | joinCluster req =>
        change ((s.afterGroup g _ group).voters g).card ≤ _ ∨
          ((s.afterGroup g _ group).voters g).card ≤ _
        rw [voters_afterGroup, if_pos rfl]
        obtain ⟨ges, hges⟩ := groups_disciplined run g
        rcases voters_cases_of_step hges hgroup with hm | ⟨req', ⟨j, t, hj, ht, -⟩, hfree, hm⟩ |
          ⟨j, r, proposed, res', he, hr, -⟩
        · exact .inl (hm ▸ le_rfl)
        · right
          rw [hm, ← maxVoters_of_run run hj ht]
          exact (Finset.card_insert_le _ _).trans hfree
        · obtain ⟨-, rfl, -⟩ := FenceEvent.call.inj he
          exact absurd rfl (hr req)
      | _ => trivial
    | _ => trivial
  | _ => trivial

/-- **Joining is all or nothing as long as no step tears a join apart**, and it never overfills a
group. -/
theorem joins_all_or_nothing :
    (∀ (es : List (JoinEvent ι)) s e s', Run (JoinStep layout raft) (.initial m) es s →
      JoinStep layout raft s e s' → KeepsSeats layout s s' e) ∧
    ∀ (es : List (JoinEvent ι)) s e s',
      Run (fun s e s' => JoinStep layout raft s e s' ∧ JoinsUntorn layout s e) (.initial m) es s →
      JoinStep layout raft s e s' → JoinsUntorn layout s e → StopsWhole layout s s' := by
  refine ⟨fun es s e s' run hstep => keepsSeats_of_run run hstep, fun es s e s' run hstep he => ?_⟩
  have hkept : JoinsKept layout s :=
    run.history (P := fun _ s => JoinsKept layout s) (joinsKept_initial m) fun es s e s' run h hs =>
      (h.step (groups_disciplined (run.imp fun _ _ _ => And.left)) hs.1 hs.2).1
  exact (hkept.step (groups_disciplined (run.imp fun _ _ _ => And.left)) hstep he).2

end Steps

/-! ### A join that is resumed, and one that is torn -/

/-- Two groups of at most three voters each. -/
def twoGroups : ControlLayout := ⟨3, ["users", "tasks"], nofun⟩

/-- The voters `"n1"` and `"n2"`. -/
def twoVoters : Membership :=
  ⟨{"n1", "n2"}, Std.ExtTreeMap.ofList [("n1", "a1"), ("n2", "a2")]⟩

/-- The membership with the learner `"n4"`. -/
def fourthLearner : Membership := { twoVoters with nodes := twoVoters.nodes.insert "n4" "a4" }

/-- The membership with the voter `"n4"`. -/
def fourthVoter : Membership := { fourthLearner with voters := {"n4", "n1", "n2"} }

/-- `"n4"` is a voter of the users, and the tasks have a seat. -/
def halfJoined (g : GroupId) : Membership := if g = "users" then fourthVoter else twoVoters

/-- An attempt that was interrupted after the first group is resumed with the second one. -/
theorem joins_all_or_nothing_resumed : ∃ s : JoinSystem ℕ,
    s.watch "n4" = .stopped .joined ∧ AllOrNone twoGroups s "n4" := by
  have hvoter : "n4" ∈ fourthVoter.voters := by decide
  have hnone : "n4" ∉ twoVoters.voters := by decide
  have hrun : Run (fun s e s' => JoinStep twoGroups validRaft s e s' ∧ JoinsUntorn twoGroups s e)
      (.initial halfJoined) _ _ :=
    .cons ⟨JoinStep.start "n4" ["n1"] "a4" rfl, fun _ _ _ => hvoter, by decide⟩ <|
    .cons ⟨JoinStep.tick "n4" _ _ rfl, trivial⟩ <|
    .cons ⟨JoinStep.probe "n4" _ _ _ "users" _ (some (leaderMetrics fourthVoter)) rfl,
      fun _ => hvoter, fun h => (Option.some_ne_none "a4" h.2.1).elim⟩ <|
    .cons ⟨JoinStep.probe "n4" _ _ _ "users" _ (some (leaderMetrics fourthVoter)) rfl,
      fun _ => hvoter, fun h => (Option.some_ne_none "a4" h.2.1).elim⟩ <|
    .cons ⟨JoinStep.probe "n4" _ _ _ "tasks" _ (some (leaderMetrics twoVoters)) rfl,
      fun h => absurd h hnone, fun h => absurd h.1 (by decide)⟩ <|
    .cons ⟨JoinStep.send "n4" _ _ _ _ "users" _ _ _ 0 _ rfl (FenceSystem.Step.start 0 _ rfl),
      trivial⟩ <|
    .cons ⟨JoinStep.group "users" _ _ (FenceSystem.Step.fence 0 _ _ _ _ rfl rfl) nofun,
      by trivial⟩ <|
    .cons ⟨JoinStep.group "users" _ _ (FenceSystem.Step.call 0 _ _ RaftCall.metrics _
      (leaderMetrics fourthVoter) _ rfl ⟨rfl, rfl⟩) nofun, by trivial⟩ <|
    .cons ⟨JoinStep.group "users" _ _ (FenceSystem.Step.finish 0 _ _ _ rfl) nofun, by trivial⟩ <|
    .cons ⟨JoinStep.reply "n4" _ _ _ _ "users" _ _ _ 0 _ rfl rfl, trivial,
      fun h => (h.1 rfl).elim⟩ <|
    .cons ⟨JoinStep.send "n4" _ _ _ _ "tasks" _ _ _ 0 _ rfl (FenceSystem.Step.start 0 _ rfl),
      trivial⟩ <|
    .cons ⟨JoinStep.group "tasks" _ _ (FenceSystem.Step.fence 0 _ _ _ _ rfl rfl) nofun,
      by trivial⟩ <|
    .cons ⟨JoinStep.group "tasks" _ _ (FenceSystem.Step.call 0 _ _ RaftCall.metrics _
      (leaderMetrics twoVoters) _ rfl ⟨rfl, rfl⟩) nofun, by trivial⟩ <|
    .cons ⟨JoinStep.group "tasks" _ _ (FenceSystem.Step.call 0 _ _ (RaftCall.addLearner _ _) _
      (.ok 7) _ rfl (by exact ⟨⟨7, rfl⟩, rfl⟩)) nofun, by trivial⟩ <|
    .cons ⟨JoinStep.group "tasks" _ _ (FenceSystem.Step.call 0 _ _ (RaftCall.waitForMember _ _ _) _
      (.ok ()) _ rfl rfl) nofun, by trivial⟩ <|
    .cons ⟨JoinStep.group "tasks" _ _ (FenceSystem.Step.call 0 _ _ RaftCall.metrics _
      (leaderMetrics fourthLearner) _ rfl ⟨rfl, rfl⟩) nofun, by trivial⟩ <|
    .cons ⟨JoinStep.group "tasks" _ _ (FenceSystem.Step.call 0 _ _ (RaftCall.changeMembership _) _
      (.ok ()) _ rfl (by exact ⟨rfl, rfl⟩)) nofun, by exact fun hother => (hother _ rfl).elim⟩ <|
    .cons ⟨JoinStep.group "tasks" _ _ (FenceSystem.Step.finish 0 _ _ _ rfl) nofun, by trivial⟩ .nil
  exact ⟨_, rfl, joins_all_or_nothing.2 _ _ _ _ hrun
    (JoinStep.reply "n4" _ _ _ _ "tasks" _ _ _ 0 _ rfl rfl) ⟨trivial, fun h => (h.2.1 rfl).elim⟩
    "n4" .joined nofun rfl nofun⟩

/-- The users have a seat, and the tasks have none. -/
def oneSeat (g : GroupId) : Membership := if g = "users" then twoVoters else threeVoters

/-- **A join that is torn apart.** `"n4"` takes the last seat of the users, and is told that the
tasks are full: its watcher stops, and leaves it a voter of the users alone. -/
theorem join_torn : ∃ (es : List (JoinEvent ℕ)) (s : JoinSystem ℕ) (e : JoinEvent ℕ)
    (s' : JoinSystem ℕ), Run (JoinStep twoGroups validRaft) (.initial oneSeat) es s ∧
      JoinStep twoGroups validRaft s e s' ∧ ¬StopsWhole twoGroups s s' := by
  refine ⟨_, _, _, _,
    .cons (JoinStep.start "n4" ["n1"] "a4" rfl) <|
    .cons (JoinStep.tick "n4" _ _ rfl) <|
    .cons (JoinStep.probe "n4" _ _ _ "users" _ (some (leaderMetrics twoVoters)) rfl) <|
    .cons (JoinStep.send "n4" _ _ _ _ "users" _ _ _ 0 _ rfl (FenceSystem.Step.start 0 _ rfl)) <|
    .cons (JoinStep.group "users" _ _ (FenceSystem.Step.fence 0 _ _ _ _ rfl rfl) nofun) <|
    .cons (JoinStep.group "users" _ _ (FenceSystem.Step.call 0 _ _ RaftCall.metrics _
      (leaderMetrics twoVoters) _ rfl ⟨rfl, rfl⟩) nofun) <|
    .cons (JoinStep.group "users" _ _ (FenceSystem.Step.call 0 _ _ (RaftCall.addLearner _ _) _
      (.ok 7) _ rfl ⟨⟨7, rfl⟩, rfl⟩) nofun) <|
    .cons (JoinStep.group "users" _ _ (FenceSystem.Step.call 0 _ _ (RaftCall.waitForMember _ _ _) _
      (.ok ()) _ rfl rfl) nofun) <|
    .cons (JoinStep.group "users" _ _ (FenceSystem.Step.call 0 _ _ RaftCall.metrics _
      (leaderMetrics fourthLearner) _ rfl ⟨rfl, rfl⟩) nofun) <|
    .cons (JoinStep.group "users" _ _ (FenceSystem.Step.call 0 _ _ (RaftCall.changeMembership _) _
      (.ok ()) _ rfl ⟨rfl, rfl⟩) nofun) <|
    .cons (JoinStep.group "users" _ _ (FenceSystem.Step.finish 0 _ _ _ rfl) nofun) <|
    .cons (JoinStep.reply "n4" _ _ _ _ "users" _ _ _ 0 _ rfl rfl) <|
    .cons (JoinStep.send "n4" _ _ _ _ "tasks" _ _ _ 0 _ rfl (FenceSystem.Step.start 0 _ rfl)) <|
    .cons (JoinStep.group "tasks" _ _ (FenceSystem.Step.fence 0 _ _ _ _ rfl rfl) nofun) <|
    .cons (JoinStep.group "tasks" _ _ (FenceSystem.Step.call 0 _ _ RaftCall.metrics _
      (leaderMetrics threeVoters) _ rfl ⟨rfl, rfl⟩) nofun) <|
    .cons (JoinStep.group "tasks" _ _ (FenceSystem.Step.finish 0 _ _ _ rfl) nofun) .nil,
    JoinStep.reply "n4" _ _ _ _ "tasks" _ _ _ 0 _ rfl rfl, fun hwhole => ?_⟩
  have htasks : "n4" ∉ threeVoters.voters := by decide
  have husers : "n4" ∈ ({"n4", "n1", "n2"} : Finset NodeId) := by decide
  rcases hwhole "n4" .full nofun rfl nofun with hall | hnone
  · exact htasks (hall "tasks" (by decide))
  · exact hnone "users" (by decide) husers

end RustExample.OpenraftCluster
