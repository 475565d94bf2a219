import RustExample.ApalisRaft.Storage
import RustExample.Foundation.Run

/-!
# Tasks that run once

A write of the scheduler or of a claim is made from a record that was read before, possibly from a
replica that lags. If it is committed after the task was acknowledged, the task runs again. The
claims that a node keeps in memory do not help: the acknowledgement removes its claim, and the
replica may still show the task as running.
-/

namespace RustExample.ApalisRaft

open List

/-! ### The condition -/

/-- The record of an acknowledged task. -/
def StoredTask.Acked (record : StoredTask) : Prop :=
  record.status = .done ∨ record.status = .failed

/-- A task that is to run is written while it is queued, or while it runs at the same node. -/
def StoredTask.Timely (s : Cluster) (record : StoredTask) : Prop :=
  record.status = .running → ∃ old, s.records[record.taskId]? = some old ∧
    (old.status = .queued ∨
      old.status = .running ∧ record.assignedNodeId = old.assignedNodeId)

/-- A step whose write, if it commits one, is timely. -/
def TimelyStep (hash : String → ℕ) (s : Cluster) (e : Event) (s' : Cluster) : Prop :=
  Step hash s e s' ∧ ∀ c record call, e = .commit c →
    (s.calls c).commit = some (record, call) → record.Timely s

/-- The record of an acknowledged task stays one, and no task is handed out twice. -/
structure Cluster.RunsOnce (s : Cluster) : Prop where
  final : RecordLog.Chained StoredTask.taskId (fun old new => old.Acked → new.Acked) s.log
  once : (s.handed.map CompactTask.taskId).Nodup

/-! ### Records of one task -/

namespace StoredTask

/-- What a later record of a task may be. -/
def Follows (old new : StoredTask) : Prop :=
  new.Acked ∨ new.status = .running ∧
    (old.status = .queued ∨ old.status = .running ∧ new.assignedNodeId = old.assignedNodeId)

variable {old mid new : StoredTask}

theorem Acked.not_running (h : new.Acked) : new.status ≠ .running := by
  rcases h with h | h <;> simp [h]

theorem Follows.acked (h : old.Follows new) (hold : old.Acked) : new.Acked := by
  rcases h with h | ⟨-, h | ⟨h, -⟩⟩
  · exact h
  · rcases hold with hold | hold <;> simp [hold] at h
  · exact absurd h hold.not_running

theorem Follows.trans (h : old.Follows mid) (h' : mid.Follows new) : old.Follows new := by
  rcases h' with h' | ⟨hnew, h' | ⟨hmid, hnode⟩⟩
  · exact .inl h'
  · rcases h with h | ⟨h, -⟩
    · rcases h with h | h <;> simp [h] at h'
    · simp [h] at h'
  · rcases h with h | ⟨-, h | ⟨hold, hnode'⟩⟩
    · exact absurd hmid h.not_running
    · exact .inr ⟨hnew, .inl h⟩
    · exact .inr ⟨hnew, .inr ⟨hold, hnode.trans hnode'⟩⟩

end StoredTask

/-- The task was given to a node. -/
def RunsAt (log : List StoredTask) (taskId node : String) : Prop :=
  ∃ record ∈ log, record.taskId = taskId ∧ record.status = .running ∧
    record.assignedNodeId = some node

/-- The task has an acknowledged record. -/
def AckedIn (log : List StoredTask) (taskId : String) : Prop :=
  ∃ record ∈ log, record.taskId = taskId ∧ record.Acked

section Log

variable {log : List StoredTask} {taskId node node' : String} {record : StoredTask}

theorem RunsAt.append (h : RunsAt log taskId node) (rest : List StoredTask) :
    RunsAt (log ++ rest) taskId node := by
  obtain ⟨record, hmem, hrecord⟩ := h
  exact ⟨record, mem_append_left _ hmem, hrecord⟩

theorem AckedIn.append (h : AckedIn log taskId) (rest : List StoredTask) :
    AckedIn (log ++ rest) taskId := by
  obtain ⟨record, hmem, hrecord⟩ := h
  exact ⟨record, mem_append_left _ hmem, hrecord⟩

theorem RunsAt.unique (hlog : RecordLog.Chained StoredTask.taskId StoredTask.Follows log)
    (h : RunsAt log taskId node) (h' : RunsAt log taskId node') : node = node' := by
  obtain ⟨record, hmem, hid, hrunning, hnode⟩ := h
  obtain ⟨record', hmem', hid', hrunning', hnode'⟩ := h'
  have hsame {old new : StoredTask} (h : old.Follows new) (hold : old.status = .running)
      (hnew : new.status = .running) : new.assignedNodeId = old.assignedNodeId := by
    rcases h with h | ⟨-, h | ⟨-, h⟩⟩
    · exact absurd hnew h.not_running
    · simp [hold] at h
    · exact h
  rcases hlog.eq_or_rel_or_rel hmem hmem' (hid.trans hid'.symm) with rfl | h | h
  · exact Option.some.inj (hnode.symm.trans hnode')
  · exact Option.some.inj (hnode.symm.trans ((hsame h hrunning hrunning').symm.trans hnode'))
  · exact Option.some.inj (hnode.symm.trans ((hsame h hrunning' hrunning).trans hnode'))

end Log

/-! ### What a call knows -/

/-- The claim on a task that a call has made at a node, up to the end of its acknowledgement. -/
def Call.Holds (node taskId : String) : Call → Prop
  | .claiming node' record _ => node' = node ∧ record.taskId = taskId
  | .executing node' task => node' = node ∧ task.taskId = taskId
  | .acking node' record _ => node' = node ∧ record.taskId = taskId
  | _ => False

/-- A call that has not handed out its task yet. -/
def Call.Claims (taskId : String) : Call → Prop
  | .claiming _ record _ => record.taskId = taskId
  | _ => False

/-- What a call has read and what it is to write, against the log. -/
def Call.Fits (log : List StoredTask) : Call → Prop
  | .scanning _ _ entries => ∀ record ∈ entries, record ∈ log
  | .scheduling record _ => record.status = .running
  | .claiming node record _ => record.status = .running ∧ RunsAt log record.taskId node
  | .acking _ record committed =>
    record.Acked ∧ (committed = true → AckedIn log record.taskId)
  | .abandoned record => record.status = .running ∨ record.Acked
  | .unused | .ensured _ _ _ | .executing _ _ | .finished => True

theorem Call.Fits.append {log : List StoredTask} {call : Call} (h : call.Fits log)
    (rest : List StoredTask) : call.Fits (log ++ rest) := by
  cases call with
  | scanning => exact fun record hmem => mem_append_left _ (h record hmem)
  | claiming => exact ⟨h.1, h.2.append rest⟩
  | acking => exact ⟨h.1, fun hcommitted => (h.2 hcommitted).append rest⟩
  | unused | ensured | scheduling | executing | abandoned | finished => exact h

/-- A task that was handed out was acknowledged, or its node still has the claim. -/
def Cluster.Settled (s : Cluster) (taskId : String) : Prop :=
  AckedIn s.log taskId ∨ ∃ node, RunsAt s.log taskId node ∧ taskId ∈ s.claimed node ∧
    ∀ c, ¬(s.calls c).Claims taskId

/-- The invariant of the cluster. -/
structure Cluster.Invariant (s : Cluster) : Prop where
  chained : RecordLog.Chained StoredTask.taskId StoredTask.Follows s.log
  fits : ∀ c, (s.calls c).Fits s.log
  claimed : ∀ c node taskId, (s.calls c).Holds node taskId → taskId ∈ s.claimed node
  unique : ∀ c c' node taskId, (s.calls c).Holds node taskId → (s.calls c').Holds node taskId →
    c = c'
  settled : ∀ task ∈ s.handed, s.Settled task.taskId
  fresh : ∀ c node record, s.calls c = .claiming node record true →
    ∀ task ∈ s.handed, task.taskId ≠ record.taskId
  once : (s.handed.map CompactTask.taskId).Nodup

namespace Cluster.Invariant

variable {s : Cluster} {c : ℕ} {call : Call} {node taskId : String} {record : StoredTask}

theorem initial : Cluster.initial.Invariant where
  chained := List.Pairwise.nil
  fits _ := trivial
  claimed _ _ _ := False.elim
  unique _ _ _ _ := False.elim
  settled _ := False.elim ∘ not_mem_nil
  fresh _ _ _ := nofun
  once := nodup_nil

theorem runsOnce (h : s.Invariant) : s.RunsOnce :=
  ⟨h.chained.imp fun hfollows hid hacked => (hfollows hid).acked hacked, h.once⟩

theorem eq_of_claims (h : s.Invariant) {c' : ℕ} (hc : (s.calls c).Claims taskId)
    (hc' : (s.calls c').Claims taskId) : c = c' := by
  have hholds {c : ℕ} (hc : (s.calls c).Claims taskId) :
      ∃ node, (s.calls c).Holds node taskId ∧ RunsAt s.log taskId node := by
    have hfits := h.fits c
    cases hcall : s.calls c with
    | claiming node record committed =>
      rw [hcall] at hc hfits
      exact ⟨node, ⟨rfl, hc⟩, hc ▸ hfits.2⟩
    | unused | ensured | scheduling | scanning | executing | acking | abandoned | finished =>
      rw [hcall] at hc
      exact hc.elim
  obtain ⟨node, hnode, hruns⟩ := hholds hc
  obtain ⟨node', hnode', hruns'⟩ := hholds hc'
  obtain rfl := hruns.unique h.chained hruns'
  exact h.unique c c' node taskId hnode hnode'

/-- A call may go on to a stage that holds what it held before, or what no call holds. -/
theorem setCall (h : s.Invariant) (hfits : call.Fits s.log)
    (hholds : ∀ node taskId, call.Holds node taskId → (s.calls c).Holds node taskId ∨
      taskId ∈ s.claimed node ∧ ∀ c', ¬(s.calls c').Holds node taskId)
    (hclaims : ∀ taskId, call.Claims taskId → (s.calls c).Claims taskId ∨
      ∀ task ∈ s.handed, task.taskId = taskId → AckedIn s.log taskId)
    (hfresh : ∀ node record, call = .claiming node record true →
      ∀ task ∈ s.handed, task.taskId ≠ record.taskId) : (s.setCall c call).Invariant := by
  have hcalls := s.calls_setCall c call
  have hholds' {c' : ℕ} {node taskId : String}
      (hc : ((s.setCall c call).calls c').Holds node taskId) :
      (s.calls c').Holds node taskId ∨
        c' = c ∧ taskId ∈ s.claimed node ∧ ∀ c', ¬(s.calls c').Holds node taskId := by
    rw [hcalls] at hc
    split_ifs at hc with heq
    · exact (hholds node taskId hc).imp (fun hc => heq ▸ hc) fun hnew => ⟨heq, hnew⟩
    · exact .inl hc
  refine ⟨h.chained, fun c' => ?_, fun c' node taskId hc => ?_, fun c₁ c₂ node taskId h₁ h₂ => ?_,
    fun task htask => ?_, fun c' node record hc => ?_, h.once⟩
  · rw [hcalls]
    split_ifs
    · exact hfits
    · exact h.fits c'
  · rcases hholds' hc with hc | ⟨-, hclaimed, -⟩
    · exact h.claimed c' _ _ hc
    · exact hclaimed
  · rcases hholds' h₁ with h₁ | ⟨rfl, -, hnone⟩
    · rcases hholds' h₂ with h₂ | ⟨-, -, hnone⟩
      · exact h.unique _ _ _ _ h₁ h₂
      · exact absurd h₁ (hnone c₁)
    · rcases hholds' h₂ with h₂ | ⟨rfl, -, -⟩
      · exact absurd h₂ (hnone c₂)
      · rfl
  · rcases h.settled task htask with hacked | ⟨node, hruns, hclaimed, hnone⟩
    · exact .inl hacked
    · by_cases hcall : call.Claims task.taskId
      · exact .inl ((hclaims _ hcall).resolve_left (hnone c) task htask rfl)
      · refine .inr ⟨node, hruns, hclaimed, fun c' hc => ?_⟩
        rw [hcalls] at hc
        split_ifs at hc
        · exact hcall hc
        · exact hnone c' hc
  · rw [hcalls] at hc
    split_ifs at hc
    · exact hfresh node record hc
    · exact h.fresh c' node record hc

/-- A call may go on to a stage without a claim, or with one on the task that it executes. -/
theorem setCall_of_not_claims (h : s.Invariant) (hfits : call.Fits s.log)
    (hholds : ∀ node taskId, call.Holds node taskId → (s.calls c).Holds node taskId)
    (hclaims : ∀ taskId, ¬call.Claims taskId) : (s.setCall c call).Invariant := by
  refine h.setCall hfits (fun node taskId hc => .inl (hholds node taskId hc))
    (fun taskId hc => absurd hc (hclaims taskId)) fun node record hc => ?_
  exact absurd (hc ▸ rfl) (hclaims record.taskId)

/-- A record may be appended if it follows the one that it replaces. -/
theorem write (h : s.Invariant)
    (hfollows : ∀ old, s.records[record.taskId]? = some old → old.Follows record) :
    (s.write record).Invariant where
  chained := h.chained.concat
    (fun old mid new (h : old.Follows mid) (h' : mid.Follows new) => h.trans h') hfollows
  fits c := (h.fits c).append _
  claimed := h.claimed
  unique := h.unique
  settled task htask := by
    rcases h.settled task htask with hacked | ⟨node, hruns, hclaimed⟩
    · exact .inl (hacked.append _)
    · exact .inr ⟨node, hruns.append _, hclaimed⟩
  fresh := h.fresh
  once := h.once

/-- A node may drop a claim that no call holds, if a task that was handed out was acknowledged. -/
theorem removeLocalClaim (h : s.Invariant) (hfree : ∀ c, ¬(s.calls c).Holds node taskId)
    (hacked : ∀ task ∈ s.handed, task.taskId = taskId → AckedIn s.log taskId) :
    (s.removeLocalClaim node taskId).Invariant := by
  have hclaimed {node' taskId' : String} (hne : ¬(node' = node ∧ taskId' = taskId)) :
      taskId' ∈ (s.removeLocalClaim node taskId).claimed node' ↔ taskId' ∈ s.claimed node' := by
    rw [claimed_removeLocalClaim]
    split_ifs with hnode
    · subst hnode
      simp only [true_and] at hne
      rw [Finset.mem_erase, and_iff_right hne]
    · rfl
  refine ⟨h.chained, h.fits, fun c node' taskId' hc => ?_, h.unique, fun task htask => ?_, h.fresh,
    h.once⟩
  · refine (hclaimed ?_).mpr (h.claimed c _ _ hc)
    rintro ⟨rfl, rfl⟩
    exact hfree c hc
  · rcases h.settled task htask with h' | ⟨node', hruns, hmem, hnone⟩
    · exact .inl h'
    · by_cases hid : task.taskId = taskId
      · exact .inl (hid ▸ hacked task htask hid)
      · exact .inr ⟨node', hruns, (hclaimed fun heq => hid heq.2).mpr hmem, hnone⟩

theorem insertLocalClaim (h : s.Invariant) (node taskId : String) :
    (s.insertLocalClaim node taskId).Invariant := by
  have hclaimed {node' taskId' : String} (hmem : taskId' ∈ s.claimed node') :
      taskId' ∈ (s.insertLocalClaim node taskId).claimed node' := by
    rw [claimed_insertLocalClaim]
    split_ifs with hnode
    · exact Finset.mem_insert_of_mem (hnode ▸ hmem)
    · exact hmem
  refine ⟨h.chained, h.fits, fun c node' taskId' hc => hclaimed (h.claimed c _ _ hc), h.unique,
    fun task htask => ?_, h.fresh, h.once⟩
  exact (h.settled task htask).imp_right fun ⟨node', hruns, hmem, hnone⟩ =>
    ⟨node', hruns, hclaimed hmem, hnone⟩

/-- A worker claims a task that its node was given and has not claimed. -/
theorem claim (h : s.Invariant) (hrunning : record.status = .running)
    (hruns : RunsAt s.log record.taskId node) (hfree : record.taskId ∉ s.claimed node) :
    ((s.insertLocalClaim node record.taskId).setCall c
      (.claiming node record false)).Invariant := by
  refine (h.insertLocalClaim node record.taskId).setCall ⟨hrunning, hruns⟩ ?_ ?_ nofun
  · rintro node' taskId ⟨rfl, rfl⟩
    have hmem : record.taskId ∈ (s.insertLocalClaim node record.taskId).claimed node := by
      rw [claimed_insertLocalClaim, if_pos rfl]
      exact Finset.mem_insert_self _ _
    exact .inr ⟨hmem, fun c' hc => hfree (h.claimed c' _ _ hc)⟩
  · rintro taskId rfl
    refine .inr fun task htask hid => ?_
    rcases h.settled task htask with hacked | ⟨node', hruns', hmem, -⟩
    · exact hid ▸ hacked
    · obtain rfl := hruns.unique h.chained (hid ▸ hruns')
      exact absurd (hid ▸ hmem) hfree

theorem handOut (h : s.Invariant) {task : CompactTask} (hsettled : s.Settled task.taskId)
    (hnew : ∀ task' ∈ s.handed, task'.taskId ≠ task.taskId)
    (hnone : ∀ c, ¬(s.calls c).Claims task.taskId) : (s.handOut task).Invariant := by
  refine ⟨h.chained, h.fits, h.claimed, h.unique, fun task' htask' => ?_,
    fun c node record hc task' htask' => ?_, ?_⟩
  · rcases List.mem_append.mp htask' with htask' | htask'
    · exact h.settled task' htask'
    · obtain rfl := List.mem_singleton.mp htask'
      exact hsettled
  · rcases List.mem_append.mp htask' with htask' | htask'
    · exact h.fresh c node record hc task' htask'
    · obtain rfl := List.mem_singleton.mp htask'
      refine fun hid => hnone c ?_
      have hclaims : (Call.claiming node record true).Claims task'.taskId := hid.symm
      exact hc ▸ hclaims
  · rw [Cluster.handOut, map_append, map_singleton, ← concat_eq_append]
    refine h.once.concat fun hmem => ?_
    obtain ⟨task', htask', hid⟩ := List.mem_map.mp hmem
    exact hnew task' htask' hid

/-! ### The steps -/

theorem write_of_timely (h : s.Invariant)
    (hrecord : record.status = .running ∨ record.Acked) (htimely : record.Timely s) :
    (s.write record).Invariant := by
  refine h.write fun old hold => ?_
  rcases hrecord with hrunning | hacked
  · obtain ⟨old', hold', hstatus⟩ := htimely hrunning
    obtain rfl := Option.some.inj (hold.symm.trans hold')
    exact .inr ⟨hrunning, hstatus⟩
  · exact .inl hacked

/-- A task whose claim is committed in time was not handed out. -/
theorem fresh_of_timely (h : s.Invariant) {committed : Bool}
    (hcall : s.calls c = .claiming node record committed) (hrunning : record.status = .running)
    (htimely : record.Timely s) : ∀ task ∈ s.handed, task.taskId ≠ record.taskId := by
  intro task htask hid
  rcases h.settled task htask with ⟨acked, hmem, hid', hacked⟩ | ⟨-, -, -, hnone⟩
  · obtain ⟨old, hold, hstatus⟩ := htimely hrunning
    have hold' : (RecordLog.table StoredTask.taskId s.log)[acked.taskId]? = some old := by
      rw [hid', hid]
      exact hold
    have holdAcked : old.Acked := by
      rcases h.chained.eq_or_rel hold' hmem with rfl | hfollows
      · exact hacked
      · exact hfollows.acked hacked
    rcases hstatus with hstatus | ⟨hstatus, -⟩
    · rcases holdAcked with hold | hold <;> simp [hold] at hstatus
    · exact holdAcked.not_running hstatus
  · have hclaims : (Call.claiming node record committed).Claims task.taskId := hid.symm
    exact hnone c (hcall ▸ hclaims)

theorem commit (h : s.Invariant) {call : Call} (hcall : (s.calls c).commit = some (record, call))
    (htimely : record.Timely s) : ((s.write record).setCall c call).Invariant := by
  have hfits := h.fits c
  cases hc : s.calls c with
  | scheduling record' committed =>
    rw [hc] at hcall hfits
    cases committed with
    | true => cases hcall
    | false =>
      obtain ⟨rfl, rfl⟩ := Prod.mk.inj (Option.some.inj hcall)
      exact (h.write_of_timely (.inl hfits) htimely).setCall_of_not_claims hfits
        (fun _ _ => False.elim) fun _ => id
  | claiming node record' committed =>
    rw [hc] at hcall hfits
    cases committed with
    | true => cases hcall
    | false =>
      obtain ⟨rfl, rfl⟩ := Prod.mk.inj (Option.some.inj hcall)
      have hfresh := h.fresh_of_timely hc hfits.1 htimely
      have hcalls : (s.write record').calls c = .claiming node record' false := hc
      refine (h.write_of_timely (.inl hfits.1) htimely).setCall (hfits.append _)
        (fun _ _ hholds => .inl (hcalls ▸ hholds)) (fun _ hclaims => .inl (hcalls ▸ hclaims)) ?_
      rintro _ _ ⟨⟩
      exact hfresh
  | acking node record' committed =>
    rw [hc] at hcall hfits
    cases committed with
    | true => cases hcall
    | false =>
      obtain ⟨rfl, rfl⟩ := Prod.mk.inj (Option.some.inj hcall)
      have hcalls : (s.write record').calls c = .acking node record' false := hc
      have hacked : AckedIn (s.log ++ [record']) record'.taskId :=
        ⟨record', mem_append_right _ (mem_singleton_self _), rfl, hfits.1⟩
      exact (h.write_of_timely (.inr hfits.1) htimely).setCall_of_not_claims
        ⟨hfits.1, fun _ => hacked⟩ (fun _ _ hholds => hcalls ▸ hholds) fun _ => id
  | abandoned record' =>
    rw [hc] at hcall hfits
    obtain ⟨rfl, rfl⟩ := Prod.mk.inj (Option.some.inj hcall)
    exact (h.write_of_timely hfits htimely).setCall_of_not_claims trivial
      (fun _ _ => False.elim) fun _ => id
  | unused | ensured | scanning | executing | finished =>
    rw [hc] at hcall
    cases hcall

/-- A call that has ended its claim leaves a write under way at most. -/
theorem leave (h : s.Invariant) {committed : Bool}
    (hrecord : record.status = .running ∨ record.Acked) :
    (s.setCall c (.leave record committed)).Invariant := by
  cases committed with
  | true => exact h.setCall_of_not_claims trivial (fun _ _ => False.elim) fun _ => id
  | false => exact h.setCall_of_not_claims hrecord (fun _ _ => False.elim) fun _ => id

theorem not_holds_setCall (h : s.Invariant) (hholds : (s.calls c).Holds node taskId)
    (hcall : ¬call.Holds node taskId) (c' : ℕ) :
    ¬((s.setCall c call).calls c').Holds node taskId := by
  rw [calls_setCall]
  split_ifs with heq
  · exact hcall
  · exact fun hc => heq (h.unique c' c _ _ hc hholds)

theorem writeOk (h : s.Invariant) {s' : Cluster} (hok : s.writeOk c = some s') : s'.Invariant := by
  have hfits := h.fits c
  rw [Cluster.writeOk] at hok
  cases hc : s.calls c with
  | scheduling record committed =>
    cases committed with
    | false => simp [hc] at hok
    | true =>
      rw [hc] at hok
      obtain ⟨⟩ := hok
      exact h.setCall_of_not_claims trivial (fun _ _ => False.elim) fun _ => id
  | claiming node record committed =>
    cases committed with
    | false => simp [hc] at hok
    | true =>
      rw [hc] at hok hfits
      obtain ⟨⟩ := hok
      have hholds : (s.calls c).Holds node record.taskId := hc ▸ ⟨rfl, rfl⟩
      have hclaims : (s.calls c).Claims record.taskId := by
        rw [hc]
        exact rfl
      have hnone (c' : ℕ) : ¬((s.setCall c (.executing node record.intoCompactTask)).calls
          c').Claims record.taskId := by
        rw [calls_setCall]
        split_ifs with heq
        · exact id
        · exact fun hc' => heq (h.eq_of_claims hc' hclaims)
      have hcall : (s.setCall c (.executing node record.intoCompactTask)).Invariant :=
        h.setCall_of_not_claims trivial (fun _ _ hexec => hc ▸ hexec) fun _ => id
      exact hcall.handOut (.inr ⟨node, hfits.2, h.claimed c _ _ hholds, hnone⟩)
        (h.fresh c node record hc) hnone
  | acking node record committed =>
    cases committed with
    | false => simp [hc] at hok
    | true =>
      rw [hc] at hok hfits
      obtain ⟨⟩ := hok
      have hholds : (s.calls c).Holds node record.taskId := hc ▸ ⟨rfl, rfl⟩
      have hcall : (s.setCall c .finished).Invariant :=
        h.setCall_of_not_claims trivial (fun _ _ => False.elim) fun _ => id
      exact hcall.removeLocalClaim (h.not_holds_setCall hholds id) fun _ _ _ => hfits.2 rfl
  | unused | ensured | scanning | executing | abandoned | finished => simp [hc] at hok

theorem writeErr (h : s.Invariant) {s' : Cluster} (herr : s.writeErr c = some s') :
    s'.Invariant := by
  have hfits := h.fits c
  rw [Cluster.writeErr] at herr
  have hleave (record : StoredTask) (committed : Bool) (node taskId : String) :
      ¬(Call.leave record committed).Holds node taskId := by
    cases committed <;> exact id
  cases hc : s.calls c with
  | scheduling record committed =>
    rw [hc] at herr hfits
    obtain ⟨⟩ := herr
    exact h.leave (.inl hfits)
  | claiming node record committed =>
    rw [hc] at herr hfits
    obtain ⟨⟩ := herr
    have hholds : (s.calls c).Holds node record.taskId := hc ▸ ⟨rfl, rfl⟩
    refine (h.leave (.inl hfits.1)).removeLocalClaim
      (h.not_holds_setCall hholds (hleave record committed _ _)) fun task htask hid => ?_
    rcases h.settled task htask with hacked | ⟨-, -, -, hnone⟩
    · exact hid ▸ hacked
    · refine absurd ?_ (hnone c)
      rw [hc]
      exact hid.symm
  | acking node record committed =>
    rw [hc] at herr hfits
    obtain ⟨⟩ := herr
    exact h.leave (.inr hfits.1)
  | unused | ensured | scanning | executing | abandoned | finished => simp [hc] at herr

/-- One round of the loop over the entries either claims the first of them or goes on. -/
theorem scan (h : s.Invariant) {worker : String} {entries : List StoredTask}
    (hcall : s.calls c = .scanning node worker entries) :
    (s.scan c node worker entries).Invariant := by
  have hfits := h.fits c
  rw [hcall] at hfits
  cases entries with
  | nil => exact h.setCall_of_not_claims trivial (fun _ _ => False.elim) fun _ => id
  | cons record entries =>
    rw [Cluster.scan]
    split_ifs with hclaim
    · obtain ⟨⟨hrunning, hnode, -⟩, hfree⟩ := hclaim
      have hruns : RunsAt s.log record.taskId node :=
        ⟨record, hfits record mem_cons_self, rfl, hrunning, hnode⟩
      have hlocked : ({ record with lockBy := some worker } : StoredTask).status = .running :=
        hrunning
      exact h.claim hlocked hruns hfree
    · have hrest : ∀ record' ∈ entries, record' ∈ s.log :=
        fun record' hmem => hfits record' (mem_cons_of_mem _ hmem)
      exact h.setCall_of_not_claims hrest (fun _ _ => False.elim) fun _ => id

end Cluster.Invariant

theorem mem_log_of_mem_entries {s : Cluster} {node : String} {record : StoredTask}
    (h : record ∈ s.entries node) : record ∈ s.log := by
  obtain ⟨p, hp, rfl⟩ := List.mem_map.mp h
  exact mem_of_mem_take (RecordLog.mem_of_mem_toList_table hp)

theorem running_of_scheduleNext {hash : String → ℕ} {followers : List String} {now : UInt64}
    {entries : List StoredTask} {record : StoredTask}
    (h : scheduleNextToFollower hash followers now entries = some record) :
    record.status = .running := by
  obtain ⟨old, -, h⟩ := Option.bind_eq_some_iff.mp h
  obtain ⟨target, -, h⟩ := Option.bind_eq_some_iff.mp h
  obtain ⟨⟩ := h
  rfl

theorem acked_of_ackRecord {task : CompactTask} {attempt : ℕ} {outcome : TaskOutcome}
    {record : StoredTask} (h : ackRecord task attempt outcome = some record) :
    record.Acked ∧ record.taskId = task.taskId := by
  cases outcome with
  | value payload =>
    obtain ⟨⟩ := h
    exact ⟨.inl rfl, rfl⟩
  | notEncodable => cases h
  | error message =>
    obtain ⟨⟩ := h
    exact ⟨.inr rfl, rfl⟩

/-- **One step.** Every step whose write is timely preserves the invariant. -/
theorem Cluster.Invariant.step {hash : String → ℕ} {s s' : Cluster} {e : Event}
    (h : s.Invariant) (hstep : TimelyStep hash s e s') : s'.Invariant := by
  obtain ⟨hstep, htimely⟩ := hstep
  cases e with
  | submit task =>
    obtain ⟨hnew, rfl⟩ := hstep
    refine h.write fun old hold => absurd ?_ (hnew old (RecordLog.of_getElem?_table hold).1)
    exact (RecordLog.of_getElem?_table hold).2
  | replicate node index =>
    obtain ⟨-, -, rfl⟩ := hstep
    exact ⟨h.chained, h.fits, h.claimed, h.unique, h.settled, h.fresh, h.once⟩
  | ensureLinearizableRead c node voters currentLeader =>
    obtain ⟨-, rfl⟩ := hstep
    split_ifs
    all_goals exact h.setCall_of_not_claims trivial (fun _ _ => False.elim) fun _ => id
  | schedule c now =>
    obtain ⟨node, followers, index, -, -, rfl⟩ := hstep
    split
    · next record hrecord =>
      exact h.setCall_of_not_claims (running_of_scheduleNext hrecord) (fun _ _ => False.elim)
        fun _ => id
    · exact h.setCall_of_not_claims trivial (fun _ _ => False.elim) fun _ => id
  | readEntries c node worker =>
    obtain ⟨-, rfl⟩ := hstep
    exact h.setCall_of_not_claims (fun _ => mem_log_of_mem_entries) (fun _ _ => False.elim)
      fun _ => id
  | scan c =>
    obtain ⟨node, worker, entries, hcall, rfl⟩ := hstep
    exact h.scan hcall
  | commit c =>
    obtain ⟨record, call, hcall, rfl⟩ := hstep
    exact h.commit hcall (htimely c record call rfl hcall)
  | writeOk c => exact h.writeOk hstep
  | writeErr c => exact h.writeErr hstep
  | ack c attempt outcome =>
    obtain ⟨node, task, hcall, rfl⟩ := hstep
    split
    · next record hrecord =>
      obtain ⟨hacked, hid⟩ := acked_of_ackRecord hrecord
      refine h.setCall_of_not_claims ⟨hacked, nofun⟩ ?_ fun _ => id
      rintro node' taskId ⟨rfl, rfl⟩
      rw [hcall]
      exact ⟨rfl, hid.symm⟩
    · exact h.setCall_of_not_claims trivial (fun _ _ => False.elim) fun _ => id

/-- **Every task runs once, if the writes are timely**: each is committed while its task is queued,
or runs at the node that it names. Acknowledged records stay so, and no task is handed out twice. -/
theorem runsOnce_of_timely {hash : String → ℕ} {es : List Event} {s : Cluster}
    (run : Run (TimelyStep hash) .initial es s) : s.RunsOnce :=
  (run.invariant Cluster.Invariant.initial fun _ _ _ => Cluster.Invariant.step).runsOnce

/-! ### Two runs -/

theorem TimelyStep.of_step {hash : String → ℕ} {s s' : Cluster} {e : Event}
    (hstep : Step hash s e s') (he : ∀ c, e ≠ .commit c) : TimelyStep hash s e s' :=
  ⟨hstep, fun c _ _ hc _ => absurd hc (he c)⟩

theorem TimelyStep.commit {hash : String → ℕ} {s : Cluster} {c : ℕ} {record : StoredTask}
    {call : Call} (hcall : (s.calls c).commit = some (record, call)) (h : record.Timely s) :
    TimelyStep hash s (.commit c) ((s.write record).setCall c call) := by
  refine ⟨⟨record, call, hcall, rfl⟩, fun c' record' call' hc' hcall' => ?_⟩
  cases hc'
  obtain ⟨rfl, -⟩ := Prod.mk.inj (Option.some.inj (hcall.symm.trans hcall'))
  exact h

/-- A task that was not queued yet. -/
def newTask : CompactTask := ⟨[], "t", 0, .pending, 0, none, none, none⟩

/-- Its record, running at node "n2". -/
def runningTask : StoredTask :=
  { persistTask newTask with status := .running, assignedNodeId := some "n2" }

/-- A task is submitted, scheduled by `n1`, claimed at `n2`, executed and acknowledged. -/
def onceEvents : List Event :=
  [.submit newTask, .replicate "n1" 1,
    .ensureLinearizableRead 0 "n1" ["n1", "n2"] (some "n1"), .schedule 0 7, .commit 0,
    .replicate "n2" 2, .readEntries 1 "n2" "w", .scan 1, .commit 1, .writeOk 1,
    .ack 1 1 (.value []), .commit 1, .writeOk 1]

/-- The replica of `n2` still shows the task as running, and its worker claims it again. -/
def twiceEvents : List Event :=
  onceEvents ++ [.readEntries 2 "n2" "w", .scan 2, .commit 2, .writeOk 2]

/-- A task that runs once. -/
theorem runsOnce_of_timely_once : ∃ s, Run (TimelyStep fun _ => 0) .initial onceEvents s ∧
    s.RunsOnce := by
  have run : ∃ s, Run (TimelyStep fun _ => 0) .initial onceEvents s :=
    ⟨_, .cons (.of_step ⟨fun _ => False.elim ∘ not_mem_nil, rfl⟩ nofun) <|
      .cons (.of_step ⟨by decide, by decide, rfl⟩ nofun) <|
      .cons (.of_step ⟨rfl, rfl⟩ nofun) <|
      .cons (.of_step ⟨_, _, _, rfl, by decide, rfl⟩ nofun) <|
      .cons (.commit rfl fun _ => ⟨persistTask newTask, by decide +kernel, .inl rfl⟩) <|
      .cons (.of_step ⟨by decide, by decide, rfl⟩ nofun) <|
      .cons (.of_step ⟨rfl, rfl⟩ nofun) <| .cons (.of_step ⟨_, _, _, rfl, rfl⟩ nofun) <|
      .cons (.commit rfl fun _ => ⟨runningTask, by decide +kernel, .inr ⟨rfl, rfl⟩⟩) <|
      .cons (.of_step rfl nofun) <| .cons (.of_step ⟨_, _, rfl, rfl⟩ nofun) <|
      .cons (.commit rfl nofun) <| .cons (.of_step rfl nofun) .nil⟩
  obtain ⟨s, run⟩ := run
  exact ⟨s, run, runsOnce_of_timely run⟩

/-- **A lagging replica runs a task again.** The worker has acknowledged the task; its replica still
shows it as running, so that it is claimed and handed out a second time. -/
theorem lagging_claim_runs_twice : ∃ s, Run (Step fun _ => 0) .initial twiceEvents s ∧
    s.log.map StoredTask.status = [.queued, .running, .running, .done, .running] ∧
    s.handed.map CompactTask.taskId = ["t", "t"] ∧ ¬s.RunsOnce := by
  refine ⟨_, .cons ⟨fun _ => False.elim ∘ not_mem_nil, rfl⟩ <|
    .cons ⟨by decide, by decide, rfl⟩ <| .cons ⟨rfl, rfl⟩ <|
    .cons ⟨_, _, _, rfl, by decide, rfl⟩ <| .cons ⟨_, _, rfl, rfl⟩ <|
    .cons ⟨by decide, by decide, rfl⟩ <| .cons ⟨rfl, rfl⟩ <| .cons ⟨_, _, _, rfl, rfl⟩ <|
    .cons ⟨_, _, rfl, rfl⟩ <| .cons rfl <| .cons ⟨_, _, rfl, rfl⟩ <| .cons ⟨_, _, rfl, rfl⟩ <|
    .cons rfl <| .cons ⟨rfl, rfl⟩ <| .cons ⟨_, _, _, rfl, rfl⟩ <| .cons ⟨_, _, rfl, rfl⟩ <|
    .cons rfl .nil, rfl, rfl, fun h => ?_⟩
  have honce : ["t", "t"].Nodup := h.once
  exact absurd honce (by decide)

end RustExample.ApalisRaft
