import Mathlib.Data.List.Count
import RustExample.ApalisScheduler.Scheduler

/-!
# Where an accepted task is

A task that the scheduler has accepted is in the backlog, in the table of pending requests or
finished, and in one place only: the events of the scheduler move it from one to the other. A
restart keeps the records and drops the tables, and nothing reads a record back into them: the
unfinished tasks of the earlier run stay in their records.
-/

namespace RustExample.ApalisScheduler

open Function List

variable {PeerId RequestId : Type}

/-! ### Entries of a table -/

section Table

variable [DecidableEq RequestId] {α : Type} {t : AList fun _ : RequestId => α}
  {k : RequestId} {a : α}

theorem countP_entries_insert (p : α → Bool) (hk : k ∉ t) :
    (t.insert k a).entries.countP (fun e => p e.2) =
      t.entries.countP (fun e => p e.2) + (if p a then 1 else 0) := by
  rw [AList.entries_insert_of_notMem hk, countP_cons]

theorem countP_entries_erase (p : α → Bool) (hk : t.lookup k = some a) :
    t.entries.countP (fun e => p e.2) =
      (t.erase k).entries.countP (fun e => p e.2) + (if p a then 1 else 0) := by
  have hmem : k ∈ t.keys := AList.lookup_isSome.mp (hk ▸ rfl)
  obtain ⟨b, l₁, l₂, hnot, hentries, herase⟩ := exists_of_kerase hmem
  have hb : b = a := by
    have hfound : (⟨k, b⟩ : Σ _ : RequestId, α) ∈ t.entries := hentries ▸ by simp
    exact Option.some.inj (((AList.mem_lookup_iff).mpr hfound).symm.trans hk)
  have hrest : (t.erase k).entries = l₁ ++ l₂ := herase
  rw [hrest, hentries, countP_append, countP_append, countP_cons]
  subst hb
  exact (Nat.add_assoc ..).symm

end Table

namespace Scheduler

/-! ### Places -/

variable (s : Scheduler PeerId RequestId) (id : String)

/-- The stored record of the task is `Completed` or `Failed`. -/
def finished : Bool := (s.store id).any fun record => record.status.Terminal

/-- How many entries of the backlog and of the table of pending requests have the task. -/
def queued : ℕ :=
  s.backlog.countP (·.id = id) + s.pending.entries.countP (·.2.id = id)

/-- In how many places the task is: each entry of the backlog or of the table of pending requests
is one, and a record that is `Completed` or `Failed` is one. -/
def places : ℕ := s.queued id + if s.finished id then 1 else 0

/-- How often the producer has the task on its way to the loop. -/
def produced : ℕ := s.commands.countP (·.id = id)

variable {s id} {task : DistributedTask} {requestId : ℕ → RequestId}

/-- The pending requests are among those the swarm has sent. -/
def Sent (requestId : ℕ → RequestId) (s : Scheduler PeerId RequestId) : Prop :=
  ∀ k ∈ s.pending, ∃ n < s.requests, k = requestId n

theorem places_le_of_finished (h : s.places id ≤ 1) (hqueued : 0 < s.queued id) :
    s.finished id = false := by
  by_contra hfinished
  rw [places, if_pos (by simpa using hfinished)] at h
  omega

/-! ### Dispatching -/

variable [DecidableEq RequestId] [ToString PeerId]

theorem dispatch_of_workers (h : 0 < s.workers.length) : ∃ peer : PeerId,
    s.dispatch requestId task = { s with
      nextWorker := s.nextWorker + 1
      store := s.store.putStatus task .assigned (some (toString peer)) none
      requests := s.requests + 1
      pending := s.pending.insert (requestId s.requests) task } :=
  ⟨_, dif_pos h⟩

theorem dispatch_of_no_workers (h : ¬0 < s.workers.length) :
    s.dispatch requestId task = { s with backlog := s.backlog ++ [task] } :=
  dif_neg h

theorem submitTask_eq : s.submitTask requestId task = s.dispatch requestId task := by
  rw [submitTask]
  split_ifs with h
  · rw [dispatch_of_no_workers (by simpa using h)]
  · rfl

/-- What happens when `added id` times the task `id` is queued: a task that is not queued keeps its
record, and none is finished. -/
structure Dispatched (requestId : ℕ → RequestId) (added : String → ℕ)
    (s s' : Scheduler PeerId RequestId) : Prop where
  sent : s'.Sent requestId
  commands : s'.commands = s.commands
  queued : ∀ id, s'.queued id = s.queued id + added id
  store : ∀ id, s.queued id + added id = 0 → s'.store id = s.store id
  finished : ∀ id, s.finished id = false → s'.finished id = false
  recorded : ∀ id, s.store id ≠ none → s'.store id ≠ none

/-- One entry for `task`. -/
def oneFor (task : DistributedTask) (id : String) : ℕ := if task.id = id then 1 else 0

omit [DecidableEq RequestId] [ToString PeerId] in
/-- An unfinished record of `task` may be stored over any other. -/
theorem finished_putStatus {status : TaskStatus} {node output : Option String}
    (hstatus : ¬status.Terminal) (h : s.finished id = false) :
    { s with store := s.store.putStatus task status node output }.finished id = false := by
  by_cases hid : id = task.id
  · subst hid
    simpa [finished, TaskStore.putStatus] using hstatus
  · simpa only [finished, TaskStore.putStatus, update_of_ne hid] using h

theorem putStatus_ne_none {store : TaskStore} {status : TaskStatus} {node output : Option String}
    (h : store id ≠ none ∨ task.id = id) : store.putStatus task status node output id ≠ none := by
  by_cases hid : id = task.id
  · subst hid
    simp [TaskStore.putStatus]
  · rw [TaskStore.putStatus, update_of_ne hid]
    exact h.resolve_right (Ne.symm hid)

theorem dispatched (hids : Function.Injective requestId) (hs : s.Sent requestId) :
    Dispatched requestId (oneFor task) s (s.dispatch requestId task) := by
  by_cases h : 0 < s.workers.length
  · have hfresh : requestId s.requests ∉ s.pending := fun hmem => by
      obtain ⟨n, hlt, heq⟩ := hs _ hmem
      exact absurd (hids heq) (Nat.ne_of_gt hlt)
    obtain ⟨peer, hdispatch⟩ := dispatch_of_workers h
    rw [hdispatch]
    refine ⟨fun k hk => ?_, rfl, fun id => ?_, fun id hzero => ?_,
      fun _ => finished_putStatus (by decide), fun _ hid => putStatus_ne_none (.inl hid)⟩
    · rcases (AList.mem_insert _).mp hk with rfl | hold
      · exact ⟨s.requests, Nat.lt_succ_self _, rfl⟩
      · obtain ⟨n, hlt, heq⟩ := hs k hold
        exact ⟨n, Nat.lt_succ_of_lt hlt, heq⟩
    · have hcount := @countP_entries_insert _ _ _ _ _ task (fun t => decide (t.id = id)) hfresh
      simp only [decide_eq_true_eq] at hcount
      simp only [Scheduler.queued, hcount, oneFor]
      omega
    · refine update_of_ne (fun heq => ?_) ..
      rw [oneFor, if_pos heq.symm] at hzero
      omega
  · rw [dispatch_of_no_workers h]
    refine ⟨hs, rfl, fun id => ?_, fun _ _ => rfl, fun _ hf => hf, fun _ hid => hid⟩
    simp only [Scheduler.queued, countP_append, countP_singleton, decide_eq_true_eq,
      oneFor]
    omega

omit [DecidableEq RequestId] [ToString PeerId] in
theorem Dispatched.trans {s₁ s₂ : Scheduler PeerId RequestId}
    (h : Dispatched requestId (fun _ => 0) s s₁) (h' : Dispatched requestId (fun _ => 0) s₁ s₂) :
    Dispatched requestId (fun _ => 0) s s₂ where
  sent := h'.sent
  commands := h'.commands.trans h.commands
  queued id := (h'.queued id).trans (h.queued id)
  store id hid := (h'.store id ((h.queued id).trans hid)).trans (h.store id hid)
  finished id hid := h'.finished id (h.finished id hid)
  recorded id hid := h'.recorded id (h.recorded id hid)

omit [DecidableEq RequestId] [ToString PeerId] in
theorem Dispatched.refl (hs : s.Sent requestId) (workers : List PeerId) :
    Dispatched requestId (fun _ => 0) s { s with workers := workers } :=
  ⟨hs, rfl, fun _ => rfl, fun _ _ => rfl, fun _ h => h, fun _ h => h⟩

/-- The first task of the backlog is dispatched again. -/
theorem redispatched (hids : Function.Injective requestId) (hs : s.Sent requestId)
    {backlog : List DistributedTask} (hbacklog : s.backlog = task :: backlog) :
    Dispatched requestId (fun _ => 0) s
      ({ s with backlog := backlog }.dispatch requestId task) := by
  have hpop (id : String) :
      s.queued id = { s with backlog := backlog }.queued id + oneFor task id := by
    simp only [queued, hbacklog, countP_cons, decide_eq_true_eq, oneFor]
    omega
  have h : Dispatched requestId (oneFor task) _ _ :=
    @dispatched _ _ { s with backlog := backlog } task requestId _ _ hids hs
  refine ⟨h.sent, h.commands, fun id => ?_, fun id hid => h.store id ?_, h.finished, h.recorded⟩
  · rw [h.queued id, ← hpop id, Nat.add_zero]
  · rw [← hpop id]
    exact hid

theorem drainTimes_dispatched (hids : Function.Injective requestId) (count : ℕ)
    (hs : s.Sent requestId) :
    Dispatched requestId (fun _ => 0) s (drainTimes requestId count s) := by
  induction count generalizing s with
  | zero => exact .refl hs _
  | succ count ih =>
    rw [drainTimes]
    split
    · exact .refl hs _
    · rename_i task backlog hbacklog
      have h := redispatched hids hs hbacklog
      exact h.trans (ih h.sent)

theorem drainBacklog_dispatched (hids : Function.Injective requestId) (hs : s.Sent requestId) :
    Dispatched requestId (fun _ => 0) s (s.drainBacklog requestId) := by
  rw [drainBacklog]
  split_ifs
  · exact .refl hs _
  · exact drainTimes_dispatched hids _ hs

omit [ToString PeerId] in
theorem outboundFailure_dispatched [DecidableEq PeerId] (hs : s.Sent requestId) (peer : PeerId)
    (k : RequestId) : Dispatched requestId (fun _ => 0) s (s.outboundFailure peer k) := by
  rw [outboundFailure]
  split
  · exact .refl hs _
  · rename_i task hlookup
    refine ⟨fun k hk => hs k (AList.mem_erase.mp hk).2, rfl, fun id => ?_, fun _ _ => rfl,
      fun _ h => h, fun _ h => h⟩
    have hcount := countP_entries_erase (fun t => decide (t.id = id)) hlookup
    simp only [decide_eq_true_eq] at hcount
    simp only [queued, countP_append, countP_singleton, decide_eq_true_eq, hcount]
    omega

/-! ### No task is in two places -/

omit [DecidableEq RequestId] [ToString PeerId] in
theorem places_eq_of_finished (h : s.finished id = true) : s.places id = s.queued id + 1 := by
  rw [places, if_pos h]

omit [DecidableEq RequestId] [ToString PeerId] in
theorem places_eq_of_not_finished (h : s.finished id = false) : s.places id = s.queued id := by
  rw [places, if_neg (by simp [h]), Nat.add_zero]

omit [DecidableEq RequestId] [ToString PeerId] in
theorem finished_congr {s' : Scheduler PeerId RequestId} (h : s'.store id = s.store id) :
    s'.finished id = s.finished id := by
  rw [finished, finished, h]

/-- A task is in one place at most, and a task without a record in none. -/
structure Inv (requestId : ℕ → RequestId) (s : Scheduler PeerId RequestId) : Prop where
  sent : s.Sent requestId
  fresh : ∀ id, s.store id = none → s.queued id + s.produced id = 0
  single : ∀ id, s.places id + s.produced id ≤ 1

/-- What an event does that brings `added id` new tasks `id`: a task may move to another place, and
one that is not queued keeps its record. -/
structure Moved (requestId : ℕ → RequestId) (added : String → ℕ)
    (s s' : Scheduler PeerId RequestId) : Prop where
  sent : s'.Sent requestId
  total : ∀ id, s'.places id + s'.produced id = s.places id + s.produced id + added id
  grows : ∀ id, s.places id ≤ s'.places id
  frame : ∀ id, s.queued id + s.produced id + added id = 0 →
    s'.store id = s.store id ∧ s'.queued id + s'.produced id = 0
  recorded : ∀ id, s.store id ≠ none ∨ 0 < added id → s'.store id ≠ none

omit [DecidableEq RequestId] [ToString PeerId] in
theorem Inv.move {s' : Scheduler PeerId RequestId} {added : String → ℕ} (h : Inv requestId s)
    (hmoved : Moved requestId added s s')
    (hadded : ∀ id, 0 < added id → s.store id = none ∧ added id = 1) : Inv requestId s' where
  sent := hmoved.sent
  fresh id hid := by
    have hstore : s.store id = none := by
      by_contra hsome
      exact hmoved.recorded id (.inl hsome) hid
    have hzero : added id = 0 := by
      by_contra hpos
      exact hmoved.recorded id (.inr (Nat.pos_of_ne_zero hpos)) hid
    refine (hmoved.frame id ?_).2
    rw [h.fresh id hstore, hzero]
  single id := by
    rw [hmoved.total id]
    rcases Nat.eq_zero_or_pos (added id) with hzero | hpos
    · rw [hzero]
      exact h.single id
    · obtain ⟨hstore, hone⟩ := hadded id hpos
      have hfresh := h.fresh id hstore
      have hunfinished : s.finished id = false := by rw [finished, hstore]; rfl
      rw [places_eq_of_not_finished hunfinished]
      omega

omit [DecidableEq RequestId] [ToString PeerId] in
theorem Dispatched.places {s' : Scheduler PeerId RequestId} {added : String → ℕ}
    (h : Dispatched requestId added s s') (hsingle : s.places id + added id ≤ 1) :
    s'.places id = s.places id + added id := by
  cases hfinished : s.finished id with
  | true =>
    rw [places_eq_of_finished hfinished] at hsingle ⊢
    have hzero : s.queued id + added id = 0 := by omega
    rw [places_eq_of_finished ((finished_congr (h.store id hzero)).trans hfinished), h.queued id]
    omega
  | false =>
    rw [places_eq_of_not_finished hfinished,
      places_eq_of_not_finished (h.finished id hfinished), h.queued id]

omit [DecidableEq RequestId] [ToString PeerId] in
/-- The tasks that are queued come from the producer, or they are new. -/
theorem Dispatched.moved {s' : Scheduler PeerId RequestId} {queued added : String → ℕ}
    {sent : List DistributedTask} (h : Dispatched requestId queued { s with commands := sent } s')
    (hproduced : ∀ id, s.produced id + added id = sent.countP (·.id = id) + queued id)
    (hsingle : ∀ id, s.places id + queued id ≤ 1)
    (hrecorded : ∀ id, 0 < queued id → s'.store id ≠ none)
    (hadded : ∀ id, added id ≤ queued id) : Moved requestId added s s' := by
  have hplaces (id : String) : s'.places id = s.places id + queued id := h.places (hsingle id)
  have hcommands (id : String) : s'.produced id = sent.countP (·.id = id) := by
    rw [Scheduler.produced, h.commands]
  constructor
  · exact h.sent
  · intro id
    have hid := hproduced id
    rw [hplaces id, hcommands id]
    omega
  · intro id
    rw [hplaces id]
    exact Nat.le_add_right ..
  · intro id hid
    have hprod := hproduced id
    have hzero : s.queued id + queued id = 0 := by omega
    refine ⟨h.store id hzero, ?_⟩
    rw [h.queued id, hcommands id]
    have hq : { s with commands := sent }.queued id = s.queued id := rfl
    omega
  · rintro id (hid | hid)
    · exact h.recorded id hid
    · exact hrecorded id (Nat.lt_of_lt_of_le hid (hadded id))

omit [DecidableEq RequestId] [ToString PeerId] in
theorem Inv.stay {s' : Scheduler PeerId RequestId} (h : Inv requestId s)
    (hd : Dispatched requestId (fun _ => 0) s s') : Moved requestId (fun _ => 0) s s' :=
  Dispatched.moved hd (fun _ => rfl)
    (fun id => Nat.le_trans (Nat.le_add_right ..) (h.single id)) (fun _ hid => absurd hid (by simp))
    fun _ => Nat.le_refl _

omit [DecidableEq RequestId] [ToString PeerId] in
theorem oneFor_pos (h : 0 < oneFor task id) : task.id = id := by
  by_contra hne
  rw [oneFor, if_neg hne] at h
  exact absurd h (Nat.lt_irrefl _)

omit [DecidableEq RequestId] [ToString PeerId] in
theorem Inv.places_of_fresh (h : Inv requestId s) (hid : s.store id = none) :
    s.places id + s.produced id = 0 := by
  have hunfinished : s.finished id = false := by rw [finished, hid]; rfl
  rw [places_eq_of_not_finished hunfinished]
  exact h.fresh id hid

omit [DecidableEq RequestId] [ToString PeerId] in
theorem oneFor_self : oneFor task task.id = 1 := if_pos rfl

omit [DecidableEq RequestId] [ToString PeerId] in
theorem Dispatched.of_putStatus {s' : Scheduler PeerId RequestId} {node output : Option String}
    (h : Dispatched requestId (oneFor task)
      { s with store := s.store.putStatus task .created node output } s') :
    Dispatched requestId (oneFor task) s s' where
  sent := h.sent
  commands := h.commands
  queued := h.queued
  store id hid := by
    have hne : id ≠ task.id := by
      rintro rfl
      rw [oneFor_self] at hid
      omega
    exact (h.store id hid).trans (update_of_ne hne ..)
  finished id hid := h.finished id (finished_putStatus (by decide) hid)
  recorded id hid := h.recorded id (putStatus_ne_none (.inl hid))

theorem submission_dispatched [DecidableEq PeerId] (hids : Function.Injective requestId)
    (hs : s.Sent requestId) (localPeerId : String) (peer : PeerId) :
    Dispatched requestId (oneFor task) s (s.handleSubmission requestId localPeerId peer task).2 ∧
      (s.handleSubmission requestId localPeerId peer task).2.store task.id ≠ none := by
  rw [handleSubmission]
  dsimp only
  rw [submitTask_eq]
  have hd : Dispatched requestId (oneFor task) _ _ := @dispatched _ _
    { s with store := s.store.putStatus task .created none (some s!"submitted by {peer}") }
    task requestId _ _ hids hs
  exact ⟨hd.of_putStatus, hd.recorded task.id (putStatus_ne_none (.inr rfl))⟩

omit [DecidableEq RequestId] [ToString PeerId] in
theorem Inv.places_add_oneFor (h : Inv requestId s) (hfresh : s.store task.id = none)
    (id : String) : s.places id + oneFor task id ≤ 1 := by
  rcases Nat.eq_zero_or_pos (oneFor task id) with hzero | hpos
  · have hsingle := h.single id
    omega
  · obtain rfl := oneFor_pos hpos
    have hplaces := h.places_of_fresh hfresh
    rw [oneFor_self]
    omega

theorem Inv.submission [DecidableEq PeerId] (hids : Function.Injective requestId)
    (h : Inv requestId s) (hfresh : s.store task.id = none) (localPeerId : String)
    (peer : PeerId) :
    Moved requestId (oneFor task) s (s.handleSubmission requestId localPeerId peer task).2 ∧
      (s.handleSubmission requestId localPeerId peer task).2.places task.id = 1 := by
  obtain ⟨hd, hrecorded⟩ := @submission_dispatched _ _ s task requestId _ _ _ hids h.sent
    localPeerId peer
  have hsingle := h.places_add_oneFor hfresh
  refine ⟨hd.moved (fun _ => rfl) hsingle (fun id hid => oneFor_pos hid ▸ hrecorded)
    (fun _ => Nat.le_refl _), ?_⟩
  have hplaces := h.places_of_fresh hfresh
  rw [hd.places (hsingle task.id), oneFor_self]
  omega

omit [DecidableEq RequestId] [ToString PeerId] in
theorem Inv.produce (h : Inv requestId s) (hfresh : s.store task.id = none) :
    Moved requestId (oneFor task) s (s.produce task) := by
  have hfinished (id : String) : (s.produce task).finished id = s.finished id := by
    by_cases hid : id = task.id
    · subst hid
      have hbefore : s.finished task.id = false := by rw [finished, hfresh]; rfl
      rw [hbefore]
      exact finished_putStatus (by decide) hbefore
    · exact finished_congr (update_of_ne hid ..)
  have hplaces (id : String) : (s.produce task).places id = s.places id := by
    rw [places, places, hfinished id]
    rfl
  have hproduced (id : String) : (s.produce task).produced id = s.produced id + oneFor task id := by
    simp only [produced, Scheduler.produce, countP_append, countP_singleton,
      decide_eq_true_eq, oneFor]
  refine ⟨h.sent, fun id => ?_, fun id => Nat.le_of_eq (hplaces id).symm, fun id hid => ?_, ?_⟩
  · rw [hplaces id, hproduced id, Nat.add_assoc]
  · have hne : id ≠ task.id := by
      rintro rfl
      rw [oneFor_self] at hid
      omega
    refine ⟨update_of_ne hne .., ?_⟩
    rw [hproduced id, ← Nat.add_assoc]
    exact hid
  · exact fun id hid => putStatus_ne_none (hid.imp_right oneFor_pos)

theorem Inv.command [DecidableEq PeerId] (hids : Function.Injective requestId)
    (h : Inv requestId s) {commands : List DistributedTask}
    (hcommands : s.commands = task :: commands) :
    Moved requestId (fun _ => 0) s
      ({ s with commands := commands }.submitTask requestId task) := by
  have hproduced (id : String) : s.produced id = commands.countP (·.id = id) + oneFor task id := by
    simp only [produced, hcommands, countP_cons, decide_eq_true_eq, oneFor]
  rw [submitTask_eq]
  have hd : Dispatched requestId (oneFor task) _ _ :=
    @dispatched _ _ { s with commands := commands } task requestId _ _ hids h.sent
  refine hd.moved hproduced (fun id => ?_) (fun id hid => hd.recorded id fun hnone => ?_)
    fun _ => Nat.zero_le _
  · have hsingle := h.single id
    have hid := hproduced id
    omega
  · have hfresh := h.fresh id hnone
    have hid := hproduced id
    omega

omit [ToString PeerId] in
/-- The response to a pending request moves its task to a closed record. -/
theorem Inv.finish (h : Inv requestId s) {k : RequestId} (hlookup : s.pending.lookup k = some task)
    {status : TaskStatus} (hstatus : status.Terminal) (node output : Option String) :
    Moved requestId (fun _ => 0) s { s with
      pending := s.pending.erase k
      store := s.store.putStatus task status node output } := by
  set s' : Scheduler PeerId RequestId := { s with
    pending := s.pending.erase k
    store := s.store.putStatus task status node output } with hs'
  have hqueued (id : String) : s.queued id = s'.queued id + oneFor task id := by
    have hcount := countP_entries_erase (fun t => decide (t.id = id)) hlookup
    simp only [decide_eq_true_eq] at hcount
    simp only [queued, hcount, oneFor, Nat.add_assoc, hs']
  have hstore {id : String} (hne : task.id ≠ id) : s'.store id = s.store id :=
    update_of_ne (Ne.symm hne) ..
  have hplaces (id : String) : s'.places id = s.places id := by
    have hid := hqueued id
    by_cases hne : task.id = id
    · subst hne
      have hclosed : s'.finished task.id = true := by
        simpa [finished, TaskStore.putStatus, hs'] using hstatus
      have hsingle := h.single task.id
      rw [oneFor_self] at hid
      have hopen : s.finished task.id = false :=
        places_le_of_finished (by omega) (by omega)
      rw [places_eq_of_finished hclosed, places_eq_of_not_finished hopen, hid]
    · rw [oneFor, if_neg hne] at hid
      rw [places, places, finished_congr (hstore hne), hid, Nat.add_zero]
  refine ⟨fun k' hk => h.sent k' (AList.mem_erase.mp hk).2, fun id => ?_,
    fun id => Nat.le_of_eq (hplaces id).symm, fun id hid => ?_,
    fun id hid => putStatus_ne_none (.inl (hid.resolve_right (Nat.lt_irrefl 0)))⟩
  · rw [hplaces id]
    rfl
  · have hsplit := hqueued id
    have hproduced : s'.produced id = s.produced id := rfl
    refine ⟨hstore ?_, by omega⟩
    rintro rfl
    rw [oneFor_self] at hsplit
    omega

omit [ToString PeerId] in
theorem Inv.response (h : Inv requestId s) (k : RequestId) (response : TaskResponse) :
    Moved requestId (fun _ => 0) s (s.handleTaskResponse k response) := by
  have hsame : Moved requestId (fun _ => 0) s s := h.stay (.refl h.sent _)
  rw [handleTaskResponse]
  split
  · exact hsame
  · split
    · exact hsame
    · rename_i task hlookup
      refine h.finish hlookup ?_ _ _
      cases response.accepted
      · exact .inr rfl
      · exact .inl rfl

end Scheduler

/-! ### Runs -/

section Runs

variable [DecidableEq PeerId] [DecidableEq RequestId] [ToString PeerId]
  {requestId : ℕ → RequestId} {localPeerId : String} {s s' : Scheduler PeerId RequestId}
  {e : Event PeerId RequestId} {id : String}

/-- The submission of the task `id` was answered `accepted`. -/
def Accepts (id : String) : Event PeerId RequestId → Prop
  | .submission _ task response => task.id = id ∧ response.accepted = true
  | _ => False

/-- The event is a restart. -/
def IsRestart (e : Event PeerId RequestId) : Prop := e = .restart

/-- The tasks that an event brings. -/
def brings : Event PeerId RequestId → String → ℕ
  | .submission _ task _, id => Scheduler.oneFor task id
  | .produced task, id => Scheduler.oneFor task id
  | _, _ => 0

open Scheduler in
theorem step_moved (hids : Function.Injective requestId) (h : Inv requestId s)
    (hstep : Step requestId localPeerId s e s') (hrestart : ¬IsRestart e) :
    Moved requestId (brings e) s s' ∧
      ∀ id, 0 < brings e id → s.store id = none ∧ brings e id = 1 := by
  cases e with
  | submission peer task response =>
    obtain ⟨hfresh, hsubmit⟩ := hstep
    have hmoved := (h.submission hids hfresh localPeerId peer).1
    rw [hsubmit] at hmoved
    exact ⟨hmoved, fun id hid => oneFor_pos hid ▸ ⟨hfresh, oneFor_self⟩⟩
  | produced task =>
    obtain ⟨hfresh, rfl⟩ := hstep
    exact ⟨h.produce hfresh, fun id hid => oneFor_pos hid ▸ ⟨hfresh, oneFor_self⟩⟩
  | command task =>
    obtain ⟨commands, hcommands, rfl⟩ := hstep
    exact ⟨h.command hids hcommands, fun _ hid => absurd hid (Nat.lt_irrefl 0)⟩
  | registration peer =>
    obtain rfl := hstep
    refine ⟨h.stay ?_, fun _ hid => absurd hid (Nat.lt_irrefl 0)⟩
    exact (Dispatched.refl h.sent _).trans (drainBacklog_dispatched hids h.sent)
  | response k response =>
    obtain rfl := hstep
    exact ⟨h.response k response, fun _ hid => absurd hid (Nat.lt_irrefl 0)⟩
  | outboundFailure peer k =>
    obtain rfl := hstep
    exact ⟨h.stay (outboundFailure_dispatched h.sent peer k),
      fun _ hid => absurd hid (Nat.lt_irrefl 0)⟩
  | connectionClosed peer =>
    obtain rfl := hstep
    exact ⟨h.stay (.refl h.sent _), fun _ hid => absurd hid (Nat.lt_irrefl 0)⟩
  | retryTick =>
    obtain rfl := hstep
    exact ⟨h.stay (drainBacklog_dispatched hids h.sent), fun _ hid => absurd hid (Nat.lt_irrefl 0)⟩
  | restart => exact absurd rfl hrestart

open Scheduler in
omit [DecidableEq PeerId] [DecidableEq RequestId] [ToString PeerId] in
theorem inv_start (store : TaskStore) :
    Inv requestId (start store : Scheduler PeerId RequestId) where
  sent k hk := absurd hk (AList.notMem_empty k)
  fresh _ _ := rfl
  single id := by
    cases hfinished : (start store : Scheduler PeerId RequestId).finished id with
    | true => exact Nat.le_of_eq (places_eq_of_finished hfinished)
    | false =>
      exact Nat.le_trans (Nat.le_of_eq (places_eq_of_not_finished hfinished)) (Nat.zero_le 1)

open Scheduler in
theorem Scheduler.Inv.step (hids : Function.Injective requestId) (h : Inv requestId s)
    (hstep : Step requestId localPeerId s e s') : Inv requestId s' := by
  by_cases hrestart : IsRestart e
  · obtain rfl := hrestart
    obtain rfl := hstep
    exact inv_start _
  · obtain ⟨hmoved, hnew⟩ := step_moved hids h hstep hrestart
    exact h.move hmoved hnew

theorem step_unique : ∀ (s : Scheduler PeerId RequestId) (e : Event PeerId RequestId)
    (s₁ s₂ : Scheduler PeerId RequestId), Step requestId localPeerId s e s₁ →
      Step requestId localPeerId s e s₂ → s₁ = s₂ := by
  intro s e s₁ s₂ h₁ h₂
  cases e with
  | submission peer task response => exact (Prod.mk.inj (h₁.2.symm.trans h₂.2)).2
  | produced task => exact h₁.2.trans h₂.2.symm
  | command task =>
    obtain ⟨commands, hcommands, rfl⟩ := h₁
    obtain ⟨commands', hcommands', rfl⟩ := h₂
    obtain ⟨-, rfl⟩ := List.cons.inj (hcommands.symm.trans hcommands')
    rfl
  | _ => exact h₁.trans h₂.symm

open Scheduler in
/-- The answer `accepted` leaves the task in one place. -/
theorem places_of_accepts (hids : Function.Injective requestId) (h : Inv requestId s)
    (hstep : Step requestId localPeerId s e s') (haccepts : Accepts id e) : s'.places id = 1 := by
  cases e with
  | submission peer task response =>
    obtain ⟨rfl, -⟩ := haccepts
    obtain ⟨hfresh, hsubmit⟩ := hstep
    have hone := (h.submission hids hfresh localPeerId peer).2
    rwa [hsubmit] at hone
  | _ => exact haccepts.elim

open Scheduler in
omit [DecidableEq PeerId] [DecidableEq RequestId] [ToString PeerId] in
theorem Scheduler.Inv.recorded (h : Inv requestId s) (hid : s.places id = 1) :
    s.store id ≠ none := by
  intro hnone
  have hzero := h.places_of_fresh hnone
  omega

open Scheduler in
/-- **Between restarts** an accepted task stays in one place. -/
theorem accepted_since_restart (hids : Function.Injective requestId) {store : TaskStore}
    {es : List (Event PeerId RequestId)}
    (run : Run (Step requestId localPeerId) (start store) es s) :
    Inv requestId s ∧ ∀ i id, HeldSince (Accepts id) IsRestart es i → s.places id = 1 := by
  refine run.history (P := fun es s => Inv requestId s ∧
    ∀ i id, HeldSince (Accepts id) IsRestart es i → s.places id = 1)
    ⟨inv_start _, fun i id h => absurd h.lt_length (Nat.not_lt_zero i)⟩ ?_
  rintro es s e s' - ⟨hinv, hplaces⟩ hstep
  refine ⟨hinv.step hids hstep, fun i id hheld => ?_⟩
  rcases hheld.of_snoc with ⟨hbefore, hrestart⟩ | ⟨-, haccepts⟩
  · have hone := hplaces i id hbefore
    have hgrows := (step_moved hids hinv hstep hrestart).1.grows id
    have hsingle := (hinv.step hids hstep).single id
    omega
  · exact places_of_accepts hids hinv hstep haccepts

/-- The task has left the tables of the scheduler, with the record that a restart has found. -/
def Abandoned (record : TaskRecord) (id : String) (s : Scheduler PeerId RequestId) : Prop :=
  s.store id = some record ∧ s.queued id + s.produced id = 0

open Scheduler in
/-- Nothing reads the record of an abandoned task. -/
theorem Abandoned.step (hids : Function.Injective requestId) (h : Inv requestId s)
    {record : TaskRecord} (hid : Abandoned record id s)
    (hstep : Step requestId localPeerId s e s') : Abandoned record id s' := by
  obtain ⟨hrecord, hzero⟩ := hid
  by_cases hrestart : IsRestart e
  · obtain rfl := hrestart
    obtain rfl := hstep
    exact ⟨hrecord, rfl⟩
  · obtain ⟨hmoved, hnew⟩ := step_moved hids h hstep hrestart
    have hold : brings e id = 0 := by
      by_contra hpos
      rw [(hnew id (Nat.pos_of_ne_zero hpos)).1] at hrecord
      exact absurd hrecord nofun
    have hframe := hmoved.frame id (by omega)
    exact ⟨hframe.1.trans hrecord, hframe.2⟩

open Scheduler in
theorem Abandoned.run (hids : Function.Injective requestId) (h : Inv requestId s)
    {record : TaskRecord} (hid : Abandoned record id s) {es : List (Event PeerId RequestId)}
    (run : Run (Step requestId localPeerId) s es s') : Abandoned record id s' := by
  have hboth : Inv requestId s' ∧ Abandoned record id s' :=
    run.invariant (P := fun s => Inv requestId s ∧ Abandoned record id s) ⟨h, hid⟩
      fun _ _ _ hP hstep => ⟨hP.1.step hids hstep, hP.2.step hids hP.1 hstep⟩
  exact hboth.2

open Scheduler in
theorem recorded_of_accepts (hids : Function.Injective requestId) {store : TaskStore}
    {es : List (Event PeerId RequestId)}
    (run : Run (Step requestId localPeerId) (start store) es s) {i : ℕ}
    (hi : ∃ e, es[i]? = some e ∧ Accepts id e) : s.store id ≠ none := by
  refine run.history (P := fun es s => (∃ e, es[i]? = some e ∧ Accepts id e) → s.store id ≠ none)
    (fun ⟨_, h, _⟩ => absurd h nofun) ?_ hi
  rintro es s e s' hrun hP hstep ⟨c, hc, haccepts⟩
  have hinv := (accepted_since_restart hids hrun).1
  rcases getElem?_snoc.mp hc with hold | ⟨-, rfl⟩
  · by_cases hrestart : IsRestart e
    · obtain rfl := hrestart
      obtain rfl := hstep
      exact hP ⟨c, hold, haccepts⟩
    · exact (step_moved hids hinv hstep hrestart).1.recorded id (.inl (hP ⟨c, hold, haccepts⟩))
  · exact (hinv.step hids hstep).recorded (places_of_accepts hids hinv hstep haccepts)

/-- **An accepted task is in one place until the next restart**: the backlog, one pending request,
or a record that is `Completed` or `Failed`. From a restart on it is in neither table and keeps its
record. -/
theorem accepted_in_one_place (hids : Function.Injective requestId) {store : TaskStore}
    {es : List (Event PeerId RequestId)}
    (run : Run (Step requestId localPeerId) (start store) es s) {i : ℕ}
    (hi : ∃ e, es[i]? = some e ∧ Accepts id e) :
    ((∀ j, i < j → es[j]? ≠ some .restart) → s.places id = 1) ∧
      ∀ j s₁, i < j → es[j]? = some .restart →
        Run (Step requestId localPeerId) (start store) (es.take j) s₁ →
        ∃ record, s₁.store id = some record ∧ s.store id = some record ∧ s.queued id = 0 := by
  refine ⟨fun hlater => ?_, fun j s₁ hij hj run₁ => ?_⟩
  · refine (accepted_since_restart hids run).2 i id ⟨hi, fun k e hik hk hrestart => ?_⟩
    exact hlater k hik (hrestart ▸ hk)
  · obtain ⟨s₁', s₂, run₁', hstep, run₂⟩ := run.at_event hj
    obtain rfl := Run.state_unique step_unique run₁ run₁'
    obtain ⟨e, he, haccepts⟩ := hi
    have hrecorded := recorded_of_accepts hids run₁
      ⟨e, (getElem?_take_of_lt hij).trans he, haccepts⟩
    obtain ⟨record, hrecord⟩ := Option.ne_none_iff_exists'.mp hrecorded
    obtain rfl := hstep
    have habandoned : Abandoned record id s :=
      Abandoned.run hids (inv_start _) ⟨hrecord, rfl⟩ run₂
    exact ⟨record, hrecord, habandoned.1, Nat.eq_zero_of_add_eq_zero_right habandoned.2⟩

end Runs

/-! ### A restart -/

/-- The submission of a task with the payload `report`. -/
def submissionOf (taskId : String) : Event String ℕ :=
  .submission "client" ⟨taskId, "report", 0⟩ ⟨taskId, true, "submitted to scheduler", "scheduler"⟩

/-- A submission, a restart, a second submission and a worker that takes it. -/
theorem accepted_in_one_place_restarted : ∃ s : Scheduler String ℕ,
    Run (Step id "scheduler") (start fun _ => none)
      [submissionOf "a", .restart, submissionOf "b", .registration "worker"] s ∧
      s.places "b" = 1 ∧ ∃ record, s.store "a" = some record ∧ s.queued "a" = 0 := by
  obtain ⟨s, run⟩ : ∃ s : Scheduler String ℕ, Run (Step id "scheduler") (start fun _ => none)
      [submissionOf "a", .restart, submissionOf "b", .registration "worker"] s :=
    ⟨_, .cons ⟨rfl, rfl⟩ <| .cons rfl <| .cons ⟨rfl, rfl⟩ <| .cons rfl .nil⟩
  have ha : ∃ e, [submissionOf "a", .restart, submissionOf "b", .registration "worker"][0]? =
      some e ∧ Accepts "a" e := ⟨_, rfl, rfl, rfl⟩
  have hb : ∃ e, [submissionOf "a", .restart, submissionOf "b", .registration "worker"][2]? =
      some e ∧ Accepts "b" e := ⟨_, rfl, rfl, rfl⟩
  refine ⟨s, run, (accepted_in_one_place Function.injective_id run hb).1 fun j hj => ?_, ?_⟩
  · match j, hj with
    | 3, _ => exact nofun
    | j + 4, _ => exact nofun
  · obtain ⟨record, -, hrecord⟩ := (accepted_in_one_place Function.injective_id run ha).2 1 _
      Nat.one_pos rfl (.cons ⟨rfl, rfl⟩ .nil)
    exact ⟨record, hrecord⟩

/-- **A restart drops a task that waits**: it has been accepted and is in no place. -/
theorem restart_drops_backlog : ¬∀ (es : List (Event String ℕ)) (s : Scheduler String ℕ),
    Run (Step id "scheduler") (start fun _ => none) es s →
      ∀ (i : ℕ) (taskId : String), (∃ e, es[i]? = some e ∧ Accepts taskId e) →
        s.places taskId = 1 := by
  intro h
  have hone := h [submissionOf "a", .restart] _ (.cons ⟨rfl, rfl⟩ <| .cons rfl .nil) 0 "a"
    ⟨_, rfl, rfl, rfl⟩
  exact absurd hone (by decide)

end RustExample.ApalisScheduler
