import Mathlib.Algebra.Order.Group.Multiset
import RustExample.TransactionPool.Queue

/-!
# No task is lost and no place is taken twice

At most moments the counter and the queues disagree: a place is reserved before the task is
inserted and given back after it was removed. What holds at every moment is that the counter is the
number of queued tasks plus the places that calls hold, and that the tasks that pushes have handed
over are the ones that are queued and the ones that pops have taken.

Clients see that every accepted task is taken once or still queued, that the limit is respected, and
that pops come in order. A push may be refused although the queue has room: another refused push
that has not given its place back, and a pop that has removed its task but not given the place back,
still count.
-/

namespace RustExample.TransactionPool

variable {T : Type} {P : PriorityQueue T}

/-! ### What the queues and the calls hold -/

/-- The tasks in a queue. -/
def WorkerQueue.tasks (q : WorkerQueue P) : Multiset T := (P.contents q.inner).map (·.1.task)

/-- The ids in a queue. -/
def WorkerQueue.ids (q : WorkerQueue P) : Multiset ℕ := (P.contents q.inner).map (·.1.id)

/-- The tasks in all queues. -/
def tasks (s : ShardedQueue P) : Multiset T := tally WorkerQueue.tasks s.queues

namespace Call

/-- The task of a push that has returned without an error. -/
def accepted : Call T → Multiset T
  | .pushed task (.ok ()) => {task}
  | _ => 0

/-- The task that a pop or a steal has removed. -/
def taken : Call T → Multiset T
  | .release task => {task}
  | .popped (some task) => {task}
  | _ => 0

/-- The place of a push that will be accepted. -/
def reserved : Call T → ℕ
  | .sequence .. => 1
  | .insert .. => 1
  | _ => 0

/-- The place of a call that is about to give it back. -/
def transient : Call T → ℕ
  | .giveBack _ => 1
  | .release _ => 1
  | _ => 0

/-- The sequence number that a push has drawn from queue `k`. -/
def pending (k : ℕ) : Call T → Multiset ℕ
  | .insert _ _ idx id => if idx = k then {id} else 0
  | _ => 0

end Call

section Next

variable {maxLen : ℕ} {s s' : ShardedQueue P} {c c' : Call T} {idx : ℕ} {q q' : WorkerQueue P}
  {task : T}

variable {key : PriorityKey}

theorem WorkerQueue.tasks_of_contents {item : QueueItem T}
    (h : P.contents q'.inner = (item, key) ::ₘ P.contents q.inner) :
    q'.tasks = item.task ::ₘ q.tasks := by
  rw [WorkerQueue.tasks, h, Multiset.map_cons, WorkerQueue.tasks]

theorem WorkerQueue.ids_of_contents {item : QueueItem T}
    (h : P.contents q'.inner = (item, key) ::ₘ P.contents q.inner) :
    q'.ids = item.id ::ₘ q.ids := by
  rw [WorkerQueue.ids, h, Multiset.map_cons, WorkerQueue.ids]

/-! ### What a step does to the queue it locks -/

variable {priority : Priority}

/-- A push draws the next sequence number of its queue. -/
theorem next_sequence (h : (Call.sequence priority task idx).next maxLen s = some (s', c')) :
    ∃ q, s.queues[idx]? = some q ∧
      s' = { s with queues := s.queues.set idx { q with seq := q.seq + 1 } } ∧
      c' = .insert priority task idx q.seq := by
  simp only [Call.next] at h
  split at h
  next => cases h
  next q hq =>
    cases h
    exact ⟨q, hq, rfl, rfl⟩

/-- A push adds its task to its queue, if the number it has drawn is not in use there. -/
theorem next_insert {id : ℕ} (hfresh : ∀ q, s.queues[idx]? = some q → id ∉ q.ids)
    (h : (Call.insert priority task idx id).next maxLen s = some (s', c')) :
    ∃ q q', s.queues[idx]? = some q ∧
      P.contents q'.inner = (⟨id, task⟩, ⟨priority.level, id⟩) ::ₘ P.contents q.inner ∧
      q'.seq = q.seq ∧ s' = { s with queues := s.queues.set idx q' } ∧
      c' = .pushed task (.ok ()) := by
  simp only [Call.next] at h
  split at h
  next => cases h
  next q hq =>
    cases h
    have hnew : ∀ y ∈ P.contents q.inner, y.1.id ≠ id := fun y hy heq =>
      hfresh q hq (heq ▸ Multiset.mem_map_of_mem _ hy)
    exact ⟨q, { q with inner := P.push q.inner ⟨id, task⟩ ⟨priority.level, id⟩ }, hq,
      P.contents_push q.inner ⟨id, task⟩ ⟨priority.level, id⟩ hnew, rfl, rfl, rfl⟩

/-- A pop takes the greatest entry of the queue it locks, or goes on to the next queue. -/
theorem next_lock_cases {rest : List ℕ}
    (h : (Call.lock idx rest).next maxLen s = some (s', c')) :
    (∃ q q' item key, s.queues[idx]? = some q ∧
      P.contents q.inner = (item, key) ::ₘ P.contents q'.inner ∧
      (∀ y ∈ P.contents q.inner,
        y.2.level < key.level ∨ y.2.level = key.level ∧ key.seq ≤ y.2.seq) ∧
      q'.seq = q.seq ∧ s' = { s with queues := s.queues.set idx q' } ∧
      c' = .release item.task) ∨
    s' = s ∧ c' = .tryAll rest := by
  simp only [Call.next] at h
  split at h
  next => cases h
  next q hq =>
    split at h
    next item key inner hpop =>
      cases h
      obtain ⟨hcontents, hle⟩ := P.pop_eq_some _ _ _ hpop
      exact .inl ⟨q, { q with inner }, item, key, hq, hcontents, hle, rfl, rfl, rfl⟩
    next =>
      cases h
      exact .inr ⟨rfl, rfl⟩

/-! ### Tasks, counter and places -/

theorem tasks_set_of_push (hq : s.queues[idx]? = some q) (hpush : q'.tasks = task ::ₘ q.tasks) :
    tally WorkerQueue.tasks (s.queues.set idx q') = task ::ₘ tasks s := by
  have h := tally_set WorkerQueue.tasks hq q'
  rw [hpush, Multiset.add_cons, ← Multiset.cons_add] at h
  exact add_right_cancel h

theorem tasks_set_of_pop (hq : s.queues[idx]? = some q) (hpop : q.tasks = task ::ₘ q'.tasks) :
    tasks s = task ::ₘ tally WorkerQueue.tasks (s.queues.set idx q') := by
  have h := tally_set WorkerQueue.tasks hq q'
  rw [hpop, Multiset.add_cons, ← Multiset.cons_add] at h
  exact (add_right_cancel h).symm

theorem tasks_set_of_same (hq : s.queues[idx]? = some q) (hsame : q'.tasks = q.tasks) :
    tally WorkerQueue.tasks (s.queues.set idx q') = tasks s := by
  have h := tally_set WorkerQueue.tasks hq q'
  rw [hsame] at h
  exact add_right_cancel h

/-- The places that are taken: queued tasks, pushes that will be accepted. -/
def used (s : ShardedQueue P) (c : Call T) : ℕ := (tasks s).card + c.reserved

/-- What one step does to the tasks, the counter and the places, if an inserted id is new. -/
structure Effect (maxLen : ℕ) (s : ShardedQueue P) (c : Call T) (s' : ShardedQueue P)
    (c' : Call T) : Prop where
  tasks_eq : c'.accepted + (tasks s + c.taken) = c.accepted + (tasks s' + c'.taken)
  len_eq : s'.len + (used s c + c.transient : ℕ) = s.len + (used s' c' + c'.transient : ℕ)
  used_le : used s' c' ≤ used s c ∨ s.len < maxLen ∧ used s' c' = used s c + 1

theorem Effect.of_same (htasks : tasks s' = tasks s) (hlen : s'.len = s.len)
    (haccepted : c'.accepted = c.accepted) (htaken : c'.taken = c.taken)
    (hreserved : c'.reserved = c.reserved) (htransient : c'.transient = c.transient) :
    Effect maxLen s c s' c' where
  tasks_eq := by rw [haccepted, htaken, htasks]
  len_eq := by rw [hlen, used, used, htasks, hreserved, htransient]
  used_le := .inl (by rw [used, used, htasks, hreserved])

theorem Effect.of_tryAll {l : List ℕ} (htasks : tasks s' = tasks s) (hlen : s'.len = s.len)
    (haccepted : c.accepted = 0) (htaken : c.taken = 0) (hreserved : c.reserved = 0)
    (htransient : c.transient = 0) : Effect maxLen s c s' (Call.tryAll l) := by
  cases l <;> exact .of_same htasks hlen haccepted.symm htaken.symm hreserved.symm htransient.symm

theorem next_effect
    (hfresh : ∀ priority task idx id, c = .insert priority task idx id → ∀ q,
      s.queues[idx]? = some q → id ∉ q.ids)
    (h : c.next maxLen s = some (s', c')) : Effect maxLen s c s' c' := by
  cases c with
  | push priority task =>
    cases h
    exact .of_same rfl rfl rfl rfl rfl rfl
  | reserve priority task idx =>
    cases h
    by_cases hfull : s.len ≥ maxLen
    · rw [if_pos hfull]
      refine ⟨rfl, ?_, .inl le_rfl⟩
      show s.len + 1 + ((tasks s).card + 0 + 0 : ℕ) = s.len + ((tasks s).card + 0 + 1 : ℕ)
      omega
    · rw [if_neg hfull]
      refine ⟨rfl, ?_, .inr ⟨by omega, rfl⟩⟩
      show s.len + 1 + ((tasks s).card + 0 + 0 : ℕ) = s.len + ((tasks s).card + 1 + 0 : ℕ)
      omega
  | giveBack task =>
    cases h
    refine ⟨rfl, ?_, .inl le_rfl⟩
    show s.len - 1 + ((tasks s).card + 0 + 1 : ℕ) = s.len + ((tasks s).card + 0 + 0 : ℕ)
    omega
  | drop task =>
    cases h
    exact .of_same rfl rfl rfl rfl rfl rfl
  | sequence priority task idx =>
    obtain ⟨q, hq, rfl, rfl⟩ := next_sequence h
    exact .of_same (tasks_set_of_same hq rfl) rfl rfl rfl rfl rfl
  | insert priority task idx id =>
    obtain ⟨q, q', hq, hpush, -, rfl, rfl⟩ := next_insert (hfresh _ _ _ _ rfl) h
    have htasks := tasks_set_of_push hq (WorkerQueue.tasks_of_contents hpush)
    have hcard : (tally WorkerQueue.tasks (s.queues.set idx q')).card = (tasks s).card + 1 := by
      rw [htasks, Multiset.card_cons]
    refine ⟨?_, ?_, .inl ?_⟩
    · show {task} + (tasks s + 0) = 0 + (tally WorkerQueue.tasks (s.queues.set idx q') + 0)
      rw [htasks, add_zero, add_zero, zero_add, Multiset.singleton_add]
    · show s.len + ((tasks s).card + 1 + 0 : ℕ) =
        s.len + ((tally WorkerQueue.tasks (s.queues.set idx q')).card + 0 + 0 : ℕ)
      omega
    · show (tally WorkerQueue.tasks (s.queues.set idx q')).card + 0 ≤ (tasks s).card + 1
      omega
  | pushed task result => cases h
  | lock idx rest =>
    obtain ⟨q, q', item, key, hq, hpop, -, -, rfl, rfl⟩ | ⟨rfl, rfl⟩ := next_lock_cases h
    · have htasks := tasks_set_of_pop hq (WorkerQueue.tasks_of_contents hpop)
      have hcard := congrArg Multiset.card htasks
      rw [Multiset.card_cons] at hcard
      refine ⟨?_, ?_, .inl ?_⟩
      · show 0 + (tasks s + 0) =
          0 + (tally WorkerQueue.tasks (s.queues.set idx q') + {item.task})
        rw [htasks, add_zero, Multiset.add_comm _ {item.task}, Multiset.singleton_add]
      · show s.len + ((tasks s).card + 0 + 0 : ℕ) =
          s.len + ((tally WorkerQueue.tasks (s.queues.set idx q')).card + 0 + 1 : ℕ)
        omega
      · show (tally WorkerQueue.tasks (s.queues.set idx q')).card + 0 ≤ (tasks s).card + 0
        omega
    · exact .of_tryAll rfl rfl rfl rfl rfl rfl
  | release task =>
    cases h
    refine ⟨rfl, ?_, .inl le_rfl⟩
    show s.len - 1 + ((tasks s).card + 0 + 1 : ℕ) = s.len + ((tasks s).card + 0 + 0 : ℕ)
    omega
  | steal workerId =>
    simp only [Call.next] at h
    split_ifs at h <;> cases h
    · exact .of_same rfl rfl rfl rfl rfl rfl
    · exact .of_tryAll rfl rfl rfl rfl rfl rfl
  | popped result => cases h

/-! ### Sequence numbers -/

/-- The ids of queue `k`, in it or drawn: only the next of the sequence is added. -/
structure IdsGrow (k : ℕ) (q : WorkerQueue P) (c : Call T) (q' : WorkerQueue P) (c' : Call T) :
    Prop where
  grow : q'.ids + c'.pending k ≤ q.ids + c.pending k ∧ q'.seq = q.seq ∨
    q'.ids + c'.pending k = q.seq ::ₘ (q.ids + c.pending k) ∧ q'.seq = q.seq + 1

theorem IdsGrow.of_pending {k : ℕ} (h : c'.pending k ≤ c.pending k) : IdsGrow k q c q c' :=
  ⟨.inl ⟨add_le_add_right h _, rfl⟩⟩

theorem pending_tryAll (k : ℕ) (l : List ℕ) : (Call.tryAll l : Call T).pending k = 0 := by
  cases l <;> rfl

theorem exists_idsGrow_set {k : ℕ} {q₁ : WorkerQueue P} (hq : s.queues[idx]? = some q)
    (hk : (s.queues.set idx q₁)[k]? = some q') (hsame : idx = k → IdsGrow k q c q₁ c')
    (hother : idx ≠ k → c'.pending k ≤ c.pending k) :
    ∃ q, s.queues[k]? = some q ∧ IdsGrow k q c q' c' := by
  by_cases hidx : idx = k
  · subst hidx
    have hlt := (List.getElem?_eq_some_iff.mp hq).1
    rw [List.getElem?_set_self hlt] at hk
    obtain ⟨⟩ := hk
    exact ⟨q, hq, hsame rfl⟩
  · rw [List.getElem?_set_ne hidx] at hk
    exact ⟨q', hk, .of_pending (hother hidx)⟩

theorem next_ids {k : ℕ}
    (hfresh : ∀ priority task idx id, c = .insert priority task idx id → ∀ q,
      s.queues[idx]? = some q → id ∉ q.ids)
    (h : c.next maxLen s = some (s', c')) (hk : s'.queues[k]? = some q') :
    ∃ q, s.queues[k]? = some q ∧ IdsGrow k q c q' c' := by
  cases c with
  | push priority task =>
    cases h
    exact ⟨q', hk, .of_pending le_rfl⟩
  | reserve priority task idx =>
    cases h
    refine ⟨q', hk, .of_pending ?_⟩
    split_ifs <;> exact le_rfl
  | giveBack task =>
    cases h
    exact ⟨q', hk, .of_pending le_rfl⟩
  | drop task =>
    cases h
    exact ⟨q', hk, .of_pending le_rfl⟩
  | sequence priority task idx =>
    obtain ⟨q, hq, rfl, rfl⟩ := next_sequence h
    refine exists_idsGrow_set hq hk ?_ fun hne => ?_
    · rintro rfl
      refine ⟨.inr ⟨?_, rfl⟩⟩
      show q.ids + (if idx = idx then {q.seq} else 0) = q.seq ::ₘ (q.ids + 0)
      rw [if_pos rfl, add_zero, Multiset.add_comm, Multiset.singleton_add]
    · rw [Call.pending, if_neg hne]
      exact Multiset.zero_le _
  | insert priority task idx id =>
    obtain ⟨q, q₁, hq, hpush, hseq, rfl, rfl⟩ := next_insert (hfresh _ _ _ _ rfl) h
    refine exists_idsGrow_set hq hk ?_ fun hne => Multiset.zero_le _
    rintro rfl
    refine ⟨.inl ⟨le_of_eq ?_, hseq⟩⟩
    show q₁.ids + 0 = q.ids + if idx = idx then {id} else 0
    rw [WorkerQueue.ids_of_contents hpush, if_pos rfl, add_zero, Multiset.add_comm,
      Multiset.singleton_add]
  | pushed task result => cases h
  | lock idx rest =>
    obtain ⟨q, q₁, item, key, hq, hpop, -, hseq, rfl, rfl⟩ | ⟨rfl, rfl⟩ := next_lock_cases h
    · refine exists_idsGrow_set hq hk ?_ fun hne => le_rfl
      rintro rfl
      refine ⟨.inl ⟨?_, hseq⟩⟩
      rw [WorkerQueue.ids_of_contents hpop]
      exact add_le_add_left (Multiset.le_cons_self _ _) _
    · refine ⟨q', hk, .of_pending ?_⟩
      rw [pending_tryAll]
      exact le_rfl
  | release task =>
    cases h
    exact ⟨q', hk, .of_pending le_rfl⟩
  | steal workerId =>
    simp only [Call.next] at h
    split_ifs at h <;> cases h
    · exact ⟨q', hk, .of_pending le_rfl⟩
    · refine ⟨q', hk, .of_pending ?_⟩
      rw [pending_tryAll]
      exact le_rfl
  | popped result => cases h

end Next

/-! ### Runs -/

/-- The shared queue and the calls. -/
abbrev State (P : PriorityQueue T) := ShardedQueue P × List (Call T)

/-- Any call takes its next step, or another one is made. -/
abbrev Step (P : PriorityQueue T) (maxLen : ℕ) : State P → Calls.Event (Call T) → State P → Prop :=
  Calls.Step Call.Starts (Call.next maxLen)

/-- What holds at every moment. -/
structure Inv (maxLen : ℕ) (x : State P) : Prop where
  tasks_eq : tally Call.accepted x.2 = tasks x.1 + tally Call.taken x.2
  len_eq : x.1.len =
    ((tasks x.1).card + tally Call.reserved x.2 + tally Call.transient x.2 : ℕ)
  used_le : (tasks x.1).card + tally Call.reserved x.2 ≤ maxLen
  ids_nodup : ∀ k q, x.1.queues[k]? = some q → (q.ids + tally (Call.pending k) x.2).Nodup
  ids_lt : ∀ k q, x.1.queues[k]? = some q → ∀ id ∈ q.ids + tally (Call.pending k) x.2, id < q.seq

section Runs

variable {maxLen : ℕ} {s s' : ShardedQueue P} {l : List (Call T)} {i : ℕ} {c c' : Call T}

theorem Inv.init (cpus workerCount : ℕ) :
    Inv maxLen (ShardedQueue.new P cpus workerCount, []) := by
  have hnew {k : ℕ} {q : WorkerQueue P}
      (h : (ShardedQueue.new P cpus workerCount).queues[k]? = some q) : q.ids = 0 := by
    obtain rfl := List.eq_of_mem_replicate (List.mem_of_getElem? h)
    rw [WorkerQueue.ids, P.contents_new, Multiset.map_zero]
  have htasks : tasks (ShardedQueue.new P cpus workerCount) = 0 := by
    have hq : (⟨P.new, 0⟩ : WorkerQueue P).tasks = 0 := by
      rw [WorkerQueue.tasks, P.contents_new, Multiset.map_zero]
    rw [tasks, ShardedQueue.new, tally, List.map_replicate, hq, List.sum_replicate, nsmul_zero]
  constructor
  · rw [htasks]
    rfl
  · rw [htasks]
    rfl
  · rw [htasks]
    exact Nat.zero_le _
  · intro k q h
    rw [hnew h]
    exact Multiset.nodup_zero
  · intro k q h id hid
    rw [hnew h] at hid
    exact absurd hid (Multiset.notMem_zero id)

/-- A call that has not taken a step holds nothing. -/
theorem Inv.start (hinv : Inv maxLen (s, l)) (hc : c.Starts) : Inv maxLen (s, l ++ [c]) := by
  have hzero : c.accepted = 0 ∧ c.taken = 0 ∧ c.reserved = 0 ∧ c.transient = 0 ∧
      ∀ k, c.pending k = 0 := by
    cases hc <;> exact ⟨rfl, rfl, rfl, rfl, fun _ => rfl⟩
  obtain ⟨haccepted, htaken, hreserved, htransient, hpending⟩ := hzero
  obtain ⟨h₁, h₂, h₃, h₄, h₅⟩ := hinv
  constructor
  · rw [tally_snoc, tally_snoc, haccepted, htaken, add_zero, add_zero]
    exact h₁
  · rw [tally_snoc, tally_snoc, hreserved, htransient]
    exact h₂
  · rw [tally_snoc, hreserved]
    exact h₃
  · intro k q hq
    rw [tally_snoc, hpending, add_zero]
    exact h₄ k q hq
  · intro k q hq
    rw [tally_snoc, hpending, add_zero]
    exact h₅ k q hq

/-- A push inserts a number that its queue does not hold. -/
theorem Inv.fresh (hinv : Inv maxLen (s, l)) (hi : l[i]? = some c) {priority : Priority} {task : T}
    {idx id : ℕ} (hc : c = .insert priority task idx id) {q : WorkerQueue P}
    (hq : s.queues[idx]? = some q) : id ∉ q.ids := by
  subst hc
  obtain ⟨rest, hrest, -⟩ := exists_tally_eq_add (Call.pending idx) hi
  have hnodup := hinv.ids_nodup idx q hq
  have hpending : (Call.insert priority task idx id).pending idx = {id} := if_pos rfl
  rw [hrest, hpending, ← add_assoc] at hnodup
  have hdisjoint := (Multiset.nodup_add.mp hnodup).2.2
  intro hid
  exact Multiset.disjoint_left.mp hdisjoint (Multiset.mem_add.mpr (.inl hid))
    (Multiset.mem_singleton_self id)

/-- **A step of a call keeps the invariant.** -/
theorem Inv.advance (hinv : Inv maxLen (s, l)) (hi : l[i]? = some c)
    (h : c.next maxLen s = some (s', c')) : Inv maxLen (s', l.set i c') := by
  have hfresh : ∀ priority task idx id, c = .insert priority task idx id → ∀ q,
      s.queues[idx]? = some q → id ∉ q.ids := fun _ _ _ _ hc _ hq => hinv.fresh hi hc hq
  have heffect := next_effect hfresh h
  obtain ⟨x, hx, hx'⟩ := exists_tally_eq_add Call.reserved hi
  obtain ⟨y, hy, hy'⟩ := exists_tally_eq_add Call.transient hi
  have hlen := hinv.len_eq
  have hused := hinv.used_le
  have hlen' := heffect.len_eq
  have hused' := heffect.used_le
  simp only [used] at hlen' hused'
  rw [hx, hy] at hlen
  rw [hx] at hused
  dsimp only at hlen hused
  have hids {k : ℕ} {q' : WorkerQueue P} (hq' : s'.queues[k]? = some q') :
      ∃ q, s.queues[k]? = some q ∧
        (q'.ids + tally (Call.pending k) (l.set i c') ≤ q.ids + tally (Call.pending k) l ∧
          q'.seq = q.seq ∨
        q'.ids + tally (Call.pending k) (l.set i c') =
          q.seq ::ₘ (q.ids + tally (Call.pending k) l) ∧ q'.seq = q.seq + 1) := by
    obtain ⟨q, hq, hgrow⟩ := next_ids hfresh h hq'
    obtain ⟨z, hz, hz'⟩ := exists_tally_eq_add (Call.pending k) hi
    refine ⟨q, hq, ?_⟩
    rw [hz, hz', add_comm z, add_comm z, ← add_assoc, ← add_assoc]
    rcases hgrow.grow with ⟨hle, hseq⟩ | ⟨heq, hseq⟩
    · exact .inl ⟨add_le_add_left hle z, hseq⟩
    · exact .inr ⟨by rw [heq, Multiset.cons_add], hseq⟩
  constructor
  · have hbalanced := @balanced_set _ _ _ 0 (tasks s) 0 (tasks s') Call.accepted Call.taken l i c
      c' hi (by rw [zero_add, zero_add]; exact heffect.tasks_eq)
      (by rw [zero_add]; exact hinv.tasks_eq)
    rwa [zero_add] at hbalanced
  · dsimp only
    rw [hx', hy']
    omega
  · dsimp only
    rw [hx']
    omega
  · intro k q' hq'
    obtain ⟨q, hq, ⟨hle, -⟩ | ⟨heq, -⟩⟩ := hids hq'
    · exact Multiset.nodup_of_le hle (hinv.ids_nodup k q hq)
    · dsimp only
      rw [heq, Multiset.nodup_cons]
      exact ⟨fun hmem => absurd (hinv.ids_lt k q hq _ hmem) (Nat.lt_irrefl _),
        hinv.ids_nodup k q hq⟩
  · intro k q' hq' id hid
    obtain ⟨q, hq, ⟨hle, hseq⟩ | ⟨heq, hseq⟩⟩ := hids hq'
    · rw [hseq]
      exact hinv.ids_lt k q hq id (Multiset.mem_of_le hle hid)
    · dsimp only at hid
      rw [heq, Multiset.mem_cons] at hid
      rw [hseq]
      rcases hid with rfl | hid
      · exact Nat.lt_succ_self _
      · exact Nat.lt_succ_of_lt (hinv.ids_lt k q hq id hid)

theorem Inv.of_run {cpus workerCount : ℕ} {es : List (Calls.Event (Call T))} {x : State P}
    (run : Run (Step P maxLen) (ShardedQueue.new P cpus workerCount, []) es x) : Inv maxLen x :=
  run.invariant (Inv.init cpus workerCount) fun _ _ _ hinv hstep => by
    cases hstep with
    | start hc => exact hinv.start hc
    | advance hi h => exact hinv.advance hi h

end Runs

/-! ### What clients see -/

section Clients

variable {maxLen : ℕ} {s s' : ShardedQueue P}

/-- A pop takes the highest level of its queue and, of these, the least sequence number. -/
theorem next_lock {idx : ℕ} {rest : List ℕ} {task : T}
    (h : (Call.lock idx rest).next maxLen s = some (s', .release task)) :
    ∃ q q' item key, s.queues[idx]? = some q ∧ s'.queues = s.queues.set idx q' ∧
      item.task = task ∧ P.contents q.inner = (item, key) ::ₘ P.contents q'.inner ∧
      ∀ y ∈ P.contents q.inner,
        y.2.level < key.level ∨ y.2.level = key.level ∧ key.seq ≤ y.2.seq := by
  obtain ⟨q, q', item, key, hq, hcontents, hle, -, rfl, htask⟩ | ⟨-, hrest⟩ := next_lock_cases h
  · cases htask
    exact ⟨q, q', item, key, hq, rfl, rfl, hcontents, hle⟩
  · cases rest <;> cases hrest

/-- A push that finds no place has read a counter that has reached the limit. -/
theorem next_reserve {priority : Priority} {task : T} {idx : ℕ}
    (h : (Call.reserve priority task idx).next maxLen s = some (s', .giveBack task)) :
    (maxLen : ℤ) ≤ s.len := by
  simp only [Call.next, Option.some.injEq, Prod.mk.injEq] at h
  by_contra hlt
  rw [if_neg hlt] at h
  exact absurd h.2 (by simp)

/-- **The queue conserves tasks, respects its capacity and pops in order**, in every interleaving of
any number of calls. The tasks of the pushes that returned without an error are those queued and
those that exactly one pop or steal has taken. Queued tasks and places of pushes to be accepted stay
within the limit, and the counter at zero or above. A pop takes the highest level of its queue and
the least sequence number of that level. A push is refused only when these, and calls about to give
a place back, hold `maxLen` places. -/
theorem queue_conserves_and_orders {cpus workerCount : ℕ} {es : List (Calls.Event (Call T))}
    {x : State P}
    (run : Run (Step P maxLen) (ShardedQueue.new P cpus workerCount, []) es x) :
    tally Call.accepted x.2 = tasks x.1 + tally Call.taken x.2 ∧
    (tasks x.1).card + tally Call.reserved x.2 ≤ maxLen ∧ 0 ≤ x.1.len ∧
    (∀ idx rest task s', Call.lock idx rest ∈ x.2 →
      (Call.lock idx rest).next maxLen x.1 = some (s', .release task) →
      ∃ q q' item key, x.1.queues[idx]? = some q ∧ s'.queues = x.1.queues.set idx q' ∧
        item.task = task ∧ P.contents q.inner = (item, key) ::ₘ P.contents q'.inner ∧
        ∀ y ∈ P.contents q.inner,
          y.2.level < key.level ∨ y.2.level = key.level ∧ key.seq ≤ y.2.seq) ∧
    ∀ priority task idx s', Call.reserve priority task idx ∈ x.2 →
      (Call.reserve priority task idx).next maxLen x.1 = some (s', .giveBack task) →
      maxLen ≤ (tasks x.1).card + tally Call.reserved x.2 + tally Call.transient x.2 := by
  have hinv := Inv.of_run run
  have hlen := hinv.len_eq
  refine ⟨hinv.tasks_eq, hinv.used_le, by omega, fun _ _ _ _ _ h => next_lock h,
    fun _ _ _ _ _ h => ?_⟩
  have hfull := next_reserve h
  omega

end Clients

/-! ### A queue on lists -/

theorem PriorityKey.Le.refl (a : PriorityKey) : a.Le a := .inr ⟨rfl, Nat.le_refl _⟩

theorem PriorityKey.Le.trans {a b c : PriorityKey} (h : a.Le b) (h' : b.Le c) : a.Le c := by
  unfold PriorityKey.Le at *
  omega

theorem PriorityKey.le_of_not_le {a b : PriorityKey} (h : ¬ a.Le b) : b.Le a := by
  unfold PriorityKey.Le at *
  omega

/-- Take an entry with a greatest key. -/
def popList : List (QueueItem T × PriorityKey) →
    Option ((QueueItem T × PriorityKey) × List (QueueItem T × PriorityKey))
  | [] => none
  | x :: l =>
    match popList l with
    | none => some (x, l)
    | some (y, rest) => if x.2.Le y.2 then some (y, x :: rest) else some (x, y :: rest)

theorem popList_eq_none {l : List (QueueItem T × PriorityKey)} (h : popList l = none) : l = [] := by
  cases l with
  | nil => rfl
  | cons x l =>
    rw [popList] at h
    split at h
    · cases h
    · split_ifs at h

theorem popList_eq_some {l rest : List (QueueItem T × PriorityKey)} {x : QueueItem T × PriorityKey}
    (h : popList l = some (x, rest)) : l.Perm (x :: rest) ∧ ∀ y ∈ l, y.2.Le x.2 := by
  induction l generalizing x rest with
  | nil => cases h
  | cons z l ih =>
    rw [popList] at h
    split at h
    next hnone =>
      cases h
      obtain rfl := popList_eq_none hnone
      exact ⟨List.Perm.refl _, by simp [PriorityKey.Le.refl]⟩
    next y rest' hsome =>
      obtain ⟨hperm, hle⟩ := ih hsome
      split_ifs at h with hzy
      · cases h
        refine ⟨(hperm.cons z).trans (List.Perm.swap _ _ _), fun w hw => ?_⟩
        rcases List.mem_cons.mp hw with rfl | hw
        · exact hzy
        · exact hle w hw
      · cases h
        refine ⟨hperm.cons z, fun w hw => ?_⟩
        rcases List.mem_cons.mp hw with rfl | hw
        · exact PriorityKey.Le.refl _
        · exact (hle w hw).trans (PriorityKey.le_of_not_le hzy)

/-- A priority queue on lists: an item that is there already gets the new key. -/
def listQueue (T : Type) : PriorityQueue T where
  Queue := List (QueueItem T × PriorityKey)
  new := []
  push q x k :=
    if q.any fun y => y.1.id = x.id then q.map fun y => if y.1.id = x.id then (y.1, k) else y
    else (x, k) :: q
  pop := popList
  contents q := q
  contents_new := rfl
  contents_push q x k h := by
    have hnew : (q.any fun y => y.1.id = x.id) = false := by
      simpa using h
    rw [if_neg (by simp [hnew])]
    rfl
  pop_eq_none q h := by rw [popList_eq_none h]; rfl
  pop_eq_some q x q' h := by
    obtain ⟨hperm, hle⟩ := popList_eq_some h
    exact ⟨Multiset.coe_eq_coe.mpr hperm, hle⟩

/-! ### A push that is refused although nothing is queued -/

/-- A push of 10 is accepted, one of 20 refused with its place not yet back, and 10 popped. -/
def beforePush : List (Calls.Event (Call ℕ)) :=
  [.start (.push .high 10), .advance 0, .advance 0, .advance 0, .advance 0,
    .start (.push .high 20), .advance 1, .advance 1, .start (.lock 0 []), .advance 2, .advance 2]

theorem queue_conserves_and_orders_popped : ∃ x : State (listQueue ℕ),
    Run (Step (listQueue ℕ) 1) (ShardedQueue.new _ 1 1, []) beforePush x ∧
    tally Call.accepted x.2 = tasks x.1 + tally Call.taken x.2 ∧ tally Call.taken x.2 = {10} := by
  obtain ⟨x, run, htaken⟩ : ∃ x : State (listQueue ℕ),
      Run (Step (listQueue ℕ) 1) (ShardedQueue.new _ 1 1, []) beforePush x ∧
        tally Call.taken x.2 = {10} :=
    ⟨_, .cons (.start (.push _ _)) <| .cons (.advance rfl rfl) <| .cons (.advance rfl rfl) <|
      .cons (.advance rfl rfl) <| .cons (.advance rfl rfl) <| .cons (.start (.push _ _)) <|
      .cons (.advance rfl rfl) <| .cons (.advance rfl rfl) <| .cons (.start (.tryPop _)) <|
      .cons (.advance rfl rfl) <| .cons (.advance rfl rfl) .nil, rfl⟩
  exact ⟨x, run, (queue_conserves_and_orders run).1, htaken⟩

/-- A push of 30, from its call to its return. -/
def duringPush : List (Calls.Event (Call ℕ)) :=
  [.start (.push .high 30), .advance 3, .advance 3, .advance 3, .advance 3]

/-- A push is refused although nothing is queued and no push is under way that will be accepted. -/
theorem push_refused_while_empty : ∃ x x' : State (listQueue ℕ),
    Run (Step (listQueue ℕ) 1) (ShardedQueue.new _ 1 1, []) beforePush x ∧
    Run (Step (listQueue ℕ) 1) x duringPush x' ∧
    x'.2[3]? = some (.pushed 30 (.error "priority queue is full")) ∧
    Run.Always (Step (listQueue ℕ) 1) x
      (fun y => (tasks y.1).card + tally Call.reserved y.2 = 0) duringPush := by
  have hdet : ∀ x e y z, Step (listQueue ℕ) 1 x e y → Step (listQueue ℕ) 1 x e z → y = z :=
    fun _ _ _ _ => Calls.Step.det
  refine ⟨_, _, .cons (.start (.push _ _)) <| .cons (.advance rfl rfl) <|
    .cons (.advance rfl rfl) <| .cons (.advance rfl rfl) <| .cons (.advance rfl rfl) <|
    .cons (.start (.push _ _)) <| .cons (.advance rfl rfl) <| .cons (.advance rfl rfl) <|
    .cons (.start (.tryPop _)) <| .cons (.advance rfl rfl) <| .cons (.advance rfl rfl) .nil,
    .cons (.start (.push _ _)) <| .cons (.advance rfl rfl) <| .cons (.advance rfl rfl) <|
    .cons (.advance rfl rfl) <| .cons (.advance rfl rfl) .nil, rfl, ?_⟩
  exact .cons hdet rfl (.start (.push _ _)) <| .cons hdet rfl (.advance rfl rfl) <|
    .cons hdet rfl (.advance rfl rfl) <| .cons hdet rfl (.advance rfl rfl) <|
    .cons hdet rfl (.advance rfl rfl) <| .nil rfl

end RustExample.TransactionPool
