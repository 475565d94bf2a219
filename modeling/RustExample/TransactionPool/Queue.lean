import Mathlib.Data.Multiset.AddSub
import RustExample.Foundation.Calls

/-!
# The sharded priority queue

Tasks are spread over several queues, each with a lock and a sequence of its own, that share one
counter. A push reserves a place on the counter before it inserts its task, and gives the place
back if there was none; a pop gives the place of its task back after it has removed the task.

Source: `solana_transaction_pool_example/src/queue.rs` (`PriorityKey`, `QueueItem`, `WorkerQueue`,
`ShardedQueue`).

* A call is a process whose steps are the atomic operations and the locked sections of the source;
  `Call` lists the points between them. Calls on the same and on different queues interleave.
* The priority queue is a crate; `PriorityQueue` is what it documents.
* The counters do not wrap around, and `len` is an integer, so that it could fall below zero.
* `queues[idx]` panics for a worker that does not exist; such a call takes no step.
* The notifications, which only wake workers, are left out.
-/

namespace RustExample.TransactionPool

/-! ### Priorities -/

/-- The priority of a task. -/
inductive Priority
  | high
  | normal
  | low
  deriving DecidableEq, Repr

/-- The number of a priority. -/
def Priority.level : Priority → ℕ
  | .high => 2
  | .normal => 1
  | .low => 0

/-- The key of a task; a smaller sequence number is a greater key. -/
structure PriorityKey where
  level : ℕ
  seq : ℕ
  deriving DecidableEq, Repr

/-- The derived order: the level, then `Reverse(seq)`. -/
def PriorityKey.Le (a b : PriorityKey) : Prop :=
  a.level < b.level ∨ a.level = b.level ∧ b.seq ≤ a.seq

instance : DecidableRel PriorityKey.Le := fun a b =>
  inferInstanceAs (Decidable (a.level < b.level ∨ a.level = b.level ∧ b.seq ≤ a.seq))

/-- A task in a queue. Items are compared by their `id` alone. -/
structure QueueItem (T : Type) where
  id : ℕ
  task : T
  deriving DecidableEq, Repr

/-- The priority queue crate: `push` adds a new item, `pop` takes one with the greatest key. -/
structure PriorityQueue (T : Type) where
  Queue : Type
  new : Queue
  push : Queue → QueueItem T → PriorityKey → Queue
  pop : Queue → Option ((QueueItem T × PriorityKey) × Queue)
  contents : Queue → Multiset (QueueItem T × PriorityKey)
  contents_new : contents new = 0
  contents_push : ∀ q x k, (∀ y ∈ contents q, y.1.id ≠ x.id) →
    contents (push q x k) = (x, k) ::ₘ contents q
  pop_eq_none : ∀ q, pop q = none → contents q = 0
  pop_eq_some : ∀ q x q', pop q = some (x, q') →
    contents q = x ::ₘ contents q' ∧ ∀ y ∈ contents q, y.2.Le x.2

/-! ### The shared state -/

section State

variable {T : Type} (P : PriorityQueue T)

/-- A `WorkerQueue`. -/
structure WorkerQueue where
  inner : P.Queue
  seq : ℕ

/-- A `ShardedQueue` with its counters. -/
structure ShardedQueue where
  queues : List (WorkerQueue P)
  len : ℤ
  drops : ℕ
  nextIdx : ℕ
  stealSeq : ℕ

/-- `ShardedQueue::new`: at least one queue, and not more than there are processors. -/
def ShardedQueue.new (cpus workerCount : ℕ) : ShardedQueue P where
  queues := List.replicate (max 1 (min workerCount (max cpus 1))) ⟨P.new, 0⟩
  len := 0
  drops := 0
  nextIdx := 0
  stealSeq := 0

end State

/-! ### Calls -/

/-- The points of the calls between their atomic steps. -/
inductive Call (T : Type)
  /-- `push`, before `next_idx.fetch_add`. -/
  | push (priority : Priority) (task : T)
  /-- Before `len.fetch_add`. -/
  | reserve (priority : Priority) (task : T) (idx : ℕ)
  /-- There was no place: before `len.fetch_sub`. -/
  | giveBack (task : T)
  /-- Before `drops.fetch_add`. -/
  | drop (task : T)
  /-- There was a place: before `seq.fetch_add`. -/
  | sequence (priority : Priority) (task : T) (idx : ℕ)
  /-- Before the locked section of the push. -/
  | insert (priority : Priority) (task : T) (idx id : ℕ)
  /-- A push has returned. -/
  | pushed (task : T) (result : Except String Unit)
  /-- `try_pop` of the queue `idx`, before its locked section; a steal goes on with `rest`. -/
  | lock (idx : ℕ) (rest : List ℕ)
  /-- A task was removed: before `len.fetch_sub`. -/
  | release (task : T)
  /-- `steal`, before `steal_seq.fetch_add`. -/
  | steal (workerId : ℕ)
  /-- A pop or a steal has returned. -/
  | popped (result : Option T)

namespace Call

variable {T : Type} {P : PriorityQueue T}

/-- The calls that clients make. -/
inductive Starts : Call T → Prop
  | push (priority : Priority) (task : T) : Starts (.push priority task)
  | tryPop (workerId : ℕ) : Starts (.lock workerId [])
  | steal (workerId : ℕ) : Starts (.steal workerId)

/-- The queues a steal tries, one after the other. -/
def victims (total start workerId : ℕ) : List ℕ :=
  ((List.range total).map fun offset => (start + offset) % total).filter (· ≠ workerId)

/-- Try the queues that are left. -/
def tryAll : List ℕ → Call T
  | [] => .popped none
  | idx :: rest => .lock idx rest

/-- The next step of a call. -/
def next (maxLen : ℕ) (s : ShardedQueue P) : Call T → Option (ShardedQueue P × Call T)
  | .push priority task =>
    some ({ s with nextIdx := s.nextIdx + 1 }, .reserve priority task (s.nextIdx % s.queues.length))
  | .reserve priority task idx =>
    some ({ s with len := s.len + 1 },
      if s.len ≥ maxLen then .giveBack task else .sequence priority task idx)
  | .giveBack task => some ({ s with len := s.len - 1 }, .drop task)
  | .drop task =>
    some ({ s with drops := s.drops + 1 }, .pushed task (.error "priority queue is full"))
  | .sequence priority task idx =>
    match s.queues[idx]? with
    | none => none
    | some q =>
      some ({ s with queues := s.queues.set idx { q with seq := q.seq + 1 } },
        .insert priority task idx q.seq)
  | .insert priority task idx id =>
    match s.queues[idx]? with
    | none => none
    | some q =>
      let key : PriorityKey := ⟨priority.level, id⟩
      some ({ s with queues := s.queues.set idx { q with inner := P.push q.inner ⟨id, task⟩ key } },
        .pushed task (.ok ()))
  | .lock idx rest =>
    match s.queues[idx]? with
    | none => none
    | some q =>
      match P.pop q.inner with
      | some ((item, _), inner) =>
        some ({ s with queues := s.queues.set idx { q with inner } }, .release item.task)
      | none => some (s, tryAll rest)
  | .release task => some ({ s with len := s.len - 1 }, .popped (some task))
  | .steal workerId =>
    let total := s.queues.length
    if total ≤ 1 then some (s, .popped none)
    else
      some ({ s with stealSeq := s.stealSeq + 1 },
        tryAll (victims total (s.stealSeq % total) workerId))
  | .pushed .. => none
  | .popped _ => none

end Call

end RustExample.TransactionPool
