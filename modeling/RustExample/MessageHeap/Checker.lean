import RustExample.Foundation.BinaryHeap

/-!
# The checker of messages

Notifications of devices are kept in a heap by the number of their messages. A new notification
moves up from the end; when the greatest is taken out, the last one takes its place and moves down.

Source: `heap_example/src/lib.rs`.

* A position outside the heap, and a difference of unsigned numbers below zero, is `none`. A loop
  takes a bound on its rounds, and is `none` where the bound is too small.
* Ids, lengths and numbers of messages are natural numbers.
-/

namespace RustExample.MessageHeap

/-- A device. -/
structure IoTDevice where
  numericalId : ℕ
  path : String
  address : String
  deriving DecidableEq

/-- A device with its messages. -/
structure MessageNotification where
  noMessages : ℕ
  device : IoTDevice
  deriving DecidableEq

/-- The entries of the heap. -/
abbrev Heap := List MessageNotification

/-- The heap with its length. -/
structure MessageChecker where
  length : ℕ
  heap : Heap
  deriving DecidableEq

/-- Exchange the entries at two positions, which are numbered from one on. -/
def swap (heap : Heap) (pos1 pos2 : ℕ) : Option Heap := do
  swapAt heap (← checkedSub pos1 1) (← checkedSub pos2 1)

/-- The first position has no fewer messages. -/
def hasMoreMessages (heap : Heap) (pos1 pos2 : ℕ) : Option Bool := do
  let a ← slot heap pos1
  let b ← slot heap pos2
  some (b.noMessages ≤ a.noMessages)

/-- One round of the loop of `add`. -/
def riseRound : Heap × ℕ → Option (Round (Heap × ℕ) Heap)
  | (heap, i) =>
    if 0 < i / 2 then do
      if ← hasMoreMessages heap i (i / 2) then some (.again (← swap heap i (i / 2), i / 2))
      else some (.done heap)
    else some (.done heap)

/-- One round of the loop of `pop`. -/
def sinkRound (length : ℕ) : Heap × ℕ → Option (Round (Heap × ℕ) Heap)
  | (heap, i) =>
    if i * 2 < length then do
      let children := (i * 2, i * 2 + 1)
      let child := if ← hasMoreMessages heap children.1 children.2 then children.1 else children.2
      if ← hasMoreMessages heap child i then some (.again (← swap heap i child, child))
      else some (.done heap)
    else some (.done heap)

namespace MessageChecker

/-- A heap without entries. -/
def newEmpty : MessageChecker := ⟨0, []⟩

/-- Adds a notification. -/
def add (c : MessageChecker) (notification : MessageNotification) : Option MessageChecker := do
  let heap := c.heap ++ [notification]
  let length := heap.length
  if 1 < length then some ⟨length, ← loop riseRound (length + 1) (heap, length)⟩
  else some ⟨length, heap⟩

/-- Takes out the first notification. -/
def pop (c : MessageChecker) : Option (MessageChecker × Option MessageNotification) :=
  if 0 < c.length then do
    let (elem, heap) ← swapRemove c.heap 0
    let length := heap.length
    some (⟨length, ← loop (sinkRound length) (length + 1) (heap, 1)⟩, some elem)
  else some (c, none)

/-- The vector is a heap of its length. -/
structure Ordered (c : MessageChecker) : Prop where
  length : c.length = c.heap.length
  order : HeapOrdered 1 (ranks MessageNotification.noMessages c.heap)

end MessageChecker

/-! ### Steps in the heap -/

variable {heap : Heap} {p q : ℕ} {a b : MessageNotification}

theorem hasMoreMessages_of_slot (ha : slot heap p = some a) (hb : slot heap q = some b) :
    hasMoreMessages heap p q = some (decide (b.noMessages ≤ a.noMessages)) := by
  simp [hasMoreMessages, ha, hb]

theorem exists_swap (heap : Heap) (hp : 1 ≤ p) (hpl : p ≤ heap.length) (hq : 1 ≤ q)
    (hql : q ≤ heap.length) :
    ∃ heap', swap heap p q = some heap' ∧ heap'.Perm heap ∧
      slot heap' = slot heap ∘ Equiv.swap p q ∧
      ranks MessageNotification.noMessages heap' =
        ranks MessageNotification.noMessages heap ∘ Equiv.swap p q := by
  obtain ⟨heap', hrun, h⟩ := exists_swapAt_slot MessageNotification.noMessages hp hpl hq hql
  exact ⟨heap', by simp [swap, hp, hq, hrun], h⟩

/-! ### Additions -/

theorem exists_rise {heap : Heap} {i bound : ℕ}
    (h : RisesAt (ranks MessageNotification.noMessages heap) i) (hi : 1 ≤ i)
    (hil : i ≤ heap.length) (hbound : i < bound) :
    ∃ heap', loop riseRound bound (heap, i) = some heap' ∧ heap'.Perm heap ∧
      HeapOrdered 1 (ranks MessageNotification.noMessages heap') := by
  refine loop_spec (I := fun s : Heap × ℕ => s.1.Perm heap ∧ 1 ≤ s.2 ∧ s.2 ≤ heap.length ∧
      RisesAt (ranks MessageNotification.noMessages s.1) s.2) Prod.snd ?_
    ⟨List.Perm.refl _, hi, hil, h⟩ hbound
  rintro ⟨heap₁, i⟩ ⟨hperm, hi, hil, h⟩
  dsimp only at hperm hi hil h ⊢
  have hlen := hperm.length_eq
  by_cases hroot : 0 < i / 2
  · obtain ⟨a, ha⟩ := exists_slot (l := heap₁) hi (by omega)
    obtain ⟨b, hb⟩ := exists_slot (l := heap₁) (p := i / 2) (by omega) (by omega)
    have hmore := hasMoreMessages_of_slot ha hb
    by_cases hle : b.noMessages ≤ a.noMessages
    · obtain ⟨heap₂, hrun, hperm₂, -, hranks⟩ := exists_swap heap₁ (p := i) (q := i / 2)
        hi (by omega) (by omega) (by omega)
      refine .inl ⟨(heap₂, i / 2), by simp [riseRound, hroot, hmore, hle, hrun],
        ⟨hperm₂.trans hperm, by omega, by omega, ?_⟩, by omega⟩
      rw [hranks]
      exact h.swap (by omega) (ranks_eq_some ha) (ranks_eq_some hb) hle
    · refine .inr ⟨heap₁, by simp [riseRound, hroot, hmore, hle], hperm, ?_⟩
      refine h.heapOrdered fun x y _ hx hy => ?_
      rw [ranks_eq_some ha] at hx
      rw [ranks_eq_some hb] at hy
      obtain ⟨⟩ := hx
      obtain ⟨⟩ := hy
      omega
  · refine .inr ⟨heap₁, by simp [riseRound, hroot], hperm, ?_⟩
    exact h.heapOrdered fun x y hi2 => by omega

/-- **An addition keeps the order of the heap.** -/
theorem MessageChecker.exists_add {c : MessageChecker} (h : c.Ordered)
    (notification : MessageNotification) :
    ∃ c', c.add notification = some c' ∧ c'.Ordered ∧ c'.heap.Perm (notification :: c.heap) := by
  have hperm : (c.heap ++ [notification]).Perm (notification :: c.heap) :=
    List.perm_append_singleton notification c.heap
  have hlen : (c.heap ++ [notification]).length = c.heap.length + 1 := by simp
  -- the new entry is the last one, and no entry is below it
  have hrise : RisesAt (ranks MessageNotification.noMessages (c.heap ++ [notification]))
      (c.heap ++ [notification]).length := by
    have hold : ∀ q, q ≤ c.heap.length →
        ranks MessageNotification.noMessages (c.heap ++ [notification]) q =
          ranks MessageNotification.noMessages c.heap q := fun q hq => by
      obtain _ | q := q
      · rfl
      · rw [ranks, ranks, slot_succ, slot_succ, List.getElem?_append_left (by omega)]
    refine risesAt_last (fun q x y hq hne hx hy => ?_) fun q hq => ?_
    · have hle : q ≤ c.heap.length := by
        have hsome : slot (c.heap ++ [notification]) q ≠ none := fun hnone => by
          rw [ranks, hnone] at hx
          cases hx
        have := (slot_ne_none_iff.mp hsome).2
        omega
      rw [hold q hle] at hx
      rw [hold (q / 2) (by omega)] at hy
      exact h.order q x y hq (by omega) hx hy
    · rw [ranks, Option.map_eq_none_iff]
      by_contra hne
      have := (slot_ne_none_iff.mp hne).2
      omega
  by_cases hone : 1 < (c.heap ++ [notification]).length
  · obtain ⟨heap', hrun, hperm', horder⟩ := exists_rise hrise (by omega) (Nat.le_refl _)
      (Nat.lt_succ_self _)
    refine ⟨⟨(c.heap ++ [notification]).length, heap'⟩, ?_, ⟨hperm'.length_eq.symm, horder⟩,
      hperm'.trans hperm⟩
    rw [add]
    simp only [hone, if_true, hrun, Option.bind_eq_bind, Option.bind_some]
  · refine ⟨⟨(c.heap ++ [notification]).length, c.heap ++ [notification]⟩, ?_, ⟨rfl, ?_⟩, hperm⟩
    · rw [add]
      simp only [hone, if_false]
    · exact hrise.heapOrdered fun x y htwo => by omega

end RustExample.MessageHeap
