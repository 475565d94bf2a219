import Mathlib.Data.Bool.Basic
import Mathlib.Data.List.Basic

/-!
# Searching breadth first

A search visits what can be reached from a start, by a queue of what is visited and has not been
expanded yet. What is discovered first is closest: the depths in the queue do not decrease, and
differ by one at most.
-/

namespace RustExample

open Function List

variable {α : Type*} {step : α → α → Prop} {a b c : α} {n : ℕ}

/-! ### Walks -/

/-- A walk of `n` steps. -/
inductive Walk (step : α → α → Prop) (a : α) : ℕ → α → Prop
  | nil : Walk step a 0 a
  | snoc {n : ℕ} {b c : α} (h : Walk step a n b) (hstep : step b c) : Walk step a (n + 1) c

theorem Walk.cons (hstep : step a b) (h : Walk step b n c) : Walk step a (n + 1) c := by
  induction h with
  | nil => exact .snoc .nil hstep
  | snoc _ hlast ih => exact .snoc ih hlast

theorem Walk.mono {step' : α → α → Prop} (h : Walk step a n b)
    (hle : ∀ a b, step a b → step' a b) : Walk step' a n b := by
  induction h with
  | nil => exact .nil
  | snoc _ hlast ih => exact .snoc ih (hle _ _ hlast)

/-- The first place after the start on a shortest walk to a goal. -/
def BeginsShortest (step : α → α → Prop) (start goal first : α) : Prop :=
  ∃ n, step start first ∧ Walk step first n goal ∧ ∀ m, Walk step start m goal → n + 1 ≤ m

/-! ### A search -/

/-- A search: `count` places are visited, and those not in the queue were expanded. -/
structure Frontier (step : α → α → Prop) (start : α) (visited : α → Bool) (depth : α → ℕ)
    (queue : List α) (count : ℕ) : Prop where
  root : visited start = true
  queued : ∀ q ∈ queue, visited q = true
  walk : ∀ c, visited c = true → Walk step start (depth c) c
  least : ∀ c n, visited c = true → Walk step start n c → depth c ≤ n
  closed : ∀ c, visited c = true → c ∉ queue → ∀ b, step c b → visited b = true
  sorted : queue.Pairwise fun a b => depth a ≤ depth b
  level : ∀ a ∈ queue, ∀ b ∈ queue, depth b ≤ depth a + 1
  /-- There is something visited at every depth. -/
  short : ∀ c, visited c = true → depth c < count

/-- The parents of what is visited lead back to the start. -/
structure ParentTree (step : α → α → Prop) (start : α) (visited : α → Bool) (depth : α → ℕ)
    (parent : α → Option α) : Prop where
  root : parent start = none
  parent : ∀ c, visited c = true → c ≠ start →
    ∃ p, parent c = some p ∧ visited p = true ∧ step p c ∧ depth c = depth p + 1

section Step

variable {start : α} {visited : α → Bool} {depth : α → ℕ} {queue : List α}
  {count : ℕ} {parent : α → Option α}

namespace Frontier

/-- What is not visited is farther than something in the queue. -/
theorem exists_queued (h : Frontier step start visited depth queue count)
    (hwalk : Walk step start n c) : visited c = true ∨ ∃ q ∈ queue, depth q < n := by
  induction hwalk with
  | nil => exact .inl h.root
  | @snoc n b c hwalk hstep ih =>
    rcases ih with hb | ⟨q, hq, hlt⟩
    · by_cases hqueue : b ∈ queue
      · exact .inr ⟨b, hqueue, Nat.lt_succ_of_le (h.least b n hb hwalk)⟩
      · exact .inl (h.closed b hb hqueue c hstep)
    · exact .inr ⟨q, hq, by omega⟩

/-- At the end, everything that can be reached is visited. -/
theorem visited_of_nil (h : Frontier step start visited depth [] count)
    (hwalk : Walk step start n c) : visited c = true :=
  (h.exists_queued hwalk).resolve_right fun ⟨_, hq, _⟩ => not_mem_nil hq

theorem depth_le_of_cons (h : Frontier step start visited depth (a :: queue) count)
    (hb : b ∈ a :: queue) : depth a ≤ depth b := by
  rcases List.mem_cons.mp hb with rfl | hb
  · exact Nat.le_refl _
  · exact rel_of_pairwise_cons h.sorted hb

/-- What is not visited is farther than the front of the queue. -/
theorem lt_of_not_visited (h : Frontier step start visited depth (a :: queue) count)
    (hc : visited c = false) (hwalk : Walk step start n c) : depth a < n := by
  rcases h.exists_queued hwalk with hv | ⟨q, hq, hlt⟩
  · rw [hc] at hv
    cases hv
  · exact Nat.lt_of_le_of_lt (h.depth_le_of_cons hq) hlt

variable [DecidableEq α]

theorem init (step : α → α → Prop) (start : α) :
    Frontier step start (update (fun _ => false) start true) (fun _ => 0) [start] 1 := by
  have honly : ∀ c, update (fun _ => false) start true c = true → c = start := by
    intro c hc
    by_contra hne
    rw [update_of_ne hne] at hc
    cases hc
  refine ⟨update_self .., fun q hq => ?_, fun c hc => honly c hc ▸ .nil,
    fun c n _ _ => Nat.zero_le n, fun c hc hq => ?_, pairwise_singleton _ _,
    fun a _ b _ => Nat.zero_le _, fun c _ => Nat.zero_lt_one⟩
  · rw [List.mem_singleton.mp hq]
    exact update_self ..
  · exact absurd (List.mem_singleton.mpr (honly c hc)) hq

/-- **A discovery** at a step from the front of the queue. -/
theorem discover (h : Frontier step start visited depth (a :: queue) count) (hstep : step a c)
    (hc : visited c = false) :
    Frontier step start (update visited c true)
      (update depth c (depth a + 1)) (a :: queue ++ [c]) (count + 1) := by
  have ha : visited a = true := h.queued a mem_cons_self
  have hne : ∀ b, visited b = true → b ≠ c := by
    rintro b hb rfl
    rw [hc] at hb
    cases hb
  have hv : ∀ b, update visited c true b = true ↔ visited b = true ∨ b = c := by
    intro b
    by_cases hbc : b = c
    · simp [hbc]
    · simp [hbc]
  have hd : ∀ b, visited b = true → update depth c (depth a + 1) b = depth b :=
    fun b hb => update_of_ne (hne b hb) _ _
  have hdc : update depth c (depth a + 1) c = depth a + 1 := update_self ..
  have hqueue : ∀ b ∈ a :: queue ++ [c], b ∈ a :: queue ∨ b = c := fun b hb =>
    (List.mem_append.mp hb).imp_right List.mem_singleton.mp
  refine ⟨(hv start).mpr (.inl h.root), fun q hq => ?_, fun b hb => ?_, fun b n hb hwalk => ?_,
    fun b hb hq e hbe => ?_, ?_, fun b hb e he => ?_, fun b hb => ?_⟩
  · exact (hv q).mpr ((hqueue q hq).imp_left (h.queued q))
  · rcases (hv b).mp hb with hb | rfl
    · rw [hd b hb]
      exact h.walk b hb
    · rw [hdc]
      exact .snoc (h.walk a ha) hstep
  · rcases (hv b).mp hb with hb | rfl
    · rw [hd b hb]
      exact h.least b n hb hwalk
    · rw [hdc]
      exact h.lt_of_not_visited hc hwalk
  · rw [mem_append, mem_singleton, not_or] at hq
    have hb := ((hv b).mp hb).resolve_right hq.2
    exact (hv e).mpr (.inl (h.closed b hb hq.1 e hbe))
  · refine List.pairwise_append.mpr ⟨h.sorted.imp_of_mem fun hb he hle => ?_,
      pairwise_singleton _ _, fun b hb e he => ?_⟩
    · rwa [hd _ (h.queued _ hb), hd _ (h.queued _ he)]
    · rw [List.mem_singleton.mp he, hdc, hd b (h.queued b hb)]
      exact h.level a mem_cons_self b hb
  · rcases hqueue b hb with hold | rfl <;> rcases hqueue e he with hold' | rfl
    · rw [hd b (h.queued b hold), hd e (h.queued e hold')]
      exact h.level b hold e hold'
    · rw [hd b (h.queued b hold), hdc]
      have := h.depth_le_of_cons hold
      omega
    · rw [hd e (h.queued e hold'), hdc]
      have := h.level a mem_cons_self e hold'
      omega
    · exact Nat.le_succ _
  · rcases (hv b).mp hb with hb | rfl
    · rw [hd b hb]
      exact Nat.lt_succ_of_lt (h.short b hb)
    · rw [hdc]
      exact Nat.succ_lt_succ (h.short a ha)

/-- **The front of the queue is expanded.** -/
theorem retire (h : Frontier step start visited depth (a :: queue) count)
    (hall : ∀ c, step a c → visited c = true) : Frontier step start visited depth queue count := by
  refine ⟨h.root, fun q hq => h.queued q (mem_cons_of_mem a hq), h.walk, h.least,
    fun c hc hq b hcb => ?_, h.sorted.of_cons,
    fun b hb e he => h.level b (mem_cons_of_mem a hb) e (mem_cons_of_mem a he), h.short⟩
  by_cases hca : c = a
  · exact hall b (hca ▸ hcb)
  · exact h.closed c hc (by rw [mem_cons, not_or]; exact ⟨hca, hq⟩) b hcb

end Frontier

namespace ParentTree

variable [DecidableEq α]

theorem init (step : α → α → Prop) (start : α) :
    ParentTree step start (update (fun _ => false) start true) (fun _ => 0)
      (fun _ => none) := by
  refine ⟨rfl, fun c hc hne => ?_⟩
  rw [update_of_ne hne] at hc
  cases hc

theorem discover (h : ParentTree step start visited depth parent) (hstart : visited start = true)
    (ha : visited a = true) (hstep : step a c) (hc : visited c = false) :
    ParentTree step start (update visited c true)
      (update depth c (depth a + 1)) (update parent c (some a)) := by
  have hne : ∀ b, visited b = true → b ≠ c := by
    rintro b hb rfl
    rw [hc] at hb
    cases hb
  refine ⟨?_, fun b hb hbs => ?_⟩
  · rw [update_of_ne (hne start hstart), h.root]
  · by_cases hbc : b = c
    · subst hbc
      refine ⟨a, update_self .., ?_, hstep, ?_⟩
      · rw [update_of_ne (hne a ha), ha]
      · rw [update_self, update_of_ne (hne a ha)]
    · rw [update_of_ne hbc] at hb
      obtain ⟨p, hp, hpv, hps, hpd⟩ := h.parent b hb hbs
      refine ⟨p, by rw [update_of_ne hbc, hp], ?_, hps, ?_⟩
      · rw [update_of_ne (hne p hpv), hpv]
      · rw [update_of_ne hbc, update_of_ne (hne p hpv), hpd]

end ParentTree

end Step

end RustExample
