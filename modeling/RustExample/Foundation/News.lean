import Mathlib.Tactic.Common

/-!
# Copies kept by numbered news

Facts about the members of a family change one at a time. A reader keeps a copy of all of them;
every change is sent to it as news with a number, and news may overtake each other and be handled
in any way. The copy is in step with the facts when, for every member, the last news is underway
and tells the fact, or the copy has the fact.
-/

namespace RustExample.News

variable {κ α : Type*}

/-- For every member the last news is underway and tells the fact, or the copy has the fact. -/
structure InStep (underway : ℕ → κ → α → Prop) (newest : κ → ℕ) (copy facts : κ → α) : Prop where
  le : ∀ n k a, underway n k a → n ≤ newest k
  last : ∀ k a, underway (newest k) k a → a = facts k
  settled : ∀ k, (∀ a, ¬underway (newest k) k a) → copy k = facts k

namespace InStep

variable {underway underway' : ℕ → κ → α → Prop} {newest newest' : κ → ℕ} {copy copy' facts : κ → α}

/-- A reader who is told everything at once, under a new number, is in step. -/
theorem join {n : ℕ} {k : κ}
    (hunderway : ∀ m k' a, underway m k' a → m < n ∨ m = n ∧ k' = k ∧ a = facts k)
    (hcopy : copy = facts) : InStep underway (fun _ => n) copy facts := by
  refine ⟨fun m k' a h => ?_, fun k' a h => ?_, fun k' _ => congrFun hcopy k'⟩
  · rcases hunderway m k' a h with hlt | ⟨heq, -⟩ <;> omega
  · rcases hunderway n k' a h with hlt | ⟨-, rfl, ha⟩
    · omega
    · exact ha

theorem publish [DecidableEq κ] (h : InStep underway newest copy facts) {n : ℕ} {k : κ} {a : α}
    (hn : newest k < n)
    (hunderway : ∀ m k' b, underway' m k' b ↔ underway m k' b ∨ m = n ∧ k' = k ∧ b = a)
    (hnewest : ∀ k', newest' k' = if k' = k then n else newest k') :
    InStep underway' newest' copy (Function.update facts k a) := by
  refine ⟨fun m k' b hb => ?_, fun k' b hb => ?_, fun k' hk' => ?_⟩
  · rw [hnewest]
    rcases (hunderway m k' b).mp hb with hb | ⟨rfl, rfl, -⟩
    · have := h.le m k' b hb
      split_ifs with hk
      · subst hk
        omega
      · exact this
    · exact Nat.le_of_eq (if_pos rfl).symm
  · rcases (hunderway _ k' b).mp hb with hb | ⟨-, rfl, rfl⟩
    · rw [hnewest] at hb
      split_ifs at hb with hk
      · subst hk
        have := h.le n k' b hb
        omega
      · rw [Function.update_of_ne hk]
        exact h.last k' b hb
    · rw [Function.update_self]
  · by_cases hk : k' = k
    · subst hk
      exact absurd ((hunderway _ k' a).mpr (.inr ⟨by rw [hnewest, if_pos rfl], rfl, rfl⟩)) (hk' a)
    · rw [Function.update_of_ne hk]
      refine h.settled k' fun b hb => hk' b ?_
      rw [hnewest, if_neg hk]
      exact (hunderway _ k' b).mpr (.inl hb)

/-- **News are handled**: the last news about a member is taken over; after it nothing changes. -/
theorem handle (h : InStep underway newest copy facts) {n : ℕ} {k : κ} {a : α}
    (hnews : underway n k a)
    (hunderway : ∀ m k' b, underway' m k' b → underway m k' b)
    (hunderway' : ∀ m k' b, underway m k' b → underway' m k' b ∨ m = n ∧ k' = k)
    (hframe : ∀ k', k' ≠ k → copy' k' = copy k')
    (hlast : n = newest k → copy' k = a)
    (hlate : n ≠ newest k → (∀ b, ¬underway (newest k) k b) → copy' k = copy k) :
    InStep underway' newest copy' facts := by
  refine ⟨fun m k' b hb => h.le m k' b (hunderway m k' b hb),
    fun k' b hb => h.last k' b (hunderway _ k' b hb), fun k' hk' => ?_⟩
  by_cases hk : k' = k
  · subst hk
    by_cases hn : n = newest k'
    · rw [hlast hn]
      exact h.last k' a (hn ▸ hnews)
    · have hnone : ∀ b, ¬underway (newest k') k' b := fun b hb =>
        (hunderway' _ k' b hb).elim (hk' b) fun heq => hn heq.1.symm
      rw [hlate hn hnone]
      exact h.settled k' hnone
  · rw [hframe k' hk]
    exact h.settled k' fun b hb => (hunderway' _ k' b hb).elim (hk' b) fun heq => hk heq.2

theorem congr (h : InStep underway newest copy facts)
    (hunderway : ∀ m k b, underway' m k b ↔ underway m k b) :
    InStep underway' newest copy facts := by
  obtain rfl : underway' = underway := funext₃ fun m k b => propext (hunderway m k b)
  exact h

theorem copy_eq (h : InStep underway newest copy facts) (hnone : ∀ n k a, ¬underway n k a) :
    copy = facts :=
  funext fun k => h.settled k fun a => hnone _ k a

end InStep

end RustExample.News
