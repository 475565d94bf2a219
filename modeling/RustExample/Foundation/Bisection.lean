import Mathlib.Tactic.Common

/-!
# Bisection for the last number with a property

A search among the numbers `1, …, n` for the last one with a property that no number gains as it
grows. Two inclusive bounds close in on the place where the property is lost.
-/

namespace RustExample

variable {p : ℕ → Prop} {n low high mid k : ℕ}

/-- `k` is the last of the numbers `1, …, n` with the property, or `0` if none has it. -/
structure IsLast (p : ℕ → Prop) (n k : ℕ) : Prop where
  le : k ≤ n
  holds : 0 < k → p k
  fails : ∀ m, k < m → m ≤ n → ¬ p m

/-- A number with the property is not above the last one. -/
theorem IsLast.le_of_holds (h : IsLast p n k) (hmid : mid ≤ n) (hp : p mid) : mid ≤ k :=
  Nat.not_lt.mp fun hlt => h.fails mid hlt hmid hp

/-- The bounds `low` and `high` leave the numbers between them open. -/
structure Bracket (p : ℕ → Prop) (n low high : ℕ) : Prop where
  low_pos : 1 ≤ low
  low_le : low ≤ high + 1
  high_le : high ≤ n
  below : 1 < low → p (low - 1)
  above : ∀ m, high < m → m ≤ n → ¬ p m

namespace Bracket

theorem start (hn : 0 < n) : Bracket p n 1 n where
  low_pos := Nat.le_refl 1
  low_le := by omega
  high_le := Nat.le_refl n
  below := by omega
  above m hm hle := by omega

theorem mid_mem (h : low ≤ high) :
    low ≤ low + (high - low) / 2 ∧ low + (high - low) / 2 ≤ high := by
  omega

theorem raise (h : Bracket p n low high) (hhigh : mid ≤ high) (hp : p mid) :
    Bracket p n (mid + 1) high where
  low_pos := by omega
  low_le := by omega
  high_le := h.high_le
  below _ := hp
  above := h.above

/-- The number that was tested does not have the property, and no greater one has. -/
theorem lower (hanti : ∀ ⦃k m⦄, 1 ≤ k → k ≤ m → m ≤ n → p m → p k) (h : Bracket p n low high)
    (hlow : low ≤ mid) (hhigh : mid ≤ high) (hp : ¬ p mid) : Bracket p n low (mid - 1) where
  low_pos := h.low_pos
  low_le := by omega
  high_le := by have := h.high_le; omega
  below := h.below
  above m hm hle := fun hpm => hp (hanti (by have := h.low_pos; omega) (by omega) hle hpm)

/-- **The bounds have met** at the last number with the property. -/
theorem isLast (h : Bracket p n low high) (hmet : high < low) : IsLast p n (low - 1) where
  le := by have := h.low_le; have := h.high_le; omega
  holds hpos := h.below (by omega)
  fails m hm hle := h.above m (by have := h.low_le; omega) hle

end Bracket

end RustExample
