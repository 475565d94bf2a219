import Mathlib.Tactic.Common

/-!
# Puzzles

A puzzle is played by moves that are allowed in a position and lead to another one; some positions
are solved. A position is solvable if moves lead from it to one that is solved.

A search may forget positions that are not solvable. A position is not solvable if it is not solved
and no move leads to a position that is.
-/

namespace RustExample

/-- The allowed moves, where they lead, and the positions that are solved. -/
structure Puzzle (α μ : Type*) where
  allowed : α → μ → Prop
  play : μ → α → α
  solved : α → Prop

namespace Puzzle

variable {α μ : Type*} (P : Puzzle α μ)

/-- The moves lead from one position to the other, each of them allowed where it is made. -/
inductive Plays : α → List μ → α → Prop
  | nil (x : α) : Plays x [] x
  | cons {x y : α} {m : μ} {ms : List μ} (h : P.allowed x m) (rest : Plays (P.play m x) ms y) :
      Plays x (m :: ms) y

/-- Moves lead to a position that is solved. -/
def Solvable (x : α) : Prop := ∃ ms y, P.Plays x ms y ∧ P.solved y

/-- **A dead position**: it is not solved, and its moves lead to dead positions. -/
theorem not_solvable {P : Puzzle α μ} {x : α} (hx : ¬ P.solved x)
    (hmoves : ∀ m, P.allowed x m → ¬ P.Solvable (P.play m x)) : ¬ P.Solvable x := by
  rintro ⟨ms, y, hplays, hy⟩
  cases hplays with
  | nil => exact hx hy
  | cons h rest => exact hmoves _ h ⟨_, y, rest, hy⟩

end Puzzle

end RustExample
