import Mathlib.Data.List.Iterate
import RustExample.PegSolitaire.Field

/-!
# The search for a solution of peg solitaire

A depth-first search tries the moves of a board in turn. Boards that were searched in vain are
remembered in one set for all branches, and are not searched again. A board in the set is not
solvable; so the set cuts off no solution.

Source: `peg_solitaire_algorithm_example/src/main.rs`.

* The hash set has a bucket for each hash. The hash of a board is that of the greatest of its
  images under rotations and reflections, by an arbitrary hash function for arrays; boards in one
  bucket are compared as they are.
* The moves of a board are in a hash set, too; a call iterates over them in an order of its own.
  `Iteration` is such an order for each call.
* `none` is a search deeper than its bound.
-/

namespace RustExample.PegSolitaire

/-! ### The set of boards -/

namespace Field

/-- The cells, row by row. The derived order compares them from the first one on. -/
def cells (f : Field) : List Bool :=
  (List.finRange 7).flatMap fun i => (List.finRange 7).map (f i)

/-- The images that are compared: four rotations, and the reflections. -/
def transf (f : Field) : List Field :=
  List.iterate rotate f 5 ++ (List.iterate rotate f 5).map mirror

/-- The greatest of the symmetric fields. -/
def greatest (f : Field) : Field :=
  f.transf.foldl (fun m g => if g.cells < m.cells then m else g) f

end Field

/-- Boards in buckets. `hasher` is the hash function for arrays. -/
structure HashSet where
  hasher : Field → UInt64
  buckets : UInt64 → List Field

namespace HashSet

/-- A set without fields. -/
def new (hasher : Field → UInt64) : HashSet := ⟨hasher, fun _ => []⟩

/-- `Hash for Field` -/
def hash (s : HashSet) (f : Field) : UInt64 := s.hasher f.greatest

/-- The field is in the set. -/
def contains (s : HashSet) (f : Field) : Bool := f ∈ s.buckets (s.hash f)

/-- Adds a field. -/
def insert (s : HashSet) (f : Field) : HashSet :=
  if s.contains f then s
  else { s with buckets := fun h => if h = s.hash f then f :: s.buckets h else s.buckets h }

/-- **Membership** does not depend on the hashes. -/
theorem contains_insert {s : HashSet} {f g : Field} :
    (s.insert f).contains g = true ↔ g = f ∨ s.contains g = true := by
  rw [insert]
  split_ifs with hf
  · constructor
    · exact .inr
    · rintro (rfl | hg)
      · exact hf
      · exact hg
  · show decide (g ∈ if s.hash g = s.hash f then f :: s.buckets (s.hash g)
      else s.buckets (s.hash g)) = true ↔ _
    by_cases hhash : s.hash g = s.hash f
    · simp [hhash, contains]
    · rw [if_neg hhash]
      constructor
      · exact .inr
      · rintro (rfl | hg)
        · exact absurd rfl hhash
        · exact hg

end HashSet

/-! ### The search -/

/-- The order in which the `n`-th call iterates over its moves. -/
structure Iteration where
  order : ℕ → List Move → List Move
  perm : ∀ n l, (order n l).Perm l

instance : Inhabited Iteration := ⟨⟨fun _ l => l, fun _ _ => .rfl⟩⟩

/-- The set that the calls share, and the number of the calls. -/
structure Pruning where
  set : HashSet
  calls : ℕ

/-- The loop over the moves; `recSolve` is the recursive call. -/
def tryMoves (recSolve : Field → Pruning → Option (Option (List Move) × Pruning)) (occ : Field) :
    List Move → Pruning → Option (Option (List Move) × Pruning)
  | [], pruning => some (none, pruning)
  | mv :: rest, pruning =>
    let occNew := doMove mv occ
    if pruning.set.contains occNew then tryMoves recSolve occ rest pruning
    else
      match recSolve occNew pruning with
      | none => none
      | some (some moves, pruning) => some (some (mv :: moves), pruning)
      | some (none, pruning) =>
        tryMoves recSolve occ rest { pruning with set := pruning.set.insert occNew }

/-- Searches the moves from a field. -/
def recSolve (iteration : Iteration) (allowedPos : Field) :
    ℕ → Field → Pruning → Option (Option (List Move) × Pruning)
  | 0, _, _ => none
  | depth + 1, occ, pruning =>
    if isSolved occ then some (some [], pruning)
    else
      tryMoves (recSolve iteration allowedPos depth) occ
        (iteration.order pruning.calls (findAllowedMoves allowedPos occ))
        { pruning with calls := pruning.calls + 1 }

/-- The search goes one call deeper for every peg that is removed. -/
def findSolutionFromState (iteration : Iteration) (hasher : Field → UInt64) (occ : Field) :
    Option (Option (List Move)) :=
  (recSolve iteration initAllowedPositions (pegs occ + 1) occ ⟨.new hasher, 0⟩).map Prod.fst

/-! ### The puzzle -/

/-- The board as a puzzle. -/
def solitaire (allowedPos : Field) : Puzzle Field Move where
  allowed := Jumps allowedPos
  play := doMove
  solved occ := occ = solution

/-! ### The invariant -/

variable {iteration : Iteration} {allowedPos occ : Field} {pruning : Pruning}

/-- The boards in the set are dead. -/
def Pruning.Sound (allowedPos : Field) (pruning : Pruning) : Prop :=
  ∀ f, pruning.set.contains f = true → ¬ (solitaire allowedPos).Solvable f

/-- What a search returns: moves that solve the board, or nothing, if it is dead. -/
def Answers (allowedPos occ : Field) : Option (List Move) → Prop
  | some moves => (solitaire allowedPos).Plays occ moves solution
  | none => ¬ (solitaire allowedPos).Solvable occ

theorem Pruning.Sound.insert (h : pruning.Sound allowedPos)
    (hocc : ¬ (solitaire allowedPos).Solvable occ) :
    Pruning.Sound allowedPos { pruning with set := pruning.set.insert occ } := by
  intro f hf
  rcases HashSet.contains_insert.mp hf with rfl | hf
  · exact hocc
  · exact h f hf

/-- **The loop over the moves** finds a solution, or all moves lead to dead boards. -/
theorem tryMoves_spec
    {search : Field → Pruning → Option (Option (List Move) × Pruning)} {mvs : List Move}
    (hmvs : ∀ mv ∈ mvs, Jumps allowedPos occ mv)
    (hsearch : ∀ mv ∈ mvs, ∀ pruning : Pruning, pruning.Sound allowedPos →
      ∃ result pruning', search (doMove mv occ) pruning = some (result, pruning') ∧
        pruning'.Sound allowedPos ∧ Answers allowedPos (doMove mv occ) result)
    (h : pruning.Sound allowedPos) :
    ∃ result pruning', tryMoves search occ mvs pruning = some (result, pruning') ∧
      pruning'.Sound allowedPos ∧
      (∀ moves, result = some moves → (solitaire allowedPos).Plays occ moves solution) ∧
      (result = none → ∀ mv ∈ mvs, ¬ (solitaire allowedPos).Solvable (doMove mv occ)) := by
  induction mvs generalizing pruning with
  | nil => exact ⟨none, pruning, rfl, h, nofun, fun _ => nofun⟩
  | cons mv rest ih =>
    have hrest : ∀ mv ∈ rest, Jumps allowedPos occ mv := fun mv' hmv' =>
      hmvs mv' (List.mem_cons_of_mem mv hmv')
    -- the loop goes on behind a move that leads to a dead board
    have hgo {pruning' : Pruning} (hpruning' : pruning'.Sound allowedPos)
        (hdead : ¬ (solitaire allowedPos).Solvable (doMove mv occ)) :
        ∃ result pruning'', tryMoves search occ rest pruning' = some (result, pruning'') ∧
          pruning''.Sound allowedPos ∧
          (∀ moves, result = some moves → (solitaire allowedPos).Plays occ moves solution) ∧
          (result = none →
            ∀ mv' ∈ mv :: rest, ¬ (solitaire allowedPos).Solvable (doMove mv' occ)) := by
      obtain ⟨result, pruning'', heq, hsound, hsome, hnone⟩ :=
        ih hrest (fun mv' hmv' => hsearch mv' (List.mem_cons_of_mem mv hmv')) hpruning'
      refine ⟨result, pruning'', heq, hsound, hsome, fun hresult mv' hmv' => ?_⟩
      rcases List.mem_cons.mp hmv' with rfl | hmv'
      · exact hdead
      · exact hnone hresult mv' hmv'
    simp only [tryMoves]
    by_cases hcontains : pruning.set.contains (doMove mv occ) = true
    · rw [if_pos hcontains]
      exact hgo h (h _ hcontains)
    · rw [if_neg hcontains]
      obtain ⟨result, pruning', heq, hsound, hanswer⟩ := hsearch mv List.mem_cons_self pruning h
      rw [heq]
      cases result with
      | some moves =>
        refine ⟨some (mv :: moves), pruning', rfl, hsound, ?_, nofun⟩
        rintro _ ⟨⟩
        exact .cons (hmvs mv List.mem_cons_self) hanswer
      | none => exact hgo (hsound.insert hanswer) hanswer

/-- **A search** that may go deep enough answers, and remembers dead boards only. -/
theorem recSolve_spec (iteration : Iteration) {depth : ℕ} (hdepth : pegs occ < depth)
    (h : pruning.Sound allowedPos) :
    ∃ result pruning', recSolve iteration allowedPos depth occ pruning =
        some (result, pruning') ∧
      pruning'.Sound allowedPos ∧ Answers allowedPos occ result := by
  induction depth generalizing occ pruning with
  | zero => omega
  | succ depth ih =>
    rw [recSolve]
    by_cases hsolved : isSolved occ = true
    · rw [if_pos hsolved]
      obtain rfl : occ = solution := of_decide_eq_true hsolved
      exact ⟨some [], pruning, rfl, h, .nil solution⟩
    · rw [if_neg hsolved]
      have hmem (mv : Move) : mv ∈ iteration.order pruning.calls (findAllowedMoves allowedPos occ) ↔
          Jumps allowedPos occ mv :=
        (iteration.perm _ _).mem_iff.trans mem_findAllowedMoves
      have hsearch : ∀ mv ∈ iteration.order pruning.calls (findAllowedMoves allowedPos occ),
          ∀ pruning : Pruning, pruning.Sound allowedPos →
          ∃ result pruning', recSolve iteration allowedPos depth (doMove mv occ) pruning =
              some (result, pruning') ∧
            pruning'.Sound allowedPos ∧ Answers allowedPos (doMove mv occ) result := by
        intro mv hmv pruning hpruning
        have hpegs := pegs_doMove ((hmem mv).mp hmv)
        exact ih (by omega) hpruning
      have hcounted : Pruning.Sound allowedPos { pruning with calls := pruning.calls + 1 } := h
      obtain ⟨result, pruning', heq, hsound, hsome, hnone⟩ :=
        tryMoves_spec (fun mv hmv => (hmem mv).mp hmv) hsearch hcounted
      refine ⟨result, pruning', heq, hsound, ?_⟩
      cases result with
      | some moves => exact hsome moves rfl
      | none =>
        refine Puzzle.not_solvable (fun hocc => hsolved (decide_eq_true hocc)) fun mv hmv => ?_
        exact hnone rfl mv ((hmem mv).mpr hmv)

/-- **Peg solitaire with pruning.** The search ends. The moves found are allowed and leave one peg
in the centre; if it finds none, there are none. -/
theorem findSolutionFromState_correct (iteration : Iteration) (hasher : Field → UInt64)
    (occ : Field) :
    ∃ result, findSolutionFromState iteration hasher occ = some result ∧
      (∀ moves, result = some moves →
        (solitaire initAllowedPositions).Plays occ moves solution) ∧
      (result = none →
        ∀ moves, ¬ (solitaire initAllowedPositions).Plays occ moves solution) := by
  have hstart : Pruning.Sound initAllowedPositions ⟨.new hasher, 0⟩ := fun f hf => by
    simp [HashSet.new, HashSet.contains] at hf
  obtain ⟨result, pruning, heq, -, hanswer⟩ :=
    recSolve_spec iteration (Nat.lt_succ_self (pegs occ)) hstart
  refine ⟨result, by rw [findSolutionFromState, heq, Option.map_some], ?_, ?_⟩
  · rintro moves rfl
    exact hanswer
  · rintro rfl moves hplays
    exact hanswer ⟨moves, solution, hplays, rfl⟩

end RustExample.PegSolitaire
