import Mathlib.Data.Fintype.Prod
import RustExample.Foundation.Puzzle

/-!
# The board of peg solitaire

The board has seven rows and seven columns; the positions in the shape of a cross may be taken. A
peg jumps over its neighbour to an empty position, and the neighbour is removed. The game is solved
when one peg is left, in the centre.

Source: `peg_solitaire_algorithm_example/src/main.rs`.

* A vertex has its coordinates in range. The vertex `over` lies between two vertices that are in
  range, so that no index of the source is out of range.
* The set of moves is a list in the order in which the moves are found.
-/

namespace RustExample.PegSolitaire

open List

/-- `[[bool; 7]; 7]` -/
abbrev Field := Fin 7 → Fin 7 → Bool

/-- A cell of the field. -/
abbrev Vertex := Fin 7 × Fin 7

/-- A jump from a cell to another. -/
structure Move where
  fromVertex : Vertex
  toVertex : Vertex
deriving DecidableEq, Repr

namespace Field

/-- No cell is set. -/
def new : Field := fun _ _ => false

/-- `field.0[v.0][v.1]` -/
def at' (f : Field) (v : Vertex) : Bool := f v.1 v.2

/-- `field.0[v.0][v.1] = b` -/
def set (f : Field) (v : Vertex) (b : Bool) : Field := fun i j => if (i, j) = v then b else f i j

/-- The mirror image. -/
def mirror (f : Field) : Field := fun i j => f i (6 - j)

/-- `res[j][6 - i] = self[i][j]` -/
def rotate (f : Field) : Field := fun i j => f (6 - j) i

end Field

/-- The cells of the board. -/
def initAllowedPositions : Field := fun i j =>
  decide ((2 ≤ i ∧ i ≤ 4) ∨ (2 ≤ j ∧ j ≤ 4))

/-- All but the middle one are taken. -/
def initOccupations : Field := initAllowedPositions.set (3, 3) false

/-- Only the middle one is taken. -/
def solution : Field := Field.new.set (3, 3) true

/-- One peg is left in the middle. -/
def isSolved (occ : Field) : Bool := occ = solution

/-! ### Moves -/

/-- `x + d`, if it is in range. -/
def offset (x : Fin 7) (d : ℤ) : Option (Fin 7) :=
  if h : 0 ≤ (x : ℤ) + d ∧ (x : ℤ) + d < 7 then some ⟨((x : ℤ) + d).toNat, by omega⟩ else none

/-- `x + 2 * i`, if it is in range, with `x + i`. -/
def fromOver (x : Fin 7) (i : ℤ) : List (Fin 7 × Fin 7) :=
  match offset x (2 * i), offset x i with
  | some xFrom, some xOver => [(xFrom, xOver)]
  | _, _ => []

/-- The vertices from which a peg may jump to `(x, y)`, over which, in the direction `i`. -/
def possibleFromOverValues (x y : Fin 7) (i : ℤ) : List (Vertex × Vertex) :=
  ((fromOver x i).map fun p => ((p.1, y), (p.2, y))) ++
    ((fromOver y i).map fun p => ((x, p.1), (x, p.2)))

/-- The moves on a field. -/
def findAllowedMoves (allowedPos occ : Field) : List Move :=
  (List.finRange 7).flatMap fun x => (List.finRange 7).flatMap fun y =>
    if allowedPos.at' (x, y) && !occ.at' (x, y) then
      [-1, 1].flatMap fun i => (possibleFromOverValues x y i).filterMap fun p =>
        if occ.at' p.1 && occ.at' p.2 then some ⟨p.1, (x, y)⟩ else none
    else []

/-- `a + signum(b - a)` -/
def toward (a b : Fin 7) : Fin 7 :=
  ⟨((a : ℤ) + ((b : ℤ) - a).sign).toNat, by
    rcases lt_trichotomy ((b : ℤ) - a) 0 with h | h | h
    · rw [Int.sign_eq_neg_one_of_neg h]
      omega
    · rw [h, Int.sign_zero]
      omega
    · rw [Int.sign_eq_one_of_pos h]
      omega⟩

/-- The field after a move. -/
def doMove (mv : Move) (occ : Field) : Field :=
  let overVertex : Vertex :=
    if mv.fromVertex.1 = mv.toVertex.1 then
      (mv.fromVertex.1, toward mv.fromVertex.2 mv.toVertex.2)
    else (toward mv.fromVertex.1 mv.toVertex.1, mv.fromVertex.2)
  ((occ.set mv.fromVertex false).set overVertex false).set mv.toVertex true

/-! ### The rule of the game -/

/-- `b` is the middle of `a` and `c`, which are two apart. -/
def Between (a b c : Fin 7) : Prop :=
  (a : ℤ) + 1 = b ∧ (b : ℤ) + 1 = c ∨ (c : ℤ) + 1 = b ∧ (b : ℤ) + 1 = a

/-- `overVertex` is the middle of `a` and `c`, in one row or in one column. -/
def InLine (a overVertex c : Vertex) : Prop :=
  Between a.1 overVertex.1 c.1 ∧ a.2 = overVertex.2 ∧ overVertex.2 = c.2 ∨
    a.1 = overVertex.1 ∧ overVertex.1 = c.1 ∧ Between a.2 overVertex.2 c.2

/-- **The rule**: a peg jumps over a peg to an empty position that may be taken. -/
def Jumps (allowedPos occ : Field) (mv : Move) : Prop :=
  allowedPos.at' mv.toVertex = true ∧ occ.at' mv.toVertex = false ∧
    ∃ overVertex, InLine mv.fromVertex overVertex mv.toVertex ∧ occ.at' mv.fromVertex = true ∧
      occ.at' overVertex = true

theorem offset_eq_some {x y : Fin 7} {d : ℤ} : offset x d = some y ↔ (y : ℤ) = x + d := by
  rw [offset]
  split_ifs with h
  · rw [Option.some.injEq, Fin.ext_iff]
    constructor
    · intro heq
      rw [← heq]
      exact Int.toNat_of_nonneg h.1
    · intro heq
      show ((x : ℤ) + d).toNat = y
      omega
  · refine iff_of_false nofun fun heq => ?_
    omega

theorem mem_fromOver {x c d : Fin 7} {i : ℤ} :
    (c, d) ∈ fromOver x i ↔ (c : ℤ) = x + 2 * i ∧ (d : ℤ) = x + i := by
  rw [← offset_eq_some, ← offset_eq_some, fromOver]
  split
  next h h' =>
    rw [h, h', mem_singleton, Prod.mk.injEq, Option.some.injEq, Option.some.injEq,
      eq_comm, @eq_comm _ d]
  next hne =>
    refine iff_of_false not_mem_nil ?_
    rintro ⟨h, h'⟩
    exact hne c d h h'

theorem exists_mem_fromOver {x c d : Fin 7} :
    (∃ i ∈ ([-1, 1] : List ℤ), (c, d) ∈ fromOver x i) ↔ Between c d x := by
  simp only [mem_fromOver, Between, mem_cons, not_mem_nil, or_false, exists_eq_or_imp,
    exists_eq_left]
  omega

/-- The vertices that are found in one of the two directions are in line. -/
theorem mem_possibleFromOverValues {x y : Fin 7} {a b : Vertex} :
    (∃ i ∈ ([-1, 1] : List ℤ), (a, b) ∈ possibleFromOverValues x y i) ↔ InLine a b (x, y) := by
  obtain ⟨a₁, a₂⟩ := a
  obtain ⟨b₁, b₂⟩ := b
  have hmem (i : ℤ) : ((a₁, a₂), (b₁, b₂)) ∈ possibleFromOverValues x y i ↔
      ((a₁, b₁) ∈ fromOver x i ∧ a₂ = y ∧ b₂ = y) ∨
        (a₁ = x ∧ b₁ = x ∧ (a₂, b₂) ∈ fromOver y i) := by
    simp only [possibleFromOverValues, mem_append, mem_map, Prod.mk.injEq, Prod.exists]
    constructor
    · rintro (⟨c, d, hcd, ⟨rfl, rfl⟩, rfl, rfl⟩ | ⟨c, d, hcd, ⟨rfl, rfl⟩, rfl, rfl⟩)
      · exact .inl ⟨hcd, rfl, rfl⟩
      · exact .inr ⟨rfl, rfl, hcd⟩
    · rintro (⟨hcd, rfl, rfl⟩ | ⟨rfl, rfl, hcd⟩)
      · exact .inl ⟨_, _, hcd, ⟨rfl, rfl⟩, rfl, rfl⟩
      · exact .inr ⟨_, _, hcd, ⟨rfl, rfl⟩, rfl, rfl⟩
  simp only [hmem, InLine, ← exists_mem_fromOver]
  constructor
  · rintro ⟨i, hi, ⟨hfrom, rfl, rfl⟩ | ⟨rfl, rfl, hfrom⟩⟩
    · exact .inl ⟨⟨i, hi, hfrom⟩, rfl, rfl⟩
    · exact .inr ⟨rfl, rfl, i, hi, hfrom⟩
  · rintro (⟨⟨i, hi, hfrom⟩, rfl, rfl⟩ | ⟨rfl, rfl, i, hi, hfrom⟩)
    · exact ⟨i, hi, .inl ⟨hfrom, rfl, rfl⟩⟩
    · exact ⟨i, hi, .inr ⟨rfl, rfl, hfrom⟩⟩

variable {occ : Field}

/-- **The moves that are found** are the jumps. -/
theorem mem_findAllowedMoves {allowedPos : Field} {mv : Move} :
    mv ∈ findAllowedMoves allowedPos occ ↔ Jumps allowedPos occ mv := by
  obtain ⟨a, x, y⟩ := mv
  simp only [findAllowedMoves, mem_flatMap, mem_finRange, true_and, Jumps]
  constructor
  · rintro ⟨x', y', hmem⟩
    split_ifs at hmem with hempty
    · obtain ⟨i, hi, hmem⟩ := List.mem_flatMap.mp hmem
      obtain ⟨⟨a', b⟩, hab, hmove⟩ := List.mem_filterMap.mp hmem
      split_ifs at hmove with htaken
      · obtain ⟨rfl, hxy⟩ := Move.mk.inj (Option.some.inj hmove)
        obtain ⟨⟩ := hxy
        rw [Bool.and_eq_true] at hempty htaken
        exact ⟨hempty.1, by simpa using hempty.2, b, mem_possibleFromOverValues.mp ⟨i, hi, hab⟩,
          htaken⟩
    · exact absurd hmem not_mem_nil
  · rintro ⟨hallowed, hempty, b, hline, hfrom, hover⟩
    refine ⟨x, y, ?_⟩
    rw [if_pos (by rw [hallowed, hempty]; rfl)]
    obtain ⟨i, hi, hab⟩ := mem_possibleFromOverValues.mpr hline
    refine List.mem_flatMap.mpr ⟨i, hi, List.mem_filterMap.mpr ⟨(a, b), hab, ?_⟩⟩
    rw [if_pos (by rw [hfrom, hover]; rfl)]

-- the pegs two steps from the centre may jump to it
example : (findAllowedMoves initAllowedPositions initOccupations).map Move.fromVertex =
    [(1, 3), (3, 1), (5, 3), (3, 5)] := by decide

/-! ### The effect of a move -/

@[simp] theorem Field.at'_set (f : Field) (v w : Vertex) (b : Bool) :
    (f.set v b).at' w = if w = v then b else f.at' w := rfl

theorem toward_of_between {a b c : Fin 7} (h : Between a b c) : toward a c = b := by
  rcases h with ⟨hab, hbc⟩ | ⟨hcb, hba⟩
  · have hsign : ((c : ℤ) - a).sign = 1 := Int.sign_eq_one_of_pos (by omega)
    simp only [toward, hsign, Fin.ext_iff]
    omega
  · have hsign : ((c : ℤ) - a).sign = -1 := Int.sign_eq_neg_one_of_neg (by omega)
    simp only [toward, hsign, Fin.ext_iff]
    omega

theorem doMove_eq {mv : Move} {overVertex : Vertex}
    (h : InLine mv.fromVertex overVertex mv.toVertex) (occ : Field) :
    doMove mv occ = ((occ.set mv.fromVertex false).set overVertex false).set mv.toVertex true := by
  rcases h with ⟨hbetween, h₁, h₂⟩ | ⟨h₁, h₂, hbetween⟩
  · have hne : mv.fromVertex.1 ≠ mv.toVertex.1 := fun heq => by
      rw [Between, heq] at hbetween
      omega
    rw [doMove, if_neg hne, toward_of_between hbetween, h₁]
  · rw [doMove, if_pos (h₁.trans h₂), toward_of_between hbetween, h₁]

/-- The number of pegs. -/
def pegs (occ : Field) : ℕ := (Finset.univ.filter fun v : Vertex => occ.at' v = true).card

theorem pegs_set_false {v : Vertex} (h : occ.at' v = true) :
    pegs (occ.set v false) + 1 = pegs occ := by
  have herase : (Finset.univ.filter fun w : Vertex => (occ.set v false).at' w = true) =
      (Finset.univ.filter fun w : Vertex => occ.at' w = true).erase v := by
    ext w
    by_cases hw : w = v <;> simp [hw]
  rw [pegs, herase, Finset.card_erase_add_one (by simpa using h), pegs]

theorem pegs_set_true {v : Vertex} (h : occ.at' v = false) :
    pegs (occ.set v true) = pegs occ + 1 := by
  have hinsert : (Finset.univ.filter fun w : Vertex => (occ.set v true).at' w = true) =
      insert v (Finset.univ.filter fun w : Vertex => occ.at' w = true) := by
    ext w
    by_cases hw : w = v <;> simp [hw]
  rw [pegs, hinsert, Finset.card_insert_of_notMem (by simpa using h), pegs]

/-- **A jump removes one peg.** -/
theorem pegs_doMove {allowedPos : Field} {mv : Move} (h : Jumps allowedPos occ mv) :
    pegs (doMove mv occ) + 1 = pegs occ := by
  obtain ⟨-, hto, overVertex, hline, hfrom, hover⟩ := h
  have hover_ne : overVertex ≠ mv.fromVertex := by
    rintro rfl
    simp only [InLine, Between] at hline
    omega
  have hto_ne : mv.toVertex ≠ overVertex := fun heq => by simp [heq, hover] at hto
  have hto_ne' : mv.toVertex ≠ mv.fromVertex := fun heq => by simp [heq, hfrom] at hto
  have hfirst := pegs_set_false hfrom
  have hsecond : pegs ((occ.set mv.fromVertex false).set overVertex false) + 1 =
      pegs (occ.set mv.fromVertex false) := pegs_set_false (by simp [hover_ne, hover])
  have hthird : pegs (((occ.set mv.fromVertex false).set overVertex false).set mv.toVertex true) =
      pegs ((occ.set mv.fromVertex false).set overVertex false) + 1 :=
    pegs_set_true (by simp [hto_ne, hto_ne', hto])
  rw [doMove_eq hline]
  omega

end RustExample.PegSolitaire
