import Mathlib.Data.Int.Basic
import Mathlib.Data.List.Count
import RustExample.Foundation.Loops

/-!
# The cells of a terrain

A terrain is a grid of cells, some of which are blocked. Two searches go through the grid breadth
first: one for the first cell of a path from one cell to another, and one for a walkable cell near
a cell.

Source: `bevy_workspace_example/bevy_ai/src/terrain.rs`.

* Coordinates and the size of the grid are integers. That the number of cells fits an `i32` is part
  of a terrain; `InGrid.fits` says that with that no coordinate overflows.
* A position outside a vector is `none`, and inside of that `none` is the result `None`. A loop
  takes a bound on its rounds, and is `none` where the bound is too small.
* Which cell a position in the world belongs to is a parameter: it is computed with floating point
  numbers.
-/

namespace RustExample.Terrain

open List

/-- A cell of the grid. -/
@[ext] structure IVec2 where
  x : ℤ
  y : ℤ
  deriving DecidableEq

/-- A grid with its blocked cells. -/
structure TerrainMap where
  blocked : List Bool
  columns : ℤ
  rows : ℤ
  one_le_columns : 1 ≤ columns
  one_le_rows : 1 ≤ rows
  length_blocked : (blocked.length : ℤ) = columns * rows
  fits : columns * rows < 2 ^ 31

namespace TerrainMap

/-- The number of a cell. -/
def index (t : TerrainMap) (cell : IVec2) : Option ℕ :=
  if cell.x < 0 ∨ t.columns ≤ cell.x ∨ cell.y < 0 ∨ t.rows ≤ cell.y then none
  else some (cell.y * t.columns + cell.x).toNat

/-- The cell is not blocked. -/
def cellIsWalkable (t : TerrainMap) (cell : IVec2) : Option Bool :=
  match t.index cell with
  | none => some false
  | some index => do some !(← t.blocked[index]?)

/-- The four cells around a cell. -/
def neighbors (t : TerrainMap) (cell : IVec2) : List IVec2 :=
  [⟨cell.x + 1, cell.y⟩, ⟨cell.x - 1, cell.y⟩, ⟨cell.x, cell.y + 1⟩, ⟨cell.x, cell.y - 1⟩].filter
    fun neighbor => (t.index neighbor).isSome

/-! ### The search for a path -/

/-- The parents of the cells, the visited ones, and the queue. -/
structure PathSearch where
  parents : List (Option IVec2)
  visited : List Bool
  queue : List IVec2

/-- The body of the inner loop, for a neighbour of a cell. -/
def visitNeighbor (t : TerrainMap) (cell neighbor : IVec2) (s : PathSearch) : Option PathSearch :=
  match t.index neighbor with
  | none => some s
  | some index => do
    if ← s.visited[index]? then some s
    else if !(← t.cellIsWalkable neighbor) then some s
    else some ⟨← putAt s.parents index (some cell), ← putAt s.visited index true,
      s.queue ++ [neighbor]⟩

/-- One round of the outer loop, which is left at the goal or with an empty queue. -/
def pathRound (t : TerrainMap) (goal : IVec2) (s : PathSearch) :
    Option (Round PathSearch PathSearch) :=
  match s.queue with
  | [] => some (.done s)
  | cell :: queue =>
    if cell = goal then some (.done { s with queue })
    else do
      some (.again (← forEach (t.neighbors cell) (t.visitNeighbor cell) { s with queue }))

/-- One round of the loop back from the goal. -/
def backRound (t : TerrainMap) (parents : List (Option IVec2)) (start goal : IVec2)
    (current : IVec2) : Option (Round IVec2 (Option IVec2)) :=
  match t.index current with
  | none => some (.done none)
  | some index => do
    match ← parents[index]? with
    | none => some (.done (some goal))
    | some parent =>
      if parent = start then some (.done (some current)) else some (.again parent)

/-- The first step of a shortest path. -/
def nextCellOnPath (t : TerrainMap) (start goal : IVec2) : Option (Option IVec2) :=
  if start = goal then some (some goal)
  else
    match t.index start with
    | none => some none
    | some index => do
      let visited ← putAt (List.replicate t.blocked.length false) index true
      let s ← loop (t.pathRound goal) (t.blocked.length + 1)
        ⟨List.replicate t.blocked.length none, visited, [start]⟩
      match t.index goal with
      | none => some none
      | some index =>
        if ← s.visited[index]? then
          loop (t.backRound s.parents start goal) (t.blocked.length + 1) goal
        else some none

/-! ### The search for a walkable cell -/

/-- The loop over the neighbours, which is left with a walkable one. -/
def scanNeighbors (t : TerrainMap) :
    List IVec2 → List Bool × List IVec2 → Option (Round (List Bool × List IVec2) IVec2)
  | [], s => some (.again s)
  | neighbor :: rest, (visited, queue) =>
    match t.index neighbor with
    | none => t.scanNeighbors rest (visited, queue)
    | some index => do
      if ← visited[index]? then t.scanNeighbors rest (visited, queue)
      else if ← t.cellIsWalkable neighbor then some (.done neighbor)
      else t.scanNeighbors rest (← putAt visited index true, queue ++ [neighbor])

/-- Looks around the first queued cell. -/
def nearRound (t : TerrainMap) :
    List Bool × List IVec2 → Option (Round (List Bool × List IVec2) (Option IVec2))
  | (_, []) => some (.done none)
  | (visited, cell :: queue) => do
    match ← t.scanNeighbors (t.neighbors cell) (visited, queue) with
    | .again s => some (.again s)
    | .done found => some (.done (some found))

/-- The walkable cell nearest to a place. -/
def walkableCellNear {Position : Type} (t : TerrainMap) (worldToCell : Position → Option IVec2)
    (position : Position) : Option (Option IVec2) :=
  match worldToCell position with
  | none => some none
  | some origin => do
    if ← t.cellIsWalkable origin then some (some origin)
    else
      match t.index origin with
      | none => some none
      | some index => do
        let visited ← putAt (List.replicate t.blocked.length false) index true
        loop t.nearRound (t.blocked.length + 1) (visited, [origin])

/-! ### The grid -/

variable {t : TerrainMap} {cell cell' : IVec2} {i j : ℕ}

/-- The cell is in the grid. -/
def InGrid (t : TerrainMap) (cell : IVec2) : Prop :=
  0 ≤ cell.x ∧ cell.x < t.columns ∧ 0 ≤ cell.y ∧ cell.y < t.rows

theorem index_eq_some_iff :
    t.index cell = some i ↔ t.InGrid cell ∧ cell.y * t.columns + cell.x = i := by
  rw [index, InGrid]
  split_ifs with hout
  · simp only [false_iff]
    omega
  · rw [Option.some_inj]
    have hx : 0 ≤ cell.x := by omega
    have hmul : 0 ≤ cell.y * t.columns :=
      Int.mul_nonneg (by omega) (by have := t.one_le_columns; omega)
    omega

theorem InGrid.exists_index (h : t.InGrid cell) : ∃ i, t.index cell = some i := by
  refine ⟨(cell.y * t.columns + cell.x).toNat, if_neg ?_⟩
  rw [InGrid] at h
  omega

theorem index_inj (h : t.index cell = some i) (h' : t.index cell' = some i) : cell = cell' := by
  obtain ⟨⟨hx, hxc, -, -⟩, hi⟩ := index_eq_some_iff.mp h
  obtain ⟨⟨hx', hxc', -, -⟩, hi'⟩ := index_eq_some_iff.mp h'
  have hrest : ∀ {x y : ℤ}, 0 ≤ x → x < t.columns → (y * t.columns + x) % t.columns = x := by
    intro x y hx hxc
    rw [Int.add_comm, Int.add_mul_emod_self_right, Int.emod_eq_of_lt hx hxc]
  have hxx : cell.x = cell'.x := by
    rw [← hrest hx hxc (y := cell.y), ← hrest hx' hxc' (y := cell'.y), hi, hi']
  have hyy : cell.y * t.columns = cell'.y * t.columns := by omega
  have hpos := t.one_le_columns
  exact IVec2.ext hxx (Int.eq_of_mul_eq_mul_right (by omega) hyy)

/-- The places of a row are below those of the next one. -/
theorem InGrid.row_le (h : t.InGrid cell) :
    cell.y * t.columns + t.columns ≤ t.columns * t.rows := by
  have hpos := t.one_le_columns
  have hrow := Int.mul_le_mul_of_nonneg_right (show cell.y + 1 ≤ t.rows from h.2.2.2)
    (show 0 ≤ t.columns by omega)
  rw [Int.add_mul, Int.one_mul, Int.mul_comm t.rows] at hrow
  exact hrow

theorem index_lt (h : t.index cell = some i) : i < t.blocked.length := by
  obtain ⟨hin, hi⟩ := index_eq_some_iff.mp h
  have hrow := hin.row_le
  have hlen := t.length_blocked
  have hx := hin.2.1
  omega

/-- No coordinate of a neighbour and no place of a cell overflows. -/
theorem InGrid.fits (h : t.InGrid cell) :
    cell.x + 1 < 2 ^ 31 ∧ cell.y + 1 < 2 ^ 31 ∧ -2 ^ 31 ≤ cell.x - 1 ∧ -2 ^ 31 ≤ cell.y - 1 ∧
      0 ≤ cell.y * t.columns ∧ cell.y * t.columns + cell.x < 2 ^ 31 := by
  have hrow := h.row_le
  have hfits := t.fits
  have hcolumns := t.one_le_columns
  have hrows := t.one_le_rows
  have hc := Int.mul_le_mul_of_nonneg_left hrows (show 0 ≤ t.columns by omega)
  have hr := Int.mul_le_mul_of_nonneg_right hcolumns (show 0 ≤ t.rows by omega)
  obtain ⟨hx, hxc, hy, hyr⟩ := h
  have hmul := Int.mul_nonneg hy (show 0 ≤ t.columns by omega)
  omega

/-! ### Neighbours -/

/-- The number of steps between two cells, if nothing is in the way. -/
def manhattan (a b : IVec2) : ℕ := (a.x - b.x).natAbs + (a.y - b.y).natAbs

theorem mem_neighbors_iff :
    cell' ∈ t.neighbors cell ↔ t.InGrid cell' ∧ manhattan cell cell' = 1 := by
  have hin : (t.index cell').isSome = true ↔ t.InGrid cell' := by
    constructor
    · intro h
      obtain ⟨i, hi⟩ := Option.isSome_iff_exists.mp h
      exact (index_eq_some_iff.mp hi).1
    · intro h
      obtain ⟨i, hi⟩ := h.exists_index
      rw [hi]
      rfl
  rw [neighbors, mem_filter, hin, and_comm]
  refine and_congr_right fun _ => ?_
  simp only [mem_cons, not_mem_nil, or_false, IVec2.ext_iff, manhattan]
  omega

/-- The cell can be walked on. -/
def Walkable (t : TerrainMap) (cell : IVec2) : Prop := t.cellIsWalkable cell = some true

theorem exists_cellIsWalkable (h : t.index cell = some i) :
    ∃ b, t.cellIsWalkable cell = some b ∧ (b = true ↔ t.Walkable cell) := by
  have hlt := index_lt h
  have hget := getElem?_eq_getElem hlt
  have hrun : t.cellIsWalkable cell = some !t.blocked[i] := by
    simp [cellIsWalkable, h, hget]
  exact ⟨_, hrun, by rw [Walkable, hrun, Option.some_inj]⟩

theorem Walkable.inGrid (h : t.Walkable cell) : t.InGrid cell := by
  rw [Walkable, cellIsWalkable] at h
  obtain _ | ⟨i, hi⟩ := Option.eq_none_or_eq_some (t.index cell)
  · simp_all
  · exact (index_eq_some_iff.mp hi).1

/-! ### One value for each cell -/

section Shows

variable {β : Type} {vec : List β} {f : IVec2 → β}

/-- The vector holds the values of a function of the cells. -/
structure Shows (t : TerrainMap) (vec : List β) (f : IVec2 → β) : Prop where
  length : vec.length = t.blocked.length
  get : ∀ cell i, t.index cell = some i → vec[i]? = some (f cell)

theorem Shows.replicate (t : TerrainMap) (b : β) :
    t.Shows (List.replicate t.blocked.length b) fun _ => b := by
  refine ⟨length_replicate, fun cell i hi => ?_⟩
  rw [getElem?_replicate, if_pos (index_lt hi)]

/-- **A write changes the value of one cell.** -/
theorem Shows.exists_put (h : t.Shows vec f) (hi : t.index cell = some i) (b : β) :
    putAt vec i b = some (vec.set i b) ∧ t.Shows (vec.set i b) (Function.update f cell b) := by
  have hlt : i < vec.length := h.length ▸ index_lt hi
  refine ⟨putAt_of_lt hlt b, by rw [List.length_set, h.length], fun cell' j hj => ?_⟩
  by_cases hcell : cell' = cell
  · subst hcell
    obtain ⟨⟩ := hi.symm.trans hj
    rw [getElem?_set_self hlt, Function.update_self]
  · have hij : i ≠ j := by
      rintro rfl
      exact hcell (index_inj hj hi)
    rw [getElem?_set_ne hij, h.get cell' j hj, Function.update_of_ne hcell]

end Shows

end TerrainMap

end RustExample.Terrain
