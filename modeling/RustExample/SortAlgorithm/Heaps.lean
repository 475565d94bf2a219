import RustExample.Foundation.BinaryHeap
import RustExample.SortAlgorithm.Counting
import RustExample.SortAlgorithm.Segments

/-!
# Heaps, and sorting by a heap

A vector is a heap if no entry is greater than the one at its parent. Heap sort makes a heap of the
entries, and fills the vector from the end with what it pops.

Source: `sort_algorithm_example/src/lib.rs`.

* The recursion of `max_heapify` is a loop, since nothing comes after the call.
-/

namespace RustExample.SortAlgorithm

open List

variable {T : Type} [LinearOrder T]

/-! ### The operations -/

/-- A heap of entries. -/
structure Heap (T : Type) where
  elems : List T

/-- The position above. -/
def parent (i : ℕ) : ℕ := if 0 < i then (i - 1) / 2 else 0

/-- The left position below. -/
def left (i : ℕ) : ℕ := i * 2 + 1

/-- The right position below. -/
def right (i : ℕ) : ℕ := i * 2 + 2

/-- The greater of an entry and a child, if that is there. -/
def greater (elems : List T) (largest child : ℕ) : Option ℕ :=
  if child < elems.length then do
    if (← elems[largest]?) < (← elems[child]?) then some child else some largest
  else some largest

/-- One exchange with the greater child. -/
def sinkRound : List T × ℕ → Option (Round (List T × ℕ) (List T))
  | (elems, i) => do
    let largest ← greater elems i (left i)
    let largest ← greater elems largest (right i)
    if largest ≠ i then some (.again (← swapAt elems largest i, largest)) else some (.done elems)

/-- One exchange with the parent. -/
def riseRound : List T × ℕ → Option (Round (List T × ℕ) (List T))
  | (elems, i) =>
    if 0 < i then do
      if (← elems[parent i]?) < (← elems[i]?) then
        some (.again (← swapAt elems i (parent i), parent i))
      else some (.done elems)
    else some (.done elems)

namespace Heap

/-- Moves an entry down. -/
def maxHeapify (heap : Heap T) (i : ℕ) : Option (Heap T) := do
  some ⟨← loop sinkRound (heap.elems.length + 1) (heap.elems, i)⟩

/-- A heap without entries. -/
def new : Heap T := ⟨[]⟩

/-- `from` -/
def fromVec (elems : List T) : Option (Heap T) :=
  forRangeRev 0 (elems.length / 2) (fun i heap => heap.maxHeapify i) ⟨elems⟩

/-- Adds an entry. -/
def push (heap : Heap T) (v : T) : Option (Heap T) := do
  let elems := heap.elems ++ [v]
  some ⟨← loop riseRound (elems.length + 1) (elems, ← checkedSub elems.length 1)⟩

/-- Takes out the greatest entry. -/
def pop (heap : Heap T) : Option (Heap T × Option T) :=
  if heap.elems = [] then some (heap, none)
  else do
    let b ← checkedSub heap.elems.length 1
    let elems ← swapAt heap.elems 0 b
    let v ← elems.getLast?
    let heap := Heap.mk elems.dropLast
    if heap.elems = [] then some (heap, some v) else some (← heap.maxHeapify 0, some v)

/-- No entry is greater than the one at its parent. -/
def IsMaxHeap (heap : Heap T) : Prop :=
  ∀ i a b, 0 < i → heap.elems[i]? = some a → heap.elems[parent i]? = some b → a ≤ b

end Heap

/-- The body of the loop of heap sort. -/
def popAt (i : ℕ) : List ℕ × Heap ℕ → Option (List ℕ × Heap ℕ)
  | (nums, heap) => do
    let (heap, v) ← heap.pop
    some (← putAt nums i (← v), heap)

/-- Sorts by a heap. -/
def heapSort (nums : List ℕ) : Option (List ℕ) := do
  let heap ← Heap.fromVec nums
  let (nums, _) ← forRangeRev 0 nums.length popAt (nums, heap)
  some nums

/-! ### Positions -/

variable {elems elems' : List T} {heap : Heap T} {i lo : ℕ} {v x y : T}

theorem slot_parent {T : Type} {elems : List T} (hi : 0 < i) :
    slot elems ((i + 1) / 2) = elems[parent i]? := by
  rw [slot_of_pos (by omega), parent, if_pos hi]
  congr 1
  omega

theorem Heap.isMaxHeap_iff : heap.IsMaxHeap ↔ HeapOrdered 1 (ranks id heap.elems) := by
  constructor
  · intro h q x y hq _ hx hy
    obtain ⟨i, rfl⟩ : ∃ i, q = i + 1 := ⟨q - 1, by omega⟩
    rw [ranks, Option.map_id, id, slot_succ] at hx
    rw [ranks, Option.map_id, id, slot_parent (by omega)] at hy
    exact h i x y (by omega) hx hy
  · intro h i a b hi ha hb
    refine h (i + 1) a b (by omega) (by omega) ?_ ?_
    · rwa [ranks, Option.map_id, id, slot_succ]
    · rwa [ranks, Option.map_id, id, slot_parent hi]

/-! ### A way down -/

theorem exists_greater {largest : ℕ} (child : ℕ) (hx : elems[largest]? = some x) :
    ∃ l y, greater elems largest child = some l ∧ elems[l]? = some y ∧ x ≤ y ∧
      (∀ z, elems[child]? = some z → z ≤ y) ∧ (l = largest ∨ l = child ∧ x < y) := by
  by_cases hchild : child < elems.length
  · have hz := getElem?_eq_getElem hchild
    by_cases hlt : x < elems[child]
    · refine ⟨child, elems[child], by simp [greater, hchild, hx, hlt], hz, hlt.le,
        fun z hz' => ?_, .inr ⟨rfl, hlt⟩⟩
      rw [hz] at hz'
      exact (Option.some.inj hz').ge
    · refine ⟨largest, x, by simp [greater, hchild, hx, hlt], hx, le_rfl, fun z hz' => ?_,
        .inl rfl⟩
      rw [hz] at hz'
      exact Option.some.inj hz' ▸ not_lt.mp hlt
  · refine ⟨largest, x, by simp [greater, hchild], hx, le_rfl, fun z hz => ?_, .inl rfl⟩
    exact absurd (List.getElem?_eq_some_iff.mp hz).1 hchild

/-- **One step down**, or the end. -/
theorem exists_sinkRound (h : SinksAt lo (ranks id elems) (i + 1)) (hi : i < elems.length) :
    (∃ elems' child, sinkRound (elems, i) = some (.again (elems', child)) ∧
      elems'.Perm elems ∧ i < child ∧ child < elems.length ∧
      SinksAt lo (ranks id elems') (child + 1)) ∨
    sinkRound (elems, i) = some (.done elems) ∧ HeapOrdered lo (ranks id elems) := by
  obtain ⟨l, y, hleft, hy, hxy, hley, hcase₁⟩ :=
    exists_greater (left i) (getElem?_eq_getElem hi)
  obtain ⟨c, z, hright, hz, hyz, hrightz, hcase₂⟩ := exists_greater (right i) hy
  have hmax : ∀ q w, q / 2 = i + 1 → 2 ≤ q → ranks id elems q = some w → w ≤ z := by
    intro q w hq hq2 hw
    obtain ⟨q, rfl⟩ : ∃ k, q = k + 1 := ⟨q - 1, by omega⟩
    rw [ranks, Option.map_id, id, slot_succ] at hw
    obtain rfl | rfl : q = left i ∨ q = right i := by rw [left, right]; omega
    · exact (hley w hw).trans hyz
    · exact hrightz w hw
  by_cases hci : c = i
  · refine .inr ⟨?_, h.heapOrdered fun q w u hq hq2 hw hu => ?_⟩
    · simp [sinkRound, hleft, hright, hci]
    · rw [ranks, Option.map_id, id, slot_succ, ← hci, hz] at hu
      obtain ⟨⟩ := hu
      exact hmax q w hq hq2 hw
  · have hc : c < elems.length := (List.getElem?_eq_some_iff.mp hz).1
    have hchild : c = left i ∨ c = right i := by
      rcases hcase₂ with rfl | ⟨rfl, -⟩
      · rcases hcase₁ with rfl | ⟨rfl, -⟩
        · exact absurd rfl hci
        · exact .inl rfl
      · exact .inr rfl
    rw [left, right] at hchild
    obtain ⟨elems', hrun, hperm, -, hranks⟩ := exists_swapAt_slot (id : T → T) (p := c + 1)
      (q := i + 1) (l := elems) (by omega) (by omega) (by omega) (by omega)
    refine .inl ⟨elems', c, ?_, hperm, by omega, hc, ?_⟩
    · rw [Nat.add_sub_cancel, Nat.add_sub_cancel] at hrun
      simp [sinkRound, hleft, hright, hci, hrun]
    · rw [hranks, Equiv.swap_comm]
      refine h.swap (by omega) (by omega) (x := z) (y := elems[i]) ?_ ?_ (hxy.trans hyz) hmax
      · rw [ranks, Option.map_id, id, slot_succ, hz]
      · rw [ranks, Option.map_id, id, slot_succ, getElem?_eq_getElem hi]

/-- **A way down** to the end. -/
theorem Heap.exists_maxHeapify (heap : Heap T) (h : SinksAt lo (ranks id heap.elems) (i + 1))
    (hi : i < heap.elems.length) :
    ∃ heap', heap.maxHeapify i = some heap' ∧ heap'.elems.Perm heap.elems ∧
      HeapOrdered lo (ranks id heap'.elems) := by
  have hloop : ∃ elems, loop sinkRound (heap.elems.length + 1) (heap.elems, i) = some elems ∧
      elems.Perm heap.elems ∧ HeapOrdered lo (ranks id elems) := by
    refine loop_spec (I := fun s : List T × ℕ => s.1.Perm heap.elems ∧ s.2 < heap.elems.length ∧
      SinksAt lo (ranks id s.1) (s.2 + 1)) (fun s => heap.elems.length - s.2) ?_
      ⟨List.Perm.refl _, hi, h⟩ (by omega)
    rintro ⟨elems, i⟩ ⟨hperm, hi, h⟩
    dsimp only at hperm hi h ⊢
    have hlen := hperm.length_eq
    rcases exists_sinkRound h (by omega) with
      ⟨elems', child, hrun, hperm', hlt, hchild, h'⟩ | ⟨hrun, hordered⟩
    · exact .inl ⟨(elems', child), hrun, ⟨hperm'.trans hperm, by omega, h'⟩, by dsimp only; omega⟩
    · exact .inr ⟨elems, hrun, hperm, hordered⟩
  obtain ⟨elems, hrun, hperm, hordered⟩ := hloop
  exact ⟨⟨elems⟩, by rw [maxHeapify, hrun]; rfl, hperm, hordered⟩

namespace Heap

/-- **A heap of the entries of a vector.** -/
theorem exists_fromVec (elems : List T) :
    ∃ heap, fromVec elems = some heap ∧ heap.elems.Perm elems ∧ heap.IsMaxHeap := by
  have hloop : ∃ heap, fromVec elems = some heap ∧ heap.elems.Perm elems ∧
      HeapOrdered (0 + 1) (ranks id heap.elems) := by
    refine forRangeRev_spec (I := fun i (heap : Heap T) => heap.elems.Perm elems ∧
      HeapOrdered (i + 1) (ranks id heap.elems)) (Nat.zero_le _) ⟨List.Perm.refl _, ?_⟩ ?_
    · intro q x y hq hlo hx
      have hsome : slot elems q ≠ none := by
        rintro hnone
        rw [ranks, hnone] at hx
        cases hx
      have := (slot_ne_none_iff.mp hsome).2
      omega
    · rintro i heap _ hi ⟨hperm, hordered⟩
      have hlen := hperm.length_eq
      obtain ⟨heap', hrun, hperm', hordered'⟩ := heap.exists_maxHeapify hordered.sinksAt (by omega)
      exact ⟨heap', hrun, hperm'.trans hperm, hordered'⟩
  obtain ⟨heap, hrun, hperm, hordered⟩ := hloop
  exact ⟨heap, hrun, hperm, isMaxHeap_iff.mpr hordered⟩

theorem exists_rise (h : RisesAt (ranks id elems) (i + 1)) (hi : i < elems.length) :
    ∃ elems', loop riseRound (elems.length + 1) (elems, i) = some elems' ∧ elems'.Perm elems ∧
      HeapOrdered 1 (ranks id elems') := by
  refine loop_spec (I := fun s : List T × ℕ => s.1.Perm elems ∧ s.2 < elems.length ∧
    RisesAt (ranks id s.1) (s.2 + 1)) Prod.snd ?_ ⟨List.Perm.refl _, hi, h⟩ (by omega)
  rintro ⟨elems₁, i⟩ ⟨hperm, hi, h⟩
  dsimp only at hperm hi h ⊢
  have hlen := hperm.length_eq
  by_cases hroot : 0 < i
  · have hhalf : (i + 1) / 2 = parent i + 1 := by
      rw [parent, if_pos hroot]
      omega
    have hx := getElem?_eq_getElem (l := elems₁) (i := i) (by omega)
    have hy := getElem?_eq_getElem (l := elems₁) (i := parent i) (by omega)
    have hrx : ranks id elems₁ (i + 1) = some elems₁[i] := by
      rw [ranks, Option.map_id, id, slot_succ, hx]
    have hry : ranks id elems₁ ((i + 1) / 2) = some elems₁[parent i] := by
      rw [ranks, Option.map_id, id, hhalf, slot_succ, hy]
    by_cases hlt : elems₁[parent i] < elems₁[i]
    · obtain ⟨elems₂, hrun, hperm₂, -, hranks⟩ := exists_swapAt_slot (id : T → T) (p := i + 1)
        (q := parent i + 1) (l := elems₁) (by omega) (by omega) (by omega) (by omega)
      rw [Nat.add_sub_cancel, Nat.add_sub_cancel] at hrun
      refine .inl ⟨(elems₂, parent i), by simp [riseRound, hroot, hx, hy, hlt, hrun],
        ⟨hperm₂.trans hperm, by dsimp only; omega, ?_⟩, by dsimp only; omega⟩
      rw [hranks, ← hhalf]
      exact h.swap (by omega) hrx hry hlt.le
    · refine .inr ⟨elems₁, by simp [riseRound, hroot, hx, hy, hlt], hperm, ?_⟩
      refine h.heapOrdered fun x y _ hx' hy' => ?_
      rw [hrx] at hx'
      rw [hry] at hy'
      exact Option.some.inj hx' ▸ Option.some.inj hy' ▸ not_lt.mp hlt
  · refine .inr ⟨elems₁, by simp [riseRound, hroot], hperm, h.heapOrdered fun x y htwo => ?_⟩
    omega

/-- **A push** adds the entry. -/
theorem exists_push (h : heap.IsMaxHeap) (v : T) :
    ∃ heap', heap.push v = some heap' ∧ heap'.elems.Perm (v :: heap.elems) ∧ heap'.IsMaxHeap := by
  have hlen : (heap.elems ++ [v]).length = heap.elems.length + 1 := by simp
  have hnone : ∀ q, heap.elems.length + 1 < q → ranks id (heap.elems ++ [v]) q = none := by
    intro q hq
    rw [ranks, Option.map_eq_none_iff]
    by_contra hne
    have := (slot_ne_none_iff.mp hne).2
    omega
  have hold : ∀ q, q ≤ heap.elems.length →
      ranks id (heap.elems ++ [v]) q = ranks id heap.elems q := by
    intro q hq
    obtain _ | q := q
    · rfl
    · rw [ranks, ranks, slot_succ, slot_succ, getElem?_append_left (by omega)]
  have hrise : RisesAt (ranks id (heap.elems ++ [v])) (heap.elems.length + 1) := by
    refine risesAt_last (fun q x y hq hne hx hy => ?_) hnone
    have hle : q ≤ heap.elems.length := by
      by_contra hgt
      rw [hnone q (by omega)] at hx
      cases hx
    rw [hold q hle] at hx
    rw [hold (q / 2) (by omega)] at hy
    exact isMaxHeap_iff.mp h q x y hq (by omega) hx hy
  obtain ⟨elems', hrun, hperm, hordered⟩ := exists_rise hrise (by omega)
  refine ⟨⟨elems'⟩, ?_, hperm.trans (perm_append_singleton v heap.elems),
    isMaxHeap_iff.mpr hordered⟩
  rw [push, checkedSub_of_le (by omega), hlen, Nat.add_sub_cancel]
  rw [hlen] at hrun
  simp only [Option.bind_eq_bind, Option.bind_some, hrun]

theorem pop_of_nil (h : heap.elems = []) : heap.pop = some (heap, none) := if_pos h

/-- **A pop** takes out a greatest entry. -/
theorem exists_pop (h : heap.IsMaxHeap) (hne : heap.elems ≠ []) :
    ∃ heap' v, heap.pop = some (heap', some v) ∧ heap.elems.Perm (v :: heap'.elems) ∧
      heap'.IsMaxHeap ∧ ∀ w ∈ heap.elems, w ≤ v := by
  have hpos := length_pos_of_ne_nil hne
  rw [isMaxHeap_iff] at h
  have hfirst : heap.elems[0]? = some heap.elems[0] := getElem?_eq_getElem hpos
  have hmax : ∀ w ∈ heap.elems, w ≤ heap.elems[0] := fun w hw => h.le_first hfirst hw
  obtain ⟨elems, hswap, hperm, hget⟩ := exists_swapAt (l := heap.elems) (i := 0)
    (j := heap.elems.length - 1) hpos (by omega)
  have hlen := hperm.length_eq
  have hlast : elems.getLast? = some heap.elems[0] := by
    rw [getLast?_eq_getElem?, hget, hlen, Equiv.swap_apply_right, hfirst]
  obtain ⟨rest, rfl⟩ : ∃ rest, elems = rest ++ [heap.elems[0]] :=
    ⟨elems.dropLast, (dropLast_append_getLast? _ hlast).symm⟩
  rw [length_append, length_singleton] at hlen
  have hperm' : heap.elems.Perm (heap.elems[0] :: rest) :=
    hperm.symm.trans (perm_append_singleton _ _)
  have hrun : heap.pop = if rest = [] then some (⟨rest⟩, some heap.elems[0]) else
      (maxHeapify ⟨rest⟩ 0).bind fun heap' => some (heap', some heap.elems[0]) := by
    rw [pop, if_neg hne, checkedSub_of_le hpos]
    simp [hswap]
  by_cases hnil : rest = []
  · refine ⟨⟨rest⟩, heap.elems[0], by rw [hrun, if_pos hnil], hperm', fun i a b _ ha => ?_, hmax⟩
    rw [hnil] at ha
    cases ha
  · have hsinks : SinksAt 1 (ranks id rest) (0 + 1) := by
      refine h.sinksAt_root fun q hq => ?_
      obtain ⟨k, rfl⟩ : ∃ k, q = k + 1 := ⟨q - 1, by omega⟩
      rw [ranks, ranks, Option.map_id, id, id, slot_succ, slot_succ]
      rcases Nat.lt_or_ge k rest.length with hk | hk
      · refine .inl ?_
        rw [← @List.getElem?_append_left _ _ [heap.elems[0]] _ hk, hget,
          Equiv.swap_apply_of_ne_of_ne (by omega) (by omega)]
      · exact .inr (getElem?_eq_none hk)
    obtain ⟨heap', hsink, hperm₂, hordered⟩ := exists_maxHeapify ⟨rest⟩ hsinks
      (length_pos_of_ne_nil hnil)
    refine ⟨heap', heap.elems[0], ?_, hperm'.trans (hperm₂.symm.cons _),
      isMaxHeap_iff.mpr hordered, hmax⟩
    rw [hrun, if_neg hnil, hsink, Option.bind_some]

end Heap

/-! ### Heap sort -/

theorem sorts_heapSort (nums : List ℕ) : Sorts heapSort nums := by
  obtain ⟨heap, hheap, hperm, hmax⟩ := Heap.exists_fromVec nums
  have hloop : ∃ s, forRangeRev 0 nums.length popAt (nums, heap) = some s ∧
      ∃ front popped, s.1 = front ++ popped.reverse ∧ front.length = 0 ∧ s.2.elems.length = 0 ∧
        s.2.IsMaxHeap ∧ Sorting (fun a b => b ≤ a) nums popped s.2.elems := by
    refine forRangeRev_spec (I := fun i (s : List ℕ × Heap ℕ) => ∃ front popped,
      s.1 = front ++ popped.reverse ∧ front.length = i ∧ s.2.elems.length = i ∧ s.2.IsMaxHeap ∧
        Sorting (fun a b => b ≤ a) nums popped s.2.elems) (Nat.zero_le _) ?_ ?_
    · exact ⟨nums, [], by simp, rfl, hperm.length_eq, hmax, (Sorting.start nums).of_perm hperm⟩
    · rintro i ⟨_, heap⟩ _ _ ⟨front, popped, rfl, hfront, hlen, hmax, hsorting⟩
      dsimp only at hlen hmax hsorting
      obtain ⟨heap', v, hpop, hperm', hmax', hle⟩ := heap.exists_pop hmax
        (ne_nil_of_length_pos (by omega))
      obtain ⟨front, w, rfl⟩ : ∃ before w, front = before ++ [w] :=
        ⟨front.dropLast, front.getLast (ne_nil_of_length_pos (by omega)),
          (dropLast_append_getLast _).symm⟩
      rw [length_append, length_singleton, Nat.succ_inj] at hfront
      have hlen' := hperm'.length_eq
      rw [length_cons] at hlen'
      have hput := putAt_append front popped.reverse v w
      refine ⟨(front ++ v :: popped.reverse, heap'), ?_, front, popped ++ [v], by simp, hfront,
        by dsimp only; omega, hmax', hsorting.next hperm' fun u hu => ?_⟩
      · rw [hfront] at hput
        simp [popAt, hpop, hput]
      · exact hle u (hperm'.mem_iff.mpr (mem_cons_of_mem v hu))
  obtain ⟨⟨sorted, heap'⟩, hrun, front, popped, heq, hfront, hlen, -, hsorting⟩ := hloop
  dsimp only at heq hlen hsorting
  rw [eq_nil_of_length_eq_zero hfront, nil_append] at heq
  rw [eq_nil_of_length_eq_zero hlen] at hsorting
  have hsorts := hsorting.done
  refine ⟨sorted, by simp [heapSort, hheap, hrun], ?_, ?_⟩
  · rw [heq]
    exact (reverse_perm popped).trans hsorts.perm
  · rw [heq, pairwise_reverse]
    exact hsorts.sorted

/-! ### All algorithms -/

/-- The heaps that come from a vector, or from none, by pushes and pops. -/
inductive Heap.Made : Heap T → Prop
  | new : Made Heap.new
  | fromVec {elems : List T} {heap : Heap T} (h : Heap.fromVec elems = some heap) : Made heap
  | push {heap heap' : Heap T} {v : T} (h : Made heap) (hrun : heap.push v = some heap') :
    Made heap'
  | pop {heap heap' : Heap T} {v : Option T} (h : Made heap) (hrun : heap.pop = some (heap', v)) :
    Made heap'

theorem Heap.Made.isMaxHeap (h : heap.Made) : heap.IsMaxHeap := by
  induction h with
  | new => exact fun i a b _ ha => nomatch ha
  | @fromVec elems heap hrun =>
    obtain ⟨heap', hrun', -, hmax⟩ := Heap.exists_fromVec elems
    obtain ⟨⟩ := hrun.symm.trans hrun'
    exact hmax
  | @push heap heap' v _ hrun ih =>
    obtain ⟨heap₂, hrun', -, hmax⟩ := Heap.exists_push ih v
    obtain ⟨⟩ := hrun.symm.trans hrun'
    exact hmax
  | @pop heap heap' v _ hrun ih =>
    by_cases hnil : heap.elems = []
    · obtain ⟨rfl, -⟩ := Prod.mk.inj (Option.some.inj (hrun.symm.trans (heap.pop_of_nil hnil)))
      exact ih
    · obtain ⟨heap₂, w, hrun', -, hmax, -⟩ := Heap.exists_pop ih hnil
      obtain ⟨rfl, -⟩ := Prod.mk.inj (Option.some.inj (hrun.symm.trans hrun'))
      exact hmax

/-- The sorts of vectors. -/
def algorithms : List (List ℕ → Option (List ℕ)) :=
  [bubbleSort, insertSort, shellSort, selectionSort, countSort, quickSort, mergeSort, heapSort]

/-- The algorithms that look for no extreme entry of the whole vector. -/
def totalAlgorithms : List (List ℕ → Option (List ℕ)) :=
  [bubbleSort, insertSort, shellSort, quickSort, mergeSort, heapSort]

variable {sort : List ℕ → Option (List ℕ)}

theorem mem_algorithms :
    sort ∈ algorithms ↔ sort = selectionSort ∨ sort = countSort ∨ sort ∈ totalAlgorithms := by
  simp only [algorithms, totalAlgorithms, mem_cons, not_mem_nil, or_false]
  tauto

theorem sorts_of_mem_totalAlgorithms (hsort : sort ∈ totalAlgorithms) (nums : List ℕ) :
    Sorts sort nums := by
  simp only [totalAlgorithms, mem_cons, not_mem_nil, or_false] at hsort
  rcases hsort with rfl | rfl | rfl | rfl | rfl | rfl
  · exact sorts_bubbleSort nums
  · exact sorts_insertSort nums
  · exact sorts_shellSort nums
  · exact sorts_quickSort nums
  · exact sorts_mergeSort nums
  · exact sorts_heapSort nums

/-- **Sorting.** All eight algorithms sort a vector exactly if it is not empty, six of them every
vector. Every heap keeps its order, and pops a greatest entry. -/
theorem sorts_iff :
    (∀ nums, (∀ sort ∈ algorithms, Sorts sort nums) ↔ nums ≠ []) ∧
    (∀ nums, ∀ sort ∈ totalAlgorithms, Sorts sort nums) ∧
    (∀ elems : List T, ∃ heap, Heap.fromVec elems = some heap ∧ heap.elems.Perm elems) ∧
    ∀ heap : Heap T, heap.Made → heap.IsMaxHeap ∧
      (∀ v, ∃ heap', heap.push v = some heap' ∧ heap'.elems.Perm (v :: heap.elems)) ∧
      (heap.elems = [] → heap.pop = some (heap, none)) ∧
      (heap.elems ≠ [] → ∃ heap' v, heap.pop = some (heap', some v) ∧
        heap.elems.Perm (v :: heap'.elems) ∧ ∀ w ∈ heap.elems, w ≤ v) := by
  refine ⟨fun nums => ⟨fun h => ?_, fun hne sort hsort => ?_⟩,
    fun nums _ hsort => sorts_of_mem_totalAlgorithms hsort nums, fun elems => ?_, fun heap hmade =>
    ⟨hmade.isMaxHeap, fun v => ?_, heap.pop_of_nil, fun hne => ?_⟩⟩
  · exact sorts_countSort_iff.mp (h countSort (by simp [algorithms]))
  · rcases mem_algorithms.mp hsort with rfl | rfl | htotal
    · exact sorts_selectionSort_iff.mpr hne
    · exact sorts_countSort_iff.mpr hne
    · exact sorts_of_mem_totalAlgorithms htotal nums
  · obtain ⟨heap, hrun, hperm, -⟩ := Heap.exists_fromVec elems
    exact ⟨heap, hrun, hperm⟩
  · obtain ⟨heap', hrun, hperm, -⟩ := Heap.exists_push hmade.isMaxHeap v
    exact ⟨heap', hrun, hperm⟩
  · obtain ⟨heap', v, hrun, hperm, -, hle⟩ := Heap.exists_pop hmade.isMaxHeap hne
    exact ⟨heap', v, hrun, hperm, hle⟩

/-- The empty vector. -/
theorem empty_vector : selectionSort [] = none ∧ countSort [] = none := ⟨rfl, rfl⟩

end RustExample.SortAlgorithm
