import Mathlib.Data.List.MinMax
import RustExample.Foundation.Loops
import RustExample.Foundation.Sorting

/-!
# Merging sorted arrays

Two sorted arrays are merged by two indices; any number of them by a heap of places, from which the
place of the least number is taken again and again. Both read the first number of every array
before they ask whether there is one.

Source: `merge_k_sorted_array_example/src/main.rs`.

* A read outside an array is `none`. A loop takes a bound on its rounds, and is `none` where the
  bound is too small.
* Numbers are integers: they are only compared.
* A heap is the list of its items. Which of several items of the same number it pops is left open,
  and also what it does with items that cannot be compared: see `BinaryHeap`.
-/

namespace RustExample.MergeArrays

open List

/-! ### Two arrays -/

/-- One round of the loop: the numbers so far and the two indices. It ends with the array that is
not at its end, and the index there. -/
def merge2Round (a b : List ℤ) : List ℤ × ℕ × ℕ →
    Option (Round (List ℤ × ℕ × ℕ) (List ℤ × List ℤ × ℕ))
  | (sorted, i, j) => do
    let x ← a[i]?
    let y ← b[j]?
    if x < y then
      if i + 1 = a.length then some (.done (sorted ++ [x], b, j))
      else some (.again (sorted ++ [x], i + 1, j))
    else
      if j + 1 = b.length then some (.done (sorted ++ [y], a, i))
      else some (.again (sorted ++ [y], i, j + 1))

/-- Merges two arrays. -/
def merge2 (a b : List ℤ) : Option (List ℤ) := do
  let (sorted, remaining, remainingIdx) ←
    loop (merge2Round a b) (a.length + b.length + 1) ([], 0, 0)
  forRange remainingIdx remaining.length
    (fun i sorted => do some (sorted ++ [← remaining[i]?])) sorted

/-! ### Any number of arrays -/

/-- An array from an index on. -/
structure Item where
  arr : List ℤ
  idx : ℕ
  deriving DecidableEq

namespace Item

/-- The item of an array. -/
def new (arr : List ℤ) (idx : ℕ) : Item := ⟨arr, idx⟩

/-- The number at the index. -/
def getItem (it : Item) : Option ℤ := it.arr[it.idx]?

/-- The numbers of the array from the index on. -/
def rest (it : Item) : List ℤ := it.arr.drop it.idx

end Item

/-- What is relied on in a heap of items, where the least number is the greatest: it keeps its
items, and pops one with the least number if all can be compared. -/
structure BinaryHeap where
  push : List Item → Item → Option (List Item)
  pop : List Item → Option (Item × List Item)
  push_perm : ∀ {heap it heap'}, push heap it = some heap' → heap'.Perm (it :: heap)
  pop_perm : ∀ {heap it heap'}, pop heap = some (it, heap') → heap.Perm (it :: heap')
  exists_push : ∀ {heap it}, (∀ other ∈ it :: heap, other.getItem ≠ none) →
    ∃ heap', push heap it = some heap'
  exists_pop : ∀ {heap}, heap ≠ [] → (∀ other ∈ heap, other.getItem ≠ none) →
    ∃ it heap', pop heap = some (it, heap') ∧
      ∀ other ∈ heap, ∀ x ∈ it.getItem, ∀ y ∈ other.getItem, x ≤ y

namespace BinaryHeap

/-- One round of the loop, with the numbers so far. -/
def mergeRound (H : BinaryHeap) : List ℤ × List Item → Option (Round (List ℤ × List Item) (List ℤ))
  | (sorted, []) => some (.done sorted)
  | (sorted, heap) => do
    let (it, heap) ← H.pop heap
    let sorted := sorted ++ [← it.getItem]
    let it := { it with idx := it.idx + 1 }
    if it.idx < it.arr.length then some (.again (sorted, ← H.push heap it))
    else some (.again (sorted, heap))

/-- Merges arrays. -/
def merge (H : BinaryHeap) (arrays : List (List ℤ)) : Option (List ℤ) := do
  let heap ← forEach arrays (fun arr heap => H.push heap (Item.new arr 0)) []
  loop H.mergeRound (arrays.flatten.length + 1) ([], heap)

/-- The first item with the least number. -/
def leastItem (heap : List Item) : Option Item :=
  @List.argmin Item ℤ Int.instLinearOrder.toPreorder Int.instLinearOrder.toDecidableLT
    (fun it => it.getItem.getD 0) heap

/-- A heap that keeps its items in the order of the pushes, and pops the first least one. -/
def firstLeast : BinaryHeap where
  push heap it := some (heap ++ [it])
  pop heap := (leastItem heap).map fun it => (it, heap.erase it)
  push_perm h := by
    rw [← Option.some.inj h]
    exact List.perm_append_singleton _ _
  pop_perm h := by
    obtain ⟨it, hit, heq⟩ := Option.map_eq_some_iff.mp h
    obtain ⟨⟩ := heq
    exact List.perm_cons_erase (List.argmin_mem hit)
  exists_push _ := ⟨_, rfl⟩
  exists_pop {heap} hne hall := by
    have hsome : leastItem heap ≠ none := fun hnone => hne (List.argmin_eq_none.mp hnone)
    obtain ⟨it, hit⟩ := Option.ne_none_iff_exists'.mp hsome
    refine ⟨it, heap.erase it, by rw [hit]; rfl, fun other hother x hx y hy => ?_⟩
    have hle := List.le_of_mem_argmin hother hit
    simpa [Option.mem_def.mp hx, Option.mem_def.mp hy] using hle

end BinaryHeap

/-! ### Items -/

variable {it it' : Item} {heap heap' : List Item} {x y : ℤ} {sorted : List ℤ}
  {arrays : List (List ℤ)}

namespace Item

theorem rest_eq_cons (h : it.getItem = some x) :
    it.rest = x :: rest { it with idx := it.idx + 1 } := by
  obtain ⟨hlt, rfl⟩ := List.getElem?_eq_some_iff.mp h
  exact drop_eq_getElem_cons hlt

/-- The number of an item is the least of its array from there on. -/
theorem getItem_le (hasc : it.arr.Pairwise (· ≤ ·)) (h : it.getItem = some x) (hy : y ∈ it.rest) :
    x ≤ y := by
  have hrest : it.rest.Pairwise (· ≤ ·) := hasc.drop
  rw [rest_eq_cons h] at hy hrest
  rcases List.mem_cons.mp hy with rfl | hy
  · exact le_rfl
  · exact rel_of_pairwise_cons hrest hy

end Item

/-! ### Any number of arrays -/

namespace BinaryHeap

variable {H : BinaryHeap}

theorem perm_of_pushAll (hrun : forEach arrays (fun arr heap => H.push heap (Item.new arr 0)) heap =
    some heap') : heap'.Perm (arrays.map (Item.new · 0) ++ heap) := by
  induction arrays generalizing heap with
  | nil =>
    obtain ⟨⟩ := hrun
    exact List.Perm.refl _
  | cons arr arrays ih =>
    rw [forEach_cons] at hrun
    obtain ⟨heap₁, hpush, hrest⟩ := Option.bind_eq_some_iff.mp hrun
    refine (ih hrest).trans (((H.push_perm hpush).append_left _).trans ?_)
    exact perm_middle

theorem exists_pushAll (H : BinaryHeap) (h : [] ∉ arrays) :
    ∃ heap, forEach arrays (fun arr heap => H.push heap (Item.new arr 0)) [] = some heap ∧
      heap.Perm (arrays.map (Item.new · 0)) := by
  refine forEach_spec (I := fun done heap => List.Perm heap (done.map (Item.new · 0)))
    (List.Perm.refl _) fun before arr after heap hl hperm => ?_
  have hread : ∀ other ∈ Item.new arr 0 :: heap, other.getItem ≠ none := by
    intro other hother
    obtain ⟨arr', harr', rfl⟩ : ∃ arr' ∈ arrays, Item.new arr' 0 = other := by
      rcases List.mem_cons.mp hother with rfl | hother
      · exact ⟨arr, by simp [hl], rfl⟩
      · obtain ⟨arr', harr', rfl⟩ := List.mem_map.mp (hperm.mem_iff.mp hother)
        exact ⟨arr', by simp [hl, harr'], rfl⟩
    obtain _ | ⟨x, arr'⟩ := arr'
    · exact absurd harr' h
    · exact Option.some_ne_none x
  obtain ⟨heap', hpush⟩ := H.exists_push hread
  refine ⟨heap', hpush, (H.push_perm hpush).trans ?_⟩
  rw [map_append, map_singleton]
  exact (hperm.cons _).trans (perm_append_singleton _ _).symm

/-- A round that does not fail: the popped item gives its number, and goes back with a next one. -/
theorem mergeRound_eq_some {round : Round (List ℤ × List Item) (List ℤ)} (hne : heap ≠ [])
    (h : H.mergeRound (sorted, heap) = some round) :
    ∃ it heap₁ x heap₂, H.pop heap = some (it, heap₁) ∧ it.getItem = some x ∧
      round = .again (sorted ++ [x], heap₂) ∧
      (it.idx + 1 < it.arr.length ∧ H.push heap₁ ⟨it.arr, it.idx + 1⟩ = some heap₂ ∨
        it.arr.length ≤ it.idx + 1 ∧ heap₂ = heap₁) := by
  rw [mergeRound] at h
  · obtain ⟨⟨it, heap₁⟩, hpop, h⟩ := Option.bind_eq_some_iff.mp h
    obtain ⟨x, hx, h⟩ := Option.bind_eq_some_iff.mp h
    dsimp only at hx h
    split_ifs at h with hmore
    · obtain ⟨heap₂, hpush, hround⟩ := Option.bind_eq_some_iff.mp h
      exact ⟨it, heap₁, x, heap₂, hpop, hx, (Option.some.inj hround).symm, .inl ⟨hmore, hpush⟩⟩
    · exact ⟨it, heap₁, x, heap₁, hpop, hx, (Option.some.inj h).symm, .inr ⟨by omega, rfl⟩⟩
  · exact hne

/-- The rounds come to an end only if every item of the heap has a number. -/
theorem getItem_ne_none_of_loop {bound : ℕ} {r : List ℤ}
    (hrun : loop H.mergeRound bound (sorted, heap) = some r) :
    ∀ it ∈ heap, it.getItem ≠ none := by
  induction bound generalizing sorted heap with
  | zero => cases hrun
  | succ bound ih =>
    by_cases hne : heap = []
    · rw [hne]
      exact nofun
    · rw [loop] at hrun
      obtain hround | ⟨round, hround⟩ := Option.eq_none_or_eq_some (H.mergeRound (sorted, heap))
      · rw [hround] at hrun
        cases hrun
      · obtain ⟨it, heap₁, x, heap₂, hpop, hx, rfl, hback⟩ := mergeRound_eq_some hne hround
        rw [hround] at hrun
        intro other hother
        rcases List.mem_cons.mp ((H.pop_perm hpop).mem_iff.mp hother) with rfl | hother
        · rw [hx]
          exact Option.some_ne_none x
        · refine ih hrun other ?_
          rcases hback with ⟨-, hpush⟩ | ⟨-, rfl⟩
          · exact (H.push_perm hpush).mem_iff.mpr (mem_cons_of_mem _ hother)
          · exact hother

/-- Every item has a number, and the numbers of the heap are those that are left. -/
structure Merging (arrays : List (List ℤ)) (sorted : List ℤ) (heap : List Item) : Prop where
  read : ∀ it ∈ heap, it.getItem ≠ none
  ascending : ∀ it ∈ heap, it.arr.Pairwise (· ≤ ·)
  sorting : Sorting (· ≤ ·) arrays.flatten sorted (heap.flatMap Item.rest)

/-- **One round** takes out the least number that is left. -/
theorem Merging.exists_round (h : Merging arrays sorted heap) (hne : heap ≠ []) :
    ∃ x heap', H.mergeRound (sorted, heap) = some (.again (sorted ++ [x], heap')) ∧
      Merging arrays (sorted ++ [x]) heap' ∧
      (heap'.flatMap Item.rest).length < (heap.flatMap Item.rest).length := by
  obtain ⟨it, heap₁, hpop, hleast⟩ := H.exists_pop hne h.read
  have hperm := H.pop_perm hpop
  have hmem : it ∈ heap := hperm.mem_iff.mpr mem_cons_self
  have hold : ∀ other ∈ heap₁, other ∈ heap := fun other hother =>
    hperm.mem_iff.mpr (mem_cons_of_mem it hother)
  obtain ⟨x, hx⟩ := Option.ne_none_iff_exists'.mp (h.read it hmem)
  have hrest := it.rest_eq_cons hx
  have hflat : (heap.flatMap Item.rest).Perm
      (x :: (Item.rest ⟨it.arr, it.idx + 1⟩ ++ heap₁.flatMap Item.rest)) := by
    refine (hperm.flatMap_right _).trans ?_
    rw [flatMap_cons, hrest]
    exact List.Perm.refl _
  have hle : ∀ y ∈ Item.rest ⟨it.arr, it.idx + 1⟩ ++ heap₁.flatMap Item.rest, x ≤ y := by
    intro y hy
    rcases List.mem_append.mp hy with hy | hy
    · exact Item.getItem_le (h.ascending it hmem) hx (hrest ▸ mem_cons_of_mem x hy)
    · obtain ⟨other, hother, hy⟩ := List.mem_flatMap.mp hy
      obtain ⟨z, hz⟩ := Option.ne_none_iff_exists'.mp (h.read other (hold other hother))
      exact (hleast other (hold other hother) x hx z hz).trans
        (Item.getItem_le (h.ascending other (hold other hother)) hz hy)
  have hsorting := h.sorting.next hflat hle
  have hlen := hflat.length_eq
  rw [length_cons] at hlen
  by_cases hmore : it.idx + 1 < it.arr.length
  · have hread : ∀ other ∈ Item.mk it.arr (it.idx + 1) :: heap₁, other.getItem ≠ none := by
      intro other hother
      rcases List.mem_cons.mp hother with rfl | hother
      · rw [Item.getItem, getElem?_eq_getElem hmore]
        exact Option.some_ne_none _
      · exact h.read other (hold other hother)
    obtain ⟨heap₂, hpush⟩ := H.exists_push hread
    have hperm₂ := H.push_perm hpush
    refine ⟨x, heap₂, ?_, ⟨fun other hother => hread other (hperm₂.mem_iff.mp hother),
      fun other hother => ?_, hsorting.of_perm (hperm₂.flatMap_right _)⟩, ?_⟩
    · rw [mergeRound, hpop]
      · simp [hx, hmore, hpush]
      · exact hne
    · rcases List.mem_cons.mp (hperm₂.mem_iff.mp hother) with rfl | hother
      · exact h.ascending it hmem
      · exact h.ascending other (hold other hother)
    · rw [(hperm₂.flatMap_right Item.rest).length_eq, flatMap_cons]
      omega
  · -- the array of the item is at its end
    have hend : Item.rest ⟨it.arr, it.idx + 1⟩ = [] := drop_of_length_le (Nat.not_lt.mp hmore)
    rw [hend, nil_append] at hsorting hlen
    refine ⟨x, heap₁, ?_, ⟨fun other hother => h.read other (hold other hother),
      fun other hother => h.ascending other (hold other hother), hsorting⟩, by omega⟩
    rw [mergeRound, hpop]
    · simp [hx, hmore]
    · exact hne

/-- **Any number of arrays.** -/
theorem exists_merge (H : BinaryHeap) (hasc : ∀ arr ∈ arrays, arr.Pairwise (· ≤ ·))
    (hne : [] ∉ arrays) :
    ∃ sorted, H.merge arrays = some sorted ∧ SortsTo (· ≤ ·) arrays.flatten sorted := by
  obtain ⟨heap, hpush, hperm⟩ := H.exists_pushAll hne
  have hread : ∀ it ∈ heap, ∃ arr ∈ arrays, Item.new arr 0 = it := fun it hit =>
    List.mem_map.mp (hperm.mem_iff.mp hit)
  have hflat : (heap.flatMap Item.rest).Perm arrays.flatten := by
    refine (hperm.flatMap_right _).trans ?_
    rw [flatMap_map, show (fun arr => (Item.new arr 0).rest) = id from funext fun arr => rfl,
      flatMap_id]
  have hstart : Merging arrays [] heap := by
    refine ⟨fun it hit => ?_, fun it hit => ?_, (Sorting.start _).of_perm hflat⟩
    · obtain ⟨arr, harr, rfl⟩ := hread it hit
      obtain _ | ⟨x, arr⟩ := arr
      · exact absurd harr hne
      · exact Option.some_ne_none x
    · obtain ⟨arr, harr, rfl⟩ := hread it hit
      exact hasc arr harr
  have hloop : ∃ sorted, loop H.mergeRound (arrays.flatten.length + 1) ([], heap) = some sorted ∧
      SortsTo (· ≤ ·) arrays.flatten sorted := by
    refine loop_spec (I := fun s : List ℤ × List Item => Merging arrays s.1 s.2)
      (fun s => (s.2.flatMap Item.rest).length) ?_ hstart
      (Nat.lt_succ_of_le (Nat.le_of_eq hflat.length_eq))
    rintro ⟨sorted, heap⟩ h
    dsimp only at h ⊢
    by_cases hnil : heap = []
    · obtain rfl := hnil
      exact .inr ⟨sorted, rfl, h.sorting.done⟩
    · obtain ⟨x, heap', hround, h', hlt⟩ := h.exists_round hnil
      exact .inl ⟨(sorted ++ [x], heap'), hround, h', hlt⟩
  obtain ⟨sorted, hrun, hsorted⟩ := hloop
  exact ⟨sorted, by rw [merge, hpush]; exact hrun, hsorted⟩

theorem nil_notMem_of_merge {sorted : List ℤ} (h : H.merge arrays = some sorted) :
    [] ∉ arrays := by
  obtain ⟨heap, hpush, hrun⟩ := Option.bind_eq_some_iff.mp h
  intro hnil
  have hmem : Item.new [] 0 ∈ heap := by
    have hperm := perm_of_pushAll hpush
    rw [append_nil] at hperm
    exact hperm.mem_iff.mpr (mem_map_of_mem (f := (Item.new · 0)) hnil)
  exact getItem_ne_none_of_loop hrun _ hmem rfl

end BinaryHeap

/-! ### Two arrays -/

variable {a b : List ℤ} {i j : ℕ}

/-- **One round** takes out the less of the two numbers at the indices. -/
theorem exists_merge2Round (ha : a.Pairwise (· ≤ ·)) (hb : b.Pairwise (· ≤ ·)) (hi : i < a.length)
    (hj : j < b.length) (h : Sorting (· ≤ ·) (a ++ b) sorted (a.drop i ++ b.drop j)) :
    (∃ sorted' i' j', merge2Round a b (sorted, i, j) = some (.again (sorted', i', j')) ∧
      i' < a.length ∧ j' < b.length ∧ i + j < i' + j' ∧
      Sorting (· ≤ ·) (a ++ b) sorted' (a.drop i' ++ b.drop j')) ∨
    ∃ sorted' remaining k, merge2Round a b (sorted, i, j) = some (.done (sorted', remaining, k)) ∧
      SortsTo (· ≤ ·) (a ++ b) (sorted' ++ remaining.drop k) := by
  have hda := drop_eq_getElem_cons hi
  have hdb := drop_eq_getElem_cons hj
  have hasc : (a.drop i).Pairwise (· ≤ ·) := ha.drop
  have hbsc : (b.drop j).Pairwise (· ≤ ·) := hb.drop
  have hale : ∀ x ∈ a.drop i, a[i] ≤ x := fun x => getElem_le_of_mem_drop ha hi
  have hble : ∀ x ∈ b.drop j, b[j] ≤ x := fun x => getElem_le_of_mem_drop hb hj
  by_cases hlt : a[i] < b[j]
  · have hnext : Sorting (· ≤ ·) (a ++ b) (sorted ++ [a[i]]) (a.drop (i + 1) ++ b.drop j) := by
      refine h.next (by rw [hda]; exact List.Perm.refl _) fun x hx => ?_
      rcases List.mem_append.mp hx with hx | hx
      · exact hale x (hda ▸ mem_cons_of_mem _ hx)
      · exact hlt.le.trans (hble x hx)
    by_cases hend : i + 1 = a.length
    · refine .inr ⟨sorted ++ [a[i]], b, j, by simp [merge2Round, hi, hj, hlt, hend], ?_⟩
      rw [hend, drop_length, nil_append] at hnext
      exact hnext.append hbsc
    · exact .inl ⟨sorted ++ [a[i]], i + 1, j, by simp [merge2Round, hi, hj, hlt, hend], by omega,
        hj, by omega, hnext⟩
  · have hnext : Sorting (· ≤ ·) (a ++ b) (sorted ++ [b[j]]) (a.drop i ++ b.drop (j + 1)) := by
      refine h.next (by rw [hdb]; exact perm_middle) fun x hx => ?_
      rcases List.mem_append.mp hx with hx | hx
      · exact (not_lt.mp hlt).trans (hale x hx)
      · exact hble x (hdb ▸ mem_cons_of_mem _ hx)
    by_cases hend : j + 1 = b.length
    · refine .inr ⟨sorted ++ [b[j]], a, i, by simp [merge2Round, hi, hj, hlt, hend], ?_⟩
      rw [hend, drop_length, append_nil] at hnext
      exact hnext.append hasc
    · exact .inl ⟨sorted ++ [b[j]], i, j + 1, by simp [merge2Round, hi, hj, hlt, hend], hi,
        by omega, by omega, hnext⟩

theorem pushRest (remaining sorted : List ℤ) (k : ℕ) :
    forRange k remaining.length (fun i sorted => do some (sorted ++ [← remaining[i]?])) sorted =
      some (sorted ++ remaining.drop k) := by
  rcases Nat.lt_or_ge k remaining.length with hlt | hge
  · obtain ⟨sorted', hrun, rfl⟩ : ∃ sorted', forRange k remaining.length
        (fun i sorted => do some (sorted ++ [← remaining[i]?])) sorted = some sorted' ∧
          sorted' = sorted ++ (remaining.take remaining.length).drop k := by
      refine forRange_spec (I := fun i s => s = sorted ++ (remaining.take i).drop k) hlt.le
        (by simp) ?_
      rintro i s hi hlt rfl
      refine ⟨sorted ++ (remaining.take i).drop k ++ [remaining[i]], by simp [hlt], ?_⟩
      rw [take_succ_eq_append_getElem hlt, drop_append_of_le_length, append_assoc]
      rw [length_take]
      omega
    rw [hrun, take_length]
  · rw [forRange_of_le hge, drop_of_length_le hge, append_nil]

/-- **Two arrays.** -/
theorem exists_merge2 (ha : a.Pairwise (· ≤ ·)) (hb : b.Pairwise (· ≤ ·)) (hane : a ≠ [])
    (hbne : b ≠ []) : ∃ sorted, merge2 a b = some sorted ∧ SortsTo (· ≤ ·) (a ++ b) sorted := by
  have hloop : ∃ r : List ℤ × List ℤ × ℕ,
      loop (merge2Round a b) (a.length + b.length + 1) ([], 0, 0) = some r ∧
        SortsTo (· ≤ ·) (a ++ b) (r.1 ++ r.2.1.drop r.2.2) := by
    refine loop_spec (I := fun s : List ℤ × ℕ × ℕ => s.2.1 < a.length ∧ s.2.2 < b.length ∧
        Sorting (· ≤ ·) (a ++ b) s.1 (a.drop s.2.1 ++ b.drop s.2.2))
      (fun s => a.length + b.length - (s.2.1 + s.2.2)) ?_
      ⟨length_pos_of_ne_nil hane, length_pos_of_ne_nil hbne, Sorting.start _⟩ (by omega)
    rintro ⟨sorted, i, j⟩ ⟨hi, hj, h⟩
    dsimp only at hi hj h ⊢
    rcases exists_merge2Round ha hb hi hj h with
      ⟨sorted', i', j', hround, hi', hj', hlt, h'⟩ | ⟨sorted', remaining, k, hround, h'⟩
    · exact .inl ⟨(sorted', i', j'), hround, ⟨hi', hj', h'⟩, by dsimp only; omega⟩
    · exact .inr ⟨(sorted', remaining, k), hround, h'⟩
  obtain ⟨⟨sorted, remaining, k⟩, hrun, hsorts⟩ := hloop
  refine ⟨sorted ++ remaining.drop k, ?_, hsorts⟩
  rw [merge2, hrun]
  exact pushRest remaining sorted k

theorem ne_nil_of_merge2 {sorted : List ℤ} (h : merge2 a b = some sorted) : a ≠ [] ∧ b ≠ [] := by
  obtain ⟨r, hrun, -⟩ := Option.bind_eq_some_iff.mp h
  constructor
  · rintro rfl
    simp [loop, merge2Round] at hrun
  · rintro rfl
    rcases a with _ | ⟨x, a⟩ <;> simp [loop, merge2Round] at hrun

/-- **Merging.** Sorted arrays are merged exactly if none of them is empty; the merge of two gives
the same, again exactly if neither is empty. -/
theorem merges_iff (H : BinaryHeap) :
    (∀ arrays : List (List ℤ), (∀ arr ∈ arrays, arr.Pairwise (· ≤ ·)) →
      ((∃ sorted, H.merge arrays = some sorted ∧ SortsTo (· ≤ ·) arrays.flatten sorted) ↔
        [] ∉ arrays)) ∧
    ∀ a b : List ℤ, a.Pairwise (· ≤ ·) → b.Pairwise (· ≤ ·) →
      ((∃ sorted, merge2 a b = some sorted ∧ H.merge [a, b] = some sorted) ↔
        a ≠ [] ∧ b ≠ []) := by
  refine ⟨fun arrays hasc => ⟨?_, H.exists_merge hasc⟩, fun a b ha hb => ⟨?_, ?_⟩⟩
  · rintro ⟨sorted, hrun, -⟩
    exact BinaryHeap.nil_notMem_of_merge hrun
  · rintro ⟨sorted, hrun, -⟩
    exact ne_nil_of_merge2 hrun
  · rintro ⟨hane, hbne⟩
    obtain ⟨sorted, hrun, hsorts⟩ := exists_merge2 ha hb hane hbne
    have hasc : ∀ arr ∈ [a, b], arr.Pairwise (· ≤ ·) := by simp [ha, hb]
    obtain ⟨sorted', hrun', hsorts'⟩ := H.exists_merge hasc (by simp [hane.symm, hbne.symm])
    rw [flatten_cons, flatten_singleton] at hsorts'
    obtain rfl := hsorts.unique hsorts'
    exact ⟨sorted, hrun, hrun'⟩

/-- One empty array. -/
theorem empty_array : BinaryHeap.firstLeast.merge [[]] = none ∧ merge2 [] [1] = none :=
  ⟨rfl, rfl⟩

end RustExample.MergeArrays
