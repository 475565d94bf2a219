import RustExample.SortAlgorithm.Exchanges

/-!
# Sorting segments

Quick sort and merge sort of a vector in place. Both sort a segment by sorting two shorter ones;
the rest of the vector stays as it is.

Source: `sort_algorithm_example/src/lib.rs`.

* A recursion takes a bound on its depth, and is `none` where the bound is too small.
-/

namespace RustExample.SortAlgorithm

open List

/-! ### The algorithms -/

/-- The body of the loop of a partition by `v`: the vector and the end of the small entries. -/
def partitionAt (v j : ℕ) : List ℕ × ℕ → Option (List ℕ × ℕ)
  | (nums, i) => do if (← nums[j]?) ≤ v then some (← swapAt nums i j, i + 1) else some (nums, i)

/-- `_partition` -/
def partition (nums : List ℕ) (start stop : ℕ) : Option (List ℕ × ℕ) := do
  let last ← checkedSub stop 1
  let v ← nums[last]?
  let (nums, i) ← forRange start last (partitionAt v) (nums, start)
  some (← swapAt nums i last, i)

/-- `_quick_sort` -/
def quickSortFrom : ℕ → List ℕ → ℕ → ℕ → Option (List ℕ)
  | 0, _, _, _ => none
  | depth + 1, nums, start, stop =>
    if start + 1 < stop then do
      let (nums, mid) ← partition nums start stop
      let nums ← quickSortFrom depth nums start mid
      quickSortFrom depth nums (mid + 1) stop
    else some nums

/-- Sorts around a pivot. -/
def quickSort (nums : List ℕ) : Option (List ℕ) :=
  quickSortFrom (nums.length + 1) nums 0 nums.length

/-- `nums[left .. right]` -/
def slice (nums : List ℕ) (left right : ℕ) : Option (List ℕ) :=
  if left ≤ right ∧ right ≤ nums.length then some ((nums.take right).drop left) else none

/-- The condition in the loop of a merge: the next entry comes from the left part. -/
def takesLeft (leftPart rightPart : List ℕ) (leftOffset rightOffset : ℕ) : Option Bool :=
  if rightOffset = rightPart.length then some true
  else if leftOffset < leftPart.length then do
    let x ← leftPart[leftOffset]?
    let y ← rightPart[rightOffset]?
    some (decide (x ≤ y))
  else some false

/-- One round of the loop of a merge: the vector and the two offsets. -/
def mergeRound (left : ℕ) (leftPart rightPart : List ℕ) :
    List ℕ × ℕ × ℕ → Option (Round (List ℕ × ℕ × ℕ) (List ℕ))
  | (nums, leftOffset, rightOffset) =>
    if leftOffset < leftPart.length ∨ rightOffset < rightPart.length then do
      if ← takesLeft leftPart rightPart leftOffset rightOffset then
        let x ← leftPart[leftOffset]?
        some (.again
          (← putAt nums (left + leftOffset + rightOffset) x, leftOffset + 1, rightOffset))
      else
        let y ← rightPart[rightOffset]?
        some (.again
          (← putAt nums (left + leftOffset + rightOffset) y, leftOffset, rightOffset + 1))
    else some (.done nums)

/-- `_merge` -/
def mergeParts (nums : List ℕ) (left mid right : ℕ) : Option (List ℕ) := do
  let leftPart ← slice nums left mid
  let rightPart ← slice nums mid right
  loop (mergeRound left leftPart rightPart) (leftPart.length + rightPart.length + 1) (nums, 0, 0)

/-- `_merge_sort` -/
def mergeSortFrom : ℕ → List ℕ → ℕ → ℕ → Option (List ℕ)
  | 0, _, _, _ => none
  | depth + 1, nums, left, right =>
    if left + 1 < right then do
      let mid := (left + right) / 2
      let nums ← mergeSortFrom depth nums left mid
      let nums ← mergeSortFrom depth nums mid right
      mergeParts nums left mid right
    else some nums

/-- Sorts the halves and merges them. -/
def mergeSort (nums : List ℕ) : Option (List ℕ) :=
  mergeSortFrom (nums.length + 1) nums 0 nums.length

variable {pre seg post small large todo : List ℕ} {v x : ℕ}

theorem sortsTo_of_length_le_one (h : seg.length ≤ 1) : SortsTo (· ≤ ·) seg seg := by
  refine ⟨List.Perm.refl _, ?_⟩
  rw [pairwise_iff_getElem]
  intro a b ha hb hab
  omega

/-! ### Quick sort -/

/-- One entry of a partition: a small one changes places with the first large one. -/
theorem exists_partitionAt (pre small large todo : List ℕ) (v x : ℕ) (hsmall : ∀ y ∈ small, y ≤ v)
    (hlarge : ∀ y ∈ large, v < y) :
    ∃ small' large', partitionAt v ((pre ++ small).length + large.length)
        ((pre ++ small) ++ (large ++ x :: todo), (pre ++ small).length) =
          some ((pre ++ small') ++ (large' ++ todo), (pre ++ small').length) ∧
      (small' ++ large').Perm (small ++ (large ++ [x])) ∧
      (∀ y ∈ small', y ≤ v) ∧ ∀ y ∈ large', v < y := by
  have hread : ((pre ++ small) ++ (large ++ x :: todo))[(pre ++ small).length + large.length]? =
      some x := by
    rw [← append_assoc, ← length_append]
    exact getElem?_append_cons _ _ _
  by_cases hle : x ≤ v
  · obtain ⟨large', hswap, hperm⟩ := exists_swapAt_front (pre ++ small) large todo x
    refine ⟨small ++ [x], large', ?_, ?_, fun y hy => ?_,
      fun y hy => hlarge y (hperm.mem_iff.mp hy)⟩
    · rw [partitionAt, hread, Option.bind_eq_bind, Option.bind_some, if_pos hle, hswap]
      simp [Nat.add_assoc]
    · rw [append_assoc, singleton_append]
      exact ((hperm.cons x).trans (perm_append_singleton x large).symm).append_left small
    · rcases List.mem_append.mp hy with hy | hy
      · exact hsmall y hy
      · rwa [List.mem_singleton.mp hy]
  · refine ⟨small, large ++ [x], ?_, List.Perm.refl _, hsmall, fun y hy => ?_⟩
    · rw [partitionAt, hread, Option.bind_eq_bind, Option.bind_some, if_neg hle]
      simp
    · rcases List.mem_append.mp hy with hy | hy
      · exact hlarge y hy
      · rw [List.mem_singleton.mp hy]
        omega

/-- **A partition** of a segment by its last entry. -/
theorem exists_partition (pre seg post : List ℕ) (v : ℕ) :
    ∃ small large, partition (pre ++ (seg ++ v :: post)) pre.length
        (pre.length + (seg.length + 1)) =
          some (pre ++ (small ++ v :: (large ++ post)), pre.length + small.length) ∧
      (small ++ large).Perm seg ∧ (∀ y ∈ small, y ≤ v) ∧ ∀ y ∈ large, v ≤ y := by
  have hlast : (pre ++ (seg ++ v :: post))[pre.length + seg.length]? = some v := by
    rw [← append_assoc, ← length_append]
    exact getElem?_append_cons _ _ _
  have hloop : ∃ s, forRange pre.length (pre.length + seg.length) (partitionAt v)
      (pre ++ (seg ++ v :: post), pre.length) = some s ∧
        ∃ small large, s = ((pre ++ small) ++
            (large ++ (seg.drop (pre.length + seg.length - pre.length) ++ v :: post)),
          (pre ++ small).length) ∧
          (small ++ large).Perm (seg.take (pre.length + seg.length - pre.length)) ∧
          (∀ y ∈ small, y ≤ v) ∧ ∀ y ∈ large, v < y := by
    refine forRange_spec (I := fun j s => ∃ small large,
      s = ((pre ++ small) ++ (large ++ (seg.drop (j - pre.length) ++ v :: post)),
        (pre ++ small).length) ∧ List.Perm (small ++ large) (seg.take (j - pre.length)) ∧
        (∀ y ∈ small, y ≤ v) ∧ ∀ y ∈ large, v < y) (by omega) ?_ ?_
    · exact ⟨[], [], by simp, by simp, nofun, nofun⟩
    · rintro j _ hj hlt ⟨small, large, rfl, hperm, hsmall, hlarge⟩
      obtain ⟨k, rfl⟩ : ∃ k, j = pre.length + k := ⟨j - pre.length, by omega⟩
      have hk : k < seg.length := by omega
      rw [Nat.add_sub_cancel_left] at hperm ⊢
      have hlen := hperm.length_eq
      rw [length_append, length_take_of_le hk.le] at hlen
      have hat : pre.length + k = (pre ++ small).length + large.length := by
        rw [length_append]
        omega
      rw [drop_eq_getElem_cons hk, cons_append]
      obtain ⟨small', large', hrun, hperm', hsmall', hlarge'⟩ := exists_partitionAt pre small large
        (seg.drop (k + 1) ++ v :: post) v seg[k] hsmall hlarge
      refine ⟨_, hat ▸ hrun, small', large', ?_, ?_, hsmall', hlarge'⟩
      · rw [show pre.length + k + 1 - pre.length = k + 1 by omega]
      · rw [show pre.length + k + 1 - pre.length = k + 1 by omega,
          take_succ_eq_append_getElem hk]
        rw [← append_assoc] at hperm'
        exact hperm'.trans (hperm.append_right _)
  obtain ⟨_, hrun, small, large, rfl, hperm, hsmall, hlarge⟩ := hloop
  rw [Nat.add_sub_cancel_left, take_length] at hperm
  rw [Nat.add_sub_cancel_left, drop_length, nil_append] at hrun
  obtain ⟨large', hswap, hperm'⟩ := exists_swapAt_front (pre ++ small) large post v
  have hat : (pre ++ small).length + large.length = pre.length + seg.length := by
    rw [← hperm.length_eq, length_append, length_append, Nat.add_assoc]
  refine ⟨small, large', ?_, (hperm'.append_left small).trans hperm, hsmall,
    fun y hy => (hlarge y (hperm'.mem_iff.mp hy)).le⟩
  rw [hat] at hswap
  rw [partition, checkedSub_of_le (by omega)]
  simp only [Option.bind_eq_bind, Option.bind_some,
    show pre.length + (seg.length + 1) - 1 = pre.length + seg.length by omega, hlast, hrun, hswap]
  simp

/-- **A segment is sorted by itself.** -/
theorem exists_quickSortFrom {depth : ℕ} (pre seg post : List ℕ) (hdepth : seg.length < depth) :
    ∃ sorted, quickSortFrom depth (pre ++ (seg ++ post)) pre.length (pre.length + seg.length) =
      some (pre ++ (sorted ++ post)) ∧ SortsTo (· ≤ ·) seg sorted := by
  induction depth generalizing pre seg post with
  | zero => omega
  | succ depth ih =>
    by_cases hshort : seg.length ≤ 1
    · refine ⟨seg, ?_, sortsTo_of_length_le_one hshort⟩
      rw [quickSortFrom, if_neg (by omega)]
    · obtain ⟨front, v, rfl⟩ : ∃ front v, seg = front ++ [v] :=
        ⟨seg.dropLast, seg.getLast (by rintro rfl; simp at hshort),
          (dropLast_append_getLast _).symm⟩
      rw [length_append, length_singleton] at hdepth hshort
      obtain ⟨small, large, hrun, hperm, hsmall, hlarge⟩ := exists_partition pre front post v
      have hlen := hperm.length_eq
      rw [length_append] at hlen
      obtain ⟨small', hrun₁, hsort₁⟩ := ih pre small (v :: (large ++ post)) (by omega)
      obtain ⟨large', hrun₂, hsort₂⟩ := ih (pre ++ (small' ++ [v])) large post (by omega)
      refine ⟨small' ++ v :: large', ?_, ?_, ?_⟩
      · have hmid : (pre ++ (small' ++ [v])).length = pre.length + small.length + 1 := by
          simp [hsort₁.perm.length_eq, Nat.add_assoc]
        have hstop : pre.length + small.length + 1 + large.length =
            pre.length + (front.length + 1) := by omega
        rw [hmid, hstop] at hrun₂
        rw [quickSortFrom, length_append, length_singleton, if_pos (by omega)]
        simp only [append_assoc, cons_append, nil_append]
          at hrun₂ ⊢
        simp only [hrun, hrun₁, hrun₂, Option.bind_eq_bind, Option.bind_some]
      · have hparts := ((hsort₁.perm.append hsort₂.perm).trans hperm).cons v
        refine List.perm_middle.trans (hparts.trans ?_)
        exact (perm_append_singleton v front).symm
      · refine List.pairwise_append.mpr ⟨hsort₁.sorted, List.pairwise_cons.mpr
          ⟨fun y hy => hlarge y (hsort₂.perm.mem_iff.mp hy), hsort₂.sorted⟩, fun y hy z hz => ?_⟩
        have hyv := hsmall y (hsort₁.perm.mem_iff.mp hy)
        rcases List.mem_cons.mp hz with rfl | hz
        · exact hyv
        · exact hyv.trans (hlarge z (hsort₂.perm.mem_iff.mp hz))

theorem sorts_quickSort (nums : List ℕ) : Sorts quickSort nums := by
  obtain ⟨sorted, hrun, hsort⟩ := exists_quickSortFrom [] nums [] (Nat.lt_succ_self nums.length)
  refine ⟨sorted, ?_, hsort⟩
  simpa [quickSort] using hrun

/-! ### Merge sort -/

/-- A merge: the entries `out` are back in place, those behind are still to be written. -/
structure Merging (pre post leftPart rightPart : List ℕ) (nums : List ℕ) (lo ro : ℕ) : Prop where
  left_le : lo ≤ leftPart.length
  right_le : ro ≤ rightPart.length
  exists_out : ∃ out todo, nums = pre ++ out ++ (todo ++ post) ∧ out.length = lo + ro ∧
    todo.length = (leftPart.length - lo) + (rightPart.length - ro) ∧
    Sorting (· ≤ ·) (leftPart ++ rightPart) out (leftPart.drop lo ++ rightPart.drop ro)

variable {leftPart rightPart nums : List ℕ} {lo ro : ℕ}

theorem Merging.exists_put (h : Merging pre post leftPart rightPart nums lo ro) (x : ℕ)
    (hlt : lo < leftPart.length ∨ ro < rightPart.length) :
    ∃ out todo, putAt nums (pre.length + lo + ro) x = some (pre ++ (out ++ [x]) ++ (todo ++ post)) ∧
      out.length = lo + ro ∧
      todo.length + 1 = (leftPart.length - lo) + (rightPart.length - ro) ∧
      Sorting (· ≤ ·) (leftPart ++ rightPart) out (leftPart.drop lo ++ rightPart.drop ro) := by
  obtain ⟨out, todo, rfl, hout, htodo, hsorting⟩ := h.exists_out
  obtain _ | ⟨y, todo⟩ := todo
  · rw [length_nil] at htodo
    omega
  · refine ⟨out, todo, ?_, hout, by rw [← htodo, length_cons], hsorting⟩
    rw [Nat.add_assoc, ← hout, ← length_append, cons_append, putAt_append]
    simp

theorem Merging.exists_left (h : Merging pre post leftPart rightPart nums lo ro)
    (hleft : leftPart.Pairwise (· ≤ ·)) (hlt : lo < leftPart.length)
    (hle : ∀ y ∈ rightPart.drop ro, leftPart[lo] ≤ y)
    (htakes : takesLeft leftPart rightPart lo ro = some true) :
    ∃ nums', mergeRound pre.length leftPart rightPart (nums, lo, ro) =
      some (.again (nums', lo + 1, ro)) ∧
        Merging pre post leftPart rightPart nums' (lo + 1) ro := by
  obtain ⟨out, todo, hput, hout, htodo, hsorting⟩ := h.exists_put leftPart[lo] (.inl hlt)
  have hright := h.right_le
  have hdrop := drop_eq_getElem_cons hlt
  refine ⟨_, ?_, by omega, hright, out ++ [leftPart[lo]], todo, rfl, ?_, by omega, ?_⟩
  · simp [mergeRound, hlt, htakes, hput]
  · rw [length_append, length_singleton]
    omega
  · refine hsorting.next (by rw [hdrop]; exact List.Perm.refl _) fun y hy => ?_
    rcases List.mem_append.mp hy with hy | hy
    · exact getElem_le_of_mem_drop hleft hlt (hdrop ▸ mem_cons_of_mem _ hy)
    · exact hle y hy

theorem Merging.exists_right (h : Merging pre post leftPart rightPart nums lo ro)
    (hright : rightPart.Pairwise (· ≤ ·)) (hlt : ro < rightPart.length)
    (hle : ∀ x ∈ leftPart.drop lo, rightPart[ro] ≤ x)
    (htakes : takesLeft leftPart rightPart lo ro = some false) :
    ∃ nums', mergeRound pre.length leftPart rightPart (nums, lo, ro) =
      some (.again (nums', lo, ro + 1)) ∧
        Merging pre post leftPart rightPart nums' lo (ro + 1) := by
  obtain ⟨out, todo, hput, hout, htodo, hsorting⟩ := h.exists_put rightPart[ro] (.inr hlt)
  have hleft := h.left_le
  have hdrop := drop_eq_getElem_cons hlt
  refine ⟨_, ?_, hleft, by omega, out ++ [rightPart[ro]], todo, rfl, ?_, by omega, ?_⟩
  · simp [mergeRound, hlt, htakes, hput]
  · rw [length_append, length_singleton]
    omega
  · refine hsorting.next (by rw [hdrop]; exact perm_middle) fun x hx => ?_
    rcases List.mem_append.mp hx with hx | hx
    · exact hle x hx
    · exact getElem_le_of_mem_drop hright hlt (hdrop ▸ mem_cons_of_mem _ hx)

/-- **One round** of a merge. -/
theorem Merging.exists_round (h : Merging pre post leftPart rightPart nums lo ro)
    (hleft : leftPart.Pairwise (· ≤ ·)) (hright : rightPart.Pairwise (· ≤ ·))
    (hlt : lo < leftPart.length ∨ ro < rightPart.length) :
    ∃ nums' lo' ro', mergeRound pre.length leftPart rightPart (nums, lo, ro) =
      some (.again (nums', lo', ro')) ∧ lo + ro < lo' + ro' ∧
        Merging pre post leftPart rightPart nums' lo' ro' := by
  have hright_le := h.right_le
  by_cases hend : ro = rightPart.length
  · have hnone : rightPart.drop ro = [] := drop_of_length_le hend.ge
    obtain ⟨nums', hrun, h'⟩ := h.exists_left hleft (by omega)
      (fun y hy => absurd (hnone ▸ hy) not_mem_nil) (by rw [takesLeft, if_pos hend])
    exact ⟨nums', lo + 1, ro, hrun, by omega, h'⟩
  · have hro : ro < rightPart.length := by omega
    by_cases hlo : lo < leftPart.length
    · by_cases hle : leftPart[lo] ≤ rightPart[ro]
      · obtain ⟨nums', hrun, h'⟩ := h.exists_left hleft hlo
          (fun y hy => hle.trans (getElem_le_of_mem_drop hright hro hy))
          (by simp [takesLeft, hend, hlo, hro, hle])
        exact ⟨nums', lo + 1, ro, hrun, by omega, h'⟩
      · obtain ⟨nums', hrun, h'⟩ := h.exists_right hright hro
          (fun x hx => (not_le.mp hle).le.trans (getElem_le_of_mem_drop hleft hlo hx))
          (by simp [takesLeft, hend, hlo, hro]; omega)
        exact ⟨nums', lo, ro + 1, hrun, by omega, h'⟩
    · have hnone : leftPart.drop lo = [] := drop_of_length_le (not_lt.mp hlo)
      obtain ⟨nums', hrun, h'⟩ := h.exists_right hright hro
        (fun x hx => absurd (hnone ▸ hx) not_mem_nil)
        (by rw [takesLeft, if_neg hend, if_neg hlo])
      exact ⟨nums', lo, ro + 1, hrun, by omega, h'⟩

theorem slice_append (as bs cs : List ℕ) :
    slice (as ++ (bs ++ cs)) as.length (as.length + bs.length) = some bs := by
  rw [slice, if_pos (by simp)]
  congr 1
  rw [take_length_add_append, take_left', drop_left']
  all_goals simp

/-- **A merge** of two segments in order. -/
theorem exists_mergeParts (pre post : List ℕ) (hleft : leftPart.Pairwise (· ≤ ·))
    (hright : rightPart.Pairwise (· ≤ ·)) :
    ∃ sorted, mergeParts (pre ++ (leftPart ++ (rightPart ++ post))) pre.length
        (pre.length + leftPart.length) (pre.length + leftPart.length + rightPart.length) =
          some (pre ++ (sorted ++ post)) ∧
      SortsTo (· ≤ ·) (leftPart ++ rightPart) sorted := by
  have hloop : ∃ nums, loop (mergeRound pre.length leftPart rightPart)
      (leftPart.length + rightPart.length + 1)
      (pre ++ (leftPart ++ (rightPart ++ post)), 0, 0) = some nums ∧
        ∃ sorted, nums = pre ++ (sorted ++ post) ∧
          SortsTo (· ≤ ·) (leftPart ++ rightPart) sorted := by
    refine loop_spec (I := fun s : List ℕ × ℕ × ℕ =>
      Merging pre post leftPart rightPart s.1 s.2.1 s.2.2)
      (fun s => leftPart.length + rightPart.length - (s.2.1 + s.2.2)) ?_ ?_ (by omega)
    · rintro ⟨nums, lo, ro⟩ h
      dsimp only at h ⊢
      have hlo := h.left_le
      have hro := h.right_le
      by_cases hlt : lo < leftPart.length ∨ ro < rightPart.length
      · obtain ⟨nums', lo', ro', hrun, hmore, h'⟩ := h.exists_round hleft hright hlt
        exact .inl ⟨(nums', lo', ro'), hrun, h', by dsimp only; omega⟩
      · obtain ⟨out, todo, rfl, -, htodo, hsorting⟩ := h.exists_out
        obtain rfl : todo = [] := eq_nil_of_length_eq_zero (by omega)
        rw [drop_of_length_le (by omega), drop_of_length_le (by omega)] at hsorting
        refine .inr ⟨pre ++ (out ++ post), ?_, out, rfl, hsorting.done⟩
        simp [mergeRound, hlt]
    · exact ⟨Nat.zero_le _, Nat.zero_le _, [], leftPart ++ rightPart, by simp, rfl, by simp,
        Sorting.start _⟩
  obtain ⟨_, hrun, sorted, rfl, hsorts⟩ := hloop
  refine ⟨sorted, ?_, hsorts⟩
  have hslice := slice_append (pre ++ leftPart) rightPart post
  rw [length_append, append_assoc] at hslice
  rw [mergeParts, slice_append, hslice]
  exact hrun

/-- **A segment is sorted by itself.** -/
theorem exists_mergeSortFrom {depth : ℕ} (pre seg post : List ℕ) (hdepth : seg.length < depth) :
    ∃ sorted, mergeSortFrom depth (pre ++ (seg ++ post)) pre.length (pre.length + seg.length) =
      some (pre ++ (sorted ++ post)) ∧ SortsTo (· ≤ ·) seg sorted := by
  induction depth generalizing pre seg post with
  | zero => omega
  | succ depth ih =>
    by_cases hshort : seg.length ≤ 1
    · refine ⟨seg, ?_, sortsTo_of_length_le_one hshort⟩
      rw [mergeSortFrom, if_neg (by omega)]
    · obtain ⟨front, back, rfl, hmid, hfront, hback⟩ : ∃ front back, seg = front ++ back ∧
          (pre.length + (pre.length + seg.length)) / 2 = pre.length + front.length ∧
          front.length < depth ∧ back.length < depth := by
        refine ⟨seg.take (seg.length / 2), seg.drop (seg.length / 2),
          (take_append_drop _ _).symm, ?_, ?_, ?_⟩
        · rw [length_take]
          omega
        · rw [length_take]
          omega
        · rw [length_drop]
          omega
      obtain ⟨front', hrun₁, hsort₁⟩ := ih pre front (back ++ post) hfront
      obtain ⟨back', hrun₂, hsort₂⟩ := ih (pre ++ front') back post hback
      obtain ⟨sorted, hrun, hsort⟩ := exists_mergeParts pre post hsort₁.sorted hsort₂.sorted
      refine ⟨sorted, ?_, hsort.perm.trans (hsort₁.perm.append hsort₂.perm), hsort.sorted⟩
      rw [mergeSortFrom, if_pos (by omega)]
      rw [length_append, hsort₁.perm.length_eq] at hrun₂
      rw [hsort₁.perm.length_eq, hsort₂.perm.length_eq] at hrun
      simp only [length_append, append_assoc, ← Nat.add_assoc] at hmid hrun₁ hrun₂ hrun ⊢
      simp only [hmid, hrun₁, hrun₂, hrun, Option.bind_eq_bind, Option.bind_some]

theorem sorts_mergeSort (nums : List ℕ) : Sorts mergeSort nums := by
  obtain ⟨sorted, hrun, hsort⟩ := exists_mergeSortFrom [] nums [] (Nat.lt_succ_self nums.length)
  refine ⟨sorted, ?_, hsort⟩
  simpa [mergeSort] using hrun

end RustExample.SortAlgorithm
