import RustExample.SortAlgorithm.Heaps

/-!
# Heaps that are built from below and from above

One builder takes in the entries one after the other, and moves each one up among those before it.
The other begins in the middle of the vector, and moves each entry down. A new entry is moved up,
and the last entry takes the place of the greatest one and is moved down.

Source: `heapify_down_up_example/src/main.rs`.

* The entries are integers, since they are only compared.
-/

namespace RustExample.HeapifyDownUp

open List

open SortAlgorithm (left right)

/-! ### The operations -/

/-- One exchange with the parent. -/
def riseRound : List ℤ × ℕ × ℕ → Option (Round (List ℤ × ℕ × ℕ) (List ℤ))
  | (nums, idx, parentIdx) => do
    if (← nums[parentIdx]?) < (← nums[idx]?) then do
      let nums ← swapAt nums idx parentIdx
      let idx := parentIdx
      if idx = 0 then some (.done nums)
      else some (.again (nums, idx, (← checkedSub idx 1) / 2))
    else some (.done nums)

/-- Moves an entry up. -/
def heapifyDownUp (nums : List ℤ) (idx : ℕ) : Option (List ℤ) := do
  loop riseRound (nums.length + 1) (nums, idx, (← checkedSub idx 1) / 2)

/-- Makes a heap, entry by entry. -/
def buildHeapDownUp (nums : List ℤ) : Option (List ℤ) :=
  forRange 1 nums.length (fun i nums => heapifyDownUp nums i) nums

/-- The greater of an entry and a child, if that is below the length. -/
def greater (nums : List ℤ) (numsLen maxPos child : ℕ) : Option ℕ :=
  if child < numsLen then do
    if (← nums[maxPos]?) < (← nums[child]?) then some child else some maxPos
  else some maxPos

/-- One exchange with the greater child. -/
def sinkRound (numsLen : ℕ) : List ℤ × ℕ → Option (Round (List ℤ × ℕ) (List ℤ))
  | (nums, idx) => do
    let maxPos ← greater nums numsLen idx (2 * idx + 1)
    let maxPos ← greater nums numsLen maxPos (2 * idx + 2)
    if maxPos = idx then some (.done nums)
    else some (.again (← swapAt nums idx maxPos, maxPos))

/-- Moves an entry down. -/
def heapifyUpDown (nums : List ℤ) (idx numsLen : ℕ) : Option (List ℤ) :=
  loop (sinkRound numsLen) (nums.length + 1) (nums, idx)

/-- Makes a heap from the last parent on. -/
def buildHeapUpDown (nums : List ℤ) : Option (List ℤ) :=
  let len := nums.length
  forRangeRev 0 (len / 2) (fun i nums => heapifyUpDown nums i len) nums

/-- Adds a number. -/
def insert (nums : List ℤ) (x : ℤ) : Option (List ℤ × Bool) := do
  let nums := nums ++ [x]
  if 1 < nums.length then some (← heapifyDownUp nums (← checkedSub nums.length 1), true)
  else some (nums, true)

/-- Takes out a greatest number. -/
def removeMax (nums : List ℤ) : Option (List ℤ × Option ℤ) :=
  if nums.length = 0 then some (nums, none)
  else do
    let maxValue ← nums[0]?
    let nums ← putAt nums 0 (← nums[← checkedSub nums.length 1]?)
    let (_, nums) ← removeAt nums (← checkedSub nums.length 1)
    if 1 < nums.length then some (← heapifyUpDown nums 0 nums.length, some maxValue)
    else some (nums, some maxValue)

/-! ### What is to hold -/

/-- No entry is greater than the one at its parent. -/
def IsMaxHeap (nums : List ℤ) : Prop :=
  ∀ i a b, 0 < i → nums[i]? = some a → nums[(i - 1) / 2]? = some b → a ≤ b

/-- The greatest entries of a heap, taken out until none is left. -/
def drain : ℕ → List ℤ → Option (List ℤ)
  | 0, _ => none
  | bound + 1, nums => do
    match ← removeMax nums with
    | (_, none) => some []
    | (nums, some v) => some (v :: (← drain bound nums))

variable {nums : List ℤ} {i idx n : ℕ} {x : ℤ}

theorem isMaxHeap_iff : IsMaxHeap nums ↔ HeapOrdered 1 (ranks id nums) := by
  have hiff : (SortAlgorithm.Heap.mk nums).IsMaxHeap ↔ HeapOrdered 1 (ranks id nums) :=
    SortAlgorithm.Heap.isMaxHeap_iff
  rw [← hiff]
  refine forall_congr' fun i => forall_congr' fun a => forall_congr' fun b => ?_
  refine forall_congr' fun hi => ?_
  rw [SortAlgorithm.parent, if_pos hi]

/-! ### The way up -/

/-- The ranks of the first `n` entries. -/
def ranksBelow (n : ℕ) (nums : List ℤ) (p : ℕ) : Option ℤ := if p ≤ n then ranks id nums p else none

theorem ranksBelow_length (nums : List ℤ) : ranksBelow nums.length nums = ranks id nums := by
  funext p
  rw [ranksBelow, ite_eq_left_iff]
  intro hp
  rw [eq_comm, ranks, Option.map_eq_none_iff]
  by_contra hne
  exact hp (slot_ne_none_iff.mp hne).2

theorem ranksBelow_succ (hi : i < n) : ranksBelow n nums (i + 1) = nums[i]? := by
  rw [ranksBelow, if_pos (Nat.succ_le_of_lt hi), ranks, Option.map_id, id, slot_succ]

theorem ranksBelow_swap {nums' : List ℤ} {p q : ℕ} (hp : p ≤ n) (hq : q ≤ n)
    (h : ranks id nums' = ranks id nums ∘ Equiv.swap p q) :
    ranksBelow n nums' = ranksBelow n nums ∘ Equiv.swap p q := by
  funext k
  rw [Function.comp_apply, ranksBelow, ranksBelow, h, Function.comp_apply]
  refine if_congr ?_ rfl rfl
  rw [Equiv.swap_apply_def]
  split_ifs with hkp hkq <;> omega

/-- What holds whenever the loop on the way up comes round. -/
def RiseInvariant (n : ℕ) (nums₀ : List ℤ) : List ℤ × ℕ × ℕ → Prop
  | (nums, idx, parentIdx) => nums.Perm nums₀ ∧ 0 < idx ∧ idx < n ∧ parentIdx = (idx - 1) / 2 ∧
      RisesAt (ranksBelow n nums) (idx + 1)

theorem riseRound_spec {nums₀ : List ℤ} (hn : n ≤ nums₀.length) (s : List ℤ × ℕ × ℕ)
    (hs : RiseInvariant n nums₀ s) :
    (∃ s', riseRound s = some (.again s') ∧ RiseInvariant n nums₀ s' ∧ s'.2.1 < s.2.1) ∨
    ∃ nums, riseRound s = some (.done nums) ∧ nums.Perm nums₀ ∧
      HeapOrdered 1 (ranksBelow n nums) := by
  obtain ⟨nums, idx, parentIdx⟩ := s
  obtain ⟨hperm, hpos, hidx, hparent, hrises⟩ := hs
  have hlen := hperm.length_eq
  have hhalf : (idx + 1) / 2 = parentIdx + 1 := by omega
  have hx := getElem?_eq_getElem (show idx < nums.length by omega)
  have hy := getElem?_eq_getElem (show parentIdx < nums.length by omega)
  have hrx : ranksBelow n nums (idx + 1) = some nums[idx] := by rw [ranksBelow_succ hidx, hx]
  have hry : ranksBelow n nums ((idx + 1) / 2) = some nums[parentIdx] := by
    rw [hhalf, ranksBelow_succ (by omega), hy]
  by_cases hlt : nums[parentIdx] < nums[idx]
  · obtain ⟨nums', hrun, hperm', -, hranks⟩ := exists_swapAt_slot (id : ℤ → ℤ) (p := idx + 1)
      (q := parentIdx + 1) (l := nums) (by omega) (by omega) (by omega) (by omega)
    rw [Nat.add_sub_cancel, Nat.add_sub_cancel] at hrun
    have hrises' : RisesAt (ranksBelow n nums') (parentIdx + 1) := by
      rw [ranksBelow_swap (by omega) (by omega) hranks, ← hhalf]
      exact hrises.swap (by omega) hrx hry hlt.le
    rcases Nat.eq_zero_or_pos parentIdx with rfl | hroot
    · refine .inr ⟨nums', by simp [riseRound, hx, hy, hlt, hrun], hperm'.trans hperm, ?_⟩
      exact hrises'.heapOrdered fun x y htwo => by omega
    · refine .inl ⟨(nums', parentIdx, (parentIdx - 1) / 2), ?_,
        ⟨hperm'.trans hperm, hroot, by omega, rfl, hrises'⟩, by dsimp only; omega⟩
      have hone : 1 ≤ parentIdx := hroot
      simp [riseRound, hx, hy, hlt, hrun, hroot.ne', checkedSub_of_le hone]
  · refine .inr ⟨nums, by simp [riseRound, hx, hy, hlt], hperm, ?_⟩
    refine hrises.heapOrdered fun x y _ hx' hy' => ?_
    rw [hrx] at hx'
    rw [hry] at hy'
    exact Option.some.inj hx' ▸ Option.some.inj hy' ▸ not_lt.mp hlt

/-- **One more entry is taken in**: a heap of the first entries, and the next one. -/
theorem exists_heapifyDownUp (h : HeapOrdered 1 (ranksBelow idx nums)) (hpos : 0 < idx)
    (hidx : idx < nums.length) :
    ∃ nums', heapifyDownUp nums idx = some nums' ∧ nums'.Perm nums ∧
      HeapOrdered 1 (ranksBelow (idx + 1) nums') := by
  have hrises : RisesAt (ranksBelow (idx + 1) nums) (idx + 1) := by
    refine risesAt_last (fun q x y hq hne hx hy => ?_) fun q hq => if_neg (Nat.not_le_of_lt hq)
    have hle : q ≤ idx := by
      by_contra hgt
      rw [ranksBelow, if_neg (by omega)] at hx
      cases hx
    rw [ranksBelow, if_pos (by omega)] at hx hy
    exact h q x y hq (by omega) (by rwa [ranksBelow, if_pos hle])
      (by rwa [ranksBelow, if_pos (by omega)])
  have hstart : RiseInvariant (idx + 1) nums (nums, idx, (idx - 1) / 2) :=
    ⟨List.Perm.refl nums, hpos, Nat.lt_succ_self idx, rfl, hrises⟩
  obtain ⟨nums', hrun, hperm, hordered⟩ := loop_spec (fun s => s.2.1) (riseRound_spec hidx) hstart
    (show idx < nums.length + 1 by omega)
  refine ⟨nums', ?_, hperm, hordered⟩
  rw [heapifyDownUp, checkedSub_of_le hpos]
  exact hrun

theorem heapOrdered_ranksBelow_one (nums : List ℤ) : HeapOrdered 1 (ranksBelow 1 nums) := by
  intro q x y hq _ hx
  rw [ranksBelow, if_neg (by omega)] at hx
  cases hx

theorem isMaxHeap_of_length_le (h : nums.length ≤ 1) : IsMaxHeap nums := by
  intro i a b hi ha
  have hlt := (List.getElem?_eq_some_iff.mp ha).1
  omega

/-- The builder that takes in one entry after the other makes a heap. -/
theorem exists_buildHeapDownUp (nums : List ℤ) :
    ∃ heap, buildHeapDownUp nums = some heap ∧ heap.Perm nums ∧ IsMaxHeap heap := by
  rcases Nat.lt_or_ge nums.length 1 with hlen | hlen
  · exact ⟨nums, forRange_of_le hlen.le _ _, List.Perm.refl nums, isMaxHeap_of_length_le hlen.le⟩
  · have hbody : ∀ i heap, 1 ≤ i → i < nums.length →
        heap.Perm nums ∧ HeapOrdered 1 (ranksBelow i heap) →
        ∃ heap', heapifyDownUp heap i = some heap' ∧ heap'.Perm nums ∧
          HeapOrdered 1 (ranksBelow (i + 1) heap') := by
      rintro i heap hi hlt ⟨hperm, hordered⟩
      obtain ⟨heap', hrun, hperm', hordered'⟩ :=
        exists_heapifyDownUp hordered hi (hperm.length_eq ▸ hlt)
      exact ⟨heap', hrun, hperm'.trans hperm, hordered'⟩
    obtain ⟨heap, hrun, hperm, hordered⟩ := forRange_spec hlen
      (I := fun i heap => heap.Perm nums ∧ HeapOrdered 1 (ranksBelow i heap))
      ⟨List.Perm.refl nums, heapOrdered_ranksBelow_one nums⟩ hbody
    rw [← hperm.length_eq, ranksBelow_length] at hordered
    exact ⟨heap, hrun, hperm, isMaxHeap_iff.mpr hordered⟩

theorem exists_insert (h : IsMaxHeap nums) (x : ℤ) :
    ∃ nums', insert nums x = some (nums', true) ∧ nums'.Perm (x :: nums) ∧ IsMaxHeap nums' := by
  have hlen : (nums ++ [x]).length = nums.length + 1 := by simp
  rcases Nat.eq_zero_or_pos nums.length with hzero | hpos
  · refine ⟨nums ++ [x], ?_, perm_append_singleton x nums, isMaxHeap_of_length_le (by omega)⟩
    rw [insert, if_neg (by omega)]
  · have hordered : HeapOrdered 1 (ranksBelow nums.length (nums ++ [x])) := by
      have hsame : ranksBelow nums.length (nums ++ [x]) = ranks id nums := by
        rw [← ranksBelow_length]
        funext p
        rw [ranksBelow, ranksBelow]
        refine ite_congr rfl (fun hp => ?_) fun _ => rfl
        obtain _ | p := p
        · rfl
        · rw [ranks, ranks, slot_succ, slot_succ, getElem?_append_left (by omega)]
      exact hsame ▸ isMaxHeap_iff.mp h
    obtain ⟨nums', hrun, hperm, hordered'⟩ := exists_heapifyDownUp hordered hpos (by omega)
    refine ⟨nums', ?_, hperm.trans (perm_append_singleton x nums), ?_⟩
    · rw [insert, if_pos (by omega), checkedSub_of_le (by omega), hlen, Nat.add_sub_cancel]
      simp only [Option.bind_eq_bind, Option.bind_some, hrun]
    · rw [isMaxHeap_iff, ← ranksBelow_length, hperm.length_eq, hlen]
      exact hordered'

/-! ### The way down -/

theorem greater_eq (nums : List ℤ) (maxPos child : ℕ) :
    greater nums nums.length maxPos child = SortAlgorithm.greater nums maxPos child := rfl

/-- For the length of the vector a round of the way down is one of heap sort. -/
theorem sinkRound_eq (nums : List ℤ) (idx : ℕ) :
    sinkRound nums.length (nums, idx) = SortAlgorithm.sinkRound (nums, idx) := by
  rw [sinkRound, SortAlgorithm.sinkRound, SortAlgorithm.left, SortAlgorithm.right,
    Nat.mul_comm idx 2]
  simp only [greater_eq, swapAt_comm nums idx, ite_not]

/-- **A way down** to the end. -/
theorem exists_heapifyUpDown {lo : ℕ} (h : SinksAt lo (ranks id nums) (idx + 1))
    (hidx : idx < nums.length) :
    ∃ nums', heapifyUpDown nums idx nums.length = some nums' ∧ nums'.Perm nums ∧
      HeapOrdered lo (ranks id nums') := by
  refine loop_spec (I := fun s : List ℤ × ℕ => s.1.Perm nums ∧ s.2 < nums.length ∧
    SinksAt lo (ranks id s.1) (s.2 + 1)) (fun s => nums.length - s.2) ?_
    ⟨List.Perm.refl nums, hidx, h⟩ (by omega)
  rintro ⟨nums₁, idx⟩ ⟨hperm, hidx, hsinks⟩
  dsimp only at hperm hidx hsinks ⊢
  rw [← hperm.length_eq, sinkRound_eq]
  rw [← hperm.length_eq] at hidx
  rcases SortAlgorithm.exists_sinkRound hsinks hidx with
    ⟨nums₂, child, hrun, hperm₂, hlt, hchild, hsinks₂⟩ | ⟨hrun, hordered⟩
  · exact .inl ⟨(nums₂, child), hrun, ⟨hperm₂.trans hperm, hchild, hsinks₂⟩,
      by dsimp only; omega⟩
  · exact .inr ⟨nums₁, hrun, hperm, hordered⟩

/-- The builder that moves the entries down makes a heap. -/
theorem exists_buildHeapUpDown (nums : List ℤ) :
    ∃ heap, buildHeapUpDown nums = some heap ∧ heap.Perm nums ∧ IsMaxHeap heap := by
  have hleaves : HeapOrdered (nums.length / 2 + 1) (ranks id nums) := by
    intro q x y hq hlo hx
    have hsome : slot nums q ≠ none := by
      intro hnone
      rw [ranks, hnone] at hx
      cases hx
    have hle := (slot_ne_none_iff.mp hsome).2
    omega
  have hbody : ∀ i heap, 0 ≤ i → i < nums.length / 2 →
      heap.Perm nums ∧ HeapOrdered (i + 1 + 1) (ranks id heap) →
      ∃ heap', heapifyUpDown heap i nums.length = some heap' ∧ heap'.Perm nums ∧
        HeapOrdered (i + 1) (ranks id heap') := by
    rintro i heap - hi ⟨hperm, hordered⟩
    have hlen := hperm.length_eq
    obtain ⟨heap', hrun, hperm', hordered'⟩ := exists_heapifyUpDown hordered.sinksAt
      (show i < heap.length by omega)
    exact ⟨heap', hlen ▸ hrun, hperm'.trans hperm, hordered'⟩
  obtain ⟨heap, hrun, hperm, hordered⟩ := forRangeRev_spec (Nat.zero_le (nums.length / 2))
    (I := fun i heap => heap.Perm nums ∧ HeapOrdered (i + 1) (ranks id heap))
    ⟨List.Perm.refl nums, hleaves⟩ hbody
  exact ⟨heap, hrun, hperm, isMaxHeap_iff.mpr hordered⟩

/-- What is left when the last entry takes the place of the first one. -/
theorem removeMax_concat (v last : ℤ) (mid : List ℤ) :
    removeMax (v :: (mid ++ [last])) =
      if 1 < (last :: mid).length then do
        some (← heapifyUpDown (last :: mid) 0 (last :: mid).length, some v)
      else some (last :: mid, some v) := by
  have hlen : (v :: (mid ++ [last])).length = mid.length + 1 + 1 := by simp
  have hget : (v :: (mid ++ [last]))[mid.length + 1]? = some last := by simp
  have herase : removeAt (last :: (mid ++ [last])) (mid.length + 1) = some (last, last :: mid) := by
    rw [removeAt, eraseIdx_cons_succ, eraseIdx_append_of_length_le (Nat.le_refl _)]
    simp
  have hput : putAt (v :: (mid ++ [last])) 0 last = some (last :: (mid ++ [last])) :=
    putAt_of_lt (Nat.succ_pos _) last
  have hsub : checkedSub (mid.length + 1 + 1) 1 = some (mid.length + 1) :=
    checkedSub_of_le (Nat.le_add_left 1 _)
  rw [removeMax, hlen, if_neg (Nat.succ_ne_zero _)]
  simp only [Option.bind_eq_bind, getElem?_cons_zero, Option.bind_some, hsub, hget, hput]
  rw [length_cons, length_append, length_singleton, hsub, Option.bind_some, herase]
  rfl

/-- **A greatest entry is taken out.** -/
theorem exists_removeMax (h : IsMaxHeap nums) (hne : nums ≠ []) :
    ∃ nums' v, removeMax nums = some (nums', some v) ∧ nums.Perm (v :: nums') ∧
      IsMaxHeap nums' ∧ ∀ w ∈ nums, w ≤ v := by
  obtain ⟨v, rest, rfl⟩ := exists_cons_of_ne_nil hne
  have hmax : ∀ w ∈ v :: rest, w ≤ v := fun w => (isMaxHeap_iff.mp h).le_first rfl
  rcases eq_nil_or_concat rest with rfl | ⟨mid, last, rfl⟩
  · exact ⟨[], v, rfl, List.Perm.refl _, isMaxHeap_of_length_le (Nat.zero_le _), hmax⟩
  rw [concat_eq_append] at h hmax ⊢
  have hperm : (v :: (mid ++ [last])).Perm (v :: last :: mid) :=
    (perm_append_singleton last mid).cons v
  rw [removeMax_concat]
  by_cases hmid : 1 < (last :: mid).length
  · have hsinks : SinksAt 1 (ranks id (last :: mid)) (0 + 1) := by
      refine (isMaxHeap_iff.mp h).sinksAt_root fun q hq => ?_
      obtain ⟨k, rfl⟩ : ∃ k, q = k + 2 := ⟨q - 2, by omega⟩
      rw [ranks, ranks, Option.map_id, id, id, slot_succ, slot_succ, getElem?_cons_succ,
        getElem?_cons_succ]
      rcases Nat.lt_or_ge k mid.length with hk | hk
      · exact .inl (getElem?_append_left hk).symm
      · exact .inr (getElem?_eq_none hk)
    obtain ⟨nums', hrun, hperm', hordered⟩ := exists_heapifyUpDown hsinks (Nat.succ_pos _)
    refine ⟨nums', v, ?_, hperm.trans (hperm'.symm.cons v), isMaxHeap_iff.mpr hordered, hmax⟩
    rw [if_pos hmid, hrun]
    rfl
  · exact ⟨last :: mid, v, if_neg hmid, hperm, isMaxHeap_of_length_le (Nat.le_of_not_lt hmid),
      hmax⟩

/-- **A heap is drained in order.** -/
theorem exists_drain {bound : ℕ} (h : IsMaxHeap nums) (hbound : nums.length < bound) :
    ∃ out, drain bound nums = some out ∧ SortsTo (fun a b => b ≤ a) nums out := by
  induction bound generalizing nums with
  | zero => omega
  | succ bound ih =>
    rcases eq_or_ne nums [] with rfl | hne
    · exact ⟨[], rfl, List.Perm.refl _, .nil⟩
    · obtain ⟨nums', v, hrun, hperm, h', hmax⟩ := exists_removeMax h hne
      have hlen := hperm.length_eq
      rw [length_cons] at hlen
      obtain ⟨out, hout, hsorts⟩ := ih h' (by omega)
      refine ⟨v :: out, by simp [drain, hrun, hout], (hsorts.perm.cons v).trans hperm.symm,
        List.pairwise_cons.mpr ⟨fun w hw => hmax w ?_, hsorts.sorted⟩⟩
      exact hperm.mem_iff.mpr (mem_cons_of_mem v (hsorts.perm.mem_iff.mp hw))

/-- **The heaps.** Both builders make a heap of any vector, and both heaps are drained to the same
list. On a heap, `insert` adds the entry and `removeMax` takes out a greatest one; what is left is a
heap. -/
theorem heaps_spec (nums heap : List ℤ) (x : ℤ) (h : IsMaxHeap heap) :
    (∃ heap₁ heap₂ out, buildHeapDownUp nums = some heap₁ ∧ heap₁.Perm nums ∧ IsMaxHeap heap₁ ∧
      buildHeapUpDown nums = some heap₂ ∧ heap₂.Perm nums ∧ IsMaxHeap heap₂ ∧
      drain (nums.length + 1) heap₁ = some out ∧ drain (nums.length + 1) heap₂ = some out ∧
      out.Pairwise fun a b => b ≤ a) ∧
    (∃ heap', insert heap x = some (heap', true) ∧ heap'.Perm (x :: heap) ∧ IsMaxHeap heap') ∧
    ∃ heap' v, removeMax heap = some (heap', v) ∧ heap.Perm (v.toList ++ heap') ∧
      IsMaxHeap heap' ∧ (v = none ↔ heap = []) ∧ ∀ m, v = some m → ∀ w ∈ heap, w ≤ m := by
  refine ⟨?_, exists_insert h x, ?_⟩
  · obtain ⟨heap₁, hrun₁, hperm₁, hheap₁⟩ := exists_buildHeapDownUp nums
    obtain ⟨heap₂, hrun₂, hperm₂, hheap₂⟩ := exists_buildHeapUpDown nums
    obtain ⟨out, hout, hsorts⟩ := exists_drain hheap₁
      (Nat.lt_succ_of_le hperm₁.length_eq.le)
    obtain ⟨out₂, hout₂, hsorts₂⟩ := exists_drain hheap₂
      (Nat.lt_succ_of_le hperm₂.length_eq.le)
    have hanti : Std.Antisymm fun a b : ℤ => b ≤ a := ⟨fun a b hab hba => le_antisymm hba hab⟩
    obtain rfl : out = out₂ := SortsTo.unique hsorts
      ⟨hsorts₂.perm.trans (hperm₂.trans hperm₁.symm), hsorts₂.sorted⟩
    exact ⟨heap₁, heap₂, out, hrun₁, hperm₁, hheap₁, hrun₂, hperm₂, hheap₂, hout, hout₂,
      hsorts.sorted⟩
  · rcases eq_or_ne heap [] with rfl | hne
    · exact ⟨[], none, rfl, List.Perm.refl _, h, iff_of_true rfl rfl, fun m hm => by cases hm⟩
    · obtain ⟨heap', v, hrun, hperm, hheap', hmax⟩ := exists_removeMax h hne
      exact ⟨heap', some v, hrun, hperm, hheap', iff_of_false (Option.some_ne_none v) hne,
        fun m hm => Option.some.inj hm ▸ hmax⟩

/-- Three entries, and a heap of four in which a new entry rises and the last one sinks. -/
theorem heaps_example :
    (∃ heap₁ heap₂ out, buildHeapDownUp [1, 2, 3] = some heap₁ ∧ heap₁.Perm [1, 2, 3] ∧
      IsMaxHeap heap₁ ∧ buildHeapUpDown [1, 2, 3] = some heap₂ ∧ heap₂.Perm [1, 2, 3] ∧
      IsMaxHeap heap₂ ∧ drain (3 + 1) heap₁ = some out ∧ drain (3 + 1) heap₂ = some out ∧
      out.Pairwise fun a b => b ≤ a) ∧
    (∃ heap', insert [9, 5, 8, 1] 10 = some (heap', true) ∧ heap'.Perm [10, 9, 5, 8, 1] ∧
      IsMaxHeap heap') ∧
    ∃ heap' v, removeMax [9, 5, 8, 1] = some (heap', v) ∧ [9, 5, 8, 1].Perm (v.toList ++ heap') ∧
      IsMaxHeap heap' ∧ (v = none ↔ [9, 5, 8, 1] = ([] : List ℤ)) ∧
      ∀ m, v = some m → ∀ w ∈ [9, 5, 8, 1], w ≤ m := by
  refine heaps_spec [1, 2, 3] [9, 5, 8, 1] 10 fun i a b hi ha hb => ?_
  have hlt : i < 4 := (List.getElem?_eq_some_iff.mp ha).1
  obtain rfl | rfl | rfl : i = 1 ∨ i = 2 ∨ i = 3 := by omega
  all_goals cases ha; cases hb; decide

end RustExample.HeapifyDownUp
