import RustExample.Foundation.Loops
import RustExample.Foundation.Sorting

/-!
# Sorting by exchanges

Bubble sort, insertion sort with gaps, and selection sort of a vector in place. Each of them brings
more pairs of positions in order.

Source: `sort_algorithm_example/src/lib.rs`.

* A position outside the vector, and a difference of unsigned numbers below zero, is `none`. A
  `while` loop takes a bound on its rounds, and is `none` where the bound is too small.
* Entries and positions are natural numbers. The sums of positions, the gaps and the counts of
  entries stay below the greatest `usize`, for a vector in memory.
-/

namespace RustExample.SortAlgorithm

open List

/-- The algorithm ends without a failure, with the entries of the vector in order. -/
def Sorts (sort : List ℕ → Option (List ℕ)) (nums : List ℕ) : Prop :=
  ∃ sorted, sort nums = some sorted ∧ SortsTo (· ≤ ·) nums sorted

/-! ### The algorithms -/

/-- The body of the inner loop of bubble sort. -/
def bubbleAt (i : ℕ) (nums : List ℕ) : Option (List ℕ) := do
  let j ← checkedSub i 1
  if (← nums[i]?) < (← nums[j]?) then swapAt nums j i else some nums

/-- Exchanges neighbours. -/
def bubbleSort (nums : List ℕ) : Option (List ℕ) :=
  forRange 1 nums.length (fun _ nums => forRange 1 nums.length bubbleAt nums) nums

/-- One round of the `while` loop of an insertion: the vector and the position that is free. -/
def shiftRound (g v : ℕ) : List ℕ × ℕ → Option (Round (List ℕ × ℕ) (List ℕ × ℕ))
  | (nums, p) =>
    if g ≤ p then do
      let x ← nums[p - g]?
      if v < x then some (.again (← putAt nums p x, p - g)) else some (.done (nums, p))
    else some (.done (nums, p))

/-- The body of the loop of an insertion sort with gap `g`. -/
def insertAt (g i : ℕ) (nums : List ℕ) : Option (List ℕ) := do
  let v ← nums[i]?
  let (nums, p) ← loop (shiftRound g v) (i + 1) (nums, i)
  putAt nums p v

/-- `_insert_sort` -/
def gapInsertSort (g : ℕ) (nums : List ℕ) : Option (List ℕ) :=
  forRange g nums.length (insertAt g) nums

/-- The loop of this one compares with the entry before: it is the one with gap one. -/
def insertSort (nums : List ℕ) : Option (List ℕ) := gapInsertSort 1 nums

/-- One round of the loop that makes the gaps, the greatest first. -/
def gapRound (n : ℕ) (a : List ℕ) : Option (Round (List ℕ) (List ℕ)) := do
  let front ← a.head?
  if front ≤ n then some (.again ((3 * front + 1) :: a)) else some (.done a)

/-- Inserts with gaps that get smaller. -/
def shellSort (nums : List ℕ) : Option (List ℕ) := do
  let a ← loop (gapRound nums.length) (nums.length + 1) [1]
  forEach a gapInsertSort nums

/-- The body of the inner loop of selection sort: the position of the least entry so far. -/
def selectAt (nums : List ℕ) (j p : ℕ) : Option ℕ := do
  if (← nums[j]?) < (← nums[p]?) then some j else some p

/-- Moves the least number to its place. -/
def selectionSort (nums : List ℕ) : Option (List ℕ) := do
  forRange 0 (← checkedSub nums.length 1)
    (fun i nums => do swapAt nums i (← forRange (i + 1) nums.length (selectAt nums) i)) nums

/-! ### Bubble sort -/

variable {nums s : List ℕ} {g i j k p v x y : ℕ}

/-- A pass of bubble sort by then: the entries from `k` on are in order and not less than those
before, and so is that before `i`. -/
def Bubbling (nums : List ℕ) (k i : ℕ) (s : List ℕ) : Prop :=
  s.Perm nums ∧ OrderedAt (fun _ b => k ≤ b ∨ b + 1 = min i k) s

theorem Bubbling.exists_bubbleAt (h : Bubbling nums k i s) (hi : 1 ≤ i) (hlt : i < nums.length) :
    ∃ s', bubbleAt i s = some s' ∧ Bubbling nums k (i + 1) s' := by
  obtain ⟨hperm, hord⟩ := h
  have hlen := hperm.length_eq
  have hx : s[i - 1]? = some s[i - 1] := getElem?_eq_getElem (by omega)
  have hy : s[i]? = some s[i] := getElem?_eq_getElem (by omega)
  by_cases hswap : s[i] < s[i - 1]
  · have hik : i < k := by
      by_contra hge
      have := hord (i - 1) i _ _ (by omega) (.inl (by omega)) hx hy
      omega
    obtain ⟨s', hrun, hperm', hget⟩ := exists_swapAt (l := s) (i := i - 1) (j := i)
      (by omega) (by omega)
    refine ⟨s', ?_, hperm'.trans hperm, fun a b u w hab hb hu hw => ?_⟩
    · rw [bubbleAt, checkedSub_of_le hi]
      simp [hx, hy, hswap, hrun]
    · rw [hget] at hu hw
      by_cases hbi : b = i
      · rw [hbi, Equiv.swap_apply_right, hx] at hw
        obtain ⟨⟩ := hw
        by_cases hai : a = i - 1
        · rw [hai, Equiv.swap_apply_left, hy] at hu
          obtain ⟨⟩ := hu
          exact hswap.le
        · rw [Equiv.swap_apply_of_ne_of_ne hai (by omega)] at hu
          exact hord a (i - 1) _ _ (by omega) (.inr (by omega)) hu hx
      · have hbk : k ≤ b := by omega
        rw [Equiv.swap_apply_of_ne_of_ne (by omega) hbi] at hw
        refine hord _ b _ _ ?_ (.inl hbk) hu hw
        rw [Equiv.swap_apply_def]
        split_ifs <;> omega
  · refine ⟨s, ?_, hperm, fun a b u w hab hb hu hw => ?_⟩
    · rw [bubbleAt, checkedSub_of_le hi]
      simp [hx, hy, hswap]
    · by_cases hold : k ≤ b ∨ b + 1 = min i k
      · exact hord a b u w hab hold hu hw
      · obtain rfl : b = i := by omega
        rw [hy] at hw
        obtain ⟨⟩ := hw
        by_cases hai : a = b - 1
        · rw [hai, hx] at hu
          obtain ⟨⟩ := hu
          omega
        · have := hord a (b - 1) _ _ (by omega) (.inr (by omega)) hu hx
          omega

theorem sorts_bubbleSort (nums : List ℕ) : Sorts bubbleSort nums := by
  by_cases hshort : nums.length ≤ 1
  · refine ⟨nums, forRange_of_le hshort _ _, List.Perm.refl _, ?_⟩
    rw [pairwise_iff_getElem]
    intro a b ha hb hab
    omega
  · have hloop : ∃ s, bubbleSort nums = some s ∧ s.Perm nums ∧
        OrderedAt (fun _ b => nums.length - nums.length + 1 ≤ b) s := by
      refine forRange_spec (I := fun pass s => List.Perm s nums ∧
        OrderedAt (fun _ b => nums.length - pass + 1 ≤ b) s) (by omega) ?_ ?_
      · refine ⟨List.Perm.refl _, fun a b u w hab hb _ hw => ?_⟩
        have := (List.getElem?_eq_some_iff.mp hw).1
        omega
      · rintro pass s hpass hlt ⟨hperm, hord⟩
        have hlen := hperm.length_eq
        have hpassed : ∃ s', forRange 1 s.length bubbleAt s = some s' ∧
            Bubbling nums (nums.length - pass + 1) nums.length s' := by
          rw [hlen]
          refine forRange_spec (I := Bubbling nums (nums.length - pass + 1)) (by omega) ?_ ?_
          · refine ⟨hperm, fun a b u w hab hb => hord a b u w hab ?_⟩
            omega
          · exact fun i s hi hlt hs => hs.exists_bubbleAt hi hlt
        obtain ⟨s', hrun, hperm', hord'⟩ := hpassed
        refine ⟨s', hrun, hperm', hord'.mono fun a b hab hb hle => ?_⟩
        rw [hperm'.length_eq] at hb
        omega
    obtain ⟨s, hrun, hperm, hord⟩ := hloop
    exact ⟨s, hrun, hperm, hord.pairwise fun a b hab hb => by omega⟩

/-! ### Insertion with gaps -/

/-- Entries a multiple of the gap apart are in order, up to a position. -/
def GapOrdered (g i : ℕ) (s : List ℕ) : Prop := OrderedAt (fun a b => b < i ∧ g ∣ b - a) s

/-- An insertion by then: with `v` at the free position, entries a multiple of the gap apart are in
order up to `i`, but for those before it. -/
structure Inserting (nums : List ℕ) (g i v : ℕ) (s : List ℕ) (p : ℕ) : Prop where
  le : p ≤ i
  lt : i < s.length
  perm : (s.set p v).Perm nums
  ordered : OrderedAt (fun a b => b ≤ i ∧ b ≠ p ∧ g ∣ b - a) (s.set p v)

theorem Inserting.move (h : Inserting nums g i v s p) (hg : 1 ≤ g) (hgp : g ≤ p)
    (hx : s[p - g]? = some x) (hvx : v < x) : Inserting nums g i v (s.set p x) (p - g) := by
  have hle := h.le
  have hlt := h.lt
  have hx' : (s.set p v)[p - g]? = some x := by rw [getElem?_set_ne (by omega), hx]
  have hv' : (s.set p v)[p]? = some v := getElem?_set_self (by omega)
  -- with the entry in place, two positions are exchanged
  obtain ⟨t, hrun, hperm, hget⟩ := exists_swapAt (l := s.set p v) (i := p) (j := p - g)
    (by rw [List.length_set]; omega) (by rw [List.length_set]; omega)
  obtain rfl : (s.set p x).set (p - g) v = t := by
    rw [swapAt, hv', hx'] at hrun
    simpa using hrun
  refine ⟨by omega, by rw [List.length_set]; omega, hperm.trans h.perm, ?_⟩
  rintro a b u w hab ⟨hbi, hbp, hdvd⟩ hu hw
  obtain ⟨d, hd⟩ := hdvd
  rw [hget] at hu hw
  have hfree : Equiv.swap p (p - g) p = p - g := Equiv.swap_apply_left _ _
  have hnext : Equiv.swap p (p - g) (p - g) = p := Equiv.swap_apply_right _ _
  by_cases hb : b = p
  · rw [hb, hfree, hx'] at hw
    obtain ⟨⟩ := hw
    by_cases ha : a = p - g
    · rw [ha, hnext, hv'] at hu
      obtain ⟨⟩ := hu
      exact hvx.le
    · rw [Equiv.swap_apply_of_ne_of_ne (by omega) ha] at hu
      have hlong : g ≤ b - a := Nat.le_of_dvd (by omega) ⟨d, hd⟩
      exact h.ordered a (p - g) u _ (by omega) ⟨by omega, by omega, by
        rw [show p - g - a = b - a - g by omega]
        exact Nat.dvd_sub ⟨d, hd⟩ (Nat.dvd_refl g)⟩ hu hx'
  · rw [Equiv.swap_apply_of_ne_of_ne hb hbp] at hw
    by_cases ha : a = p
    · rw [ha, hfree] at hu
      exact h.ordered (p - g) b u w (by omega) ⟨hbi, hb, by
        rw [show b - (p - g) = b - a + g by omega]
        exact Nat.dvd_add ⟨d, hd⟩ (Nat.dvd_refl g)⟩ hu hw
    · by_cases ha' : a = p - g
      · rw [ha', hnext] at hu
        have hlong : g ≤ b - a := Nat.le_of_dvd (by omega) ⟨d, hd⟩
        exact h.ordered p b u w (by omega) ⟨hbi, hb, by
          rw [show b - p = b - a - g by omega]
          exact Nat.dvd_sub ⟨d, hd⟩ (Nat.dvd_refl g)⟩ hu hw
      · rw [Equiv.swap_apply_of_ne_of_ne ha ha'] at hu
        exact h.ordered a b u w hab ⟨hbi, hb, d, hd⟩ hu hw

theorem Inserting.stop (h : Inserting nums g i v s p) (hg : 1 ≤ g)
    (hstop : ∀ x, g ≤ p → s[p - g]? = some x → x ≤ v) : GapOrdered g (i + 1) (s.set p v) := by
  have hle := h.le
  have hlt := h.lt
  rintro a b u w hab ⟨hbi, hdvd⟩ hu hw
  by_cases hb : b = p
  · subst hb
    rw [getElem?_set_self (by omega)] at hw
    obtain ⟨⟩ := hw
    have hlong : g ≤ b - a := Nat.le_of_dvd (by omega) hdvd
    obtain ⟨x, hx⟩ : ∃ x, s[b - g]? = some x := ⟨_, getElem?_eq_getElem (by omega)⟩
    have hxv := hstop x (by omega) hx
    by_cases ha : a = b - g
    · rw [ha, getElem?_set_ne (by omega), hx] at hu
      obtain ⟨⟩ := hu
      exact hxv
    · have hux := h.ordered a (b - g) u x (by omega) ⟨by omega, by omega, by
        rw [show b - g - a = b - a - g by omega]
        exact Nat.dvd_sub hdvd (Nat.dvd_refl g)⟩ hu (by
        rw [getElem?_set_ne (by omega), hx])
      omega
  · exact h.ordered a b u w hab ⟨by omega, hb, hdvd⟩ hu hw

theorem exists_insertAt (hg : 1 ≤ g) (hperm : s.Perm nums) (hord : GapOrdered g i s)
    (hlt : i < nums.length) :
    ∃ s', insertAt g i s = some s' ∧ s'.Perm nums ∧ GapOrdered g (i + 1) s' := by
  rw [← hperm.length_eq] at hlt
  have hstart : Inserting nums g i s[i] s i := by
    refine ⟨Nat.le_refl i, hlt, by rwa [set_getElem_self], ?_⟩
    rw [set_getElem_self]
    exact hord.mono fun a b _ _ ⟨hbi, hne, hdvd⟩ => ⟨by omega, hdvd⟩
  have hloop : ∃ r : List ℕ × ℕ, loop (shiftRound g s[i]) (i + 1) (s, i) = some r ∧
      r.2 < r.1.length ∧ (r.1.set r.2 s[i]).Perm nums ∧
        GapOrdered g (i + 1) (r.1.set r.2 s[i]) := by
    refine loop_spec (I := fun t : List ℕ × ℕ => Inserting nums g i s[i] t.1 t.2) Prod.snd ?_
      hstart (Nat.lt_succ_self i)
    rintro ⟨t, p⟩ h
    dsimp only at h ⊢
    have hle := h.le
    have hlen := h.lt
    by_cases hgp : g ≤ p
    · have hx : t[p - g]? = some t[p - g] := getElem?_eq_getElem (by omega)
      by_cases hvx : s[i] < t[p - g]
      · refine .inl ⟨(t.set p t[p - g], p - g), ?_, h.move hg hgp hx hvx, by dsimp only; omega⟩
        simp [shiftRound, hgp, hx, hvx, putAt_of_lt (show p < t.length by omega)]
      · refine .inr ⟨(t, p), by simp [shiftRound, hgp, hx, hvx], by dsimp only; omega, h.perm, ?_⟩
        refine h.stop hg fun x _ hx' => ?_
        obtain ⟨⟩ := hx.symm.trans hx'
        omega
    · refine .inr ⟨(t, p), by simp [shiftRound, hgp], by dsimp only; omega, h.perm, ?_⟩
      exact h.stop hg fun x hgp' => absurd hgp' hgp
  obtain ⟨⟨t, p⟩, hrun, hpt, hperm', hord'⟩ := hloop
  refine ⟨t.set p s[i], ?_, hperm', hord'⟩
  simp [insertAt, hlt, hrun, putAt_of_lt hpt]

/-- **Insertion with a gap** brings the entries a multiple of it apart in order. -/
theorem exists_gapInsertSort (hg : 1 ≤ g) (nums : List ℕ) :
    ∃ s, gapInsertSort g nums = some s ∧ s.Perm nums ∧ GapOrdered g nums.length s := by
  -- two positions below the gap are no multiple of it apart
  have hstart : ∀ n, n ≤ g → GapOrdered g n nums := by
    rintro n hn a b u w hab ⟨hbn, hdvd⟩
    have := Nat.le_of_dvd (by omega) hdvd
    omega
  rcases Nat.lt_or_ge nums.length g with hlt | hge
  · exact ⟨nums, forRange_of_le hlt.le _ _, List.Perm.refl _, hstart _ hlt.le⟩
  · refine forRange_spec (I := fun i s => List.Perm s nums ∧ GapOrdered g i s) hge
      ⟨List.Perm.refl _, hstart g (Nat.le_refl g)⟩ ?_
    rintro i s _ hi ⟨hperm, hord⟩
    exact exists_insertAt hg hperm hord hi

theorem GapOrdered.pairwise (h : GapOrdered 1 s.length s) : s.Pairwise (· ≤ ·) :=
  OrderedAt.pairwise h fun _ _ _ hb => ⟨hb, Nat.one_dvd _⟩

theorem sorts_insertSort (nums : List ℕ) : Sorts insertSort nums := by
  obtain ⟨s, hrun, hperm, hord⟩ := exists_gapInsertSort (Nat.le_refl 1) nums
  rw [← hperm.length_eq] at hord
  exact ⟨s, hrun, hperm, hord.pairwise⟩

/-- The gaps are positive, and the last one is one. -/
theorem exists_gaps (n : ℕ) : ∃ a, loop (gapRound n) (n + 1) [1] = some a ∧
    (∀ g ∈ a, 1 ≤ g) ∧ a.getLast? = some 1 := by
  refine loop_spec (I := fun a : List ℕ => ∃ front gaps, a = front :: gaps ∧ (∀ g ∈ a, 1 ≤ g) ∧
    a.getLast? = some 1) (fun a => n + 1 - a.headD 0) ?_ ⟨1, [], rfl, by simp, rfl⟩
    (by rw [headD_cons]; omega)
  rintro _ ⟨front, gaps, rfl, hpos, hlast⟩
  have hfront : 1 ≤ front := hpos front mem_cons_self
  by_cases hle : front ≤ n
  · refine .inl ⟨(3 * front + 1) :: front :: gaps, by simp [gapRound, hle],
      ⟨3 * front + 1, front :: gaps, rfl, ?_, ?_⟩, ?_⟩
    · intro g hg
      rcases List.mem_cons.mp hg with rfl | hg
      · omega
      · exact hpos g hg
    · rw [getLast?_cons_cons, hlast]
    · simp only [headD_cons]
      omega
  · exact .inr ⟨front :: gaps, by simp [gapRound, hle], hpos, hlast⟩

theorem sorts_shellSort (nums : List ℕ) : Sorts shellSort nums := by
  obtain ⟨a, hgaps, hpos, hlast⟩ := exists_gaps nums.length
  have hloop : ∃ s, forEach a gapInsertSort nums = some s ∧ s.Perm nums ∧
      (a.getLast? = some 1 → s.Pairwise (· ≤ ·)) := by
    refine forEach_spec (I := fun done s => List.Perm s nums ∧
      (done.getLast? = some 1 → List.Pairwise (· ≤ ·) s)) ⟨List.Perm.refl _, nofun⟩ ?_
    rintro before g after s hl ⟨hperm, -⟩
    obtain ⟨s', hrun, hperm', hord⟩ := exists_gapInsertSort (hpos g (by simp [hl])) s
    refine ⟨s', hrun, hperm'.trans hperm, fun hone => ?_⟩
    rw [getLast?_concat] at hone
    obtain ⟨⟩ := hone
    rw [← hperm'.length_eq] at hord
    exact hord.pairwise
  obtain ⟨s, hrun, hperm, hsorted⟩ := hloop
  exact ⟨s, by rw [shellSort, hgaps]; exact hrun, hperm, hsorted hlast⟩

/-! ### Selection -/

/-- The inner loop finds the least entry from a position on. -/
theorem exists_least (hi : i < s.length) :
    ∃ p y, forRange (i + 1) s.length (selectAt s) i = some p ∧ i ≤ p ∧ s[p]? = some y ∧
      ∀ k x, i ≤ k → s[k]? = some x → y ≤ x := by
  have hloop : ∃ p, forRange (i + 1) s.length (selectAt s) i = some p ∧
      i ≤ p ∧ ∃ y, s[p]? = some y ∧ ∀ k x, i ≤ k → k < s.length → s[k]? = some x → y ≤ x := by
    refine forRange_spec (I := fun j p => i ≤ p ∧ ∃ y, s[p]? = some y ∧
      ∀ k x, i ≤ k → k < j → s[k]? = some x → y ≤ x) hi ?_ ?_
    · refine ⟨Nat.le_refl i, s[i], getElem?_eq_getElem hi, fun k x hik hk hx => ?_⟩
      obtain rfl : k = i := by omega
      rw [getElem?_eq_getElem hi] at hx
      exact (Option.some.inj hx).le
    · rintro j p hij hj ⟨hip, y, hy, hleast⟩
      have hx : s[j]? = some s[j] := getElem?_eq_getElem hj
      by_cases hlt : s[j] < y
      · refine ⟨j, by simp [selectAt, hx, hy, hlt], by omega, s[j], hx, fun k x hik hk hkx => ?_⟩
        by_cases hkj : k = j
        · rw [hkj, hx] at hkx
          exact (Option.some.inj hkx).le
        · have := hleast k x hik (by omega) hkx
          omega
      · refine ⟨p, by simp [selectAt, hx, hy, hlt], hip, y, hy, fun k x hik hk hkx => ?_⟩
        by_cases hkj : k = j
        · rw [hkj, hx] at hkx
          rw [← Option.some.inj hkx]
          omega
        · exact hleast k x hik (by omega) hkx
  obtain ⟨p, hrun, hip, y, hy, hleast⟩ := hloop
  exact ⟨p, y, hrun, hip, hy, fun k x hik hx =>
    hleast k x hik (List.getElem?_eq_some_iff.mp hx).1 hx⟩

/-- The least entry comes to the position: entries up to there are in order with the rest. -/
theorem exists_select (hord : OrderedAt (fun a _ => a < i) s) (hi : i < s.length) :
    ∃ p s', forRange (i + 1) s.length (selectAt s) i = some p ∧ swapAt s i p = some s' ∧
      s'.Perm s ∧ OrderedAt (fun a _ => a < i + 1) s' := by
  obtain ⟨p, y, hrun, hip, hy, hleast⟩ := exists_least hi
  have hp : p < s.length := (List.getElem?_eq_some_iff.mp hy).1
  obtain ⟨s', hswap, hperm, hget⟩ := exists_swapAt hi hp
  refine ⟨p, s', hrun, hswap, hperm, fun a b u w hab ha hu hw => ?_⟩
  have hge : ∀ c, i ≤ c → i ≤ Equiv.swap i p c := by
    intro c hc
    rw [Equiv.swap_apply_def]
    split_ifs <;> omega
  rw [hget] at hu hw
  by_cases hai : a = i
  · rw [hai, Equiv.swap_apply_left, hy] at hu
    obtain ⟨⟩ := hu
    exact hleast _ w (hge b (by omega)) hw
  · rw [Equiv.swap_apply_of_ne_of_ne hai (by omega)] at hu
    refine hord a _ u w ?_ (by omega) hu hw
    by_cases hbi : i ≤ b
    · have := hge b hbi
      omega
    · rw [Equiv.swap_apply_of_ne_of_ne (by omega) (by omega)]
      exact hab

theorem exists_selectionSort (hne : nums ≠ []) : Sorts selectionSort nums := by
  have hpos : 1 ≤ nums.length := length_pos_of_ne_nil hne
  have hloop : ∃ s, forRange 0 (nums.length - 1)
      (fun i nums => do swapAt nums i (← forRange (i + 1) nums.length (selectAt nums) i)) nums =
        some s ∧ s.Perm nums ∧ OrderedAt (fun a _ => a < nums.length - 1) s := by
    refine forRange_spec (I := fun i s => List.Perm s nums ∧ OrderedAt (fun a _ => a < i) s)
      (Nat.zero_le _) ⟨List.Perm.refl _, fun a b u w _ ha => absurd ha (Nat.not_lt_zero a)⟩ ?_
    rintro i s _ hi ⟨hperm, hord⟩
    obtain ⟨p, s', hrun, hswap, hperm', hord'⟩ := exists_select hord
      (by rw [hperm.length_eq]; omega)
    exact ⟨s', by simp [hrun, hswap], hperm'.trans hperm, hord'⟩
  obtain ⟨s, hrun, hperm, hord⟩ := hloop
  refine ⟨s, by rw [selectionSort, checkedSub_of_le hpos]; exact hrun, hperm, ?_⟩
  exact hord.pairwise fun a b hab hb => by rw [hperm.length_eq] at hb; omega

/-- **Selection sort** fails on the empty vector only. -/
theorem sorts_selectionSort_iff : Sorts selectionSort nums ↔ nums ≠ [] := by
  refine ⟨?_, exists_selectionSort⟩
  rintro ⟨s, hrun, -⟩ rfl
  cases hrun

end RustExample.SortAlgorithm
