import RustExample.Foundation.Loops
import RustExample.Foundation.SuffixMaxima

/-!
# The maximum of a sliding window

The deque holds the entries of the window that no later one exceeds. A new entry drives out the
smaller ones at the back, and the entry that leaves the window is at the front or gone.

Source: `leetcode_workspace_example/leetcode_sliding_window_maximum_example/src/main.rs`.

* The entries are integers, since they are only compared. The size of the window is a number of 32
  bits with a sign, as in the source.
* The front of the deque is the head of a list.
-/

namespace RustExample.SlidingWindow

open List

/-! ### The operations -/

/-- A round of the loop of `push`. -/
def pushRound (n : ℤ) (deque : List ℤ) : Option (Round (List ℤ) (List ℤ)) :=
  match deque.getLast? with
  | some back => if back < n then some (.again deque.dropLast) else some (.done deque)
  | none => some (.done deque)

/-- Adds a number behind the greater ones. -/
def push (deque : List ℤ) (n : ℤ) : Option (List ℤ) := do
  some ((← loop (pushRound n) (deque.length + 1) deque) ++ [n])

/-- Removes the number, if it is first. -/
def pop (deque : List ℤ) (n : ℤ) : List ℤ := if deque.head? = some n then deque.tail else deque

/-- The first number. -/
def max (deque : List ℤ) : Option ℤ := deque.head?

/-- `k - 1` -/
def lastOf (k : Int32) : Option Int32 := if k = Int32.minValue then none else some (k - 1)

/-- `k as usize` -/
def asUsize (k : Int32) : ℕ := (k.toInt % 2 ^ 64).toNat

/-- The body of the loop of `max_sliding_window`. -/
def windowAt (nums : List ℤ) (k : Int32) (i : ℕ) : List ℤ × List ℤ → Option (List ℤ × List ℤ)
  | (res, deque) => do
    let deque ← push deque (← nums[i]?)
    let last ← lastOf k
    if last < Int32.ofNat i then do
      let deque := pop deque (← nums[← checkedSub i (asUsize k)]?)
      some (res ++ [← max deque], deque)
    else if Int32.ofNat i = last then some (res ++ [← max deque], deque)
    else some (res, deque)

/-- The maxima of the windows. -/
def maxSlidingWindow (nums : List ℤ) (k : Int32) : Option (List ℤ) :=
  if nums.length = 0 ∨ k = 1 then some nums
  else do
    let (res, _) ← forRange 0 nums.length (windowAt nums k) ([], [])
    some res

/-! ### The deque of a window -/

variable {nums deque res w : List ℤ} {k : Int32} {i n : ℕ} {a m : ℤ}

/-- The smaller entries at the back are driven out. -/
theorem exists_push (deque : List ℤ) (a : ℤ) :
    push deque a = some (deque.rdropWhile (· < a) ++ [a]) := by
  suffices h : ∃ r, loop (pushRound a) (deque.length + 1) deque = some r ∧
      r = deque.rdropWhile (· < a) by
    obtain ⟨r, hrun, rfl⟩ := h
    rw [push, hrun]
    rfl
  refine loop_spec (I := fun d => d.rdropWhile (· < a) = deque.rdropWhile (· < a)) List.length
    (fun d hd => ?_) rfl (Nat.lt_succ_self _)
  rcases eq_nil_or_concat d with rfl | ⟨d, back, rfl⟩
  · exact .inr ⟨[], rfl, hd⟩
  rw [concat_eq_append] at hd ⊢
  by_cases hlt : back < a
  · rw [rdropWhile_concat_pos _ _ _ (by simpa using hlt)] at hd
    exact .inl ⟨d, by simp [pushRound, hlt], hd, by simp⟩
  · rw [rdropWhile_concat_neg _ _ _ (by simpa using hlt)] at hd
    exact .inr ⟨d ++ [back], by simp [pushRound, hlt], hd⟩

theorem push_suffixMaxima (w : List ℤ) (a : ℤ) :
    push (suffixMaxima w) a = some (suffixMaxima (w ++ [a])) := by
  rw [exists_push, suffixMaxima_concat]

theorem pop_suffixMaxima (a : ℤ) (w : List ℤ) :
    pop (suffixMaxima (a :: w)) a = suffixMaxima w := (suffixMaxima_tail a w).symm

/-! ### The windows -/

theorem exists_lastOf (hk : k.toInt = n) (hn : 0 < n) :
    ∃ last, lastOf k = some last ∧ last.toInt = n - 1 := by
  have hmin : k ≠ Int32.minValue := by
    rintro rfl
    have hneg : Int32.minValue.toInt = -2147483648 := rfl
    omega
  have hone : (1 : Int32).toInt = 1 := rfl
  refine ⟨k - 1, if_neg hmin, ?_⟩
  rw [Int32.toInt_sub_of_le k 1 (by decide) (Int32.le_iff_toInt_le.mpr (by omega)), hone, hk]

theorem asUsize_eq (hk : k.toInt = n) : asUsize k = n := by
  have hlt := k.toInt_lt
  rw [asUsize, Int.emod_eq_of_lt (by omega) (by omega), hk, Int.toNat_natCast]

/-- Before the entry at `i` is read: the deque is that of the last `n` entries, and the maxima of
the complete windows are found. -/
def WindowInvariant (nums : List ℤ) (n i : ℕ) : List ℤ × List ℤ → Prop
  | (res, deque) => deque = suffixMaxima ((nums.take i).drop (i - n)) ∧
      res.length = i + 1 - n ∧
      ∀ j m, res[j]? = some m → IsGreatest {a | a ∈ (nums.drop j).take n} m

theorem exists_max (hi : i < nums.length) (hn : 0 < n) (hni : n ≤ i + 1) :
    ∃ m, max (suffixMaxima ((nums.take (i + 1)).drop (i + 1 - n))) = some m ∧
      IsGreatest {a | a ∈ (nums.drop (i + 1 - n)).take n} m := by
  have hwindow : (nums.take (i + 1)).drop (i + 1 - n) = (nums.drop (i + 1 - n)).take n := by
    rw [drop_take, Nat.sub_sub_self hni]
  have hne : (nums.drop (i + 1 - n)).take n ≠ [] := by
    refine ne_nil_of_length_pos ?_
    rw [length_take, length_drop]
    omega
  rw [hwindow]
  obtain ⟨m, hm⟩ := exists_head?_suffixMaxima hne
  exact ⟨m, hm, isGreatest_of_head?_suffixMaxima hm⟩

theorem greatest_concat
    (h : ∀ j m, res[j]? = some m → IsGreatest {a | a ∈ (nums.drop j).take n} m)
    (hm : IsGreatest {a | a ∈ (nums.drop res.length).take n} m) (j : ℕ) (m' : ℤ)
    (hj : (res ++ [m])[j]? = some m') : IsGreatest {a | a ∈ (nums.drop j).take n} m' := by
  rcases Nat.lt_trichotomy j res.length with hlt | rfl | hgt
  · rw [getElem?_append_left hlt] at hj
    exact h j m' hj
  · rw [getElem?_append_cons, Option.some_inj] at hj
    exact hj ▸ hm
  · rw [getElem?_eq_none (by simp; omega)] at hj
    cases hj

theorem exists_windowAt (hk : k.toInt = n) (hn : 0 < n) (hlen : nums.length < 2 ^ 31)
    (hi : i < nums.length) {s : List ℤ × List ℤ} (hs : WindowInvariant nums n i s) :
    ∃ s', windowAt nums k i s = some s' ∧ WindowInvariant nums n (i + 1) s' := by
  obtain ⟨res, deque⟩ := s
  obtain ⟨rfl, hres, hmax⟩ := hs
  obtain ⟨last, hlast, hlastInt⟩ := exists_lastOf hk hn
  have hiInt : (Int32.ofNat i).toInt = i := Int32.toInt_ofNat_of_lt (by omega)
  have hget := getElem?_eq_getElem hi
  have hpush := push_suffixMaxima ((nums.take i).drop (i - n)) nums[i]
  rw [← drop_append_of_le_length (by rw [length_take]; omega),
    ← take_succ_eq_append_getElem hi] at hpush
  rcases lt_or_ge i n with hlt | hge
  · -- the window is not full yet, or just full
    have hzero : i + 1 - n = i - n := by omega
    by_cases hlastEntry : i + 1 = n
    · have hsame : Int32.ofNat i = last := Int32.toInt.inj (by omega)
      obtain ⟨m, hm, hgreat⟩ := exists_max hi hn hlastEntry.ge
      refine ⟨(res ++ [m], suffixMaxima ((nums.take (i + 1)).drop (i + 1 - n))), ?_, rfl,
        by simp; omega, greatest_concat hmax (hres ▸ hgreat)⟩
      rw [hzero] at hm ⊢
      simp [windowAt, hget, hpush, hlast, hsame, hm]
    · have hshort : ¬ last < Int32.ofNat i := by
        rw [Int32.lt_iff_toInt_lt]
        omega
      have hne : Int32.ofNat i ≠ last := fun h => by
        rw [h] at hiInt
        omega
      refine ⟨(res, suffixMaxima ((nums.take (i + 1)).drop (i + 1 - n))), ?_, rfl, by omega, hmax⟩
      simp [windowAt, hget, hzero, hpush, hlast, hshort, hne]
  · -- one entry enters the window and one leaves it
    have hlong : last < Int32.ofNat i := by
      rw [Int32.lt_iff_toInt_lt]
      omega
    obtain ⟨m, hm, hgreat⟩ := exists_max hi hn (by omega)
    have hleave : i - n < (nums.take (i + 1)).length := by
      rw [length_take]
      omega
    have hfirst : (nums.take (i + 1)).drop (i - n) =
        nums[i - n] :: (nums.take (i + 1)).drop (i + 1 - n) := by
      rw [drop_eq_getElem_cons hleave, getElem_take, Nat.sub_add_comm hge]
    rw [hfirst] at hpush
    refine ⟨(res ++ [m], suffixMaxima ((nums.take (i + 1)).drop (i + 1 - n))), ?_, rfl,
      by simp; omega, greatest_concat hmax (hres ▸ hgreat)⟩
    have hgetLeave := getElem?_eq_getElem (show i - n < nums.length by omega)
    simp [windowAt, hget, hpush, hlast, hlong, asUsize_eq hk, hge, hgetLeave, pop_suffixMaxima, hm]

/-- **The maxima of all windows** are found, in their order. -/
theorem exists_maxSlidingWindow (nums : List ℤ) (k : Int32) (n : ℕ) (hk : k.toInt = n)
    (hn : 1 ≤ n) (hnum : n ≤ nums.length) (hlen : nums.length < 2 ^ 31) :
    ∃ res, maxSlidingWindow nums k = some res ∧ res.length = nums.length - n + 1 ∧
      ∀ j < res.length, ∃ m, res[j]? = some m ∧ IsGreatest {a | a ∈ (nums.drop j).take n} m := by
  rcases eq_or_ne k 1 with rfl | hone
  · obtain rfl : n = 1 := by
      have hval : (1 : Int32).toInt = 1 := rfl
      omega
    refine ⟨nums, if_pos (.inr rfl), by omega, fun j hj =>
      ⟨nums[j], getElem?_eq_getElem hj, ?_⟩⟩
    rw [drop_eq_getElem_cons hj, take_succ_cons, take_zero]
    simp
  · have hstart : WindowInvariant nums n 0 ([], []) :=
      ⟨by simp [suffixMaxima], by simp; omega, fun j m hj => by simp at hj⟩
    obtain ⟨⟨res, deque⟩, hrun, -, hres, hmax⟩ := forRange_spec (Nat.zero_le nums.length) hstart
      fun i s _ hi hs => exists_windowAt hk hn hlen hi hs
    refine ⟨res, ?_, by omega, fun j hj => ⟨res[j], getElem?_eq_getElem hj,
      hmax j _ (getElem?_eq_getElem hj)⟩⟩
    have hlong : ¬ (nums.length = 0 ∨ k = 1) := not_or.mpr ⟨by omega, hone⟩
    rw [maxSlidingWindow, if_neg hlong, hrun]
    rfl

/-- Windows of two entries. -/
theorem maxSlidingWindow_two :
    ∃ res, maxSlidingWindow [3, 3, 1] 2 = some res ∧ res.length = 3 - 2 + 1 ∧
      ∀ j < res.length, ∃ m, res[j]? = some m ∧
        IsGreatest {a | a ∈ (([3, 3, 1] : List ℤ).drop j).take 2} m :=
  exists_maxSlidingWindow [3, 3, 1] 2 2 rfl (by decide) (by decide) (by decide)

end RustExample.SlidingWindow
