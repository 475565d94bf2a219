import RustExample.SortAlgorithm.Exchanges

/-!
# Sorting by counting

The entries of each value are counted; the sums of the counts are the places behind the entries of
each value, which are filled from there to the left.

Source: `sort_algorithm_example/src/lib.rs`.
-/

namespace RustExample.SortAlgorithm

open Function List

/-! ### The algorithm -/

/-- `count[v] += 1` -/
def countAt (v : ℕ) (count : List ℕ) : Option (List ℕ) := do putAt count v ((← count[v]?) + 1)

/-- `count[i] += count[i - 1]` -/
def sumAt (i : ℕ) (count : List ℕ) : Option (List ℕ) := do
  let before ← count[← checkedSub i 1]?
  putAt count i ((← count[i]?) + before)

/-- The body of the last loop: an entry comes to the last free place of its value. -/
def placeAt (v : ℕ) : List ℕ × List ℕ → Option (List ℕ × List ℕ)
  | (nums, count) => do
    let place ← checkedSub (← count[v]?) 1
    some (← putAt nums place v, ← putAt count v place)

/-- Counts the numbers. -/
def countSort (nums : List ℕ) : Option (List ℕ) := do
  let n ← nums.max?
  let count ← forRange 0 (n + 1) (fun _ count => some (count ++ [0])) []
  let count ← forEach nums countAt count
  let count ← forRange 1 count.length sumAt count
  let (nums, _) ← forEach nums placeAt (nums, count)
  some nums

/-! ### Places -/

variable {nums s count before after : List ℕ} {n v w k x : ℕ}

/-- The entries up to a value are those below and those of the value. -/
theorem countP_le_eq (l : List ℕ) (v : ℕ) :
    l.countP (· ≤ v) = l.countP (· < v) + l.count v := by
  induction l with
  | nil => rfl
  | cons a l ih =>
    rw [countP_cons, countP_cons, count_cons, ih]
    simp only [decide_eq_true_eq, beq_iff_eq]
    split_ifs <;> omega

theorem countP_le_of_lt (l : List ℕ) (h : v < w) : l.countP (· ≤ v) ≤ l.countP (· < w) := by
  refine countP_mono_left fun a _ ha => ?_
  simp only [decide_eq_true_eq] at ha ⊢
  omega

/-- **The places of the entries of a value** in order: those below come before them. -/
theorem place_of_sortsTo (h : SortsTo (· ≤ ·) nums s) (hv : s[k]? = some v) :
    nums.countP (· < v) ≤ k ∧ k < nums.countP (· ≤ v) := by
  obtain ⟨hk, hkv⟩ := List.getElem?_eq_some_iff.mp hv
  have hsplit : ∀ p : ℕ → Bool, nums.countP p = (s.take k).countP p + (s.drop k).countP p := by
    intro p
    rw [← h.perm.countP_eq, ← countP_append, take_append_drop]
  have hlen : (s.take k).length = k := length_take_of_le hk.le
  rw [hsplit, hsplit]
  constructor
  · have hdrop : (s.drop k).countP (· < v) = 0 := by
      rw [countP_eq_zero]
      intro a ha
      have := getElem_le_of_mem_drop h.sorted hk ha
      simp only [decide_eq_true_eq]
      omega
    have htake := countP_le_length (p := (· < v)) (l := s.take k)
    omega
  · have htake : (s.take k).countP (· ≤ v) = (s.take k).length := by
      rw [countP_eq_length]
      intro a ha
      have hsorted := h.sorted
      rw [← take_append_drop k s, pairwise_append] at hsorted
      have := hsorted.2.2 a ha s[k] (by rw [drop_eq_getElem_cons hk]; exact mem_cons_self)
      simp only [decide_eq_true_eq]
      omega
    have hdrop : 0 < (s.drop k).countP (· ≤ v) := by
      rw [countP_pos_iff]
      exact ⟨s[k], by rw [drop_eq_getElem_cons hk]; exact mem_cons_self, by simp [hkv]⟩
    omega

/-- A vector with every value at its places is in order. -/
theorem sortsTo_of_places (hlen : s.length = nums.length)
    (h : ∀ v k, nums.countP (· < v) ≤ k → k < nums.countP (· ≤ v) → s[k]? = some v) :
    SortsTo (· ≤ ·) nums s := by
  have hsorted : SortsTo (· ≤ ·) nums (nums.insertionSort (· ≤ ·)) :=
    ⟨perm_insertionSort _ nums, pairwise_insertionSort _ nums⟩
  have heq : s = nums.insertionSort (· ≤ ·) := by
    refine ext_getElem? fun k => ?_
    rcases Nat.lt_or_ge k nums.length with hk | hk
    · rw [← hsorted.perm.length_eq] at hk
      have hv := getElem?_eq_getElem hk
      obtain ⟨hlow, hhigh⟩ := place_of_sortsTo hsorted hv
      rw [hv, h _ k hlow hhigh]
    · rw [getElem?_eq_none (by omega), getElem?_eq_none]
      rw [hsorted.perm.length_eq]
      exact hk
  rw [heq]
  exact hsorted

/-! ### Counts -/

/-- The vector holds the values of a function up to `n`. -/
structure Table (n : ℕ) (f : ℕ → ℕ) (count : List ℕ) : Prop where
  length : count.length = n + 1
  get : ∀ v ≤ n, count[v]? = some (f v)

variable {f : ℕ → ℕ}

theorem Table.exists_put (h : Table n f count) (hv : v ≤ n) (x : ℕ) :
    ∃ count', putAt count v x = some count' ∧ Table n (update f v x) count' := by
  have hlen := h.length
  refine ⟨count.set v x, putAt_of_lt (by omega) x, by rw [List.length_set, hlen], fun w hw => ?_⟩
  by_cases hwv : w = v
  · rw [hwv, getElem?_set_self (by omega), update_self]
  · rw [getElem?_set_ne (Ne.symm hwv), h.get w hw, update_of_ne hwv]

theorem Table.congr {f' : ℕ → ℕ} (h : Table n f count) (heq : ∀ v ≤ n, f v = f' v) :
    Table n f' count :=
  ⟨h.length, fun v hv => by rw [h.get v hv, heq v hv]⟩

theorem exists_zeros (n : ℕ) :
    ∃ count, forRange 0 (n + 1) (fun _ count => some (count ++ [0])) [] = some count ∧
      Table n (fun _ => 0) count := by
  have hloop : ∃ count, forRange 0 (n + 1) (fun _ count => some (count ++ [0])) [] = some count ∧
      count = List.replicate (n + 1) 0 := by
    refine forRange_spec (I := fun i count => count = List.replicate i 0) (Nat.zero_le _) rfl ?_
    rintro i _ _ _ rfl
    exact ⟨_, rfl, List.replicate_succ'.symm⟩
  obtain ⟨_, hrun, rfl⟩ := hloop
  refine ⟨_, hrun, length_replicate, fun v hv => ?_⟩
  rw [getElem?_replicate, if_pos (by omega)]

theorem exists_counts (h : Table n (fun _ => 0) count) (hn : ∀ v ∈ nums, v ≤ n) :
    ∃ count', forEach nums countAt count = some count' ∧ Table n nums.count count' := by
  refine forEach_spec (I := fun done count => Table n (List.count · done) count)
    (h.congr fun v _ => rfl) ?_
  rintro before v after count hl h
  have hv : v ≤ n := hn v (by simp [hl])
  obtain ⟨count', hput, h'⟩ := h.exists_put hv (before.count v + 1)
  refine ⟨count', by simp [countAt, h.get v hv, hput], h'.congr fun w _ => ?_⟩
  by_cases hwv : w = v
  · rw [hwv, update_self, count_append, count_singleton_self]
  · rw [update_of_ne hwv, count_append, count_singleton,
      if_neg (by simpa using Ne.symm hwv)]
    rfl

theorem exists_sums (h : Table n nums.count count) :
    ∃ count', forRange 1 count.length sumAt count = some count' ∧
      Table n (fun v => nums.countP (· ≤ v)) count' := by
  have hloop : ∃ count', forRange 1 count.length sumAt count = some count' ∧
      Table n (fun v => if v < count.length then nums.countP (· ≤ v) else nums.count v) count' := by
    have hlen := h.length
    refine forRange_spec (I := fun i count =>
      Table n (fun v => if v < i then nums.countP (· ≤ v) else nums.count v) count) (by omega) ?_ ?_
    · refine h.congr fun v _ => ?_
      by_cases hv : v < 1
      · obtain rfl : v = 0 := by omega
        rw [if_pos hv, countP_le_eq]
        simp
      · rw [if_neg hv]
    · rintro i count hi hlt h
      obtain ⟨count', hput, h'⟩ := h.exists_put (v := i) (by omega)
        (nums.count i + nums.countP (· ≤ i - 1))
      have hbefore : count[i - 1]? = some (nums.countP (· ≤ i - 1)) := by
        rw [h.get (i - 1) (by omega), if_pos (by omega)]
      have hhere : count[i]? = some (nums.count i) := by
        rw [h.get i (by omega), if_neg (by omega)]
      refine ⟨count', by simp [sumAt, checkedSub_of_le hi, hbefore, hhere, hput], ?_⟩
      refine h'.congr fun v _ => ?_
      by_cases hvi : v = i
      · subst hvi
        have hbelow : nums.countP (· ≤ v - 1) = nums.countP (· < v) := by
          refine countP_congr fun a _ => ?_
          simp only [decide_eq_true_eq]
          omega
        rw [update_self, if_pos (by omega), hbelow, countP_le_eq nums v, Nat.add_comm]
      · rw [update_of_ne hvi]
        by_cases hlt : v < i
        · rw [if_pos hlt, if_pos (by omega)]
        · rw [if_neg hlt, if_neg (by omega)]
  obtain ⟨count', hrun, h'⟩ := hloop
  refine ⟨count', hrun, h'.congr fun v hv => ?_⟩
  rw [if_pos (by rw [h.length]; omega)]

/-! ### The last loop -/

/-- The last loop: the entries `before` are at their places, from the last to the left. -/
structure Placing (nums : List ℕ) (n : ℕ) (before s count : List ℕ) : Prop where
  length : s.length = nums.length
  table : Table n (fun v => nums.countP (· ≤ v) - before.count v) count
  placed : ∀ v k, nums.countP (· ≤ v) - before.count v ≤ k → k < nums.countP (· ≤ v) →
    s[k]? = some v

theorem Placing.exists_placeAt (h : Placing nums n before s count)
    (hl : nums = before ++ v :: after) (hn : v ≤ n) :
    ∃ s' count', placeAt v (s, count) = some (s', count') ∧
      Placing nums n (before ++ [v]) s' count' := by
  have hlen := h.length
  have hcount : ∀ w, before.count w ≤ nums.count w := fun w => by
    rw [hl, count_append]
    omega
  have hmore : before.count v < nums.count v := by
    rw [hl, count_append, count_cons_self]
    omega
  have hle := countP_le_eq nums v
  have hfit := countP_le_length (p := (· ≤ v)) (l := nums)
  obtain ⟨place, hplace⟩ : ∃ place, nums.countP (· ≤ v) - before.count v = place + 1 :=
    ⟨nums.countP (· ≤ v) - before.count v - 1, by omega⟩
  obtain ⟨count', hput, htable⟩ := h.table.exists_put hn place
  have hother : ∀ w, w ≠ v → (before ++ [v]).count w = before.count w := fun w hw => by
    rw [count_append, count_singleton, if_neg (by simpa using Ne.symm hw)]
    rfl
  have hself : (before ++ [v]).count v = before.count v + 1 := by
    rw [count_append, count_singleton_self]
  refine ⟨s.set place v, count', ?_, by rw [List.length_set, hlen], htable.congr fun w _ => ?_,
    fun w k hlow hhigh => ?_⟩
  · simp [placeAt, h.table.get v hn, hplace, putAt_of_lt (show place < s.length by omega), hput]
  · by_cases hwv : w = v
    · rw [hwv, update_self, hself]
      omega
    · rw [update_of_ne hwv, hother w hwv]
  · by_cases hk : k = place
    · have hwv : w = v := by
        by_contra hwv
        rw [hother w hwv] at hlow
        have hlew := countP_le_eq nums w
        have hcw := hcount w
        rcases Nat.lt_or_gt_of_ne hwv with hlt | hgt
        · have := countP_le_of_lt nums hlt
          omega
        · have := countP_le_of_lt nums hgt
          omega
      rw [hk, hwv, getElem?_set_self (by omega)]
    · rw [getElem?_set_ne (Ne.symm hk)]
      refine h.placed w k ?_ hhigh
      by_cases hwv : w = v
      · subst hwv
        rw [hself] at hlow
        omega
      · rwa [hother w hwv] at hlow

/-- **Count sort.** -/
theorem exists_countSort (hne : nums ≠ []) : Sorts countSort nums := by
  obtain ⟨n, hmax⟩ := Option.ne_none_iff_exists'.mp (mt List.max?_eq_none_iff.mp hne)
  have hn : ∀ v ∈ nums, v ≤ n := fun v hv => (max?_le_iff hmax).mp (Nat.le_refl n) v hv
  obtain ⟨zeros, hzeros, h₀⟩ := exists_zeros n
  obtain ⟨counts, hcounts, h₁⟩ := exists_counts h₀ hn
  obtain ⟨sums, hsums, h₂⟩ := exists_sums h₁
  have hloop : ∃ t, forEach nums placeAt (nums, sums) = some t ∧ Placing nums n nums t.1 t.2 := by
    refine forEach_spec (I := fun before (t : List ℕ × List ℕ) => Placing nums n before t.1 t.2)
      ⟨rfl, h₂.congr fun v _ => rfl, fun v k hlow hhigh => ?_⟩ ?_
    · rw [count_nil] at hlow
      omega
    · rintro before v after ⟨s, count⟩ hl h
      obtain ⟨s', count', hrun, h'⟩ := h.exists_placeAt hl (hn v (by simp [hl]))
      exact ⟨(s', count'), hrun, h'⟩
  obtain ⟨⟨s, count⟩, hrun, h⟩ := hloop
  refine ⟨s, ?_, sortsTo_of_places h.length fun v k hlow hhigh => h.placed v k ?_ hhigh⟩
  · rw [countSort, hmax]
    simp only [Option.bind_eq_bind, Option.bind_some, hzeros, hcounts, hsums, hrun]
  · have := countP_le_eq nums v
    omega

/-- **Count sort** fails on the empty vector only. -/
theorem sorts_countSort_iff : Sorts countSort nums ↔ nums ≠ [] := by
  refine ⟨?_, exists_countSort⟩
  rintro ⟨s, hrun, -⟩ rfl
  cases hrun

end RustExample.SortAlgorithm
