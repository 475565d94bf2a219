import RustExample.Foundation.CommonSublists
import RustExample.Foundation.Loops

/-!
# Longest common subsequences, by recursion and by a table

The recursion compares at most three candidates: with the first character of either list, taken
at its first place in the other one, or with neither. The table holds the lengths for all first
parts of the two strings, and a walk from its last corner finds the characters.

Source: `longest_common_substring_workspace_example/find_longest_matching_sub_sequence_example/`
`src/main.rs` and
`longest_common_substring_workspace_example/longest_common_subsequence_example/src/main.rs`.

* The recursion takes a bound on the depth of its calls, and fails where it is too small.
* The entries of the table are `i32` in the source and natural numbers here.
* A loop over the items of a vector with their positions is a loop over the positions.
-/

namespace RustExample.LongestCommon

open List

/-! ### The recursion -/

/-- `s.iter().position(|x| *x == c)` -/
def position (s : List Char) (c : Char) : Option ℕ := s.findIdx? fun x => x = c

/-- `&s[k ..]` -/
def sliceFrom (s : List Char) (k : ℕ) : Option (List Char) :=
  if k ≤ s.length then some (s.drop k) else none

/-- The first of the three candidates that has the greatest length. -/
def firstLongest (withFirstOfS1 withFirstOfS2 withNoneOfBoth : List Char) : List Char :=
  let maxLen := max (max withFirstOfS1.length withFirstOfS2.length) withNoneOfBoth.length
  if withFirstOfS1.length = maxLen then withFirstOfS1
  else if withFirstOfS2.length = maxLen then withFirstOfS2
  else withNoneOfBoth

/-- `find_longest_common`, with a bound on the depth of the calls. -/
def findWithin : ℕ → List Char → List Char → Option (List Char)
  | 0, _, _ => none
  | depth + 1, s1, s2 =>
    if 0 < s1.length ∧ 0 < s2.length then do
      let c1 ← s1[0]?
      if c1 ∉ s2 then findWithin depth (← sliceFrom s1 1) s2
      else do
        let c2 ← s2[0]?
        if c2 ∉ s1 then findWithin depth s1 (← sliceFrom s2 1)
        else do
          let s2MatchIdx ← position s2 c1
          let s1MatchIdx ← position s1 c2
          let withFirstOfS1 := [c1] ++
            (← findWithin depth (← sliceFrom s1 1) (← sliceFrom s2 (s2MatchIdx + 1)))
          let withFirstOfS2 := [c2] ++
            (← findWithin depth (← sliceFrom s1 (s1MatchIdx + 1)) (← sliceFrom s2 1))
          let withNoneOfBoth ← findWithin depth (← sliceFrom s1 1) (← sliceFrom s2 1)
          some (firstLongest withFirstOfS1 withFirstOfS2 withNoneOfBoth)
    else some []

/-- A longest common subsequence. -/
def findLongestCommon (s1 s2 : List Char) : Option (List Char) :=
  findWithin (s1.length + s2.length + 1) s1 s2

/-! ### The table -/

/-- `solutions[i][j]` -/
def cellAt (solutions : List (List ℕ)) (i j : ℕ) : Option ℕ := do (← solutions[i]?)[j]?

/-- `solutions[i][j] = v` -/
def putCell (solutions : List (List ℕ)) (i j v : ℕ) : Option (List (List ℕ)) := do
  putAt solutions i (← putAt (← solutions[i]?) j v)

/-- The body of the inner loop that fills the table. -/
def fillCell (a b : List Char) (i j : ℕ) (solutions : List (List ℕ)) :
    Option (List (List ℕ)) := do
  if (← a[i]?) = (← b[j]?) then putCell solutions (i + 1) (j + 1) ((← cellAt solutions i j) + 1)
  else do
    putCell solutions (i + 1) (j + 1)
      (max (← cellAt solutions i (j + 1)) (← cellAt solutions (i + 1) j))

/-- One step of the way back. -/
def walkRound (a b : List Char) (solutions : List (List ℕ)) :
    List Char × ℕ × ℕ → Option (Round (List Char × ℕ × ℕ) (List Char))
  | (result, i, j) =>
    if 0 < i ∧ 0 < j then do
      let c ← a[i - 1]?
      if c = (← b[j - 1]?) then some (.again (result ++ [c], i - 1, j - 1))
      else if (← cellAt solutions i (j - 1)) < (← cellAt solutions (i - 1) j) then
        some (.again (result, i - 1, j))
      else some (.again (result, i, j - 1))
    else some (.done result)

/-- A longest common subsequence. -/
def longestCommonSubsequence (a b : String) : Option String := do
  let a := a.toList
  let b := b.toList
  let solutions := List.replicate (a.length + 1) (List.replicate (b.length + 1) 0)
  let solutions ← forRange 0 a.length (fun i => forRange 0 b.length (fillCell a b i)) solutions
  let result ← loop (walkRound a b solutions) (a.length + b.length + 1) ([], a.length, b.length)
  some (String.ofList result.reverse)

/-! ### What the recursion returns -/

variable {a b s t r : List Char} {c x y : Char} {i j n depth : ℕ}

/-- The first place of a character cuts the list in two. -/
theorem exists_position (h : c ∈ s1) :
    ∃ before after, s1 = before ++ c :: after ∧ c ∉ before ∧
      position s1 c = some before.length := by
  obtain ⟨before, after, rfl, hnot⟩ := eq_append_cons_of_mem h
  refine ⟨before, after, rfl, hnot, ?_⟩
  have hbefore : before.findIdx? (fun x => x = c) = none := by
    rw [findIdx?_eq_none_iff]
    intro x hx
    exact decide_eq_false fun heq => hnot (heq ▸ hx)
  rw [position, findIdx?_append, hbefore, findIdx?_cons, decide_eq_true rfl]
  simp

theorem sliceFrom_append (before after : List Char) (c : Char) :
    sliceFrom (before ++ c :: after) (before.length + 1) = some after := by
  rw [sliceFrom, if_pos (by simp), drop_append, drop_eq_nil_of_le (Nat.le_succ _),
    Nat.add_sub_cancel_left]
  rfl

theorem sliceFrom_one (c : Char) (s : List Char) : sliceFrom (c :: s) 1 = some s :=
  sliceFrom_append [] s c

theorem firstLongest_spec (w₁ w₂ w₃ : List Char) :
    (firstLongest w₁ w₂ w₃ = w₁ ∨ firstLongest w₁ w₂ w₃ = w₂ ∨ firstLongest w₁ w₂ w₃ = w₃) ∧
      w₁.length ≤ (firstLongest w₁ w₂ w₃).length ∧ w₂.length ≤ (firstLongest w₁ w₂ w₃).length ∧
      w₃.length ≤ (firstLongest w₁ w₂ w₃).length := by
  rw [firstLongest]
  split_ifs with h₁ h₂
  · exact ⟨.inl rfl, by omega⟩
  · exact ⟨.inr (.inl rfl), by omega⟩
  · exact ⟨.inr (.inr rfl), by omega⟩

theorem findWithin_cons (depth : ℕ) (x y : Char) (a b : List Char) :
    findWithin (depth + 1) (x :: a) (y :: b) =
      if x ∉ y :: b then findWithin depth a (y :: b)
      else if y ∉ x :: a then findWithin depth (x :: a) b
      else (do
        let s2MatchIdx ← position (y :: b) x
        let s1MatchIdx ← position (x :: a) y
        let r₁ ← findWithin depth a (← sliceFrom (y :: b) (s2MatchIdx + 1))
        let r₂ ← findWithin depth (← sliceFrom (x :: a) (s1MatchIdx + 1)) b
        some (firstLongest (x :: r₁) (y :: r₂) (← findWithin depth a b))) := by
  rw [findWithin, if_pos ⟨Nat.succ_pos _, Nat.succ_pos _⟩, sliceFrom_one, sliceFrom_one]
  rfl

theorem exists_findWithin (h : s.length + t.length < depth) :
    ∃ r, findWithin depth s t = some r ∧ IsLongestCommon s t r := by
  induction depth generalizing s t with
  | zero => omega
  | succ depth ih =>
    rcases s with _ | ⟨x, a⟩
    · exact ⟨[], by simp [findWithin], IsLongestCommon.nil_left⟩
    rcases t with _ | ⟨y, b⟩
    · exact ⟨[], by simp [findWithin], IsLongestCommon.nil_right⟩
    rw [length_cons, length_cons] at h
    by_cases hx : x ∈ y :: b
    · by_cases hy : y ∈ x :: a
      · obtain ⟨beforeB, afterB, hb, hxB, hposB⟩ := exists_position hx
        obtain ⟨beforeA, afterA, ha, hyA, hposA⟩ := exists_position hy
        have hlenB := congrArg List.length hb
        have hlenA := congrArg List.length ha
        rw [length_append, length_cons, length_cons] at hlenA hlenB
        obtain ⟨r₁, hrun₁, hr₁⟩ := ih (s := a) (t := afterB) (by omega)
        obtain ⟨r₂, hrun₂, hr₂⟩ := ih (s := afterA) (t := b) (by omega)
        obtain ⟨r₃, hrun₃, hr₃⟩ := ih (s := a) (t := b) (by omega)
        obtain ⟨hone, hle₁, hle₂, hle₃⟩ := firstLongest_spec (x :: r₁) (y :: r₂) r₃
        refine ⟨firstLongest (x :: r₁) (y :: r₂) r₃, ?_,
          .of_candidates hb hxB ha hyA hr₁ hr₂ hr₃ hone hle₁ hle₂ hle₃⟩
        rw [findWithin_cons, if_neg (not_not_intro hx), if_neg (not_not_intro hy), hposB, hposA,
          hb, ha]
        simp only [Option.bind_eq_bind, Option.bind_some, sliceFrom_append, hrun₁, hrun₂, hrun₃]
      · obtain ⟨r, hrun, hr⟩ := ih (s := x :: a) (t := b) (by rw [length_cons]; omega)
        refine ⟨r, ?_, (hr.symm.of_not_mem hy).symm⟩
        rw [findWithin_cons, if_neg (not_not_intro hx), if_pos hy, hrun]
    · obtain ⟨r, hrun, hr⟩ := ih (s := a) (t := y :: b) (by rw [length_cons]; omega)
      refine ⟨r, ?_, hr.of_not_mem hx⟩
      rw [findWithin_cons, if_pos hx, hrun]

/-- The recursion returns a longest common subsequence. -/
theorem exists_findLongestCommon (s1 s2 : List Char) :
    ∃ r, findLongestCommon s1 s2 = some r ∧ IsLongestCommon s1 s2 r :=
  exists_findWithin (Nat.lt_succ_self _)

/-! ### What the table holds -/

/-- The length of the longest common subsequences. -/
def IsLcsLength (a b : List Char) (n : ℕ) : Prop := ∃ r, IsLongestCommon a b r ∧ r.length = n

theorem isLcsLength_zero_left (b : List Char) : IsLcsLength [] b 0 :=
  ⟨[], IsLongestCommon.nil_left, rfl⟩

theorem isLcsLength_zero_right (a : List Char) : IsLcsLength a [] 0 :=
  ⟨[], IsLongestCommon.nil_right, rfl⟩

theorem IsLcsLength.concat (h : IsLcsLength a b n) (c : Char) :
    IsLcsLength (a ++ [c]) (b ++ [c]) (n + 1) := by
  obtain ⟨r, hr, rfl⟩ := h
  exact ⟨r ++ [c], hr.concat, by simp⟩

theorem IsLcsLength.max {m : ℕ} (h : IsLcsLength a (b ++ [y]) m) (h' : IsLcsLength (a ++ [x]) b n)
    (hne : x ≠ y) : IsLcsLength (a ++ [x]) (b ++ [y]) (max m n) := by
  obtain ⟨r, hr, rfl⟩ := h
  obtain ⟨s, hs, rfl⟩ := h'
  rcases le_total s.length r.length with hle | hle
  · exact ⟨r, hr.concat_left hs hle hne, (max_eq_left hle).symm⟩
  · exact ⟨s, hr.concat_right hs hle hne, (max_eq_right hle).symm⟩

/-- The table has its size, and its cells in `P` hold the right lengths. -/
structure TableHolds (a b : List Char) (solutions : List (List ℕ)) (P : ℕ → ℕ → Prop) : Prop where
  height : solutions.length = a.length + 1
  width : ∀ row ∈ solutions, row.length = b.length + 1
  lengths : ∀ i j, i ≤ a.length → j ≤ b.length → P i j →
    ∃ n, cellAt solutions i j = some n ∧ IsLcsLength (a.take i) (b.take j) n

variable {solutions : List (List ℕ)} {P : ℕ → ℕ → Prop}

theorem TableHolds.mono {P' : ℕ → ℕ → Prop} (h : TableHolds a b solutions P)
    (hP : ∀ i j, i ≤ a.length → j ≤ b.length → P' i j → P i j) : TableHolds a b solutions P' :=
  ⟨h.height, h.width, fun i j hi hj hij => h.lengths i j hi hj (hP i j hi hj hij)⟩

theorem cellAt_of_getElem? {row : List ℕ} (h : solutions[i]? = some row) :
    cellAt solutions i j = row[j]? := by
  rw [cellAt, h]
  rfl

theorem TableHolds.exists_putCell (h : TableHolds a b solutions P) (hi : i ≤ a.length)
    (hj : j ≤ b.length) (hn : IsLcsLength (a.take i) (b.take j) n) :
    ∃ solutions', putCell solutions i j n = some solutions' ∧
      TableHolds a b solutions' fun i' j' => P i' j' ∨ i' = i ∧ j' = j := by
  have hrow : i < solutions.length := by rw [h.height]; omega
  have hget := getElem?_eq_getElem hrow
  have hcol : j < solutions[i].length := by rw [h.width _ (getElem_mem hrow)]; omega
  refine ⟨solutions.set i (solutions[i].set j n), ?_, by rw [List.length_set, h.height],
    fun row hmem => ?_, fun i' j' hi' hj' hP => ?_⟩
  · rw [putCell, hget]
    simp only [Option.bind_eq_bind, Option.bind_some, putAt_of_lt hcol, putAt_of_lt hrow]
  · rcases mem_or_eq_of_mem_set hmem with hmem | rfl
    · exact h.width row hmem
    · rw [List.length_set, h.width _ (getElem_mem hrow)]
  · rcases eq_or_ne i' i with rfl | hne
    · rw [cellAt_of_getElem? (getElem?_set_self hrow)]
      rcases eq_or_ne j' j with rfl | hne'
      · exact ⟨n, getElem?_set_self hcol, hn⟩
      · obtain ⟨m, hm, hlen⟩ := h.lengths i' j' hi' hj' (by tauto)
        rw [cellAt_of_getElem? hget] at hm
        exact ⟨m, by rw [getElem?_set_ne hne'.symm, hm], hlen⟩
    · obtain ⟨m, hm, hlen⟩ := h.lengths i' j' hi' hj' (by tauto)
      refine ⟨m, ?_, hlen⟩
      rw [cellAt, getElem?_set_ne hne.symm]
      exact hm

/-- The cells that are filled when the inner loop comes to `j` in row `i`. -/
def FilledTo (i j i' j' : ℕ) : Prop := i' ≤ i ∨ j' = 0 ∨ i' = i + 1 ∧ j' ≤ j

theorem exists_fillCell (h : TableHolds a b solutions (FilledTo i j)) (hi : i < a.length)
    (hj : j < b.length) :
    ∃ solutions', fillCell a b i j solutions = some solutions' ∧
      TableHolds a b solutions' (FilledTo i (j + 1)) := by
  have hgetA := getElem?_eq_getElem hi
  have hgetB := getElem?_eq_getElem hj
  have htakeA := take_succ_eq_append_getElem hi
  have htakeB := take_succ_eq_append_getElem hj
  have hfilled : ∀ {solutions'}, TableHolds a b solutions'
      (fun i' j' => FilledTo i j i' j' ∨ i' = i + 1 ∧ j' = j + 1) →
      TableHolds a b solutions' (FilledTo i (j + 1)) := fun h' =>
    h'.mono fun i' j' _ _ hP => by rw [FilledTo] at hP ⊢; omega
  by_cases heq : a[i] = b[j]
  · obtain ⟨n, hn, hlen⟩ := h.lengths i j hi.le hj.le (.inl (Nat.le_refl i))
    obtain ⟨solutions', hput, h'⟩ := h.exists_putCell hi hj (n := n + 1) <| by
      rw [htakeA, htakeB, heq]
      exact hlen.concat _
    refine ⟨solutions', ?_, hfilled h'⟩
    simp [fillCell, hgetA, hgetB, heq, hn, hput]
  · obtain ⟨m, hm, hlenM⟩ := h.lengths i (j + 1) hi.le hj (.inl (Nat.le_refl i))
    obtain ⟨n, hn, hlenN⟩ := h.lengths (i + 1) j hi hj.le (.inr (.inr ⟨rfl, Nat.le_refl j⟩))
    obtain ⟨solutions', hput, h'⟩ := h.exists_putCell hi hj (n := max m n) <| by
      rw [htakeB] at hlenM
      rw [htakeA] at hlenN
      rw [htakeA, htakeB]
      exact hlenM.max hlenN heq
    refine ⟨solutions', ?_, hfilled h'⟩
    simp [fillCell, hgetA, hgetB, heq, hm, hn, hput]

/-- At first the cells of the first row and of the first column are filled. -/
theorem tableHolds_replicate (a b : List Char) :
    TableHolds a b (List.replicate (a.length + 1) (List.replicate (b.length + 1) 0))
      (FilledTo 0 0) := by
  refine ⟨length_replicate, fun row hrow => ?_, fun i j hi hj hP => ⟨0, ?_, ?_⟩⟩
  · rw [eq_of_mem_replicate hrow, length_replicate]
  · rw [cellAt_of_getElem? (getElem?_replicate_of_lt (by omega)),
      getElem?_replicate_of_lt (by omega)]
  · rcases (by rw [FilledTo] at hP; omega : i = 0 ∨ j = 0) with rfl | rfl
    · exact isLcsLength_zero_left _
    · exact isLcsLength_zero_right _

theorem exists_fillRow (h : TableHolds a b solutions (FilledTo i 0)) (hi : i < a.length) :
    ∃ solutions', forRange 0 b.length (fillCell a b i) solutions = some solutions' ∧
      TableHolds a b solutions' (FilledTo (i + 1) 0) := by
  obtain ⟨solutions', hrun, h'⟩ := forRange_spec (Nat.zero_le b.length)
    (I := fun j solutions => TableHolds a b solutions (FilledTo i j)) h
    fun j solutions _ hj hs => exists_fillCell hs hi hj
  refine ⟨solutions', hrun, h'.mono fun i' j' _ hj hP => ?_⟩
  rw [FilledTo] at hP ⊢
  omega

/-- **The table is filled with the lengths** for all first parts. -/
theorem exists_fill (a b : List Char) :
    ∃ solutions, forRange 0 a.length (fun i => forRange 0 b.length (fillCell a b i))
        (List.replicate (a.length + 1) (List.replicate (b.length + 1) 0)) = some solutions ∧
      TableHolds a b solutions fun _ _ => True := by
  obtain ⟨solutions, hrun, h⟩ := forRange_spec (Nat.zero_le a.length)
    (I := fun i solutions => TableHolds a b solutions (FilledTo i 0)) (tableHolds_replicate a b)
    fun i solutions _ hi hs => exists_fillRow hs hi
  exact ⟨solutions, hrun, h.mono fun i' j' hi _ _ => .inl hi⟩

/-! ### The walk back -/

/-- What holds whenever the walk comes round: with a longest common subsequence of the parts that
are left, the characters found make one of the whole strings. -/
def WalkInvariant (a b : List Char) : List Char × ℕ × ℕ → Prop
  | (result, i, j) => i ≤ a.length ∧ j ≤ b.length ∧
      ∀ r, IsLongestCommon (a.take i) (b.take j) r → IsLongestCommon a b (r ++ result.reverse)

theorem walkRound_spec (h : TableHolds a b solutions fun _ _ => True) (s : List Char × ℕ × ℕ)
    (hs : WalkInvariant a b s) :
    (∃ s', walkRound a b solutions s = some (.again s') ∧ WalkInvariant a b s' ∧
      s'.2.1 + s'.2.2 < s.2.1 + s.2.2) ∨
    ∃ result, walkRound a b solutions s = some (.done result) ∧
      IsLongestCommon a b result.reverse := by
  obtain ⟨result, i, j⟩ := s
  obtain ⟨hi, hj, hrest⟩ := hs
  by_cases hpos : 0 < i ∧ 0 < j
  · left
    obtain ⟨i, rfl⟩ := Nat.exists_eq_succ_of_ne_zero hpos.1.ne'
    obtain ⟨j, rfl⟩ := Nat.exists_eq_succ_of_ne_zero hpos.2.ne'
    have hgetA := getElem?_eq_getElem hi
    have hgetB := getElem?_eq_getElem hj
    rw [take_succ_eq_append_getElem hi, take_succ_eq_append_getElem hj] at hrest
    obtain ⟨m, hm, u, hu, rfl⟩ := h.lengths i (j + 1) (by omega) hj trivial
    obtain ⟨n, hn, v, hv, rfl⟩ := h.lengths (i + 1) j hi (by omega) trivial
    by_cases heq : a[i] = b[j]
    · refine ⟨(result ++ [a[i]], i, j), ?_, ⟨by omega, by omega, fun r hr => ?_⟩,
        by dsimp only; omega⟩
      · simp [walkRound, hgetA, hgetB, heq]
      · rw [reverse_append, reverse_singleton, ← append_assoc]
        exact hrest _ (heq ▸ hr.concat)
    · by_cases hlt : v.length < u.length
      · refine ⟨(result, i, j + 1), ?_, ⟨by omega, hj, fun r hr => hrest r ?_⟩,
          by dsimp only; omega⟩
        · simp [walkRound, hgetA, hgetB, heq, hm, hn, hlt]
        · rw [take_succ_eq_append_getElem hj] at hr hu
          rw [take_succ_eq_append_getElem hi] at hv
          exact hr.concat_left hv ((hr.length_eq hu).symm ▸ hlt.le) heq
      · refine ⟨(result, i + 1, j), ?_, ⟨hi, by omega, fun r hr => hrest r ?_⟩,
          by dsimp only; omega⟩
        · simp [walkRound, hgetA, hgetB, heq, hm, hn, hlt]
        · rw [take_succ_eq_append_getElem hj] at hu
          rw [take_succ_eq_append_getElem hi] at hr hv
          exact hu.concat_right hr ((hr.length_eq hv).symm ▸ Nat.le_of_not_lt hlt) heq
  · refine .inr ⟨result, by rw [walkRound, if_neg hpos], ?_⟩
    rcases (by omega : i = 0 ∨ j = 0) with rfl | rfl
    · exact hrest [] IsLongestCommon.nil_left
    · exact hrest [] IsLongestCommon.nil_right

/-- The table and the walk find a longest common subsequence. -/
theorem exists_longestCommonSubsequence (a b : List Char) :
    ∃ r, longestCommonSubsequence (String.ofList a) (String.ofList b) = some (String.ofList r) ∧
      IsLongestCommon a b r := by
  obtain ⟨solutions, hfill, h⟩ := exists_fill a b
  have hstart : WalkInvariant a b ([], a.length, b.length) :=
    ⟨Nat.le_refl _, Nat.le_refl _, fun r hr => by
      rwa [take_length, take_length, ← append_nil r] at hr⟩
  obtain ⟨result, hwalk, hr⟩ := loop_spec (fun s => s.2.1 + s.2.2) (walkRound_spec h) hstart
    (Nat.lt_succ_self (a.length + b.length))
  exact ⟨result.reverse, by simp [longestCommonSubsequence, hfill, hwalk], hr⟩

/-- **Both find a longest common subsequence**, and so they find equally long ones. -/
theorem both_longest (a b : List Char) :
    ∃ r₁ r₂, findLongestCommon a b = some r₁ ∧
      longestCommonSubsequence (String.ofList a) (String.ofList b) = some (String.ofList r₂) ∧
      IsLongestCommon a b r₁ ∧ IsLongestCommon a b r₂ ∧ r₁.length = r₂.length := by
  obtain ⟨r₁, hrun₁, hr₁⟩ := exists_findLongestCommon a b
  obtain ⟨r₂, hrun₂, hr₂⟩ := exists_longestCommonSubsequence a b
  exact ⟨r₁, r₂, hrun₁, hrun₂, hr₁, hr₂, hr₁.length_eq hr₂⟩

end RustExample.LongestCommon
