import Mathlib.Data.Nat.Find
import RustExample.KmpSearch.Occurrences

/-!
# The first place of a pattern in a text

Two searchers stop at the first place they find. One holds the longest first part of the pattern,
and looks at the text only up to the length of the text less that of the pattern. The other falls
back to borders that need not be the longest, and takes the first entry that agrees after a
mismatch for the place where the pattern begins.

Source: `kmp_workspace_example/kmp_algorithm_example/src/main.rs` and
`kmp_workspace_example/kmp_example3/src/kmp/mod.rs`.

* `str` is a list of bytes in the first program and a string in the second one, as in the source.
  The first program prints its table, which is left out.
* The inner loops of `kmp_next` and `kmp_index` fall back in the same way, and are one definition.
-/

namespace RustExample.KmpSearch

open List

/-- The first place of the pattern. -/
def IsFirst {α : Type*} (pattern text : List α) (s : ℕ) : Prop :=
  StandsAt pattern text s ∧ ∀ s', StandsAt pattern text s' → s ≤ s'

/-! ### The searcher with positions that may be missing -/

/-- A round of a loop `while k.is_some() && text[i] != str[k.unwrap()]`. -/
def fallRound (text str : List UInt8) (next : List (Option ℕ)) (i : ℕ) :
    Option ℕ → Option (Round (Option ℕ) (Option ℕ))
  | none => some (.done none)
  | some k => do
    if (← text[i]?) ≠ (← str[k]?) then some (.again (← next[k]?)) else some (.done (some k))

/-- `match k { Some(k) => Some(k + 1), None => Some(0) }` -/
def advance : Option ℕ → Option ℕ
  | some k => some (k + 1)
  | none => some 0

/-- The body of the loop of `kmp_next`. -/
def nextAt (str : List UInt8) (i : ℕ) :
    List (Option ℕ) × Option ℕ → Option (List (Option ℕ) × Option ℕ)
  | (next, k) => do
    let next ← putAt next i k
    some (next, advance (← loop (fallRound str str next i) (str.length + 2) k))

/-- The table of the first searcher. -/
def kmpNext (str : List UInt8) : Option (List (Option ℕ)) := do
  let next ← putAt (List.replicate str.length (some 0)) 0 none
  let (next, _) ← forRange 1 str.length (nextAt str) (next, some 0)
  some next

/-- A round of the loop of `kmp_index`, which runs to `n`. -/
def indexRound (input : List UInt8 × List UInt8) (next : List (Option ℕ)) (n : ℕ) :
    ℕ × Option ℕ → Option (Round (ℕ × Option ℕ) (Option ℕ))
  | (i, j) =>
    if i < n then
      if j = some input.2.length then do
        some (.done (some (← checkedSub i (← j))))
      else do
        let j ← loop (fallRound input.1 input.2 next i) (input.2.length + 2) j
        some (.again (i + 1, advance j))
    else some (.done none)

/-- The place of a pattern. -/
def kmpIndex (input : List UInt8 × List UInt8) : Option (Option ℕ) := do
  let next ← kmpNext input.2
  let n ← checkedSub input.1.length input.2.length
  loop (indexRound input next n) (n + 1) (0, some 0)

variable {text str : List UInt8} {next : List (Option ℕ)} {i j k m : ℕ}

/-- The entries below `m` are the longest borders of the parts before them. -/
def IsNextTable (str : List UInt8) (next : List (Option ℕ)) (m : ℕ) : Prop :=
  next.length = str.length ∧ (0 < m → next[0]? = some none) ∧
    ∀ k < m, 0 < k → ∃ b, next[k]? = some (some b) ∧ IsLongestBorder str k b

/-- **Falling back to where one more entry agrees**, or to nothing. -/
theorem exists_fall {P Q : ℕ → Prop} (htable : IsNextTable str next m) (hi : i < text.length)
    (hlt : ∀ k, P k → k < m ∧ k < str.length)
    (hsame : ∀ k, P k → str[k]? = text[i]? → Q (k + 1))
    (hback : ∀ k b, P k → 0 < k → str[k]? ≠ text[i]? → IsLongestBorder str k b → P b)
    (hstop : P 0 → str[0]? ≠ text[i]? → Q 0) (hk : P k) :
    ∃ k', loop (fallRound text str next i) (str.length + 2) (some k) = some k' ∧
      ∃ c, advance k' = some c ∧ Q c := by
  have hround : ∀ k : Option ℕ, k.elim (Q 0) P →
      (∃ k', fallRound text str next i k = some (.again k') ∧ k'.elim (Q 0) P ∧
        k'.elim 0 (· + 1) < k.elim 0 (· + 1)) ∨
      ∃ k', fallRound text str next i k = some (.done k') ∧ ∃ c, advance k' = some c ∧ Q c := by
    intro k hk
    cases k with
    | none => exact .inr ⟨none, rfl, 0, rfl, hk⟩
    | some k =>
      obtain ⟨hm, hlen⟩ := hlt k hk
      have hgetT := getElem?_eq_getElem hi
      have hgetS := getElem?_eq_getElem hlen
      by_cases heq : text[i] = str[k]
      · exact .inr ⟨some k, by simp [fallRound, hgetS, heq, hi], k + 1, rfl,
          hsame k hk (by rw [hgetT, hgetS, heq])⟩
      · left
        have hne : str[k]? ≠ text[i]? := by
          rw [hgetT, hgetS]
          exact fun h => heq (Option.some.inj h).symm
        rcases Nat.eq_zero_or_pos k with rfl | hpos
        · exact ⟨none, by simp [fallRound, hgetS, heq, hi, htable.2.1 hm], hstop hk hne,
            Nat.succ_pos 0⟩
        · obtain ⟨b, hb, hlong⟩ := htable.2.2 k hm hpos
          exact ⟨some b, by simp [fallRound, hgetS, heq, hi, hb], hback k b hk hpos hne hlong,
            Nat.succ_lt_succ hlong.le⟩
  have hlen := (hlt k hk).2
  exact loop_spec (fun k => k.elim 0 (· + 1)) hround (s := some k) hk
    (by change k + 1 < str.length + 2; omega)

theorem IsNextTable.set (h : IsNextTable str next i) (hpos : 0 < i) (hi : i < str.length) {b : ℕ}
    (hb : IsLongestBorder str i b) : IsNextTable str (next.set i (some b)) (i + 1) := by
  refine ⟨by rw [List.length_set, h.1], fun _ => ?_, fun q hq hqpos => ?_⟩
  · rw [getElem?_set_ne (by omega), h.2.1 hpos]
  · rcases Nat.lt_succ_iff_lt_or_eq.mp hq with hlt | rfl
    · obtain ⟨c, hc, hlong⟩ := h.2.2 q hlt hqpos
      exact ⟨c, by rw [getElem?_set_ne (by omega), hc], hlong⟩
    · exact ⟨b, getElem?_set_self (h.1 ▸ hi), hb⟩

theorem exists_kmpNext (hstr : str ≠ []) :
    ∃ next, kmpNext str = some next ∧ IsNextTable str next str.length := by
  have hpos := List.length_pos_iff.mpr hstr
  have hrep : 0 < (List.replicate str.length (some 0)).length := by rwa [length_replicate]
  let I : ℕ → List (Option ℕ) × Option ℕ → Prop := fun i s =>
    IsNextTable str s.1 i ∧ ∃ c, s.2 = some c ∧ IsLongestBorder str i c
  have hbody : ∀ i s, 1 ≤ i → i < str.length → I i s → ∃ s', nextAt str i s = some s' ∧
      I (i + 1) s' := by
    rintro i ⟨next, -⟩ hlo hi ⟨htable, c, rfl, hlong⟩
    have htable' := htable.set hlo hi hlong
    obtain ⟨k', hfall, c', hadv, hlong'⟩ := exists_fall (P := BorderCandidate str i)
      (Q := IsLongestBorder str (i + 1)) htable' hi
      (fun k hk => ⟨hk.1.1.trans (Nat.lt_succ_self i), hk.1.1.trans hi⟩)
      (fun k hk => hk.grow hi) (fun k b hk _ => hk.fallBack) (fun hk => hk.stay hi) hlong.candidate
    refine ⟨(next.set i (some c), advance k'), ?_, htable', c', hadv, hlong'⟩
    simp [nextAt, putAt_of_lt (htable.1 ▸ hi : i < next.length), hfall]
  have hstart : I 1 ((List.replicate str.length (some 0)).set 0 none, some 0) :=
    ⟨⟨by simp, fun _ => getElem?_set_self hrep, fun k hk hkpos => by omega⟩, 0, rfl,
      isLongestBorder_one hstr⟩
  obtain ⟨⟨next, k⟩, hrun, htable, -⟩ := forRange_spec hpos hstart hbody
  exact ⟨next, by simp [kmpNext, putAt_of_lt hrep, hrun], htable⟩

/-- What holds whenever the loop of `kmp_index` comes round. -/
def IndexInvariant (text str : List UInt8) (i k : ℕ) : Prop :=
  Held str text i k ∧ ∀ s, StandsAt str text s → i - k ≤ s

theorem IndexInvariant.exists_fall (h : IndexInvariant text str i k)
    (htable : IsNextTable str next str.length) (hk : k < str.length) (hi : i < text.length) :
    ∃ k', loop (fallRound text str next i) (str.length + 2) (some k) = some k' ∧
      ∃ c, advance k' = some c ∧ IndexInvariant text str (i + 1) c := by
  refine KmpSearch.exists_fall (P := fun k => k < str.length ∧ IndexInvariant text str i k)
    htable hi (fun k hk => ⟨hk.1, hk.1⟩) (fun k hk heq => ⟨hk.2.1.succ hk.1 hi heq, ?_⟩)
    (fun k b hk hpos hne hb => ⟨hb.le.trans hk.1, hk.2.1.trans hb.1.2, fun s hs => ?_⟩)
    (fun hk hne => ⟨held_zero hi, fun s hs => ?_⟩) ⟨hk, h⟩
  · rw [Nat.add_sub_add_right]
    exact hk.2.2
  · by_contra hlt
    have hlo := hk.2.2 s hs
    have hki := hk.2.1.le
    rcases Nat.lt_or_eq_of_le hlo with hlo | rfl
    · exact hk.2.1.not_standsAt hb.2 hlo (by omega) hs
    · refine hne ?_
      rw [← hs.getElem? hk.1, Nat.sub_add_cancel hki]
  · have hlo := hk.2.2 s hs
    rcases Nat.lt_or_eq_of_le hlo with hlt | rfl
    · omega
    · exact absurd (hs.getElem? hk.1).symm hne

/-- **What the first searcher returns**: the first place of the pattern, if it ends before the
length of the text less that of the pattern. -/
theorem exists_kmpIndex (hstr : str ≠ []) (hle : str.length ≤ text.length) :
    ∃ r, kmpIndex (text, str) = some r ∧
      ∀ s, r = some s ↔ IsFirst str text s ∧ s + 2 * str.length < text.length := by
  have hpos := List.length_pos_iff.mpr hstr
  obtain ⟨next, hnext, htable⟩ := exists_kmpNext hstr
  have hround : ∀ s : ℕ × Option ℕ, (s.1 ≤ text.length - str.length ∧
      ∃ k, s.2 = some k ∧ IndexInvariant text str s.1 k) →
      (∃ s', indexRound (text, str) next (text.length - str.length) s = some (.again s') ∧
        (s'.1 ≤ text.length - str.length ∧ ∃ k, s'.2 = some k ∧
          IndexInvariant text str s'.1 k) ∧
        text.length - str.length - s'.1 < text.length - str.length - s.1) ∨
      ∃ r, indexRound (text, str) next (text.length - str.length) s = some (.done r) ∧
        ∀ s, r = some s ↔ IsFirst str text s ∧ s + 2 * str.length < text.length := by
    rintro ⟨i, -⟩ ⟨hi, k, rfl, hinv⟩
    have hki := hinv.1.le
    have hkm := hinv.1.1
    by_cases hlt : i < text.length - str.length
    · rcases Nat.lt_or_eq_of_le hkm with hk | rfl
      · obtain ⟨k', hfall, c, hadv, hinv'⟩ := hinv.exists_fall htable hk (by omega)
        refine .inl ⟨(i + 1, advance k'), ?_, ⟨hlt, c, hadv, hinv'⟩, by dsimp only; omega⟩
        simp [indexRound, hlt, hk.ne, hfall]
      · refine .inr ⟨some (i - str.length), by simp [indexRound, hlt, hki], fun s => ?_⟩
        rw [Option.some_inj]
        constructor
        · rintro rfl
          exact ⟨⟨hinv.1.standsAt, hinv.2⟩, by omega⟩
        · rintro ⟨hs, -⟩
          exact le_antisymm (hinv.2 s hs.1) (hs.2 _ hinv.1.standsAt)
    · refine .inr ⟨none, by simp [indexRound, hlt], fun s => iff_of_false (by simp) ?_⟩
      rintro ⟨hs, hbound⟩
      have hlo := hinv.2 s hs.1
      omega
  obtain ⟨r, hrun, hr⟩ := loop_spec _ hround (s := (0, some 0))
    ⟨Nat.zero_le _, 0, rfl, held_zero (Nat.zero_le _), fun s _ => by omega⟩
    (Nat.lt_succ_self (text.length - str.length))
  exact ⟨r, by simpa [kmpIndex, hnext, hle] using hrun, hr⟩

/-! ### The searcher that starts over -/

/-- The second searcher. -/
structure KMP where
  pattern : String
  failureFunction : List ℕ
  patternLength : ℕ

namespace KMP

/-- A round of the loop of `find_failure_function`. -/
def failureRound (pattern : String) (patternLength : ℕ) :
    List ℕ × ℕ × ℕ → Option (Round (List ℕ × ℕ × ℕ) (List ℕ))
  | (failureFunction, i, j) =>
    if i < patternLength then
      if pattern.toList[i]? = pattern.toList[j]? then do
        some (.again (← putAt failureFunction i (j + 1), i + 1, j + 1))
      else some (.again (failureFunction, i + 1, 0))
    else some (.done failureFunction)

/-- Its failure function. -/
def findFailureFunction (pattern : String) (patternLength : ℕ) : Option (List ℕ) :=
  loop (failureRound pattern patternLength) (patternLength + 1)
    (List.replicate patternLength 0, 1, 0)

/-- The searcher of a pattern. -/
def new (pattern : String) : Option KMP := do
  let patternLength := pattern.utf8ByteSize
  some ⟨pattern, ← findFailureFunction pattern patternLength, patternLength⟩

/-- A round of the loop of `index_of_any`. -/
def scanRound (kmp : KMP) (target : String) :
    Int32 × ℕ × ℕ → Option (Round (Int32 × ℕ × ℕ) Int32)
  | (resultIdx, tI, pI) =>
    if tI < target.utf8ByteSize ∧ pI < kmp.patternLength then
      if target.toList[tI]? = kmp.pattern.toList[pI]? then
        let resultIdx := if resultIdx = -1 then Int32.ofNat tI else resultIdx
        if kmp.patternLength ≤ pI + 1 then some (.done resultIdx)
        else some (.again (resultIdx, tI + 1, pI + 1))
      else if pI = 0 then some (.again (-1, tI + 1, pI))
      else do some (.again (-1, tI, ← kmp.failureFunction[pI - 1]?))
    else some (.done (-1))

/-- Scans the target. -/
def indexOfAny (kmp : KMP) (target : String) : Option Int32 :=
  loop (kmp.scanRound target) (2 * target.utf8ByteSize + 1) (-1, 0, 0)

end KMP

/-- `KMP::new(pattern).index_of_any(target)` -/
def searchWithKMP (pattern target : String) : Option Int32 := do
  (← KMP.new pattern).indexOfAny target

/-- All characters are ASCII characters. -/
def IsAscii (s : String) : Prop := ∀ c ∈ s.toList, c.val ≤ 127

instance (s : String) : Decidable (IsAscii s) :=
  List.decidableBAll (fun c : Char => c.val ≤ 127) s.toList

theorem IsAscii.utf8ByteSize_eq {s : String} (h : IsAscii s) :
    s.utf8ByteSize = s.toList.length := by
  induction s using String.push_induction with
  | empty => simp
  | push s c ih =>
    rw [IsAscii, String.toList_push] at h
    rw [String.toList_push, length_append, length_singleton, String.utf8ByteSize_push,
      ih fun d hd => h d (mem_append_left _ hd),
      Char.utf8Size_eq_one_iff.mpr (h c (mem_append_right _ (mem_singleton_self c)))]

/-! ### The table of runs -/

section Attempts

variable {α : Type*} [DecidableEq α] {p t : List α} {a a' q s : ℕ}

/-- How many entries up to `i` agree with the begin of the pattern, where the count starts over
after each entry that does not agree. -/
def greedyRun (p : List α) : ℕ → ℕ
  | 0 => 0
  | i + 1 => if p[i + 1]? = p[greedyRun p i]? then greedyRun p i + 1 else 0

theorem greedyRun_border (hq : q < p.length) : IsBorder p (q + 1) (greedyRun p q) := by
  induction q with
  | zero => exact (isLongestBorder_one (ne_nil_of_length_pos hq)).1
  | succ q ih =>
    have hborder := ih (by omega)
    rw [greedyRun]
    split_ifs with heq
    · exact ⟨Nat.succ_lt_succ hborder.1,
        hborder.2.succ (by have := hborder.1; omega) hq heq.symm⟩
    · exact ⟨Nat.succ_pos _, held_zero hq⟩

/-- A place that agrees for exactly `q` entries, and the place tried after it. -/
def NextAttempt (p t : List α) (a a' : ℕ) : Prop :=
  ∃ q < p.length, a + q < t.length ∧ Held p t (a + q) q ∧ p[q]? ≠ t[a + q]? ∧
    a' = if q = 0 then a + 1 else a + q - greedyRun p (q - 1)

/-- The places that are tried, until the pattern is found. -/
def Attempted (p t : List α) (a : ℕ) : Prop := Relation.ReflTransGen (NextAttempt p t) 0 a

end Attempts

/-- The state of the searcher for a pattern. -/
structure KMP.IsNew (kmp : KMP) (pattern : String) : Prop where
  pattern_eq : kmp.pattern = pattern
  patternLength_eq : kmp.patternLength = pattern.toList.length
  failureFunction_eq : ∀ q < pattern.toList.length,
    kmp.failureFunction[q]? = some (greedyRun pattern.toList q)

/-- What holds whenever the loop of `find_failure_function` comes round. -/
def FailureInvariant (p : List Char) : List ℕ × ℕ × ℕ → Prop
  | (f, i, j) => f.length = p.length ∧ 0 < i ∧ i ≤ p.length ∧ j = greedyRun p (i - 1) ∧
      ∀ q < p.length, f[q]? = some (if q < i then greedyRun p q else 0)

theorem failureRound_spec (pattern : String) (s : List ℕ × ℕ × ℕ)
    (hs : FailureInvariant pattern.toList s) :
    (∃ s', KMP.failureRound pattern pattern.toList.length s = some (.again s') ∧
      FailureInvariant pattern.toList s' ∧
      pattern.toList.length - s'.2.1 < pattern.toList.length - s.2.1) ∨
    ∃ f, KMP.failureRound pattern pattern.toList.length s = some (.done f) ∧
      ∀ q < pattern.toList.length, f[q]? = some (greedyRun pattern.toList q) := by
  obtain ⟨f, i, j⟩ := s
  obtain ⟨hlen, hi, hle, hj, hf⟩ := hs
  have hstep : greedyRun pattern.toList i =
      if pattern.toList[i]? = pattern.toList[j]? then j + 1 else 0 := by
    obtain ⟨i, rfl⟩ := Nat.exists_eq_succ_of_ne_zero hi.ne'
    rw [hj]
    rfl
  by_cases hlt : i < pattern.toList.length
  · left
    have hput : i < f.length := hlen ▸ hlt
    by_cases heq : pattern.toList[i]? = pattern.toList[j]?
    · rw [if_pos heq] at hstep
      refine ⟨(f.set i (j + 1), i + 1, j + 1), ?_,
        ⟨by rw [List.length_set, hlen], Nat.succ_pos i, hlt, hstep.symm, fun q hq => ?_⟩,
        by dsimp only; omega⟩
      · rw [KMP.failureRound, if_pos hlt, if_pos heq, putAt_of_lt hput]
        rfl
      · rcases eq_or_ne q i with rfl | hne
        · rw [getElem?_set_self hput, ← hstep, if_pos (Nat.lt_succ_self q)]
        · rw [getElem?_set_ne hne.symm, hf q hq]
          exact congrArg some (if_congr (by omega) rfl rfl)
    · rw [if_neg heq] at hstep
      refine ⟨(f, i + 1, 0), by rw [KMP.failureRound, if_pos hlt, if_neg heq],
        ⟨hlen, Nat.succ_pos i, hlt, hstep.symm, fun q hq => ?_⟩, by dsimp only; omega⟩
      rw [hf q hq]
      rcases eq_or_ne q i with rfl | hne
      · rw [if_neg (Nat.lt_irrefl q), if_pos (Nat.lt_succ_self q), hstep]
      · exact congrArg some (if_congr (by omega) rfl rfl)
  · refine .inr ⟨f, by rw [KMP.failureRound, if_neg hlt], fun q hq => ?_⟩
    rw [hf q hq, if_pos (by omega)]

theorem KMP.exists_new {pattern : String} (hp : pattern.toList ≠ []) (hascii : IsAscii pattern) :
    ∃ kmp, KMP.new pattern = some kmp ∧ kmp.IsNew pattern := by
  have hpos := List.length_pos_iff.mpr hp
  have hsize := hascii.utf8ByteSize_eq
  have hstart : FailureInvariant pattern.toList
      (List.replicate pattern.toList.length 0, 1, 0) := by
    refine ⟨length_replicate, Nat.one_pos, hpos, rfl, fun q hq => ?_⟩
    rw [getElem?_replicate_of_lt hq]
    split_ifs with hlt
    · obtain rfl : q = 0 := Nat.lt_one_iff.mp hlt
      rfl
    · rfl
  obtain ⟨f, hrun, hf⟩ := loop_spec (fun s => pattern.toList.length - s.2.1)
    (failureRound_spec pattern) hstart
    (show pattern.toList.length - 1 < pattern.toList.length + 1 by omega)
  rw [← hsize] at hrun
  refine ⟨⟨pattern, f, pattern.utf8ByteSize⟩, ?_, rfl, hsize, hf⟩
  rw [KMP.new, findFailureFunction, hrun]
  rfl

/-- Where the pattern begins, as noted by the scan. -/
def noted (r : Int32) (t : ℕ) : Int32 := if r = -1 then Int32.ofNat t else r

/-- **The scan of the second searcher, with an invariant** of what it notes, the position in the
text and the position in the pattern. -/
theorem scan_spec {pattern target : String} {I : Int32 → ℕ → ℕ → Prop} {Q : Int32 → Prop}
    {p t : List Char} (hpt : p = pattern.toList) (htt : t = target.toList) (hp : p ≠ [])
    (hascii : IsAscii pattern) (htarget : IsAscii target)
    (hagree : ∀ r i q, I r i q → Held p t i q → q + 1 < p.length → i < t.length →
      p[q]? = t[i]? → I (noted r i) (i + 1) (q + 1))
    (hfound : ∀ r i q, I r i q → Held p t i q → q + 1 = p.length → i < t.length →
      p[q]? = t[i]? → Q (noted r i))
    (hnext : ∀ r i q i' q', I r i q → Held p t i q → q < p.length → i < t.length →
      p[q]? ≠ t[i]? → (q = 0 ∧ i' = i + 1 ∧ q' = 0 ∨ 0 < q ∧ i' = i ∧ q' = greedyRun p (q - 1)) →
      I (-1) i' q')
    (hend : ∀ r q, I r t.length q → Held p t t.length q → q < p.length → Q (-1))
    (hstart : I (-1) 0 0) : ∃ r, searchWithKMP pattern target = some r ∧ Q r := by
  subst hpt htt
  obtain ⟨kmp, hnew, hkmp⟩ := KMP.exists_new hp hascii
  have hsize := htarget.utf8ByteSize_eq
  have hround : ∀ s : Int32 × ℕ × ℕ, (I s.1 s.2.1 s.2.2 ∧
      Held pattern.toList target.toList s.2.1 s.2.2 ∧ s.2.2 < pattern.toList.length) →
      (∃ s', kmp.scanRound target s = some (.again s') ∧ (I s'.1 s'.2.1 s'.2.2 ∧
        Held pattern.toList target.toList s'.2.1 s'.2.2 ∧ s'.2.2 < pattern.toList.length) ∧
        2 * (target.toList.length - s'.2.1) + s'.2.2 <
          2 * (target.toList.length - s.2.1) + s.2.2) ∨
      ∃ r, kmp.scanRound target s = some (.done r) ∧ Q r := by
    rintro ⟨r, i, q⟩ ⟨hI, hheld, hq⟩
    dsimp only at hI hheld hq ⊢
    by_cases hi : i < target.toList.length
    · have hcond : i < target.utf8ByteSize ∧ q < kmp.patternLength := by
        rw [hsize, hkmp.patternLength_eq]
        exact ⟨hi, hq⟩
      by_cases heq : pattern.toList[q]? = target.toList[i]?
      · have heq' : target.toList[i]? = kmp.pattern.toList[q]? := by rw [hkmp.pattern_eq, heq]
        by_cases hlast : q + 1 = pattern.toList.length
        · refine .inr ⟨noted r i, ?_, hfound r i q hI hheld hlast hi heq⟩
          rw [KMP.scanRound, if_pos hcond, if_pos heq', hkmp.patternLength_eq, if_pos hlast.ge]
          rfl
        · have hsucc : q + 1 < pattern.toList.length := by omega
          refine .inl ⟨(noted r i, i + 1, q + 1), ?_,
            ⟨hagree r i q hI hheld hsucc hi heq, hheld.succ hq hi heq, hsucc⟩,
            by dsimp only; omega⟩
          rw [KMP.scanRound, if_pos hcond, if_pos heq', hkmp.patternLength_eq,
            if_neg (Nat.not_le_of_lt hsucc)]
          rfl
      · left
        have heq' : ¬ target.toList[i]? = kmp.pattern.toList[q]? := by
          rw [hkmp.pattern_eq]
          exact fun h => heq h.symm
        rcases Nat.eq_zero_or_pos q with rfl | hpos
        · refine ⟨(-1, i + 1, 0), by rw [KMP.scanRound, if_pos hcond, if_neg heq', if_pos rfl],
            ⟨hnext r i 0 _ _ hI hheld hq hi heq (.inl ⟨rfl, rfl, rfl⟩), held_zero hi, hq⟩,
            by dsimp only; omega⟩
        · have hborder := greedyRun_border (p := pattern.toList) (q := q - 1) (by omega)
          rw [Nat.sub_add_cancel hpos] at hborder
          have hlt := hborder.1
          refine ⟨(-1, i, greedyRun pattern.toList (q - 1)), ?_,
            ⟨hnext r i q _ _ hI hheld hq hi heq (.inr ⟨hpos, rfl, rfl⟩),
              hheld.trans hborder.2, hlt.trans hq⟩, by dsimp only; omega⟩
          rw [KMP.scanRound, if_pos hcond, if_neg heq', if_neg hpos.ne',
            hkmp.failureFunction_eq _ (by omega)]
          rfl
    · obtain rfl : i = target.toList.length := le_antisymm hheld.2.1 (Nat.le_of_not_lt hi)
      refine .inr ⟨-1, ?_, hend r q hI hheld hq⟩
      rw [KMP.scanRound, if_neg (by rw [hsize]; omega)]
  obtain ⟨r, hrun, hr⟩ := loop_spec _ hround (s := (-1, 0, 0))
    ⟨hstart, held_zero (Nat.zero_le _), List.length_pos_iff.mpr hp⟩
    (show 2 * (target.toList.length - 0) + 0 < 2 * target.utf8ByteSize + 1 by omega)
  exact ⟨r, by rw [searchWithKMP, hnew]; exact hrun, hr⟩

/-! ### What the second searcher returns -/

section Attempts

variable {α : Type*} [DecidableEq α] {p t : List α} {a a' i q i' q' s : ℕ}

theorem nextAttempt_of_ne (hheld : Held p t i q) (hq : q < p.length) (hi : i < t.length)
    (hne : p[q]? ≠ t[i]?)
    (hnext : q = 0 ∧ i' = i + 1 ∧ q' = 0 ∨ 0 < q ∧ i' = i ∧ q' = greedyRun p (q - 1)) :
    NextAttempt p t (i - q) (i' - q') := by
  have hqi := Nat.sub_add_cancel hheld.le
  refine ⟨q, hq, by rwa [hqi], by rwa [hqi], by rwa [hqi], ?_⟩
  rcases hnext with ⟨rfl, rfl, rfl⟩ | ⟨hpos, rfl, rfl⟩
  · rfl
  · rw [if_neg hpos.ne', hqi]

theorem NextAttempt.lt (h : NextAttempt p t a a') : a < a' := by
  obtain ⟨q, hq, -, -, -, rfl⟩ := h
  split_ifs with hzero
  · exact Nat.lt_succ_self a
  · have hborder := (greedyRun_border (p := p) (q := q - 1) (by omega)).1
    omega

theorem NextAttempt.unique {a₁ a₂ : ℕ} (h₁ : NextAttempt p t a a₁) (h₂ : NextAttempt p t a a₂) :
    a₁ = a₂ := by
  obtain ⟨q₁, -, -, hheld₁, hne₁, rfl⟩ := h₁
  obtain ⟨q₂, -, -, hheld₂, hne₂, rfl⟩ := h₂
  rcases lt_trichotomy q₁ q₂ with hlt | rfl | hlt
  · refine absurd ?_ hne₁
    rw [hheld₂.getElem? hlt, Nat.add_sub_cancel]
  · rfl
  · refine absurd ?_ hne₂
    rw [hheld₁.getElem? hlt, Nat.add_sub_cancel]

theorem le_of_attempts (h : Relation.ReflTransGen (NextAttempt p t) a a') : a ≤ a' := by
  induction h with
  | refl => exact Nat.le_refl a
  | tail _ hnext ih => exact ih.trans hnext.lt.le

/-- An attempt before the place `s` agrees with the text beyond where the place begins. -/
def RunsOver (p t : List α) (s : ℕ) : Prop :=
  ∃ a q, Attempted p t a ∧ a < s ∧ Held p t (a + q) q ∧ s < a + q

end Attempts

variable {pattern target : String} {s : ℕ}

theorem ofNat_ne_neg_one {n : ℕ} (h : n < 2 ^ 31) : Int32.ofNat n ≠ -1 := by
  intro heq
  have hint := congrArg Int32.toInt heq
  rw [Int32.toInt_ofNat_of_lt h] at hint
  have hneg : (-1 : Int32).toInt = -1 := rfl
  omega

theorem ofNat_inj {n k : ℕ} (hn : n < 2 ^ 31) (hk : k < 2 ^ 31)
    (h : Int32.ofNat n = Int32.ofNat k) : n = k := by
  have hint := congrArg Int32.toInt h
  rw [Int32.toInt_ofNat_of_lt hn, Int32.toInt_ofNat_of_lt hk] at hint
  exact Int.ofNat_inj.mp hint

theorem searchWithKMP_of_not (hp : pattern.toList ≠ []) (hascii : IsAscii pattern)
    (htarget : IsAscii target) (hnot : ∀ s, ¬ StandsAt pattern.toList target.toList s) :
    searchWithKMP pattern target = some (-1) := by
  obtain ⟨r, hrun, rfl⟩ := scan_spec (I := fun _ _ _ => True) (Q := fun r => r = -1) rfl rfl hp
    hascii htarget (fun _ _ _ _ _ _ _ _ => trivial)
    (fun r i q _ hheld hlast hi heq => absurd (hheld.standsAt_of_agree hlast hi heq) (hnot _))
    (fun _ _ _ _ _ _ _ _ _ _ _ => trivial) (fun _ _ _ _ _ => rfl) trivial
  exact hrun

/-- The first place is found if no attempt before it runs over it. -/
theorem searchWithKMP_of_first (hp : pattern.toList ≠ []) (hascii : IsAscii pattern)
    (htarget : IsAscii target) (hlen : target.toList.length < 2 ^ 31)
    (hs : IsFirst pattern.toList target.toList s)
    (hover : ¬ RunsOver pattern.toList target.toList s) :
    searchWithKMP pattern target = some (Int32.ofNat s) := by
  have hle := hs.1.le hp
  have hmark := ofNat_ne_neg_one (show s < 2 ^ 31 by omega)
  let I : Int32 → ℕ → ℕ → Prop := fun r i q =>
    Attempted pattern.toList target.toList (i - q) ∧ i - q ≤ s ∧
      (i - q = s → q = 0 ∧ r = -1 ∨ r = Int32.ofNat s)
  have hnoted : ∀ r i q, I r i q → i - q = s → noted r i = Int32.ofNat s := by
    intro r i q hI hat
    rcases hI.2.2 hat with ⟨rfl, rfl⟩ | rfl
    · rw [noted, if_pos rfl, ← hat, Nat.sub_zero]
    · rw [noted, if_neg hmark]
  suffices h : ∃ r, searchWithKMP pattern target = some r ∧ r = Int32.ofNat s by
    obtain ⟨r, hrun, rfl⟩ := h
    exact hrun
  refine scan_spec (I := I) rfl rfl hp hascii htarget ?_ ?_ ?_ ?_ ?_
  · intro r i q hI hheld hq hi heq
    refine ⟨?_, ?_, fun hat => .inr (hnoted r i q hI ?_)⟩
    · rw [Nat.add_sub_add_right]
      exact hI.1
    · rw [Nat.add_sub_add_right]
      exact hI.2.1
    · rwa [Nat.add_sub_add_right] at hat
  · intro r i q hI hheld hlast hi heq
    exact hnoted r i q hI (le_antisymm hI.2.1 (hs.2 _ (hheld.standsAt_of_agree hlast hi heq)))
  · intro r i q i' q' hI hheld hq hi hne hnext
    have hstep := nextAttempt_of_ne hheld hq hi hne hnext
    have hlt : i - q < s := lt_of_le_of_ne hI.2.1 fun hat =>
      hne (by rw [← hs.1.getElem? hq, ← hat, Nat.sub_add_cancel hheld.le])
    have hqi := hheld.le
    have hbefore : i ≤ s := by
      by_contra hafter
      exact hover ⟨i - q, q, hI.1, hlt, by rwa [Nat.sub_add_cancel hqi], by omega⟩
    refine ⟨hI.1.tail hstep, by omega, fun hat => .inl ⟨?_, rfl⟩⟩
    omega
  · intro r q hI _ hq
    have hbefore := hI.2.1
    have hpos := List.length_pos_iff.mpr hp
    omega
  · exact ⟨Relation.ReflTransGen.refl, Nat.zero_le _, fun _ => .inl ⟨rfl, rfl⟩⟩

/-- Another position is returned if an attempt runs over the first place. -/
theorem searchWithKMP_of_runsOver (hp : pattern.toList ≠ []) (hascii : IsAscii pattern)
    (htarget : IsAscii target) (hlen : target.toList.length < 2 ^ 31)
    (hs : IsFirst pattern.toList target.toList s)
    (hover : RunsOver pattern.toList target.toList s) :
    ∃ r, searchWithKMP pattern target = some r ∧ r ≠ Int32.ofNat s := by
  have hle := hs.1.le hp
  have hmark := ofNat_ne_neg_one (show s < 2 ^ 31 by omega)
  obtain ⟨a, run, hattempt, has, hheldRun, hrun⟩ := hover
  -- past the place, and with a mark after it unless an attempt before it goes on
  let Misled : Int32 → ℕ → ℕ → Prop := fun r i q =>
    s < i ∧ (i - q < s ∨ r = -1 ∨ ∃ u, r = Int32.ofNat u ∧ s < u ∧ u < target.toList.length)
  let Leads : ℕ → ℕ → Prop := fun i q =>
    Relation.ReflTransGen (NextAttempt pattern.toList target.toList) (i - q) a ∧
      (i - q = a → i ≤ s)
  have hnoted : ∀ r i q, Misled r i q → s ≤ i - q → i < target.toList.length →
      ∃ u, noted r i = Int32.ofNat u ∧ s < u ∧ u < target.toList.length := by
    rintro r i q ⟨hsi, hlt | rfl | ⟨u, rfl, hu⟩⟩ hat hi
    · omega
    · exact ⟨i, by rw [noted, if_pos rfl], hsi, hi⟩
    · exact ⟨u, by rw [noted, if_neg (ofNat_ne_neg_one (by omega))], hu⟩
  refine scan_spec (I := fun r i q => Misled r i q ∨ Leads i q) (Q := fun r => r ≠ Int32.ofNat s)
    rfl rfl hp hascii htarget ?_ ?_ ?_ (fun _ _ _ _ _ => hmark.symm) (.inr ⟨hattempt, ?_⟩)
  · intro r i q hI hheld hq hi heq
    rw [show Leads (i + 1) (q + 1) ↔ _ ∧ _ from Iff.rfl, Nat.add_sub_add_right]
    rcases hI with hmisled | hleads
    · refine .inl ⟨hmisled.1.trans (Nat.lt_succ_self i), ?_⟩
      rw [Nat.add_sub_add_right]
      rcases lt_or_ge (i - q) s with hlt | hge
      · exact .inl hlt
      · exact .inr (.inr (hnoted r i q hmisled hge hi))
    · rcases lt_or_ge s (i + 1) with hlt | hge
      · refine .inl ⟨hlt, .inl ?_⟩
        have hback := le_of_attempts hleads.1
        omega
      · exact .inr ⟨hleads.1, fun _ => hge⟩
  · intro r i q hI hheld hlast hi heq
    have hge := hs.2 _ (hheld.standsAt_of_agree hlast hi heq)
    rcases hI with hmisled | hleads
    · obtain ⟨u, hu, hsu, hut⟩ := hnoted r i q hmisled hge hi
      rw [hu]
      exact fun h => hsu.ne' (ofNat_inj (by omega) (by omega) h)
    · have hback := le_of_attempts hleads.1
      omega
  · intro r i q i' q' hI hheld hq hi hne hnext
    have hstep := nextAttempt_of_ne hheld hq hi hne hnext
    have hqi := hheld.le
    rcases lt_or_ge s i' with hlt | hge
    · exact .inl ⟨hlt, .inr (.inl rfl)⟩
    · right
      rcases hI with hmisled | hleads
      · have hsi := hmisled.1
        omega
      · rcases hleads.1.cases_head with hat | ⟨a₁, hfirst, hrest⟩
        · have hbefore := hleads.2 hat
          refine absurd ?_ hne
          rw [hheldRun.getElem? (show q < run by omega), Nat.add_sub_cancel, ← hat,
            Nat.sub_add_cancel hqi]
        · exact ⟨hstep.unique hfirst ▸ hrest, fun _ => hge⟩
  · intro _
    exact Nat.zero_le s

/-! ### The two searchers -/

theorem exists_isFirst {α : Type*} {p t : List α} {s : ℕ} (h : StandsAt p t s) :
    ∃ s₀, IsFirst p t s₀ := by
  classical
  have hex : ∃ s, StandsAt p t s := ⟨s, h⟩
  exact ⟨Nat.find hex, Nat.find_spec hex, fun s' hs' => Nat.find_min' hex hs'⟩

theorem IsFirst.unique {α : Type*} {p t : List α} {s s' : ℕ} (h : IsFirst p t s)
    (h' : IsFirst p t s') : s = s' := le_antisymm (h.2 s' h'.1) (h'.2 s h.1)

/-- The first searcher finds the places that end early enough. -/
theorem kmpIndex_iff (hstr : str ≠ []) (hle : str.length ≤ text.length) :
    (∃ r, kmpIndex (text, str) = some r ∧ ∀ s, r = some s ↔ IsFirst str text s) ↔
      ∀ s, IsFirst str text s → s + 2 * str.length < text.length := by
  obtain ⟨r, hrun, hr⟩ := exists_kmpIndex hstr hle
  constructor
  · rintro ⟨r', hrun', hr'⟩ s hs
    obtain rfl : r = r' := Option.some.inj (hrun.symm.trans hrun')
    exact ((hr s).mp ((hr' s).mpr hs)).2
  · intro h
    refine ⟨r, hrun, fun s => (hr s).trans ?_⟩
    rw [and_iff_left_iff_imp]
    exact h s

/-- The second searcher finds the places that no attempt runs over. -/
theorem searchWithKMP_iff (hp : pattern.toList ≠ []) (hascii : IsAscii pattern)
    (htarget : IsAscii target) (hlen : target.toList.length < 2 ^ 31) :
    (∃ r, searchWithKMP pattern target = some r ∧
        (∀ s : ℕ, r.toInt = s ↔ IsFirst pattern.toList target.toList s) ∧
        (r = -1 ↔ ∀ s, ¬ StandsAt pattern.toList target.toList s)) ↔
      ∀ s, IsFirst pattern.toList target.toList s →
        ¬ RunsOver pattern.toList target.toList s := by
  constructor
  · rintro ⟨r, hrun, hr, -⟩ s hs hover
    obtain ⟨r', hrun', hne⟩ := searchWithKMP_of_runsOver hp hascii htarget hlen hs hover
    obtain rfl : r = r' := Option.some.inj (hrun.symm.trans hrun')
    have hle := hs.1.le hp
    refine hne (Int32.toInt.inj ?_)
    rw [(hr s).mpr hs, Int32.toInt_ofNat_of_lt (by omega)]
  · intro h
    by_cases hocc : ∃ s, StandsAt pattern.toList target.toList s
    · obtain ⟨s, hs⟩ := hocc
      obtain ⟨s₀, hfirst⟩ := exists_isFirst hs
      have hle := hfirst.1.le hp
      have hsmall : s₀ < 2 ^ 31 := by omega
      refine ⟨_, searchWithKMP_of_first hp hascii htarget hlen hfirst (h s₀ hfirst),
        fun s' => ?_, iff_of_false (ofNat_ne_neg_one hsmall) fun hnot => hnot s hs⟩
      rw [Int32.toInt_ofNat_of_lt hsmall, Int.ofNat_inj]
      exact ⟨fun heq => heq ▸ hfirst, fun hs' => hfirst.unique hs'⟩
    · have hnot : ∀ s, ¬ StandsAt pattern.toList target.toList s := fun s hs => hocc ⟨s, hs⟩
      refine ⟨-1, searchWithKMP_of_not hp hascii htarget hnot, fun s => ?_,
        iff_of_true rfl hnot⟩
      refine iff_of_false ?_ fun hs => hnot s hs.1
      have hneg : (-1 : Int32).toInt = -1 := rfl
      omega

/-- **The searchers return the first place**: the first one if the place, and the length of the
pattern after it, end before the text does; the second one if no attempt before it agrees beyond
where it begins. -/
theorem firstPlaces_iff (text str : List UInt8) (pattern target : String) (hstr : str ≠ [])
    (hle : str.length ≤ text.length) (hp : pattern ≠ "") (hascii : IsAscii pattern)
    (htarget : IsAscii target) (hlen : target.utf8ByteSize < 2 ^ 31) :
    ((∃ r, kmpIndex (text, str) = some r ∧ ∀ s, r = some s ↔ IsFirst str text s) ↔
      ∀ s, IsFirst str text s → s + 2 * str.length < text.length) ∧
    ((∃ r, searchWithKMP pattern target = some r ∧
        (∀ s : ℕ, r.toInt = s ↔ IsFirst pattern.toList target.toList s) ∧
        (r = -1 ↔ ∀ s, ¬ StandsAt pattern.toList target.toList s)) ↔
      ∀ s, IsFirst pattern.toList target.toList s →
        ¬ RunsOver pattern.toList target.toList s) :=
  ⟨kmpIndex_iff hstr hle, searchWithKMP_iff (by simpa using hp) hascii htarget
    (htarget.utf8ByteSize_eq ▸ hlen)⟩

/-- A pattern well before the end of the text, and one behind an attempt that fails at once. -/
theorem firstPlaces_example :
    (∃ r, kmpIndex ([97, 98, 97, 98, 99], [97, 98]) = some r ∧
      ∀ s, r = some s ↔ IsFirst [97, 98] ([97, 98, 97, 98, 99] : List UInt8) s) ∧
    ∃ r, searchWithKMP "ab" "cab" = some r ∧
      (∀ s : ℕ, r.toInt = s ↔ IsFirst "ab".toList "cab".toList s) ∧
      (r = -1 ↔ ∀ s, ¬ StandsAt "ab".toList "cab".toList s) := by
  have h := firstPlaces_iff [97, 98, 97, 98, 99] [97, 98] "ab" "cab" (by decide) (by decide)
    (by decide) (by decide) (by decide) (by decide)
  refine ⟨h.1.mpr fun s hs => ?_, h.2.mpr fun s hs => ?_⟩
  · have hzero := hs.2 0 (by decide)
    simp only [length_cons, length_nil]
    omega
  · rintro ⟨a, q, -, has, hheld, hsq⟩
    have hone := hs.2 1 (by decide)
    obtain rfl : a = 0 := by omega
    have hbegin := hheld.getElem? (show 0 < q by omega)
    simp at hbegin

/-- A text that is its own pattern, and a pattern that is begun one entry too early. -/
theorem missed_places :
    (kmpIndex ([97, 98], [97, 98]) = some none ∧ IsFirst [97, 98] ([97, 98] : List UInt8) 0) ∧
      searchWithKMP "aab" "aaab" = some 2 ∧ IsFirst "aab".toList "aaab".toList 1 := by
  refine ⟨⟨by decide, by decide, fun s _ => Nat.zero_le s⟩, by decide, by decide, fun s hs => ?_⟩
  by_contra hlt
  obtain rfl : s = 0 := by omega
  exact absurd hs (by decide)

end RustExample.KmpSearch
