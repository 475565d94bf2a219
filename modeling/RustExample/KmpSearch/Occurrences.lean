import RustExample.Foundation.Borders
import RustExample.Foundation.Loops
import RustExample.Foundation.Words

/-!
# All places of a pattern in a text

The search holds the longest first part of the pattern that the text read so far ends with. Where
the whole pattern is held it notes the place, and goes on with the longest border of the pattern.

Source: `kmp_workspace_example/kmp_search_example/src/main.rs`.

* A string is the list of its bytes.
-/

namespace RustExample.KmpSearch

open List

/-! ### The operations -/

/-- A round of the loop of `compute_lps`. -/
def lpsRound (pattern : List UInt8) :
    List ℕ × ℕ × ℕ → Option (Round (List ℕ × ℕ × ℕ) (List ℕ))
  | (lps, len, i) =>
    if i < pattern.length then do
      if (← pattern[i]?) = (← pattern[len]?) then
        some (.again (← putAt lps i (len + 1), len + 1, i + 1))
      else if len ≠ 0 then
        some (.again (lps, ← lps[len - 1]?, i))
      else
        some (.again (← putAt lps i 0, len, i + 1))
    else some (.done lps)

/-- The lengths of the longest borders. -/
def computeLps (pattern : List UInt8) : Option (List ℕ) :=
  loop (lpsRound pattern) (2 * pattern.length + 1) (List.replicate pattern.length 0, 0, 1)

/-- A round of the loop of `kmp_search`. -/
def searchRound (text pattern : List UInt8) (lps : List ℕ) :
    List ℕ × ℕ × ℕ → Option (Round (List ℕ × ℕ × ℕ) (List ℕ))
  | (result, i, j) =>
    if i < text.length then do
      let same := decide ((← pattern[j]?) = (← text[i]?))
      let i := if same then i + 1 else i
      let j := if same then j + 1 else j
      if j = pattern.length then
        some (.again (result ++ [← checkedSub i j], i, ← lps[← checkedSub j 1]?))
      else if i < text.length then do
        if (← pattern[j]?) ≠ (← text[i]?) then
          if j ≠ 0 then some (.again (result, i, ← lps[j - 1]?))
          else some (.again (result, i + 1, j))
        else some (.again (result, i, j))
      else some (.again (result, i, j))
    else some (.done result)

/-- All places of a pattern. -/
def kmpSearch (text pattern : String) : Option (List ℕ) := do
  let text := asBytes text
  let pattern := asBytes pattern
  if pattern.length = 0 then some []
  else do
    let lps ← computeLps pattern
    loop (searchRound text pattern lps) (2 * text.length + 1) ([], 0, 0)

/-! ### The table of the longest borders -/

variable {text pattern : List UInt8} {lps result : List ℕ} {len i j : ℕ}

/-- The entries below `k` are the longest borders of the first parts of the pattern. -/
def IsBorderTable (pattern : List UInt8) (lps : List ℕ) (k : ℕ) : Prop :=
  lps.length = pattern.length ∧
    ∀ q < k, ∃ b, lps[q]? = some b ∧ IsLongestBorder pattern (q + 1) b

theorem IsBorderTable.set (h : IsBorderTable pattern lps i) (hi : i < pattern.length) {b : ℕ}
    (hb : IsLongestBorder pattern (i + 1) b) : IsBorderTable pattern (lps.set i b) (i + 1) := by
  refine ⟨by rw [List.length_set, h.1], fun q hq => ?_⟩
  rcases Nat.lt_succ_iff_lt_or_eq.mp hq with hlt | rfl
  · obtain ⟨c, hc, hlong⟩ := h.2 q hlt
    exact ⟨c, by rw [getElem?_set_ne (by omega), hc], hlong⟩
  · exact ⟨b, getElem?_set_self (h.1 ▸ hi), hb⟩

/-- What holds whenever the loop of `compute_lps` comes round. -/
def LpsInvariant (pattern : List UInt8) : List ℕ × ℕ × ℕ → Prop
  | (lps, len, i) =>
    0 < i ∧ i ≤ pattern.length ∧ IsBorderTable pattern lps i ∧ BorderCandidate pattern i len

theorem lpsRound_spec (s : List ℕ × ℕ × ℕ) (hs : LpsInvariant pattern s) :
    (∃ s', lpsRound pattern s = some (.again s') ∧ LpsInvariant pattern s' ∧
      2 * (pattern.length - s'.2.2) + s'.2.1 < 2 * (pattern.length - s.2.2) + s.2.1) ∨
    ∃ lps, lpsRound pattern s = some (.done lps) ∧ IsBorderTable pattern lps pattern.length := by
  obtain ⟨lps, len, i⟩ := s
  obtain ⟨hpos, hle, htable, hcand⟩ := hs
  by_cases hi : i < pattern.length
  · left
    have hlen : len < i := hcand.1.1
    have hget := getElem?_eq_getElem hi
    have hgetLen := getElem?_eq_getElem (hlen.trans hi)
    have hput : i < lps.length := htable.1 ▸ hi
    by_cases heq : pattern[i] = pattern[len]
    · have hlong := hcand.grow hi (by rw [hget, hgetLen, heq])
      refine ⟨(lps.set i (len + 1), len + 1, i + 1), ?_,
        ⟨Nat.succ_pos i, hi, htable.set hi hlong, hlong.candidate⟩, by dsimp only; omega⟩
      simp [lpsRound, hi, hgetLen, heq, putAt_of_lt hput]
    · have hne : pattern[len]? ≠ pattern[i]? := by
        rw [hget, hgetLen]
        exact fun h => heq (Option.some.inj h).symm
      by_cases hzero : len = 0
      · subst hzero
        have hlong := hcand.stay hi hne
        refine ⟨(lps.set i 0, 0, i + 1), ?_,
          ⟨Nat.succ_pos i, hi, htable.set hi hlong, hlong.candidate⟩, by dsimp only; omega⟩
        simp [lpsRound, hi, hgetLen, heq, putAt_of_lt hput]
      · obtain ⟨b, hb, hlong⟩ := htable.2 (len - 1) (by omega)
        rw [Nat.sub_add_cancel (Nat.pos_of_ne_zero hzero)] at hlong
        refine ⟨(lps, b, i), ?_, ⟨hpos, hle, htable, hcand.fallBack hne hlong⟩, ?_⟩
        · simp [lpsRound, hi, hgetLen, heq, hzero, hb]
        · have := hlong.le
          dsimp only
          omega
  · right
    obtain rfl : i = pattern.length := by omega
    exact ⟨lps, by simp [lpsRound], htable⟩

/-- **The table holds the longest borders** of the first parts of the pattern. -/
theorem exists_computeLps (hp : pattern ≠ []) :
    ∃ lps, computeLps pattern = some lps ∧ IsBorderTable pattern lps pattern.length := by
  have hpos := List.length_pos_iff.mpr hp
  have hone := isLongestBorder_one hp
  refine loop_spec (fun s => 2 * (pattern.length - s.2.2) + s.2.1) lpsRound_spec
    ⟨Nat.one_pos, hpos, ⟨length_replicate, fun q hq => ?_⟩, hone.candidate⟩
    (by dsimp only; omega)
  obtain rfl : q = 0 := by omega
  exact ⟨0, by rw [getElem?_replicate_of_lt hpos], hone⟩

/-! ### The places that are found -/

/-- The places of the pattern below `k`. -/
def placesBelow (pattern text : List UInt8) (k : ℕ) : List ℕ :=
  (List.range k).filter fun s => StandsAt pattern text s

theorem placesBelow_succ (k : ℕ) (h : StandsAt pattern text k) :
    placesBelow pattern text (k + 1) = placesBelow pattern text k ++ [k] := by
  simp [placesBelow, range_succ, h]

/-- Where the pattern does not stand, nothing is found. -/
theorem placesBelow_eq {k k' : ℕ} (hle : k ≤ k')
    (h : ∀ s, k ≤ s → s < k' → ¬ StandsAt pattern text s) :
    placesBelow pattern text k' = placesBelow pattern text k := by
  induction k', hle using Nat.le_induction with
  | base => rfl
  | succ k' hle ih =>
    have hnot := h k' hle (Nat.lt_succ_self k')
    rw [← ih fun s hlo hhi => h s hlo (by omega)]
    simp [placesBelow, range_succ, hnot]

/-- What holds whenever the loop of `kmp_search` comes round. -/
def SearchInvariant (text pattern : List UInt8) : List ℕ × ℕ × ℕ → Prop
  | (result, i, j) =>
    j < pattern.length ∧ Held pattern text i j ∧ result = placesBelow pattern text (i - j)

/-- After a mismatch the longest border is held, and the place is passed over. -/
theorem searchInvariant_fallBack (htable : IsBorderTable pattern lps pattern.length)
    (hheld : Held pattern text i j) (hj : j < pattern.length) (hne : pattern[j]? ≠ text[i]?)
    (hpos : 0 < j) :
    ∃ b, lps[j - 1]? = some b ∧ b < j ∧
      SearchInvariant text pattern (placesBelow pattern text (i - j), i, b) := by
  obtain ⟨b, hb, hlong⟩ := htable.2 (j - 1) (by omega)
  rw [Nat.sub_add_cancel hpos] at hlong
  have hlt := hlong.le
  have hji := hheld.le
  refine ⟨b, hb, hlt, by omega, hheld.trans hlong.1.2, (placesBelow_eq (by omega) ?_).symm⟩
  intro s hlo hhi hs
  rcases Nat.lt_or_eq_of_le hlo with hlt' | rfl
  · exact hheld.not_standsAt hlong.2 hlt' hhi hs
  · refine hne ?_
    rw [← hs.getElem? hj, Nat.sub_add_cancel hji]

/-- After a place is found the longest border of the pattern is held. -/
theorem searchInvariant_found (htable : IsBorderTable pattern lps pattern.length)
    (hheld : Held pattern text i pattern.length) (hpos : 0 < pattern.length) :
    ∃ b, lps[pattern.length - 1]? = some b ∧ b < pattern.length ∧
      SearchInvariant text pattern (placesBelow pattern text (i - pattern.length) ++
        [i - pattern.length], i, b) := by
  obtain ⟨b, hb, hlong⟩ := htable.2 (pattern.length - 1) (by omega)
  rw [Nat.sub_add_cancel hpos] at hlong
  have hlt := hlong.le
  have hji := hheld.le
  refine ⟨b, hb, hlt, hlt, hheld.trans hlong.1.2, ?_⟩
  rw [← placesBelow_succ _ hheld.standsAt]
  exact (placesBelow_eq (by omega) fun s hlo hhi => hheld.not_standsAt hlong.2 hlo hhi).symm

/-- At the end of the text nothing is left to be found. -/
theorem searchInvariant_end (h : SearchInvariant text pattern (result, text.length, j)) :
    result = placesBelow pattern text text.length := by
  obtain ⟨hj, hheld, rfl⟩ := h
  refine (placesBelow_eq (Nat.sub_le _ _) fun s hlo hhi hs => ?_).symm
  have hle := hs.le (ne_nil_of_length_pos (by omega))
  omega

theorem searchRound_spec (htable : IsBorderTable pattern lps pattern.length)
    (s : List ℕ × ℕ × ℕ) (hs : SearchInvariant text pattern s) :
    (∃ s', searchRound text pattern lps s = some (.again s') ∧
      SearchInvariant text pattern s' ∧
      2 * (text.length - s'.2.1) + s'.2.2 < 2 * (text.length - s.2.1) + s.2.2) ∨
    ∃ result, searchRound text pattern lps s = some (.done result) ∧
      result = placesBelow pattern text text.length := by
  obtain ⟨result, i, j⟩ := s
  have hinv := hs
  obtain ⟨hj, hheld, rfl⟩ := hs
  by_cases hi : i < text.length
  · left
    have hgetP := getElem?_eq_getElem hj
    have hgetT := getElem?_eq_getElem hi
    by_cases heq : pattern[j] = text[i]
    · have hheld' := hheld.succ hj hi (by rw [hgetP, hgetT, heq])
      have hsub : i + 1 - (j + 1) = i - j := Nat.add_sub_add_right i 1 j
      by_cases hm : j + 1 = pattern.length
      · obtain ⟨b, hb, hlt, hinv'⟩ := searchInvariant_found htable (hm ▸ hheld') (by omega)
        rw [← hm, hsub] at hinv'
        refine ⟨_, ?_, hinv', by dsimp only; omega⟩
        have hle : pattern.length ≤ i + 1 := hm ▸ hheld'.le
        have hsub' : i + 1 - pattern.length = i - j := by omega
        simp [searchRound, hi, hgetP, heq, hm, hle, hsub', hb,
          checkedSub_of_le (show 1 ≤ pattern.length by omega)]
      · by_cases hi' : i + 1 < text.length
        · have hj' : j + 1 < pattern.length := by omega
          have hgetP' := getElem?_eq_getElem hj'
          have hgetT' := getElem?_eq_getElem hi'
          by_cases heq' : pattern[j + 1] = text[i + 1]
          · refine ⟨(_, i + 1, j + 1), ?_, ⟨hj', hheld', by rw [hsub]⟩, by dsimp only; omega⟩
            simp [searchRound, hi, hgetP, heq, hm, hi', hgetP', heq']
          · obtain ⟨b, hb, hlt, hinv'⟩ := searchInvariant_fallBack htable hheld' hj'
              (by rw [hgetP', hgetT']; exact fun h => heq' (Option.some.inj h)) (Nat.succ_pos j)
            rw [hsub] at hinv'
            refine ⟨_, ?_, hinv', by dsimp only; omega⟩
            rw [Nat.add_sub_cancel] at hb
            simp [searchRound, hi, hgetP, heq, hm, hi', hgetP', heq', hb]
        · refine ⟨(_, i + 1, j + 1), ?_, ⟨by omega, hheld', by rw [hsub]⟩, by dsimp only; omega⟩
          simp [searchRound, hi, hgetP, heq, hm, hi']
    · have hne : pattern[j]? ≠ text[i]? := by
        rw [hgetP, hgetT]
        exact fun h => heq (Option.some.inj h)
      by_cases hzero : j = 0
      · subst hzero
        have hstay := placesBelow_eq (Nat.le_succ i) fun s hlo hhi (hs : StandsAt pattern text s) =>
          hne (by rw [← hs.getElem? hj, Nat.add_zero, show s = i by omega])
        refine ⟨(_, i + 1, 0), ?_, ⟨hj, held_zero hi, hstay.symm⟩, by dsimp only; omega⟩
        simp [searchRound, hi, hgetP, heq, hj.ne]
      · obtain ⟨b, hb, hlt, hinv'⟩ :=
          searchInvariant_fallBack htable hheld hj hne (Nat.pos_of_ne_zero hzero)
        refine ⟨_, ?_, hinv', by dsimp only; omega⟩
        simp [searchRound, hi, hgetP, heq, hj.ne, hzero, hb]
  · right
    have hend : i = text.length := le_antisymm hheld.2.1 (Nat.le_of_not_lt hi)
    exact ⟨_, by simp [searchRound, hend], searchInvariant_end (hend ▸ hinv)⟩

/-- **The search finds the places of the pattern**, in their order, and those alone. -/
theorem exists_kmpSearch (text pattern : String) (hp : pattern ≠ "") :
    ∃ places, kmpSearch text pattern = some places ∧ places.Pairwise (· < ·) ∧
      ∀ s, s ∈ places ↔ StandsAt (asBytes pattern) (asBytes text) s := by
  have hbytes := asBytes_ne_nil hp
  have hpos := List.length_pos_iff.mpr hbytes
  obtain ⟨lps, hlps, htable⟩ := exists_computeLps hbytes
  have hstart : SearchInvariant (asBytes text) (asBytes pattern) ([], 0, 0) :=
    ⟨hpos, held_zero (Nat.zero_le _), rfl⟩
  obtain ⟨places, hrun, hplaces⟩ :=
    loop_spec (fun s => 2 * ((asBytes text).length - s.2.1) + s.2.2) (searchRound_spec htable)
      hstart (Nat.lt_succ_self (2 * (asBytes text).length))
  refine ⟨places, by simp [kmpSearch, hbytes, hlps, hrun], ?_, fun s => ?_⟩ <;> rw [hplaces]
  · exact List.pairwise_lt_range.filter _
  · rw [placesBelow, mem_filter, mem_range, decide_eq_true_iff, and_iff_right_iff_imp]
    intro hs
    have hle := hs.le hbytes
    omega

/-- Places that overlap are found. -/
theorem overlapping_places :
    ∃ places, kmpSearch "aaaa" "aa" = some places ∧ places.Pairwise (· < ·) ∧
      ∀ s, s ∈ places ↔ StandsAt (asBytes "aa") (asBytes "aaaa") s :=
  exists_kmpSearch "aaaa" "aa" (by decide)

end RustExample.KmpSearch
