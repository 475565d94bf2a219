import Mathlib.Data.List.Infix
import RustExample.Foundation.Loops
import RustExample.Foundation.Words

/-!
# Longest common substrings by a suffix array

The suffixes of the two strings, with a separator between them, are sorted by the doubling of the
length that is compared, and neighbours are compared to find the longest common part. The renaming
of the ranks looks at the entry before each one, and before the first one too.

Source: `longest_common_substring_workspace_example/lcs_suffix_array_example/src/main.rs`.

* The positions that the comparison of the sort reads are all inside the vector of ranks, which
  has an entry for every position that is sorted.
* A part of a string has to begin and end at the boundaries of characters.
-/

namespace RustExample.LongestCommon

open List

/-! ### The operations -/

/-- The comparison of the sort: by the ranks, and then by the ranks `k` positions on. -/
def compareRanks (rank : List ℕ) (n k i j : ℕ) : Ordering :=
  if rank.getD i 0 ≠ rank.getD j 0 then compare (rank.getD i 0) (rank.getD j 0)
  else
    let ri := if i + k < n then rank.getD (i + k) 0 else 0
    let rj := if j + k < n then rank.getD (j + k) 0 else 0
    compare ri rj

/-- The body of the loop that renames the ranks. -/
def renameAt (sa rank : List ℕ) (k i : ℕ) (tmp : List ℕ) : Option (List ℕ) := do
  let before ← sa[← checkedSub i 1]?
  let here ← sa[i]?
  let name ← tmp[before]?
  if (← rank[here]?) ≠ (← rank[before]?) then putAt tmp here (name + 1)
  else if (← rank[here + k]?) ≠ (← rank[before + k]?) then putAt tmp here (name + 1)
  else putAt tmp here name

/-- Sorts by twice as many characters. -/
def doublingRound (n : ℕ) : List ℕ × List ℕ × List ℕ × ℕ →
    Option (Round (List ℕ × List ℕ × List ℕ × ℕ) (List ℕ))
  | (sa, rank, tmp, k) =>
    if k < n then do
      let sa := sa.mergeSort fun i j => (compareRanks rank n k i j).isLE
      let tmp ← putAt tmp (← sa[0]?) 0
      let tmp ← forRange 0 n (renameAt sa rank k) tmp
      some (.again (sa, tmp, rank, k * 2))
    else some (.done sa)

/-- The suffixes in their order. -/
def suffixArray (s : String) : Option (List ℕ) :=
  let s := asBytes s
  let n := s.length
  loop (doublingRound n) (n + 1) (List.range n, s.map UInt8.toNat, List.replicate n 0, 1)

/-- A round of the loop that goes on while the bytes agree. -/
def agreeRound (s : List UInt8) (i j : ℕ) (h : ℕ) : Option (Round ℕ ℕ) :=
  if i + h < s.length ∧ j + h < s.length then do
    if (← s[i + h]?) = (← s[j + h]?) then some (.again (h + 1)) else some (.done h)
  else some (.done h)

/-- The body of the loop of `lcp_array`. -/
def lcpAt (s : List UInt8) (sa rank : List ℕ) (i : ℕ) : ℕ × List ℕ → Option (ℕ × List ℕ)
  | (h, lcp) => do
    let h := h - 1
    let r ← rank[i]?
    if r = 0 then some (h, lcp)
    else do
      let j ← sa[r - 1]?
      let h ← loop (agreeRound s i j) (s.length + 1) h
      some (h, ← putAt lcp (r - 1) h)

/-- The body of the loop that turns the places around. -/
def rankAt (sa : List ℕ) (i : ℕ) (rank : List ℕ) : Option (List ℕ) := do
  putAt rank (← sa[i]?) i

/-- The lengths that neighbours share. -/
def lcpArray (s : String) (sa : List ℕ) : Option (List ℕ) := do
  let s := asBytes s
  let n := s.length
  let lcp := List.replicate (← checkedSub n 1) 0
  let rank ← forRange 0 n (rankAt sa) (List.replicate n 0)
  let (_, lcp) ← forRange 0 n (lcpAt s sa rank) (0, lcp)
  some lcp

/-- Whether a character begins or the text ends at a position. -/
def isCharBoundary (s : List UInt8) (i : ℕ) : Bool :=
  match s[i]? with
  | none => i = s.length
  | some b => b < 0x80 || 0xc0 ≤ b

/-- `s[lo .. hi].to_string()` -/
def substring (s : String) (lo hi : ℕ) : Option String :=
  let bytes := asBytes s
  if lo ≤ hi ∧ isCharBoundary bytes lo ∧ isCharBoundary bytes hi then
    String.fromUTF8? ⟨((bytes.drop lo).take (hi - lo)).toArray⟩
  else none

/-- The body of the loop of `longest_common_substring`. -/
def longestAt (s1 : String) (sa lcp : List ℕ) (i : ℕ) : ℕ × ℕ → Option (ℕ × ℕ)
  | (maxLen, maxPos) => do
    let here ← sa[i]?
    let next ← sa[i + 1]?
    if decide (here < s1.utf8ByteSize) ≠ decide (next < s1.utf8ByteSize) then do
      let len ← lcp[i]?
      if maxLen < len then some (len, here) else some (maxLen, maxPos)
    else some (maxLen, maxPos)

/-- A longest common substring. -/
def longestCommonSubstring (s1 s2 : String) : Option String := do
  let concat := s1 ++ "#" ++ s2
  let sa ← suffixArray concat
  let lcp ← lcpArray concat sa
  let (maxLen, maxPos) ← forRange 0 lcp.length (longestAt s1 sa lcp) (0, 0)
  substring concat maxPos (maxPos + maxLen)

/-! ### What is to be found -/

/-- How far two lists agree. -/
def commonLength {α : Type*} [DecidableEq α] : List α → List α → ℕ
  | x :: a, y :: b => if x = y then commonLength a b + 1 else 0
  | _, _ => 0

/-- The places of the suffixes, in the order of the suffixes. -/
structure IsSuffixArray (s : List UInt8) (sa : List ℕ) : Prop where
  perm : sa.Perm (List.range s.length)
  sorted : sa.Pairwise fun i j => s.drop i < s.drop j

/-- How far each suffix agrees with the next one. -/
structure IsLcpArray (s : List UInt8) (sa lcp : List ℕ) : Prop where
  length_eq : lcp.length = s.length - 1
  getElem?_eq : ∀ q i j, sa[q]? = some i → sa[q + 1]? = some j →
    lcp[q]? = some (commonLength (s.drop i) (s.drop j))

/-- The search for a longest common substring succeeds, and its two tables are right. -/
def FindsLongestSubstring (s1 s2 : String) : Prop :=
  ∃ sa lcp r, suffixArray (s1 ++ "#" ++ s2) = some sa ∧
    IsSuffixArray (asBytes (s1 ++ "#" ++ s2)) sa ∧
    lcpArray (s1 ++ "#" ++ s2) sa = some lcp ∧
    IsLcpArray (asBytes (s1 ++ "#" ++ s2)) sa lcp ∧
    longestCommonSubstring s1 s2 = some r ∧ asBytes r <:+: asBytes s1 ∧
    asBytes r <:+: asBytes s2 ∧ ∀ t, asBytes t <:+: asBytes s1 → asBytes t <:+: asBytes s2 →
      t.utf8ByteSize ≤ r.utf8ByteSize

/-! ### When the search succeeds -/

variable {s1 s2 s : String}

theorem forRange_renameAt {n : ℕ} (hn : 0 < n) (sa rank : List ℕ) (k : ℕ) (tmp : List ℕ) :
    forRange 0 n (renameAt sa rank k) tmp = none := by
  rw [forRange_of_lt hn, renameAt, checkedSub_of_lt Nat.one_pos]
  rfl

/-- **No two bytes are sorted.** -/
theorem suffixArray_eq_none (h : 2 ≤ (asBytes s).length) : suffixArray s = none := by
  have hround : doublingRound (asBytes s).length (List.range (asBytes s).length,
      (asBytes s).map UInt8.toNat, List.replicate (asBytes s).length 0, 1) = none := by
    rw [doublingRound, if_pos (by omega)]
    simp [forRange_renameAt (show 0 < (asBytes s).length by omega)]
  rw [suffixArray, loop, hround]

theorem length_asBytes_concat (s1 s2 : String) :
    (asBytes (s1 ++ "#" ++ s2)).length = s1.utf8ByteSize + s2.utf8ByteSize + 1 := by
  have hone : "#".utf8ByteSize = 1 := rfl
  rw [length_asBytes, String.utf8ByteSize_append, String.utf8ByteSize_append, hone]
  omega

theorem findsLongestSubstring_empty : FindsLongestSubstring "" "" := by
  refine ⟨[0], [], "", by decide +kernel, ⟨by decide +kernel, pairwise_singleton _ _⟩,
    by decide +kernel, ⟨by decide +kernel, fun q i j _ hj => by simp at hj⟩, by decide +kernel,
    infix_rfl, infix_rfl, fun t ht _ => ht.length_le⟩

/-- **The search succeeds only for empty strings.** -/
theorem findsLongestSubstring_iff (s1 s2 : String) :
    FindsLongestSubstring s1 s2 ↔ s1 = "" ∧ s2 = "" := by
  constructor
  · rintro ⟨sa, -, -, hrun, -⟩
    by_contra hne
    have hsize : ¬ (s1.utf8ByteSize = 0 ∧ s2.utf8ByteSize = 0) := by
      rwa [String.utf8ByteSize_eq_zero_iff, String.utf8ByteSize_eq_zero_iff]
    rw [suffixArray_eq_none (by rw [length_asBytes_concat]; omega)] at hrun
    contradiction
  · rintro ⟨rfl, rfl⟩
    exact findsLongestSubstring_empty

/-- The two strings have a character in common, and the search fails. -/
theorem failed_substring :
    longestCommonSubstring "a" "a" = none ∧ ¬ FindsLongestSubstring "a" "a" := by
  have hnone : suffixArray ("a" ++ "#" ++ "a") = none := suffixArray_eq_none (by decide +kernel)
  refine ⟨by rw [longestCommonSubstring, hnone]; rfl, ?_⟩
  rintro ⟨sa, -, -, hrun, -⟩
  rw [hnone] at hrun
  contradiction

/-! ### How far two lists agree -/

section CommonLength

variable {a b c : List UInt8} {h : ℕ}

theorem exists_of_lt_commonLength (hlt : h < commonLength a b) :
    ∃ x, a[h]? = some x ∧ b[h]? = some x := by
  induction a generalizing b h with
  | nil => exact absurd hlt (Nat.not_lt_zero h)
  | cons x a ih =>
    rcases b with _ | ⟨y, b⟩
    · exact absurd hlt (Nat.not_lt_zero h)
    rw [commonLength] at hlt
    split_ifs at hlt with heq
    · subst heq
      cases h with
      | zero => exact ⟨x, rfl, rfl⟩
      | succ h => exact ih (Nat.lt_of_succ_lt_succ hlt)
    · exact absurd hlt (Nat.not_lt_zero h)

theorem ne_of_commonLength {x y : UInt8} (ha : a[commonLength a b]? = some x)
    (hb : b[commonLength a b]? = some y) : x ≠ y := by
  induction a generalizing b with
  | nil => simp at ha
  | cons u a ih =>
    rcases b with _ | ⟨v, b⟩
    · simp at hb
    rw [commonLength] at ha hb
    split_ifs at ha hb with heq
    · exact ih ha hb
    · rw [getElem?_cons_zero, Option.some_inj] at ha hb
      exact ha ▸ hb ▸ heq

theorem commonLength_cons (x : UInt8) (a b : List UInt8) :
    commonLength (x :: a) (x :: b) = commonLength a b + 1 := if_pos rfl

/-- **What stands between agrees no less** with the greater list. -/
theorem commonLength_le_of_between (hab : a < b) (hbc : b < c) :
    commonLength a c ≤ commonLength b c := by
  induction a generalizing b c with
  | nil => exact Nat.zero_le _
  | cons x a ih =>
    rcases c with _ | ⟨z, c⟩
    · exact Nat.zero_le _
    rcases b with _ | ⟨y, b⟩
    · exact absurd hab (not_lt_nil _)
    by_cases heq : x = z
    · subst heq
      rw [cons_lt_cons_iff] at hab hbc
      rcases hab with hxy | ⟨rfl, hab⟩
      · rcases hbc with hyx | ⟨rfl, -⟩
        · exact absurd hyx (UInt8.lt_asymm hxy)
        · exact absurd hxy (UInt8.lt_irrefl _)
      · rcases hbc with hxx | ⟨-, hbc⟩
        · exact absurd hxx (UInt8.lt_irrefl _)
        · rw [commonLength_cons, commonLength_cons]
          exact Nat.succ_le_succ (ih hab hbc)
    · rw [commonLength, if_neg heq]
      exact Nat.zero_le _

end CommonLength

/-! ### The comparison of neighbours -/

variable {bytes : List UInt8} {sa rank lcp : List ℕ} {i j q h : ℕ}

namespace IsSuffixArray

theorem length_eq (h : IsSuffixArray bytes sa) : sa.length = bytes.length := by
  rw [h.perm.length_eq, length_range]

theorem lt (h : IsSuffixArray bytes sa) (hq : sa[q]? = some i) : i < bytes.length :=
  List.mem_range.mp (h.perm.mem_iff.mp (mem_of_getElem? hq))

theorem exists_getElem? (h : IsSuffixArray bytes sa) (hi : i < bytes.length) :
    ∃ q : ℕ, sa[q]? = some i :=
  getElem?_of_mem (h.perm.mem_iff.mpr (List.mem_range.mpr hi))

theorem drop_lt (h : IsSuffixArray bytes sa) {q' : ℕ} (hq : sa[q]? = some i)
    (hq' : sa[q']? = some j) (hlt : q < q') : bytes.drop i < bytes.drop j := by
  obtain ⟨hql, rfl⟩ := List.getElem?_eq_some_iff.mp hq
  obtain ⟨hql', rfl⟩ := List.getElem?_eq_some_iff.mp hq'
  exact List.pairwise_iff_getElem.mp h.sorted q q' hql hql' hlt

theorem lt_of_drop_lt (h : IsSuffixArray bytes sa) {q' : ℕ} (hq : sa[q]? = some i)
    (hq' : sa[q']? = some j) (hlt : bytes.drop i < bytes.drop j) : q < q' := by
  rcases lt_trichotomy q q' with hqq | rfl | hqq
  · exact hqq
  · obtain rfl : i = j := Option.some.inj (hq.symm.trans hq')
    exact absurd hlt (List.lt_irrefl _)
  · exact absurd hlt (List.lt_asymm (h.drop_lt hq' hq hqq))

end IsSuffixArray

/-- The first `k` places are turned around. -/
def IsRank (sa rank : List ℕ) (k : ℕ) : Prop :=
  ∀ q : ℕ, q < k → ∀ i, sa[q]? = some i → rank[i]? = some q

theorem IsRank.exists_rankAt {k : ℕ} (hrank : IsRank sa rank k) (h : IsSuffixArray bytes sa)
    (hlen : rank.length = bytes.length) (hk : k < bytes.length) :
    ∃ rank', rankAt sa k rank = some rank' ∧ rank'.length = bytes.length ∧
      IsRank sa rank' (k + 1) := by
  have hsa : k < sa.length := h.length_eq ▸ hk
  have hget := getElem?_eq_getElem hsa
  have hlt : sa[k] < rank.length := hlen ▸ h.lt hget
  refine ⟨rank.set sa[k] k, ?_, by rw [List.length_set, hlen], fun q hq i hi => ?_⟩
  · rw [rankAt, hget]
    exact putAt_of_lt hlt k
  · rcases Nat.lt_succ_iff_lt_or_eq.mp hq with hqk | rfl
    · have hne : sa[k] ≠ i := fun heq => List.lt_irrefl _ (h.drop_lt hi (heq ▸ hget) hqk)
      rw [getElem?_set_ne hne, hrank q hqk i hi]
    · obtain rfl : sa[q] = i := Option.some.inj (hget.symm.trans hi)
      exact getElem?_set_self hlt

theorem exists_rank (h : IsSuffixArray bytes sa) :
    ∃ rank, forRange 0 bytes.length (rankAt sa) (List.replicate bytes.length 0) = some rank ∧
      IsRank sa rank bytes.length := by
  have hstart : IsRank sa (List.replicate bytes.length 0) 0 := fun q hq =>
    absurd hq (Nat.not_lt_zero q)
  obtain ⟨rank, hrun, -, hrank⟩ := forRange_spec (Nat.zero_le bytes.length)
    (I := fun k rank => rank.length = bytes.length ∧ IsRank sa rank k)
    ⟨length_replicate, hstart⟩ fun k rank _ hk hI => hI.2.exists_rankAt h hI.1 hk
  exact ⟨rank, hrun, hrank⟩

/-- The loop over equal bytes stops where the suffixes stop to agree. -/
theorem exists_agree (hh : h ≤ commonLength (bytes.drop j) (bytes.drop i)) :
    loop (agreeRound bytes i j) (bytes.length + 1) h =
      some (commonLength (bytes.drop j) (bytes.drop i)) := by
  let common := commonLength (bytes.drop j) (bytes.drop i)
  suffices hsome : ∃ r, loop (agreeRound bytes i j) (bytes.length + 1) h = some r ∧
      r = common by
    obtain ⟨r, hrun, rfl⟩ := hsome
    exact hrun
  refine loop_spec (I := fun h => h ≤ common) (fun h => bytes.length - h) (fun h hh => ?_) hh
    (by omega)
  rcases Nat.lt_or_eq_of_le hh with hlt | rfl
  · left
    obtain ⟨x, hx, hy⟩ := exists_of_lt_commonLength hlt
    rw [getElem?_drop] at hx hy
    have hjn := (List.getElem?_eq_some_iff.mp hx).1
    have hin := (List.getElem?_eq_some_iff.mp hy).1
    refine ⟨h + 1, ?_, hlt, by omega⟩
    rw [agreeRound, if_pos ⟨hin, hjn⟩, hx, hy]
    exact if_pos rfl
  · right
    by_cases hin : i + common < bytes.length ∧ j + common < bytes.length
    · have hgetI := getElem?_eq_getElem hin.1
      have hgetJ := getElem?_eq_getElem hin.2
      have hne := ne_of_commonLength (a := bytes.drop j) (b := bytes.drop i)
        (by rw [getElem?_drop]; exact hgetJ) (by rw [getElem?_drop]; exact hgetI)
      refine ⟨common, ?_, rfl⟩
      rw [agreeRound, if_pos hin, hgetI, hgetJ]
      exact if_neg fun heq => hne heq.symm
    · exact ⟨common, by rw [agreeRound, if_neg hin], rfl⟩

/-- What the suffix at `i` is known to share with the one before it in the order. -/
def SharesAt (bytes : List UInt8) (sa rank : List ℕ) (i h : ℕ) : Prop :=
  ∀ r, rank[i]? = some r → (r = 0 → h = 0) ∧
    ∀ j, 0 < r → sa[r - 1]? = some j → h ≤ commonLength (bytes.drop j) (bytes.drop i)

theorem sharesAt_zero : SharesAt bytes sa rank i 0 := fun _ _ =>
  ⟨fun _ => rfl, fun _ _ _ => Nat.zero_le _⟩

/-- **The next suffix shares one byte less at least.** -/
theorem sharesAt_succ (h : IsSuffixArray bytes sa) (hrank : IsRank sa rank bytes.length)
    (hi : i + 1 < bytes.length) (hlt : bytes.drop j < bytes.drop i) :
    SharesAt bytes sa rank (i + 1) (commonLength (bytes.drop j) (bytes.drop i) - 1) := by
  rcases Nat.lt_or_ge (commonLength (bytes.drop j) (bytes.drop i)) 2 with hshort | hlong
  · rw [Nat.sub_eq_zero_of_le (by omega)]
    exact sharesAt_zero
  · obtain ⟨x, hxj, hxi⟩ := exists_of_lt_commonLength (Nat.lt_of_lt_of_le Nat.two_pos hlong)
    rw [getElem?_drop, Nat.add_zero] at hxj hxi
    obtain ⟨hjn, hxj⟩ := List.getElem?_eq_some_iff.mp hxj
    obtain ⟨hin, hxi⟩ := List.getElem?_eq_some_iff.mp hxi
    rw [drop_eq_getElem_cons hjn, drop_eq_getElem_cons hin, hxj, hxi] at hlt hlong ⊢
    rw [commonLength_cons] at hlong ⊢
    have hrest : bytes.drop (j + 1) < bytes.drop (i + 1) := by
      rcases List.cons_lt_cons_iff.mp hlt with hxx | ⟨-, hrest⟩
      · exact absurd hxx (UInt8.lt_irrefl x)
      · exact hrest
    have hjn' : j + 1 < bytes.length := by
      obtain ⟨y, hy, -⟩ := exists_of_lt_commonLength (Nat.le_of_succ_le_succ hlong)
      rw [getElem?_drop] at hy
      exact (List.getElem?_eq_some_iff.mp hy).1
    obtain ⟨q₁, hq₁⟩ := h.exists_getElem? hjn'
    obtain ⟨q₂, hq₂⟩ := h.exists_getElem? hi
    have hqq := h.lt_of_drop_lt hq₁ hq₂ hrest
    intro r hr
    have hq₂n : q₂ < bytes.length := h.length_eq ▸ (List.getElem?_eq_some_iff.mp hq₂).1
    obtain rfl : q₂ = r := Option.some.inj ((hrank q₂ hq₂n _ hq₂).symm.trans hr)
    refine ⟨fun hzero => by omega, fun j' _ hj' => ?_⟩
    rw [Nat.add_sub_cancel]
    rcases Nat.lt_or_eq_of_le (Nat.le_sub_one_of_lt hqq) with hbetween | rfl
    · exact commonLength_le_of_between (h.drop_lt hq₁ hj' hbetween)
        (h.drop_lt hj' hq₂ (by omega))
    · obtain rfl : j + 1 = j' := Option.some.inj (hq₁.symm.trans hj')
      exact Nat.le_refl _

/-- What holds whenever the loop of `lcp_array` comes round. -/
def LcpInvariant (bytes : List UInt8) (sa rank : List ℕ) (k : ℕ) : ℕ × List ℕ → Prop
  | (h, lcp) => lcp.length = bytes.length - 1 ∧
      (k < bytes.length → SharesAt bytes sa rank k (h - 1)) ∧
      ∀ q i j, sa[q]? = some j → sa[q + 1]? = some i → i < k →
        lcp[q]? = some (commonLength (bytes.drop j) (bytes.drop i))

theorem exists_lcpAt (h : IsSuffixArray bytes sa) (hrank : IsRank sa rank bytes.length) {k : ℕ}
    (hk : k < bytes.length) {s : ℕ × List ℕ} (hs : LcpInvariant bytes sa rank k s) :
    ∃ s', lcpAt bytes sa rank k s = some s' ∧ LcpInvariant bytes sa rank (k + 1) s' := by
  obtain ⟨m, lcp⟩ := s
  obtain ⟨hlen, hshares, hlcp⟩ := hs
  obtain ⟨r, hr⟩ := h.exists_getElem? hk
  have hrn : r < bytes.length := h.length_eq ▸ (List.getElem?_eq_some_iff.mp hr).1
  have hget := hrank r hrn k hr
  obtain ⟨hzero, hpos⟩ := hshares hk r hget
  rcases Nat.eq_zero_or_pos r with rfl | hr0
  · refine ⟨(m - 1, lcp), by simp [lcpAt, hget], hlen, fun _ => ?_, fun q i j hj hi hik => ?_⟩
    · rw [hzero rfl]
      exact sharesAt_zero
    · refine hlcp q i j hj hi (Nat.lt_of_le_of_ne (Nat.le_of_lt_succ hik) fun heq => ?_)
      exact List.lt_irrefl _ (h.drop_lt (heq ▸ hr : sa[0]? = some i) hi (Nat.succ_pos q))
  · have hrs : r - 1 < sa.length := by rw [h.length_eq]; omega
    obtain ⟨before, hj⟩ : ∃ before, sa[r - 1]? = some before := ⟨_, getElem?_eq_getElem hrs⟩
    have hrun := exists_agree (hpos _ hr0 hj)
    have hput : r - 1 < lcp.length := by omega
    refine ⟨(_, lcp.set (r - 1) (commonLength (bytes.drop before) (bytes.drop k))), ?_,
      by rw [List.length_set, hlen], fun hk' =>
        sharesAt_succ h hrank hk' (h.drop_lt hj hr (by omega)), fun q i j hqj hqi hik => ?_⟩
    · simp [lcpAt, hget, hr0.ne', hj, hrun, putAt_of_lt hput]
    · rcases Nat.lt_succ_iff_lt_or_eq.mp hik with hik | rfl
      · have hne : r - 1 ≠ q := by
          rintro rfl
          rw [Nat.sub_add_cancel hr0] at hqi
          exact hik.ne (Option.some.inj (hqi.symm.trans hr))
        rw [getElem?_set_ne hne, hlcp q i j hqj hqi hik]
      · have hqn : q + 1 < bytes.length := h.length_eq ▸ (List.getElem?_eq_some_iff.mp hqi).1
        obtain rfl : q + 1 = r := Option.some.inj ((hrank _ hqn _ hqi).symm.trans hget)
        rw [Nat.add_sub_cancel] at hj hput ⊢
        obtain rfl : before = j := Option.some.inj (hj.symm.trans hqj)
        exact getElem?_set_self hput

/-- **Neighbours are compared rightly**, if the suffixes are in order. -/
theorem exists_lcpArray (hs : s ≠ "") (h : IsSuffixArray (asBytes s) sa) :
    ∃ lcp, lcpArray s sa = some lcp ∧ IsLcpArray (asBytes s) sa lcp := by
  have hpos := List.length_pos_iff.mpr (asBytes_ne_nil hs)
  obtain ⟨rank, hrunRank, hrank⟩ := exists_rank h
  have hstart : LcpInvariant (asBytes s) sa rank 0
      (0, List.replicate ((asBytes s).length - 1) 0) :=
    ⟨length_replicate, fun _ => sharesAt_zero, fun _ _ _ _ _ hlt =>
      absurd hlt (Nat.not_lt_zero _)⟩
  obtain ⟨⟨m, lcp⟩, hrun, hlen, -, hlcp⟩ := forRange_spec (Nat.zero_le (asBytes s).length) hstart
    fun k s _ hk hs => exists_lcpAt h hrank hk hs
  refine ⟨lcp, ?_, hlen, fun q j i hj hi => hlcp q i j hj hi (h.lt hi)⟩
  simp [lcpArray, checkedSub_of_le (show 1 ≤ (asBytes s).length by omega), hrunRank, hrun]

/-- The suffixes `a`, `ana`, `anana`, `banana`, `na`, `nana`. -/
theorem exists_lcpArray_banana : ∃ lcp, lcpArray "banana" [5, 3, 1, 0, 4, 2] = some lcp ∧
    IsLcpArray (asBytes "banana") [5, 3, 1, 0, 4, 2] lcp :=
  exists_lcpArray (by decide) ⟨by decide, by decide⟩

end RustExample.LongestCommon
