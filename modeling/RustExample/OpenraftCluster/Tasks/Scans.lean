import Mathlib.Data.Char
import Mathlib.Data.List.TakeWhile
import Mathlib.Data.Set.List
import RustExample.OpenraftCluster.Kv.Service
import RustExample.OpenraftCluster.Tasks.Indexes

/-!
# Scans of the secondary indexes

The entries of the queued and of the terminal index start with a time, padded to one length, so
that a scan meets them in the order of their times. The parsers take a key apart again.

Source: `src/tasks/keys.rs`.
-/

namespace RustExample.OpenraftCluster

open List

/-! ### Parsers -/

/-- What comes after a prefix. -/
def stripPrefix (key keyPrefix : String) : Option String :=
  if keyPrefix.toList.isPrefixOf key.toList then
    some (String.ofList (key.toList.drop keyPrefix.toList.length))
  else none

/-- What stands before the first colon and behind it. -/
def splitOnce (text : String) : Option (String × String) :=
  match text.toList.dropWhile (· ≠ ':') with
  | [] => none
  | _ :: behind => some (String.ofList (text.toList.takeWhile (· ≠ ':')), String.ofList behind)

/-- What stands before the last colon and behind it. -/
def rsplitOnce (text : String) : Option (String × String) :=
  match text.toList.reverse.dropWhile (· ≠ ':') with
  | [] => none
  | _ :: before =>
    some (String.ofList before.reverse,
      String.ofList (text.toList.reverse.takeWhile (· ≠ ':')).reverse)

/-- A decimal of a 64-bit number, that may start with a plus sign. -/
def parseU64 (text : String) : Option UInt64 :=
  let digits := if text.toList.head? = some '+' then text.toList.tail else text.toList
  if digits = [] ∨ ¬digits.all Char.isDigit then none
  else if Nat.ofDigitChars 10 digits 0 < 2 ^ 64 then
    some (UInt64.ofNat (Nat.ofDigitChars 10 digits 0))
  else none

/-- A key of an index that starts with a time. -/
def parseTimeIdxKey (keyPrefix key : String) : Option (UInt64 × String) := do
  let rest ← stripPrefix key keyPrefix
  let (time, id) ← splitOnce rest
  return (← parseU64 time, id)

/-- The time and id of a finished task. -/
def parseTerminalIdxKey (key : String) : Option (UInt64 × String) :=
  parseTimeIdxKey taskTerminalIdxPrefix key

/-- The time and id of a queued task. -/
def parseQueuedIdxKey (key : String) : Option (UInt64 × String) :=
  parseTimeIdxKey taskQueuedIdxPrefix key

/-- The node and id of an assigned task. -/
def parseAssignedIdxKey (key : String) : Option (String × String) := do
  let rest ← stripPrefix key taskAssignedIdxPrefix
  rsplitOnce rest

/-- The key of an index under a time. -/
def timeIdxKey (keyPrefix : String) (entry : UInt64 × String) : String :=
  keyPrefix ++ padded20 entry.1 ++ ":" ++ entry.2

/-! ### A parser undoes its builder -/

@[simp] theorem stripPrefix_append (keyPrefix rest : String) :
    stripPrefix (keyPrefix ++ rest) keyPrefix = some rest := by
  simp [stripPrefix]

theorem splitOnce_append {front : String} (h : ColonFree front) (behind : String) :
    splitOnce (front ++ ":" ++ behind) = some (front, behind) := by
  have hne : ∀ c ∈ front.toList, decide (c ≠ ':') = true := fun c hc =>
    decide_eq_true fun heq => h (heq ▸ hc)
  have hlist : (front ++ ":" ++ behind).toList = front.toList ++ ':' :: behind.toList := by simp
  have hdrop : (front.toList ++ ':' :: behind.toList).dropWhile (· ≠ ':') =
      ':' :: behind.toList := by
    rw [dropWhile_append_of_pos hne]
    simp
  have htake : (front.toList ++ ':' :: behind.toList).takeWhile (· ≠ ':') = front.toList := by
    rw [takeWhile_append_of_pos hne]
    simp
  rw [splitOnce, hlist, hdrop, htake]
  simp

theorem toNat_lt_ten_pow (n : UInt64) : n.toNat < 10 ^ 20 :=
  n.toNat_lt.trans (by decide)

theorem colonFree_padded20 (n : UInt64) : ColonFree (padded20 n) := by
  simpa [ColonFree, padded20] using KeyText.separator_notMem_padded 20 n.toNat

theorem parseU64_padded {width n : ℕ} (h : n < 2 ^ 64) :
    parseU64 (String.ofList (KeyText.padded width n)) = some (UInt64.ofNat n) := by
  have hdigit : ∀ c ∈ KeyText.padded width n, c.isDigit = true := fun _ =>
    KeyText.isDigit_of_mem_padded
  have hne : KeyText.padded width n ≠ [] :=
    append_ne_nil_of_right_ne_nil _ Nat.toDigits_ne_nil
  have hplus : (KeyText.padded width n).head? ≠ some '+' := fun h =>
    absurd (hdigit '+' (mem_of_head? h)) (by decide)
  rw [parseU64, String.toList_ofList, if_neg hplus, if_neg, KeyText.ofDigitChars_padded, if_pos h]
  rw [not_or, not_not, all_eq_true]
  exact ⟨hne, hdigit⟩

theorem parseU64_padded20 (n : UInt64) : parseU64 (padded20 n) = some n := by
  rw [padded20, parseU64_padded n.toNat_lt, UInt64.ofNat_toNat]

@[simp] theorem parseTimeIdxKey_timeIdxKey (keyPrefix : String) (entry : UInt64 × String) :
    parseTimeIdxKey keyPrefix (timeIdxKey keyPrefix entry) = some entry := by
  have hkey : timeIdxKey keyPrefix entry =
      keyPrefix ++ (padded20 entry.1 ++ ":" ++ entry.2) := by
    simp only [timeIdxKey, String.append_assoc]
  rw [parseTimeIdxKey, hkey, stripPrefix_append]
  simp only [Option.bind_eq_bind, Option.bind_some, splitOnce_append (colonFree_padded20 _),
    parseU64_padded20]
  rfl

/-! ### The order of an index -/

/-- One entry of an index comes before another: it has the smaller time, or the smaller id. -/
def Before (e e' : UInt64 × String) : Prop := e.1 < e'.1 ∨ e.1 = e'.1 ∧ e.2 < e'.2

variable {keyPrefix : String}

/-- **The keys of an index are in the order of their times**, and then in that of their ids. -/
theorem timeIdxKey_lt_iff {e e' : UInt64 × String} :
    timeIdxKey keyPrefix e < timeIdxKey keyPrefix e' ↔ Before e e' := by
  have hlist (e : UInt64 × String) : (timeIdxKey keyPrefix e).toList =
      keyPrefix.toList ++ (KeyText.padded 20 e.1.toNat ++ ':' :: e.2.toList) := by
    simp [timeIdxKey, padded20]
  have hlength : (KeyText.padded 20 e.1.toNat).length = (KeyText.padded 20 e'.1.toNat).length :=
    (KeyText.length_padded (by decide) (toNat_lt_ten_pow e.1)).trans
      (KeyText.length_padded (by decide) (toNat_lt_ten_pow e'.1)).symm
  have hlt : timeIdxKey keyPrefix e < timeIdxKey keyPrefix e' ↔
    (timeIdxKey keyPrefix e).toList < (timeIdxKey keyPrefix e').toList := Iff.rfl
  have hid : e.2 < e'.2 ↔ e.2.toList < e'.2.toList := Iff.rfl
  rw [hlt, hlist, hlist, KeyText.append_lt_append_iff rfl, KeyText.append_lt_append_iff hlength,
    KeyText.padded_lt_padded_iff (by decide) (toNat_lt_ten_pow e.1) (toNat_lt_ten_pow e'.1),
    cons_lt_cons_iff, (KeyText.padded_injective 20).eq_iff, UInt64.toNat_inj, Before, hid,
    UInt64.lt_iff_toNat_lt]
  simp

theorem bytes_timeIdxKey_lt_iff {e e' : UInt64 × String} :
    (timeIdxKey keyPrefix e).toByteArray.data.toList <
        (timeIdxKey keyPrefix e').toByteArray.data.toList ↔
      e.1 < e'.1 ∨ e.1 = e'.1 ∧
        e.2.toByteArray.data.toList < e'.2.toByteArray.data.toList := by
  rw [KeyText.toByteArray_lt_iff, KeyText.toByteArray_lt_iff]
  exact timeIdxKey_lt_iff

/-! ### Scans -/

theorem compare_eq_lt_iff {a b : String} : compare a b = .lt ↔ a < b := compareOfLessAndEq_eq_lt

/-- In a list of ordered keys, those of a prefix stand in one piece. -/
theorem takeWhile_dropWhile_eq_filter {α : Type} {l : List (String × α)} (keyPrefix : String)
    (h : l.Pairwise fun e e' => e.1 < e'.1) :
    ((l.dropWhile fun e => compare e.1 keyPrefix = .lt).takeWhile fun e =>
      e.1.startsWith keyPrefix) = l.filter fun e => e.1.startsWith keyPrefix := by
  induction l with
  | nil => rfl
  | cons e l ih =>
    obtain ⟨hhead, htail⟩ := List.pairwise_cons.mp h
    by_cases hlt : e.1 < keyPrefix
    · have hstart : e.1.startsWith keyPrefix = false := by
        rw [String.startsWith_string_eq_false_iff]
        rintro ⟨rest, hrest⟩
        exact KeyText.not_append_lt keyPrefix.toList rest (hrest ▸ hlt)
      rw [dropWhile_cons, if_pos (decide_eq_true (compare_eq_lt_iff.mpr hlt)), ih htail,
        filter_cons, hstart, if_neg Bool.false_ne_true]
    · rw [dropWhile_cons,
        if_neg fun hd => hlt (compare_eq_lt_iff.mp (of_decide_eq_true hd))]
      by_cases hstart : e.1.startsWith keyPrefix = true
      · -- the list behind starts with no smaller key either
        have hdrop : (l.dropWhile fun e => compare e.1 keyPrefix = .lt) = l := by
          refine List.dropWhile_eq_self_iff.mpr fun hl hd => hlt ?_
          have hd' : (l.get ⟨0, hl⟩).1 < keyPrefix := compare_eq_lt_iff.mp (of_decide_eq_true hd)
          exact String.lt_trans (hhead _ (getElem_mem hl)) hd'
        rw [takeWhile_cons, if_pos hstart, filter_cons, if_pos hstart, ← ih htail, hdrop]
      · rw [takeWhile_cons, if_neg hstart, filter_cons, if_neg hstart, eq_comm,
          filter_eq_nil_iff]
        intro e' he' hstart'
        obtain ⟨rest, hrest⟩ := String.startsWith_string_iff.mp hstart'
        refine hstart (String.startsWith_string_iff.mpr ?_)
        have hle : ¬keyPrefix.toList ++ rest < e.1.toList := by
          rw [hrest]
          exact String.lt_asymm (hhead e' he')
        exact KeyText.isPrefix_of_not_lt hlt hle

namespace KeySpace

variable (s : KeySpace) (keyPrefix : String)

theorem pairwise_toList : s.toList.Pairwise fun e e' => e.1 < e'.1 :=
  s.ordered_keys_toList.imp fun h => compare_eq_lt_iff.mp h

theorem entriesWithPrefix_eq :
    s.entriesWithPrefix keyPrefix = s.toList.filter fun e => e.1.startsWith keyPrefix :=
  takeWhile_dropWhile_eq_filter keyPrefix s.pairwise_toList

theorem mem_keys_entriesWithPrefix {key : String} :
    key ∈ (s.entriesWithPrefix keyPrefix).map Prod.fst ↔
      key ∈ s ∧ ∃ rest, key = keyPrefix ++ rest := by
  have hstart : key.startsWith keyPrefix = true ↔ ∃ rest, key = keyPrefix ++ rest := by
    rw [String.startsWith_string_iff]
    constructor
    · rintro ⟨rest, hrest⟩
      refine ⟨String.ofList rest, String.toList_inj.mp ?_⟩
      rw [String.toList_append, String.toList_ofList, hrest]
    · rintro ⟨rest, rfl⟩
      exact ⟨rest.toList, String.toList_append.symm⟩
  have hmem : key ∈ s ↔ ∃ value, (key, value) ∈ s.toList := by
    simp only [Std.ExtTreeMap.mem_toList_iff_getElem?_eq_some]
    rw [Std.ExtTreeMap.mem_iff_isSome_getElem?, Option.isSome_iff_exists]
  rw [entriesWithPrefix_eq, ← hstart, hmem, mem_map]
  simp only [mem_filter]
  constructor
  · rintro ⟨⟨k, value⟩, ⟨hvalue, hk⟩, rfl⟩
    exact ⟨⟨value, hvalue⟩, hk⟩
  · rintro ⟨⟨value, hvalue⟩, hk⟩
    exact ⟨(key, value), ⟨hvalue, hk⟩, rfl⟩

/-- **What a scan of an index meets**: its entries, each once and in their order. -/
theorem exists_scan (hkeys : ∀ rest, keyPrefix ++ rest ∈ s →
      ∃ e, keyPrefix ++ rest = timeIdxKey keyPrefix e) :
    ∃ es : List (UInt64 × String),
      (s.entriesWithPrefix keyPrefix).map Prod.fst = es.map (timeIdxKey keyPrefix) ∧
        es.Pairwise Before ∧ ∀ e, e ∈ es ↔ timeIdxKey keyPrefix e ∈ s := by
  have hrange : (s.entriesWithPrefix keyPrefix).map Prod.fst ∈
      Set.range (List.map (timeIdxKey keyPrefix)) := by
    rw [Set.range_list_map]
    intro key hkey
    obtain ⟨hmem, rest, rfl⟩ := (s.mem_keys_entriesWithPrefix keyPrefix).mp hkey
    obtain ⟨e, he⟩ := hkeys rest hmem
    exact ⟨e, he.symm⟩
  obtain ⟨es, hes⟩ := hrange
  have hinj : Function.Injective (timeIdxKey keyPrefix) := fun e e' h => by
    have hparse := congrArg (parseTimeIdxKey keyPrefix) h
    simpa using hparse
  refine ⟨es, hes.symm, ?_, fun e => ?_⟩
  · have hsorted : ((s.entriesWithPrefix keyPrefix).map Prod.fst).Pairwise (· < ·) := by
      rw [entriesWithPrefix_eq, pairwise_map]
      exact s.pairwise_toList.filter _
    rw [← hes, pairwise_map] at hsorted
    exact hsorted.imp timeIdxKey_lt_iff.mp
  · rw [← mem_map_of_injective hinj, hes, mem_keys_entriesWithPrefix]
    refine and_iff_left ⟨padded20 e.1 ++ ":" ++ e.2, ?_⟩
    simp only [timeIdxKey, String.append_assoc]

end KeySpace

end RustExample.OpenraftCluster
