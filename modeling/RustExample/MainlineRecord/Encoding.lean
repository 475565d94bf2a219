import RustExample.Foundation.Bisection
import RustExample.Foundation.Loops
import RustExample.MainlineRecord.Record

/-!
# Encoding a cluster record within a limit

A value of the DHT has at most 1000 bytes. Where a record is too long, a bisection finds the
longest list of its first members with which it fits, and the record keeps these members only.

Source: `iroh_mainline_kad/src/dht.rs`.

* The crates `postcard` and `serde_json` are the argument `crates`.
* `none` is a slice out of range, or a loop that does not end.
-/

namespace RustExample.MainlineRecord

open List

/-- The limit of a value. -/
def DHT_VALUE_LIMIT : ℕ := 1000

/-- `b"IKD1"` -/
def DHT_RECORD_MAGIC : Bytes := [73, 75, 68, 49]

/-- `&members[..count]`, which panics out of range. -/
def sliceTo {α : Type*} (l : List α) (count : ℕ) : Option (List α) :=
  if count ≤ l.length then some (l.take count) else none

namespace Crates

variable (crates : Crates)

/-- The magic and the bytes of a record. -/
def encodeClusterRecord (record : ClusterRecord) : Except String Bytes := do
  let encoded ← crates.toStdvec record
  return DHT_RECORD_MAGIC ++ encoded

/-- The variables of the search. -/
structure Search where
  low : ℕ
  high : ℕ
  best : Option (ℕ × Bytes)

/-- Halves the range of lengths. -/
def searchRound (record : ClusterRecord) (originalMembers : List MemberRecord) (limit : ℕ)
    (s : Search) : Option (Round Search (Option (ℕ × Bytes))) :=
  if s.low ≤ s.high then
    let mid := s.low + (s.high - s.low) / 2
    (sliceTo originalMembers mid).map fun members =>
      match crates.encodeClusterRecord { record with members := members } with
      | .ok value =>
        if value.length ≤ limit then .again ⟨mid + 1, s.high, some (mid, value)⟩
        else .again ⟨s.low, mid - 1, s.best⟩
      | .error _ => .again ⟨s.low, mid - 1, s.best⟩
  else some (.done s.best)

/-- The search, and the record with what was found. -/
def encodePrefix (record : ClusterRecord) (limit : ℕ) :
    Option (Except String Bytes × ClusterRecord) := do
  let originalMembers := record.members
  let best ← loop (crates.searchRound record originalMembers limit) (originalMembers.length + 1)
    ⟨1, originalMembers.length, none⟩
  match best with
  | some (count, value) =>
    let members ← sliceTo originalMembers count
    return (.ok value, { record with members := members })
  | none =>
    let members ← sliceTo originalMembers 1
    let record := { record with members := members }
    match crates.encodeClusterRecord record with
    | .error e => return (.error e, record)
    | .ok value =>
      if limit < value.length then
        return (.error (s!"cluster record is {value.length} bytes, exceeding mainline BEP44 " ++
          s!"limit of {limit} bytes"), record)
      else return (.ok value, record)

/-- The result, and the record as the call leaves it. -/
def encodeClusterRecordBounded (record : ClusterRecord) (limit : ℕ) :
    Option (Except String Bytes × ClusterRecord) :=
  if record.members = [] then some (crates.encodeClusterRecord record, record)
  else
    match crates.encodeClusterRecord record with
    | .ok value =>
      if value.length ≤ limit then some (.ok value, record) else crates.encodePrefix record limit
    | .error _ => crates.encodePrefix record limit

/-- Decodes a value. -/
def decodeClusterRecord (value : Bytes) : Except String ClusterRecord :=
  if DHT_VALUE_LIMIT < value.length then
    .error (s!"discovered cluster record exceeds size limit ({value.length} > " ++
      s!"{DHT_VALUE_LIMIT} bytes)")
  else if DHT_RECORD_MAGIC <+: value then crates.fromBytes (value.drop DHT_RECORD_MAGIC.length)
  else crates.fromSlice value

/-! ### What fits -/

/-- The record with its first `k` members fits into the limit. -/
def Fits (record : ClusterRecord) (limit k : ℕ) : Prop :=
  ∃ value, crates.encodeClusterRecord (record.keep k) = .ok value ∧ value.length ≤ limit

end Crates

variable {crates : Crates} {record : ClusterRecord} {limit k : ℕ}

theorem encodeClusterRecord_eq_ok {value : Bytes} :
    crates.encodeClusterRecord record = .ok value ↔
      ∃ encoded, crates.toStdvec record = .ok encoded ∧ value = DHT_RECORD_MAGIC ++ encoded := by
  rw [Crates.encodeClusterRecord]
  cases crates.toStdvec record with
  | error e => exact iff_of_false nofun (by rintro ⟨_, ⟨⟩, -⟩)
  | ok encoded =>
    show Except.ok _ = Except.ok _ ↔ _
    constructor
    · rintro ⟨⟩
      exact ⟨encoded, rfl, rfl⟩
    · rintro ⟨_, ⟨⟩, rfl⟩
      rfl

theorem Crates.Lossless.encodes (h : crates.Lossless) (record : ClusterRecord) :
    ∃ value, crates.encodeClusterRecord record = .ok value := by
  obtain ⟨encoded, hencoded, -⟩ := h record
  exact ⟨_, encodeClusterRecord_eq_ok.mpr ⟨encoded, hencoded, rfl⟩⟩

/-- **Decoding** gives the record back, if its encoding is within the limit of the DHT. -/
theorem Crates.Lossless.decode (h : crates.Lossless) {value : Bytes}
    (hvalue : crates.encodeClusterRecord record = .ok value)
    (hle : value.length ≤ DHT_VALUE_LIMIT) :
    crates.decodeClusterRecord value = .ok record := by
  obtain ⟨encoded, hencoded, rfl⟩ := encodeClusterRecord_eq_ok.mp hvalue
  obtain ⟨encoded', hencoded', hdecode⟩ := h record
  obtain rfl : encoded = encoded' := Except.ok.inj (hencoded.symm.trans hencoded')
  rw [Crates.decodeClusterRecord, if_neg (Nat.not_lt_of_le hle), if_pos (prefix_append _ _),
    drop_left, hdecode]

/-- Where a record fits, so does one with fewer members. -/
theorem fits_anti (hlossless : crates.Lossless) (hmono : crates.Monotone) {j : ℕ} (hjk : j ≤ k)
    (h : crates.Fits record limit k) : crates.Fits record limit j := by
  obtain ⟨value, hvalue, hle⟩ := h
  obtain ⟨encoded, hencoded, rfl⟩ := encodeClusterRecord_eq_ok.mp hvalue
  obtain ⟨encoded', hencoded', -⟩ := hlossless (record.keep j)
  refine ⟨_, encodeClusterRecord_eq_ok.mpr ⟨encoded', hencoded', rfl⟩, ?_⟩
  have hpre : record.members.take j <+: record.members.take k := take_prefix_take_left hjk
  have hlen := hmono record _ _ _ _ hpre hencoded' hencoded
  simp only [length_append] at hle ⊢
  omega

/-! ### The search -/

/-- What the search remembers when `count` members are the most that were found to fit. -/
def Crates.IsBest (crates : Crates) (record : ClusterRecord) (limit count : ℕ) :
    Option (ℕ × Bytes) → Prop
  | none => count = 0
  | some (found, value) => found = count ∧ 0 < count ∧
      crates.encodeClusterRecord (record.keep count) = .ok value ∧ value.length ≤ limit

/-- The bounds enclose the longest prefix that fits; the longest one below them is remembered. -/
structure Crates.Searching (crates : Crates) (record : ClusterRecord) (limit : ℕ) (s : Search) :
    Prop where
  bracket : Bracket (crates.Fits record limit) record.members.length s.low s.high
  best : crates.IsBest record limit (s.low - 1) s.best

theorem sliceTo_eq_some {α : Type*} {l : List α} {count : ℕ} (h : count ≤ l.length) :
    sliceTo l count = some (l.take count) := if_pos h

/-- **One round** keeps the longest prefix between the bounds. -/
theorem searchRound_searching (hlossless : crates.Lossless) (hmono : crates.Monotone)
    {s : Crates.Search} (h : crates.Searching record limit s) (hle : s.low ≤ s.high) :
    ∃ s', crates.searchRound record record.members limit s = some (.again s') ∧
      crates.Searching record limit s' ∧ s'.high + 1 - s'.low < s.high + 1 - s.low := by
  obtain ⟨hlow, hhigh⟩ := Bracket.mid_mem hle
  set mid := s.low + (s.high - s.low) / 2 with hmid
  have hlen := h.bracket.high_le
  have hpos := h.bracket.low_pos
  obtain ⟨value, hvalue⟩ := hlossless.encodes (record.keep mid)
  rw [Crates.searchRound, if_pos hle]
  simp only [← hmid]
  rw [sliceTo_eq_some (by omega), Option.map_some]
  rw [show { record with members := record.members.take mid } = record.keep mid from rfl, hvalue]
  by_cases hfits : value.length ≤ limit
  · refine ⟨⟨mid + 1, s.high, some (mid, value)⟩, by simp [hfits], ⟨?_, ?_⟩, ?_⟩
    · exact h.bracket.raise hhigh ⟨value, hvalue, hfits⟩
    · have hmid_pos : 0 < mid := by omega
      exact ⟨rfl, hmid_pos, hvalue, hfits⟩
    · simp only
      omega
  · refine ⟨⟨s.low, mid - 1, s.best⟩, by simp [hfits], ⟨?_, h.best⟩, ?_⟩
    · refine h.bracket.lower (fun _ _ _ hjk _ => fits_anti hlossless hmono hjk) hlow hhigh ?_
      rintro ⟨value', hvalue', hle'⟩
      obtain rfl := Except.ok.inj (hvalue.symm.trans hvalue')
      exact hfits hle'
    · simp only
      omega

/-- **The search ends** with the longest prefix that fits. -/
theorem search_isLast (limit : ℕ) (hlossless : crates.Lossless) (hmono : crates.Monotone)
    (hne : record.members ≠ []) :
    ∃ best, loop (crates.searchRound record record.members limit) (record.members.length + 1)
        ⟨1, record.members.length, none⟩ = some best ∧
      ∃ k, IsLast (crates.Fits record limit) record.members.length k ∧
        crates.IsBest record limit k best := by
  have hstart : crates.Searching record limit ⟨1, record.members.length, none⟩ :=
    ⟨Bracket.start (length_pos_of_ne_nil hne), rfl⟩
  refine loop_spec (I := crates.Searching record limit) (fun s => s.high + 1 - s.low)
    (fun s hs => ?_) hstart (by simp)
  by_cases hle : s.low ≤ s.high
  · exact .inl (searchRound_searching hlossless hmono hs hle)
  · refine .inr ⟨s.best, by rw [Crates.searchRound, if_neg hle], s.low - 1, ?_, hs.best⟩
    exact hs.bracket.isLast (by omega)

theorem encodePrefix_spec (limit : ℕ) (hlossless : crates.Lossless) (hmono : crates.Monotone)
    (hne : record.members ≠ []) :
    ∃ k, IsLast (crates.Fits record limit) record.members.length k ∧
      (0 < k → ∃ value, crates.encodeClusterRecord (record.keep k) = .ok value ∧
        crates.encodePrefix record limit = some (.ok value, record.keep k)) ∧
      (k = 0 → ∃ e, crates.encodePrefix record limit = some (.error e, record.keep 1)) := by
  have hlen : 1 ≤ record.members.length := length_pos_of_ne_nil hne
  obtain ⟨best, hsearch, k, hk, hbest⟩ := search_isLast limit hlossless hmono hne
  refine ⟨k, hk, fun hpos => ?_, fun hzero => ?_⟩
  · match best, hbest with
    | some (found, value), hbest =>
      obtain ⟨rfl, -, hvalue, -⟩ := hbest
      refine ⟨value, hvalue, ?_⟩
      simp only [Crates.encodePrefix, hsearch, Option.bind_eq_bind, Option.bind_some,
        sliceTo_eq_some hk.le]
      rfl
    | none, hbest => exact absurd hbest (by simp [Crates.IsBest]; omega)
  · match best, hbest with
    | some (found, value), hbest => exact absurd hbest.2.1 (by omega)
    | none, hbest =>
      obtain ⟨value, hvalue⟩ := hlossless.encodes (record.keep 1)
      have hlimit : limit < value.length := by
        by_contra hle
        exact hk.fails 1 (by omega) hlen ⟨value, hvalue, by omega⟩
      have hkeep : ({ record with members := record.members.take 1 } : ClusterRecord) =
          record.keep 1 := rfl
      simp only [Crates.encodePrefix, hsearch, Option.bind_eq_bind, Option.bind_some,
        sliceTo_eq_some hlen, hkeep, hvalue, if_pos hlimit]
      exact ⟨_, rfl⟩

/-- **Bounded encoding**: the record keeps the longest prefix that fits, which is encoded; where
not even the first member fits, it keeps this one, and the call fails. -/
theorem encodeClusterRecordBounded_spec (limit : ℕ) (hlossless : crates.Lossless)
    (hmono : crates.Monotone) (hne : record.members ≠ []) :
    ∃ k, IsLast (crates.Fits record limit) record.members.length k ∧
      (0 < k → ∃ value, crates.encodeClusterRecord (record.keep k) = .ok value ∧
        crates.encodeClusterRecordBounded record limit = some (.ok value, record.keep k)) ∧
      (k = 0 →
        ∃ e, crates.encodeClusterRecordBounded record limit = some (.error e, record.keep 1)) := by
  obtain ⟨value, hvalue⟩ := hlossless.encodes record
  have hkeep : record.keep record.members.length = record := by
    rw [ClusterRecord.keep, take_length]
  have hpos := length_pos_of_ne_nil hne
  rw [Crates.encodeClusterRecordBounded, if_neg hne, hvalue]
  by_cases hle : value.length ≤ limit
  · refine ⟨record.members.length, ⟨le_rfl, fun _ => ⟨value, ?_, hle⟩, by omega⟩, fun _ => ?_, ?_⟩
    · rw [hkeep, hvalue]
    · exact ⟨value, by rw [hkeep, hvalue], by simp [hle, hkeep]⟩
    · omega
  · simp only [if_neg hle]
    exact encodePrefix_spec limit hlossless hmono hne

/-- **Bounded record encoding** keeps the longest prefix of the members that fits, and fails exactly
if the first member alone does not. -/
theorem encodeClusterRecordBounded_longest (hlossless : crates.Lossless)
    (hmono : crates.Monotone) (record : ClusterRecord) (hne : record.members ≠ []) (limit : ℕ) :
    ∃ result record', crates.encodeClusterRecordBounded record limit = some (result, record') ∧
      ((∃ e, result = .error e) ↔ ∃ value,
        crates.encodeClusterRecord (record.keep 1) = .ok value ∧ limit < value.length) ∧
      ∀ value, result = .ok value → value.length ≤ limit ∧
        crates.encodeClusterRecord record' = .ok value ∧
        (∃ k > 0, IsLast (crates.Fits record limit) record.members.length k ∧
          record' = record.keep k) ∧
        (limit ≤ DHT_VALUE_LIMIT → crates.decodeClusterRecord value = .ok record') := by
  obtain ⟨k, hk, hpos, hzero⟩ := encodeClusterRecordBounded_spec limit hlossless hmono hne
  have hlen : 1 ≤ record.members.length := length_pos_of_ne_nil hne
  rcases Nat.eq_zero_or_pos k with rfl | hk'
  · obtain ⟨e, heq⟩ := hzero rfl
    refine ⟨.error e, record.keep 1, heq, iff_of_true ⟨e, rfl⟩ ?_, nofun⟩
    obtain ⟨value, hvalue⟩ := hlossless.encodes (record.keep 1)
    refine ⟨value, hvalue, Nat.lt_of_not_le fun hle => ?_⟩
    exact hk.fails 1 Nat.one_pos hlen ⟨value, hvalue, hle⟩
  · obtain ⟨value, hvalue, heq⟩ := hpos hk'
    obtain ⟨value', hvalue', hle⟩ := hk.holds hk'
    obtain rfl := Except.ok.inj (hvalue.symm.trans hvalue')
    refine ⟨.ok value, record.keep k, heq, iff_of_false nofun ?_, ?_⟩
    · rintro ⟨first, hfirst, hlt⟩
      obtain ⟨first', hfirst', hle'⟩ := fits_anti hlossless hmono hk' ⟨value, hvalue, hle⟩
      obtain rfl := Except.ok.inj (hfirst.symm.trans hfirst')
      exact absurd hlt (Nat.not_lt_of_le hle')
    · rintro _ ⟨⟩
      exact ⟨hle, hvalue, ⟨k, hk', hk, rfl⟩, fun hlimit =>
        hlossless.decode hvalue (hle.trans hlimit)⟩

/-- Two members with empty texts take 7 bytes each, and the record 22 bytes, so that one of them
fits into 20. -/
theorem encodeClusterRecordBounded_twoMembers :
    let m : MemberRecord := ⟨"", "", [], [], [], [], 0⟩
    ∃ result record', postcardCrates.encodeClusterRecordBounded ⟨1, 0, 0, [m, m]⟩ 20 =
        some (result, record') ∧
      ∀ value, result = .ok value → value.length ≤ 20 ∧
        postcardCrates.decodeClusterRecord value = .ok record' := by
  intro m
  obtain ⟨result, record', heq, -, hok⟩ := encodeClusterRecordBounded_longest postcard_lossless
    postcard_monotone ⟨1, 0, 0, [m, m]⟩ (cons_ne_nil m [m]) 20
  refine ⟨result, record', heq, fun value hvalue => ?_⟩
  obtain ⟨hle, -, -, hdecode⟩ := hok value hvalue
  exact ⟨hle, hdecode (by decide)⟩

end RustExample.MainlineRecord
