import Mathlib.Data.Prod.Lex
import Mathlib.Data.String.Basic
import RustExample.OpenraftCluster.LogStore.Refinement
import RustExample.OpenraftCluster.StateMachine.Snapshot

/-!
# The integrity check at start-up

A replica checks its log store against its state machine and its newest snapshot before it starts.
The check compares the log ids that it finds, and walks the log from the purge mark, or from the
first entry without one, to its end. It does not ask whether the state machine or the snapshot
reaches the purge mark.

Source: `src/store.rs` (`verify_openraft_store_integrity` and its helpers).

* How a log id is printed is a parameter.
* Log ids are ordered by term, node and index.
-/

namespace RustExample.OpenraftCluster

open List

variable {M V : Type}

/-! ### The order of log ids -/

namespace LogId

/-- The order of the ids. -/
def rank (id : LogId) : ℕ ×ₗ String ×ₗ ℕ := toLex (id.term.toNat, toLex (id.nodeId, id.index.toNat))

theorem rank_injective : Function.Injective rank := by
  rintro ⟨term, nodeId, index⟩ ⟨term', nodeId', index'⟩ h
  simp only [rank, toLex_inj, Prod.mk.injEq, UInt64.toNat_inj] at h
  obtain ⟨rfl, rfl, rfl⟩ := h
  rfl

instance : LinearOrder LogId := LinearOrder.lift' rank rank_injective

end LogId

/-! ### The check -/

section

variable (debug : LogId → String) (groupId : String)

/-- Puts a context before an error. -/
def withContext {α : Type} (context : String) : Except String α → Except String α
  | .ok a => .ok a
  | .error err => .error s!"{context}: {err}"

/-- Refuses a lower id above the upper. -/
def verifyLogIdOrder (lowerName : String) (lower : Option LogId) (upperName : String)
    (upper : Option LogId) : Except String Unit :=
  match lower, upper with
  | some lower, some upper =>
    if upper < lower then
      .error (s!"verify group {groupId}: {lowerName} {debug lower} is after " ++
        s!"{upperName} {debug upper}")
    else
      .ok ()
  | _, _ => .ok ()

/-- Refuses a value above the tip. -/
def verifyOptionalLogIdNotAfter (valueName : String) (value : Option LogId) (tipName : String)
    (tip : Option LogId) : Except String Unit :=
  match value, tip with
  | some value, some tip =>
    if tip < value then
      .error s!"verify group {groupId}: {valueName} {debug value} is after {tipName} {debug tip}"
    else
      .ok ()
  | some value, none =>
    .error s!"verify group {groupId}: {valueName} {debug value} exists but {tipName} is empty"
  | none, _ => .ok ()

/-- The greater of two ids. -/
def maxLogId (left right : Option LogId) : Option LogId :=
  match left, right with
  | some left, some right => some (max left right)
  | some logId, none | none, some logId => some logId
  | none, none => none

/-- Walk the entries: the index that comes next, and the log id of the last entry. -/
def walkEntries (expectedIndex : UInt64) (previousLogId : Option LogId) :
    List (Entry M) → Except String (UInt64 × Option LogId)
  | [] => .ok (expectedIndex, previousLogId)
  | entry :: entries =>
    if entry.index ≠ expectedIndex then
      .error (s!"verify group {groupId}: missing or out-of-order log entry: expected index " ++
        s!"{expectedIndex}, got {entry.index}")
    else
      match previousLogId.filter fun previous => entry.logId ≤ previous with
      | some previous =>
        .error (s!"verify group {groupId}: non-increasing log id: " ++
          s!"previous={debug previous}, current={debug entry.logId}")
      | none =>
        match checkedAdd expectedIndex 1 with
        | none => .error s!"verify group {groupId}: log index overflow"
        | some next => walkEntries next (some entry.logId) entries

/-- Checks the entries above the purge mark. -/
def verifyLogEntries (store : RocksLogStore M V) (lastPurgedLogId lastLogId : Option LogId) :
    Except String Unit :=
  match lastLogId with
  | none => .ok ()
  | some lastLogId => do
    let afterPurge := lastPurgedLogId.bind fun logId => checkedAdd logId.index 1
    let start := afterPurge.getD 0
    if lastLogId.index < start then
      .ok ()
    else do
      let entries ← withContext
        s!"verify group {groupId}: read log entries {start}..={lastLogId.index}"
        (store.tryGetLogEntries (.closed start lastLogId.index))
      match entries with
      | [] =>
        .error (s!"verify group {groupId}: log state has last_log_id {debug lastLogId} but no " ++
          "log entries were readable")
      | firstEntry :: _ => do
        let expectedIndex := afterPurge.getD firstEntry.index
        let (expectedIndex, previousLogId) ← walkEntries debug groupId expectedIndex none entries
        if expectedIndex ≤ lastLogId.index then
          .error (s!"verify group {groupId}: missing log entries through last_log_id " ++
            debug lastLogId)
        else if previousLogId ≠ some lastLogId then
          .error (s!"verify group {groupId}: last persisted entry " ++
            s!"{debugOption debug previousLogId} does not match log state {debug lastLogId}")
        else
          .ok ()

/-- Checks the whole store. -/
def verifyOpenraftStoreIntegrity (store : RocksLogStore M V) (db : Db M)
    (snapshot : Option (SnapshotMeta M)) : Except String Unit := do
  let committed := store.readCommitted
  let logState ← withContext s!"verify group {groupId}: read persisted log state"
    store.getLogState
  let lastApplied := db.lastAppliedLog
  let snapshotLastLogId := snapshot.bind SnapshotMeta.lastLogId
  verifyLogIdOrder debug groupId "last_purged_log_id" logState.lastPurgedLogId
    "last_log_id" logState.lastLogId
  let durableTip := maxLogId (maxLogId logState.lastLogId lastApplied) snapshotLastLogId
  verifyOptionalLogIdNotAfter debug groupId "committed" committed "durable_tip" durableTip
  verifyOptionalLogIdNotAfter debug groupId "last_applied" lastApplied "durable_tip" durableTip
  verifyLogEntries debug groupId store logState.lastPurgedLogId logState.lastLogId

end

/-! ### What passes the check -/

namespace RocksLogStore

/-- The keys from that of `start` on are those of the indices up to the last one, each with its
entry; the log ids increase and end with `lastLogId`. -/
structure Walked (store : RocksLogStore M V) (lastLogId : LogId) (start : UInt64) : Prop where
  present : ∀ i, start ≤ i → i ≤ lastLogId.index →
    ∃ e, store.logs[idToBin i]? = some e ∧ e.index = i
  only : ∀ key e, store.logs[key]? = some e → (compare (idToBin start) key).isLE →
    key = idToBin e.index ∧ e.index ≤ lastLogId.index
  increasing : ∀ i j e e', start ≤ i → i < j → j ≤ lastLogId.index →
    store.logs[idToBin i]? = some e → store.logs[idToBin j]? = some e' → e.logId < e'.logId
  last : ∃ e, store.logs[idToBin lastLogId.index]? = some e ∧ e.logId = lastLogId

/-- `start` is after the purge mark, and not before the key of the first entry if there is none. -/
structure Retained (store : RocksLogStore M V) (start : UInt64) : Prop where
  purged : ∀ p, store.lastPurged = some p → p.index < start
  first : store.lastPurged = none → ∃ i e, i ≤ start ∧ store.logs[idToBin i]? = some e

/-- A store that passes the check, with its last log id. -/
structure Verified (store : RocksLogStore M V) (lastLogId lastApplied snapshot : Option LogId) :
    Prop where
  logState : store.getLogState = .ok ⟨store.lastPurged, lastLogId⟩
  purged : ∀ p, store.lastPurged = some p → ∃ l, lastLogId = some l ∧ p ≤ l
  committed : ∀ c, store.committed = some c → ∃ tip,
    (lastLogId = some tip ∨ lastApplied = some tip ∨ snapshot = some tip) ∧ c ≤ tip
  walked : ∀ l start, lastLogId = some l → store.Retained start → start ≤ l.index →
    store.Walked l start

/-! ### Reads of any store -/

variable {store : RocksLogStore M V}

/-- A key that is read as an index is the key of the index. -/
theorem eq_idToBin_of_binToId {key : List UInt8} {id : UInt64} (h : binToId key = .ok id) :
    key = idToBin id := by
  obtain ⟨hlength, hid⟩ := guard_eq_ok.mp h
  obtain rfl := Except.ok.inj hid
  have hlength : key.length = 8 := not_not.mp hlength
  have hlt : BigEndian.decode key < 256 ^ 8 := hlength ▸ BigEndian.decode_lt key
  rw [idToBin, UInt64.toNat_ofNat_of_lt' hlt, ← hlength, BigEndian.encode_decode]

/-- The last log id is that of the entry under the last key, or the purge mark without entries. -/
theorem getLogState_eq_ok {state : LogState} (h : store.getLogState = .ok state) :
    (store.logs.lastEntry = none ∧ state = ⟨store.lastPurged, store.lastPurged⟩) ∨
      ∃ e, store.logs.lastEntry = some (idToBin e.index, e) ∧
        state = ⟨store.lastPurged, some e.logId⟩ := by
  unfold getLogState at h
  cases hentry : store.logs.lastEntry with
  | none =>
    simp only [hentry, ok_bind, Option.none_or, Except.ok.injEq] at h
    exact .inl ⟨rfl, h.symm⟩
  | some p =>
    obtain ⟨key, e⟩ := p
    simp only [hentry] at h
    obtain ⟨keyIndex, hkey, h⟩ := bind_eq_ok.mp h
    split_ifs at h with hindex
    · simp at h
    obtain rfl := Except.ok.inj h
    rw [eq_idToBin_of_binToId hkey, not_not.mp hindex]
    exact .inr ⟨e, rfl, rfl⟩

variable {es : List (Entry M)}

/-- A read that succeeds and is not cut off has found each key with the entry of its index. -/
theorem mapM_decode_takeRange_eq_ok {start last : UInt64} {l : List (List UInt8 × Entry M)}
    (hkeys : ∀ p ∈ l, (compare (idToBin start) p.1).isLE ∧ (compare p.1 (idToBin last)).isLE)
    {items : List (LogItem M)} (hitems : takeRange (.closed start last) l = .ok items)
    (hes : items.mapM decode = .ok es) :
    es = l.map Prod.snd ∧ ∀ p ∈ l, p.1 = idToBin p.2.index := by
  induction l generalizing items es with
  | nil =>
    obtain rfl := Except.ok.inj hitems
    exact ⟨(Except.ok.inj hes).symm, fun p hp => absurd hp not_mem_nil⟩
  | cons p l ih =>
    obtain ⟨key, entry⟩ := p
    obtain ⟨⟨hstart, hlast⟩, hrest⟩ := List.forall_mem_cons.mp hkeys
    obtain ⟨id, hid, hitems⟩ := bind_eq_ok.mp hitems
    obtain rfl := eq_idToBin_of_binToId hid
    rw [isLE_compare_idToBin] at hstart hlast
    have hin : (IndexRange.closed start last).contains id := by
      simp [IndexRange.contains, IndexRange.closed, IndexRange.afterStart, IndexRange.beforeEnd,
        hstart, hlast]
    rw [if_pos hin] at hitems
    obtain ⟨items, hrest', hitems⟩ := bind_eq_ok.mp hitems
    obtain rfl := Except.ok.inj hitems
    rw [mapM_cons] at hes
    obtain ⟨e, hdecode, hes⟩ := bind_eq_ok.mp hes
    obtain ⟨es', hes', hes⟩ := bind_eq_ok.mp hes
    obtain rfl := Except.ok.inj hes
    obtain ⟨hindex, he⟩ := guard_eq_ok.mp hdecode
    obtain rfl := Except.ok.inj he
    obtain ⟨rfl, hall⟩ := ih hrest hrest' hes'
    exact ⟨rfl, List.forall_mem_cons.mpr ⟨congrArg idToBin (not_not.mp hindex), hall⟩⟩

/-- **A read up to the last key** that succeeds finds what is stored from its start on, all of it
under the keys of its indices. -/
theorem tryGetLogEntries_eq_ok {start last : UInt64}
    (hmax : ∀ key e, store.logs[key]? = some e → (compare key (idToBin last)).isLE)
    (h : store.tryGetLogEntries (.closed start last) = .ok es) :
    es.Pairwise (fun e e' => e.index < e'.index) ∧
      ∀ key e, store.logs[key]? = some e ∧ (compare (idToBin start) key).isLE ↔
        e ∈ es ∧ key = idToBin e.index := by
  obtain ⟨items, hitems, hes⟩ := bind_eq_ok.mp h
  let l := store.logs.iterFrom (idToBin start)
  have hmem (key : List UInt8) (e : Entry M) :
      (key, e) ∈ l ↔ store.logs[key]? = some e ∧ (compare (idToBin start) key).isLE := by
    simp only [l, KeyStore.iterFrom, mem_filter,
      Std.ExtTreeMap.mem_toList_iff_getElem?_eq_some]
  obtain ⟨rfl, hkeys⟩ := mapM_decode_takeRange_eq_ok (l := l)
    (fun p hp => ⟨((hmem p.1 p.2).mp hp).2, hmax _ _ ((hmem p.1 p.2).mp hp).1⟩) hitems hes
  refine ⟨?_, fun key e => ?_⟩
  · rw [pairwise_map]
    refine (store.logs.ordered_keys_toList.filter _).imp_of_mem fun {p q} hp hq hlt => ?_
    rw [hkeys p hp, hkeys q hq, compare_idToBin, Nat.compare_eq_lt] at hlt
    exact UInt64.lt_iff_toNat_lt.mpr hlt
  · rw [← hmem, mem_map]
    constructor
    · exact fun hp => ⟨⟨_, hp, rfl⟩, hkeys _ hp⟩
    · rintro ⟨⟨⟨key', e'⟩, hp, rfl⟩, rfl⟩
      rwa [← show key' = _ from hkeys _ hp]

end RocksLogStore

section

variable {debug : LogId → String} {groupId : String}

theorem le_of_verifyLogIdOrder {lowerName upperName : String} {lower upper : LogId}
    (h : verifyLogIdOrder debug groupId lowerName (some lower) upperName (some upper) = .ok ()) :
    lower ≤ upper :=
  not_lt.mp (guard_eq_ok.mp h).1

theorem le_of_verifyOptionalLogIdNotAfter {valueName tipName : String} {value : LogId}
    {tip : Option LogId}
    (h : verifyOptionalLogIdNotAfter debug groupId valueName (some value) tipName tip = .ok ()) :
    ∃ t, tip = some t ∧ value ≤ t := by
  cases tip with
  | none => exact absurd h (by simp [verifyOptionalLogIdNotAfter])
  | some t => exact ⟨t, rfl, not_lt.mp (guard_eq_ok.mp h).1⟩

theorem maxLogId_eq_some {left right : Option LogId} {id : LogId}
    (h : maxLogId left right = some id) : left = some id ∨ right = some id := by
  rcases left with - | left <;> rcases right with - | right
  · exact absurd h (by simp [maxLogId])
  · exact .inr h
  · exact .inl h
  · rcases max_choice left right with hmax | hmax <;> simp_all [maxLogId]

theorem withContext_eq_ok {α : Type} {context : String} {x : Except String α} {a : α} :
    withContext context x = .ok a ↔ x = .ok a := by
  cases x <;> simp [withContext]

/-- A walk that succeeds has met every index once, with increasing log ids. -/
theorem walkEntries_eq_ok {entries : List (Entry M)} {expected next : UInt64}
    {previous last : Option LogId}
    (h : walkEntries debug groupId expected previous entries = .ok (next, last)) :
    next.toNat = expected.toNat + entries.length ∧
    (∀ i, expected ≤ i → i < next → ∃ e ∈ entries, e.index = i) ∧
    entries.Pairwise (fun e e' => e.logId < e'.logId) ∧
    (∀ id ∈ previous, ∀ e ∈ entries, id < e.logId) ∧
    last = (entries.getLast?.map Entry.logId).or previous := by
  induction entries generalizing expected previous with
  | nil =>
    obtain ⟨rfl, rfl⟩ := Prod.mk.inj (Except.ok.inj h)
    refine ⟨rfl, fun i hle hlt => ?_, .nil, fun _ _ _ he => absurd he not_mem_nil, ?_⟩
    · exact absurd hlt (UInt64.not_lt.mpr hle)
    · cases previous <;> rfl
  | cons entry entries ih =>
    rw [walkEntries] at h
    obtain ⟨hindex, h⟩ := guard_eq_ok.mp h
    obtain rfl := not_not.mp hindex
    cases hprevious : previous.filter fun previous => entry.logId ≤ previous with
    | some id => simp [hprevious] at h
    | none =>
      cases hadd : checkedAdd entry.index 1 with
      | none => simp [hprevious, hadd] at h
      | some after =>
        simp only [hprevious, hadd] at h
        have hafter := toNat_of_checkedAdd_one hadd
        obtain ⟨hnext, hpresent, hincreasing, hentry, hlast⟩ := ih h
        have htail (e : Entry M) (he : e ∈ entries) : entry.logId < e.logId :=
          hentry entry.logId rfl e he
        refine ⟨?_, fun i hle hlt => ?_, List.pairwise_cons.mpr ⟨htail, hincreasing⟩,
          fun id hid e he => ?_, ?_⟩
        · rw [length_cons]
          omega
        · by_cases hi : i = entry.index
          · exact ⟨entry, mem_cons_self, hi.symm⟩
          · have hgt : after ≤ i := by
              rw [UInt64.le_iff_toNat_le] at hle ⊢
              have hne : i.toNat ≠ entry.index.toNat := fun h => hi (UInt64.toNat_inj.mp h)
              omega
            obtain ⟨e, he, hei⟩ := hpresent i hgt hlt
            exact ⟨e, mem_cons_of_mem _ he, hei⟩
        · have hlt : id < entry.logId := by
            simpa using Option.filter_eq_none_iff.mp hprevious id hid
          rcases List.mem_cons.mp he with rfl | he
          · exact hlt
          · exact hlt.trans (htail e he)
        · rw [hlast]
          cases entries with
          | nil => rfl
          | cons e entries => rw [getLast?_cons_cons]; rfl

theorem logId_lt_of_index_lt {es : List (Entry M)}
    (h : es.Pairwise fun e e' => e.index < e'.index ∧ e.logId < e'.logId) {e e' : Entry M}
    (he : e ∈ es) (he' : e' ∈ es) (hlt : e.index < e'.index) : e.logId < e'.logId := by
  induction es with
  | nil => exact absurd he not_mem_nil
  | cons c es ih =>
    obtain ⟨hhead, htail⟩ := List.pairwise_cons.mp h
    rcases List.mem_cons.mp he with rfl | hmem
    · rcases List.mem_cons.mp he' with rfl | hmem'
      · exact absurd hlt (UInt64.lt_irrefl _)
      · exact (hhead e' hmem').2
    · rcases List.mem_cons.mp he' with rfl | hmem'
      · exact absurd hlt (UInt64.not_lt.mpr (UInt64.le_of_lt (hhead e hmem).1))
      · exact ih htail hmem hmem'

/-- The walk from the purge mark, or from the first entry, to the last log id. -/
theorem walked_of_verifyLogEntries {store : RocksLogStore M V} {l : LogId}
    (hstate : store.getLogState = .ok ⟨store.lastPurged, some l⟩)
    (h : verifyLogEntries debug groupId store store.lastPurged (some l) = .ok ()) {start : UInt64}
    (hretained : store.Retained start) (hle : start ≤ l.index) : store.Walked l start := by
  let afterPurge := store.lastPurged.bind fun logId => checkedAdd logId.index 1
  have hafter (after : UInt64) (h : afterPurge = some after) : after ≤ start := by
    obtain ⟨p, hp, hadd⟩ := Option.bind_eq_some_iff.mp h
    have hlt := UInt64.lt_iff_toNat_lt.mp (hretained.purged p hp)
    rw [UInt64.le_iff_toNat_le, toNat_of_checkedAdd_one hadd]
    omega
  have hscan : afterPurge.getD 0 ≤ start := by
    cases h : afterPurge with
    | none => exact UInt64.zero_le
    | some after => exact hafter after h
  -- The last log id is that of the last key, since the purge mark comes before `start`.
  have hmax (key : List UInt8) (e : Entry M) (he : store.logs[key]? = some e) :
      (compare key (idToBin l.index)).isLE := by
    rcases RocksLogStore.getLogState_eq_ok hstate with ⟨hnone, -⟩ | ⟨last, hlast, hl⟩
    · exact absurd (he.symm.trans (KeyStore.lastEntry_eq_none hnone key)) (by simp)
    · obtain rfl : l = last.logId := Option.some.inj (LogState.mk.inj hl).2
      exact (KeyStore.lastEntry_eq_some hlast).2 key e he
  unfold verifyLogEntries at h
  dsimp only at h
  split_ifs at h with hlt
  · exact absurd hlt (UInt64.not_lt.mpr (UInt64.le_trans hscan hle))
  · obtain ⟨es, hes, h⟩ := bind_eq_ok.mp h
    obtain ⟨hsorted, hmem⟩ :=
      RocksLogStore.tryGetLogEntries_eq_ok hmax (withContext_eq_ok.mp hes)
    have hread (i : UInt64) (e : Entry M) (hi : afterPurge.getD 0 ≤ i)
        (he : store.logs[idToBin i]? = some e) : e ∈ es ∧ e.index = i := by
      obtain ⟨hin, hkey⟩ := (hmem (idToBin i) e).mp ⟨he, isLE_compare_idToBin.mpr hi⟩
      exact ⟨hin, (idToBin_inj hkey).symm⟩
    have hstored (e : Entry M) (he : e ∈ es) : store.logs[idToBin e.index]? = some e :=
      ((hmem (idToBin e.index) e).mpr ⟨he, rfl⟩).1
    cases es with
    | nil => simp at h
    | cons first rest =>
      obtain ⟨⟨next, previous⟩, hwalk, h⟩ := bind_eq_ok.mp h
      obtain ⟨hnext, h⟩ := guard_eq_ok.mp h
      have hprevious : previous = some l := not_not.mp (guard_eq_ok.mp h).1
      obtain ⟨-, hpresent, hincreasing, -, hlast⟩ := walkEntries_eq_ok hwalk
      have hexpected : afterPurge.getD first.index ≤ start := by
        cases hpurge : afterPurge with
        | some after => exact hafter after hpurge
        | none =>
          cases hp : store.lastPurged with
          | some p =>
            have hadd : checkedAdd p.index 1 = none := by simpa [afterPurge, hp] using hpurge
            exact absurd (hretained.purged p hp)
              (UInt64.not_lt.mpr (le_of_checkedAdd_one hadd start))
          | none =>
            obtain ⟨i, e, hi, he⟩ := hretained.first hp
            obtain ⟨hin, rfl⟩ := hread i e (by rw [hpurge]; exact UInt64.zero_le) he
            rcases List.mem_cons.mp hin with rfl | hin
            · exact hi
            · have hfirst := (List.pairwise_cons.mp hsorted).1 e hin
              exact UInt64.le_trans (UInt64.le_of_lt hfirst) hi
      refine ⟨fun i hi hil => ?_, fun key e he hkey => ?_, fun i j e e' hi hij hjl he he' => ?_, ?_⟩
      · obtain ⟨e, he, rfl⟩ := hpresent i (UInt64.le_trans hexpected hi)
          (UInt64.lt_of_le_of_lt hil (UInt64.not_le.mp hnext))
        exact ⟨e, hstored e he, rfl⟩
      · have hfrom : (compare (idToBin (afterPurge.getD 0)) key).isLE :=
          Std.TransCmp.isLE_trans (isLE_compare_idToBin.mpr hscan) hkey
        obtain rfl := ((hmem key e).mp ⟨he, hfrom⟩).2
        exact ⟨rfl, isLE_compare_idToBin.mp (hmax _ _ he)⟩
      · obtain ⟨hin, rfl⟩ := hread i e (UInt64.le_trans hscan hi) he
        obtain ⟨hin', rfl⟩ :=
          hread j e' (UInt64.le_trans hscan (UInt64.le_trans hi (UInt64.le_of_lt hij))) he'
        exact logId_lt_of_index_lt (hsorted.and hincreasing) hin hin' hij
      · rw [hprevious] at hlast
        cases hget : (first :: rest).getLast? with
        | none => simp at hget
        | some e =>
          rw [hget] at hlast
          have hid : e.logId = l := (Option.some.inj hlast).symm
          have he := hstored e (mem_of_getLast? hget)
          exact ⟨e, by rwa [← hid], hid⟩

/-- **What passes the check.** Every store that passes ends with the last log id, at or after the
purge mark, the committed log id and what the state machine and the snapshot cover; from any
retained index on it is contiguous. -/
theorem verified_of_ok {store : RocksLogStore M V} {db : Db M} {snapshot : Option (SnapshotMeta M)}
    (h : verifyOpenraftStoreIntegrity debug groupId store db snapshot = .ok ()) :
    ∃ last, store.Verified last db.lastAppliedLog (snapshot.bind SnapshotMeta.lastLogId) := by
  obtain ⟨state, hstate, h⟩ := bind_eq_ok.mp h
  rw [withContext_eq_ok] at hstate
  obtain ⟨last, rfl, hpurge⟩ : ∃ last, state = ⟨store.lastPurged, last⟩ ∧
      (last = none → store.lastPurged = none) := by
    rcases RocksLogStore.getLogState_eq_ok hstate with ⟨-, rfl⟩ | ⟨e, -, rfl⟩
    · exact ⟨_, rfl, id⟩
    · exact ⟨_, rfl, nofun⟩
  obtain ⟨⟨⟩, horder, h⟩ := bind_eq_ok.mp h
  obtain ⟨⟨⟩, hcommitted, h⟩ := bind_eq_ok.mp h
  obtain ⟨⟨⟩, -, hentries⟩ := bind_eq_ok.mp h
  refine ⟨last, hstate, fun p hp => ?_, fun c hc => ?_, fun l start hl hretained hle => ?_⟩
  · cases last with
    | none => exact absurd ((hpurge rfl).symm.trans hp) (by simp)
    | some l => exact ⟨l, rfl, le_of_verifyLogIdOrder (hp ▸ horder)⟩
  · have hread : store.readCommitted = some c := hc
    rw [hread] at hcommitted
    obtain ⟨tip, htip, hle⟩ := le_of_verifyOptionalLogIdNotAfter hcommitted
    refine ⟨tip, ?_, hle⟩
    rcases maxLogId_eq_some htip with htip | htip
    · rcases maxLogId_eq_some htip with htip | htip
      · exact .inl htip
      · exact .inr (.inl htip)
    · exact .inr (.inr htip)
  · subst hl
    exact walked_of_verifyLogEntries hstate hentries hretained hle

end

/-- An entry for a term, a node and an index. -/
def blankEntry (index : UInt64) : Entry Unit := ⟨⟨1, "node1", index⟩, .blank⟩

/-- Two entries after a purge mark, and a copy of the first of them under an older key. -/
def staleKeyStore : RocksLogStore Unit Unit where
  logs := KeyStore.writeAll ∅ [⟨idToBin 3, some (blankEntry 6)⟩, ⟨idToBin 6, some (blankEntry 6)⟩,
    ⟨idToBin 7, some (blankEntry 7)⟩]
  lastPurged := some ⟨1, "node1", 5⟩
  vote := none
  committed := some ⟨1, "node1", 7⟩

theorem verified_of_ok_retained :
    staleKeyStore.Verified (some ⟨1, "node1", 7⟩) (some ⟨1, "node1", 5⟩) none ∧
      staleKeyStore.Walked ⟨1, "node1", 7⟩ 6 := by
  have hok : verifyOpenraftStoreIntegrity LogId.nodeId "group" staleKeyStore
      ⟨∅, some ⟨1, "node1", 5⟩, none⟩ none = .ok () := rfl
  obtain ⟨last, hlast⟩ := verified_of_ok hok
  have hstate : staleKeyStore.getLogState = .ok ⟨staleKeyStore.lastPurged, some ⟨1, "node1", 7⟩⟩ :=
    rfl
  obtain rfl := (LogState.mk.inj (Except.ok.inj (hstate.symm.trans hlast.logState))).2
  have hretained : staleKeyStore.Retained 6 :=
    ⟨fun p hp => by cases hp; decide, fun hnone => absurd hnone (by simp [staleKeyStore])⟩
  exact ⟨hlast, hlast.walked _ 6 rfl hretained (by decide)⟩

/-- **A purged log passes without what was purged**: a purge alone passes with a new state machine
and no snapshot. What is stored before the purge mark is not looked at, and may be there twice. -/
theorem purged_log_passes :
    (∃ store : RocksLogStore Unit Unit, RocksLogStore.empty.purge ⟨1, "node1", 5⟩ = .ok store ∧
      verifyOpenraftStoreIntegrity LogId.nodeId "group" store Db.initial none = .ok () ∧
      store.lastPurged = some ⟨1, "node1", 5⟩ ∧
      (¬∃ tip, maxLogId (Db.initial : Db Unit).lastAppliedLog none = some tip ∧
        ⟨1, "node1", 5⟩ ≤ tip) ∧
      store.getLogState = .ok ⟨some ⟨1, "node1", 5⟩, some ⟨1, "node1", 5⟩⟩ ∧
      store.logs[idToBin 3]? = none) ∧
    verifyOpenraftStoreIntegrity LogId.nodeId "group" staleKeyStore Db.initial none = .ok () ∧
      staleKeyStore.logs[idToBin 3]? = some (blankEntry 6) ∧
      staleKeyStore.logs[idToBin 6]? = some (blankEntry 6) := by
  refine ⟨⟨_, rfl, rfl, rfl, ?_, rfl, rfl⟩, rfl, rfl, rfl⟩
  rintro ⟨tip, htip, -⟩
  exact absurd htip (by simp [maxLogId, Db.initial])

end RustExample.OpenraftCluster
