import RustExample.OpenraftCluster.LogStore.Store

/-!
# The log store as a finite map

A log table says what the log store is for: a finite map from indices to entries, the purge mark,
the vote and the committed log id. The store is a table throughout: its calls have the effect of
the table's, and its reads show the table.
-/

namespace RustExample.OpenraftCluster

open List

variable {M V : Type}

/-! ### The table -/

/-- The map that the store stands for. -/
structure LogTable (M V : Type) where
  entries : UInt64 → Option (Entry M)
  lastPurged : Option LogId
  vote : Option V
  committed : Option LogId

namespace LogTable

/-- A map without entries. -/
def empty : LogTable M V := ⟨fun _ => none, none, none, none⟩

/-- Put entries under their indices, in order. -/
def putAll (f : UInt64 → Option (Entry M)) (entries : List (Entry M)) :
    UInt64 → Option (Entry M) :=
  entries.foldl (fun f e => Function.update f e.index (some e)) f

/-- Entries are put in order; a truncation keeps what is not after an id, a purge what is. -/
def exec (table : LogTable M V) : LogStoreOp M V → LogTable M V
  | .append entries =>
    { table with entries := putAll table.entries entries }
  | .truncateAfter lastLogId =>
    { table with
      entries := fun i =>
        if ∃ logId, lastLogId = some logId ∧ i ≤ logId.index then table.entries i else none }
  | .purge logId =>
    { table with
      entries := fun i => if i ≤ logId.index then none else table.entries i
      lastPurged := some logId }
  | .saveVote vote => { table with vote := some vote }
  | .saveCommitted committed => { table with committed }

/-- Every entry is stored under its own index. -/
def Indexed (table : LogTable M V) : Prop := ∀ i e, table.entries i = some e → e.index = i

/-- The id of the entry with the greatest index, or the purge mark if there are no entries. -/
inductive IsLastLogId (table : LogTable M V) : Option LogId → Prop
  | entry (e : Entry M) (h : table.entries e.index = some e)
      (hlast : ∀ i e', table.entries i = some e' → i ≤ e.index) :
      IsLastLogId table (some e.logId)
  | purged (h : ∀ i, table.entries i = none) : IsLastLogId table table.lastPurged

theorem indexed_empty : (empty : LogTable M V).Indexed := fun _ _ h => absurd h (by simp [empty])

theorem index_of_putAll {f : UInt64 → Option (Entry M)} (hf : ∀ i e, f i = some e → e.index = i)
    (entries : List (Entry M)) {i : UInt64} {e : Entry M} (h : putAll f entries i = some e) :
    e.index = i := by
  induction entries generalizing f with
  | nil => exact hf i e h
  | cons entry entries ih =>
    refine ih (f := Function.update f entry.index (some entry)) (fun i e he => ?_) h
    by_cases hi : i = entry.index
    · rw [hi, Function.update_self, Option.some.injEq] at he
      rw [hi, he]
    · rw [Function.update_of_ne hi] at he
      exact hf i e he

theorem Indexed.exec {table : LogTable M V} (h : table.Indexed) (op : LogStoreOp M V) :
    (table.exec op).Indexed := by
  cases op with
  | append entries => exact fun i e => index_of_putAll h entries
  | truncateAfter lastLogId =>
    intro i e he
    simp only [LogTable.exec] at he
    split_ifs at he
    exact h i e he
  | purge logId =>
    intro i e he
    simp only [LogTable.exec] at he
    split_ifs at he
    exact h i e he
  | saveVote vote => exact h
  | saveCommitted committed => exact h

end LogTable

/-! ### Keys in the order of the indices -/

theorem toNat_lt_pow (i : UInt64) : i.toNat < 256 ^ 8 := i.toNat_lt

theorem binToId_idToBin (i : UInt64) : binToId (idToBin i) = .ok i := by
  simp [binToId, idToBin, BigEndian.decode_encode (toNat_lt_pow i)]

theorem idToBin_inj {i j : UInt64} (h : idToBin i = idToBin j) : i = j :=
  UInt64.toNat_inj.mp (BigEndian.encode_inj (toNat_lt_pow i) (toNat_lt_pow j) h)

theorem compare_idToBin (i j : UInt64) :
    compare (idToBin i) (idToBin j) = compare i.toNat j.toNat :=
  BigEndian.compare_encode (toNat_lt_pow i) (toNat_lt_pow j)

theorem isLE_compare_idToBin {i j : UInt64} : (compare (idToBin i) (idToBin j)).isLE ↔ i ≤ j := by
  rw [compare_idToBin, Nat.isLE_compare, UInt64.le_iff_toNat_le]

theorem toNat_of_checkedAdd_one {x y : UInt64} (h : checkedAdd x 1 = some y) :
    y.toNat = x.toNat + 1 := by
  unfold checkedAdd at h
  have hone : (1 : UInt64).toNat = 1 := rfl
  split_ifs at h with hlt
  obtain ⟨⟩ := h
  rw [hone] at hlt
  rw [UInt64.toNat_add, hone]
  exact Nat.mod_eq_of_lt hlt

theorem le_of_checkedAdd_one {x : UInt64} (h : checkedAdd x 1 = none) (i : UInt64) : i ≤ x := by
  unfold checkedAdd at h
  have hone : (1 : UInt64).toNat = 1 := rfl
  have hi : i.toNat < UInt64.size := i.toNat_lt
  split_ifs at h with hlt
  rw [hone] at hlt
  rw [UInt64.le_iff_toNat_le]
  omega

namespace IndexRange

variable {range : IndexRange} {i j : UInt64}

theorem beforeEnd_of_le (h : i ≤ j) (hj : range.beforeEnd j) : range.beforeEnd i := by
  unfold beforeEnd at hj ⊢
  cases hend : range.endBound with
  | included x => simp_all [UInt64.le_iff_toNat_le]; omega
  | excluded x => simp_all [UInt64.lt_iff_toNat_lt, UInt64.le_iff_toNat_le]; omega
  | unbounded => rfl

theorem afterStart_of_rangeStart {start : UInt64} (h : rangeStart range = some start) :
    range.afterStart i = decide (start ≤ i) := by
  unfold rangeStart at h
  unfold afterStart
  cases hstart : range.startBound with
  | included x => simp_all
  | excluded x =>
    rw [hstart] at h
    have hsucc := toNat_of_checkedAdd_one h
    simp only [decide_eq_decide, UInt64.lt_iff_toNat_lt, UInt64.le_iff_toNat_le]
    omega
  | unbounded =>
    rw [hstart] at h
    obtain ⟨⟩ := h
    exact (decide_eq_true UInt64.zero_le).symm

theorem afterStart_of_rangeStart_none (h : rangeStart range = none) :
    range.afterStart i = false := by
  unfold rangeStart at h
  unfold afterStart
  cases hstart : range.startBound with
  | included x => simp [hstart] at h
  | excluded x =>
    rw [hstart] at h
    exact decide_eq_false (UInt64.not_lt.mpr (le_of_checkedAdd_one h i))
  | unbounded => simp [hstart] at h

end IndexRange

/-! ### Scans -/

namespace RocksLogStore

/-- The item of a key and its entry. -/
def item (p : List UInt8 × Entry M) : LogItem M := ⟨p.1, p.2.index, p.2⟩

/-- A walk from the start of a range finds all of it: it ends at the first index out of it. -/
theorem takeRange_eq {range : IndexRange} {l : List (List UInt8 × Entry M)}
    (hkeyed : ∀ p ∈ l, p.1 = idToBin p.2.index)
    (hsorted : l.Pairwise fun p q => p.2.index < q.2.index)
    (hstart : ∀ p ∈ l, range.afterStart p.2.index) :
    takeRange range l = .ok ((l.filter fun p => range.contains p.2.index).map item) := by
  induction l with
  | nil => rfl
  | cons p l ih =>
    obtain ⟨key, entry⟩ := p
    obtain ⟨hhead, htail⟩ := List.pairwise_cons.mp hsorted
    have hkey : key = idToBin entry.index := hkeyed _ mem_cons_self
    rw [takeRange, hkey, binToId_idToBin, ok_bind, filter_cons]
    split_ifs with hin
    · rw [ih (fun q hq => hkeyed q (mem_cons_of_mem _ hq)) htail
        fun q hq => hstart q (mem_cons_of_mem _ hq)]
      rfl
    · have hend : ¬range.beforeEnd entry.index := by
        simpa [IndexRange.contains, hstart (key, entry) mem_cons_self] using hin
      have hnone (q : List UInt8 × Entry M) (hq : q ∈ l) : ¬range.contains q.2.index := by
        intro hq'
        have hle : entry.index ≤ q.2.index := UInt64.le_of_lt (hhead q hq)
        exact hend (IndexRange.beforeEnd_of_le hle (Bool.and_elim_right hq'))
      rw [List.filter_eq_nil_iff.mpr hnone]
      rfl

/-- The table that a store holds. -/
structure Refines (store : RocksLogStore M V) (table : LogTable M V) : Prop where
  logs : store.logs.Shows idToBin (fun _ => True) table.entries
  keys : store.logs.Covers idToBin (fun _ => True)
  indexed : table.Indexed
  lastPurged : store.lastPurged = table.lastPurged
  vote : store.vote = table.vote
  committed : store.committed = table.committed

variable {store : RocksLogStore M V} {table : LogTable M V}

theorem refines_empty : Refines (empty : RocksLogStore M V) LogTable.empty :=
  ⟨fun _ _ => Std.ExtTreeMap.getElem?_empty, fun _ _ h => by simp [empty] at h,
    LogTable.indexed_empty, rfl, rfl, rfl⟩

namespace Refines

theorem mem_toList (h : store.Refines table) {p : List UInt8 × Entry M} :
    p ∈ store.logs.toList ↔ p.1 = idToBin p.2.index ∧ table.entries p.2.index = some p.2 := by
  obtain ⟨key, e⟩ := p
  rw [Std.ExtTreeMap.mem_toList_iff_getElem?_eq_some]
  constructor
  · intro hkey
    obtain ⟨i, -, rfl⟩ := h.keys key e hkey
    have hi : table.entries i = some e := (h.logs i trivial).symm.trans hkey
    rw [h.indexed i e hi]
    exact ⟨rfl, hi⟩
  · rintro ⟨hkey, he⟩
    rw [show key = idToBin e.index from hkey, h.logs e.index trivial]
    exact he

/-- The entries are listed in the order of their indices. -/
theorem pairwise_toList (h : store.Refines table) :
    store.logs.toList.Pairwise fun p q => p.2.index < q.2.index := by
  refine store.logs.ordered_keys_toList.imp_of_mem fun {p q} hp hq hlt => ?_
  rw [(h.mem_toList.mp hp).1, (h.mem_toList.mp hq).1, compare_idToBin, Nat.compare_eq_lt] at hlt
  exact UInt64.lt_iff_toNat_lt.mpr hlt

/-- **A scan finds the entries of its range**, and cannot fail. -/
theorem scan_eq (h : store.Refines table) (range : IndexRange) : store.scan range =
    .ok ((store.logs.toList.filter fun p => range.contains p.2.index).map item) := by
  unfold scan
  cases hstart : rangeStart range with
  | none =>
    rw [List.filter_eq_nil_iff.mpr fun p _ => ?_, map_nil]
    simp [IndexRange.contains, IndexRange.afterStart_of_rangeStart_none hstart]
  | some start =>
    have hsub : store.logs.iterFrom (idToBin start) ⊆ store.logs.toList :=
      fun p hp => (List.mem_filter.mp hp).1
    have hiter (p : List UInt8 × Entry M) (hp : p ∈ store.logs.toList) :
        (compare (idToBin start) p.1).isLE = range.afterStart p.2.index := by
      rw [IndexRange.afterStart_of_rangeStart hstart, (h.mem_toList.mp hp).1, Bool.eq_iff_iff,
        isLE_compare_idToBin, decide_eq_true_iff]
    show takeRange range (store.logs.iterFrom (idToBin start)) = _
    rw [takeRange_eq (fun p hp => (h.mem_toList.mp (hsub hp)).1)
      (h.pairwise_toList.filter _) fun p hp => by
        rw [← hiter p (hsub hp)]; exact (List.mem_filter.mp hp).2]
    rw [KeyStore.iterFrom, filter_filter]
    have hfilter := filter_congr (l := store.logs.toList) (q := fun p =>
      range.contains p.2.index) fun p hp => show (range.contains p.2.index &&
        (compare (idToBin start) p.1).isLE) = _ by
      rw [hiter p hp, IndexRange.contains]
      cases range.afterStart p.2.index <;> simp
    rw [hfilter]

/-! ### Reads -/

/-- The entries of a range, in the order of their indices. -/
theorem tryGetLogEntries_eq (h : store.Refines table) (range : IndexRange) :
    ∃ es, store.tryGetLogEntries range = .ok es ∧ es.Pairwise (fun e e' => e.index < e'.index) ∧
      ∀ e, e ∈ es ↔ range.contains e.index ∧ table.entries e.index = some e := by
  let items := store.logs.toList.filter fun p => range.contains p.2.index
  refine ⟨items.map Prod.snd, ?_, ?_, fun e => ?_⟩
  · have hdecode : (items.map item).mapM decode = .ok ((items.map item).map LogItem.entry) :=
      mapM_eq_ok fun it hit => by
        obtain ⟨p, -, rfl⟩ := List.mem_map.mp hit
        simp [decode, item]
    rw [tryGetLogEntries, h.scan_eq range, ok_bind, hdecode, map_map]
    rfl
  · exact List.pairwise_map.mpr (h.pairwise_toList.filter _)
  · simp only [items, mem_map, mem_filter, h.mem_toList]
    constructor
    · rintro ⟨p, ⟨⟨-, hp⟩, hin⟩, rfl⟩
      exact ⟨hin, hp⟩
    · rintro ⟨hin, he⟩
      exact ⟨(idToBin e.index, e), ⟨⟨rfl, he⟩, hin⟩, rfl⟩

theorem getLogState_eq (h : store.Refines table) :
    ∃ last, store.getLogState = .ok ⟨table.lastPurged, last⟩ ∧ table.IsLastLogId last := by
  unfold getLogState
  cases hlast : store.logs.lastEntry with
  | none =>
    refine ⟨table.lastPurged, ?_, .purged fun i => ?_⟩
    · rw [h.lastPurged]
      rfl
    · rw [← h.logs i trivial]
      exact KeyStore.lastEntry_eq_none hlast _
  | some p =>
    obtain ⟨key, e⟩ := p
    obtain ⟨hkey, hmax⟩ := KeyStore.lastEntry_eq_some hlast
    obtain ⟨hkey', he⟩ : key = idToBin e.index ∧ table.entries e.index = some e :=
      h.mem_toList.mp (Std.ExtTreeMap.mem_toList_iff_getElem?_eq_some.mpr hkey)
    subst hkey'
    refine ⟨some e.logId, ?_, .entry e he fun i e' hi => ?_⟩
    · simp [binToId_idToBin, h.lastPurged]
    · exact isLE_compare_idToBin.mp (hmax (idToBin i) e' ((h.logs i trivial).trans hi))

/-! ### Writes -/

/-- The deletes of a range remove exactly its entries. -/
theorem appendLogDeletes_eq (h : store.Refines table) (range : IndexRange) :
    ∃ batch, store.appendLogDeletes range = .ok batch ∧
      Refines { store with logs := store.logs.writeAll batch }
        { table with
          entries := fun i => if range.contains i then none else table.entries i } := by
  let items := store.logs.toList.filter fun p => range.contains p.2.index
  let dels : List (KeyStore.Write UInt64 (Entry M)) := items.map fun p => ⟨p.2.index, none⟩
  have hbatch : (items.map item).map (fun it => (⟨it.key, none⟩ : KeyStore.Write _ (Entry M))) =
      dels.map (KeyStore.Write.rename idToBin) := by
    rw [map_map, map_map]
    refine map_congr_left fun p hp => ?_
    have hkey := (h.mem_toList.mp (List.mem_filter.mp hp).1).1
    simp [item, KeyStore.Write.rename, hkey]
  have hdels (i : UInt64) : KeyStore.assignAll table.entries dels i =
      if range.contains i then none else table.entries i := by
    have hnone (w : KeyStore.Write UInt64 (Entry M)) (hw : w ∈ dels) : w.value = none := by
      obtain ⟨p, -, rfl⟩ := List.mem_map.mp hw
      rfl
    have hmem (e : Entry M) (he : table.entries i = some e) :
        (∃ w ∈ dels, w.key = i) ↔ range.contains i := by
      obtain rfl := h.indexed i e he
      constructor
      · rintro ⟨w, hw, hkey⟩
        obtain ⟨p, hp, rfl⟩ := List.mem_map.mp hw
        rw [← hkey]
        exact (List.mem_filter.mp hp).2
      · intro hin
        refine ⟨⟨e.index, none⟩, List.mem_map.mpr ⟨(idToBin e.index, e), ?_, rfl⟩, rfl⟩
        exact List.mem_filter.mpr ⟨h.mem_toList.mpr ⟨rfl, he⟩, hin⟩
    rw [KeyStore.assignAll_of_forall_del hnone]
    cases he : table.entries i with
    | none => simp
    | some e => simp only [hmem e he]
  refine ⟨dels.map (KeyStore.Write.rename idToBin), ?_, ?_, ?_, fun i e he => ?_, h.lastPurged,
    h.vote, h.committed⟩
  · rw [appendLogDeletes, h.scan_eq range, ok_bind]
    exact congrArg Except.ok hbatch
  · have hshows : KeyStore.Shows idToBin (fun _ => True) _ (KeyStore.assignAll _ dels) :=
      h.logs.writeAll fun w _ i _ hi => idToBin_inj hi
    intro i hi
    rw [hshows i hi, hdels i]
  · exact h.keys.writeAll fun _ _ => trivial
  · simp only at he
    split_ifs at he
    exact h.indexed i e he

theorem removeLogsFrom_eq (h : store.Refines table) (start : UInt64) :
    ∃ store', store.removeLogsFrom start = .ok store' ∧
      store'.Refines
        { table with entries := fun i => if start ≤ i then none else table.entries i } := by
  obtain ⟨batch, hbatch, hrefines⟩ := h.appendLogDeletes_eq (.fromIndex start)
  have htable : (fun i => if (IndexRange.fromIndex start).contains i then none
      else table.entries i) = fun i => if start ≤ i then none else table.entries i := by
    funext i
    simp [IndexRange.fromIndex, IndexRange.contains, IndexRange.afterStart, IndexRange.beforeEnd]
  rw [htable] at hrefines
  rw [removeLogsFrom, hbatch, ok_bind]
  split_ifs with hempty
  · rw [List.isEmpty_iff.mp hempty] at hrefines
    exact ⟨store, rfl, hrefines⟩
  · exact ⟨_, rfl, hrefines⟩

theorem append_eq (h : store.Refines table) (entries : List (Entry M)) :
    (store.append entries).Refines
      { table with entries := LogTable.putAll table.entries entries } := by
  unfold append
  split_ifs with hempty
  · rw [List.isEmpty_iff.mp hempty]
    exact h
  · let puts : List (KeyStore.Write UInt64 (Entry M)) := entries.map fun e => ⟨e.index, some e⟩
    have hputs : entries.map (fun e => (⟨idToBin e.index, some e⟩ : KeyStore.Write _ (Entry M))) =
        puts.map (KeyStore.Write.rename idToBin) := by
      rw [map_map]
      rfl
    have htable : LogTable.putAll table.entries entries =
        KeyStore.assignAll table.entries puts := by
      rw [KeyStore.assignAll, foldl_map]
      rfl
    have hshows : KeyStore.Shows idToBin (fun _ => True) _ (KeyStore.assignAll _ puts) :=
      h.logs.writeAll fun w _ i _ hi => idToBin_inj hi
    refine { h with logs := ?_, keys := ?_, indexed := h.indexed.exec (.append entries) }
    · show KeyStore.Shows idToBin _ (store.logs.writeAll _) (LogTable.putAll _ _)
      rw [hputs, htable]
      exact hshows
    · rw [hputs]
      exact h.keys.writeAll fun _ _ => trivial

/-- A truncation removes what comes after the given log id, and everything without one. -/
theorem truncateAfter_eq (h : store.Refines table) (lastLogId : Option LogId) :
    ∃ store', store.truncateAfter lastLogId = .ok store' ∧
      store'.Refines (table.exec (.truncateAfter lastLogId)) := by
  have hentries (start : UInt64) (hstart : ∀ i, start ≤ i ↔
      ¬∃ logId, lastLogId = some logId ∧ i ≤ logId.index) :
      { table with entries := fun i => if start ≤ i then none else table.entries i } =
        table.exec (.truncateAfter lastLogId) := by
    rw [LogTable.exec]
    congr 1
    funext i
    by_cases hi : start ≤ i
    · rw [if_pos hi, if_neg ((hstart i).mp hi)]
    · rw [if_neg hi, if_pos (not_not.mp (mt (hstart i).mpr hi))]
  cases lastLogId with
  | none =>
    obtain ⟨store', hstore', hrefines⟩ := h.removeLogsFrom_eq 0
    exact ⟨store', hstore', hentries 0 (by simp) ▸ hrefines⟩
  | some logId =>
    simp only [truncateAfter, Option.map_some, Option.getD_some]
    cases hstart : checkedAdd logId.index 1 with
    | none =>
      refine ⟨store, rfl, ?_⟩
      have htable : table.exec (.truncateAfter (some logId)) = table := by
        rw [LogTable.exec]
        congr 1
        funext i
        rw [if_pos ⟨logId, rfl, le_of_checkedAdd_one hstart i⟩]
      rwa [htable]
    | some start =>
      obtain ⟨store', hstore', hrefines⟩ := h.removeLogsFrom_eq start
      have hsucc := toNat_of_checkedAdd_one hstart
      refine ⟨store', hstore', hentries start (fun i => ?_) ▸ hrefines⟩
      simp only [Option.some.injEq, exists_eq_left', UInt64.le_iff_toNat_le]
      omega

theorem purge_eq (h : store.Refines table) (logId : LogId) :
    ∃ store', store.purge logId = .ok store' ∧ store'.Refines (table.exec (.purge logId)) := by
  obtain ⟨batch, hbatch, hrefines⟩ := h.appendLogDeletes_eq (.closed 0 logId.index)
  have htable : (fun i => if (IndexRange.closed 0 logId.index).contains i then none
      else table.entries i) = fun i => if i ≤ logId.index then none else table.entries i := by
    funext i
    simp [IndexRange.closed, IndexRange.contains, IndexRange.afterStart, IndexRange.beforeEnd]
  rw [htable] at hrefines
  refine ⟨{ store with lastPurged := some logId, logs := store.logs.writeAll batch }, ?_,
    { hrefines with lastPurged := rfl }⟩
  rw [purge, purgeLogsThrough, hbatch, ok_bind]

/-- **One call.** It succeeds, and has the effect that the call has on the table. -/
theorem exec (h : store.Refines table) (op : LogStoreOp M V) :
    ∃ store', store.exec op = .ok store' ∧ store'.Refines (table.exec op) := by
  cases op with
  | append entries => exact ⟨_, rfl, h.append_eq entries⟩
  | truncateAfter lastLogId => exact h.truncateAfter_eq lastLogId
  | purge logId => exact h.purge_eq logId
  | saveVote vote => exact ⟨_, rfl, { h with vote := rfl }⟩
  | saveCommitted committed => exact ⟨_, rfl, { h with committed := rfl }⟩

theorem execAll (h : store.Refines table) (ops : List (LogStoreOp M V)) :
    ∃ store', ops.foldlM RocksLogStore.exec store = .ok store' ∧
      store'.Refines (ops.foldl LogTable.exec table) := by
  induction ops generalizing store table with
  | nil => exact ⟨store, rfl, h⟩
  | cons op ops ih =>
    obtain ⟨store₁, hstore₁, h₁⟩ := h.exec op
    obtain ⟨store', hstore', h'⟩ := ih h₁
    refine ⟨store', ?_, h'⟩
    rw [foldlM_cons, hstore₁, ok_bind, hstore']

end Refines

/-- What the reads of a store say of the table. -/
structure Shows (store : RocksLogStore M V) (table : LogTable M V) : Prop where
  entries : ∀ range, ∃ es, store.tryGetLogEntries range = .ok es ∧
    es.Pairwise (fun e e' => e.index < e'.index) ∧
    ∀ e, e ∈ es ↔ range.contains e.index ∧ table.entries e.index = some e
  logState : ∃ last, store.getLogState = .ok ⟨table.lastPurged, last⟩ ∧ table.IsLastLogId last
  vote : store.readVote = table.vote
  committed : store.readCommitted = table.committed

theorem Refines.shows (h : store.Refines table) : store.Shows table :=
  ⟨h.tryGetLogEntries_eq, h.getLogState_eq, h.vote, h.committed⟩

end RocksLogStore

/-- **The log store is a finite map.** After calls that all succeed, the reads show the table on
which the same calls were made; every entry is stored under its index. -/
theorem logStore_refines_logTable (ops : List (LogStoreOp M V)) :
    ∃ store, ops.foldlM RocksLogStore.exec RocksLogStore.empty = .ok store ∧
      store.Shows (ops.foldl LogTable.exec .empty) ∧
      (ops.foldl LogTable.exec .empty : LogTable M V).Indexed := by
  obtain ⟨store, hstore, h⟩ := RocksLogStore.refines_empty.execAll ops
  exact ⟨store, hstore, h.shows, h.indexed⟩

end RustExample.OpenraftCluster
