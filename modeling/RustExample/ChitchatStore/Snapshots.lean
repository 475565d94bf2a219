import RustExample.ChitchatStore.Store

/-!
# When the current snapshot goes backwards

A builder holds a copy of the state machine from its first section to its last. Every snapshot it
stores is the state of a prefix of the log, but not always a later one than the snapshot it
replaces: an installation, or another builder that copied a later state, may have stored in
between. This is the only way in which the current snapshot goes backwards.
-/

namespace RustExample.ChitchatStore

open Raft List

variable {L M B T : Type} [LinearOrder L] [Inhabited M] (log : Log L Request M)

/-! ### What a history should keep -/

/-- A snapshot is the state after exactly the entries up to the last log id in its metadata. -/
def SnapshotConsistent (snapshot : StoredSnapshot L M) : Prop :=
  log.IsPrefixState tableMachine snapshot.data.applied ∧
    snapshot.metadata.lastLogId = snapshot.data.lastApplied ∧
    snapshot.metadata.lastMembership = snapshot.data.lastMembership

/-- The last log id of the current snapshot, if there is one. -/
def StateMachineStore.snapshotId (s : StateMachineStore L M B) : Option (Option L) :=
  s.currentSnapshot.map fun snapshot => snapshot.metadata.lastLogId

/-- The current snapshot is consistent, and never has a smaller last log id than before. -/
structure KeptSnapshots [DecidableEq B] (display : L → String)
    (fromSlice : T → Except String (StateMachineData L M)) (log : Log L Request M)
    (es : List (Event L M B T)) : Prop where
  consistent : ∀ n s, Run (StoreStep display fromSlice log) .initial (es.take n) s →
    ∀ snapshot ∈ s.currentSnapshot, SnapshotConsistent log snapshot
  forward : ∀ m n s s', m ≤ n → Run (StoreStep display fromSlice log) .initial (es.take m) s →
    Run (StoreStep display fromSlice log) .initial (es.take n) s' → s.snapshotId ≤ s'.snapshotId

/-- Position `i` is the last one at which `b` copied the state machine, and it copied `data`. -/
def LastCopy (es : List (Event L M B T)) (b : B) (data : StateMachineData L M) (i : ℕ) : Prop :=
  HeldSince (· = .copy b data) (fun e => ∃ data', e = .copy b data') es i

/-- A build stores its snapshot after one with a later last log id was stored, since it copied the
state. -/
def Overtaken (es : List (Event L M B T)) : Prop :=
  ∃ i k j b data snapshot e later, LastCopy (es.take j) b data i ∧
    es[j]? = some (.store b snapshot) ∧ i < k ∧ k < j ∧ es[k]? = some e ∧
    later ∈ e.stored ∧ data.lastApplied < later.metadata.lastLogId

/-! ### The state of a store -/

/-- The snapshot of the first `n` entries. -/
structure SnapshotAt (snapshot : StoredSnapshot L M) (n : ℕ) : Prop where
  data : snapshot.data.applied = log.stateAt tableMachine n
  lastLogId : snapshot.metadata.lastLogId = snapshot.data.lastApplied
  lastMembership : snapshot.metadata.lastMembership = snapshot.data.lastMembership

variable {log} {snapshot snapshot' : StoredSnapshot L M} {n k : ℕ}

theorem SnapshotAt.consistent (h : SnapshotAt log snapshot n) (hn : n ≤ log.entries.length) :
    SnapshotConsistent log snapshot :=
  ⟨Log.isPrefixState_iff.mpr ⟨n, hn, h.data⟩, h.lastLogId, h.lastMembership⟩

theorem SnapshotAt.lastLogId_eq (h : SnapshotAt log snapshot n) :
    snapshot.metadata.lastLogId = (log.stateAt tableMachine n).lastApplied := by
  rw [← h.data]
  exact h.lastLogId

variable {data : StateMachineData L M}

/-- A snapshot does not end after a state with as many entries. -/
theorem SnapshotAt.lastLogId_le (h : SnapshotAt log snapshot n) (hnk : n ≤ k)
    (hk : k ≤ log.entries.length) (hdata : data.applied = log.stateAt tableMachine k) :
    snapshot.metadata.lastLogId ≤ data.lastApplied := by
  have hle : (log.stateAt tableMachine n).lastApplied ≤ data.applied.lastApplied := by
    rw [hdata]
    exact (Log.lastApplied_le_iff (Nat.le_trans hnk hk) hk).mpr hnk
  rw [h.lastLogId_eq]
  exact hle

omit [LinearOrder L] [Inhabited M] in
theorem StateMachineData.applied_apply (sm : StateMachineData L M) (entry : Entry L Request M) :
    (sm.apply entry).1.applied = sm.applied.apply tableMachine entry := by
  rcases hp : entry.payload with _ | request | m <;>
    simp [StateMachineData.apply, StateMachineData.applied, Applied.apply, tableMachine, hp]

/-- What is between the sections of the worker when `k` entries are applied. -/
def Worker.Fits (log : Log L Request M) (k : ℕ) : Worker L M → Prop
  | .idle => True
  | .installing snapshot => SnapshotAt log snapshot k

/-- What a builder holds: a state of some of the entries, as it last copied it. -/
def Builder.Fits (log : Log L Request M) (es : List (Event L M B T)) (k : ℕ) (b : B) :
    Builder L M → Prop
  | .idle => True
  | .copied data =>
    (∃ n ≤ k, data.applied = log.stateAt tableMachine n) ∧ ∃ i, LastCopy es b data i
  | .numbered snapshot =>
    (∃ n ≤ k, SnapshotAt log snapshot n) ∧ ∃ i, LastCopy es b snapshot.data i

/-- A store with `k` entries applied. -/
structure StoreInv (log : Log L Request M) (es : List (Event L M B T))
    (s : StateMachineStore L M B) (k : ℕ) : Prop where
  le : k ≤ log.entries.length
  state : s.stateMachine.applied = log.stateAt tableMachine k
  worker : s.worker.Fits log k
  builder : ∀ b, (s.builders b).Fits log es k b
  stored : ∀ snapshot ∈ es.filterMap Event.stored, ∃ n ≤ k, SnapshotAt log snapshot n
  current : s.currentSnapshot = (es.filterMap Event.stored).getLast?

variable {es : List (Event L M B T)} {e : Event L M B T}

variable {phase : Builder L M}

/-- What a builder holds fits as long as it does not copy again. -/
theorem Builder.Fits.mono {b : B} {k' : ℕ} (h : phase.Fits log es k b) (hk : k ≤ k')
    (he : ∀ data, e ≠ .copy b data) : phase.Fits log (es ++ [e]) k' b := by
  have hnot : ¬∃ data, e = .copy b data := fun ⟨data, hdata⟩ => he data hdata
  cases phase with
  | idle => trivial
  | copied data =>
    obtain ⟨⟨n, hn, hdata⟩, i, hi⟩ := h
    exact ⟨⟨n, hn.trans hk, hdata⟩, i, hi.snoc hnot⟩
  | numbered snapshot =>
    obtain ⟨⟨n, hn, hsnap⟩, i, hi⟩ := h
    exact ⟨⟨n, hn.trans hk, hsnap⟩, i, hi.snoc hnot⟩

namespace StoreInv

variable {s : StateMachineStore L M B}

theorem initial : StoreInv log ([] : List (Event L M B T)) .initial 0 where
  le := Nat.zero_le _
  state := rfl
  worker := trivial
  builder _ := trivial
  stored _ h := nomatch h
  current := rfl

/-- After a section that stores nothing, the snapshots stored are those before it. -/
theorem stored_snoc (h : StoreInv log es s k) (he : e.stored = none) {k' : ℕ} (hk : k ≤ k') :
    (∀ snapshot ∈ (es ++ [e]).filterMap Event.stored, ∃ n ≤ k', SnapshotAt log snapshot n) ∧
      s.currentSnapshot = ((es ++ [e]).filterMap Event.stored).getLast? := by
  have hfilter : (es ++ [e]).filterMap Event.stored = es.filterMap Event.stored := by
    simp [he]
  rw [hfilter]
  refine ⟨fun snapshot hs => ?_, h.current⟩
  obtain ⟨n, hn, hsnap⟩ := h.stored snapshot hs
  exact ⟨n, hn.trans hk, hsnap⟩

/-- After a section that stores a snapshot, it is the last one. -/
theorem stored_snoc_some (h : StoreInv log es s k) (he : e.stored = some snapshot) (hn : n ≤ k)
    (hsnap : SnapshotAt log snapshot n) :
    (∀ snapshot ∈ (es ++ [e]).filterMap Event.stored, ∃ n ≤ k, SnapshotAt log snapshot n) ∧
      some snapshot = ((es ++ [e]).filterMap Event.stored).getLast? := by
  have hfilter : (es ++ [e]).filterMap Event.stored = es.filterMap Event.stored ++ [snapshot] := by
    simp [he]
  rw [hfilter, getLast?_concat]
  refine ⟨fun old hold => ?_, rfl⟩
  rcases List.mem_append.mp hold with hold | hold
  · exact h.stored old hold
  · obtain rfl := List.mem_singleton.mp hold
    exact ⟨n, hn, hsnap⟩

end StoreInv

/-! ### One section -/

namespace StoreStep

variable [DecidableEq B] {display : L → String}
  {fromSlice : T → Except String (StateMachineData L M)} {s s' : StateMachineStore L M B}

theorem builder_update {b : B} (inv : StoreInv log es s k) (hb : phase.Fits log (es ++ [e]) k b)
    (he : ∀ c data, e = .copy c data → c = b) (c : B) :
    ((s.setBuilder b phase).builders c).Fits log (es ++ [e]) k c := by
  rw [StateMachineStore.setBuilder]
  dsimp only
  by_cases hc : c = b
  · rw [hc, Function.update_self]
    exact hb
  · rw [Function.update_of_ne hc]
    exact (inv.builder c).mono (le_refl k) fun data hdata => hc (he c data hdata)

/-- **One section.** A store never has fewer entries applied than before. -/
theorem inv (h : StoreStep display fromSlice log s e s') (inv : StoreInv log es s k) :
    ∃ k' ≥ k, StoreInv log (es ++ [e]) s' k' := by
  cases e with
  | apply entry =>
    obtain ⟨hw, hnext, rfl⟩ := h
    have hfollows : log.Follows (log.stateAt tableMachine k).lastApplied entry := by
      rw [← inv.state]
      exact hnext
    have hentry := hfollows.getElem? inv.le
    obtain ⟨hstored, hcurrent⟩ := inv.stored_snoc (e := .apply entry) rfl (Nat.le_succ k)
    refine ⟨k + 1, Nat.le_succ k, (List.getElem?_eq_some_iff.mp hentry).1, ?_, ?_,
      fun b => (inv.builder b).mono (Nat.le_succ k) (fun data => nofun), hstored, hcurrent⟩
    · rw [Log.stateAt_succ hentry, ← inv.state]
      exact s.stateMachine.applied_apply entry
    · rw [hw]
      trivial
  | refuseInstall metadata bytes =>
    obtain ⟨-, -, rfl⟩ := h
    obtain ⟨hstored, hcurrent⟩ := inv.stored_snoc (e := .refuseInstall metadata bytes) rfl
      (le_refl k)
    exact ⟨k, le_refl k, inv.le, inv.state, inv.worker,
      fun b => (inv.builder b).mono (le_refl k) fun data => nofun, hstored, hcurrent⟩
  | installState metadata bytes =>
    obtain ⟨snapshot, -, hreceived, hpre, hle, rfl⟩ := h
    obtain ⟨n, hn, hdata⟩ := Log.isPrefixState_iff.mp hpre
    obtain ⟨rfl, hid, hmembership⟩ := receivedSnapshot_eq_ok hreceived
    have hkn : (log.stateAt tableMachine k).lastApplied ≤
        (log.stateAt tableMachine n).lastApplied := by
      rw [← inv.state, ← hdata]
      exact hle.trans_eq hid.symm
    rw [Log.lastApplied_le_iff inv.le hn] at hkn
    obtain ⟨hstored, hcurrent⟩ := inv.stored_snoc (e := .installState snapshot.metadata bytes)
      rfl hkn
    exact ⟨n, hkn, hn, hdata, ⟨hdata, hid.symm, hmembership.symm⟩,
      fun b => (inv.builder b).mono hkn fun data => nofun, hstored, hcurrent⟩
  | storeInstalled snapshot =>
    obtain ⟨hw, rfl⟩ := h
    have hsnap := inv.worker
    rw [hw] at hsnap
    obtain ⟨hstored, hcurrent⟩ := inv.stored_snoc_some (e := .storeInstalled snapshot) rfl
      (le_refl k) hsnap
    exact ⟨k, le_refl k, inv.le, inv.state, trivial,
      fun b => (inv.builder b).mono (le_refl k) fun data => nofun, hstored, hcurrent⟩
  | copy b data =>
    obtain ⟨-, hdata, rfl⟩ := h
    obtain ⟨hstored, hcurrent⟩ := inv.stored_snoc (e := .copy b data) rfl (le_refl k)
    refine ⟨k, le_refl k, inv.le, inv.state, inv.worker, builder_update inv ?_ ?_, hstored,
      hcurrent⟩
    · exact ⟨⟨k, le_refl k, hdata ▸ inv.state⟩, es.length, .last rfl⟩
    · rintro c _ ⟨⟩
      rfl
  | number b =>
    obtain ⟨data, hb, rfl⟩ := h
    have hfits := (inv.builder b).mono (e := .number b) (le_refl k) fun data => nofun
    rw [hb] at hfits
    obtain ⟨⟨n, hn, hdata⟩, hcopy⟩ := hfits
    obtain ⟨hstored, hcurrent⟩ := inv.stored_snoc (e := .number b) rfl (le_refl k)
    exact ⟨k, le_refl k, inv.le, inv.state, inv.worker,
      builder_update inv ⟨⟨n, hn, hdata, rfl, rfl⟩, hcopy⟩ nofun, hstored, hcurrent⟩
  | store b snapshot =>
    obtain ⟨hb, rfl⟩ := h
    have hfits := inv.builder b
    rw [hb] at hfits
    obtain ⟨⟨n, hn, hsnap⟩, -⟩ := hfits
    obtain ⟨hstored, hcurrent⟩ := inv.stored_snoc_some (e := .store b snapshot) rfl hn hsnap
    have hidle : (Builder.idle : Builder L M).Fits log (es ++ [.store b snapshot]) k b := trivial
    exact ⟨k, le_refl k, inv.le, inv.state, inv.worker, builder_update inv hidle nofun, hstored,
      hcurrent⟩

end StoreStep

/-! ### Histories -/

section Histories

variable [DecidableEq B] {display : L → String}
  {fromSlice : T → Except String (StateMachineData L M)} {s : StateMachineStore L M B}

theorem StoreInv.run (run : Run (StoreStep display fromSlice log) .initial es s) :
    ∃ k, StoreInv log es s k :=
  run.history (P := fun es s => ∃ k, StoreInv log es s k) ⟨0, .initial⟩
    fun _ _ _ _ _ ⟨_, hk⟩ hstep =>
      have ⟨k', _, hk'⟩ := hstep.inv hk
      ⟨k', hk'⟩

/-- A copy is not older than any snapshot that was stored before it. -/
theorem stored_le_copy {i : ℕ} {b : B} (run : Run (StoreStep display fromSlice log) .initial es s)
    (hi : es[i]? = some (.copy b data)) (hs : snapshot ∈ (es.take i).filterMap Event.stored) :
    snapshot.metadata.lastLogId ≤ data.lastApplied := by
  obtain ⟨s₁, s₂, run₁, ⟨-, rfl, -⟩, -⟩ := run.at_event hi
  obtain ⟨k, inv⟩ := StoreInv.run run₁
  obtain ⟨n, hn, hsnap⟩ := inv.stored snapshot hs
  exact hsnap.lastLogId_le hn inv.le inv.state

/-- An installation does not store a snapshot that is older than one before it. -/
theorem stored_le_installed {j : ℕ}
    (run : Run (StoreStep display fromSlice log) .initial es s)
    (hj : es[j]? = some (.storeInstalled snapshot'))
    (hs : snapshot ∈ (es.take j).filterMap Event.stored) :
    snapshot.metadata.lastLogId ≤ snapshot'.metadata.lastLogId := by
  obtain ⟨s₁, s₂, run₁, ⟨hw, -⟩, -⟩ := run.at_event hj
  obtain ⟨k, inv⟩ := StoreInv.run run₁
  obtain ⟨n, hn, hsnap⟩ := inv.stored snapshot hs
  have hsnap' := inv.worker
  rw [hw] at hsnap'
  rw [hsnap'.lastLogId]
  exact hsnap.lastLogId_le hn inv.le hsnap'.data

theorem copy_of_store {j : ℕ} {b : B} (run : Run (StoreStep display fromSlice log) .initial es s)
    (hj : es[j]? = some (.store b snapshot)) :
    (∃ i, LastCopy (es.take j) b snapshot.data i) ∧
      snapshot.metadata.lastLogId = snapshot.data.lastApplied := by
  obtain ⟨s₁, s₂, run₁, ⟨hb, -⟩, -⟩ := run.at_event hj
  obtain ⟨k, inv⟩ := StoreInv.run run₁
  have hfits := inv.builder b
  rw [hb] at hfits
  obtain ⟨⟨n, -, hsnap⟩, hcopy⟩ := hfits
  exact ⟨hcopy, hsnap.lastLogId⟩

omit [LinearOrder L] [Inhabited M] [DecidableEq B] in
theorem LastCopy.unique {i i' : ℕ} {b : B} {data data' : StateMachineData L M}
    (h : LastCopy es b data i) (h' : LastCopy es b data' i') : i = i' ∧ data = data' := by
  obtain ⟨_, he, rfl⟩ := h.event
  obtain ⟨_, he', rfl⟩ := h'.event
  rcases Nat.lt_trichotomy i i' with hlt | rfl | hlt
  · exact absurd ⟨data', rfl⟩ (h.none_after i' _ hlt he')
  · rw [he] at he'
    cases he'
    exact ⟨rfl, rfl⟩
  · exact absurd ⟨data, rfl⟩ (h'.none_after i _ hlt he)

/-- No snapshot has a smaller last log id than one stored before it. -/
def StoredForward (es : List (Event L M B T)) : Prop :=
  es.Pairwise fun e e' => ∀ snapshot ∈ e.stored, ∀ snapshot' ∈ e'.stored,
    snapshot.metadata.lastLogId ≤ snapshot'.metadata.lastLogId

omit [LinearOrder L] [Inhabited M] [DecidableEq B] in
theorem mem_filterMap_take {i j : ℕ} (hij : i < j) (he : es[i]? = some e)
    (hs : snapshot ∈ e.stored) : snapshot ∈ (es.take j).filterMap Event.stored := by
  have hmem : e ∈ es.take j := by
    refine mem_of_getElem? (i := i) ?_
    rw [getElem?_take_of_lt hij, he]
  exact List.mem_filterMap.mpr ⟨e, hmem, hs⟩

/-- **Builds that are not overtaken.** They are what keeps the stored snapshots in order. -/
theorem storedForward_iff (run : Run (StoreStep display fromSlice log) .initial es s) :
    StoredForward es ↔ ¬Overtaken es := by
  rw [StoredForward, pairwise_iff_getElem]
  constructor
  · rintro hforward ⟨i, k, j, b, data, snapshot, e, later, hcopy, hj, -, hkj, hk, hlater, hlt⟩
    obtain ⟨hk', rfl⟩ := List.getElem?_eq_some_iff.mp hk
    obtain ⟨hj', hje⟩ := List.getElem?_eq_some_iff.mp hj
    have hle := hforward k j hk' hj' hkj later hlater snapshot (by rw [hje]; rfl)
    obtain ⟨⟨i', hcopy'⟩, hid⟩ := copy_of_store run hj
    obtain ⟨-, rfl⟩ := hcopy.unique hcopy'
    rw [hid] at hle
    exact option_not_le_of_lt hlt hle
  · intro hnot k j hk hj hkj later hlater snapshot hsnapshot
    have hke := getElem?_eq_getElem hk
    have hmem := mem_filterMap_take hkj hke hlater
    cases he : es[j] with
    | storeInstalled snapshot' =>
      rw [he] at hsnapshot
      obtain rfl := Option.some.inj hsnapshot
      exact stored_le_installed run (he ▸ getElem?_eq_getElem hj) hmem
    | store b snapshot' =>
      rw [he] at hsnapshot
      obtain rfl := Option.some.inj hsnapshot
      have hje : es[j]? = some (.store b snapshot') := he ▸ getElem?_eq_getElem hj
      obtain ⟨⟨i, hcopy⟩, hid⟩ := copy_of_store run hje
      rw [hid]
      by_cases hik : i < k
      · by_contra hlt
        exact hnot ⟨i, k, j, b, _, _, _, later, hcopy, hje, hik, hkj, hke, hlater,
          option_lt_of_not_le hlt⟩
      · obtain ⟨_, hie, rfl⟩ := hcopy.event
        have hij : i < j := by
          have hlt := hcopy.lt_length
          rw [length_take] at hlt
          omega
        rw [getElem?_take_of_lt hij] at hie
        have hne : k ≠ i := by
          rintro rfl
          rw [hke] at hie
          rw [Option.some.inj hie] at hlater
          cases hlater
        exact stored_le_copy run hie (mem_filterMap_take (by omega) hke hlater)
    | _ =>
      rw [he] at hsnapshot
      cases hsnapshot

/-- The current snapshots of a history are those that its sections store. -/
theorem forward_iff (run : Run (StoreStep display fromSlice log) .initial es s) :
    (∀ m n s s', m ≤ n → Run (StoreStep display fromSlice log) .initial (es.take m) s →
      Run (StoreStep display fromSlice log) .initial (es.take n) s' →
        s.snapshotId ≤ s'.snapshotId) ↔ StoredForward es := by
  constructor
  · intro hforward
    refine List.pairwise_iff_getElem.mpr fun k j hk hj hkj snapshot hs snapshot' hs' => ?_
    have hcurrent : ∀ i (hi : i < es.length), ∀ snapshot ∈ es[i].stored,
        ∃ t, Run (StoreStep display fromSlice log) .initial (es.take (i + 1)) t ∧
          t.snapshotId = some snapshot.metadata.lastLogId := by
      intro i hi snapshot hs
      obtain ⟨t, ht⟩ := run.take (i + 1)
      obtain ⟨n, inv⟩ := StoreInv.run ht
      refine ⟨t, ht, ?_⟩
      rw [StateMachineStore.snapshotId, inv.current, take_succ_eq_append_getElem hi,
        filterMap_append]
      simp [Option.mem_def.mp hs]
    obtain ⟨t, ht, htid⟩ := hcurrent k hk snapshot hs
    obtain ⟨t', ht', htid'⟩ := hcurrent j hj snapshot' hs'
    have hle := hforward (k + 1) (j + 1) t t' (by omega) ht ht'
    rwa [htid, htid', Option.some_le_some] at hle
  · intro hforward m n t t' hmn ht ht'
    obtain ⟨k, inv⟩ := StoreInv.run ht
    obtain ⟨k', inv'⟩ := StoreInv.run ht'
    have hsplit : es.take n = es.take m ++ (es.take n).drop m := by
      have htake := take_append_drop m (es.take n)
      rw [take_take, Nat.min_eq_left hmn] at htake
      exact htake.symm
    have hpair : ((es.take n).filterMap Event.stored).Pairwise fun x y =>
        x.metadata.lastLogId ≤ y.metadata.lastLogId :=
      List.pairwise_filterMap.mpr (hforward.sublist (take_sublist n es))
    rw [StateMachineStore.snapshotId, StateMachineStore.snapshotId, inv.current, inv'.current]
    rw [hsplit, filterMap_append] at hpair ⊢
    rw [getLast?_append]
    cases hlast : (((es.take n).drop m).filterMap Event.stored).getLast? with
    | none => exact option_le_refl (option_le_refl le_refl) _
    | some y =>
      cases hx : ((es.take m).filterMap Event.stored).getLast? with
      | none => simp
      | some x =>
        have hle := (List.pairwise_append.mp hpair).2.2 x (mem_of_getLast? hx) y
          (mem_of_getLast? hlast)
        exact Option.some_le_some.mpr hle

/-- **The current snapshot goes backwards only when a build is overtaken.** Its values are
consistent, and none is older than one before it exactly if no build is overtaken. -/
theorem kept_snapshots_iff (run : Run (StoreStep display fromSlice log) .initial es s) :
    KeptSnapshots display fromSlice log es ↔ ¬Overtaken es := by
  rw [← storedForward_iff run, ← forward_iff run]
  refine ⟨KeptSnapshots.forward, fun hforward => ⟨fun n t ht snapshot hs => ?_, hforward⟩⟩
  obtain ⟨k, inv⟩ := StoreInv.run ht
  rw [inv.current] at hs
  obtain ⟨i, hi, hsnap⟩ := inv.stored snapshot (mem_of_getLast? hs)
  exact hsnap.consistent (hi.trans inv.le)

end Histories

/-! ### Two histories -/

def oneBlank : Log ℕ Request Unit := ⟨[⟨1, .blank⟩], by simp⟩

/-- Nothing applied, and the entry applied. -/
def emptyData : StateMachineData ℕ Unit := ⟨none, ⟨none, ()⟩, ∅⟩

def blankData : StateMachineData ℕ Unit := ⟨some 1, ⟨none, ()⟩, ∅⟩

def sentSnapshot : StoredSnapshot ℕ Unit := ⟨⟨some 1, ⟨none, ()⟩, "T1-N2-1-1"⟩, blankData⟩

/-- A snapshot is installed while a builder holds its copy. -/
def staleBuild : List (Event ℕ Unit Unit (StateMachineData ℕ Unit)) :=
  [.copy () emptyData, .number (), .installState sentSnapshot.metadata blankData,
    .storeInstalled sentSnapshot, .store () (emptyData.snapshot toString 1)]

/-- A snapshot is installed after a build. -/
def builtFirst : List (Event ℕ Unit Unit (StateMachineData ℕ Unit)) :=
  [.copy () emptyData, .number (), .store () (emptyData.snapshot toString 1),
    .installState sentSnapshot.metadata blankData, .storeInstalled sentSnapshot]

/-- The build takes the current snapshot back behind the one that was installed. -/
theorem stale_build_replaces_installed :
    ∃ s, Run (StoreStep toString .ok oneBlank) .initial staleBuild s ∧
      s.currentSnapshot = some (emptyData.snapshot toString 1) ∧
      ¬KeptSnapshots toString .ok oneBlank staleBuild := by
  have run₁ : Run (StoreStep toString .ok oneBlank) .initial (staleBuild.take 4) _ :=
    .cons ⟨rfl, rfl, rfl⟩ <| .cons ⟨_, rfl, rfl⟩ <|
    .cons ⟨sentSnapshot, rfl, rfl, rfl, Option.none_le, rfl⟩ <| .cons ⟨rfl, rfl⟩ .nil
  have run₂ : Run (StoreStep toString .ok oneBlank) .initial
      (staleBuild.take 4 ++ [.store () (emptyData.snapshot toString 1)]) _ :=
    run₁.append (.cons ⟨rfl, rfl⟩ .nil)
  refine ⟨_, run₂, rfl, fun hkept => ?_⟩
  have hle := hkept.forward 4 5 _ _ (by omega) run₁ run₂
  have hnone : ¬(some (some 1) : Option (Option ℕ)) ≤ some none := by simp
  exact hnone hle

/-- A build that is not overtaken. -/
theorem kept_snapshots_built_first : KeptSnapshots toString .ok oneBlank builtFirst := by
  have run : Run (StoreStep toString .ok oneBlank) .initial builtFirst _ :=
    .cons ⟨rfl, rfl, rfl⟩ <| .cons ⟨_, rfl, rfl⟩ <| .cons ⟨rfl, rfl⟩ <|
    .cons ⟨sentSnapshot, rfl, rfl, rfl, Option.none_le, rfl⟩ <| .cons ⟨rfl, rfl⟩ .nil
  refine (kept_snapshots_iff run).mpr ?_
  rintro ⟨i, k, j, b, data, snapshot, e, later, -, hj, hik, hkj, hk, hlater, -⟩
  have hk1 : k = 1 := by
    rcases j with _ | _ | _ | _ | _ | j
    · omega
    · omega
    · omega
    · cases hj
    · cases hj
    · cases hj
  rw [hk1] at hk
  cases hk
  cases hlater

end RustExample.ChitchatStore
