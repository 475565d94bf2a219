import RustExample.OpenraftKameo.StateMachine

/-!
# Snapshots are consistent and never regress

While one of the operations holds the lock, no other one is under way. A builder therefore dumps
the map and reads the position of the log in between two operations of the worker, and the map is
the state of the last applied entry whenever the lock is free.
-/

namespace RustExample.OpenraftKameo

open Function Raft JsonText

variable {L M B N : Type} [LinearOrder L] [Inhabited M] (serde : Serde KvMap)
  (log : Log L SetCommand M)

/-! ### Consistent snapshots -/

/-- A snapshot whose text is read as `state`. -/
def StoredSnapshot.applied (snapshot : StoredSnapshot L M) (state : KvMap) : Applied KvMap L M :=
  ⟨state, snapshot.metadata.lastLogId, snapshot.metadata.lastMembership⟩

/-- The map, log id and membership of a snapshot are those of the log up to that id. -/
def SnapshotConsistent (snapshot : StoredSnapshot L M) : Prop :=
  ∃ state, serde.fromStr snapshot.data = .ok state ∧
    log.IsPrefixState kvMachine (snapshot.applied state)

/-- The snapshot of the first `n` entries. -/
structure SnapshotAt (snapshot : StoredSnapshot L M) (n : ℕ) : Prop where
  le : n ≤ log.entries.length
  data : serde.fromStr snapshot.data = .ok (log.stateAt kvMachine n).state
  metadata : snapshot.metadata =
    ⟨(log.stateAt kvMachine n).lastApplied, (log.stateAt kvMachine n).lastMembership⟩

variable {serde log} {snapshot : StoredSnapshot L M} {n k : ℕ}

theorem SnapshotAt.lastLogId (h : SnapshotAt serde log snapshot n) :
    snapshot.metadata.lastLogId = (log.stateAt kvMachine n).lastApplied := by
  rw [h.metadata]

theorem SnapshotAt.consistent (h : SnapshotAt serde log snapshot n) :
    SnapshotConsistent serde log snapshot := by
  refine ⟨_, h.data, Log.isPrefixState_iff.mpr ⟨n, h.le, ?_⟩⟩
  rw [StoredSnapshot.applied, h.metadata]

theorem SnapshotAt.lastLogId_le {snapshot' : StoredSnapshot L M}
    (h : SnapshotAt serde log snapshot n) (h' : SnapshotAt serde log snapshot' k) :
    snapshot.metadata.lastLogId ≤ snapshot'.metadata.lastLogId ↔ n ≤ k := by
  rw [h.lastLogId, h'.lastLogId, Log.lastApplied_le_iff h.le h'.le]

/-! ### The state of a replica -/

/-- The map of the actor and what `inner` says about it. -/
def RaftStateMachineStore.applied (s : RaftStateMachineStore L M B) : Applied KvMap L M :=
  ⟨s.actor.state, s.inner.lastAppliedLog, s.inner.lastMembership⟩

/-- The last log id of the current snapshot, if there is one. -/
def RaftStateMachineStore.snapshotId (s : RaftStateMachineStore L M B) : Option (Option L) :=
  s.inner.currentSnapshot.map fun snapshot => snapshot.metadata.lastLogId

/-- What the worker has done of its operation when `k` entries are applied. -/
def Worker.Fits (serde : Serde KvMap) (log : Log L SetCommand M) (k : ℕ)
    (applied : Applied KvMap L M) : Worker L M → Prop
  | .idle | .applied _ | .installed _ => applied = log.stateAt kvMachine k
  | .applying entry => log.entries[k]? = some entry ∧ applied = log.stateAt kvMachine k
  | .answered logId _ => ∃ entry, log.entries[k]? = some entry ∧ entry.logId = logId ∧
      applied = { log.stateAt kvMachine (k + 1) with
        lastApplied := (log.stateAt kvMachine k).lastApplied }
  | .installing snapshot state => applied = log.stateAt kvMachine k ∧
      ∃ n ≥ k, SnapshotAt serde log snapshot n ∧ state = (log.stateAt kvMachine n).state
  | .replaced snapshot => ∃ n ≥ k, SnapshotAt serde log snapshot n ∧
      applied = { log.stateAt kvMachine k with state := (log.stateAt kvMachine n).state }

/-- A build holds a state of the log. -/
def Builder.Fits (serde : Serde KvMap) (log : Log L SetCommand M) (state : KvMap) :
    Builder L M → Prop
  | .idle | .locked => True
  | .dumped data => data = serde.toStr state
  | .built snapshot => ∃ n, SnapshotAt serde log snapshot n

/-- `k` entries are applied. Only who holds the operation lock is inside an operation. -/
structure StoreInv (serde : Serde KvMap) (log : Log L SetCommand M)
    (s : RaftStateMachineStore L M B) (k : ℕ) : Prop where
  le : k ≤ log.entries.length
  worker : s.worker.Fits serde log k s.applied
  builder : ∀ b, (s.builders b).Fits serde log s.actor.state
  workerLock : s.worker = .idle ∨ s.operationLock = some .worker
  builderLock : ∀ b, s.builders b = .idle ∨ s.operationLock = some (.builder b)
  current : ∀ snapshot ∈ s.inner.currentSnapshot, ∃ n ≤ k, SnapshotAt serde log snapshot n

namespace StoreInv

variable {s s' : RaftStateMachineStore L M B}

theorem new : StoreInv serde log (.new : RaftStateMachineStore L M B) 0 where
  le := Nat.zero_le _
  worker := rfl
  builder _ := trivial
  workerLock := .inl rfl
  builderLock _ := .inl rfl
  current _ h := nomatch h

/-- Without the lock, the worker is outside its operations. -/
theorem worker_idle (h : StoreInv serde log s k) (hlock : s.operationLock ≠ some .worker) :
    s.worker = .idle :=
  h.workerLock.resolve_right hlock

/-- The state is that of the applied entries whenever the worker does not hold the lock. -/
theorem applied_eq (h : StoreInv serde log s k) (hlock : s.operationLock ≠ some .worker) :
    s.applied = log.stateAt kvMachine k := by
  have hworker := h.worker
  rwa [h.worker_idle hlock] at hworker

theorem lock_of_worker (h : StoreInv serde log s k) (hworker : s.worker ≠ .idle) :
    s.operationLock = some .worker :=
  h.workerLock.resolve_left hworker

theorem lock_of_builder {b : B} (h : StoreInv serde log s k) (hb : s.builders b ≠ .idle) :
    s.operationLock = some (.builder b) :=
  (h.builderLock b).resolve_left hb

/-- No builder is inside an operation while the lock is free or the worker's. -/
theorem builders_idle (h : StoreInv serde log s k)
    (hlock : s.operationLock = none ∨ s.operationLock = some .worker) (b : B) :
    s.builders b = .idle := by
  refine (h.builderLock b).resolve_right fun hb => ?_
  rcases hlock with hlock | hlock <;> rw [hlock] at hb <;> cases hb

/-- The other builders are outside their operations while a builder holds the lock. -/
theorem other_idle {b c : B} (h : StoreInv serde log s k)
    (hlock : s.operationLock = some (.builder b)) (hc : c ≠ b) : s.builders c = .idle := by
  refine (h.builderLock c).resolve_right fun hc' => ?_
  rw [hlock] at hc'
  cases hc'
  exact hc rfl

/-- A step of the worker, which holds the lock or gives it back. -/
theorem of_worker (le : k ≤ log.entries.length) (worker : s.worker.Fits serde log k s.applied)
    (lock : s.worker = .idle ∧ s.operationLock = none ∨ s.operationLock = some .worker)
    (idle : ∀ b, s.builders b = .idle)
    (current : ∀ snapshot ∈ s.inner.currentSnapshot, ∃ n ≤ k, SnapshotAt serde log snapshot n) :
    StoreInv serde log s k where
  le := le
  worker := worker
  builder b := by
    rw [idle b]
    trivial
  workerLock := lock.imp_left And.left
  builderLock b := .inl (idle b)
  current := current

/-- A step of a builder that holds the lock or gives it back: the worker and the other builders are
outside of theirs. -/
theorem of_builder [DecidableEq B] {b : B} {phase : Builder L M}
    (h : StoreInv serde log s k) (hlock : s.operationLock ≠ some .worker)
    (hidle : ∀ c, c ≠ b → s.builders c = .idle) (worker : s'.worker = s.worker)
    (applied : s'.applied = s.applied) (builders : s'.builders = update s.builders b phase)
    (fits : phase.Fits serde log s.actor.state)
    (lock : phase = .idle ∨ s'.operationLock = some (.builder b))
    (current : ∀ snapshot ∈ s'.inner.currentSnapshot, ∃ n ≤ k, SnapshotAt serde log snapshot n) :
    StoreInv serde log s' k where
  le := h.le
  worker := by
    rw [worker, applied]
    exact h.worker
  builder c := by
    have hstate : s'.actor.state = s.actor.state := congrArg Applied.state applied
    rw [builders, hstate]
    by_cases hc : c = b
    · rw [hc, update_self]
      exact fits
    · rw [update_of_ne hc]
      exact h.builder c
  workerLock := .inl (worker.trans (h.worker_idle hlock))
  builderLock c := by
    rw [builders]
    by_cases hc : c = b
    · rw [hc, update_self]
      exact lock
    · rw [update_of_ne hc]
      exact .inl (hidle c hc)
  current := current

/-- The snapshot that a builder stores is that of the applied entries. -/
theorem snapshotAt {b : B} {data : String} (h : StoreInv serde log s k)
    (hb : s.builders b = .dumped data) : SnapshotAt serde log (s.snapshotOf data) k := by
  have hlock : s.operationLock = some (.builder b) := h.lock_of_builder (by simp [hb])
  have happlied := h.applied_eq (by simp [hlock])
  have hdata := h.builder b
  rw [hb] at hdata
  refine ⟨h.le, ?_, ?_⟩
  · rw [RaftStateMachineStore.snapshotOf, hdata, serde.fromStr_toStr, ← happlied]
    rfl
  · rw [← happlied]
    rfl

/-- Applying the payload of the next entry gives its state, up to the id of the last entry. -/
theorem handleEntry {entry : Entry L SetCommand M} (inv : StoreInv serde log s k)
    (hw : s.worker = .applying entry) : StoreInv serde log (s.handleEntry entry) k := by
  have hlock := inv.lock_of_worker (by simp [hw])
  have hidle := inv.builders_idle (.inr hlock)
  have hworker := inv.worker
  rw [hw] at hworker
  obtain ⟨hentry, happlied⟩ := hworker
  have hsucc : log.stateAt kvMachine (k + 1) = s.applied.apply kvMachine entry := by
    rw [Log.stateAt_succ hentry, ← happlied]
  rcases hp : entry.payload with _ | cmd | m
  · rw [RaftStateMachineStore.handleEntry, hp]
    refine .of_worker inv.le ⟨entry, hentry, rfl, ?_⟩ (.inr hlock) hidle inv.current
    rw [hsucc, ← happlied, Applied.apply, hp]
    rfl
  · rw [RaftStateMachineStore.handleEntry, hp]
    refine .of_worker inv.le ⟨entry, hentry, rfl, ?_⟩ (.inr hlock) hidle inv.current
    rw [hsucc, ← happlied, Applied.apply, hp]
    rfl
  · rw [RaftStateMachineStore.handleEntry, hp]
    refine .of_worker inv.le ⟨entry, hentry, rfl, ?_⟩ (.inr hlock) hidle inv.current
    rw [hsucc, ← happlied, Applied.apply, hp]
    rfl

omit [LinearOrder L] [Inhabited M] in
theorem beginInstall_of_ok {state : KvMap} (h : serde.fromStr snapshot.data = .ok state) :
    s.beginInstall serde snapshot =
      { s with operationLock := some .worker, worker := .installing snapshot state } := by
  rw [RaftStateMachineStore.beginInstall, h]

/-- A snapshot that does not end before the last applied entry is one of as many entries. -/
theorem beginInstall (inv : StoreInv serde log s k) (hlock : s.operationLock = none)
    (hsnap : SnapshotAt serde log snapshot n)
    (hle : s.inner.lastAppliedLog ≤ snapshot.metadata.lastLogId) :
    StoreInv serde log (s.beginInstall serde snapshot) k := by
  have happlied := inv.applied_eq (by simp [hlock])
  have hidle := inv.builders_idle (.inl hlock)
  have hkn : (log.stateAt kvMachine k).lastApplied ≤ (log.stateAt kvMachine n).lastApplied := by
    rw [← happlied, ← hsnap.lastLogId]
    exact hle
  rw [Log.lastApplied_le_iff inv.le hsnap.le] at hkn
  rw [beginInstall_of_ok hsnap.data]
  exact .of_worker inv.le ⟨happlied, n, hkn, hsnap, rfl⟩ (.inr rfl) hidle inv.current

/-- A snapshot that replaces the current one does not end before it. -/
theorem snapshotId_le (inv : StoreInv serde log s k) (hkn : k ≤ n)
    (hsnap : SnapshotAt serde log snapshot n) :
    s.snapshotId ≤ some snapshot.metadata.lastLogId := by
  rw [RaftStateMachineStore.snapshotId]
  cases hs : s.inner.currentSnapshot with
  | none => simp
  | some old =>
    obtain ⟨j, hj, hold⟩ := inv.current old hs
    rw [Option.map_some, Option.some_le_some, hold.lastLogId_le hsnap]
    omega

end StoreInv

/-! ### One step -/

namespace StoreStep

variable [DecidableEq B] {s s' : RaftStateMachineStore L M B} {e : Event L M B}
  {sent : List (StoredSnapshot L M)}

/-- **One step** leaves a replica at a prefix of the log, and none goes back. -/
theorem inv (h : StoreStep serde log sent s e s')
    (hsent : ∀ snapshot ∈ sent, ∃ n, SnapshotAt serde log snapshot n)
    (inv : StoreInv serde log s k) : ∃ k' ≥ k, StoreInv serde log s' k' := by
  have hworker := inv.worker
  cases e with
  | lockApply entry =>
    obtain ⟨hw, hlock, hnext, rfl⟩ := h
    rw [hw] at hworker
    have hfollows : log.Follows (log.stateAt kvMachine k).lastApplied entry := by
      rw [← hworker]
      exact hnext
    exact ⟨k, le_refl k, .of_worker inv.le ⟨hfollows.getElem? inv.le, hworker⟩ (.inr rfl)
      (inv.builders_idle (.inl hlock)) inv.current⟩
  | handleEntry =>
    obtain ⟨entry, hw, rfl⟩ := h
    exact ⟨k, le_refl k, inv.handleEntry hw⟩
  | setApplied =>
    obtain ⟨logId, response, hw, rfl⟩ := h
    have hlock := inv.lock_of_worker (by simp [hw])
    rw [hw] at hworker
    obtain ⟨entry, hentry, rfl, happlied⟩ := hworker
    have hlt := (List.getElem?_eq_some_iff.mp hentry).1
    refine ⟨k + 1, Nat.le_succ k, .of_worker hlt ?_ (.inr hlock)
      (inv.builders_idle (.inr hlock)) fun snapshot hs => ?_⟩
    · have hstate : s.actor.state = (log.stateAt kvMachine (k + 1)).state :=
        congrArg Applied.state happlied
      have hmembership :
          s.inner.lastMembership = (log.stateAt kvMachine (k + 1)).lastMembership :=
        congrArg Applied.lastMembership happlied
      exact Applied.ext hstate (Log.lastApplied_stateAt_succ hentry).symm hmembership
    · obtain ⟨n, hn, hsnap⟩ := inv.current snapshot hs
      exact ⟨n, by omega, hsnap⟩
  | respond response =>
    obtain ⟨hw, rfl⟩ := h
    have hlock := inv.lock_of_worker (by simp [hw])
    rw [hw] at hworker
    exact ⟨k, le_refl k, .of_worker inv.le hworker (.inl ⟨rfl, rfl⟩)
      (inv.builders_idle (.inr hlock)) inv.current⟩
  | lockInstall snapshot =>
    obtain ⟨-, hlock, hmem, hle, rfl⟩ := h
    obtain ⟨n, hsnap⟩ := hsent snapshot hmem
    exact ⟨k, le_refl k, inv.beginInstall hlock hsnap hle⟩
  | installState =>
    obtain ⟨snapshot, state, hw, rfl⟩ := h
    have hlock := inv.lock_of_worker (by simp [hw])
    rw [hw] at hworker
    obtain ⟨happlied, n, hn, hsnap, rfl⟩ := hworker
    refine ⟨k, le_refl k, .of_worker inv.le ⟨n, hn, hsnap, ?_⟩ (.inr hlock)
      (inv.builders_idle (.inr hlock)) inv.current⟩
    rw [← happlied]
    rfl
  | setInstalled =>
    obtain ⟨snapshot, hw, rfl⟩ := h
    have hlock := inv.lock_of_worker (by simp [hw])
    rw [hw] at hworker
    obtain ⟨n, hn, hsnap, happlied⟩ := hworker
    refine ⟨n, hn, .of_worker hsnap.le ?_ (.inr hlock) (inv.builders_idle (.inr hlock)) ?_⟩
    · have hstate : s.actor.state = (log.stateAt kvMachine n).state :=
        congrArg Applied.state happlied
      exact Applied.ext hstate hsnap.lastLogId
        (congrArg SnapshotMeta.lastMembership hsnap.metadata)
    · rintro _ ⟨⟩
      exact ⟨n, le_refl n, hsnap⟩
  | returnInstall result =>
    obtain ⟨hw, rfl⟩ := h
    have hlock := inv.lock_of_worker (by simp [hw])
    rw [hw] at hworker
    exact ⟨k, le_refl k, .of_worker inv.le hworker (.inl ⟨rfl, rfl⟩)
      (inv.builders_idle (.inr hlock)) inv.current⟩
  | lockBuild b =>
    obtain ⟨-, hlock, rfl⟩ := h
    exact ⟨k, le_refl k, inv.of_builder (by simp [hlock])
      (fun c _ => inv.builders_idle (.inl hlock) c) rfl rfl rfl trivial (.inr rfl) inv.current⟩
  | dump b =>
    obtain ⟨hb, rfl⟩ := h
    have hlock := inv.lock_of_builder (b := b) (by simp [hb])
    exact ⟨k, le_refl k, inv.of_builder (by simp [hlock]) (fun c => inv.other_idle hlock) rfl rfl
      rfl rfl (.inr hlock) inv.current⟩
  | store b =>
    obtain ⟨data, hb, rfl⟩ := h
    have hlock := inv.lock_of_builder (b := b) (by simp [hb])
    have hsnap := inv.snapshotAt hb
    refine ⟨k, le_refl k, inv.of_builder (by simp [hlock]) (fun c => inv.other_idle hlock) rfl rfl
      rfl ⟨k, hsnap⟩ (.inr hlock) ?_⟩
    rintro _ ⟨⟩
    exact ⟨k, le_refl k, hsnap⟩
  | returnBuild b snapshot =>
    obtain ⟨hb, rfl⟩ := h
    have hlock := inv.lock_of_builder (b := b) (by simp [hb])
    exact ⟨k, le_refl k, inv.of_builder (by simp [hlock]) (fun c => inv.other_idle hlock) rfl rfl
      rfl trivial (.inl rfl) inv.current⟩
  | getCurrentSnapshot snapshot =>
    obtain ⟨-, rfl⟩ := h
    exact ⟨k, le_refl k, inv⟩

theorem returned (h : StoreStep serde log sent s e s') (inv : StoreInv serde log s k) :
    ∀ snapshot ∈ e.returned, ∃ n, SnapshotAt serde log snapshot n := by
  intro snapshot hreturned
  cases e with
  | returnBuild b snapshot' =>
    obtain ⟨hb, -⟩ := h
    obtain ⟨⟩ := hreturned
    have hfits := inv.builder b
    rwa [hb] at hfits
  | getCurrentSnapshot snapshot' =>
    obtain ⟨hs, -⟩ := h
    obtain ⟨n, -, hsnap⟩ := inv.current snapshot (hs ▸ hreturned)
    exact ⟨n, hsnap⟩
  | _ => cases hreturned

/-- **One step does not take the current snapshot back.** -/
theorem snapshotId_le (h : StoreStep serde log sent s e s') (inv : StoreInv serde log s k) :
    s.snapshotId ≤ s'.snapshotId := by
  have hrefl := option_le_refl (option_le_refl le_refl) s.snapshotId
  cases e with
  | setInstalled =>
    obtain ⟨snapshot, hw, rfl⟩ := h
    have hworker := inv.worker
    rw [hw] at hworker
    obtain ⟨n, hn, hsnap, -⟩ := hworker
    exact inv.snapshotId_le hn hsnap
  | store b =>
    obtain ⟨data, hb, rfl⟩ := h
    exact inv.snapshotId_le (le_refl k) (inv.snapshotAt hb)
  | handleEntry =>
    obtain ⟨entry, -, rfl⟩ := h
    rw [RaftStateMachineStore.handleEntry]
    split <;> exact hrefl
  | lockInstall snapshot =>
    obtain ⟨-, -, -, -, rfl⟩ := h
    rw [RaftStateMachineStore.beginInstall]
    split <;> exact hrefl
  | setApplied | installState =>
    obtain ⟨_, _, -, rfl⟩ := h
    exact hrefl
  | lockApply | lockBuild =>
    obtain ⟨-, -, h⟩ := h
    first
      | obtain rfl := h
        exact hrefl
      | obtain ⟨-, rfl⟩ := h
        exact hrefl
  | respond | returnInstall | dump | returnBuild | getCurrentSnapshot =>
    obtain ⟨-, rfl⟩ := h
    exact hrefl

end StoreStep

/-! ### All runs -/

section Runs

variable [DecidableEq B] [DecidableEq N] {c c' : Cluster L M B N} {e : N × Event L M B}
  {es es' : List (N × Event L M B)}

/-- Every replica is at some prefix of the log, and so is every snapshot that was returned. -/
structure ClusterInv (serde : Serde KvMap) (log : Log L SetCommand M) (c : Cluster L M B N) :
    Prop where
  node : ∀ i, ∃ k, StoreInv serde log (c.nodes i) k
  sent : ∀ snapshot ∈ c.sent, ∃ n, SnapshotAt serde log snapshot n

namespace ClusterInv

omit [DecidableEq B] [DecidableEq N] in
theorem initial : ClusterInv serde log (.initial : Cluster L M B N) where
  node _ := ⟨0, .new⟩
  sent _ h := nomatch h

theorem step (inv : ClusterInv serde log c) (h : ClusterStep serde log c e c') :
    ClusterInv serde log c' := by
  obtain ⟨s, hstep, rfl⟩ := h
  obtain ⟨k, hk⟩ := inv.node e.1
  refine ⟨fun i => ?_, fun snapshot hmem => ?_⟩
  · by_cases hi : i = e.1
    · rw [hi]
      obtain ⟨k', -, hk'⟩ := hstep.inv inv.sent hk
      exact ⟨k', by simpa only [update_self] using hk'⟩
    · simpa only [update_of_ne hi] using inv.node i
  · rcases List.mem_append.mp hmem with hmem | hmem
    · exact inv.sent snapshot hmem
    · exact hstep.returned hk snapshot (Option.mem_toList.mp hmem)

theorem run (h : Run (ClusterStep serde log) .initial es c) : ClusterInv serde log c :=
  h.invariant initial fun _ _ _ inv hstep => inv.step hstep

/-- No step of the cluster takes the current snapshot of a replica back. -/
theorem snapshotId_le (inv : ClusterInv serde log c) (h : ClusterStep serde log c e c') (i : N) :
    (c.nodes i).snapshotId ≤ (c'.nodes i).snapshotId := by
  obtain ⟨s, hstep, rfl⟩ := h
  dsimp only
  by_cases hi : i = e.1
  · rw [hi, update_self]
    obtain ⟨k, hk⟩ := inv.node e.1
    exact hstep.snapshotId_le hk
  · rw [update_of_ne hi]
    exact option_le_refl (option_le_refl le_refl) _

end ClusterInv

/-- **Snapshots are consistent and never regress.** A snapshot that a replica returns or keeps is
the state of the log up to its last log id, the map and its position agree whenever the lock is
free, and no later step takes a current snapshot back. -/
theorem snapshots_consistent (run : Run (ClusterStep serde log) .initial es c)
    (run' : Run (ClusterStep serde log) c es' c') :
    (∀ snapshot ∈ c.sent, SnapshotConsistent serde log snapshot) ∧
      ∀ i, (∀ snapshot ∈ (c.nodes i).inner.currentSnapshot,
          SnapshotConsistent serde log snapshot) ∧
        ((c.nodes i).operationLock = none →
          log.IsPrefixState kvMachine (c.nodes i).applied) ∧
        (c.nodes i).snapshotId ≤ (c'.nodes i).snapshotId := by
  have inv := ClusterInv.run run
  refine ⟨fun snapshot hmem => ?_, fun i => ⟨fun snapshot hs => ?_, fun hlock => ?_, ?_⟩⟩
  · obtain ⟨n, hsnap⟩ := inv.sent snapshot hmem
    exact hsnap.consistent
  · obtain ⟨k, hk⟩ := inv.node i
    obtain ⟨n, -, hsnap⟩ := hk.current snapshot hs
    exact hsnap.consistent
  · obtain ⟨k, hk⟩ := inv.node i
    exact Log.isPrefixState_iff.mpr ⟨k, hk.le, hk.applied_eq (by simp [hlock])⟩
  · have hlater : ClusterInv serde log c' ∧ (c.nodes i).snapshotId ≤ (c'.nodes i).snapshotId :=
      run'.invariant (P := fun d => ClusterInv serde log d ∧
          (c.nodes i).snapshotId ≤ (d.nodes i).snapshotId)
        ⟨inv, option_le_refl (option_le_refl le_refl) _⟩ fun _ _ _ hd hstep =>
          ⟨hd.1.step hstep, option_le_trans (fun _ _ _ => option_le_trans fun _ _ _ => le_trans)
            hd.2 (hd.1.snapshotId_le hstep i)⟩
    exact hlater.2

end Runs

/-! ### A run -/

def oneCommand : Log ℕ SetCommand Unit := ⟨[⟨1, .normal ⟨"k", "v"⟩⟩], by simp⟩

/-- The snapshot after it. -/
def oneSnapshot (serde : Serde KvMap) : StoredSnapshot ℕ Unit :=
  ⟨⟨some 1, ⟨none, ()⟩⟩, serde.toStr ((∅ : KvMap).insert "k" "v")⟩

/-- A replica applies the command and builds a snapshot, which another one installs. -/
def builtAndInstalled (serde : Serde KvMap) : List (Bool × Event ℕ Unit Unit) :=
  [(false, .lockApply ⟨1, .normal ⟨"k", "v"⟩⟩), (false, .handleEntry), (false, .setApplied),
    (false, .respond (∅ : KvMap)["k"]?), (false, .lockBuild ()), (false, .dump ()),
    (false, .store ()), (false, .returnBuild () (oneSnapshot serde)),
    (true, .lockInstall (oneSnapshot serde)), (true, .installState), (true, .setInstalled),
    (true, .returnInstall (.ok ()))]

theorem builtAndInstalled_run (serde : Serde KvMap) :
    ∃ c : Cluster ℕ Unit Unit Bool,
      Run (ClusterStep serde oneCommand) .initial (builtAndInstalled serde) c ∧
        c.sent = [oneSnapshot serde] ∧
        (c.nodes true).inner.currentSnapshot = some (oneSnapshot serde) ∧
        (c.nodes true).operationLock = none := by
  have hread := serde.fromStr_toStr ((∅ : KvMap).insert "k" "v")
  have hmem : oneSnapshot serde ∈ [oneSnapshot serde] := List.mem_cons_self
  have run : Run (ClusterStep serde oneCommand) .initial (builtAndInstalled serde) _ :=
    .cons ⟨_, ⟨rfl, rfl, ⟨0, rfl, rfl⟩, rfl⟩, rfl⟩ <| .cons ⟨_, ⟨_, rfl, rfl⟩, rfl⟩ <|
    .cons ⟨_, ⟨_, _, rfl, rfl⟩, rfl⟩ <| .cons ⟨_, ⟨rfl, rfl⟩, rfl⟩ <|
    .cons ⟨_, ⟨rfl, rfl, rfl⟩, rfl⟩ <| .cons ⟨_, ⟨rfl, rfl⟩, rfl⟩ <|
    .cons ⟨_, ⟨_, rfl, rfl⟩, rfl⟩ <| .cons ⟨_, ⟨rfl, rfl⟩, rfl⟩ <|
    .cons ⟨_, ⟨rfl, rfl, hmem, Option.none_le, (StoreInv.beginInstall_of_ok hread).symm⟩, rfl⟩ <|
    .cons ⟨_, ⟨_, _, rfl, rfl⟩, rfl⟩ <| .cons ⟨_, ⟨_, rfl, rfl⟩, rfl⟩ <|
    .cons ⟨_, ⟨rfl, rfl⟩, rfl⟩ .nil
  exact ⟨_, run, rfl, rfl, rfl⟩

/-- The replica that installs the snapshot of another one keeps it, and is where that one is. -/
theorem snapshots_consistent_installed :
    ∃ c, Run (ClusterStep mapSerde oneCommand) .initial (builtAndInstalled mapSerde) c ∧
      SnapshotConsistent mapSerde oneCommand (oneSnapshot mapSerde) ∧
      (c.nodes true).inner.currentSnapshot = some (oneSnapshot mapSerde) ∧
      oneCommand.IsPrefixState kvMachine (c.nodes true).applied := by
  obtain ⟨c, run, hsent, hcurrent, hlock⟩ := builtAndInstalled_run mapSerde
  obtain ⟨hconsistent, hnode⟩ := snapshots_consistent run .nil
  refine ⟨c, run, hconsistent _ ?_, hcurrent, (hnode true).2.1 hlock⟩
  rw [hsent]
  exact List.mem_cons_self

end RustExample.OpenraftKameo
