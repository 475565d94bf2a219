import Mathlib.Data.List.Nodup
import Mathlib.Tactic.IntervalCases
import RustExample.OpenraftCluster.StateMachine.Log

/-!
# Snapshots

A snapshot pairs the metadata of a replica with a copy of its data. The builder runs beside the
state machine: it reads the metadata first and takes its view of the data later, and batches may
be applied in between. The data are then newer than the metadata say, and a replica that installs
the snapshot applies the entries in between a second time.

Source: `src/rocksstore_crud/state_machine.rs`.

* The files in which a replica keeps its snapshots are left out: a snapshot is what is sent.
* The log ids of a log are distinct.
-/

namespace RustExample.OpenraftCluster

open List

variable {M R : Type}

/-- The length of the prefix of a log that ends with a given log id. -/
def prefixLength (log : List (Entry M)) : Option LogId → ℕ
  | none => 0
  | some id => (log.map Entry.logId).idxOf id + 1

/-- The metadata of a state tell the prefix of the log that leads to it. -/
theorem prefixLength_of_stateAt {texts : TextForms} {log : List (Entry M)} {n : ℕ} {db : Db M}
    (hlog : (log.map Entry.logId).Nodup) (hn : n ≤ log.length)
    (h : stateAt texts log n = .ok db) : prefixLength log db.lastAppliedLog = n := by
  cases n with
  | zero =>
    obtain rfl : Db.initial = db := by simpa [stateAt] using h
    rfl
  | succ n =>
    rw [stateAt_succ texts hn] at h
    cases hprev : stateAt texts log n with
    | error err => simp [hprev, Bind.bind, Except.bind] at h
    | ok db' =>
      rw [hprev, ok_bind] at h
      rw [Db.lastAppliedLog_of_step texts h, prefixLength]
      have hidx := hlog.idxOf_getElem n (by simpa using Nat.lt_of_succ_le hn)
      rw [getElem_map] at hidx
      rw [hidx]

/-! ### Building and installing -/

/-- The metadata of a snapshot. -/
structure SnapshotMeta (M : Type) where
  lastLogId : Option LogId
  lastMembership : StoredMembership M

/-- A snapshot: its metadata and the listed data. -/
structure Snapshot (M : Type) where
  metadata : SnapshotMeta M
  data : List (String × String)

/-- The map of the pairs. -/
def snapshotDataToMap (data : List (String × String)) : KeySpace :=
  (∅ : KeySpace).writeAll (data.map fun p => KvMutation.put p.1 p.2)

/-- Replace the data and the metadata of a database by those of a snapshot, in one batch. -/
def restoreSnapshotToDb (db : Db M) (snap : Snapshot M) : Db M where
  smData := db.smData.writeAll ((db.smData.toList.map fun p => KvMutation.del p.1) ++
    snap.data.map fun p => KvMutation.put p.1 p.2)
  lastAppliedLog := snap.metadata.lastLogId
  lastMembership := some snap.metadata.lastMembership

/-- Installs a snapshot. -/
def RocksStateMachine.installSnapshot (sm : RocksStateMachine M) (snap : Snapshot M) :
    RocksStateMachine M :=
  ⟨restoreSnapshotToDb sm.db snap, snapshotDataToMap snap.data⟩

theorem snapshotDataToMap_toList (s : KeySpace) : snapshotDataToMap s.toList = s :=
  KeyStore.writeAll_toList s

theorem restoreSnapshotToDb_smData (db : Db M) (snap : Snapshot M) :
    (restoreSnapshotToDb db snap).smData = snapshotDataToMap snap.data := by
  have hclear : db.smData.writeAll (db.smData.toList.map fun p => KvMutation.del p.1) = ∅ :=
    KeyStore.writeAll_clear db.smData
  rw [restoreSnapshotToDb, KeyStore.writeAll_append, hclear]
  rfl

/-- The membership in the metadata, or the default one. -/
def Db.storedMembership [Inhabited M] (db : Db M) : StoredMembership M :=
  db.lastMembership.getD ⟨none, default⟩

/-- The stages of a build: nothing read, the log id, the metadata, and the data. -/
inductive SnapshotBuilder (M : Type) where
  | idle
  | readLog (lastAppliedLog : Option LogId)
  | readMeta (metadata : SnapshotMeta M)
  | built (snap : Snapshot M)

/-- A replica that applies its log while it builds a snapshot. -/
structure Replica (M : Type) where
  sm : RocksStateMachine M
  applied : ℕ
  builder : SnapshotBuilder M

def Replica.initial : Replica M := ⟨.initial, 0, .idle⟩

/-- What happens at a replica: a batch of the log is applied, or the builder takes a step. -/
inductive ReplicaEvent (M R : Type) where
  | apply (entries : List (Entry M × Option R))
  | readLastApplied
  | readLastMembership
  | takeView

/-- One step of a replica. A batch is what comes next in the log; the builder reads the metadata in
two steps and the data in another. -/
def ReplicaStep [Inhabited M] (texts : TextForms) (log : List (Entry M)) (r : Replica M)
    (e : ReplicaEvent M R) (r' : Replica M) : Prop :=
  match e with
  | .apply entries => entries.map Prod.fst <+: log.drop r.applied ∧
      ∃ a, r.sm.apply texts entries = .ok a ∧
        r' = { r with sm := a.sm, applied := r.applied + entries.length }
  | .readLastApplied => r.builder = .idle ∧
      r' = { r with builder := .readLog r.sm.db.lastAppliedLog }
  | .readLastMembership => ∃ lastLogId, r.builder = .readLog lastLogId ∧
      r' = { r with builder := .readMeta ⟨lastLogId, r.sm.db.storedMembership⟩ }
  | .takeView => ∃ metadata, r.builder = .readMeta metadata ∧
      r' = { r with builder := .built ⟨metadata, r.sm.db.smData.toList⟩ }

/-- The number of entries applied in a history. -/
def appliedIn (es : List (ReplicaEvent M R)) : ℕ :=
  (es.map fun e => match e with
    | .apply entries => entries.length
    | .readLastApplied | .readLastMembership | .takeView => 0).sum

/-! ### Consistent cuts -/

/-- The data of a snapshot are those of the log prefix that its metadata name. -/
def ConsistentCut (texts : TextForms) (log : List (Entry M)) (snap : Snapshot M) : Prop :=
  dataAt texts log (prefixLength log snap.metadata.lastLogId) = .ok (snapshotDataToMap snap.data)

/-- A replica that installs a snapshot and applies the rest has the data of all entries. -/
def Converges (R : Type) (texts : TextForms) (log : List (Entry M)) (snap : Snapshot M) : Prop :=
  ∀ (sm : RocksStateMachine M) (data : KeySpace) (batches : List (List (Entry M × Option R))),
    dataAt texts log log.length = .ok data →
    batches.flatten.map Prod.fst = log.drop (prefixLength log snap.metadata.lastLogId) →
      ∃ sm' responses, (sm.installSnapshot snap).applyBatches texts batches =
        .ok (sm', responses) ∧ sm'.db.smData = data

/-- The entries applied between the read of the log id and the view of the data left the data. -/
def Undisturbed (texts : TextForms) (log : List (Entry M)) (es : List (ReplicaEvent M R)) : Prop :=
  ∀ i k, es[i]? = some .readLastApplied → es[k]? = some .takeView →
    dataAt texts log (appliedIn (es.take i)) = dataAt texts log (appliedIn (es.take k))

variable {texts : TextForms} {log : List (Entry M)}

/-- After a consistent cut the rest of the log leads where the whole log does. -/
theorem ConsistentCut.converges {snap : Snapshot M} (h : ConsistentCut texts log snap) :
    Converges R texts log snap := by
  intro sm data batches hdata hbatches
  obtain ⟨db, hstate, hdb⟩ := dataAt_eq_ok.mp h
  obtain ⟨db', hstate', rfl⟩ := dataAt_eq_ok.mp hdata
  have hrest := stateAt_length hstate
  rw [hstate', ← hbatches] at hrest
  have hinstalled : (sm.installSnapshot snap).db.smData = db.smData :=
    (restoreSnapshotToDb_smData sm.db snap).trans hdb.symm
  have hsame := Db.foldlM_step_smData texts hinstalled (batches.flatten.map Prod.fst)
  rw [← hrest] at hsame
  cases hrun : (batches.flatten.map Prod.fst).foldlM (Db.step texts)
      (sm.installSnapshot snap).db with
  | error err =>
    rw [hrun] at hsame
    cases hsame
  | ok db'' =>
    obtain ⟨sm', responses, happly, rfl⟩ := (RocksStateMachine.exists_applyBatches_iff
      (restoreSnapshotToDb_smData sm.db snap).symm batches).mpr hrun
    rw [hrun] at hsame
    exact ⟨sm', responses, happly, Except.ok.inj hsame⟩

/-! ### The builder beside the state machine -/

/-- What the history says about the stage of the builder. -/
def SnapshotBuilder.Matches (texts : TextForms) (log : List (Entry M))
    (es : List (ReplicaEvent M R)) : SnapshotBuilder M → Prop
  | .idle => .readLastApplied ∉ es ∧ .takeView ∉ es
  | .readLog lastLogId => .takeView ∉ es ∧ ∃ i, OccursAt es .readLastApplied i ∧
      prefixLength log lastLogId = appliedIn (es.take i)
  | .readMeta metadata => .takeView ∉ es ∧ ∃ i, OccursAt es .readLastApplied i ∧
      prefixLength log metadata.lastLogId = appliedIn (es.take i)
  | .built snap => ∃ i k, OccursAt es .readLastApplied i ∧ OccursAt es .takeView k ∧
      prefixLength log snap.metadata.lastLogId = appliedIn (es.take i) ∧
      dataAt texts log (appliedIn (es.take k)) = .ok (snapshotDataToMap snap.data)

/-- The state of a replica in terms of its history. -/
structure ReplicaInvariant (texts : TextForms) (log : List (Entry M))
    (es : List (ReplicaEvent M R)) (r : Replica M) : Prop where
  memory : r.sm.data = r.sm.db.smData
  applied : r.applied = appliedIn es
  bounded : r.applied ≤ log.length
  state : stateAt texts log r.applied = .ok r.sm.db
  builder : r.builder.Matches texts log es

variable {es : List (ReplicaEvent M R)} {r r' : Replica M}

theorem appliedIn_apply (entries : List (Entry M × Option R)) :
    appliedIn (es ++ [.apply entries]) = appliedIn es + entries.length := by
  simp [appliedIn]

theorem SnapshotBuilder.Matches.apply {builder : SnapshotBuilder M}
    (h : builder.Matches texts log es) (entries : List (Entry M × Option R)) :
    builder.Matches texts log (es ++ [.apply entries]) := by
  have htake {i : ℕ} {e : ReplicaEvent M R} (hi : OccursAt es e i) :
      (es ++ [ReplicaEvent.apply entries]).take i = es.take i :=
    take_append_of_le_length hi.lt_length.le
  cases builder with
  | idle => simpa [Matches] using h
  | readLog lastLogId =>
    obtain ⟨hview, i, hi, hlen⟩ := h
    exact ⟨by simpa using hview, i, hi.snoc nofun, by rw [htake hi, hlen]⟩
  | readMeta metadata =>
    obtain ⟨hview, i, hi, hlen⟩ := h
    exact ⟨by simpa using hview, i, hi.snoc nofun, by rw [htake hi, hlen]⟩
  | built snap =>
    obtain ⟨i, k, hi, hk, hlen, hdata⟩ := h
    exact ⟨i, k, hi.snoc nofun, hk.snoc nofun, by rw [htake hi, hlen], by rw [htake hk, hdata]⟩

/-- **One step.** Batches and the steps of the builder preserve the invariant. -/
theorem ReplicaInvariant.step [Inhabited M] {e : ReplicaEvent M R}
    (hlog : (log.map Entry.logId).Nodup) (h : ReplicaInvariant texts log es r)
    (hstep : ReplicaStep texts log r e r') : ReplicaInvariant texts log (es ++ [e]) r' := by
  obtain ⟨hmem, happlied, hbounded, hstate, hbuilder⟩ := h
  cases e with
  | apply entries =>
    obtain ⟨hentries, a, ha, rfl⟩ := hstep
    have hsm := RocksStateMachine.memory_of_apply hmem ha
    have hrun := (RocksStateMachine.apply_eq_ok_iff hmem entries).mp ⟨a, ha, hsm⟩
    have hadd := stateAt_add hstate hentries
    have hle := hentries.length_le
    rw [length_map] at hadd hle
    refine ⟨congrArg RocksStateMachine.data hsm, ?_, ?_, hadd.trans hrun, hbuilder.apply entries⟩
    · rw [appliedIn_apply, happlied]
    · rw [length_drop] at hle
      exact Nat.add_le_of_le_sub' hbounded hle
  | readLastApplied =>
    obtain ⟨hidle, rfl⟩ := hstep
    rw [hidle] at hbuilder
    refine ⟨hmem, by simpa [appliedIn] using happlied, hbounded, hstate, ?_⟩
    refine ⟨by simpa using hbuilder.2, es.length, .last hbuilder.1, ?_⟩
    rw [take_left, ← happlied, prefixLength_of_stateAt hlog hbounded hstate]
  | readLastMembership =>
    obtain ⟨lastLogId, hread, rfl⟩ := hstep
    rw [hread] at hbuilder
    refine ⟨hmem, by simpa [appliedIn] using happlied, hbounded, hstate, ?_⟩
    obtain ⟨hview, i, hi, hlen⟩ := hbuilder
    refine ⟨by simpa using hview, i, hi.snoc nofun, ?_⟩
    rw [take_append_of_le_length hi.lt_length.le, hlen]
  | takeView =>
    obtain ⟨metadata, hread, rfl⟩ := hstep
    rw [hread] at hbuilder
    refine ⟨hmem, by simpa [appliedIn] using happlied, hbounded, hstate, ?_⟩
    obtain ⟨hview, i, hi, hlen⟩ := hbuilder
    refine ⟨i, es.length, hi.snoc nofun, .last hview, ?_, ?_⟩
    · rw [take_append_of_le_length hi.lt_length.le, hlen]
    · rw [take_left, ← happlied, snapshotDataToMap_toList]
      exact dataAt_eq_ok.mpr ⟨_, hstate, rfl⟩

theorem replicaInvariant_of_run [Inhabited M] (hlog : (log.map Entry.logId).Nodup)
    (run : Run (ReplicaStep texts log) Replica.initial es r) :
    ReplicaInvariant texts log es r :=
  run.history ⟨rfl, rfl, Nat.zero_le _, rfl, not_mem_nil, not_mem_nil⟩
    fun _ _ _ _ _ h hstep => h.step hlog hstep

/-- **Snapshots are consistent cuts exactly when the builder was not disturbed.** The snapshot has
the data of the prefix that its metadata name, and a replica that installs it converges, if and only
if the entries applied between the two reads left the data as they were. -/
theorem snapshot_consistent_iff_undisturbed [Inhabited M] (hlog : (log.map Entry.logId).Nodup)
    (run : Run (ReplicaStep texts log) Replica.initial es r) {snap : Snapshot M}
    (hsnap : r.builder = .built snap) :
    (ConsistentCut texts log snap ∧ Converges R texts log snap) ↔ Undisturbed texts log es := by
  have hbuilder := (replicaInvariant_of_run hlog run).builder
  rw [hsnap] at hbuilder
  obtain ⟨i, k, hi, hk, hlen, hdata⟩ := hbuilder
  have hcut : ConsistentCut texts log snap ↔ Undisturbed texts log es := by
    rw [ConsistentCut, hlen, ← hdata]
    constructor
    · intro h i' k' hi' hk'
      rwa [(hi i').mp hi', (hk k').mp hk']
    · exact fun h => h i k ((hi i).mpr rfl) ((hk k).mpr rfl)
  exact ⟨fun h => hcut.mp h.1, fun h => ⟨hcut.mpr h, (hcut.mpr h).converges⟩⟩

/-- A log whose second entry changes no data. -/
def quietLog : List (Entry Unit) :=
  [⟨⟨1, "n1", 1⟩, .normal (.set "a" "1")⟩, ⟨⟨1, "n1", 2⟩, .blank⟩]

/-- A build during which the blank entry is applied. -/
def quietBuild : List (ReplicaEvent Unit Unit) :=
  [.apply [(⟨⟨1, "n1", 1⟩, .normal (.set "a" "1")⟩, some ())], .readLastApplied,
    .apply [(⟨⟨1, "n1", 2⟩, .blank⟩, none)], .readLastMembership, .takeView]

/-- The snapshot of a build that only saw a blank entry. -/
theorem snapshot_consistent_iff_undisturbed_quiet : ∃ r snap,
    Run (ReplicaStep jsonForms quietLog) Replica.initial quietBuild r ∧ r.builder = .built snap ∧
      ConsistentCut jsonForms quietLog snap ∧ Converges Unit jsonForms quietLog snap := by
  have run : ∃ r snap, Run (ReplicaStep jsonForms quietLog) Replica.initial quietBuild r ∧
      r.builder = .built snap := by
    exact ⟨_, _, .cons ⟨⟨_, rfl⟩, _, rfl, rfl⟩ <| .cons ⟨rfl, rfl⟩ <|
      .cons ⟨⟨_, rfl⟩, _, rfl, rfl⟩ <| .cons ⟨_, rfl, rfl⟩ <| .cons ⟨_, rfl, rfl⟩ .nil, rfl⟩
  obtain ⟨r, snap, run, hsnap⟩ := run
  refine ⟨r, snap, run, hsnap, ?_⟩
  rw [snapshot_consistent_iff_undisturbed (by decide) run hsnap]
  have hi : ∀ i, quietBuild[i]? = some .readLastApplied → i = 1 := by
    intro i hi
    have hlt : i < 5 := (List.getElem?_eq_some_iff.mp hi).1
    interval_cases i <;> simp_all [quietBuild]
  have hk : ∀ k, quietBuild[k]? = some .takeView → k = 4 := by
    intro k hk
    have hlt : k < 5 := (List.getElem?_eq_some_iff.mp hk).1
    interval_cases k <;> simp_all [quietBuild]
  intro i k hi' hk'
  rw [hi i hi', hk k hk']
  rfl

/-! ### A batch between the metadata and the view -/

/-- A task that is handed out, claimed and requeued. -/
def requeueCmds : List (LogId × TaskRequest) :=
  [(⟨1, "n1", 1⟩, .taskEnqueue "t1" "mail" 100 none 100),
    (⟨1, "n1", 2⟩, .taskAssign "t1" "A" 1 101), (⟨1, "n1", 3⟩, .taskClaim "t1" "A" 1 102),
    (⟨1, "n1", 4⟩, .taskRequeue "t1")]

def requeueLog : List (Entry Unit) := requeueCmds.map taskEntry

/-- A build during which the task is handed out, claimed and requeued. -/
def disturbedBuild : List (ReplicaEvent Unit Unit) :=
  [.apply ((requeueLog.take 1).map (·, none)), .readLastApplied, .readLastMembership,
    .apply ((requeueLog.drop 1).map (·, none)), .takeView]

/-- The attempts of the task after a prefix of the log. -/
theorem dataAt_requeueLog (n : ℕ) : ∃ data, dataAt jsonForms requeueLog n = .ok data ∧
    Represents jsonForms data
      (((requeueCmds.map Prod.snd).take n).foldl TaskTable.next TaskTable.empty) := by
  have hempty : Represents jsonForms (Db.initial : Db Unit).smData TaskTable.empty :=
    represents_empty
  obtain ⟨db, hrun, hr⟩ := Db.exists_foldlM_tasks hempty (requeueCmds.take n)
  rw [map_take] at hrun hr
  exact ⟨db.smData, dataAt_eq_ok.mpr ⟨db, hrun, rfl⟩, hr⟩

theorem exists_disturbedBuild : ∃ r snap,
    Run (ReplicaStep jsonForms requeueLog) Replica.initial disturbedBuild r ∧
      r.builder = .built snap := by
  have hempty : Represents jsonForms (Db.initial : Db Unit).smData TaskTable.empty :=
    represents_empty
  obtain ⟨db₁, hrun₁, hr₁⟩ := Db.exists_foldlM_tasks hempty (requeueCmds.take 1)
  have hmem (db : Db Unit) : (⟨db, db.smData⟩ : RocksStateMachine Unit).data = db.smData := rfl
  obtain ⟨a₁, ha₁, hsm₁⟩ := (RocksStateMachine.apply_eq_ok_iff (hmem Db.initial)
    ((requeueLog.take 1).map (·, (none : Option Unit)))).mpr hrun₁
  obtain ⟨db₂, hrun₂, -⟩ := Db.exists_foldlM_tasks hr₁ (requeueCmds.drop 1)
  obtain ⟨a₂, ha₂, -⟩ := (RocksStateMachine.apply_eq_ok_iff (hmem db₁)
    ((requeueLog.drop 1).map (·, (none : Option Unit)))).mpr hrun₂
  rw [← hsm₁] at ha₂
  exact ⟨_, _, .cons ⟨⟨_, rfl⟩, a₁, ha₁, rfl⟩ <| .cons ⟨rfl, rfl⟩ <| .cons ⟨_, rfl, rfl⟩ <|
    .cons ⟨⟨_, rfl⟩, a₂, ha₂, rfl⟩ <| .cons ⟨_, rfl, rfl⟩ .nil, rfl⟩

/-- The snapshot of the disturbed build names the first entry and holds the data of all four. -/
theorem snapshot_of_disturbedBuild {r : Replica Unit} {snap : Snapshot Unit}
    (run : Run (ReplicaStep jsonForms requeueLog) Replica.initial disturbedBuild r)
    (hsnap : r.builder = .built snap) : prefixLength requeueLog snap.metadata.lastLogId = 1 ∧
      dataAt jsonForms requeueLog 4 = .ok (snapshotDataToMap snap.data) := by
  have hbuilder := (replicaInvariant_of_run (by decide) run).builder
  rw [hsnap] at hbuilder
  obtain ⟨i, k, hi, hk, hlen, hdata⟩ := hbuilder
  obtain rfl : 1 = i := (hi 1).mp rfl
  obtain rfl : 4 = k := (hk 4).mp rfl
  exact ⟨hlen, hdata⟩

/-- **A batch in between breaks the cut.** The task is handed out, claimed and requeued between the
reads: a replica that installs the snapshot applies the claim a second time. -/
theorem disturbed_snapshot_diverges : ∃ r snap,
    Run (ReplicaStep jsonForms requeueLog) Replica.initial disturbedBuild r ∧
      r.builder = .built snap ∧ ¬ConsistentCut jsonForms requeueLog snap ∧
        ¬Converges Unit jsonForms requeueLog snap := by
  obtain ⟨r, snap, run, hsnap⟩ := exists_disturbedBuild
  obtain ⟨hlen, hdata⟩ := snapshot_of_disturbedBuild run hsnap
  obtain ⟨data₄, hdata₄, hr₄⟩ := dataAt_requeueLog 4
  obtain rfl := Except.ok.inj (hdata₄.symm.trans hdata)
  refine ⟨r, snap, run, hsnap, fun hcut => ?_, fun hconverges => ?_⟩
  · obtain ⟨data₁, hdata₁, hr₁⟩ := dataAt_requeueLog 1
    rw [ConsistentCut, hlen, hdata₁] at hcut
    obtain ⟨⟩ := hcut
    have hrecord := (hr₁.recordAt_eq "t1").symm.trans (hr₄.recordAt_eq "t1")
    exact absurd (congrArg (Option.map TaskRecord.attempts) hrecord) (by decide)
  · obtain ⟨sm', responses, happly, hsm'⟩ := hconverges ⟨Db.initial, ∅⟩ _
      [(requeueLog.drop 1).map (·, none)] hdata (by rw [hlen]; rfl)
    rw [← restoreSnapshotToDb_smData Db.initial snap] at hr₄
    obtain ⟨db, hrun, hr⟩ := Db.exists_foldlM_tasks hr₄ (requeueCmds.drop 1)
    have hmem : (RocksStateMachine.installSnapshot ⟨Db.initial, ∅⟩ snap).data =
        (restoreSnapshotToDb Db.initial snap).smData :=
      (restoreSnapshotToDb_smData Db.initial snap).symm
    obtain ⟨sm, responses', happly', rfl⟩ :=
      (RocksStateMachine.exists_applyBatches_iff hmem
        [(requeueLog.drop 1).map (·, (none : Option Unit))]).mpr hrun
    obtain ⟨rfl, -⟩ := Prod.mk.inj (Except.ok.inj (happly'.symm.trans happly))
    rw [hsm', ← restoreSnapshotToDb_smData Db.initial snap] at hr
    have hrecord := (hr₄.recordAt_eq "t1").symm.trans (hr.recordAt_eq "t1")
    exact absurd (congrArg (Option.map TaskRecord.attempts) hrecord) (by decide)

end RustExample.OpenraftCluster
