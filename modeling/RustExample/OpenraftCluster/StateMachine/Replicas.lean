import RustExample.OpenraftCluster.StateMachine.SnapshotFiles

/-!
# The replicas of a group

The replicas of a raft group apply one log. A replica may take the place of a part of it by a
snapshot that another one has built, and a replica that is started again goes on from its database,
or from the newest of its snapshot files if that is ahead.

Source: `src/rocksstore_crud/state_machine.rs`.

* Raft hands every replica the entries that follow what it applied, and a snapshot only if it is not
  behind. A snapshot may reach a replica at any later time, and more than once.
* An installation replaces the database, stores the file and replaces the memory; the process may
  end between any two steps. Files are deleted at any time.
* Of the newest file only the order of log ids is kept.
-/

namespace RustExample.OpenraftCluster

open Function List

open SnapshotDir (logRank)

variable {ι M R : Type}

/-- A replica with its builder, the installation under way, and the files of its directory. -/
structure Host (M : Type) where
  sm : RocksStateMachine M
  builder : SnapshotBuilder M
  installing : Option (Snapshot M)
  files : List (Snapshot M)

/-- The replicas, and the snapshots that were ever stored. -/
structure Group (ι M : Type) where
  hosts : ι → Host M
  sent : List (Snapshot M)

/-- No host has started. -/
def Group.initial : Group ι M := ⟨fun _ => ⟨.initial, .idle, none, []⟩, []⟩

/-- What may happen to a host. -/
inductive HostEvent (M R : Type) where
  | apply (entries : List (Entry M × Option R))
  | readLastApplied
  | readLastMembership
  | takeView
  | storeBuilt (snap : Snapshot M)
  | restoreDb (snap : Snapshot M)
  | storeInstalled (snap : Snapshot M)
  | replaceMemory (snap : Snapshot M)
  | prune (kept : List (Snapshot M))
  | restart (latest : Option (Snapshot M))

/-- `recover_from_latest_snapshot_if_newer` -/
def Db.recovered (db : Db M) : Option (Snapshot M) → Db M
  | none => db
  | some snap =>
    if logRank snap.metadata.lastLogId ≤ logRank db.lastAppliedLog then db
    else restoreSnapshotToDb db snap

/-- A snapshot that is loaded from a directory. -/
def IsNewest (files : List (Snapshot M)) : Option (Snapshot M) → Prop
  | none => files = []
  | some snap => snap ∈ files ∧
    ∀ file ∈ files, logRank file.metadata.lastLogId ≤ logRank snap.metadata.lastLogId

variable [Inhabited M]

/-- One event of a host. -/
def Host.Step (texts : TextForms) (log : List (Entry M)) (sent : List (Snapshot M)) (h : Host M)
    (e : HostEvent M R) (h' : Host M) : Prop :=
  match e with
  | .apply entries => h.installing = none ∧
      entries.map Prod.fst <+: log.drop (prefixLength log h.sm.db.lastAppliedLog) ∧
      ∃ a, h.sm.apply texts entries = .ok a ∧ h' = { h with sm := a.sm }
  | .readLastApplied => h.builder = .idle ∧
      h' = { h with builder := .readLog h.sm.db.lastAppliedLog }
  | .readLastMembership => ∃ lastLogId, h.builder = .readLog lastLogId ∧
      h' = { h with builder := .readMeta ⟨lastLogId, h.sm.db.storedMembership⟩ }
  | .takeView => ∃ metadata, h.builder = .readMeta metadata ∧
      h' = { h with builder := .built ⟨metadata, h.sm.db.smData.toList⟩ }
  | .storeBuilt snap => h.builder = .built snap ∧
      h' = { h with builder := .idle, files := snap :: h.files }
  | .restoreDb snap => h.installing = none ∧ snap ∈ sent ∧
      logRank h.sm.db.lastAppliedLog ≤ logRank snap.metadata.lastLogId ∧
      h' = { h with
        sm := ⟨restoreSnapshotToDb h.sm.db snap, h.sm.data⟩, installing := some snap }
  | .storeInstalled snap => h.installing = some snap ∧ h' = { h with files := snap :: h.files }
  | .replaceMemory snap => h.installing = some snap ∧
      h' = { h with sm := ⟨h.sm.db, snapshotDataToMap snap.data⟩, installing := none }
  | .prune kept => kept ⊆ h.files ∧ h' = { h with files := kept }
  | .restart latest => IsNewest h.files latest ∧
      h' = ⟨.new (h.sm.db.recovered latest), .idle, none, h.files⟩

/-- The snapshot that an event stores. -/
def HostEvent.stored : HostEvent M R → List (Snapshot M)
  | .storeBuilt snap => [snap]
  | _ => []

/-- No snapshot is being read from the database. -/
def SnapshotBuilder.Resting : SnapshotBuilder M → Prop
  | .readLog _ | .readMeta _ => False
  | .idle | .built _ => True

/-- The database stands still while metadata and data of a snapshot are read. -/
def Host.BuildsAlone (h : Host M) : HostEvent M R → Prop
  | .apply _ | .restoreDb _ => h.builder.Resting
  | _ => True

/-- One event of the group. -/
def Group.Step [DecidableEq ι] (texts : TextForms) (log : List (Entry M)) (g : Group ι M)
    (e : ι × HostEvent M R) (g' : Group ι M) : Prop :=
  (g.hosts e.1).BuildsAlone e.2 ∧ ∃ h', Host.Step texts log g.sent (g.hosts e.1) e.2 h' ∧
    g' = ⟨update g.hosts e.1 h', e.2.stored ++ g.sent⟩

/-! ### States of the log -/

/-- What a database shows of a state. -/
structure Db.Same (db db₀ : Db M) : Prop where
  smData : db.smData = db₀.smData
  lastAppliedLog : db.lastAppliedLog = db₀.lastAppliedLog
  storedMembership : db.storedMembership = db₀.storedMembership

variable {texts : TextForms} {log : List (Entry M)} {db db' db₀ db₁ : Db M}

theorem Db.Same.step (h : db.Same db₀) {entry : Entry M} (hstep : db.step texts entry = .ok db') :
    ∃ db₀', db₀.step texts entry = .ok db₀' ∧ db'.Same db₀' := by
  rw [Db.step_eq, map_eq_ok] at hstep
  obtain ⟨p, hp, rfl⟩ := hstep
  rw [h.smData] at hp
  refine ⟨_, (Db.step_eq texts entry).trans (map_eq_ok.mpr ⟨p, hp, rfl⟩),
    by rw [h.smData], rfl, ?_⟩
  cases hentry : entry.storedMembership with
  | none => exact h.storedMembership
  | some membership => rfl

theorem Db.Same.foldlM (h : db.Same db₀) {entries : List (Entry M)}
    (hrun : entries.foldlM (Db.step texts) db = .ok db') :
    ∃ db₀', entries.foldlM (Db.step texts) db₀ = .ok db₀' ∧ db'.Same db₀' := by
  induction entries generalizing db db₀ with
  | nil =>
    obtain rfl : db = db' := Except.ok.inj hrun
    exact ⟨db₀, rfl, h⟩
  | cons entry entries ih =>
    rw [foldlM_cons, bind_eq_ok] at hrun
    obtain ⟨next, hstep, hrun⟩ := hrun
    obtain ⟨next₀, hstep₀, hsame⟩ := h.step hstep
    rw [foldlM_cons, hstep₀]
    exact ih hsame hrun

/-- The database is in the state of a prefix of the log. -/
def Db.OfLog (texts : TextForms) (log : List (Entry M)) (db : Db M) : Prop :=
  ∃ n ≤ log.length, ∃ db₀, stateAt texts log n = .ok db₀ ∧ db.Same db₀

/-- The snapshot is that of a prefix of the log. -/
def Snapshot.OfLog (texts : TextForms) (log : List (Entry M)) (snap : Snapshot M) : Prop :=
  ∀ db : Db M, (restoreSnapshotToDb db snap).OfLog texts log

/-- A snapshot of what a database shows. -/
theorem Db.OfLog.snapshot (h : db.OfLog texts log) :
    Snapshot.OfLog texts log
      ⟨⟨db.lastAppliedLog, db.storedMembership⟩, db.smData.toList⟩ := by
  obtain ⟨n, hn, db₀, hstate, hsame⟩ := h
  refine fun db' => ⟨n, hn, db₀, hstate, ?_, hsame.lastAppliedLog, hsame.storedMembership⟩
  rw [restoreSnapshotToDb_smData, snapshotDataToMap_toList, hsame.smData]

theorem Db.OfLog.exists_state (hlog : (log.map Entry.logId).Nodup) (h : db.OfLog texts log) :
    prefixLength log db.lastAppliedLog ≤ log.length ∧ ∃ db₀,
      stateAt texts log (prefixLength log db.lastAppliedLog) = .ok db₀ ∧ db.Same db₀ := by
  obtain ⟨n, hn, db₀, hstate, hsame⟩ := h
  rw [hsame.lastAppliedLog, prefixLength_of_stateAt hlog hn hstate]
  exact ⟨hn, db₀, hstate, hsame⟩

/-- The next entries of the log lead to a later state of the log. -/
theorem Db.OfLog.apply (hlog : (log.map Entry.logId).Nodup) (h : db.OfLog texts log)
    {entries : List (Entry M)}
    (hentries : entries <+: log.drop (prefixLength log db.lastAppliedLog))
    (hrun : entries.foldlM (Db.step texts) db = .ok db') :
    db'.OfLog texts log ∧ prefixLength log db'.lastAppliedLog =
      prefixLength log db.lastAppliedLog + entries.length := by
  obtain ⟨hn, db₀, hstate, hsame⟩ := h.exists_state hlog
  obtain ⟨db₀', hrun₀, hsame'⟩ := hsame.foldlM hrun
  have hle := hentries.length_le
  rw [length_drop] at hle
  have hlater := (stateAt_add hstate hentries).trans hrun₀
  refine ⟨⟨_, by omega, db₀', hlater, hsame'⟩, ?_⟩
  rw [hsame'.lastAppliedLog, prefixLength_of_stateAt hlog (by omega) hlater]

theorem Db.OfLog.recovered (h : db.OfLog texts log) {latest : Option (Snapshot M)}
    (hlatest : ∀ snap ∈ latest, snap.OfLog texts log) : (db.recovered latest).OfLog texts log := by
  cases latest with
  | none => exact h
  | some snap =>
    rw [Db.recovered]
    split_ifs
    · exact h
    · exact hlatest snap rfl db

/-! ### Runs -/

/-- What was read is what the database shows, and what was built is in a state of the log. -/
def SnapshotBuilder.Shows (texts : TextForms) (log : List (Entry M)) (db : Db M) :
    SnapshotBuilder M → Prop
  | .idle => True
  | .readLog lastLogId => lastLogId = db.lastAppliedLog
  | .readMeta metadata => metadata = ⟨db.lastAppliedLog, db.storedMembership⟩
  | .built snap => snap.OfLog texts log

theorem SnapshotBuilder.Shows.of_resting {builder : SnapshotBuilder M}
    (h : builder.Shows texts log db) (hrest : builder.Resting) (db' : Db M) :
    builder.Shows texts log db' := by
  cases builder with
  | idle | built snap => exact h
  | readLog lastLogId | readMeta metadata => exact hrest.elim

/-- What holds of a replica: the memory shows the database unless an installation is under way, and
what is read, built or stored is in a state of the log. -/
structure Host.Inv (texts : TextForms) (log : List (Entry M)) (h : Host M) : Prop where
  db : h.sm.db.OfLog texts log
  memory : h.installing = none → h.sm.data = h.sm.db.smData
  installing : ∀ snap ∈ h.installing, snap.OfLog texts log ∧
    snapshotDataToMap snap.data = h.sm.db.smData
  builder : h.builder.Shows texts log h.sm.db
  files : ∀ snap ∈ h.files, snap.OfLog texts log

variable {h h' : Host M} {sent : List (Snapshot M)}

/-- **One step of a replica.** -/
theorem Host.Inv.step (hlog : (log.map Entry.logId).Nodup) (hinv : h.Inv texts log)
    (hsent : ∀ snap ∈ sent, snap.OfLog texts log) {e : HostEvent M R} (halone : h.BuildsAlone e)
    (hstep : Host.Step texts log sent h e h') :
    h'.Inv texts log ∧ ∀ snap ∈ e.stored, snap.OfLog texts log := by
  obtain ⟨hdb, hmem, hinst, hbuilder, hfiles⟩ := hinv
  cases e with
  | apply entries =>
    obtain ⟨hnone, hentries, a, ha, rfl⟩ := hstep
    have hsm := RocksStateMachine.memory_of_apply (hmem hnone) ha
    have hrun := (RocksStateMachine.apply_eq_ok_iff (hmem hnone) entries).mp ⟨a, ha, hsm⟩
    exact ⟨⟨(hdb.apply hlog hentries hrun).1, fun _ => congrArg RocksStateMachine.data hsm,
      by simp [hnone], hbuilder.of_resting halone _, hfiles⟩, nofun⟩
  | readLastApplied =>
    obtain ⟨-, rfl⟩ := hstep
    exact ⟨⟨hdb, hmem, hinst, rfl, hfiles⟩, nofun⟩
  | readLastMembership =>
    obtain ⟨lastLogId, hread, rfl⟩ := hstep
    rw [hread] at hbuilder
    obtain rfl := hbuilder
    exact ⟨⟨hdb, hmem, hinst, rfl, hfiles⟩, nofun⟩
  | takeView =>
    obtain ⟨metadata, hread, rfl⟩ := hstep
    rw [hread] at hbuilder
    obtain rfl := hbuilder
    exact ⟨⟨hdb, hmem, hinst, hdb.snapshot, hfiles⟩, nofun⟩
  | storeBuilt snap =>
    obtain ⟨hbuilt, rfl⟩ := hstep
    rw [hbuilt] at hbuilder
    exact ⟨⟨hdb, hmem, hinst, trivial, List.forall_mem_cons.mpr ⟨hbuilder, hfiles⟩⟩,
      List.forall_mem_singleton.mpr hbuilder⟩
  | restoreDb snap =>
    obtain ⟨hnone, hsnap, -, rfl⟩ := hstep
    refine ⟨⟨hsent snap hsnap h.sm.db, nofun, ?_, hbuilder.of_resting halone _, hfiles⟩, nofun⟩
    rintro snap' ⟨⟩
    exact ⟨hsent snap hsnap, (restoreSnapshotToDb_smData h.sm.db snap).symm⟩
  | storeInstalled snap =>
    obtain ⟨hinstalling, rfl⟩ := hstep
    exact ⟨⟨hdb, hmem, hinst, hbuilder,
      List.forall_mem_cons.mpr ⟨(hinst snap hinstalling).1, hfiles⟩⟩, nofun⟩
  | replaceMemory snap =>
    obtain ⟨hinstalling, rfl⟩ := hstep
    exact ⟨⟨hdb, fun _ => (hinst snap hinstalling).2, nofun, hbuilder, hfiles⟩, nofun⟩
  | prune kept =>
    obtain ⟨hkept, rfl⟩ := hstep
    exact ⟨⟨hdb, hmem, hinst, hbuilder, fun snap hsnap => hfiles snap (hkept hsnap)⟩, nofun⟩
  | restart latest =>
    obtain ⟨hlatest, rfl⟩ := hstep
    refine ⟨⟨hdb.recovered ?_, fun _ => rfl, nofun, trivial, hfiles⟩, nofun⟩
    rintro snap rfl
    exact hfiles snap hlatest.1

/-- Every replica is sound, and so is every snapshot that was ever stored. -/
structure Group.Inv (texts : TextForms) (log : List (Entry M)) (g : Group ι M) : Prop where
  hosts : ∀ i, (g.hosts i).Inv texts log
  sent : ∀ snap ∈ g.sent, snap.OfLog texts log

theorem Group.Inv.initial : (Group.initial : Group ι M).Inv texts log where
  hosts _ := ⟨⟨0, Nat.zero_le _, _, rfl, rfl, rfl, rfl⟩, fun _ => rfl, nofun, trivial, nofun⟩
  sent := nofun

variable [DecidableEq ι] {g g' : Group ι M} {es : List (ι × HostEvent M R)}

theorem Group.Inv.step (hlog : (log.map Entry.logId).Nodup) (hinv : g.Inv texts log)
    {e : ι × HostEvent M R} (hstep : Group.Step texts log g e g') : g'.Inv texts log := by
  obtain ⟨halone, h', hhost, rfl⟩ := hstep
  obtain ⟨hinv', hstored⟩ := (hinv.hosts e.1).step hlog hinv.sent halone hhost
  refine ⟨fun i => ?_, fun snap hsnap => ?_⟩
  · by_cases hi : i = e.1
    · subst hi
      dsimp only
      rwa [update_self]
    · dsimp only
      rw [update_of_ne hi]
      exact hinv.hosts i
  · exact (List.mem_append.mp hsnap).elim (hstored snap) (hinv.sent snap)

theorem Group.Inv.of_run (hlog : (log.map Entry.logId).Nodup)
    (run : Run (Group.Step texts log) Group.initial es g) : g.Inv texts log :=
  run.invariant Group.Inv.initial fun _ _ _ hinv hstep => hinv.step hlog hstep

/-- **Replicas agree.** If builds are alone, each replica has the data of the log up to what it
applied last, in its database and, once no installation is under way, in memory. Replicas that
applied the same have the same data and membership, and every stored snapshot is a consistent
cut. -/
theorem replicas_agree (hlog : (log.map Entry.logId).Nodup)
    (run : Run (Group.Step texts log) Group.initial es g) :
    (∀ i, dataAt texts log (prefixLength log (g.hosts i).sm.db.lastAppliedLog) =
      .ok (g.hosts i).sm.db.smData) ∧
    (∀ i, (g.hosts i).installing = none → (g.hosts i).sm.data = (g.hosts i).sm.db.smData) ∧
    (∀ i j, (g.hosts i).sm.db.lastAppliedLog = (g.hosts j).sm.db.lastAppliedLog →
      (g.hosts i).sm.db.smData = (g.hosts j).sm.db.smData ∧
      (g.hosts i).sm.db.storedMembership = (g.hosts j).sm.db.storedMembership) ∧
    ∀ snap ∈ g.sent, ConsistentCut texts log snap := by
  have hinv := Group.Inv.of_run hlog run
  refine ⟨fun i => ?_, fun i => (hinv.hosts i).memory, fun i j hij => ?_, fun snap hsnap => ?_⟩
  · obtain ⟨-, db₀, hdb₀, hsame⟩ := (hinv.hosts i).db.exists_state hlog
    exact dataAt_eq_ok.mpr ⟨db₀, hdb₀, hsame.smData.symm⟩
  · obtain ⟨-, db₀, hdb₀, hsame⟩ := (hinv.hosts i).db.exists_state hlog
    obtain ⟨-, db₁, hdb₁, hsame'⟩ := (hinv.hosts j).db.exists_state hlog
    obtain rfl := Except.ok.inj (hdb₀.symm.trans (hij ▸ hdb₁))
    exact ⟨hsame.smData.trans hsame'.smData.symm,
      hsame.storedMembership.trans hsame'.storedMembership.symm⟩
  · obtain ⟨-, db₀, hdb₀, hsame⟩ := (hinv.sent snap hsnap Db.initial).exists_state hlog
    exact dataAt_eq_ok.mpr ⟨db₀, hdb₀,
      hsame.smData.symm.trans (restoreSnapshotToDb_smData Db.initial snap)⟩

/-- The data of the first entry. -/
def firstSnapshot : Snapshot Unit := ⟨⟨some ⟨1, "n1", 1⟩, none, ()⟩, [("a", "1")]⟩

/-- One replica applies an entry and builds a snapshot, and the other one installs it. -/
def installEvents : List (Bool × HostEvent Unit Unit) :=
  [(false, .apply [(⟨⟨1, "n1", 1⟩, .normal (.set "a" "1")⟩, some ())]), (false, .readLastApplied),
    (false, .readLastMembership), (false, .takeView), (false, .storeBuilt firstSnapshot),
    (true, .restoreDb firstSnapshot), (true, .storeInstalled firstSnapshot),
    (true, .replaceMemory firstSnapshot)]

/-- The other one starts again, with the snapshot, and applies the second entry. -/
def restartEvents : List (Bool × HostEvent Unit Unit) :=
  [(true, .restart (some firstSnapshot)), (true, .apply [(⟨⟨1, "n1", 2⟩, .blank⟩, none)])]

theorem exists_run_installEvents : ∃ g g' : Group Bool Unit,
    Run (Group.Step jsonForms quietLog) Group.initial installEvents g ∧
    Run (Group.Step jsonForms quietLog) g restartEvents g' ∧
    firstSnapshot ∈ g.sent ∧ (g.hosts true).installing = none ∧
    (g.hosts true).sm.db.lastAppliedLog = (g.hosts false).sm.db.lastAppliedLog :=
  ⟨_, _, .cons ⟨trivial, _, ⟨rfl, ⟨_, rfl⟩, _, rfl, rfl⟩, rfl⟩ <|
    .cons ⟨trivial, _, ⟨rfl, rfl⟩, rfl⟩ <| .cons ⟨trivial, _, ⟨_, rfl, rfl⟩, rfl⟩ <|
    .cons ⟨trivial, _, ⟨_, rfl, rfl⟩, rfl⟩ <| .cons ⟨trivial, _, ⟨rfl, rfl⟩, rfl⟩ <|
    .cons ⟨trivial, _, ⟨rfl, mem_singleton_self _, bot_le, rfl⟩, rfl⟩ <|
    .cons ⟨trivial, _, ⟨rfl, rfl⟩, rfl⟩ <| .cons ⟨trivial, _, ⟨rfl, rfl⟩, rfl⟩ .nil,
    .cons ⟨trivial, _, ⟨⟨mem_singleton_self _, by decide⟩, rfl⟩, rfl⟩ <|
    .cons ⟨trivial, _, ⟨rfl, ⟨_, rfl⟩, _, rfl, rfl⟩, rfl⟩ .nil,
    mem_singleton_self _, rfl, rfl⟩

theorem replicas_agree_two : ∃ g : Group Bool Unit,
    Run (Group.Step jsonForms quietLog) Group.initial installEvents g ∧
    (g.hosts true).sm.data = (g.hosts true).sm.db.smData ∧
    (g.hosts true).sm.db.smData = (g.hosts false).sm.db.smData ∧
    ConsistentCut jsonForms quietLog firstSnapshot := by
  obtain ⟨g, -, run, -, hsent, hnone, happlied⟩ := exists_run_installEvents
  have h := replicas_agree (by decide) run
  exact ⟨g, run, h.2.1 true hnone, (h.2.2.1 true false happlied).1, h.2.2.2 _ hsent⟩

/-! ### Progress -/

/-- Later log ids belong to longer prefixes. -/
theorem Db.OfLog.prefixLength_le (hlog : (log.map Entry.logId).Pairwise (· < ·))
    (h : db.OfLog texts log) (h' : db'.OfLog texts log)
    (hle : logRank db.lastAppliedLog ≤ logRank db'.lastAppliedLog) :
    prefixLength log db.lastAppliedLog ≤ prefixLength log db'.lastAppliedLog := by
  have hlast {db : Db M} (h : db.OfLog texts log) : db.lastAppliedLog = none ∨
      ∃ id ∈ db.lastAppliedLog, id ∈ log.map Entry.logId := by
    obtain ⟨n, hn, db₀, hstate, hsame⟩ := h
    rw [hsame.lastAppliedLog]
    cases n with
    | zero =>
      obtain rfl : Db.initial = db₀ := Except.ok.inj hstate
      exact .inl rfl
    | succ n =>
      rw [stateAt_succ texts hn, bind_eq_ok] at hstate
      obtain ⟨db', -, hstep⟩ := hstate
      exact .inr ⟨_, Db.lastAppliedLog_of_step texts hstep,
        mem_map_of_mem (getElem_mem hn)⟩
  rcases hlast h with hnone | ⟨id, hid, hmem⟩
  · rw [hnone]
    exact Nat.zero_le _
  · rcases hlast h' with hnone | ⟨id', hid', hmem'⟩
    · rw [hid, hnone] at hle
      exact absurd hle (by simp [logRank])
    · rw [hid, hid'] at hle ⊢
      by_contra hlt
      have hlt := List.pairwise_iff_getElem.mp hlog _ _ (idxOf_lt_length_of_mem hmem')
        (idxOf_lt_length_of_mem hmem) (by simpa [prefixLength] using hlt)
      rw [getElem_idxOf, getElem_idxOf] at hlt
      exact absurd (WithBot.coe_le_coe.mp hle) (not_le.mpr hlt)

/-- **One step of a replica takes it no step back.** -/
theorem Host.Inv.prefixLength_le (hlog : (log.map Entry.logId).Pairwise (· < ·))
    (hinv : h.Inv texts log) (hinv' : h'.Inv texts log) {e : HostEvent M R}
    (hstep : Host.Step texts log sent h e h') :
    prefixLength log h.sm.db.lastAppliedLog ≤ prefixLength log h'.sm.db.lastAppliedLog := by
  cases e with
  | apply entries =>
    obtain ⟨hnone, hentries, a, ha, rfl⟩ := hstep
    have hsm := RocksStateMachine.memory_of_apply (hinv.memory hnone) ha
    have hrun := (RocksStateMachine.apply_eq_ok_iff (hinv.memory hnone) entries).mp ⟨a, ha, hsm⟩
    rw [(hinv.db.apply (hlog.imp ne_of_lt) hentries hrun).2]
    exact Nat.le_add_right ..
  | restoreDb snap =>
    obtain ⟨-, -, hle, rfl⟩ := hstep
    exact hinv.db.prefixLength_le hlog hinv'.db hle
  | restart latest =>
    obtain ⟨-, rfl⟩ := hstep
    refine hinv.db.prefixLength_le hlog hinv'.db ?_
    cases latest with
    | none => exact le_rfl
    | some snap =>
      simp only [RocksStateMachine.new, Db.recovered]
      split_ifs with hle
      · exact le_rfl
      · exact le_of_not_ge hle
  | readLastApplied | storeBuilt snap | storeInstalled snap | replaceMemory snap | prune kept =>
    obtain ⟨-, rfl⟩ := hstep
    exact Nat.le_refl _
  | readLastMembership | takeView =>
    obtain ⟨_, -, rfl⟩ := hstep
    exact Nat.le_refl _

/-- **Replicas never go back**: what was applied stays applied, whatever is installed and however
often a replica starts again. -/
theorem replicas_advance (hlog : (log.map Entry.logId).Pairwise (· < ·))
    (run : Run (Group.Step texts log) Group.initial es g) {es' : List (ι × HostEvent M R)}
    (run' : Run (Group.Step texts log) g es' g') (i : ι) :
    prefixLength log (g.hosts i).sm.db.lastAppliedLog ≤
      prefixLength log (g'.hosts i).sm.db.lastAppliedLog := by
  have hnodup : (log.map Entry.logId).Nodup := hlog.imp ne_of_lt
  refine (run'.invariant (P := fun g₁ : Group ι M => g₁.Inv texts log ∧
    prefixLength log (g.hosts i).sm.db.lastAppliedLog ≤
      prefixLength log (g₁.hosts i).sm.db.lastAppliedLog)
    ⟨Group.Inv.of_run hnodup run, Nat.le_refl _⟩ ?_).2
  rintro g₁ e g₂ ⟨hinv, hle⟩ hstep
  have hinv' := hinv.step hnodup hstep
  refine ⟨hinv', hle.trans ?_⟩
  obtain ⟨-, h', hhost, rfl⟩ := hstep
  by_cases hi : i = e.1
  · subst hi
    exact (hinv.hosts e.1).prefixLength_le hlog (hinv'.hosts e.1)
      (by simpa only [update_self] using hhost)
  · simp only [update_of_ne hi, Nat.le_refl]

theorem replicas_advance_restarted : ∃ g g' : Group Bool Unit,
    Run (Group.Step jsonForms quietLog) Group.initial installEvents g ∧
    Run (Group.Step jsonForms quietLog) g restartEvents g' ∧
    prefixLength quietLog (g.hosts true).sm.db.lastAppliedLog ≤
      prefixLength quietLog (g'.hosts true).sm.db.lastAppliedLog := by
  obtain ⟨g, g', run, run', -⟩ := exists_run_installEvents
  exact ⟨g, g', run, run', replicas_advance (by decide) run run' true⟩

end RustExample.OpenraftCluster
