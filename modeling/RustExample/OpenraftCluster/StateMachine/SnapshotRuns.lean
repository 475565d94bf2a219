import RustExample.OpenraftCluster.StateMachine.SnapshotFiles
import RustExample.OpenraftCluster.StateMachine.SnapshotOrder

/-!
# Runs of snapshot tasks over one directory

Builds and installs write snapshot files into one directory and prune it, while the state machine
applies entries and the process restarts. The steps of a task interleave with those of the other.

Source: `src/rocksstore_crud/state_machine.rs`.

* At most one build is under way, and it takes its copy of the state machine while no install
  holds it; entries are applied while no install holds it.
* An install does not lead back behind the applied state.
* A task may fail before each of its steps, and the process may stop before each step.
* Pruning lists the directory first and removes the files one by one then; a removal may fail.
* A file that is being written has a temporary name, and is listed from its renaming on. What a
  stopped process leaves of one is there at the next start.
* The counter of the epochs stays below `2 ^ 64`.
* The UUIDs that are generated are a parameter, a list of their texts.
-/

namespace RustExample.OpenraftCluster.SnapshotDir

open Function List

variable {M : Type}

/-! ### The steps -/

/-- How far a task is. -/
inductive Stage (M : Type) where
  | started
  | described (metadata : SnapshotMeta M)
  | named (metadata : SnapshotMeta M) (fileId : String)
  | placed (metadata : SnapshotMeta M) (fileId : String) (epoch : ℕ)
  | restored (metadata : SnapshotMeta M) (fileId : String) (epoch : ℕ)
  | written
  | pruning (names : List String)

/-- The state machine as far as its snapshots go; `uuids` counts the UUIDs that were generated. -/
structure State (M : Type) where
  dir : List (DirFile M)
  applied : Option LogId
  nextEpoch : ℕ
  uuids : ℕ
  ownTmpMarker : String
  task : TaskKind → Option (Stage M)

/-- What may happen. -/
inductive Event (M : Type) where
  | apply (logId : LogId)
  | getSnapshotBuilder
  | getMeta (lastMembership : StoredMembership M)
  | installSnapshot (metadata : SnapshotMeta M)
  | newFileId (k : TaskKind)
  | takeEpoch (k : TaskKind)
  | restore
  | writeFile (k : TaskKind) (data : List (ByteArray × ByteArray))
  | listDir (k : TaskKind)
  | removeFile (k : TaskKind) (removed : Bool)
  | finish (k : TaskKind)
  | fail (k : TaskKind)
  | restart (ownTmpMarker : String) (leftovers : List (DirFile M))

/-- The last applied log id after the newest snapshot was restored, if it is ahead. -/
def recoverFromLatestSnapshotIfNewer (dir : List (DirFile M)) (applied : Option LogId) :
    Option LogId :=
  match readLatestSnapshotFile dir with
  | none => applied
  | some file =>
    if logRank file.metadata.lastLogId ≤ logRank applied then applied
    else file.metadata.lastLogId

/-- The state machine that is opened on a directory. -/
def State.new (applied : Option LogId) (ownTmpMarker : String) (uuids : ℕ)
    (dir : List (DirFile M)) : State M where
  dir := dir
  applied := recoverFromLatestSnapshotIfNewer dir applied
  nextEpoch := nextSnapshotEpoch dir
  uuids := uuids
  ownTmpMarker := ownTmpMarker
  task := fun _ => none

/-- A task comes to a stage. -/
def State.setTask (s : State M) (k : TaskKind) (stage : Option (Stage M)) : State M :=
  { s with task := update s.task k stage }

/-- The file of a snapshot. -/
def newFile (metadata : SnapshotMeta M) (fileId : String) (epoch : ℕ)
    (data : List (ByteArray × ByteArray)) : DirFile M :=
  ⟨snapshotFileName epoch fileId, true, some ⟨metadata, fileId, data⟩⟩

/-- The directory without the file of a name. -/
def without (dir : List (DirFile M)) (name : String) : List (DirFile M) :=
  dir.filter fun file => file.name ≠ name

/-- Rename a written file to its name. -/
def State.rename (s : State M) (k : TaskKind) (file : DirFile M) : State M :=
  { s.setTask k (some .written) with dir := file :: without s.dir file.name }

variable (leaderText : UInt64 → String → String) (nowV7 : List String)

/-- What an event does, if it may happen. -/
def step (s : State M) : Event M → Option (State M)
  | .apply logId =>
    match s.task .install with
    | none =>
      if logRank s.applied ≤ logRank (some logId) then some { s with applied := some logId }
      else none
    | some _ => none
  | .getSnapshotBuilder =>
    match s.task .build, s.task .install with
    | none, none => some (s.setTask .build (some .started))
    | _, _ => none
  | .getMeta lastMembership =>
    match s.task .build with
    | some .started => some (s.setTask .build (some (.described ⟨s.applied, lastMembership⟩)))
    | _ => none
  | .installSnapshot metadata =>
    match s.task .install with
    | none =>
      if logRank s.applied ≤ logRank metadata.lastLogId then
        some (s.setTask .install (some (.described metadata)))
      else none
    | some _ => none
  | .newFileId k =>
    match s.task k, nowV7[s.uuids]? with
    | some (.described metadata), some snapshotUuid =>
      let fileId := newSnapshotFileId leaderText metadata.lastLogId snapshotUuid
      some { s.setTask k (some (.named metadata fileId)) with uuids := s.uuids + 1 }
    | _, _ => none
  | .takeEpoch k =>
    match s.task k with
    | some (.named metadata fileId) =>
      if s.nextEpoch + 1 < 2 ^ 64 then
        some { s.setTask k (some (.placed metadata fileId s.nextEpoch)) with
          nextEpoch := s.nextEpoch + 1 }
      else none
    | _ => none
  | .restore =>
    match s.task .install with
    | some (.placed metadata fileId epoch) =>
      some { s.setTask .install (some (.restored metadata fileId epoch)) with
        applied := metadata.lastLogId }
    | _ => none
  | .writeFile k data =>
    match k, s.task k with
    | .build, some (.placed metadata fileId epoch)
    | .install, some (.restored metadata fileId epoch) =>
      some (s.rename k (newFile metadata fileId epoch data))
    | _, _ => none
  | .listDir k =>
    match s.task k with
    | some .written =>
      some (s.setTask k (some (.pruning
        (pruneOldSnapshots s.ownTmpMarker snapshotRetainCount s.dir))))
    | _ => none
  | .removeFile k removed =>
    match s.task k with
    | some (.pruning (name :: names)) =>
      some { s.setTask k (some (.pruning names)) with
        dir := if removed then without s.dir name else s.dir }
    | _ => none
  | .finish k =>
    match s.task k with
    | some (.pruning []) => some (s.setTask k none)
    | _ => none
  | .fail k =>
    match s.task k with
    | some _ => some (s.setTask k none)
    | none => none
  | .restart ownTmpMarker leftovers =>
    if (leftovers.all fun file => file.name.endsWith snapshotTmpSuffix) ∧
        ((s.dir ++ leftovers).map DirFile.name).Nodup then
      some (.new s.applied ownTmpMarker s.uuids (s.dir ++ leftovers))
    else none

/-- One event. -/
def Step (s : State M) (e : Event M) (s' : State M) : Prop := step leaderText nowV7 s e = some s'

/-! ### The timeline of a state -/

/-- The file id with the UUID of a number. -/
def IsFileId (lastLogId : Option LogId) (uuid : ℕ) (fileId : String) : Prop :=
  ∃ u, nowV7[uuid]? = some u ∧ fileId = newSnapshotFileId leaderText lastLogId u

/-- The file of a snapshot that took an epoch. -/
def IsFileOf (t : Ticket (WithBot LogId)) (file : DirFile M) : Prop :=
  ∃ metadata fileId data, logRank metadata.lastLogId = t.position ∧
    IsFileId leaderText nowV7 metadata.lastLogId t.uuid fileId ∧
      file = newFile metadata fileId t.epoch data

/-- The metadata, the id and the epoch of a task are those of a snapshot of the timeline. -/
def TracksTicket (metadata : SnapshotMeta M) (fileId : String) (epoch : ℕ)
    (t : Ticket (WithBot LogId)) : Prop :=
  logRank metadata.lastLogId = t.position ∧ epoch = t.epoch ∧
    IsFileId leaderText nowV7 metadata.lastLogId t.uuid fileId

/-- How far a task is, in the state and in the timeline. -/
def TracksTask : Option (Stage M) → Option (Phase (WithBot LogId)) → Prop
  | none, none => True
  | some .started, some (.started _) => True
  | some (.described metadata), some (.described _ position) =>
    logRank metadata.lastLogId = position
  | some (.named metadata fileId), some (.named _ position uuid) =>
    logRank metadata.lastLogId = position ∧
      IsFileId leaderText nowV7 metadata.lastLogId uuid fileId
  | some (.placed metadata fileId epoch), some (.placed t) =>
    TracksTicket leaderText nowV7 metadata fileId epoch t
  | some (.restored metadata fileId epoch), some (.restored t) =>
    TracksTicket leaderText nowV7 metadata fileId epoch t
  | some .written, some .done => True
  | some (.pruning _), some .done => True
  | _, _ => False

/-- A file that the run has written is in the directory under the name. -/
def InRun (dir : List (DirFile M)) (T : Timeline (WithBot LogId)) (name : String) : Prop :=
  ∃ t ∈ T.files, ∃ file ∈ dir, file.name = name ∧ IsFileOf leaderText nowV7 t file

/-- Two candidates come before the name in the order of pruning, and the first is of the run. -/
def Covered (dir : List (DirFile M)) (T : Timeline (WithBot LogId)) (name : String) : Prop :=
  ∃ a ∈ candidateNames dir, ∃ b ∈ candidateNames dir, pruneKey name < pruneKey a ∧
    pruneKey a < pruneKey b ∧ InRun leaderText nowV7 dir T b

/-- The file may be pruned. -/
def Removable (dir : List (DirFile M)) (T : Timeline (WithBot LogId)) (name : String) : Prop :=
  name.endsWith snapshotTmpSuffix = true ∨ Covered leaderText nowV7 dir T name

/-- The invariant of the runs from a directory of older files. -/
structure Inv (older : List (DirFile M)) (base : WithBot LogId) (s : State M)
    (T : Timeline (WithBot LogId)) : Prop where
  sound : T.Sound base
  applied : T.applied = logRank s.applied
  clock : T.clock = s.nextEpoch
  uuids : T.uuids = s.uuids
  task : ∀ k, TracksTask leaderText nowV7 (s.task k) (T.task k)
  small : ∀ t, T.Taken t → t.epoch < 2 ^ 64
  nodup : (s.dir.map DirFile.name).Nodup
  dir : ∀ file ∈ s.dir, file ∈ older ∨ file.name.endsWith snapshotTmpSuffix = true ∨
    ∃ t ∈ T.files, IsFileOf leaderText nowV7 t file
  older_lt : ∀ file ∈ s.dir, file ∈ older → isSnapshotCandidate file = true →
    epochOf file.name < T.clock ∧ ∀ t, T.Taken t → epochOf file.name < t.epoch
  written : ∀ k, s.task k = some .written → ∃ name, InRun leaderText nowV7 s.dir T name
  plans : ∀ k names, s.task k = some (.pruning names) → ∀ name ∈ names,
    Removable leaderText nowV7 s.dir T name

variable {leaderText : UInt64 → String → String} {nowV7 : List String}
  {older : List (DirFile M)} {base : WithBot LogId} {s s' : State M}
  {T T' : Timeline (WithBot LogId)} {k : TaskKind}

theorem logRank_injective : Function.Injective logRank := by
  intro a b h
  cases a <;> cases b <;> simp_all [logRank]

/-! ### The files of a run -/

namespace IsFileId

variable {lastLogId : Option LogId} {m n : ℕ} {fileId fileId' : String}

theorem ne_empty (h : IsFileId leaderText nowV7 lastLogId n fileId) : fileId ≠ "" := by
  obtain ⟨u, -, rfl⟩ := h
  exact newSnapshotFileId_ne_empty leaderText lastLogId u

theorem unique (h : IsFileId leaderText nowV7 lastLogId n fileId)
    (h' : IsFileId leaderText nowV7 lastLogId n fileId') : fileId = fileId' := by
  obtain ⟨u, hu, rfl⟩ := h
  obtain ⟨u', hu', rfl⟩ := h'
  rw [Option.some.inj (hu.symm.trans hu')]

theorem number_inj (hnodup : nowV7.Nodup) (h : IsFileId leaderText nowV7 lastLogId m fileId)
    (h' : IsFileId leaderText nowV7 lastLogId n fileId) : m = n := by
  obtain ⟨u, hu, rfl⟩ := h
  obtain ⟨u', hu', heq⟩ := h'
  obtain rfl : u = u' := by
    refine le_antisymm (not_lt.mp fun hlt => ?_) (not_lt.mp fun hlt => ?_)
    · exact absurd heq ((newSnapshotFileId_lt_iff leaderText _).mpr hlt).ne'
    · exact absurd heq ((newSnapshotFileId_lt_iff leaderText _).mpr hlt).ne
  exact (getElem?_inj (List.getElem?_eq_some_iff.mp hu).1 hnodup).mp (hu.trans hu'.symm)

/-- The file ids of one log id are in the order of their UUIDs. -/
theorem lt_of_lt (hsorted : nowV7.Pairwise (· < ·))
    (h : IsFileId leaderText nowV7 lastLogId m fileId)
    (h' : IsFileId leaderText nowV7 lastLogId n fileId') (hlt : m < n) : fileId < fileId' := by
  obtain ⟨u, hu, rfl⟩ := h
  obtain ⟨u', hu', rfl⟩ := h'
  obtain ⟨hm, rfl⟩ := List.getElem?_eq_some_iff.mp hu
  obtain ⟨hn, rfl⟩ := List.getElem?_eq_some_iff.mp hu'
  exact (newSnapshotFileId_lt_iff leaderText lastLogId).mpr
    (List.pairwise_iff_getElem.mp hsorted m n hm hn hlt)

end IsFileId

namespace IsFileOf

variable {t : Ticket (WithBot LogId)} {file : DirFile M}

theorem isCandidate (hdot : ∀ u ∈ nowV7, '.' ∉ u.toList)
    (h : IsFileOf leaderText nowV7 t file) : isSnapshotCandidate file = true := by
  obtain ⟨metadata, -, data, -, ⟨u, hu, rfl⟩, rfl⟩ := h
  simp [isSnapshotCandidate, newFile,
    not_tmp_snapshotFileName (hdot u (mem_of_getElem? hu))]

theorem epochOf_name (hsmall : t.epoch < 2 ^ 64) (h : IsFileOf leaderText nowV7 t file) :
    epochOf file.name = t.epoch := by
  obtain ⟨metadata, fileId, data, -, -, rfl⟩ := h
  exact epochOf_snapshotFileName hsmall _

/-- A file tells the position and the number of its snapshot. -/
theorem read (h : IsFileOf leaderText nowV7 t file) :
    ∃ snapshotFile, readSnapshotFile file = some snapshotFile ∧
      logRank snapshotFile.metadata.lastLogId = t.position ∧
      IsFileId leaderText nowV7 snapshotFile.metadata.lastLogId t.uuid snapshotFile.fileId := by
  obtain ⟨metadata, fileId, data, hposition, hid, rfl⟩ := h
  refine ⟨⟨metadata, fileId, data⟩, ?_, hposition, hid⟩
  simp [readSnapshotFile, newFile, hid.ne_empty]

theorem name_eq {other : DirFile M} (h : IsFileOf leaderText nowV7 t file)
    (h' : IsFileOf leaderText nowV7 t other) : file.name = other.name := by
  obtain ⟨metadata, fileId, data, hposition, hid, rfl⟩ := h
  obtain ⟨metadata', fileId', data', hposition', hid', rfl⟩ := h'
  obtain rfl := hid.unique (logRank_injective (hposition'.trans hposition.symm) ▸ hid')
  rfl

end IsFileOf

variable {dir : List (DirFile M)}

theorem mem_candidateNames {name : String} :
    name ∈ candidateNames dir ↔
      ∃ file ∈ dir, isSnapshotCandidate file = true ∧ file.name = name := by
  simp [candidateNames, and_assoc]

theorem not_tmp_of_mem {name : String} (h : name ∈ candidateNames dir) :
    name.endsWith snapshotTmpSuffix = false := by
  obtain ⟨file, -, hcand, rfl⟩ := mem_candidateNames.mp h
  simpa using (Bool.and_eq_true_iff.mp hcand).2

theorem InRun.mem (hdot : ∀ u ∈ nowV7, '.' ∉ u.toList) {name : String}
    (h : InRun leaderText nowV7 dir T name) : name ∈ candidateNames dir := by
  obtain ⟨t, -, file, hfile, hname, ht⟩ := h
  exact mem_candidateNames.mpr ⟨file, hfile, ht.isCandidate hdot, hname⟩

/-- A larger directory covers what a smaller one does. -/
theorem Covered.mono {dir' : List (DirFile M)} {name : String}
    (hnames : ∀ n, n ∈ candidateNames dir → n ∈ candidateNames dir')
    (hrun : ∀ n, InRun leaderText nowV7 dir T n → InRun leaderText nowV7 dir' T' n)
    (h : Covered leaderText nowV7 dir T name) : Covered leaderText nowV7 dir' T' name := by
  obtain ⟨a, ha, b, hb, hna, hab, hin⟩ := h
  exact ⟨a, hnames a ha, b, hnames b hb, hna, hab, hrun b hin⟩

/-! ### Removing a file -/

theorem mem_without {name : String} {file : DirFile M} :
    file ∈ without dir name ↔ file ∈ dir ∧ file.name ≠ name := by
  simp [without]

theorem mem_candidateNames_without {name n : String} (h : n ∈ candidateNames dir) (hne : n ≠ name) :
    n ∈ candidateNames (without dir name) := by
  obtain ⟨file, hfile, hcand, rfl⟩ := mem_candidateNames.mp h
  exact mem_candidateNames.mpr ⟨file, mem_without.mpr ⟨hfile, hne⟩, hcand, rfl⟩

theorem InRun.without {dir : List (DirFile M)} {name n : String}
    (h : InRun leaderText nowV7 dir T n) (hne : n ≠ name) :
    InRun leaderText nowV7 (without dir name) T n := by
  obtain ⟨t, ht, file, hfile, rfl, hof⟩ := h
  exact ⟨t, ht, file, mem_without.mpr ⟨hfile, hne⟩, rfl, hof⟩

/-- A name stays covered when a removable one goes: that is not in front of its cover. -/
theorem Covered.without {dir : List (DirFile M)} {name removed : String}
    (h : Covered leaderText nowV7 dir T name)
    (hremoved : Removable leaderText nowV7 dir T removed) :
    Covered leaderText nowV7 (without dir removed) T name := by
  obtain ⟨a, ha, b, hb, hna, hab, hin⟩ := h
  have hkeep {c : String} (hc : c ∈ candidateNames dir) (hne : c ≠ removed) :=
    mem_candidateNames_without hc hne
  rcases hremoved with htmp | ⟨c, hc, d, hd, hrc, hcd, hdin⟩
  · have hne {c : String} (hc : c ∈ candidateNames dir) : c ≠ removed := by
      rintro rfl
      rw [not_tmp_of_mem hc] at htmp
      cases htmp
    exact ⟨a, hkeep ha (hne ha), b, hkeep hb (hne hb), hna, hab, hin.without (hne hb)⟩
  have hc' : c ≠ removed := fun heq => lt_irrefl _ (heq ▸ hrc)
  have hd' : d ≠ removed := fun heq => lt_irrefl _ (heq ▸ hrc.trans hcd)
  by_cases hra : a = removed
  · subst hra
    exact ⟨c, hkeep hc hc', d, hkeep hd hd', hna.trans hrc, hcd, hdin.without hd'⟩
  by_cases hrb : b = removed
  · subst hrb
    exact ⟨c, hkeep hc hc', d, hkeep hd hd', (hna.trans hab).trans hrc, hcd, hdin.without hd'⟩
  exact ⟨a, hkeep ha hra, b, hkeep hb hrb, hna, hab, hin.without hrb⟩

/-- A file of the run stays when a removable one goes. -/
theorem InRun.exists_without (hdot : ∀ u ∈ nowV7, '.' ∉ u.toList) {name removed : String}
    (h : InRun leaderText nowV7 dir T name) (hremoved : Removable leaderText nowV7 dir T removed) :
    ∃ n, InRun leaderText nowV7 (SnapshotDir.without dir removed) T n := by
  rcases hremoved with htmp | ⟨a, -, b, -, hra, hab, hin⟩
  · refine ⟨name, h.without ?_⟩
    rintro rfl
    rw [not_tmp_of_mem (h.mem hdot)] at htmp
    cases htmp
  · exact ⟨b, hin.without fun heq => lt_irrefl _ (heq ▸ hra.trans hab)⟩

-- a stage and a phase compute whether one tracks the other
attribute [local simp] TracksTask

/-! ### Steps that leave the directory -/

/-- What a task is at when it neither has a file in the directory nor removes any. -/
def QuietStage : Option (Stage M) → Prop
  | some .written | some (.pruning _) => False
  | _ => True

variable {phase : Option (Phase (WithBot LogId))}

/-- A step of one task that leaves the directory. -/
theorem Inv.quiet (h : Inv leaderText nowV7 older base s T) {stage : Option (Stage M)}
    (hsound : T'.Sound base) (hdir : s'.dir = s.dir) (hfiles : T'.files = T.files)
    (htask : s'.task = update s.task k stage)
    (hphase : T'.task = update T.task k phase)
    (htracks : TracksTask leaderText nowV7 stage phase) (hquiet : QuietStage stage)
    (happlied : T'.applied = logRank s'.applied) (hclock : T'.clock = s'.nextEpoch)
    (huuids : T'.uuids = s'.uuids) (hle : T.clock ≤ T'.clock)
    (htaken : ∀ t, T'.Taken t → T.Taken t ∨ T.clock ≤ t.epoch ∧ t.epoch < 2 ^ 64) :
    Inv leaderText nowV7 older base s' T' := by
  have hold {k' : TaskKind} {st : Stage M} (hst : s'.task k' = some st)
      (hloud : ¬QuietStage (some st)) : s.task k' = some st := by
    rw [htask] at hst
    by_cases hk : k' = k
    · subst hk
      rw [update_self] at hst
      exact absurd (hst ▸ hquiet) hloud
    · rwa [update_of_ne hk] at hst
  have hrun {name : String} (hin : InRun leaderText nowV7 s.dir T name) :
      InRun leaderText nowV7 s'.dir T' name := by rwa [InRun, hfiles, hdir]
  refine ⟨hsound, happlied, hclock, huuids, fun k' => ?_, fun t ht => ?_, hdir ▸ h.nodup, ?_, ?_,
    fun k' hk' => ?_, fun k' names hk' name hname => ?_⟩
  · rw [htask, hphase]
    by_cases hk : k' = k
    · subst hk
      simpa using htracks
    · simpa [hk] using h.task k'
  · exact (htaken t ht).elim (h.small t) And.right
  · rw [hdir, hfiles]
    exact h.dir
  · rw [hdir]
    intro file hfile holder hcand
    obtain ⟨hlt, hall⟩ := h.older_lt file hfile holder hcand
    exact ⟨hlt.trans_le hle, fun t ht => (htaken t ht).elim (hall t) fun hnew =>
      hlt.trans_le hnew.1⟩
  · obtain ⟨name, hin⟩ := h.written k' (hold hk' id)
    exact ⟨name, hrun hin⟩
  · refine (h.plans k' names (hold hk' id) name hname).imp_right fun hcov => ?_
    exact hcov.mono (fun n hn => hdir ▸ hn) fun n => hrun

theorem Inv.phase_of_stage (h : Inv leaderText nowV7 older base s T) {stage : Option (Stage M)}
    (hk : s.task k = stage) : TracksTask leaderText nowV7 stage (T.task k) := hk ▸ h.task k

theorem tracksTask_none :
    TracksTask leaderText nowV7 (none : Option (Stage M)) phase ↔ phase = none := by
  cases phase <;> simp

theorem tracksTask_started :
    TracksTask leaderText nowV7 (some (.started : Stage M)) phase ↔
      ∃ since, phase = some (.started since) := by
  rcases phase with - | (_ | _ | _ | _ | _ | _) <;> simp

theorem tracksTask_described {metadata : SnapshotMeta M} :
    TracksTask leaderText nowV7 (some (.described metadata)) phase ↔
      ∃ since, phase = some (.described since (logRank metadata.lastLogId)) := by
  rcases phase with - | (_ | _ | _ | _ | _ | _) <;> simp [eq_comm]

variable {fileId : String}

theorem tracksTask_named {metadata : SnapshotMeta M} :
    TracksTask leaderText nowV7 (some (.named metadata fileId)) phase ↔
      ∃ since uuid, phase = some (.named since (logRank metadata.lastLogId) uuid) ∧
        IsFileId leaderText nowV7 metadata.lastLogId uuid fileId := by
  rcases phase with - | (_ | _ | _ | _ | _ | _) <;> simp
  exact fun _ => eq_comm

variable {epoch : ℕ}

theorem tracksTask_placed {metadata : SnapshotMeta M} :
    TracksTask leaderText nowV7 (some (.placed metadata fileId epoch)) phase ↔
      ∃ t, phase = some (.placed t) ∧
        TracksTicket leaderText nowV7 metadata fileId epoch t := by
  rcases phase with - | (_ | _ | _ | _ | _ | _) <;> simp

theorem tracksTask_restored {metadata : SnapshotMeta M} :
    TracksTask leaderText nowV7 (some (.restored metadata fileId epoch)) phase ↔
      ∃ t, phase = some (.restored t) ∧
        TracksTicket leaderText nowV7 metadata fileId epoch t := by
  rcases phase with - | (_ | _ | _ | _ | _ | _) <;> simp

/-- The events that leave the directory, and remove and plan nothing. -/
def Event.Quiet : Event M → Prop
  | .writeFile .. | .listDir _ | .removeFile .. | .restart .. => False
  | _ => True

theorem Inv.quiet_step (h : Inv leaderText nowV7 older base s T) {e : Event M} (he : e.Quiet)
    (hs : Step leaderText nowV7 s e s') :
    ∃ T', Inv leaderText nowV7 older base s' T' := by
  have hclear (k : TaskKind) : Inv leaderText nowV7 older base (s.setTask k none) (T.set k none) :=
    h.quiet (h.sound.clear k) rfl rfl rfl rfl trivial trivial h.applied h.clock h.uuids le_rfl
      fun t ht => .inl (Timeline.taken_of_set ht nofun)
  have hidle (hk : s.task .install = none) : T.task .install = none :=
    tracksTask_none.mp (h.phase_of_stage hk)
  cases e with
  | apply logId =>
    simp only [Step, SnapshotDir.step] at hs
    split at hs
    · rename_i hk
      split_ifs at hs with hle
      obtain ⟨⟩ := hs
      have hupdate {α : Type} {f : TaskKind → Option α} (hf : f .install = none) :
          f = update f .install none := by rw [← hf, update_eq_self]
      exact ⟨_, h.quiet (h.sound.apply (hidle hk) (h.applied.le.trans hle)) rfl rfl (hupdate hk)
        (hupdate (hidle hk)) trivial trivial rfl h.clock h.uuids le_rfl fun t ht => .inl ht⟩
    · cases hs
  | getSnapshotBuilder =>
    simp only [Step, SnapshotDir.step] at hs
    split at hs
    · rename_i hb hk
      obtain ⟨⟩ := hs
      exact ⟨_, h.quiet (h.sound.begin_build (hidle hk)) rfl rfl rfl rfl trivial trivial h.applied
        h.clock h.uuids le_rfl fun t ht => .inl (Timeline.taken_of_set ht nofun)⟩
    · cases hs
  | getMeta lastMembership =>
    simp only [Step, SnapshotDir.step] at hs
    split at hs
    · rename_i hk
      obtain ⟨⟩ := hs
      obtain ⟨since, hphase⟩ := tracksTask_started.mp (h.phase_of_stage hk)
      exact ⟨_, h.quiet (h.sound.describe hphase) rfl rfl rfl rfl h.applied.symm trivial h.applied
        h.clock h.uuids le_rfl fun t ht => .inl (Timeline.taken_of_set ht nofun)⟩
    · cases hs
  | installSnapshot metadata =>
    simp only [Step, SnapshotDir.step] at hs
    split at hs
    · rename_i hk
      split_ifs at hs with hle
      obtain ⟨⟩ := hs
      exact ⟨_, h.quiet (h.sound.begin_install (hidle hk) (h.applied.le.trans hle)) rfl rfl rfl
        rfl rfl trivial h.applied h.clock h.uuids le_rfl
        fun t ht => .inl (Timeline.taken_of_set ht nofun)⟩
    · cases hs
  | newFileId k =>
    simp only [Step, SnapshotDir.step] at hs
    split at hs
    · rename_i metadata u hk hu
      obtain ⟨⟩ := hs
      obtain ⟨since, hphase⟩ := tracksTask_described.mp (h.phase_of_stage hk)
      have hid : IsFileId leaderText nowV7 metadata.lastLogId T.uuids
          (newSnapshotFileId leaderText metadata.lastLogId u) := ⟨u, h.uuids ▸ hu, rfl⟩
      exact ⟨_, h.quiet (h.sound.name hphase) rfl rfl rfl rfl ⟨rfl, hid⟩ trivial
        h.applied h.clock (congrArg (· + 1) h.uuids) le_rfl
        fun t ht => .inl (Timeline.taken_of_update ht rfl (fun _ => .inl) nofun)⟩
    · cases hs
  | takeEpoch k =>
    simp only [Step, SnapshotDir.step] at hs
    split at hs
    · rename_i metadata fileId hk
      split_ifs at hs with hlt
      obtain ⟨⟩ := hs
      obtain ⟨since, uuid, hphase, hid⟩ := tracksTask_named.mp (h.phase_of_stage hk)
      refine ⟨_, h.quiet (h.sound.take hphase) rfl rfl rfl rfl ⟨rfl, h.clock.symm, hid⟩ trivial
        h.applied (congrArg (· + 1) h.clock) h.uuids (Nat.le_succ _) fun t ht => ?_⟩
      refine (Timeline.taken_of_take ht).imp_right ?_
      rintro rfl
      exact ⟨le_rfl, h.clock ▸ (Nat.lt_succ_self _).trans hlt⟩
    · cases hs
  | restore =>
    simp only [Step, SnapshotDir.step] at hs
    split at hs
    · rename_i metadata fileId epoch hk
      obtain ⟨⟩ := hs
      obtain ⟨t, hphase, hticket⟩ := tracksTask_placed.mp (h.phase_of_stage hk)
      refine ⟨_, h.quiet (h.sound.restore hphase) rfl rfl rfl rfl hticket trivial
        hticket.1.symm h.clock h.uuids le_rfl fun t' ht' => .inl ?_⟩
      refine Timeline.taken_of_update ht' rfl (fun _ => .inl) fun t'' ht'' => ?_
      obtain rfl : t = t'' := by simpa using ht''
      exact .inr ⟨_, .inl hphase⟩
    · cases hs
  | finish k =>
    simp only [Step, SnapshotDir.step] at hs
    split at hs
    · obtain ⟨⟩ := hs
      exact ⟨_, hclear k⟩
    · cases hs
  | fail k =>
    simp only [Step, SnapshotDir.step] at hs
    split at hs
    · obtain ⟨⟩ := hs
      exact ⟨_, hclear k⟩
    · cases hs
  | writeFile k data => exact he.elim
  | listDir k => exact he.elim
  | removeFile k removed => exact he.elim
  | restart marker leftovers => exact he.elim

/-! ### Steps that change the directory, or plan to -/

variable (leaderText nowV7) in
/-- No older file is one that the run writes. -/
def Unmade (older : List (DirFile M)) : Prop :=
  ∀ file ∈ older, ∀ t, ¬IsFileOf leaderText nowV7 t file

theorem Inv.write (hdot : ∀ u ∈ nowV7, '.' ∉ u.toList) (hmade : Unmade leaderText nowV7 older)
    (h : Inv leaderText nowV7 older base s T) {metadata : SnapshotMeta M}
    {data : List (ByteArray × ByteArray)} {t : Ticket (WithBot LogId)} (ht : T.Taken t)
    (hle : t.position ≤ T.applied)
    (hticket : TracksTicket leaderText nowV7 metadata fileId epoch t) :
    Inv leaderText nowV7 older base (s.rename k (newFile metadata fileId epoch data))
      (T.write k t) := by
  obtain ⟨hposition, rfl, hid⟩ := hticket
  generalize hfile : newFile metadata fileId t.epoch data = file
  have hof : IsFileOf leaderText nowV7 t file :=
    ⟨metadata, fileId, data, hposition, hid, hfile.symm⟩
  have htaken {t' : Ticket (WithBot LogId)} (ht' : (T.write k t).Taken t') : T.Taken t' := by
    refine Timeline.taken_of_update ht' rfl (fun t'' ht'' => ?_) nofun
    rcases List.mem_cons.mp ht'' with rfl | ht''
    · exact ht
    · exact .inl ht''
  have hnew : InRun leaderText nowV7 (s.rename k file).dir (T.write k t) file.name :=
    ⟨t, mem_cons_self, file, mem_cons_self, rfl, hof⟩
  have hnames : ∀ n, n ∈ candidateNames s.dir → n ∈ candidateNames (s.rename k file).dir := by
    intro n hn
    by_cases hne : n = file.name
    · exact hne ▸ hnew.mem hdot
    · obtain ⟨file', hfile', hcand, hname⟩ :=
        mem_candidateNames.mp (mem_candidateNames_without hn hne)
      exact mem_candidateNames.mpr ⟨file', mem_cons_of_mem _ hfile', hcand, hname⟩
  have hrun : ∀ n, InRun leaderText nowV7 s.dir T n →
      InRun leaderText nowV7 (s.rename k file).dir (T.write k t) n := by
    intro n hn
    by_cases hne : n = file.name
    · exact hne ▸ hnew
    · obtain ⟨t', ht', file', hfile', hname, hof'⟩ := hn.without hne
      exact ⟨t', mem_cons_of_mem _ ht', file', mem_cons_of_mem _ hfile', hname, hof'⟩
  refine ⟨h.sound.write ht hle, h.applied, h.clock, h.uuids, fun k' => ?_,
    fun t' ht' => h.small t' (htaken ht'), ?_, fun file' hfile' => ?_,
    fun file' hfile' holder hcand => ?_, fun k' hk' => ?_, fun k' names hk' name hname => ?_⟩
  · by_cases hk : k' = k
    · subst hk
      simp [State.rename, State.setTask, Timeline.write, Timeline.set]
    · simpa [State.rename, State.setTask, Timeline.write, Timeline.set, hk] using h.task k'
  · refine List.nodup_cons.mpr ⟨fun hmem => ?_, h.nodup.sublist (List.filter_sublist.map _)⟩
    obtain ⟨file', hfile', hname⟩ := List.mem_map.mp hmem
    exact (mem_without.mp hfile').2 hname
  · rcases List.mem_cons.mp hfile' with rfl | hfile'
    · exact .inr (.inr ⟨t, mem_cons_self, hof⟩)
    · refine (h.dir file' (mem_without.mp hfile').1).imp_right fun hor => hor.imp_right ?_
      rintro ⟨t', ht', hof'⟩
      exact ⟨t', mem_cons_of_mem _ ht', hof'⟩
  · rcases List.mem_cons.mp hfile' with rfl | hfile'
    · exact absurd hof (hmade _ holder t)
    · obtain ⟨hlt, hall⟩ := h.older_lt file' (mem_without.mp hfile').1 holder hcand
      exact ⟨hlt, fun t' ht' => hall t' (htaken ht')⟩
  · by_cases hk : k' = k
    · exact ⟨_, hnew⟩
    · rw [State.rename, State.setTask] at hk'
      obtain ⟨n, hn⟩ := h.written k' (by simpa [hk] using hk')
      exact ⟨n, hrun n hn⟩
  · by_cases hk : k' = k
    · subst hk
      simp [State.rename, State.setTask] at hk'
    · rw [State.rename, State.setTask] at hk'
      exact (h.plans k' names (by simpa [hk] using hk') name hname).imp_right
        (Covered.mono hnames hrun)

theorem tracksTask_written :
    TracksTask leaderText nowV7 (some (.written : Stage M)) phase ↔ phase = some .done := by
  rcases phase with - | (_ | _ | _ | _ | _ | _) <;> simp

theorem tracksTask_pruning {names : List String} :
    TracksTask leaderText nowV7 (some (.pruning names : Stage M)) phase ↔
      phase = some .done := by
  rcases phase with - | (_ | _ | _ | _ | _ | _) <;> simp

/-- **What a prune plans to remove is removable**: the task's file, or one that was written later,
is still there, so that the first of the order is of the run. -/
theorem Inv.removable_of_mem_prune (hdot : ∀ u ∈ nowV7, '.' ∉ u.toList)
    (h : Inv leaderText nowV7 older base s T) (hk : s.task k = some .written) {name : String}
    (hname : name ∈ pruneOldSnapshots s.ownTmpMarker snapshotRetainCount s.dir) :
    Removable leaderText nowV7 s.dir T name := by
  refine (two_above_of_mem_prune (by decide) h.nodup hname).imp_right ?_
  rintro ⟨a, ha, b, hb, hna, hab, hmax⟩
  refine ⟨a, ha, b, hb, hna, hab, ?_⟩
  obtain ⟨n, hn⟩ := h.written k hk
  have hle := hmax n (hn.mem hdot)
  obtain ⟨t, ht, file, hfile, rfl, hof⟩ := hn
  obtain ⟨fileb, hfileb, hcand, rfl⟩ := mem_candidateNames.mp hb
  rcases h.dir fileb hfileb with holder | htmp | ⟨tb, htb, hofb⟩
  · -- an older file has a smaller epoch
    have hlt := (h.older_lt fileb hfileb holder hcand).2 t (.inl ht)
    rw [← hof.epochOf_name (h.small t (.inl ht))] at hlt
    exact absurd (pruneKey_lt_of_epochOf_lt hlt) (not_lt.mpr hle)
  · rw [not_tmp_of_mem hb] at htmp
    cases htmp
  · exact ⟨tb, htb, fileb, hfileb, rfl, hofb⟩

theorem Inv.list (hdot : ∀ u ∈ nowV7, '.' ∉ u.toList)
    (h : Inv leaderText nowV7 older base s T) (hk : s.task k = some .written) :
    Inv leaderText nowV7 older base (s.setTask k (some (.pruning
      (pruneOldSnapshots s.ownTmpMarker snapshotRetainCount s.dir)))) T := by
  have hdone := tracksTask_written.mp (h.phase_of_stage hk)
  refine ⟨h.sound, h.applied, h.clock, h.uuids, fun k' => ?_, h.small, h.nodup, h.dir,
    h.older_lt, fun k' hk' => ?_, fun k' names hk' => ?_⟩
  · by_cases hkk : k' = k
    · subst hkk
      simp [State.setTask, hdone]
    · simpa [State.setTask, hkk] using h.task k'
  · exact h.written k hk
  · by_cases hkk : k' = k
    · subst hkk
      obtain rfl : _ = names := by simpa [State.setTask] using hk'
      exact fun name hname => h.removable_of_mem_prune hdot hk hname
    · exact h.plans k' names (by simpa [State.setTask, hkk] using hk')

theorem Inv.remove (hdot : ∀ u ∈ nowV7, '.' ∉ u.toList)
    (h : Inv leaderText nowV7 older base s T) {name : String} {names : List String}
    (hk : s.task k = some (.pruning (name :: names))) (removed : Bool) :
    Inv leaderText nowV7 older base { s.setTask k (some (.pruning names)) with
      dir := if removed then without s.dir name else s.dir } T := by
  have hdone := tracksTask_pruning.mp (h.phase_of_stage hk)
  have hremovable := h.plans k _ hk name mem_cons_self
  generalize hdir : (if removed then without s.dir name else s.dir) = dir
  have hsub : dir.Sublist s.dir := by
    rw [← hdir]
    split_ifs
    · exact filter_sublist
    · exact List.Sublist.refl _
  have hin {n : String} (hn : InRun leaderText nowV7 s.dir T n) :
      ∃ n, InRun leaderText nowV7 dir T n := by
    rw [← hdir]
    split_ifs
    · exact hn.exists_without hdot hremovable
    · exact ⟨n, hn⟩
  have hcov {n : String} (hn : Removable leaderText nowV7 s.dir T n) :
      Removable leaderText nowV7 dir T n := by
    rw [← hdir]
    split_ifs
    · exact hn.imp_right fun hc => hc.without hremovable
    · exact hn
  refine ⟨h.sound, h.applied, h.clock, h.uuids, fun k' => ?_, h.small,
    h.nodup.sublist (hsub.map _), fun file hfile => h.dir file (hsub.subset hfile),
    fun file hfile => h.older_lt file (hsub.subset hfile), fun k' hk' => ?_,
    fun k' names' hk' n hn => ?_⟩
  · by_cases hkk : k' = k
    · subst hkk
      simp [State.setTask, hdone]
    · simpa [State.setTask, hkk] using h.task k'
  · by_cases hkk : k' = k
    · subst hkk
      simp [State.setTask] at hk'
    · obtain ⟨n, hn⟩ := h.written k' (by simpa [State.setTask, hkk] using hk')
      exact hin hn
  · by_cases hkk : k' = k
    · subst hkk
      obtain rfl : names = names' := by simpa [State.setTask] using hk'
      exact hcov (h.plans k' _ hk n (mem_cons_of_mem _ hn))
    · exact hcov (h.plans k' names' (by simpa [State.setTask, hkk] using hk') n hn)

theorem logRank_le_recover (dir : List (DirFile M)) (applied : Option LogId) :
    logRank applied ≤ logRank (recoverFromLatestSnapshotIfNewer dir applied) := by
  unfold recoverFromLatestSnapshotIfNewer
  split
  · exact le_rfl
  · split_ifs with h
    · exact le_rfl
    · exact (not_le.mp h).le

/-- The process starts again: the snapshots are those found in the directory. -/
theorem Inv.restart (h : Inv leaderText nowV7 older base s T) {leftovers : List (DirFile M)}
    (htmp : ∀ file ∈ leftovers, file.name.endsWith snapshotTmpSuffix = true)
    (hnodup : ((s.dir ++ leftovers).map DirFile.name).Nodup) (ownTmpMarker : String) :
    ∃ T', Inv leaderText nowV7 older base
      (State.new s.applied ownTmpMarker s.uuids (s.dir ++ leftovers)) T' := by
  classical
  let files := T.files.filter fun t => ∃ file ∈ s.dir, IsFileOf leaderText nowV7 t file
  have hfiles : ∀ t ∈ files, t ∈ T.files := fun t ht => (List.mem_filter.mp ht).1
  have hclock : ∀ t ∈ files, t.epoch < nextSnapshotEpoch (s.dir ++ leftovers) := by
    intro t ht
    obtain ⟨hmem, hfile⟩ := List.mem_filter.mp ht
    obtain ⟨file, hfile, hof⟩ := of_decide_eq_true hfile
    rw [← hof.epochOf_name (h.small t (.inl hmem))]
    exact epochOf_lt_nextSnapshotEpoch (mem_append_left _ hfile)
  have hle : T.applied ≤
      logRank (recoverFromLatestSnapshotIfNewer (s.dir ++ leftovers) s.applied) :=
    h.applied.le.trans (logRank_le_recover _ _)
  refine ⟨_, h.sound.restart hle hfiles hclock, rfl, rfl, h.uuids, fun _ => trivial,
    fun t ht => h.small t (.inl (hfiles t (Timeline.taken_idle.mp ht))), hnodup,
    fun file hfile => ?_, fun file hfile holder hcand => ?_, nofun, nofun⟩
  · rcases List.mem_append.mp hfile with hfile | hfile
    · refine (h.dir file hfile).imp_right fun hor => hor.imp_right ?_
      rintro ⟨t, ht, hof⟩
      exact ⟨t, List.mem_filter.mpr ⟨ht, decide_eq_true ⟨file, hfile, hof⟩⟩, hof⟩
    · exact .inr (.inl (htmp file hfile))
  · refine ⟨epochOf_lt_nextSnapshotEpoch hfile, fun t ht => ?_⟩
    rcases List.mem_append.mp hfile with hfile | hfile
    · exact (h.older_lt file hfile holder hcand).2 t
        (.inl (hfiles t (Timeline.taken_idle.mp ht)))
    · have hname := not_tmp_of_mem (mem_candidateNames.mpr ⟨file, hfile, hcand, rfl⟩)
      rw [htmp file hfile] at hname
      cases hname

/-! ### Runs -/

theorem Inv.step (hdot : ∀ u ∈ nowV7, '.' ∉ u.toList)
    (hmade : Unmade leaderText nowV7 older)
    (h : Inv leaderText nowV7 older base s T) {e : Event M}
    (hs : Step leaderText nowV7 s e s') : ∃ T', Inv leaderText nowV7 older base s' T' := by
  cases e with
  | writeFile k data =>
    simp only [Step, SnapshotDir.step] at hs
    split at hs
    · rename_i metadata fileId epoch hk
      obtain ⟨⟩ := hs
      obtain ⟨t, hphase, hticket⟩ := tracksTask_placed.mp (h.phase_of_stage hk)
      exact ⟨_, h.write hdot hmade (.inr ⟨_, .inl hphase⟩) (h.sound.phase _ _ hphase).2
        hticket⟩
    · rename_i metadata fileId epoch hk
      obtain ⟨⟩ := hs
      obtain ⟨t, hphase, hticket⟩ := tracksTask_restored.mp (h.phase_of_stage hk)
      exact ⟨_, h.write hdot hmade (.inr ⟨_, .inr hphase⟩) (h.sound.phase _ _ hphase).2
        hticket⟩
    · cases hs
  | listDir k =>
    simp only [Step, SnapshotDir.step] at hs
    split at hs
    · rename_i hk
      obtain ⟨⟩ := hs
      exact ⟨T, h.list hdot hk⟩
    · cases hs
  | removeFile k removed =>
    simp only [Step, SnapshotDir.step] at hs
    split at hs
    · rename_i name names hk
      obtain ⟨⟩ := hs
      exact ⟨T, h.remove hdot hk removed⟩
    · cases hs
  | restart ownTmpMarker leftovers =>
    simp only [Step, SnapshotDir.step] at hs
    split_ifs at hs with hguard
    obtain ⟨⟩ := hs
    exact h.restart (List.all_eq_true.mp hguard.1) hguard.2 ownTmpMarker
  | apply | getSnapshotBuilder | getMeta | installSnapshot | newFileId | takeEpoch | restore
  | finish | fail =>
    refine h.quiet_step ?_ hs
    trivial

variable (leaderText nowV7 older) in
/-- A state machine opened on older files: their names differ, no two rank the same, and none has an
id that will be given. -/
structure Start (s : State M) : Prop where
  new : ∃ applied ownTmpMarker uuids, s = State.new applied ownTmpMarker uuids older
  nodup : (older.map DirFile.name).Nodup
  ranksApart : RanksApart older
  fresh : ∀ file ∈ readable older, ∀ lastLogId, ∀ u ∈ nowV7,
    file.fileId ≠ newSnapshotFileId leaderText lastLogId u

theorem Start.unmade (hdot : ∀ u ∈ nowV7, '.' ∉ u.toList)
    (h : Start leaderText nowV7 older s) :
    Unmade leaderText nowV7 older := by
  intro file hfile t hof
  obtain ⟨snapshotFile, hread, -, u, hu, hid⟩ := hof.read
  exact h.fresh snapshotFile (mem_readable.mpr ⟨file, hfile, hof.isCandidate hdot, hread⟩) _ u
    (mem_of_getElem? hu) hid

theorem Start.inv (h : Start leaderText nowV7 older s) :
    Inv leaderText nowV7 older (logRank s.applied) s
      (.idle (logRank s.applied) s.nextEpoch s.uuids []) := by
  obtain ⟨applied, ownTmpMarker, uuids, rfl⟩ := h.new
  exact ⟨Timeline.Sound.start _ _ _, rfl, rfl, rfl, fun _ => trivial, by simp, h.nodup,
    fun file hfile => .inl hfile,
    fun file hfile _ _ => ⟨epochOf_lt_nextSnapshotEpoch hfile, by simp⟩, nofun, nofun⟩

/-- **Every state of a run has a timeline.** -/
theorem exists_inv_of_run (hdot : ∀ u ∈ nowV7, '.' ∉ u.toList) {s₀ : State M}
    (h : Start leaderText nowV7 older s₀) {es : List (Event M)}
    (run : Run (Step leaderText nowV7) s₀ es s) :
    ∃ T, Inv leaderText nowV7 older (logRank s₀.applied) s T :=
  run.invariant (P := fun s => ∃ T, Inv leaderText nowV7 older (logRank s₀.applied) s T)
    ⟨_, h.inv⟩ fun _ _ _ ⟨_, hinv⟩ hs => hinv.step hdot (h.unmade hdot) hs

end RustExample.OpenraftCluster.SnapshotDir
