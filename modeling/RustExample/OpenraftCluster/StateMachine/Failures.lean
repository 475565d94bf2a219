import RustExample.Foundation.CommitPoint
import RustExample.OpenraftCluster.StateMachine.Snapshot

/-!
# Failing calls of the state machine

Both calls that change a replica, the application of a batch and the installation of a snapshot,
consist of fallible steps, of one write of the database and of one change of the memory. A batch
fails only before it writes. An installation writes the snapshot files between its write of the
database and the replacement of the map in memory.

Source: `src/rocksstore_crud/state_machine.rs`.

* Every fallible step of a call has its outcome as an input of the call.
* A write batch reaches the database as a whole or not at all.
* Of the snapshot directory the listing is kept, as far as pruning depends on it.
-/

namespace RustExample.OpenraftCluster

variable {M R : Type}

/-- Calls that may fail. -/
abbrev SmM (M : Type) := Call (RocksStateMachine M) String

/-! ### Applying a batch -/

/-- The steps of a write of the database that may fail. -/
inductive DbStep where
  | serializeLogId | serializeMembership | iterate | writeBatch
  deriving DecidableEq

/-- An entry of the stream that a batch is read from. `readError` tells of a task command that one
of its reads of the database fails. -/
structure ApplyItem (M R : Type) where
  entry : Entry M
  responder : Option R
  readError : Option String := none

variable (texts : TextForms)

/-- The reads of the database while an entry is applied. -/
def ApplyItem.readDb (item : ApplyItem M R) : Except String Unit :=
  match item.entry.payload with
  | .normal (.task _) => attempt item.readError
  | .blank | .normal (.set ..) | .normal (.delete _) | .membership _ => .ok ()

/-- One round of the loop over the stream. -/
def applyItem (db : Db M) (b : Batch M R) (item : Except String (ApplyItem M R)) :
    Except String (Batch M R) := do
  let item ← item
  item.readDb
  applyEntry texts db b (item.entry, item.responder)

/-- Apply a batch: the responses sent and whether the scheduler was woken. -/
def applyCall (items : List (Except String (ApplyItem M R))) (faults : DbStep → Option String) :
    SmM M (List (R × Response) × Bool) := do
  let sm ← get
  let b ← .ofExcept (items.foldlM (applyItem texts sm.db) {})
  .ofExcept (if b.lastAppliedLog.isSome then attempt (faults .serializeLogId) else .ok ())
  .ofExcept (if b.lastMembership.isSome then attempt (faults .serializeMembership) else .ok ())
  .ofExcept (attempt (faults .writeBatch))
  modify fun sm =>
    { sm with db := sm.db.writeBatchSync ⟨b.smData, b.lastAppliedLog, b.lastMembership⟩ }
  modify fun sm => { sm with
    data := if b.dataChanges.isEmpty then sm.data else applyMemoryChanges sm.data b.dataChanges }
  return (b.responses, b.scheduleEvent)

/-! ### Installing a snapshot -/

/-- What decodes received data: the JSON reader, and the description of bytes that are no UTF-8. -/
structure SnapshotDecoder where
  deserialize : ByteArray → Except String (List (ByteArray × ByteArray))
  utf8Error : ByteArray → String

variable (decoder : SnapshotDecoder)

/-- Reads a text. -/
def decodeUtf8 (bytes : ByteArray) (what : String) : Except String String :=
  match String.fromUTF8? bytes with
  | some s => .ok s
  | none => .error (what ++ ": " ++ decoder.utf8Error bytes)

/-- Reads the pairs of a snapshot. -/
def decodeSnapshotData (data : List (ByteArray × ByteArray)) :
    Except String (List (String × String)) :=
  data.mapM fun p => do
    let key ← decodeUtf8 decoder p.1 "snapshot key"
    let value ← decodeUtf8 decoder p.2 "snapshot value"
    return (key, value)

/-- The steps that write the file of a snapshot. -/
inductive FileStep where
  | createDirAll | serialize | createFile | newEncoder | writeAll | finish | syncAll | fileMetadata
  | rename | syncDir
  deriving DecidableEq

/-- Writes a file, step by step. -/
def writeSnapshotFile (faults : FileStep → Option String) : Except String Unit := do
  attempt (faults .createDirAll)
  attempt (faults .serialize)
  attempt (faults .createFile)
  attempt (faults .newEncoder)
  attempt (faults .writeAll)
  attempt (faults .finish)
  attempt (faults .syncAll)
  attempt (faults .fileMetadata)
  attempt (faults .rename)
  attempt (faults .syncDir)

/-- An entry of the snapshot directory; a name that is no text is passed over. -/
structure DirEntry where
  name : Option String
  isFile : Bool

def snapshotTmpSuffix : String := ".tmp"

/-- How many snapshots are kept. -/
def snapshotRetainCount : ℕ := 3

/-- The files of a listing that count as snapshots. -/
def snapshotCandidates (listing : List DirEntry) : List DirEntry :=
  listing.filter fun entry =>
    entry.isFile && entry.name.any fun name => !name.endsWith snapshotTmpSuffix

/-- Remove all but the newest snapshot files. That a file cannot be removed is no error. -/
def pruneOldSnapshots (listing : Except String (List (Except String DirEntry)))
    (syncError : Option String) (keep : ℕ) : Except String Unit := do
  let entries ← listing
  let entries ← entries.mapM id
  if (snapshotCandidates entries).length ≤ keep then return () else attempt syncError

/-- The outcomes of the steps of an installation. -/
structure InstallFaults where
  db : DbStep → Option String
  file : FileStep → Option String
  listing : Except String (List (Except String DirEntry))
  pruneSync : Option String

/-- Replace the data and the metadata of the database, or fail before that. -/
def restoreSnapshotToDbCall (snap : Snapshot M) (faults : DbStep → Option String) :
    SmM M Unit := do
  .ofExcept (if snap.metadata.lastLogId.isSome then attempt (faults .serializeLogId) else .ok ())
  .ofExcept (attempt (faults .serializeMembership))
  .ofExcept (attempt (faults .iterate))
  .ofExcept (attempt (faults .writeBatch))
  modify fun sm => { sm with db := restoreSnapshotToDb sm.db snap }

/-- Installs what was received. -/
def installSnapshotCall (metadata : SnapshotMeta M) (received : ByteArray)
    (faults : InstallFaults) : SmM M Unit := do
  let snapshotData ← .ofExcept (decoder.deserialize received)
  let data ← .ofExcept (decodeSnapshotData decoder snapshotData)
  restoreSnapshotToDbCall ⟨metadata, data⟩ faults.db
  .ofExcept (writeSnapshotFile faults.file)
  .ofExcept (pruneOldSnapshots faults.listing faults.pruneSync snapshotRetainCount)
  modify fun sm => { sm with data := snapshotDataToMap data }

/-! ### Runs of calls -/

/-- The calls of a state machine with the outcomes of their steps. -/
inductive SmCall (M R : Type) where
  | apply (items : List (Except String (ApplyItem M R))) (faults : DbStep → Option String)
  | installSnapshot (metadata : SnapshotMeta M) (received : ByteArray) (faults : InstallFaults)

/-- The outcome of a call, without the responses, and the state machine that it leaves. -/
def SmCall.exec (sm : RocksStateMachine M) :
    SmCall M R → Except String Unit × RocksStateMachine M
  | .apply items faults =>
      Prod.map (Except.map fun _ => ()) id ((applyCall texts items faults).exec sm)
  | .installSnapshot metadata received faults =>
    (installSnapshotCall decoder metadata received faults).exec sm

/-- One call with its faults. -/
def SmCallStep (sm : RocksStateMachine M) (call : SmCall M R) (sm' : RocksStateMachine M) : Prop :=
  sm' = (call.exec texts decoder sm).2

/-- The state machine that is opened on a database. -/
def RocksStateMachine.new (db : Db M) : RocksStateMachine M := ⟨db, db.smData⟩

/-- The map in memory holds the contents of the database. -/
def RocksStateMachine.Agrees (sm : RocksStateMachine M) : Prop := sm.data = sm.db.smData

theorem RocksStateMachine.agrees_new (db : Db M) : (new db).Agrees := rfl

/-- A call that fails leaves the state machine as it was. -/
def FailsClean (sm : RocksStateMachine M) (call : SmCall M R) : Prop :=
  ∀ err sm', call.exec texts decoder sm = (.error err, sm') → sm' = sm

/-! ### When installations are whole -/

/-- The database is what the snapshot would make it. -/
structure Snapshot.Holds (snap : Snapshot M) (db : Db M) : Prop where
  smData : snapshotDataToMap snap.data = db.smData
  lastAppliedLog : snap.metadata.lastLogId = db.lastAppliedLog
  lastMembership : some snap.metadata.lastMembership = db.lastMembership

/-- No step of the restore of a database fails. -/
structure Restorable (metadata : SnapshotMeta M) (faults : DbStep → Option String) : Prop where
  serializeLogId : metadata.lastLogId.isSome → faults .serializeLogId = none
  serializeMembership : faults .serializeMembership = none
  iterate : faults .iterate = none
  writeBatch : faults .writeBatch = none

/-- The snapshot file is written and the directory pruned. -/
structure InstallFaults.FilesSucceed (faults : InstallFaults) : Prop where
  file : ∀ step, faults.file step = none
  prune : ∃ entries : List DirEntry, faults.listing = .ok (entries.map .ok) ∧
    (snapshotRetainCount < (snapshotCandidates entries).length → faults.pruneSync = none)

/-- An installation that gets to the snapshot files writes them, unless the snapshot was held. -/
def FilesFollow (sm : RocksStateMachine M) : SmCall M R → Prop
  | .apply _ _ => True
  | .installSnapshot metadata received faults =>
    ∀ data, (decoder.deserialize received >>= decodeSnapshotData decoder) = .ok data →
      Restorable metadata faults.db → Snapshot.Holds ⟨metadata, data⟩ sm.db ∨ faults.FilesSucceed

variable {snap : Snapshot M}

theorem Snapshot.holds_iff {db : Db M} :
    snap.Holds db ↔ restoreSnapshotToDb db snap = db := by
  constructor
  · rintro ⟨hdata, hlog, hmem⟩
    have hsm := (restoreSnapshotToDb_smData db snap).trans hdata
    obtain ⟨smData, lastAppliedLog, lastMembership⟩ := db
    simp only [restoreSnapshotToDb, Db.mk.injEq] at *
    exact ⟨hsm, hlog, hmem⟩
  · intro h
    exact ⟨(restoreSnapshotToDb_smData db snap).symm.trans (congrArg Db.smData h),
      congrArg Db.lastAppliedLog h, congrArg Db.lastMembership h⟩

/-! ### The steps of an installation -/

variable {u : Unit}

theorem writeSnapshotFile_eq_ok {faults : FileStep → Option String} :
    writeSnapshotFile faults = .ok u ↔ ∀ step, faults step = none := by
  simp only [writeSnapshotFile, bind_eq_ok, attempt_eq_ok, exists_const]
  constructor
  · rintro ⟨h₁, h₂, h₃, h₄, h₅, h₆, h₇, h₈, h₉, h₁₀⟩ step
    cases step <;> assumption
  · intro h
    exact ⟨h _, h _, h _, h _, h _, h _, h _, h _, h _, h _⟩

theorem mapM_id_eq_ok {ε α : Type} {l : List (Except ε α)} {as : List α} :
    l.mapM id = .ok as ↔ l = as.map .ok := by
  induction l generalizing as with
  | nil => cases as <;> simp
  | cons a l ih =>
    simp only [List.mapM_cons, id, bind_eq_ok, ih]
    constructor
    · rintro ⟨a', rfl, as', rfl, has⟩
      obtain rfl : a' :: as' = as := by simpa using has
      rfl
    · intro h
      cases as with
      | nil => cases h
      | cons a' as' =>
        obtain ⟨rfl, rfl⟩ := List.cons.inj h
        exact ⟨a', rfl, as', rfl, rfl⟩

theorem pruneOldSnapshots_eq_ok {listing : Except String (List (Except String DirEntry))}
    {syncError : Option String} {keep : ℕ} :
    pruneOldSnapshots listing syncError keep = .ok u ↔
      ∃ entries : List DirEntry, listing = .ok (entries.map .ok) ∧
        (keep < (snapshotCandidates entries).length → syncError = none) := by
  simp only [pruneOldSnapshots, bind_eq_ok, mapM_id_eq_ok]
  constructor
  · rintro ⟨_, hlisting, entries, rfl, h⟩
    refine ⟨entries, hlisting, fun hlt => ?_⟩
    simpa [Nat.not_le.mpr hlt] using h
  · rintro ⟨entries, hlisting, h⟩
    refine ⟨_, hlisting, entries, rfl, ?_⟩
    split_ifs with hle
    · rfl
    · exact attempt_eq_ok.mpr (h (Nat.not_le.mp hle))

variable {faults : DbStep → Option String}

theorem exec_restore_eq_ok {sm sm' : RocksStateMachine M} :
    (restoreSnapshotToDbCall snap faults).exec sm = (.ok u, sm') ↔
      Restorable snap.metadata faults ∧ sm' = { sm with db := restoreSnapshotToDb sm.db snap } := by
  have hid : (if snap.metadata.lastLogId.isSome then attempt (faults .serializeLogId)
      else .ok ()) = .ok () ↔ (snap.metadata.lastLogId.isSome → faults .serializeLogId = none) := by
    split_ifs with h <;> simp [h]
  simp only [restoreSnapshotToDbCall, Call.exec_ofExcept_bind_eq_ok]
  constructor
  · rintro ⟨⟨⟩, h₁, ⟨⟩, h₂, ⟨⟩, h₃, ⟨⟩, h₄, h⟩
    obtain ⟨-, rfl⟩ := Prod.mk.inj h
    exact ⟨⟨hid.mp h₁, attempt_eq_ok.mp h₂, attempt_eq_ok.mp h₃, attempt_eq_ok.mp h₄⟩, rfl⟩
  · rintro ⟨⟨h₁, h₂, h₃, h₄⟩, rfl⟩
    exact ⟨(), hid.mpr h₁, (), attempt_eq_ok.mpr h₂, (), attempt_eq_ok.mpr h₃, (),
      attempt_eq_ok.mpr h₄, rfl⟩

theorem restoreSnapshotToDbCall_atomic (snap : Snapshot M) (faults : DbStep → Option String) :
    (restoreSnapshotToDbCall snap faults).Atomic :=
  (Call.reads_ofExcept _).bind_atomic fun _ => (Call.reads_ofExcept _).bind_atomic fun _ =>
    (Call.reads_ofExcept _).bind_atomic fun _ => (Call.reads_ofExcept _).bind_atomic fun _ =>
      (Call.total_modify _).atomic

/-- **A batch is all or nothing.** All of its fallible steps stand before its write. -/
theorem applyCall_atomic (items : List (Except String (ApplyItem M R)))
    (faults : DbStep → Option String) : (applyCall texts items faults).Atomic := by
  refine Call.reads_get.bind_atomic fun sm => (Call.reads_ofExcept _).bind_atomic fun b => ?_
  refine (Call.reads_ofExcept _).bind_atomic fun _ => (Call.reads_ofExcept _).bind_atomic fun _ =>
    (Call.reads_ofExcept _).bind_atomic fun _ => Call.Total.atomic ?_
  exact (Call.total_modify _).bind fun _ => (Call.total_modify _).bind fun _ => Call.total_pure _

/-! ### What an installation leaves -/

section Install

variable {decoder : SnapshotDecoder} {metadata : SnapshotMeta M} {received : ByteArray}
  {faults : InstallFaults} {sm sm' : RocksStateMachine M}

/-- An installation that succeeds installs the snapshot, files included. -/
theorem install_of_ok
    (h : (installSnapshotCall decoder metadata received faults).exec sm = (.ok (), sm')) :
    ∃ data, (decoder.deserialize received >>= decodeSnapshotData decoder) = .ok data ∧
      faults.FilesSucceed ∧ sm' = sm.installSnapshot ⟨metadata, data⟩ := by
  simp only [installSnapshotCall, Call.exec_ofExcept_bind_eq_ok] at h
  obtain ⟨raw, hraw, data, hdata, h⟩ := h
  obtain ⟨⟨⟩, _, hrestore, h⟩ := Call.exec_bind_eq_ok.mp h
  obtain ⟨-, rfl⟩ := exec_restore_eq_ok.mp hrestore
  simp only [Call.exec_ofExcept_bind_eq_ok] at h
  obtain ⟨⟨⟩, hfile, ⟨⟩, hprune, hmodify⟩ := h
  obtain ⟨-, rfl⟩ := Prod.mk.inj hmodify
  exact ⟨data, bind_eq_ok.mpr ⟨raw, hraw, hdata⟩,
    ⟨writeSnapshotFile_eq_ok.mp hfile, pruneOldSnapshots_eq_ok.mp hprune⟩, rfl⟩

/-- A failed installation changed nothing, or replaced the database before the snapshot files. -/
theorem install_of_error {err : String}
    (h : (installSnapshotCall decoder metadata received faults).exec sm = (.error err, sm')) :
    sm' = sm ∨ ∃ data, (decoder.deserialize received >>= decodeSnapshotData decoder) = .ok data ∧
      Restorable metadata faults.db ∧ ¬faults.FilesSucceed ∧
        sm' = { sm with db := restoreSnapshotToDb sm.db ⟨metadata, data⟩ } := by
  rw [installSnapshotCall] at h
  rcases Call.exec_ofExcept_bind_eq_error.mp h with ⟨-, h⟩ | ⟨raw, hraw, h⟩
  · exact .inl h
  rcases Call.exec_ofExcept_bind_eq_error.mp h with ⟨-, h⟩ | ⟨data, hdata, h⟩
  · exact .inl h
  rcases Call.exec_bind_eq_error.mp h with h | ⟨⟨⟩, _, hrestore, h⟩
  · exact .inl (restoreSnapshotToDbCall_atomic _ _ _ _ _ h)
  obtain ⟨hdb, rfl⟩ := exec_restore_eq_ok.mp hrestore
  refine .inr ⟨data, bind_eq_ok.mpr ⟨raw, hraw, hdata⟩, hdb, ?_⟩
  rcases Call.exec_ofExcept_bind_eq_error.mp h with ⟨hfile, rfl⟩ | ⟨⟨⟩, hfile, h⟩
  · refine ⟨fun hall => ?_, rfl⟩
    rw [writeSnapshotFile_eq_ok (u := ()) |>.mpr hall.file] at hfile
    cases hfile
  rcases Call.exec_ofExcept_bind_eq_error.mp h with ⟨hprune, rfl⟩ | ⟨⟨⟩, -, h⟩
  · refine ⟨fun hall => ?_, rfl⟩
    rw [pruneOldSnapshots_eq_ok (u := ()) |>.mpr hall.prune] at hprune
    cases hprune
  · cases h

/-- Without the snapshot files an installation replaces the database and fails. -/
theorem exists_error_of_not_filesSucceed {data : List (String × String)}
    (hdata : (decoder.deserialize received >>= decodeSnapshotData decoder) = .ok data)
    (hdb : Restorable metadata faults.db) (hfiles : ¬faults.FilesSucceed) :
    ∃ err, (installSnapshotCall decoder metadata received faults).exec sm =
      (.error err, { sm with db := restoreSnapshotToDb sm.db ⟨metadata, data⟩ }) := by
  obtain ⟨raw, hraw, hdata⟩ := bind_eq_ok.mp hdata
  have hrestore : (restoreSnapshotToDbCall ⟨metadata, data⟩ faults.db).exec sm =
      (.ok (), { sm with db := restoreSnapshotToDb sm.db ⟨metadata, data⟩ }) :=
    exec_restore_eq_ok.mpr ⟨hdb, rfl⟩
  simp only [installSnapshotCall, Call.exec_bind, Call.exec_ofExcept, hraw, hdata, hrestore]
  cases hfile : writeSnapshotFile faults.file with
  | error err => exact ⟨err, rfl⟩
  | ok u =>
    cases hprune : pruneOldSnapshots faults.listing faults.pruneSync snapshotRetainCount with
    | error err => exact ⟨err, rfl⟩
    | ok u =>
      exact absurd ⟨writeSnapshotFile_eq_ok.mp hfile, pruneOldSnapshots_eq_ok.mp hprune⟩ hfiles

end Install

/-! ### What a batch leaves -/

variable {texts : TextForms} {decoder : SnapshotDecoder} {sm sm' : RocksStateMachine M}

/-- The entry of an item, as the batch sees it. -/
def ApplyItem.forBatch (item : ApplyItem M R) : Entry M × Option R := (item.entry, item.responder)

/-- A stream that was read to its end holds entries only, and they were applied in order. -/
theorem foldlM_applyItem_eq_ok {db : Db M} {items : List (Except String (ApplyItem M R))}
    {b b' : Batch M R} (h : items.foldlM (applyItem texts db) b = .ok b') :
    ∃ read : List (ApplyItem M R), items = read.map .ok ∧
      (read.map ApplyItem.forBatch).foldlM (applyEntry texts db) b = .ok b' := by
  obtain ⟨read, hitems, hread⟩ := foldlM_items_eq_ok (fun b item b' hitem => by
    obtain ⟨item, rfl, hround⟩ := bind_eq_ok.mp hitem
    obtain ⟨⟨⟩, -, hentry⟩ := bind_eq_ok.mp hround
    exact ⟨item, rfl, hentry⟩) h
  exact ⟨read, hitems, by rw [List.foldlM_map]; exact hread⟩

/-- A batch that succeeds applied the entries of its stream. -/
theorem apply_of_ok {items : List (Except String (ApplyItem M R))}
    {answers : List (R × Response) × Bool}
    (h : (applyCall texts items faults).exec sm = (.ok answers, sm')) :
    ∃ read : List (ApplyItem M R), items = read.map .ok ∧
      sm.apply texts (read.map ApplyItem.forBatch) = .ok ⟨sm', answers.1, answers.2⟩ := by
  obtain ⟨_, _, hget, h⟩ := Call.exec_bind_eq_ok.mp h
  obtain ⟨⟨rfl⟩, rfl⟩ := Prod.mk.inj hget
  simp only [Call.exec_ofExcept_bind_eq_ok] at h
  obtain ⟨b, hb, ⟨⟩, -, ⟨⟩, -, ⟨⟩, -, h⟩ := h
  obtain ⟨read, hitems, hread⟩ := foldlM_applyItem_eq_ok hb
  obtain ⟨hanswers, rfl⟩ := Prod.mk.inj h
  obtain ⟨⟩ := hanswers
  exact ⟨read, hitems, bind_eq_ok.mpr ⟨b, hread, rfl⟩⟩

/-! ### Memory and database -/

/-- A call that succeeds leaves memory and database in agreement. -/
theorem RocksStateMachine.Agrees.of_ok (h : sm.Agrees) {call : SmCall M R}
    (hcall : call.exec texts decoder sm = (.ok (), sm')) : sm'.Agrees := by
  cases call with
  | apply items faults =>
    obtain ⟨answers, hexec⟩ := Call.forget_eq_ok.mp hcall
    obtain ⟨read, -, happly⟩ := apply_of_ok hexec
    exact congrArg RocksStateMachine.data (memory_of_apply h happly)
  | installSnapshot metadata received faults =>
    obtain ⟨data, -, -, rfl⟩ := install_of_ok hcall
    exact (restoreSnapshotToDb_smData sm.db ⟨metadata, data⟩).symm

/-- A call fails clean exactly when no installation fails at its snapshot files. -/
theorem failsClean_iff {call : SmCall M R} :
    FailsClean texts decoder sm call ↔ FilesFollow decoder sm call := by
  cases call with
  | apply items faults =>
    refine iff_of_true (fun err sm' h => ?_) trivial
    exact applyCall_atomic texts items faults sm err sm' (Call.forget_eq_error.mp h)
  | installSnapshot metadata received faults =>
    constructor
    · intro h data hdata hdb
      by_contra hnot
      obtain ⟨hholds, hfiles⟩ := not_or.mp hnot
      obtain ⟨err, hexec⟩ := exists_error_of_not_filesSucceed hdata hdb hfiles
      have hdb' := congrArg RocksStateMachine.db (h err _ hexec)
      exact hholds (Snapshot.holds_iff.mpr hdb')
    · intro h err sm' hexec
      rcases install_of_error hexec with rfl | ⟨data, hdata, hdb, hfiles, rfl⟩
      · rfl
      · rw [Snapshot.holds_iff.mp ((h data hdata hdb).resolve_right hfiles)]

/-- A call after which memory and database agree again. -/
theorem RocksStateMachine.Agrees.step (h : sm.Agrees) {call : SmCall M R}
    (hclean : FailsClean texts decoder sm call) (hstep : SmCallStep texts decoder sm call sm') :
    sm'.Agrees := by
  obtain rfl := hstep
  cases hexec : call.exec texts decoder sm with
  | mk outcome sm' =>
    cases outcome with
    | ok u => exact h.of_ok hexec
    | error err => exact (hclean err sm' hexec).symm ▸ h

variable (texts decoder) in
/-- **Failing calls.** Memory and database agree after every call and every failed call changes
nothing, if and only if no installation fails at its snapshot files after it has replaced a database
by another one. -/
theorem calls_agree_iff (db : Db M) (calls : List (SmCall M R)) :
    (Run.Always (SmCallStep texts decoder) (.new db) RocksStateMachine.Agrees calls ∧
      Run.AtEvents (SmCallStep texts decoder) (.new db) (FailsClean texts decoder) calls) ↔
    Run.AtEvents (SmCallStep texts decoder) (.new db) (FilesFollow decoder) calls := by
  constructor
  · rintro ⟨-, hclean⟩ n sm call hrun hcall
    exact failsClean_iff.mp (hclean n sm call hrun hcall)
  · intro hfollow
    have hclean : Run.AtEvents (SmCallStep texts decoder) (.new db) (FailsClean texts decoder)
        calls := fun n sm call hrun hcall => failsClean_iff.mpr (hfollow n sm call hrun hcall)
    refine ⟨fun n sm hrun => ?_, hclean⟩
    exact (hrun.of_atEvents (hclean.take n)).invariant (RocksStateMachine.agrees_new db)
      fun _ _ _ h hstep => h.step hstep.2 hstep.1

/-! ### An installation without its snapshot file -/

/-- A decoder that reads one key with one value out of everything. -/
def keyDecoder : SnapshotDecoder where
  deserialize _ := .ok [("k".toUTF8, "v".toUTF8)]
  utf8Error _ := ""

def fullDisk : InstallFaults where
  db _ := none
  file step := if step = .writeAll then some "no space left on device" else none
  listing := .ok []
  pruneSync := none

/-- The installation of a snapshot on a full disk. -/
def fullDiskInstall : SmCall Unit Unit :=
  .installSnapshot ⟨none, ⟨none, ()⟩⟩ ByteArray.empty fullDisk

/-- **An installation is not all or nothing.** The snapshot file cannot be written: the database
holds the data of the snapshot, and the map in memory does not. -/
theorem failed_install_splits_state :
    (∃ err sm', fullDiskInstall.exec jsonForms keyDecoder (.new Db.initial) = (.error err, sm') ∧
      sm'.db.smData["k"]? = some "v" ∧ sm'.data["k"]? = none) ∧
    ¬(Run.Always (SmCallStep jsonForms keyDecoder) (.new Db.initial) RocksStateMachine.Agrees
        [fullDiskInstall]) ∧
    ¬(Run.AtEvents (SmCallStep jsonForms keyDecoder) (.new Db.initial)
        (FailsClean jsonForms keyDecoder) [fullDiskInstall]) := by
  have hdata : (keyDecoder.deserialize ByteArray.empty >>= decodeSnapshotData keyDecoder) =
      .ok [("k", "v")] := by
    decide
  have hfiles : ¬fullDisk.FilesSucceed := fun h => absurd (h.file .writeAll) (by decide)
  have hdb : Restorable (⟨none, ⟨none, ()⟩⟩ : SnapshotMeta Unit) fullDisk.db :=
    ⟨fun _ => rfl, rfl, rfl, rfl⟩
  let sm : RocksStateMachine Unit := .new Db.initial
  obtain ⟨err, hexec⟩ : ∃ err, fullDiskInstall.exec jsonForms keyDecoder sm =
      (.error err, { sm with db := restoreSnapshotToDb sm.db ⟨_, [("k", "v")]⟩ }) :=
    exists_error_of_not_filesSucceed hdata hdb hfiles
  have hk : (restoreSnapshotToDb sm.db ⟨⟨none, ⟨none, ()⟩⟩, [("k", "v")]⟩).smData["k"]? =
      some "v" := by
    rw [restoreSnapshotToDb_smData]
    rfl
  refine ⟨⟨err, _, hexec, hk, rfl⟩, fun halways => ?_, fun hclean => ?_⟩
  · have hrun : Run (SmCallStep jsonForms keyDecoder) sm [fullDiskInstall] _ := Run.nil.snoc rfl
    have hagree := halways 1 _ hrun
    rw [hexec] at hagree
    have hread := congrArg (·["k"]?) hagree
    exact absurd (hread.trans hk) nofun
  · have hdb' := congrArg (·.db.smData["k"]?) (hclean 0 sm fullDiskInstall .nil rfl err _ hexec)
    exact absurd (hk.symm.trans hdb') nofun

end RustExample.OpenraftCluster
