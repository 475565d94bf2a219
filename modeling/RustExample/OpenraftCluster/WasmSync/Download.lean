import Mathlib.Data.Finset.Card
import RustExample.OpenraftCluster.WasmSync.Manifest

/-!
# Partial downloads

A download in progress is two files named by the content hash: the part file has the bytes, of
full size from the start, and the meta file has the manifest and the set of received chunks. A
call does its work in steps on the disk, one file operation after another, and a process that
dies leaves the disk as it was between two of them, or in the middle of a write.

Source: `src/wasm_sync/downloader.rs`.

* A meta file that does not decode is as good as none.
* A file written beside another and renamed over it replaces it as a whole.
* Nobody else touches the files of a download.
-/

namespace RustExample.OpenraftCluster

/-! ### Files -/

/-- A download, as it is stored. -/
structure PartialMeta where
  manifest : WasmModuleManifest
  received : Finset ℕ
deriving DecidableEq

/-- The files of the downloads of one content hash, and the modules by name. A temporary file starts
with a dot, so that it is no module. -/
structure ModuleDisk where
  part : Option (List UInt8)
  partMeta : Option PartialMeta
  installing : Option (List UInt8)
  store : String → Option (List UInt8)

/-- A download in memory. -/
structure PartialDownload where
  manifest : WasmModuleManifest
  received : Finset ℕ
deriving DecidableEq

/-- The writes of a download. -/
inductive DownloadOp
  | setLen (size : ℕ)
  | writeAt (offset : ℕ) (data : List UInt8)
  | persistMeta (stored : PartialMeta)
  | keep (d : PartialDownload)
  | writeTmp (bytes : List UInt8)
  | rename (name : String)
  | removePart
  | removeMeta
deriving DecidableEq

namespace DownloadOp

/-- Performs a write. -/
def apply : DownloadOp → ModuleDisk → ModuleDisk
  | setLen size, disk => { disk with part := some (ByteFile.setLen size (disk.part.getD [])) }
  | writeAt offset data, disk =>
      { disk with part := disk.part.map fun file => ByteFile.writeAt file offset data }
  -- written beside the meta file and renamed over it
  | persistMeta stored, disk => { disk with partMeta := some stored }
  | keep _, disk => disk
  | writeTmp bytes, disk => { disk with installing := some bytes }
  | rename name, disk =>
      match disk.installing with
      | none => disk
      | some bytes =>
          { disk with installing := none, store := Function.update disk.store name (some bytes) }
  | removePart, disk => { disk with part := none }
  | removeMeta, disk => { disk with partMeta := none }

theorem apply_rename {disk : ModuleDisk} {bytes : List UInt8}
    (h : disk.installing = some bytes) (name : String) :
    (rename name).apply disk =
      { disk with installing := none, store := Function.update disk.store name (some bytes) } := by
  rw [apply, h]

/-- What an interrupted operation leaves: a write of `k` bytes, in a file that may be new. -/
def torn (k : ℕ) : DownloadOp → ModuleDisk → ModuleDisk
  | setLen _, disk => { disk with part := some (disk.part.getD []) }
  | writeAt offset data, disk => (writeAt offset (data.take k)).apply disk
  | writeTmp bytes, disk => (writeTmp (bytes.take k)).apply disk
  | _, disk => disk

/-- The download in memory after an operation. -/
def kept : DownloadOp → Option PartialDownload → Option PartialDownload
  | keep d, _ => some d
  | _, memory => memory

/-- Failures of the removals are ignored. -/
def isRemoval : DownloadOp → Bool
  | removePart | removeMeta => true
  | _ => false

/-- The file operations whose failure ends the call. -/
def canFail : DownloadOp → Bool
  | keep _ | removePart | removeMeta => false
  | _ => true

end DownloadOp

/-! ### Calls -/

/-- Why a download fails. -/
inductive DownloadError
  | manifestDiffers
  | outOfRange (index chunks : ℕ)
  | failedVerification (index : ℕ)
  | incomplete (received chunks : ℕ)
  | unreadablePart
  | partSize (actual expected : ℕ)
  | sha256Mismatch (expected actual : String)
  | appeared (name : String)
deriving DecidableEq, Repr

/-- The chunk at an index. -/
def readChunk (file : List UInt8) (m : WasmModuleManifest) (index : ℕ) : Option (List UInt8) :=
  ByteFile.readExact file (m.chunkOffset index) (m.chunkLen index)

/-- The chunks that the meta file claims and the part file has. -/
def loadAndVerifyMeta (h : ModuleHashes) (disk : ModuleDisk) (m : WasmModuleManifest) :
    Except DownloadError (Finset ℕ) :=
  match disk.partMeta, disk.part with
  | some stored, some file =>
      if stored.manifest ≠ m then .error .manifestDiffers
      else .ok (stored.received.filter fun index =>
        index < m.chunkCount ∧ (readChunk file m index).any (m.verifyChunk h index) = true)
  | _, _ => .ok ∅

/-- An unusable state restarts from zero. -/
def recovered (h : ModuleHashes) (disk : ModuleDisk) (m : WasmModuleManifest) : Finset ℕ :=
  match loadAndVerifyMeta h disk m with
  | .ok received => received
  | .error _ => ∅

/-- Opens a download, or goes on with it. -/
def PartialDownload.open (h : ModuleHashes) (disk : ModuleDisk) (m : WasmModuleManifest) :
    List DownloadOp :=
  let received := recovered h disk m
  [.setLen m.size, .persistMeta ⟨m, received⟩, .keep ⟨m, received⟩]

namespace PartialDownload

variable (h : ModuleHashes) (d : PartialDownload)

/-- How many chunks have come. -/
def receivedCount : ℕ := d.received.card % 2 ^ 32

/-- All chunks have come. -/
def isComplete : Bool := d.receivedCount == d.manifest.chunkCount

/-- Bytes are on the disk before the chunk is counted, and counted before it is claimed. -/
def writeChunk (index : ℕ) (data : List UInt8) : Except DownloadError (List DownloadOp) :=
  if d.manifest.chunkCount ≤ index then .error (.outOfRange index d.manifest.chunkCount)
  else if index ∈ d.received then .ok []
  else if d.manifest.verifyChunk h index data = false then .error (.failedVerification index)
  else
    let received := insert index d.received
    .ok [.writeAt (d.manifest.chunkOffset index) data, .keep ⟨d.manifest, received⟩,
      .persistMeta ⟨d.manifest, received⟩]

/-- Removes what was downloaded. -/
def discard : List DownloadOp := [.removePart, .removeMeta]

/-- What is done on the disk, and the answer once it is done. -/
def install (disk : ModuleDisk) : List DownloadOp × Except DownloadError String :=
  if d.isComplete = false then
    ([], .error (.incomplete d.receivedCount d.manifest.chunkCount))
  else
    match disk.part with
    | none => ([], .error .unreadablePart)
    | some bytes =>
        if bytes.length ≠ d.manifest.size then
          ([], .error (.partSize bytes.length d.manifest.size))
        else if moduleHash h bytes ≠ d.manifest.sha256 then
          (discard, .error (.sha256Mismatch d.manifest.sha256 (moduleHash h bytes)))
        else if (disk.store d.manifest.name).isSome then
          (discard, .error (.appeared d.manifest.name))
        else
          (.writeTmp bytes :: .rename d.manifest.name :: discard, .ok d.manifest.name)

end PartialDownload

/-! ### What a re-open takes over -/

/-- A chunk of the part file that satisfies `φ`. -/
def HoldsChunk (φ : WasmModuleManifest → ℕ → List UInt8 → Prop) (file : List UInt8)
    (m : WasmModuleManifest) (i : ℕ) : Prop :=
  ∃ data, readChunk file m i = some data ∧ φ m i data

/-- The chunks that pass their own hash. -/
def Verified (h : ModuleHashes) (m : WasmModuleManifest) (i : ℕ) (data : List UInt8) : Prop :=
  m.verifyChunk h i data = true

variable {disk : ModuleDisk}

/-- **What a re-open takes over:** claimed chunks in range whose bytes pass their hash. -/
theorem mem_recovered {h : ModuleHashes} {m : WasmModuleManifest} {i : ℕ}
    (hi : i ∈ recovered h disk m) :
    i < m.chunkCount ∧ ∃ file, disk.part = some file ∧ HoldsChunk (Verified h) file m i := by
  rw [recovered, loadAndVerifyMeta] at hi
  split at hi
  · rename_i received heq
    split at heq
    · rename_i stored file _ hfile
      obtain ⟨-, heq⟩ := guard_eq_ok.mp heq
      obtain ⟨⟩ := heq
      obtain ⟨-, hlt, hany⟩ := Finset.mem_filter.mp hi
      obtain ⟨data, hdata, hv⟩ := (Option.any_eq_true _ _).mp hany
      exact ⟨hlt, file, hfile, data, hdata, hv⟩
    · obtain ⟨⟩ := heq
      cases hi
  · cases hi

/-! ### What the calls do -/

namespace PartialDownload

variable {h : ModuleHashes} {d : PartialDownload}

theorem writeChunk_eq_ok {i : ℕ} {data : List UInt8} {ops : List DownloadOp} :
    d.writeChunk h i data = .ok ops ↔
      i < d.manifest.chunkCount ∧
        (i ∈ d.received ∧ ops = [] ∨
          i ∉ d.received ∧ d.manifest.verifyChunk h i data = true ∧
            ops = [.writeAt (d.manifest.chunkOffset i) data,
              .keep ⟨d.manifest, insert i d.received⟩,
              .persistMeta ⟨d.manifest, insert i d.received⟩]) := by
  rw [writeChunk, guard_eq_ok, Nat.not_le]
  refine and_congr_right fun _ => ?_
  by_cases hi : i ∈ d.received
  · rw [if_pos hi]
    constructor
    · intro hops
      exact .inl ⟨hi, (Except.ok.inj hops).symm⟩
    · rintro (⟨-, rfl⟩ | ⟨hnot, -⟩)
      · rfl
      · exact absurd hi hnot
  · rw [if_neg hi, guard_eq_ok, Bool.not_eq_false]
    constructor
    · rintro ⟨hv, hops⟩
      exact .inr ⟨hi, hv, (Except.ok.inj hops).symm⟩
    · rintro (⟨hmem, -⟩ | ⟨-, hv, rfl⟩)
      · exact absurd hmem hi
      · exact ⟨hv, rfl⟩

/-- **The ways an installation can go:** it stops first, it throws the download away, or it installs
bytes of the manifest's hash under a free name. -/
theorem install_cases (disk : ModuleDisk) :
    (d.install h disk).1 = [] ∨ (d.install h disk).1 = discard ∨
      ∃ bytes, moduleHash h bytes = d.manifest.sha256 ∧ disk.store d.manifest.name = none ∧
        (d.install h disk).1 = .writeTmp bytes :: .rename d.manifest.name :: discard := by
  rw [install]
  by_cases hcomplete : d.isComplete = false
  · rw [if_pos hcomplete]
    exact .inl rfl
  · rw [if_neg hcomplete]
    cases disk.part with
    | none => exact .inl rfl
    | some bytes =>
      dsimp only
      by_cases hlen : bytes.length ≠ d.manifest.size
      · rw [if_pos hlen]
        exact .inl rfl
      · rw [if_neg hlen]
        by_cases hhash : moduleHash h bytes ≠ d.manifest.sha256
        · rw [if_pos hhash]
          exact .inr (.inl rfl)
        · rw [if_neg hhash]
          by_cases hstore : (disk.store d.manifest.name).isSome = true
          · rw [if_pos hstore]
            exact .inr (.inl rfl)
          · rw [if_neg hstore]
            exact .inr (.inr ⟨bytes, not_not.mp hhash, by simpa using hstore, rfl⟩)

/-- A complete download of the right bytes is installed. -/
theorem install_eq_ok {bytes : List UInt8} (hcomplete : d.isComplete = true)
    (hpart : disk.part = some bytes) (hlen : bytes.length = d.manifest.size)
    (hhash : moduleHash h bytes = d.manifest.sha256) (hstore : disk.store d.manifest.name = none) :
    d.install h disk =
      (.writeTmp bytes :: .rename d.manifest.name :: discard, .ok d.manifest.name) := by
  simp [install, hcomplete, hpart, hlen, hhash, hstore]

/-- Complete but of another hash: what was fetched is thrown away. -/
theorem install_of_mismatch {bytes : List UInt8} (hcomplete : d.isComplete = true)
    (hpart : disk.part = some bytes) (hlen : bytes.length = d.manifest.size)
    (hhash : moduleHash h bytes ≠ d.manifest.sha256) :
    d.install h disk =
      (discard, .error (.sha256Mismatch d.manifest.sha256 (moduleHash h bytes))) := by
  simp [install, hcomplete, hpart, hlen, hhash]

end PartialDownload

end RustExample.OpenraftCluster
