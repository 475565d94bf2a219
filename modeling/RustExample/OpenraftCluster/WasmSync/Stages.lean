import RustExample.Foundation.Run
import RustExample.OpenraftCluster.WasmSync.Download

/-!
# Downloads that are interrupted

The downloads of one content hash go on one after another. Peers deliver chunks in any order and
any number of times, right or wrong; a call stops at a file operation that fails; the process dies
between two operations or in the middle of one; and others write to the store meanwhile.

A download that is open claims on the disk only what the disk has, and counts in memory only
chunks whose bytes are there. That is so after any crash, because a re-open verifies every chunk
again before it counts it.
-/

namespace RustExample.OpenraftCluster

/-! ### Steps -/

/-- A download with its writes. -/
structure DownloadState where
  disk : ModuleDisk
  memory : Option PartialDownload
  pending : List DownloadOp

/-- What may happen. -/
inductive DownloadEvent
  | open (m : WasmModuleManifest)
  | deliver (index : ℕ) (data : List UInt8)
  | install
  | drop
  | tick
  | fail (k : ℕ)
  | skip
  | crash (k : ℕ)
  | other (name : String) (content : Option (List UInt8))

/-- The disk after a process died with some operations left to do. -/
def tornDisk (k : ℕ) : List DownloadOp → ModuleDisk → ModuleDisk
  | [], disk => disk
  | op :: _, disk => op.torn k disk

/-- What is left to do after a call on a chunk. A rejected chunk is not fatal. -/
def writeOps (h : ModuleHashes) (d : PartialDownload) (index : ℕ) (data : List UInt8) :
    List DownloadOp :=
  match d.writeChunk h index data with
  | .ok ops => ops
  | .error _ => []

/-- The steps of the downloads of one content hash. An installation consumes the download. -/
inductive DownloadStep (h : ModuleHashes) (key : String) :
    DownloadState → DownloadEvent → DownloadState → Prop
  | open {disk : ModuleDisk} {m : WasmModuleManifest} (hm : m.validate = .ok ())
      (hkey : m.sha256 = key) :
      DownloadStep h key ⟨disk, none, []⟩ (.open m) ⟨disk, none, PartialDownload.open h disk m⟩
  | deliver {disk : ModuleDisk} {d : PartialDownload} {i : ℕ} {data : List UInt8} :
      DownloadStep h key ⟨disk, some d, []⟩ (.deliver i data) ⟨disk, some d, writeOps h d i data⟩
  | install {disk : ModuleDisk} {d : PartialDownload} :
      DownloadStep h key ⟨disk, some d, []⟩ .install ⟨disk, none, (d.install h disk).1⟩
  | drop {disk : ModuleDisk} {d : PartialDownload} :
      DownloadStep h key ⟨disk, some d, []⟩ .drop ⟨disk, none, []⟩
  | tick {disk : ModuleDisk} {memory : Option PartialDownload} {op : DownloadOp}
      {rest : List DownloadOp} :
      DownloadStep h key ⟨disk, memory, op :: rest⟩ .tick ⟨op.apply disk, op.kept memory, rest⟩
  | fail {disk : ModuleDisk} {memory : Option PartialDownload} {op : DownloadOp}
      {rest : List DownloadOp} {k : ℕ} (hop : op.canFail = true) :
      DownloadStep h key ⟨disk, memory, op :: rest⟩ (.fail k) ⟨op.torn k disk, memory, []⟩
  | skip {disk : ModuleDisk} {memory : Option PartialDownload} {op : DownloadOp}
      {rest : List DownloadOp} (hop : op.isRemoval = true) :
      DownloadStep h key ⟨disk, memory, op :: rest⟩ .skip ⟨disk, memory, rest⟩
  | crash {disk : ModuleDisk} {memory : Option PartialDownload} {pending : List DownloadOp}
      {k : ℕ} :
      DownloadStep h key ⟨disk, memory, pending⟩ (.crash k) ⟨tornDisk k pending disk, none, []⟩
  | other {disk : ModuleDisk} {memory : Option PartialDownload} {pending : List DownloadOp}
      {name : String} {content : Option (List UInt8)} :
      DownloadStep h key ⟨disk, memory, pending⟩ (.other name content)
        ⟨{ disk with store := Function.update disk.store name content }, memory, pending⟩

/-! ### What the disk holds -/

/-- A chunk has come. -/
def PartialDownload.accept (d : PartialDownload) (i : ℕ) : PartialDownload :=
  ⟨d.manifest, insert i d.received⟩

/-- What is stored of a download. -/
def PartialDownload.toMeta (d : PartialDownload) : PartialMeta := ⟨d.manifest, d.received⟩

/-- The download that was stored. -/
def PartialMeta.download (stored : PartialMeta) : PartialDownload :=
  ⟨stored.manifest, stored.received⟩

/-- The part file has its full size and, of every received chunk, bytes that satisfy `φ`. -/
def Holds (φ : WasmModuleManifest → ℕ → List UInt8 → Prop) (disk : ModuleDisk)
    (d : PartialDownload) : Prop :=
  ∃ file, disk.part = some file ∧ file.length = d.manifest.size ∧
    ∀ i ∈ d.received, HoldsChunk φ file d.manifest i

/-- A download of an accepted manifest among `ψ` that counts chunks of it only. -/
structure Sound (ψ : WasmModuleManifest → Prop) (d : PartialDownload) : Prop where
  valid : d.manifest.Valid
  opened : ψ d.manifest
  received : ∀ i ∈ d.received, i < d.manifest.chunkCount

/-- The disk has what the download counts, and the meta file claims no more than that. -/
structure Opened (φ : WasmModuleManifest → ℕ → List UInt8 → Prop)
    (ψ : WasmModuleManifest → Prop) (disk : ModuleDisk) (d : PartialDownload) : Prop where
  sound : Sound ψ d
  holds : Holds φ disk d
  claimed : ∃ stored, disk.partMeta = some stored ∧ stored.manifest = d.manifest ∧
    stored.received ⊆ d.received

variable {φ : WasmModuleManifest → ℕ → List UInt8 → Prop} {ψ : WasmModuleManifest → Prop}
  {disk : ModuleDisk} {d : PartialDownload}

variable {data : List UInt8}

/-- A write within another chunk leaves a chunk as it is. -/
theorem HoldsChunk.writeAt {m : WasmModuleManifest} {file : List UInt8} {i j : ℕ}
    (hchunk : HoldsChunk φ file m i) (hne : i ≠ j) (hlen : data.length ≤ m.chunkLen j) :
    HoldsChunk φ (ByteFile.writeAt file (m.chunkOffset j) data) m i := by
  obtain ⟨found, hfound, hφ⟩ := hchunk
  refine ⟨found, ByteFile.readExact_writeAt_of_disjoint ?_ hfound, hφ⟩
  have hdisj := WasmModuleManifest.chunk_disjoint (m := m) hne
  omega

/-- A write of at most a chunk, where no received chunk is, changes nothing of the others. -/
theorem Holds.writeAt (hd : Sound ψ d) (hholds : Holds φ disk d) {i : ℕ}
    (hi : i < d.manifest.chunkCount) (hnot : i ∉ d.received)
    (hlen : data.length ≤ d.manifest.chunkLen i) :
    Holds φ ((DownloadOp.writeAt (d.manifest.chunkOffset i) data).apply disk) d := by
  obtain ⟨file, hpart, hsize, hchunks⟩ := hholds
  have hend := hd.valid.chunk_end_le hi
  refine ⟨ByteFile.writeAt file (d.manifest.chunkOffset i) data, ?_, ?_, fun j hj => ?_⟩
  · show disk.part.map _ = _
    rw [hpart, Option.map_some]
  · rw [ByteFile.length_writeAt (by omega), hsize]
  · exact (hchunks j hj).writeAt (fun heq => hnot (heq ▸ hj)) hlen

theorem Holds.accept (hd : Sound ψ d) (hholds : Holds φ disk d) {i : ℕ}
    (hi : i < d.manifest.chunkCount) (hnot : i ∉ d.received)
    (hlen : data.length = d.manifest.chunkLen i) (hφ : φ d.manifest i data) :
    Holds φ ((DownloadOp.writeAt (d.manifest.chunkOffset i) data).apply disk) (d.accept i) := by
  obtain ⟨file, hpart, hsize, hchunks⟩ := hholds.writeAt hd hi hnot hlen.le
  refine ⟨file, hpart, hsize, fun j hj => ?_⟩
  rcases Finset.mem_insert.mp hj with rfl | hj
  · obtain ⟨old, hold, rfl⟩ := Option.map_eq_some_iff.mp hpart
    refine ⟨data, ?_, hφ⟩
    show ByteFile.readExact _ (d.manifest.chunkOffset j) (d.manifest.chunkLen j) = some data
    rw [← hlen]
    exact ByteFile.readExact_writeAt old _ data
  · exact hchunks j hj

/-- What a re-open verified is there once the part file has its full size. -/
theorem Holds.setLen (hd : Sound ψ d)
    (hrec : ∀ i ∈ d.received, ∃ file, disk.part = some file ∧ HoldsChunk φ file d.manifest i) :
    Holds φ ((DownloadOp.setLen d.manifest.size).apply disk) d := by
  refine ⟨_, rfl, ByteFile.length_setLen _ _, fun i hi => ?_⟩
  obtain ⟨file, hpart, data, hdata, hφ⟩ := hrec i hi
  refine ⟨data, ?_, hφ⟩
  rw [hpart, Option.getD_some]
  exact ByteFile.readExact_setLen (hd.valid.chunk_end_le (hd.received i hi)) hdata

/-! ### Stages -/

/-- How far the call under way has come, and what the disk holds at that point. -/
inductive Stage (h : ModuleHashes) (φ : WasmModuleManifest → ℕ → List UInt8 → Prop)
    (ψ : WasmModuleManifest → Prop) :
    ModuleDisk → Option PartialDownload → List DownloadOp → Prop
  | idle {disk : ModuleDisk} : Stage h φ ψ disk none []
  | opening {disk : ModuleDisk} {d : PartialDownload} (hd : Sound ψ d)
      (hrec : ∀ i ∈ d.received,
        ∃ file, disk.part = some file ∧ HoldsChunk φ file d.manifest i) :
      Stage h φ ψ disk none [.setLen d.manifest.size, .persistMeta d.toMeta, .keep d]
  | resized {disk : ModuleDisk} {d : PartialDownload} (hd : Sound ψ d) (hholds : Holds φ disk d) :
      Stage h φ ψ disk none [.persistMeta d.toMeta, .keep d]
  | persisted {disk : ModuleDisk} {d : PartialDownload} (ho : Opened φ ψ disk d) :
      Stage h φ ψ disk none [.keep d]
  | ready {disk : ModuleDisk} {d : PartialDownload} (ho : Opened φ ψ disk d) :
      Stage h φ ψ disk (some d) []
  | writing {disk : ModuleDisk} {d : PartialDownload} {i : ℕ} {data : List UInt8}
      (ho : Opened φ ψ disk d) (hi : i < d.manifest.chunkCount) (hnot : i ∉ d.received)
      (hlen : data.length = d.manifest.chunkLen i) (hφ : φ d.manifest i data) :
      Stage h φ ψ disk (some d) [.writeAt (d.manifest.chunkOffset i) data, .keep (d.accept i),
        .persistMeta (d.accept i).toMeta]
  | written {disk : ModuleDisk} {d : PartialDownload} {i : ℕ} (ho : Opened φ ψ disk d)
      (hi : i < d.manifest.chunkCount) (hholds : Holds φ disk (d.accept i)) :
      Stage h φ ψ disk (some d) [.keep (d.accept i), .persistMeta (d.accept i).toMeta]
  | kept {disk : ModuleDisk} {d : PartialDownload} (ho : Opened φ ψ disk d) :
      Stage h φ ψ disk (some d) [.persistMeta d.toMeta]
  | copying {disk : ModuleDisk} {d : PartialDownload} {bytes : List UInt8} (hd : Sound ψ d)
      (hhash : moduleHash h bytes = d.manifest.sha256) :
      Stage h φ ψ disk none
        [.writeTmp bytes, .rename d.manifest.name, .removePart, .removeMeta]
  | copied {disk : ModuleDisk} {d : PartialDownload} {bytes : List UInt8} (hd : Sound ψ d)
      (hhash : moduleHash h bytes = d.manifest.sha256) (htmp : disk.installing = some bytes) :
      Stage h φ ψ disk none [.rename d.manifest.name, .removePart, .removeMeta]
  | discarding {disk : ModuleDisk} : Stage h φ ψ disk none [.removePart, .removeMeta]
  | discarded {disk : ModuleDisk} : Stage h φ ψ disk none [.removeMeta]

variable {h : ModuleHashes} {memory : Option PartialDownload} {op : DownloadOp}
  {rest pending : List DownloadOp}

theorem Opened.persistMeta (hd : Sound ψ d) (hholds : Holds φ disk d) :
    Opened φ ψ ((DownloadOp.persistMeta d.toMeta).apply disk) d :=
  ⟨hd, hholds, d.toMeta, rfl, rfl, Finset.Subset.refl _⟩

/-- A write within a chunk that is not received yet keeps a download open. -/
theorem Opened.writeAt (ho : Opened φ ψ disk d) {i : ℕ} (hi : i < d.manifest.chunkCount)
    (hnot : i ∉ d.received) (hlen : data.length ≤ d.manifest.chunkLen i) :
    Opened φ ψ ((DownloadOp.writeAt (d.manifest.chunkOffset i) data).apply disk) d :=
  ⟨ho.sound, ho.holds.writeAt ho.sound hi hnot hlen, ho.claimed⟩

theorem Sound.accept (hd : Sound ψ d) {i : ℕ} (hi : i < d.manifest.chunkCount) :
    Sound ψ (d.accept i) where
  valid := hd.valid
  opened := hd.opened
  received j hj := by
    rcases Finset.mem_insert.mp hj with rfl | hj
    · exact hi
    · exact hd.received j hj

theorem Opened.accept (ho : Opened φ ψ disk d) {i : ℕ} (hi : i < d.manifest.chunkCount)
    (hholds : Holds φ disk (d.accept i)) : Opened φ ψ disk (d.accept i) where
  sound := ho.sound.accept hi
  holds := hholds
  claimed := by
    obtain ⟨stored, hmeta, hm, hsub⟩ := ho.claimed
    exact ⟨stored, hmeta, hm, hsub.trans (Finset.subset_insert _ _)⟩

/-- One file operation brings the call to its next stage. -/
theorem Stage.tick (hs : Stage h φ ψ disk memory (op :: rest)) :
    Stage h φ ψ (op.apply disk) (op.kept memory) rest := by
  cases hs with
  | opening hd hrec => exact .resized hd (.setLen hd hrec)
  | resized hd hholds => exact .persisted (.persistMeta hd hholds)
  | persisted ho => exact .ready ho
  | writing ho hi hnot hlen hφ =>
    exact .written (ho.writeAt hi hnot hlen.le) hi (ho.holds.accept ho.sound hi hnot hlen hφ)
  | written ho hi hholds => exact .kept (ho.accept hi hholds)
  | kept ho => exact .ready (.persistMeta ho.sound ho.holds)
  | copying hd hhash => exact .copied hd hhash rfl
  | copied hd hhash htmp => exact .discarding
  | discarding => exact .discarded
  | discarded => exact .idle

/-- A call that fails leaves the download, or counts a chunk that the meta file does not claim. -/
theorem Stage.fail (hs : Stage h φ ψ disk memory (op :: rest)) (hop : op.canFail = true) (k : ℕ) :
    Stage h φ ψ (op.torn k disk) memory [] := by
  cases hs with
  | opening | resized | copying | copied => exact .idle
  | writing ho hi hnot hlen hφ =>
    exact .ready (ho.writeAt hi hnot (hlen ▸ List.length_take_le' _ _))
  | kept ho => exact .ready ho
  | persisted | written | discarding | discarded => cases hop

theorem Stage.skip (hs : Stage h φ ψ disk memory (op :: rest)) (hop : op.isRemoval = true) :
    Stage h φ ψ disk memory rest := by
  cases hs with
  | discarding => exact .discarded
  | discarded => exact .idle
  | opening | resized | persisted | writing | written | kept | copying | copied => cases hop

/-- What others do to the store does not matter to a download. -/
theorem Stage.other (hs : Stage h φ ψ disk memory pending)
    (store : String → Option (List UInt8)) :
    Stage h φ ψ { disk with store } memory pending := by
  have hopen : ∀ {d}, Opened φ ψ disk d → Opened φ ψ { disk with store } d :=
    fun ho => ⟨ho.sound, ho.holds, ho.claimed⟩
  cases hs with
  | idle => exact .idle
  | opening hd hrec => exact .opening hd hrec
  | resized hd hholds => exact .resized hd hholds
  | persisted ho => exact .persisted (hopen ho)
  | ready ho => exact .ready (hopen ho)
  | writing ho hi hnot hlen hφ => exact .writing (hopen ho) hi hnot hlen hφ
  | written ho hi hholds => exact .written (hopen ho) hi hholds
  | kept ho => exact .kept (hopen ho)
  | copying hd hhash => exact .copying hd hhash
  | copied hd hhash htmp => exact .copied hd hhash htmp
  | discarding => exact .discarding
  | discarded => exact .discarded

theorem Stage.deliver (ho : Opened φ ψ disk d) {i : ℕ}
    (hφ : d.manifest.verifyChunk h i data = true → φ d.manifest i data) :
    Stage h φ ψ disk (some d) (writeOps h d i data) := by
  rw [writeOps]
  split
  · rename_i ops hops
    obtain ⟨hi, ⟨-, rfl⟩ | ⟨hnot, hv, rfl⟩⟩ := PartialDownload.writeChunk_eq_ok.mp hops
    · exact .ready ho
    · exact .writing ho hi hnot (WasmModuleManifest.length_of_verifyChunk hv) (hφ hv)
  · exact .ready ho

/-- An installation starts to copy only bytes of the manifest's hash. -/
theorem Stage.install (hd : Sound ψ d) : Stage h φ ψ disk none (d.install h disk).1 := by
  rcases d.install_cases (h := h) disk with hops | hops | ⟨bytes, hhash, -, hops⟩
  · rw [hops]
    exact .idle
  · rw [hops]
    exact .discarding
  · rw [hops]
    exact .copying hd hhash

/-! ### Runs -/

variable {key : String} {s s' : DownloadState} {e : DownloadEvent}

/-- Opened manifests are among `ψ`, and what peers or the disk have accepted satisfies `φ`. -/
def Admits (h : ModuleHashes) (φ : WasmModuleManifest → ℕ → List UInt8 → Prop)
    (ψ : WasmModuleManifest → Prop) (s : DownloadState) : DownloadEvent → Prop
  | .open m => ψ m ∧ ∀ i ∈ recovered h s.disk m, ∀ file data, s.disk.part = some file →
      readChunk file m i = some data → φ m i data
  | .deliver i data => ∀ d, s.memory = some d → d.manifest.verifyChunk h i data = true →
      φ d.manifest i data
  | _ => True

/-- **A step leads from a stage to a stage.** -/
theorem Stage.step (hs : Stage h φ ψ s.disk s.memory s.pending) (hstep : DownloadStep h key s e s')
    (ha : Admits h φ ψ s e) : Stage h φ ψ s'.disk s'.memory s'.pending := by
  cases hstep with
  | @«open» disk m hm hkey =>
    refine Stage.opening (d := ⟨m, recovered h disk m⟩)
      ⟨WasmModuleManifest.validate_eq_ok.mp hm, ha.1, fun i hi => (mem_recovered hi).1⟩ ?_
    intro i hi
    obtain ⟨-, file, hpart, data, hdata, -⟩ := mem_recovered hi
    exact ⟨file, hpart, data, hdata, ha.2 i hi file data hpart hdata⟩
  | deliver =>
    cases hs with
    | ready ho => exact .deliver ho (ha _ rfl)
  | install =>
    cases hs with
    | ready ho => exact .install ho.sound
  | drop => exact .idle
  | tick => exact hs.tick
  | fail hop => exact hs.fail hop _
  | skip hop => exact hs.skip hop
  | crash => exact .idle
  | other => exact hs.other _

/-- **Every state of a run is at a stage.** -/
theorem stage_of_run {es : List DownloadEvent}
    (run : Run (fun s e s' => DownloadStep h key s e s' ∧ Admits h φ ψ s e) ⟨disk, none, []⟩ es s) :
    Stage h φ ψ s.disk s.memory s.pending :=
  run.invariant (P := fun s => Stage h φ ψ s.disk s.memory s.pending) .idle
    fun _ _ _ hs hstep => hs.step hstep.1 hstep.2

theorem verified_of_mem_recovered {m : WasmModuleManifest} {i : ℕ} {file : List UInt8}
    (hi : i ∈ recovered h disk m) (hpart : disk.part = some file)
    (hdata : readChunk file m i = some data) : Verified h m i data := by
  obtain ⟨-, file', hpart', data', hdata', hv⟩ := mem_recovered hi
  obtain ⟨⟩ := hpart.symm.trans hpart'
  obtain ⟨⟩ := hdata.symm.trans hdata'
  exact hv

theorem admits_of_step (hψ : ∀ m, e = .open m → ψ m) (hstep : DownloadStep h key s e s') :
    Admits h (Verified h) ψ s e := by
  cases hstep with
  | «open» =>
    exact ⟨hψ _ rfl, fun i hi file data hpart hdata => verified_of_mem_recovered hi hpart hdata⟩
  | deliver => exact fun d _ hv => hv
  | install | drop | tick | fail | skip | crash | other => trivial

end RustExample.OpenraftCluster
