import RustExample.OpenraftCluster.WasmSync.Stages

/-!
# What is claimed and what is installed

While a download is open, the meta file claims only chunks whose bytes pass their hash. A crash
between the two removals of a discarded download, or when a re-open has resized the part file for
another manifest, leaves claims without bytes, which the next re-open does not trust. A complete
download of the right chunks is the module, and an installation writes nothing else than bytes of
the manifest's hash.
-/

namespace RustExample.OpenraftCluster

open Function List

variable {h : ModuleHashes} {φ : WasmModuleManifest → ℕ → List UInt8 → Prop}
  {ψ : WasmModuleManifest → Prop} {disk : ModuleDisk} {d : PartialDownload}
  {memory : Option PartialDownload} {op : DownloadOp} {rest pending : List DownloadOp}
  {key : String} {s s' : DownloadState} {e : DownloadEvent}

/-! ### Claims -/

/-- The persisted set has only chunks whose bytes on the disk pass their hash. -/
def ClaimsVerified (h : ModuleHashes) (disk : ModuleDisk) : Prop :=
  ∀ stored, disk.partMeta = some stored → ∀ i ∈ stored.received,
    ∃ file, disk.part = some file ∧ HoldsChunk (Verified h) file stored.manifest i

/-- The part file holds what the meta file claims. -/
def ClaimsHold (φ : WasmModuleManifest → ℕ → List UInt8 → Prop) (disk : ModuleDisk) : Prop :=
  ∀ stored, disk.partMeta = some stored → Holds φ disk stored.download

theorem ClaimsHold.claimsVerified (hc : ClaimsHold (Verified h) disk) : ClaimsVerified h disk := by
  intro stored hstored i hi
  obtain ⟨file, hpart, -, hchunks⟩ := hc stored hstored
  exact ⟨file, hpart, hchunks i hi⟩

theorem ClaimsHold.congr {disk' : ModuleDisk} (hc : ClaimsHold φ disk)
    (hpart : disk'.part = disk.part) (hmeta : disk'.partMeta = disk.partMeta) :
    ClaimsHold φ disk' := by
  intro stored hstored
  obtain ⟨file, hfile, hlen, hchunks⟩ := hc stored (hmeta ▸ hstored)
  exact ⟨file, hpart.trans hfile, hlen, hchunks⟩

/-- A download that is open claims only what the disk has. -/
theorem Opened.claimsHold (ho : Opened φ ψ disk d) : ClaimsHold φ disk := by
  intro stored hstored
  obtain ⟨stored', hmeta, hm, hsub⟩ := ho.claimed
  obtain ⟨⟩ := hstored.symm.trans hmeta
  obtain ⟨file, hpart, hlen, hchunks⟩ := ho.holds
  refine ⟨file, hpart, by rw [PartialMeta.download, hm, hlen], fun i hi => ?_⟩
  show HoldsChunk φ file stored.manifest i
  rw [hm]
  exact hchunks i (hsub hi)

/-- Giving the part file the size it has changes nothing. -/
theorem ClaimsHold.setLen {n : ℕ} (hc : ClaimsHold φ disk)
    (hsize : ∀ stored, disk.partMeta = some stored → stored.manifest.size = n) :
    ClaimsHold φ ((DownloadOp.setLen n).apply disk) := by
  intro stored hstored
  obtain ⟨file, hpart, hlen, hchunks⟩ := hc stored hstored
  refine ⟨file, ?_, hlen, hchunks⟩
  have hn : n = file.length := by
    rw [hlen, ← hsize stored hstored]
    rfl
  show some (ByteFile.setLen n (disk.part.getD [])) = some file
  rw [hpart, Option.getD_some, hn, ByteFile.setLen_length]

/-- An open download has a persisted set of verified chunks. -/
theorem Stage.claimsHold (hs : Stage h φ ψ disk (some d) pending) : ClaimsHold φ disk := by
  cases hs with
  | ready ho | writing ho | written ho | kept ho => exact ho.claimsHold

/-- An operation that stops in the middle takes nothing from what is claimed. -/
theorem ClaimsHold.torn (hc : ClaimsHold φ disk) (hs : Stage h φ ψ disk memory pending) (k : ℕ) :
    ClaimsHold φ (tornDisk k pending disk) := by
  cases hs with
  | idle | resized | persisted | ready | written | kept | copying | copied | discarding |
    discarded => exact hc.congr rfl rfl
  | opening =>
    intro stored hstored
    obtain ⟨file, hpart, hholds⟩ := hc stored hstored
    refine ⟨file, ?_, hholds⟩
    show some (disk.part.getD []) = some file
    rw [hpart, Option.getD_some]
  | writing ho hi hnot hlen hφ =>
    exact (ho.writeAt hi hnot (hlen ▸ length_take_le' k _)).claimsHold

/-- The meta file lags behind: a discard is half done, or the part file was resized. -/
def Unsettled (s : DownloadState) : Prop :=
  s.pending = [.removeMeta] ∨ ∃ d stored, s.pending = [.persistMeta d.toMeta, .keep d] ∧
    s.disk.partMeta = some stored ∧ stored.manifest.size ≠ d.manifest.size

/-- What is persisted is there, but for the moments when the meta file lags behind. -/
def Kept (φ : WasmModuleManifest → ℕ → List UInt8 → Prop) (s : DownloadState) : Prop :=
  ¬Unsettled s → ClaimsHold φ s.disk

/-- No process dies, and no operation fails, while the meta file lags behind. -/
def Orderly (s : DownloadState) : DownloadEvent → Prop
  | .crash _ | .fail _ | .skip => ¬Unsettled s
  | _ => True

theorem not_unsettled (hremoval : pending ≠ [.removeMeta])
    (hopening : ∀ stored d, pending ≠ [.persistMeta stored, .keep d]) :
    ¬Unsettled ⟨disk, memory, pending⟩ := by
  rintro (hp | ⟨d, _, hp, -⟩)
  · exact hremoval hp
  · exact hopening d.toMeta d hp

theorem Kept.tick (hk : Kept φ ⟨disk, memory, op :: rest⟩)
    (hs : Stage h φ ψ disk memory (op :: rest)) :
    Kept φ ⟨op.apply disk, op.kept memory, rest⟩ := by
  intro hsettled
  cases hs with
  | @opening d hd hrec =>
    refine (hk (not_unsettled nofun nofun)).setLen fun stored hstored => ?_
    by_contra hsize
    exact hsettled (.inr ⟨d, stored, rfl, hstored, hsize⟩)
  | resized hd hholds => exact (Opened.persistMeta hd hholds).claimsHold
  | persisted ho => exact ho.claimsHold
  | writing ho hi hnot hlen hφ => exact (ho.writeAt hi hnot hlen.le).claimsHold
  | written ho => exact ho.claimsHold
  | kept ho => exact (Opened.persistMeta ho.sound ho.holds).claimsHold
  | copying => exact (hk (not_unsettled nofun nofun)).congr rfl rfl
  | copied hd hhash htmp =>
    rw [DownloadOp.apply_rename htmp]
    exact (hk (not_unsettled nofun nofun)).congr rfl rfl
  | discarding => exact absurd (.inl rfl) hsettled
  | discarded => exact nofun

/-- **Orderly steps keep the persisted set right.** -/
theorem Kept.step (hk : Kept φ s) (hs : Stage h φ ψ s.disk s.memory s.pending)
    (hstep : DownloadStep h key s e s') (hu : Orderly s e) : Kept φ s' := by
  cases hstep with
  | «open» => exact fun _ => hk (not_unsettled nofun nofun)
  | deliver => exact fun _ => hk (not_unsettled nofun nofun)
  | install => exact fun _ => hk (not_unsettled nofun nofun)
  | drop => exact fun _ => hk (not_unsettled nofun nofun)
  | tick => exact hk.tick hs
  | fail => exact fun _ => (hk hu).torn hs _
  | skip hop =>
    cases hs with
    | discarding => exact fun hsettled => absurd (.inl rfl) hsettled
    | discarded => exact absurd (.inl rfl) hu
    | opening | resized | persisted | writing | written | kept | copying | copied => cases hop
  | crash => exact fun _ => (hk hu).torn hs _
  | other => exact fun hsettled => (hk hsettled).congr rfl rfl

/-- A download is open, or nothing is claimed and nothing is going on. -/
def Trusted (s : DownloadState) : Prop :=
  s.memory.isSome ∨ s.memory = none ∧ s.pending = [] ∧ s.disk.partMeta = none

theorem Trusted.kept (ht : Trusted s) (hs : Stage h φ ψ s.disk s.memory s.pending) : Kept φ s := by
  intro _
  rcases ht with hopen | ⟨-, -, hmeta⟩
  · obtain ⟨d, hd⟩ := Option.isSome_iff_exists.mp hopen
    rw [hd] at hs
    exact hs.claimsHold
  · intro stored hstored
    rw [hmeta] at hstored
    cases hstored

variable {es : List DownloadEvent}

/-- **In an orderly run** the persisted set has verified chunks only. -/
theorem claimsVerified_of_orderly {s₁ : DownloadState} (ht : Trusted s₁)
    (hs : Stage h (Verified h) (fun _ => True) s₁.disk s₁.memory s₁.pending)
    (run : Run (DownloadStep h key) s₁ es s)
    (horderly : Run.AtEvents (DownloadStep h key) s₁ Orderly es) (hsettled : ¬Unsettled s) :
    ClaimsVerified h s.disk := by
  have hinv := (run.of_atEvents horderly).invariant
    (P := fun s => Stage h (Verified h) (fun _ => True) s.disk s.memory s.pending ∧
      Kept (Verified h) s) ⟨hs, ht.kept hs⟩ ?_
  · exact (hinv.2 hsettled).claimsVerified
  · rintro s e s' ⟨hs, hk⟩ ⟨hstep, hu⟩
    exact ⟨hs.step hstep (admits_of_step (fun _ _ => trivial) hstep), hk.step hs hstep hu⟩

/-! ### Complete downloads -/

/-- What is accepted of manifest `m`, from peers or the disk, are the chunks of `source`. -/
def AcceptsOnly (h : ModuleHashes) (m : WasmModuleManifest) (source : List UInt8)
    (s : DownloadState) : DownloadEvent → Prop
  | .open m' => m' = m → ∀ i ∈ recovered h s.disk m, ∀ file, s.disk.part = some file →
      readChunk file m i = some (chunk m.chunkSize source i)
  | .deliver i data => ∀ d, s.memory = some d → d.manifest = m →
      m.verifyChunk h i data = true → data = chunk m.chunkSize source i
  | _ => True

/-- The bytes that are accepted of `m` are those of `source`. -/
def IsChunkOf (m : WasmModuleManifest) (source : List UInt8) (m' : WasmModuleManifest) (i : ℕ)
    (data : List UInt8) : Prop :=
  m' = m → data = chunk m.chunkSize source i

variable {source : List UInt8}

theorem admits_of_acceptsOnly {m : WasmModuleManifest} (hstep : DownloadStep h key s e s')
    (ha : AcceptsOnly h m source s e) :
    Admits h (IsChunkOf m source) (fun _ => True) s e := by
  cases hstep with
  | «open» =>
    refine ⟨trivial, fun i hi file data hpart hdata heq => ?_⟩
    subst heq
    exact Option.some.inj (hdata.symm.trans (ha rfl i hi file hpart))
  | deliver =>
    intro d hd hv heq
    subst heq
    exact ha d hd rfl hv
  | install | drop | tick | fail | skip | crash | other => trivial

theorem Sound.mem_of_isComplete (hd : Sound ψ d) (hcomplete : d.isComplete = true) {i : ℕ}
    (hi : i < d.manifest.chunkCount) : i ∈ d.received := by
  have hsub : d.received ⊆ Finset.range d.manifest.chunkCount := fun j hj =>
    Finset.mem_range.mpr (hd.received j hj)
  have hle := Finset.card_le_card hsub
  have hlt : d.manifest.chunkCount < 2 ^ 32 := Nat.mod_lt _ (Nat.two_pow_pos 32)
  have hcount : d.received.card % 2 ^ 32 = d.manifest.chunkCount := beq_iff_eq.mp hcomplete
  rw [Finset.card_range] at hle
  rw [Nat.mod_eq_of_lt (by omega)] at hcount
  have heq : d.received = Finset.range d.manifest.chunkCount :=
    Finset.eq_of_subset_of_card_le hsub (by rw [Finset.card_range, hcount])
  rw [heq]
  exact Finset.mem_range.mpr hi

/-- **A complete download of the chunks of a module** is the module. -/
theorem Opened.part_eq_source (ho : Opened (IsChunkOf d.manifest source) ψ disk d)
    (hcomplete : d.isComplete = true) (hsize : d.manifest.size = source.length) :
    disk.part = some source := by
  obtain ⟨file, hpart, hlen, hchunks⟩ := ho.holds
  rw [hpart, ByteFile.eq_of_readExact_chunk ho.sound.valid.chunkSize_pos (hlen.trans hsize)]
  intro i hi
  rw [← hsize, ← ho.sound.valid.chunkCount_eq] at hi
  obtain ⟨data, hdata, heq⟩ := hchunks i (ho.sound.mem_of_isComplete hcomplete hi)
  rw [← hsize, ← heq rfl]
  exact hdata

theorem run_install (hcomplete : d.isComplete = true) (hpart : disk.part = some source)
    (hsize : d.manifest.size = source.length) (hhash : moduleHash h source = d.manifest.sha256)
    (hstore : disk.store d.manifest.name = none) :
    Run (DownloadStep h key) ⟨disk, some d, []⟩ [.install, .tick, .tick, .tick, .tick]
      ⟨⟨none, none, none, update disk.store d.manifest.name (some source)⟩, none, []⟩ := by
  refine .cons .install ?_
  rw [PartialDownload.install_eq_ok hcomplete hpart hsize.symm hhash hstore]
  exact .cons .tick (.cons .tick (.cons .tick (.cons .tick .nil)))

/-! ### The store -/

/-- Nobody else writes under the name of an installation under way. -/
def Unraced (s : DownloadState) : DownloadEvent → Prop
  | .other name _ => .rename name ∉ s.pending
  | _ => True

/-- The name of an installation under way is free. -/
def NameFree (s : DownloadState) : Prop :=
  ∀ name, .rename name ∈ s.pending → s.disk.store name = none

theorem DownloadOp.store_apply (hop : ∀ name, op ≠ .rename name) :
    (op.apply disk).store = disk.store := by
  cases op with
  | rename name => exact absurd rfl (hop name)
  | setLen | writeAt | persistMeta | keep | writeTmp | removePart | removeMeta => rfl

theorem DownloadOp.store_torn (k : ℕ) : (op.torn k disk).store = disk.store := by
  cases op <;> rfl

theorem store_tornDisk (k : ℕ) (pending : List DownloadOp) :
    (tornDisk k pending disk).store = disk.store := by
  cases pending with
  | nil => rfl
  | cons op rest => exact op.store_torn k

theorem rename_notMem_writeOps (i : ℕ) (data : List UInt8) (name : String) :
    .rename name ∉ writeOps h d i data := by
  rw [writeOps]
  split
  · rename_i ops hops
    obtain ⟨-, ⟨-, rfl⟩ | ⟨-, -, rfl⟩⟩ := PartialDownload.writeChunk_eq_ok.mp hops
    · simp
    · simp
  · simp

/-- A name that was free when an installation started stays free until the module is there. -/
theorem NameFree.step (hf : NameFree s) (hs : Stage h φ ψ s.disk s.memory s.pending)
    (hstep : DownloadStep h key s e s') (hu : Unraced s e) : NameFree s' := by
  intro name hmem
  cases hstep with
  | «open» => simp [PartialDownload.open] at hmem
  | deliver => exact absurd hmem (rename_notMem_writeOps _ _ _)
  | @install disk d =>
    rcases d.install_cases (h := h) disk with hops | hops | ⟨bytes, -, hfree, hops⟩
    · simp [hops] at hmem
    · simp [hops, PartialDownload.discard] at hmem
    · obtain rfl : name = d.manifest.name := by
        simpa [hops, PartialDownload.discard] using hmem
      exact hfree
  | @tick disk memory op rest =>
    have hne : ∀ name', op ≠ .rename name' := by
      rintro name' rfl
      cases hs with
      | copied => simp at hmem
    show (op.apply disk).store name = none
    rw [DownloadOp.store_apply hne]
    exact hf name (mem_cons_of_mem _ hmem)
  | skip => exact hf name (mem_cons_of_mem _ hmem)
  | drop | fail | crash => simp at hmem
  | @other disk memory pending name' content =>
    have hne : name ≠ name' := fun heq => hu (heq ▸ hmem)
    show update disk.store name' content name = none
    rw [update_of_ne hne]
    exact hf name hmem

theorem nameFree_of_run
    (run : Run (fun s e s' => DownloadStep h key s e s' ∧ Unraced s e) ⟨disk, none, []⟩ es s) :
    NameFree s := by
  have hinv := run.invariant
    (P := fun s => Stage h (Verified h) (fun _ => True) s.disk s.memory s.pending ∧ NameFree s)
    ⟨.idle, fun _ hmem => absurd hmem not_mem_nil⟩ ?_
  · exact hinv.2
  · rintro s e s' ⟨hs, hf⟩ ⟨hstep, hu⟩
    exact ⟨hs.step hstep (admits_of_step (fun _ _ => trivial) hstep), hf.step hs hstep hu⟩

/-- **What a step of the downloads writes to the store** has the hash of the manifest. -/
theorem store_of_step (hs : Stage h φ ψ s.disk s.memory s.pending)
    (hstep : DownloadStep h key s e s') (hother : ∀ name content, e ≠ .other name content)
    {name : String} (hne : s'.disk.store name ≠ s.disk.store name) :
    .rename name ∈ s.pending ∧ ∃ m bytes, m.Valid ∧ ψ m ∧ m.name = name ∧
      s'.disk.store name = some bytes ∧ moduleHash h bytes = m.sha256 := by
  cases hstep with
  | «open» | deliver | install | drop | skip => exact absurd rfl hne
  | fail => exact absurd (congrFun (DownloadOp.store_torn _) name) hne
  | crash => exact absurd (congrFun (store_tornDisk _ _) name) hne
  | other => exact absurd rfl (hother _ _)
  | @tick disk memory op rest =>
    by_cases hop : ∃ name', op = .rename name'
    · obtain ⟨name', rfl⟩ := hop
      cases hs with
      | @copied d bytes hd hhash htmp =>
        have hstore : ((DownloadOp.rename d.manifest.name).apply disk).store =
            update disk.store d.manifest.name (some bytes) := by
          rw [DownloadOp.apply_rename htmp]
        obtain rfl : d.manifest.name = name := by
          by_contra hname
          refine hne ?_
          show ((DownloadOp.rename d.manifest.name).apply disk).store name = _
          rw [hstore, update_of_ne (Ne.symm hname)]
        refine ⟨mem_cons_self, d.manifest, bytes, hd.valid, hd.opened, rfl, ?_, hhash⟩
        show ((DownloadOp.rename d.manifest.name).apply disk).store _ = _
        rw [hstore, update_self]
    · have hsame : (op.apply disk).store = disk.store :=
        DownloadOp.store_apply fun name' heq => hop ⟨name', heq⟩
      exact absurd (congrFun hsame name) hne

/-! ### Downloads as a whole -/

/-- **Downloads of a wasm module.** In every run, whatever the peers deliver and wherever the
process dies:

* a download that is open has a persisted set of verified chunks only, and so has every state that
  an orderly run leads to from there, or from a disk without claims, but for the moments when the
  meta file lags behind; and a re-open counts only what it verifies;
* the chunks of an accepted manifest partition the file;
* a complete download of the chunks of a module installs exactly its bytes, if its sha256 is that
  of the manifest and its name is free;
* what is installed has the sha256 and the name of a manifest that was opened, and never replaces
  a module, unless others write under its name while it is being installed. -/
theorem wasmDownload_safe {disk₀ : ModuleDisk} {es : List DownloadEvent}
    (run : Run (DownloadStep h key) ⟨disk₀, none, []⟩ es s) :
    ((s.memory.isSome → ClaimsVerified h s.disk) ∧
      (∀ es' s', Trusted s → Run (DownloadStep h key) s es' s' →
        Run.AtEvents (DownloadStep h key) s Orderly es' → ¬Unsettled s' →
        ClaimsVerified h s'.disk) ∧
      ∀ m, ∀ i ∈ recovered h s.disk m,
        ∃ file, s.disk.part = some file ∧ HoldsChunk (Verified h) file m i) ∧
    (∀ m : WasmModuleManifest, m.validate = .ok () → ∀ o, o < m.size ↔
      ∃! i, i < m.chunkCount ∧ m.chunkOffset i ≤ o ∧ o < m.chunkOffset i + m.chunkLen i) ∧
    (∀ d source, s.memory = some d → s.pending = [] → d.isComplete = true →
      d.manifest.size = source.length → d.manifest.sha256 = moduleHash h source →
      s.disk.store d.manifest.name = none →
      Run.AtEvents (DownloadStep h key) ⟨disk₀, none, []⟩ (AcceptsOnly h d.manifest source) es →
      ∃ s', Run (DownloadStep h key) s [.install, .tick, .tick, .tick, .tick] s' ∧
        s'.disk.store = update s.disk.store d.manifest.name (some source) ∧
        s'.disk.part = none ∧ s'.disk.partMeta = none) ∧
    (∀ e s' name, DownloadStep h key s e s' → (∀ name content, e ≠ .other name content) →
      s'.disk.store name ≠ s.disk.store name →
      (∃ m bytes, .open m ∈ es ∧ m.name = name ∧ s'.disk.store name = some bytes ∧
        moduleHash h bytes = m.sha256) ∧
      (Run.AtEvents (DownloadStep h key) ⟨disk₀, none, []⟩ Unraced es →
        s.disk.store name = none)) := by
  have hopened : Run.AtEvents (DownloadStep h key) ⟨disk₀, none, []⟩ (fun _ e => e ∈ es) es :=
    fun _ _ _ _ he => mem_of_getElem? he
  have hstage : Stage h (Verified h) (fun m => .open m ∈ es) s.disk s.memory s.pending :=
    stage_of_run ((run.of_atEvents hopened).imp fun s e s' hstep =>
      ⟨hstep.1, admits_of_step (fun m he => he ▸ hstep.2) hstep.1⟩)
  refine ⟨⟨?_, ?_, fun m i hi => (mem_recovered hi).2⟩, ?_, ?_, ?_⟩
  · intro hopen
    obtain ⟨d, hd⟩ := Option.isSome_iff_exists.mp hopen
    rw [hd] at hstage
    exact hstage.claimsHold.claimsVerified
  · intro es' s' ht run' horderly hsettled
    have hstage' : Stage h (Verified h) (fun _ => True) s.disk s.memory s.pending :=
      stage_of_run (run.imp fun _ _ _ hstep =>
        ⟨hstep, admits_of_step (fun _ _ => trivial) hstep⟩)
    exact claimsVerified_of_orderly ht hstage' run' horderly hsettled
  · intro m hm o
    have hvalid := WasmModuleManifest.validate_eq_ok.mp hm
    refine ⟨hvalid.existsUnique_chunk, fun hex => ?_⟩
    obtain ⟨i, hi, -, hlt⟩ := hex.exists
    have hend := hvalid.chunk_end_le hi
    omega
  · intro d source hd hpending hcomplete hsize hhash hfree haccepts
    have hstage' : Stage h (IsChunkOf d.manifest source) (fun _ => True) s.disk s.memory
        s.pending :=
      stage_of_run ((run.of_atEvents haccepts).imp fun _ _ _ hstep =>
        ⟨hstep.1, admits_of_acceptsOnly hstep.1 hstep.2⟩)
    obtain ⟨disk, memory, pending⟩ := s
    obtain rfl : memory = some d := hd
    obtain rfl : pending = [] := hpending
    cases hstage' with
    | ready ho =>
      have hpart := ho.part_eq_source hcomplete hsize
      exact ⟨_, run_install hcomplete hpart hsize hhash.symm hfree, rfl, rfl, rfl⟩
  · intro e s' name hstep hother hne
    obtain ⟨hmem, m, bytes, -, hm, hname, hstore, hhash⟩ := store_of_step hstage hstep hother hne
    refine ⟨⟨m, bytes, hm, hname, hstore, hhash⟩, fun hunraced => ?_⟩
    exact nameFree_of_run (run.of_atEvents hunraced) name hmem

/-! ### A module of one byte -/

/-- The hashes of the module that is the letter `a`. The bytes `aa` are no module here. -/
def hashesOfA : ModuleHashes where
  xxh3 data := if data = [97, 97] then 0x369242A646A19333 else 0xE6C632B61E964E1F
  sha256 _ :=
    [0xca, 0x97, 0x81, 0x12, 0xca, 0x1b, 0xbd, 0xca, 0xfa, 0xc2, 0x31, 0xb3, 0x9a, 0x23, 0xdc, 0x4d,
     0xa7, 0x86, 0xef, 0xf8, 0x14, 0x7c, 0x4e, 0x72, 0xb9, 0x80, 0x77, 0x85, 0xaf, 0xee, 0x48, 0xbb]

def manifestOfA : WasmModuleManifest := .fromBytes hashesOfA "a.wasm" [97]

/-- The same manifest with its sha256 in upper case. -/
def upperManifestOfA : WasmModuleManifest :=
  { manifestOfA with
    sha256 := "CA978112CA1BBDCAFAC231B39A23DC4DA786EFF8147C4E72B9807785AFEE48BB" }

/-- A wrong manifest under the sha256 of the letter `a`: that of `aa`. -/
def wrongManifestOfA : WasmModuleManifest :=
  { manifestOfA with
    size := 2
    chunkHashes := [0x369242A646A19333] }

def emptyDisk : ModuleDisk := ⟨none, none, none, fun _ => none⟩

/-- The disk that has the only chunk of a manifest and claims it. -/
def fetchedDisk (m : WasmModuleManifest) (data : List UInt8) : ModuleDisk :=
  ⟨some data, some ⟨m, {0}⟩, none, fun _ => none⟩

/-- The events of a whole download. -/
def fetch (m : WasmModuleManifest) (data : List UInt8) : List DownloadEvent :=
  [.open m, .tick, .tick, .tick, .deliver 0 data, .tick, .tick, .tick]

theorem run_fetch {m : WasmModuleManifest} {data : List UInt8} (hm : m.validate = .ok ())
    (hlen : data.length = m.size) (hv : m.verifyChunk h 0 data = true) :
    Run (DownloadStep h m.sha256) ⟨emptyDisk, none, []⟩ (fetch m data)
      ⟨fetchedDisk m data, some ⟨m, {0}⟩, []⟩ := by
  have hvalid := WasmModuleManifest.validate_eq_ok.mp hm
  have hoff : m.chunkOffset 0 = 0 := Nat.zero_mul _
  have hpos : 0 < m.chunkCount := by
    rw [hvalid.lt_chunkCount, hoff]
    exact hvalid.size_pos
  have hops : writeOps h ⟨m, ∅⟩ 0 data =
      [.writeAt 0 data, .keep ⟨m, {0}⟩, .persistMeta ⟨m, {0}⟩] := by
    rw [writeOps, PartialDownload.writeChunk_eq_ok.mpr
      ⟨hpos, .inr ⟨Finset.notMem_empty 0, hv, rfl⟩⟩, hoff]
    rfl
  have hwrite : ByteFile.writeAt (ByteFile.setLen m.size []) 0 data = data :=
    ByteFile.writeAt_zero (by rw [ByteFile.length_setLen, hlen])
  have run : Run (DownloadStep h m.sha256) ⟨emptyDisk, none, []⟩ (fetch m data)
      ⟨⟨some (ByteFile.writeAt (ByteFile.setLen m.size []) 0 data), some ⟨m, {0}⟩, none,
        fun _ => none⟩, some ⟨m, {0}⟩, []⟩ := by
    refine .cons (.open hm rfl) (.cons .tick (.cons .tick (.cons .tick (.cons .deliver ?_))))
    show Run _ (⟨_, _, writeOps h ⟨m, ∅⟩ 0 data⟩ : DownloadState) _ _
    rw [hops]
    exact .cons .tick (.cons .tick (.cons .tick .nil))
  rwa [hwrite] at run

theorem run_fetch_manifestOfA :
    Run (DownloadStep hashesOfA manifestOfA.sha256) ⟨emptyDisk, none, []⟩ (fetch manifestOfA [97])
      ⟨fetchedDisk manifestOfA [97], some ⟨manifestOfA, {0}⟩, []⟩ :=
  run_fetch (by decide +kernel) rfl (by decide)

/-- The installation of the letter `a` copies its bytes. -/
theorem step_install_manifestOfA :
    DownloadStep hashesOfA manifestOfA.sha256
      ⟨fetchedDisk manifestOfA [97], some ⟨manifestOfA, {0}⟩, []⟩ .install
      ⟨fetchedDisk manifestOfA [97], none,
        [.writeTmp [97], .rename "a.wasm", .removePart, .removeMeta]⟩ := by
  have hops : (PartialDownload.install hashesOfA ⟨manifestOfA, {0}⟩
      (fetchedDisk manifestOfA [97])).1 =
      [.writeTmp [97], .rename "a.wasm", .removePart, .removeMeta] := by
    rw [PartialDownload.install_eq_ok (by decide) rfl rfl rfl rfl]
    rfl
  rw [← hops]
  exact .install

theorem wasmDownload_safe_a :
    ∃ s', Run (DownloadStep hashesOfA manifestOfA.sha256)
        ⟨fetchedDisk manifestOfA [97], some ⟨manifestOfA, {0}⟩, []⟩
        [.install, .tick, .tick, .tick, .tick] s' ∧
      s'.disk.store "a.wasm" = some [97] := by
  have haccepts : Run.AtEvents (DownloadStep hashesOfA manifestOfA.sha256) ⟨emptyDisk, none, []⟩
      (AcceptsOnly hashesOfA manifestOfA [97]) (fetch manifestOfA [97]) := by
    intro n s e run he
    match n with
    | 0 =>
      obtain ⟨⟩ := he
      obtain rfl := run.eq_of_nil
      exact fun _ i hi => absurd hi (Finset.notMem_empty i)
    | 4 =>
      obtain ⟨⟩ := he
      exact fun _ _ _ _ => rfl
    | 1 | 2 | 3 | 5 | 6 | 7 =>
      obtain ⟨⟩ := he
      trivial
    | k + 8 => cases he
  obtain ⟨s', run, hstore, -, -⟩ := (wasmDownload_safe run_fetch_manifestOfA).2.2.1 _ [97] rfl rfl
    (by decide) rfl rfl rfl haccepts
  exact ⟨s', run, by rw [hstore]; rfl⟩

/-- **Where it does not hold:** a crash between the two removals leaves a claim without bytes, and
so does one after a re-open has cut the part file; a sha256 in upper case passes validation and is
not that of its module; and a module that appears after its name was found free is replaced. -/
theorem wasmDownload_not_safe :
    (∃ s, Run (DownloadStep hashesOfA manifestOfA.sha256) ⟨emptyDisk, none, []⟩
        (fetch manifestOfA [97] ++ [.install, .tick, .tick, .tick, .crash 0]) s ∧
      ¬ClaimsVerified hashesOfA s.disk) ∧
    (∃ s, Run (DownloadStep hashesOfA manifestOfA.sha256) ⟨emptyDisk, none, []⟩
        (fetch wrongManifestOfA [97, 97] ++ [.drop, .open manifestOfA, .tick, .crash 0]) s ∧
      ¬ClaimsVerified hashesOfA s.disk) ∧
    (∃ d s', Run (DownloadStep hashesOfA upperManifestOfA.sha256) ⟨emptyDisk, none, []⟩
        (fetch upperManifestOfA [97]) ⟨fetchedDisk upperManifestOfA [97], some d, []⟩ ∧
      d.isComplete = true ∧
      Run (DownloadStep hashesOfA upperManifestOfA.sha256)
        ⟨fetchedDisk upperManifestOfA [97], some d, []⟩ [.install, .tick, .tick] s' ∧
      s'.memory = none ∧ s'.pending = [] ∧ s'.disk = emptyDisk) ∧
    ∃ s s', Run (DownloadStep hashesOfA manifestOfA.sha256) ⟨emptyDisk, none, []⟩
        (fetch manifestOfA [97] ++ [.install, .tick, .other "a.wasm" (some [1])]) s ∧
      DownloadStep hashesOfA manifestOfA.sha256 s .tick s' ∧
      s.disk.store "a.wasm" = some [1] ∧ s'.disk.store "a.wasm" = some [97] := by
  refine ⟨⟨_, run_fetch_manifestOfA.append (.cons step_install_manifestOfA (.cons .tick (.cons .tick
    (.cons .tick (.cons .crash .nil))))), ?_⟩, ?_, ?_, ?_⟩
  · intro hclaims
    obtain ⟨file, hpart, -⟩ := hclaims ⟨manifestOfA, {0}⟩ rfl 0 (Finset.mem_singleton_self 0)
    cases hpart
  · have run : Run (DownloadStep hashesOfA manifestOfA.sha256) ⟨emptyDisk, none, []⟩
        (fetch wrongManifestOfA [97, 97])
        ⟨fetchedDisk wrongManifestOfA [97, 97], some ⟨wrongManifestOfA, {0}⟩, []⟩ :=
      run_fetch (m := wrongManifestOfA) (by decide +kernel) rfl (by decide)
    refine ⟨_, run.append (.cons .drop (.cons (.open (by decide +kernel) rfl) (.cons .tick
      (.cons .crash .nil)))), fun hclaims => ?_⟩
    obtain ⟨file, hpart, data, hdata, -⟩ :=
      hclaims ⟨wrongManifestOfA, {0}⟩ rfl 0 (Finset.mem_singleton_self 0)
    obtain rfl : [97] = file := Option.some.inj hpart
    cases hdata
  · have hops : (PartialDownload.install hashesOfA ⟨upperManifestOfA, {0}⟩
        (fetchedDisk upperManifestOfA [97])).1 = [.removePart, .removeMeta] := by
      rw [PartialDownload.install_of_mismatch (by decide) rfl rfl (by decide +kernel)]
      rfl
    refine ⟨⟨upperManifestOfA, {0}⟩, ⟨emptyDisk, none, []⟩,
      run_fetch (by decide +kernel) rfl (by decide), by decide, .cons .install ?_, rfl, rfl, rfl⟩
    rw [hops]
    exact .cons .tick (.cons .tick .nil)
  · exact ⟨_, _, run_fetch_manifestOfA.append (.cons step_install_manifestOfA (.cons .tick
      (.cons .other .nil))), .tick, rfl, rfl⟩

end RustExample.OpenraftCluster
