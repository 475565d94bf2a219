import Mathlib.Data.List.Induction
import RustExample.Foundation.Upsert
import RustExample.OpenraftCluster.WasmSync.Manifest

/-!
# The cache of manifests

Making a manifest reads a whole file, so that manifests are cached. A cached one is used as long as
the modification time and the size of its file are what they were. An index leads from a content
hash to a file that had it, and is only a hint: its answer is checked again, and if it does not hold
the files of the store are scanned.

Source: `src/wasm_sync/mod.rs`, `src/tasks/wasm_runtime.rs` (`WasmModuleStore`).

* The hash functions are parameters. A file that is there can be read.
* A look-up is one step, and so is the making of a manifest. Files come and go between them.
* A path is a directory with a name in it. The files are a list of which the first for a path
  counts, and so are the maps of the cache.
-/

namespace RustExample.OpenraftCluster

open List

/-! ### Files -/

/-- The path of a module. -/
structure ModulePath where
  dir : String
  name : String
  deriving DecidableEq

/-- `mtime` is missing where the platform does not tell it. -/
structure StoredFile where
  mtime : Option ℕ
  bytes : List UInt8
  deriving DecidableEq

/-- The files of the store. -/
abbrev StoredFiles := List (ModulePath × StoredFile)

/-- A `.wasm` or `.wat` file. -/
def isModuleFile (name : String) : Bool :=
  ['.', 'w', 'a', 's', 'm'].isSuffixOf name.toList || ['.', 'w', 'a', 't'].isSuffixOf name.toList

/-- The names that `WasmModuleStore::list` finds in a directory. -/
def listModules (files : StoredFiles) (dir : String) : List String :=
  let names := (files.filter fun f => f.1.dir = dir).map fun f => f.1.name
  (names.filter isModuleFile).mergeSort fun a b => decide (a ≤ b)

/-! ### The cache -/

/-- A manifest with its file's time and size. -/
structure CachedManifest where
  mtime : Option ℕ
  size : ℕ
  manifest : WasmModuleManifest
  deriving DecidableEq

/-- The manifests by path and by hash. -/
structure ManifestCache where
  byPath : List (ModulePath × CachedManifest)
  bySha256 : List (String × ModulePath)
  deriving DecidableEq

def ManifestCache.empty : ManifestCache := ⟨[], []⟩

/-- The cached manifest of a file that looks unchanged. -/
def ManifestCache.cached (cache : ManifestCache) (path : ModulePath) (file : StoredFile) :
    Option WasmModuleManifest :=
  match findBy Prod.fst cache.byPath path with
  | some (_, c) =>
    if c.mtime = file.mtime ∧ c.size = file.bytes.length then some c.manifest else none
  | none => none

/-- A hash that the file had before leads to it no longer. -/
def ManifestCache.record (cache : ManifestCache) (path : ModulePath) (c : CachedManifest) :
    ManifestCache where
  byPath := upsertBy Prod.fst cache.byPath (path, c)
  bySha256 :=
    let index := match findBy Prod.fst cache.byPath path with
      | some (_, previous) =>
        if previous.manifest.sha256 = c.manifest.sha256 then cache.bySha256
        else cache.bySha256.filter fun e => e.1 ≠ previous.manifest.sha256
      | none => cache.bySha256
    upsertBy Prod.fst index (c.manifest.sha256, path)

/-- The error for a missing file. -/
def statError (path : ModulePath) : String :=
  "stat " ++ path.dir ++ "/" ++ path.name ++ ": No such file or directory (os error 2)"

/-- The manifest of a file. -/
def manifestForFile (h : ModuleHashes) (files : StoredFiles) (cache : ManifestCache)
    (path : ModulePath) : Except String WasmModuleManifest × ManifestCache :=
  match findBy Prod.fst files path with
  | none => (.error (statError path), cache)
  | some (_, file) =>
    match cache.cached path file with
    | some manifest => (.ok manifest, cache)
    | none =>
      let manifest := WasmModuleManifest.fromBytes h path.name file.bytes
      (.ok manifest, cache.record path ⟨file.mtime, file.bytes.length, manifest⟩)

/-- Whether a manifest can be made for a path, with the content hash that is asked for. -/
def hasSha256 (h : ModuleHashes) (files : StoredFiles) (cache : ManifestCache) (path : ModulePath)
    (sha256 : String) : Bool × ManifestCache :=
  let (manifest, cache) := manifestForFile h files cache path
  (match manifest with
    | .ok manifest => manifest.sha256 == sha256
    | .error _ => false, cache)

/-- The first name of a list whose file has the content hash. -/
def scanModules (h : ModuleHashes) (files : StoredFiles) (dir sha256 : String) :
    List String → ManifestCache → Option ModulePath × ManifestCache
  | [], cache => (none, cache)
  | name :: names, cache =>
    let (found, cache) := hasSha256 h files cache ⟨dir, name⟩ sha256
    if found then (some ⟨dir, name⟩, cache) else scanModules h files dir sha256 names cache

/-- The look-up of a content hash in the store of a directory. -/
def modulePathBySha256 (h : ModuleHashes) (files : StoredFiles) (cache : ManifestCache)
    (dir sha256 : String) : Option ModulePath × ManifestCache :=
  match findBy Prod.fst cache.bySha256 sha256 with
  | some (_, path) =>
    if path.dir = dir then
      let (found, cache) := hasSha256 h files cache path sha256
      if found then (some path, cache)
      else scanModules h files dir sha256 (listModules files dir) cache
    else scanModules h files dir sha256 (listModules files dir) cache
  | none => scanModules h files dir sha256 (listModules files dir) cache

/-! ### Runs -/

/-- The files and the cache. -/
structure StoreState where
  files : StoredFiles
  cache : ManifestCache

/-- `deploy` puts a new file in the place of the one at its path, if there is one. -/
inductive StoreEvent where
  | deploy (path : ModulePath) (file : StoredFile)
  | delete (path : ModulePath)
  | makeManifest (path : ModulePath)
  | lookUp (dir sha256 : String)

/-- What an event does. -/
def StoreEvent.apply (h : ModuleHashes) (st : StoreState) : StoreEvent → StoreState
  | .deploy path file => { st with files := upsertBy Prod.fst st.files (path, file) }
  | .delete path => { st with files := st.files.filter fun f => f.1 ≠ path }
  | .makeManifest path => { st with cache := (manifestForFile h st.files st.cache path).2 }
  | .lookUp dir sha256 =>
    { st with cache := (modulePathBySha256 h st.files st.cache dir sha256).2 }

/-- A process starts with some files and an empty cache. -/
def StoreRun (h : ModuleHashes) (files₀ : StoredFiles) (es : List StoreEvent) : StoreState :=
  es.foldl (StoreEvent.apply h) ⟨files₀, .empty⟩

/-- The file that an event puts at a path. -/
def StoreEvent.deployed : StoreEvent → Option (ModulePath × StoredFile)
  | .deploy path file => some (path, file)
  | _ => none

/-- All files that were in the store at some time. -/
def versions (files₀ : StoredFiles) (es : List StoreEvent) : StoredFiles :=
  files₀ ++ es.filterMap StoreEvent.deployed

/-- A new file has another time or size than the one before it at its path, or the same content. -/
def ChangesTell (versions : StoredFiles) : Prop :=
  ∀ path, (versions.filter fun v => v.1 = path).IsChain fun v w => v.2.mtime = w.2.mtime →
    v.2.bytes.length = w.2.bytes.length → v.2.bytes = w.2.bytes

/-- No two files that a path ever had differ in content alone. -/
def StampsTell (versions : StoredFiles) : Prop :=
  ∀ v ∈ versions, ∀ w ∈ versions, v.1 = w.1 → v.2.mtime = w.2.mtime →
    v.2.bytes.length = w.2.bytes.length → v.2.bytes = w.2.bytes

instance (versions : StoredFiles) : Decidable (StampsTell versions) :=
  inferInstanceAs (Decidable (∀ v ∈ versions, ∀ w ∈ versions, _ → _))

/-- The file of a path has content with a hash. -/
def HashesTo (h : ModuleHashes) (files : StoredFiles) (path : ModulePath) (sha256 : String) :
    Prop :=
  ∃ file, findBy Prod.fst files path = some (path, file) ∧ moduleHash h file.bytes = sha256

/-! ### Manifests are those of the files -/

variable {h : ModuleHashes} {vs files : StoredFiles} {cache : ManifestCache} {path : ModulePath}
  {file : StoredFile} {dir sha256 : String}

/-- The cached manifest of a version of a file. -/
def manifestOf (h : ModuleHashes) (path : ModulePath) (file : StoredFile) : CachedManifest :=
  ⟨file.mtime, file.bytes.length, WasmModuleManifest.fromBytes h path.name file.bytes⟩

/-- What is cached was made from versions of the files. -/
def Fresh (h : ModuleHashes) (vs : StoredFiles) (cache : ManifestCache) : Prop :=
  ∀ e ∈ cache.byPath, ∃ file, (e.1, file) ∈ vs ∧ e.2 = manifestOf h e.1 file

theorem fresh_empty : Fresh h vs .empty := by
  simp [Fresh, ManifestCache.empty]

theorem Fresh.mono {vs' : StoredFiles} (hfresh : Fresh h vs cache) (hsub : vs ⊆ vs') :
    Fresh h vs' cache := by
  intro e he
  obtain ⟨file, hfile, heq⟩ := hfresh e he
  exact ⟨file, hsub hfile, heq⟩

theorem Fresh.record (hfresh : Fresh h vs cache) (hfile : (path, file) ∈ vs) :
    Fresh h vs (cache.record path (manifestOf h path file)) := by
  intro e he
  rcases eq_or_mem_of_mem_upsertBy he with rfl | he
  · exact ⟨file, hfile, rfl⟩
  · exact hfresh e he

theorem mem_of_findBy_files (hfile : findBy Prod.fst files path = some (path, file))
    (hsub : files ⊆ vs) : (path, file) ∈ vs :=
  hsub (mem_of_findBy hfile)

/-- A cached manifest is that of the file, as its version has the stamp of the file. -/
theorem Fresh.cached (hfresh : Fresh h vs cache) (htell : StampsTell vs) (hfile : (path, file) ∈ vs)
    {manifest : WasmModuleManifest} (hcached : cache.cached path file = some manifest) :
    manifest = WasmModuleManifest.fromBytes h path.name file.bytes := by
  rw [ManifestCache.cached] at hcached
  rcases hfind : findBy Prod.fst cache.byPath path with _ | ⟨path', c⟩
  · simp [hfind] at hcached
  · obtain rfl : path' = path := key_eq_of_findBy Prod.fst hfind
    obtain ⟨version, hversion, hc⟩ := hfresh _ (mem_of_findBy hfind)
    obtain rfl : c = manifestOf h path' version := hc
    simp only [hfind, Option.ite_none_right_eq_some, Option.some.injEq, manifestOf] at hcached
    obtain ⟨⟨hmtime, hsize⟩, rfl⟩ := hcached
    rw [htell _ hversion _ hfile rfl hmtime hsize]

theorem Fresh.manifest_eq (hfresh : Fresh h vs cache) (htell : StampsTell vs)
    (hsub : files ⊆ vs) (hfile : findBy Prod.fst files path = some (path, file)) :
    (manifestForFile h files cache path).1 = .ok (.fromBytes h path.name file.bytes) := by
  rw [manifestForFile, hfile]
  rcases hcached : cache.cached path file with _ | manifest
  · simp [hcached]
  · simp [hcached, hfresh.cached htell (mem_of_findBy_files hfile hsub) hcached]

theorem Fresh.after_manifest (hfresh : Fresh h vs cache) (hsub : files ⊆ vs) (path : ModulePath) :
    Fresh h vs (manifestForFile h files cache path).2 := by
  rw [manifestForFile]
  rcases hfind : findBy Prod.fst files path with _ | ⟨path', file⟩
  · exact hfresh
  · obtain rfl : path' = path := key_eq_of_findBy Prod.fst hfind
    rcases hcached : cache.cached path' file with _ | manifest
    · simpa [hcached, manifestOf] using hfresh.record (mem_of_findBy_files hfind hsub)
    · simpa [hcached] using hfresh

/-! ### Look-ups -/

theorem Fresh.hasSha256_iff (hfresh : Fresh h vs cache) (htell : StampsTell vs) (hsub : files ⊆ vs)
    (path : ModulePath) (sha256 : String) :
    (hasSha256 h files cache path sha256).1 = true ↔ HashesTo h files path sha256 := by
  rw [hasSha256, HashesTo]
  rcases hfind : findBy Prod.fst files path with _ | ⟨path', file⟩
  · simp [manifestForFile, hfind]
  · obtain rfl : path' = path := key_eq_of_findBy Prod.fst hfind
    simp [hfresh.manifest_eq htell hsub hfind, WasmModuleManifest.fromBytes]

theorem Fresh.after_hasSha256 (hfresh : Fresh h vs cache) (hsub : files ⊆ vs) (path : ModulePath)
    (sha256 : String) :
    Fresh h vs (hasSha256 h files cache path sha256).2 :=
  hfresh.after_manifest hsub path

variable {P : ManifestCache → Prop}

/-- What every making of a manifest keeps, a scan keeps. -/
theorem keeps_scanModules (hP : ∀ cache path, P cache → P (manifestForFile h files cache path).2)
    (names : List String) (hcache : P cache) :
    P (scanModules h files dir sha256 names cache).2 := by
  induction names generalizing cache with
  | nil => exact hcache
  | cons name names ih =>
    have hnext : P (hasSha256 h files cache ⟨dir, name⟩ sha256).2 := hP cache _ hcache
    rw [scanModules]
    dsimp only
    split_ifs
    · exact hnext
    · exact ih hnext

/-- What every making of a manifest keeps, a look-up keeps. -/
theorem keeps_look_up (hP : ∀ cache path, P cache → P (manifestForFile h files cache path).2)
    (dir sha256 : String) (hcache : P cache) :
    P (modulePathBySha256 h files cache dir sha256).2 := by
  rw [modulePathBySha256]
  rcases findBy Prod.fst cache.bySha256 sha256 with _ | ⟨_, path⟩
  · exact keeps_scanModules hP _ hcache
  · have hnext : P (hasSha256 h files cache path sha256).2 := hP cache path hcache
    dsimp only
    split_ifs
    · exact hnext
    · exact keeps_scanModules hP _ hnext
    · exact keeps_scanModules hP _ hcache

/-- An answer that is right, and misses none of the names. -/
structure RightAnswer (h : ModuleHashes) (files : StoredFiles) (dir sha256 : String)
    (names : List String) (answer : Option ModulePath) : Prop where
  found : ∀ path, answer = some path → path.dir = dir ∧ HashesTo h files path sha256
  missed : answer = none → ∀ name ∈ names, ¬HashesTo h files ⟨dir, name⟩ sha256

/-- By induction on the names, with the cache as it is at each. -/
theorem Fresh.scan_right (hfresh : Fresh h vs cache) (htell : StampsTell vs) (hsub : files ⊆ vs)
    (names : List String) :
    RightAnswer h files dir sha256 names (scanModules h files dir sha256 names cache).1 := by
  induction names generalizing cache with
  | nil => exact ⟨by simp [scanModules], by simp⟩
  | cons name names ih =>
    have hhas := hfresh.hasSha256_iff htell hsub ⟨dir, name⟩ sha256
    have hnext := hfresh.after_hasSha256 hsub ⟨dir, name⟩ sha256
    rw [scanModules]
    by_cases hfound : (hasSha256 h files cache ⟨dir, name⟩ sha256).1 = true
    · simp only [hfound, if_true]
      refine ⟨?_, by simp⟩
      rintro path ⟨⟩
      exact ⟨rfl, hhas.mp hfound⟩
    · simp only [hfound]
      have hrest := ih hnext
      refine ⟨hrest.found, fun hnone => List.forall_mem_cons.mpr ⟨?_, ?_⟩⟩
      · rwa [← hhas]
      · exact hrest.missed hnone

/-- **A look-up** finds a file with the hash, and none only if no module has it. -/
theorem Fresh.look_up_right (hfresh : Fresh h vs cache) (htell : StampsTell vs)
    (hsub : files ⊆ vs) (dir sha256 : String) :
    RightAnswer h files dir sha256 (listModules files dir)
      (modulePathBySha256 h files cache dir sha256).1 := by
  rw [modulePathBySha256]
  rcases findBy Prod.fst cache.bySha256 sha256 with _ | ⟨_, path⟩
  · exact hfresh.scan_right htell hsub _
  · by_cases hdir : path.dir = dir
    · have hhas := hfresh.hasSha256_iff htell hsub path sha256
      have hnext := hfresh.after_hasSha256 hsub path sha256
      simp only [hdir, if_true]
      by_cases hfound : (hasSha256 h files cache path sha256).1 = true
      · simp only [hfound, if_true]
        refine ⟨?_, by simp⟩
        rintro p ⟨⟩
        exact ⟨hdir, hhas.mp hfound⟩
      · simpa only [hfound, if_false, Bool.false_eq_true] using hnext.scan_right htell hsub _
    · simpa only [hdir, if_false] using hfresh.scan_right htell hsub _

/-! ### The index -/

/-- Each hash of the index is that of the cached manifest of its path. -/
def Indexed (cache : ManifestCache) : Prop :=
  ∀ sha256 path, findBy Prod.fst cache.bySha256 sha256 = some (sha256, path) →
    ∃ c, findBy Prod.fst cache.byPath path = some (path, c) ∧ c.manifest.sha256 = sha256

theorem Indexed.record {c : CachedManifest} (hindexed : Indexed cache) :
    Indexed (cache.record path c) := by
  intro sha256 p hp
  rw [ManifestCache.record, findBy_upsertBy] at hp
  simp only [ManifestCache.record, findBy_upsertBy]
  by_cases hnew : c.manifest.sha256 = sha256
  · simp only [hnew, if_true, Option.some.injEq, Prod.mk.injEq, true_and] at hp
    exact ⟨c, by simp [hp], hnew⟩
  · rw [if_neg hnew] at hp
    -- The entry was there before, and the path has not lost its hash.
    by_cases hpath : path = p
    · subst hpath
      rcases hprevious : findBy Prod.fst cache.byPath path with _ | ⟨_, previous⟩
      · simp only [hprevious] at hp
        obtain ⟨old, hold, -⟩ := hindexed sha256 path hp
        simp [hprevious] at hold
      · simp only [hprevious] at hp
        split_ifs at hp with hsame
        · obtain ⟨old, hold, rfl⟩ := hindexed sha256 path hp
          simp only [hprevious, Option.some.injEq, Prod.mk.injEq] at hold
          exact absurd (hold.2 ▸ hsame.symm) hnew
        · rw [findBy_filter_ne] at hp
          split_ifs at hp with hgone
          obtain ⟨old, hold, rfl⟩ := hindexed sha256 path hp
          simp only [hprevious, Option.some.injEq, Prod.mk.injEq] at hold
          exact absurd (by rw [hold.2]) hgone
    · have hp' : findBy Prod.fst cache.bySha256 sha256 = some (sha256, p) := by
        rcases hprevious : findBy Prod.fst cache.byPath path with _ | ⟨_, previous⟩
        · simpa only [hprevious] using hp
        · simp only [hprevious] at hp
          split_ifs at hp
          · exact hp
          · rw [findBy_filter_ne] at hp
            split_ifs at hp
            exact hp
      simpa [hpath] using hindexed sha256 p hp'

theorem Indexed.after_manifest (hindexed : Indexed cache) :
    Indexed (manifestForFile h files cache path).2 := by
  rw [manifestForFile]
  rcases findBy Prod.fst files path with _ | ⟨_, file⟩
  · exact hindexed
  · rcases hcached : cache.cached path file with _ | manifest
    · simpa [hcached] using hindexed.record
    · simpa [hcached] using hindexed

/-! ### Runs of the store -/

variable {files₀ : StoredFiles} {es : List StoreEvent}

theorem subset_versions_snoc (files₀ : StoredFiles) (es : List StoreEvent) (e : StoreEvent) :
    versions files₀ es ⊆ versions files₀ (es ++ [e]) := by
  intro v hv
  rw [versions, filterMap_append, ← append_assoc]
  exact mem_append_left _ hv

theorem files_subset_versions (h : ModuleHashes) (files₀ : StoredFiles) (es : List StoreEvent) :
    (StoreRun h files₀ es).files ⊆ versions files₀ es := by
  induction es using List.reverseRecOn with
  | nil => simp [StoreRun, versions]
  | append_singleton es e ih =>
    have hmono := List.Subset.trans ih (subset_versions_snoc files₀ es e)
    rw [StoreRun, foldl_append]
    rcases e with ⟨path, file⟩ | path | path | ⟨dir, sha256⟩
    · intro v hv
      rcases eq_or_mem_of_mem_upsertBy hv with rfl | hv
      · simp [versions, StoreEvent.deployed]
      · exact hmono hv
    · exact fun v hv => hmono (mem_of_mem_filter hv)
    · exact hmono
    · exact hmono

theorem fresh_storeRun (htell : StampsTell (versions files₀ es)) :
    Fresh h (versions files₀ es) (StoreRun h files₀ es).cache := by
  induction es using List.reverseRecOn with
  | nil => exact fresh_empty
  | append_singleton es e ih =>
    have hsub := subset_versions_snoc files₀ es e
    have htell' : StampsTell (versions files₀ es) := fun v hv w hw =>
      htell v (hsub hv) w (hsub hw)
    have hfiles := files_subset_versions h files₀ es
    have hfresh := ih htell'
    rw [StoreRun, foldl_append]
    rcases e with ⟨path, file⟩ | path | path | ⟨dir, sha256⟩
    · exact hfresh.mono hsub
    · exact hfresh.mono hsub
    · exact (hfresh.after_manifest hfiles path).mono hsub
    · have hkeeps : Fresh h (versions files₀ es) _ :=
        keeps_look_up (fun _ path hcache => hcache.after_manifest hfiles path) dir sha256 hfresh
      exact hkeeps.mono hsub

/-- **The index** leads to paths that were last seen with the hash. -/
theorem indexed_storeRun : Indexed (StoreRun h files₀ es).cache := by
  induction es using List.reverseRecOn with
  | nil => simp [StoreRun, Indexed, ManifestCache.empty, findBy]
  | append_singleton es e ih =>
    rw [StoreRun, foldl_append]
    rcases e with ⟨path, file⟩ | path | path | ⟨dir, sha256⟩
    · exact ih
    · exact ih
    · exact ih.after_manifest
    · exact keeps_look_up (fun _ _ hcache => hcache.after_manifest) dir sha256 ih

/-- **Look-ups are right** after all events: an answer has the content asked for, and there is none
only if no module has it. -/
theorem module_look_up_correct (h : ModuleHashes) (files₀ : StoredFiles) (es : List StoreEvent)
    (htell : StampsTell (versions files₀ es)) (dir sha256 : String) :
    let st := StoreRun h files₀ es
    (∀ path, (modulePathBySha256 h st.files st.cache dir sha256).1 = some path →
      path.dir = dir ∧ HashesTo h st.files path sha256) ∧
    ((modulePathBySha256 h st.files st.cache dir sha256).1 = none →
      ∀ path, path.dir = dir → isModuleFile path.name = true →
        ¬HashesTo h st.files path sha256) := by
  intro st
  have hfresh : Fresh h (versions files₀ es) st.cache := fresh_storeRun htell
  have hright := hfresh.look_up_right htell (files_subset_versions h files₀ es) dir sha256
  refine ⟨hright.found, ?_⟩
  rintro hnone path rfl hmodule ⟨file, hfile, hsha⟩
  have hlisted : path.name ∈ listModules st.files path.dir := by
    have hmem := mem_of_findBy hfile
    simp only [listModules, mem_mergeSort, mem_filter, mem_map]
    exact ⟨⟨(path, file), by simpa using hmem, rfl⟩, hmodule⟩
  exact hright.missed hnone _ hlisted ⟨file, hfile, hsha⟩

/-- The third file at a path has the modification time and the size of the first. -/
def restoredStamp : List StoreEvent :=
  [.deploy ⟨"store", "a.wasm"⟩ ⟨some 1, [1]⟩, .lookUp "store" "01",
    .deploy ⟨"store", "a.wasm"⟩ ⟨some 2, [2]⟩, .deploy ⟨"store", "a.wasm"⟩ ⟨some 1, [3]⟩]

/-- **An old stamp brings back the old manifest**, although each change changed the stamp. -/
theorem restored_stamp_misleads :
    let h : ModuleHashes := ⟨fun _ => 0, fun source => source⟩
    let st := StoreRun h [] restoredStamp
    ChangesTell (versions [] restoredStamp) ∧
      (modulePathBySha256 h st.files st.cache "store" "01").1 = some ⟨"store", "a.wasm"⟩ ∧
      ¬HashesTo h st.files ⟨"store", "a.wasm"⟩ "01" := by
  refine ⟨fun path => ?_, by decide +kernel, ?_⟩
  · have hversions : versions [] restoredStamp = [(⟨"store", "a.wasm"⟩, ⟨some 1, [1]⟩),
        (⟨"store", "a.wasm"⟩, ⟨some 2, [2]⟩), (⟨"store", "a.wasm"⟩, ⟨some 1, [3]⟩)] := rfl
    by_cases hpath : ⟨"store", "a.wasm"⟩ = path <;> simp [hversions, hpath]
  · rintro ⟨file, hfile, hsha⟩
    obtain rfl : file = ⟨some 1, [3]⟩ := (Prod.mk.inj (Option.some.inj hfile)).2.symm
    exact absurd hsha (by decide)

/-- A hash moves to another file that goes away, and the first file gets new content. -/
def movedModule : List StoreEvent :=
  [.deploy ⟨"store", "a.wasm"⟩ ⟨some 1, [1]⟩, .lookUp "store" "01",
    .deploy ⟨"store", "b.wasm"⟩ ⟨some 1, [1]⟩, .makeManifest ⟨"store", "b.wasm"⟩,
    .delete ⟨"store", "b.wasm"⟩, .deploy ⟨"store", "a.wasm"⟩ ⟨some 2, [2]⟩]

theorem module_look_up_correct_moved :
    let h : ModuleHashes := ⟨fun _ => 0, fun source => source⟩
    let st := StoreRun h [] movedModule
    (∀ path, (modulePathBySha256 h st.files st.cache "store" "01").1 = some path →
      path.dir = "store" ∧ HashesTo h st.files path "01") ∧
    ((modulePathBySha256 h st.files st.cache "store" "01").1 = none →
      ∀ path, path.dir = "store" → isModuleFile path.name = true →
        ¬HashesTo h st.files path "01") :=
  module_look_up_correct ⟨fun _ => 0, fun source => source⟩ [] movedModule (by decide) "store" "01"

end RustExample.OpenraftCluster
