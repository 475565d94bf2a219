import Mathlib.Data.List.Sort
import RustExample.Foundation.Combination
import RustExample.OpenraftCluster.LogStore.Integrity
import RustExample.OpenraftCluster.StateMachine.Failures
import RustExample.OpenraftCluster.Tasks.Scans

/-!
# The files of the snapshot directory

Two orders are defined on the snapshot files. What is loaded is the file of the greatest last log
id, and of the greatest file id among these; what is kept are the files of the greatest epoch,
which the file name tells. A file without an epoch counts as one of epoch zero, and a file that
carries no id has its name for one.

Source: `src/rocksstore_crud/state_machine.rs`.

* The bytes of a file and their decoding are left out: a file carries what it decodes to, if it
  can be read.
* A file whose name is no text is passed over by every scan, and not listed here.
* How a leader id and a UUID are printed are parameters.
-/

namespace RustExample.OpenraftCluster.SnapshotDir

open List

variable {M : Type}

def snapshotEpochPrefix : String := "epoch_"

/-- What a snapshot file holds. -/
structure SnapshotFile (M : Type) where
  metadata : SnapshotMeta M
  fileId : String
  data : List (ByteArray × ByteArray)

/-- An entry of the snapshot directory, with what its file decodes to. -/
structure DirFile (M : Type) where
  name : String
  isFile : Bool
  content : Option (SnapshotFile M)

/-! ### Loading -/

/-- The candidate has the later last log id. -/
def snapshotIsNewer (candidate current : SnapshotFile M) : Bool :=
  match candidate.metadata.lastLogId, current.metadata.lastLogId with
  | some candidateLog, some currentLog =>
    candidateLog > currentLog ∨
      candidateLog = currentLog ∧ candidate.fileId > current.fileId
  | some _, none => true
  | none, some _ => false
  | none, none => candidate.fileId > current.fileId

/-- The file may be a snapshot. -/
def isSnapshotCandidate (file : DirFile M) : Bool :=
  file.isFile && !file.name.endsWith snapshotTmpSuffix

/-- Read a file; one that carries no id gets its name for one. -/
def readSnapshotFile (file : DirFile M) : Option (SnapshotFile M) :=
  file.content.map fun snapshotFile =>
    if snapshotFile.fileId.isEmpty then { snapshotFile with fileId := file.name }
    else snapshotFile

/-- The candidates that can be read. -/
def readable (dir : List (DirFile M)) : List (SnapshotFile M) :=
  (dir.filter isSnapshotCandidate).filterMap readSnapshotFile

/-- The operation of the parallel reduction. -/
def keepNewer (current candidate : SnapshotFile M) : SnapshotFile M :=
  if snapshotIsNewer candidate current then candidate else current

/-- The newest file, with the candidates combined from the first to the last. -/
def readLatestSnapshotFile (dir : List (DirFile M)) : Option (SnapshotFile M) :=
  match readable dir with
  | [] => none
  | file :: files => some (files.foldl keepNewer file)

/-! ### Names and epochs -/

/-- The name of a snapshot file. -/
def snapshotFileName (epoch : ℕ) (fileId : String) : String :=
  snapshotEpochPrefix ++ String.ofList (KeyText.padded 10 epoch) ++ "-" ++ fileId

/-- The id of a file: the last log id, and the text of a fresh UUID. -/
def newSnapshotFileId (leaderText : UInt64 → String → String) (lastLogId : Option LogId)
    (snapshotUuid : String) : String :=
  match lastLogId with
  | some last =>
    leaderText last.term last.nodeId ++ "-" ++ toString last.index.toNat ++ "-" ++ snapshotUuid
  | none => "--" ++ snapshotUuid

/-- The epoch in a name. -/
def parseSnapshotEpoch (name : String) : Option ℕ := do
  let rest ← stripPrefix name snapshotEpochPrefix
  let epoch ← parseU64 (String.ofList (rest.toList.takeWhile (· ≠ '-')))
  return epoch.toNat

/-- One past the highest epoch of the directory. -/
def nextSnapshotEpoch (dir : List (DirFile M)) : ℕ :=
  (dir.filterMap fun file => parseSnapshotEpoch file.name).foldl max 0 + 1

/-! ### Pruning -/

/-- The epoch of a file; one without counts as zero. -/
def epochOf (name : String) : ℕ := (parseSnapshotEpoch name).getD 0

/-- What the files are ordered by when they are pruned. -/
def pruneKey (name : String) : ℕ ×ₗ String := toLex (epochOf name, name)

/-- What pruning removes: temporary files of other processes, and all but the first candidates. -/
def pruneOldSnapshots (ownTmpMarker : String) (keep : ℕ) (dir : List (DirFile M)) : List String :=
  let stale := (dir.map DirFile.name).filter fun name =>
    name.endsWith snapshotTmpSuffix && !name.endsWith ownTmpMarker
  let candidates := (dir.filter isSnapshotCandidate).map DirFile.name
  if candidates.length ≤ keep then stale
  else stale ++ (candidates.insertionSort fun a b => pruneKey b ≤ pruneKey a).drop keep

/-! ### The order of loading -/

/-- Log ids in order, with none before all of them. -/
def logRank : Option LogId → WithBot LogId
  | some id => id
  | none => ⊥

/-- What the files are ordered by when they are loaded. -/
def SnapshotFile.rank (file : SnapshotFile M) : WithBot LogId ×ₗ String :=
  toLex (logRank file.metadata.lastLogId, file.fileId)

theorem snapshotIsNewer_iff {candidate current : SnapshotFile M} :
    snapshotIsNewer candidate current = true ↔ current.rank < candidate.rank := by
  obtain ⟨⟨candidateLog, _⟩, _, _⟩ := candidate
  obtain ⟨⟨currentLog, _⟩, _, _⟩ := current
  rw [SnapshotFile.rank, SnapshotFile.rank, Prod.Lex.toLex_lt_toLex]
  cases candidateLog with
  | none => cases currentLog <;> simp [snapshotIsNewer, logRank]
  | some log =>
    cases currentLog with
    | none => simp [snapshotIsNewer, logRank]
    | some log' =>
      have hcomm : log = log' ↔ log' = log := eq_comm
      simp [snapshotIsNewer, logRank, hcomm]

theorem keepsGreater_keepNewer : KeepsGreater SnapshotFile.rank (keepNewer (M := M)) := by
  intro current candidate
  unfold keepNewer
  split_ifs with h <;> rw [snapshotIsNewer_iff] at h
  · exact .inr ⟨rfl, h.le⟩
  · exact .inl ⟨rfl, not_lt.mp h⟩

variable {dir : List (DirFile M)} {snapshotFile : SnapshotFile M}

theorem mem_readable :
    snapshotFile ∈ readable dir ↔
      ∃ file ∈ dir, isSnapshotCandidate file = true ∧
        readSnapshotFile file = some snapshotFile := by
  simp [readable, and_assoc]

variable {latest : SnapshotFile M}

theorem greatest_of_readLatest (h : readLatestSnapshotFile dir = some latest) :
    latest ∈ readable dir ∧ ∀ other ∈ readable dir, other.rank ≤ latest.rank := by
  unfold readLatestSnapshotFile at h
  split at h
  · cases h
  · rename_i file files hdir
    obtain ⟨⟩ := h
    have := Combination.reduce_greatest keepsGreater_keepNewer (Combination.ofList file files)
    rwa [Combination.items_ofList, Combination.reduce_ofList, ← hdir] at this

theorem exists_readLatest (h : snapshotFile ∈ readable dir) :
    ∃ latest, readLatestSnapshotFile dir = some latest := by
  unfold readLatestSnapshotFile
  split
  · rename_i hdir
    simp [hdir] at h
  · exact ⟨_, rfl⟩

/-- No two files that can be read rank the same. -/
def RanksApart (dir : List (DirFile M)) : Prop :=
  ∀ file ∈ readable dir, ∀ other ∈ readable dir, file.rank = other.rank → file = other

/-- **What is loaded does not depend on how the candidates are combined** or grouped. -/
theorem reduce_eq_readLatest (hdir : RanksApart dir) {c : Combination (SnapshotFile M)}
    (hc : c.items.Perm (readable dir)) :
    readLatestSnapshotFile dir = some (c.reduce keepNewer) := by
  unfold readLatestSnapshotFile
  split
  · rename_i hnil
    rw [hnil] at hc
    exact absurd hc.eq_nil c.items_ne_nil
  · rename_i file files hcons
    have hperm : c.items.Perm (Combination.ofList file files).items := by
      rwa [Combination.items_ofList, ← hcons]
    rw [← Combination.reduce_ofList, Combination.reduce_eq_of_perm keepsGreater_keepNewer hperm]
    exact fun a ha b hb => hdir a (hc.mem_iff.mp ha) b (hc.mem_iff.mp hb)

theorem readLatest_eq (hdir : RanksApart dir) (hmem : latest ∈ readable dir)
    (hmax : ∀ other ∈ readable dir, other.rank ≤ latest.rank) :
    readLatestSnapshotFile dir = some latest := by
  obtain ⟨latest', hlatest⟩ := exists_readLatest hmem
  obtain ⟨hmem', hmax'⟩ := greatest_of_readLatest hlatest
  rw [hlatest, hdir _ hmem' _ hmem (le_antisymm (hmax _ hmem') (hmax' _ hmem))]

/-! ### Names of new files -/

theorem endsWith_iff {name pattern : String} :
    name.endsWith pattern = true ↔ pattern.toList <:+ name.toList := by
  have hcopy : name.toSlice.copy = name := String.copy_toSlice
  rw [String.endsWith, String.Slice.endsWith_string_iff, hcopy]

/-- A suffix without the separator lies behind it. -/
theorem isSuffix_of_notMem {α : Type} {c : α} {s l t : List α} (hc : c ∉ s)
    (h : s <:+ l ++ c :: t) : s <:+ t := by
  have hback : (c :: t) <:+ l ++ c :: t := suffix_append l _
  rcases suffix_or_suffix_of_suffix h hback with h | h
  · rcases List.suffix_cons_iff.mp h with rfl | h
    · exact absurd mem_cons_self hc
    · exact h
  · exact absurd (h.subset mem_cons_self) hc

theorem exists_newSnapshotFileId (leaderText : UInt64 → String → String)
    (lastLogId : Option LogId) :
    ∃ front, ∀ snapshotUuid, newSnapshotFileId leaderText lastLogId snapshotUuid =
      front ++ "-" ++ snapshotUuid := by
  cases lastLogId with
  | none => exact ⟨"-", fun _ => rfl⟩
  | some last => exact ⟨_, fun _ => rfl⟩

theorem newSnapshotFileId_lt_iff (leaderText : UInt64 → String → String)
    (lastLogId : Option LogId) {u v : String} :
    newSnapshotFileId leaderText lastLogId u < newSnapshotFileId leaderText lastLogId v ↔
      u < v := by
  obtain ⟨front, hfront⟩ := exists_newSnapshotFileId leaderText lastLogId
  have hlt (s t : String) : s < t ↔ s.toList < t.toList := Iff.rfl
  have hlist (s : String) : (front ++ "-" ++ s).toList = (front ++ "-").toList ++ s.toList :=
    String.toList_append
  rw [hfront, hfront, hlt, hlt u v, hlist, hlist, KeyText.append_lt_append_iff rfl]
  simp

theorem newSnapshotFileId_ne_empty (leaderText : UInt64 → String → String)
    (lastLogId : Option LogId) (u : String) : newSnapshotFileId leaderText lastLogId u ≠ "" := by
  obtain ⟨front, hfront⟩ := exists_newSnapshotFileId leaderText lastLogId
  rw [hfront]
  intro h
  simpa using congrArg String.toList h

theorem not_tmp_snapshotFileName {leaderText : UInt64 → String → String} {u : String}
    (hu : '.' ∉ u.toList) (epoch : ℕ) (lastLogId : Option LogId) :
    (snapshotFileName epoch (newSnapshotFileId leaderText lastLogId u)).endsWith
      snapshotTmpSuffix = false := by
  obtain ⟨front, hfront⟩ := exists_newSnapshotFileId leaderText lastLogId
  rw [Bool.eq_false_iff, ne_eq, endsWith_iff, hfront]
  intro h
  have hlist : (snapshotFileName epoch (front ++ "-" ++ u)).toList =
      (snapshotFileName epoch front).toList ++ '-' :: u.toList := by
    simp [snapshotFileName]
  rw [hlist] at h
  have hdash : '-' ∉ snapshotTmpSuffix.toList := by decide
  have hdot : '.' ∈ snapshotTmpSuffix.toList := by decide
  exact hu ((isSuffix_of_notMem hdash h).subset hdot)

@[simp] theorem epochOf_snapshotFileName {epoch : ℕ} (h : epoch < 2 ^ 64) (fileId : String) :
    epochOf (snapshotFileName epoch fileId) = epoch := by
  have hname : snapshotFileName epoch fileId =
      snapshotEpochPrefix ++ (String.ofList (KeyText.padded 10 epoch) ++ "-" ++ fileId) := by
    simp only [snapshotFileName, String.append_assoc]
  have hdigit : ∀ c ∈ KeyText.padded 10 epoch, decide (c ≠ '-') = true := fun c hc =>
    decide_eq_true fun heq => absurd (heq ▸ KeyText.isDigit_of_mem_padded hc) (by decide)
  have hlist : (String.ofList (KeyText.padded 10 epoch) ++ "-" ++ fileId).toList =
      KeyText.padded 10 epoch ++ '-' :: fileId.toList := by simp
  have hfirst : (KeyText.padded 10 epoch ++ '-' :: fileId.toList).takeWhile (· ≠ '-') =
      KeyText.padded 10 epoch := by
    rw [takeWhile_append_of_pos hdigit]
    simp
  rw [epochOf, parseSnapshotEpoch, hname, stripPrefix_append]
  simp only [Option.bind_eq_bind, Option.bind_some, hlist, hfirst, parseU64_padded h]
  exact UInt64.toNat_ofNat_of_lt' h

/-! ### The order of pruning -/

theorem pruneKey_injective : Function.Injective pruneKey := fun _ _ h =>
  (Prod.mk.inj (toLex_inj.mp h)).2

theorem epochOf_le_of_pruneKey_lt {name other : String} (h : pruneKey name < pruneKey other) :
    epochOf name ≤ epochOf other := by
  rcases Prod.Lex.toLex_lt_toLex.mp h with h | ⟨h, -⟩
  · exact h.le
  · exact h.le

theorem pruneKey_lt_of_epochOf_lt {name other : String} (h : epochOf name < epochOf other) :
    pruneKey name < pruneKey other :=
  Prod.Lex.toLex_lt_toLex.mpr (.inl h)

theorem le_foldl_max {l : List ℕ} {a n : ℕ} (h : n ≤ a ∨ n ∈ l) : n ≤ l.foldl max a := by
  induction l generalizing a with
  | nil => simpa using h
  | cons b l ih =>
    rw [foldl_cons]
    refine ih ?_
    rcases h with h | h
    · exact .inl (h.trans (le_max_left a b))
    · rcases List.mem_cons.mp h with rfl | h
      · exact .inl (le_max_right a n)
      · exact .inr h

/-- The next epoch is greater than those of the directory. -/
theorem epochOf_lt_nextSnapshotEpoch {file : DirFile M} (h : file ∈ dir) :
    epochOf file.name < nextSnapshotEpoch dir := by
  rw [nextSnapshotEpoch, Nat.lt_succ_iff, epochOf]
  cases hparse : parseSnapshotEpoch file.name with
  | none => exact Nat.zero_le _
  | some epoch => exact le_foldl_max (.inr (List.mem_filterMap.mpr ⟨file, h, hparse⟩))

/-- The names of the snapshots. -/
def candidateNames (dir : List (DirFile M)) : List String :=
  (dir.filter isSnapshotCandidate).map DirFile.name

/-- **A candidate that is pruned is not among the first two** of the order of pruning. -/
theorem two_above_of_mem_prune {ownTmpMarker : String} {keep : ℕ} {name : String} (hkeep : 2 ≤ keep)
    (hdir : (dir.map DirFile.name).Nodup) (hname : name ∈ pruneOldSnapshots ownTmpMarker keep dir) :
    name.endsWith snapshotTmpSuffix = true ∨
      ∃ a ∈ candidateNames dir, ∃ b ∈ candidateNames dir,
        pruneKey name < pruneKey a ∧ pruneKey a < pruneKey b ∧
          ∀ c ∈ candidateNames dir, pruneKey c ≤ pruneKey b := by
  have hstale : name ∈ ((dir.map DirFile.name).filter fun name =>
      name.endsWith snapshotTmpSuffix && !name.endsWith ownTmpMarker) →
      name.endsWith snapshotTmpSuffix = true := fun h => by
    have := (List.mem_filter.mp h).2
    rw [Bool.and_eq_true] at this
    exact this.1
  simp only [pruneOldSnapshots] at hname
  split_ifs at hname with hlength
  · exact .inl (hstale hname)
  rcases List.mem_append.mp hname with h | hdrop
  · exact .inl (hstale h)
  refine .inr ?_
  change name ∈ ((candidateNames dir).insertionSort _).drop keep at hdrop
  change ¬(candidateNames dir).length ≤ keep at hlength
  have hsorted := pairwise_insertionSort (fun a b => pruneKey b ≤ pruneKey a)
    (candidateNames dir)
  have hperm := perm_insertionSort (fun a b => pruneKey b ≤ pruneKey a) (candidateNames dir)
  have hnodup : ((candidateNames dir).insertionSort fun a b => pruneKey b ≤ pruneKey a).Nodup :=
    hperm.nodup_iff.mpr (hdir.sublist (List.filter_sublist.map _))
  generalize (candidateNames dir).insertionSort (fun a b => pruneKey b ≤ pruneKey a) = l at *
  match l, hperm.length_eq with
  | [], hl => simp at hl; omega
  | [_], hl => simp at hl; omega
  | b :: a :: rest, _ =>
    obtain ⟨keep, rfl⟩ := Nat.exists_eq_add_of_le' hkeep
    have hrest : name ∈ rest := mem_of_mem_drop hdrop
    obtain ⟨hb, ha⟩ := List.pairwise_cons.mp hsorted
    obtain ⟨hbn, han⟩ := List.nodup_cons.mp hnodup
    have hlt {c d : String} (hle : pruneKey c ≤ pruneKey d) (hne : c ≠ d) :
        pruneKey c < pruneKey d := lt_of_le_of_ne hle (pruneKey_injective.ne hne)
    refine ⟨a, hperm.mem_iff.mp (by simp), b, hperm.mem_iff.mp (by simp), ?_, ?_, fun c hc => ?_⟩
    · refine hlt ((List.pairwise_cons.mp ha).1 name hrest) ?_
      rintro rfl
      exact (List.nodup_cons.mp han).1 hrest
    · refine hlt (hb a mem_cons_self) ?_
      rintro rfl
      exact hbn mem_cons_self
    · rcases List.mem_cons.mp (hperm.mem_iff.mpr hc) with rfl | hc
      · exact le_rfl
      · exact hb c hc

end RustExample.OpenraftCluster.SnapshotDir
