import Mathlib.Data.Finset.Max
import RustExample.OpenraftCluster.StateMachine.SnapshotRuns

/-!
# Pruning keeps the newest snapshot

Snapshot files are pruned in the order of their epochs and loaded in the order of their log ids.
The two orders differ by at most one file for each snapshot of a run, as one build and one install
overlap at most, so that the newest snapshot is among the two first of the order of pruning. With
an older file it is different: it goes before the files of the run, even if it would be loaded
instead of them because of its file id. A file of the same log id stays then.
-/

namespace RustExample.OpenraftCluster.SnapshotDir

open List

variable {M : Type}

/-- The texts of the UUIDs differ, and have no dot. -/
structure Uuids (nowV7 : List String) : Prop where
  nodup : nowV7.Nodup
  no_dot : ∀ u ∈ nowV7, '.' ∉ u.toList

/-- The file that is loaded, and what it holds. -/
structure IsLatest (dir : List (DirFile M)) (file : DirFile M) (snapshotFile : SnapshotFile M) :
    Prop where
  mem : file ∈ dir
  candidate : isSnapshotCandidate file = true
  read : readSnapshotFile file = some snapshotFile
  latest : readLatestSnapshotFile dir = some snapshotFile

variable {leaderText : UInt64 → String → String} {nowV7 : List String}
  {older : List (DirFile M)} {base : WithBot LogId} {s s' s₀ : State M}
  {T T' : Timeline (WithBot LogId)} {k : TaskKind} {file : DirFile M}
  {snapshotFile : SnapshotFile M}

variable {dir : List (DirFile M)}

theorem IsLatest.le (h : IsLatest dir file snapshotFile) {other : DirFile M} (hother : other ∈ dir)
    (hcand : isSnapshotCandidate other = true) {snapshotFile' : SnapshotFile M}
    (hread : readSnapshotFile other = some snapshotFile') :
    snapshotFile'.rank ≤ snapshotFile.rank :=
  (greatest_of_readLatest h.latest).2 _ (mem_readable.mpr ⟨other, hother, hcand, hread⟩)

theorem logRank_le_of_rank_le {f g : SnapshotFile M} (h : f.rank ≤ g.rank) :
    logRank f.metadata.lastLogId ≤ logRank g.metadata.lastLogId := by
  rcases Prod.Lex.toLex_le_toLex.mp h with h | ⟨h, -⟩
  · exact h.le
  · exact h.le

/-! ### Where a file comes from -/

theorem Inv.origin (h : Inv leaderText nowV7 older base s T) (hfile : file ∈ s.dir)
    (hcand : isSnapshotCandidate file = true) :
    file ∈ older ∨ ∃ t ∈ T.files, IsFileOf leaderText nowV7 t file := by
  refine (h.dir file hfile).imp_right fun hor => hor.resolve_left fun htmp => ?_
  have hname := not_tmp_of_mem (mem_candidateNames.mpr ⟨file, hfile, hcand, rfl⟩)
  rw [htmp] at hname
  cases hname

/-- What comes before a file of the run in the order of pruning is of the run, with later epochs. -/
theorem Inv.exists_later (h : Inv leaderText nowV7 older base s T) {t : Ticket (WithBot LogId)}
    (ht : t ∈ T.files) (hof : IsFileOf leaderText nowV7 t file) {a : String}
    (ha : a ∈ candidateNames s.dir) (hlt : pruneKey file.name < pruneKey a) :
    ∃ t' ∈ T.files, ∃ file' ∈ s.dir, file'.name = a ∧ IsFileOf leaderText nowV7 t' file' ∧
      t.epoch < t'.epoch := by
  obtain ⟨file', hfile', hcand, rfl⟩ := mem_candidateNames.mp ha
  have hepoch := hof.epochOf_name (h.small t (.inl ht))
  have hle := hepoch ▸ epochOf_le_of_pruneKey_lt hlt
  rcases h.origin hfile' hcand with holder | ⟨t', ht', hof'⟩
  · exact absurd ((h.older_lt file' hfile' holder hcand).2 t (.inl ht)) (not_lt.mpr hle)
  · rw [hof'.epochOf_name (h.small t' (.inl ht'))] at hle
    refine ⟨t', ht', file', hfile', rfl, hof', lt_of_le_of_ne hle fun heq => ?_⟩
    obtain rfl := h.sound.epoch_inj t t' (.inl ht) (.inl ht') heq
    exact absurd hlt (hof.name_eq hof' ▸ lt_irrefl _)

/-- **A file that no later one outranks is not removed**: two later ones would both come late. -/
theorem Inv.not_covered (h : Inv leaderText nowV7 older base s T) {t : Ticket (WithBot LogId)}
    (ht : t ∈ T.files) (hof : IsFileOf leaderText nowV7 t file)
    (hlow : ∀ t' ∈ T.files, ∀ file' ∈ s.dir, IsFileOf leaderText nowV7 t' file' →
      t.epoch < t'.epoch → t'.rank < t.rank) :
    ¬Covered leaderText nowV7 s.dir T file.name := by
  rintro ⟨a, ha, b, hb, hna, hab, -⟩
  obtain ⟨ta, hta, filea, hfilea, rfl, hofa, hlta⟩ := h.exists_later ht hof ha hna
  obtain ⟨tb, htb, fileb, hfileb, rfl, hofb, hltab⟩ := h.exists_later hta hofa hb hab
  have heq := h.sound.late_unique (.inl ht) (.inl hta) (.inl htb) hlta (hlta.trans hltab)
    (hlow ta hta filea hfilea hofa hlta) (hlow tb htb fileb hfileb hofb (hlta.trans hltab))
  exact absurd hltab (heq ▸ lt_irrefl _)

theorem Inv.not_removable (hdot : ∀ u ∈ nowV7, '.' ∉ u.toList)
    (h : Inv leaderText nowV7 older base s T) {t : Ticket (WithBot LogId)} (ht : t ∈ T.files)
    (hfile : file ∈ s.dir) (hof : IsFileOf leaderText nowV7 t file)
    (hlow : ∀ t' ∈ T.files, ∀ file' ∈ s.dir, IsFileOf leaderText nowV7 t' file' →
      t.epoch < t'.epoch → t'.rank < t.rank) :
    ¬Removable leaderText nowV7 s.dir T file.name := by
  rintro (htmp | hcov)
  · rw [not_tmp_of_mem (mem_candidateNames.mpr ⟨file, hfile, hof.isCandidate hdot, rfl⟩)] at htmp
    cases htmp
  · exact h.not_covered ht hof hlow hcov

/-! ### What no prune removes -/

/-- No task is about to remove the file. -/
def State.Spares (s : State M) (file : DirFile M) : Prop :=
  ∀ k names, s.task k = some (.pruning names) → file.name ∉ names

/-- A file of the run that is loaded is spared, if the UUIDs are in the order of their times. -/
theorem Inv.spares_latest (huuids : Uuids nowV7) (hsorted : nowV7.Pairwise (· < ·))
    (h : Inv leaderText nowV7 older base s T) (hlatest : IsLatest s.dir file snapshotFile)
    (hnew : file ∉ older) : s.Spares file := by
  intro k names hk hname
  obtain ⟨t, ht, hof⟩ := (h.origin hlatest.mem hlatest.candidate).resolve_left hnew
  refine h.not_removable huuids.no_dot ht hlatest.mem hof (fun t' ht' file' hfile' hof' hlt => ?_)
    (h.plans k names hk _ hname)
  obtain ⟨g, hg, hposition, hid⟩ := hof.read
  obtain rfl := Option.some.inj (hg.symm.trans hlatest.read)
  obtain ⟨g', hg', hposition', hid'⟩ := hof'.read
  have hle := hlatest.le hfile' (hof'.isCandidate huuids.no_dot) hg'
  rw [Ticket.rank, Ticket.rank, Prod.Lex.toLex_lt_toLex]
  rcases Prod.Lex.toLex_le_toLex.mp hle with hlow | ⟨heq, hidle⟩
  · exact .inl (hposition' ▸ hposition ▸ hlow)
  · rw [logRank_injective heq] at hid'
    have huuid : t'.uuid ≤ t.uuid := not_lt.mp fun hlt' =>
      absurd (hid.lt_of_lt hsorted hid' hlt') (not_lt.mpr hidle)
    refine .inr ⟨hposition'.symm.trans (heq.trans hposition), lt_of_le_of_ne huuid fun hu => ?_⟩
    obtain rfl := h.sound.uuid_inj t' t (.inl ht') (.inl ht) hu
    exact absurd hlt (lt_irrefl _)

/-- If a file of the run has the loaded log id, the one of them with the latest epoch is spared. -/
theorem Inv.exists_spared_of_inRun (huuids : Uuids nowV7)
    (h : Inv leaderText nowV7 older base s T) (hlatest : IsLatest s.dir file snapshotFile)
    (hrun : ∃ t ∈ T.files, ∃ file' ∈ s.dir, IsFileOf leaderText nowV7 t file' ∧
      t.position = logRank snapshotFile.metadata.lastLogId) :
    ∃ file' ∈ s.dir, isSnapshotCandidate file' = true ∧ s.Spares file' ∧
      ∃ snapshotFile', readSnapshotFile file' = some snapshotFile' ∧
        snapshotFile'.metadata.lastLogId = snapshotFile.metadata.lastLogId := by
  classical
  let same := T.files.toFinset.filter fun t =>
    (∃ file' ∈ s.dir, IsFileOf leaderText nowV7 t file') ∧
      t.position = logRank snapshotFile.metadata.lastLogId
  have hsame : same.Nonempty := by
    obtain ⟨t, ht, file', hfile', hof, hposition⟩ := hrun
    exact ⟨t, Finset.mem_filter.mpr ⟨List.mem_toFinset.mpr ht, ⟨file', hfile', hof⟩, hposition⟩⟩
  obtain ⟨t, ht, hmax⟩ := same.exists_max_image Ticket.epoch hsame
  obtain ⟨hmem, ⟨file', hfile', hof⟩, hposition⟩ := Finset.mem_filter.mp ht
  rw [mem_toFinset] at hmem
  obtain ⟨g, hg, hgposition, -⟩ := hof.read
  refine ⟨file', hfile', hof.isCandidate huuids.no_dot, fun k names hk hname => ?_, g, hg,
    logRank_injective (hgposition.trans hposition)⟩
  refine h.not_removable huuids.no_dot hmem hfile' hof (fun t' ht' file'' hfile'' hof' hlt => ?_)
    (h.plans k names hk _ hname)
  -- a later file has another log id, and so a smaller one
  obtain ⟨g', hg', hposition', -⟩ := hof'.read
  have hle := logRank_le_of_rank_le (hlatest.le hfile'' (hof'.isCandidate huuids.no_dot) hg')
  rw [hposition', ← hposition] at hle
  refine Prod.Lex.toLex_lt_toLex.mpr (.inl (lt_of_le_of_ne hle fun heq => ?_))
  exact absurd hlt (not_lt.mpr (hmax t' (Finset.mem_filter.mpr
    ⟨List.mem_toFinset.mpr ht', ⟨file'', hfile'', hof'⟩, heq.trans hposition⟩)))

/-- **A file of the greatest log id is spared.** -/
theorem Inv.exists_spared (huuids : Uuids nowV7) (h : Inv leaderText nowV7 older base s T)
    (hbase : ∀ f ∈ readable older, logRank f.metadata.lastLogId ≤ base)
    (hlatest : IsLatest s.dir file snapshotFile) :
    ∃ file' ∈ s.dir, isSnapshotCandidate file' = true ∧ s.Spares file' ∧
      ∃ snapshotFile', readSnapshotFile file' = some snapshotFile' ∧
        snapshotFile'.metadata.lastLogId = snapshotFile.metadata.lastLogId := by
  by_cases hrun : ∃ t ∈ T.files, ∃ file' ∈ s.dir, IsFileOf leaderText nowV7 t file' ∧
      t.position = logRank snapshotFile.metadata.lastLogId
  · exact h.exists_spared_of_inRun huuids hlatest hrun
  refine ⟨file, hlatest.mem, hlatest.candidate, fun k names hk hname => hrun ?_, snapshotFile,
    hlatest.read, rfl⟩
  rcases h.plans k names hk _ hname with htmp | ⟨-, -, b, -, -, -, tb, htb, fileb, hfileb, -, hofb⟩
  · have hcand := mem_candidateNames.mpr ⟨file, hlatest.mem, hlatest.candidate, rfl⟩
    rw [not_tmp_of_mem hcand] at htmp
    cases htmp
  rcases h.origin hlatest.mem hlatest.candidate with holder | ⟨t, ht, hof⟩
  · -- the file of the run that covers an older file is not behind it
    obtain ⟨gb, hgb, hposition, -⟩ := hofb.read
    have hle := logRank_le_of_rank_le (hlatest.le hfileb (hofb.isCandidate huuids.no_dot) hgb)
    rw [hposition] at hle
    have hge := (hbase snapshotFile (mem_readable.mpr
      ⟨file, holder, hlatest.candidate, hlatest.read⟩)).trans
        (h.sound.base_le_position tb (.inl htb))
    exact ⟨tb, htb, fileb, hfileb, hofb, le_antisymm hle hge⟩
  · obtain ⟨g, hg, hposition, -⟩ := hof.read
    obtain rfl := Option.some.inj (hg.symm.trans hlatest.read)
    exact ⟨t, ht, file, hlatest.mem, hof, hposition.symm⟩

/-! ### The start -/

theorem le_recover (applied : Option LogId) {f : SnapshotFile M} (hf : f ∈ readable dir) :
    logRank f.metadata.lastLogId ≤ logRank (recoverFromLatestSnapshotIfNewer dir applied) := by
  obtain ⟨latest, hlatest⟩ := exists_readLatest hf
  have hle := logRank_le_of_rank_le ((greatest_of_readLatest hlatest).2 f hf)
  rw [recoverFromLatestSnapshotIfNewer, hlatest]
  simp only
  split_ifs with h
  · exact hle.trans h
  · exact hle

theorem Start.le_applied (h : Start leaderText nowV7 older s₀) {f : SnapshotFile M}
    (hf : f ∈ readable older) : logRank f.metadata.lastLogId ≤ logRank s₀.applied := by
  obtain ⟨applied, ownTmpMarker, uuids, rfl⟩ := h.new
  exact le_recover applied hf

theorem Inv.ranksApart (huuids : Uuids nowV7) (hstart : Start leaderText nowV7 older s₀)
    (h : Inv leaderText nowV7 older base s T) : RanksApart s.dir := by
  have hmixed {file file' : DirFile M} {f f' : SnapshotFile M} {t : Ticket (WithBot LogId)}
      (hold : file ∈ older) (hcand : isSnapshotCandidate file = true)
      (hf : readSnapshotFile file = some f) (hof : IsFileOf leaderText nowV7 t file')
      (hf' : readSnapshotFile file' = some f') : f.fileId ≠ f'.fileId := by
    obtain ⟨g, hg, -, u, hu, hid⟩ := hof.read
    obtain ⟨⟩ := hg.symm.trans hf'
    rw [hid]
    exact hstart.fresh f (mem_readable.mpr ⟨file, hold, hcand, hf⟩) _ u (mem_of_getElem? hu)
  intro f hf f' hf' hrank
  obtain ⟨file, hfile, hcand, hread⟩ := mem_readable.mp hf
  obtain ⟨file', hfile', hcand', hread'⟩ := mem_readable.mp hf'
  have hids : f.fileId = f'.fileId := (Prod.mk.inj (toLex_inj.mp hrank)).2
  rcases h.origin hfile hcand with hold | ⟨t, ht, hof⟩
  · rcases h.origin hfile' hcand' with hold' | ⟨t', -, hof'⟩
    · exact hstart.ranksApart f (mem_readable.mpr ⟨file, hold, hcand, hread⟩) f'
        (mem_readable.mpr ⟨file', hold', hcand', hread'⟩) hrank
    · exact absurd hids (hmixed hold hcand hread hof' hread')
  · rcases h.origin hfile' hcand' with hold' | ⟨t', ht', hof'⟩
    · exact absurd hids.symm (hmixed hold' hcand' hread' hof hread)
    · have hlog := logRank_injective (Prod.mk.inj (toLex_inj.mp hrank)).1
      obtain ⟨g, hg, -, hid⟩ := hof.read
      obtain ⟨⟩ := hg.symm.trans hread
      obtain ⟨g', hg', -, hid'⟩ := hof'.read
      obtain ⟨⟩ := hg'.symm.trans hread'
      rw [hids, hlog] at hid
      obtain rfl := h.sound.uuid_inj t t' (.inl ht) (.inl ht')
        (hid.number_inj huuids.nodup hid')
      obtain rfl := inj_on_of_nodup_map h.nodup hfile hfile' (hof.name_eq hof')
      exact Option.some.inj (hread.symm.trans hread')

/-! ### What is loaded after further steps -/

/-- The event writes a file. -/
def Event.WritesFile : Event M → Prop
  | .writeFile .. => True
  | _ => False

/-- A step that writes no file lists no new candidate, and removes no file that is spared. -/
theorem mem_of_step {e : Event M} (he : ¬e.WritesFile) (hs : Step leaderText nowV7 s e s') :
    (∀ f ∈ s'.dir, isSnapshotCandidate f = true → f ∈ s.dir) ∧
      ∀ f ∈ s.dir, s.Spares f → f ∈ s'.dir := by
  have hsame (hdir : s'.dir = s.dir) : (∀ f ∈ s'.dir, isSnapshotCandidate f = true → f ∈ s.dir) ∧
      ∀ f ∈ s.dir, s.Spares f → f ∈ s'.dir := by
    rw [hdir]
    exact ⟨fun _ hf _ => hf, fun _ hf _ => hf⟩
  cases e with
  | writeFile k data => exact absurd trivial he
  | removeFile k removed =>
    simp only [Step, SnapshotDir.step] at hs
    split at hs
    · rename_i name names hk
      obtain ⟨⟩ := hs
      cases removed with
      | false => exact hsame rfl
      | true =>
        refine ⟨fun f hf _ => (mem_without.mp hf).1, fun f hf hspared => mem_without.mpr ⟨hf, ?_⟩⟩
        rintro rfl
        exact hspared k _ hk mem_cons_self
    · cases hs
  | restart ownTmpMarker leftovers =>
    simp only [Step, SnapshotDir.step] at hs
    split_ifs at hs with hguard
    obtain ⟨⟩ := hs
    refine ⟨fun f hf hcand => ?_, fun f hf _ => mem_append_left _ hf⟩
    refine (List.mem_append.mp hf).resolve_right fun hleft => ?_
    have hname := not_tmp_of_mem (mem_candidateNames.mpr ⟨f, hleft, hcand, rfl⟩)
    rw [List.all_eq_true.mp hguard.1 f hleft] at hname
    cases hname
  | apply | getSnapshotBuilder | getMeta | installSnapshot | newFileId | takeEpoch | restore
  | listDir | finish | fail =>
    simp only [Step, SnapshotDir.step] at hs
    refine hsame ?_
    split at hs <;> try split_ifs at hs
    all_goals first | exact (congrArg State.dir (Option.some.inj hs)).symm | cases hs

/-- The invariant of a state is enough for one more step that writes no file. -/
theorem Inv.latest_step (huuids : Uuids nowV7) (hstart : Start leaderText nowV7 older s₀)
    (h : Inv leaderText nowV7 older (logRank s₀.applied) s T)
    (h' : Inv leaderText nowV7 older base s' T') {e : Event M} (he : ¬e.WritesFile)
    (hs : Step leaderText nowV7 s e s') (hlatest : IsLatest s.dir file snapshotFile) :
    (∃ file' snapshotFile', IsLatest s'.dir file' snapshotFile' ∧
      snapshotFile'.metadata.lastLogId = snapshotFile.metadata.lastLogId) ∧
    (nowV7.Pairwise (· < ·) → file ∉ older → IsLatest s'.dir file snapshotFile) := by
  obtain ⟨hfrom, hkept⟩ := mem_of_step he hs
  have hle {f : SnapshotFile M} (hf : f ∈ readable s'.dir) : f.rank ≤ snapshotFile.rank := by
    obtain ⟨other, hother, hcand, hread⟩ := mem_readable.mp hf
    exact hlatest.le (hfrom other hother hcand) hcand hread
  constructor
  · obtain ⟨file', hfile', hcand, hspared, f, hread, hlog⟩ := h.exists_spared huuids
      (fun f hf => hstart.le_applied hf) hlatest
    have hmem : f ∈ readable s'.dir :=
      mem_readable.mpr ⟨file', hkept file' hfile' hspared, hcand, hread⟩
    obtain ⟨latest, hlatest'⟩ := exists_readLatest hmem
    obtain ⟨hin, hmax⟩ := greatest_of_readLatest hlatest'
    obtain ⟨file'', hfile'', hcand'', hread''⟩ := mem_readable.mp hin
    refine ⟨file'', latest, ⟨hfile'', hcand'', hread'', hlatest'⟩, logRank_injective ?_⟩
    exact le_antisymm (logRank_le_of_rank_le (hle hin))
      (hlog ▸ logRank_le_of_rank_le (hmax f hmem))
  · intro hsorted hnew
    have hmem := hkept file hlatest.mem (h.spares_latest huuids hsorted hlatest hnew)
    refine ⟨hmem, hlatest.candidate, hlatest.read, ?_⟩
    exact readLatest_eq (h'.ranksApart huuids hstart)
      (mem_readable.mpr ⟨file, hmem, hlatest.candidate, hlatest.read⟩) fun f hf => hle hf

/-- **Pruning keeps the newest snapshot.** What is loaded does not depend on how the candidates are
combined. While no further file is written, a file of the same last log id is loaded; one of the
run, if UUIDs are in the order of their times, stays and is loaded itself, and no prune under way is
about to remove it. -/
theorem prune_keeps_latest (huuids : Uuids nowV7) (hstart : Start leaderText nowV7 older s₀)
    {es : List (Event M)} (run : Run (Step leaderText nowV7) s₀ es s)
    (hlatest : IsLatest s.dir file snapshotFile) :
    (∀ c : Combination (SnapshotFile M), c.items.Perm (readable s.dir) →
      c.reduce keepNewer = snapshotFile) ∧
    (∃ file' ∈ s.dir, s.Spares file' ∧ ∃ snapshotFile',
      readSnapshotFile file' = some snapshotFile' ∧
        snapshotFile'.metadata.lastLogId = snapshotFile.metadata.lastLogId) ∧
    (nowV7.Pairwise (· < ·) → file ∉ older → s.Spares file) ∧
    ∀ es' s', Run (Step leaderText nowV7) s es' s' → (∀ e ∈ es', ¬e.WritesFile) →
      (∃ file' snapshotFile', IsLatest s'.dir file' snapshotFile' ∧
        snapshotFile'.metadata.lastLogId = snapshotFile.metadata.lastLogId) ∧
      (nowV7.Pairwise (· < ·) → file ∉ older → IsLatest s'.dir file snapshotFile) := by
  obtain ⟨T, hinv⟩ := exists_inv_of_run huuids.no_dot hstart run
  refine ⟨fun c hc => ?_, ?_,
    fun hsorted hnew => hinv.spares_latest huuids hsorted hlatest hnew, ?_⟩
  · have heq := reduce_eq_readLatest (hinv.ranksApart huuids hstart) hc
    exact Option.some.inj (heq.symm.trans hlatest.latest)
  · obtain ⟨file', hfile', -, hspared, hread⟩ := hinv.exists_spared huuids
      (fun f hf => hstart.le_applied hf) hlatest
    exact ⟨file', hfile', hspared, hread⟩
  · intro es' s' run' hquiet
    induction run' with
    | nil => exact ⟨⟨file, snapshotFile, hlatest, rfl⟩, fun _ _ => hlatest⟩
    | snoc run' hs ih =>
      obtain ⟨⟨file', f, hlatest', hlog⟩, hsame⟩ :=
        ih fun e he => hquiet e (mem_append_left _ he)
      have hlast := hquiet _ (mem_append_right _ (mem_singleton_self _))
      obtain ⟨T₁, h₁⟩ := exists_inv_of_run huuids.no_dot hstart (run.append run')
      obtain ⟨T₂, h₂⟩ := exists_inv_of_run huuids.no_dot hstart (run.append (run'.snoc hs))
      obtain ⟨⟨file'', f', hlatest'', hlog'⟩, -⟩ :=
        h₁.latest_step huuids hstart h₂ hlast hs hlatest'
      refine ⟨⟨file'', f', hlatest'', hlog'.trans hlog⟩, fun hsorted hnew => ?_⟩
      exact (h₁.latest_step huuids hstart h₂ hlast hs (hsame hsorted hnew)).2 hsorted hnew

/-! ### An older file that is loaded -/

theorem exists_isLatest (h : readLatestSnapshotFile dir = some snapshotFile) :
    ∃ file, IsLatest dir file snapshotFile := by
  obtain ⟨file, hfile, hcand, hread⟩ := mem_readable.mp (greatest_of_readLatest h).1
  exact ⟨file, hfile, hcand, hread, h⟩

section Example

/-- The text of a leader. -/
def exampleLeaderText (term : UInt64) (nodeId : String) : String :=
  "T" ++ toString term.toNat ++ "-N" ++ nodeId

def exampleUuids : List String :=
  ["0197d3a2-7c00-7000-8000-000000000000", "0197d3a2-7c01-7000-8000-000000000000",
    "0197d3a2-7c02-7000-8000-000000000000"]

def exampleMembership : StoredMembership Unit := ⟨none, ()⟩

/-- A file without an epoch in its name and without an id. -/
def legacySnapshot : DirFile Unit :=
  ⟨"legacy-snapshot", true, some ⟨⟨some ⟨1, "1", 5⟩, exampleMembership⟩, "", []⟩⟩

/-- The state machine that has applied just what the older file holds. -/
def legacyStart : State Unit := .new (some ⟨1, "1", 5⟩) ".4711.tmp" 0 [legacySnapshot]

/-- A build up to its listing of the directory. -/
def exampleBuild : List (Event Unit) :=
  [.getSnapshotBuilder, .getMeta exampleMembership, .newFileId .build, .takeEpoch .build,
    .writeFile .build [], .listDir .build]

/-- Three builds of one state, the last of them before it removes a file. -/
def threeBuilds : List (Event Unit) :=
  exampleBuild ++ [.finish .build] ++ exampleBuild ++ [.finish .build] ++ exampleBuild

/-- The state after some events, if they are possible. -/
def exampleExec (es : List (Event Unit)) (s : State Unit) : State Unit :=
  (es.foldlM (step exampleLeaderText exampleUuids) s).getD s

theorem run_exampleExec {es : List (Event Unit)} {s : State Unit}
    (h : (es.foldlM (step exampleLeaderText exampleUuids) s).isSome = true) :
    Run (Step exampleLeaderText exampleUuids) s es (exampleExec es s) := by
  obtain ⟨s', hs⟩ := Option.isSome_iff_exists.mp h
  rw [exampleExec, hs]
  exact Run.of_foldlM hs

theorem exampleUuids_ok : Uuids exampleUuids := ⟨by decide, by decide⟩

theorem start_legacyStart :
    Start exampleLeaderText exampleUuids [legacySnapshot] legacyStart := by
  have hreadable : readable [legacySnapshot] =
      [⟨⟨some ⟨1, "1", 5⟩, exampleMembership⟩, "legacy-snapshot", []⟩] := by
    have hcand : isSnapshotCandidate legacySnapshot = true := by decide +kernel
    rw [readable, filter_cons_of_pos hcand]
    rfl
  refine ⟨⟨_, _, _, rfl⟩, by decide, ?_, ?_⟩
  · intro f hf g hg _
    rw [hreadable, mem_singleton] at hf hg
    rw [hf, hg]
  · intro f hf lastLogId u hu heq
    rw [hreadable, mem_singleton] at hf
    obtain ⟨front, hfront⟩ := exists_newSnapshotFileId exampleLeaderText lastLogId
    have hsuffix : u.toList <:+ "legacy-snapshot".toList := by
      rw [hf, hfront] at heq
      exact ⟨(front ++ "-").toList, by simpa using (congrArg String.toList heq).symm⟩
    exact absurd hsuffix ((by decide : ∀ u ∈ exampleUuids,
      ¬u.toList <:+ "legacy-snapshot".toList) u hu)

/-- The file that is loaded, by its id, and the names that its file may have. -/
theorem exists_isLatest_of_fileId {dir : List (DirFile Unit)} {fileId : String}
    (h : (readLatestSnapshotFile dir).map SnapshotFile.fileId = some fileId) :
    ∃ file snapshotFile, IsLatest dir file snapshotFile ∧
      (readSnapshotFile file).map SnapshotFile.fileId = some fileId := by
  obtain ⟨latest, hlatest, hid⟩ := Option.map_eq_some_iff.mp h
  obtain ⟨file, hfile⟩ := exists_isLatest hlatest
  exact ⟨file, latest, hfile, by rw [hfile.read, Option.map_some, hid]⟩

/-- **An older file goes first, even if it is loaded.** After three builds all four files have one
last log id, and the older one, loaded because of its name, is removed. -/
theorem older_latest_pruned : ∃ s s' file snapshotFile,
    Run (Step exampleLeaderText exampleUuids) legacyStart threeBuilds s ∧
      Run (Step exampleLeaderText exampleUuids) s [.removeFile .build true, .finish .build] s' ∧
      IsLatest s.dir file snapshotFile ∧ file ∉ s'.dir := by
  let s := exampleExec threeBuilds legacyStart
  let s' := exampleExec [.removeFile .build true, .finish .build] s
  -- One evaluation of the builds for all that is used of them.
  obtain ⟨hrun, hrun', hread, hname, hremoved⟩ :
      (threeBuilds.foldlM (step exampleLeaderText exampleUuids) legacyStart).isSome ∧
      ([.removeFile .build true, .finish .build].foldlM
        (step exampleLeaderText exampleUuids) s).isSome ∧
      (readLatestSnapshotFile s.dir).map SnapshotFile.fileId = some "legacy-snapshot" ∧
      (∀ f ∈ s.dir, (readSnapshotFile f).map SnapshotFile.fileId =
        some "legacy-snapshot" → f.name = "legacy-snapshot") ∧
      "legacy-snapshot" ∉ s'.dir.map DirFile.name := by decide +kernel
  obtain ⟨file, snapshotFile, hlatest, hid⟩ := exists_isLatest_of_fileId hread
  refine ⟨s, s', file, snapshotFile, run_exampleExec hrun, run_exampleExec hrun', hlatest,
    fun hmem => hremoved ?_⟩
  exact List.mem_map.mpr ⟨file, hmem, hname file hlatest.mem hid⟩

/-- After one more entry a build is loaded, and stays. -/
theorem prune_keeps_latest_build : ∃ s file snapshotFile,
    Run (Step exampleLeaderText exampleUuids) legacyStart (.apply ⟨1, "1", 6⟩ :: exampleBuild) s ∧
      IsLatest s.dir file snapshotFile ∧ s.Spares file ∧
      ∀ es' s', Run (Step exampleLeaderText exampleUuids) s es' s' →
        (∀ e ∈ es', ¬e.WritesFile) → IsLatest s'.dir file snapshotFile := by
  let s := exampleExec (.apply ⟨1, "1", 6⟩ :: exampleBuild) legacyStart
  -- One evaluation of the build, as above.
  obtain ⟨hrun, hread⟩ :
      ((.apply ⟨1, "1", 6⟩ :: exampleBuild).foldlM
        (step exampleLeaderText exampleUuids) legacyStart).isSome ∧
      (readLatestSnapshotFile s.dir).map SnapshotFile.fileId =
        some "T1-N1-6-0197d3a2-7c00-7000-8000-000000000000" := by decide +kernel
  have run : Run (Step exampleLeaderText exampleUuids) legacyStart
      (.apply ⟨1, "1", 6⟩ :: exampleBuild) s := run_exampleExec hrun
  obtain ⟨file, snapshotFile, hlatest, hid⟩ := exists_isLatest_of_fileId hread
  have hold : ∀ f ∈ [legacySnapshot], (readSnapshotFile f).map SnapshotFile.fileId ≠
      some "T1-N1-6-0197d3a2-7c00-7000-8000-000000000000" := by decide +kernel
  have hsorted : exampleUuids.Pairwise (· < ·) := by decide
  obtain ⟨-, -, hspares, hkept⟩ :=
    prune_keeps_latest exampleUuids_ok start_legacyStart run hlatest
  exact ⟨s, file, snapshotFile, run, hlatest, hspares hsorted fun hmem => hold file hmem hid,
    fun es' s' run' hquiet => (hkept es' s' run' hquiet).2 hsorted fun hmem => hold file hmem hid⟩

end Example

end RustExample.OpenraftCluster.SnapshotDir
