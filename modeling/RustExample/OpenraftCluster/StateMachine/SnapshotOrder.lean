import Mathlib.Data.Prod.Lex
import Mathlib.Tactic.Common

/-!
# Snapshots of overlapping tasks

Two kinds of tasks make snapshots of a state that moves forward: a build reads the position of
the state, an install brings a position that the state then takes. A task is begun, gets its
position and its number, and takes an epoch. One task of a kind runs at a time, and a build is
not begun during an install, but an install may overlap a build.

A snapshot may then have a greater epoch than one that ranks higher. It is begun before the other
takes its epoch, so that it is the one task of the other kind that runs at that time: there is
at most one such snapshot.
-/

namespace RustExample.OpenraftCluster.SnapshotDir

open Function

/-- Who writes snapshots. -/
inductive TaskKind where
  | build | install
  deriving DecidableEq

/-- A snapshot that has its epoch. `since` is the next epoch at the time its task was begun. -/
structure Ticket (K : Type) where
  kind : TaskKind
  since : ℕ
  position : K
  uuid : ℕ
  epoch : ℕ

variable {K : Type}

/-- Positions first, then ids. -/
def Ticket.rank (t : Ticket K) : K ×ₗ ℕ := toLex (t.position, t.uuid)

/-- How far a task is. -/
inductive Phase (K : Type) where
  | started (since : ℕ)
  | described (since : ℕ) (position : K)
  | named (since : ℕ) (position : K) (uuid : ℕ)
  | placed (t : Ticket K)
  | restored (t : Ticket K)
  | done

/-- The position of the state, the next epoch and number, the snapshots, and the tasks. -/
structure Timeline (K : Type) where
  applied : K
  clock : ℕ
  uuids : ℕ
  files : List (Ticket K)
  task : TaskKind → Option (Phase K)

namespace Timeline

/-- The snapshots that have an epoch: those written, and those of the tasks. -/
def Taken (T : Timeline K) (t : Ticket K) : Prop :=
  t ∈ T.files ∨ ∃ k, T.task k = some (.placed t) ∨ T.task k = some (.restored t)

/-- A task that has no epoch yet is younger than all snapshots of its kind. -/
structure Open (T : Timeline K) (k : TaskKind) (since : ℕ) : Prop where
  since_le : since ≤ T.clock
  alone : ∀ t, T.Taken t → t.kind = k → t.epoch < since

/-- A task has the number `uuid` and no epoch yet. -/
def Holds (T : Timeline K) (k : TaskKind) (uuid : ℕ) : Prop :=
  ∃ since position, T.task k = some (.named since position uuid)

variable [LinearOrder K]

/-- A build has a position of the past, an install one of the future. -/
def Reaches (T : Timeline K) : TaskKind → K → Prop
  | .build, position => position ≤ T.applied
  | .install, position => T.applied ≤ position

/-- A task will rank above the snapshots with epochs from before it was begun. -/
def PhaseSound (base : K) (T : Timeline K) (k : TaskKind) : Phase K → Prop
  | .started since => k = .build ∧ T.Open k since ∧
    ∀ m, T.Taken m → m.epoch < since → m.position ≤ T.applied
  | .described since position => T.Open k since ∧ base ≤ position ∧ T.Reaches k position ∧
    ∀ m, T.Taken m → m.epoch < since → m.position ≤ position
  | .named since position uuid => T.Open k since ∧ base ≤ position ∧ T.Reaches k position ∧
    uuid < T.uuids ∧ (∀ m, T.Taken m → m.uuid ≠ uuid) ∧
      ∀ m, T.Taken m → m.epoch < since → m.rank < toLex (position, uuid)
  | .placed t => t.kind = k ∧ T.Reaches k t.position
  | .restored t => t.kind = k ∧ t.position ≤ T.applied
  | .done => True

/-- The invariant of the timelines that start at the position `base`. -/
structure Sound (base : K) (T : Timeline K) : Prop where
  base_le : base ≤ T.applied
  files_le : ∀ t ∈ T.files, t.position ≤ T.applied
  since_le : ∀ t, T.Taken t → t.since ≤ t.epoch
  epoch_lt : ∀ t, T.Taken t → t.epoch < T.clock
  uuid_lt : ∀ t, T.Taken t → t.uuid < T.uuids
  base_le_position : ∀ t, T.Taken t → base ≤ t.position
  epoch_inj : ∀ t t', T.Taken t → T.Taken t' → t.epoch = t'.epoch → t = t'
  uuid_inj : ∀ t t', T.Taken t → T.Taken t' → t.uuid = t'.uuid → t = t'
  holds_inj : ∀ k k' uuid, T.Holds k uuid → T.Holds k' uuid → k = k'
  apart : ∀ t t', T.Taken t → T.Taken t' → t.kind = t'.kind → t.epoch < t'.epoch →
    t.epoch < t'.since
  grows : ∀ m t, T.Taken m → T.Taken t → m.epoch < t.since → m.rank < t.rank
  phase : ∀ k p, T.task k = some p → T.PhaseSound base k p

variable {base : K} {T T' : Timeline K} {k : TaskKind}

/-- **At most one snapshot comes late**: of those with a greater epoch than a given one, at most one
ranks lower. -/
theorem Sound.late_unique (h : T.Sound base) {m f g : Ticket K} (hm : T.Taken m)
    (hf : T.Taken f) (hg : T.Taken g) (hmf : m.epoch < f.epoch) (hmg : m.epoch < g.epoch)
    (hfm : f.rank < m.rank) (hgm : g.rank < m.rank) : f = g := by
  have hsince {t : Ticket K} (ht : T.Taken t) (hlt : t.rank < m.rank) : t.since ≤ m.epoch := by
    by_contra hnot
    exact lt_asymm hlt (h.grows m t hm ht (not_le.mp hnot))
  -- it is of the other kind than `m`
  have hkind {t : Ticket K} (ht : T.Taken t) (hlt : t.rank < m.rank) (he : m.epoch < t.epoch) :
      m.kind ≠ t.kind := fun heq =>
    absurd (h.apart m t hm ht heq he) (not_lt.mpr (hsince ht hlt))
  have heq : f.kind = g.kind := by
    have hf' := hkind hf hfm hmf
    have hg' := hkind hg hgm hmg
    cases hkm : m.kind <;> cases hkf : f.kind <;> cases hkg : g.kind <;> simp_all
  have hfs := hsince hf hfm
  have hgs := hsince hg hgm
  refine h.epoch_inj f g hf hg ?_
  rcases lt_trichotomy f.epoch g.epoch with hlt | heq' | hlt
  · have := h.apart f g hf hg heq hlt
    omega
  · exact heq'
  · have := h.apart g f hg hf heq.symm hlt
    omega

/-! ### Steps that take no epoch -/

omit [LinearOrder K] in
theorem Open.mono {since : ℕ} (h : T.Open k since) (htaken : ∀ t, T'.Taken t → T.Taken t)
    (hclock : T.clock ≤ T'.clock) : T'.Open k since :=
  ⟨h.since_le.trans hclock, fun t ht => h.alone t (htaken t ht)⟩

theorem Reaches.mono {position : K} (h : T.Reaches k position) (happlied : T.applied ≤ T'.applied)
    (hinstall : k = .install → T'.applied = T.applied) : T'.Reaches k position := by
  cases k with
  | build => exact le_trans h happlied
  | install => exact (hinstall rfl).le.trans h

theorem PhaseSound.mono {p : Phase K} (h : T.PhaseSound base k p)
    (htaken : ∀ t, T'.Taken t → T.Taken t) (hclock : T.clock ≤ T'.clock)
    (huuids : T.uuids ≤ T'.uuids) (happlied : T.applied ≤ T'.applied)
    (hinstall : k = .install → T'.applied = T.applied) : T'.PhaseSound base k p := by
  cases p with
  | started since =>
    obtain ⟨hk, hopen, hle⟩ := h
    exact ⟨hk, hopen.mono htaken hclock, fun m hm hlt => (hle m (htaken m hm) hlt).trans happlied⟩
  | described since position =>
    obtain ⟨hopen, hbase, hreach, hle⟩ := h
    exact ⟨hopen.mono htaken hclock, hbase, hreach.mono happlied hinstall,
      fun m hm => hle m (htaken m hm)⟩
  | named since position uuid =>
    obtain ⟨hopen, hbase, hreach, hu, hne, hlt⟩ := h
    exact ⟨hopen.mono htaken hclock, hbase, hreach.mono happlied hinstall, hu.trans_le huuids,
      fun m hm => hne m (htaken m hm), fun m hm => hlt m (htaken m hm)⟩
  | placed t => exact ⟨h.1, h.2.mono happlied hinstall⟩
  | restored t => exact ⟨h.1, h.2.trans happlied⟩
  | done => trivial

/-- A step that takes no epoch keeps the invariant, if it keeps it of the tasks. -/
theorem Sound.of_taken (h : T.Sound base) (htaken : ∀ t, T'.Taken t → T.Taken t)
    (happlied : T.applied ≤ T'.applied) (huuids : T.uuids ≤ T'.uuids)
    (hepoch : ∀ t, T'.Taken t → t.epoch < T'.clock)
    (hfiles : ∀ t ∈ T'.files, t.position ≤ T'.applied)
    (hholds : ∀ k k' uuid, T'.Holds k uuid → T'.Holds k' uuid → k = k')
    (hphase : ∀ k p, T'.task k = some p → T'.PhaseSound base k p) : T'.Sound base where
  base_le := h.base_le.trans happlied
  files_le := hfiles
  since_le t ht := h.since_le t (htaken t ht)
  epoch_lt := hepoch
  uuid_lt t ht := (h.uuid_lt t (htaken t ht)).trans_le huuids
  base_le_position t ht := h.base_le_position t (htaken t ht)
  epoch_inj t t' ht ht' := h.epoch_inj t t' (htaken t ht) (htaken t' ht')
  uuid_inj t t' ht ht' := h.uuid_inj t t' (htaken t ht) (htaken t' ht')
  holds_inj := hholds
  apart t t' ht ht' := h.apart t t' (htaken t ht) (htaken t' ht')
  grows m t hm ht := h.grows m t (htaken m hm) (htaken t ht)
  phase := hphase

omit [LinearOrder K] in
theorem holds_of_update {p : Option (Phase K)} {k' : TaskKind} {uuid : ℕ}
    (htask : T'.task = update T.task k p) (h : T'.Holds k' uuid) :
    (k' = k ∧ ∃ since position, p = some (.named since position uuid)) ∨ T.Holds k' uuid := by
  obtain ⟨since, position, h⟩ := h
  rw [htask] at h
  by_cases hk : k' = k
  · subst hk
    rw [update_self] at h
    exact .inl ⟨rfl, since, position, h⟩
  · rw [update_of_ne hk] at h
    exact .inr ⟨since, position, h⟩

/-- A step of one task. The number that it gets, if it gets one, is new. -/
theorem Sound.of_update (h : T.Sound base) {p : Option (Phase K)}
    (htask : T'.task = update T.task k p) (htaken : ∀ t, T'.Taken t → T.Taken t)
    (hclock : T.clock ≤ T'.clock) (huuids : T.uuids ≤ T'.uuids)
    (happlied : T.applied ≤ T'.applied) (hinstall : k ≠ .install → T'.applied = T.applied)
    (hfiles : ∀ t ∈ T'.files, t.position ≤ T'.applied)
    (hnew : ∀ since position uuid, p = some (.named since position uuid) → T.uuids ≤ uuid)
    (hphase : ∀ q, p = some q → T'.PhaseSound base k q) : T'.Sound base := by
  have hold {k' : TaskKind} {uuid : ℕ} (hk' : T.Holds k' uuid) {s : ℕ} {q : K}
      (hp : p = some (.named s q uuid)) : False := by
    obtain ⟨s', q', hk'⟩ := hk'
    exact absurd (h.phase _ _ hk').2.2.2.1 (not_lt.mpr (hnew s q uuid hp))
  refine h.of_taken htaken happlied huuids
    (fun t ht => (h.epoch_lt t (htaken t ht)).trans_le hclock) hfiles (fun i j uuid hi hj => ?_)
    fun k' q hq => ?_
  · rcases holds_of_update htask hi with ⟨rfl, s, q, hp⟩ | hi
    · rcases holds_of_update htask hj with ⟨rfl, -⟩ | hj
      · rfl
      · exact (hold hj hp).elim
    · rcases holds_of_update htask hj with ⟨rfl, s, q, hp⟩ | hj
      · exact (hold hi hp).elim
      · exact h.holds_inj i j uuid hi hj
  rw [htask] at hq
  by_cases hk : k' = k
  · subst hk
    rw [update_self] at hq
    exact hphase q hq
  · rw [update_of_ne hk] at hq
    exact (h.phase k' q hq).mono htaken hclock huuids happlied
      fun hk' => hinstall (hk' ▸ Ne.symm hk)

/-- A task comes to a phase. -/
def set (T : Timeline K) (k : TaskKind) (p : Option (Phase K)) : Timeline K :=
  { T with task := update T.task k p }

omit [LinearOrder K] in
theorem taken_of_update {p : Option (Phase K)} {t : Ticket K} (ht : T'.Taken t)
    (htask : T'.task = update T.task k p) (hfiles : ∀ t ∈ T'.files, T.Taken t)
    (hp : ∀ t, p = some (.placed t) ∨ p = some (.restored t) → T.Taken t) : T.Taken t := by
  rcases ht with ht | ⟨k', ht⟩
  · exact hfiles t ht
  · rw [htask] at ht
    by_cases hk : k' = k
    · subst hk
      rw [update_self] at ht
      exact hp t ht
    · rw [update_of_ne hk] at ht
      exact .inr ⟨k', ht⟩

omit [LinearOrder K] in
theorem taken_of_set {p : Option (Phase K)} {t : Ticket K} (ht : (T.set k p).Taken t)
    (hp : ∀ t, p = some (.placed t) ∨ p = some (.restored t) → T.Taken t) : T.Taken t :=
  taken_of_update ht rfl (fun _ => .inl) hp

/-- The tasks of a state that no install is about to move are behind it. -/
theorem Sound.position_le (h : T.Sound base) (hidle : T.task .install = none) {t : Ticket K}
    (ht : T.Taken t) : t.position ≤ T.applied := by
  rcases ht with ht | ⟨k, ht | ht⟩
  · exact h.files_le t ht
  · cases k with
    | build => exact (h.phase _ _ ht).2
    | install => simp [hidle] at ht
  · exact (h.phase _ _ ht).2

theorem Sound.clear (h : T.Sound base) (k : TaskKind) : (T.set k none).Sound base :=
  h.of_update rfl (fun _ ht => taken_of_set ht (by simp)) le_rfl le_rfl le_rfl (fun _ => rfl)
    h.files_le nofun nofun

/-- The state moves while no install is under way. -/
theorem Sound.apply (h : T.Sound base) (hidle : T.task .install = none) {position : K}
    (hle : T.applied ≤ position) : { T with applied := position : Timeline K }.Sound base :=
  h.of_taken (fun _ => id) hle le_rfl h.epoch_lt (fun t ht => (h.files_le t ht).trans hle)
    h.holds_inj fun k p hp => (h.phase k p hp).mono (fun _ => id) le_rfl le_rfl hle fun hk => by
      rw [hk, hidle] at hp
      cases hp

theorem Sound.begin_build (h : T.Sound base) (hidle : T.task .install = none) :
    (T.set .build (some (.started T.clock))).Sound base := by
  have htaken : ∀ t, (T.set .build (some (.started T.clock))).Taken t → T.Taken t :=
    fun _ ht => taken_of_set ht (by simp)
  refine h.of_update rfl htaken le_rfl le_rfl le_rfl (fun _ => rfl) h.files_le nofun ?_
  rintro _ ⟨⟩
  exact ⟨rfl, ⟨le_rfl, fun t ht _ => h.epoch_lt t (htaken t ht)⟩,
    fun m hm _ => h.position_le hidle (htaken m hm)⟩

theorem Sound.begin_install (h : T.Sound base) (hidle : T.task .install = none) {position : K}
    (hle : T.applied ≤ position) :
    (T.set .install (some (.described T.clock position))).Sound base := by
  have htaken : ∀ t, (T.set .install (some (.described T.clock position))).Taken t → T.Taken t :=
    fun _ ht => taken_of_set ht (by simp)
  refine h.of_update rfl htaken le_rfl le_rfl le_rfl (fun _ => rfl) h.files_le nofun ?_
  rintro _ ⟨⟩
  exact ⟨⟨le_rfl, fun t ht _ => h.epoch_lt t (htaken t ht)⟩, h.base_le.trans hle, hle,
    fun m hm _ => (h.position_le hidle (htaken m hm)).trans hle⟩

variable {since : ℕ}

theorem Sound.describe (h : T.Sound base) (hk : T.task .build = some (.started since)) :
    (T.set .build (some (.described since T.applied))).Sound base := by
  obtain ⟨-, hopen, hle⟩ := h.phase _ _ hk
  have htaken : ∀ t, (T.set .build (some (.described since T.applied))).Taken t → T.Taken t :=
    fun _ ht => taken_of_set ht (by simp)
  refine h.of_update rfl htaken le_rfl le_rfl le_rfl (fun _ => rfl) h.files_le nofun ?_
  rintro _ ⟨⟩
  exact ⟨hopen.mono htaken le_rfl, h.base_le, le_rfl, fun m hm => hle m (htaken m hm)⟩

/-- A task takes an id. -/
def name (T : Timeline K) (k : TaskKind) (since : ℕ) (position : K) : Timeline K :=
  { T.set k (some (.named since position T.uuids)) with uuids := T.uuids + 1 }

theorem Sound.name (h : T.Sound base) {position : K}
    (hk : T.task k = some (.described since position)) :
    (T.name k since position).Sound base := by
  obtain ⟨hopen, hbase, hreach, hle⟩ := h.phase _ _ hk
  have htaken : ∀ t, (T.name k since position).Taken t → T.Taken t :=
    fun _ ht => taken_of_update ht rfl (fun _ => .inl) (by simp)
  refine h.of_update rfl htaken le_rfl (Nat.le_succ _) le_rfl (fun _ => rfl) h.files_le
    (by rintro _ _ _ ⟨⟩; exact le_rfl) ?_
  rintro _ ⟨⟩
  refine ⟨hopen.mono htaken le_rfl, hbase, hreach.mono le_rfl fun _ => rfl, Nat.lt_succ_self _,
    fun m hm => (h.uuid_lt m (htaken m hm)).ne, fun m hm hlt => ?_⟩
  exact Prod.Lex.toLex_lt_toLex.mpr ((hle m (htaken m hm) hlt).lt_or_eq.imp_right fun heq =>
    ⟨heq, h.uuid_lt m (htaken m hm)⟩)

/-- The state becomes what an install brings. -/
def restore (T : Timeline K) (t : Ticket K) : Timeline K :=
  { T.set .install (some (.restored t)) with applied := t.position }

theorem Sound.restore (h : T.Sound base) {t : Ticket K}
    (hk : T.task .install = some (.placed t)) : (T.restore t).Sound base := by
  obtain ⟨hkind, hle⟩ := h.phase _ _ hk
  have hnew : ∀ t', some (Phase.restored t) = some (.placed t') ∨
      some (Phase.restored t) = some (.restored t') → T.Taken t' := by
    intro t' ht'
    obtain rfl : t = t' := by simpa using ht'
    exact .inr ⟨_, .inl hk⟩
  have htaken : ∀ t', (T.restore t).Taken t' → T.Taken t' := fun t' ht' =>
    taken_of_update ht' rfl (fun _ => .inl) hnew
  refine h.of_update rfl htaken le_rfl le_rfl hle (fun hne => absurd rfl hne)
    (fun t' ht' => (h.files_le t' ht').trans hle) nofun ?_
  rintro _ ⟨⟩
  exact ⟨hkind, le_rfl⟩

/-- A task writes its file. -/
def write (T : Timeline K) (k : TaskKind) (t : Ticket K) : Timeline K :=
  { T.set k (some .done) with files := t :: T.files }

theorem Sound.write (h : T.Sound base) {t : Ticket K} (ht : T.Taken t)
    (hle : t.position ≤ T.applied) : (T.write k t).Sound base := by
  have hfiles : ∀ t' ∈ t :: T.files, T.Taken t' ∧ t'.position ≤ T.applied := by
    intro t' ht'
    rcases List.mem_cons.mp ht' with rfl | ht'
    · exact ⟨ht, hle⟩
    · exact ⟨.inl ht', h.files_le t' ht'⟩
  refine h.of_update rfl (fun t' ht' => taken_of_update ht' rfl (fun t' ht' => (hfiles t' ht').1)
    (by simp)) le_rfl le_rfl le_rfl (fun _ => rfl) (fun t' ht' => (hfiles t' ht').2) nofun ?_
  rintro _ ⟨⟩
  trivial

/-- A timeline in which no task is under way. -/
def idle (applied : K) (clock uuids : ℕ) (files : List (Ticket K)) : Timeline K :=
  ⟨applied, clock, uuids, files, fun _ => none⟩

omit [LinearOrder K] in
@[simp] theorem taken_idle {applied : K} {clock uuids : ℕ} {files : List (Ticket K)}
    {t : Ticket K} : (idle applied clock uuids files).Taken t ↔ t ∈ files := by
  simp [Taken, idle]

omit [LinearOrder K] in
theorem not_holds_idle {applied : K} {clock uuids uuid : ℕ} {files : List (Ticket K)} :
    ¬(idle applied clock uuids files).Holds k uuid := by
  simp [Holds, idle]

theorem Sound.start (base : K) (clock uuids : ℕ) : (idle base clock uuids []).Sound base := by
  refine ⟨le_rfl, nofun, ?_, ?_, ?_, ?_, ?_, ?_, fun _ _ _ hk => (not_holds_idle hk).elim, ?_, ?_,
    nofun⟩ <;> simp

/-- All tasks end, and some of the snapshots are found again. -/
theorem Sound.restart (h : T.Sound base) {applied : K} {clock : ℕ} {files : List (Ticket K)}
    (happlied : T.applied ≤ applied) (hfiles : ∀ t ∈ files, t ∈ T.files)
    (hclock : ∀ t ∈ files, t.epoch < clock) : (idle applied clock T.uuids files).Sound base :=
  h.of_taken (fun t ht => .inl (hfiles t (taken_idle.mp ht))) happlied le_rfl
    (fun t ht => hclock t (taken_idle.mp ht))
    (fun t ht => (h.files_le t (hfiles t ht)).trans happlied)
    (fun _ _ _ hk => (not_holds_idle hk).elim) nofun

/-! ### The step that takes an epoch -/

/-- A task takes an epoch. -/
def take (T : Timeline K) (k : TaskKind) (since : ℕ) (position : K) (uuid : ℕ) : Timeline K :=
  { T.set k (some (.placed ⟨k, since, position, uuid, T.clock⟩)) with clock := T.clock + 1 }

omit [LinearOrder K] in
theorem taken_of_take {since : ℕ} {position : K} {uuid : ℕ} {t : Ticket K}
    (ht : (T.take k since position uuid).Taken t) :
    T.Taken t ∨ t = ⟨k, since, position, uuid, T.clock⟩ := by
  rcases ht with ht | ⟨k', ht⟩
  · exact .inl (.inl ht)
  · by_cases hk : k' = k
    · subst hk
      rcases ht with ht | ht <;> simp [take, set] at ht
      exact .inr ht.symm
    · simp only [take, set, update_of_ne hk] at ht
      exact .inl (.inr ⟨k', ht⟩)

/-- What binds a task stays: the new snapshot has a later epoch and is of the other kind. -/
theorem PhaseSound.take {uuid : ℕ} {position : K} {k' : TaskKind} {p : Phase K}
    (h : T.PhaseSound base k' p) (hne : k' ≠ k) (huuid : ∀ s q u, p = .named s q u → uuid ≠ u) :
    (T.take k since position uuid).PhaseSound base k' p := by
  have hopen {s : ℕ} (ho : T.Open k' s) : (T.take k since position uuid).Open k' s := by
    refine ⟨ho.since_le.trans (Nat.le_succ _), fun t ht hkind => ?_⟩
    rcases taken_of_take ht with ht | rfl
    · exact ho.alone t ht hkind
    · exact absurd hkind hne.symm
  have hbefore {s : ℕ} (ho : T.Open k' s) {m : Ticket K}
      (hm : (T.take k since position uuid).Taken m) (hlt : m.epoch < s) : T.Taken m :=
    (taken_of_take hm).resolve_right fun heq => by
      subst heq
      exact absurd hlt (not_lt.mpr ho.since_le)
  cases p with
  | started s =>
    obtain ⟨hk, ho, hle⟩ := h
    exact ⟨hk, hopen ho, fun m hm hlt => hle m (hbefore ho hm hlt) hlt⟩
  | described s q =>
    obtain ⟨ho, hbase, hreach, hle⟩ := h
    exact ⟨hopen ho, hbase, hreach.mono le_rfl fun _ => rfl,
      fun m hm hlt => hle m (hbefore ho hm hlt) hlt⟩
  | named s q u =>
    obtain ⟨ho, hbase, hreach, hu, hne', hlt'⟩ := h
    refine ⟨hopen ho, hbase, hreach.mono le_rfl fun _ => rfl, hu, fun m hm => ?_,
      fun m hm hlt => hlt' m (hbefore ho hm hlt) hlt⟩
    rcases taken_of_take hm with hm | rfl
    · exact hne' m hm
    · exact huuid s q u rfl
  | placed t => exact ⟨h.1, h.2.mono le_rfl fun _ => rfl⟩
  | restored t => exact h
  | done => trivial

theorem Sound.take (h : T.Sound base) {uuid : ℕ} {position : K}
    (hk : T.task k = some (.named since position uuid)) :
    (T.take k since position uuid).Sound base := by
  obtain ⟨hopen, hbase, hreach, hu, hne, hrank⟩ := h.phase _ _ hk
  have hlate {t : Ticket K} (ht : T.Taken t) : t.epoch < T.clock := h.epoch_lt t ht
  refine ⟨h.base_le, h.files_le, fun t ht => ?_, fun t ht => ?_, fun t ht => ?_, fun t ht => ?_,
    fun t t' ht ht' heq => ?_, fun t t' ht ht' heq => ?_, fun i j u hi hj => ?_,
    fun t t' ht ht' hkind hlt => ?_, fun m t hm ht hlt => ?_, fun k' p hp => ?_⟩
  · rcases taken_of_take ht with ht | rfl
    · exact h.since_le t ht
    · exact hopen.since_le
  · rcases taken_of_take ht with ht | rfl
    · exact (hlate ht).trans (Nat.lt_succ_self _)
    · exact Nat.lt_succ_self _
  · rcases taken_of_take ht with ht | rfl
    · exact h.uuid_lt t ht
    · exact hu
  · rcases taken_of_take ht with ht | rfl
    · exact h.base_le_position t ht
    · exact hbase
  · rcases taken_of_take ht with ht | rfl <;> rcases taken_of_take ht' with ht' | rfl
    · exact h.epoch_inj t t' ht ht' heq
    · exact absurd heq (hlate ht).ne
    · exact absurd heq (hlate ht').ne'
    · rfl
  · rcases taken_of_take ht with ht | rfl <;> rcases taken_of_take ht' with ht' | rfl
    · exact h.uuid_inj t t' ht ht' heq
    · exact absurd heq (hne t ht)
    · exact absurd heq.symm (hne t' ht')
    · rfl
  · rcases holds_of_update rfl hi with ⟨-, s, q, hp⟩ | hi
    · simp at hp
    · rcases holds_of_update rfl hj with ⟨-, s, q, hp⟩ | hj
      · simp at hp
      · exact h.holds_inj i j u hi hj
  · rcases taken_of_take ht with ht | rfl <;> rcases taken_of_take ht' with ht' | rfl
    · exact h.apart t t' ht ht' hkind hlt
    · exact hopen.alone t ht hkind
    · exact absurd (hlate ht') (not_lt.mpr hlt.le)
    · exact absurd hlt (lt_irrefl _)
  · rcases taken_of_take hm with hm | rfl <;> rcases taken_of_take ht with ht | rfl
    · exact h.grows m t hm ht hlt
    · exact hrank m hm hlt
    · exact absurd (hlt.trans_le ((h.since_le t ht).trans (hlate ht).le)) (lt_irrefl _)
    · exact absurd hlt (not_lt.mpr hopen.since_le)
  · by_cases hkk : k' = k
    · subst hkk
      obtain rfl : Phase.placed _ = p := by simpa [Timeline.take, set] using hp
      exact ⟨rfl, hreach.mono le_rfl fun _ => rfl⟩
    · have hold : T.task k' = some p := by
        simpa [Timeline.take, set, update_of_ne hkk] using hp
      refine (h.phase k' p hold).take hkk fun s q u hpu heq => hkk ?_
      subst heq
      exact h.holds_inj k' k uuid ⟨s, q, hpu ▸ hold⟩ ⟨since, position, hk⟩

end Timeline

end RustExample.OpenraftCluster.SnapshotDir
