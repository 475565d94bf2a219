import Mathlib.Data.List.Infix
import RustExample.Foundation.Run

/-!
# Reads through a secondary instance

Reads of the state machine go to a secondary instance of the database, which replays what its
primary has written. Before a read the sequence numbers of the two are compared. If the secondary
is behind it is caught up, by one call at a time; if that fails, or leaves it far behind, a new
secondary takes its place, and without one the primary serves the read. A catch-up that stops short
by no more than a fixed gap is accepted.

Source: `src/store.rs` (`KvData::synced_db`).

* A sequence number counts the entries written. An instance that has replayed `n` entries shows the
  first `n`.
* What RocksDB does is in the events: whether opening or catching up succeeds, and how far the
  secondary gets, which is not back and not past the primary. A comparison of two sequence numbers
  is one step.
* Metrics, logs and the directories of the instances are left out.
-/

namespace RustExample.OpenraftCluster

open Function List

/-! ### The calls -/

/-- How far a secondary may be behind after a catch-up without being rebuilt. -/
def secondaryRebuildGap : ℕ := 8192

/-- The database that is read. -/
inductive DbHandle where
  | secondary (db : ℕ)
  | primary
  deriving DecidableEq

/-- How far a call of `synced_db` has come, and the secondary that it has loaded. -/
inductive SyncPhase where
  | idle
  | begun
  | loaded (db : ℕ)
  | queued
  | locked (db : ℕ)
  | behind (db : ℕ)
  | caughtUp (db : ℕ)
  | rebuilding
  | opened (db : ℕ)
  | done (handle : DbHandle)
  deriving DecidableEq

/-- The phases in which a call holds `catch_up_lock`. -/
def SyncPhase.Locked : SyncPhase → Prop
  | .locked _ | .behind _ | .caughtUp _ | .rebuilding | .opened _ => True
  | _ => False

/-- The secondary that a phase refers to. -/
def SyncPhase.db? : SyncPhase → Option ℕ
  | .loaded db | .locked db | .behind db | .caughtUp db | .opened db | .done (.secondary db) =>
    some db
  | _ => none

/-- `log` is what the primary has written, `seqs` how many of its entries each secondary has
replayed, and `start` how many there were when a call began. -/
structure KvData (ω ι : Type) where
  log : List ω
  seqs : ℕ → ℕ
  db : ℕ
  rebuildEpoch : ℕ
  catchUpLock : Option ι
  start : ι → ℕ
  phase : ι → SyncPhase

/-- What may happen. -/
inductive SyncEvent (ω ι : Type) where
  | write (batch : List ω)
  | begin (i : ι)
  | load (i : ι)
  | check (i : ι)
  | lock (i : ι)
  | recheck (i : ι)
  | catchUp (i : ι) (ok : Bool) (seq : ℕ)
  | checkGap (i : ι)
  | openSecondary (i : ι) (ok : Bool) (seq : ℕ)
  | catchUpOpened (i : ι) (ok : Bool) (seq : ℕ)

namespace KvData

variable {ω ι : Type}

/-- A primary with a log, and a secondary that has replayed some of it. -/
def initial (log : List ω) (seq : ℕ) : KvData ω ι where
  log
  seqs := fun _ => seq
  db := 0
  rebuildEpoch := 0
  catchUpLock := none
  start := fun _ => 0
  phase := fun _ => .idle

/-- What a handle gives access to. -/
def shows (s : KvData ω ι) : DbHandle → List ω
  | .secondary db => s.log.take (s.seqs db)
  | .primary => s.log

/-- A secondary is not behind the primary. -/
def UpToDate (s : KvData ω ι) (db : ℕ) : Prop := s.log.length ≤ s.seqs db

instance (s : KvData ω ι) (db : ℕ) : Decidable (s.UpToDate db) :=
  inferInstanceAs (Decidable (s.log.length ≤ s.seqs db))

variable [DecidableEq ι]

/-- A call comes to a phase. -/
def setPhase (s : KvData ω ι) (i : ι) (p : SyncPhase) : KvData ω ι :=
  { s with phase := update s.phase i p }

/-- A database has replayed up to a number. -/
def setSeq (s : KvData ω ι) (db seq : ℕ) : KvData ω ι :=
  { s with seqs := update s.seqs db seq }

/-- A call that holds the lock returns. -/
def finish (s : KvData ω ι) (i : ι) (handle : DbHandle) : KvData ω ι :=
  { s.setPhase i (.done handle) with catchUpLock := none }

/-- Where a secondary may get by replaying the log. -/
def Replays (s : KvData ω ι) (db seq : ℕ) : Prop := s.seqs db ≤ seq ∧ seq ≤ s.log.length

/-- The steps of the primary and of the calls. -/
inductive Step (s : KvData ω ι) : SyncEvent ω ι → KvData ω ι → Prop
  | write (batch : List ω) : Step s (.write batch) { s with log := s.log ++ batch }
  | begin (i : ι) (h : s.phase i = .idle) :
      Step s (.begin i)
        { s.setPhase i .begun with start := update s.start i s.log.length }
  | load (i : ι) (h : s.phase i = .begun) : Step s (.load i) (s.setPhase i (.loaded s.db))
  | upToDate (i : ι) (db : ℕ) (h : s.phase i = .loaded db) (hseq : s.UpToDate db) :
      Step s (.check i) (s.setPhase i (.done (.secondary db)))
  | queue (i : ι) (db : ℕ) (h : s.phase i = .loaded db) (hseq : ¬s.UpToDate db) :
      Step s (.check i) (s.setPhase i .queued)
  | lock (i : ι) (h : s.phase i = .queued) (hlock : s.catchUpLock = none) :
      Step s (.lock i) { s.setPhase i (.locked s.db) with catchUpLock := some i }
  | upToDateNow (i : ι) (db : ℕ) (h : s.phase i = .locked db) (hseq : s.UpToDate db) :
      Step s (.recheck i) (s.finish i (.secondary db))
  | behind (i : ι) (db : ℕ) (h : s.phase i = .locked db) (hseq : ¬s.UpToDate db) :
      Step s (.recheck i) (s.setPhase i (.behind db))
  | catchUp (i : ι) (db seq : ℕ) (h : s.phase i = .behind db) (hseq : s.Replays db seq) :
      Step s (.catchUp i true seq) ((s.setSeq db seq).setPhase i (.caughtUp db))
  | catchUpFailed (i : ι) (db seq : ℕ) (h : s.phase i = .behind db) (hseq : s.Replays db seq) :
      Step s (.catchUp i false seq) ((s.setSeq db seq).setPhase i .rebuilding)
  | withinGap (i : ι) (db : ℕ) (h : s.phase i = .caughtUp db)
      (hgap : s.log.length - s.seqs db ≤ secondaryRebuildGap) :
      Step s (.checkGap i) (s.finish i (.secondary db))
  | pastGap (i : ι) (db : ℕ) (h : s.phase i = .caughtUp db)
      (hgap : ¬s.log.length - s.seqs db ≤ secondaryRebuildGap) :
      Step s (.checkGap i) (s.setPhase i .rebuilding)
  | openSecondary (i : ι) (seq : ℕ) (h : s.phase i = .rebuilding) (hseq : seq ≤ s.log.length) :
      Step s (.openSecondary i true seq)
        { (s.setSeq (s.rebuildEpoch + 1) seq).setPhase i (.opened (s.rebuildEpoch + 1)) with
          rebuildEpoch := s.rebuildEpoch + 1 }
  | openFailed (i : ι) (seq : ℕ) (h : s.phase i = .rebuilding) :
      Step s (.openSecondary i false seq)
        { s.finish i .primary with rebuildEpoch := s.rebuildEpoch + 1 }
  | catchUpOpened (i : ι) (db seq : ℕ) (h : s.phase i = .opened db) (hseq : s.Replays db seq) :
      Step s (.catchUpOpened i true seq)
        { (s.setSeq db seq).finish i (.secondary db) with db }
  | catchUpOpenedFailed (i : ι) (db seq : ℕ) (h : s.phase i = .opened db)
      (hseq : s.Replays db seq) :
      Step s (.catchUpOpened i false seq) ((s.setSeq db seq).finish i .primary)

/-- Every handle that was returned shows the writes that were completed before its call. -/
def ShowsWrites (s : KvData ω ι) : Prop :=
  ∀ i handle, s.phase i = .done handle → s.log.take (s.start i) <+: s.shows handle

/-- A catch-up that succeeds reaches what was written before the call, or stops more than the gap
short of the primary; a rebuilt secondary reaches it. -/
def CatchesUp (s : KvData ω ι) : SyncEvent ω ι → Prop
  | .checkGap i => ∀ db, s.phase i = .caughtUp db →
      s.start i ≤ s.seqs db ∨ secondaryRebuildGap < s.log.length - s.seqs db
  | .catchUpOpened i ok seq => ok = true → s.start i ≤ seq
  | _ => True

/-! ### What holds of all runs -/

theorem Step.deterministic {s s₁ s₂ : KvData ω ι} {e : SyncEvent ω ι} (h₁ : Step s e s₁)
    (h₂ : Step s e s₂) : s₁ = s₂ := by
  cases h₁ <;> cases h₂ <;> simp_all
  omega

/-- Calls began at the writes of then, secondaries have numbers, and a locked call has the lock. -/
structure Inv (s : KvData ω ι) : Prop where
  start_le : ∀ i, s.start i ≤ s.log.length
  db_le : s.db ≤ s.rebuildEpoch
  phase_le : ∀ i db, (s.phase i).db? = some db → db ≤ s.rebuildEpoch
  locked : ∀ i, (s.phase i).Locked → s.catchUpLock = some i

variable {s s' : KvData ω ι} {i : ι} {p : SyncPhase}

omit [DecidableEq ι] in
theorem inv_initial (log : List ω) (seq : ℕ) : Inv (initial log seq : KvData ω ι) where
  start_le _ := Nat.zero_le _
  db_le := Nat.le_refl _
  phase_le _ db hdb := by simp [initial, SyncPhase.db?] at hdb
  locked _ h := h.elim

/-- One call moves on, and the lock stays with who has it. -/
theorem Inv.advance (h : Inv s) (hphase : s'.phase = update s.phase i p)
    (hlog : s'.log = s.log) (hstart : s'.start = s.start) (hdb : s'.db = s.db)
    (hepoch : s'.rebuildEpoch = s.rebuildEpoch) (hlock : s'.catchUpLock = s.catchUpLock)
    (hp : ∀ db, p.db? = some db → db ≤ s.rebuildEpoch) (hlocked : p.Locked → (s.phase i).Locked) :
    Inv s' where
  start_le j := by
    rw [hlog, hstart]
    exact h.start_le j
  db_le := by
    rw [hdb, hepoch]
    exact h.db_le
  phase_le j db hj := by
    rw [hphase, update_apply] at hj
    rw [hepoch]
    split_ifs at hj
    · exact hp db hj
    · exact h.phase_le j db hj
  locked j hj := by
    rw [hphase, update_apply] at hj
    rw [hlock]
    split_ifs at hj with hji
    · exact h.locked j (hji ▸ hlocked hj)
    · exact h.locked j hj

/-- The call that holds the lock returns: nobody else is in the locked part. -/
theorem Inv.release {handle : DbHandle} (h : Inv s) (hi : (s.phase i).Locked)
    (hphase : s'.phase = update s.phase i (.done handle)) (hlog : s'.log = s.log)
    (hstart : s'.start = s.start) (hepoch : s.rebuildEpoch ≤ s'.rebuildEpoch)
    (hdb : s'.db ≤ s'.rebuildEpoch)
    (hhandle : ∀ db, handle = .secondary db → db ≤ s'.rebuildEpoch) : Inv s' where
  start_le j := by
    rw [hlog, hstart]
    exact h.start_le j
  db_le := hdb
  phase_le j db hj := by
    rw [hphase, update_apply] at hj
    split_ifs at hj
    · cases handle with
      | primary => cases hj
      | secondary d =>
        cases hj
        exact hhandle _ rfl
    · exact (h.phase_le j db hj).trans hepoch
  locked j hj := by
    rw [hphase, update_apply] at hj
    split_ifs at hj with hji
    · exact hj.elim
    · exact absurd (Option.some.inj ((h.locked j hj).symm.trans (h.locked i hi))) hji

theorem Inv.step {e : SyncEvent ω ι} (h : Inv s) (hs : Step s e s') : Inv s' := by
  have hdb := h.db_le
  -- What a call has loaded, and that it holds the lock, can be read off its phase.
  have hle {i : ι} {q : SyncPhase} {db : ℕ} (hi : s.phase i = q) (hq : q.db? = some db) :
      db ≤ s.rebuildEpoch := h.phase_le i db (hi ▸ hq)
  have hlocked {i : ι} {q : SyncPhase} (hi : s.phase i = q) (hq : q.Locked) :
      (s.phase i).Locked := hi ▸ hq
  cases hs with
  | write batch =>
    refine ⟨fun j => (h.start_le j).trans ?_, hdb, h.phase_le, h.locked⟩
    rw [length_append]
    exact Nat.le_add_right _ _
  | begin i hi =>
    refine ⟨fun j => ?_, hdb, fun j db hj => ?_, fun j hj => ?_⟩
    · by_cases hji : j = i
      · simp [setPhase, hji]
      · simpa [setPhase, hji] using h.start_le j
    · by_cases hji : j = i
      · simp [setPhase, hji, SyncPhase.db?] at hj
      · exact h.phase_le j db (by simpa [setPhase, hji] using hj)
    · by_cases hji : j = i
      · simp [setPhase, hji, SyncPhase.Locked] at hj
      · exact h.locked j (by simpa [setPhase, hji] using hj)
  | load i hi => exact h.advance rfl rfl rfl rfl rfl rfl (by rintro _ ⟨⟩; exact hdb) False.elim
  | upToDate i db hi =>
    exact h.advance rfl rfl rfl rfl rfl rfl (by rintro _ ⟨⟩; exact hle hi rfl) False.elim
  | queue i db hi => exact h.advance rfl rfl rfl rfl rfl rfl (by rintro _ ⟨⟩) False.elim
  | lock i hi hlock =>
    have hfree (j : ι) : ¬(s.phase j).Locked := fun hj => by simp [h.locked j hj] at hlock
    refine ⟨h.start_le, hdb, fun j db hj => ?_, fun j hj => ?_⟩
    · by_cases hji : j = i
      · obtain rfl : s.db = db := by simpa [setPhase, hji, SyncPhase.db?] using hj
        exact hdb
      · exact h.phase_le j db (by simpa [setPhase, hji] using hj)
    · by_cases hji : j = i
      · rw [hji]
      · exact absurd (by simpa [setPhase, hji] using hj) (hfree j)
  | upToDateNow i db hi =>
    exact h.release (hlocked hi trivial) rfl rfl rfl le_rfl hdb
      (by rintro _ ⟨⟩; exact hle hi rfl)
  | behind i db hi =>
    exact h.advance rfl rfl rfl rfl rfl rfl (by rintro _ ⟨⟩; exact hle hi rfl)
      fun _ => hlocked hi trivial
  | catchUp i db seq hi =>
    exact h.advance rfl rfl rfl rfl rfl rfl (by rintro _ ⟨⟩; exact hle hi rfl)
      fun _ => hlocked hi trivial
  | catchUpFailed i db seq hi =>
    exact h.advance rfl rfl rfl rfl rfl rfl (by rintro _ ⟨⟩) fun _ => hlocked hi trivial
  | withinGap i db hi =>
    exact h.release (hlocked hi trivial) rfl rfl rfl le_rfl hdb
      (by rintro _ ⟨⟩; exact hle hi rfl)
  | pastGap i db hi =>
    exact h.advance rfl rfl rfl rfl rfl rfl (by rintro _ ⟨⟩) fun _ => hlocked hi trivial
  | openSecondary i seq hi =>
    have hnext : s.rebuildEpoch ≤ s.rebuildEpoch + 1 := Nat.le_succ _
    refine ⟨h.start_le, hdb.trans hnext, fun j db hj => ?_, fun j hj => ?_⟩
    · by_cases hji : j = i
      · obtain rfl : s.rebuildEpoch + 1 = db := by
          simpa [setPhase, setSeq, hji, SyncPhase.db?] using hj
        exact le_rfl
      · exact (h.phase_le j db (by simpa [setPhase, setSeq, hji] using hj)).trans hnext
    · by_cases hji : j = i
      · exact hji ▸ h.locked i (hlocked hi trivial)
      · exact h.locked j (by simpa [setPhase, setSeq, hji] using hj)
  | openFailed i seq hi =>
    exact h.release (hlocked hi trivial) rfl rfl rfl (Nat.le_succ _) (hdb.trans (Nat.le_succ _))
      (by rintro _ ⟨⟩)
  | catchUpOpened i db seq hi =>
    exact h.release (hlocked hi trivial) rfl rfl rfl le_rfl (hle hi rfl)
      (by rintro _ ⟨⟩; exact hle hi rfl)
  | catchUpOpenedFailed i db seq hi =>
    exact h.release (hlocked hi trivial) rfl rfl rfl le_rfl hdb (by rintro _ ⟨⟩)

variable {log : List ω} {seq : ℕ} {es : List (SyncEvent ω ι)}

theorem inv_of_run (run : Run Step (initial log seq) es s) : Inv s :=
  run.invariant (inv_initial log seq) fun _ _ _ h hs => h.step hs

/-- **Single flight**: one call at a time catches up or rebuilds. -/
theorem single_flight (run : Run Step (initial log seq) es s) {i j : ι}
    (hi : (s.phase i).Locked) (hj : (s.phase j).Locked) : i = j := by
  have hinv := inv_of_run run
  exact Option.some.inj ((hinv.locked i hi).symm.trans (hinv.locked j hj))

/-! ### What handles show -/

/-- The secondaries that were returned have replayed what there was when their calls began. -/
def Reached (s : KvData ω ι) : Prop :=
  ∀ i db, s.phase i = .done (.secondary db) → s.start i ≤ s.seqs db

omit [DecidableEq ι] in
theorem Inv.showsWrites_iff (h : Inv s) : s.ShowsWrites ↔ s.Reached := by
  constructor
  · intro hw i db hi
    have hlen := (hw i _ hi).length_le
    rw [shows, length_take, length_take, Nat.min_eq_left (h.start_le i)] at hlen
    exact hlen.trans (Nat.min_le_left _ _)
  · rintro hr i (db | _) hi
    · exact take_prefix_take_left (hr i db hi)
    · exact take_prefix _ _

theorem Reached.move (h : Inv s) (hr : s.Reached) (hphase : s'.phase = update s.phase i p)
    (hstart : ∀ j ≠ i, s'.start j = s.start j)
    (hseqs : ∀ db ≤ s.rebuildEpoch, s.seqs db ≤ s'.seqs db) :
    s'.Reached ↔ ∀ db, p = .done (.secondary db) → s'.start i ≤ s'.seqs db := by
  constructor
  · intro hr' db hp
    exact hr' i db (by rw [hphase, update_self, hp])
  · intro hi j db hj
    rw [hphase, update_apply] at hj
    split_ifs at hj with hji
    · exact hji ▸ hi db hj
    · rw [hstart j hji]
      exact (hr j db hj).trans (hseqs db (h.phase_le j db (by rw [hj, SyncPhase.db?])))

omit [DecidableEq ι] in
theorem seqs_le_setSeq {db seq : ℕ} (hseq : s.Replays db seq) (d : ℕ) :
    s.seqs d ≤ (s.setSeq db seq).seqs d := by
  rw [setSeq]
  dsimp only
  rw [update_apply]
  split_ifs with hd
  · exact hd ▸ hseq.1
  · exact le_rfl

/-- **A step** returns a handle that shows the writes, unless it accepts a short catch-up. -/
theorem Step.reached_iff {e : SyncEvent ω ι} (h : Inv s) (hr : s.Reached) (hs : Step s e s') :
    s'.Reached ↔ s.CatchesUp e := by
  have hlen := h.start_le
  cases hs with
  | write batch => exact iff_of_true hr trivial
  | begin i hi =>
    refine Iff.trans (hr.move h rfl (fun j hj => ?_) fun _ _ => le_rfl) (iff_of_true ?_ trivial)
    · exact update_of_ne hj _ _
    · rintro _ ⟨⟩
  | load i hi | queue i db hi hseq | lock i hi hlock | behind i db hi hseq =>
    refine Iff.trans (hr.move h rfl (fun _ _ => rfl) fun _ _ => le_rfl) (iff_of_true ?_ trivial)
    rintro _ ⟨⟩
  | upToDate i db hi hseq | upToDateNow i db hi hseq =>
    refine Iff.trans (hr.move h rfl (fun _ _ => rfl) fun _ _ => le_rfl) (iff_of_true ?_ trivial)
    rintro _ ⟨⟩
    exact (hlen i).trans hseq
  | catchUp i db seq hi hseq | catchUpFailed i db seq hi hseq =>
    refine Iff.trans (hr.move h rfl (fun _ _ => rfl) fun d _ => seqs_le_setSeq hseq d)
      (iff_of_true ?_ trivial)
    rintro _ ⟨⟩
  | withinGap i db hi hgap =>
    refine Iff.trans (hr.move h rfl (fun _ _ => rfl) fun _ _ => le_rfl) ⟨fun hshort d hd => ?_, ?_⟩
    · obtain rfl : db = d := by simpa [hi] using hd
      exact .inl (hshort db rfl)
    · rintro hcatches _ ⟨⟩
      exact (hcatches db hi).resolve_right (Nat.not_lt.mpr hgap)
  | pastGap i db hi hgap =>
    refine Iff.trans (hr.move h rfl (fun _ _ => rfl) fun _ _ => le_rfl) (iff_of_true ?_ ?_)
    · rintro _ ⟨⟩
    · intro d hd
      obtain rfl : db = d := by simpa [hi] using hd
      exact .inr (Nat.lt_of_not_le hgap)
  | openSecondary i seq hi hseq =>
    refine Iff.trans (hr.move h rfl (fun _ _ => rfl) fun d hd => ?_) (iff_of_true ?_ trivial)
    · dsimp only [setPhase, setSeq]
      rw [update_of_ne (by omega)]
    · rintro _ ⟨⟩
  | openFailed i seq hi =>
    refine Iff.trans (hr.move h rfl (fun _ _ => rfl) fun _ _ => le_rfl) (iff_of_true ?_ trivial)
    rintro _ ⟨⟩
  | catchUpOpened i db seq hi hseq =>
    refine Iff.trans (hr.move h rfl (fun _ _ => rfl) fun d _ => seqs_le_setSeq hseq d)
      ⟨fun hshort _ => ?_, ?_⟩
    · simpa [finish, setPhase, setSeq] using hshort db rfl
    · rintro hcatches _ ⟨⟩
      simpa [finish, setPhase, setSeq] using hcatches rfl
  | catchUpOpenedFailed i db seq hi hseq =>
    refine Iff.trans (hr.move h rfl (fun _ _ => rfl) fun d _ => seqs_le_setSeq hseq d)
      (iff_of_true ?_ ?_)
    · rintro _ ⟨⟩
    · rintro ⟨⟩

/-- **Reads see completed writes** in a run exactly when every catch-up that is accepted reached
the writes of before its call. -/
theorem synced_db_shows_writes_iff (run : Run Step (initial log seq) es s) :
    Run.Always Step (initial log seq) ShowsWrites es ↔
      Run.AtEvents Step (initial log seq) CatchesUp es := by
  have hstep : ∀ (es : List (SyncEvent ω ι)) s e s', Run Step (initial log seq) es s →
      ShowsWrites s → Step s e s' → (ShowsWrites s' ↔ CatchesUp s e) := by
    intro es s e s' run hw hs
    have hinv := inv_of_run run
    rw [(hinv.step hs).showsWrites_iff, hs.reached_iff hinv (hinv.showsWrites_iff.mp hw)]
  have hfirst : ShowsWrites (initial log seq : KvData ω ι) := by
    rintro i handle ⟨⟩
  rw [Run.always_iff (fun _ _ _ _ h h' => h.deterministic h') hstep run, and_iff_right hfirst]

/-- A read after a write, with a catch-up that stops `n` entries into the log. -/
def readAfterWrite (n : ℕ) : List (SyncEvent Unit ℕ) :=
  [.begin 0, .load 0, .check 0, .lock 0, .recheck 0, .catchUp 0 true n, .checkGap 0]

theorem run_readAfterWrite {n : ℕ} (hn : n ≤ 1) :
    ∃ s, Run (fun s e s' => Step s e s' ∧ (n = 1 → CatchesUp s e)) (initial [()] 0)
        (readAfterWrite n) s ∧
      s.phase 0 = .done (.secondary 0) ∧ s.start 0 = 1 ∧ s.log = [()] ∧ s.seqs 0 = n := by
  have hgap : (1 : ℕ) - n ≤ secondaryRebuildGap := (Nat.sub_le 1 n).trans (by decide)
  have run : Run (fun s e s' => Step s e s' ∧ (n = 1 → CatchesUp s e))
      (initial [()] 0 : KvData Unit ℕ) (readAfterWrite n) _ :=
    .cons ⟨.begin 0 rfl, fun _ => trivial⟩ <| .cons ⟨.load 0 rfl, fun _ => trivial⟩ <|
    .cons ⟨.queue 0 0 rfl (by decide), fun _ => trivial⟩ <|
    .cons ⟨.lock 0 rfl rfl, fun _ => trivial⟩ <|
    .cons ⟨.behind 0 0 rfl (by decide), fun _ => trivial⟩ <|
    .cons ⟨.catchUp 0 0 n rfl ⟨Nat.zero_le n, hn⟩, fun _ => trivial⟩ <|
    .cons ⟨.withinGap 0 0 rfl (by exact hgap), by rintro rfl _ ⟨⟩; exact .inl le_rfl⟩ .nil
  exact ⟨_, run, rfl, rfl, rfl, rfl⟩

/-- A catch-up that reaches the write. -/
theorem synced_db_shows_writes_iff_reached :
    Run.Always Step (initial [()] 0) ShowsWrites (readAfterWrite 1) := by
  obtain ⟨s, run, -⟩ := run_readAfterWrite (n := 1) le_rfl
  refine (synced_db_shows_writes_iff (run.imp fun _ _ _ h => h.1)).mpr ?_
  exact Run.atEvents_of_run (fun _ _ _ _ h h' => h.deterministic h')
    (run.imp fun _ _ _ h => ⟨h.1, h.2 rfl⟩)

/-- A catch-up that stops short of the write: the read does not see it. -/
theorem short_catch_up_hides_write :
    ∃ es s, Run Step (initial [()] 0 : KvData Unit ℕ) es s ∧
      s.phase 0 = .done (.secondary 0) ∧ s.log.take (s.start 0) = [()] ∧
      s.shows (.secondary 0) = [] ∧ ¬s.ShowsWrites := by
  obtain ⟨s, run, hphase, hstart, hlog, hseq⟩ := run_readAfterWrite (n := 0) (Nat.zero_le 1)
  have hwritten : s.log.take (s.start 0) = [()] := by rw [hlog, hstart, take_one]; rfl
  have hshown : s.shows (.secondary 0) = [] := by rw [shows, hseq, take_zero]
  refine ⟨_, s, run.imp fun _ _ _ h => h.1, hphase, hwritten, hshown, fun hw => ?_⟩
  have hpre := hw 0 _ hphase
  rw [hwritten, hshown] at hpre
  exact absurd hpre.length_le (by decide)

end KvData

end RustExample.OpenraftCluster
