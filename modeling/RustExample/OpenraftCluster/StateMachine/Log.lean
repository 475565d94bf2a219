import RustExample.OpenraftCluster.StateMachine.Batches

/-!
# Logs and the states they lead to

The state of a replica is determined by the prefix of the log that it has applied: who waits for
the responses, how the prefix was cut into batches and, for the data, what the metadata say do not
matter.
-/

namespace RustExample.OpenraftCluster

open List

variable {M R : Type}

/-! ### The state of a log prefix -/

namespace Db

/-- The database of a new replica. -/
def initial : Db M := ⟨∅, none, none⟩

/-- Apply one entry for which no client waits. -/
def step (texts : TextForms) (db : Db M) (entry : Entry M) : Except String (Db M) :=
  (db.commit texts (entry, (none : Option Empty))).map Prod.fst

variable (texts : TextForms) {db db₁ db₂ : Db M}

theorem step_eq (entry : Entry M) : db.step texts entry =
    (entry.payload.effect texts db.smData.reader false).map fun p =>
      ⟨db.smData.writeAll p.1, some entry.logId, entry.storedMembership.or db.lastMembership⟩ := by
  rw [step, commit]
  cases heffect : entry.payload.effect texts db.smData.reader (none : Option Empty).isSome <;>
    · rw [Option.isSome_none] at heffect
      rw [heffect]
      rfl

/-- The database does not depend on the clients that wait. -/
theorem commit_map_fst (e : Entry M × Option R) :
    (db.commit texts e).map Prod.fst = db.step texts e.1 := by
  obtain ⟨⟨logId, payload⟩, responder⟩ := e
  cases payload with
  | normal req =>
    cases req with
    | task cmd =>
      rw [step, commit, commit, EntryPayload.effect, EntryPayload.effect]
      cases applyTaskCommand texts db.smData.reader cmd <;> rfl
    | _ => rfl
  | _ => rfl

theorem commitAll_map_fst (db : Db M) (es : List (Entry M × Option R)) :
    (db.commitAll texts es).map Prod.fst = (es.map Prod.fst).foldlM (step texts) db := by
  induction es generalizing db with
  | nil => rfl
  | cons e es ih =>
    rw [map_cons, foldlM_cons, ← commit_map_fst texts e]
    cases hcommit : db.commit texts e with
    | error err => simp [commitAll, hcommit, Bind.bind, Except.bind, Except.map]
    | ok p =>
      rw [commitAll_cons hcommit]
      simp only [Except.map, ok_bind]
      rw [← ih p.1]
      cases p.1.commitAll texts es <;> rfl

/-- An entry does to the data what they determine, whatever the metadata are. -/
theorem step_smData (h : db₁.smData = db₂.smData) (entry : Entry M) :
    (db₁.step texts entry).map smData = (db₂.step texts entry).map smData := by
  rw [step_eq, step_eq, h]
  cases entry.payload.effect texts db₂.smData.reader false <;> rfl

theorem foldlM_step_smData (h : db₁.smData = db₂.smData) (entries : List (Entry M)) :
    (entries.foldlM (step texts) db₁).map smData =
      (entries.foldlM (step texts) db₂).map smData := by
  induction entries generalizing db₁ db₂ with
  | nil => exact congrArg Except.ok h
  | cons entry entries ih =>
    have hstep := step_smData texts h entry
    rw [foldlM_cons, foldlM_cons]
    cases h₁ : db₁.step texts entry with
    | error err =>
      cases h₂ : db₂.step texts entry with
      | error err' => simpa [h₁, h₂, Except.map, Bind.bind, Except.bind] using hstep
      | ok db₂' => simp [h₁, h₂, Except.map] at hstep
    | ok db₁' =>
      obtain ⟨db₂', h₂, hdata⟩ := map_eq_ok.mp (hstep.symm.trans (map_eq_ok.mpr ⟨db₁', h₁, rfl⟩))
      rw [h₂]
      exact ih hdata.symm

theorem lastAppliedLog_of_step {entry : Entry M} (h : db.step texts entry = .ok db₁) :
    db₁.lastAppliedLog = some entry.logId := by
  obtain ⟨p, -, rfl⟩ := map_eq_ok.mp ((step_eq texts entry).symm.trans h)
  rfl

end Db

def RocksStateMachine.initial : RocksStateMachine M := ⟨Db.initial, ∅⟩

/-- The state that the first `n` entries of a log lead to. -/
def stateAt (texts : TextForms) (log : List (Entry M)) (n : ℕ) : Except String (Db M) :=
  (log.take n).foldlM (Db.step texts) Db.initial

/-- The data that the first `n` entries of a log lead to. -/
def dataAt (texts : TextForms) (log : List (Entry M)) (n : ℕ) : Except String KeySpace :=
  (stateAt texts log n).map Db.smData

variable {texts : TextForms} {log : List (Entry M)}

variable (texts) in
theorem stateAt_succ {n : ℕ} (hn : n < log.length) :
    stateAt texts log (n + 1) = stateAt texts log n >>= fun db => db.step texts log[n] := by
  rw [stateAt, take_succ_eq_append_getElem hn, foldlM_append]
  simp only [foldlM_cons, foldlM_nil, bind_pure, stateAt]

theorem stateAt_length {n : ℕ} {db : Db M}
    (h : stateAt texts log n = .ok db) :
    stateAt texts log log.length = (log.drop n).foldlM (Db.step texts) db := by
  calc stateAt texts log log.length
      = (log.take n ++ log.drop n).foldlM (Db.step texts) Db.initial := by
        rw [take_append_drop, stateAt, take_length]
    _ = stateAt texts log n >>= (log.drop n).foldlM (Db.step texts) := foldlM_append
    _ = (log.drop n).foldlM (Db.step texts) db := by rw [h, ok_bind]

theorem dataAt_eq_ok {n : ℕ} {data : KeySpace} :
    dataAt texts log n = .ok data ↔ ∃ db, stateAt texts log n = .ok db ∧ db.smData = data := by
  rw [dataAt]
  cases stateAt texts log n <;> simp [Except.map]

/-- A batch leads from the state of a prefix of the log to the state of a longer one. -/
theorem stateAt_add {n : ℕ} {db : Db M} {entries : List (Entry M)}
    (h : stateAt texts log n = .ok db) (hentries : entries <+: log.drop n) :
    stateAt texts log (n + entries.length) = entries.foldlM (Db.step texts) db := by
  rw [stateAt, take_add, ← List.prefix_iff_eq_take.mp hentries, foldlM_append, ← stateAt,
    h, ok_bind]

/-! ### Batches of a log -/

variable {sm : RocksStateMachine M}

/-- A batch can be applied when its entries can, one by one, and leads to the same database. -/
theorem RocksStateMachine.apply_eq_ok_iff {db : Db M} (hmem : sm.data = sm.db.smData)
    (entries : List (Entry M × Option R)) :
    (∃ a, sm.apply texts entries = .ok a ∧ a.sm = ⟨db, db.smData⟩) ↔
      (entries.map Prod.fst).foldlM (Db.step texts) sm.db = .ok db := by
  have happly := apply_eq texts hmem entries
  rw [← Db.commitAll_map_fst texts, map_eq_ok]
  constructor
  · rintro ⟨a, ha, hsm⟩
    rw [ha] at happly
    obtain ⟨p, hp, hpair⟩ := map_eq_ok.mp happly.symm
    obtain ⟨hdb, -⟩ := Prod.mk.inj hpair
    exact ⟨p, hp, congrArg RocksStateMachine.db (hdb.trans hsm)⟩
  · rintro ⟨p, hp, rfl⟩
    rw [hp] at happly
    obtain ⟨a, ha, hpair⟩ := map_eq_ok.mp happly
    exact ⟨a, ha, (Prod.mk.inj hpair).1⟩

/-- A batch that was applied left the memory in agreement with the database. -/
theorem RocksStateMachine.memory_of_apply {a : Applied M R} (hmem : sm.data = sm.db.smData)
    {entries : List (Entry M × Option R)} (h : sm.apply texts entries = .ok a) :
    a.sm = ⟨a.sm.db, a.sm.db.smData⟩ := by
  have happly := apply_eq texts hmem entries
  rw [h] at happly
  obtain ⟨p, -, hpair⟩ := map_eq_ok.mp happly.symm
  rw [← (Prod.mk.inj hpair).1]

/-- Batches can be applied when their entries can be applied one after the other. -/
theorem RocksStateMachine.exists_applyBatches_iff {db : Db M} (hmem : sm.data = sm.db.smData)
    (batches : List (List (Entry M × Option R))) :
    (∃ sm' responses, sm.applyBatches texts batches = .ok (sm', responses) ∧ sm'.db = db) ↔
      (batches.flatten.map Prod.fst).foldlM (Db.step texts) sm.db = .ok db := by
  rw [← Db.commitAll_map_fst texts, applyBatches_eq hmem, map_eq_ok]
  constructor
  · rintro ⟨sm', responses, happly, rfl⟩
    obtain ⟨p, hp, hpair⟩ := map_eq_ok.mp happly
    exact ⟨p, hp, congrArg RocksStateMachine.db (Prod.mk.inj hpair).1⟩
  · rintro ⟨p, hp, rfl⟩
    exact ⟨_, _, map_eq_ok.mpr ⟨p, hp, rfl⟩, rfl⟩

/-! ### Logs of task commands -/

/-- The entry of a command. -/
def taskEntry (p : LogId × TaskRequest) : Entry M := ⟨p.1, .normal (.task p.2)⟩

theorem Db.exists_foldlM_tasks {db : Db M} {T : TaskTable} (h : Represents texts db.smData T)
    (cmds : List (LogId × TaskRequest)) :
    ∃ db', (cmds.map taskEntry).foldlM (step texts) db = .ok db' ∧
      Represents texts db'.smData ((cmds.map Prod.snd).foldl TaskTable.next T) := by
  induction cmds generalizing db T with
  | nil => exact ⟨db, rfl, h⟩
  | cons p cmds ih =>
    obtain ⟨db', responses, hcommit, hr⟩ :=
      exists_commit_task texts db h p.1 p.2 (none : Option Empty)
    obtain ⟨db'', hrun, hr'⟩ := ih hr
    have hstep : db.step texts (taskEntry p) = .ok db' := by
      rw [step, taskEntry, hcommit]
      rfl
    exact ⟨db'', by rw [map_cons, foldlM_cons, hstep, ok_bind, hrun], hr'⟩

end RustExample.OpenraftCluster
