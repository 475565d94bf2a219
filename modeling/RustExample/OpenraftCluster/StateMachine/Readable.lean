import RustExample.OpenraftCluster.Kv.Service
import RustExample.OpenraftCluster.StateMachine.Log

/-!
# Unreadable records

A task command fails on a record that does not decode, and the batch that holds the command fails
with it, at every replica and again at every retry. The task commands themselves store records
that decode; the key-value service writes any value under any key, the reserved keys of the task
domain included.
-/

namespace RustExample.OpenraftCluster

open List

/-! ### Commands and the records they read -/

/-- The ids whose record a command reads. -/
def TaskRequest.recordReads (s : KeySpace) (cmd : TaskRequest) : List String :=
  match cmd with
  | .taskEnqueue id _ _ idemKey _ =>
    if (idemKey.bind fun idem => s[idemRecordKey idem]?).isSome then [] else [id]
  | .taskVacuum ids => ids
  | cmd => cmd.target.toList

variable (texts : TextForms)

/-- A text that decodes as a task record. -/
def Decodes (raw : String) : Prop := ∃ r, texts.taskRecord.fromStr raw = .ok r

/-- What is stored under the record key of a task decodes. -/
def KeySpace.Readable (s : KeySpace) (id : String) : Prop :=
  ∀ raw, s[recKey id]? = some raw → Decodes texts raw

/-- A mutation under the record key of a task keeps one of the given tasks readable. -/
def KeepsReadable (ids : List String) (w : KvMutation) : Prop :=
  ∀ id, w.key = recKey id → id ∈ ids ∧ ∀ raw, w.value = some raw → Decodes texts raw

/-- Code that reads records of tasks: it fails on an unreadable one, and keeps them readable. -/
def ReadsRecords (s : KeySpace) (ids : List String)
    (out : Except String (List KvMutation × Response)) : Prop :=
  ((∃ id ∈ ids, ¬s.Readable texts id) ∧ ∃ err, out = .error err) ∨
    (∀ id ∈ ids, s.Readable texts id) ∧ ∃ p, out = .ok p ∧ ∀ w ∈ p.1, KeepsReadable texts ids w

variable {texts} {s : KeySpace} {id : String}

theorem recKey_inj {id id' : String} : recKey id = recKey id' ↔ id = id' := by
  rw [recKey, recKey, String.append_right_inj]

theorem keepsReadable_put_rec (r : TaskRecord) :
    KeepsReadable texts [id] (.put (recKey id) (encodeRecord texts r)) := by
  intro id' hkey
  obtain rfl := recKey_inj.mp hkey
  refine ⟨mem_singleton_self _, fun raw hraw => ⟨r, ?_⟩⟩
  obtain ⟨⟩ := hraw
  exact texts.taskRecord.fromStr_toStr r

theorem keepsReadable_del_rec : KeepsReadable texts [id] (.del (recKey id)) := by
  intro id' hkey
  obtain rfl := recKey_inj.mp hkey
  exact ⟨mem_singleton_self _, nofun⟩

theorem keepsReadable_of_render {ids : List String} {w : KvMutation} (key : TaskKey)
    (hw : w.key = key.render) (hkey : ∀ id, key ≠ .record id) : KeepsReadable texts ids w := by
  intro id' hid
  have hsame : key.SameText (.record id') := TaskKey.render_eq_render.mp (hw.symm.trans hid)
  cases key <;> simp_all [TaskKey.SameText]

variable (texts) in
theorem readRecord_reader (s : KeySpace) (id : String) :
    (¬s.Readable texts id ∧ ∃ err, readRecord texts s.reader id = .error err) ∨
      s.Readable texts id ∧ ∃ o, readRecord texts s.reader id = .ok o := by
  simp only [readRecord, KeySpace.reader, ok_bind, KeySpace.Readable, Decodes]
  cases hraw : s[recKey id]? with
  | none => exact .inr ⟨fun _ h => (by cases h), none, rfl⟩
  | some raw =>
    cases hr : texts.taskRecord.fromStr raw with
    | error err =>
      refine .inl ⟨fun h => ?_, _, by simp only [hr]; rfl⟩
      obtain ⟨r, hok⟩ := h raw rfl
      simp [hr] at hok
    | ok r =>
      refine .inr ⟨fun raw' hraw' => ?_, some r, by simp only [hr]; rfl⟩
      obtain ⟨⟩ := hraw'
      exact ⟨r, hr⟩

/-- Code that reads one record and then only writes. -/
theorem readsRecords_bind {k : Option TaskRecord → Except String (List KvMutation × Response)}
    (h : ∀ o, ∃ p, k o = .ok p ∧ ∀ w ∈ p.1, KeepsReadable texts [id] w) :
    ReadsRecords texts s [id] (readRecord texts s.reader id >>= k) := by
  rcases readRecord_reader texts s id with ⟨hno, err, hread⟩ | ⟨hyes, o, hread⟩
  · exact .inl ⟨⟨id, mem_singleton_self id, hno⟩, err, by rw [hread]; rfl⟩
  · refine .inr ⟨fun id' hid' => List.mem_singleton.mp hid' ▸ hyes, ?_⟩
    rw [hread]
    exact h o

theorem keepsReadable_nil {ids : List String} : ∀ w ∈ ([] : List KvMutation),
    KeepsReadable texts ids w :=
  fun _ h => absurd h not_mem_nil

variable {ws : List KvMutation}

theorem keepsReadable_keys {ids : List String} (keys : List TaskKey)
    (hkeys : ws.map KeyStore.Write.key = keys.map TaskKey.render)
    (hne : ∀ key ∈ keys, ∀ id, key ≠ .record id) : ∀ w ∈ ws, KeepsReadable texts ids w := by
  intro w hw
  have hmem : w.key ∈ keys.map TaskKey.render := hkeys ▸ mem_map_of_mem hw
  obtain ⟨key, hkey, heq⟩ := List.mem_map.mp hmem
  exact keepsReadable_of_render key heq.symm (hne key hkey)

/-- A record under the key of its task, and mutations of keys of other kinds. -/
theorem keepsReadable_cons {r : TaskRecord} (keys : List TaskKey)
    (hkeys : ws.map KeyStore.Write.key = keys.map TaskKey.render)
    (hne : ∀ key ∈ keys, ∀ id, key ≠ .record id) :
    ∀ w ∈ KvMutation.put (recKey id) (encodeRecord texts r) :: ws, KeepsReadable texts [id] w :=
  List.forall_mem_cons.mpr ⟨keepsReadable_put_rec r, keepsReadable_keys keys hkeys hne⟩

/-- Code that rejects a missing task and otherwise only writes. -/
theorem readsRecords_found {k : TaskRecord → Except String (List KvMutation × Response)}
    (h : ∀ record, ∃ p, k record = .ok p ∧ ∀ w ∈ p.1, KeepsReadable texts [id] w) :
    ReadsRecords texts s [id] (readRecord texts s.reader id >>= fun o =>
      match o with
      | none => unchanged texts (.rejected "task not found")
      | some record => k record) := by
  refine readsRecords_bind fun o => ?_
  cases o with
  | none => exact ⟨_, rfl, keepsReadable_nil⟩
  | some record => exact h record

/-! ### The commands -/

section Commands

variable (s : KeySpace) (id nodeId payload error : String)
  (leaseEpoch now runAt retryAt createdAt : UInt64) (attempts : UInt32)
  (result idemKey : Option String)

variable (texts) in
theorem enqueueFresh_readsRecords : ReadsRecords texts s [id]
    (enqueueFresh texts s.reader id payload runAt idemKey createdAt) := by
  refine readsRecords_bind fun o => ?_
  cases o with
  | some record => exact ⟨_, rfl, keepsReadable_nil⟩
  | none =>
    refine ⟨_, rfl, keepsReadable_cons (.queued runAt id :: (idemKey.map .idem).toList) ?_ ?_⟩
    · cases idemKey <;> rfl
    · cases idemKey <;> simp

theorem applyAssign_readsRecords :
    ReadsRecords texts s [id] (applyAssign texts s.reader id nodeId leaseEpoch now) := by
  refine readsRecords_found fun record => ?_
  dsimp only
  split_ifs
  · exact ⟨_, rfl, keepsReadable_nil⟩
  · exact ⟨_, rfl, keepsReadable_cons [.queued record.runAt id, .assigned nodeId id] rfl (by simp)⟩

theorem applyClaim_readsRecords :
    ReadsRecords texts s [id] (applyClaim texts s.reader id nodeId leaseEpoch now) := by
  refine readsRecords_found fun record => ?_
  dsimp only
  split_ifs
  · exact ⟨_, rfl, keepsReadable_nil⟩
  · exact ⟨_, rfl, keepsReadable_cons [] rfl nofun⟩

theorem applyMarkCommitted_readsRecords :
    ReadsRecords texts s [id] (applyMarkCommitted texts s.reader id nodeId leaseEpoch now) := by
  refine readsRecords_found fun record => ?_
  dsimp only
  split_ifs
  · exact ⟨_, rfl, keepsReadable_nil⟩
  · exact ⟨_, rfl, keepsReadable_nil⟩
  · exact ⟨_, rfl, keepsReadable_cons [] rfl nofun⟩

theorem applyDone_readsRecords : ReadsRecords texts s [id]
    (applyDone texts s.reader id nodeId leaseEpoch attempts now result) := by
  refine readsRecords_found fun record => ?_
  dsimp only
  split_ifs
  · exact ⟨_, rfl, keepsReadable_nil⟩
  · exact ⟨_, rfl, keepsReadable_cons [.assigned nodeId id, .terminal now id] rfl (by simp)⟩

theorem applyFail_readsRecords : ReadsRecords texts s [id]
    (applyFail texts s.reader id nodeId leaseEpoch attempts error retryAt now) := by
  refine readsRecords_found fun record => ?_
  dsimp only
  generalize (if (record.committed && decide (0 < retryAt)) = true then 0 else retryAt) = at'
  split_ifs
  · exact ⟨_, rfl, keepsReadable_nil⟩
  all_goals first
    | exact ⟨_, rfl, keepsReadable_cons [.assigned nodeId id, .queued at' id] rfl (by simp)⟩
    | exact ⟨_, rfl, keepsReadable_cons [.assigned nodeId id, .terminal now id] rfl (by simp)⟩

theorem applyRequeue_readsRecords :
    ReadsRecords texts s [id] (applyRequeue texts s.reader id) := by
  refine readsRecords_found fun record => ?_
  dsimp only
  split_ifs
  · exact ⟨_, rfl, keepsReadable_nil⟩
  · refine ⟨_, rfl, keepsReadable_cons ((record.assignedNodeId.map fun node =>
      TaskKey.assigned node id).toList ++
        [.terminal (max record.updatedAt record.createdAt) id]) ?_ ?_⟩
    · cases record.assignedNodeId <;> rfl
    · cases record.assignedNodeId <;> simp
  · refine ⟨_, rfl, keepsReadable_cons ((record.assignedNodeId.map fun node =>
      TaskKey.assigned node id).toList ++ [.queued record.runAt id]) ?_ ?_⟩
    · cases record.assignedNodeId <;> rfl
    · cases record.assignedNodeId <;> simp

theorem applyReplay_readsRecords :
    ReadsRecords texts s [id] (applyReplay texts s.reader id now) := by
  refine readsRecords_found fun record => ?_
  dsimp only
  split_ifs
  · exact ⟨_, rfl, keepsReadable_nil⟩
  · exact ⟨_, rfl, keepsReadable_nil⟩
  · exact ⟨_, rfl, keepsReadable_cons [.terminal record.completedAt id, .queued now id] rfl
      (by simp)⟩

end Commands

theorem KeepsReadable.mono {ids ids' : List String} {w : KvMutation}
    (h : KeepsReadable texts ids w) (hsub : ids ⊆ ids') : KeepsReadable texts ids' w :=
  fun id hid => ⟨hsub (h id hid).1, (h id hid).2⟩

variable (texts) in
/-- One round of a vacuum fails on a record that does not decode. -/
theorem vacuumOne_readsRecords (s : KeySpace) (id : String) (acc : List KvMutation × ℕ) :
    (¬s.Readable texts id ∧ ∃ err, vacuumOne texts s.reader acc id = .error err) ∨
      s.Readable texts id ∧ ∃ p, vacuumOne texts s.reader acc id = .ok p ∧
        ∀ w ∈ p.1, w ∈ acc.1 ∨ KeepsReadable texts [id] w := by
  rcases readRecord_reader texts s id with ⟨hno, err, hread⟩ | ⟨hyes, o, hread⟩
  · exact .inl ⟨hno, err, by rw [vacuumOne, hread]; rfl⟩
  · refine .inr ⟨hyes, ?_⟩
    rw [vacuumOne, hread, ok_bind]
    cases o with
    | none => exact ⟨acc, rfl, fun w hw => .inl hw⟩
    | some record =>
      dsimp only
      split_ifs
      · exact ⟨acc, rfl, fun w hw => .inl hw⟩
      · refine ⟨_, rfl, fun w hw => (List.mem_append.mp hw).imp_right fun hw => ?_⟩
        rcases List.mem_cons.mp hw with rfl | hw
        · exact keepsReadable_del_rec
        · refine keepsReadable_keys
            (.terminal record.completedAt id :: (record.idemKey.map .idem).toList) ?_ ?_ w hw
          · cases record.idemKey <;> rfl
          · cases record.idemKey <;> simp

variable (texts) in
/-- The loop of a vacuum fails on the first record that does not decode. -/
theorem foldlM_vacuumOne_readsRecords (s : KeySpace) (ids : List String)
    (acc : List KvMutation × ℕ) :
    ((∃ id ∈ ids, ¬s.Readable texts id) ∧
        ∃ err, ids.foldlM (vacuumOne texts s.reader) acc = .error err) ∨
      (∀ id ∈ ids, s.Readable texts id) ∧ ∃ p, ids.foldlM (vacuumOne texts s.reader) acc = .ok p ∧
        ∀ w ∈ p.1, w ∈ acc.1 ∨ KeepsReadable texts ids w := by
  induction ids generalizing acc with
  | nil => exact .inr ⟨nofun, acc, rfl, fun w hw => .inl hw⟩
  | cons id ids ih =>
    rw [foldlM_cons]
    rcases vacuumOne_readsRecords texts s id acc with
      ⟨hno, err, hone⟩ | ⟨hyes, acc', hone, hws⟩
    · exact .inl ⟨⟨id, mem_cons_self, hno⟩, err, by rw [hone]; rfl⟩
    · rw [hone, ok_bind]
      rcases ih acc' with ⟨⟨id', hid', hno⟩, hrun⟩ | ⟨hall, p, hrun, hws'⟩
      · exact .inl ⟨⟨id', mem_cons_of_mem id hid', hno⟩, hrun⟩
      · refine .inr ⟨List.forall_mem_cons.mpr ⟨hyes, hall⟩, p, hrun, fun w hw => ?_⟩
        rcases hws' w hw with hw | hw
        · exact (hws w hw).imp_right fun h => h.mono (by simp)
        · exact .inr (hw.mono (subset_cons_self id ids))

theorem applyVacuum_readsRecords (s : KeySpace) (ids : List String) :
    ReadsRecords texts s ids (applyVacuum texts s.reader ids) := by
  rw [applyVacuum]
  rcases foldlM_vacuumOne_readsRecords texts s ids ([], 0) with
    ⟨hno, err, hrun⟩ | ⟨hall, p, hrun, hws⟩
  · exact .inl ⟨hno, err, by rw [hrun]; rfl⟩
  · refine .inr ⟨hall, _, by rw [hrun]; rfl, fun w hw => ?_⟩
    exact (hws w hw).resolve_left not_mem_nil

variable (texts) in
/-- **When a command fails.** A task command fails if and only if it reads a record that does not
decode, and what it writes under a record key decodes. -/
theorem applyTaskCommand_readsRecords (s : KeySpace) (cmd : TaskRequest) :
    ReadsRecords texts s (cmd.recordReads s) (applyTaskCommand texts s.reader cmd) := by
  cases cmd with
  | taskEnqueue id payload runAt idemKey createdAt =>
    have hfresh := enqueueFresh_readsRecords texts s id payload runAt createdAt idemKey
    simp only [TaskRequest.recordReads, applyTaskCommand, applyEnqueue]
    cases idemKey with
    | none => exact hfresh
    | some idem =>
      simp only [KeySpace.reader, ok_bind, Option.bind_some]
      rcases Option.eq_none_or_eq_some s[idemRecordKey idem]? with hidem | ⟨existingId, hidem⟩
      · simp only [hidem]
        exact hfresh
      · simp only [hidem]
        exact .inr ⟨forall_mem_nil _, _, rfl, keepsReadable_nil⟩
  | taskAssign id nodeId leaseEpoch now => exact applyAssign_readsRecords s id nodeId leaseEpoch now
  | taskClaim id nodeId leaseEpoch now => exact applyClaim_readsRecords s id nodeId leaseEpoch now
  | taskMarkCommitted id nodeId leaseEpoch now =>
    exact applyMarkCommitted_readsRecords s id nodeId leaseEpoch now
  | taskDone id nodeId leaseEpoch attempts now result =>
    exact applyDone_readsRecords s id nodeId leaseEpoch now attempts result
  | taskFail id nodeId leaseEpoch attempts error retryAt now =>
    exact applyFail_readsRecords s id nodeId error leaseEpoch now retryAt attempts
  | taskRequeue id => exact applyRequeue_readsRecords s id
  | taskReplay id now => exact applyReplay_readsRecords s id now
  | taskVacuum ids => exact applyVacuum_readsRecords s ids
  | workerLease nodeId workerName leaseEpoch expiresAt =>
    exact .inr ⟨forall_mem_nil _, _, rfl,
      keepsReadable_keys [.worker nodeId] rfl (by simp)⟩

/-! ### Logs -/

variable {M R : Type}

/-- What the key-value service last put under a key, unless it deleted the key since. -/
def lastSet (log : List (Entry M)) (key : String) : Option String :=
  log.foldl (fun last entry =>
    match entry.payload with
    | .normal (.set k value) => if k = key then some value else last
    | .normal (.delete k) => if k = key then none else last
    | .normal (.task _) | .blank | .membership _ => last) none

variable (texts) in
/-- The unreadable values under record keys are those that the key-value service left there. -/
def Tracks (log : List (Entry M)) (s : KeySpace) : Prop :=
  ∀ id raw, ¬Decodes texts raw →
    (s[recKey id]? = some raw ↔ lastSet log (recKey id) = some raw)

variable {log : List (Entry M)} {db db' : Db M} {entry : Entry M}

theorem lastSet_snoc (key : String) : lastSet (log ++ [entry]) key =
    match entry.payload with
    | .normal (.set k value) => if k = key then some value else lastSet log key
    | .normal (.delete k) => if k = key then none else lastSet log key
    | .normal (.task _) | .blank | .membership _ => lastSet log key := by
  rw [lastSet, foldl_append]
  rfl

theorem ReadsRecords.getElem?_eq {ids : List String} {out} {p : List KvMutation × Response}
    (h : ReadsRecords texts s ids out) (hout : out = .ok p) {raw : String}
    (hraw : ¬Decodes texts raw) (id : String) :
    (s.writeAll p.1)[recKey id]? = some raw ↔ s[recKey id]? = some raw := by
  rcases h with ⟨-, err, herr⟩ | ⟨hall, p', hp', hws⟩
  · simp [herr] at hout
  · obtain rfl := Except.ok.inj (hp'.symm.trans hout)
    by_cases hw : ∃ w ∈ p'.1, w.key = recKey id
    · obtain ⟨w, hw, hkey⟩ := hw
      have hno : s[recKey id]? ≠ some raw := fun hs =>
        hraw (hall id (hws w hw id hkey).1 raw hs)
      refine iff_of_false (fun hs => ?_) hno
      rcases KeyStore.mem_or_mem_of_getElem?_writeAll hs with ⟨w', hw', hkey', hvalue⟩ | hs
      · exact hraw ((hws w' hw' id hkey').2 raw hvalue)
      · exact hno hs
    · rw [KeyStore.getElem?_writeAll_of_notMem fun w hw' hkey => hw ⟨w, hw', hkey⟩]

/-- **One entry.** The unreadable values stay those of the key-value service. -/
theorem Tracks.step (h : Tracks texts log db.smData) (hstep : db.step texts entry = .ok db') :
    Tracks texts (log ++ [entry]) db'.smData := by
  obtain ⟨p, hp, rfl⟩ := map_eq_ok.mp ((Db.step_eq texts entry).symm.trans hstep)
  intro id raw hraw
  rw [lastSet_snoc]
  cases hpayload : entry.payload with
  | blank | membership mem =>
    rw [hpayload] at hp
    obtain ⟨⟩ := hp
    exact h id raw hraw
  | normal req =>
    rw [hpayload] at hp
    cases req with
    | set key value =>
      obtain ⟨⟩ := hp
      simp only [KeyStore.writeAll_cons, KeyStore.writeAll_nil, KeyStore.getElem?_write,
        KvMutation.put]
      split_ifs
      · rfl
      · exact h id raw hraw
    | delete key =>
      obtain ⟨⟩ := hp
      simp only [KeyStore.writeAll_cons, KeyStore.writeAll_nil, KeyStore.getElem?_write,
        KvMutation.del]
      split_ifs
      · rfl
      · exact h id raw hraw
    | task cmd =>
      exact ((applyTaskCommand_readsRecords texts db.smData cmd).getElem?_eq hp hraw id).trans
        (h id raw hraw)

end RustExample.OpenraftCluster
