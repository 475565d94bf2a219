import Mathlib.Data.List.Permutation
import RustExample.Foundation.Linearizability
import RustExample.OpenraftCluster.Kv.Service
import RustExample.OpenraftCluster.StateMachine.Log

/-!
# Concurrent requests of the key-value service

The leader handles requests concurrently. A request reads the data at one moment and proposes its
write, which raft applies at a later moment; in between, other requests are handled. Raft applies
the writes in one order; a step applies one of them, and a batch is a sequence of such steps.

An Update and a Delete check their key in the read, and write unconditionally.
-/

namespace RustExample.OpenraftCluster

open Function List

/-! ### The sequential map -/

/-- The sequential map: an Update changes a key that exists, and a Delete succeeds on one. -/
def KvRequestOp.spec (s : KeySpace) : KvRequestOp → KeySpace × KvResponseOp
  | .get key => (s, .get s[key]?.isSome (s[key]?.getD ""))
  | .set key value => (s.insert key value, .set true value)
  | .update key value =>
    if s[key]?.isSome then (s.insert key value, .update true value) else (s, .update false "")
  | .delete key => if s[key]?.isSome then (s.erase key, .delete true) else (s, .delete false)
  | .listPrefix keyPrefix => (s, .listPrefix (s.entriesWithPrefix keyPrefix))

/-- The sequential map answers a malformed request with an error. -/
def kvSpec (s : KeySpace) (request : RaftKvRequest) : KeySpace × KvResponseOp :=
  if request.groupId.isEmpty then (s, kvErrorResponse "missing group_id")
  else
    match request.op with
    | none => (s, kvErrorResponse "missing request op")
    | some op => op.spec s

/-- The key that a request checks before it writes. -/
def KvRequestOp.checkedKey : KvRequestOp → Option String
  | .update key _ | .delete key => some key
  | .get _ | .set _ _ | .listPrefix _ => none

/-! ### Requests in progress -/

/-- How far a request is at the leader. -/
inductive KvCall where
  | started (request : RaftKvRequest)
  | writing (request : RaftKvRequest) (req : Request) (reply : Response → KvResponseOp)
  | answered (response : KvResponseOp)
  | returned

/-- What becomes of a request with its read. -/
def KvCall.afterRead (request : RaftKvRequest) : KvProgress → KvCall
  | .answered response => .answered response
  | .writing req reply => .writing request req reply

/-- The leader: its database and the requests it has received. -/
structure KvLeader (M ι : Type) where
  db : Db M
  calls : ι → Option KvCall

/-- What may happen. -/
inductive KvEvent (M ι : Type) where
  | receive (i : ι) (request : RaftKvRequest)
  | read (i : ι)
  | apply (i : ι) (logId : LogId)
  | applyOther (entry : Entry M)
  | answer (i : ι) (response : KvResponseOp)

/-- The call or return that is seen. -/
def KvEvent.shown {M ι : Type} : KvEvent M ι → Option (CallEvent ι RaftKvRequest KvResponseOp)
  | .receive i request => some (.call i request)
  | .answer i response => some (.ret i response)
  | .read _ | .apply _ _ | .applyOther _ => none

namespace KvLeader

variable {M ι : Type} [DecidableEq ι]

/-- A call comes to a stage. -/
def setCall (leader : KvLeader M ι) (i : ι) (c : KvCall) : KvLeader M ι :=
  { leader with calls := update leader.calls i (some c) }

/-- A leader that has received no request. -/
def initial (db : Db M) : KvLeader M ι := ⟨db, fun _ => none⟩

/-- The steps of the leader. Raft also applies entries without data. -/
inductive Step (texts : TextForms) (leader : KvLeader M ι) : KvEvent M ι → KvLeader M ι → Prop
  | receive (i : ι) (request : RaftKvRequest) (h : leader.calls i = none) :
      Step texts leader (.receive i request) (leader.setCall i (.started request))
  | read (i : ι) (request : RaftKvRequest) (progress : KvProgress)
      (h : leader.calls i = some (.started request))
      (hread : processKvRequest .leader leader.db.smData request = progress) :
      Step texts leader (.read i) (leader.setCall i (.afterRead request progress))
  | apply (i : ι) (logId : LogId) (request : RaftKvRequest) (req : Request)
      (reply : Response → KvResponseOp) (db : Db M) (response : Response)
      (h : leader.calls i = some (.writing request req reply))
      (hcommit : leader.db.commit texts (⟨logId, .normal req⟩, some i) =
        .ok (db, [(i, response)])) :
      Step texts leader (.apply i logId)
        { leader.setCall i (.answered (reply response)) with db := db }
  | applyOther (entry : Entry M) (db : Db M) (hentry : ∀ req, entry.payload ≠ .normal req)
      (hcommit : leader.db.step texts entry = .ok db) :
      Step texts leader (.applyOther entry) { leader with db := db }
  | answer (i : ι) (response : KvResponseOp) (h : leader.calls i = some (.answered response)) :
      Step texts leader (.answer i response) (leader.setCall i .returned)

/-- A write that is applied finds the key that its request checked. -/
def KeepsChecked (leader : KvLeader M ι) : KvEvent M ι → Prop
  | .apply i _ => ∀ request req reply op key, leader.calls i = some (.writing request req reply) →
      request.op = some op → op.checkedKey = some key → leader.db.smData[key]?.isSome
  | .receive _ _ | .read _ | .applyOther _ | .answer _ _ => True

/-- The steps of a leader at which no checked key disappears. -/
def CheckedStep (texts : TextForms) (leader : KvLeader M ι) (e : KvEvent M ι)
    (leader' : KvLeader M ι) : Prop :=
  Step texts leader e leader' ∧ leader.KeepsChecked e

end KvLeader

/-! ### One request -/

section Request

variable {texts : TextForms} {M ι : Type} {s : KeySpace} {req : Request}
  {reply : Response → KvResponseOp}

/-- A request that its read answers is answered as by the sequential map, and changes nothing. -/
theorem KvRequestOp.spec_of_answered {op : KvRequestOp} {response : KvResponseOp}
    (h : op.handle s = .answered response) : op.spec s = (s, response) := by
  cases op with
  | get key =>
    simp only [handle] at h
    cases hkey : s[key]? <;> simp_all [spec]
  | set key value => simp [handle] at h
  | update key value =>
    simp only [handle] at h
    split_ifs at h with hkey
    simp_all [spec]
  | delete key =>
    simp only [handle] at h
    split_ifs at h with hkey
    simp_all [spec]
  | listPrefix keyPrefix => simp_all [handle, spec]

theorem Db.commit_set (db : Db M) (logId : LogId) (key value : String) (i : ι) :
    db.commit texts (⟨logId, .normal (.set key value)⟩, some i) =
      .ok (⟨db.smData.insert key value, some logId, db.lastMembership⟩, [(i, .new value)]) := rfl

theorem Db.commit_delete (db : Db M) (logId : LogId) (key : String) (i : ι) :
    db.commit texts (⟨logId, .normal (.delete key)⟩, some i) =
      .ok (⟨db.smData.erase key, some logId, db.lastMembership⟩, [(i, .none)]) := rfl

theorem Db.smData_of_step_other {db db' : Db M} {entry : Entry M}
    (hentry : ∀ req, entry.payload ≠ .normal req) (hstep : db.step texts entry = .ok db') :
    db'.smData = db.smData := by
  obtain ⟨logId, payload⟩ := entry
  cases payload with
  | normal req => exact absurd rfl (hentry req)
  | blank =>
    obtain ⟨⟩ := hstep
    rfl
  | membership mem =>
    obtain ⟨⟩ := hstep
    rfl

/-- **A write is the sequential map's if and only if its checked key is there.** -/
theorem KvRequestOp.commit_eq_spec_iff {op : KvRequestOp} (h : op.handle s = .writing req reply)
    {db db' : Db M} {logId : LogId} {i : ι} {response : Response}
    (hcommit : db.commit texts (⟨logId, .normal req⟩, some i) = .ok (db', [(i, response)])) :
    op.spec db.smData = (db'.smData, reply response) ↔
      ∀ key ∈ op.checkedKey, db.smData[key]?.isSome := by
  cases op with
  | get key =>
    simp only [handle] at h
    cases hkey : s[key]? <;> simp [hkey] at h
  | set key value =>
    obtain ⟨rfl, rfl⟩ := KvProgress.writing.inj h
    rw [Db.commit_set] at hcommit
    obtain ⟨rfl, hresponse⟩ := Prod.mk.inj (Except.ok.inj hcommit)
    obtain rfl : Response.new value = response := by simpa using hresponse
    simp [spec, checkedKey, Response.new]
  | update key value =>
    simp only [handle] at h
    split_ifs at h
    obtain ⟨rfl, rfl⟩ := KvProgress.writing.inj h
    rw [Db.commit_set] at hcommit
    obtain ⟨rfl, hresponse⟩ := Prod.mk.inj (Except.ok.inj hcommit)
    obtain rfl : Response.new value = response := by simpa using hresponse
    by_cases hkey : key ∈ db.smData <;> simp [spec, checkedKey, Response.new, hkey]
  | delete key =>
    simp only [handle] at h
    split_ifs at h
    obtain ⟨rfl, rfl⟩ := KvProgress.writing.inj h
    rw [Db.commit_delete] at hcommit
    obtain ⟨rfl, -⟩ := Prod.mk.inj (Except.ok.inj hcommit)
    by_cases hkey : key ∈ db.smData <;> simp [spec, checkedKey, hkey]
  | listPrefix keyPrefix => cases h

/-- What the leader answers from its read is what the sequential map answers. -/
theorem kvSpec_of_answered {request : RaftKvRequest} {response : KvResponseOp}
    (h : processKvRequest .leader s request = .answered response) :
    kvSpec s request = (s, response) := by
  simp only [processKvRequest] at h
  rw [kvSpec]
  split_ifs at h ⊢
  · obtain rfl := KvProgress.answered.inj h
    rfl
  · cases hop : request.op with
    | none =>
      rw [hop] at h
      obtain rfl := KvProgress.answered.inj h
      rfl
    | some op =>
      rw [hop] at h
      exact KvRequestOp.spec_of_answered h

theorem exists_op_of_writing {request : RaftKvRequest}
    (h : processKvRequest .leader s request = .writing req reply) :
    ∃ op, request.op = some op ∧ op.handle s = .writing req reply ∧
      ∀ s', kvSpec s' request = op.spec s' := by
  simp only [processKvRequest] at h
  split_ifs at h with hgroup
  cases hop : request.op with
  | none => simp [hop] at h
  | some op =>
    rw [hop] at h
    exact ⟨op, rfl, h, fun s' => by simp [kvSpec, hgroup, hop]⟩

end Request

/-! ### Concurrent requests -/

/-- The stage of a request, as the atomic object has it. -/
def KvCall.stage : KvCall → CallStage RaftKvRequest KvResponseOp
  | .started request | .writing request _ _ => .called request
  | .answered response => .done response
  | .returned => .returned

namespace KvLeader

variable {M ι : Type} {texts : TextForms} {leader leader' : KvLeader M ι}

/-- The sequential map with the requests of the leader. -/
def atomic (leader : KvLeader M ι) : AtomicObject KeySpace ι RaftKvRequest KvResponseOp :=
  ⟨leader.db.smData, fun i => (leader.calls i).map KvCall.stage⟩

theorem atomic_stage (leader : KvLeader M ι) (i : ι) :
    leader.atomic.stage i = (leader.calls i).map KvCall.stage := rfl

/-- A request that writes has checked its key in some data. -/
def WritesRead (leader : KvLeader M ι) : Prop :=
  ∀ i request req reply, leader.calls i = some (.writing request req reply) →
    ∃ s, processKvRequest .leader s request = .writing req reply

theorem writesRead_initial (db : Db M) : (initial db : KvLeader M ι).WritesRead := by
  intro i request req reply h
  cases h

variable [DecidableEq ι]

theorem atomic_setCall (leader : KvLeader M ι) (i : ι) (c : KvCall) :
    (leader.setCall i c).atomic = leader.atomic.setStage i c.stage := by
  refine congrArg (AtomicObject.mk leader.db.smData) (funext fun j => ?_)
  by_cases hj : j = i
  · subst hj
    simp [setCall, atomic]
  · simp [setCall, atomic, hj]

theorem WritesRead.setCall (h : leader.WritesRead) {i : ι} {c : KvCall}
    (hc : ∀ request req reply, c = .writing request req reply →
      ∃ s, processKvRequest .leader s request = .writing req reply) :
    (leader.setCall i c).WritesRead := by
  intro j request req reply hj
  by_cases hij : j = i
  · subst hij
    exact hc request req reply (by simpa [KvLeader.setCall] using hj)
  · exact h j request req reply (by simpa [KvLeader.setCall, hij] using hj)

omit [DecidableEq ι] in
theorem stage_atomic {i : ι} {c : KvCall} (h : leader.calls i = some c) :
    leader.atomic.stage i = some c.stage := by
  rw [atomic_stage, h, Option.map_some]

/-- A request takes effect when the sequential map gives its answer. -/
theorem atomic_answered {i : ι} {c : KvCall} {request : RaftKvRequest} {response : KvResponseOp}
    {db : Db M} (h : leader.calls i = some c) (hc : c.stage = .called request)
    (hspec : kvSpec leader.db.smData request = (db.smData, response)) :
    AtomicObject.Step kvSpec leader.atomic none
      { leader.setCall i (.answered response) with db := db }.atomic := by
  have hstep := @AtomicObject.Step.effect _ _ _ _ _ kvSpec leader.atomic i request
    (hc ▸ stage_atomic h)
  have hatomic : leader.atomic.state = leader.db.smData := rfl
  rw [hatomic, hspec] at hstep
  have hset : (leader.setCall i (.answered response)).atomic =
      leader.atomic.setStage i (.done response) := atomic_setCall leader i _
  rw [← hset] at hstep
  exact hstep

/-- **One step of the leader** is at most one step of the sequential map, if the write that it
applies finds its checked key. -/
theorem Step.atomic {e : KvEvent M ι} (h : Step texts leader e leader')
    (hkeeps : leader.KeepsChecked e) (hwrites : leader.WritesRead) :
    ∃ es, Run (AtomicObject.Step kvSpec) leader.atomic es leader'.atomic ∧
      es.filterMap id = e.shown.toList := by
  cases h with
  | receive i request hi =>
    rw [atomic_setCall]
    have hstage : leader.atomic.stage i = none := by rw [atomic_stage, hi, Option.map_none]
    exact ⟨_, Run.nil.snoc (.call i request hstage), rfl⟩
  | read i request progress hi hread =>
    cases progress with
    | answered response =>
      exact ⟨_, Run.nil.snoc (atomic_answered hi rfl (kvSpec_of_answered hread)), rfl⟩
    | writing req reply =>
      have hsame : (leader.setCall i (.writing request req reply)).atomic = leader.atomic := by
        rw [atomic_setCall]
        refine congrArg (AtomicObject.mk leader.db.smData) ?_
        exact Function.update_eq_self_iff.mpr (stage_atomic hi).symm
      exact ⟨[], hsame ▸ Run.nil, rfl⟩
  | apply i logId request req reply db response hi hcommit =>
    obtain ⟨s, hs⟩ := hwrites i request req reply hi
    obtain ⟨op, hop, hhandle, hspec⟩ := exists_op_of_writing hs
    have hkey := (KvRequestOp.commit_eq_spec_iff hhandle hcommit).mpr fun key hkey =>
      hkeeps request req reply op key hi hop hkey
    exact ⟨_, Run.nil.snoc (atomic_answered hi rfl ((hspec _).trans hkey)), rfl⟩
  | applyOther entry db hentry hcommit =>
    have hsame : { leader with db := db }.atomic = leader.atomic := by
      refine congrArg (AtomicObject.mk · _) ?_
      exact Db.smData_of_step_other hentry hcommit
    exact ⟨[], hsame ▸ Run.nil, rfl⟩
  | answer i response hi =>
    rw [atomic_setCall]
    exact ⟨_, Run.nil.snoc (.ret i response (stage_atomic hi)), rfl⟩

theorem Step.writesRead {e : KvEvent M ι} (h : Step texts leader e leader')
    (hwrites : leader.WritesRead) : leader'.WritesRead := by
  cases h with
  | receive i request hi => exact hwrites.setCall fun _ _ _ hc => by cases hc
  | read i request progress hi hread =>
    refine hwrites.setCall fun request' req reply hc => ⟨leader.db.smData, ?_⟩
    cases progress with
    | answered response => cases hc
    | writing req' reply' =>
      cases hc
      exact hread
  | apply i logId request req reply db response hi hcommit =>
    exact hwrites.setCall fun _ _ _ hc => by cases hc
  | applyOther entry db hentry hcommit => exact hwrites
  | answer i response hi => exact hwrites.setCall fun _ _ _ hc => by cases hc

end KvLeader

/-! ### Batches of writes -/

theorem Db.exists_response {M R : Type} {texts : TextForms} {db db' : Db M} {entry : Entry M}
    {r : R} {responses : List (R × Response)}
    (h : db.commit texts (entry, some r) = .ok (db', responses)) :
    ∃ response, responses = [(r, response)] := by
  rw [commit] at h
  cases heffect : entry.payload.effect texts db.smData.reader (some r).isSome with
  | error err =>
    rw [heffect] at h
    cases h
  | ok p =>
    rw [heffect] at h
    obtain ⟨-, rfl⟩ := Prod.mk.inj (Except.ok.inj h)
    exact ⟨p.2, rfl⟩

/-- The entries of a batch: writes of different requests, and entries without data. -/
structure KvLeader.Proposes {M ι : Type} (leader : KvLeader M ι)
    (entries : List (Entry M × Option ι)) : Prop where
  write : ∀ e ∈ entries, ∀ i, e.2 = some i → ∃ request req reply,
    leader.calls i = some (.writing request req reply) ∧ e.1.payload = .normal req
  other : ∀ e ∈ entries, e.2 = none → ∀ req, e.1.payload ≠ .normal req
  nodup : (entries.filterMap Prod.snd).Nodup

namespace KvLeader

variable {M ι : Type} [DecidableEq ι] {texts : TextForms} {leader : KvLeader M ι}

omit [DecidableEq ι] in
theorem Proposes.tail {e : Entry M × Option ι} {entries : List (Entry M × Option ι)}
    (h : leader.Proposes (e :: entries)) (db : Db M) :
    ({ leader with db := db } : KvLeader M ι).Proposes entries where
  write := fun e' he' => h.write e' (mem_cons_of_mem _ he')
  other := fun e' he' => h.other e' (mem_cons_of_mem _ he')
  nodup := h.nodup.sublist ((sublist_cons_self _ _).filterMap _)

/-- The rest of a batch, after one of its writes has been answered. -/
theorem Proposes.tail_answered {entry : Entry M} {i : ι} {entries : List (Entry M × Option ι)}
    (h : leader.Proposes ((entry, some i) :: entries)) (c : KvCall) (db : Db M) :
    ({ leader.setCall i c with db := db } : KvLeader M ι).Proposes entries := by
  refine ⟨fun e he j hj => ?_, (h.tail db).other, (h.tail db).nodup⟩
  obtain ⟨request, req, reply, hcall, hpayload⟩ := (h.tail db).write e he j hj
  have hji : j ≠ i := by
    rintro rfl
    have hnodup : (j :: entries.filterMap Prod.snd).Nodup := h.nodup
    exact (List.nodup_cons.mp hnodup).1 (List.mem_filterMap.mpr ⟨e, he, hj⟩)
  exact ⟨request, req, reply, (update_of_ne hji _ _).trans hcall, hpayload⟩

/-- Entries that can be applied one after the other are steps of the leader. -/
theorem Proposes.exists_run {entries : List (Entry M × Option ι)} (h : leader.Proposes entries)
    {db : Db M} {responses : List (ι × Response)}
    (hcommit : leader.db.commitAll texts entries = .ok (db, responses)) :
    ∃ es leader', Run (Step texts) leader es leader' ∧ leader'.db = db ∧
      es.filterMap KvEvent.shown = [] := by
  induction entries generalizing leader responses with
  | nil =>
    obtain ⟨rfl, -⟩ := Prod.mk.inj (Except.ok.inj hcommit)
    exact ⟨[], leader, .nil, rfl, rfl⟩
  | cons e entries ih =>
    cases he : leader.db.commit texts e with
    | error err => simp [Db.commitAll, he, Bind.bind, Except.bind] at hcommit
    | ok p =>
      obtain ⟨db₁, responses₁⟩ := p
      rw [Db.commitAll_cons he] at hcommit
      obtain ⟨⟨db₂, responses₂⟩, hrest, hpair⟩ := map_eq_ok.mp hcommit
      obtain ⟨rfl, -⟩ := Prod.mk.inj hpair
      obtain ⟨⟨logId, payload⟩, responder⟩ := e
      cases responder with
      | none =>
        have hother := h.other _ mem_cons_self rfl
        have hstep : leader.db.step texts ⟨logId, payload⟩ = .ok db₁ := by
          rw [← Db.commit_map_fst texts (⟨logId, payload⟩, (none : Option ι)), he]
          rfl
        obtain ⟨es, leader', hrun, hdb, hes⟩ := ih (h.tail db₁) hrest
        exact ⟨_, leader', .cons (.applyOther _ db₁ hother hstep) hrun, hdb, hes⟩
      | some i =>
        obtain ⟨request, req, reply, hi, hpayload⟩ := h.write _ mem_cons_self i rfl
        obtain rfl : payload = .normal req := hpayload
        obtain ⟨response, rfl⟩ := Db.exists_response he
        obtain ⟨es, leader', hrun, hdb, hes⟩ :=
          ih (h.tail_answered (.answered (reply response)) db₁) hrest
        exact ⟨_, leader', .cons (.apply i logId request req reply db₁ response hi he) hrun, hdb,
          hes⟩

/-- **A batch of the state machine** is a sequence of steps of the leader that no client sees. -/
theorem Proposes.exists_run_of_apply {sm : RocksStateMachine M} (hmem : sm.data = sm.db.smData)
    {entries : List (Entry M × Option ι)} (h : leader.Proposes entries) (hdb : leader.db = sm.db)
    {applied : Applied M ι} (happly : sm.apply texts entries = .ok applied) :
    ∃ es leader', Run (Step texts) leader es leader' ∧ leader'.db = applied.sm.db ∧
      es.filterMap KvEvent.shown = [] := by
  have heq := RocksStateMachine.apply_eq texts hmem entries
  rw [happly] at heq
  obtain ⟨p, hp, hpair⟩ := map_eq_ok.mp heq.symm
  rw [← hdb] at hp
  obtain ⟨hsm, -⟩ := Prod.mk.inj hpair
  rw [← hsm]
  exact h.exists_run hp

/-- A write and an entry without data in one batch. -/
theorem exists_run_of_apply_set : ∃ (leader : KvLeader Unit ℕ) (applied : Applied Unit ℕ),
    (RocksStateMachine.initial).apply jsonForms [(⟨⟨1, "n1", 1⟩, .blank⟩, none),
      (⟨⟨1, "n1", 2⟩, .normal (.set "a" "1")⟩, some 7)] = .ok applied ∧
    ∃ es leader', Run (Step jsonForms) leader es leader' ∧ leader'.db = applied.sm.db ∧
      es.filterMap KvEvent.shown = [] := by
  let request : RaftKvRequest := ⟨"group", some (.set "a" "1")⟩
  let leader : KvLeader Unit ℕ := ⟨.initial, update (fun _ => none) 7 <|
    some (.afterRead request (processKvRequest .leader ∅ request))⟩
  have hproposes : leader.Proposes [(⟨⟨1, "n1", 1⟩, .blank⟩, none),
      (⟨⟨1, "n1", 2⟩, .normal (.set "a" "1")⟩, some 7)] := by
    refine ⟨List.forall_mem_cons.mpr ⟨nofun, List.forall_mem_singleton.mpr ?_⟩, by simp, by simp⟩
    rintro i ⟨⟩
    exact ⟨request, _, _, rfl, rfl⟩
  exact ⟨leader, _, rfl, hproposes.exists_run_of_apply rfl rfl rfl⟩

end KvLeader

/-! ### Requests handled alone -/

/-- A request with an operation. -/
def kvRequest (op : KvRequestOp) : RaftKvRequest := ⟨"group", some op⟩

namespace KvLeader

variable {M ι : Type} [DecidableEq ι] {texts : TextForms} {leader : KvLeader M ι} {i : ι}
  {op : KvRequestOp}

theorem setCall_setCall (leader : KvLeader M ι) (i : ι) (c c' : KvCall) :
    (leader.setCall i c).setCall i c' = leader.setCall i c' := by
  rw [setCall, setCall, setCall, update_idem]

@[simp] theorem calls_setCall_self (leader : KvLeader M ι) (i : ι) (c : KvCall) :
    (leader.setCall i c).calls i = some c :=
  update_self _ _ _

@[simp] theorem calls_setCall_of_ne (leader : KvLeader M ι) {i j : ι} (h : j ≠ i) (c : KvCall) :
    (leader.setCall i c).calls j = leader.calls j :=
  update_of_ne h _ _

theorem run_handled {progress : KvProgress} (hi : leader.calls i = none)
    (hread : op.handle leader.db.smData = progress) :
    Run (CheckedStep texts) leader [.receive i (kvRequest op), .read i]
      (leader.setCall i (.afterRead (kvRequest op) progress)) := by
  have hstarted := calls_setCall_self leader i (.started (kvRequest op))
  have hrun : Run (CheckedStep texts) leader [.receive i (kvRequest op), .read i] _ :=
    .cons ⟨.receive i _ hi, trivial⟩ <| .cons ⟨.read i _ progress hstarted hread, trivial⟩ .nil
  rwa [setCall_setCall] at hrun

theorem run_answered {response : KvResponseOp} (hi : leader.calls i = none)
    (hread : op.handle leader.db.smData = .answered response) :
    Run (CheckedStep texts) leader [.receive i (kvRequest op), .read i, .answer i response]
      (leader.setCall i .returned) := by
  have hrun : Run (CheckedStep texts) leader [.receive i (kvRequest op), .read i,
      .answer i response] _ :=
    (run_handled hi hread).snoc ⟨.answer i response (calls_setCall_self leader i _), trivial⟩
  rwa [setCall_setCall] at hrun

omit [DecidableEq ι] in
theorem keepsChecked_apply {request : RaftKvRequest} {req : Request}
    {reply : Response → KvResponseOp} {logId : LogId}
    (hi : leader.calls i = some (.writing request req reply)) (hop : request.op = some op)
    (hkey : ∀ key ∈ op.checkedKey, leader.db.smData[key]?.isSome) :
    leader.KeepsChecked (.apply i logId) := by
  intro request' req' reply' op' key hi' hop' hkey'
  obtain ⟨rfl, -⟩ := KvCall.writing.inj (Option.some.inj (hi.symm.trans hi'))
  obtain ⟨⟩ := hop.symm.trans hop'
  exact hkey key hkey'

theorem run_written {P : KvLeader M ι → KvEvent M ι → Prop} {request : RaftKvRequest}
    {req : Request} {reply : Response → KvResponseOp} {db : Db M} {logId : LogId}
    {response : Response} (hi : leader.calls i = some (.writing request req reply))
    (hcommit : leader.db.commit texts (⟨logId, .normal req⟩, some i) = .ok (db, [(i, response)]))
    (happly : P leader (.apply i logId)) (hanswer : ∀ l r, P l (.answer i r)) :
    Run (fun l e l' => Step texts l e l' ∧ P l e) leader
      [.apply i logId, .answer i (reply response)]
      ({ leader with db := db }.setCall i .returned) := by
  have hanswered := calls_setCall_self { leader with db := db } i (.answered (reply response))
  have hidem := setCall_setCall { leader with db := db } i (.answered (reply response)) .returned
  rw [← hidem]
  exact .cons ⟨.apply i logId request req reply db response hi hcommit, happly⟩ <|
    .cons ⟨.answer i (reply response) hanswered, hanswer _ _⟩ .nil

/-- A request that writes is handled without another in between. -/
theorem run_writing {req : Request} {reply : Response → KvResponseOp} {db : Db M} {logId : LogId}
    {response : Response} (hi : leader.calls i = none)
    (hread : op.handle leader.db.smData = .writing req reply)
    (hcommit : leader.db.commit texts (⟨logId, .normal req⟩, some i) = .ok (db, [(i, response)]))
    (hkey : ∀ key ∈ op.checkedKey, leader.db.smData[key]?.isSome) :
    Run (CheckedStep texts) leader [.receive i (kvRequest op), .read i, .apply i logId,
      .answer i (reply response)] ({ leader with db := db }.setCall i .returned) := by
  have hwriting := calls_setCall_self leader i (.writing (kvRequest op) req reply)
  have hrun := (run_handled hi hread).append
    (run_written hwriting hcommit (keepsChecked_apply hwriting rfl hkey) fun _ _ => trivial)
  have hidem := setCall_setCall { leader with db := db } i (.writing (kvRequest op) req reply)
    .returned
  rwa [← hidem]

end KvLeader

/-! ### An Update of a stored key -/

/-- The place of an entry in the log. -/
def kvLogId (index : UInt64) : LogId := ⟨1, "node1", index⟩

/-- A key is set, and an Update of it has read the data. -/
def checkedUpdate : List (KvEvent Unit ℕ) :=
  [.receive 0 (kvRequest (.set "k" "v1")), .read 0, .apply 0 (kvLogId 1),
    .answer 0 (.set true "v1"), .receive 1 (kvRequest (.update "k" "v2")), .read 1]

/-- The Update writes and is answered. -/
def updateWrites : List (KvEvent Unit ℕ) := [.apply 1 (kvLogId 3), .answer 1 (.update true "v2")]

def deleteCompletes : List (KvEvent Unit ℕ) :=
  [.receive 2 (kvRequest (.delete "k")), .read 2, .apply 2 (kvLogId 2), .answer 2 (.delete true)]

def getCompletes : List (KvEvent Unit ℕ) :=
  [.receive 3 (kvRequest (.get "k")), .read 3, .answer 3 (.get true "v2")]

/-- The leader at which an Update of the stored key `"k"` has read the data. -/
structure ChecksUpdate (leader : KvLeader Unit ℕ) : Prop where
  data : leader.db.smData = (∅ : KeySpace).insert "k" "v1"
  call : leader.calls 1 = some (.writing (kvRequest (.update "k" "v2")) (.set "k" "v2")
    fun response => .update true (response.value.getD "v2"))
  free : ∀ i, 1 < i → leader.calls i = none

theorem exists_checkedUpdate (texts : TextForms) : ∃ leader,
    Run (KvLeader.CheckedStep texts) (.initial Db.initial) checkedUpdate leader ∧
      ChecksUpdate leader := by
  let stored : KvLeader Unit ℕ := KvLeader.setCall
    ⟨⟨(∅ : KeySpace).insert "k" "v1", some (kvLogId 1), none⟩, fun _ => none⟩ 0 .returned
  have hhandle : KvRequestOp.handle ∅ (.set "k" "v1") =
      .writing (.set "k" "v1") fun response => .set true (response.value.getD "v1") := rfl
  have hkey : ∀ key ∈ (KvRequestOp.set "k" "v1").checkedKey, (∅ : KeySpace)[key]?.isSome := nofun
  have hset : Run (KvLeader.CheckedStep texts) (.initial Db.initial) _ stored :=
    KvLeader.run_writing rfl hhandle (Db.commit_set Db.initial (kvLogId 1) "k" "v1" 0) hkey
  have hread : KvRequestOp.handle stored.db.smData (.update "k" "v2") =
      .writing (.set "k" "v2") fun response => .update true (response.value.getD "v2") := by
    simp [KvRequestOp.handle, stored, KvLeader.setCall]
  refine ⟨_, hset.append (KvLeader.run_handled rfl hread), rfl, rfl, fun i hi => ?_⟩
  simp [stored, Nat.ne_of_gt hi, Nat.ne_of_gt (Nat.lt_trans Nat.zero_lt_one hi)]

variable {texts : TextForms} {leader : KvLeader Unit ℕ}

theorem ChecksUpdate.run_updateWrites (h : ChecksUpdate leader) :
    ∃ leader', Run (KvLeader.CheckedStep texts) leader updateWrites leader' := by
  refine ⟨_, KvLeader.run_written h.call rfl (KvLeader.keepsChecked_apply h.call rfl ?_)
    fun _ _ => trivial⟩
  simp [KvRequestOp.checkedKey, h.data]

/-- A Delete of the key is handled before the Update writes, and a Get after it. -/
theorem ChecksUpdate.run_deleteCompletes (h : ChecksUpdate leader) :
    ∃ leader', Run (KvLeader.Step texts) leader
      (deleteCompletes ++ (updateWrites ++ getCompletes)) leader' := by
  have hhandle : KvRequestOp.handle leader.db.smData (.delete "k") =
      .writing (.delete "k") fun _ => .delete true := by simp [KvRequestOp.handle, h.data]
  have hdelete : Run (KvLeader.CheckedStep texts) leader deleteCompletes _ :=
    KvLeader.run_writing (h.free 2 (by decide)) hhandle
      (Db.commit_delete leader.db (kvLogId 2) "k" 2) (by simp [KvRequestOp.checkedKey, h.data])
  let deleted : KvLeader Unit ℕ := KvLeader.setCall
    ⟨⟨leader.db.smData.erase "k", some (kvLogId 2), leader.db.lastMembership⟩, leader.calls⟩ 2
    .returned
  have hcall : deleted.calls 1 = _ :=
    (KvLeader.calls_setCall_of_ne _ (by decide) _).trans h.call
  let updated : KvLeader Unit ℕ := KvLeader.setCall
    ⟨⟨deleted.db.smData.insert "k" "v2", some (kvLogId 3), leader.db.lastMembership⟩,
      deleted.calls⟩ 1 .returned
  have hupdate := KvLeader.run_written (P := fun _ _ => True) hcall
    (@Db.commit_set texts _ _ deleted.db (kvLogId 3) "k" "v2" 1) trivial fun _ _ => trivial
  have hfree : updated.calls 3 = none := by
    simp [updated, deleted, h.free 3 (by decide)]
  have hget : KvRequestOp.handle updated.db.smData (.get "k") = .answered (.get true "v2") := by
    simp [KvRequestOp.handle, updated, KvLeader.setCall]
  exact ⟨_, (hdelete.imp fun _ _ _ h => h.1).append <| (hupdate.imp fun _ _ _ h => h.1).append <|
    (KvLeader.run_answered hfree hget).imp fun _ _ _ h => h.1⟩

/-! ### Linearizability -/

/-- **The key-value service is linearizable as long as no checked key disappears**: every write of
an Update or a Delete finds its key when raft applies it. Requests and answers are then those of the
sequential map. -/
theorem linearizable_of_keepsChecked {M ι : Type} [DecidableEq ι] {texts : TextForms} {db : Db M}
    {es : List (KvEvent M ι)} {leader : KvLeader M ι}
    (run : Run (KvLeader.CheckedStep texts) (.initial db) es leader) :
    Linearizable kvSpec db.smData (es.filterMap KvEvent.shown) := by
  refine linearizable_of_simulation (R := fun l o => l.atomic = o ∧ l.WritesRead) KvEvent.shown
    ⟨rfl, KvLeader.writesRead_initial db⟩ (fun l o e l' hR hstep => ?_) run
  obtain ⟨rfl, hwrites⟩ := hR
  obtain ⟨es, hrun, hes⟩ := hstep.1.atomic hstep.2 hwrites
  exact ⟨es, _, hrun, hes, rfl, hstep.1.writesRead hwrites⟩

/-- An Update whose key stays. -/
theorem linearizable_of_keepsChecked_update :
    Linearizable kvSpec ∅ ((checkedUpdate ++ updateWrites).filterMap KvEvent.shown) := by
  obtain ⟨leader, hrun, hchecks⟩ := exists_checkedUpdate jsonForms
  obtain ⟨leader', hrun'⟩ := @ChecksUpdate.run_updateWrites jsonForms leader hchecks
  exact linearizable_of_keepsChecked (hrun.append hrun')

/-! ### An Update of a key that is deleted meanwhile -/

/-- The Update writes after the Delete. -/
def recreatingUpdate : List (KvEvent Unit ℕ) :=
  checkedUpdate ++ (deleteCompletes ++ (updateWrites ++ getCompletes))

/-- The calls of the history, each with the answer it got. -/
def recreatingEffect : ℕ → Effect ℕ RaftKvRequest KvResponseOp
  | 0 => ⟨0, kvRequest (.set "k" "v1"), .set true "v1"⟩
  | 1 => ⟨1, kvRequest (.update "k" "v2"), .update true "v2"⟩
  | 2 => ⟨2, kvRequest (.delete "k"), .delete true⟩
  | i => ⟨i, kvRequest (.get "k"), .get true "v2"⟩

theorem call_mem_recreatingUpdate {i : ℕ} {op : RaftKvRequest} :
    .call i op ∈ recreatingUpdate.filterMap KvEvent.shown ↔
      i ∈ [0, 1, 2, 3] ∧ op = (recreatingEffect i).op := by
  rcases i with _ | _ | _ | _ | i <;> simp [recreatingUpdate, checkedUpdate, deleteCompletes,
    updateWrites, getCompletes, KvEvent.shown, recreatingEffect, @eq_comm _ op]

theorem ret_mem_recreatingUpdate : ∀ i ∈ [0, 1, 2, 3],
    .ret i (recreatingEffect i).res ∈ recreatingUpdate.filterMap KvEvent.shown := by
  simp [recreatingUpdate, checkedUpdate, deleteCompletes, updateWrites, getCompletes,
    KvEvent.shown, recreatingEffect]

theorem precedes_recreatingUpdate : ∀ p ∈ [(0, 1), (0, 2), (0, 3), (1, 3), (2, 3)],
    Precedes (recreatingUpdate.filterMap KvEvent.shown) p.1 p.2 := by
  have h₀ (n : ℕ) (hn : 1 < n) (j : ℕ) (op : RaftKvRequest)
      (h : (recreatingUpdate.filterMap KvEvent.shown)[n]? = some (.call j op)) :
      Precedes (recreatingUpdate.filterMap KvEvent.shown) 0 j := ⟨1, n, hn, ⟨_, rfl⟩, op, h⟩
  simp only [forall_mem_cons, not_mem_nil]
  exact ⟨h₀ 2 (by decide) 1 _ rfl, h₀ 3 (by decide) 2 _ rfl, h₀ 6 (by decide) 3 _ rfl,
    ⟨5, 6, by decide, ⟨_, rfl⟩, _, rfl⟩, ⟨4, 6, by decide, ⟨_, rfl⟩, _, rfl⟩, nofun⟩

/-- The first call comes first and the last one last in every linearization. -/
theorem eq_of_linearization {l : List (Effect ℕ RaftKvRequest KvResponseOp)}
    (h : Linearization kvSpec ∅ (recreatingUpdate.filterMap KvEvent.shown) l) :
    l = [0, 1, 2, 3].map recreatingEffect ∨ l = [0, 2, 1, 3].map recreatingEffect := by
  have hid (i : ℕ) : (recreatingEffect i).id = i := by rcases i with _ | _ | _ | i <;> rfl
  have hl : l = (l.map Effect.id).map recreatingEffect := by
    refine h.eq_map hid fun i op hi => ?_
    obtain ⟨hmem, rfl⟩ := call_mem_recreatingUpdate.mp hi
    exact ⟨rfl, ret_mem_recreatingUpdate i hmem⟩
  have hperm : (l.map Effect.id).Perm [0, 1, 2, 3] := by
    refine (perm_ext_iff_of_nodup h.nodup (by decide)).mpr fun i =>
      ⟨fun hi => ?_, fun hi => ?_⟩
    · obtain ⟨c, hc, rfl⟩ := List.mem_map.mp hi
      exact (call_mem_recreatingUpdate.mp (h.called c hc)).1
    · obtain ⟨c, hc, rfl, -⟩ := h.returned i _ (ret_mem_recreatingUpdate i hi)
      exact mem_map_of_mem hc
  have horder : (l.map Effect.id).Pairwise fun i j =>
      (j, i) ∉ [(0, 1), (0, 2), (0, 3), (1, 3), (2, 3)] :=
    List.pairwise_map.mpr <| h.order.imp fun hcd hmem => hcd (precedes_recreatingUpdate _ hmem)
  have hids : ∀ p ∈ [0, 1, 2, 3].permutations', (p.Pairwise fun i j =>
      (j, i) ∉ [(0, 1), (0, 2), (0, 3), (1, 3), (2, 3)]) → p = [0, 1, 2, 3] ∨ p = [0, 2, 1, 3] := by
    decide
  rw [hl]
  exact (hids _ (List.mem_permutations'.mpr hperm) horder).imp (congrArg _) (congrArg _)

/-- **An Update creates a deleted key again**, after the answer of the Delete, and a Get finds it:
no order of the four calls explains the answers. -/
theorem update_recreates_deleted_key : ∃ leader,
    Run (KvLeader.Step jsonForms) (.initial Db.initial) recreatingUpdate leader ∧
      ¬Linearizable kvSpec ∅ (recreatingUpdate.filterMap KvEvent.shown) := by
  obtain ⟨leader, hrun, hchecks⟩ := exists_checkedUpdate jsonForms
  obtain ⟨leader', hrun'⟩ := hchecks.run_deleteCompletes
  refine ⟨leader', (hrun.imp fun _ _ _ h => h.1).append hrun', fun ⟨l, hl⟩ => ?_⟩
  have hlegal := hl.legal
  rcases eq_of_linearization hl with rfl | rfl <;>
    simp [Legal, recreatingEffect, kvSpec, kvRequest, KvRequestOp.spec] at hlegal

end RustExample.OpenraftCluster
