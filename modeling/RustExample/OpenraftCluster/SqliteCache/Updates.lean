import RustExample.Foundation.KeyStore
import RustExample.Foundation.Run
import RustExample.Foundation.WriteBehind

/-!
# Updates of the write-behind cache

A write of the cache leaves the data in redis and a pending key in the replicated key space. The
leader lists the pending keys and spreads them over the followers, by a hash of the data key; the
follower of a key copies its data from redis to the row in its SQLite database.

Writes of the cache and rounds of flushes interleave. The pending key is the same for all writes of
a data key: one that completes between the read of the executor and the deletion by the leader loses
it, and its value never reaches the row.

Source: `src/sqlite_cache.rs`, `src/sqlite_sync_rpc.rs`, `src/http/kv.rs`.

* The hash of a key is a parameter.
* The leader and its followers stay the same, so that a key has one executor.
* A round ends early for a key that it cannot flush: redis has no value, a call fails, or the
  report is lost.
* A write that fails may have set redis, and its pending key may reach the log after all.
-/

namespace RustExample.OpenraftCluster

open Function List

section Executors

/-! ### Pending keys -/

/-- The prefix of pending keys. -/
def pendingKeyPrefix : String := "__sqlite_pending__:"

/-- The pending key of a data key. -/
def pendingKey (key : String) : String := pendingKeyPrefix ++ key

/-- The data key that a key of the key space is the pending key of. -/
def pendingDataKey (openraftKey : String) : Option String :=
  (openraftKey.toList.dropPrefix? pendingKeyPrefix.toList).map String.ofList

theorem pendingDataKey_eq_some {openraftKey key : String} :
    pendingDataKey openraftKey = some key ↔ openraftKey = pendingKey key := by
  rw [pendingDataKey, pendingKey, Option.map_eq_some_iff]
  constructor
  · rintro ⟨rest, hrest, rfl⟩
    obtain ⟨p, hp, hpre⟩ := List.dropPrefix?_eq_some_iff.mp hrest
    obtain rfl : p = pendingKeyPrefix.toList := eq_of_beq hpre
    rw [← String.toList_inj, hp, String.toList_append, String.toList_ofList]
  · rintro rfl
    refine ⟨key.toList, List.dropPrefix?_eq_some_iff.mpr ⟨pendingKeyPrefix.toList, ?_, ?_⟩, ?_⟩
    · rw [String.toList_append]
    · exact beq_self_eq_true _
    · exact String.ofList_toList

theorem pendingKey_injective : Function.Injective pendingKey := by
  intro key key' h
  have hkey := pendingDataKey_eq_some.mpr (rfl : pendingKey key = pendingKey key)
  rw [h, pendingDataKey_eq_some.mpr (rfl : pendingKey key' = pendingKey key')] at hkey
  exact (Option.some.inj hkey).symm

/-- A write to be flushed. -/
structure SqliteFlushTask where
  openraftKey : String
  dataKey : String
  deriving DecidableEq

/-- The tasks for the entries of the key space. -/
def pendingFlushTasks (entries : List (String × String)) : List SqliteFlushTask :=
  entries.filterMap fun p => (pendingDataKey p.1).map fun key => ⟨p.1, key⟩

/-- The tasks are the pending keys, with their data keys. -/
theorem mem_pendingFlushTasks {kv : KeyStore String String} {task : SqliteFlushTask} :
    task ∈ pendingFlushTasks kv.toList ↔
      task.openraftKey = pendingKey task.dataKey ∧ kv[pendingKey task.dataKey]?.isSome := by
  obtain ⟨openraftKey, key⟩ := task
  simp only [pendingFlushTasks, mem_filterMap, Option.map_eq_some_iff,
    pendingDataKey_eq_some, SqliteFlushTask.mk.injEq, Prod.exists,
    Std.ExtTreeMap.mem_toList_iff_getElem?_eq_some, Option.isSome_iff_exists]
  constructor
  · rintro ⟨_, value, hvalue, _, rfl, rfl, rfl⟩
    exact ⟨rfl, value, hvalue⟩
  · rintro ⟨rfl, value, hvalue⟩
    exact ⟨_, value, hvalue, key, rfl, rfl, rfl⟩

/-! ### Executors -/

variable (hash : String → UInt64)

/-- The follower that a key is hashed to; there is none without followers. -/
def executorOf (followers : List String) (key : String) : Option String :=
  followers[(hash key).toNat % followers.length]?

/-- The tasks by follower. -/
def assignTasksToFollowers (tasks : List SqliteFlushTask) (followers : List String) :
    KeyStore String (List SqliteFlushTask) :=
  tasks.foldl (fun assignments task =>
    match executorOf hash followers task.dataKey with
    | some node => assignments.insert node (assignments[node]?.getD [] ++ [task])
    | none => assignments) ∅

variable {hash}

/-- **One executor for every key**: the follower that the key is hashed to. -/
theorem assignTasksToFollowers_executor {tasks : List SqliteFlushTask} {followers : List String}
    {node : String} {task : SqliteFlushTask} :
    task ∈ (assignTasksToFollowers hash tasks followers)[node]?.getD [] ↔
      task ∈ tasks ∧ executorOf hash followers task.dataKey = some node := by
  rw [assignTasksToFollowers]
  induction tasks using List.reverseRecOn with
  | nil => simp
  | append_singleton tasks task' ih =>
    rw [foldl_append, foldl_cons, foldl_nil, mem_append, mem_singleton,
      or_and_right, ← ih]
    cases hexec : executorOf hash followers task'.dataKey with
    | none =>
      have hne : ¬(task = task' ∧ executorOf hash followers task.dataKey = some node) := by
        rintro ⟨rfl, hnode⟩
        rw [hexec] at hnode
        cases hnode
      simp [hne]
    | some node' =>
      dsimp only
      rw [KeyStore.getElem?_put]
      split_ifs with hnode
      · subst hnode
        rw [Option.getD_some, mem_append, mem_singleton]
        exact or_congr_right ⟨fun h => ⟨h, h ▸ hexec⟩, fun h => h.1⟩
      · refine ⟨.inl, fun h => h.resolve_right ?_⟩
        rintro ⟨rfl, hnode'⟩
        exact hnode (Option.some.inj (hexec.symm.trans hnode'))

end Executors

/-! ### Writes and flushes -/

/-- A write of the cache in flight. -/
structure CacheWrite where
  key : String
  value : String
  recorded : Bool
  deriving DecidableEq

/-- How far a round is with a key. -/
inductive FlushPhase where
  | listed
  | read (value : String)
  | upserted
  deriving DecidableEq

/-- A key in a round, with the node that flushes it. -/
structure Flush where
  node : String
  phase : FlushPhase
  deriving DecidableEq

/-- Redis with the writes that set it, the replicated key space, the rows of the nodes, the writes
and flushes in flight, and the last completed value of each key. -/
structure CacheState where
  redis : String → Option (ℕ × String)
  kv : KeyStore String String
  rows : String → String → Option String
  writes : ℕ → Option CacheWrite
  flushes : ℕ → String → Option Flush
  completed : String → Option String

def CacheState.initial : CacheState :=
  ⟨fun _ => none, ∅, fun _ _ => none, fun _ => none, fun _ _ => none, fun _ => none⟩

/-- What may happen. -/
inductive CacheEvent where
  | writeRedis (w : ℕ) (key value : String)
  | recordPendingKey (w : ℕ)
  | succeed (w : ℕ)
  | fail (w : ℕ)
  | recordLate (key : String)
  | list (r : ℕ)
  | readRedis (r : ℕ) (key : String)
  | upsertSqlite (r : ℕ) (key : String)
  | deletePendingKey (r : ℕ) (key : String)
  | abandon (r : ℕ) (key : String)
  | writeKv (w : KeyStore.Write String String)

/-- The flush of a key by the node that its task was assigned to. -/
def startFlush (assignments : KeyStore String (List SqliteFlushTask)) (key : String) :
    Option Flush :=
  (assignments.toList.find? fun p => ⟨pendingKey key, key⟩ ∈ p.2).map fun p => ⟨p.1, .listed⟩

/-- The round `r` is at `flush` with a key. -/
def CacheState.setFlush (s : CacheState) (r : ℕ) (key : String) (flush : Option Flush) :
    CacheState :=
  { s with flushes := update s.flushes r (update (s.flushes r) key flush) }

variable (hash : String → UInt64) (followers : List String)

/-- One step of a write, of a round, or of another user of the key space. -/
def CacheStep (s : CacheState) (e : CacheEvent) (s' : CacheState) : Prop :=
  match e with
  | .writeRedis w key value => s.writes w = none ∧
      s' = { s with
        redis := update s.redis key (some (w, value))
        writes := update s.writes w (some ⟨key, value, false⟩) }
  | .recordPendingKey w => ∃ key value, s.writes w = some ⟨key, value, false⟩ ∧
      s' = { s with
        kv := s.kv.insert (pendingKey key) "1"
        writes := update s.writes w (some ⟨key, value, true⟩) }
  | .succeed w => ∃ key value, s.writes w = some ⟨key, value, true⟩ ∧
      s' = { s with
        writes := update s.writes w none
        completed := update s.completed key (some value) }
  | .fail w => (s.writes w).isSome ∧ s' = { s with writes := update s.writes w none }
  | .recordLate key => s' = { s with kv := s.kv.insert (pendingKey key) "1" }
  | .list r => (∀ key, s.flushes r key = none) ∧
      s' = { s with flushes := update s.flushes r (startFlush
        (assignTasksToFollowers hash (pendingFlushTasks s.kv.toList) followers)) }
  | .readRedis r key => ∃ node w value, s.flushes r key = some ⟨node, .listed⟩ ∧
      s.redis key = some (w, value) ∧ s' = s.setFlush r key (some ⟨node, .read value⟩)
  | .upsertSqlite r key => ∃ node value, s.flushes r key = some ⟨node, .read value⟩ ∧
      s' = { s.setFlush r key (some ⟨node, .upserted⟩) with
        rows := update s.rows node (update (s.rows node) key (some value)) }
  | .deletePendingKey r key => ∃ node, s.flushes r key = some ⟨node, .upserted⟩ ∧
      s' = { s.setFlush r key none with kv := s.kv.erase (pendingKey key) }
  | .abandon r key => (s.flushes r key).isSome ∧ s' = s.setFlush r key none
  | .writeKv w => pendingDataKey w.key = none ∧ s' = { s with kv := s.kv.write w }

/-! ### What the rows hold -/

namespace CacheState

/-- There is a pending key for a data key. -/
def Pending (s : CacheState) (key : String) : Prop := s.kv[pendingKey key]?.isSome = true

/-- The row of a key at its executor. -/
def row (s : CacheState) (key : String) : Option String :=
  (executorOf hash followers key).bind fun node => s.rows node key

/-- A key without a pending key, and without a write or a flush in flight. -/
structure Quiet (s : CacheState) (key : String) : Prop where
  pending : ¬s.Pending key
  writes : ∀ w write, s.writes w = some write → write.key ≠ key
  flushes : ∀ r, s.flushes r key = none

/-- The writes of a key: their values, and whether their pending keys are recorded. -/
def writesOf (writes : ℕ → Option CacheWrite) (key : String) (w : ℕ) : Option (String × Bool) :=
  (writes w).bind fun write =>
    if write.key = key then some (write.value, write.recorded) else none

/-- A key as a write-behind cell. -/
def cell (s : CacheState) (key : String) : WriteBehindCell ℕ String where
  cache := s.redis key
  dirty := s.kv[pendingKey key]?.isSome
  row := s.row hash followers key
  writes := writesOf s.writes key
  completed := s.completed key

end CacheState

/-- Flushes are at the executors of their keys. -/
def Assigned (flushes : ℕ → String → Option Flush) : Prop :=
  ∀ r key flush, flushes r key = some flush → executorOf hash followers key = some flush.node

/-- The row of a quiet key holds the value of the last completed write of the key. -/
def KeepsUpdates (s : CacheState) : Prop :=
  ∀ key value, s.Quiet key → s.completed key = some value → s.row hash followers key = some value

/-- The step handles a current value. A write completes while its value, or a write in flight, is
in redis, and fails only after another one. An executor writes what redis holds, and the leader
deletes a pending key whose row holds that; or the write that set redis has its pending key yet
to record. -/
def FlushesCurrent (s : CacheState) : CacheEvent → Prop
  | .succeed w => ∀ write, s.writes w = some write →
      (s.cell hash followers write.key).Unfinished ∨
        (s.redis write.key).map Prod.snd = some write.value
  | .fail w => ∀ write, s.writes w = some write → ∀ value, s.redis write.key ≠ some (w, value)
  | .upsertSqlite r key => ∀ node value, s.flushes r key = some ⟨node, .read value⟩ →
      s.Pending key ∨ (s.cell hash followers key).Unmarked ∨
        (s.redis key).map Prod.snd = some value
  | .deletePendingKey _ key => (s.cell hash followers key).Unmarked ∨
      s.row hash followers key = (s.redis key).map Prod.snd
  | .writeRedis .. | .recordPendingKey _ | .recordLate _ | .list _ | .readRedis ..
  | .abandon .. | .writeKv _ => True

/-! ### Steps and cells -/

variable {hash : String → UInt64} {followers : List String} {s s' : CacheState}

namespace CacheState

theorem writesOf_update (writes : ℕ → Option CacheWrite) (w : ℕ) (write : Option CacheWrite)
    (key : String) : writesOf (update writes w write) key =
      update (writesOf writes key) w (write.bind fun write =>
        if write.key = key then some (write.value, write.recorded) else none) := by
  funext w'
  by_cases hw : w' = w
  · subst hw
    rw [writesOf, update_self, update_self]
  · rw [writesOf, update_of_ne hw, update_of_ne hw, writesOf]

variable {writes : ℕ → Option CacheWrite}

theorem writesOf_update_of_ne {w : ℕ} {write : Option CacheWrite} {key : String}
    (hold : ∀ x, writes w = some x → x.key ≠ key) (hnew : ∀ x, write = some x → x.key ≠ key) :
    writesOf (update writes w write) key = writesOf writes key := by
  have hnone {x : Option CacheWrite} (hx : ∀ y, x = some y → y.key ≠ key) :
      (x.bind fun write => if write.key = key then some (write.value, write.recorded) else none) =
        none := by
    cases x with
    | none => rfl
    | some y => exact if_neg (hx y rfl)
  rw [writesOf_update, hnone hnew, Function.update_eq_self_iff, writesOf, hnone hold]

theorem writesOf_update_none (writes : ℕ → Option CacheWrite) (w : ℕ) (key : String) :
    writesOf (update writes w none) key =
      update (writesOf writes key) w none := by
  rw [writesOf_update, Option.bind_none]

theorem writesOf_update_self (writes : ℕ → Option CacheWrite) (w : ℕ) (key value : String)
    (recorded : Bool) : writesOf (update writes w (some ⟨key, value, recorded⟩)) key =
      update (writesOf writes key) w (some (value, recorded)) := by
  rw [writesOf_update, Option.bind_some, if_pos rfl]

theorem writesOf_eq {w : ℕ} {key value : String} {recorded : Bool}
    (hw : writes w = some ⟨key, value, recorded⟩) :
    writesOf writes key w = some (value, recorded) := by
  rw [writesOf, hw, Option.bind_some, if_pos rfl]

end CacheState

/-- A round starts flushes of pending keys, at their executors. -/
theorem startFlush_eq_some {kv : KeyStore String String} {key : String} {flush : Flush}
    (h : startFlush (assignTasksToFollowers hash (pendingFlushTasks kv.toList) followers) key =
      some flush) :
    executorOf hash followers key = some flush.node ∧ kv[pendingKey key]?.isSome := by
  obtain ⟨p, hp, rfl⟩ := Option.map_eq_some_iff.mp h
  have hmem := mem_of_find?_eq_some hp
  have htask : (⟨pendingKey key, key⟩ : SqliteFlushTask) ∈ p.2 := by
    simpa using find?_some hp
  rw [Std.ExtTreeMap.mem_toList_iff_getElem?_eq_some] at hmem
  obtain ⟨htasks, hexec⟩ := assignTasksToFollowers_executor.mp
    (show ⟨pendingKey key, key⟩ ∈ _ by rw [hmem, Option.getD_some]; exact htask)
  exact ⟨hexec, (mem_pendingFlushTasks.mp htasks).2⟩

/-! ### What a step does to a cell -/

section Cells

variable (key : String)

theorem cell_writeRedis {w : ℕ} {k value : String} (hw : s.writes w = none) :
    CacheState.cell hash followers { s with
      redis := update s.redis k (some (w, value))
      writes := update s.writes w (some ⟨k, value, false⟩) } key =
    if key = k then (s.cell hash followers key).write w value else s.cell hash followers key := by
  split_ifs with hkey
  · subst hkey
    ext1
    · exact update_self ..
    · rfl
    · rfl
    · exact CacheState.writesOf_update_self ..
    · rfl
  · ext1
    · exact update_of_ne hkey ..
    · rfl
    · rfl
    · exact CacheState.writesOf_update_of_ne (by simp [hw]) (by simp [Ne.symm hkey])
    · rfl

theorem pendingKey_insert (kv : KeyStore String String) (k : String) :
    (kv.insert (pendingKey k) "1")[pendingKey key]?.isSome =
      if key = k then true else kv[pendingKey key]?.isSome := by
  rw [KeyStore.getElem?_put]
  by_cases hkey : key = k
  · subst hkey
    rw [if_pos rfl, if_pos rfl]
    rfl
  · rw [if_neg fun h => hkey (pendingKey_injective h).symm, if_neg hkey]

theorem cell_recordPendingKey {w : ℕ} {k value : String}
    (hw : s.writes w = some ⟨k, value, false⟩) :
    CacheState.cell hash followers { s with
      kv := s.kv.insert (pendingKey k) "1"
      writes := update s.writes w (some ⟨k, value, true⟩) } key =
    if key = k then (s.cell hash followers key).mark w value else s.cell hash followers key := by
  have hkv := pendingKey_insert key s.kv k
  split_ifs at hkv ⊢ with hkey
  · subst hkey
    ext1
    · rfl
    · exact hkv
    · rfl
    · exact CacheState.writesOf_update_self ..
    · rfl
  · ext1
    · rfl
    · exact hkv
    · rfl
    · exact CacheState.writesOf_update_of_ne (by simp [hw, Ne.symm hkey]) (by simp [Ne.symm hkey])
    · rfl

theorem cell_recordLate (k : String) :
    CacheState.cell hash followers { s with kv := s.kv.insert (pendingKey k) "1" } key =
    if key = k then (s.cell hash followers key).touch else s.cell hash followers key := by
  have hkv := pendingKey_insert key s.kv k
  split_ifs at hkv ⊢ with hkey
  · exact WriteBehindCell.ext rfl hkv rfl rfl rfl
  · exact WriteBehindCell.ext rfl hkv rfl rfl rfl

theorem cell_succeed {w : ℕ} {k value : String} (hw : s.writes w = some ⟨k, value, true⟩) :
    CacheState.cell hash followers { s with
      writes := update s.writes w none
      completed := update s.completed k (some value) } key =
    if key = k then (s.cell hash followers key).succeed w value
    else s.cell hash followers key := by
  split_ifs with hkey
  · subst hkey
    exact WriteBehindCell.ext rfl rfl rfl (CacheState.writesOf_update_none ..)
      (update_self ..)
  · exact WriteBehindCell.ext rfl rfl rfl
      (CacheState.writesOf_update_of_ne (by simp [hw, Ne.symm hkey]) (by simp))
      (update_of_ne hkey ..)

theorem cell_fail {w : ℕ} {write : CacheWrite} (hw : s.writes w = some write) :
    CacheState.cell hash followers { s with writes := update s.writes w none } key =
    if key = write.key then (s.cell hash followers key).fail w
    else s.cell hash followers key := by
  split_ifs with hkey
  · exact WriteBehindCell.ext rfl rfl rfl (CacheState.writesOf_update_none ..) rfl
  · exact WriteBehindCell.ext rfl rfl rfl
      (CacheState.writesOf_update_of_ne (by simp [hw, Ne.symm hkey]) (by simp)) rfl

theorem cell_upsertSqlite {r : ℕ} {k node value : String} {flush : Option Flush}
    (hnode : executorOf hash followers k = some node) :
    CacheState.cell hash followers { s.setFlush r k flush with
      rows := update s.rows node (update (s.rows node) k (some value)) } key =
    if key = k then (s.cell hash followers key).upsert value else s.cell hash followers key := by
  split_ifs with hkey
  · subst hkey
    refine WriteBehindCell.ext rfl rfl ?_ rfl rfl
    simp [CacheState.cell, CacheState.row, hnode, WriteBehindCell.upsert]
  · refine WriteBehindCell.ext rfl rfl ?_ rfl rfl
    simp only [CacheState.cell, CacheState.row]
    congr 1
    funext node'
    by_cases hnode' : node' = node
    · subst hnode'
      rw [update_self, update_of_ne hkey]
    · rw [update_of_ne hnode']

theorem cell_deletePendingKey (r : ℕ) (k : String) :
    CacheState.cell hash followers
      { s.setFlush r k none with kv := s.kv.erase (pendingKey k) } key =
    if key = k then (s.cell hash followers key).clear else s.cell hash followers key := by
  split_ifs with hkey
  · subst hkey
    refine WriteBehindCell.ext rfl ?_ rfl rfl rfl
    simp [CacheState.cell, WriteBehindCell.clear]
  · refine WriteBehindCell.ext rfl ?_ rfl rfl rfl
    have hne : pendingKey k ≠ pendingKey key := fun h => hkey (pendingKey_injective h).symm
    simp [CacheState.cell, KeyStore.getElem?_del, hne]

theorem cell_writeKv {w : KeyStore.Write String String} (hw : pendingDataKey w.key = none) :
    CacheState.cell hash followers { s with kv := s.kv.write w } key =
      s.cell hash followers key := by
  refine WriteBehindCell.ext rfl ?_ rfl rfl rfl
  have hne : w.key ≠ pendingKey key := by
    intro h
    rw [pendingDataKey_eq_some.mpr h] at hw
    cases hw
  simp [CacheState.cell, KeyStore.getElem?_write, hne]

end Cells

/-! ### Runs -/

/-- Every key is a sound cell, and its flushes are at its executor. -/
structure CacheInvariant (hash : String → UInt64) (followers : List String) (s : CacheState) :
    Prop where
  sound : ∀ key, (s.cell hash followers key).Sound
  assigned : Assigned hash followers s.flushes

theorem cacheInvariant_initial : CacheInvariant hash followers .initial := by
  refine ⟨fun key => ?_, nofun⟩
  have hrow : CacheState.initial.row hash followers key = none := by
    rw [CacheState.row, CacheState.initial]
    cases executorOf hash followers key <;> rfl
  have hcell : CacheState.initial.cell hash followers key =
      ⟨none, false, none, fun _ => none, none⟩ := WriteBehindCell.ext rfl rfl hrow rfl rfl
  rw [hcell]
  exact WriteBehindCell.sound_empty

/-- A round that goes on with a key stays at its executor. -/
theorem Assigned.update {flushes : ℕ → String → Option Flush} (h : Assigned hash followers flushes)
    {r : ℕ} {key : String} {flush : Option Flush}
    (hflush : ∀ f, flush = some f → executorOf hash followers key = some f.node) :
    Assigned hash followers
      (update flushes r (update (flushes r) key flush)) := by
  intro r' key' f hf
  by_cases hr : r' = r
  · subst hr
    rw [update_self] at hf
    by_cases hkey : key' = key
    · subst hkey
      rw [update_self] at hf
      exact hflush f hf
    · rw [update_of_ne hkey] at hf
      exact h r' key' f hf
  · rw [update_of_ne hr] at hf
    exact h r' key' f hf

/-- A cell that a step changes at most at one key. -/
theorem sound_ite {k key : String} {c c' : WriteBehindCell ℕ String} (hc' : key = k → c'.Sound)
    (hc : c.Sound) : (if key = k then c' else c).Sound := by
  split_ifs with hkey
  · exact hc' hkey
  · exact hc

/-- **One step.** A step that handles a current value keeps all cells sound. -/
theorem CacheInvariant.step (h : CacheInvariant hash followers s) {e : CacheEvent}
    (hstep : CacheStep hash followers s e s') (hcurrent : FlushesCurrent hash followers s e) :
    CacheInvariant hash followers s' := by
  cases e with
  | writeRedis w k value =>
    obtain ⟨hw, rfl⟩ := hstep
    refine ⟨fun key => ?_, h.assigned⟩
    rw [cell_writeRedis key hw]
    exact sound_ite (fun _ => .write _ w value) (h.sound key)
  | recordPendingKey w =>
    obtain ⟨k, value, hw, rfl⟩ := hstep
    refine ⟨fun key => ?_, h.assigned⟩
    rw [cell_recordPendingKey key hw]
    refine sound_ite ?_ (h.sound key)
    rintro rfl
    exact (h.sound key).mark (CacheState.writesOf_eq hw)
  | succeed w =>
    obtain ⟨k, value, hw, rfl⟩ := hstep
    refine ⟨fun key => ?_, h.assigned⟩
    rw [cell_succeed key hw]
    refine sound_ite ?_ (h.sound key)
    rintro rfl
    exact (h.sound key).succeed (CacheState.writesOf_eq hw) (hcurrent _ hw)
  | fail w =>
    obtain ⟨hw, rfl⟩ := hstep
    obtain ⟨write, hw⟩ := Option.isSome_iff_exists.mp hw
    refine ⟨fun key => ?_, h.assigned⟩
    rw [cell_fail key hw]
    refine sound_ite ?_ (h.sound key)
    rintro rfl
    exact (h.sound write.key).fail (hcurrent write hw)
  | recordLate k =>
    obtain rfl := hstep
    refine ⟨fun key => ?_, h.assigned⟩
    rw [cell_recordLate]
    exact sound_ite (fun _ => (h.sound key).touch) (h.sound key)
  | list r =>
    obtain ⟨-, rfl⟩ := hstep
    refine ⟨h.sound, fun r' key flush hflush => ?_⟩
    by_cases hr : r' = r
    · subst hr
      dsimp only at hflush
      rw [update_self] at hflush
      exact (startFlush_eq_some hflush).1
    · exact h.assigned r' key flush ((congrFun (update_of_ne hr ..) key).symm.trans hflush)
  | readRedis r k =>
    obtain ⟨node, w, value, hflush, -, rfl⟩ := hstep
    have hnode := h.assigned r k _ hflush
    refine ⟨h.sound, h.assigned.update ?_⟩
    rintro _ ⟨rfl⟩
    exact hnode
  | upsertSqlite r k =>
    obtain ⟨node, value, hflush, rfl⟩ := hstep
    have hnode := h.assigned r k _ hflush
    refine ⟨fun key => ?_, h.assigned.update ?_⟩
    · rw [cell_upsertSqlite key hnode]
      refine sound_ite ?_ (h.sound key)
      rintro rfl
      exact (h.sound key).upsert (hcurrent node value hflush)
    · rintro _ ⟨rfl⟩
      exact hnode
  | deletePendingKey r k =>
    obtain ⟨node, hflush, rfl⟩ := hstep
    refine ⟨fun key => ?_, h.assigned.update nofun⟩
    rw [cell_deletePendingKey]
    refine sound_ite ?_ (h.sound key)
    rintro rfl
    exact (h.sound key).clear hcurrent
  | abandon r k =>
    obtain ⟨-, rfl⟩ := hstep
    exact ⟨h.sound, h.assigned.update nofun⟩
  | writeKv w =>
    obtain ⟨hw, rfl⟩ := hstep
    refine ⟨fun key => ?_, h.assigned⟩
    rw [cell_writeKv key hw]
    exact h.sound key

theorem CacheInvariant.keepsUpdates (h : CacheInvariant hash followers s) :
    KeepsUpdates hash followers s := by
  intro key value hquiet hcompleted
  have hwrites (w : ℕ) : CacheState.writesOf s.writes key w = none := by
    rw [CacheState.writesOf]
    cases hw : s.writes w with
    | none => rfl
    | some write => exact if_neg (hquiet.writes w write hw)
  exact ((h.sound key).row_eq (Bool.eq_false_iff.mpr hquiet.pending) hwrites).trans hcompleted

/-- **No update is lost.** If all steps handle current values, the row of every quiet key holds the
value of its last completed write. -/
theorem keepsUpdates_of_flushesCurrent {es : List CacheEvent}
    (run : Run (fun s e s' => CacheStep hash followers s e s' ∧ FlushesCurrent hash followers s e)
      .initial es s) : KeepsUpdates hash followers s :=
  (run.invariant cacheInvariant_initial fun _ _ _ h hstep => h.step hstep.1 hstep.2).keepsUpdates

/-- A write and a round after it. -/
def plainHistory : List CacheEvent :=
  [.writeRedis 1 "k" "v1", .recordPendingKey 1, .succeed 1, .list 0, .readRedis 0 "k",
    .upsertSqlite 0 "k", .deletePendingKey 0 "k"]

/-- A write and a round after it lose nothing. -/
theorem keepsUpdates_of_flushesCurrent_plain : ∃ s, Run (fun s e s' =>
    CacheStep (fun _ => 0) ["b"] s e s' ∧ FlushesCurrent (fun _ => 0) ["b"] s e)
      .initial plainHistory s ∧ s.completed "k" = some "v1" ∧
      KeepsUpdates (fun _ => 0) ["b"] s := by
  have hrun : ∃ s, Run (fun s e s' =>
      CacheStep (fun _ => 0) ["b"] s e s' ∧ FlushesCurrent (fun _ => 0) ["b"] s e)
        .initial plainHistory s ∧ s.completed "k" = some "v1" := by
    refine ⟨_, .cons ⟨⟨rfl, rfl⟩, trivial⟩ <| .cons ⟨⟨"k", "v1", rfl, rfl⟩, trivial⟩ <|
      .cons ⟨⟨"k", "v1", rfl, rfl⟩, ?_⟩ <| .cons ⟨⟨fun _ => rfl, rfl⟩, trivial⟩ <|
      .cons ⟨⟨"b", 1, "v1", rfl, rfl, rfl⟩, trivial⟩ <| .cons ⟨⟨"b", "v1", rfl, rfl⟩, ?_⟩ <|
      .cons ⟨⟨"b", rfl, rfl⟩, ?_⟩ .nil, rfl⟩
    · rintro _ ⟨rfl⟩
      exact .inr rfl
    · exact fun _ _ _ => .inl rfl
    · exact .inr rfl
  obtain ⟨s, run, hcompleted⟩ := hrun
  exact ⟨s, run, hcompleted, keepsUpdates_of_flushesCurrent run⟩

/-- A write between the read of the executor and the deletion by the leader. -/
def lostHistory : List CacheEvent :=
  [.writeRedis 1 "k" "v1", .recordPendingKey 1, .succeed 1, .list 0, .readRedis 0 "k",
    .upsertSqlite 0 "k", .writeRedis 2 "k" "v2", .recordPendingKey 2, .succeed 2,
    .deletePendingKey 0 "k"]

/-- **An update is lost.** The second write completes before the leader deletes the pending key that
the round of the first one listed: the row holds the first value. -/
theorem flush_deletes_newer_marker : ∃ s,
    Run (CacheStep (fun _ => 0) ["b"]) .initial lostHistory s ∧ s.Quiet "k" ∧
      s.completed "k" = some "v2" ∧ s.row (fun _ => 0) ["b"] "k" = some "v1" ∧
      ¬KeepsUpdates (fun _ => 0) ["b"] s := by
  have hrun : ∃ s, Run (CacheStep (fun _ => 0) ["b"]) .initial lostHistory s ∧ s.Quiet "k" ∧
      s.completed "k" = some "v2" ∧ s.row (fun _ => 0) ["b"] "k" = some "v1" := by
    refine ⟨_, .cons ⟨rfl, rfl⟩ <| .cons ⟨"k", "v1", rfl, rfl⟩ <| .cons ⟨"k", "v1", rfl, rfl⟩ <|
      .cons ⟨fun _ => rfl, rfl⟩ <| .cons ⟨"b", 1, "v1", rfl, rfl, rfl⟩ <|
      .cons ⟨"b", "v1", rfl, rfl⟩ <| .cons ⟨rfl, rfl⟩ <| .cons ⟨"k", "v2", rfl, rfl⟩ <|
      .cons ⟨"k", "v2", rfl, rfl⟩ <| .cons ⟨"b", rfl, rfl⟩ .nil, ⟨?_, ?_, ?_⟩, rfl, rfl⟩
    · exact Bool.false_ne_true
    · intro w write hw
      simp [CacheState.initial, CacheState.setFlush] at hw
    · intro r
      by_cases hr : r = 0
      · subst hr
        rfl
      · simp [CacheState.initial, CacheState.setFlush, hr]
  obtain ⟨s, run, hquiet, hcompleted, hrow⟩ := hrun
  refine ⟨s, run, hquiet, hcompleted, hrow, fun h => ?_⟩
  have hkept := h "k" "v2" hquiet hcompleted
  rw [hrow] at hkept
  exact absurd hkept (by decide)

end RustExample.OpenraftCluster
