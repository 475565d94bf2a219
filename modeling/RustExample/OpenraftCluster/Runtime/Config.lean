import RustExample.Foundation.CheckedUpdate
import RustExample.Foundation.Fallible

/-!
# The runtime configuration

A patch of the configuration names some of its fields. It is checked field by field against lower
bounds, and its lease times against each other, where a field that it does not name is taken from
the configuration in force. Then it is merged by an atomic update, into the configuration in force
at that time.

Source: `src/runtime_config.rs`, `src/app/mod.rs` (`run`).
-/

namespace RustExample.OpenraftCluster

/-! ### Configurations and patches -/

def minNodeAnnounceIntervalSecs : UInt64 := 1
def minVoterReplaceTimeoutSecs : UInt64 := 5
def minWorkerLeaseIntervalSecs : UInt64 := 1
def minTaskStuckRequeueSecs : UInt64 := 5
def minWasmSyncAnnounceIntervalSecs : UInt64 := 1

/-- The configuration. -/
structure RuntimeConfig where
  nodeAnnounceIntervalSecs : UInt64
  voterReplaceTimeoutSecs : UInt64
  rocksdbSyncWrites : Bool
  workerLeaseTtlSecs : UInt64
  workerLeaseIntervalSecs : UInt64
  taskStuckRequeueSecs : UInt64
  wasmSyncAnnounceIntervalSecs : UInt64
  deriving DecidableEq, Repr

/-- A partial update: only the fields that it names change. -/
structure RuntimeConfigPatch where
  nodeAnnounceIntervalSecs : Option UInt64 := none
  voterReplaceTimeoutSecs : Option UInt64 := none
  rocksdbSyncWrites : Option Bool := none
  workerLeaseTtlSecs : Option UInt64 := none
  workerLeaseIntervalSecs : Option UInt64 := none
  taskStuckRequeueSecs : Option UInt64 := none
  wasmSyncAnnounceIntervalSecs : Option UInt64 := none

namespace RuntimeConfig

/-- The defaults. -/
def default : RuntimeConfig where
  nodeAnnounceIntervalSecs := 20
  voterReplaceTimeoutSecs := 300
  rocksdbSyncWrites := true
  workerLeaseTtlSecs := 30
  workerLeaseIntervalSecs := 10
  taskStuckRequeueSecs := 60
  wasmSyncAnnounceIntervalSecs := 30

/-- The configuration that a node starts with, given its `--voter-replace-timeout-secs`. -/
def startup (voterReplaceTimeoutSecs : UInt64) : RuntimeConfig :=
  { default with voterReplaceTimeoutSecs }

/-- Every field respects its lower bound, and a lease outlives the interval of its renewals. -/
structure Valid (c : RuntimeConfig) : Prop where
  nodeAnnounce : minNodeAnnounceIntervalSecs ≤ c.nodeAnnounceIntervalSecs
  voterReplace : minVoterReplaceTimeoutSecs ≤ c.voterReplaceTimeoutSecs
  leaseInterval : minWorkerLeaseIntervalSecs ≤ c.workerLeaseIntervalSecs
  stuckRequeue : minTaskStuckRequeueSecs ≤ c.taskStuckRequeueSecs
  wasmSyncAnnounce : minWasmSyncAnnounceIntervalSecs ≤ c.wasmSyncAnnounceIntervalSecs
  lease : c.workerLeaseIntervalSecs < c.workerLeaseTtlSecs

theorem valid_default : default.Valid := by constructor <;> decide

theorem valid_startup {n : UInt64} : (startup n).Valid ↔ minVoterReplaceTimeoutSecs ≤ n :=
  ⟨Valid.voterReplace, fun h => { valid_default with voterReplace := h }⟩

end RuntimeConfig

/-! ### Applying a patch -/

/-- The check of a field with a lower bound. -/
def checkMin (field : String) (min : UInt64) : Option UInt64 → Except String Unit
  | some secs => if secs < min then .error s!"{field} must be >= {min}, got {secs}" else .ok ()
  | none => .ok ()

theorem checkMin_ok {field : String} {min d : UInt64} {o : Option UInt64} (hd : min ≤ d)
    (h : checkMin field min o = .ok ()) : min ≤ o.getD d := by
  cases o with
  | none => exact hd
  | some secs =>
    exact UInt64.not_lt.mp (guard_eq_ok.mp h).1

namespace RuntimeConfigPatch

/-- Checks the bounds of each field. -/
def checkBounds (patch : RuntimeConfigPatch) : Except String Unit := do
  checkMin "node_announce_interval_secs" minNodeAnnounceIntervalSecs
    patch.nodeAnnounceIntervalSecs
  checkMin "voter_replace_timeout_secs" minVoterReplaceTimeoutSecs patch.voterReplaceTimeoutSecs
  checkMin "worker_lease_interval_secs" minWorkerLeaseIntervalSecs patch.workerLeaseIntervalSecs
  checkMin "task_stuck_requeue_secs" minTaskStuckRequeueSecs patch.taskStuckRequeueSecs
  checkMin "wasm_sync_announce_interval_secs" minWasmSyncAnnounceIntervalSecs
    patch.wasmSyncAnnounceIntervalSecs

/-- The lease time after the patch. -/
def ttl (patch : RuntimeConfigPatch) (current : RuntimeConfig) : UInt64 :=
  patch.workerLeaseTtlSecs.getD current.workerLeaseTtlSecs

/-- The lease interval after the patch. -/
def interval (patch : RuntimeConfigPatch) (current : RuntimeConfig) : UInt64 :=
  patch.workerLeaseIntervalSecs.getD current.workerLeaseIntervalSecs

/-- The check of the lease times, against the configuration that was read. -/
def checkLease (current : RuntimeConfig) (patch : RuntimeConfigPatch) : Except String Unit :=
  let ttl := patch.ttl current
  let interval := patch.interval current
  if ttl ≤ interval then
    .error (s!"worker_lease_ttl_secs ({ttl}) must be greater than worker_lease_interval_secs" ++
      s!"          ({interval})")
  else
    .ok ()

/-- Takes over what the patch sets. -/
def merge (patch : RuntimeConfigPatch) (current : RuntimeConfig) : RuntimeConfig where
  nodeAnnounceIntervalSecs :=
    patch.nodeAnnounceIntervalSecs.getD current.nodeAnnounceIntervalSecs
  voterReplaceTimeoutSecs := patch.voterReplaceTimeoutSecs.getD current.voterReplaceTimeoutSecs
  rocksdbSyncWrites := patch.rocksdbSyncWrites.getD current.rocksdbSyncWrites
  workerLeaseTtlSecs := patch.workerLeaseTtlSecs.getD current.workerLeaseTtlSecs
  workerLeaseIntervalSecs := patch.workerLeaseIntervalSecs.getD current.workerLeaseIntervalSecs
  taskStuckRequeueSecs := patch.taskStuckRequeueSecs.getD current.taskStuckRequeueSecs
  wasmSyncAnnounceIntervalSecs :=
    patch.wasmSyncAnnounceIntervalSecs.getD current.wasmSyncAnnounceIntervalSecs

/-- The lease check of the patch passes against `current`. -/
def LeaseFits (current : RuntimeConfig) (patch : RuntimeConfigPatch) : Prop :=
  patch.interval current < patch.ttl current

end RuntimeConfigPatch

/-- `apply_patch`: the checks read the configuration once, and the atomic update reads it again. -/
def applyPatch : CheckedUpdate RuntimeConfig RuntimeConfigPatch String where
  check current patch := do
    patch.checkBounds
    RuntimeConfigPatch.checkLease current patch
  merge := RuntimeConfigPatch.merge

/-! ### The bounds -/

section

variable {c c' : RuntimeConfig} {patch : RuntimeConfigPatch}

/-- A patch within bounds is merged validly exactly when its lease check passes on that one. -/
theorem RuntimeConfig.Valid.merge_iff (hc : c.Valid) (h : patch.checkBounds = .ok ()) :
    (patch.merge c).Valid ↔ patch.LeaseFits c := by
  refine ⟨fun hvalid => hvalid.lease, fun hlease => ?_⟩
  obtain ⟨⟨⟩, hnode, h⟩ := bind_eq_ok.mp h
  obtain ⟨⟨⟩, hvoter, h⟩ := bind_eq_ok.mp h
  obtain ⟨⟨⟩, hinterval, h⟩ := bind_eq_ok.mp h
  obtain ⟨⟨⟩, hstuck, hwasm⟩ := bind_eq_ok.mp h
  exact ⟨checkMin_ok hc.nodeAnnounce hnode, checkMin_ok hc.voterReplace hvoter,
    checkMin_ok hc.leaseInterval hinterval, checkMin_ok hc.stuckRequeue hstuck,
    checkMin_ok hc.wasmSyncAnnounce hwasm, hlease⟩

end

/-! ### Concurrent patches -/

section

variable {ι : Type} [DecidableEq ι] {c₀ : RuntimeConfig}
  {es : List (UpdateEvent RuntimeConfig RuntimeConfigPatch String ι)}
  {s : UpdateSystem RuntimeConfig RuntimeConfigPatch ι}

/-- **Bounds under concurrent patches.** The configuration keeps its bounds exactly when it does so
initially and the lease check of every installed patch also passes against the configuration it is
merged into. A rejected call changes nothing. -/
theorem applyPatch_keeps_valid_iff (run : Run (UpdateSystem.Step applyPatch) (.initial c₀) es s) :
    (Run.Always (UpdateSystem.Step applyPatch) (.initial c₀) (fun t => t.cell.Valid) es ↔
      c₀.Valid ∧ Run.AtEvents (UpdateSystem.Step applyPatch) (.initial c₀)
        (UpdateSystem.InstallFits RuntimeConfigPatch.LeaseFits) es) ∧
    Run.AtEvents (UpdateSystem.Step applyPatch) (.initial c₀)
      (fun t e => ∀ err t', .answer e.caller (.error err) ∈ es →
        UpdateSystem.Step applyPatch t e t' → t'.cell = t.cell) es := by
  refine ⟨UpdateSystem.always_iff (fun c c' patch hc hcheck => ?_) run,
    UpdateSystem.cell_eq_of_error run⟩
  obtain ⟨⟨⟩, hbounds, -⟩ := bind_eq_ok.mp hcheck
  exact hc.merge_iff hbounds

end

/-- Two patches of the default configuration, one after the other: the second is rejected. -/
theorem applyPatch_keeps_valid_iff_serial :
    ∃ es s, ∃ _ : Run (UpdateSystem.Step applyPatch) (.initial .default) es s,
      (∃ err, .answer 1 (.error err) ∈ es) ∧
      Run.Always (UpdateSystem.Step applyPatch) (.initial .default) (fun t => t.cell.Valid) es := by
  have hfits : RuntimeConfigPatch.LeaseFits .default { workerLeaseTtlSecs := some 11 } :=
    (by decide : (10 : UInt64) < 11)
  have run : Run (fun t e t' => UpdateSystem.Step applyPatch t e t' ∧
      UpdateSystem.InstallFits RuntimeConfigPatch.LeaseFits t e)
      (.initial .default : UpdateSystem _ _ ℕ) _ _ :=
    (((((Run.nil.snoc ⟨.start 0 { workerLeaseTtlSecs := some 11 } rfl, trivial⟩).snoc
      ⟨.pass 0 _ rfl rfl, trivial⟩).snoc ⟨.install 0 _ rfl, by exact hfits⟩).snoc
      ⟨.answer 0 _ rfl, trivial⟩).snoc
      ⟨.start 1 { workerLeaseIntervalSecs := some 29 } rfl, trivial⟩).snoc
      ⟨.reject 1 _ _ rfl rfl, trivial⟩
  have hsteps := run.imp fun _ _ _ h => h.1
  refine ⟨_, _, hsteps, ⟨_, List.mem_append_right _ (List.mem_singleton_self _)⟩,
    (applyPatch_keeps_valid_iff hsteps).1.mpr ⟨RuntimeConfig.valid_default, ?_⟩⟩
  exact Run.atEvents_of_run (fun _ _ _ _ h h' => h.deterministic h') run

/-- The same two patches, each checked before the other is installed. -/
theorem concurrent_patches_break_lease :
    ∃ es s, Run (UpdateSystem.Step applyPatch) (.initial .default : UpdateSystem _ _ ℕ) es s ∧
      s.cell.workerLeaseTtlSecs = 11 ∧ s.cell.workerLeaseIntervalSecs = 29 ∧ ¬s.cell.Valid :=
  ⟨_, _, (((((Run.nil.snoc (.start 0 { workerLeaseTtlSecs := some 11 } rfl)).snoc
    (.start 1 { workerLeaseIntervalSecs := some 29 } rfl)).snoc (.pass 0 _ rfl rfl)).snoc
    (.pass 1 _ rfl rfl)).snoc (.install 0 _ rfl)).snoc (.install 1 _ rfl),
    rfl, rfl, fun h => absurd h.lease (by decide)⟩

end RustExample.OpenraftCluster
