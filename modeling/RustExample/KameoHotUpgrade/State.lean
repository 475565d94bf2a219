import RustExample.HotUpgrade.Rules

/-!
# The state of a service whose rule is a component

An actor keeps the state of its service and hands it, as a text of JSON, to a component that decides
requests. The component hands back the state that follows. A state has a schema, to which it is
migrated one version after the other.

Source: `wasm_workspace_example/kameo_wasmtime_hot_upgrade/src/types.rs`, `state.rs`.

* Numbers have the widths of the source and wrap, as they do in a release build.
* What `serde_json` makes of a state, and of a text, is a parameter.
* An error that has a context is written after it.
* The loop of a migration runs at most once for each version that the state is behind.
* An average that overflows is none: the thread panics and the actor stops.
-/

namespace RustExample.KameoHotUpgrade

/-! ### Types -/

/-- What is to be decided. -/
structure Request where
  userId : Int64
  amount : Int64
  merchantRisk : Int32
  hour : Int32

/-- How it is decided. -/
inductive Decision where
  | allow
  | review
  | allowFastLane
  deriving DecidableEq

/-- The answer to a request. -/
structure Response where
  decision : Decision
  ruleVersion : String
  policyId : Int32
  riskScore : Int32

/-- What a rule tells of itself. -/
structure RuleMetadata where
  version : String
  requiredSchema : UInt32
  policyId : Int32
  dependencyMarker : Int32
  reviewThreshold : Int32
  fastLaneLimit : Int64

/-- The calls of a rule so far. -/
structure RuleRuntimeSnapshot where
  version : String
  componentPath : String
  loadedRequiredSchema : UInt32
  hostMethodEntries : UInt64
  lastHostMethod : Option String
  lastHostPolicyId : Option Int32
  metadataCalls : UInt64
  evaluateCalls : UInt64
  lastRequest : Option Request
  lastResponse : Option Response
  lastScore : Option Int32

/-- What an inspection shows. -/
structure RuleInspection where
  metadata : RuleMetadata
  sampleRequest : Request
  sampleScore : Int32
  runtime : RuleRuntimeSnapshot

/-- What is kept from the second schema on. -/
structure StateV2Stats where
  migrationGeneration : UInt64
  legacyProcessedAtMigration : UInt64
  fastLaneAmount : Int64
  reviewedAmount : Int64
  largestAmount : Int64
  highRiskRequests : UInt64
  lateNightReviews : UInt64
  lastDecision : Decision
  lastPolicyId : Int32
  deriving DecidableEq

/-- No statistics. -/
def StateV2Stats.default : StateV2Stats := ⟨0, 0, 0, 0, 0, 0, 0, .allow, 0⟩

/-- The state of the service. -/
structure State where
  processed : UInt64
  schemaVersion : UInt32
  allowCount : UInt64
  reviewCount : UInt64
  fastLaneHits : UInt64
  upgrades : UInt64
  lastScore : Int32
  totalScore : Int64
  v2 : Option StateV2Stats
  deriving DecidableEq

/-- A new state. -/
def State.default : State := ⟨0, 0, 0, 0, 0, 0, 0, 0, none⟩

/-- The state of schema 1, as shown. -/
structure ServiceSnapshotV1 where
  processed : UInt64
  schemaVersion : UInt32
  allowCount : UInt64
  reviewCount : UInt64
  upgrades : UInt64
  lastScore : Int32
  averageScore : Int32
  currentRuleVersion : String

/-- The state of schema 2, as shown. -/
structure ServiceSnapshotV2 where
  processed : UInt64
  schemaVersion : UInt32
  allowCount : UInt64
  reviewCount : UInt64
  fastLaneHits : UInt64
  upgrades : UInt64
  lastScore : Int32
  averageScore : Int32
  currentRuleVersion : String
  migrationGeneration : UInt64
  legacyProcessedAtMigration : UInt64
  fastLaneAmount : Int64
  reviewedAmount : Int64
  largestAmount : Int64
  highRiskRequests : UInt64
  lateNightReviews : UInt64
  reviewRateBps : UInt32
  fastLaneRateBps : UInt32
  lastDecision : Decision
  lastPolicyId : Int32

/-- The state, as shown. -/
inductive ServiceSnapshot where
  | v1 (snapshot : ServiceSnapshotV1)
  | v2 (snapshot : ServiceSnapshotV2)

/-! ### Schemas -/

namespace State

/-- The loop of a migration, for as many versions as it is given. -/
def migrations (requiredSchema : UInt32) : ℕ → State → Except String Unit × State
  | 0, state => (.ok (), state)
  | behind + 1, state =>
    if state.schemaVersion < requiredSchema then
      if state.schemaVersion = 0 then
        migrations requiredSchema behind { state with schemaVersion := 1 }
      else if state.schemaVersion = 1 then
        migrations requiredSchema behind
          { state with
            fastLaneHits := 0
            v2 := some { StateV2Stats.default with
              migrationGeneration := state.upgrades + 1
              legacyProcessedAtMigration := state.processed }
            schemaVersion := 2 }
      else
        (.error ("missing migrator for state schema " ++ toString state.schemaVersion ++ " -> " ++
          toString (state.schemaVersion + 1)), state)
    else (.ok (), state)

/-- Brings the state to a schema. -/
def migrateToSchema (state : State) (requiredSchema : UInt32) : Except String Unit × State :=
  match state.migrations requiredSchema (requiredSchema.toNat - state.schemaVersion.toNat) with
  | (.error err, state) => (.error err, state)
  | (.ok (), state) =>
    if requiredSchema < state.schemaVersion then
      (.error ("rule requires schema " ++ toString requiredSchema ++
        ", but state is already at schema " ++ toString state.schemaVersion), state)
    else (.ok (), state)

/-- Refuses a state of another schema. -/
def ensureSchema (state : State) (ruleVersion : String) (requiredSchema : UInt32) :
    Except String Unit :=
  if state.schemaVersion ≠ requiredSchema then
    .error ("rule " ++ ruleVersion ++ " expects state schema " ++ toString requiredSchema ++
      ", got " ++ toString state.schemaVersion)
  else .ok ()

/-- Counts an upgrade. -/
def recordUpgrade (state : State) : State := { state with upgrades := state.upgrades + 1 }

/-! ### Snapshots -/

/-- The division is signed and overflows for the least total and a count of all ones. -/
def averageScore (state : State) : Option Int32 :=
  if state.processed = 0 then some 0
  else if state.totalScore = Int64.minValue ∧ state.processed.toInt64 = -1 then none
  else some (state.totalScore / state.processed.toInt64).toInt32

end State

/-- Multiplication that stays at the greatest number. -/
def saturatingMul (a b : UInt64) : UInt64 := UInt64.ofNat (min (a.toNat * b.toNat) (2 ^ 64 - 1))

/-- The rate in ten-thousandths. -/
def rateBps (count total : UInt64) : UInt32 :=
  if total = 0 then 0 else (saturatingMul count 10000 / total).toUInt32

namespace State

/-- What is shown of the state. -/
def snapshot (state : State) (currentRuleVersion : String) : Option ServiceSnapshot := do
  let averageScore ← state.averageScore
  match state.v2 with
  | some v2 =>
    return .v2
      { processed := state.processed
        schemaVersion := state.schemaVersion
        allowCount := state.allowCount
        reviewCount := state.reviewCount
        fastLaneHits := state.fastLaneHits
        upgrades := state.upgrades
        lastScore := state.lastScore
        averageScore
        currentRuleVersion
        migrationGeneration := v2.migrationGeneration
        legacyProcessedAtMigration := v2.legacyProcessedAtMigration
        fastLaneAmount := v2.fastLaneAmount
        reviewedAmount := v2.reviewedAmount
        largestAmount := v2.largestAmount
        highRiskRequests := v2.highRiskRequests
        lateNightReviews := v2.lateNightReviews
        reviewRateBps := rateBps state.reviewCount state.processed
        fastLaneRateBps := rateBps state.fastLaneHits state.processed
        lastDecision := v2.lastDecision
        lastPolicyId := v2.lastPolicyId }
  | none =>
    return .v1
      { processed := state.processed
        schemaVersion := state.schemaVersion
        allowCount := state.allowCount
        reviewCount := state.reviewCount
        upgrades := state.upgrades
        lastScore := state.lastScore
        averageScore
        currentRuleVersion }

end State

/-! ### The state of a component -/

/-- The state that a component is handed and hands back. -/
structure ComponentState where
  path : String
  contentJson : String
  deriving DecidableEq

/-- The path of the state. -/
def serviceStatePath : String := "state/service.json"

/-- What `serde_json` writes and reads. -/
structure StateJson where
  toText : State → Except String String
  fromStr : String → Except String State

namespace StateJson

variable (json : StateJson)

/-- The state, as the component gets it. -/
def stateToComponent (state : State) : Except String ComponentState := do
  let contentJson ← (json.toText state).mapError fun err =>
    "failed to serialize service state for wasm rule: " ++ err
  return ⟨serviceStatePath, contentJson⟩

/-- The state from what it returns. -/
def stateFromComponent (state : ComponentState) : Except String State :=
  if state.path ≠ serviceStatePath then
    .error ("wasm returned service state for unexpected path " ++ "`" ++ state.path ++ "`")
  else
    (json.fromStr state.contentJson).mapError fun err =>
      "failed to decode service state at " ++ "`" ++ state.path ++ "`: " ++ err

/-- Takes over the returned state. -/
def saveComponentState (state : State) (returned : ComponentState) : Except String Unit × State :=
  match json.stateFromComponent returned with
  | .error err => (.error err, state)
  | .ok state => (.ok (), state)

end StateJson

/-! ### Schemas that are reached -/

namespace State

variable {requiredSchema : UInt32}

theorem not_lt_of_migrations {behind : ℕ} {state state' : State}
    (hbehind : requiredSchema.toNat - state.schemaVersion.toNat ≤ behind)
    (h : state.migrations requiredSchema behind = (.ok (), state')) :
    ¬state'.schemaVersion < requiredSchema := by
  induction behind generalizing state with
  | zero =>
    obtain ⟨-, rfl⟩ := Prod.mk.inj h
    rw [UInt32.lt_iff_toNat_lt]
    omega
  | succ behind ih =>
    rw [migrations] at h
    split_ifs at h with hlt h0 h1
    · refine ih ?_ h
      rw [h0] at hbehind
      simp only [UInt32.toNat_zero, UInt32.toNat_one] at hbehind ⊢
      omega
    · refine ih ?_ h
      rw [h1] at hbehind
      simp only [UInt32.toNat_one] at hbehind
      change requiredSchema.toNat - 2 ≤ behind
      omega
    · cases (Prod.mk.inj h).1
    · obtain ⟨-, rfl⟩ := Prod.mk.inj h
      exact hlt

/-- A migration that succeeds reaches the schema. -/
theorem migrateToSchema_ok {state state' : State}
    (h : state.migrateToSchema requiredSchema = (.ok (), state')) :
    state'.schemaVersion = requiredSchema := by
  rw [migrateToSchema] at h
  split at h
  · cases (Prod.mk.inj h).1
  · rename_i migrated hmigrations
    split_ifs at h with hlt
    · cases (Prod.mk.inj h).1
    · obtain ⟨-, rfl⟩ := Prod.mk.inj h
      exact UInt32.le_antisymm (UInt32.not_lt.mp hlt)
        (UInt32.not_lt.mp (not_lt_of_migrations (Nat.le_refl _) hmigrations))

theorem ensureSchema_eq_ok_iff {state : State} {ruleVersion : String} :
    state.ensureSchema ruleVersion requiredSchema = .ok () ↔
      state.schemaVersion = requiredSchema := by
  rw [ensureSchema]
  split_ifs with h
  · exact ⟨nofun, fun heq => absurd heq h⟩
  · exact ⟨fun _ => of_not_not h, fun _ => rfl⟩

end State

end RustExample.KameoHotUpgrade
