import RustExample.KameoHotUpgrade.Actor

/-!
# The counters of a state that a component hands back

Of a state that a component hands back the actor checks only the schema. The counters are then
counted up by upgrades and divided in snapshots. An upgrade panics if there have been `u64::MAX` of
them, a snapshot panics if the least total is divided by a count that is `-1` as an `i64`, an
average that does not fit into 32 bits is cut off, and the kind of a snapshot is told by the
statistics and not by the schema.

Source: `wasm_workspace_example/kameo_wasmtime_hot_upgrade/src/state.rs`, `actor.rs`.

* The functions that add are here as in a debug build, where `none` is a panic on overflow. Where
  they do not panic they do what they do in a release build.
-/

namespace RustExample.KameoHotUpgrade

/-! ### Arithmetic that is checked -/

/-- `n + 1` in a `u64`. -/
def checkedSucc (n : UInt64) : Option UInt64 := if n.toNat + 1 < 2 ^ 64 then some (n + 1) else none

/-- `n + 1` in a `u32`. -/
def checkedSucc32 (n : UInt32) : Option UInt32 :=
  if n.toNat + 1 < 2 ^ 32 then some (n + 1) else none

namespace State

/-- Migrates, if no counter overflows. -/
def checkedMigrations (requiredSchema : UInt32) : ℕ → State → Option (Except String Unit × State)
  | 0, state => some (.ok (), state)
  | behind + 1, state =>
    if state.schemaVersion < requiredSchema then
      if state.schemaVersion = 0 then
        checkedMigrations requiredSchema behind { state with schemaVersion := 1 }
      else if state.schemaVersion = 1 then do
        let migrationGeneration ← checkedSucc state.upgrades
        checkedMigrations requiredSchema behind
          { state with
            fastLaneHits := 0
            v2 := some { StateV2Stats.default with
              migrationGeneration
              legacyProcessedAtMigration := state.processed }
            schemaVersion := 2 }
      else do
        let next ← checkedSucc32 state.schemaVersion
        return (.error ("missing migrator for state schema " ++ toString state.schemaVersion ++
          " -> " ++ toString next), state)
    else some (.ok (), state)

/-- A checked migration. -/
def checkedMigrateToSchema (state : State) (requiredSchema : UInt32) :
    Option (Except String Unit × State) := do
  match ← state.checkedMigrations requiredSchema
      (requiredSchema.toNat - state.schemaVersion.toNat) with
  | (.error err, state) => return (.error err, state)
  | (.ok (), state) =>
    if requiredSchema < state.schemaVersion then
      return (.error ("rule requires schema " ++ toString requiredSchema ++
        ", but state is already at schema " ++ toString state.schemaVersion), state)
    else return (.ok (), state)

/-- Counts an upgrade, if it fits. -/
def checkedRecordUpgrade (state : State) : Option State := do
  let upgrades ← checkedSucc state.upgrades
  return { state with upgrades }

end State

namespace HotUpgradeActor

variable {C : Type} (json : StateJson)

/-- A checked trial. -/
def checkedValidate (actor : HotUpgradeActor C) (next : WasmRuleMethods C) :
    Option (Except String Unit × WasmRuleMethods C) := do
  match ← actor.state.checkedMigrateToSchema next.requiredSchema with
  | (.error err, _) => return (.error err, next)
  | (.ok (), shadow) =>
    match next.handle json probeRequest shadow with
    | (.error err, _, next) => return (.error err, next)
    | (.ok response, _, next) =>
      if HotUpgrade.isBlank response.ruleVersion then
        return (.error "new wasm rule returned an empty version", next)
      else return (.ok (), next)

/-- A checked upgrade. -/
def checkedUpgrade (actor : HotUpgradeActor C) (wasmPath : WasmFile C) :
    Option (Except String String × HotUpgradeActor C) :=
  let oldVersion := actor.handler.version
  match WasmRuleMethods.load wasmPath with
  | .error err => some (.error err, actor)
  | .ok next => do
    match ← checkedValidate json actor next with
    | (.error err, _) => return (.error err, actor)
    | (.ok (), next) =>
      match ← actor.state.checkedMigrateToSchema next.requiredSchema with
      | (.error err, state) => return (.error err, ⟨state, actor.handler⟩)
      | (.ok (), state) =>
        let state ← state.checkedRecordUpgrade
        return (.ok ("upgrade " ++ oldVersion ++ " -> " ++ next.version), ⟨state, next⟩)

/-- The answer to a message, unless the actor panics. -/
def checkedHandle (actor : HotUpgradeActor C) : Message C → Option (Reply × HotUpgradeActor C)
  | .upgradeRule wasmPath =>
    (checkedUpgrade json actor wasmPath).map fun r => (.upgradeRule r.1, r.2)
  | m => handle json actor m

end HotUpgradeActor

/-! ### What the actor is to do -/

/-- The average score. -/
def ServiceSnapshot.averageScore : ServiceSnapshot → Int32
  | .v1 snapshot => snapshot.averageScore
  | .v2 snapshot => snapshot.averageScore

namespace State

/-- The quotient of the average, of any size. -/
def quotient (state : State) : ℤ :=
  if state.processed = 0 then 0
  else state.totalScore.toInt.tdiv state.processed.toInt64.toInt

/-- A snapshot has the signed average, and is of the second kind from the second schema on. -/
def Tells (state : State) : Reply → Prop
  | .snapshot (.ok snapshot) => snapshot.averageScore.toInt = state.quotient ∧
      ((∃ v2, snapshot = .v2 v2) ↔ 2 ≤ state.schemaVersion)
  | _ => True

/-- The total is small beside the count, as an `i64`. -/
def TotalFits (state : State) : Prop :=
  let count := state.processed.toInt64.toInt
  let total := count.sign * state.totalScore.toInt
  state.processed = 0 ∨ -(2 ^ 31 + 1) * count.natAbs < total ∧ total < 2 ^ 31 * count.natAbs

/-- The migration to a schema makes the statistics of the second schema. -/
def Migrates (state : State) (requiredSchema : UInt32) : Prop :=
  state.schemaVersion < 2 ∧ 2 ≤ requiredSchema

end State

namespace HotUpgradeActor

variable {C : Type} (json : StateJson)

/-- All messages are answered, and the snapshots tell what they should. -/
def SafeRun (actor : HotUpgradeActor C) : List (Message C) → Prop
  | [] => True
  | m :: ms => ∃ reply actor', checkedHandle json actor m = some (reply, actor') ∧
      actor.state.Tells reply ∧ SafeRun actor' ms

/-- An upgrade counts up: it makes statistics, or it succeeds. -/
def Counts (actor : HotUpgradeActor C) (wasmPath : WasmFile C) : Prop :=
  ∃ next, WasmRuleMethods.load wasmPath = .ok next ∧
    (actor.state.Migrates next.requiredSchema ∨
      ∃ report, (upgrade json actor wasmPath).1 = .ok report)

/-- The counters withstand a message. -/
def Withstands (actor : HotUpgradeActor C) : Message C → Prop
  | .upgradeRule wasmPath => Counts json actor wasmPath → actor.state.upgrades.toNat + 1 < 2 ^ 64
  | .snapshot => actor.state.TotalFits ∧
      (actor.state.v2.isSome = true ↔ 2 ≤ actor.state.schemaVersion)
  | _ => True

/-- The counters withstand all messages, each in the state before it. -/
def AllWithstand (actor : HotUpgradeActor C) : List (Message C) → Prop
  | [] => True
  | m :: ms => Withstands json actor m ∧
      ∀ reply actor', Step json actor (m, reply) actor' → AllWithstand actor' ms

end HotUpgradeActor

/-! ### Averages -/

/-- A quotient by a positive number, rounded towards zero, within the bounds of an `i32`. -/
theorem tdiv_fits_iff {total : ℤ} {d : ℕ} (hd : 0 < d) :
    -2 ^ 31 ≤ total.tdiv d ∧ total.tdiv d < 2 ^ 31 ↔
      -(2 ^ 31 + 1) * (d : ℤ) < total ∧ total < 2 ^ 31 * (d : ℤ) := by
  have hd' : (0 : ℤ) < d := by exact_mod_cast hd
  rcases Int.le_total 0 total with htotal | htotal
  · rw [Int.tdiv_eq_ediv_of_nonneg htotal, Int.ediv_lt_iff_lt_mul hd']
    have hquotient : 0 ≤ total / d := Int.ediv_nonneg htotal (Int.le_of_lt hd')
    have hlow : -(2 ^ 31 + 1) * (d : ℤ) < total := by omega
    exact ⟨fun h => ⟨hlow, h.2⟩, fun h => ⟨by omega, h.2⟩⟩
  · have hneg : 0 ≤ -total := by omega
    have hquotient : 0 ≤ -total / d := Int.ediv_nonneg hneg (Int.le_of_lt hd')
    have htdiv : total.tdiv d = -(-total / d) := by
      rw [← Int.tdiv_eq_ediv_of_nonneg hneg, Int.neg_tdiv, Int.neg_neg]
    have hlt : -total / d < 2 ^ 31 + 1 ↔ -total < (2 ^ 31 + 1) * (d : ℤ) :=
      Int.ediv_lt_iff_lt_mul hd'
    rw [htdiv]
    omega

theorem tdiv_eq_tdiv_natAbs (total d : ℤ) : total.tdiv d = (d.sign * total).tdiv d.natAbs := by
  rcases Int.lt_trichotomy d 0 with hd | rfl | hd
  · rw [Int.sign_eq_neg_one_of_neg hd, Int.ofNat_natAbs_of_nonpos (Int.le_of_lt hd),
      Int.neg_one_mul, Int.neg_tdiv, Int.tdiv_neg, Int.neg_neg]
  · simp
  · rw [Int.sign_eq_one_of_pos hd, Int.natAbs_of_nonneg (Int.le_of_lt hd), Int.one_mul]

namespace State

variable {state : State} {requiredSchema : UInt32}

theorem toInt_toInt64_ne_zero (h : state.processed ≠ 0) : state.processed.toInt64.toInt ≠ 0 := by
  intro hzero
  have hcast : state.processed.toInt64 = 0 := Int64.toInt.inj hzero
  exact h ((UInt64.toUInt64_toInt64 _).symm.trans (congrArg Int64.toUInt64 hcast))

/-- **The average** has the value of the quotient exactly if the total fits. -/
theorem exists_averageScore_iff :
    (∃ average, state.averageScore = some average ∧ average.toInt = state.quotient) ↔
      state.TotalFits := by
  by_cases hprocessed : state.processed = 0
  · simp [averageScore, quotient, TotalFits, hprocessed]
  · have hcount := toInt_toInt64_ne_zero hprocessed
    have hfits : state.TotalFits ↔ -2 ^ 31 ≤ state.quotient ∧ state.quotient < 2 ^ 31 := by
      rw [quotient, if_neg hprocessed, tdiv_eq_tdiv_natAbs,
        tdiv_fits_iff (Int.natAbs_pos.mpr hcount)]
      exact or_iff_right hprocessed
    rw [hfits]
    by_cases hpanic : state.totalScore = Int64.minValue ∧ state.processed.toInt64 = -1
    · have hquotient : state.quotient = 2 ^ 63 := by
        rw [quotient, if_neg hprocessed, hpanic.1, hpanic.2]
        decide
      have hnone : state.averageScore = none := by
        rw [averageScore, if_neg hprocessed, if_pos hpanic]
      rw [hnone, hquotient]
      exact iff_of_false (fun ⟨_, h, _⟩ => nomatch h) (by decide)
    · have hdiv : (state.totalScore / state.processed.toInt64).toInt = state.quotient := by
        rw [quotient, if_neg hprocessed]
        by_cases hleast : state.totalScore = Int64.minValue
        · exact Int64.toInt_div_of_ne_right _ _ fun hall => hpanic ⟨hleast, hall⟩
        · exact Int64.toInt_div_of_ne_left _ _ hleast
      have haverage : state.averageScore =
          some (state.totalScore / state.processed.toInt64).toInt32 := by
        rw [averageScore, if_neg hprocessed, if_neg hpanic]
      constructor
      · rintro ⟨average, -, heq⟩
        rw [← heq]
        exact ⟨average.le_toInt, average.toInt_lt⟩
      · rintro ⟨hlow, hhigh⟩
        refine ⟨_, haverage, ?_⟩
        rw [Int64.toInt_toInt32, hdiv]
        exact Int.bmod_eq_of_le hlow hhigh

/-! ### Migrations -/

theorem checkedMigrations_eq_some {behind : ℕ}
    (h : state.Migrates requiredSchema → state.upgrades.toNat + 1 < 2 ^ 64) :
    state.checkedMigrations requiredSchema behind =
      some (state.migrations requiredSchema behind) := by
  induction behind generalizing state with
  | zero => rfl
  | succ behind ih =>
    rw [checkedMigrations, migrations]
    split_ifs with hlt h0 h1
    · refine ih fun hmigrates => h ⟨?_, hmigrates.2⟩
      rw [h0]
      decide
    · have hsucc : checkedSucc state.upgrades = some (state.upgrades + 1) := if_pos (h ⟨?_, ?_⟩)
      · rw [hsucc]
        exact ih fun hmigrates => absurd hmigrates.1 (UInt32.lt_irrefl 2)
      · rw [h1]
        decide
      · rw [h1, UInt32.lt_iff_toNat_lt, UInt32.toNat_one] at hlt
        exact UInt32.le_iff_toNat_le.mpr hlt
    · -- a schema below another one is not the last one
      have hsucc : checkedSucc32 state.schemaVersion = some (state.schemaVersion + 1) := by
        refine if_pos ?_
        have := requiredSchema.toNat_lt
        rw [UInt32.lt_iff_toNat_lt] at hlt
        omega
      rw [hsucc]
      rfl
    · rfl

/-- The statistics have the number of the next upgrade, which overflows. -/
theorem checkedMigrations_eq_none {behind : ℕ} (hmigrates : state.Migrates requiredSchema)
    (hbehind : requiredSchema.toNat - state.schemaVersion.toNat ≤ behind)
    (h : ¬ state.upgrades.toNat + 1 < 2 ^ 64) :
    state.checkedMigrations requiredSchema behind = none := by
  obtain ⟨hlow, hhigh⟩ := hmigrates
  have hlt : state.schemaVersion < requiredSchema := UInt32.lt_of_lt_of_le hlow hhigh
  induction behind generalizing state with
  | zero =>
    rw [UInt32.lt_iff_toNat_lt] at hlt
    omega
  | succ behind ih =>
    rw [checkedMigrations, if_pos hlt]
    split_ifs with h0 h1
    · have hone : (1 : UInt32) < 2 := by decide
      refine ih ?_ h hone (UInt32.lt_of_lt_of_le hone hhigh)
      rw [h0, UInt32.toNat_zero] at hbehind
      change requiredSchema.toNat - 1 ≤ behind
      omega
    · have hnone : checkedSucc state.upgrades = none := if_neg h
      rw [hnone]
      rfl
    · rw [UInt32.lt_iff_toNat_lt] at hlow
      rw [← UInt32.toNat_inj] at h0 h1
      exfalso
      change state.schemaVersion.toNat < 2 at hlow
      change ¬ state.schemaVersion.toNat = 0 at h0
      change ¬ state.schemaVersion.toNat = 1 at h1
      omega

theorem checkedMigrateToSchema_eq_some
    (h : state.Migrates requiredSchema → state.upgrades.toNat + 1 < 2 ^ 64) :
    state.checkedMigrateToSchema requiredSchema = some (state.migrateToSchema requiredSchema) := by
  rw [checkedMigrateToSchema, migrateToSchema, checkedMigrations_eq_some h]
  simp only [Option.bind_eq_bind, Option.bind_some]
  rcases state.migrations requiredSchema _ with ⟨err | _, state'⟩
  · rfl
  · dsimp only
    split_ifs <;> rfl

theorem checkedMigrateToSchema_eq_none (hmigrates : state.Migrates requiredSchema)
    (h : ¬ state.upgrades.toNat + 1 < 2 ^ 64) :
    state.checkedMigrateToSchema requiredSchema = none := by
  rw [checkedMigrateToSchema, checkedMigrations_eq_none hmigrates (Nat.le_refl _) h]
  rfl

theorem checkedRecordUpgrade_eq (state : State) :
    state.checkedRecordUpgrade = (checkedSucc state.upgrades).map fun _ => state.recordUpgrade := by
  rw [checkedRecordUpgrade, checkedSucc]
  split_ifs <;> rfl

theorem upgrades_migrations (requiredSchema : UInt32) (behind : ℕ) (state : State) :
    (state.migrations requiredSchema behind).2.upgrades = state.upgrades := by
  induction behind generalizing state with
  | zero => rfl
  | succ behind ih =>
    rw [migrations]
    split_ifs
    · exact ih _
    · exact ih _
    · rfl
    · rfl

theorem upgrades_migrateToSchema (state : State) (requiredSchema : UInt32) :
    (state.migrateToSchema requiredSchema).2.upgrades = state.upgrades := by
  have hupgrades := upgrades_migrations requiredSchema
    (requiredSchema.toNat - state.schemaVersion.toNat) state
  rw [migrateToSchema]
  rcases hmigrations : state.migrations requiredSchema
    (requiredSchema.toNat - state.schemaVersion.toNat) with ⟨err | _, state'⟩
  · rwa [hmigrations] at hupgrades
  · rw [hmigrations] at hupgrades
    dsimp only
    split_ifs <;> exact hupgrades

end State

/-! ### Upgrades -/

namespace HotUpgradeActor

variable {C : Type} {json : StateJson} {actor : HotUpgradeActor C} {wasmPath : WasmFile C}
  {next : WasmRuleMethods C}

theorem checkedValidate_eq_some
    (h : actor.state.checkedMigrateToSchema next.requiredSchema =
      some (actor.state.migrateToSchema next.requiredSchema)) :
    checkedValidate json actor next = some (validate json actor next) := by
  rw [checkedValidate, validate, h]
  simp only [Option.bind_eq_bind, Option.bind_some]
  rcases actor.state.migrateToSchema next.requiredSchema with ⟨err | _, shadow⟩
  · rfl
  · dsimp only
    rcases next.handle json probeRequest shadow with ⟨err | response, _, next'⟩
    · rfl
    · dsimp only
      split_ifs <;> rfl

theorem requiredSchema_validate (json : StateJson) (actor : HotUpgradeActor C)
    (next : WasmRuleMethods C) :
    (validate json actor next).2.requiredSchema = next.requiredSchema := by
  rw [validate]
  rcases actor.state.migrateToSchema next.requiredSchema with ⟨err | _, shadow⟩
  · rfl
  · dsimp only
    rcases hhandle : next.handle json probeRequest shadow with ⟨err | response, state, next'⟩
    · exact (WasmRuleMethods.handle_same json hhandle).requiredSchema
    · have hsame := (WasmRuleMethods.handle_same json hhandle).requiredSchema
      dsimp only
      split_ifs <;> exact hsame

/-- An upgrade whose migration does not overflow counts if it succeeds. -/
theorem checkedUpgrade_cases (json : StateJson) (hload : WasmRuleMethods.load wasmPath = .ok next)
    (hmigrate : actor.state.checkedMigrateToSchema next.requiredSchema =
      some (actor.state.migrateToSchema next.requiredSchema)) :
    (∃ err, (upgrade json actor wasmPath).1 = .error err ∧
      checkedUpgrade json actor wasmPath = some (upgrade json actor wasmPath)) ∨
    (∃ report, (upgrade json actor wasmPath).1 = .ok report ∧
      checkedUpgrade json actor wasmPath = (checkedSucc actor.state.upgrades).map
        fun _ => upgrade json actor wasmPath) := by
  have hschema := requiredSchema_validate json actor next
  rw [checkedUpgrade, upgrade, hload]
  dsimp only
  rw [checkedValidate_eq_some hmigrate]
  rcases hvalidate : validate json actor next with ⟨err | _, next'⟩
  · exact .inl ⟨err, rfl, rfl⟩
  · rw [hvalidate] at hschema
    dsimp only at hschema ⊢
    simp only [Option.bind_eq_bind, Option.bind_some, hschema, hmigrate]
    have hupgrades := State.upgrades_migrateToSchema actor.state next.requiredSchema
    rcases hmigrated : actor.state.migrateToSchema next.requiredSchema with ⟨err | _, state⟩
    · exact .inl ⟨err, rfl, rfl⟩
    · rw [hmigrated] at hupgrades
      dsimp only at hupgrades
      refine .inr ⟨_, rfl, ?_⟩
      simp only [State.checkedRecordUpgrade_eq, hupgrades]
      rcases checkedSucc actor.state.upgrades with - | upgrades <;> rfl

/-- **An upgrade** panics exactly if it counts and there is no next number. -/
theorem checkedUpgrade_spec (json : StateJson) (actor : HotUpgradeActor C)
    (wasmPath : WasmFile C) :
    ((Counts json actor wasmPath → actor.state.upgrades.toNat + 1 < 2 ^ 64) ∧
      checkedUpgrade json actor wasmPath = some (upgrade json actor wasmPath)) ∨
    (¬ (Counts json actor wasmPath → actor.state.upgrades.toNat + 1 < 2 ^ 64) ∧
      checkedUpgrade json actor wasmPath = none) := by
  rcases hload : WasmRuleMethods.load wasmPath with err | next
  · refine .inl ⟨?_, by rw [checkedUpgrade, upgrade, hload]⟩
    rintro ⟨next, hnext, -⟩
    cases hload.symm.trans hnext
  by_cases hfull : actor.state.upgrades.toNat + 1 < 2 ^ 64
  · have hsucc : checkedSucc actor.state.upgrades = some (actor.state.upgrades + 1) := if_pos hfull
    refine .inl ⟨fun _ => hfull, ?_⟩
    rcases checkedUpgrade_cases json hload
      (State.checkedMigrateToSchema_eq_some fun _ => hfull) with ⟨_, -, hrun⟩ | ⟨_, -, hrun⟩
    · exact hrun
    · rw [hrun, hsucc]
      rfl
  by_cases hmigrates : actor.state.Migrates next.requiredSchema
  · refine .inr ⟨fun h => hfull (h ⟨next, hload, .inl hmigrates⟩), ?_⟩
    rw [checkedUpgrade, hload]
    dsimp only
    rw [checkedValidate, State.checkedMigrateToSchema_eq_none hmigrates hfull]
    rfl
  · have hsucc : checkedSucc actor.state.upgrades = none := if_neg hfull
    rcases checkedUpgrade_cases json hload
      (State.checkedMigrateToSchema_eq_some fun h => absurd h hmigrates) with
      ⟨err, herr, hrun⟩ | ⟨report, hreport, hrun⟩
    · refine .inl ⟨?_, hrun⟩
      rintro ⟨next', hnext', hmigrates' | ⟨report, hreport⟩⟩
      · obtain rfl := Except.ok.inj (hload.symm.trans hnext')
        exact absurd hmigrates' hmigrates
      · cases herr.symm.trans hreport
    · refine .inr ⟨fun h => hfull (h ⟨next, hload, .inr ⟨report, hreport⟩⟩), ?_⟩
      rw [hrun, hsucc]
      rfl

/-! ### Messages -/

/-- **A snapshot** is taken, and tells what it should, exactly if the counters withstand it. -/
theorem snapshot_iff {state : State} (currentRuleVersion : String) :
    (∃ snapshot, state.snapshot currentRuleVersion = some snapshot ∧
      state.Tells (.snapshot (.ok snapshot))) ↔
    state.TotalFits ∧ (state.v2.isSome = true ↔ 2 ≤ state.schemaVersion) := by
  rw [← State.exists_averageScore_iff]
  have hsnapshot : ∀ average, state.averageScore = some average →
      ∃ snapshot, state.snapshot currentRuleVersion = some snapshot ∧
        snapshot.averageScore = average ∧ ((∃ v2, snapshot = .v2 v2) ↔ state.v2.isSome = true) := by
    intro average haverage
    rw [State.snapshot, haverage]
    rcases state.v2 with - | v2
    · exact ⟨_, rfl, rfl, by simp⟩
    · exact ⟨_, rfl, rfl, by simp⟩
  constructor
  · rintro ⟨snapshot, htaken, hvalue, hkind⟩
    rcases haverage : state.averageScore with - | average
    · rw [State.snapshot, haverage] at htaken
      exact nomatch htaken
    · obtain ⟨snapshot', htaken', hvalue', hkind'⟩ := hsnapshot average haverage
      obtain ⟨⟩ := htaken.symm.trans htaken'
      exact ⟨⟨average, rfl, hvalue' ▸ hvalue⟩, hkind'.symm.trans hkind⟩
  · rintro ⟨⟨average, haverage, hvalue⟩, hkind⟩
    obtain ⟨snapshot, htaken, hvalue', hkind'⟩ := hsnapshot average haverage
    exact ⟨snapshot, htaken, hvalue' ▸ hvalue, hkind'.trans hkind⟩

/-- Where the actor does not panic, it answers as in a release build. -/
theorem handle_of_checkedHandle {m : Message C} {answer : Reply × HotUpgradeActor C}
    (h : checkedHandle json actor m = some answer) : handle json actor m = some answer := by
  rcases m with request | wasmPath | sample | -
  · exact h
  · rcases checkedUpgrade_spec json actor wasmPath with
      ⟨-, hrun⟩ | ⟨-, hrun⟩
    · rwa [checkedHandle, hrun] at h
    · rw [checkedHandle, hrun] at h
      exact nomatch h
  · exact h
  · exact h

/-- **One message** is answered as it should exactly if the counters withstand it. -/
theorem checkedHandle_iff (m : Message C) :
    (∃ reply actor', checkedHandle json actor m = some (reply, actor') ∧ actor.state.Tells reply) ↔
      Withstands json actor m := by
  rcases m with request | wasmPath | sample | -
  · exact iff_of_true ⟨_, _, rfl, trivial⟩ trivial
  · rcases checkedUpgrade_spec json actor wasmPath with
      ⟨hcounts, hrun⟩ | ⟨hcounts, hrun⟩
    · refine iff_of_true ⟨.upgradeRule (upgrade json actor wasmPath).1,
        (upgrade json actor wasmPath).2, ?_, trivial⟩ hcounts
      rw [checkedHandle, hrun]
      rfl
    · refine iff_of_false ?_ hcounts
      rintro ⟨reply, actor', hanswer, -⟩
      rw [checkedHandle, hrun] at hanswer
      exact nomatch hanswer
  · exact iff_of_true ⟨_, _, rfl, trivial⟩ trivial
  · refine Iff.trans ?_ (snapshot_iff actor.handler.version)
    constructor
    · rintro ⟨reply, actor', hanswer, htells⟩
      obtain ⟨snapshot, htaken, hreply⟩ := Option.bind_eq_some_iff.mp hanswer
      obtain ⟨rfl, -⟩ := Prod.mk.inj (Option.some.inj hreply)
      exact ⟨snapshot, htaken, htells⟩
    · rintro ⟨snapshot, htaken, htells⟩
      exact ⟨.snapshot (.ok snapshot), actor, Option.bind_eq_some_iff.mpr ⟨snapshot, htaken, rfl⟩,
        htells⟩

theorem checkedHandle_callRule (actor : HotUpgradeActor C) {request : Request}
    {response : Except String Response} {state : State} (hschema : ensureSchema actor = .ok ())
    (h : actor.handler.handle json request actor.state = (response, state, next)) :
    checkedHandle json actor (.callRule request) = some (.callRule response, ⟨state, next⟩) := by
  simp only [checkedHandle, handle, callRule, hschema, h]

theorem checkedHandle_snapshot (h : actor.state.averageScore = none) :
    checkedHandle json actor .snapshot = none := by
  simp only [checkedHandle, handle, State.snapshot, h, Option.bind_eq_bind, Option.bind_none]

/-- **When all messages are answered as they should**: exactly if the counters withstand each of
them, in the state before it. -/
theorem safeRun_iff (json : StateJson) (actor : HotUpgradeActor C) (ms : List (Message C)) :
    SafeRun json actor ms ↔ AllWithstand json actor ms := by
  induction ms generalizing actor with
  | nil => exact Iff.rfl
  | cons m ms ih =>
    constructor
    · rintro ⟨reply, actor', hanswer, htells, hrest⟩
      refine ⟨(checkedHandle_iff m).mp ⟨reply, actor', hanswer, htells⟩, ?_⟩
      intro reply₂ actor₂ hstep
      have hsame := (handle_of_checkedHandle hanswer).symm.trans hstep
      obtain ⟨-, rfl⟩ := Prod.mk.inj (Option.some.inj hsame)
      exact (ih actor').mp hrest
    · rintro ⟨hwithstands, hrest⟩
      obtain ⟨reply, actor', hanswer, htells⟩ := (checkedHandle_iff m).mpr hwithstands
      exact ⟨reply, actor', hanswer, htells,
        (ih actor').mpr (hrest reply actor' (handle_of_checkedHandle hanswer))⟩

end HotUpgradeActor

/-! ### A state that stops the actor -/

/-- The least total, and a count that is `-1` as an `i64`. -/
def overflowingState : State :=
  { firstState with processed := 18446744073709551615, totalScore := Int64.minValue }

/-- What is written and read of the states of the example. -/
def overflowingJson : StateJson where
  toText state := .ok state.text
  fromStr text :=
    if text = overflowingState.text then .ok overflowingState
    else .error "expected value at line 1 column 1"

/-- A component that answers every request with that state. -/
def overflowingComponent : WasmComponent Unit :=
  { echoComponent 1 with
    evaluate := fun _ _ _ _ _ =>
      (.ok ⟨⟨.allow, 10, 101⟩, ⟨serviceStatePath, overflowingState.text⟩⟩, (), []) }

/-- A module of that component. -/
def overflowingFile : WasmFile Unit :=
  ⟨"risk_rule_v1.wasm", some "risk_rule_v1", .ok (), .ok (), .ok overflowingComponent⟩

theorem overflowingJson_fromStr :
    overflowingJson.fromStr overflowingState.text = .ok overflowingState := by
  dsimp only [overflowingJson]
  rw [if_pos rfl]

/-- The rule of that module. -/
def overflowingRule (store : WasmRuleStoreState) : WasmRuleMethods Unit :=
  ⟨"risk_rule_v1", 1, store, (), overflowingComponent⟩

theorem overflowingRule_handle (store : WasmRuleStoreState) (request : Request) :
    ∃ store', (overflowingRule store).handle overflowingJson request firstState =
      (.ok ⟨.allow, "risk_rule_v1", 101, 10⟩, overflowingState, overflowingRule store') := by
  have hsave : overflowingJson.saveComponentState firstState
      ⟨serviceStatePath, overflowingState.text⟩ = (.ok (), overflowingState) := by
    rw [StateJson.saveComponentState, StateJson.stateFromComponent, if_neg (not_not_intro rfl),
      overflowingJson_fromStr]
    rfl
  have hcomponent : overflowingJson.stateToComponent firstState =
      .ok ⟨serviceStatePath, firstState.text⟩ := rfl
  rw [WasmRuleMethods.handle, WasmRuleMethods.evaluate, hcomponent]
  dsimp only [overflowingRule, WasmRuleStoreState.call, overflowingComponent]
  rw [hsave]
  exact ⟨_, rfl⟩

/-- The next snapshot panics. -/
theorem not_safeRun_overflowing : ∃ actor₀, HotUpgradeActor.load overflowingFile = .ok actor₀ ∧
    ¬ HotUpgradeActor.SafeRun overflowingJson actor₀ [.callRule sampleRequest, .snapshot] := by
  have hload : HotUpgradeActor.load overflowingFile =
      .ok ⟨firstState, overflowingRule (echoStore "risk_rule_v1" 1)⟩ := rfl
  refine ⟨_, hload, ?_⟩
  rintro ⟨reply, actor, hcall, -, reply', actor', hsnapshot, -⟩
  obtain ⟨store, hhandle⟩ := overflowingRule_handle (echoStore "risk_rule_v1" 1) sampleRequest
  have hcall' := HotUpgradeActor.checkedHandle_callRule
    ⟨firstState, overflowingRule (echoStore "risk_rule_v1" 1)⟩ rfl hhandle
  obtain ⟨-, rfl⟩ := Prod.mk.inj (Option.some.inj (hcall.symm.trans hcall'))
  have hnone : overflowingState.averageScore = none := by decide
  rw [HotUpgradeActor.checkedHandle_snapshot hnone] at hsnapshot
  exact nomatch hsnapshot

end RustExample.KameoHotUpgrade
