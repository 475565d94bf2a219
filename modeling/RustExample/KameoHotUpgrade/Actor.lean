import RustExample.KameoHotUpgrade.Rule

/-!
# An actor that replaces its component while it runs

The actor answers its messages one after the other: calls of the rule, upgrades of it, inspections
of it and requests for a snapshot. An upgrade tries the new rule on a copy of the state before the
state itself is migrated.

Source: `wasm_workspace_example/kameo_wasmtime_hot_upgrade/src/actor.rs`.

* The state and the rule of an actor are those of a service that replaces its handler. A message
  for an upgrade carries what its path leads to at that time.
* A snapshot whose average overflows has no answer: the thread panics and the actor stops.
-/

namespace RustExample.KameoHotUpgrade

/-! ### The actor -/

/-- The state and the rule of an actor. -/
abbrev HotUpgradeActor (C : Type) : Type := HotState State (WasmRuleMethods C)

/-- The request for which a new rule is tried. -/
def probeRequest : Request := ⟨2, 100, 5, 12⟩

namespace HotUpgradeActor

variable {C : Type} (json : StateJson)

/-- Loads the first rule. -/
def load (initialRule : WasmFile C) : Except String (HotUpgradeActor C) := do
  let ruleMethods ← (WasmRuleMethods.load initialRule).mapError fun err =>
    "failed to load initial wasm rule " ++ initialRule.path ++ ": " ++ err
  let (migrated, state) := State.default.migrateToSchema ruleMethods.requiredSchema
  migrated
  return ⟨state, ruleMethods⟩

/-- Tries a rule on a copy of the state. -/
def validate (actor : HotUpgradeActor C) (next : WasmRuleMethods C) :
    Except String Unit × WasmRuleMethods C :=
  match actor.state.migrateToSchema next.requiredSchema with
  | (.error err, _) => (.error err, next)
  | (.ok (), shadow) =>
    match next.handle json probeRequest shadow with
    | (.error err, _, next) => (.error err, next)
    | (.ok response, _, next) =>
      if HotUpgrade.isBlank response.ruleVersion then
        (.error "new wasm rule returned an empty version", next)
      else (.ok (), next)

/-- Exchanges the rule, if it is valid. -/
def upgrade (actor : HotUpgradeActor C) (wasmPath : WasmFile C) :
    Except String String × HotUpgradeActor C :=
  let oldVersion := actor.handler.version
  match WasmRuleMethods.load wasmPath with
  | .error err => (.error err, actor)
  | .ok next =>
    match validate json actor next with
    | (.error err, _) => (.error err, actor)
    | (.ok (), next) =>
      match actor.state.migrateToSchema next.requiredSchema with
      | (.error err, state) => (.error err, ⟨state, actor.handler⟩)
      | (.ok (), state) =>
        (.ok ("upgrade " ++ oldVersion ++ " -> " ++ next.version), ⟨state.recordUpgrade, next⟩)

end HotUpgradeActor

/-! ### Messages -/

/-- The messages to the actor. -/
inductive Message (C : Type) where
  | callRule (request : Request)
  | upgradeRule (wasmPath : WasmFile C)
  | inspectRule (sample : Request)
  | snapshot

/-- Its replies. -/
inductive Reply where
  | callRule (response : Except String Response)
  | upgradeRule (report : Except String String)
  | inspectRule (inspection : Except String RuleInspection)
  | snapshot (snapshot : Except String ServiceSnapshot)

/-- A message is answered with an error. -/
def Reply.IsErr : Reply → Prop
  | .callRule response => ∃ err, response = .error err
  | .upgradeRule report => ∃ err, report = .error err
  | .inspectRule inspection => ∃ err, inspection = .error err
  | .snapshot taken => ∃ err, taken = .error err

namespace HotUpgradeActor

variable {C : Type} (json : StateJson)

/-- What keeps a call from being evaluated. -/
def ensureSchema (actor : HotUpgradeActor C) : Except String Unit :=
  actor.state.ensureSchema actor.handler.version actor.handler.requiredSchema

/-- Lets the rule decide. -/
def callRule (actor : HotUpgradeActor C) (request : Request) :
    Except String Response × HotUpgradeActor C :=
  match ensureSchema actor with
  | .error err => (.error err, actor)
  | .ok () =>
    let (response, state, ruleMethods) := actor.handler.handle json request actor.state
    (response, ⟨state, ruleMethods⟩)

/-- Inspects the rule. -/
def inspectRule (actor : HotUpgradeActor C) (sample : Request) :
    Except String RuleInspection × HotUpgradeActor C :=
  let (inspection, ruleMethods) := actor.handler.inspect json sample actor.state
  (inspection, ⟨actor.state, ruleMethods⟩)

/-- Answers a message. -/
def handle (actor : HotUpgradeActor C) : Message C → Option (Reply × HotUpgradeActor C)
  | .callRule request =>
    let (response, actor) := callRule json actor request
    some (.callRule response, actor)
  | .upgradeRule wasmPath =>
    let (report, actor) := upgrade json actor wasmPath
    some (.upgradeRule report, actor)
  | .inspectRule sample =>
    let (inspection, actor) := inspectRule json actor sample
    some (.inspectRule inspection, actor)
  | .snapshot => do
    let snapshot ← actor.state.snapshot actor.handler.version
    return (.snapshot (.ok snapshot), actor)

/-- One message and its reply. -/
def Step (actor : HotUpgradeActor C) (e : Message C × Reply) (actor' : HotUpgradeActor C) : Prop :=
  handle json actor e.1 = some (e.2, actor')

/-! ### The actor as a service that replaces its handler -/

/-- The rules of the actor as the handlers of such a service. -/
def swap (C : Type) :
    HotSwap (WasmRuleMethods C) State Request Response String String (WasmFile C) where
  load := WasmRuleMethods.load
  migrate rule state := state.migrateToSchema rule.requiredSchema
  handle rule state request := rule.handle json request state
  probe := probeRequest
  check response :=
    if HotUpgrade.isBlank response.ruleVersion then .error "new wasm rule returned an empty version"
    else .ok ()
  upgraded := State.recordUpgrade
  report old next := "upgrade " ++ old.version ++ " -> " ++ next.version

/-- A state on which a rule works. -/
def Fits (rule : WasmRuleMethods C) (state : State) : Prop :=
  state.schemaVersion = rule.requiredSchema

theorem swap_lawful : (swap json C).Lawful Fits where
  migrate_ok h := State.migrateToSchema_ok h
  migrate_handle {rule state request res state' rule'} h := by
    funext state
    exact congrArg state.migrateToSchema (WasmRuleMethods.handle_same json h).requiredSchema
  fits_handle {rule state request res state' rule'} h hfits := by
    obtain ⟨res, state', rule', hhandle, hsame, hcases⟩ := rule.handle_cases json request state
    obtain ⟨rfl, h'⟩ := Prod.mk.inj (hhandle.symm.trans h)
    obtain ⟨⟩ := h'
    rcases hcases with ⟨err, -, rfl⟩ | ⟨response, -, hversion⟩
    · exact hfits.trans hsame.requiredSchema.symm
    · exact hversion.trans hsame.requiredSchema.symm
  fits_upgraded h := h

theorem validate_eq (actor : HotUpgradeActor C) (next : WasmRuleMethods C) :
    validate json actor next = (swap json C).validate actor.state next := by
  rw [validate, HotSwap.validate]
  dsimp only [swap]
  rcases actor.state.migrateToSchema next.requiredSchema with ⟨err | _, shadow⟩
  · rfl
  · dsimp only
    rcases next.handle json probeRequest shadow with ⟨err | response, state, next'⟩
    · rfl
    · dsimp only
      split_ifs
      · rfl
      · rfl

theorem upgrade_eq (actor : HotUpgradeActor C) (wasmPath : WasmFile C) :
    upgrade json actor wasmPath = (swap json C).upgrade actor wasmPath := by
  have hload : WasmRuleMethods.load wasmPath = (swap json C).load wasmPath := rfl
  rw [upgrade, HotSwap.upgrade, hload]
  simp only [validate_eq]
  rcases (swap json C).load wasmPath with err | next
  · rfl
  · dsimp only
    rcases (swap json C).validate actor.state next with ⟨err | _, next⟩
    · rfl
    · dsimp only [swap]
      rcases actor.state.migrateToSchema next.requiredSchema with ⟨err | _, state⟩
      · rfl
      · rfl

variable {actor : HotUpgradeActor C}

theorem upgrade_error {actor' : HotUpgradeActor C} {wasmPath : WasmFile C} {err : String}
    (h : upgrade json actor wasmPath = (.error err, actor')) : actor' = actor := by
  rw [upgrade_eq] at h
  exact (swap_lawful json).upgrade_error h

theorem fits_upgrade (hfits : Fits actor.handler actor.state) (wasmPath : WasmFile C) :
    Fits (upgrade json actor wasmPath).2.handler (upgrade json actor wasmPath).2.state := by
  rw [upgrade_eq]
  rcases (swap_lawful json).upgrade_cases actor wasmPath with ⟨err, hfail⟩ |
    ⟨next, state, hmigrate, hok⟩
  · rwa [hfail]
  · rw [hok]
    exact (swap_lawful json).fits_upgraded ((swap_lawful json).migrate_ok hmigrate)

/-! ### What a message keeps -/

/-- An actor that loads has a state of the schema of its rule. -/
theorem fits_load {initialRule : WasmFile C} (h : load initialRule = .ok actor) :
    Fits actor.handler actor.state := by
  rw [load] at h
  rcases hload : WasmRuleMethods.load initialRule with err | rule
  · simp [hload, Except.mapError, bind, Except.bind] at h
  · rcases hmigrate : State.default.migrateToSchema rule.requiredSchema with ⟨err | _, state⟩
    · simp [hload, hmigrate, Except.mapError, bind, Except.bind] at h
    · obtain rfl : _ = actor := by
        simpa [hload, hmigrate, Except.mapError, bind, Except.bind, pure, Except.pure] using h
      exact State.migrateToSchema_ok hmigrate

/-- A call reaches its rule if the state has the schema of the rule. -/
theorem ensureSchema_eq_ok_iff :
    ensureSchema actor = .ok () ↔ Fits actor.handler actor.state :=
  State.ensureSchema_eq_ok_iff

/-- What a message leaves when it fails. -/
structure Unchanged (actor actor' : HotUpgradeActor C) : Prop where
  state : actor'.state = actor.state
  rule : actor.handler.Same actor'.handler

/-- **What one message does.** -/
structure Answered (actor : HotUpgradeActor C) (m : Message C) (reply : Reply)
    (actor' : HotUpgradeActor C) : Prop where
  fits : Fits actor'.handler actor'.state
  unchanged_of_isErr : reply.IsErr → Unchanged actor actor'
  state_of_inspectRule : ∀ sample, m = .inspectRule sample → actor'.state = actor.state

variable {actor actor' : HotUpgradeActor C}

theorem answered_callRule (hfits : Fits actor.handler actor.state) (request : Request) :
    Answered actor (.callRule request) (.callRule (callRule json actor request).1)
      (callRule json actor request).2 := by
  rw [callRule, ensureSchema_eq_ok_iff.mpr hfits]
  dsimp only
  obtain ⟨res, state, rule, hhandle, hsame, hcases⟩ :=
    actor.handler.handle_cases json request actor.state
  rw [hhandle]
  rcases hcases with ⟨err, rfl, rfl⟩ | ⟨response, rfl, hversion⟩
  · exact ⟨hfits.trans hsame.requiredSchema.symm, fun _ => ⟨rfl, hsame⟩, fun _ => nofun⟩
  · exact ⟨hversion.trans hsame.requiredSchema.symm, nofun, fun _ => nofun⟩

theorem answered_upgradeRule (hfits : Fits actor.handler actor.state) (wasmPath : WasmFile C) :
    Answered actor (.upgradeRule wasmPath) (.upgradeRule (upgrade json actor wasmPath).1)
      (upgrade json actor wasmPath).2 := by
  refine ⟨fits_upgrade json hfits wasmPath, ?_, fun _ => nofun⟩
  rintro ⟨err, herr⟩
  have hsame : (upgrade json actor wasmPath).2 = actor := upgrade_error json (Prod.ext herr rfl)
  rw [hsame]
  exact ⟨rfl, .refl _⟩

theorem answered_inspectRule (hfits : Fits actor.handler actor.state) (sample : Request) :
    Answered actor (.inspectRule sample) (.inspectRule (inspectRule json actor sample).1)
      (inspectRule json actor sample).2 := by
  have hsame := actor.handler.inspect_same json sample actor.state
  exact ⟨hfits.trans hsame.requiredSchema.symm, fun _ => ⟨rfl, hsame⟩, fun _ _ => rfl⟩

theorem Step.answered (hfits : Fits actor.handler actor.state) {m : Message C} {reply : Reply}
    (h : Step json actor (m, reply) actor') : Answered actor m reply actor' := by
  cases m with
  | callRule request =>
    obtain ⟨⟩ := h
    exact answered_callRule json hfits request
  | upgradeRule wasmPath =>
    obtain ⟨⟩ := h
    exact answered_upgradeRule json hfits wasmPath
  | inspectRule sample =>
    obtain ⟨⟩ := h
    exact answered_inspectRule json hfits sample
  | snapshot =>
    obtain ⟨snapshot, -, hsnapshot⟩ := Option.bind_eq_some_iff.mp h
    obtain ⟨⟩ := hsnapshot
    exact ⟨hfits, nofun, fun _ => nofun⟩

theorem fits_of_run {actor₀ : HotUpgradeActor C} (h₀ : Fits actor₀.handler actor₀.state)
    {es : List (Message C × Reply)} (run : Run (Step json) actor₀ es actor) :
    Fits actor.handler actor.state :=
  run.invariant (P := fun actor => Fits actor.handler actor.state) h₀
    fun _ _ _ hfits hstep => (Step.answered json hfits hstep).fits

end HotUpgradeActor

/-- **Messages are atomic.** In every state reached the schema is the rule's, so that a call is
evaluated. A failing message leaves the state, the version and the schema of the rule, and an
inspection leaves the state. -/
theorem messages_atomic {C : Type} (json : StateJson) {initialRule : WasmFile C}
    {actor₀ actor : HotUpgradeActor C} {es : List (Message C × Reply)}
    (hload : HotUpgradeActor.load initialRule = .ok actor₀)
    (run : Run (HotUpgradeActor.Step json) actor₀ es actor) :
    actor.state.schemaVersion = actor.handler.requiredSchema ∧
      HotUpgradeActor.ensureSchema actor = .ok () ∧
      ∀ m reply actor', HotUpgradeActor.Step json actor (m, reply) actor' →
        (reply.IsErr → actor'.state = actor.state ∧
          actor'.handler.version = actor.handler.version ∧
          actor'.handler.requiredSchema = actor.handler.requiredSchema) ∧
        ∀ sample, m = .inspectRule sample → actor'.state = actor.state := by
  have hfits : HotUpgradeActor.Fits actor.handler actor.state :=
    HotUpgradeActor.fits_of_run json (HotUpgradeActor.fits_load hload) run
  refine ⟨hfits, HotUpgradeActor.ensureSchema_eq_ok_iff.mpr hfits, fun m reply actor' hstep => ?_⟩
  have hanswered := HotUpgradeActor.Step.answered json hfits hstep
  refine ⟨fun herr => ?_, hanswered.state_of_inspectRule⟩
  obtain ⟨hstate, hversion, hschema⟩ := hanswered.unchanged_of_isErr herr
  exact ⟨hstate, hversion, hschema⟩

/-! ### An example -/

section Example

/-- The JSON of a decision. -/
def Decision.text : Decision → String
  | .allow => "allow"
  | .review => "review"
  | .allowFastLane => "allow-fast-lane"

/-- The JSON of the statistics. -/
def StateV2Stats.text (v2 : StateV2Stats) : String :=
  "\x7b\"migration_generation\":" ++ toString v2.migrationGeneration ++
    ",\"legacy_processed_at_migration\":" ++ toString v2.legacyProcessedAtMigration ++
    ",\"fast_lane_amount\":" ++ toString v2.fastLaneAmount ++
    ",\"reviewed_amount\":" ++ toString v2.reviewedAmount ++
    ",\"largest_amount\":" ++ toString v2.largestAmount ++
    ",\"high_risk_requests\":" ++ toString v2.highRiskRequests ++
    ",\"late_night_reviews\":" ++ toString v2.lateNightReviews ++
    ",\"last_decision\":\"" ++ v2.lastDecision.text ++
    "\",\"last_policy_id\":" ++ toString v2.lastPolicyId ++ "\x7d"

/-- The JSON of a state. -/
def State.text (state : State) : String :=
  "\x7b\"processed\":" ++ toString state.processed ++
    ",\"schema_version\":" ++ toString state.schemaVersion ++
    ",\"allow_count\":" ++ toString state.allowCount ++
    ",\"review_count\":" ++ toString state.reviewCount ++
    ",\"fast_lane_hits\":" ++ toString state.fastLaneHits ++
    ",\"upgrades\":" ++ toString state.upgrades ++
    ",\"last_score\":" ++ toString state.lastScore ++
    ",\"total_score\":" ++ toString state.totalScore ++
    ",\"v2\":" ++ state.v2.elim "null" StateV2Stats.text ++ "\x7d"

/-- The state that starts, of the first schema and of the second. -/
def firstState : State := { State.default with schemaVersion := 1 }

def secondState : State := (firstState.migrateToSchema 2).2

/-- What is written and read of the states of the example. -/
def exampleJson : StateJson where
  toText state := .ok state.text
  fromStr text :=
    if text = firstState.text then .ok firstState
    else if text = secondState.text then .ok secondState
    else .error "expected value at line 1 column 1"

/-- A component that allows every request and hands back the state it is handed. -/
def echoComponent (requiredSchema : UInt32) : WasmComponent Unit where
  linked := .ok ()
  instantiate := (.ok (), [])
  metadata _ _ _ := (.ok ⟨requiredSchema, 101, 1, 80, 0⟩, (), [.methodEnter "metadata" 101])
  evaluate _ state _ _ _ := (.ok ⟨⟨.allow, 10, 101⟩, state⟩, (), [.recordLastScore 10])

/-- A module that answers what it is given. -/
def echoFile (fileStem : String) (requiredSchema : UInt32) : WasmFile Unit :=
  ⟨fileStem ++ ".wasm", some fileStem, .ok (), .ok (), .ok (echoComponent requiredSchema)⟩

/-- The rule of that module. -/
def echoRule (version : String) (requiredSchema : UInt32) (store : WasmRuleStoreState) :
    WasmRuleMethods Unit :=
  ⟨version, requiredSchema, store, (), echoComponent requiredSchema⟩

/-- What the host has noted when the component is loaded. -/
def echoStore (version : String) (requiredSchema : UInt32) : WasmRuleStoreState :=
  ((WasmRuleStoreState.new version (version ++ ".wasm")).host
    (.methodEnter "metadata" 101)).metadataLoaded ⟨version, requiredSchema, 101, 1, 80, 0⟩

def sampleRequest : Request := ⟨1, 100, 5, 12⟩

/-- A call, an upgrade whose migration stops half-way, and one that succeeds. -/
def echoMessages : List (Message Unit × Reply) :=
  [(.callRule sampleRequest, .callRule (.ok ⟨.allow, "risk_rule_v1", 101, 10⟩)),
    (.upgradeRule (echoFile "risk_rule_v3" 3),
      .upgradeRule (.error "missing migrator for state schema 2 -> 3")),
    (.upgradeRule (echoFile "risk_rule_v2" 2),
      .upgradeRule (.ok "upgrade risk_rule_v1 -> risk_rule_v2"))]

variable {json : StateJson}

/-- The component answers if the state can be written and read. -/
theorem echoRule_handle {state : State} {text : String} (hto : json.toText state = .ok text)
    (hfrom : json.fromStr text = .ok state) (version : String) (store : WasmRuleStoreState)
    (request : Request) :
    ∃ store', (echoRule version state.schemaVersion store).handle json request state =
      (.ok ⟨.allow, version, 101, 10⟩, state, echoRule version state.schemaVersion store') := by
  have hcomponent : json.stateToComponent state = .ok ⟨serviceStatePath, text⟩ := by
    rw [StateJson.stateToComponent, hto]
    rfl
  have hsave : json.saveComponentState state ⟨serviceStatePath, text⟩ = (.ok (), state) := by
    rw [StateJson.saveComponentState, StateJson.stateFromComponent, if_neg (not_not_intro rfl),
      hfrom]
    rfl
  have hensure : state.ensureSchema version state.schemaVersion = .ok () :=
    State.ensureSchema_eq_ok_iff.mpr rfl
  rw [WasmRuleMethods.handle, WasmRuleMethods.evaluate, hcomponent]
  dsimp only [echoRule, WasmRuleStoreState.call, echoComponent]
  rw [hsave]
  dsimp only
  rw [hensure]
  exact ⟨_, rfl⟩

theorem firstState_migrateToSchema : firstState.migrateToSchema 3 =
    (.error "missing migrator for state schema 2 -> 3", secondState) := by
  decide +kernel

theorem echoMessages_run {first second : String} (hfirst : json.toText firstState = .ok first)
    (hfirst' : json.fromStr first = .ok firstState)
    (hsecond : json.toText secondState = .ok second)
    (hsecond' : json.fromStr second = .ok secondState) :
    ∃ actor₀ actor, HotUpgradeActor.load (echoFile "risk_rule_v1" 1) = .ok actor₀ ∧
      Run (HotUpgradeActor.Step json) actor₀ echoMessages actor := by
  obtain ⟨store₁, hcall⟩ := echoRule_handle hfirst hfirst' "risk_rule_v1"
    (echoStore "risk_rule_v1" 1) sampleRequest
  obtain ⟨store₂, hprobe⟩ := echoRule_handle hsecond hsecond' "risk_rule_v2"
    (echoStore "risk_rule_v2" 2) probeRequest
  let actor : HotUpgradeActor Unit := ⟨firstState, echoRule "risk_rule_v1" 1 store₁⟩
  let next : WasmRuleMethods Unit := echoRule "risk_rule_v2" 2 (echoStore "risk_rule_v2" 2)
  have hload : WasmRuleMethods.load (echoFile "risk_rule_v2" 2) = .ok next := rfl
  have hmigrate : actor.state.migrateToSchema next.requiredSchema = (.ok (), secondState) := rfl
  have hvalidate : HotUpgradeActor.validate json actor next =
      (.ok (), echoRule "risk_rule_v2" 2 store₂) := by
    have hhandle : next.handle json probeRequest secondState = _ := hprobe
    rw [HotUpgradeActor.validate, hmigrate]
    dsimp only
    rw [hhandle]
    rfl
  have called : HotUpgradeActor.Step json
      ⟨firstState, echoRule "risk_rule_v1" 1 (echoStore "risk_rule_v1" 1)⟩
      (.callRule sampleRequest, .callRule (.ok ⟨.allow, "risk_rule_v1", 101, 10⟩)) actor :=
    congrArg (fun r : Except String Response × State × WasmRuleMethods Unit =>
      some (Reply.callRule r.1, (⟨r.2.1, r.2.2⟩ : HotUpgradeActor Unit))) hcall
  have refused : HotUpgradeActor.Step json actor
      (.upgradeRule (echoFile "risk_rule_v3" 3),
        .upgradeRule (.error "missing migrator for state schema 2 -> 3")) actor := by
    have hload : WasmRuleMethods.load (echoFile "risk_rule_v3" 3) =
      .ok (echoRule "risk_rule_v3" 3 (echoStore "risk_rule_v3" 3)) := rfl
    have hmissing : actor.state.migrateToSchema
        (echoRule "risk_rule_v3" 3 (echoStore "risk_rule_v3" 3)).requiredSchema = _ :=
      firstState_migrateToSchema
    rw [HotUpgradeActor.Step, HotUpgradeActor.handle, HotUpgradeActor.upgrade, hload]
    dsimp only
    rw [HotUpgradeActor.validate, hmissing]
  have upgraded : HotUpgradeActor.Step json actor
      (.upgradeRule (echoFile "risk_rule_v2" 2),
        .upgradeRule (.ok "upgrade risk_rule_v1 -> risk_rule_v2"))
      ⟨secondState.recordUpgrade, echoRule "risk_rule_v2" 2 store₂⟩ := by
    rw [HotUpgradeActor.Step, HotUpgradeActor.handle, HotUpgradeActor.upgrade, hload]
    dsimp only
    rw [hvalidate]
    rfl
  exact ⟨_, _, rfl, .cons called <| .cons refused <| .cons upgraded .nil⟩

theorem exampleJson_fromStr :
    exampleJson.fromStr firstState.text = .ok firstState ∧
      exampleJson.fromStr secondState.text = .ok secondState := by
  have hne : secondState.text ≠ firstState.text := by decide +kernel
  dsimp only [exampleJson]
  rw [if_pos rfl, if_neg hne, if_pos rfl]
  exact ⟨rfl, rfl⟩

/-- The state and the rule after the messages of the example. -/
theorem messages_atomic_echo : ∃ actor₀ actor,
    HotUpgradeActor.load (echoFile "risk_rule_v1" 1) = .ok actor₀ ∧
    Run (HotUpgradeActor.Step exampleJson) actor₀ echoMessages actor ∧
      actor.state.schemaVersion = actor.handler.requiredSchema := by
  obtain ⟨actor₀, actor, hload, run⟩ :=
    echoMessages_run rfl exampleJson_fromStr.1 rfl exampleJson_fromStr.2
  exact ⟨actor₀, actor, hload, run, (messages_atomic exampleJson hload run).1⟩

end Example

end RustExample.KameoHotUpgrade
