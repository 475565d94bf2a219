import RustExample.KameoHotUpgrade.State

/-!
# Rules that are components

A component of WebAssembly tells what schema it requires, and evaluates a request together with the
text of a state, for which it hands back a decision and the text of the next state. It is not
trusted: it may trap and it may hand back anything.

Source: `wasm_workspace_example/kameo_wasmtime_hot_upgrade/src/wasm_rule.rs`, `wit/risk_rule.wit`.

* A component is what `wasmtime` makes of its file: its exports act on an instance of any kind, so
  that they may answer each call differently. An export may read what the host has loaded and how
  often it has evaluated, neither of which changes while it runs, and calls the host, which notes
  the calls in their order.
* What comes after the errors of the standard library and of `wasmtime` is their own text.
-/

namespace RustExample.KameoHotUpgrade

/-! ### Components -/

/-- A call of a component to its host. -/
inductive HostCall where
  | methodEnter (method : String) (policyId : Int32)
  | recordLastScore (score : Int32)

/-- What a component tells of itself. -/
structure ComponentMetadata where
  requiredSchema : UInt32
  policyId : Int32
  dependencyMarker : Int32
  reviewThreshold : Int32
  fastLaneLimit : Int64

/-- A decision with its score. -/
structure Evaluation where
  decision : Decision
  riskScore : Int32
  policyId : Int32

/-- A decision and a state. -/
structure EvaluateResult where
  evaluation : Evaluation
  state : ComponentState

/-- What an instance answers, for the schema that is loaded and the number of evaluations. -/
def Export (C α : Type) : Type := C → UInt32 → UInt64 → Except String α × C × List HostCall

/-- A compiled component. -/
structure WasmComponent (C : Type) where
  linked : Except String Unit
  instantiate : Except String C × List HostCall
  metadata : Export C ComponentMetadata
  evaluate : Request → ComponentState → Export C EvaluateResult

/-- A component file, as it is found. -/
structure WasmFile (C : Type) where
  path : String
  fileStem : Option String
  read : Except String Unit
  validated : Except String Unit
  component : Except String (WasmComponent C)

/-! ### The host -/

/-- What the host knows of a rule. -/
structure WasmRuleStoreState where
  version : String
  componentPath : String
  loadedMetadata : RuleMetadata
  hostMethodEntries : UInt64
  lastHostMethod : Option String
  lastHostPolicyId : Option Int32
  metadataCalls : UInt64
  evaluateCalls : UInt64
  lastRequest : Option Request
  lastResponse : Option Response
  lastScore : Option Int32

namespace WasmRuleStoreState

/-- Nothing was called yet. -/
def new (version componentPath : String) : WasmRuleStoreState where
  version := version
  componentPath := componentPath
  loadedMetadata := ⟨version, 0, 0, 0, 0, 0⟩
  hostMethodEntries := 0
  lastHostMethod := none
  lastHostPolicyId := none
  metadataCalls := 0
  evaluateCalls := 0
  lastRequest := none
  lastResponse := none
  lastScore := none

/-- Notes a call of the host. -/
def host (data : WasmRuleStoreState) : HostCall → WasmRuleStoreState
  | .methodEnter method policyId =>
    { data with
      hostMethodEntries := data.hostMethodEntries + 1
      lastHostMethod := some method
      lastHostPolicyId := some policyId }
  | .recordLastScore score => { data with lastScore := some score }

/-- An export runs on an instance. -/
def call {C α : Type} (data : WasmRuleStoreState) (instance_ : C) (run : Export C α) :
    Except String α × C × WasmRuleStoreState :=
  let (result, instance_, calls) :=
    run instance_ data.loadedMetadata.requiredSchema data.evaluateCalls
  (result, instance_, calls.foldl host data)

/-- Notes the metadata. -/
def metadataLoaded (data : WasmRuleStoreState) (metadata : RuleMetadata) : WasmRuleStoreState :=
  { data with metadataCalls := data.metadataCalls + 1, loadedMetadata := metadata }

/-- Notes an evaluation. -/
def evaluated (data : WasmRuleStoreState) (request : Request) : WasmRuleStoreState :=
  { data with evaluateCalls := data.evaluateCalls + 1, lastRequest := some request }

/-- What is shown of a rule. -/
def runtimeSnapshot (data : WasmRuleStoreState) : RuleRuntimeSnapshot where
  version := data.version
  componentPath := data.componentPath
  loadedRequiredSchema := data.loadedMetadata.requiredSchema
  hostMethodEntries := data.hostMethodEntries
  lastHostMethod := data.lastHostMethod
  lastHostPolicyId := data.lastHostPolicyId
  metadataCalls := data.metadataCalls
  evaluateCalls := data.evaluateCalls
  lastRequest := data.lastRequest
  lastResponse := data.lastResponse
  lastScore := data.lastScore

end WasmRuleStoreState

/-- The metadata with a version. -/
def ComponentMetadata.ofVersion (metadata : ComponentMetadata) (version : String) :
    RuleMetadata where
  version := version
  requiredSchema := metadata.requiredSchema
  policyId := metadata.policyId
  dependencyMarker := metadata.dependencyMarker
  reviewThreshold := metadata.reviewThreshold
  fastLaneLimit := metadata.fastLaneLimit

/-! ### Rules -/

/-- An instance of a component. -/
structure WasmRuleMethods (C : Type) where
  version : String
  requiredSchema : UInt32
  store : WasmRuleStoreState
  instance_ : C
  component : WasmComponent C

namespace WasmRuleMethods

variable {C : Type} (json : StateJson)

/-- Loads a component. -/
def load (file : WasmFile C) : Except String (WasmRuleMethods C) := do
  file.read.mapError fun err => "failed to read wasm component " ++ file.path ++ ": " ++ err
  file.validated.mapError fun err => "invalid wasm component " ++ file.path ++ ": " ++ err
  let component ← file.component.mapError fun err =>
    "failed to load wasm component " ++ file.path ++ ": " ++ err
  let version := file.fileStem.getD "unknown"
  component.linked
  let instance_ ← component.instantiate.1.mapError fun err =>
    "failed to instantiate wasm component " ++ file.path ++ ": " ++ err
  let store := component.instantiate.2.foldl WasmRuleStoreState.host (.new version file.path)
  let (metadata, instance_, store) := store.call instance_ component.metadata
  let metadata ← metadata
  if metadata.requiredSchema < 1 then
    throw ("wasm module " ++ file.path ++ " returned invalid schema " ++
      toString metadata.requiredSchema)
  return ⟨version, metadata.requiredSchema, store.metadataLoaded (metadata.ofVersion version),
    instance_, component⟩

/-- Asks for the metadata. -/
def metadata (rule : WasmRuleMethods C) : Except String RuleMetadata × WasmRuleMethods C :=
  match rule.store.call rule.instance_ rule.component.metadata with
  | (.error trap, instance_, store) => (.error trap, { rule with store, instance_ })
  | (.ok metadata, instance_, store) =>
    let metadata := metadata.ofVersion rule.version
    (.ok metadata, { rule with store := store.metadataLoaded metadata, instance_ })

/-- Lets the component evaluate. -/
def evaluate (rule : WasmRuleMethods C) (request : Request) (state : State) :
    Except String EvaluateResult × WasmRuleMethods C :=
  match json.stateToComponent state with
  | .error err => (.error err, rule)
  | .ok componentState =>
    match rule.store.call rule.instance_ (rule.component.evaluate request componentState) with
    | (.error trap, instance_, store) => (.error trap, { rule with store, instance_ })
    | (.ok result, instance_, store) =>
      (.ok result, { rule with store := store.evaluated request, instance_ })

/-- Evaluates and saves the state. -/
def handle (rule : WasmRuleMethods C) (request : Request) (state : State) :
    Except String Response × State × WasmRuleMethods C :=
  match rule.evaluate json request state with
  | (.error err, rule) => (.error err, state, rule)
  | (.ok result, rule) =>
    match json.saveComponentState state result.state with
    | (.error err, _) => (.error err, state, rule)
    | (.ok (), updatedState) =>
      match updatedState.ensureSchema rule.version rule.requiredSchema with
      | .error err => (.error err, state, rule)
      | .ok () =>
        let response : Response :=
          { decision := result.evaluation.decision
            ruleVersion := rule.version
            policyId := result.evaluation.policyId
            riskScore := result.evaluation.riskScore }
        (.ok response, updatedState,
          { rule with store := { rule.store with lastResponse := some response } })

/-- Evaluates a sample. -/
def inspect (rule : WasmRuleMethods C) (request : Request) (state : State) :
    Except String RuleInspection × WasmRuleMethods C :=
  match rule.metadata with
  | (.error err, rule) => (.error err, rule)
  | (.ok metadata, rule) =>
    match rule.handle json request state with
    | (.error err, _, rule) => (.error err, rule)
    | (.ok sampleResponse, _, rule) =>
      (.ok ⟨metadata, request, sampleResponse.riskScore, rule.store.runtimeSnapshot⟩, rule)

/-! ### What a rule keeps -/

/-- A rule that has run is the same rule. -/
structure Same (rule rule' : WasmRuleMethods C) : Prop where
  version : rule'.version = rule.version
  requiredSchema : rule'.requiredSchema = rule.requiredSchema

variable {rule rule' : WasmRuleMethods C} {request : Request} {state state' : State}

theorem Same.refl (rule : WasmRuleMethods C) : Same rule rule := ⟨rfl, rfl⟩

theorem Same.trans {rule'' : WasmRuleMethods C} (h : Same rule rule') (h' : Same rule' rule'') :
    Same rule rule'' :=
  ⟨h'.version.trans h.version, h'.requiredSchema.trans h.requiredSchema⟩

theorem metadata_same (rule : WasmRuleMethods C) : Same rule rule.metadata.2 := by
  rw [metadata]
  split
  · exact ⟨rfl, rfl⟩
  · exact ⟨rfl, rfl⟩

theorem evaluate_same (rule : WasmRuleMethods C) (request : Request) (state : State) :
    Same rule (rule.evaluate json request state).2 := by
  rw [evaluate]
  split
  · exact Same.refl rule
  · split
    · exact ⟨rfl, rfl⟩
    · exact ⟨rfl, rfl⟩

/-- **A request fails and the state stays**, or the next state has the schema of the rule. -/
theorem handle_cases (rule : WasmRuleMethods C) (request : Request) (state : State) :
    ∃ res state' rule', rule.handle json request state = (res, state', rule') ∧ Same rule rule' ∧
      ((∃ err, res = .error err ∧ state' = state) ∨
        ∃ response, res = .ok response ∧ state'.schemaVersion = rule.requiredSchema) := by
  have hsame := rule.evaluate_same json request state
  rw [handle]
  split
  · rename_i err rule' hevaluate
    rw [hevaluate] at hsame
    exact ⟨_, _, _, rfl, hsame, .inl ⟨err, rfl, rfl⟩⟩
  · rename_i result rule' hevaluate
    rw [hevaluate] at hsame
    split
    · exact ⟨_, _, _, rfl, hsame, .inl ⟨_, rfl, rfl⟩⟩
    · split
      · exact ⟨_, _, _, rfl, hsame, .inl ⟨_, rfl, rfl⟩⟩
      · rename_i hensure
        refine ⟨_, _, _, rfl, ⟨hsame.version, hsame.requiredSchema⟩, .inr ⟨_, rfl, ?_⟩⟩
        exact (State.ensureSchema_eq_ok_iff.mp hensure).trans hsame.requiredSchema

theorem handle_same {res : Except String Response}
    (h : rule.handle json request state = (res, state', rule')) : Same rule rule' := by
  obtain ⟨_, _, _, hhandle, hsame, -⟩ := rule.handle_cases json request state
  obtain ⟨-, h'⟩ := Prod.mk.inj (hhandle.symm.trans h)
  obtain ⟨-, rfl⟩ := Prod.mk.inj h'
  exact hsame

theorem inspect_same (rule : WasmRuleMethods C) (request : Request) (state : State) :
    Same rule (rule.inspect json request state).2 := by
  have hsame : Same rule rule.metadata.2 := rule.metadata_same
  rw [inspect]
  split
  · rename_i hmetadata
    rwa [hmetadata] at hsame
  · rename_i hmetadata
    rw [hmetadata] at hsame
    split
    · rename_i hhandle
      exact hsame.trans (handle_same json hhandle)
    · rename_i hhandle
      exact hsame.trans (handle_same json hhandle)

end WasmRuleMethods

end RustExample.KameoHotUpgrade
