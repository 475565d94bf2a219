import Mathlib.Algebra.Group.Int.Defs
import Mathlib.Algebra.Group.Nat.Defs
import RustExample.Foundation.HotSwap

/-!
# Services that replace their rule while they run

A rule decides requests. It is read from a file, or it is a module of WebAssembly, and it works on a
state of a schema of its own; an older state is migrated. Each kind of rule has its service, which
answers calls and upgrades one after the other.

Source: `wasm_workspace_example/hot_upgrade/src/types.rs`, `rule.rs`, `wasm_rule.rs`, `service.rs`,
`wasm_service.rs`.

* Counters do not reach their limits and are natural numbers, and so is the version of a schema.
* A file of rules is what is read and parsed of it. A module is what `wasmtime` makes of its file:
  its exports act on a store of any kind, so that they may answer each call differently.
* A migration raises the version of the schema by one, so that the loop over them runs once for each
  version that the state is behind.
* What comes after the errors of the standard library and of `wasmtime` is their own text.
-/

namespace RustExample.HotUpgrade

/-! ### Types -/

/-- What is to be decided. -/
structure Request where
  userId : ℤ
  amount : ℤ

/-- How it is decided. -/
inductive Decision where
  | allow
  | review
  | allowFastLane
  deriving DecidableEq

/-- The answer to a request. -/
structure Response where
  decision : Decision
  ruleVersion : String

/-- The state of the service. -/
@[ext]
structure State where
  processed : ℕ
  schemaVersion : ℕ
  fastLaneHits : ℕ
  upgrades : ℕ
  deriving DecidableEq

/-- The state of a service that starts. -/
def State.default : State := ⟨0, 0, 0, 0⟩

/-- The characters that Rust takes for blanks. -/
def isWhitespace (c : Char) : Bool :=
  let n := c.toNat
  (0x9 ≤ n && n ≤ 0xd) || n = 0x20 || n = 0x85 || n = 0xa0 || n = 0x1680 ||
    (0x2000 ≤ n && n ≤ 0x200a) || n = 0x2028 || n = 0x2029 || n = 0x202f || n = 0x205f || n = 0x3000

/-- Nothing is left of the text when white space is trimmed. -/
def isBlank (s : String) : Bool := s.toList.all isWhitespace

/-! ### Migrations -/

/-- The migrations of a state that is some versions behind. -/
def runMigrations : ℕ → State → Except String Unit × State
  | 0, state => (.ok (), state)
  | behind + 1, state =>
    match state.schemaVersion with
    | 0 => runMigrations behind { state with schemaVersion := 1 }
    | 1 => runMigrations behind { state with fastLaneHits := 0, schemaVersion := 2 }
    | current =>
      (.error ("missing migrator for state schema " ++ toString current ++ " -> " ++
        toString (current + 1)), state)

/-- Migrate a state to a rule's schema; `tooNew` is the error for a newer one. -/
def migrateTo (required : ℕ) (tooNew : ℕ → String) (state : State) : Except String Unit × State :=
  match runMigrations (required - state.schemaVersion) state with
  | (.error err, state) => (.error err, state)
  | (.ok (), state) =>
    if required < state.schemaVersion then (.error (tooNew state.schemaVersion), state)
    else (.ok (), state)

/-- The error for a state of another schema than a rule requires. -/
def schemaMismatch (version : String) (required schemaVersion : ℕ) : String :=
  "rule " ++ version ++ " expects state schema " ++ toString required ++ ", got " ++
    toString schemaVersion

/-! ### Rules from files -/

/-- The content of a rule file. -/
structure RuleConfig where
  version : String
  requiredStateSchema : ℕ
  reviewThreshold : ℤ
  evenUserFastLaneMaxAmount : Option ℤ

/-- A file of rules, if it can be read and parsed. -/
structure RuleFile where
  path : String
  config : Except String RuleConfig

/-- A rule from a file. -/
structure RuleEngine where
  config : RuleConfig

/-- Refuses invalid configurations. -/
def RuleConfig.validateConfig (config : RuleConfig) : Except String Unit := do
  if isBlank config.version then throw "rule version cannot be empty"
  if config.requiredStateSchema = 0 then throw "required_state_schema must be >= 1"
  if config.reviewThreshold ≤ 0 then throw "review_threshold must be positive"
  if let some maxAmount := config.evenUserFastLaneMaxAmount then
    if maxAmount ≤ 0 then throw "even_user_fast_lane_max_amount must be positive"
    if config.reviewThreshold < maxAmount then
      throw "even_user_fast_lane_max_amount cannot exceed review_threshold"

namespace RuleEngine

/-- Loads and checks a rule. -/
def load (file : RuleFile) : Except String RuleEngine := do
  let config ← file.config
  config.validateConfig
  return ⟨config⟩

/-- The version of a rule. -/
def version (rule : RuleEngine) : String := rule.config.version

/-- Decides a request. -/
def handle (rule : RuleEngine) (state : State) (request : Request) :
    Except String Response × State :=
  if state.schemaVersion ≠ rule.config.requiredStateSchema then
    (.error (schemaMismatch rule.version rule.config.requiredStateSchema state.schemaVersion),
      state)
  else
    let state := { state with processed := state.processed + 1 }
    if rule.config.reviewThreshold < request.amount then
      (.ok ⟨.review, rule.config.version⟩, state)
    else
      match rule.config.evenUserFastLaneMaxAmount with
      | some maxAmount =>
        if request.userId % 2 = 0 ∧ request.amount ≤ maxAmount then
          (.ok ⟨.allowFastLane, rule.config.version⟩,
            { state with fastLaneHits := state.fastLaneHits + 1 })
        else (.ok ⟨.allow, rule.config.version⟩, state)
      | none => (.ok ⟨.allow, rule.config.version⟩, state)

/-- Brings the state to the rule's schema. -/
def migrateState (rule : RuleEngine) (state : State) : Except String Unit × State :=
  migrateTo rule.config.requiredStateSchema (fun schemaVersion =>
    "rule " ++ rule.version ++ " expects schema " ++ toString rule.config.requiredStateSchema ++
      ", but actor is already at schema " ++ toString schemaVersion) state

end RuleEngine

/-! ### Rules from modules -/

/-- What `wasmtime` makes of a module: its instance and its exports. -/
structure WasmModule (σ : Type) where
  instantiate : Except String σ
  decide : Except String (σ → ℤ → ℤ → Except String ℤ × σ)
  requiredSchema : Except String (σ → Except String ℤ × σ)

/-- A module, as it is found. -/
structure WasmFile (σ : Type) where
  path : String
  fileStem : Option String
  compiled : Except String (WasmModule σ)

/-- A rule from a module. -/
structure WasmHandler (σ : Type) where
  version : String
  requiredSchema : ℕ
  store : σ
  decide : σ → ℤ → ℤ → Except String ℤ × σ

namespace WasmHandler

variable {σ : Type}

/-- Loads and checks a module. -/
def load (file : WasmFile σ) : Except String (WasmHandler σ) := do
  let wasm ← file.compiled.mapError fun err =>
    "failed to load wasm module " ++ file.path ++ ": " ++ err
  let store ← wasm.instantiate.mapError fun err =>
    "failed to instantiate wasm module " ++ file.path ++ ": " ++ err
  let decide ← wasm.decide.mapError fun err =>
    "wasm module must export `decide(i64, i64) -> i32`: " ++ err
  let requiredSchemaFunc ← wasm.requiredSchema.mapError fun err =>
    "wasm module must export `required_schema() -> i32`: " ++ err
  let (code, store) := requiredSchemaFunc store
  -- the code is a signed number, which is cast to an unsigned one
  let requiredSchema := ((← code) % 2 ^ 32).toNat
  return ⟨file.fileStem.getD "unknown", requiredSchema, store, decide⟩

/-- Lets the module decide. -/
def handle (rule : WasmHandler σ) (state : State) (request : Request) :
    Except String Response × State × WasmHandler σ :=
  if state.schemaVersion ≠ rule.requiredSchema then
    (.error (schemaMismatch rule.version rule.requiredSchema state.schemaVersion), state, rule)
  else
    let state := { state with processed := state.processed + 1 }
    let (code, store) := rule.decide rule.store request.userId request.amount
    let rule := { rule with store }
    match code with
    | .error trap => (.error trap, state, rule)
    | .ok code =>
      if code = 0 then (.ok ⟨.allow, rule.version⟩, state, rule)
      else if code = 1 then (.ok ⟨.review, rule.version⟩, state, rule)
      else if code = 2 then
        (.ok ⟨.allowFastLane, rule.version⟩,
          { state with fastLaneHits := state.fastLaneHits + 1 }, rule)
      else (.error ("unknown decision code from wasm: " ++ toString code), state, rule)

/-- Brings the state to the module's schema. -/
def migrateState (rule : WasmHandler σ) (state : State) : Except String Unit × State :=
  migrateTo rule.requiredSchema (fun schemaVersion =>
    "rule " ++ rule.version ++ " requires schema " ++ toString rule.requiredSchema ++
      ", but state is already at schema " ++ toString schemaVersion) state

end WasmHandler

/-! ### The services -/

/-- The request for which a new rule is tried. -/
def probeRequest : Request := ⟨2, 100⟩

/-- Counts an upgrade. -/
def countUpgrade (state : State) : State := { state with upgrades := state.upgrades + 1 }

/-- The report of an upgrade. -/
def upgradeReport (oldVersion version : String) : String :=
  "upgrade " ++ oldVersion ++ " -> " ++ version

/-- The service of the rules from files. -/
def fileService : HotSwap RuleEngine State Request Response String String RuleFile where
  load := RuleEngine.load
  migrate := RuleEngine.migrateState
  handle rule state request :=
    let (response, state) := rule.handle state request
    (response, state, rule)
  probe := probeRequest
  check response :=
    if isBlank response.ruleVersion then .error "new rule returned an empty version" else .ok ()
  upgraded := countUpgrade
  report old next := upgradeReport old.version next.version

/-- The service of the rules from modules. -/
def wasmService (σ : Type) :
    HotSwap (WasmHandler σ) State Request Response String String (WasmFile σ) where
  load := WasmHandler.load
  migrate := WasmHandler.migrateState
  handle := WasmHandler.handle
  probe := probeRequest
  check response :=
    if isBlank response.ruleVersion then .error "new wasm rule returned an empty version"
    else .ok ()
  upgraded := countUpgrade
  report old next := upgradeReport old.version next.version

/-- The service of rule files. -/
def startService (initialRule : RuleFile) : Except String (HotState State RuleEngine) := do
  let initial ← (RuleEngine.load initialRule).mapError fun err =>
    "failed to load initial rule " ++ initialRule.path ++ ": " ++ err
  let (migrated, state) := initial.migrateState State.default
  migrated
  return ⟨state, initial⟩

/-- The service of modules. -/
def startWasmService {σ : Type} (initialRule : WasmFile σ) :
    Except String (HotState State (WasmHandler σ)) := do
  let initial ← (WasmHandler.load initialRule).mapError fun err =>
    "failed to load initial wasm rule " ++ initialRule.path ++ ": " ++ err
  let (migrated, state) := initial.migrateState State.default
  migrated
  return ⟨state, initial⟩

end RustExample.HotUpgrade
