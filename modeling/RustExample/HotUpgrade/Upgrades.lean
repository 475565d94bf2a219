import RustExample.Foundation.Fallible
import RustExample.HotUpgrade.Rules

/-!
# Upgrades never mix two rules

The state always has the schema of the current rule, and an upgrade takes over as a whole or not at
all: a new rule is tried on a copy of the state, and migrating does not depend on the try.

A call counts the request as processed before the rule decides. A rule from a file always decides.
A module may trap or answer with a code that means nothing; the call fails, and the request stays
counted.
-/

namespace RustExample.HotUpgrade

/-! ### Migrations -/

variable {state : State}

/-- Migrations count no request or upgrade, and raise the version by what was missing. -/
theorem runMigrations_ok {behind : ℕ} {state' : State}
    (h : runMigrations behind state = (.ok (), state')) :
    state'.schemaVersion = state.schemaVersion + behind ∧ state'.processed = state.processed ∧
      state'.upgrades = state.upgrades := by
  induction behind generalizing state with
  | zero =>
    obtain ⟨-, rfl⟩ := Prod.mk.inj h
    exact ⟨rfl, rfl, rfl⟩
  | succ behind ih =>
    rw [runMigrations] at h
    split at h
    · rename_i hversion
      obtain ⟨hversion', hprocessed, hupgrades⟩ := ih h
      dsimp only at hversion'
      exact ⟨by omega, hprocessed, hupgrades⟩
    · rename_i hversion
      obtain ⟨hversion', hprocessed, hupgrades⟩ := ih h
      dsimp only at hversion'
      exact ⟨by omega, hprocessed, hupgrades⟩
    · cases (Prod.mk.inj h).1

theorem migrateTo_ok {required : ℕ} {tooNew : ℕ → String} {state' : State}
    (h : migrateTo required tooNew state = (.ok (), state')) :
    state'.schemaVersion = required ∧ state.schemaVersion ≤ required ∧
      state'.processed = state.processed ∧ state'.upgrades = state.upgrades := by
  rw [migrateTo] at h
  split at h
  · cases (Prod.mk.inj h).1
  · rename_i state'' hrun
    obtain ⟨hversion, hprocessed, hupgrades⟩ := runMigrations_ok hrun
    split_ifs at h with hnew
    · cases (Prod.mk.inj h).1
    · obtain ⟨-, rfl⟩ := Prod.mk.inj h
      exact ⟨by omega, by omega, hprocessed, hupgrades⟩

/-! ### What the services keep -/

section Services

variable {η φ : Type} (k : HotSwap η State Request Response String String φ) (requires : η → ℕ)

/-- The state has the schema of the rule. -/
def Fits (rule : η) (state : State) : Prop := state.schemaVersion = requires rule

/-- A rule handles a request for a state that fits, and decides it if `decides` holds. -/
structure Handles (decides : η → Request → Prop) : Prop where
  lawful : k.Lawful (Fits requires)
  handle : ∀ {rule state request res state' rule'}, Fits requires rule state →
    k.handle rule state request = (res, state', rule') →
      state'.schemaVersion = state.schemaVersion ∧ state'.upgrades = state.upgrades ∧
        state'.processed = state.processed + 1
  decides_iff : ∀ {rule state request}, Fits requires rule state →
    ((∃ response, (k.handle rule state request).1 = .ok response) ↔ decides rule request)
  migrate : ∀ {rule state state'}, k.migrate rule state = (.ok (), state') →
    state.schemaVersion ≤ state'.schemaVersion ∧ state'.processed = state.processed ∧
      state'.upgrades = state.upgrades
  upgraded : k.upgraded = countUpgrade

/-- The commands of the service. -/
abbrev Command (φ : Type) := HotCommand Request φ

/-- Its answers. -/
abbrev Answer := HotAnswer Response String String

/-- The command was answered with an error. -/
def failed : Answer → Bool
  | .call (.error _) | .upgrade (.error _) => true
  | _ => false

/-- The call was answered. -/
def callAnswered : Command φ × Answer → Bool
  | (_, .call (.ok _)) => true
  | _ => false

/-- The upgrade was answered. -/
def upgradeAnswered : Command φ × Answer → Bool
  | (_, .upgrade (.ok _)) => true
  | _ => false

/-- **No mixed state.** The state has the schema of the current rule, a command that fails leaves
the service, the counters tell the calls and upgrades answered, and the schema never decreases. -/
structure NeverMixed (s₀ : HotState State η) (es : List (Command φ × Answer)) : Prop where
  fits : Run.Always k.Step s₀ (fun s => Fits requires s.handler s.state) es
  atomic : Run.AtEvents k.Step s₀ (fun s e => failed e.2 → ∀ s', k.Step s e s' → s' = s) es
  processed : ∀ n s, Run k.Step s₀ (es.take n) s →
    s.state.processed = (es.take n).countP callAnswered
  upgrades : ∀ n s, Run k.Step s₀ (es.take n) s →
    s.state.upgrades = (es.take n).countP upgradeAnswered
  grows : Run.AtEvents k.Step s₀
    (fun s e => ∀ s', k.Step s e s' → s.state.schemaVersion ≤ s'.state.schemaVersion) es

variable {k requires} {decides : η → Request → Prop} {s₀ s s' : HotState State η}
  {es : List (Command φ × Answer)} {e : Command φ × Answer}

/-- The rule decides the call. -/
def CallDecided (decides : η → Request → Prop) (s : HotState State η) (e : Command φ × Answer) :
    Prop :=
  ∀ request, e.1 = .call request → decides s.handler request

/-- **What a step does.** It counts what it answers if the call is decided, and it leaves the
service as it was if it fails; a call that is not decided fails and does not. -/
theorem Handles.step (hk : Handles k requires decides) (hfits : Fits requires s.handler s.state)
    (hstep : k.Step s e s') :
    s.state.schemaVersion ≤ s'.state.schemaVersion ∧
      s'.state.upgrades = s.state.upgrades + (if upgradeAnswered e then 1 else 0) ∧
      (CallDecided decides s e →
        s'.state.processed = s.state.processed + (if callAnswered e then 1 else 0)) ∧
      ((failed e.2 → s' = s) ↔ CallDecided decides s e) := by
  rcases hk.lawful.step_cases hstep with ⟨r, res, rfl, hhandle⟩ | ⟨file, err, rfl, rfl⟩ |
    ⟨file, report, state, rfl, hmigrate, hstate⟩
  · obtain ⟨hversion, hupgrades, hprocessed⟩ := hk.handle hfits hhandle
    have hiff : (∃ response, (k.handle s.handler s.state r).1 = .ok response) ↔
        decides s.handler r := hk.decides_iff hfits
    rw [hhandle] at hiff
    have hdecided : CallDecided decides s ((.call r, .call res) : Command φ × Answer) ↔
        decides s.handler r :=
      ⟨fun h => h r rfl, fun h request he => HotCommand.call.inj he ▸ h⟩
    rw [hdecided, ← hiff]
    refine ⟨Nat.le_of_eq hversion.symm, hupgrades, ?_, ?_⟩
    · rintro ⟨response, rfl⟩
      exact hprocessed
    · cases res with
      | ok response => exact ⟨fun _ => ⟨response, rfl⟩, fun _ => nofun⟩
      | error err =>
        refine ⟨fun h => ?_, nofun⟩
        rw [h rfl] at hprocessed
        omega
  · exact ⟨Nat.le_refl _, rfl, fun _ => rfl, fun _ => nofun, fun _ _ => rfl⟩
  · obtain ⟨hversion, hprocessed, hupgrades⟩ := hk.migrate hmigrate
    rw [hk.upgraded] at hstate
    rw [hstate]
    exact ⟨hversion, congrArg (· + 1) hupgrades, fun _ => hprocessed, fun _ => nofun,
      fun _ => nofun⟩

theorem Handles.counted (hk : Handles k requires decides) (h₀ : Fits requires s₀.handler s₀.state)
    (hprocessed : s₀.state.processed = 0) (hupgrades : s₀.state.upgrades = 0)
    (run : Run (fun s e s' => k.Step s e s' ∧ CallDecided decides s e) s₀ es s) :
    s.state.processed = es.countP callAnswered ∧ s.state.upgrades = es.countP upgradeAnswered := by
  refine run.history (P := fun es s => s.state.processed = es.countP callAnswered ∧
    s.state.upgrades = es.countP upgradeAnswered) ⟨hprocessed, hupgrades⟩ ?_
  rintro es s e s' run ⟨hcalls, hups⟩ ⟨hstep, hdecided⟩
  have hfits : Fits requires s.handler s.state :=
    hk.lawful.fits_of_run h₀ (run.imp fun _ _ _ => And.left)
  obtain ⟨-, hups', hcalls', -⟩ := hk.step hfits hstep
  rw [List.countP_append, List.countP_append, List.countP_singleton, List.countP_singleton,
    hups', hcalls' hdecided, hups, hcalls]
  exact ⟨rfl, rfl⟩

/-- **A service never mixes two rules exactly as long as its calls are decided.** -/
theorem Handles.neverMixed_iff (hk : Handles k requires decides)
    (h₀ : Fits requires s₀.handler s₀.state) (hprocessed : s₀.state.processed = 0)
    (hupgrades : s₀.state.upgrades = 0) (run : Run k.Step s₀ es s) :
    NeverMixed k requires s₀ es ↔ Run.AtEvents k.Step s₀ (CallDecided decides) es := by
  have hfits {es : List (Command φ × Answer)} {s : HotState State η} (run : Run k.Step s₀ es s) :
      Fits requires s.handler s.state := hk.lawful.fits_of_run h₀ run
  constructor
  · intro h n s e hs he
    obtain ⟨s₁, s', h₁, hstep, -⟩ := run.at_event he
    have hdet (s : HotState State η) (e : Command φ × Answer) (s₁ s₂ : HotState State η)
        (h₁ : k.Step s e s₁) (h₂ : k.Step s e s₂) : s₁ = s₂ := HotSwap.step_det h₁ h₂
    obtain rfl := Run.state_unique hdet hs h₁
    exact (hk.step (hfits hs) hstep).2.2.2.mp fun hfailed => h.atomic n s e hs he hfailed s' hstep
  · intro h
    have hcounted (n : ℕ) (s : HotState State η) (hs : Run k.Step s₀ (es.take n) s) :=
      hk.counted h₀ hprocessed hupgrades (hs.of_atEvents (h.take n))
    refine ⟨fun n s hs => hfits hs, fun n s e hs he hfailed s' hstep => ?_,
      fun n s hs => (hcounted n s hs).1, fun n s hs => (hcounted n s hs).2,
      fun n s e hs he s' hstep => (hk.step (hfits hs) hstep).1⟩
    exact (hk.step (hfits hs) hstep).2.2.2.mpr (h n s e hs he) hfailed

end Services

/-! ### Rules from files -/

/-- The schema that a rule from a file requires. -/
def RuleEngine.requiredSchema (rule : RuleEngine) : ℕ := rule.config.requiredStateSchema

variable {rule : RuleEngine}

theorem RuleEngine.handle_ok (hfits : Fits requiredSchema rule state) (request : Request) :
    ∃ response fastLaneHits, rule.handle state request = (.ok response,
      { state with processed := state.processed + 1, fastLaneHits := fastLaneHits }) := by
  have hversion : state.schemaVersion = rule.config.requiredStateSchema := hfits
  rw [handle, if_neg (not_not_intro hversion)]
  dsimp only
  split_ifs
  · exact ⟨_, _, rfl⟩
  · split
    · split_ifs
      · exact ⟨_, _, rfl⟩
      · exact ⟨_, _, rfl⟩
    · exact ⟨_, _, rfl⟩

theorem fileService_handle {rule' : RuleEngine} {state' : State} {request : Request}
    {res : Except String Response}
    (h : fileService.handle rule state request = (res, state', rule')) :
    rule.handle state request = (res, state') ∧ rule' = rule := by
  obtain ⟨rfl, rfl, rfl⟩ : _ = res ∧ _ = state' ∧ _ = rule' := by simpa [fileService] using h
  exact ⟨rfl, rfl⟩

theorem fileService_migrate {state' : State}
    (h : fileService.migrate rule state = (.ok (), state')) :
    state'.schemaVersion = rule.requiredSchema ∧ state.schemaVersion ≤ rule.requiredSchema ∧
      state'.processed = state.processed ∧ state'.upgrades = state.upgrades := by
  have hmigrate : rule.migrateState state = (.ok (), state') := h
  rw [RuleEngine.migrateState] at hmigrate
  exact migrateTo_ok hmigrate

theorem fileService_handles :
    Handles fileService RuleEngine.requiredSchema fun _ _ => True where
  lawful :=
    { migrate_ok := fun h => (fileService_migrate h).1
      migrate_handle := fun h => by rw [(fileService_handle h).2]
      fits_handle := fun h hfits => by
        obtain ⟨hhandle, rfl⟩ := fileService_handle h
        obtain ⟨response, hits, hok⟩ := RuleEngine.handle_ok hfits _
        obtain ⟨-, rfl⟩ := Prod.mk.inj (hok.symm.trans hhandle)
        exact hfits
      fits_upgraded := fun h => h }
  handle hfits h := by
    obtain ⟨hhandle, rfl⟩ := fileService_handle h
    obtain ⟨response, hits, hok⟩ := RuleEngine.handle_ok hfits _
    obtain ⟨-, rfl⟩ := Prod.mk.inj (hok.symm.trans hhandle)
    exact ⟨rfl, rfl, rfl⟩
  decides_iff {rule state request} hfits := by
    obtain ⟨response, hits, hok⟩ := RuleEngine.handle_ok hfits request
    exact ⟨fun _ => trivial, fun _ => ⟨response, congrArg Prod.fst hok⟩⟩
  migrate h := by
    obtain ⟨hversion, hle, hprocessed, hupgrades⟩ := fileService_migrate h
    exact ⟨hversion.symm ▸ hle, hprocessed, hupgrades⟩
  upgraded := rfl

/-! ### Rules from modules -/

section Modules

variable {σ : Type} {rule rule' : WasmHandler σ} {state state' : State} {request : Request}
  {res : Except String Response}

/-- The module answers with one of the codes of a decision. -/
def WasmHandler.Decides (rule : WasmHandler σ) (request : Request) : Prop :=
  ∃ code, (rule.decide rule.store request.userId request.amount).1 = .ok code ∧
    (code = 0 ∨ code = 1 ∨ code = 2)

/-- A module handles a request of a state that fits: it is counted, whatever the answer. -/
theorem WasmHandler.handle_fits (hfits : Fits requiredSchema rule state) (request : Request) :
    ∃ res hits store, rule.handle state request = (res,
      { state with processed := state.processed + 1, fastLaneHits := hits },
      { rule with store := store }) ∧
      ((∃ response, res = .ok response) ↔ rule.Decides request) := by
  have hversion : state.schemaVersion = rule.requiredSchema := hfits
  rw [handle, if_neg (not_not_intro hversion)]
  dsimp only
  rw [Decides]
  cases hcode : (rule.decide rule.store request.userId request.amount).1 with
  | error trap => exact ⟨_, _, _, rfl, nofun, nofun⟩
  | ok code =>
    dsimp only
    split_ifs with h0 h1 h2
    · exact ⟨_, _, _, rfl, fun _ => ⟨code, rfl, .inl h0⟩, fun _ => ⟨_, rfl⟩⟩
    · exact ⟨_, _, _, rfl, fun _ => ⟨code, rfl, .inr (.inl h1)⟩, fun _ => ⟨_, rfl⟩⟩
    · exact ⟨_, _, _, rfl, fun _ => ⟨code, rfl, .inr (.inr h2)⟩, fun _ => ⟨_, rfl⟩⟩
    · refine ⟨_, _, _, rfl, nofun, ?_⟩
      rintro ⟨code', hok, hcode'⟩
      obtain ⟨⟩ := hok
      omega

theorem wasmService_handle (hfits : Fits WasmHandler.requiredSchema rule state)
    (h : (wasmService σ).handle rule state request = (res, state', rule')) :
    (∃ hits, state' = { state with processed := state.processed + 1, fastLaneHits := hits }) ∧
      rule'.requiredSchema = rule.requiredSchema ∧
      ((∃ response, res = .ok response) ↔ rule.Decides request) := by
  obtain ⟨res', hits, store, hhandle, hiff⟩ := WasmHandler.handle_fits hfits request
  obtain ⟨rfl, hrest⟩ := Prod.mk.inj (hhandle.symm.trans h)
  obtain ⟨⟩ := hrest
  exact ⟨⟨hits, rfl⟩, rfl, hiff⟩

theorem WasmHandler.handle_store (rule : WasmHandler σ) (state : State) (request : Request) :
    ∃ store, (rule.handle state request).2.2 = { rule with store := store } := by
  rw [handle]
  split_ifs
  · exact ⟨rule.store, rfl⟩
  · dsimp only
    split
    · exact ⟨_, rfl⟩
    · split_ifs <;> exact ⟨_, rfl⟩

theorem wasmService_migrate (h : (wasmService σ).migrate rule state = (.ok (), state')) :
    state'.schemaVersion = rule.requiredSchema ∧ state.schemaVersion ≤ rule.requiredSchema ∧
      state'.processed = state.processed ∧ state'.upgrades = state.upgrades := by
  have hmigrate : rule.migrateState state = (.ok (), state') := h
  rw [WasmHandler.migrateState] at hmigrate
  exact migrateTo_ok hmigrate

theorem wasmService_handles :
    Handles (wasmService σ) WasmHandler.requiredSchema WasmHandler.Decides where
  lawful :=
    { migrate_ok := fun h => (wasmService_migrate h).1
      migrate_handle := fun {rule state request res state' rule'} h => by
        obtain ⟨store, hstore⟩ := rule.handle_store state request
        obtain rfl : rule' = _ := (congrArg (·.2.2) h).symm.trans hstore
        rfl
      fits_handle := fun h hfits => by
        obtain ⟨⟨hits, rfl⟩, hrequired, -⟩ := wasmService_handle hfits h
        exact hfits.trans hrequired.symm
      fits_upgraded := fun h => h }
  handle hfits h := by
    obtain ⟨⟨hits, rfl⟩, -, -⟩ := wasmService_handle hfits h
    exact ⟨rfl, rfl, rfl⟩
  decides_iff hfits := (wasmService_handle hfits rfl).2.2
  migrate h := by
    obtain ⟨hversion, hle, hprocessed, hupgrades⟩ := wasmService_migrate h
    exact ⟨hversion.symm ▸ hle, hprocessed, hupgrades⟩
  upgraded := rfl

end Modules

/-! ### Services that have started -/

/-- A service starts with the handler that was loaded, on the first state migrated for it. -/
theorem migrate_of_start {η : Type} {load : Except String η}
    {migrate : η → State → Except String Unit × State} {s₀ : HotState State η}
    (h : (do
      let initial ← load
      let (migrated, state) := migrate initial State.default
      migrated
      return ⟨state, initial⟩ : Except String (HotState State η)) = .ok s₀) :
    migrate s₀.handler State.default = (.ok (), s₀.state) := by
  obtain ⟨initial, -, h⟩ := bind_eq_ok.mp h
  obtain ⟨⟨⟩, hmigrated, h⟩ := bind_eq_ok.mp h
  obtain ⟨⟩ := h
  exact Prod.ext hmigrated rfl

theorem startService_ok {file : RuleFile} {s₀ : HotState State RuleEngine}
    (h : startService file = .ok s₀) : Fits RuleEngine.requiredSchema s₀.handler s₀.state ∧
      s₀.state.processed = 0 ∧ s₀.state.upgrades = 0 := by
  have hmigrate := @migrate_of_start _ _ RuleEngine.migrateState _ h
  obtain ⟨hversion, -, hprocessed, hupgrades⟩ := fileService_migrate hmigrate
  exact ⟨hversion, hprocessed, hupgrades⟩

theorem startWasmService_ok {σ : Type} {file : WasmFile σ} {s₀ : HotState State (WasmHandler σ)}
    (h : startWasmService file = .ok s₀) : Fits WasmHandler.requiredSchema s₀.handler s₀.state ∧
      s₀.state.processed = 0 ∧ s₀.state.upgrades = 0 := by
  have hmigrate := @migrate_of_start _ _ WasmHandler.migrateState _ h
  obtain ⟨hversion, -, hprocessed, hupgrades⟩ := wasmService_migrate hmigrate
  exact ⟨hversion, hprocessed, hupgrades⟩

/-- **A service never mixes two rules.** That of the rule files never does; that of the modules does
not exactly as long as the current module decides every call. -/
theorem hot_upgrade_never_mixed (σ : Type) :
    (∀ (file : RuleFile) s₀ es s, startService file = .ok s₀ → Run fileService.Step s₀ es s →
      NeverMixed fileService RuleEngine.requiredSchema s₀ es) ∧
    ∀ (file : WasmFile σ) s₀ es s, startWasmService file = .ok s₀ →
      Run (wasmService σ).Step s₀ es s →
      (NeverMixed (wasmService σ) WasmHandler.requiredSchema s₀ es ↔
        Run.AtEvents (wasmService σ).Step s₀ (CallDecided WasmHandler.Decides) es) := by
  constructor
  · intro file s₀ es s hstart run
    obtain ⟨hfits, hprocessed, hupgrades⟩ := startService_ok hstart
    rw [fileService_handles.neverMixed_iff hfits hprocessed hupgrades run]
    exact fun _ _ _ _ _ _ _ => trivial
  · intro file s₀ es s hstart run
    obtain ⟨hfits, hprocessed, hupgrades⟩ := startWasmService_ok hstart
    exact wasmService_handles.neverMixed_iff hfits hprocessed hupgrades run

/-- A rule of schema 1. -/
def riskRuleV1 : RuleFile := ⟨"current/risk_rule.json", .ok ⟨"risk_rule_v1", 1, 10000, none⟩⟩

def riskRuleV2 : RuleFile :=
  ⟨"releases/risk_rule_v2.json", .ok ⟨"risk_rule_v2", 2, 8000, some 5000⟩⟩

/-- A call, an upgrade to the next schema, and a call that the new rule answers. -/
theorem hot_upgrade_never_mixed_v2 : ∃ s₀, startService riskRuleV1 = .ok s₀ ∧
    NeverMixed fileService RuleEngine.requiredSchema s₀
      [(.call ⟨1, 6000⟩, .call (.ok ⟨.allow, "risk_rule_v1"⟩)),
        (.upgrade riskRuleV2, .upgrade (.ok "upgrade risk_rule_v1 -> risk_rule_v2")),
        (.call ⟨2, 3000⟩, .call (.ok ⟨.allowFastLane, "risk_rule_v2"⟩))] :=
  ⟨_, rfl, (hot_upgrade_never_mixed Unit).1 riskRuleV1 _ _ _ rfl
    (.cons rfl <| .cons rfl <| .cons rfl .nil)⟩

/-- A module that traps on every request. -/
def trappingModule : WasmFile Unit :=
  ⟨"rule.wasm", some "rule",
    .ok ⟨.ok (), .ok fun _ _ _ => (.error "unreachable", ()), .ok fun _ => (.ok 1, ())⟩⟩

/-- **A call that fails is counted.** The module traps, the call is answered with an error, and the
request is counted as processed. -/
theorem trap_counts_request : ∃ s₀ es s, startWasmService trappingModule = .ok s₀ ∧
    Run (wasmService Unit).Step s₀ es s ∧
      ¬NeverMixed (wasmService Unit) WasmHandler.requiredSchema s₀ es := by
  refine ⟨_, [(.call ⟨1, 100⟩, .call (.error "unreachable"))], _, rfl, .cons rfl .nil, fun h => ?_⟩
  have hsame := h.atomic 0 _ _ .nil rfl rfl _ rfl
  exact absurd (congrArg (·.state.processed) hsame) (by decide)

end RustExample.HotUpgrade
