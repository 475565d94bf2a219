import RustExample.Foundation.Run

/-!
# Services whose handler is replaced

A service keeps a state and a handler. It hands its calls to the handler, and replaces the handler
by one that is loaded: the new handler is tried on a copy of the state, which it migrates and for
which it handles a probe; only if that succeeds does it migrate the state itself and take over.

A try on a copy is worth what the migration depends on. If a handler migrates a state as it did
before the probe, an upgrade that fails leaves the service as it was, whatever fails in it.
-/

namespace RustExample

/-- How handlers `η` are loaded from files `φ`, migrate a state `σ` and answer requests `ρ`. -/
structure HotSwap (η σ ρ β γ ε φ : Type) where
  load : φ → Except ε η
  migrate : η → σ → Except ε Unit × σ
  handle : η → σ → ρ → Except ε β × σ × η
  probe : ρ
  check : β → Except ε Unit
  upgraded : σ → σ
  report : η → η → γ

/-- The state and the handler of a service. -/
@[ext]
structure HotState (σ η : Type) where
  state : σ
  handler : η

/-- The commands of a service. -/
inductive HotCommand (ρ φ : Type) where
  | call (request : ρ)
  | upgrade (file : φ)

/-- Their answers. -/
inductive HotAnswer (β γ ε : Type) where
  | call (response : Except ε β)
  | upgrade (report : Except ε γ)

namespace HotSwap

variable {η σ ρ β γ ε φ : Type} (k : HotSwap η σ ρ β γ ε φ)

/-- The new handler is tried on a copy of the state. It may be changed by it. -/
def validate (state : σ) (next : η) : Except ε Unit × η :=
  match k.migrate next state with
  | (.error err, _) => (.error err, next)
  | (.ok (), shadow) =>
    match k.handle next shadow k.probe with
    | (.error err, _, next) => (.error err, next)
    | (.ok response, _, next) => (k.check response, next)

/-- Loads a file in place of the rule. -/
def upgrade (s : HotState σ η) (file : φ) : Except ε γ × HotState σ η :=
  match k.load file with
  | .error err => (.error err, s)
  | .ok next =>
    match k.validate s.state next with
    | (.error err, _) => (.error err, s)
    | (.ok (), next) =>
      match k.migrate next s.state with
      | (.error err, state) => (.error err, ⟨state, s.handler⟩)
      | (.ok (), state) => (.ok (k.report s.handler next), ⟨k.upgraded state, next⟩)

/-- Calls the current rule. -/
def call (s : HotState σ η) (request : ρ) : Except ε β × HotState σ η :=
  let (response, state, handler) := k.handle s.handler s.state request
  (response, ⟨state, handler⟩)

/-- Answers a command. -/
def command (s : HotState σ η) : HotCommand ρ φ → HotAnswer β γ ε × HotState σ η
  | .call request =>
    let (response, s') := k.call s request
    (.call response, s')
  | .upgrade file =>
    let (report, s') := k.upgrade s file
    (.upgrade report, s')

/-- The service answers a command. -/
def Step (s : HotState σ η) (e : HotCommand ρ φ × HotAnswer β γ ε) (s' : HotState σ η) : Prop :=
  k.command s e.1 = (e.2, s')

/-- What migrations and calls keep; `fits` tells that a state is one that a handler works on. -/
structure Lawful (fits : η → σ → Prop) : Prop where
  migrate_ok : ∀ {h s s'}, k.migrate h s = (.ok (), s') → fits h s'
  migrate_handle : ∀ {h s r res s' h'}, k.handle h s r = (res, s', h') → k.migrate h' = k.migrate h
  fits_handle : ∀ {h s r res s' h'}, k.handle h s r = (res, s', h') → fits h s → fits h' s'
  fits_upgraded : ∀ {h s}, fits h s → fits h (k.upgraded s)

variable {k} {fits : η → σ → Prop} {s s' : HotState σ η}

/-- A handler that was tried migrates as it did before. -/
theorem Lawful.migrate_of_validate (hk : k.Lawful fits) {state : σ} {next next' : η}
    (h : k.validate state next = (.ok (), next')) :
    ∃ state', k.migrate next state = (.ok (), state') ∧ k.migrate next' = k.migrate next := by
  rw [validate] at h
  split at h
  · cases h
  · rename_i shadow hmigrate
    refine ⟨shadow, hmigrate, ?_⟩
    split at h
    · cases h
    · rename_i hhandle
      obtain ⟨-, rfl⟩ := Prod.mk.inj h
      exact hk.migrate_handle hhandle

/-- **An upgrade fails as a whole**, or the new handler takes over with the state it has
migrated. -/
theorem Lawful.upgrade_cases (hk : k.Lawful fits) (s : HotState σ η) (file : φ) :
    (∃ err, k.upgrade s file = (.error err, s)) ∨
      ∃ next state, k.migrate next s.state = (.ok (), state) ∧
        k.upgrade s file = (.ok (k.report s.handler next), ⟨k.upgraded state, next⟩) := by
  rw [upgrade]
  split
  · exact .inl ⟨_, rfl⟩
  · split
    · exact .inl ⟨_, rfl⟩
    · rename_i hvalidate
      obtain ⟨state', hmigrate, hsame⟩ := hk.migrate_of_validate hvalidate
      rw [hsame, hmigrate]
      exact .inr ⟨_, state', by rw [hsame, hmigrate], rfl⟩

theorem Lawful.upgrade_error (hk : k.Lawful fits) {file : φ} {err : ε}
    (h : k.upgrade s file = (.error err, s')) : s' = s := by
  rcases hk.upgrade_cases s file with ⟨err', hfail⟩ | ⟨next, state, -, hok⟩
  · exact (Prod.mk.inj (h.symm.trans hfail)).2
  · cases (Prod.mk.inj (h.symm.trans hok)).1

theorem step_det {e : HotCommand ρ φ × HotAnswer β γ ε} {s₁ s₂ : HotState σ η}
    (h₁ : k.Step s e s₁) (h₂ : k.Step s e s₂) : s₁ = s₂ :=
  (Prod.mk.inj (h₁.symm.trans h₂)).2

/-- A step of the service: a call, an upgrade that fails, or one that does not. -/
theorem Lawful.step_cases (hk : k.Lawful fits) {e : HotCommand ρ φ × HotAnswer β γ ε}
    (h : k.Step s e s') :
    (∃ r res, e = (.call r, .call res) ∧
        k.handle s.handler s.state r = (res, s'.state, s'.handler)) ∨
      (∃ file err, e = (.upgrade file, .upgrade (.error err)) ∧ s' = s) ∨
      ∃ file report state, e = (.upgrade file, .upgrade (.ok report)) ∧
        k.migrate s'.handler s.state = (.ok (), state) ∧ s'.state = k.upgraded state := by
  obtain ⟨c, a⟩ := e
  cases c with
  | call r =>
    obtain ⟨⟩ := h
    exact .inl ⟨r, _, rfl, rfl⟩
  | upgrade file =>
    simp only [Step, command] at h
    rcases hk.upgrade_cases s file with ⟨err, hfail⟩ | ⟨next, state, hmigrate, hok⟩
    · rw [hfail] at h
      obtain ⟨⟩ := h
      exact .inr (.inl ⟨file, err, rfl, rfl⟩)
    · rw [hok] at h
      obtain ⟨⟩ := h
      exact .inr (.inr ⟨file, _, state, rfl, hmigrate, rfl⟩)

/-- **The state always fits the handler.** -/
theorem Lawful.fits_of_run (hk : k.Lawful fits) {s₀ : HotState σ η}
    (h₀ : fits s₀.handler s₀.state) {es : List (HotCommand ρ φ × HotAnswer β γ ε)}
    (run : Run k.Step s₀ es s) : fits s.handler s.state := by
  refine run.invariant (P := fun s => fits s.handler s.state) h₀ fun s e s' h hstep => ?_
  rcases hk.step_cases hstep with ⟨r, res, -, hhandle⟩ | ⟨file, err, -, rfl⟩ |
    ⟨file, report, state, -, hmigrate, hstate⟩
  · exact hk.fits_handle hhandle h
  · exact h
  · exact hstate ▸ hk.fits_upgraded (hk.migrate_ok hmigrate)

end HotSwap

end RustExample
