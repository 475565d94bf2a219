import RustExample.Foundation.Run

/-!
# Checked updates of a shared cell

Calls update a shared cell concurrently. A call checks what it asks for against the value that it
reads, and, if the check passes, merges it into the value that the cell holds by then. The merge is
one atomic step, but the check and the merge are two: what other calls installed in between has not
been checked against.
-/

namespace RustExample

variable {σ ρ ε ι : Type}

/-- How a request `ρ` is checked against a value of the cell, and merged into one. -/
structure CheckedUpdate (σ ρ ε : Type) where
  check : σ → ρ → Except ε Unit
  merge : ρ → σ → σ

/-- The stage of an update. -/
inductive UpdateStage (ρ : Type) where
  | waiting
  | started (r : ρ)
  | checked (r : ρ)
  | installed (r : ρ)
  | finished

/-- The cell and the calls. -/
structure UpdateSystem (σ ρ ι : Type) where
  cell : σ
  stage : ι → UpdateStage ρ

/-- The steps of an update. -/
inductive UpdateEvent (σ ρ ε ι : Type) where
  | start (i : ι) (r : ρ)
  | pass (i : ι) (r : ρ)
  | install (i : ι) (r : ρ)
  | answer (i : ι) (res : Except ε σ)

/-- The call whose step an event is. -/
def UpdateEvent.caller : UpdateEvent σ ρ ε ι → ι
  | .start i _ | .pass i _ | .install i _ | .answer i _ => i

namespace UpdateSystem

/-- No update has started. -/
def initial (c : σ) : UpdateSystem σ ρ ι := ⟨c, fun _ => .waiting⟩

variable [DecidableEq ι]

/-- A call comes to a stage. -/
def setStage (s : UpdateSystem σ ρ ι) (i : ι) (c : UpdateStage ρ) : UpdateSystem σ ρ ι :=
  { s with stage := Function.update s.stage i c }

/-- The steps of the calls. The answer of an installed call is the value of the cell by then. -/
inductive Step (u : CheckedUpdate σ ρ ε) (s : UpdateSystem σ ρ ι) :
    UpdateEvent σ ρ ε ι → UpdateSystem σ ρ ι → Prop
  | start (i : ι) (r : ρ) (h : s.stage i = .waiting) :
      Step u s (.start i r) (s.setStage i (.started r))
  | pass (i : ι) (r : ρ) (h : s.stage i = .started r) (hcheck : u.check s.cell r = .ok ()) :
      Step u s (.pass i r) (s.setStage i (.checked r))
  | reject (i : ι) (r : ρ) (e : ε) (h : s.stage i = .started r)
      (hcheck : u.check s.cell r = .error e) :
      Step u s (.answer i (.error e)) (s.setStage i .finished)
  | install (i : ι) (r : ρ) (h : s.stage i = .checked r) :
      Step u s (.install i r) { s.setStage i (.installed r) with cell := u.merge r s.cell }
  | answer (i : ι) (r : ρ) (h : s.stage i = .installed r) :
      Step u s (.answer i (.ok s.cell)) (s.setStage i .finished)

variable {u : CheckedUpdate σ ρ ε}

theorem Step.deterministic {s s₁ s₂ : UpdateSystem σ ρ ι} {e : UpdateEvent σ ρ ε ι}
    (h₁ : Step u s e s₁) (h₂ : Step u s e s₂) : s₁ = s₂ := by
  cases h₁ <;> cases h₂ <;> rfl

theorem Step.cell_eq {s s' : UpdateSystem σ ρ ι} {e : UpdateEvent σ ρ ε ι} (h : Step u s e s') :
    (∃ i r, e = .install i r ∧ s.stage i = .checked r ∧ s'.cell = u.merge r s.cell) ∨
      (∀ i r, e ≠ .install i r) ∧ s'.cell = s.cell := by
  cases h with
  | install i r h => exact .inl ⟨i, r, rfl, h, rfl⟩
  | start => exact .inr ⟨by simp, rfl⟩
  | pass => exact .inr ⟨by simp, rfl⟩
  | reject => exact .inr ⟨by simp, rfl⟩
  | answer => exact .inr ⟨by simp, rfl⟩

/-- What a run has done for a call. -/
def StageKeeps (u : CheckedUpdate σ ρ ε) (es : List (UpdateEvent σ ρ ε ι)) (i : ι) :
    UpdateStage ρ → Prop
  | .waiting | .started _ => (∀ r, .install i r ∉ es) ∧ ∀ e, .answer i (.error e) ∉ es
  | .checked r => (∃ c, u.check c r = .ok ()) ∧ (∀ r, .install i r ∉ es) ∧
      ∀ e, .answer i (.error e) ∉ es
  | .installed _ => ∀ e, .answer i (.error e) ∉ es
  | .finished => ∀ r e, .install i r ∈ es → .answer i (.error e) ∉ es

omit [DecidableEq ι] in
/-- An event that neither installs the call nor rejects it changes nothing. -/
theorem StageKeeps.frame {es : List (UpdateEvent σ ρ ε ι)} {e : UpdateEvent σ ρ ε ι} {i : ι}
    {c : UpdateStage ρ} (h : StageKeeps u es i c) (hinstall : ∀ r, e ≠ .install i r)
    (hanswer : ∀ m, e ≠ .answer i (.error m)) : StageKeeps u (es ++ [e]) i c := by
  have hi (r : ρ) : .install i r ∈ es ++ [e] ↔ .install i r ∈ es := by
    simp [Ne.symm (hinstall r)]
  have ha (m : ε) : .answer i (.error m) ∈ es ++ [e] ↔ .answer i (.error m) ∈ es := by
    simp [Ne.symm (hanswer m)]
  cases c <;> simpa only [StageKeeps, hi, ha] using h

variable {es : List (UpdateEvent σ ρ ε ι)}

theorem stage_of_step {s s' : UpdateSystem σ ρ ι} {e : UpdateEvent σ ρ ε ι}
    (hs : ∀ i, StageKeeps u es i (s.stage i)) (h : Step u s e s') :
    ∀ i, StageKeeps u (es ++ [e]) i (s'.stage i) := by
  have hacting {j : ι} {c c' : UpdateStage ρ} (h : s.stage j = c')
      (hc : StageKeeps u es j c' → StageKeeps u (es ++ [e]) j c)
      (hinstall : ∀ i ≠ j, ∀ r, e ≠ .install i r)
      (hanswer : ∀ i ≠ j, ∀ m, e ≠ .answer i (.error m)) :
      ∀ i, StageKeeps u (es ++ [e]) i (Function.update s.stage j c i) :=
    (Function.forall_update_iff _ _).mpr
      ⟨hc (h ▸ hs j), fun i hi => (hs i).frame (hinstall i hi) (hanswer i hi)⟩
  cases h with
  | start j r h =>
    exact hacting h (fun hj => StageKeeps.frame (c := .started r) hj (by simp) (by simp))
      (by simp) (by simp)
  | pass j r h hcheck =>
    exact hacting h
      (fun hj => StageKeeps.frame (c := .checked r) ⟨⟨_, hcheck⟩, hj⟩ (by simp) (by simp))
      (by simp) (by simp)
  | reject j r m h hcheck =>
    refine hacting h (fun hj r' _ hr' => ?_) (by simp) fun i hi => by simp [Ne.symm hi]
    exact absurd (by simpa using hr') (hj.1 r')
  | install j r h =>
    refine hacting h (fun hj m => ?_) (fun i hi => by simp [Ne.symm hi]) (by simp)
    simpa using hj.2.2 m
  | answer j r h =>
    refine hacting h (fun hj _ m _ => ?_) (by simp) (by simp)
    simpa using hj m

variable {c₀ : σ}

theorem stage_of_run {s : UpdateSystem σ ρ ι} (run : Run (Step u) (initial c₀) es s) :
    ∀ i, StageKeeps u es i (s.stage i) :=
  run.history (P := fun es s => ∀ i, StageKeeps u es i (s.stage i))
    (fun i => show StageKeeps u [] i .waiting from
      ⟨fun _ => List.not_mem_nil, fun _ => List.not_mem_nil⟩)
    fun _ _ _ _ _ hs h => stage_of_step hs h

/-- A call that answered with an error was not installed. -/
theorem no_install_of_error {s : UpdateSystem σ ρ ι} (run : Run (Step u) (initial c₀) es s) {i : ι}
    {m : ε} (h : .answer i (.error m) ∈ es) (r : ρ) : .install i r ∉ es := by
  have hi := stage_of_run run i
  cases hc : s.stage i with
  | waiting => exact absurd h ((hc ▸ hi : StageKeeps u es i .waiting).2 m)
  | started r' => exact absurd h ((hc ▸ hi : StageKeeps u es i (.started r')).2 m)
  | checked r' => exact absurd h ((hc ▸ hi : StageKeeps u es i (.checked r')).2.2 m)
  | installed r' => exact absurd h ((hc ▸ hi : StageKeeps u es i (.installed r')) m)
  | finished => exact fun hr => (hc ▸ hi : StageKeeps u es i .finished) r m hr h

/-- **Rejected calls leave the cell as it was**, in every step that they take. -/
theorem cell_eq_of_error {s : UpdateSystem σ ρ ι} (run : Run (Step u) (initial c₀) es s) :
    Run.AtEvents (Step u) (initial c₀) (fun t e => ∀ m t', .answer e.caller (.error m) ∈ es →
      Step u t e t' → t'.cell = t.cell) es := by
  intro n t e _ he m t' hanswer h
  rcases h.cell_eq with ⟨i, r, rfl, -, -⟩ | ⟨-, hcell⟩
  · exact absurd (List.mem_of_getElem? he) (no_install_of_error run hanswer r)
  · exact hcell

/-- The value of the cell into which a call is merged suits it. -/
def InstallFits (fits : σ → ρ → Prop) (s : UpdateSystem σ ρ ι) : UpdateEvent σ ρ ε ι → Prop
  | .install _ r => fits s.cell r
  | .start _ _ | .pass _ _ | .answer _ _ => True

/-- **The exact condition for an invariant of the cell.** If merging a checked request keeps `valid`
exactly when it fits the value, the cell is valid throughout a run exactly when it is so initially
and every installed call fits. -/
theorem always_iff {valid : σ → Prop} {fits : σ → ρ → Prop}
    (hmerge : ∀ c c' r, valid c → u.check c' r = .ok () → (valid (u.merge r c) ↔ fits c r))
    {s : UpdateSystem σ ρ ι} (run : Run (Step u) (initial c₀) es s) :
    Run.Always (Step u) (initial c₀) (fun s => valid s.cell) es ↔
      valid c₀ ∧ Run.AtEvents (Step u) (initial c₀) (InstallFits fits) es := by
  have hdet (s : UpdateSystem σ ρ ι) (e : UpdateEvent σ ρ ε ι) (s₁ s₂ : UpdateSystem σ ρ ι)
      (h₁ : Step u s e s₁) (h₂ : Step u s e s₂) : s₁ = s₂ := h₁.deterministic h₂
  refine Run.always_iff hdet (fun es s e s' run hvalid h => ?_) run
  rcases h.cell_eq with ⟨i, r, rfl, hi, hcell⟩ | ⟨hne, hcell⟩
  · obtain ⟨⟨c', hcheck⟩, -⟩ := (hi ▸ stage_of_run run i : StageKeeps u es i (.checked r))
    rw [hcell]
    exact hmerge s.cell c' r hvalid hcheck
  · rw [hcell]
    cases e with
    | install i r => exact absurd rfl (hne i r)
    | _ => exact iff_of_true hvalid trivial

end UpdateSystem

end RustExample
