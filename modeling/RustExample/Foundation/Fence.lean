import RustExample.Foundation.Run

/-!
# Programs that share an object and a fence

Programs run concurrently, each a sequence of calls to a shared object. A program may try to take
the fence, which one of them holds at a time; it is rejected if the fence is taken, and gives the
fence back when it is done. A call that changes the view of the object is safe when it is made
under the fence: then the view is still the one that was in force when the fence was taken.

The rule is one of rely and guarantee. Each program by itself follows a policy: without the fence
it makes calls that leave the view as it is, and under the fence it may make one call that changes
the view, which the policy allows by the view at that time. Then every call of every run is made
by the policy of its program.
-/

namespace RustExample

variable {Op : Type} {Res : Op → Type} {σ ι ρ ν α : Type}

/-! ### Programs -/

/-- A program makes calls, whose answers it awaits, and may try to take the fence. -/
inductive FencedProgram (Op : Type) (Res : Op → Type) (α : Type) where
  | done (a : α)
  | call (op : Op) (k : Res op → FencedProgram Op Res α)
  | tryFence (busy : α) (fenced : FencedProgram Op Res α)

/-- The calls that a program has made, with their answers. -/
abbrev CallLog (Op : Type) (Res : Op → Type) := List ((op : Op) × Res op)

/-- A program in progress for a request. -/
structure FenceThread (Op : Type) (Res : Op → Type) (ρ α : Type) where
  request : ρ
  log : CallLog Op Res
  program : FencedProgram Op Res α

/-- The stage of a thread. -/
inductive FenceStage (Op : Type) (Res : Op → Type) (ρ α : Type) where
  | waiting
  | running (t : FenceThread Op Res ρ α)
  | finished

/-! ### Interleavings -/

/-- The shared object, the holder of the fence and the threads. -/
structure FenceSystem (Op : Type) (Res : Op → Type) (σ ι ρ α : Type) where
  obj : σ
  holder : Option ι
  stage : ι → FenceStage Op Res ρ α

/-- What a thread does. -/
inductive FenceEvent (Op : Type) (Res : Op → Type) (σ ι ρ α : Type) where
  | start (i : ι) (r : ρ)
  | fence (i : ι) (obj : σ)
  | busy (i : ι)
  | call (i : ι) (r : ρ) (op : Op) (res : Res op)
  | finish (i : ι) (r : ρ) (a : α)

namespace FenceSystem

variable [DecidableEq ι]

/-- A thread comes to a stage. -/
def setStage (s : FenceSystem Op Res σ ι ρ α) (i : ι) (c : FenceStage Op Res ρ α) :
    FenceSystem Op Res σ ι ρ α :=
  { s with stage := Function.update s.stage i c }

/-- No thread has started. -/
def initial (obj : σ) : FenceSystem Op Res σ ι ρ α := ⟨obj, none, fun _ => .waiting⟩

variable (exec : σ → (op : Op) → Res op → σ → Prop) (program : ρ → FencedProgram Op Res α)

/-- The steps of the threads. The fence is given back when its holder is done. -/
inductive Step (s : FenceSystem Op Res σ ι ρ α) :
    FenceEvent Op Res σ ι ρ α → FenceSystem Op Res σ ι ρ α → Prop
  | start (i : ι) (r : ρ) (h : s.stage i = .waiting) :
      Step s (.start i r) (s.setStage i (.running ⟨r, [], program r⟩))
  | fence (i : ι) (r : ρ) (log : CallLog Op Res) (busy : α) (p : FencedProgram Op Res α)
      (h : s.stage i = .running ⟨r, log, .tryFence busy p⟩) (hfree : s.holder = none) :
      Step s (.fence i s.obj) { s.setStage i (.running ⟨r, log, p⟩) with holder := some i }
  | busy (i : ι) (r : ρ) (log : CallLog Op Res) (busy : α) (p : FencedProgram Op Res α)
      (h : s.stage i = .running ⟨r, log, .tryFence busy p⟩) (htaken : s.holder ≠ none) :
      Step s (.busy i) (s.setStage i (.running ⟨r, log, .done busy⟩))
  | call (i : ι) (r : ρ) (log : CallLog Op Res) (op : Op) (k : Res op → FencedProgram Op Res α)
      (res : Res op) (obj : σ) (h : s.stage i = .running ⟨r, log, .call op k⟩)
      (hexec : exec s.obj op res obj) :
      Step s (.call i r op res)
        { s.setStage i (.running ⟨r, log ++ [⟨op, res⟩], k res⟩) with obj := obj }
  | finish (i : ι) (r : ρ) (log : CallLog Op Res) (a : α)
      (h : s.stage i = .running ⟨r, log, .done a⟩) :
      Step s (.finish i r a)
        { s.setStage i .finished with holder := if s.holder = some i then none else s.holder }

end FenceSystem

/-! ### Policies -/

/-- What a program may do: `fresh` tells when it may take the fence, `allowed` which calls it may
make, and `post` how it may end, given its calls and the view. -/
structure FencePolicy (Op : Type) (Res : Op → Type) (ν α : Type) where
  fresh : CallLog Op Res → ν → Prop
  allowed : CallLog Op Res → ν → Op → Prop
  post : CallLog Op Res → ν → α → Prop

namespace FencedProgram

variable (exec : σ → (op : Op) → Res op → σ → Prop) (view : σ → ν) (harmless : Op → Prop)
  (policy : FencePolicy Op Res ν α)

/-- The program of a holder of the fence that has made its change, in the view `v`. -/
def Spent (v : ν) (log : CallLog Op Res) : FencedProgram Op Res α → Prop
  | .done a => policy.post log v a
  | .call op k => harmless op ∧ ∀ res, Spent v (log ++ [⟨op, res⟩]) (k res)
  | .tryFence _ _ => False

/-- The program of a holder of the fence, in the view `v` in which the fence was taken. -/
def Held (v : ν) (log : CallLog Op Res) : FencedProgram Op Res α → Prop
  | .done a => policy.post log v a
  | .call op k =>
    (harmless op ∧ ∀ s res s', view s = v → exec s op res s' →
      Held v (log ++ [⟨op, res⟩]) (k res)) ∨
      policy.allowed log v op ∧ ∀ s res s', view s = v → exec s op res s' →
        Spent harmless policy (view s') (log ++ [⟨op, res⟩]) (k res)
  | .tryFence _ _ => False

/-- The program of a thread without the fence. -/
def Free (log : CallLog Op Res) : FencedProgram Op Res α → Prop
  | .done a => ∀ v, policy.post log v a
  | .call op k => harmless op ∧ ∀ s res s', exec s op res s' → Free (log ++ [⟨op, res⟩]) (k res)
  | .tryFence busy p => (∀ v, policy.post log v busy) ∧
      ∀ v, policy.fresh log v → Held exec view harmless policy v log p

variable {exec view harmless policy}
variable {policy' : FencePolicy Op Res ν α}

variable {log : CallLog Op Res}

theorem Spent.mono (hpost : ∀ log v a, policy.post log v a → policy'.post log v a) {v : ν}
    {p : FencedProgram Op Res α} (h : p.Spent harmless policy v log) :
    p.Spent harmless policy' v log := by
  induction p generalizing log with
  | done a => exact hpost log v a h
  | call op k ih => exact ⟨h.1, fun res => ih res (h.2 res)⟩
  | tryFence busy p ih => exact h.elim

theorem Held.mono (hallowed : ∀ log v op, policy.allowed log v op → policy'.allowed log v op)
    (hpost : ∀ log v a, policy.post log v a → policy'.post log v a) {v : ν}
    {p : FencedProgram Op Res α} (h : p.Held exec view harmless policy v log) :
    p.Held exec view harmless policy' v log := by
  induction p generalizing log with
  | done a => exact hpost log v a h
  | call op k ih =>
    rcases h with ⟨hop, hk⟩ | ⟨hop, hk⟩
    · exact .inl ⟨hop, fun s res s' hs hexec => ih res (hk s res s' hs hexec)⟩
    · exact .inr ⟨hallowed log v op hop, fun s res s' hs hexec =>
        (hk s res s' hs hexec).mono hpost⟩
  | tryFence busy p ih => exact h.elim

/-- A holder of the fence need not make the call that changes the view. -/
theorem Spent.held {v : ν} {p : FencedProgram Op Res α} (h : p.Spent harmless policy v log) :
    p.Held exec view harmless policy v log := by
  induction p generalizing log with
  | done a => exact h
  | call op k ih => exact .inl ⟨h.1, fun _ res _ _ _ => ih res (h.2 res)⟩
  | tryFence busy p ih => exact h.elim

/-- A program that follows a policy follows a weaker one. -/
theorem Free.mono (hfresh : ∀ log v, policy'.fresh log v → policy.fresh log v)
    (hallowed : ∀ log v op, policy.allowed log v op → policy'.allowed log v op)
    (hpost : ∀ log v a, policy.post log v a → policy'.post log v a) {p : FencedProgram Op Res α}
    (h : p.Free exec view harmless policy log) : p.Free exec view harmless policy' log := by
  induction p generalizing log with
  | done a => exact fun v => hpost log v a (h v)
  | call op k ih => exact ⟨h.1, fun s res s' hexec => ih res (h.2 s res s' hexec)⟩
  | tryFence busy p ih =>
    exact ⟨fun v => hpost log v busy (h.1 v), fun v hv =>
      (h.2 v (hfresh log v hv)).mono hallowed hpost⟩

end FencedProgram

/-! ### Runs of programs that follow their policy -/

namespace FenceSystem

variable (exec : σ → (op : Op) → Res op → σ → Prop) (program : ρ → FencedProgram Op Res α)
  (view : σ → ν) (harmless : Op → Prop) (policy : ρ → FencePolicy Op Res ν α)

/-- A step that takes the fence does so as the policy of its program has it. -/
def TakesFresh (s : FenceSystem Op Res σ ι ρ α) : FenceEvent Op Res σ ι ρ α → Prop
  | .fence i _ => ∀ t, s.stage i = .running t → (policy t.request).fresh t.log (view s.obj)
  | .start _ _ | .busy _ | .call _ _ _ _ | .finish _ _ _ => True

/-- The event ends a call of thread `i`. -/
def FinishOf (i : ι) : FenceEvent Op Res σ ι ρ α → Prop
  | .finish j _ _ => j = i
  | .start _ _ | .fence _ _ | .busy _ | .call _ _ _ _ => False

/-- Thread `i` took the fence of the object `o` at position `j`, and holds it since. -/
abbrev FencedSince (es : List (FenceEvent Op Res σ ι ρ α)) (i : ι) (o : σ) (j : ℕ) : Prop :=
  HeldSince (· = .fence i o) (FinishOf i) es j

/-- What a thread that follows its policy has done and will do; `v` is the current view. -/
def ThreadKeeps (es : List (FenceEvent Op Res σ ι ρ α)) (holder : Option ι) (v : ν) (i : ι) :
    FenceStage Op Res ρ α → Prop
  | .running t => (∀ c ∈ t.log, .call i t.request c.1 c.2 ∈ es) ∧
      (holder ≠ some i ∧ t.program.Free exec view harmless (policy t.request) t.log ∨
        holder = some i ∧
          ((∃ j o, FencedSince es i o j ∧ view o = v ∧
              t.program.Held exec view harmless (policy t.request) v t.log) ∨
            t.program.Spent harmless (policy t.request) v t.log))
  | .waiting | .finished => holder ≠ some i

/-- Every thread follows its policy. -/
def Disciplined (es : List (FenceEvent Op Res σ ι ρ α)) (s : FenceSystem Op Res σ ι ρ α) : Prop :=
  ∀ i, ThreadKeeps exec view harmless policy es s.holder (view s.obj) i (s.stage i)

variable {exec program view harmless policy} {es : List (FenceEvent Op Res σ ι ρ α)}
  {e : FenceEvent Op Res σ ι ρ α} {s s' : FenceSystem Op Res σ ι ρ α}

/-- A step of another thread, if it leaves the view to the holder of the fence. -/
theorem ThreadKeeps.frame {holder holder' : Option ι} {v v' : ν} {i : ι}
    {c : FenceStage Op Res ρ α} (h : ThreadKeeps exec view harmless policy es holder v i c)
    (he : ¬FinishOf i e) (hholder : holder' = some i ↔ holder = some i)
    (hv : holder = some i → v' = v) :
    ThreadKeeps exec view harmless policy (es ++ [e]) holder' v' i c := by
  cases c with
  | waiting => exact fun hi => h (hholder.mp hi)
  | finished => exact fun hi => h (hholder.mp hi)
  | running t =>
    obtain ⟨hlog, hrun⟩ := h
    refine ⟨fun c hc => List.mem_append_left _ (hlog c hc), ?_⟩
    rcases hrun with ⟨hno, hfree⟩ | ⟨hi, hrun⟩
    · exact .inl ⟨fun hi => hno (hholder.mp hi), hfree⟩
    · obtain rfl := hv hi
      refine .inr ⟨hholder.mpr hi, hrun.imp ?_ id⟩
      rintro ⟨j, o, hsince, ho, hheld⟩
      exact ⟨j, o, hsince.snoc he, ho, hheld⟩

/-- A thread about to make a call that may change the view holds the fence, in the view in which it
was taken, and the policy allows the call. -/
theorem Disciplined.allowed (h : Disciplined exec view harmless policy es s) {i : ι} {r : ρ}
    {log : CallLog Op Res} {op : Op} {k : Res op → FencedProgram Op Res α}
    (hi : s.stage i = .running ⟨r, log, .call op k⟩) (hop : ¬harmless op) :
    ∃ j o, FencedSince es i o j ∧ view o = view s.obj ∧
      (policy r).allowed log (view s.obj) op := by
  have hthread := h i
  rw [hi] at hthread
  obtain ⟨-, ⟨-, hfree⟩ | ⟨-, ⟨j, o, hsince, ho, hheld⟩ | hspent⟩⟩ := hthread
  · exact absurd hfree.1 hop
  · rcases hheld with ⟨hharmless, -⟩ | ⟨hallowed, -⟩
    · exact absurd hharmless hop
    · exact ⟨j, o, hsince, ho, hallowed⟩
  · exact absurd hspent.1 hop

theorem Disciplined.post (h : Disciplined exec view harmless policy es s) {i : ι} {r : ρ}
    {log : CallLog Op Res} {a : α} (hi : s.stage i = .running ⟨r, log, .done a⟩) :
    (policy r).post log (view s.obj) a := by
  have hthread := h i
  rw [hi] at hthread
  obtain ⟨-, ⟨-, hfree⟩ | ⟨-, ⟨j, o, -, -, hheld⟩ | hspent⟩⟩ := hthread
  · exact hfree _
  · exact hheld
  · exact hspent

theorem Disciplined.logged (h : Disciplined exec view harmless policy es s) {i : ι}
    {t : FenceThread Op Res ρ α} (hi : s.stage i = .running t) :
    ∀ c ∈ t.log, .call i t.request c.1 c.2 ∈ es := by
  have hthread := h i
  rw [hi] at hthread
  exact hthread.1

variable [DecidableEq ι]

omit [DecidableEq ι] in
theorem disciplined_initial (obj : σ) :
    Disciplined exec view harmless policy [] (initial obj : FenceSystem Op Res σ ι ρ α) :=
  fun _ => nofun

/-- The acting thread keeps its policy, and the others are left alone. -/
theorem Disciplined.setStage (h : Disciplined exec view harmless policy es s) {i : ι}
    {c : FenceStage Op Res ρ α} {holder : Option ι} {obj : σ}
    (hi : ThreadKeeps exec view harmless policy (es ++ [e]) holder (view obj) i c)
    (he : ∀ j, j ≠ i → ¬FinishOf j e) (hholder : ∀ j, j ≠ i → (holder = some j ↔ s.holder = some j))
    (hv : ∀ j, j ≠ i → s.holder = some j → view obj = view s.obj) :
    Disciplined exec view harmless policy (es ++ [e]) ⟨obj, holder, (s.setStage i c).stage⟩ := by
  intro j
  by_cases hj : j = i
  · subst hj
    rw [FenceSystem.setStage]
    simpa only [Function.update_self] using hi
  · rw [FenceSystem.setStage]
    simpa only [Function.update_of_ne hj] using (h j).frame (he j hj) (hholder j hj) (hv j hj)

/-- **Every step keeps the discipline.** -/
theorem Disciplined.step
    (hharmless : ∀ s op res s', harmless op → exec s op res s' → view s' = view s)
    (hprogram : ∀ r, (program r).Free exec view harmless (policy r) [])
    (h : Disciplined exec view harmless policy es s) (hstep : Step exec program s e s')
    (hfresh : s.TakesFresh view policy e) :
    Disciplined exec view harmless policy (es ++ [e]) s' := by
  cases hstep with
  | start i r hi =>
    have hthread := h i
    rw [hi] at hthread
    refine h.setStage ⟨nofun, .inl ⟨hthread, hprogram r⟩⟩ ?_ ?_ ?_
    · exact fun _ _ => id
    · exact fun _ _ => Iff.rfl
    · exact fun _ _ _ => rfl
  | fence i r log busy p hi hfree =>
    have hthread := h i
    rw [hi] at hthread
    obtain ⟨hlog, ⟨-, hprog⟩ | ⟨hholder, -⟩⟩ := hthread
    · have hheld := hprog.2 _ (hfresh _ hi)
      refine h.setStage ⟨fun c hc => List.mem_append_left _ (hlog c hc),
        .inr ⟨rfl, .inl ⟨es.length, s.obj, HeldSince.last rfl, rfl, hheld⟩⟩⟩ ?_ ?_ ?_
      · exact fun _ _ => id
      · exact fun j hj => by simp [hfree, hj.symm]
      · exact fun _ _ _ => rfl
    · simp [hfree] at hholder
  | busy i r log busy p hi htaken =>
    have hthread := h i
    rw [hi] at hthread
    obtain ⟨hlog, ⟨hno, hprog⟩ | ⟨-, ⟨_, _, _, _, hheld⟩ | hspent⟩⟩ := hthread
    · refine h.setStage ⟨fun c hc => List.mem_append_left _ (hlog c hc),
        .inl ⟨hno, hprog.1⟩⟩ ?_ ?_ ?_
      · exact fun _ _ => id
      · exact fun _ _ => Iff.rfl
      · exact fun _ _ _ => rfl
    · exact hheld.elim
    · exact hspent.elim
  | call i r log op k res obj hi hexec =>
    have hthread := h i
    rw [hi] at hthread
    obtain ⟨hlog, hrun⟩ := hthread
    have hlog' : ∀ c ∈ log ++ [⟨op, res⟩], .call i r c.1 c.2 ∈ es ++ [.call i r op res] := by
      intro c hc
      rcases List.mem_append.mp hc with hc | hc
      · exact List.mem_append_left _ (hlog c hc)
      · obtain rfl := List.mem_singleton.mp hc
        exact List.mem_append_right _ (List.mem_singleton_self _)
    have hother : s.holder = some i → ∀ j, j ≠ i → s.holder = some j → view obj = view s.obj :=
      fun hholder j hj hj' => absurd (Option.some.inj (hj'.symm.trans hholder)) hj
    have hsame (hop : harmless op) : view obj = view s.obj := hharmless _ _ _ _ hop hexec
    rcases hrun with ⟨hno, hop, hk⟩ | ⟨hholder, ⟨j, o, hsince, ho, ⟨hop, hk⟩ | ⟨-, hk⟩⟩ | ⟨hop, hk⟩⟩
    · exact h.setStage ⟨hlog', .inl ⟨hno, hk s.obj res obj hexec⟩⟩ (fun _ _ => id)
        (fun _ _ => Iff.rfl) fun _ _ _ => hsame hop
    · refine h.setStage ⟨hlog', .inr ⟨hholder, .inl ⟨j, o, hsince.snoc id,
        ho.trans (hsame hop).symm, ?_⟩⟩⟩ (fun _ _ => id) (fun _ _ => Iff.rfl) (hother hholder)
      rw [hsame hop]
      exact hk s.obj res obj rfl hexec
    · exact h.setStage ⟨hlog', .inr ⟨hholder, .inr (hk s.obj res obj rfl hexec)⟩⟩
        (fun _ _ => id) (fun _ _ => Iff.rfl) (hother hholder)
    · refine h.setStage ⟨hlog', .inr ⟨hholder, .inr ?_⟩⟩ (fun _ _ => id)
        (fun _ _ => Iff.rfl) (hother hholder)
      rw [hsame hop]
      exact hk res
  | finish i r log a hi =>
    refine h.setStage ?_ ?_ ?_ ?_
    · by_cases hholder : s.holder = some i <;> simp [ThreadKeeps, hholder]
    · exact fun j hj hij => hj hij.symm
    · intro j hj
      by_cases hholder : s.holder = some i <;> simp [hholder, hj.symm]
    · exact fun _ _ _ => rfl

theorem Step.stage_cases (h : Step exec program s e s') (i : ι) :
    s'.stage i = s.stage i ∨
      (∃ r, s.stage i = .waiting ∧ e = .start i r ∧ s'.stage i = .running ⟨r, [], program r⟩) ∨
      (∃ t t', s.stage i = .running t ∧ s'.stage i = .running t' ∧ t.request = t'.request) ∨
      ∃ t, s.stage i = .running t ∧ s'.stage i = .finished := by
  have hother {j : ι} {c : FenceStage Op Res ρ α} (hij : i ≠ j) :
      (s.setStage j c).stage i = s.stage i := by simp [setStage, hij]
  have hself {c : FenceStage Op Res ρ α} : (s.setStage i c).stage i = c := by simp [setStage]
  cases h with
  | start j r hj =>
    by_cases hij : i = j
    · subst hij
      exact .inr (.inl ⟨r, hj, rfl, hself⟩)
    · exact .inl (hother hij)
  | fence j r log busy p hj hfree =>
    by_cases hij : i = j
    · subst hij
      exact .inr (.inr (.inl ⟨_, _, hj, hself, rfl⟩))
    · exact .inl (hother hij)
  | busy j r log busy p hj htaken =>
    by_cases hij : i = j
    · subst hij
      exact .inr (.inr (.inl ⟨_, _, hj, hself, rfl⟩))
    · exact .inl (hother hij)
  | call j r log op k res obj hj hexec =>
    by_cases hij : i = j
    · subst hij
      exact .inr (.inr (.inl ⟨_, _, hj, hself, rfl⟩))
    · exact .inl (hother hij)
  | finish j r log a hj =>
    by_cases hij : i = j
    · subst hij
      exact .inr (.inr (.inr ⟨_, hj, hself⟩))
    · exact .inl (hother hij)

/-- A thread that is running has been started for its request. -/
theorem Step.running (h : Step exec program s e s') {i : ι} {t' : FenceThread Op Res ρ α}
    (ht : s'.stage i = .running t') :
    (∃ t, s.stage i = .running t ∧ t.request = t'.request) ∨ e = .start i t'.request := by
  rcases h.stage_cases i with hsame | ⟨r, -, rfl, hs'⟩ | ⟨t, t'', hs, hs', hreq⟩ | ⟨t, -, hs'⟩
  · exact .inl ⟨t', hsame ▸ ht, rfl⟩
  · obtain rfl := FenceStage.running.inj (hs'.symm.trans ht)
    exact .inr rfl
  · obtain rfl := FenceStage.running.inj (hs'.symm.trans ht)
    exact .inl ⟨t, hs, hreq⟩
  · cases hs'.symm.trans ht

theorem Step.waiting (h : Step exec program s e s') {i : ι} (hi : s'.stage i = .waiting) :
    s.stage i = .waiting := by
  rcases h.stage_cases i with hsame | ⟨r, hs, -, -⟩ | ⟨t, t', -, hs', -⟩ | ⟨t, -, hs'⟩
  · exact hsame ▸ hi
  · exact hs
  · cases hs'.symm.trans hi
  · cases hs'.symm.trans hi

/-- **Programs that follow their policy keep it in every run** whose steps take the fence as the
policy has it. -/
theorem disciplined_of_run
    (hharmless : ∀ s op res s', harmless op → exec s op res s' → view s' = view s)
    (hprogram : ∀ r, (program r).Free exec view harmless (policy r) []) {obj : σ}
    (run : Run (fun s e s' => Step exec program s e s' ∧ s.TakesFresh view policy e) (initial obj)
      es s) : Disciplined exec view harmless policy es s :=
  run.history (P := Disciplined exec view harmless policy) (disciplined_initial obj)
    fun _ _ _ _ _ h hstep => h.step hharmless hprogram hstep.1 hstep.2

end FenceSystem

end RustExample
