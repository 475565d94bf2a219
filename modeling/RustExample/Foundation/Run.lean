import Mathlib.Data.List.Induction
import Mathlib.Data.List.TakeDrop

/-!
# Runs of a labelled transition system with their history

A run records its events in order, so that an invariant may speak of the past as well as of the
state. `Run.history` is the induction every invariant of this development uses: it holds of the
empty history, and one step preserves it. `Run.at_event` gives the states around an event of a
run.
-/

namespace RustExample

open List

variable {σ ε : Type*}

variable {es : List ε}

theorem getElem?_snoc {e c : ε} {k : ℕ} :
    (es ++ [e])[k]? = some c ↔ es[k]? = some c ∨ k = es.length ∧ e = c := by
  rcases Nat.lt_trichotomy k es.length with h | rfl | h
  · simp [getElem?_append_left h, Nat.ne_of_lt h]
  · simp
  · have hes : es[k]? = none := getElem?_eq_none (Nat.le_of_lt h)
    have hsnoc : (es ++ [e])[k]? = none :=
      getElem?_eq_none (by rw [length_append]; exact h)
    rw [hes, hsnoc]
    exact ⟨nofun, fun hk => absurd (hk.resolve_left nofun).1 (Nat.ne_of_gt h)⟩

/-- The runs of a step relation from `s₀`: the events in order and the state reached. -/
inductive Run (step : σ → ε → σ → Prop) (s₀ : σ) : List ε → σ → Prop
  | nil : Run step s₀ [] s₀
  | snoc {es : List ε} {s s' : σ} {e : ε} (run : Run step s₀ es s) (h : step s e s') :
      Run step s₀ (es ++ [e]) s'

namespace Run

variable {step : σ → ε → σ → Prop} {s₀ : σ}

/-- **Invariants with history.** What holds of the initial state and the empty past, and is
preserved by every step of a run, holds of every state reached and its past. -/
theorem history {P : List ε → σ → Prop} (h₀ : P [] s₀)
    (hstep : ∀ es s e s', Run step s₀ es s → P es s → step s e s' → P (es ++ [e]) s') {s : σ}
    (run : Run step s₀ es s) : P es s := by
  induction run with
  | nil => exact h₀
  | snoc run h ih => exact hstep _ _ _ _ run ih h

variable {P : σ → Prop}

theorem invariant (h₀ : P s₀) (hstep : ∀ s e s', P s → step s e s' → P s') {s : σ}
    (run : Run step s₀ es s) : P s :=
  run.history (P := fun _ s => P s) h₀ fun _ s e s' _ => hstep s e s'

theorem imp {step' : σ → ε → σ → Prop} (h : ∀ s e s', step s e s' → step' s e s') {s : σ}
    (run : Run step s₀ es s) : Run step' s₀ es s := by
  induction run with
  | nil => exact nil
  | snoc _ hstep ih => exact ih.snoc (h _ _ _ hstep)

theorem eq_of_nil {s : σ} (run : Run step s₀ [] s) : s = s₀ := by
  generalize hes : ([] : List ε) = es at run
  cases run with
  | nil => rfl
  | snoc _ _ => simp at hes

theorem of_foldlM {f : σ → ε → Option σ} {s : σ} (h : es.foldlM f s₀ = some s) :
    Run (fun s e s' => f s e = some s') s₀ es s := by
  induction es using List.reverseRecOn generalizing s with
  | nil =>
    obtain rfl : s₀ = s := by simpa using h
    exact nil
  | append_singleton es e ih =>
    rw [foldlM_append] at h
    obtain ⟨t, ht, hs⟩ := Option.bind_eq_some_iff.mp h
    exact (ih ht).snoc (by simpa using hs)

/-- A run whose last event is `e` reached the state before it. -/
theorem of_snoc {e : ε} {s : σ} (run : Run step s₀ (es ++ [e]) s) :
    ∃ s', Run step s₀ es s' ∧ step s' e s := by
  generalize hes : es ++ [e] = es' at run
  cases run with
  | nil => simp at hes
  | snoc run h =>
    obtain ⟨rfl, he⟩ := append_inj' hes rfl
    obtain rfl : e = _ := by simpa using he
    exact ⟨_, run, h⟩

theorem append {es' : List ε} {s s' : σ} (run : Run step s₀ es s) (run' : Run step s es' s') :
    Run step s₀ (es ++ es') s' := by
  induction run' with
  | nil => simpa using run
  | snoc _ h ih => simpa using ih.snoc h

theorem cons {s s' : σ} {e : ε} (h : step s₀ e s) (run : Run step s es s') :
    Run step s₀ (e :: es) s' :=
  append (nil.snoc h) run

theorem of_append {es' : List ε} {s : σ} (run : Run step s₀ (es ++ es') s) :
    ∃ s', Run step s₀ es s' ∧ Run step s' es' s := by
  induction es' using List.reverseRecOn generalizing s with
  | nil => exact ⟨s, by simpa using run, nil⟩
  | append_singleton es' e ih =>
    rw [← append_assoc] at run
    obtain ⟨s', run', h⟩ := run.of_snoc
    obtain ⟨s₁, h₁, h₂⟩ := ih run'
    exact ⟨s₁, h₁, h₂.snoc h⟩

theorem take {s : σ} (run : Run step s₀ es s) (n : ℕ) :
    ∃ s', Run step s₀ (es.take n) s' := by
  rw [← take_append_drop n es] at run
  obtain ⟨s', h, -⟩ := run.of_append
  exact ⟨s', h⟩

theorem at_event {s : σ} (run : Run step s₀ es s) {i : ℕ} {e : ε} (hi : es[i]? = some e) :
    ∃ s₁ s₂, Run step s₀ (es.take i) s₁ ∧ step s₁ e s₂ ∧ Run step s₂ (es.drop (i + 1)) s := by
  obtain ⟨hlt, he⟩ := List.getElem?_eq_some_iff.mp hi
  have hes : es = es.take i ++ ([e] ++ es.drop (i + 1)) := by
    rw [singleton_append, ← he, getElem_cons_drop, take_append_drop]
  rw [hes] at run
  obtain ⟨s₁, h₁, h₂⟩ := run.of_append
  obtain ⟨s₂, h₂, h₃⟩ := h₂.of_append
  obtain ⟨s', h', hs⟩ := Run.of_snoc (by simpa using h₂ : Run step s₁ ([] ++ [e]) s₂)
  obtain rfl := h'.eq_of_nil
  exact ⟨s', s₂, h₁, hs, h₃⟩

/-! ### States along a run -/

/-- `P` holds of every state that a history passes through. -/
def Always (step : σ → ε → σ → Prop) (s₀ : σ) (P : σ → Prop) (es : List ε) : Prop :=
  ∀ n s, Run step s₀ (es.take n) s → P s

/-- `Q` holds of every event of a history and the state in which it happens. -/
def AtEvents (step : σ → ε → σ → Prop) (s₀ : σ) (Q : σ → ε → Prop) (es : List ε) : Prop :=
  ∀ n s e, Run step s₀ (es.take n) s → es[n]? = some e → Q s e

variable {Q : σ → ε → Prop}

theorem AtEvents.snoc {e : ε} (h : AtEvents step s₀ Q es) (he : ∀ s, Run step s₀ es s → Q s e) :
    AtEvents step s₀ Q (es ++ [e]) := by
  intro n s c hs hc
  rcases getElem?_snoc.mp hc with hc | ⟨rfl, rfl⟩
  · have hlt := (List.getElem?_eq_some_iff.mp hc).1
    rw [take_append_of_le_length (Nat.le_of_lt hlt)] at hs
    exact h n s c hs hc
  · rw [take_left] at hs
    exact he s hs

theorem AtEvents.of_append {es' : List ε} (h : AtEvents step s₀ Q (es ++ es')) :
    AtEvents step s₀ Q es := by
  intro n s e hs he
  have hlt := (List.getElem?_eq_some_iff.mp he).1
  refine h n s e ?_ ((getElem?_append_left hlt).trans he)
  rwa [take_append_of_le_length (Nat.le_of_lt hlt)]

theorem AtEvents.take (h : AtEvents step s₀ Q es) (n : ℕ) :
    AtEvents step s₀ Q (es.take n) := by
  rw [← take_append_drop n es] at h
  exact h.of_append

theorem of_atEvents {s : σ} (run : Run step s₀ es s) (h : AtEvents step s₀ Q es) :
    Run (fun s e s' => step s e s' ∧ Q s e) s₀ es s := by
  induction run with
  | nil => exact nil
  | @snoc es s _ e run hstep ih =>
    refine (ih h.of_append).snoc ⟨hstep, h es.length s e ?_ ?_⟩
    · rwa [take_left]
    · rw [getElem?_append_right (Nat.le_refl _), Nat.sub_self, getElem?_cons_zero]

theorem state_unique (hdet : ∀ s e s₁ s₂, step s e s₁ → step s e s₂ → s₁ = s₂) {s s' : σ}
    (run : Run step s₀ es s) (run' : Run step s₀ es s') : s = s' := by
  induction run generalizing s' with
  | nil => exact run'.eq_of_nil.symm
  | snoc _ h ih =>
    obtain ⟨s₁, run₁, h₁⟩ := run'.of_snoc
    obtain rfl := ih run₁
    exact hdet _ _ _ _ h h₁

/-- The steps of a run hold of its history, if every step leads to one state. -/
theorem atEvents_of_run (hdet : ∀ s e s₁ s₂, step s e s₁ → step s e s₂ → s₁ = s₂) {s : σ}
    (run : Run (fun s e s' => step s e s' ∧ Q s e) s₀ es s) : AtEvents step s₀ Q es := by
  intro n t e ht he
  obtain ⟨s₁, s₂, h₁, hs, -⟩ := run.at_event he
  obtain rfl := state_unique hdet ht (h₁.imp fun _ _ _ h => h.1)
  exact hs.2

theorem Always.nil (h : P s₀) : Always step s₀ P [] := fun n s run => by
  rw [take_nil] at run
  exact run.eq_of_nil ▸ h

theorem Always.cons (hdet : ∀ s e s₁ s₂, step s e s₁ → step s e s₂ → s₁ = s₂) {e : ε} {s₁ : σ}
    (h₀ : P s₀) (hstep : step s₀ e s₁) (h : Always step s₁ P es) : Always step s₀ P (e :: es) := by
  intro n s run
  cases n with
  | zero => exact run.eq_of_nil ▸ h₀
  | succ n =>
    rw [take_succ_cons, ← singleton_append] at run
    obtain ⟨s', run₁, run⟩ := run.of_append
    obtain rfl := state_unique hdet run₁ (Run.cons hstep Run.nil)
    exact h n s run

/-- **The exact condition for an invariant.** If a step from a state of `P` leads to one exactly
when `Q` holds of it, a run stays in `P` exactly when it starts there and `Q` holds of all its
steps. -/
theorem always_iff (hdet : ∀ s e s₁ s₂, step s e s₁ → step s e s₂ → s₁ = s₂)
    (hstep : ∀ es s e s', Run step s₀ es s → P s → step s e s' → (P s' ↔ Q s e)) {s : σ}
    (run : Run step s₀ es s) :
    Always step s₀ P es ↔ P s₀ ∧ AtEvents step s₀ Q es := by
  constructor
  · intro h
    refine ⟨h 0 s₀ nil, fun n t e ht he => ?_⟩
    obtain ⟨s₁, s₂, h₁, hs, -⟩ := run.at_event he
    obtain rfl := state_unique hdet ht h₁
    have hlt := (List.getElem?_eq_some_iff.mp he).1
    have htake : es.take (n + 1) = es.take n ++ [e] := by
      rw [take_add_one, he, Option.toList_some]
    exact (hstep _ _ _ _ ht (h n _ ht) hs).mp (h (n + 1) s₂ (htake ▸ h₁.snoc hs))
  · rintro ⟨h₀, h⟩ n
    induction n with
    | zero => exact fun t ht => ht.eq_of_nil ▸ h₀
    | succ n ih =>
      intro t ht
      cases he : es[n]? with
      | none =>
        rw [take_add_one, he, Option.toList_none, append_nil] at ht
        exact ih t ht
      | some e =>
        rw [take_add_one, he, Option.toList_some] at ht
        obtain ⟨s₁, h₁, hs⟩ := ht.of_snoc
        exact (hstep _ _ _ _ h₁ (ih s₁ h₁) hs).mpr (h n s₁ e h₁ he)

end Run

/-! ### Positions of a history -/

/-- Event `i` of a history satisfies `P`, and no later event satisfies `Q`. -/
structure HeldSince (P Q : ε → Prop) (es : List ε) (i : ℕ) : Prop where
  event : ∃ e, es[i]? = some e ∧ P e
  none_after : ∀ k e, i < k → es[k]? = some e → ¬Q e

/-- The event `e` is at position `i` of a history and nowhere else. -/
def OccursAt (es : List ε) (e : ε) (i : ℕ) : Prop := ∀ j, es[j]? = some e ↔ j = i

namespace OccursAt

variable {es : List ε} {e c : ε} {i : ℕ}

theorem lt_length (h : OccursAt es e i) : i < es.length :=
  (List.getElem?_eq_some_iff.mp ((h i).mpr rfl)).1

theorem snoc (h : OccursAt es e i) (hne : c ≠ e) : OccursAt (es ++ [c]) e i := by
  intro j
  rw [getElem?_snoc, h j]
  simp [hne]

theorem last (h : e ∉ es) : OccursAt (es ++ [e]) e es.length := by
  intro j
  rw [getElem?_snoc]
  constructor
  · rintro (hj | ⟨rfl, -⟩)
    · exact absurd (mem_of_getElem? hj) h
    · rfl
  · exact fun hj => .inr ⟨hj, rfl⟩

end OccursAt

/-- How many events up to position `i` satisfy `p`: a counter that each of them raises. -/
def countUpTo (p : ε → Bool) (es : List ε) (i : ℕ) : ℕ := (es.take (i + 1)).countP p

theorem countUpTo_snoc {p : ε → Bool} {i : ℕ} (hi : i < es.length) (e : ε) :
    countUpTo p (es ++ [e]) i = countUpTo p es i := by
  rw [countUpTo, take_append_of_le_length hi, countUpTo]

theorem countUpTo_last (p : ε → Bool) (es : List ε) (e : ε) :
    countUpTo p (es ++ [e]) es.length = (es ++ [e]).countP p := by
  rw [countUpTo, take_of_length_le (by simp)]

/-- The counter tells earlier events from later ones that raise it. -/
theorem countUpTo_lt {p : ε → Bool} {i j : ℕ} {e : ε} (hij : i < j) (hj : es[j]? = some e)
    (he : p e) : countUpTo p es i < countUpTo p es j := by
  have htake : es.take (j + 1) = es.take j ++ [e] := by
    rw [take_add_one, hj, Option.toList_some]
  have hle : (es.take (i + 1)).countP p ≤ (es.take j).countP p :=
    (take_sublist_take_left hij).countP_le
  rw [countUpTo, countUpTo, htake, countP_append, countP_singleton, if_pos he]
  exact Nat.lt_succ_of_le hle

namespace HeldSince

variable {P Q : ε → Prop} {es : List ε} {e : ε} {i : ℕ}

theorem lt_length (h : HeldSince P Q es i) : i < es.length := by
  obtain ⟨e, he, -⟩ := h.event
  exact (List.getElem?_eq_some_iff.mp he).1

/-- An event that does not satisfy `Q` changes nothing. -/
theorem snoc (h : HeldSince P Q es i) (hq : ¬Q e) : HeldSince P Q (es ++ [e]) i := by
  refine ⟨?_, fun k c hik hk => ?_⟩
  · obtain ⟨c, hc, hp⟩ := h.event
    exact ⟨c, getElem?_snoc.mpr (.inl hc), hp⟩
  · rcases getElem?_snoc.mp hk with hk | ⟨-, rfl⟩
    · exact h.none_after k c hik hk
    · exact hq

/-- What holds after one more event held before it, or the event itself is meant. -/
theorem of_snoc (h : HeldSince P Q (es ++ [e]) i) :
    (HeldSince P Q es i ∧ ¬Q e) ∨ (i = es.length ∧ P e) := by
  obtain ⟨c, hc, hp⟩ := h.event
  rcases getElem?_snoc.mp hc with hc | ⟨rfl, rfl⟩
  · have hlt := (List.getElem?_eq_some_iff.mp hc).1
    refine .inl ⟨⟨⟨c, hc, hp⟩, fun k d hik hd => ?_⟩, ?_⟩
    · exact h.none_after k d hik (getElem?_snoc.mpr (.inl hd))
    · exact h.none_after es.length e hlt (getElem?_snoc.mpr (.inr ⟨rfl, rfl⟩))
  · exact .inr ⟨rfl, hp⟩

theorem last (hp : P e) : HeldSince P Q (es ++ [e]) es.length := by
  refine ⟨⟨e, getElem?_snoc.mpr (.inr ⟨rfl, rfl⟩), hp⟩, fun k c hk hc => ?_⟩
  rcases getElem?_snoc.mp hc with hc | ⟨rfl, -⟩
  · have := (List.getElem?_eq_some_iff.mp hc).1
    omega
  · omega

end HeldSince

namespace Run

variable {step : σ → ε → σ → Prop} {s₀ : σ}

/-- **Forward simulation.** If every step from a related state is matched by a step of the other
system under the same event name, every run is matched by a run. -/
theorem simulate {σ' ε' : Type*} {step' : σ' → ε' → σ' → Prop} {t₀ : σ'} {R : σ → σ' → Prop}
    (f : ε' → ε) (h₀ : R s₀ t₀)
    (hstep : ∀ s t e s', R s t → step s e s' → ∃ e' t', step' t e' t' ∧ f e' = e ∧ R s' t') {s : σ}
    (run : Run step s₀ es s) :
    ∃ es' t, Run step' t₀ es' t ∧ es'.map f = es ∧ R s t := by
  induction run with
  | nil => exact ⟨[], t₀, nil, rfl, h₀⟩
  | snoc _ h ih =>
    obtain ⟨es', t, run', rfl, hR⟩ := ih
    obtain ⟨e', t', h', rfl, hR'⟩ := hstep _ _ _ _ hR h
    exact ⟨es' ++ [e'], t', run'.snoc h', by simp, hR'⟩

/-- **Weak simulation.** If every step from a related state is matched by steps of the other
system that show the same, every run is matched by a run that shows the same. -/
theorem simulate_shown {σ' ε' ω : Type*} {step' : σ' → ε' → σ' → Prop} {t₀ : σ'} {R : σ → σ' → Prop}
    (shown : ε → Option ω) (shown' : ε' → Option ω) (h₀ : R s₀ t₀)
    (hstep : ∀ s t e s', R s t → step s e s' → ∃ es' t', Run step' t es' t' ∧
      es'.filterMap shown' = (shown e).toList ∧ R s' t') {s : σ} (run : Run step s₀ es s) :
    ∃ es' t, Run step' t₀ es' t ∧ es'.filterMap shown' = es.filterMap shown ∧ R s t := by
  induction run with
  | nil => exact ⟨[], t₀, nil, rfl, h₀⟩
  | @snoc _ _ _ e _ h ih =>
    obtain ⟨es', t, run', hes, hR⟩ := ih
    obtain ⟨es'', t', run'', he, hR'⟩ := hstep _ _ _ _ hR h
    refine ⟨es' ++ es'', t', run'.append run'', ?_, hR'⟩
    rw [filterMap_append, filterMap_append, hes, he]
    cases hshown : shown e <;> simp [hshown]

end Run

end RustExample
