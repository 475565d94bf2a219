import Mathlib.Tactic.Common

/-!
# Sequences of fallible steps

A sequence of steps that may fail succeeds exactly when every step of it does.
-/

namespace RustExample

open List

variable {ε α β : Type}

@[simp] theorem ok_bind (a : α) (f : α → Except ε β) :
    ((Except.ok a : Except ε α) >>= f) = f a := rfl

@[simp] theorem error_bind (e : ε) (f : α → Except ε β) :
    ((Except.error e : Except ε α) >>= f) = .error e := rfl

@[simp] theorem pure_eq_ok (a : α) : (pure a : Except ε α) = .ok a := rfl

theorem bind_eq_ok {x : Except ε α} {f : α → Except ε β} {b : β} :
    (x >>= f) = .ok b ↔ ∃ a, x = .ok a ∧ f a = .ok b := by
  cases x with
  | error e => simp
  | ok a => simp

/-- A check that comes before what is left to do. -/
theorem guard_eq_ok {p : Prop} [Decidable p] {e : ε} {x : Except ε α} {a : α} :
    (if p then .error e else x) = .ok a ↔ ¬p ∧ x = .ok a := by
  split <;> simp_all

theorem map_eq_ok {x : Except ε α} {f : α → β} {b : β} :
    x.map f = .ok b ↔ ∃ a, x = .ok a ∧ f a = b := by
  cases x <;> simp [Except.map]

theorem mapError_eq_ok {δ : Type} {x : Except ε α} {f : ε → δ} {a : α} :
    x.mapError f = .ok a ↔ x = .ok a := by
  cases x <;> simp [Except.mapError]

theorem mapM_eq_ok {f : α → Except ε β} {g : α → β} {l : List α} (h : ∀ a ∈ l, f a = .ok (g a)) :
    l.mapM f = .ok (l.map g) := by
  induction l with
  | nil => rfl
  | cons a l ih =>
    rw [mapM_cons, h a mem_cons_self, ih fun b hb => h b (mem_cons_of_mem _ hb)]
    rfl

theorem mapM_eq_some {f : α → Option β} {g : α → β} {l : List α} (h : ∀ a ∈ l, f a = some (g a)) :
    l.mapM f = some (l.map g) := by
  induction l with
  | nil => rfl
  | cons a l ih =>
    rw [mapM_cons, h a mem_cons_self, ih fun b hb => h b (mem_cons_of_mem _ hb)]
    rfl

/-- Where all items of a stream were put in, all of them were read. -/
theorem foldlM_items_eq_ok {put : β → Except ε α → Except ε β} {step : β → α → Except ε β}
    (hput : ∀ b item b', put b item = .ok b' → ∃ a, item = .ok a ∧ step b a = .ok b')
    {items : List (Except ε α)} {b b' : β} (h : items.foldlM put b = .ok b') :
    ∃ read : List α, items = read.map .ok ∧ read.foldlM step b = .ok b' := by
  induction items generalizing b with
  | nil => exact ⟨[], rfl, h⟩
  | cons item items ih =>
    rw [foldlM_cons] at h
    obtain ⟨b₁, hitem, hrest⟩ := bind_eq_ok.mp h
    obtain ⟨read, rfl, hread⟩ := ih hrest
    obtain ⟨a, rfl, hstep⟩ := hput b item b₁ hitem
    exact ⟨a :: read, rfl, by rw [foldlM_cons, hstep, ok_bind, hread]⟩

end RustExample
