import Mathlib.Algebra.BigOperators.Group.List.Basic
import Mathlib.Tactic.Abel
import RustExample.Foundation.Run

/-!
# Concurrent calls on a shared state

Any number of calls run at the same time. Each of them takes its steps one after the other, a step
reads and writes the shared state and leads to the next stage of the call, and the steps of
different calls come in any order.

What the shared state holds is compared with what the calls hold by tallies: the sum of a weight
over all the calls. A step of one call changes a tally by the weights of its two stages.
-/

namespace RustExample

open List

variable {σ κ M : Type*}

/-! ### Tallies -/

section Tally

variable [AddCommMonoid M] (w : κ → M)

/-- The sum of the weights. -/
def tally (l : List κ) : M := (l.map w).sum

@[simp] theorem tally_nil : tally w [] = 0 := rfl

@[simp] theorem tally_cons (c : κ) (l : List κ) : tally w (c :: l) = w c + tally w l := by
  rw [tally, map_cons, sum_cons, tally]

@[simp] theorem tally_snoc (l : List κ) (c : κ) : tally w (l ++ [c]) = tally w l + w c := by
  rw [tally, map_append, sum_append, map_singleton, sum_singleton, tally]

theorem exists_tally_eq_add {l : List κ} {i : ℕ} {c : κ} (h : l[i]? = some c) :
    ∃ rest, tally w l = rest + w c ∧ ∀ c', tally w (l.set i c') = rest + w c' := by
  induction l generalizing i with
  | nil => simp at h
  | cons d l ih =>
    cases i with
    | zero =>
      obtain rfl : d = c := by simpa using h
      exact ⟨tally w l, by rw [tally_cons, add_comm], fun c' => by
        rw [set_cons_zero, tally_cons, add_comm]⟩
    | succ i =>
      obtain ⟨rest, hl, hset⟩ := ih (by simpa using h : l[i]? = some c)
      exact ⟨w d + rest, by rw [tally_cons, hl, add_assoc], fun c' => by
        rw [set_cons_succ, tally_cons, hset, add_assoc]⟩

/-- The tally with one entry changed: the old entry's weight goes, the new one's comes. -/
theorem tally_set {l : List κ} {i : ℕ} {c : κ} (h : l[i]? = some c) (c' : κ) :
    tally w (l.set i c') + w c = tally w l + w c' := by
  obtain ⟨rest, hl, hset⟩ := exists_tally_eq_add w h
  rw [hl, hset, add_right_comm]

end Tally

/-- **A balance is kept by a step that keeps it for its own call.** -/
theorem balanced_set [AddCancelCommMonoid M] {f g f' g' : M} {u w : κ → M} {l : List κ} {i : ℕ}
    {c c' : κ} (hi : l[i]? = some c) (hstep : f' + u c' + (g + w c) = f + u c + (g' + w c'))
    (h : f + tally u l = g + tally w l) :
    f' + tally u (l.set i c') = g' + tally w (l.set i c') := by
  obtain ⟨x, hx, hx'⟩ := exists_tally_eq_add u hi
  obtain ⟨y, hy, hy'⟩ := exists_tally_eq_add w hi
  rw [hx, hy] at h
  rw [hx', hy']
  have hsum : f' + (x + u c') + (g + (y + w c)) = g' + (y + w c') + (g + (y + w c)) := by
    calc f' + (x + u c') + (g + (y + w c)) = f' + u c' + (g + w c) + (x + y) := by abel
      _ = f + u c + (g' + w c') + (x + y) := by rw [hstep]
      _ = f + (x + u c) + (g' + (y + w c')) := by abel
      _ = g' + (y + w c') + (g + (y + w c)) := by rw [h, add_comm]
  exact add_right_cancel hsum

/-! ### Interleavings -/

namespace Calls

/-- A call is made, or a call takes a step. -/
inductive Event (κ : Type*)
  | start (c : κ)
  | advance (i : ℕ)

/-- The interleavings of calls that start as `starts` says and take the steps `next`. -/
inductive Step (starts : κ → Prop) (next : σ → κ → Option (σ × κ)) :
    σ × List κ → Event κ → σ × List κ → Prop
  | start {s : σ} {l : List κ} {c : κ} (h : starts c) :
      Step starts next (s, l) (.start c) (s, l ++ [c])
  | advance {s s' : σ} {l : List κ} {i : ℕ} {c c' : κ} (hi : l[i]? = some c)
      (h : next s c = some (s', c')) :
      Step starts next (s, l) (.advance i) (s', l.set i c')

theorem Step.det {starts : κ → Prop} {next : σ → κ → Option (σ × κ)} {x y z : σ × List κ}
    {e : Event κ} (h : Step starts next x e y) (h' : Step starts next x e z) : y = z := by
  cases h with
  | start => cases h' with | start => rfl
  | advance hi h =>
    cases h' with
    | advance hi' h' =>
      cases hi.symm.trans hi'
      cases h.symm.trans h'
      rfl

end Calls

end RustExample
