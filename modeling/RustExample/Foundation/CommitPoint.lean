import RustExample.Foundation.Fallible

/-!
# Calls that fail before or after they commit

A call changes a state and may fail at any of its steps; what it has changed by then stays
changed. It is all or nothing if the steps that may fail come before the first step that changes
the state: a call that cannot fail is all or nothing, and so it stays with steps before it that
change nothing.
-/

namespace RustExample

/-- A call on a state `σ` that may fail with an `ε`. -/
abbrev Call (σ ε α : Type) := ExceptT ε (StateM σ) α

/-- A step that fails with the given error, if there is one. -/
def attempt {ε : Type} : Option ε → Except ε Unit
  | none => .ok ()
  | some err => .error err

@[simp] theorem attempt_eq_ok {ε : Type} {fault : Option ε} {u : Unit} :
    attempt fault = .ok u ↔ fault = none := by
  cases fault <;> simp [attempt]

namespace Call

variable {σ ε α β : Type}

/-- The outcome of a call and the state that it leaves. -/
def exec (x : Call σ ε α) (s : σ) : Except ε α × σ := x.run.run s

/-- A step that does not touch the state. -/
def ofExcept (r : Except ε α) : Call σ ε α := ExceptT.mk (pure r)

@[simp] theorem exec_modify (f : σ → σ) (s : σ) :
    (modify f : Call σ ε Unit).exec s = (.ok (), f s) := rfl

@[simp] theorem exec_ofExcept (r : Except ε α) (s : σ) : (ofExcept r).exec s = (r, s) := rfl

theorem exec_bind (x : Call σ ε α) (f : α → Call σ ε β) (s : σ) :
    (x >>= f).exec s = match x.exec s with
      | (.ok a, s') => (f a).exec s'
      | (.error err, s') => (.error err, s') := by
  have hrun : (x >>= f).exec s = (ExceptT.bindCont f (x.exec s).1).run (x.exec s).2 := rfl
  rw [hrun]
  obtain ⟨a | err, s'⟩ := x.exec s <;> rfl

variable {s' : σ}

theorem exec_bind_eq_ok {x : Call σ ε α} {f : α → Call σ ε β} {s : σ} {b : β} :
    (x >>= f).exec s = (.ok b, s') ↔
      ∃ a s₁, x.exec s = (.ok a, s₁) ∧ (f a).exec s₁ = (.ok b, s') := by
  rw [exec_bind]
  obtain ⟨err | a, s₁⟩ := x.exec s <;> simp

variable {err : ε}

theorem exec_bind_eq_error {x : Call σ ε α} {f : α → Call σ ε β} {s : σ} :
    (x >>= f).exec s = (.error err, s') ↔ x.exec s = (.error err, s') ∨
      ∃ a s₁, x.exec s = (.ok a, s₁) ∧ (f a).exec s₁ = (.error err, s') := by
  rw [exec_bind]
  obtain ⟨err | a, s₁⟩ := x.exec s <;> simp

/-- A step that only checks or computes something succeeds where it is. -/
theorem exec_ofExcept_bind_eq_ok {r : Except ε α} {f : α → Call σ ε β} {s : σ} {b : β} :
    (ofExcept r >>= f).exec s = (.ok b, s') ↔ ∃ a, r = .ok a ∧ (f a).exec s = (.ok b, s') := by
  rw [exec_bind, exec_ofExcept]
  cases r <;> simp

theorem exec_ofExcept_bind_eq_error {r : Except ε α} {f : α → Call σ ε β} {s : σ} :
    (ofExcept r >>= f).exec s = (.error err, s') ↔
      r = .error err ∧ s' = s ∨ ∃ a, r = .ok a ∧ (f a).exec s = (.error err, s') := by
  rw [exec_bind, exec_ofExcept]
  cases r <;> simp [eq_comm]

/-- A call without its answer succeeds as the call does. -/
theorem forget_eq_ok {r : Except ε α × σ} {u : Unit} :
    Prod.map (Except.map fun _ => ()) id r = (.ok u, s') ↔ ∃ a, r = (.ok a, s') := by
  obtain ⟨err | a, s⟩ := r <;> simp [Except.map]

theorem forget_eq_error {r : Except ε α × σ} :
    Prod.map (Except.map fun _ => ()) id r = (.error err, s') ↔ r = (.error err, s') := by
  obtain ⟨err | a, s⟩ := r <;> simp [Except.map]

/-! ### Where a call commits -/

/-- The call does not change the state. -/
def Reads (x : Call σ ε α) : Prop := ∀ s, (x.exec s).2 = s

/-- The call ends well from any state. -/
def Total (x : Call σ ε α) : Prop := ∀ s, ∃ a s', x.exec s = (.ok a, s')

/-- The call leaves the state as it was if it fails. -/
def Atomic (x : Call σ ε α) : Prop := ∀ s err s', x.exec s = (.error err, s') → s' = s

theorem reads_get : (get : Call σ ε σ).Reads := fun _ => rfl

theorem reads_ofExcept (r : Except ε α) : (ofExcept r : Call σ ε α).Reads := fun _ => rfl

theorem total_pure (a : α) : (pure a : Call σ ε α).Total := fun s => ⟨a, s, rfl⟩

theorem total_modify (f : σ → σ) : (modify f : Call σ ε Unit).Total := fun s => ⟨(), f s, rfl⟩

theorem Total.bind {x : Call σ ε α} {f : α → Call σ ε β} (hx : x.Total)
    (hf : ∀ a, (f a).Total) : (x >>= f).Total := by
  intro s
  obtain ⟨a, s₁, ha⟩ := hx s
  obtain ⟨b, s₂, hb⟩ := hf a s₁
  exact ⟨b, s₂, exec_bind_eq_ok.mpr ⟨a, s₁, ha, hb⟩⟩

theorem Total.atomic {x : Call σ ε α} (hx : x.Total) : x.Atomic := by
  intro s err s' h
  obtain ⟨a, s₁, ha⟩ := hx s
  rw [ha] at h
  cases h

/-- Before the first change of the state any step may fail. -/
theorem Reads.bind_atomic {x : Call σ ε α} {f : α → Call σ ε β} (hx : x.Reads)
    (hf : ∀ a, (f a).Atomic) : (x >>= f).Atomic := by
  intro s err s' h
  rcases exec_bind_eq_error.mp h with hfail | ⟨a, s₁, ha, hfail⟩
  · simpa [hfail] using hx s
  · obtain rfl : s₁ = s := by simpa [ha] using hx s
    exact hf a s₁ err s' hfail

end Call

end RustExample
