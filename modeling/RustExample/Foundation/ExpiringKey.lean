import Mathlib.Tactic.Common

/-!
# A key that expires

A key of a store holds a value up to a moment, or until it is removed. A value that was put in with
a lifetime is there until then, as long as the key is changed only by operations that do not find
it free and by operations that compare the value first: it is leased.
-/

namespace RustExample

/-- A value with the moment at which it expires, if it does. -/
structure ExpiringValue (α : Type) where
  value : α
  expireAt : Option ℕ
  deriving DecidableEq

/-- A key of a store: free, or with a value that may have expired. -/
abbrev ExpiringKey (α : Type) := Option (ExpiringValue α)

namespace ExpiringKey

variable {α : Type}

/-- The value, unless it has expired. -/
def get (key : ExpiringKey α) (now : ℕ) : Option α :=
  match key with
  | none => none
  | some entry => if entry.expireAt.all (now < ·) then some entry.value else none

/-- Put a value in that does not expire. -/
def set (v : α) : ExpiringKey α := some ⟨v, none⟩

/-- Put a value with a lifetime into a free key. -/
def setNx (key : ExpiringKey α) (now : ℕ) (v : α) (ttl : ℕ) : Bool × ExpiringKey α :=
  match key.get now with
  | some _ => (false, key)
  | none => (true, some ⟨v, some (now + ttl)⟩)

/-- Give the value a lifetime, if there is one. -/
def expire (key : ExpiringKey α) (now ttl : ℕ) : Bool × ExpiringKey α :=
  match key.get now with
  | some v => (true, some ⟨v, some (now + ttl)⟩)
  | none => (false, key)

theorem get_of_later {key : ExpiringKey α} {now ms : ℕ} {v : α} (h : key.get (now + ms) = some v) :
    key.get now = some v := by
  cases key with
  | none => exact h
  | some entry =>
    obtain ⟨w, expireAt⟩ := entry
    cases expireAt with
    | none => exact h
    | some limit =>
      simp only [get, Option.all_some, decide_eq_true_eq, Option.ite_none_right_eq_some] at h ⊢
      exact ⟨by omega, h.2⟩

theorem get_expire {ttl : ℕ} (key : ExpiringKey α) (now : ℕ) (h : 0 < ttl) :
    (key.expire now ttl).2.get now = key.get now := by
  rw [expire]
  cases hv : key.get now with
  | none => exact hv
  | some v => simp [get, h]

variable [DecidableEq α]

/-- Remove the value, if it is `v`. -/
def compareDel (key : ExpiringKey α) (now : ℕ) (v : α) : Bool × ExpiringKey α :=
  if key.get now = some v then (true, none) else (false, key)

/-- Give the value a lifetime, if it is `v`. -/
def compareExpire (key : ExpiringKey α) (now : ℕ) (v : α) (ttl : ℕ) : Bool × ExpiringKey α :=
  if key.get now = some v then key.expire now ttl else (false, key)

/-! ### Leases -/

/-- The key holds `v` up to the moment `limit`, if that is still to come. -/
def Leased (key : ExpiringKey α) (now : ℕ) (v : α) (limit : ℕ) : Prop :=
  key = some ⟨v, some limit⟩ ∨ limit ≤ now

omit [DecidableEq α] in
theorem get_some {now limit : ℕ} {v : α} (h : now < limit) :
    get (some ⟨v, some limit⟩) now = some v := by
  simp [get, h]

namespace Leased

variable {key : ExpiringKey α} {now limit ttl : ℕ} {v w : α}

omit [DecidableEq α]

/-- **A lease that is not over** shows the value. -/
theorem get (h : Leased key now v limit) (hlimit : now < limit) : key.get now = some v := by
  obtain rfl : key = some ⟨v, some limit⟩ := h.resolve_right (Nat.not_le.mpr hlimit)
  exact get_some hlimit

theorem pass (h : Leased key now v limit) (ms : ℕ) : Leased key (now + ms) v limit :=
  h.imp_right fun hlimit => Nat.le_trans hlimit (Nat.le_add_right ..)

/-- Nobody else finds the key free before the lease is over. -/
theorem le_of_setNx (h : Leased key now v limit) (hset : (key.setNx now w ttl).1 = true) :
    limit ≤ now := by
  by_contra hlimit
  rw [ExpiringKey.setNx, h.get (Nat.not_le.mp hlimit)] at hset
  exact absurd hset nofun

theorem setNx (h : Leased key now v limit) (w : α) (ttl : ℕ) :
    Leased (key.setNx now w ttl).2 now v limit := by
  by_cases hset : (key.setNx now w ttl).1 = true
  · exact .inr (h.le_of_setNx hset)
  · rw [ExpiringKey.setNx] at hset ⊢
    split at hset
    · exact h
    · exact absurd rfl hset

theorem of_setNx (h : (key.setNx now v ttl).1 = true) :
    Leased (key.setNx now v ttl).2 now v (now + ttl) := by
  rw [ExpiringKey.setNx] at h ⊢
  split at h
  · exact absurd h nofun
  · exact .inl rfl

variable [DecidableEq α]

/-- A removal that compares with another value does nothing to the lease. -/
theorem compareDel (h : Leased key now v limit) (hne : w ≠ v) :
    Leased (key.compareDel now w).2 now v limit := by
  rw [ExpiringKey.compareDel]
  split_ifs with hw
  · refine .inr (Nat.not_lt.mp fun hlimit => hne ?_)
    exact Option.some.inj (hw.symm.trans (h.get hlimit))
  · exact h

/-- A lifetime that is given to another value does nothing to the lease. -/
theorem compareExpire (h : Leased key now v limit) (hne : w ≠ v) (ttl : ℕ) :
    Leased (key.compareExpire now w ttl).2 now v limit := by
  rw [ExpiringKey.compareExpire]
  split_ifs with hw
  · refine .inr (Nat.not_lt.mp fun hlimit => hne ?_)
    exact Option.some.inj (hw.symm.trans (h.get hlimit))
  · exact h

theorem of_compareExpire (h : (key.compareExpire now v ttl).1 = true) :
    Leased (key.compareExpire now v ttl).2 now v (now + ttl) := by
  rw [ExpiringKey.compareExpire] at h ⊢
  split_ifs at h ⊢ with hv
  rw [expire, hv]
  exact .inl rfl

theorem compareExpire_of_false (h : (key.compareExpire now v ttl).1 = false) :
    (key.compareExpire now v ttl).2 = key := by
  rw [ExpiringKey.compareExpire] at h ⊢
  split_ifs at h ⊢ with hv
  · rw [expire, hv] at h
    exact absurd h nofun
  · rfl

end Leased

end ExpiringKey

end RustExample
