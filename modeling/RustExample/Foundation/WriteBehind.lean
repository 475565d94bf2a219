import Mathlib.Tactic.Common

/-!
# Write-behind cells

A write-behind cell has its value in a cache and a copy of it in a row. A write puts its value into
the cache and then marks the cell dirty; a flush reads the cache, writes what it read into the row
and then clears the mark. Writes and flushes interleave, and the mark does not say for which value
it stands. No write is lost as long as flushes write and clear only what is current: what the
cache holds, or what a write that has not yet marked the cell is about to replace.
-/

namespace RustExample

open Function

/-- A write-behind cell: the cached value with its write, the mark, the row, the writes in flight
with whether they have marked the cell, and the last completed value. -/
@[ext] structure WriteBehindCell (ι α : Type) where
  cache : Option (ι × α)
  dirty : Bool
  row : Option α
  writes : ι → Option (α × Bool)
  completed : Option α

namespace WriteBehindCell

variable {ι α : Type}

/-- The cached value. -/
def value (c : WriteBehindCell ι α) : Option α := c.cache.map Prod.snd

/-- The write that put the cached value is in flight. -/
def Unfinished (c : WriteBehindCell ι α) : Prop :=
  ∃ i a marked, c.cache = some (i, a) ∧ c.writes i = some (a, marked)

/-- The write that put the cached value is yet to mark the cell. -/
def Unmarked (c : WriteBehindCell ι α) : Prop :=
  ∃ i a, c.cache = some (i, a) ∧ c.writes i = some (a, false)

/-! ### Operations -/

section Operations

variable [DecidableEq ι]

/-- A write puts its value into the cache. -/
def write (c : WriteBehindCell ι α) (i : ι) (a : α) : WriteBehindCell ι α :=
  { c with cache := some (i, a), writes := update c.writes i (some (a, false)) }

/-- A write marks the cell. -/
def mark (c : WriteBehindCell ι α) (i : ι) (a : α) : WriteBehindCell ι α :=
  { c with dirty := true, writes := update c.writes i (some (a, true)) }

/-- A write succeeds. -/
def succeed (c : WriteBehindCell ι α) (i : ι) (a : α) : WriteBehindCell ι α :=
  { c with writes := update c.writes i none, completed := some a }

/-- A write fails. -/
def fail (c : WriteBehindCell ι α) (i : ι) : WriteBehindCell ι α :=
  { c with writes := update c.writes i none }

end Operations

/-- A flush writes a value into the row. -/
def upsert (c : WriteBehindCell ι α) (a : α) : WriteBehindCell ι α := { c with row := some a }

/-- The mark is taken off. -/
def clear (c : WriteBehindCell ι α) : WriteBehindCell ι α := { c with dirty := false }

/-- The cell is marked, for whatever reason. -/
def touch (c : WriteBehindCell ι α) : WriteBehindCell ι α := { c with dirty := true }

/-! ### The invariant -/

/-- The cached value is the one of the last completed write or of a write in flight, and it is in
the row unless the cell is marked or about to be. -/
structure Sound (c : WriteBehindCell ι α) : Prop where
  own : ∀ i a a' marked, c.cache = some (i, a) → c.writes i = some (a', marked) → a' = a
  settled : c.Unfinished ∨ c.value = c.completed
  flushed : c.dirty = true ∨ c.Unmarked ∨ c.row = c.value

theorem sound_empty : Sound (⟨none, false, none, fun _ => none, none⟩ : WriteBehindCell ι α) :=
  ⟨nofun, .inr rfl, .inr (.inr rfl)⟩

namespace Sound

variable {c : WriteBehindCell ι α}

/-- **A quiet cell.** Without mark and writes in flight, the row has the last completed value. -/
theorem row_eq (h : c.Sound) (hclean : c.dirty = false) (hquiet : ∀ i, c.writes i = none) :
    c.row = c.completed := by
  have hvalue : c.value = c.completed := by
    refine h.settled.resolve_left ?_
    rintro ⟨i, a, marked, -, hi⟩
    rw [hquiet i] at hi
    cases hi
  rcases h.flushed with hdirty | ⟨i, a, -, hi⟩ | hrow
  · rw [hclean] at hdirty
    cases hdirty
  · rw [hquiet i] at hi
    cases hi
  · exact hrow.trans hvalue

theorem touch (h : c.Sound) : c.touch.Sound := ⟨h.own, h.settled, .inl rfl⟩

/-- A flush writes a current value, or the mark stays for another one. -/
theorem upsert (h : c.Sound) {a : α} (ha : c.dirty = true ∨ c.Unmarked ∨ c.value = some a) :
    (c.upsert a).Sound :=
  ⟨h.own, h.settled, ha.imp_right (Or.imp_right Eq.symm)⟩

/-- A flush clears the mark of a cell whose row is current. -/
theorem clear (h : c.Sound) (hrow : c.Unmarked ∨ c.row = c.value) : c.clear.Sound :=
  ⟨h.own, h.settled, .inr hrow⟩

variable [DecidableEq ι]

/-- A write brings any cell in order until it completes. -/
theorem write (c : WriteBehindCell ι α) (i : ι) (a : α) : (c.write i a).Sound := by
  have hi : (c.write i a).writes i = some (a, false) := update_self ..
  refine ⟨fun j b b' marked hj hb => ?_, .inl ⟨i, a, false, rfl, hi⟩,
    .inr (.inl ⟨i, a, rfl, hi⟩)⟩
  obtain ⟨⟩ := hj
  rw [hi] at hb
  exact (Prod.mk.inj (Option.some.inj hb)).1.symm

theorem mark (h : c.Sound) {i : ι} {a : α} {marked : Bool} (hi : c.writes i = some (a, marked)) :
    (c.mark i a).Sound := by
  refine ⟨fun j b b' marked' hj hb => ?_, ?_, .inl rfl⟩
  · by_cases hij : j = i
    · subst hij
      have hself : (c.mark j a).writes j = some (a, true) := update_self ..
      rw [hself] at hb
      obtain ⟨rfl, -⟩ := Prod.mk.inj (Option.some.inj hb)
      exact h.own j b a marked hj hi
    · have hother : (c.mark i a).writes j = c.writes j := update_of_ne hij ..
      exact h.own j b b' marked' hj (hother ▸ hb)
  · refine h.settled.imp_left ?_
    rintro ⟨j, b, marked', hj, hb⟩
    by_cases hij : j = i
    · subst hij
      obtain ⟨rfl, -⟩ := Prod.mk.inj (Option.some.inj (hi.symm.trans hb))
      exact ⟨j, a, true, hj, update_self ..⟩
    · exact ⟨j, b, marked', hj, (update_of_ne hij ..).trans hb⟩

theorem of_leave (h : c.Sound) (i j : ι) (a a' : α) (marked : Bool) (hj : c.cache = some (j, a))
    (ha : update c.writes i none j = some (a', marked)) : a' = a := by
  by_cases hij : j = i
  · rw [hij, update_self] at ha
    cases ha
  · rw [update_of_ne hij] at ha
    exact h.own j a a' marked hj ha

/-- A write completes while its value is current, or another one is about to be. -/
theorem succeed (h : c.Sound) {i : ι} {a : α} (hi : c.writes i = some (a, true))
    (horder : c.Unfinished ∨ c.value = some a) : (c.succeed i a).Sound := by
  refine ⟨h.of_leave i, ?_, h.flushed.imp_right (Or.imp_left ?_)⟩
  · rcases horder with ⟨j, b, marked, hj, hb⟩ | hvalue
    · by_cases hij : j = i
      · subst hij
        obtain ⟨rfl, -⟩ := Prod.mk.inj (Option.some.inj (hi.symm.trans hb))
        exact .inr (congrArg (Option.map Prod.snd) hj)
      · exact .inl ⟨j, b, marked, hj, (update_of_ne hij ..).trans hb⟩
    · exact .inr hvalue
  · rintro ⟨j, b, hj, hb⟩
    have hij : j ≠ i := by
      rintro rfl
      rw [hi] at hb
      cases hb
    exact ⟨j, b, hj, (update_of_ne hij ..).trans hb⟩

/-- A write gives up after another one has replaced its value. -/
theorem fail (h : c.Sound) {i : ι} (hreplaced : ∀ a, c.cache ≠ some (i, a)) : (c.fail i).Sound := by
  have hne {j : ι} {b : α} (hj : c.cache = some (j, b)) : j ≠ i := by
    rintro rfl
    exact hreplaced b hj
  refine ⟨h.of_leave i, h.settled.imp_left ?_, h.flushed.imp_right (Or.imp_left ?_)⟩
  · rintro ⟨j, b, marked, hj, hb⟩
    exact ⟨j, b, marked, hj, (update_of_ne (hne hj) ..).trans hb⟩
  · rintro ⟨j, b, hj, hb⟩
    exact ⟨j, b, hj, (update_of_ne (hne hj) ..).trans hb⟩

end Sound

end WriteBehindCell

end RustExample
