import RustExample.Foundation.Loops

/-!
# Binary heaps by positions

The positions of a binary tree are numbered from one on; those below `p` are `2 * p` and
`2 * p + 1`. A heap has ranks at some positions, none of which is greater than the one above. An
entry that breaks this moves up or down by exchanges with a neighbour.
-/

namespace RustExample

/-! ### Positions of a vector -/

section Slot

variable {α K : Type*} {l : List α} {p q : ℕ}

/-- `l[p - 1]`, which is not there for the position zero. -/
def slot (l : List α) (p : ℕ) : Option α := (checkedSub p 1).bind fun i => l[i]?

@[simp] theorem slot_zero (l : List α) : slot l 0 = none := rfl

@[simp] theorem slot_succ (l : List α) (p : ℕ) : slot l (p + 1) = l[p]? := rfl

theorem slot_of_pos (hp : 1 ≤ p) (l : List α) : slot l p = l[p - 1]? := by
  rw [slot, checkedSub_of_le hp, Option.bind_some]

theorem slot_ne_none_iff : slot l p ≠ none ↔ 1 ≤ p ∧ p ≤ l.length := by
  obtain _ | p := p
  · simp
  · rw [slot_succ, ne_eq, List.getElem?_eq_none_iff]
    omega

theorem exists_slot (hp : 1 ≤ p) (hle : p ≤ l.length) : ∃ a, slot l p = some a :=
  Option.ne_none_iff_exists'.mp (slot_ne_none_iff.mpr ⟨hp, hle⟩)

/-- The rank at a position. -/
def ranks (rank : α → K) (l : List α) (p : ℕ) : Option K := (slot l p).map rank

theorem ranks_eq_some {rank : α → K} {a : α} (h : slot l p = some a) :
    ranks rank l p = some (rank a) := by
  rw [ranks, h, Option.map_some]

theorem ranks_closed (rank : α → K) (l : List α) (q : ℕ) (hq : 2 ≤ q)
    (h : ranks rank l q ≠ none) : ranks rank l (q / 2) ≠ none := by
  rw [ranks, ne_eq, Option.map_eq_none_iff] at h ⊢
  obtain ⟨-, hle⟩ := slot_ne_none_iff.mp h
  exact slot_ne_none_iff.mpr ⟨by omega, by omega⟩

theorem exists_swapAt_slot (rank : α → K) (hp : 1 ≤ p) (hpl : p ≤ l.length) (hq : 1 ≤ q)
    (hql : q ≤ l.length) :
    ∃ l', swapAt l (p - 1) (q - 1) = some l' ∧ l'.Perm l ∧ slot l' = slot l ∘ Equiv.swap p q ∧
      ranks rank l' = ranks rank l ∘ Equiv.swap p q := by
  obtain ⟨l', hrun, hperm, hget⟩ := exists_swapAt (l := l) (i := p - 1) (j := q - 1)
    (by omega) (by omega)
  have hslot : slot l' = slot l ∘ Equiv.swap p q := by
    funext k
    rw [Function.comp_apply]
    obtain _ | k := k
    · rw [Equiv.swap_apply_of_ne_of_ne (by omega) (by omega), slot_zero, slot_zero]
    · rw [slot_succ, hget, Equiv.swap_apply_def, Equiv.swap_apply_def]
      split_ifs with h₁ h₂ h₂ h₃ h₃ h₄ h₄
      all_goals first
        | omega
        | rw [slot_of_pos (by omega)]
      rw [Nat.add_sub_cancel]
  refine ⟨l', hrun, hperm, hslot, ?_⟩
  funext k
  rw [ranks, hslot]
  rfl

end Slot

/-! ### The order of a heap -/

variable {K : Type*} [LinearOrder K] {r : ℕ → Option K} {lo p c : ℕ} {x y : K}

/-- No position below one from `lo` on has a greater rank than that. -/
def HeapOrdered (lo : ℕ) (r : ℕ → Option K) : Prop :=
  ∀ q x y, 2 ≤ q → lo ≤ q / 2 → r q = some x → r (q / 2) = some y → x ≤ y

/-- What is some levels above is not less, if the positions in use are closed upwards. -/
theorem HeapOrdered.le_above (h : HeapOrdered 1 r)
    (hclosed : ∀ q, 2 ≤ q → r q ≠ none → r (q / 2) ≠ none) (d : ℕ) (hp : 1 ≤ p / 2 ^ d)
    (hx : r p = some x) (hy : r (p / 2 ^ d) = some y) : x ≤ y := by
  induction d generalizing p x with
  | zero =>
    rw [Nat.pow_zero, Nat.div_one, hx] at hy
    exact (Option.some.inj hy).le
  | succ d ih =>
    rw [Nat.pow_succ', ← Nat.div_div_eq_div_mul] at hp hy
    have hle : p / 2 / 2 ^ d ≤ p / 2 := Nat.div_le_self _ _
    obtain ⟨z, hz⟩ := Option.ne_none_iff_exists'.mp (hclosed p (by omega) (by simp [hx]))
    exact (h p x z (by omega) (by omega) hx hz).trans (ih hp hz hy)

theorem div_two_pow_log2 {p : ℕ} (hp : p ≠ 0) : p / 2 ^ Nat.log2 p = 1 := by
  have hlow := Nat.log2_self_le hp
  have hhigh := Nat.lt_log2_self (n := p)
  rw [Nat.pow_succ] at hhigh
  exact Nat.div_eq_of_lt_le (by omega) (by omega)

theorem HeapOrdered.le_root (h : HeapOrdered 1 r)
    (hclosed : ∀ q, 2 ≤ q → r q ≠ none → r (q / 2) ≠ none) (hp : p ≠ 0) (hx : r p = some x)
    (hy : r 1 = some y) : x ≤ y := by
  have hroot := div_two_pow_log2 hp
  exact h.le_above hclosed (Nat.log2 p) (by omega) hx (hroot ▸ hy)

theorem HeapOrdered.le_first {α : Type*} {rank : α → K} {l : List α} {v w : α}
    (h : HeapOrdered 1 (ranks rank l)) (hv : l[0]? = some v) (hw : w ∈ l) : rank w ≤ rank v := by
  obtain ⟨k, hk, rfl⟩ := List.mem_iff_getElem.mp hw
  refine h.le_root (ranks_closed rank l) (Nat.succ_ne_zero k) (ranks_eq_some ?_)
    (ranks_eq_some (p := 1) hv)
  rw [slot_succ, List.getElem?_eq_getElem hk]

/-- A heap but for the entry at `p`, which may be too great for the one above. -/
structure RisesAt (r : ℕ → Option K) (p : ℕ) : Prop where
  other : ∀ q x y, 2 ≤ q → q ≠ p → r q = some x → r (q / 2) = some y → x ≤ y
  /-- What is below fits to what is above. -/
  grand : ∀ q x y, 2 ≤ p → q / 2 = p → r q = some x → r (p / 2) = some y → x ≤ y

theorem risesAt_last (h : ∀ q x y, 2 ≤ q → q ≠ p → r q = some x → r (q / 2) = some y → x ≤ y)
    (hlast : ∀ q, p < q → r q = none) : RisesAt r p := by
  refine ⟨h, fun q x y hp hq hx _ => ?_⟩
  rw [hlast q (by omega)] at hx
  cases hx

/-- **A step up.** -/
theorem RisesAt.swap (h : RisesAt r p) (hp : 2 ≤ p) (hx : r p = some x) (hy : r (p / 2) = some y)
    (hle : y ≤ x) : RisesAt (r ∘ Equiv.swap p (p / 2)) (p / 2) := by
  have hne : p ≠ p / 2 := by omega
  have hself : (r ∘ Equiv.swap p (p / 2)) p = some y := by simp [hy]
  have hup : (r ∘ Equiv.swap p (p / 2)) (p / 2) = some x := by simp [hx]
  have hrest : ∀ q, q ≠ p → q ≠ p / 2 → (r ∘ Equiv.swap p (p / 2)) q = r q := fun q hqp hqu => by
    rw [Function.comp_apply, Equiv.swap_apply_of_ne_of_ne hqp hqu]
  refine ⟨fun q a b hq hqu ha hb => ?_, fun q a b hp2 hqp ha hb => ?_⟩
  · by_cases hqp : q = p
    · subst hqp
      rw [hself] at ha
      rw [hup] at hb
      cases ha
      cases hb
      exact hle
    · rw [hrest q hqp hqu] at ha
      by_cases hbelow : q / 2 = p
      · rw [hbelow, hself] at hb
        cases hb
        exact h.grand q a y hp hbelow ha hy
      · by_cases hsib : q / 2 = p / 2
        · rw [hsib, hup] at hb
          cases hb
          rw [← hsib] at hy
          exact (h.other q a y hq hqp ha hy).trans hle
        · rw [hrest (q / 2) hbelow hsib] at hb
          exact h.other q a b hq hqp ha hb
  · have hupper : (r ∘ Equiv.swap p (p / 2)) (p / 2 / 2) = r (p / 2 / 2) :=
      hrest _ (by omega) (by omega)
    rw [hupper] at hb
    have hyb : y ≤ b := h.other (p / 2) y b hp2 (by omega) hy hb
    by_cases hq : q = p
    · rw [hq, hself] at ha
      cases ha
      exact hyb
    · rw [hrest q hq (by omega)] at ha
      rw [← hqp] at hy
      exact (h.other q a y (by omega) hq ha hy).trans hyb

theorem RisesAt.heapOrdered (h : RisesAt r p)
    (hstop : ∀ x y, 2 ≤ p → r p = some x → r (p / 2) = some y → x ≤ y) : HeapOrdered lo r := by
  intro q x y hq _ hx hy
  by_cases hqp : q = p
  · subst hqp
    exact hstop x y hq hx hy
  · exact h.other q x y hq hqp hx hy

/-- A heap from `lo` on but for the entry at `p`, which may be too small for those below. -/
structure SinksAt (lo : ℕ) (r : ℕ → Option K) (p : ℕ) : Prop where
  other : ∀ q x y, 2 ≤ q → lo ≤ q / 2 → q / 2 ≠ p → r q = some x → r (q / 2) = some y → x ≤ y
  /-- What is below fits to what is above. -/
  grand : ∀ q x y, 2 ≤ p → lo ≤ p / 2 → q / 2 = p → r q = some x → r (p / 2) = some y → x ≤ y

/-- A heap below `p`, with one more entry at `p`. -/
theorem HeapOrdered.sinksAt (h : HeapOrdered (p + 1) r) : SinksAt p r p :=
  ⟨fun q x y hq hlo hne => h q x y hq (by omega), fun q x y hp hlo => by omega⟩

theorem HeapOrdered.sinksAt_root (h : HeapOrdered 1 r) {r' : ℕ → Option K}
    (hr : ∀ q, 2 ≤ q → r' q = r q ∨ r' q = none) : SinksAt 1 r' 1 := by
  refine ⟨fun q x y hq hlo hne hx hy => ?_, fun q x y hp => by omega⟩
  have hx' := (hr q hq).resolve_right (by simp [hx])
  have hy' := (hr (q / 2) (by omega)).resolve_right (by simp [hy])
  exact h q x y hq hlo (hx' ▸ hx) (hy' ▸ hy)

/-- **A step down**, to the greatest of those below. -/
theorem SinksAt.swap (h : SinksAt lo r p) (hc : 2 ≤ c) (hcp : c / 2 = p) (hx : r c = some x)
    (hy : r p = some y) (hle : y ≤ x)
    (hmax : ∀ q z, q / 2 = p → 2 ≤ q → r q = some z → z ≤ x) :
    SinksAt lo (r ∘ Equiv.swap p c) c := by
  have hself : (r ∘ Equiv.swap p c) p = some x := by simp [hx]
  have hdown : (r ∘ Equiv.swap p c) c = some y := by simp [hy]
  have hrest : ∀ q, q ≠ p → q ≠ c → (r ∘ Equiv.swap p c) q = r q := fun q hqp hqc => by
    rw [Function.comp_apply, Equiv.swap_apply_of_ne_of_ne hqp hqc]
  refine ⟨fun q a b hq hlo hqc ha hb => ?_, fun q a b hc2 hlo hqc ha hb => ?_⟩
  · by_cases hqp : q = p
    · subst hqp
      rw [hself] at ha
      cases ha
      rw [hrest (q / 2) (by omega) hqc] at hb
      exact h.grand c x b hq hlo hcp hx hb
    · by_cases hbelow : q / 2 = p
      · rw [hbelow, hself] at hb
        cases hb
        by_cases hqc' : q = c
        · rw [hqc', hdown] at ha
          cases ha
          exact hle
        · rw [hrest q hqp hqc'] at ha
          exact hmax q a hbelow hq ha
      · rw [hrest (q / 2) hbelow hqc] at hb
        rw [hrest q hqp (by rintro rfl; exact hbelow hcp)] at ha
        exact h.other q a b hq hlo hbelow ha hb
  · rw [hcp, hself] at hb
    cases hb
    rw [hrest q (by omega) (by omega)] at ha
    rw [← hqc] at hx
    exact h.other q a x (by omega) (by omega) (by omega) ha hx

theorem SinksAt.heapOrdered (h : SinksAt lo r p)
    (hstop : ∀ q x y, q / 2 = p → 2 ≤ q → r q = some x → r p = some y → x ≤ y) :
    HeapOrdered lo r := by
  intro q x y hq hlo hx hy
  by_cases hqp : q / 2 = p
  · rw [hqp] at hy
    exact hstop q x y hqp hq hx hy
  · exact h.other q x y hq hlo hqp hx hy

end RustExample
