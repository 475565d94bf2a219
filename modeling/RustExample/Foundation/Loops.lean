import Mathlib.Algebra.Group.Int.Defs
import Mathlib.Algebra.Group.Nat.Defs
import Mathlib.Data.List.Perm.Basic
import Mathlib.Data.List.Range
import Mathlib.Logic.Equiv.Basic
import Mathlib.Order.Bounds.Basic

/-!
# Loops that may fail, and vectors with checked positions

A step of a program may fail, which is `none`. A `for` loop runs its body for the numbers of a
range or for the items of a list. Any other loop goes round until a round leaves it; it takes a
bound on its rounds, and fails where the bound is too small. A loop that takes entries from the
front of a list until the rest fits takes the shortest prefix. A vector is changed in place, at
positions that have to be inside it; otherwise the change fails.
-/

namespace RustExample

open List

section Loops

variable {α σ ρ : Type*}

/-- `a - b`, which fails below zero. -/
def checkedSub (a b : ℕ) : Option ℕ := if b ≤ a then some (a - b) else none

@[simp] theorem checkedSub_of_le {a b : ℕ} (h : b ≤ a) : checkedSub a b = some (a - b) := if_pos h

@[simp] theorem checkedSub_of_lt {a b : ℕ} (h : a < b) : checkedSub a b = none :=
  if_neg (Nat.not_le_of_lt h)

/-- The result `n` of an operation on unsigned numbers of `w` bits, which fails on overflow. -/
def checkedNat (w n : ℕ) : Option ℕ := if n < 2 ^ w then some n else none

@[simp] theorem checkedNat_of_lt {w n : ℕ} (h : n < 2 ^ w) : checkedNat w n = some n := if_pos h

@[simp] theorem checkedNat_of_le {w n : ℕ} (h : 2 ^ w ≤ n) : checkedNat w n = none :=
  if_neg (Nat.not_lt_of_le h)

/-- The result `n` of an operation on signed numbers of `w` bits, which fails on overflow. -/
def checkedInt (w : ℕ) (n : ℤ) : Option ℤ :=
  if -(2 ^ (w - 1) : ℕ) ≤ n ∧ n < (2 ^ (w - 1) : ℕ) then some n else none

theorem checkedInt_of_le {w : ℕ} {n : ℤ} (hlow : -(2 ^ (w - 1) : ℕ) ≤ n)
    (hhigh : n < (2 ^ (w - 1) : ℕ)) : checkedInt w n = some n := if_pos ⟨hlow, hhigh⟩

theorem checkedInt_eq_none {w : ℕ} {n : ℤ}
    (h : ¬ (-(2 ^ (w - 1) : ℕ) ≤ n ∧ n < (2 ^ (w - 1) : ℕ))) : checkedInt w n = none := if_neg h

/-! ### Loops over lists and ranges -/

/-- `for a in l { body }`. -/
def forEach (l : List α) (body : α → σ → Option σ) (s : σ) : Option σ :=
  l.foldlM (fun s a => body a s) s

@[simp] theorem forEach_cons (a : α) (l : List α) (body : α → σ → Option σ) (s : σ) :
    forEach (a :: l) body s = (body a s).bind (forEach l body) := rfl

/-- **A loop over a list with an invariant**, which speaks of the items that are done. -/
theorem forEach_spec {l : List α} {body : α → σ → Option σ} {I : List α → σ → Prop} {s : σ}
    (h₀ : I [] s)
    (hbody : ∀ before a after s, l = before ++ a :: after → I before s →
      ∃ s', body a s = some s' ∧ I (before ++ [a]) s') :
    ∃ s', forEach l body s = some s' ∧ I l s' := by
  suffices h : ∀ before after s, l = before ++ after → I before s →
      ∃ s', forEach after body s = some s' ∧ I l s' from h [] l s rfl h₀
  intro before after
  induction after generalizing before with
  | nil =>
    intro s hl hs
    rw [append_nil] at hl
    exact ⟨s, rfl, hl ▸ hs⟩
  | cons a after ih =>
    intro s hl hs
    obtain ⟨s₁, hrun, hs₁⟩ := hbody before a after s hl hs
    obtain ⟨s₂, hrest, hs₂⟩ := ih (before ++ [a]) s₁ (by simpa using hl) hs₁
    exact ⟨s₂, by rw [forEach_cons, hrun, Option.bind_some, hrest], hs₂⟩

/-- `for i in lo..hi { body }`. -/
def forRange (lo hi : ℕ) (body : ℕ → σ → Option σ) (s : σ) : Option σ :=
  forEach (List.range' lo (hi - lo)) body s

theorem forRange_of_le {lo hi : ℕ} (h : hi ≤ lo) (body : ℕ → σ → Option σ) (s : σ) :
    forRange lo hi body s = some s := by
  rw [forRange, Nat.sub_eq_zero_of_le h]
  rfl

theorem forRange_of_lt {lo hi : ℕ} (h : lo < hi) (body : ℕ → σ → Option σ) (s : σ) :
    forRange lo hi body s = (body lo s).bind (forRange (lo + 1) hi body) := by
  obtain ⟨n, rfl⟩ : ∃ n, hi = lo + 1 + n := ⟨hi - (lo + 1), by omega⟩
  rw [forRange, show lo + 1 + n - lo = n + 1 by omega, range'_succ, forEach_cons]
  congr 1
  ext s
  rw [forRange, Nat.add_sub_cancel_left]

variable {I : ℕ → σ → Prop}

/-- **A loop over a range with an invariant**, which speaks of the next number. -/
theorem forRange_spec {lo hi : ℕ} (hle : lo ≤ hi) {body : ℕ → σ → Option σ} {s : σ} (h₀ : I lo s)
    (hbody : ∀ i s, lo ≤ i → i < hi → I i s → ∃ s', body i s = some s' ∧ I (i + 1) s') :
    ∃ s', forRange lo hi body s = some s' ∧ I hi s' := by
  obtain ⟨n, rfl⟩ : ∃ n, hi = lo + n := ⟨hi - lo, by omega⟩
  induction n generalizing lo s with
  | zero => exact ⟨s, forRange_of_le (Nat.le_refl _) body s, h₀⟩
  | succ n ih =>
    obtain ⟨s₁, hrun, hs₁⟩ := hbody lo s (Nat.le_refl _) (by omega) h₀
    have heq : lo + (n + 1) = lo + 1 + n := by omega
    rw [heq] at hbody ⊢
    obtain ⟨s₂, hrest, hs₂⟩ := ih hs₁ (by omega) fun i s hi hlt => hbody i s (by omega) hlt
    refine ⟨s₂, ?_, hs₂⟩
    rw [forRange_of_lt (by omega), hrun, Option.bind_some, hrest]

/-- `for i in (lo..hi).rev() { body }`. -/
def forRangeRev (lo hi : ℕ) (body : ℕ → σ → Option σ) (s : σ) : Option σ :=
  forEach (List.range' lo (hi - lo)).reverse body s

/-- **A loop over a reversed range with an invariant**, which speaks of the last number. -/
theorem forRangeRev_spec {lo hi : ℕ} (hle : lo ≤ hi) {body : ℕ → σ → Option σ} {s : σ} (h₀ : I hi s)
    (hbody : ∀ i s, lo ≤ i → i < hi → I (i + 1) s → ∃ s', body i s = some s' ∧ I i s') :
    ∃ s', forRangeRev lo hi body s = some s' ∧ I lo s' := by
  obtain ⟨n, rfl⟩ : ∃ n, hi = lo + n := ⟨hi - lo, by omega⟩
  rw [forRangeRev, Nat.add_sub_cancel_left]
  induction n generalizing s with
  | zero => exact ⟨s, rfl, h₀⟩
  | succ n ih =>
    obtain ⟨s₁, hrun, hs₁⟩ := hbody (lo + n) s (by omega) (by omega) h₀
    obtain ⟨s₂, hrest, hs₂⟩ := ih (by omega) hs₁ fun i s hi hlt => hbody i s hi (by omega)
    refine ⟨s₂, ?_, hs₂⟩
    rw [range'_1_concat, reverse_concat, forEach_cons, hrun, Option.bind_some, hrest]

/-! ### Loops that are left -/

/-- What a round of a loop does: the loop goes on with a state, or it is left with a result. -/
inductive Round (σ ρ : Type*) where
  | again (s : σ)
  | done (r : ρ)

/-- Rounds from a state until one leaves the loop, `bound` at most. -/
def loop (round : σ → Option (Round σ ρ)) : ℕ → σ → Option ρ
  | 0, _ => none
  | bound + 1, s =>
    match round s with
    | none => none
    | some (.again s) => loop round bound s
    | some (.done r) => some r

/-- **A loop with an invariant and a variant.** -/
theorem loop_spec {round : σ → Option (Round σ ρ)} {I : σ → Prop} {Q : ρ → Prop}
    (variant : σ → ℕ)
    (hround : ∀ s, I s → (∃ s', round s = some (.again s') ∧ I s' ∧ variant s' < variant s) ∨
      ∃ r, round s = some (.done r) ∧ Q r)
    {bound : ℕ} {s : σ} (hs : I s) (hbound : variant s < bound) :
    ∃ r, loop round bound s = some r ∧ Q r := by
  induction bound generalizing s with
  | zero => omega
  | succ bound ih =>
    rcases hround s hs with ⟨s', hrun, hs', hlt⟩ | ⟨r, hrun, hr⟩
    · obtain ⟨r, hrest, hr⟩ := ih hs' (by omega)
      exact ⟨r, by simp [loop, hrun, hrest], hr⟩
    · exact ⟨r, by simp [loop, hrun], hr⟩

/-! ### Loops that take from the front -/

/-- `while !p(l) { l.pop_front() }`, which ends on the empty list at the latest. -/
def dropUntil (p : List α → Prop) [DecidablePred p] : List α → List α
  | [] => []
  | a :: l => if p (a :: l) then a :: l else dropUntil p l

/-- **The shortest prefix whose removal is enough** is what the loop takes. -/
theorem exists_isLeast_dropUntil {p : List α → Prop} [DecidablePred p] (hnil : p []) (l : List α) :
    ∃ n, dropUntil p l = l.drop n ∧ IsLeast {n | p (l.drop n)} n := by
  induction l with
  | nil => exact ⟨0, rfl, hnil, fun n _ => Nat.zero_le n⟩
  | cons a l ih =>
    by_cases hp : p (a :: l)
    · exact ⟨0, if_pos hp, hp, fun n _ => Nat.zero_le n⟩
    · obtain ⟨n, hdrop, hn, hleast⟩ := ih
      refine ⟨n + 1, (if_neg hp).trans hdrop, hn, fun m hm => ?_⟩
      cases m with
      | zero => exact absurd hm hp
      | succ m => exact Nat.succ_le_succ (hleast hm)

end Loops

/-! ### Vectors with checked positions -/

section Vectors

variable {α : Type*} {l : List α} {i j : ℕ}

/-- `l[i] = a`. -/
def putAt (l : List α) (i : ℕ) (a : α) : Option (List α) :=
  if i < l.length then some (l.set i a) else none

/-- `l.swap(i, j)`. -/
def swapAt (l : List α) (i j : ℕ) : Option (List α) := do
  let a ← l[i]?
  let b ← l[j]?
  some ((l.set i b).set j a)

/-- `l.swap_remove(i)`: the last entry takes the place of the one that is taken out. -/
def swapRemove (l : List α) (i : ℕ) : Option (α × List α) := do
  let a ← l[i]?
  let b ← l.getLast?
  some (a, (l.set i b).dropLast)

/-- `l.remove(i)`. -/
def removeAt (l : List α) (i : ℕ) : Option (α × List α) := do
  let a ← l[i]?
  some (a, l.eraseIdx i)

theorem putAt_of_lt (h : i < l.length) (a : α) : putAt l i a = some (l.set i a) := if_pos h

theorem getElem?_append_cons (as cs : List α) (a : α) : (as ++ a :: cs)[as.length]? = some a := by
  rw [getElem?_append_right (Nat.le_refl _), Nat.sub_self, getElem?_cons_zero]

theorem putAt_append (as cs : List α) (a b : α) :
    putAt (as ++ b :: cs) as.length a = some (as ++ a :: cs) := by
  rw [putAt_of_lt (by simp), set_append_right _ _ (Nat.le_refl _), Nat.sub_self,
    set_cons_zero]

theorem swapAt_comm (l : List α) (i j : ℕ) : swapAt l i j = swapAt l j i := by
  rcases eq_or_ne i j with rfl | hne
  · rfl
  · rw [swapAt, swapAt]
    rcases l[i]? with _ | a
    · rcases l[j]? with _ | b <;> rfl
    · rcases l[j]? with _ | b
      · rfl
      · exact congrArg some (set_comm _ _ hne)

theorem swapAt_self (hi : i < l.length) : swapAt l i i = some l := by
  rw [swapAt, getElem?_eq_getElem hi]
  simp

/-- **An exchange keeps the entries.** -/
theorem exists_swapAt (hi : i < l.length) (hj : j < l.length) :
    ∃ l', swapAt l i j = some l' ∧ l'.Perm l ∧ ∀ k, l'[k]? = l[Equiv.swap i j k]? := by
  refine ⟨(l.set i l[j]).set j l[i], by simp [swapAt, hi, hj], set_set_perm hi hj, fun k => ?_⟩
  by_cases hkj : k = j
  · subst hkj
    simp [hi, hj]
  · rw [getElem?_set_ne (Ne.symm hkj)]
    by_cases hki : k = i
    · subst hki
      simp [hi, hj]
    · rw [getElem?_set_ne (Ne.symm hki), Equiv.swap_apply_of_ne_of_ne hki hkj]

theorem swapAt_append (as bs cs : List α) (a b : α) :
    swapAt (as ++ a :: (bs ++ b :: cs)) as.length (as.length + 1 + bs.length) =
      some (as ++ b :: (bs ++ a :: cs)) := by
  have hb : (as ++ a :: (bs ++ b :: cs))[as.length + 1 + bs.length]? = some b := by
    rw [getElem?_append_right (by omega)]
    simp [show as.length + 1 + bs.length - as.length = bs.length + 1 by omega]
  have hset : (as ++ b :: (bs ++ b :: cs)).set (as.length + 1 + bs.length) a =
      as ++ b :: (bs ++ a :: cs) := by
    rw [set_append_right _ _ (by omega),
      show as.length + 1 + bs.length - as.length = bs.length + 1 by omega]
    simp
  rw [swapAt, hb]
  simp [hset]

/-- An entry comes before those ahead of it, of which the first takes its place. -/
theorem exists_swapAt_front (as bs cs : List α) (a : α) :
    ∃ bs', swapAt (as ++ (bs ++ a :: cs)) as.length (as.length + bs.length) =
      some (as ++ a :: (bs' ++ cs)) ∧ bs'.Perm bs := by
  obtain _ | ⟨b, bs⟩ := bs
  · exact ⟨[], swapAt_self (by simp), List.Perm.refl _⟩
  · refine ⟨bs ++ [b], ?_, perm_append_singleton b bs⟩
    have hswap := swapAt_append as bs cs b a
    rw [show as.length + 1 + bs.length = as.length + (b :: bs).length by
      rw [length_cons]; omega] at hswap
    simpa using hswap

theorem exists_swapRemove (hi : i < l.length) :
    ∃ rest, swapRemove l i = some (l[i], rest) ∧ l.Perm (l[i] :: rest) ∧
      l.length = rest.length + 1 ∧
      ∀ k, k < rest.length → rest[k]? = if k = i then l.getLast? else l[k]? := by
  obtain ⟨front, b, rfl⟩ : ∃ front b, l = front ++ [b] :=
    ⟨l.dropLast, l.getLast (ne_nil_of_length_pos (by omega)),
      (dropLast_append_getLast _).symm⟩
  have hrun : swapRemove (front ++ [b]) i =
      some ((front ++ [b])[i], ((front ++ [b]).set i b).dropLast) := by
    rw [swapRemove, getElem?_eq_getElem hi]
    simp
  rw [length_append, length_singleton] at hi
  rcases Nat.lt_or_ge i front.length with hlt | hge
  · have hset : ((front ++ [b]).set i b).dropLast = front.set i b := by
      rw [set_append_left _ _ hlt, dropLast_concat]
    rw [hset] at hrun
    refine ⟨front.set i b, hrun, ?_, by simp, fun k hk => ?_⟩
    · rw [getElem_append_left hlt]
      have hfront := getElem_cons_eraseIdx_perm hlt
      refine (perm_append_singleton b front).trans ?_
      refine (hfront.symm.cons b).trans ((List.Perm.swap _ _ _).trans (List.Perm.cons _ ?_))
      exact (set_perm_cons_eraseIdx hlt b).symm
    · rw [List.length_set] at hk
      rw [getElem?_set, getElem?_append_left hk, getLast?_concat]
      by_cases hik : i = k
      · rw [if_pos hik, if_pos hlt, if_pos hik.symm]
      · rw [if_neg hik, if_neg (Ne.symm hik)]
  · obtain rfl : i = front.length := by omega
    have hset : ((front ++ [b]).set front.length b).dropLast = front := by simp
    rw [hset] at hrun
    refine ⟨front, hrun, by simp, by simp, fun k hk => ?_⟩
    rw [if_neg (by omega), getElem?_append_left hk]

end Vectors

end RustExample
