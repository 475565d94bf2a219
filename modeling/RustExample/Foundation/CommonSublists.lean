import Mathlib.Data.List.Basic
import Mathlib.Order.Nat

/-!
# Longest common sublists

A common sublist of two lists is a sublist of each. One that is longest is found from longest ones
of lists that miss an entry, at the front or at the back.
-/

namespace RustExample

open List

open scoped List

variable {α : Type*} {a b r s : List α} {x y : α}

/-- `r` is a common sublist of `a` and `b`, and none is longer. -/
structure IsLongestCommon (a b r : List α) : Prop where
  left : r <+ a
  right : r <+ b
  longest : ∀ s, s <+ a → s <+ b → s.length ≤ r.length

namespace IsLongestCommon

theorem nil_left : IsLongestCommon [] b [] :=
  ⟨List.Sublist.refl _, nil_sublist b, fun _ ha _ => ha.length_le⟩

theorem nil_right : IsLongestCommon a [] [] :=
  ⟨nil_sublist a, List.Sublist.refl _, fun _ _ hb => hb.length_le⟩

theorem symm (h : IsLongestCommon a b r) : IsLongestCommon b a r :=
  ⟨h.right, h.left, fun s hb ha => h.longest s ha hb⟩

theorem length_eq (h : IsLongestCommon a b r) (h' : IsLongestCommon a b s) :
    r.length = s.length :=
  le_antisymm (h'.longest r h.left h.right) (h.longest s h'.left h'.right)

theorem reverse (h : IsLongestCommon a b r) : IsLongestCommon a.reverse b.reverse r.reverse := by
  refine ⟨h.left.reverse, h.right.reverse, fun s ha hb => ?_⟩
  have hlong := h.longest s.reverse (by simpa using ha.reverse) (by simpa using hb.reverse)
  rwa [length_reverse] at hlong ⊢

/-! ### At the front -/

/-- An entry that is not in the other list is left out. -/
theorem of_not_mem (h : IsLongestCommon a b r) (hx : x ∉ b) : IsLongestCommon (x :: a) b r := by
  refine ⟨h.left.trans (sublist_cons_self x a), h.right, fun s ha hb => ?_⟩
  rcases List.sublist_cons_iff.mp ha with ha | ⟨s, rfl, -⟩
  · exact h.longest s ha hb
  · exact absurd (hb.subset mem_cons_self) hx

/-- A list that begins with an entry is found after the first place of the entry. -/
theorem sublist_after {before after : List α} (h : x :: s <+ before ++ x :: after)
    (hx : x ∉ before) : s <+ after := by
  induction before with
  | nil => exact h.of_cons_cons
  | cons y before ih =>
    rw [mem_cons, not_or] at hx
    exact ih (h.of_cons_of_ne hx.1) hx.2

/-- A list that begins with the first entry of `a` is longest of its kind if what follows is
longest after the first place of the entry in `b`. -/
theorem longest_of_head {before after : List α} (h : IsLongestCommon a after r)
    (hx : x ∉ before) (ha : x :: s <+ x :: a) (hb : x :: s <+ before ++ x :: after) :
    (x :: s).length ≤ (x :: r).length :=
  Nat.succ_le_succ (h.longest s ha.of_cons_cons (sublist_after hb hx))

/-- **The three candidates**: with the first entry of one list, of the other, or with neither. -/
theorem of_candidates {beforeB afterB beforeA afterA r₁ r₂ r₃ : List α}
    (hb : y :: b = beforeB ++ x :: afterB) (hx : x ∉ beforeB)
    (ha : x :: a = beforeA ++ y :: afterA) (hy : y ∉ beforeA)
    (h₁ : IsLongestCommon a afterB r₁) (h₂ : IsLongestCommon afterA b r₂)
    (h₃ : IsLongestCommon a b r₃) {r : List α} (hr : r = x :: r₁ ∨ r = y :: r₂ ∨ r = r₃)
    (hle₁ : (x :: r₁).length ≤ r.length) (hle₂ : (y :: r₂).length ≤ r.length)
    (hle₃ : r₃.length ≤ r.length) : IsLongestCommon (x :: a) (y :: b) r := by
  have hcommon : r <+ x :: a ∧ r <+ y :: b := by
    rcases hr with rfl | rfl | rfl
    · exact ⟨h₁.left.cons_cons x,
        hb ▸ (h₁.right.cons_cons x).trans (sublist_append_right _ _)⟩
    · exact ⟨ha ▸ (h₂.left.cons_cons y).trans (sublist_append_right _ _),
        h₂.right.cons_cons y⟩
    · exact ⟨h₃.left.trans (sublist_cons_self _ _),
        h₃.right.trans (sublist_cons_self _ _)⟩
  refine ⟨hcommon.1, hcommon.2, fun s hsa hsb => ?_⟩
  rcases List.sublist_cons_iff.mp hsa with hsa' | ⟨s, rfl, -⟩
  · rcases List.sublist_cons_iff.mp hsb with hsb' | ⟨s, rfl, -⟩
    · exact (h₃.longest s hsa' hsb').trans hle₃
    · exact (h₂.symm.longest_of_head hy hsb (ha ▸ hsa)).trans hle₂
  · exact (h₁.longest_of_head hx hsa (hb ▸ hsb)).trans hle₁

theorem cons (h : IsLongestCommon a b r) : IsLongestCommon (x :: a) (x :: b) (x :: r) :=
  of_candidates (show x :: b = [] ++ x :: b from rfl) not_mem_nil
    (show x :: a = [] ++ x :: a from rfl) not_mem_nil h h h (.inl rfl) (Nat.le_refl _)
    (Nat.le_refl _) (Nat.le_succ _)

/-- Different entries in front: one of them is left out. -/
theorem of_ne (h : IsLongestCommon a (y :: b) r) (h' : IsLongestCommon (x :: a) b s)
    (hle : s.length ≤ r.length) (hne : x ≠ y) : IsLongestCommon (x :: a) (y :: b) r := by
  refine ⟨h.left.trans (sublist_cons_self x a), h.right, fun z hza hzb => ?_⟩
  rcases List.sublist_cons_iff.mp hza with hza' | ⟨z, rfl, -⟩
  · exact h.longest z hza' hzb
  · exact (h'.longest _ hza (hzb.of_cons_of_ne hne)).trans hle

/-! ### At the back -/

theorem concat (h : IsLongestCommon a b r) :
    IsLongestCommon (a ++ [x]) (b ++ [x]) (r ++ [x]) := by
  simpa using (h.reverse.cons (x := x)).reverse

theorem concat_left (h : IsLongestCommon a (b ++ [y]) r) (h' : IsLongestCommon (a ++ [x]) b s)
    (hle : s.length ≤ r.length) (hne : x ≠ y) : IsLongestCommon (a ++ [x]) (b ++ [y]) r := by
  have hrev : IsLongestCommon a.reverse (y :: b.reverse) r.reverse := by simpa using h.reverse
  have hrev' : IsLongestCommon (x :: a.reverse) b.reverse s.reverse := by simpa using h'.reverse
  simpa using (hrev.of_ne hrev' (by simpa using hle) hne).reverse

theorem concat_right (h : IsLongestCommon a (b ++ [y]) s) (h' : IsLongestCommon (a ++ [x]) b r)
    (hle : s.length ≤ r.length) (hne : x ≠ y) : IsLongestCommon (a ++ [x]) (b ++ [y]) r :=
  (h'.symm.concat_left h.symm hle hne.symm).symm

end IsLongestCommon

end RustExample
