import Mathlib.Data.List.DropRight
import Mathlib.Order.Bounds.Basic

/-!
# The maxima of the ends of a list

An entry is kept if none after it is greater. The entries that are kept do not increase, and the
first of them is the greatest of the list. A window that moves on keeps them by work at its ends.
-/

namespace RustExample

open List

variable {α : Type*} [LinearOrder α] {a m : α} {l : List α}

/-- The entries of a list that no later one exceeds. -/
def suffixMaxima : List α → List α
  | [] => []
  | a :: l => if ∀ b ∈ l, b ≤ a then a :: suffixMaxima l else suffixMaxima l

theorem suffixMaxima_sublist (l : List α) : (suffixMaxima l).Sublist l := by
  induction l with
  | nil => exact List.Sublist.refl _
  | cons a l ih =>
    rw [suffixMaxima]
    split_ifs
    · exact ih.cons_cons a
    · exact ih.cons a

theorem pairwise_suffixMaxima (l : List α) : (suffixMaxima l).Pairwise fun a b => b ≤ a := by
  induction l with
  | nil => exact List.Pairwise.nil
  | cons a l ih =>
    rw [suffixMaxima]
    split_ifs with hmax
    · exact List.pairwise_cons.mpr
        ⟨fun b hb => hmax b ((suffixMaxima_sublist l).subset hb), ih⟩
    · exact ih

theorem exists_le_suffixMaxima (ha : a ∈ l) : ∃ b ∈ suffixMaxima l, a ≤ b := by
  induction l generalizing a with
  | nil => cases ha
  | cons c l ih =>
    rw [suffixMaxima]
    split_ifs with hmax
    · refine ⟨c, mem_cons_self, ?_⟩
      rcases List.mem_cons.mp ha with rfl | ha
      · exact le_rfl
      · exact hmax a ha
    · rcases List.mem_cons.mp ha with rfl | ha
      · push Not at hmax
        obtain ⟨d, hd, hlt⟩ := hmax
        obtain ⟨b, hb, hdb⟩ := ih hd
        exact ⟨b, hb, hlt.le.trans hdb⟩
      · exact ih ha

/-- **The first entry that is kept is the greatest.** -/
theorem isGreatest_of_head?_suffixMaxima (h : (suffixMaxima l).head? = some m) :
    IsGreatest {a | a ∈ l} m := by
  obtain ⟨rest, hrest⟩ := List.head?_eq_some_iff.mp h
  have hpair := pairwise_suffixMaxima l
  rw [hrest, pairwise_cons] at hpair
  refine ⟨(suffixMaxima_sublist l).subset (hrest ▸ mem_cons_self), fun a ha => ?_⟩
  obtain ⟨b, hb, hab⟩ := exists_le_suffixMaxima ha
  rw [hrest] at hb
  rcases List.mem_cons.mp hb with rfl | hb
  · exact hab
  · exact hab.trans (hpair.1 b hb)

theorem exists_head?_suffixMaxima (hl : l ≠ []) : ∃ m, (suffixMaxima l).head? = some m := by
  obtain ⟨a, ha⟩ := exists_mem_of_ne_nil l hl
  obtain ⟨b, hb, -⟩ := exists_le_suffixMaxima ha
  exact ⟨_, head?_eq_some_head (ne_nil_of_mem hb)⟩

/-! ### A window that moves on -/

/-- From the back of a list that does not increase, what is less than `a` is taken. -/
theorem rdropWhile_eq_filter (h : l.Pairwise fun a b => b ≤ a) (a : α) :
    l.rdropWhile (· < a) = l.filter (a ≤ ·) := by
  induction l using List.reverseRecOn with
  | nil => rfl
  | append_singleton l b ih =>
    rw [pairwise_append] at h
    rw [filter_append]
    by_cases hb : b < a
    · rw [rdropWhile_concat_pos _ _ _ (by simpa using hb), ih h.1,
        filter_singleton, decide_eq_false hb.not_ge]
      exact (append_nil _).symm
    · have hkept : l.filter (a ≤ ·) = l := List.filter_eq_self.mpr fun c hc =>
        decide_eq_true ((not_lt.mp hb).trans (h.2.2 c hc b (mem_singleton_self b)))
      rw [rdropWhile_concat_neg _ _ _ (by simpa using hb), hkept, filter_singleton,
        decide_eq_true (not_lt.mp hb)]
      rfl

/-- **A new last entry** drives out what is less at the back. -/
theorem suffixMaxima_concat (l : List α) (a : α) :
    suffixMaxima (l ++ [a]) = (suffixMaxima l).rdropWhile (· < a) ++ [a] := by
  rw [rdropWhile_eq_filter (pairwise_suffixMaxima l)]
  induction l with
  | nil => simp [suffixMaxima]
  | cons b l ih =>
    rw [cons_append, suffixMaxima, suffixMaxima, ih]
    by_cases hmax : ∀ c ∈ l, c ≤ b
    · by_cases hab : a ≤ b
      · rw [if_pos fun c hc => ?_, if_pos hmax, filter_cons_of_pos (by simpa using hab)]
        · rfl
        · rcases List.mem_append.mp hc with hc | hc
          · exact hmax c hc
          · exact (List.mem_singleton.mp hc).le.trans hab
      · rw [if_neg fun h => hab (h a (mem_append_right l (mem_singleton_self a))),
          if_pos hmax, filter_cons_of_neg (by simpa using hab)]
    · rw [if_neg fun h => hmax fun c hc => h c (mem_append_left _ hc), if_neg hmax]

/-- **The first entry leaves**: it was kept exactly if it is the first one that was. -/
theorem suffixMaxima_tail (a : α) (l : List α) :
    suffixMaxima l = if (suffixMaxima (a :: l)).head? = some a then (suffixMaxima (a :: l)).tail
      else suffixMaxima (a :: l) := by
  rw [suffixMaxima]
  by_cases hmax : ∀ b ∈ l, b ≤ a
  · rw [if_pos hmax, if_pos head?_cons, tail_cons]
  · rw [if_neg hmax, if_neg fun h => hmax fun b hb => ?_]
    exact (isGreatest_of_head?_suffixMaxima h).2 hb

end RustExample
