import Mathlib.Data.List.Perm.Basic
import Mathlib.Data.List.Sort

/-!
# Sorting lists

A list is sorted by taking out entries, each of which belongs before all that are left.

A list is turned into the strictly increasing list of its members by sorting it and dropping every
element that is equal to its neighbour.
-/

namespace RustExample

open List

section Ends

variable {α : Type*} {r : α → α → Prop} {l s s' out rest rest' : List α} {a : α}

/-- `s` has the entries of `l`, in order. -/
structure SortsTo (r : α → α → Prop) (l s : List α) : Prop where
  perm : s.Perm l
  sorted : s.Pairwise r

/-- `out` was taken out of `l`, in order, and belongs before the entries `rest` that are left. -/
structure Sorting (r : α → α → Prop) (l out rest : List α) : Prop where
  perm : (out ++ rest).Perm l
  sorted : out.Pairwise r
  before : ∀ a ∈ out, ∀ b ∈ rest, r a b

/-- **A list has one order only.** -/
theorem SortsTo.unique [Std.Antisymm r] (h : SortsTo r l s) (h' : SortsTo r l s') : s = s' :=
  (h.perm.trans h'.perm.symm).eq_of_pairwise (fun _ _ _ _ => Std.Antisymm.antisymm _ _)
    h.sorted h'.sorted

namespace Sorting

theorem start (l : List α) : Sorting r l [] l := ⟨List.Perm.refl l, .nil, nofun⟩

theorem of_perm (h : Sorting r l out rest) (hperm : rest'.Perm rest) : Sorting r l out rest' :=
  ⟨(hperm.append_left out).trans h.perm, h.sorted,
    fun a ha b hb => h.before a ha b (hperm.mem_iff.mp hb)⟩

/-- **The next entry.** -/
theorem next (h : Sorting r l out rest) (hperm : rest.Perm (a :: rest'))
    (ha : ∀ b ∈ rest', r a b) : Sorting r l (out ++ [a]) rest' := by
  refine ⟨?_, ?_, ?_⟩
  · rw [append_assoc, singleton_append]
    exact (hperm.symm.append_left out).trans h.perm
  · rw [pairwise_append]
    refine ⟨h.sorted, pairwise_singleton r a, fun b hb c hc => ?_⟩
    rw [List.mem_singleton.mp hc]
    exact h.before b hb a (hperm.mem_iff.mpr mem_cons_self)
  · intro b hb c hc
    rcases List.mem_append.mp hb with hb | hb
    · exact h.before b hb c (hperm.mem_iff.mpr (mem_cons_of_mem a hc))
    · rw [List.mem_singleton.mp hb]
      exact ha c hc

/-- **The end**: what is left is in order. -/
theorem append (h : Sorting r l out rest) (hrest : rest.Pairwise r) : SortsTo r l (out ++ rest) :=
  ⟨h.perm, List.pairwise_append.mpr ⟨h.sorted, hrest, h.before⟩⟩

theorem done (h : Sorting r l out []) : SortsTo r l out := by
  have hend := h.append .nil
  rwa [append_nil] at hend

end Sorting

theorem sortsTo_mergeSort {β : Type*} [LinearOrder β] (key : α → β) (l : List α) :
    SortsTo (key · ≤ key ·) l (l.mergeSort fun a b => key a ≤ key b) where
  perm := mergeSort_perm ..
  sorted := by
    have hsorted := @List.pairwise_mergeSort α fun a b => decide (key a ≤ key b)
    simp only [decide_eq_true_eq, Bool.or_eq_true] at hsorted
    exact hsorted (fun _ _ _ => le_trans) (fun _ _ => le_total _ _) l

theorem SortsTo.take (h : SortsTo r l s) (n : ℕ) : Sorting r l (s.take n) (s.drop n) := by
  have hsorted := h.sorted
  rw [← take_append_drop n s, pairwise_append] at hsorted
  refine ⟨?_, hsorted.1, hsorted.2.2⟩
  rw [take_append_drop]
  exact h.perm

/-- The first entry of the rest of a list in order is the least. -/
theorem getElem_le_of_mem_drop [Preorder α] {k : ℕ} (h : l.Pairwise (· ≤ ·)) (hk : k < l.length)
    (ha : a ∈ l.drop k) : l[k] ≤ a := by
  have hdrop : (l.drop k).Pairwise (· ≤ ·) := h.drop
  rw [drop_eq_getElem_cons hk] at ha hdrop
  rcases List.mem_cons.mp ha with rfl | ha
  · exact le_rfl
  · exact rel_of_pairwise_cons hdrop ha

/-! ### Orders by positions -/

/-- The entries at positions `p < q` with `A p q` are in order. -/
def OrderedAt [LE α] (A : ℕ → ℕ → Prop) (l : List α) : Prop :=
  ∀ p q a b, p < q → A p q → l[p]? = some a → l[q]? = some b → a ≤ b

theorem OrderedAt.mono [LE α] {A B : ℕ → ℕ → Prop} (h : OrderedAt A l)
    (hle : ∀ p q, p < q → q < l.length → B p q → A p q) : OrderedAt B l := by
  intro p q a b hpq hB ha hb
  have hlt : q < l.length := (List.getElem?_eq_some_iff.mp hb).1
  exact h p q a b hpq (hle p q hpq hlt hB) ha hb

theorem OrderedAt.pairwise [LE α] {A : ℕ → ℕ → Prop} (h : OrderedAt A l)
    (hall : ∀ p q, p < q → q < l.length → A p q) : l.Pairwise (· ≤ ·) := by
  rw [pairwise_iff_getElem]
  intro p q hp hq hpq
  exact h p q _ _ hpq (hall p q hpq hq) (getElem?_eq_getElem hp) (getElem?_eq_getElem hq)

end Ends

/-! ### Dropping repetitions -/

section Repetitions

variable {α : Type*}

/-- Keep one of every run of equal elements. -/
def dedupRuns [DecidableEq α] : List α → List α
  | [] => []
  | [a] => [a]
  | a :: b :: l => if a = b then dedupRuns (b :: l) else a :: dedupRuns (b :: l)

variable {l : List α}

theorem mem_dedupRuns [DecidableEq α] {c : α} : c ∈ dedupRuns l ↔ c ∈ l := by
  fun_induction dedupRuns l with
  | case1 => rfl
  | case2 a => rfl
  | case3 a l ih => simp [ih]
  | case4 a b l hab ih => rw [mem_cons, ih, mem_cons (l := b :: l)]

section LinearOrder

variable [LinearOrder α]

/-- Without repetitions a sorted list is strictly increasing. -/
theorem pairwise_dedupRuns (h : l.Pairwise (· ≤ ·)) :
    (dedupRuns l).Pairwise (· < ·) := by
  fun_induction dedupRuns l with
  | case1 => exact .nil
  | case2 a => exact pairwise_singleton _ a
  | case3 a l ih => exact ih h.of_cons
  | case4 a b l hab ih =>
    have hle : ∀ c ∈ b :: l, a ≤ c := fun c => rel_of_pairwise_cons h
    have hb : ∀ c ∈ b :: l, b ≤ c := by
      intro c hc
      rcases List.mem_cons.mp hc with rfl | hc
      · exact le_rfl
      · exact rel_of_pairwise_cons h.of_cons hc
    have hlt : a < b := lt_of_le_of_ne (hle b mem_cons_self) hab
    refine List.pairwise_cons.mpr ⟨fun c hc => ?_, ih h.of_cons⟩
    exact lt_of_lt_of_le hlt (hb c (mem_dedupRuns.mp hc))

/-- Sort a list and drop repetitions. -/
def sortDedup (l : List α) : List α := dedupRuns (l.insertionSort (· ≤ ·))

@[simp] theorem mem_sortDedup {c : α} : c ∈ sortDedup l ↔ c ∈ l := by
  rw [sortDedup, mem_dedupRuns, mem_insertionSort]

theorem pairwise_sortDedup (l : List α) : (sortDedup l).Pairwise (· < ·) :=
  pairwise_dedupRuns (pairwise_insertionSort _ l)

/-- **The strictly increasing list of the members.** -/
theorem sortDedup_eq {l' : List α} (h : ∀ c, c ∈ l ↔ c ∈ l') (hl' : l'.Pairwise (· < ·)) :
    sortDedup l = l' :=
  (pairwise_sortDedup l).sortedLT.eq_of_mem_iff hl'.sortedLT fun c => mem_sortDedup.trans (h c)

end LinearOrder

end Repetitions

end RustExample
