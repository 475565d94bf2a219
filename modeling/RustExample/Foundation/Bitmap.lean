import Mathlib.Data.List.Basic
import Mathlib.Data.Nat.Bitwise

/-!
# Bitmaps

A set of small numbers as bytes: number `i` is bit `i % 8` of byte `i / 8`. A bitmap of a list of
options says which of them are there.
-/

namespace RustExample.Bitmap

open List

/-- The bit of number `i` in its byte. -/
def mask (i : ℕ) : UInt8 := 1 <<< UInt8.ofNat (i % 8)

/-- Whether `i` is in the bitmap; nothing past its end is. -/
def test (bitmap : List UInt8) (i : ℕ) : Bool :=
  match bitmap[i / 8]? with
  | some byte => byte &&& mask i != 0
  | none => false

/-- Sets a bit. -/
def set (bitmap : List UInt8) (i : ℕ) : List UInt8 := bitmap.modify (i / 8) (· ||| mask i)

@[simp] theorem length_set (bitmap : List UInt8) (i : ℕ) : (set bitmap i).length = bitmap.length :=
  length_modify _ _ _

theorem toNat_mask (i : ℕ) : (mask i).toNat = 2 ^ (i % 8) := by
  have h : ∀ k : Fin 8, ((1 : UInt8) <<< UInt8.ofNat k).toNat = 2 ^ (k : ℕ) := by decide
  exact h ⟨i % 8, Nat.mod_lt _ (by omega)⟩

theorem and_mask_ne_zero (b : UInt8) (i : ℕ) :
    (b &&& mask i != 0) = b.toNat.testBit (i % 8) := by
  have hand : (b &&& mask i).toNat = (b.toNat.testBit (i % 8)).toNat * 2 ^ (i % 8) := by
    rw [UInt8.toNat_and, toNat_mask, Nat.and_two_pow]
  cases hbit : b.toNat.testBit (i % 8) with
  | false =>
    rw [hbit] at hand
    have hzero : b &&& mask i = 0 := UInt8.toNat_inj.mp (by simpa using hand)
    simp [hzero]
  | true =>
    rw [hbit] at hand
    have hne : b &&& mask i ≠ 0 := by
      intro hzero
      rw [hzero] at hand
      have hpos := Nat.two_pow_pos (i % 8)
      simp only [UInt8.toNat_zero, Bool.toNat_true, Nat.one_mul] at hand
      omega
    simp [hne]

theorem test_eq (bitmap : List UInt8) (i : ℕ) :
    test bitmap i = (bitmap[i / 8]?).any fun byte => byte.toNat.testBit (i % 8) := by
  rw [test]
  cases bitmap[i / 8]? with
  | none => rfl
  | some byte => exact and_mask_ne_zero byte i

/-- **What is in a bitmap** after one more number is put in. -/
theorem test_set {bitmap : List UInt8} {i : ℕ} (h : i / 8 < bitmap.length) (j : ℕ) :
    test (set bitmap i) j = (decide (i = j) || test bitmap j) := by
  rw [test_eq, test_eq, set, getElem?_modify]
  by_cases hbyte : i / 8 = j / 8
  · have hij : i % 8 = j % 8 ↔ i = j := by omega
    rw [← hbyte, getElem?_eq_getElem h]
    simp [Nat.testBit_two_pow, toNat_mask, hij, Bool.or_comm]
  · have hij : i ≠ j := fun h' => hbyte (by rw [h'])
    simp [hij, hbyte]

/-- Bitmaps of one length with the same numbers are equal. -/
theorem eq_of_test {a b : List UInt8} (hlen : a.length = b.length)
    (h : ∀ i, test a i = test b i) : a = b := by
  refine ext_getElem hlen fun j ha hb => UInt8.toNat_inj.mp (Nat.eq_of_testBit_eq fun k => ?_)
  rcases Nat.lt_or_ge k 8 with hk | hk
  · have hdiv : (8 * j + k) / 8 = j := by omega
    have hmod : (8 * j + k) % 8 = k := by omega
    have hbit := h (8 * j + k)
    rw [test_eq, test_eq, hdiv, hmod, getElem?_eq_getElem ha,
      getElem?_eq_getElem hb] at hbit
    simpa using hbit
  · have hsmall (u : UInt8) : u.toNat.testBit k = false :=
      Nat.testBit_lt_two_pow (u.toNat_lt.trans_le (Nat.pow_le_pow_right (by omega) hk))
    rw [hsmall, hsmall]

@[simp] theorem test_replicate_zero (n i : ℕ) : test (List.replicate n 0) i = false := by
  rw [test_eq, getElem?_replicate]
  split <;> simp

/-! ### Unions -/

/-- The union of two bitmaps of one length. -/
def union (a b : List UInt8) : List UInt8 := List.zipWith (· ||| ·) a b

/-- Sets some bits. -/
def setAll (bitmap : List UInt8) (l : List ℕ) : List UInt8 := l.foldl set bitmap

theorem length_union {a b : List UInt8} (h : a.length = b.length) :
    (union a b).length = a.length := by
  rw [union, length_zipWith, h, Nat.min_self]

theorem test_union {a b : List UInt8} (h : a.length = b.length) (i : ℕ) :
    test (union a b) i = (test a i || test b i) := by
  rw [test_eq, test_eq, test_eq, union, getElem?_zipWith]
  rcases Nat.lt_or_ge (i / 8) a.length with hi | hi
  · rw [getElem?_eq_getElem hi, getElem?_eq_getElem (h ▸ hi)]
    simp
  · rw [getElem?_eq_none hi, getElem?_eq_none (h ▸ hi)]
    rfl

@[simp] theorem length_setAll (bitmap : List UInt8) (l : List ℕ) :
    (setAll bitmap l).length = bitmap.length := by
  induction l generalizing bitmap with
  | nil => rfl
  | cons i l ih => exact (ih _).trans (length_set bitmap i)

theorem test_setAll {bitmap : List UInt8} {l : List ℕ} (h : ∀ i ∈ l, i / 8 < bitmap.length)
    (j : ℕ) : test (setAll bitmap l) j = (decide (j ∈ l) || test bitmap j) := by
  induction l generalizing bitmap with
  | nil => simp [setAll]
  | cons i l ih =>
    have hl : ∀ k ∈ l, k / 8 < (set bitmap i).length := fun k hk =>
      (length_set bitmap i).symm ▸ h k (mem_cons_of_mem _ hk)
    have hstep : test (setAll bitmap (i :: l)) j = test (setAll (set bitmap i) l) j := rfl
    rw [hstep, ih hl, test_set (h i mem_cons_self)]
    by_cases hij : i = j
    · simp [hij]
    · simp [hij, Ne.symm hij]

/-! ### Bitmaps of options -/

variable {α : Type*}

/-- One pass over the options with their positions. -/
def markAll (bitmap : List UInt8) (options : List (Option α × ℕ)) : List UInt8 :=
  options.foldl (fun bitmap p => if p.1.isSome then set bitmap p.2 else bitmap) bitmap

/-- The bitmap of the options that are there. -/
def ofOptions (options : List (Option α)) : List UInt8 :=
  markAll (List.replicate ((options.length + 7) / 8) 0) options.zipIdx

@[simp] theorem length_markAll (bitmap : List UInt8) (options : List (Option α × ℕ)) :
    (markAll bitmap options).length = bitmap.length := by
  induction options generalizing bitmap with
  | nil => rfl
  | cons p options ih =>
    rw [markAll, foldl_cons]
    refine (ih _).trans ?_
    split
    · exact length_set _ _
    · rfl

@[simp] theorem length_ofOptions (options : List (Option α)) :
    (ofOptions options).length = (options.length + 7) / 8 := by
  rw [ofOptions, length_markAll, length_replicate]

theorem test_markAll {bitmap : List UInt8} {options : List (Option α × ℕ)}
    (h : ∀ p ∈ options, p.2 / 8 < bitmap.length) (j : ℕ) :
    test (markAll bitmap options) j = true ↔
      test bitmap j = true ∨ ∃ a, (some a, j) ∈ options := by
  induction options generalizing bitmap with
  | nil => simp [markAll]
  | cons p options ih =>
    obtain ⟨o, i⟩ := p
    have hi : i / 8 < bitmap.length := h (o, i) mem_cons_self
    have hrest : ∀ p ∈ options, p.2 / 8 < bitmap.length :=
      fun p hp => h p (mem_cons_of_mem _ hp)
    rw [markAll, foldl_cons]
    cases o with
    | none =>
      refine (ih hrest).trans ?_
      simp
    | some a =>
      have hset : ∀ p ∈ options, p.2 / 8 < (set bitmap i).length := by simpa using hrest
      refine (ih hset).trans ?_
      rw [test_set hi]
      simp only [Bool.or_eq_true, decide_eq_true_eq, mem_cons, Prod.mk.injEq,
        Option.some.injEq]
      constructor
      · rintro ((rfl | ht) | ⟨b, hb⟩)
        · exact .inr ⟨a, .inl ⟨rfl, rfl⟩⟩
        · exact .inl ht
        · exact .inr ⟨b, .inr hb⟩
      · rintro (ht | ⟨b, ⟨rfl, rfl⟩ | hb⟩)
        · exact .inl (.inr ht)
        · exact .inl (.inl rfl)
        · exact .inr ⟨b, hb⟩

/-- **A bitmap of options** has the positions that are there. -/
theorem test_ofOptions (options : List (Option α)) (i : ℕ) :
    test (ofOptions options) i = true ↔ ∃ a, options[i]? = some (some a) := by
  have hmem : ∀ p ∈ options.zipIdx, p.2 / 8 < (List.replicate ((options.length + 7) / 8)
      (0 : UInt8)).length := by
    intro p hp
    have hlt := snd_lt_of_mem_zipIdx hp
    rw [length_replicate]
    omega
  rw [ofOptions, test_markAll hmem, test_replicate_zero]
  simp [mem_zipIdx_iff_getElem?]

end RustExample.Bitmap
