import Mathlib.Algebra.Group.Nat.Defs
import Mathlib.Data.List.Lex
import Mathlib.Order.Lattice

/-!
# Key texts and their order

Keys of an ordered store that list a number and a name are written with the number padded by
zeros to a fixed width and a separator behind it. The first separator ends the number, so the
text determines both parts.

An ordered store compares the bytes of its keys, from the first one on. The encoding of texts keeps
their order: the bytes compare as the characters do. Decimals that are padded to one length compare
as their numbers do, so that keys which start with such a number are in the order of the numbers.
-/

namespace RustExample.KeyText

open List

/-- The decimal of `n`, padded by zeros to at least `width` digits. -/
def padded (width n : ℕ) : List Char := (Nat.toDigits 10 n).leftpad width '0'

theorem ofDigitChars_padded (width n : ℕ) : Nat.ofDigitChars 10 (padded width n) 0 = n := by
  simp [padded, List.leftpad, Nat.ofDigitChars_append]

theorem padded_injective (width : ℕ) : Function.Injective (padded width) := by
  intro m n h
  rw [← ofDigitChars_padded width m, h, ofDigitChars_padded]

theorem isDigit_of_mem_padded {width n : ℕ} {c : Char} (h : c ∈ padded width n) :
    c.isDigit = true := by
  simp only [padded, List.leftpad, mem_append, mem_replicate] at h
  rcases h with ⟨-, rfl⟩ | h
  · rfl
  · exact Nat.isDigit_of_mem_toDigits (by decide) (by decide) h

theorem separator_notMem_padded (width n : ℕ) : ':' ∉ padded width n := fun h =>
  absurd (isDigit_of_mem_padded h) (by decide)

/-- **Unique split at the first separator.** Two texts whose first parts contain no separator
agree only if both parts agree. -/
theorem append_separator_inj {α : Type*} {c : α} {l₁ l₂ t₁ t₂ : List α} (h₁ : c ∉ l₁)
    (h₂ : c ∉ l₂) (h : l₁ ++ c :: t₁ = l₂ ++ c :: t₂) : l₁ = l₂ ∧ t₁ = t₂ := by
  induction l₁ generalizing l₂ with
  | nil =>
    cases l₂ with
    | nil => simpa using h
    | cons b l₂ =>
      obtain ⟨rfl, -⟩ := List.cons.inj h
      simp at h₂
  | cons a l₁ ih =>
    cases l₂ with
    | nil =>
      obtain ⟨rfl, -⟩ := List.cons.inj h
      simp at h₁
    | cons b l₂ =>
      obtain ⟨rfl, htail⟩ : a = b ∧ l₁ ++ c :: t₁ = l₂ ++ c :: t₂ := by simpa using h
      obtain ⟨rfl, rfl⟩ := ih (fun hc => h₁ (mem_cons_of_mem _ hc))
        (fun hc => h₂ (mem_cons_of_mem _ hc)) htail
      exact ⟨rfl, rfl⟩

/-- The split at the last separator is unique as well. -/
theorem append_separator_inj' {α : Type*} {c : α} {l₁ l₂ t₁ t₂ : List α} (h₁ : c ∉ t₁)
    (h₂ : c ∉ t₂) (h : l₁ ++ c :: t₁ = l₂ ++ c :: t₂) : l₁ = l₂ ∧ t₁ = t₂ := by
  have hrev : t₁.reverse ++ c :: l₁.reverse = t₂.reverse ++ c :: l₂.reverse := by
    simpa using congrArg List.reverse h
  obtain ⟨ht, hl⟩ := append_separator_inj (by simpa using h₁) (by simpa using h₂) hrev
  exact ⟨List.reverse_inj.mp hl, List.reverse_inj.mp ht⟩

/-! ### Lists that start alike -/

section Lists

variable {α : Type*} [LT α] {l l' : List α}

/-- Lists of one length decide, unless they are equal. -/
theorem append_lt_append_iff (h : l.length = l'.length) {t t' : List α} :
    l ++ t < l' ++ t' ↔ l < l' ∨ l = l' ∧ t < t' := by
  induction l generalizing l' with
  | nil =>
    obtain rfl := eq_nil_of_length_eq_zero h.symm
    simp
  | cons a l ih =>
    obtain ⟨b, m, rfl⟩ := exists_cons_of_length_eq_add_one h.symm
    rw [cons_append, cons_append, cons_lt_cons_iff, cons_lt_cons_iff,
      ih (Nat.succ.inj h), List.cons.injEq]
    tauto

/-- Lists with a separator below their entries at the end compare as the lists, if these differ. -/
theorem append_separator_lt_iff {α : Type*} [LinearOrder α] {c : α} {l l' : List α}
    (h : ∀ a ∈ l, c < a) (h' : ∀ a ∈ l', c < a) {t t' : List α} :
    l ++ c :: t < l' ++ c :: t' ↔ l < l' ∨ l = l' ∧ t < t' := by
  induction l generalizing l' with
  | nil =>
    cases l' with
    | nil => simp
    | cons b l' =>
      have hcb : c < b := h' b mem_cons_self
      simp [cons_lt_cons_iff, hcb, nil_lt_cons]
  | cons a l ih =>
    cases l' with
    | nil =>
      have hca : c < a := h a mem_cons_self
      simp [cons_lt_cons_iff, hca.not_gt, hca.ne']
    | cons b l' =>
      have hl : ∀ a ∈ l, c < a := fun a' ha' => h a' (mem_cons_of_mem a ha')
      have hl' : ∀ a ∈ l', c < a := fun a' ha' => h' a' (mem_cons_of_mem b ha')
      rw [cons_append, cons_append, cons_lt_cons_iff, ih hl hl',
        cons_lt_cons_iff, List.cons.injEq]
      tauto

theorem not_append_lt [Std.Irrefl (α := α) (· < ·)] (p t : List α) : ¬p ++ t < p := by
  induction p with
  | nil => exact not_lt_nil _
  | cons a p ih =>
    rw [cons_append, cons_lt_cons_self]
    exact ih

/-- The lists differ at some place, and the first one is smaller there. -/
def Diverges : List α → List α → Prop
  | a :: l, b :: l' => a < b ∨ a = b ∧ Diverges l l'
  | _, _ => False

/-- What stands behind the place does not matter. -/
theorem Diverges.append_lt (h : Diverges l l') (t t' : List α) : l ++ t < l' ++ t' := by
  induction l generalizing l' with
  | nil => exact h.elim
  | cons a l ih =>
    cases l' with
    | nil => exact h.elim
    | cons b l' =>
      rw [cons_append, cons_append, cons_lt_cons_iff]
      exact h.imp_right fun ⟨hab, hl⟩ => ⟨hab, ih hl⟩

/-- What stands between a list and one that it starts is started by it as well. -/
theorem isPrefix_of_not_lt {α : Type*} [LinearOrder α] {p l t : List α} (h : ¬l < p)
    (h' : ¬p ++ t < l) : p <+: l := by
  induction p generalizing l with
  | nil => exact nil_prefix
  | cons a p ih =>
    cases l with
    | nil => exact absurd (nil_lt_cons _ _) h
    | cons b l =>
      rw [cons_lt_cons_iff, not_or, not_and] at h
      rw [cons_append, cons_lt_cons_iff, not_or, not_and] at h'
      obtain rfl : a = b := le_antisymm (not_lt.mp h.1) (not_lt.mp h'.1)
      exact List.cons_prefix_cons.mpr ⟨rfl, ih (h.2 rfl) (h'.2 rfl)⟩

end Lists

/-! ### Bytes of texts -/

theorem toNat_val_le (c : Char) : c.val.toNat ≤ 0x10ffff := by
  have hvalid : Nat.isValidChar c.val.toNat := c.valid
  rw [Nat.isValidChar] at hvalid
  omega

theorem ofNat_lt_ofNat_iff {m n : ℕ} (hm : m < 256) (hn : n < 256) :
    UInt8.ofNat m < UInt8.ofNat n ↔ m < n := by
  rw [UInt8.lt_iff_toNat_lt, UInt8.toNat_ofNat', UInt8.toNat_ofNat', Nat.mod_eq_of_lt hm,
    Nat.mod_eq_of_lt hn]

theorem ofNat_eq_ofNat_iff {m n : ℕ} (hm : m < 256) (hn : n < 256) :
    UInt8.ofNat m = UInt8.ofNat n ↔ m = n := by
  rw [← UInt8.toNat_inj, UInt8.toNat_ofNat', UInt8.toNat_ofNat', Nat.mod_eq_of_lt hm,
    Nat.mod_eq_of_lt hn]

/-- The bytes of a smaller character are smaller, from the first place on where they differ. -/
theorem diverges_utf8EncodeChar {c d : Char} (h : c < d) :
    Diverges (String.utf8EncodeChar c) (String.utf8EncodeChar d) := by
  have hlt : c.val.toNat < d.val.toNat := h
  have hc : c.val.toNat ≤ 0x10ffff := toNat_val_le c
  have hd : d.val.toNat ≤ 0x10ffff := toNat_val_le d
  simp only [String.utf8EncodeChar]
  generalize c.val.toNat = m at *
  generalize d.val.toNat = n at *
  have hsecond (k : ℕ) : k / 4096 = k / 64 / 64 := (Nat.div_div_eq_div_mul k 64 64).symm
  have hthird (k : ℕ) : k / 262144 = k / 64 / 64 / 64 := by
    rw [← hsecond, Nat.div_div_eq_div_mul]
  -- one case for each two numbers of bytes; the smaller character does not have more of them
  split_ifs <;> simp only [Diverges, or_false, and_false]
  all_goals
    simp (disch := omega) only [ofNat_lt_ofNat_iff, ofNat_eq_ofNat_iff, hsecond, hthird]
    omega

theorem flatMap_utf8EncodeChar_lt {l l' : List Char} (h : l < l') :
    l.flatMap String.utf8EncodeChar < l'.flatMap String.utf8EncodeChar := by
  induction l generalizing l' with
  | nil =>
    cases l' with
    | nil => exact absurd h (List.lt_irrefl _)
    | cons d l' =>
      obtain ⟨b, bs, hd⟩ := exists_cons_of_ne_nil (@String.utf8EncodeChar_ne_nil d)
      rw [flatMap_cons, hd]
      exact nil_lt_cons _ _
  | cons c l ih =>
    cases l' with
    | nil => exact absurd h (not_lt_nil _)
    | cons d l' =>
      rw [flatMap_cons, flatMap_cons]
      rcases List.cons_lt_cons_iff.mp h with hcd | ⟨rfl, hl⟩
      · exact (diverges_utf8EncodeChar hcd).append_lt _ _
      · exact (append_lt_append_iff rfl).mpr (.inr ⟨rfl, ih hl⟩)

theorem toList_data_toByteArray (s : String) :
    s.toByteArray.data.toList = s.toList.flatMap String.utf8EncodeChar := by
  conv_lhs => rw [← String.ofList_toList (s := s)]
  rw [String.toByteArray_ofList, List.utf8Encode, List.toList_data_toByteArray]

/-- **Bytes compare as characters.** -/
theorem toByteArray_lt_iff {s t : String} :
    s.toByteArray.data.toList < t.toByteArray.data.toList ↔ s < t := by
  rw [toList_data_toByteArray, toList_data_toByteArray]
  refine ⟨fun h => ?_, flatMap_utf8EncodeChar_lt⟩
  by_contra hst
  by_cases hts : t < s
  · exact List.lt_asymm h (flatMap_utf8EncodeChar_lt hts)
  · obtain rfl := String.le_antisymm (String.not_lt.mp hts) (String.not_lt.mp hst)
    exact List.lt_irrefl _ h

/-! ### Padded decimals -/

theorem toNat_of_isDigit {c : Char} (h : c.isDigit = true) : 48 ≤ c.toNat ∧ c.toNat ≤ 57 := by
  rw [Char.isDigit, Bool.and_eq_true, decide_eq_true_iff, decide_eq_true_iff] at h
  exact h

theorem toNat_sub_lt {c : Char} (h : c.isDigit = true) : c.toNat - '0'.toNat < 10 := by
  have hc := toNat_of_isDigit h
  have hzero : '0'.toNat = 48 := rfl
  omega

theorem ofDigitChars_lt {l : List Char} (h : ∀ c ∈ l, c.isDigit = true) :
    Nat.ofDigitChars 10 l 0 < 10 ^ l.length := by
  induction l with
  | nil => simp
  | cons c l ih =>
    have hrest := ih fun c' hc' => h c' (mem_cons_of_mem c hc')
    have hdigit := toNat_sub_lt (h c mem_cons_self)
    rw [Nat.ofDigitChars_cons, Nat.ofDigitChars_eq_ofDigitChars_zero, length_cons,
      Nat.pow_succ', Nat.mul_zero, Nat.zero_add]
    have hmul : 10 ^ l.length * (c.toNat - '0'.toNat) ≤ 10 ^ l.length * 9 :=
      Nat.mul_le_mul_left _ (Nat.le_of_lt_succ hdigit)
    omega

theorem mul_add_lt_iff {p x y a b : ℕ} (ha : a < p) (hb : b < p) :
    p * x + a < p * y + b ↔ x < y ∨ x = y ∧ a < b := by
  rcases lt_trichotomy x y with h | rfl | h
  · have hmul : p * (x + 1) ≤ p * y := Nat.mul_le_mul_left p h
    rw [Nat.mul_succ] at hmul
    omega
  · omega
  · have hmul : p * (y + 1) ≤ p * x := Nat.mul_le_mul_left p h
    rw [Nat.mul_succ] at hmul
    omega

theorem lt_iff_ofDigitChars_lt {l l' : List Char} (h : ∀ c ∈ l, c.isDigit = true)
    (h' : ∀ c ∈ l', c.isDigit = true) (hlength : l.length = l'.length) :
    l < l' ↔ Nat.ofDigitChars 10 l 0 < Nat.ofDigitChars 10 l' 0 := by
  induction l generalizing l' with
  | nil =>
    obtain rfl := eq_nil_of_length_eq_zero hlength.symm
    simp
  | cons c l ih =>
    obtain ⟨d, m, rfl⟩ := exists_cons_of_length_eq_add_one hlength.symm
    have hl : ∀ c ∈ l, c.isDigit = true := fun c' hc' => h c' (mem_cons_of_mem c hc')
    have hm : ∀ c ∈ m, c.isDigit = true := fun c' hc' => h' c' (mem_cons_of_mem d hc')
    have hlm : l.length = m.length := Nat.succ.inj hlength
    have hlbound := ofDigitChars_lt hl
    have hmbound := ofDigitChars_lt hm
    have hc := toNat_of_isDigit (h c mem_cons_self)
    have hd := toNat_of_isDigit (h' d mem_cons_self)
    rw [← hlm] at hmbound
    have hzero : '0'.toNat = 48 := rfl
    have hcd : c < d ↔ c.toNat - '0'.toNat < d.toNat - '0'.toNat := by
      have hlt : c < d ↔ c.toNat < d.toNat := Iff.rfl
      rw [hlt, hzero]
      omega
    have heq : c = d ↔ c.toNat - '0'.toNat = d.toNat - '0'.toNat := by
      rw [← Char.toNat_inj, hzero]
      omega
    rw [cons_lt_cons_iff, ih hl hm hlm, hcd, heq, Nat.ofDigitChars_cons,
      Nat.ofDigitChars_cons, Nat.mul_zero, Nat.zero_add, Nat.zero_add,
      @Nat.ofDigitChars_eq_ofDigitChars_zero l (_ - _),
      @Nat.ofDigitChars_eq_ofDigitChars_zero m (_ - _), ← hlm, mul_add_lt_iff hlbound hmbound]

theorem length_padded {width n : ℕ} (hwidth : 0 < width) (h : n < 10 ^ width) :
    (padded width n).length = width := by
  rw [padded, length_leftpad]
  exact max_eq_left ((Nat.length_toDigits_le_iff (by decide) hwidth).mpr h)

/-- **Padded decimals compare as numbers.** -/
theorem padded_lt_padded_iff {width m n : ℕ} (hwidth : 0 < width) (hm : m < 10 ^ width)
    (hn : n < 10 ^ width) :
    padded width m < padded width n ↔ m < n := by
  have hlength : (padded width m).length = (padded width n).length :=
    (length_padded hwidth hm).trans (length_padded hwidth hn).symm
  rw [lt_iff_ofDigitChars_lt (fun _ => isDigit_of_mem_padded) (fun _ => isDigit_of_mem_padded)
    hlength, ofDigitChars_padded, ofDigitChars_padded]

end RustExample.KeyText
