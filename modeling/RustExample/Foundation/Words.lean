import Mathlib.Algebra.GroupWithZero.Nat
import Mathlib.Data.List.Basic

/-!
# Words of a text, and its bytes

The words of a list are its longest pieces without a separator.
-/

namespace RustExample

open List

variable {α : Type*} {p : α → Bool}

/-- The parts between the separators. -/
def words (p : α → Bool) (l : List α) : List (List α) :=
  (l.splitOnP p).filter fun word => !word.isEmpty

/-- The characters that Rust takes for blanks. -/
def isUnicodeWhitespace (c : Char) : Bool :=
  let n := c.toNat
  (0x9 ≤ n && n ≤ 0xd) || n = 0x20 || n = 0x85 || n = 0xa0 || n = 0x1680 ||
    (0x2000 ≤ n && n ≤ 0x200a) || n = 0x2028 || n = 0x2029 || n = 0x202f || n = 0x205f || n = 0x3000

theorem words_nil : words p [] = [] := by
  rw [words, splitOnP_nil]
  rfl

theorem words_of_ne_nil {word : List α} (hne : word ≠ []) (hword : ∀ x ∈ word, p x = false) :
    words p word = [word] := by
  rw [words, splitOnP_eq_singleton hword]
  cases word with
  | nil => exact absurd rfl hne
  | cons x word => rfl

theorem words_append_cons {word : List α} (hne : word ≠ []) (hword : ∀ x ∈ word, p x = false)
    {sep : α} (hsep : p sep = true) (l : List α) :
    words p (word ++ sep :: l) = word :: words p l := by
  rw [words, splitOnP_append_cons_of_forall_mem hword sep hsep]
  cases word with
  | nil => exact absurd rfl hne
  | cons x word => rfl

/-- **Words put together with a separator** are read again. -/
theorem words_intercalate {sep : α} (hsep : p sep = true) {ws : List (List α)}
    (hws : ∀ word ∈ ws, word ≠ [] ∧ ∀ x ∈ word, p x = false) :
    words p ([sep].intercalate ws) = ws := by
  induction ws with
  | nil => exact words_nil
  | cons word ws ih =>
    obtain ⟨hne, hword⟩ := hws word mem_cons_self
    cases ws with
    | nil => simpa [List.intercalate] using words_of_ne_nil hne hword
    | cons word' ws =>
      have hcons : [sep].intercalate (word :: word' :: ws) =
          word ++ sep :: [sep].intercalate (word' :: ws) := by simp [List.intercalate]
      rw [hcons, words_append_cons hne hword hsep,
        ih fun w hw => hws w (mem_cons_of_mem _ hw)]

/-- The pieces of a list, with the separators between them, are as long as the list. -/
theorem sum_length_splitOnP (p : α → Bool) (l : List α) :
    ((l.splitOnP p).map fun piece => piece.length + 1).sum = l.length + 1 := by
  induction l with
  | nil => simp
  | cons x l ih =>
    rw [splitOnP_cons_eq_if_modifyHead]
    split_ifs with hx
    · rw [map_cons, sum_cons, ih, length_nil, length_cons]
      omega
    · cases hsplit : l.splitOnP p with
      | nil => exact absurd hsplit (splitOnP_ne_nil p l)
      | cons piece pieces =>
        rw [hsplit, map_cons, sum_cons] at ih
        rw [modifyHead_cons, map_cons, sum_cons, length_cons, length_cons]
        omega

/-- **Words are separated**: each but the last takes two places at least. -/
theorem length_words (p : α → Bool) (l : List α) : 2 * (words p l).length ≤ l.length + 1 := by
  have hsum := sum_length_splitOnP p l
  have hpieces (pieces : List (List α)) :
      2 * (pieces.filter fun word => !word.isEmpty).length ≤
        (pieces.map fun piece => piece.length + 1).sum := by
    induction pieces with
    | nil => simp
    | cons piece pieces ih =>
      cases piece with
      | nil =>
        simp only [filter_cons, isEmpty_nil, map_cons, sum_cons]
        simp only [Bool.not_true, Bool.false_eq_true, if_false]
        omega
      | cons x piece =>
        simp only [filter_cons, isEmpty_cons, Bool.not_false, if_true, map_cons,
          sum_cons, length_cons]
        omega
  rw [← hsum]
  exact hpieces (l.splitOnP p)

theorem length_le_utf8ByteSize (s : String) : s.toList.length ≤ s.utf8ByteSize := by
  induction s using String.push_induction with
  | empty => simp
  | push s c ih =>
    have hpos := c.utf8Size_pos
    rw [String.toList_push, length_append, length_singleton, String.utf8ByteSize_push]
    omega

/-- `text.as_bytes()` -/
def asBytes (text : String) : List UInt8 := text.toUTF8.data.toList

theorem length_asBytes (text : String) : (asBytes text).length = text.utf8ByteSize := rfl

theorem asBytes_ne_nil {text : String} (h : text ≠ "") : asBytes text ≠ [] := fun hnil =>
  h (String.utf8ByteSize_eq_zero_iff.mp (congrArg List.length hnil))

end RustExample
