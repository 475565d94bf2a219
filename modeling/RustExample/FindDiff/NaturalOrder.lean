import RustExample.FindDiff.Matches

/-!
# The natural order of lines

Lines are compared from left to right. Where both of them go on with a digit, the whole runs of
digits are compared by their numbers; otherwise the next characters are, in lower case. A line is a
list of tokens, runs and characters, and lines are compared as these lists.

Source: `fs_workspace_example/find_diff/src/main.rs`.

* A string is the list of its characters. Characters are compared by their numbers.
* What the lower case of a character is, is left open but for what `Lowering` says.
* An index out of range is `none`.
-/

namespace RustExample.FindDiff

open Std

/-! ### Comparing -/

/-- The order of characters. -/
def charCmp : Char → Char → Ordering := compareOn Char.toNat

/-- The lexicographic order of sequences of characters. -/
def seqCmp : List Char → List Char → Ordering := List.compareLex charCmp

instance : TransCmp charCmp := inferInstanceAs (TransCmp (compareOn Char.toNat))

instance : TransCmp seqCmp := inferInstanceAs (TransCmp (List.compareLex charCmp))

/-- The lower case of characters: a digit stays, and no other character gets one. -/
structure Lowering where
  toLowercase : Char → List Char
  digit : ∀ c, c.isDigit = true → toLowercase c = [c]
  other : ∀ c, c.isDigit = false → ∀ d ∈ toLowercase c, d.isDigit = false

instance : Inhabited Lowering where
  default :=
    { toLowercase c := [c]
      digit _ _ := rfl
      other _ hc _ hd := List.mem_singleton.mp hd ▸ hc }

/-- The run of digits at the front, and what comes behind it. -/
def takeDigitRun (chars : List Char) : List Char × List Char :=
  (chars.takeWhile Char.isDigit, chars.dropWhile Char.isDigit)

/-- `trim_start_matches('0')` -/
def trimZeros (digits : List Char) : List Char := digits.dropWhile (· == '0')

/-- A run of digits without leading zeros. -/
def numberOf (digits : List Char) : List Char :=
  if trimZeros digits = [] then ['0'] else trimZeros digits

/-- The order of two runs of digits. -/
def digitsCmp (leftDigits rightDigits : List Char) : Ordering :=
  ((compare (numberOf leftDigits).length (numberOf rightDigits).length).then
    (seqCmp (numberOf leftDigits) (numberOf rightDigits))).then
      (compare leftDigits.length rightDigits.length)

/-- The order of the runs of digits at the front, and what comes behind them. -/
def compareDigitRuns (leftChars rightChars : List Char) : Ordering × List Char × List Char :=
  let (leftDigits, leftChars) := takeDigitRun leftChars
  let (rightDigits, rightChars) := takeDigitRun rightChars
  (digitsCmp leftDigits rightDigits, leftChars, rightChars)

theorem length_takeDigitRun_lt {c : Char} {cs : List Char} (hc : c.isDigit = true) :
    (takeDigitRun (c :: cs)).2.length < (c :: cs).length := by
  rw [takeDigitRun, List.dropWhile_cons_of_pos hc, List.length_cons]
  exact Nat.lt_succ_of_le (List.dropWhile_suffix _).length_le

namespace Lowering

/-- The loop of `natural_cmp`. -/
def charsCmp (L : Lowering) : List Char → List Char → Ordering
  | [], [] => .eq
  | [], _ :: _ => .lt
  | _ :: _, [] => .gt
  | left :: leftChars, right :: rightChars =>
    if left.isDigit = true ∧ right.isDigit = true then
      let run := compareDigitRuns (left :: leftChars) (right :: rightChars)
      run.1.then (L.charsCmp run.2.1 run.2.2)
    else (seqCmp (L.toLowercase left) (L.toLowercase right)).then (L.charsCmp leftChars rightChars)
  termination_by left => left.length
  decreasing_by
    · exact length_takeDigitRun_lt (And.left ‹_›)
    · exact Nat.lt_succ_self _

end Lowering

/-- The natural order of texts. -/
def naturalCmp (L : Lowering) (left right : String) : Ordering :=
  L.charsCmp left.toList right.toList

/-- The file of a line. -/
def IndexedDocuments.fileName (d : IndexedDocuments) (lineIndex : ℕ) : Option String := do
  let lineRef ← d.lines[lineIndex]?
  let item ← d.documents[lineRef.document]?
  some item.name

/-- The order of lines. -/
def matchLineCmp (L : Lowering) (documents : IndexedDocuments) (left right : ℕ) :
    Option Ordering := do
  let leftText := (← documents.line left).text
  let rightText := (← documents.line right).text
  some ((naturalCmp L leftText rightText).then
    (compare (← documents.fileName left) (← documents.fileName right)))

/-- The order of groups. -/
def matchGroupCmp (L : Lowering) (documents : IndexedDocuments) (left right : List ℕ) :
    Option Ordering :=
  match left.head?, right.head? with
  | some left, some right => matchLineCmp L documents left right
  | none, some _ => some .lt
  | some _, none => some .gt
  | none, none => some .eq

/-! ### Tokens -/

/-- A run of digits, or the lower case of one character, in the order of their fields: a run is the
character `'0'`, and then its number and its length. -/
structure Token where
  lower : List Char
  size : ℕ
  number : List Char
  length : ℕ

namespace Token

/-- The token of a run. -/
def ofRun (digits : List Char) : Token :=
  ⟨['0'], (numberOf digits).length, numberOf digits, digits.length⟩

/-- The token of a character. -/
def ofLower (lower : List Char) : Token := ⟨lower, 0, [], 0⟩

/-- The order of tokens. -/
def cmp : Token → Token → Ordering :=
  compareLex (fun t u => seqCmp t.lower u.lower) (compareLex (compareOn Token.size)
    (compareLex (fun t u => seqCmp t.number u.number) (compareOn Token.length)))

theorem transCmp_on {α β : Type} {cmp : β → β → Ordering} [TransCmp cmp] (f : α → β) :
    TransCmp fun a b => cmp (f a) (f b) where
  eq_swap := OrientedCmp.eq_swap
  isLE_trans := TransCmp.isLE_trans

instance : TransCmp Token.cmp := by
  have hlower : TransCmp fun t u : Token => seqCmp t.lower u.lower := transCmp_on Token.lower
  have hnumber : TransCmp fun t u : Token => seqCmp t.number u.number := transCmp_on Token.number
  unfold Token.cmp
  infer_instance

end Token

namespace Lowering

/-- The tokens of a text. -/
def tokens (L : Lowering) : List Char → List Token
  | [] => []
  | c :: cs =>
    if c.isDigit = true then
      Token.ofRun (takeDigitRun (c :: cs)).1 :: L.tokens (takeDigitRun (c :: cs)).2
    else Token.ofLower (L.toLowercase c) :: L.tokens cs
  termination_by cs => cs.length
  decreasing_by
    · exact length_takeDigitRun_lt ‹_›
    · exact Nat.lt_succ_self _

end Lowering

variable {L : Lowering} {c d : Char} {cs ds s : List Char}

theorem isDigit_iff : c.isDigit = true ↔ 48 ≤ c.toNat ∧ c.toNat ≤ 57 := by
  rw [Char.isDigit, Bool.and_eq_true, decide_eq_true_eq, decide_eq_true_eq, ge_iff_le,
    UInt32.le_iff_toNat_le, UInt32.le_iff_toNat_le]
  rfl

theorem Token.cmp_ofRun (ds es : List Char) :
    Token.cmp (.ofRun ds) (.ofRun es) = digitsCmp ds es := by
  have hzero : seqCmp ['0'] ['0'] = .eq := ReflCmp.compare_self
  simp only [Token.cmp, compareLex, compareOn, Token.ofRun, hzero, Ordering.eq_then, digitsCmp,
    Ordering.then_assoc]

theorem Token.cmp_ofLower (s t : List Char) :
    Token.cmp (.ofLower s) (.ofLower t) = seqCmp s t := by
  have hnil : seqCmp [] [] = .eq := rfl
  simp only [Token.cmp, compareLex, compareOn, Token.ofLower, hnil]
  cases seqCmp s t <;> rfl

/-- A digit differs from what has no digit, and all digits do so in the same way. -/
theorem seqCmp_digit (hc : c.isDigit = true) (hs : ∀ d ∈ s, d.isDigit = false) :
    seqCmp [c] s = seqCmp ['0'] s ∧ seqCmp [c] s ≠ .eq := by
  obtain _ | ⟨d, s⟩ := s
  · exact ⟨rfl, nofun⟩
  · have hd := hs d List.mem_cons_self
    rw [isDigit_iff] at hc
    rw [← Bool.not_eq_true, isDigit_iff] at hd
    have hzero : ('0' : Char).toNat = 48 := rfl
    simp only [seqCmp, List.compareLex_cons_cons, charCmp, compareOn, hzero]
    rcases Nat.lt_or_ge d.toNat 48 with hlt | hge
    · have h₁ : compare c.toNat d.toNat = .gt := Nat.compare_eq_gt.mpr (by omega)
      have h₂ : compare 48 d.toNat = .gt := Nat.compare_eq_gt.mpr hlt
      simp [h₁, h₂]
    · have h₁ : compare c.toNat d.toNat = .lt := Nat.compare_eq_lt.mpr (by omega)
      have h₂ : compare 48 d.toNat = .lt := Nat.compare_eq_lt.mpr (by omega)
      simp [h₁, h₂]

theorem then_of_ne_eq {o₁ o₂ : Ordering} (h : o₁ ≠ .eq) : o₁.then o₂ = o₁ := by
  obtain _ | _ | _ := o₁
  · rfl
  · exact absurd rfl h
  · rfl

namespace Lowering

theorem tokens_cons_of_isDigit (hc : c.isDigit = true) :
    L.tokens (c :: cs) =
      Token.ofRun (takeDigitRun (c :: cs)).1 :: L.tokens (takeDigitRun (c :: cs)).2 := by
  rw [tokens, if_pos hc]

theorem tokens_cons_of_not_isDigit (hc : c.isDigit = false) :
    L.tokens (c :: cs) = Token.ofLower (L.toLowercase c) :: L.tokens cs := by
  rw [tokens, if_neg (by simp [hc])]

theorem exists_tokens_cons (L : Lowering) (c : Char) (cs : List Char) :
    ∃ t ts, L.tokens (c :: cs) = t :: ts := by
  by_cases hc : c.isDigit = true
  · exact ⟨_, _, tokens_cons_of_isDigit hc⟩
  · exact ⟨_, _, tokens_cons_of_not_isDigit (Bool.not_eq_true _ ▸ hc)⟩

theorem cmp_ofRun_ofLower (hd : d.isDigit = false) (digits : List Char) :
    Token.cmp (.ofRun digits) (.ofLower (L.toLowercase d)) = seqCmp ['0'] (L.toLowercase d) := by
  have hne := (seqCmp_digit (c := '0') rfl (L.other d hd)).2
  exact then_of_ne_eq hne

/-- **Lines are compared as lists of tokens.** -/
theorem charsCmp_eq (L : Lowering) (left right : List Char) :
    L.charsCmp left right = List.compareLex Token.cmp (L.tokens left) (L.tokens right) := by
  fun_induction L.charsCmp left right with
  | case1 => rw [tokens, List.compareLex_nil_nil]
  | case2 c cs =>
    obtain ⟨t, ts, htokens⟩ := L.exists_tokens_cons c cs
    rw [htokens, tokens, List.compareLex_nil_cons]
  | case3 c cs =>
    obtain ⟨t, ts, htokens⟩ := L.exists_tokens_cons c cs
    rw [htokens, tokens, List.compareLex_cons_nil]
  | case4 c cs d ds h run ih =>
    rw [ih, tokens_cons_of_isDigit h.1, tokens_cons_of_isDigit h.2, List.compareLex_cons_cons,
      Token.cmp_ofRun]
    rfl
  | case5 c cs d ds h ih =>
    rw [ih]
    by_cases hc : c.isDigit = true
    · have hd : d.isDigit = false := Bool.eq_false_of_not_eq_true fun hd => h ⟨hc, hd⟩
      obtain ⟨hzero, hne⟩ := seqCmp_digit hc (L.other d hd)
      rw [L.digit c hc, tokens_cons_of_isDigit hc, tokens_cons_of_not_isDigit hd,
        List.compareLex_cons_cons, cmp_ofRun_ofLower hd, ← hzero,
        then_of_ne_eq hne, then_of_ne_eq hne]
    · rw [Bool.not_eq_true] at hc
      by_cases hd : d.isDigit = true
      · obtain ⟨hzero, hne⟩ := seqCmp_digit hd (L.other c hc)
        have hne' : seqCmp (L.toLowercase c) [d] ≠ .eq := fun heq =>
          hne (OrientedCmp.eq_symm heq)
        have hswap : Token.cmp (.ofLower (L.toLowercase c))
            (.ofRun (takeDigitRun (d :: ds)).1) = seqCmp (L.toLowercase c) [d] := by
          calc Token.cmp (.ofLower (L.toLowercase c)) (.ofRun (takeDigitRun (d :: ds)).1)
              = (Token.cmp (.ofRun (takeDigitRun (d :: ds)).1)
                  (.ofLower (L.toLowercase c))).swap := OrientedCmp.eq_swap
            _ = (seqCmp [d] (L.toLowercase c)).swap := by rw [cmp_ofRun_ofLower hc, hzero]
            _ = seqCmp (L.toLowercase c) [d] := OrientedCmp.eq_swap.symm
        rw [L.digit d hd, tokens_cons_of_isDigit hd, tokens_cons_of_not_isDigit hc,
          List.compareLex_cons_cons, hswap, then_of_ne_eq hne', then_of_ne_eq hne']
      · rw [Bool.not_eq_true] at hd
        rw [tokens_cons_of_not_isDigit hc, tokens_cons_of_not_isDigit hd,
          List.compareLex_cons_cons, Token.cmp_ofLower]

end Lowering

end RustExample.FindDiff
