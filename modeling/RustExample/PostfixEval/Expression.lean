import RustExample.PostfixEval.Evaluation

/-!
# Postfix texts of expressions

The evaluator returns the value of an expression for its text, unless a number of the text begins
with a nine and has more digits: as a text such a number lies above `9`, and it is taken for an
operator. A text that is not one of an expression is only recognised if it is short.

Source: `stack_postfix_eval_example/src/main.rs`.

* A text is one of an expression if its words are: operands first, the numbers by their digits.
-/

namespace RustExample.PostfixEval

open StackMachine List

/-! ### Expressions -/

/-- The operators. -/
inductive Op
  | add
  | sub
  | mul
  | div
deriving DecidableEq, Repr

namespace Op

/-- The text of an operator. -/
def text : Op → String
  | add => "+"
  | sub => "-"
  | mul => "*"
  | div => "/"

/-- The result, if it fits in 32 bits and nothing is divided by zero. -/
def apply : Op → ℤ → ℤ → Option ℤ
  | add, a, b => checked (a + b)
  | sub, a, b => checked (a - b)
  | mul, a, b => checked (a * b)
  | div, a, b => if b = 0 then none else checked (a.tdiv b)

end Op

/-- Expressions over literals that are not negative. -/
inductive Expr
  | lit (n : Fin (2 ^ 31))
  | bin (op : Op) (l r : Expr)

/-- The token has digits only. -/
def isNumeral (token : String) : Bool := !token.toList.isEmpty && token.toList.all Char.isDigit

/-- A number of two digits or more that begins with a nine. -/
def isLongNine (token : String) : Bool :=
  isNumeral token && token.toList.head? == some '9' && decide (2 ≤ token.toList.length)

namespace Expr

/-- The value, if no operation overflows or divides by zero. -/
def eval : Expr → Option ℤ
  | lit n => some n.val
  | bin op l r => l.eval.bind fun a => r.eval.bind fun b => op.apply a b

/-- The expression has an operator. -/
def HasOperator : Expr → Prop
  | lit _ => False
  | bin _ _ _ => True

/-- Tokens of the expression in postfix order. -/
def Spells : Expr → List String → Prop
  | lit n, tokens => ∃ token, tokens = [token] ∧ isNumeral token = true ∧
      Nat.ofDigitChars 10 token.toList 0 = n.val
  | bin op l r, tokens => ∃ tokens₁ tokens₂, tokens = tokens₁ ++ tokens₂ ++ [op.text] ∧
      l.Spells tokens₁ ∧ r.Spells tokens₂

/-- A postfix text of the expression. -/
def IsText (e : Expr) (text : String) : Prop := e.Spells (splitWhitespace text)

/-- The tokens with the literals in decimal. -/
def tokens : Expr → List String
  | lit n => [n.val.repr]
  | bin op l r => l.tokens ++ r.tokens ++ [op.text]

/-- The tokens with single blanks. -/
def text (e : Expr) : String := String.ofList ([' '].intercalate (e.tokens.map String.toList))

end Expr

/-- A postfix text of an expression with at least one operator. -/
def IsPostfixText (text : String) : Prop := ∃ e : Expr, e.HasOperator ∧ e.IsText text

/-- The value of an expression is returned for its texts, and nothing for any other text. -/
structure Evaluates (text : String) : Prop where
  value : ∀ (e : Expr) (v : ℤ), e.HasOperator → e.IsText text → e.eval = some v →
    postfixEval text = some (some v)
  rejected : ¬ IsPostfixText text → postfixEval text = some none

/-! ### Tokens -/

variable {token text : String} {tokens : List String} {e : Expr}

/-- **The numbers that are read**: all but those that begin with a nine and go on. -/
theorem isNumber_of_isNumeral (h : isNumeral token = true) :
    isNumber token = !isLongNine token := by
  have hle (s t : String) : s ≤ t ↔ ¬ t.toList < s.toList := Iff.rfl
  rw [isNumber, isLongNine, h, Bool.eq_iff_iff, Bool.and_eq_true, decide_eq_true_eq,
    decide_eq_true_eq, hle, hle]
  rw [isNumeral] at h
  cases hchars : token.toList with
  | nil => simp [hchars] at h
  | cons c cs =>
    obtain ⟨hlow, hhigh⟩ : ¬ c < '0' ∧ ¬ '9' < c := by
      simp only [hchars, isEmpty_cons, Bool.not_false, all_cons, Bool.true_and,
        Bool.and_eq_true, Char.isDigit, decide_eq_true_eq] at h
      exact ⟨Char.not_lt.mpr h.1.1, Char.not_lt.mpr h.1.2⟩
    have hzero : ¬ c :: cs < "0".toList := by
      rw [show "0".toList = ['0'] from rfl, cons_lt_cons_iff]
      rintro (hc | ⟨-, hcs⟩)
      · exact hlow hc
      · exact not_lt_nil cs hcs
    have hnine : "9".toList < c :: cs ↔ c = '9' ∧ cs ≠ [] := by
      rw [show "9".toList = ['9'] from rfl, cons_lt_cons_iff, or_iff_right hhigh, eq_comm]
      refine and_congr_right fun _ => ?_
      cases cs with
      | nil => simp
      | cons d ds => simp
    rw [and_iff_right hzero, hnine]
    cases cs with
    | nil => simp
    | cons d ds => simp

/-- An operator is not taken for a number, and it is none. -/
theorem isNumber_text (op : Op) : isNumber op.text = false ∧ isNumeral op.text = false := by
  cases op <;> decide

theorem parseI32_of_isNumeral (h : isNumeral token = true) {n : Fin (2 ^ 31)}
    (hn : Nat.ofDigitChars 10 token.toList 0 = n.val) : parseI32 token = some (n.val : ℤ) := by
  rw [isNumeral, Bool.and_eq_true] at h
  have hparse : parseDigits token.toList = some n.val := by
    rw [parseDigits, if_pos ⟨by simpa using h.1, h.2⟩, hn]
  have hchecked : checked (n.val : ℤ) = some (n.val : ℤ) := by
    have hlt := n.isLt
    rw [checked, if_pos (by omega)]
  rw [parseI32]
  split
  next digits hsign => simp [hsign, Char.isDigit] at h
  next digits hsign => simp [hsign, Char.isDigit] at h
  next => rw [hparse, Option.bind_some, hchecked]

theorem doCalc_text (op : Op) : doCalc op.text = op.apply := by
  funext a b
  cases op <;> rfl

/-! ### The tokens of an expression -/

/-- **The tokens of an expression** compute its value, if its numbers are read. -/
theorem computes_of_spells (h : e.Spells tokens)
    (hread : ∀ token ∈ tokens, isNumeral token = true → isNumber token = true) :
    Computes (tokens.map instr) e.eval := by
  induction e generalizing tokens with
  | lit n =>
    obtain ⟨token, rfl, hnumeral, hn⟩ := h
    have hnumber := hread token mem_cons_self hnumeral
    rw [map_singleton, instr, if_pos hnumber, parseI32_of_isNumeral hnumeral hn]
    exact .push _
  | bin op l r ihl ihr =>
    obtain ⟨tokens₁, tokens₂, rfl, hl, hr⟩ := h
    have hl := ihl hl fun t ht => hread t (by simp [ht])
    have hr := ihr hr fun t ht => hread t (by simp [ht])
    have hop : instr op.text = .binary op.apply := by
      rw [instr, (isNumber_text op).1, doCalc_text]
      rfl
    rw [map_append, map_append, map_singleton, hop]
    exact hl.binary hr op.apply

theorem length_of_spells (h : e.Spells tokens) :
    tokens.length + 1 = 2 * tokens.countP isNumeral := by
  induction e generalizing tokens with
  | lit n =>
    obtain ⟨token, rfl, hnumeral, -⟩ := h
    simp [hnumeral]
  | bin op l r ihl ihr =>
    obtain ⟨tokens₁, tokens₂, rfl, hl, hr⟩ := h
    have hl := ihl hl
    have hr := ihr hr
    simp only [length_append, countP_append, length_singleton,
      countP_singleton, (isNumber_text op).2]
    simp only [Bool.false_eq_true, if_false]
    omega

/-- The numbers that the evaluator finds in an expression are numbers. -/
theorem isNumeral_of_isNumber (h : e.Spells tokens) :
    ∀ token ∈ tokens, isNumber token = true → isNumeral token = true := by
  induction e generalizing tokens with
  | lit n =>
    obtain ⟨token, rfl, hnumeral, -⟩ := h
    intro t ht _
    exact List.mem_singleton.mp ht ▸ hnumeral
  | bin op l r ihl ihr =>
    obtain ⟨tokens₁, tokens₂, rfl, hl, hr⟩ := h
    intro t ht hnumber
    rcases List.mem_append.mp ht with ht | ht
    · rcases List.mem_append.mp ht with ht | ht
      · exact ihl hl t ht hnumber
      · exact ihr hr t ht hnumber
    · rw [List.mem_singleton.mp ht, (isNumber_text op).1] at hnumber
      cases hnumber

theorem countP_isPush (tokens : List String) :
    (tokens.map instr).countP Instr.isPush = tokens.countP isNumber ∧
      (tokens.map instr).countP Instr.isBinary + tokens.countP isNumber = tokens.length := by
  induction tokens with
  | nil => exact ⟨rfl, rfl⟩
  | cons token tokens ih =>
    rw [map_cons, countP_cons, countP_cons, countP_cons, length_cons,
      ih.1, ← ih.2, instr]
    cases isNumber token with
    | false => exact ⟨rfl, by simp [Instr.isBinary]; omega⟩
    | true => exact ⟨rfl, by simp [Instr.isBinary]; omega⟩

/-- **A number that is misread** leaves an operator without operands: the evaluator panics. -/
theorem exec_eq_none_of_misread (h : e.Spells tokens) {token : String} (hmem : token ∈ tokens)
    (hnumeral : isNumeral token = true) (hmisread : isNumber token = false) :
    exec (tokens.map instr) [] = none := by
  have hlength := length_of_spells h
  obtain ⟨hpush, hbinary⟩ := countP_isPush tokens
  have hfewer : tokens.countP isNumber < tokens.countP isNumeral := by
    obtain ⟨before, after, rfl⟩ := append_of_mem hmem
    have hsome := isNumeral_of_isNumber h
    have hbefore := countP_mono_left fun t ht => hsome t (mem_append_left _ ht)
    have hafter := countP_mono_left fun t ht =>
      hsome t (mem_append_right _ (mem_cons_of_mem _ ht))
    rw [countP_append, countP_append, countP_cons_of_pos hnumeral,
      countP_cons_of_neg (by simp [hmisread])]
    omega
  refine exec_eq_none ?_
  rw [hpush, length_nil]
  omega

/-! ### Texts -/

theorem isUnicodeWhitespace_of_isDigit {c : Char} (h : c.isDigit = true) :
    isUnicodeWhitespace c = false := by
  rw [Char.isDigit, Bool.and_eq_true, decide_eq_true_eq, decide_eq_true_eq] at h
  have hlow : 48 ≤ c.toNat := h.1
  have hhigh : c.toNat ≤ 57 := h.2
  simp only [isUnicodeWhitespace, Bool.or_eq_false_iff, Bool.and_eq_false_iff,
    decide_eq_false_iff_not]
  omega

theorem Expr.spells_tokens (e : Expr) : e.Spells e.tokens := by
  induction e with
  | lit n =>
    refine ⟨_, rfl, ?_, ?_⟩
    · have hdigits : (Nat.toDigits 10 n.val).all Char.isDigit = true :=
        List.all_eq_true.mpr fun c => Nat.isDigit_of_mem_toDigits (by decide) (by decide)
      simp [isNumeral, Nat.toList_repr, hdigits]
    · rw [Nat.toList_repr, Nat.ofDigitChars_ten_toDigits]
  | bin op l r ihl ihr => exact ⟨_, _, rfl, ihl, ihr⟩

theorem Expr.isWord_of_mem_tokens (e : Expr) : ∀ token ∈ e.tokens,
    token.toList ≠ [] ∧ ∀ c ∈ token.toList, isUnicodeWhitespace c = false := by
  induction e with
  | lit n =>
    intro token hmem
    rw [List.mem_singleton.mp hmem, Nat.toList_repr]
    refine ⟨Nat.toDigits_ne_nil, fun c hc => ?_⟩
    exact isUnicodeWhitespace_of_isDigit (Nat.isDigit_of_mem_toDigits (by decide) (by decide) hc)
  | bin op l r ihl ihr =>
    intro token hmem
    rcases List.mem_append.mp hmem with hmem | hmem
    · rcases List.mem_append.mp hmem with hmem | hmem
      · exact ihl token hmem
      · exact ihr token hmem
    · rw [List.mem_singleton.mp hmem]
      have hword : op.text.toList ≠ [] ∧ op.text.toList.all (!isUnicodeWhitespace ·) = true := by
        cases op <;> exact ⟨cons_ne_nil _ _, rfl⟩
      simpa using hword

/-- **The text with single spaces** is one of the texts of an expression. -/
theorem Expr.isText_text (e : Expr) : e.IsText e.text := by
  have hwords : splitWhitespace e.text = e.tokens := by
    rw [splitWhitespace, Expr.text, String.toList_ofList, words_intercalate (by decide)]
    · simp
    · intro word hword
      obtain ⟨token, hmem, rfl⟩ := List.mem_map.mp hword
      exact e.isWord_of_mem_tokens token hmem
  rw [Expr.IsText, hwords]
  exact e.spells_tokens

/-- A text of an expression with an operator has five bytes. -/
theorem five_le_of_isText (hop : e.HasOperator) (h : e.IsText text) : 5 ≤ text.utf8ByteSize := by
  have hwords := length_words isUnicodeWhitespace text.toList
  have hbytes := length_le_utf8ByteSize text
  have htokens : 3 ≤ (splitWhitespace text).length := by
    match e, hop, h with
    | .bin op l r, _, ⟨tokens₁, tokens₂, htext, hl, hr⟩ =>
      have hl := length_of_spells hl
      have hr := length_of_spells hr
      rw [htext, length_append, length_append, length_singleton]
      omega
  rw [splitWhitespace, length_map] at htokens
  omega

/-- **The value is returned** for the texts of an expression whose numbers are read. -/
theorem postfixEval_of_isText (hop : e.HasOperator) (h : e.IsText text)
    (hread : ∀ token ∈ splitWhitespace text, isLongNine token = false) :
    postfixEval text = e.eval.map some := by
  have hcomputes : Computes ((splitWhitespace text).map instr) e.eval := by
    refine computes_of_spells h fun token hmem hnumeral => ?_
    rw [isNumber_of_isNumeral hnumeral, hread token hmem]
    rfl
  rw [postfixEval_eq (five_le_of_isText hop h), hcomputes []]
  cases e.eval <;> rfl

/-- **A number that begins with a nine and goes on** ends in a panic. -/
theorem postfixEval_of_isLongNine (hop : e.HasOperator) (h : e.IsText text)
    (hmem : token ∈ splitWhitespace text) (hnine : isLongNine token = true) :
    postfixEval text = none := by
  have hnumeral : isNumeral token = true := by
    simp only [isLongNine, Bool.and_eq_true] at hnine
    exact hnine.1.1
  have hmisread : isNumber token = false := by
    rw [isNumber_of_isNumeral hnumeral, hnine]
    rfl
  rw [postfixEval_eq (five_le_of_isText hop h), exec_eq_none_of_misread h hmem hnumeral hmisread]
  rfl

/-- **The evaluator does what it is to do** exactly if no number begins with a nine and goes on,
where the text has a value, and it has fewer than five bytes, where it is no text of an
expression. -/
theorem evaluates_iff (text : String) : Evaluates text ↔
    ((∃ (e : Expr) (v : ℤ), e.HasOperator ∧ e.IsText text ∧ e.eval = some v) →
      ∀ token ∈ splitWhitespace text, isLongNine token = false) ∧
    (¬ IsPostfixText text → text.utf8ByteSize < 5) := by
  constructor
  · rintro ⟨hvalue, hrejected⟩
    constructor
    · rintro ⟨e, v, hop, htext, hv⟩ token hmem
      by_contra hnine
      have hpanic := postfixEval_of_isLongNine hop htext hmem (by simpa using hnine)
      simp [hpanic] at hvalue
      exact hvalue e v hop htext hv
    · intro hnot
      by_contra hlong
      have hreturned := hrejected hnot
      rw [postfixEval_eq (Nat.le_of_not_lt hlong)] at hreturned
      obtain ⟨stack, -, hhead⟩ := Option.bind_eq_some_iff.mp hreturned
      obtain ⟨v, -, hv⟩ := Option.map_eq_some_iff.mp hhead
      cases hv
  · rintro ⟨hread, hshort⟩
    constructor
    · intro e v hop htext hv
      rw [postfixEval_of_isText hop htext (hread ⟨e, v, hop, htext, hv⟩), hv]
      rfl
    · intro hnot
      rw [postfixEval, if_pos (hshort hnot)]

/-- The sum of 90 and 1 ends in a panic, and a text with three numbers is not rejected. -/
theorem not_evaluates_ninety : ¬ Evaluates "90 1 +" ∧ ¬ Evaluates "1 2 3" := by
  constructor
  · intro h
    have hpanic : postfixEval "90 1 +" = none := by decide
    have htext : (Expr.bin .add (.lit 90) (.lit 1)).IsText "90 1 +" :=
      ⟨["90"], ["1"], by decide, ⟨"90", rfl, by decide, by decide⟩,
        ⟨"1", rfl, by decide, by decide⟩⟩
    have hop : (Expr.bin .add (.lit 90) (.lit 1)).HasOperator := trivial
    have hvalue := h.value _ 91 hop htext (by decide)
    rw [hpanic] at hvalue
    cases hvalue
  · intro h
    have hreturned : postfixEval "1 2 3" = some (some 3) := by decide
    have hnot : ¬ IsPostfixText "1 2 3" := by
      rintro ⟨e, -, htext⟩
      have hlength := length_of_spells htext
      rw [show splitWhitespace "1 2 3" = ["1", "2", "3"] by decide] at hlength
      exact absurd hlength (by decide)
    have hrejected := h.rejected hnot
    rw [hreturned] at hrejected
    cases hrejected

end RustExample.PostfixEval
