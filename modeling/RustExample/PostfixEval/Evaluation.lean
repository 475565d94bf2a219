import Mathlib.Algebra.Group.Int.Defs
import Mathlib.Data.List.Induction
import RustExample.Foundation.StackMachine
import RustExample.Foundation.Words

/-!
# The postfix evaluator

The tokens of a text are read one after the other. A number is pushed; any other token is an
operator on the two topmost numbers. A token is a number if it lies between the texts `0` and `9`.

Source: `stack_postfix_eval_example/src/main.rs`, `stack_postfix_eval_example/src/stack.rs`.

* A panic is `none`; arithmetic that overflows panics.
* The end of a vector is its top. `peek`, `is_empty` and `size` of a stack are not used.
* What is printed is left out.
-/

namespace RustExample.PostfixEval

open StackMachine

/-! ### Stacks -/

/-- A stack; `top` counts its values. -/
structure Stack (α : Type) where
  top : ℕ
  data : List α
  top_eq : top = data.length

namespace Stack

variable {α : Type}

/-- A stack without values. -/
def new : Stack α := ⟨0, [], rfl⟩

/-- Puts a value on the top. -/
def push (s : Stack α) (val : α) : Stack α :=
  ⟨s.top + 1, s.data ++ [val], by simp [s.top_eq]⟩

/-- Takes the value from the top. -/
def pop (s : Stack α) : Option (α × Stack α) :=
  if s.top = 0 then none
  else s.data.getLast?.map fun val => (val, ⟨s.top - 1, s.data.dropLast, by simp [s.top_eq]⟩)

/-- The values, the top first. -/
def toList (s : Stack α) : List α := s.data.reverse

@[simp] theorem toList_new : (new : Stack α).toList = [] := rfl

@[simp] theorem toList_push (s : Stack α) (val : α) : (s.push val).toList = val :: s.toList := by
  simp [push, toList]

theorem pop_of_nil {s : Stack α} (h : s.toList = []) : s.pop = none := by
  obtain ⟨top, data, rfl⟩ := s
  obtain rfl : data = [] := List.reverse_eq_nil_iff.mp h
  rfl

/-- **Popping** takes the top. -/
theorem pop_of_cons {s : Stack α} {val : α} {vals : List α} (h : s.toList = val :: vals) :
    ∃ s' : Stack α, s.pop = some (val, s') ∧ s'.toList = vals := by
  obtain ⟨top, data, rfl⟩ := s
  obtain rfl : data = vals.reverse ++ [val] := by
    rw [← List.reverse_cons, ← h, toList, List.reverse_reverse]
  exact ⟨_, by simp [pop]; rfl, by simp [toList]⟩

end Stack

/-! ### Numbers -/

/-- An arithmetic result that fits in 32 bits. -/
def checked (n : ℤ) : Option ℤ := if -2 ^ 31 ≤ n ∧ n < 2 ^ 31 then some n else none

/-- The number of some digits. -/
def parseDigits (digits : List Char) : Option ℕ :=
  if digits ≠ [] ∧ digits.all Char.isDigit then some (Nat.ofDigitChars 10 digits 0) else none

/-- `parse::<i32>` -/
def parseI32 (token : String) : Option ℤ :=
  match token.toList with
  | '-' :: digits => (parseDigits digits).bind fun n => checked (-n)
  | '+' :: digits => (parseDigits digits).bind fun n => checked n
  | digits => (parseDigits digits).bind fun n => checked n

/-- The result of an operator. -/
def doCalc (op : String) (op1 op2 : ℤ) : Option ℤ :=
  if op = "+" then checked (op1 + op2)
  else if op = "-" then checked (op1 - op2)
  else if op = "*" then checked (op1 * op2)
  else if op2 = 0 then none
  else checked (op1.tdiv op2)

/-! ### The evaluator -/

/-- `split_whitespace` -/
def splitWhitespace (s : String) : List String :=
  (words isUnicodeWhitespace s.toList).map String.ofList

/-- The token is taken for a number. -/
def isNumber (token : String) : Bool := "0" ≤ token && token ≤ "9"

/-- Takes a number or an operator. -/
def evalToken (opStack : Stack ℤ) (token : String) : Option (Stack ℤ) :=
  if isNumber token then (parseI32 token).map opStack.push
  else do
    let (op2, opStack) ← opStack.pop
    let (op1, opStack) ← opStack.pop
    let res ← doCalc token op1 op2
    return opStack.push res

/-- The value of a text. -/
def postfixEval (text : String) : Option (Option ℤ) :=
  if text.utf8ByteSize < 5 then some none
  else do
    let opStack ← (splitWhitespace text).foldlM evalToken .new
    let (val, _) ← opStack.pop
    return some val

/-! ### The machine -/

/-- The instruction of a token. -/
def instr (token : String) : Instr ℤ :=
  if isNumber token then .push (parseI32 token) else .binary (doCalc token)

/-- **One token** is an instruction of a stack machine. -/
theorem evalToken_toList (opStack : Stack ℤ) (token : String) :
    (evalToken opStack token).map Stack.toList = step opStack.toList (instr token) := by
  rw [evalToken, instr]
  split_ifs
  · simp only [step, Option.map_map]
    exact congrArg (Option.map · (parseI32 token)) (funext fun v => opStack.toList_push v)
  · rcases hstack : opStack.toList with _ | ⟨b, _ | ⟨a, stack⟩⟩
    · rw [Stack.pop_of_nil hstack]
      rfl
    · obtain ⟨opStack₁, hpop₁, hstack₁⟩ := Stack.pop_of_cons hstack
      simp only [hpop₁, Option.bind_eq_bind, Option.bind_some, Stack.pop_of_nil hstack₁]
      rfl
    · obtain ⟨opStack₁, hpop₁, hstack₁⟩ := Stack.pop_of_cons hstack
      obtain ⟨opStack₂, hpop₂, rfl⟩ := Stack.pop_of_cons hstack₁
      simp only [hpop₁, hpop₂, Option.bind_eq_bind, Option.bind_some, step]
      cases doCalc token a b with
      | none => rfl
      | some res => exact congrArg some (opStack₂.toList_push res)

/-- **The loop** runs a stack machine. -/
theorem foldlM_evalToken (tokens : List String) (opStack : Stack ℤ) :
    (tokens.foldlM evalToken opStack).map Stack.toList =
      exec (tokens.map instr) opStack.toList := by
  induction tokens generalizing opStack with
  | nil => rfl
  | cons token tokens ih =>
    rw [List.foldlM_cons, List.map_cons, exec_cons, ← evalToken_toList]
    cases hstep : evalToken opStack token with
    | none => rfl
    | some opStack' => exact ih opStack'

/-- **What is returned** is the top of the stack that the tokens leave. -/
theorem postfixEval_eq {text : String} (h : 5 ≤ text.utf8ByteSize) :
    postfixEval text =
      (exec ((splitWhitespace text).map instr) []).bind fun stack => stack.head?.map some := by
  have hloop := foldlM_evalToken (splitWhitespace text) .new
  rw [Stack.toList_new] at hloop
  rw [postfixEval, if_neg (Nat.not_lt.mpr h), ← hloop]
  cases (splitWhitespace text).foldlM evalToken .new with
  | none => rfl
  | some opStack =>
    simp only [Option.bind_eq_bind, Option.bind_some, Option.map_some]
    match hstack : opStack.toList with
    | [] =>
      rw [Stack.pop_of_nil hstack]
      rfl
    | val :: stack =>
      obtain ⟨opStack', hpop, -⟩ := Stack.pop_of_cons hstack
      rw [hpop]
      rfl

end RustExample.PostfixEval
