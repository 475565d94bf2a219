import Mathlib.Data.List.Basic

/-!
# A stack machine

Code is a list of instructions: one pushes a value, another replaces the two topmost values by the
value of an operator. Each may fail, and an operator fails on a stack with fewer than two values.
The code of an expression is that of its operands followed by its operator.
-/

namespace RustExample.StackMachine

variable {α : Type*}

/-- An instruction of the machine. -/
inductive Instr (α : Type*)
  | push (v : Option α)
  | binary (f : α → α → Option α)

namespace Instr

/-- The instruction pushes. -/
def isPush : Instr α → Bool
  | push _ => true
  | binary _ => false

/-- The instruction is an operator. -/
def isBinary : Instr α → Bool
  | push _ => false
  | binary _ => true

end Instr

/-- One instruction; the head of a stack is its top. -/
def step : List α → Instr α → Option (List α)
  | stack, .push v => v.map (· :: stack)
  | b :: a :: stack, .binary f => (f a b).map (· :: stack)
  | _, .binary _ => none

/-- Performs the code. -/
def exec (code : List (Instr α)) (stack : List α) : Option (List α) := code.foldlM step stack

theorem exec_cons (i : Instr α) (code : List (Instr α)) (stack : List α) :
    exec (i :: code) stack = (step stack i).bind (exec code) := rfl

theorem exec_append (code code' : List (Instr α)) (stack : List α) :
    exec (code ++ code') stack = (exec code stack).bind (exec code') :=
  List.foldlM_append

/-! ### Expressions -/

/-- Code that pushes a value on any stack, or fails on any stack. -/
def Computes (code : List (Instr α)) (v : Option α) : Prop :=
  ∀ stack, exec code stack = v.map (· :: stack)

theorem Computes.push (v : Option α) : Computes [.push v] v := by
  intro stack
  rw [exec_cons, step]
  cases v <;> rfl

variable {code : List (Instr α)}

/-- **The code of an expression**: its operands, and then its operator. -/
theorem Computes.binary {code' : List (Instr α)} {v v' : Option α} (h : Computes code v)
    (h' : Computes code' v') (f : α → α → Option α) :
    Computes (code ++ code' ++ [.binary f]) (v.bind fun a => v'.bind fun b => f a b) := by
  intro stack
  rw [exec_append, exec_append, h]
  cases v with
  | none => rfl
  | some a =>
    rw [Option.map_some, Option.bind_some, h']
    cases v' with
    | none => rfl
    | some b =>
      simp only [Option.map_some, Option.bind_some, exec_cons, step]
      cases f a b <;> rfl

/-! ### The height of the stack -/

theorem length_of_step {stack stack' : List α} {i : Instr α} (h : step stack i = some stack') :
    stack'.length + [i].countP Instr.isBinary = stack.length + [i].countP Instr.isPush := by
  cases i with
  | push v =>
    obtain ⟨a, -, rfl⟩ := Option.map_eq_some_iff.mp h
    simp [Instr.isBinary, Instr.isPush]
  | binary f =>
    match stack, h with
    | b :: a :: stack, h =>
      obtain ⟨c, -, rfl⟩ := Option.map_eq_some_iff.mp h
      simp [Instr.isBinary, Instr.isPush]

/-- **A run** leaves one value more for each push, and one less for each operator. -/
theorem length_of_exec {stack stack' : List α} (h : exec code stack = some stack') :
    stack'.length + code.countP Instr.isBinary = stack.length + code.countP Instr.isPush := by
  induction code generalizing stack with
  | nil =>
    obtain ⟨⟩ := h
    rfl
  | cons i code ih =>
    rw [exec_cons] at h
    obtain ⟨stack₁, hstep, hexec⟩ := Option.bind_eq_some_iff.mp h
    have hone := length_of_step hstep
    have hrest := ih hexec
    rw [← List.singleton_append, List.countP_append, List.countP_append]
    omega

theorem exec_eq_none {stack : List α}
    (h : stack.length + code.countP Instr.isPush < code.countP Instr.isBinary) :
    exec code stack = none := by
  cases hexec : exec code stack with
  | none => rfl
  | some stack' =>
    have hlength := length_of_exec hexec
    omega

end RustExample.StackMachine
