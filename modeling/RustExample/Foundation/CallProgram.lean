import RustExample.Foundation.Fence

/-!
# Programs of calls

A program that makes calls and goes on with their answers, whatever they are. Such programs compose
as a monad. What a program may call, and what it may end with, depends on the calls that it has made
and on their answers; a program follows a policy if it does so whatever it is answered.
-/

namespace RustExample

variable {Op : Type} {Res : Op → Type} {α β : Type}

/-- A program makes calls, whose answers it awaits. -/
inductive CallProgram (Op : Type) (Res : Op → Type) (α : Type) where
  | done (a : α)
  | call (op : Op) (k : Res op → CallProgram Op Res α)

namespace CallProgram

/-- Goes on with the result. -/
def bind : CallProgram Op Res α → (α → CallProgram Op Res β) → CallProgram Op Res β
  | .done a, f => f a
  | .call op k, f => .call op fun res => (k res).bind f

instance : Monad (CallProgram Op Res) where
  pure := .done
  bind := bind

/-- A single call. -/
def perform (op : Op) : CallProgram Op Res (Res op) := .call op .done

variable {allowed : CallLog Op Res → Op → Prop} {post : CallLog Op Res → α → Prop}

/-- A program that made the calls `log` makes allowed calls only and ends as `post` has it. -/
def Follows (allowed : CallLog Op Res → Op → Prop) (post : CallLog Op Res → α → Prop)
    (log : CallLog Op Res) : CallProgram Op Res α → Prop
  | .done a => post log a
  | .call op k => allowed log op ∧ ∀ res, Follows allowed post (log ++ [⟨op, res⟩]) (k res)

variable {log : CallLog Op Res}

theorem follows_pure {a : α} (h : post log a) :
    (pure a : CallProgram Op Res α).Follows allowed post log :=
  h

theorem follows_perform {op : Op} {f : Res op → CallProgram Op Res β}
    {post : CallLog Op Res → β → Prop} (hallowed : allowed log op)
    (h : ∀ res, (f res).Follows allowed post (log ++ [⟨op, res⟩])) :
    (perform op >>= f).Follows allowed post log :=
  ⟨hallowed, h⟩

theorem Follows.imp {post' : CallLog Op Res → α → Prop} {p : CallProgram Op Res α}
    (h : p.Follows allowed post log) (hpost : ∀ log a, post log a → post' log a) :
    p.Follows allowed post' log := by
  induction p generalizing log with
  | done a => exact hpost log a h
  | call op k ih => exact ⟨h.1, fun res => ih res (h.2 res)⟩

/-- **Programs in sequence.** -/
theorem Follows.bind {p : CallProgram Op Res α} {f : α → CallProgram Op Res β}
    {post' : CallLog Op Res → β → Prop} (h : p.Follows allowed post log)
    (hf : ∀ log' a, post log' a → (f a).Follows allowed post' log') :
    (p >>= f).Follows allowed post' log := by
  induction p generalizing log with
  | done a => exact hf log a h
  | call op k ih => exact ⟨h.1, fun res => ih res (h.2 res)⟩

theorem Follows.extends {p : CallProgram Op Res α} (h : p.Follows allowed post log) :
    p.Follows allowed (fun log' a => log ⊆ log' ∧ post log' a) log := by
  suffices hgen : ∀ log₀ ⊆ log, p.Follows allowed (fun log' a => log₀ ⊆ log' ∧ post log' a) log from
    hgen log (List.Subset.refl log)
  intro log₀ hsub
  induction p generalizing log with
  | done a => exact ⟨hsub, h⟩
  | call op k ih => exact ⟨h.1, fun res => ih res (h.2 res) fun c hc =>
      List.mem_append_left _ (hsub hc)⟩

end CallProgram

end RustExample
