import Mathlib.Data.List.Perm.Basic
import Mathlib.Order.Lattice

/-!
# Combining the items of a list in any order

A parallel reduction combines its items two at a time, in an order that it chooses. An operation
that keeps the one of two items that ranks higher gives an item of the highest rank, whatever the
order; if no two items are of one rank, it gives the same item in every order.
-/

namespace RustExample

variable {α K : Type*}

/-- One way to combine items, two at a time. -/
inductive Combination (α : Type*) where
  | item (a : α)
  | combine (left right : Combination α)

namespace Combination

/-- The items that are combined, from the left to the right. -/
def items : Combination α → List α
  | item a => [a]
  | combine left right => left.items ++ right.items

/-- What the items give under an operation. -/
def reduce (op : α → α → α) : Combination α → α
  | item a => a
  | combine left right => op (left.reduce op) (right.reduce op)

/-- The combination of a list that takes the items one after the other. -/
def ofList (a : α) (l : List α) : Combination α :=
  l.foldl (fun c b => combine c (item b)) (item a)

theorem foldl_combine (op : α → α → α) (c : Combination α) (l : List α) :
    (l.foldl (fun c b => combine c (item b)) c).items = c.items ++ l ∧
      (l.foldl (fun c b => combine c (item b)) c).reduce op = l.foldl op (c.reduce op) := by
  induction l generalizing c with
  | nil => simp
  | cons b l ih => simpa [items, reduce] using ih (combine c (item b))

@[simp] theorem items_ofList (a : α) (l : List α) : (ofList a l).items = a :: l :=
  (foldl_combine (fun b _ => b) (item a) l).1

@[simp] theorem reduce_ofList (op : α → α → α) (a : α) (l : List α) :
    (ofList a l).reduce op = l.foldl op a :=
  (foldl_combine op (item a) l).2

theorem items_ne_nil (c : Combination α) : c.items ≠ [] := by
  induction c with
  | item a => exact List.cons_ne_nil a []
  | combine left right ih _ => exact List.append_ne_nil_of_left_ne_nil ih _

end Combination

/-! ### Keeping the greater -/

variable [LinearOrder K]

/-- An operation that gives the one of its arguments that ranks higher. -/
def KeepsGreater (rank : α → K) (op : α → α → α) : Prop :=
  ∀ a b, (op a b = a ∧ rank b ≤ rank a) ∨ (op a b = b ∧ rank a ≤ rank b)

variable {rank : α → K} {op : α → α → α}

namespace Combination

/-- **The outcome ranks highest.** -/
theorem reduce_greatest (hop : KeepsGreater rank op) (c : Combination α) :
    c.reduce op ∈ c.items ∧ ∀ a ∈ c.items, rank a ≤ rank (c.reduce op) := by
  induction c with
  | item a => simp [items, reduce]
  | combine left right ihl ihr =>
    simp only [items, reduce, List.mem_append]
    rcases hop (left.reduce op) (right.reduce op) with ⟨heq, hle⟩ | ⟨heq, hle⟩ <;> rw [heq]
    · exact ⟨.inl ihl.1, fun a ha => ha.elim (ihl.2 a) fun h => le_trans (ihr.2 a h) hle⟩
    · exact ⟨.inr ihr.1, fun a ha => ha.elim (fun h => le_trans (ihl.2 a h) hle) (ihr.2 a)⟩

/-- **The order does not matter**, if no two items rank the same. -/
theorem reduce_eq_of_perm (hop : KeepsGreater rank op) {c d : Combination α}
    (hperm : c.items.Perm d.items)
    (hrank : ∀ a ∈ c.items, ∀ b ∈ c.items, rank a = rank b → a = b) :
    c.reduce op = d.reduce op := by
  obtain ⟨hc, hcmax⟩ := reduce_greatest hop c
  obtain ⟨hd, hdmax⟩ := reduce_greatest hop d
  have hdc := hperm.mem_iff.mpr hd
  exact hrank _ hc _ hdc (le_antisymm (hdmax _ (hperm.mem_iff.mp hc)) (hcmax _ hdc))

end Combination

end RustExample
