import RustExample.Foundation.Loops

/-!
# A vector as a linked chain

The nodes of a vector are linked from the head on, and the vector keeps their number apart. Its
operations go a number of nodes on from the head and change the links there.

Source: `lvec_example/src/main.rs`.

* A failed `unwrap`, and a difference of unsigned numbers below zero, is `none`.
* Lengths and positions are natural numbers.
-/

namespace RustExample.LinkedVector

open List

variable {T : Type}

/-- A node and those after it. -/
structure Node (T : Type) where
  elem : T
  next : Option (Node T)

/-- A vector as linked nodes. -/
structure LVec (T : Type) where
  size : ℕ
  head : Option (Node T)

namespace Node

/-- A node without another one. -/
def new (elem : T) : Node T := ⟨elem, none⟩

/-- Go `steps` nodes on, and change what is linked; `change` also gives what was found. -/
def advance {β : Type} (change : Node T → Option (Node T × β)) : ℕ → Node T → Option (Node T × β)
  | 0, curr => change curr
  | steps + 1, curr => do
    let next ← curr.next
    let (next, found) ← advance change steps next
    some ({ curr with next := some next }, found)

/-- The elements from a node on. -/
def toList : Node T → List T
  | ⟨elem, none⟩ => [elem]
  | ⟨elem, some next⟩ => elem :: next.toList

end Node

/-- The elements of the chain that a link leads to. -/
def elems : Option (Node T) → List T
  | none => []
  | some node => node.toList

namespace LVec

/-- A vector without elements. -/
def new : LVec T := ⟨0, none⟩

/-- Removes all elements. -/
def clear (_ : LVec T) : LVec T := ⟨0, none⟩

/-- The noted length. -/
def len (v : LVec T) : ℕ := v.size

/-- The length is zero. -/
def isEmpty (v : LVec T) : Bool := 0 == v.size

/-- Adds at the end. -/
def push (v : LVec T) (elem : T) : Option (LVec T) :=
  let node := Node.new elem
  if v.isEmpty then some ⟨v.size + 1, some node⟩
  else do
    let link (curr : Node T) : Option (Node T × Unit) := some ({ curr with next := some node }, ())
    let (head, _) ← (← v.head).advance link (← checkedSub v.size 1)
    some ⟨v.size + 1, some head⟩

/-- Push the elements of a chain, one node after the other. -/
def pushChain : Node T → LVec T → Option (LVec T)
  | ⟨elem, none⟩, v => v.push elem
  | ⟨elem, some next⟩, v => do pushChain next (← v.push elem)

/-- Moves all of `other` to the end. -/
def append (v other : LVec T) : Option (LVec T × LVec T) :=
  match other.head with
  | none => some (v, other.clear)
  | some node => do some (← pushChain node v, other.clear)

/-- Inserts at an index. -/
def insert (v : LVec T) (index : ℕ) (elem : T) : Option (LVec T) :=
  let index := if v.size ≤ index then v.size else index
  let node := Node.new elem
  if v.isEmpty then some ⟨v.size + 1, some node⟩
  else if index = 0 then some ⟨v.size + 1, some { node with next := v.head }⟩
  else do
    let link (curr : Node T) : Option (Node T × Unit) :=
      some ({ curr with next := some { node with next := curr.next } }, ())
    let (head, _) ← (← v.head).advance link (← checkedSub index 1)
    some ⟨v.size + 1, some head⟩

/-- Removes at an index. -/
def remove (v : LVec T) (index : ℕ) : Option (LVec T × Option T) :=
  if v.size ≤ index then some (v, none)
  else if 0 = index then do
    let node ← v.head
    some (⟨← checkedSub v.size 1, node.next⟩, some node.elem)
  else do
    let unlink (curr : Node T) : Option (Node T × T) := do
      let node ← curr.next
      some ({ curr with next := node.next }, node.elem)
    let (head, elem) ← (← v.head).advance unlink (← checkedSub index 2)
    some (⟨← checkedSub v.size 1, some head⟩, some elem)

/-- Removes the last element. -/
def pop (v : LVec T) : Option (LVec T × Option T) := do v.remove (← checkedSub v.size 1)

/-- The vector of a list. -/
structure Holds (v : LVec T) (l : List T) : Prop where
  chain : elems v.head = l
  size : v.size = l.length

end LVec

/-! ### Chains -/

@[simp] theorem elems_none : elems (none : Option (Node T)) = [] := rfl

@[simp] theorem elems_some (node : Node T) : elems (some node) = node.elem :: elems node.next := by
  obtain ⟨elem, _ | next⟩ := node <;> rfl

theorem elems_eq_cons {link : Option (Node T)} {a : T} {l : List T} (h : elems link = a :: l) :
    ∃ node, link = some node ∧ node.elem = a ∧ elems node.next = l := by
  obtain _ | node := link
  · cases h
  · rw [elems_some] at h
    exact ⟨node, rfl, List.cons.inj h⟩

/-- **A change some nodes on.** The elements before that node stay. -/
theorem Node.exists_advance {β : Type} (change : Node T → Option (Node T × β)) {node : Node T}
    {steps : ℕ} (h : steps < (elems (some node)).length) :
    ∃ curr : Node T, elems (some curr) = (elems (some node)).drop steps ∧
      ∀ curr' found, change curr = some (curr', found) →
        ∃ node', node.advance change steps = some (node', found) ∧
          elems (some node') = (elems (some node)).take steps ++ elems (some curr') := by
  induction steps generalizing node with
  | zero => exact ⟨node, rfl, fun curr' found hrun => ⟨curr', hrun, rfl⟩⟩
  | succ steps ih =>
    obtain ⟨elem, _ | next⟩ := node
    · simp at h
    · rw [elems_some, length_cons, Nat.succ_lt_succ_iff] at h
      obtain ⟨curr, hcurr, hadvance⟩ := ih h
      refine ⟨curr, hcurr, fun curr' found hrun => ?_⟩
      obtain ⟨next', hnext, hlist⟩ := hadvance curr' found hrun
      refine ⟨⟨elem, some next'⟩, by simp [Node.advance, hnext], ?_⟩
      rw [elems_some, hlist]
      rfl

/-! ### Operations on the vector of a list -/

namespace LVec

variable {v w : LVec T} {l m : List T} {a : T} {index : ℕ}

theorem holds_new : (new : LVec T).Holds [] := ⟨rfl, rfl⟩

theorem holds_clear (v : LVec T) : v.clear.Holds [] := ⟨rfl, rfl⟩

theorem Holds.isEmpty_iff (h : v.Holds l) : v.isEmpty = true ↔ l = [] := by
  rw [isEmpty, h.size, beq_iff_eq, eq_comm, length_eq_zero_iff]

theorem Holds.exists_head (h : v.Holds l) (hne : l ≠ []) :
    ∃ node, v.head = some node ∧ elems (some node) = l := by
  obtain ⟨b, l, rfl⟩ := exists_cons_of_ne_nil hne
  obtain ⟨node, hnode, hb, hl⟩ := elems_eq_cons h.chain
  exact ⟨node, hnode, by rw [elems_some, hb, hl]⟩

theorem Holds.push (h : v.Holds l) (a : T) : ∃ v', v.push a = some v' ∧ v'.Holds (l ++ [a]) := by
  by_cases hnil : l = []
  · refine ⟨⟨v.size + 1, some (Node.new a)⟩, by rw [LVec.push, if_pos (h.isEmpty_iff.mpr hnil)], ?_⟩
    exact ⟨by simp [hnil, Node.new], by simp [h.size]⟩
  · obtain ⟨node, hhead, hlist⟩ := h.exists_head hnil
    have hpos := length_pos_of_ne_nil hnil
    have hsteps : v.size - 1 < (elems (some node)).length := by rw [hlist, h.size]; omega
    obtain ⟨curr, hcurr, hadvance⟩ := Node.exists_advance
      (fun curr => some (({ curr with next := some (Node.new a) } : Node T), ())) hsteps
    obtain ⟨head, hrun, hhead'⟩ := hadvance _ _ rfl
    refine ⟨⟨v.size + 1, some head⟩, ?_, ?_, by simp [h.size]⟩
    · rw [LVec.push, if_neg (fun he => hnil (h.isEmpty_iff.mp he))]
      rw [← h.size] at hpos
      simp [hhead, checkedSub_of_le hpos, hrun]
    · rw [elems_some, hlist, h.size] at hcurr
      have hlast : l.drop (l.length - 1) = [curr.elem] := by
        have hlen := congrArg List.length hcurr
        rw [← hcurr]
        simp only [length_cons, length_drop] at hlen
        rw [eq_nil_of_length_eq_zero (show (elems curr.next).length = 0 by omega)]
      rw [hhead', hlist, h.size]
      calc l.take (l.length - 1) ++ [curr.elem, a]
          = l.take (l.length - 1) ++ l.drop (l.length - 1) ++ [a] := by rw [hlast]; simp
        _ = l ++ [a] := by rw [take_append_drop]

theorem Holds.pushChain (h : v.Holds l) {node : Node T} (hm : elems (some node) = m) :
    ∃ v', pushChain node v = some v' ∧ v'.Holds (l ++ m) := by
  induction m generalizing node v l with
  | nil =>
    rw [elems_some] at hm
    cases hm
  | cons a m ih =>
    obtain ⟨elem, next⟩ := node
    rw [elems_some] at hm
    obtain ⟨rfl, hnext⟩ := List.cons.inj hm
    obtain ⟨v₁, hpush, h₁⟩ := h.push elem
    obtain _ | next := next
    · obtain rfl : [] = m := hnext
      exact ⟨v₁, hpush, h₁⟩
    · obtain ⟨v₂, hchain, h₂⟩ := ih h₁ hnext
      exact ⟨v₂, by simp [LVec.pushChain, hpush, hchain], by simpa using h₂⟩

theorem Holds.append (h : v.Holds l) (hw : w.Holds m) :
    ∃ v', v.append w = some (v', w.clear) ∧ v'.Holds (l ++ m) := by
  by_cases hnil : m = []
  · subst hnil
    have hhead : w.head = none := by
      cases hhead : w.head with
      | none => rfl
      | some node => simpa [hhead] using hw.chain
    exact ⟨v, by rw [LVec.append, hhead], by simpa using h⟩
  · obtain ⟨node, hhead, hm⟩ := hw.exists_head hnil
    obtain ⟨v', hrun, hv'⟩ := h.pushChain hm
    exact ⟨v', by simp [LVec.append, hhead, hrun], hv'⟩

theorem Holds.insert (h : v.Holds l) (index : ℕ) (a : T) :
    ∃ v', v.insert index a = some v' ∧ v'.Holds (l.take index ++ a :: l.drop index) := by
  by_cases hnil : l = []
  · refine ⟨⟨v.size + 1, some (Node.new a)⟩,
      by rw [LVec.insert, if_pos (h.isEmpty_iff.mpr hnil)], ?_⟩
    exact ⟨by simp [hnil, Node.new], by simp [hnil, h.size]⟩
  have hempty : ¬v.isEmpty = true := fun he => hnil (h.isEmpty_iff.mp he)
  have hpos := length_pos_of_ne_nil hnil
  have hsize : v.size + 1 = (l.take index ++ a :: l.drop index).length := by
    simp only [h.size, length_append, length_take, length_cons, length_drop]
    omega
  by_cases hzero : index = 0
  · subst hzero
    refine ⟨⟨v.size + 1, some ⟨a, v.head⟩⟩, ?_, ?_, hsize⟩
    · rw [LVec.insert, if_neg hempty, if_pos (by rw [h.size]; split_ifs <;> omega)]
      rfl
    · simp [h.chain]
  · obtain ⟨node, hhead, hlist⟩ := h.exists_head hnil
    -- past the end the position is the length
    obtain ⟨k, hk, hkl, hindex⟩ : ∃ k, (if v.size ≤ index then v.size else index) = k + 1 ∧
        k < l.length ∧ l.take index ++ a :: l.drop index =
          l.take (k + 1) ++ a :: l.drop (k + 1) := by
      rw [h.size]
      split_ifs with hle
      · refine ⟨l.length - 1, by omega, by omega, ?_⟩
        rw [Nat.sub_add_cancel hpos, take_of_length_le hle, drop_of_length_le hle,
          take_length, drop_length]
      · exact ⟨index - 1, by omega, by omega, by rw [Nat.sub_add_cancel (by omega)]⟩
    have hsteps : k < (elems (some node)).length := by rwa [hlist]
    obtain ⟨curr, hcurr, hadvance⟩ := Node.exists_advance
      (fun curr => some (({ curr with next := some ⟨a, curr.next⟩ } : Node T), ())) hsteps
    obtain ⟨head, hrun, hhead'⟩ := hadvance _ _ rfl
    refine ⟨⟨v.size + 1, some head⟩, ?_, ?_, hsize⟩
    · rw [LVec.insert, if_neg hempty, if_neg (by omega)]
      simp only [hk, Node.new]
      simp [hhead, hrun]
    · rw [elems_some, hlist, drop_eq_getElem_cons hkl] at hcurr
      obtain ⟨helem, hnext⟩ := List.cons.inj hcurr
      rw [hindex, hhead', hlist]
      simp only [elems_some, hnext, helem]
      rw [take_succ_eq_append_getElem hkl, append_assoc, singleton_append]

theorem Holds.remove_of_le (h : v.Holds l) (hle : l.length ≤ index) :
    v.remove index = some (v, none) := by
  rw [LVec.remove, if_pos (by rw [h.size]; exact hle)]

theorem Holds.remove_zero (h : v.Holds (a :: l)) :
    ∃ v', v.remove 0 = some (v', some a) ∧ v'.Holds l := by
  obtain ⟨node, hhead, rfl, hnext⟩ := elems_eq_cons h.chain
  refine ⟨⟨l.length, node.next⟩, ?_, hnext, rfl⟩
  rw [LVec.remove, if_neg (by rw [h.size, length_cons]; omega), if_pos rfl]
  simp [hhead, h.size]

theorem Holds.remove_one (h : v.Holds l) (hlt : 1 < l.length) : v.remove 1 = none := by
  rw [LVec.remove, if_neg (by rw [h.size]; omega), if_neg (by omega)]
  cases v.head <;> simp

/-- **The element before the position is taken out.** -/
theorem Holds.remove_of_two_le (h : v.Holds l) (htwo : 2 ≤ index) (hlt : index < l.length) :
    ∃ v', v.remove index = some (v', l[index - 1]?) ∧ v'.Holds (l.eraseIdx (index - 1)) := by
  obtain ⟨k, rfl⟩ : ∃ k, index = k + 2 := ⟨index - 2, by omega⟩
  obtain ⟨node, hhead, hlist⟩ := h.exists_head (ne_nil_of_length_pos (by omega))
  have hsteps : k < (elems (some node)).length := by rw [hlist]; omega
  obtain ⟨curr, hcurr, hadvance⟩ := Node.exists_advance
    (fun curr => curr.next.bind fun node =>
      some (({ curr with next := node.next } : Node T), node.elem)) hsteps
  have hk : k < l.length := by omega
  have hk1 : k + 1 < l.length := by omega
  rw [elems_some, hlist, drop_eq_getElem_cons hk] at hcurr
  obtain ⟨helem, hnext⟩ := List.cons.inj hcurr
  rw [drop_eq_getElem_cons hk1] at hnext
  obtain ⟨next, hsome, hfound, hrest⟩ := elems_eq_cons hnext
  obtain ⟨head, hrun, hhead'⟩ :=
    hadvance ⟨curr.elem, next.next⟩ next.elem (by rw [hsome, Option.bind_some])
  refine ⟨⟨l.length - 1, some head⟩, ?_, ?_, ?_⟩
  · rw [LVec.remove, if_neg (by rw [h.size]; omega), if_neg (by omega)]
    have hsize : 1 ≤ l.length := by omega
    simp only [hhead, h.size, Option.bind_eq_bind, Option.bind_some, checkedSub_of_le hsize,
      checkedSub_of_le htwo, Nat.add_sub_cancel, hrun, hfound]
    rw [show k + 2 - 1 = k + 1 by omega, getElem?_eq_getElem hk1]
  · rw [hhead', hlist, elems_some, hrest, eraseIdx_eq_take_drop_succ,
      show k + 2 - 1 = k + 1 by omega, take_succ_eq_append_getElem hk, append_assoc,
      singleton_append, ← helem]
  · rw [length_eraseIdx_of_lt (by omega)]

end LVec

end RustExample.LinkedVector
