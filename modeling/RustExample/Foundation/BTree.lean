import Mathlib.Data.List.Perm.Basic
import Mathlib.Data.List.TakeWhile

/-!
# B-trees by their depth

A B-tree of a depth is a list of values at the leaves, and above them a first tree followed by
values that each have a tree to their right, all of one depth. An insertion that fills a node cuts
it in two around a value, which goes up.
-/

namespace RustExample.BTree

open List

universe u

variable {α β : Type u}

/-- A tree whose leaves are at depth `d`. -/
def Tree (α : Type u) : ℕ → Type u
  | 0 => List α
  | d + 1 => Tree α d × List (α × Tree α d)

/-- The values of the entries of a node and of the trees to their right. -/
def flat (values : β → List α) (entries : List (α × β)) : List α :=
  entries.flatMap fun e => e.1 :: values e.2

/-- The entries in their order. -/
def toList : (d : ℕ) → Tree α d → List α
  | 0, vs => vs
  | d + 1, t => toList d t.1 ++ flat (toList d) t.2

/-- Every node has at most `hi` values, the root at least `root` and the others at least `lo`. -/
def Filled (lo hi : ℕ) : (root d : ℕ) → Tree α d → Prop
  | root, 0, vs => root ≤ List.length vs ∧ List.length vs ≤ hi
  | root, d + 1, t => root ≤ t.2.length ∧ t.2.length ≤ hi ∧ Filled lo hi lo d t.1 ∧
      ∀ e ∈ t.2, Filled lo hi lo d e.2

@[simp] theorem flat_nil (values : β → List α) : flat values [] = [] := rfl

@[simp] theorem flat_cons (values : β → List α) (e : α × β) (entries : List (α × β)) :
    flat values (e :: entries) = e.1 :: (values e.2 ++ flat values entries) := rfl

@[simp] theorem flat_append (values : β → List α) (es fs : List (α × β)) :
    flat values (es ++ fs) = flat values es ++ flat values fs :=
  flatMap_append

theorem keys_sublist (values : β → List α) (entries : List (α × β)) :
    (entries.map Prod.fst).Sublist (flat values entries) := by
  induction entries with
  | nil => exact .slnil
  | cons e entries ih =>
    rw [map_cons, flat_cons]
    exact (ih.trans (sublist_append_right _ _)).cons_cons _

theorem values_sublist (values : β → List α) {entries : List (α × β)} {s : β}
    (hs : s ∈ entries.map Prod.snd) : (values s).Sublist (flat values entries) := by
  induction entries with
  | nil => simp at hs
  | cons e entries ih =>
    rw [flat_cons]
    refine List.Sublist.cons _ ?_
    rcases List.mem_cons.mp hs with rfl | hs
    · exact sublist_append_left _ _
    · exact (ih hs).trans (sublist_append_right _ _)

theorem Filled.depth_lt {lo hi root d : ℕ} {t : Tree α d} (h : Filled lo hi root d t)
    (hroot : 1 ≤ root) (hlo : 1 ≤ lo) : d < (toList d t).length := by
  induction d generalizing root with
  | zero => exact Nat.lt_of_lt_of_le hroot h.1
  | succ d ih =>
    obtain ⟨hlen, -, hfirst, -⟩ := h
    have hd := ih hfirst hlo
    obtain ⟨first, rest⟩ := t
    cases rest with
    | nil => simp at hlen; omega
    | cons e rest =>
      simp only [toList, flat_cons, length_append, length_cons] at hd ⊢
      omega

/-! ### Insertion -/

/-- A node with `order` values is cut in two around the value in the middle. -/
def cut (order : ℕ) (entries : List β) : List β × Option (β × List β) :=
  if entries.length < order then (entries, none)
  else
    match entries.drop (entries.length / 2) with
    | [] => (entries, none)
    | e :: right => (entries.take (entries.length / 2), some (e, right))

/-- The tree for a value among a first tree and the trees of the entries, changed by `ins`; what
goes up becomes an entry after it. -/
def graft (goRight : α → Bool) (ins : β → β × Option (α × β)) :
    β → List (α × β) → β × List (α × β)
  | t, [] => ((ins t).1, (ins t).2.toList)
  | t, (a, s) :: rest =>
    if goRight a then
      let (s, rest) := graft goRight ins s rest
      (t, (a, s) :: rest)
    else ((ins t).1, (ins t).2.toList ++ (a, s) :: rest)

/-- The insertion of `x` after the values with `goRight`. -/
def insert (goRight : α → Bool) (x : α) (order : ℕ) :
    (d : ℕ) → Tree α d → Tree α d × Option (α × Tree α d)
  | 0, vs => cut order (List.takeWhile goRight vs ++ x :: List.dropWhile goRight vs)
  | d + 1, t =>
    let (first, rest) := graft goRight (insert goRight x order d) t.1 t.2
    match cut order rest with
    | (rest, none) => ((first, rest), none)
    | (left, some ((a, s), right)) => ((first, left), some (a, (s, right)))

/-- What `insert` returns, as one list. -/
def grownList (d : ℕ) (t : Tree α d × Option (α × Tree α d)) : List α :=
  toList d t.1 ++ flat (toList d) t.2.toList

theorem cut_of_lt {order : ℕ} {entries : List β} (h : entries.length < order) :
    cut order entries = (entries, none) := if_pos h

theorem cut_of_le {order : ℕ} {entries : List β} (h : order ≤ entries.length)
    (horder : 0 < order) :
    ∃ left e right, cut order entries = (left, some (e, right)) ∧ entries = left ++ e :: right ∧
      left.length = entries.length / 2 := by
  have hlt : entries.length / 2 < entries.length := by omega
  refine ⟨entries.take (entries.length / 2), entries[entries.length / 2],
    entries.drop (entries.length / 2 + 1), ?_, ?_, ?_⟩
  · rw [cut, if_neg (by omega), drop_eq_getElem_cons hlt]
  · rw [← drop_eq_getElem_cons hlt, take_append_drop]
  · rw [length_take]
    omega

section Values

variable {goRight : α → Bool} {x : α} {l l' : List α}

/-- The values with `goRight` come first. -/
def Split (goRight : α → Bool) (l : List α) : Prop :=
  l.Pairwise fun a b => goRight b = true → goRight a = true

/-- `l'` is `l` with `x` after the values with `goRight`. -/
def Inserted (goRight : α → Bool) (x : α) (l l' : List α) : Prop :=
  ∃ a b, l = a ++ b ∧ (∀ y ∈ a, goRight y = true) ∧ (∀ y ∈ b, goRight y = false) ∧
    l' = a ++ x :: b

theorem Inserted.perm (h : Inserted goRight x l l') : l'.Perm (x :: l) := by
  obtain ⟨a, b, rfl, -, -, rfl⟩ := h
  exact perm_middle

/-- An insertion between values on the left and values on the right. -/
theorem Inserted.between (h : Inserted goRight x l l') {before after : List α}
    (hbefore : ∀ y ∈ before, goRight y = true) (hafter : ∀ y ∈ after, goRight y = false) :
    Inserted goRight x (before ++ l ++ after) (before ++ l' ++ after) := by
  obtain ⟨a, b, rfl, ha, hb, rfl⟩ := h
  refine ⟨before ++ a, b ++ after, by simp, fun y hy => ?_, fun y hy => ?_, by simp⟩
  · exact (List.mem_append.mp hy).elim (hbefore y) (ha y)
  · exact (List.mem_append.mp hy).elim (hb y) (hafter y)

theorem Split.false_of_dropWhile (hl : Split goRight l) :
    ∀ y ∈ l.dropWhile goRight, goRight y = false := by
  induction l with
  | nil => simp
  | cons a l ih =>
    obtain ⟨ha, hl⟩ := List.pairwise_cons.mp hl
    by_cases hga : goRight a = true
    · rw [dropWhile_cons_of_pos hga]
      exact ih hl
    · rw [dropWhile_cons_of_neg hga]
      rintro y hy
      rcases List.mem_cons.mp hy with rfl | hy
      · simpa using hga
      · exact Bool.eq_false_iff.mpr fun hgy => hga (ha y hy hgy)

theorem inserted_takeWhile (hl : Split goRight l) :
    Inserted goRight x l (l.takeWhile goRight ++ x :: l.dropWhile goRight) :=
  ⟨_, _, List.takeWhile_append_dropWhile.symm, fun _ hy => mem_takeWhile_imp hy,
    hl.false_of_dropWhile, rfl⟩

/-- The last entry with `goRight`, if there is one. -/
theorem Split.cases_last {rest : List (α × β)} (hrest : Split goRight (rest.map Prod.fst)) :
    (∀ e ∈ rest, goRight e.1 = false) ∨
    ∃ left a s right, rest = left ++ (a, s) :: right ∧ (∀ e ∈ left, goRight e.1 = true) ∧
      goRight a = true ∧ ∀ e ∈ right, goRight e.1 = false := by
  induction rest with
  | nil => exact .inl (by simp)
  | cons e rest ih =>
    obtain ⟨a, s⟩ := e
    obtain ⟨ha, hrest⟩ := List.pairwise_cons.mp hrest
    by_cases hga : goRight a = true
    · right
      rcases ih hrest with hfalse | ⟨left, b, s', right, rfl, hleft, hb, hright⟩
      · exact ⟨[], a, s, rest, rfl, by simp, hga, hfalse⟩
      · refine ⟨(a, s) :: left, b, s', right, rfl, ?_, hb, hright⟩
        rintro e he
        rcases List.mem_cons.mp he with rfl | he
        · exact hga
        · exact hleft e he
    · refine .inl fun e he => ?_
      rcases List.mem_cons.mp he with rfl | he
      · simpa using hga
      · exact Bool.eq_false_iff.mpr fun hge => hga (ha _ (mem_map_of_mem he) hge)

theorem graft_first (ins : β → β × Option (α × β)) (t : β) {rest : List (α × β)}
    (hrest : ∀ e ∈ rest, goRight e.1 = false) :
    graft goRight ins t rest = ((ins t).1, (ins t).2.toList ++ rest) := by
  cases rest with
  | nil => simp [graft]
  | cons e rest =>
    have he := hrest e mem_cons_self
    rw [graft, if_neg (by simp [he])]

theorem graft_last (ins : β → β × Option (α × β)) (t : β) {left right : List (α × β)} {a : α}
    {s : β} (hleft : ∀ e ∈ left, goRight e.1 = true) (ha : goRight a = true)
    (hright : ∀ e ∈ right, goRight e.1 = false) :
    graft goRight ins t (left ++ (a, s) :: right) =
      (t, left ++ (a, (ins s).1) :: ((ins s).2.toList ++ right)) := by
  induction left generalizing t with
  | nil => simp [graft, ha, graft_first ins s hright]
  | cons e left ih =>
    have he := hleft e mem_cons_self
    rw [cons_append, graft, if_pos he, ih _ fun e he => hleft e (mem_cons_of_mem _ he)]
    rfl

/-- Where a graft is: in the first tree, or in the tree of the last entry with `goRight`. -/
theorem graft_cases (ins : β → β × Option (α × β)) (t : β) (rest : List (α × β))
    (hrest : Split goRight (rest.map Prod.fst)) :
    ((∀ e ∈ rest, goRight e.1 = false) ∧
      graft goRight ins t rest = ((ins t).1, (ins t).2.toList ++ rest)) ∨
    ∃ left a s right, rest = left ++ (a, s) :: right ∧ (∀ e ∈ left, goRight e.1 = true) ∧
      goRight a = true ∧ (∀ e ∈ right, goRight e.1 = false) ∧
      graft goRight ins t rest = (t, left ++ (a, (ins s).1) :: ((ins s).2.toList ++ right)) := by
  rcases hrest.cases_last with hfalse | ⟨left, a, s, right, rfl, hleft, ha, hright⟩
  · exact .inl ⟨hfalse, graft_first ins t hfalse⟩
  · exact .inr ⟨left, a, s, right, rfl, hleft, ha, hright, graft_last ins t hleft ha hright⟩

theorem Split.false_of_cons {a : α} (h : Split goRight (a :: l)) (ha : goRight a = false) :
    ∀ y ∈ a :: l, goRight y = false := by
  intro y hy
  rcases List.mem_cons.mp hy with rfl | hy
  · exact ha
  · refine Bool.eq_false_iff.mpr fun hgy => ?_
    simp [(List.pairwise_cons.mp h).1 y hy hgy] at ha

theorem Split.keys {values : β → List α} {entries : List (α × β)}
    (h : Split goRight (flat values entries)) : Split goRight (entries.map Prod.fst) :=
  h.sublist (keys_sublist values entries)

theorem Split.false_of_flat {values : β → List α} {rest : List (α × β)}
    (h : Split goRight (flat values rest)) (hrest : ∀ e ∈ rest, goRight e.1 = false) :
    ∀ y ∈ flat values rest, goRight y = false := by
  cases rest with
  | nil => simp
  | cons e rest => exact Split.false_of_cons h (hrest e mem_cons_self)

theorem toList_cut {order : ℕ} (horder : 0 < order) (vs : List α) :
    grownList 0 (cut order vs) = vs := by
  rcases Nat.lt_or_ge vs.length order with hlt | hle
  · rw [cut_of_lt hlt]
    exact append_nil _
  · obtain ⟨left, e, right, hcut, heq, -⟩ := cut_of_le hle horder
    rw [hcut, heq]
    exact congrArg (fun l => left ++ e :: l) (append_nil right)

theorem grownList_insert_succ {order : ℕ} (horder : 0 < order) (d : ℕ) (t : Tree α (d + 1)) :
    grownList (d + 1) (insert goRight x order (d + 1) t) =
      toList d (graft goRight (insert goRight x order d) t.1 t.2).1 ++
        flat (toList d) (graft goRight (insert goRight x order d) t.1 t.2).2 := by
  rw [insert]
  generalize graft goRight (insert goRight x order d) t.1 t.2 = g
  obtain ⟨first, rest⟩ := g
  rcases Nat.lt_or_ge rest.length order with hlt | hle
  · simp [cut_of_lt hlt, grownList, toList]
  · obtain ⟨left, ⟨a, s⟩, right, hcut, rfl, -⟩ := cut_of_le hle horder
    simp [hcut, grownList, toList]

/-- **The values after an insertion.** -/
theorem inserted_insert {order : ℕ} (horder : 0 < order) (d : ℕ) (t : Tree α d)
    (ht : Split goRight (toList d t)) :
    Inserted goRight x (toList d t) (grownList d (insert goRight x order d t)) := by
  induction d with
  | zero =>
    rw [insert, toList_cut horder]
    exact inserted_takeWhile ht
  | succ d ih =>
    rw [grownList_insert_succ horder]
    obtain ⟨first, rest⟩ := t
    simp only [toList] at ht ⊢
    obtain ⟨hfirst, hrest, -⟩ := List.pairwise_append.mp ht
    rcases graft_cases (insert goRight x order d) first rest (Split.keys hrest) with
      ⟨hfalse, heq⟩ | ⟨left, a, s, right, rfl, -, ha, hright, heq⟩
    · have hafter := Split.false_of_flat hrest hfalse
      rw [heq]
      simpa [grownList] using
        (ih first hfirst).between (by simp : ∀ y ∈ [], goRight y = true) hafter
    · rw [flat_append, flat_cons, ← append_assoc] at ht
      obtain ⟨-, hcons, hbefore⟩ := List.pairwise_append.mp ht
      obtain ⟨hs, hsplit, -⟩ := List.pairwise_append.mp (List.pairwise_cons.mp hcons).2
      have hafter := Split.false_of_flat hsplit hright
      have hbefore' : ∀ y ∈ toList d first ++ flat (toList d) left ++ [a], goRight y = true := by
        intro y hy
        rcases List.mem_append.mp hy with hy | hy
        · exact hbefore y hy a mem_cons_self ha
        · rwa [List.mem_singleton.mp hy]
      rw [heq]
      simpa [grownList] using (ih s hs).between hbefore' hafter

/-! ### The bounds -/

/-- The bounds after an insertion, also for what goes up. -/
def GrownFilled (lo hi root d : ℕ) (t : Tree α d × Option (α × Tree α d)) : Prop :=
  match t.2 with
  | none => Filled lo hi root d t.1
  | some (_, s) => Filled lo hi lo d t.1 ∧ Filled lo hi lo d s

/-- The parts of a node that is cut are at least half filled. -/
theorem length_cut {order root : ℕ} {entries : List β} (horder : 0 < order)
    (hroot : root ≤ entries.length) (hle : entries.length ≤ order) :
    (cut order entries = (entries, none) ∧ entries.length ≤ order - 1) ∨
      ∃ left e right, cut order entries = (left, some (e, right)) ∧
        entries = left ++ e :: right ∧
        ((order - 1) / 2 ≤ left.length ∧ left.length ≤ order - 1) ∧
        (order - 1) / 2 ≤ right.length ∧ right.length ≤ order - 1 := by
  rcases Nat.lt_or_ge entries.length order with hlt | hge
  · exact .inl ⟨cut_of_lt hlt, by omega⟩
  · obtain ⟨left, e, right, hcut, rfl, hleft⟩ := cut_of_le hge horder
    rw [length_append, length_cons] at hle hge hleft
    exact .inr ⟨left, e, right, hcut, rfl, by omega, by omega⟩

end Values

end RustExample.BTree
