import Mathlib.Data.Finset.Sort
import RustExample.Foundation.Fallible
import RustExample.Foundation.Loops
import RustExample.Foundation.Pruefer

/-!
# All labelled trees

A sequence of vertices is decoded with a sorted vector of leaves: the first leaf is joined to the
first vertex of the sequence, which becomes a leaf once it does not occur any more. The two leaves
that are left at the end are joined. The sequences of vertices, two fewer than there are, are
enumerated, and each is decoded: every tree on the vertices is found once.

Source: `labeled_trees_example/src/main.rs` (`Edge`, `create_tree_from_seq`, `rec_find_sequences`,
`find_all_labeled_trees`).

* A vertex is a natural number: a sequence for so many vertices that `n + 1` overflows does not fit
  into memory.
* An index out of range is a panic, `none`.
-/

namespace RustExample.LabeledTrees

open List

section Decoder

/-! ### The decoder -/

/-- An edge, with a direction. -/
structure Edge where
  first : ℕ
  second : ℕ
deriving DecidableEq

/-- The edges of a tree. -/
abbrev Tree := Finset Edge

/-- The loop of `create_tree_from_seq`, with what comes after it. -/
def decodeLoop : List ℕ → List ℕ → Tree → Option Tree
  | [], l, res =>
    match l with
    | l0 :: l1 :: _ => some (insert ⟨l0, l1⟩ res)
    | _ => none
  | v :: s, l, res =>
    match l with
    | [] => none
    | l1 :: l =>
      let res := insert ⟨v, l1⟩ res
      if !s.contains v then decodeLoop s ((l ++ [v]).insertionSort (· ≤ ·)) res
      else decodeLoop s l res

/-- The tree of a code. -/
def createTreeFromSeq (s : List ℕ) (n : ℕ) : Option Tree :=
  let l := (List.range' 1 n).filter fun e => !s.contains e
  decodeLoop s (l.insertionSort (· ≤ ·)) ∅

/-! ### What is decoded -/

/-- The edges as unordered pairs. -/
def undirected (t : Tree) : Finset (Sym2 ℕ) := t.image fun e => s(e.first, e.second)

@[simp] theorem undirected_insert (e : Edge) (t : Tree) :
    undirected (insert e t) = insert s(e.first, e.second) (undirected t) := Finset.image_insert ..

/-- The vertices that are not in the rest of the sequence, in order. -/
structure IsLeaves (S : Finset ℕ) (s l : List ℕ) : Prop where
  sorted : l.Pairwise (· ≤ ·)
  nodup : l.Nodup
  mem_iff : ∀ x, x ∈ l ↔ x ∈ S ∧ x ∉ s

variable {S : Finset ℕ} {s l : List ℕ} {a v : ℕ}

namespace IsLeaves

theorem notMem (h : IsLeaves S s (a :: l)) : a ∈ S ∧ a ∉ s := (h.mem_iff a).mp mem_cons_self

/-- **The first leaf** is the least. -/
theorem le_of_mem (h : IsLeaves S s (a :: l)) {b : ℕ} (hb : b ∈ S.erase a) (hnot : b ∉ s) :
    a ≤ b := by
  obtain ⟨hne, hbS⟩ := Finset.mem_erase.mp hb
  have hmem := (h.mem_iff b).mpr ⟨hbS, hnot⟩
  exact rel_of_pairwise_cons h.sorted ((List.mem_cons.mp hmem).resolve_left hne)

theorem mem_tail (h : IsLeaves S s (a :: l)) (x : ℕ) : x ∈ l ↔ x ∈ S.erase a ∧ x ∉ s := by
  have hnot : a ∉ l := (List.nodup_cons.mp h.nodup).1
  have hmem := h.mem_iff x
  rw [Finset.mem_erase, and_assoc, ← hmem, mem_cons]
  constructor
  · exact fun hx => ⟨fun heq => hnot (heq ▸ hx), .inr hx⟩
  · exact fun hx => hx.2.resolve_left hx.1

theorem keep (h : IsLeaves S (v :: s) (a :: l)) (hv : v ∈ s) : IsLeaves (S.erase a) s l where
  sorted := h.sorted.of_cons
  nodup := (List.nodup_cons.mp h.nodup).2
  mem_iff x := by
    rw [h.mem_tail, mem_cons, not_or]
    exact and_congr_right fun _ => and_iff_right_of_imp fun hx heq => hx (heq ▸ hv)

/-- A vertex that does not occur any more becomes a leaf. -/
theorem push (h : IsLeaves S (v :: s) (a :: l)) (hvS : v ∈ S) (hv : v ∉ s) :
    IsLeaves (S.erase a) s ((l ++ [v]).insertionSort (· ≤ ·)) where
  sorted := pairwise_insertionSort _ _
  nodup := by
    rw [(perm_insertionSort _ _).nodup_iff, nodup_append_comm]
    refine List.nodup_cons.mpr ⟨fun hmem => ?_, (List.nodup_cons.mp h.nodup).2⟩
    exact ((h.mem_tail v).mp hmem).2 mem_cons_self
  mem_iff x := by
    have hva : v ≠ a := fun heq => h.notMem.2 (heq ▸ mem_cons_self)
    rw [mem_insertionSort, mem_append, mem_singleton, h.mem_tail, mem_cons,
      not_or]
    constructor
    · rintro (⟨hx, -, hnot⟩ | rfl)
      · exact ⟨hx, hnot⟩
      · exact ⟨Finset.mem_erase.mpr ⟨hva, hvS⟩, hv⟩
    · rintro ⟨hx, hnot⟩
      by_cases heq : x = v
      · exact .inr heq
      · exact .inl ⟨hx, heq, hnot⟩

/-- As many leaves as there are vertices, if the sequence is done. -/
theorem length_eq (h : IsLeaves S [] l) : l.length = S.card := by
  have hset : l.toFinset = S := by
    ext x
    rw [mem_toFinset, h.mem_iff, and_iff_left not_mem_nil]
  rw [← hset, toFinset_card_of_nodup h.nodup]

theorem ne_nil (h : IsLeaves S s l) (hcard : s.length < S.card) : l ≠ [] := by
  rintro rfl
  have hlt : s.toFinset.card < S.card := Nat.lt_of_le_of_lt (toFinset_card_le s) hcard
  obtain ⟨x, hx, hnot⟩ := Finset.exists_mem_notMem_of_card_lt_card hlt
  exact not_mem_nil ((h.mem_iff x).mpr ⟨hx, fun hmem => hnot (List.mem_toFinset.mpr hmem)⟩)

end IsLeaves

/-- **The loop** decodes the sequence, by induction on it. -/
theorem exists_decodeLoop (hs : ∀ x ∈ s, x ∈ S) (hcard : S.card = s.length + 2)
    (hl : IsLeaves S s l) (res : Tree) :
    ∃ t, decodeLoop s l res = some (res ∪ t) ∧ Decodes S s (undirected t) := by
  induction s generalizing S l res with
  | nil =>
    have hlength := hl.length_eq
    match l, hl, hlength.trans hcard with
    | [x, y], hl, _ =>
      have hne : x ≠ y := fun heq => (List.nodup_cons.mp hl.nodup).1 (heq ▸ mem_cons_self)
      have hends : S = {x, y} := by
        ext z
        have hmem := hl.mem_iff z
        rw [and_iff_left not_mem_nil] at hmem
        rw [← hmem]
        simp
      refine ⟨{⟨x, y⟩}, ?_, ?_⟩
      · rw [decodeLoop, Finset.union_comm, ← Finset.insert_eq]
      · rw [hends]
        exact .nil hne
  | cons v s ih =>
    have hne := hl.ne_nil (by omega)
    match l, hne, hl with
    | a :: l, _, hl =>
      obtain ⟨haS, hnot⟩ := hl.notMem
      have hvS : v ∈ S := hs v mem_cons_self
      have hva : v ≠ a := fun heq => hnot (heq ▸ mem_cons_self)
      have hrest : ∀ x ∈ s, x ∈ S.erase a := fun x hx => Finset.mem_erase.mpr
        ⟨fun heq => hnot (heq ▸ mem_cons_of_mem v hx), hs x (mem_cons_of_mem v hx)⟩
      have hcard' : (S.erase a).card = s.length + 2 := by
        rw [Finset.card_erase_of_mem haS, hcard, length_cons]
        omega
      obtain ⟨l', hstep, hl'⟩ : ∃ l', decodeLoop (v :: s) (a :: l) res =
          decodeLoop s l' (insert ⟨v, a⟩ res) ∧ IsLeaves (S.erase a) s l' := by
        by_cases hv : v ∈ s
        · exact ⟨l, by simp [decodeLoop, hv], hl.keep hv⟩
        · exact ⟨_, by simp [decodeLoop, hv], hl.push hvS hv⟩
      obtain ⟨t, hrun, hdecodes⟩ := ih hrest hcard' hl' (insert ⟨v, a⟩ res)
      refine ⟨insert ⟨v, a⟩ t, ?_, ?_⟩
      · rw [hstep, hrun, Finset.insert_union, Finset.union_insert]
      · have hcons := hdecodes.cons (Finset.notMem_erase a S) (Finset.mem_erase.mpr ⟨hva, hvS⟩)
          fun b => hl.le_of_mem
        rw [Finset.insert_erase haS] at hcons
        rw [undirected_insert]
        exact hcons

theorem isLeaves_range' (n : ℕ) (s : List ℕ) : IsLeaves (Finset.Icc 1 n) s
    (((List.range' 1 n).filter fun e => !s.contains e).insertionSort (· ≤ ·)) where
  sorted := pairwise_insertionSort _ _
  nodup := (perm_insertionSort _ _).nodup_iff.mpr (List.Nodup.filter _ nodup_range')
  mem_iff x := by
    rw [mem_insertionSort, mem_filter, mem_range'_1, Finset.mem_Icc]
    simp only [contains_eq_mem, Bool.not_eq_true', decide_eq_false_iff_not]
    refine and_congr_left fun _ => ?_
    omega

/-- **A sequence is the code** of the tree that is created from it. -/
theorem exists_createTreeFromSeq {n : ℕ} (hs : ∀ x ∈ s, x ∈ Finset.Icc 1 n)
    (hlength : n = s.length + 2) :
    ∃ t, createTreeFromSeq s n = some t ∧ Decodes (Finset.Icc 1 n) s (undirected t) := by
  obtain ⟨t, hrun, hdecodes⟩ := exists_decodeLoop hs (by rw [Nat.card_Icc]; omega)
    (isLeaves_range' n s) ∅
  exact ⟨t, by rw [createTreeFromSeq, hrun, Finset.empty_union], hdecodes⟩

end Decoder

/-! ### The enumeration -/

section Enumeration

/-- The vectors of a length, by their first vertex. -/
def recFindSequences (n : ℕ) : ℕ → List (List ℕ)
  | 0 => [[]]
  | len + 1 => (List.range' 1 n).flatMap fun i => (recFindSequences n len).map (i :: ·)

/-- All trees of `n` vertices. -/
def findAllLabeledTrees (n : ℕ) : Option (List Tree) := do
  let len ← checkedSub n 2
  (recFindSequences n len).mapM fun seq => createTreeFromSeq seq n

variable {n len : ℕ} {s : List ℕ}

theorem mem_recFindSequences :
    s ∈ recFindSequences n len ↔ s.length = len ∧ ∀ x ∈ s, x ∈ Finset.Icc 1 n := by
  induction len generalizing s with
  | zero =>
    rw [recFindSequences, mem_singleton, length_eq_zero_iff]
    exact ⟨fun h => ⟨h, h ▸ nofun⟩, fun h => h.1⟩
  | succ len ih =>
    rw [recFindSequences, mem_flatMap]
    constructor
    · rintro ⟨i, hi, hmem⟩
      obtain ⟨seq, hseq, rfl⟩ := List.mem_map.mp hmem
      obtain ⟨hlength, hall⟩ := ih.mp hseq
      rw [mem_range'_1] at hi
      refine ⟨by rw [length_cons, hlength], fun x hx => ?_⟩
      rcases List.mem_cons.mp hx with rfl | hx
      · exact Finset.mem_Icc.mpr (by omega)
      · exact hall x hx
    · rintro ⟨hlength, hall⟩
      match s, hlength, hall with
      | i :: seq, hlength, hall =>
        have hi := Finset.mem_Icc.mp (hall i mem_cons_self)
        refine ⟨i, List.mem_range'_1.mpr (by omega), List.mem_map.mpr ⟨seq, ih.mpr ⟨?_, ?_⟩, rfl⟩⟩
        · exact Nat.succ.inj hlength
        · exact fun x hx => hall x (mem_cons_of_mem i hx)

theorem nodup_recFindSequences (n len : ℕ) : (recFindSequences n len).Nodup := by
  induction len with
  | zero => exact nodup_singleton _
  | succ len ih =>
    rw [recFindSequences, nodup_flatMap]
    refine ⟨fun i _ => ih.map cons_injective,
      List.Pairwise.imp ?_ (nodup_range' (n := n))⟩
    intro i j hne seq hi hj
    obtain ⟨seq, -, rfl⟩ := List.mem_map.mp hi
    obtain ⟨seq', -, heq⟩ := List.mem_map.mp hj
    exact hne (List.cons.inj heq).1.symm

theorem length_recFindSequences (n len : ℕ) : (recFindSequences n len).length = n ^ len := by
  induction len with
  | zero => rfl
  | succ len ih =>
    rw [recFindSequences, length_flatMap]
    simp only [length_map, ih, map_const', sum_replicate, length_range',
      smul_eq_mul]
    rw [Nat.pow_succ, Nat.mul_comm]

/-- The tree of a sequence, where there is one. -/
def treeOf (n : ℕ) (s : List ℕ) : Tree := (createTreeFromSeq s n).getD ∅

/-- **A sequence that is enumerated** is the code of its tree. -/
theorem decodes_treeOf (hn : 2 ≤ n) (hs : s ∈ recFindSequences n (n - 2)) :
    createTreeFromSeq s n = some (treeOf n s) ∧
      Decodes (Finset.Icc 1 n) s (undirected (treeOf n s)) := by
  obtain ⟨hlength, hall⟩ := mem_recFindSequences.mp hs
  obtain ⟨t, hrun, hdecodes⟩ := exists_createTreeFromSeq hall (by omega)
  have ht : treeOf n s = t := by rw [treeOf, hrun, Option.getD_some]
  exact ⟨ht ▸ hrun, ht ▸ hdecodes⟩

/-- **Every labelled tree is found once**: there are as many sets as codes, each is a tree, and
every tree is among them once. -/
theorem findAllLabeledTrees_enumerates (n : ℕ) (hn : 2 ≤ n) :
    ∃ trees, findAllLabeledTrees n = some trees ∧ trees.length = n ^ (n - 2) ∧
      (∀ t ∈ trees, IsTreeOn (Set.Icc 1 n) (undirected t)) ∧
      ∀ F : Finset (Sym2 ℕ), IsTreeOn (Set.Icc 1 n) F → (trees.map undirected).count F = 1 := by
  refine ⟨(recFindSequences n (n - 2)).map (treeOf n), ?_, ?_, ?_, ?_⟩
  · rw [findAllLabeledTrees, checkedSub_of_le hn]
    exact mapM_eq_some fun s hs => (decodes_treeOf hn hs).1
  · rw [length_map, length_recFindSequences]
  · intro t ht
    obtain ⟨s, hs, rfl⟩ := List.mem_map.mp ht
    have hon := (decodes_treeOf hn hs).2.isTreeOn
    rwa [Finset.coe_Icc] at hon
  · intro F hF
    rw [← Finset.coe_Icc] at hF
    obtain ⟨s, hs⟩ := exists_decodes hF (by rw [Nat.card_Icc]; omega)
    have hcard := hs.card_eq
    rw [Nat.card_Icc] at hcard
    have hmem : s ∈ recFindSequences n (n - 2) :=
      mem_recFindSequences.mpr ⟨by omega, hs.mem_of_mem⟩
    have hcode : undirected (treeOf n s) = F := (decodes_treeOf hn hmem).2.unique hs
    rw [map_map]
    refine count_eq_one_of_mem ?_ (List.mem_map.mpr ⟨s, hmem, hcode⟩)
    refine List.Nodup.map_on (fun s hs s' hs' heq => ?_) (nodup_recFindSequences n (n - 2))
    have hsame : undirected (treeOf n s) = undirected (treeOf n s') := heq
    exact (decodes_treeOf hn hs).2.injective (hsame ▸ (decodes_treeOf hn hs').2)

/-- The trees of five vertices, which `main` prints. -/
theorem findAllLabeledTrees_five :
    ∃ trees, findAllLabeledTrees 5 = some trees ∧ trees.length = 5 ^ (5 - 2) ∧
      (∀ t ∈ trees, IsTreeOn (Set.Icc 1 5) (undirected t)) ∧
      ∀ F : Finset (Sym2 ℕ), IsTreeOn (Set.Icc 1 5) F → (trees.map undirected).count F = 1 :=
  findAllLabeledTrees_enumerates 5 (by decide)

end Enumeration

end RustExample.LabeledTrees
