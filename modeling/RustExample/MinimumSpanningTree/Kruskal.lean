import RustExample.Foundation.Loops
import RustExample.Foundation.SpanningTrees

/-!
# Minimum spanning trees

An edge is a pair of vertices in any order: equality and hashes do not depend on it. Trees are
sets of edges; an edge combines the trees that it touches.

Source: `minimum_spaning_tree_example/src/main.rs` (`Edge`, `is_vertex_in_tree`, `combine_trees`,
`min_spanning_tree`).

* A hash set of edges is a finite set of unordered pairs, since it goes by equality and hashes.
* The head of a list of trees is the end of the vector.
* A graph has its entries in the order in which the hash map is iterated: any order.
* The loop takes a bound on its rounds; a vector that is empty at the end is a panic, `none`.
-/

namespace RustExample.MinimumSpanningTree

open List

/-! ### Edges -/

/-- An edge of the graph. -/
structure Edge where
  first : UInt32
  second : UInt32

namespace Edge

/-- The vertex is an end. -/
def isEnd (e : Edge) (v : UInt32) : Bool := e.first == v || e.second == v

/-- `PartialEq` -/
def eq (e other : Edge) : Bool :=
  (e.first, e.second) == (other.first, other.second) ||
    (e.first, e.second) == (other.second, other.first)

/-- The two numbers that `Hash` feeds to the hasher. -/
def hash (e : Edge) : UInt32 × UInt32 :=
  if e.first < e.second then (e.first, e.second) else (e.second, e.first)

/-- The ends, in no order. -/
def pair (e : Edge) : Sym2 UInt32 := s(e.first, e.second)

/-- **The ends** of an edge are those of the pair. -/
theorem isEnd_iff {e : Edge} {v : UInt32} : e.isEnd v = true ↔ v ∈ e.pair := by
  rw [isEnd, Bool.or_eq_true, beq_iff_eq, beq_iff_eq, pair, Sym2.mem_iff, eq_comm,
    @eq_comm _ e.second]

/-- **Equality** is that of unordered pairs. -/
theorem eq_iff {e other : Edge} : e.eq other = true ↔ e.pair = other.pair := by
  rw [eq, Bool.or_eq_true, beq_iff_eq, beq_iff_eq, Prod.mk.injEq, Prod.mk.injEq, pair, pair,
    Sym2.eq_iff]

/-- **Hashes** are the same exactly if the edges are. -/
theorem hash_eq_iff {e other : Edge} : e.hash = other.hash ↔ e.pair = other.pair := by
  rw [hash, hash, pair, pair, Sym2.eq_iff]
  split_ifs with h h'
  all_goals
    rw [Prod.mk.injEq]
    simp only [UInt32.lt_iff_toNat_lt, ← UInt32.toNat_inj] at *
    omega

end Edge

/-! ### Trees -/

/-- The edges of a tree. -/
abbrev Tree := Finset (Sym2 UInt32)

/-- The tree has the vertex. -/
def isVertexInTree (t : Tree) (v : UInt32) : Bool := decide (∃ e ∈ t, v ∈ e)

/-- The loop of `combine_trees`. -/
def combineLoop (u v : UInt32) : List Tree → Tree → List Tree → List Tree
  | [], combined, res => combined :: res
  | tree :: trees, combined, res =>
    if isVertexInTree tree v || isVertexInTree tree u then
      combineLoop u v trees (combined ∪ tree) res
    else combineLoop u v trees combined (tree :: res)

/-- Joins the trees at an edge. -/
def combineTrees (trees : List Tree) (e : Edge) : List Tree :=
  combineLoop e.first e.second trees {e.pair} []

theorem isVertexInTree_iff {t : Tree} {v : UInt32} :
    isVertexInTree t v = true ↔ v ∈ ends t := decide_eq_true_iff

theorem isVertexInTree_or (t : Tree) (u v : UInt32) :
    (isVertexInTree t v || isVertexInTree t u) = touches u v t := rfl

/-- **The loop** moves the touched trees to the combined one, the others to the result. -/
theorem combineLoop_eq (u v : UInt32) (trees : List Tree) (combined : Tree) (res : List Tree) :
    combineLoop u v trees combined res =
      (combined ∪ allEdges (trees.filter (touches u v))) ::
        ((trees.filter fun t => !touches u v t).reverse ++ res) := by
  induction trees generalizing combined res with
  | nil => simp [combineLoop, allEdges]
  | cons tree trees ih =>
    rw [combineLoop, isVertexInTree_or]
    cases htouch : touches u v tree with
    | true =>
      rw [if_pos rfl, ih, filter_cons_of_pos htouch,
        filter_cons_of_neg (by simp [htouch]), Finset.union_assoc]
      rfl
    | false =>
      rw [if_neg Bool.false_ne_true, ih, filter_cons_of_neg (by simp [htouch]),
        filter_cons_of_pos (by simp [htouch])]
      simp

/-- **Combining trees** joins those that the edge touches. -/
theorem combineTrees_eq (trees : List Tree) (e : Edge) : combineTrees trees e =
    joinedBy e.first e.second trees ::
      (trees.filter fun t => !touches e.first e.second t).reverse := by
  rw [combineTrees, combineLoop_eq, append_nil, Edge.pair, ← Finset.insert_eq]
  rfl

theorem combineTrees_perm (trees : List Tree) (e : Edge) : (combineTrees trees e).Perm
    (joinedBy e.first e.second trees ::
      trees.filter fun t => !touches e.first e.second t) := by
  rw [combineTrees_eq]
  exact (reverse_perm _).cons _

/-! ### Graphs -/

/-- A hash map from edges to weights. -/
structure Graph where
  entries : List (Edge × UInt32)
  nodup : (entries.map fun entry => entry.1.pair).Nodup

namespace Graph

/-- The edges of a graph. -/
def edges (g : Graph) : Finset (Sym2 UInt32) := (g.entries.map fun entry => entry.1.pair).toFinset

/-- The weight of an edge. -/
def weight (g : Graph) (e : Sym2 UInt32) : ℕ :=
  ((g.entries.find? fun entry => entry.1.pair = e).map fun entry => entry.2.toNat).getD 0

theorem mem_edges {g : Graph} {e : Sym2 UInt32} :
    e ∈ g.edges ↔ ∃ entry ∈ g.entries, entry.1.pair = e := by
  rw [edges, mem_toFinset, mem_map]

theorem weight_of_mem {g : Graph} {entry : Edge × UInt32} (h : entry ∈ g.entries) :
    g.weight entry.1.pair = entry.2.toNat := by
  rw [weight]
  cases hfind : g.entries.find? fun other => other.1.pair = entry.1.pair with
  | none => exact absurd (decide_eq_true rfl) (List.find?_eq_none.mp hfind entry h)
  | some other =>
    have hpair : other.1.pair = entry.1.pair := by
      simpa using find?_some hfind
    have hsame : other = entry :=
      inj_on_of_nodup_map g.nodup (mem_of_find?_eq_some hfind) h hpair
    rw [hsame]
    rfl

end Graph

/-! ### The algorithm -/

/-- The entries whose edges do not lie inside a tree. -/
def candidates (g : Graph) (trees : List Tree) : List (Edge × UInt32) :=
  g.entries.filter fun entry => trees.all fun t =>
    !isVertexInTree t entry.1.first || !isVertexInTree t entry.1.second

/-- A round of the loop; the first of the lightest edges is taken. -/
def round (g : Graph) (trees : List Tree) : Option (Round (List Tree) Tree) :=
  match (candidates g trees).minOn? (fun entry => entry.2.toNat) with
  | some (e, _) => some (.again (combineTrees trees e))
  | none => trees.head?.map .done

/-- A spanning tree of least weight. -/
def minSpanningTree (bound : ℕ) (g : Graph) : Option Tree := loop (round g) bound []

/-! ### The invariant -/

/-- The trees are a forest, and part of a spanning forest however light it has to be. -/
structure IsForestOf (g : Graph) (trees : List Tree) : Prop where
  forest : IsEdgeForest trees
  subset : allEdges trees ⊆ g.edges
  acyclic : (edgeGraph (allEdges trees)).IsAcyclic
  promising : Promising g.weight g.edges (allEdges trees)

variable {g : Graph} {trees : List Tree} {entry : Edge × UInt32}

theorem isForestOf_nil (g : Graph) : IsForestOf g [] where
  forest := .nil
  subset := Finset.empty_subset _
  acyclic := by
    have hbot : edgeGraph (allEdges ([] : List Tree)) = ⊥ := by
      simp [edgeGraph, allEdges]
    rw [hbot]
    exact SimpleGraph.isAcyclic_bot
  promising := promising_empty

/-- **The candidates** are the edges whose ends are not connected yet. -/
theorem mem_candidates (h : IsForestOf g trees)
    (hloops : ∀ entry ∈ g.entries, entry.1.first ≠ entry.1.second) :
    entry ∈ candidates g trees ↔ entry ∈ g.entries ∧
      ¬ (edgeGraph (allEdges trees)).Reachable entry.1.first entry.1.second := by
  rw [candidates, mem_filter]
  refine and_congr_right fun hmem => ?_
  rw [h.forest.reachable_iff, or_iff_right (hloops entry hmem), all_eq_true]
  simp only [Bool.or_eq_true, Bool.not_eq_true', Bool.eq_false_iff, ne_eq, isVertexInTree_iff,
    not_exists, not_and, ← not_and_or]

theorem length_filter_lt {α : Type} {l : List α} {p p' : α → Bool}
    (h : ∀ x ∈ l.filter p', x ∈ l.filter p) {x : α} (hx : x ∈ l.filter p) (hx' : x ∉ l.filter p') :
    (l.filter p').length < (l.filter p).length := by
  have hfilter : l.filter p' = (l.filter p).filter p' := by
    rw [filter_filter]
    refine filter_congr fun y hy => ?_
    cases hp' : p' y with
    | false => rfl
    | true => rw [(List.mem_filter.mp (h y (List.mem_filter.mpr ⟨hy, hp'⟩))).2]; rfl
  rw [hfilter, length_filter_lt_length_iff_exists]
  exact ⟨x, hx, fun hp' => hx' (List.mem_filter.mpr ⟨(List.mem_filter.mp hx).1, hp'⟩)⟩

/-- **One round** keeps the invariant. -/
theorem IsForestOf.combine (h : IsForestOf g trees)
    (hloops : ∀ entry ∈ g.entries, entry.1.first ≠ entry.1.second)
    (hmin : (candidates g trees).minOn? (fun entry => entry.2.toNat) = some entry) :
    IsForestOf g (combineTrees trees entry.1) ∧
      (candidates g (combineTrees trees entry.1)).length < (candidates g trees).length := by
  have hcandidate := List.minOn?_mem hmin
  obtain ⟨hmem, hcross⟩ := (mem_candidates h hloops).mp hcandidate
  have hedges : allEdges (combineTrees trees entry.1) = insert entry.1.pair (allEdges trees) :=
    (allEdges_perm (combineTrees_perm trees entry.1)).trans (allEdges_join _ _ _)
  have hpair : entry.1.pair ∈ g.edges := Graph.mem_edges.mpr ⟨entry, hmem, rfl⟩
  have hcombined : IsForestOf g (combineTrees trees entry.1) := by
    refine ⟨(h.forest.join _ _).perm (combineTrees_perm trees entry.1).symm, ?_, ?_, ?_⟩
    · rw [hedges]
      exact Finset.insert_subset hpair h.subset
    · rw [hedges]
      exact acyclic_insert h.acyclic hcross
    · rw [hedges]
      refine h.promising.insert hpair hcross fun a b hab hnot => ?_
      obtain ⟨other, hother, hsame⟩ := Graph.mem_edges.mp hab
      have hlight : other ∈ candidates g trees := by
        refine (mem_candidates h hloops).mpr ⟨hother, fun hreach => hnot ?_⟩
        rcases Sym2.eq_iff.mp hsame with ⟨hfirst, hsecond⟩ | ⟨hfirst, hsecond⟩
        · exact hfirst ▸ hsecond ▸ hreach
        · exact (hfirst ▸ hsecond ▸ hreach).symm
      have hle := List.apply_get_minOn?_le_of_mem (f := fun entry : Edge × UInt32 => entry.2.toNat)
        hlight
      simp only [hmin, Option.get_some] at hle
      rw [← hsame, Graph.weight_of_mem hother]
      exact (Graph.weight_of_mem hmem).trans_le hle
  refine ⟨hcombined, ?_⟩
  have hstill (other : Edge × UInt32) (hother : other ∈ candidates g (combineTrees trees entry.1)) :
      other ∈ candidates g trees := by
    obtain ⟨hother, hnot⟩ := (mem_candidates hcombined hloops).mp hother
    refine (mem_candidates h hloops).mpr ⟨hother, fun hreach => hnot ?_⟩
    rw [hedges]
    exact hreach.mono (edgeGraph_mono (Finset.subset_insert _ _))
  have hgone : entry ∉ candidates g (combineTrees trees entry.1) := fun hagain => by
    obtain ⟨-, hnot⟩ := (mem_candidates hcombined hloops).mp hagain
    rw [hedges] at hnot
    exact hnot (reachable_of_mem (Finset.mem_insert_self _ _))
  exact length_filter_lt hstill hcandidate hgone

/-- **The trees that are left** when no candidate is: one, and it spans the graph. -/
theorem IsForestOf.spanning (h : IsForestOf g trees)
    (hloops : ∀ entry ∈ g.entries, entry.1.first ≠ entry.1.second)
    (hdone : candidates g trees = []) : IsSpanningForest g.edges (allEdges trees) where
  subset := h.subset
  acyclic := h.acyclic
  spans u v huv := by
    refine reachable_of_forall_mem (fun a b hab => ?_) huv
    obtain ⟨entry, hmem, hsame⟩ := Graph.mem_edges.mp hab
    have hreach : (edgeGraph (allEdges trees)).Reachable entry.1.first entry.1.second := by
      by_contra hnot
      have hcandidate := (mem_candidates h hloops).mpr ⟨hmem, hnot⟩
      rw [hdone] at hcandidate
      cases hcandidate
    rcases Sym2.eq_iff.mp hsame with ⟨rfl, rfl⟩ | ⟨rfl, rfl⟩
    · exact hreach
    · exact hreach.symm

/-- **One tree is left** of a graph that is connected. -/
theorem IsForestOf.eq_singleton (h : IsForestOf g trees)
    (hloops : ∀ entry ∈ g.entries, entry.1.first ≠ entry.1.second) (hne : g.entries ≠ [])
    (hconnected : ∀ u ∈ ends g.edges, ∀ v ∈ ends g.edges, (edgeGraph g.edges).Reachable u v)
    (hdone : candidates g trees = []) : ∃ t, trees = [t] := by
  have hspanning := h.spanning hloops hdone
  match trees with
  | [] =>
    obtain ⟨entry, hmem⟩ := exists_mem_of_ne_nil g.entries hne
    have hreach := hspanning.spans entry.1.first entry.1.second
      (reachable_of_mem (Graph.mem_edges.mpr ⟨entry, hmem, rfl⟩))
    rcases h.forest.reachable_iff.mp hreach with heq | ⟨t, ht, -⟩
    · exact absurd heq (hloops entry hmem)
    · cases ht
  | [t] => exact ⟨t, rfl⟩
  | t :: t' :: rest =>
    have hend (s : Tree) (hs : s ∈ t :: t' :: rest) : ∃ x ∈ ends s, x ∈ ends g.edges := by
      obtain ⟨e, he⟩ := h.forest.nonempty s hs
      induction e with
      | _ x y =>
        exact ⟨x, (mem_ends_of_mem he).1,
          (mem_ends_of_mem (h.subset (subset_allEdges hs he))).1⟩
    have ht' : t' ∈ t :: t' :: rest := mem_cons_of_mem _ mem_cons_self
    obtain ⟨x, hx, hxg⟩ := hend t mem_cons_self
    obtain ⟨y, hy, hyg⟩ := hend t' ht'
    have hdisjoint := (List.pairwise_cons.mp h.forest.disjoint).1 t' mem_cons_self
    have hreach := hspanning.spans x y (hconnected x hxg y hyg)
    rcases h.forest.reachable_iff.mp hreach with rfl | ⟨s, hs, hxs, hys⟩
    · exact absurd hy (Set.disjoint_left.mp hdisjoint hx)
    · obtain rfl := h.forest.eq_of_mem_ends hs mem_cons_self hxs hx
      exact absurd hy (Set.disjoint_left.mp hdisjoint hys)

/-! ### The tree that is returned -/

/-- **The lightest spanning tree.** For a connected graph with an edge and without self-loops, the
loop ends after as many rounds as edges at most with a tree on all vertices, and none is lighter. -/
theorem minSpanningTree_lightest (g : Graph) (hne : g.entries ≠ [])
    (hloops : ∀ entry ∈ g.entries, entry.1.first ≠ entry.1.second)
    (hconnected : ∀ u ∈ ends g.edges, ∀ v ∈ ends g.edges, (edgeGraph g.edges).Reachable u v)
    {bound : ℕ} (hbound : g.entries.length < bound) :
    ∃ t, minSpanningTree bound g = some t ∧ t ⊆ g.edges ∧ IsTreeOn (ends g.edges) t ∧
      ∀ t' ⊆ g.edges, IsTreeOn (ends g.edges) t' → ∑ e ∈ t, g.weight e ≤ ∑ e ∈ t', g.weight e := by
  have hdiag : ∀ e ∈ g.edges, ¬ e.IsDiag := by
    intro e he
    obtain ⟨entry, hmem, rfl⟩ := Graph.mem_edges.mp he
    exact hloops entry hmem
  refine loop_spec (I := IsForestOf g) (fun trees => (candidates g trees).length) ?_
    (isForestOf_nil g) (Nat.lt_of_le_of_lt (length_filter_le _ _) hbound)
  intro trees h
  rw [round]
  cases hmin : (candidates g trees).minOn? fun entry => entry.2.toNat with
  | some entry =>
    obtain ⟨hcombined, hless⟩ := h.combine hloops hmin
    exact .inl ⟨_, rfl, hcombined, hless⟩
  | none =>
    have hdone : candidates g trees = [] := by
      by_contra hsome
      have hfound := (List.isSome_minOn?_iff (f := fun entry : Edge × UInt32 => entry.2.toNat)).mpr
        hsome
      rw [hmin] at hfound
      cases hfound
    obtain ⟨t, rfl⟩ := h.eq_singleton hloops hne hconnected hdone
    have hedges : allEdges [t] = t := by simp [allEdges]
    have hspanning := h.spanning hloops hdone
    have hpromising := h.promising
    rw [hedges] at hspanning hpromising
    refine .inr ⟨t, rfl, hspanning.subset, hspanning.isTreeOn hdiag hconnected, ?_⟩
    intro t' hsub ht'
    exact hpromising.weight_le (ht'.isSpanningForest hsub)

/-- Three edges between three vertices. -/
def triangle : Graph where
  entries := [(⟨2, 1⟩, 5), (⟨2, 3⟩, 6), (⟨3, 1⟩, 6)]
  nodup := by decide

theorem minSpanningTree_triangle :
    ∃ t, minSpanningTree 4 triangle = some t ∧ t ⊆ triangle.edges ∧
      IsTreeOn (ends triangle.edges) t ∧ ∀ t' ⊆ triangle.edges,
        IsTreeOn (ends triangle.edges) t' →
          ∑ e ∈ t, triangle.weight e ≤ ∑ e ∈ t', triangle.weight e := by
  have hone : (edgeGraph triangle.edges).Reachable 2 1 := reachable_of_mem (by decide)
  have hthree : (edgeGraph triangle.edges).Reachable 2 3 := reachable_of_mem (by decide)
  have hhub : ∀ u ∈ ends triangle.edges, (edgeGraph triangle.edges).Reachable 2 u := by
    rintro u ⟨e, he, hu⟩
    obtain ⟨entry, hmem, rfl⟩ := Graph.mem_edges.mp he
    have hvertex : u = 2 ∨ u = 1 ∨ u = 3 := by
      simp only [triangle, mem_cons, not_mem_nil, or_false] at hmem
      rcases hmem with rfl | rfl | rfl
      all_goals
        rcases Sym2.mem_iff.mp hu with rfl | rfl <;> decide
    rcases hvertex with rfl | rfl | rfl
    · exact .refl 2
    · exact hone
    · exact hthree
  exact minSpanningTree_lightest triangle (by decide) (by decide)
    (fun u hu v hv => (hhub u hu).symm.trans (hhub v hv)) (by decide)

end RustExample.MinimumSpanningTree
