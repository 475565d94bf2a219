import Mathlib.Data.Sym.Sym2.Order
import RustExample.Foundation.EdgeTrees

/-!
# Forests of edges and lightest spanning forests

A forest is kept as a list of sets of edges without common vertices, each of which connects its
own vertices. A new edge joins the sets that it touches.

A spanning forest of a set of edges connects what the edges connect, without a cycle. Edges that
are chosen greedily, each the lightest of those that join two components, are part of a spanning
forest that is no heavier than a given one.
-/

namespace RustExample

open List

section Forests

variable {V : Type*} [DecidableEq V] {trees trees' : List (Finset (Sym2 V))}
  {t t' : Finset (Sym2 V)} {u v x : V}

/-- The edges of all trees. -/
def allEdges (trees : List (Finset (Sym2 V))) : Finset (Sym2 V) := trees.foldr (· ∪ ·) ∅

theorem mem_allEdges {e : Sym2 V} : e ∈ allEdges trees ↔ ∃ t ∈ trees, e ∈ t := by
  induction trees with
  | nil => simp [allEdges]
  | cons t trees ih =>
    rw [allEdges, foldr_cons, Finset.mem_union, exists_mem_cons_iff]
    exact or_congr_right ih

theorem subset_allEdges (h : t ∈ trees) : t ⊆ allEdges trees :=
  fun _ he => mem_allEdges.mpr ⟨t, h, he⟩

theorem mem_ends_allEdges : x ∈ ends (allEdges trees) ↔ ∃ t ∈ trees, x ∈ ends t := by
  constructor
  · rintro ⟨e, he, hx⟩
    obtain ⟨t, ht, he⟩ := mem_allEdges.mp he
    exact ⟨t, ht, e, he, hx⟩
  · rintro ⟨t, ht, e, he, hx⟩
    exact ⟨e, mem_allEdges.mpr ⟨t, ht, he⟩, hx⟩

theorem allEdges_perm (h : trees.Perm trees') : allEdges trees = allEdges trees' := by
  ext e
  simp only [mem_allEdges, h.mem_iff]

/-- A vertex is the end of an edge. -/
def hasEnd (t : Finset (Sym2 V)) (v : V) : Bool := decide (∃ e ∈ t, v ∈ e)

theorem hasEnd_iff : hasEnd t v = true ↔ v ∈ ends t := decide_eq_true_iff

/-! ### Forests -/

/-- Sets of edges that are connected and have no common vertices. -/
structure IsEdgeForest (trees : List (Finset (Sym2 V))) : Prop where
  nonempty : ∀ t ∈ trees, t.Nonempty
  connected : ∀ t ∈ trees, ∀ u ∈ ends t, ∀ v ∈ ends t, (edgeGraph t).Reachable u v
  disjoint : trees.Pairwise fun t t' => Disjoint (ends t) (ends t')

namespace IsEdgeForest

omit [DecidableEq V] in
theorem nil : IsEdgeForest ([] : List (Finset (Sym2 V))) := ⟨nofun, nofun, .nil⟩

omit [DecidableEq V] in
theorem perm (h : IsEdgeForest trees) (hperm : trees.Perm trees') : IsEdgeForest trees' where
  nonempty t ht := h.nonempty t (hperm.mem_iff.mpr ht)
  connected t ht := h.connected t (hperm.mem_iff.mpr ht)
  disjoint := hperm.pairwise h.disjoint fun hd => hd.symm

theorem eq_of_mem_ends (h : IsEdgeForest trees) (ht : t ∈ trees) (ht' : t' ∈ trees)
    (hx : x ∈ ends t) (hx' : x ∈ ends t') : t = t' := by
  by_contra hne
  have hsymm : Std.Symm fun t t' : Finset (Sym2 V) => Disjoint (ends t) (ends t') :=
    ⟨fun _ _ hd => hd.symm⟩
  exact Set.disjoint_left.mp (h.disjoint.forall ht ht' hne) hx hx'

/-- **A forest connects** the vertices of each set with each other, and no more. -/
theorem reachable_iff (h : IsEdgeForest trees) : (edgeGraph (allEdges trees)).Reachable u v ↔
    u = v ∨ ∃ t ∈ trees, u ∈ ends t ∧ v ∈ ends t := by
  constructor
  · rintro ⟨p⟩
    induction p with
    | nil => exact .inl rfl
    | @cons a b c hadj p ih =>
      obtain ⟨t, ht, hab⟩ := mem_allEdges.mp (edgeGraph_adj.mp hadj).1
      obtain ⟨ha, hb⟩ := mem_ends_of_mem hab
      rcases ih with rfl | ⟨t', ht', hb', hc⟩
      · exact .inr ⟨t, ht, ha, hb⟩
      · obtain rfl := h.eq_of_mem_ends ht ht' hb hb'
        exact .inr ⟨t, ht, ha, hc⟩
  · rintro (rfl | ⟨t, ht, hu, hv⟩)
    · exact .refl u
    · exact (h.connected t ht u hu v hv).mono (edgeGraph_mono (subset_allEdges ht))

end IsEdgeForest

/-! ### Joining sets -/

/-- The tree has an end of an edge. -/
def touches (u v : V) (t : Finset (Sym2 V)) : Bool := hasEnd t v || hasEnd t u

theorem touches_iff : touches u v t = true ↔ v ∈ ends t ∨ u ∈ ends t := by
  rw [touches, Bool.or_eq_true, hasEnd_iff, hasEnd_iff]

/-- The edge with the sets that it touches. -/
def joinedBy (u v : V) (trees : List (Finset (Sym2 V))) : Finset (Sym2 V) :=
  insert s(u, v) (allEdges (trees.filter (touches u v)))

theorem mem_ends_joinedBy : x ∈ ends (joinedBy u v trees) ↔
    x = u ∨ x = v ∨ ∃ t ∈ trees, touches u v t = true ∧ x ∈ ends t := by
  have hends : x ∈ ends (joinedBy u v trees) ↔
      x ∈ s(u, v) ∨ x ∈ ends (allEdges (trees.filter (touches u v))) := by
    constructor
    · rintro ⟨e, he, hx⟩
      rcases Finset.mem_insert.mp he with rfl | he
      · exact .inl hx
      · exact .inr ⟨e, he, hx⟩
    · rintro (hx | ⟨e, he, hx⟩)
      · exact ⟨_, Finset.mem_insert_self _ _, hx⟩
      · exact ⟨e, Finset.mem_insert_of_mem he, hx⟩
  rw [hends, mem_ends_allEdges, Sym2.mem_iff, or_assoc]
  simp only [mem_filter, and_assoc]

/-- The other sets, and the one that was joined, have the edges of before and the new one. -/
theorem allEdges_join (u v : V) (trees : List (Finset (Sym2 V))) :
    allEdges (joinedBy u v trees :: trees.filter fun t => !touches u v t) =
      insert s(u, v) (allEdges trees) := by
  ext e
  rw [mem_allEdges, exists_mem_cons_iff, joinedBy, Finset.mem_insert, Finset.mem_insert,
    mem_allEdges, mem_allEdges, or_assoc]
  refine or_congr_right ?_
  constructor
  · rintro (⟨t, ht, he⟩ | ⟨t, ht, he⟩)
    · exact ⟨t, (List.mem_filter.mp ht).1, he⟩
    · exact ⟨t, (List.mem_filter.mp ht).1, he⟩
  · rintro ⟨t, ht, he⟩
    cases htouch : touches u v t with
    | true => exact .inl ⟨t, List.mem_filter.mpr ⟨ht, htouch⟩, he⟩
    | false => exact .inr ⟨t, List.mem_filter.mpr ⟨ht, by rw [htouch]; rfl⟩, he⟩

theorem IsEdgeForest.reachable_joinedBy (h : IsEdgeForest trees)
    (hx : x ∈ ends (joinedBy u v trees)) : (edgeGraph (joinedBy u v trees)).Reachable u x := by
  have huv : (edgeGraph (joinedBy u v trees)).Reachable u v :=
    reachable_of_mem (Finset.mem_insert_self _ _)
  rcases mem_ends_joinedBy.mp hx with rfl | rfl | ⟨t, ht, htouch, hx⟩
  · exact .refl x
  · exact huv
  · have hsub : t ⊆ joinedBy u v trees :=
      (subset_allEdges (List.mem_filter.mpr ⟨ht, htouch⟩)).trans (Finset.subset_insert _ _)
    rcases touches_iff.mp htouch with hv | hu
    · exact huv.trans ((h.connected t ht v hv x hx).mono (edgeGraph_mono hsub))
    · exact (h.connected t ht u hu x hx).mono (edgeGraph_mono hsub)

/-- **An edge joins the sets that it touches**; the others have no common vertex with it. -/
theorem IsEdgeForest.join (h : IsEdgeForest trees) (u v : V) :
    IsEdgeForest (joinedBy u v trees :: trees.filter fun t => !touches u v t) where
  nonempty t ht := by
    rcases List.mem_cons.mp ht with rfl | ht
    · exact Finset.insert_nonempty _ _
    · exact h.nonempty t (List.mem_filter.mp ht).1
  connected t ht := by
    rcases List.mem_cons.mp ht with rfl | ht
    · exact fun a ha b hb => (h.reachable_joinedBy ha).symm.trans (h.reachable_joinedBy hb)
    · exact h.connected t (List.mem_filter.mp ht).1
  disjoint := by
    refine List.pairwise_cons.mpr ⟨fun t ht => ?_, h.disjoint.filter _⟩
    obtain ⟨ht, hnot⟩ := List.mem_filter.mp ht
    refine Set.disjoint_left.mpr fun x hx hxt => ?_
    have hjoined : touches u v t = true := by
      rcases mem_ends_joinedBy.mp hx with rfl | rfl | ⟨t', ht', htouch, hx'⟩
      · exact touches_iff.mpr (.inr hxt)
      · exact touches_iff.mpr (.inl hxt)
      · exact h.eq_of_mem_ends ht ht' hxt hx' ▸ htouch
    rw [hjoined] at hnot
    cases hnot

end Forests

/-! ### Lightest spanning forests -/

section SpanningForests

variable {V : Type*} {E F M : Finset (Sym2 V)} {w : Sym2 V → ℕ} {u v : V}

/-- A set of edges that connects what all edges connect, without a cycle. -/
structure IsSpanningForest (E F : Finset (Sym2 V)) : Prop where
  subset : F ⊆ E
  acyclic : (edgeGraph F).IsAcyclic
  spans : ∀ u v, (edgeGraph E).Reachable u v → (edgeGraph F).Reachable u v

theorem IsTreeOn.isSpanningForest (h : IsTreeOn (ends E) F) (hsub : F ⊆ E) :
    IsSpanningForest E F where
  subset := hsub
  acyclic := h.acyclic
  spans u v huv := by
    by_cases hne : u = v
    · exact hne ▸ .refl u
    · exact h.connects u (mem_ends_of_reachable huv hne) v
        (mem_ends_of_reachable huv.symm (Ne.symm hne))

/-- A spanning forest of connected edges is a tree on their end points. -/
theorem IsSpanningForest.isTreeOn (h : IsSpanningForest E F) (hloops : ∀ e ∈ E, ¬ e.IsDiag)
    (hconnected : ∀ u ∈ ends E, ∀ v ∈ ends E, (edgeGraph E).Reachable u v) :
    IsTreeOn (ends E) F where
  within e he := ⟨hloops e (h.subset he), fun _ hv => ⟨e, h.subset he, hv⟩⟩
  acyclic := h.acyclic
  connects u hu v hv := h.spans u v (hconnected u hu v hv)

/-- Every spanning forest may be exchanged for one that contains the edges and is no heavier. -/
def Promising (w : Sym2 V → ℕ) (E F : Finset (Sym2 V)) : Prop :=
  ∀ M, IsSpanningForest E M → ∃ M', IsSpanningForest E M' ∧ F ⊆ M' ∧ ∑ e ∈ M', w e ≤ ∑ e ∈ M, w e

theorem promising_empty : Promising w E ∅ :=
  fun M hM => ⟨M, hM, Finset.empty_subset M, Nat.le_refl _⟩

/-- **Promising edges that span** are no heavier than any spanning forest. -/
theorem Promising.weight_le (h : Promising w E F) (hM : IsSpanningForest E M) :
    ∑ e ∈ F, w e ≤ ∑ e ∈ M, w e := by
  obtain ⟨M', -, hsub, hle⟩ := h M hM
  exact Nat.le_trans (Finset.sum_le_sum_of_subset hsub) hle

section Exchange

variable [DecidableEq V]

/-- **Exchange**: the edge of a path that leaves a set may be replaced by one between its ends. -/
theorem exists_exchange (hM : (edgeGraph M).IsAcyclic) (huv : (edgeGraph M).Reachable u v)
    {S : Set V} (hu : u ∈ S) (hv : v ∉ S) :
    ∃ a b, s(a, b) ∈ M ∧ a ∈ S ∧ b ∉ S ∧
      (edgeGraph (insert s(u, v) (M.erase s(a, b)))).IsAcyclic ∧
      ∀ x y, (edgeGraph M).Reachable x y →
        (edgeGraph (insert s(u, v) (M.erase s(a, b)))).Reachable x y := by
  obtain ⟨p, hp⟩ := huv.exists_isPath
  obtain ⟨⟨⟨a, b⟩, hadj⟩, hmem, ha, hb⟩ := p.exists_boundary_dart S hu hv
  obtain ⟨q, r, hqr⟩ := (SimpleGraph.Walk.isSubwalk_toWalk_adj_iff_mem_darts p).mpr hmem
  have hab := edgeGraph_adj.mp hadj
  -- the two rests of the path do not use the edge
  have hedges : p.edges = q.edges ++ s(a, b) :: r.edges := by
    rw [hqr, SimpleGraph.Walk.edges_append, SimpleGraph.Walk.edges_append]
    simp
  have hnodup := hp.isTrail.edges_nodup
  rw [hedges, nodup_append, nodup_cons] at hnodup
  have hq : s(a, b) ∉ q.edges := fun h => hnodup.2.2 _ h _ mem_cons_self rfl
  have hua : (edgeGraph (M.erase s(a, b))).Reachable u a := by
    rw [edgeGraph_erase]
    exact (q.toDeleteEdge _ hq).reachable
  have hbv : (edgeGraph (M.erase s(a, b))).Reachable b v := by
    rw [edgeGraph_erase]
    exact (r.toDeleteEdge _ hnodup.2.1.1).reachable
  refine ⟨a, b, hab.1, ha, hb, ?_, ?_⟩
  · refine acyclic_insert (hM.anti (edgeGraph_mono (Finset.erase_subset _ M))) fun huv' => ?_
    exact not_reachable_erase hM hab.1 hab.2 (hua.symm.trans (huv'.trans hbv.symm))
  · intro x y hxy
    have hmono : edgeGraph (M.erase s(a, b)) ≤ edgeGraph (insert s(u, v) (M.erase s(a, b))) :=
      edgeGraph_mono (Finset.subset_insert _ _)
    have hnew : (edgeGraph (insert s(u, v) (M.erase s(a, b)))).Reachable u v :=
      reachable_of_mem (Finset.mem_insert_self _ _)
    refine reachable_of_forall_mem (fun c d hcd => ?_) hxy
    by_cases heq : s(c, d) = s(a, b)
    · have hab' := (hua.mono hmono).symm.trans (hnew.trans (hbv.mono hmono).symm)
      rcases Sym2.eq_iff.mp heq with ⟨rfl, rfl⟩ | ⟨rfl, rfl⟩
      · exact hab'
      · exact hab'.symm
    · exact (reachable_of_mem (Finset.mem_erase.mpr ⟨heq, hcd⟩)).mono hmono

/-- **The greedy choice**: the lightest edge between two components keeps the edges promising. -/
theorem Promising.insert (h : Promising w E F) (hmem : s(u, v) ∈ E)
    (huv : ¬ (edgeGraph F).Reachable u v)
    (hlightest : ∀ a b, s(a, b) ∈ E → ¬ (edgeGraph F).Reachable a b → w s(u, v) ≤ w s(a, b)) :
    Promising w E (insert s(u, v) F) := by
  intro M hM
  obtain ⟨M, hM, hsub, hle⟩ := h M hM
  have hreach : (edgeGraph M).Reachable u v := hM.spans u v (reachable_of_mem hmem)
  -- the cut is the component of `u` among the edges that were chosen
  obtain ⟨a, b, hab, ha, hb, hacyclic, hspans⟩ := exists_exchange hM.acyclic hreach
    (S := {x | (edgeGraph F).Reachable u x}) (SimpleGraph.Reachable.refl u) huv
  have hcross : ¬ (edgeGraph F).Reachable a b :=
    fun hab' => hb (SimpleGraph.Reachable.trans ha hab')
  refine ⟨_, ⟨?_, hacyclic, fun x y hxy => hspans x y (hM.spans x y hxy)⟩, ?_, ?_⟩
  · exact Finset.insert_subset hmem ((Finset.erase_subset _ M).trans hM.subset)
  · refine Finset.insert_subset_insert _ fun e he => Finset.mem_erase.mpr ⟨?_, hsub he⟩
    rintro rfl
    exact hcross (reachable_of_mem he)
  · have hsum := Finset.add_sum_erase M w hab
    have hweight := hlightest a b (hM.subset hab) hcross
    have hinsert : ∑ e ∈ Insert.insert s(u, v) (M.erase s(a, b)), w e ≤
        w s(u, v) + ∑ e ∈ M.erase s(a, b), w e := by
      by_cases hold : s(u, v) ∈ M.erase s(a, b)
      · rw [Finset.insert_eq_of_mem hold]
        exact Nat.le_add_left _ _
      · rw [Finset.sum_insert hold]
    omega

end Exchange

end SpanningForests

end RustExample
