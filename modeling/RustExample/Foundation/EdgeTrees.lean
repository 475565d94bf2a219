import Mathlib.Combinatorics.SimpleGraph.Acyclic
import Mathlib.Order.CompletePartialOrder

/-!
# Trees as sets of edges

A finite set of edges is a graph on all vertices. It is a tree on some of them if its edges join
distinct ones of these, and connect them without a cycle.
-/

namespace RustExample

variable {V : Type*}

/-! ### The graph of a set of edges -/

/-- The edges as a graph. -/
def edgeGraph (F : Finset (Sym2 V)) : SimpleGraph V := SimpleGraph.fromEdgeSet (F : Set (Sym2 V))

/-- The ends of the edges. -/
def ends (F : Finset (Sym2 V)) : Set V := {v | ∃ e ∈ F, v ∈ e}

variable {F F' : Finset (Sym2 V)} {u v : V}

theorem edgeGraph_adj : (edgeGraph F).Adj u v ↔ s(u, v) ∈ F ∧ u ≠ v :=
  SimpleGraph.fromEdgeSet_adj _

theorem edgeGraph_mono (h : F ⊆ F') : edgeGraph F ≤ edgeGraph F' :=
  SimpleGraph.fromEdgeSet_mono (Finset.coe_subset.mpr h)

theorem reachable_of_mem (h : s(u, v) ∈ F) : (edgeGraph F).Reachable u v := by
  by_cases huv : u = v
  · exact huv ▸ SimpleGraph.Reachable.refl u
  · exact SimpleGraph.Adj.reachable (edgeGraph_adj.mpr ⟨h, huv⟩)

theorem mem_ends_of_mem (h : s(u, v) ∈ F) : u ∈ ends F ∧ v ∈ ends F :=
  ⟨⟨_, h, Sym2.mem_mk_left u v⟩, ⟨_, h, Sym2.mem_mk_right u v⟩⟩

/-- **A map that connects the images of the ends of all edges** connects the images of what the
edges connect. -/
theorem reachable_map_of_forall_mem {W : Type*} {G : SimpleGraph W} (f : V → W)
    (h : ∀ a b, s(a, b) ∈ F → G.Reachable (f a) (f b)) (huv : (edgeGraph F).Reachable u v) :
    G.Reachable (f u) (f v) := by
  obtain ⟨p⟩ := huv
  induction p with
  | nil => exact .refl _
  | cons hadj p ih => exact (h _ _ (edgeGraph_adj.mp hadj).1).trans ih

/-- A graph that connects the ends of all edges connects what the edges connect. -/
theorem reachable_of_forall_mem {G : SimpleGraph V}
    (h : ∀ a b, s(a, b) ∈ F → G.Reachable a b) (huv : (edgeGraph F).Reachable u v) :
    G.Reachable u v := reachable_map_of_forall_mem id h huv

/-- Vertices that are connected and distinct are end points. -/
theorem mem_ends_of_reachable (h : (edgeGraph F).Reachable u v) (hne : u ≠ v) : u ∈ ends F := by
  obtain ⟨p⟩ := h
  cases p with
  | nil => exact absurd rfl hne
  | cons hadj p => exact (mem_ends_of_mem (edgeGraph_adj.mp hadj).1).1

section Insert

variable [DecidableEq V]

theorem edgeGraph_insert (F : Finset (Sym2 V)) (u v : V) :
    edgeGraph (insert s(u, v) F) = edgeGraph F ⊔ SimpleGraph.edge u v := by
  rw [edgeGraph, Finset.coe_insert, Set.insert_eq, Set.union_comm, SimpleGraph.fromEdgeSet_union]
  rfl

theorem edgeGraph_erase (F : Finset (Sym2 V)) (e : Sym2 V) :
    edgeGraph (F.erase e) = (edgeGraph F).deleteEdges {e} := by
  rw [edgeGraph, edgeGraph, SimpleGraph.deleteEdges_fromEdgeSet, Finset.coe_erase]

/-- **An edge between vertices that are not connected** closes no cycle. -/
theorem acyclic_insert (h : (edgeGraph F).IsAcyclic) (huv : ¬ (edgeGraph F).Reachable u v) :
    (edgeGraph (insert s(u, v) F)).IsAcyclic := by
  rw [edgeGraph_insert]
  exact h.sup_edge_of_not_reachable huv

/-- An edge of a set without a cycle is the only connection of its ends. -/
theorem not_reachable_erase (h : (edgeGraph F).IsAcyclic) (hmem : s(u, v) ∈ F) (hne : u ≠ v) :
    ¬ (edgeGraph (F.erase s(u, v))).Reachable u v := by
  rw [edgeGraph_erase]
  exact SimpleGraph.isAcyclic_iff_forall_adj_isBridge.mp h (edgeGraph_adj.mpr ⟨hmem, hne⟩)

end Insert

/-! ### Trees -/

/-- The edges join distinct vertices of a set, and connect them without a cycle. -/
structure IsTreeOn (S : Set V) (F : Finset (Sym2 V)) : Prop where
  within : ∀ e ∈ F, ¬ e.IsDiag ∧ ∀ v ∈ e, v ∈ S
  acyclic : (edgeGraph F).IsAcyclic
  connects : ∀ u ∈ S, ∀ v ∈ S, (edgeGraph F).Reachable u v

theorem IsTreeOn.singleton (v : V) : IsTreeOn {v} (∅ : Finset (Sym2 V)) where
  within := nofun
  acyclic := by
    have hbot : edgeGraph (∅ : Finset (Sym2 V)) = ⊥ := by simp [edgeGraph]
    rw [hbot]
    exact SimpleGraph.isAcyclic_bot
  connects := by
    rintro u rfl w rfl
    exact .refl w

/-- A vertex of a tree has an edge, if there is another vertex. -/
theorem IsTreeOn.mem_ends {S : Set V} (h : IsTreeOn S F) (hu : u ∈ S) (hv : v ∈ S) (hne : u ≠ v) :
    u ∈ ends F := mem_ends_of_reachable (h.connects u hu v hv) hne

theorem IsTreeOn.ends_subset {S : Set V} (h : IsTreeOn S F) : ends F ⊆ S := by
  rintro v ⟨e, he, hv⟩
  exact (h.within e he).2 v hv

/-! ### Leaves -/

/-- The only edge of `v` is the one to `u`. -/
structure HangsOn (F : Finset (Sym2 V)) (v u : V) : Prop where
  mem : s(u, v) ∈ F
  eq_of_mem : ∀ e ∈ F, v ∈ e → e = s(u, v)

/-- The vertex has one edge. -/
def IsLeaf (F : Finset (Sym2 V)) (v : V) : Prop := ∃ u, HangsOn F v u

section Leaves

variable [DecidableEq V] {S : Set V}

/-- **A new leaf.** -/
theorem IsTreeOn.insert_leaf (h : IsTreeOn S F) (hu : u ∈ S) (hv : v ∉ S) :
    IsTreeOn (insert v S) (insert s(u, v) F) where
  within e he := by
    rcases Finset.mem_insert.mp he with rfl | he
    · refine ⟨fun hdiag => hv (Sym2.mk_isDiag_iff.mp hdiag ▸ hu), fun x hx => ?_⟩
      rcases Sym2.mem_iff.mp hx with rfl | rfl
      · exact Set.mem_insert_of_mem _ hu
      · exact Set.mem_insert _ _
    · exact ⟨(h.within e he).1, fun x hx => Set.mem_insert_of_mem _ ((h.within e he).2 x hx)⟩
  acyclic := by
    refine acyclic_insert h.acyclic fun hreach => hv ?_
    exact h.ends_subset (mem_ends_of_reachable hreach.symm fun heq => hv (heq ▸ hu))
  connects := by
    have hhub : ∀ x ∈ insert v S, (edgeGraph (insert s(u, v) F)).Reachable u x := by
      rintro x (rfl | hx)
      · exact reachable_of_mem (Finset.mem_insert_self _ _)
      · exact (h.connects u hu x hx).mono (edgeGraph_mono (Finset.subset_insert _ _))
    exact fun x hx y hy => (hhub x hx).symm.trans (hhub y hy)

/-- **A leaf may be removed.** -/
theorem IsTreeOn.erase_leaf (h : IsTreeOn S F) (hleaf : HangsOn F v u) :
    IsTreeOn (S \ {v}) (F.erase s(u, v)) where
  within e he := by
    obtain ⟨hne, he⟩ := Finset.mem_erase.mp he
    refine ⟨(h.within e he).1, fun x hx => ⟨(h.within e he).2 x hx, fun heq => hne ?_⟩⟩
    exact hleaf.eq_of_mem e he (Set.mem_singleton_iff.mp heq ▸ hx)
  acyclic := h.acyclic.anti (edgeGraph_mono (Finset.erase_subset _ F))
  connects x hx y hy := by
    -- the leaf is moved to its neighbour
    have hmap := reachable_map_of_forall_mem (G := edgeGraph (F.erase s(u, v)))
      (fun x => if x = v then u else x) (fun a b hab => ?_) (h.connects x hx.1 y hy.1)
    · have hxv : x ≠ v := hx.2
      have hyv : y ≠ v := hy.2
      rwa [if_neg hxv, if_neg hyv] at hmap
    · have huv : u ≠ v := fun heq =>
        (h.within _ hleaf.mem).1 (Sym2.mk_isDiag_iff.mpr heq)
      by_cases heq : s(a, b) = s(u, v)
      · rcases Sym2.eq_iff.mp heq with ⟨rfl, rfl⟩ | ⟨rfl, rfl⟩
        · rw [if_neg huv, if_pos rfl]
        · rw [if_neg huv, if_pos rfl]
      · have ha : a ≠ v := fun ha => heq (hleaf.eq_of_mem _ hab (ha ▸ Sym2.mem_mk_left a b))
        have hb : b ≠ v := fun hb => heq (hleaf.eq_of_mem _ hab (hb ▸ Sym2.mem_mk_right a b))
        rw [if_neg ha, if_neg hb]
        exact reachable_of_mem (Finset.mem_erase.mpr ⟨heq, hab⟩)

end Leaves

/-- **A tree has a leaf**, if it has two vertices. -/
theorem IsTreeOn.exists_leaf {S : Finset V} (h : IsTreeOn (S : Set V) F) (hcard : 2 ≤ S.card) :
    ∃ v ∈ S, IsLeaf F v := by
  classical
  have hreach (a b : V) (p : (edgeGraph F).Walk a b) (ha : a ∈ S) :
      ∃ hb : b ∈ S, ((edgeGraph F).induce (S : Set V)).Reachable ⟨a, ha⟩ ⟨b, hb⟩ := by
    induction p with
    | nil => exact ⟨ha, .refl _⟩
    | @cons a c b hadj p ih =>
      have hc : c ∈ S := h.ends_subset (mem_ends_of_mem (edgeGraph_adj.mp hadj).1).2
      obtain ⟨hb, hcb⟩ := ih hc
      exact ⟨hb, (SimpleGraph.Adj.reachable (SimpleGraph.comap_adj.mpr hadj)).trans hcb⟩
  have hnontrivial : Nontrivial S := by
    rw [← Fintype.one_lt_card_iff_nontrivial, Fintype.card_coe]
    omega
  have htree : ((edgeGraph F).induce (S : Set V)).IsTree := by
    refine ⟨?_, h.acyclic.induce _⟩
    refine SimpleGraph.connected_iff _ |>.mpr ⟨fun a b => ?_, inferInstance⟩
    obtain ⟨p⟩ := h.connects a a.2 b b.2
    exact (hreach a b p a.2).2
  obtain ⟨v, hv⟩ := htree.exists_vert_degree_one_of_nontrivial
  obtain ⟨u, hadj, hunique⟩ := SimpleGraph.degree_eq_one_iff_existsUnique_adj.mp hv
  refine ⟨v, v.2, u, ⟨?_, fun e he hve => ?_⟩⟩
  · rw [Sym2.eq_swap]
    exact (edgeGraph_adj.mp hadj).1
  · obtain ⟨x, rfl⟩ := Sym2.mem_iff_exists.mp hve
    have hx : x ∈ S := (h.within _ he).2 x (Sym2.mem_mk_right _ x)
    have hne : (v : V) ≠ x := fun heq => (h.within _ he).1 (Sym2.mk_isDiag_iff.mpr heq)
    have hsame := hunique ⟨x, hx⟩ (SimpleGraph.comap_adj.mpr (edgeGraph_adj.mpr ⟨he, hne⟩))
    rw [← hsame]
    exact Sym2.eq_swap

end RustExample
