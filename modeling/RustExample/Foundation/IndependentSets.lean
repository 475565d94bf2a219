import Mathlib.Combinatorics.SimpleGraph.Clique

/-!
# Independent sets by branching

An independent set of the part of a graph on some vertices is found by choosing a vertex, and going
on without it and its neighbours. Every choice leads to a maximal independent set, and the best of
all choices to a greatest one.
-/

namespace RustExample

variable {α : Type*} {G : SimpleGraph α} {V V' S T : Finset α} {v : α}

/-- An independent set of the part on `V` with the greatest number of vertices. -/
structure IsMaximumOn (G : SimpleGraph α) (V S : Finset α) : Prop where
  subset : S ⊆ V
  independent : G.IsIndepSet S
  card_le : ∀ T ⊆ V, G.IsIndepSet T → T.card ≤ S.card

/-- An independent set of the part on `V` to which no further vertex can be added. -/
structure IsMaximalOn (G : SimpleGraph α) (V S : Finset α) : Prop where
  subset : S ⊆ V
  independent : G.IsIndepSet S
  exists_adj : ∀ v ∈ V, v ∉ S → ∃ w ∈ S, G.Adj v w

/-- What is left of `V` without `v` and its neighbours. -/
def IsRest (G : SimpleGraph α) (V : Finset α) (v : α) (V' : Finset α) : Prop :=
  ∀ w, w ∈ V' ↔ w ∈ V ∧ w ≠ v ∧ ¬G.Adj v w

theorem IsMaximumOn.empty (G : SimpleGraph α) : IsMaximumOn G ∅ ∅ :=
  ⟨subset_rfl, by simp [SimpleGraph.isIndepSet_iff], fun _ hT _ => Finset.card_le_card hT⟩

theorem IsMaximalOn.empty (G : SimpleGraph α) : IsMaximalOn G ∅ ∅ :=
  ⟨subset_rfl, by simp [SimpleGraph.isIndepSet_iff], fun v hv => absurd hv (Finset.notMem_empty v)⟩

namespace IsRest

theorem notMem (h : IsRest G V v V') : v ∉ V' := fun hv => ((h v).mp hv).2.1 rfl

theorem subset (h : IsRest G V v V') : V' ⊆ V := fun w hw => ((h w).mp hw).1

theorem card_lt (h : IsRest G V v V') (hv : v ∈ V) : V'.card < V.card :=
  Finset.card_lt_card (Finset.ssubset_iff_of_subset h.subset |>.mpr ⟨v, hv, h.notMem⟩)

variable [DecidableEq α]

theorem isIndepSet_insert (h : IsRest G V v V') (hT : T ⊆ V') (hind : G.IsIndepSet T) :
    G.IsIndepSet (insert v T : Finset α) := by
  rw [SimpleGraph.isIndepSet_iff, Finset.coe_insert, Set.pairwise_insert]
  refine ⟨hind, fun w hw _ => ?_⟩
  have hnot := ((h w).mp (hT hw)).2.2
  exact ⟨hnot, fun hadj => hnot hadj.symm⟩

theorem insert_subset (h : IsRest G V v V') (hv : v ∈ V) (hT : T ⊆ V') : insert v T ⊆ V :=
  Finset.insert_subset hv (hT.trans h.subset)

theorem card_insert (h : IsRest G V v V') (hT : T ⊆ V') : (insert v T).card = T.card + 1 :=
  Finset.card_insert_of_notMem fun hv => h.notMem (hT hv)

/-- **The best of a choice**: without the chosen vertex, an independent set is one of the rest. -/
theorem card_le (h : IsRest G V v V') (hT : IsMaximumOn G V' T) (hS : S ⊆ V)
    (hind : G.IsIndepSet S) (hv : v ∈ S) : S.card ≤ (insert v T).card := by
  have herase : S.erase v ⊆ V' := by
    intro w hw
    obtain ⟨hne, hw⟩ := Finset.mem_erase.mp hw
    exact (h w).mpr ⟨hS hw, hne, hind (Finset.mem_coe.mpr hv) (Finset.mem_coe.mpr hw) hne.symm⟩
  have hle := hT.card_le (S.erase v) herase (hind.mono (Finset.coe_subset.mpr (S.erase_subset v)))
  have hcard := Finset.card_erase_add_one hv
  rw [h.card_insert hT.subset]
  omega

/-- **A maximal set of the rest** is one of the whole, with the chosen vertex. -/
theorem isMaximalOn (h : IsRest G V v V') (hv : v ∈ V) (hT : IsMaximalOn G V' T) :
    IsMaximalOn G V (insert v T) := by
  refine ⟨h.insert_subset hv hT.subset, h.isIndepSet_insert hT.subset hT.independent,
    fun w hw hnot => ?_⟩
  rw [Finset.mem_insert, not_or] at hnot
  by_cases hadj : G.Adj v w
  · exact ⟨v, Finset.mem_insert_self v T, hadj.symm⟩
  · obtain ⟨u, hu, hwu⟩ := hT.exists_adj w ((h w).mpr ⟨hw, hnot.1, hadj⟩) hnot.2
    exact ⟨u, Finset.mem_insert_of_mem hu, hwu⟩

end IsRest

end RustExample
