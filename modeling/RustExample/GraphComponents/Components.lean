import Mathlib.Data.Finset.Sort
import RustExample.Foundation.KeyStore
import RustExample.Foundation.Loops

/-!
# Connected components of a graph

A component is filled from a vertex that was not reached yet. The vertex is entered with its
neighbours, and as long as one of these was not reached, the component is filled from it too. All
calls share the set of the vertices that were not reached.

Source: `graph_data_structure_example/src/main.rs`.

* A failing `unwrap` is `none`. A recursion takes a bound on its depth, and is `none` where the
  bound is too small.
* Which member of a hash set comes first is open, and may be another one at every choice: see
  `Iteration`. A choice is known by the vertices that were not reached before it, since every
  choice is followed by the removal of the vertex that was chosen.
* `u32` is a natural number.
-/

namespace RustExample.GraphComponents

/-! ### The operations -/

/-- The neighbours of each vertex. -/
abbrev Graph := KeyStore ℕ (Finset ℕ)

/-- Which member of a hash set comes first, when the vertices `nonChecked` were not reached. -/
structure Iteration where
  first : Finset ℕ → Finset ℕ → Option ℕ
  exists_first : ∀ nonChecked s, s.Nonempty → ∃ v ∈ s, first nonChecked s = some v

/-- Every set in ascending order. -/
instance : Inhabited Iteration where
  default :=
    { first _ s := s.sort.head?
      exists_first _ s hs := by
        obtain ⟨v, hv⟩ := hs
        have hne : s.sort ≠ [] := List.ne_nil_of_mem ((Finset.mem_sort _).mpr hv)
        exact ⟨s.sort.head hne, (Finset.mem_sort _).mp (List.head_mem hne),
          List.head?_eq_some_head hne⟩ }

/-- Enters a vertex with its neighbours. -/
def addConnectionsToComponent (v : ℕ) (component g : Graph) (nonChecked : Finset ℕ) :
    Option (Graph × Finset ℕ) := do
  let neighbors ← g[v]?
  some (component.insert v neighbors, nonChecked.erase v)

namespace Iteration

/-- A round of the loop of `fill_component`, where `fill` is the call for a neighbour. -/
def fillRound (it : Iteration) (neighbors : Finset ℕ)
    (fill : ℕ → Graph × Finset ℕ → Option (Graph × Finset ℕ)) :
    Graph × Finset ℕ → Option (Round (Graph × Finset ℕ) (Graph × Finset ℕ))
  | (component, nonChecked) =>
    if Disjoint neighbors nonChecked then some (.done (component, nonChecked))
    else do
      let nv ← it.first nonChecked (neighbors ∩ nonChecked)
      some (.again (← fill nv (component, nonChecked)))

/-- Enters all that is reached from a vertex. -/
def fillComponent (it : Iteration) (g : Graph) :
    ℕ → ℕ → Graph × Finset ℕ → Option (Graph × Finset ℕ)
  | 0, _, _ => none
  | depth + 1, v, (component, nonChecked) => do
    let (component, nonChecked) ← addConnectionsToComponent v component g nonChecked
    let neighbors ← g[v]?
    loop (it.fillRound neighbors (it.fillComponent g depth)) (nonChecked.card + 1)
      (component, nonChecked)

/-- A round of the loop of `connected_components`. -/
def componentRound (it : Iteration) (g : Graph) :
    List Graph × Finset ℕ → Option (Round (List Graph × Finset ℕ) (List Graph))
  | (res, nonChecked) =>
    if 0 < nonChecked.card then do
      let v ← it.first nonChecked nonChecked
      let (component, nonChecked) ← it.fillComponent g (nonChecked.card + 1) v (∅, nonChecked)
      some (.again (res ++ [component], nonChecked))
    else some (.done res)

/-- The components of a graph. -/
def connectedComponents (it : Iteration) (g : Graph) : Option (List Graph) :=
  loop (it.componentRound g) (g.keys.length + 1) ([], g.keys.toFinset)

end Iteration

/-! ### What a call adds -/

/-- `w` is a neighbour of `v`. -/
def Adjacent (g : Graph) (v w : ℕ) : Prop := ∃ neighbors, g[v]? = some neighbors ∧ w ∈ neighbors

/-- Neighbours are symmetric, and all of them are keys. -/
structure IsUndirected (g : Graph) : Prop where
  symm : ∀ v w, Adjacent g v w → Adjacent g w v
  mem : ∀ v w, Adjacent g v w → w ∈ g

/-- There is a path from `v` to `w`. -/
def Reaches (g : Graph) : ℕ → ℕ → Prop := Relation.ReflTransGen (Adjacent g)

/-- From the vertices `nonChecked`, `added` were entered: `v` is one of them, they are reached from
it, and no neighbours are left but those of vertices not done yet. -/
structure Filled (g : Graph) (pending : Set ℕ) (v : ℕ) (component : Graph)
    (nonChecked added : Finset ℕ) (component' : Graph) (nonChecked' : Finset ℕ) : Prop where
  mem : v ∈ added
  subset : added ⊆ nonChecked
  rest : nonChecked' = nonChecked \ added
  reaches : ∀ w ∈ added, Reaches g v w
  closed : ∀ w ∈ added, w ∉ pending → ∀ u, Adjacent g w u → u ∉ nonChecked'
  get : ∀ w, component'[w]? = if w ∈ added then g[w]? else component[w]?

variable {it : Iteration} {g component component' component₂ : Graph}
  {nonChecked added nonChecked' added₂ nonChecked₂ neighbors : Finset ℕ} {v w nv depth : ℕ}

namespace Filled

theorem rest_subset {pending : Set ℕ}
    (h : Filled g pending v component nonChecked added component' nonChecked') :
    nonChecked' ⊆ nonChecked := h.rest ▸ Finset.sdiff_subset

theorem card_lt {pending : Set ℕ}
    (h : Filled g pending v component nonChecked added component' nonChecked') :
    nonChecked'.card < nonChecked.card := by
  rw [h.rest]
  exact Finset.card_lt_card (Finset.sdiff_ssubset h.subset ⟨v, h.mem⟩)

theorem start (hv : g[v]? = some neighbors) (hmem : v ∈ nonChecked) :
    Filled g {v} v component nonChecked {v} (component.insert v neighbors)
      (nonChecked.erase v) := by
  refine ⟨Finset.mem_singleton_self v, Finset.singleton_subset_iff.mpr hmem,
    Finset.erase_eq nonChecked v, fun w hw => ?_, fun w hw hne => ?_, fun w => ?_⟩
  · rw [Finset.mem_singleton.mp hw]
    exact Relation.ReflTransGen.refl
  · exact absurd (Finset.mem_singleton.mp hw) hne
  · rcases eq_or_ne w v with rfl | hne
    · rw [if_pos (Finset.mem_singleton_self w), Std.ExtTreeMap.getElem?_insert_self, hv]
    · rw [if_neg (Finset.notMem_singleton.mpr hne), Std.ExtTreeMap.getElem?_insert,
        if_neg fun hcmp => hne (Std.LawfulEqOrd.eq_of_compare hcmp).symm]

/-- **A neighbour's call** adds what it has entered. -/
theorem trans (h : Filled g {v} v component nonChecked added component' nonChecked')
    (hadj : Adjacent g v nv)
    (h₂ : Filled g ∅ nv component' nonChecked' added₂ component₂ nonChecked₂) :
    Filled g {v} v component nonChecked (added ∪ added₂) component₂ nonChecked₂ := by
  refine ⟨Finset.mem_union_left _ h.mem, Finset.union_subset h.subset
    (h₂.subset.trans h.rest_subset), ?_, fun w hw => ?_, fun w hw hne u hu => ?_, fun w => ?_⟩
  · rw [h₂.rest, h.rest, sdiff_sdiff_left, Finset.sup_eq_union]
  · rcases Finset.mem_union.mp hw with hw | hw
    · exact h.reaches w hw
    · exact (Relation.ReflTransGen.single hadj).trans (h₂.reaches w hw)
  · rcases Finset.mem_union.mp hw with hw | hw
    · exact fun hu₂ => h.closed w hw hne u hu (h₂.rest_subset hu₂)
    · exact h₂.closed w hw (Set.notMem_empty w) u hu
  · rw [h₂.get, h.get]
    by_cases hw₂ : w ∈ added₂
    · rw [if_pos hw₂, if_pos (Finset.mem_union_right _ hw₂)]
    · rw [if_neg hw₂]
      exact if_congr (by simp [hw₂]) rfl rfl

/-- **The end**: no neighbour of the vertex is left. -/
theorem done (h : Filled g {v} v component nonChecked added component' nonChecked')
    (hv : g[v]? = some neighbors) (hdisj : Disjoint neighbors nonChecked') :
    Filled g ∅ v component nonChecked added component' nonChecked' := by
  refine ⟨h.mem, h.subset, h.rest, h.reaches, fun w hw _ u hu => ?_, h.get⟩
  by_cases hwv : w = v
  · obtain ⟨neighbors', hget, hmem⟩ := hu
    rw [hwv, hv, Option.some_inj] at hget
    exact Finset.disjoint_left.mp hdisj (hget ▸ hmem)
  · exact h.closed w hw hwv u hu

end Filled

/-- **What a call adds**, if the bound exceeds the number of vertices that were not reached. -/
theorem exists_fillComponent (it : Iteration) (component : Graph) (hv : v ∈ nonChecked)
    (hkeys : ∀ w ∈ nonChecked, w ∈ g) (hdepth : nonChecked.card < depth) :
    ∃ s added, it.fillComponent g depth v (component, nonChecked) = some s ∧
      Filled g ∅ v component nonChecked added s.1 s.2 := by
  induction depth generalizing v component nonChecked with
  | zero => omega
  | succ depth ih =>
    obtain ⟨neighbors, hget⟩ := Option.isSome_iff_exists.mp
      (Std.ExtTreeMap.mem_iff_isSome_getElem?.mp (hkeys v hv))
    have hround : ∀ s : Graph × Finset ℕ,
        (∃ added, Filled g {v} v component nonChecked added s.1 s.2) →
        (∃ s', it.fillRound neighbors (it.fillComponent g depth) s = some (.again s') ∧
          (∃ added, Filled g {v} v component nonChecked added s'.1 s'.2) ∧
          s'.2.card < s.2.card) ∨
        ∃ s', it.fillRound neighbors (it.fillComponent g depth) s = some (.done s') ∧
          ∃ added, Filled g ∅ v component nonChecked added s'.1 s'.2 := by
      rintro ⟨component', nonChecked'⟩ ⟨added, h⟩
      by_cases hdisj : Disjoint neighbors nonChecked'
      · exact .inr ⟨_, if_pos hdisj, added, h.done hget hdisj⟩
      · have hne := Finset.not_disjoint_iff_nonempty_inter.mp hdisj
        obtain ⟨nv, hnv, hfirst⟩ := it.exists_first nonChecked' _ hne
        obtain ⟨hadj, hnv⟩ := Finset.mem_inter.mp hnv
        have hcard : nonChecked'.card < nonChecked.card := h.card_lt
        obtain ⟨⟨component₂, nonChecked₂⟩, added₂, hrun, h₂⟩ := ih component' hnv
          (fun w hw => hkeys w (h.rest_subset hw)) (by omega)
        refine .inl ⟨(component₂, nonChecked₂), ?_, ⟨_, h.trans ⟨neighbors, hget, hadj⟩ h₂⟩,
          h₂.card_lt⟩
        rw [Iteration.fillRound, if_neg hdisj, hfirst]
        simp only [Option.bind_eq_bind, Option.bind_some, hrun]
    have hstart : ∃ added, Filled g {v} v component nonChecked added
        (component.insert v neighbors, nonChecked.erase v).1
        (component.insert v neighbors, nonChecked.erase v).2 := ⟨_, Filled.start hget hv⟩
    obtain ⟨s, hrun, added, hfilled⟩ := loop_spec (fun s : Graph × Finset ℕ => s.2.card) hround
      hstart (Nat.lt_succ_self (nonChecked.erase v).card)
    refine ⟨s, added, ?_, hfilled⟩
    simp [Iteration.fillComponent, addConnectionsToComponent, hget, hrun]

/-! ### The components -/

theorem Reaches.symm (hg : IsUndirected g) (h : Reaches g v w) : Reaches g w v := by
  induction h with
  | refl => exact Relation.ReflTransGen.refl
  | tail _ hadj ih => exact (Relation.ReflTransGen.single (hg.symm _ _ hadj)).trans ih

/-- The graphs found so far are components, and the other vertices were not reached. -/
structure Splits (g : Graph) (res : List Graph) (nonChecked : Finset ℕ) : Prop where
  cover : ∀ v, v ∈ g ↔ v ∈ nonChecked ∨ ∃ c ∈ res, v ∈ c
  left : ∀ c ∈ res, ∀ v ∈ c, v ∉ nonChecked
  nonempty : ∀ c ∈ res, ∃ v, v ∈ c
  disjoint : res.Pairwise fun c d => ∀ v ∈ c, v ∉ d
  get : ∀ d ∈ res, ∀ v ∈ d, d[v]? = g[v]?
  reaches : ∀ c ∈ res, ∀ v ∈ c, ∀ w, w ∈ c ↔ Reaches g v w

namespace Splits

variable {res : List Graph}

/-- A neighbour of a vertex that was not reached was not reached. -/
theorem closed (hg : IsUndirected g) (h : Splits g res nonChecked) (hv : v ∈ nonChecked)
    (hadj : Adjacent g v w) : w ∈ nonChecked := by
  rcases (h.cover w).mp (hg.mem v w hadj) with hw | ⟨c, hc, hwc⟩
  · exact hw
  · have hvc := (h.reaches c hc w hwc v).mpr (Relation.ReflTransGen.single (hg.symm v w hadj))
    exact absurd hv (h.left c hc v hvc)

theorem mem_component (h : Splits g res nonChecked)
    (hf : Filled g ∅ v ∅ nonChecked added component nonChecked') :
    w ∈ component ↔ w ∈ added := by
  rw [Std.ExtTreeMap.mem_iff_isSome_getElem?, hf.get]
  by_cases hw : w ∈ added
  · rw [if_pos hw, ← Std.ExtTreeMap.mem_iff_isSome_getElem?]
    exact iff_of_true ((h.cover w).mpr (.inl (hf.subset hw))) hw
  · rw [if_neg hw]
    simp [hw]

/-- What is reached from a vertex of the component is in it. -/
theorem mem_added_iff (hg : IsUndirected g) (h : Splits g res nonChecked)
    (hf : Filled g ∅ v ∅ nonChecked added component nonChecked') {u : ℕ} (hu : u ∈ added) :
    w ∈ added ↔ Reaches g u w := by
  constructor
  · exact fun hw => ((hf.reaches u hu).symm hg).trans (hf.reaches w hw)
  · intro huw
    induction huw with
    | refl => exact hu
    | tail _ hadj ih =>
      have hleft := hf.closed _ ih (Set.notMem_empty _) _ hadj
      rw [hf.rest, Finset.mem_sdiff, not_and_not_right] at hleft
      exact hleft (h.closed hg (hf.subset ih) hadj)

/-- **One more component.** -/
theorem concat (hg : IsUndirected g) (h : Splits g res nonChecked)
    (hf : Filled g ∅ v ∅ nonChecked added component nonChecked') :
    Splits g (res ++ [component]) nonChecked' := by
  have hmem : ∀ w, w ∈ component ↔ w ∈ added := fun w => h.mem_component hf
  have hcases : ∀ c ∈ res ++ [component], c ∈ res ∨ c = component := fun c hc =>
    (List.mem_append.mp hc).imp_right List.mem_singleton.mp
  have hleft : ∀ w, w ∈ nonChecked ↔ w ∈ nonChecked' ∨ w ∈ component := by
    intro w
    rw [hmem, hf.rest, Finset.mem_sdiff]
    have hsub := @hf.subset w
    tauto
  refine ⟨fun w => ?_, fun c hc w hw hw' => ?_, fun c hc => ?_, ?_, fun c hc w hw => ?_,
    fun c hc u hu w => ?_⟩
  · rw [h.cover, hleft, or_assoc]
    simp only [List.mem_append, List.mem_singleton, or_and_right, exists_or, exists_eq_left]
    exact or_congr_right or_comm
  · rcases hcases c hc with hc | rfl
    · exact h.left c hc w hw (hf.rest_subset hw')
    · rw [hf.rest, Finset.mem_sdiff] at hw'
      exact hw'.2 ((hmem w).mp hw)
  · rcases hcases c hc with hc | rfl
    · exact h.nonempty c hc
    · exact ⟨v, (hmem v).mpr hf.mem⟩
  · refine List.pairwise_append.mpr ⟨h.disjoint, List.pairwise_singleton _ _, ?_⟩
    intro c hc d hd w hw hwd
    rw [List.mem_singleton.mp hd] at hwd
    exact h.left c hc w hw ((hleft w).mpr (.inr hwd))
  · rcases hcases c hc with hc | rfl
    · exact h.get c hc w hw
    · rw [hf.get, if_pos ((hmem w).mp hw)]
  · rcases hcases c hc with hc | rfl
    · exact h.reaches c hc u hu w
    · rw [hmem]
      exact h.mem_added_iff hg hf ((hmem u).mp hu)

end Splits

/-- **The connected components** are returned, whatever the orders of iteration: disjoint, together
the graph, each vertex with its neighbours, and two of them in one exactly if there is a path. -/
theorem exists_connectedComponents (it : Iteration) (g : Graph) (hg : IsUndirected g) :
    ∃ res, it.connectedComponents g = some res ∧
      (∀ v, v ∈ g ↔ ∃ c ∈ res, v ∈ c) ∧ (∀ c ∈ res, ∃ v, v ∈ c) ∧
      (res.Pairwise fun c d => ∀ v ∈ c, v ∉ d) ∧ (∀ d ∈ res, ∀ v ∈ d, d[v]? = g[v]?) ∧
      ∀ v w, v ∈ g → w ∈ g → ((∃ c ∈ res, v ∈ c ∧ w ∈ c) ↔ Reaches g v w) := by
  have hround : ∀ s : List Graph × Finset ℕ, Splits g s.1 s.2 →
      (∃ s', it.componentRound g s = some (.again s') ∧ Splits g s'.1 s'.2 ∧
        s'.2.card < s.2.card) ∨
      ∃ res, it.componentRound g s = some (.done res) ∧ Splits g res ∅ := by
    rintro ⟨res, nonChecked⟩ h
    rcases Finset.eq_empty_or_nonempty nonChecked with rfl | hne
    · refine .inr ⟨res, ?_, h⟩
      rw [Iteration.componentRound, Finset.card_empty, if_neg (Nat.lt_irrefl 0)]
    · obtain ⟨v, hv, hfirst⟩ := it.exists_first nonChecked nonChecked hne
      obtain ⟨s', added, hrun, hf⟩ := exists_fillComponent it ∅ hv
        (fun w hw => (h.cover w).mpr (.inl hw)) (Nat.lt_succ_self _)
      refine .inl ⟨(res ++ [s'.1], s'.2), ?_, h.concat hg hf, hf.card_lt⟩
      rw [Iteration.componentRound, if_pos (Finset.card_pos.mpr hne), hfirst]
      simp only [Option.bind_eq_bind, Option.bind_some, hrun]
  let start : List Graph × Finset ℕ := ([], g.keys.toFinset)
  have hstart : Splits g start.1 start.2 := by
    refine ⟨fun v => ?_, ?_, ?_, List.Pairwise.nil, ?_, ?_⟩
    · simp [start]
    all_goals exact fun c hc => absurd hc List.not_mem_nil
  obtain ⟨res, hrun, h⟩ := loop_spec (fun s : List Graph × Finset ℕ => s.2.card) hround hstart
    (Nat.lt_succ_of_le (List.toFinset_card_le g.keys))
  refine ⟨res, hrun, fun v => ?_, h.nonempty, h.disjoint, h.get, fun v w hv hw => ?_⟩
  · simp [h.cover v]
  · constructor
    · rintro ⟨c, hc, hvc, hwc⟩
      exact (h.reaches c hc v hvc w).mp hwc
    · intro hreach
      obtain hv | ⟨c, hc, hvc⟩ := (h.cover v).mp hv
      · exact absurd hv (Finset.notMem_empty v)
      · exact ⟨c, hc, hvc, (h.reaches c hc v hvc w).mpr hreach⟩

/-- Two neighbours, and a vertex that is its own neighbour. -/
def pairAndLoop : Graph := ((∅ : Graph).insert 1 {2}).insert 2 {1} |>.insert 3 {3}

theorem adjacent_pairAndLoop :
    Adjacent pairAndLoop v w ↔ v = 1 ∧ w = 2 ∨ v = 2 ∧ w = 1 ∨ v = 3 ∧ w = 3 := by
  simp only [Adjacent, pairAndLoop, Std.ExtTreeMap.getElem?_insert, compare_eq_iff_eq]
  split_ifs <;> simp <;> omega

theorem pairAndLoop_components :
    ∃ res, (default : Iteration).connectedComponents pairAndLoop = some res ∧
      (∀ v, v ∈ pairAndLoop ↔ ∃ c ∈ res, v ∈ c) ∧ (∀ c ∈ res, ∃ v, v ∈ c) ∧
      (res.Pairwise fun c d => ∀ v ∈ c, v ∉ d) ∧
      (∀ d ∈ res, ∀ v ∈ d, d[v]? = pairAndLoop[v]?) ∧
      ∀ v w, v ∈ pairAndLoop → w ∈ pairAndLoop →
        ((∃ c ∈ res, v ∈ c ∧ w ∈ c) ↔ Reaches pairAndLoop v w) := by
  refine exists_connectedComponents default pairAndLoop ⟨fun v w h => ?_, fun v w h => ?_⟩
  · rw [adjacent_pairAndLoop] at h ⊢
    omega
  · rw [adjacent_pairAndLoop] at h
    simp only [pairAndLoop, Std.ExtTreeMap.mem_insert, compare_eq_iff_eq]
    omega

end RustExample.GraphComponents
