import Mathlib.Data.Finset.Sort
import RustExample.Foundation.IndependentSets
import RustExample.Foundation.KeyStore
import RustExample.Foundation.Loops

/-!
# Disjoint members of a family of sets

A graph is a hash map from its vertices to the sets of their neighbours. A greatest independent set
is found by trying every vertex first; some independent set by taking a vertex with the fewest
neighbours first. In both cases the search goes on in the graph without the vertex and its
neighbours.

The members of a family are the vertices of a graph, by their positions; two are neighbours if they
overlap. Pairwise disjoint members are the independent sets of this graph.

Source: `max_disjoint_subset_example/src/main.rs`.

* A failing `unwrap` is `none`. A recursion takes a bound on its depth, and is `none` where the
  bound is too small.
* In which order a hash map gives its keys and a hash set its members is open, and may be another
  one in every call: see `Iteration`. A call is known by the vertices that were chosen before.
* `usize` and `u32` are natural numbers. A family is a list of finite sets.
-/

namespace RustExample.DisjointSubset

open List

section Graphs

/-! ### The searches -/

/-- The vertices and their neighbours. -/
abbrev Graph := KeyStore ℕ (Finset ℕ)

/-- The orders in which hash maps and sets are iterated, by the vertices chosen before. -/
structure Iteration where
  keys : List ℕ → Graph → List ℕ
  members : List ℕ → Finset ℕ → List ℕ
  perm_keys : ∀ path g, (keys path g).Perm g.keys
  mem_members : ∀ path s v, v ∈ members path s ↔ v ∈ s

/-- Every map and set in ascending order. -/
instance : Inhabited Iteration where
  default :=
    { keys _ g := g.keys
      members _ s := s.sort
      perm_keys _ _ := List.Perm.refl _
      mem_members _ _ _ := Finset.mem_sort _ }

/-- Removes a vertex. -/
def removeVertex (g : Graph) (v : ℕ) : Graph := (g.erase v).map fun _ nb => nb.erase v

namespace Iteration

/-- Removes a vertex and its neighbours. -/
def removeVertexAndNeighbors (it : Iteration) (path : List ℕ) (g : Graph) (v : ℕ) :
    Option Graph := do
  let neighbors ← g[v]?
  some ((it.members path neighbors).foldl removeVertex (removeVertex g v))

/-- `maximum_independent_set` -/
def maximumIndependentSet (it : Iteration) : ℕ → List ℕ → Graph → Option (Finset ℕ)
  | 0, _, _ => none
  | depth + 1, path, g =>
    if g.isEmpty then some ∅
    else forEach (it.keys path g) (fun v res => do
      let gRed ← it.removeVertexAndNeighbors path g v
      let mis := insert v (← it.maximumIndependentSet depth (v :: path) gRed)
      some (if res.card < mis.card then mis else res)) ∅

/-- The first of the keys with the fewest neighbours. -/
def minDegreeVertex (it : Iteration) (path : List ℕ) (g : Graph) : Option ℕ :=
  (it.keys path g).argmin fun v => (g[v]?.getD ∅).card

/-- Chooses vertices greedily. -/
def maximumIndependentSetApprox (it : Iteration) : ℕ → List ℕ → Graph → Option (Finset ℕ)
  | 0, _, _ => none
  | depth + 1, path, g =>
    if g.isEmpty then some ∅
    else do
      let v ← it.minDegreeVertex path g
      let gRed ← it.removeVertexAndNeighbors path g v
      some (insert v (← it.maximumIndependentSetApprox depth (v :: path) gRed))

end Iteration

/-! ### Parts of a graph -/

variable {it : Iteration} {g g' : Graph} {G : SimpleGraph ℕ} {V : Finset ℕ} {v : ℕ}

/-- The map is the part of the graph on the vertices `V`: it has no other keys, and the neighbours
it gives are in `V` again. -/
structure Represents (g : Graph) (G : SimpleGraph ℕ) (V : Finset ℕ) : Prop where
  get_none : ∀ v, v ∉ V → g[v]? = none
  get_some : ∀ v ∈ V, ∃ nb, g[v]? = some nb ∧ ∀ w, w ∈ nb ↔ w ∈ V ∧ G.Adj v w

namespace Represents

theorem mem_keys (h : Represents g G V) : v ∈ g.keys ↔ v ∈ V := by
  rw [Std.ExtTreeMap.mem_keys, Std.ExtTreeMap.mem_iff_isSome_getElem?]
  by_cases hv : v ∈ V
  · obtain ⟨nb, hnb, -⟩ := h.get_some v hv
    simp [hnb, hv]
  · simp [h.get_none v hv, hv]

theorem isEmpty_iff (h : Represents g G V) : g.isEmpty = true ↔ V = ∅ := by
  rw [Std.ExtTreeMap.isEmpty_iff, Std.ExtTreeMap.eq_empty_iff_forall_not_mem,
    Finset.eq_empty_iff_forall_notMem]
  refine forall_congr' fun v => ?_
  rw [← Std.ExtTreeMap.mem_keys, h.mem_keys]

theorem size_eq (h : Represents g G V) : g.size = V.card := by
  rw [← Std.ExtTreeMap.length_keys]
  have hset : g.keys.toFinset = V := by
    ext v
    rw [mem_toFinset, h.mem_keys]
  rw [← hset, toFinset_card_of_nodup Std.ExtTreeMap.nodup_keys]

theorem removeVertex (h : Represents g G V) (v : ℕ) :
    Represents (removeVertex g v) G (V.erase v) := by
  have hget : ∀ w, (DisjointSubset.removeVertex g v)[w]? =
      (if v = w then none else g[w]?).map fun nb => nb.erase v := by
    intro w
    rw [DisjointSubset.removeVertex, Std.ExtTreeMap.getElem?_map, KeyStore.getElem?_del]
  refine ⟨fun w hw => ?_, fun w hw => ?_⟩
  · rw [hget]
    by_cases hvw : v = w
    · rw [if_pos hvw, Option.map_none]
    · rw [if_neg hvw, h.get_none w, Option.map_none]
      exact fun hmem => hw (Finset.mem_erase.mpr ⟨Ne.symm hvw, hmem⟩)
  · obtain ⟨hne, hw⟩ := Finset.mem_erase.mp hw
    obtain ⟨nb, hnb, hmem⟩ := h.get_some w hw
    refine ⟨nb.erase v, by rw [hget, if_neg (Ne.symm hne), hnb, Option.map_some], fun u => ?_⟩
    rw [Finset.mem_erase, Finset.mem_erase, hmem, and_assoc]

theorem removeAll (h : Represents g G V) (l : List ℕ) :
    ∃ V', Represents (l.foldl DisjointSubset.removeVertex g) G V' ∧
      ∀ w, w ∈ V' ↔ w ∈ V ∧ w ∉ l := by
  induction l generalizing g V with
  | nil => exact ⟨V, h, by simp⟩
  | cons v l ih =>
    obtain ⟨V', h', hmem⟩ := ih (h.removeVertex v)
    refine ⟨V', h', fun w => ?_⟩
    rw [hmem, Finset.mem_erase, mem_cons, not_or]
    tauto

/-- **The removal of a vertex and its neighbours.** -/
theorem exists_removed (h : Represents g G V) (it : Iteration) (path : List ℕ) (hv : v ∈ V) :
    ∃ g' V', it.removeVertexAndNeighbors path g v = some g' ∧ Represents g' G V' ∧
      IsRest G V v V' := by
  obtain ⟨nb, hnb, hadj⟩ := h.get_some v hv
  obtain ⟨V', h', hmem⟩ := (h.removeVertex v).removeAll (it.members path nb)
  refine ⟨_, V', by rw [Iteration.removeVertexAndNeighbors, hnb]; rfl, h', fun w => ?_⟩
  rw [hmem, it.mem_members, hadj, Finset.mem_erase]
  tauto

/-- **The search through all choices** finds a greatest independent set. -/
theorem exists_maximum (h : Represents g G V) (it : Iteration) {depth : ℕ} (path : List ℕ)
    (hdepth : V.card < depth) :
    ∃ S, it.maximumIndependentSet depth path g = some S ∧ IsMaximumOn G V S := by
  induction depth generalizing path g V with
  | zero => omega
  | succ depth ih =>
    rw [Iteration.maximumIndependentSet]
    by_cases hempty : g.isEmpty
    · obtain rfl := h.isEmpty_iff.mp hempty
      exact ⟨∅, if_pos hempty, IsMaximumOn.empty G⟩
    · rw [if_neg hempty]
      -- no set with a vertex that was tried is greater than the best so far
      have hloop : ∃ S, forEach (it.keys path g) (fun v res => do
          let gRed ← it.removeVertexAndNeighbors path g v
          let mis := insert v (← it.maximumIndependentSet depth (v :: path) gRed)
          some (if res.card < mis.card then mis else res)) ∅ = some S ∧
            S ⊆ V ∧ G.IsIndepSet S ∧ ∀ v ∈ it.keys path g, ∀ T ⊆ V, G.IsIndepSet T → v ∈ T →
              T.card ≤ S.card := by
        refine forEach_spec (I := fun tried (S : Finset ℕ) => S ⊆ V ∧ G.IsIndepSet S ∧
          ∀ v ∈ tried, ∀ T ⊆ V, G.IsIndepSet T → v ∈ T → T.card ≤ S.card)
          ⟨Finset.empty_subset V, by simp [SimpleGraph.isIndepSet_iff], nofun⟩ ?_
        rintro tried v after S hl ⟨hS, hind, hbest⟩
        have hv : v ∈ V := by
          rw [← h.mem_keys, ← (it.perm_keys path g).mem_iff, hl]
          simp
        obtain ⟨g', V', hrun, h', hrest⟩ := h.exists_removed it path hv
        have hlt := hrest.card_lt hv
        obtain ⟨T, hsearch, hT⟩ := ih h' (v :: path) (by omega)
        refine ⟨if S.card < (insert v T).card then insert v T else S, by simp [hrun, hsearch],
          ?_, ?_, ?_⟩
        · split_ifs
          · exact hrest.insert_subset hv hT.subset
          · exact hS
        · split_ifs
          · exact hrest.isIndepSet_insert hT.subset hT.independent
          · exact hind
        · intro u hu U hU hUind huU
          have hcard : S.card ≤ (if S.card < (insert v T).card then insert v T else S).card ∧
              (insert v T).card ≤ (if S.card < (insert v T).card then insert v T else S).card := by
            split_ifs <;> omega
          rcases List.mem_append.mp hu with hu | hu
          · exact (hbest u hu U hU hUind huU).trans hcard.1
          · obtain rfl := List.mem_singleton.mp hu
            exact (hrest.card_le hT hU hUind huU).trans hcard.2
      obtain ⟨S, hrun, hS, hind, hbest⟩ := hloop
      refine ⟨S, hrun, hS, hind, fun T hT hTind => ?_⟩
      obtain rfl | ⟨v, hv⟩ := T.eq_empty_or_nonempty
      · rw [Finset.card_empty]
        exact Nat.zero_le _
      · refine hbest v ?_ T hT hTind hv
        rw [(it.perm_keys path g).mem_iff, h.mem_keys]
        exact hT hv

/-- The vertex with the fewest neighbours is there. -/
theorem exists_minDegreeVertex (h : Represents g G V) (it : Iteration) (path : List ℕ)
    (hne : V ≠ ∅) : ∃ v ∈ V, it.minDegreeVertex path g = some v := by
  have hsome : it.minDegreeVertex path g ≠ none := by
    intro hnone
    have hnil := List.argmin_eq_none.mp hnone
    refine hne (Finset.eq_empty_iff_forall_notMem.mpr fun v hv => ?_)
    have hmem := (it.perm_keys path g).mem_iff.mpr (h.mem_keys.mpr hv)
    rw [hnil] at hmem
    exact not_mem_nil hmem
  obtain ⟨v, hv⟩ := Option.ne_none_iff_exists'.mp hsome
  exact ⟨v, h.mem_keys.mp ((it.perm_keys path g).mem_iff.mp (argmin_mem hv)), hv⟩

/-- **The search that takes the fewest neighbours first** finds a maximal independent set. -/
theorem exists_approx (h : Represents g G V) (it : Iteration) {depth : ℕ} (path : List ℕ)
    (hdepth : V.card < depth) :
    ∃ S, it.maximumIndependentSetApprox depth path g = some S ∧ IsMaximalOn G V S := by
  induction depth generalizing path g V with
  | zero => omega
  | succ depth ih =>
    rw [Iteration.maximumIndependentSetApprox]
    by_cases hempty : g.isEmpty
    · obtain rfl := h.isEmpty_iff.mp hempty
      exact ⟨∅, if_pos hempty, IsMaximalOn.empty G⟩
    · obtain ⟨v, hv, hmin⟩ := h.exists_minDegreeVertex it path (mt h.isEmpty_iff.mpr hempty)
      obtain ⟨g', V', hrun, h', hrest⟩ := h.exists_removed it path hv
      have hlt := hrest.card_lt hv
      obtain ⟨T, hsearch, hT⟩ := ih h' (v :: path) (by omega)
      exact ⟨insert v T, by simp [hempty, hmin, hrun, hsearch], hrest.isMaximalOn hv hT⟩

end Represents

end Graphs

/-! ### Families of sets -/

section Families

/-- Some sets. -/
abbrev Family := List (Finset ℕ)

/-- The positions of the other members that overlap with the one at a position. -/
def neighborsAt (f : Family) (idx : ℕ) (here : Finset ℕ) : Finset ℕ :=
  ((f.zipIdx.filter fun (v, vIdx) => vIdx ≠ idx ∧ ¬Disjoint here v).map Prod.snd).toFinset

/-- The graph of overlapping members. -/
def createGraph (f : Family) : Option Graph :=
  forRange 0 f.length
    (fun idx g => do
      let here ← f[idx]?
      some (g.insert idx (neighborsAt f idx here))) ∅

/-- The members at some positions. -/
def membersAt (f : Family) (p : Finset ℕ) : Family :=
  (f.zipIdx.filter fun (_, idx) => idx ∈ p).map Prod.fst

/-- A greatest choice of disjoint members. -/
def maxDisjointSubset (it : Iteration) (f : Family) : Option Family := do
  let g ← createGraph f
  let maxIndep ← it.maximumIndependentSet (g.size + 1) [] g
  some (membersAt f maxIndep)

/-! ### The graph of a family -/

variable {f : Family} {p : Finset ℕ} {g : Graph}

/-- The members at two positions overlap. -/
def overlaps (f : Family) : SimpleGraph ℕ where
  Adj i j := i ≠ j ∧ ∃ a b, f[i]? = some a ∧ f[j]? = some b ∧ ¬Disjoint a b
  symm := ⟨fun _ _ ⟨hne, a, b, ha, hb, hnot⟩ => ⟨hne.symm, b, a, hb, ha, fun h => hnot h.symm⟩⟩
  loopless := ⟨fun _ h => h.1 rfl⟩

theorem mem_neighborsAt {i j : ℕ} {a : Finset ℕ} (ha : f[i]? = some a) :
    j ∈ neighborsAt f i a ↔ j ∈ Finset.range f.length ∧ (overlaps f).Adj i j := by
  rw [neighborsAt, mem_toFinset, mem_map, Finset.mem_range]
  constructor
  · rintro ⟨⟨b, j⟩, hmem, rfl⟩
    obtain ⟨hmem, hcond⟩ := List.mem_filter.mp hmem
    have hb : f[j]? = some b := List.mem_zipIdx_iff_getElem?.mp hmem
    obtain ⟨hne, hnot⟩ := of_decide_eq_true hcond
    exact ⟨(List.getElem?_eq_some_iff.mp hb).1, hne.symm, a, b, ha, hb, hnot⟩
  · rintro ⟨-, hne, a', b, ha', hb, hnot⟩
    obtain ⟨⟩ := ha.symm.trans ha'
    refine ⟨(b, j), List.mem_filter.mpr ⟨List.mem_zipIdx_iff_getElem?.mpr hb, ?_⟩, rfl⟩
    exact decide_eq_true ⟨hne.symm, hnot⟩

/-- **The hash map that is made** is the graph of the family. -/
theorem exists_createGraph (f : Family) :
    ∃ g, createGraph f = some g ∧ Represents g (overlaps f) (Finset.range f.length) := by
  have hloop : ∃ g, createGraph f = some g ∧ (∀ i, f.length ≤ i → g[i]? = none) ∧
      ∀ i < f.length, ∃ a, f[i]? = some a ∧ g[i]? = some (neighborsAt f i a) := by
    refine forRange_spec (I := fun n (g : Graph) => (∀ i, n ≤ i → g[i]? = none) ∧
      ∀ i < n, ∃ a, f[i]? = some a ∧ g[i]? = some (neighborsAt f i a)) (Nat.zero_le _)
      ⟨fun i _ => Std.ExtTreeMap.getElem?_empty, fun i hi => absurd hi (Nat.not_lt_zero i)⟩ ?_
    rintro n g _ hn ⟨hnone, hsome⟩
    refine ⟨g.insert n (neighborsAt f n f[n]), by rw [getElem?_eq_getElem hn]; rfl,
      fun i hi => ?_, fun i hi => ?_⟩
    · rw [KeyStore.getElem?_put, if_neg (by omega), hnone i (by omega)]
    · by_cases hin : n = i
      · subst hin
        exact ⟨f[n], getElem?_eq_getElem hn, by rw [KeyStore.getElem?_put, if_pos rfl]⟩
      · obtain ⟨a, ha, hg⟩ := hsome i (by omega)
        exact ⟨a, ha, by rw [KeyStore.getElem?_put, if_neg hin, hg]⟩
  obtain ⟨g, hrun, hnone, hsome⟩ := hloop
  refine ⟨g, hrun, fun i hi => hnone i ?_, fun i hi => ?_⟩
  · rw [Finset.mem_range] at hi
    omega
  · obtain ⟨a, ha, hg⟩ := hsome i (Finset.mem_range.mp hi)
    exact ⟨neighborsAt f i a, hg, fun j => mem_neighborsAt ha⟩

/-! ### Disjoint members -/

/-- The members at some positions are pairwise disjoint. -/
def DisjointAt (f : Family) (p : Finset ℕ) : Prop :=
  (∀ i ∈ p, i < f.length) ∧ ∀ i ∈ p, ∀ j ∈ p, i ≠ j → ∀ a b, f[i]? = some a → f[j]? = some b →
    Disjoint a b

theorem disjointAt_iff :
    DisjointAt f p ↔ p ⊆ Finset.range f.length ∧ (overlaps f).IsIndepSet p := by
  rw [DisjointAt, SimpleGraph.isIndepSet_iff]
  refine and_congr ?_ ⟨?_, ?_⟩
  · exact forall_congr' fun i => imp_congr_right fun _ => Finset.mem_range.symm
  · rintro h i hi j hj hne ⟨-, a, b, ha, hb, hnot⟩
    exact hnot (h i hi j hj hne a b ha hb)
  · intro h i hi j hj hne a b ha hb
    by_contra hnot
    exact h (Finset.mem_coe.mpr hi) (Finset.mem_coe.mpr hj) hne ⟨hne, a, b, ha, hb, hnot⟩

theorem length_membersAt (hp : ∀ i ∈ p, i < f.length) : (membersAt f p).length = p.card := by
  have hset : ((f.zipIdx.filter fun (_, idx) => idx ∈ p).map Prod.snd).toFinset = p := by
    ext i
    rw [mem_toFinset, mem_map]
    constructor
    · rintro ⟨⟨a, i⟩, hmem, rfl⟩
      exact of_decide_eq_true (List.mem_filter.mp hmem).2
    · intro hi
      have hlt := hp i hi
      refine ⟨(f[i], i), List.mem_filter.mpr ⟨?_, decide_eq_true hi⟩, rfl⟩
      exact List.mem_zipIdx_iff_getElem?.mpr (getElem?_eq_getElem hlt)
  have hnodup : ((f.zipIdx.filter fun (_, idx) => idx ∈ p).map Prod.snd).Nodup := by
    refine List.Nodup.sublist (List.filter_sublist.map Prod.snd) ?_
    rw [zipIdx_map_snd]
    exact nodup_range'
  rw [membersAt, length_map, ← hset, toFinset_card_of_nodup hnodup, length_map, hset]

/-! ### Undirected graphs -/

/-- The map is a symmetric graph without loops: the neighbours are vertices again. -/
def IsUndirected (g : Graph) : Prop :=
  ∀ v : ℕ, ∀ nb, g[v]? = some nb → v ∉ nb ∧ ∀ w ∈ nb, ∃ nb', g[w]? = some nb' ∧ v ∈ nb'

/-- Vertices of which no two are neighbours. -/
def IsIndependent (g : Graph) (S : Finset ℕ) : Prop :=
  ∀ v ∈ S, ∃ nb, g[v]? = some nb ∧ ∀ w ∈ S, w ∉ nb

/-- The map as a graph. -/
def IsUndirected.graph (h : IsUndirected g) : SimpleGraph ℕ where
  Adj v w := ∃ nb, g[v]? = some nb ∧ w ∈ nb
  symm := ⟨fun v w ⟨nb, hnb, hw⟩ => (h v nb hnb).2 w hw⟩
  loopless := ⟨fun v ⟨nb, hnb, hv⟩ => (h v nb hnb).1 hv⟩

theorem mem_keys_iff {v : ℕ} : v ∈ g.keys ↔ ∃ nb, g[v]? = some nb := by
  rw [Std.ExtTreeMap.mem_keys, Std.ExtTreeMap.mem_iff_isSome_getElem?, Option.isSome_iff_exists]

theorem IsUndirected.represents (h : IsUndirected g) : Represents g h.graph g.keys.toFinset := by
  refine ⟨fun v hv => ?_, fun v hv => ?_⟩
  · rw [mem_toFinset, mem_keys_iff] at hv
    exact Option.eq_none_iff_forall_ne_some.mpr fun nb hnb => hv ⟨nb, hnb⟩
  · obtain ⟨nb, hnb⟩ := mem_keys_iff.mp (List.mem_toFinset.mp hv)
    refine ⟨nb, hnb, fun w => ⟨fun hw => ⟨?_, nb, hnb, hw⟩, ?_⟩⟩
    · obtain ⟨nb', hnb', -⟩ := (h v nb hnb).2 w hw
      exact List.mem_toFinset.mpr (mem_keys_iff.mpr ⟨nb', hnb'⟩)
    · rintro ⟨-, nb', hnb', hw⟩
      obtain ⟨⟩ := hnb.symm.trans hnb'
      exact hw

theorem IsUndirected.isIndependent_iff (h : IsUndirected g) {S : Finset ℕ} :
    IsIndependent g S ↔ S ⊆ g.keys.toFinset ∧ h.graph.IsIndepSet S := by
  rw [SimpleGraph.isIndepSet_iff]
  constructor
  · intro hS
    refine ⟨fun v hv => ?_, fun v hv w hw _ ⟨nb, hnb, hwnb⟩ => ?_⟩
    · obtain ⟨nb, hnb, -⟩ := hS v hv
      exact List.mem_toFinset.mpr (mem_keys_iff.mpr ⟨nb, hnb⟩)
    · obtain ⟨nb', hnb', hnot⟩ := hS v hv
      obtain ⟨⟩ := hnb.symm.trans hnb'
      exact hnot w hw hwnb
  · rintro ⟨hkeys, hind⟩ v hv
    obtain ⟨nb, hnb⟩ := mem_keys_iff.mp (List.mem_toFinset.mp (hkeys hv))
    refine ⟨nb, hnb, fun w hw hwnb => ?_⟩
    by_cases hvw : v = w
    · exact (h v nb hnb).1 (hvw ▸ hwnb)
    · exact hind (Finset.mem_coe.mpr hv) (Finset.mem_coe.mpr hw) hvw ⟨nb, hnb, hwnb⟩

/-! ### The results -/

/-- **The greatest number of disjoint members** is found, whatever the orders in which hash maps and
sets are iterated. The other search finds an independent set to which no vertex can be added. -/
theorem maxDisjointSubset_spec (it : Iteration) :
    (∀ f, ∃ p, maxDisjointSubset it f = some (membersAt f p) ∧ DisjointAt f p ∧
      (membersAt f p).length = p.card ∧ ∀ q, DisjointAt f q → q.card ≤ p.card) ∧
    ∀ g, IsUndirected g → ∃ S, it.maximumIndependentSetApprox (g.size + 1) [] g = some S ∧
      IsIndependent g S ∧ ∀ v ∈ g.keys, v ∉ S → ¬IsIndependent g (insert v S) := by
  refine ⟨fun f => ?_, fun g hg => ?_⟩
  · obtain ⟨g, hrun, hg⟩ := exists_createGraph f
    obtain ⟨p, hsearch, hp⟩ := hg.exists_maximum it [] (Nat.lt_succ_of_le hg.size_eq.ge)
    have hdisjoint : DisjointAt f p := disjointAt_iff.mpr ⟨hp.subset, hp.independent⟩
    refine ⟨p, by simp [maxDisjointSubset, hrun, hsearch], hdisjoint,
      length_membersAt hdisjoint.1, fun q hq => ?_⟩
    obtain ⟨hsub, hind⟩ := disjointAt_iff.mp hq
    exact hp.card_le q hsub hind
  · have hrep := hg.represents
    obtain ⟨S, hsearch, hS⟩ := hrep.exists_approx it [] (Nat.lt_succ_of_le hrep.size_eq.ge)
    refine ⟨S, hsearch, hg.isIndependent_iff.mpr ⟨hS.subset, hS.independent⟩, fun v hv hnot h => ?_⟩
    obtain ⟨w, hw, hadj⟩ := hS.exists_adj v (List.mem_toFinset.mpr hv) hnot
    obtain ⟨-, hind⟩ := hg.isIndependent_iff.mp h
    refine hind (Finset.mem_coe.mpr (Finset.mem_insert_self v S))
      (Finset.mem_coe.mpr (Finset.mem_insert_of_mem hw)) hadj.ne hadj

end Families

end RustExample.DisjointSubset
