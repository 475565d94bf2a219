import RustExample.Foundation.Loops
import RustExample.Foundation.WeightedWalks

/-!
# A graph of devices

A graph keeps a key for each node and a list of edges for each node; an edge leads to a node by its
number. A search for a shortest path takes the nodes of an open list one after the other, and goes
back by the parents at the end.

Source: `graph_example/src/lib.rs`.

* Keys are 64-bit numbers, and weights are 32-bit ones. A sum of weights that does not fit is
  `none`, as is a position outside a vector and a failed `unwrap`; inside of that `none` is the
  result `None`. A loop takes a bound on its rounds, and is `none` where the bound is too small.
* `set_nodes` is called with distinct keys.
-/

namespace RustExample.DeviceGraph

open List

/-- The key of a node. -/
abbrev KeyType := UInt64

/-- A distance, if one is known. -/
inductive TentativeWeight
  | infinite
  | number (n : UInt32)
  deriving DecidableEq

/-- An infinite weight is above all others. -/
def TentativeWeight.cmp (self other : TentativeWeight) : Ordering :=
  match other with
  | .infinite =>
    match self with
    | .infinite => .eq
    | _ => .lt
  | .number o =>
    match self with
    | .infinite => .gt
    | .number s => compare s o

/-- An edge, to a node by its index. -/
structure Edge where
  weight : UInt32
  node : ℕ

/-- The number of the nearest node. -/
def minIndex (weights : List TentativeWeight) (nodes : List ℕ) : Option ℕ := do
  let minWeight := nodes.foldl (fun minWeight node =>
    match weights[node]? with
    | some n => if n.cmp minWeight.1 = .lt then (n, node) else minWeight
    | none => minWeight) (← weights[0]?, 0)
  some minWeight.2

/-- The graph. -/
structure InternetOfThings where
  adjacencyList : List (List Edge)
  nodes : List KeyType

namespace InternetOfThings

/-- A graph without nodes. -/
def new : InternetOfThings := ⟨[], []⟩

/-- The index of a key. -/
def getNodeIndex (g : InternetOfThings) (node : KeyType) : Option ℕ :=
  g.nodes.findIdx? (· == node)

/-- Sets the nodes, without edges. -/
def setNodes (_ : InternetOfThings) (nodes : List KeyType) : InternetOfThings :=
  ⟨List.replicate nodes.length [], nodes⟩

/-- Sets the edges of a node. -/
def setEdges (g : InternetOfThings) (source : KeyType) (edges : List (UInt32 × KeyType)) :
    Option InternetOfThings :=
  let edges := edges.filterMap fun e => (g.getNodeIndex e.2).map fun node => ⟨e.1, node⟩
  match g.getNodeIndex source with
  | some i => do some { g with adjacencyList := ← putAt g.adjacencyList i edges }
  | none => some ⟨g.adjacencyList ++ [edges], g.nodes ++ [source]⟩

end InternetOfThings

/-! ### The search -/

/-- The loop that looks for the nodes of two keys, with the number of the next node. -/
def ends (source target : KeyType) :
    List KeyType → ℕ → Option ℕ × Option ℕ → Option ℕ × Option ℕ
  | [], _, found => found
  | n :: nodes, i, (src, dest) =>
    let src := if n = source then some i else src
    let dest := if n = target then some i else dest
    if src.isSome && dest.isSome then (src, dest) else ends source target nodes (i + 1) (src, dest)

/-- The distance over an edge, if it fits. -/
def TentativeWeight.add (dist : TentativeWeight) (weight : UInt32) : Option TentativeWeight :=
  match dist with
  | .number n => if n.toNat + weight.toNat < 2 ^ 32 then some (.number (n + weight)) else none
  | _ => some .infinite

/-- The body of the inner loop, for an edge from `u`. -/
def relax (u : ℕ) (dist : TentativeWeight) (e : Edge)
    (s : List TentativeWeight × List (Option ℕ)) :
    Option (List TentativeWeight × List (Option ℕ)) := do
  let newDistance ← dist.add e.weight
  let oldDistance ← s.1[e.node]?
  if newDistance.cmp oldDistance = .lt then
    some (← putAt s.1 e.node newDistance, ← putAt s.2 e.node (some u))
  else some s

/-- The state of a search. -/
structure Search where
  distance : List TentativeWeight
  openList : List ℕ
  parent : List (Option ℕ)

namespace InternetOfThings

/-- One round of the outer loop, which is left with whether the destination was found. -/
def searchRound (g : InternetOfThings) (dest : ℕ) (s : Search) :
    Option (Round Search (Bool × Search)) :=
  if s.openList.isEmpty then some (.done (false, s))
  else do
    let u ← minIndex s.distance s.openList
    let (u, openList) ← removeAt s.openList u
    if u = dest then some (.done (true, { s with openList }))
    else
      let dist ← s.distance[u]?
      let edges ← g.adjacencyList[u]?
      let (distance, parent) ← forEach edges (relax u dist) (s.distance, s.parent)
      some (.again ⟨distance, openList, parent⟩)

/-- One round of the loop back from the destination. -/
def backRound (g : InternetOfThings) (parent : List (Option ℕ)) (src : ℕ)
    (s : ℕ × List KeyType) : Option (Round (ℕ × List KeyType) (List KeyType)) :=
  if s.1 = src then some (.done s.2)
  else do
    let key ← g.nodes[s.1]?
    let p ← (← parent[s.1]?)
    some (.again (p, s.2 ++ [key]))

/-- The weight of a shortest path, and the path. -/
def shortestPath (g : InternetOfThings) (source target : KeyType) :
    Option (Option (UInt32 × List KeyType)) :=
  match ends source target g.nodes 0 (none, none) with
  | (some src, some dest) => do
    let distance ← putAt (List.replicate g.nodes.length .infinite) src (.number 0)
    let (found, s) ← loop (g.searchRound dest) (g.nodes.length + 1)
      ⟨distance, List.range g.nodes.length, List.replicate g.nodes.length none⟩
    if found then
      let p ← (← s.parent[dest]?)
      let path ← loop (g.backRound s.parent src) (g.nodes.length + 1) (p, [← g.nodes[dest]?])
      let path := path ++ [← g.nodes[src]?]
      let cost := match ← s.distance[dest]? with
        | .number n => n
        | _ => 0
      some (some (cost, path.reverse))
    else some none
  | _ => some none

end InternetOfThings

/-! ### Graphs that are built -/

/-- A call that builds a graph. -/
inductive Call
  | setNodes (nodes : List KeyType) (distinct : nodes.Nodup)
  | setEdges (source : KeyType) (edges : List (UInt32 × KeyType))

/-- Performs a call. -/
def Call.run : Call → InternetOfThings → Option InternetOfThings
  | .setNodes nodes _, g => some (g.setNodes nodes)
  | .setEdges source edges, g => g.setEdges source edges

/-- A new graph after some calls. -/
def build (calls : List Call) : Option InternetOfThings :=
  forEach calls Call.run .new

namespace InternetOfThings

/-- There is a list of edges for each node, and the edges lead to nodes. -/
structure WellFormed (g : InternetOfThings) : Prop where
  distinct : g.nodes.Nodup
  length : g.adjacencyList.length = g.nodes.length
  inside : ∀ edges ∈ g.adjacencyList, ∀ e ∈ edges, e.node < g.nodes.length

variable {g : InternetOfThings} {key source target : KeyType} {i : ℕ}

theorem getNodeIndex_lt (h : g.getNodeIndex key = some i) : i < g.nodes.length := by
  obtain ⟨hlt, -⟩ := List.findIdx?_eq_some_iff_getElem.mp h
  exact hlt

theorem WellFormed.setNodes {nodes : List KeyType} (hnodes : nodes.Nodup) (g : InternetOfThings) :
    (g.setNodes nodes).WellFormed := by
  refine ⟨hnodes, length_replicate, fun edges hedges e he => ?_⟩
  obtain rfl := (List.mem_replicate.mp hedges).2
  cases he

theorem WellFormed.exists_setEdges (h : g.WellFormed) (source : KeyType)
    (edges : List (UInt32 × KeyType)) :
    ∃ g', g.setEdges source edges = some g' ∧ g'.WellFormed := by
  obtain ⟨new, hnew⟩ : ∃ new, new = edges.filterMap
      fun e => (g.getNodeIndex e.2).map fun node => Edge.mk e.1 node := ⟨_, rfl⟩
  have hinside : ∀ e ∈ new, e.node < g.nodes.length := by
    intro e he
    obtain ⟨⟨weight, key⟩, -, he⟩ := List.mem_filterMap.mp (hnew ▸ he)
    obtain ⟨i, hi, rfl⟩ := Option.map_eq_some_iff.mp he
    exact getNodeIndex_lt hi
  rcases hsource : g.getNodeIndex source with _ | i
  · have hnot : source ∉ g.nodes := by
      intro hmem
      have hall := List.findIdx?_eq_none_iff.mp hsource source hmem
      simp at hall
    refine ⟨⟨g.adjacencyList ++ [new], g.nodes ++ [source]⟩, by rw [setEdges, hsource, hnew],
      List.Nodup.append h.distinct (nodup_singleton source)
        (List.disjoint_singleton.mpr hnot), by simp [h.length], fun es hes e he => ?_⟩
    rw [length_append]
    rcases List.mem_append.mp hes with hes | hes
    · exact Nat.lt_add_right _ (h.inside es hes e he)
    · rw [List.mem_singleton.mp hes] at he
      exact Nat.lt_add_right _ (hinside e he)
  · have hi : i < g.adjacencyList.length := h.length ▸ getNodeIndex_lt hsource
    refine ⟨⟨g.adjacencyList.set i new, g.nodes⟩, ?_, h.distinct, by simp [h.length],
      fun es hes e he => ?_⟩
    · simp [setEdges, hsource, putAt_of_lt hi, hnew]
    · rcases mem_or_eq_of_mem_set hes with hes | rfl
      · exact h.inside es hes e he
      · exact hinside e he

end InternetOfThings

/-- **A graph is built without a failure**, and is well formed. -/
theorem exists_build (calls : List Call) : ∃ g, build calls = some g ∧ g.WellFormed := by
  refine forEach_spec (I := fun _ (g : InternetOfThings) => g.WellFormed)
    ⟨nodup_nil, rfl, fun _ hmem => by cases hmem⟩ ?_
  rintro - (⟨nodes, hnodes⟩ | ⟨source, edges⟩) - g - hg
  · exact ⟨_, rfl, .setNodes hnodes g⟩
  · exact hg.exists_setEdges source edges

/-! ### The two keys -/

section Ends

variable {source target : KeyType} {nodes : List KeyType} {a b : Option ℕ} {i j k : ℕ}

theorem ends_fst (h : source ∉ nodes) (i : ℕ) (a b : Option ℕ) :
    (ends source target nodes i (a, b)).1 = a := by
  induction nodes generalizing i b with
  | nil => rfl
  | cons n nodes ih =>
    rw [mem_cons, not_or] at h
    simp only [ends, if_neg (Ne.symm h.1)]
    split_ifs
    all_goals first | rfl | exact ih h.2 _ _

theorem ends_swap (source target : KeyType) (nodes : List KeyType) (i : ℕ) (a b : Option ℕ) :
    ends target source nodes i (b, a) = (ends source target nodes i (a, b)).swap := by
  induction nodes generalizing i a b with
  | nil => rfl
  | cons n nodes ih =>
    simp only [ends, ih, Bool.and_comm (if n = target then some i else b).isSome]
    split_ifs <;> rfl

theorem ends_snd (h : target ∉ nodes) (i : ℕ) (a b : Option ℕ) :
    (ends source target nodes i (a, b)).2 = b := by
  rw [ends_swap, Prod.snd_swap, ends_fst h]

theorem ends_of_left (h : source ∉ nodes) (hk : nodes[k]? = some target) (hnodes : nodes.Nodup)
    (i j : ℕ) : ends source target nodes i (some j, none) = (some j, some (i + k)) := by
  induction nodes generalizing i k with
  | nil => simp at hk
  | cons n nodes ih =>
    rw [mem_cons, not_or] at h
    rcases k with _ | k
    · obtain rfl := Option.some.inj hk
      simp [ends, Ne.symm h.1]
    · rw [getElem?_cons_succ] at hk
      have hne : n ≠ target := by
        rintro rfl
        exact (List.nodup_cons.mp hnodes).1 (mem_of_getElem? hk)
      simp only [ends, if_neg (Ne.symm h.1), if_neg hne]
      rw [if_neg (by simp), ih h.2 hk hnodes.of_cons]
      congr 2
      omega

theorem ends_of_right (h : target ∉ nodes) (hk : nodes[k]? = some source) (hnodes : nodes.Nodup)
    (i j : ℕ) : ends source target nodes i (none, some j) = (some (i + k), some j) := by
  rw [ends_swap, ends_of_left h hk hnodes, Prod.swap_prod_mk]

/-- **The nodes of the two keys are found.** -/
theorem ends_eq (hj : nodes[j]? = some source) (hk : nodes[k]? = some target)
    (hnodes : nodes.Nodup) (i : ℕ) :
    ends source target nodes i (none, none) = (some (i + j), some (i + k)) := by
  induction nodes generalizing i j k with
  | nil => simp at hk
  | cons n nodes ih =>
    obtain ⟨hn, hrest⟩ := List.nodup_cons.mp hnodes
    rcases j with _ | j <;> rcases k with _ | k
    · obtain rfl := Option.some.inj hj
      obtain rfl := Option.some.inj hk
      simp [ends]
    · obtain rfl := Option.some.inj hj
      rw [getElem?_cons_succ] at hk
      have hne : n ≠ target := fun heq => hn (heq ▸ mem_of_getElem? hk)
      simp only [ends, if_pos, if_neg hne]
      rw [if_neg (by simp), ends_of_left hn hk hrest]
      simp only [Prod.mk.injEq, Option.some.injEq]
      omega
    · obtain rfl := Option.some.inj hk
      rw [getElem?_cons_succ] at hj
      have hne : n ≠ source := fun heq => hn (heq ▸ mem_of_getElem? hj)
      simp only [ends, if_pos, if_neg hne]
      rw [if_neg (by simp), ends_of_right hn hj hrest]
      simp only [Prod.mk.injEq, Option.some.injEq]
      omega
    · rw [getElem?_cons_succ] at hj hk
      have hs : n ≠ source := fun heq => hn (heq ▸ mem_of_getElem? hj)
      have ht : n ≠ target := fun heq => hn (heq ▸ mem_of_getElem? hk)
      simp only [ends, if_neg hs, if_neg ht]
      rw [if_neg (by simp), ih hj hk hrest]
      simp only [Prod.mk.injEq, Option.some.injEq]
      omega

end Ends

/-! ### Paths -/

namespace InternetOfThings

/-- An edge between nodes by their numbers. -/
def Leads (g : InternetOfThings) (u w v : ℕ) : Prop :=
  ∃ edges, g.adjacencyList[u]? = some edges ∧ ∃ e ∈ edges, e.weight.toNat = w ∧ e.node = v

/-- An edge between nodes by their keys. -/
def HasEdge (g : InternetOfThings) (a : KeyType) (w : ℕ) (b : KeyType) : Prop :=
  ∃ u v, g.nodes[u]? = some a ∧ g.nodes[v]? = some b ∧ g.Leads u w v

/-- A path along existing edges, with its keys and its weight. -/
def Path (g : InternetOfThings) (source : KeyType) (path : List KeyType) (cost : ℕ)
    (target : KeyType) : Prop :=
  source ∈ g.nodes ∧ ∃ l, WeightedWalk g.HasEdge source l cost target ∧ path = l ++ [target]

variable {g : InternetOfThings} {source target : KeyType} {src dest w : ℕ} {u v : ℕ}

theorem WellFormed.leads_lt (h : g.WellFormed) (hleads : g.Leads u w v) :
    u < g.nodes.length ∧ v < g.nodes.length := by
  obtain ⟨edges, hedges, e, he, -, rfl⟩ := hleads
  obtain ⟨hlt, -⟩ := List.getElem?_eq_some_iff.mp hedges
  exact ⟨h.length ▸ hlt, h.inside edges (mem_of_getElem? hedges) e he⟩

/-- A walk along the keys is one along the numbers. -/
theorem WellFormed.exists_walk (h : g.WellFormed) (hsrc : g.nodes[src]? = some source)
    {l : List KeyType} (hwalk : WeightedWalk g.HasEdge source l w target) :
    ∃ l' dest, g.nodes[dest]? = some target ∧ WeightedWalk g.Leads src l' w dest := by
  induction hwalk with
  | nil => exact ⟨[], src, hsrc, .nil⟩
  | snoc _ hedge ih =>
    obtain ⟨l', u, hu, hwalk⟩ := ih
    obtain ⟨u', v, hu', hv, hleads⟩ := hedge
    obtain ⟨hlt, -⟩ := List.getElem?_eq_some_iff.mp hu'
    obtain rfl := (getElem?_inj hlt h.distinct).mp (hu'.trans hu.symm)
    exact ⟨l' ++ [u'], v, hv, hwalk.snoc hleads⟩

/-- A walk along the numbers is one along the keys. -/
theorem WellFormed.exists_keys (h : g.WellFormed) (hsrc : g.nodes[src]? = some source)
    {l : List ℕ} (hwalk : WeightedWalk g.Leads src l w dest) :
    ∃ ks target, g.nodes[dest]? = some target ∧ WeightedWalk g.HasEdge source ks w target := by
  induction hwalk with
  | nil => exact ⟨[], source, hsrc, .nil⟩
  | snoc _ hleads ih =>
    obtain ⟨ks, b, hb, hwalk⟩ := ih
    have hc := getElem?_eq_getElem (h.leads_lt hleads).2
    exact ⟨ks ++ [b], _, hc, hwalk.snoc ⟨_, _, hb, hc, hleads⟩⟩

end InternetOfThings

end RustExample.DeviceGraph
