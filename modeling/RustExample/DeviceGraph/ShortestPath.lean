import RustExample.DeviceGraph.Graph

/-!
# Shortest paths in a graph of devices

The search for a shortest path takes as the next node the one at a position of the open list, and
that position is a node number which `min_index` gives. So the nodes are not taken nearest first.
The distance of a node is the least weight of a walk that leaves nodes in the order in which they
are taken, and the answer is right if a walk of least weight does so.
-/

namespace RustExample.DeviceGraph

open Function List

/-! ### Tentative weights -/

namespace TentativeWeight

variable {a b : TentativeWeight} {w : UInt32}

/-- The distance as a number. -/
def value : TentativeWeight → ℕ∞
  | .infinite => ⊤
  | .number n => (n.toNat : ℕ)

theorem cmp_eq_lt_iff : a.cmp b = .lt ↔ a.value < b.value := by
  rcases a with _ | s <;> rcases b with _ | o
  · simp [cmp, value]
  · simp [cmp, value]
  · simp [cmp, value]
  · rw [cmp, show compare s o = compareOfLessAndEq s o from rfl, compareOfLessAndEq_eq_lt, value,
      value, ENat.natCast_lt_natCast]
    exact UInt32.lt_iff_toNat_lt

/-- A sum fits, or the weight is finite and the sum is too large. -/
theorem exists_add_iff :
    (∃ c, a.add w = some c) ↔ ∀ d : ℕ, a.value = d → d + w.toNat < 2 ^ 32 := by
  rcases a with _ | n
  · exact iff_of_true ⟨_, rfl⟩ fun d hd => absurd hd.symm (ENat.natCast_ne_top d)
  · simp only [add, value, ENat.natCast_inj, forall_eq']
    split_ifs with h
    · exact iff_of_true ⟨_, rfl⟩ h
    · exact iff_of_false (by simp) h

theorem value_add {c : TentativeWeight} (h : a.add w = some c) :
    c.value = a.value + w.toNat := by
  rcases a with _ | n
  · obtain ⟨⟩ := h
    simp [value]
  · simp only [add, Option.ite_none_right_eq_some, Option.some.injEq] at h
    obtain ⟨hlt, rfl⟩ := h
    rw [value, value, UInt32.toNat_add, Nat.mod_eq_of_lt hlt, ENat.natCast_add]

end TentativeWeight

/-! ### The next number -/

/-- The number that `min_index` gives: 0 if nothing is nearer than the node 0, and otherwise the
first of the nearest. -/
def IsMinIndex (label : ℕ → ℕ∞) (openList : List ℕ) (m : ℕ) : Prop :=
  (m = 0 ∧ ∀ v ∈ openList, label 0 ≤ label v) ∨
  ∃ before after, openList = before ++ m :: after ∧ label m < label 0 ∧
    (∀ v ∈ before, label m < label v) ∧ ∀ v ∈ after, label m ≤ label v

section MinIndex

variable {label : ℕ → ℕ∞} {openList : List ℕ} {m m' n v : ℕ}

theorem IsMinIndex.le (h : IsMinIndex label openList m) (hv : v ∈ openList) :
    label m ≤ label v := by
  rcases h with ⟨rfl, h⟩ | ⟨before, after, rfl, -, hbefore, hafter⟩
  · exact h v hv
  · rcases List.mem_append.mp hv with hv | hv
    · exact (hbefore v hv).le
    · rcases List.mem_cons.mp hv with rfl | hv
      · exact le_rfl
      · exact hafter v hv

theorem IsMinIndex.unique (h : IsMinIndex label openList m) (h' : IsMinIndex label openList m') :
    m = m' := by
  have hle := fun v hv => h.le (v := v) hv
  have hle' := fun v hv => h'.le (v := v) hv
  rcases h with ⟨rfl, h⟩ | ⟨before, after, heq, hlt, hbefore, -⟩ <;>
    rcases h' with ⟨rfl, h'⟩ | ⟨before', after', heq', hlt', hbefore', -⟩
  · rfl
  · exact absurd hlt' (not_lt.mpr (h m' (by simp [heq'])))
  · exact absurd hlt (not_lt.mpr (h' m (by simp [heq])))
  · rcases List.append_eq_append_iff.mp (heq.symm.trans heq') with ⟨as, hb, ha⟩ | ⟨as, hb, ha⟩
    · rcases as with _ | ⟨a, as⟩
      · exact (List.cons.inj ha).1
      · obtain rfl := (List.cons.inj ha).1
        exact absurd (hbefore' m (by simp [hb])) (not_lt.mpr (hle m' (by simp [heq'])))
    · rcases as with _ | ⟨a, as⟩
      · exact (List.cons.inj ha).1.symm
      · obtain rfl := (List.cons.inj ha).1
        exact absurd (hbefore m' (by simp [hb])) (not_lt.mpr (hle' m (by simp [heq])))

theorem IsMinIndex.of_lt (h : IsMinIndex label openList m) (hlt : label v < label m) :
    IsMinIndex label (openList ++ [v]) v := by
  refine .inr ⟨openList, [], rfl, ?_, fun w hw => hlt.trans_le (h.le hw), by simp⟩
  rcases h with ⟨rfl, -⟩ | ⟨before, after, -, h, -⟩
  · exact hlt
  · exact hlt.trans h

theorem IsMinIndex.of_le (h : IsMinIndex label openList m) (hle : label m ≤ label v) :
    IsMinIndex label (openList ++ [v]) m := by
  rcases h with ⟨rfl, h⟩ | ⟨before, after, rfl, h, hbefore, hafter⟩
  · refine .inl ⟨rfl, fun w hw => ?_⟩
    rcases List.mem_append.mp hw with hw | hw
    · exact h w hw
    · exact List.mem_singleton.mp hw ▸ hle
  · refine .inr ⟨before, after ++ [v], by simp, h, hbefore, fun w hw => ?_⟩
    rcases List.mem_append.mp hw with hw | hw
    · exact hafter w hw
    · exact List.mem_singleton.mp hw ▸ hle

/-- **`min_index`** on the distances of the nodes. -/
theorem exists_minIndex {dist : ℕ → TentativeWeight} (hn : 0 < n) (hopen : ∀ v ∈ openList, v < n) :
    ∃ m, minIndex ((List.range n).map dist) openList = some m ∧
      IsMinIndex (fun v => (dist v).value) openList m := by
  have hget : ∀ v, v < n → ((List.range n).map dist)[v]? = some (dist v) := by
    intro v hv
    rw [getElem?_map, getElem?_range hv, Option.map_some]
  suffices h : ∀ f : TentativeWeight × ℕ → ℕ → TentativeWeight × ℕ,
      (∀ best v, v < n → f best v = if (dist v).cmp best.1 = .lt then (dist v, v) else best) →
      ∃ m, openList.foldl f (dist 0, 0) = (dist m, m) ∧
        IsMinIndex (fun v => (dist v).value) openList m by
    simp only [minIndex, hget 0 hn, Option.bind_eq_bind, Option.bind_some]
    refine (h _ fun best v hv => ?_).imp fun m hm => ⟨congrArg (fun best => some best.2) hm.1, hm.2⟩
    rw [hget v hv]
  intro f hf
  induction openList using List.reverseRecOn with
  | nil => exact ⟨0, rfl, .inl ⟨rfl, by simp⟩⟩
  | append_singleton openList v ih =>
    obtain ⟨m, hfold, hm⟩ := ih fun v hv => hopen v (mem_append_left _ hv)
    rw [foldl_append, foldl_cons, foldl_nil, hfold,
      hf _ v (hopen v (mem_append_right _ (mem_singleton_self v)))]
    split_ifs with hlt
    · exact ⟨v, rfl, hm.of_lt (TentativeWeight.cmp_eq_lt_iff.mp hlt)⟩
    · exact ⟨m, rfl, hm.of_le (not_lt.mp (mt TentativeWeight.cmp_eq_lt_iff.mpr hlt))⟩

end MinIndex

/-! ### Distances and parents -/

namespace InternetOfThings

variable {g : InternetOfThings} {src dest u n m : ℕ} {label : ℕ → ℕ∞} {e : Edge} {edges : List Edge}
  {s : List TentativeWeight × List (Option ℕ)} {d c : TentativeWeight} {taken : List ℕ}

/-- The vectors hold the distances that belong to a label, and the parents for these. -/
def Keeps (g : InternetOfThings) (src : ℕ) (label : ℕ → ℕ∞)
    (s : List TentativeWeight × List (Option ℕ)) : Prop :=
  ∃ dist parent rank, s.1 = (List.range g.nodes.length).map dist ∧
    s.2 = (List.range g.nodes.length).map parent ∧ (∀ v, (dist v).value = label v) ∧
    Parents g.Leads src label parent rank

theorem getElem?_map_range {β : Type} (f : ℕ → β) (h : u < n) :
    ((List.range n).map f)[u]? = some (f u) := by
  rw [getElem?_map, getElem?_range h, Option.map_some]

/-- A write to a vector that holds the values of a function. -/
theorem putAt_map_range {β : Type} (f : ℕ → β) (h : u < n) (b : β) :
    putAt ((List.range n).map f) u b = some ((List.range n).map (update f u b)) := by
  rw [putAt_of_lt (by simpa using h), Option.some_inj]
  refine ext_getElem (by simp) fun i hi _ => ?_
  rw [getElem_set, getElem_map, getElem_range, getElem_map, getElem_range]
  split_ifs with hui
  · rw [hui, update_self]
  · rw [update_of_ne (Ne.symm hui)]

theorem Keeps.init (g : InternetOfThings) (hsrc : src < g.nodes.length) :
    ∃ distance, putAt (List.replicate g.nodes.length .infinite) src (.number 0) = some distance ∧
      g.Keeps src (within g.Leads src []) (distance, List.replicate g.nodes.length none) := by
  have hrep : ∀ {β : Type} (b : β), List.replicate g.nodes.length b =
      (List.range g.nodes.length).map fun _ => b := by simp
  have hlabel : within g.Leads src [] = update (fun _ => ⊤) src 0 := by
    funext v
    by_cases hv : v = src
    · rw [hv, within_start, update_self]
    · rw [within_nil hv, update_of_ne hv]
  refine ⟨_, by rw [hrep, putAt_map_range _ hsrc], _, _, _, rfl, hrep none, fun v => ?_,
    hlabel ▸ Parents.init g.Leads src⟩
  rw [hlabel]
  by_cases hv : v = src
  · rw [hv, update_self, update_self]
    rfl
  · rw [update_of_ne hv, update_of_ne hv]
    rfl

/-- **One edge.** -/
theorem Keeps.exists_relax (h : g.Keeps src label s) (hd : d.value = label u)
    (hadd : d.add e.weight = some c) (he : e.node < g.nodes.length)
    (hleads : g.Leads u e.weight.toNat e.node) :
    ∃ s', relax u d e s = some s' ∧ g.Keeps src
      (update label e.node (min (label e.node) (label u + e.weight.toNat))) s' := by
  obtain ⟨dist, parent, rank, hdist, hparent, hvalue, hparents⟩ := h
  have hc : c.value = label u + e.weight.toNat := hd ▸ TentativeWeight.value_add hadd
  have hget : s.1[e.node]? = some (dist e.node) := hdist ▸ getElem?_map_range dist he
  by_cases hlt : label u + e.weight.toNat < label e.node
  · have hcmp : c.cmp (dist e.node) = .lt := by
      rw [TentativeWeight.cmp_eq_lt_iff, hc, hvalue]
      exact hlt
    rw [min_eq_right hlt.le]
    refine ⟨((List.range g.nodes.length).map (update dist e.node c),
      (List.range g.nodes.length).map (update parent e.node (some u))), ?_,
      update dist e.node c, update parent e.node (some u),
      update rank e.node (rank u + 1), rfl, rfl, fun v => ?_, hparents.relax hleads hlt⟩
    · have hput := hdist ▸ putAt_map_range dist he c
      have hputp := hparent ▸ putAt_map_range parent he (some u)
      simp [relax, hadd, hget, hcmp, hput, hputp]
    · by_cases hv : v = e.node
      · rw [hv, update_self, update_self, hc]
      · rw [update_of_ne hv, update_of_ne hv, hvalue]
  · have hcmp : c.cmp (dist e.node) ≠ .lt := by
      rw [Ne, TentativeWeight.cmp_eq_lt_iff, hc, hvalue]
      exact hlt
    rw [min_eq_left (not_lt.mp hlt), update_eq_self]
    exact ⟨s, by simp [relax, hadd, hget, hcmp], dist, parent, rank, hdist, hparent, hvalue,
      hparents⟩

/-- **All edges of a node**, which is taken with that. -/
theorem WellFormed.exists_relaxAll (hg : g.WellFormed)
    (h : g.Keeps src (within g.Leads src taken) s) (hd : d.value = within g.Leads src taken u)
    (hedges : g.adjacencyList[u]? = some edges) (hadd : ∀ e ∈ edges, ∃ c, d.add e.weight = some c) :
    ∃ s', forEach edges (relax u d) s = some s' ∧
      g.Keeps src (within g.Leads src (taken ++ [u])) s' := by
  have hmem : ∀ e ∈ edges, g.Leads u e.weight.toNat e.node := fun e he =>
    ⟨edges, hedges, e, he, rfl, rfl⟩
  suffices hrun : ∃ s', forEach edges (relax u d) s = some s' ∧ ∃ label', g.Keeps src label' s' ∧
      (∀ v, label' v ≤ within g.Leads src taken v) ∧
      (∀ e ∈ edges, label' e.node ≤ within g.Leads src taken u + e.weight.toNat) ∧
      ∀ v, label' v = within g.Leads src taken v ∨
        ∃ w : ℕ, g.Leads u w v ∧ label' v = within g.Leads src taken u + w by
    obtain ⟨s', hrun, label', hkeeps, hle, hall, hor⟩ := hrun
    have heq : within g.Leads src (taken ++ [u]) = label' := by
      funext v
      refine within_concat (hle v) (fun w hw => ?_) (hor v)
      obtain ⟨edges', hedges', e, he, rfl, rfl⟩ := hw
      obtain ⟨⟩ := hedges'.symm.trans hedges
      exact hall e he
    exact ⟨s', hrun, heq ▸ hkeeps⟩
  refine forEach_spec (I := fun (done : List Edge) s' => ∃ label', g.Keeps src label' s' ∧
      (∀ v, label' v ≤ within g.Leads src taken v) ∧
      (∀ e ∈ done, label' e.node ≤ within g.Leads src taken u + e.weight.toNat) ∧
      ∀ v, label' v = within g.Leads src taken v ∨
        ∃ w : ℕ, g.Leads u w v ∧ label' v = within g.Leads src taken u + w)
    ⟨_, h, fun _ => le_rfl, nofun, fun _ => .inl rfl⟩ ?_
  rintro done e after s₁ rfl ⟨label₁, hkeeps, hle, hall, hor⟩
  have he : e ∈ done ++ e :: after := by simp
  -- an edge from `u` to itself changes nothing
  have hu : label₁ u = within g.Leads src taken u := by
    rcases hor u with heq | ⟨w, -, heq⟩
    · exact heq
    · exact le_antisymm (hle u) (heq ▸ le_self_add)
  obtain ⟨c, hc⟩ := hadd e he
  obtain ⟨s', hrun, hkeeps'⟩ := hkeeps.exists_relax (hd.trans hu.symm) hc
    (hg.leads_lt (hmem e he)).2 (hmem e he)
  have hnew : ∀ v, update label₁ e.node
      (min (label₁ e.node) (label₁ u + e.weight.toNat)) v ≤ label₁ v := by
    intro v
    by_cases hv : v = e.node
    · rw [hv, update_self]
      exact min_le_left _ _
    · rw [update_of_ne hv]
  refine ⟨s', hrun, _, hkeeps', fun v => (hnew v).trans (hle v), fun e' he' => ?_, fun v => ?_⟩
  · rcases List.mem_append.mp he' with he' | he'
    · exact (hnew _).trans (hall e' he')
    · rw [List.mem_singleton.mp he', update_self, hu]
      exact min_le_right _ _
  · by_cases hv : v = e.node
    · rw [hv, update_self]
      rcases min_choice (label₁ e.node) (label₁ u + e.weight.toNat) with hmin | hmin
      · rw [hmin]
        exact hor e.node
      · exact .inr ⟨_, hmem e he, by rw [hmin, hu]⟩
    · rw [update_of_ne hv]
      exact hor v

/-- A loop over the edges that does not fail has added up every weight. -/
theorem exists_add_of_forEach {s' : List TentativeWeight × List (Option ℕ)}
    (h : forEach edges (relax u d) s = some s') : ∀ e ∈ edges, ∃ c, d.add e.weight = some c := by
  induction edges generalizing s with
  | nil => nofun
  | cons e edges ih =>
    rw [forEach_cons] at h
    obtain ⟨s₁, hrun, hrest⟩ := Option.bind_eq_some_iff.mp h
    refine List.forall_mem_cons.mpr ⟨?_, ih hrest⟩
    obtain ⟨c, hc, -⟩ := Option.bind_eq_some_iff.mp hrun
    exact ⟨c, hc⟩

/-! ### The nodes that are taken -/

/-- From nodes that were taken and an open list on, the search comes to the destination: every
number of `min_index` is a position of the open list, and every sum fits. -/
inductive TakesUntil (g : InternetOfThings) (src dest : ℕ) : List ℕ → List ℕ → List ℕ → Prop
  | stop {taken openList : List ℕ} {m : ℕ} (hm : IsMinIndex (within g.Leads src taken) openList m)
    (hget : openList[m]? = some dest) : TakesUntil g src dest taken openList taken
  | take {taken openList all : List ℕ} {m u : ℕ}
    (hm : IsMinIndex (within g.Leads src taken) openList m) (hget : openList[m]? = some u)
    (hne : u ≠ dest)
    (hfits : ∀ d w v : ℕ, within g.Leads src taken u = d → g.Leads u w v → d + w < 2 ^ 32)
    (h : TakesUntil g src dest (taken ++ [u]) (openList.eraseIdx m) all) :
    TakesUntil g src dest taken openList all

/-- **One round** takes the node at the position that `min_index` gives. -/
theorem WellFormed.searchRound_eq (hg : g.WellFormed) {s : Search}
    (h : g.Keeps src (within g.Leads src taken) (s.distance, s.parent))
    (hopen : ∀ v ∈ s.openList, v < g.nodes.length)
    (hm : IsMinIndex (within g.Leads src taken) s.openList m) (hget : s.openList[m]? = some u)
    (dest : ℕ) : ∃ d edges, d.value = within g.Leads src taken u ∧
      g.adjacencyList[u]? = some edges ∧
      g.searchRound dest s =
        if u = dest then some (.done (true, { s with openList := s.openList.eraseIdx m }))
        else (forEach edges (relax u d) (s.distance, s.parent)).map
          fun s' => .again ⟨s'.1, s.openList.eraseIdx m, s'.2⟩ := by
  obtain ⟨dist, parent, rank, hdist, -, hvalue, -⟩ := h
  have hu := hopen u (mem_of_getElem? hget)
  obtain ⟨m', hrun, hm'⟩ : ∃ m', minIndex ((List.range g.nodes.length).map dist) s.openList =
      some m' ∧ IsMinIndex (fun v => (dist v).value) s.openList m' :=
    exists_minIndex (Nat.zero_lt_of_lt hu) hopen
  simp only [hvalue] at hm'
  obtain rfl := hm'.unique hm
  have hne : s.openList.isEmpty = false := by
    rw [isEmpty_eq_false_iff]
    rintro hnil
    simp [hnil] at hget
  have hedges := getElem?_eq_getElem (hg.length ▸ hu)
  dsimp only at hdist
  have hgetd : s.distance[u]? = some (dist u) := hdist ▸ getElem?_map_range dist hu
  refine ⟨dist u, _, hvalue u, hedges, ?_⟩
  rw [← hdist] at hrun
  simp [searchRound, hne, hrun, removeAt, hget, hgetd, hedges, Option.map_eq_bind]

theorem mem_eraseIdx_of_ne {l : List ℕ} {i a b : ℕ} (ha : a ∈ l) (hi : l[i]? = some b)
    (hne : a ≠ b) : a ∈ l.eraseIdx i := by
  obtain ⟨j, hj⟩ := getElem?_of_mem ha
  refine List.mem_eraseIdx_iff_getElem?.mpr ⟨j, ?_, hj⟩
  rintro rfl
  exact hne (Option.some.inj (hj.symm.trans hi))

/-- A search that ends has taken the nodes as `TakesUntil` says. -/
theorem WellFormed.takesUntil_of_loop (hg : g.WellFormed) {bound : ℕ} {s s' : Search}
    {found : Bool} (h : g.Keeps src (within g.Leads src taken) (s.distance, s.parent))
    (hopen : ∀ v ∈ s.openList, v < g.nodes.length) (hdest : dest ∈ s.openList)
    (hrun : loop (g.searchRound dest) bound s = some (found, s')) :
    found = true ∧ ∃ all, g.TakesUntil src dest taken s.openList all ∧
      g.Keeps src (within g.Leads src all) (s'.distance, s'.parent) := by
  induction bound generalizing s taken with
  | zero => cases hrun
  | succ bound ih =>
    -- which number `min_index` gives; outside the open list the round fails
    obtain ⟨dist, parent, rank, hdist, -, hvalue, -⟩ := id h
    obtain ⟨m, hmin, hm⟩ : ∃ m, minIndex ((List.range g.nodes.length).map dist) s.openList =
        some m ∧ IsMinIndex (fun v => (dist v).value) s.openList m :=
      exists_minIndex (Nat.zero_lt_of_lt (hopen dest hdest)) hopen
    simp only [hvalue] at hm
    rw [← hdist] at hmin
    rcases hget : s.openList[m]? with _ | u
    · have hne : s.openList.isEmpty = false := List.isEmpty_eq_false_iff.mpr
        (ne_nil_of_mem hdest)
      simp [loop, searchRound, hne, hmin, removeAt, hget] at hrun
    obtain ⟨d, edges, hd, hedges, hround⟩ := hg.searchRound_eq h hopen hm hget dest
    by_cases hu : u = dest
    · rw [if_pos hu] at hround
      simp only [loop, hround, Option.some.injEq, Prod.mk.injEq] at hrun
      obtain ⟨rfl, rfl⟩ := hrun
      exact ⟨rfl, taken, .stop hm (hu ▸ hget), h⟩
    · rw [if_neg hu] at hround
      rcases hrelax : forEach edges (relax u d) (s.distance, s.parent) with _ | s₁
      · simp [loop, hround, hrelax] at hrun
      · have hadd := exists_add_of_forEach hrelax
        obtain ⟨s₂, hrelax', hkeeps⟩ := hg.exists_relaxAll h hd hedges hadd
        obtain ⟨⟩ := hrelax.symm.trans hrelax'
        simp only [loop, hround, hrelax, Option.map_some] at hrun
        obtain ⟨hfound, all, htakes, hkeeps'⟩ := ih hkeeps
          (fun v hv => hopen v (mem_of_mem_eraseIdx hv))
          (mem_eraseIdx_of_ne hdest hget (Ne.symm hu)) hrun
        refine ⟨hfound, all, .take hm hget hu (fun n w v hn hleads => ?_) htakes, hkeeps'⟩
        obtain ⟨edges', hedges', e, he, rfl, -⟩ := hleads
        obtain ⟨⟩ := hedges'.symm.trans hedges
        exact TentativeWeight.exists_add_iff.mp (hadd e he) n (hd.trans hn)

/-- A search ends, if it takes the nodes as `TakesUntil` says. -/
theorem WellFormed.exists_loop (hg : g.WellFormed) {openList all : List ℕ}
    (htakes : g.TakesUntil src dest taken openList all) {bound : ℕ} {s : Search}
    (hs : s.openList = openList)
    (h : g.Keeps src (within g.Leads src taken) (s.distance, s.parent))
    (hopen : ∀ v ∈ openList, v < g.nodes.length) (hbound : openList.length < bound) :
    ∃ s', loop (g.searchRound dest) bound s = some (true, s') ∧
      g.Keeps src (within g.Leads src all) (s'.distance, s'.parent) := by
  induction htakes generalizing s bound with
  | stop hm hget =>
    obtain ⟨bound, rfl⟩ := Nat.exists_eq_succ_of_ne_zero (Nat.ne_zero_of_lt hbound)
    obtain ⟨d, edges, -, -, hround⟩ := hg.searchRound_eq h (hs ▸ hopen) (hs ▸ hm) (hs ▸ hget) dest
    rw [if_pos rfl] at hround
    exact ⟨{ s with openList := s.openList.eraseIdx _ }, by rw [loop, hround], h⟩
  | take hm hget hne hfits _ ih =>
    obtain ⟨bound, rfl⟩ := Nat.exists_eq_succ_of_ne_zero (Nat.ne_zero_of_lt hbound)
    obtain ⟨d, edges, hd, hedges, hround⟩ :=
      hg.searchRound_eq h (hs ▸ hopen) (hs ▸ hm) (hs ▸ hget) dest
    rw [if_neg hne] at hround
    obtain ⟨s₁, hrelax, hkeeps⟩ := hg.exists_relaxAll h hd hedges fun e he =>
      TentativeWeight.exists_add_iff.mpr fun n hn =>
        hfits n _ _ (hd.symm.trans hn) ⟨edges, hedges, e, he, rfl, rfl⟩
    obtain ⟨hlt, -⟩ := List.getElem?_eq_some_iff.mp hget
    have hlen := length_eraseIdx_of_lt hlt
    obtain ⟨s', hrun, hkeeps'⟩ := ih (s := ⟨s₁.1, s.openList.eraseIdx _, s₁.2⟩) (by rw [hs]) hkeeps
      (fun v hv => hopen v (mem_of_mem_eraseIdx hv)) (show List.length _ < bound by omega)
    refine ⟨s', ?_, hkeeps'⟩
    simp only [loop, hround, hrelax, Option.map_some]
    exact hrun

/-! ### The way back -/

variable {source target : KeyType} {p w : ℕ} {parents : List (Option ℕ)}

/-- **The way back** from a node with a parent is a path, not heavier than the node's distance:
those before it may be lower since. -/
theorem WellFormed.exists_back (hg : g.WellFormed) (hsrc : g.nodes[src]? = some source)
    (hdest : g.nodes[dest]? = some target) (h : g.Keeps src label s)
    (hp : s.2[dest]? = some (some p)) :
    ∃ path, loop (g.backRound s.2 src) (g.nodes.length + 1) (p, [target]) = some path ∧
      ∃ cost : ℕ, g.Path source (path ++ [source]).reverse cost target ∧ cost ≤ label dest := by
  obtain ⟨dist, parent, rank, -, hparent, -, hparents⟩ := h
  have hlen := fun {v} {key : KeyType} (hv : g.nodes[v]? = some key) =>
    (List.getElem?_eq_some_iff.mp hv).1
  have hget : ∀ v, v < g.nodes.length → s.2[v]? = some (parent v) := fun v hv =>
    hparent ▸ getElem?_map_range parent hv
  have hstep : ∀ v q, parent v = some q → label v ≠ ⊤ ∧ v ≠ src := by
    intro v q hv
    refine ⟨fun htop => ?_, ?_⟩
    · rw [hparents.far v htop] at hv
      cases hv
    · rintro rfl
      rw [hparents.root] at hv
      cases hv
  have hdp : parent dest = some p :=
    Option.some.inj ((hget dest (hlen hdest)).symm.trans hp)
  refine loop_spec (I := fun s' => label s'.1 ≠ ⊤ ∧ ∃ key l, ∃ cost : ℕ,
      g.nodes[s'.1]? = some key ∧ WeightedWalk g.HasEdge key l cost target ∧
      l ++ [target] = key :: s'.2.reverse ∧ label s'.1 + cost ≤ label dest)
    (fun s' => countNearer label rank (Finset.range g.nodes.length) s'.1) ?_ ?_ ?_
  · rintro ⟨v, path⟩ ⟨hv, key, l, cost, hkey, hwalk, hl, hle⟩
    by_cases hvs : v = src
    · subst hvs
      obtain ⟨⟩ := hsrc.symm.trans hkey
      refine .inr ⟨path, by simp [backRound], cost, ⟨mem_of_getElem? hsrc, l, hwalk, ?_⟩, ?_⟩
      · rw [hl, reverse_append]
        rfl
      · rw [hparents.label_start, zero_add] at hle
        exact hle
    · obtain ⟨q, w, hq, hleads, hqw, hnearer⟩ := hparents.parent v hvs hv
      have hqlt := (hg.leads_lt hleads).1
      have hqkey := getElem?_eq_getElem hqlt
      refine .inl ⟨(q, path ++ [key]), ?_, ⟨fun htop => ?_, g.nodes[q], g.nodes[q] :: l, w + cost,
        hqkey, hwalk.cons ⟨q, v, hqkey, hkey, hleads⟩, ?_, ?_⟩, ?_⟩
      · simp [backRound, hvs, hkey, hget v (hlen hkey), hq]
      · rw [htop, top_add, top_le_iff] at hqw
        exact hv hqw
      · simp [hl]
      · rw [ENat.natCast_add, ← add_assoc]
        exact (add_le_add_left hqw _).trans hle
      · exact hnearer.countNearer_lt (Finset.mem_range.mpr hqlt)
  · obtain ⟨hfar, hne⟩ := hstep dest p hdp
    obtain ⟨q, w, hq, hleads, hqw, -⟩ := hparents.parent dest hne hfar
    obtain ⟨⟩ := hdp.symm.trans hq
    have hplt := (hg.leads_lt hleads).1
    have hqkey := getElem?_eq_getElem hplt
    refine ⟨fun htop => ?_, g.nodes[p], [g.nodes[p]], w + 0, hqkey,
      WeightedWalk.nil.cons ⟨p, dest, hqkey, hdest, hleads⟩, rfl, hqw⟩
    rw [htop, top_add, top_le_iff] at hqw
    exact hfar hqw
  · refine Nat.lt_succ_of_le ((countNearer_le ..).trans ?_)
    rw [Finset.card_range]

/-! ### Answers -/

/-- Right: `None` if a key is absent or there is no path, and else a path of least weight. -/
def Right (g : InternetOfThings) (source target : KeyType) : Prop :=
  ∃ answer, g.shortestPath source target = some answer ∧
    (answer = none ↔ source ∉ g.nodes ∨ target ∉ g.nodes ∨
      ¬∃ path cost, g.Path source path cost target) ∧
    ∀ cost path, answer = some (cost, path) → g.Path source path cost.toNat target ∧
      (∀ path' cost', g.Path source path' cost' target → cost.toNat ≤ cost') ∧
      (source = target → cost = 0 ∧ path = [source])

/-- The keys are those of different nodes, and a walk of least weight between them leaves nodes in
the order in which they are taken before the destination. -/
def InOrder (g : InternetOfThings) (source target : KeyType) : Prop :=
  ∃ src dest, g.nodes[src]? = some source ∧ g.nodes[dest]? = some target ∧ src ≠ dest ∧
    ∃ all, g.TakesUntil src dest [] (List.range g.nodes.length) all ∧
      ∃ l w, WeightedWalk g.Leads src l w dest ∧ l.Sublist all ∧
        ∀ l' w', WeightedWalk g.Leads src l' w' dest → w ≤ w'

theorem right_of_not_mem (h : source ∉ g.nodes ∨ target ∉ g.nodes) : g.Right source target := by
  refine ⟨none, ?_, iff_of_true rfl (by tauto), nofun⟩
  have hends : (ends source target g.nodes 0 (none, none)).1 = none ∨
      (ends source target g.nodes 0 (none, none)).2 = none :=
    h.imp (fun h => ends_fst h 0 none none) fun h => ends_snd h 0 none none
  rw [shortestPath]
  generalize ends source target g.nodes 0 (none, none) = found at hends ⊢
  obtain ⟨a, b⟩ := found
  rcases hends with rfl | rfl
  · rfl
  · rcases a with _ | a <;> rfl

theorem WellFormed.shortestPath_eq (hg : g.WellFormed) (hsrc : g.nodes[src]? = some source)
    (hdest : g.nodes[dest]? = some target) :
    ∃ s₀ : Search, s₀.openList = List.range g.nodes.length ∧
      g.Keeps src (within g.Leads src []) (s₀.distance, s₀.parent) ∧
      g.shortestPath source target = (do
        let (found, s) ← loop (g.searchRound dest) (g.nodes.length + 1) s₀
        if found then
          let p ← (← s.parent[dest]?)
          let path ← loop (g.backRound s.parent src) (g.nodes.length + 1) (p, [target])
          let cost := match ← s.distance[dest]? with
            | .number n => n
            | _ => 0
          some (some (cost, (path ++ [source]).reverse))
        else some none) := by
  obtain ⟨hlt, -⟩ := List.getElem?_eq_some_iff.mp hsrc
  obtain ⟨distance, hput, hkeeps⟩ := Keeps.init g hlt
  refine ⟨⟨distance, List.range g.nodes.length, List.replicate g.nodes.length none⟩, rfl, hkeeps,
    ?_⟩
  rw [shortestPath, ends_eq hsrc hdest hg.distinct, Nat.zero_add, Nat.zero_add]
  dsimp only
  rw [hput, hsrc, hdest]
  rfl

/-- **The answer after the search**: a path, and the distance of the destination. -/
theorem WellFormed.exists_answer (hg : g.WellFormed) (hsrc : g.nodes[src]? = some source)
    (hdest : g.nodes[dest]? = some target) {s' : Search}
    (h : g.Keeps src label (s'.distance, s'.parent)) (hp : s'.parent[dest]? = some (some p)) :
    ∃ path, loop (g.backRound s'.parent src) (g.nodes.length + 1) (p, [target]) = some path ∧
      ∃ n : UInt32, s'.distance[dest]? = some (.number n) ∧ label dest = (n.toNat : ℕ) ∧
      ∃ cost : ℕ, g.Path source (path ++ [source]).reverse cost target ∧ cost ≤ n.toNat := by
  obtain ⟨path, hback, cost, hpath, hle⟩ := hg.exists_back hsrc hdest h hp
  obtain ⟨dist, parent, rank, hdist, hparent, hvalue, hparents⟩ := h
  have hlt := (List.getElem?_eq_some_iff.mp hdest).1
  have hget : s'.distance[dest]? = some (dist dest) := by
    dsimp only at hdist
    rw [hdist, getElem?_map_range dist hlt]
  have hgetp : s'.parent[dest]? = some (parent dest) := by
    dsimp only at hparent
    rw [hparent, getElem?_map_range parent hlt]
  rcases hd : dist dest with _ | n
  · have htop : label dest = ⊤ := by rw [← hvalue, hd]; rfl
    rw [hparents.far dest htop, hp] at hgetp
    cases hgetp
  · have hn : label dest = (n.toNat : ℕ) := by rw [← hvalue, hd]; rfl
    exact ⟨path, hback, n, hd ▸ hget, hn, cost, hpath, ENat.natCast_le_natCast.mp (hn ▸ hle)⟩

theorem WellFormed.right_iff_inOrder (hg : g.WellFormed) (hsrc : g.nodes[src]? = some source)
    (hdest : g.nodes[dest]? = some target) : g.Right source target ↔ g.InOrder source target := by
  have hmem : source ∈ g.nodes ∧ target ∈ g.nodes :=
    ⟨mem_of_getElem? hsrc, mem_of_getElem? hdest⟩
  obtain ⟨s₀, hopen, hkeeps, hrun⟩ := hg.shortestPath_eq hsrc hdest
  have hsrclt := (List.getElem?_eq_some_iff.mp hsrc).1
  have hdestlt := (List.getElem?_eq_some_iff.mp hdest).1
  have hall : ∀ v ∈ s₀.openList, v < g.nodes.length := by simp [hopen]
  constructor
  · rintro ⟨answer, hanswer, -, hright⟩
    rw [hrun] at hanswer
    obtain ⟨⟨found, s'⟩, hloop, hrest⟩ := Option.bind_eq_some_iff.mp hanswer
    obtain ⟨rfl, all, htakes, hkeeps'⟩ :=
      hg.takesUntil_of_loop hkeeps hall (by simp [hopen, hdestlt]) hloop
    simp only [if_true, Option.bind_eq_bind] at hrest
    obtain ⟨q, hq, hrest⟩ := Option.bind_eq_some_iff.mp hrest
    obtain ⟨p, rfl, hrest⟩ := Option.bind_eq_some_iff.mp hrest
    obtain ⟨path, hback, n, hn, hlabel, -⟩ := hg.exists_answer hsrc hdest hkeeps' hq
    simp only [hback, hn, Option.bind_some, Option.some.injEq] at hrest
    obtain ⟨-, hleast, -⟩ := hright n _ hrest.symm
    obtain ⟨⟨l, hwalk, hl⟩, -⟩ := within_eq_coe_iff.mp hlabel
    refine ⟨src, dest, hsrc, hdest, ?_, all, hopen ▸ htakes, l, _, hwalk, hl,
      fun l' w' hwalk' => ?_⟩
    · rintro rfl
      obtain ⟨dist, parent, rank, -, hparent, -, hparents⟩ := hkeeps'
      dsimp only at hparent
      rw [hparent, getElem?_map_range parent hdestlt, hparents.root] at hq
      cases hq
    · obtain ⟨ks, target', htarget', hkeys⟩ := hg.exists_keys hsrc hwalk'
      obtain ⟨⟩ := hdest.symm.trans htarget'
      exact hleast _ w' ⟨hmem.1, ks, hkeys, rfl⟩
  · rintro ⟨src', dest', hsrc', hdest', hne, all, htakes, l, w, hwalk, hl, hleast⟩
    obtain rfl := (getElem?_inj hsrclt hg.distinct).mp (hsrc.trans hsrc'.symm)
    obtain rfl := (getElem?_inj hdestlt hg.distinct).mp (hdest.trans hdest'.symm)
    obtain ⟨s', hloop, hkeeps'⟩ := hg.exists_loop htakes hopen hkeeps (hopen ▸ hall)
      (by rw [length_range]; exact Nat.lt_succ_self _)
    have hlabel : within g.Leads src all dest = (w : ℕ) :=
      within_eq_coe_iff.mpr ⟨⟨l, hwalk, hl⟩, fun l' m hwalk' _ => hleast l' m hwalk'⟩
    obtain ⟨p, hp⟩ : ∃ p, s'.parent[dest]? = some (some p) := by
      obtain ⟨dist, parent, rank, -, hparent, -, hparents⟩ := hkeeps'
      obtain ⟨p, -, hp, -⟩ := hparents.parent dest (Ne.symm hne) (hlabel ▸ ENat.natCast_ne_top w)
      dsimp only at hparent
      exact ⟨p, by rw [hparent, getElem?_map_range parent hdestlt, hp]⟩
    obtain ⟨path, hback, n, hn, hlabel', cost, hpath, hle⟩ :=
      hg.exists_answer hsrc hdest hkeeps' hp
    obtain rfl : w = n.toNat := ENat.natCast_inj.mp (hlabel.symm.trans hlabel')
    have hleast' : ∀ path' cost', g.Path source path' cost' target → n.toNat ≤ cost' := by
      rintro path' cost' ⟨-, ks, hkeys, -⟩
      obtain ⟨l', dest', hdest', hwalk'⟩ := hg.exists_walk hsrc hkeys
      obtain rfl := (getElem?_inj hdestlt hg.distinct).mp (hdest.trans hdest'.symm)
      exact hleast l' cost' hwalk'
    obtain rfl : cost = n.toNat := Nat.le_antisymm hle (hleast' _ cost hpath)
    refine ⟨some (n, (path ++ [source]).reverse), ?_, ?_, ?_⟩
    · rw [hrun]
      simp [hloop, hp, hback, hn]
    · refine iff_of_false (by simp) ?_
      rintro (h | h | h)
      · exact h hmem.1
      · exact h hmem.2
      · exact h ⟨_, _, hpath⟩
    · rintro cost' path' heq
      obtain ⟨⟩ := heq
      refine ⟨hpath, hleast', fun heq => absurd ?_ hne⟩
      exact (getElem?_inj hsrclt hg.distinct).mp (hsrc.trans (heq ▸ hdest.symm))

end InternetOfThings

/-- **When a call is answered as it should be**: a key is absent, or the nodes differ and a walk of
least weight leaves its nodes in the order in which they are taken. -/
theorem shortestPath_right_iff (calls : List Call) :
    ∃ g, build calls = some g ∧ ∀ source target, g.Right source target ↔
      source ∉ g.nodes ∨ target ∉ g.nodes ∨ g.InOrder source target := by
  obtain ⟨g, hbuild, hg⟩ := exists_build calls
  refine ⟨g, hbuild, fun source target => ?_⟩
  by_cases hsource : source ∈ g.nodes
  · by_cases htarget : target ∈ g.nodes
    · obtain ⟨src, hsrc⟩ := getElem?_of_mem hsource
      obtain ⟨dest, hdest⟩ := getElem?_of_mem htarget
      simp only [hsource, htarget, not_true, false_or]
      exact hg.right_iff_inOrder hsrc hdest
    · exact iff_of_true (InternetOfThings.right_of_not_mem (.inr htarget)) (.inr (.inl htarget))
  · exact iff_of_true (InternetOfThings.right_of_not_mem (.inl hsource)) (.inl hsource)

/-- The nodes 1 to 4 are taken in their order, so that the lighter way to 2 over 3 is found too
late. The way from a node to itself, and one that does not exist, end in a failed `unwrap`. -/
theorem later_node_ignored :
    ∃ g, build [.setNodes [1, 2, 3, 4] (by decide), .setEdges 1 [(10, 2), (1, 3)],
        .setEdges 2 [(1, 4)], .setEdges 3 [(1, 2)]] = some g ∧
      g.shortestPath 1 4 = some (some (11, [1, 3, 2, 4])) ∧
      g.Path 1 [1, 3, 2, 4] 3 4 ∧ ¬g.Right 1 4 ∧
      g.shortestPath 1 1 = none ∧ g.shortestPath 4 1 = none := by
  obtain ⟨g, hg⟩ : ∃ g : InternetOfThings,
    g = ⟨[[⟨10, 1⟩, ⟨1, 2⟩], [⟨1, 3⟩], [⟨1, 1⟩], []], [1, 2, 3, 4]⟩ := ⟨_, rfl⟩
  have hrun : g.shortestPath 1 4 = some (some (11, [1, 3, 2, 4])) := by
    rw [hg]
    rfl
  have hpath : g.Path 1 [1, 3, 2, 4] 3 4 := by
    subst hg
    refine ⟨by decide, [1, 3, 2], ?_, rfl⟩
    refine .snoc (.snoc (.snoc .nil (w := 1) (b := 1) ?_) (w := 1) (b := 3) ?_) (w := 1) (b := 2) ?_
    · exact ⟨0, 2, rfl, rfl, _, rfl, ⟨1, 2⟩, by simp, rfl, rfl⟩
    · exact ⟨2, 1, rfl, rfl, _, rfl, ⟨1, 1⟩, by simp, rfl, rfl⟩
    · exact ⟨1, 3, rfl, rfl, _, rfl, ⟨1, 3⟩, by simp, rfl, rfl⟩
  refine ⟨g, by rw [hg]; rfl, hrun, hpath, ?_, by rw [hg]; rfl, by rw [hg]; rfl⟩
  rintro ⟨answer, hanswer, -, hright⟩
  obtain ⟨⟩ := hrun.symm.trans hanswer
  exact absurd ((hright 11 _ rfl).2.1 _ 3 hpath) (by decide)

end RustExample.DeviceGraph
