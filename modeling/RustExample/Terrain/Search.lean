import RustExample.Foundation.BreadthFirst
import RustExample.Terrain.Grid

/-!
# Searching the terrain

Both searches of a terrain are searches breadth first: the one for a path enters walkable cells
only, the one for a walkable cell enters every cell and stops at the first that is walkable.

Source: `bevy_workspace_example/bevy_ai/src/terrain.rs`.
-/

namespace RustExample.Terrain

open Function TerrainMap List

variable {t : TerrainMap}

/-- A step to a walkable neighbour. -/
def TerrainMap.Enters (t : TerrainMap) (a b : IVec2) : Prop := b ∈ t.neighbors a ∧ t.Walkable b

/-- The cells are next to each other. -/
def TerrainMap.Adjacent (t : TerrainMap) (a b : IVec2) : Prop := b ∈ t.neighbors a

/-! ### Visited cells -/

variable {step : IVec2 → IVec2 → Prop} {start goal origin cell neighbor c : IVec2}
  {visited : List Bool} {queue : List IVec2} {vis : IVec2 → Bool} {depth : IVec2 → ℕ} {i : ℕ}

/-- The vector of visited cells belongs to a search. -/
structure Visits (t : TerrainMap) (step : IVec2 → IVec2 → Prop) (start : IVec2)
    (visited : List Bool) (queue : List IVec2) (vis : IVec2 → Bool) (depth : IVec2 → ℕ) :
    Prop where
  shows : t.Shows visited vis
  inGrid : ∀ c, vis c = true → t.InGrid c
  frontier : Frontier step start vis depth queue (visited.count true)

namespace Visits

theorem count_le (h : Visits t step start visited queue vis depth) :
    visited.count true ≤ t.blocked.length :=
  h.shows.length ▸ count_le_length

theorem init (t : TerrainMap) (step : IVec2 → IVec2 → Prop) (hi : t.index start = some i) :
    ∃ visited, putAt (List.replicate t.blocked.length false) i true = some visited ∧
      Visits t step start visited [start] (update (fun _ => false) start true)
        (fun _ => 0) ∧ visited.count true = 1 := by
  obtain ⟨hput, hshows⟩ := (TerrainMap.Shows.replicate t false).exists_put hi true
  have hcount : ((List.replicate t.blocked.length false).set i true).count true = 1 := by
    rw [count_set (by rw [length_replicate]; exact index_lt hi)]
    simp [count_replicate]
  refine ⟨_, hput, ⟨hshows, fun c hc => ?_, hcount ▸ Frontier.init step start⟩, hcount⟩
  by_cases hcs : c = start
  · exact hcs ▸ (index_eq_some_iff.mp hi).1
  · rw [update_of_ne hcs] at hc
    cases hc

theorem discover (h : Visits t step start visited (cell :: queue) vis depth) (hstep : step cell c)
    (hi : t.index c = some i) (hc : vis c = false) :
    ∃ visited', putAt visited i true = some visited' ∧
      Visits t step start visited' (cell :: (queue ++ [c])) (update vis c true)
        (update depth c (depth cell + 1)) ∧
      visited'.count true = visited.count true + 1 := by
  obtain ⟨hput, hshows⟩ := h.shows.exists_put hi true
  have hget := h.shows.get c i hi
  rw [hc] at hget
  obtain ⟨hlt, hfalse⟩ := List.getElem?_eq_some_iff.mp hget
  have hcount : (visited.set i true).count true = visited.count true + 1 := by
    rw [count_set hlt, hfalse]
    rfl
  refine ⟨_, hput, ⟨hshows, fun b hb => ?_, hcount ▸ h.frontier.discover hstep hc⟩, hcount⟩
  by_cases hbc : b = c
  · exact hbc ▸ (index_eq_some_iff.mp hi).1
  · rw [update_of_ne hbc] at hb
    exact h.inGrid b hb

theorem retire (h : Visits t step start visited (cell :: queue) vis depth)
    (hall : ∀ c, step cell c → vis c = true) : Visits t step start visited queue vis depth :=
  ⟨h.shows, h.inGrid, h.frontier.retire hall⟩

end Visits

/-! ### The search for a path -/

open TerrainMap (PathSearch)

variable {s : PathSearch} {parent : IVec2 → Option IVec2}

/-- The search for a path at some time, with its parents. -/
structure Searching (t : TerrainMap) (start : IVec2) (s : PathSearch) (queue : List IVec2)
    (vis : IVec2 → Bool) (depth : IVec2 → ℕ) (parent : IVec2 → Option IVec2) : Prop where
  visits : Visits t t.Enters start s.visited queue vis depth
  parents : t.Shows s.parents parent
  tree : ParentTree t.Enters start vis depth parent

/-- What a search still has to do. -/
def todo (t : TerrainMap) (s : PathSearch) : ℕ :=
  t.blocked.length - s.visited.count true + s.queue.length

/-- **A neighbour is visited**, unless it was before or is not walkable. -/
theorem Searching.exists_visitNeighbor
    (h : Searching t start s (cell :: s.queue) vis depth parent)
    (hneighbor : neighbor ∈ t.neighbors cell) :
    ∃ s' vis' depth' parent', t.visitNeighbor cell neighbor s = some s' ∧
      Searching t start s' (cell :: s'.queue) vis' depth' parent' ∧ todo t s' = todo t s ∧
      (∀ c, vis c = true → vis' c = true) ∧ (t.Walkable neighbor → vis' neighbor = true) := by
  obtain ⟨i, hi⟩ := (mem_neighbors_iff.mp hneighbor).1.exists_index
  obtain ⟨b, hwalkable, hb⟩ := exists_cellIsWalkable hi
  have hget := h.visits.shows.get neighbor i hi
  by_cases hvis : vis neighbor = true
  · refine ⟨s, vis, depth, parent, ?_, h, rfl, fun _ => id, fun _ => hvis⟩
    simp [visitNeighbor, hi, hget, hvis]
  · rw [Bool.not_eq_true] at hvis
    by_cases hb' : b = true
    · have hstep : t.Enters cell neighbor := ⟨hneighbor, hb.mp hb'⟩
      obtain ⟨visited', hput, hvisits, hcount⟩ := h.visits.discover hstep hi hvis
      obtain ⟨hputp, hparents⟩ := h.parents.exists_put hi (some cell)
      have hfront := h.visits.frontier
      refine ⟨⟨s.parents.set i (some cell), visited', s.queue ++ [neighbor]⟩, _, _, _, ?_,
        ⟨hvisits, hparents, h.tree.discover hfront.root (hfront.queued cell mem_cons_self)
          hstep hvis⟩, ?_, fun c hc => ?_, fun _ => update_self ..⟩
      · simp [visitNeighbor, hi, hget, hvis, hwalkable, hb', hput, hputp]
      · have hle := hvisits.count_le
        simp only [todo, hcount, length_append, length_singleton] at hle ⊢
        omega
      · by_cases hcn : c = neighbor
        · exact hcn ▸ update_self ..
        · rw [update_of_ne hcn, hc]
    · refine ⟨s, vis, depth, parent, ?_, h, rfl, fun _ => id, fun hw => absurd (hb.mpr hw) hb'⟩
      simp [visitNeighbor, hi, hget, hvis, hwalkable, hb']

/-- **One round** of the search expands the front of the queue. -/
theorem Searching.exists_pathRound (h : Searching t start s s.queue vis depth parent)
    (hqueue : s.queue = cell :: queue) (hne : cell ≠ goal) :
    ∃ s' vis' depth' parent', t.pathRound goal s = some (.again s') ∧
      Searching t start s' s'.queue vis' depth' parent' ∧ todo t s' < todo t s := by
  have hexpand : ∃ s', forEach (t.neighbors cell) (t.visitNeighbor cell) { s with queue } =
      some s' ∧ ∃ vis' depth' parent', Searching t start s' (cell :: s'.queue) vis' depth' parent' ∧
        todo t s' = todo t { s with queue } ∧
        ∀ c ∈ t.neighbors cell, t.Walkable c → vis' c = true := by
    refine forEach_spec (I := fun done s' => ∃ vis' depth' parent',
      Searching t start s' (cell :: s'.queue) vis' depth' parent' ∧
        todo t s' = todo t { s with queue } ∧ ∀ c ∈ done, t.Walkable c → vis' c = true)
      ⟨vis, depth, parent, ?_, rfl, nofun⟩ ?_
    · rw [hqueue] at h
      exact ⟨h.visits, h.parents, h.tree⟩
    · rintro done neighbor after s₁ hl ⟨vis₁, depth₁, parent₁, h₁, htodo, hdone⟩
      have hneighbor : neighbor ∈ t.neighbors cell := by simp [hl]
      obtain ⟨s', vis', depth', parent', hrun, h', htodo', hmono, hnew⟩ :=
        h₁.exists_visitNeighbor hneighbor
      refine ⟨s', hrun, vis', depth', parent', h', htodo'.trans htodo, fun c hc hw => ?_⟩
      rcases List.mem_append.mp hc with hc | hc
      · exact hmono c (hdone c hc hw)
      · obtain rfl := List.mem_singleton.mp hc
        exact hnew hw
  obtain ⟨s', hrun, vis', depth', parent', h', htodo, hall⟩ := hexpand
  refine ⟨s', vis', depth', parent', ?_,
    ⟨h'.visits.retire fun c hc => hall c hc.1 hc.2, h'.parents, h'.tree⟩, ?_⟩
  · simp [pathRound, hqueue, hne, hrun]
  · simp only [todo, hqueue, length_cons] at htodo ⊢
    omega

/-- The loop ends with an empty queue, or with the goal. -/
theorem Searching.exists_search (h : Searching t start s s.queue vis depth parent) {bound : ℕ}
    (hbound : todo t s < bound) (goal : IVec2) :
    ∃ s', loop (t.pathRound goal) bound s = some s' ∧ ∃ queue' vis' depth' parent',
      Searching t start s' queue' vis' depth' parent' ∧ (queue' = [] ∨ vis' goal = true) := by
  refine loop_spec (I := fun s' => ∃ vis' depth' parent',
    Searching t start s' s'.queue vis' depth' parent') (todo t) ?_ ⟨vis, depth, parent, h⟩ hbound
  rintro s' ⟨vis', depth', parent', h'⟩
  rcases hqueue : s'.queue with _ | ⟨cell, queue⟩
  · refine .inr ⟨s', by rw [pathRound, hqueue], [], vis', depth', parent', ?_,
      .inl rfl⟩
    rwa [hqueue] at h'
  · by_cases hgoal : cell = goal
    · refine .inr ⟨{ s' with queue }, by simp [pathRound, hqueue, hgoal],
        s'.queue, vis', depth', parent', ⟨h'.visits, h'.parents, h'.tree⟩, .inr ?_⟩
      exact h'.visits.frontier.queued goal (by rw [hqueue, hgoal]; exact mem_cons_self)
    · obtain ⟨s₂, vis₂, depth₂, parent₂, hrun, h₂, htodo⟩ := h'.exists_pathRound hqueue hgoal
      exact .inl ⟨s₂, hrun, ⟨vis₂, depth₂, parent₂, h₂⟩, htodo⟩

/-- **The way back** from the goal ends at the cell after the start. -/
theorem Searching.exists_back (h : Searching t start s queue vis depth parent)
    (hvis : vis goal = true) (hne : goal ≠ start) {bound : ℕ} (hbound : t.blocked.length < bound) :
    ∃ answer, loop (t.backRound s.parents start goal) bound goal = some answer ∧
      ∃ first, answer = some first ∧ BeginsShortest t.Enters start goal first := by
  have hfront := h.visits.frontier
  refine loop_spec (I := fun current => vis current = true ∧ current ≠ start ∧
      ∃ n, Walk t.Enters current n goal ∧ depth current + n = depth goal) depth ?_
    ⟨hvis, hne, 0, .nil, rfl⟩ ?_
  · rintro current ⟨hcurrent, hcs, n, hwalk, hdepth⟩
    obtain ⟨i, hi⟩ := (h.visits.inGrid current hcurrent).exists_index
    obtain ⟨p, hp, hpv, hstep, hpd⟩ := h.tree.parent current hcurrent hcs
    have hget : s.parents[i]? = some (some p) := hp ▸ h.parents.get current i hi
    by_cases hps : p = start
    · refine .inr ⟨some current, by simp [backRound, hi, hget, hps], current, rfl, n,
        hps ▸ hstep, hwalk, fun m hm => ?_⟩
      have hleast := hfront.least goal m hvis hm
      omega
    · refine .inl ⟨p, by simp [backRound, hi, hget, hps],
        ⟨hpv, hps, n + 1, hwalk.cons hstep, by omega⟩, by omega⟩
  · have hshort := hfront.short goal hvis
    have hcount := h.visits.count_le
    omega

theorem Searching.init (hi : t.index start = some i) :
    ∃ visited, putAt (List.replicate t.blocked.length false) i true = some visited ∧
      ∃ vis depth parent, Searching t start ⟨List.replicate t.blocked.length none, visited, [start]⟩
        [start] vis depth parent ∧ visited.count true = 1 := by
  obtain ⟨visited, hput, hvisits, hcount⟩ := Visits.init t t.Enters hi
  exact ⟨visited, hput, _, _, _,
    ⟨hvisits, TerrainMap.Shows.replicate t none, ParentTree.init t.Enters start⟩, hcount⟩

/-- **The search for a path** finds the first cell of a shortest path, if there is a path. -/
theorem exists_nextCellOnPath (hstart : t.InGrid start) (hgoal : t.InGrid goal)
    (hne : start ≠ goal) :
    ∃ answer, t.nextCellOnPath start goal = some answer ∧
      (answer = none ↔ ¬∃ n, Walk t.Enters start n goal) ∧
      ∀ first, answer = some first → BeginsShortest t.Enters start goal first := by
  obtain ⟨i, hi⟩ := hstart.exists_index
  obtain ⟨j, hj⟩ := hgoal.exists_index
  obtain ⟨visited, hput, vis₀, depth₀, parent₀, h₀, hcount⟩ := Searching.init hi
  have htodo : todo t ⟨List.replicate t.blocked.length none, visited, [start]⟩ <
      t.blocked.length + 1 := by
    have hle := h₀.visits.count_le
    simp only [todo, hcount, length_singleton] at hle ⊢
    omega
  obtain ⟨s, hrun, queue, vis, depth, parent, h, hend⟩ := h₀.exists_search htodo goal
  have hget := h.visits.shows.get goal j hj
  by_cases hvis : vis goal = true
  · obtain ⟨answer, hback, first, rfl, hfirst⟩ := h.exists_back hvis hne.symm (Nat.lt_succ_self _)
    refine ⟨some first, ?_, ?_, fun c hc => Option.some.inj hc ▸ hfirst⟩
    · simp [nextCellOnPath, hne, hi, hj, hput, hrun, hget, hvis, hback]
    · have hwalk := h.visits.frontier.walk goal hvis
      simp only [reduceCtorEq, false_iff, not_not]
      exact ⟨_, hwalk⟩
  · refine ⟨none, ?_, ?_, nofun⟩
    · simp [nextCellOnPath, hne, hi, hj, hput, hrun, hget, hvis]
    · obtain rfl := hend.resolve_right hvis
      exact iff_of_true rfl fun ⟨n, hwalk⟩ => hvis (h.visits.frontier.visited_of_nil hwalk)

/-! ### The search for a walkable cell -/

theorem manhattan_le_of_walk {n : ℕ} (h : Walk t.Adjacent origin n c) :
    manhattan origin c ≤ n := by
  induction h with
  | nil => simp [manhattan]
  | snoc _ hstep ih =>
    have hone := (mem_neighbors_iff.mp hstep).2
    simp only [manhattan] at ih hone ⊢
    omega

/-- A cell that is not the origin has a neighbour that is closer. -/
theorem exists_closer {n : ℕ} (horigin : t.InGrid origin) (hc : t.InGrid c)
    (hn : manhattan origin c = n + 1) :
    ∃ b, t.InGrid b ∧ manhattan origin b = n ∧ manhattan b c = 1 := by
  simp only [TerrainMap.InGrid, manhattan] at *
  by_cases hlt : origin.x < c.x
  · exact ⟨⟨c.x - 1, c.y⟩, by dsimp only; omega⟩
  by_cases hgt : c.x < origin.x
  · exact ⟨⟨c.x + 1, c.y⟩, by dsimp only; omega⟩
  by_cases hlt : origin.y < c.y
  · exact ⟨⟨c.x, c.y - 1⟩, by dsimp only; omega⟩
  · exact ⟨⟨c.x, c.y + 1⟩, by dsimp only; omega⟩

/-- Nothing is in the way of a search that enters every cell. -/
theorem walk_manhattan (horigin : t.InGrid origin) (hc : t.InGrid c) :
    Walk t.Adjacent origin (manhattan origin c) c := by
  generalize hn : manhattan origin c = n
  induction n generalizing c with
  | zero =>
    have hco : c = origin := by
      simp only [manhattan] at hn
      exact IVec2.ext (by omega) (by omega)
    exact hco ▸ .nil
  | succ n ih =>
    obtain ⟨b, hb, hbn, hone⟩ := exists_closer horigin hc hn
    exact .snoc (ih hb hbn) (mem_neighbors_iff.mpr ⟨hc, hone⟩)

/-- A walkable cell at the least distance. -/
def Nearest (t : TerrainMap) (origin c : IVec2) : Prop :=
  t.Walkable c ∧ ∀ w, t.Walkable w → TerrainMap.manhattan origin c ≤ TerrainMap.manhattan origin w

/-- The search for a walkable cell at some time: nothing that it visited is walkable. -/
structure Seeking (t : TerrainMap) (origin : IVec2) (visited : List Bool) (queue : List IVec2)
    (vis : IVec2 → Bool) (depth : IVec2 → ℕ) : Prop where
  visits : Visits t t.Adjacent origin visited queue vis depth
  blocked : ∀ c, vis c = true → ¬t.Walkable c

/-- **The first walkable cell that is met is a nearest one**: those not visited are farther. -/
theorem Seeking.nearest (h : Seeking t origin visited (cell :: queue) vis depth)
    (hadj : neighbor ∈ t.neighbors cell) (hw : t.Walkable neighbor) :
    Nearest t origin neighbor := by
  have hfront := h.visits.frontier
  have hroot := h.visits.inGrid origin hfront.root
  refine ⟨hw, fun w hww => ?_⟩
  have hle := manhattan_le_of_walk
    ((hfront.walk cell (hfront.queued cell mem_cons_self)).snoc hadj)
  have hvis : vis w = false := Bool.eq_false_iff.mpr fun hvis => h.blocked w hvis hww
  have hlt := hfront.lt_of_not_visited hvis (walk_manhattan hroot hww.inGrid)
  omega

/-- **The neighbours of a cell**, up to the first walkable one. -/
theorem Seeking.exists_scan {rest : List IVec2}
    (h : Seeking t origin visited (cell :: queue) vis depth)
    (hrest : ∀ c ∈ rest, c ∈ t.neighbors cell) :
    (∃ found, t.scanNeighbors rest (visited, queue) = some (.done found) ∧
      Nearest t origin found) ∨
    ∃ visited' queue' vis' depth', t.scanNeighbors rest (visited, queue) =
        some (.again (visited', queue')) ∧
      Seeking t origin visited' (cell :: queue') vis' depth' ∧
      t.blocked.length - visited'.count true + queue'.length =
        t.blocked.length - visited.count true + queue.length ∧
      (∀ c, vis c = true → vis' c = true) ∧ ∀ c ∈ rest, vis' c = true := by
  induction rest generalizing visited queue vis depth with
  | nil => exact .inr ⟨visited, queue, vis, depth, rfl, h, rfl, fun _ => id, nofun⟩
  | cons neighbor rest ih =>
    obtain ⟨hadj, hrest⟩ := List.forall_mem_cons.mp hrest
    obtain ⟨i, hi⟩ := (mem_neighbors_iff.mp hadj).1.exists_index
    obtain ⟨b, hwalkable, hb⟩ := exists_cellIsWalkable hi
    have hget := h.visits.shows.get neighbor i hi
    by_cases hvis : vis neighbor = true
    · have hrun : t.scanNeighbors (neighbor :: rest) (visited, queue) =
          t.scanNeighbors rest (visited, queue) := by
        simp [scanNeighbors, hi, hget, hvis]
      rw [hrun]
      refine (ih h hrest).imp_right ?_
      rintro ⟨visited', queue', vis', depth', hrun', h', htodo, hmono, hall⟩
      exact ⟨visited', queue', vis', depth', hrun', h', htodo, hmono,
        List.forall_mem_cons.mpr ⟨hmono neighbor hvis, hall⟩⟩
    · rw [Bool.not_eq_true] at hvis
      by_cases hb' : b = true
      · refine .inl ⟨neighbor, ?_, h.nearest hadj (hb.mp hb')⟩
        simp [scanNeighbors, hi, hget, hvis, hwalkable, hb']
      · obtain ⟨visited₁, hput, hvisits, hcount⟩ := h.visits.discover hadj hi hvis
        have hrun : t.scanNeighbors (neighbor :: rest) (visited, queue) =
            t.scanNeighbors rest (visited₁, queue ++ [neighbor]) := by
          simp [scanNeighbors, hi, hget, hvis, hwalkable, hb', hput]
        have h₁ : Seeking t origin visited₁ (cell :: (queue ++ [neighbor]))
            (update vis neighbor true)
            (update depth neighbor (depth cell + 1)) := by
          refine ⟨hvisits, fun c hc hw => ?_⟩
          by_cases hcn : c = neighbor
          · exact hb' (hb.mpr (hcn ▸ hw))
          · rw [update_of_ne hcn] at hc
            exact h.blocked c hc hw
        rw [hrun]
        refine (ih h₁ hrest).imp_right ?_
        rintro ⟨visited', queue', vis', depth', hrun', h', htodo, hmono, hall⟩
        refine ⟨visited', queue', vis', depth', hrun', h', ?_, fun c hc => hmono c ?_,
          List.forall_mem_cons.mpr ⟨hmono neighbor (update_self ..), hall⟩⟩
        · have hle := hvisits.count_le
          simp only [hcount, length_append, length_singleton] at htodo hle ⊢
          omega
        · by_cases hcn : c = neighbor
          · exact hcn ▸ update_self ..
          · rw [update_of_ne hcn, hc]

/-- **The search for a walkable cell** finds a nearest one, if there is one. -/
theorem exists_walkableCellNear {Position : Type} {worldToCell : Position → Option IVec2}
    {position : Position} (hposition : worldToCell position = some origin)
    (horigin : t.InGrid origin) :
    ∃ answer, t.walkableCellNear worldToCell position = some answer ∧
      (answer = none ↔ ∀ c, ¬t.Walkable c) ∧ ∀ c, answer = some c → Nearest t origin c := by
  obtain ⟨i, hi⟩ := horigin.exists_index
  obtain ⟨b, hwalkable, hb⟩ := exists_cellIsWalkable hi
  by_cases hb' : b = true
  · have hw := hb.mp hb'
    refine ⟨some origin, ?_, ⟨by simp, fun hall => absurd hw (hall origin)⟩, fun c hc => ?_⟩
    · simp [walkableCellNear, hposition, hwalkable, hb']
    · obtain ⟨⟩ := hc
      exact ⟨hw, fun w _ => by simp [manhattan]⟩
  obtain ⟨visited₀, hput, hvisits, hcount⟩ := Visits.init t t.Adjacent hi
  have h₀ : Seeking t origin visited₀ [origin] (update (fun _ => false) origin true)
      (fun _ => 0) := by
    refine ⟨hvisits, fun c hc hw => ?_⟩
    by_cases hco : c = origin
    · exact hb' (hb.mpr (hco ▸ hw))
    · rw [update_of_ne hco] at hc
      cases hc
  have hloop : ∃ answer, loop t.nearRound (t.blocked.length + 1) (visited₀, [origin]) =
      some answer ∧ (answer = none ↔ ∀ c, ¬t.Walkable c) ∧
        ∀ c, answer = some c → Nearest t origin c := by
    refine loop_spec (I := fun s => ∃ vis depth, Seeking t origin s.1 s.2 vis depth)
      (fun s => t.blocked.length - s.1.count true + s.2.length) ?_ ⟨_, _, h₀⟩ ?_
    · rintro ⟨visited, queue⟩ ⟨vis, depth, h⟩
      rcases queue with _ | ⟨cell, queue⟩
      · refine .inr ⟨none, rfl, iff_of_true rfl fun c hw => ?_, by simp⟩
        have hfront := h.visits.frontier
        have hroot := h.visits.inGrid origin hfront.root
        exact h.blocked c (hfront.visited_of_nil (walk_manhattan hroot hw.inGrid)) hw
      · rcases h.exists_scan fun _ => id with ⟨found, hrun, hfound⟩ |
          ⟨visited', queue', vis', depth', hrun, h', htodo, -, hall⟩
        · refine .inr ⟨some found, by simp [nearRound, hrun],
            ⟨by simp, fun hnone => absurd hfound.1 (hnone found)⟩, fun c hc => ?_⟩
          exact Option.some.inj hc ▸ hfound
        · refine .inl ⟨(visited', queue'), by simp [nearRound, hrun],
            ⟨vis', depth', h'.visits.retire hall, h'.blocked⟩, ?_⟩
          simp only [length_cons] at htodo ⊢
          omega
    · have hle := hvisits.count_le
      simp only [hcount, length_singleton] at hle ⊢
      omega
  obtain ⟨answer, hrun, hanswer⟩ := hloop
  exact ⟨answer, by simp [walkableCellNear, hposition, hwalkable, hb', hi, hput, hrun],
    hanswer⟩

/-- **Both searches are right.** The first cell of a path is that of a shortest path over walkable
cells, and `None` only if there is none. A walkable cell near a cell is at the least distance, and
`None` only if no cell is walkable. -/
theorem terrain_paths (t : TerrainMap) :
    (∀ start goal, t.InGrid start → t.InGrid goal → start ≠ goal →
      ∃ answer, t.nextCellOnPath start goal = some answer ∧
        (answer = none ↔ ¬∃ n, Walk t.Enters start n goal) ∧
        ∀ first, answer = some first → BeginsShortest t.Enters start goal first) ∧
    (∀ cell, t.InGrid cell → t.nextCellOnPath cell cell = some (some cell)) ∧
    ∀ (Position : Type) (worldToCell : Position → Option IVec2) position origin,
      worldToCell position = some origin → t.InGrid origin →
      ∃ answer, t.walkableCellNear worldToCell position = some answer ∧
        (answer = none ↔ ∀ c, ¬t.Walkable c) ∧
        ∀ c, answer = some c → t.Walkable c ∧ ∀ w, t.Walkable w →
          TerrainMap.manhattan origin c ≤ TerrainMap.manhattan origin w :=
  ⟨fun _ _ => exists_nextCellOnPath, fun _ _ => if_pos rfl,
    fun _ _ _ _ => exists_walkableCellNear⟩

/-! ### Walking to the goal -/

/-- The cell after `n` steps, each of them to the next cell on the path from where it begins. -/
def TerrainMap.follow (t : TerrainMap) (goal : IVec2) : ℕ → IVec2 → Option IVec2
  | 0, cell => some cell
  | n + 1, cell => (t.nextCellOnPath cell goal).bind fun next => next.bind (t.follow goal n)

/-- **Whoever asks before each step takes a shortest path**: every cell on the way is walkable, and
the goal is reached as soon as possible. -/
theorem follow_shortest (hgoal : t.InGrid goal) {m n : ℕ} (hstart : t.InGrid start)
    (hwalk : Walk t.Enters start n goal) (hmin : ∀ k, Walk t.Enters start k goal → n ≤ k)
    (hm : m ≤ n) : ∃ cell, t.follow goal m start = some cell ∧ (m = 0 ∨ t.Walkable cell) ∧
      Walk t.Enters cell (n - m) goal ∧ (cell = goal ↔ m = n) := by
  induction m generalizing start n with
  | zero =>
    refine ⟨start, rfl, .inl rfl, hwalk, fun heq => ?_, ?_⟩
    · exact (Nat.le_zero.mp (hmin 0 (heq ▸ .nil))).symm
    · rintro rfl
      cases hwalk
      rfl
  | succ m ih =>
    obtain ⟨n, rfl⟩ : ∃ k, n = k + 1 := ⟨n - 1, by omega⟩
    have hne : start ≠ goal := fun heq => by simpa using hmin 0 (heq ▸ .nil)
    obtain ⟨answer, hanswer, hnone, hfirst⟩ := exists_nextCellOnPath hstart hgoal hne
    cases answer with
    | none => exact absurd ⟨_, hwalk⟩ (hnone.mp rfl)
    | some first =>
      obtain ⟨k, hstep, hrest, hshortest⟩ := hfirst first rfl
      obtain rfl : k = n := by
        have hlower := hmin (k + 1) (.cons hstep hrest)
        have hupper := hshortest (n + 1) hwalk
        omega
      obtain ⟨cell, hcell, hfree, hleft, hiff⟩ := ih hstep.2.inGrid hrest
        (fun j hj => Nat.le_of_succ_le_succ (hmin (j + 1) (.cons hstep hj))) (by omega)
      refine ⟨cell, by simp [TerrainMap.follow, hanswer, hcell], .inr ?_, ?_, by simp [hiff]⟩
      · rcases hfree with rfl | hfree
        · exact Option.some.inj hcell ▸ hstep.2
        · exact hfree
      · rwa [Nat.add_sub_add_right]

/-- Two rows of three cells, the second of the first row blocked: the way goes along the other. -/
theorem follow_shortest_around : ∃ t : TerrainMap, t.blocked[1]? = some true ∧
    t.follow ⟨2, 1⟩ 3 ⟨0, 0⟩ = some ⟨2, 1⟩ := by
  let t : TerrainMap := ⟨[false, true, false, false, false, false], 3, 2,
    by decide, by decide, by decide, by decide⟩
  have hdown : t.Enters ⟨0, 0⟩ ⟨0, 1⟩ := ⟨by decide, rfl⟩
  have hright : t.Enters ⟨0, 1⟩ ⟨1, 1⟩ := ⟨by decide, rfl⟩
  have hlast : t.Enters ⟨1, 1⟩ ⟨2, 1⟩ := ⟨by decide, rfl⟩
  have hmin (k : ℕ) (hk : Walk t.Enters ⟨0, 0⟩ k ⟨2, 1⟩) : 3 ≤ k :=
    manhattan_le_of_walk (hk.mono fun _ _ h => h.1)
  obtain ⟨cell, hcell, -, -, hiff⟩ := @follow_shortest t ⟨0, 0⟩ ⟨2, 1⟩
    (by simp [TerrainMap.InGrid, t]) 3 3 (by simp [TerrainMap.InGrid, t])
    (.cons hdown (.cons hright (.cons hlast .nil))) hmin le_rfl
  exact ⟨t, rfl, hiff.mpr rfl ▸ hcell⟩

end RustExample.Terrain
