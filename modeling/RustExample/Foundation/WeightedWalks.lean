import Mathlib.Data.ENat.Lattice

/-!
# Walks with weights

A search for a shortest path takes places one after the other, and corrects the distances of those
that edges lead to from the place that is taken. In whatever order it takes them, the distance that
it keeps for a place is the least weight of a walk that leaves places in the order in which they
are taken. The parents that it keeps lead back to the start.
-/

namespace RustExample

open Function

variable {α : Type*} {edge : α → ℕ → α → Prop} {start a b c u : α} {taken l : List α} {n w : ℕ}

/-- A walk that leaves the places of a list, with its weight. -/
inductive WeightedWalk (edge : α → ℕ → α → Prop) (start : α) : List α → ℕ → α → Prop
  | nil : WeightedWalk edge start [] 0 start
  | snoc {l : List α} {n w : ℕ} {b c : α} (h : WeightedWalk edge start l n b) (hedge : edge b w c) :
    WeightedWalk edge start (l ++ [b]) (n + w) c

theorem WeightedWalk.cons (hedge : edge a w b) (h : WeightedWalk edge b l n c) :
    WeightedWalk edge a (a :: l) (w + n) c := by
  induction h with
  | nil => simpa [Nat.add_comm] using WeightedWalk.snoc .nil hedge
  | snoc _ hlast ih =>
    rw [← Nat.add_assoc]
    exact .snoc ih hlast

/-! ### Walks in an order -/

/-- The least weight of a walk that leaves places in the order of a list. -/
noncomputable def within (edge : α → ℕ → α → Prop) (start : α) (taken : List α) (c : α) : ℕ∞ :=
  sInf {d | ∃ (l : List α) (n : ℕ), WeightedWalk edge start l n c ∧ l.Sublist taken ∧ d = n}

theorem within_le (h : WeightedWalk edge start l n c) (hl : l.Sublist taken) :
    within edge start taken c ≤ n :=
  sInf_le ⟨l, n, h, hl, rfl⟩

theorem exists_of_within_ne_top (h : within edge start taken c ≠ ⊤) :
    ∃ l n, WeightedWalk edge start l n c ∧ l.Sublist taken ∧ within edge start taken c = n := by
  have hne : {d : ℕ∞ | ∃ (l : List α) (n : ℕ), WeightedWalk edge start l n c ∧ l.Sublist taken ∧
      d = n}.Nonempty :=
    Set.nonempty_iff_ne_empty.mpr fun hempty => h (by rw [within, hempty, sInf_empty])
  exact csInf_mem hne

theorem within_eq_coe_iff :
    within edge start taken c = n ↔ (∃ l, WeightedWalk edge start l n c ∧ l.Sublist taken) ∧
      ∀ l m, WeightedWalk edge start l m c → l.Sublist taken → n ≤ m := by
  constructor
  · intro h
    obtain ⟨l, m, hwalk, hl, hm⟩ := exists_of_within_ne_top (h ▸ ENat.natCast_ne_top n)
    obtain rfl : n = m := ENat.natCast_inj.mp (h.symm.trans hm)
    exact ⟨⟨l, hwalk, hl⟩, fun l' m hwalk' hl' =>
      ENat.natCast_le_natCast.mp (h ▸ within_le hwalk' hl')⟩
  · rintro ⟨⟨l, hwalk, hl⟩, hleast⟩
    refine le_antisymm (within_le hwalk hl) (le_sInf ?_)
    rintro _ ⟨l', m, hwalk', hl', rfl⟩
    exact ENat.natCast_le_natCast.mpr (hleast l' m hwalk' hl')

theorem within_start (taken : List α) : within edge start taken start = 0 :=
  nonpos_iff_eq_zero.mp (within_le .nil (List.nil_sublist taken))

theorem within_nil (hne : c ≠ start) : within edge start [] c = ⊤ := by
  by_contra h
  obtain ⟨l, n, hwalk, hl, -⟩ := exists_of_within_ne_top h
  obtain rfl := List.sublist_nil.mp hl
  generalize hl : ([] : List α) = l at hwalk
  rcases hwalk with _ | ⟨_, _⟩
  · exact hne rfl
  · simp at hl

/-- **One more place is taken.** A walk that leaves it last comes from the distance that it has. -/
theorem within_concat {d : ℕ∞} (hle : d ≤ within edge start taken c)
    (hedges : ∀ w, edge u w c → d ≤ within edge start taken u + w)
    (hd : d = within edge start taken c ∨ ∃ w, edge u w c ∧ d = within edge start taken u + w) :
    within edge start (taken ++ [u]) c = d := by
  refine le_antisymm ?_ (le_sInf ?_)
  · rcases hd with rfl | ⟨w, hedge, rfl⟩
    · refine le_sInf ?_
      rintro _ ⟨l, n, hwalk, hl, rfl⟩
      exact within_le hwalk (hl.trans (List.sublist_append_left taken [u]))
    · by_cases htop : within edge start taken u = ⊤
      · simp [htop]
      · obtain ⟨l, n, hwalk, hl, hn⟩ := exists_of_within_ne_top htop
        rw [hn, ← ENat.natCast_add]
        exact within_le (hwalk.snoc hedge) (hl.append_right [u])
  · rintro _ ⟨l, n, hwalk, hl, rfl⟩
    obtain ⟨l₁, l₂, rfl, hl₁, hl₂⟩ := List.sublist_append_iff.mp hl
    rcases List.sublist_singleton.mp hl₂ with rfl | rfl
    · rw [List.append_nil] at hwalk
      exact hle.trans (within_le hwalk hl₁)
    · generalize hlast : l₁ ++ [u] = l at hwalk
      rcases hwalk with _ | @⟨l', n, w, b, _, hwalk, hedge⟩
      · simp at hlast
      · obtain ⟨rfl, hub⟩ := List.append_inj' hlast rfl
        obtain rfl := List.singleton_inj.mp hub
        refine (hedges w hedge).trans ?_
        rw [ENat.natCast_add]
        exact add_le_add_left (within_le hwalk hl₁) _

/-! ### Parents -/

/-- The place is at a lower distance, or at the same distance and of a lower rank. -/
def Nearer (label : α → ℕ∞) (rank : α → ℕ) (b c : α) : Prop :=
  label b < label c ∨ label b = label c ∧ rank b < rank c

/-- The parents that belong to the distances. -/
structure Parents (edge : α → ℕ → α → Prop) (start : α) (label : α → ℕ∞)
    (parent : α → Option α) (rank : α → ℕ) : Prop where
  label_start : label start = 0
  root : parent start = none
  far : ∀ c, label c = ⊤ → parent c = none
  parent : ∀ c, c ≠ start → label c ≠ ⊤ →
    ∃ p w, parent c = some p ∧ edge p w c ∧ label p + w ≤ label c ∧ Nearer label rank p c

namespace Parents

variable {label : α → ℕ∞} {parent : α → Option α} {rank : α → ℕ} [DecidableEq α]

theorem init (edge : α → ℕ → α → Prop) (start : α) :
    Parents edge start (update (fun _ => ⊤) start 0) (fun _ => none) fun _ => 0 := by
  refine ⟨update_self .., rfl, fun _ _ => rfl, fun c hne hc => absurd ?_ hc⟩
  rw [update_of_ne hne]

/-- **A correction.** What had the corrected place for its parent is farther than it now. -/
theorem relax (h : Parents edge start label parent rank) (hedge : edge u w c)
    (hlt : label u + w < label c) :
    Parents edge start (update label c (label u + w)) (update parent c (some u))
      (update rank c (rank u + 1)) := by
  have hstart : start ≠ c := by
    rintro rfl
    rw [h.label_start] at hlt
    exact not_lt_zero hlt
  have huc : u ≠ c := by
    rintro rfl
    exact (le_self_add.trans_lt hlt).false
  refine ⟨?_, ?_, fun b hb => ?_, fun b hne hb => ?_⟩
  · rw [update_of_ne hstart, h.label_start]
  · rw [update_of_ne hstart, h.root]
  · by_cases hbc : b = c
    · rw [hbc, update_self] at hb
      exact absurd (hb ▸ hlt) not_top_lt
    · rw [update_of_ne hbc] at hb ⊢
      exact h.far b hb
  · by_cases hbc : b = c
    · subst hbc
      refine ⟨u, w, update_self .., hedge, ?_, ?_⟩
      · rw [update_of_ne huc, update_self]
      · rw [Nearer, update_of_ne huc, update_self, update_of_ne huc,
          update_self]
        exact (le_self_add.lt_or_eq).imp_right fun heq => ⟨heq, Nat.lt_succ_self _⟩
    · rw [update_of_ne hbc] at hb
      obtain ⟨p, v, hp, hpb, hle, hnearer⟩ := h.parent b hne hb
      refine ⟨p, v, by rw [update_of_ne hbc, hp], hpb, ?_, ?_⟩
      · rw [update_of_ne hbc]
        by_cases hpc : p = c
        · rw [hpc, update_self]
          exact (add_le_add_left (hpc ▸ hlt.le) _).trans hle
        · rwa [update_of_ne hpc]
      · rw [Nearer, update_of_ne hbc, update_of_ne hbc]
        by_cases hpc : p = c
        · rw [hpc, update_self]
          exact .inl (hlt.trans_le (hpc ▸ le_self_add.trans hle))
        · rwa [update_of_ne hpc, update_of_ne hpc]

end Parents

open Classical in
/-- How many places of a set are nearer than a place. -/
noncomputable def countNearer (label : α → ℕ∞) (rank : α → ℕ) (s : Finset α) (c : α) : ℕ :=
  (s.filter fun b => Nearer label rank b c).card

section Count

variable {label : α → ℕ∞} {rank : α → ℕ} {s : Finset α}

theorem Nearer.trans (h : Nearer label rank a b) (h' : Nearer label rank b c) :
    Nearer label rank a c := by
  rcases h with h | ⟨h, hr⟩ <;> rcases h' with h' | ⟨h', hr'⟩
  · exact .inl (h.trans h')
  · exact .inl (h' ▸ h)
  · exact .inl (h ▸ h')
  · exact .inr ⟨h.trans h', hr.trans hr'⟩

theorem Nearer.countNearer_lt (h : Nearer label rank b c) (hb : b ∈ s) :
    countNearer label rank s b < countNearer label rank s c := by
  classical
  refine Finset.card_lt_card (Finset.ssubset_iff_subset_ne.mpr ⟨fun a ha => ?_, fun heq => ?_⟩)
  · rw [Finset.mem_filter] at ha ⊢
    exact ⟨ha.1, ha.2.trans h⟩
  · have hbb := heq.symm ▸ Finset.mem_filter.mpr ⟨hb, h⟩
    rcases (Finset.mem_filter.mp hbb).2 with hlt | ⟨-, hlt⟩
    · exact hlt.false
    · exact lt_irrefl _ hlt

theorem countNearer_le (label : α → ℕ∞) (rank : α → ℕ) (s : Finset α) (c : α) :
    countNearer label rank s c ≤ s.card := by
  classical exact Finset.card_filter_le _ _

end Count

end RustExample
