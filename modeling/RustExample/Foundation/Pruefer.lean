import RustExample.Foundation.EdgeTrees

/-!
# Prüfer codes

A sequence of vertices, two fewer than there are, is the code of a tree: its first vertex has an
edge to the least vertex that is not in the sequence, and the rest of it is the code of the tree
without this leaf.
-/

namespace RustExample

open List

variable {V : Type*} [LinearOrder V]

/-- The tree on a set of vertices with a code. -/
inductive Decodes : Finset V → List V → Finset (Sym2 V) → Prop
  | nil {x y : V} (hne : x ≠ y) : Decodes {x, y} [] {s(x, y)}
  | cons {S : Finset V} {s : List V} {F : Finset (Sym2 V)} {a v : V} (h : Decodes S s F)
      (ha : a ∉ S) (hv : v ∈ S) (hleast : ∀ b ∈ S, b ∉ v :: s → a ≤ b) :
      Decodes (insert a S) (v :: s) (insert s(v, a) F)

namespace Decodes

variable {S : Finset V} {s s' : List V} {F F' : Finset (Sym2 V)} {a b v x : V}

theorem card_eq (h : Decodes S s F) : S.card = s.length + 2 := by
  induction h with
  | nil hne => exact Finset.card_pair hne
  | cons h ha hv hleast ih => rw [Finset.card_insert_of_notMem ha, ih, length_cons]

theorem mem_of_mem (h : Decodes S s F) : ∀ x ∈ s, x ∈ S := by
  induction h with
  | nil hne => exact nofun
  | cons h ha hv hleast ih =>
    intro x hx
    rcases List.mem_cons.mp hx with rfl | hx
    · exact Finset.mem_insert_of_mem hv
    · exact Finset.mem_insert_of_mem (ih x hx)

/-- **What is decoded** is a tree. -/
theorem isTreeOn (h : Decodes S s F) : IsTreeOn (S : Set V) F := by
  induction h with
  | @nil x y hne =>
    have htree := (IsTreeOn.singleton y).insert_leaf (Set.mem_singleton y) hne
    rwa [Finset.coe_pair, Sym2.eq_swap]
  | cons h ha hv hleast ih =>
    rw [Finset.coe_insert]
    exact ih.insert_leaf hv ha

theorem notMem_of_notMem (h : Decodes S s F) (ha : a ∉ S) : ∀ e ∈ F, a ∉ e :=
  fun e he hmem => ha (h.isTreeOn.ends_subset ⟨e, he, hmem⟩)

theorem mem_ends (h : Decodes S s F) (hx : x ∈ S) : ∃ e ∈ F, x ∈ e := by
  have hcard : 1 < S.card := by
    rw [h.card_eq]
    omega
  obtain ⟨y, hy, hne⟩ := Finset.exists_mem_ne hcard x
  exact h.isTreeOn.mem_ends hx hy (Ne.symm hne)

/-- **The leaves** are the vertices that are not in the code. -/
theorem isLeaf_iff (h : Decodes S s F) (hx : x ∈ S) : IsLeaf F x ↔ x ∉ s := by
  induction h with
  | @nil y z hne =>
    refine iff_of_true ?_ not_mem_nil
    rcases Finset.mem_insert.mp hx with rfl | hx
    · refine ⟨z, ?_, fun e he _ => ?_⟩
      · exact Finset.mem_singleton.mpr Sym2.eq_swap
      · exact (Finset.mem_singleton.mp he).trans Sym2.eq_swap
    · obtain rfl := Finset.mem_singleton.mp hx
      exact ⟨y, Finset.mem_singleton_self _, fun e he _ => Finset.mem_singleton.mp he⟩
  | @cons S s F a v h ha hv hleast ih =>
    by_cases hxa : x = a
    · subst hxa
      refine iff_of_true ⟨v, Finset.mem_insert_self _ _, fun e he hmem => ?_⟩ ?_
      · exact (Finset.mem_insert.mp he).resolve_right fun he => h.notMem_of_notMem ha e he hmem
      · rw [mem_cons, not_or]
        exact ⟨fun heq => ha (heq ▸ hv), fun hmem => ha (h.mem_of_mem x hmem)⟩
    have hxS : x ∈ S := Finset.mem_of_mem_insert_of_ne hx hxa
    by_cases hxv : x = v
    · subst hxv
      refine iff_of_false ?_ fun hnot => hnot mem_cons_self
      rintro ⟨u, -, hu⟩
      obtain ⟨e, he, hmem⟩ := h.mem_ends hxS
      have hnew := hu _ (Finset.mem_insert_self _ F) (Sym2.mem_mk_left x a)
      have hold := hu e (Finset.mem_insert_of_mem he) hmem
      refine h.notMem_of_notMem ha e he ?_
      rw [hold, ← hnew]
      exact Sym2.mem_mk_right x a
    · have hmem (e : Sym2 V) : e ∈ insert s(v, a) F ∧ x ∈ e ↔ e ∈ F ∧ x ∈ e := by
        refine and_congr_left fun hxe => ?_
        rw [Finset.mem_insert, or_iff_right]
        rintro rfl
        rcases Sym2.mem_iff.mp hxe with heq | heq
        · exact hxv heq
        · exact hxa heq
      rw [mem_cons, or_iff_right hxv, ← ih hxS]
      refine exists_congr fun u => ⟨fun hu => ⟨?_, ?_⟩, fun hu => ⟨?_, ?_⟩⟩
      · exact ((hmem _).mp ⟨hu.mem, Sym2.mem_mk_right u x⟩).1
      · exact fun e he hxe => hu.eq_of_mem e ((hmem e).mpr ⟨he, hxe⟩).1 hxe
      · exact ((hmem _).mpr ⟨hu.mem, Sym2.mem_mk_right u x⟩).1
      · exact fun e he hxe => hu.eq_of_mem e ((hmem e).mp ⟨he, hxe⟩).1 hxe

variable {E : Finset (Sym2 V)}

/-- A code that is not empty begins with the neighbour of the least leaf. -/
theorem exists_of_cons {T : Finset V} (h : Decodes T (v :: s) E) :
    ∃ a S F, T = insert a S ∧ E = insert s(v, a) F ∧ Decodes S s F ∧ a ∉ S ∧ v ∈ S ∧
      ∀ b ∈ S, b ∉ v :: s → a ≤ b := by
  cases h with
  | cons h ha hv hleast => exact ⟨_, _, _, rfl, rfl, h, ha, hv, hleast⟩

theorem least (h : Decodes S s F) (ha : a ∉ S) (hv : v ∈ S)
    (hleast : ∀ b ∈ S, b ∉ v :: s → a ≤ b) :
    a ∉ v :: s ∧ ∀ b ∈ insert a S, b ∉ v :: s → a ≤ b := by
  constructor
  · rw [mem_cons, not_or]
    exact ⟨fun heq => ha (heq ▸ hv), fun hmem => ha (h.mem_of_mem a hmem)⟩
  · intro b hb hnot
    rcases Finset.mem_insert.mp hb with rfl | hb
    · exact le_refl b
    · exact hleast b hb hnot

theorem exists_of_nil {T : Finset V} (h : Decodes T [] E) :
    ∃ x y, x ≠ y ∧ T = {x, y} ∧ E = {s(x, y)} := by
  cases h with
  | nil hne => exact ⟨_, _, hne, rfl, rfl⟩

theorem eq_of_insert_eq {S' : Finset V} (ha : a ∉ S) (ha' : a ∉ S')
    (h : insert a S = insert a S') : S = S' := by
  rw [← Finset.erase_insert ha, h, Finset.erase_insert ha']

/-- **The tree** is determined by its code. -/
theorem unique (h : Decodes S s F) (h' : Decodes S s F') : F = F' := by
  induction h generalizing F' with
  | @nil x y hne =>
    obtain ⟨x', y', hne', hends, rfl⟩ := h'.exists_of_nil
    have hx : x ∈ ({x', y'} : Finset V) := hends ▸ Finset.mem_insert_self x {y}
    have hy : y ∈ ({x', y'} : Finset V) := hends ▸ Finset.mem_insert_of_mem
      (Finset.mem_singleton_self y)
    rw [Finset.mem_insert, Finset.mem_singleton] at hx hy
    rcases hx with rfl | rfl <;> rcases hy with rfl | rfl
    · exact absurd rfl hne
    · rfl
    · rw [Sym2.eq_swap]
    · exact absurd rfl hne
  | @cons S s F a v h ha hv hleast ih =>
    obtain ⟨a', S', F', hends, rfl, h', ha', hv', hleast'⟩ := h'.exists_of_cons
    obtain ⟨hnot, hmin⟩ := h.least ha hv hleast
    obtain ⟨hnot', hmin'⟩ := h'.least ha' hv' hleast'
    obtain rfl : a = a' := by
      refine le_antisymm (hmin a' ?_ hnot') (hmin' a ?_ hnot)
      · exact hends ▸ Finset.mem_insert_self a' S'
      · exact hends ▸ Finset.mem_insert_self a S
    obtain rfl := eq_of_insert_eq ha ha' hends
    rw [ih h']

/-- **The code** is determined by its tree. -/
theorem injective (h : Decodes S s F) (h' : Decodes S s' F) : s = s' := by
  induction h generalizing s' with
  | nil hne =>
    have hcard := (Decodes.nil hne).card_eq.symm.trans h'.card_eq
    rw [length_nil, Nat.add_right_cancel_iff] at hcard
    exact (eq_nil_of_length_eq_zero hcard.symm).symm
  | @cons S s F a v h ha hv hleast ih =>
    have hall := h.cons ha hv hleast
    match s' with
    | [] =>
      have hcard := hall.card_eq.symm.trans h'.card_eq
      simp at hcard
    | v' :: s' =>
      have hleaves {x : V} (hx : x ∈ insert a S) : x ∉ v :: s ↔ x ∉ v' :: s' :=
        (hall.isLeaf_iff hx).symm.trans (h'.isLeaf_iff hx)
      obtain ⟨a', S', F', hends, hedges, h', ha', hv', hleast'⟩ := h'.exists_of_cons
      obtain ⟨hnot, hmin⟩ := h.least ha hv hleast
      obtain ⟨hnot', hmin'⟩ := h'.least ha' hv' hleast'
      have hmem' : a' ∈ insert a S := hends ▸ Finset.mem_insert_self a' S'
      have hmem : a ∈ insert a S := Finset.mem_insert_self a S
      obtain rfl : a = a' := le_antisymm (hmin a' hmem' ((hleaves hmem').mpr hnot'))
        (hmin' a (hends ▸ hmem) ((hleaves hmem).mp hnot))
      obtain rfl := eq_of_insert_eq ha ha' hends
      have hnew : s(v, a) ∈ insert s(v', a) F' := hedges ▸ Finset.mem_insert_self _ F
      have hold : s(v, a) ∉ F' := fun he => h'.notMem_of_notMem ha _ he (Sym2.mem_mk_right v a)
      obtain rfl : v = v' :=
        Sym2.congr_left.mp ((Finset.mem_insert.mp hnew).resolve_right hold)
      have hfirst : s(v, a) ∉ F := fun he => h.notMem_of_notMem ha _ he (Sym2.mem_mk_right v a)
      obtain rfl : F = F' := by
        rw [← Finset.erase_insert hfirst, hedges, Finset.erase_insert hold]
      rw [ih h']

end Decodes

variable {F : Finset (Sym2 V)}

theorem IsTreeOn.eq_singleton {x y : V} (hne : x ≠ y)
    (h : IsTreeOn (({x, y} : Finset V) : Set V) F) :
    F = {s(x, y)} := by
  have hedge (e : Sym2 V) (he : e ∈ F) : e = s(x, y) := by
    induction e with
    | _ b c =>
      obtain ⟨hdiag, hmem⟩ := h.within _ he
      have hb := hmem b (Sym2.mem_mk_left b c)
      have hc := hmem c (Sym2.mem_mk_right b c)
      rw [Sym2.mk_isDiag_iff] at hdiag
      simp only [Finset.coe_insert, Finset.coe_singleton, Set.mem_insert_iff,
        Set.mem_singleton_iff] at hb hc
      rcases hb with rfl | rfl <;> rcases hc with rfl | rfl
      · exact absurd rfl hdiag
      · rfl
      · exact Sym2.eq_swap
      · exact absurd rfl hdiag
  obtain ⟨e, he, -⟩ := h.mem_ends (Finset.mem_coe.mpr (Finset.mem_insert_self x {y}))
    (Finset.mem_coe.mpr (Finset.mem_insert_of_mem (Finset.mem_singleton_self y))) hne
  exact Finset.eq_singleton_iff_unique_mem.mpr ⟨hedge e he ▸ he, hedge⟩

/-- **Every tree has a code**, by removing the least leaf. -/
theorem exists_decodes {S : Finset V} (h : IsTreeOn (S : Set V) F) (hcard : 2 ≤ S.card) :
    ∃ s, Decodes S s F := by
  classical
  induction hn : S.card generalizing S F with
  | zero => omega
  | succ n ih =>
    rcases Nat.lt_or_eq_of_le hcard with hlarge | htwo
    · have hleaves : (S.filter (IsLeaf F)).Nonempty := by
        obtain ⟨v, hv, hleaf⟩ := h.exists_leaf hcard
        exact ⟨v, Finset.mem_filter.mpr ⟨hv, hleaf⟩⟩
      obtain ⟨a, ha⟩ : ∃ a, a = (S.filter (IsLeaf F)).min' hleaves := ⟨_, rfl⟩
      obtain ⟨haS, u, hleaf⟩ := Finset.mem_filter.mp (ha ▸ Finset.min'_mem _ hleaves)
      have hne : u ≠ a := Sym2.mk_isDiag_iff.not.mp (h.within _ hleaf.mem).1
      have huS : u ∈ S := (h.within _ hleaf.mem).2 u (Sym2.mem_mk_left u a)
      have hcard' : (S.erase a).card = n := by
        rw [Finset.card_erase_of_mem haS, hn, Nat.add_sub_cancel]
      have hrest : IsTreeOn ((S.erase a : Finset V) : Set V) (F.erase s(u, a)) := by
        rw [Finset.coe_erase]
        exact h.erase_leaf hleaf
      obtain ⟨s, hs⟩ := ih hrest (by omega) hcard'
      have hleast : ∀ b ∈ S.erase a, b ∉ u :: s → a ≤ b := by
        intro b hb hnot
        rw [mem_cons, not_or] at hnot
        obtain ⟨hba, hbS⟩ := Finset.mem_erase.mp hb
        obtain ⟨w, hw⟩ := (hs.isLeaf_iff hb).mpr hnot.2
        have hother (e : Sym2 V) (hbe : b ∈ e) : e ≠ s(u, a) := by
          rintro rfl
          rcases Sym2.mem_iff.mp hbe with heq | heq
          · exact hnot.1 heq
          · exact hba heq
        have hangs : HangsOn F b w := ⟨Finset.mem_of_mem_erase hw.mem, fun e he hbe =>
          hw.eq_of_mem e (Finset.mem_erase.mpr ⟨hother e hbe, he⟩) hbe⟩
        rw [ha]
        exact Finset.min'_le _ b (Finset.mem_filter.mpr ⟨hbS, w, hangs⟩)
      have hcode := hs.cons (Finset.notMem_erase a S) (Finset.mem_erase.mpr ⟨hne, huS⟩) hleast
      rw [Finset.insert_erase haS, Finset.insert_erase hleaf.mem] at hcode
      exact ⟨_, hcode⟩
    · obtain ⟨x, y, hne, rfl⟩ := Finset.card_eq_two.mp htwo.symm
      rw [h.eq_singleton hne]
      exact ⟨[], .nil hne⟩

end RustExample
