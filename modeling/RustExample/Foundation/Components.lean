import Mathlib.Data.List.Induction
import Mathlib.Data.List.Nodup
import RustExample.Foundation.KeyStore

/-!
# Connected components

The components of a list of pairs are told apart by representatives: one pair after another joins
two classes by giving both one representative. In a forest of parents the representative of a node
is the root above it; linking one root to another joins two trees, and pointing a node at its root
changes nothing but the way there.
-/

namespace RustExample

open List

/-! ### Representatives -/

section Representatives

variable {α : Type} [DecidableEq α]

omit [DecidableEq α] in
/-- Two points are joined by a chain of the pairs, in either direction. -/
def Connected (pairs : List (α × α)) : α → α → Prop := Relation.EqvGen fun a b => (a, b) ∈ pairs

/-- The class of `b` gets the representative of `a`. -/
def mergeClasses (rep : α → α) (a b : α) : α → α := fun x => if rep x = rep b then rep a else rep x

/-- The representatives after a list of pairs. -/
def components (pairs : List (α × α)) : α → α :=
  pairs.foldl (fun rep p => mergeClasses rep p.1 p.2) id

variable {pairs : List (α × α)}

theorem mergeClasses_of_eq {rep : α → α} {x y : α} (h : rep x = rep y) (a b : α) :
    mergeClasses rep a b x = mergeClasses rep a b y := by
  rw [mergeClasses, h, mergeClasses]

theorem mergeClasses_self (rep : α → α) (a b : α) :
    mergeClasses rep a b a = mergeClasses rep a b b := by
  unfold mergeClasses
  rw [if_pos rfl]
  split_ifs <;> rfl

omit [DecidableEq α] in
theorem Connected.append {x y : α} (h : Connected pairs x y) (pairs' : List (α × α)) :
    Connected (pairs ++ pairs') x y :=
  Relation.EqvGen.mono (fun _ _ hp => mem_append_left pairs' hp) _ _ h

theorem components_snoc (a b : α) :
    components (pairs ++ [(a, b)]) = mergeClasses (components pairs) a b :=
  foldl_concat ..

/-- **Components.** Points are connected exactly if they have one representative. -/
theorem components_eq_iff {x y : α} :
    components pairs x = components pairs y ↔ Connected pairs x y := by
  induction pairs using List.reverseRecOn generalizing x y with
  | nil =>
    refine ⟨fun h => ?_, fun h => ?_⟩
    · obtain rfl : x = y := h
      exact .refl x
    induction h with
    | rel a b h => simp at h
    | refl => rfl
    | symm _ _ _ ih => exact ih.symm
    | trans _ _ _ _ _ ih ih' => exact ih.trans ih'
  | append_singleton pairs p ih =>
    obtain ⟨a, b⟩ := p
    rw [components_snoc]
    constructor
    · -- The new pair connects the classes of `a` and `b`.
      intro h
      have hold {x y : α} (h : components pairs x = components pairs y) :
          Connected (pairs ++ [(a, b)]) x y := (ih.mp h).append _
      have hab : Connected (pairs ++ [(a, b)]) a b := .rel a b (by simp)
      unfold mergeClasses at h
      split_ifs at h with hx hy hy
      · exact hold (hx.trans hy.symm)
      · exact .trans _ _ _ (hold hx) (.trans _ _ _ (.symm _ _ hab) (hold h))
      · exact .trans _ _ _ (hold h) (.trans _ _ _ hab (hold hy.symm))
      · exact hold h
    · intro h
      induction h with
      | rel u v h =>
        rcases List.mem_append.mp h with h | h
        · exact mergeClasses_of_eq (ih.mpr (.rel u v h)) a b
        · obtain ⟨rfl, rfl⟩ := Prod.mk.inj (List.mem_singleton.mp h)
          exact mergeClasses_self _ u v
      | refl => rfl
      | symm _ _ _ ih => exact ih.symm
      | trans _ _ _ _ _ ih ih' => exact ih.trans ih'

end Representatives

/-! ### Forests of parents -/

/-- In a list of parents, a node leads to a root in `d` steps; a root is its own parent. -/
inductive Leads (parents : List ℕ) : ℕ → ℕ → ℕ → Prop
  | root {i : ℕ} (h : parents[i]? = some i) : Leads parents i i 0
  | step {i p r d : ℕ} (h : parents[i]? = some p) (hne : p ≠ i) (hp : Leads parents p r d) :
      Leads parents i r (d + 1)

namespace Leads

variable {parents parents' : List ℕ} {i j r r' d e : ℕ}

theorem parent_root (h : Leads parents i r d) : parents[r]? = some r := by
  induction h with
  | root h => exact h
  | step _ _ _ ih => exact ih

theorem unique (h : Leads parents i r d) (h' : Leads parents i r' e) : r = r' ∧ d = e := by
  induction h generalizing e with
  | root h =>
    cases h' with
    | root _ => exact ⟨rfl, rfl⟩
    | step h' hne _ => exact absurd (Option.some.inj (h'.symm.trans h)) hne
  | step h hne _ ih =>
    cases h' with
    | root h' => exact absurd (Option.some.inj (h.symm.trans h')) hne
    | step h' _ hp' =>
      obtain ⟨⟩ := h.symm.trans h'
      exact (ih hp').imp_right (congrArg (· + 1))

theorem append (h : Leads parents i r d) (l : List ℕ) : Leads (parents ++ l) i r d := by
  have hget {i p : ℕ} (h : parents[i]? = some p) : (parents ++ l)[i]? = some p :=
    getElem?_append_left (List.getElem?_eq_some_iff.mp h).1 ▸ h
  induction h with
  | root h => exact root (hget h)
  | step h hne _ ih => exact step (hget h) hne ih

/-- **Pointing a node at its root** only shortens ways. -/
theorem set_root (hi : Leads parents i r e) (hne : i ≠ r) (h : Leads parents j r' d) :
    ∃ d' ≤ d, Leads (parents.set i r) j r' d' := by
  have hroot : parents[r]? = some r := hi.parent_root
  induction h with
  | @root j h =>
    refine ⟨0, Nat.le_refl _, root ?_⟩
    have hji : i ≠ j := by
      rintro rfl
      exact hne (hi.unique (root h)).1.symm
    rw [getElem?_set_ne hji, h]
  | @step j p r' d h hp hlead ih =>
    by_cases hji : i = j
    · subst hji
      obtain rfl := (hi.unique (step h hp hlead)).1
      have hself : (parents.set i r)[i]? = some r :=
        getElem?_set_self (List.getElem?_eq_some_iff.mp h).1
      refine ⟨1, by omega, step hself (Ne.symm hne) (root ?_)⟩
      rw [getElem?_set_ne hne, hroot]
    · obtain ⟨d', hle, hd'⟩ := ih
      refine ⟨d' + 1, by omega, step ?_ hp hd'⟩
      rw [getElem?_set_ne hji, h]

/-- **Linking the root `b` to the root `a`** joins their trees. -/
theorem link {a b : ℕ} (ha : parents[a]? = some a) (hb : parents[b]? = some b) (hne : a ≠ b)
    (h : Leads parents j r d) :
    ∃ d' ≤ d + 1, Leads (parents.set b a) j (if r = b then a else r) d' := by
  have hself : (parents.set b a)[b]? = some a :=
    getElem?_set_self (List.getElem?_eq_some_iff.mp hb).1
  have hroot : Leads (parents.set b a) a a 0 :=
    root (by rw [getElem?_set_ne (Ne.symm hne), ha])
  induction h with
  | @root j h =>
    split_ifs with hj
    · subst hj
      exact ⟨1, Nat.le_refl _, step hself hne hroot⟩
    · refine ⟨0, Nat.zero_le _, root ?_⟩
      rw [getElem?_set_ne (Ne.symm hj), h]
  | @step j p r d h hp hlead ih =>
    have hj : b ≠ j := by
      rintro rfl
      exact hp (Option.some.inj (h.symm.trans hb))
    obtain ⟨d', hle, hd'⟩ := ih
    refine ⟨d' + 1, by omega, step ?_ hp hd'⟩
    rw [getElem?_set_ne hj, h]

end Leads

/-! ### Groups -/

namespace KeyStore

variable {κ α : Type} [Ord κ] [Std.TransOrd κ] [Std.LawfulEqOrd κ] [DecidableEq κ]

/-- Adds an entry to a group. -/
def pushTo (groups : KeyStore κ (List α)) (k : κ) (a : α) : KeyStore κ (List α) :=
  groups.insert k (groups[k]?.getD [] ++ [a])

/-- The entries of a list under their labels, in order. -/
def groupBy (label : α → κ) (l : List α) : KeyStore κ (List α) :=
  l.foldl (fun groups a => groups.pushTo (label a) a) ∅

variable {label : α → κ} {l : List α}

omit [Std.LawfulEqOrd κ] [DecidableEq κ] in
theorem groupBy_snoc (a : α) : groupBy label (l ++ [a]) = (groupBy label l).pushTo (label a) a :=
  foldl_concat ..

/-- **Groups** are the entries with a label, if there are any. -/
theorem getElem?_groupBy {k : κ} {group : List α} :
    (groupBy label l)[k]? = some group ↔
      group ≠ [] ∧ group = l.filter fun a => label a = k := by
  induction l using List.reverseRecOn generalizing group with
  | nil => simp +contextual [groupBy]
  | append_singleton l a ih =>
    rw [groupBy_snoc, pushTo, getElem?_put, filter_append]
    by_cases hk : label a = k
    · subst hk
      have hold : (groupBy label l)[label a]?.getD [] = l.filter fun b => label b = label a := by
        cases hg : (groupBy label l)[label a]? with
        | none =>
          by_contra hne
          rw [ih.mpr ⟨fun h => hne (by simp [h]), rfl⟩] at hg
          cases hg
        | some group => exact (ih.mp hg).2
      rw [if_pos rfl, hold, Option.some.injEq]
      constructor
      · rintro rfl
        simp
      · rintro ⟨-, rfl⟩
        simp
    · rw [if_neg hk, ih]
      simp [hk]

theorem mem_flatten_groupBy {a : α} : a ∈ (groupBy label l).vals.flatten ↔ a ∈ l := by
  simp only [mem_flatten, mem_vals, getElem?_groupBy]
  constructor
  · rintro ⟨_, ⟨k, -, rfl⟩, ha⟩
    exact (List.mem_filter.mp ha).1
  · intro ha
    have hmem : a ∈ l.filter fun b => label b = label a := List.mem_filter.mpr ⟨ha, by simp⟩
    exact ⟨_, ⟨label a, ne_nil_of_mem hmem, rfl⟩, hmem⟩

/-- **Every entry is in one group, once.** -/
theorem nodup_flatten_groupBy (hl : l.Nodup) : (groupBy label l).vals.flatten.Nodup := by
  refine List.nodup_flatten.mpr ⟨fun group hgroup => ?_, ?_⟩
  · obtain ⟨k, hk⟩ := mem_vals.mp hgroup
    exact (getElem?_groupBy.mp hk).2 ▸ hl.filter _
  · refine List.pairwise_map.mpr (List.Pairwise.imp_of_mem ?_
      (groupBy label l).distinct_keys_toList)
    rintro ⟨k, group⟩ ⟨k', group'⟩ h h' hne a ha ha'
    rw [(getElem?_groupBy.mp (Std.ExtTreeMap.mem_toList_iff_getElem?_eq_some.mp h)).2] at ha
    rw [(getElem?_groupBy.mp (Std.ExtTreeMap.mem_toList_iff_getElem?_eq_some.mp h')).2] at ha'
    have hk : label a = k := by simpa using (List.mem_filter.mp ha).2
    have hk' : label a = k' := by simpa using (List.mem_filter.mp ha').2
    exact hne (Std.LawfulEqOrd.compare_eq_iff_eq.mpr (hk.symm.trans hk'))

/-- Two entries are in one group if they have one label. -/
theorem mem_group_iff {a b : α} : (∃ group ∈ (groupBy label l).vals, a ∈ group ∧ b ∈ group) ↔
    a ∈ l ∧ b ∈ l ∧ label a = label b := by
  simp only [mem_vals, getElem?_groupBy]
  constructor
  · rintro ⟨_, ⟨k, -, rfl⟩, ha, hb⟩
    have ha := List.mem_filter.mp ha
    have hb := List.mem_filter.mp hb
    have hka : label a = k := by simpa using ha.2
    have hkb : label b = k := by simpa using hb.2
    exact ⟨ha.1, hb.1, hka.trans hkb.symm⟩
  · rintro ⟨ha, hb, hlabel⟩
    have hmem : a ∈ l.filter fun c => label c = label b := List.mem_filter.mpr ⟨ha, by simpa⟩
    exact ⟨_, ⟨label b, ne_nil_of_mem hmem, rfl⟩, hmem, List.mem_filter.mpr ⟨hb, by simp⟩⟩

end KeyStore

end RustExample
