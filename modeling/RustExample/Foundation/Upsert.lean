import Mathlib.Data.List.Nodup
import Mathlib.Data.List.Perm.Basic

/-!
# Lists with one entry for a key

A short list of entries is kept up to date by key: a new entry takes the place of the first one
with its key, or goes to the end.
-/

namespace RustExample

open List

variable {α κ : Type} [DecidableEq κ] {key : α → κ}

/-- Put `a` in the place of the first entry with its key, or at the end. -/
def upsertBy (key : α → κ) (l : List α) (a : α) : List α :=
  match l with
  | [] => [a]
  | b :: l => if key b = key a then a :: l else b :: upsertBy key l a

/-- The first entry with the key `k`. -/
def findBy (key : α → κ) (l : List α) (k : κ) : Option α := l.find? fun a => key a = k

theorem mem_upsertBy_self (l : List α) (a : α) : a ∈ upsertBy key l a := by
  induction l with
  | nil => simp [upsertBy]
  | cons b l ih =>
    rw [upsertBy]
    split_ifs
    · exact mem_cons_self
    · exact mem_cons_of_mem b ih

variable {l : List α}

theorem eq_or_mem_of_mem_upsertBy {a b : α} (h : b ∈ upsertBy key l a) :
    b = a ∨ b ∈ l := by
  induction l with
  | nil => exact .inl (by simpa [upsertBy] using h)
  | cons c l ih =>
    rw [upsertBy] at h
    split_ifs at h
    · rcases List.mem_cons.mp h with rfl | h
      · exact .inl rfl
      · exact .inr (mem_cons_of_mem c h)
    · rcases List.mem_cons.mp h with rfl | h
      · exact .inr mem_cons_self
      · exact (ih h).imp_right (mem_cons_of_mem c)

theorem mem_upsertBy_of_ne {a b : α} (hb : b ∈ l) (hne : key b ≠ key a) :
    b ∈ upsertBy key l a := by
  induction l with
  | nil => simp at hb
  | cons c l ih =>
    rw [upsertBy]
    split_ifs with hc
    · rcases List.mem_cons.mp hb with rfl | hb
      · exact absurd hc hne
      · exact mem_cons_of_mem a hb
    · rcases List.mem_cons.mp hb with rfl | hb
      · exact mem_cons_self
      · exact mem_cons_of_mem c (ih hb)

/-- **Updates by key.** -/
theorem findBy_upsertBy (l : List α) (a : α) (k : κ) :
    findBy key (upsertBy key l a) k = if key a = k then some a else findBy key l k := by
  induction l with
  | nil => by_cases hk : key a = k <;> simp [upsertBy, findBy, hk]
  | cons b l ih =>
    unfold findBy at ih ⊢
    rw [upsertBy]
    split_ifs with hb hk hk
    · simp [hk]
    · simp [hk, hb]
    · rw [if_pos hk] at ih
      simp [show key b ≠ k from fun h => hb (h.trans hk.symm), ih]
    · rw [if_neg hk] at ih
      by_cases hbk : key b = k <;> simp [hbk, ih]

theorem findBy_filter_ne (l : List α) (k' k : κ) :
    findBy key (l.filter fun a => key a ≠ k') k = if k = k' then none else findBy key l k := by
  unfold findBy
  rw [find?_filter]
  split_ifs with hk
  · subst hk
    simp
  · congr 1
    funext a
    by_cases ha : key a = k <;> simp [ha, hk]

theorem key_eq_of_findBy (key : α → κ) {k : κ} {a : α} (h : findBy key l k = some a) :
    key a = k := by
  simpa using find?_some h

theorem mem_of_findBy {k : κ} {a : α} (h : findBy key l k = some a) : a ∈ l :=
  mem_of_find?_eq_some h

theorem findBy_eq_none {k : κ} (h : k ∉ l.map key) : findBy key l k = none :=
  List.find?_eq_none.mpr fun _ ha hk => h (List.mem_map.mpr ⟨_, ha, by simpa using hk⟩)

theorem findBy_of_mem (hl : (l.map key).Nodup) {a : α} (ha : a ∈ l) :
    findBy key l (key a) = some a := by
  induction l with
  | nil => simp at ha
  | cons b l ih =>
    obtain ⟨hb, hl⟩ := List.nodup_cons.mp hl
    rcases List.mem_cons.mp ha with rfl | ha
    · simp [findBy]
    · have hne : key b ≠ key a := fun h => hb (h ▸ mem_map_of_mem ha)
      simpa [findBy, hne] using ih hl ha

theorem map_upsertBy (l : List α) (a : α) :
    (upsertBy key l a).map key = if key a ∈ l.map key then l.map key else l.map key ++ [key a] := by
  induction l with
  | nil => simp [upsertBy]
  | cons b l ih =>
    rw [upsertBy]
    by_cases hb : key b = key a
    · simp [hb]
    · have hmem : key a ∈ (b :: l).map key ↔ key a ∈ l.map key := by simp [Ne.symm hb]
      rw [if_neg hb, map_cons, ih]
      simp only [hmem]
      split_ifs <;> rfl

theorem nodup_upsertBy (hl : (l.map key).Nodup) (a : α) :
    ((upsertBy key l a).map key).Nodup := by
  rw [map_upsertBy]
  split_ifs with h
  · exact hl
  · exact concat_eq_append ▸ hl.concat h

theorem nodup_foldl_upsertBy (hl : (l.map key).Nodup) (as : List α) :
    ((as.foldl (upsertBy key) l).map key).Nodup := by
  induction as generalizing l with
  | nil => exact hl
  | cons a as ih => exact ih (nodup_upsertBy hl a)

theorem upsertBy_of_notMem {a : α} (h : key a ∉ l.map key) :
    upsertBy key l a = l ++ [a] := by
  induction l with
  | nil => rfl
  | cons b l ih =>
    obtain ⟨hne, hmem⟩ := not_or.mp (mt List.mem_cons.mpr h)
    rw [upsertBy, if_neg (Ne.symm hne), ih hmem, cons_append]

/-- Entries with new keys go to the end, one after another. -/
theorem foldl_upsertBy_of_nodup {as : List α} (h : ((l ++ as).map key).Nodup) :
    as.foldl (upsertBy key) l = l ++ as := by
  induction as generalizing l with
  | nil => simp
  | cons a as ih =>
    have hsplit : l ++ a :: as = (l ++ [a]) ++ as := by simp
    have hnew : key a ∉ l.map key := by
      rw [map_append, map_cons] at h
      exact fun hmem => (List.nodup_append.mp h).2.2 _ hmem _ mem_cons_self rfl
    rw [hsplit] at h
    rw [foldl_cons, upsertBy_of_notMem hnew, ih h, hsplit]

/-- **Several updates**: the last one with a key counts. -/
theorem findBy_foldl_upsertBy (as l : List α) (k : κ) :
    findBy key (as.foldl (upsertBy key) l) k =
      ((as.filter fun a => key a = k).getLast?).or (findBy key l k) := by
  induction as generalizing l with
  | nil => rfl
  | cons a as ih =>
    rw [foldl_cons, ih, findBy_upsertBy]
    by_cases ha : key a = k
    · rw [if_pos ha, filter_cons_of_pos (by simpa using ha), getLast?_cons]
      cases (as.filter fun a => key a = k).getLast? <;> rfl
    · rw [if_neg ha, filter_cons_of_neg (by simpa using ha)]

omit [DecidableEq κ] in
/-- What keeps the keys and drops some entries keeps the keys distinct. -/
theorem nodup_filterMap {l : List α} (hl : (l.map key).Nodup) {f : α → Option α}
    (hf : ∀ a b, f a = some b → key b = key a) : ((l.filterMap f).map key).Nodup := by
  induction l with
  | nil => exact hl
  | cons a l ih =>
    obtain ⟨ha, hl⟩ := List.nodup_cons.mp hl
    cases hfa : f a with
    | none => simpa [filterMap_cons, hfa] using ih hl
    | some b =>
      rw [filterMap_cons, hfa, map_cons, nodup_cons, hf a b hfa]
      refine ⟨fun hmem => ha ?_, ih hl⟩
      obtain ⟨c, hc, hkey⟩ := List.mem_map.mp hmem
      obtain ⟨d, hd, hdc⟩ := List.mem_filterMap.mp hc
      exact List.mem_map.mpr ⟨d, hd, (hf d c hdc).symm.trans hkey⟩

theorem findBy_filterMap (hl : (l.map key).Nodup) {f : α → Option α}
    (hf : ∀ a b, f a = some b → key b = key a) (k : κ) :
    findBy key (l.filterMap f) k = (findBy key l k).bind f := by
  induction l with
  | nil => rfl
  | cons a l ih =>
    obtain ⟨ha, hl⟩ := List.nodup_cons.mp hl
    unfold findBy at ih ⊢
    by_cases hk : key a = k
    · rw [find?_cons_of_pos (by simpa using hk), Option.bind_some, filterMap_cons]
      cases hfa : f a with
      | none =>
        -- No other entry has the key.
        have hnone : findBy key l k = none := findBy_eq_none (hk ▸ ha)
        exact (ih hl).trans (congrArg (·.bind f) hnone)
      | some b => exact find?_cons_of_pos (by simpa using (hf a b hfa).trans hk)
    · rw [find?_cons_of_neg (by simpa using hk), ← ih hl, filterMap_cons]
      cases hfa : f a with
      | none => rfl
      | some b =>
        have hb : key b ≠ k := fun h => hk ((hf a b hfa).symm.trans h)
        exact find?_cons_of_neg (by simpa using hb)

/-- Two lists with distinct keys and the same entries hold the same. -/
theorem perm_of_findBy {l' : List α} (hl : (l.map key).Nodup) (hl' : (l'.map key).Nodup)
    (h : ∀ k, findBy key l k = findBy key l' k) : List.Perm l l' := by
  refine (perm_ext_iff_of_nodup hl.of_map hl'.of_map).mpr fun a => ?_
  constructor <;> intro ha
  · exact mem_of_findBy (h (key a) ▸ findBy_of_mem hl ha)
  · exact mem_of_findBy (h (key a) ▸ findBy_of_mem hl' ha)

end RustExample
