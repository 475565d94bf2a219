import Mathlib.Data.List.Basic
import Mathlib.Data.List.Count
import Mathlib.Data.Nat.Basic

/-!
# Copies that are filled piece by piece

A source has its parts in order. A copy of it holds some of them, and a piece that arrives is put
in where the copy lacks it. As long as the pieces are parts of the source, whoever passes them on
and in whatever order they arrive, a copy holds nothing but parts of the source, and it never
loses one.
-/

namespace RustExample

open List

variable {α : Type*}

/-- A copy of `source` that holds some of its parts, each at its place. -/
structure SubCopy (source : List α) (copy : List (Option α)) : Prop where
  length_eq : copy.length = source.length
  part : ∀ {i : ℕ} {a : α}, copy[i]? = some (some a) → source[i]? = some a

/-- The number of parts there are. -/
def held (copy : List (Option α)) : ℕ := copy.countP Option.isSome

/-- Put a piece in if it is missing. -/
def putMissing (copy : List (Option α)) (i : ℕ) (a : α) : List (Option α) :=
  match copy[i]? with
  | some none => copy.set i (some a)
  | _ => copy

/-- Puts in some pieces. -/
def mergePieces (copy : List (Option α)) (pieces : List (ℕ × α)) : List (Option α) :=
  pieces.foldl (fun copy p => putMissing copy p.1 p.2) copy

variable {source : List α} {copy : List (Option α)}

/-! ### One piece -/

@[simp] theorem length_putMissing (copy : List (Option α)) (i : ℕ) (a : α) :
    (putMissing copy i a).length = copy.length := by
  rw [putMissing]
  split <;> simp

theorem putMissing_of_missing {i : ℕ} (h : copy[i]? = some none) (a : α) :
    putMissing copy i a = copy.set i (some a) := by
  rw [putMissing, h]

theorem putMissing_of_ne {i : ℕ} (h : copy[i]? ≠ some none) (a : α) :
    putMissing copy i a = copy := by
  rw [putMissing]
  split
  · exact absurd ‹_› h
  · rfl

theorem SubCopy.putMissing (h : SubCopy source copy) {i : ℕ} {a : α} (ha : source[i]? = some a) :
    SubCopy source (putMissing copy i a) := by
  by_cases hi : copy[i]? = some none
  · refine ⟨by rw [length_putMissing, h.length_eq], fun {j b} hj => ?_⟩
    rw [putMissing_of_missing hi, getElem?_set] at hj
    split_ifs at hj with hij hlt
    · obtain rfl : a = b := by simpa using hj
      rw [← hij, ha]
    · exact h.part hj
  · rwa [putMissing_of_ne hi]

theorem held_putMissing {i : ℕ} (h : copy[i]? = some none) (a : α) :
    held (putMissing copy i a) = held copy + 1 := by
  rw [putMissing_of_missing h, held, held]
  induction copy generalizing i with
  | nil => simp at h
  | cons o copy ih =>
    cases i with
    | zero =>
      obtain rfl : o = none := by simpa using h
      simp
    | succ i =>
      have hi : copy[i]? = some none := by simpa using h
      rw [set_cons_succ, countP_cons, countP_cons, ih hi]
      omega

theorem held_le_putMissing (copy : List (Option α)) (i : ℕ) (a : α) :
    held copy ≤ held (putMissing copy i a) := by
  by_cases h : copy[i]? = some none
  · rw [held_putMissing h]
    omega
  · rw [putMissing_of_ne h]

/-! ### Many pieces -/

/-- **Pieces of the source keep a copy a copy.** -/
theorem SubCopy.mergePieces (h : SubCopy source copy) {pieces : List (ℕ × α)}
    (hpieces : ∀ p ∈ pieces, source[p.1]? = some p.2) :
    SubCopy source (mergePieces copy pieces) := by
  induction pieces generalizing copy with
  | nil => exact h
  | cons p pieces ih =>
    exact ih (h.putMissing (hpieces p mem_cons_self))
      fun q hq => hpieces q (mem_cons_of_mem _ hq)

theorem held_le_mergePieces (copy : List (Option α)) (pieces : List (ℕ × α)) :
    held copy ≤ held (mergePieces copy pieces) := by
  induction pieces generalizing copy with
  | nil => exact le_rfl
  | cons p pieces ih => exact Nat.le_trans (held_le_putMissing copy p.1 p.2) (ih _)

variable {pieces : List (ℕ × α)}

/-- **A piece that was missing** makes the copy larger. -/
theorem held_lt_mergePieces {p : ℕ × α} (hp : p ∈ pieces) (h : copy[p.1]? = some none) :
    held copy < held (mergePieces copy pieces) := by
  induction pieces generalizing copy with
  | nil => cases hp
  | cons q pieces ih =>
    by_cases hq : copy[q.1]? = some none
    · calc held copy < held (putMissing copy q.1 q.2) := by rw [held_putMissing hq]; omega
        _ ≤ held (mergePieces copy (q :: pieces)) := held_le_mergePieces _ _
    · have hp' : p ∈ pieces := (List.mem_cons.mp hp).resolve_left fun heq => hq (heq ▸ h)
      show held copy < held (mergePieces (putMissing copy q.1 q.2) pieces)
      rw [putMissing_of_ne hq]
      exact ih hp' h

theorem holds_putMissing {i j : ℕ} {a : α} (hi : i < copy.length) :
    (∃ b, (putMissing copy i a)[j]? = some (some b)) ↔
      (∃ b, copy[j]? = some (some b)) ∨ j = i := by
  by_cases h : copy[i]? = some none
  · rw [putMissing_of_missing h, getElem?_set]
    by_cases hij : i = j
    · simp [hij, hij ▸ hi]
    · simp [hij, Ne.symm hij]
  · rw [putMissing_of_ne h]
    refine ⟨.inl, fun hor => hor.elim id ?_⟩
    rintro rfl
    rw [getElem?_eq_getElem hi] at h ⊢
    obtain ⟨b, hb⟩ := Option.ne_none_iff_exists'.mp fun hnone => h (congrArg some hnone)
    exact ⟨b, congrArg some hb⟩

/-- **What is held after many pieces**: what was held, and the pieces. -/
theorem holds_mergePieces (h : ∀ p ∈ pieces, p.1 < copy.length) {j : ℕ} :
    (∃ b, (mergePieces copy pieces)[j]? = some (some b)) ↔
      (∃ b, copy[j]? = some (some b)) ∨ j ∈ pieces.map Prod.fst := by
  induction pieces generalizing copy with
  | nil => simp [mergePieces]
  | cons p pieces ih =>
    have hrest : ∀ q ∈ pieces, q.1 < (putMissing copy p.1 p.2).length := fun q hq =>
      (length_putMissing copy p.1 p.2).symm ▸ h q (mem_cons_of_mem _ hq)
    refine (ih hrest).trans ?_
    rw [holds_putMissing (h p mem_cons_self), map_cons, mem_cons, or_assoc]

/-- Pieces change nothing exactly if none of them was missing. -/
theorem mergePieces_eq_self :
    mergePieces copy pieces = copy ↔ ∀ p ∈ pieces, copy[p.1]? ≠ some none := by
  constructor
  · intro h p hp hmissing
    exact absurd (held_lt_mergePieces hp hmissing) (by rw [h]; exact lt_irrefl _)
  · intro h
    induction pieces with
    | nil => rfl
    | cons p pieces ih =>
      show mergePieces (putMissing copy p.1 p.2) pieces = copy
      rw [putMissing_of_ne (h p mem_cons_self)]
      exact ih fun q hq => h q (mem_cons_of_mem _ hq)

@[simp] theorem length_mergePieces (copy : List (Option α)) (pieces : List (ℕ × α)) :
    (mergePieces copy pieces).length = copy.length := by
  induction pieces generalizing copy with
  | nil => rfl
  | cons p pieces ih => exact (ih _).trans (length_putMissing copy p.1 p.2)

/-! ### Complete copies -/

theorem SubCopy.getElem?_cases (h : SubCopy source copy) {i : ℕ} (hi : i < source.length) :
    copy[i]? = some none ∨ copy[i]? = (source[i]?).map some := by
  have hlt : i < copy.length := by
    rw [h.length_eq]
    exact hi
  cases hcopy : copy[i]? with
  | none => exact absurd (List.getElem?_eq_none_iff.mp hcopy) (by omega)
  | some o =>
    cases o with
    | none => exact .inl rfl
    | some a => exact .inr (by rw [h.part hcopy, Option.map_some])

/-- **A copy that lacks nothing is the source.** -/
theorem SubCopy.eq_of_complete (h : SubCopy source copy) (hall : copy.all Option.isSome) :
    copy = source.map some := by
  refine ext_getElem? fun i => ?_
  rw [getElem?_map]
  rcases Nat.lt_or_ge i source.length with hi | hi
  · refine (h.getElem?_cases hi).resolve_left fun hnone => ?_
    have hmem := List.all_eq_true.mp hall none (mem_of_getElem? hnone)
    cases hmem
  · rw [getElem?_eq_none (by rw [h.length_eq]; exact hi), getElem?_eq_none hi,
      Option.map_none]

theorem subCopy_source (source : List α) : SubCopy source (source.map some) where
  length_eq := length_map _
  part h := by simpa using h

theorem subCopy_replicate (source : List α) :
    SubCopy source (List.replicate source.length none) where
  length_eq := length_replicate
  part h := by
    rw [getElem?_replicate] at h
    split at h <;> simp at h

end RustExample
