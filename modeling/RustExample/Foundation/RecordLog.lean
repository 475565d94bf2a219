import Mathlib.Data.List.Induction
import Mathlib.Data.List.Pairwise
import RustExample.Foundation.KeyStore

/-!
# Logs of whole records

A log whose entries are records: every entry replaces the earlier record of its key. A relation
between the old and the new record that is transitive holds between any two records of a key if it
holds between each and the one that it replaces.
-/

namespace RustExample.RecordLog

open List

variable {κ α : Type} [Ord κ] [Std.TransOrd κ] {key : α → κ} {log : List α}

/-- The last record of every key. -/
def table (key : α → κ) (log : List α) : KeyStore κ α :=
  log.foldl (fun t a => t.insert (key a) a) ∅

/-- Every record is related to the later ones of its key. -/
def Chained (key : α → κ) (R : α → α → Prop) (log : List α) : Prop :=
  log.Pairwise fun a b => key a = key b → R a b

variable [Std.LawfulEqOrd κ] [DecidableEq κ]

theorem getElem?_table_concat (log : List α) (a : α) (k : κ) :
    (table key (log ++ [a]))[k]? = if key a = k then some a else (table key log)[k]? := by
  rw [table, foldl_append]
  exact KeyStore.getElem?_put _ _ _ _

theorem of_getElem?_table {k : κ} {a : α} (h : (table key log)[k]? = some a) :
    a ∈ log ∧ key a = k := by
  induction log using List.reverseRecOn with
  | nil => exact absurd (Std.ExtTreeMap.getElem?_empty.symm.trans h) nofun
  | append_singleton log b ih =>
    rw [getElem?_table_concat] at h
    split_ifs at h with hkey
    · obtain rfl := Option.some.inj h
      exact ⟨mem_append_right _ (mem_singleton_self _), hkey⟩
    · exact ⟨mem_append_left _ (ih h).1, (ih h).2⟩

theorem exists_getElem?_table {a : α} (h : a ∈ log) : ∃ b, (table key log)[key a]? = some b := by
  induction log using List.reverseRecOn with
  | nil => exact absurd h not_mem_nil
  | append_singleton log b ih =>
    rw [getElem?_table_concat]
    split_ifs with hkey
    · exact ⟨b, rfl⟩
    · refine ih ((List.mem_append.mp h).resolve_right fun hb => hkey ?_)
      rw [List.mem_singleton.mp hb]

theorem mem_of_mem_toList_table {p : κ × α} (h : p ∈ (table key log).toList) : p.2 ∈ log :=
  (of_getElem?_table (Std.ExtTreeMap.mem_toList_iff_getElem?_eq_some.mp h)).1

variable {R : α → α → Prop}

theorem Chained.eq_or_rel (h : Chained key R log) {a b : α}
    (hb : (table key log)[key a]? = some b) (ha : a ∈ log) : a = b ∨ R a b := by
  induction log using List.reverseRecOn with
  | nil => exact absurd ha not_mem_nil
  | append_singleton log c ih =>
    obtain ⟨hlog, -, hlast⟩ := List.pairwise_append.mp h
    rw [getElem?_table_concat] at hb
    split_ifs at hb with hkey
    · obtain rfl := Option.some.inj hb
      rcases List.mem_append.mp ha with ha | ha
      · exact .inr (hlast a ha c (mem_singleton_self c) hkey.symm)
      · exact .inl (List.mem_singleton.mp ha)
    · refine ih hlog hb ((List.mem_append.mp ha).resolve_right fun hc => hkey ?_)
      rw [List.mem_singleton.mp hc]

omit [Ord κ] [Std.TransOrd κ] [Std.LawfulEqOrd κ] [DecidableEq κ] in
theorem Chained.eq_or_rel_or_rel (h : Chained key R log) {a b : α} (ha : a ∈ log) (hb : b ∈ log)
    (hkey : key a = key b) : a = b ∨ R a b ∨ R b a := by
  have : Std.Symm fun a b : α => key a = key b → R a b ∨ R b a :=
    ⟨fun _ _ hrel hkey => (hrel hkey.symm).symm⟩
  have hsymm : log.Pairwise fun a b => key a = key b → R a b ∨ R b a :=
    h.imp fun hrel hkey => .inl (hrel hkey)
  by_cases heq : a = b
  · exact .inl heq
  · exact .inr (hsymm.forall ha hb heq hkey)

/-- **Appending a record.** It is related to the others of its key if it is to the one replaced. -/
theorem Chained.concat (htrans : ∀ a b c, R a b → R b c → R a c) (h : Chained key R log) {a : α}
    (ha : ∀ b, (table key log)[key a]? = some b → R b a) : Chained key R (log ++ [a]) := by
  refine List.pairwise_append.mpr ⟨h, pairwise_singleton _ _, fun b hb c hc hkey => ?_⟩
  obtain rfl := List.mem_singleton.mp hc
  obtain ⟨last, hlast⟩ : ∃ c, (table key log)[key b]? = some c := exists_getElem?_table hb
  have hlast' := ha last (hkey ▸ hlast)
  rcases h.eq_or_rel hlast hb with rfl | hrel
  · exact hlast'
  · exact htrans b last c hrel hlast'

end RustExample.RecordLog
