import Mathlib.Data.List.Perm.Subperm
import Mathlib.Tactic.Linarith

/-!
# Ordered key-value stores, writes and overlays

A store is a finite map with ordered keys. A write puts or deletes one key; a batch is a list of
writes performed in order. An overlay holds the pending writes of a batch, the last one for each
key, so that a reader of the batch sees them before they reach the store.
-/

namespace RustExample

open List

/-- The finite maps with ordered keys. -/
abbrev KeyStore (κ α : Type) [Ord κ] := Std.ExtTreeMap κ α compare

namespace KeyStore

variable {κ α : Type} [Ord κ] [Std.TransOrd κ]

/-! ### Writes -/

/-- One write of a store: `some v` puts the value, `none` deletes the key. -/
structure Write (κ α : Type) where
  key : κ
  value : Option α
  deriving DecidableEq

/-- Performs a write. -/
def write (s : KeyStore κ α) (w : Write κ α) : KeyStore κ α :=
  match w.value with
  | some v => s.insert w.key v
  | none => s.erase w.key

/-- Perform a list of writes in order. -/
def writeAll (s : KeyStore κ α) (ws : List (Write κ α)) : KeyStore κ α := ws.foldl write s

@[simp] theorem writeAll_nil (s : KeyStore κ α) : s.writeAll [] = s := rfl

@[simp] theorem writeAll_cons (s : KeyStore κ α) (w : Write κ α) (ws : List (Write κ α)) :
    s.writeAll (w :: ws) = (s.write w).writeAll ws := rfl

theorem writeAll_append (s : KeyStore κ α) (ws ws' : List (Write κ α)) :
    s.writeAll (ws ++ ws') = (s.writeAll ws).writeAll ws' :=
  foldl_append

section Lookup

variable [Std.LawfulEqOrd κ] [DecidableEq κ]

@[simp] theorem getElem?_put (s : KeyStore κ α) (k k' : κ) (v : α) :
    (s.insert k v)[k']? = if k = k' then some v else s[k']? := by
  simp [Std.ExtTreeMap.getElem?_insert]

@[simp] theorem getElem?_del (s : KeyStore κ α) (k k' : κ) :
    (s.erase k)[k']? = if k = k' then none else s[k']? := by
  simp [Std.ExtTreeMap.getElem?_erase]

theorem getElem?_put_map {s : KeyStore κ α} {k : κ} {v : α} (h : s[k]? = some v) (f : α → α)
    (k' : κ) : (s.insert k (f v))[k']? = if k = k' then s[k']?.map f else s[k']? := by
  rw [getElem?_put]
  split_ifs with hk
  · rw [← hk, h, Option.map_some]
  · rfl

omit [Std.LawfulEqOrd κ] in
/-- Where there is no entry, a change of it changes nothing. -/
theorem getElem?_map_of_none {s : KeyStore κ α} {k : κ} (h : s[k]? = none) (f : α → α) (k' : κ) :
    s[k']? = if k = k' then s[k']?.map f else s[k']? := by
  split_ifs with hk
  · rw [← hk, h, Option.map_none]
  · rfl

@[simp] theorem getElem?_write (s : KeyStore κ α) (w : Write κ α) (k : κ) :
    (s.write w)[k]? = if w.key = k then w.value else s[k]? := by
  obtain ⟨key, _ | v⟩ := w <;> simp [write]

variable {ws : List (Write κ α)}

/-- A key that no write of a batch touches keeps its value. -/
theorem getElem?_writeAll_of_notMem {k : κ} (h : ∀ w ∈ ws, w.key ≠ k) (s : KeyStore κ α) :
    (s.writeAll ws)[k]? = s[k]? := by
  induction ws generalizing s with
  | nil => rfl
  | cons w ws ih =>
    rw [writeAll_cons, ih fun w' hw' => h w' (mem_cons_of_mem _ hw'), getElem?_write,
      if_neg (h w mem_cons_self)]

/-- A key present after a batch was put by the batch or was present before it. -/
theorem mem_or_mem_of_getElem?_writeAll {k : κ} {v : α} {s : KeyStore κ α}
    (h : (s.writeAll ws)[k]? = some v) :
    (∃ w ∈ ws, w.key = k ∧ w.value = some v) ∨ s[k]? = some v := by
  induction ws generalizing s with
  | nil => exact .inr h
  | cons w ws ih =>
    rcases ih h with ⟨w', hw', hk⟩ | h'
    · exact .inl ⟨w', mem_cons_of_mem _ hw', hk⟩
    · rw [getElem?_write] at h'
      split_ifs at h' with hkey
      · exact .inl ⟨w, mem_cons_self, hkey, h'⟩
      · exact .inr h'

/-- A write is what a batch leaves of its key, if no other write of the batch names the key. -/
theorem getElem?_writeAll_of_mem (hws : ws.Pairwise fun w w' => w.key ≠ w'.key) {w : Write κ α}
    (hw : w ∈ ws) (s : KeyStore κ α) : (s.writeAll ws)[w.key]? = w.value := by
  induction ws generalizing s with
  | nil => simp at hw
  | cons w' ws ih =>
    obtain ⟨hhead, htail⟩ := List.pairwise_cons.mp hws
    rw [writeAll_cons]
    rcases List.mem_cons.mp hw with rfl | hw
    · rw [getElem?_writeAll_of_notMem fun w' hw' => (hhead w' hw').symm, getElem?_write, if_pos rfl]
    · exact ih htail hw _

theorem getElem?_writeAll_map_toList (s t : KeyStore κ α) (g : α → Option α) (k : κ) :
    (t.writeAll (s.toList.map fun p => ⟨p.1, g p.2⟩))[k]? =
      match s[k]? with
      | some v => g v
      | none => t[k]? := by
  cases hk : s[k]? with
  | some v =>
    have hmem : (⟨k, g v⟩ : Write κ α) ∈ s.toList.map fun p => ⟨p.1, g p.2⟩ :=
      List.mem_map.mpr ⟨(k, v), Std.ExtTreeMap.mem_toList_iff_getElem?_eq_some.mpr hk, rfl⟩
    refine getElem?_writeAll_of_mem (List.pairwise_map.mpr ?_) hmem t
    exact s.distinct_keys_toList.imp fun h heq => h (Std.LawfulEqOrd.compare_eq_iff_eq.mpr heq)
  | none =>
    refine getElem?_writeAll_of_notMem (fun w hw hkey => ?_) t
    obtain ⟨p, hp, rfl⟩ := List.mem_map.mp hw
    obtain rfl : p.1 = k := hkey
    simp [Std.ExtTreeMap.mem_toList_iff_getElem?_eq_some.mp hp] at hk

theorem writeAll_clear (s : KeyStore κ α) :
    s.writeAll (s.toList.map fun p => ⟨p.1, none⟩) = ∅ := by
  refine Std.ExtTreeMap.ext_getElem? fun k => ?_
  rw [s.getElem?_writeAll_map_toList s fun _ => none, Std.ExtTreeMap.getElem?_empty]
  cases s[k]? <;> rfl

/-- The entries of a store, put into an empty store, are the store. -/
theorem writeAll_toList (s : KeyStore κ α) :
    (∅ : KeyStore κ α).writeAll (s.toList.map fun p => ⟨p.1, some p.2⟩) = s := by
  refine Std.ExtTreeMap.ext_getElem? fun k => ?_
  rw [s.getElem?_writeAll_map_toList ∅ some, Std.ExtTreeMap.getElem?_empty]
  cases s[k]? <;> rfl

end Lookup

/-! ### Scans -/

/-- The entries from a key on, in the order of the keys. -/
def iterFrom (s : KeyStore κ α) (start : κ) : List (κ × α) :=
  s.toList.filter fun p => (compare start p.1).isLE

/-- The entry with the greatest key. -/
def lastEntry (s : KeyStore κ α) : Option (κ × α) := s.toList.getLast?

theorem lastEntry_eq_some [Std.LawfulEqOrd κ] {s : KeyStore κ α} {k : κ} {v : α}
    (h : s.lastEntry = some (k, v)) :
    s[k]? = some v ∧ ∀ k' v', s[k']? = some v' → (compare k' k).isLE := by
  obtain ⟨l, hl⟩ := List.getLast?_eq_some_iff.mp h
  refine ⟨Std.ExtTreeMap.mem_toList_iff_getElem?_eq_some.mp (by rw [hl]; simp), ?_⟩
  intro k' v' hk'
  have hmem := Std.ExtTreeMap.mem_toList_iff_getElem?_eq_some.mpr hk'
  rw [hl] at hmem
  rcases List.mem_append.mp hmem with hmem | hmem
  · have hordered := s.ordered_keys_toList
    rw [hl] at hordered
    have hlt := (List.pairwise_append.mp hordered).2.2 _ hmem (k, v) (mem_singleton_self _)
    rw [hlt]
    rfl
  · obtain ⟨rfl, -⟩ := Prod.mk.inj (List.mem_singleton.mp hmem)
    rw [Std.ReflOrd.compare_self]
    rfl

theorem lastEntry_eq_none [Std.LawfulEqOrd κ] {s : KeyStore κ α} (h : s.lastEntry = none) (k : κ) :
    s[k]? = none := by
  have hnil := List.getLast?_eq_none_iff.mp h
  rw [Std.ExtTreeMap.toList_eq_nil_iff.mp hnil, Std.ExtTreeMap.getElem?_empty]

/-- A store with all entries of another one and no more entries is the other one. -/
theorem eq_of_subset_of_length [Std.LawfulEqOrd κ] {s t : KeyStore κ α}
    (hsub : ∀ (k : κ) (v : α), s[k]? = some v → t[k]? = some v)
    (hlen : t.toList.length ≤ s.toList.length) : s = t := by
  have hnodup : s.toList.Nodup := s.distinct_keys_toList.imp fun h heq =>
    h (Std.LawfulEqOrd.compare_eq_iff_eq.mpr (congrArg Prod.fst heq))
  have hmem : s.toList ⊆ t.toList := fun p hp => Std.ExtTreeMap.mem_toList_iff_getElem?_eq_some.mpr
    (hsub p.1 p.2 (Std.ExtTreeMap.mem_toList_iff_getElem?_eq_some.mp hp))
  exact Std.ExtTreeMap.ext_toList ((subperm_of_subset hnodup hmem).perm_of_length_le hlen)

/-! ### Values -/

/-- The values of a store, in the order of the keys. -/
def vals (s : KeyStore κ α) : List α := s.toList.map Prod.snd

theorem mem_vals [Std.LawfulEqOrd κ] {s : KeyStore κ α} {v : α} :
    v ∈ s.vals ↔ ∃ k : κ, s[k]? = some v := by
  simp [vals, Std.ExtTreeMap.mem_toList_iff_getElem?_eq_some]

theorem nodup_map_vals [Std.LawfulEqOrd κ] {s : KeyStore κ α} {f : α → κ}
    (h : ∀ (k : κ) (v : α), s[k]? = some v → f v = k) : (s.vals.map f).Nodup := by
  have hkeys : s.vals.map f = s.toList.map Prod.fst := by
    rw [vals, map_map]
    refine map_congr_left fun p hp => ?_
    exact h p.1 p.2 (Std.ExtTreeMap.mem_toList_iff_getElem?_eq_some.mp hp)
  rw [hkeys]
  exact List.pairwise_map.mpr <| s.distinct_keys_toList.imp fun h heq =>
    h (Std.LawfulEqOrd.compare_eq_iff_eq.mpr heq)

/-! ### Overlays -/

/-- The pending writes of a batch, the last one for each key. -/
abbrev Overlay (κ α : Type) [Ord κ] := KeyStore κ (Option α)

namespace Overlay

/-- Read a key through the overlay: a pending write wins over the store. -/
def read (o : Overlay κ α) (s : KeyStore κ α) (k : κ) : Option α :=
  match o[k]? with
  | some pending => pending
  | none => s[k]?

/-- Notes a write. -/
def record (o : Overlay κ α) (w : Write κ α) : Overlay κ α := o.insert w.key w.value

/-- The overlay holds exactly the last pending write of each key. -/
def Shadows (o : Overlay κ α) (ws : List (Write κ α)) : Prop :=
  ∀ (s : KeyStore κ α) (k : κ), o.read s k = (s.writeAll ws)[k]?

theorem shadows_empty : Shadows (∅ : Overlay κ α) [] := by
  intro s k
  simp [read]

variable [Std.LawfulEqOrd κ] [DecidableEq κ]

/-- Recording a write in the overlay keeps it in agreement with the batch. -/
theorem Shadows.record {o : Overlay κ α} {ws : List (Write κ α)} (h : o.Shadows ws)
    (w : Write κ α) : (o.record w).Shadows (ws ++ [w]) := by
  intro s k
  have hk := h s k
  simp only [writeAll_append, writeAll_cons, writeAll_nil, getElem?_write, Overlay.read,
    Overlay.record, getElem?_put] at hk ⊢
  split_ifs with hkey
  · rfl
  · exact hk

end Overlay

/-! ### Families of values under names -/

section Names

variable {ι : Type} [DecidableEq ι]

/-- The write at the key of a name. -/
def Write.rename (name : ι → κ) (w : Write ι α) : Write κ α := ⟨name w.key, w.value⟩

/-- Perform a list of writes on a family of optional values. -/
def assignAll (f : ι → Option α) (ws : List (Write ι α)) : ι → Option α :=
  ws.foldl (fun f w => Function.update f w.key w.value) f

@[simp] theorem assignAll_nil (f : ι → Option α) : assignAll f [] = f := rfl

@[simp] theorem assignAll_cons (f : ι → Option α) (w : Write ι α) (ws : List (Write ι α)) :
    assignAll f (w :: ws) = assignAll (Function.update f w.key w.value) ws := rfl

variable {ws : List (Write ι α)}

/-- Deletes remove exactly the indices they name. -/
theorem assignAll_of_forall_del (h : ∀ w ∈ ws, w.value = none) (f : ι → Option α) (i : ι) :
    assignAll f ws i = if ∃ w ∈ ws, w.key = i then none else f i := by
  induction ws generalizing f with
  | nil => simp
  | cons w ws ih =>
    have hw : w.value = none := h w mem_cons_self
    rw [assignAll_cons, ih fun w' hw' => h w' (mem_cons_of_mem _ hw'), hw]
    by_cases hkey : w.key = i
    · simp [hkey, eq_comm]
    · simp [hkey, Function.update_of_ne (Ne.symm hkey)]

/-- The store holds the family `f` under its names, on the indices in `P`. -/
def Shows (name : ι → κ) (P : ι → Prop) (s : KeyStore κ α) (f : ι → Option α) : Prop :=
  ∀ i, P i → s[name i]? = f i

/-- Every key of the store is the name of an index in `P`. -/
def Covers (name : ι → κ) (P : ι → Prop) (s : KeyStore κ α) : Prop :=
  ∀ (k : κ) (v : α), s[k]? = some v → ∃ i, P i ∧ name i = k

variable [Std.LawfulEqOrd κ] [DecidableEq κ] {name : ι → κ} {P : ι → Prop}

/-- Writes of a family are writes under its names, if no index in `P` shares its name. -/
theorem Shows.writeAll {s : KeyStore κ α} {f : ι → Option α}
    (hws : ∀ w ∈ ws, ∀ i, P i → name w.key = name i → w.key = i) (h : Shows name P s f) :
    Shows name P (s.writeAll (ws.map (Write.rename name))) (assignAll f ws) := by
  induction ws generalizing s f with
  | nil => simpa using h
  | cons w ws ih =>
    refine ih (fun w' hw' => hws w' (mem_cons_of_mem _ hw')) fun i hi => ?_
    by_cases hkey : w.key = i
    · subst hkey
      simp [Write.rename]
    · have hname : name w.key ≠ name i := fun hn => hkey (hws w mem_cons_self i hi hn)
      simp [Write.rename, hname, Function.update_of_ne (Ne.symm hkey), h i hi]

omit [DecidableEq ι] in
theorem Covers.writeAll {s : KeyStore κ α} {ws : List (Write ι α)} (hws : ∀ w ∈ ws, P w.key)
    (h : Covers name P s) : Covers name P (s.writeAll (ws.map (Write.rename name))) := by
  intro k v hk
  rcases mem_or_mem_of_getElem?_writeAll hk with ⟨w, hw, rfl, -⟩ | hk
  · obtain ⟨w', hw', rfl⟩ := List.mem_map.mp hw
    exact ⟨w'.key, hws w' hw', rfl⟩
  · exact h k v hk

end Names

end KeyStore

end RustExample
