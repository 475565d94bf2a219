import Mathlib.Data.Finset.Max
import RustExample.DeviceTrie.Registry

/-!
# What a trie registry tells

A look-up that runs out of nodes answers with the device of a shorter path, if there is one, and
the length counts every addition of a path. A walk visits the device that was added last under each
path, and no other.
-/

namespace RustExample.DeviceTrie

open List

variable {devices : List IoTDevice} {device d : IoTDevice} {p : String} {q : List Char}

/-- The device that was added last under a path; nothing is stored under the empty path. -/
def stored (devices : List IoTDevice) (path : String) : Option IoTDevice :=
  if path = "" then none else devices.reverse.find? (·.path = path)

/-- The paths under which devices are stored, as often as devices were added under them. -/
def addedPaths (devices : List IoTDevice) : List String :=
  (devices.map IoTDevice.path).filter (· ≠ "")

/-- A device is under a shorter path, and none under one that goes on with the next character. -/
def FallsShort (devices : List IoTDevice) (path : String) : Prop :=
  ∃ d ∈ devices, ∃ c rest, d.path ≠ "" ∧ path.toList = d.path.toList ++ c :: rest ∧
    ∀ e ∈ devices, ¬d.path.toList ++ [c] <+: e.path.toList

/-- The registry is the finite map from the paths to the devices stored under them. -/
structure IsMap (r : BestDeviceRegistry) (devices : List IoTDevice) : Prop where
  find : ∀ path, r.find path = stored devices path
  walk : ∀ visited, r.Walk visited →
    visited.Nodup ∧ ∀ d, d ∈ visited ↔ stored devices d.path = some d
  length : r.length = (addedPaths devices).dedup.length

/-! ### The devices of a registry -/

theorem stored_append (devices : List IoTDevice) (device : IoTDevice) (path : String) :
    stored (devices ++ [device]) path =
      if path ≠ "" ∧ path = device.path then some device else stored devices path := by
  rw [stored, stored, reverse_concat, find?_cons]
  by_cases hpath : path = ""
  · simp [hpath]
  · by_cases hd : device.path = path
    · simp [hpath, hd]
    · simp [hpath, hd, Ne.symm hd]

theorem path_of_stored (h : stored devices p = some d) : p ≠ "" ∧ d ∈ devices ∧ d.path = p := by
  rw [stored] at h
  split_ifs at h with hp
  have hmem := mem_of_find?_eq_some h
  have hpath := find?_some h
  exact ⟨hp, List.mem_reverse.mp hmem, by simpa using hpath⟩

theorem exists_stored (hd : d ∈ devices) (hp : d.path ≠ "") :
    ∃ e, stored devices d.path = some e := by
  rw [stored, if_neg hp]
  refine Option.isSome_iff_exists.mp (List.find?_isSome.mpr ⟨d, List.mem_reverse.mpr hd, ?_⟩)
  simp

/-- What holds of the nodes of a registry to which devices were added. -/
structure Holds (r : BestDeviceRegistry) (devices : List IoTDevice) : Prop where
  value : ∀ path : String, valueIn r.root path.toList = stored devices path
  reaches : ∀ q, Node.Reaches q ⟨default, r.root, none⟩ ↔
    q = [] ∨ ∃ d ∈ devices, q <+: d.path.toList
  distinct : Distinct r.root
  length : r.length = (addedPaths devices).length

theorem holds_newEmpty : Holds .newEmpty [] := by
  refine ⟨fun path => ?_, fun q => ?_, ⟨nodup_nil, by simp [BestDeviceRegistry.newEmpty]⟩, rfl⟩
  · rw [stored]
    obtain _ | ⟨c, q⟩ := path.toList <;> simp [valueIn, BestDeviceRegistry.newEmpty, Node.valueAt]
  · obtain _ | ⟨c, q⟩ := q <;> simp [Node.Reaches, BestDeviceRegistry.newEmpty]

theorem add_of_cons {r : BestDeviceRegistry} {start : Char} {path : List Char}
    (hpath : device.path.toList = start :: path) :
    r.add device = ⟨r.length + 1, modifyEntry start (Node.descend device path) r.root⟩ := by
  rw [BestDeviceRegistry.add, hpath]

/-- **One more device.** -/
theorem Holds.add {r : BestDeviceRegistry} (h : Holds r devices) (device : IoTDevice) :
    Holds (r.add device) (devices ++ [device]) := by
  by_cases hempty : device.path = ""
  · have hadd : r.add device = r := by
      rw [BestDeviceRegistry.add, hempty]
      rfl
    rw [hadd]
    refine ⟨fun path => ?_, fun q => ?_, h.distinct, ?_⟩
    · rw [stored_append, if_neg (fun hp => hp.1 (hp.2.trans hempty)), h.value]
    · rw [h.reaches]
      simp only [mem_append, mem_singleton, or_and_right, exists_or, exists_eq_left,
        hempty, String.toList_empty, prefix_nil]
      rw [or_left_comm, or_self]
      exact or_comm
    · simp [h.length, addedPaths, hempty]
  · obtain ⟨start, path, hpath⟩ := exists_cons_of_ne_nil
      fun hnil => hempty (String.toList_eq_nil_iff.mp hnil)
    -- the links of the root are changed as those of a node
    have hnode : (⟨default, modifyEntry start (Node.descend device path) r.root, none⟩ : Node) =
        Node.descend device device.path.toList ⟨default, r.root, none⟩ := by
      rw [hpath, Node.descend]
    rw [add_of_cons hpath]
    refine ⟨fun p => ?_, fun q => ?_, ?_, ?_⟩
    · rw [valueIn, hnode, Node.valueAt_descend, stored_append]
      by_cases hp : p = device.path
      · simp [hp, hempty]
      · have hl : p.toList ≠ device.path.toList := fun hl => hp (String.toList_inj.mp hl)
        simp only [hl, hp, and_false, if_false]
        exact h.value p
    · rw [hnode, Node.reaches_descend, h.reaches]
      simp only [mem_append, mem_singleton, or_and_right, exists_or, exists_eq_left]
      exact or_comm.trans or_assoc
    · exact h.distinct.modifyEntry fun n hn => hn.descend device path
    · simp [h.length, addedPaths, hempty]

theorem holds_addAll (devices : List IoTDevice) : Holds (.addAll devices) devices := by
  induction devices using List.reverseRecOn with
  | nil => exact holds_newEmpty
  | append_singleton devices device ih =>
    rw [BestDeviceRegistry.addAll, foldl_append]
    exact ih.add device

/-! ### Look-ups -/

theorem find_eq_follow (r : BestDeviceRegistry) (path : String) :
    r.find path = Node.follow path.toList ⟨default, r.root, none⟩ := by
  rw [BestDeviceRegistry.find]
  obtain _ | ⟨start, rest⟩ := path.toList
  · rfl
  · change (r.root.lookup start).bind (Node.follow rest) = _
    rw [Node.follow]
    cases r.root.lookup start <;> rfl

/-- **The look-ups that are right.** -/
theorem Holds.find_iff {r : BestDeviceRegistry} (h : Holds r devices) (path : String) :
    r.find path = stored devices path ↔ ¬FallsShort devices path := by
  obtain ⟨q, rest, hpath, hreach, hfollow, hlast⟩ :=
    Node.exists_follow path.toList ⟨default, r.root, none⟩
  rw [find_eq_follow, hfollow]
  have hvalue : Node.valueAt q ⟨default, r.root, none⟩ = stored devices (String.ofList q) := by
    rw [← h.value, String.toList_ofList]
    rfl
  have hadded : q = [] ∨ ∃ e ∈ devices, q <+: e.path.toList := (h.reaches q).mp hreach
  obtain _ | ⟨c, rest⟩ := rest
  · rw [append_nil] at hpath
    rw [hvalue, ← hpath, String.ofList_toList]
    refine iff_of_true rfl ?_
    rintro ⟨d, -, c, rest, -, hd, hnone⟩
    have hpre : d.path.toList ++ [c] <+: q := ⟨rest, by rw [← hpath, hd]; simp⟩
    obtain rfl | ⟨e, he, hqe⟩ := hadded
    · simp at hpre
    · exact hnone e he (hpre.trans hqe)
  · have hnone : ∀ e ∈ devices, ¬q ++ [c] <+: e.path.toList := fun e he hpre =>
      hlast c rest rfl ((h.reaches _).mpr (.inr ⟨e, he, hpre⟩))
    have hnot : stored devices path = none := by
      cases hs : stored devices path with
      | none => rfl
      | some e =>
        obtain ⟨-, he, rfl⟩ := path_of_stored hs
        exact absurd ⟨rest, by rw [hpath]; simp⟩ (hnone e he)
    rw [hvalue, hnot, iff_not_comm, ← ne_eq, Option.ne_none_iff_exists']
    constructor
    · rintro ⟨d, hd, c', rest', hne, hd', hnone'⟩
      have hq : d.path.toList = q := by
        have hpre : q <+: path.toList := ⟨_, hpath.symm⟩
        rcases prefix_or_prefix_of_prefix hpre ⟨_, hd'.symm⟩ with ⟨t, ht⟩ | ⟨t, ht⟩
        · obtain _ | ⟨b, t⟩ := t
          · rw [← ht, append_nil]
          · rw [← ht, hpath, append_assoc, append_cancel_left_eq] at hd'
            obtain ⟨rfl, -⟩ := List.cons.inj hd'
            exact absurd ⟨t, by rw [← ht]; simp⟩ (hnone d hd)
        · obtain _ | ⟨b, t⟩ := t
          · rw [← ht, append_nil]
          · rw [hpath, ← ht, append_assoc, append_cancel_left_eq] at hd'
            obtain ⟨rfl, -⟩ := List.cons.inj hd'
            obtain rfl | ⟨e, he, hqe⟩ := hadded
            · simp at ht
            · exact absurd (List.IsPrefix.trans ⟨t, by rw [← ht]; simp⟩ hqe) (hnone' e he)
      rw [← hq, String.ofList_toList]
      exact exists_stored hd hne
    · rintro ⟨d, hd⟩
      obtain ⟨hne, hmem, hpath'⟩ := path_of_stored hd
      have hq : d.path.toList = q := by rw [hpath', String.toList_ofList]
      exact ⟨d, hmem, c, rest, hpath' ▸ hne, by rw [hq, hpath], by rwa [hq]⟩

/-! ### All answers -/

theorem Holds.walk {r : BestDeviceRegistry} (h : Holds r devices) {visited : List IoTDevice}
    (hwalk : r.Walk visited) :
    visited.Nodup ∧ ∀ d, d ∈ visited ↔ stored devices d.path = some d := by
  have hvalue : ∀ q, valueIn r.root q = stored devices (String.ofList q) := fun q => by
    rw [← h.value, String.toList_ofList]
  obtain ⟨hnodup, hmem⟩ := Walks.spec hwalk h.distinct [] fun q d hq => by
    rw [hvalue] at hq
    rw [(path_of_stored hq).2.2, String.toList_ofList, nil_append]
  refine ⟨hnodup, fun d => (hmem d).trans ⟨?_, fun hd => ⟨d.path.toList, by rw [h.value, hd]⟩⟩⟩
  rintro ⟨q, hq⟩
  rw [hvalue] at hq
  rwa [(path_of_stored hq).2.2]

/-- **The answers of a registry.** A look-up is right exactly for the paths for which it does not
fall short, the length exactly if no path was added twice, and every walk. -/
theorem registry_exact (devices : List IoTDevice) :
    (∀ path, (BestDeviceRegistry.addAll devices).find path = stored devices path ↔
      ¬FallsShort devices path) ∧
    (∃ visited, (BestDeviceRegistry.addAll devices).Walk visited) ∧
    (∀ visited, (BestDeviceRegistry.addAll devices).Walk visited →
      visited.Nodup ∧ ∀ d, d ∈ visited ↔ stored devices d.path = some d) ∧
    ((BestDeviceRegistry.addAll devices).length = (addedPaths devices).dedup.length ↔
      (addedPaths devices).Nodup) := by
  have h := holds_addAll devices
  refine ⟨h.find_iff, exists_walks _, fun visited => h.walk, ?_⟩
  rw [h.length, eq_comm, (dedup_sublist _).length_eq, dedup_eq_self]

def lamp : IoTDevice := ⟨1, "ab", "A"⟩

/-- A longer path finds the device, and adding it again counts twice. -/
theorem extension_found :
    stored [lamp] "abc" = none ∧ (BestDeviceRegistry.addAll [lamp]).find "abc" = some lamp ∧
      (BestDeviceRegistry.addAll [lamp, lamp]).length = 2 ∧
      (addedPaths [lamp, lamp]).dedup.length = 1 ∧
      ¬IsMap (.addAll [lamp]) [lamp] := by
  have hfind : (BestDeviceRegistry.addAll [lamp]).find "abc" = some lamp := by decide
  refine ⟨by decide, hfind, by decide, by decide, fun h => ?_⟩
  rw [h.find] at hfind
  revert hfind
  decide

end RustExample.DeviceTrie
