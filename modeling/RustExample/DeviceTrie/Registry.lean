import Mathlib.Data.List.Nodup

/-!
# The trie registry of devices

A device is stored at the end of the chain of nodes that its path spells. A look-up follows a path
as far as there are nodes, and answers with what the last of them has.

Source: `trie_example/src/lib.rs`.

* A hash map from characters to nodes is the list of its entries, in some order. A walk may list
  every map in another order, and is the list of the devices in the order in which they are visited.
* Ids and the length are natural numbers.
-/

namespace RustExample.DeviceTrie

open List

/-- A device. -/
structure IoTDevice where
  numericalId : ℕ
  path : String
  address : String
  deriving DecidableEq

/-- A node of the trie. -/
structure Node where
  key : Char
  next : List (Char × Node)
  value : Option IoTDevice

/-- The children of a node. -/
abbrev Links := List (Char × Node)

/-- A node without children. -/
def Node.new (key : Char) (device : Option IoTDevice) : Node := ⟨key, [], device⟩

/-- The entry of a character, made if it is not there, is changed. -/
def modifyEntry (c : Char) (change : Node → Node) : Links → Links
  | [] => [(c, change (Node.new c none))]
  | (d, n) :: links =>
    if d = c then (d, change n) :: links else (d, n) :: modifyEntry c change links

namespace Node

/-- Store a device at the end of a path from a node. -/
def descend (device : IoTDevice) : List Char → Node → Node
  | [], n => { n with value := some device }
  | c :: path, n => { n with next := modifyEntry c (descend device path) n.next }

/-- Follow a path from a node, up to where there is no child. -/
def follow : List Char → Node → Option IoTDevice
  | [], n => n.value
  | c :: path, n =>
    match n.next.lookup c with
    | some tmp => follow path tmp
    | none => n.value

end Node

/-- The trie. -/
structure BestDeviceRegistry where
  length : ℕ
  root : Links

/-- The devices that are visited below some links: those below a child, then that of the child. -/
inductive Walks : Links → List IoTDevice → Prop
  | nil : Walks [] []
  | cons {c : Char} {n : Node} {links : Links} {below rest : List IoTDevice}
      (hbelow : Walks n.next below) (hrest : Walks links rest) :
      Walks ((c, n) :: links) (below ++ n.value.toList ++ rest)
  | reorder {links links' : Links} {visited : List IoTDevice} (hperm : links.Perm links')
      (h : Walks links' visited) : Walks links visited

namespace BestDeviceRegistry

/-- A trie without devices. -/
def newEmpty : BestDeviceRegistry := ⟨0, []⟩

/-- Adds a device at its path. -/
def add (r : BestDeviceRegistry) (device : IoTDevice) : BestDeviceRegistry :=
  match device.path.toList with
  | [] => r
  | start :: path => ⟨r.length + 1, modifyEntry start (Node.descend device path) r.root⟩

/-- Looks for a path. -/
def find (r : BestDeviceRegistry) (path : String) : Option IoTDevice :=
  match path.toList with
  | [] => none
  | start :: path => (r.root.lookup start).bind (Node.follow path)

/-- An order in which devices are visited. -/
def Walk (r : BestDeviceRegistry) (visited : List IoTDevice) : Prop := Walks r.root visited

/-- A registry to which devices were added one after the other. -/
def addAll (devices : List IoTDevice) : BestDeviceRegistry := devices.foldl add newEmpty

end BestDeviceRegistry

/-! ### What is stored -/

namespace Node

/-- What is stored exactly at a path below a node. -/
def valueAt : List Char → Node → Option IoTDevice
  | [], n => n.value
  | c :: path, n => (n.next.lookup c).bind (valueAt path)

/-- There are nodes along the path. -/
def Reaches : List Char → Node → Prop
  | [], _ => True
  | c :: path, n => ∃ m, n.next.lookup c = some m ∧ m.Reaches path

end Node

theorem lookup_cons_ite (c d : Char) (n : Node) (links : Links) :
    List.lookup d ((c, n) :: links) = if d = c then some n else links.lookup d := by
  rw [lookup_cons]
  split_ifs with hd
  · simp [hd]
  · rw [beq_eq_false_iff_ne.mpr hd]

theorem lookup_modifyEntry (c d : Char) (change : Node → Node) (links : Links) :
    (modifyEntry c change links).lookup d =
      if d = c then some (change ((links.lookup c).getD (Node.new c none)))
      else links.lookup d := by
  induction links with
  | nil => exact lookup_cons_ite c d _ []
  | cons e links ih =>
    obtain ⟨b, n⟩ := e
    rw [modifyEntry, lookup_cons_ite, lookup_cons_ite]
    by_cases hb : b = c
    · subst hb
      rw [if_pos rfl, if_pos rfl, lookup_cons_ite, Option.getD_some]
      split_ifs <;> rfl
    · rw [if_neg hb, if_neg (Ne.symm hb), lookup_cons_ite, ih]
      split_ifs with hd hd'
      · exact absurd (hd.symm.trans hd') hb
      · rfl
      · rfl
      · rfl

namespace Node

variable {device : IoTDevice} {path q : List Char} {n : Node} {c : Char}

theorem valueAt_getD (q : List Char) (c : Char) (links : Links) :
    ((links.lookup c).getD (new c none)).valueAt q = (links.lookup c).bind (valueAt q) := by
  cases links.lookup c with
  | some m => rfl
  | none => obtain _ | ⟨d, q⟩ := q <;> rfl

/-- **What storing a device changes.** -/
theorem valueAt_descend (device : IoTDevice) (path q : List Char) (n : Node) :
    (n.descend device path).valueAt q = if q = path then some device else n.valueAt q := by
  induction path generalizing n q with
  | nil =>
    obtain _ | ⟨c, q⟩ := q
    · rfl
    · rfl
  | cons c path ih =>
    obtain _ | ⟨d, q⟩ := q
    · rfl
    · rw [descend, valueAt, lookup_modifyEntry]
      by_cases hd : d = c
      · subst hd
        simp [ih, valueAt, valueAt_getD]
      · simp [hd, valueAt]

theorem reaches_getD (q : List Char) (c : Char) (links : Links) :
    ((links.lookup c).getD (new c none)).Reaches q ↔
      q = [] ∨ ∃ m, links.lookup c = some m ∧ m.Reaches q := by
  obtain _ | ⟨d, q⟩ := q
  · exact iff_of_true trivial (.inl rfl)
  · cases links.lookup c with
    | some m => simp
    | none => simp [Reaches, new]

/-- The nodes along the path of a stored device are new. -/
theorem reaches_descend (device : IoTDevice) (path q : List Char) (n : Node) :
    (n.descend device path).Reaches q ↔ q <+: path ∨ n.Reaches q := by
  induction path generalizing n q with
  | nil =>
    obtain _ | ⟨c, q⟩ := q
    · exact iff_of_true trivial (.inr trivial)
    · simp [descend, Reaches]
  | cons c path ih =>
    obtain _ | ⟨d, q⟩ := q
    · exact iff_of_true trivial (.inr trivial)
    · rw [descend, Reaches, Reaches, cons_prefix_cons, lookup_modifyEntry]
      by_cases hd : d = c
      · subst hd
        simp only [if_true, Option.some.injEq, exists_eq_left', ih, reaches_getD, true_and]
        constructor
        · rintro (hpre | rfl | hreach)
          · exact .inl hpre
          · exact .inl nil_prefix
          · exact .inr hreach
        · rintro (hpre | hreach)
          · exact .inl hpre
          · exact .inr (.inr hreach)
      · simp [hd]

/-- **A look-up answers from the longest part of the path along which there are nodes.** -/
theorem exists_follow (path : List Char) (n : Node) :
    ∃ q rest, path = q ++ rest ∧ n.Reaches q ∧ n.follow path = n.valueAt q ∧
      ∀ c rest', rest = c :: rest' → ¬n.Reaches (q ++ [c]) := by
  induction path generalizing n with
  | nil => exact ⟨[], [], rfl, trivial, rfl, by simp⟩
  | cons c path ih =>
    cases hm : n.next.lookup c with
    | none =>
      refine ⟨[], c :: path, rfl, trivial, by rw [follow, hm]; rfl, ?_⟩
      rintro d rest' heq ⟨m, hd, -⟩
      obtain ⟨rfl, -⟩ := List.cons.inj heq
      rw [hm] at hd
      cases hd
    | some m =>
      obtain ⟨q, rest, rfl, hreach, hfollow, hlast⟩ := ih m
      refine ⟨c :: q, rest, rfl, ⟨m, hm, hreach⟩, ?_, fun d rest' heq hreach' => ?_⟩
      · rw [follow, hm, valueAt, hm, Option.bind_some]
        exact hfollow
      · obtain ⟨m', hm', hreach'⟩ := hreach'
        obtain ⟨⟩ := hm.symm.trans hm'
        exact hlast d rest' heq hreach'

end Node

/-! ### Walks -/

/-- No map has two entries for a character. -/
inductive Distinct : Links → Prop
  | mk {links : Links} (hkeys : (links.map Prod.fst).Nodup)
      (hnext : ∀ e ∈ links, Distinct e.2.next) : Distinct links

/-- What is stored exactly at a path below some links. -/
def valueIn (links : Links) (path : List Char) : Option IoTDevice :=
  Node.valueAt path ⟨default, links, none⟩

variable {links links' : Links}

theorem Distinct.keys (h : Distinct links) : (links.map Prod.fst).Nodup := by
  obtain ⟨hkeys, -⟩ := h
  exact hkeys

theorem Distinct.next (h : Distinct links) {e : Char × Node} (he : e ∈ links) :
    Distinct e.2.next := by
  obtain ⟨-, hnext⟩ := h
  exact hnext e he

theorem Distinct.of_perm (h : Distinct links) (hperm : links.Perm links') : Distinct links' :=
  ⟨(hperm.map Prod.fst).nodup_iff.mp h.keys, fun _ he => h.next (hperm.mem_iff.mpr he)⟩

theorem lookup_eq_some_iff (h : (links.map Prod.fst).Nodup) {c : Char} {n : Node} :
    links.lookup c = some n ↔ (c, n) ∈ links := by
  induction links with
  | nil => simp
  | cons e links ih =>
    obtain ⟨d, m⟩ := e
    rw [map_cons, nodup_cons] at h
    rw [lookup_cons_ite, mem_cons, Prod.mk.injEq]
    split_ifs with hd
    · subst hd
      have hkey : c ∉ links.map Prod.fst := h.1
      have hnot : (c, n) ∉ links := fun hmem => hkey (mem_map_of_mem (f := Prod.fst) hmem)
      simp [hnot, eq_comm]
    · simp [hd, ih h.2]

theorem valueIn_of_perm (h : Distinct links) (hperm : links.Perm links') :
    valueIn links' = valueIn links := by
  funext path
  obtain _ | ⟨c, path⟩ := path
  · rfl
  · have hlookup : links'.lookup c = links.lookup c := by
      ext n
      rw [lookup_eq_some_iff h.keys, lookup_eq_some_iff (h.of_perm hperm).keys, hperm.mem_iff]
    rw [valueIn, valueIn, Node.valueAt, Node.valueAt, hlookup]

theorem valueIn_cons {c d : Char} {n : Node} {path : List Char} :
    valueIn ((c, n) :: links) (d :: path) =
      if d = c then n.valueAt path else valueIn links (d :: path) := by
  rw [valueIn, Node.valueAt, lookup_cons_ite]
  split_ifs with hd
  · rfl
  · rfl

/-- **A walk visits what is stored, once for each path**; the paths below begin with `pre`. -/
theorem Walks.spec {visited : List IoTDevice} (h : Walks links visited) (hdistinct : Distinct links)
    (pre : List Char) (hpaths : ∀ q d, valueIn links q = some d → d.path.toList = pre ++ q) :
    visited.Nodup ∧ ∀ d, d ∈ visited ↔ ∃ q, valueIn links q = some d := by
  induction h generalizing pre with
  | nil =>
    refine ⟨nodup_nil, fun d => ?_⟩
    simp only [not_mem_nil, false_iff, not_exists]
    rintro (_ | ⟨c, q⟩) hq <;> cases hq
  | reorder hperm h ih =>
    have heq := valueIn_of_perm hdistinct hperm
    obtain ⟨hnodup, hmem⟩ := ih (hdistinct.of_perm hperm) pre (heq ▸ hpaths)
    exact ⟨hnodup, heq ▸ hmem⟩
  | @cons c n links below rest hbelow hrest ihb ihr =>
    obtain ⟨hnot, hkeys⟩ := List.nodup_cons.mp hdistinct.keys
    have hdn : Distinct n.next := hdistinct.next mem_cons_self
    have hdr : Distinct links := ⟨hkeys, fun e he => hdistinct.next (mem_cons_of_mem _ he)⟩
    have hrest_ne : ∀ {q d}, valueIn links q = some d → ∃ b q', q = b :: q' ∧ b ≠ c := by
      rintro (_ | ⟨b, q⟩) d hq
      · cases hq
      · refine ⟨b, q, rfl, ?_⟩
        rintro rfl
        obtain ⟨m, hm, -⟩ := Option.bind_eq_some_iff.mp hq
        have hkey : b ∉ links.map Prod.fst := hnot
        exact hkey (mem_map_of_mem (f := Prod.fst) ((lookup_eq_some_iff hkeys).mp hm))
    have hnext : ∀ {q d}, valueIn n.next q = some d → q ≠ [] ∧ n.valueAt q = some d := by
      rintro (_ | ⟨b, q⟩) d hq
      · cases hq
      · exact ⟨cons_ne_nil b q, hq⟩
    have hhere : ∀ {q d}, n.valueAt q = some d → valueIn ((c, n) :: links) (c :: q) = some d :=
      fun hq => by rw [valueIn_cons, if_pos rfl, hq]
    have hthere : ∀ {q d}, valueIn links q = some d → valueIn ((c, n) :: links) q = some d := by
      intro q d hq
      obtain ⟨b, q, rfl, hb⟩ := hrest_ne hq
      rw [valueIn_cons, if_neg hb, hq]
    obtain ⟨hnb, hmb⟩ := ihb hdn (pre ++ [c]) fun q d hq => by
      rw [hpaths _ d (hhere (hnext hq).2), append_assoc, singleton_append]
    obtain ⟨hnr, hmr⟩ := ihr hdr pre fun q d hq => hpaths q d (hthere hq)
    have hpathb : ∀ d ∈ below, ∃ q ≠ [], d.path.toList = pre ++ c :: q := fun d hd => by
      obtain ⟨q, hq⟩ := (hmb d).mp hd
      exact ⟨q, (hnext hq).1, hpaths _ d (hhere (hnext hq).2)⟩
    have hpathn : ∀ d ∈ n.value.toList, d.path.toList = pre ++ [c] := fun d hd =>
      hpaths _ d (hhere (q := []) (Option.mem_toList.mp hd))
    have hpathr : ∀ d ∈ rest, ∃ b q, d.path.toList = pre ++ b :: q ∧ b ≠ c := fun d hd => by
      obtain ⟨q, hq⟩ := (hmr d).mp hd
      obtain ⟨b, q, rfl, hb⟩ := hrest_ne hq
      exact ⟨b, q, hpaths _ d (hthere hq), hb⟩
    constructor
    · rw [nodup_append, nodup_append]
      refine ⟨⟨hnb, n.value.toList_nodup, ?_⟩, hnr, ?_⟩
      · rintro d hd _ hv rfl
        obtain ⟨q, hq, hpath⟩ := hpathb d hd
        rw [hpathn d hv, append_cancel_left_eq] at hpath
        exact hq (List.cons.inj hpath).2.symm
      · rintro d hd _ hr rfl
        obtain ⟨b, q, hpath, hb⟩ := hpathr d hr
        rcases List.mem_append.mp hd with hd | hd
        · obtain ⟨q', -, hpath'⟩ := hpathb d hd
          rw [hpath', append_cancel_left_eq] at hpath
          exact hb (List.cons.inj hpath).1.symm
        · rw [hpathn d hd, append_cancel_left_eq] at hpath
          exact hb (List.cons.inj hpath).1.symm
    · intro d
      rw [mem_append, mem_append, hmb, hmr, Option.mem_toList]
      constructor
      · rintro ((⟨q, hq⟩ | hv) | ⟨q, hq⟩)
        · exact ⟨c :: q, hhere (hnext hq).2⟩
        · exact ⟨[c], hhere (q := []) hv⟩
        · exact ⟨q, hthere hq⟩
      · rintro ⟨_ | ⟨b, q⟩, hq⟩
        · cases hq
        · rw [valueIn_cons] at hq
          split_ifs at hq
          · obtain _ | ⟨b', q⟩ := q
            · exact .inl (.inr hq)
            · exact .inl (.inl ⟨b' :: q, hq⟩)
          · exact .inr ⟨b :: q, hq⟩

theorem exists_walks (links : Links) : ∃ visited, Walks links visited := by
  match links with
  | [] => exact ⟨[], .nil⟩
  | (c, ⟨key, next, value⟩) :: links =>
    obtain ⟨below, hbelow⟩ := exists_walks next
    obtain ⟨rest, hrest⟩ := exists_walks links
    exact ⟨_, .cons hbelow hrest⟩

/-! ### Additions keep the maps -/

theorem mem_keys_modifyEntry (c d : Char) (change : Node → Node) (links : Links) :
    d ∈ (modifyEntry c change links).map Prod.fst ↔ d = c ∨ d ∈ links.map Prod.fst := by
  induction links with
  | nil => simp [modifyEntry]
  | cons e links ih =>
    obtain ⟨b, n⟩ := e
    rw [modifyEntry]
    split_ifs with hb
    · simp [hb]
    · rw [map_cons, mem_cons, ih, map_cons, mem_cons, or_left_comm]

theorem Distinct.modifyEntry (h : Distinct links) {c : Char} {change : Node → Node}
    (hchange : ∀ n : Node, Distinct n.next → Distinct (change n).next) :
    Distinct (modifyEntry c change links) := by
  induction links with
  | nil =>
    refine ⟨nodup_singleton c, fun e he => ?_⟩
    obtain rfl := List.mem_singleton.mp he
    exact hchange _ ⟨nodup_nil, by simp [Node.new]⟩
  | cons e links ih =>
    obtain ⟨b, n⟩ := e
    obtain ⟨hnot, hkeys⟩ := List.nodup_cons.mp h.keys
    have hn : Distinct n.next := h.next mem_cons_self
    have hlinks : Distinct links := ⟨hkeys, fun e he => h.next (mem_cons_of_mem _ he)⟩
    rw [DeviceTrie.modifyEntry]
    split_ifs with hb
    · refine ⟨h.keys, fun e he => ?_⟩
      rcases List.mem_cons.mp he with rfl | he
      · exact hchange n hn
      · exact hlinks.next he
    · refine ⟨List.nodup_cons.mpr ⟨?_, (ih hlinks).keys⟩, fun e he => ?_⟩
      · rw [mem_keys_modifyEntry]
        exact not_or.mpr ⟨hb, hnot⟩
      · rcases List.mem_cons.mp he with rfl | he
        · exact hn
        · exact (ih hlinks).next he

theorem Distinct.descend {n : Node} (h : Distinct n.next) (device : IoTDevice)
    (path : List Char) : Distinct (n.descend device path).next := by
  induction path generalizing n with
  | nil => exact h
  | cons c path ih => exact h.modifyEntry fun n hn => ih hn

end RustExample.DeviceTrie
