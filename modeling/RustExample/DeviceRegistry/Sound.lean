import Mathlib.Data.List.Nodup
import RustExample.DeviceRegistry.Insertion

/-!
# What a registry tells

A registry to which devices with distinct ids were added is a red-black tree with links in both
directions. Its own check accepts it; a lookup finds exactly the devices that were added, and a
walk visits each of them once, the largest id first.
-/

namespace RustExample.DeviceRegistry

open RedBlack BetterDeviceRegistry List

variable {h : Heap} {fs : List (Frame Entry)} {t : RedBlack.Tree Entry} {above : Option ℕ}
  {bound k n : ℕ} {r : BetterDeviceRegistry} {devices : List IoTDevice}

/-- A path along the links from a node to a leaf, with the number of its black nodes. -/
inductive Path (h : Heap) : Option ℕ → ℕ → Prop
  | leaf : Path h none 0
  | node {a : ℕ} {node : Node} {side : RBOperation} {k : ℕ} (hnode : h a = some node)
      (hpath : Path h (node.child side) k) :
      Path h (some a) (k + if node.color = .black then 1 else 0)

/-- A registry of the given devices. -/
structure Sound (r : BetterDeviceRegistry) (devices : List IoTDevice) : Prop where
  /-- No red node has a red parent. -/
  red : ∀ a node p above, r.nodes a = some node → node.parent = some p → r.nodes p = some above →
    node.color = .red → above.color = .black
  root_black : ∀ a, r.root = some a → ∃ node, r.nodes a = some node ∧ node.color = .black
  /-- All paths to a leaf have the same number of black nodes. -/
  paths : ∀ j k, Path r.nodes r.root j → Path r.nodes r.root k → j = k
  accepted : r.isAValidRedBlackTree = some true
  /-- The parent of a node has the node as a child. -/
  parent : ∀ a node p, r.nodes a = some node → node.parent = some p →
    ∃ above side, r.nodes p = some above ∧ above.child side = some a
  /-- The children of a node have the node as their parent. -/
  child : ∀ a node side c, r.nodes a = some node → node.child side = some c →
    ∃ below, r.nodes c = some below ∧ below.parent = some a
  /-- The root is the node without a parent. -/
  root : ∀ a node, r.nodes a = some node → (node.parent = none ↔ r.root = some a)
  walk : ∃ visited, r.walk = some visited ∧ visited.Perm devices ∧
    visited.Pairwise fun d e => e.numericalId < d.numericalId
  find : ∀ numericalId, ∃ found, r.find numericalId = some found ∧
    ∀ d, found = some d ↔ d ∈ devices ∧ d.numericalId = numericalId
  length : r.length = devices.length

/-! ### The links -/

theorem exists_plug (hn : n ∈ addrs t) : ∃ fs s, plug fs s = t ∧ addr s = some n := by
  suffices h : ∀ gs, ∃ fs s, plug fs s = plug gs t ∧ addr s = some n from h []
  induction t with
  | leaf => simp [addrs] at hn
  | node c l a r ihl ihr =>
    intro gs
    simp only [addrs, mem_cons, mem_append] at hn
    rcases hn with rfl | hn | hn
    · exact ⟨gs, .node c l a r, rfl, rfl⟩
    · exact ihl hn (⟨true, c, a, r⟩ :: gs)
    · exact ihr hn (⟨false, c, a, l⟩ :: gs)

theorem Registered.exists_at (hr : Registered r devices t) {node : Node}
    (hnode : r.nodes n = some node) :
    ∃ fs s, plug fs s = t ∧ addr s = some n ∧ At r.nodes fs s := by
  obtain ⟨fs, s, rfl, hs⟩ := exists_plug (hr.allocated n (by simp [hnode]))
  exact ⟨fs, s, rfl, hs, at_plug.mpr hr.links⟩

theorem Registered.exists_frame (hr : Registered r devices t) {node : Node} {p : ℕ}
    (hnode : r.nodes n = some node) (hparent : node.parent = some p) :
    ∃ f fs s, plug (f :: fs) s = t ∧ addr s = some n ∧ At r.nodes (f :: fs) s ∧
      node.color = s.rootColor ∧ p = f.value.1 := by
  obtain ⟨fs, s, hplug, hs, hat⟩ := hr.exists_at hnode
  obtain ⟨node', hnode', hcolor, htop, -⟩ := hat.exists_node hs
  obtain ⟨⟩ := hnode.symm.trans hnode'
  rw [hparent] at htop
  cases fs with
  | nil => simp [topAddr] at htop
  | cons f fs => exact ⟨f, fs, s, hplug, hs, hat, hcolor, by simpa [topAddr] using htop⟩

theorem Registered.red (hr : Registered r devices t) {node above : Node} {p : ℕ}
    (hnode : r.nodes n = some node) (hparent : node.parent = some p)
    (habove : r.nodes p = some above) (hred : node.color = .red) : above.color = .black := by
  obtain ⟨f, fs, s, rfl, hs, hat, hcolor, rfl⟩ := hr.exists_frame hnode hparent
  obtain rfl := Option.some.inj (habove.symm.trans hat.node_eq)
  obtain ⟨k, hv⟩ := hr.valid
  cases hf : f.color with
  | black => exact hf
  | red =>
    have hblack := hv.rootColor_of_plug hf
    simp [hcolor, hblack] at hred

theorem Registered.parent (hr : Registered r devices t) {node : Node} {p : ℕ}
    (hnode : r.nodes n = some node) (hparent : node.parent = some p) :
    ∃ above side, r.nodes p = some above ∧ above.child side = some n := by
  obtain ⟨f, fs, s, rfl, hs, hat, -, rfl⟩ := hr.exists_frame hnode hparent
  exact ⟨_, side f, hat.node_eq, by rw [child_toNode, hs]⟩

theorem Registered.child (hr : Registered r devices t) {node : Node} {side : RBOperation} {c : ℕ}
    (hnode : r.nodes n = some node) (hchild : node.child side = some c) :
    ∃ below, r.nodes c = some below ∧ below.parent = some n := by
  obtain ⟨fs, s, rfl, hs, hat⟩ := hr.exists_at hnode
  obtain ⟨f, s, rfl, hf, -, rfl⟩ := exists_attach hs (decide (side = .leftNode))
  have hat' := at_cons.mpr hat
  obtain rfl := Option.some.inj (hnode.symm.trans hat'.node_eq)
  have hside : side = RustExample.DeviceRegistry.side f := by
    cases side <;> simp [RustExample.DeviceRegistry.side, hf]
  rw [hside, child_toNode] at hchild
  obtain ⟨below, hbelow, -, hparent, -⟩ := hat'.exists_node hchild
  exact ⟨below, hbelow, hparent⟩

theorem Registered.root_iff (hr : Registered r devices t) {node : Node}
    (hnode : r.nodes n = some node) : node.parent = none ↔ r.root = some n := by
  constructor
  · intro hnone
    obtain ⟨fs, s, rfl, hs, hat⟩ := hr.exists_at hnode
    obtain ⟨node', hnode', -, htop, -⟩ := hat.exists_node hs
    obtain ⟨⟩ := hnode.symm.trans hnode'
    cases fs with
    | nil => rw [hr.root, ← hs, plug]
    | cons f fs => simp [hnone, topAddr] at htop
  · intro hroot
    obtain ⟨node', hnode', -, htop, -⟩ := hr.links.exists_node (hr.root.symm.trans hroot)
    obtain ⟨⟩ := hnode.symm.trans hnode'
    exact htop

theorem Registered.root_black (hr : Registered r devices t) (hroot : r.root = some n) :
    ∃ node, r.nodes n = some node ∧ node.color = .black := by
  obtain ⟨node, hnode, hcolor, -⟩ := hr.links.exists_node (hr.root.symm.trans hroot)
  exact ⟨node, hnode, hcolor.trans hr.black⟩

/-! ### The black height -/

theorem Path.eq_of_valid {j : ℕ} (hpath : Path h (addr t) j) (ht : Holds h above t)
    (hv : t.Valid k) : j = k := by
  induction t generalizing above j k with
  | leaf =>
    cases hpath
    exact hv.symm
  | node c l a r ihl ihr =>
    obtain ⟨ha, hl, hr⟩ := ht
    cases hpath with
    | @node _ node side i hnode hpath =>
      obtain ⟨⟩ := ha.symm.trans hnode
      cases c with
      | red =>
        cases side with
        | leftNode => simpa using ihl hpath hl hv.1.1
        | rightNode => simpa using ihr hpath hr hv.2.1
      | black =>
        obtain ⟨k, rfl, hvl, hvr⟩ := hv
        cases side with
        | leftNode => simpa using ihl hpath hl hvl
        | rightNode => simpa using ihr hpath hr hvr

/-- The check counts no red node with a red parent, and one black height. -/
theorem validate_spec (ht : Holds h above t) (hv : t.Valid k) (hbound : t.toList.length ≤ bound)
    {c : Color} (hc : c = .red → t.rootColor = .black) (blackHeight : ℕ) :
    validate h bound (addr t) c blackHeight =
      some (0, blackHeight + k, blackHeight + k) := by
  induction t generalizing above bound c k blackHeight with
  | leaf =>
    obtain rfl : k = 0 := hv
    rw [addr, validate, Nat.add_zero]
  | node c' l a r ihl ihr =>
    rw [RedBlack.Tree.toList, length_append, length_cons] at hbound
    obtain ⟨bound, rfl⟩ : ∃ b, bound = b + 1 := ⟨bound - 1, by omega⟩
    obtain ⟨ha, hl, hr⟩ := ht
    have hleft : l.toList.length ≤ bound := by omega
    have hright : r.toList.length ≤ bound := by omega
    rw [addr, validate, ha]
    cases c' with
    | red =>
      obtain ⟨⟨hvl, hlc⟩, hvr, hrc⟩ := hv
      have hc' : c ≠ .red := fun h => by simpa [RedBlack.Tree.rootColor] using hc h
      simp [ihl hl hvl hleft fun _ => hlc, ihr hr hvr hright fun _ => hrc, hc']
    | black =>
      obtain ⟨k, rfl, hvl, hvr⟩ := hv
      have hblack : ∀ s : RedBlack.Tree Entry, Color.black = .red → s.rootColor = .black := by simp
      simp [ihl hl hvl hleft (hblack l), ihr hr hvr hright (hblack r)]
      omega

/-! ### The answers -/

theorem walkInOrder_spec (ht : Holds h above t) (hbound : t.toList.length ≤ bound) :
    walkInOrder h bound (addr t) = some (t.toList.map Prod.snd) := by
  induction t generalizing above bound with
  | leaf =>
    rw [addr, walkInOrder]
    rfl
  | node c l a r ihl ihr =>
    rw [RedBlack.Tree.toList, length_append, length_cons] at hbound
    obtain ⟨bound, rfl⟩ : ∃ b, bound = b + 1 := ⟨bound - 1, by omega⟩
    obtain ⟨ha, hl, hr⟩ := ht
    rw [addr, walkInOrder, ha]
    have hleft : l.toList.length ≤ bound := by omega
    have hright : r.toList.length ≤ bound := by omega
    simp [ihl hl hleft, ihr hr hright, RedBlack.Tree.toList]

/-- A lookup finds a device with the id, if there is one. -/
theorem findR_ordered (ht : Holds h above t) (hord : Ordered t.toList)
    (hbound : t.toList.length ≤ bound) (numericalId : ℕ) :
    ∃ found, findR h numericalId bound (addr t) = some found ∧
      (∀ d, found = some d → d ∈ t.toList.map Prod.snd ∧ d.numericalId = numericalId) ∧
      (found = none → ∀ a ∈ t.toList, a.2.numericalId ≠ numericalId) := by
  induction t generalizing above bound with
  | leaf =>
    refine ⟨none, ?_, by simp, fun _ a ha => ?_⟩
    · rw [addr, findR]
    · simp [RedBlack.Tree.toList] at ha
  | node c l a r ihl ihr =>
    rw [RedBlack.Tree.toList, length_append, length_cons] at hbound
    obtain ⟨bound, rfl⟩ : ∃ b, bound = b + 1 := ⟨bound - 1, by omega⟩
    obtain ⟨ha, hl, hr⟩ := ht
    simp only [Ordered, RedBlack.Tree.toList, pairwise_append, pairwise_cons,
      mem_cons] at hord
    obtain ⟨hol, ⟨har, hor⟩, hlr⟩ := hord
    rw [addr, findR, ha]
    simp only [Option.bind_eq_bind, Option.bind_some, RedBlack.Tree.toList, map_append,
      map_cons, mem_append, mem_cons]
    rcases Nat.lt_trichotomy a.2.numericalId numericalId with hlt | heq | hgt
    · obtain ⟨found, hrun, hsome, hnone⟩ :=
        ihl hl hol (show l.toList.length ≤ bound by omega)
      refine ⟨found, ?_, fun d hd => ⟨.inl (hsome d hd).1, (hsome d hd).2⟩, fun hf b hb => ?_⟩
      · rw [if_neg (by omega), check, if_pos (Nat.le_of_lt hlt)]
        exact hrun
      · rcases hb with hb | rfl | hb
        · exact hnone hf b hb
        · omega
        · have := har b hb
          omega
    · refine ⟨some a.2, by rw [if_pos heq], ?_, by simp⟩
      rintro d ⟨⟩
      exact ⟨.inr (.inl rfl), heq⟩
    · obtain ⟨found, hrun, hsome, hnone⟩ :=
        ihr hr hor (show r.toList.length ≤ bound by omega)
      refine ⟨found, ?_, fun d hd => ⟨.inr (.inr (hsome d hd).1), (hsome d hd).2⟩,
        fun hf b hb => ?_⟩
      · rw [if_neg (by omega), check, if_neg (Nat.not_le_of_lt hgt)]
        exact hrun
      · rcases hb with hb | rfl | hb
        · have := hlr b hb a (.inl rfl)
          omega
        · omega
        · exact hnone hf b hb

theorem findR_spec (ht : Holds h above t) (hdesc : Descending t.toList)
    (hbound : t.toList.length ≤ bound) (numericalId : ℕ) :
    ∃ found, findR h numericalId bound (addr t) = some found ∧
      ∀ d, found = some d ↔ d ∈ t.toList.map Prod.snd ∧ d.numericalId = numericalId := by
  obtain ⟨hord, hnodup⟩ := descending_iff.mp hdesc
  obtain ⟨found, hrun, hsome, hnone⟩ := findR_ordered ht hord hbound numericalId
  refine ⟨found, hrun, fun d => ⟨hsome d, fun ⟨hd, hid⟩ => ?_⟩⟩
  obtain ⟨a, ha, rfl⟩ := List.mem_map.mp hd
  cases hf : found with
  | none => exact (hnone hf a ha hid).elim
  | some d =>
    obtain ⟨hd', hid'⟩ := hsome d hf
    obtain ⟨b, hb, rfl⟩ := List.mem_map.mp hd'
    rw [inj_on_of_nodup_map hnodup hb ha (hid'.trans hid.symm)]

/-! ### Every registry is sound -/

theorem Registered.sound (hr : Registered r devices t) : Sound r devices := by
  have hsize : t.toList.length ≤ r.bound := by
    rw [hr.toList_length]
    exact Nat.le_succ _
  obtain ⟨k, hv⟩ := hr.valid
  refine ⟨fun a node p above hnode hparent habove hred => hr.red hnode hparent habove hred,
    fun a => hr.root_black, fun i j hi hj => ?_, ?_, fun a node p => hr.parent,
    fun a node side c => hr.child, fun a node => hr.root_iff, ?_, fun numericalId => ?_, hr.length⟩
  · rw [hr.root] at hi hj
    rw [hi.eq_of_valid hr.links.tree hv, hj.eq_of_valid hr.links.tree hv]
  · rw [isAValidRedBlackTree, hr.root,
      validate_spec hr.links.tree hv hsize (fun _ => hr.black)]
    simp
  · refine ⟨t.toList.map Prod.snd, ?_, hr.perm, ?_⟩
    · rw [BetterDeviceRegistry.walk, hr.root, walkInOrder_spec hr.links.tree hsize]
    · exact List.pairwise_map.mpr hr.links.descending
  · obtain ⟨found, hrun, hfound⟩ := findR_spec hr.links.tree hr.links.descending hsize numericalId
    refine ⟨found, ?_, fun d => ?_⟩
    · rw [BetterDeviceRegistry.find, hr.root, hrun]
    · rw [hfound, hr.perm.mem_iff]

/-- **A registry is sound after every `add`.** No `unwrap` fails. -/
theorem registry_sound_of_addAll (devices : List IoTDevice)
    (hids : (devices.map IoTDevice.numericalId).Nodup) :
    ∃ r, BetterDeviceRegistry.newEmpty.addAll devices = some r ∧ Sound r devices := by
  obtain ⟨r, t, hrun, hr⟩ := registered_newEmpty.addAll devices hids
  exact ⟨r, hrun, hr.sound⟩

/-- Three devices whose ids ascend, which takes a rotation. -/
theorem registry_sound_of_addAll_ascending :
    ∃ r, BetterDeviceRegistry.newEmpty.addAll
        [⟨1, "a", "A"⟩, ⟨2, "b", "B"⟩, ⟨3, "c", "C"⟩] = some r ∧
      Sound r [⟨1, "a", "A"⟩, ⟨2, "b", "B"⟩, ⟨3, "c", "C"⟩] :=
  registry_sound_of_addAll _ (by decide)

end RustExample.DeviceRegistry
