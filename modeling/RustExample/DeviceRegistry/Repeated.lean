import RustExample.DeviceRegistry.Sound

/-!
# Devices with the same id in the registry

A device goes to the left of the devices with its id, but a rotation moves nodes with the same id to
the right. From then on a comparison of the two tells the wrong side: the repair takes the parent
for the uncle, rotates the parent although it need not or does not although it should, or puts a
subtree into the place of another one.

* The colours of the nodes may be any.
-/

namespace RustExample.DeviceRegistry

section Repairs

open RedBlack

variable {h h' : Heap} {fs : List (Frame Entry)} {f g p : Frame Entry} {a : Entry}
  {t : RedBlack.Tree Entry} {n : ℕ}

/-- What the repair needs of the nodes above a red node with the device. -/
def Repairable : List (Frame Entry) → IoTDevice → Prop
  | p :: g :: fs, device =>
    p.color = .red →
      -- the uncle that is found is red, or is the parent itself: the grandparent becomes red
      if check g.value.2 p.value.2 ≠ side g ∨ g.sibling.rootColor = .red then
        Repairable fs g.value.2
      else Attaches fs g.value.2 ∧
        (check p.value.2 device ≠ side p →
          -- the parent is rotated away from the node, below its other child
          if p.isLeft = g.isLeft then p.sibling ≠ .leaf
          -- the parent is not rotated: the node is below the grandparent then, and that is below
          -- the parent
          else if check p.value.2 g.value.2 ≠ side p ∨ p.sibling.rootColor = .red then
            Repairable fs p.value.2
          else Attaches fs p.value.2)
  | _, _ => True

/-! ### Sides -/

theorem eq_other_of_ne {s s' : RBOperation} (hs : s ≠ s') : s = s'.other := by
  cases s <;> cases s' <;> first | rfl | exact (hs rfl).elim

theorem side_eq (hside : f.isLeft = g.isLeft) : side f = side g := by
  rw [side, side, hside]

theorem side_turn (f : Frame Entry) (t : RedBlack.Tree Entry) :
    side (f.turn t) = (side f).other := by
  cases hf : f.isLeft <;> simp [side, Frame.turn, RBOperation.other, hf]

/-- A comparison with a device to the left of a node is right. -/
theorem Ordered.check_eq (hord : Ordered (plug (f :: fs) t).toList) (ha : a ∈ t.toList)
    (hf : f.isLeft = true) : check f.value.2 a.2 = side f := by
  rw [Ordered, toList_plug, List.pairwise_append] at hord
  have hle := hord.2.2 a (List.mem_append_right _ ha) f.value (by simp [after, hf])
  rw [check, side, if_pos hle, if_pos hf]

/-! ### Rounds -/

theorem Linked.uncle_parent (ht : Linked h (p :: g :: fs) t) (hn : addr t = some n)
    (hg : check g.value.2 p.value.2 ≠ side g) :
    uncle h n = some (some (some p.value.1, side g)) := by
  rw [ht.uncle_eq hn, eq_other_of_ne hg, RBOperation.other_other, child_toNode]

theorem recolourAt_parent (ht : Linked h (p :: g :: fs) t) (hn : addr t = some n) :
    ∃ h' t', recolourAt h n p.value.1 = some (h', g.value.1) ∧ Linked h' fs t' ∧
      topEntry t' = some g.value ∧ Repairs h (plug (p :: g :: fs) t) h' (plug fs t') := by
  obtain ⟨node, hnode, -, hparent, -⟩ := ht.exists_node hn
  have h₂ := (ht.setColor .black).setColor .black
  have h₃ := (linked_cons.mp h₂).setColor .red
  refine ⟨((h.setColor p.value.1 .black).setColor p.value.1 .black).setColor g.value.1 .red, _, ?_,
    linked_cons.mp h₃, topEntry_attach _ _, ?_⟩
  · simp only [recolourAt, hnode, hparent, topAddr, Option.bind_eq_bind, Option.bind_some,
      h₂.node_eq, (linked_cons.mpr h₃).node_eq, toNode]
  · have hblack := (Repairs.setColor h p (g :: fs) t .black).trans
      (Repairs.setColor _ { p with color := .black } (g :: fs) t .black)
    exact hblack.trans (Repairs.setColor _ g fs _ .red)

/-- The parent is rotated to below its other child, and then the grandparent to below that. -/
theorem rotateAt_sibling (ht : Linked h (p :: g :: fs) t) (ha : topEntry t = some a)
    (hside : p.isLeft = g.isLeft) (hp : check p.value.2 a.2 ≠ side p)
    (hg : check g.value.2 p.value.2 = side g) (hattach : Attaches fs g.value.2)
    (hsibling : p.sibling ≠ .leaf) :
    ∃ h' q t', rotateAt h a.1 (side g).other = some (h', p.value.1) ∧
      Linked h' (rotated q g :: fs) t' ∧ topEntry t' = some p.value ∧
      Repairs h (plug (p :: g :: fs) t) h' (plug (rotated q g :: fs) t') := by
  obtain ⟨node, hnode, -, hparent, hdev⟩ := ht.top_node ha
  obtain ⟨m, hm⟩ : ∃ m, addr p.sibling = some m := by
    cases hs : p.sibling with
    | leaf => exact (hsibling hs).elim
    | node c l b r => exact ⟨b.1, rfl⟩
  obtain ⟨q, s, hq, hqside, -, -⟩ := exists_attach hm p.isLeft
  have hturn := linked_turn.mp ht
  rw [← hq] at hturn
  have hpq : (p.turn t).isLeft ≠ q.isLeft := by simp [Frame.turn, hqside]
  obtain ⟨h₁, hrun₁, hat₁, hframe₁⟩ :=
    (linked_cons.mpr hturn).rotateUp hpq (by simpa [Attaches, Frame.turn] using hg)
  obtain ⟨h₂, hrun₂, hat₂, hrep₂⟩ := (linked_cons.mp hat₁).rotateOuter
    (addr_attach (p.turn t) s) (hqside.trans hside) hattach
  refine ⟨h₂, q, (p.turn t).attach s, ?_, hat₂, topEntry_attach _ _, Repairs.trans ?_ hrep₂⟩
  · have hwhich : check p.value.2 node.dev = (side g).other := by
      rw [hdev, eq_other_of_ne hp, side_eq hside]
    have hturned : side (p.turn t) = (side g).other := by
      rw [side_turn, side_eq hside]
    rw [hturned] at hrun₁
    have hnode₁ : h₁ p.value.1 = some (toNode (p.turn t) (some q.value.1) (addr s)) :=
      hat₁.node_eq
    simp only [Frame.turn] at hrun₁ hrun₂ hnode₁
    simp [rotateAt, hnode, hparent, topAddr, ht.node_eq, toNode, hwhich, hrun₁, hnode₁, hrun₂]
  · have hplug : plug (p :: g :: fs) t = plug (q :: p.turn t :: g :: fs) s := by
      simp only [plug, hq, Frame.attach_turn]
    rw [hplug]
    exact Repairs.swap hpq hframe₁

/-- The parent is not rotated, and the grandparent is rotated to between it and the node. -/
theorem rotateAt_swap (ht : Linked h (p :: g :: fs) t) (ha : topEntry t = some a)
    (hside : p.isLeft ≠ g.isLeft) (hp : check p.value.2 a.2 ≠ side p)
    (hattach : Attaches fs g.value.2) :
    ∃ h', rotateAt h a.1 (side g).other = some (h', a.1) ∧
      Linked h' ({ g with color := .red } :: { p with color := .black } :: fs) t ∧
      Repairs h (plug (p :: g :: fs) t) h'
        (plug ({ g with color := .red } :: { p with color := .black } :: fs) t) := by
  obtain ⟨node, hnode, -, hparent, hdev⟩ := ht.top_node ha
  have h₁ := ht.setColor .black
  have h₂ := linked_cons.mpr ((linked_cons.mp h₁).setColor .red)
  obtain ⟨node', hnode', -, hparent', -⟩ := h₂.top_node ha
  obtain ⟨h', hrun, hat, hframe⟩ := h₂.rotateUp hside.symm hattach
  refine ⟨h', ?_, hat, ?_⟩
  · have hwhich : check p.value.2 node.dev ≠ (side g).other := by
      rwa [hdev, side_ne hside.symm]
    have houter : rotateOuter h a.1 p.value.1 (side g).rotation = some (h', a.1) := by
      simp only [rotateOuter, Option.bind_eq_bind, h₁.node_eq, Option.bind_some, toNode, topAddr,
        hnode', hparent', h₂.node_eq, rotate_rotation]
      exact congrArg (Option.bind · _) hrun
    simp [rotateAt, hnode, hparent, topAddr, ht.node_eq, toNode, hwhich, houter]
  · have hcolors := (Repairs.setColor h p (g :: fs) t .black).trans
      (Repairs.setColor _ g fs (({ p with color := .black } : Frame Entry).attach t) .red)
    exact hcolors.trans (Repairs.swap hside.symm hframe)

/-! ### The loop -/

/-- The loop ends at a node, and nothing is lost. -/
def Ends (h : Heap) (fs : List (Frame Entry)) (t : RedBlack.Tree Entry)
    (run : Option (Heap × ℕ)) : Prop :=
  ∃ h' n' fs' t', run = some (h', n') ∧ Linked h' fs' t' ∧ addr t' = some n' ∧
    fs'.length ≤ fs.length ∧ Repairs h (plug fs t) h' (plug fs' t')

theorem Ends.of_repairs {fs' : List (Frame Entry)} {t' : RedBlack.Tree Entry}
    {run : Option (Heap × ℕ)} (hrun : Ends h' fs' t' run) (hlen : fs'.length ≤ fs.length)
    (hrep : Repairs h (plug fs t) h' (plug fs' t')) : Ends h fs t run := by
  obtain ⟨h₁, n₁, fs₁, t₁, heq, ht₁, hn₁, hlen₁, hrep₁⟩ := hrun
  exact ⟨h₁, n₁, fs₁, t₁, heq, ht₁, hn₁, Nat.le_trans hlen₁ hlen, hrep.trans hrep₁⟩

theorem ends_fixLoop (ht : Linked h fs t) (hn : addr t = some n)
    (hblack : fs = [] ∨ RedBlack.parentColor fs = .black) (bound : ℕ) :
    Ends h fs t (fixLoop (bound + 1) h n) :=
  ⟨h, n, fs, t, ht.fixLoop_end hn hblack bound, ht, hn, Nat.le_refl _, .refl _ _⟩

/-- A red root above the node has no parent, and so the node has no uncle. -/
theorem ends_fixLoop_root (ht : Linked h [p] t) (hn : addr t = some n) (bound : ℕ) :
    Ends h [p] t (fixLoop (bound + 1) h n) := by
  obtain ⟨node, hnode, -, hparent, -⟩ := ht.exists_node hn
  refine ⟨h, n, [p], t, ?_, ht, hn, Nat.le_refl _, .refl _ _⟩
  simp [fixLoop, hnode, hparent, topAddr, ht.parentColor_eq hn, uncle, ht.node_eq, toNode]

theorem fixLoop_up (ht : Linked h (p :: g :: fs) t) (hn : addr t = some n) (hp : p.color = .red)
    (hup : check g.value.2 p.value.2 ≠ side g ∨ g.sibling.rootColor = .red) (bound : ℕ) :
    ∃ h' t', fixLoop (bound + 1) h n = fixLoop bound h' g.value.1 ∧ Linked h' fs t' ∧
      topEntry t' = some g.value ∧ Repairs h (plug (p :: g :: fs) t) h' (plug fs t') := by
  by_cases hg : check g.value.2 p.value.2 = side g
  · have hu : g.sibling.rootColor = .red := hup.resolve_left (not_not.mpr hg)
    obtain ⟨u, hu'⟩ := exists_addr_of_red hu
    have huncle := ht.uncle_sibling hn hg
    have hisRed := (linked_cons.mp ht).path.2.1.isRed_eq
    rw [hu'] at huncle hisRed
    obtain ⟨h', hrun, hat, hrep⟩ := ht.recolourAt hn hu'
    refine ⟨h', _, ht.fixLoop_recolour hn hp huncle ?_ hrun bound, hat, topEntry_attach _ _, hrep⟩
    rw [hisRed, hu]
    rfl
  · obtain ⟨h', t', hrun, hat, htop, hrep⟩ := recolourAt_parent ht hn
    refine ⟨h', t', ht.fixLoop_recolour hn hp (ht.uncle_parent hn hg) ?_ hrun bound, hat, htop,
      hrep⟩
    simp [isRed, ht.node_eq, toNode, hp]

theorem fixLoop_across {m : ℕ} (ht : Linked h (p :: g :: fs) t) (ha : topEntry t = some a)
    (hp : p.color = .red) (hg : check g.value.2 p.value.2 = side g)
    (hu : g.sibling.rootColor ≠ .red)
    (hrun : rotateAt h a.1 (side g).other = some (h', m)) (bound : ℕ) :
    fixLoop (bound + 1) h a.1 = fixLoop bound h' m := by
  have hn := addr_of_topEntry ha
  refine ht.fixLoop_rotate hn hp (ht.uncle_sibling hn hg) ?_ hrun bound
  rw [(linked_cons.mp ht).path.2.1.isRed_eq, beq_eq_false_iff_ne.mpr hu]

/-- A rotation with a black uncle ends the loop, if the node is where its id tells. -/
theorem ends_rotate (ht : Linked h (p :: g :: fs) t) (ha : topEntry t = some a)
    (hp : p.color = .red) (hcheck : check p.value.2 a.2 = side p)
    (hg : check g.value.2 p.value.2 = side g) (hu : g.sibling.rootColor ≠ .red)
    (hattach : Attaches fs g.value.2) (bound : ℕ) :
    Ends h (p :: g :: fs) t (fixLoop (bound + 2) h a.1) := by
  obtain ⟨h', q, t', b, hrun, hat, hb, -, hrep⟩ := ht.rotateAt ha hcheck hg hattach
  rw [fixLoop_across ht ha hp hg hu hrun]
  exact (ends_fixLoop hat (addr_of_topEntry hb) (.inr rfl) bound).of_repairs (by simp) hrep

/-- So does one with a parent that is rotated away from the node, if that has another child. -/
theorem ends_rotate_sibling (ht : Linked h (p :: g :: fs) t) (ha : topEntry t = some a)
    (hp : p.color = .red) (hside : p.isLeft = g.isLeft) (hcheck : check p.value.2 a.2 ≠ side p)
    (hg : check g.value.2 p.value.2 = side g) (hu : g.sibling.rootColor ≠ .red)
    (hattach : Attaches fs g.value.2) (hsibling : p.sibling ≠ .leaf) (bound : ℕ) :
    Ends h (p :: g :: fs) t (fixLoop (bound + 2) h a.1) := by
  obtain ⟨h', q, t', hrun, hat, htop, hrep⟩ :=
    rotateAt_sibling ht ha hside hcheck hg hattach hsibling
  rw [fixLoop_across ht ha hp hg hu hrun]
  exact (ends_fixLoop hat (addr_of_topEntry htop) (.inr rfl) bound).of_repairs (by simp) hrep

/-- The node is to the right of its parent, and that is to the left of the grandparent. -/
theorem check_grandparent (hord : Ordered (plug (p :: g :: fs) t).toList) (ha : a ∈ t.toList)
    (hside : p.isLeft ≠ g.isLeft) (hcheck : check p.value.2 a.2 ≠ side p) :
    check g.value.2 a.2 = side g := by
  have hpl : p.isLeft = false := by
    by_contra hpl
    exact hcheck (hord.check_eq ha (by simpa using hpl))
  have hgl : g.isLeft = true := by
    by_contra hgl
    exact hside (by simp [hpl, hgl])
  have hmem : a ∈ (p.attach t).toList := by
    rw [Frame.attach]
    split_ifs <;> simp [RedBlack.Tree.toList, ha]
  exact Ordered.check_eq (show Ordered (plug (g :: fs) (p.attach t)).toList from hord) hmem hgl

/-- Without a rotation of the parent a second round ends the loop, if its uncle is black. -/
theorem ends_swap (ht : Linked h (p :: g :: fs) t) (ha : topEntry t = some a)
    (hord : Ordered (plug (p :: g :: fs) t).toList) (hp : p.color = .red)
    (hside : p.isLeft ≠ g.isLeft) (hcheck : check p.value.2 a.2 ≠ side p)
    (hg : check g.value.2 p.value.2 = side g) (hu : g.sibling.rootColor ≠ .red)
    (hattach : Attaches fs g.value.2) (hp' : check p.value.2 g.value.2 = side p)
    (hu' : p.sibling.rootColor ≠ .red) (hattach' : Attaches fs p.value.2) (bound : ℕ) :
    Ends h (p :: g :: fs) t (fixLoop (bound + 3) h a.1) := by
  obtain ⟨h₁, hrun₁, hat₁, hrep₁⟩ := rotateAt_swap ht ha hside hcheck hattach
  have hcheck₁ := check_grandparent hord (mem_toList_of_topEntry ha) hside hcheck
  rw [fixLoop_across ht ha hp hg hu hrun₁]
  exact (ends_rotate hat₁ ha rfl hcheck₁ hp' hu' hattach' bound).of_repairs (Nat.le_refl _) hrep₁

/-- **The loop keeps all nodes.** Where a comparison misleads it, two rounds may take it up. -/
theorem ends_of_repairable (bound : ℕ) (ht : Linked h fs t) (ha : topEntry t = some a)
    (hord : Ordered (plug fs t).toList) (hrepair : Repairable fs a.2)
    (hbound : fs.length < bound) : Ends h fs t (fixLoop bound h a.1) := by
  induction bound using Nat.strongRecOn generalizing h fs t a with
  | _ bound ih =>
    have hn := addr_of_topEntry ha
    obtain ⟨bound, rfl⟩ : ∃ b, bound = b + 1 := ⟨bound - 1, by omega⟩
    by_cases hblack : fs = [] ∨ RedBlack.parentColor fs = .black
    · exact ends_fixLoop ht hn hblack bound
    obtain ⟨hne, hp⟩ := not_or.mp hblack
    obtain ⟨p, fs, rfl⟩ := List.exists_cons_of_ne_nil hne
    replace hp : p.color = .red := red_of_ne_black hp
    rcases fs with _ | ⟨g, fs⟩
    · exact ends_fixLoop_root ht hn bound
    rw [List.length_cons, List.length_cons] at hbound
    replace hrepair := hrepair hp
    by_cases hup : check g.value.2 p.value.2 ≠ side g ∨ g.sibling.rootColor = .red
    · rw [if_pos hup] at hrepair
      obtain ⟨h', t', hrun, hat, htop, hrep⟩ := fixLoop_up ht hn hp hup bound
      rw [hrun]
      refine (ih bound (by omega) hat htop ?_ hrepair (by omega)).of_repairs ?_ hrep
      · rwa [hrep.toList_eq]
      · rw [List.length_cons, List.length_cons]
        omega
    rw [if_neg hup] at hrepair
    obtain ⟨hattach, hrepair⟩ := hrepair
    obtain ⟨hg, hu⟩ := not_or.mp hup
    replace hg := not_not.mp hg
    obtain ⟨bound, rfl⟩ : ∃ b, bound = b + 1 := ⟨bound - 1, by omega⟩
    by_cases hcheck : check p.value.2 a.2 = side p
    · exact ends_rotate ht ha hp hcheck hg hu hattach bound
    replace hrepair := hrepair hcheck
    split_ifs at hrepair with hside hup'
    · exact ends_rotate_sibling ht ha hp hside hcheck hg hu hattach hrepair bound
    · obtain ⟨h₁, hrun₁, hat₁, hrep₁⟩ := rotateAt_swap ht ha hside hcheck hattach
      obtain ⟨h₂, t₂, hrun₂, hat₂, htop₂, hrep₂⟩ := fixLoop_up hat₁ hn rfl hup' bound
      rw [fixLoop_across ht ha hp hg hu hrun₁, hrun₂]
      have hrep := hrep₁.trans hrep₂
      refine (ih bound (by omega) hat₂ htop₂ ?_ hrepair (by omega)).of_repairs ?_ hrep
      · rwa [hrep.toList_eq]
      · rw [List.length_cons, List.length_cons]
        omega
    · obtain ⟨hp', hu'⟩ := not_or.mp hup'
      obtain ⟨bound, rfl⟩ : ∃ b, bound = b + 1 := ⟨bound - 1, by omega⟩
      exact ends_swap ht ha hord hp hside hcheck hg hu hattach (not_not.mp hp') hu' hrepair bound

/-- **The repair keeps all nodes.** No `unwrap` fails. -/
theorem fixTree_of_repairable (bound : ℕ) (ht : Linked h fs t) (ha : topEntry t = some a)
    (hord : Ordered (plug fs t).toList) (hrepair : Repairable fs a.2)
    (hbound : fs.length < bound) :
    ∃ h' root w, fixTree bound h a.1 = some (h', root) ∧ Linked h' [] w ∧ addr w = some root ∧
      Repairs h (plug fs t) h' w := by
  obtain ⟨h₁, n', fs', t', hrun₁, ht₁, hn', hlen, hrep₁⟩ :=
    ends_of_repairable bound ht ha hord hrepair hbound
  obtain ⟨root, hrun₂, hroot, hat, hrep₂⟩ := climb_blacken bound ht₁ hn' (by omega)
  exact ⟨h₁.setColor root .black, root, (plug fs' t').blacken, by simp [fixTree, hrun₁, hrun₂],
    hat, hroot, hrep₁.trans hrep₂⟩

end Repairs

/-! ### The registry -/

section Registries

open RedBlack

variable {t : RedBlack.Tree Entry} {r : BetterDeviceRegistry} {devices : List IoTDevice}
  {device : IoTDevice}

/-- A registry with devices, some with the same id: the nodes are linked as a tree of them. -/
structure Holding (r : BetterDeviceRegistry) (devices : List IoTDevice)
    (t : RedBlack.Tree Entry) : Prop where
  links : Linked r.nodes [] t
  ordered : Ordered t.toList
  root : r.root = addr t
  below : ∀ a ∈ addrs t, a < r.made
  made : r.made = devices.length
  perm : (t.toList.map Prod.snd).Perm devices
  length : r.length = devices.length

/-- A registry keeps devices: a walk visits them in the order of the ids, as often as they were
added, and a lookup finds one with the id. -/
structure Kept (r : BetterDeviceRegistry) (devices : List IoTDevice) : Prop where
  walk : ∃ visited, r.walk = some visited ∧ visited.Perm devices ∧
    (visited.Pairwise fun d e => e.numericalId ≤ d.numericalId) ∧ r.length = visited.length
  find : ∀ numericalId, ∃ found, r.find numericalId = some found ∧
    (found.isSome ↔ ∃ d ∈ devices, d.numericalId = numericalId)

/-- The repair after an `add` of the device keeps all nodes. -/
def Passes (r : BetterDeviceRegistry) (device : IoTDevice) : Prop :=
  ∀ t, Linked r.nodes [] t → r.root = addr t →
    Repairable (searchPath (goLeft device) t []) device

theorem eq_leaf_of_addr (ht : addr t = none) : t = .leaf := by
  cases t with
  | leaf => rfl
  | node c l a r => simp [addr] at ht

theorem passes_of_root_none (hroot : r.root = none) : Passes r device := by
  intro t _ ht
  rw [eq_leaf_of_addr (ht.symm.trans hroot)]
  exact trivial

/-- The nodes of a registry are those of one tree only. -/
theorem eq_of_holds {parent : Option ℕ} {s : RedBlack.Tree Entry} (ht : Holds h parent t)
    (hs : Holds h parent s) (haddr : addr t = addr s) : t = s := by
  induction t generalizing parent s with
  | leaf => exact (eq_leaf_of_addr haddr.symm).symm
  | node c l a r ihl ihr =>
    cases s with
    | leaf => simp [addr] at haddr
    | node c' l' a' r' =>
      obtain ⟨n, d⟩ := a
      obtain ⟨n', d'⟩ := a'
      obtain rfl : n = n' := by simpa [addr] using haddr
      obtain ⟨hnode, hl, hr⟩ := ht
      obtain ⟨hnode', hl', hr'⟩ := hs
      obtain ⟨rfl, rfl, -, hleft, hright⟩ :=
        Node.mk.inj (Option.some.inj (hnode.symm.trans hnode'))
      rw [ihl hl hl' hleft, ihr hr hr' hright]

theorem passes_of_holds (ht : Holds r.nodes none t) (hroot : r.root = addr t)
    (hpath : Repairable (searchPath (goLeft device) t []) device) : Passes r device := by
  intro s hs haddr
  rwa [← eq_of_holds ht hs.tree (hroot.symm.trans haddr)]

theorem holding_newEmpty : Holding .newEmpty [] .leaf := by
  refine ⟨⟨trivial, trivial, List.nodup_nil⟩, List.Pairwise.nil, rfl, ?_, rfl, .refl _, rfl⟩
  simp [addrs]

theorem Holding.toList_length (hr : Holding r devices t) : t.toList.length = r.made := by
  rw [hr.made, ← hr.perm.length_eq, List.length_map]

/-- **A device is added.** -/
theorem Holding.add (hr : Holding r devices t) (hpass : Passes r device) :
    ∃ r' t', r.add device = some r' ∧ Holding r' (devices ++ [device]) t' := by
  have hfresh : r.made ∉ addrs t := fun hmem => Nat.lt_irrefl _ (hr.below _ hmem)
  have hsize := hr.toList_length
  obtain ⟨h₁, hrun₁, hlinked, -⟩ := hr.links.addR hfresh device
    (show t.toList.length ≤ r.bound by rw [hsize]; exact Nat.le_succ _)
  have hord : Ordered (plug (searchPath (goLeft device) t [])
      (.node .red .leaf (r.made, device) .leaf)).toList := by
    rw [plug_newLeaf]
    exact ordered_insertLeaf hr.ordered
  have hlen := length_searchPath (goLeft device) t []
  obtain ⟨h₂, root, w, hrun₂, hw, hroot, hrep⟩ :=
    fixTree_of_repairable (r.bound + 1) hlinked rfl hord (hpass t hr.links hr.root) (by
      rw [BetterDeviceRegistry.bound]
      simp only [List.length_nil] at hlen
      omega)
  refine ⟨⟨h₂, r.made + 1, some root, r.length + 1⟩, w, ?_, hw, ?_, hroot.symm, fun a ha => ?_, ?_,
    ?_, ?_⟩
  · rw [← hr.root] at hrun₁
    simp [BetterDeviceRegistry.add, hrun₁, hrun₂]
  · rwa [hrep.toList_eq]
  · rw [plug_newLeaf] at hrep
    rcases (hrep.mem_addrs a).mp ha with rfl | ha
    · exact Nat.lt_succ_self _
    · exact Nat.lt_succ_of_lt (hr.below a ha)
  · simp [hr.made]
  · rw [plug_newLeaf] at hrep
    exact hrep.perm hr.perm
  · simp [hr.length]

theorem Holding.kept (hr : Holding r devices t) : Kept r devices := by
  have hsize : t.toList.length ≤ r.bound := by
    rw [hr.toList_length]
    exact Nat.le_succ _
  refine ⟨⟨t.toList.map Prod.snd, ?_, hr.perm, List.pairwise_map.mpr hr.ordered, ?_⟩,
    fun numericalId => ?_⟩
  · rw [BetterDeviceRegistry.walk, hr.root, walkInOrder_spec hr.links.tree hsize]
  · rw [hr.length, hr.perm.length_eq]
  · obtain ⟨found, hrun, hsome, hnone⟩ :=
      findR_ordered hr.links.tree hr.ordered hsize numericalId
    refine ⟨found, by rw [BetterDeviceRegistry.find, hr.root, hrun], ?_⟩
    cases hf : found with
    | none =>
      simp only [Option.isSome_none, Bool.false_eq_true, false_iff, not_exists, not_and]
      intro d hd
      obtain ⟨a, ha, rfl⟩ := List.mem_map.mp (hr.perm.mem_iff.mpr hd)
      exact hnone hf a ha
    | some d =>
      obtain ⟨hd, hid⟩ := hsome d hf
      exact iff_of_true rfl ⟨d, hr.perm.mem_iff.mp hd, hid⟩

/-! ### Runs -/

/-- The repair after each `add` keeps all nodes. -/
def AllPass : BetterDeviceRegistry → List IoTDevice → Prop
  | _, [] => True
  | r, device :: devices => Passes r device ∧ ∀ r', r.add device = some r' → AllPass r' devices

theorem Holding.addAll (hr : Holding r devices t) (new : List IoTDevice) (hpass : AllPass r new) :
    ∃ r' t', r.addAll new = some r' ∧ Holding r' (devices ++ new) t' := by
  induction new generalizing r devices t with
  | nil => exact ⟨r, t, rfl, by simpa using hr⟩
  | cons device new ih =>
    obtain ⟨hpass, hrest⟩ := hpass
    obtain ⟨r₁, t₁, hadd, hr₁⟩ := hr.add hpass
    obtain ⟨r₂, t₂, haddAll, hr₂⟩ := ih hr₁ (hrest r₁ hadd)
    exact ⟨r₂, t₂, by simp [BetterDeviceRegistry.addAll, hadd, haddAll],
      by rwa [List.append_assoc] at hr₂⟩

/-- **A registry keeps the devices**, if no repair is misled. No `unwrap` fails. -/
theorem kept_of_allPass (hpass : AllPass .newEmpty devices) :
    ∃ r, BetterDeviceRegistry.newEmpty.addAll devices = some r ∧ Kept r devices := by
  obtain ⟨r, t, hrun, hr⟩ := holding_newEmpty.addAll devices hpass
  exact ⟨r, hrun, hr.kept⟩

end Registries

end RustExample.DeviceRegistry
