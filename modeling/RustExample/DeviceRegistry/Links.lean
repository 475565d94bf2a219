import RustExample.DeviceRegistry.Registry

/-!
# Linked nodes as trees

The nodes of a registry hold a tree: every node is at the address that its value names, with the
addresses of its children and of its parent. A tree with a hole is held by the nodes above the
hole, the last of which has the address of what is in the hole.
-/

namespace RustExample.DeviceRegistry

open RedBlack

/-- A device and the address of its node. -/
abbrev Entry := ℕ × IoTDevice

/-- The address of a tree. -/
def addr : RedBlack.Tree Entry → Option ℕ
  | .leaf => none
  | .node _ _ a _ => some a.1

/-- The device at the root, with its address. -/
def topEntry : RedBlack.Tree Entry → Option Entry
  | .leaf => none
  | .node _ _ a _ => some a

/-- The addresses in a tree. -/
def addrs : RedBlack.Tree Entry → List ℕ
  | .leaf => []
  | .node _ l a r => a.1 :: (addrs l ++ addrs r)

/-- The address of the node above a hole. -/
def topAddr : List (Frame Entry) → Option ℕ
  | [] => none
  | f :: _ => some f.value.1

/-- The addresses above a hole. -/
def pathAddrs : List (Frame Entry) → List ℕ
  | [] => []
  | f :: fs => f.value.1 :: (addrs f.sibling ++ pathAddrs fs)

/-- The side of the hole. -/
def side (f : Frame Entry) : RBOperation := if f.isLeft then .leftNode else .rightNode

/-- The node of a frame, under the given parent and with the given address in the hole. -/
def toNode (f : Frame Entry) (parent hole : Option ℕ) : Node where
  color := f.color
  dev := f.value.2
  parent
  left := if f.isLeft then hole else addr f.sibling
  right := if f.isLeft then addr f.sibling else hole

/-- The heap holds a tree below a parent. -/
def Holds (h : Heap) : Option ℕ → RedBlack.Tree Entry → Prop
  | _, .leaf => True
  | parent, .node c l a r =>
    h a.1 = some ⟨c, a.2, parent, addr l, addr r⟩ ∧ Holds h (some a.1) l ∧ Holds h (some a.1) r

/-- The heap holds what is above a hole. -/
def HoldsPath (h : Heap) : Option ℕ → List (Frame Entry) → Prop
  | _, [] => True
  | hole, f :: fs => h f.value.1 = some (toNode f (topAddr fs) hole) ∧
      Holds h (some f.value.1) f.sibling ∧ HoldsPath h (some f.value.1) fs

/-- The nodes of the tree `plug fs t`, at distinct addresses. -/
structure Linked (h : Heap) (fs : List (Frame Entry)) (t : RedBlack.Tree Entry) : Prop where
  tree : Holds h (topAddr fs) t
  path : HoldsPath h (addr t) fs
  nodup : (addrs t ++ pathAddrs fs).Nodup

/-- A node below the frames takes the place of the device on the side that its id tells. -/
def Attaches (fs : List (Frame Entry)) (device : IoTDevice) : Prop :=
  ∀ e ∈ fs.head?, check e.value.2 device = side e

/-- The devices on the left have larger ids. -/
def Descending (l : List Entry) : Prop :=
  l.Pairwise fun a b => b.2.numericalId < a.2.numericalId

/-- The devices on the left have ids that are not smaller. -/
def Ordered (l : List Entry) : Prop :=
  l.Pairwise fun a b => b.2.numericalId ≤ a.2.numericalId

/-- The nodes of the tree `plug fs t`, at distinct addresses and in the order of the ids. -/
structure At (h : Heap) (fs : List (Frame Entry)) (t : RedBlack.Tree Entry) : Prop where
  tree : Holds h (topAddr fs) t
  path : HoldsPath h (addr t) fs
  nodup : (addrs t ++ pathAddrs fs).Nodup
  descending : Descending (plug fs t).toList

variable {h h' : Heap} {fs : List (Frame Entry)} {f g : Frame Entry}
  {t : RedBlack.Tree Entry} {n : ℕ} {parent hole : Option ℕ}

/-! ### Nodes of frames -/

@[simp] theorem child_toNode : (toNode f parent hole).child (side f) = hole := by
  cases hf : f.isLeft <;> simp [toNode, side, Node.child, hf]

@[simp] theorem child_other_toNode :
    (toNode f parent hole).child (side f).other = addr f.sibling := by
  cases hf : f.isLeft <;> simp [toNode, side, Node.child, RBOperation.other, hf]

@[simp] theorem setChild_toNode (hole' : Option ℕ) :
    (toNode f parent hole).setChild (side f) hole' = toNode f parent hole' := by
  cases hf : f.isLeft <;> simp [toNode, side, Node.setChild, hf]

theorem side_ne (hside : f.isLeft ≠ g.isLeft) : (side f).other = side g := by
  cases hf : f.isLeft <;> cases hg : g.isLeft <;> simp [side, RBOperation.other, hf, hg] at hside ⊢

@[simp] theorem addr_attach (f : Frame Entry) (t : RedBlack.Tree Entry) :
    addr (f.attach t) = some f.value.1 := by
  rw [Frame.attach]
  split_ifs <;> rfl

@[simp] theorem topEntry_attach (f : Frame Entry) (t : RedBlack.Tree Entry) :
    topEntry (f.attach t) = some f.value := by
  rw [Frame.attach]
  split_ifs <;> rfl

theorem addr_of_topEntry {a : Entry} (ha : topEntry t = some a) : addr t = some a.1 := by
  cases t with
  | leaf => simp [topEntry] at ha
  | node c l b r =>
    obtain rfl : b = a := by simpa [topEntry] using ha
    rfl

theorem perm_addrs_attach (f : Frame Entry) (t : RedBlack.Tree Entry) :
    (addrs (f.attach t)).Perm (addrs t ++ f.value.1 :: addrs f.sibling) := by
  rw [Frame.attach]
  split_ifs
  · exact List.perm_middle.symm
  · exact (List.perm_append_comm.cons _).trans List.perm_middle.symm

theorem mem_addrs_of_addr (h : addr t = some n) : n ∈ addrs t := by
  cases t with
  | leaf => simp [addr] at h
  | node c l a r =>
    obtain rfl : a.1 = n := by simpa [addr] using h
    exact List.mem_cons_self

theorem mem_pathAddrs_of_topAddr (h : topAddr fs = some n) : n ∈ pathAddrs fs := by
  cases fs with
  | nil => simp [topAddr] at h
  | cons f fs =>
    obtain rfl : f.value.1 = n := by simpa [topAddr] using h
    exact List.mem_cons_self

/-! ### Frames of memory -/

theorem Holds.congr (ht : Holds h parent t) (hh : ∀ a ∈ addrs t, h' a = h a) :
    Holds h' parent t := by
  induction t generalizing parent with
  | leaf => trivial
  | node c l a r ihl ihr =>
    obtain ⟨ha, hl, hr⟩ := ht
    refine ⟨(hh _ List.mem_cons_self).trans ha, ihl hl fun b hb => hh b ?_,
      ihr hr fun b hb => hh b ?_⟩
    · exact List.mem_cons_of_mem _ (List.mem_append_left _ hb)
    · exact List.mem_cons_of_mem _ (List.mem_append_right _ hb)

theorem Holds.reparent (ht : Holds h parent t) (hnodup : (addrs t).Nodup) (parent' : Option ℕ)
    (hroot : ∀ a, addr t = some a → h' a = (h a).map fun n => { n with parent := parent' })
    (hrest : ∀ a ∈ addrs t, addr t ≠ some a → h' a = h a) : Holds h' parent' t := by
  cases t with
  | leaf => trivial
  | node c l a r =>
    obtain ⟨ha, hl, hr⟩ := ht
    obtain ⟨hnotMem, -⟩ := List.nodup_cons.mp hnodup
    have hchild : ∀ b ∈ addrs l ++ addrs r, h' b = h b := fun b hb =>
      hrest b (List.mem_cons_of_mem _ hb) fun hab => by
        obtain rfl : a.1 = b := by simpa [addr] using hab
        exact hnotMem hb
    refine ⟨?_, hl.congr fun b hb => hchild b (List.mem_append_left _ hb),
      hr.congr fun b hb => hchild b (List.mem_append_right _ hb)⟩
    rw [hroot _ rfl, ha]
    rfl

theorem HoldsPath.congr (hp : HoldsPath h hole fs) (hh : ∀ a ∈ pathAddrs fs, h' a = h a) :
    HoldsPath h' hole fs := by
  induction fs generalizing hole with
  | nil => trivial
  | cons f fs ih =>
    obtain ⟨hf, hs, hp⟩ := hp
    refine ⟨(hh _ List.mem_cons_self).trans hf, hs.congr fun a ha => hh a ?_,
      ih hp fun a ha => hh a ?_⟩
    · exact List.mem_cons_of_mem _ (List.mem_append_left _ ha)
    · exact List.mem_cons_of_mem _ (List.mem_append_right _ ha)

theorem HoldsPath.refill (hp : HoldsPath h hole fs) (hnodup : (pathAddrs fs).Nodup)
    (hole' : Option ℕ)
    (htop : ∀ f gs, fs = f :: gs → h' f.value.1 =
      (h f.value.1).map fun n => n.setChild (side f) hole')
    (hrest : ∀ a ∈ pathAddrs fs, topAddr fs ≠ some a → h' a = h a) : HoldsPath h' hole' fs := by
  cases fs with
  | nil => trivial
  | cons f fs =>
    obtain ⟨hf, hs, hp⟩ := hp
    obtain ⟨hnotMem, -⟩ := List.nodup_cons.mp hnodup
    have hother : ∀ b ∈ addrs f.sibling ++ pathAddrs fs, h' b = h b := fun b hb =>
      hrest b (List.mem_cons_of_mem _ hb) fun hab => by
        obtain rfl : f.value.1 = b := by simpa [topAddr] using hab
        exact hnotMem hb
    refine ⟨?_, hs.congr fun b hb => hother b (List.mem_append_left _ hb),
      hp.congr fun b hb => hother b (List.mem_append_right _ hb)⟩
    rw [htop f fs rfl, hf, Option.map_some, setChild_toNode]

/-! ### The view from a subtree -/

theorem holds_attach :
    Holds h parent (f.attach t) ↔ h f.value.1 = some (toNode f parent (addr t)) ∧
      Holds h (some f.value.1) t ∧ Holds h (some f.value.1) f.sibling := by
  obtain ⟨isLeft, c, a, s⟩ := f
  cases isLeft
  · exact and_congr_right fun _ => and_comm
  · exact Iff.rfl

/-- **The view from a subtree and from its parent.** -/
theorem linked_cons : Linked h (f :: fs) t ↔ Linked h fs (f.attach t) := by
  have hperm : (addrs (f.attach t) ++ pathAddrs fs).Perm (addrs t ++ pathAddrs (f :: fs)) := by
    refine ((perm_addrs_attach f t).append_right _).trans ?_
    simp [pathAddrs]
  constructor
  · rintro ⟨ht, ⟨hf, hs, hp⟩, hnodup⟩
    refine ⟨holds_attach.mpr ⟨hf, ht, hs⟩, ?_, hperm.nodup_iff.mpr hnodup⟩
    rwa [addr_attach]
  · rintro ⟨ht, hp, hnodup⟩
    obtain ⟨hf, ht, hs⟩ := holds_attach.mp ht
    rw [addr_attach] at hp
    exact ⟨ht, ⟨hf, hs, hp⟩, hperm.nodup_iff.mp hnodup⟩

theorem linked_turn : Linked h (f :: fs) t ↔ Linked h (f.turn t :: fs) f.sibling := by
  rw [linked_cons, linked_cons, Frame.attach_turn]

theorem linked_plug : Linked h fs t ↔ Linked h [] (plug fs t) := by
  induction fs generalizing t with
  | nil => exact Iff.rfl
  | cons f fs ih => exact linked_cons.trans ih

theorem Linked.node_eq (ht : Linked h (f :: fs) t) :
    h f.value.1 = some (toNode f (topAddr fs) (addr t)) := ht.path.1

theorem at_iff : At h fs t ↔ Linked h fs t ∧ Descending (plug fs t).toList :=
  ⟨fun ht => ⟨⟨ht.tree, ht.path, ht.nodup⟩, ht.descending⟩,
    fun ht => ⟨ht.1.tree, ht.1.path, ht.1.nodup, ht.2⟩⟩

theorem At.linked (ht : At h fs t) : Linked h fs t := (at_iff.mp ht).1

theorem at_cons : At h (f :: fs) t ↔ At h fs (f.attach t) := by
  rw [at_iff, at_iff, linked_cons]
  exact Iff.rfl

theorem at_plug : At h fs t ↔ At h [] (plug fs t) := by
  rw [at_iff, at_iff, linked_plug]
  exact Iff.rfl

theorem At.node_eq (ht : At h (f :: fs) t) :
    h f.value.1 = some (toNode f (topAddr fs) (addr t)) := ht.path.1

/-! ### Writes -/

@[simp] theorem Heap.setColor_apply (h : Heap) (a b : ℕ) (c : Color) :
    h.setColor a c b = if b = a then (h a).map fun n => { n with color := c } else h b :=
  Function.update_apply _ _ _ _

@[simp] theorem Heap.setParent_apply (h : Heap) (a b : ℕ) (p : Option ℕ) :
    h.setParent a p b = if b = a then (h a).map fun n => { n with parent := p } else h b :=
  Function.update_apply _ _ _ _

@[simp] theorem Heap.setChild_apply (h : Heap) (a b : ℕ) (s : RBOperation) (c : Option ℕ) :
    h.setChild a s c b = if b = a then (h a).map (·.setChild s c) else h b :=
  Function.update_apply _ _ _ _

@[simp] theorem Node.parent_setChild (n : Node) (s : RBOperation) (c : Option ℕ) :
    (n.setChild s c).parent = n.parent := by
  cases s <;> rfl

@[simp] theorem Node.dev_setChild (n : Node) (s : RBOperation) (c : Option ℕ) :
    (n.setChild s c).dev = n.dev := by
  cases s <;> rfl

@[simp] theorem Node.child_with_parent (n : Node) (s : RBOperation) (p : Option ℕ) :
    ({ n with parent := p } : Node).child s = n.child s := by
  cases s <;> rfl

/-- A rotation writes five nodes at most: `x`, its child `y`, the moved child of `y`, the parent. -/
theorem rotateUp_spec {x y : ℕ} {nx ny : Node} {s : RBOperation} (hx : h x = some nx)
    (hy : h y = some ny) (hxy : x ≠ y) (hchild : nx.child s = some y)
    (hr : ∀ r, ny.child s.other = some r → r ≠ x ∧ r ≠ y ∧ h r ≠ none)
    (hp : ∀ p, nx.parent = some p → p ≠ x ∧ p ≠ y ∧ ny.child s.other ≠ some p ∧ h p ≠ none) :
    ∃ h', rotateUp h x s = some h' ∧
      h' x = some { nx.setChild s (ny.child s.other) with parent := some y } ∧
      h' y = some (({ ny with parent := nx.parent } : Node).setChild s.other (some x)) ∧
      (∀ r, ny.child s.other = some r → h' r = (h r).map fun n => { n with parent := some x }) ∧
      (∀ p np, nx.parent = some p → h p = some np →
        h' p = some (np.setChild (check np.dev nx.dev) (some y))) ∧
      ∀ a, a ≠ x → a ≠ y → ny.child s.other ≠ some a → nx.parent ≠ some a → h' a = h a := by
  cases hinner : ny.child s.other with
  | none =>
    cases hparent : nx.parent with
    | none =>
      refine ⟨_, by
        simp [rotateUp, hx, hy, hchild, hinner, hparent, hxy, hxy.symm]
        rfl, by simp [hx, hxy], by simp [hy, hxy.symm], by simp, by simp, fun a hax hay _ _ => ?_⟩
      simp [hax, hay]
    | some p =>
      obtain ⟨hpx, hpy, -, hpn⟩ := hp p hparent
      obtain ⟨np, hnp⟩ := Option.ne_none_iff_exists'.mp hpn
      refine ⟨_, by
        simp [rotateUp, hx, hy, hchild, hinner, hparent, hxy, hxy.symm, hpx, hpy, hnp]
        rfl, by simp [hx, hxy, hpx.symm], by simp [hy, hxy.symm, hpy.symm], by simp, ?_, ?_⟩
      · rintro _ np' ⟨⟩ hnp'
        obtain ⟨⟩ := hnp.symm.trans hnp'
        simp [hpx, hpy, hnp]
      · intro a hax hay _ hap
        have hap : a ≠ p := fun h => hap (congrArg some h.symm)
        simp [hax, hay, hap]
  | some r =>
    obtain ⟨hrx, hry, hrn⟩ := hr r hinner
    obtain ⟨nr, hnr⟩ := Option.ne_none_iff_exists'.mp hrn
    cases hparent : nx.parent with
    | none =>
      refine ⟨_, by
        simp [rotateUp, hx, hy, hchild, hinner, hparent, hxy, hxy.symm, hrx.symm]
        rfl, by simp [hx, hxy, hrx.symm], by simp [hy, hxy.symm, hry.symm],
        by simp [hrx, hry, hnr], by simp, fun a hax hay har _ => ?_⟩
      have har : a ≠ r := fun h => har (congrArg some h.symm)
      simp [hax, hay, har]
    | some p =>
      obtain ⟨hpx, hpy, hpr, hpn⟩ := hp p hparent
      have hpr : p ≠ r := fun h => hpr (by rw [hinner, h])
      obtain ⟨np, hnp⟩ := Option.ne_none_iff_exists'.mp hpn
      refine ⟨_, by
        simp [rotateUp, hx, hy, hchild, hinner, hparent, hxy, hxy.symm, hpx, hpy, hnp, hrx.symm,
          hpr]
        rfl, by simp [hx, hxy, hpx.symm, hrx.symm],
        by simp [hy, hxy.symm, hpy.symm, hry.symm], by simp [hrx, hry, hnr, hpr.symm], ?_, ?_⟩
      · rintro _ np' ⟨⟩ hnp'
        obtain ⟨⟩ := hnp.symm.trans hnp'
        simp [hpx, hpy, hpr, hnp]
      · intro a hax hay har hap
        have har : a ≠ r := fun h => har (congrArg some h.symm)
        have hap : a ≠ p := fun h => hap (congrArg some h.symm)
        simp [hax, hay, har, hap]

/-! ### Order -/

/-- The side of a device below a frame is the one that its id tells. -/
theorem At.check_eq (ht : At h (f :: fs) t) {a : Entry} (ha : a ∈ t.toList) :
    check f.value.2 a.2 = side f := by
  have hdesc := ht.descending
  rw [Descending, toList_plug, before, after, List.append_assoc, List.append_assoc,
    List.pairwise_append, List.pairwise_append, List.pairwise_append] at hdesc
  rw [check, side]
  cases hf : f.isLeft with
  | true =>
    have hlt := hdesc.2.1.2.1.2.2 a ha f.value (by simp [hf])
    rw [if_pos rfl, if_pos (Nat.le_of_lt hlt)]
  | false =>
    have hlt := hdesc.2.1.2.2 f.value (by simp [hf]) a (List.mem_append_left _ ha)
    rw [if_neg (by omega), if_neg (by simp)]

/-- A node with a larger id is above the devices on its side. -/
theorem At.attaches (ht : At h fs t) {a : Entry} (ha : a ∈ t.toList) : Attaches fs a.2 := by
  intro e he
  obtain ⟨gs, rfl⟩ := List.head?_eq_some_iff.mp he
  exact ht.check_eq ha

theorem Linked.setColor (ht : Linked h (f :: fs) t) (c : Color) :
    Linked (h.setColor f.value.1 c) ({ f with color := c } :: fs) t := by
  have hnodup := ht.nodup
  rw [pathAddrs, List.nodup_append, List.nodup_cons] at hnodup
  obtain ⟨-, ⟨hf, -⟩, hdisj⟩ := hnodup
  have hrest : ∀ a, a ≠ f.value.1 → h.setColor f.value.1 c a = h a := fun a ha => by simp [ha]
  refine ⟨ht.tree.congr fun a ha => hrest a ?_, ⟨?_, ht.path.2.1.congr fun a ha => hrest a ?_,
    ht.path.2.2.congr fun a ha => hrest a ?_⟩, ht.nodup⟩
  · exact hdisj a ha _ List.mem_cons_self
  · simp [ht.node_eq, toNode]
  · rintro rfl
    exact hf (List.mem_append_left _ ha)
  · rintro rfl
    exact hf (List.mem_append_right _ ha)

/-! ### Rotations -/

theorem Holds.ne_none (ht : Holds h parent t) (hn : addr t = some n) : h n ≠ none := by
  cases t with
  | leaf => simp [addr] at hn
  | node c l a r =>
    obtain rfl : a.1 = n := by simpa [addr] using hn
    simp [ht.1]

theorem HoldsPath.ne_none (hp : HoldsPath h hole fs) (hn : topAddr fs = some n) : h n ≠ none := by
  cases fs with
  | nil => simp [topAddr] at hn
  | cons f fs =>
    obtain rfl : f.value.1 = n := by simpa [topAddr] using hn
    simp [hp.1]

/-- **A rotation exchanges two frames**: those of a node and of its child, above the child's child
on the other side. -/
theorem Linked.rotateUp (ht : Linked h (g :: f :: fs) t) (hside : f.isLeft ≠ g.isLeft)
    (hattach : Attaches fs f.value.2) :
    ∃ h', rotateUp h f.value.1 (side f) = some h' ∧ Linked h' (f :: g :: fs) t ∧
      ∀ a, a ∉ addrs t ++ pathAddrs (g :: f :: fs) → h' a = h a := by
  have htf := linked_cons.mp ht
  have hf : h f.value.1 = some (toNode f (topAddr fs) (some g.value.1)) := by
    rw [htf.node_eq, addr_attach]
  have hnodup := ht.nodup
  simp only [pathAddrs, List.nodup_append, List.nodup_cons, List.mem_append, List.mem_cons]
    at hnodup
  have hmoved : (toNode g (topAddr (f :: fs)) (addr t)).child (side f).other = addr t := by
    rw [side_ne hside, child_toNode]
  obtain ⟨h', hrun, hx, hy, hmove, htop, hrest⟩ := rotateUp_spec hf ht.node_eq
    (show f.value.1 ≠ g.value.1 by grind) child_toNode
    (fun r hr => by
      rw [hmoved] at hr
      have hmem := mem_addrs_of_addr hr
      exact ⟨by grind, by grind, ht.tree.ne_none hr⟩)
    (fun p hp => by
      have hmem := mem_pathAddrs_of_topAddr hp
      refine ⟨by grind, by grind, fun hpt => ?_, ht.path.2.2.2.2.ne_none hp⟩
      have hmem' := mem_addrs_of_addr (hmoved.symm.trans hpt)
      grind)
  rw [hmoved] at hx hmove hrest
  have hkeep : ∀ a, a ≠ f.value.1 → a ≠ g.value.1 → a ∉ addrs t → topAddr fs ≠ some a →
      h' a = h a := fun a haf hag hat hap =>
    hrest a haf hag (fun hat' => hat (mem_addrs_of_addr hat')) hap
  refine ⟨h', hrun, ⟨?_, ⟨?_, ?_, ?_, ?_, ?_⟩, ?_⟩, fun a ha => ?_⟩
  · refine ht.tree.reparent (by grind) _ hmove fun a ha hat => ?_
    refine hrest a (by grind) (by grind) hat fun hap => ?_
    have hmem : a ∈ pathAddrs fs := mem_pathAddrs_of_topAddr hap
    grind
  · rw [hx, setChild_toNode]
    rfl
  · refine ht.path.2.2.2.1.congr fun a ha => hkeep a (by grind) (by grind) (by grind) fun hap => ?_
    have hmem := mem_pathAddrs_of_topAddr hap
    grind
  · rw [hy, side_ne hside]
    exact congrArg some (@setChild_toNode g (topAddr fs) _ _)
  · refine ht.path.2.1.congr fun a ha => hkeep a (by grind) (by grind) (by grind) fun hap => ?_
    have hmem := mem_pathAddrs_of_topAddr hap
    grind
  · refine ht.path.2.2.2.2.refill (by grind) _ (fun e gs hfs => ?_) fun a ha hap => ?_
    · subst hfs
      have hte := linked_cons.mp htf
      have hcheck : check e.value.2 f.value.2 = side e := hattach e rfl
      rw [htop _ _ rfl hte.node_eq, hte.node_eq, Option.map_some]
      exact congrArg (fun s => some ((toNode e _ _).setChild s _)) hcheck
    · exact hkeep a (by grind) (by grind) (by grind) hap
  · refine List.Perm.nodup_iff ?_ |>.mp ht.nodup
    simp only [pathAddrs]
    refine List.Perm.append_left _ ?_
    grind
  · simp only [pathAddrs, List.mem_append, List.mem_cons] at ha
    refine hkeep a (by grind) (by grind) (by grind) fun hap => ?_
    have hmem := mem_pathAddrs_of_topAddr hap
    grind

end RustExample.DeviceRegistry
