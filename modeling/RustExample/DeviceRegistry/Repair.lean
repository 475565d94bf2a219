import RustExample.DeviceRegistry.Links

/-!
# The repair of the registry

A new red node may have a red parent. The loop moves it up by recolouring or ends with a rotation:
each round is the repair of the tree that the nodes hold.
-/

namespace RustExample.DeviceRegistry

open RedBlack List

variable {h h' : Heap} {fs : List (Frame Entry)} {f g p : Frame Entry} {a : Entry}
  {t : RedBlack.Tree Entry} {n k : ℕ}

/-! ### Reading the nodes around a subtree -/

theorem topEntry_of_addr (hn : addr t = some n) : ∃ a, topEntry t = some a ∧ a.1 = n := by
  cases t with
  | leaf => simp [addr] at hn
  | node c l a r => exact ⟨a, rfl, by simpa [addr] using hn⟩

theorem mem_toList_of_topEntry (ha : topEntry t = some a) : a ∈ t.toList := by
  cases t with
  | leaf => simp [topEntry] at ha
  | node c l b r =>
    obtain rfl : b = a := by simpa [topEntry] using ha
    simp [RedBlack.Tree.toList]

theorem mem_toList_attach (f : Frame Entry) (t : RedBlack.Tree Entry) :
    f.value ∈ (f.attach t).toList := mem_toList_of_topEntry (topEntry_attach f t)

theorem Linked.top_node (ht : Linked h fs t) (ha : topEntry t = some a) :
    ∃ node, h a.1 = some node ∧ node.color = t.rootColor ∧ node.parent = topAddr fs ∧
      node.dev = a.2 := by
  cases t with
  | leaf => simp [topEntry] at ha
  | node c l b r =>
    obtain rfl : b = a := by simpa [topEntry] using ha
    exact ⟨_, ht.tree.1, rfl, rfl, rfl⟩

theorem Linked.exists_node (ht : Linked h fs t) (hn : addr t = some n) :
    ∃ node, h n = some node ∧ node.color = t.rootColor ∧ node.parent = topAddr fs ∧
      ∃ a ∈ t.toList, node.dev = a.2 := by
  obtain ⟨a, ha, rfl⟩ := topEntry_of_addr hn
  obtain ⟨node, hnode, hcolor, hparent, hdev⟩ := ht.top_node ha
  exact ⟨node, hnode, hcolor, hparent, a, mem_toList_of_topEntry ha, hdev⟩

theorem At.exists_node (ht : At h fs t) (hn : addr t = some n) :
    ∃ node, h n = some node ∧ node.color = t.rootColor ∧ node.parent = topAddr fs ∧
      ∃ a ∈ t.toList, node.dev = a.2 := ht.linked.exists_node hn

theorem Linked.parentColor_eq (ht : Linked h (f :: fs) t) (hn : addr t = some n) :
    parentColor h n = some f.color := by
  obtain ⟨node, hnode, -, hparent, -⟩ := ht.exists_node hn
  simp [parentColor, hnode, hparent, topAddr, ht.node_eq, toNode]

@[simp] theorem RBOperation.other_other (which : RBOperation) : which.other.other = which := by
  cases which <;> rfl

/-- The uncle is the other child than the one that the ids tell. -/
theorem Linked.uncle_eq (ht : Linked h (p :: g :: fs) t) (hn : addr t = some n) :
    uncle h n = some (some
      ((toNode g (topAddr fs) (some p.value.1)).child (check g.value.2 p.value.2).other,
        (check g.value.2 p.value.2).other)) := by
  obtain ⟨node, hnode, -, hparent, -⟩ := ht.exists_node hn
  rw [uncle, hnode]
  simp only [Option.bind_eq_bind, Option.bind_some, hparent, topAddr, ht.node_eq]
  simp only [toNode, (linked_cons.mp ht).node_eq, addr_attach, Option.bind_some]
  cases check g.value.2 p.value.2 <;> simp [RBOperation.other, Node.child]

theorem Linked.uncle_sibling (ht : Linked h (p :: g :: fs) t) (hn : addr t = some n)
    (hg : check g.value.2 p.value.2 = side g) :
    uncle h n = some (some (addr g.sibling, (side g).other)) := by
  rw [ht.uncle_eq hn, hg, child_other_toNode]

theorem Holds.isRed_eq {parent : Option ℕ} (ht : Holds h parent t) :
    isRed h (addr t) = some (t.rootColor == .red) := by
  cases t with
  | leaf => rfl
  | node c l a r =>
    rw [addr, isRed, ht.1]
    rfl

/-! ### What a repair keeps -/

theorem perm_addrs (t : RedBlack.Tree Entry) : (addrs t).Perm (t.toList.map Prod.fst) := by
  induction t with
  | leaf => exact List.Perm.refl _
  | node c l a r ihl ihr =>
    rw [RedBlack.Tree.toList, map_append, map_cons]
    exact ((ihl.append ihr).cons a.1).trans List.perm_middle.symm

theorem perm_addrs_plug (fs : List (Frame Entry)) (t : RedBlack.Tree Entry) :
    (addrs (plug fs t)).Perm (addrs t ++ pathAddrs fs) := by
  induction fs generalizing t with
  | nil => simp [plug, pathAddrs]
  | cons f fs ih =>
    refine (ih _).trans (((perm_addrs_attach f t).append_right _).trans ?_)
    simp [pathAddrs]

/-- A repair keeps the devices, with their addresses and in their order, and the other nodes. -/
structure Repairs (h : Heap) (w : RedBlack.Tree Entry) (h' : Heap) (w' : RedBlack.Tree Entry) :
    Prop where
  toList_eq : w'.toList = w.toList
  frame : ∀ a, a ∉ addrs w → h' a = h a

theorem Repairs.trans {h'' : Heap} {w w' w'' : RedBlack.Tree Entry} (hw : Repairs h w h' w')
    (hw' : Repairs h' w' h'' w'') : Repairs h w h'' w'' := by
  refine ⟨hw'.toList_eq.trans hw.toList_eq, fun a ha => ?_⟩
  have ha' : a ∉ addrs w' := by
    rwa [(perm_addrs w').mem_iff, hw.toList_eq, ← (perm_addrs w).mem_iff]
  rw [hw'.frame a ha', hw.frame a ha]

/-! ### One round -/

theorem Linked.setRootColor {c : Color} {l r : RedBlack.Tree Entry} {a : Entry}
    (ht : Linked h fs (.node c l a r)) (c' : Color) :
    Linked (h.setColor a.1 c') fs (.node c' l a r) := by
  have ht' : Linked h (⟨true, c, a, r⟩ :: fs) l := linked_cons.mpr ht
  exact linked_cons.mp (ht'.setColor c')

theorem At.of_repairs {fs' : List (Frame Entry)} {t' : RedBlack.Tree Entry} (ht : At h fs t)
    (hlinked : Linked h' fs' t') (hrep : Repairs h (plug fs t) h' (plug fs' t')) : At h' fs' t' :=
  at_iff.mpr ⟨hlinked, by
    rw [hrep.toList_eq]
    exact ht.descending⟩

theorem setColor_frame {a b : ℕ} {c : Color} (hab : a ≠ b) : h.setColor b c a = h a := by
  simp [hab]

/-- A red uncle: the red node is the grandparent now. -/
theorem Linked.recolourAt {u : ℕ} (ht : Linked h (p :: g :: fs) t) (hn : addr t = some n)
    (hu : addr g.sibling = some u) :
    ∃ h', recolourAt h n u = some (h', g.value.1) ∧ Linked h' fs (recolour p g t) ∧
      Repairs h (plug (p :: g :: fs) t) h' (plug fs (recolour p g t)) := by
  obtain ⟨node, hnode, -, hparent, -⟩ := ht.exists_node hn
  cases hg : g.sibling with
  | leaf => simp [hg, addr] at hu
  | node c l a r =>
    obtain rfl : a.1 = u := by simpa [hg, addr] using hu
    have h₁ := linked_turn.mp (linked_cons.mp (ht.setColor .black))
    rw [hg] at h₁
    have h₂ : Linked _ ({ g with sibling := .node .black l a r } :: fs) _ :=
      linked_turn.mpr (h₁.setRootColor .black)
    have h₃ := h₂.setColor .red
    refine ⟨((h.setColor p.value.1 .black).setColor a.1 .black).setColor g.value.1 .red, ?_, ?_, ?_,
      fun b hb => ?_⟩
    · simp only [DeviceRegistry.recolourAt, hnode, hparent, topAddr, Option.bind_eq_bind,
        Option.bind_some, (linked_cons.mpr h₂).node_eq, (linked_cons.mpr h₃).node_eq, toNode]
    · have h₄ := linked_cons.mp h₃
      rwa [recolour, hg]
    · rw [plug, plug, toList_plug, toList_plug, toList_recolour]
    · rw [(perm_addrs_plug _ _).mem_iff] at hb
      simp only [pathAddrs, hg, addrs, mem_append, mem_cons, not_or] at hb
      obtain ⟨-, hbp, -, hbg, ⟨hba, -⟩, -⟩ := hb
      rw [setColor_frame hbg, setColor_frame hba, setColor_frame hbp]

theorem Repairs.setColor (h : Heap) (f : Frame Entry) (fs : List (Frame Entry))
    (t : RedBlack.Tree Entry) (c : Color) :
    Repairs h (plug (f :: fs) t) (h.setColor f.value.1 c)
      (plug ({ f with color := c } :: fs) t) := by
  refine ⟨?_, fun b hb => setColor_frame ?_⟩
  · rw [toList_plug, toList_plug]
    rfl
  · rintro rfl
    refine hb ((perm_addrs_plug _ t).mem_iff.mpr (mem_append_right _ ?_))
    exact mem_pathAddrs_of_topAddr rfl

@[simp] theorem rotate_rotation (which : RBOperation) (h : Heap) (x : ℕ) :
    rotate h x which.rotation = rotateUp h x which := by
  cases which <;> rfl

/-- A red node below its parent on the side of the parent: the grandparent is rotated down. -/
theorem Linked.rotateOuter (ht : Linked h (p :: g :: fs) t) (hn : addr t = some n)
    (hside : p.isLeft = g.isLeft) (hattach : Attaches fs g.value.2) :
    ∃ h', rotateOuter h n p.value.1 (side g).rotation = some (h', n) ∧
      Linked h' (rotated p g :: fs) t ∧
      Repairs h (plug (p :: g :: fs) t) h' (plug (rotated p g :: fs) t) := by
  have h₁ := ht.setColor .black
  have h₂ := linked_cons.mpr ((linked_cons.mp h₁).setColor .red)
  obtain ⟨node, hnode, -, hparent, -⟩ := h₂.exists_node hn
  obtain ⟨h', hrun, h₃, hframe⟩ :=
    (linked_turn.mp h₂).rotateUp (by simp [Frame.turn, hside]) hattach
  refine ⟨h', ?_, ?_, ?_, fun b hb => ?_⟩
  · simp only [DeviceRegistry.rotateOuter, Option.bind_eq_bind, h₁.node_eq, Option.bind_some,
      toNode, topAddr, hnode, hparent, h₂.node_eq, rotate_rotation]
    exact congrArg (Option.bind · _) hrun
  · exact linked_turn.mpr (linked_cons.mp h₃)
  · rw [plug, plug, toList_plug, plug, toList_plug, toList_rotated hside]
  · rw [(perm_addrs_plug _ _).mem_iff] at hb
    simp only [pathAddrs, mem_append, mem_cons, not_or] at hb
    obtain ⟨hbt, hbp, hbps, hbg, hbgs, hbfs⟩ := hb
    rw [hframe b (by simp_all [pathAddrs, Frame.turn]), setColor_frame hbg, setColor_frame hbp]

theorem exists_attach (hn : addr t = some n) (isLeft : Bool) :
    ∃ (f : Frame Entry) (s : RedBlack.Tree Entry),
      f.attach s = t ∧ f.isLeft = isLeft ∧ f.color = t.rootColor ∧ f.value.1 = n := by
  cases t with
  | leaf => simp [addr] at hn
  | node c l a r =>
    obtain rfl : a.1 = n := by simpa [addr] using hn
    cases isLeft
    · exact ⟨⟨false, c, a, l⟩, r, rfl, rfl, rfl, rfl⟩
    · exact ⟨⟨true, c, a, r⟩, l, rfl, rfl, rfl, rfl⟩

/-- The parent is rotated to below the node, unless the node is on the side of its parent. -/
def Turns (p : Frame Entry) (t : RedBlack.Tree Entry) (q : Frame Entry) (t' : RedBlack.Tree Entry) :
    Prop :=
  q = p ∧ t' = t ∨ ∃ s, q.attach s = t ∧ q.color = t.rootColor ∧ t' = p.attach s

theorem Repairs.swap {s : RedBlack.Tree Entry} {q : Frame Entry} (hside : p.isLeft ≠ q.isLeft)
    (hframe : ∀ a, a ∉ addrs s ++ pathAddrs (q :: p :: fs) → h' a = h a) :
    Repairs h (plug (q :: p :: fs) s) h' (plug (p :: q :: fs) s) := by
  refine ⟨?_, fun b hb => hframe b fun hmem => hb ((perm_addrs_plug _ s).mem_iff.mpr hmem)⟩
  simp only [plug]
  rw [toList_plug, toList_plug, toList_swap hside.symm]

/-- A black uncle: the parent or the node takes the place of the grandparent. -/
theorem Linked.rotateAt (ht : Linked h (p :: g :: fs) t) (ha : topEntry t = some a)
    (hp : check p.value.2 a.2 = side p) (hg : check g.value.2 p.value.2 = side g)
    (hattach : Attaches fs g.value.2) :
    ∃ h' q t' b, rotateAt h a.1 (side g).other = some (h', b.1) ∧
      Linked h' (rotated q g :: fs) t' ∧ topEntry t' = some b ∧ Turns p t q t' ∧
      Repairs h (plug (p :: g :: fs) t) h' (plug (rotated q g :: fs) t') := by
  obtain ⟨node, hnode, -, hparent, hdev⟩ := ht.top_node ha
  rw [← hdev] at hp
  have hn := addr_of_topEntry ha
  by_cases hside : p.isLeft = g.isLeft
  · -- the node is on the side of its parent
    obtain ⟨h', hrun, h₁, hrep⟩ := ht.rotateOuter hn hside hattach
    refine ⟨h', p, t, a, ?_, h₁, ha, .inl ⟨rfl, rfl⟩, hrep⟩
    have hwhich : side p ≠ (side g).other := by
      cases hg : g.isLeft <;> simp [side, hside, hg, RBOperation.other]
    simp [DeviceRegistry.rotateAt, hnode, hparent, topAddr, ht.node_eq, toNode, hp, hwhich, hrun]
  · -- the parent is rotated first, to below the node
    obtain ⟨q, s, rfl, hqside, hqcolor, hq⟩ := exists_attach hn (!p.isLeft)
    have hqg : q.isLeft = g.isLeft := by
      cases hg : g.isLeft <;> simp_all
    have hqp : p.isLeft ≠ q.isLeft := by simp [hqside]
    obtain ⟨h₁, hrun₁, hat₁, hframe₁⟩ := (linked_cons.mpr ht).rotateUp hqp (by simpa [Attaches])
    obtain ⟨h₂, hrun₂, hat₂, hrep₂⟩ :=
      (linked_cons.mp hat₁).rotateOuter (addr_attach p s) hqg hattach
    refine ⟨h₂, q, p.attach s, p.value, ?_, hat₂, topEntry_attach p s,
      .inr ⟨s, rfl, hqcolor, rfl⟩, (Repairs.swap hqp hframe₁).trans hrep₂⟩
    have hwhich : (side g).other = side p := side_ne (Ne.symm hside)
    have houter : (side p).other = side g := side_ne hside
    simp [DeviceRegistry.rotateAt, hnode, hparent, topAddr, ht.node_eq, hp, hwhich, hrun₁,
      hat₁.node_eq, toNode, houter, hrun₂]

/-- A red node below its red parent, with a black uncle: a node is left that the loop ends at. -/
theorem At.rotateAt (ht : At h (p :: g :: fs) t) (hn : addr t = some n) (hp : p.color = .red)
    (hred : t.rootColor = .red) (hfits : Fits (p :: g :: fs) k) (hv : t.Valid k)
    (hu : g.sibling.rootColor = .black) :
    ∃ h' n' f' t', rotateAt h n (side g).other = some (h', n') ∧ At h' (f' :: fs) t' ∧
      addr t' = some n' ∧ f'.color = .black ∧ Fits (f' :: fs) k ∧ t'.Valid k ∧
      Repairs h (plug (p :: g :: fs) t) h' (plug (f' :: fs) t') := by
  obtain ⟨a, ha, rfl⟩ := topEntry_of_addr hn
  have htg := at_cons.mp ht
  obtain ⟨h', q, t', b, hrun, hlinked, hb, hturns, hrep⟩ := ht.linked.rotateAt ha
    (ht.check_eq (mem_toList_of_topEntry ha)) (htg.check_eq (mem_toList_attach p t))
    ((at_cons.mp htg).attaches (mem_toList_attach g _))
  obtain ⟨hfits', hv'⟩ : Fits (q :: g :: fs) k ∧ t'.Valid k := by
    rcases hturns with ⟨rfl, rfl⟩ | ⟨s, rfl, hq, rfl⟩
    · exact ⟨hfits, hv⟩
    · obtain ⟨hfits', hv', -⟩ := hfits.swap hp hv (hq.trans hred)
      exact ⟨hfits', hv'⟩
  have hq : q.color = .red := by
    rcases hturns with ⟨rfl, -⟩ | ⟨s, -, hq, -⟩
    · exact hp
    · exact hq.trans hred
  exact ⟨h', b.1, rotated q g, t', hrun, ht.of_repairs hlinked hrep, addr_of_topEntry hb, rfl,
    hfits'.rotated hq hu, hv', hrep⟩

/-! ### The loops -/

theorem Repairs.refl (h : Heap) (w : RedBlack.Tree Entry) : Repairs h w h w := ⟨rfl, fun _ _ => rfl⟩

/-- A node that the loop ends at: the root, or a node below a black one. -/
theorem Linked.fixLoop_end (ht : Linked h fs t) (hn : addr t = some n)
    (hblack : fs = [] ∨ RedBlack.parentColor fs = .black) (bound : ℕ) :
    fixLoop (bound + 1) h n = some (h, n) := by
  obtain ⟨node, hnode, -, hparent, -⟩ := ht.exists_node hn
  cases fs with
  | nil => simp [fixLoop, hnode, hparent, topAddr]
  | cons f fs =>
    have hf : f.color = .black := hblack.resolve_left (by simp)
    simp [fixLoop, hnode, ht.parentColor_eq hn, hf]

variable {which : RBOperation}

theorem Linked.fixLoop_recolour {u m : ℕ} (ht : Linked h (p :: g :: fs) t) (hn : addr t = some n)
    (hp : p.color = .red) (huncle : uncle h n = some (some (some u, which)))
    (hu : isRed h (some u) = some true) (hrun : DeviceRegistry.recolourAt h n u = some (h', m))
    (bound : ℕ) :
    fixLoop (bound + 1) h n = fixLoop bound h' m := by
  obtain ⟨node, hnode, -, hparent, -⟩ := ht.exists_node hn
  simp [fixLoop, hnode, hparent, topAddr, ht.parentColor_eq hn, hp, huncle, hu, hrun]

theorem Linked.fixLoop_rotate {u : Option ℕ} {m : ℕ} (ht : Linked h (p :: g :: fs) t)
    (hn : addr t = some n) (hp : p.color = .red) (huncle : uncle h n = some (some (u, which)))
    (hu : isRed h u = some false) (hrun : DeviceRegistry.rotateAt h n which = some (h', m))
    (bound : ℕ) :
    fixLoop (bound + 1) h n = fixLoop bound h' m := by
  obtain ⟨node, hnode, -, hparent, -⟩ := ht.exists_node hn
  cases u <;>
    simp [fixLoop, hnode, hparent, topAddr, ht.parentColor_eq hn, hp, huncle, hu, hrun]

theorem exists_addr_of_red (ht : t.rootColor = .red) : ∃ u, addr t = some u := by
  cases t with
  | leaf => simp [RedBlack.Tree.rootColor] at ht
  | node c l a r => exact ⟨a.1, rfl⟩

theorem red_of_ne_black {c : Color} (hc : c ≠ .black) : c = .red := by
  cases c with
  | red => rfl
  | black => exact (hc rfl).elim

/-- The first loop moves the red node up until its parent is not red. -/
theorem fixLoop_spec (bound : ℕ) (ht : At h fs t) (hn : addr t = some n) (hfits : Fits fs k)
    (hv : t.Valid k) (hred : t.rootColor = .red) (hbound : fs.length < bound) :
    ∃ h' n' fs' t', fixLoop bound h n = some (h', n') ∧ At h' fs' t' ∧ addr t' = some n' ∧
      (∃ j, (plug fs' t').Valid j) ∧ fs'.length ≤ fs.length ∧
      Repairs h (plug fs t) h' (plug fs' t') := by
  induction bound generalizing h fs t n k with
  | zero => omega
  | succ bound ih =>
    by_cases hblack : fs = [] ∨ RedBlack.parentColor fs = .black
    · refine ⟨h, n, fs, t, ht.linked.fixLoop_end hn hblack bound, ht, hn, ?_, Nat.le_refl _,
        .refl _ _⟩
      rcases hblack with rfl | hblack
      · exact ⟨k, hv⟩
      · exact (valid_plug hfits hv (.inr hblack)).1
    · obtain ⟨hne, hp⟩ := not_or.mp hblack
      obtain ⟨p, fs, rfl⟩ := exists_cons_of_ne_nil hne
      replace hp : p.color = .red := red_of_ne_black hp
      cases fs with
      | nil => simp [Fits, hp, RedBlack.parentColor] at hfits
      | cons g fs =>
        have hlen : (p :: g :: fs).length = fs.length + 2 := rfl
        have huncle :=
          ht.linked.uncle_sibling hn ((at_cons.mp ht).check_eq (mem_toList_attach p t))
        have hisRed := (at_cons.mp ht).path.2.1.isRed_eq
        cases hu : g.sibling.rootColor with
        | red =>
          obtain ⟨u, hu'⟩ := exists_addr_of_red hu
          rw [hu'] at huncle hisRed
          obtain ⟨h₁, hrun₁, hlinked₁, hrep₁⟩ := ht.linked.recolourAt hn hu'
          obtain ⟨hv₁, hred₁, hfits₁⟩ := recolour_valid hfits hv hp hu
          obtain ⟨h', n', fs', t', hrun, ht', hn', hv', hlen', hrep⟩ :=
            ih (ht.of_repairs hlinked₁ hrep₁) (addr_attach _ _) hfits₁ hv₁ hred₁ (by omega)
          refine ⟨h', n', fs', t', ?_, ht', hn', hv', by omega, hrep₁.trans hrep⟩
          rw [ht.linked.fixLoop_recolour hn hp huncle (by rw [hisRed, hu]; rfl) hrun₁, hrun]
        | black =>
          obtain ⟨h', n', f', t', hrun, ht', hn', hf', hfits', hv', hrep⟩ :=
            ht.rotateAt hn hp hred hfits hv hu
          obtain ⟨bound, rfl⟩ : ∃ b, bound = b + 1 := ⟨bound - 1, by omega⟩
          refine ⟨h', n', f' :: fs, t', ?_, ht', hn', (valid_plug hfits' hv' (.inr hf')).1, ?_,
            hrep⟩
          · rw [ht.linked.fixLoop_rotate hn hp huncle (by rw [hisRed, hu]; rfl) hrun,
              ht'.linked.fixLoop_end hn' (.inr hf')]
          · simp

theorem climb_spec (bound : ℕ) (ht : Linked h fs t) (hn : addr t = some n)
    (hbound : fs.length < bound) :
    ∃ root, climb bound h n = some root ∧ addr (plug fs t) = some root := by
  induction bound generalizing fs t n with
  | zero => omega
  | succ bound ih =>
    obtain ⟨node, hnode, -, hparent, -⟩ := ht.exists_node hn
    cases fs with
    | nil => exact ⟨n, by simp [climb, hnode, hparent, topAddr], hn⟩
    | cons f fs =>
      rw [length_cons] at hbound
      obtain ⟨root, hrun, hroot⟩ := ih (linked_cons.mp ht) (addr_attach f t) (by omega)
      exact ⟨root, by simpa [climb, hnode, hparent, topAddr] using hrun, hroot⟩

theorem climb_blacken (bound : ℕ) (ht : Linked h fs t) (hn : addr t = some n)
    (hbound : fs.length < bound) :
    ∃ root, climb bound h n = some root ∧ addr (plug fs t).blacken = some root ∧
      Linked (h.setColor root .black) [] (plug fs t).blacken ∧
      Repairs h (plug fs t) (h.setColor root .black) (plug fs t).blacken := by
  obtain ⟨root, hrun, hroot⟩ := climb_spec bound ht hn hbound
  have hroot' : addr (plug fs t).blacken = some root := by
    rw [← hroot]
    cases plug fs t <;> rfl
  refine ⟨root, hrun, hroot', ?_, RedBlack.Tree.toList_blacken _, fun a ha => setColor_frame ?_⟩
  · have hat := linked_plug.mp ht
    cases hw : plug fs t with
    | leaf => simp [hw, addr] at hroot
    | node c l a r =>
      obtain rfl : a.1 = root := by simpa [hw, addr] using hroot
      rw [hw] at hat
      exact hat.setRootColor .black
  · rintro rfl
    exact ha (mem_addrs_of_addr hroot)

/-- **The repair leaves a red-black tree.** No `unwrap` fails, and the devices are the same. -/
theorem fixTree_spec (bound : ℕ) (ht : At h fs t) (hn : addr t = some n) (hfits : Fits fs k)
    (hv : t.Valid k) (hred : t.rootColor = .red) (hbound : fs.length < bound) :
    ∃ h' root w, fixTree bound h n = some (h', root) ∧ At h' [] w ∧ addr w = some root ∧
      (∃ j, w.Valid j) ∧ w.rootColor = .black ∧ Repairs h (plug fs t) h' w := by
  obtain ⟨h₁, n', fs', t', hrun₁, ht₁, hn', ⟨j, hv₁⟩, hlen, hrep₁⟩ :=
    fixLoop_spec bound ht hn hfits hv hred hbound
  obtain ⟨root, hrun₂, hroot, hlinked, hrep₂⟩ := climb_blacken bound ht₁.linked hn' (by omega)
  refine ⟨h₁.setColor root .black, root, (plug fs' t').blacken, by simp [fixTree, hrun₁, hrun₂],
    (at_plug.mp ht₁).of_repairs hlinked hrep₂, hroot, hv₁.exists_blacken,
    RedBlack.Tree.rootColor_blacken _, hrep₁.trans hrep₂⟩

end RustExample.DeviceRegistry
