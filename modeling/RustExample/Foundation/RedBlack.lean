import Mathlib.Data.List.Perm.Basic

/-!
# Red-black trees with a hole

A tree with a hole is the list of the frames above the hole, the innermost first. An insertion puts
a red node into a hole of a red-black tree; the repair moves a red node with a red parent up by
recolouring, or ends with a rotation.
-/

namespace RustExample.RedBlack

/-- The colour of a node. -/
inductive Color where
  | red
  | black
  deriving DecidableEq

/-- A tree with colours. -/
inductive Tree (α : Type*) where
  | leaf
  | node (color : Color) (left : Tree α) (value : α) (right : Tree α)

variable {α : Type*}

namespace Tree

/-- The colour of the root; a leaf is black. -/
def rootColor : Tree α → Color
  | leaf => .black
  | node c _ _ _ => c

/-- The values in their order. -/
def toList : Tree α → List α
  | leaf => []
  | node _ l a r => l.toList ++ a :: r.toList

/-- Makes the root black. -/
def blacken : Tree α → Tree α
  | leaf => leaf
  | node _ l a r => node .black l a r

/-- No red node has a red child, and every path to a leaf has `k` black nodes. -/
def Valid : Tree α → ℕ → Prop
  | leaf, k => k = 0
  | node .red l _ r, k => (l.Valid k ∧ l.rootColor = .black) ∧ r.Valid k ∧ r.rootColor = .black
  | node .black l _ r, k => ∃ j, k = j + 1 ∧ l.Valid j ∧ r.Valid j

@[simp] theorem toList_blacken (t : Tree α) : t.blacken.toList = t.toList := by
  cases t <;> rfl

@[simp] theorem rootColor_blacken (t : Tree α) : t.blacken.rootColor = .black := by
  cases t <;> rfl

theorem Valid.blacken {t : Tree α} {k : ℕ} (h : t.Valid k) (hred : t.rootColor = .red) :
    t.blacken.Valid (k + 1) := by
  cases t with
  | leaf => simp [rootColor] at hred
  | node c l a r =>
    obtain rfl : c = .red := hred
    exact ⟨k, rfl, h.1.1, h.2.1⟩

/-- A blackened tree is a red-black tree with a black root. -/
theorem Valid.exists_blacken {t : Tree α} {k : ℕ} (h : t.Valid k) : ∃ j, t.blacken.Valid j := by
  rcases hc : t.rootColor with _ | _
  · exact ⟨_, h.blacken hc⟩
  · cases t with
    | leaf => exact ⟨k, h⟩
    | node c l a r =>
      obtain rfl : c = .black := hc
      exact ⟨k, h⟩

end Tree

/-! ### Trees with a hole -/

/-- A node above a hole, and its other child. -/
structure Frame (α : Type*) where
  /-- Whether the hole is the left child. -/
  isLeft : Bool
  color : Color
  value : α
  sibling : Tree α

/-- The tree with its frame. -/
def Frame.attach (f : Frame α) (t : Tree α) : Tree α :=
  if f.isLeft then .node f.color t f.value f.sibling else .node f.color f.sibling f.value t

/-- The tree in its place. -/
def plug : List (Frame α) → Tree α → Tree α
  | [], t => t
  | f :: fs, t => plug fs (f.attach t)

/-- The values to the left of a hole. -/
def before : List (Frame α) → List α
  | [] => []
  | f :: fs => before fs ++ if f.isLeft then [] else f.sibling.toList ++ [f.value]

/-- The values to the right of a hole. -/
def after : List (Frame α) → List α
  | [] => []
  | f :: fs => (if f.isLeft then f.value :: f.sibling.toList else []) ++ after fs

theorem toList_plug (fs : List (Frame α)) (t : Tree α) :
    (plug fs t).toList = before fs ++ t.toList ++ after fs := by
  induction fs generalizing t with
  | nil => simp [plug, before, after]
  | cons f fs ih =>
    rw [plug, ih, before, after, Frame.attach]
    split_ifs <;> simp [Tree.toList]

/-- The colour of the node above a hole; above the root it counts as red. -/
def parentColor : List (Frame α) → Color
  | [] => .red
  | f :: _ => f.color

/-- The hole of a red-black tree with a black root, for a tree of black height `k`. -/
def Fits : List (Frame α) → ℕ → Prop
  | [], _ => True
  | f :: fs, k => f.sibling.Valid k ∧
    match f.color with
    | .red => f.sibling.rootColor = .black ∧ parentColor fs = .black ∧ Fits fs k
    | .black => Fits fs (k + 1)

variable {fs : List (Frame α)} {f p g : Frame α} {t : Tree α} {k : ℕ}

/-- **A red-black tree from a hole.** -/
theorem valid_plug (hfits : Fits fs k) (ht : t.Valid k)
    (hcolor : t.rootColor = .black ∨ parentColor fs = .black) :
    (∃ j, (plug fs t).Valid j) ∧ (plug fs t).rootColor = .black := by
  induction fs generalizing t k with
  | nil => exact ⟨⟨k, ht⟩, hcolor.resolve_right (by simp [parentColor])⟩
  | cons f fs ih =>
    obtain ⟨isLeft, c, a, sibling⟩ := f
    obtain ⟨hsibling, hfits⟩ := hfits
    cases c with
    | red =>
      obtain ⟨hblack, hparent, hfits⟩ := hfits
      have ht' : t.rootColor = .black := hcolor.resolve_right (by simp [parentColor])
      refine ih (k := k) hfits ?_ (.inr hparent)
      cases isLeft
      · exact ⟨⟨hsibling, hblack⟩, ht, ht'⟩
      · exact ⟨⟨ht, ht'⟩, hsibling, hblack⟩
    | black =>
      refine ih (k := k + 1) hfits ?_ ?_
      · cases isLeft
        · exact ⟨k, rfl, hsibling, ht⟩
        · exact ⟨k, rfl, ht, hsibling⟩
      · cases isLeft <;> exact .inl rfl

theorem Tree.Valid.of_plug (h : (plug fs t).Valid k) : ∃ j, t.Valid j := by
  induction fs generalizing t k with
  | nil => exact ⟨k, h⟩
  | cons f fs ih =>
    obtain ⟨j, hj⟩ := ih h
    obtain ⟨isLeft, c, a, sibling⟩ := f
    cases isLeft <;> cases c
    · exact ⟨j, hj.2.1⟩
    · obtain ⟨i, -, -, ht⟩ := hj
      exact ⟨i, ht⟩
    · exact ⟨j, hj.1.1⟩
    · obtain ⟨i, -, ht, -⟩ := hj
      exact ⟨i, ht⟩

theorem Tree.Valid.rootColor_of_plug (h : (plug (f :: fs) t).Valid k) (hred : f.color = .red) :
    t.rootColor = .black := by
  obtain ⟨j, hj⟩ := Tree.Valid.of_plug (show (plug fs (f.attach t)).Valid k from h)
  obtain ⟨isLeft, c, a, sibling⟩ := f
  obtain rfl : c = .red := hred
  cases isLeft
  · exact hj.2.2
  · exact hj.1.2

/-! ### The hole for a new value -/

/-- The hole at the end of a search; `goLeft a` tells where to go on from the value `a`. -/
def searchPath (goLeft : α → Bool) : Tree α → List (Frame α) → List (Frame α)
  | .leaf, fs => fs
  | .node c l a r, fs =>
    if goLeft a then searchPath goLeft l (⟨true, c, a, r⟩ :: fs)
    else searchPath goLeft r (⟨false, c, a, l⟩ :: fs)

/-- The tree with a new red node at the end of a search. -/
def insertLeaf (goLeft : α → Bool) (x : α) : Tree α → Tree α
  | .leaf => .node .red .leaf x .leaf
  | .node c l a r =>
    if goLeft a then .node c (insertLeaf goLeft x l) a r
    else .node c l a (insertLeaf goLeft x r)

theorem plug_searchPath (goLeft : α → Bool) (x : α) (t : Tree α) (fs : List (Frame α)) :
    plug (searchPath goLeft t fs) (.node .red .leaf x .leaf) = plug fs (insertLeaf goLeft x t) := by
  induction t generalizing fs with
  | leaf => rfl
  | node c l a r ihl ihr =>
    rw [searchPath, insertLeaf]
    split_ifs
    · exact ihl _
    · exact ihr _

theorem perm_toList_insertLeaf (goLeft : α → Bool) (x : α) (t : Tree α) :
    (insertLeaf goLeft x t).toList.Perm (x :: t.toList) := by
  induction t with
  | leaf => exact List.Perm.refl _
  | node c l a r ihl ihr =>
    rw [insertLeaf]
    split_ifs
    · exact ihl.append_right _
    · exact (List.Perm.append_left _ (ihr.cons a)).trans
        ((List.Perm.append_left _ (List.Perm.swap x a _)).trans List.perm_middle)

theorem fits_searchPath (goLeft : α → Bool) (hfits : Fits fs k) (ht : t.Valid k)
    (hcolor : t.rootColor = .black ∨ parentColor fs = .black) :
    Fits (searchPath goLeft t fs) 0 := by
  induction t generalizing fs k with
  | leaf =>
    obtain rfl : k = 0 := ht
    exact hfits
  | node c l a r ihl ihr =>
    rw [searchPath]
    cases c with
    | red =>
      obtain ⟨⟨hl, hlc⟩, hr, hrc⟩ := ht
      have hparent : parentColor fs = .black := hcolor.resolve_left (by simp [Tree.rootColor])
      split_ifs
      · exact ihl (k := k) ⟨hr, hrc, hparent, hfits⟩ hl (.inl hlc)
      · exact ihr (k := k) ⟨hl, hlc, hparent, hfits⟩ hr (.inl hrc)
    | black =>
      obtain ⟨j, rfl, hl, hr⟩ := ht
      split_ifs
      · exact ihl (k := j) ⟨hr, hfits⟩ hl (.inr rfl)
      · exact ihr (k := j) ⟨hl, hfits⟩ hr (.inr rfl)

/-! ### Repairs -/

/-- A red node under a red parent with a red uncle: both become black, the grandparent red. -/
def recolour (p g : Frame α) (t : Tree α) : Tree α :=
  ({ g with color := .red, sibling := g.sibling.blacken } : Frame α).attach
    (({ p with color := .black } : Frame α).attach t)

/-- The frame of the other child. -/
def Frame.turn (f : Frame α) (t : Tree α) : Frame α := ⟨!f.isLeft, f.color, f.value, t⟩

@[simp] theorem Frame.attach_turn (f : Frame α) (t : Tree α) :
    (f.turn t).attach f.sibling = f.attach t := by
  rw [attach, attach, turn]
  cases f.isLeft <;> rfl

/-- A rotation exchanges two frames of different sides. -/
theorem toList_swap (hside : f.isLeft ≠ g.isLeft) (t : Tree α) :
    (g.attach (f.attach t)).toList = (f.attach (g.attach t)).toList := by
  obtain ⟨fl, fc, fa, fs⟩ := f
  obtain ⟨gl, gc, ga, gs⟩ := g
  cases fl <;> cases gl <;> simp [Frame.attach, Tree.toList] at hside ⊢

/-- A red node under a red parent on the same side, whose uncle is black: the grandparent goes below
the parent, and the colours are exchanged. The frame is what is above then. -/
def rotated (p g : Frame α) : Frame α :=
  ⟨p.isLeft, .black, p.value, ({ g with color := .red } : Frame α).attach p.sibling⟩

theorem toList_recolour (p g : Frame α) (t : Tree α) :
    (recolour p g t).toList = (g.attach (p.attach t)).toList := by
  simp only [recolour, Frame.attach]
  split_ifs <;> simp [Tree.toList]

theorem toList_rotated (hside : p.isLeft = g.isLeft) (t : Tree α) :
    ((rotated p g).attach t).toList = (g.attach (p.attach t)).toList := by
  obtain ⟨pl, pc, pa, ps⟩ := p
  obtain ⟨gl, gc, ga, gs⟩ := g
  cases pl <;> cases gl <;> simp [rotated, Frame.attach, Tree.toList] at hside ⊢

/-- What the hole below a red parent tells: the grandparent is black. -/
theorem Fits.of_red (hfits : Fits (p :: g :: fs) k) (hp : p.color = .red) :
    p.sibling.Valid k ∧ p.sibling.rootColor = .black ∧ g.color = .black ∧ g.sibling.Valid k ∧
      Fits fs (k + 1) := by
  obtain ⟨hps, hfits⟩ := hfits
  simp only [hp, parentColor] at hfits
  obtain ⟨hpc, hg, hgs, hfits⟩ := hfits
  simp only [hg] at hfits
  exact ⟨hps, hpc, hg, hgs, hfits⟩

/-- Recolouring moves the red node up to the grandparent. -/
theorem recolour_valid (hfits : Fits (p :: g :: fs) k) (ht : t.Valid k) (hp : p.color = .red)
    (hu : g.sibling.rootColor = .red) :
    (recolour p g t).Valid (k + 1) ∧ (recolour p g t).rootColor = .red ∧ Fits fs (k + 1) := by
  obtain ⟨hps, -, -, hgs, hfits⟩ := hfits.of_red hp
  have hparent : (({ p with color := .black } : Frame α).attach t).Valid (k + 1) := by
    rw [Frame.attach]
    split_ifs
    · exact ⟨k, rfl, ht, hps⟩
    · exact ⟨k, rfl, hps, ht⟩
  have hblack : (({ p with color := .black } : Frame α).attach t).rootColor = .black := by
    rw [Frame.attach]
    split_ifs <;> rfl
  have huncle := hgs.blacken hu
  refine ⟨?_, ?_, hfits⟩
  · rw [recolour, Frame.attach]
    split_ifs
    · exact ⟨⟨hparent, hblack⟩, huncle, g.sibling.rootColor_blacken⟩
    · exact ⟨⟨huncle, g.sibling.rootColor_blacken⟩, hparent, hblack⟩
  · rw [recolour, Frame.attach]
    split_ifs <;> rfl

/-- Rotating a red node and its red parent on different sides gives such a pair on one side. -/
theorem Fits.swap (hfits : Fits (p :: g :: fs) k) (hp : p.color = .red) (ht : (f.attach t).Valid k)
    (hf : f.color = .red) :
    Fits (f :: g :: fs) k ∧ (p.attach t).Valid k ∧ (p.attach t).rootColor = .red := by
  obtain ⟨hps, hpc, hg, hgs, hfs⟩ := hfits.of_red hp
  obtain ⟨hsibling, htv⟩ : (f.sibling.Valid k ∧ f.sibling.rootColor = .black) ∧
      t.Valid k ∧ t.rootColor = .black := by
    rw [Frame.attach, hf] at ht
    split_ifs at ht
    · exact ⟨ht.2, ht.1⟩
    · exact ht
  refine ⟨?_, ?_, ?_⟩
  · simp only [Fits, hf, parentColor, hg]
    exact ⟨hsibling.1, hsibling.2, trivial, hgs, hfs⟩
  · rw [Frame.attach, hp]
    split_ifs
    · exact ⟨htv, hps, hpc⟩
    · exact ⟨⟨hps, hpc⟩, htv⟩
  · rw [Frame.attach, hp]
    split_ifs <;> rfl

theorem Fits.rotated (hfits : Fits (p :: g :: fs) k) (hp : p.color = .red)
    (hu : g.sibling.rootColor = .black) : Fits (rotated p g :: fs) k := by
  obtain ⟨hps, hpc, -, hgs, hfs⟩ := hfits.of_red hp
  refine ⟨?_, hfs⟩
  rw [RedBlack.rotated, Frame.attach]
  split_ifs
  · exact ⟨⟨hps, hpc⟩, hgs, hu⟩
  · exact ⟨⟨hgs, hu⟩, hps, hpc⟩

end RustExample.RedBlack
