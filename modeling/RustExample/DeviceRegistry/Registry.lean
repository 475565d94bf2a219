import RustExample.Foundation.RedBlack

/-!
# The red-black registry of devices

The nodes of the registry are linked with their children and with their parent. A device goes into
a new red node below a leaf; then the tree is repaired from the node up, by recolouring and
rotations that find their sides by comparing ids.

Source: `red_black_tree_example/src/lib.rs`.

* A shared node `Rc<RefCell<Node>>` is an address of a heap; nodes are never freed.
* A failed `unwrap` is `none`. A recursion or a loop that follows the links takes a bound on its
  length, and is `none` where the bound is too small.
* Ids and the length are natural numbers.
-/

namespace RustExample.DeviceRegistry

open RedBlack (Color)

/-- A device. -/
structure IoTDevice where
  numericalId : ℕ
  path : String
  address : String
  deriving DecidableEq

/-- A side of a node. -/
inductive RBOperation where
  | leftNode
  | rightNode
  deriving DecidableEq

/-- The other side. -/
def RBOperation.other : RBOperation → RBOperation
  | .leftNode => .rightNode
  | .rightNode => .leftNode

/-- A direction of a rotation. -/
inductive Rotation where
  | left
  | right
  deriving DecidableEq

/-- A node of the tree. -/
structure Node where
  color : Color
  dev : IoTDevice
  parent : Option ℕ
  left : Option ℕ
  right : Option ℕ
  deriving DecidableEq

namespace Node

/-- The child on a side. -/
def child (n : Node) : RBOperation → Option ℕ
  | .leftNode => n.left
  | .rightNode => n.right

/-- Sets the child on a side. -/
def setChild (n : Node) (side : RBOperation) (child : Option ℕ) : Node :=
  match side with
  | .leftNode => { n with left := child }
  | .rightNode => { n with right := child }

end Node

/-! ### The heap -/

/-- The nodes by their addresses. -/
abbrev Heap := ℕ → Option Node

namespace Heap

/-- Changes a node. -/
def modify (h : Heap) (a : ℕ) (f : Node → Node) : Heap := Function.update h a ((h a).map f)

/-- Sets a colour. -/
def setColor (h : Heap) (a : ℕ) (color : Color) : Heap := h.modify a fun n => { n with color }

/-- Sets a parent. -/
def setParent (h : Heap) (a : ℕ) (parent : Option ℕ) : Heap := h.modify a fun n => { n with parent }

/-- Sets a child. -/
def setChild (h : Heap) (a : ℕ) (side : RBOperation) (child : Option ℕ) : Heap :=
  h.modify a (·.setChild side child)

end Heap

/-- The side of `b` on which `a` belongs. -/
def check (a b : IoTDevice) : RBOperation :=
  if a.numericalId ≤ b.numericalId then .leftNode else .rightNode

/-! ### Insertion -/

/-- The tree and the new node below it; `fresh` is the address of the new node. -/
def addR (fresh : ℕ) (device : IoTDevice) : ℕ → Heap → Option ℕ → Option (Heap × Option ℕ × ℕ)
  | _, h, none =>
    some (Function.update h fresh (some ⟨.red, device, none, none, none⟩), some fresh, fresh)
  | 0, _, some _ => none
  | bound + 1, h, some n => do
    let node ← h n
    let side := check node.dev device
    let (h, newTree, new) ← addR fresh device bound h (node.child side)
    let newTree ← newTree
    some ((h.setParent newTree (some n)).setChild n side (some newTree), some n, new)

/-! ### Rotations -/

/-- The child `y` of `x` on a side takes the place of `x`, and `x` becomes its child on the other
side. Without a child the last `unwrap` fails. -/
def rotateUp (h : Heap) (x : ℕ) (side : RBOperation) : Option Heap := do
  let y := (← h x).child side
  let inner ← match y with
    | some y => (h y).map (·.child side.other)
    | none => some none
  let h := h.setChild x side inner
  let h ← match y with
    | some y => do
      let h := h.setParent y (← h x).parent
      match (← h y).child side.other with
      | some r => some (h.setParent r (some x))
      | none => some h
    | none => some h
  let nx ← h x
  let h ← match nx.parent with
    | some parent => do some (h.setChild parent (check (← h parent).dev nx.dev) y)
    | none => y.map fun y => h.setParent y none
  let y ← y
  some ((h.setChild y side.other (some x)).setParent x (some y))

/-- Rotates a node to a side. -/
def rotate (h : Heap) (node : ℕ) : Rotation → Option Heap
  | .right => rotateUp h node .leftNode
  | .left => rotateUp h node .rightNode

/-- The rotation towards the other side. -/
def RBOperation.rotation : RBOperation → Rotation
  | .leftNode => .right
  | .rightNode => .left

/-! ### Repair -/

/-- The colour of the parent. -/
def parentColor (h : Heap) (n : ℕ) : Option Color := do
  let parent ← (← h n).parent
  some (← h parent).color

/-- The uncle and its side, `none` inside without a grandparent. -/
def uncle (h : Heap) (n : ℕ) : Option (Option (Option ℕ × RBOperation)) := do
  match (← h n).parent with
  | none => some none
  | some parent =>
    let parent ← h parent
    match parent.parent with
    | none => some none
    | some grandparent =>
      let grandparent ← h grandparent
      match check grandparent.dev parent.dev with
      | .leftNode => some (some (grandparent.right, .rightNode))
      | .rightNode => some (some (grandparent.left, .leftNode))

/-- The uncle is red: recolour, and go on at the grandparent. -/
def recolourAt (h : Heap) (n uncle : ℕ) : Option (Heap × ℕ) := do
  let parent ← (← h n).parent
  let h := (h.setColor parent .black).setColor uncle .black
  let grandparent ← (← h parent).parent
  let h := h.setColor grandparent .red
  some (h, ← (← h parent).parent)

/-- What is done for all black uncles: the parent takes the place of the grandparent. -/
def rotateOuter (h : Heap) (n parent : ℕ) (outer : Rotation) : Option (Heap × ℕ) := do
  let h := h.setColor parent .black
  let h := h.setColor (← (← h parent).parent) .red
  let grandparent ← (← h (← (← h n).parent)).parent
  some (← rotate h grandparent outer, n)

/-- The uncle is black, on the given side: rotate, so that the node stays below a black parent. -/
def rotateAt (h : Heap) (n : ℕ) (which : RBOperation) : Option (Heap × ℕ) := do
  let parent ← (← h n).parent
  if check (← h parent).dev (← h n).dev = which then
    let n ← (← h n).parent
    let h ← rotate h n which.rotation
    rotateOuter h n (← (← h n).parent) which.other.rotation
  else rotateOuter h n parent which.other.rotation

/-- Whether the uncle is there and red. -/
def isRed (h : Heap) : Option ℕ → Option Bool
  | none => some false
  | some u => do some ((← h u).color == .red)

/-- The first loop of `fix_tree`, which ends at a node without a red parent. -/
def fixLoop : ℕ → Heap → ℕ → Option (Heap × ℕ)
  | 0, _, _ => none
  | bound + 1, h, n => do
    if (← h n).parent.isNone then some (h, n)
    else if (← parentColor h n) ≠ .red then some (h, n)
    else
      match ← uncle h n with
      | none => some (h, n)
      | some (u, which) =>
        let (h, n) ← match u, ← isRed h u with
          | some u, true => recolourAt h n u
          | _, _ => rotateAt h n which
        fixLoop bound h n

/-- The second loop of `fix_tree`, up to the root. -/
def climb : ℕ → Heap → ℕ → Option ℕ
  | 0, _, _ => none
  | bound + 1, h, n => do
    match (← h n).parent with
    | none => some n
    | some parent => climb bound h parent

/-- Repairs the colours after an insertion. -/
def fixTree (bound : ℕ) (h : Heap) (inserted : ℕ) : Option (Heap × ℕ) := do
  let (h, n) ← fixLoop bound h inserted
  let root ← climb bound h n
  some (h.setColor root .black, root)

/-! ### The registry -/

/-- The tree in its heap. -/
structure BetterDeviceRegistry where
  nodes : Heap
  /-- The number of nodes that were made, which are at the addresses below it. -/
  made : ℕ
  root : Option ℕ
  length : ℕ

namespace BetterDeviceRegistry

/-- A tree without nodes. -/
def newEmpty : BetterDeviceRegistry := ⟨fun _ => none, 0, none, 0⟩

/-- A bound for every walk along the links of the registry. -/
def bound (r : BetterDeviceRegistry) : ℕ := r.made + 1

/-- Adds a device and repairs the tree. -/
def add (r : BetterDeviceRegistry) (device : IoTDevice) : Option BetterDeviceRegistry := do
  let (h, _, new) ← addR r.made device r.bound r.nodes r.root
  let (h, root) ← fixTree (r.bound + 1) h new
  some ⟨h, r.made + 1, some root, r.length + 1⟩

/-- The red nodes with a red parent, and the least and largest number of black nodes of a path. -/
def validate (h : Heap) : ℕ → Option ℕ → Color → ℕ → Option (ℕ × ℕ × ℕ)
  | _, none, _, blackHeight => some (0, blackHeight, blackHeight)
  | 0, some _, _, _ => none
  | bound + 1, some n, parentColor, blackHeight => do
    let node ← h n
    let redRed := if parentColor = .red ∧ node.color = .red then 1 else 0
    let blackHeight := blackHeight + match node.color with
      | .black => 1
      | .red => 0
    let l ← validate h bound node.left node.color blackHeight
    let r ← validate h bound node.right node.color blackHeight
    some (redRed + l.1 + r.1, min l.2.1 r.2.1, max l.2.2 r.2.2)

/-- Checks the colours. -/
def isAValidRedBlackTree (r : BetterDeviceRegistry) : Option Bool := do
  let (redRed, blackHeightMin, blackHeightMax) ← validate r.nodes r.bound r.root .red 0
  some (redRed = 0 && blackHeightMin = blackHeightMax)

/-- Looks for an id below a node. -/
def findR (h : Heap) (numericalId : ℕ) : ℕ → Option ℕ → Option (Option IoTDevice)
  | _, none => some none
  | 0, some _ => none
  | bound + 1, some n => do
    let node ← h n
    if node.dev.numericalId = numericalId then some (some node.dev)
    else
      match check node.dev ⟨numericalId, "", ""⟩ with
      | .leftNode => findR h numericalId bound node.left
      | .rightNode => findR h numericalId bound node.right

/-- Looks for an id. -/
def find (r : BetterDeviceRegistry) (numericalId : ℕ) : Option (Option IoTDevice) :=
  findR r.nodes numericalId r.bound r.root

/-- The devices in the order in which they are visited. -/
def walkInOrder (h : Heap) : ℕ → Option ℕ → Option (List IoTDevice)
  | _, none => some []
  | 0, some _ => none
  | bound + 1, some n => do
    let node ← h n
    let l ← walkInOrder h bound node.left
    let r ← walkInOrder h bound node.right
    some (l ++ node.dev :: r)

/-- The devices in their order. -/
def walk (r : BetterDeviceRegistry) : Option (List IoTDevice) :=
  walkInOrder r.nodes r.bound r.root

/-- A registry to which devices were added one after the other. -/
def addAll : BetterDeviceRegistry → List IoTDevice → Option BetterDeviceRegistry
  | r, [] => some r
  | r, device :: devices => do (← r.add device).addAll devices

end BetterDeviceRegistry

end RustExample.DeviceRegistry
