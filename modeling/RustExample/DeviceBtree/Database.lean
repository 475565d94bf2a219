import Mathlib.Algebra.Group.Nat.Defs
import Mathlib.Tactic.Common

/-!
# The B-tree database of devices

A node has devices, a child for every device, and one more child on the left. A device goes into a
leaf; a node that is full is split around its middle device, which goes up to the parent.

Source: `btree_example/src/lib.rs`.

* A failed `unwrap`, and an index that is out of bounds, is `none`. A recursion takes a bound on
  its depth, and is `none` where the bound is too small.
* The length, and the levels, are natural numbers; `usize` has 64 bits.
-/

namespace RustExample.DeviceBtree

/-- A device. -/
structure IoTDevice where
  numericalId : UInt64
  path : String
  address : String
  deriving DecidableEq

/-- Whether a node has children. -/
inductive NodeType where
  | leaf
  | regular
  deriving DecidableEq

/-- Where a key belongs. -/
inductive Direction where
  | left
  | right (index : ℕ)
  deriving DecidableEq

/-- The position after the closest key. -/
def Direction.after : Direction → ℕ
  | .left => 0
  | .right p => p + 1

/-- A node of the tree. -/
structure Node where
  devices : List (Option IoTDevice)
  children : List (Option Node)
  leftChild : Option Node
  nodeType : NodeType

/-- A device and the child on its right. -/
abbrev Data := Option IoTDevice × Option Node

/-! ### Vectors -/

/-- `Vec::insert`. -/
def insertAt {α : Type} (l : List α) (pos : ℕ) (a : α) : Option (List α) :=
  if pos ≤ l.length then some (l.take pos ++ a :: l.drop pos) else none

/-- `Vec::remove`. -/
def removeAt {α : Type} (l : List α) (pos : ℕ) : Option (α × List α) := do
  some (← l[pos]?, l.eraseIdx pos)

/-- `Vec::pop`. -/
def pop {α : Type} (l : List α) : Option (α × List α) := do
  some (← l.getLast?, l.dropLast)

/-! ### Nodes -/

namespace Node

/-- A node without keys. -/
def new (nodeType : NodeType) : Node := ⟨[], [], none, nodeType⟩

/-- The length of a node. -/
def len (node : Node) : ℕ := node.children.length + 1

/-- The loop of `find_closest_index` from the position `i` on. -/
def closestFrom (key : UInt64) : ℕ → Direction → List (Option IoTDevice) → Direction
  | _, index, [] => index
  | i, index, none :: devices => closestFrom key (i + 1) index devices
  | i, index, some dev :: devices =>
    if dev.numericalId ≤ key then closestFrom key (i + 1) (.right i) devices else index

/-- The child for a key. -/
def findClosestIndex (node : Node) (key : UInt64) : Direction :=
  closestFrom key 0 .left node.devices

/-- Puts a tree at the left. -/
def addLeftChild (node : Node) (tree : Option Node) : Node := { node with leftChild := tree }

/-- Puts a device in its place. -/
def addKey (node : Node) (key : UInt64) (value : Data) : Option Node := do
  let pos := (node.findClosestIndex key).after
  if pos ≥ node.devices.length then
    some { node with devices := node.devices ++ [value.1], children := node.children ++ [value.2] }
  else
    let devices ← insertAt node.devices pos value.1
    let children ← insertAt node.children pos value.2
    some { node with devices, children }

/-- The key and the data that were removed, and the node without them. -/
def removeKey (node : Node) (id : UInt64) : Option ((UInt64 × Data) × Node) := do
  match node.findClosestIndex id with
  | .left => some ((id, none, node.leftChild), { node with leftChild := none })
  | .right index =>
    let (dev, devices) ← removeAt node.devices index
    let (tree, children) ← removeAt node.children index
    some (((← dev).numericalId, dev, tree), { node with devices, children })

/-- The loop of `split`: the last keys go to the sibling. -/
def moveKeys : ℕ → Node → Node → Option (Node × Node)
  | 0, node, sibling => some (node, sibling)
  | n + 1, node, sibling => do
    let (device, devices) ← pop node.devices
    let (child, children) ← pop node.children
    let sibling ← sibling.addKey (← device).numericalId (device, child)
    moveKeys n { node with devices, children } sibling

/-- The device that goes up, the node on its left and the sibling on its right. -/
def split (node : Node) : Option (IoTDevice × Node × Node) := do
  let splitAt := node.devices.length / 2
  let (dev, devices) ← removeAt node.devices splitAt
  let (child, children) ← removeAt node.children splitAt
  let (node, sibling) ← moveKeys (devices.length - splitAt) { node with devices, children }
    (new node.nodeType)
  some (← dev, node, sibling.addLeftChild child)

/-- The device with a key. -/
def getDevice (node : Node) (key : UInt64) : Option IoTDevice :=
  node.devices.findSome? fun d => d.filter fun device => device.numericalId == key

/-- The child for a key; the index may be out of bounds. -/
def getChild (node : Node) (key : UInt64) : Option (Option Node) :=
  match node.findClosestIndex key with
  | .left => some node.leftChild
  | .right i => node.children[i]?

end Node

/-! ### The database -/

/-- The tree with its order. -/
structure DeviceDatabase where
  root : Option Node
  order : ℕ
  length : ℕ

namespace DeviceDatabase

/-- A tree without devices. -/
def newEmpty (order : ℕ) : DeviceDatabase := ⟨none, order, 0⟩

/-- The end of `add_r`: a node that is full is split, and a root gets a new parent. -/
def splitFull (order length : ℕ) (node : Node) (isRoot : Bool) :
    Option (Node × Option Data × ℕ) := do
  if node.len > order then
    let (newParent, node, sibling) ← node.split
    if isRoot then
      let parent := (Node.new .regular).addLeftChild (some node)
      let parent ← parent.addKey newParent.numericalId (some newParent, some sibling)
      some (parent, none, length)
    else some (node, some (some newParent, some sibling), length)
  else some (node, none, length)

/-- The tree with the device, what goes up beside it, and the new length. -/
def addR (order : ℕ) : ℕ → ℕ → Node → IoTDevice → Bool → Option (Node × Option Data × ℕ)
  | 0, _, _, _, _ => none
  | bound + 1, length, node, device, isRoot => do
    let id := device.numericalId
    let (node, length) ← match node.nodeType with
      | .leaf => do some (← node.addKey id (some device, none), length + 1)
      | .regular => do
        let ((key, dev, tree), node) ← node.removeKey id
        let (new, splitResult, length) ← addR order bound length (← tree) device false
        let node ← match dev with
          | none => some (node.addLeftChild (some new))
          | some dev => node.addKey key (some dev, some new)
        match splitResult with
        | none => some (node, length)
        | some splitResult => do
          some (← node.addKey (← splitResult.1).numericalId splitResult, length)
    splitFull order length node isRoot

/-- A bound for the depth of the tree. -/
def bound (db : DeviceDatabase) : ℕ := db.length + 1

/-- Adds a device, and splits a full root. -/
def add (db : DeviceDatabase) (device : IoTDevice) : Option DeviceDatabase := do
  let node := db.root.getD (Node.new .leaf)
  let (root, _, length) ← addR db.order db.bound db.length node device true
  some { db with root := some root, length }

/-- The totals with those of one more child. -/
def combineStats (stats : Node → Option (Bool × ℕ × ℕ)) (total : Bool × ℕ × ℕ) :
    Option Node → Option (Bool × ℕ × ℕ)
  | none => some total
  | some tree => do
    let stats ← stats tree
    some (total.1 && stats.1, min stats.2.1 total.2.1, max stats.2.2 total.2.2)

/-- The rules for the number of children, and the least and the largest level of the leaves. -/
def validate (order : ℕ) : ℕ → Node → ℕ → Option (Bool × ℕ × ℕ)
  | 0, _, _ => none
  | bound + 1, node, level =>
    match node.nodeType with
    | .leaf => some (node.len ≤ order, level, level)
    | .regular =>
      let minChildren := if level > 0 then order / 2 else 2
      let keyRules : Bool := node.len ≤ order && node.len ≥ minChildren
      (node.children ++ [node.leftChild]).foldlM
        (combineStats fun tree => validate order bound tree (level + 1))
        (keyRules, 2 ^ 64 - 1, level)

/-- Checks the levels from the root. -/
def isAValidBtree (db : DeviceDatabase) : Option Bool :=
  match db.root with
  | none => some false
  | some tree => do
    let total ← validate db.order db.bound tree 0
    some (total.1 && total.2.1 == total.2.2)

/-- Looks for a device below a node. -/
def findR (id : UInt64) : ℕ → Node → Option (Option IoTDevice)
  | 0, _ => none
  | bound + 1, node =>
    match node.getDevice id with
    | some device => some (some device)
    | none =>
      if node.nodeType ≠ .leaf then do
        match ← node.getChild id with
        | some tree => findR id bound tree
        | none => some none
      else some none

/-- Looks for a device. -/
def find (db : DeviceDatabase) (id : UInt64) : Option (Option IoTDevice) :=
  match db.root with
  | some tree => findR id db.bound tree
  | none => some none

/-- The walk of a child that may be missing. -/
def walkChild (walk : Node → Option (List IoTDevice)) : Option Node → Option (List IoTDevice)
  | some c => walk c
  | none => some []

/-- The devices in the order in which they are visited. -/
def walkInOrder : ℕ → Node → Option (List IoTDevice)
  | 0, _ => none
  | bound + 1, node => do
    let left ← walkChild (walkInOrder bound) node.leftChild
    (List.range node.devices.length).foldlM (fun visited i => do
      let device ← node.devices[i]?
      let below ← walkChild (walkInOrder bound) (← node.children[i]?)
      some (visited ++ device.toList ++ below)) left

/-- The devices in their order. -/
def walk (db : DeviceDatabase) : Option (List IoTDevice) :=
  match db.root with
  | some root => walkInOrder db.bound root
  | none => some []

/-- A database to which devices were added one after the other. -/
def addAll : DeviceDatabase → List IoTDevice → Option DeviceDatabase
  | db, [] => some db
  | db, device :: devices => do (← db.add device).addAll devices

end DeviceDatabase

end RustExample.DeviceBtree
