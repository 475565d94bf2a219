import Mathlib.Data.List.Induction
import RustExample.DeviceBtree.Database
import RustExample.Foundation.BTreePlaced

/-!
# Nodes as levels of a B-tree

A node stands for entries, which are a device with the child on its right, and for the child on
the left. A key is placed behind the keys of a node that are not larger, and so behind those with
the same id; the keys of a node that is split are placed in the sibling one after the other, the
last one first. Among different ids every entry that is placed is in order already.
-/

namespace RustExample.DeviceBtree

open BTree DeviceDatabase List

/-- A device and the child on its right. -/
abbrev Entry := IoTDevice × Option Node

/-- The node of the given entries. -/
def level (leftChild : Option Node) (nodeType : NodeType) (entries : List Entry) : Node :=
  ⟨entries.map fun e => some e.1, entries.map Prod.snd, leftChild, nodeType⟩

/-- The node of a tree. -/
def toNode : (d : ℕ) → Tree IoTDevice d → Node
  | 0, vs => level none .leaf (List.map (fun a => (a, none)) vs)
  | d + 1, t => level (some (toNode d t.1)) .regular (t.2.map fun e => (e.1, some (toNode d e.2)))

theorem toNode_zero (vs : List IoTDevice) :
    toNode 0 vs = level none .leaf (vs.map fun a => (a, none)) := rfl

/-- The ids ascend. -/
def Ascending (devices : List IoTDevice) : Prop :=
  devices.Pairwise fun a b => a.numericalId < b.numericalId

/-- The device is not above a key. -/
def upTo (key : UInt64) (a : IoTDevice) : Bool := a.numericalId ≤ key

variable {key : UInt64} {lc : Option Node} {ty : NodeType} {left right : List Entry}

theorem upTo_eq_true {a : IoTDevice} : upTo key a = true ↔ a.numericalId ≤ key :=
  decide_eq_true_iff

theorem upTo_eq_false {a : IoTDevice} : upTo key a = false ↔ ¬a.numericalId ≤ key :=
  decide_eq_false_iff_not

/-- The id of a device as a number. -/
def idOf (a : IoTDevice) : ℕ := a.numericalId.toNat

theorem upTo_eq_notAbove (device : IoTDevice) :
    upTo device.numericalId = notAbove idOf device := by
  funext a
  exact decide_eq_decide.mpr UInt64.le_iff_toNat_le

variable {device : IoTDevice}

theorem upTo_eq_true_iff {a : IoTDevice} :
    upTo device.numericalId a = true ↔ idOf a ≤ idOf device := by
  rw [upTo_eq_notAbove, notAbove_iff]

theorem upTo_eq_false_iff {a : IoTDevice} :
    upTo device.numericalId a = false ↔ idOf device < idOf a := by
  rw [upTo_eq_notAbove, notAbove_eq_false_iff]

/-- The id of the key of an entry. -/
def keyOf {β : Type} (e : IoTDevice × β) : ℕ := idOf e.1

theorem ascending_iff {l : List IoTDevice} : Ascending l ↔ Climbs idOf l :=
  ⟨fun h => h.imp UInt64.lt_iff_toNat_lt.mp, fun h => h.imp UInt64.lt_iff_toNat_lt.mpr⟩

/-- A device with a new id comes between the smaller and the larger ids. -/
theorem ascending_inserted {l l' : List IoTDevice}
    (h : Inserted (upTo device.numericalId) device l l') (hl : Ascending l)
    (hnew : ∀ a ∈ l, a.numericalId ≠ device.numericalId) : Ascending l' := by
  rw [upTo_eq_notAbove] at h
  exact ascending_iff.mpr (h.climbs (ascending_iff.mp hl)
    fun a ha hid => hnew a ha (UInt64.toNat_inj.mp hid))

/-! ### The operations of a node -/

theorem closestFrom_append (i : ℕ) (index : Direction) (hleft : ∀ e ∈ left, upTo key e.1 = true)
    (hright : ∀ e ∈ right, upTo key e.1 = false) :
    Node.closestFrom key i index ((left ++ right).map fun e => some e.1) =
      if left = [] then index else .right (i + left.length - 1) := by
  induction left generalizing i index with
  | nil =>
    cases right with
    | nil => rfl
    | cons e right =>
      have he := upTo_eq_false.mp (hright e mem_cons_self)
      simp [Node.closestFrom, he]
  | cons e left ih =>
    have he := upTo_eq_true.mp (hleft e mem_cons_self)
    rw [cons_append, map_cons, Node.closestFrom, if_pos he,
      ih _ _ fun e he => hleft e (mem_cons_of_mem _ he)]
    cases left with
    | nil => simp
    | cons e' left =>
      simp only [length_cons, reduceCtorEq, if_false, Direction.right.injEq]
      omega

theorem findClosestIndex_level (hleft : ∀ e ∈ left, upTo key e.1 = true)
    (hright : ∀ e ∈ right, upTo key e.1 = false) :
    (level lc ty (left ++ right)).findClosestIndex key =
      if left = [] then .left else .right (left.length - 1) := by
  rw [Node.findClosestIndex, level, closestFrom_append 0 .left hleft hright, Nat.zero_add]

theorem insertAt_append {α : Type} (l r : List α) (a : α) :
    insertAt (l ++ r) l.length a = some (l ++ a :: r) := by
  rw [insertAt, if_pos (by simp)]
  simp

theorem removeAt_append {α : Type} (l r : List α) (a : α) :
    removeAt (l ++ a :: r) l.length = some (a, l ++ r) := by
  simp [removeAt, eraseIdx_append_of_length_le]

theorem pop_append {α : Type} (l : List α) (a : α) : pop (l ++ [a]) = some (a, l) := by
  simp [pop]

theorem addKey_level (hleft : ∀ e ∈ left, upTo key e.1 = true)
    (hright : ∀ e ∈ right, upTo key e.1 = false) (a : IoTDevice) (c : Option Node) :
    (level lc ty (left ++ right)).addKey key (some a, c) =
      some (level lc ty (left ++ (a, c) :: right)) := by
  have hpos : ((level lc ty (left ++ right)).findClosestIndex key).after = left.length := by
    rw [findClosestIndex_level hleft hright]
    cases left <;> simp [Direction.after]
  rw [Node.addKey, hpos]
  have hdevices :=
    insertAt_append (left.map fun e => some e.1) (right.map fun e => some e.1) (some a)
  have hchildren := insertAt_append (left.map Prod.snd) (right.map Prod.snd) c
  rw [length_map] at hdevices hchildren
  cases right with
  | nil => simp [level]
  | cons e right =>
    have hlt : ¬left.length ≥ (level lc ty (left ++ e :: right)).devices.length := by
      simp [level]
    simp only [level, map_append, map_cons] at hdevices hchildren hlt ⊢
    simp only [if_neg hlt, hdevices, hchildren, Option.bind_eq_bind, Option.bind_some]

/-- Below the first key the child on the left is taken. -/
theorem removeKey_level_nil {entries : List Entry} (h : ∀ e ∈ entries, upTo key e.1 = false) :
    (level lc ty entries).removeKey key = some ((key, none, lc), level none ty entries) := by
  have hindex : (level lc ty entries).findClosestIndex key = .left :=
    findClosestIndex_level (by simp : ∀ e ∈ ([] : List Entry), _) h
  rw [Node.removeKey, hindex]
  rfl

/-- The last of the keys up to an id is removed with its child. -/
theorem removeKey_level {a : IoTDevice} {c : Option Node}
    (hleft : ∀ e ∈ left, upTo key e.1 = true) (ha : upTo key a = true)
    (hright : ∀ e ∈ right, upTo key e.1 = false) :
    (level lc ty (left ++ (a, c) :: right)).removeKey key =
      some ((a.numericalId, some a, c), level lc ty (left ++ right)) := by
  have hindex : (level lc ty (left ++ (a, c) :: right)).findClosestIndex key =
      .right left.length := by
    have hleft' : ∀ e ∈ left ++ [(a, c)], upTo key e.1 = true := by
      intro e he
      rcases List.mem_append.mp he with he | he
      · exact hleft e he
      · rwa [List.mem_singleton.mp he]
    simpa using @findClosestIndex_level key lc ty _ _ hleft' hright
  have hdevices := removeAt_append (left.map fun e => some e.1) (right.map fun e => some e.1)
    (some a)
  have hchildren := removeAt_append (left.map Prod.snd) (right.map Prod.snd) c
  rw [length_map] at hdevices hchildren
  rw [Node.removeKey, hindex]
  simp [level, hdevices, hchildren]

theorem addKey_place {entries : List Entry} (h : Ascends keyOf entries) (a : IoTDevice)
    (c : Option Node) :
    (level lc ty entries).addKey a.numericalId (some a, c) =
      some (level lc ty (place keyOf (a, c) entries)) := by
  obtain ⟨left, right, rfl, heq, hleft, hright⟩ := exists_place (a, c) h
  rw [heq]
  exact addKey_level (fun e he => upTo_eq_true_iff.mpr (hleft e he))
    (fun e he => upTo_eq_false_iff.mpr (hright e he)) a c

/-- The keys that are popped are placed in the sibling. -/
theorem moveKeys_place {left : List Entry} (mid right : List Entry) (h : Ascends keyOf right) :
    Node.moveKeys mid.length (level lc ty (left ++ mid)) (level none ty right) =
      some (level lc ty left, level none ty (mid.foldr (place keyOf) right)) := by
  induction mid using List.reverseRecOn generalizing right with
  | nil => simp [Node.moveKeys]
  | append_singleton mid e ih =>
    have hadd : (level none ty right).addKey e.1.numericalId (some e.1, e.2) =
        some (level none ty (place keyOf e right)) := addKey_place h e.1 e.2
    have hdevices := pop_append ((left ++ mid).map fun e => some e.1) (some e.1)
    have hchildren := pop_append ((left ++ mid).map Prod.snd) e.2
    have hih := ih (place keyOf e right) (ascends_place e h)
    rw [length_append, length_singleton, Node.moveKeys, ← append_assoc,
      foldr_append]
    simp only [level, map_append, map_cons, map_nil] at hdevices hchildren hadd hih ⊢
    simp only [hdevices, hchildren, hadd, Option.bind_eq_bind, Option.bind_some]
    exact hih

/-- A node is split around the entry in the middle, and the sibling is gathered. -/
theorem split_gather {left right : List Entry} {a : IoTDevice} {c : Option Node}
    (hmiddle : left.length = (left ++ (a, c) :: right).length / 2) :
    (level lc ty (left ++ (a, c) :: right)).split =
      some (a, level lc ty left, level c ty (gather keyOf right)) := by
  have hlength : (level lc ty (left ++ (a, c) :: right)).devices.length / 2 = left.length := by
    rw [hmiddle, level, length_map]
  have hdevices := removeAt_append (left.map fun e => some e.1) (right.map fun e => some e.1)
    (some a)
  have hchildren := removeAt_append (left.map Prod.snd) (right.map Prod.snd) c
  rw [length_map] at hdevices hchildren
  have hmove := @moveKeys_place lc ty left right [] List.Pairwise.nil
  rw [← gather] at hmove
  simp only [Node.split, hlength]
  simp only [level, map_append, map_cons, map_nil] at hmove ⊢
  simp [hdevices, hchildren, Node.new, hmove, Node.addLeftChild]

/-! ### Insertion -/

/-- What `add_r` leaves of a node and what goes up, for a root in a new parent. -/
def grown (isRoot : Bool) (d : ℕ) (t : Tree IoTDevice d × Option (IoTDevice × Tree IoTDevice d)) :
    Node × Option Data :=
  match t.2 with
  | none => (toNode d t.1, none)
  | some (a, s) =>
    if isRoot then (toNode (d + 1) (t.1, [(a, s)]), none)
    else (toNode d t.1, some (some a, some (toNode d s)))

theorem grown_none {isRoot : Bool} {d : ℕ}
    {t : Tree IoTDevice d × Option (IoTDevice × Tree IoTDevice d)} (h : t.2 = none) :
    grown isRoot d t = (toNode d t.1, none) := by
  rw [grown, h]

theorem grown_some {d : ℕ} {t : Tree IoTDevice d × Option (IoTDevice × Tree IoTDevice d)}
    {a : IoTDevice} {s : Tree IoTDevice d} (h : t.2 = some (a, s)) :
    grown false d t = (toNode d t.1, some (some a, some (toNode d s))) := by
  rw [grown, h]
  rfl

variable {order : ℕ}

theorem splitFull_placed {γ : Type} (horder : 0 < order) (length : ℕ) (entries : List γ)
    (f : γ → Entry) (isRoot : Bool) :
    (cutPlaced (fun e => keyOf (f e)) order entries = (entries, none) ∧
      splitFull order length (level lc ty (entries.map f)) isRoot =
        some (level lc ty (entries.map f), none, length)) ∨
    ∃ l e r, cutPlaced (fun e => keyOf (f e)) order entries = (l, some (e, r)) ∧
      splitFull order length (level lc ty (entries.map f)) isRoot =
        some (if isRoot then
            (level (some (level lc ty (l.map f))) .regular
              [((f e).1, some (level (f e).2 ty (r.map f)))], none, length)
          else (level lc ty (l.map f), some (some (f e).1, some (level (f e).2 ty (r.map f))),
            length)) := by
  have hlen : (level lc ty (entries.map f)).len = entries.length + 1 := by
    simp [Node.len, level]
  rcases Nat.lt_or_ge entries.length order with hlt | hle
  · refine .inl ⟨cutPlaced_of_lt hlt, ?_⟩
    rw [splitFull, hlen, if_neg (by omega)]
  · obtain ⟨l, e, r, -, hcut, rfl, hl⟩ := cutPlaced_of_le hle horder fun e => keyOf (f e)
    refine .inr ⟨l, e, _, hcut, ?_⟩
    rw [splitFull, hlen, if_pos (by omega), map_gather, map_append,
      map_cons]
    have hsplit := @split_gather lc ty (l.map f) (r.map f) (f e).1 (f e).2 (by simpa using hl)
    rw [hsplit]
    cases isRoot
    · rfl
    · rfl

/-- The level of a first tree and the entries after it. -/
def regular (d : ℕ) (first : Tree IoTDevice d) (rest : List (IoTDevice × Tree IoTDevice d)) :
    Node :=
  level (some (toNode d first)) .regular (rest.map fun e => (e.1, some (toNode d e.2)))

/-- The key and the tree that go up from below are placed in the node. -/
theorem addKey_regular_place {d : ℕ} {first : Tree IoTDevice d}
    {rest : List (IoTDevice × Tree IoTDevice d)} (h : Ascends keyOf rest)
    (e : IoTDevice × Tree IoTDevice d) :
    (regular d first rest).addKey e.1.numericalId (some e.1, some (toNode d e.2)) =
      some (regular d first (place keyOf e rest)) := by
  have hmap : Ascends keyOf (rest.map fun e => ((e.1, some (toNode d e.2)) : Entry)) :=
    List.pairwise_map.mpr h
  have hadd := @addKey_place (some (toNode d first)) .regular _ hmap e.1 (some (toNode d e.2))
  have hplace := map_place (fun e : IoTDevice × Tree IoTDevice d =>
    ((e.1, some (toNode d e.2)) : Entry)) keyOf e rest
  rw [regular, hadd, ← hplace]
  rfl

theorem addR_regrow {d bound length : ℕ} {isRoot : Bool}
    {below : Tree IoTDevice d × Option (IoTDevice × Tree IoTDevice d)} (first : Tree IoTDevice d)
    {rest : List (IoTDevice × Tree IoTDevice d)} (hrest : Ascends keyOf rest)
    (hrec : addR order bound length
      (toNode d (childFor (notAbove idOf device) first rest)) device false =
        some ((grown false d below).1, (grown false d below).2, length + 1)) :
    addR order (bound + 1) length (regular d first rest) device isRoot =
      splitFull order (length + 1)
        (regular d (regrow idOf device below first rest).1
          (regrow idOf device below first rest).2) isRoot := by
  have htype : (regular d first rest).nodeType = .regular := rfl
  rw [addR, htype]
  dsimp only
  rcases regrow_cases first hrest with
    ⟨hright, hchild, heq⟩ | ⟨left, a, s, right, rfl, hleft, ha, hright, hchild, heq⟩
  · -- the device goes below the child on the left
    rw [hchild] at hrec
    have hremove := @removeKey_level_nil device.numericalId (some (toNode d first)) .regular
      (rest.map fun e => (e.1, some (toNode d e.2)))
      (List.forall_mem_map.mpr fun e he => upTo_eq_false_iff.mpr (hright e he))
    have hback : (level none .regular (rest.map fun e => (e.1, some (toNode d e.2)))).addLeftChild
        (some (toNode d below.1)) = regular d below.1 rest := rfl
    rw [heq, regular, hremove]
    simp only [Option.bind_eq_bind, Option.bind_some, hrec]
    rcases hup : below.2 with _ | e
    · rw [grown_none hup]
      simp only [hback]
      rfl
    · rw [grown_some hup]
      simp only [hback, Option.bind_some, addKey_regular_place hrest e]
      rfl
  · -- the device goes below the child of the last key up to it
    rw [hchild] at hrec
    have hremove := @removeKey_level device.numericalId (some (toNode d first)) .regular
      (left.map fun e => (e.1, some (toNode d e.2))) (right.map fun e => (e.1, some (toNode d e.2)))
      a (some (toNode d s))
      (List.forall_mem_map.mpr fun e he => upTo_eq_true_iff.mpr (hleft e he))
      (upTo_eq_true_iff.mpr ha)
      (List.forall_mem_map.mpr fun e he => upTo_eq_false_iff.mpr (hright e he))
    have hlea : ∀ e ∈ left, idOf e.1 ≤ idOf a := fun e he =>
      (List.pairwise_append.mp hrest).2.2 e he _ mem_cons_self
    have hback := @addKey_level a.numericalId (some (toNode d first)) .regular
      (left.map fun e => (e.1, some (toNode d e.2))) (right.map fun e => (e.1, some (toNode d e.2)))
      (List.forall_mem_map.mpr fun e he => upTo_eq_true_iff.mpr (hlea e he))
      (List.forall_mem_map.mpr fun e he => upTo_eq_false_iff.mpr (ha.trans_lt (hright e he)))
      a (some (toNode d below.1))
    have hkeys : Ascends keyOf (left ++ (a, below.1) :: right) := ascends_replace hrest below.1
    have hshape : level (some (toNode d first)) .regular
        ((left.map fun e => (e.1, some (toNode d e.2))) ++ (a, some (toNode d below.1)) ::
          right.map fun e => (e.1, some (toNode d e.2))) =
        regular d first (left ++ (a, below.1) :: right) := by
      rw [regular, map_append, map_cons]
    rw [heq, regular, map_append, map_cons, hremove]
    simp only [Option.bind_eq_bind, Option.bind_some, hrec]
    rcases hup : below.2 with _ | e
    · rw [grown_none hup]
      simp only [hback, hshape, Option.bind_some]
      rfl
    · rw [grown_some hup]
      simp only [hback, hshape, Option.bind_some, addKey_regular_place hkeys e]
      rfl

theorem addKey_leaf_place (device : IoTDevice) (vs : List IoTDevice) (h : Ascends idOf vs) :
    (toNode 0 vs).addKey device.numericalId (some device, none) =
      some (toNode 0 (place idOf device vs)) := by
  have hmap : Ascends keyOf (vs.map fun a => ((a, none) : Entry)) := List.pairwise_map.mpr h
  have hplace := map_place (fun a => ((a, none) : Entry)) keyOf device vs
  rw [toNode_zero, addKey_place hmap, ← hplace]
  rfl

/-- **`add_r` is the insertion that places its entries.** -/
theorem addR_placed (horder : 0 < order) (device : IoTDevice) (d : ℕ) (t : Tree IoTDevice d)
    (ht : Ascends idOf (toList d t)) (bound : ℕ) (hbound : d < bound) (length : ℕ) (isRoot : Bool) :
    addR order bound length (toNode d t) device isRoot =
      some ((grown isRoot d (insertPlaced idOf device order d t)).1,
        (grown isRoot d (insertPlaced idOf device order d t)).2, length + 1) := by
  induction d generalizing bound isRoot with
  | zero =>
    obtain ⟨bound, rfl⟩ : ∃ b, bound = b + 1 := ⟨bound - 1, by omega⟩
    have hadd := addKey_leaf_place device t ht
    have htype : (toNode 0 t).nodeType = .leaf := rfl
    have hstep : addR order (bound + 1) length (toNode 0 t) device isRoot =
        splitFull order (length + 1) (toNode 0 (place idOf device t)) isRoot := by
      rw [addR, htype]
      simp [hadd]
    rw [hstep, insertPlaced]
    generalize place idOf device t = vs
    rcases @splitFull_placed none .leaf _ _ horder (length + 1) vs
      (fun a => ((a, none) : Entry)) isRoot with ⟨hcut, hrun⟩ | ⟨l, e, r, hcut, hrun⟩
    · have hcut' : cutPlaced idOf order vs = (vs, none) := hcut
      rw [toNode_zero, hrun, hcut']
      rfl
    · have hcut' : cutPlaced idOf order vs = (l, some (e, r)) := hcut
      rw [toNode_zero, hrun, hcut']
      cases isRoot
      · rfl
      · rfl
  | succ d ih =>
    obtain ⟨bound, rfl⟩ : ∃ b, bound = b + 1 := ⟨bound - 1, by omega⟩
    have hkeys : Ascends keyOf t.2 := ascends_keys (List.pairwise_append.mp ht).2.1
    have hrec := ih _ (ht.sublist (childFor_sublist device ht)) bound (by omega) false
    have hstep := @addR_regrow _ _ _ _ _ isRoot _ t.1 t.2 hkeys hrec
    have hnode : toNode (d + 1) t = regular d t.1 t.2 := rfl
    rw [hnode, hstep, insertPlaced]
    generalize regrow idOf device
      (insertPlaced idOf device order d (childFor (notAbove idOf device) t.1 t.2)) t.1 t.2 = g
    obtain ⟨first', rest'⟩ := g
    dsimp only
    rcases @splitFull_placed (some (toNode d first')) .regular _ _ horder (length + 1) rest'
      (fun e => ((e.1, some (toNode d e.2)) : Entry)) isRoot with
      ⟨hcut, hrun⟩ | ⟨l, e, r, hcut, hrun⟩
    · have hcut' : cutPlaced (fun e => idOf e.1) order rest' = (rest', none) := hcut
      rw [regular, hrun, hcut']
      rfl
    · have hcut' : cutPlaced (fun e => idOf e.1) order rest' = (l, some (e, r)) := hcut
      rw [regular, hrun, hcut']
      cases isRoot
      · rfl
      · rfl

/-- Among different ids the insertion that places its entries is the one that does not. -/
theorem insertPlaced_eq (horder : 0 < order) (device : IoTDevice) (d : ℕ) (t : Tree IoTDevice d)
    (ht : Ascending (toList d t)) (hnew : ∀ a ∈ toList d t, a.numericalId ≠ device.numericalId) :
    insertPlaced idOf device order d t =
      BTree.insert (upTo device.numericalId) device order d t := by
  rw [upTo_eq_notAbove]
  exact insertPlaced_eq_insert horder device d t (ascending_iff.mp ht)
    fun a ha h => hnew a ha (UInt64.toNat_inj.mp h)

/-- **`add_r` is the insertion into a B-tree.** -/
theorem addR_spec (horder : 0 < order) (device : IoTDevice) (d : ℕ) (t : Tree IoTDevice d)
    (ht : Ascending (toList d t)) (hnew : ∀ a ∈ toList d t, a.numericalId ≠ device.numericalId)
    (bound : ℕ) (hbound : d < bound) (length : ℕ) (isRoot : Bool) :
    addR order bound length (toNode d t) device isRoot =
      some ((grown isRoot d (BTree.insert (upTo device.numericalId) device order d t)).1,
        (grown isRoot d (BTree.insert (upTo device.numericalId) device order d t)).2,
        length + 1) := by
  rw [← insertPlaced_eq horder device d t ht hnew]
  exact addR_placed horder device d t (ascending_iff.mp ht).ascends bound hbound length isRoot

end RustExample.DeviceBtree
