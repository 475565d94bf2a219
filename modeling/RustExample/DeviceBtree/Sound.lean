import RustExample.DeviceBtree.Levels

/-!
# What the database tells

The functions that read a database follow the links of its nodes. On the node of a B-tree they
tell what the tree tells: the check of its shape, a lookup, and a walk in the order of the ids.
-/

namespace RustExample.DeviceBtree

open DeviceDatabase List

section Reads

open BTree

variable {d bound : ℕ} {t : Tree IoTDevice d} {n : Node}

/-! ### The shape of the nodes -/

/-- A node of a tree of nodes. -/
inductive Within (n : Node) : Node → Prop
  | refl : Within n n
  | child {m c : Node} (hchild : some c ∈ m.children) (h : Within n c) : Within n m
  | left {m c : Node} (hchild : m.leftChild = some c) (h : Within n c) : Within n m

/-- A leaf at a depth below a node. -/
inductive LeafAt : Node → ℕ → Prop
  | leaf {n : Node} (hleaf : n.nodeType = .leaf) : LeafAt n 0
  | child {n c : Node} {k : ℕ} (hchild : some c ∈ n.children) (h : LeafAt c k) : LeafAt n (k + 1)
  | left {n c : Node} {k : ℕ} (hchild : n.leftChild = some c) (h : LeafAt c k) : LeafAt n (k + 1)

/-- A device is below a node. -/
def Keeps (c : Node) (a : IoTDevice) : Prop := ∃ n, Within n c ∧ some a ∈ n.devices

/-- Every device has a child, and the ids below a child are between the neighbouring ones. -/
structure WellFormed (n : Node) : Prop where
  filled : none ∉ n.devices
  length : n.devices.length = n.children.length
  left : ∀ c a (k : IoTDevice), n.leftChild = some c → Keeps c a →
    n.devices[0]? = some (some k) → a.numericalId < k.numericalId
  above : ∀ (i : ℕ) c a (k : IoTDevice), n.children[i]? = some (some c) → Keeps c a →
    n.devices[i]? = some (some k) → k.numericalId < a.numericalId
  below : ∀ (i : ℕ) c a (k : IoTDevice), n.children[i]? = some (some c) → Keeps c a →
    n.devices[i + 1]? = some (some k) → a.numericalId < k.numericalId

theorem not_mem_children_zero {vs : Tree IoTDevice 0} {c : Node} :
    some c ∉ (toNode 0 vs).children := by
  intro h
  obtain ⟨e, he, hc⟩ := List.mem_map.mp h
  obtain ⟨a, -, rfl⟩ := List.mem_map.mp he
  cases hc

theorem mem_children_succ {t : Tree IoTDevice (d + 1)} {c : Node} :
    some c ∈ (toNode (d + 1) t).children ↔ ∃ e ∈ t.2, toNode d e.2 = c := by
  simp [toNode, level]

/-- The devices of a node are values of the tree. -/
theorem mem_of_mem_devices {a : IoTDevice} (h : some a ∈ (toNode d t).devices) :
    a ∈ toList d t := by
  cases d with
  | zero =>
    obtain ⟨e, he, ha⟩ := List.mem_map.mp h
    obtain ⟨b, hb, rfl⟩ := List.mem_map.mp he
    exact Option.some.inj ha ▸ hb
  | succ d =>
    obtain ⟨e, he, ha⟩ := List.mem_map.mp h
    obtain ⟨f, hf, rfl⟩ := List.mem_map.mp he
    obtain rfl : f.1 = a := Option.some.inj ha
    exact mem_append_right _ ((keys_sublist _ _).subset (mem_map_of_mem hf))

/-- The nodes of a B-tree are B-trees of some of its values. -/
theorem Within.exists_tree (h : Within n (toNode d t)) :
    ∃ (e : ℕ) (s : Tree IoTDevice e), n = toNode e s ∧ (toList e s).Sublist (toList d t) := by
  induction d with
  | zero =>
    cases h with
    | refl => exact ⟨0, t, rfl, .refl _⟩
    | child hchild h => exact (not_mem_children_zero hchild).elim
    | left hchild h => simp [toNode, level] at hchild
  | succ d ih =>
    cases h with
    | refl => exact ⟨d + 1, t, rfl, .refl _⟩
    | child hchild h =>
      obtain ⟨e, he, rfl⟩ := mem_children_succ.mp hchild
      obtain ⟨k, s, rfl, hs⟩ := ih h
      exact ⟨k, s, rfl, hs.trans ((values_sublist (toList d) (mem_map_of_mem he)).trans
        (sublist_append_right _ _))⟩
    | left hchild h =>
      obtain rfl : toNode d t.1 = _ := Option.some.inj hchild
      obtain ⟨k, s, rfl, hs⟩ := ih h
      exact ⟨k, s, rfl, hs.trans (sublist_append_left _ _)⟩

theorem mem_of_keeps {a : IoTDevice} (h : Keeps (toNode d t) a) : a ∈ toList d t := by
  obtain ⟨n, hn, ha⟩ := h
  obtain ⟨e, s, rfl, hs⟩ := hn.exists_tree
  exact hs.subset (mem_of_mem_devices ha)

theorem LeafAt.depth_eq {k : ℕ} (h : LeafAt (toNode d t) k) : k = d := by
  induction d generalizing k with
  | zero =>
    cases h with
    | leaf hleaf => rfl
    | child hchild h => exact (not_mem_children_zero hchild).elim
    | left hchild h => simp [toNode, level] at hchild
  | succ d ih =>
    cases h with
    | leaf hleaf => simp [toNode, level] at hleaf
    | child hchild h =>
      obtain ⟨e, he, rfl⟩ := mem_children_succ.mp hchild
      rw [ih h]
    | left hchild h =>
      obtain rfl : toNode d t.1 = _ := Option.some.inj hchild
      rw [ih h]

theorem eq_append_of_getElem? {α : Type} {l : List α} {i : ℕ} {e : α} (h : l[i]? = some e) :
    ∃ left right, l = left ++ e :: right ∧ left.length = i := by
  obtain ⟨hi, rfl⟩ := List.getElem?_eq_some_iff.mp h
  refine ⟨l.take i, l.drop (i + 1), ?_, by rw [length_take]; omega⟩
  rw [← drop_eq_getElem_cons hi, take_append_drop]

theorem entry_of_key {t : Tree IoTDevice (d + 1)} {i : ℕ} {k : IoTDevice}
    (hk : (toNode (d + 1) t).devices[i]? = some (some k)) : ∃ s, t.2[i]? = some (k, s) := by
  simp only [toNode, level, map_map, getElem?_map, Option.map_eq_some_iff] at hk
  obtain ⟨⟨a, s⟩, he, hak⟩ := hk
  obtain rfl : a = k := Option.some.inj hak
  exact ⟨s, he⟩

theorem entry_of_child {t : Tree IoTDevice (d + 1)} {i : ℕ} {c : Node}
    (hc : (toNode (d + 1) t).children[i]? = some (some c)) :
    ∃ k s, t.2[i]? = some (k, s) ∧ toNode d s = c := by
  simp only [toNode, level, map_map, getElem?_map, Option.map_eq_some_iff] at hc
  obtain ⟨⟨k, s⟩, he, hsc⟩ := hc
  exact ⟨k, s, he, Option.some.inj hsc⟩

/-- The nodes of a B-tree with ascending ids are well formed. -/
theorem wellFormed_toNode (h : Ascending (toList d t)) : WellFormed (toNode d t) := by
  have hfilled : none ∉ (toNode d t).devices := by
    cases d <;> simp [toNode, level]
  have hlength : (toNode d t).devices.length = (toNode d t).children.length := by
    cases d <;> simp [toNode, level]
  cases d with
  | zero =>
    refine ⟨hfilled, hlength, fun c a k hc => ?_, fun i c a k hc => ?_, fun i c a k hc => ?_⟩
    · simp [toNode, level] at hc
    · exact (not_mem_children_zero (mem_of_getElem? hc)).elim
    · exact (not_mem_children_zero (mem_of_getElem? hc)).elim
  | succ d =>
    obtain ⟨-, hrest, hfirst⟩ := List.pairwise_append.mp h
    refine ⟨hfilled, hlength, fun c a k hc ha hk => ?_, fun i c a k hc ha hk => ?_,
      fun i c a k hc ha hk => ?_⟩
    · obtain rfl : toNode d t.1 = c := Option.some.inj hc
      obtain ⟨s, he⟩ := entry_of_key hk
      refine hfirst a (mem_of_keeps ha) k ((keys_sublist _ _).subset ?_)
      exact mem_map_of_mem (mem_of_getElem? he)
    · obtain ⟨k', s, he, rfl⟩ := entry_of_child hc
      obtain ⟨s', he'⟩ := entry_of_key hk
      obtain ⟨rfl, rfl⟩ := Prod.mk.inj (Option.some.inj (he.symm.trans he'))
      obtain ⟨left, right, heq, -⟩ := eq_append_of_getElem? he
      rw [heq, flat_append, flat_cons] at hrest
      have hcons := (List.pairwise_append.mp hrest).2.1
      exact (List.pairwise_cons.mp hcons).1 a (mem_append_left _ (mem_of_keeps ha))
    · obtain ⟨k', s, he, rfl⟩ := entry_of_child hc
      obtain ⟨s', he'⟩ := entry_of_key hk
      obtain ⟨left, right, heq, hlen⟩ := eq_append_of_getElem? he
      rw [heq, getElem?_append_right (by omega), hlen, Nat.add_sub_cancel_left,
        getElem?_cons_succ] at he'
      rw [heq, flat_append, flat_cons] at hrest
      have hcons := (List.pairwise_append.mp hrest).2.1
      have hs := (List.pairwise_append.mp (List.pairwise_cons.mp hcons).2).2.2
      refine hs a (mem_of_keeps ha) k ((keys_sublist _ _).subset ?_)
      exact mem_map_of_mem (mem_of_getElem? he')

theorem wellFormed_of_within (h : Ascending (toList d t)) (hn : Within n (toNode d t)) :
    WellFormed n := by
  obtain ⟨e, s, rfl, hs⟩ := hn.exists_tree
  exact wellFormed_toNode (h.sublist hs)

/-! ### The check of the shape -/

theorem foldlM_validate {stats : Node → Option (Bool × ℕ × ℕ)} {v : ℕ} (children : List Node)
    (hstats : ∀ c ∈ children, stats c = some (true, v, v)) (rules : Bool) {lo hi : ℕ}
    (hlo : v ≤ lo) (hhi : hi ≤ v) (hne : children ≠ []) :
    (children.map some).foldlM (combineStats stats) (rules, lo, hi) =
      some (rules, v, v) := by
  induction children generalizing lo hi with
  | nil => exact (hne rfl).elim
  | cons c children ih =>
    have hc := hstats c mem_cons_self
    rw [map_cons, foldlM_cons]
    simp only [combineStats, hc, Option.bind_eq_bind, Option.bind_some,
      Bool.and_true, Nat.min_eq_left hlo, Nat.max_eq_left hhi]
    cases children with
    | nil => rfl
    | cons c' children =>
      exact ih (fun c hc => hstats c (mem_cons_of_mem _ hc)) (Nat.le_refl v) (Nat.le_refl v)
        (by simp)

theorem len_toNode_zero (vs : List IoTDevice) : (toNode 0 vs).len = vs.length + 1 := by
  rw [toNode_zero, level, Node.len, length_map, length_map]

/-- **The check accepts a tree within the bounds,** whose leaves are all on one level. -/
theorem validate_spec {order root : ℕ} (horder : 3 ≤ order) (d : ℕ) (t : Tree IoTDevice d)
    (ht : Filled ((order - 1) / 2) (order - 1) root d t) (bound : ℕ) (hbound : d < bound)
    (lvl : ℕ) (hroot : (if lvl > 0 then order / 2 else 2) ≤ root + 1)
    (hlevel : lvl + d ≤ 2 ^ 64 - 1) :
    validate order bound (toNode d t) lvl = some (true, lvl + d, lvl + d) := by
  induction d generalizing bound lvl root with
  | zero =>
    obtain ⟨bound, rfl⟩ : ∃ b, bound = b + 1 := ⟨bound - 1, by omega⟩
    have hlen : (toNode 0 t).len ≤ order := by
      have hle := ht.2
      have hlen := len_toNode_zero t
      omega
    have htype : (toNode 0 t).nodeType = .leaf := rfl
    rw [validate, htype]
    simp [hlen]
  | succ d ih =>
    obtain ⟨bound, rfl⟩ : ∃ b, bound = b + 1 := ⟨bound - 1, by omega⟩
    obtain ⟨hroot', hle, hfirst, hrest⟩ := ht
    have hlen : (toNode (d + 1) t).len = t.2.length + 1 := by simp [toNode, level, Node.len]
    have htype : (toNode (d + 1) t).nodeType = .regular := rfl
    have hchildren : (toNode (d + 1) t).children ++ [(toNode (d + 1) t).leftChild] =
        (t.2.map (fun e => toNode d e.2) ++ [toNode d t.1]).map some := by
      simp [toNode, level]
    have hstats : ∀ c ∈ t.2.map (fun e => toNode d e.2) ++ [toNode d t.1],
        validate order bound c (lvl + 1) =
          some (true, lvl + 1 + d, lvl + 1 + d) := by
      intro c hc
      have hlo : (if lvl + 1 > 0 then order / 2 else 2) ≤ (order - 1) / 2 + 1 := by
        rw [if_pos (by omega)]
        omega
      rcases List.mem_append.mp hc with hc | hc
      · obtain ⟨e, he, rfl⟩ := List.mem_map.mp hc
        exact ih e.2 (hrest e he) bound (by omega) (lvl + 1) hlo (by omega)
      · obtain rfl := List.mem_singleton.mp hc
        exact ih t.1 hfirst bound (by omega) (lvl + 1) hlo (by omega)
    have hrules : ((toNode (d + 1) t).len ≤ order &&
        (toNode (d + 1) t).len ≥ if lvl > 0 then order / 2 else 2 : Bool) = true := by
      rw [hlen, Bool.and_eq_true, decide_eq_true_iff, decide_eq_true_iff]
      omega
    rw [validate, htype]
    dsimp only
    rw [hchildren, hrules, foldlM_validate _ hstats true (by omega) (by omega) (by simp)]
    congr 3 <;> omega

/-! ### The walk -/

/-- The loop of a walk, over the entries at the first `k` positions. -/
theorem foldlM_walk {γ : Type} {lc : Option Node} {ty : NodeType} (entries : List γ)
    (f : γ → Entry) {walk : Option Node → Option (List IoTDevice)} (visits : γ → List IoTDevice)
    (hwalk : ∀ e ∈ entries, walk (f e).2 = some (visits e)) (before : List IoTDevice) (k : ℕ)
    (hk : k ≤ entries.length) :
    (List.range k).foldlM (fun visited i => do
        let device ← (level lc ty (entries.map f)).devices[i]?
        let below ← walk (← (level lc ty (entries.map f)).children[i]?)
        some (visited ++ device.toList ++ below)) before =
      some (before ++ (entries.take k).flatMap fun e => (f e).1 :: visits e) := by
  induction k with
  | zero => simp
  | succ k ih =>
    have hlt : k < entries.length := hk
    have hvisit := hwalk entries[k] (getElem_mem hlt)
    have hdevice : (level lc ty (entries.map f)).devices[k]? = some (some (f entries[k]).1) := by
      simp [level, hlt]
    have hchild : (level lc ty (entries.map f)).children[k]? = some (f entries[k]).2 := by
      simp [level, hlt]
    rw [range_succ, foldlM_append, ih (Nat.le_of_lt hlt), take_add_one,
      getElem?_eq_getElem hlt, flatMap_append]
    simp only [Option.bind_eq_bind, Option.bind_some, foldlM_cons, foldlM_nil, hdevice,
      hchild, hvisit, Option.toList_some, flatMap_cons, flatMap_nil, append_nil,
      append_assoc, singleton_append, Option.pure_def]

theorem walkInOrder_level {γ : Type} {lc : Option Node} {ty : NodeType} (entries : List γ)
    (f : γ → Entry) (visits : γ → List IoTDevice) {before : List IoTDevice}
    (hbefore : walkChild (walkInOrder bound) lc = some before)
    (hwalk : ∀ e ∈ entries,
      walkChild (walkInOrder bound) (f e).2 = some (visits e)) :
    walkInOrder (bound + 1) (level lc ty (entries.map f)) =
      some (before ++ entries.flatMap fun e => (f e).1 :: visits e) := by
  have hloop := @foldlM_walk γ lc ty entries f _ visits hwalk before _ (Nat.le_refl _)
  have hlength : (level lc ty (entries.map f)).devices.length = entries.length := by
    simp [level]
  have hleft : (level lc ty (entries.map f)).leftChild = lc := rfl
  rw [take_length] at hloop
  rw [walkInOrder, hlength, hleft, hbefore]
  exact hloop

/-- **A walk visits the values of the tree in their order.** -/
theorem walkInOrder_spec (d : ℕ) (t : Tree IoTDevice d) (bound : ℕ) (hbound : d < bound) :
    walkInOrder bound (toNode d t) = some (toList d t) := by
  induction d generalizing bound with
  | zero =>
    obtain ⟨bound, rfl⟩ : ∃ b, bound = b + 1 := ⟨bound - 1, by omega⟩
    have hwalk := @walkInOrder_level bound IoTDevice none .leaf t (fun a => (a, none))
      (fun _ => []) [] rfl fun _ _ => rfl
    exact hwalk.trans (congrArg some (flatMap_singleton' t))
  | succ d ih =>
    obtain ⟨bound, rfl⟩ : ∃ b, bound = b + 1 := ⟨bound - 1, by omega⟩
    exact walkInOrder_level t.2 (fun e => (e.1, some (toNode d e.2))) (fun e => toList d e.2)
      (ih t.1 bound (by omega)) fun e _ => ih e.2 bound (by omega)

/-! ### Lookups -/

theorem eq_of_ascending {l : List IoTDevice} (h : Ascending l) {a b : IoTDevice} (ha : a ∈ l)
    (hb : b ∈ l) (hid : a.numericalId = b.numericalId) : a = b := by
  induction l with
  | nil => cases ha
  | cons c l ih =>
    obtain ⟨hc, hl⟩ := List.pairwise_cons.mp h
    rcases List.mem_cons.mp ha with rfl | ha'
    · rcases List.mem_cons.mp hb with rfl | hb'
      · rfl
      · exact absurd (hc b hb') (hid ▸ UInt64.lt_irrefl _)
    · rcases List.mem_cons.mp hb with rfl | hb'
      · exact absurd (hc a ha') (hid ▸ UInt64.lt_irrefl _)
      · exact ih hl ha' hb'

theorem getDevice_some {id : UInt64} {a : IoTDevice} (h : n.getDevice id = some a) :
    some a ∈ n.devices ∧ a.numericalId = id := by
  obtain ⟨d, hd, hda⟩ := exists_of_findSome?_eq_some h
  obtain ⟨rfl, hid⟩ := Option.filter_eq_some_iff.mp hda
  exact ⟨hd, by simpa using hid⟩

theorem getDevice_none {id : UInt64} (h : n.getDevice id = none) {a : IoTDevice}
    (ha : some a ∈ n.devices) : a.numericalId ≠ id := by
  have hfilter := List.findSome?_eq_none_iff.mp h (some a) ha
  simpa using hfilter

/-- The answer fits the devices. -/
def Finds (l : List IoTDevice) (id : UInt64) (found : Option IoTDevice) : Prop :=
  ∀ a, found = some a ↔ a ∈ l ∧ a.numericalId = id

/-- What a lookup finds among devices with repeated ids. -/
structure FindsOne (l : List IoTDevice) (id : UInt64) (found : Option IoTDevice) : Prop where
  some : ∀ a, found = some a → a ∈ l ∧ a.numericalId = id
  none : found = none → ∀ a ∈ l, a.numericalId ≠ id

theorem FindsOne.between {before l after : List IoTDevice} {id : UInt64}
    {found : Option IoTDevice} (h : FindsOne l id found)
    (hbefore : ∀ a ∈ before, a.numericalId ≠ id) (hafter : ∀ a ∈ after, a.numericalId ≠ id) :
    FindsOne (before ++ l ++ after) id found := by
  refine ⟨fun a ha => ?_, fun hnone a ha => ?_⟩
  · obtain ⟨hmem, hid⟩ := h.some a ha
    exact ⟨mem_append_left _ (mem_append_right _ hmem), hid⟩
  · rcases List.mem_append.mp ha with ha | ha
    · rcases List.mem_append.mp ha with ha | ha
      · exact hbefore a ha
      · exact h.none hnone a ha
    · exact hafter a ha

theorem findsOne_some {l : List IoTDevice} {a : IoTDevice} (ha : a ∈ l) :
    FindsOne l a.numericalId (some a) :=
  ⟨fun _ hb => Option.some.inj hb ▸ ⟨ha, rfl⟩, nofun⟩

theorem FindsOne.finds {l : List IoTDevice} {id : UInt64} {found : Option IoTDevice}
    (h : FindsOne l id found) (hl : Ascending l) : Finds l id found := by
  intro a
  constructor
  · exact h.some a
  · rintro ⟨ha, hid⟩
    cases hfound : found with
    | none => exact absurd hid (h.none hfound a ha)
    | some b =>
      obtain ⟨hb, hid'⟩ := h.some b hfound
      rw [eq_of_ascending hl hb ha (hid'.trans hid.symm)]

theorem ne_of_upTo_false {id : UInt64} {a : IoTDevice} (h : upTo id a = false) :
    a.numericalId ≠ id := fun heq => upTo_eq_false.mp h (UInt64.le_of_eq heq)

theorem getChild_regular {left right : List (IoTDevice × Tree IoTDevice d)} {k : IoTDevice}
    {s first : Tree IoTDevice d} {id : UInt64} (hleft : ∀ e ∈ left, upTo id e.1 = true)
    (hk : upTo id k = true) (hright : ∀ e ∈ right, upTo id e.1 = false) :
    (regular d first (left ++ (k, s) :: right)).getChild id = some (some (toNode d s)) := by
  have hleft' : ∀ e ∈ left ++ [(k, s)], upTo id e.1 = true := by
    intro e he
    rcases List.mem_append.mp he with he | he
    · exact hleft e he
    · rwa [List.mem_singleton.mp he]
  have hindex := @findClosestIndex_level id (some (toNode d first)) .regular
    ((left ++ [(k, s)]).map fun e => (e.1, some (toNode d e.2)))
    (right.map fun e => (e.1, some (toNode d e.2))) (List.forall_mem_map.mpr hleft')
    (List.forall_mem_map.mpr hright)
  rw [← map_append, append_assoc, singleton_append] at hindex
  rw [Node.getChild, regular, hindex]
  simp [level]

theorem getChild_regular_first {rest : List (IoTDevice × Tree IoTDevice d)}
    {first : Tree IoTDevice d} {id : UInt64} (hrest : ∀ e ∈ rest, upTo id e.1 = false) :
    (regular d first rest).getChild id = some (some (toNode d first)) := by
  have hindex := @findClosestIndex_level id (some (toNode d first)) .regular []
    (rest.map fun e => (e.1, some (toNode d e.2))) (by simp) (List.forall_mem_map.mpr hrest)
  rw [nil_append] at hindex
  rw [Node.getChild, regular, hindex]
  rfl

/-- The ids do not descend. -/
def Ordered (devices : List IoTDevice) : Prop :=
  devices.Pairwise fun a b => a.numericalId ≤ b.numericalId

theorem split_of_ordered {l : List IoTDevice} (h : Ordered l) (id : UInt64) : Split (upTo id) l :=
  h.imp fun hab hb => upTo_eq_true.mpr (UInt64.le_trans hab (upTo_eq_true.mp hb))

/-- **A lookup finds a device with the id**, if there is one. -/
theorem findR_ordered (id : UInt64) (d : ℕ) (t : Tree IoTDevice d)
    (ht : Ordered (toList d t)) (bound : ℕ) (hbound : d < bound) :
    ∃ found, findR id bound (toNode d t) = some found ∧
      FindsOne (toList d t) id found := by
  induction d generalizing bound with
  | zero =>
    obtain ⟨bound, rfl⟩ : ∃ b, bound = b + 1 := ⟨bound - 1, by omega⟩
    have htype : (toNode 0 t).nodeType = .leaf := rfl
    rcases hget : (toNode 0 t).getDevice id with _ | a
    · refine ⟨none, ?_, nofun, fun _ a ha => ?_⟩
      · rw [findR, hget, htype]
        rfl
      · refine getDevice_none hget (List.mem_map.mpr ⟨(a, none), ?_, rfl⟩)
        exact mem_map_of_mem ha
    · obtain ⟨ha, rfl⟩ := getDevice_some hget
      refine ⟨some a, ?_, findsOne_some (mem_of_mem_devices ha)⟩
      rw [findR, hget]
  | succ d ih =>
    obtain ⟨bound, rfl⟩ : ∃ b, bound = b + 1 := ⟨bound - 1, by omega⟩
    have htype : (toNode (d + 1) t).nodeType = .regular := rfl
    rcases hget : (toNode (d + 1) t).getDevice id with _ | a
    · have hstep : ∀ s, (toNode (d + 1) t).getChild id = some (some (toNode d s)) →
          findR id (bound + 1) (toNode (d + 1) t) =
            findR id bound (toNode d s) := by
        intro s hs
        rw [findR, hget, htype]
        simp [hs]
      have hkey : ∀ e ∈ t.2, e.1.numericalId ≠ id := fun e he =>
        getDevice_none hget (List.mem_map.mpr ⟨_, mem_map_of_mem he, rfl⟩)
      obtain ⟨first, rest⟩ := t
      obtain ⟨hfirst, hrest, hle⟩ := List.pairwise_append.mp ht
      have hsplit : Split (upTo id) (rest.map Prod.fst) :=
        split_of_ordered (hrest.sublist (keys_sublist _ _)) id
      rcases hsplit.cases_last with hright | ⟨left, k, s, right, rfl, hleft, hk, hright⟩
      · -- all keys are larger
        have hafter := (split_of_ordered hrest id).false_of_flat hright
        obtain ⟨found, hrun, hfinds⟩ := ih first hfirst bound (by omega)
        refine ⟨found, (hstep _ (getChild_regular_first hright)).trans hrun, ?_⟩
        exact hfinds.between (by simp : ∀ a ∈ [], _) fun a ha => ne_of_upTo_false (hafter a ha)
      · -- the last key up to the id, which is smaller
        rw [flat_append, flat_cons] at hrest
        obtain ⟨-, hcons, hbefore⟩ := List.pairwise_append.mp hrest
        obtain ⟨hs, hr, -⟩ := List.pairwise_append.mp (List.pairwise_cons.mp hcons).2
        have hafter := (split_of_ordered hr id).false_of_flat hright
        obtain ⟨found, hrun, hfinds⟩ := ih s hs bound (by omega)
        refine ⟨found, (hstep _ (getChild_regular hleft hk hright)).trans hrun, ?_⟩
        have hne : k.numericalId ≠ id := hkey (k, s) (by simp)
        have hlt : k.numericalId < id := UInt64.lt_of_le_of_ne (upTo_eq_true.mp hk) hne
        have hsmall : ∀ a : IoTDevice, a.numericalId ≤ k.numericalId → a.numericalId ≠ id :=
          fun a ha => UInt64.ne_of_lt (UInt64.lt_of_le_of_lt ha hlt)
        have hbelow : ∀ a ∈ toList d first ++ flat (toList d) left ++ [k],
            a.numericalId ≠ id := by
          intro a ha
          rcases List.mem_append.mp ha with ha | ha
          · rcases List.mem_append.mp ha with ha | ha
            · exact hsmall a (hle a ha k (by simp))
            · exact hsmall a (hbefore a ha k mem_cons_self)
          · rw [List.mem_singleton.mp ha]
            exact hne
        have hfinds' := hfinds.between hbelow fun a ha => ne_of_upTo_false (hafter a ha)
        simpa [toList] using hfinds'
    · obtain ⟨ha, rfl⟩ := getDevice_some hget
      refine ⟨some a, ?_, findsOne_some (mem_of_mem_devices ha)⟩
      rw [findR, hget]

/-- **A lookup finds the value of the tree with the id.** -/
theorem findR_spec (id : UInt64) (d : ℕ) (t : Tree IoTDevice d) (ht : Ascending (toList d t))
    (bound : ℕ) (hbound : d < bound) :
    ∃ found, findR id bound (toNode d t) = some found ∧
      Finds (toList d t) id found := by
  have hordered : Ordered (toList d t) := ht.imp UInt64.le_of_lt
  obtain ⟨found, hrun, hfinds⟩ := findR_ordered id d t hordered bound hbound
  exact ⟨found, hrun, hfinds.finds ht⟩

end Reads

/-! ### The database -/

section Databases

open BTree

/-- A database with devices: the root is a B-tree of them. -/
structure Stored (db : DeviceDatabase) (devices : List IoTDevice) (d : ℕ)
    (t : Tree IoTDevice d) : Prop where
  root : db.root = some (toNode d t)
  ascending : Ascending (toList d t)
  perm : (toList d t).Perm devices
  filled : Filled ((db.order - 1) / 2) (db.order - 1) 1 d t
  length : db.length = devices.length

/-- A database of the given devices. -/
structure Sound (db : DeviceDatabase) (devices : List IoTDevice) : Prop where
  /-- The check accepts the tree, once there is one. -/
  accepted : devices ≠ [] → db.isAValidBtree = some true
  /-- All leaves are at one depth. -/
  leaves : ∀ root j k, db.root = some root → LeafAt root j → LeafAt root k → j = k
  nodes : ∀ root n, db.root = some root → Within n root → WellFormed n
  walk : ∃ visited, db.walk = some visited ∧ visited.Perm devices ∧ Ascending visited
  find : ∀ id, ∃ found, db.find id = some found ∧
    ∀ a, found = some a ↔ a ∈ devices ∧ a.numericalId = id
  length : db.length = devices.length

variable {db : DeviceDatabase} {devices : List IoTDevice} {device : IoTDevice} {d : ℕ}
  {t : Tree IoTDevice d}

/-! ### The invariant -/

theorem Stored.depth_lt (h : Stored db devices d t) (horder : 3 ≤ db.order) :
    d < devices.length := by
  rw [← h.perm.length_eq]
  exact h.filled.depth_lt (Nat.le_refl 1) (by omega)

theorem stored_first (order : ℕ) (horder : 3 ≤ order) (device : IoTDevice) :
    ∃ db, (newEmpty order).add device = some db ∧ db.order = order ∧
      Stored db [device] 0 [device] := by
  have hinsert : BTree.insert (upTo device.numericalId) device order 0 [] = ([device], none) :=
    cut_of_lt (by simp; omega)
  have hrun := addR_spec (by omega : 0 < order) device 0 [] List.Pairwise.nil (by simp [toList]) 1
    Nat.one_pos 0 true
  rw [hinsert] at hrun
  refine ⟨⟨some (toNode 0 [device]), order, 1⟩, ?_, rfl, rfl, pairwise_singleton _ _,
    .refl _, ⟨Nat.le_refl 1, ?_⟩, rfl⟩
  · simp only [add, newEmpty, DeviceDatabase.bound]
    exact congrArg (Option.bind · _) hrun
  · change 1 ≤ order - 1
    omega

/-- What `add_r` leaves becomes the root, under a new one if a key goes up. -/
theorem exists_add {g : Tree IoTDevice d × Option (IoTDevice × Tree IoTDevice d)}
    (hroot : db.root = some (toNode d t)) (horder : 3 ≤ db.order)
    (hrun : addR db.order (db.length + 1) db.length (toNode d t) device true =
      some ((grown true d g).1, (grown true d g).2, db.length + 1))
    (hfilled : GrownFilled ((db.order - 1) / 2) (db.order - 1) 1 d g) :
    ∃ db' e, ∃ s : Tree IoTDevice e, db.add device = some db' ∧ db'.order = db.order ∧
      db'.root = some (toNode e s) ∧ toList e s = grownList d g ∧
      Filled ((db.order - 1) / 2) (db.order - 1) 1 e s ∧ db'.length = db.length + 1 := by
  have hadd : db.add device = some { db with
      root := some (grown true d g).1, length := db.length + 1 } := by
    rw [add, hroot]
    exact congrArg (Option.bind · _) hrun
  obtain ⟨t', up⟩ := g
  rcases up with _ | ⟨a, s⟩
  · exact ⟨_, d, t', hadd, rfl, rfl, (append_nil _).symm, hfilled, rfl⟩
  · refine ⟨_, d + 1, (t', [(a, s)]), hadd, rfl, rfl, rfl,
      ⟨Nat.le_refl 1, ?_, hfilled.1, fun e he => ?_⟩, rfl⟩
    · change 1 ≤ db.order - 1
      omega
    · rw [List.mem_singleton.mp he]
      exact hfilled.2

/-- **A device with a new id is added.** -/
theorem Stored.add (h : Stored db devices d t) (horder : 3 ≤ db.order)
    (hnew : ∀ a ∈ devices, a.numericalId ≠ device.numericalId) :
    ∃ db' e s, db.add device = some db' ∧ db'.order = db.order ∧
      @Stored db' (devices ++ [device]) e s := by
  have hascends := (ascending_iff.mp h.ascending).ascends
  have hnew' : ∀ a ∈ toList d t, a.numericalId ≠ device.numericalId := fun a ha =>
    hnew a (h.perm.mem_iff.mp ha)
  have hdepth := h.depth_lt horder
  have horder' : 0 < db.order := by omega
  have hrun := addR_spec horder' device d t h.ascending hnew' (db.length + 1)
    (by rw [h.length]; omega) db.length true
  have hfilled := filled_insertPlaced horder' device d t hascends h.filled
  rw [insertPlaced_eq horder' device d t h.ascending hnew'] at hfilled
  have hinserted := @inserted_insert _ _ device db.order horder' d t
    (upTo_eq_notAbove device ▸ split_of_ascends device hascends)
  have hascending := ascending_inserted hinserted h.ascending hnew'
  have hperm := (hinserted.perm.trans (h.perm.cons device)).trans
    (perm_append_singleton device devices).symm
  obtain ⟨db', e, s, hadd, hord, hroot, hlist, hfilled', hlength⟩ :=
    exists_add h.root horder hrun hfilled
  rw [← hlist] at hascending hperm
  exact ⟨db', e, s, hadd, hord, hroot, hascending, hperm, hord ▸ hfilled',
    by simp [hlength, h.length]⟩

/-- **Devices with distinct ids are added.** -/
theorem Stored.addAll (h : Stored db devices d t) (horder : 3 ≤ db.order) (new : List IoTDevice)
    (hids : ((devices ++ new).map IoTDevice.numericalId).Nodup) :
    ∃ db' e s, db.addAll new = some db' ∧ db'.order = db.order ∧
      @Stored db' (devices ++ new) e s := by
  induction new generalizing db devices d t with
  | nil => exact ⟨db, d, t, rfl, rfl, by simpa using h⟩
  | cons device new ih =>
    have hnew : ∀ a ∈ devices, a.numericalId ≠ device.numericalId := fun a ha => by
      rw [map_append, nodup_append] at hids
      exact hids.2.2 _ (mem_map_of_mem ha) _ (mem_map_of_mem mem_cons_self)
    obtain ⟨db₁, e₁, s₁, hadd, horder₁, h₁⟩ := h.add horder hnew
    obtain ⟨db₂, e₂, s₂, haddAll, horder₂, h₂⟩ := ih h₁ (by omega) (by rwa [append_assoc])
    exact ⟨db₂, e₂, s₂, by simp [addAll, hadd, haddAll], horder₂.trans horder₁,
      by rwa [append_assoc] at h₂⟩

/-! ### Every database is sound -/

theorem length_le_of_ascending {l : List IoTDevice} (h : Ascending l) : l.length ≤ 2 ^ 64 := by
  have hnodup : (l.map fun a => a.numericalId.toNat).Nodup :=
    List.pairwise_map.mpr (h.imp fun hab => Nat.ne_of_lt (UInt64.lt_iff_toNat_lt.mp hab))
  have hsub : (l.map fun a => a.numericalId.toNat) ⊆ List.range (2 ^ 64) := by
    intro n hn
    obtain ⟨a, -, rfl⟩ := List.mem_map.mp hn
    exact List.mem_range.mpr (UInt64.toNat_lt _)
  have hle := (subperm_of_subset hnodup hsub).length_le
  rwa [length_map, length_range] at hle

theorem Stored.sound (h : Stored db devices d t) (horder : 3 ≤ db.order) : Sound db devices := by
  have hdepth := h.depth_lt horder
  have hbound : d < db.bound := by
    rw [DeviceDatabase.bound, h.length]
    omega
  have hroot : ∀ root, db.root = some root → toNode d t = root := fun root hr =>
    Option.some.inj (h.root.symm.trans hr)
  refine ⟨fun _ => ?_, fun root j k hr hj hk => ?_, fun root n hr hn => ?_, ?_, fun id => ?_,
    h.length⟩
  · have hlength := length_le_of_ascending h.ascending
    rw [h.perm.length_eq] at hlength
    have hvalid := validate_spec horder d t h.filled db.bound hbound 0 (by simp) (by omega)
    rw [isAValidBtree, h.root]
    simp [hvalid]
  · obtain rfl := hroot root hr
    rw [hj.depth_eq, hk.depth_eq]
  · obtain rfl := hroot root hr
    exact wellFormed_of_within h.ascending hn
  · refine ⟨toList d t, ?_, h.perm, h.ascending⟩
    rw [DeviceDatabase.walk, h.root]
    exact walkInOrder_spec d t db.bound hbound
  · obtain ⟨found, hrun, hfinds⟩ := findR_spec id d t h.ascending db.bound hbound
    refine ⟨found, ?_, fun a => ?_⟩
    · rw [DeviceDatabase.find, h.root]
      exact hrun
    · rw [hfinds a, h.perm.mem_iff]

theorem sound_newEmpty (order : ℕ) : Sound (newEmpty order) [] := by
  refine ⟨fun h => (h rfl).elim, nofun, nofun, ⟨[], rfl, .refl _, List.Pairwise.nil⟩,
    fun id => ⟨none, rfl, by simp⟩, rfl⟩

/-- **A database is sound after every `add`.** No `unwrap` fails. -/
theorem database_sound_of_addAll (order : ℕ) (horder : 3 ≤ order) (devices : List IoTDevice)
    (hids : (devices.map IoTDevice.numericalId).Nodup) :
    ∃ db, (DeviceDatabase.newEmpty order).addAll devices = some db ∧ Sound db devices := by
  cases devices with
  | nil => exact ⟨_, rfl, sound_newEmpty order⟩
  | cons device devices =>
    obtain ⟨db₁, hadd, rfl, h₁⟩ := stored_first order horder device
    obtain ⟨db₂, d, t, haddAll, horder₂, h₂⟩ := h₁.addAll horder devices hids
    exact ⟨db₂, by simp [DeviceDatabase.addAll, hadd, haddAll], h₂.sound (by omega)⟩

/-- Four devices in a database of order three, whose root is split. -/
theorem database_sound_of_addAll_four :
    ∃ db, (DeviceDatabase.newEmpty 3).addAll
        [⟨4, "a", "A"⟩, ⟨2, "b", "B"⟩, ⟨1, "c", "C"⟩, ⟨3, "d", "D"⟩] = some db ∧
      Sound db [⟨4, "a", "A"⟩, ⟨2, "b", "B"⟩, ⟨1, "c", "C"⟩, ⟨3, "d", "D"⟩] :=
  database_sound_of_addAll 3 (by decide) _ (by decide)

end Databases

end RustExample.DeviceBtree
