import RustExample.DeviceRegistry.Repair

/-!
# Adding a device

A device goes into a new red leaf of the tree; the repair follows. A registry to which devices with
distinct ids are added holds a red-black tree of these devices.

Source: `red_black_tree_example/src/lib.rs`.
-/

namespace RustExample.DeviceRegistry

open RedBlack List

variable {h h' : Heap} {fs : List (Frame Entry)} {f : Frame Entry} {t s s' : RedBlack.Tree Entry}
  {parent : Option ℕ} {device : IoTDevice} {fresh bound : ℕ}

/-- Where the search for the place of a device goes on. -/
def goLeft (device : IoTDevice) (a : Entry) : Bool := check a.2 device = .leftNode

theorem goLeft_iff (a : Entry) :
    goLeft device a = true ↔ a.2.numericalId ≤ device.numericalId := by
  rw [goLeft, check]
  split_ifs with h <;> simp [h]

theorem perm_addrs_insertLeaf (t : RedBlack.Tree Entry) :
    (addrs (insertLeaf (goLeft device) (fresh, device) t)).Perm (fresh :: addrs t) := by
  refine (perm_addrs _).trans (((perm_toList_insertLeaf _ _ t).map Prod.fst).trans ?_)
  exact ((perm_addrs t).symm.cons fresh)

theorem insertLeaf_ne_none (t : RedBlack.Tree Entry) :
    ∃ n, addr (insertLeaf (goLeft device) (fresh, device) t) = some n := by
  cases t with
  | leaf => exact ⟨fresh, rfl⟩
  | node c l a r =>
    refine ⟨a.1, ?_⟩
    rw [insertLeaf]
    split_ifs <;> rfl

/-! ### The links -/

/-- One step of the search: the new tree is linked below the node. -/
theorem addR_attach (hs : Holds h parent (f.attach s)) (hnodup : (addrs (f.attach s)).Nodup)
    (hfresh : fresh ∉ addrs (f.attach s)) (hside : check f.value.2 device = side f)
    {h₁ : Heap} {parent' : Option ℕ} {m : ℕ}
    (hrun : addR fresh device bound h (addr s) = some (h₁, addr s', fresh))
    (hm : addr s' = some m)
    (hs' : Holds h₁ parent' s') (hperm : (addrs s').Perm (fresh :: addrs s))
    (hframe : ∀ a, a ∉ addrs s → a ≠ fresh → h₁ a = h a) :
    ∃ h', addR fresh device (bound + 1) h (addr (f.attach s)) =
        some (h', addr (f.attach s'), fresh) ∧ Holds h' parent (f.attach s') ∧
      ∀ a, a ∉ addrs (f.attach s) → a ≠ fresh → h' a = h a := by
  obtain ⟨hf, -, hsib⟩ := holds_attach.mp hs
  have hmem : ∀ a, a ∈ addrs (f.attach s) ↔ a ∈ addrs s ∨ a = f.value.1 ∨ a ∈ addrs f.sibling :=
    fun a => by rw [(perm_addrs_attach f s).mem_iff, mem_append, mem_cons]
  have hnodup' : (addrs s ++ f.value.1 :: addrs f.sibling).Nodup :=
    (perm_addrs_attach f s).nodup_iff.mp hnodup
  have hmem' : ∀ a, a ∈ addrs s' ↔ a = fresh ∨ a ∈ addrs s := fun a => by
    rw [hperm.mem_iff, mem_cons]
  have hmm := mem_addrs_of_addr hm
  rw [nodup_append, nodup_cons] at hnodup'
  have hne : f.value.1 ≠ m := by grind
  have hfh₁ : h₁ f.value.1 = h f.value.1 := hframe _ (by grind) (by grind)
  have hh' : ∀ a, a ≠ m → a ≠ f.value.1 →
      ((h₁.setParent m (some f.value.1)).setChild f.value.1 (side f) (some m)) a = h₁ a :=
    fun a ham haf => by simp [ham, haf]
  refine ⟨(h₁.setParent m (some f.value.1)).setChild f.value.1 (side f) (some m), ?_, ?_, ?_⟩
  · rw [addr_attach, addr_attach, addR]
    simp only [hf, Option.bind_eq_bind, Option.bind_some, toNode] at hrun ⊢
    have hchild := @child_toNode f parent (addr s)
    simp only [toNode] at hchild
    simp [hside, hchild, hrun, hm]
  · refine holds_attach.mpr ⟨?_, hs'.reparent ?_ _ ?_ ?_, (hsib.congr fun a ha => ?_)⟩
    · simp [hne, hfh₁, hf, hm]
    · exact hperm.nodup_iff.mpr (by grind)
    · intro a ha
      obtain rfl : m = a := Option.some.inj (hm.symm.trans ha)
      simp [hne.symm]
    · intro a ha ham
      exact hh' a (fun hma => ham (hma ▸ hm)) (by grind)
    · rw [hh' a (by grind) (by grind), hframe a (by grind) (by grind)]
  · intro a ha hafresh
    rw [hh' a (by grind) (by grind), hframe a (by grind) hafresh]

/-- **The search for the place.** The tree has a new red leaf, whose node has the fresh address. -/
theorem addR_spec (device : IoTDevice) (bound : ℕ) (ht : Holds h parent t)
    (hnodup : (addrs t).Nodup)
    (hfresh : fresh ∉ addrs t) (hbound : t.toList.length ≤ bound) :
    ∃ h' parent', addR fresh device bound h (addr t) =
        some (h', addr (insertLeaf (goLeft device) (fresh, device) t), fresh) ∧
      Holds h' parent' (insertLeaf (goLeft device) (fresh, device) t) ∧
      (parent = none → parent' = none) ∧ ∀ a, a ∉ addrs t → a ≠ fresh → h' a = h a := by
  induction t generalizing parent bound with
  | leaf =>
    refine ⟨Function.update h fresh (some ⟨.red, device, none, none, none⟩), none, ?_,
      ⟨?_, trivial, trivial⟩, fun _ => rfl, fun a _ ha => Function.update_of_ne ha _ _⟩
    · rw [addr, addR]
      rfl
    · simp [addr]
  | node c l a r ihl ihr =>
    rw [RedBlack.Tree.toList, length_append, length_cons] at hbound
    obtain ⟨bound, rfl⟩ : ∃ b, bound = b + 1 := ⟨bound - 1, by omega⟩
    have hsub := (List.nodup_cons.mp hnodup).2
    rw [nodup_append] at hsub
    simp only [addrs, mem_cons, mem_append, not_or] at hfresh
    rw [insertLeaf]
    split_ifs with hgo
    · obtain ⟨h₁, parent', hrun, hl', -, hframe⟩ := ihl bound ht.2.1 hsub.1 hfresh.2.1 (by omega)
      obtain ⟨m, hm⟩ := @insertLeaf_ne_none device fresh l
      obtain ⟨h', hrun', ht', hframe'⟩ := addR_attach (f := ⟨true, c, a, r⟩) ht hnodup
        (by simp [Frame.attach, addrs, hfresh]) (by simpa [goLeft, side] using hgo) hrun hm hl'
        (perm_addrs_insertLeaf l) hframe
      exact ⟨h', parent, hrun', ht', id, hframe'⟩
    · obtain ⟨h₁, parent', hrun, hr', -, hframe⟩ := ihr bound ht.2.2 hsub.2.1 hfresh.2.2 (by omega)
      obtain ⟨m, hm⟩ := @insertLeaf_ne_none device fresh r
      have hcheck : check a.2 device = .rightNode := by
        cases hc : check a.2 device <;> simp [goLeft, hc] at hgo ⊢
      obtain ⟨h', hrun', ht', hframe'⟩ := addR_attach (f := ⟨false, c, a, l⟩) ht hnodup
        (by simp [Frame.attach, addrs, hfresh]) hcheck hrun hm hr' (perm_addrs_insertLeaf r) hframe
      exact ⟨h', parent, hrun', ht', id, hframe'⟩

/-- The tree with the new leaf, seen from the leaf. -/
theorem plug_newLeaf (device : IoTDevice) (fresh : ℕ) (t : RedBlack.Tree Entry) :
    plug (searchPath (goLeft device) t []) (.node .red .leaf (fresh, device) .leaf) =
      insertLeaf (goLeft device) (fresh, device) t := plug_searchPath _ _ t []

theorem Linked.addR (ht : Linked h [] t) (hfresh : fresh ∉ addrs t) (device : IoTDevice)
    (hbound : t.toList.length ≤ bound) :
    ∃ h', addR fresh device bound h (addr t) =
        some (h', addr (insertLeaf (goLeft device) (fresh, device) t), fresh) ∧
      Linked h' (searchPath (goLeft device) t []) (.node .red .leaf (fresh, device) .leaf) ∧
      ∀ a, a ∉ addrs t → a ≠ fresh → h' a = h a := by
  have hnodup : (addrs t).Nodup := by simpa [pathAddrs] using ht.nodup
  obtain ⟨h', parent, hrun, hholds, hparent, hframe⟩ :=
    addR_spec device bound ht.tree hnodup hfresh hbound
  refine ⟨h', hrun, linked_plug.mpr ⟨?_, trivial, ?_⟩, hframe⟩
  · rw [plug_newLeaf]
    rwa [hparent rfl] at hholds
  · rw [plug_newLeaf]
    have hperm := @perm_addrs_insertLeaf device fresh t
    have hnew := hperm.nodup_iff.mpr (List.nodup_cons.mpr ⟨hfresh, hnodup⟩)
    simpa [pathAddrs] using hnew

/-! ### The tree -/

theorem Repairs.mem_addrs {w : RedBlack.Tree Entry}
    (hrep : Repairs h (insertLeaf (goLeft device) (fresh, device) t) h' w) (a : ℕ) :
    a ∈ addrs w ↔ a = fresh ∨ a ∈ addrs t := by
  rw [(perm_addrs w).mem_iff, hrep.toList_eq, ← (perm_addrs _).mem_iff,
    (perm_addrs_insertLeaf t).mem_iff, mem_cons]

variable {devices : List IoTDevice}

theorem Repairs.perm {w : RedBlack.Tree Entry}
    (hrep : Repairs h (insertLeaf (goLeft device) (fresh, device) t) h' w)
    (hperm : (t.toList.map Prod.snd).Perm devices) :
    (w.toList.map Prod.snd).Perm (devices ++ [device]) := by
  rw [hrep.toList_eq]
  refine ((perm_toList_insertLeaf _ _ t).map Prod.snd).trans ?_
  exact (hperm.cons device).trans (perm_append_singleton device devices).symm

theorem ordered_insertLeaf (ht : Ordered t.toList) :
    Ordered (insertLeaf (goLeft device) (fresh, device) t).toList := by
  induction t with
  | leaf => exact pairwise_singleton _ _
  | node c l a r ihl ihr =>
    have hmem : ∀ s b, b ∈ (insertLeaf (goLeft device) (fresh, device) s).toList →
        b = (fresh, device) ∨ b ∈ s.toList := fun s b hb =>
      List.mem_cons.mp ((perm_toList_insertLeaf _ _ s).mem_iff.mp hb)
    simp only [Ordered, RedBlack.Tree.toList, pairwise_append, pairwise_cons,
      mem_cons] at ht ihl ihr ⊢
    obtain ⟨hl, ⟨har, hr⟩, hlr⟩ := ht
    rw [insertLeaf]
    split_ifs with hgo
    · have hle : a.2.numericalId ≤ device.numericalId := (goLeft_iff a).mp hgo
      simp only [RedBlack.Tree.toList, pairwise_append, pairwise_cons]
      refine ⟨ihl hl, ⟨har, hr⟩, fun b hb d hd => ?_⟩
      rcases hmem l b hb with rfl | hb
      · rcases List.mem_cons.mp hd with rfl | hd
        · exact hle
        · exact Nat.le_trans (har d hd) hle
      · exact hlr b hb d (List.mem_cons.mp hd)
    · have hle : device.numericalId ≤ a.2.numericalId := by
        rw [goLeft_iff] at hgo
        omega
      simp only [RedBlack.Tree.toList, pairwise_append, pairwise_cons]
      refine ⟨hl, ⟨fun b hb => ?_, ihr hr⟩, fun b hb d hd => ?_⟩
      · rcases hmem r b hb with rfl | hb
        · exact hle
        · exact har b hb
      · rcases List.mem_cons.mp hd with rfl | hd
        · exact hlr b hb d (.inl rfl)
        · rcases hmem r d hd with rfl | hd
          · exact Nat.le_trans hle (hlr b hb a (.inl rfl))
          · exact hlr b hb d (.inr hd)

theorem descending_iff {l : List Entry} :
    Descending l ↔ Ordered l ∧ (l.map fun a => a.2.numericalId).Nodup := by
  rw [Descending, Ordered, List.Nodup, pairwise_map, ← pairwise_and_iff]
  exact List.Pairwise.iff fun a b => by omega

theorem descending_insertLeaf (ht : Descending t.toList)
    (hnew : ∀ a ∈ t.toList, a.2.numericalId ≠ device.numericalId) :
    Descending (insertLeaf (goLeft device) (fresh, device) t).toList := by
  obtain ⟨hord, hnodup⟩ := descending_iff.mp ht
  have hperm := (perm_toList_insertLeaf (goLeft device) (fresh, device) t).map
    fun a => a.2.numericalId
  refine descending_iff.mpr ⟨ordered_insertLeaf hord, hperm.nodup_iff.mpr ?_⟩
  rw [map_cons, nodup_cons, mem_map]
  refine ⟨?_, hnodup⟩
  rintro ⟨a, ha, heq⟩
  exact hnew a ha heq

/-! ### The registry -/

/-- A registry to which devices were added: the nodes hold a red-black tree of them. -/
structure Registered (r : BetterDeviceRegistry) (devices : List IoTDevice)
    (t : RedBlack.Tree Entry) : Prop where
  links : At r.nodes [] t
  root : r.root = addr t
  valid : ∃ k, t.Valid k
  black : t.rootColor = .black
  allocated : ∀ a, r.nodes a ≠ none → a ∈ addrs t
  below : ∀ a ∈ addrs t, a < r.made
  made : r.made = devices.length
  perm : (t.toList.map Prod.snd).Perm devices
  length : r.length = devices.length

theorem registered_newEmpty : Registered .newEmpty [] .leaf := by
  refine ⟨⟨trivial, trivial, nodup_nil, List.Pairwise.nil⟩, rfl, ⟨0, rfl⟩, rfl,
    fun a ha => (ha rfl).elim, ?_, rfl, List.Perm.refl _, rfl⟩
  simp [addrs]

theorem Registered.toList_length {r : BetterDeviceRegistry} (hr : Registered r devices t) :
    t.toList.length = r.made := by
  rw [hr.made, ← hr.perm.length_eq, length_map]

theorem length_searchPath (goLeft : Entry → Bool) (t : RedBlack.Tree Entry)
    (fs : List (Frame Entry)) : (searchPath goLeft t fs).length ≤ t.toList.length + fs.length := by
  induction t generalizing fs with
  | leaf => simp [searchPath]
  | node c l a r ihl ihr =>
    rw [searchPath, RedBlack.Tree.toList, length_append, length_cons]
    split_ifs
    · have := ihl (⟨true, c, a, r⟩ :: fs)
      rw [length_cons] at this
      omega
    · have := ihr (⟨false, c, a, l⟩ :: fs)
      rw [length_cons] at this
      omega

/-- **A device with a new id is added.** -/
theorem Registered.add {r : BetterDeviceRegistry} (hr : Registered r devices t)
    (hnew : ∀ d ∈ devices, d.numericalId ≠ device.numericalId) :
    ∃ r' t', r.add device = some r' ∧ Registered r' (devices ++ [device]) t' := by
  have hfresh : r.made ∉ addrs t := fun hmem => Nat.lt_irrefl _ (hr.below _ hmem)
  have hsize := hr.toList_length
  obtain ⟨h₁, hrun₁, hlinked, hframe₁⟩ := hr.links.linked.addR hfresh device
    (show t.toList.length ≤ r.bound by rw [hsize]; exact Nat.le_succ _)
  have hat := at_iff.mpr ⟨hlinked, by
    rw [plug_newLeaf]
    exact descending_insertLeaf hr.links.descending fun a ha =>
      hnew _ (hr.perm.mem_iff.mp (mem_map_of_mem ha))⟩
  obtain ⟨k, hv⟩ := hr.valid
  have hlen := length_searchPath (goLeft device) t []
  obtain ⟨h₂, root, w, hrun₂, hw, hroot, hvalid, hblack, hrep⟩ :=
    fixTree_spec (k := 0) (r.bound + 1) hat rfl
      (fits_searchPath _ (show Fits [] k from trivial) hv (.inl hr.black))
      ⟨⟨rfl, rfl⟩, rfl, rfl⟩ rfl (by
        rw [BetterDeviceRegistry.bound]
        simp only [length_nil] at hlen
        omega)
  rw [plug_newLeaf] at hrep
  refine ⟨⟨h₂, r.made + 1, some root, r.length + 1⟩, w, ?_, hw, hroot.symm, hvalid, hblack,
    fun a ha => ?_, fun a ha => ?_, ?_, hrep.perm hr.perm, ?_⟩
  · rw [hr.root.symm] at hrun₁
    simp [BetterDeviceRegistry.add, hrun₁, hrun₂]
  · by_contra hnot
    obtain ⟨hfresh', hnot'⟩ := not_or.mp (mt (hrep.mem_addrs a).mpr hnot)
    have hnot₁ : a ∉ addrs (insertLeaf (goLeft device) (r.made, device) t) := fun h =>
      not_or.mpr ⟨hfresh', hnot'⟩ (List.mem_cons.mp ((perm_addrs_insertLeaf t).mem_iff.mp h))
    have hkept : h₂ a = r.nodes a := (hrep.frame a hnot₁).trans (hframe₁ a hnot' hfresh')
    exact hnot' (hr.allocated a (hkept ▸ ha))
  · rcases (hrep.mem_addrs a).mp ha with rfl | ha
    · exact Nat.lt_succ_self _
    · exact Nat.lt_succ_of_lt (hr.below a ha)
  · simp [hr.made]
  · simp [hr.length]

/-- **Devices with distinct ids are added.** -/
theorem Registered.addAll {r : BetterDeviceRegistry} (hr : Registered r devices t)
    (new : List IoTDevice) (hids : ((devices ++ new).map IoTDevice.numericalId).Nodup) :
    ∃ r' t', r.addAll new = some r' ∧ Registered r' (devices ++ new) t' := by
  induction new generalizing r devices t with
  | nil => exact ⟨r, t, rfl, by simpa using hr⟩
  | cons device new ih =>
    have hnew : ∀ d ∈ devices, d.numericalId ≠ device.numericalId := fun d hd => by
      rw [map_append, nodup_append] at hids
      exact hids.2.2 _ (mem_map_of_mem hd) _ (mem_map_of_mem mem_cons_self)
    obtain ⟨r₁, t₁, hadd, hr₁⟩ := hr.add hnew
    obtain ⟨r₂, t₂, haddAll, hr₂⟩ := ih hr₁ (by rwa [append_assoc])
    exact ⟨r₂, t₂, by simp [BetterDeviceRegistry.addAll, hadd, haddAll],
      by rwa [append_assoc] at hr₂⟩

end RustExample.DeviceRegistry
