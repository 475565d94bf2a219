import RustExample.DeviceBtree.Sound

/-!
# Devices with the same id in the database

With repeated ids `add` is the insertion into a B-tree that places its entries. The devices are kept
as long as no entry is placed behind a tree with larger ids.
-/

namespace RustExample.DeviceBtree

open BTree

/-! ### The database -/

/-- A database with devices, some with the same id: the root is a B-tree of them. -/
structure Holding (db : DeviceDatabase) (devices : List IoTDevice) (d : ℕ)
    (t : Tree IoTDevice d) : Prop where
  root : db.root = some (toNode d t)
  ascends : Ascends idOf (toList d t)
  perm : (toList d t).Perm devices
  filled : Filled ((db.order - 1) / 2) (db.order - 1) 1 d t
  length : db.length = devices.length

/-- A database keeps devices: a walk visits them in the order of the ids, as often as they were
added, and a lookup finds one with the id. -/
structure Kept (db : DeviceDatabase) (devices : List IoTDevice) : Prop where
  walk : ∃ visited, db.walk = some visited ∧ visited.Perm devices ∧ Ascends idOf visited ∧
    db.length = visited.length
  find : ∀ id, ∃ found, db.find id = some found ∧
    (found.isSome ↔ ∃ a ∈ devices, a.numericalId = id)

/-- No entry is placed behind a tree with larger ids, when the device is added. -/
def Passes (db : DeviceDatabase) (device : IoTDevice) : Prop :=
  ∀ d (t : Tree IoTDevice d), db.root = some (toNode d t) →
    Placeable idOf device db.order d t

variable {db : DeviceDatabase} {devices : List IoTDevice} {device : IoTDevice} {d : ℕ}
  {t : Tree IoTDevice d}

theorem passes_of_leaf (hleaf : ∀ node, db.root = some node → node.nodeType = .leaf) :
    Passes db device := by
  intro d t ht
  have htype := hleaf _ ht
  cases d with
  | zero => exact trivial
  | succ d => exact absurd htype (by simp [toNode, level])

theorem Holding.depth_lt (h : Holding db devices d t) (horder : 3 ≤ db.order) :
    d < devices.length := by
  rw [← h.perm.length_eq]
  exact h.filled.depth_lt (Nat.le_refl 1) (by omega)

theorem holding_first (order : ℕ) (horder : 3 ≤ order) (device : IoTDevice) :
    ∃ db, (DeviceDatabase.newEmpty order).add device = some db ∧ db.order = order ∧
      Holding db [device] 0 [device] := by
  obtain ⟨db, hrun, hord, h⟩ := stored_first order horder device
  exact ⟨db, hrun, hord, h.root, List.pairwise_singleton _ _, h.perm, h.filled, h.length⟩

/-- **A device is added.** -/
theorem Holding.add (h : Holding db devices d t) (horder : 3 ≤ db.order)
    (hpass : Passes db device) :
    ∃ db' e s, db.add device = some db' ∧ db'.order = db.order ∧
      @Holding db' (devices ++ [device]) e s := by
  have hdepth := h.depth_lt horder
  have hrun := addR_placed (by omega : 0 < db.order) device d t h.ascends (db.length + 1)
    (by rw [h.length]; omega) db.length true
  obtain ⟨hasc, hperm⟩ := insertPlaced_spec (by omega : 0 < db.order) device d t h.ascends
    (hpass d t h.root)
  have hfilled := filled_insertPlaced (by omega : 0 < db.order) device d t h.ascends h.filled
  have hperm' := (hperm.trans (h.perm.cons device)).trans
    (List.perm_append_singleton device devices).symm
  obtain ⟨db', e, s, hadd, hord, hroot, hlist, hfilled', hlength⟩ :=
    exists_add h.root horder hrun hfilled
  rw [← hlist] at hasc hperm'
  exact ⟨db', e, s, hadd, hord, hroot, hasc, hperm', hord ▸ hfilled', by simp [hlength, h.length]⟩

theorem Holding.kept (h : Holding db devices d t) (horder : 3 ≤ db.order) : Kept db devices := by
  have hbound : d < db.bound := by
    have hdepth := h.depth_lt horder
    rw [DeviceDatabase.bound, h.length]
    omega
  refine ⟨⟨toList d t, ?_, h.perm, h.ascends, ?_⟩, fun id => ?_⟩
  · rw [DeviceDatabase.walk, h.root]
    exact walkInOrder_spec d t db.bound hbound
  · rw [h.length, h.perm.length_eq]
  · have hordered : Ordered (toList d t) := h.ascends.imp UInt64.le_iff_toNat_le.mpr
    obtain ⟨found, hrun, hfinds⟩ := findR_ordered id d t hordered db.bound hbound
    refine ⟨found, by rw [DeviceDatabase.find, h.root]; exact hrun, ?_⟩
    rcases hfound : found with _ | a
    · simp only [Option.isSome_none, Bool.false_eq_true, false_iff, not_exists, not_and]
      exact fun a ha => hfinds.none hfound a (h.perm.mem_iff.mpr ha)
    · obtain ⟨ha, hid⟩ := hfinds.some a hfound
      exact iff_of_true rfl ⟨a, h.perm.mem_iff.mp ha, hid⟩

theorem kept_newEmpty (order : ℕ) : Kept (DeviceDatabase.newEmpty order) [] :=
  ⟨⟨[], rfl, .refl _, List.Pairwise.nil, rfl⟩, fun _ => ⟨none, rfl, by simp⟩⟩

/-! ### Runs -/

/-- No entry is placed behind a tree with larger ids, whenever a device is added. -/
def AllPass : DeviceDatabase → List IoTDevice → Prop
  | _, [] => True
  | db, device :: devices =>
    Passes db device ∧ ∀ db', db.add device = some db' → AllPass db' devices

theorem Holding.addAll (h : Holding db devices d t) (horder : 3 ≤ db.order)
    (new : List IoTDevice) (hpass : AllPass db new) :
    ∃ db' e s, db.addAll new = some db' ∧ db'.order = db.order ∧
      @Holding db' (devices ++ new) e s := by
  induction new generalizing db devices d with
  | nil => exact ⟨db, d, t, rfl, rfl, by simpa using h⟩
  | cons device new ih =>
    obtain ⟨hpass, hrest⟩ := hpass
    obtain ⟨db₁, d₁, t₁, hadd, hord₁, h₁⟩ := h.add horder hpass
    obtain ⟨db₂, d₂, t₂, haddAll, hord₂, h₂⟩ := ih h₁ (by omega) (hrest db₁ hadd)
    exact ⟨db₂, d₂, t₂, by simp [DeviceDatabase.addAll, hadd, haddAll], by omega,
      by rwa [List.append_assoc] at h₂⟩

/-- **A database keeps the devices**, if no entry is placed behind a tree with larger ids. -/
theorem kept_of_allPass (order : ℕ) (horder : 3 ≤ order)
    (hpass : AllPass (.newEmpty order) devices) :
    ∃ db, (DeviceDatabase.newEmpty order).addAll devices = some db ∧ Kept db devices := by
  rcases devices with _ | ⟨device, devices⟩
  · exact ⟨_, rfl, kept_newEmpty order⟩
  · obtain ⟨db₁, hadd, hord₁, h₁⟩ := holding_first order horder device
    obtain ⟨db₂, d₂, t₂, haddAll, hord₂, h₂⟩ :=
      h₁.addAll (by omega) devices (hpass.2 db₁ hadd)
    exact ⟨db₂, by simp [DeviceDatabase.addAll, hadd, haddAll], h₂.kept (by omega)⟩

end RustExample.DeviceBtree
