import RustExample.DeviceBtree.Repeated
import RustExample.DeviceRegistry.Repeated

/-!
# Trees of devices with repeated ids

The registry and the database take devices with the same id as separate ones, and find the sides of
nodes and the places of keys by comparing ids. Both keep the devices as long as no comparison of
equal ids moves a subtree to another place.

Source: `red_black_tree_example/src/lib.rs`, `btree_example/src/lib.rs`.
-/

namespace RustExample.RepeatedIds

open DeviceRegistry (BetterDeviceRegistry)
open DeviceBtree (DeviceDatabase)

/-- **Repeated ids lose nothing**, if no repair of the registry is misled and no entry of the
database is placed behind a tree with larger ids. -/
theorem trees_keep_devices (order : ℕ) (horder : 3 ≤ order)
    (registered : List DeviceRegistry.IoTDevice) (stored : List DeviceBtree.IoTDevice) :
    (DeviceRegistry.AllPass .newEmpty registered →
      ∃ r, BetterDeviceRegistry.newEmpty.addAll registered = some r ∧
        DeviceRegistry.Kept r registered) ∧
    (DeviceBtree.AllPass (.newEmpty order) stored →
      ∃ db, (DeviceDatabase.newEmpty order).addAll stored = some db ∧
        DeviceBtree.Kept db stored) :=
  ⟨DeviceRegistry.kept_of_allPass, DeviceBtree.kept_of_allPass order horder⟩

/-- Three devices with one id: the registry rotates and the leaf of the database splits. -/
theorem trees_keep_three_devices :
    (∃ r, BetterDeviceRegistry.newEmpty.addAll [⟨5, "a", "A"⟩, ⟨5, "b", "B"⟩, ⟨5, "c", "C"⟩] =
        some r ∧ DeviceRegistry.Kept r [⟨5, "a", "A"⟩, ⟨5, "b", "B"⟩, ⟨5, "c", "C"⟩]) ∧
    ∃ db, (DeviceDatabase.newEmpty 3).addAll [⟨5, "a", "A"⟩, ⟨5, "b", "B"⟩, ⟨5, "c", "C"⟩] =
        some db ∧ DeviceBtree.Kept db [⟨5, "a", "A"⟩, ⟨5, "b", "B"⟩, ⟨5, "c", "C"⟩] := by
  obtain ⟨hregistry, hdatabase⟩ := trees_keep_devices 3 (Nat.le_refl 3)
    [⟨5, "a", "A"⟩, ⟨5, "b", "B"⟩, ⟨5, "c", "C"⟩] [⟨5, "a", "A"⟩, ⟨5, "b", "B"⟩, ⟨5, "c", "C"⟩]
  refine ⟨hregistry ⟨DeviceRegistry.passes_of_root_none rfl, ?_⟩,
    hdatabase ⟨DeviceBtree.passes_of_leaf nofun, ?_⟩⟩
  · rintro _ ⟨⟩
    refine ⟨DeviceRegistry.passes_of_holds (t := .node .black .leaf (0, ⟨5, "a", "A"⟩) .leaf)
      ⟨rfl, trivial, trivial⟩ rfl trivial, ?_⟩
    rintro _ ⟨⟩
    refine ⟨DeviceRegistry.passes_of_holds (t := .node .black
      (.node .red .leaf (1, ⟨5, "b", "B"⟩) .leaf) (0, ⟨5, "a", "A"⟩) .leaf)
      ⟨rfl, ⟨rfl, trivial, trivial⟩, trivial⟩ rfl ?_, fun _ _ => trivial⟩
    exact fun _ => ⟨nofun, fun h => absurd rfl h⟩
  · rintro _ ⟨⟩
    refine ⟨DeviceBtree.passes_of_leaf (by rintro _ ⟨⟩; rfl), ?_⟩
    rintro _ ⟨⟩
    exact ⟨DeviceBtree.passes_of_leaf (by rintro _ ⟨⟩; rfl), fun _ _ => trivial⟩

/-- Seven devices, four of them with one id, whose keys fill a node of a database of order 4. -/
def sevenDevices : List DeviceBtree.IoTDevice :=
  [⟨5, "a", "A"⟩, ⟨5, "b", "B"⟩, ⟨5, "c", "C"⟩, ⟨5, "d", "D"⟩, ⟨6, "e", "E"⟩, ⟨4, "f", "F"⟩,
    ⟨3, "g", "G"⟩]

/-- Five devices, three of them with one id. -/
def fiveDevices : List DeviceRegistry.IoTDevice :=
  [⟨5, "a", "A"⟩, ⟨5, "b", "B"⟩, ⟨5, "c", "C"⟩, ⟨3, "d", "D"⟩, ⟨2, "e", "E"⟩]

/-- A rotation attaches a subtree where the third device was: a walk visits the first device twice.
An entry that goes up is placed behind a tree with its id: a lookup of another device goes to the
tree of the entry. -/
theorem trees_lose_devices :
    (∃ r, BetterDeviceRegistry.newEmpty.addAll fiveDevices = some r ∧
      r.walk = some [⟨5, "a", "A"⟩, ⟨3, "d", "D"⟩, ⟨2, "e", "E"⟩, ⟨5, "b", "B"⟩, ⟨5, "a", "A"⟩] ∧
      ¬ DeviceRegistry.Kept r fiveDevices) ∧
    ∃ db, (DeviceDatabase.newEmpty 4).addAll sevenDevices = some db ∧
      db.walk = some [⟨3, "g", "G"⟩, ⟨4, "f", "F"⟩, ⟨5, "c", "C"⟩, ⟨5, "d", "D"⟩, ⟨6, "e", "E"⟩,
        ⟨5, "a", "A"⟩, ⟨5, "b", "B"⟩] ∧
      db.find 6 = some none ∧ ¬ DeviceBtree.Kept db sevenDevices := by
  have hregistry : (BetterDeviceRegistry.newEmpty.addAll fiveDevices).bind (·.walk) =
      some [⟨5, "a", "A"⟩, ⟨3, "d", "D"⟩, ⟨2, "e", "E"⟩, ⟨5, "b", "B"⟩, ⟨5, "a", "A"⟩] := by
    decide
  have hdatabase : ((DeviceDatabase.newEmpty 4).addAll sevenDevices).map
      (fun db => (db.walk, db.find 6)) =
        some (some [⟨3, "g", "G"⟩, ⟨4, "f", "F"⟩, ⟨5, "c", "C"⟩, ⟨5, "d", "D"⟩, ⟨6, "e", "E"⟩,
          ⟨5, "a", "A"⟩, ⟨5, "b", "B"⟩], some none) := by
    decide
  obtain ⟨r, hadd, hwalk⟩ := Option.bind_eq_some_iff.mp hregistry
  obtain ⟨db, hadd', hread⟩ := Option.map_eq_some_iff.mp hdatabase
  obtain ⟨hwalk', hfind⟩ := Prod.mk.inj hread
  refine ⟨⟨r, hadd, hwalk, fun hkept => ?_⟩, db, hadd', hwalk', hfind, fun hkept => ?_⟩
  · obtain ⟨visited, hvisited, hperm, -⟩ := hkept.walk
    have hlost : ⟨5, "c", "C"⟩ ∈ visited := hperm.mem_iff.mpr (by decide)
    rw [← Option.some.inj (hwalk.symm.trans hvisited)] at hlost
    exact absurd hlost (by decide)
  · obtain ⟨found, hfound, hiff⟩ := hkept.find 6
    obtain ⟨⟩ := hfind.symm.trans hfound
    exact absurd (hiff.mpr ⟨⟨6, "e", "E"⟩, by decide, rfl⟩) (by decide)

end RustExample.RepeatedIds
