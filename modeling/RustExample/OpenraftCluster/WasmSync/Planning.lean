import RustExample.Foundation.Upsert
import RustExample.OpenraftCluster.Membership.Group
import RustExample.OpenraftCluster.WasmSync.Manifest

/-!
# Planning which modules to fetch

Nodes announce their modules, and a node keeps in mind which nodes offer a content hash. It plans to
fetch the offers whose names are not in its store. The first announcement of a hash decides under
which name the hash is remembered.

Source: `src/wasm_sync/service.rs`.

* Times are natural numbers. The announcements and the prunes of a node are a list of events.
* The store is its list of names and what `manifest_for_file` returns for each.
* A map is a list of entries with distinct keys.
-/

namespace RustExample.OpenraftCluster

open List

/-! ### Announcements -/

/-- What is told of a module. -/
structure WasmModuleSummary where
  name : String
  sha256 : String
  size : ℕ
  deriving DecidableEq

/-- What a node announces. -/
structure WasmInventoryAnnouncement where
  nodeId : NodeId
  modules : List WasmModuleSummary

/-- One remembered offer, with the time at which each node announced it last. -/
structure ProviderEntry where
  name : String
  size : ℕ
  nodes : List (NodeId × ℕ)

/-- The entries by their content hash. -/
abbrev Providers := List (String × ProviderEntry)

/-- An offer that is not ignored. -/
def WasmModuleSummary.Valid (offer : WasmModuleSummary) : Prop :=
  isValidModuleName offer.name = true ∧ offer.size ≠ 0

instance : DecidablePred WasmModuleSummary.Valid := fun _ => inferInstanceAs (Decidable (_ ∧ _))

/-- Notes that a node has a module. -/
def recordModule (now : ℕ) (node : NodeId) (providers : Providers) (offer : WasmModuleSummary) :
    Providers :=
  if ¬offer.Valid then providers
  else
    let entry := match findBy Prod.fst providers offer.sha256 with
      | some (_, entry) => entry
      | none => ⟨offer.name, offer.size, []⟩
    upsertBy Prod.fst providers
      (offer.sha256, { entry with nodes := upsertBy Prod.fst entry.nodes (node, now) })

/-- Notes what a node announces. -/
def recordAnnouncement (now : ℕ) (providers : Providers)
    (announcement : WasmInventoryAnnouncement) : Providers :=
  announcement.modules.foldl (recordModule now announcement.nodeId) providers

/-- Forgets announcements that are too old. -/
def pruneProviders (now ttl : ℕ) (providers : Providers) : Providers :=
  providers.filterMap fun (sha256, entry) =>
    let nodes := entry.nodes.filter fun (_, lastSeen) => now - lastSeen < ttl
    if nodes.isEmpty then none else some (sha256, { entry with nodes })

/-- What may happen. -/
inductive ProviderEvent where
  | announce (now : ℕ) (announcement : WasmInventoryAnnouncement)
  | prune (now ttl : ℕ)

/-- What an event does. -/
def ProviderEvent.apply (providers : Providers) : ProviderEvent → Providers
  | .announce now announcement => recordAnnouncement now providers announcement
  | .prune now ttl => pruneProviders now ttl providers

/-- What is remembered after some events. -/
def providersAfter (es : List ProviderEvent) : Providers := es.foldl ProviderEvent.apply []

/-- The nodes that are asked for a module. -/
def currentSources (providers : Providers) (sha256 : String) : List NodeId :=
  match findBy Prod.fst providers sha256 with
  | some (_, entry) => entry.nodes.map Prod.fst
  | none => []

/-! ### Plans -/

/-- The store, as it is read. -/
structure WasmModuleStore where
  list : List String
  manifestForFile : String → Except String WasmModuleManifest

namespace WasmModuleStore

/-- The content hash of a local module that can be read. -/
def localHash (store : WasmModuleStore) (name : String) : Option String :=
  if name ∈ store.list then
    match store.manifestForFile name with
    | .ok manifest => some manifest.sha256
    | .error _ => none
  else none

/-- A module is in the list, and its manifest cannot be made. -/
def Unreadable (store : WasmModuleStore) (name : String) : Prop :=
  name ∈ store.list ∧ store.localHash name = none

end WasmModuleStore

/-- The order of a plan: by name, then by content hash. -/
def planBefore (a b : String × WasmModuleSummary) : Bool :=
  decide (a.2.name < b.2.name) || (a.2.name == b.2.name && decide (a.1 ≤ b.1))

/-- An entry is wanted if there is no local hash for its name; another hash is left alone. -/
def wantedModule (store : WasmModuleStore) (e : String × ProviderEntry) :
    Option (String × WasmModuleSummary) :=
  match store.localHash e.2.name with
  | none => some (e.1, ⟨e.2.name, e.1, e.2.size⟩)
  | some _ => none

/-- The modules that are to be downloaded. -/
def planWantedModules (store : WasmModuleStore) (providers : Providers) :
    List (String × WasmModuleSummary) :=
  (providers.filterMap (wantedModule store)).mergeSort planBefore

/-! ### The offers of the events -/

/-- The offers of an announcement that are not ignored. -/
def WasmInventoryAnnouncement.offers (a : WasmInventoryAnnouncement) :
    List (NodeId × WasmModuleSummary) :=
  (a.modules.filter fun offer => offer.Valid).map fun offer => (a.nodeId, offer)

/-- The announcements in the order of their arrival. -/
def announcementsOf : List ProviderEvent → List WasmInventoryAnnouncement
  | [] => []
  | .announce _ a :: es => a :: announcementsOf es
  | .prune _ _ :: es => announcementsOf es

/-- No announcement is expired when a prune looks at it. -/
def Unexpired (es : List ProviderEvent) : Prop :=
  ∀ es₁ es₂ now ttl, es = es₁ ++ .prune now ttl :: es₂ →
    ∀ lastSeen a, .announce lastSeen a ∈ es₁ → now - lastSeen < ttl

/-- What a plan should have: every offer whose name is missing, with the nodes that announced its
hash, and nothing else of the store. -/
structure PlanComplete (store : WasmModuleStore) (es : List ProviderEvent) : Prop where
  planned : ∀ o ∈ (announcementsOf es).flatMap (·.offers), o.2.name ∉ store.list →
    ∃ wanted, (o.2.sha256, wanted) ∈ planWantedModules store (providersAfter es) ∧
      wanted.name = o.2.name ∧ ∀ node, node ∈ currentSources (providersAfter es) o.2.sha256 ↔
        ∃ o' ∈ (announcementsOf es).flatMap (·.offers), o'.1 = node ∧ o'.2.sha256 = o.2.sha256
  absent : ∀ wanted ∈ planWantedModules store (providersAfter es), wanted.2.name ∉ store.list

/-- The first offer of a content hash in each announcement that has one. -/
def firstOffers (announcements : List WasmInventoryAnnouncement) (sha256 : String) :
    List WasmModuleSummary :=
  announcements.filterMap fun a => a.modules.find? fun offer => offer.Valid ∧ offer.sha256 = sha256

/-- The announcements agree on the name and the size of a missing hash, and none is offered first
under the name of an unreadable module. -/
def ConsistentOffers (store : WasmModuleStore)
    (announcements : List WasmInventoryAnnouncement) : Prop :=
  ∀ sha256, ∀ first ∈ firstOffers announcements sha256, ¬store.Unreadable first.name ∧
    (∀ o ∈ announcements.flatMap (·.offers), o.2.sha256 = sha256 → o.2.name ∉ store.list →
      first.name = o.2.name) ∧
    ∀ other ∈ firstOffers announcements sha256, first.name ∉ store.list → other.size = first.size

variable {providers : Providers} {offers : List (NodeId × WasmModuleSummary)}
  {o : WasmModuleSummary} {now : ℕ} {node : NodeId} {es : List ProviderEvent}
  {store : WasmModuleStore} {sha256 : String}

/-! ### One offer -/

theorem findBy_recordModule (hvalid : o.Valid) (k : String) :
    (findBy Prod.fst (recordModule now node providers o) k).map (fun e => (e.2.name, e.2.size)) =
      ((findBy Prod.fst providers k).map fun e => (e.2.name, e.2.size)).or
        (if o.sha256 = k then some (o.name, o.size) else none) := by
  rw [recordModule, if_neg (not_not.mpr hvalid), findBy_upsertBy]
  by_cases hk : o.sha256 = k
  · subst hk
    cases findBy Prod.fst providers o.sha256 <;> simp
  · simp [hk]

theorem mem_currentSources_recordModule (hvalid : o.Valid) (k : String) (n : NodeId) :
    n ∈ currentSources (recordModule now node providers o) k ↔
      n ∈ currentSources providers k ∨ o.sha256 = k ∧ n = node := by
  have hupsert (nodes : List (NodeId × ℕ)) :
      n ∈ (upsertBy Prod.fst nodes (node, now)).map Prod.fst ↔
        n ∈ nodes.map Prod.fst ∨ n = node := by
    rw [map_upsertBy]
    split_ifs with hmem
    · refine ⟨.inl, fun hor => hor.elim id ?_⟩
      rintro rfl
      exact hmem
    · simp
  rw [recordModule, if_neg (not_not.mpr hvalid), currentSources, findBy_upsertBy]
  by_cases hk : o.sha256 = k
  · subst hk
    rw [if_pos rfl]
    simp only [hupsert, true_and, currentSources]
    cases findBy Prod.fst providers o.sha256 <;> simp
  · simp [hk, currentSources]

theorem nodup_recordModule (h : (providers.map Prod.fst).Nodup) :
    ((recordModule now node providers o).map Prod.fst).Nodup := by
  rw [recordModule]
  split_ifs
  · exact nodup_upsertBy h _
  · exact h

/-! ### What is remembered -/

/-- The entries have the names and sizes of the first offers, and the nodes of all. -/
structure Records (offers : List (NodeId × WasmModuleSummary)) (providers : Providers) : Prop where
  nodup : (providers.map Prod.fst).Nodup
  first : ∀ k, (findBy Prod.fst providers k).map (fun e => (e.2.name, e.2.size)) =
    (offers.find? fun o => o.2.sha256 = k).map fun o => (o.2.name, o.2.size)
  sources : ∀ k n, n ∈ currentSources providers k ↔ ∃ o ∈ offers, o.1 = n ∧ o.2.sha256 = k

theorem Records.module (h : Records offers providers) (hvalid : o.Valid) :
    Records (offers ++ [(node, o)]) (recordModule now node providers o) where
  nodup := nodup_recordModule h.nodup
  first k := by
    rw [findBy_recordModule hvalid, find?_append, h.first k, Option.map_or]
    by_cases hk : o.sha256 = k <;> simp [hk]
  sources k n := by
    rw [mem_currentSources_recordModule hvalid, h.sources]
    simp only [mem_append, mem_singleton, or_and_right, exists_or, exists_eq_left]
    exact or_congr Iff.rfl ⟨fun ⟨hk, hn⟩ => ⟨hn.symm, hk⟩, fun ⟨hn, hk⟩ => ⟨hk, hn.symm⟩⟩

theorem Records.announcement (h : Records offers providers) (a : WasmInventoryAnnouncement) :
    Records (offers ++ a.offers) (recordAnnouncement now providers a) := by
  obtain ⟨nodeId, modules⟩ := a
  rw [recordAnnouncement]
  induction modules generalizing offers providers with
  | nil => simpa [WasmInventoryAnnouncement.offers] using h
  | cons o modules ih =>
    by_cases hvalid : o.Valid
    · have hfirst : Records (offers ++ [(nodeId, o)]) (recordModule now nodeId providers o) :=
        h.module hvalid
      have hstep := ih hfirst
      simpa [WasmInventoryAnnouncement.offers, hvalid] using hstep
    · have hstep := ih h
      simpa [WasmInventoryAnnouncement.offers, hvalid, recordModule] using hstep

/-- The nodes of an entry announced it at one of the events. -/
def Dated (es : List ProviderEvent) (providers : Providers) : Prop :=
  ∀ e ∈ providers, e.2.nodes ≠ [] ∧ ∀ n ∈ e.2.nodes, ∃ a, .announce n.2 a ∈ es

variable {es' : List ProviderEvent}

theorem Dated.mono (h : Dated es providers) (hsub : es ⊆ es') :
    Dated es' providers := fun e he =>
  ⟨(h e he).1, fun n hn => ((h e he).2 n hn).imp fun _ ha => hsub ha⟩

theorem Dated.module {a : WasmInventoryAnnouncement} (h : Dated es providers)
    (hnow : .announce now a ∈ es) : Dated es (recordModule now node providers o) := by
  rw [recordModule]
  split_ifs
  · intro e he
    rcases eq_or_mem_of_mem_upsertBy he with rfl | he
    · refine ⟨ne_nil_of_mem (mem_upsertBy_self _ _), fun n hn => ?_⟩
      rcases eq_or_mem_of_mem_upsertBy hn with rfl | hn
      · exact ⟨a, hnow⟩
      · cases hfind : findBy Prod.fst providers o.sha256 with
        | none => simp [hfind] at hn
        | some e =>
          simp only [hfind] at hn
          exact (h e (mem_of_findBy hfind)).2 n hn
    · exact h e he
  · exact h

theorem Dated.announcement {a : WasmInventoryAnnouncement} (h : Dated es providers)
    (hnow : .announce now a ∈ es) : Dated es (recordAnnouncement now providers a) := by
  rw [recordAnnouncement]
  generalize a.modules = modules
  induction modules generalizing providers with
  | nil => exact h
  | cons o modules ih => exact ih (h.module hnow)

/-- A prune that finds nothing expired changes nothing. -/
theorem Dated.pruneProviders_eq {ttl : ℕ} (h : Dated es providers)
    (hfresh : ∀ lastSeen a, .announce lastSeen a ∈ es → now - lastSeen < ttl) :
    pruneProviders now ttl providers = providers := by
  have hkeep : ∀ e ∈ providers, (e.2.nodes.filter fun n => now - n.2 < ttl) = e.2.nodes := by
    intro e he
    refine List.filter_eq_self.mpr fun n hn => decide_eq_true ?_
    obtain ⟨a, ha⟩ := (h e he).2 n hn
    exact hfresh _ _ ha
  rw [pruneProviders]
  refine (filterMap_congr fun e he => ?_).trans filterMap_some
  simp [hkeep e he, (h e he).1]

theorem announcementsOf_append (es es' : List ProviderEvent) :
    announcementsOf (es ++ es') = announcementsOf es ++ announcementsOf es' := by
  induction es with
  | nil => rfl
  | cons e es ih => cases e <;> simp [announcementsOf, ih]

/-- **What is remembered after unexpired announcements**: all offers, each hash under the name and
the size of its first one. -/
theorem records_providersAfter (h : Unexpired es) :
    Records ((announcementsOf es).flatMap (·.offers)) (providersAfter es) ∧
      Dated es (providersAfter es) := by
  induction es using List.reverseRecOn with
  | nil =>
    refine ⟨⟨nodup_nil, fun _ => rfl, fun k n => ?_⟩, fun _ => nofun⟩
    simp [announcementsOf, currentSources, providersAfter, findBy]
  | append_singleton es e ih =>
    have hold : Unexpired es := fun es₁ es₂ now ttl hes =>
      h es₁ (es₂ ++ [e]) now ttl (by rw [hes, append_assoc, cons_append])
    obtain ⟨hrecords, hdated⟩ := ih hold
    have hafter : providersAfter (es ++ [e]) = ProviderEvent.apply (providersAfter es) e := by
      rw [providersAfter, foldl_append]
      rfl
    rw [hafter, announcementsOf_append, flatMap_append]
    cases e with
    | announce now a =>
      have hlast : ProviderEvent.announce now a ∈ es ++ [.announce now a] := by simp
      refine ⟨?_, (hdated.mono (subset_append_left es _)).announcement hlast⟩
      simpa [announcementsOf, ProviderEvent.apply] using hrecords.announcement a
    | prune now ttl =>
      have hsame : ProviderEvent.apply (providersAfter es) (.prune now ttl) = providersAfter es :=
        hdated.pruneProviders_eq fun lastSeen a => h es [] now ttl rfl lastSeen a
      rw [hsame]
      exact ⟨by simpa [announcementsOf] using hrecords,
        hdated.mono (subset_append_left es _)⟩

/-! ### What is planned -/

theorem find?_offers (a : WasmInventoryAnnouncement) (k : String) :
    (a.offers.find? fun o => o.2.sha256 = k).map Prod.snd =
      a.modules.find? fun offer => offer.Valid ∧ offer.sha256 = k := by
  rw [WasmInventoryAnnouncement.offers, find?_map, find?_filter, Option.map_map]
  simp [Function.comp_def]

theorem find?_flatMap_offers (announcements : List WasmInventoryAnnouncement) (k : String) :
    ((announcements.flatMap (·.offers)).find? fun o => o.2.sha256 = k).map Prod.snd =
      (firstOffers announcements k).head? := by
  rw [find?_flatMap, firstOffers, head?_filterMap]
  induction announcements with
  | nil => rfl
  | cons a announcements ih =>
    rw [findSome?_cons, findSome?_cons, ← find?_offers]
    cases a.offers.find? fun o => o.2.sha256 = k with
    | none => exact ih
    | some first => rfl

theorem wantedModule_eq_some {e : String × ProviderEntry} {p : String × WasmModuleSummary} :
    wantedModule store e = some p ↔
      store.localHash e.2.name = none ∧ (e.1, ⟨e.2.name, e.1, e.2.size⟩) = p := by
  rw [wantedModule]
  cases store.localHash e.2.name <;> simp

/-- **What is planned**: the first offer of each hash, unless a readable module has its name. -/
theorem mem_planWantedModules (h : Unexpired es) {wanted : WasmModuleSummary} :
    (sha256, wanted) ∈ planWantedModules store (providersAfter es) ↔
      ∃ first, (firstOffers (announcementsOf es) sha256).head? = some first ∧
        store.localHash first.name = none ∧ wanted = ⟨first.name, sha256, first.size⟩ := by
  have hrecords := (records_providersAfter h).1
  have hfirst : (findBy Prod.fst (providersAfter es) sha256).map (fun e => (e.2.name, e.2.size)) =
      (firstOffers (announcementsOf es) sha256).head?.map fun o => (o.name, o.size) := by
    rw [hrecords.first, ← find?_flatMap_offers, Option.map_map]
    rfl
  rw [planWantedModules, mem_mergeSort, mem_filterMap]
  constructor
  · rintro ⟨⟨k, entry⟩, hmem, hwanted⟩
    obtain ⟨hhash, heq⟩ := wantedModule_eq_some.mp hwanted
    obtain ⟨⟩ := heq
    have hfind : findBy Prod.fst (providersAfter es) k = some (k, entry) :=
      findBy_of_mem hrecords.nodup hmem
    rw [hfind] at hfirst
    obtain ⟨first, hhead, heq⟩ := Option.map_eq_some_iff.mp hfirst.symm
    obtain ⟨hname, hsize⟩ := Prod.mk.inj heq
    exact ⟨first, hhead, hname ▸ hhash, by rw [hname, hsize]⟩
  · rintro ⟨first, hhead, hhash, rfl⟩
    rw [hhead] at hfirst
    obtain ⟨⟨k, entry⟩, hfind, heq⟩ := Option.map_eq_some_iff.mp hfirst
    obtain ⟨hname, hsize⟩ := Prod.mk.inj heq
    obtain rfl : k = sha256 := key_eq_of_findBy Prod.fst hfind
    refine ⟨(k, entry), mem_of_findBy hfind, wantedModule_eq_some.mpr ⟨hname ▸ hhash, ?_⟩⟩
    rw [hname, hsize]

theorem nodup_planWantedModules (h : Unexpired es) :
    (planWantedModules store (providersAfter es)).Nodup := by
  refine (mergeSort_perm _ _).nodup_iff.mpr ?_
  have hkeys : (providersAfter es).Pairwise fun a b => a.1 ≠ b.1 :=
    List.pairwise_map.mp (records_providersAfter h).1.nodup
  refine List.Pairwise.filterMap _ (fun a a' hne b hb b' hb' hbb => hne ?_) hkeys
  rw [← hbb] at hb'
  obtain ⟨-, heq⟩ := wantedModule_eq_some.mp hb
  obtain ⟨-, heq'⟩ := wantedModule_eq_some.mp hb'
  exact (Prod.mk.inj (heq.trans heq'.symm)).1

/-! ### Complete plans -/

theorem unexpired_of_announcements (h : ∀ now ttl, .prune now ttl ∉ es) : Unexpired es := by
  intro es₁ es₂ now ttl hes
  have hmem : ProviderEvent.prune now ttl ∈ es := by
    rw [hes]
    exact mem_append_right es₁ mem_cons_self
  exact absurd hmem (h now ttl)

variable {announcements : List WasmInventoryAnnouncement}

/-- An announcement that has a first offer may come first. -/
theorem exists_perm_head {first : WasmModuleSummary}
    (h : first ∈ firstOffers announcements sha256) :
    ∃ es, Unexpired es ∧ (announcementsOf es).Perm announcements ∧
      (firstOffers (announcementsOf es) sha256).head? = some first := by
  obtain ⟨a, ha, hfirst⟩ := List.mem_filterMap.mp h
  obtain ⟨l, l', rfl⟩ := append_of_mem ha
  have hevents (as : List WasmInventoryAnnouncement) :
      announcementsOf (as.map (.announce 0)) = as := by
    induction as with
    | nil => rfl
    | cons a as ih => rw [map_cons, announcementsOf, ih]
  refine ⟨(a :: (l ++ l')).map (.announce 0), unexpired_of_announcements (by simp), ?_, ?_⟩
  · rw [hevents]
    exact List.perm_middle.symm
  · rw [hevents, firstOffers, head?_filterMap, findSome?_cons, hfirst]

theorem firstOffers_perm {announcements' : List WasmInventoryAnnouncement}
    (h : announcements.Perm announcements') (sha256 : String) :
    (firstOffers announcements sha256).Perm (firstOffers announcements' sha256) :=
  h.filterMap _

theorem exists_head_of_offer {o : NodeId × WasmModuleSummary}
    (h : o ∈ announcements.flatMap (·.offers)) :
    ∃ first, (firstOffers announcements o.2.sha256).head? = some first := by
  rw [← find?_flatMap_offers]
  cases hfind : (announcements.flatMap (·.offers)).find? fun o' => o'.2.sha256 = o.2.sha256 with
  | none => exact absurd (List.find?_eq_none.mp hfind o h) (by simp)
  | some first => exact ⟨first.2, rfl⟩

theorem exists_offer_of_first {first : WasmModuleSummary}
    (h : first ∈ firstOffers announcements sha256) :
    first.sha256 = sha256 ∧ ∃ node, (node, first) ∈ announcements.flatMap (·.offers) := by
  obtain ⟨a, ha, hfirst⟩ := List.mem_filterMap.mp h
  have hfound := find?_some hfirst
  obtain ⟨hvalid, hsha⟩ := of_decide_eq_true hfound
  refine ⟨hsha, a.nodeId, List.mem_flatMap.mpr ⟨a, ha, List.mem_map.mpr ⟨first, ?_, rfl⟩⟩⟩
  exact List.mem_filter.mpr ⟨mem_of_find?_eq_some hfirst, decide_eq_true hvalid⟩

theorem localHash_eq_none_iff {name : String} :
    store.localHash name = none ↔ name ∉ store.list ∨ store.Unreadable name := by
  rw [WasmModuleStore.Unreadable, WasmModuleStore.localHash]
  by_cases hname : name ∈ store.list <;> simp [hname]

/-- Consistent announcements are planned alike in any order. -/
theorem ConsistentOffers.mem_plan (h : ConsistentOffers store announcements) (hes : Unexpired es)
    (hes' : Unexpired es') (hperm : (announcementsOf es).Perm announcements)
    (hperm' : (announcementsOf es').Perm announcements) {p : String × WasmModuleSummary}
    (hp : p ∈ planWantedModules store (providersAfter es)) :
    p ∈ planWantedModules store (providersAfter es') := by
  obtain ⟨k, wanted⟩ := p
  obtain ⟨first, hhead, hhash, rfl⟩ := (mem_planWantedModules hes).mp hp
  have hfirst : first ∈ firstOffers announcements k :=
    (firstOffers_perm hperm k).mem_iff.mp (mem_of_head? hhead)
  obtain ⟨hreadable, -, hsize⟩ := h k first hfirst
  have habsent : first.name ∉ store.list :=
    (localHash_eq_none_iff.mp hhash).resolve_right hreadable
  obtain ⟨hsha, node, hoffer⟩ := exists_offer_of_first hfirst
  obtain ⟨first', hhead'⟩ := exists_head_of_offer
    ((hperm'.flatMap_right _).mem_iff.mpr hoffer)
  simp only [hsha] at hhead'
  have hfirst' : first' ∈ firstOffers announcements k :=
    (firstOffers_perm hperm' k).mem_iff.mp (mem_of_head? hhead')
  have hname : first'.name = first.name := (h k first' hfirst').2.1 _ hoffer hsha habsent
  refine (mem_planWantedModules hes').mpr ⟨first', hhead', hname ▸ hhash, ?_⟩
  rw [hname, hsize first' hfirst' habsent]

/-- **When every plan is complete**: in whatever order some announcements arrive, the plan has every
offer whose name is missing and no other, and is the same, exactly if the announcements are
consistent. -/
theorem plan_complete_iff (store : WasmModuleStore)
    (announcements : List WasmInventoryAnnouncement) :
    (∀ es, (announcementsOf es).Perm announcements → Unexpired es → PlanComplete store es ∧
      ∀ es', (announcementsOf es').Perm announcements → Unexpired es' →
        (planWantedModules store (providersAfter es')).Perm
          (planWantedModules store (providersAfter es))) ↔
      ConsistentOffers store announcements := by
  constructor
  · intro h sha256 first hfirst
    obtain ⟨es, hes, hperm, hhead⟩ := exists_perm_head hfirst
    obtain ⟨hcomplete, hsame⟩ := h es hperm hes
    have hplanned (hhash : store.localHash first.name = none) :
        (sha256, ⟨first.name, sha256, first.size⟩) ∈
          planWantedModules store (providersAfter es) :=
      (mem_planWantedModules hes).mpr ⟨first, hhead, hhash, rfl⟩
    refine ⟨fun hunreadable => ?_, fun o ho hsha habsent => ?_, fun other hother habsent => ?_⟩
    · exact hcomplete.absent _ (hplanned hunreadable.2) hunreadable.1
    · obtain ⟨wanted, hmem, hname, -⟩ := hcomplete.planned o
        ((hperm.flatMap_right _).mem_iff.mpr ho) habsent
      rw [hsha] at hmem
      obtain ⟨first', hhead', -, rfl⟩ := (mem_planWantedModules hes).mp hmem
      obtain ⟨⟩ := hhead.symm.trans hhead'
      exact hname
    · obtain ⟨es', hes', hperm', hhead'⟩ := exists_perm_head hother
      have hmem := (hsame es' hperm' hes').mem_iff.mpr
        (hplanned (localHash_eq_none_iff.mpr (.inl habsent)))
      obtain ⟨other', hother', -, heq⟩ := (mem_planWantedModules hes').mp hmem
      obtain ⟨⟩ := hhead'.symm.trans hother'
      exact (congrArg WasmModuleSummary.size heq).symm
  · intro h es hperm hes
    refine ⟨⟨fun o ho habsent => ?_, fun p hp hmem => ?_⟩, fun es' hperm' hes' => ?_⟩
    · obtain ⟨first, hhead⟩ := exists_head_of_offer ho
      have hfirst : first ∈ firstOffers announcements o.2.sha256 :=
        (firstOffers_perm hperm _).mem_iff.mp (mem_of_head? hhead)
      have hname : first.name = o.2.name := (h _ first hfirst).2.1 o
        ((hperm.flatMap_right _).mem_iff.mp ho) rfl habsent
      have hhash : store.localHash first.name = none :=
        localHash_eq_none_iff.mpr (.inl (hname ▸ habsent))
      exact ⟨_, (mem_planWantedModules hes).mpr ⟨first, hhead, hhash, rfl⟩, hname,
        (records_providersAfter hes).1.sources o.2.sha256⟩
    · obtain ⟨first, hhead, hhash, heq⟩ := (mem_planWantedModules hes).mp hp
      have hfirst : first ∈ firstOffers announcements p.1 :=
        (firstOffers_perm hperm _).mem_iff.mp (mem_of_head? hhead)
      rw [heq] at hmem
      exact (h p.1 first hfirst).1 ⟨hmem, hhash⟩
    · refine (perm_ext_iff_of_nodup (nodup_planWantedModules hes')
        (nodup_planWantedModules hes)).mpr fun p => ⟨?_, ?_⟩
      · exact h.mem_plan hes' hes hperm' hperm
      · exact h.mem_plan hes hes' hperm hperm'

/-- An empty store, and two nodes that offer the same content under two names. -/
def twoNames : List ProviderEvent :=
  [.announce 0 ⟨"peer-a", [⟨"a.wasm", "5f", 10⟩]⟩, .announce 0 ⟨"peer-b", [⟨"b.wasm", "5f", 10⟩]⟩]

/-- The second name is missing, and is not planned. -/
theorem second_name_not_planned :
    Unexpired twoNames ∧ ¬PlanComplete ⟨[], fun _ => .error ""⟩ twoNames := by
  have hes : Unexpired twoNames := unexpired_of_announcements (by simp [twoNames])
  refine ⟨hes, fun h => ?_⟩
  have hoffer : ("peer-b", ⟨"b.wasm", "5f", 10⟩) ∈
      (announcementsOf twoNames).flatMap (·.offers) := by decide +kernel
  obtain ⟨wanted, hmem, hname, -⟩ := h.planned _ hoffer (by simp)
  obtain ⟨first, hhead, -, rfl⟩ := (mem_planWantedModules hes).mp hmem
  have hfirst : (firstOffers (announcementsOf twoNames) "5f").head? =
      some ⟨"a.wasm", "5f", 10⟩ := by decide +kernel
  obtain ⟨⟩ := hfirst.symm.trans hhead
  exact absurd hname (by decide)

end RustExample.OpenraftCluster
