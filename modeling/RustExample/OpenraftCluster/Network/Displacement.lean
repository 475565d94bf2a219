import Mathlib.Data.Finset.Basic
import RustExample.Foundation.Run
import RustExample.OpenraftCluster.Network.AddressBook

/-!
# Discovered addresses and configured ones

Calls that register configured addresses, that discover peers and that remove nodes interleave;
each update of the address book is one atomic step. A discovered peer is looked up in one step and
registered in a second one, by weaker rules: an address that is configured between the two may be
replaced.

Source: `src/network/transport.rs` (`register_node`, `register_announced_node`,
`register_discovered_peer`, `update_peer_addr_from_mdns`, `remove_known_node`).

* `Call` lists the points of the calls before their steps on the book. A step that scans the book
  has the order of its ids.
* The node id of a configured address is derived from its peer.
* `configured` is not in the code: it has the nodes whose last configured address was not
  `0.0.0.0`, unless they were removed since.
* Dials, logs, pins and the times of announcements are left out: they do not change the book.
-/

namespace RustExample.OpenraftCluster.AddressBook

/-! ### Calls -/

/-- What a call returns. -/
inductive Reply
  | done
  | missingPeer
  | flag (b : Bool)
deriving DecidableEq, Repr

/-- The points of the calls before their steps. -/
inductive Call
  | registerNode (nodeId : NodeId) (addr : Multiaddr)
  /-- `register_announced_node`, before it loads the book. -/
  | announce (nodeId : NodeId) (addr : Multiaddr)
  /-- The book has another address: before the update. -/
  | announceRegister (nodeId : NodeId) (peer : PeerId) (addr : Multiaddr)
  /-- `register_discovered_peer`, before the scan. -/
  | discover (peer : PeerId) (addr : Multiaddr)
  /-- The scan has found no entry: before `register_node_addr`. -/
  | discoverRegister (peer : PeerId) (addr : Multiaddr)
  | updateFromMdns (peer : PeerId) (addr : Multiaddr)
  | remove (nodeId : NodeId)
  | returned (reply : Reply)
deriving DecidableEq

/-- The book, and the nodes that are configured. -/
structure Network where
  localPeerId : PeerId
  nodePeers : Book
  configured : Finset NodeId

namespace Network

/-- A configured address is registered, or is found in the book. -/
def configure (w : Network) (nodeId : NodeId) (addr : Multiaddr) : Finset NodeId :=
  if isUnspecifiedAddr addr then w.configured.erase nodeId else insert nodeId w.configured

/-- `register_configured_node_addr` -/
def registerConfigured (w : Network) (nodeId : NodeId) (peer : PeerId) (addr : Multiaddr) :
    Network :=
  { w with
    nodePeers := (registerConfiguredNodeAddr w.nodePeers nodeId peer addr).1
    configured := w.configure nodeId addr }

end Network

namespace Call

/-- A call that a client makes; the node id of a configured address is that of its peer. -/
def starts : Call → Bool
  | registerNode nodeId addr | announce nodeId addr =>
    (parseP2pAddr addr).all fun peer => nodeId = nodeIdOf peer
  | discover _ _ | updateFromMdns _ _ | remove _ => true
  | announceRegister _ _ _ | discoverRegister _ _ | returned _ => false

/-- The next step of a call; `order` is the order of a scan. -/
def next (order : List NodeId) (w : Network) : Call → Option (Network × Call)
  | registerNode nodeId addr =>
    match parseP2pAddr addr with
    | none => some (w, returned .missingPeer)
    | some peer => some (w.registerConfigured nodeId peer addr, returned .done)
  | announce nodeId addr =>
    match parseP2pAddr addr with
    | none => some (w, returned .missingPeer)
    | some peer =>
      if peer = w.localPeerId then some (w, returned .done)
      else if w.nodePeers[nodeId]? = some (peer, addr) then
        some ({ w with configured := w.configure nodeId addr }, returned .done)
      else some (w, announceRegister nodeId peer addr)
  | announceRegister nodeId peer addr =>
    some (w.registerConfigured nodeId peer addr, returned .done)
  | discover peer addr =>
    if peer = w.localPeerId then some (w, returned (.flag false))
    else
      let addr := ensureP2pAddr addr peer
      if isUndialableDiscoveredAddr addr then some (w, returned (.flag false))
      else
        let scanned := scanPeer order w.nodePeers peer addr
        let w := { w with nodePeers := scanned.1 }
        match scanned.2 with
        | .notFound => some (w, discoverRegister peer addr)
        | .keep => some (w, returned (.flag true))
        | .ignore => some (w, returned (.flag false))
        | .updated => some (w, returned (.flag true))
  | discoverRegister peer addr =>
    let registered := registerNodeAddr w.nodePeers (nodeIdOf peer) peer addr
    some ({ w with nodePeers := registered.1 }, returned (.flag (registered.2 = .registered)))
  | updateFromMdns peer addr =>
    let candidate := ensureP2pAddr addr peer
    let scanned := scanPeer order w.nodePeers peer candidate
    let w := { w with nodePeers := scanned.1 }
    match scanned.2 with
    | .notFound => some (w, returned (.flag (!isUndialableDiscoveredAddr candidate)))
    | .keep => some (w, returned (.flag true))
    | .ignore => some (w, returned (.flag false))
    | .updated => some (w, returned (.flag true))
  | remove nodeId =>
    some ({ w with
        nodePeers := w.nodePeers.erase nodeId
        configured := w.configured.erase nodeId },
      returned (.flag (w.nodePeers.contains nodeId)))
  | returned _ => none

/-- The calls that bring discovered addresses. -/
def Discovers : Call → Prop
  | discover _ _ | discoverRegister _ _ | updateFromMdns _ _ => True
  | _ => False

end Call

/-! ### Runs -/

/-- A call is made, or the `i`-th call takes a step. -/
inductive Event
  | call (c : Call)
  | advance (i : ℕ) (order : List NodeId)

/-- The network with the calls under way. -/
abbrev World := Network × List Call

/-- What an event does, if it may happen. -/
def step (x : World) : Event → Option World
  | .call c => if c.starts then some (x.1, x.2 ++ [c]) else none
  | .advance i order =>
    if order.Perm x.1.nodePeers.keys then
      x.2[i]?.bind fun c => (c.next order x.1).map fun r => (r.1, x.2.set i r.2)
    else none

/-- One event. -/
abbrev Step (x : World) (e : Event) (x' : World) : Prop := step x e = some x'

/-- The network of a node that knows nobody. -/
def World.new (localPeerId : PeerId) : World := (⟨localPeerId, ∅, ∅⟩, [])

/-- A step of a discovery call changes the entry of a configured node. -/
def Displaces (x : World) : Event → Prop
  | .call _ => False
  | .advance i order => ∃ c x', x.2[i]? = some c ∧ c.Discovers ∧
      step x (.advance i order) = some x' ∧
      ∃ n ∈ x.1.configured, x'.1.nodePeers[n]? ≠ x.1.nodePeers[n]?

/-- The second step of a discovery finds its node not configured, or with an address that stands. -/
def Respects (x : World) : Event → Prop
  | .call _ => True
  | .advance i _ => ∀ peer addr, x.2[i]? = some (.discoverRegister peer addr) →
      nodeIdOf peer ∈ x.1.configured → Stands x.1.nodePeers (nodeIdOf peer) peer addr

/-! ### The invariant -/

/-- Entries are those of their nodes' peers, and a configured node has a specified address. -/
structure Network.Sound (w : Network) : Prop where
  derived : ∀ n peer addr, w.nodePeers[n]? = some (peer, addr) → n = nodeIdOf peer
  specified : ∀ n ∈ w.configured, ∃ peer addr, w.nodePeers[n]? = some (peer, addr) ∧
    isUnspecifiedAddr addr = false

/-- The addresses that a call has are those it was made for. -/
def Call.Sound : Call → Prop
  | .registerNode nodeId addr | .announce nodeId addr =>
    ∀ peer, parseP2pAddr addr = some peer → nodeId = nodeIdOf peer
  | .announceRegister nodeId peer _ => nodeId = nodeIdOf peer
  | .discoverRegister _ addr => isUnspecifiedAddr addr = false
  | .discover _ _ | .updateFromMdns _ _ | .remove _ | .returned _ => True

variable {w w' : Network} {c c' : Call} {order : List NodeId} {nodeId : NodeId} {peer : PeerId}
  {addr : Multiaddr}

theorem Call.sound_of_starts (h : c.starts = true) : c.Sound := by
  cases c with
  | registerNode nodeId addr | announce nodeId addr =>
    intro peer hpeer
    rw [Call.starts, hpeer] at h
    exact of_decide_eq_true h
  | discover | updateFromMdns | remove => trivial
  | announceRegister | discoverRegister | returned => simp [Call.starts] at h

/-- A node that is configured has the address that was registered last. -/
theorem Network.Sound.configure (h : w.Sound) {book : Book}
    (hbook : ∀ n, book[n]? = if nodeId = n then some (peer, addr) else w.nodePeers[n]?)
    (hderived : nodeId = nodeIdOf peer) :
    Network.Sound { w with nodePeers := book, configured := w.configure nodeId addr } where
  derived n peer' addr' hn := by
    rw [hbook] at hn
    split_ifs at hn with heq
    · obtain ⟨rfl, -⟩ := Prod.mk.inj (Option.some.inj hn)
      exact heq.symm.trans hderived
    · exact h.derived n peer' addr' hn
  specified n hn := by
    simp only [hbook]
    split_ifs with heq
    · refine ⟨peer, addr, rfl, ?_⟩
      rw [Network.configure] at hn
      split_ifs at hn with hunspecified
      · exact absurd heq.symm (Finset.ne_of_mem_erase hn)
      · simpa using hunspecified
    · refine h.specified n ?_
      rw [Network.configure] at hn
      split_ifs at hn
      · exact Finset.mem_of_mem_erase hn
      · exact Finset.mem_of_mem_insert_of_ne hn (Ne.symm heq)

theorem Network.Sound.registerConfigured (h : w.Sound) (hderived : nodeId = nodeIdOf peer) :
    (w.registerConfigured nodeId peer addr).Sound :=
  h.configure (fun n => registerConfiguredNodeAddr_getElem? w.nodePeers nodeId n peer addr) hderived

/-- An entry of a node may be replaced by one of its peer with a specified address. -/
theorem Network.Sound.insert (h : w.Sound) (hderived : nodeId = nodeIdOf peer)
    (haddr : isUnspecifiedAddr addr = false ∨ nodeId ∉ w.configured) :
    Network.Sound { w with nodePeers := w.nodePeers.insert nodeId (peer, addr) } where
  derived n peer' addr' hn := by
    rw [KeyStore.getElem?_put] at hn
    split_ifs at hn with heq
    · obtain ⟨rfl, -⟩ := Prod.mk.inj (Option.some.inj hn)
      exact heq.symm.trans hderived
    · exact h.derived n peer' addr' hn
  specified n hn := by
    simp only [KeyStore.getElem?_put]
    split_ifs with heq
    · exact ⟨peer, addr, rfl, haddr.resolve_right fun hnot => hnot (heq ▸ hn)⟩
    · exact h.specified n hn

/-- **A scan** changes no configured node. -/
theorem Network.Sound.scan (h : w.Sound) (order : List NodeId) (peer : PeerId)
    (addr : Multiaddr) :
    Network.Sound { w with nodePeers := (scanPeer order w.nodePeers peer addr).1 } ∧
      ∀ n ∈ w.configured, (scanPeer order w.nodePeers peer addr).1[n]? = w.nodePeers[n]? := by
  rcases scanPeer_cases order w.nodePeers peer addr with
    hsame | ⟨nodeId, storedAddr, hentry, hunspecified, hinsert⟩
  · rw [hsame]
    exact ⟨h, fun _ _ => rfl⟩
  · have hnot : nodeId ∉ w.configured := fun hmem => by
      obtain ⟨peer', addr', hentry', hspecified⟩ := h.specified nodeId hmem
      obtain ⟨-, rfl⟩ := Prod.mk.inj (Option.some.inj (hentry.symm.trans hentry'))
      exact absurd hunspecified (by simp [hspecified])
    rw [hinsert]
    refine ⟨h.insert (h.derived _ _ _ hentry) (.inr hnot), fun n hn => ?_⟩
    rw [KeyStore.getElem?_put, if_neg fun heq : nodeId = n => hnot (heq ▸ hn)]

theorem Network.Sound.erase (h : w.Sound) (nodeId : NodeId) :
    Network.Sound { w with
      nodePeers := w.nodePeers.erase nodeId
      configured := w.configured.erase nodeId } where
  derived n peer addr hn := by
    rw [Std.ExtTreeMap.getElem?_erase] at hn
    split_ifs at hn
    exact h.derived n peer addr hn
  specified n hn := by
    obtain ⟨peer, addr, hentry, hspecified⟩ := h.specified n (Finset.mem_of_mem_erase hn)
    refine ⟨peer, addr, ?_, hspecified⟩
    have hcmp : ¬ compare nodeId n = .eq := fun hcmp =>
      Finset.ne_of_mem_erase hn (Std.LawfulEqOrd.eq_of_compare hcmp).symm
    simp only [Std.ExtTreeMap.getElem?_erase, if_neg hcmp, hentry]

/-! ### One step of a call -/

/-- Discovery begins with a scan, and goes on with an address that is specified. -/
theorem next_discover (h : (Call.discover peer addr).next order w = some (w', c')) :
    c'.Sound ∧ (w' = w ∨ ∃ candidate,
      w' = { w with nodePeers := (scanPeer order w.nodePeers peer candidate).1 }) := by
  simp only [Call.next] at h
  split_ifs at h with hlocal hundialable
  · obtain ⟨⟩ := h
    exact ⟨trivial, .inl rfl⟩
  · obtain ⟨⟩ := h
    exact ⟨trivial, .inl rfl⟩
  · have hspecified : isUnspecifiedAddr (ensureP2pAddr addr peer) = false := by
      simp only [isUndialableDiscoveredAddr, Bool.or_eq_true, not_or] at hundialable
      simpa using hundialable.1
    split at h <;> obtain ⟨⟩ := h
    · exact ⟨hspecified, .inr ⟨_, rfl⟩⟩
    · exact ⟨trivial, .inr ⟨_, rfl⟩⟩
    · exact ⟨trivial, .inr ⟨_, rfl⟩⟩
    · exact ⟨trivial, .inr ⟨_, rfl⟩⟩

theorem next_updateFromMdns (h : (Call.updateFromMdns peer addr).next order w = some (w', c')) :
    c'.Sound ∧ ∃ candidate,
      w' = { w with nodePeers := (scanPeer order w.nodePeers peer candidate).1 } := by
  simp only [Call.next] at h
  split at h <;> obtain ⟨⟩ := h
  all_goals exact ⟨trivial, _, rfl⟩

/-- **A step of a call** keeps the invariant. -/
theorem next_sound (h : w.Sound) (hc : c.Sound) (hnext : c.next order w = some (w', c')) :
    w'.Sound ∧ c'.Sound := by
  cases c with
  | registerNode nodeId addr =>
    simp only [Call.next] at hnext
    split at hnext
    next hnone =>
      obtain ⟨⟩ := hnext
      exact ⟨h, trivial⟩
    next peer hpeer =>
      obtain ⟨⟩ := hnext
      exact ⟨h.registerConfigured (hc peer hpeer), trivial⟩
  | announce nodeId addr =>
    simp only [Call.next] at hnext
    split at hnext
    next hnone =>
      obtain ⟨⟩ := hnext
      exact ⟨h, trivial⟩
    next peer hpeer =>
      split_ifs at hnext with hlocal hsame
      · obtain ⟨⟩ := hnext
        exact ⟨h, trivial⟩
      · obtain ⟨⟩ := hnext
        refine ⟨h.configure (fun n => ?_) (hc peer hpeer), trivial⟩
        split_ifs with hn
        · rw [← hn, hsame]
        · rfl
      · obtain ⟨⟩ := hnext
        exact ⟨h, hc peer hpeer⟩
  | announceRegister nodeId peer addr =>
    obtain ⟨⟩ := hnext
    exact ⟨h.registerConfigured hc, trivial⟩
  | discover peer addr =>
    obtain ⟨hc', rfl | ⟨candidate, rfl⟩⟩ := next_discover hnext
    · exact ⟨h, hc'⟩
    · exact ⟨(h.scan order peer candidate).1, hc'⟩
  | discoverRegister peer addr =>
    obtain ⟨⟩ := hnext
    refine ⟨?_, trivial⟩
    by_cases hstands : Stands w.nodePeers (nodeIdOf peer) peer addr
    · rw [registerNodeAddr_of_stands hstands]
      exact h
    · rw [registerNodeAddr_of_not_stands hstands]
      exact h.insert rfl (.inl hc)
  | updateFromMdns peer addr =>
    obtain ⟨hc', candidate, rfl⟩ := next_updateFromMdns hnext
    exact ⟨(h.scan order peer candidate).1, hc'⟩
  | remove nodeId =>
    obtain ⟨⟩ := hnext
    exact ⟨h.erase nodeId, trivial⟩
  | returned => cases hnext

/-- **A discovery call** changes the entry of a configured node exactly if it registers an address
against which the entry does not stand. -/
theorem next_displaces_iff (h : w.Sound) (hc : c.Discovers)
    (hnext : c.next order w = some (w', c')) :
    (∃ n ∈ w.configured, w'.nodePeers[n]? ≠ w.nodePeers[n]?) ↔
      ∃ peer addr, c = .discoverRegister peer addr ∧ nodeIdOf peer ∈ w.configured ∧
        ¬ Stands w.nodePeers (nodeIdOf peer) peer addr := by
  cases c with
  | registerNode | announce | announceRegister | remove | returned => exact hc.elim
  | discover peer addr =>
    refine iff_of_false ?_ nofun
    rintro ⟨n, hn, hne⟩
    obtain ⟨-, rfl | ⟨candidate, rfl⟩⟩ := next_discover hnext
    · exact hne rfl
    · exact hne ((h.scan order peer candidate).2 n hn)
  | updateFromMdns peer addr =>
    refine iff_of_false ?_ nofun
    rintro ⟨n, hn, hne⟩
    obtain ⟨-, candidate, rfl⟩ := next_updateFromMdns hnext
    exact hne ((h.scan order peer candidate).2 n hn)
  | discoverRegister peer addr =>
    obtain ⟨⟩ := hnext
    constructor
    · rintro ⟨n, hn, hne⟩
      by_cases hstands : Stands w.nodePeers (nodeIdOf peer) peer addr
      · exact absurd (by rw [registerNodeAddr_of_stands hstands]) hne
      · rw [registerNodeAddr_of_not_stands hstands, KeyStore.getElem?_put] at hne
        split_ifs at hne with heq
        · exact ⟨peer, addr, rfl, heq ▸ hn, hstands⟩
        · exact absurd rfl hne
    · rintro ⟨_, _, ⟨⟩, hn, hstands⟩
      refine ⟨nodeIdOf peer, hn, ?_⟩
      rw [registerNodeAddr_of_not_stands hstands, KeyStore.getElem?_put, if_pos rfl]
      exact fun heq => hstands ⟨addr, heq.symm, .inl rfl⟩

/-! ### Runs -/

/-- The network and the calls are sound. -/
def World.Sound (x : World) : Prop := x.1.Sound ∧ ∀ c ∈ x.2, c.Sound

/-- **One step** keeps the invariant. -/
theorem World.Sound.step {x x' : World} {e : Event} (h : World.Sound x)
    (hstep : step x e = some x') : World.Sound x' := by
  obtain ⟨hw, hcalls⟩ := h
  cases e with
  | call c =>
    rw [AddressBook.step] at hstep
    split_ifs at hstep with hstarts
    obtain ⟨⟩ := hstep
    refine ⟨hw, fun d hd => ?_⟩
    rcases List.mem_append.mp hd with hd | hd
    · exact hcalls d hd
    · exact List.mem_singleton.mp hd ▸ Call.sound_of_starts hstarts
  | advance i order =>
    rw [AddressBook.step] at hstep
    split_ifs at hstep with horder
    obtain ⟨c, hi, hstep⟩ := Option.bind_eq_some_iff.mp hstep
    obtain ⟨⟨w', c'⟩, hnext, rfl⟩ := Option.map_eq_some_iff.mp hstep
    obtain ⟨hw', hc'⟩ := next_sound hw (hcalls c (List.mem_of_getElem? hi)) hnext
    refine ⟨hw', fun d hd => ?_⟩
    rcases List.mem_or_eq_of_mem_set hd with hd | rfl
    · exact hcalls d hd
    · exact hc'

/-- **One step** displaces a configured address exactly if it does not respect it. -/
theorem displaces_iff_not_respects {x x' : World} {e : Event} (h : World.Sound x)
    (hstep : step x e = some x') : Displaces x e ↔ ¬ Respects x e := by
  cases e with
  | call c => exact iff_of_false id (not_not_intro trivial)
  | advance i order =>
    have hadvance := hstep
    rw [AddressBook.step] at hadvance
    split_ifs at hadvance with horder
    obtain ⟨c, hi, hadvance⟩ := Option.bind_eq_some_iff.mp hadvance
    obtain ⟨⟨w', c'⟩, hnext, rfl⟩ := Option.map_eq_some_iff.mp hadvance
    constructor
    · rintro ⟨d, x'', hd, hdiscovers, hstep', hne⟩ hrespects
      obtain ⟨⟩ := hi.symm.trans hd
      obtain ⟨⟩ := hstep.symm.trans hstep'
      obtain ⟨peer, addr, rfl, hn, hnot⟩ := (next_displaces_iff h.1 hdiscovers hnext).mp hne
      exact hnot (hrespects peer addr hi hn)
    · intro hnot
      simp only [Respects, not_forall] at hnot
      obtain ⟨peer, addr, hd, hn, hstands⟩ := hnot
      obtain ⟨⟩ := hi.symm.trans hd
      have hdiscovers : (Call.discoverRegister peer addr).Discovers := trivial
      exact ⟨_, _, hi, hdiscovers, hstep,
        (next_displaces_iff h.1 hdiscovers hnext).mpr ⟨peer, addr, rfl, hn, hstands⟩⟩

/-- **Discovery never displaces a configured address** in a run exactly if every second step of a
discovery call finds its node not configured, or with an address that stands. -/
theorem never_displaces_iff (localPeerId : PeerId) (es : List Event) (x : World)
    (run : Run Step (.new localPeerId) es x) :
    Run.AtEvents Step (.new localPeerId) (fun y e => ¬ Displaces y e) es ↔
      Run.AtEvents Step (.new localPeerId) Respects es := by
  have hstart : World.Sound (.new localPeerId) := ⟨⟨by simp [World.new], nofun⟩, nofun⟩
  have hpoint : ∀ n y e, Run Step (.new localPeerId) (es.take n) y → es[n]? = some e →
      (Displaces y e ↔ ¬ Respects y e) := by
    intro n y e hy he
    have hsound := hy.invariant hstart fun _ _ _ h hstep => World.Sound.step h hstep
    obtain ⟨y', y'', hy', hstep, -⟩ := run.at_event he
    obtain rfl := Run.state_unique (fun _ _ _ _ h h' => Option.some.inj (h.symm.trans h')) hy hy'
    exact displaces_iff_not_respects hsound hstep
  constructor
  · exact fun h n y e hy he => not_not.mp ((hpoint n y e hy he).not.mp (h n y e hy he))
  · exact fun h n y e hy he => (hpoint n y e hy he).not.mpr (not_not_intro (h n y e hy he))

/-- A peer is configured, another one is registered, and the first is found under another address by
a discovery and by mDNS. -/
def configuredEvents : List Event :=
  [.call (.registerNode "peer" [.ip4 (10, 0, 0, 1), .p2p "peer"]), .advance 0 [],
    .call (.discover "other" [.ip4 (192, 168, 31, 29), .other "tcp/4002"]), .advance 1 ["peer"],
    .advance 1 ["peer"],
    .call (.discover "peer" [.ip4 (192, 168, 31, 30), .other "tcp/4002"]),
    .advance 2 ["other", "peer"],
    .call (.updateFromMdns "peer" [.ip4 (192, 168, 31, 30), .other "tcp/4002"]),
    .advance 3 ["peer", "other"]]

/-- A peer whose address is configured before it is discovered keeps it. -/
theorem never_displaces_configuredFirst :
    Run.AtEvents Step (.new "local") (fun y e => ¬ Displaces y e) configuredEvents := by
  have run : Run (fun s e s' => Step s e s' ∧ Respects s e) (.new "local") configuredEvents _ :=
    .cons ⟨rfl, trivial⟩ <| .cons ⟨rfl, nofun⟩ <| .cons ⟨rfl, trivial⟩ <| .cons ⟨rfl, nofun⟩ <|
    .cons ⟨rfl, by rintro _ _ ⟨⟩ hn; exact absurd hn (by decide)⟩ <| .cons ⟨rfl, trivial⟩ <|
    .cons ⟨rfl, nofun⟩ <| .cons ⟨rfl, trivial⟩ <| .cons ⟨rfl, nofun⟩ .nil
  exact (never_displaces_iff "local" _ _ (run.imp fun _ _ _ h => h.1)).mpr <|
    Run.atEvents_of_run (fun _ _ _ _ h h' => Option.some.inj (h.symm.trans h')) run

/-! ### A run that displaces an address -/

/-- The peer is looked up, its address is configured, and the discovered one is registered. -/
def overtakenEvents : List Event :=
  [.call (.discover "peer" [.ip4 (192, 168, 31, 29), .other "tcp/4002"]), .advance 0 [],
    .call (.registerNode "peer" [.ip4 (10, 0, 0, 1), .other "tcp/4002", .p2p "peer"]),
    .advance 1 [], .advance 0 ["peer"]]

/-- **The configured address is displaced** by the second step of the discovery call. -/
theorem discovery_displaces_configured :
    (∃ x, Run Step (.new "local") overtakenEvents x) ∧
      ¬ Run.AtEvents Step (.new "local") (fun y e => ¬ Displaces y e) overtakenEvents := by
  have hrun : (overtakenEvents.foldlM step (.new "local")).isSome = true := by decide
  have hcheck : ((overtakenEvents.take 4).foldlM step (.new "local")).any (fun x =>
      (step x (.advance 0 ["peer"])).any fun y =>
        x.2[0]?.any (fun c => c = .discoverRegister "peer"
          [.ip4 (192, 168, 31, 29), .other "tcp/4002", .p2p "peer"]) &&
        decide ("peer" ∈ x.1.configured ∧ y.1.nodePeers["peer"]? ≠ x.1.nodePeers["peer"]?)) =
      true := by decide
  obtain ⟨z, hz⟩ := Option.isSome_iff_exists.mp hrun
  obtain ⟨x, hx, hcheck⟩ := (Option.any_eq_true _ _).mp hcheck
  obtain ⟨y, hy, hcheck⟩ := (Option.any_eq_true _ _).mp hcheck
  obtain ⟨hcall, hchanged⟩ := (Bool.and_eq_true _ _).mp hcheck
  obtain ⟨c, hc, hcall⟩ := (Option.any_eq_true _ _).mp hcall
  obtain rfl := of_decide_eq_true hcall
  refine ⟨⟨z, Run.of_foldlM hz⟩, fun h => ?_⟩
  exact h 4 x _ (Run.of_foldlM hx) rfl
    ⟨_, y, hc, trivial, hy, "peer", of_decide_eq_true hchanged⟩

end RustExample.OpenraftCluster.AddressBook
