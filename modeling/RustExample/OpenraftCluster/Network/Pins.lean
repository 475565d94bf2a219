import RustExample.OpenraftCluster.Network.Displacement

/-!
# Pins of peers

A pinned peer is redialled as long as its pin lasts: a permanent pin for the lifetime of the
process, a timed one until it expires. The pins are pruned when the peers to redial are asked for,
and the pin of a peer is dropped when one of its nodes is removed from the address book.

Source: `src/network/transport.rs` (`PeerPin`, `pin_peer`, `pin_raft_peer`, `pin_bootstrap_peer`,
`pin_peer_with_ttl`, `reconnect_targets`, `remove_known_node`).

* Calls are made one after the other. A time is the nanoseconds since some start.
* A registration is a call of the address book that is not interrupted.
* The result of `reconnect_targets` is in the order of the ids; the source has no order.
* `Ledger` is not in the code: it has the peers that were ever pinned for good, and the latest
  expiry that was granted to a peer since it was removed. A pin of the local peer pins nothing.
-/

namespace RustExample.OpenraftCluster.AddressBook

/-! ### Pins -/

/-- Why a peer must be kept connected. -/
inductive PeerPin
  | permanent
  | until (instant : ℕ)
deriving DecidableEq, Repr

/-- The pinned peers. -/
abbrev Pins := KeyStore PeerId PeerPin

def raftPeerPinTtl : ℕ := 600 * 10 ^ 9

def bootstrapPeerPinTtl : ℕ := 600 * 10 ^ 9

/-- Pins a peer for good. -/
def pinPeer (localPeerId : PeerId) (pins : Pins) (peer : PeerId) : Pins :=
  if peer = localPeerId then pins else pins.insert peer .permanent

/-- Pins a peer for some time. -/
def pinPeerWithTtl (localPeerId : PeerId) (now : ℕ) (pins : Pins) (peer : PeerId) (ttl : ℕ) :
    Pins :=
  if peer = localPeerId then pins
  else
    let expiry := now + ttl
    match pins[peer]? with
    | some .permanent => pins
    | some (.until existing) =>
      if existing > expiry then pins else pins.insert peer (.until expiry)
    | none => pins.insert peer (.until expiry)

/-- Pins a peer for Raft. -/
def pinRaftPeer (localPeerId : PeerId) (now : ℕ) (pins : Pins) (peer : PeerId) : Pins :=
  pinPeerWithTtl localPeerId now pins peer raftPeerPinTtl

/-- Pins a peer for bootstrap. -/
def pinBootstrapPeer (localPeerId : PeerId) (now : ℕ) (pins : Pins) (peer : PeerId) : Pins :=
  pinPeerWithTtl localPeerId now pins peer bootstrapPeerPinTtl

/-- The pins that `reconnect_targets` retains. -/
def retainPins (now : ℕ) (pins : Pins) : Pins :=
  pins.filter fun _ pin =>
    match pin with
    | .permanent => true
    | .until instant => instant > now

/-- The entries of the book whose peers are pinned. -/
def reconnectTargets (now : ℕ) (pins : Pins) (book : Book) :
    List (NodeId × PeerId × Multiaddr) :=
  book.toList.filter fun entry => (retainPins now pins).contains entry.2.1

/-- The pins after `remove_known_node`. -/
def unpinRemoved (pins : Pins) (book : Book) (nodeId : NodeId) : Pins :=
  match book[nodeId]? with
  | none => pins
  | some (peer, _) => pins.erase peer

/-! ### What the pins owe -/

/-- The peers ever pinned for good, and the latest expiry granted to a peer since its removal. -/
structure Ledger where
  permanent : Finset PeerId
  granted : KeyStore PeerId ℕ

namespace Ledger

/-- A peer is pinned for good. -/
def pin (l : Ledger) (peer : PeerId) : Ledger := { l with permanent := insert peer l.permanent }

/-- A peer is promised a time. -/
def grant (l : Ledger) (peer : PeerId) (expiry : ℕ) : Ledger :=
  { l with granted := l.granted.insert peer (max (l.granted[peer]?.getD 0) expiry) }

/-- A removal ends what was granted; a permanent pin is for the lifetime of the process. -/
def remove (l : Ledger) (peer : PeerId) : Ledger := { l with granted := l.granted.erase peer }

/-- The peer should be pinned. -/
def Owes (l : Ledger) (now : ℕ) (peer : PeerId) : Prop :=
  peer ∈ l.permanent ∨ ∃ expiry, l.granted[peer]? = some expiry ∧ now < expiry

/-- The pin of a peer is the one of the ledger; a pin is missing only if it has expired. -/
def Shows (l : Ledger) (clock : ℕ) (peer : PeerId) : Option PeerPin → Prop
  | some .permanent => peer ∈ l.permanent
  | some (.until instant) => peer ∉ l.permanent ∧ l.granted[peer]? = some instant
  | none => peer ∉ l.permanent ∧ ∀ expiry, l.granted[peer]? = some expiry → expiry ≤ clock

end Ledger

/-- The pins of a network. -/
structure Pinning where
  network : Network
  pinnedPeers : Pins
  clock : ℕ
  ledger : Ledger

/-- The pins are those of the ledger. -/
def Pinning.Agrees (s : Pinning) : Prop :=
  ∀ peer, s.ledger.Shows s.clock peer s.pinnedPeers[peer]?

/-! ### Calls -/

/-- The calls that register nodes. -/
def Call.registers : Call → Bool
  | registerNode _ _ | announce _ _ | discover _ _ | updateFromMdns _ _ => true
  | announceRegister _ _ _ | discoverRegister _ _ | remove _ | returned _ => false

/-- A call that is not interrupted: it takes one step or two. -/
def Call.complete (order : List NodeId) (w : Network) (c : Call) : Network :=
  match c.next order w with
  | none => w
  | some (w', c') => ((c'.next order w').map Prod.fst).getD w'

/-- The calls about pins. -/
inductive PinCall
  | pinPeer (peer : PeerId)
  | pinRaftPeer (peer : PeerId)
  | pinBootstrapPeer (peer : PeerId)
  | removeKnownNode (nodeId : NodeId)
  | register (c : Call) (order : List NodeId)
  | reconnectTargets

namespace Pinning

/-- The pins of a node that has just started. -/
def new (localPeerId : PeerId) : Pinning := ⟨⟨localPeerId, ∅, ∅⟩, ∅, 0, ⟨∅, ∅⟩⟩

/-- The promise, unless to itself. -/
def grant (s : Pinning) (peer : PeerId) (expiry : ℕ) : Ledger :=
  if peer = s.network.localPeerId then s.ledger else s.ledger.grant peer expiry

/-- The pins after a call. -/
def after (s : Pinning) (now : ℕ) : PinCall → Pinning
  | .pinPeer peer =>
    { s with
      pinnedPeers := AddressBook.pinPeer s.network.localPeerId s.pinnedPeers peer
      ledger := if peer = s.network.localPeerId then s.ledger else s.ledger.pin peer }
  | .pinRaftPeer peer =>
    { s with
      pinnedPeers := AddressBook.pinRaftPeer s.network.localPeerId now s.pinnedPeers peer
      ledger := s.grant peer (now + raftPeerPinTtl) }
  | .pinBootstrapPeer peer =>
    { s with
      pinnedPeers := AddressBook.pinBootstrapPeer s.network.localPeerId now s.pinnedPeers peer
      ledger := s.grant peer (now + bootstrapPeerPinTtl) }
  | .removeKnownNode nodeId =>
    { s with
      network := (Call.remove nodeId).complete [] s.network
      pinnedPeers := unpinRemoved s.pinnedPeers s.network.nodePeers nodeId
      ledger :=
        match s.network.nodePeers[nodeId]? with
        | none => s.ledger
        | some (peer, _) => s.ledger.remove peer }
  | .register c order => { s with network := c.complete order s.network }
  | .reconnectTargets => { s with pinnedPeers := retainPins now s.pinnedPeers }

end Pinning

/-- A registration scans the book. -/
def PinCall.allowed (w : Network) : PinCall → Bool
  | .register c order => c.registers && decide (order.Perm w.nodePeers.keys)
  | _ => true

/-- One call at a time; the times do not decrease. -/
def pinStep (s : Pinning) (e : ℕ × PinCall) : Option Pinning :=
  if s.clock ≤ e.1 ∧ e.2.allowed s.network then some { s.after e.1 e.2 with clock := e.1 }
  else none

/-- One call. -/
abbrev PinStep (s : Pinning) (e : ℕ × PinCall) (s' : Pinning) : Prop := pinStep s e = some s'

/-- A pin until an instant is not shortened. -/
def Lasts (now instant : ℕ) : Option PeerPin → Prop
  | some .permanent => True
  | some (.until instant') => instant ≤ instant'
  | none => instant ≤ now

/-- A peer stays in the address book. -/
def Network.Knows (w : Network) (peer : PeerId) : Prop :=
  ∃ (nodeId : NodeId) (addr : Multiaddr), w.nodePeers[nodeId]? = some (peer, addr)

/-- What the ledger asks of a call. -/
structure Honoured (s : Pinning) (e : ℕ × PinCall) (s' : Pinning) : Prop where
  never_earlier : ∀ peer instant, s.pinnedPeers[peer]? = some (.until instant) →
    s.network.Knows peer → s'.network.Knows peer → Lasts e.1 instant s'.pinnedPeers[peer]?
  permanent : e.2 = .reconnectTargets → ∀ (nodeId : NodeId) (peer : PeerId) (addr : Multiaddr),
    peer ∈ s.ledger.permanent → s.network.nodePeers[nodeId]? = some (peer, addr) →
    (nodeId, peer, addr) ∈ reconnectTargets e.1 s.pinnedPeers s.network.nodePeers
  returned : e.2 = .reconnectTargets → ∀ (nodeId : NodeId) (peer : PeerId) (addr : Multiaddr),
    (nodeId, peer, addr) ∈ reconnectTargets e.1 s.pinnedPeers s.network.nodePeers ↔
      s.network.nodePeers[nodeId]? = some (peer, addr) ∧ s.ledger.Owes e.1 peer

/-- Whatever the call, it is honoured. -/
def Honours (s : Pinning) (e : ℕ × PinCall) : Prop := ∀ s', pinStep s e = some s' → Honoured s e s'

/-- A removal drops no permanent pin, and no pin that lasts while its peer has another node. -/
def Spares (s : Pinning) (e : ℕ × PinCall) : Prop :=
  ∀ (nodeId : NodeId) (peer : PeerId) (addr : Multiaddr), e.2 = .removeKnownNode nodeId →
    s.network.nodePeers[nodeId]? = some (peer, addr) →
    s.pinnedPeers[peer]? ≠ some .permanent ∧
      ∀ (instant : ℕ) (nodeId' : NodeId) (addr' : Multiaddr),
        s.pinnedPeers[peer]? = some (.until instant) → e.1 < instant →
        s.network.nodePeers[nodeId']? = some (peer, addr') → nodeId' = nodeId

/-! ### Pins after a call -/

section Lookup

variable {pins : Pins} {localPeerId peer p : PeerId} {now ttl : ℕ}

theorem pinPeer_getElem? : (pinPeer localPeerId pins peer)[p]? =
    if peer ≠ localPeerId ∧ peer = p then some .permanent else pins[p]? := by
  rw [pinPeer]
  split_ifs with hlocal hp hp
  · exact absurd hlocal hp.1
  · rfl
  · rw [KeyStore.getElem?_put, if_pos hp.2]
  · rw [KeyStore.getElem?_put, if_neg fun heq => hp ⟨hlocal, heq⟩]

/-- A pin that is extended: a permanent one stays, and a later expiry is kept. -/
def extendPin (expiry : ℕ) : Option PeerPin → PeerPin
  | some .permanent => .permanent
  | some (.until existing) => .until (max existing expiry)
  | none => .until expiry

theorem pinPeerWithTtl_getElem? : (pinPeerWithTtl localPeerId now pins peer ttl)[p]? =
    if peer ≠ localPeerId ∧ peer = p then some (extendPin (now + ttl) pins[p]?)
    else pins[p]? := by
  simp only [pinPeerWithTtl]
  by_cases hlocal : peer = localPeerId
  · rw [if_pos hlocal, if_neg fun h => h.1 hlocal]
  rw [if_neg hlocal]
  by_cases hp : peer = p
  · subst hp
    rw [if_pos ⟨hlocal, rfl⟩]
    split
    next hpin => rw [hpin, extendPin]
    next existing hpin =>
      rw [hpin, extendPin]
      split_ifs with hlater
      · rw [hpin, max_eq_left (Nat.le_of_lt hlater)]
      · rw [KeyStore.getElem?_put, if_pos rfl, max_eq_right (Nat.le_of_not_lt hlater)]
    next hpin => rw [hpin, extendPin, KeyStore.getElem?_put, if_pos rfl]
  · rw [if_neg fun h => hp h.2]
    split
    · rfl
    · split_ifs
      · rfl
      · rw [KeyStore.getElem?_put, if_neg hp]
    · rw [KeyStore.getElem?_put, if_neg hp]

/-- A pin is retained while it lasts. -/
def lasting (now : ℕ) (pin : Option PeerPin) : Option PeerPin :=
  pin.filter fun
    | .permanent => true
    | .until instant => instant > now

theorem retainPins_getElem? : (retainPins now pins)[p]? = lasting now pins[p]? :=
  Std.ExtTreeMap.getElem?_filter'

theorem unpinRemoved_getElem? (book : Book) (nodeId : NodeId) :
    (unpinRemoved pins book nodeId)[p]? =
      if book[nodeId]?.map Prod.fst = some p then none else pins[p]? := by
  rw [unpinRemoved]
  cases hentry : book[nodeId]? with
  | none => simp
  | some entry => simp [KeyStore.getElem?_del]

/-- The peers to redial are those of the book whose pins last. -/
theorem mem_reconnectTargets {book : Book} {nodeId : NodeId} {addr : Multiaddr} :
    (nodeId, p, addr) ∈ reconnectTargets now pins book ↔
      book[nodeId]? = some (p, addr) ∧ (lasting now pins[p]?).isSome = true := by
  rw [reconnectTargets, List.mem_filter, Std.ExtTreeMap.mem_toList_iff_getElem?_eq_some,
    ← retainPins_getElem?, Std.ExtTreeMap.isSome_getElem?_eq_contains]

end Lookup

/-! ### The ledger and the pins -/

namespace Ledger

variable {l l' : Ledger} {clock now expiry : ℕ} {peer : PeerId} {pin : Option PeerPin}

theorem Shows.mono (h : l.Shows clock peer pin) (hclock : clock ≤ now) :
    l.Shows now peer pin := by
  match pin, h with
  | some .permanent, h => exact h
  | some (.until _), h => exact h
  | none, h => exact ⟨h.1, fun expiry hexpiry => Nat.le_trans (h.2 expiry hexpiry) hclock⟩

/-- What is owed to a peer does not depend on the others. -/
theorem Shows.congr (h : l.Shows clock peer pin)
    (hpermanent : peer ∈ l'.permanent ↔ peer ∈ l.permanent)
    (hgranted : l'.granted[peer]? = l.granted[peer]?) : l'.Shows clock peer pin := by
  match pin, h with
  | some .permanent, h => exact hpermanent.mpr h
  | some (.until _), h => exact ⟨hpermanent.not.mpr h.1, hgranted.trans h.2⟩
  | none, h => exact ⟨hpermanent.not.mpr h.1, fun expiry hexpiry => h.2 expiry (hgranted ▸ hexpiry)⟩

/-- **Extending a pin** is granting its expiry. -/
theorem Shows.extend (h : l.Shows clock peer pin) (hclock : clock ≤ expiry) :
    (l.grant peer expiry).Shows clock peer (some (extendPin expiry pin)) := by
  match pin, h with
  | some .permanent, h => exact h
  | some (.until existing), ⟨hnot, hgranted⟩ =>
    refine ⟨hnot, ?_⟩
    rw [grant, KeyStore.getElem?_put, if_pos rfl, hgranted, Option.getD_some]
  | none, ⟨hnot, hexpired⟩ =>
    refine ⟨hnot, ?_⟩
    rw [grant, KeyStore.getElem?_put, if_pos rfl, max_eq_right]
    cases hgranted : l.granted[peer]? with
    | none => exact Nat.zero_le expiry
    | some existing => exact Nat.le_trans (hexpired existing hgranted) hclock

theorem Shows.remove (h : l.Shows clock peer pin) (hpin : pin ≠ some .permanent) :
    (l.remove peer).Shows clock peer none := by
  have hnot : peer ∉ l.permanent := by
    match pin, h with
    | some .permanent, _ => exact absurd rfl hpin
    | some (.until _), h => exact h.1
    | none, h => exact h.1
  refine ⟨hnot, fun expiry hexpiry => ?_⟩
  rw [Ledger.remove, KeyStore.getElem?_del, if_pos rfl] at hexpiry
  cases hexpiry

/-- **Pruning** drops the pins that have expired. -/
theorem Shows.lasting (h : l.Shows clock peer pin) (hclock : clock ≤ now) :
    l.Shows now peer (lasting now pin) := by
  match pin, h with
  | some .permanent, h => exact h
  | some (.until instant), ⟨hnot, hgranted⟩ =>
    by_cases hlasts : instant > now
    · simp only [AddressBook.lasting, Option.filter, hlasts, decide_true, if_true]
      exact ⟨hnot, hgranted⟩
    · simp only [AddressBook.lasting, Option.filter, hlasts, decide_false]
      refine ⟨hnot, fun expiry hexpiry => ?_⟩
      obtain ⟨⟩ := hgranted.symm.trans hexpiry
      exact Nat.le_of_not_lt hlasts
  | none, h => exact h.mono hclock

/-- **A pin lasts** exactly if its peer is to be redialled. -/
theorem Shows.isSome_lasting_iff (h : l.Shows clock peer pin) (hclock : clock ≤ now) :
    (AddressBook.lasting now pin).isSome = true ↔ l.Owes now peer := by
  match pin, h with
  | some .permanent, h => exact iff_of_true rfl (.inl h)
  | some (.until instant), ⟨hnot, hgranted⟩ =>
    simp only [AddressBook.lasting, Option.isSome_filter, Option.any_some, decide_eq_true_eq]
    constructor
    · exact fun hlasts => .inr ⟨instant, hgranted, hlasts⟩
    · rintro (hperm | ⟨expiry, hexpiry, hlasts⟩)
      · exact absurd hperm hnot
      · obtain ⟨⟩ := hgranted.symm.trans hexpiry
        exact hlasts
  | none, ⟨hnot, hexpired⟩ =>
    refine iff_of_false nofun ?_
    rintro (hperm | ⟨expiry, hexpiry, hlasts⟩)
    · exact hnot hperm
    · have hle := hexpired expiry hexpiry
      omega

end Ledger

/-! ### One call -/

variable {s s' : Pinning} {e : ℕ × PinCall} {now ttl instant : ℕ} {p : PeerId}

namespace Pinning.Agrees

/-- **A timed pin** is recorded as granted. -/
theorem grant (h : s.Agrees) (hclock : s.clock ≤ now) (peer p : PeerId) (ttl : ℕ) :
    (s.grant peer (now + ttl)).Shows now p
      (pinPeerWithTtl s.network.localPeerId now s.pinnedPeers peer ttl)[p]? := by
  have hp := (h p).mono hclock
  rw [pinPeerWithTtl_getElem?, Pinning.grant]
  by_cases hlocal : peer = s.network.localPeerId
  · rw [if_pos hlocal, if_neg fun hcond => hcond.1 hlocal]
    exact hp
  rw [if_neg hlocal]
  by_cases heq : peer = p
  · subst heq
    rw [if_pos ⟨hlocal, rfl⟩]
    exact hp.extend (Nat.le_add_right now ttl)
  · rw [if_neg fun hcond => heq hcond.2]
    refine hp.congr Iff.rfl ?_
    rw [Ledger.grant, KeyStore.getElem?_put, if_neg heq]

/-- **A permanent pin** is recorded. -/
theorem pin (h : s.Agrees) (hclock : s.clock ≤ now) (peer p : PeerId) :
    (s.after now (.pinPeer peer)).ledger.Shows now p
      (s.after now (.pinPeer peer)).pinnedPeers[p]? := by
  have hp := (h p).mono hclock
  simp only [after, pinPeer_getElem?]
  by_cases hlocal : peer = s.network.localPeerId
  · rw [if_pos hlocal, if_neg fun hcond => hcond.1 hlocal]
    exact hp
  rw [if_neg hlocal]
  by_cases heq : peer = p
  · subst heq
    rw [if_pos ⟨hlocal, rfl⟩]
    exact Finset.mem_insert_self _ _
  · rw [if_neg fun hcond => heq hcond.2]
    refine hp.congr ?_ rfl
    rw [Ledger.pin, Finset.mem_insert]
    exact or_iff_right fun hpeer => heq hpeer.symm

/-- **A removal** that spares the permanent pins is recorded. -/
theorem remove (h : s.Agrees) (hclock : s.clock ≤ now) (nodeId : NodeId) (p : PeerId)
    (hspares : Spares s (now, .removeKnownNode nodeId)) :
    (s.after now (.removeKnownNode nodeId)).ledger.Shows now p
      (s.after now (.removeKnownNode nodeId)).pinnedPeers[p]? := by
  have hp := (h p).mono hclock
  simp only [after, unpinRemoved_getElem?]
  cases hentry : s.network.nodePeers[nodeId]? with
  | none => exact hp
  | some entry =>
    obtain ⟨peer, addr⟩ := entry
    by_cases heq : peer = p
    · subst heq
      rw [Option.map_some, if_pos rfl]
      exact hp.remove (hspares nodeId peer addr rfl hentry).1
    · rw [Option.map_some, if_neg fun hcond => heq (Option.some.inj hcond)]
      exact hp.congr Iff.rfl
        ((KeyStore.getElem?_del s.ledger.granted peer p).trans (if_neg heq))

/-- **A call that spares the pins** keeps them in agreement with the ledger. -/
theorem after (h : s.Agrees) (hclock : s.clock ≤ now) {c : PinCall} (hspares : Spares s (now, c))
    (p : PeerId) :
    (s.after now c).ledger.Shows now p (s.after now c).pinnedPeers[p]? := by
  cases c with
  | pinPeer peer => exact h.pin hclock peer p
  | pinRaftPeer peer => exact h.grant hclock peer p raftPeerPinTtl
  | pinBootstrapPeer peer => exact h.grant hclock peer p bootstrapPeerPinTtl
  | removeKnownNode nodeId => exact h.remove hclock nodeId p hspares
  | register c order => exact (h p).mono hclock
  | reconnectTargets =>
    simp only [Pinning.after, retainPins_getElem?]
    exact (h p).lasting hclock

end Pinning.Agrees

theorem lasts_extendPin (expiry : ℕ) :
    Lasts now instant (some (extendPin expiry (some (.until instant)))) :=
  Nat.le_max_left instant expiry

theorem lasts_lasting : Lasts now instant (lasting now (some (.until instant))) := by
  by_cases hlasts : instant > now
  · simp only [lasting, Option.filter, hlasts, decide_true, if_true]
    exact Nat.le_refl instant
  · simp only [lasting, Option.filter, hlasts, decide_false]
    exact Nat.le_of_not_lt hlasts

/-- A timed pin of a peer that stays in the book is not shortened by a pin. -/
theorem lasts_pinPeerWithTtl (localPeerId peer : PeerId) {pins : Pins}
    (hpin : pins[p]? = some (.until instant)) :
    Lasts now instant (pinPeerWithTtl localPeerId now pins peer ttl)[p]? := by
  rw [pinPeerWithTtl_getElem?, hpin]
  split_ifs
  · exact lasts_extendPin _
  · exact Nat.le_refl instant

/-- **A lease is never shortened** while its peer stays in the book. -/
theorem lasts_after {c : PinCall} (hspares : Spares s (now, c))
    (hpin : s.pinnedPeers[p]? = some (.until instant))
    (hknows : (s.after now c).network.Knows p) :
    Lasts now instant (s.after now c).pinnedPeers[p]? := by
  cases c with
  | pinPeer peer =>
    simp only [Pinning.after, pinPeer_getElem?, hpin]
    split_ifs
    · trivial
    · exact Nat.le_refl instant
  | pinRaftPeer peer => exact lasts_pinPeerWithTtl _ peer hpin
  | pinBootstrapPeer peer => exact lasts_pinPeerWithTtl _ peer hpin
  | removeKnownNode nodeId =>
    simp only [Pinning.after, unpinRemoved_getElem?, hpin]
    split_ifs with hremoved
    · obtain ⟨⟨peer, addr⟩, hentry, rfl⟩ := Option.map_eq_some_iff.mp hremoved
      obtain ⟨nodeId', addr', hentry'⟩ := hknows
      change (s.network.nodePeers.erase nodeId)[nodeId']? = some (peer, addr') at hentry'
      rw [KeyStore.getElem?_del] at hentry'
      split_ifs at hentry' with hnode
      refine Nat.le_of_not_lt fun hlasts => hnode ?_
      exact ((hspares nodeId peer addr rfl hentry).2 instant nodeId' addr' hpin hlasts
        hentry').symm
    · exact Nat.le_refl instant
  | register c order =>
    simp only [Pinning.after, hpin]
    exact Nat.le_refl instant
  | reconnectTargets =>
    simp only [Pinning.after, retainPins_getElem?, hpin]
    exact lasts_lasting

/-- **One call** that spares the pins keeps them with the ledger, and does what it asks for. -/
theorem Pinning.Agrees.step (h : s.Agrees) (hspares : Spares s e)
    (hstep : pinStep s e = some s') : s'.Agrees ∧ Honoured s e s' := by
  obtain ⟨now, c⟩ := e
  rw [pinStep] at hstep
  split_ifs at hstep with hallowed
  obtain ⟨⟩ := hstep
  have hclock : s.clock ≤ now := hallowed.1
  have htargets (nodeId : NodeId) (peer : PeerId) (addr : Multiaddr) :
      (nodeId, peer, addr) ∈ reconnectTargets now s.pinnedPeers s.network.nodePeers ↔
        s.network.nodePeers[nodeId]? = some (peer, addr) ∧ s.ledger.Owes now peer := by
    rw [mem_reconnectTargets, (h peer).isSome_lasting_iff hclock]
  refine ⟨h.after hclock hspares, ⟨fun p instant hpin _ hknows => ?_, ?_, ?_⟩⟩
  · exact lasts_after hspares hpin hknows
  · exact fun _ nodeId peer addr hperm hentry =>
      (htargets nodeId peer addr).mpr ⟨hentry, .inl hperm⟩
  · exact fun _ => htargets

/-- **A call that does not spare the pins** leaves them without agreement, or shortens one. -/
theorem Pinning.Agrees.spares (h : s.Agrees) (hstep : pinStep s e = some s') (h' : s'.Agrees)
    (hhonoured : Honoured s e s') : Spares s e := by
  obtain ⟨now, c⟩ := e
  rintro nodeId peer addr rfl hentry
  rw [pinStep] at hstep
  split_ifs at hstep with hallowed
  obtain ⟨⟩ := hstep
  have hdropped : (unpinRemoved s.pinnedPeers s.network.nodePeers nodeId)[peer]? = none := by
    rw [unpinRemoved_getElem?, hentry, Option.map_some, if_pos rfl]
  refine ⟨fun hpin => ?_, fun instant nodeId' addr' hpin hlasts hentry' => ?_⟩
  · have hperm := h peer
    have hnot := h' peer
    simp only [Pinning.after, hdropped, hentry] at hnot
    rw [hpin] at hperm
    exact hnot.1 hperm
  · by_contra hne
    have hknows : ((Call.remove nodeId).complete [] s.network).Knows peer := by
      refine ⟨nodeId', addr', ?_⟩
      exact (KeyStore.getElem?_del s.network.nodePeers nodeId nodeId').trans
        ((if_neg fun heq => hne heq.symm).trans hentry')
    have hexpired := hhonoured.never_earlier peer instant hpin ⟨nodeId, addr, hentry⟩ hknows
    simp only [Pinning.after, hdropped, Lasts] at hexpired
    omega

/-! ### Runs -/

theorem Pinning.agrees_new (localPeerId : PeerId) : (Pinning.new localPeerId).Agrees :=
  fun _ => ⟨by simp [Pinning.new], by simp [Pinning.new]⟩

theorem pinStep_unique (s : Pinning) (e : ℕ × PinCall) (s₁ s₂ : Pinning) (h₁ : PinStep s e s₁)
    (h₂ : PinStep s e s₂) : s₁ = s₂ := Option.some.inj (h₁.symm.trans h₂)

/-- **The pins do what they are for**, in every run in which the removals of nodes spare them. -/
theorem pins_honoured (localPeerId : PeerId) (es : List (ℕ × PinCall))
    (hspares : Run.AtEvents PinStep (.new localPeerId) Spares es) :
    Run.AtEvents PinStep (.new localPeerId) Honours es := by
  intro n s e hs he s' hstep
  have hrun := hs.of_atEvents (hspares.take n)
  have hagrees : s.Agrees := hrun.invariant (Pinning.agrees_new localPeerId)
    fun _ _ _ h hstep => (h.step hstep.2 hstep.1).1
  exact (hagrees.step (hspares n s e hs he) hstep).2

/-- A node whose pin is timed is removed, and nobody is redialled. -/
def pinnedRemovedEvents : List (ℕ × PinCall) :=
  [(0, .pinRaftPeer "peer"),
    (0, .register (.registerNode "peer" [.ip4 (10, 0, 0, 1), .p2p "peer"]) []),
    (1, .removeKnownNode "peer"), (2, .reconnectTargets)]

theorem pins_honoured_timed :
    Run.AtEvents PinStep (.new "local") Honours pinnedRemovedEvents := by
  have hcheck : ((pinnedRemovedEvents.take 2).foldlM pinStep (.new "local")).any (fun s =>
      s.network.nodePeers.toList = [("peer", "peer", [.ip4 (10, 0, 0, 1), .p2p "peer"])] ∧
        s.pinnedPeers["peer"]? = some (.until raftPeerPinTtl)) = true := by decide
  obtain ⟨t, ht, hcheck⟩ := (Option.any_eq_true _ _).mp hcheck
  obtain ⟨hbook, hpin⟩ := of_decide_eq_true hcheck
  have hnode {nodeId : NodeId} {peer : PeerId} {addr : Multiaddr}
      (h : t.network.nodePeers[nodeId]? = some (peer, addr)) :
      nodeId = "peer" ∧ peer = "peer" := by
    have hmem := Std.ExtTreeMap.mem_toList_iff_getElem?_eq_some.mpr h
    rw [hbook, List.mem_singleton] at hmem
    exact ⟨congrArg Prod.fst hmem, congrArg (·.2.1) hmem⟩
  refine pins_honoured "local" pinnedRemovedEvents fun n s e hs he => ?_
  intro nodeId peer addr hcall hentry
  match n, he with
  | 2, he =>
    obtain rfl := Run.state_unique pinStep_unique hs (Run.of_foldlM ht)
    obtain ⟨rfl, rfl⟩ := hnode hentry
    refine ⟨by simp [hpin], fun instant nodeId' addr' _ _ hentry' => (hnode hentry').1⟩
  | 0, he | 1, he | 3, he =>
    obtain ⟨⟩ := he
    cases hcall

/-! ### A run that loses a pin -/

/-- A node that is pinned for good is removed and registered again. -/
def lostPinEvents : List (ℕ × PinCall) :=
  [(0, .pinPeer "peer"),
    (0, .register (.registerNode "peer" [.ip4 (10, 0, 0, 1), .p2p "peer"]) []),
    (1, .removeKnownNode "peer"),
    (2, .register (.registerNode "peer" [.ip4 (10, 0, 0, 1), .p2p "peer"]) []),
    (3, .reconnectTargets)]

/-- **The permanent pin is lost**: the peer is back in the book, and it is not redialled. -/
theorem pins_lost :
    (∃ s, Run PinStep (.new "local") lostPinEvents s) ∧
      ¬ Run.AtEvents PinStep (.new "local") Honours lostPinEvents := by
  have hrun : (lostPinEvents.foldlM pinStep (.new "local")).isSome = true := by decide
  have hcheck : ((lostPinEvents.take 4).foldlM pinStep (.new "local")).any (fun s =>
      (pinStep s (3, .reconnectTargets)).isSome && decide ("peer" ∈ s.ledger.permanent ∧
        s.network.nodePeers["peer"]? = some ("peer", [.ip4 (10, 0, 0, 1), .p2p "peer"]) ∧
        reconnectTargets 3 s.pinnedPeers s.network.nodePeers = [])) = true := by decide
  obtain ⟨z, hz⟩ := Option.isSome_iff_exists.mp hrun
  obtain ⟨s, hs, hcheck⟩ := (Option.any_eq_true _ _).mp hcheck
  obtain ⟨hstep, hcheck⟩ := (Bool.and_eq_true _ _).mp hcheck
  obtain ⟨s', hstep⟩ := Option.isSome_iff_exists.mp hstep
  obtain ⟨hperm, hentry, hnone⟩ := of_decide_eq_true hcheck
  refine ⟨⟨z, Run.of_foldlM hz⟩, fun h => ?_⟩
  have hmem := (h 4 s _ (Run.of_foldlM hs) rfl s' hstep).permanent rfl "peer" "peer" _ hperm hentry
  rw [hnone] at hmem
  exact absurd hmem (List.not_mem_nil)

end RustExample.OpenraftCluster.AddressBook
