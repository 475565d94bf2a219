import RustExample.Foundation.KeyStore

/-!
# The address book

The nodes that are known are kept in a book under their ids, each with its peer and an address.
Configured addresses are registered as they are; addresses that are discovered are used if they
are better than what is known.

Source: `src/network/transport.rs` (`register_configured_node_addr`, `register_discovered_peer`,
`register_node_addr`, `update_peer_addr_from_mdns`, `parse_p2p_addr` and the helpers that classify
addresses), `src/rocksstore_crud/mod.rs` (`RocksNodeId`).

* A peer id is its base58 text, and the node id of a peer is this text.
* A book is a hash map: a scan of its entries goes over the ids in any order, which is an argument.
* A multiaddr is the list of its protocols. The text of one is parsed by the crate.
-/

namespace RustExample.OpenraftCluster.AddressBook

/-! ### Addresses -/

/-- The id of a peer. -/
abbrev PeerId := String

/-- The id of a node. -/
abbrev NodeId := String

/-- `NodeId::from(peer)` -/
def nodeIdOf (peer : PeerId) : NodeId := peer

/-- An address of a host. -/
inductive IpAddr
  | v4 (octets : UInt8 × UInt8 × UInt8 × UInt8)
  | v6 (segments : Vector UInt16 8)
deriving DecidableEq

namespace IpAddr

/-- `127.0.0.0/8` and `::1`. -/
def isLoopback : IpAddr → Bool
  | v4 octets => octets.1 = 127
  | v6 segments => segments = #v[0, 0, 0, 0, 0, 0, 0, 1]

/-- The address is that of no host. -/
def isUnspecified : IpAddr → Bool
  | v4 octets => octets = (0, 0, 0, 0)
  | v6 segments => segments = #v[0, 0, 0, 0, 0, 0, 0, 0]

end IpAddr

/-- A part of an address. -/
inductive Protocol
  | ip4 (octets : UInt8 × UInt8 × UInt8 × UInt8)
  | ip6 (segments : Vector UInt16 8)
  | dns (host : String)
  | dns4 (host : String)
  | dns6 (host : String)
  | p2p (peer : PeerId)
  | other (text : String)
deriving DecidableEq

/-- An address of parts. -/
abbrev Multiaddr := List Protocol

/-- The first peer of an address, after its text was parsed. -/
def parseP2pAddr (addr : Multiaddr) : Option PeerId :=
  addr.findSome? fun
    | .p2p peer => some peer
    | _ => none

/-- Adds the peer, if it is not there. -/
def ensureP2pAddr (addr : Multiaddr) (peer : PeerId) : Multiaddr :=
  match addr.getLast? with
  | some (.p2p _) => addr
  | _ => addr ++ [.p2p peer]

/-- The first host in an address. -/
def addrIp (addr : Multiaddr) : Option IpAddr :=
  addr.findSome? fun
    | .ip4 octets => some (.v4 octets)
    | .ip6 segments => some (.v6 segments)
    | _ => none

/-- The first host name is `localhost`. -/
def hasLocalhostDns (addr : Multiaddr) : Bool :=
  (addr.findSome? fun
    | .dns host | .dns4 host | .dns6 host => some (host.toLower == "localhost")
    | _ => none).getD false

/-- The address is that of the host itself. -/
def isLoopbackAddr (addr : Multiaddr) : Bool :=
  (addrIp addr).any IpAddr.isLoopback || hasLocalhostDns addr

/-- The address is that of no host. -/
def isUnspecifiedAddr (addr : Multiaddr) : Bool := (addrIp addr).any IpAddr.isUnspecified

/-- The address holds on its link only. -/
def isLinkLocalAddr (addr : Multiaddr) : Bool :=
  match addrIp addr with
  | some (.v4 octets) => octets.1 = 169 && octets.2.1 = 254
  | some (.v6 segments) => segments[0] &&& 0xffc0 = 0xfe80
  | none => false

/-- A peer cannot be dialled there. -/
def isUndialableDiscoveredAddr (addr : Multiaddr) : Bool :=
  isUnspecifiedAddr addr || isLinkLocalAddr addr

/-- The found address replaces the stored one. -/
def shouldUseDiscoveredAddr (storedAddr candidate : Multiaddr) : Bool :=
  if isUnspecifiedAddr candidate then false
  else if isLoopbackAddr storedAddr then isLoopbackAddr candidate
  else if isLoopbackAddr candidate then false
  else if isLinkLocalAddr candidate then false
  else if !isLinkLocalAddr storedAddr && isLinkLocalAddr candidate then false
  else true

/-! ### Updates of the book -/

/-- The known nodes. -/
abbrev Book := KeyStore NodeId (PeerId × Multiaddr)

/-- The update of `register_configured_node_addr`: the book, and whether it has changed. -/
def registerConfiguredNodeAddr (book : Book) (nodeId : NodeId) (peer : PeerId)
    (addr : Multiaddr) : Book × Bool :=
  if book[nodeId]? = some (peer, addr) then (book, false)
  else (book.insert nodeId (peer, addr), true)

/-- What a scan for a peer has found. -/
inductive ScanOutcome
  | notFound
  | keep
  | ignore
  | updated
deriving DecidableEq, Repr

/-- The first scan of `register_discovered_peer`, and that of `update_peer_addr_from_mdns`: the
first entry of the peer gets the address if its own is unspecified. -/
def scanPeer (order : List NodeId) (book : Book) (peer : PeerId) (addr : Multiaddr) :
    Book × ScanOutcome :=
  match order.find? fun nodeId => book[nodeId]?.any fun entry => entry.1 == peer with
  | none => (book, .notFound)
  | some nodeId =>
    match book[nodeId]? with
    | none => (book, .notFound)
    | some (storedPeer, storedAddr) =>
      if storedAddr = addr then (book, .keep)
      else if !shouldUseDiscoveredAddr storedAddr addr then (book, .ignore)
      else if isUnspecifiedAddr storedAddr then
        (book.insert nodeId (storedPeer, addr), .updated)
      else (book, .keep)

/-- What became of a registration. -/
inductive RegisterOutcome
  | unchanged
  | ignoredLoopback
  | registered
deriving DecidableEq, Repr

/-- The update of `register_node_addr`. -/
def registerNodeAddr (book : Book) (nodeId : NodeId) (peer : PeerId) (addr : Multiaddr) :
    Book × RegisterOutcome :=
  match book[nodeId]? with
  | some (storedPeer, storedAddr) =>
    if storedPeer = peer ∧ storedAddr = addr then (book, .unchanged)
    else if storedPeer = peer ∧ !isLoopbackAddr storedAddr ∧ isLoopbackAddr addr then
      (book, .ignoredLoopback)
    else (book.insert nodeId (peer, addr), .registered)
  | none => (book.insert nodeId (peer, addr), .registered)

/-! ### What the updates do -/

variable {book : Book} {nodeId n : NodeId} {peer : PeerId} {addr : Multiaddr}
  {order : List NodeId}

/-- A configured address is the one in the book afterwards. -/
theorem registerConfiguredNodeAddr_getElem? (book : Book) (nodeId n : NodeId) (peer : PeerId)
    (addr : Multiaddr) : (registerConfiguredNodeAddr book nodeId peer addr).1[n]? =
      if nodeId = n then some (peer, addr) else book[n]? := by
  rw [registerConfiguredNodeAddr]
  split_ifs with hsame hn hn
  · rw [← hn, hsame]
  · rfl
  · rw [KeyStore.getElem?_put, if_pos hn]
  · rw [KeyStore.getElem?_put, if_neg hn]

/-- **A scan** leaves the book as it is, or changes an unspecified address of the peer. -/
theorem scanPeer_cases (order : List NodeId) (book : Book) (peer : PeerId) (addr : Multiaddr) :
    (scanPeer order book peer addr).1 = book ∨
      ∃ nodeId storedAddr, book[nodeId]? = some (peer, storedAddr) ∧
        isUnspecifiedAddr storedAddr = true ∧
        (scanPeer order book peer addr).1 = book.insert nodeId (peer, addr) := by
  rw [scanPeer]
  cases hfind : order.find? fun nodeId => book[nodeId]?.any fun entry => entry.1 == peer with
  | none => exact .inl rfl
  | some nodeId =>
    have hpeer := List.find?_some hfind
    cases hentry : book[nodeId]? with
    | none => simp [hentry] at hpeer
    | some entry =>
      obtain ⟨storedPeer, storedAddr⟩ := entry
      obtain rfl : storedPeer = peer := by simpa [hentry] using hpeer
      simp only [hentry]
      split_ifs with hsame huse hunspecified
      · exact .inl rfl
      · exact .inl rfl
      · exact .inr ⟨nodeId, storedAddr, hentry, hunspecified, rfl⟩
      · exact .inl rfl

/-- The entry is the same as a discovered address, or only the discovered one is a loopback. -/
def Stands (book : Book) (nodeId : NodeId) (peer : PeerId) (addr : Multiaddr) : Prop :=
  ∃ storedAddr, book[nodeId]? = some (peer, storedAddr) ∧
    (storedAddr = addr ∨ isLoopbackAddr storedAddr = false ∧ isLoopbackAddr addr = true)

theorem registerNodeAddr_of_stands (h : Stands book nodeId peer addr) :
    (registerNodeAddr book nodeId peer addr).1 = book := by
  obtain ⟨storedAddr, hentry, hstands⟩ := h
  rw [registerNodeAddr, hentry]
  rcases hstands with rfl | ⟨hstored, haddr⟩
  · simp
  · simp only [hstored, haddr]
    split_ifs with hsame hloop
    · rfl
    · rfl
    · simp at hloop

/-- **Any other entry** is replaced. -/
theorem registerNodeAddr_of_not_stands (h : ¬ Stands book nodeId peer addr) :
    (registerNodeAddr book nodeId peer addr).1 = book.insert nodeId (peer, addr) := by
  rw [registerNodeAddr]
  cases hentry : book[nodeId]? with
  | none => rfl
  | some entry =>
    obtain ⟨storedPeer, storedAddr⟩ := entry
    simp only
    split_ifs with hsame hloop
    · obtain ⟨rfl, rfl⟩ := hsame
      exact absurd ⟨_, hentry, .inl rfl⟩ h
    · obtain ⟨rfl, hstored, haddr⟩ := hloop
      exact absurd ⟨_, hentry, .inr ⟨by simpa using hstored, haddr⟩⟩ h
    · rfl

end RustExample.OpenraftCluster.AddressBook
