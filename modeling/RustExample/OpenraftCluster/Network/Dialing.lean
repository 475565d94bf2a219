import Mathlib.Data.List.Nodup
import RustExample.Foundation.Run

/-!
# Dialing peers

The loop that owns the swarm connects to peers on request. The callers that wait for a connection
to one peer are kept in a table, and only the first of them starts a dial; a connection or a failed
dial answers all of them.

Source: `src/network/swarm/dial.rs` (`ensure_peer_connection`, `dial_peer_addr`),
`src/network/swarm/state.rs` (`PendingConnectTable`), `src/network/swarm/events/connection.rs` and
`src/network/swarm/commands.rs` (`Command::Dial`, `EnsureConnection`, `EnsureConnectionAny`).

* The sender of an answer is the number of its request; what is sent is recorded in `answers`.
* Of the swarm, the number of established connections and of dials in progress with each peer is
  kept. What `Swarm::dial` returns is part of an event, and the code drops it.
* A dial in progress ends with one connection or with one error. Connections are also made by the
  other side, and they close at any time.
* Times are milliseconds. The address book, `connected_peers` and the logs are left out: nothing
  here reads them.
-/

namespace RustExample.OpenraftCluster

open Function List

def dialRetryBackoffMs : ℕ := 2000

/-- A part of an address. -/
inductive Protocol (Peer : Type)
  | p2p (peer : Peer)
  | other (text : String)

/-- An address of parts. -/
abbrev Multiaddr (Peer : Type) := List (Protocol Peer)

/-! ### The table of waiters -/

/-- The senders that wait for a connection to each peer. -/
abbrev PendingConnectTable (Peer : Type) := Peer → Option (List ℕ)

section Table

variable {Peer : Type} [DecidableEq Peer]

/-- Register a waiter; `true` if it is the first one. -/
def PendingConnectTable.addWaiter (table : PendingConnectTable Peer) (peer : Peer) (tx : ℕ) :
    PendingConnectTable Peer × Bool :=
  match table peer with
  | some waiters => (update table peer (some (waiters ++ [tx])), false)
  | none => (update table peer (some [tx]), true)

end Table

/-! ### The loop -/

/-- The state of the loop, and the connections and dials of its swarm. -/
structure SwarmLoop (Peer : Type) where
  pendingConnect : PendingConnectTable Peer
  dialBackoffUntil : Peer → Option ℕ
  /-- What was sent, with the number of the request. -/
  answers : List (ℕ × Except String Unit)
  /-- The peers of the requests so far; a request is numbered by its position. -/
  issued : List Peer
  connections : Peer → ℕ
  dials : Peer → ℕ

namespace SwarmLoop

variable {Peer : Type} [DecidableEq Peer] [ToString Peer]

def init : SwarmLoop Peer := ⟨fun _ => none, fun _ => none, [], [], fun _ => 0, fun _ => 0⟩

/-- `resp.send(result)`. -/
def send (s : SwarmLoop Peer) (tx : ℕ) (result : Except String Unit) : SwarmLoop Peer :=
  { s with answers := s.answers ++ [(tx, result)] }

/-- Resolve every waiter for `peer` with `result`. -/
def finish (s : SwarmLoop Peer) (peer : Peer) (result : Except String Unit) : SwarmLoop Peer :=
  match s.pendingConnect peer with
  | none => s
  | some waiters =>
    { s with
      pendingConnect := update s.pendingConnect peer none
      answers := s.answers ++ waiters.map fun tx => (tx, result) }

/-- There is a connection. -/
def isConnected (s : SwarmLoop Peer) (peer : Peer) : Bool := decide (0 < s.connections peer)

/-- `Swarm::dial` to a peer: a dial is in progress if it returned `Ok`. -/
def swarmDial (s : SwarmLoop Peer) (peer : Peer) (dialOk : Bool) : SwarmLoop Peer :=
  if dialOk then { s with dials := update s.dials peer (s.dials peer + 1) } else s

/-- Dials a peer at an address. -/
def dialKnownPeer (s : SwarmLoop Peer) (peer : Peer) (_addr : Multiaddr Peer) (dialOk : Bool) :
    SwarmLoop Peer :=
  s.swarmDial peer dialOk

/-- Dials a peer at all its addresses. -/
def dialKnownPeerAnyAddr (s : SwarmLoop Peer) (peer : Peer) (dialOk : Bool) : SwarmLoop Peer :=
  s.swarmDial peer dialOk

/-- Dials the peer of an address. -/
def dialPeerAddr (localPeer : Peer) (s : SwarmLoop Peer) (addr : Multiaddr Peer) (dialOk : Bool) :
    SwarmLoop Peer :=
  match addr.getLast? with
  | some (.p2p peer) => if peer = localPeer then s else s.dialKnownPeer peer addr dialOk
  -- a dial without a peer id ends in an event without one
  | _ => s

/-- The last part of `ensure_peer_connection`: wait, and dial if nobody waited before. -/
def waitForPeer (s : SwarmLoop Peer) (peer : Peer) (addr : Option (Multiaddr Peer)) (resp : ℕ)
    (dialOk : Bool) : SwarmLoop Peer :=
  let (pendingConnect, shouldDial) := s.pendingConnect.addWaiter peer resp
  let s := { s with pendingConnect }
  if shouldDial then
    match addr with
    | some addr => s.dialKnownPeer peer addr dialOk
    | none => s.dialKnownPeerAnyAddr peer dialOk
  else s

/-- Dials a peer that is not connected. -/
def ensurePeerConnection (localPeer : Peer) (s : SwarmLoop Peer) (peer : Peer)
    (addr : Option (Multiaddr Peer)) (now : ℕ) (dialOk : Bool) : SwarmLoop Peer :=
  let resp := s.issued.length
  let s := { s with issued := s.issued ++ [peer] }
  if peer = localPeer then
    s.send resp (.error ("self dial blocked: peer=" ++ toString peer))
  else if s.isConnected peer then s.send resp (.ok ())
  else
    match s.dialBackoffUntil peer with
    | some backoff =>
      if now < backoff then
        s.send resp (.error ("dial backoff active: peer=" ++ toString peer ++ ", retry_in_ms=" ++
          toString (backoff - now)))
      else
        { s with dialBackoffUntil := update s.dialBackoffUntil peer none }.waitForPeer peer
          addr resp dialOk
    | none => s.waitForPeer peer addr resp dialOk

/-- A connection was made. -/
def handleConnectionEstablished (s : SwarmLoop Peer) (peer : Peer) : SwarmLoop Peer :=
  { s with dialBackoffUntil := update s.dialBackoffUntil peer none }.finish peer (.ok ())

/-- A dial has failed. -/
def handleOutgoingConnectionError (s : SwarmLoop Peer) (peer : Peer) (now : ℕ) (error : String) :
    SwarmLoop Peer :=
  if s.isConnected peer then s
  else
    { s with
      dialBackoffUntil :=
        update s.dialBackoffUntil peer (some (now + dialRetryBackoffMs)) }.finish peer
      (.error ("dial failed: " ++ error))

/-- The commands, with what `Swarm::dial` returns if it is called, and the events of the swarm. -/
inductive Event (Peer : Type)
  | ensureConnection (peer : Peer) (addr : Multiaddr Peer) (now : ℕ) (dialOk : Bool)
  | ensureConnectionAny (peer : Peer) (now : ℕ) (dialOk : Bool)
  | dial (addr : Multiaddr Peer) (dialOk : Bool)
  | established (peer : Peer) (byDial : Bool)
  | closed (peer : Peer)
  | outgoingError (peer : Peer) (now : ℕ) (error : String)

/-- One turn of the loop; `none` if the swarm does not report such an event. -/
def step (localPeer : Peer) (s : SwarmLoop Peer) : Event Peer → Option (SwarmLoop Peer)
  | .ensureConnection peer addr now dialOk =>
    some (ensurePeerConnection localPeer s peer (some addr) now dialOk)
  | .ensureConnectionAny peer now dialOk =>
    some (ensurePeerConnection localPeer s peer none now dialOk)
  | .dial addr dialOk => some (dialPeerAddr localPeer s addr dialOk)
  | .established peer byDial =>
    if byDial ∧ s.dials peer = 0 then none
    else
      some (handleConnectionEstablished
        { s with
          connections := update s.connections peer (s.connections peer + 1)
          dials := if byDial then update s.dials peer (s.dials peer - 1) else s.dials }
        peer)
  | .closed peer =>
    if s.connections peer = 0 then none
    else
      some { s with
        connections := update s.connections peer (s.connections peer - 1) }
  | .outgoingError peer now error =>
    if s.dials peer = 0 then none
    else
      some (handleOutgoingConnectionError
        { s with dials := update s.dials peer (s.dials peer - 1) } peer now error)

end SwarmLoop

namespace SwarmLoop

variable {Peer : Type}

/-! ### Requests -/

/-- Every request waits once, for its peer, or is answered once. -/
structure Accounted (table : PendingConnectTable Peer) (answered : List ℕ) (issued : List Peer) :
    Prop where
  nodup_waiting : ∀ p ws, table p = some ws → ws.Nodup
  of_waiting : ∀ p ws, table p = some ws → ∀ tx ∈ ws, issued[tx]? = some p ∧ tx ∉ answered
  nodup_answered : answered.Nodup
  lt_of_answered : ∀ tx ∈ answered, tx < issued.length
  waiting_or_answered : ∀ tx p, issued[tx]? = some p →
    tx ∈ answered ∨ ∃ ws, table p = some ws ∧ tx ∈ ws

namespace Accounted

variable {table : PendingConnectTable Peer} {answered : List ℕ} {issued : List Peer} {peer : Peer}

theorem answer (h : Accounted table answered issued) :
    Accounted table (answered ++ [issued.length]) (issued ++ [peer]) where
  nodup_waiting := h.nodup_waiting
  of_waiting p ws hp tx htx := by
    obtain ⟨hissued, hanswered⟩ := h.of_waiting p ws hp tx htx
    have hlt := (List.getElem?_eq_some_iff.mp hissued).1
    refine ⟨getElem?_snoc.mpr (.inl hissued), fun hmem => ?_⟩
    rcases List.mem_append.mp hmem with hold | hnew
    · exact hanswered hold
    · rw [mem_singleton] at hnew
      omega
  nodup_answered := by
    refine List.nodup_append.mpr ⟨h.nodup_answered, nodup_singleton _, ?_⟩
    intro tx htx tx' htx' heq
    have hlt := h.lt_of_answered tx htx
    rw [mem_singleton] at htx'
    omega
  lt_of_answered tx htx := by
    rw [length_append, length_singleton]
    rcases List.mem_append.mp htx with hold | hnew
    · exact Nat.lt_succ_of_lt (h.lt_of_answered tx hold)
    · rw [mem_singleton] at hnew
      omega
  waiting_or_answered tx p hp := by
    rcases getElem?_snoc.mp hp with hold | ⟨rfl, -⟩
    · exact (h.waiting_or_answered tx p hold).imp (mem_append_left _) id
    · exact .inl (by simp)

variable [DecidableEq Peer]

theorem wait (h : Accounted table answered issued) {ws : List ℕ}
    (hws : table peer = some ws ∨ table peer = none ∧ ws = []) :
    Accounted (update table peer (some (ws ++ [issued.length]))) answered
      (issued ++ [peer]) := by
  have hold {tx : ℕ} (htx : tx ∈ ws) : issued[tx]? = some peer ∧ tx ∉ answered := by
    rcases hws with hsome | ⟨-, rfl⟩
    · exact h.of_waiting peer ws hsome tx htx
    · exact absurd htx not_mem_nil
  have hfresh {tx : ℕ} {p : Peer} (htx : issued[tx]? = some p) : tx < issued.length :=
    (List.getElem?_eq_some_iff.mp htx).1
  constructor
  · intro p ws' hp
    by_cases hpp : p = peer
    · subst hpp
      rw [update_self] at hp
      obtain ⟨⟩ := hp
      refine List.nodup_append.mpr ⟨?_, nodup_singleton _, fun tx htx tx' htx' heq => ?_⟩
      · rcases hws with hsome | ⟨-, rfl⟩
        · exact h.nodup_waiting p ws hsome
        · exact nodup_nil
      · have hlt := hfresh (hold htx).1
        rw [mem_singleton] at htx'
        omega
    · rw [update_of_ne hpp] at hp
      exact h.nodup_waiting p ws' hp
  · intro p ws' hp tx htx
    by_cases hpp : p = peer
    · subst hpp
      rw [update_self] at hp
      obtain ⟨⟩ := hp
      rcases List.mem_append.mp htx with hmem | hnew
      · exact (hold hmem).imp (fun hi => getElem?_snoc.mpr (.inl hi)) id
      · rw [mem_singleton] at hnew
        refine ⟨getElem?_snoc.mpr (.inr ⟨hnew, rfl⟩), fun hmem => ?_⟩
        have hlt := h.lt_of_answered tx hmem
        omega
    · rw [update_of_ne hpp] at hp
      exact (h.of_waiting p ws' hp tx htx).imp (fun hi => getElem?_snoc.mpr (.inl hi)) id
  · exact h.nodup_answered
  · intro tx htx
    rw [length_append, length_singleton]
    exact Nat.lt_succ_of_lt (h.lt_of_answered tx htx)
  · intro tx p hp
    rcases getElem?_snoc.mp hp with hi | ⟨rfl, rfl⟩
    · rcases h.waiting_or_answered tx p hi with hanswered | ⟨ws', hws', htx⟩
      · exact .inl hanswered
      · by_cases hpp : p = peer
        · subst hpp
          rcases hws with hsome | ⟨hnone, -⟩
          · obtain ⟨⟩ := hsome.symm.trans hws'
            exact .inr ⟨_, update_self .., mem_append_left _ htx⟩
          · rw [hnone] at hws'
            exact absurd hws' nofun
        · exact .inr ⟨ws', by rw [update_of_ne hpp, hws'], htx⟩
    · exact .inr ⟨_, update_self .., by simp⟩

theorem finish (h : Accounted table answered issued) {ws : List ℕ} (hws : table peer = some ws) :
    Accounted (update table peer none) (answered ++ ws) issued := by
  have hother {p : Peer} {ws' : List ℕ} (hp : update table peer none p = some ws') :
      p ≠ peer ∧ table p = some ws' := by
    by_cases hpp : p = peer
    · subst hpp
      rw [update_self] at hp
      exact absurd hp nofun
    · rw [update_of_ne hpp] at hp
      exact ⟨hpp, hp⟩
  constructor
  · exact fun p ws' hp => h.nodup_waiting p ws' (hother hp).2
  · intro p ws' hp tx htx
    obtain ⟨hne, hp⟩ := hother hp
    obtain ⟨hi, hanswered⟩ := h.of_waiting p ws' hp tx htx
    refine ⟨hi, fun hmem => ?_⟩
    rcases List.mem_append.mp hmem with hmem | hmem
    · exact hanswered hmem
    · exact hne (Option.some.inj (hi.symm.trans (h.of_waiting peer ws hws tx hmem).1))
  · refine List.nodup_append.mpr ⟨h.nodup_answered, h.nodup_waiting peer ws hws, ?_⟩
    rintro tx htx tx' htx' rfl
    exact (h.of_waiting peer ws hws tx htx').2 htx
  · intro tx htx
    rcases List.mem_append.mp htx with hmem | hmem
    · exact h.lt_of_answered tx hmem
    · exact (List.getElem?_eq_some_iff.mp (h.of_waiting peer ws hws tx hmem).1).1
  · intro tx p hp
    rcases h.waiting_or_answered tx p hp with hmem | ⟨ws', hws', htx⟩
    · exact .inl (mem_append_left _ hmem)
    · by_cases hpp : p = peer
      · subst hpp
        obtain ⟨⟩ := hws.symm.trans hws'
        exact .inl (mem_append_right _ htx)
      · exact .inr ⟨ws', by rw [update_of_ne hpp, hws'], htx⟩

end Accounted

/-! ### What the functions do -/

section Functions

variable [DecidableEq Peer] {s : SwarmLoop Peer} {peer : Peer} {result : Except String Unit}
  {tx : ℕ} {dialOk : Bool} {addr : Option (Multiaddr Peer)}

@[simp] theorem finish_connections : (s.finish peer result).connections = s.connections := by
  rw [finish]
  split <;> rfl

@[simp] theorem finish_dials : (s.finish peer result).dials = s.dials := by
  rw [finish]
  split <;> rfl

theorem finish_pendingConnect :
    (s.finish peer result).pendingConnect = update s.pendingConnect peer none := by
  rw [finish]
  split
  next h => rw [← h, update_eq_self]
  next => rfl

/-- The requests of a state are accounted for. -/
abbrev Accounts (s : SwarmLoop Peer) : Prop :=
  Accounted s.pendingConnect (s.answers.map Prod.fst) s.issued

theorem Accounts.finish (h : s.Accounts) : (s.finish peer result).Accounts := by
  rw [SwarmLoop.finish]
  split
  next => exact h
  next ws hws =>
    have hfst : (ws.map fun tx => (tx, result)).map Prod.fst = ws := by
      rw [map_map]
      exact map_id _
    have hfinish := Accounted.finish h hws
    rwa [← hfst, ← map_append] at hfinish

/-- The waiters for a peer, if there is none the empty list. -/
def waiters (s : SwarmLoop Peer) (peer : Peer) : List ℕ := (s.pendingConnect peer).getD []

/-- A waiter is added, and its dial is in progress if it is the first one and the swarm dials. -/
theorem waitForPeer_eq : s.waitForPeer peer addr tx dialOk =
    { s with
      pendingConnect := update s.pendingConnect peer (some (s.waiters peer ++ [tx]))
      dials := if s.pendingConnect peer = none ∧ dialOk = true then
        update s.dials peer (s.dials peer + 1) else s.dials } := by
  rw [waitForPeer, PendingConnectTable.addWaiter, waiters]
  cases h : s.pendingConnect peer with
  | some ws => simp
  | none =>
    cases addr <;> cases dialOk <;>
      simp [dialKnownPeer, dialKnownPeerAnyAddr, swarmDial]

/-- It is too early to dial. -/
def BackedOff (s : SwarmLoop Peer) (peer : Peer) (now : ℕ) : Prop :=
  ∃ backoff, s.dialBackoffUntil peer = some backoff ∧ now < backoff

variable [ToString Peer] {localPeer : Peer} {now : ℕ}

/-- A request that is answered at once changes nothing else. -/
theorem ensure_answers
    (h : peer = localPeer ∨ 0 < s.connections peer ∨ s.BackedOff peer now) :
    ∃ r, ensurePeerConnection localPeer s peer addr now dialOk =
      { s with issued := s.issued ++ [peer], answers := s.answers ++ [(s.issued.length, r)] } := by
  rw [ensurePeerConnection]
  by_cases hlocal : peer = localPeer
  · exact ⟨_, if_pos hlocal⟩
  by_cases hconn : 0 < s.connections peer
  · refine ⟨.ok (), ?_⟩
    rw [if_neg hlocal, isConnected, if_pos (by simpa using hconn)]
    rfl
  · obtain ⟨backoff, hbackoff, hlt⟩ := (h.resolve_left hlocal).resolve_left hconn
    rw [if_neg hlocal, isConnected, if_neg (by simpa using hconn)]
    simp only [hbackoff, if_pos hlt]
    exact ⟨_, rfl⟩

theorem ensure_waits (hlocal : peer ≠ localPeer) (hconn : s.connections peer = 0)
    (hbackoff : ¬ s.BackedOff peer now) :
    ∃ backoff, ensurePeerConnection localPeer s peer addr now dialOk =
      { s with issued := s.issued ++ [peer], dialBackoffUntil := backoff }.waitForPeer peer addr
        s.issued.length dialOk := by
  rw [ensurePeerConnection, if_neg hlocal, isConnected, if_neg (by simp [hconn])]
  cases h : s.dialBackoffUntil peer with
  | none =>
    exact ⟨s.dialBackoffUntil, rfl⟩
  | some backoff =>
    have hlt : ¬ now < backoff := fun hlt => hbackoff ⟨backoff, h, hlt⟩
    simp only [if_neg hlt]
    exact ⟨_, rfl⟩

end Functions

/-! ### Steps -/

/-- Every request is accounted for, and nobody waits for a connected peer. -/
structure Inv (s : SwarmLoop Peer) : Prop where
  accounts : s.Accounts
  connected : ∀ p, 0 < s.connections p → s.pendingConnect p = none

/-- Who waits for a peer waits for a dial in progress. -/
def WaitersDial (s : SwarmLoop Peer) : Prop :=
  ∀ p ws, s.pendingConnect p = some ws → 0 < s.dials p

/-- If the swarm refuses the dial of a request, the peer is being dialled. -/
def DialsStart (s : SwarmLoop Peer) : Event Peer → Prop
  | .ensureConnection peer _ _ dialOk => dialOk = true ∨ 0 < s.dials peer
  | .ensureConnectionAny peer _ dialOk => dialOk = true ∨ 0 < s.dials peer
  | _ => True

section Steps

variable [DecidableEq Peer] {s s' : SwarmLoop Peer} {peer : Peer}

theorem Inv.finish (h : s.Inv) {result : Except String Unit} : (s.finish peer result).Inv where
  accounts := h.accounts.finish
  connected p hp := by
    rw [finish_connections] at hp
    rw [finish_pendingConnect]
    by_cases hpp : p = peer
    · rw [hpp, update_self]
    · rw [update_of_ne hpp, h.connected p hp]

theorem WaitersDial.finish {result : Except String Unit}
    (h : ∀ p ws, p ≠ peer → s.pendingConnect p = some ws → 0 < s.dials p) :
    (s.finish peer result).WaitersDial := by
  intro p ws hws
  rw [finish_pendingConnect] at hws
  rw [finish_dials]
  by_cases hpp : p = peer
  · rw [hpp, update_self] at hws
    exact absurd hws nofun
  · rw [update_of_ne hpp] at hws
    exact h p ws hpp hws

variable {dialOk : Bool} {backoff : Peer → Option ℕ}

theorem Inv.waitForPeer (h : s.Inv) {addr : Option (Multiaddr Peer)}
    (hconn : s.connections peer = 0) :
    ({ s with issued := s.issued ++ [peer], dialBackoffUntil := backoff }.waitForPeer peer addr
      s.issued.length dialOk).Inv := by
  rw [waitForPeer_eq]
  refine ⟨h.accounts.wait ?_, fun p hp => ?_⟩
  · cases hws : s.pendingConnect peer with
    | none => exact .inr ⟨rfl, by simp [waiters, hws]⟩
    | some ws => exact .inl (by simp [waiters, hws])
  · have hne : p ≠ peer := by
      rintro rfl
      exact absurd hp (by simp [hconn])
    exact (update_of_ne hne ..).trans (h.connected p hp)

theorem WaitersDial.waitForPeer (h : s.WaitersDial) {addr : Option (Multiaddr Peer)}
    (hstart : dialOk = true ∨ 0 < s.dials peer) :
    ({ s with issued := s.issued ++ [peer], dialBackoffUntil := backoff }.waitForPeer peer addr
      s.issued.length dialOk).WaitersDial := by
  intro p ws hws
  rw [waitForPeer_eq] at hws ⊢
  dsimp only at hws ⊢
  by_cases hpp : p = peer
  · subst hpp
    split_ifs with hfirst
    · rw [update_self]
      exact Nat.succ_pos _
    · cases hwaiting : s.pendingConnect p with
      | none => exact hstart.resolve_left fun hok => hfirst ⟨hwaiting, hok⟩
      | some ws' => exact h p ws' hwaiting
  · rw [update_of_ne hpp] at hws
    have hold := h p ws hws
    split_ifs
    · rwa [update_of_ne hpp]
    · exact hold

variable [ToString Peer] {localPeer : Peer}

/-- **A request keeps the invariants.** -/
theorem inv_ensure (h : s.Inv) {addr : Option (Multiaddr Peer)} {now : ℕ} :
    (ensurePeerConnection localPeer s peer addr now dialOk).Inv := by
  by_cases hanswer : peer = localPeer ∨ 0 < s.connections peer ∨ s.BackedOff peer now
  · obtain ⟨r, hr⟩ := @ensure_answers _ _ s peer dialOk addr _ _ _ hanswer
    rw [hr]
    refine ⟨?_, h.connected⟩
    have haccounts := @Accounted.answer _ _ _ _ peer h.accounts
    rwa [Accounts, map_append]
  · push Not at hanswer
    obtain ⟨hlocal, hconn, hbackoff⟩ := hanswer
    have hconn : s.connections peer = 0 := by omega
    obtain ⟨backoff, heq⟩ := @ensure_waits _ _ s peer dialOk addr _ _ _ hlocal hconn hbackoff
    rw [heq]
    exact h.waitForPeer hconn

theorem waitersDial_ensure (h : s.WaitersDial) {addr : Option (Multiaddr Peer)} {now : ℕ}
    (hstart : dialOk = true ∨ 0 < s.dials peer) :
    (ensurePeerConnection localPeer s peer addr now dialOk).WaitersDial := by
  by_cases hanswer : peer = localPeer ∨ 0 < s.connections peer ∨ s.BackedOff peer now
  · obtain ⟨r, hr⟩ := @ensure_answers _ _ s peer dialOk addr _ _ _ hanswer
    rw [hr]
    exact h
  · push Not at hanswer
    obtain ⟨hlocal, hconn, hbackoff⟩ := hanswer
    obtain ⟨backoff, heq⟩ :=
      @ensure_waits _ _ s peer dialOk addr _ _ _ hlocal (by omega) hbackoff
    rw [heq]
    exact h.waitForPeer hstart

omit [ToString Peer] in
/-- A dial changes only the number of dials, which it does not decrease. -/
theorem dialPeerAddr_eq (addr : Multiaddr Peer) (dialOk : Bool) :
    ∃ dials, dialPeerAddr localPeer s addr dialOk = { s with dials } ∧
      ∀ p, s.dials p ≤ dials p := by
  have hsame : ∃ dials, s = { s with dials } ∧ ∀ p, s.dials p ≤ dials p :=
    ⟨s.dials, rfl, fun _ => Nat.le_refl _⟩
  rw [dialPeerAddr]
  split
  next p _ =>
    split_ifs
    · exact hsame
    · rw [dialKnownPeer, swarmDial]
      split_ifs
      · refine ⟨_, rfl, fun p' => ?_⟩
        by_cases hpp : p' = p
        · rw [hpp, update_self]
          exact Nat.le_succ _
        · exact Nat.le_of_eq (update_of_ne hpp ..).symm
      · exact hsame
  next => exact hsame

/-- **One step keeps the accounts and the connections.** -/
theorem Inv.step (h : s.Inv) {e : Event Peer} (hstep : SwarmLoop.step localPeer s e = some s') :
    s'.Inv := by
  cases e with
  | ensureConnection peer addr now dialOk =>
    obtain ⟨⟩ := hstep
    exact inv_ensure h
  | ensureConnectionAny peer now dialOk =>
    obtain ⟨⟩ := hstep
    exact inv_ensure h
  | dial addr dialOk =>
    obtain ⟨⟩ := hstep
    obtain ⟨dials, heq, -⟩ := @dialPeerAddr_eq _ _ s localPeer addr dialOk
    rw [heq]
    exact ⟨h.accounts, h.connected⟩
  | established peer byDial =>
    simp only [SwarmLoop.step] at hstep
    split_ifs at hstep
    all_goals
      obtain ⟨⟩ := hstep
      rw [handleConnectionEstablished]
      refine ⟨Accounts.finish h.accounts, fun p hp => ?_⟩
      rw [finish_connections] at hp
      rw [finish_pendingConnect]
      by_cases hpp : p = peer
      · rw [hpp, update_self]
      · dsimp only at hp ⊢
        rw [update_of_ne hpp] at hp
        rw [update_of_ne hpp, h.connected p hp]
  | closed peer =>
    simp only [SwarmLoop.step] at hstep
    split_ifs at hstep with hzero
    obtain ⟨⟩ := hstep
    refine ⟨h.accounts, fun p hp => h.connected p ?_⟩
    dsimp only at hp
    by_cases hpp : p = peer
    · rw [hpp]
      omega
    · rwa [update_of_ne hpp] at hp
  | outgoingError peer now error =>
    simp only [SwarmLoop.step] at hstep
    split_ifs at hstep
    obtain ⟨⟩ := hstep
    rw [handleOutgoingConnectionError]
    split_ifs
    · exact ⟨h.accounts, h.connected⟩
    · refine Inv.finish ?_
      exact ⟨h.accounts, h.connected⟩

/-- **One step keeps a dial in progress for every waiter**, if a refused dial finds one. -/
theorem WaitersDial.step (h : s.WaitersDial) (hinv : s.Inv) {e : Event Peer}
    (hstart : s.DialsStart e) (hstep : SwarmLoop.step localPeer s e = some s') :
    s'.WaitersDial := by
  cases e with
  | ensureConnection peer addr now dialOk =>
    obtain ⟨⟩ := hstep
    exact waitersDial_ensure h hstart
  | ensureConnectionAny peer now dialOk =>
    obtain ⟨⟩ := hstep
    exact waitersDial_ensure h hstart
  | dial addr dialOk =>
    obtain ⟨⟩ := hstep
    obtain ⟨dials, heq, hle⟩ := @dialPeerAddr_eq _ _ s localPeer addr dialOk
    rw [heq]
    exact fun p ws hws => Nat.lt_of_lt_of_le (h p ws hws) (hle p)
  | established peer byDial =>
    simp only [SwarmLoop.step] at hstep
    split_ifs at hstep
    all_goals
      obtain ⟨⟩ := hstep
      rw [handleConnectionEstablished]
      refine WaitersDial.finish fun p ws hpp hws => ?_
      have hold := h p ws hws
      dsimp only
      first
      | exact hold
      | rwa [update_of_ne hpp]
  | closed peer =>
    simp only [SwarmLoop.step] at hstep
    split_ifs at hstep
    obtain ⟨⟩ := hstep
    exact h
  | outgoingError peer now error =>
    simp only [SwarmLoop.step] at hstep
    split_ifs at hstep
    obtain ⟨⟩ := hstep
    rw [handleOutgoingConnectionError]
    have hother {p : Peer} {ws : List ℕ} (hpp : p ≠ peer) (hws : s.pendingConnect p = some ws) :
        0 < update s.dials peer (s.dials peer - 1) p := by
      rw [update_of_ne hpp]
      exact h p ws hws
    split_ifs with hconn
    · intro p ws hws
      refine hother ?_ hws
      rintro rfl
      have hconn : 0 < s.connections p := by simpa [isConnected] using hconn
      rw [hinv.connected p hconn] at hws
      exact absurd hws nofun
    · exact WaitersDial.finish fun p ws hpp hws => hother hpp hws

end Steps

/-! ### Runs -/

section Runs

variable [DecidableEq Peer] [ToString Peer] {localPeer : Peer} {es : List (Event Peer)}
  {s : SwarmLoop Peer}

omit [DecidableEq Peer] [ToString Peer] in
theorem Inv.init : (SwarmLoop.init : SwarmLoop Peer).Inv where
  accounts := ⟨nofun, nofun, nodup_nil, nofun, nofun⟩
  connected _ _ := rfl

/-- One event. -/
def Step (localPeer : Peer) (s : SwarmLoop Peer) (e : Event Peer) (s' : SwarmLoop Peer) : Prop :=
  step localPeer s e = some s'

theorem Inv.of_run (run : Run (Step localPeer) SwarmLoop.init es s) : s.Inv :=
  run.invariant Inv.init fun _ _ _ hinv hstep => hinv.step hstep

/-- The turns in which a refused dial finds one in progress. -/
def DiallingStep (localPeer : Peer) (s : SwarmLoop Peer) (e : Event Peer) (s' : SwarmLoop Peer) :
    Prop :=
  Step localPeer s e s' ∧ s.DialsStart e

theorem WaitersDial.of_run (run : Run (DiallingStep localPeer) SwarmLoop.init es s) :
    s.WaitersDial := by
  have hboth := run.invariant (P := fun s => s.Inv ∧ s.WaitersDial) ⟨Inv.init, nofun⟩
    fun _ _ _ h hstep => ⟨h.1.step hstep.1, h.2.step h.1 hstep.2 hstep.1⟩
  exact hboth.2

/-- **Waiters wait for a dial in progress**, if the swarm refuses a dial only while the peer is
being dialled. Every request is answered at most once, and once no dial of its peer is in progress.
A request for another peer that is not connected, did not fail lately and is not being dialled
starts a dial, and so does a dial command. -/
theorem waiters_have_dial (run : Run (DiallingStep localPeer) SwarmLoop.init es s) :
    (∀ p ws, s.pendingConnect p = some ws → 0 < s.dials p) ∧
    (s.answers.map Prod.fst).Nodup ∧
    (∀ tx p, s.issued[tx]? = some p → s.dials p = 0 → tx ∈ s.answers.map Prod.fst) ∧
    (∀ peer addr now, peer ≠ localPeer → s.connections peer = 0 → ¬ s.BackedOff peer now →
      s.dials peer = 0 → (ensurePeerConnection localPeer s peer addr now true).dials peer = 1) ∧
    ∀ peer addr, addr.getLast? = some (.p2p peer) → peer ≠ localPeer →
      (dialPeerAddr localPeer s addr true).dials peer = s.dials peer + 1 := by
  have hdial := WaitersDial.of_run run
  have hinv : s.Inv := Inv.of_run (run.imp fun _ _ _ h => h.1)
  refine ⟨hdial, hinv.accounts.nodup_answered, fun tx p htx hzero => ?_,
    fun peer addr now hlocal hconn hbackoff hzero => ?_, fun peer addr hlast hlocal => ?_⟩
  · refine (hinv.accounts.waiting_or_answered tx p htx).resolve_right ?_
    rintro ⟨ws, hws, -⟩
    have hpos := hdial p ws hws
    omega
  · obtain ⟨backoff, heq⟩ := @ensure_waits _ _ s peer true addr _ _ _ hlocal hconn hbackoff
    have hfirst : s.pendingConnect peer = none := by
      cases hws : s.pendingConnect peer with
      | none => rfl
      | some ws =>
        have hpos := hdial peer ws hws
        omega
    rw [heq, waitForPeer_eq]
    simp [hfirst, hzero]
  · simp [dialPeerAddr, hlast, hlocal, dialKnownPeer, swarmDial]

end Runs

theorem waiters_have_dial_two : ∃ s : SwarmLoop ℕ,
    Run (DiallingStep 0) init
      [.ensureConnection 1 [.p2p 1] 5 true, .ensureConnectionAny 1 6 false,
        .established 1 true] s ∧
    s.answers = [(0, .ok ()), (1, .ok ())] ∧ (s.answers.map Prod.fst).Nodup := by
  obtain ⟨s, run, hanswers⟩ : ∃ s : SwarmLoop ℕ,
      Run (DiallingStep 0) init
        [.ensureConnection 1 [.p2p 1] 5 true, .ensureConnectionAny 1 6 false,
          .established 1 true] s ∧ s.answers = [(0, .ok ()), (1, .ok ())] :=
    ⟨_, .cons ⟨rfl, .inl rfl⟩ <| .cons ⟨rfl, .inr Nat.one_pos⟩ <|
      .cons ⟨rfl, trivial⟩ .nil, rfl⟩
  exact ⟨s, run, hanswers, (waiters_have_dial run).2.1⟩

/-- The dial of the first request is refused, and the second request, long after, does not dial. -/
theorem waiter_orphaned : ∃ s : SwarmLoop ℕ,
    Run (Step 0) init [.ensureConnectionAny 1 0 false, .ensureConnectionAny 1 60000 true] s ∧
    s.pendingConnect 1 = some [0, 1] ∧ s.dials 1 = 0 ∧ s.answers = [] :=
  ⟨_, .cons rfl <| .cons rfl .nil, rfl, rfl, rfl⟩

end SwarmLoop

end RustExample.OpenraftCluster
