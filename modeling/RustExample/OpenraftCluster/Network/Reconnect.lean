import Mathlib.Algebra.Order.Group.Nat
import Mathlib.Algebra.Order.Monoid.Unbundled.WithTop
import Mathlib.Data.Finset.Card
import Mathlib.Data.Finset.Sort
import RustExample.Foundation.Sorting
import RustExample.OpenraftCluster.Network.Dialing

/-!
# Keeping the number of connections

On every tick the loop that owns the swarm redials the pinned peers that it lost, dials a few peers
when it has too few connections, and closes the idlest ones when it has too many. Pinned peers,
links of the gossip mesh, peers that somebody waits for and peers that were active a moment ago are
spared. A pinned peer that cannot be reached is redialled twice a minute at most.

Source: `src/network/swarm/reconnect.rs`, and `src/network/swarm/events` for what the other events
do to its tables.

* A hash set is iterated over in an order of its own, `iterate`; `rank` is the hash of the peers in
  one tick.
* Times are milliseconds; each job of a tick reads the clock. `⊥` is no activity, which comes before
  every other.
* A connection that is closed shows as an event of its own. The connections that the swarm counts
  are those of `SwarmLoop`.
-/

namespace RustExample.OpenraftCluster

open Function List

def reconnectRetryBackoffMs : ℕ := 30000
def activityProtectWindowMs : ℕ := 20000
def activityRetentionMs : ℕ := 900000
def overlayDialsPerTick : ℕ := 4

/-- The state of the loop with the tables of its maintenance. -/
structure SwarmState (Peer : Type) extends SwarmLoop Peer where
  connectedPeers : Finset Peer
  lastPeerActivity : Peer → WithBot ℕ
  reconnectBackoffUntil : Peer → Option ℕ

/-- A node as the network knows it, and what `Swarm::dial` returns if it is dialled. -/
structure KnownNode (Peer : Type) where
  peer : Peer
  addr : Multiaddr Peer
  dialOk : Bool

/-- What a tick reads. -/
structure TickInputs (Peer : Type) where
  reconnectTargets : List (KnownNode Peer)
  redialAt : ℕ
  knownNodes : List (KnownNode Peer)
  isPeerAlive : Peer → Bool
  rank : Peer → UInt64
  dialAt : ℕ
  allMeshPeers : List Peer
  closeAt : ℕ

/-- The node, its limits, and the order of its hash sets. -/
structure Limits (Peer : Type) where
  localPeer : Peer
  maxPeerConnections : ℕ
  overlayMinConnections : ℕ
  iterate : Finset Peer → List Peer
  iterate_nodup : ∀ peers, (iterate peers).Nodup
  mem_iterate : ∀ peers p, p ∈ iterate peers ↔ p ∈ peers

namespace SwarmState

variable {Peer : Type} [DecidableEq Peer]

def init : SwarmState Peer := ⟨.init, ∅, fun _ => ⊥, fun _ => none⟩

/-! ### The jobs of a tick -/

/-- Dials a node. -/
def dial (localPeer : Peer) (s : SwarmState Peer) (node : KnownNode Peer) : SwarmState Peer :=
  { s with toSwarmLoop := s.toSwarmLoop.dialPeerAddr localPeer node.addr node.dialOk }

/-- One pinned peer; the second part are the peers dialled. -/
def redialPinnedPeer (localPeer : Peer) (now : ℕ) (acc : SwarmState Peer × List Peer)
    (node : KnownNode Peer) : SwarmState Peer × List Peer :=
  if node.peer = localPeer ∨ node.peer ∈ acc.1.connectedPeers then acc
  else if (acc.1.reconnectBackoffUntil node.peer).any (now < ·) then acc
  else
    ({ acc.1.dial localPeer node with
        reconnectBackoffUntil := update acc.1.reconnectBackoffUntil node.peer
          (some (now + reconnectRetryBackoffMs)) }, acc.2 ++ [node.peer])

/-- Redials the pinned peers. -/
def redialPinnedPeers (localPeer : Peer) (s : SwarmState Peer) (inputs : TickInputs Peer) :
    SwarmState Peer × List Peer :=
  inputs.reconnectTargets.foldl (redialPinnedPeer localPeer inputs.redialAt) (s, [])

/-- The nodes to dial for the floor, in the order of a tick. -/
def overlayCandidates (limits : Limits Peer) (s : SwarmState Peer) (inputs : TickInputs Peer) :
    List (KnownNode Peer) :=
  (inputs.knownNodes.filter fun node =>
    node.peer ≠ limits.localPeer ∧ node.peer ∉ s.connectedPeers ∧
      (s.dialBackoffUntil node.peer).any (inputs.dialAt < ·) = false ∧
      inputs.isPeerAlive node.peer).mergeSort fun n n' => inputs.rank n.peer ≤ inputs.rank n'.peer

/-- The peers to be dialled in a tick. -/
def overlayDials (limits : Limits Peer) (s : SwarmState Peer) (inputs : TickInputs Peer) :
    List (KnownNode Peer) :=
  if limits.overlayMinConnections = 0 ∨
      limits.overlayMinConnections ≤ s.connectedPeers.card then []
  else
    (s.overlayCandidates limits inputs).take
      (min (limits.overlayMinConnections - s.connectedPeers.card) overlayDialsPerTick)

/-- Dials up to the floor. -/
def maintainOverlayFloor (limits : Limits Peer) (s : SwarmState Peer) (inputs : TickInputs Peer) :
    SwarmState Peer :=
  (s.overlayDials limits inputs).foldl (dial limits.localPeer) s

/-- The connections to close, to get from `connected` to `budget`. -/
def selectPeersToClose (limits : Limits Peer) (connected : Finset Peer)
    (isProtected : Peer → Bool) (lastActivity : Peer → WithBot ℕ) (budget : ℕ) : List Peer :=
  let excess := connected.card - budget
  if excess = 0 then []
  else
    let candidates := (limits.iterate connected).filter (!isProtected ·)
    (candidates.mergeSort fun p q => lastActivity p ≤ lastActivity q).take excess

/-- The peer was active less than `window` ago. -/
def activeWithin (s : SwarmState Peer) (now window : ℕ) (peer : Peer) : Bool :=
  (now : WithBot ℕ) < s.lastPeerActivity peer + window

/-- The peer keeps its connection. -/
def isProtected (s : SwarmState Peer) (inputs : TickInputs Peer) (pinned : List Peer)
    (peer : Peer) : Bool :=
  peer ∈ pinned ∨ peer ∈ inputs.allMeshPeers ∨ (s.pendingConnect peer).isSome ∨
    s.activeWithin inputs.closeAt activityProtectWindowMs peer

/-- `last_peer_activity.retain` -/
def retainActivity (s : SwarmState Peer) (now : ℕ) : SwarmState Peer :=
  { s with
    lastPeerActivity := fun peer =>
      if s.activeWithin now activityRetentionMs peer then s.lastPeerActivity peer else ⊥ }

/-- The second part are the peers whose connections are closed. -/
def enforceConnectionBudget (limits : Limits Peer) (s : SwarmState Peer) (inputs : TickInputs Peer)
    (pinned : List Peer) : SwarmState Peer × List Peer :=
  let s := s.retainActivity inputs.closeAt
  if limits.maxPeerConnections = 0 ∨ s.connectedPeers.card ≤ limits.maxPeerConnections then (s, [])
  else
    (s, selectPeersToClose limits s.connectedPeers (s.isProtected inputs pinned)
      s.lastPeerActivity limits.maxPeerConnections)

/-- The peers that must stay connected. -/
def pinned (localPeer : Peer) (inputs : TickInputs Peer) : List Peer :=
  (inputs.reconnectTargets.map KnownNode.peer).filter (· ≠ localPeer)

/-- One tick. -/
def handleReconnectTick (limits : Limits Peer) (s : SwarmState Peer) (inputs : TickInputs Peer) :
    SwarmState Peer × List Peer :=
  enforceConnectionBudget limits
    (((s.redialPinnedPeers limits.localPeer inputs).1).maintainOverlayFloor limits inputs) inputs
    (pinned limits.localPeer inputs)

/-! ### The loop -/

/-- What may happen. -/
inductive Event (Peer : Type)
  | loop (event : SwarmLoop.Event Peer) (now : ℕ)
  | rpcMessage (peer : Peer) (now : ℕ)
  | tick (inputs : TickInputs Peer)

/-- What a connection and its end do to the tables. -/
def record (s : SwarmState Peer) (now : ℕ) : SwarmLoop.Event Peer → SwarmState Peer
  | .established peer _ =>
    { s with
      connectedPeers := insert peer s.connectedPeers
      reconnectBackoffUntil := update s.reconnectBackoffUntil peer none
      lastPeerActivity := update s.lastPeerActivity peer now }
  | .closed peer =>
    if s.connections peer = 0 then
      { s with
        connectedPeers := s.connectedPeers.erase peer
        lastPeerActivity := update s.lastPeerActivity peer ⊥ }
    else s
  | _ => s

/-- What an event does, if it may happen. -/
def step [ToString Peer] (limits : Limits Peer) (s : SwarmState Peer) :
    Event Peer → Option (SwarmState Peer)
  | .loop event now =>
    (s.toSwarmLoop.step limits.localPeer event).map fun loop =>
      { s with toSwarmLoop := loop }.record now event
  | .rpcMessage peer now =>
    some { s with lastPeerActivity := update s.lastPeerActivity peer now }
  | .tick inputs => some (s.handleReconnectTick limits inputs).1

/-! ### Redials -/

variable {s s' : SwarmState Peer} {limits : Limits Peer} {localPeer : Peer}
  {inputs : TickInputs Peer}

theorem dial_eq (node : KnownNode Peer) : ∃ dials, s.dial localPeer node = { s with dials } := by
  obtain ⟨dials, h, -⟩ :=
    @SwarmLoop.dialPeerAddr_eq _ _ s.toSwarmLoop localPeer node.addr node.dialOk
  exact ⟨dials, by rw [dial, h]⟩

/-- What the redials of `nodes` do: once to each peer that is lost and was not tried lately. -/
structure Redialled (localPeer : Peer) (now : ℕ) (s : SwarmState Peer)
    (nodes : List (KnownNode Peer)) (acc : SwarmState Peer × List Peer) : Prop where
  state : ∃ dials, acc.1 = { s with
    dials
    reconnectBackoffUntil := fun p =>
      if p ∈ acc.2 then some (now + reconnectRetryBackoffMs) else s.reconnectBackoffUntil p }
  nodup : acc.2.Nodup
  mem_iff : ∀ p, p ∈ acc.2 ↔ p ∈ nodes.map KnownNode.peer ∧ p ≠ localPeer ∧
    p ∉ s.connectedPeers ∧ (s.reconnectBackoffUntil p).any (now < ·) = false

/-- **The next pinned peer.** -/
theorem Redialled.next {now : ℕ} {nodes : List (KnownNode Peer)}
    {acc : SwarmState Peer × List Peer} (h : Redialled localPeer now s nodes acc)
    (node : KnownNode Peer) :
    Redialled localPeer now s (nodes ++ [node]) (redialPinnedPeer localPeer now acc node) := by
  obtain ⟨⟨dials, hstate⟩, hnodup, hmem⟩ := h
  obtain ⟨t, out⟩ := acc
  dsimp only at hstate hnodup hmem
  have hskip (hnode : node.peer ∈ out ∨ node.peer = localPeer ∨ node.peer ∈ s.connectedPeers ∨
      (s.reconnectBackoffUntil node.peer).any (now < ·) = true) :
      Redialled localPeer now s (nodes ++ [node]) (t, out) := by
    refine ⟨⟨dials, hstate⟩, hnodup, fun p => ⟨fun hp => ?_, fun hp => ?_⟩⟩
    · obtain ⟨hin, hrest⟩ := (hmem p).mp hp
      exact ⟨by simp only [map_append, mem_append, hin, true_or], hrest⟩
    · rw [map_append, mem_append, map_singleton, mem_singleton] at hp
      obtain ⟨hin | rfl, hlocal, hconn, hbackoff⟩ := hp
      · exact (hmem p).mpr ⟨hin, hlocal, hconn, hbackoff⟩
      · simpa [hlocal, hconn, hbackoff] using hnode
  have hactive : (t.reconnectBackoffUntil node.peer).any (now < ·) = true ↔
      node.peer ∈ out ∨ (s.reconnectBackoffUntil node.peer).any (now < ·) = true := by
    rw [hstate]
    by_cases hout : node.peer ∈ out <;> simp [hout, reconnectRetryBackoffMs]
  rw [redialPinnedPeer]
  split_ifs with hknown hbackoff
  · rw [hstate] at hknown
    exact hskip (.inr (hknown.imp_right Or.inl))
  · exact hskip ((hactive.mp hbackoff).imp_right fun h => .inr (.inr h))
  · rw [hstate] at hknown
    obtain ⟨hlocal, hconn⟩ := not_or.mp hknown
    obtain ⟨hout, hnone⟩ := not_or.mp (hactive.not.mp hbackoff)
    obtain ⟨dials', hdial⟩ := @dial_eq _ _ t localPeer node
    refine ⟨⟨dials', ?_⟩, ?_, fun p => ?_⟩
    · rw [hdial]
      simp only [hstate, SwarmState.mk.injEq, true_and]
      funext p
      by_cases hp : p = node.peer <;> simp [hp]
    · refine List.nodup_append.mpr ⟨hnodup, nodup_singleton _, fun p hp q hq hpq => ?_⟩
      rw [hpq, List.mem_singleton.mp hq] at hp
      exact hout hp
    · rw [mem_append, hmem p, map_append, mem_append, mem_singleton,
        map_singleton, mem_singleton]
      refine ⟨?_, fun h => ?_⟩
      · rintro (⟨hin, hrest⟩ | rfl)
        · exact ⟨.inl hin, hrest⟩
        · exact ⟨.inr rfl, hlocal, hconn, by simpa using hnone⟩
      · exact h.1.imp (fun hin => ⟨hin, h.2⟩) id

theorem redialled (localPeer : Peer) (s : SwarmState Peer) (inputs : TickInputs Peer) :
    Redialled localPeer inputs.redialAt s inputs.reconnectTargets
      (s.redialPinnedPeers localPeer inputs) := by
  rw [redialPinnedPeers]
  induction inputs.reconnectTargets using List.reverseRecOn with
  | nil => exact ⟨⟨s.dials, by simp⟩, nodup_nil, by simp⟩
  | append_singleton nodes node ih =>
    rw [foldl_append]
    exact ih.next node

/-! ### Connections to close -/

omit [DecidableEq Peer] in
theorem selectPeersToClose_spec {connected : Finset Peer} {isProtected : Peer → Bool}
    {lastActivity : Peer → WithBot ℕ} {budget : ℕ} {closed : List Peer}
    (h : selectPeersToClose limits connected isProtected lastActivity budget = closed) :
    closed.Nodup ∧ closed.length ≤ connected.card - budget ∧
    (∀ p ∈ closed, p ∈ connected ∧ isProtected p = false) ∧
    (∀ p ∈ closed, ∀ q ∈ connected, q ∉ closed → isProtected q = false →
      lastActivity p ≤ lastActivity q) ∧
    (connected.card - closed.length ≤ budget ∨
      ∀ q ∈ connected, q ∉ closed → isProtected q = true) := by
  rw [selectPeersToClose] at h
  dsimp only at h
  split_ifs at h with hzero
  · subst h
    exact ⟨nodup_nil, Nat.zero_le _, nofun, nofun, .inl (by simpa using by omega)⟩
  · have hsorting := (sortsTo_mergeSort lastActivity
      ((limits.iterate connected).filter (!isProtected ·))).take (connected.card - budget)
    rw [h] at hsorting
    set rest := (((limits.iterate connected).filter (!isProtected ·)).mergeSort
      fun p q => lastActivity p ≤ lastActivity q).drop (connected.card - budget) with hrest
    have hmem (p : Peer) : (p ∈ closed ∨ p ∈ rest) ↔ p ∈ connected ∧ isProtected p = false := by
      rw [← mem_append, hsorting.perm.mem_iff, mem_filter, limits.mem_iterate]
      simp
    have hnodup : (closed ++ rest).Nodup :=
      hsorting.perm.nodup_iff.mpr ((limits.iterate_nodup connected).filter _)
    have hlength : closed.length ≤ connected.card - budget := h ▸ length_take_le ..
    refine ⟨(List.nodup_append.mp hnodup).1, hlength, fun p hp => (hmem p).mp (.inl hp),
      fun p hp q hq hqc hqp => ?_, ?_⟩
    · exact hsorting.before p hp q (((hmem q).mpr ⟨hq, hqp⟩).resolve_left hqc)
    · by_cases hfull : closed.length = connected.card - budget
      · exact .inl (by omega)
      · refine .inr fun q hq hqc => ?_
        by_contra hqp
        have hin := ((hmem q).mpr ⟨hq, by simpa using hqp⟩).resolve_left hqc
        have hpos := length_pos_of_mem hin
        rw [hrest, length_drop] at hpos
        rw [← h, length_take] at hfull
        omega

omit [DecidableEq Peer] in
theorem lastPeerActivity_retainActivity (now : ℕ) (p : Peer) :
    (s.retainActivity now).lastPeerActivity p =
      if s.activeWithin now activityRetentionMs p then s.lastPeerActivity p else ⊥ := rfl

omit [DecidableEq Peer] in
/-- What was active a moment ago is not forgotten. -/
theorem activeWithin_retainActivity {now : ℕ} {p : Peer} :
    (s.retainActivity now).activeWithin now activityProtectWindowMs p =
      s.activeWithin now activityProtectWindowMs p := by
  rw [activeWithin, lastPeerActivity_retainActivity]
  split_ifs with hretained
  · rfl
  · have hlong : s.activeWithin now activityProtectWindowMs p = false := by
      refine Bool.eq_false_iff.mpr fun hshort => hretained (decide_eq_true ?_)
      exact (of_decide_eq_true hshort).trans_le (add_le_add_right (by decide) _)
    rw [hlong]
    simp

theorem enforceConnectionBudget_fst {pinned : List Peer} :
    (s.enforceConnectionBudget limits inputs pinned).1 = s.retainActivity inputs.closeAt := by
  unfold enforceConnectionBudget
  dsimp only
  split_ifs <;> rfl

theorem enforceConnectionBudget_snd {pinned : List Peer} :
    (s.enforceConnectionBudget limits inputs pinned).2 =
      if limits.maxPeerConnections = 0 ∨ s.connectedPeers.card ≤ limits.maxPeerConnections then []
      else selectPeersToClose limits s.connectedPeers (s.isProtected inputs pinned)
        (s.retainActivity inputs.closeAt).lastPeerActivity limits.maxPeerConnections := by
  have hprotected : (s.retainActivity inputs.closeAt).isProtected inputs pinned =
      s.isProtected inputs pinned := by
    funext p
    unfold isProtected
    rw [activeWithin_retainActivity]
    rfl
  rw [← hprotected]
  exact apply_ite Prod.snd ..

/-! ### Ticks and runs -/

theorem foldl_dial (nodes : List (KnownNode Peer)) :
    ∃ dials, nodes.foldl (dial localPeer) s = { s with dials } := by
  induction nodes generalizing s with
  | nil => exact ⟨s.dials, rfl⟩
  | cons node nodes ih =>
    obtain ⟨dials, hdial⟩ := @dial_eq _ _ s localPeer node
    rw [foldl_cons, hdial]
    exact ih

/-- The last job of a tick finds the dials and the redials of the jobs before. -/
theorem exists_tick (limits : Limits Peer) (s : SwarmState Peer) (inputs : TickInputs Peer) :
    ∃ dials, s.handleReconnectTick limits inputs = enforceConnectionBudget limits
      { s with
        dials
        reconnectBackoffUntil :=
          (s.redialPinnedPeers limits.localPeer inputs).1.reconnectBackoffUntil }
      inputs (pinned limits.localPeer inputs) := by
  obtain ⟨dials, hredial⟩ := (redialled limits.localPeer s inputs).state
  obtain ⟨dials', hdial⟩ := @foldl_dial _ _ (s.redialPinnedPeers limits.localPeer inputs).1
    limits.localPeer ((s.redialPinnedPeers limits.localPeer inputs).1.overlayDials limits inputs)
  refine ⟨dials', ?_⟩
  rw [handleReconnectTick, maintainOverlayFloor, hdial, hredial]

/-- The table of the connected peers is that of the swarm. -/
structure Mirrors (s : SwarmState Peer) : Prop where
  inv : s.toSwarmLoop.Inv
  mem_iff : ∀ p, p ∈ s.connectedPeers ↔ 0 < s.connections p

theorem connections_ensure [ToString Peer] {s : SwarmLoop Peer} {peer : Peer}
    {addr : Option (Multiaddr Peer)} {now : ℕ} {dialOk : Bool} :
    (SwarmLoop.ensurePeerConnection localPeer s peer addr now dialOk).connections =
      s.connections := by
  by_cases hanswer : peer = localPeer ∨ 0 < s.connections peer ∨ s.BackedOff peer now
  · obtain ⟨r, hr⟩ := @SwarmLoop.ensure_answers _ _ s peer dialOk addr _ _ _ hanswer
    rw [hr]
  · push Not at hanswer
    obtain ⟨hlocal, hconn, hbackoff⟩ := hanswer
    obtain ⟨backoff, heq⟩ :=
      @SwarmLoop.ensure_waits _ _ s peer dialOk addr _ _ _ hlocal (by omega) hbackoff
    rw [heq, SwarmLoop.waitForPeer_eq]

variable [ToString Peer]

/-- **One step keeps the table of the connected peers.** -/
theorem Mirrors.step (h : s.Mirrors) {e : Event Peer} (hstep : s.step limits e = some s') :
    s'.Mirrors := by
  cases e with
  | rpcMessage peer now =>
    obtain ⟨⟩ := hstep
    exact ⟨h.inv, h.mem_iff⟩
  | tick inputs =>
    obtain ⟨⟩ := hstep
    obtain ⟨dials, htick⟩ := exists_tick limits s inputs
    rw [htick, enforceConnectionBudget_fst]
    exact ⟨⟨h.inv.accounts, h.inv.connected⟩, h.mem_iff⟩
  | loop event now =>
    obtain ⟨loop, hloop, rfl⟩ := Option.map_eq_some_iff.mp hstep
    have hinv := h.inv.step hloop
    cases event with
    | ensureConnection peer addr now dialOk =>
      obtain ⟨⟩ := hloop
      exact ⟨hinv, fun p => by simpa [record, connections_ensure] using h.mem_iff p⟩
    | ensureConnectionAny peer now dialOk =>
      obtain ⟨⟩ := hloop
      exact ⟨hinv, fun p => by simpa [record, connections_ensure] using h.mem_iff p⟩
    | dial addr dialOk =>
      obtain ⟨⟩ := hloop
      obtain ⟨dials, hdial, -⟩ :=
        @SwarmLoop.dialPeerAddr_eq _ _ s.toSwarmLoop limits.localPeer addr dialOk
      exact ⟨hinv, fun p => by simpa [record, hdial] using h.mem_iff p⟩
    | established peer byDial =>
      simp only [SwarmLoop.step] at hloop
      split_ifs at hloop
      all_goals
        obtain ⟨⟩ := hloop
        refine ⟨hinv, fun p => ?_⟩
        by_cases hp : p = peer
        · simp [record, SwarmLoop.handleConnectionEstablished, hp]
        · simp [record, SwarmLoop.handleConnectionEstablished, hp, h.mem_iff]
    | closed peer =>
      simp only [SwarmLoop.step] at hloop
      split_ifs at hloop with hzero
      obtain ⟨⟩ := hloop
      rw [record]
      split_ifs with hlast
      · refine ⟨hinv, fun p => ?_⟩
        by_cases hp : p = peer
        · simp [hp] at hlast ⊢
          omega
        · simp [hp, h.mem_iff]
      · refine ⟨hinv, fun p => ?_⟩
        by_cases hp : p = peer
        · simp [hp, h.mem_iff] at hlast ⊢
          omega
        · simp [hp, h.mem_iff]
    | outgoingError peer now error =>
      simp only [SwarmLoop.step] at hloop
      split_ifs at hloop
      obtain ⟨⟩ := hloop
      refine ⟨hinv, fun p => ?_⟩
      simp only [record, SwarmLoop.handleOutgoingConnectionError]
      split_ifs <;> simpa using h.mem_iff p

/-- The turns of the loop. -/
def Step (limits : Limits Peer) (s : SwarmState Peer) (e : Event Peer) (s' : SwarmState Peer) :
    Prop :=
  s.step limits e = some s'

theorem Mirrors.of_run {es : List (Event Peer)} (run : Run (Step limits) init es s) : s.Mirrors :=
  run.invariant ⟨SwarmLoop.Inv.init, fun _ => by simp [init, SwarmLoop.init]⟩
    fun _ _ _ h hstep => h.step hstep

/-- **What a tick closes**: the idlest connections to unprotected peers, no more than the budget
asks for. What is left is within it or protected. -/
theorem closes_idlest {es : List (Event Peer)} (run : Run (Step limits) init es s)
    (inputs : TickInputs Peer) :
    let tick := s.handleReconnectTick limits inputs
    let isProtected := s.isProtected inputs (pinned limits.localPeer inputs)
    (∀ p, p ∈ s.connectedPeers ↔ 0 < s.connections p) ∧
    tick.2.Nodup ∧ tick.2.length ≤ s.connectedPeers.card - limits.maxPeerConnections ∧
    (∀ p ∈ tick.2, 0 < s.connections p ∧ isProtected p = false) ∧
    (∀ p ∈ tick.2, ∀ q ∉ tick.2, 0 < s.connections q → isProtected q = false →
      tick.1.lastPeerActivity p ≤ tick.1.lastPeerActivity q) ∧
    (limits.maxPeerConnections = 0 ∨
      s.connectedPeers.card - tick.2.length ≤ limits.maxPeerConnections ∨
      ∀ q ∉ tick.2, 0 < s.connections q → isProtected q = true) := by
  intro tick isProtected
  have hconn := (Mirrors.of_run run).mem_iff
  obtain ⟨dials, htick⟩ := exists_tick limits s inputs
  have hactivity : tick.1.lastPeerActivity =
      (s.retainActivity inputs.closeAt).lastPeerActivity := by
    simp only [tick, htick, enforceConnectionBudget_fst]
    rfl
  have hclosed := congrArg Prod.snd htick
  rw [enforceConnectionBudget_snd] at hclosed
  rw [hactivity]
  split_ifs at hclosed with hfew
  · simp only [tick, hclosed]
    exact ⟨hconn, nodup_nil, Nat.zero_le _, nofun, nofun,
      hfew.imp_right fun hle => .inl (by simpa using hle)⟩
  · obtain ⟨hnodup, hlength, hof, hidle, hleft⟩ := selectPeersToClose_spec hclosed.symm
    exact ⟨hconn, hnodup, hlength, fun p hp => (hof p hp).imp_left (hconn p).mp,
      fun p hp q hq hqc => hidle p hp q ((hconn q).mpr hqc) hq,
      .inr (hleft.imp_right fun hall q hq hqc => hall q ((hconn q).mpr hqc) hq)⟩

/-- A node that keeps one connection. -/
def oneConnection : Limits ℕ where
  localPeer := 0
  maxPeerConnections := 1
  overlayMinConnections := 0
  iterate := Finset.sort
  iterate_nodup _ := Finset.sort_nodup ..
  mem_iterate _ _ := Finset.mem_sort _

/-- A tick with some targets. -/
def pinnedAt (targets : List ℕ) (now : ℕ) : TickInputs ℕ :=
  ⟨targets.map fun p => ⟨p, [.p2p p], true⟩, now, [], fun _ => true, fun _ => 0, now, [], now⟩

theorem closes_idlest_two : ∃ s : SwarmState ℕ,
    Run (Step oneConnection) init
      [.loop (.established 1 false) 0, .loop (.established 2 false) 5] s ∧
    ∀ p ∈ (s.handleReconnectTick oneConnection (pinnedAt [2] 60000)).2,
      0 < s.connections p ∧ s.isProtected (pinnedAt [2] 60000) [2] p = false := by
  obtain ⟨s, run⟩ : ∃ s, Run (Step oneConnection) init
      [.loop (.established 1 false) 0, .loop (.established 2 false) 5] s :=
    ⟨_, .cons rfl <| .cons rfl .nil⟩
  exact ⟨s, run, (closes_idlest run (pinnedAt [2] 60000)).2.2.2.1⟩

/-- **What a tick dials**: each lost pinned peer that was not tried lately, once, and a few others
that are alive, up to the floor. With a floor below the budget, such a tick closes nothing. -/
theorem dials_lost {es : List (Event Peer)} (run : Run (Step limits) init es s)
    (inputs : TickInputs Peer) :
    let redials := s.redialPinnedPeers limits.localPeer inputs
    let dials := redials.1.overlayDials limits inputs
    redials.2.Nodup ∧
    (∀ p, p ∈ redials.2 ↔ p ∈ pinned limits.localPeer inputs ∧ s.connections p = 0 ∧
      (s.reconnectBackoffUntil p).any (inputs.redialAt < ·) = false) ∧
    (∀ node ∈ dials, node ∈ inputs.knownNodes ∧ node.peer ≠ limits.localPeer ∧
      s.connections node.peer = 0 ∧ inputs.isPeerAlive node.peer = true ∧
      (s.dialBackoffUntil node.peer).any (inputs.dialAt < ·) = false) ∧
    dials.length ≤ overlayDialsPerTick ∧
    (dials = [] ∨ s.connectedPeers.card + dials.length ≤ limits.overlayMinConnections) ∧
    (limits.overlayMinConnections ≤ limits.maxPeerConnections →
      dials = [] ∨ (s.handleReconnectTick limits inputs).2 = []) := by
  intro redials dials
  have hconn (p : Peer) : p ∉ s.connectedPeers ↔ s.connections p = 0 := by
    rw [(Mirrors.of_run run).mem_iff]
    omega
  obtain ⟨⟨dials', hstate⟩, hnodup, hmem⟩ := redialled limits.localPeer s inputs
  have hdials : dials = s.overlayDials limits inputs := by
    simp only [dials, redials, hstate]
    rfl
  have hlength : dials = [] ∨ dials.length ≤ overlayDialsPerTick ∧
      s.connectedPeers.card + dials.length ≤ limits.overlayMinConnections := by
    rw [hdials, overlayDials]
    split_ifs with hnone
    · exact .inl rfl
    · have hwant := length_take_le
        (min (limits.overlayMinConnections - s.connectedPeers.card) overlayDialsPerTick)
        (s.overlayCandidates limits inputs)
      exact .inr (by omega)
  refine ⟨hnodup, fun p => ?_, fun node hnode => ?_, ?_, hlength.imp_right And.right, fun hle => ?_⟩
  · rw [hmem, hconn, pinned, mem_filter]
    simp [and_assoc]
  · rw [hdials, overlayDials] at hnode
    split_ifs at hnode
    · exact absurd hnode not_mem_nil
    · rw [overlayCandidates] at hnode
      have hin := List.mem_filter.mp (List.mem_mergeSort.mp (mem_of_mem_take hnode))
      obtain ⟨hlocal, hlost, hbackoff, halive⟩ := of_decide_eq_true hin.2
      exact ⟨hin.1, hlocal, (hconn _).mp hlost, halive, hbackoff⟩
  · rcases hlength with hnil | hlen
    · simp [hnil]
    · exact hlen.1
  · refine hlength.imp_right fun hlen => ?_
    obtain ⟨_, htick⟩ := exists_tick limits s inputs
    rw [htick, enforceConnectionBudget_snd, if_pos]
    exact .inr (by dsimp only; omega)

theorem dials_lost_two : ∃ s : SwarmState ℕ,
    Run (Step oneConnection) init [.loop (.established 1 false) 0] s ∧
    (s.redialPinnedPeers 0 (pinnedAt [1, 2, 2] 7)).2 = [2] ∧
    (s.redialPinnedPeers 0 (pinnedAt [1, 2, 2] 7)).2.Nodup := by
  obtain ⟨s, run, hs⟩ : ∃ s, Run (Step oneConnection) init [.loop (.established 1 false) 0] s ∧
      (s.redialPinnedPeers 0 (pinnedAt [1, 2, 2] 7)).2 = [2] :=
    ⟨_, .cons rfl .nil, by decide⟩
  exact ⟨s, run, hs, (dials_lost run (pinnedAt [1, 2, 2] 7)).1⟩

omit [ToString Peer] in
theorem reconnectBackoffUntil_tick (p : Peer) :
    (s.handleReconnectTick limits inputs).1.reconnectBackoffUntil p =
      if p ∈ (s.redialPinnedPeers limits.localPeer inputs).2 then
        some (inputs.redialAt + reconnectRetryBackoffMs)
      else s.reconnectBackoffUntil p := by
  obtain ⟨_, htick⟩ := exists_tick limits s inputs
  obtain ⟨_, hstate⟩ := (redialled limits.localPeer s inputs).state
  rw [htick, enforceConnectionBudget_fst, hstate]
  rfl

/-- The peer is not redialled before `bound`. -/
def HeldBack (s : SwarmState Peer) (p : Peer) (bound : ℕ) : Prop :=
  ∃ backoff, s.reconnectBackoffUntil p = some backoff ∧ bound ≤ backoff

omit [ToString Peer] in
theorem HeldBack.le_redialAt {p : Peer} {bound : ℕ} (h : s.HeldBack p bound)
    (hp : p ∈ (s.redialPinnedPeers localPeer inputs).2) : bound ≤ inputs.redialAt := by
  obtain ⟨backoff, hbackoff, hle⟩ := h
  have hany := (((redialled localPeer s inputs).mem_iff p).mp hp).2.2.2
  rw [hbackoff, Option.any_some, decide_eq_false_iff_not] at hany
  omega

/-- Only a connection to the peer ends it: a redial prolongs it. -/
theorem HeldBack.step {p : Peer} {bound : ℕ} (h : s.HeldBack p bound) {e : Event Peer}
    (hstep : s.step limits e = some s')
    (he : ∀ byDial now, e ≠ .loop (.established p byDial) now) : s'.HeldBack p bound := by
  cases e with
  | rpcMessage peer now =>
    obtain ⟨⟩ := hstep
    exact h
  | tick inputs =>
    obtain ⟨⟩ := hstep
    rw [HeldBack, reconnectBackoffUntil_tick]
    split_ifs with hp
    · exact ⟨_, rfl, (h.le_redialAt hp).trans (Nat.le_add_right ..)⟩
    · exact h
  | loop event now =>
    obtain ⟨loop, -, rfl⟩ := Option.map_eq_some_iff.mp hstep
    obtain ⟨backoff, hbackoff, hle⟩ := h
    refine ⟨backoff, ?_, hle⟩
    unfold record
    split
    next peer byDial =>
      have hne : p ≠ peer := by
        rintro rfl
        exact he byDial now rfl
      exact (update_of_ne hne ..).trans hbackoff
    next => split_ifs <;> exact hbackoff
    next => exact hbackoff

/-- **Redials are spaced**: until the peer is reached, they are half a minute apart at least. -/
theorem redial_spaced {es : List (Event Peer)} {before after : TickInputs Peer} {p : Peer}
    (hbefore : p ∈ (s.redialPinnedPeers limits.localPeer before).2)
    (run : Run (Step limits) (s.handleReconnectTick limits before).1 es s')
    (hes : ∀ byDial now, .loop (.established p byDial) now ∉ es)
    (hafter : p ∈ (s'.redialPinnedPeers limits.localPeer after).2) :
    before.redialAt + reconnectRetryBackoffMs ≤ after.redialAt := by
  have hstart : (s.handleReconnectTick limits before).1.HeldBack p
      (before.redialAt + reconnectRetryBackoffMs) :=
    ⟨_, by rw [reconnectBackoffUntil_tick, if_pos hbefore], Nat.le_refl _⟩
  have hend : s'.HeldBack p (before.redialAt + reconnectRetryBackoffMs) := by
    revert hes
    refine run.history (P := fun es t => (∀ byDial now, .loop (.established p byDial) now ∉ es) →
      t.HeldBack p (before.redialAt + reconnectRetryBackoffMs)) (fun _ => hstart)
      fun es t e t' _ ih hstep hes => ?_
    simp only [mem_append, mem_singleton, not_or] at hes
    exact (ih fun byDial now => (hes byDial now).1).step hstep
      fun byDial now => Ne.symm (hes byDial now).2
  exact hend.le_redialAt hafter

theorem redial_spaced_unreached : ∃ s : SwarmState ℕ,
    Run (Step oneConnection) (handleReconnectTick oneConnection init (pinnedAt [1] 0)).1
      [.rpcMessage 2 7, .tick (pinnedAt [1] 12000)] s ∧
    1 ∈ (s.redialPinnedPeers 0 (pinnedAt [1] 36000)).2 ∧ 0 + reconnectRetryBackoffMs ≤ 36000 := by
  obtain ⟨s, run, hs⟩ : ∃ s : SwarmState ℕ,
      Run (Step oneConnection) (handleReconnectTick oneConnection init (pinnedAt [1] 0)).1
        [.rpcMessage 2 7, .tick (pinnedAt [1] 12000)] s ∧
      1 ∈ (s.redialPinnedPeers 0 (pinnedAt [1] 36000)).2 :=
    ⟨_, .cons rfl <| .cons rfl .nil, by decide⟩
  exact ⟨s, run, hs, @redial_spaced _ _ _ _ oneConnection _ _ _ _ _ (by decide) run (by simp) hs⟩

end SwarmState

end RustExample.OpenraftCluster
