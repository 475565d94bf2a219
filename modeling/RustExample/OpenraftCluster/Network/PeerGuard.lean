import Mathlib.Data.List.Count
import RustExample.Foundation.Run

/-!
# The guard of outbound requests

Requests to other peers pass a guard that counts the requests in flight, for each protocol and
peer and in all, and that opens a circuit for a protocol and peer after consecutive failures.
A request that is admitted holds a permit until it is dropped, and reports its outcome with it.

Source: `src/network/peer_guard.rs`, `src/network/transport.rs` (`guarded`).

* Times are milliseconds since the guard was created, as unbounded numbers.
* A call is one step. Of the two times that `try_acquire` reads, the second is `later`.
* Permits with the same target and time are interchangeable, so the permits in flight are a list.
-/

namespace RustExample.OpenraftCluster

open List

def perPeerMaxConcurrentRpcs : ℕ := 32
def circuitBreakerFailureThreshold : ℕ := 5
def circuitBreakerOpenDurationMs : ℕ := 10000

/-- The kinds of calls. -/
inductive RpcKind where
  | raft
  | sqliteSync
  | taskRpc
  | wasmSync
  | kv
  deriving DecidableEq, Repr

/-- Why a call is refused. -/
inductive PeerRpcRejection where
  | circuitOpen (retryInMs : ℕ)
  | bulkheadFull
  | globalLimitFull
  deriving DecidableEq, Repr

/-! ### The guard -/

/-- `bulkhead` counts free slots; the circuit is closed at `openUntilMs` zero, else half open
later. -/
structure PeerGuardState where
  bulkhead : ℕ := perPeerMaxConcurrentRpcs
  consecutiveFailures : ℕ := 0
  openUntilMs : ℕ := 0

/-- The state of every protocol and peer, and the free slots of all of them. -/
structure PeerRpcGuard (P : Type) where
  peers : RpcKind × P → PeerGuardState
  globalBulkhead : ℕ

/-- What an admitted call holds. -/
structure PeerRpcPermit (P : Type) where
  target : RpcKind × P
  openAtMs : ℕ
  deriving DecidableEq

/-- Whether one more failure opens the circuit. -/
def PeerGuardState.Trips (state : PeerGuardState) : Prop :=
  state.openUntilMs ≠ 0 ∨ circuitBreakerFailureThreshold ≤ state.consecutiveFailures + 1

instance (state : PeerGuardState) : Decidable state.Trips :=
  inferInstanceAs (Decidable (_ ∨ _))

/-- Takes a slot, if one is free. -/
def tryAcquireOwned : ℕ → Option ℕ
  | 0 => none
  | free + 1 => some free

variable {P : Type}

namespace PeerRpcGuard

/-- A guard with all slots free. -/
def withGlobalLimit (globalLimit : ℕ) : PeerRpcGuard P := ⟨fun _ => {}, globalLimit⟩

variable [DecidableEq P]

/-- A target comes to a state. -/
def setState (g : PeerRpcGuard P) (target : RpcKind × P) (state : PeerGuardState) :
    PeerRpcGuard P :=
  { g with peers := Function.update g.peers target state }

@[simp] theorem setState_peers_self (g : PeerRpcGuard P) (target : RpcKind × P)
    (state : PeerGuardState) : (g.setState target state).peers target = state :=
  Function.update_self _ _ _

@[simp] theorem setState_peers_of_ne (g : PeerRpcGuard P) {target other : RpcKind × P}
    (h : other ≠ target) (state : PeerGuardState) :
    (g.setState target state).peers other = g.peers other :=
  Function.update_of_ne h _ _

/-- What a new state of `target` has in common with the old one is unchanged everywhere. -/
theorem setState_frame {α : Type} (f : PeerGuardState → α) (g : PeerRpcGuard P)
    {target : RpcKind × P} {state : PeerGuardState} (h : f state = f (g.peers target))
    (other : RpcKind × P) : f ((g.setState target state).peers other) = f (g.peers other) := by
  by_cases hother : other = target
  · rw [hother, setState_peers_self, h]
  · rw [setState_peers_of_ne g hother]

/-- Takes the slots for a call. -/
def tryAcquire (g : PeerRpcGuard P) (target : RpcKind × P) (now later : ℕ) :
    Except PeerRpcRejection (PeerRpcPermit P) × PeerRpcGuard P :=
  let state := g.peers target
  if state.openUntilMs ≠ 0 ∧ now < state.openUntilMs then
    (.error (.circuitOpen (state.openUntilMs - now)), g)
  else
    match tryAcquireOwned state.bulkhead with
    | none => (.error .bulkheadFull, g)
    | some bulkhead =>
      match tryAcquireOwned g.globalBulkhead with
      -- the slot of the peer is given back
      | none => (.error .globalLimitFull, g)
      | some globalBulkhead =>
        (.ok ⟨target, later + circuitBreakerOpenDurationMs⟩,
          { g.setState target { state with bulkhead } with globalBulkhead })

/-- A call has succeeded. -/
def recordSuccess (g : PeerRpcGuard P) (permit : PeerRpcPermit P) : PeerRpcGuard P :=
  g.setState permit.target
    { g.peers permit.target with consecutiveFailures := 0, openUntilMs := 0 }

/-- A call has failed. -/
def recordFailure (g : PeerRpcGuard P) (permit : PeerRpcPermit P) : PeerRpcGuard P :=
  let state := g.peers permit.target
  if state.Trips then
    g.setState permit.target
      { state with openUntilMs := permit.openAtMs, consecutiveFailures := 0 }
  else
    g.setState permit.target
      { state with consecutiveFailures := state.consecutiveFailures + 1 }

/-- The slots of a permit are free again. -/
def drop (g : PeerRpcGuard P) (permit : PeerRpcPermit P) : PeerRpcGuard P :=
  let state := g.peers permit.target
  { g.setState permit.target { state with bulkhead := state.bulkhead + 1 } with
    globalBulkhead := g.globalBulkhead + 1 }

end PeerRpcGuard

/-! ### Interleavings -/

/-- The guard, the time and the permits in flight. -/
structure GuardedRpcs (P : Type) where
  guard : PeerRpcGuard P
  clock : ℕ
  permits : List (PeerRpcPermit P)

/-- What may happen. -/
inductive GuardEvent (P : Type) where
  | tick (now : ℕ)
  | tryAcquire (target : RpcKind × P) (now : ℕ) (answer : Except PeerRpcRejection Unit)
  | recordSuccess (target : RpcKind × P)
  | recordFailure (permit : PeerRpcPermit P) (now : ℕ) (trips : Bool)
  | drop (permit : PeerRpcPermit P)

namespace GuardedRpcs

/-- No call was made. -/
def initial (globalLimit : ℕ) : GuardedRpcs P := ⟨.withGlobalLimit globalLimit, 0, []⟩

variable [DecidableEq P]

/-- The calls of any requests. A permit may report any number of outcomes, and none if cancelled. -/
inductive Step (s : GuardedRpcs P) : GuardEvent P → GuardedRpcs P → Prop
  | tick (now : ℕ) (h : s.clock ≤ now) : Step s (.tick now) { s with clock := now }
  | acquire (target : RpcKind × P) (later : ℕ) (permit : PeerRpcPermit P) (guard : PeerRpcGuard P)
      (hlater : s.clock ≤ later)
      (h : s.guard.tryAcquire target s.clock later = (.ok permit, guard)) :
      Step s (.tryAcquire target s.clock (.ok ())) ⟨guard, later, permit :: s.permits⟩
  | reject (target : RpcKind × P) (later : ℕ) (rejection : PeerRpcRejection)
      (guard : PeerRpcGuard P)
      (h : s.guard.tryAcquire target s.clock later = (.error rejection, guard)) :
      Step s (.tryAcquire target s.clock (.error rejection)) { s with guard }
  | recordSuccess (permit : PeerRpcPermit P) (h : permit ∈ s.permits) :
      Step s (.recordSuccess permit.target) { s with guard := s.guard.recordSuccess permit }
  | recordFailure (permit : PeerRpcPermit P) (h : permit ∈ s.permits) :
      Step s (.recordFailure permit s.clock (decide (s.guard.peers permit.target).Trips))
        { s with guard := s.guard.recordFailure permit }
  | drop (permit : PeerRpcPermit P) (h : permit ∈ s.permits) :
      Step s (.drop permit) ⟨s.guard.drop permit, s.clock, s.permits.erase permit⟩

/-- The permits in flight for a protocol and peer. -/
def outstanding (s : GuardedRpcs P) (target : RpcKind × P) : ℕ :=
  s.permits.countP fun permit => permit.target = target

/-! ### What a call changes -/

section

variable {g guard : PeerRpcGuard P} {target other : RpcKind × P} {permit : PeerRpcPermit P}
  {now later : ℕ} {rejection : PeerRpcRejection}

/-- An admitted request takes a slot of its target and one of all. -/
theorem admitted (h : g.tryAcquire target now later = (.ok permit, guard)) :
    (g.peers target).openUntilMs ≤ now ∧
    permit = ⟨target, later + circuitBreakerOpenDurationMs⟩ ∧
    ∃ bulkhead globalBulkhead, (g.peers target).bulkhead = bulkhead + 1 ∧
      g.globalBulkhead = globalBulkhead + 1 ∧
      guard = { g.setState target { g.peers target with bulkhead } with globalBulkhead } := by
  unfold PeerRpcGuard.tryAcquire at h
  dsimp only at h
  split_ifs at h with hopen
  · exact absurd h (by simp)
  · cases hb : (g.peers target).bulkhead with
    | zero => simp [hb, tryAcquireOwned] at h
    | succ bulkhead =>
      cases hg : g.globalBulkhead with
      | zero => simp [hb, hg, tryAcquireOwned] at h
      | succ globalBulkhead =>
        simp only [hb, hg, tryAcquireOwned, Prod.mk.injEq, Except.ok.injEq] at h
        obtain ⟨rfl, rfl⟩ := h
        refine ⟨?_, rfl, bulkhead, globalBulkhead, rfl, rfl, rfl⟩
        omega

theorem rejected (h : g.tryAcquire target now later = (.error rejection, guard)) : guard = g := by
  unfold PeerRpcGuard.tryAcquire at h
  dsimp only at h
  split_ifs at h with hopen
  · exact (congrArg Prod.snd h).symm
  · cases hb : (g.peers target).bulkhead with
    | zero => simpa [hb, tryAcquireOwned] using (congrArg Prod.snd h).symm
    | succ bulkhead =>
      cases hg : g.globalBulkhead with
      | zero => simpa [hb, hg, tryAcquireOwned] using (congrArg Prod.snd h).symm
      | succ globalBulkhead => simp [hb, hg, tryAcquireOwned] at h

/-- A request is admitted outside the open window, if slots are free. -/
theorem exists_admitted (g : PeerRpcGuard P) (target : RpcKind × P) (now later : ℕ)
    (hopen : (g.peers target).openUntilMs ≤ now)
    (hb : 0 < (g.peers target).bulkhead) (hg : 0 < g.globalBulkhead) :
    ∃ permit guard, g.tryAcquire target now later = (.ok permit, guard) := by
  obtain ⟨bulkhead, hb⟩ := Nat.exists_eq_add_of_lt hb
  obtain ⟨globalBulkhead, hg⟩ := Nat.exists_eq_add_of_lt hg
  have hclosed : ¬((g.peers target).openUntilMs ≠ 0 ∧ now < (g.peers target).openUntilMs) := by
    omega
  simp only [PeerRpcGuard.tryAcquire, hclosed, ↓reduceIte, hb, hg, Nat.zero_add, tryAcquireOwned]
  exact ⟨_, _, rfl⟩

end

/-! ### Permits and slots -/

/-- Every slot is free or taken by a permit in flight. -/
structure Balanced (globalLimit : ℕ) (s : GuardedRpcs P) : Prop where
  target : ∀ target,
    (s.guard.peers target).bulkhead + s.outstanding target = perPeerMaxConcurrentRpcs
  total : s.guard.globalBulkhead + s.permits.length = globalLimit

variable {globalLimit : ℕ}

theorem Balanced.step {s s' : GuardedRpcs P} {e : GuardEvent P} (hs : s.Balanced globalLimit)
    (h : Step s e s') : s'.Balanced globalLimit := by
  -- outcomes leave the slots alone
  have hsame (guard : PeerRpcGuard P) (target : RpcKind × P) (state : PeerGuardState)
      (hguard : guard = s.guard.setState target state)
      (hstate : state.bulkhead = (s.guard.peers target).bulkhead) :
      Balanced globalLimit { s with guard } := by
    subst hguard
    refine ⟨fun other => ?_, hs.total⟩
    show ((s.guard.setState target state).peers other).bulkhead + s.outstanding other = _
    rw [PeerRpcGuard.setState_frame PeerGuardState.bulkhead s.guard hstate, hs.target other]
  cases h with
  | tick now h => exact ⟨hs.target, hs.total⟩
  | reject target later rejection guard h =>
    rw [rejected h]
    exact hs
  | acquire target later permit guard hlater h =>
    obtain ⟨-, rfl, bulkhead, globalBulkhead, hb, hg, rfl⟩ := admitted h
    refine ⟨fun other => ?_, ?_⟩
    · have hother := hs.target other
      show ((s.guard.setState target _).peers other).bulkhead + List.countP _ (_ :: _) = _
      rw [countP_cons]
      by_cases heq : other = target
      · subst heq
        rw [PeerRpcGuard.setState_peers_self]
        simp only [outstanding, hb] at hother
        simp only [decide_true, if_true]
        omega
      · rw [PeerRpcGuard.setState_peers_of_ne _ heq]
        simpa [outstanding, Ne.symm heq] using hother
    · have htotal := hs.total
      show globalBulkhead + (_ :: s.permits).length = globalLimit
      rw [length_cons]
      omega
  | recordSuccess permit h => exact hsame _ _ _ rfl rfl
  | recordFailure permit h =>
    unfold PeerRpcGuard.recordFailure
    dsimp only
    split_ifs
    · exact hsame _ _ _ rfl rfl
    · exact hsame _ _ _ rfl rfl
  | drop permit h =>
    have hlength := length_erase_of_mem h
    have hpos := length_pos_of_mem h
    refine ⟨fun other => ?_, ?_⟩
    · have hother := hs.target other
      show ((s.guard.setState permit.target _).peers other).bulkhead +
        List.countP _ (s.permits.erase permit) = _
      rw [countP_erase]
      by_cases heq : other = permit.target
      · subst heq
        have hcount : 0 < s.outstanding permit.target :=
          List.countP_pos_iff.mpr ⟨permit, h, by simp⟩
        rw [PeerRpcGuard.setState_peers_self]
        simp only [outstanding] at hother hcount
        simp only [h, decide_true, and_self, if_true]
        omega
      · rw [PeerRpcGuard.setState_peers_of_ne _ heq]
        simpa [outstanding, Ne.symm heq] using hother
    · have htotal := hs.total
      show s.guard.globalBulkhead + 1 + (s.permits.erase permit).length = globalLimit
      omega

theorem balanced_of_run {es : List (GuardEvent P)} {s : GuardedRpcs P}
    (run : Run Step (initial globalLimit) es s) : s.Balanced globalLimit :=
  run.invariant ⟨fun _ => rfl, rfl⟩ fun _ _ _ hs h => hs.step h

/-- The caps on requests in flight, and that all slots are free when there are none. -/
structure WithinCaps (globalLimit : ℕ) (s : GuardedRpcs P) : Prop where
  target : ∀ target, s.outstanding target ≤ perPeerMaxConcurrentRpcs
  total : s.permits.length ≤ globalLimit
  restored : s.permits = [] → (∀ target, s.outstanding target = 0 ∧
    (s.guard.peers target).bulkhead = perPeerMaxConcurrentRpcs) ∧
    s.guard.globalBulkhead = globalLimit

theorem Balanced.withinCaps {s : GuardedRpcs P} (h : s.Balanced globalLimit) :
    s.WithinCaps globalLimit := by
  refine ⟨fun target => ?_, ?_, fun hnil => ⟨fun target => ?_, ?_⟩⟩
  · have := h.target target
    omega
  · have := h.total
    omega
  · have hzero : s.outstanding target = 0 := by rw [outstanding, hnil, countP_nil]
    have := h.target target
    omega
  · have := h.total
    rw [hnil, length_nil] at this
    omega

end GuardedRpcs

end RustExample.OpenraftCluster
