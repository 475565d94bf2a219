import RustExample.OpenraftCluster.Network.PeerGuard

/-!
# The open window of a circuit

A failure that opens a circuit stores the end of its window, which was computed when the request
was acquired. The window is as long as it should be exactly if no time has passed since.
-/

namespace RustExample.OpenraftCluster

open List

variable {P : Type}

/-- A failure that opens the circuit of `target` at time `t`. -/
def GuardEvent.OpensAt (target : RpcKind × P) (t : ℕ) : GuardEvent P → Prop
  | .recordFailure permit now trips => permit.target = target ∧ now = t ∧ trips = true
  | .tick _ | .tryAcquire _ _ _ | .recordSuccess _ | .drop _ => False

/-- The event is a success of the target. -/
def GuardEvent.SuccessOf (target : RpcKind × P) : GuardEvent P → Prop
  | .recordSuccess other => other = target
  | .tick _ | .tryAcquire _ _ _ | .recordFailure _ _ _ | .drop _ => False

/-- The event is a failure. -/
def GuardEvent.IsFailure : GuardEvent P → Prop
  | .recordFailure _ _ _ => True
  | .tick _ | .tryAcquire _ _ _ | .recordSuccess _ | .drop _ => False

namespace GuardedRpcs

/-- The circuit was opened at position `i`, at time `t`, and has seen no success since. -/
abbrev OpenSince (es : List (GuardEvent P)) (target : RpcKind × P) (t i : ℕ) : Prop :=
  HeldSince (GuardEvent.OpensAt target t) (GuardEvent.SuccessOf target) es i

variable [DecidableEq P]

/-- An open circuit rejects every request until its window is over or a success is recorded, and a
failure never moves that end back. -/
structure CircuitLaw (s₀ : GuardedRpcs P) (es : List (GuardEvent P)) : Prop where
  rejects : ∀ i j target t now answer, OpenSince (es.take j) target t i →
    es[j]? = some (.tryAcquire target now answer) → now < t + circuitBreakerOpenDurationMs →
    ∃ rejection, answer = .error rejection
  prolongs : Run.AtEvents Step s₀ (fun s e => ∀ permit now trips s',
    e = .recordFailure permit now trips → Step s e s' →
    (s.guard.peers permit.target).openUntilMs ≤ (s'.guard.peers permit.target).openUntilMs) es

/-- A failure that opens its circuit is recorded in the millisecond of its acquisition. -/
def TripInTime (_ : GuardedRpcs P) : GuardEvent P → Prop
  | .recordFailure permit now trips =>
    trips = true → permit.openAtMs = now + circuitBreakerOpenDurationMs
  | .tick _ | .tryAcquire _ _ _ | .recordSuccess _ | .drop _ => True

/-- The law holds of a run and of all that may happen from its states on without a failure. -/
def KeepsCircuitLaw (s₀ : GuardedRpcs P) (es : List (GuardEvent P)) : Prop :=
  ∀ n es' s', (∀ e ∈ es', ¬e.IsFailure) → Run Step s₀ (es.take n ++ es') s' →
    CircuitLaw s₀ (es.take n ++ es')

/-! ### Window ends -/

/-- No window ends later than one that starts now. -/
structure Timely (s : GuardedRpcs P) : Prop where
  permit : ∀ permit ∈ s.permits, permit.openAtMs ≤ s.clock + circuitBreakerOpenDurationMs
  openUntil : ∀ target,
    (s.guard.peers target).openUntilMs ≤ s.clock + circuitBreakerOpenDurationMs

theorem Step.openUntilMs {s s' : GuardedRpcs P} {e : GuardEvent P} (h : Step s e s')
    (target : RpcKind × P) :
    (s'.guard.peers target).openUntilMs = (s.guard.peers target).openUntilMs ∧
        ¬e.SuccessOf target ∧ (∀ t, ¬e.OpensAt target t) ∨
      e.SuccessOf target ∧ (s'.guard.peers target).openUntilMs = 0 ∨
      ∃ permit ∈ s.permits, permit.target = target ∧ e = .recordFailure permit s.clock true ∧
        (s'.guard.peers target).openUntilMs = permit.openAtMs := by
  cases h with
  | tick now h => exact .inl ⟨rfl, id, fun _ => id⟩
  | reject other later rejection guard h => exact .inl ⟨by rw [rejected h], id, fun _ => id⟩
  | acquire other later permit guard hlater h =>
    obtain ⟨-, -, bulkhead, globalBulkhead, -, -, rfl⟩ := admitted h
    refine .inl ⟨s.guard.setState_frame PeerGuardState.openUntilMs ?_ target, id, fun _ => id⟩
    rfl
  | drop permit h =>
    refine .inl ⟨s.guard.setState_frame PeerGuardState.openUntilMs ?_ target, id, fun _ => id⟩
    rfl
  | recordSuccess permit h =>
    by_cases heq : permit.target = target
    · refine .inr (.inl ⟨heq, ?_⟩)
      show ((s.guard.recordSuccess permit).peers target).openUntilMs = 0
      rw [PeerRpcGuard.recordSuccess, heq, PeerRpcGuard.setState_peers_self]
    · refine .inl ⟨?_, heq, fun _ => id⟩
      show ((s.guard.recordSuccess permit).peers target).openUntilMs = _
      rw [PeerRpcGuard.recordSuccess, PeerRpcGuard.setState_peers_of_ne _ (Ne.symm heq)]
  | recordFailure permit h =>
    by_cases htrips : (s.guard.peers permit.target).Trips
    · have hguard : s.guard.recordFailure permit = s.guard.setState permit.target
          { s.guard.peers permit.target with
            openUntilMs := permit.openAtMs, consecutiveFailures := 0 } := by
        simp only [PeerRpcGuard.recordFailure, htrips, if_true]
      by_cases heq : permit.target = target
      · refine .inr (.inr ⟨permit, h, heq, by rw [decide_eq_true htrips], ?_⟩)
        show ((s.guard.recordFailure permit).peers target).openUntilMs = _
        rw [hguard, heq, PeerRpcGuard.setState_peers_self]
      · refine .inl ⟨?_, id, fun t ht => heq ht.1⟩
        show ((s.guard.recordFailure permit).peers target).openUntilMs = _
        rw [hguard, PeerRpcGuard.setState_peers_of_ne _ (Ne.symm heq)]
    · refine .inl ⟨?_, id, fun t ht => htrips (of_decide_eq_true ht.2.2)⟩
      show ((s.guard.recordFailure permit).peers target).openUntilMs = _
      simp only [PeerRpcGuard.recordFailure, htrips, if_false]
      refine s.guard.setState_frame PeerGuardState.openUntilMs ?_ target
      rfl

theorem Step.clock_le {s s' : GuardedRpcs P} {e : GuardEvent P} (h : Step s e s') :
    s.clock ≤ s'.clock := by
  cases h with
  | tick now h => exact h
  | acquire target later permit guard hlater h => exact hlater
  | _ => exact Nat.le_refl _

variable {permit : PeerRpcPermit P} {now : ℕ}

theorem Step.of_recordFailure {s s' : GuardedRpcs P} {trips : Bool}
    (h : Step s (.recordFailure permit now trips) s') :
    now = s.clock ∧ permit ∈ s'.permits ∧ s'.clock = s.clock := by
  cases h with
  | recordFailure _ h => exact ⟨rfl, h, rfl⟩

/-- A permit is in flight already, or computes its window from the time of the step. -/
theorem Step.openAtMs_le {s s' : GuardedRpcs P} {e : GuardEvent P} (h : Step s e s')
    (hp : permit ∈ s'.permits) :
    permit ∈ s.permits ∨ permit.openAtMs = s'.clock + circuitBreakerOpenDurationMs := by
  cases h with
  | acquire target later _ guard hlater h =>
    obtain ⟨-, rfl, -⟩ := admitted h
    rcases List.mem_cons.mp hp with rfl | hp
    · exact .inr rfl
    · exact .inl hp
  | drop _ h => exact .inl (mem_of_mem_erase hp)
  | _ => exact .inl hp

theorem Timely.step {s s' : GuardedRpcs P} {e : GuardEvent P} (hs : s.Timely)
    (h : Step s e s') : s'.Timely := by
  have hclock := h.clock_le
  refine ⟨fun permit hp => ?_, fun target => ?_⟩
  · rcases h.openAtMs_le hp with hp | hopen
    · have := hs.permit permit hp
      omega
    · omega
  · have htarget := hs.openUntil target
    rcases h.openUntilMs target with ⟨hopen, -, -⟩ | ⟨-, hopen⟩ | ⟨permit, hp, -, -, hopen⟩
    · omega
    · omega
    · have := hs.permit permit hp
      omega

variable {es : List (GuardEvent P)}

theorem timely_of_run {globalLimit : ℕ} {s : GuardedRpcs P}
    (run : Run Step (initial globalLimit) es s) : s.Timely :=
  run.invariant ⟨forall_mem_nil _, fun _ => Nat.zero_le _⟩ fun _ _ _ hs h => hs.step h

/-! ### Circuits that are opened in time -/

/-- The window of every open circuit ends no earlier than it should. -/
def WindowsKept (es : List (GuardEvent P)) (s : GuardedRpcs P) : Prop :=
  ∀ target t i, OpenSince es target t i →
    t + circuitBreakerOpenDurationMs ≤ (s.guard.peers target).openUntilMs

theorem WindowsKept.step {s s' : GuardedRpcs P} {e : GuardEvent P} (hs : s.Timely)
    (hkept : WindowsKept es s) (h : Step s e s') (hin : TripInTime s e) :
    WindowsKept (es ++ [e]) s' := by
  intro target t i hi
  rcases h.openUntilMs target with ⟨hopen, -, hnot⟩ | ⟨hsuccess, -⟩ |
    ⟨permit, -, rfl, rfl, hopen⟩
  · rcases hi.of_snoc with ⟨hi, -⟩ | ⟨-, hi⟩
    · rw [hopen]
      exact hkept target t i hi
    · exact absurd hi (hnot t)
  · rcases hi.of_snoc with ⟨-, hi⟩ | ⟨-, hi⟩
    · exact absurd hsuccess hi
    · cases e with
      | recordFailure => exact absurd hsuccess id
      | _ => exact absurd hi id
  · have hend : permit.openAtMs = s.clock + circuitBreakerOpenDurationMs := hin rfl
    rcases hi.of_snoc with ⟨hi, -⟩ | ⟨-, -, rfl, -⟩
    · have := hkept permit.target t i hi
      have := hs.openUntil permit.target
      omega
    · omega

theorem rejects_of_lt {s s' : GuardedRpcs P} {target : RpcKind × P}
    {answer : Except PeerRpcRejection Unit} (h : Step s (.tryAcquire target now answer) s')
    (hopen : now < (s.guard.peers target).openUntilMs) :
    ∃ rejection, answer = .error rejection := by
  cases h with
  | acquire _ later permit guard hlater h =>
    have := (admitted h).1
    omega
  | reject _ later rejection guard h => exact ⟨rejection, rfl⟩

section

variable {globalLimit : ℕ} {es : List (GuardEvent P)} {s : GuardedRpcs P}

theorem windowsKept_of_tripsInTime (run : Run Step (initial globalLimit) es s)
    (hin : Run.AtEvents Step (initial globalLimit) TripInTime es) : WindowsKept es s := by
  have h₀ : (initial globalLimit : GuardedRpcs P).Timely := timely_of_run .nil
  have hkept : s.Timely ∧ WindowsKept es s :=
    (run.of_atEvents hin).history (P := fun es s => s.Timely ∧ WindowsKept es s)
      ⟨h₀, fun _ _ _ h => absurd h.lt_length (Nat.not_lt_zero _)⟩
      fun _ _ _ _ _ hs h => ⟨hs.1.step h.1, hs.2.step hs.1 h.1 h.2⟩
  exact hkept.2

theorem circuitLaw_of_tripsInTime (run : Run Step (initial globalLimit) es s)
    (hin : Run.AtEvents Step (initial globalLimit) TripInTime es) :
    CircuitLaw (initial globalLimit) es := by
  refine ⟨fun i j target t now answer hi he hnow => ?_, ?_⟩
  · obtain ⟨s₁, s₂, hs₁, h, -⟩ := run.at_event he
    have hkept := windowsKept_of_tripsInTime hs₁ (hin.take j) target t i hi
    exact rejects_of_lt h (by omega)
  · rintro n s₁ e hs₁ he permit now trips s₂ rfl h
    rcases h.openUntilMs permit.target with ⟨hopen, -, -⟩ | ⟨hsuccess, -⟩ |
      ⟨permit', -, -, heq, hopen⟩
    · omega
    · exact absurd hsuccess id
    · obtain ⟨rfl, rfl, rfl⟩ := GuardEvent.recordFailure.inj heq
      have hend := hin n s₁ _ hs₁ he rfl
      have := (timely_of_run hs₁).openUntil permit.target
      omega

theorem tripsInTime_append {es' : List (GuardEvent P)}
    (h : Run.AtEvents Step (initial globalLimit) TripInTime es) (hquiet : ∀ e ∈ es', ¬e.IsFailure) :
    Run.AtEvents Step (initial globalLimit) TripInTime (es ++ es') := by
  induction es' using List.reverseRecOn with
  | nil => rwa [append_nil]
  | append_singleton es' e ih =>
    rw [← append_assoc]
    refine (ih fun c hc => hquiet c (mem_append_left _ hc)).snoc fun s _ => ?_
    have he := hquiet e (mem_append_right _ (mem_singleton_self e))
    cases e with
    | recordFailure permit now trips => exact absurd trivial he
    | _ => exact trivial

/-! ### Circuits that are opened late -/

/-- After a late opening the opener is dropped, and a request at the window's end is admitted. -/
theorem exists_admitted_of_late {s s' : GuardedRpcs P}
    (h : Step s (.recordFailure permit now true) s')
    (hlate : permit.openAtMs < now + circuitBreakerOpenDurationMs) :
    ∃ t s'', now ≤ t ∧ t < now + circuitBreakerOpenDurationMs ∧
      Run Step s' [.drop permit, .tick t, .tryAcquire permit.target t (.ok ())] s'' := by
  obtain ⟨hnow, hmem, hclock⟩ := h.of_recordFailure
  have hopen : (s'.guard.peers permit.target).openUntilMs = permit.openAtMs := by
    rcases h.openUntilMs permit.target with ⟨-, -, hnot⟩ | ⟨hsuccess, -⟩ | ⟨p, -, -, heq, hopen⟩
    · exact absurd ⟨rfl, rfl, rfl⟩ (hnot now)
    · exact absurd hsuccess id
    · obtain ⟨rfl, -, -⟩ := GuardEvent.recordFailure.inj heq
      exact hopen
  let t := max s'.clock permit.openAtMs
  let dropped : GuardedRpcs P :=
    ⟨s'.guard.drop permit, t, s'.permits.erase permit⟩
  have hdropped (target : RpcKind × P) : (dropped.guard.peers target).openUntilMs =
      (s'.guard.peers target).openUntilMs := by
    refine s'.guard.setState_frame PeerGuardState.openUntilMs ?_ target
    rfl
  obtain ⟨next, guard, hadmitted⟩ := exists_admitted dropped.guard permit.target t t
    (by rw [hdropped, hopen]; exact Nat.le_max_right _ _)
    (by
      show 0 < ((s'.guard.setState permit.target _).peers permit.target).bulkhead
      rw [PeerRpcGuard.setState_peers_self]
      exact Nat.succ_pos _)
    (Nat.succ_pos _)
  have hpos : 0 < circuitBreakerOpenDurationMs := by decide
  refine ⟨t, ⟨guard, t, next :: dropped.permits⟩, ?_, ?_, ?_⟩
  · omega
  · omega
  · exact ((Run.nil.snoc (.drop permit hmem)).snoc
      (.tick t (Nat.le_max_left _ _))).snoc
      (Step.acquire (s := dropped) permit.target t next guard (Nat.le_refl _) hadmitted)

/-- A run that opened a circuit late goes on to break the law without another failure. -/
theorem exists_not_circuitLaw {s₁ : GuardedRpcs P} (run : Run Step (initial globalLimit) es s)
    (h : Step s (.recordFailure permit now true) s₁)
    (hlate : permit.openAtMs ≠ now + circuitBreakerOpenDurationMs) :
    ∃ es' s', (∀ e ∈ es', ¬e.IsFailure) ∧
      Run Step (initial globalLimit) (es ++ [.recordFailure permit now true] ++ es') s' ∧
      ¬CircuitLaw (initial globalLimit) (es ++ [.recordFailure permit now true] ++ es') := by
  obtain ⟨hnow, hmem, hclock⟩ := h.of_recordFailure
  have hle := (timely_of_run (run.snoc h)).permit permit hmem
  obtain ⟨t, s', -, hover, run'⟩ := exists_admitted_of_late h (by omega)
  refine ⟨_, s', by simp [GuardEvent.IsFailure], (run.snoc h).append run', fun hlaw => ?_⟩
  let opened := es ++ [.recordFailure permit now true]
  have hsince : OpenSince (opened ++ [.drop permit] ++ [.tick t]) permit.target now es.length :=
    (HeldSince.snoc (HeldSince.last ⟨rfl, rfl, rfl⟩) id).snoc id
  obtain ⟨rejection, hrejection⟩ := hlaw.rejects es.length (opened.length + 2) permit.target now
    t (.ok ()) (by rw [take_length_add_append]; simpa using hsince)
    (by rw [getElem?_append_right (Nat.le_add_right _ _)]; simp) hover
  exact absurd hrejection (by simp)

/-- **Open circuits stay open.** The law of open circuits holds, whatever happens next without a
failure, exactly if circuits are opened in time. The caps are kept in any case. -/
theorem circuitLaw_iff_tripsInTime (run : Run Step (initial globalLimit) es s) :
    (KeepsCircuitLaw (initial globalLimit) es ↔
      Run.AtEvents Step (initial globalLimit) TripInTime es) ∧ s.WithinCaps globalLimit := by
  refine ⟨⟨fun hlaw n s₀ e _ he => ?_, fun hin n es' s' hquiet run' => ?_⟩,
    (balanced_of_run run).withinCaps⟩
  · obtain ⟨s₁, s₂, hs₁, h, -⟩ := run.at_event he
    cases e with
    | recordFailure permit now trips =>
      rintro rfl
      by_contra hlate
      obtain ⟨es', s', hquiet, run', hnot⟩ := exists_not_circuitLaw hs₁ h hlate
      have htake : es.take (n + 1) = es.take n ++ [GuardEvent.recordFailure permit now true] := by
        rw [take_add_one, he, Option.toList_some]
      rw [← htake] at run' hnot
      exact hnot (hlaw (n + 1) es' s' hquiet run')
    | _ => exact trivial
  · exact circuitLaw_of_tripsInTime run' (tripsInTime_append (hin.take n) hquiet)

end

/-- Five requests of time 0 fail at time `t`, and the next request comes at time `t'`. -/
def fiveFailures (t t' : ℕ) (answer : Except PeerRpcRejection Unit) : List (GuardEvent ℕ) :=
  List.replicate 5 (.tryAcquire (.raft, 1) 0 (.ok ())) ++ [.tick t] ++
    List.replicate 4 (.recordFailure ⟨(.raft, 1), 10000⟩ t false) ++
    [.recordFailure ⟨(.raft, 1), 10000⟩ t true, .tick t', .tryAcquire (.raft, 1) t' answer]

/-- Requests that fail at once open the circuit in time. -/
theorem circuitLaw_iff_tripsInTime_atOnce :
    KeepsCircuitLaw (initial 256) (fiveFailures 0 0 (.error (.circuitOpen 10000))) ∧
    ∃ s : GuardedRpcs ℕ, s.WithinCaps 256 := by
  have run : Run Step (initial 256) (fiveFailures 0 0 (.error (.circuitOpen 10000))) _ :=
    .cons (.acquire (.raft, 1) 0 _ _ (Nat.le_refl 0) rfl) <|
    .cons (.acquire (.raft, 1) 0 _ _ (Nat.le_refl 0) rfl) <|
    .cons (.acquire (.raft, 1) 0 _ _ (Nat.le_refl 0) rfl) <|
    .cons (.acquire (.raft, 1) 0 _ _ (Nat.le_refl 0) rfl) <|
    .cons (.acquire (.raft, 1) 0 _ _ (Nat.le_refl 0) rfl) <|
    .cons (.tick 0 (Nat.le_refl 0)) <|
    .cons (.recordFailure _ (mem_cons_self ..)) <|
    .cons (.recordFailure _ (mem_cons_self ..)) <|
    .cons (.recordFailure _ (mem_cons_self ..)) <|
    .cons (.recordFailure _ (mem_cons_self ..)) <|
    .cons (.recordFailure _ (mem_cons_self ..)) <|
    .cons (.tick 0 (Nat.le_refl 0)) <| .cons (.reject (.raft, 1) 0 _ _ rfl) .nil
  obtain ⟨hiff, hcaps⟩ := circuitLaw_iff_tripsInTime run
  refine ⟨hiff.mpr fun n s e _ he => ?_, _, hcaps⟩
  have hmem := mem_of_getElem? he
  simp only [fiveFailures, List.replicate, mem_append, mem_cons, not_mem_nil,
    or_false, or_self] at hmem
  rcases hmem with ((rfl | rfl) | rfl) | rfl | rfl | rfl <;> simp [TripInTime]
  decide

/-- Requests that fail after five seconds open the circuit for five more, not for ten. -/
theorem slow_failures_shorten_window :
    (∃ s, Run Step (initial 256) (fiveFailures 5000 10000 (.ok ())) s) ∧
      ¬CircuitLaw (initial 256) (fiveFailures 5000 10000 (.ok ())) := by
  refine ⟨⟨_, .cons (.acquire (.raft, 1) 0 _ _ (Nat.le_refl 0) rfl) <|
    .cons (.acquire (.raft, 1) 0 _ _ (Nat.le_refl 0) rfl) <|
    .cons (.acquire (.raft, 1) 0 _ _ (Nat.le_refl 0) rfl) <|
    .cons (.acquire (.raft, 1) 0 _ _ (Nat.le_refl 0) rfl) <|
    .cons (.acquire (.raft, 1) 0 _ _ (Nat.le_refl 0) rfl) <|
    .cons (.tick 5000 (Nat.zero_le _)) <|
    .cons (.recordFailure _ (mem_cons_self ..)) <|
    .cons (.recordFailure _ (mem_cons_self ..)) <|
    .cons (.recordFailure _ (mem_cons_self ..)) <|
    .cons (.recordFailure _ (mem_cons_self ..)) <|
    .cons (.recordFailure _ (mem_cons_self ..)) <|
    .cons (.tick 10000 (show 5000 ≤ 10000 by omega)) <|
    .cons (.acquire (.raft, 1) 10000 _ _ (Nat.le_refl _) rfl) .nil⟩, fun hlaw => ?_⟩
  let failures := (fiveFailures 5000 10000 (.ok ())).take 10
  have hsince : OpenSince
      (failures ++ [.recordFailure ⟨(.raft, 1), 10000⟩ 5000 true] ++ [.tick 10000])
      (.raft, 1) 5000 failures.length := (HeldSince.last ⟨rfl, rfl, rfl⟩).snoc id
  obtain ⟨rejection, h⟩ := hlaw.rejects 10 12 (.raft, 1) 5000 10000 (.ok ()) hsince rfl (by decide)
  exact absurd h (by simp)

end GuardedRpcs

end RustExample.OpenraftCluster
