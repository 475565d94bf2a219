import Mathlib.Data.List.Basic
import RustExample.Foundation.ExpiringKey
import RustExample.Foundation.Run

/-!
# A lock in a redis key

A client of the lock writes the value of its lock instance into a free key, with a lifetime. The
release and the extension compare the value first, so that they do nothing to another client. The
value is that of the instance, not of one acquisition.

Source: `cluster_distributed_lock_example/src/distributed_lock.rs`.

* There is one logical redis, with one key for the lock. A call, or the drop of a guard, issues a
  request, which is served at any later time or never; the call returns what its request was
  answered.
* The clones of a lock instance belong to its client. Durations are in the milliseconds that are
  sent. The ping and the reconnection of a connection are left out.
-/

namespace RustExample.RedisLock

open List

/-! ### The lock -/

/-- A lock instance: its value, and the lifetime of an acquisition. -/
structure RedisDistributedLock where
  lockValue : String
  ttl : ℕ
  deriving DecidableEq

/-- What a lock sends to redis. -/
inductive Request where
  | acquire
  | release
  | extend (additionalTtl : ℕ)
  deriving DecidableEq

/-- Redis serves a request. A lifetime of zero is refused when a value is set. -/
def RedisDistributedLock.serve (lock : RedisDistributedLock) (now : ℕ)
    (key : ExpiringKey String) : Request → Except String Bool × ExpiringKey String
  | .acquire =>
    if lock.ttl = 0 then (.error "Failed to acquire lock: invalid expire time", key)
    else
      let (ok, key) := key.setNx now lock.lockValue lock.ttl
      (.ok ok, key)
  | .release =>
    let (ok, key) := key.compareDel now lock.lockValue
    (.ok ok, key)
  | .extend additionalTtl =>
    let (ok, key) := key.compareExpire now lock.lockValue additionalTtl
    (.ok ok, key)

/-- A guard of a client. -/
structure LockGuard (Client : Type) where
  client : Client
  autoRelease : Bool

/-- What the drop of a guard sends. -/
def LockGuard.dropped {Client : Type} (guard : LockGuard Client) : List (Client × Request) :=
  if guard.autoRelease then [(guard.client, .release)] else []

/-! ### Runs -/

variable {Client : Type} [DecidableEq Client]

/-- Redis at a moment, and the requests that are on their way. -/
structure System (Client : Type) where
  now : ℕ
  key : ExpiringKey String
  requests : List (Client × Request)

def System.initial : System Client := ⟨0, none, []⟩

/-- What may happen. -/
inductive Event (Client : Type) where
  | call (client : Client) (request : Request)
  | dropGuard (guard : LockGuard Client)
  | serve (time : ℕ) (client : Client) (request : Request) (answer : Except String Bool)
  | pass (ms : ℕ)

/-- One event. Any request that is on its way may be served next. -/
def Step (locks : Client → RedisDistributedLock) (s : System Client) :
    Event Client → System Client → Prop
  | .call client request, s' => s' = { s with requests := s.requests ++ [(client, request)] }
  | .dropGuard guard, s' => s' = { s with requests := s.requests ++ guard.dropped }
  | .serve time client request answer, s' =>
    time = s.now ∧ (client, request) ∈ s.requests ∧
      ∃ key, (locks client).serve s.now s.key request = (answer, key) ∧
        s' = { s with key := key, requests := s.requests.erase (client, request) }
  | .pass ms, s' => s' = { s with now := s.now + ms }

/-- The lock was granted to the client. -/
def Grants (client : Client) (e : Event Client) : Prop :=
  ∃ time, e = .serve time client .acquire (.ok true)

/-- A release was issued for the client. -/
def IssuesRelease (client : Client) : Event Client → Prop
  | .call client' request => client' = client ∧ request = .release
  | .dropGuard guard => guard.client = client ∧ guard.autoRelease = true
  | .serve .. | .pass _ => False

/-- The expiry of a client's lock: the end of its last acquisition, as last extended. -/
def expiryStep (locks : Client → RedisDistributedLock) (client : Client) (expiry : Option ℕ) :
    Event Client → Option ℕ
  | .serve time client' .acquire (.ok true) =>
    if client' = client then some (time + (locks client).ttl) else expiry
  | .serve time client' (.extend additionalTtl) (.ok true) =>
    if client' = client then some (time + additionalTtl) else expiry
  | _ => expiry

/-- When the lock of a client expires. -/
def expiry (locks : Client → RedisDistributedLock) (client : Client) (es : List (Event Client)) :
    Option ℕ := es.foldl (expiryStep locks client) none

/-! ### A lock that is held -/

section Held

variable {locks : Client → RedisDistributedLock} {client : Client} {s s' : System Client}
  {e : Event Client} {es : List (Event Client)}

/-- The client has the key up to its expiry, and no release on its way could remove it. -/
structure Held (locks : Client → RedisDistributedLock) (client : Client)
    (es : List (Event Client)) (s : System Client) : Prop where
  noRelease : (client, .release) ∉ s.requests
  leased : ∃ limit, expiry locks client es = some limit ∧
    ExpiringKey.Leased s.key s.now (locks client).lockValue limit

theorem expiry_snoc : expiry locks client (es ++ [e]) =
    expiryStep locks client (expiry locks client es) e := by
  rw [expiry, expiry, foldl_append, foldl_cons, foldl_nil]

omit [DecidableEq Client] in
theorem serve_acquire {lock : RedisDistributedLock} {now : ℕ} {key key' : ExpiringKey String}
    (h : lock.serve now key .acquire = (.ok true, key')) :
    (key.setNx now lock.lockValue lock.ttl).1 = true ∧
      key' = (key.setNx now lock.lockValue lock.ttl).2 := by
  rw [RedisDistributedLock.serve] at h
  split_ifs at h
  · exact absurd (Prod.mk.inj h).1 nofun
  · obtain ⟨hok, rfl⟩ := Prod.mk.inj h
    exact ⟨Except.ok.inj hok, rfl⟩

theorem Held.of_grant (hclean : (client, .release) ∉ s.requests) (hgrant : Grants client e)
    (hstep : Step locks s e s') : Held locks client (es ++ [e]) s' := by
  obtain ⟨time, rfl⟩ := hgrant
  obtain ⟨rfl, -, key, hserve, rfl⟩ := hstep
  obtain ⟨hok, rfl⟩ := serve_acquire hserve
  refine ⟨fun hmem => hclean (mem_of_mem_erase hmem), s.now + (locks client).ttl, ?_,
    ExpiringKey.Leased.of_setNx hok⟩
  rw [expiry_snoc, expiryStep, if_pos rfl]

omit [DecidableEq Client] in
theorem Held.serve_other (hvalue : ∀ c, c ≠ client → (locks c).lockValue ≠ (locks client).lockValue)
    {c : Client} (hne : c ≠ client) {request : Request} {answer : Except String Bool}
    {key : ExpiringKey String} {limit : ℕ}
    (h : ExpiringKey.Leased s.key s.now (locks client).lockValue limit)
    (hserve : (locks c).serve s.now s.key request = (answer, key)) :
    ExpiringKey.Leased key s.now (locks client).lockValue limit := by
  cases request with
  | acquire =>
    rw [RedisDistributedLock.serve] at hserve
    split_ifs at hserve with hzero
    · obtain ⟨-, rfl⟩ := Prod.mk.inj hserve
      exact h
    · obtain ⟨-, rfl⟩ := Prod.mk.inj hserve
      exact h.setNx _ _
  | release =>
    obtain ⟨-, rfl⟩ := Prod.mk.inj hserve
    exact h.compareDel (hvalue c hne)
  | extend additionalTtl =>
    obtain ⟨-, rfl⟩ := Prod.mk.inj hserve
    exact h.compareExpire (hvalue c hne) _

theorem expiryStep_other {c : Client} (hne : c ≠ client) {expiry : Option ℕ} {time : ℕ}
    {request : Request} {answer : Except String Bool} :
    expiryStep locks client expiry (.serve time c request answer) = expiry := by
  rw [expiryStep.eq_def]
  split
  all_goals first | rfl | skip
  all_goals
    rename_i heq
    cases heq
    rw [if_neg hne]

/-- What redis serves to the client, apart from releases. -/
theorem Held.serve_self {request : Request} {answer : Except String Bool}
    {key : ExpiringKey String} {limit : ℕ} (hrequest : request ≠ .release)
    (h : ExpiringKey.Leased s.key s.now (locks client).lockValue limit)
    (hserve : (locks client).serve s.now s.key request = (answer, key)) :
    ∃ limit', expiryStep locks client (some limit) (.serve s.now client request answer) =
      some limit' ∧ ExpiringKey.Leased key s.now (locks client).lockValue limit' := by
  cases request with
  | release => exact absurd rfl hrequest
  | acquire =>
    rw [RedisDistributedLock.serve] at hserve
    split_ifs at hserve with hzero
    · obtain ⟨rfl, rfl⟩ := Prod.mk.inj hserve
      exact ⟨limit, rfl, h⟩
    · have hkept := h.setNx (locks client).lockValue (locks client).ttl
      cases hset : s.key.setNx s.now (locks client).lockValue (locks client).ttl with
      | mk ok key' =>
        rw [hset] at hserve hkept
        obtain ⟨rfl, rfl⟩ := Prod.mk.inj hserve
        cases ok with
        | false => exact ⟨limit, rfl, hkept⟩
        | true =>
          have hnew := ExpiringKey.Leased.of_setNx (congrArg Prod.fst hset)
          rw [hset] at hnew
          exact ⟨_, if_pos rfl, hnew⟩
  | extend additionalTtl =>
    rw [RedisDistributedLock.serve] at hserve
    cases hextend : s.key.compareExpire s.now (locks client).lockValue additionalTtl with
    | mk ok key' =>
      rw [hextend] at hserve
      obtain ⟨rfl, rfl⟩ := Prod.mk.inj hserve
      cases ok with
      | false =>
        have hsame := ExpiringKey.Leased.compareExpire_of_false (congrArg Prod.fst hextend)
        rw [hextend] at hsame
        obtain rfl : key' = s.key := hsame
        exact ⟨limit, rfl, h⟩
      | true =>
        have hnew := ExpiringKey.Leased.of_compareExpire (congrArg Prod.fst hextend)
        rw [hextend] at hnew
        exact ⟨_, if_pos rfl, hnew⟩

/-- **One event.** The client keeps the key, unless a release of it is issued. -/
theorem Held.step (hvalue : ∀ c, c ≠ client → (locks c).lockValue ≠ (locks client).lockValue)
    (h : Held locks client es s) (hstep : Step locks s e s') (hrelease : ¬IssuesRelease client e) :
    Held locks client (es ++ [e]) s' := by
  obtain ⟨hclean, limit, hlimit, hleased⟩ := h
  cases e with
  | call c request =>
    obtain rfl := hstep
    refine ⟨fun hmem => ?_, limit, expiry_snoc.trans hlimit, hleased⟩
    rcases List.mem_append.mp hmem with hold | hnew
    · exact hclean hold
    · obtain ⟨rfl, rfl⟩ := Prod.mk.inj (List.mem_singleton.mp hnew)
      exact hrelease ⟨rfl, rfl⟩
  | dropGuard guard =>
    obtain rfl := hstep
    refine ⟨fun hmem => ?_, limit, expiry_snoc.trans hlimit, hleased⟩
    rcases List.mem_append.mp hmem with hold | hnew
    · exact hclean hold
    · rw [LockGuard.dropped] at hnew
      split_ifs at hnew with hauto
      · exact hrelease ⟨(Prod.mk.inj (List.mem_singleton.mp hnew)).1.symm, hauto⟩
      · exact absurd hnew not_mem_nil
  | serve time c request answer =>
    obtain ⟨rfl, hmem, key, hserve, rfl⟩ := hstep
    refine ⟨fun hleft => hclean (mem_of_mem_erase hleft), ?_⟩
    rw [expiry_snoc, hlimit]
    by_cases hc : c = client
    · subst hc
      exact Held.serve_self (fun heq => hclean (heq ▸ hmem)) hleased hserve
    · rw [expiryStep_other hc]
      exact ⟨limit, rfl, Held.serve_other (s := s) hvalue hc hleased hserve⟩
  | pass ms =>
    obtain rfl := hstep
    exact ⟨hclean, limit, expiry_snoc.trans hlimit, hleased.pass ms⟩

theorem Held.run (hvalue : ∀ c, c ≠ client → (locks c).lockValue ≠ (locks client).lockValue)
    (run : Run (Step locks) System.initial es s) {i : ℕ}
    (hgrant : HeldSince (Grants client) (IssuesRelease client) es i)
    (hclean : ∀ s₁, Run (Step locks) System.initial (es.take i) s₁ →
      (client, .release) ∉ s₁.requests) : Held locks client es s := by
  refine run.history (P := fun es s =>
    HeldSince (Grants client) (IssuesRelease client) es i →
      (∀ s₁, Run (Step locks) System.initial (es.take i) s₁ →
        (client, .release) ∉ s₁.requests) → Held locks client es s)
    (fun h => absurd h.lt_length (Nat.not_lt_zero i)) ?_ hgrant hclean
  intro es s e s' hrun ih hstep hgrant hclean
  rcases hgrant.of_snoc with ⟨hbefore, hrelease⟩ | ⟨rfl, hnow⟩
  · refine (ih hbefore fun s₁ hs₁ => hclean s₁ ?_).step hvalue hstep hrelease
    rwa [take_append_of_le_length (Nat.le_of_lt hbefore.lt_length)]
  · refine .of_grant (hclean s ?_) hnow hstep
    rwa [take_left]

/-- **Mutual exclusion.** A client was granted the lock while no release of it was on its way, its
lifetime is not over and no release was issued since: no other client is granted the lock. -/
theorem lock_excludes_others (hvalue : Function.Injective fun c => (locks c).lockValue)
    (run : Run (Step locks) System.initial es s) {i : ℕ}
    (hgrant : HeldSince (Grants client) (IssuesRelease client) es i)
    (hclean : ∀ s₁, Run (Step locks) System.initial (es.take i) s₁ →
      (client, .release) ∉ s₁.requests)
    {limit : ℕ} (hlimit : expiry locks client es = some limit) (hlive : s.now < limit)
    {other : Client} (hgranted : Grants other e) : ¬Step locks s e s' := by
  intro hstep
  have hheld : Held locks client es s :=
    Held.run (fun c hne heq => hne (hvalue heq)) run hgrant hclean
  obtain ⟨limit', hlimit', hleased⟩ := hheld.leased
  obtain rfl := Option.some.inj (hlimit'.symm.trans hlimit)
  obtain ⟨time, rfl⟩ := hgranted
  obtain ⟨rfl, -, key, hserve, rfl⟩ := hstep
  exact absurd (hleased.le_of_setNx (serve_acquire hserve).1) (Nat.not_le.mpr hlive)

end Held

/-! ### Two clients -/

/-- The locks of two clients, which live for ten milliseconds. -/
def twoLocks (client : Bool) : RedisDistributedLock :=
  ⟨if client then "a" else "b", 10⟩

/-- The lock is granted to one client, and the other asks for it. -/
theorem lock_excludes_others_asked : ∃ s, Run (Step twoLocks) System.initial
    [.call true .acquire, .serve 0 true .acquire (.ok true), .call false .acquire] s ∧
      ∀ s', ¬Step twoLocks s (.serve 0 false .acquire (.ok true)) s' := by
  obtain ⟨s, hnow, run⟩ : ∃ s, s.now = 0 ∧ Run (Step twoLocks) System.initial
      [.call true .acquire, .serve 0 true .acquire (.ok true), .call false .acquire] s :=
    ⟨_, rfl, .cons rfl <| .cons ⟨rfl, by decide, _, rfl, rfl⟩ <| .cons rfl .nil⟩
  have hvalue : ∀ c c', (twoLocks c).lockValue = (twoLocks c').lockValue → c = c' := by decide
  have hgrant : HeldSince (Grants true) (IssuesRelease true)
      [.call true .acquire, .serve 0 true .acquire (.ok true), .call false .acquire] 1 := by
    refine ⟨⟨_, rfl, 0, rfl⟩, fun k e hk he => ?_⟩
    match k, hk with
    | 2, _ => exact (Option.some.inj he) ▸ fun hcall => absurd hcall.1 (by decide)
    | k + 3, _ => exact absurd he nofun
  have hlimit : expiry twoLocks true [.call true .acquire, .serve 0 true .acquire (.ok true),
      .call false .acquire] = some 10 := rfl
  refine ⟨s, run, fun s' => lock_excludes_others hvalue run hgrant (fun s₁ run₁ => ?_) hlimit
    (by omega) ⟨0, rfl⟩⟩
  obtain ⟨s₀, run₀, hstep⟩ := Run.of_snoc (show Run _ _ ([] ++ [_]) s₁ from run₁)
  obtain rfl := run₀.eq_of_nil
  obtain rfl := hstep
  decide

/-- An acquisition expires while its release is on its way, and the client acquires the lock anew
before that is served. -/
def lateRelease : List (Event Bool) :=
  [.call true .acquire, .serve 0 true .acquire (.ok true), .dropGuard ⟨true, true⟩, .pass 10,
    .call true .acquire, .serve 10 true .acquire (.ok true),
    .serve 10 true .release (.ok true), .call false .acquire]

/-- **A late release** removes the next acquisition of the same client: another client is granted
the lock meanwhile. -/
theorem late_release_admits_other : ¬∀ (es : List (Event Bool)) (s : System Bool),
    Run (Step twoLocks) System.initial es s → ∀ (client : Bool) (i : ℕ),
      HeldSince (Grants client) (IssuesRelease client) es i →
      ∀ limit, expiry twoLocks client es = some limit → s.now < limit →
        ∀ other e s', other ≠ client → Grants other e → ¬Step twoLocks s e s' := by
  intro h
  have hheld : HeldSince (Grants true) (IssuesRelease true) lateRelease 5 := by
    refine ⟨⟨_, rfl, 10, rfl⟩, fun k e hk he => ?_⟩
    match k, hk with
    | 6, _ => exact (Option.some.inj he) ▸ not_false
    | 7, _ => exact (Option.some.inj he) ▸ fun hcall => absurd hcall.1 (by decide)
    | k + 8, _ => exact absurd he nofun
  refine h lateRelease _ (.cons rfl <| .cons ⟨rfl, by decide, _, rfl, rfl⟩ <| .cons rfl <|
      .cons rfl <| .cons rfl <| .cons ⟨rfl, by decide, _, rfl, rfl⟩ <|
      .cons ⟨rfl, by decide, _, rfl, rfl⟩ <| .cons rfl .nil)
    true 5 hheld 20 rfl ?_ false (.serve 10 false .acquire (.ok true)) _ (by decide)
    ⟨10, rfl⟩ ⟨rfl, ?_, _, rfl, rfl⟩
  · decide
  · decide

end RustExample.RedisLock
