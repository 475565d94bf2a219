import RustExample.MainlineRecord.Publish

/-!
# The pace of the discovery

Two loops look for the members of a cluster. `discover_members` polls the DHT until it finds a
record with members or its deadline is over, and `spawn_gossip_discovery` calls it over and over,
for as long as the program runs. Both wait between their attempts, twice as long each time up to a
cap. The wait is computed before it is capped, in numbers of 64 bits.

Source: `iroh_mainline_kad/src/util.rs`, `iroh_mainline_kad/src/gossip.rs` and
`iroh_mainline_kad/src/dht.rs`, `discover_members`.

* `none` is a panic: arithmetic is checked as in a debug build. In other builds it wraps, and the
  loops do not wait any more (`wrappingDelay_eq_zero`).
* What a poll reads from the DHT and from the clocks is an argument, and so is what a round of the
  gossip loop gets from `discover_members`. Which peers the members are is a parameter.
* A `Duration` is a number of nanoseconds.
-/

namespace RustExample.MainlineRecord

open List

/-! ### The delay -/

/-- A duration in nanoseconds. -/
abbrev Duration := ℕ

/-- `Duration::from_millis` -/
def fromMillis (ms : ℕ) : Duration := ms * 10 ^ 6

/-- `Duration::from_secs` -/
def fromSecs (secs : ℕ) : Duration := secs * 10 ^ 9

/-- The delay of an attempt. -/
def backoffDuration (baseMs attempt : ℕ) : Option Duration := do
  let power ← checkedNat 64 (2 ^ attempt)
  let product ← checkedNat 64 (baseMs * power)
  return fromMillis product

/-- The longest delay of a poll. -/
def MAX_DISCOVER_POLL_MS : ℕ := 4000

/-! ### The gossip loop -/

section Gossip

variable (bootstrapPeers : List MemberRecord → List String)

/-- The next value of `attempt`, from what `discover_members` returns. -/
def nextAttempt (attempt : ℕ) (discovered : Except String (List MemberRecord)) : Option ℕ :=
  match discovered with
  | .ok members =>
    if (bootstrapPeers members).isEmpty then checkedNat 32 (attempt + 1) else some 0
  | .error _ => checkedNat 32 (attempt + 1)

/-- The delays of the rounds, from the value of `attempt` on. -/
def spawnGossipDiscovery (discoverTimeout : Duration) :
    ℕ → List (Except String (List MemberRecord)) → Option (List Duration)
  | _, [] => some []
  | attempt, discovered :: rounds => do
    let attempt ← nextAttempt bootstrapPeers attempt discovered
    let delay := min (← backoffDuration 500 attempt) (max discoverTimeout (fromSecs 5))
    let delays ← spawnGossipDiscovery discoverTimeout attempt rounds
    return delay :: delays

end Gossip

/-! ### The polls -/

/-- The greatest age of a record. -/
def CLUSTER_RECORD_MAX_AGE_SECS : ℕ := 24 * 60 * 60

/-- Refuses too old and future records. -/
def validateClusterRecordFreshness (now : UInt64) (record : ClusterRecord) : Except String Unit :=
  if min (now.toNat + 300) (2 ^ 64 - 1) < record.updatedAt.toNat then
    .error (s!"discovered cluster record timestamp {record.updatedAt} is too far in the " ++
      "future")
  else if CLUSTER_RECORD_MAX_AGE_SECS < now.toNat - record.updatedAt.toNat then
    .error (s!"discovered cluster record timestamp {record.updatedAt} is older than " ++
      s!"{CLUSTER_RECORD_MAX_AGE_SECS} seconds")
  else .ok ()

/-- `(self.updated_at, self.nonce) > (other.updated_at, other.nonce)` -/
def ClusterRecord.isNewerThan (record other : ClusterRecord) : Bool :=
  other.updatedAt < record.updatedAt ||
    other.updatedAt == record.updatedAt && other.nonce < record.nonce

/-- What a poll reads: the item in the DHT, `now_unix_secs`, and if the deadline is over. -/
structure Poll where
  item : Option MutableItem
  now : UInt64
  expired : Bool

/-- The variables of `discover_members`. -/
structure Discovery where
  pollAttempt : ℕ
  newestRecord : Option ClusterRecord

/-- How a poll ends. -/
inductive Polled
  | returned (result : Except String (List MemberRecord))
  | slept (delay : Duration) (next : Discovery)

namespace Crates

variable (crates : Crates)

/-- The newest record after a poll, and the members that are returned. -/
def readItem (newestRecord : Option ClusterRecord) (poll : Poll) :
    Except String (Option ClusterRecord × Option (List MemberRecord)) :=
  match poll.item with
  | none => .ok (newestRecord, none)
  | some item => do
    let record ← crates.decodeClusterRecord item.value
    if (validateClusterRecordFreshness poll.now record).isOk then
      if newestRecord.all fun previous => record.isNewerThan previous then
        let members := newestFirst record.members
        return (some record, if members.isEmpty then none else some members)
      else return (newestRecord, none)
    else return (newestRecord, none)

/-- Reads what a poll found. -/
def discoverPoll (target : String) (s : Discovery) (poll : Poll) : Option Polled :=
  match crates.readItem s.newestRecord poll with
  | .error e => some (.returned (.error e))
  | .ok (_, some members) => some (.returned (.ok members))
  | .ok (newestRecord, none) =>
    if poll.expired then
      some (.returned (.error s!"no cluster members found at target {target}"))
    else do
      let delay := min (← backoffDuration 100 s.pollAttempt) (fromMillis MAX_DISCOVER_POLL_MS)
      let pollAttempt ← checkedNat 32 (s.pollAttempt + 1)
      return .slept delay ⟨pollAttempt, newestRecord⟩

/-- The delays between the polls, and what is returned, if the polls come to an end. -/
def discoverMembers (target : String) :
    Discovery → List Poll → Option (List Duration × Option (Except String (List MemberRecord)))
  | _, [] => some ([], none)
  | s, poll :: polls =>
    match crates.discoverPoll target s poll with
    | none => none
    | some (.returned result) => some ([], some result)
    | some (.slept delay next) =>
      (discoverMembers target next polls).map fun r => (delay :: r.1, r.2)

end Crates

/-! ### What the loops are to do -/

/-- Of two delays in a row the second is not shorter, and at the cap if the first is. -/
def KeepsPace (cap d d' : Duration) : Prop := d ≤ d' ∧ (d = cap → d' = cap)

section Gossip

variable (bootstrapPeers : List MemberRecord → List String)

/-- A round of the gossip loop without a peer. -/
def FindsNoPeer (discovered : Except String (List MemberRecord)) : Prop :=
  ∀ members, discovered = .ok members → bootstrapPeers members = []

/-- The loop waits after every round, and keeps the pace in the rounds without a peer. -/
def GossipRetries (discoverTimeout : Duration)
    (rounds : List (Except String (List MemberRecord))) : Prop :=
  ∃ delays, spawnGossipDiscovery bootstrapPeers discoverTimeout 0 rounds = some delays ∧
    delays.length = rounds.length ∧
    (rounds.zip delays).IsChain fun a b => FindsNoPeer bootstrapPeers b.1 →
      KeepsPace (max discoverTimeout (fromSecs 5)) a.2 b.2

end Gossip

namespace Crates

variable (crates : Crates)

/-- The polls go on without a panic, and keep the pace. -/
def PollsRetry (target : String) (polls : List Poll) : Prop :=
  ∃ delays result, crates.discoverMembers target ⟨0, none⟩ polls = some (delays, result) ∧
    delays.IsChain (KeepsPace (fromMillis MAX_DISCOVER_POLL_MS))

/-- The record of a poll, if it is neither too old nor too new. -/
def freshRecord (poll : Poll) : Option ClusterRecord :=
  poll.item.bind fun item => (crates.decodeClusterRecord item.value).toOption.filter fun record =>
    (validateClusterRecordFreshness poll.now record).isOk

/-- A poll finds no members: its item can be read, and a fresh record has none or is not newer. -/
structure ReadsNothing (before : List Poll) (poll : Poll) : Prop where
  decodes : ∀ item ∈ poll.item, ∃ record, crates.decodeClusterRecord item.value = .ok record
  stale : ∀ record ∈ crates.freshRecord poll, record.members ≠ [] →
    ∃ earlier ∈ before, ∃ previous ∈ crates.freshRecord earlier, record.isNewerThan previous = false

/-- A poll finds no members, before the deadline. -/
structure IsQuiet (before : List Poll) (poll : Poll) : Prop
    extends crates.ReadsNothing before poll where
  not_expired : poll.expired = false

/-- Every poll is quiet, after those `before`. -/
def AllQuiet : List Poll → List Poll → Prop
  | _, [] => True
  | before, poll :: polls => crates.IsQuiet before poll ∧ AllQuiet (before ++ [poll]) polls

end Crates

/-! ### The delays of a loop -/

theorem backoffDuration_of_lt {baseMs attempt : ℕ} (last : ℕ) (hpos : 0 < baseMs)
    (hlast : baseMs * 2 ^ last < 2 ^ 64) (h : attempt ≤ last) :
    backoffDuration baseMs attempt = some (fromMillis (baseMs * 2 ^ attempt)) := by
  have hpow : 2 ^ attempt ≤ 2 ^ last := Nat.pow_le_pow_right two_pos h
  have hproduct : baseMs * 2 ^ attempt < 2 ^ 64 := (Nat.mul_le_mul_left baseMs hpow).trans_lt hlast
  have hpower : 2 ^ attempt < 2 ^ 64 := (Nat.le_mul_of_pos_left _ hpos).trans_lt hproduct
  simp only [backoffDuration, checkedNat_of_lt hpower, checkedNat_of_lt hproduct,
    Option.bind_eq_bind, Option.bind_some]
  rfl

theorem backoffDuration_eq_none {baseMs attempt : ℕ} (last : ℕ)
    (hlast : 2 ^ 64 ≤ baseMs * 2 ^ (last + 1)) (h : last < attempt) :
    backoffDuration baseMs attempt = none := by
  have hpow : 2 ^ (last + 1) ≤ 2 ^ attempt := Nat.pow_le_pow_right two_pos h
  have hproduct : 2 ^ 64 ≤ baseMs * 2 ^ attempt := hlast.trans (Nat.mul_le_mul_left baseMs hpow)
  by_cases hpower : 2 ^ attempt < 2 ^ 64
  · simp only [backoffDuration, checkedNat_of_lt hpower, checkedNat_of_le hproduct,
      Option.bind_eq_bind, Option.bind_some, Option.bind_none]
  · simp only [backoffDuration, checkedNat_of_le (Nat.not_lt.mp hpower), Option.bind_eq_bind,
      Option.bind_none]

/-- The delay of an attempt, where nothing overflows. -/
def pacedDelay (baseMs : ℕ) (cap : Duration) (attempt : ℕ) : Duration :=
  min (fromMillis (baseMs * 2 ^ attempt)) cap

theorem keepsPace_succ (baseMs : ℕ) (cap : Duration) (attempt : ℕ) :
    KeepsPace cap (pacedDelay baseMs cap attempt) (pacedDelay baseMs cap (attempt + 1)) := by
  have hpow : 2 ^ attempt ≤ 2 ^ (attempt + 1) := Nat.pow_le_pow_right two_pos attempt.le_succ
  have hle : fromMillis (baseMs * 2 ^ attempt) ≤ fromMillis (baseMs * 2 ^ (attempt + 1)) :=
    Nat.mul_le_mul_right _ (Nat.mul_le_mul_left baseMs hpow)
  refine ⟨min_le_min_right cap hle, fun hcap => min_eq_right ?_⟩
  exact (min_eq_right_iff.mp hcap).trans hle

/-! ### The gossip loop -/

section Gossip

variable {bootstrapPeers : List MemberRecord → List String}
  {discovered : Except String (List MemberRecord)}
  {rounds : List (Except String (List MemberRecord))} {discoverTimeout : Duration} {attempt : ℕ}

/-- No more than 55 rounds in a row are without a peer, those of the `attempt` before counted. -/
structure IsBounded (bootstrapPeers : List MemberRecord → List String) (attempt : ℕ)
    (rounds : List (Except String (List MemberRecord))) : Prop where
  stretch : ∀ stretch, stretch <:+: rounds → (∀ d ∈ stretch, FindsNoPeer bootstrapPeers d) →
    stretch.length ≤ 55
  first : ∀ first, first <+: rounds → (∀ d ∈ first, FindsNoPeer bootstrapPeers d) →
    attempt + first.length ≤ 55

theorem nextAttempt_of_findsNoPeer (h : FindsNoPeer bootstrapPeers discovered)
    (hle : attempt ≤ 55) : nextAttempt bootstrapPeers attempt discovered = some (attempt + 1) := by
  have hfits : attempt + 1 < 2 ^ 32 := by omega
  rcases discovered with e | members
  · exact checkedNat_of_lt hfits
  · have hpeers : bootstrapPeers members = [] := h members rfl
    simp [nextAttempt, hpeers, checkedNat_of_lt hfits]

theorem nextAttempt_of_not_findsNoPeer (h : ¬ FindsNoPeer bootstrapPeers discovered) :
    nextAttempt bootstrapPeers attempt discovered = some 0 := by
  rcases discovered with e | members
  · exact absurd (fun _ hmembers => nomatch hmembers) h
  · have hpeers : bootstrapPeers members ≠ [] := by
      rintro hpeers
      exact h fun _ hmembers => Except.ok.inj hmembers ▸ hpeers
    simp [nextAttempt, hpeers]

theorem isBounded_nil (h : attempt ≤ 55) : IsBounded bootstrapPeers attempt [] := by
  refine ⟨fun stretch hstretch _ => ?_, fun first hfirst _ => ?_⟩
  · simp [List.infix_nil.mp hstretch]
  · simpa [List.prefix_nil.mp hfirst] using h

theorem isBounded_cons_of_findsNoPeer (h : FindsNoPeer bootstrapPeers discovered) :
    IsBounded bootstrapPeers attempt (discovered :: rounds) ↔
      IsBounded bootstrapPeers (attempt + 1) rounds := by
  refine ⟨fun hbound => ⟨fun stretch hstretch => ?_, ?_⟩, fun hbound => ?_⟩
  · exact hbound.stretch stretch (infix_cons hstretch)
  · intro first hfirst hfind
    have := hbound.first (discovered :: first) (by simpa using hfirst) (by simpa [h] using hfind)
    rw [length_cons] at this
    omega
  · have hfirst : ∀ first, first <+: discovered :: rounds →
        (∀ d ∈ first, FindsNoPeer bootstrapPeers d) → attempt + first.length ≤ 55 := by
      intro first hfirst hfind
      rcases List.prefix_cons_iff.mp hfirst with rfl | ⟨first, rfl, hfirst⟩
      · exact (Nat.le_succ _).trans (hbound.first [] List.nil_prefix (by simp))
      · have := hbound.first first ((prefix_cons_inj discovered).mp hfirst) fun d hd =>
          hfind d (mem_cons_of_mem discovered hd)
        rw [length_cons]
        omega
    refine ⟨fun stretch hstretch hfind => ?_, hfirst⟩
    rcases List.infix_cons_iff.mp hstretch with hprefix | hinfix
    · exact (Nat.le_add_left _ _).trans (hfirst stretch hprefix hfind)
    · exact hbound.stretch stretch hinfix hfind

theorem isBounded_cons_of_not_findsNoPeer (h : ¬ FindsNoPeer bootstrapPeers discovered)
    (hle : attempt ≤ 55) :
    IsBounded bootstrapPeers attempt (discovered :: rounds) ↔
      IsBounded bootstrapPeers 0 rounds := by
  -- only the empty list is a stretch of rounds without a peer at the front
  have hnil : ∀ first, first <+: discovered :: rounds →
      (∀ d ∈ first, FindsNoPeer bootstrapPeers d) → first = [] := by
    intro first hfirst hfind
    rcases List.prefix_cons_iff.mp hfirst with rfl | ⟨first, rfl, -⟩
    · rfl
    · exact absurd (hfind discovered mem_cons_self) h
  refine ⟨fun hbound => ⟨fun stretch hstretch => ?_, ?_⟩,
    fun hbound => ⟨fun stretch hstretch hfind => ?_, fun first hfirst hfind => ?_⟩⟩
  · exact hbound.stretch stretch (infix_cons hstretch)
  · intro first hfirst hfind
    simpa using hbound.stretch first (infix_cons hfirst.isInfix) hfind
  · rcases List.infix_cons_iff.mp hstretch with hprefix | hinfix
    · simp [hnil stretch hprefix hfind]
    · exact hbound.stretch stretch hinfix hfind
  · simpa [hnil first hfirst hfind] using hle

/-- The delay of a round of the gossip loop. -/
abbrev gossipDelay (discoverTimeout : Duration) (attempt : ℕ) : Duration :=
  pacedDelay 500 (max discoverTimeout (fromSecs 5)) attempt

theorem backoffDuration_gossip (h : attempt ≤ 55) :
    backoffDuration 500 attempt = some (fromMillis (500 * 2 ^ attempt)) :=
  backoffDuration_of_lt 55 (by norm_num) (by norm_num) h

theorem spawnGossipDiscovery_cons {next : ℕ}
    (h : nextAttempt bootstrapPeers attempt discovered = some next) (hle : next ≤ 55) :
    spawnGossipDiscovery bootstrapPeers discoverTimeout attempt (discovered :: rounds) =
      (spawnGossipDiscovery bootstrapPeers discoverTimeout next rounds).map
        (gossipDelay discoverTimeout next :: ·) := by
  simp only [spawnGossipDiscovery, h, backoffDuration_gossip hle, Option.bind_eq_bind,
    Option.bind_some, Option.map_eq_bind]
  rfl

/-- **The gossip loop goes on** while the rounds without a peer are bounded, at its pace. -/
theorem exists_delays (discoverTimeout : Duration) (hle : attempt ≤ 55)
    (h : IsBounded bootstrapPeers attempt rounds)
    (before : Except String (List MemberRecord)) :
    ∃ delays, spawnGossipDiscovery bootstrapPeers discoverTimeout attempt rounds = some delays ∧
      delays.length = rounds.length ∧
      ((before, gossipDelay discoverTimeout attempt) :: rounds.zip delays).IsChain fun a b =>
        FindsNoPeer bootstrapPeers b.1 →
          KeepsPace (max discoverTimeout (fromSecs 5)) a.2 b.2 := by
  induction rounds generalizing attempt before with
  | nil => exact ⟨[], rfl, rfl, .singleton _⟩
  | cons discovered rounds ih =>
    by_cases hfind : FindsNoPeer bootstrapPeers discovered
    · have hbound := (isBounded_cons_of_findsNoPeer hfind).mp h
      have hnext : attempt + 1 ≤ 55 := hbound.first [] List.nil_prefix (by simp)
      obtain ⟨delays, hrun, hlength, hchain⟩ := ih hnext hbound discovered
      refine ⟨gossipDelay discoverTimeout (attempt + 1) :: delays, ?_, by simp [hlength], ?_⟩
      · rw [spawnGossipDiscovery_cons (nextAttempt_of_findsNoPeer hfind hle) hnext, hrun]
        rfl
      · exact List.isChain_cons_cons.mpr ⟨fun _ => keepsPace_succ 500 _ attempt, hchain⟩
    · have hbound := (isBounded_cons_of_not_findsNoPeer hfind hle).mp h
      obtain ⟨delays, hrun, hlength, hchain⟩ := ih (Nat.zero_le 55) hbound discovered
      refine ⟨gossipDelay discoverTimeout 0 :: delays, ?_, by simp [hlength], ?_⟩
      · rw [spawnGossipDiscovery_cons (nextAttempt_of_not_findsNoPeer hfind) (Nat.zero_le 55), hrun]
        rfl
      · exact List.isChain_cons_cons.mpr ⟨fun hfind' => absurd hfind' hfind, hchain⟩

/-- A run without a panic has bounded rounds without a peer. -/
theorem isBounded_of_run {delays : List Duration} (hle : attempt ≤ 55)
    (h : spawnGossipDiscovery bootstrapPeers discoverTimeout attempt rounds = some delays) :
    IsBounded bootstrapPeers attempt rounds := by
  induction rounds generalizing attempt delays with
  | nil => exact isBounded_nil hle
  | cons discovered rounds ih =>
    by_cases hfind : FindsNoPeer bootstrapPeers discovered
    · refine (isBounded_cons_of_findsNoPeer hfind).mpr ?_
      by_cases hnext : attempt + 1 ≤ 55
      · rw [spawnGossipDiscovery_cons (nextAttempt_of_findsNoPeer hfind hle) hnext] at h
        obtain ⟨delays, hrun, -⟩ := Option.map_eq_some_iff.mp h
        exact ih hnext hrun
      · have hnone : backoffDuration 500 (attempt + 1) = none :=
          backoffDuration_eq_none 55 (by norm_num) (by omega)
        simp only [spawnGossipDiscovery, nextAttempt_of_findsNoPeer hfind hle, hnone,
          Option.bind_eq_bind, Option.bind_some, Option.bind_none, reduceCtorEq] at h
    · refine (isBounded_cons_of_not_findsNoPeer hfind hle).mpr ?_
      rw [spawnGossipDiscovery_cons (nextAttempt_of_not_findsNoPeer hfind) (Nat.zero_le 55)] at h
      obtain ⟨delays, hrun, -⟩ := Option.map_eq_some_iff.mp h
      exact ih (Nat.zero_le 55) hrun

theorem gossipRetries_iff : GossipRetries bootstrapPeers discoverTimeout rounds ↔
    ∀ stretch, stretch <:+: rounds → (∀ d ∈ stretch, FindsNoPeer bootstrapPeers d) →
      stretch.length ≤ 55 := by
  constructor
  · rintro ⟨delays, hrun, -⟩
    exact (isBounded_of_run (Nat.zero_le 55) hrun).stretch
  · intro h
    have hbound : IsBounded bootstrapPeers 0 rounds := ⟨h, fun first hfirst hfind => by
      simpa using h first hfirst.isInfix hfind⟩
    obtain ⟨delays, hrun, hlength, hchain⟩ :=
      exists_delays discoverTimeout (Nat.zero_le 55) hbound (.ok [])
    exact ⟨delays, hrun, hlength, hchain.tail⟩

end Gossip

/-! ### The polls -/

/-- The place of a record in the order of `is_newer_than`. -/
def ClusterRecord.age (record : ClusterRecord) : ℕ :=
  record.updatedAt.toNat * 2 ^ 64 + record.nonce.toNat

theorem ClusterRecord.isNewerThan_iff {record other : ClusterRecord} :
    record.isNewerThan other = true ↔ other.age < record.age := by
  have hnonce := record.nonce.toNat_lt
  have hother := other.nonce.toNat_lt
  simp only [isNewerThan, age, Bool.or_eq_true, Bool.and_eq_true, decide_eq_true_eq,
    beq_iff_eq, UInt64.lt_iff_toNat_lt, ← UInt64.toNat_inj]
  omega

section Polls

variable {crates : Crates} {target : String} {before polls : List Poll} {poll : Poll}
  {s : Discovery} {newestRecord : Option ClusterRecord} {record : ClusterRecord}

/-- The newest of the fresh records of the polls so far. -/
structure Crates.IsNewest (crates : Crates) (before : List Poll)
    (newestRecord : Option ClusterRecord) : Prop where
  newest : ∀ earlier ∈ before, ∀ record ∈ crates.freshRecord earlier,
    ∃ newest ∈ newestRecord, record.age ≤ newest.age
  mem : ∀ newest ∈ newestRecord, ∃ earlier ∈ before, newest ∈ crates.freshRecord earlier

namespace Crates.IsNewest

/-- A record is taken exactly if it is newer than all those before. -/
theorem all_iff (h : crates.IsNewest before newestRecord) :
    newestRecord.all (fun previous => record.isNewerThan previous) = true ↔
      ∀ earlier ∈ before, ∀ previous ∈ crates.freshRecord earlier,
        previous.age < record.age := by
  constructor
  · intro hall earlier hearlier previous hprevious
    obtain ⟨newest, rfl, hle⟩ := h.newest earlier hearlier previous hprevious
    exact hle.trans_lt (ClusterRecord.isNewerThan_iff.mp hall)
  · intro hall
    rcases newestRecord with - | newest
    · rfl
    · obtain ⟨earlier, hearlier, hmem⟩ := h.mem newest rfl
      exact ClusterRecord.isNewerThan_iff.mpr (hall earlier hearlier newest hmem)

theorem concat_none (h : crates.IsNewest before newestRecord)
    (hpoll : crates.freshRecord poll = none) :
    crates.IsNewest (before ++ [poll]) newestRecord := by
  refine ⟨fun earlier hearlier record hrecord => ?_, fun newest hnewest => ?_⟩
  · rcases List.mem_append.mp hearlier with hearlier | hearlier
    · exact h.newest earlier hearlier record hrecord
    · rw [List.mem_singleton.mp hearlier, hpoll] at hrecord
      exact absurd hrecord (Option.not_mem_none record)
  · obtain ⟨earlier, hearlier, hmem⟩ := h.mem newest hnewest
    exact ⟨earlier, mem_append_left _ hearlier, hmem⟩

/-- A poll with a fresh record, which is taken if it is newer than the one before. -/
theorem concat_some (h : crates.IsNewest before newestRecord)
    (hpoll : crates.freshRecord poll = some record) :
    crates.IsNewest (before ++ [poll])
      (if newestRecord.all fun previous => record.isNewerThan previous then some record
        else newestRecord) := by
  split_ifs with hall
  · have hnewer := h.all_iff.mp hall
    refine ⟨fun earlier hearlier previous hprevious => ⟨record, rfl, ?_⟩, ?_⟩
    · rcases List.mem_append.mp hearlier with hearlier | hearlier
      · exact (hnewer earlier hearlier previous hprevious).le
      · rw [List.mem_singleton.mp hearlier, hpoll] at hprevious
        rw [Option.mem_some_iff.mp hprevious]
    · rintro newest hnewest
      exact ⟨poll, mem_append_right _ mem_cons_self, hpoll.trans hnewest⟩
  · rcases newestRecord with - | newest
    · exact absurd rfl hall
    · have hle : record.age ≤ newest.age :=
        not_lt.mp fun hlt => hall (ClusterRecord.isNewerThan_iff.mpr hlt)
      refine ⟨fun earlier hearlier previous hprevious => ?_, fun newest hnewest => ?_⟩
      · rcases List.mem_append.mp hearlier with hearlier | hearlier
        · exact h.newest earlier hearlier previous hprevious
        · rw [List.mem_singleton.mp hearlier, hpoll] at hprevious
          exact ⟨newest, rfl, Option.mem_some_iff.mp hprevious ▸ hle⟩
      · obtain ⟨earlier, hearlier, hmem⟩ := h.mem newest hnewest
        exact ⟨earlier, mem_append_left _ hearlier, hmem⟩

end Crates.IsNewest

theorem isEmpty_newestFirst (members : List MemberRecord) :
    (newestFirst members).isEmpty = members.isEmpty := by
  rw [Bool.eq_iff_iff, isEmpty_iff_length_eq_zero, isEmpty_iff_length_eq_zero,
    newestFirst, length_insertionSort]

theorem Crates.readItem_of_ok (newestRecord : Option ClusterRecord) {item : MutableItem}
    (hitem : poll.item = some item) (hdecode : crates.decodeClusterRecord item.value = .ok record) :
    crates.readItem newestRecord poll = .ok (match crates.freshRecord poll with
      | none => (newestRecord, none)
      | some record =>
        if newestRecord.all fun previous => record.isNewerThan previous then
          (some record, if record.members.isEmpty then none else some (newestFirst record.members))
        else (newestRecord, none)) := by
  by_cases hfresh : (validateClusterRecordFreshness poll.now record).isOk = true
  · simp only [readItem, freshRecord, hitem, hdecode, Option.bind_some, Except.toOption,
      Option.filter_some, hfresh, if_true, isEmpty_newestFirst]
    by_cases hall : newestRecord.all (fun previous => record.isNewerThan previous) = true
    · simp [hall, bind, Except.bind, pure, Except.pure, hfresh]
    · simp [hall, bind, Except.bind, pure, Except.pure, hfresh]
  · simp [readItem, freshRecord, hitem, hdecode, Except.toOption, Option.filter, hfresh, bind,
      Except.bind, pure, Except.pure]

/-- **What a poll reads**, if the newest record is known. -/
theorem Crates.readItem_spec (poll : Poll) (h : crates.IsNewest before newestRecord) :
    (crates.ReadsNothing before poll ∧ ∃ newestRecord', crates.readItem newestRecord poll =
      .ok (newestRecord', none) ∧ crates.IsNewest (before ++ [poll]) newestRecord') ∨
    (¬ crates.ReadsNothing before poll ∧ ((∃ e, crates.readItem newestRecord poll = .error e) ∨
      ∃ newestRecord' members,
        crates.readItem newestRecord poll = .ok (newestRecord', some members))) := by
  rcases hitem : poll.item with - | item
  · have hfresh : crates.freshRecord poll = none := by simp [freshRecord, hitem]
    exact .inl ⟨⟨by simp [hitem], by simp [hfresh]⟩, newestRecord, by simp [readItem, hitem],
      h.concat_none hfresh⟩
  rcases hdecode : crates.decodeClusterRecord item.value with e | record
  · refine .inr ⟨fun hread => ?_, .inl ⟨e, ?_⟩⟩
    · obtain ⟨record, hrecord⟩ := hread.decodes item hitem
      exact nomatch hdecode.symm.trans hrecord
    · simp [readItem, hitem, hdecode, bind, Except.bind]
  have hread := readItem_of_ok newestRecord hitem hdecode
  have hdecodes : ∀ item' ∈ poll.item, ∃ record,
      crates.decodeClusterRecord item'.value = .ok record := by
    intro item' hitem'
    exact ⟨record, Option.some.inj (hitem.symm.trans hitem') ▸ hdecode⟩
  rcases hfresh : crates.freshRecord poll with - | record
  · rw [hfresh] at hread
    exact .inl ⟨⟨hdecodes, by simp [hfresh]⟩, newestRecord, hread, h.concat_none hfresh⟩
  rw [hfresh] at hread
  have hconcat := h.concat_some hfresh
  by_cases hall : newestRecord.all (fun previous => record.isNewerThan previous) = true
  · by_cases hmembers : record.members = []
    · refine .inl ⟨⟨hdecodes, fun record' hrecord' hne => ?_⟩, some record, ?_, ?_⟩
      · exact absurd (Option.some.inj (hfresh.symm.trans hrecord') ▸ hmembers) hne
      · simpa [hall, hmembers] using hread
      · simpa [hall] using hconcat
    · refine .inr ⟨fun hnothing => ?_, .inr ⟨some record, newestFirst record.members, ?_⟩⟩
      · obtain ⟨earlier, hearlier, previous, hprevious, hnot⟩ :=
          hnothing.stale record hfresh hmembers
        have hlt := h.all_iff.mp hall earlier hearlier previous hprevious
        exact absurd (ClusterRecord.isNewerThan_iff.mpr hlt) (by simp [hnot])
      · simpa [hall, hmembers] using hread
  · refine .inl ⟨⟨hdecodes, fun record' hrecord' hne => ?_⟩, newestRecord, ?_, ?_⟩
    · obtain ⟨⟩ := hfresh.symm.trans hrecord'
      have hold := mt h.all_iff.mpr hall
      push Not at hold
      obtain ⟨earlier, hearlier, previous, hprevious, hle⟩ := hold
      refine ⟨earlier, hearlier, previous, hprevious, ?_⟩
      rw [← Bool.not_eq_true, ClusterRecord.isNewerThan_iff]
      exact not_lt.mpr hle
    · simpa [hall] using hread
    · simpa [hall] using hconcat

/-- The delay before a poll. -/
abbrev pollDelay (attempt : ℕ) : Duration :=
  pacedDelay 100 (fromMillis MAX_DISCOVER_POLL_MS) attempt

theorem backoffDuration_poll {attempt : ℕ} (h : attempt ≤ 57) :
    backoffDuration 100 attempt = some (fromMillis (100 * 2 ^ attempt)) :=
  backoffDuration_of_lt 57 (by norm_num) (by norm_num) h

/-- **One poll**: the loop sleeps after a quiet one, unless the delay overflows; else it returns. -/
theorem Crates.discoverPoll_spec (target : String) (poll : Poll)
    (h : crates.IsNewest before s.newestRecord) :
    (crates.IsQuiet before poll ∧ ∃ newestRecord, crates.IsNewest (before ++ [poll]) newestRecord ∧
      (s.pollAttempt ≤ 57 → crates.discoverPoll target s poll =
        some (.slept (pollDelay s.pollAttempt) ⟨s.pollAttempt + 1, newestRecord⟩)) ∧
      (57 < s.pollAttempt → crates.discoverPoll target s poll = none)) ∨
    (¬ crates.IsQuiet before poll ∧
      ∃ result, crates.discoverPoll target s poll = some (.returned result)) := by
  rcases crates.readItem_spec poll h with
    ⟨hnothing, newestRecord, hread, hnewest⟩ |
      ⟨hnothing, ⟨e, hread⟩ | ⟨newestRecord, members, hread⟩⟩
  · by_cases hexpired : poll.expired = true
    · refine .inr ⟨fun hquiet => by simp [hquiet.not_expired] at hexpired,
        .error s!"no cluster members found at target {target}", ?_⟩
      simp only [discoverPoll, hread, hexpired, if_true]
    · refine .inl ⟨⟨hnothing, by simpa using hexpired⟩, newestRecord, hnewest, fun hle => ?_,
        fun hlt => ?_⟩
      · have hfits : s.pollAttempt + 1 < 2 ^ 32 := by omega
        simp only [discoverPoll, hread, hexpired, if_false, backoffDuration_poll hle,
          checkedNat_of_lt hfits, Option.bind_eq_bind, Option.bind_some, Bool.false_eq_true]
        rfl
      · have hnone : backoffDuration 100 s.pollAttempt = none :=
          backoffDuration_eq_none 57 (by norm_num) hlt
        simp only [discoverPoll, hread, hexpired, if_false, hnone, Option.bind_eq_bind,
          Option.bind_none, Bool.false_eq_true]
  · exact .inr ⟨fun hquiet => hnothing hquiet.toReadsNothing, .error e, by
      simp only [discoverPoll, hread]⟩
  · exact .inr ⟨fun hquiet => hnothing hquiet.toReadsNothing, .ok members, by
      simp only [discoverPoll, hread]⟩

/-- The first polls are quiet, more than 58 of them if there were `attempt` before. -/
def Crates.IsSilent (crates : Crates) (before polls : List Poll) (attempt : ℕ) : Prop :=
  ∃ quiet, quiet <+: polls ∧ crates.AllQuiet before quiet ∧ 58 < attempt + quiet.length

theorem Crates.not_isSilent_nil {attempt : ℕ} (h : attempt ≤ 58) :
    ¬ crates.IsSilent before [] attempt := by
  rintro ⟨quiet, hprefix, -, hlt⟩
  rw [List.prefix_nil.mp hprefix] at hlt
  exact absurd hlt (Nat.not_lt.mpr h)

theorem Crates.isSilent_cons_iff (h : s.pollAttempt ≤ 58) :
    crates.IsSilent before (poll :: polls) s.pollAttempt ↔
      crates.IsQuiet before poll ∧
        (s.pollAttempt = 58 ∨ crates.IsSilent (before ++ [poll]) polls (s.pollAttempt + 1)) := by
  constructor
  · rintro ⟨quiet, hprefix, hquiet, hlt⟩
    rcases List.prefix_cons_iff.mp hprefix with rfl | ⟨quiet, rfl, hprefix⟩
    · exact absurd hlt (Nat.not_lt.mpr h)
    · refine ⟨hquiet.1, .inr ⟨quiet, (prefix_cons_inj poll).mp hprefix, hquiet.2, ?_⟩⟩
      rw [length_cons] at hlt
      omega
  · rintro ⟨hquiet, heq | ⟨quiet, hprefix, hall, hlt⟩⟩
    · exact ⟨[poll], by simp, ⟨hquiet, trivial⟩, by simp [heq]⟩
    · refine ⟨poll :: quiet, by simpa using hprefix, ⟨hquiet, hall⟩, ?_⟩
      rw [length_cons]
      omega

/-- **The polls go on** unless too many are quiet, at their pace, also after a delay `d`. -/
theorem Crates.exists_delays (target : String) (h : crates.IsNewest before s.newestRecord)
    (hle : s.pollAttempt ≤ 58) (hsilent : ¬ crates.IsSilent before polls s.pollAttempt)
    {d : Duration} (hd : KeepsPace (fromMillis MAX_DISCOVER_POLL_MS) d (pollDelay s.pollAttempt)) :
    ∃ delays result, crates.discoverMembers target s polls = some (delays, result) ∧
      (d :: delays).IsChain (KeepsPace (fromMillis MAX_DISCOVER_POLL_MS)) := by
  induction polls generalizing before s d with
  | nil => exact ⟨[], none, rfl, .singleton d⟩
  | cons poll polls ih =>
    rcases crates.discoverPoll_spec target poll h with
      ⟨hquiet, newestRecord, hnewest, hslept, -⟩ | ⟨-, result, hreturned⟩
    · have hrest := mt (isSilent_cons_iff hle).mpr hsilent
      simp only [hquiet, true_and, not_or] at hrest
      have hlt : s.pollAttempt ≤ 57 := by omega
      obtain ⟨delays, result, hrun, hchain⟩ := ih (s := ⟨s.pollAttempt + 1, newestRecord⟩) hnewest
        (Nat.succ_le_succ hlt) hrest.2 (keepsPace_succ 100 _ s.pollAttempt)
      refine ⟨pollDelay s.pollAttempt :: delays, result, ?_, ?_⟩
      · simp only [discoverMembers, hslept hlt, hrun, Option.map_some]
      · exact List.isChain_cons_cons.mpr ⟨hd, hchain⟩
    · exact ⟨[], some result, by simp only [discoverMembers, hreturned], .singleton d⟩

/-- Polls without a panic are not silent for too long. -/
theorem Crates.not_isSilent_of_run (h : crates.IsNewest before s.newestRecord)
    (hle : s.pollAttempt ≤ 58) {run : List Duration × Option (Except String (List MemberRecord))}
    (hrun : crates.discoverMembers target s polls = some run) :
    ¬ crates.IsSilent before polls s.pollAttempt := by
  induction polls generalizing before s run with
  | nil => exact not_isSilent_nil hle
  | cons poll polls ih =>
    rw [isSilent_cons_iff hle]
    rintro ⟨hquiet, hsilent⟩
    rcases crates.discoverPoll_spec target poll h with
      ⟨-, newestRecord, hnewest, hslept, hnone⟩ | ⟨hnot, -⟩
    · by_cases hlt : s.pollAttempt ≤ 57
      · simp only [discoverMembers, hslept hlt] at hrun
        obtain ⟨rest, hrest, -⟩ := Option.map_eq_some_iff.mp hrun
        refine ih (s := ⟨s.pollAttempt + 1, newestRecord⟩) hnewest (Nat.succ_le_succ hlt) hrest ?_
        exact hsilent.resolve_left (by omega)
      · simp only [discoverMembers, hnone (Nat.not_le.mp hlt), reduceCtorEq] at hrun
    · exact hnot hquiet

theorem Crates.pollsRetry_iff : crates.PollsRetry target polls ↔
    ∀ quiet, quiet <+: polls → crates.AllQuiet [] quiet → quiet.length ≤ 58 := by
  have hnewest : crates.IsNewest [] none := ⟨by simp, by simp⟩
  have hsilent : (∀ quiet, quiet <+: polls → crates.AllQuiet [] quiet → quiet.length ≤ 58) ↔
      ¬ crates.IsSilent [] polls 0 := by
    simp [IsSilent]
  rw [hsilent]
  constructor
  · rintro ⟨delays, result, hrun, -⟩
    exact not_isSilent_of_run (s := ⟨0, none⟩) hnewest (Nat.zero_le 58) hrun
  · intro h
    obtain ⟨delays, result, hrun, hchain⟩ := exists_delays (s := ⟨0, none⟩) target hnewest
      (Nat.zero_le 58) h ⟨le_rfl, id⟩
    exact ⟨delays, result, hrun, hchain.tail⟩

theorem Crates.allQuiet_of_none (h : ∀ poll ∈ polls, poll.item = none ∧ poll.expired = false) :
    crates.AllQuiet before polls := by
  induction polls generalizing before with
  | nil => trivial
  | cons poll polls ih =>
    obtain ⟨⟨hitem, hexpired⟩, hpolls⟩ := List.forall_mem_cons.mp h
    have hfresh : crates.freshRecord poll = none := by simp [freshRecord, hitem]
    exact ⟨⟨⟨by simp [hitem], by simp [hfresh]⟩, hexpired⟩, ih hpolls⟩

end Polls

/-! ### The result -/

/-- **When the loops keep retrying**: the gossip loop while no more than 55 rounds in a row are
without a peer, the polls if no more than the first 58 are quiet. -/
theorem retries_iff (bootstrapPeers : List MemberRecord → List String) (crates : Crates)
    (discoverTimeout : Duration) (rounds : List (Except String (List MemberRecord)))
    (target : String) (polls : List Poll) :
    (GossipRetries bootstrapPeers discoverTimeout rounds ↔
      ∀ stretch, stretch <:+: rounds → (∀ d ∈ stretch, FindsNoPeer bootstrapPeers d) →
        stretch.length ≤ 55) ∧
    (crates.PollsRetry target polls ↔
      ∀ quiet, quiet <+: polls → crates.AllQuiet [] quiet → quiet.length ≤ 58) :=
  ⟨gossipRetries_iff, Crates.pollsRetry_iff⟩

/-- 56 rounds without a peer, and 59 polls of a DHT without a record. -/
theorem retries_overflow :
    ¬ GossipRetries (fun _ => []) (fromSecs 10) (List.replicate 56 (.ok [])) ∧
    ¬ postcardCrates.PollsRetry "4af8" (List.replicate 59 ⟨none, 1700000000, false⟩) := by
  constructor
  · intro h
    have hle := gossipRetries_iff.mp h _ infix_rfl fun _ hd _ hok => rfl
    rw [length_replicate] at hle
    exact absurd hle (by norm_num)
  · intro h
    have hquiet : postcardCrates.AllQuiet [] (List.replicate 59 ⟨none, 1700000000, false⟩) :=
      Crates.allQuiet_of_none fun poll hpoll => by simp [eq_of_mem_replicate hpoll]
    have hle := Crates.pollsRetry_iff.mp h _ prefix_rfl hquiet
    rw [length_replicate] at hle
    exact absurd hle (by norm_num)

/-! ### Wrapping arithmetic -/

/-- `backoff_duration` where the arithmetic wraps. -/
def wrappingBackoffDuration (baseMs attempt : ℕ) : Duration :=
  fromMillis (baseMs * (2 ^ attempt % 2 ^ 64) % 2 ^ 64)

/-- The loops have bases that are multiples of 4: after 62 attempts they do not wait. -/
theorem wrappingDelay_eq_zero {baseMs attempt : ℕ} (hbase : 4 ∣ baseMs) (h : 62 ≤ attempt)
    (cap : Duration) : min (wrappingBackoffDuration baseMs attempt) cap = 0 := by
  obtain ⟨q, rfl⟩ := hbase
  have hdvd : 2 ^ 64 ∣ 4 * q * 2 ^ attempt := by
    calc 2 ^ 64 = 4 * 2 ^ 62 := by norm_num
      _ ∣ 4 * (q * 2 ^ attempt) := Nat.mul_dvd_mul_left 4 (Dvd.dvd.mul_left (pow_dvd_pow 2 h) q)
      _ = 4 * q * 2 ^ attempt := (Nat.mul_assoc 4 q _).symm
  have hzero : wrappingBackoffDuration (4 * q) attempt = 0 := by
    rw [wrappingBackoffDuration, Nat.mul_mod_mod, Nat.mod_eq_zero_of_dvd hdvd, fromMillis,
      Nat.zero_mul]
  rw [hzero, Nat.zero_min]

end RustExample.MainlineRecord
