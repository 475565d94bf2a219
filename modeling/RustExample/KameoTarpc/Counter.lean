import RustExample.Foundation.KeyStore
import RustExample.Foundation.Loops

/-!
# A replicated counter

An actor counts: it answers every `Add` and `Subtract` with a snapshot that has the total. The
total is kept as a text in a key-value store that is replicated by Raft, and the actor keeps a copy
of it. A message writes the sum of the copy and its amount; the copy is renewed only if the write is
answered, and if it fails, or if the sum overflows, the snapshot has the total from before.

Source: `kameo_tarpc/src/raft_counter.rs`, `kameo_tarpc/src/main.rs`
(`handle_counter_operation`), `rocksstore_crud/src/state_machine.rs` (`apply`, `kvs`).

* Raft is a single node with its log: entries that are committed are applied in order, at the
  latest when the node is opened again. How a write ends is an argument.
* `kvs` is the data that the node is opened with; `apply` does not change it.
* The actor holds a lock while it handles a message, so one message is handled after the other.
-/

namespace RustExample.KameoTarpc

/-! ### Numbers as texts -/

/-- The digits of a number, from the `result` of those before on. -/
def parseDigits (negative : Bool) : List Char → ℤ → Except String ℤ
  | [], result => .ok result
  | c :: digits, result =>
    if c.isDigit then
      let x : ℤ := (c.toNat - '0'.toNat : ℕ)
      match checkedInt 64 (if negative then result * 10 - x else result * 10 + x) with
      | some result => parseDigits negative digits result
      | none => .error (if negative then "number too small to fit in target type"
          else "number too large to fit in target type")
    else .error "invalid digit found in string"

/-- `parse::<i64>` -/
def parseI64 (text : String) : Except String ℤ :=
  match text.toList with
  | [] => .error "cannot parse integer from empty string"
  | ['+'] | ['-'] => .error "invalid digit found in string"
  | '+' :: digits => parseDigits false digits 0
  | '-' :: digits => parseDigits true digits 0
  | digits => parseDigits false digits 0

/-! ### The store -/

/-- The requests of the store. -/
inductive Request
  | set (key value : String)

/-- The answer of the store. -/
structure Response where
  value : Option String

/-- The key of the total. -/
def COUNTER_KEY : String := "counter.total"

/-- One entry of `apply`. -/
def applyEntry (smData : KeyStore String String) : Request → KeyStore String String × Response
  | .set key value => (smData.insert key value, ⟨some value⟩)

/-- The data after the entries of a log. -/
def replay (smData : KeyStore String String) (log : List Request) : KeyStore String String :=
  log.foldl (fun smData request => (applyEntry smData request).1) smData

/-- The node: the data that is stored, and the committed entries that are not applied. -/
structure Raft where
  smData : KeyStore String String
  log : List Request

/-- What becomes of a write that is answered with an error. -/
inductive Fate
  | lost
  | committed
  | applied

/-- How a write ends. -/
inductive WriteOutcome
  | answered
  | failed (err : String) (fate : Fate)

/-- Writes through Raft. -/
def Raft.clientWrite (raft : Raft) (request : Request) :
    WriteOutcome → Except String Response × Raft
  | .answered =>
    let applied := applyEntry (replay raft.smData raft.log) request
    (.ok applied.2, ⟨applied.1, []⟩)
  | .failed err .lost => (.error err, raft)
  | .failed err .committed => (.error err, ⟨raft.smData, raft.log ++ [request]⟩)
  | .failed err .applied => (.error err, ⟨replay raft.smData (raft.log ++ [request]), []⟩)

/-- The total in the store. -/
def readCounterTotal (data : KeyStore String String) : Except String ℤ :=
  match data[COUNTER_KEY]? with
  | some value =>
    match parseI64 value with
    | .ok total => .ok total
    | .error err => .error s!"failed to parse stored counter value '{value}': {err}"
  | none => .ok 0

/-- The value of the replicated counter. -/
def Raft.total (raft : Raft) : Except String ℤ := readCounterTotal (replay raft.smData raft.log)

/-! ### The actor -/

/-- A counter on the store. -/
structure CounterRaftHandle where
  raft : Raft
  cachedTotal : ℤ

/-- A reply of the counter. -/
structure CounterReply where
  total : ℤ
  caller : String

/-- The operations. -/
inductive CounterOperation
  | add
  | subtract

/-- What a message knows of its actor. -/
structure Context where
  actorId : String
  peerId : Option String

/-- What is shown of the counter. -/
structure CounterSnapshot where
  actorId : String
  handledByPeer : String
  total : ℤ
  acknowledgedCaller : String

namespace CounterRaftHandle

/-- Writes the total after a change. -/
def applyDeltaAndGetTotal (handle : CounterRaftHandle) (delta : ℤ) (amount : UInt32)
    (caller operation : String) (write : WriteOutcome) :
    Except String CounterReply × CounterRaftHandle :=
  let previousTotal := handle.cachedTotal
  match checkedInt 64 (previousTotal + delta) with
  | none =>
    (.error (s!"counter overflow applying operation={operation} amount={amount} " ++
      s!"previous_total={previousTotal}"), handle)
  | some newTotal =>
    match handle.raft.clientWrite (.set COUNTER_KEY (toString newTotal)) write with
    | (.error err, raft) =>
      (.error s!"raft client_write failed: {err}", { handle with raft := raft })
    | (.ok response, raft) =>
      let persisted := response.value.getD (toString newTotal)
      match parseI64 persisted with
      | .error err =>
        (.error s!"failed to parse persisted counter value '{persisted}': {err}",
          { handle with raft := raft })
      | .ok total => (.ok ⟨total, caller⟩, ⟨raft, total⟩)

/-- Adds an amount. -/
def addAndGetTotal (handle : CounterRaftHandle) (amount : UInt32) (caller : String)
    (write : WriteOutcome) : Except String CounterReply × CounterRaftHandle :=
  handle.applyDeltaAndGetTotal amount.toNat amount caller "add" write

/-- Takes off an amount. -/
def subtractAndGetTotal (handle : CounterRaftHandle) (amount : UInt32) (caller : String)
    (write : WriteOutcome) : Except String CounterReply × CounterRaftHandle :=
  handle.applyDeltaAndGetTotal (-amount.toNat) amount caller "subtract" write

/-- Performs an operation. -/
def handleCounterOperation (handle : CounterRaftHandle) (operation : CounterOperation)
    (amount : UInt32) (caller : String) (ctx : Context) (write : WriteOutcome) :
    CounterSnapshot × CounterRaftHandle :=
  let previousTotal := handle.cachedTotal
  let (result, handle) := match operation with
    | .add => handle.addAndGetTotal amount caller write
    | .subtract => handle.subtractAndGetTotal amount caller write
  let applied := match result with
    | .ok reply => reply
    | .error _ => ⟨previousTotal, caller⟩
  (⟨ctx.actorId, ctx.peerId.getD "local", applied.total, applied.caller⟩, handle)

end CounterRaftHandle

/-- The total is read from `kvs`, which is loaded before the log is applied. -/
def openSingleNode (raft : Raft) : Except String CounterRaftHandle := do
  let initialTotal ← readCounterTotal raft.smData
  return ⟨⟨replay raft.smData raft.log, []⟩, initialTotal⟩

/-! ### Runs -/

/-- A message, with the end of its write, or a restart on the same store. -/
inductive Event
  | message (operation : CounterOperation) (amount : UInt32) (caller : String) (ctx : Context)
      (write : WriteOutcome)
  | restart

/-- One event, with the snapshot that is returned. -/
def step (handle : CounterRaftHandle) :
    Event → Except String (Option CounterSnapshot × CounterRaftHandle)
  | .message operation amount caller ctx write =>
    let (snapshot, handle) := handle.handleCounterOperation operation amount caller ctx write
    .ok (some snapshot, handle)
  | .restart => (openSingleNode handle.raft).map fun handle => (none, handle)

/-- The signed amount of an event. -/
def Event.delta : Event → ℤ
  | .message .add amount _ _ _ => amount.toNat
  | .message .subtract amount _ _ _ => -amount.toNat
  | .restart => 0

/-- From here on, the counter is the sum `n` of the amounts before and of those answered, and each
snapshot has its value. -/
def CountsFrom (handle : CounterRaftHandle) (n : ℤ) : List Event → Prop
  | [] => True
  | e :: events => ∃ snapshot handle', step handle e = .ok (snapshot, handle') ∧
      handle'.raft.total = .ok (n + snapshot.elim 0 fun _ => e.delta) ∧
      (∀ s ∈ snapshot, handle'.raft.total = .ok s.total) ∧
      CountsFrom handle' (n + snapshot.elim 0 fun _ => e.delta) events

/-- The counter is what the snapshots say, from an empty store on. -/
def CountsOnce (events : List Event) : Prop :=
  ∃ handle, openSingleNode ⟨∅, []⟩ = .ok handle ∧ handle.raft.total = .ok 0 ∧
    CountsFrom handle 0 events

/-- An operation is answered by its write, and the sum fits; or it has no amount. -/
def Event.Succeeds (n : ℤ) : Event → Prop
  | .message operation amount caller ctx write =>
    amount = 0 ∨ write = .answered ∧
      -2 ^ 63 ≤ n + delta (.message operation amount caller ctx write) ∧
      n + delta (.message operation amount caller ctx write) < 2 ^ 63
  | .restart => True

/-- Every event succeeds, after events with the sum `n`. -/
def AllSucceed (n : ℤ) : List Event → Prop
  | [] => True
  | e :: events => e.Succeeds n ∧ AllSucceed (n + e.delta) events

/-! ### Reading a total -/

theorem le_ofDigitChars (digits : List Char) (result : ℕ) :
    result ≤ Nat.ofDigitChars 10 digits result := by
  induction digits generalizing result with
  | nil => exact le_rfl
  | cons c digits ih =>
    rw [Nat.ofDigitChars_cons]
    exact le_trans (by omega) (ih _)

theorem parseDigits_eq_ok {digits : List Char} (h : ∀ c ∈ digits, c.isDigit = true) (result : ℕ) :
    (Nat.ofDigitChars 10 digits result < 2 ^ 63 →
      parseDigits false digits result = .ok (Nat.ofDigitChars 10 digits result : ℕ)) ∧
    (Nat.ofDigitChars 10 digits result ≤ 2 ^ 63 →
      parseDigits true digits (-result) = .ok (-(Nat.ofDigitChars 10 digits result : ℕ))) := by
  induction digits generalizing result with
  | nil => exact ⟨fun _ => rfl, fun _ => rfl⟩
  | cons c digits ih =>
    have hc : c.isDigit = true := h c List.mem_cons_self
    have hle := le_ofDigitChars digits (10 * result + (c.toNat - '0'.toNat))
    obtain ⟨hpos, hneg⟩ := ih (fun c' hc' => h c' (List.mem_cons_of_mem c hc'))
      (10 * result + (c.toNat - '0'.toNat))
    rw [Nat.ofDigitChars_cons]
    constructor
    · intro hlt
      have hstep : (result : ℤ) * 10 + (c.toNat - '0'.toNat : ℕ) =
          (10 * result + (c.toNat - '0'.toNat) : ℕ) := by omega
      have hnext : checkedInt 64 ((10 * result + (c.toNat - '0'.toNat) : ℕ) : ℤ) =
          some ((10 * result + (c.toNat - '0'.toNat) : ℕ) : ℤ) :=
        checkedInt_of_le (by omega) (by omega)
      rw [← hpos hlt, parseDigits, if_pos hc]
      simp only [Bool.false_eq_true, if_false]
      rw [hstep, hnext]
    · intro hle'
      have hstep : -(result : ℤ) * 10 - (c.toNat - '0'.toNat : ℕ) =
          -(10 * result + (c.toNat - '0'.toNat) : ℕ) := by omega
      have hnext : checkedInt 64 (-((10 * result + (c.toNat - '0'.toNat) : ℕ) : ℤ)) =
          some (-((10 * result + (c.toNat - '0'.toNat) : ℕ) : ℤ)) :=
        checkedInt_of_le (by omega) (by omega)
      rw [← hneg hle', parseDigits, if_pos hc]
      simp only [if_true]
      rw [hstep, hnext]

/-- **A total is read as it was written.** -/
theorem parseI64_toString {n : ℤ} (hlow : -2 ^ 63 ≤ n) (hhigh : n < 2 ^ 63) :
    parseI64 (toString n) = .ok n := by
  have hdigits : ∀ m, ∀ c ∈ Nat.toDigits 10 m, c.isDigit = true := fun m c hc =>
    Nat.isDigit_of_mem_toDigits (by decide) (by decide) hc
  rw [Int.toString_eq_repr, Int.repr_eq_if]
  split_ifs with hn
  · have hread := (parseDigits_eq_ok (hdigits n.toNat) 0).1
    rw [Nat.ofDigitChars_ten_toDigits] at hread
    rcases hlist : Nat.toDigits 10 n.toNat with - | ⟨c, digits⟩
    · exact absurd hlist Nat.toDigits_ne_nil
    · have hc : c.isDigit = true := hdigits n.toNat c (hlist ▸ List.mem_cons_self)
      have hplus : c ≠ '+' := by rintro rfl; exact absurd hc (by decide)
      have hminus : c ≠ '-' := by rintro rfl; exact absurd hc (by decide)
      have hparse : parseI64 n.toNat.repr = parseDigits false (Nat.toDigits 10 n.toNat) 0 := by
        simp [parseI64, Nat.toList_repr, hlist, hplus, hminus]
      rw [hparse]
      simpa [Int.toNat_of_nonneg hn] using hread (by omega)
  · have hread := (parseDigits_eq_ok (hdigits (-n).toNat) 0).2
    rw [Nat.ofDigitChars_ten_toDigits] at hread
    rcases hlist : Nat.toDigits 10 (-n).toNat with - | ⟨c, digits⟩
    · exact absurd hlist Nat.toDigits_ne_nil
    · have hparse : parseI64 ("-" ++ (-n).toNat.repr) =
          parseDigits true (Nat.toDigits 10 (-n).toNat) 0 := by
        simp [parseI64, Nat.toList_repr, hlist]
      rw [hparse]
      simpa [Int.toNat_of_nonneg (show 0 ≤ -n by omega)] using hread (by omega)

/-! ### One event -/

variable {handle : CounterRaftHandle} {n : ℤ} {e : Event} {events : List Event}

/-- The copy, what a restart reads and the counter are all `n`. -/
structure Agrees (handle : CounterRaftHandle) (n : ℤ) : Prop where
  cached : handle.cachedTotal = n
  stored : readCounterTotal handle.raft.smData = .ok n
  total : handle.raft.total = .ok n
  low : -2 ^ 63 ≤ n
  high : n < 2 ^ 63

theorem readCounterTotal_insert {n : ℤ} (hlow : -2 ^ 63 ≤ n) (hhigh : n < 2 ^ 63)
    (data : KeyStore String String) :
    readCounterTotal (data.insert COUNTER_KEY (toString n)) = .ok n := by
  simp only [readCounterTotal, KeyStore.getElem?_put, if_true, parseI64_toString hlow hhigh]

theorem replay_concat (smData : KeyStore String String) (log : List Request) (key value : String) :
    replay smData (log ++ [.set key value]) = (replay smData log).insert key value := by
  rw [replay, List.foldl_append]
  rfl

/-- **A write of the counter** leaves the value or sets it; it sets it if it is answered. -/
theorem Raft.clientWrite_total (raft : Raft) (write : WriteOutcome) {n m : ℤ}
    (hraft : raft.total = .ok n) (hlow : -2 ^ 63 ≤ m) (hhigh : m < 2 ^ 63) :
    (write = .answered ∧ ∃ raft', raft.clientWrite (.set COUNTER_KEY (toString m)) write =
      (.ok ⟨some (toString m)⟩, raft') ∧ raft'.total = .ok m ∧
        readCounterTotal raft'.smData = .ok m) ∨
    (write ≠ .answered ∧ ∃ err raft', raft.clientWrite (.set COUNTER_KEY (toString m)) write =
      (.error err, raft') ∧ (raft'.total = .ok n ∨ raft'.total = .ok m) ∧
        (raft'.smData = raft.smData ∨ readCounterTotal raft'.smData = .ok m)) := by
  have hreplay : ∀ log, readCounterTotal
      (replay raft.smData (log ++ [.set COUNTER_KEY (toString m)])) = .ok m := by
    intro log
    rw [replay_concat]
    exact readCounterTotal_insert hlow hhigh _
  rcases write with - | ⟨err, - | - | -⟩
  · have hread := readCounterTotal_insert hlow hhigh (replay raft.smData raft.log)
    exact .inl ⟨rfl, _, rfl, hread, hread⟩
  · exact .inr ⟨by simp, err, raft, rfl, .inl hraft, .inl rfl⟩
  · exact .inr ⟨by simp, err, _, rfl, .inr (hreplay _), .inl rfl⟩
  · exact .inr ⟨by simp, err, _, rfl, .inr (hreplay _), .inr (hreplay _)⟩

namespace CounterRaftHandle

/-- **A sum is written**: the copy is renewed, or the call fails and the copy stays. -/
theorem applyDeltaAndGetTotal_spec (h : Agrees handle n) (delta : ℤ) (amount : UInt32)
    (caller operation : String) (write : WriteOutcome) :
    ((write = .answered ∧ -2 ^ 63 ≤ n + delta ∧ n + delta < 2 ^ 63) ∧ ∃ handle',
      handle.applyDeltaAndGetTotal delta amount caller operation write =
        (.ok ⟨n + delta, caller⟩, handle') ∧ Agrees handle' (n + delta)) ∨
    (¬ (write = .answered ∧ -2 ^ 63 ≤ n + delta ∧ n + delta < 2 ^ 63) ∧ ∃ err handle',
      handle.applyDeltaAndGetTotal delta amount caller operation write = (.error err, handle') ∧
        (handle'.raft.total = .ok n ∨ handle'.raft.total = .ok (n + delta)) ∧
        (delta = 0 → Agrees handle' n)) := by
  by_cases hfits : -2 ^ 63 ≤ n + delta ∧ n + delta < 2 ^ 63
  · have hsum : checkedInt 64 (handle.cachedTotal + delta) = some (n + delta) := by
      rw [h.cached]
      exact checkedInt_of_le (by simpa using hfits.1) (by simpa using hfits.2)
    rcases handle.raft.clientWrite_total write h.total hfits.1 hfits.2 with
      ⟨hwrite, raft', hrun, htotal, hstored⟩ | ⟨hwrite, err, raft', hrun, htotal, hstored⟩
    · refine .inl ⟨⟨hwrite, hfits⟩, ⟨raft', n + delta⟩, ?_,
        ⟨rfl, hstored, htotal, hfits.1, hfits.2⟩⟩
      simp only [applyDeltaAndGetTotal, hsum, hrun, Option.getD_some,
        parseI64_toString hfits.1 hfits.2]
    · refine .inr ⟨fun hsucceeds => hwrite hsucceeds.1, s!"raft client_write failed: {err}",
        { handle with raft := raft' }, ?_, htotal, ?_⟩
      · simp only [applyDeltaAndGetTotal, hsum, hrun]
      · rintro rfl
        rw [add_zero, or_self] at htotal
        rw [add_zero] at hstored
        refine ⟨h.cached, ?_, htotal, h.low, h.high⟩
        exact hstored.elim (fun hdata => (congrArg readCounterTotal hdata).trans h.stored) id
  · have hsum : checkedInt 64 (handle.cachedTotal + delta) = none := by
      rw [h.cached]
      exact checkedInt_eq_none (by simpa using hfits)
    refine .inr ⟨fun hsucceeds => hfits hsucceeds.2, _, handle, by
      simp only [applyDeltaAndGetTotal, hsum]; rfl, .inl h.total, fun _ => h⟩

theorem exists_handleCounterOperation (handle : CounterRaftHandle) (operation : CounterOperation)
    (amount : UInt32) (caller : String) (ctx : Context) (write : WriteOutcome) :
    ∃ name, ∀ result handle', handle.applyDeltaAndGetTotal
        (Event.message operation amount caller ctx write).delta amount caller name write =
          (result, handle') →
      ∃ snapshot, handle.handleCounterOperation operation amount caller ctx write =
        (snapshot, handle') ∧
        snapshot.total = result.toOption.elim handle.cachedTotal CounterReply.total := by
  rcases operation with - | -
  · refine ⟨"add", fun result handle' h => ?_⟩
    have hadd : handle.addAndGetTotal amount caller write = (result, handle') := h
    simp only [handleCounterOperation, hadd]
    rcases result with err | reply <;> exact ⟨_, rfl, rfl⟩
  · refine ⟨"subtract", fun result handle' h => ?_⟩
    have hsubtract : handle.subtractAndGetTotal amount caller write = (result, handle') := h
    simp only [handleCounterOperation, hsubtract]
    rcases result with err | reply <;> exact ⟨_, rfl, rfl⟩

end CounterRaftHandle

theorem Event.delta_message_eq_zero {operation : CounterOperation} {amount : UInt32}
    {caller : String} {ctx : Context} {write : WriteOutcome} :
    (message operation amount caller ctx write).delta = 0 ↔ amount = 0 := by
  have hzero : (amount.toNat : ℤ) = 0 ↔ amount = 0 := by
    rw [Int.natCast_eq_zero, ← UInt32.toNat_inj]
    rfl
  rcases operation with - | -
  · exact hzero
  · exact neg_eq_zero.trans hzero

/-- **One event**: the counter goes on with the amount, or the snapshot has the total from before
while there is an amount. -/
theorem step_spec (h : Agrees handle n) (e : Event) :
    (e.Succeeds n ∧ ∃ snapshot handle', step handle e = .ok (snapshot, handle') ∧
      (snapshot.elim 0 fun _ => e.delta) = e.delta ∧ (∀ s ∈ snapshot, s.total = n + e.delta) ∧
      Agrees handle' (n + e.delta)) ∨
    (¬ e.Succeeds n ∧ ∃ snapshot handle', step handle e = .ok (some snapshot, handle') ∧
      e.delta ≠ 0 ∧ snapshot.total = n) := by
  rcases e with ⟨operation, amount, caller, ctx, write⟩ | -
  · obtain ⟨name, hhandle⟩ :=
      handle.exists_handleCounterOperation operation amount caller ctx write
    rcases CounterRaftHandle.applyDeltaAndGetTotal_spec h
        (Event.message operation amount caller ctx write).delta amount caller name write with
      ⟨hwrite, handle', hrun, hagrees⟩ | ⟨hwrite, err, handle', hrun, htotal, hzero⟩
    · obtain ⟨snapshot, hstep, hsnapshot⟩ := hhandle _ _ hrun
      refine .inl ⟨.inr hwrite, some snapshot, handle', ?_, rfl, ?_, hagrees⟩
      · simp only [step, hstep]
      · rintro s hs
        exact Option.mem_some_iff.mp hs ▸ hsnapshot
    · obtain ⟨snapshot, hstep, hsnapshot⟩ := hhandle _ _ hrun
      have hsame : snapshot.total = n := hsnapshot.trans h.cached
      by_cases hamount : amount = 0
      · have hdelta : (Event.message operation amount caller ctx write).delta = 0 :=
          Event.delta_message_eq_zero.mpr hamount
        refine .inl ⟨.inl hamount, some snapshot, handle', ?_, rfl, ?_, ?_⟩
        · simp only [step, hstep]
        · simpa [hdelta] using hsame
        · simpa [hdelta] using hzero hdelta
      · refine .inr ⟨fun hsucceeds => hsucceeds.elim hamount hwrite, snapshot, handle', ?_, ?_,
          hsame⟩
        · simp only [step, hstep]
        · exact mt Event.delta_message_eq_zero.mp hamount
  · refine .inl ⟨trivial, none, ⟨⟨replay handle.raft.smData handle.raft.log, []⟩, n⟩, ?_, rfl,
      by simp, ?_⟩
    · simp only [step, openSingleNode, h.stored]
      rfl
    · rw [Event.delta, add_zero]
      exact ⟨rfl, h.total, h.total, h.low, h.high⟩

/-! ### The result -/

/-- The counter of an actor that agrees with its store goes on exactly if all events succeed. -/
theorem countsFrom_iff (h : Agrees handle n) :
    CountsFrom handle n events ↔ AllSucceed n events := by
  induction events generalizing handle n with
  | nil => exact Iff.rfl
  | cons e events ih =>
    rcases step_spec h e with ⟨hsucceeds, snapshot, handle', hstep, hdelta, hsnapshot, hagrees⟩ |
      ⟨hfails, snapshot, handle', hstep, hdelta, hsnapshot⟩
    · constructor
      · rintro ⟨snapshot₂, handle₂, hstep₂, -, -, hrest⟩
        obtain ⟨rfl, rfl⟩ := Prod.mk.inj (Except.ok.inj (hstep.symm.trans hstep₂))
        rw [hdelta] at hrest
        exact ⟨hsucceeds, (ih hagrees).mp hrest⟩
      · rintro ⟨-, hrest⟩
        refine ⟨snapshot, handle', hstep, ?_, fun s hs => ?_, ?_⟩
        · rw [hdelta, hagrees.total]
        · rw [hsnapshot s hs, hagrees.total]
        · rw [hdelta]
          exact (ih hagrees).mpr hrest
    · refine ⟨?_, fun hall => absurd hall.1 hfails⟩
      -- the snapshot would have to be the counter before and after the operation
      rintro ⟨snapshot₂, handle₂, hstep₂, htotal, hsnapshot₂, -⟩
      obtain ⟨rfl, rfl⟩ := Prod.mk.inj (Except.ok.inj (hstep.symm.trans hstep₂))
      have heq := Except.ok.inj ((hsnapshot₂ snapshot rfl).symm.trans htotal)
      rw [hsnapshot, Option.elim_some] at heq
      omega

/-- **When answered operations are counted once**: exactly if every operation with an amount is
answered by its write and the sums fit. -/
theorem countsOnce_iff (events : List Event) : CountsOnce events ↔ AllSucceed 0 events := by
  have hempty : readCounterTotal ∅ = .ok 0 := by simp [readCounterTotal]
  have hagrees : Agrees ⟨⟨∅, []⟩, 0⟩ 0 := ⟨rfl, hempty, hempty, by decide, by decide⟩
  have hopen : openSingleNode ⟨∅, []⟩ = .ok ⟨⟨∅, []⟩, 0⟩ := by
    rw [openSingleNode, hempty]
    rfl
  constructor
  · rintro ⟨handle, hopen', -, hcounts⟩
    obtain rfl := Except.ok.inj (hopen.symm.trans hopen')
    exact (countsFrom_iff hagrees).mp hcounts
  · intro h
    exact ⟨_, hopen, hempty, (countsFrom_iff hagrees).mpr h⟩

/-- An `Add` of 7 that is committed, while the write ends with an error. -/
theorem not_countsOnce_committed :
    ¬ CountsOnce [.message .add 7 "demo" ⟨"1", none⟩ (.failed "channel closed" .applied)] := by
  rw [countsOnce_iff]
  rintro ⟨hamount | ⟨hwrite, -⟩, -⟩
  · exact absurd hamount (by decide)
  · exact nomatch hwrite

end RustExample.KameoTarpc
