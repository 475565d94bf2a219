import Mathlib.Data.List.Pairwise
import Mathlib.Data.List.TakeDrop
import Mathlib.Order.Lattice

/-!
# The log of a replicated state machine and the states of its prefixes

A log is a list of entries with increasing ids. An entry carries nothing, a command of a state
machine or a membership of the cluster. Applying a prefix of the log gives a state of the machine,
the id of the last entry and the last membership; a snapshot is such a triple. The id of the last
entry determines the prefix, and the prefixes are ordered as their last ids are.
-/

namespace RustExample.Raft

open List

variable {L C M σ : Type}

theorem option_le_refl {α : Type} [LE α] (hrefl : ∀ x : α, x ≤ x) (a : Option α) : a ≤ a := by
  cases a with
  | none => simp
  | some x => exact Option.some_le_some.mpr (hrefl x)

theorem option_le_trans {α : Type} [LE α] (htrans : ∀ x y z : α, x ≤ y → y ≤ z → x ≤ z)
    {a b c : Option α} (hab : a ≤ b) (hbc : b ≤ c) : a ≤ c := by
  cases a with
  | none => simp
  | some x =>
    cases b with
    | none => simp at hab
    | some y =>
      cases c with
      | none => simp at hbc
      | some z =>
        rw [Option.some_le_some] at hab hbc ⊢
        exact htrans x y z hab hbc

theorem option_not_le_of_lt {α : Type} [LinearOrder α] {a b : Option α} (h : a < b) : ¬b ≤ a := by
  cases b with
  | none => simp at h
  | some y =>
    cases a with
    | none => simp
    | some x => simpa using h

theorem option_lt_of_not_le {α : Type} [LinearOrder α] {a b : Option α} (h : ¬b ≤ a) : a < b := by
  cases b with
  | none => simp at h
  | some y =>
    cases a with
    | none => simp
    | some x => simpa using h

/-! ### Entries -/

/-- What an entry carries. -/
inductive EntryPayload (C M : Type) where
  | blank
  | normal (cmd : C)
  | membership (m : M)

/-- An entry of the log. -/
structure Entry (L C M : Type) where
  logId : L
  payload : EntryPayload C M

/-- A membership and the id of the entry it comes from. -/
structure StoredMembership (L M : Type) where
  logId : Option L
  membership : M
  deriving DecidableEq

/-- A state machine with commands `C`. -/
structure Machine (σ C : Type) where
  initial : σ
  exec : σ → C → σ

/-- A state of a machine, the id of the last entry applied and the last membership. -/
@[ext] structure Applied (σ L M : Type) where
  state : σ
  lastApplied : Option L
  lastMembership : StoredMembership L M

namespace Applied

/-- Nothing is applied. -/
def initial [Inhabited M] (machine : Machine σ C) : Applied σ L M :=
  ⟨machine.initial, none, ⟨none, default⟩⟩

/-- Applies an entry. -/
def apply (machine : Machine σ C) (a : Applied σ L M) (e : Entry L C M) : Applied σ L M where
  state :=
    match e.payload with
    | .normal cmd => machine.exec a.state cmd
    | _ => a.state
  lastApplied := some e.logId
  lastMembership :=
    match e.payload with
    | .membership m => ⟨some e.logId, m⟩
    | _ => a.lastMembership

/-- Applies a log from the start. -/
def replay [Inhabited M] (machine : Machine σ C) (es : List (Entry L C M)) : Applied σ L M :=
  es.foldl (apply machine) (initial machine)

theorem replay_snoc [Inhabited M] (machine : Machine σ C) (es : List (Entry L C M))
    (e : Entry L C M) : replay machine (es ++ [e]) = (replay machine es).apply machine e := by
  rw [replay, foldl_append]
  rfl

theorem lastApplied_replay [Inhabited M] (machine : Machine σ C) (es : List (Entry L C M)) :
    (replay machine es).lastApplied = es.getLast?.map Entry.logId := by
  rcases es.eq_nil_or_concat with rfl | ⟨es, e, rfl⟩
  · rfl
  · rw [concat_eq_append, replay_snoc, getLast?_concat]
    rfl

end Applied

/-! ### Logs -/

/-- A log: entries with increasing ids. -/
structure Log (L C M : Type) [LT L] where
  entries : List (Entry L C M)
  increasing : entries.Pairwise fun e e' => e.logId < e'.logId

namespace Log

variable [LinearOrder L] (log : Log L C M)

/-- The entries of a log up to the one with the given id. -/
def upTo : Option L → List (Entry L C M)
  | none => []
  | some id => log.entries.takeWhile fun e => e.logId ≤ id

/-- The entry that comes after the one with the given id. -/
def Follows (last : Option L) (e : Entry L C M) : Prop :=
  ∃ k, log.entries[k]? = some e ∧ (log.entries.take k).getLast?.map Entry.logId = last

section States

variable [Inhabited M] (machine : Machine σ C)

/-- The state after the first `n` entries. -/
def stateAt (n : ℕ) : Applied σ L M := .replay machine (log.entries.take n)

/-- The state after exactly the entries of the log up to its last applied id. -/
def IsPrefixState (a : Applied σ L M) : Prop := a = .replay machine (log.upTo a.lastApplied)

end States

variable {log} {n k : ℕ} {e : Entry L C M}

theorem logId_lt (hnk : n < k) {e' : Entry L C M} (he : log.entries[n]? = some e)
    (he' : log.entries[k]? = some e') : e.logId < e'.logId := by
  obtain ⟨hn, rfl⟩ := List.getElem?_eq_some_iff.mp he
  obtain ⟨hk, rfl⟩ := List.getElem?_eq_some_iff.mp he'
  exact List.pairwise_iff_getElem.mp log.increasing n k hn hk hnk

variable [Inhabited M] {machine : Machine σ C}

@[simp] theorem stateAt_zero : log.stateAt machine 0 = .initial machine := rfl

theorem stateAt_succ (he : log.entries[n]? = some e) :
    log.stateAt machine (n + 1) = (log.stateAt machine n).apply machine e := by
  rw [stateAt, take_add_one, he, Option.toList_some, Applied.replay_snoc, stateAt]

theorem lastApplied_stateAt_succ (he : log.entries[n]? = some e) :
    (log.stateAt machine (n + 1)).lastApplied = some e.logId := by
  rw [stateAt_succ he]
  rfl

/-- **A prefix is as long as its last id is large.** -/
theorem lastApplied_le_iff (hn : n ≤ log.entries.length) (hk : k ≤ log.entries.length) :
    (log.stateAt machine n).lastApplied ≤ (log.stateAt machine k).lastApplied ↔ n ≤ k := by
  have hentry : ∀ i, i + 1 ≤ log.entries.length → ∃ e, log.entries[i]? = some e :=
    fun i hi => ⟨_, getElem?_eq_getElem hi⟩
  cases n with
  | zero => simp [Applied.initial]
  | succ n =>
    obtain ⟨e, he⟩ := hentry n hn
    rw [lastApplied_stateAt_succ he]
    cases k with
    | zero => simp [Applied.initial]
    | succ k =>
      obtain ⟨e', he'⟩ := hentry k hk
      rw [lastApplied_stateAt_succ he', Option.some_le_some]
      rcases Nat.lt_trichotomy n k with hlt | rfl | hlt
      · exact iff_of_true (logId_lt hlt he he').le (by omega)
      · obtain ⟨⟩ := he.symm.trans he'
        simp
      · exact iff_of_false (not_le_of_gt (logId_lt hlt he' he)) (by omega)

theorem lastApplied_inj (hn : n ≤ log.entries.length) (hk : k ≤ log.entries.length)
    (h : (log.stateAt machine n).lastApplied = (log.stateAt machine k).lastApplied) : n = k := by
  have hnk : (log.stateAt machine n).lastApplied ≤ (log.stateAt machine k).lastApplied := by
    rw [h]
    exact option_le_refl le_refl _
  have hkn : (log.stateAt machine k).lastApplied ≤ (log.stateAt machine n).lastApplied := by
    rw [h]
    exact option_le_refl le_refl _
  exact Nat.le_antisymm ((lastApplied_le_iff hn hk).mp hnk) ((lastApplied_le_iff hk hn).mp hkn)

/-- The entry that comes after a prefix is the next one. -/
theorem Follows.getElem? (hn : n ≤ log.entries.length)
    (h : log.Follows (log.stateAt machine n).lastApplied e) : log.entries[n]? = some e := by
  obtain ⟨k, he, hk⟩ := h
  have hlt := (List.getElem?_eq_some_iff.mp he).1
  rw [← Applied.lastApplied_replay machine] at hk
  obtain rfl := lastApplied_inj (Nat.le_of_lt hlt) hn hk
  exact he

/-- The entries up to the last applied id of a prefix are the prefix. -/
theorem upTo_lastApplied (hn : n ≤ log.entries.length) :
    log.upTo (log.stateAt machine n).lastApplied = log.entries.take n := by
  cases n with
  | zero => rfl
  | succ n =>
    obtain ⟨e, he⟩ : ∃ e, log.entries[n]? = some e := ⟨_, getElem?_eq_getElem hn⟩
    rw [lastApplied_stateAt_succ he, upTo]
    have hsplit := take_append_drop (n + 1) log.entries
    have htake : ∀ c ∈ log.entries.take (n + 1), decide (c.logId ≤ e.logId) := by
      intro c hc
      obtain ⟨i, hi, rfl⟩ := List.mem_take_iff_getElem.mp hc
      have hi' : i ≤ n := by omega
      rcases Nat.lt_or_eq_of_le hi' with hlt | rfl
      · exact decide_eq_true (logId_lt hlt (getElem?_eq_getElem _) he).le
      · rw [(List.getElem?_eq_some_iff.mp he).2]
        exact decide_eq_true (le_refl _)
    have hdrop : (log.entries.drop (n + 1)).takeWhile (fun c => decide (c.logId ≤ e.logId)) =
        [] := by
      cases hd : log.entries.drop (n + 1) with
      | nil => rfl
      | cons c cs =>
        have hc : log.entries[n + 1]? = some c := by
          rw [← head?_drop, hd, head?_cons]
        rw [takeWhile_cons_of_neg]
        simpa using logId_lt (Nat.lt_succ_self n) he hc
    rw [← hsplit, takeWhile_append_of_pos htake, hsplit, hdrop, append_nil]

/-- **The states of prefixes.** -/
theorem isPrefixState_iff {a : Applied σ L M} :
    log.IsPrefixState machine a ↔ ∃ n ≤ log.entries.length, a = log.stateAt machine n := by
  constructor
  · intro h
    obtain ⟨n, hn, htake⟩ :
        ∃ n ≤ log.entries.length, log.upTo a.lastApplied = log.entries.take n := by
      cases a.lastApplied with
      | none => exact ⟨0, Nat.zero_le _, rfl⟩
      | some id =>
        have hpre := takeWhile_prefix (l := log.entries) fun e => decide (e.logId ≤ id)
        exact ⟨_, hpre.length_le, List.prefix_iff_eq_take.mp hpre⟩
    exact ⟨n, hn, by rw [stateAt, ← htake]; exact h⟩
  · rintro ⟨n, hn, rfl⟩
    rw [IsPrefixState, upTo_lastApplied hn, stateAt]

end Log

end RustExample.Raft
