import Mathlib.Data.List.Induction
import Mathlib.Data.Prod.Lex
import Mathlib.Data.String.Basic
import RustExample.Foundation.KeyStore
import RustExample.Foundation.KeyText
import RustExample.Foundation.RaftLog

/-!
# The current snapshot of the task store

A snapshot is written to a file of one directory, under a name made of the leader and the index of
its last log id and of a random number. The current snapshot is the one whose name is the greatest
text.

Source: `libp2p_task/src/raft_store/state_machine.rs`.

* The committed leader ids are any ordered type, and their text any injective function.
* A file holds a value, since what is serialised is deserialised again; no access to a file fails.
  `none` as the result of a whole call is a file that is missing.
* The directory is read in any order of its names.
-/

namespace RustExample.Libp2pTask

open List

/-! ### The store -/

/-- The place of an entry in the log. -/
structure LogId (L : Type) where
  committedLeaderId : L
  index : ℕ
deriving DecidableEq, Repr

/-- Log ids compare by their leaders, then by their indexes. -/
instance {L : Type} [LinearOrder L] : LinearOrder (LogId L) :=
  LinearOrder.lift' (fun id => toLex (id.committedLeaderId, id.index)) fun a b h => by
    obtain ⟨a, i⟩ := a
    obtain ⟨b, j⟩ := b
    obtain ⟨rfl, rfl⟩ := Prod.mk.inj (toLex_inj.mp h)
    rfl

/-- The pairs of the store. -/
abbrev Data := List (List UInt8 × List UInt8)

/-- What a snapshot says of itself. -/
structure SnapshotMeta (L M : Type) where
  lastLogId : Option (LogId L)
  lastMembership : M
  snapshotId : String
deriving DecidableEq, Repr

/-- A file of the directory; what `get_current_snapshot` returns has the same parts. -/
structure SnapshotFile (L M : Type) where
  snapshotMeta : SnapshotMeta L M
  data : Data
deriving DecidableEq, Repr

/-- The column families `sm_meta` and `sm_data`, and the directory. -/
structure RocksStateMachine (L M : Type) where
  lastAppliedLog : Option (LogId L)
  lastMembership : M
  smData : Data
  snapshotDir : KeyStore String (SnapshotFile L M)

variable {L M : Type}

/-- The name of a snapshot, with its random number. -/
def snapshotIdOf (leaderText : L → String) (lastAppliedLog : Option (LogId L)) (snapshotIdx : ℕ) :
    String :=
  match lastAppliedLog with
  | some last => leaderText last.committedLeaderId ++ "-" ++ toString last.index ++ "-" ++
      toString snapshotIdx
  | none => "--" ++ toString snapshotIdx

namespace RocksStateMachine

/-- Writes a snapshot. -/
def buildSnapshot (sm : RocksStateMachine L M) (leaderText : L → String) (snapshotIdx : ℕ) :
    RocksStateMachine L M × SnapshotFile L M :=
  let snapshotId := snapshotIdOf leaderText sm.lastAppliedLog snapshotIdx
  let file : SnapshotFile L M := ⟨⟨sm.lastAppliedLog, sm.lastMembership, snapshotId⟩, sm.smData⟩
  ({ sm with snapshotDir := sm.snapshotDir.insert snapshotId file }, file)

/-- The last applied log id is replaced if the snapshot has one. -/
def installSnapshot (sm : RocksStateMachine L M) (snapshotMeta : SnapshotMeta L M)
    (snapshot : Data) : RocksStateMachine L M where
  lastAppliedLog := snapshotMeta.lastLogId.or sm.lastAppliedLog
  lastMembership := snapshotMeta.lastMembership
  smData := snapshot
  snapshotDir := sm.snapshotDir.insert snapshotMeta.snapshotId ⟨snapshotMeta, snapshot⟩

/-- The greatest name. -/
def latestSnapshotId (entries : List String) : Option String :=
  entries.foldl (fun latest snapshotId =>
    match latest with
    | none => some snapshotId
    | some current => if current < snapshotId then some snapshotId else some current) none

/-- The snapshot with that name. -/
def getCurrentSnapshot (sm : RocksStateMachine L M) (entries : List String) :
    Option (Option (SnapshotFile L M)) :=
  match latestSnapshotId entries with
  | none => some none
  | some snapshotId => sm.snapshotDir[snapshotId]?.map some

end RocksStateMachine

/-! ### Runs -/

/-- The calls of a run. Between two snapshots entries are applied, which changes the column
families; `snapshotIdx` is the random number. -/
inductive Call (L M : Type) where
  | apply (lastAppliedLog : Option (LogId L)) (lastMembership : M) (smData : Data)
  | buildSnapshot (snapshotIdx : ℕ)
  | installSnapshot (snapshotMeta : SnapshotMeta L M) (snapshot : Data)

/-- A run: the store, and the snapshots that were written. -/
structure Snapshots (L M : Type) where
  sm : RocksStateMachine L M
  written : List (SnapshotMeta L M)

/-- Performs a call. -/
def Snapshots.call (leaderText : L → String) (r : Snapshots L M) : Call L M → Snapshots L M
  | .apply lastAppliedLog lastMembership smData =>
    { r with sm := { r.sm with lastAppliedLog, lastMembership, smData } }
  | .buildSnapshot snapshotIdx =>
    let built := r.sm.buildSnapshot leaderText snapshotIdx
    ⟨built.1, r.written ++ [built.2.snapshotMeta]⟩
  | .installSnapshot snapshotMeta snapshot =>
    ⟨r.sm.installSnapshot snapshotMeta snapshot, r.written ++ [snapshotMeta]⟩

/-- The calls, in a directory that is empty at first. -/
def run (leaderText : L → String) (lastMembership : M) (calls : List (Call L M)) :
    Snapshots L M :=
  calls.foldl (Snapshots.call leaderText) ⟨⟨none, lastMembership, [], ∅⟩, []⟩

/-- The random number is one, and a snapshot that is installed was built on some node. -/
def Call.Built (leaderText : L → String) : Call L M → Prop
  | .apply _ _ _ => True
  | .buildSnapshot snapshotIdx => snapshotIdx < 1000
  | .installSnapshot snapshotMeta _ =>
    ∃ snapshotIdx < 1000, snapshotMeta.snapshotId =
      snapshotIdOf leaderText snapshotMeta.lastLogId snapshotIdx

/-- What the current snapshot should be: none if none was written, else one with the greatest last
log id of those written. -/
def Newest [LinearOrder L] (written : List (SnapshotMeta L M)) :
    Option (Option (SnapshotFile L M)) → Prop
  | none => False
  | some none => written = []
  | some (some current) => (∃ w ∈ written, w.lastLogId = current.snapshotMeta.lastLogId) ∧
      ∀ w ∈ written, w.lastLogId ≤ current.snapshotMeta.lastLogId

/-! ### Names -/

theorem toString_inj {m n : ℕ} (h : (toString m).toList = (toString n).toList) : m = n := by
  rw [Nat.toString_eq_repr, Nat.toString_eq_repr, Nat.repr, Nat.repr, String.toList_ofList,
    String.toList_ofList] at h
  exact KeyText.padded_injective 0 (by simpa [KeyText.padded, List.leftpad] using h)

theorem dash_notMem_toString (n : ℕ) : '-' ∉ (toString n).toList := by
  rw [Nat.toString_eq_repr, Nat.repr, String.toList_ofList]
  intro h
  exact absurd (Nat.isDigit_of_mem_toDigits (by decide) (by decide) h) (by decide)

theorem toString_ne_nil (n : ℕ) : (toString n).toList ≠ [] := by
  rw [Nat.toString_eq_repr, Nat.repr, String.toList_ofList]
  exact Nat.toDigits_ne_nil

/-- What stands before the last dash of a name. -/
def snapshotStem (leaderText : L → String) : Option (LogId L) → List Char
  | some last => (leaderText last.committedLeaderId).toList ++ '-' :: (toString last.index).toList
  | none => ['-']

theorem toList_snapshotIdOf (leaderText : L → String) (last : Option (LogId L)) (i : ℕ) :
    (snapshotIdOf leaderText last i).toList =
      snapshotStem leaderText last ++ '-' :: (toString i).toList := by
  rcases last with - | last <;> simp [snapshotIdOf, snapshotStem, String.toList_append]

/-- **A name determines the last log id.** -/
theorem snapshotIdOf_inj {leaderText : L → String} (hinj : Function.Injective leaderText)
    {last last' : Option (LogId L)} {i i' : ℕ}
    (h : snapshotIdOf leaderText last i = snapshotIdOf leaderText last' i') : last = last' := by
  have hlist := congrArg String.toList h
  rw [toList_snapshotIdOf, toList_snapshotIdOf] at hlist
  obtain ⟨hstem, -⟩ := KeyText.append_separator_inj' (dash_notMem_toString i)
    (dash_notMem_toString i') hlist
  -- the name of a snapshot without a log id has no digits between its dashes
  have hnone (last : LogId L) : snapshotStem leaderText (some last) ≠ [] ++ '-' :: [] := fun heq =>
    toString_ne_nil last.index (KeyText.append_separator_inj' (dash_notMem_toString last.index)
      not_mem_nil heq).2
  rcases last with - | ⟨l, n⟩ <;> rcases last' with - | ⟨l', n'⟩
  · rfl
  · exact absurd hstem.symm (hnone _)
  · exact absurd hstem (hnone _)
  · obtain ⟨hl, hn⟩ := KeyText.append_separator_inj' (dash_notMem_toString n)
      (dash_notMem_toString n') hstem
    obtain rfl : l = l' := hinj (String.toList_inj.mp hl)
    obtain rfl := toString_inj hn
    rfl

theorem dash_lt_of_mem_toString {n : ℕ} {c : Char} (h : c ∈ (toString n).toList) : '-' < c := by
  rw [Nat.toString_eq_repr, Nat.repr, String.toList_ofList] at h
  obtain ⟨hge, -⟩ :=
    KeyText.toNat_of_isDigit (Nat.isDigit_of_mem_toDigits (by decide) (by decide) h)
  show '-'.toNat < c.toNat
  exact lt_of_lt_of_le (by decide) hge

/-- **Names of one leader** compare as the texts of the indexes, not as the indexes. -/
theorem snapshotIdOf_lt_iff (leaderText : L → String) {l : L} {n n' i i' : ℕ} (hne : n ≠ n') :
    snapshotIdOf leaderText (some ⟨l, n⟩) i < snapshotIdOf leaderText (some ⟨l, n'⟩) i' ↔
      toString n < toString n' := by
  have hdigits : (toString n).toList ≠ (toString n').toList := fun heq => hne (toString_inj heq)
  rw [String.lt_iff, toList_snapshotIdOf, toList_snapshotIdOf, snapshotStem, snapshotStem,
    append_assoc, append_assoc, KeyText.append_lt_append_iff rfl, cons_append,
    cons_append, cons_lt_cons_self,
    KeyText.append_separator_lt_iff (fun _ => dash_lt_of_mem_toString)
      (fun _ => dash_lt_of_mem_toString), String.lt_iff]
  constructor
  · rintro (h | ⟨-, h | ⟨heq, -⟩⟩)
    · exact absurd h (List.lt_irrefl _)
    · exact h
    · exact absurd heq hdigits
  · exact fun h => .inr ⟨rfl, .inl h⟩

/-! ### The directory -/

/-- The files are the snapshots that were written, under their names. -/
structure Snapshots.Stored (r : Snapshots L M) : Prop where
  of_file : ∀ (name : String) (file : SnapshotFile L M), r.sm.snapshotDir[name]? = some file →
    file.snapshotMeta ∈ r.written ∧ file.snapshotMeta.snapshotId = name
  file : ∀ w ∈ r.written, ∃ file, r.sm.snapshotDir[w.snapshotId]? = some file

variable {leaderText : L → String} {r : Snapshots L M}

theorem Snapshots.Stored.write (h : r.Stored) (file : SnapshotFile L M)
    {sm : RocksStateMachine L M} (hsm : sm.snapshotDir =
      r.sm.snapshotDir.insert file.snapshotMeta.snapshotId file) :
    Snapshots.Stored ⟨sm, r.written ++ [file.snapshotMeta]⟩ where
  of_file name file' hfile := by
    rw [hsm, Std.ExtTreeMap.getElem?_insert] at hfile
    split_ifs at hfile with hcmp
    · obtain ⟨⟩ := hfile
      exact ⟨by simp, Std.LawfulEqOrd.eq_of_compare hcmp⟩
    · obtain ⟨hmem, hname⟩ := h.of_file name file' hfile
      exact ⟨mem_append_left _ hmem, hname⟩
  file w hw := by
    simp only [hsm, Std.ExtTreeMap.getElem?_insert]
    split_ifs with hcmp
    · exact ⟨file, rfl⟩
    · rcases List.mem_append.mp hw with hw | hw
      · exact h.file w hw
      · rw [List.mem_singleton.mp hw] at hcmp
        exact absurd Std.ReflCmp.compare_self hcmp

/-- The snapshots that were written have the names that are built. -/
def Snapshots.Named (leaderText : L → String) (r : Snapshots L M) : Prop :=
  ∀ w ∈ r.written, ∃ i < 1000, w.snapshotId = snapshotIdOf leaderText w.lastLogId i

/-- **One call** stores what it writes. -/
theorem Snapshots.call_stored (c : Call L M) (hc : c.Built leaderText)
    (h : r.Stored ∧ r.Named leaderText) :
    (r.call leaderText c).Stored ∧ (r.call leaderText c).Named leaderText := by
  obtain ⟨hstored, hnamed⟩ := h
  -- the name of the snapshot that is written
  have hwrite (w : SnapshotMeta L M)
      (hw : ∃ i < 1000, w.snapshotId = snapshotIdOf leaderText w.lastLogId i) (sm) :
      Snapshots.Named leaderText ⟨sm, r.written ++ [w]⟩ := by
    intro w' hw'
    rcases List.mem_append.mp hw' with hw' | hw'
    · exact hnamed w' hw'
    · exact List.mem_singleton.mp hw' ▸ hw
  rcases c with ⟨last, membership, data⟩ | i | ⟨snapshotMeta, snapshot⟩
  · exact ⟨⟨hstored.of_file, hstored.file⟩, hnamed⟩
  · exact ⟨hstored.write (r.sm.buildSnapshot leaderText i).2 rfl, hwrite _ ⟨i, hc, rfl⟩ _⟩
  · exact ⟨hstored.write ⟨snapshotMeta, snapshot⟩ rfl, hwrite snapshotMeta hc _⟩

/-- **A run** stores what it writes. -/
theorem run_stored (lastMembership : M) {calls : List (Call L M)}
    (hcalls : ∀ c ∈ calls, c.Built leaderText) :
    (run leaderText lastMembership calls).Stored ∧
      (run leaderText lastMembership calls).Named leaderText := by
  induction calls using List.reverseRecOn with
  | nil => exact ⟨⟨fun name file h => by simp [run] at h, nofun⟩, nofun⟩
  | append_singleton calls c ih =>
    rw [run, foldl_append]
    exact Snapshots.call_stored c (hcalls c (by simp)) (ih fun c' hc' => hcalls c' (by simp [hc']))

/-! ### The current snapshot -/

/-- **The greatest of the names**, if there is a name. -/
theorem latestSnapshotId_spec (entries : List String) :
    RocksStateMachine.latestSnapshotId entries = none ∧ entries = [] ∨
      ∃ name ∈ entries, RocksStateMachine.latestSnapshotId entries = some name ∧
        ∀ name' ∈ entries, name' ≤ name := by
  induction entries using List.reverseRecOn with
  | nil => exact .inl ⟨rfl, rfl⟩
  | append_singleton entries snapshotId ih =>
    refine .inr ?_
    have hfold : RocksStateMachine.latestSnapshotId (entries ++ [snapshotId]) =
        match RocksStateMachine.latestSnapshotId entries with
        | none => some snapshotId
        | some current => if current < snapshotId then some snapshotId else some current := by
      rw [RocksStateMachine.latestSnapshotId, foldl_append]
      rfl
    rcases ih with ⟨hnone, rfl⟩ | ⟨current, hmem, hsome, hle⟩
    · exact ⟨snapshotId, by simp, by rw [hfold, hnone], by simp⟩
    · rw [hfold, hsome]
      by_cases hlt : current < snapshotId
      · refine ⟨snapshotId, by simp, by simp [hlt], fun name hname => ?_⟩
        rcases List.mem_append.mp hname with hname | hname
        · exact (hle name hname).trans hlt.le
        · exact (List.mem_singleton.mp hname).le
      · refine ⟨current, mem_append_left _ hmem, by simp [hlt], fun name hname => ?_⟩
        rcases List.mem_append.mp hname with hname | hname
        · exact hle name hname
        · exact (List.mem_singleton.mp hname) ▸ not_lt.mp hlt

/-- **The current snapshot** is the one whose name is the greatest text. -/
theorem Snapshots.Stored.getCurrentSnapshot (h : r.Stored) {entries : List String}
    (hentries : entries.Perm r.sm.snapshotDir.keys) :
    r.sm.getCurrentSnapshot entries = some none ∧ r.written = [] ∨
      ∃ file, r.sm.getCurrentSnapshot entries = some (some file) ∧
        file.snapshotMeta ∈ r.written ∧
        ∀ w ∈ r.written, w.snapshotId ≤ file.snapshotMeta.snapshotId := by
  have hmem (name : String) : name ∈ entries ↔ ∃ file, r.sm.snapshotDir[name]? = some file := by
    rw [hentries.mem_iff, Std.ExtTreeMap.mem_keys, ← Std.ExtTreeMap.isSome_getElem?_iff_mem,
      Option.isSome_iff_exists]
  rcases latestSnapshotId_spec entries with ⟨hnone, hnil⟩ | ⟨name, hname, hsome, hle⟩
  · refine .inl ⟨by rw [RocksStateMachine.getCurrentSnapshot, hnone], ?_⟩
    refine List.eq_nil_iff_forall_not_mem.mpr fun w hw => ?_
    have hentry := (hmem w.snapshotId).mpr (h.file w hw)
    rw [hnil] at hentry
    exact not_mem_nil hentry
  · obtain ⟨file, hfile⟩ := (hmem name).mp hname
    obtain ⟨hwritten, hid⟩ := h.of_file name file hfile
    refine .inr ⟨file, by simp [RocksStateMachine.getCurrentSnapshot, hsome, hfile], hwritten, ?_⟩
    intro w hw
    rw [hid]
    exact hle _ ((hmem w.snapshotId).mpr (h.file w hw))

/-- **The newest snapshot is current** exactly if one with the greatest last log id has a name that
is, as a text, above those with a smaller one. -/
theorem getCurrentSnapshot_newest_iff [LinearOrder L] (leaderText : L → String)
    (hinj : Function.Injective leaderText) (lastMembership : M) (calls : List (Call L M))
    (hcalls : ∀ c ∈ calls, c.Built leaderText) (entries : List String)
    (hentries : entries.Perm (run leaderText lastMembership calls).sm.snapshotDir.keys) :
    Newest (run leaderText lastMembership calls).written
        ((run leaderText lastMembership calls).sm.getCurrentSnapshot entries) ↔
      (run leaderText lastMembership calls).written = [] ∨
        ∃ w ∈ (run leaderText lastMembership calls).written,
          (∀ w' ∈ (run leaderText lastMembership calls).written, w'.lastLogId ≤ w.lastLogId) ∧
          ∀ w' ∈ (run leaderText lastMembership calls).written,
            w'.lastLogId < w.lastLogId → w'.snapshotId < w.snapshotId := by
  obtain ⟨hstored, hnamed⟩ := run_stored lastMembership hcalls
  generalize run leaderText lastMembership calls = r at *
  have hsame : ∀ w ∈ r.written, ∀ w' ∈ r.written, w.snapshotId = w'.snapshotId →
      w.lastLogId = w'.lastLogId := by
    intro w hw w' hw' heq
    obtain ⟨i, -, hi⟩ := hnamed w hw
    obtain ⟨i', -, hi'⟩ := hnamed w' hw'
    exact snapshotIdOf_inj hinj (hi.symm.trans (heq.trans hi'))
  rcases hstored.getCurrentSnapshot hentries with ⟨hnone, hnil⟩ | ⟨file, hsome, hmem, hle⟩
  · rw [hnone, hnil]
    exact iff_of_true rfl (.inl rfl)
  · rw [hsome]
    constructor
    · rintro ⟨-, hgreatest⟩
      refine .inr ⟨file.snapshotMeta, hmem, hgreatest, fun w hw hlt => ?_⟩
      refine lt_of_le_of_ne (hle w hw) fun heq => ?_
      rw [hsame w hw _ hmem heq] at hlt
      exact Raft.option_not_le_of_lt hlt (Raft.option_le_refl le_refl _)
    · rintro (hnil | ⟨w, hw, hgreatest, habove⟩)
      · rw [hnil] at hmem
        exact absurd hmem not_mem_nil
      · have hnewest : w.lastLogId ≤ file.snapshotMeta.lastLogId := by
          by_contra hnot
          have hlt := habove _ hmem (Raft.option_lt_of_not_le hnot)
          exact absurd (hle w hw) (not_le.mpr hlt)
        exact ⟨⟨_, hmem, rfl⟩, fun w' hw' =>
          Raft.option_le_trans (fun _ _ _ => le_trans) (hgreatest w' hw') hnewest⟩

/-- The second of two snapshots is current. -/
theorem getCurrentSnapshot_newest_two :
    let calls : List (Call ℕ Unit) := [.apply (some ⟨1, 8⟩) () [], .buildSnapshot 5,
      .apply (some ⟨1, 9⟩) () [], .buildSnapshot 7]
    Newest (run toString () calls).written
      ((run toString () calls).sm.getCurrentSnapshot ["1-8-5", "1-9-7"]) := by
  intro calls
  have hinj : Function.Injective (toString : ℕ → String) := fun m n h =>
    toString_inj (congrArg String.toList h)
  have hwritten : (run toString () calls).written =
      [⟨some ⟨1, 8⟩, (), "1-8-5"⟩, ⟨some ⟨1, 9⟩, (), "1-9-7"⟩] := by decide
  refine (getCurrentSnapshot_newest_iff toString hinj () calls (by simp [calls, Call.Built])
    ["1-8-5", "1-9-7"] (by decide)).mpr (.inr ⟨⟨some ⟨1, 9⟩, (), "1-9-7"⟩, ?_, ?_, ?_⟩)
  · rw [hwritten]
    decide
  · rw [hwritten]
    rintro w (_ | ⟨_, _ | ⟨_, ⟨⟩⟩⟩) <;> exact Option.some_le_some.mpr (by decide)
  · rw [hwritten]
    rintro w (_ | ⟨_, _ | ⟨_, ⟨⟩⟩⟩) hlt
    · decide
    · exact absurd (Raft.option_le_refl le_refl _) (Raft.option_not_le_of_lt hlt)

/-- The name "1-9-5" is above the name "1-10-7" of a newer snapshot. -/
theorem getCurrentSnapshot_not_newest :
    let calls : List (Call ℕ Unit) := [.apply (some ⟨1, 9⟩) () [], .buildSnapshot 5,
      .apply (some ⟨1, 10⟩) () [], .buildSnapshot 7]
    let entries := ["1-10-7", "1-9-5"]
    (∀ c ∈ calls, c.Built toString) ∧
      (run toString () calls).written.map SnapshotMeta.lastLogId =
        [some ⟨1, 9⟩, some ⟨1, 10⟩] ∧
      entries.Perm (run toString () calls).sm.snapshotDir.keys ∧
      ¬ Newest (run toString () calls).written
        ((run toString () calls).sm.getCurrentSnapshot entries) := by
  intro calls entries
  refine ⟨by simp [calls, Call.Built], by decide, by decide, fun h => ?_⟩
  have hcurrent : (run toString () calls).sm.getCurrentSnapshot entries =
      some (some ⟨⟨some ⟨1, 9⟩, (), "1-9-5"⟩, []⟩) := by
    decide
  rw [hcurrent] at h
  have hle := Option.some_le_some.mp (h.2 ⟨some ⟨1, 10⟩, (), "1-10-7"⟩ (by decide))
  exact absurd hle (by decide)

end RustExample.Libp2pTask
