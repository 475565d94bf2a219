import RustExample.FileTransfer.Protocol
import RustExample.Foundation.Run

/-!
# The directory of received files

A file in the directory `received` is named after the hash of its content, and a group counts as
completed once its file is there. The group is recorded as completed before its file is written,
and the file is made before its bytes are, so both fail with the write.

Source: `libp2p_workspace_example/file_transfer/src/app.rs`, `file_protocol.rs`.

* The node receives files only; the groups of the files that it sends are complete from the start.
-/

namespace RustExample.FileTransfer

open Function

variable {hash : List UInt8 → String} {m : FilePartialMessage} {bytes b : List UInt8}
  {received : String → Option (List UInt8)} {fault : Option DiskFault}

/-! ### Writes -/

/-- No fault that keeps a new file from getting all of its bytes. -/
def WritesAll (bytes : List UInt8) : Option DiskFault → Prop
  | none => True
  | some (.write written _) => bytes.length ≤ written
  | some _ => False

theorem writeToDisk_of_exists (h : m.toBytes = .ok bytes) (hb : received (hash bytes) = some b) :
    (m.writeToDisk hash received fault).1 = received := by
  rw [FilePartialMessage.writeToDisk, h]
  rcases fault with _ | (_ | _ | ⟨written, noticed⟩) <;> simp [hb]

/-- A new file gets all its bytes unless there is a fault. -/
theorem writeToDisk_of_writesAll (h : m.toBytes = .ok bytes) (hb : received (hash bytes) = none)
    (hfault : WritesAll bytes fault) :
    (m.writeToDisk hash received fault).1 =
      update received (hash bytes) (some bytes) := by
  rw [FilePartialMessage.writeToDisk, h]
  rcases fault with _ | (_ | _ | ⟨written, noticed⟩)
  · simp [hb]
  · exact hfault.elim
  · exact hfault.elim
  · simp [hb, List.take_of_length_le hfault]

/-- What a write leaves under the hash of the content: all of it only without a fault. -/
theorem writesAll_of_writeToDisk (h : m.toBytes = .ok bytes) (hb : received (hash bytes) = none)
    (hwritten : (m.writeToDisk hash received fault).1 (hash bytes) = some bytes) :
    WritesAll bytes fault := by
  rw [FilePartialMessage.writeToDisk, h] at hwritten
  rcases fault with _ | (_ | _ | ⟨written, noticed⟩)
  · trivial
  · simp [hb] at hwritten
  · simp [hb] at hwritten
  · have hle : bytes.length ≤ written := by simpa [hb] using hwritten
    exact hle

/-! ### Sound directories -/

namespace AppState

variable {s : AppState} {e : PartialEvent}

/-- Every file is named after its content, and every completed group has its content in a file. -/
structure Sound (hash : List UInt8 → String) (s : AppState) : Prop where
  named : ∀ h bytes, s.received h = some bytes → hash bytes = h
  stored : ∀ g ∈ s.completedFiles, ∃ m bytes h, s.fileMessages g = some m ∧
    m.toBytes = .ok bytes ∧ s.received h = some bytes

/-- The message that an event completes for the first time. -/
def completes (s : AppState) (e : PartialEvent) : Option FilePartialMessage :=
  match (s.receive e).2 with
  | .ok (m, _) => if m.isComplete ∧ e.groupId ∉ s.completedFiles then some m else none
  | .error _ => none

/-- What an event completes has the declared size, and its content is in its file already, or the
file is new and written without a fault. -/
def Saves (hash : List UInt8 → String) (s : AppState) (e : PartialEvent) : Prop :=
  ∀ m, s.completes e = some m → ∃ bytes, m.toBytes = .ok bytes ∧
    (s.received (hash bytes) = some bytes ∨
      s.received (hash bytes) = none ∧ WritesAll bytes e.fault)

/-- One event. -/
def Step (hash : List UInt8 → String) (s : AppState) (e : PartialEvent) (s' : AppState) : Prop :=
  (s.handlePartial hash e).1 = s'

theorem handlePartial_of_completes_none (h : s.completes e = none) :
    (s.handlePartial hash e).1 = (s.receive e).1 := by
  have hcompleted : (s.receive e).1.completedFiles = s.completedFiles := by
    rcases s.receive_eq e with ⟨_, heq⟩ | ⟨m', heq, -⟩
    · rw [heq]
    · rw [heq]
      rfl
  rw [handlePartial]
  rw [completes] at h
  rcases hreceive : s.receive e with ⟨s', error | ⟨m, republish⟩⟩
  · rfl
  · simp only [hreceive] at h hcompleted ⊢
    rw [finish]
    split_ifs with hm hg
    · rfl
    · rw [hcompleted] at hg
      simp [hm, hg] at h
    · rfl

/-- An event that completes a message records it, and tries to write it. -/
theorem handlePartial_of_completes (hash : List UInt8 → String) (h : s.completes e = some m) :
    m.isComplete ∧ e.groupId ∉ s.completedFiles ∧ (s.handlePartial hash e).1 =
      { s.put e.groupId m with
        completedFiles := insert e.groupId s.completedFiles
        received := (m.writeToDisk hash s.received e.fault).1 } := by
  rw [completes] at h
  rcases hreceive : s.receive e with ⟨s', error | ⟨m', republish⟩⟩
  · simp [hreceive] at h
  · simp only [hreceive] at h
    split_ifs at h with hm
    obtain rfl := Option.some.inj h
    refine ⟨hm.1, hm.2, ?_⟩
    obtain rfl : s' = s.put e.groupId m' := by
      rcases s.receive_eq e with ⟨_, heq⟩ | ⟨m'', heq, -, hm'⟩
      · simp [hreceive] at heq
      · obtain rfl := hm' m' republish (by rw [hreceive])
        rw [← heq, hreceive]
    have hg : e.groupId ∉ (s.put e.groupId m').completedFiles := hm.2
    simp only [handlePartial, hreceive, finish, if_pos hm.1, if_neg hg]
    rfl

/-! ### One event -/

theorem Sound.of_not_completes (h : s.Sound hash) (he : s.completes e = none) :
    Sound hash (s.handlePartial hash e).1 := by
  rw [handlePartial_of_completes_none he]
  rcases s.receive_eq e with ⟨_, heq⟩ | ⟨m', heq, hkept, -⟩
  · rwa [heq]
  · rw [heq]
    refine ⟨h.named, fun g hg => ?_⟩
    obtain ⟨m, bytes, k, hm, hbytes, hk⟩ := h.stored g hg
    refine ⟨m, bytes, k, ?_, hbytes, hk⟩
    simp only [put, update_apply]
    split_ifs with hge
    · rw [hkept m (hge ▸ hm) (m.isComplete_of_toBytes hbytes)]
    · exact hm

/-- The files of completed groups stay, and the group of the event has its own. -/
theorem Sound.of_saves (h : s.Sound hash) (he : s.completes e = some m)
    (hbytes : m.toBytes = .ok bytes)
    (hsaves : s.received (hash bytes) = some bytes ∨
      s.received (hash bytes) = none ∧ WritesAll bytes e.fault) :
    Sound hash (s.handlePartial hash e).1 := by
  obtain ⟨-, hg, heq⟩ := handlePartial_of_completes hash he
  have hreceived : (m.writeToDisk hash s.received e.fault).1 =
      update s.received (hash bytes) (some bytes) := by
    rcases hsaves with hb | ⟨hb, hfault⟩
    · rw [writeToDisk_of_exists hbytes hb, ← hb, update_eq_self]
    · exact writeToDisk_of_writesAll hbytes hb hfault
  have hkeeps : ∀ k b, s.received k = some b →
      update s.received (hash bytes) (some bytes) k = some b := by
    intro k b hk
    rw [update_apply]
    split_ifs with hkey
    · rcases hsaves with hb | ⟨hb, -⟩
      · rw [← hb, ← hkey, hk]
      · simp [hkey ▸ hk] at hb
    · exact hk
  rw [heq, hreceived]
  refine ⟨fun k b hk => ?_, fun g hgs => ?_⟩
  · simp only [update_apply] at hk
    split_ifs at hk with hkey
    · rw [hkey, ← Option.some.inj hk]
    · exact h.named k b hk
  · rcases Finset.mem_insert.mp hgs with rfl | hgs
    · exact ⟨m, bytes, hash bytes, by simp [put], hbytes, by simp⟩
    · obtain ⟨m', bytes', k, hm', hbytes', hk⟩ := h.stored g hgs
      have hne : g ≠ e.groupId := by
        rintro rfl
        exact hg hgs
      exact ⟨m', bytes', k, by simpa [put, hne] using hm', hbytes', hkeeps k bytes' hk⟩

/-- **One event.** A sound directory stays sound exactly if the event saves what it completes. -/
theorem Sound.step_iff (h : s.Sound hash) :
    Sound hash (s.handlePartial hash e).1 ↔ s.Saves hash e := by
  constructor
  · intro h' m he
    obtain ⟨-, hg, heq⟩ := handlePartial_of_completes hash he
    rw [heq] at h'
    obtain ⟨m', bytes, k, hm', hbytes, hk⟩ := h'.stored e.groupId (Finset.mem_insert_self _ _)
    obtain rfl : m = m' := by simpa [put] using hm'
    obtain rfl : hash bytes = k := h'.named k bytes hk
    refine ⟨bytes, hbytes, ?_⟩
    cases hb : s.received (hash bytes) with
    | some b =>
      rw [show _ = s.received from writeToDisk_of_exists hbytes hb, hb] at hk
      exact .inl hk
    | none => exact .inr ⟨rfl, writesAll_of_writeToDisk hbytes hb hk⟩
  · intro hsaves
    cases he : s.completes e with
    | none => exact h.of_not_completes he
    | some m =>
      obtain ⟨bytes, hbytes, hsaves⟩ := hsaves m he
      exact h.of_saves he hbytes hsaves

end AppState

/-! ### Runs -/

open AppState

variable {s : AppState} {es : List PartialEvent}

/-- **The received files, exactly.** All along a run every file is named after its content and every
completed group has its content in a file, exactly if this held at the start and every event that
completes a group saves its content. -/
theorem always_sound_iff (run : Run (Step hash) (.init received) es s) :
    Run.Always (Step hash) (.init received) (Sound hash) es ↔
      (∀ h bytes, received h = some bytes → hash bytes = h) ∧
        Run.AtEvents (Step hash) (.init received) (Saves hash) es := by
  have hinit : Sound hash (.init received) ↔ ∀ h bytes, received h = some bytes → hash bytes = h :=
    ⟨fun h => h.named, fun h => ⟨h, by simp [AppState.init]⟩⟩
  rw [← hinit]
  refine run.always_iff (fun s e s₁ s₂ h₁ h₂ => h₁.symm.trans h₂) fun es s e s' _ hs hstep => ?_
  rw [← hstep]
  exact hs.step_iff

section Note

/-- A hash for the runs below: the bytes themselves as text. -/
def plainHash (bytes : List UInt8) : String := String.join (bytes.map fun b => toString b ++ " ")

/-- The file `a` with the bytes 1 and 2, in one part, as a message of a group. -/
def noteEvent (groupId : List UInt8) (fault : Option DiskFault) : PartialEvent where
  topicHash := fileTopic
  groupId
  message := some ([0, 0, 0, 2, 1, 2] ++ [0, 1] ++ groupId)
  metadata := some (metadataMagic ++ [0, 1] ++ [0, 0, 0, 0, 0, 0, 0, 2] ++ [0, 1, 0x61] ++ [1])
  fault

/-- An empty directory. -/
def emptyInit : AppState := .init fun _ => none

/-- The note of a group, put together. -/
def noteMessage (groupId : List UInt8) : FilePartialMessage :=
  { groupId, fileName := "a", fileSize := 2, parts := [some [1, 2]] }

/-- A file that is saved, and the same file in another group, whose content is there. -/
theorem always_sound_iff_note : Run.Always (Step plainHash) emptyInit (Sound plainHash)
    [noteEvent [7] none, noteEvent [8] none] := by
  have hsaves : ∀ {s : AppState} {g : List UInt8},
      s.completes (noteEvent g none) = some (noteMessage g) →
      s.received "1 2 " = some [1, 2] ∨ s.received "1 2 " = none →
      Saves plainHash s (noteEvent g none) := fun hs hreceived m hm =>
    ⟨[1, 2], by rw [← Option.some.inj (hs.symm.trans hm)]; rfl,
      hreceived.imp_right fun h => ⟨h, trivial⟩⟩
  have run : Run (fun s e s' => Step plainHash s e s' ∧ Saves plainHash s e) emptyInit
      [noteEvent [7] none, noteEvent [8] none] _ :=
    .cons ⟨rfl, hsaves (by decide +kernel) (.inr rfl)⟩ <|
    .cons ⟨rfl, hsaves (by decide +kernel) (.inl (by decide +kernel))⟩ .nil
  exact (always_sound_iff (run.imp fun _ _ _ h => h.1)).mpr
    ⟨nofun, Run.atEvents_of_run (fun _ _ _ _ h h' => h.symm.trans h') run⟩

/-- **A torn write is kept.** The write of the first group fails after one byte. The next message of
the group, and the same file in another one, are called duplicates. -/
theorem torn_write_is_kept : ∃ s₁ s₂ s₃,
    Step plainHash emptyInit (noteEvent [7] (some (.write 1 true))) s₁ ∧
    Step plainHash s₁ (noteEvent [7] none) s₂ ∧ Step plainHash s₂ (noteEvent [8] none) s₃ ∧
    (s₁.handlePartial plainHash (noteEvent [7] none)).2.2 = .duplicateUpdate ∧
    (s₂.handlePartial plainHash (noteEvent [8] none)).2.2 = .completedDuplicate "received/1 2 " ∧
    [7] ∈ s₃.completedFiles ∧ [8] ∈ s₃.completedFiles ∧ s₃.received "1 2 " = some [1] ∧
    ¬s₁.Sound plainHash ∧ ¬s₃.Sound plainHash := by
  refine ⟨_, _, _, rfl, rfl, rfl, by decide +kernel, by decide +kernel, by decide +kernel,
    by decide +kernel, by decide +kernel, fun h => ?_, fun h => ?_⟩
  · exact absurd (h.named "1 2 " [1] (by decide +kernel)) (by decide)
  · exact absurd (h.named "1 2 " [1] (by decide +kernel)) (by decide)

end Note

end RustExample.FileTransfer
