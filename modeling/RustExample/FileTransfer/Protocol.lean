import Mathlib.Data.Finset.Basic
import RustExample.Foundation.BigEndian
import RustExample.Foundation.Bitmap
import RustExample.Foundation.SubCopy

/-!
# Files in partial messages

A file comes in parts, in messages of any number of peers. A node collects the parts of a group,
and writes the file under the hash of its content when no part is missing.

Source: `libp2p_workspace_example/file_transfer/src/file_protocol.rs`, `app.rs`.

* The hash of a content, as hex text, is a parameter.
* The messages known to a node and the files of the directory `received` are functions of the
  group id and of the hash.
* The faults of the disk during an event are part of the event. After a fault of a write the file
  has some first bytes of its content; the last bytes are written in the background, so that the
  fault may go unnoticed.
-/

namespace RustExample.FileTransfer

/-! ### Messages -/

/-- Why a part is refused. -/
inductive PartialError where
  | invalidFormat
  | wrongGroup (received : List UInt8)
  | outOfRange
  deriving DecidableEq

/-- The bytes `FPM1`. -/
def metadataMagic : List UInt8 := [0x46, 0x50, 0x4D, 0x31]

/-- What the metadata tells. -/
structure FileMetadata where
  fileName : String
  fileSize : ℕ
  totalParts : ℕ
  bitmap : List UInt8
  deriving DecidableEq

/-- A file of which parts have come. -/
structure FilePartialMessage where
  groupId : List UInt8
  fileName : String
  fileSize : ℕ
  parts : List (Option (List UInt8))
  deriving DecidableEq

/-- `len` bytes from a position on. -/
def sliceAt (bytes : List UInt8) (offset len : ℕ) : List UInt8 := (bytes.drop offset).take len

/-- The length of the header. -/
def metadataHeaderLen (metadata : List UInt8) : Except PartialError ℕ :=
  if metadata.length < 16 ∨ metadata.take 4 ≠ metadataMagic then .error .invalidFormat
  else
    let headerLen := 16 + BigEndian.decode (sliceAt metadata 14 2)
    if metadata.length < headerLen then .error .invalidFormat else .ok headerLen

/-- Reads the metadata. -/
def parseMetadata (metadata : List UInt8) : Except PartialError FileMetadata :=
  match metadataHeaderLen metadata with
  | .error e => .error e
  | .ok headerLen =>
    let totalParts := BigEndian.decode (sliceAt metadata 4 2)
    if totalParts = 0 then .error .invalidFormat
    else
      match String.fromUTF8? ⟨(sliceAt metadata 16 (headerLen - 16)).toArray⟩ with
      | none => .error .invalidFormat
      | some fileName =>
        if fileName = "" then .error .invalidFormat
        else if metadata.length ≠ headerLen + (totalParts + 7) / 8 then .error .invalidFormat
        else
          .ok ⟨fileName, BigEndian.decode (sliceAt metadata 6 8), totalParts,
            metadata.drop headerLen⟩

/-- The parts of a body, put in one after the other. A part that is refused leaves those before it
in place. The count bounds their number. -/
def mergeParts : ℕ → List (Option (List UInt8)) → List UInt8 → Bool →
    List (Option (List UInt8)) × Except PartialError Bool
  | 0, parts, _, updated => (parts, .ok updated)
  | _ + 1, parts, [], updated => (parts, .ok updated)
  | n + 1, parts, byte :: bytes, updated =>
    let body := byte :: bytes
    if body.length < 4 then (parts, .error .invalidFormat)
    else
      let index := BigEndian.decode (sliceAt body 0 2)
      let len := BigEndian.decode (sliceAt body 2 2)
      let rest := body.drop 4
      if parts.length ≤ index ∨ rest.length < len then (parts, .error .outOfRange)
      else
        mergeParts n (putMissing parts index (rest.take len)) (rest.drop len)
          (updated || parts[index]? == some none)

/-- The directory is not made, the file is not made, or only some first bytes are written. -/
inductive DiskFault where
  | createDir
  | createFile
  | write (written : ℕ) (noticed : Bool)
  deriving DecidableEq

/-- What became of a file. -/
inductive FileWriteOutcome where
  | written (path : String)
  | duplicate (path : String)
  deriving DecidableEq

namespace FilePartialMessage

/-- A file without parts. -/
def empty (groupId : List UInt8) (metadata : FileMetadata) : FilePartialMessage :=
  ⟨groupId, metadata.fileName, metadata.fileSize, List.replicate metadata.totalParts none⟩

variable (m : FilePartialMessage)

/-- The number of parts. -/
def totalParts : ℕ := m.parts.length % 2 ^ 16

/-- The metadata are those of the file. -/
def metadataMatches (metadata : FileMetadata) : Bool :=
  m.fileName == metadata.fileName && m.fileSize == metadata.fileSize &&
    m.totalParts == metadata.totalParts

/-- Merges the parts of a body. -/
def mergeBody (body : List UInt8) : FilePartialMessage × Except PartialError Bool :=
  if body.length < m.groupId.length + 2 then (m, .error .invalidFormat)
  else
    let trailerStart := body.length - m.groupId.length - 2
    let receivedGroupId := body.drop (trailerStart + 2)
    if BigEndian.decode (sliceAt body trailerStart 2) ≠ m.totalParts then
      (m, .error .invalidFormat)
    else if receivedGroupId ≠ m.groupId then (m, .error (.wrongGroup receivedGroupId))
    else
      let (parts, result) := mergeParts trailerStart m.parts (body.take trailerStart) false
      ({ m with parts }, result)

/-- Merges a message, if there is one. -/
def mergeMessage (message : Option (List UInt8)) :
    FilePartialMessage × Except PartialError Bool :=
  match message with
  | none => (m, .ok false)
  | some body => m.mergeBody body

/-- All parts have come. -/
def isComplete : Bool := m.parts.all Option.isSome

/-- The parts put together, if none is missing. -/
def assemble : List (Option (List UInt8)) → Except String (List UInt8)
  | [] => .ok []
  | none :: _ => .error "file is missing parts"
  | some part :: parts => (assemble parts).map (part ++ ·)

/-- The content of the file. -/
def toBytes : Except String (List UInt8) :=
  match assemble m.parts with
  | .error e => .error e
  | .ok bytes =>
    if bytes.length ≠ m.fileSize then
      .error ("assembled file size mismatch: expected " ++ toString m.fileSize ++ ", got " ++
        toString bytes.length)
    else .ok bytes

/-- The path for a content hash. -/
def outputPath (contentHash : String) : String := "received/" ++ contentHash

/-- The files after the write, and its result. -/
def writeToDisk (hash : List UInt8 → String) (received : String → Option (List UInt8))
    (fault : Option DiskFault) :
    (String → Option (List UInt8)) × Except String FileWriteOutcome :=
  match m.toBytes with
  | .error e => (received, .error e)
  | .ok bytes =>
    let contentHash := hash bytes
    let path := outputPath contentHash
    match fault with
    | some .createDir => (received, .error "create_dir_all")
    | some .createFile => (received, .error "open")
    | _ =>
      if (received contentHash).isSome then (received, .ok (.duplicate path))
      else
        match fault with
        | some (.write written noticed) =>
          (Function.update received contentHash (some (bytes.take written)),
            if noticed then .error "write_all" else .ok (.written path))
        | _ => (Function.update received contentHash (some bytes), .ok (.written path))

end FilePartialMessage

/-! ### The main loop -/

/-- The topic of the files. -/
def fileTopic : String := "file-transfer"

/-- A partial message from a peer, with the faults of the disk while it is handled. -/
structure PartialEvent where
  topicHash : String
  groupId : List UInt8
  message : Option (List UInt8)
  metadata : Option (List UInt8)
  fault : Option DiskFault
  deriving DecidableEq

/-- The state of the receiver. -/
structure AppState where
  fileMessages : List UInt8 → Option FilePartialMessage
  completedFiles : Finset (List UInt8)
  received : String → Option (List UInt8)

/-- What the loop says about an event. -/
inductive Report where
  | otherTopic
  | missingMetadata
  | invalidMetadata (error : PartialError)
  | mismatchedMetadata
  | invalidBody (error : PartialError)
  | incomplete
  | completed (path : String)
  | completedDuplicate (path : String)
  | writeFailed (error : String)
  | duplicateUpdate
  deriving DecidableEq

namespace AppState

/-- Nothing was received yet. -/
def init (received : String → Option (List UInt8)) : AppState := ⟨fun _ => none, ∅, received⟩

variable (s : AppState)

/-- Keeps the file of a group. -/
def put (groupId : List UInt8) (m : FilePartialMessage) : AppState :=
  { s with fileMessages := Function.update s.fileMessages groupId (some m) }

/-- The message of a group, or a new one without parts. -/
def entry (groupId : List UInt8) (remote : FileMetadata) : FilePartialMessage :=
  (s.fileMessages groupId).getD (.empty groupId remote)

/-- Merge the parts of an event into the message of its group, or say why not. The flag tells
whether to republish the message. -/
def receive (e : PartialEvent) : AppState × Except Report (FilePartialMessage × Bool) :=
  if e.topicHash ≠ fileTopic then (s, .error .otherTopic)
  else
    match e.metadata with
    | none => (s, .error .missingMetadata)
    | some metadata =>
      match parseMetadata metadata with
      | .error error => (s, .error (.invalidMetadata error))
      | .ok remote =>
        let m := s.entry e.groupId remote
        if !m.metadataMatches remote then (s.put e.groupId m, .error .mismatchedMetadata)
        else
          let (m, merged) := m.mergeMessage e.message
          let s := s.put e.groupId m
          match merged with
          | .error error => (s, .error (.invalidBody error))
          | .ok updated =>
            let remoteHasUsefulData := m.parts.zipIdx.any fun part =>
              part.1.isNone && Bitmap.test remote.bitmap part.2
            (s, .ok (m, updated || remoteHasUsefulData))

/-- A complete message is written once. -/
def finish (hash : List UInt8 → String) (groupId : List UInt8) (m : FilePartialMessage)
    (fault : Option DiskFault) : AppState × Report :=
  if m.isComplete then
    if groupId ∈ s.completedFiles then (s, .duplicateUpdate)
    else
      let (received, result) := m.writeToDisk hash s.received fault
      ({ s with completedFiles := insert groupId s.completedFiles, received },
        match result with
        | .ok (.written path) => .completed path
        | .ok (.duplicate path) => .completedDuplicate path
        | .error error => .writeFailed error)
  else (s, .incomplete)

/-- The state after an event, the message to republish and the report. -/
def handlePartial (hash : List UInt8 → String) (e : PartialEvent) :
    AppState × Option FilePartialMessage × Report :=
  match s.receive e with
  | (s, .error report) => (s, none, report)
  | (s, .ok (m, republish)) =>
    let (s, report) := s.finish hash e.groupId m e.fault
    (s, if republish then some m else none, report)

end AppState

/-! ### Complete messages -/

variable {m : FilePartialMessage} {parts : List (Option (List UInt8))} {bytes : List UInt8}

theorem putMissing_of_complete (h : parts.all Option.isSome) (i : ℕ) (part : List UInt8) :
    putMissing parts i part = parts := by
  refine putMissing_of_ne (fun hi => ?_) part
  have hnone := List.all_eq_true.mp h none (List.mem_of_getElem? hi)
  simp at hnone

theorem mergeParts_of_complete (h : parts.all Option.isSome) (n : ℕ) (body : List UInt8)
    (updated : Bool) : (mergeParts n parts body updated).1 = parts := by
  induction n generalizing body updated with
  | zero => rfl
  | succ n ih =>
    cases body with
    | nil => rfl
    | cons byte bytes =>
      simp only [mergeParts]
      split_ifs
      · rfl
      · rfl
      · rw [putMissing_of_complete h]
        exact ih _ _

theorem FilePartialMessage.mergeBody_of_complete (h : m.isComplete) (body : List UInt8) :
    (m.mergeBody body).1 = m := by
  simp only [mergeBody]
  split_ifs
  · rfl
  · rfl
  · rfl
  · rw [mergeParts_of_complete h]

theorem FilePartialMessage.mergeMessage_of_complete (h : m.isComplete)
    (message : Option (List UInt8)) : (m.mergeMessage message).1 = m := by
  cases message with
  | none => rfl
  | some body => exact mergeBody_of_complete h body

theorem FilePartialMessage.isComplete_of_toBytes (h : m.toBytes = .ok bytes) : m.isComplete := by
  have hassemble : ∀ {parts : List (Option (List UInt8))} {bytes : List UInt8},
      assemble parts = .ok bytes → parts.all Option.isSome := by
    intro parts
    induction parts with
    | nil => exact fun _ => rfl
    | cons part parts ih =>
      intro bytes h
      cases part with
      | none => simp [assemble] at h
      | some part =>
        rw [assemble] at h
        cases hparts : assemble parts with
        | error e => simp [hparts, Except.map] at h
        | ok bytes => simpa using ih hparts
  rw [toBytes] at h
  cases hparts : assemble m.parts with
  | error e => simp [hparts] at h
  | ok bytes => exact hassemble hparts

namespace AppState

variable {s : AppState} {e : PartialEvent} {g : List UInt8}

/-- Receiving parts touches the message of the group only, and no complete one. -/
theorem receive_eq (s : AppState) (e : PartialEvent) :
    (∃ report, s.receive e = (s, .error report)) ∨ ∃ m', (s.receive e).1 = s.put e.groupId m' ∧
      (∀ m, s.fileMessages e.groupId = some m → m.isComplete → m' = m) ∧
      ∀ m'' republish, (s.receive e).2 = .ok (m'', republish) → m'' = m' := by
  have hentry : ∀ remote m, s.fileMessages e.groupId = some m → s.entry e.groupId remote = m := by
    intro remote m hm
    rw [entry, hm, Option.getD_some]
  simp only [receive]
  split_ifs
  · exact .inl ⟨_, rfl⟩
  cases e.metadata with
  | none => exact .inl ⟨_, rfl⟩
  | some metadata =>
    cases hparse : parseMetadata metadata with
    | error error => exact .inl ⟨.invalidMetadata error, by simp [hparse]⟩
    | ok remote =>
      simp only [hparse]
      split_ifs with hmatches
      · exact .inr ⟨_, rfl, fun m hm _ => hentry remote m hm, by simp⟩
      · have hmerge : ∀ m, s.fileMessages e.groupId = some m → m.isComplete →
            ((s.entry e.groupId remote).mergeMessage e.message).1 = m := fun m hm hcomplete => by
          rw [hentry remote m hm]
          exact FilePartialMessage.mergeMessage_of_complete hcomplete _
        cases hmerged : ((s.entry e.groupId remote).mergeMessage e.message).2 with
        | error error => exact .inr ⟨_, rfl, hmerge, by simp⟩
        | ok updated =>
          refine .inr ⟨_, rfl, hmerge, fun m'' republish h => ?_⟩
          obtain ⟨rfl, -⟩ := by simpa using h
          rfl

end AppState

end RustExample.FileTransfer
