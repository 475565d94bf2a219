import RustExample.Foundation.BigEndian
import RustExample.Foundation.Bitmap
import RustExample.Foundation.SubCopy
import RustExample.OpenraftCluster.Network.ProtoCodec

/-!
# Snapshots in parts

A snapshot is published as parts of a fixed size under a publication id. A node that holds some of
the parts describes them by metadata with a bitmap, and sends a peer parts that are not in the
bitmap of the peer.

Source: `src/network/openraft_sync.rs`.

* The JSON text of a payload and the random publication id are parameters.
* The copies of a node are a function of the publication id.
-/

namespace RustExample.OpenraftCluster

/-! ### Bytes -/

/-- The bytes from an offset on. -/
def slice (bytes : List UInt8) (offset len : ℕ) : List UInt8 := (bytes.drop offset).take len

/-- The bytes of a text. -/
def asBytes (s : String) : List UInt8 := s.toByteArray.data.toList

/-- Why a part is refused. -/
inductive PartialError
  | invalidFormat
  | wrongGroup (received : List UInt8)
  | outOfRange
deriving DecidableEq, Repr

/-- The text of some bytes. -/
def fromUtf8 (bytes : List UInt8) : Except PartialError String :=
  match String.fromUTF8? ⟨bytes.toArray⟩ with
  | some s => .ok s
  | none => .error .invalidFormat

/-! ### Records -/

def partSize : ℕ := 8 * 1024

def maxPartsPerMessage : ℕ := 4

def groupIdLen : ℕ := 16

def maxParts : ℕ := 65535

/-- The bytes `ORS1`. -/
def metadataMagic : List UInt8 := [0x4F, 0x52, 0x53, 0x31]

/-- A fresh id for a publication, as bytes and as text. -/
structure PublicationId where
  bytes : List UInt8
  text : String
  length_bytes : bytes.length = groupIdLen
  text_ne_empty : text ≠ ""
  length_text : (asBytes text).length < 2 ^ 16

/-- What the metadata tell. -/
structure OpenRaftSnapshotMetadata where
  groupId : String
  snapshotId : String
  snapshotSize : ℕ
  totalParts : ℕ
  bitmap : List UInt8
deriving DecidableEq

/-- The snapshot of a group. -/
structure OpenRaftSnapshotPayload (T : RpcTypes) where
  groupId : String
  vote : T.Vote
  snapshotMeta : T.SnapshotMeta
  data : List UInt8

/-- A snapshot of which parts have come. -/
structure OpenRaftSnapshotPartial where
  groupId : List UInt8
  raftGroupId : String
  snapshotId : String
  snapshotSize : ℕ
  parts : List (Option (List UInt8))
deriving DecidableEq

variable {T : RpcTypes}

namespace OpenRaftSnapshotPartial

/-- The source of a publication: it holds every part. -/
def fromPayload (json : JsonCodec (OpenRaftSnapshotPayload T)) (id : PublicationId)
    (payload : OpenRaftSnapshotPayload T) : Except String OpenRaftSnapshotPartial := do
  let bytes ← json.toVec payload
  let totalParts := max (chunkCount partSize bytes.length) 1
  if maxParts < totalParts then
    .error ("snapshot needs " ++ toString totalParts ++ " parts; max supported is " ++
      toString maxParts)
  else
    .ok
      { groupId := id.bytes
        raftGroupId := payload.groupId
        snapshotId := id.text
        snapshotSize := bytes.length
        parts := if bytes.isEmpty then [some []] else (chunks partSize bytes).map some }

/-- A copy that holds nothing yet. -/
def empty (groupId : List UInt8) (metadata : OpenRaftSnapshotMetadata) :
    OpenRaftSnapshotPartial where
  groupId
  raftGroupId := metadata.groupId
  snapshotId := metadata.snapshotId
  snapshotSize := metadata.snapshotSize
  parts := List.replicate metadata.totalParts none

variable (p : OpenRaftSnapshotPartial)

/-- The number of parts. -/
def totalParts : ℕ := p.parts.length % 2 ^ 16

/-- How many parts have come. -/
def presentParts : ℕ := held p.parts

/-- All parts have come. -/
def isComplete : Bool := p.parts.all Option.isSome

/-- The parts that have come. -/
def bitmap : List UInt8 := Bitmap.ofOptions p.parts

/-! ### Metadata -/

/-- The metadata of a copy. -/
def metadataBytes : List UInt8 :=
  metadataMagic ++ BigEndian.encode 2 p.totalParts ++ BigEndian.encode 8 p.snapshotSize ++
    BigEndian.encode 2 (asBytes p.raftGroupId).length ++ asBytes p.raftGroupId ++
    BigEndian.encode 2 (asBytes p.snapshotId).length ++ asBytes p.snapshotId ++ p.bitmap

end OpenRaftSnapshotPartial

/-- The length of the header. -/
def metadataHeaderLen (metadata : List UInt8) : Except PartialError ℕ :=
  if metadata.length < 18 ∨ metadata.take 4 ≠ metadataMagic then .error .invalidFormat
  else
    let groupIdLen := BigEndian.decode (slice metadata 14 2)
    let snapshotLenPos := 16 + groupIdLen
    if metadata.length < snapshotLenPos + 2 then .error .invalidFormat
    else
      let snapshotIdLen := BigEndian.decode (slice metadata snapshotLenPos 2)
      let headerLen := snapshotLenPos + 2 + snapshotIdLen
      if metadata.length < headerLen then .error .invalidFormat else .ok headerLen

/-- The check of the parts of the metadata, once they are cut out. -/
def checkMetadata (totalParts snapshotSize : ℕ) (groupId snapshotId bitmap : List UInt8) :
    Except PartialError OpenRaftSnapshotMetadata :=
  if totalParts = 0 then .error .invalidFormat
  else do
    let groupId ← fromUtf8 groupId
    let snapshotId ← fromUtf8 snapshotId
    if groupId = "" ∨ snapshotId = "" then .error .invalidFormat
    else if bitmap.length ≠ (totalParts + 7) / 8 then .error .invalidFormat
    else .ok ⟨groupId, snapshotId, snapshotSize, totalParts, bitmap⟩

/-- Reads the metadata. -/
def parseMetadata (metadata : List UInt8) : Except PartialError OpenRaftSnapshotMetadata := do
  let headerLen ← metadataHeaderLen metadata
  let groupIdLen := BigEndian.decode (slice metadata 14 2)
  let snapshotIdStart := 18 + groupIdLen
  checkMetadata (BigEndian.decode (slice metadata 4 2)) (BigEndian.decode (slice metadata 6 8))
    (slice metadata 16 groupIdLen) (slice metadata snapshotIdStart (headerLen - snapshotIdStart))
    (metadata.drop headerLen)

namespace OpenRaftSnapshotPartial

variable (p : OpenRaftSnapshotPartial)

/-- The metadata are those of the copy. -/
def metadataMatches (metadata : OpenRaftSnapshotMetadata) : Bool :=
  p.raftGroupId == metadata.groupId && p.snapshotId == metadata.snapshotId &&
    p.snapshotSize == metadata.snapshotSize && p.totalParts == metadata.totalParts

/-! ### Sending parts -/

/-- The parts held and not left out, up to a message's limit; `sent` are chosen already. -/
def selectParts (requested : List UInt8) : ℕ → ℕ → List (Option (List UInt8)) →
    List (ℕ × List UInt8)
  | _, _, [] => []
  | index, sent, part :: parts =>
    if Bitmap.test requested index then selectParts requested (index + 1) sent parts
    else
      match part with
      | none => selectParts requested (index + 1) sent parts
      | some bytes =>
        (index, bytes) ::
          if maxPartsPerMessage ≤ sent + 1 then []
          else selectParts requested (index + 1) (sent + 1) parts

/-- A part as it is sent: its index, its length and its bytes. -/
def encodePart (part : ℕ × List UInt8) : List UInt8 :=
  BigEndian.encode 2 part.1 ++ BigEndian.encode 2 part.2.length ++ part.2

/-- The parts and what follows them: the number of parts and the publication id. -/
def encodeBody (parts : List (ℕ × List UInt8)) : List UInt8 :=
  parts.flatMap encodePart ++ (BigEndian.encode 2 p.totalParts ++ p.groupId)

/-- What the peer does not need, by its metadata. -/
def requestedBy (peerMetadata : Option (List UInt8)) : Except PartialError (List UInt8) :=
  match peerMetadata with
  | none => .ok (List.replicate ((p.parts.length + 7) / 8) 0)
  | some metadata => do
    let metadata ← parseMetadata metadata
    if p.metadataMatches metadata then .ok metadata.bitmap else .error .invalidFormat

/-- Some parts that the peer lacks. -/
def encodePartsFor (peerMetadata : Option (List UInt8)) :
    Except PartialError (Option (List UInt8)) := do
  let requested ← p.requestedBy peerMetadata
  let parts := selectParts requested 0 0 p.parts
  if (parts.flatMap encodePart).isEmpty then .ok none else .ok (some (p.encodeBody parts))

/-! ### Receiving parts -/

/-- The parts of a body, put in one after the other. A part that is refused leaves those before it
in place. The count bounds their number. -/
def mergeParts : ℕ → List (Option (List UInt8)) → List UInt8 → Bool →
    List (Option (List UInt8)) × Except PartialError Bool
  | 0, parts, _, updated => (parts, .ok updated)
  | _ + 1, parts, [], updated => (parts, .ok updated)
  | n + 1, parts, byte :: bytes, updated =>
    let body := byte :: bytes
    if body.length < 4 then (parts, .error .invalidFormat)
    else
      let index := BigEndian.decode (slice body 0 2)
      let len := BigEndian.decode (slice body 2 2)
      let rest := body.drop 4
      if parts.length ≤ index ∨ rest.length < len then (parts, .error .outOfRange)
      else
        mergeParts n (putMissing parts index (rest.take len)) (rest.drop len)
          (updated || parts[index]? == some none)

/-- Merges the parts of a body. -/
def mergeBody (body : List UInt8) : OpenRaftSnapshotPartial × Except PartialError Bool :=
  if body.length < OpenraftCluster.groupIdLen + 2 then (p, .error .invalidFormat)
  else
    let trailerStart := body.length - OpenraftCluster.groupIdLen - 2
    let receivedGroupId := body.drop (trailerStart + 2)
    if BigEndian.decode (slice body trailerStart 2) ≠ p.totalParts then (p, .error .invalidFormat)
    else if receivedGroupId ≠ p.groupId then (p, .error (.wrongGroup receivedGroupId))
    else
      let (parts, result) := mergeParts trailerStart p.parts (body.take trailerStart) false
      ({ p with parts }, result)

/-- Merges a message, if there is one. -/
def mergeMessage (message : Option (List UInt8)) :
    OpenRaftSnapshotPartial × Except PartialError Bool :=
  match message with
  | none => (p, .ok false)
  | some body => p.mergeBody body

/-! ### The assembled snapshot -/

/-- The parts put together, if none is missing. -/
def assemble : List (Option (List UInt8)) → Except String (List UInt8)
  | [] => .ok []
  | none :: _ => .error "snapshot is missing parts"
  | some part :: parts => do
    let bytes ← assemble parts
    pure (part ++ bytes)

/-- Reads the snapshot. -/
def toPayload (json : JsonCodec (OpenRaftSnapshotPayload T)) :
    Except String (OpenRaftSnapshotPayload T) := do
  let bytes ← assemble p.parts
  if bytes.length ≠ p.snapshotSize then
    .error ("assembled snapshot size mismatch: expected " ++ toString p.snapshotSize ++ ", got " ++
      toString bytes.length)
  else json.fromSlice bytes

end OpenRaftSnapshotPartial

/-! ### Snapshots known to a node -/

/-- The copies of a node. -/
structure OpenRaftSyncState where
  partials : List UInt8 → Option OpenRaftSnapshotPartial
  installed : Finset (List UInt8)

/-- What an event brings. -/
structure OpenRaftSyncUpdate where
  copy : OpenRaftSnapshotPartial
  shouldRepublish : Bool
  firstComplete : Bool

namespace OpenRaftSyncState

def init : OpenRaftSyncState := ⟨fun _ => none, ∅⟩

variable (s : OpenRaftSyncState)

/-- Keeps a copy. -/
def put (groupId : List UInt8) (copy : OpenRaftSnapshotPartial) : OpenRaftSyncState :=
  { s with partials := Function.update s.partials groupId (some copy) }

/-- Keeps an own copy. -/
def insertLocal (copy : OpenRaftSnapshotPartial) : OpenRaftSyncState := s.put copy.groupId copy

/-- The copy a node has, or a new one without parts. -/
def entry (groupId : List UInt8) (remote : OpenRaftSnapshotMetadata) : OpenRaftSnapshotPartial :=
  (s.partials groupId).getD (.empty groupId remote)

/-- A peer announces a snapshot. -/
def handleAvailableAnnouncement (groupId metadata : List UInt8) :
    OpenRaftSyncState × Except PartialError (Option OpenRaftSnapshotPartial) :=
  if groupId ∈ s.installed then (s, .ok none)
  else
    match parseMetadata metadata with
    | .error e => (s, .error e)
    | .ok remote =>
      let copy := s.entry groupId remote
      (s.put groupId copy,
        if !copy.metadataMatches remote then .error .invalidFormat
        else if copy.isComplete then .ok none else .ok (some copy))

/-- Whether the sender has a part that the copy lacks. -/
def hasUsefulData (copy : OpenRaftSnapshotPartial) (remote : OpenRaftSnapshotMetadata) : Bool :=
  copy.parts.zipIdx.any fun part => part.1.isNone && Bitmap.test remote.bitmap part.2

/-- What is left to do once the parts are merged. -/
def finishPartial (groupId : List UInt8) (remote : OpenRaftSnapshotMetadata)
    (copy : OpenRaftSnapshotPartial) (updated : Bool) :
    OpenRaftSyncState × OpenRaftSyncUpdate :=
  let s := s.put groupId copy
  ({ s with installed := if copy.isComplete then insert groupId s.installed else s.installed },
    { copy
      shouldRepublish := updated || hasUsefulData copy remote
      firstComplete := copy.isComplete && decide (groupId ∉ s.installed) })

/-- A peer sends parts. -/
def handlePartial (groupId metadata : List UInt8) (message : Option (List UInt8)) :
    OpenRaftSyncState × Except PartialError OpenRaftSyncUpdate :=
  match parseMetadata metadata with
  | .error e => (s, .error e)
  | .ok remote =>
    let copy := s.entry groupId remote
    if !copy.metadataMatches remote then (s.put groupId copy, .error .invalidFormat)
    else
      match copy.mergeMessage message with
      | (copy, .error e) => (s.put groupId copy, .error e)
      | (copy, .ok updated) =>
        let (s, update) := s.finishPartial groupId remote copy updated
        (s, .ok update)

end OpenRaftSyncState

end RustExample.OpenraftCluster
