import RustExample.OpenraftCluster.SnapshotSync.Wire

/-!
# The exchange of snapshot parts

One node publishes a snapshot. Copies of it are handed to the gossip layer, which describes them
to peers and sends peers the parts they lack; what is sent may be lost, repeated, reordered or
sent again by any holder. Other publications go on beside it, and nothing is assumed of those.
-/

namespace RustExample.OpenraftCluster

open Function OpenRaftSnapshotPartial List

variable {T : RpcTypes} {json : JsonCodec (OpenRaftSnapshotPayload T)}
  {payload : OpenRaftSnapshotPayload T} {source : OpenRaftSnapshotPartial}
  {parts : List (List UInt8)}

/-! ### The source -/

/-- A source that holds `parts`, which together are the payload. -/
structure SourceOf (json : JsonCodec (OpenRaftSnapshotPayload T))
    (payload : OpenRaftSnapshotPayload T) (source : OpenRaftSnapshotPartial)
    (parts : List (List UInt8)) : Prop where
  parts_eq : source.parts = parts.map some
  described : source.Described
  groupId_length : source.groupId.length = groupIdLen
  part_length : ∀ part ∈ parts, part.length < 2 ^ 16
  size_eq : parts.flatten.length = source.snapshotSize
  payload_eq : json.fromSlice parts.flatten = .ok payload

/-- The parts that a source makes of some bytes. -/
def cutParts (bytes : List UInt8) : List (List UInt8) :=
  if bytes.isEmpty then [[]] else chunks partSize bytes

theorem partSize_pos : 0 < partSize := by decide

theorem flatten_cutParts (bytes : List UInt8) : (cutParts bytes).flatten = bytes := by
  rw [cutParts]
  split_ifs with h
  · rw [List.isEmpty_iff.mp h]
    rfl
  · exact flatten_chunks partSize_pos bytes

theorem length_cutParts (bytes : List UInt8) :
    (cutParts bytes).length = max (chunkCount partSize bytes.length) 1 := by
  rw [cutParts]
  split_ifs with h
  · rw [List.isEmpty_iff.mp h]
    rfl
  · have hpos : 0 < bytes.length := List.length_pos_iff.mpr fun hnil => h (by rw [hnil]; rfl)
    have hcount : 0 < chunkCount partSize bytes.length :=
      (lt_chunkCount partSize_pos).mpr (by omega)
    rw [length_chunks]
    omega

theorem length_of_mem_cutParts {bytes part : List UInt8} (h : part ∈ cutParts bytes) :
    part.length < 2 ^ 16 := by
  rw [cutParts] at h
  split_ifs at h
  · rw [List.mem_singleton.mp h]
    exact Nat.two_pow_pos 16
  · obtain ⟨i, -, rfl⟩ := List.mem_map.mp h
    have hle := chunkLen_le partSize bytes.length i
    rw [length_chunk]
    exact hle.trans_lt (by decide)

theorem sourceOf_fromPayload {id : PublicationId} (hgroup : GroupIdFits payload.groupId)
    (h : fromPayload json id payload = .ok source) :
    ∃ parts, SourceOf json payload source parts := by
  obtain ⟨bytes, hbytes, h⟩ := bind_eq_ok.mp h
  obtain ⟨hmax, h⟩ := guard_eq_ok.mp h
  have hlen := length_cutParts bytes
  have hmaxParts : maxParts < 2 ^ 16 := by decide
  refine ⟨cutParts bytes, ?_⟩
  have hparts : (if bytes.isEmpty then [some []] else (chunks partSize bytes).map some) =
      (cutParts bytes).map some := by
    rw [cutParts]
    split_ifs
    · rfl
    · rfl
  rw [hparts] at h
  cases h
  refine ⟨rfl, ⟨?_, ?_, ?_, hgroup, id.text_ne_empty, id.length_text⟩, id.length_bytes,
    fun part => length_of_mem_cutParts, ?_, ?_⟩
  · show 0 < ((cutParts bytes).map some).length
    rw [length_map]
    omega
  · show ((cutParts bytes).map some).length < 2 ^ 16
    rw [length_map]
    omega
  · exact (json.bounded hbytes).trans maxBufferLen_lt
  · rw [flatten_cutParts]
  · rw [flatten_cutParts]
    exact json.lossless hbytes

/-! ### Honest copies -/

/-- A copy of the publication that holds parts of the source only. -/
structure HonestCopy (source : OpenRaftSnapshotPartial) (parts : List (List UInt8))
    (p : OpenRaftSnapshotPartial) : Prop where
  groupId : p.groupId = source.groupId
  raftGroupId : p.raftGroupId = source.raftGroupId
  snapshotId : p.snapshotId = source.snapshotId
  snapshotSize : p.snapshotSize = source.snapshotSize
  sub : SubCopy parts p.parts

/-- Parts of the source, as they are sent. -/
def HonestBody (source : OpenRaftSnapshotPartial) (parts : List (List UInt8))
    (body : List UInt8) : Prop :=
  ∃ pieces : List (ℕ × List UInt8), (∀ q ∈ pieces, parts[q.1]? = some q.2) ∧
    body = source.encodeBody pieces

/-- What some honest copy says of itself. -/
def HonestMetadata (source : OpenRaftSnapshotPartial) (parts : List (List UInt8))
    (metadata : List UInt8) : Prop :=
  ∃ p, HonestCopy source parts p ∧ metadata = p.metadataBytes

namespace HonestCopy

variable {p q : OpenRaftSnapshotPartial}

theorem length_eq (hs : SourceOf json payload source parts) (h : HonestCopy source parts p) :
    p.parts.length = source.parts.length := by
  rw [h.sub.length_eq, hs.parts_eq, length_map]

theorem self (hs : SourceOf json payload source parts) : HonestCopy source parts source where
  groupId := rfl
  raftGroupId := rfl
  snapshotId := rfl
  snapshotSize := rfl
  sub := by
    rw [hs.parts_eq]
    exact subCopy_source parts

theorem described (hs : SourceOf json payload source parts) (h : HonestCopy source parts p) :
    p.Described where
  parts_pos := by
    rw [h.length_eq hs]
    exact hs.described.parts_pos
  parts_lt := by
    rw [h.length_eq hs]
    exact hs.described.parts_lt
  size_lt := by
    rw [h.snapshotSize]
    exact hs.described.size_lt
  group := by
    rw [h.raftGroupId]
    exact hs.described.group
  snapshotId_ne := by
    rw [h.snapshotId]
    exact hs.described.snapshotId_ne
  snapshotId_lt := by
    rw [h.snapshotId]
    exact hs.described.snapshotId_lt

theorem totalParts_eq (hs : SourceOf json payload source parts) (h : HonestCopy source parts p) :
    p.totalParts = source.totalParts := by
  rw [totalParts, h.length_eq hs, totalParts]

/-- Honest copies agree on what they are copies of. -/
theorem metadataMatches (hs : SourceOf json payload source parts) (h : HonestCopy source parts p)
    (hq : HonestCopy source parts q) : p.metadataMatches q.metadata = true := by
  have htotal : p.totalParts = q.parts.length := by
    rw [h.totalParts_eq hs, hs.described.totalParts_eq, hq.length_eq hs]
  simp [OpenRaftSnapshotPartial.metadataMatches, OpenRaftSnapshotPartial.metadata, htotal,
    h.raftGroupId, hq.raftGroupId, h.snapshotId, hq.snapshotId, h.snapshotSize, hq.snapshotSize]

/-- A copy that starts from the metadata of an honest copy. -/
theorem empty (hq : HonestCopy source parts q) :
    HonestCopy source parts (.empty source.groupId q.metadata) where
  groupId := rfl
  raftGroupId := hq.raftGroupId
  snapshotId := hq.snapshotId
  snapshotSize := hq.snapshotSize
  sub := by
    show SubCopy parts (List.replicate q.parts.length none)
    rw [hq.sub.length_eq]
    exact subCopy_replicate parts

theorem mergeBody (hs : SourceOf json payload source parts) (h : HonestCopy source parts p)
    {pieces : List (ℕ × List UInt8)} (hpieces : ∀ r ∈ pieces, parts[r.1]? = some r.2) :
    p.mergeBody (source.encodeBody pieces) =
      ({ p with parts := mergePieces p.parts pieces },
        .ok (decide (held p.parts < held (mergePieces p.parts pieces)))) := by
  refine mergeBody_encodeBody h.groupId (h.totalParts_eq hs)
    hs.groupId_length (h.described hs).parts_lt fun r hr => ?_
  have hpart := hpieces r hr
  refine ⟨?_, hs.part_length r.2 (mem_of_getElem? hpart)⟩
  rw [h.sub.length_eq]
  exact (List.getElem?_eq_some_iff.mp hpart).1

theorem mergePieces (h : HonestCopy source parts p) {pieces : List (ℕ × List UInt8)}
    (hpieces : ∀ r ∈ pieces, parts[r.1]? = some r.2) :
    HonestCopy source parts { p with parts := mergePieces p.parts pieces } :=
  ⟨h.groupId, h.raftGroupId, h.snapshotId, h.snapshotSize, h.sub.mergePieces hpieces⟩

theorem mergeMessage (hs : SourceOf json payload source parts) (h : HonestCopy source parts p)
    {message : Option (List UInt8)} (hm : ∀ body ∈ message, HonestBody source parts body) :
    HonestCopy source parts (p.mergeMessage message).1 := by
  cases message with
  | none => exact h
  | some body =>
    obtain ⟨pieces, hpieces, rfl⟩ := hm body rfl
    show HonestCopy source parts (p.mergeBody (source.encodeBody pieces)).1
    rw [h.mergeBody hs hpieces]
    exact h.mergePieces hpieces

theorem encodeBody_eq (hs : SourceOf json payload source parts) (h : HonestCopy source parts p)
    (pieces : List (ℕ × List UInt8)) : p.encodeBody pieces = source.encodeBody pieces := by
  simp only [encodeBody, h.totalParts_eq hs, h.groupId]

/-- What an honest copy holds is in the source, also where it is chosen to be sent. -/
theorem getElem?_of_selected (h : HonestCopy source parts p) {requested : List UInt8} :
    ∀ r ∈ selectParts requested 0 0 p.parts, parts[r.1]? = some r.2 := by
  intro r hr
  obtain ⟨k, hk, hpart, -⟩ := mem_selectParts hr
  rw [hk, Nat.zero_add]
  exact h.sub.part hpart

/-- Whatever the metadata of the peer, an honest copy sends parts of the source. -/
theorem encodePartsFor (hs : SourceOf json payload source parts) (h : HonestCopy source parts p)
    {peerMetadata : Option (List UInt8)} {body : List UInt8}
    (hbody : p.encodePartsFor peerMetadata = .ok (some body)) : HonestBody source parts body := by
  obtain ⟨requested, -, hbody⟩ := bind_eq_ok.mp hbody
  dsimp only at hbody
  split_ifs at hbody
  · cases hbody
  · cases hbody
    exact ⟨_, h.getElem?_of_selected, h.encodeBody_eq hs _⟩

/-! ### Complete copies -/

theorem isComplete_iff (h : HonestCopy source parts p) :
    p.isComplete = true ↔ ∀ i < parts.length, ∃ part, p.parts[i]? = some (some part) := by
  rw [isComplete, all_eq_true]
  constructor
  · intro hall i hi
    have hlt : i < p.parts.length := by rwa [h.sub.length_eq]
    have hpart := hall _ (getElem_mem hlt)
    obtain ⟨part, hsome⟩ := Option.isSome_iff_exists.mp hpart
    exact ⟨part, by rw [getElem?_eq_getElem hlt, hsome]⟩
  · intro hall o ho
    obtain ⟨i, hi, rfl⟩ := getElem_of_mem ho
    obtain ⟨part, hpart⟩ := hall i (by rwa [← h.sub.length_eq])
    rw [getElem?_eq_getElem hi, Option.some.injEq] at hpart
    rw [hpart]
    rfl

theorem assemble_map_some (parts : List (List UInt8)) :
    assemble (parts.map some) = .ok parts.flatten := by
  induction parts with
  | nil => rfl
  | cons part parts ih =>
    rw [map_cons, assemble, ih]
    rfl

theorem toPayload (hs : SourceOf json payload source parts) (h : HonestCopy source parts p)
    (hall : p.isComplete = true) : p.toPayload json = .ok payload := by
  have hsize : ¬ parts.flatten.length ≠ p.snapshotSize := by
    rw [h.snapshotSize]
    exact not_not.mpr hs.size_eq
  rw [OpenRaftSnapshotPartial.toPayload, h.sub.eq_of_complete hall, assemble_map_some, ok_bind,
    if_neg hsize, hs.payload_eq]

/-! ### Progress -/

/-- A part that the bitmap of an honest copy lacks is missing from it. -/
theorem missing_of_test (h : HonestCopy source parts p) {i : ℕ} (hi : i < parts.length)
    (htest : Bitmap.test p.bitmap i = false) : p.parts[i]? = some none := by
  refine (h.sub.getElem?_cases hi).resolve_right fun hpart => ?_
  rw [getElem?_eq_getElem hi, Option.map_some] at hpart
  have htrue := (Bitmap.test_ofOptions p.parts i).mpr ⟨_, hpart⟩
  rw [bitmap, htrue] at htest
  cases htest

/-- A part that a peer lacks is sent to it, and brings it further. -/
theorem progress (hs : SourceOf json payload source parts) (h : HonestCopy source parts p)
    (hq : HonestCopy source parts q) {i : ℕ} {part : List UInt8}
    (hpart : p.parts[i]? = some (some part)) (htest : Bitmap.test q.bitmap i = false) :
    ∃ body, p.encodePartsFor (some q.metadataBytes) = .ok (some body) ∧
      (q.mergeBody body).2 = .ok true ∧ q.presentParts < (q.mergeBody body).1.presentParts := by
  have hrequested : p.requestedBy (some q.metadataBytes) = .ok q.bitmap := by
    rw [requestedBy,
      parseMetadata_metadataBytes (hq.described hs), ok_bind,
      if_pos (h.metadataMatches hs hq)]
    rfl
  have hne : selectParts q.bitmap 0 0 p.parts ≠ [] :=
    selectParts_ne_nil hpart (by rwa [Nat.zero_add])
  obtain ⟨first, rest, hfirst⟩ := exists_cons_of_ne_nil hne
  have hbody : ¬ ((selectParts q.bitmap 0 0 p.parts).flatMap
      encodePart).isEmpty := by
    intro hempty
    have hlen := congrArg List.length (List.isEmpty_iff.mp hempty)
    rw [hfirst, flatMap_cons, length_append,
      length_encodePart, length_nil] at hlen
    omega
  have hencode : p.encodePartsFor (some q.metadataBytes) =
      .ok (some (p.encodeBody (selectParts q.bitmap 0 0 p.parts))) := by
    rw [OpenRaftSnapshotPartial.encodePartsFor, hrequested, ok_bind]
    exact if_neg hbody
  -- the first part that is sent is one that the peer lacks
  have hmem : first ∈ selectParts q.bitmap 0 0 p.parts := by
    rw [hfirst]
    exact mem_cons_self
  obtain ⟨-, -, -, hlacks⟩ := mem_selectParts hmem
  have hin : first.1 < parts.length :=
    (List.getElem?_eq_some_iff.mp (h.getElem?_of_selected first hmem)).1
  have hlt := held_lt_mergePieces hmem (hq.missing_of_test hin hlacks)
  have hselected : ∀ r ∈ selectParts q.bitmap 0 0 p.parts,
      parts[r.1]? = some r.2 := h.getElem?_of_selected
  have hmerge := hq.mergeBody hs hselected
  refine ⟨_, hencode, ?_, ?_⟩
  · rw [h.encodeBody_eq hs, hmerge, decide_eq_true hlt]
  · rw [h.encodeBody_eq hs, hmerge]
    exact hlt

end HonestCopy

/-! ### What a node does with what it gets -/

namespace OpenRaftSyncState

variable {s : OpenRaftSyncState} {groupId metadata : List UInt8}

@[simp] theorem put_installed (s : OpenRaftSyncState) (groupId : List UInt8)
    (copy : OpenRaftSnapshotPartial) : (s.put groupId copy).installed = s.installed := rfl

theorem handlePartial_partials (s : OpenRaftSyncState) (groupId metadata : List UInt8)
    (message : Option (List UInt8)) :
    (s.handlePartial groupId metadata message).1.partials = s.partials ∨
      ∃ remote copy, parseMetadata metadata = .ok remote ∧
        (copy = s.entry groupId remote ∨
          copy = ((s.entry groupId remote).mergeMessage message).1) ∧
        (s.handlePartial groupId metadata message).1.partials =
          update s.partials groupId (some copy) := by
  rw [handlePartial]
  cases hparse : parseMetadata metadata with
  | error e => exact .inl rfl
  | ok remote =>
    refine .inr ⟨remote, ?_⟩
    dsimp only
    split_ifs with hmatch
    · exact ⟨_, rfl, .inl rfl, rfl⟩
    · cases hmerge : (s.entry groupId remote).mergeMessage message with
      | mk copy result =>
        cases result with
        | error e => exact ⟨copy, rfl, .inr rfl, rfl⟩
        | ok updated => exact ⟨copy, rfl, .inr rfl, rfl⟩

/-- A message makes a node report the completion of a publication only if it had not done so. -/
theorem handlePartial_installed (s : OpenRaftSyncState) (groupId metadata : List UInt8)
    (message : Option (List UInt8)) :
    s.installed ⊆ (s.handlePartial groupId metadata message).1.installed ∧
      ∀ update, (s.handlePartial groupId metadata message).2 = .ok update →
        update.firstComplete = true →
          groupId ∉ s.installed ∧
            groupId ∈ (s.handlePartial groupId metadata message).1.installed := by
  rw [handlePartial]
  cases hparse : parseMetadata metadata with
  | error e => exact ⟨subset_rfl, fun update hok => by cases hok⟩
  | ok remote =>
    dsimp only
    split_ifs with hmatch
    · exact ⟨subset_rfl, fun update hok => by cases hok⟩
    · cases hmerge : (s.entry groupId remote).mergeMessage message with
      | mk copy result =>
        cases result with
        | error e => exact ⟨subset_rfl, fun update hok => by cases hok⟩
        | ok updated =>
          refine ⟨?_, fun update hok hfirst => ?_⟩
          · show s.installed ⊆ if copy.isComplete then insert groupId s.installed else s.installed
            split_ifs
            · exact Finset.subset_insert _ _
            · exact subset_rfl
          · cases hok
            obtain ⟨hcomplete, hnew⟩ := Bool.and_eq_true_iff.mp hfirst
            refine ⟨of_decide_eq_true hnew, ?_⟩
            show groupId ∈ if copy.isComplete then insert groupId s.installed else s.installed
            rw [if_pos hcomplete]
            exact Finset.mem_insert_self _ _

theorem handleAvailableAnnouncement_state (s : OpenRaftSyncState) (groupId metadata : List UInt8) :
    (s.handleAvailableAnnouncement groupId metadata).1 = s ∨
      ∃ remote, parseMetadata metadata = .ok remote ∧
        (s.handleAvailableAnnouncement groupId metadata).1 =
          s.put groupId (s.entry groupId remote) := by
  rw [handleAvailableAnnouncement]
  split_ifs with hinstalled
  · exact .inl rfl
  · cases hparse : parseMetadata metadata with
    | error e => exact .inl rfl
    | ok remote => exact .inr ⟨remote, rfl, rfl⟩

end OpenRaftSyncState

/-! ### The exchange -/

/-- The nodes, the copies handed to gossip, and what was ever sent about the publication. -/
structure Exchange (N : Type) where
  nodes : N → OpenRaftSyncState
  copies : List OpenRaftSnapshotPartial
  metadatas : List (List UInt8)
  bodies : List (List UInt8)

/-- What may happen. -/
inductive ExchangeEvent (N : Type)
  /-- A node holds the source and hands it out. -/
  | publish (node : N)
  /-- A node hands its copy out again. -/
  | handOut (node : N) (copy : OpenRaftSnapshotPartial)
  /-- The gossip layer describes a copy to peers. -/
  | advertise (copy : OpenRaftSnapshotPartial)
  /-- The gossip layer sends parts of a copy, for whatever it knows of the peer. -/
  | send (copy : OpenRaftSnapshotPartial) (peerMetadata : Option (List UInt8))
      (body : List UInt8)
  | announce (node : N) (groupId metadata : List UInt8)
  | receive (node : N) (groupId metadata : List UInt8) (message : Option (List UInt8))
      (result : Except PartialError OpenRaftSyncUpdate)

namespace Exchange

variable {N : Type} [DecidableEq N]

def init : Exchange N := ⟨fun _ => .init, [], [], []⟩

/-- A node comes to a state. -/
def setNode (s : Exchange N) (n : N) (state : OpenRaftSyncState) : Exchange N :=
  { s with nodes := update s.nodes n state }

@[simp] theorem setNode_nodes_self (s : Exchange N) (n : N) (state : OpenRaftSyncState) :
    (s.setNode n state).nodes n = state := update_self _ _ _

@[simp] theorem setNode_nodes_of_ne (s : Exchange N) {n m : N} (h : m ≠ n)
    (state : OpenRaftSyncState) : (s.setNode n state).nodes m = s.nodes m :=
  update_of_ne h _ _

/-- A copy of a publication that a node has or that was handed out. -/
def Holder (s : Exchange N) (groupId : List UInt8) (p : OpenRaftSnapshotPartial) : Prop :=
  (∃ n, (s.nodes n).partials groupId = some p) ∨ p ∈ s.copies

end Exchange

variable {N : Type} [DecidableEq N]

/-- A step of the exchange. About the publication of `source` a node gets only what was sent, in any
combination; about others it may get anything. -/
inductive ExchangeStep (source : OpenRaftSnapshotPartial) :
    Exchange N → ExchangeEvent N → Exchange N → Prop
  | publish (s : Exchange N) (n : N) :
      ExchangeStep source s (.publish n)
        { s.setNode n ((s.nodes n).insertLocal source) with copies := source :: s.copies }
  | handOut (s : Exchange N) (n : N) (copy : OpenRaftSnapshotPartial)
      (h : (s.nodes n).partials source.groupId = some copy) :
      ExchangeStep source s (.handOut n copy) { s with copies := copy :: s.copies }
  | advertise (s : Exchange N) (copy : OpenRaftSnapshotPartial) (h : copy ∈ s.copies) :
      ExchangeStep source s (.advertise copy)
        { s with metadatas := copy.metadataBytes :: s.metadatas }
  | send (s : Exchange N) (copy : OpenRaftSnapshotPartial) (peerMetadata : Option (List UInt8))
      (body : List UInt8) (h : copy ∈ s.copies)
      (hbody : copy.encodePartsFor peerMetadata = .ok (some body)) :
      ExchangeStep source s (.send copy peerMetadata body)
        { s with
          metadatas := copy.metadataBytes :: s.metadatas
          bodies := body :: s.bodies }
  | announce (s : Exchange N) (n : N) (groupId metadata : List UInt8)
      (h : groupId = source.groupId → metadata ∈ s.metadatas) :
      ExchangeStep source s (.announce n groupId metadata)
        (s.setNode n ((s.nodes n).handleAvailableAnnouncement groupId metadata).1)
  | receive (s : Exchange N) (n : N) (groupId metadata : List UInt8)
      (message : Option (List UInt8))
      (h : groupId = source.groupId →
        metadata ∈ s.metadatas ∧ ∀ body ∈ message, body ∈ s.bodies) :
      ExchangeStep source s
        (.receive n groupId metadata message ((s.nodes n).handlePartial groupId metadata message).2)
        (s.setNode n ((s.nodes n).handlePartial groupId metadata message).1)

/-! ### Copies in a run -/

/-- The copies of a node are honest. -/
def HonestNode (source : OpenRaftSnapshotPartial) (parts : List (List UInt8))
    (state : OpenRaftSyncState) : Prop :=
  ∀ p, state.partials source.groupId = some p → HonestCopy source parts p

variable {state : OpenRaftSyncState}

theorem HonestNode.update {state' : OpenRaftSyncState} {groupId : List UInt8}
    {copy : OpenRaftSnapshotPartial} (h : HonestNode source parts state)
    (hstate : state'.partials = update state.partials groupId (some copy))
    (hcopy : groupId = source.groupId → HonestCopy source parts copy) :
    HonestNode source parts state' := by
  intro p hp
  rw [hstate] at hp
  by_cases hgroup : groupId = source.groupId
  · rw [← hgroup, update_self] at hp
    cases hp
    exact hcopy hgroup
  · rw [update_of_ne (Ne.symm hgroup)] at hp
    exact h p hp

/-- The copy that a message about the publication is merged into. -/
theorem HonestNode.entry (hs : SourceOf json payload source parts)
    (h : HonestNode source parts state) {metadata : List UInt8} {remote : OpenRaftSnapshotMetadata}
    (hmetadata : HonestMetadata source parts metadata)
    (hremote : parseMetadata metadata = .ok remote) :
    HonestCopy source parts (state.entry source.groupId remote) := by
  obtain ⟨q, hq, rfl⟩ := hmetadata
  rw [parseMetadata_metadataBytes (hq.described hs)] at hremote
  cases hremote
  rw [OpenRaftSyncState.entry]
  cases hp : state.partials source.groupId with
  | none => exact hq.empty
  | some p => exact h p hp

/-- Every copy is honest, and so is everything that was sent. -/
structure Exchange.Honest (source : OpenRaftSnapshotPartial) (parts : List (List UInt8))
    (s : Exchange N) : Prop where
  nodes : ∀ n, HonestNode source parts (s.nodes n)
  copies : ∀ p ∈ s.copies, HonestCopy source parts p
  metadatas : ∀ metadata ∈ s.metadatas, HonestMetadata source parts metadata
  bodies : ∀ body ∈ s.bodies, HonestBody source parts body

theorem honestNode_update {s : Exchange N} (h : ∀ n, HonestNode source parts (s.nodes n)) {n : N}
    (hstate : HonestNode source parts state) (m : N) :
    HonestNode source parts ((s.setNode n state).nodes m) := by
  by_cases hm : m = n
  · subst hm
    rwa [Exchange.setNode_nodes_self]
  · rw [Exchange.setNode_nodes_of_ne s hm]
    exact h m

theorem honest_step (hs : SourceOf json payload source parts) {s s' : Exchange N}
    {e : ExchangeEvent N} (h : s.Honest source parts) (hstep : ExchangeStep source s e s') :
    s'.Honest source parts := by
  cases hstep with
  | publish n =>
    refine ⟨honestNode_update h.nodes ?_, ?_, h.metadatas, h.bodies⟩
    · exact (h.nodes n).update rfl fun _ => .self hs
    · exact List.forall_mem_cons.mpr ⟨.self hs, h.copies⟩
  | handOut n copy hcopy =>
    exact ⟨h.nodes, List.forall_mem_cons.mpr ⟨h.nodes n copy hcopy, h.copies⟩, h.metadatas,
      h.bodies⟩
  | advertise copy hcopy =>
    exact ⟨h.nodes, h.copies,
      List.forall_mem_cons.mpr ⟨⟨copy, h.copies copy hcopy, rfl⟩, h.metadatas⟩, h.bodies⟩
  | send copy peerMetadata body hcopy hbody =>
    exact ⟨h.nodes, h.copies,
      List.forall_mem_cons.mpr ⟨⟨copy, h.copies copy hcopy, rfl⟩, h.metadatas⟩,
      List.forall_mem_cons.mpr ⟨(h.copies copy hcopy).encodePartsFor hs hbody, h.bodies⟩⟩
  | announce n groupId metadata hmetadata =>
    refine ⟨honestNode_update h.nodes ?_, h.copies, h.metadatas, h.bodies⟩
    rcases (s.nodes n).handleAvailableAnnouncement_state groupId metadata with
      hsame | ⟨remote, hremote, hput⟩
    · rw [hsame]
      exact h.nodes n
    · rw [hput]
      refine (h.nodes n).update rfl fun hgroup => ?_
      rw [hgroup]
      exact (h.nodes n).entry hs (h.metadatas _ (hmetadata hgroup)) hremote
  | receive n groupId metadata message hsent =>
    refine ⟨honestNode_update h.nodes ?_, h.copies, h.metadatas, h.bodies⟩
    rcases (s.nodes n).handlePartial_partials groupId metadata message with
      hsame | ⟨remote, copy, hremote, hcopy, hput⟩
    · intro p hp
      rw [hsame] at hp
      exact h.nodes n p hp
    · refine (h.nodes n).update hput fun hgroup => ?_
      obtain ⟨hmetadata, hmessage⟩ := hsent hgroup
      have hentry := (h.nodes n).entry hs (h.metadatas _ hmetadata) hremote
      rw [← hgroup] at hentry
      rcases hcopy with rfl | rfl
      · exact hentry
      · exact hentry.mergeMessage hs fun body hbody => h.bodies body (hmessage body hbody)

omit [DecidableEq N] in
theorem honest_init : (Exchange.init : Exchange N).Honest source parts where
  nodes n p hp := by cases hp
  copies p hp := by cases hp
  metadatas m hm := by cases hm
  bodies b hb := by cases hb

variable {es : List (ExchangeEvent N)}

/-- **Every copy in a run is honest.** -/
theorem honest_of_run (hs : SourceOf json payload source parts) {s : Exchange N}
    (run : Run (ExchangeStep source) Exchange.init es s) :
    s.Honest source parts :=
  run.invariant honest_init fun _ _ _ h hstep => honest_step hs h hstep

omit [DecidableEq N] in
theorem HonestCopy.of_holder {s : Exchange N} (h : s.Honest source parts)
    {p : OpenRaftSnapshotPartial} (hp : s.Holder source.groupId p) :
    HonestCopy source parts p := by
  rcases hp with ⟨n, hn⟩ | hcopy
  · exact h.nodes n p hn
  · exact h.copies p hcopy

/-! ### Reports of completion -/

/-- Whether a node reports the completion of a publication for the first time. -/
def ExchangeEvent.reports (n : N) (groupId : List UInt8) : ExchangeEvent N → Bool
  | .receive m groupId' _ _ (.ok update) =>
    decide (m = n) && decide (groupId' = groupId) && update.firstComplete
  | _ => false

/-- What a step changes about the publications whose completion a node has reported. -/
theorem installed_step {s s' : Exchange N} {e : ExchangeEvent N}
    (hstep : ExchangeStep source s e s') (n : N) (groupId : List UInt8) :
    (s.nodes n).installed ⊆ (s'.nodes n).installed ∧
      (e.reports n groupId = true →
        groupId ∉ (s.nodes n).installed ∧ groupId ∈ (s'.nodes n).installed) := by
  have hkeep : ∀ {m : N} {state : OpenRaftSyncState},
      (s.nodes m).installed ⊆ state.installed →
        (s.nodes n).installed ⊆ ((s.setNode m state).nodes n).installed := by
    intro m state hsub
    by_cases hm : n = m
    · subst hm
      rwa [Exchange.setNode_nodes_self]
    · rw [Exchange.setNode_nodes_of_ne s hm]
  cases hstep with
  | publish m => exact ⟨@hkeep m _ subset_rfl, fun h => by cases h⟩
  | handOut m copy hcopy => exact ⟨subset_rfl, fun h => by cases h⟩
  | advertise copy hcopy => exact ⟨subset_rfl, fun h => by cases h⟩
  | send copy peerMetadata body hcopy hbody => exact ⟨subset_rfl, fun h => by cases h⟩
  | announce m groupId' metadata hmetadata =>
    refine ⟨hkeep ?_, fun h => by cases h⟩
    rcases (s.nodes m).handleAvailableAnnouncement_state groupId' metadata with
      hsame | ⟨remote, -, hput⟩
    · rw [hsame]
    · rw [hput, OpenRaftSyncState.put_installed]
  | receive m groupId' metadata message hsent =>
    obtain ⟨hsub, hreport⟩ := (s.nodes m).handlePartial_installed groupId' metadata message
    refine ⟨hkeep hsub, fun h => ?_⟩
    cases hresult : ((s.nodes m).handlePartial groupId' metadata message).2 with
    | error err =>
      rw [hresult] at h
      cases h
    | ok update =>
      rw [hresult] at h
      simp only [ExchangeEvent.reports, Bool.and_eq_true, decide_eq_true_eq] at h
      obtain ⟨⟨rfl, rfl⟩, hfirst⟩ := h
      rw [Exchange.setNode_nodes_self]
      exact hreport update hresult hfirst

/-- A node reports the completion of a publication at most once. -/
theorem countP_reports_le {s : Exchange N} (run : Run (ExchangeStep source) Exchange.init es s)
    (n : N) (groupId : List UInt8) :
    es.countP (ExchangeEvent.reports n groupId) ≤
      if groupId ∈ (s.nodes n).installed then 1 else 0 := by
  induction run with
  | nil => exact Nat.zero_le _
  | @snoc es s s' e run hstep ih =>
    obtain ⟨hsub, hreport⟩ := installed_step hstep n groupId
    rw [countP_append, countP_singleton]
    by_cases hr : e.reports n groupId = true
    · obtain ⟨hold, hnew⟩ := hreport hr
      rw [if_neg hold] at ih
      rw [if_pos hr, if_pos hnew]
      omega
    · rw [if_neg hr]
      by_cases hold : groupId ∈ (s.nodes n).installed
      · rw [if_pos hold] at ih
        rwa [if_pos (hsub hold)]
      · rw [if_neg hold] at ih
        exact ih.trans (Nat.zero_le _)

/-! ### The exchange of a snapshot -/

/-- **The exchange of a snapshot.** A copy holds nothing but parts of the source; it is complete
exactly when it holds all, and is then the payload published. A node reports a completion at most
once. A part missing from a peer's bitmap is sent to it, and the peer then holds more. -/
theorem snapshotExchange_safe {id : PublicationId} (hgroup : GroupIdFits payload.groupId)
    (hsource : OpenRaftSnapshotPartial.fromPayload json id payload = .ok source)
    {es : List (ExchangeEvent N)} {s : Exchange N}
    (run : Run (ExchangeStep source) Exchange.init es s) :
    (∀ p, s.Holder source.groupId p →
      p.parts.length = source.parts.length ∧
      (∀ (i : ℕ) part, p.parts[i]? = some (some part) → source.parts[i]? = some (some part)) ∧
      (p.isComplete = true ↔
        ∀ i < source.parts.length, ∃ part, p.parts[i]? = some (some part)) ∧
      (p.isComplete = true → p.toPayload json = .ok payload)) ∧
    (∀ n groupId, es.countP (ExchangeEvent.reports n groupId) ≤ 1) ∧
    ∀ p q, s.Holder source.groupId p → s.Holder source.groupId q →
      ∀ (i : ℕ) part, p.parts[i]? = some (some part) → Bitmap.test q.bitmap i = false →
        ∃ body, p.encodePartsFor (some q.metadataBytes) = .ok (some body) ∧
          (q.mergeBody body).2 = .ok true ∧
            q.presentParts < (q.mergeBody body).1.presentParts := by
  obtain ⟨parts, hs⟩ := sourceOf_fromPayload hgroup hsource
  have honest := honest_of_run hs run
  refine ⟨fun p hp => ?_, fun n groupId => ?_, fun p q hp hq i part hpart htest => ?_⟩
  · have hcopy := HonestCopy.of_holder honest hp
    refine ⟨hcopy.length_eq hs, fun i part hpart => ?_, ?_, hcopy.toPayload hs⟩
    · rw [hs.parts_eq, getElem?_map, hcopy.sub.part hpart, Option.map_some]
    · rw [hs.parts_eq, length_map]
      exact hcopy.isComplete_iff
  · have hle := countP_reports_le run n groupId
    split_ifs at hle
    · exact hle
    · omega
  · exact (HonestCopy.of_holder honest hp).progress hs (HonestCopy.of_holder honest hq) hpart
      htest

/-! ### A snapshot of one part -/

def usersId : PublicationId where
  bytes := [0x01, 0x98, 0xC5, 0x2E, 0x4D, 0x10, 0x7A, 0x3B, 0x8F, 0x21, 0x6C, 0x5D, 0x0E, 0x9A,
    0x44, 0xB7]
  text := "0198c52e-4d10-7a3b-8f21-6c5d0e9a44b7"
  length_bytes := rfl
  text_ne_empty := by decide
  length_text := by decide

def usersPayload : OpenRaftSnapshotPayload plainTypes := ⟨"users", (), (), [0x61]⟩

def usersText : List UInt8 :=
  ascii "\x7b\"group_id\":\"users\",\"vote\":null,\"meta\":null,\"data\":[97]\x7d"

def usersJson : JsonCodec (OpenRaftSnapshotPayload plainTypes) :=
  .ofTexts
    (fun
      | ⟨"users", _, _, [0x61]⟩ => .ok usersText
      | _ => .error "unsupported")
    (fun bytes => if bytes = usersText then .ok usersPayload else .error "unsupported")
    (fun {a bytes} h => by
      split at h
      · cases h
        exact ⟨if_pos rfl, by decide⟩
      · cases h)

def usersSource : OpenRaftSnapshotPartial where
  groupId := usersId.bytes
  raftGroupId := "users"
  snapshotId := usersId.text
  snapshotSize := usersText.length
  parts := [some usersText]

def usersBody : List UInt8 := usersSource.encodeBody [(0, usersText)]

/-- The source is published at node `false`. -/
def usersPublished : Exchange Bool :=
  { Exchange.init.setNode false (OpenRaftSyncState.init.insertLocal usersSource) with
    copies := [usersSource] }

def usersSent : Exchange Bool :=
  { usersPublished with metadatas := [usersSource.metadataBytes], bodies := [usersBody] }

/-- What was sent arrives at node `true`. -/
def usersReceived : Exchange Bool :=
  usersSent.setNode true (OpenRaftSyncState.init.handlePartial usersSource.groupId
    usersSource.metadataBytes (some usersBody)).1

/-- The snapshot is published at one node, sent, and received at another, which then has it. -/
theorem snapshotExchange_safe_users :
    (usersReceived.nodes true).partials usersSource.groupId = some usersSource ∧
      usersSource.toPayload usersJson = .ok usersPayload := by
  have hsource : OpenRaftSnapshotPartial.fromPayload usersJson usersId usersPayload =
      .ok usersSource := by decide +kernel
  have hbody : usersSource.encodePartsFor none = .ok (some usersBody) := rfl
  have hpublish : ExchangeStep usersSource Exchange.init (.publish false) usersPublished :=
    .publish _ false
  have hsend : ExchangeStep usersSource usersPublished (.send usersSource none usersBody)
      usersSent := .send _ usersSource none usersBody mem_cons_self hbody
  have hreceive : ExchangeStep usersSource usersSent (.receive true usersSource.groupId
      usersSource.metadataBytes (some usersBody) _) usersReceived :=
    .receive _ true _ _ _ fun _ =>
      ⟨mem_cons_self, fun body hb => by cases hb; exact mem_cons_self⟩
  have run := ((Run.nil.snoc hpublish).snoc hsend).snoc hreceive
  have hcopy : (usersReceived.nodes true).partials usersSource.groupId = some usersSource := by
    decide +kernel
  have hsafe := snapshotExchange_safe ⟨by decide, by decide⟩ hsource run
  exact ⟨hcopy, (hsafe.1 usersSource (.inl ⟨true, hcopy⟩)).2.2.2 rfl⟩

end RustExample.OpenraftCluster
