import RustExample.OpenraftCluster.SnapshotSync.Format

/-!
# Two readers of a body

A body of parts is read by two loops. One puts the parts into a copy, record by record; the other
marks them in a bitmap, and joins the bitmap to that of some metadata in the end. Both refuse a
body at the same record, but only the second leaves everything as it was then.

Source: `src/network/openraft_sync.rs`.

* An index of the bitmap past its end changes nothing; the loop has no such index.
-/

namespace RustExample.OpenraftCluster

open BigEndian OpenRaftSnapshotPartial List

/-! ### The loop over metadata -/

/-- Merges the bitmap of the right side. -/
def mergeMetadata (left right : List UInt8) : List UInt8 × Except PartialError Bool :=
  match metadataHeaderLen left, metadataHeaderLen right with
  | .error e, _ => (left, .error e)
  | .ok _, .error e => (left, .error e)
  | .ok leftHeaderLen, .ok rightHeaderLen =>
    if leftHeaderLen ≠ rightHeaderLen ∨ left.length ≠ right.length ∨
        left.take leftHeaderLen ≠ right.take rightHeaderLen then (left, .error .invalidFormat)
    else
      let merged := Bitmap.union (left.drop leftHeaderLen) (right.drop rightHeaderLen)
      (left.take leftHeaderLen ++ merged, .ok (merged != left.drop leftHeaderLen))

/-- The records of a body, marked in order behind the header. The count bounds their number. -/
def markParts (totalParts headerLen : ℕ) : ℕ → List UInt8 → List UInt8 →
    Except PartialError (List UInt8)
  | 0, update, _ => .ok update
  | _ + 1, update, [] => .ok update
  | n + 1, update, byte :: bytes =>
    let payload := byte :: bytes
    if payload.length < 4 then .error .invalidFormat
    else
      let index := BigEndian.decode (slice payload 0 2)
      let len := BigEndian.decode (slice payload 2 2)
      let rest := payload.drop 4
      if totalParts ≤ index ∨ rest.length < len then .error .outOfRange
      else
        markParts totalParts headerLen n
          (update.modify (headerLen + index / 8) (· ||| Bitmap.mask index)) (rest.drop len)

/-- What is done to the bytes of some metadata, before they are changed. -/
def bodyUpdate (bytes data : List UInt8) : Except PartialError (List UInt8) :=
  if data.length < 2 + groupIdLen then .error .invalidFormat
  else do
    let payloadEnd := data.length - (2 + groupIdLen)
    let metadata ← parseMetadata bytes
    if BigEndian.decode (slice data payloadEnd 2) ≠ metadata.totalParts then .error .invalidFormat
    else do
      let headerLen ← metadataHeaderLen bytes
      markParts metadata.totalParts headerLen payloadEnd
        (bytes.take headerLen ++ List.replicate (bytes.length - headerLen) 0)
        (data.take payloadEnd)

/-- Takes a body into metadata. -/
def updateFromData (bytes data : List UInt8) : List UInt8 × Except PartialError Unit :=
  match bodyUpdate bytes data with
  | .error e => (bytes, .error e)
  | .ok update =>
    let (bytes, result) := mergeMetadata bytes update
    (bytes, result.map fun _ => ())

/-! ### The records of a body -/

/-- The records up to the first that is malformed, and what is wrong with that one. -/
def readParts (totalParts : ℕ) : ℕ → List UInt8 → List (ℕ × List UInt8) × Option PartialError
  | 0, _ => ([], none)
  | _ + 1, [] => ([], none)
  | n + 1, byte :: bytes =>
    let body := byte :: bytes
    if body.length < 4 then ([], some .invalidFormat)
    else
      let index := BigEndian.decode (slice body 0 2)
      let len := BigEndian.decode (slice body 2 2)
      let rest := body.drop 4
      if totalParts ≤ index ∨ rest.length < len then ([], some .outOfRange)
      else
        let (pieces, error) := readParts totalParts n (rest.drop len)
        ((index, rest.take len) :: pieces, error)

/-- The answer after the last part. -/
def loopAnswer {α : Type} (a : α) : Option PartialError → Except PartialError α
  | none => .ok a
  | some e => .error e

variable {totalParts headerLen n : ℕ} {body bytes : List UInt8}

theorem mem_readParts {q : ℕ × List UInt8} (h : q ∈ (readParts totalParts n body).1) :
    q.1 < totalParts := by
  induction n generalizing body with
  | zero => cases h
  | succ n ih =>
    cases body with
    | nil => cases h
    | cons byte body =>
      rw [readParts] at h
      simp only at h
      split_ifs at h with hlong hrange
      · cases h
      · cases h
      · rcases List.mem_cons.mp h with rfl | h
        · exact not_le.mp (not_or.mp hrange).1
        · exact ih h

theorem encodePart_append (hlong : 4 ≤ body.length)
    (hlen : BigEndian.decode (slice body 2 2) ≤ (body.drop 4).length) :
    encodePart (BigEndian.decode (slice body 0 2),
      (body.drop 4).take (BigEndian.decode (slice body 2 2))) ++
        (body.drop 4).drop (BigEndian.decode (slice body 2 2)) = body := by
  have hindex : BigEndian.encode 2 (BigEndian.decode (slice body 0 2)) = slice body 0 2 :=
    encode_decode_slice (by omega)
  have hlength : BigEndian.encode 2 (BigEndian.decode (slice body 2 2)) = slice body 2 2 :=
    encode_decode_slice (by omega)
  rw [encodePart, length_take, Nat.min_eq_left hlen, hindex, hlength,
    append_assoc, append_assoc, take_append_drop, slice_append_drop,
    slice_append_drop, drop_zero]

theorem eq_flatMap_of_readParts (hn : body.length ≤ n)
    (h : (readParts totalParts n body).2 = none) :
    body = (readParts totalParts n body).1.flatMap encodePart := by
  induction n generalizing body with
  | zero => exact List.length_eq_zero_iff.mp (Nat.le_zero.mp hn)
  | succ n ih =>
    cases body with
    | nil => rfl
    | cons byte body =>
      rw [readParts] at h ⊢
      simp only at h ⊢
      split_ifs at h ⊢ with hlong hrange
      obtain ⟨-, hlen⟩ := not_or.mp hrange
      refine (encodePart_append (not_lt.mp hlong) (not_lt.mp hlen)).symm.trans ?_
      rw [flatMap_cons, ← ih ?_ h]
      rw [length_drop, length_drop]
      omega

/-- **The loop over a copy** puts the records in, up to the first that is malformed. -/
theorem mergeParts_eq (parts : List (Option (List UInt8))) (updated : Bool) :
    (mergeParts n parts body updated).1 =
        mergePieces parts (readParts parts.length n body).1 ∧
      (mergeParts n parts body updated).2.map (fun _ => ()) =
        loopAnswer () (readParts parts.length n body).2 := by
  induction n generalizing parts body updated with
  | zero => exact ⟨rfl, rfl⟩
  | succ n ih =>
    cases body with
    | nil => exact ⟨rfl, rfl⟩
    | cons byte body =>
      rw [mergeParts, readParts]
      simp only
      split_ifs with hlong hrange
      · exact ⟨rfl, rfl⟩
      · exact ⟨rfl, rfl⟩
      · have hstep (i : ℕ) (a b : List UInt8) (u : Bool) := @ih b (putMissing parts i a) u
        simp only [length_putMissing] at hstep
        exact hstep _ _ _ _

/-- **The loop over metadata** marks the records, unless one is malformed. -/
theorem markParts_eq (header bitmap : List UInt8) (hheader : header.length = headerLen) :
    markParts totalParts headerLen n (header ++ bitmap) body =
      loopAnswer (header ++ Bitmap.setAll bitmap ((readParts totalParts n body).1.map Prod.fst))
        (readParts totalParts n body).2 := by
  induction n generalizing bitmap body with
  | zero => rfl
  | succ n ih =>
    cases body with
    | nil => rfl
    | cons byte body =>
      rw [markParts, readParts]
      simp only
      split_ifs with hlong hrange
      · rfl
      · rfl
      · rw [← hheader, List.modify, modifyTailIdx_add, hheader]
        exact ih _

/-! ### A body for a copy -/

namespace OpenRaftSnapshotPartial

variable {p : OpenRaftSnapshotPartial}

/-- A body ends with the number of parts and the publication id of the copy. -/
structure Addressed (p : OpenRaftSnapshotPartial) (body : List UInt8) : Prop where
  long : OpenraftCluster.groupIdLen + 2 ≤ body.length
  totalParts_eq : BigEndian.decode
    (slice body (body.length - OpenraftCluster.groupIdLen - 2) 2) = p.totalParts
  groupId_eq : body.drop (body.length - OpenraftCluster.groupIdLen - 2 + 2) = p.groupId

/-- The records of a body up to the first that is malformed, and what is wrong with that one. -/
def bodyParts (p : OpenRaftSnapshotPartial) (body : List UInt8) :
    List (ℕ × List UInt8) × Option PartialError :=
  readParts p.parts.length (body.length - OpenraftCluster.groupIdLen - 2)
    (body.take (body.length - OpenraftCluster.groupIdLen - 2))

theorem mergeBody_of_addressed (h : p.Addressed body) :
    (p.mergeBody body).1 = { p with parts := mergePieces p.parts (p.bodyParts body).1 } ∧
      (p.mergeBody body).2.map (fun _ => ()) = loopAnswer () (p.bodyParts body).2 := by
  obtain ⟨hparts, hanswer⟩ := @mergeParts_eq (body.length - OpenraftCluster.groupIdLen - 2)
    (body.take (body.length - OpenraftCluster.groupIdLen - 2)) p.parts false
  rw [mergeBody, if_neg (not_lt.mpr h.long)]
  simp only
  rw [if_neg (not_not.mpr h.totalParts_eq), if_neg (not_not.mpr h.groupId_eq), hparts]
  exact ⟨rfl, hanswer⟩

/-- A body for another copy is refused; with the id of the copy it has a wrong form. -/
theorem mergeBody_of_not_addressed (h : ¬p.Addressed body) :
    ∃ e, p.mergeBody body = (p, .error e) ∧
      ((OpenraftCluster.groupIdLen + 2 ≤ body.length →
        body.drop (body.length - OpenraftCluster.groupIdLen) = p.groupId) →
          e = .invalidFormat) := by
  rw [mergeBody]
  simp only
  split_ifs with hlong htotal hgroup
  · exact ⟨_, rfl, fun _ => rfl⟩
  · exact ⟨_, rfl, fun _ => rfl⟩
  · have hend : body.length - OpenraftCluster.groupIdLen - 2 + 2 =
        body.length - OpenraftCluster.groupIdLen := by omega
    exact ⟨_, rfl, fun hid => absurd (hend ▸ hid (not_lt.mp hlong)) hgroup⟩
  · exact absurd ⟨not_lt.mp hlong, not_not.mp htotal, not_not.mp hgroup⟩ h

/-- An accepted body is what a copy with these parts sends. -/
theorem eq_encodeBody (h : p.Addressed body) (hparts : (p.bodyParts body).2 = none) :
    body = p.encodeBody (p.bodyParts body).1 := by
  have hrecords := eq_flatMap_of_readParts (length_take_le _ _) hparts
  have hlong := h.long
  have htotal : BigEndian.encode 2 p.totalParts =
      slice body (body.length - OpenraftCluster.groupIdLen - 2) 2 := by
    rw [← h.totalParts_eq, encode_decode_slice (by omega)]
  rw [encodeBody, bodyParts, ← hrecords, htotal, ← h.groupId_eq, slice_append_drop,
    take_append_drop]

/-! ### The header of a copy -/

/-- The metadata of a copy in front of the bitmap. -/
def header (p : OpenRaftSnapshotPartial) : List UInt8 :=
  layout (BigEndian.encode 2 p.totalParts) (BigEndian.encode 8 p.snapshotSize)
    (asBytes p.raftGroupId) (asBytes p.snapshotId) []

theorem metadataBytes_eq (p : OpenRaftSnapshotPartial) :
    p.metadataBytes = p.header ++ p.bitmap := by
  simp [metadataBytes, header, layout]

theorem metadataHeaderLen_header (h : p.Described) (bitmap : List UInt8) :
    metadataHeaderLen (p.header ++ bitmap) = .ok p.header.length := by
  have hlayout : p.header ++ bitmap = layout (BigEndian.encode 2 p.totalParts)
      (BigEndian.encode 8 p.snapshotSize) (asBytes p.raftGroupId) (asBytes p.snapshotId)
        bitmap := by
    simp [header, layout]
  have hlen : p.header.length =
      18 + (asBytes p.raftGroupId).length + (asBytes p.snapshotId).length := by
    rw [header, length_layout (BigEndian.length_encode _ _) (BigEndian.length_encode _ _),
      length_nil, Nat.add_zero]
  rw [hlayout, metadataHeaderLen_layout (BigEndian.length_encode _ _) (BigEndian.length_encode _ _)
    h.group.length h.snapshotId_lt, hlen]
  exact congrArg Except.ok (by omega)

/-- Metadata with one header is merged by the union of the bitmaps. -/
theorem mergeMetadata_header (h : p.Described) {bitmap bitmap' : List UInt8}
    (hlen : bitmap.length = bitmap'.length) :
    ∃ updated, mergeMetadata (p.header ++ bitmap) (p.header ++ bitmap') =
      (p.header ++ Bitmap.union bitmap bitmap', .ok updated) := by
  rw [mergeMetadata, metadataHeaderLen_header h, metadataHeaderLen_header h]
  simp [hlen]

/-- **The update of the metadata of a copy.** -/
theorem updateFromData_of_addressed (hp : p.Described) (h : p.Addressed body) :
    updateFromData p.metadataBytes body = match (p.bodyParts body).2 with
      | some e => (p.metadataBytes, .error e)
      | none => (p.header ++ Bitmap.union p.bitmap (Bitmap.setAll
          (List.replicate p.bitmap.length 0) ((p.bodyParts body).1.map Prod.fst)), .ok ()) := by
  have hend : body.length - (2 + OpenraftCluster.groupIdLen) =
      body.length - OpenraftCluster.groupIdLen - 2 := by omega
  have hlong := h.long
  have hupdate : bodyUpdate p.metadataBytes body = loopAnswer (p.header ++ Bitmap.setAll
      (List.replicate p.bitmap.length 0) ((p.bodyParts body).1.map Prod.fst))
        (p.bodyParts body).2 := by
    have htotal : BigEndian.decode (slice body (body.length - OpenraftCluster.groupIdLen - 2) 2) =
        p.metadata.totalParts := h.totalParts_eq.trans hp.totalParts_eq
    rw [bodyUpdate, if_neg (by omega)]
    simp only
    rw [hend, parseMetadata_metadataBytes hp, ok_bind, if_neg (not_not.mpr htotal),
      metadataBytes_eq, metadataHeaderLen_header hp, ok_bind, take_left, length_append,
      Nat.add_sub_cancel_left, markParts_eq _ _ rfl]
    rfl
  rw [updateFromData, hupdate]
  cases (p.bodyParts body).2 with
  | some e => rfl
  | none =>
    have hlen : p.bitmap.length = (Bitmap.setAll (List.replicate p.bitmap.length 0)
        ((p.bodyParts body).1.map Prod.fst)).length := by simp
    obtain ⟨updated, hmerge⟩ := mergeMetadata_header hp hlen
    simp only [loopAnswer]
    rw [metadataBytes_eq, hmerge]
    rfl

theorem updateFromData_of_not_addressed (hp : p.Described) (h : ¬p.Addressed body)
    (hid : OpenraftCluster.groupIdLen + 2 ≤ body.length →
      body.drop (body.length - OpenraftCluster.groupIdLen) = p.groupId) :
    updateFromData p.metadataBytes body = (p.metadataBytes, .error .invalidFormat) := by
  have hupdate : bodyUpdate p.metadataBytes body = .error .invalidFormat := by
    rw [bodyUpdate]
    split_ifs with hlong
    · rfl
    have hend : body.length - (2 + OpenraftCluster.groupIdLen) =
        body.length - OpenraftCluster.groupIdLen - 2 := by omega
    have hend' : body.length - OpenraftCluster.groupIdLen - 2 + 2 =
        body.length - OpenraftCluster.groupIdLen := by omega
    have htotal : BigEndian.decode (slice body (body.length - OpenraftCluster.groupIdLen - 2) 2) ≠
        p.metadata.totalParts := fun htotal =>
      h ⟨by omega, htotal.trans hp.totalParts_eq.symm, hend' ▸ hid (by omega)⟩
    simp only
    rw [hend, parseMetadata_metadataBytes hp, ok_bind, if_pos htotal]
  rw [updateFromData, hupdate]

theorem bitmap_mergePieces {pieces : List (ℕ × List UInt8)}
    (h : ∀ q ∈ pieces, q.1 < p.parts.length) :
    OpenRaftSnapshotPartial.bitmap { p with parts := mergePieces p.parts pieces } =
      Bitmap.union p.bitmap
        (Bitmap.setAll (List.replicate p.bitmap.length 0) (pieces.map Prod.fst)) := by
  have hlen : p.bitmap.length = (p.parts.length + 7) / 8 := Bitmap.length_ofOptions p.parts
  have hsame : p.bitmap.length = (Bitmap.setAll (List.replicate p.bitmap.length 0)
      (pieces.map Prod.fst)).length := by simp
  refine Bitmap.eq_of_test ?_ fun i => Bool.eq_iff_iff.mpr ?_
  · rw [Bitmap.length_union hsame, hlen]
    exact (Bitmap.length_ofOptions _).trans (by rw [length_mergePieces])
  · rw [test_bitmap, Bitmap.test_union hsame, Bitmap.test_setAll, Bitmap.test_replicate_zero,
      Bool.or_false, Bool.or_eq_true, test_bitmap, decide_eq_true_eq]
    · exact holds_mergePieces h
    · intro j hj
      obtain ⟨q, hq, rfl⟩ := List.mem_map.mp hj
      have hlt := h q hq
      rw [length_replicate, hlen]
      omega

variable {parts : List (Option (List UInt8))}

/-- What is left of a copy by a body that only differs in its parts. -/
theorem Described.withParts (hp : p.Described) (hlen : parts.length = p.parts.length) :
    OpenRaftSnapshotPartial.Described { p with parts } where
  parts_pos := hlen ▸ hp.parts_pos
  parts_lt := hlen ▸ hp.parts_lt
  size_lt := hp.size_lt
  group := hp.group
  snapshotId_ne := hp.snapshotId_ne
  snapshotId_lt := hp.snapshotId_lt

theorem header_withParts (hlen : parts.length = p.parts.length) :
    OpenRaftSnapshotPartial.header { p with parts } = p.header := by
  rw [header, header, totalParts, totalParts, hlen]

end OpenRaftSnapshotPartial

/-- **The two readers of a body agree.** On a body of the publication they give the same answer,
errors included. An accepted one consists of parts; the second leaves the metadata of the copy that
the first leaves, which holds what was held before and those parts. -/
theorem body_readers_agree {p : OpenRaftSnapshotPartial} (hp : p.Described) (body : List UInt8)
    (hid : groupIdLen + 2 ≤ body.length → body.drop (body.length - groupIdLen) = p.groupId) :
    (p.mergeBody body).2.map (fun _ => ()) = (updateFromData p.metadataBytes body).2 ∧
      ((updateFromData p.metadataBytes body).2 = .ok () →
        (updateFromData p.metadataBytes body).1 = (p.mergeBody body).1.metadataBytes ∧
        ∃ md pieces, parseMetadata (updateFromData p.metadataBytes body).1 = .ok md ∧
          body = p.encodeBody pieces ∧ ∀ i,
            (Bitmap.test md.bitmap i = true ↔
              ∃ part, (p.mergeBody body).1.parts[i]? = some (some part)) ∧
            ((∃ part, (p.mergeBody body).1.parts[i]? = some (some part)) ↔
              (∃ part, p.parts[i]? = some (some part)) ∨ i ∈ pieces.map Prod.fst)) := by
  by_cases h : p.Addressed body
  · obtain ⟨hcopy, hanswer⟩ := OpenRaftSnapshotPartial.mergeBody_of_addressed h
    rw [hanswer, OpenRaftSnapshotPartial.updateFromData_of_addressed hp h, hcopy]
    cases hparts : (p.bodyParts body).2 with
    | some e => exact ⟨rfl, nofun⟩
    | none =>
      refine ⟨rfl, fun _ => ?_⟩
      have hrange : ∀ q ∈ (p.bodyParts body).1, q.1 < p.parts.length := fun q => mem_readParts
      have hlen : (mergePieces p.parts (p.bodyParts body).1).length = p.parts.length :=
        length_mergePieces _ _
      have hbytes : p.header ++ Bitmap.union p.bitmap (Bitmap.setAll
          (List.replicate p.bitmap.length 0) ((p.bodyParts body).1.map Prod.fst)) =
          OpenRaftSnapshotPartial.metadataBytes
            { p with parts := mergePieces p.parts (p.bodyParts body).1 } := by
        rw [OpenRaftSnapshotPartial.metadataBytes_eq,
          OpenRaftSnapshotPartial.header_withParts hlen,
          OpenRaftSnapshotPartial.bitmap_mergePieces hrange]
      have hread := OpenRaftSnapshotPartial.parseMetadata_metadataBytes (hp.withParts hlen)
      exact ⟨hbytes, _, (p.bodyParts body).1, (congrArg parseMetadata hbytes).trans hread,
        OpenRaftSnapshotPartial.eq_encodeBody h hparts,
        fun i => ⟨OpenRaftSnapshotPartial.test_bitmap _ i, holds_mergePieces hrange⟩⟩
  · obtain ⟨e, hmerge, he⟩ := OpenRaftSnapshotPartial.mergeBody_of_not_addressed h
    rw [OpenRaftSnapshotPartial.updateFromData_of_not_addressed hp h hid, hmerge, he hid]
    exact ⟨rfl, nofun⟩

/-- A copy of a snapshot in two parts, without the second. -/
def halfCopy : OpenRaftSnapshotPartial where
  groupId := List.replicate 16 7
  raftGroupId := "g"
  snapshotId := "s"
  snapshotSize := 2
  parts := [some [1], none]

theorem described_halfCopy : halfCopy.Described where
  parts_pos := by decide
  parts_lt := by decide
  size_lt := by decide
  group := ⟨by decide, by decide⟩
  snapshotId_ne := by decide
  snapshotId_lt := by decide

/-- The body with the second part is accepted by both. -/
theorem body_readers_agree_second :
    (halfCopy.mergeBody (halfCopy.encodeBody [(1, [2])])).2.map (fun _ => ()) =
        (updateFromData halfCopy.metadataBytes (halfCopy.encodeBody [(1, [2])])).2 ∧
      (updateFromData halfCopy.metadataBytes (halfCopy.encodeBody [(1, [2])])).1 =
        (halfCopy.mergeBody (halfCopy.encodeBody [(1, [2])])).1.metadataBytes := by
  have hagree := body_readers_agree described_halfCopy (halfCopy.encodeBody [(1, [2])])
    fun _ => by decide
  exact ⟨hagree.1, (hagree.2 (by decide +kernel)).1⟩

/-- **When a refused body changes nothing**: exactly if it is not for this copy, or if no record in
front of its first malformed one is of a part that the copy lacks. -/
theorem rejected_body_keeps_iff (p : OpenRaftSnapshotPartial) (body : List UInt8) :
    ((∃ e, (p.mergeBody body).2 = .error e) → (p.mergeBody body).1 = p) ↔
      (p.Addressed body → (p.bodyParts body).2 ≠ none →
        ∀ q ∈ (p.bodyParts body).1, p.parts[q.1]? ≠ some none) := by
  by_cases h : p.Addressed body
  · obtain ⟨hcopy, hanswer⟩ := OpenRaftSnapshotPartial.mergeBody_of_addressed h
    have hrejected : (∃ e, (p.mergeBody body).2 = .error e) ↔ (p.bodyParts body).2 ≠ none := by
      cases hresult : (p.mergeBody body).2 <;> cases hparts : (p.bodyParts body).2 <;>
        simp_all [loopAnswer, Except.map]
    have hkeeps : (p.mergeBody body).1 = p ↔
        mergePieces p.parts (p.bodyParts body).1 = p.parts := by
      rw [hcopy]
      exact ⟨congrArg OpenRaftSnapshotPartial.parts, fun hparts => by rw [hparts]⟩
    rw [hrejected, hkeeps, mergePieces_eq_self]
    exact ⟨fun hkeep _ => hkeep, fun hkeep => hkeep h⟩
  · obtain ⟨e, hmerge, -⟩ := OpenRaftSnapshotPartial.mergeBody_of_not_addressed h
    rw [hmerge]
    exact iff_of_true (fun _ => rfl) fun haddressed => absurd haddressed h

/-- A body with the second part, and one byte of another record. -/
def tornBody : List UInt8 :=
  OpenRaftSnapshotPartial.encodePart (1, [2]) ++ [0] ++ [0, 2] ++ List.replicate 16 7

/-- The body is refused, and the copy holds its first record. -/
theorem torn_body_changes_copy :
    (halfCopy.mergeBody tornBody).2 = .error .invalidFormat ∧
      halfCopy.parts = [some [1], none] ∧
      (halfCopy.mergeBody tornBody).1.parts = [some [1], some [2]] := by
  decide +kernel

end RustExample.OpenraftCluster
