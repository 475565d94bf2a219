import RustExample.OpenraftCluster.SnapshotSync.Parts

/-!
# Snapshot parts on the wire

What a node writes about its copy of a snapshot, and the parts it sends, are read as they were
meant by every other node.
-/

namespace RustExample.OpenraftCluster

open List

/-! ### Cutting bytes -/

theorem slice_append {a b c : List UInt8} {offset len : ℕ} (ha : a.length = offset)
    (hb : b.length = len) : slice (a ++ (b ++ c)) offset len = b := by
  rw [slice, drop_left' ha, take_left' hb]

theorem decode_slice {a c : List UInt8} {w n offset : ℕ} (ha : a.length = offset)
    (hn : n < 256 ^ w) :
    BigEndian.decode (slice (a ++ (BigEndian.encode w n ++ c)) offset w) = n := by
  rw [slice_append ha (BigEndian.length_encode w n), BigEndian.decode_encode hn]

theorem fromUtf8_asBytes (s : String) : fromUtf8 (asBytes s) = .ok s := by
  have hbytes : (⟨(asBytes s).toArray⟩ : ByteArray) = s.toByteArray := by
    rw [asBytes, Array.toArray_toList]
  have hvalid : s.toByteArray.IsValidUTF8 := s.isValidUTF8
  rw [fromUtf8, hbytes, String.fromUTF8?, dif_pos (by simpa using hvalid)]
  rfl

/-! ### Metadata -/

section Layout

variable {total size group snapshot bitmap : List UInt8}

/-- The metadata from their parts. -/
def layout (total size group snapshot bitmap : List UInt8) : List UInt8 :=
  metadataMagic ++ (total ++ (size ++ (BigEndian.encode 2 group.length ++ (group ++
    (BigEndian.encode 2 snapshot.length ++ (snapshot ++ bitmap))))))

theorem slice_layout_total (h : total.length = 2) :
    slice (layout total size group snapshot bitmap) 4 2 = total :=
  slice_append rfl h

theorem slice_layout_size (h : total.length = 2) (h' : size.length = 8) :
    slice (layout total size group snapshot bitmap) 6 8 = size := by
  rw [layout, ← append_assoc]
  exact slice_append (by rw [length_append, h]; rfl) h'

theorem decode_layout_group (h : total.length = 2) (h' : size.length = 8)
    (hgroup : group.length < 2 ^ 16) :
    BigEndian.decode (slice (layout total size group snapshot bitmap) 14 2) = group.length := by
  rw [layout, ← append_assoc, ← append_assoc]
  refine decode_slice ?_ (by simpa using hgroup)
  rw [length_append, length_append, h, h']
  rfl

theorem slice_layout_group (h : total.length = 2) (h' : size.length = 8) :
    slice (layout total size group snapshot bitmap) 16 group.length = group := by
  rw [layout, ← append_assoc, ← append_assoc, ← append_assoc]
  refine slice_append ?_ rfl
  rw [length_append, length_append, length_append, h, h', BigEndian.length_encode]
  rfl

theorem decode_layout_snapshot (h : total.length = 2) (h' : size.length = 8)
    (hsnapshot : snapshot.length < 2 ^ 16) :
    BigEndian.decode (slice (layout total size group snapshot bitmap) (16 + group.length) 2) =
      snapshot.length := by
  rw [layout, ← append_assoc, ← append_assoc, ← append_assoc,
    ← append_assoc]
  refine decode_slice ?_ (by simpa using hsnapshot)
  rw [length_append, length_append, length_append, length_append, h, h',
    BigEndian.length_encode]
  rfl

theorem layout_eq_append :
    layout total size group snapshot bitmap =
      (metadataMagic ++ total ++ size ++ BigEndian.encode 2 group.length ++ group ++
        BigEndian.encode 2 snapshot.length) ++ (snapshot ++ bitmap) := by
  simp only [layout, append_assoc]

theorem length_layout_ids (h : total.length = 2) (h' : size.length = 8) :
    (metadataMagic ++ total ++ size ++ BigEndian.encode 2 group.length ++ group ++
      BigEndian.encode 2 snapshot.length).length = 18 + group.length := by
  simp only [length_append, BigEndian.length_encode, h, h']
  have hmagic : metadataMagic.length = 4 := rfl
  omega

theorem length_layout (h : total.length = 2) (h' : size.length = 8) :
    (layout total size group snapshot bitmap).length =
      18 + group.length + snapshot.length + bitmap.length := by
  rw [layout_eq_append, length_append, length_layout_ids h h', length_append]
  omega

theorem metadataHeaderLen_layout (h : total.length = 2) (h' : size.length = 8)
    (hgroup : group.length < 2 ^ 16) (hsnapshot : snapshot.length < 2 ^ 16) :
    metadataHeaderLen (layout total size group snapshot bitmap) =
      .ok (16 + group.length + 2 + snapshot.length) := by
  have hlen : (layout total size group snapshot bitmap).length =
      18 + group.length + snapshot.length + bitmap.length := length_layout h h'
  have hmagic : (layout total size group snapshot bitmap).take 4 = metadataMagic := rfl
  have hstart : ¬ ((layout total size group snapshot bitmap).length < 18 ∨
      (layout total size group snapshot bitmap).take 4 ≠ metadataMagic) := by
    rintro (hlt | hne)
    · omega
    · exact hne hmagic
  rw [metadataHeaderLen, if_neg hstart, decode_layout_group h h' hgroup]
  have hpos : ¬ (layout total size group snapshot bitmap).length < 16 + group.length + 2 := by
    omega
  show (if _ then _ else _) = _
  rw [if_neg hpos, decode_layout_snapshot h h' hsnapshot]
  show (if _ then _ else _) = _
  rw [if_neg (by omega)]

theorem parseMetadata_layout (h : total.length = 2) (h' : size.length = 8)
    (hgroup : group.length < 2 ^ 16) (hsnapshot : snapshot.length < 2 ^ 16) :
    parseMetadata (layout total size group snapshot bitmap) =
      checkMetadata (BigEndian.decode total) (BigEndian.decode size) group snapshot bitmap := by
  have hids : (metadataMagic ++ total ++ size ++ BigEndian.encode 2 group.length ++ group ++
      BigEndian.encode 2 snapshot.length).length = 18 + group.length := length_layout_ids h h'
  have hlast : slice (layout total size group snapshot bitmap) (18 + group.length)
      (16 + group.length + 2 + snapshot.length - (18 + group.length)) = snapshot := by
    rw [layout_eq_append]
    exact slice_append hids (by omega)
  have hbitmap : (layout total size group snapshot bitmap).drop
      (16 + group.length + 2 + snapshot.length) = bitmap := by
    rw [layout_eq_append, ← append_assoc]
    exact drop_left' (by rw [length_append, hids]; omega)
  rw [parseMetadata, metadataHeaderLen_layout h h' hgroup hsnapshot, ok_bind]
  simp only [decode_layout_group h h' hgroup, slice_layout_total h, slice_layout_size h h',
    slice_layout_group h h', hlast, hbitmap]

end Layout

/-- A group has a name, which is also the name of the directory of its store and so not long. -/
structure GroupIdFits (groupId : String) : Prop where
  ne_empty : groupId ≠ ""
  length : (asBytes groupId).length < 2 ^ 16

/-- A copy that metadata can describe. -/
structure OpenRaftSnapshotPartial.Described (p : OpenRaftSnapshotPartial) : Prop where
  parts_pos : 0 < p.parts.length
  parts_lt : p.parts.length < 2 ^ 16
  size_lt : p.snapshotSize < 2 ^ 64
  group : GroupIdFits p.raftGroupId
  snapshotId_ne : p.snapshotId ≠ ""
  snapshotId_lt : (asBytes p.snapshotId).length < 2 ^ 16

namespace OpenRaftSnapshotPartial

variable {p : OpenRaftSnapshotPartial}

/-- The metadata of a copy, as it is read. -/
def metadata (p : OpenRaftSnapshotPartial) : OpenRaftSnapshotMetadata where
  groupId := p.raftGroupId
  snapshotId := p.snapshotId
  snapshotSize := p.snapshotSize
  totalParts := p.parts.length
  bitmap := p.bitmap

theorem Described.totalParts_eq (h : p.Described) : p.totalParts = p.parts.length :=
  Nat.mod_eq_of_lt h.parts_lt

/-- **The metadata of a copy is read back.** -/
theorem parseMetadata_metadataBytes (h : p.Described) :
    parseMetadata p.metadataBytes = .ok p.metadata := by
  have hlayout : p.metadataBytes = layout (BigEndian.encode 2 p.totalParts)
      (BigEndian.encode 8 p.snapshotSize) (asBytes p.raftGroupId) (asBytes p.snapshotId)
        p.bitmap := by
    simp only [metadataBytes, layout, append_assoc]
  have hne : ¬ (p.raftGroupId = "" ∨ p.snapshotId = "") := by
    rintro (hgroup | hsnapshot)
    · exact h.group.ne_empty hgroup
    · exact h.snapshotId_ne hsnapshot
  have hbitmap : ¬ p.bitmap.length ≠ (p.parts.length + 7) / 8 :=
    not_not.mpr (Bitmap.length_ofOptions p.parts)
  rw [hlayout, parseMetadata_layout (BigEndian.length_encode _ _) (BigEndian.length_encode _ _)
    h.group.length h.snapshotId_lt, h.totalParts_eq,
    BigEndian.decode_encode (by simpa using h.parts_lt),
    BigEndian.decode_encode (by simpa using h.size_lt), checkMetadata,
    if_neg (Nat.pos_iff_ne_zero.mp h.parts_pos), fromUtf8_asBytes, ok_bind, fromUtf8_asBytes,
    ok_bind, if_neg hne, if_neg hbitmap]
  rfl

/-! ### Parts -/

theorem length_encodePart (part : ℕ × List UInt8) :
    (encodePart part).length = 4 + part.2.length := by
  rw [encodePart, length_append, length_append, BigEndian.length_encode,
    BigEndian.length_encode]

theorem mergeParts_nil (n : ℕ) (parts : List (Option (List UInt8))) (updated : Bool) :
    mergeParts n parts [] updated = (parts, .ok updated) := by
  cases n <;> rfl

variable {parts : List (Option (List UInt8))}

theorem mergeParts_encodePart {n : ℕ} {part : ℕ × List UInt8} (hindex : part.1 < parts.length)
    (hparts : parts.length < 2 ^ 16) (hlen : part.2.length < 2 ^ 16) (rest : List UInt8)
    (updated : Bool) :
    mergeParts (n + 1) parts (encodePart part ++ rest) updated =
      mergeParts n (putMissing parts part.1 part.2) rest
        (updated || parts[part.1]? == some none) := by
  obtain ⟨index, bytes⟩ := part
  simp only at hindex hlen
  have hbody : encodePart (index, bytes) ++ rest =
      BigEndian.encode 2 index ++ (BigEndian.encode 2 bytes.length ++ (bytes ++ rest)) := by
    simp only [encodePart, append_assoc]
  have hi : BigEndian.decode (slice (encodePart (index, bytes) ++ rest) 0 2) = index := by
    rw [hbody]
    exact decode_slice (a := []) rfl (by simp; omega)
  have hl : BigEndian.decode (slice (encodePart (index, bytes) ++ rest) 2 2) = bytes.length := by
    rw [hbody]
    exact decode_slice (BigEndian.length_encode _ _) (by simpa using hlen)
  have hdrop : (encodePart (index, bytes) ++ rest).drop 4 = bytes ++ rest := by
    rw [hbody, ← append_assoc]
    exact drop_left' (by simp [BigEndian.length_encode])
  have hfour : ¬ (encodePart (index, bytes) ++ rest).length < 4 := by
    rw [length_append, length_encodePart]
    omega
  have hrange : ¬ (parts.length ≤ index ∨ (bytes ++ rest).length < bytes.length) := by
    rw [length_append]
    omega
  obtain ⟨byte, more, hcons⟩ : ∃ byte more, encodePart (index, bytes) ++ rest = byte :: more :=
    ⟨_, _, rfl⟩
  rw [hcons] at hi hl hdrop hfour ⊢
  rw [mergeParts]
  simp only [hi, hl, hdrop, if_neg hfour, if_neg hrange, take_left, drop_left]

variable {pieces : List (ℕ × List UInt8)}

/-- The parts of a body, one after the other; the answer says whether one of them was missing. -/
theorem mergeParts_flatMap {n : ℕ} (hparts : parts.length < 2 ^ 16)
    (hpieces : ∀ q ∈ pieces, q.1 < parts.length ∧ q.2.length < 2 ^ 16)
    (hn : (pieces.flatMap encodePart).length ≤ n) (updated : Bool) :
    mergeParts n parts (pieces.flatMap encodePart) updated =
      (mergePieces parts pieces,
        .ok (updated || decide (held parts < held (mergePieces parts pieces)))) := by
  induction pieces generalizing n parts updated with
  | nil =>
    rw [flatMap_nil, mergeParts_nil]
    simp [mergePieces]
  | cons q pieces ih =>
    obtain ⟨hindex, hlen⟩ := hpieces q mem_cons_self
    rw [flatMap_cons, length_append, length_encodePart] at hn
    obtain ⟨n, rfl⟩ : ∃ k, n = k + 1 := ⟨n - 1, by omega⟩
    have hrest : ∀ r ∈ pieces, r.1 < (putMissing parts q.1 q.2).length ∧ r.2.length < 2 ^ 16 := by
      intro r hr
      rw [length_putMissing]
      exact hpieces r (mem_cons_of_mem _ hr)
    have hmerge : mergePieces parts (q :: pieces) =
        mergePieces (putMissing parts q.1 q.2) pieces := rfl
    rw [flatMap_cons, mergeParts_encodePart hindex hparts hlen,
      ih (by rwa [length_putMissing]) hrest (by omega), hmerge]
    by_cases hq : parts[q.1]? = some none
    · have hheld := held_putMissing hq q.2
      have hle := held_le_mergePieces (putMissing parts q.1 q.2) pieces
      have hlt : held parts < held (mergePieces (putMissing parts q.1 q.2) pieces) := by omega
      simp [hq, hlt]
    · have hbeq : (parts[q.1]? == some none) = false := beq_eq_false_iff_ne.mpr hq
      rw [putMissing_of_ne hq, hbeq, Bool.or_false]

/-- **The parts of a body are put in where they are missing.** -/
theorem mergeBody_encodeBody {q : OpenRaftSnapshotPartial} (hgroup : q.groupId = p.groupId)
    (htotal : q.totalParts = p.totalParts) (hid : p.groupId.length = OpenraftCluster.groupIdLen)
    (hparts : q.parts.length < 2 ^ 16)
    (hpieces : ∀ r ∈ pieces, r.1 < q.parts.length ∧ r.2.length < 2 ^ 16) :
    q.mergeBody (p.encodeBody pieces) =
      ({ q with parts := mergePieces q.parts pieces },
        .ok (decide (held q.parts < held (mergePieces q.parts pieces)))) := by
  have hlen : (p.encodeBody pieces).length =
      (pieces.flatMap encodePart).length + 2 + OpenraftCluster.groupIdLen := by
    rw [encodeBody, length_append, length_append, BigEndian.length_encode, hid]
    omega
  have hstart : (p.encodeBody pieces).length - OpenraftCluster.groupIdLen - 2 =
      (pieces.flatMap encodePart).length := by
    omega
  have hlong : ¬ (p.encodeBody pieces).length < OpenraftCluster.groupIdLen + 2 := by omega
  have hcount : BigEndian.decode (slice (p.encodeBody pieces)
      (pieces.flatMap encodePart).length 2) = p.totalParts :=
    decode_slice rfl (Nat.mod_lt _ (by decide))
  have hreceived : (p.encodeBody pieces).drop ((pieces.flatMap encodePart).length + 2) =
      p.groupId := by
    rw [encodeBody, ← append_assoc]
    exact drop_left' (by rw [length_append, BigEndian.length_encode])
  have htake : (p.encodeBody pieces).take (pieces.flatMap encodePart).length =
      pieces.flatMap encodePart := take_left
  have hmerge := mergeParts_flatMap hparts hpieces le_rfl false
  rw [mergeBody, if_neg hlong]
  simp only [hstart, hcount, hreceived, htake, htotal, hgroup, ne_eq, not_true_eq_false,
    if_false, hmerge, Bool.false_or]

/-! ### Choosing parts -/

theorem selectParts_none (requested : List UInt8) (index sent : ℕ)
    (parts : List (Option (List UInt8))) :
    selectParts requested index sent (none :: parts) =
      selectParts requested (index + 1) sent parts := by
  show (if _ then _ else _) = _
  exact ite_self _

theorem selectParts_some (requested : List UInt8) (index sent : ℕ) (bytes : List UInt8)
    (parts : List (Option (List UInt8))) :
    selectParts requested index sent (some bytes :: parts) =
      if Bitmap.test requested index then selectParts requested (index + 1) sent parts
      else (index, bytes) ::
        if maxPartsPerMessage ≤ sent + 1 then []
        else selectParts requested (index + 1) (sent + 1) parts := rfl

variable {requested : List UInt8}

theorem mem_selectParts {index sent : ℕ} {q : ℕ × List UInt8}
    (h : q ∈ selectParts requested index sent parts) :
    ∃ k, q.1 = index + k ∧ parts[k]? = some (some q.2) ∧ Bitmap.test requested q.1 = false := by
  induction parts generalizing index sent with
  | nil => cases h
  | cons part parts ih =>
    have hskip : ∀ {sent' : ℕ}, q ∈ selectParts requested (index + 1) sent' parts →
        ∃ k, q.1 = index + k ∧ (part :: parts)[k]? = some (some q.2) ∧
          Bitmap.test requested q.1 = false := by
      intro sent' hq
      obtain ⟨k, hk, hpart, htest⟩ := ih hq
      exact ⟨k + 1, by omega, hpart, htest⟩
    cases part with
    | none =>
      rw [selectParts_none] at h
      exact hskip h
    | some bytes =>
      rw [selectParts_some] at h
      by_cases htest : Bitmap.test requested index = true
      · rw [if_pos htest] at h
        exact hskip h
      · rw [if_neg htest] at h
        rcases List.mem_cons.mp h with rfl | hq
        · exact ⟨0, rfl, rfl, by simpa using htest⟩
        · split_ifs at hq with hlimit
          · cases hq
          · exact hskip hq

/-- A part that is held and not requested to be left out makes the choice not empty. -/
theorem selectParts_ne_nil {index k sent : ℕ} {bytes : List UInt8}
    (hpart : parts[k]? = some (some bytes)) (htest : Bitmap.test requested (index + k) = false) :
    selectParts requested index sent parts ≠ [] := by
  induction parts generalizing index k sent with
  | nil => simp at hpart
  | cons part parts ih =>
    have hlater : ∀ {j : ℕ}, k = j + 1 → selectParts requested (index + 1) sent parts ≠ [] := by
      rintro j rfl
      exact ih hpart (by rwa [Nat.add_assoc, Nat.add_comm 1])
    cases part with
    | none =>
      rw [selectParts_none]
      cases k with
      | zero => simp at hpart
      | succ k => exact hlater rfl
    | some first =>
      rw [selectParts_some]
      split_ifs with hindex hlimit
      · cases k with
        | zero => exact absurd hindex (by simpa using htest)
        | succ k => exact hlater rfl
      · exact cons_ne_nil _ _
      · exact cons_ne_nil _ _

end OpenRaftSnapshotPartial

end RustExample.OpenraftCluster
