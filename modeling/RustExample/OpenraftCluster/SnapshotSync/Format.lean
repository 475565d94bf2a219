import RustExample.OpenraftCluster.SnapshotSync.Wire

/-!
# The format of snapshot metadata

Metadata is a header of fixed fields and of two texts with their lengths, and a bitmap. A reader
indexes bytes that came over the network, and accepts exactly the strings that are laid out so. A
string that it accepts is what some copy writes if the bitmap has no bit past the last part.

Source: `src/network/openraft_sync.rs`.

* An index or a range that is out of bounds is `none`.
-/

namespace RustExample.OpenraftCluster

open List

/-! ### Reading by index -/

/-- `bytes[start .. stop]`. -/
def range (bytes : List UInt8) (start stop : ℕ) : Option (List UInt8) :=
  if start ≤ stop ∧ stop ≤ bytes.length then some (slice bytes start (stop - start)) else none

/-- The number of the bytes `bytes[offset]`, `bytes[offset + 1]` and so on. -/
def beAt (bytes : List UInt8) (offset width : ℕ) : Option ℕ := do
  let digits ← (List.range width).mapM fun k => bytes[offset + k]?
  return BigEndian.decode digits

/-- The length of the header, by index. -/
def indexedHeaderLen (metadata : List UInt8) : Option (Except PartialError ℕ) := do
  if metadata.length < 18 then return .error .invalidFormat
  if (← range metadata 0 4) ≠ metadataMagic then return .error .invalidFormat
  let groupIdLen ← beAt metadata 14 2
  let snapshotLenPos := 16 + groupIdLen
  if metadata.length < snapshotLenPos + 2 then return .error .invalidFormat
  let snapshotIdLen ← beAt metadata snapshotLenPos 2
  let headerLen := snapshotLenPos + 2 + snapshotIdLen
  if metadata.length < headerLen then return .error .invalidFormat
  return .ok headerLen

/-- Reads the metadata by index. -/
def indexedParseMetadata (metadata : List UInt8) :
    Option (Except PartialError OpenRaftSnapshotMetadata) := do
  match ← indexedHeaderLen metadata with
  | .error e => return .error e
  | .ok headerLen =>
    let totalParts ← beAt metadata 4 2
    if totalParts = 0 then return .error .invalidFormat
    let snapshotSize ← beAt metadata 6 8
    let groupIdLen ← beAt metadata 14 2
    match fromUtf8 (← range metadata 16 (16 + groupIdLen)) with
    | .error e => return .error e
    | .ok groupId =>
      let snapshotIdStart := 18 + groupIdLen
      match fromUtf8 (← range metadata snapshotIdStart headerLen) with
      | .error e => return .error e
      | .ok snapshotId =>
        if groupId = "" ∨ snapshotId = "" then return .error .invalidFormat
        let bitmapLen := (totalParts + 7) / 8
        if metadata.length ≠ headerLen + bitmapLen then return .error .invalidFormat
        let bitmap ← range metadata headerLen metadata.length
        return .ok ⟨groupId, snapshotId, snapshotSize, totalParts, bitmap⟩

section Indices

variable {bytes : List UInt8} {offset width : ℕ}

theorem length_slice (h : offset + width ≤ bytes.length) :
    (slice bytes offset width).length = width := by
  rw [slice, length_take, length_drop]
  omega

/-- The number that some bytes spell is written with these bytes. -/
theorem encode_decode_slice (h : offset + width ≤ bytes.length) :
    BigEndian.encode width (BigEndian.decode (slice bytes offset width)) =
      slice bytes offset width := by
  have hdecode := BigEndian.encode_decode (slice bytes offset width)
  rwa [length_slice h] at hdecode

theorem decode_slice_lt (h : offset + width ≤ bytes.length) :
    BigEndian.decode (slice bytes offset width) < 256 ^ width := by
  have hdecode := BigEndian.decode_lt (slice bytes offset width)
  rwa [length_slice h] at hdecode

theorem slice_append_drop (bytes : List UInt8) (offset width : ℕ) :
    slice bytes offset width ++ bytes.drop (offset + width) = bytes.drop offset := by
  rw [slice, ← drop_drop, take_append_drop]

theorem range_eq {start stop : ℕ} (h : start ≤ stop) (h' : stop ≤ bytes.length) :
    range bytes start stop = some (slice bytes start (stop - start)) := if_pos ⟨h, h'⟩

theorem mapM_getElem? (h : offset + width ≤ bytes.length) :
    (List.range width).mapM (fun k => bytes[offset + k]?) = some (slice bytes offset width) := by
  induction width generalizing offset with
  | zero => simp [slice]
  | succ width ih =>
    have hlt : offset < bytes.length := by omega
    have hnext : (fun k : ℕ => bytes[offset + k.succ]?) = fun k => bytes[offset + 1 + k]? := by
      funext k
      rw [Nat.add_right_comm, Nat.add_succ]
    have hslice : slice bytes offset (width + 1) =
        bytes[offset] :: slice bytes (offset + 1) width := by
      rw [slice, drop_eq_getElem_cons hlt, take_succ_cons, slice]
    rw [range_succ_eq_map, mapM_cons, Nat.add_zero, getElem?_eq_getElem hlt,
      mapM_map, hslice]
    show (do
      let digits ← (List.range width).mapM fun k : ℕ => bytes[offset + k.succ]?
      pure (bytes[offset] :: digits)) = _
    rw [hnext, ih (by omega)]
    rfl

theorem beAt_eq (h : offset + width ≤ bytes.length) :
    beAt bytes offset width = some (BigEndian.decode (slice bytes offset width)) := by
  rw [beAt, mapM_getElem? h]
  rfl

end Indices

/-! ### No index is out of bounds -/

variable {metadata : List UInt8}

/-- What the header says about the lengths, where it is whole. -/
structure HeaderFits (metadata : List UInt8) (headerLen : ℕ) : Prop where
  long : 18 ≤ metadata.length
  magic : metadata.take 4 = metadataMagic
  group_le : 18 + BigEndian.decode (slice metadata 14 2) ≤ metadata.length
  headerLen_eq : headerLen = 18 + BigEndian.decode (slice metadata 14 2) +
    BigEndian.decode (slice metadata (16 + BigEndian.decode (slice metadata 14 2)) 2)
  headerLen_le : headerLen ≤ metadata.length

theorem metadataHeaderLen_eq_ok {headerLen : ℕ} :
    metadataHeaderLen metadata = .ok headerLen ↔ HeaderFits metadata headerLen := by
  constructor
  · intro h
    rw [metadataHeaderLen] at h
    obtain ⟨hstart, h⟩ := guard_eq_ok.mp h
    obtain ⟨hgroup, h⟩ := guard_eq_ok.mp h
    obtain ⟨hend, h⟩ := guard_eq_ok.mp h
    obtain ⟨⟩ := h
    obtain ⟨hlong, hmagic⟩ := not_or.mp hstart
    exact ⟨not_lt.mp hlong, not_not.mp hmagic, by omega, by omega, by omega⟩
  · rintro ⟨hlong, hmagic, hgroup, rfl, hend⟩
    rw [metadataHeaderLen, if_neg (not_or.mpr ⟨not_lt.mpr hlong, not_not.mpr hmagic⟩)]
    simp only
    rw [if_neg (by omega), if_neg (by omega)]
    exact congrArg Except.ok (by omega)

theorem indexedHeaderLen_eq (metadata : List UInt8) :
    indexedHeaderLen metadata = some (metadataHeaderLen metadata) := by
  rw [indexedHeaderLen, metadataHeaderLen]
  by_cases hlong : metadata.length < 18
  · simp [hlong]
  by_cases hmagic : metadata.take 4 = metadataMagic
  · have hslice : slice metadata 0 4 = metadataMagic := hmagic
    rw [range_eq (by omega) (by omega), beAt_eq (by omega)]
    simp only [hlong, hmagic, hslice, if_false, Option.bind_eq_bind, Option.bind_some,
      Nat.sub_zero, ne_eq, not_true_eq_false, or_self]
    by_cases hgroup : metadata.length < 16 + BigEndian.decode (slice metadata 14 2) + 2
    · rw [if_pos hgroup, if_pos hgroup]
      rfl
    · rw [if_neg hgroup, if_neg hgroup, beAt_eq (by omega), Option.bind_some]
      split_ifs <;> rfl
  · have hslice : slice metadata 0 4 ≠ metadataMagic := hmagic
    rw [range_eq (by omega) (by omega)]
    simp [hlong, hmagic, hslice]

/-- **No index is out of bounds.** -/
theorem indexedParseMetadata_eq (metadata : List UInt8) :
    indexedParseMetadata metadata = some (parseMetadata metadata) := by
  rw [indexedParseMetadata, parseMetadata, indexedHeaderLen_eq]
  cases hheader : metadataHeaderLen metadata with
  | error e => rfl
  | ok headerLen =>
    obtain ⟨hlong, -, hgroup, hlen, hle⟩ := metadataHeaderLen_eq_ok.mp hheader
    simp only [Option.bind_eq_bind, Option.bind_some, ok_bind]
    rw [beAt_eq (by omega), beAt_eq (by omega), beAt_eq (by omega)]
    simp only [Option.bind_some, checkMetadata]
    by_cases hparts : BigEndian.decode (slice metadata 4 2) = 0
    · rw [if_pos hparts, if_pos hparts]
      rfl
    rw [if_neg hparts, if_neg hparts, range_eq (by omega) (by omega), Option.bind_some,
      Nat.add_sub_cancel_left]
    cases fromUtf8 (slice metadata 16 (BigEndian.decode (slice metadata 14 2))) with
    | error e => rfl
    | ok groupId =>
      simp only [ok_bind]
      rw [range_eq (by omega) hle, Option.bind_some]
      cases fromUtf8 (slice metadata (18 + BigEndian.decode (slice metadata 14 2))
          (headerLen - (18 + BigEndian.decode (slice metadata 14 2)))) with
      | error e => rfl
      | ok snapshotId =>
        have hbitmap : (metadata.drop headerLen).length =
            (BigEndian.decode (slice metadata 4 2) + 7) / 8 ↔ metadata.length =
            headerLen + (BigEndian.decode (slice metadata 4 2) + 7) / 8 := by
          rw [length_drop]
          omega
        have hrest : slice metadata headerLen (metadata.length - headerLen) =
            metadata.drop headerLen := take_of_length_le (length_drop).le
        simp only [ok_bind, ne_eq, hbitmap, range_eq hle le_rfl, Option.bind_some, hrest]
        split_ifs <;> rfl

/-! ### What is accepted -/

theorem fromUtf8_eq_ok {bytes : List UInt8} {s : String} :
    fromUtf8 bytes = .ok s ↔ bytes = asBytes s := by
  constructor
  · intro h
    rw [fromUtf8, String.fromUTF8?] at h
    split_ifs at h with hvalid
    obtain ⟨⟩ := h
    rfl
  · rintro rfl
    exact fromUtf8_asBytes s

/-- The bytes of a whole header, and of what follows it. -/
theorem HeaderFits.eq_layout {headerLen g : ℕ} (h : HeaderFits metadata headerLen)
    (hg : BigEndian.decode (slice metadata 14 2) = g) :
    metadata = layout (slice metadata 4 2) (slice metadata 6 8) (slice metadata 16 g)
      (slice metadata (18 + g) (headerLen - (18 + g))) (metadata.drop headerLen) := by
  obtain ⟨hlong, hmagic, hgroup, hlen, hle⟩ := h
  rw [hg] at hgroup hlen
  have hcut {a b : ℕ} (hab : a ≤ b) :
      metadata.drop a = slice metadata a (b - a) ++ metadata.drop b := by
    rw [← slice_append_drop metadata a (b - a), Nat.add_sub_cancel' hab]
  have hgroupLen : (slice metadata 16 g).length = g := length_slice (by omega)
  have hsnapshotLen : (slice metadata (18 + g) (headerLen - (18 + g))).length =
      headerLen - (18 + g) := length_slice (by omega)
  have hstart : metadata = metadataMagic ++ metadata.drop 4 := by
    rw [← hmagic, take_append_drop]
  have hgroupNum : BigEndian.encode 2 g = slice metadata 14 2 := by
    rw [← hg, encode_decode_slice (by omega)]
  have hsnapshotNum : BigEndian.encode 2 (headerLen - (18 + g)) = slice metadata (16 + g) 2 := by
    rw [hlen, Nat.add_sub_cancel_left, encode_decode_slice (by omega)]
  have htwo : 18 + g - (16 + g) = 2 := by omega
  refine hstart.trans ?_
  rw [layout, hgroupLen, hsnapshotLen, hgroupNum, hsnapshotNum, hcut (b := 6) (by omega),
    hcut (b := 14) (by omega), hcut (b := 16) (by omega),
    hcut (b := 16 + g) (by omega), hcut (b := 18 + g) (by omega), hcut (b := headerLen) (by omega),
    Nat.add_sub_cancel_left, htwo]

namespace OpenRaftSnapshotMetadata

/-- The bytes of the metadata. -/
def encode (metadata : OpenRaftSnapshotMetadata) : List UInt8 :=
  layout (BigEndian.encode 2 metadata.totalParts) (BigEndian.encode 8 metadata.snapshotSize)
    (asBytes metadata.groupId) (asBytes metadata.snapshotId) metadata.bitmap

/-- Metadata of a snapshot in parts, with a bitmap of the length that the parts need. -/
structure WellFormed (metadata : OpenRaftSnapshotMetadata) : Prop where
  parts_pos : 0 < metadata.totalParts
  parts_lt : metadata.totalParts < 2 ^ 16
  size_lt : metadata.snapshotSize < 2 ^ 64
  groupId_ne : metadata.groupId ≠ ""
  groupId_lt : (asBytes metadata.groupId).length < 2 ^ 16
  snapshotId_ne : metadata.snapshotId ≠ ""
  snapshotId_lt : (asBytes metadata.snapshotId).length < 2 ^ 16
  length_bitmap : metadata.bitmap.length = (metadata.totalParts + 7) / 8

end OpenRaftSnapshotMetadata

variable {md : OpenRaftSnapshotMetadata}

theorem checkMetadata_eq_ok {totalParts snapshotSize : ℕ} {groupId snapshotId bitmap : List UInt8} :
    checkMetadata totalParts snapshotSize groupId snapshotId bitmap = .ok md ↔
      totalParts = md.totalParts ∧ snapshotSize = md.snapshotSize ∧
        groupId = asBytes md.groupId ∧ snapshotId = asBytes md.snapshotId ∧ bitmap = md.bitmap ∧
        0 < md.totalParts ∧ md.groupId ≠ "" ∧ md.snapshotId ≠ "" ∧
        md.bitmap.length = (md.totalParts + 7) / 8 := by
  constructor
  · intro h
    rw [checkMetadata] at h
    obtain ⟨hparts, h⟩ := guard_eq_ok.mp h
    obtain ⟨group, hgroup, h⟩ := bind_eq_ok.mp h
    obtain ⟨snapshot, hsnapshot, h⟩ := bind_eq_ok.mp h
    obtain ⟨hids, h⟩ := guard_eq_ok.mp h
    obtain ⟨hbitmap, h⟩ := guard_eq_ok.mp h
    obtain ⟨⟩ := h
    obtain ⟨hgroupNe, hsnapshotNe⟩ := not_or.mp hids
    exact ⟨rfl, rfl, fromUtf8_eq_ok.mp hgroup, fromUtf8_eq_ok.mp hsnapshot, rfl,
      Nat.pos_of_ne_zero hparts, hgroupNe, hsnapshotNe, not_not.mp hbitmap⟩
  · rintro ⟨rfl, rfl, rfl, rfl, rfl, hparts, hgroup, hsnapshot, hbitmap⟩
    rw [checkMetadata, if_neg (Nat.pos_iff_ne_zero.mp hparts), fromUtf8_asBytes, ok_bind,
      fromUtf8_asBytes, ok_bind, if_neg (not_or.mpr ⟨hgroup, hsnapshot⟩),
      if_neg (not_not.mpr hbitmap)]

/-- **What is accepted**: the bytes of well-formed metadata, and nothing else. -/
theorem parseMetadata_eq_ok :
    parseMetadata metadata = .ok md ↔ md.WellFormed ∧ metadata = md.encode := by
  constructor
  · intro h
    obtain ⟨headerLen, hheader, -⟩ := bind_eq_ok.mp h
    have hfits := metadataHeaderLen_eq_ok.mp hheader
    have hlayout := hfits.eq_layout rfl
    obtain ⟨hlong, -, hgroup, hlen, hle⟩ := hfits
    have hglt : BigEndian.decode (slice metadata 14 2) < 256 ^ 2 := decode_slice_lt (by omega)
    generalize BigEndian.decode (slice metadata 14 2) = g at hgroup hlen hlayout hglt
    have hslt : BigEndian.decode (slice metadata (16 + g) 2) < 256 ^ 2 :=
      decode_slice_lt (by omega)
    have htotalLen : (slice metadata 4 2).length = 2 := length_slice (by omega)
    have hsizeLen : (slice metadata 6 8).length = 8 := length_slice (by omega)
    have hgroupLen : (slice metadata 16 g).length = g := length_slice (by omega)
    have hsnapshotLen : (slice metadata (18 + g) (headerLen - (18 + g))).length =
        headerLen - (18 + g) := length_slice (by omega)
    rw [hlayout, parseMetadata_layout htotalLen hsizeLen (by omega) (by omega)] at h
    obtain ⟨htotal, hsize, hgroupId, hsnapshotId, hbitmap, hparts, hgroupNe, hsnapshotNe,
      hbitmapLen⟩ := checkMetadata_eq_ok.mp h
    have htotalNum : BigEndian.encode 2 md.totalParts = slice metadata 4 2 := by
      rw [← htotal, encode_decode_slice (by omega)]
    have hsizeNum : BigEndian.encode 8 md.snapshotSize = slice metadata 6 8 := by
      rw [← hsize, encode_decode_slice (by omega)]
    refine ⟨⟨hparts, ?_, ?_, hgroupNe, ?_, hsnapshotNe, ?_, hbitmapLen⟩, ?_⟩
    · rw [← htotal]
      exact decode_slice_lt (by omega)
    · rw [← hsize]
      exact decode_slice_lt (by omega)
    · rw [← hgroupId, hgroupLen]
      exact hglt
    · rw [← hsnapshotId, hsnapshotLen]
      omega
    · rw [OpenRaftSnapshotMetadata.encode, htotalNum, hsizeNum, ← hgroupId, ← hsnapshotId,
        ← hbitmap]
      exact hlayout
  · rintro ⟨hmd, rfl⟩
    rw [OpenRaftSnapshotMetadata.encode, parseMetadata_layout (BigEndian.length_encode _ _)
      (BigEndian.length_encode _ _) hmd.groupId_lt hmd.snapshotId_lt,
      BigEndian.decode_encode (by simpa using hmd.parts_lt),
      BigEndian.decode_encode (by simpa using hmd.size_lt)]
    exact checkMetadata_eq_ok.mpr ⟨rfl, rfl, rfl, rfl, rfl, hmd.parts_pos, hmd.groupId_ne,
      hmd.snapshotId_ne, hmd.length_bitmap⟩

/-! ### Copies and their metadata -/

namespace OpenRaftSnapshotPartial

variable {p : OpenRaftSnapshotPartial}

theorem Described.wellFormed (h : p.Described) : p.metadata.WellFormed where
  parts_pos := h.parts_pos
  parts_lt := h.parts_lt
  size_lt := h.size_lt
  groupId_ne := h.group.ne_empty
  groupId_lt := h.group.length
  snapshotId_ne := h.snapshotId_ne
  snapshotId_lt := h.snapshotId_lt
  length_bitmap := Bitmap.length_ofOptions p.parts

theorem Described.metadataBytes_eq (h : p.Described) : p.metadataBytes = p.metadata.encode :=
  (parseMetadata_eq_ok.mp (parseMetadata_metadataBytes h)).2

theorem test_bitmap (p : OpenRaftSnapshotPartial) (i : ℕ) :
    Bitmap.test p.bitmap i = true ↔ ∃ bytes, p.parts[i]? = some (some bytes) :=
  Bitmap.test_ofOptions p.parts i

/-- A copy that holds empty parts where the bitmap says so. -/
def ofMetadata (md : OpenRaftSnapshotMetadata) : OpenRaftSnapshotPartial where
  groupId := []
  raftGroupId := md.groupId
  snapshotId := md.snapshotId
  snapshotSize := md.snapshotSize
  parts := (List.range md.totalParts).map fun i =>
    if Bitmap.test md.bitmap i then some [] else none

/-- The copy has the bitmap of the metadata, where this has no bit past the last part. -/
theorem metadata_ofMetadata (h : md.WellFormed)
    (hpadding : ∀ i, md.totalParts ≤ i → Bitmap.test md.bitmap i = false) :
    (ofMetadata md).metadata = md := by
  have hlen : (ofMetadata md).parts.length = md.totalParts := by simp [ofMetadata]
  have hbitmap : (ofMetadata md).bitmap = md.bitmap := by
    refine Bitmap.eq_of_test ?_ fun i => Bool.eq_iff_iff.mpr ?_
    · rw [bitmap, Bitmap.length_ofOptions, hlen, h.length_bitmap]
    · rw [test_bitmap]
      rcases Nat.lt_or_ge i md.totalParts with hi | hi
      · simp [ofMetadata, hi]
      · simp [ofMetadata, hi, hpadding i hi]
  rw [metadata, hbitmap, hlen]
  rfl

theorem described_ofMetadata (h : md.WellFormed) :
    (ofMetadata md).Described where
  parts_pos := by simpa [ofMetadata] using h.parts_pos
  parts_lt := by simpa [ofMetadata] using h.parts_lt
  size_lt := h.size_lt
  group := ⟨h.groupId_ne, h.groupId_lt⟩
  snapshotId_ne := h.snapshotId_ne
  snapshotId_lt := h.snapshotId_lt

end OpenRaftSnapshotPartial

namespace OpenRaftSnapshotMetadata

theorem encode_injective {md' : OpenRaftSnapshotMetadata} (h : md.WellFormed) (h' : md'.WellFormed)
    (heq : md.encode = md'.encode) : md = md' :=
  Except.ok.inj ((parseMetadata_eq_ok.mpr ⟨h, rfl⟩).symm.trans
    (parseMetadata_eq_ok.mpr ⟨h', heq⟩))

/-- Metadata is that of a copy exactly if its bitmap has no bit past the last part. -/
theorem exists_copy_iff (h : md.WellFormed) :
    (∃ p : OpenRaftSnapshotPartial, p.Described ∧ p.metadataBytes = md.encode) ↔
      ∀ i, md.totalParts ≤ i → Bitmap.test md.bitmap i = false := by
  constructor
  · rintro ⟨p, hp, heq⟩ i hi
    rw [hp.metadataBytes_eq] at heq
    obtain rfl := encode_injective hp.wellFormed h heq
    refine Bool.eq_false_iff.mpr fun htest => ?_
    obtain ⟨part, hpart⟩ := (p.test_bitmap i).mp htest
    exact absurd (List.getElem?_eq_some_iff.mp hpart).1 (not_lt.mpr hi)
  · intro hpadding
    have hp := OpenRaftSnapshotPartial.described_ofMetadata h
    refine ⟨_, hp, ?_⟩
    rw [hp.metadataBytes_eq, OpenRaftSnapshotPartial.metadata_ofMetadata h hpadding]

end OpenRaftSnapshotMetadata

/-- **The format of metadata.** What a copy writes is read back. No reader indexes out of bounds. A
string is accepted exactly if it is laid out as metadata, with nothing after the bitmap; some copy
writes it exactly if the bitmap has no bit past the last part. -/
theorem metadata_format (bytes : List UInt8) :
    (∀ p : OpenRaftSnapshotPartial, p.Described →
      parseMetadata p.metadataBytes = .ok p.metadata ∧
        ∀ i, Bitmap.test p.metadata.bitmap i = true ↔ ∃ part, p.parts[i]? = some (some part)) ∧
    indexedParseMetadata bytes = some (parseMetadata bytes) ∧
    (∀ md, parseMetadata bytes = .ok md ↔ md.WellFormed ∧ bytes = md.encode) ∧
    ∀ md, parseMetadata bytes = .ok md →
      ((∃ p : OpenRaftSnapshotPartial, p.Described ∧ p.metadataBytes = bytes) ↔
        ∀ i, md.totalParts ≤ i → Bitmap.test md.bitmap i = false) := by
  refine ⟨fun p hp => ⟨OpenRaftSnapshotPartial.parseMetadata_metadataBytes hp, p.test_bitmap⟩,
    indexedParseMetadata_eq bytes, fun md => parseMetadata_eq_ok, fun md hparse => ?_⟩
  obtain ⟨hmd, rfl⟩ := parseMetadata_eq_ok.mp hparse
  exact OpenRaftSnapshotMetadata.exists_copy_iff hmd

/-- Metadata of one part whose bitmap is full. -/
def paddedMetadata : List UInt8 :=
  metadataMagic ++ [0, 1, 0, 0, 0, 0, 0, 0, 0, 1, 0, 1, 0x67, 0, 1, 0x73, 0xFF]

/-- A bitmap with bits past the last part is accepted, and no copy writes it. -/
theorem padded_metadata_accepted :
    parseMetadata paddedMetadata = .ok ⟨"g", "s", 1, 1, [0xFF]⟩ ∧
      ¬∃ p : OpenRaftSnapshotPartial, p.Described ∧ p.metadataBytes = paddedMetadata := by
  have hmd : OpenRaftSnapshotMetadata.WellFormed ⟨"g", "s", 1, 1, [0xFF]⟩ := by
    constructor <;> decide
  have heq : paddedMetadata = OpenRaftSnapshotMetadata.encode ⟨"g", "s", 1, 1, [0xFF]⟩ := by decide
  refine ⟨parseMetadata_eq_ok.mpr ⟨hmd, heq⟩, ?_⟩
  rw [heq, OpenRaftSnapshotMetadata.exists_copy_iff hmd]
  exact fun h => absurd (h 1 le_rfl) (by decide)

end RustExample.OpenraftCluster
