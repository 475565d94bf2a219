import RustExample.MainlineRecord.Encoding

/-!
# Publishing a member

A node reads the record of its cluster from the DHT, puts its own member into it and hands the
encoding of the result to the DHT. The member takes its place among the others by the times of
their updates.

Source: `iroh_mainline_kad/src/dht.rs`, `publish_member_once`.

* The item that is read and the system's times and nonces are arguments; the result is what is
  handed to the DHT, before it is signed.
-/

namespace RustExample.MainlineRecord

open List

/-- An item of the DHT. -/
structure MutableItem where
  value : Bytes
  seq : Int64
deriving DecidableEq, Repr

/-- What is handed to the DHT. -/
structure PutMutable where
  item : MutableItem
  cas : Option Int64
deriving DecidableEq, Repr

namespace Crates

variable (crates : Crates)

/-- The record in the DHT, or a new one. -/
def currentRecord (current : Option MutableItem) (created : Stamp) : Except String ClusterRecord :=
  match current with
  | some item => crates.decodeClusterRecord item.value
  | none => .ok (.new created)

/-- Hands the DHT the record with the member. -/
def publishMemberOnce (current : Option MutableItem) (member : MemberRecord) (maxMembers : ℕ)
    (created inserted : Stamp) : Option (Except String PutMutable) :=
  match crates.currentRecord current created with
  | .error e => some (.error e)
  | .ok record =>
    let cas := current.map MutableItem.seq
    let seq := current.elim 1 (·.seq + 1)
    let record := record.insertMember member maxMembers inserted
    (crates.encodeClusterRecordBounded record DHT_VALUE_LIMIT).map fun encoded =>
      match encoded.1 with
      | .error e => .error e
      | .ok value => .ok ⟨⟨value, seq⟩, cas⟩

/-- The value is within the limit and decodes to a record with the member, with at most
`maxMembers` members with distinct ids, the newest first. -/
structure Includes (member : MemberRecord) (maxMembers : ℕ) (value : Bytes)
    (record : ClusterRecord) : Prop where
  length_le : value.length ≤ DHT_VALUE_LIMIT
  decode : crates.decodeClusterRecord value = .ok record
  mem : member ∈ record.members
  nodup : (record.members.map MemberRecord.endpointId).Nodup
  card_le : record.members.length ≤ maxMembers
  newest : record.members.Pairwise fun a b => b.updatedAt ≤ a.updatedAt

end Crates

/-- The members that come before a new one: the last ones with the other ids, in order. -/
structure IsAhead (members : List MemberRecord) (member : MemberRecord)
    (ahead : List MemberRecord) : Prop where
  sorted : ahead.Pairwise Precedes
  mem_iff : ∀ m, m ∈ ahead ↔
    IsLatest members m ∧ m.endpointId ≠ member.endpointId ∧ Precedes m member

/-! ### The place of the new member -/

variable {crates : Crates} {members : List MemberRecord} {member : MemberRecord}

theorem Precedes.ne {a b : MemberRecord} (h : Precedes a b) : a ≠ b := by
  rintro rfl
  exact h.asymm h

theorem IsLatest.eq_of_endpointId {m m' : MemberRecord} (h : IsLatest members m)
    (h' : IsLatest members m') (hid : m.endpointId = m'.endpointId) : m = m' := by
  have hm := getElem?_byEndpointId.mpr ⟨rfl, h⟩
  have hm' := getElem?_byEndpointId.mpr ⟨hid.symm, h'⟩
  exact Option.some.inj (hm.symm.trans hm')

theorem nodup_merged (members : List MemberRecord) (member : MemberRecord) :
    ((merged members member).map MemberRecord.endpointId).Nodup := by
  refine List.Pairwise.map _ (fun a b h => h) ?_
  refine (pairwise_merged members member).imp_of_mem fun {a b} ha hb hlt hid => hlt.ne ?_
  rcases mem_merged.mp ha with rfl | ⟨hane, ha⟩
  · rcases mem_merged.mp hb with rfl | ⟨hbne, -⟩
    · rfl
    · exact absurd hid hbne
  · rcases mem_merged.mp hb with rfl | ⟨-, hb⟩
    · exact absurd hid.symm hane
    · exact ha.eq_of_endpointId hb hid

/-- **The place of the new member** is behind the members that come before it. -/
theorem exists_ahead (members : List MemberRecord) (member : MemberRecord) :
    ∃ ahead behind, merged members member = ahead ++ member :: behind ∧
      IsAhead members member ahead := by
  have hself : member ∈ merged members member := mem_merged.mpr (.inl rfl)
  obtain ⟨ahead, behind, heq⟩ := append_of_mem hself
  have hsorted := pairwise_merged members member
  rw [heq, pairwise_append, pairwise_cons] at hsorted
  obtain ⟨hahead, ⟨hbehind, -⟩, hbefore⟩ := hsorted
  refine ⟨ahead, behind, heq, hahead, fun m => ⟨fun hm => ?_, fun ⟨hlatest, hid, hm⟩ => ?_⟩⟩
  · have hlt : Precedes m member := hbefore m hm member mem_cons_self
    have hmem : m ∈ merged members member := heq ▸ mem_append_left _ hm
    rcases mem_merged.mp hmem with rfl | ⟨hne, hlatest⟩
    · exact absurd rfl hlt.ne
    · exact ⟨hlatest, hne.symm, hlt⟩
  · have hmem : m ∈ merged members member := mem_merged.mpr (.inr ⟨hid.symm, hlatest⟩)
    rw [heq, mem_append, mem_cons] at hmem
    rcases hmem with hmem | rfl | hmem
    · exact hmem
    · exact absurd rfl hm.ne
    · exact absurd (hbehind m hmem) hm.asymm

theorem IsAhead.unique {ahead ahead' : List MemberRecord} (h : IsAhead members member ahead)
    (h' : IsAhead members member ahead') : ahead = ahead' := by
  refine List.Perm.eq_of_pairwise (fun a b _ _ hab hba => absurd hba hab.asymm) h.sorted
    h'.sorted ?_
  have hnodup : ahead.Nodup := h.sorted.imp Precedes.ne
  have hnodup' : ahead'.Nodup := h'.sorted.imp Precedes.ne
  exact (perm_ext_iff_of_nodup hnodup hnodup').mpr fun m =>
    (h.mem_iff m).trans (h'.mem_iff m).symm

/-- The first entries contain an entry that occurs once if its place is among them. -/
theorem mem_take_append_cons {α : Type*} {a : α} {l l' : List α} {k : ℕ} (h : a ∉ l) :
    a ∈ (l ++ a :: l').take k ↔ l.length < k := by
  constructor
  · intro hmem
    by_contra hle
    rw [take_append_of_le_length (Nat.le_of_not_lt hle)] at hmem
    exact h (mem_of_mem_take hmem)
  · intro hlt
    obtain ⟨n, rfl⟩ : ∃ n, k = l.length + (n + 1) := ⟨k - l.length - 1, by omega⟩
    rw [take_length_add_append, take_succ_cons]
    exact mem_append_right _ mem_cons_self

/-! ### What is published -/

/-- **What is handed to the DHT** encodes the longest prefix that fits, and decodes to it. -/
theorem publishMemberOnce_eq_some (hlossless : crates.Lossless) (hmono : crates.Monotone)
    {current : Option MutableItem} {created inserted : Stamp} {record : ClusterRecord}
    (hcurrent : crates.currentRecord current created = .ok record) {maxMembers : ℕ}
    (hmax : 1 ≤ maxMembers) {put : PutMutable}
    (hput : crates.publishMemberOnce current member maxMembers created inserted =
      some (.ok put)) :
    ∃ k, IsLast (crates.Fits (record.insertMember member maxMembers inserted) DHT_VALUE_LIMIT)
        ((merged record.members member).take maxMembers).length k ∧ 0 < k ∧
      put.item.value.length ≤ DHT_VALUE_LIMIT ∧
      crates.decodeClusterRecord put.item.value =
        .ok ((record.insertMember member maxMembers inserted).keep k) := by
  have hmembers : (record.insertMember member maxMembers inserted).members =
      (merged record.members member).take maxMembers := rfl
  have hne : (record.insertMember member maxMembers inserted).members ≠ [] := by
    obtain ⟨ahead, behind, heq, -⟩ := exists_ahead record.members member
    rw [hmembers, heq]
    exact fun h => by simpa [Nat.ne_of_gt hmax] using List.take_eq_nil_iff.mp h
  obtain ⟨k, hk, hpos, hzero⟩ :=
    encodeClusterRecordBounded_spec DHT_VALUE_LIMIT hlossless hmono hne
  rw [Crates.publishMemberOnce, hcurrent] at hput
  rcases Nat.eq_zero_or_pos k with rfl | hk'
  · obtain ⟨e, he⟩ := hzero rfl
    simp [he] at hput
  · obtain ⟨value, hvalue, heq⟩ := hpos hk'
    simp only [heq, Option.map_some, Option.some.injEq, Except.ok.injEq] at hput
    subst hput
    obtain ⟨value', hvalue', hle⟩ := hk.holds hk'
    obtain rfl := Except.ok.inj (hvalue.symm.trans hvalue')
    exact ⟨k, hk, hk', hle, hlossless.decode hvalue hle⟩

/-- What is published is a record as it should be, with the new member if it is in the prefix. -/
theorem includes_iff_mem {maxMembers k : ℕ} {inserted : Stamp} {record : ClusterRecord}
    {value : Bytes} (hle : value.length ≤ DHT_VALUE_LIMIT)
    (hdecode : crates.decodeClusterRecord value =
      .ok ((record.insertMember member maxMembers inserted).keep k)) :
    (∃ record', crates.Includes member maxMembers value record') ↔
      member ∈ ((merged record.members member).take maxMembers).take k := by
  constructor
  · rintro ⟨record', h⟩
    obtain rfl := Except.ok.inj (h.decode.symm.trans hdecode)
    exact h.mem
  · intro hmem
    have hsub : (((merged record.members member).take maxMembers).take k).Sublist
        (merged record.members member) := (take_sublist _ _).trans (take_sublist _ _)
    refine ⟨_, hle, hdecode, hmem, ?_, ?_, ?_⟩
    · exact (nodup_merged record.members member).sublist (hsub.map MemberRecord.endpointId)
    · exact (length_take_le' _ _).trans (length_take_le _ _)
    · exact ((pairwise_merged record.members member).sublist hsub).imp Precedes.updatedAt_le

/-- **Publishing includes the publisher** exactly if fewer than `max_members` members come before
it, and they fit into a value with it. -/
theorem publishMemberOnce_includes_iff (hlossless : crates.Lossless) (hmono : crates.Monotone)
    (current : Option MutableItem) (created inserted : Stamp) (record : ClusterRecord)
    (hcurrent : crates.currentRecord current created = .ok record) (member : MemberRecord)
    (maxMembers : ℕ) (hmax : 1 ≤ maxMembers) (put : PutMutable)
    (hput : crates.publishMemberOnce current member maxMembers created inserted =
      some (.ok put)) :
    (∃ record', crates.Includes member maxMembers put.item.value record') ↔
      ∃ ahead, IsAhead record.members member ahead ∧ ahead.length < maxMembers ∧
        ∃ value, crates.encodeClusterRecord
          ⟨record.version, inserted.now, inserted.nonce, ahead ++ [member]⟩ = .ok value ∧
          value.length ≤ DHT_VALUE_LIMIT := by
  obtain ⟨k, hk, hpos, hle, hdecode⟩ :=
    publishMemberOnce_eq_some hlossless hmono hcurrent hmax hput
  obtain ⟨ahead, behind, heq, hahead⟩ := exists_ahead record.members member
  have hnotMem : member ∉ ahead := fun hmem => ((hahead.mem_iff member).mp hmem).2.1 rfl
  have hkeep (hlt : ahead.length < maxMembers) :
      (record.insertMember member maxMembers inserted).keep (ahead.length + 1) =
        ⟨record.version, inserted.now, inserted.nonce, ahead ++ [member]⟩ := by
    have htake : ((merged record.members member).take maxMembers).take (ahead.length + 1) =
        ahead ++ [member] := by
      rw [take_take, show min (ahead.length + 1) maxMembers = ahead.length + 1 by omega, heq,
        take_length_add_append]
      rfl
    exact congrArg (ClusterRecord.mk _ _ _) htake
  have hlength : ahead.length < maxMembers →
      ahead.length + 1 ≤ ((merged record.members member).take maxMembers).length := by
    intro hlt
    rw [length_take, heq, length_append, length_cons]
    omega
  rw [includes_iff_mem hle hdecode, take_take, heq, mem_take_append_cons hnotMem]
  constructor
  · intro hlt
    obtain ⟨value, hvalue, hfits⟩ := fits_anti hlossless hmono
      (show ahead.length + 1 ≤ k by omega) (hk.holds hpos)
    rw [hkeep (by omega)] at hvalue
    exact ⟨ahead, hahead, by omega, value, hvalue, hfits⟩
  · rintro ⟨ahead', hahead', hlt, value, hvalue, hfits⟩
    obtain rfl := hahead'.unique hahead
    have hlast := hk.le_of_holds (hlength hlt) ⟨value, by rw [hkeep hlt, hvalue], hfits⟩
    omega

/-- The publisher comes between the two members of the current record, and all three fit. -/
theorem publishMemberOnce_includes_between :
    let other : MemberRecord := ⟨"b", "n", [], [], [], [], 101⟩
    let old : MemberRecord := ⟨"c", "n", [], [], [], [], 99⟩
    let member : MemberRecord := ⟨"a", "n", [], [], [], [], 100⟩
    ∃ value put, postcardCrates.encodeClusterRecord ⟨1, 7, 1, [other, old]⟩ = .ok value ∧
      postcardCrates.publishMemberOnce (some ⟨value, 3⟩) member 16 ⟨7, 1⟩ ⟨7, 2⟩ =
        some (.ok put) ∧
      ∃ record', postcardCrates.Includes member 16 put.item.value record' := by
  intro other old member
  have hput : postcardCrates.publishMemberOnce (some ⟨[73, 75, 68, 49, 1, 7, 1, 2, 1, 98, 1, 110, 0,
      0, 0, 0, 101, 1, 99, 1, 110, 0, 0, 0, 0, 99], 3⟩) member 16 ⟨7, 1⟩ ⟨7, 2⟩ = some (.ok
      ⟨⟨[73, 75, 68, 49, 1, 7, 2, 3, 1, 98, 1, 110, 0, 0, 0, 0, 101, 1, 97, 1, 110, 0, 0, 0, 0, 100,
        1, 99, 1, 110, 0, 0, 0, 0, 99], 4⟩, some 3⟩) := by
    decide
  obtain ⟨ahead, behind, heq, hahead⟩ := exists_ahead [other, old] member
  have hmerged : merged [other, old] member = [other, member, old] := by decide
  have hfirst : ahead = [other] := by
    rw [hmerged] at heq
    rcases ahead with _ | ⟨m, _ | ⟨m', ahead⟩⟩
    · exact absurd (List.cons.inj heq).1 (by decide)
    · rw [(List.cons.inj heq).1]
    · have hmem : member ∈ [old] := (List.cons.inj (List.cons.inj heq).2).2 ▸
        mem_append_right ahead mem_cons_self
      exact absurd (List.mem_singleton.mp hmem) (by decide)
  refine ⟨_, _, rfl, hput, (publishMemberOnce_includes_iff postcard_lossless postcard_monotone _
    ⟨7, 1⟩ ⟨7, 2⟩ ⟨1, 7, 1, [other, old]⟩ (by decide) member 16 (by decide) _ hput).mpr
    ⟨ahead, hahead, by rw [hfirst]; decide, ?_⟩⟩
  rw [hfirst]
  exact ⟨_, rfl, by decide⟩

/-- The clock of the member "b" is ahead of the publisher's, and one member is kept. -/
theorem publishMemberOnce_drops_publisher :
    let other : MemberRecord := ⟨"b", "n", [], [], [], [], 101⟩
    let member : MemberRecord := ⟨"a", "n", [], [], [], [], 100⟩
    ∃ value put, postcardCrates.encodeClusterRecord ⟨1, 7, 1, [other]⟩ = .ok value ∧
      postcardCrates.publishMemberOnce (some ⟨value, 3⟩) member 1 ⟨7, 1⟩ ⟨7, 2⟩ =
        some (.ok put) ∧
      ¬∃ record', postcardCrates.Includes member 1 put.item.value record' := by
  intro other member
  refine ⟨_, ⟨⟨[73, 75, 68, 49, 1, 7, 2, 1, 1, 98, 1, 110, 0, 0, 0, 0, 101], 4⟩, some 3⟩, rfl,
    by decide, ?_⟩
  rintro ⟨record', h⟩
  have hrecord : record' = ⟨1, 7, 2, [other]⟩ := by
    have hdecode : postcardCrates.decodeClusterRecord
        [73, 75, 68, 49, 1, 7, 2, 1, 1, 98, 1, 110, 0, 0, 0, 0, 101] =
          .ok ⟨1, 7, 2, [other]⟩ := by
      decide
    exact Except.ok.inj (h.decode.symm.trans hdecode)
  have hmem := h.mem
  rw [hrecord] at hmem
  exact absurd hmem (by decide)

end RustExample.MainlineRecord
