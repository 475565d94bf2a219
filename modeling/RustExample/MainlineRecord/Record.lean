import Mathlib.Data.List.Induction
import Mathlib.Data.List.Sort
import Mathlib.Data.String.Basic
import RustExample.Foundation.KeyStore
import RustExample.Foundation.Postcard

/-!
# Cluster records

The nodes of a cluster share a record of the members that can be dialled. A node puts itself into
the record: of every endpoint id the last entry is kept, the members are sorted by the time of
their update, newest first, and the first `max_members` of them stay.

Records are written by the crate `postcard`; records that older nodes wrote are read by
`serde_json`. What the code relies on is that postcard encodes every record and loses nothing, and
does not need fewer bytes for more members. The format of postcard is like this.

Source: `iroh_mainline_kad/src/records.rs`.

* The map of `insert_member` is a store with ordered keys; `into_values` lists its values in the
  order of the keys. `sort_by_key` is stable.
* The times and nonces that a call reads from the system are arguments, and so are the crates.
-/

namespace RustExample.MainlineRecord

open List

/-- A blob that a member has. -/
structure BlobProviderRecord where
  hash : String
  format : String
  name : String
  size : UInt64
deriving DecidableEq, Repr

/-- A member. -/
structure MemberRecord where
  endpointId : String
  name : String
  protocols : List String
  blobs : List BlobProviderRecord
  addrs : List String
  relayUrls : List String
  updatedAt : UInt64
deriving DecidableEq, Repr

/-- The members, with a date. -/
structure ClusterRecord where
  version : UInt8
  updatedAt : UInt64
  nonce : UInt64
  members : List MemberRecord
deriving DecidableEq, Repr

/-- What a call reads from the system: `now_unix_secs` and `new_nonce`. -/
structure Stamp where
  now : UInt64
  nonce : UInt64
deriving DecidableEq, Repr

namespace ClusterRecord

/-- A record without members. -/
def new (stamp : Stamp) : ClusterRecord := ⟨1, stamp.now, stamp.nonce, []⟩

/-- The record with its first `k` members. -/
def keep (record : ClusterRecord) (k : ℕ) : ClusterRecord :=
  { record with members := record.members.take k }

end ClusterRecord

/-! ### Inserting a member -/

/-- The members under their endpoint ids; a later one replaces an earlier one. -/
def byEndpointId (members : List MemberRecord) : KeyStore String MemberRecord :=
  members.foldl (fun m existing => m.insert existing.endpointId existing) ∅

/-- Sort by `Reverse(updated_at)`. -/
def newestFirst (members : List MemberRecord) : List MemberRecord :=
  members.insertionSort fun a b => b.updatedAt ≤ a.updatedAt

/-- Puts a member into the record. -/
def ClusterRecord.insertMember (record : ClusterRecord) (member : MemberRecord) (maxMembers : ℕ)
    (stamp : Stamp) : ClusterRecord :=
  let members := (byEndpointId record.members).insert member.endpointId member
  { record with
    members := (newestFirst (members.toList.map Prod.snd)).take maxMembers
    updatedAt := stamp.now
    nonce := stamp.nonce }

/-! ### The order of the members -/

/-- The newer member comes first; of two with one time, the one with the smaller id. -/
def Precedes (a b : MemberRecord) : Prop :=
  b.updatedAt < a.updatedAt ∨ b.updatedAt = a.updatedAt ∧ a.endpointId < b.endpointId

theorem Precedes.updatedAt_le {a b : MemberRecord} (h : Precedes a b) :
    b.updatedAt ≤ a.updatedAt := by
  rcases h with h | ⟨h, -⟩
  · exact UInt64.le_of_lt h
  · exact h ▸ UInt64.le_refl _

theorem Precedes.asymm {a b : MemberRecord} (h : Precedes a b) : ¬ Precedes b a := by
  rintro (h' | ⟨h', hid⟩)
  · exact UInt64.lt_irrefl _ (UInt64.lt_of_lt_of_le h' h.updatedAt_le)
  · rcases h with h | ⟨-, hid'⟩
    · exact UInt64.lt_irrefl _ (h' ▸ h)
    · exact lt_asymm hid hid'

/-- A member that is not older, with a smaller id if it is not newer either. -/
theorem precedes_of_le {a b : MemberRecord} (h : b.updatedAt ≤ a.updatedAt)
    (hid : a.endpointId < b.endpointId) : Precedes a b := by
  by_cases heq : b.updatedAt = a.updatedAt
  · exact .inr ⟨heq, hid⟩
  · exact .inl (UInt64.lt_of_le_of_ne h heq)

/-- The sort is stable: members with one time stay in the order of their ids. -/
theorem pairwise_newestFirst {members : List MemberRecord}
    (h : members.Pairwise fun a b => a.endpointId < b.endpointId) :
    (newestFirst members).Pairwise Precedes := by
  induction members with
  | nil => exact .nil
  | cons a members ih =>
    obtain ⟨ha, hmembers⟩ := List.pairwise_cons.mp h
    have hid : ∀ b ∈ newestFirst members, a.endpointId < b.endpointId := fun b hb =>
      ha b ((mem_insertionSort _).mp hb)
    show ((newestFirst members).orderedInsert _ a).Pairwise Precedes
    specialize ih hmembers
    generalize newestFirst members = sorted at ih hid
    induction sorted with
    | nil => exact pairwise_singleton Precedes a
    | cons b sorted ih' =>
      obtain ⟨hb, hsorted⟩ := List.pairwise_cons.mp ih
      rw [orderedInsert_cons]
      split_ifs with hle
      · refine List.pairwise_cons.mpr ⟨fun c hc => precedes_of_le ?_ (hid c hc), ih⟩
        rcases List.mem_cons.mp hc with rfl | hc
        · exact hle
        · exact UInt64.le_trans (hb c hc).updatedAt_le hle
      · have hinsert := ih' hsorted fun c hc => hid c (mem_cons_of_mem b hc)
        refine List.pairwise_cons.mpr ⟨fun c hc => ?_, hinsert⟩
        rcases (mem_orderedInsert _).mp hc with rfl | hc
        · exact .inl (UInt64.not_le.mp hle)
        · exact hb c hc

/-! ### The members that are sorted -/

/-- The last entry with its endpoint id. -/
def IsLatest (members : List MemberRecord) (m : MemberRecord) : Prop :=
  ∃ before after, members = before ++ m :: after ∧ ∀ m' ∈ after, m'.endpointId ≠ m.endpointId

theorem isLatest_append_singleton {members : List MemberRecord} {a m : MemberRecord} :
    IsLatest (members ++ [a]) m ↔
      m = a ∨ a.endpointId ≠ m.endpointId ∧ IsLatest members m := by
  constructor
  · rintro ⟨before, after, heq, hafter⟩
    rcases eq_nil_or_concat after with rfl | ⟨after, b, rfl⟩
    · obtain ⟨-, hlast⟩ := append_inj' heq rfl
      exact .inl (List.singleton_inj.mp hlast).symm
    · rw [concat_eq_append, ← cons_append, ← append_assoc] at heq
      obtain ⟨rfl, hlast⟩ := append_inj' heq rfl
      obtain rfl := List.singleton_inj.mp hlast
      exact .inr ⟨hafter a (by simp), before, after, rfl, fun m' hm' => hafter m' (by simp [hm'])⟩
  · rintro (rfl | ⟨hne, before, after, rfl, hafter⟩)
    · exact ⟨members, [], rfl, nofun⟩
    · refine ⟨before, after ++ [a], by simp, fun m' hm' => ?_⟩
      rcases List.mem_append.mp hm' with hm' | hm'
      · exact hafter m' hm'
      · exact List.mem_singleton.mp hm' ▸ hne

theorem byEndpointId_concat (members : List MemberRecord) (a : MemberRecord) :
    byEndpointId (members ++ [a]) = (byEndpointId members).insert a.endpointId a := by
  rw [byEndpointId, foldl_append]
  rfl

/-- Every member is stored under its own id, and the last one with an id is. -/
theorem getElem?_byEndpointId {members : List MemberRecord} {id : String} {m : MemberRecord} :
    (byEndpointId members)[id]? = some m ↔ m.endpointId = id ∧ IsLatest members m := by
  induction members using List.reverseRecOn with
  | nil => simp [byEndpointId, IsLatest]
  | append_singleton members a ih =>
    rw [byEndpointId_concat, Std.ExtTreeMap.getElem?_insert, isLatest_append_singleton]
    split_ifs with hcmp
    · obtain rfl := Std.LawfulEqOrd.eq_of_compare hcmp
      constructor
      · rintro ⟨⟩
        exact ⟨rfl, .inl rfl⟩
      · rintro ⟨hid, rfl | ⟨hne, -⟩⟩
        · rfl
        · exact absurd hid.symm hne
    · have hne : a.endpointId ≠ id := fun heq => hcmp (heq ▸ Std.ReflCmp.compare_self)
      rw [ih]
      constructor
      · rintro ⟨rfl, hm⟩
        exact ⟨rfl, .inr ⟨hne, hm⟩⟩
      · rintro ⟨rfl, rfl | ⟨-, hm⟩⟩
        · exact absurd rfl hne
        · exact ⟨rfl, hm⟩

/-- The members that `insert_member` sorts. -/
def merged (members : List MemberRecord) (member : MemberRecord) : List MemberRecord :=
  newestFirst (((byEndpointId members).insert member.endpointId member).toList.map Prod.snd)

/-- **The members that are sorted**: the new one, and the last ones with the other ids. -/
theorem mem_merged {members : List MemberRecord} {member m : MemberRecord} :
    m ∈ merged members member ↔
      m = member ∨ member.endpointId ≠ m.endpointId ∧ IsLatest members m := by
  rw [merged, newestFirst, mem_insertionSort, mem_map, ← byEndpointId_concat,
    ← isLatest_append_singleton]
  constructor
  · rintro ⟨⟨id, m'⟩, hmem, rfl⟩
    rw [Std.ExtTreeMap.mem_toList_iff_getElem?_eq_some] at hmem
    exact (getElem?_byEndpointId.mp hmem).2
  · intro hm
    refine ⟨(m.endpointId, m), ?_, rfl⟩
    rw [Std.ExtTreeMap.mem_toList_iff_getElem?_eq_some]
    exact getElem?_byEndpointId.mpr ⟨rfl, hm⟩

/-- **The order of the members**: newest first, by id among those of one time. -/
theorem pairwise_merged (members : List MemberRecord) (member : MemberRecord) :
    (merged members member).Pairwise Precedes := by
  refine pairwise_newestFirst ?_
  rw [pairwise_map, ← byEndpointId_concat]
  refine Std.ExtTreeMap.ordered_keys_toList.imp_of_mem fun {a b} ha hb hlt => ?_
  rw [← Prod.mk.eta (p := a), Std.ExtTreeMap.mem_toList_iff_getElem?_eq_some] at ha
  rw [← Prod.mk.eta (p := b), Std.ExtTreeMap.mem_toList_iff_getElem?_eq_some] at hb
  rw [(getElem?_byEndpointId.mp ha).1, (getElem?_byEndpointId.mp hb).1]
  exact compare_lt_iff_lt.mp hlt

/-! ### The crates -/

/-- The bytes of a value. -/
abbrev Bytes := List UInt8

/-- The crates that turn records into bytes and back. -/
structure Crates where
  toStdvec : ClusterRecord → Except String Bytes
  fromBytes : Bytes → Except String ClusterRecord
  fromSlice : Bytes → Except String ClusterRecord

namespace Crates

variable (crates : Crates)

/-- Postcard encodes every record, and decodes what it encoded. -/
def Lossless : Prop :=
  ∀ record, ∃ encoded, crates.toStdvec record = .ok encoded ∧ crates.fromBytes encoded = .ok record

/-- A record with more members does not take fewer bytes. -/
def Monotone : Prop :=
  ∀ (record : ClusterRecord) members members' encoded encoded', members <+: members' →
    crates.toStdvec { record with members := members } = .ok encoded →
    crates.toStdvec { record with members := members' } = .ok encoded' →
    encoded.length ≤ encoded'.length

end Crates

/-! ### The format of postcard -/

open Postcard

/-- The fields of a record follow one another. -/
def blobFormat : Format BlobProviderRecord :=
  (text.prod (text.prod (text.prod u64))).via (fun b => (b.hash, b.format, b.name, b.size))
    (fun p => some ⟨p.1, p.2.1, p.2.2.1, p.2.2.2⟩) fun _ => rfl

/-- How a member is written. -/
def memberFormat : Format MemberRecord :=
  (text.prod (text.prod ((seq text).prod ((seq blobFormat).prod
    ((seq text).prod ((seq text).prod u64)))))).via
    (fun m => (m.endpointId, m.name, m.protocols, m.blobs, m.addrs, m.relayUrls, m.updatedAt))
    (fun p => some ⟨p.1, p.2.1, p.2.2.1, p.2.2.2.1, p.2.2.2.2.1, p.2.2.2.2.2.1, p.2.2.2.2.2.2⟩)
    fun _ => rfl

/-- How a record is written. -/
def recordFormat : Format ClusterRecord :=
  (u8.prod (u64.prod (u64.prod (seq memberFormat)))).via
    (fun r => (r.version, r.updatedAt, r.nonce, r.members))
    (fun p => some ⟨p.1, p.2.1, p.2.2.1, p.2.2.2⟩) fun _ => rfl

/-- The crates, for values that are not in the old format. -/
def postcardCrates : Crates where
  toStdvec record := .ok (recordFormat.write record)
  fromBytes encoded :=
    match recordFormat.fromBytes encoded with
    | some record => .ok record
    | none => .error "Hit the end of buffer, expected more data"
  fromSlice _ := .error "expected value at line 1 column 1"

theorem postcard_lossless : postcardCrates.Lossless := fun record =>
  ⟨recordFormat.write record, rfl, by simp only [postcardCrates, Format.fromBytes_write]⟩

theorem postcard_monotone : postcardCrates.Monotone := by
  rintro record members members' _ _ hpre ⟨⟩ ⟨⟩
  have hseq := length_seq_write_le memberFormat hpre
  simp only [recordFormat, Format.via, Format.prod, length_append] at hseq ⊢
  omega

end RustExample.MainlineRecord
