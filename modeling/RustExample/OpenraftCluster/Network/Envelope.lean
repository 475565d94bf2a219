import RustExample.Foundation.Protobuf

/-!
# The envelope of the unified RPC protocol

Every RPC travels in one protobuf envelope, whose `kind` says what its payload is. The kind is
never the default and is written last, so that an envelope whose end is missing has lost it.

Source: `src/network/proto_codec.rs` (`ProtoEnvelope`).

* Lengths are those of Rust's buffers, below `2 ^ 63`.
-/

namespace RustExample.OpenraftCluster

open Protobuf List

/-- A buffer holds fewer than `2 ^ 63` bytes. -/
def maxBufferLen : ℕ := 2 ^ 63

theorem maxBufferLen_lt : maxBufferLen < 2 ^ 64 := by decide

/-! ### Encoding and decoding -/

/-- The payload is JSON or protobuf, and `binary` is a compressed frame that travels beside it. -/
structure ProtoEnvelope where
  payload : List UInt8
  binary : List UInt8
  kind : UInt32
deriving DecidableEq, Repr

namespace ProtoEnvelope

/-- The bytes of an envelope. -/
def encodeToVec (e : ProtoEnvelope) : List UInt8 :=
  encodeBytesField 1 e.payload ++ (encodeBytesField 2 e.binary ++ encodeVarintField 3 e.kind.toNat)

/-- How deep groups may be nested in an unknown field. -/
def recursionLimit : ℕ := 100

/-- Reads one field. -/
def mergeField (e : ProtoEnvelope) (tag : ℕ) (wireType : WireType) : Reader ProtoEnvelope :=
  match tag with
  | 1 => (mergeBytes wireType).map fun payload => { e with payload }
  | 2 => (mergeBytes wireType).map fun binary => { e with binary }
  | 3 => (mergeVarint wireType).map fun kind => { e with kind := UInt32.ofNat kind }
  | _ => (skipField recursionLimit wireType tag).map fun _ => e

theorem shrinks_mergeField (e : ProtoEnvelope) (tag : ℕ) (w : WireType) :
    Shrinks (e.mergeField tag w) := by
  unfold mergeField
  split
  · exact (shrinks_mergeBytes w).map _
  · exact (shrinks_mergeBytes w).map _
  · exact (shrinks_mergeVarint w).map _
  · exact (shrinks_skipField _ w tag).map _

/-- The format of envelopes. -/
def format : MessageFormat ProtoEnvelope where
  default := ⟨[], [], 0⟩
  mergeField := mergeField
  shrinks := shrinks_mergeField

/-- Reads an envelope. -/
def decode (bytes : List UInt8) : Except DecodeError ProtoEnvelope := format.decode bytes

/-! ### Fields of an envelope -/

/-- The parts of an envelope fit in a buffer. -/
structure Bounded (e : ProtoEnvelope) : Prop where
  payload : e.payload.length < maxBufferLen
  binary : e.binary.length < maxBufferLen

/-- A field of bytes as it is written under a tag, if it is. -/
def bytesField (tag : ℕ) (bs : List UInt8) (put : ProtoEnvelope → ProtoEnvelope) :
    List (FieldCode ProtoEnvelope) :=
  if bs = [] then []
  else [⟨encodeKey tag .lengthDelimited ++ (encodeVarint bs.length ++ bs), put⟩]

/-- The fields of the frame. -/
def frameFields (e : ProtoEnvelope) : List (FieldCode ProtoEnvelope) :=
  bytesField 1 e.payload (fun m => { m with payload := e.payload }) ++
    bytesField 2 e.binary fun m => { m with binary := e.binary }

/-- The field of the kind. -/
def kindField (kind : UInt32) : FieldCode ProtoEnvelope :=
  ⟨encodeKey 3 .varint ++ encodeVarint kind.toNat, fun m => { m with kind }⟩

theorem encodeFields_bytesField (tag : ℕ) (bs : List UInt8)
    (put : ProtoEnvelope → ProtoEnvelope) :
    MessageFormat.encodeFields (bytesField tag bs put) = encodeBytesField tag bs := by
  rw [bytesField, encodeBytesField]
  split_ifs
  · rfl
  · exact append_nil _

theorem encodeToVec_eq {e : ProtoEnvelope} (h : e.kind ≠ 0) :
    e.encodeToVec = MessageFormat.encodeFields (e.frameFields ++ [kindField e.kind]) := by
  have hkind : e.kind.toNat ≠ 0 := fun h' => h (UInt32.toNat_inj.mp h')
  rw [encodeToVec, ← encodeFields_bytesField 1 e.payload, ← encodeFields_bytesField 2 e.binary,
    encodeVarintField, if_neg hkind, frameFields, MessageFormat.encodeFields,
    MessageFormat.encodeFields, MessageFormat.encodeFields, flatMap_append,
    flatMap_append, append_assoc]
  exact congrArg _ (congrArg _ (append_nil _).symm)

theorem reads_bytesField {tag : ℕ} {bs : List UInt8}
    {set : ProtoEnvelope → List UInt8 → ProtoEnvelope} (htag : 0 < tag) (hmax : tag < 2 ^ 29)
    (hlen : bs.length < maxBufferLen)
    (h : ∀ m : ProtoEnvelope,
      m.mergeField tag .lengthDelimited = (mergeBytes .lengthDelimited).map (set m)) :
    ∀ f ∈ bytesField tag bs fun m => set m bs, format.Reads f := by
  intro f hf
  rw [bytesField] at hf
  split_ifs at hf
  · cases hf
  · obtain rfl := List.mem_singleton.mp hf
    refine MessageFormat.reads_of_mergeField htag hmax fun m => ?_
    have hread := (recovers_mergeBytes (hlen.trans maxBufferLen_lt)).map (set m)
    rwa [← h m] at hread

theorem reads_frameFields {e : ProtoEnvelope} (h : e.Bounded) :
    ∀ f ∈ e.frameFields, format.Reads f := by
  intro f hf
  rcases List.mem_append.mp hf with hf | hf
  · exact reads_bytesField Nat.one_pos (by omega) h.payload (fun _ => rfl) f hf
  · exact reads_bytesField Nat.two_pos (by omega) h.binary (fun _ => rfl) f hf

theorem reads_kindField (kind : UInt32) : format.Reads (kindField kind) := by
  refine MessageFormat.reads_of_mergeField (by decide) (by decide) fun m => ?_
  have hlt : kind.toNat < 2 ^ 64 := lt_trans kind.toNat_lt (by decide)
  have hread := (recovers_mergeVarint hlt).map fun n => { m with kind := UInt32.ofNat n }
  rwa [UInt32.ofNat_toNat] at hread

theorem reads_fields {e : ProtoEnvelope} (h : e.Bounded) :
    ∀ f ∈ e.frameFields ++ [kindField e.kind], format.Reads f := by
  intro f hf
  rcases List.mem_append.mp hf with hf | hf
  · exact reads_frameFields h f hf
  · obtain rfl := List.mem_singleton.mp hf
    exact reads_kindField e.kind

/-- The fields before the kind set the rest of the envelope. -/
theorem putAll_frameFields (e : ProtoEnvelope) :
    putAll format.default e.frameFields = { e with kind := 0 } := by
  obtain ⟨payload, binary, kind⟩ := e
  rw [frameFields, bytesField, bytesField]
  split_ifs with hp hb hb <;> simp_all [format, putAll]

theorem put_of_mem_bytesField {tag : ℕ} {bs : List UInt8} {put : ProtoEnvelope → ProtoEnvelope}
    {f : FieldCode ProtoEnvelope} (hf : f ∈ bytesField tag bs put) : f.put = put := by
  rw [bytesField] at hf
  split_ifs at hf
  · cases hf
  · rw [List.mem_singleton.mp hf]

theorem kind_put_frameFields (e : ProtoEnvelope) :
    ∀ f ∈ e.frameFields, ∀ m, (f.put m).kind = m.kind := by
  intro f hf m
  rcases List.mem_append.mp hf with hf | hf
  · rw [put_of_mem_bytesField hf]
  · rw [put_of_mem_bytesField hf]

/-! ### Reading an envelope -/

/-- **An envelope is read back from its bytes.** -/
theorem decode_encodeToVec {e : ProtoEnvelope} (h : e.Bounded) (hkind : e.kind ≠ 0) :
    decode e.encodeToVec = .ok e := by
  have hlast : putAll format.default (e.frameFields ++ [kindField e.kind]) =
      (kindField e.kind).put (putAll format.default e.frameFields) := foldl_append
  rw [decode, encodeToVec_eq hkind, MessageFormat.decode_fields (reads_fields h), hlast,
    putAll_frameFields]
  rfl

/-- **An envelope whose end is missing** has lost its kind, or is not an envelope at all. -/
theorem decode_cut {e : ProtoEnvelope} (h : e.Bounded) (hkind : e.kind ≠ 0) {p : List UInt8}
    (hp : p <+: e.encodeToVec) (hne : p ≠ e.encodeToVec) :
    (∃ err, decode p = .error err) ∨ ∃ m, decode p = .ok m ∧ m.kind = 0 := by
  rw [encodeToVec_eq hkind] at hp hne
  rcases MessageFormat.decode_cut (reads_fields h) hp hne with herr | ⟨k, hk, hok⟩
  · exact .inl herr
  · -- the kind is written last, so the fields that are left do not have it
    rw [length_append, length_singleton] at hk
    rw [take_append_of_le_length (by omega)] at hok
    exact .inr ⟨_, hok,
      view_putAll (fun f hf => kind_put_frameFields e f (mem_of_mem_take hf)) _⟩

end ProtoEnvelope

end RustExample.OpenraftCluster
