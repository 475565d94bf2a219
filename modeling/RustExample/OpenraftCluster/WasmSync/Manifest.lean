import RustExample.Foundation.Chunks
import RustExample.Foundation.Fallible

/-!
# Manifests of wasm modules

A module is fetched in chunks of a fixed size. Its manifest pins the whole file by its sha256 and
every chunk by its own hash, so that a chunk can be checked no matter which peer served it.

Source: `src/wasm_sync/mod.rs`, `src/tasks/wasm_runtime.rs` (`module_hash`).

* The hash functions are parameters.
* Sizes and indices are unbounded numbers; the count of chunks is taken as a `u32`.
-/

namespace RustExample.OpenraftCluster

/-! ### Manifests -/

/-- `size` is that of the file, and `chunkHashes` has the xxh3 hash of each chunk. -/
structure WasmModuleManifest where
  name : String
  sha256 : String
  size : ℕ
  chunkSize : ℕ
  chunkHashes : List UInt64
deriving DecidableEq, Repr

/-! ### Requests and answers -/

/-- The requests. -/
inductive WasmSyncRequest
  | manifest (name : String)
  | chunk (sha256 : String) (index : UInt32)
deriving DecidableEq, Repr

/-- The responses. -/
inductive WasmSyncResponse
  | manifest (found : Option WasmModuleManifest)
  | chunk (sha256 : String) (index : UInt32) (data : List UInt8)
  | notFound
  | error (message : String)
deriving DecidableEq, Repr

/-! ### Hashes -/

/-- The two hash functions, which other packages compute. -/
structure ModuleHashes where
  xxh3 : List UInt8 → UInt64
  sha256 : List UInt8 → List UInt8

/-- The digits of a byte. -/
def hexByte (byte : UInt8) : List Char :=
  [Nat.digitChar (byte.toNat / 16), Nat.digitChar (byte.toNat % 16)]

/-- The sha256 of a module in lower-case hex. -/
def moduleHash (h : ModuleHashes) (source : List UInt8) : String :=
  String.ofList ((h.sha256 source).flatMap hexByte)

/-! ### Validation -/

def wasmSyncChunkSize : ℕ := 256 * 1024

def maxWasmSyncModuleBytes : ℕ := 256 * 1024 * 1024

/-- A bare `.wasm` or `.wat` file name, without two dots in a row. -/
def isValidModuleName (name : String) : Bool :=
  let chars := name.toList
  !chars.isEmpty && !List.isPrefixOf ['.'] chars && !chars.any (fun c => c == '/' || c == '\\') &&
    !(chars.zip chars.tail).any (fun p => p.1 == '.' && p.2 == '.') &&
    (['.', 'w', 'a', 's', 'm'].isSuffixOf chars || ['.', 'w', 'a', 't'].isSuffixOf chars)

/-- A hexadecimal digit. -/
def isAsciiHexdigit (c : Char) : Bool :=
  c.isDigit || decide ('a' ≤ c ∧ c ≤ 'f') || decide ('A' ≤ c ∧ c ≤ 'F')

/-- What is wrong with a manifest. -/
inductive ManifestError
  | invalidName (name : String)
  | sizeOutside (size : ℕ)
  | invalidChunkSize (chunkSize : ℕ)
  | hashCount (count size chunkSize : ℕ)
  | invalidSha256 (sha256 : String)
deriving DecidableEq, Repr

namespace WasmModuleManifest

/-- The manifest of some bytes. -/
def fromBytes (h : ModuleHashes) (name : String) (bytes : List UInt8) : WasmModuleManifest where
  name
  sha256 := moduleHash h bytes
  size := bytes.length
  chunkSize := wasmSyncChunkSize
  chunkHashes := (chunks wasmSyncChunkSize bytes).map h.xxh3

variable (m : WasmModuleManifest)

/-- A `u32`, so that a list of `2 ^ 32` hashes would count as none. -/
def chunkCount : ℕ := m.chunkHashes.length % 2 ^ 32

/-- Where a chunk begins. -/
def chunkOffset (index : ℕ) : ℕ := index * m.chunkSize

/-- The length of chunk `index`, of which the last is usually short. -/
def chunkLen (index : ℕ) : ℕ := min (m.size - m.chunkOffset index) m.chunkSize

/-- The chunk has its hash. -/
def verifyChunk (h : ModuleHashes) (index : ℕ) (data : List UInt8) : Bool :=
  match m.chunkHashes[index]? with
  | none => false
  | some expected => data.length == m.chunkLen index && h.xxh3 data == expected

/-- Checks a manifest. -/
def validate : Except ManifestError Unit :=
  if isValidModuleName m.name = false then .error (.invalidName m.name)
  else if m.size = 0 ∨ maxWasmSyncModuleBytes < m.size then .error (.sizeOutside m.size)
  else if m.chunkSize = 0 ∨ wasmSyncChunkSize < m.chunkSize then
    .error (.invalidChunkSize m.chunkSize)
  else if m.chunkHashes.length ≠ (m.size + m.chunkSize - 1) / m.chunkSize then
    .error (.hashCount m.chunkHashes.length m.size m.chunkSize)
  else if m.sha256.utf8ByteSize ≠ 64 ∨ m.sha256.toList.all isAsciiHexdigit = false then
    .error (.invalidSha256 m.sha256)
  else .ok ()

/-- What validation lets through. -/
structure Valid : Prop where
  name : isValidModuleName m.name = true
  size_pos : 0 < m.size
  size_le : m.size ≤ maxWasmSyncModuleBytes
  chunkSize_pos : 0 < m.chunkSize
  chunkSize_le : m.chunkSize ≤ wasmSyncChunkSize
  length_chunkHashes : m.chunkHashes.length = RustExample.chunkCount m.chunkSize m.size
  length_sha256 : m.sha256.utf8ByteSize = 64
  hex_sha256 : m.sha256.toList.all isAsciiHexdigit = true

variable {m}

/-- **What validation accepts.** -/
theorem validate_eq_ok : m.validate = .ok () ↔ m.Valid := by
  rw [validate, guard_eq_ok, guard_eq_ok, guard_eq_ok, guard_eq_ok, guard_eq_ok]
  constructor
  · rintro ⟨hname, hsize, hchunk, hcount, hsha, -⟩
    rw [not_or] at hsize hchunk hsha
    exact ⟨by simpa using hname, by omega, by omega, by omega, by omega, not_not.mp hcount,
      not_not.mp hsha.1, by simpa using hsha.2⟩
  · intro h
    have hsize := h.size_pos
    have hsize' := h.size_le
    have hchunk := h.chunkSize_pos
    have hchunk' := h.chunkSize_le
    refine ⟨by simp [h.name], by omega, by omega, not_not.mpr h.length_chunkHashes, ?_, rfl⟩
    rintro (hlen | hhex)
    · exact hlen h.length_sha256
    · rw [h.hex_sha256] at hhex
      cases hhex

/-! ### The chunks of an accepted manifest -/

/-- The number of chunks fits a `u32`, so that none is cut off. -/
theorem Valid.chunkCount_eq (h : m.Valid) :
    m.chunkCount = RustExample.chunkCount m.chunkSize m.size := by
  have hle : RustExample.chunkCount m.chunkSize m.size ≤ m.size := by
    by_contra hlt
    have hmul := (lt_chunkCount h.chunkSize_pos).mp (Nat.lt_of_not_le hlt)
    exact absurd hmul (Nat.not_lt.mpr (Nat.le_mul_of_pos_right _ h.chunkSize_pos))
  have hmax : m.size < 2 ^ 32 := h.size_le.trans_lt (by decide)
  rw [chunkCount, h.length_chunkHashes, Nat.mod_eq_of_lt (by omega)]

theorem Valid.lt_chunkCount (h : m.Valid) {i : ℕ} :
    i < m.chunkCount ↔ m.chunkOffset i < m.size := by
  rw [h.chunkCount_eq, RustExample.lt_chunkCount h.chunkSize_pos, chunkOffset]

theorem Valid.chunk_end_le (h : m.Valid) {i : ℕ} (hi : i < m.chunkCount) :
    m.chunkOffset i + m.chunkLen i ≤ m.size := by
  have hlt := h.lt_chunkCount.mp hi
  rw [chunkLen]
  omega

theorem chunk_disjoint {i j : ℕ} (hne : i ≠ j) :
    m.chunkOffset i + m.chunkLen i ≤ m.chunkOffset j ∨
      m.chunkOffset j + m.chunkLen j ≤ m.chunkOffset i := by
  have hlen : ∀ k, m.chunkLen k ≤ m.chunkSize := fun k => Nat.min_le_right _ _
  have hmul : ∀ {k l : ℕ}, k < l → m.chunkOffset k + m.chunkLen k ≤ m.chunkOffset l := by
    intro k l hkl
    calc m.chunkOffset k + m.chunkLen k ≤ (k + 1) * m.chunkSize := by
          rw [Nat.succ_mul]
          exact Nat.add_le_add_left (hlen k) _
      _ ≤ m.chunkOffset l := Nat.mul_le_mul_right _ hkl
  rcases Nat.lt_or_gt_of_ne hne with hlt | hgt
  · exact .inl (hmul hlt)
  · exact .inr (hmul hgt)

/-- **The chunks of an accepted manifest** cover the file, and every position lies in one. -/
theorem Valid.existsUnique_chunk (h : m.Valid) {o : ℕ} (ho : o < m.size) :
    ∃! i, i < m.chunkCount ∧ m.chunkOffset i ≤ o ∧ o < m.chunkOffset i + m.chunkLen i := by
  rw [h.chunkCount_eq]
  exact RustExample.existsUnique_chunk h.chunkSize_pos ho

theorem length_of_verifyChunk {h : ModuleHashes} {i : ℕ} {data : List UInt8}
    (hv : m.verifyChunk h i data = true) : data.length = m.chunkLen i := by
  rw [verifyChunk] at hv
  split at hv
  · cases hv
  · exact beq_iff_eq.mp (Bool.and_eq_true_iff.mp hv).1

end WasmModuleManifest

end RustExample.OpenraftCluster
