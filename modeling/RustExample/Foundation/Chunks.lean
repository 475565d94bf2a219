import Mathlib.Data.List.Basic
import Mathlib.Tactic.Ring

/-!
# Chunks of a list, and files written at offsets

A list is cut into chunks of one size, of which only the last may be shorter. The chunks follow
each other without a gap, so that putting them together gives the list again, and every position
lies in exactly one of them.

A file is the list of its bytes. It is cut or filled up to a length, written at an offset, and
read at an offset, where a read gives all the bytes it asked for or nothing. A write changes no
read of other positions, and a file whose chunks are those of another file of its length is that
file.
-/

namespace RustExample

open List

variable {α : Type*}

/-- How many chunks of a given size `n` positions take, the last one possibly short. -/
def chunkCount (size n : ℕ) : ℕ := (n + size - 1) / size

/-- The length of chunk `i` of `n` positions. -/
def chunkLen (size n i : ℕ) : ℕ := min (n - i * size) size

/-- The `i`-th chunk. -/
def chunk (size : ℕ) (l : List α) (i : ℕ) : List α := (l.drop (i * size)).take size

/-- All chunks. -/
def chunks (size : ℕ) (l : List α) : List (List α) :=
  (List.range (chunkCount size l.length)).map (chunk size l)

theorem lt_chunkCount {size n i : ℕ} (h : 0 < size) : i < chunkCount size n ↔ i * size < n := by
  rw [chunkCount, ← Nat.succ_le_iff, Nat.le_div_iff_mul_le h, Nat.succ_mul]
  omega

theorem le_chunkCount_mul {size n : ℕ} (h : 0 < size) : n ≤ chunkCount size n * size := by
  by_contra hlt
  exact lt_irrefl _ ((lt_chunkCount h).mpr (Nat.lt_of_not_le hlt))

@[simp] theorem length_chunk (size : ℕ) (l : List α) (i : ℕ) :
    (chunk size l i).length = chunkLen size l.length i := by
  rw [chunk, chunkLen, length_take, length_drop, Nat.min_comm]

theorem chunkLen_le (size n i : ℕ) : chunkLen size n i ≤ size := Nat.min_le_right _ _

@[simp] theorem length_chunks (size : ℕ) (l : List α) :
    (chunks size l).length = chunkCount size l.length := by
  rw [chunks, length_map, length_range]

theorem flatten_map_chunk (size : ℕ) (l : List α) (k : ℕ) :
    ((List.range k).map (chunk size l)).flatten = l.take (k * size) := by
  induction k with
  | zero => simp
  | succ k ih =>
    rw [range_succ, map_append, flatten_append, ih, map_singleton,
      flatten_singleton, chunk, ← take_add, Nat.succ_mul]

/-- **The chunks put together** give the list again. -/
theorem flatten_chunks {size : ℕ} (h : 0 < size) (l : List α) : (chunks size l).flatten = l := by
  rw [chunks, flatten_map_chunk, take_of_length_le (le_chunkCount_mul h)]

/-- **Every position lies in exactly one chunk.** -/
theorem existsUnique_chunk {size n o : ℕ} (h : 0 < size) (ho : o < n) :
    ∃! i, i < chunkCount size n ∧ i * size ≤ o ∧ o < i * size + chunkLen size n i := by
  have hle : o / size * size ≤ o := Nat.div_mul_le_self o size
  have hlt : o < o / size * size + size := by
    rw [← Nat.succ_mul]
    exact Nat.lt_mul_of_div_lt (Nat.lt_succ_self _) h
  refine ⟨o / size, ⟨(lt_chunkCount h).mpr (by omega), hle, ?_⟩, ?_⟩
  · show o < o / size * size + min (n - o / size * size) size
    omega
  · rintro i ⟨-, hi, hoi⟩
    have hlen := chunkLen_le size n i
    refine (Nat.div_eq_of_lt_le hi ?_).symm
    rw [Nat.succ_mul]
    omega

/-! ### Files -/

namespace ByteFile

/-- Cut the file at length `n`, or fill it up. -/
def setLen [Inhabited α] (n : ℕ) (file : List α) : List α :=
  file.take n ++ List.replicate (n - file.length) default

/-- Write at an offset; a gap before the offset is filled up. -/
def writeAt [Inhabited α] (file : List α) (offset : ℕ) (data : List α) : List α :=
  setLen offset file ++ data ++ file.drop (offset + data.length)

/-- Read `len` positions at an offset, all or nothing. -/
def readExact (file : List α) (offset len : ℕ) : Option (List α) :=
  let data := (file.drop offset).take len
  if data.length = len then some data else none

/-! ### Lengths -/

@[simp] theorem length_setLen [Inhabited α] (n : ℕ) (file : List α) :
    (setLen n file).length = n := by
  rw [setLen, length_append, length_take, length_replicate]
  omega

theorem setLen_length [Inhabited α] (file : List α) : setLen file.length file = file := by
  rw [setLen, take_length, Nat.sub_self, replicate_zero, append_nil]

variable {data : List α}

theorem length_writeAt [Inhabited α] {file : List α} {offset : ℕ}
    (h : offset + data.length ≤ file.length) : (writeAt file offset data).length = file.length := by
  rw [writeAt, length_append, length_append, length_setLen, length_drop]
  omega

theorem writeAt_zero [Inhabited α] {file : List α} (h : file.length ≤ data.length) :
    writeAt file 0 data = data := by
  rw [writeAt, Nat.zero_add, drop_of_length_le h, append_nil, setLen, Nat.zero_sub]
  rfl

/-! ### Reads -/

theorem readExact_eq_some {file : List α} {offset len : ℕ} :
    readExact file offset len = some data ↔
      data.length = len ∧ ∀ k < len, file[offset + k]? = data[k]? := by
  have hget : ∀ k < len, ((file.drop offset).take len)[k]? = file[offset + k]? := by
    intro k hk
    rw [getElem?_take_of_lt hk, getElem?_drop]
  constructor
  · intro h
    obtain ⟨hlen, hdata⟩ := Option.ite_none_right_eq_some.mp h
    obtain ⟨⟩ := hdata
    exact ⟨hlen, fun k hk => (hget k hk).symm⟩
  · rintro ⟨hlen, hdata⟩
    have heq : (file.drop offset).take len = data := by
      refine ext_getElem? fun k => ?_
      rcases Nat.lt_or_ge k len with hk | hk
      · rw [hget k hk, hdata k hk]
      · rw [getElem?_eq_none (Nat.le_trans (length_take_le _ _) hk),
          getElem?_eq_none (hlen ▸ hk)]
    show (if ((file.drop offset).take len).length = len then _ else none) = _
    rw [heq, if_pos hlen]

theorem lt_length_of_readExact {file : List α} {offset len k : ℕ}
    (h : readExact file offset len = some data) (hk : k < len) : offset + k < file.length := by
  obtain ⟨hlen, hdata⟩ := readExact_eq_some.mp h
  have hsome : data[k]? = some data[k] := getElem?_eq_getElem (hlen ▸ hk)
  exact (List.getElem?_eq_some_iff.mp ((hdata k hk).trans hsome)).1

/-- What agrees with a file on the positions of a read is read alike. -/
theorem readExact_congr {file file' : List α} {offset len : ℕ}
    (h : readExact file offset len = some data)
    (heq : ∀ k < len, offset + k < file.length → file'[offset + k]? = file[offset + k]?) :
    readExact file' offset len = some data := by
  obtain ⟨hlen, hdata⟩ := readExact_eq_some.mp h
  refine readExact_eq_some.mpr ⟨hlen, fun k hk => ?_⟩
  rw [heq k hk (lt_length_of_readExact h hk), hdata k hk]

theorem getElem?_setLen [Inhabited α] {file : List α} {n k : ℕ} (hn : k < n)
    (hk : k < file.length) : (setLen n file)[k]? = file[k]? := by
  rw [setLen, getElem?_append_left (by rw [length_take]; omega),
    getElem?_take_of_lt hn]

/-- **What is read below the new length** stays. -/
theorem readExact_setLen [Inhabited α] {file : List α} {offset len n : ℕ} (hn : offset + len ≤ n)
    (h : readExact file offset len = some data) :
    readExact (setLen n file) offset len = some data :=
  readExact_congr h fun _ hk hlt => getElem?_setLen (by omega) hlt

/-- **A write is read back.** -/
theorem readExact_writeAt [Inhabited α] (file : List α) (offset : ℕ) (data : List α) :
    readExact (writeAt file offset data) offset data.length = some data := by
  refine readExact_eq_some.mpr ⟨rfl, fun k hk => ?_⟩
  rw [writeAt, getElem?_append_left (by rw [length_append, length_setLen]; omega),
    getElem?_append_right (by rw [length_setLen]; omega), length_setLen,
    Nat.add_sub_cancel_left]

/-- **A write elsewhere** changes no read. -/
theorem readExact_writeAt_of_disjoint [Inhabited α] {file found : List α} {offset offset' len : ℕ}
    (hd : offset' + len ≤ offset ∨ offset + data.length ≤ offset')
    (h : readExact file offset' len = some found) :
    readExact (writeAt file offset data) offset' len = some found := by
  refine readExact_congr h fun k hk hlt => ?_
  rcases hd with hd | hd
  · rw [writeAt, append_assoc,
      getElem?_append_left (by rw [length_setLen]; omega), getElem?_setLen (by omega) hlt]
  · have hlen : (setLen offset file ++ data).length = offset + data.length := by
      rw [length_append, length_setLen]
    rw [writeAt, getElem?_append_right (by omega), hlen, getElem?_drop]
    congr 1
    omega

/-! ### Chunks -/

theorem readExact_chunk (size : ℕ) (file : List α) (i : ℕ) :
    readExact file (i * size) (chunkLen size file.length i) = some (chunk size file i) := by
  refine readExact_eq_some.mpr ⟨length_chunk size file i, fun k hk => ?_⟩
  have hle := chunkLen_le size file.length i
  rw [chunk, getElem?_take_of_lt (by omega), getElem?_drop]

/-- **A file put together from the chunks** of a file of its length is that file. -/
theorem eq_of_readExact_chunk {size : ℕ} (hsize : 0 < size) {file source : List α}
    (hlen : file.length = source.length)
    (h : ∀ i < chunkCount size source.length,
      readExact file (i * size) (chunkLen size source.length i) = some (chunk size source i)) :
    file = source := by
  have hchunks : chunks size file = chunks size source := by
    rw [chunks, chunks, hlen]
    refine map_congr_left fun i hi => ?_
    have hi := h i (List.mem_range.mp hi)
    rw [← hlen, readExact_chunk] at hi
    exact Option.some.inj hi
  calc file = (chunks size file).flatten := (flatten_chunks hsize file).symm
    _ = source := by rw [hchunks, flatten_chunks hsize source]

end ByteFile

end RustExample
