import RustExample.Foundation.Borsh

/-!
# The postcard format

A value is written as bytes that are read back with whatever follows them left over. Numbers are
written in groups of seven bits, the lowest group first; every group but the last one has its top
bit set. A text, a sequence and so on starts with its length; the parts of a record follow one
another.
-/

namespace RustExample.Postcard

variable {α β : Type*}

/-- A format reads back what it writes, and leaves what follows. -/
structure Format (α : Type*) where
  write : α → List UInt8
  read : List UInt8 → Option (α × List UInt8)
  read_write : ∀ a rest, read (write a ++ rest) = some (a, rest)

attribute [simp] Format.read_write

/-- A value at the start of the bytes; what follows it is ignored. -/
def Format.fromBytes (f : Format α) (bytes : List UInt8) : Option α := (f.read bytes).map Prod.fst

/-- **A value is read back.** -/
@[simp] theorem Format.fromBytes_write (f : Format α) (a : α) :
    f.fromBytes (f.write a) = some a := by
  have h := f.read_write a []
  rw [List.append_nil] at h
  rw [Format.fromBytes, h, Option.map_some]

/-! ### Numbers -/

theorem toNat_group {n : ℕ} (h : n < 256) : (UInt8.ofNat n).toNat = n := by
  rw [UInt8.toNat_ofNat', Nat.mod_eq_of_lt h]

/-- The groups of a number, `bound + 1` at most. -/
def writeVarintLoop : ℕ → ℕ → List UInt8
  | 0, n => [UInt8.ofNat n]
  | bound + 1, n =>
    if n < 128 then [UInt8.ofNat n]
    else UInt8.ofNat (n % 128 + 128) :: writeVarintLoop bound (n / 128)

/-- Reads a number in groups of 7 bits. -/
def readVarint : List UInt8 → Option (ℕ × List UInt8)
  | [] => none
  | b :: bs =>
    if b.toNat < 128 then some (b.toNat, bs)
    else (readVarint bs).map fun r => (b.toNat - 128 + 128 * r.1, r.2)

theorem readVarint_writeVarintLoop {bound n : ℕ} (h : n ≤ bound) (rest : List UInt8) :
    readVarint (writeVarintLoop bound n ++ rest) = some (n, rest) := by
  induction bound generalizing n with
  | zero =>
    obtain rfl : n = 0 := by omega
    rfl
  | succ bound ih =>
    rw [writeVarintLoop]
    split_ifs with hn
    · have htoNat : (UInt8.ofNat n).toNat = n := toNat_group (by omega)
      rw [List.singleton_append, readVarint, htoNat, if_pos hn]
    · have htoNat : (UInt8.ofNat (n % 128 + 128)).toNat = n % 128 + 128 :=
        toNat_group (by omega)
      rw [List.cons_append, readVarint, htoNat, if_neg (by omega), ih (by omega),
        Option.map_some]
      congr 2
      omega

/-- Numbers in groups of 7 bits. -/
def varint : Format ℕ where
  write n := writeVarintLoop n n
  read := readVarint
  read_write _ rest := readVarint_writeVarintLoop le_rfl rest

theorem length_writeVarintLoop_le {bound bound' m n : ℕ} (hm : m ≤ bound) (hn : n ≤ bound')
    (hmn : m ≤ n) : (writeVarintLoop bound m).length ≤ (writeVarintLoop bound' n).length := by
  induction bound generalizing bound' m n with
  | zero =>
    cases bound' with
    | zero => rfl
    | succ bound' =>
      rw [writeVarintLoop, writeVarintLoop]
      split_ifs <;> simp
  | succ bound ih =>
    cases bound' with
    | zero =>
      obtain rfl : m = 0 := by omega
      rfl
    | succ bound' =>
      rw [writeVarintLoop, writeVarintLoop]
      split_ifs with hm' hn' hn'
      · rfl
      · simp
      · omega
      · have hdiv : m / 128 ≤ n / 128 := Nat.div_le_div_right hmn
        simpa using ih (by omega) (by omega) hdiv

theorem length_varint_write_mono {m n : ℕ} (h : m ≤ n) :
    (varint.write m).length ≤ (varint.write n).length :=
  length_writeVarintLoop_le le_rfl le_rfl h

/-! ### Formats from formats -/

namespace Format

/-- A pair, one part after the other. -/
def prod (f : Format α) (g : Format β) : Format (α × β) where
  write p := f.write p.1 ++ g.write p.2
  read bytes := (f.read bytes).bind fun r => (g.read r.2).map fun s => ((r.1, s.1), s.2)
  read_write p rest := by simp

/-- Values that are written as others. Not every other value needs to be one of them. -/
def via (f : Format β) (to' : α → β) (back : β → Option α) (h : ∀ a, back (to' a) = some a) :
    Format α where
  write a := f.write (to' a)
  read bytes := (f.read bytes).bind fun r => (back r.1).map fun a => (a, r.2)
  read_write a rest := by simp [h]

end Format

/-- Takes `n` bytes, if they are there. -/
def takeBytes (n : ℕ) (bytes : List UInt8) : Option (List UInt8 × List UInt8) :=
  if n ≤ bytes.length then some (bytes.take n, bytes.drop n) else none

/-- Bytes after their length. -/
def bytes : Format (List UInt8) where
  write bs := varint.write bs.length ++ bs
  read input := (varint.read input).bind fun r => takeBytes r.1 r.2
  read_write bs rest := by simp [takeBytes]

/-- Texts after their length. -/
def text : Format String :=
  bytes.via Borsh.utf8 Borsh.fromUtf8 fun _ => Borsh.fromUtf8_eq_some.mpr rfl

/-- Numbers below `2 ^ 64`. -/
def u64 : Format UInt64 :=
  varint.via UInt64.toNat (fun n => if n < 2 ^ 64 then some (UInt64.ofNat n) else none) fun a => by
    rw [if_pos a.toNat_lt, UInt64.ofNat_toNat]

/-- Single bytes. -/
def u8 : Format UInt8 where
  write b := [b]
  read
    | [] => none
    | b :: bs => some (b, bs)
  read_write _ _ := rfl

/-! ### Sequences -/

/-- So many items, one after another. -/
def readItems (f : Format α) : ℕ → List UInt8 → Option (List α × List UInt8)
  | 0, input => some ([], input)
  | n + 1, input =>
    (f.read input).bind fun r => (readItems f n r.2).map fun s => (r.1 :: s.1, s.2)

theorem readItems_write (f : Format α) (l : List α) (rest : List UInt8) :
    readItems f l.length (l.flatMap f.write ++ rest) = some (l, rest) := by
  induction l with
  | nil => rfl
  | cons a l ih => simp [readItems, ih]

/-- A sequence, after the number of its items. -/
def seq (f : Format α) : Format (List α) where
  write l := varint.write l.length ++ l.flatMap f.write
  read input := (varint.read input).bind fun r => readItems f r.1 r.2
  read_write l rest := by simp [readItems_write]

/-- **A longer sequence is not written in fewer bytes.** -/
theorem length_seq_write_le (f : Format α) {l l' : List α} (h : l <+: l') :
    ((seq f).write l).length ≤ ((seq f).write l').length := by
  obtain ⟨t, rfl⟩ := h
  have hnumber : (varint.write l.length).length ≤ (varint.write (l ++ t).length).length :=
    length_varint_write_mono (by simp)
  simp only [seq, List.length_append, List.flatMap_append] at hnumber ⊢
  omega

end RustExample.Postcard
