import RustExample.Foundation.BigEndian

/-!
# Binary codecs in the Borsh format

A codec writes values as bytes and reads a value off the front of some bytes. It is *exact*: it
reads a value from some bytes precisely when they begin with what it writes for that value. Exact
codecs compose, and reading a whole input accepts nothing but what was written.

Numbers are little-endian, strings and byte strings come after their length in four bytes, a
truth value is one byte, and a record is its fields one after the other.
-/

namespace RustExample.Borsh

open List

/-! ### Numbers -/

/-- The four bytes of a number below `2 ^ 32`, the least significant first. -/
def u32 (n : ℕ) : List UInt8 := (BigEndian.encode 4 n).reverse

/-- The number of little-endian bytes. -/
def toU32 (bytes : List UInt8) : ℕ := BigEndian.decode bytes.reverse

@[simp] theorem length_u32 (n : ℕ) : (u32 n).length = 4 := by
  rw [u32, length_reverse, BigEndian.length_encode]

theorem toU32_u32 {n : ℕ} (h : n < 2 ^ 32) : toU32 (u32 n) = n := by
  rw [toU32, u32, reverse_reverse, BigEndian.decode_encode (by omega)]

theorem u32_toU32 {bytes : List UInt8} (h : bytes.length = 4) : u32 (toU32 bytes) = bytes := by
  have hlen : bytes.reverse.length = 4 := by rw [length_reverse, h]
  rw [u32, toU32, ← hlen, BigEndian.encode_decode, reverse_reverse]

theorem toU32_lt {bytes : List UInt8} (h : bytes.length = 4) : toU32 bytes < 2 ^ 32 := by
  have hlt := BigEndian.decode_lt bytes.reverse
  rw [length_reverse, h] at hlt
  exact hlt

/-! ### Bytes after their length -/

/-- A length in four bytes and that many bytes, with the rest of the input. -/
def readBytes (input : List UInt8) : Option (List UInt8 × List UInt8) :=
  let len := toU32 (input.take 4)
  if 4 + len ≤ input.length then some ((input.drop 4).take len, input.drop (4 + len)) else none

/-- The bytes after their length. -/
def framed (bytes : List UInt8) : List UInt8 := u32 bytes.length ++ bytes

/-- **A length and that many bytes are read back, and nothing else is read.** -/
theorem readBytes_eq_some {input bytes rest : List UInt8} :
    readBytes input = some (bytes, rest) ↔
      bytes.length < 2 ^ 32 ∧ input = framed bytes ++ rest := by
  constructor
  · intro h
    simp only [readBytes, Option.ite_none_right_eq_some, Option.some.injEq, Prod.mk.injEq] at h
    obtain ⟨hle, hbytes, hrest⟩ := h
    have htake : (input.take 4).length = 4 := by
      rw [length_take]
      omega
    have hlen : bytes.length = toU32 (input.take 4) := by
      rw [← hbytes, length_take, length_drop]
      omega
    refine ⟨hlen ▸ toU32_lt htake, ?_⟩
    rw [framed, hlen, u32_toU32 htake, ← hbytes, ← hrest, ← drop_drop, append_assoc,
      take_append_drop, take_append_drop]
  · rintro ⟨hlt, rfl⟩
    have htake : (framed bytes ++ rest).take 4 = u32 bytes.length := by
      rw [framed, append_assoc, take_append_of_le_length (by simp),
        take_of_length_le (by simp)]
    have hdrop : (framed bytes ++ rest).drop 4 = bytes ++ rest := by
      rw [framed, append_assoc, drop_append_of_le_length (by simp),
        drop_of_length_le (by simp), nil_append]
    have hle : 4 + bytes.length ≤ (framed bytes ++ rest).length := by simp [framed]
    rw [readBytes, htake, toU32_u32 hlt, if_pos hle, ← drop_drop, hdrop, take_left,
      drop_left]

/-! ### UTF-8 -/

/-- The bytes of a text. -/
def utf8 (s : String) : List UInt8 := s.toByteArray.data.toList

/-- The text of some bytes. -/
def fromUtf8 (bytes : List UInt8) : Option String := String.fromUTF8? ⟨bytes.toArray⟩

theorem fromUtf8_eq_some {bytes : List UInt8} {s : String} :
    fromUtf8 bytes = some s ↔ utf8 s = bytes := by
  constructor
  · intro h
    rw [fromUtf8, String.fromUTF8?] at h
    split_ifs at h with hvalid
    cases h
    rfl
  · rintro rfl
    have hvalid : (⟨(utf8 s).toArray⟩ : ByteArray).IsValidUTF8 := by
      rw [utf8, Array.toArray_toList]
      exact s.isValidUTF8
    rw [fromUtf8, String.fromUTF8?, dif_pos hvalid]
    rfl

/-! ### Codecs -/

/-- A codec that reads exactly what it writes. A value may be too large to be written. -/
structure Codec (α : Type*) where
  write : α → Option (List UInt8)
  read : List UInt8 → Option (α × List UInt8)
  read_eq_some : ∀ {input a rest},
    read input = some (a, rest) ↔ ∃ bytes, write a = some bytes ∧ input = bytes ++ rest

namespace Codec

variable {α β : Type*}

/-- A value, and nothing after it. -/
def tryFromSlice (c : Codec α) (input : List UInt8) : Option α :=
  match c.read input with
  | some (a, []) => some a
  | _ => none

/-- **An input is accepted as a whole exactly if it was written for the value.** -/
theorem tryFromSlice_eq_some {c : Codec α} {input : List UInt8} {a : α} :
    c.tryFromSlice input = some a ↔ c.write a = some input := by
  have hread : c.tryFromSlice input = some a ↔ c.read input = some (a, []) := by
    rw [tryFromSlice]
    split
    next a' heq => simp [heq]
    next hne =>
      refine iff_of_false (by simp) fun h => ?_
      exact hne a h
  rw [hread, c.read_eq_some]
  simp

/-- The values of `α` that stand for a value of `β`. -/
def pmap (c : Codec α) (f : α → Option β) (g : β → α)
    (h : ∀ {a b}, f a = some b ↔ g b = a) : Codec β where
  write b := c.write (g b)
  read input := (c.read input).bind fun r => (f r.1).map fun b => (b, r.2)
  read_eq_some {input b rest} := by
    rw [Option.bind_eq_some_iff]
    constructor
    · rintro ⟨⟨a, rest'⟩, hread, hmap⟩
      obtain ⟨b', hf, heq⟩ := Option.map_eq_some_iff.mp hmap
      cases heq
      rw [h.mp hf]
      exact c.read_eq_some.mp hread
    · rintro hwrite
      exact ⟨(g b, rest), c.read_eq_some.mpr hwrite, by rw [h.mpr rfl]; rfl⟩

/-- One after the other. -/
def pair (c : Codec α) (d : Codec β) : Codec (α × β) where
  write p := (c.write p.1).bind fun x => (d.write p.2).map (x ++ ·)
  read input := (c.read input).bind fun r => (d.read r.2).map fun r' => ((r.1, r'.1), r'.2)
  read_eq_some {input p rest} := by
    simp only [Option.bind_eq_some_iff, Option.map_eq_some_iff]
    constructor
    · rintro ⟨⟨a, rest₁⟩, hc, ⟨b, rest₂⟩, hd, heq⟩
      cases heq
      obtain ⟨x, hx, rfl⟩ := c.read_eq_some.mp hc
      obtain ⟨y, hy, rfl⟩ := d.read_eq_some.mp hd
      exact ⟨x ++ y, ⟨x, hx, y, hy, rfl⟩, (List.append_assoc ..).symm⟩
    · rintro ⟨_, ⟨x, hx, y, hy, rfl⟩, rfl⟩
      exact ⟨(p.1, y ++ rest), c.read_eq_some.mpr ⟨x, hx, List.append_assoc ..⟩,
        (p.2, rest), d.read_eq_some.mpr ⟨y, hy, rfl⟩, rfl⟩

end Codec

/-! ### The formats -/

/-- A byte string after its length. -/
def bytes : Codec (List UInt8) where
  write b := if b.length < 2 ^ 32 then some (framed b) else none
  read := readBytes
  read_eq_some := by
    simp [readBytes_eq_some, and_assoc]

/-- A string, as its UTF-8 bytes. -/
def string : Codec String := bytes.pmap fromUtf8 utf8 fromUtf8_eq_some

/-- A single byte. -/
def byte : Codec UInt8 where
  write b := some [b]
  read
    | [] => none
    | b :: rest => some (b, rest)
  read_eq_some {input b rest} := by
    cases input with
    | nil => simp
    | cons b' rest' => simp

/-- A truth value is the byte zero or one. -/
def bool : Codec Bool :=
  byte.pmap (fun b => if b = 0 then some false else if b = 1 then some true else none)
    (fun v => if v then 1 else 0) (by
      intro b v
      by_cases h0 : b = 0
      · cases v <;> simp [h0]
      · by_cases h1 : b = 1
        · cases v <;> simp [h1]
        · cases v <;> simp [h0, h1, eq_comm])

end RustExample.Borsh
