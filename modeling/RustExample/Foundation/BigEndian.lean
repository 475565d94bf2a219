import Mathlib.Tactic.Ring

/-!
# Numbers as big-endian bytes

A number is written with a fixed number of bytes, the most significant first. The order of the
bytes is then the order of the numbers, so that a store with ordered keys lists its entries in the
order of the numbers.
-/

namespace RustExample.BigEndian

open List

/-- The `w` bytes of a number below `256 ^ w`. -/
def encode : ℕ → ℕ → List UInt8
  | 0, _ => []
  | w + 1, n => UInt8.ofNat (n / 256 ^ w) :: encode w (n % 256 ^ w)

/-- The number of some bytes. -/
def decode (bytes : List UInt8) : ℕ := bytes.foldl (fun n b => n * 256 + b.toNat) 0

@[simp] theorem length_encode (w n : ℕ) : (encode w n).length = w := by
  induction w generalizing n with
  | zero => rfl
  | succ w ih => simp [encode, ih]

theorem toNat_ofNat_div {w n : ℕ} (h : n < 256 ^ (w + 1)) :
    (UInt8.ofNat (n / 256 ^ w)).toNat = n / 256 ^ w := by
  have hlt : n / 256 ^ w < 256 := by
    rw [Nat.div_lt_iff_lt_mul (Nat.pow_pos (by omega))]
    rwa [Nat.pow_succ, Nat.mul_comm] at h
  rw [UInt8.toNat_ofNat', Nat.mod_eq_of_lt hlt]

theorem foldl_encode {w n : ℕ} (h : n < 256 ^ w) (acc : ℕ) :
    (encode w n).foldl (fun n b => n * 256 + b.toNat) acc = acc * 256 ^ w + n := by
  induction w generalizing n acc with
  | zero =>
    have hn : n = 0 := by simpa using h
    simp [encode, hn]
  | succ w ih =>
    have hmod : n % 256 ^ w < 256 ^ w := Nat.mod_lt _ (Nat.pow_pos (by omega))
    rw [encode, foldl_cons, ih hmod, toNat_ofNat_div h]
    have hdiv := Nat.div_add_mod n (256 ^ w)
    calc (acc * 256 + n / 256 ^ w) * 256 ^ w + n % 256 ^ w
        = acc * 256 ^ (w + 1) + (256 ^ w * (n / 256 ^ w) + n % 256 ^ w) := by ring
      _ = acc * 256 ^ (w + 1) + n := by rw [hdiv]

theorem decode_encode {w n : ℕ} (h : n < 256 ^ w) : decode (encode w n) = n := by
  rw [decode, foldl_encode h, Nat.zero_mul, Nat.zero_add]

theorem foldl_eq_add (bytes : List UInt8) (acc : ℕ) :
    bytes.foldl (fun n b => n * 256 + b.toNat) acc =
      acc * 256 ^ bytes.length + decode bytes := by
  induction bytes generalizing acc with
  | nil => simp [decode]
  | cons b bytes ih =>
    rw [decode, foldl_cons, foldl_cons, ih, ih, length_cons]
    ring

theorem decode_cons (b : UInt8) (bytes : List UInt8) :
    decode (b :: bytes) = b.toNat * 256 ^ bytes.length + decode bytes := by
  rw [decode, foldl_cons, foldl_eq_add, Nat.zero_mul, Nat.zero_add]

theorem decode_lt (bytes : List UInt8) : decode bytes < 256 ^ bytes.length := by
  induction bytes with
  | nil => simp [decode]
  | cons b bytes ih =>
    have hb : (b.toNat + 1) * 256 ^ bytes.length ≤ 256 * 256 ^ bytes.length :=
      Nat.mul_le_mul_right _ b.toNat_lt
    rw [decode_cons, length_cons, Nat.pow_succ, Nat.mul_comm _ 256]
    rw [Nat.add_mul] at hb
    omega

/-- The number that some bytes spell is written with these bytes. -/
theorem encode_decode (bytes : List UInt8) : encode bytes.length (decode bytes) = bytes := by
  induction bytes with
  | nil => rfl
  | cons b bytes ih =>
    have hlt := decode_lt bytes
    have hpos : 0 < 256 ^ bytes.length := Nat.pow_pos (by omega)
    have hdiv : decode (b :: bytes) / 256 ^ bytes.length = b.toNat := by
      rw [decode_cons, Nat.add_comm, Nat.add_mul_div_right _ _ hpos, Nat.div_eq_of_lt hlt,
        Nat.zero_add]
    have hmod : decode (b :: bytes) % 256 ^ bytes.length = decode bytes := by
      rw [decode_cons, Nat.add_comm, Nat.add_mul_mod_self_right, Nat.mod_eq_of_lt hlt]
    rw [length_cons, encode, hdiv, hmod, ih, UInt8.ofNat_toNat]

theorem encode_inj {w m n : ℕ} (hm : m < 256 ^ w) (hn : n < 256 ^ w)
    (h : encode w m = encode w n) : m = n := by
  rw [← decode_encode hm, ← decode_encode hn, h]

theorem compare_toNat (a b : UInt8) : compare a b = compare a.toNat b.toNat := by
  show compareOfLessAndEq a b = compareOfLessAndEq a.toNat b.toNat
  simp only [compareOfLessAndEq, UInt8.lt_iff_toNat_lt, UInt8.toNat_inj]

/-- **The order of the bytes is the order of the numbers.** -/
theorem compare_encode {w m n : ℕ} (hm : m < 256 ^ w) (hn : n < 256 ^ w) :
    compare (encode w m) (encode w n) = compare m n := by
  induction w generalizing m n with
  | zero =>
    have hm : m = 0 := by simpa using hm
    have hn : n = 0 := by simpa using hn
    simp [encode, hm, hn]
  | succ w ih =>
    have hpos : 0 < 256 ^ w := Nat.pow_pos (by omega)
    have hdm := Nat.div_add_mod m (256 ^ w)
    have hdn := Nat.div_add_mod n (256 ^ w)
    rw [encode, encode, List.compare_cons_cons, ih (Nat.mod_lt _ hpos) (Nat.mod_lt _ hpos),
      compare_toNat, toNat_ofNat_div hm, toNat_ofNat_div hn]
    rcases Nat.lt_trichotomy (m / 256 ^ w) (n / 256 ^ w) with hlt | heq | hgt
    · have hmn : m < n := lt_of_not_ge fun h => absurd (Nat.div_le_div_right h) (not_le.mpr hlt)
      rw [Nat.compare_eq_lt.mpr hlt, Nat.compare_eq_lt.mpr hmn]
      rfl
    · rw [heq] at hdm
      have hiff : m % 256 ^ w < n % 256 ^ w ↔ m < n := by omega
      have hiff' : n % 256 ^ w < m % 256 ^ w ↔ n < m := by omega
      rw [Nat.compare_eq_eq.mpr heq, Nat.compare_eq_ite_lt m n, Nat.compare_eq_ite_lt (m % _)]
      simp only [Ordering.then, hiff, hiff']
    · have hmn : n < m := lt_of_not_ge fun h => absurd (Nat.div_le_div_right h) (not_le.mpr hgt)
      rw [Nat.compare_eq_gt.mpr hgt, Nat.compare_eq_gt.mpr hmn]
      rfl

end RustExample.BigEndian
