import Mathlib.Data.List.Infix
import Mathlib.Tactic.Ring
import RustExample.Foundation.Fallible

/-!
# The protobuf wire format

A protobuf message is the concatenation of its fields, each a key (tag and wire type) followed by
a value. Nothing says where a message ends, so a message whose end is missing may still decode, to
one that lacks its last fields. A single field is different: what is left of it when its end is
missing is rejected.
-/

namespace RustExample.Protobuf

open List

/-! ### Readers -/

/-- The wire types, under their numbers on the wire. -/
inductive WireType
  | varint
  | sixtyFourBit
  | lengthDelimited
  | startGroup
  | endGroup
  | thirtyTwoBit
deriving DecidableEq, Repr

/-- Why a message is refused. -/
inductive DecodeError
  | invalidVarint
  | invalidKey (key : ℕ)
  | invalidWireType (value : ℕ)
  | invalidTag
  | unexpectedWireType (actual expected : WireType)
  | bufferUnderflow
  | unexpectedEndGroupTag
  | recursionLimitReached
deriving DecidableEq, Repr

/-- A reader takes a value off the front of the bytes that remain. -/
abbrev Reader (α : Type) := List UInt8 → Except DecodeError (α × List UInt8)

variable {α β μ : Type}

/-- A reader `Recovers` the value `a` from its `code`: whatever follows the code is left alone, and
a code whose end is missing is rejected. -/
structure Recovers (read : Reader α) (code : List UInt8) (a : α) : Prop where
  whole : ∀ rest, read (code ++ rest) = .ok (a, rest)
  cut : ∀ p, p <+: code → p ≠ code → ∃ e, read p = .error e

/-- A reader gives back no more bytes than it was given. -/
def Shrinks (read : Reader α) : Prop :=
  ∀ bs a rest, read bs = .ok (a, rest) → rest.length ≤ bs.length

/-- Reads on with a result. -/
def Reader.andThen (read : Reader α) (next : α → Reader β) : Reader β := fun bs => do
  let (a, rest) ← read bs
  next a rest

/-- A check of what a reader returns; no more bytes are taken. -/
def Reader.check (f : α → Except DecodeError β) (read : Reader α) : Reader β :=
  read.andThen fun a rest => do
    let b ← f a
    pure (b, rest)

/-- A change of what a reader returns. -/
def Reader.map (f : α → β) (read : Reader α) : Reader β := read.check fun a => .ok (f a)

variable {bs : List UInt8}

theorem Reader.andThen_eq_ok {read : Reader α} {next : α → Reader β} {rest : List UInt8} {b : β}
    (h : read.andThen next bs = .ok (b, rest)) :
    ∃ a mid, read bs = .ok (a, mid) ∧ next a mid = .ok (b, rest) := by
  obtain ⟨⟨a, mid⟩, h₁, h₂⟩ := bind_eq_ok.mp h
  exact ⟨a, mid, h₁, h₂⟩

/-- What is left of two pieces when the end is missing. -/
theorem prefix_append_cases {p c d : List α} (h : p <+: c ++ d) (hne : p ≠ c ++ d) :
    (p <+: c ∧ p ≠ c) ∨ ∃ q, p = c ++ q ∧ q <+: d ∧ q ≠ d := by
  rcases prefix_or_prefix_of_prefix h (prefix_append c d) with hp | ⟨q, rfl⟩
  · by_cases hpc : p = c
    · subst hpc
      exact .inr ⟨[], by simp, nil_prefix, fun hd => hne (by simp [← hd])⟩
    · exact .inl ⟨hp, hpc⟩
  · have hq : q <+: d := (prefix_append_right_inj c).mp h
    exact .inr ⟨q, rfl, hq, fun hd => hne (by rw [hd])⟩

theorem Recovers.of_byte {read : Reader α} {b : UInt8} {a : α}
    (h : ∀ rest, read (b :: rest) = .ok (a, rest)) (h' : ∃ e, read [] = .error e) :
    Recovers read [b] a where
  whole := h
  cut p hp hne := by
    rcases List.prefix_cons_iff.mp hp with rfl | ⟨q, rfl, hq⟩
    · exact h'
    · exact absurd (by rw [List.prefix_nil.mp hq]) hne

theorem Recovers.andThen {read : Reader α} {next : α → Reader β} {c d : List UInt8} {a : α}
    {b : β} (h : Recovers read c a) (h' : Recovers (next a) d b) :
    Recovers (read.andThen next) (c ++ d) b where
  whole rest := by
    rw [Reader.andThen, append_assoc, h.whole]
    exact h'.whole rest
  cut p hp hne := by
    rcases prefix_append_cases hp hne with ⟨hc, hcne⟩ | ⟨q, rfl, hq, hqne⟩
    · obtain ⟨e, he⟩ := h.cut p hc hcne
      exact ⟨e, by rw [Reader.andThen, he]; rfl⟩
    · obtain ⟨e, he⟩ := h'.cut q hq hqne
      exact ⟨e, by rw [Reader.andThen, h.whole]; exact he⟩

theorem Recovers.check {read : Reader α} {c : List UInt8} {a : α} {b : β} (h : Recovers read c a)
    {f : α → Except DecodeError β} (hf : f a = .ok b) : Recovers (read.check f) c b where
  whole rest := by
    rw [Reader.check, Reader.andThen, h.whole]
    show (f a >>= fun b => pure (b, rest)) = _
    rw [hf]
    rfl
  cut p hp hne := by
    obtain ⟨e, he⟩ := h.cut p hp hne
    exact ⟨e, by rw [Reader.check, Reader.andThen, he]; rfl⟩

theorem Recovers.map {read : Reader α} {c : List UInt8} {a : α} (h : Recovers read c a)
    (f : α → β) : Recovers (read.map f) c (f a) := h.check rfl

theorem Shrinks.andThen {read : Reader α} {next : α → Reader β} (h : Shrinks read)
    (h' : ∀ a, Shrinks (next a)) : Shrinks (read.andThen next) := by
  intro bs b rest hok
  obtain ⟨a, mid, h₁, h₂⟩ := Reader.andThen_eq_ok hok
  exact (h' a mid b rest h₂).trans (h bs a mid h₁)

theorem Reader.check_eq_ok {read : Reader α} {f : α → Except DecodeError β} {rest : List UInt8}
    {b : β} (h : read.check f bs = .ok (b, rest)) :
    ∃ a, read bs = .ok (a, rest) ∧ f a = .ok b := by
  obtain ⟨a, mid, h₁, h₂⟩ := Reader.andThen_eq_ok h
  obtain ⟨b', hb, h₃⟩ := bind_eq_ok.mp h₂
  cases h₃
  exact ⟨a, h₁, hb⟩

theorem Shrinks.map {read : Reader α} (h : Shrinks read) (f : α → β) : Shrinks (read.map f) := by
  intro bs b rest hok
  obtain ⟨a, ha, -⟩ := Reader.check_eq_ok hok
  exact h bs a rest ha

/-! ### Variable-length integers -/

/-- The low seven bits first, in at most `k` bytes; the high bit says that more follow. -/
def encodeVarintLoop : ℕ → ℕ → List UInt8
  | 0, _ => []
  | k + 1, n =>
    if n < 0x80 then [UInt8.ofNat n]
    else UInt8.ofNat (n % 0x80 + 0x80) :: encodeVarintLoop k (n / 0x80)

/-- The number in groups of 7 bits. -/
def encodeVarint (n : ℕ) : List UInt8 := encodeVarintLoop 10 n

/-- At most `k` bytes; the last of ten holds only the lowest bit: the value has 64 bits. -/
def decodeVarintLoop : ℕ → Reader ℕ
  | 0, _ => .error .invalidVarint
  | _ + 1, [] => .error .invalidVarint
  | k + 1, b :: rest =>
    if b.toNat < 0x80 then
      if k = 0 ∧ 2 ≤ b.toNat then .error .invalidVarint else .ok (b.toNat, rest)
    else do
      let (n, rest) ← decodeVarintLoop k rest
      pure (b.toNat - 0x80 + 0x80 * n, rest)

/-- Reads such a number. -/
def decodeVarint : Reader ℕ := decodeVarintLoop 10

theorem toNat_ofNat_of_lt {n : ℕ} (h : n < 256) : (UInt8.ofNat n).toNat = n := by
  rw [UInt8.toNat_ofNat', Nat.mod_eq_of_lt h]

theorem recovers_varintLoop {k n : ℕ} (h : n < 2 * 128 ^ k) :
    Recovers (decodeVarintLoop (k + 1)) (encodeVarintLoop (k + 1) n) n := by
  induction k generalizing n with
  | zero =>
    have hn : n < 0x80 := by omega
    have hb : ¬ 2 ≤ n := by omega
    rw [encodeVarintLoop, if_pos hn]
    refine .of_byte (fun rest => ?_) ⟨_, rfl⟩
    simp [decodeVarintLoop, toNat_ofNat_of_lt (show n < 256 by omega), hn, hb]
  | succ k ih =>
    rw [encodeVarintLoop]
    by_cases hn : n < 0x80
    · rw [if_pos hn]
      refine .of_byte (fun rest => ?_) ⟨_, rfl⟩
      simp [decodeVarintLoop, toNat_ofNat_of_lt (show n < 256 by omega), hn]
    · -- the first byte has the high bit set, and what follows is the rest of the number
      rw [if_neg hn]
      have hdiv : n / 0x80 < 2 * 128 ^ k := by
        rw [Nat.div_lt_iff_lt_mul (by omega)]
        calc n < 2 * 128 ^ (k + 1) := h
          _ = 2 * 128 ^ k * 0x80 := by ring
      have hb : (UInt8.ofNat (n % 0x80 + 0x80)).toNat = n % 0x80 + 0x80 :=
        toNat_ofNat_of_lt (by omega)
      have hhigh : ¬ (UInt8.ofNat (n % 0x80 + 0x80)).toNat < 0x80 := by omega
      refine ⟨fun rest => ?_, fun p hp hne => ?_⟩
      · rw [cons_append, decodeVarintLoop, if_neg hhigh, (ih hdiv).whole, hb]
        have hval : n % 0x80 + 0x80 - 0x80 + 0x80 * (n / 0x80) = n := by omega
        exact congrArg (fun v => Except.ok (v, rest)) hval
      · rcases List.prefix_cons_iff.mp hp with rfl | ⟨q, rfl, hq⟩
        · exact ⟨_, rfl⟩
        · obtain ⟨e, he⟩ := (ih hdiv).cut q hq fun hqe => hne (by rw [hqe])
          exact ⟨e, by rw [decodeVarintLoop, if_neg hhigh, he]; rfl⟩

theorem recovers_varint {n : ℕ} (h : n < 2 ^ 64) : Recovers decodeVarint (encodeVarint n) n :=
  recovers_varintLoop (k := 9) (by simpa using h)

theorem decodeVarintLoop_length {k n : ℕ} {rest : List UInt8}
    (h : decodeVarintLoop k bs = .ok (n, rest)) : rest.length < bs.length := by
  induction k generalizing bs n with
  | zero => cases h
  | succ k ih =>
    cases bs with
    | nil => cases h
    | cons b bs =>
      rw [decodeVarintLoop] at h
      split_ifs at h
      · cases h
        exact Nat.lt_succ_self _
      · obtain ⟨⟨m, mid⟩, h₁, h₂⟩ := bind_eq_ok.mp h
        cases h₂
        have := ih h₁
        rw [length_cons]
        omega

theorem shrinks_varint : Shrinks decodeVarint := fun _ _ _ h => (decodeVarintLoop_length h).le

/-! ### Keys and values -/

/-- The number of a wire type. -/
def WireType.number : WireType → ℕ
  | .varint => 0
  | .sixtyFourBit => 1
  | .lengthDelimited => 2
  | .startGroup => 3
  | .endGroup => 4
  | .thirtyTwoBit => 5

/-- The wire type of a number. -/
def decodeWireType : ℕ → Except DecodeError WireType
  | 0 => .ok .varint
  | 1 => .ok .sixtyFourBit
  | 2 => .ok .lengthDelimited
  | 3 => .ok .startGroup
  | 4 => .ok .endGroup
  | 5 => .ok .thirtyTwoBit
  | n => .error (.invalidWireType n)

@[simp] theorem decodeWireType_number (w : WireType) : decodeWireType w.number = .ok w := by
  cases w <;> rfl

theorem WireType.number_lt (w : WireType) : w.number < 8 := by
  cases w <;> decide

/-- The key of a field. -/
def encodeKey (tag : ℕ) (wireType : WireType) : List UInt8 :=
  encodeVarint (tag * 8 + wireType.number)

/-- The check of a key once it is read. -/
def checkKey (key : ℕ) : Except DecodeError (ℕ × WireType) :=
  if 2 ^ 32 ≤ key then .error (.invalidKey key)
  else do
    let wireType ← decodeWireType (key % 8)
    if key / 8 < 1 then .error .invalidTag else .ok (key / 8, wireType)

/-- Reads the key of a field. -/
def decodeKey : Reader (ℕ × WireType) := decodeVarint.check checkKey

theorem checkKey_key {tag : ℕ} (h : 0 < tag) (h' : tag < 2 ^ 29) (w : WireType) :
    checkKey (tag * 8 + w.number) = .ok (tag, w) := by
  have hw := w.number_lt
  have hmod : (tag * 8 + w.number) % 8 = w.number := by omega
  have hdiv : (tag * 8 + w.number) / 8 = tag := by omega
  have hmax : ¬ 2 ^ 32 ≤ tag * 8 + w.number := by omega
  have htag : ¬ tag < 1 := by omega
  rw [checkKey, if_neg hmax, hmod, hdiv, decodeWireType_number, ok_bind, if_neg htag]

theorem recovers_key {tag : ℕ} (h : 0 < tag) (h' : tag < 2 ^ 29) (w : WireType) :
    Recovers decodeKey (encodeKey tag w) (tag, w) := by
  have hw := w.number_lt
  exact (recovers_varint (by omega)).check (checkKey_key h h' w)

theorem decodeKey_length {k : ℕ × WireType} {rest : List UInt8} (h : decodeKey bs = .ok (k, rest)) :
    rest.length < bs.length := by
  obtain ⟨n, hn, -⟩ := Reader.check_eq_ok h
  exact decodeVarintLoop_length hn

/-- The next `n` bytes. -/
def take (n : ℕ) : Reader (List UInt8) := fun bs =>
  if bs.length < n then .error .bufferUnderflow else .ok (bs.take n, bs.drop n)

theorem recovers_take (bs : List UInt8) : Recovers (take bs.length) bs bs where
  whole rest := by simp [take]
  cut p hp hne := by
    have hlt : p.length < bs.length :=
      lt_of_le_of_ne hp.length_le fun heq => hne (hp.eq_of_length heq)
    exact ⟨_, if_pos hlt⟩

theorem shrinks_take (n : ℕ) : Shrinks (take n) := by
  intro bs a rest h
  rw [take] at h
  split_ifs at h
  cases h
  simp

/-- The value of a length-delimited field. -/
def mergeBytes (wireType : WireType) : Reader (List UInt8) := fun bs =>
  if wireType ≠ .lengthDelimited then .error (.unexpectedWireType wireType .lengthDelimited)
  else decodeVarint.andThen take bs

/-- The value of an integer field, as it is read: 64 bits at most. -/
def mergeVarint (wireType : WireType) : Reader ℕ := fun bs =>
  if wireType ≠ .varint then .error (.unexpectedWireType wireType .varint) else decodeVarint bs

theorem recovers_mergeBytes (h : bs.length < 2 ^ 64) :
    Recovers (mergeBytes .lengthDelimited) (encodeVarint bs.length ++ bs) bs :=
  (recovers_varint h).andThen (recovers_take bs)

theorem recovers_mergeVarint {n : ℕ} (h : n < 2 ^ 64) :
    Recovers (mergeVarint .varint) (encodeVarint n) n := recovers_varint h

theorem shrinks_mergeBytes (w : WireType) : Shrinks (mergeBytes w) := by
  intro bs a rest h
  rw [mergeBytes] at h
  split_ifs at h
  exact shrinks_varint.andThen shrinks_take bs a rest h

theorem shrinks_mergeVarint (w : WireType) : Shrinks (mergeVarint w) := by
  intro bs a rest h
  rw [mergeVarint] at h
  split_ifs at h
  exact shrinks_varint bs a rest h

/-- A field of bytes as it is written; empty bytes are the default and not written. -/
def encodeBytesField (tag : ℕ) (bs : List UInt8) : List UInt8 :=
  if bs = [] then [] else encodeKey tag .lengthDelimited ++ (encodeVarint bs.length ++ bs)

/-- An integer field as it is written; zero is the default and not written. -/
def encodeVarintField (tag n : ℕ) : List UInt8 :=
  if n = 0 then [] else encodeKey tag .varint ++ encodeVarint n

/-! ### Unknown fields -/

/-- The fields of a group, up to its end; `skip` passes over one of them, and the count is a bound
on how many there can be. -/
def skipGroup (skip : WireType → ℕ → Reader Unit) (tag : ℕ) : ℕ → Reader Unit
  | 0, _ => .error .invalidVarint
  | n + 1, bs => do
    let ((innerTag, innerType), rest) ← decodeKey bs
    if innerType = .endGroup then
      if innerTag ≠ tag then .error .unexpectedEndGroupTag else .ok ((), rest)
    else do
      let (_, rest) ← skip innerType innerTag rest
      skipGroup skip tag n rest

/-- Pass over a field with an unknown tag, with groups up to `depth` deep. -/
def skipField : ℕ → WireType → ℕ → Reader Unit
  | 0, _, _, _ => .error .recursionLimitReached
  | depth + 1, wireType, tag, bs =>
    match wireType with
    | .varint => decodeVarint.map (fun _ => ()) bs
    | .thirtyTwoBit => (take 4).map (fun _ => ()) bs
    | .sixtyFourBit => (take 8).map (fun _ => ()) bs
    | .lengthDelimited => (decodeVarint.andThen take).map (fun _ => ()) bs
    | .startGroup => skipGroup (skipField depth) tag bs.length bs
    | .endGroup => .error .unexpectedEndGroupTag

theorem shrinks_skipGroup {skip : WireType → ℕ → Reader Unit} (h : ∀ w t, Shrinks (skip w t))
    (tag n : ℕ) : Shrinks (skipGroup skip tag n) := by
  induction n with
  | zero =>
    intro bs a rest hok
    cases hok
  | succ n ih =>
    intro bs a rest hok
    obtain ⟨⟨⟨innerTag, innerType⟩, mid⟩, hkey, hok⟩ := bind_eq_ok.mp hok
    have hmid := decodeKey_length hkey
    simp only at hok
    split_ifs at hok with hend htag
    · cases hok
      omega
    · obtain ⟨⟨⟨⟩, mid'⟩, hskip, hok⟩ := bind_eq_ok.mp hok
      have hmid' := h _ _ _ _ _ hskip
      have hrest : rest.length ≤ mid'.length := ih _ _ _ hok
      omega

theorem shrinks_skipField (depth : ℕ) (w : WireType) (tag : ℕ) :
    Shrinks (skipField depth w tag) := by
  induction depth generalizing w tag with
  | zero =>
    intro bs a rest h
    cases h
  | succ depth ih =>
    intro bs a rest h
    cases w with
    | varint => exact shrinks_varint.map _ bs a rest h
    | sixtyFourBit => exact (shrinks_take 8).map _ bs a rest h
    | lengthDelimited => exact (shrinks_varint.andThen shrinks_take).map _ bs a rest h
    | startGroup => exact shrinks_skipGroup ih tag bs.length bs a rest h
    | endGroup => cases h
    | thirtyTwoBit => exact (shrinks_take 4).map _ bs a rest h

/-! ### Messages -/

/-- A kind of message: its default value, and how a field read under a tag changes it. -/
structure MessageFormat (μ : Type) where
  default : μ
  mergeField : μ → ℕ → WireType → Reader μ
  shrinks : ∀ m tag wireType, Shrinks (mergeField m tag wireType)

/-- A field as it is written, and what reading it does to a message. -/
structure FieldCode (μ : Type) where
  code : List UInt8
  put : μ → μ

/-- What reading some fields does to a message. -/
def putAll (m : μ) (fs : List (FieldCode μ)) : μ := fs.foldl (fun m f => f.put m) m

variable {fs : List (FieldCode μ)}

/-- What no field changes, the fields together leave alone. -/
theorem view_putAll {ν : Type} {view : μ → ν} (h : ∀ f ∈ fs, ∀ m, view (f.put m) = view m) (m : μ) :
    view (putAll m fs) = view m := by
  induction fs generalizing m with
  | nil => rfl
  | cons f fs ih =>
    rw [putAll, foldl_cons]
    exact (ih (fun g hg => h g (mem_cons_of_mem _ hg)) _).trans (h f mem_cons_self m)

namespace MessageFormat

variable (F : MessageFormat μ)

/-- A key, and the field under it. -/
def mergeOne (m : μ) : Reader μ := decodeKey.andThen fun k => F.mergeField m k.1 k.2

/-- Merge fields until no bytes are left; the count is a bound on how many there can be. -/
def mergeLoop : ℕ → μ → List UInt8 → Except DecodeError μ
  | 0, m, _ => .ok m
  | _ + 1, m, [] => .ok m
  | n + 1, m, b :: bs => do
    let (m, rest) ← F.mergeOne m (b :: bs)
    mergeLoop n m rest

/-- A field takes at least one byte, so that the length of the bytes bounds the fields in them. -/
def merge (m : μ) (bs : List UInt8) : Except DecodeError μ := F.mergeLoop bs.length m bs

/-- Reads a message. -/
def decode (bs : List UInt8) : Except DecodeError μ := F.merge F.default bs

theorem mergeOne_length {m m' : μ} {rest : List UInt8} (h : F.mergeOne m bs = .ok (m', rest)) :
    rest.length < bs.length := by
  obtain ⟨k, mid, h₁, h₂⟩ := Reader.andThen_eq_ok h
  exact (F.shrinks m k.1 k.2 mid m' rest h₂).trans_lt (decodeKey_length h₁)

theorem mergeLoop_eq_merge {n : ℕ} {m : μ} (h : bs.length ≤ n) :
    F.mergeLoop n m bs = F.merge m bs := by
  induction n using Nat.strong_induction_on generalizing m bs with
  | _ n ih =>
    cases bs with
    | nil => cases n <;> rfl
    | cons b bs =>
      obtain ⟨n, rfl⟩ : ∃ k, n = k + 1 := ⟨n - 1, by simp at h; omega⟩
      rw [merge, length_cons, mergeLoop, mergeLoop]
      cases hone : F.mergeOne m (b :: bs) with
      | error e => rfl
      | ok r =>
        obtain ⟨m', rest⟩ := r
        have hlt := F.mergeOne_length hone
        simp only [length_cons] at hlt h
        show F.mergeLoop n m' rest = F.mergeLoop bs.length m' rest
        rw [ih n (by omega) (by omega), ih bs.length (by omega) (by omega)]

theorem merge_cons (m : μ) (b : UInt8) (bs : List UInt8) :
    F.merge m (b :: bs) = (F.mergeOne m (b :: bs) >>= fun r => F.merge r.1 r.2) := by
  rw [merge, length_cons, mergeLoop]
  cases hone : F.mergeOne m (b :: bs) with
  | error e => rfl
  | ok r =>
    have hlt := F.mergeOne_length hone
    simp only [length_cons] at hlt
    exact F.mergeLoop_eq_merge (by omega)

/-- The format reads a field back from its bytes. -/
def Reads (f : FieldCode μ) : Prop := ∀ m, Recovers (F.mergeOne m) f.code (f.put m)

theorem Reads.code_ne_nil {f : FieldCode μ} (h : F.Reads f) : f.code ≠ [] := by
  intro hnil
  have hwhole := (h F.default).whole []
  rw [hnil] at hwhole
  cases hwhole

variable {F}

theorem merge_field_append {f : FieldCode μ} (h : F.Reads f) (m : μ) (rest : List UInt8) :
    F.merge m (f.code ++ rest) = F.merge (f.put m) rest := by
  have hwhole := (h m).whole rest
  have hne := h.code_ne_nil
  obtain ⟨b, bs, hb⟩ := exists_cons_of_ne_nil (append_ne_nil_of_left_ne_nil hne rest)
  rw [hb] at hwhole ⊢
  rw [merge_cons, hwhole, ok_bind]

/-- The bytes of a message, field after field. -/
def encodeFields (fs : List (FieldCode μ)) : List UInt8 := fs.flatMap FieldCode.code

theorem merge_fields (h : ∀ f ∈ fs, F.Reads f) (m : μ) :
    F.merge m (encodeFields fs) = .ok (putAll m fs) := by
  induction fs generalizing m with
  | nil => rfl
  | cons f fs ih =>
    rw [encodeFields, flatMap_cons, merge_field_append (h f mem_cons_self)]
    exact ih (fun g hg => h g (mem_cons_of_mem _ hg)) _

/-- **The fields of a message decode to it.** -/
theorem decode_fields (h : ∀ f ∈ fs, F.Reads f) :
    F.decode (encodeFields fs) = .ok (putAll F.default fs) :=
  merge_fields h _

theorem merge_cut (h : ∀ f ∈ fs, F.Reads f) (m : μ) {p : List UInt8} (hp : p <+: encodeFields fs)
    (hne : p ≠ encodeFields fs) :
    (∃ e, F.merge m p = .error e) ∨
      ∃ k < fs.length, F.merge m p = .ok (putAll m (fs.take k)) := by
  induction fs generalizing m p with
  | nil => exact absurd (List.prefix_nil.mp hp) hne
  | cons f fs ih =>
    have hf := h f mem_cons_self
    rw [encodeFields, flatMap_cons] at hp hne
    rcases prefix_append_cases hp hne with ⟨hpc, hpne⟩ | ⟨q, rfl, hq, hqne⟩
    · cases p with
      | nil => exact .inr ⟨0, Nat.succ_pos _, rfl⟩
      | cons b bs =>
        obtain ⟨e, he⟩ := (hf m).cut _ hpc hpne
        exact .inl ⟨e, by rw [merge_cons, he]; rfl⟩
    · rw [merge_field_append hf]
      rcases ih (fun g hg => h g (mem_cons_of_mem _ hg)) (f.put m) hq hqne with
        he | ⟨k, hk, hok⟩
      · exact .inl he
      · exact .inr ⟨k + 1, Nat.succ_lt_succ hk, hok⟩

/-- **Bytes with the end missing** decode to a message without its last field, or not at all. -/
theorem decode_cut (h : ∀ f ∈ fs, F.Reads f) {p : List UInt8} (hp : p <+: encodeFields fs)
    (hne : p ≠ encodeFields fs) :
    (∃ e, F.decode p = .error e) ∨
      ∃ k < fs.length, F.decode p = .ok (putAll F.default (fs.take k)) :=
  merge_cut h _ hp hne

theorem reads_of_mergeField {tag : ℕ} {w : WireType} {body : List UInt8} {put : μ → μ}
    (htag : 0 < tag) (hmax : tag < 2 ^ 29)
    (h : ∀ m, Recovers (F.mergeField m tag w) body (put m)) :
    F.Reads ⟨encodeKey tag w ++ body, put⟩ :=
  fun m => (recovers_key htag hmax w).andThen (h m)

end MessageFormat

end RustExample.Protobuf
