import Mathlib.Tactic.Common

/-!
# Compact JSON text

The text form of a JSON value without white space, and a reader of it. Numbers are natural
numbers and the members of an object keep their order, which is all that the records of the
modelled programs need.

* `Value.write` gives the text of a value: strings with the short escapes of JSON where there is
  one and `\u00XX` for the other control characters, objects as `{"name":value,...}`.
* `Value.read` reads one value off the front of a text and returns the rest. It is recursive on
  a fuel, of which the nesting of the value takes a part.
* `Serde` is the pair of a writer and a reader of a type for which reading what was written gives
  it back; `Serde.ofShape` builds one from a JSON shape of the type.
-/

namespace RustExample.JsonText

open List

/-! ### Strings -/

/-- The quotation mark. -/
abbrev quote : Char := '\x22'

/-- The backslash. -/
abbrev backslash : Char := '\x5c'

/-- The letter after the escape character for the characters with a short escape. -/
def shortEscapes : List (Char × Char) :=
  [(quote, quote), (backslash, backslash), (Char.ofNat 8, 'b'), (Char.ofNat 9, 't'),
    (Char.ofNat 10, 'n'), (Char.ofNat 12, 'f'), (Char.ofNat 13, 'r')]

/-- The sixteen hexadecimal digits. -/
def hexDigits : List Char :=
  ['0', '1', '2', '3', '4', '5', '6', '7', '8', '9', 'a', 'b', 'c', 'd', 'e', 'f']

/-- The text of one character inside a string. -/
def escapeChar (c : Char) : List Char :=
  match shortEscapes.lookup c with
  | some e => [backslash, e]
  | none =>
    if c.toNat < 32 then
      [backslash, 'u', '0', '0', hexDigits.getD (c.toNat / 16) '0',
        hexDigits.getD (c.toNat % 16) '0']
    else [c]

/-- The text of the characters of a string, without the quotation marks. -/
def escape (s : List Char) : List Char := s.flatMap escapeChar

/-- The character that an escape letter stands for. -/
def unescapeLetter (e : Char) : Option Char :=
  (shortEscapes.map Prod.swap).lookup e

/-- The character that two hexadecimal digits stand for. -/
def unescapeHex (h l : Char) : Option Char :=
  match hexDigits.idxOf? h, hexDigits.idxOf? l with
  | some h, some l => some (Char.ofNat (16 * h + l))
  | _, _ => none

/-- Read the characters of a string up to the closing quotation mark. -/
def readString : List Char → Option (List Char × List Char)
  | [] => none
  | '\x22' :: t => some ([], t)
  | '\x5c' :: 'u' :: '0' :: '0' :: h :: l :: t =>
    (unescapeHex h l).bind fun c => (readString t).map fun p => (c :: p.1, p.2)
  | '\x5c' :: e :: t =>
    (unescapeLetter e).bind fun c => (readString t).map fun p => (c :: p.1, p.2)
  | '\x5c' :: [] => none
  | c :: t => (readString t).map fun p => (c :: p.1, p.2)

/-- The escapes of the control characters without a letter are read back. -/
private theorem unescapeHex_control :
    ∀ n < 32, unescapeHex (hexDigits.getD (n / 16) '0') (hexDigits.getD (n % 16) '0') =
      some (Char.ofNat n) := by
  decide

/-- Every escape letter is read back as the character it was written for. -/
private theorem unescapeLetter_short :
    ∀ p ∈ shortEscapes, unescapeLetter p.2 = some p.1 ∧ p.2 ≠ 'u' := by
  decide

private theorem mem_shortEscapes_of_lookup {c e : Char} (h : shortEscapes.lookup c = some e) :
    (c, e) ∈ shortEscapes := by
  obtain ⟨l₁, l₂, hl, -⟩ := List.lookup_eq_some_iff.mp h
  simp [hl]

private theorem not_lookup_none {c : Char} (h : shortEscapes.lookup c = none) :
    c ≠ '\x22' ∧ c ≠ '\x5c' := by
  constructor <;> rintro rfl <;> exact absurd h (by decide)

private theorem readString_escapeChar (c : Char) (t : List Char) :
    readString (escapeChar c ++ t) = (readString t).map fun p => (c :: p.1, p.2) := by
  unfold escapeChar
  cases he : shortEscapes.lookup c with
  | some e =>
    obtain ⟨hl, hu⟩ := unescapeLetter_short _ (mem_shortEscapes_of_lookup he)
    dsimp only at hl hu
    simp [backslash, readString, hl, hu]
  | none =>
    obtain ⟨hq, hb⟩ := not_lookup_none he
    by_cases hc : c.toNat < 32
    · simp only [hc, ↓reduceIte, backslash, cons_append, nil_append, readString,
        unescapeHex_control _ hc, Char.ofNat_toNat, Option.bind_some]
    · simp only [hc, ↓reduceIte, cons_append, nil_append]
      rw [readString] <;> simp [hq, hb]

theorem readString_escape (s t : List Char) :
    readString (escape s ++ quote :: t) = some (s, t) := by
  induction s with
  | nil => rfl
  | cons c s ih =>
    have hsplit : escape (c :: s) ++ quote :: t = escapeChar c ++ (escape s ++ quote :: t) := by
      simp [escape]
    rw [hsplit, readString_escapeChar, ih]
    rfl

/-! ### Values -/

/-- JSON values with natural numbers; the members of an object keep their order. -/
inductive Value where
  | null
  | bool (b : Bool)
  | num (n : ℕ)
  | str (s : String)
  | obj (members : List (String × Value))

namespace Value

/-- The text of a string with its quotation marks. -/
def quoted (s : String) : List Char := quote :: (escape s.toList ++ [quote])

mutual

/-- The text of a value. -/
def write : Value → List Char
  | null => ['n', 'u', 'l', 'l']
  | bool true => ['t', 'r', 'u', 'e']
  | bool false => ['f', 'a', 'l', 's', 'e']
  | num n => Nat.toDigits 10 n
  | str s => quoted s
  | obj members => '\x7b' :: writeMembers members

/-- The text of the members of an object, with the closing brace. -/
def writeMembers : List (String × Value) → List Char
  | [] => ['\x7d']
  | [(k, v)] => quoted k ++ ':' :: (write v ++ ['\x7d'])
  | (k, v) :: m :: members => quoted k ++ ':' :: (write v ++ ',' :: writeMembers (m :: members))

end

/-- The digits at the front of a text and what follows them. -/
def readDigits (t : List Char) : Option (Value × List Char) :=
  match t.takeWhile Char.isDigit with
  | [] => none
  | d :: ds => some (num (Nat.ofDigitChars 10 (d :: ds) 0), t.dropWhile Char.isDigit)

mutual

/-- Read one value off the front of a text. -/
def read : ℕ → List Char → Option (Value × List Char)
  | 0, _ => none
  | _ + 1, 'n' :: 'u' :: 'l' :: 'l' :: t => some (null, t)
  | _ + 1, 't' :: 'r' :: 'u' :: 'e' :: t => some (bool true, t)
  | _ + 1, 'f' :: 'a' :: 'l' :: 's' :: 'e' :: t => some (bool false, t)
  | _ + 1, '\x22' :: t => (readString t).map fun p => (str (String.ofList p.1), p.2)
  | _ + 1, '\x7b' :: '\x7d' :: t => some (obj [], t)
  | fuel + 1, '\x7b' :: t => (readMembers fuel t).map fun p => (obj p.1, p.2)
  | _ + 1, t => readDigits t

/-- Read the members of a non-empty object up to the closing brace. -/
def readMembers : ℕ → List Char → Option (List (String × Value) × List Char)
  | 0, _ => none
  | fuel + 1, '\x22' :: t =>
    match readString t with
    | some (k, ':' :: t) =>
      match read fuel t with
      | some (v, '\x7d' :: t) => some ([(String.ofList k, v)], t)
      | some (v, ',' :: t) =>
        (readMembers fuel t).map fun p => ((String.ofList k, v) :: p.1, p.2)
      | _ => none
    | _ => none
  | _ + 1, _ => none

end

/-! ### The reader inverts the writer -/

/-- A text that does not continue a number. -/
def Delimited (t : List Char) : Prop := ∀ c ∈ t.head?, c.isDigit = false

mutual

/-- The number of values and members in a value, a bound of the fuel its reader needs. -/
def size : Value → ℕ
  | obj members => sizeMembers members + 1
  | _ => 1

/-- The fuel that the members of an object need. -/
def sizeMembers : List (String × Value) → ℕ
  | [] => 0
  | (_, v) :: members => size v + sizeMembers members + 1

end

private theorem readDigits_toDigits (n : ℕ) {t : List Char} (ht : Delimited t) :
    readDigits (Nat.toDigits 10 n ++ t) = some (num n, t) := by
  have hdigits : ∀ c ∈ Nat.toDigits 10 n, c.isDigit = true := fun c hc =>
    Nat.isDigit_of_mem_toDigits (by decide) (by decide) hc
  have htake : t.takeWhile Char.isDigit = [] := by
    cases t with
    | nil => rfl
    | cons c t => simp [ht c rfl]
  have hdrop : t.dropWhile Char.isDigit = t := by
    cases t with
    | nil => rfl
    | cons c t => simp [ht c rfl]
  rw [readDigits, takeWhile_append_of_pos hdigits, dropWhile_append_of_pos hdigits,
    htake, hdrop, append_nil]
  cases hn : Nat.toDigits 10 n with
  | nil => exact absurd hn Nat.toDigits_ne_nil
  | cons d ds =>
    simp only [← hn, Nat.ofDigitChars_ten_toDigits]

/-- A number is read by `readDigits`: its first character opens no other value. -/
private theorem read_toDigits (fuel n : ℕ) {t : List Char} (ht : Delimited t) :
    read (fuel + 1) (Nat.toDigits 10 n ++ t) = some (num n, t) := by
  rw [← readDigits_toDigits n ht]
  cases hn : Nat.toDigits 10 n with
  | nil => exact absurd hn Nat.toDigits_ne_nil
  | cons d ds =>
    have hd : d.isDigit = true :=
      Nat.isDigit_of_mem_toDigits (by decide) (by decide) (hn ▸ mem_cons_self)
    rw [cons_append, read]
    all_goals
      intro _ h
      rw [(List.cons.inj h).1] at hd
      exact absurd hd (by decide)

mutual

/-- **Round trip.** In front of a text that does not continue a number, the reader returns the
value that was written, and the text. -/
theorem read_write (v : Value) (fuel : ℕ) (t : List Char) (hf : v.size ≤ fuel)
    (ht : Delimited t) : read fuel (v.write ++ t) = some (v, t) := by
  obtain ⟨fuel, rfl⟩ : ∃ k, fuel = k + 1 := ⟨fuel - 1, by cases v <;> simp [size] at hf <;> omega⟩
  match v with
  | null => rfl
  | bool true => rfl
  | bool false => rfl
  | num n => exact read_toDigits fuel n ht
  | str s =>
    have h : quoted s ++ t = quote :: (escape s.toList ++ quote :: t) := by simp [quoted]
    rw [write, h, read, readString_escape]
    simp
  | obj [] => rfl
  | obj (m :: members) =>
    have hm := readMembers_write m members fuel t (by simpa [size] using hf)
    rw [write, cons_append, read, hm]
    · rfl
    · intro t' h
      have hq : quote = '\x7d' := by
        cases members <;> exact (List.cons.inj (by simpa [writeMembers, quoted] using h)).1
      exact absurd hq (by decide)
termination_by fuel

theorem readMembers_write (m : String × Value) (members : List (String × Value)) (fuel : ℕ)
    (t : List Char) (hf : sizeMembers (m :: members) ≤ fuel) :
    readMembers fuel (writeMembers (m :: members) ++ t) = some (m :: members, t) := by
  obtain ⟨fuel, rfl⟩ : ∃ k, fuel = k + 1 := ⟨fuel - 1, by simp [sizeMembers] at hf; omega⟩
  obtain ⟨k, v⟩ := m
  simp only [sizeMembers] at hf
  match members with
  | [] =>
    have hv := read_write v fuel ('\x7d' :: t) (by omega) (by simp [Delimited])
    have h : writeMembers [(k, v)] ++ t =
        quote :: (escape k.toList ++ quote :: ':' :: (v.write ++ '\x7d' :: t)) := by
      simp [writeMembers, quoted]
    rw [h, readMembers, readString_escape]
    simp [hv]
  | m :: members =>
    have hv := read_write v fuel (',' :: (writeMembers (m :: members) ++ t)) (by omega)
      (by simp [Delimited])
    have hm := readMembers_write m members fuel t (by omega)
    have h : writeMembers ((k, v) :: m :: members) ++ t =
        quote :: (escape k.toList ++ quote :: ':' ::
          (v.write ++ ',' :: (writeMembers (m :: members) ++ t))) := by
      simp [writeMembers, quoted]
    rw [h, readMembers, readString_escape]
    simp [hv, hm]
termination_by fuel

end

mutual

theorem size_le_length_write (v : Value) : v.size ≤ v.write.length := by
  match v with
  | null | bool true | bool false => simp [size, write]
  | num n => exact Nat.length_toDigits_pos
  | str s => simp [size, write, quoted]
  | obj members =>
    have h := sizeMembers_le_length_writeMembers members
    simp only [size, write, length_cons]
    omega

theorem sizeMembers_le_length_writeMembers (members : List (String × Value)) :
    sizeMembers members ≤ (writeMembers members).length := by
  match members with
  | [] => simp [sizeMembers]
  | [(k, v)] =>
    have hv := size_le_length_write v
    simp only [sizeMembers, writeMembers, length_append, length_cons]
    omega
  | (k, v) :: m :: members =>
    have hv := size_le_length_write v
    have hm := sizeMembers_le_length_writeMembers (m :: members)
    simp only [sizeMembers, writeMembers, length_append, length_cons] at hm ⊢
    omega

end

/-- Read a whole text as one value. -/
def parse (s : String) : Option Value :=
  match read s.toList.length s.toList with
  | some (v, []) => some v
  | _ => none

theorem parse_write (v : Value) : parse (String.ofList v.write) = some v := by
  have h := read_write v v.write.length [] (size_le_length_write v) (by simp [Delimited])
  rw [append_nil] at h
  simp [parse, h]

/-! ### Members of an object -/

/-- The member of an object with the given name. -/
def member (name : String) : Value → Option Value
  | obj members => members.lookup name
  | _ => none

/-- The truth value, if it is one. -/
def asBool : Value → Option Bool
  | bool b => some b
  | _ => none

/-- The number, if it is one. -/
def asNum : Value → Option ℕ
  | num n => some n
  | _ => none

/-- The text, if it is one. -/
def asStr : Value → Option String
  | str s => some s
  | _ => none

/-- An optional member: absent and `null` both read as `none`. -/
def asOption {α : Type} (f : Value → Option α) : Option Value → Option (Option α)
  | none | some null => some none
  | some v => (f v).map some

/-- The value of an optional field, `null` when there is none. -/
def ofOption {α : Type} (f : α → Value) : Option α → Value
  | none => null
  | some a => f a

@[simp] theorem asOption_ofOption_str (o : Option String) :
    asOption asStr (some (ofOption str o)) = some o := by
  cases o <;> rfl

end Value

/-! ### Serializable types -/

/-- A writer and a reader of a type, for which reading what was written gives it back. -/
structure Serde (α : Type) where
  toStr : α → String
  fromStr : String → Except String α
  fromStr_toStr : ∀ a, fromStr (toStr a) = .ok a

attribute [simp] Serde.fromStr_toStr

/-- A JSON shape of a type. -/
structure Shape (α : Type) where
  toValue : α → Value
  ofValue : Value → Option α
  ofValue_toValue : ∀ a, ofValue (toValue a) = some a

/-- The compact JSON text of a shape. -/
def Serde.ofShape {α : Type} (sh : Shape α) : Serde α where
  toStr a := String.ofList (sh.toValue a).write
  fromStr s :=
    match (Value.parse s).bind sh.ofValue with
    | some a => .ok a
    | none => .error "invalid JSON for this type"
  fromStr_toStr a := by simp [Value.parse_write, sh.ofValue_toValue]

end RustExample.JsonText
