import RustExample.Foundation.Fallible
import RustExample.Foundation.KeyStore

/-!
# Structures in JSON

The JSON tree of a structure has a member for each of its fields, and the structure is read back
field by field. Members of other names are ignored. A field may have a default, which is taken if
the member is missing, and an optional field may be missing or `null`. So `null` does not tell a
missing value from a present one whose own JSON is `null`.

* Numbers are unsigned, negative, or floating-point numbers given by their bits.
* A structure is also read from an array of its fields in order.
* The place in the text that a reader adds to its messages is left out, and the message of a wrong
  type says what was expected only.
-/

namespace RustExample.JsonStruct

/-! ### Trees -/

/-- A number, by its kind. -/
inductive Number where
  | unsigned (n : UInt64)
  | negative (n : Int64)
  | float (bits : UInt64)
  deriving DecidableEq, Repr

/-- A value of JSON. -/
inductive Value where
  | null
  | bool (b : Bool)
  | num (n : Number)
  | str (s : String)
  | arr (values : List Value)
  | obj (members : List (String × Value))

variable {α : Type}

/-! ### Fields -/

/-- The members of a structure with the fields `names`. -/
def structFields (names : List String) : Value → Except String (List (String × Value))
  | .obj members =>
    match names.find? fun name => 1 < (members.map Prod.fst).count name with
    | some name => .error ("duplicate field `" ++ name ++ "`")
    | none => .ok members
  | .arr values =>
    if names.length < values.length then .error "trailing characters"
    else .ok (names.zip values)
  | _ => .error "expected a struct"

/-- Reads a field that must be there. -/
def required (read : Value → Except String α) (name : String) (members : List (String × Value)) :
    Except String α :=
  match members.lookup name with
  | some v => read v
  | none => .error ("missing field `" ++ name ++ "`")

/-- Reads a field that has a default. -/
def withDefault (read : Value → Except String α) (default : α) (name : String)
    (members : List (String × Value)) : Except String α :=
  match members.lookup name with
  | some v => read v
  | none => .ok default

/-- The member of a field that is left out if it has no value. -/
def memberIfSome (name : String) (v : Option Value) : List (String × Value) :=
  v.toList.map fun v => (name, v)

theorem structFields_obj {names : List String} {members : List (String × Value)}
    (h : (members.map Prod.fst).Nodup) : structFields names (.obj members) = .ok members := by
  have hnone : names.find? (fun name => 1 < (members.map Prod.fst).count name) = none := by
    refine List.find?_eq_none.mpr fun name _ => ?_
    simpa using List.nodup_iff_count.mp h name
  rw [structFields, hnone]

theorem lookup_memberIfSome (name n : String) (v : Option Value) :
    (memberIfSome name v).lookup n = if n = name then v else none := by
  cases v with
  | none => simp [memberIfSome]
  | some v =>
    by_cases hn : n = name
    · simp [memberIfSome, hn]
    · simp [memberIfSome, hn, List.lookup_cons, beq_eq_false_iff_ne.mpr hn]

theorem map_fst_memberIfSome_sublist (name : String) (v : Option Value) :
    ((memberIfSome name v).map Prod.fst).Sublist [name] := by
  cases v <;> simp [memberIfSome]

/-! ### Values of fields -/

/-- Reads a text. -/
def readString : Value → Except String String
  | .str s => .ok s
  | _ => .error "expected a string"

/-- Reads a number below `2 ^ 64`. -/
def readU64 : Value → Except String UInt64
  | .num (.unsigned n) => .ok n
  | _ => .error "expected u64"

/-- Reads a number below `2 ^ 32`. -/
def readU32 : Value → Except String UInt32
  | .num (.unsigned n) => if n.toNat < 2 ^ 32 then .ok n.toUInt32 else .error "expected u32"
  | _ => .error "expected u32"

/-- Reads a list. -/
def readList (read : Value → Except String α) : Value → Except String (List α)
  | .arr values => values.mapM read
  | _ => .error "expected a sequence"

/-- Reads a map. -/
def readMap (read : Value → Except String α) : Value → Except String (KeyStore String α)
  | .obj members => do
    let entries ← members.mapM fun m => do return (⟨m.1, some (← read m.2)⟩ : KeyStore.Write _ _)
    return (∅ : KeyStore String α).writeAll entries
  | _ => .error "expected a map"

/-- Reads a value or `null`. -/
def readOption (read : Value → Except String α) : Value → Except String (Option α)
  | .null => .ok none
  | v => do return some (← read v)

/-- Writes a list. -/
def writeList (write : α → Value) (l : List α) : Value := .arr (l.map write)

/-- Writes a map. -/
def writeMap (write : α → Value) (s : KeyStore String α) : Value :=
  .obj (s.toList.map fun p => (p.1, write p.2))

/-- Writes a value or `null`. -/
def writeOption (write : α → Value) : Option α → Value
  | none => .null
  | some a => write a

theorem readString_str (s : String) : readString (.str s) = .ok s := rfl

theorem readU32_unsigned (n : UInt32) : readU32 (.num (.unsigned n.toUInt64)) = .ok n := by
  have hlt : n.toUInt64.toNat < 2 ^ 32 := by simpa using n.toNat_lt
  rw [readU32, if_pos hlt, UInt32.toUInt32_toUInt64]

variable {read : Value → Except String α} {write : α → Value}

theorem readList_writeList (h : ∀ a, read (write a) = .ok a) (l : List α) :
    readList read (writeList write l) = .ok l := by
  rw [writeList, readList, List.mapM_map]
  simpa using mapM_eq_ok (f := read ∘ write) (g := id) (l := l) fun a _ => h a

theorem readMap_writeMap (h : ∀ a, read (write a) = .ok a) (s : KeyStore String α) :
    readMap read (writeMap write s) = .ok s := by
  have hentries : (s.toList.map fun p => (p.1, write p.2)).mapM (fun m => do
      return (⟨m.1, some (← read m.2)⟩ : KeyStore.Write String α)) =
      .ok (s.toList.map fun p => ⟨p.1, some p.2⟩) := by
    rw [List.mapM_map]
    refine mapM_eq_ok fun p _ => ?_
    simp [Function.comp, h]
  rw [writeMap, readMap, hentries, ok_bind, pure_eq_ok, KeyStore.writeAll_toList]

/-- **Which optional values are read back**: not the ones whose own JSON is `null`. -/
theorem readOption_writeOption_iff (h : ∀ a, read (write a) = .ok a) (o : Option α) :
    readOption read (writeOption write o) = .ok o ↔ ∀ a, o = some a → write a ≠ .null := by
  cases o with
  | none => simp [writeOption, readOption]
  | some a =>
    have hread := h a
    rw [writeOption]
    cases hw : write a with
    | null => simp [readOption, hw]
    | bool | num | str | arr | obj =>
      rw [hw] at hread
      simp [readOption, hw, hread]

end RustExample.JsonStruct
