import RustExample.Foundation.Borsh

/-!
# Instructions and accounts of the course program

A client sends an instruction as bytes: one byte for its kind, then its fields. The two kinds that
carry a whole course are in the Borsh format, the others are built and taken apart by hand.

A course lives in the account at the address derived from its name and its start date. The client
names the account, and each handler compares its key with the derived address before it looks at
the record.

Source: `solana_program_entry_example/src/misc.rs` (`CourseState`, `CourseInstruction`, `unpack`,
`derive_pda_address`, `derive_pda_from_name_and_date`) and `src/lib.rs` (`process_instruction` and
the handlers), and `solana_program_entry_client_example/src/main.rs` (the functions that build the
instructions).

* `none` is a panic, which aborts the transaction; an error is a value.
* `rest[i]` and `rest[a .. b]` panic when they reach past the end. The program runs with 64-bit
  addresses, so that sums of 32-bit lengths do not overflow.
* `as u32` keeps a length modulo `2 ^ 32`; Borsh refuses to write a string of `2 ^ 32` bytes.
* What a client adds to the bytes (accounts, signature) is left out.
* The accounts are a map from addresses to records. An account has data exactly if it has a record:
  the handlers give it the size of the record they write.
* `find_program_address` is a function of the concatenated seeds and the program id; its bump, which
  only signs the creation of the account, is left out.
* Rent and transfers of lamports are left out. Where they fail, so does the instruction, and nothing
  changes.
* What `read_course` logs and the three kinds that only log are left out; they change no account.
-/

namespace RustExample.CourseProgram

open Function Borsh

/-- The record of a course. -/
structure CourseState where
  name : String
  degree : String
  institution : String
  startDate : String
  grade : String
  isArchived : Bool
  deriving DecidableEq, Repr

/-- The derived Borsh format: the fields in their order. -/
def CourseState.codec : Codec CourseState :=
  (string.pair <| string.pair <| string.pair <| string.pair <| string.pair bool).pmap
    (fun t => some ⟨t.1, t.2.1, t.2.2.1, t.2.2.2.1, t.2.2.2.2.1, t.2.2.2.2.2⟩)
    (fun c => (c.name, c.degree, c.institution, c.startDate, c.grade, c.isArchived)) (by
      rintro ⟨_, _, _, _, _, _⟩ ⟨_, _, _, _, _, _⟩
      simp [eq_comm])

/-- The instructions. -/
inductive CourseInstruction
  | addCourse (name degree institution startDate : String)
  | updateCourse (name degree institution startDate : String)
  | readCourse (name startDate : String)
  | deleteCourse (name startDate : String)
  | listAllCourses
  | getCourseCount
  | searchCoursesByInstitution (institution : String)
  | updateCourseGrade (name startDate grade : String)
  | archiveCourse (name startDate : String)
  deriving DecidableEq, Repr

/-- The errors of the program that are modelled. -/
inductive ProgramError
  | invalidInstructionData
  | borshIoError
  | invalidArgument
  | accountAlreadyInitialized
  | uninitializedAccount
  deriving DecidableEq, Repr

/-- A result, an error, or (`none`) a panic. -/
abbrev Outcome := ExceptT ProgramError Option

/-- The program panics. -/
def abort {α : Type} : Outcome α := ExceptT.mk none

/-! ### The program's decoder -/

/-- `u32::from_le_bytes([rest[pos], rest[pos + 1], rest[pos + 2], rest[pos + 3]])`. -/
def u32At (rest : List UInt8) (pos : ℕ) : Outcome ℕ :=
  if pos + 4 ≤ rest.length then pure (toU32 ((rest.drop pos).take 4)) else abort

/-- `rest[pos .. pos + len].to_vec()`. -/
def sliceAt (rest : List UInt8) (pos len : ℕ) : Outcome (List UInt8) :=
  if pos + len ≤ rest.length then pure ((rest.drop pos).take len) else abort

/-- `String::from_utf8`, with its error replaced. -/
def stringFromUtf8 (bytes : List UInt8) : Outcome String :=
  match fromUtf8 bytes with
  | some s => pure s
  | none => throw .invalidInstructionData

/-- The string whose length is at `pos`, and the position after it. -/
def stringAt (rest : List UInt8) (pos : ℕ) : Outcome (String × ℕ) := do
  let len ← u32At rest pos
  let s ← stringFromUtf8 (← sliceAt rest (pos + 4) len)
  pure (s, pos + 4 + len)

/-- `CourseState::try_from_slice(rest)?`. -/
def courseStateTryFromSlice (rest : List UInt8) : Outcome CourseState :=
  match CourseState.codec.tryFromSlice rest with
  | some payload => pure payload
  | none => throw .borshIoError

/-- The two fields of the kinds 2, 3 and 8. -/
def nameAndStartDate (rest : List UInt8) : Outcome (String × String) := do
  let (name, pos) ← stringAt rest 0
  let (startDate, _) ← stringAt rest pos
  pure (name, startDate)

/-- Reads the rest of an instruction. -/
def unpackVariant (variant : ℕ) (rest : List UInt8) : Outcome CourseInstruction :=
  match variant with
  | 0 => do
    let payload ← courseStateTryFromSlice rest
    pure (.addCourse payload.name payload.degree payload.institution payload.startDate)
  | 1 => do
    let payload ← courseStateTryFromSlice rest
    pure (.updateCourse payload.name payload.degree payload.institution payload.startDate)
  | 2 => do
    let (name, startDate) ← nameAndStartDate rest
    pure (.readCourse name startDate)
  | 3 => do
    let (name, startDate) ← nameAndStartDate rest
    pure (.deleteCourse name startDate)
  | 4 => pure .listAllCourses
  | 5 => pure .getCourseCount
  | 6 => do
    let (institution, _) ← stringAt rest 0
    pure (.searchCoursesByInstitution institution)
  | 7 => do
    let (name, pos) ← stringAt rest 0
    let (startDate, pos) ← stringAt rest pos
    let (grade, _) ← stringAt rest pos
    pure (.updateCourseGrade name startDate grade)
  | 8 => do
    let (name, startDate) ← nameAndStartDate rest
    pure (.archiveCourse name startDate)
  | _ => throw .invalidInstructionData

/-- Reads an instruction. -/
def unpack : List UInt8 → Outcome CourseInstruction
  | [] => throw .invalidInstructionData
  | variant :: rest => unpackVariant variant.toNat rest

/-! ### The client's encoder -/

namespace Client

/-- `(bytes.len() as u32).to_le_bytes()` and the bytes. -/
def stringBytes (s : String) : List UInt8 := u32 ((utf8 s).length % 2 ^ 32) ++ utf8 s

/-- The payload of a new course and of an updated one: no grade, not archived. -/
def payload (name degree institution startDate : String) : CourseState :=
  ⟨name, degree, institution, startDate, "", false⟩

/-- The bytes of `AddCourse`. -/
def addCourse (name degree institution startDate : String) : Option (List UInt8) :=
  (CourseState.codec.write (payload name degree institution startDate)).map (0 :: ·)

/-- The bytes of `UpdateCourse`. -/
def updateCourse (name degree institution startDate : String) : Option (List UInt8) :=
  (CourseState.codec.write (payload name degree institution startDate)).map (1 :: ·)

/-- The bytes of `ReadCourse`. -/
def readCourse (name startDate : String) : List UInt8 :=
  2 :: (stringBytes name ++ stringBytes startDate)

/-- The bytes of `DeleteCourse`. -/
def deleteCourse (name startDate : String) : List UInt8 :=
  3 :: (stringBytes name ++ stringBytes startDate)

/-- The bytes of `ListAllCourses`. -/
def listAllCourses : List UInt8 := [4]

def getCourseCount : List UInt8 := [5]

/-- The bytes of a search. -/
def searchCoursesByInstitution (institution : String) : List UInt8 :=
  6 :: stringBytes institution

/-- The bytes of `UpdateCourseGrade`. -/
def updateCourseGrade (name startDate grade : String) : List UInt8 :=
  7 :: (stringBytes name ++ (stringBytes startDate ++ stringBytes grade))

/-- The bytes of `ArchiveCourse`. -/
def archiveCourse (name startDate : String) : List UInt8 :=
  8 :: (stringBytes name ++ stringBytes startDate)

/-- The bytes of an instruction, if the client builds it. -/
def instructionData : CourseInstruction → Option (List UInt8)
  | .addCourse name degree institution startDate => addCourse name degree institution startDate
  | .updateCourse name degree institution startDate =>
    updateCourse name degree institution startDate
  | .readCourse name startDate => some (readCourse name startDate)
  | .deleteCourse name startDate => some (deleteCourse name startDate)
  | .listAllCourses => some listAllCourses
  | .getCourseCount => some getCourseCount
  | .searchCoursesByInstitution institution => some (searchCoursesByInstitution institution)
  | .updateCourseGrade name startDate grade => some (updateCourseGrade name startDate grade)
  | .archiveCourse name startDate => some (archiveCourse name startDate)

end Client

/-! ### Accounts -/

/-- The records by their addresses. -/
abbrev Accounts (Pubkey : Type) := Pubkey → Option CourseState

section Handlers

variable {Pubkey : Type} [DecidableEq Pubkey]
  (findProgramAddress : List UInt8 → Pubkey → Pubkey) (programId : Pubkey)

/-- The address of a course. -/
def derivePdaFromNameAndDate (name startDate : String) : Pubkey :=
  findProgramAddress (utf8 name ++ utf8 startDate) programId

/-- The address of a payload. -/
def derivePdaAddress (payload : CourseState) : Pubkey :=
  findProgramAddress (utf8 payload.name ++ utf8 payload.startDate) programId

variable (accounts : Accounts Pubkey) (key : Pubkey)

/-- Writes a new record. -/
def addCourse (name degree institution startDate : String) :
    Except ProgramError (Accounts Pubkey) :=
  let payload : CourseState := ⟨name, degree, institution, startDate, "", false⟩
  if key ≠ derivePdaAddress findProgramAddress programId payload then .error .invalidArgument
  else if (accounts key).isSome then .error .accountAlreadyInitialized
  else .ok (update accounts key (some payload))

/-- Writes a record anew. -/
def updateCourse (name degree institution startDate : String) :
    Except ProgramError (Accounts Pubkey) :=
  if key ≠ derivePdaFromNameAndDate findProgramAddress programId name startDate then
    .error .invalidArgument
  else if (accounts key).isNone then .error .uninitializedAccount
  else
    -- the comments in the source say that the grade and the archive status are kept
    let updatedPayload : CourseState := ⟨name, degree, institution, startDate, "", false⟩
    .ok (update accounts key (some updatedPayload))

/-- Reads a record. -/
def readCourse (name startDate : String) : Except ProgramError (Accounts Pubkey) :=
  if key ≠ derivePdaFromNameAndDate findProgramAddress programId name startDate then
    .error .invalidArgument
  else if (accounts key).isNone then .error .uninitializedAccount
  else .ok accounts

/-- Removes a record. -/
def deleteCourse (name startDate : String) : Except ProgramError (Accounts Pubkey) :=
  if key ≠ derivePdaFromNameAndDate findProgramAddress programId name startDate then
    .error .invalidArgument
  else if (accounts key).isNone then .error .uninitializedAccount
  else .ok (update accounts key none)

/-- Sets the grade of a record. -/
def updateCourseGrade (name startDate grade : String) : Except ProgramError (Accounts Pubkey) :=
  if key ≠ derivePdaFromNameAndDate findProgramAddress programId name startDate then
    .error .invalidArgument
  else match accounts key with
    | none => .error .uninitializedAccount
    | some accountData => .ok (update accounts key (some { accountData with grade }))

/-- Marks a record as archived. -/
def archiveCourse (name startDate : String) : Except ProgramError (Accounts Pubkey) :=
  if key ≠ derivePdaFromNameAndDate findProgramAddress programId name startDate then
    .error .invalidArgument
  else match accounts key with
    | none => .error .uninitializedAccount
    | some accountData =>
      .ok (update accounts key (some { accountData with isArchived := true }))

/-- One instruction on the account with the given key. -/
def processInstruction : CourseInstruction → Except ProgramError (Accounts Pubkey)
  | .addCourse name degree institution startDate =>
    addCourse findProgramAddress programId accounts key name degree institution startDate
  | .updateCourse name degree institution startDate =>
    updateCourse findProgramAddress programId accounts key name degree institution startDate
  | .readCourse name startDate =>
    readCourse findProgramAddress programId accounts key name startDate
  | .deleteCourse name startDate =>
    deleteCourse findProgramAddress programId accounts key name startDate
  | .listAllCourses => .ok accounts
  | .getCourseCount => .ok accounts
  | .searchCoursesByInstitution _ => .ok accounts
  | .updateCourseGrade name startDate grade =>
    updateCourseGrade findProgramAddress programId accounts key name startDate grade
  | .archiveCourse name startDate =>
    archiveCourse findProgramAddress programId accounts key name startDate

end Handlers

/-! ### One account -/

/-- The name and the start date an instruction is about. -/
def CourseInstruction.course : CourseInstruction → Option (String × String)
  | .addCourse name _ _ startDate
  | .updateCourse name _ _ startDate
  | .readCourse name startDate
  | .deleteCourse name startDate
  | .updateCourseGrade name startDate _
  | .archiveCourse name startDate => some (name, startDate)
  | .listAllCourses
  | .getCourseCount
  | .searchCoursesByInstitution _ => none

/-- What an instruction makes of the record of its course. -/
def CourseInstruction.onRecord (i : CourseInstruction) (r : Option CourseState) :
    Except ProgramError (Option CourseState) :=
  match i, r with
  | .addCourse name degree institution startDate, none =>
    .ok (some ⟨name, degree, institution, startDate, "", false⟩)
  | .addCourse .., some _ => .error .accountAlreadyInitialized
  | _, none => .error .uninitializedAccount
  | .updateCourse name degree institution startDate, some _ =>
    .ok (some ⟨name, degree, institution, startDate, "", false⟩)
  | .deleteCourse .., some _ => .ok none
  | .updateCourseGrade _ _ grade, some c => .ok (some { c with grade })
  | .archiveCourse .., some c => .ok (some { c with isArchived := true })
  | _, some c => .ok (some c)

section Address

variable {Pubkey : Type} [DecidableEq Pubkey]
  (findProgramAddress : List UInt8 → Pubkey → Pubkey) (programId : Pubkey)

/-- The address of a course. -/
def address (course : String × String) : Pubkey :=
  derivePdaFromNameAndDate findProgramAddress programId course.1 course.2

variable {findProgramAddress programId}

/-- **An instruction for a course reads and writes the account of the course and no other.** -/
theorem processInstruction_eq {i : CourseInstruction} {course : String × String}
    (hi : i.course = some course) (accounts : Accounts Pubkey) (key : Pubkey) :
    processInstruction findProgramAddress programId accounts key i =
      if key ≠ address findProgramAddress programId course then .error .invalidArgument
      else (i.onRecord (accounts key)).map fun r => update accounts key r := by
  cases i with
  | listAllCourses | getCourseCount | searchCoursesByInstitution => cases hi
  | readCourse =>
    obtain ⟨⟩ := hi
    rcases h : accounts key with _ | c
    · simp only [processInstruction, readCourse, h]
      rfl
    · have hsame : update accounts key (some c) = accounts := by
        rw [← h, update_eq_self]
      simp only [processInstruction, readCourse, h, CourseInstruction.onRecord, Except.map, hsame]
      rfl
  | addCourse | updateCourse | deleteCourse | updateCourseGrade | archiveCourse =>
    obtain ⟨⟩ := hi
    rcases h : accounts key with _ | c <;>
    · simp only [processInstruction, addCourse, updateCourse, deleteCourse, updateCourseGrade,
        archiveCourse, h]
      rfl

end Address

end RustExample.CourseProgram
