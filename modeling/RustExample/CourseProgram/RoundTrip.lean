import RustExample.CourseProgram.Program

/-!
# What the course program accepts

The decoder reads back what the client sends, as long as its strings are shorter than `2 ^ 32`
bytes. On other bytes it should answer with an error. It does so for the kinds that are in the
Borsh format, up to two fields of the payload that it drops; for the kinds that are taken apart by
hand it panics where the bytes end early and accepts bytes that follow the last field.
-/

namespace RustExample.CourseProgram

open Borsh Client List

/-! ### Outcomes -/

section Outcomes

variable {α β : Type} {a b : α} {e : ProgramError}

@[simp] theorem pure_inj : (pure a : Outcome α) = pure b ↔ a = b := by
  constructor
  · intro h
    cases h
    rfl
  · rintro rfl
    rfl

@[simp] theorem throw_ne_pure : (throw e : Outcome α) ≠ pure a := nofun

@[simp] theorem pure_ne_throw : (pure a : Outcome α) ≠ throw e := nofun

@[simp] theorem abort_ne_pure : (abort : Outcome α) ≠ pure a := nofun

@[simp] theorem abort_ne_throw : (abort : Outcome α) ≠ throw e := nofun

@[simp] theorem throw_bind (f : α → Outcome β) : (throw e >>= f : Outcome β) = throw e := rfl

@[simp] theorem abort_bind (f : α → Outcome β) : (abort >>= f) = abort := rfl

end Outcomes

/-! ### Strings -/

/-- The string at a position is read like a string in the Borsh format, except that the program
panics where the bytes end. -/
theorem stringAt_eq (rest : List UInt8) (pos : ℕ) :
    stringAt rest pos = match readBytes (rest.drop pos) with
      | none => abort
      | some (bytes, _) => stringFromUtf8 bytes >>= fun s => pure (s, pos + 4 + bytes.length) := by
  rw [stringAt, readBytes, u32At]
  simp only [sliceAt, length_drop, drop_drop]
  by_cases hpos : pos + 4 ≤ rest.length
  · rw [if_pos hpos, pure_bind]
    by_cases hlen : pos + 4 + toU32 ((rest.drop pos).take 4) ≤ rest.length
    · rw [if_pos hlen, if_pos (by omega), pure_bind]
      have htake : ((rest.drop (pos + 4)).take (toU32 ((rest.drop pos).take 4))).length =
          toU32 ((rest.drop pos).take 4) := by
        rw [length_take, length_drop]
        omega
      simp only [htake]
    · rw [if_neg hlen, if_neg (by omega)]
      rfl
  · rw [if_neg hpos, if_neg (by omega)]
    rfl

/-- So many strings that are there in full and then the end, up to one that is not UTF-8. -/
def Whole : ℕ → List UInt8 → Prop
  | 0, input => input = []
  | k + 1, input => ∃ bytes tail, bytes.length < 2 ^ 32 ∧ input = framed bytes ++ tail ∧
    (fromUtf8 bytes = none ∨ Whole k tail)

theorem whole_succ {k : ℕ} {input bytes tail : List UInt8}
    (h : readBytes input = some (bytes, tail)) :
    Whole (k + 1) input ↔ fromUtf8 bytes = none ∨ Whole k tail := by
  constructor
  · rintro ⟨bytes', tail', hlt, hinput, hwhole⟩
    cases h.symm.trans (readBytes_eq_some.mpr ⟨hlt, hinput⟩)
    exact hwhole
  · intro hwhole
    obtain ⟨hlt, hinput⟩ := readBytes_eq_some.mp h
    exact ⟨bytes, tail, hlt, hinput, hwhole⟩

section Strings

variable {rest tail : List UInt8} {pos : ℕ} {s : String}

/-- The string that is there in full at a position, and what follows it. -/
structure StringAt (rest : List UInt8) (pos : ℕ) (s : String) (tail : List UInt8) : Prop where
  short : (utf8 s).length < 2 ^ 32
  drop_eq : rest.drop pos = framed (utf8 s) ++ tail

theorem StringAt.eq (h : StringAt rest pos s tail) :
    stringAt rest pos = pure (s, pos + 4 + (utf8 s).length) := by
  rw [stringAt_eq, readBytes_eq_some.mpr ⟨h.short, h.drop_eq⟩]
  simp only [stringFromUtf8, fromUtf8_eq_some.mpr rfl, pure_bind]

theorem StringAt.drop_next (h : StringAt rest pos s tail) :
    rest.drop (pos + 4 + (utf8 s).length) = tail := by
  have hlen : (framed (utf8 s)).length = 4 + (utf8 s).length := by simp [framed]
  rw [Nat.add_assoc, ← drop_drop, h.drop_eq, ← hlen, drop_left]

theorem stringAt_cases (rest : List UInt8) (pos : ℕ) :
    (∃ s tail, StringAt rest pos s tail) ∨
    (∃ bytes tail, readBytes (rest.drop pos) = some (bytes, tail) ∧ fromUtf8 bytes = none ∧
      stringAt rest pos = throw .invalidInstructionData) ∨
    (readBytes (rest.drop pos) = none ∧ stringAt rest pos = abort) := by
  rcases hread : readBytes (rest.drop pos) with _ | ⟨bytes, tail⟩
  · refine .inr (.inr ⟨rfl, ?_⟩)
    rw [stringAt_eq, hread]
  · rcases hutf : fromUtf8 bytes with _ | s
    · refine .inr (.inl ⟨bytes, tail, rfl, hutf, ?_⟩)
      rw [stringAt_eq, hread]
      simp only [stringFromUtf8, hutf, throw_bind]
    · obtain ⟨hlt, hinput⟩ := readBytes_eq_some.mp hread
      rw [← fromUtf8_eq_some.mp hutf] at hlt hinput
      exact .inl ⟨s, tail, hlt, hinput⟩

/-- A decoder that goes on after a string has found a short one. -/
theorem of_stringAt_bind_eq_pure {α : Type} {f : String × ℕ → Outcome α} {a : α}
    (h : stringAt rest pos >>= f = pure a) :
    ∃ s next, (utf8 s).length < 2 ^ 32 ∧ f (s, next) = pure a := by
  rcases stringAt_cases rest pos with ⟨s, tail, hs⟩ | ⟨_, _, _, _, hthrow⟩ | ⟨_, habort⟩
  · rw [hs.eq, pure_bind] at h
    exact ⟨s, _, hs.short, h⟩
  · rw [hthrow, throw_bind] at h
    exact absurd h throw_ne_pure
  · rw [habort, abort_bind] at h
    exact absurd h abort_ne_pure

end Strings

/-! ### Accepted bytes -/

/-- The decoder returns the instruction that has these bytes, or an error. -/
def Exact (data : List UInt8) (r : Outcome CourseInstruction) : Prop :=
  (∃ i, r = pure i ∧ Client.instructionData i = some data) ∨ ∃ e, r = throw e

section Exact

variable {data rest : List UInt8} {pos k : ℕ} {i : CourseInstruction}

theorem exact_pure : Exact data (pure i) ↔ instructionData i = some data := by
  simp [Exact]

theorem exact_throw (e : ProgramError) : Exact data (throw e) := .inr ⟨e, rfl⟩

theorem not_exact_abort : ¬ Exact data abort := by
  simp [Exact]

/-- One more string: it is there in full, and what follows is exact unless it is not UTF-8. -/
theorem exact_stringAt_bind {f : String × ℕ → Outcome CourseInstruction}
    (h : ∀ s tail next, StringAt rest pos s tail → rest.drop next = tail →
      (Exact data (f (s, next)) ↔ Whole k tail)) :
    Exact data (stringAt rest pos >>= f) ↔ Whole (k + 1) (rest.drop pos) := by
  rcases stringAt_cases rest pos with ⟨s, tail, hs⟩ | ⟨bytes, tail, hread, hutf, hthrow⟩ |
    ⟨hread, habort⟩
  · rw [hs.eq, pure_bind, h s tail _ hs hs.drop_next,
      whole_succ (readBytes_eq_some.mpr ⟨hs.short, hs.drop_eq⟩), fromUtf8_eq_some.mpr rfl]
    simp
  · rw [hthrow, throw_bind, whole_succ hread]
    exact iff_of_true (exact_throw _) (.inl hutf)
  · rw [habort, abort_bind]
    refine iff_of_false not_exact_abort ?_
    rintro ⟨bytes, tail, hlt, hinput, -⟩
    rw [readBytes_eq_some.mpr ⟨hlt, hinput⟩] at hread
    exact absurd hread (by simp)

theorem stringBytes_eq {s : String} (h : (utf8 s).length < 2 ^ 32) :
    stringBytes s = framed (utf8 s) := by
  rw [stringBytes, Nat.mod_eq_of_lt h, framed]

theorem exact_string {f : String → CourseInstruction}
    (h : ∀ s tail, StringAt rest pos s tail →
      (instructionData (f s) = some data ↔ tail = [])) :
    Exact data (stringAt rest pos >>= fun x => pure (f x.1)) ↔ Whole 1 (rest.drop pos) :=
  exact_stringAt_bind fun s tail _ hs _ => exact_pure.trans (h s tail hs)

/-- The name and the start date, and then the end. -/
theorem exact_nameAndStartDate {f : String → String → CourseInstruction} {variant : UInt8}
    (h : ∀ name startDate, instructionData (f name startDate) =
      some (variant :: (stringBytes name ++ stringBytes startDate))) :
    Exact (variant :: rest) (nameAndStartDate rest >>= fun x => pure (f x.1 x.2)) ↔
      Whole 2 rest := by
  simp only [nameAndStartDate, bind_assoc, pure_bind]
  refine exact_stringAt_bind fun name tail pos hname hpos => ?_
  rw [← hpos]
  refine exact_string fun startDate tail' hdate => ?_
  have hrest : rest = framed (utf8 name) ++ (framed (utf8 startDate) ++ tail') := by
    rw [← hdate.drop_eq, hpos]
    exact hname.drop_eq
  rw [h, stringBytes_eq hname.short, stringBytes_eq hdate.short, hrest]
  simp

/-- The payload of the Borsh kinds: the fields that are dropped have to be the default ones. -/
theorem exact_courseState {f : String → String → String → String → CourseInstruction}
    {variant : UInt8}
    (h : ∀ name degree institution startDate,
      instructionData (f name degree institution startDate) =
        (CourseState.codec.write (Client.payload name degree institution startDate)).map
          (variant :: ·)) :
    Exact (variant :: rest) (courseStateTryFromSlice rest >>= fun c =>
      pure (f c.name c.degree c.institution c.startDate)) ↔
      ∀ payload, CourseState.codec.write payload = some rest →
        payload.grade = "" ∧ payload.isArchived = false := by
  have hread (c : CourseState) : CourseState.codec.tryFromSlice rest = some c ↔
      CourseState.codec.write c = some rest := Codec.tryFromSlice_eq_some
  rcases hc : CourseState.codec.tryFromSlice rest with _ | c
  · refine iff_of_true ?_ fun c hwrite => ?_
    · simp only [courseStateTryFromSlice, hc, throw_bind]
      exact exact_throw _
    · rw [← hread, hc] at hwrite
      exact absurd hwrite (by simp)
  · simp only [courseStateTryFromSlice, hc, pure_bind]
    have hdata (c' : CourseState) : CourseState.codec.write c' = some rest ↔ c' = c := by
      rw [← hread, hc, Option.some.injEq, eq_comm]
    have hpayload : (CourseState.codec.write (Client.payload c.name c.degree c.institution
        c.startDate)).map (variant :: ·) = some (variant :: rest) ↔
        Client.payload c.name c.degree c.institution c.startDate = c := by
      rw [← hdata]
      simp
    rw [exact_pure, h, hpayload]
    simp only [hdata, forall_eq]
    obtain ⟨name, degree, institution, startDate, grade, isArchived⟩ := c
    simp [Client.payload, eq_comm]

end Exact

/-- What the bytes after the kind have to be like. -/
def AccountedVariant (variant : ℕ) (rest : List UInt8) : Prop :=
  match variant with
  | 0 | 1 => ∀ payload, CourseState.codec.write payload = some rest →
    payload.grade = "" ∧ payload.isArchived = false
  | 4 | 5 => Whole 0 rest
  | 6 => Whole 1 rest
  | 2 | 3 | 8 => Whole 2 rest
  | 7 => Whole 3 rest
  | _ => True

/-- **The bytes are accounted for by what they announce.** A course in the payload has no grade and
is not archived; the other kinds have their strings in full, up to one that is not UTF-8, and
nothing after them. -/
def Accounted : List UInt8 → Prop
  | [] => True
  | variant :: rest => AccountedVariant variant.toNat rest

theorem exact_unpackVariant (variant : ℕ) (rest : List UInt8) :
    Exact (UInt8.ofNat variant :: rest) (unpackVariant variant rest) ↔
      AccountedVariant variant rest := by
  match variant with
  | 0 => exact exact_courseState fun _ _ _ _ => rfl
  | 1 => exact exact_courseState fun _ _ _ _ => rfl
  | 2 => exact exact_nameAndStartDate fun _ _ => rfl
  | 3 => exact exact_nameAndStartDate fun _ _ => rfl
  | 4 => simp [unpackVariant, AccountedVariant, exact_pure, Whole, instructionData,
      Client.listAllCourses, eq_comm]
  | 5 => simp [unpackVariant, AccountedVariant, exact_pure, Whole, instructionData,
      Client.getCourseCount, eq_comm]
  | 6 =>
    refine exact_string fun institution tail h => ?_
    have hrest : rest = framed (utf8 institution) ++ tail := h.drop_eq
    rw [hrest, instructionData, Client.searchCoursesByInstitution, stringBytes_eq h.short]
    simp
  | 7 =>
    refine exact_stringAt_bind fun name tail pos hname hpos => ?_
    rw [← hpos]
    refine exact_stringAt_bind fun startDate tail' pos' hdate hpos' => ?_
    rw [← hpos']
    refine exact_string fun grade tail'' hgrade => ?_
    have hrest : rest = framed (utf8 name) ++ (framed (utf8 startDate) ++
        (framed (utf8 grade) ++ tail'')) := by
      rw [← hgrade.drop_eq, hpos', ← hdate.drop_eq, hpos]
      exact hname.drop_eq
    rw [hrest, instructionData, Client.updateCourseGrade, stringBytes_eq hname.short,
      stringBytes_eq hdate.short, stringBytes_eq hgrade.short]
    simp
  | 8 => exact exact_nameAndStartDate fun _ _ => rfl
  | _ + 9 => exact iff_of_true (exact_throw _) trivial

theorem exact_unpack_iff (data : List UInt8) : Exact data (unpack data) ↔ Accounted data := by
  cases data with
  | nil => exact iff_of_true (exact_throw _) trivial
  | cons variant rest =>
    have h := exact_unpackVariant variant.toNat rest
    rwa [UInt8.ofNat_toNat] at h

/-! ### The client's bytes -/

/-- The strings, in their order. -/
def CourseInstruction.strings : CourseInstruction → List String
  | .addCourse name degree institution startDate
  | .updateCourse name degree institution startDate => [name, degree, institution, startDate]
  | .readCourse name startDate
  | .deleteCourse name startDate
  | .archiveCourse name startDate => [name, startDate]
  | .listAllCourses
  | .getCourseCount => []
  | .searchCoursesByInstitution institution => [institution]
  | .updateCourseGrade name startDate grade => [name, startDate, grade]

/-- Every string fits its length field. -/
def CourseInstruction.Short (i : CourseInstruction) : Prop :=
  ∀ s ∈ i.strings, (utf8 s).length < 2 ^ 32

theorem short_of_string_write {s : String} {bytes : List UInt8}
    (h : string.write s = some bytes) : (utf8 s).length < 2 ^ 32 := by
  by_contra hlong
  have hnone : string.write s = none := if_neg hlong
  rw [hnone] at h
  exact absurd h (by simp)

theorem short_of_courseState_write {c : CourseState} {bytes : List UInt8}
    (h : CourseState.codec.write c = some bytes) :
    ∀ s ∈ [c.name, c.degree, c.institution, c.startDate], (utf8 s).length < 2 ^ 32 := by
  simp only [CourseState.codec, Codec.pmap, Codec.pair, Option.bind_eq_some_iff,
    Option.map_eq_some_iff] at h
  obtain ⟨_, hname, _, ⟨_, hdegree, _, ⟨_, hinstitution, _, ⟨_, hdate, -⟩, -⟩, -⟩, -⟩ := h
  simp only [mem_cons, not_mem_nil, or_false, forall_eq_or_imp, forall_eq]
  exact ⟨short_of_string_write hname, short_of_string_write hdegree,
    short_of_string_write hinstitution, short_of_string_write hdate⟩

theorem courseStateTryFromSlice_write {c : CourseState} {bytes : List UInt8}
    (h : CourseState.codec.write c = some bytes) : courseStateTryFromSlice bytes = pure c := by
  rw [courseStateTryFromSlice, Codec.tryFromSlice_eq_some.mpr h]

/-- A decoder that goes on after a payload has found short strings. -/
theorem of_courseStateTryFromSlice_bind_eq_pure {rest : List UInt8}
    {f : CourseState → CourseInstruction} {i : CourseInstruction}
    (h : courseStateTryFromSlice rest >>= (fun c => pure (f c)) = pure i) :
    ∃ c, i = f c ∧
      ∀ s ∈ [c.name, c.degree, c.institution, c.startDate], (utf8 s).length < 2 ^ 32 := by
  rcases hc : CourseState.codec.tryFromSlice rest with _ | c
  · simp only [courseStateTryFromSlice, hc, throw_bind] at h
    exact absurd h throw_ne_pure
  · simp only [courseStateTryFromSlice, hc, pure_bind] at h
    exact ⟨c, (pure_inj.mp h).symm,
      short_of_courseState_write (Codec.tryFromSlice_eq_some.mp hc)⟩

section Client

variable {rest tail : List UInt8} {pos : ℕ} {s name startDate grade : String}

theorem stringAt_stringBytes (hs : (utf8 s).length < 2 ^ 32)
    (h : rest.drop pos = stringBytes s ++ tail) : StringAt rest pos s tail :=
  ⟨hs, by rw [h, stringBytes_eq hs]⟩

theorem nameAndStartDate_eq (hname : (utf8 name).length < 2 ^ 32)
    (hdate : (utf8 startDate).length < 2 ^ 32) :
    nameAndStartDate (stringBytes name ++ stringBytes startDate) =
      pure (name, startDate) := by
  have h₁ : StringAt (stringBytes name ++ stringBytes startDate) 0 name
      (stringBytes startDate) := stringAt_stringBytes hname rfl
  have h₂ := @stringAt_stringBytes _ [] _ _ hdate (h₁.drop_next.trans (append_nil _).symm)
  simp only [nameAndStartDate, h₁.eq, h₂.eq, pure_bind]

/-- A decoder that goes on after the name and the start date has found short ones. -/
theorem of_nameAndStartDate_bind_eq_pure {f : String → String → CourseInstruction}
    {i : CourseInstruction}
    (h : nameAndStartDate rest >>= (fun x => pure (f x.1 x.2)) = pure i) :
    ∃ name startDate, i = f name startDate ∧
      ∀ s ∈ [name, startDate], (utf8 s).length < 2 ^ 32 := by
  simp only [nameAndStartDate, bind_assoc, pure_bind] at h
  obtain ⟨name, pos, hname, h⟩ := of_stringAt_bind_eq_pure h
  obtain ⟨startDate, _, hdate, h⟩ := of_stringAt_bind_eq_pure h
  refine ⟨name, startDate, (pure_inj.mp h).symm, ?_⟩
  simp only [mem_cons, not_mem_nil, or_false, forall_eq_or_imp, forall_eq]
  exact ⟨hname, hdate⟩

end Client

/-- Whatever the decoder returns has short strings. -/
theorem short_of_unpackVariant {variant : ℕ} {rest : List UInt8} {i : CourseInstruction}
    (h : unpackVariant variant rest = pure i) : i.Short := by
  match variant with
  | 0 | 1 =>
    obtain ⟨c, rfl, hc⟩ := of_courseStateTryFromSlice_bind_eq_pure h
    exact hc
  | 2 | 3 | 8 =>
    obtain ⟨name, startDate, rfl, hs⟩ := of_nameAndStartDate_bind_eq_pure h
    exact hs
  | 4 | 5 =>
    obtain rfl := pure_inj.mp h
    exact fun s hs => absurd hs not_mem_nil
  | 6 =>
    obtain ⟨institution, _, hs, h⟩ := of_stringAt_bind_eq_pure h
    obtain rfl := pure_inj.mp h
    exact List.forall_mem_singleton.mpr hs
  | 7 =>
    obtain ⟨name, _, hname, h⟩ := of_stringAt_bind_eq_pure h
    obtain ⟨startDate, _, hdate, h⟩ := of_stringAt_bind_eq_pure h
    obtain ⟨grade, _, hgrade, h⟩ := of_stringAt_bind_eq_pure h
    obtain rfl := pure_inj.mp h
    simp only [CourseInstruction.Short, CourseInstruction.strings, mem_cons,
      not_mem_nil, or_false, forall_eq_or_imp, forall_eq]
    exact ⟨hname, hdate, hgrade⟩
  | _ + 9 => exact absurd h throw_ne_pure

theorem unpackVariant_updateCourseGrade {name startDate grade : String}
    (hname : (utf8 name).length < 2 ^ 32) (hdate : (utf8 startDate).length < 2 ^ 32)
    (hgrade : (utf8 grade).length < 2 ^ 32) :
    unpack (Client.updateCourseGrade name startDate grade) =
      pure (.updateCourseGrade name startDate grade) := by
  have h₁ : StringAt (stringBytes name ++ (stringBytes startDate ++
      stringBytes grade)) 0 name _ := stringAt_stringBytes hname rfl
  have h₂ := stringAt_stringBytes hdate h₁.drop_next
  have h₃ := @stringAt_stringBytes _ [] _ _ hgrade (h₂.drop_next.trans (append_nil _).symm)
  show unpackVariant 7 _ = _
  simp only [unpackVariant, h₁.eq, h₂.eq, h₃.eq, pure_bind]

variable {data : List UInt8}

/-- The decoder reads an instruction with short strings back. -/
theorem unpack_of_short {i : CourseInstruction} (hi : i.Short)
    (h : instructionData i = some data) : unpack data = pure i := by
  simp only [CourseInstruction.Short, CourseInstruction.strings] at hi
  cases i with
  | addCourse name degree institution startDate =>
    obtain ⟨bytes, hwrite, rfl⟩ := Option.map_eq_some_iff.mp h
    show unpackVariant 0 bytes = _
    rw [unpackVariant, courseStateTryFromSlice_write hwrite, pure_bind, Client.payload]
  | updateCourse name degree institution startDate =>
    obtain ⟨bytes, hwrite, rfl⟩ := Option.map_eq_some_iff.mp h
    show unpackVariant 1 bytes = _
    rw [unpackVariant, courseStateTryFromSlice_write hwrite, pure_bind, Client.payload]
  | readCourse name startDate =>
    obtain ⟨⟩ := h
    show unpackVariant 2 _ = _
    rw [unpackVariant, nameAndStartDate_eq (hi _ (by simp)) (hi _ (by simp)), pure_bind]
  | deleteCourse name startDate =>
    obtain ⟨⟩ := h
    show unpackVariant 3 _ = _
    rw [unpackVariant, nameAndStartDate_eq (hi _ (by simp)) (hi _ (by simp)), pure_bind]
  | listAllCourses =>
    obtain ⟨⟩ := h
    rfl
  | getCourseCount =>
    obtain ⟨⟩ := h
    rfl
  | searchCoursesByInstitution institution =>
    obtain ⟨⟩ := h
    have hs := @stringAt_stringBytes (stringBytes institution) [] 0 _ (hi _ (by simp))
      (append_nil _).symm
    show unpackVariant 6 _ = _
    rw [unpackVariant, hs.eq, pure_bind]
  | updateCourseGrade name startDate grade =>
    obtain ⟨⟩ := h
    exact unpackVariant_updateCourseGrade (hi _ (by simp)) (hi _ (by simp)) (hi _ (by simp))
  | archiveCourse name startDate =>
    obtain ⟨⟩ := h
    show unpackVariant 8 _ = _
    rw [unpackVariant, nameAndStartDate_eq (hi _ (by simp)) (hi _ (by simp)), pure_bind]

theorem unpack_instructionData_iff {i : CourseInstruction}
    (h : instructionData i = some data) : unpack data = pure i ↔ i.Short := by
  refine ⟨fun hunpack => ?_, fun hi => unpack_of_short hi h⟩
  cases data with
  | nil => exact absurd hunpack throw_ne_pure
  | cons variant rest => exact short_of_unpackVariant hunpack

/-- **The decoder meets the encoder exactly where the lengths fit and nothing is left over.** An
instruction is read back if and only if its strings fit their length fields; on any bytes the
decoder returns the instruction that has them, or an error, if and only if they are accounted
for. -/
theorem unpack_exact_iff (data : List UInt8) :
    (∀ i, Client.instructionData i = some data → (unpack data = pure i ↔ i.Short)) ∧
    (((∃ i, unpack data = pure i ∧ Client.instructionData i = some data) ∨
      ∃ e, unpack data = throw e) ↔ Accounted data) :=
  ⟨fun _ h => unpack_instructionData_iff h, exact_unpack_iff data⟩

/-- An instruction that is read back, and a kind without strings that something follows. -/
theorem unpack_exact_iff_read :
    unpack (Client.readCourse "Rust" "2024") = pure (.readCourse "Rust" "2024") ∧
    ¬ ((∃ i, unpack [4, 0] = pure i ∧ Client.instructionData i = some [4, 0]) ∨
      ∃ e, unpack [4, 0] = throw e) := by
  refine ⟨((unpack_exact_iff _).1 (.readCourse "Rust" "2024") rfl).mpr ?_,
    (unpack_exact_iff [4, 0]).2.not.mpr nofun⟩
  unfold CourseInstruction.Short
  decide +kernel

/-- The kind of a read and nothing more makes the program panic. -/
theorem unpack_panics_on_read_kind :
    ¬ ∀ data, (∃ i, unpack data = pure i ∧ Client.instructionData i = some data) ∨
      ∃ e, unpack data = throw e := fun h => by
  have hpanic : unpack [2] = abort := rfl
  have hread := h [2]
  rw [hpanic] at hread
  simp at hread

example : (unpack [6, 2, 0, 0, 0, 72, 105]).run =
    some (.ok (.searchCoursesByInstitution "Hi")) := by
  decide +kernel

end RustExample.CourseProgram
