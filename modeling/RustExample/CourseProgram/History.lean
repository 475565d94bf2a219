import RustExample.CourseProgram.Program
import RustExample.Foundation.Run

/-!
# Courses over a history of instructions

A course is meant to have an account of its own, and its grade and archive status are meant to
survive an update. The address of a course is derived from its name and start date written one
after the other, so that two courses share an account where these run together; and an update
writes an empty grade and a cleared archive flag. Apart from these two cases the accounts are what
the history of the instructions says.
-/

namespace RustExample.CourseProgram

open Function Borsh List

/-- An instruction with the key of the account that the client names. -/
abbrev Submitted (Pubkey : Type) := Pubkey × CourseInstruction

/-! ### What a history says -/

section Spec

variable {Pubkey : Type} (course : String × String)

/-- The course is added by it. -/
def CourseInstruction.adds : CourseInstruction → Bool
  | .addCourse name _ _ startDate => (name, startDate) = course
  | _ => false

/-- The grade that it gives the course. -/
def CourseInstruction.gradeSet : CourseInstruction → Option String
  | .updateCourseGrade name startDate grade =>
    if (name, startDate) = course then some grade else none
  | _ => none

/-- The course is archived by it. -/
def CourseInstruction.archives : CourseInstruction → Bool
  | .archiveCourse name startDate => (name, startDate) = course
  | _ => false

/-- The instructions since the course was last added, the latest first. -/
def sinceAdded (es : List (Submitted Pubkey)) : List CourseInstruction :=
  (es.map Prod.snd).reverse.takeWhile fun i => !i.adds course

/-- The grade that was last set since the course was added, if any. -/
def lastGrade (es : List (Submitted Pubkey)) : String :=
  ((sinceAdded course es).findSome? (·.gradeSet course)).getD ""

/-- The course was archived since it was added. -/
def archivedIn (es : List (Submitted Pubkey)) : Bool :=
  (sinceAdded course es).any (·.archives course)

variable {course} {es : List (Submitted Pubkey)} {e : Submitted Pubkey}

theorem sinceAdded_snoc : sinceAdded course (es ++ [e]) =
    if e.2.adds course then [] else e.2 :: sinceAdded course es := by
  cases h : e.2.adds course <;> simp [sinceAdded, h]

theorem lastGrade_snoc (hadds : e.2.adds course = false) :
    lastGrade course (es ++ [e]) = (e.2.gradeSet course).getD (lastGrade course es) := by
  rw [lastGrade, sinceAdded_snoc, hadds, if_neg nofun, findSome?_cons]
  cases e.2.gradeSet course <;> rfl

theorem archivedIn_snoc (hadds : e.2.adds course = false) :
    archivedIn course (es ++ [e]) = (e.2.archives course || archivedIn course es) := by
  rw [archivedIn, sinceAdded_snoc, hadds, if_neg nofun, any_cons]
  rfl

/-- An instruction that adds the course starts its history afresh. -/
theorem of_adds (hadds : e.2.adds course = true) :
    lastGrade course (es ++ [e]) = "" ∧ archivedIn course (es ++ [e]) = false := by
  rw [lastGrade, archivedIn, sinceAdded_snoc, hadds, if_pos rfl]
  exact ⟨rfl, rfl⟩

/-- An instruction for another course says nothing about this one. -/
theorem snoc_of_ne (h : e.2.course ≠ some course) :
    lastGrade course (es ++ [e]) = lastGrade course es ∧
      archivedIn course (es ++ [e]) = archivedIn course es := by
  obtain ⟨key, i⟩ := e
  have hadds : i.adds course = false ∧ i.gradeSet course = none ∧ i.archives course = false := by
    cases i <;> simp_all [CourseInstruction.adds, CourseInstruction.gradeSet,
      CourseInstruction.archives, CourseInstruction.course]
  rw [lastGrade_snoc hadds.1, archivedIn_snoc hadds.1, hadds.2.1, hadds.2.2]
  exact ⟨rfl, rfl⟩

end Spec

/-- The record says what the history says about the course. -/
structure Agrees {Pubkey : Type} (course : String × String) (es : List (Submitted Pubkey))
    (c : CourseState) : Prop where
  grade : c.grade = lastGrade course es
  isArchived : c.isArchived = archivedIn course es

/-! ### Conditions -/

section Conditions

variable {Pubkey : Type}

/-- The bytes the address of a course is derived from. -/
def seeds (course : String × String) : List UInt8 := utf8 course.1 ++ utf8 course.2

/-- No two courses of a history run together. -/
def Apart (es : List (Submitted Pubkey)) : Prop :=
  ∀ e ∈ es, ∀ e' ∈ es, ∀ course course', e.2.course = some course →
    e'.2.course = some course' → seeds course = seeds course' → course = course'

/-- An update of a course finds a record without a grade that is not archived. -/
def NothingLost (accounts : Accounts Pubkey) : Submitted Pubkey → Prop
  | (key, .updateCourse ..) => ∀ c, accounts key = some c → c.grade = "" ∧ c.isArchived = false
  | _ => True

theorem Apart.of_append {es es' : List (Submitted Pubkey)} (h : Apart (es ++ es')) : Apart es :=
  fun e he e' he' => h e (mem_append_left _ he) e' (mem_append_left _ he')

end Conditions

section Agrees

variable {Pubkey : Type} {accounts : Accounts Pubkey} {key : Pubkey} {i : CourseInstruction}
  {course : String × String} {es : List (Submitted Pubkey)} {c c₀ : CourseState}

/-- An instruction for another course leaves the agreement as it is. -/
theorem Agrees.snoc_of_ne (h : Agrees course es c) (hi : i.course ≠ some course) :
    Agrees course (es ++ [(key, i)]) c := by
  obtain ⟨hgrade, harchived⟩ := @CourseProgram.snoc_of_ne _ course es (key, i) hi
  exact ⟨h.grade.trans hgrade.symm, h.isArchived.trans harchived.symm⟩

/-- After an instruction that does not add the course, the record has to follow it. -/
theorem Agrees.snoc (h : Agrees course es c₀) (hadds : i.adds course = false)
    (hgrade : c.grade = (i.gradeSet course).getD c₀.grade)
    (harchived : c.isArchived = (i.archives course || c₀.isArchived)) :
    Agrees course (es ++ [(key, i)]) c where
  grade := by rw [lastGrade_snoc hadds, hgrade, h.grade]
  isArchived := by rw [archivedIn_snoc hadds, harchived, h.isArchived]

/-- An instruction on a record that agrees with the history leads to one that agrees again. -/
theorem Agrees.onRecord (hi : i.course = some course)
    (hagrees : ∀ c, accounts key = some c → Agrees course es c)
    (hlost : NothingLost accounts (key, i))
    (h : i.onRecord (accounts key) = .ok (some c)) : Agrees course (es ++ [(key, i)]) c := by
  cases hkey : accounts key with
  | none =>
    rw [hkey] at h
    cases i with
    | addCourse name degree institution startDate =>
      cases h
      obtain ⟨⟩ := hi
      obtain ⟨hgrade, harchived⟩ := @of_adds _ (name, startDate) es
        (key, .addCourse name degree institution startDate) (by simp [CourseInstruction.adds])
      exact ⟨hgrade.symm, harchived.symm⟩
    | _ => cases h
  | some c₀ =>
    have hc₀ := hagrees c₀ hkey
    rw [hkey] at h
    cases i with
    | addCourse => cases h
    | deleteCourse => cases h
    | listAllCourses | getCourseCount | searchCoursesByInstitution => cases hi
    | updateCourse =>
      cases h
      obtain ⟨hgrade, harchived⟩ := hlost c₀ hkey
      exact hc₀.snoc rfl hgrade.symm harchived.symm
    | readCourse =>
      cases h
      exact hc₀.snoc rfl rfl rfl
    | updateCourseGrade =>
      cases h
      obtain ⟨⟩ := hi
      exact hc₀.snoc rfl (by simp [CourseInstruction.gradeSet]) rfl
    | archiveCourse =>
      cases h
      obtain ⟨⟩ := hi
      exact hc₀.snoc rfl rfl (by simp [CourseInstruction.archives])

end Agrees

/-! ### Runs -/

section Runs

variable {Pubkey : Type} [DecidableEq Pubkey]
  {findProgramAddress : List UInt8 → Pubkey → Pubkey} {programId : Pubkey}

/-- One successful instruction. -/
def Step (findProgramAddress : List UInt8 → Pubkey → Pubkey) (programId : Pubkey)
    (accounts : Accounts Pubkey) (e : Submitted Pubkey) (accounts' : Accounts Pubkey) : Prop :=
  processInstruction findProgramAddress programId accounts e.1 e.2 = .ok accounts'

/-- What a successful instruction for a course has done. -/
theorem Step.of_course {accounts accounts' : Accounts Pubkey} {e : Submitted Pubkey}
    {course : String × String} (h : Step findProgramAddress programId accounts e accounts')
    (he : e.2.course = some course) :
    e.1 = address findProgramAddress programId course ∧
      ∃ r, e.2.onRecord (accounts e.1) = .ok r ∧ accounts' = update accounts e.1 r := by
  rw [Step, processInstruction_eq he] at h
  split_ifs at h with hkey
  refine ⟨not_not.mp hkey, ?_⟩
  cases hr : e.2.onRecord (accounts e.1) with
  | error => simp [hr, Except.map] at h
  | ok r =>
    simp only [hr, Except.map, Except.ok.injEq] at h
    exact ⟨r, rfl, h.symm⟩

theorem Step.of_onRecord {accounts : Accounts Pubkey} {e : Submitted Pubkey}
    {course : String × String} {r : Option CourseState} (he : e.2.course = some course)
    (hkey : e.1 = address findProgramAddress programId course)
    (hr : e.2.onRecord (accounts e.1) = .ok r) :
    Step findProgramAddress programId accounts e (update accounts e.1 r) := by
  rw [Step, processInstruction_eq he, if_neg (not_not.mpr hkey), hr]
  rfl

/-- An instruction for no course leaves the accounts as they are. -/
theorem Step.of_course_eq_none {accounts accounts' : Accounts Pubkey} {e : Submitted Pubkey}
    (h : Step findProgramAddress programId accounts e accounts') (he : e.2.course = none) :
    accounts' = accounts := by
  obtain ⟨key, i⟩ := e
  cases i with
  | listAllCourses | getCourseCount | searchCoursesByInstitution =>
    cases h
    rfl
  | _ => cases he

/-- **An instruction depends on the account it names and changes no other.** -/
theorem Step.only {before before' after : Accounts Pubkey} {e : Submitted Pubkey}
    (hsame : before e.1 = before' e.1) (h : Step findProgramAddress programId before e after) :
    (∀ key, key ≠ e.1 → after key = before key) ∧
      ∃ after', Step findProgramAddress programId before' e after' ∧ after' e.1 = after e.1 := by
  cases he : e.2.course with
  | some course =>
    obtain ⟨hkey, r, hr, rfl⟩ := h.of_course he
    refine ⟨fun key hne => update_of_ne hne .., update before' e.1 r,
      .of_onRecord he hkey (hsame ▸ hr), ?_⟩
    rw [update_self, update_self]
  | none =>
    obtain rfl := h.of_course_eq_none he
    refine ⟨fun _ _ => rfl, before', ?_, hsame.symm⟩
    obtain ⟨key, i⟩ := e
    cases i with
    | listAllCourses | getCourseCount | searchCoursesByInstitution => rfl
    | _ => cases he

/-- The accounts after a history: the instructions of a course name its address, every record
belongs to a course of the history, and it says what the history says. -/
structure Inv (findProgramAddress : List UInt8 → Pubkey → Pubkey) (programId : Pubkey)
    (es : List (Submitted Pubkey)) (accounts : Accounts Pubkey) : Prop where
  key_eq : ∀ e ∈ es, ∀ course, e.2.course = some course →
    e.1 = address findProgramAddress programId course
  held : ∀ key c, accounts key = some c → ∃ e ∈ es, ∃ course, e.2.course = some course ∧
    key = address findProgramAddress programId course
  agrees : ∀ e ∈ es, ∀ course, e.2.course = some course → ∀ c,
    accounts (address findProgramAddress programId course) = some c → Agrees course es c

omit [DecidableEq Pubkey] in
theorem Inv.init : Inv findProgramAddress programId [] fun _ => none where
  key_eq _ he := absurd he not_mem_nil
  held _ _ h := nomatch h
  agrees _ he := absurd he not_mem_nil

variable (hfind : Function.Injective fun p : List UInt8 × Pubkey => findProgramAddress p.1 p.2)

omit [DecidableEq Pubkey] in
include hfind in
theorem seeds_eq_of_address_eq {course course' : String × String}
    (h : address findProgramAddress programId course =
      address findProgramAddress programId course') : seeds course = seeds course' := by
  have hpair := @hfind (seeds course, programId) (seeds course', programId) h
  exact congrArg Prod.fst hpair

omit [DecidableEq Pubkey] in
include hfind in
/-- The record at the address of a course agrees with the history also if the course is new. -/
theorem Inv.agrees_of_apart {es : List (Submitted Pubkey)} {accounts : Accounts Pubkey}
    {e : Submitted Pubkey} {course : String × String} {c : CourseState}
    (hinv : Inv findProgramAddress programId es accounts) (hapart : Apart (es ++ [e]))
    (he : e.2.course = some course)
    (hc : accounts (address findProgramAddress programId course) = some c) :
    Agrees course es c := by
  obtain ⟨e', he', course', hcourse', haddress⟩ := hinv.held _ _ hc
  obtain rfl : course = course' :=
    hapart e (by simp) e' (mem_append_left _ he') _ _ he hcourse'
      (seeds_eq_of_address_eq hfind haddress)
  exact hinv.agrees e' he' _ hcourse' c hc

include hfind in
theorem Inv.step_course {es : List (Submitted Pubkey)} {accounts : Accounts Pubkey}
    {e : Submitted Pubkey} {course : String × String} {r : Option CourseState}
    (hinv : Inv findProgramAddress programId es accounts) (hapart : Apart (es ++ [e]))
    (he : e.2.course = some course) (hkey : e.1 = address findProgramAddress programId course)
    (hr : e.2.onRecord (accounts e.1) = .ok r) (hlost : NothingLost accounts e) :
    Inv findProgramAddress programId (es ++ [e]) (update accounts e.1 r) where
  key_eq e' he' course' hcourse' := by
    rcases List.mem_append.mp he' with hold | hlast
    · exact hinv.key_eq e' hold course' hcourse'
    · obtain rfl := List.mem_singleton.mp hlast
      obtain ⟨⟩ := he.symm.trans hcourse'
      exact hkey
  held key c hc := by
    by_cases hk : key = e.1
    · exact ⟨e, by simp, course, he, hk.trans hkey⟩
    · rw [update_of_ne hk] at hc
      obtain ⟨e', he', hcourse'⟩ := hinv.held key c hc
      exact ⟨e', mem_append_left _ he', hcourse'⟩
  agrees e' he' course' hcourse' c hc := by
    by_cases hsame : course' = course
    · subst hsame
      rw [← hkey, update_self] at hc
      subst hc
      refine Agrees.onRecord he (fun c₀ hc₀ => ?_) hlost hr
      rw [hkey] at hc₀
      exact hinv.agrees_of_apart hfind hapart he hc₀
    · have hne : address findProgramAddress programId course' ≠ e.1 := by
        rw [hkey]
        exact fun h => hsame (hapart e' he' e (by simp) _ _ hcourse' he
          (seeds_eq_of_address_eq hfind h))
      rw [update_of_ne hne] at hc
      have hother : e.2.course ≠ some course' := by
        rw [he]
        exact fun h => hsame (Option.some.inj h).symm
      rcases List.mem_append.mp he' with hold | hlast
      · exact (hinv.agrees e' hold course' hcourse' c hc).snoc_of_ne hother
      · obtain rfl := List.mem_singleton.mp hlast
        exact absurd hcourse' hother

include hfind in
/-- **One instruction keeps the invariant.** -/
theorem Inv.step {es : List (Submitted Pubkey)} {accounts accounts' : Accounts Pubkey}
    {e : Submitted Pubkey} (hinv : Inv findProgramAddress programId es accounts)
    (hapart : Apart (es ++ [e])) (h : Step findProgramAddress programId accounts e accounts')
    (hlost : NothingLost accounts e) : Inv findProgramAddress programId (es ++ [e]) accounts' := by
  cases he : e.2.course with
  | some course =>
    obtain ⟨hkey, r, hr, rfl⟩ := h.of_course he
    exact hinv.step_course hfind hapart he hkey hr hlost
  | none =>
    obtain rfl := h.of_course_eq_none he
    have hold {e' : Submitted Pubkey} (he' : e' ∈ es ++ [e]) {course : String × String}
        (hcourse : e'.2.course = some course) : e' ∈ es := by
      refine (List.mem_append.mp he').resolve_right fun hlast => ?_
      obtain rfl := List.mem_singleton.mp hlast
      rw [he] at hcourse
      exact absurd hcourse nofun
    constructor
    · exact fun e' he' course hcourse => hinv.key_eq e' (hold he' hcourse) course hcourse
    · intro key c hc
      obtain ⟨e', he', hcourse⟩ := hinv.held key c hc
      exact ⟨e', mem_append_left _ he', hcourse⟩
    · intro e' he' course hcourse c hc
      refine (hinv.agrees e' (hold he' hcourse) course hcourse c hc).snoc_of_ne ?_
      rw [he]
      exact nofun

/-- The instructions that succeed, with updates that lose nothing. -/
abbrev Kept (findProgramAddress : List UInt8 → Pubkey → Pubkey) (programId : Pubkey)
    (accounts : Accounts Pubkey) (e : Submitted Pubkey) (accounts' : Accounts Pubkey) : Prop :=
  Step findProgramAddress programId accounts e accounts' ∧ NothingLost accounts e

include hfind in
theorem Inv.of_run {es : List (Submitted Pubkey)} {accounts : Accounts Pubkey}
    (run : Run (Kept findProgramAddress programId) (fun _ => none) es accounts)
    (hapart : Apart es) : Inv findProgramAddress programId es accounts := by
  induction run with
  | nil => exact Inv.init
  | snoc _ h ih => exact (ih hapart.of_append).step hfind hapart h.1 h.2

include hfind in
/-- **Courses are isolated and keep their grade and archive status** in every run of successful
instructions whose courses are apart and whose updates find no grade and no archived course. An
instruction depends on the account of its course and changes no other, and the record of a course
has the last grade and archive status since it was added. -/
theorem courses_isolated_and_kept {es : List (Submitted Pubkey)} {accounts : Accounts Pubkey}
    (run : Run (Kept findProgramAddress programId) (fun _ => none) es accounts)
    (hapart : Apart es) :
    (∀ e ∈ es, ∀ e' ∈ es, ∀ course course', e.2.course = some course →
      e'.2.course = some course' → course ≠ course' → e.1 ≠ e'.1) ∧
    (∀ e ∈ es, ∀ before before' : Accounts Pubkey, before e.1 = before' e.1 → ∀ after,
      Step findProgramAddress programId before e after →
        (∀ key, key ≠ e.1 → after key = before key) ∧
        ∃ after', Step findProgramAddress programId before' e after' ∧ after' e.1 = after e.1) ∧
    (∀ e ∈ es, ∀ course, e.2.course = some course → ∀ c,
      accounts (address findProgramAddress programId course) = some c →
        c.grade = lastGrade course es ∧ c.isArchived = archivedIn course es) := by
  have hinv := Inv.of_run hfind run hapart
  refine ⟨fun e he e' he' course course' hcourse hcourse' hne hkey => ?_,
    fun e _ before before' hsame after h => h.only hsame, fun e he course hcourse c hc => ?_⟩
  · rw [hinv.key_eq e he course hcourse, hinv.key_eq e' he' course' hcourse'] at hkey
    exact hne (hapart e he e' he' _ _ hcourse hcourse' (seeds_eq_of_address_eq hfind hkey))
  · have hagrees := hinv.agrees e he course hcourse c hc
    exact ⟨hagrees.grade, hagrees.isArchived⟩

end Runs

/-! ### Runs on concrete addresses -/

/-- Addresses that record what they are derived from. -/
inductive Address
  | wallet (n : ℕ)
  | derived (seeds : List UInt8) (programId : Address)
  deriving DecidableEq

theorem derived_injective :
    Function.Injective fun p : List UInt8 × Address => Address.derived p.1 p.2 := by
  rintro ⟨seeds, programId⟩ ⟨seeds', programId'⟩ h
  cases h
  rfl

/-- The client names the account of the course. -/
def submit (i : CourseInstruction) (course : String × String) : Submitted Address :=
  (address Address.derived (.wallet 0) course, i)

theorem submit_step {accounts : Accounts Address} {i : CourseInstruction}
    {course : String × String} {r : Option CourseState} (hi : i.course = some course)
    (hr : i.onRecord (accounts (address Address.derived (.wallet 0) course)) = .ok r) :
    Step Address.derived (.wallet 0) accounts (submit i course)
      (update accounts (address Address.derived (.wallet 0) course) r) :=
  .of_onRecord hi rfl hr

/-- Two courses are added, and one of them gets a grade. -/
def twoCourses : List (Submitted Address) :=
  [submit (.addCourse "Rust" "BSc" "ETH" "2024") ("Rust", "2024"),
    submit (.updateCourseGrade "Rust" "2024" "A") ("Rust", "2024"),
    submit (.addCourse "Lean" "MSc" "ETH" "2025") ("Lean", "2025")]

theorem apart_twoCourses : Apart twoCourses := by
  intro e he e' he' course course' hcourse hcourse' hseeds
  simp only [twoCourses, mem_cons, not_mem_nil, or_false] at he he'
  rcases he with rfl | rfl | rfl <;> rcases he' with rfl | rfl | rfl <;>
  · cases hcourse
    cases hcourse'
    first
    | rfl
    | exact absurd hseeds (by decide +kernel)

theorem courses_isolated_and_kept_two :
    ∃ accounts c, Run (Kept Address.derived (.wallet 0)) (fun _ => none) twoCourses accounts ∧
      accounts (address Address.derived (.wallet 0) ("Rust", "2024")) = some c ∧
        c.grade = "A" ∧ c.isArchived = false := by
  have hne : address Address.derived (.wallet 0) ("Rust", "2024") ≠
      address Address.derived (.wallet 0) ("Lean", "2025") := by
    decide +kernel
  obtain ⟨accounts, c, run, hc⟩ : ∃ accounts c,
      Run (Kept Address.derived (.wallet 0)) (fun _ => none) twoCourses accounts ∧
        accounts (address Address.derived (.wallet 0) ("Rust", "2024")) = some c := by
    let graded : CourseState := ⟨"Rust", "BSc", "ETH", "2024", "A", false⟩
    let other : CourseState := ⟨"Lean", "MSc", "ETH", "2025", "", false⟩
    refine ⟨_, graded, .cons ⟨submit_step rfl rfl, trivial⟩ <|
      .cons ⟨submit_step (r := graded) rfl ?_, trivial⟩ <|
      .cons ⟨submit_step (r := other) rfl ?_, trivial⟩ .nil, ?_⟩
    · rw [update_self]
      rfl
    · rw [update_of_ne hne.symm, update_of_ne hne.symm]
      rfl
    · rw [update_of_ne hne, update_self]
  have hkept := (courses_isolated_and_kept derived_injective run apart_twoCourses).2.2 _
    (mem_cons_self ..) _ rfl c hc
  exact ⟨accounts, c, run, hc, hkept⟩

/-- A course is graded and archived, and then updated. -/
def updatedLast : List (Submitted Address) :=
  [submit (.addCourse "Rust" "BSc" "ETH" "2024") ("Rust", "2024"),
    submit (.updateCourseGrade "Rust" "2024" "A") ("Rust", "2024"),
    submit (.archiveCourse "Rust" "2024") ("Rust", "2024"),
    submit (.updateCourse "Rust" "MSc" "ETH" "2024") ("Rust", "2024")]

/-- An update erases grade and archive status, and an instruction for another course deletes one. -/
theorem course_grade_lost_and_account_shared :
    (∃ accounts, Run (Step Address.derived (.wallet 0)) (fun _ => none) updatedLast accounts ∧
      accounts (address Address.derived (.wallet 0) ("Rust", "2024")) =
        some ⟨"Rust", "MSc", "ETH", "2024", "", false⟩ ∧
      lastGrade ("Rust", "2024") updatedLast = "A" ∧
      archivedIn ("Rust", "2024") updatedLast = true) ∧
    ∃ accounts, Run (Step Address.derived (.wallet 0)) (fun _ => none)
        [submit (.addCourse "ab" "BSc" "ETH" "c") ("ab", "c"),
          submit (.deleteCourse "a" "bc") ("a", "bc")] accounts ∧
      accounts (address Address.derived (.wallet 0) ("ab", "c")) = none := by
  have hsame : address Address.derived (.wallet 0) ("a", "bc") =
      address Address.derived (.wallet 0) ("ab", "c") := by
    decide +kernel
  constructor
  · let graded : CourseState := ⟨"Rust", "BSc", "ETH", "2024", "A", false⟩
    refine ⟨_, .cons (submit_step rfl rfl) <| .cons (submit_step (r := graded) rfl ?_) <|
      .cons (submit_step (r := some { graded with isArchived := true }) rfl ?_) <|
      .cons (submit_step rfl ?_) .nil, update_self .., by decide +kernel,
      by decide +kernel⟩ <;>
    · rw [update_self]
      rfl
  · refine ⟨_, .cons (submit_step rfl rfl) <| .cons (submit_step (r := none) rfl ?_) .nil, ?_⟩
    · rw [hsame, update_self]
      rfl
    · rw [hsame, update_self]

end RustExample.CourseProgram
