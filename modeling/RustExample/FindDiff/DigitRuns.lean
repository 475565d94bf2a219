import Mathlib.Data.List.TakeWhile
import Mathlib.Data.Nat.Digits.Defs
import RustExample.FindDiff.NaturalOrder

/-!
# Runs of digits, and the order of lines

Two runs of digits are in the order of their numbers, and those of one number in the order of their
leading zeros. A run that is not next to another digit is a token of its own.

Source: `fs_workspace_example/find_diff/src/main.rs`.
-/

namespace RustExample.FindDiff

open Std List

/-! ### Values -/

variable {c d : Char} {ds es pre post : List Char} {m n k : ℕ}

/-- The number that the digits stand for. -/
def value (digits : List Char) : ℕ := Nat.ofDigits 10 (digits.reverse.map fun d => d.toNat - 48)

/-- How many zeros come first. -/
def leadingZeros (digits : List Char) : ℕ := (digits.takeWhile (· == '0')).length

theorem value_cons (c : Char) (ds : List Char) :
    value (c :: ds) = value ds + 10 ^ ds.length * (c.toNat - 48) := by
  rw [value, reverse_cons, map_append, Nat.ofDigits_append]
  simp [value]

theorem value_lt (hds : ∀ d ∈ ds, d.isDigit = true) : value ds < 10 ^ ds.length := by
  have hlt := Nat.ofDigits_lt_base_pow_length (b := 10)
    (l := ds.reverse.map fun d => d.toNat - 48) (by omega) (by
      intro x hx
      obtain ⟨d, hd, rfl⟩ := List.mem_map.mp hx
      have := isDigit_iff.mp (hds d (List.mem_reverse.mp hd))
      omega)
  rwa [length_map, length_reverse] at hlt

theorem le_value (hc : c.isDigit = true) (hne : c ≠ '0') : 10 ^ ds.length ≤ value (c :: ds) := by
  have hdigit := isDigit_iff.mp hc
  have hzero : c.toNat ≠ 48 := fun h => hne (Char.toNat_inj.mp h)
  rw [value_cons]
  calc 10 ^ ds.length = 10 ^ ds.length * 1 := (Nat.mul_one _).symm
    _ ≤ 10 ^ ds.length * (c.toNat - 48) := Nat.mul_le_mul_left _ (by omega)
    _ ≤ _ := Nat.le_add_left _ _

theorem compare_add_left (n a b : ℕ) : compare (n + a) (n + b) = compare a b := by
  rcases Nat.lt_trichotomy a b with hlt | rfl | hgt
  · rw [Nat.compare_eq_lt.mpr hlt, Nat.compare_eq_lt]
    omega
  · rw [Nat.compare_eq_eq.mpr rfl, Nat.compare_eq_eq.mpr rfl]
  · rw [Nat.compare_eq_gt.mpr hgt, Nat.compare_eq_gt]
    omega

theorem compare_cons (hds : ∀ d ∈ ds, d.isDigit = true) (hes : ∀ d ∈ es, d.isDigit = true)
    (hlen : ds.length = es.length) (hc : c.isDigit = true) (hd : d.isDigit = true) :
    compare (value (c :: ds)) (value (d :: es)) =
      (compare c.toNat d.toNat).then (compare (value ds) (value es)) := by
  have hlow := value_lt hds
  have hlow' := value_lt hes
  rw [isDigit_iff] at hc hd
  have hmul : ∀ {m n : ℕ}, m < n → 10 ^ ds.length * m + 10 ^ ds.length ≤ 10 ^ ds.length * n :=
    fun hmn => (Nat.mul_succ _ _).symm.trans_le (Nat.mul_le_mul_left _ hmn)
  rw [value_cons, value_cons, ← hlen]
  rw [← hlen] at hlow'
  rcases Nat.lt_trichotomy c.toNat d.toNat with hlt | heq | hgt
  · have := hmul (show c.toNat - 48 < d.toNat - 48 by omega)
    rw [Nat.compare_eq_lt.mpr hlt, Ordering.lt_then, Nat.compare_eq_lt]
    omega
  · rw [heq, Nat.compare_eq_eq.mpr rfl, Ordering.eq_then, Nat.add_comm, Nat.add_comm (value es),
      compare_add_left]
  · have := hmul (show d.toNat - 48 < c.toNat - 48 by omega)
    rw [Nat.compare_eq_gt.mpr hgt, Ordering.gt_then, Nat.compare_eq_gt]
    omega

/-- Digits of the same number are in the order of their values. -/
theorem seqCmp_eq_of_length (hds : ∀ d ∈ ds, d.isDigit = true) (hes : ∀ d ∈ es, d.isDigit = true)
    (hlen : ds.length = es.length) : seqCmp ds es = compare (value ds) (value es) := by
  induction ds generalizing es with
  | nil =>
    obtain rfl := eq_nil_of_length_eq_zero hlen.symm
    rfl
  | cons c ds ih =>
    obtain _ | ⟨d, es⟩ := es
    · cases hlen
    · rw [length_cons, length_cons, Nat.succ_inj] at hlen
      obtain ⟨hc, hds⟩ := List.forall_mem_cons.mp hds
      obtain ⟨hd, hes⟩ := List.forall_mem_cons.mp hes
      rw [compare_cons hds hes hlen hc hd, ← ih hds hes hlen]
      exact List.compareLex_cons_cons

/-! ### Runs -/

/-- A run of digits. -/
structure IsRun (ds : List Char) : Prop where
  ne_nil : ds ≠ []
  isDigit : ∀ d ∈ ds, d.isDigit = true

theorem trimZeros_eq_cons (h : trimZeros ds ≠ []) :
    ∃ c es, trimZeros ds = c :: es ∧ c ≠ '0' := by
  obtain ⟨c, es, hcons⟩ := exists_cons_of_ne_nil h
  refine ⟨c, es, hcons, ?_⟩
  have hnot := head_dropWhile_not (· == '0') h
  have hhead : (trimZeros ds).head h = c := by simp only [hcons, head_cons]
  rw [show (List.dropWhile (· == '0') ds).head h = c from hhead] at hnot
  simpa using hnot

theorem value_trimZeros (ds : List Char) : value (trimZeros ds) = value ds := by
  induction ds with
  | nil => rfl
  | cons c ds ih =>
    by_cases hc : c = '0'
    · rw [trimZeros, dropWhile_cons_of_pos (by simp [hc]), ← trimZeros, ih, value_cons, hc]
      exact (Nat.add_zero _).symm
    · rw [trimZeros, dropWhile_cons_of_neg (by simpa using hc)]

theorem value_numberOf (ds : List Char) : value (numberOf ds) = value ds := by
  rw [numberOf]
  split_ifs with hnil
  · rw [← value_trimZeros ds, hnil]
    rfl
  · exact value_trimZeros ds

theorem isDigit_numberOf (hds : ∀ d ∈ ds, d.isDigit = true) :
    ∀ d ∈ numberOf ds, d.isDigit = true := by
  intro d hd
  rw [numberOf] at hd
  split_ifs at hd with hnil
  · rw [List.mem_singleton.mp hd]
    rfl
  · exact hds d ((dropWhile_sublist _).subset hd)

theorem numberOf_ne_nil (ds : List Char) : numberOf ds ≠ [] := by
  rw [numberOf]
  split_ifs with hnil
  · exact cons_ne_nil _ _
  · exact hnil

/-- A number of more than one digit does not begin with a zero. -/
theorem le_value_numberOf (hds : ∀ d ∈ ds, d.isDigit = true) (hn : n + 2 ≤ (numberOf ds).length) :
    10 ^ (n + 1) ≤ value ds := by
  have hdigits := isDigit_numberOf hds
  rw [← value_numberOf]
  rw [numberOf] at hn hdigits ⊢
  split_ifs at hn hdigits ⊢ with hnil
  · rw [length_singleton] at hn
    omega
  · obtain ⟨c, es, hcons, hne⟩ := trimZeros_eq_cons hnil
    rw [hcons] at hn hdigits ⊢
    rw [length_cons] at hn
    exact (Nat.pow_le_pow_right (by omega) (by omega)).trans
      (le_value (hdigits c mem_cons_self) hne)

/-- **Numbers are in the order of their values**: the longer one is the greater. -/
theorem numberCmp_eq (hds : ∀ d ∈ ds, d.isDigit = true) (hes : ∀ d ∈ es, d.isDigit = true) :
    (compare (numberOf ds).length (numberOf es).length).then (seqCmp (numberOf ds) (numberOf es)) =
      compare (value ds) (value es) := by
  have hshort : ∀ {ds es : List Char}, (∀ d ∈ ds, d.isDigit = true) →
      (∀ d ∈ es, d.isDigit = true) → (numberOf ds).length < (numberOf es).length →
        value ds < value es := by
    intro ds es hds hes hlt
    have hpos := length_pos_of_ne_nil (numberOf_ne_nil ds)
    obtain ⟨n, hn⟩ : ∃ n, (numberOf ds).length = n + 1 := ⟨_, (Nat.sub_add_cancel hpos).symm⟩
    have hlow := value_lt (isDigit_numberOf hds)
    rw [value_numberOf, hn] at hlow
    exact hlow.trans_le (le_value_numberOf hes (by omega))
  rcases Nat.lt_trichotomy (numberOf ds).length (numberOf es).length with hlt | heq | hgt
  · rw [Nat.compare_eq_lt.mpr hlt, Ordering.lt_then, Nat.compare_eq_lt.mpr (hshort hds hes hlt)]
  · rw [Nat.compare_eq_eq.mpr heq, Ordering.eq_then,
      seqCmp_eq_of_length (isDigit_numberOf hds) (isDigit_numberOf hes) heq, value_numberOf,
      value_numberOf]
  · rw [Nat.compare_eq_gt.mpr hgt, Ordering.gt_then, Nat.compare_eq_gt.mpr (hshort hes hds hgt)]

instance : LawfulEqCmp charCmp where
  eq_of_compare h := Char.toNat_inj.mp (Nat.compare_eq_eq.mp h)

instance : LawfulEqCmp seqCmp := inferInstanceAs (LawfulEqCmp (List.compareLex charCmp))

/-- Two runs of one number differ in their leading zeros only. -/
theorem trimZeros_eq_of_numberOf (h : numberOf ds = numberOf es) : trimZeros ds = trimZeros es := by
  rw [numberOf, numberOf] at h
  split_ifs at h with hd he he
  · rw [hd, he]
  · obtain ⟨c, cs, hcons, hne⟩ := trimZeros_eq_cons he
    rw [hcons] at h
    exact absurd (List.cons.inj h).1.symm hne
  · obtain ⟨c, cs, hcons, hne⟩ := trimZeros_eq_cons hd
    rw [hcons] at h
    exact absurd (List.cons.inj h).1 hne
  · exact h

theorem length_eq_add (ds : List Char) :
    ds.length = (trimZeros ds).length + leadingZeros ds := by
  have happend := congrArg List.length
    (takeWhile_append_dropWhile (p := (· == '0')) (l := ds))
  rw [length_append] at happend
  rw [leadingZeros, trimZeros, Nat.add_comm]
  exact happend.symm

/-- **The order of two runs of digits.** -/
theorem digitsCmp_eq (hds : ∀ d ∈ ds, d.isDigit = true) (hes : ∀ d ∈ es, d.isDigit = true) :
    digitsCmp ds es =
      (compare (value ds) (value es)).then (compare (leadingZeros ds) (leadingZeros es)) := by
  have hnumber := numberCmp_eq hds hes
  rw [digitsCmp, hnumber]
  by_cases heq : compare (value ds) (value es) = .eq
  · rw [heq, Ordering.then_eq_eq] at hnumber
    have htrim := trimZeros_eq_of_numberOf (LawfulEqCmp.eq_of_compare hnumber.2)
    rw [heq, Ordering.eq_then, Ordering.eq_then, length_eq_add ds, length_eq_add es, htrim,
      compare_add_left]
  · rw [then_of_ne_eq heq, then_of_ne_eq heq]

/-! ### Lines around a run -/

/-- No digit is next to the place between two parts of a line. -/
structure Parts (pre post : List Char) : Prop where
  last : ∀ c ∈ pre.getLast?, c.isDigit = false
  first : ∀ c ∈ post.head?, c.isDigit = false

theorem takeDigitRun_append (hds : ∀ d ∈ ds, d.isDigit = true)
    (hpost : ∀ c ∈ post.head?, c.isDigit = false) : takeDigitRun (ds ++ post) = (ds, post) := by
  rw [takeDigitRun, takeWhile_append_of_pos hds, dropWhile_append_of_pos hds]
  obtain _ | ⟨c, post⟩ := post
  · rw [takeWhile_nil, dropWhile_nil, append_nil]
  · have hc := hpost c rfl
    rw [takeWhile_cons_of_neg (by simp [hc]), dropWhile_cons_of_neg (by simp [hc]),
      append_nil]

/-- A run in the first part of a line ends there, since that part does not end with a digit. -/
theorem takeDigitRun_pre (hlast : ∀ c ∈ pre.getLast?, c.isDigit = false) (hne : pre ≠ [])
    (l : List Char) :
    takeDigitRun (pre ++ l) = ((takeDigitRun pre).1, (takeDigitRun pre).2 ++ l) ∧
      (takeDigitRun pre).2.getLast? = pre.getLast? := by
  have hdrop : pre.dropWhile Char.isDigit ≠ [] := by
    intro hnil
    rw [dropWhile_eq_nil_iff] at hnil
    have hdigit := hnil _ (getLast_mem hne)
    rw [hlast _ (getLast?_eq_some_getLast hne)] at hdigit
    cases hdigit
  have hsplit := takeWhile_append_dropWhile (p := Char.isDigit) (l := pre)
  have htake : (pre.takeWhile Char.isDigit).length ≠ pre.length := by
    intro hlen
    have happend := congrArg List.length hsplit
    rw [length_append, hlen] at happend
    exact hdrop (eq_nil_of_length_eq_zero (by omega))
  constructor
  · rw [takeDigitRun, takeWhile_append, if_neg htake, dropWhile_append,
      if_neg (by simpa using hdrop)]
    rfl
  · rw [takeDigitRun]
    conv_rhs => rw [← hsplit, getLast?_append_of_ne_nil _ hdrop]

namespace Lowering

variable {L : Lowering}

/-- **The tokens of a line around a run.** -/
theorem tokens_run (L : Lowering) (hrun : IsRun ds) (hparts : Parts pre post) :
    L.tokens (pre ++ (ds ++ post)) = L.tokens pre ++ Token.ofRun ds :: L.tokens post := by
  obtain ⟨hlast, hfirst⟩ := hparts
  fun_induction L.tokens pre with
  | case1 =>
    obtain ⟨d, es, rfl⟩ := exists_cons_of_ne_nil hrun.ne_nil
    have htake := takeDigitRun_append hrun.isDigit hfirst
    rw [cons_append] at htake
    rw [nil_append, nil_append, cons_append,
      tokens_cons_of_isDigit (hrun.isDigit d mem_cons_self), htake]
  | case2 c cs hc ih =>
    obtain ⟨htake, hend⟩ := takeDigitRun_pre hlast (cons_ne_nil c cs) (ds ++ post)
    rw [cons_append] at htake
    rw [cons_append, tokens_cons_of_isDigit hc, htake, ih (hend ▸ hlast), cons_append]
  | case3 c cs hc ih =>
    rw [Bool.not_eq_true] at hc
    rw [cons_append, tokens_cons_of_not_isDigit hc, ih, cons_append]
    intro d hd
    obtain _ | ⟨e, es⟩ := cs
    · cases hd
    · exact hlast d (by rwa [getLast?_cons_cons])

end Lowering

/-! ### Orders of lines -/

theorem compareLex_append {α : Type} {cmp : α → α → Ordering} [ReflCmp cmp] (l l₁ l₂ : List α) :
    List.compareLex cmp (l ++ l₁) (l ++ l₂) = List.compareLex cmp l₁ l₂ := by
  induction l with
  | nil => rfl
  | cons a l ih =>
    have hself : cmp a a = .eq := ReflCmp.compare_self
    rw [cons_append, cons_append, List.compareLex_cons_cons, hself, Ordering.eq_then, ih]

theorem charsCmp_run (L : Lowering) (hds : IsRun ds) (hes : IsRun es) (hparts : Parts pre post) :
    L.charsCmp (pre ++ (ds ++ post)) (pre ++ (es ++ post)) =
      (compare (value ds) (value es)).then (compare (leadingZeros ds) (leadingZeros es)) := by
  have hpost : List.compareLex Token.cmp (L.tokens post) (L.tokens post) = .eq :=
    ReflCmp.compare_self
  rw [L.charsCmp_eq, L.tokens_run hds hparts, L.tokens_run hes hparts, compareLex_append,
    List.compareLex_cons_cons, Token.cmp_ofRun, hpost, Ordering.then_eq,
    digitsCmp_eq hds.isDigit hes.isDigit]

instance (L : Lowering) : TransCmp (naturalCmp L) := by
  have heq : naturalCmp L = fun left right =>
      List.compareLex Token.cmp (L.tokens left.toList) (L.tokens right.toList) := by
    funext left right
    exact L.charsCmp_eq left.toList right.toList
  rw [heq]
  exact Token.transCmp_on fun line : String => L.tokens line.toList

theorem then_of_isLE {α : Type} {cmp : α → α → Ordering} [TransCmp cmp] {a b c : α}
    (hab : (cmp a b).isLE) (hbc : (cmp b c).isLE) : cmp a c = (cmp a b).then (cmp b c) := by
  by_cases heq : cmp a b = .eq
  · rw [heq, Ordering.eq_then]
    exact TransCmp.congr_left heq
  · have hlt : cmp a b = .lt := (Ordering.isLE_iff_eq_lt_or_eq_eq.mp hab).resolve_right heq
    rw [hlt, Ordering.lt_then]
    exact TransCmp.lt_of_lt_of_isLE hlt hbc

/-! ### Orders of numbered lines and of groups -/

variable {L : Lowering} {documents : IndexedDocuments} {left right : ℕ}

/-- The text of a line and the name of its file. -/
def lineKey (documents : IndexedDocuments) (lineIndex : ℕ) : String × String :=
  ((documents.line lineIndex).elim "" (·.text), (documents.fileName lineIndex).getD "")

/-- The order of numbered lines. -/
def lineCmp (L : Lowering) : String × String → String × String → Ordering :=
  compareLex (fun s t => naturalCmp L s.1 t.1) (compareOn Prod.snd)

/-- The order of groups by their first lines, where no line comes before any line. -/
def firstCmp (L : Lowering) : Option (String × String) → Option (String × String) → Ordering
  | some s, some t => lineCmp L s t
  | none, some _ => .lt
  | some _, none => .gt
  | none, none => .eq

instance (L : Lowering) : TransCmp (lineCmp L) := by
  have htext : TransCmp fun s t : String × String => naturalCmp L s.1 t.1 :=
    Token.transCmp_on Prod.fst
  unfold lineCmp
  infer_instance

instance (L : Lowering) : TransCmp (firstCmp L) where
  eq_swap {s t} := by
    obtain _ | s := s <;> obtain _ | t := t
    · rfl
    · rfl
    · rfl
    · change lineCmp L s t = (lineCmp L t s).swap
      exact OrientedCmp.eq_swap
  isLE_trans {s t u} hst htu := by
    have htrans : ∀ {s t u}, (lineCmp L s t).isLE → (lineCmp L t u).isLE → (lineCmp L s u).isLE :=
      TransCmp.isLE_trans
    obtain _ | s := s <;> obtain _ | t := t <;> obtain _ | u := u
    all_goals first
      | rfl
      | cases hst
      | cases htu
      | exact htrans hst htu

theorem exists_line (h : left < documents.lines.length) :
    ∃ line name, documents.line left = some line ∧ documents.fileName left = some name := by
  have hget := getElem?_eq_getElem h
  obtain ⟨line, hline⟩ := Option.isSome_iff_exists.mp
    (documents.inBounds _ (getElem_mem h))
  obtain ⟨item, hitem, -⟩ := Option.bind_eq_some_iff.mp hline
  refine ⟨line, item.name, ?_, ?_⟩
  · rw [IndexedDocuments.line, hget, Option.bind_some, hline]
  · simp [IndexedDocuments.fileName, hget, hitem]

theorem matchLineCmp_eq (L : Lowering) (hl : left < documents.lines.length)
    (hr : right < documents.lines.length) :
    matchLineCmp L documents left right =
      some (lineCmp L (lineKey documents left) (lineKey documents right)) := by
  obtain ⟨line, name, hline, hname⟩ := exists_line hl
  obtain ⟨line', name', hline', hname'⟩ := exists_line hr
  simp only [matchLineCmp, hline, hline', hname, hname', Option.bind_eq_bind, Option.bind_some,
    lineCmp, compareLex, compareOn, lineKey, Option.elim_some, Option.getD_some]

theorem matchGroupCmp_eq (L : Lowering) {left right : List ℕ}
    (hl : ∀ i ∈ left, i < documents.lines.length) (hr : ∀ i ∈ right, i < documents.lines.length) :
    matchGroupCmp L documents left right =
      some (firstCmp L (left.head?.map (lineKey documents))
        (right.head?.map (lineKey documents))) := by
  obtain _ | ⟨i, left⟩ := left <;> obtain _ | ⟨j, right⟩ := right
  · rfl
  · rfl
  · rfl
  · exact matchLineCmp_eq L (hl i mem_cons_self) (hr j mem_cons_self)

/-- **The natural order is a total preorder.** Lines that differ in one run are in the order of its
number, then of its leading zeros. The orders of numbered lines and of groups are total preorders
too. -/
theorem naturalCmp_preorder (L : Lowering) :
    (∀ a, naturalCmp L a a = .eq) ∧
    (∀ a b, naturalCmp L b a = (naturalCmp L a b).swap) ∧
    (∀ a b c, (naturalCmp L a b).isLE → (naturalCmp L b c).isLE →
      naturalCmp L a c = (naturalCmp L a b).then (naturalCmp L b c)) ∧
    (∀ pre post ds es, IsRun ds → IsRun es → Parts pre post →
      naturalCmp L (String.ofList (pre ++ (ds ++ post))) (String.ofList (pre ++ (es ++ post))) =
        (compare (value ds) (value es)).then (compare (leadingZeros ds) (leadingZeros es))) ∧
    ∀ documents : IndexedDocuments,
      (∃ cmp : ℕ → ℕ → Ordering, TransCmp cmp ∧ ∀ left right, left < documents.lines.length →
        right < documents.lines.length →
          matchLineCmp L documents left right = some (cmp left right)) ∧
      ∃ cmp : List ℕ → List ℕ → Ordering, TransCmp cmp ∧ ∀ left right,
        (∀ i ∈ left, i < documents.lines.length) → (∀ i ∈ right, i < documents.lines.length) →
          matchGroupCmp L documents left right = some (cmp left right) := by
  refine ⟨fun a => ReflCmp.compare_self, fun a b => OrientedCmp.eq_swap, fun a b c => then_of_isLE,
    fun pre post ds es hds hes hparts => ?_, fun documents => ⟨?_, ?_⟩⟩
  · rw [naturalCmp, String.toList_ofList, String.toList_ofList]
    exact charsCmp_run L hds hes hparts
  · exact ⟨fun left right => lineCmp L (lineKey documents left) (lineKey documents right),
      Token.transCmp_on (lineKey documents), fun left right => matchLineCmp_eq L⟩
  · exact ⟨fun left right => firstCmp L (left.head?.map (lineKey documents))
      (right.head?.map (lineKey documents)),
      Token.transCmp_on fun group : List ℕ => group.head?.map (lineKey documents),
      fun left right => matchGroupCmp_eq L⟩

end RustExample.FindDiff
