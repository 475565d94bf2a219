import RustExample.LinkedVector.LVec

/-!
# The calls under which linked vectors are lists

Calls on linked vectors should do what they do on lists. An append, an insertion or a push always
does. A removal goes one node too few: of the second element it fails, and behind that it takes out
the element before the one that is meant. A pop is a removal at the last position, which an empty
vector does not have.

Source: `lvec_example/src/main.rs`.

* The vectors of a program have names, and those of an `append` are different.
-/

namespace RustExample.LinkedVector

open Function List

variable {ι T : Type}

/-- The calls on vectors. -/
inductive Call (ι T : Type) where
  | push (v : ι) (elem : T)
  | append (v other : ι) (hne : v ≠ other)
  | insert (v : ι) (index : ℕ) (elem : T)
  | remove (v : ι) (index : ℕ)
  | pop (v : ι)
  | clear (v : ι)

/-- The position is the first or past the end, or its element equals the one before. -/
def RemoveFits (l : List T) (index : ℕ) : Prop :=
  index = 0 ∨ l.length ≤ index ∨ 2 ≤ index ∧ l[index - 1]? = l[index]?

namespace Call

variable [DecidableEq ι]

/-- The vectors after a call, and its answer. -/
def run (vs : ι → LVec T) : Call ι T → Option ((ι → LVec T) × Option T)
  | push v elem => do some (update vs v (← (vs v).push elem), none)
  | append v other _ => do
    let (a, b) ← (vs v).append (vs other)
    some (update (update vs v a) other b, none)
  | insert v index elem => do some (update vs v (← (vs v).insert index elem), none)
  | remove v index => do
    let (a, found) ← (vs v).remove index
    some (update vs v a, found)
  | pop v => do
    let (a, found) ← (vs v).pop
    some (update vs v a, found)
  | clear v => some (update vs v (vs v).clear, none)

/-- The lists after a call, and its answer. -/
def onLists (ls : ι → List T) : Call ι T → (ι → List T) × Option T
  | push v elem => (update ls v (ls v ++ [elem]), none)
  | append v other _ => (update (update ls v (ls v ++ ls other)) other [], none)
  | insert v index elem =>
    (update ls v ((ls v).take index ++ elem :: (ls v).drop index), none)
  | remove v index => (update ls v ((ls v).eraseIdx index), (ls v)[index]?)
  | pop v => (update ls v (ls v).dropLast, (ls v).getLast?)
  | clear v => (update ls v [], none)

/-- A pop fits if there is a last element, and its removal fits. -/
def Fits (ls : ι → List T) : Call ι T → Prop
  | remove v index => RemoveFits (ls v) index
  | pop v => ls v ≠ [] ∧ RemoveFits (ls v) ((ls v).length - 1)
  | push _ _ | append _ _ _ | insert _ _ _ | clear _ => True

end Call

/-! ### Lists of calls -/

section Calls

variable [DecidableEq ι]

/-- The answers of some calls. -/
def runAll : (ι → LVec T) → List (Call ι T) → Option ((ι → LVec T) × List (Option T))
  | vs, [] => some (vs, [])
  | vs, call :: calls => do
    let (vs, answer) ← call.run vs
    let (vs, answers) ← runAll vs calls
    some (vs, answer :: answers)

/-- The answers on lists. -/
def onListsAll : (ι → List T) → List (Call ι T) → (ι → List T) × List (Option T)
  | ls, [] => (ls, [])
  | ls, call :: calls =>
    ((onListsAll (call.onLists ls).1 calls).1,
      (call.onLists ls).2 :: (onListsAll (call.onLists ls).1 calls).2)

/-- Starting with empty vectors no call fails, every answer is that on lists, and the vectors are
those of the lists afterwards. -/
def Follows (calls : List (Call ι T)) : Prop :=
  ∃ vs, runAll (fun _ => LVec.new) calls = some (vs, (onListsAll (fun _ => []) calls).2) ∧
    ∀ v, (vs v).Holds ((onListsAll (fun _ => []) calls).1 v)

/-- Every call fits the lists by then. -/
def AllFit : (ι → List T) → List (Call ι T) → Prop
  | _, [] => True
  | ls, call :: calls => call.Fits ls ∧ AllFit (call.onLists ls).1 calls

end Calls

/-! ### Removals -/

variable {l : List T}

theorem eraseIdx_pred_eq {index : ℕ} (hpos : 0 < index) (heq : l[index - 1]? = l[index]?) :
    l.eraseIdx (index - 1) = l.eraseIdx index := by
  ext1 j
  rw [getElem?_eraseIdx, getElem?_eraseIdx]
  split_ifs with h₁ h₂ h₂
  · rfl
  · omega
  · obtain rfl : j = index - 1 := by omega
    rw [Nat.sub_add_cancel hpos, heq]
  · rfl

/-- **A removal that fits** does what it should. -/
theorem LVec.Holds.remove_of_fits {v : LVec T} (h : v.Holds l) {index : ℕ}
    (hfits : RemoveFits l index) :
    ∃ v', v.remove index = some (v', l[index]?) ∧ v'.Holds (l.eraseIdx index) := by
  rcases Nat.lt_or_ge index l.length with hlt | hge
  · rcases hfits with rfl | hle | ⟨htwo, heq⟩
    · obtain ⟨a, l, rfl⟩ := exists_cons_of_length_pos hlt
      exact h.remove_zero
    · omega
    · obtain ⟨v', hrun, hv'⟩ := h.remove_of_two_le htwo hlt
      rw [eraseIdx_pred_eq (by omega) heq] at hv'
      exact ⟨v', by rw [hrun, heq], hv'⟩
  · refine ⟨v, ?_, ?_⟩
    · rw [h.remove_of_le hge, getElem?_eq_none hge]
    · rwa [eraseIdx_of_length_le hge]

theorem LVec.Holds.removeFits {v v' : LVec T} (h : v.Holds l) {index : ℕ}
    (hrun : v.remove index = some (v', l[index]?)) : RemoveFits l index := by
  rcases Nat.lt_or_ge index l.length with hlt | hge
  · obtain rfl | rfl | htwo : index = 0 ∨ index = 1 ∨ 2 ≤ index := by omega
    · exact .inl rfl
    · rw [h.remove_one hlt] at hrun
      cases hrun
    · obtain ⟨v'', hrun', -⟩ := h.remove_of_two_le htwo hlt
      rw [hrun'] at hrun
      exact .inr (.inr ⟨htwo, congrArg Prod.snd (Option.some.inj hrun)⟩)
  · exact .inr (.inl hge)

theorem LVec.Holds.pop_eq {v : LVec T} (h : v.Holds l) (hne : l ≠ []) :
    v.pop = v.remove (l.length - 1) := by
  have hpos : 1 ≤ l.length := length_pos_of_ne_nil hne
  rw [LVec.pop, h.size, checkedSub_of_le hpos, Option.bind_eq_bind, Option.bind_some]

theorem LVec.Holds.pop_nil {v : LVec T} (h : v.Holds []) : v.pop = none := by
  rw [LVec.pop, h.size, checkedSub_of_lt (by simp)]
  rfl

/-! ### One call -/

section Calls

variable [DecidableEq ι] {vs : ι → LVec T} {ls : ι → List T} {call : Call ι T}
  {calls : List (Call ι T)}

theorem holds_update (h : ∀ v, (vs v).Holds (ls v)) {v : ι} {a : LVec T} (ha : a.Holds l) (w : ι) :
    (update vs v a w).Holds (update ls v l w) := by
  rw [update_apply, update_apply]
  split_ifs
  · exact ha
  · exact h w

/-- **A call that fits** does what it should. -/
theorem Call.run_of_fits (h : ∀ v, (vs v).Holds (ls v)) (hfits : call.Fits ls) :
    ∃ vs', call.run vs = some (vs', (call.onLists ls).2) ∧
      ∀ v, (vs' v).Holds ((call.onLists ls).1 v) := by
  cases call with
  | push v elem =>
    obtain ⟨v', hrun, hv'⟩ := (h v).push elem
    exact ⟨_, by rw [run, hrun]; rfl, holds_update h hv'⟩
  | append v other hne =>
    obtain ⟨v', hrun, hv'⟩ := (h v).append (h other)
    exact ⟨_, by rw [run, hrun]; rfl, holds_update (holds_update h hv') (vs other).holds_clear⟩
  | insert v index elem =>
    obtain ⟨v', hrun, hv'⟩ := (h v).insert index elem
    exact ⟨_, by rw [run, hrun]; rfl, holds_update h hv'⟩
  | remove v index =>
    obtain ⟨v', hrun, hv'⟩ := (h v).remove_of_fits hfits
    exact ⟨_, by rw [run, hrun]; rfl, holds_update h hv'⟩
  | pop v =>
    obtain ⟨v', hrun, hv'⟩ := (h v).remove_of_fits hfits.2
    rw [eraseIdx_length_sub_one] at hv'
    exact ⟨_, by rw [run, (h v).pop_eq hfits.1, hrun, onLists, getLast?_eq_getElem?]; rfl,
      holds_update h hv'⟩
  | clear v => exact ⟨_, rfl, holds_update h (vs v).holds_clear⟩

theorem Call.fits_of_run (h : ∀ v, (vs v).Holds (ls v)) {vs' : ι → LVec T}
    (hrun : call.run vs = some (vs', (call.onLists ls).2)) : call.Fits ls := by
  cases call with
  | remove v index =>
    obtain ⟨⟨v', found⟩, hremove, heq⟩ := Option.bind_eq_some_iff.mp hrun
    obtain ⟨-, rfl⟩ := Prod.mk.inj (Option.some.inj heq)
    exact (h v).removeFits hremove
  | pop v =>
    obtain ⟨⟨v', found⟩, hpop, heq⟩ := Option.bind_eq_some_iff.mp hrun
    obtain ⟨-, hfound⟩ := Prod.mk.inj (Option.some.inj heq)
    have hne : ls v ≠ [] := fun hnil => by
      rw [(hnil ▸ h v : (vs v).Holds []).pop_nil] at hpop
      cases hpop
    rw [(h v).pop_eq hne, show found = (ls v).getLast? from hfound,
      getLast?_eq_getElem?] at hpop
    exact ⟨hne, (h v).removeFits hpop⟩
  | _ => trivial

/-! ### All calls -/

theorem runAll_iff (h : ∀ v, (vs v).Holds (ls v)) :
    (∃ vs', runAll vs calls = some (vs', (onListsAll ls calls).2) ∧
      ∀ v, (vs' v).Holds ((onListsAll ls calls).1 v)) ↔ AllFit ls calls := by
  induction calls generalizing vs ls with
  | nil => exact iff_of_true ⟨vs, rfl, h⟩ trivial
  | cons call calls ih =>
    constructor
    · rintro ⟨vs', hrun, hvs'⟩
      obtain ⟨⟨vs₁, answer⟩, hcall, hrest⟩ := Option.bind_eq_some_iff.mp hrun
      obtain ⟨⟨vs₂, answers⟩, hcalls, heq⟩ := Option.bind_eq_some_iff.mp hrest
      obtain ⟨rfl, hanswers⟩ := Prod.mk.inj (Option.some.inj heq)
      obtain ⟨rfl, rfl⟩ := List.cons.inj hanswers
      have hfits := call.fits_of_run h hcall
      obtain ⟨vs₁', hcall', h₁⟩ := call.run_of_fits h hfits
      obtain rfl : vs₁ = vs₁' := congrArg Prod.fst (Option.some.inj (hcall.symm.trans hcall'))
      exact ⟨hfits, (ih h₁).mp ⟨vs₂, hcalls, hvs'⟩⟩
    · rintro ⟨hfits, hfit⟩
      obtain ⟨vs₁, hcall, h₁⟩ := call.run_of_fits h hfits
      obtain ⟨vs₂, hrest, h₂⟩ := (ih h₁).mpr hfit
      exact ⟨vs₂, by simp [runAll, onListsAll, hcall, hrest], h₂⟩

/-- **Calls that fit.** Calls on linked vectors do what they do on lists exactly if every one of
them fits the lists by then. -/
theorem follows_iff (calls : List (Call ι T)) : Follows calls ↔ AllFit (fun _ => []) calls :=
  runAll_iff fun _ => LVec.holds_new

end Calls

/-- The second of two elements is to be removed. -/
def removesSecond : List (Call Unit ℕ) := [.push () 8, .push () 9, .remove () 1]

/-- The third of three elements is to be removed. -/
def removesThird : List (Call Unit ℕ) := [.push () 7, .push () 8, .push () 9, .remove () 2]

/-- The first removal fails, and the second takes out the element before the one that is meant. -/
theorem second_not_removed :
    ¬Follows removesSecond ∧ ¬Follows removesThird ∧
      (runAll (fun _ => LVec.new) removesSecond).isNone ∧
      (runAll (fun _ => LVec.new) removesThird).map (fun r => (elems (r.1 ()).head, r.2)) =
        some ([7, 9], [none, none, none, some 8]) := by
  refine ⟨fun h => ?_, fun h => ?_, rfl, rfl⟩
  · obtain ⟨vs, hrun, -⟩ := h
    cases hrun
  · obtain ⟨vs, hrun, -⟩ := h
    have hanswers : (runAll (fun _ => LVec.new) removesThird).map Prod.snd =
        some (onListsAll (fun _ => []) removesThird).2 := by rw [hrun]; rfl
    revert hanswers
    decide

end RustExample.LinkedVector
