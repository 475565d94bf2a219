import Mathlib.Data.List.Infix

/-!
# Borders, and the first entries of a pattern at the end of a text

A scan of a text holds a first part of the pattern that the text read so far ends with. After a
mismatch it goes on with a border of that part: with fewer entries that the part ends with. The
longest border misses no place where the pattern stands.
-/

namespace RustExample

open List

variable {α : Type*} {p t : List α} {i j b c s : ℕ}

/-- The pattern `p` stands in the text `t` at `s`. -/
def StandsAt (p t : List α) (s : ℕ) : Prop := p <+: t.drop s

instance [DecidableEq α] : Decidable (StandsAt p t s) := inferInstanceAs (Decidable (_ <+: _))

/-- The first `i` entries of the text end with the first `j` entries of the pattern. -/
def Held (p t : List α) (i j : ℕ) : Prop :=
  j ≤ p.length ∧ i ≤ t.length ∧ p.take j <:+ t.take i

/-- The first `j` entries of `p` end with their first `b`, and not with these alone. -/
def IsBorder (p : List α) (j b : ℕ) : Prop := b < j ∧ Held p p j b

/-- The longest border of the first `j` entries. -/
def IsLongestBorder (p : List α) (j b : ℕ) : Prop := IsBorder p j b ∧ ∀ c, IsBorder p j c → c ≤ b

/-! ### Places of the pattern -/

theorem StandsAt.getElem? (h : StandsAt p t s) (hj : j < p.length) : t[s + j]? = p[j]? := by
  obtain ⟨rest, hrest⟩ := h
  rw [← getElem?_drop, ← hrest, getElem?_append_left hj]

theorem StandsAt.le (h : StandsAt p t s) (hp : p ≠ []) : s + p.length ≤ t.length := by
  have hlen := h.length_le
  have hpos := List.length_pos_iff.mpr hp
  rw [length_drop] at hlen
  omega

/-! ### What is held -/

theorem Held.le (h : Held p t i j) : j ≤ i := by
  have hlen := h.2.2.length_le
  have hj := h.1
  rw [length_take, length_take] at hlen
  omega

theorem held_zero (hi : i ≤ t.length) : Held p t i 0 :=
  ⟨Nat.zero_le _, hi, by rw [take_zero]; exact nil_suffix⟩

/-- **One more entry is held exactly if it is the next one of the pattern.** -/
theorem held_succ_iff (hj : j < p.length) (hi : i < t.length) :
    Held p t (i + 1) (j + 1) ↔ Held p t i j ∧ p[j]? = t[i]? := by
  rw [Held, Held, take_succ_eq_append_getElem hj, take_succ_eq_append_getElem hi,
    getElem?_eq_getElem hj, getElem?_eq_getElem hi, Option.some_inj]
  constructor
  · rintro ⟨-, -, rest, hrest⟩
    rw [← append_assoc, append_singleton_inj] at hrest
    exact ⟨⟨hj.le, hi.le, rest, hrest.1⟩, hrest.2⟩
  · rintro ⟨⟨-, -, rest, hrest⟩, heq⟩
    exact ⟨hj, hi, rest, by rw [← append_assoc, hrest, heq]⟩

theorem Held.succ (h : Held p t i j) (hj : j < p.length) (hi : i < t.length)
    (heq : p[j]? = t[i]?) : Held p t (i + 1) (j + 1) := (held_succ_iff hj hi).mpr ⟨h, heq⟩

theorem Held.getElem? (h : Held p t i j) {q : ℕ} (hq : q < j) : p[q]? = t[i - j + q]? := by
  have hji := h.le
  obtain ⟨hj, hi, rest, hrest⟩ := h
  have hlen := congrArg List.length hrest
  rw [length_append, length_take, length_take] at hlen
  have hrestLen : rest.length = i - j := by omega
  have htake : (p.take j)[q]? = (t.take i)[i - j + q]? := by
    rw [← hrest, ← hrestLen, getElem?_append_right (Nat.le_add_right _ _),
      Nat.add_sub_cancel_left]
  rwa [getElem?_take_of_lt hq, getElem?_take_of_lt (by omega)] at htake

/-- A shorter part that is held is held by the longer one. -/
theorem Held.held (hj : Held p t i j) (hb : Held p t i b) (hle : b ≤ j) : Held p p j b := by
  refine ⟨hb.1, hj.1, suffix_of_suffix_length_le hb.2.2 hj.2.2 ?_⟩
  rw [length_take, length_take]
  omega

theorem Held.trans (hj : Held p t i j) (hb : Held p p j b) : Held p t i b :=
  ⟨hb.1, hj.2.1, hb.2.2.trans hj.2.2⟩

theorem Held.standsAt (h : Held p t i p.length) : StandsAt p t (i - p.length) := by
  obtain ⟨-, hi, rest, hrest⟩ := h
  have hlen := congrArg List.length hrest
  rw [take_length, length_append, length_take] at hlen
  have hat : i - p.length = rest.length := by omega
  rw [StandsAt, hat, ← take_append_drop i t, ← hrest, take_length, append_assoc,
    drop_left]
  exact prefix_append _ _

theorem Held.standsAt_of_agree (h : Held p t i j) (hj : j + 1 = p.length) (hi : i < t.length)
    (heq : p[j]? = t[i]?) : StandsAt p t (i - j) := by
  have hplace := (hj ▸ h.succ (by omega) hi heq : Held p t (i + 1) p.length).standsAt
  rwa [← hj, Nat.add_sub_add_right] at hplace

/-- A place that has been begun: the entries read from it on are held. -/
theorem StandsAt.held (h : StandsAt p t s) (hs : s ≤ i) (hi : i ≤ t.length)
    (hlt : i ≤ s + p.length) : Held p t i (i - s) := by
  obtain ⟨rest, hrest⟩ := h
  refine ⟨by omega, hi, t.take s, ?_⟩
  have htake : p.take (i - s) = (t.drop s).take (i - s) := by
    rw [← hrest, take_append_of_le_length (by omega)]
  rw [htake, ← take_add, Nat.add_sub_cancel' hs]

/-- **No place is passed over** when the longest border takes the place of what is held. -/
theorem Held.not_standsAt (h : Held p t i j) (hb : ∀ c, IsBorder p j c → c ≤ b)
    (hlo : i - j < s) (hhi : s < i - b) : ¬ StandsAt p t s := by
  intro hs
  have hj := h.1
  have hheld := hs.held (by omega) h.2.1 (by omega)
  have hle := hb (i - s) ⟨by omega, h.held hheld (by omega)⟩
  omega

/-! ### The longest border of the next part -/

/-- A border of `i` entries that reaches all borders of the next part but for one entry. -/
def BorderCandidate (p : List α) (i c : ℕ) : Prop :=
  IsBorder p i c ∧ ∀ b, IsBorder p (i + 1) b → b ≤ c + 1

theorem IsLongestBorder.le (h : IsLongestBorder p i b) : b < i := h.1.1

/-- A border of the next part is a border that has grown. -/
theorem IsBorder.pred (h : IsBorder p (i + 1) (b + 1)) :
    IsBorder p i b ∧ p[b]? = p[i]? := by
  obtain ⟨hlt, hheld⟩ := h
  obtain ⟨hi, hb⟩ : i < p.length ∧ b < p.length := ⟨hheld.2.1, hheld.1⟩
  obtain ⟨hheld, heq⟩ := (held_succ_iff hb hi).mp hheld
  exact ⟨⟨by omega, hheld⟩, heq⟩

theorem IsLongestBorder.candidate (h : IsLongestBorder p i b) : BorderCandidate p i b := by
  refine ⟨h.1, fun c hc => ?_⟩
  cases c with
  | zero => exact Nat.zero_le _
  | succ c => exact Nat.succ_le_succ (h.2 c hc.pred.1)

theorem BorderCandidate.grow (h : BorderCandidate p i c) (hi : i < p.length)
    (heq : p[c]? = p[i]?) : IsLongestBorder p (i + 1) (c + 1) :=
  ⟨⟨Nat.succ_lt_succ h.1.1, h.1.2.succ (by have := h.1.1; omega) hi heq⟩, h.2⟩

/-- The candidate falls back to its own longest border. -/
theorem BorderCandidate.fallBack (h : BorderCandidate p i c) (hne : p[c]? ≠ p[i]?)
    (hb : IsLongestBorder p c b) : BorderCandidate p i b := by
  refine ⟨⟨hb.le.trans h.1.1, h.1.2.trans hb.1.2⟩, fun d hd => ?_⟩
  cases d with
  | zero => exact Nat.zero_le _
  | succ d =>
    obtain ⟨hborder, heq⟩ := hd.pred
    have hle := h.2 (d + 1) hd
    have hdc : d ≠ c := fun hdc => hne (hdc ▸ heq)
    exact Nat.succ_le_succ (hb.2 d ⟨by omega, h.1.2.held hborder.2 (by omega)⟩)

theorem BorderCandidate.stay (h : BorderCandidate p i 0) (hi : i < p.length)
    (hne : p[0]? ≠ p[i]?) : IsLongestBorder p (i + 1) 0 := by
  refine ⟨⟨Nat.succ_pos i, held_zero hi⟩, fun d hd => ?_⟩
  cases d with
  | zero => exact Nat.le_refl _
  | succ d =>
    have hle := h.2 (d + 1) hd
    obtain rfl : d = 0 := by omega
    exact absurd hd.pred.2 hne

theorem isLongestBorder_one (hp : p ≠ []) : IsLongestBorder p 1 0 :=
  ⟨⟨Nat.one_pos, held_zero (List.length_pos_iff.mpr hp)⟩, fun _ hc => Nat.le_of_lt_succ hc.1⟩

end RustExample
