import Mathlib.Data.List.ReduceOption
import RustExample.MessageHeap.Checker

/-!
# The removals that keep the order of the heap

A removal goes down only while a position has two positions below it. With an even number of
entries left the last position that has one below it has no second one, and the entry below it is
never looked at. The order breaks if the entry that goes down gets there and is less.

Source: `heap_example/src/lib.rs`.
-/

namespace RustExample.MessageHeap

open MessageNotification List

/-- The positions to which an entry that is less than all others goes down from the root. -/
inductive OnPath (heap : Heap) : ℕ → Prop
  | root : OnPath heap 1
  | left {p : ℕ} (h : OnPath heap p)
      (hmore : hasMoreMessages heap (p * 2) (p * 2 + 1) = some true) : OnPath heap (p * 2)
  | right {p : ℕ} (h : OnPath heap p)
      (hmore : hasMoreMessages heap (p * 2) (p * 2 + 1) = some false) : OnPath heap (p * 2 + 1)

/-- An even number of entries stays, the path leads above the last of them, and the entry going down
has fewer messages than that one. -/
def SkipsLastChild (heap : Heap) : Prop :=
  ∃ k a b, heap.length = k * 2 + 1 ∧ OnPath heap k ∧ slot heap (k * 2 + 1) = some a ∧
    slot heap (k * 2) = some b ∧ a.noMessages < b.noMessages

variable {heap heap' : Heap} {p q k : ℕ} {a b : MessageNotification}

/-! ### The path -/

theorem OnPath.pos (h : OnPath heap p) : 1 ≤ p := by
  induction h <;> omega

theorem OnPath.half (h : OnPath heap p) (hp : 2 ≤ p) : OnPath heap (p / 2) := by
  cases h with
  | root => omega
  | @left p h hmore => rwa [Nat.mul_div_cancel p (by omega)]
  | @right p h hmore => rwa [show (p * 2 + 1) / 2 = p by omega]

theorem OnPath.above (h : OnPath heap p) (d : ℕ) (hd : 1 ≤ p / 2 ^ d) :
    OnPath heap (p / 2 ^ d) := by
  induction d generalizing p with
  | zero => simpa using h
  | succ d ih =>
    rw [Nat.pow_succ', ← Nat.div_div_eq_div_mul] at hd ⊢
    have hle : p / 2 / 2 ^ d ≤ p / 2 := Nat.div_le_self _ _
    exact ih (h.half (by omega)) hd

theorem OnPath.eq_of_half (hp : OnPath heap p) (hq : OnPath heap q) (hp2 : 2 ≤ p) (hq2 : 2 ≤ q)
    (hhalf : p / 2 = q / 2) : p = q := by
  have hmore : ∀ {p}, OnPath heap p → 2 ≤ p →
      hasMoreMessages heap (p / 2 * 2) (p / 2 * 2 + 1) = some (decide (p % 2 = 0)) := by
    intro p h h2
    cases h with
    | root => omega
    | @left p h hmore => simpa using hmore
    | @right p h hmore => simpa [show (p * 2 + 1) / 2 = p by omega, Nat.add_mod] using hmore
  have hmp := hmore hp hp2
  rw [hhalf, hmore hq hq2] at hmp
  have hiff := decide_eq_decide.mp (Option.some.inj hmp)
  omega

theorem hasMoreMessages_congr {p' q' : ℕ} (hp : slot heap p = slot heap' p')
    (hq : slot heap q = slot heap' q') :
    hasMoreMessages heap p q = hasMoreMessages heap' p' q' := by
  rw [hasMoreMessages, hasMoreMessages, hp, hq]

/-! ### Removals -/

/-- The loop of a removal: `a` has come down to `i`, and all below is as before. -/
structure Sinking (heap rest : Heap) (a : MessageNotification) (heap₁ : Heap) (i : ℕ) : Prop where
  perm : heap₁.Perm rest
  pos : 1 ≤ i
  le : i ≤ rest.length
  sinks : SinksAt 1 (ranks MessageNotification.noMessages heap₁) i
  here : slot heap₁ i = some a
  below : ∀ q, i < q → q ≤ rest.length → slot heap₁ q = slot heap q
  path : OnPath heap i
  /-- If the last child is skipped, the path to it leads on from here. -/
  toward : ∀ k, heap.length = k * 2 + 1 → OnPath heap k → (∃ a b, slot heap (k * 2 + 1) = some a ∧
    slot heap (k * 2) = some b ∧ a.noMessages < b.noMessages) → ∃ d, i = k / 2 ^ d

namespace Sinking

variable {rest heap₁ : Heap} {i : ℕ}

theorem slot_eq_none (h : Sinking heap rest a heap₁ i) (hq : rest.length < q) :
    slot heap₁ q = none := by
  by_contra hne
  have hle := (slot_ne_none_iff.mp hne).2
  rw [h.perm.length_eq] at hle
  omega

theorem exists_child (h : Sinking heap rest a heap₁ i) (hlt : i * 2 < rest.length) :
    ∃ child c, OnPath heap child ∧ child / 2 = i ∧ 2 ≤ child ∧ child ≤ rest.length ∧
      slot heap₁ child = some c ∧
      (∀ q z, q / 2 = i → 2 ≤ q → ranks noMessages heap₁ q = some z →
        z ≤ c.noMessages) ∧
      sinkRound rest.length (heap₁, i) =
        if a.noMessages ≤ c.noMessages then
          (swap heap₁ i child).bind fun heap₂ => some (.again (heap₂, child))
        else some (.done heap₁) := by
  have hlen := h.perm.length_eq
  have hpos := h.pos
  obtain ⟨c₀, hc₀⟩ := exists_slot (l := heap₁) (p := i * 2) (by omega) (by omega)
  obtain ⟨c₁, hc₁⟩ := exists_slot (l := heap₁) (p := i * 2 + 1) (by omega) (by omega)
  have hmore := hasMoreMessages_of_slot hc₀ hc₁
  have hmore' : hasMoreMessages heap (i * 2) (i * 2 + 1) =
      some (decide (c₁.noMessages ≤ c₀.noMessages)) := by
    rw [← hmore]
    exact hasMoreMessages_congr (h.below _ (by omega) (by omega)).symm
      (h.below _ (by omega) (by omega)).symm
  have hmax : ∀ n, c₀.noMessages ≤ n → c₁.noMessages ≤ n → ∀ q z, q / 2 = i → 2 ≤ q →
      ranks noMessages heap₁ q = some z → z ≤ n := by
    intro n h₀ h₁ q z hq hq2 hz
    obtain rfl | rfl : q = i * 2 ∨ q = i * 2 + 1 := by omega
    · rw [ranks_eq_some hc₀] at hz
      exact Option.some.inj hz ▸ h₀
    · rw [ranks_eq_some hc₁] at hz
      exact Option.some.inj hz ▸ h₁
  by_cases hle : c₁.noMessages ≤ c₀.noMessages
  · refine ⟨i * 2, c₀, h.path.left (by simp [hmore', hle]), by omega, by omega, by omega, hc₀,
      hmax _ le_rfl hle, ?_⟩
    have hdown := hasMoreMessages_of_slot hc₀ h.here
    simp [sinkRound, hlt, hmore, hle, hdown]
  · refine ⟨i * 2 + 1, c₁, h.path.right (by simp [hmore', hle]), by omega, by omega, by omega, hc₁,
      hmax _ (by omega) le_rfl, ?_⟩
    have hdown := hasMoreMessages_of_slot hc₁ h.here
    simp [sinkRound, hlt, hmore, hle, hdown]

/-- The path to the last child leads on to the child that is looked at. -/
theorem toward_child (h : Sinking heap rest a heap₁ i) {child : ℕ} (hchild : OnPath heap child)
    (hhalf : child / 2 = i) (hchild2 : 2 ≤ child) (hk : heap.length = k * 2 + 1)
    (hlt : i * 2 < k * 2) (hpath : OnPath heap k)
    (hskip : ∃ a b, slot heap (k * 2 + 1) = some a ∧ slot heap (k * 2) = some b ∧
      a.noMessages < b.noMessages) : ∃ d, child = k / 2 ^ d := by
  obtain ⟨d, hd⟩ := h.toward k hk hpath hskip
  have hpos := h.pos
  obtain _ | d := d
  · rw [Nat.pow_zero, Nat.div_one] at hd
    omega
  · rw [Nat.pow_succ, ← Nat.div_div_eq_div_mul] at hd
    have hon : OnPath heap (k / 2 ^ d) := hpath.above d (by omega)
    exact ⟨d, hchild.eq_of_half hon hchild2 (by omega) (by omega)⟩

/-- The entry goes down to the child that is looked at. -/
theorem move (h : Sinking heap rest a heap₁ i) (hlen : heap.length = rest.length + 1)
    (hlt : i * 2 < rest.length) {child : ℕ} {c : MessageNotification}
    (hchild : OnPath heap child) (hhalf : child / 2 = i) (hchild2 : 2 ≤ child)
    (hle : child ≤ rest.length) (hc : slot heap₁ child = some c)
    (hmax : ∀ q z, q / 2 = i → 2 ≤ q →
      ranks noMessages heap₁ q = some z → z ≤ c.noMessages)
    (hac : a.noMessages ≤ c.noMessages) :
    ∃ heap₂, swap heap₁ i child = some heap₂ ∧ Sinking heap rest a heap₂ child := by
  have hpos := h.pos
  have hi := h.le
  have hlen₁ := h.perm.length_eq
  obtain ⟨heap₂, hrun, hperm, hslot, hranks⟩ := exists_swap heap₁ (p := i) (q := child)
    hpos (by omega) (by omega) (by omega)
  refine ⟨heap₂, hrun, hperm.trans h.perm, by omega, hle, ?_, ?_, fun q hq hql => ?_, hchild, ?_⟩
  · rw [hranks]
    exact h.sinks.swap hchild2 hhalf (ranks_eq_some hc) (ranks_eq_some h.here) hac hmax
  · simp [hslot, h.here]
  · rw [hslot, Function.comp_apply, Equiv.swap_apply_of_ne_of_ne (by omega) (by omega)]
    exact h.below q (by omega) hql
  · exact fun k hk => h.toward_child hchild hhalf hchild2 hk (by omega)

/-- The entry rests above a child that is less: the order is kept, and no child is skipped. -/
theorem rest_above (h : Sinking heap rest a heap₁ i)
    (horder : HeapOrdered 1 (ranks noMessages heap))
    (hlen : heap.length = rest.length + 1) (hlast : slot heap heap.length = some a)
    (hlt : i * 2 < rest.length) {child : ℕ} {c : MessageNotification}
    (hchild : OnPath heap child) (hhalf : child / 2 = i) (hchild2 : 2 ≤ child)
    (hle : child ≤ rest.length) (hc : slot heap₁ child = some c)
    (hmax : ∀ q z, q / 2 = i → 2 ≤ q →
      ranks noMessages heap₁ q = some z → z ≤ c.noMessages)
    (hca : c.noMessages < a.noMessages) :
    HeapOrdered 1 (ranks noMessages heap₁) ∧ ¬SkipsLastChild heap := by
  refine ⟨h.sinks.heapOrdered fun q x y hq hq2 hx hy => ?_, ?_⟩
  · rw [ranks_eq_some h.here] at hy
    obtain ⟨⟩ := hy
    exact (hmax q x hq hq2 hx).trans hca.le
  · -- the last child is below this one, and not greater
    rintro ⟨k, a', b, hk, hpath, ha', hb, hab⟩
    obtain ⟨d, hd⟩ := h.toward_child hchild hhalf hchild2 hk (by omega) hpath ⟨a', b, ha', hb, hab⟩
    rw [hk, ha'] at hlast
    obtain ⟨⟩ := hlast
    have hup : k * 2 / 2 ^ (d + 1) = child := by
      rw [Nat.pow_succ', ← Nat.div_div_eq_div_mul, Nat.mul_div_cancel k (by omega), hd]
    have hcheap : slot heap (k * 2 / 2 ^ (d + 1)) = some c := by
      rw [hup, ← hc]
      exact (h.below child (by omega) hle).symm
    have hbc := horder.le_above (ranks_closed _ heap) (d + 1) (by omega) (ranks_eq_some hb)
      (ranks_eq_some hcheap)
    omega

/-- The entry is at its place. The order is kept exactly if a last child below is not greater. -/
theorem bottom (h : Sinking heap rest a heap₁ i) (hlen : heap.length = rest.length + 1)
    (hlast : slot heap heap.length = some a) (hge : rest.length ≤ i * 2) :
    HeapOrdered 1 (ranks noMessages heap₁) ↔ ¬SkipsLastChild heap := by
  have hpos := h.pos
  have hlen₁ := h.perm.length_eq
  by_cases hodd : i * 2 = rest.length
  · obtain ⟨b, hb⟩ := exists_slot (l := heap₁) (p := i * 2) (by omega) (by omega)
    have hbheap : slot heap (i * 2) = some b := by
      rw [← hb]
      exact (h.below _ (by omega) (by omega)).symm
    have hlast' : slot heap (i * 2 + 1) = some a := by rwa [hodd, ← hlen]
    by_cases hle : b.noMessages ≤ a.noMessages
    · refine iff_of_true (h.sinks.heapOrdered fun q x y hq hq2 hx hy => ?_) ?_
      · rw [ranks_eq_some h.here] at hy
        obtain ⟨⟩ := hy
        obtain rfl | hlt : q = i * 2 ∨ rest.length < q := by omega
        · rw [ranks_eq_some hb] at hx
          exact Option.some.inj hx ▸ hle
        · rw [ranks, h.slot_eq_none hlt] at hx
          cases hx
      · rintro ⟨k, a', b', hk, -, ha', hb', hab⟩
        obtain rfl : k = i := by omega
        obtain ⟨⟩ := hlast'.symm.trans ha'
        obtain ⟨⟩ := hbheap.symm.trans hb'
        omega
    · refine iff_of_false (fun hordered => hle ?_) ?_
      · exact hordered (i * 2) _ _ (by omega) (by omega) (ranks_eq_some hb)
          (by rw [Nat.mul_div_cancel i (by omega)]; exact ranks_eq_some h.here)
      · exact not_not.mpr ⟨i, a, b, by omega, h.path, hlast', hbheap, by omega⟩
  · refine iff_of_true (h.sinks.heapOrdered fun q x y hq hq2 hx hy => ?_) ?_
    · rw [ranks, h.slot_eq_none (by omega)] at hx
      cases hx
    · rintro ⟨k, a', b, hk, hpath, hskip⟩
      obtain ⟨d, hd⟩ := h.toward k hk hpath ⟨a', b, hskip⟩
      have : k / 2 ^ d ≤ k := Nat.div_le_self _ _
      omega

/-- **The loop of a removal.** The order is kept exactly if the last child is not skipped. -/
theorem exists_sink (h : Sinking heap rest a heap₁ i)
    (horder : HeapOrdered 1 (ranks noMessages heap))
    (hlen : heap.length = rest.length + 1) (hlast : slot heap heap.length = some a) {bound : ℕ}
    (hbound : rest.length - i < bound) :
    ∃ heap', loop (sinkRound rest.length) bound (heap₁, i) = some heap' ∧ heap'.Perm rest ∧
      (HeapOrdered 1 (ranks noMessages heap') ↔ ¬SkipsLastChild heap) := by
  refine loop_spec (I := fun s : Heap × ℕ => Sinking heap rest a s.1 s.2)
    (fun s => rest.length - s.2) ?_ h hbound
  rintro ⟨heap₁, i⟩ h
  dsimp only at h ⊢
  rcases Nat.lt_or_ge (i * 2) rest.length with hlt | hge
  · obtain ⟨child, c, hchild, hhalf, hchild2, hle, hc, hmax, hround⟩ := h.exists_child hlt
    rw [hround]
    by_cases hac : a.noMessages ≤ c.noMessages
    · obtain ⟨heap₂, hrun, h₂⟩ := h.move hlen hlt hchild hhalf hchild2 hle hc hmax hac
      exact .inl ⟨(heap₂, child), by rw [if_pos hac, hrun]; rfl, h₂, by omega⟩
    · obtain ⟨hordered, hnot⟩ := h.rest_above horder hlen hlast hlt hchild hhalf hchild2 hle hc hmax
        (by omega)
      exact .inr ⟨heap₁, if_neg hac, h.perm, iff_of_true hordered hnot⟩
  · exact .inr ⟨heap₁, if_neg (by omega), h.perm, h.bottom hlen hlast hge⟩

end Sinking

/-- **A removal** answers with the greatest entry. It keeps the order of the heap exactly if it
does not skip the last child. -/
theorem MessageChecker.exists_pop {c : MessageChecker} (h : c.Ordered) (hne : c.heap ≠ []) :
    ∃ c' n, c.pop = some (c', some n) ∧ c.heap.Perm (n :: c'.heap) ∧
      (∀ m ∈ c.heap, m.noMessages ≤ n.noMessages) ∧ (c'.Ordered ↔ ¬SkipsLastChild c.heap) := by
  have hpos : 0 < c.heap.length := length_pos_of_ne_nil hne
  obtain ⟨rest, hrun, hperm, hlen, hrest⟩ := exists_swapRemove hpos
  obtain ⟨last, hlast⟩ := exists_slot (l := c.heap) (p := c.heap.length) hpos le_rfl
  have hgreatest : ∀ m ∈ c.heap, m.noMessages ≤ c.heap[0].noMessages := by
    intro m hm
    obtain ⟨k, hk, rfl⟩ := List.mem_iff_getElem.mp hm
    refine h.order.le_root (ranks_closed _ _) (Nat.succ_ne_zero k)
      (ranks_eq_some (a := c.heap[k]) ?_) (ranks_eq_some (a := c.heap[0]) ?_)
    · rw [slot_succ, getElem?_eq_getElem hk]
    · rw [slot_succ, getElem?_eq_getElem hpos]
  obtain ⟨heap', hloop, hperm', hiff⟩ : ∃ heap',
      loop (sinkRound rest.length) (rest.length + 1) (rest, 1) = some heap' ∧ heap'.Perm rest ∧
        (HeapOrdered 1 (ranks noMessages heap') ↔ ¬SkipsLastChild c.heap) := by
    rcases Nat.eq_zero_or_pos rest.length with hzero | hrpos
    · obtain rfl := eq_nil_of_length_eq_zero hzero
      refine ⟨[], by simp [loop, sinkRound], List.Perm.refl _, iff_of_true ?_ ?_⟩
      · intro q x y hq _ hx
        obtain _ | q := q <;> cases hx
      · rintro ⟨k, a, b, hk, hpath, -⟩
        have := hpath.pos
        rw [length_nil] at hlen
        omega
    · have hslot : ∀ q, 2 ≤ q → q ≤ rest.length → slot rest q = slot c.heap q := by
        intro q hq hql
        rw [slot_of_pos (by omega), slot_of_pos (by omega), hrest _ (by omega), if_neg (by omega)]
      refine Sinking.exists_sink (a := last) ?_ h.order hlen hlast (by omega)
      refine ⟨List.Perm.refl _, le_rfl, hrpos, h.order.sinksAt_root fun q hq => ?_, ?_,
        fun q hq => hslot q (by omega), .root, fun k hk hpath _ => ⟨Nat.log2 k, ?_⟩⟩
      · by_cases hql : q ≤ rest.length
        · exact .inl (by rw [ranks, ranks, hslot q hq hql])
        · refine .inr (Option.map_eq_none_iff.mpr ?_)
          by_contra hsome
          exact hql (slot_ne_none_iff.mp hsome).2
      · rw [slot_succ, hrest 0 hrpos, if_pos rfl, getLast?_eq_getElem?, ← hlast,
          slot_of_pos hpos]
      · exact (div_two_pow_log2 (Nat.ne_of_gt hpath.pos)).symm
  refine ⟨⟨rest.length, heap'⟩, c.heap[0], ?_, hperm.trans (hperm'.symm.cons _), hgreatest, ?_⟩
  · rw [pop, if_pos (by rw [h.length]; exact hpos), hrun]
    simp only [Option.bind_eq_bind, Option.bind_some, hloop]
  · exact ⟨fun hordered => hiff.mp hordered.order,
      fun hnot => ⟨hperm'.length_eq.symm, hiff.mpr hnot⟩⟩

theorem MessageChecker.pop_of_nil {c : MessageChecker} (h : c.Ordered) (hnil : c.heap = []) :
    c.pop = some (c, none) := by
  rw [pop, if_neg (by simp [h.length, hnil])]

/-! ### Lists of calls -/

/-- The calls of a heap. -/
inductive Call where
  | add (notification : MessageNotification)
  | pop

/-- The checker after a call, and the answer of the call. -/
def Call.run (c : MessageChecker) : Call → Option (MessageChecker × Option MessageNotification)
  | add notification => do some (← c.add notification, none)
  | pop => c.pop

/-- What a call should do: the vector is a heap of its length; an addition adds its notification,
and a removal takes out a greatest one. -/
def Fulfils (c c' : MessageChecker) (answer : Option MessageNotification) : Call → Prop
  | .add notification => c'.Ordered ∧ answer = none ∧ c'.heap.Perm (notification :: c.heap)
  | .pop => c'.Ordered ∧
    match answer with
    | none => c.heap = [] ∧ c'.heap = []
    | some n => c.heap.Perm (n :: c'.heap) ∧ ∀ m ∈ c.heap, m.noMessages ≤ n.noMessages

/-- No call fails, and every call does what it should. -/
def KeepsPriorities : MessageChecker → List Call → Prop
  | _, [] => True
  | c, call :: calls =>
    ∃ c' answer, call.run c = some (c', answer) ∧ Fulfils c c' answer call ∧
      KeepsPriorities c' calls

/-- No removal skips the last child of the heap by then. -/
def NoneSkips : MessageChecker → List Call → Prop
  | _, [] => True
  | c, call :: calls =>
    (call = .pop → ¬SkipsLastChild c.heap) ∧
      ∀ c' answer, call.run c = some (c', answer) → NoneSkips c' calls

/-- The answers of some calls. -/
def runAll : MessageChecker → List Call →
    Option (MessageChecker × List (Option MessageNotification))
  | c, [] => some (c, [])
  | c, call :: calls => do
    let (c, answer) ← call.run c
    let (c, answers) ← runAll c calls
    some (c, answer :: answers)

/-- The notifications that are added. -/
def added : List Call → List MessageNotification
  | [] => []
  | .add notification :: calls => notification :: added calls
  | .pop :: calls => added calls

variable {c c' : MessageChecker} {call : Call} {calls : List Call}

/-- **One call.** -/
theorem fulfils_iff (h : c.Ordered) (call : Call) :
    ∃ c' answer, call.run c = some (c', answer) ∧
      (Fulfils c c' answer call ↔ (call = .pop → ¬SkipsLastChild c.heap)) := by
  cases call with
  | add notification =>
    obtain ⟨c', hrun, hc', hperm⟩ := c.exists_add h notification
    exact ⟨c', none, by rw [Call.run, hrun]; rfl, iff_of_true ⟨hc', rfl, hperm⟩ nofun⟩
  | pop =>
    by_cases hnil : c.heap = []
    · refine ⟨c, none, c.pop_of_nil h hnil, iff_of_true ⟨h, hnil, hnil⟩ fun _ => ?_⟩
      rintro ⟨k, a, b, hk, -⟩
      rw [hnil, length_nil] at hk
      omega
    · obtain ⟨c', n, hrun, hperm, hgreatest, hiff⟩ := c.exists_pop h hnil
      refine ⟨c', some n, hrun, ?_⟩
      exact ⟨fun hf _ => hiff.mp hf.1, fun hnot => ⟨hiff.mpr (hnot rfl), hperm, hgreatest⟩⟩

theorem Fulfils.ordered {answer : Option MessageNotification} (h : Fulfils c c' answer call) :
    c'.Ordered := by
  cases call with
  | add notification => exact h.1
  | pop => exact h.1

theorem keepsPriorities_iff_of_ordered (h : c.Ordered) (calls : List Call) :
    KeepsPriorities c calls ↔ NoneSkips c calls := by
  induction calls generalizing c with
  | nil => exact Iff.rfl
  | cons call calls ih =>
    obtain ⟨c₁, answer, hrun, hiff⟩ := fulfils_iff h call
    rw [KeepsPriorities, NoneSkips]
    constructor
    · rintro ⟨c₁', answer', hrun', hf, hrest⟩
      obtain ⟨rfl, rfl⟩ := Prod.mk.inj (Option.some.inj (hrun.symm.trans hrun'))
      refine ⟨hiff.mp hf, fun c₂ answer₂ hrun₂ => ?_⟩
      obtain ⟨rfl, rfl⟩ := Prod.mk.inj (Option.some.inj (hrun.symm.trans hrun₂))
      exact (ih hf.ordered).mp hrest
    · rintro ⟨hnot, hrest⟩
      have hf := hiff.mpr hnot
      exact ⟨c₁, answer, hrun, hf, (ih hf.ordered).mpr (hrest c₁ answer hrun)⟩

/-! ### Taking everything out -/

variable {answers : List (Option MessageNotification)}

theorem runAll_cons_eq_some :
    runAll c (call :: calls) = some (c', answers) ↔
      ∃ c₁ answer answers₁, call.run c = some (c₁, answer) ∧
        runAll c₁ calls = some (c', answers₁) ∧ answers = answer :: answers₁ := by
  rw [runAll]
  simp only [Option.bind_eq_bind, Option.bind_eq_some_iff, Prod.exists, Option.some.injEq,
    Prod.mk.injEq]
  constructor
  · rintro ⟨c₁, answer, hcall, c₂, answers₁, hcalls, rfl, rfl⟩
    exact ⟨c₁, answer, answers₁, hcall, hcalls, rfl⟩
  · rintro ⟨c₁, answer, answers₁, hcall, hcalls, rfl⟩
    exact ⟨c₁, answer, hcall, c', answers₁, hcalls, rfl, rfl⟩

theorem KeepsPriorities.perm (h : KeepsPriorities c calls)
    (hrun : runAll c calls = some (c', answers)) :
    (added calls ++ c.heap).Perm (answers.reduceOption ++ c'.heap) := by
  induction calls generalizing c answers with
  | nil =>
    obtain ⟨⟩ := hrun
    exact List.Perm.refl _
  | cons call calls ih =>
    obtain ⟨c₁, answer, hcall, hf, hrest⟩ := h
    obtain ⟨c₂, answer₂, answers₂, hcall₂, hcalls, rfl⟩ := runAll_cons_eq_some.mp hrun
    obtain ⟨rfl, rfl⟩ := Prod.mk.inj (Option.some.inj (hcall.symm.trans hcall₂))
    have hperm := ih hrest hcalls
    match call, answer, hf with
    | .add notification, _, ⟨_, rfl, hadd⟩ =>
      rw [reduceOption_cons_of_none]
      refine List.Perm.trans ?_ hperm
      exact List.perm_middle.symm.trans (hadd.symm.append_left (added calls))
    | .pop, none, ⟨_, hc, hc₁⟩ =>
      rw [reduceOption_cons_of_none]
      rwa [hc, ← hc₁]
    | .pop, some n, ⟨_, hpop, _⟩ =>
      rw [reduceOption_cons_of_some, cons_append]
      refine (hpop.append_left (added calls)).trans ?_
      exact List.perm_middle.trans (hperm.cons n)

theorem KeepsPriorities.after {more : List Call} (h : KeepsPriorities c (calls ++ more))
    (hrun : runAll c calls = some (c', answers)) :
    KeepsPriorities c calls ∧ KeepsPriorities c' more := by
  induction calls generalizing c answers with
  | nil =>
    obtain ⟨⟩ := hrun
    exact ⟨trivial, h⟩
  | cons call calls ih =>
    obtain ⟨c₁, answer, hcall, hf, hrest⟩ := h
    obtain ⟨c₂, answer₂, answers₂, hcall₂, hcalls, rfl⟩ := runAll_cons_eq_some.mp hrun
    obtain ⟨rfl, rfl⟩ := Prod.mk.inj (Option.some.inj (hcall.symm.trans hcall₂))
    obtain ⟨hcalls₁, hmore⟩ := ih hrest hcalls
    exact ⟨⟨c₁, answer, hcall, hf, hcalls₁⟩, hmore⟩

/-- As many removals as there are entries take all of them out, the greatest first. -/
theorem KeepsPriorities.exists_drain
    (h : KeepsPriorities c (List.replicate c.heap.length Call.pop)) :
    ∃ c' popped, runAll c (List.replicate c.heap.length Call.pop) =
        some (c', popped.map Option.some) ∧ c'.heap = [] ∧ c.heap.Perm popped ∧
      popped.Pairwise fun m n => n.noMessages ≤ m.noMessages := by
  generalize hlen : c.heap.length = n at h
  induction n generalizing c with
  | zero =>
    have hnil := eq_nil_of_length_eq_zero hlen
    exact ⟨c, [], rfl, hnil, hnil ▸ List.Perm.refl _, .nil⟩
  | succ n ih =>
    obtain ⟨c₁, answer, hcall, hf, hrest⟩ := h
    obtain _ | m := answer
    · rw [hf.2.1] at hlen
      cases hlen
    · obtain ⟨hperm, hgreatest⟩ := hf.2
      have hlen₁ : c₁.heap.length = n := by
        have := hperm.length_eq
        rw [length_cons] at this
        omega
      obtain ⟨c', popped, hrun, hnil, hpopped, hsorted⟩ := ih hlen₁ hrest
      refine ⟨c', m :: popped, ?_, hnil, hperm.trans (hpopped.cons m), ?_⟩
      · exact runAll_cons_eq_some.mpr ⟨c₁, some m, popped.map Option.some, hcall, hrun, rfl⟩
      · refine List.pairwise_cons.mpr ⟨fun k hk => ?_, hsorted⟩
        exact hgreatest k (hperm.mem_iff.mpr (mem_cons_of_mem m (hpopped.mem_iff.mpr hk)))

theorem MessageChecker.ordered_newEmpty : newEmpty.Ordered := by
  refine ⟨rfl, fun q x y hq _ hx => ?_⟩
  obtain _ | q := q <;> cases hx

/-- **The checker of messages.** The calls do what they should exactly if no removal skips the last
child. If none does until all is taken out, what is taken out is what was added, in the end by its
number of messages. -/
theorem keepsPriorities_iff (calls : List Call) :
    (KeepsPriorities MessageChecker.newEmpty calls ↔ NoneSkips MessageChecker.newEmpty calls) ∧
    ∀ c answers, runAll MessageChecker.newEmpty calls = some (c, answers) →
      NoneSkips MessageChecker.newEmpty (calls ++ List.replicate c.heap.length .pop) →
      ∃ c' popped, runAll c (List.replicate c.heap.length .pop) =
          some (c', popped.map Option.some) ∧ c'.heap = [] ∧
        (added calls).Perm (answers.reduceOption ++ popped) ∧
        popped.Pairwise fun m n => n.noMessages ≤ m.noMessages := by
  refine ⟨keepsPriorities_iff_of_ordered MessageChecker.ordered_newEmpty calls,
    fun c answers hrun hskips => ?_⟩
  have hkeeps := (keepsPriorities_iff_of_ordered MessageChecker.ordered_newEmpty _).mpr hskips
  obtain ⟨hcalls, hdrain⟩ := hkeeps.after hrun
  obtain ⟨c', popped, hpops, hnil, hperm, hsorted⟩ := hdrain.exists_drain
  refine ⟨c', popped, hpops, hnil, ?_, hsorted⟩
  have hadded := hcalls.perm hrun
  rw [show MessageChecker.newEmpty.heap = [] from rfl, append_nil] at hadded
  exact hadded.trans (hperm.append_left _)

/-- Of 10, 8 and 5 messages the 10 are taken out; the last stays above the second, and is next. -/
theorem last_child_skipped :
    ¬KeepsPriorities MessageChecker.newEmpty
      [.add ⟨10, 1, "", ""⟩, .add ⟨8, 2, "", ""⟩, .add ⟨5, 3, "", ""⟩, .pop, .pop] := by
  intro h
  have hrun : runAll MessageChecker.newEmpty
      [.add ⟨10, 1, "", ""⟩, .add ⟨8, 2, "", ""⟩, .add ⟨5, 3, "", ""⟩, .pop] =
    some (⟨2, [⟨5, 3, "", ""⟩, ⟨8, 2, "", ""⟩]⟩, [none, none, none, some ⟨10, 1, "", ""⟩]) := rfl
  obtain ⟨-, hpop⟩ := h.after hrun
  obtain ⟨c', answer, hrun, ⟨-, hanswer⟩, -⟩ := hpop
  obtain ⟨rfl, rfl⟩ : c' = ⟨1, [⟨8, 2, "", ""⟩]⟩ ∧ answer = some ⟨5, 3, "", ""⟩ := by
    have hpopped : Call.run ⟨2, [⟨5, 3, "", ""⟩, ⟨8, 2, "", ""⟩]⟩ .pop =
      some (⟨1, [⟨8, 2, "", ""⟩]⟩, some ⟨5, 3, "", ""⟩) := rfl
    exact (Prod.mk.inj (Option.some.inj (hpopped.symm.trans hrun))).imp Eq.symm Eq.symm
  have hle := hanswer.2 ⟨8, 2, "", ""⟩ (by decide)
  exact absurd hle (by decide)

end RustExample.MessageHeap
