import Mathlib.Order.Lattice
import RustExample.Foundation.BTree

/-!
# B-trees with repeated keys

An entry is placed behind the entries of its node whose keys are not larger. Among different keys
that is its place in the order of the tree; an entry that is placed behind one with the same key
comes behind the tree of that one as well, and so is in order only if this tree has no larger key.
-/

namespace RustExample.BTree

open List

universe u

variable {κ : Type*} [LinearOrder κ] {α β γ : Type u} {key : α → κ} {values : β → List α}

/-- The keys do not descend. -/
def Ascends (key : α → κ) (l : List α) : Prop := l.Pairwise fun a b => key a ≤ key b

/-- The key is not above another. -/
def notAbove {γ : Type*} (key : γ → κ) (e f : γ) : Bool := key f ≤ key e

/-- The entry comes behind those whose keys are not larger. -/
def place {γ : Type*} (key : γ → κ) (e : γ) (l : List γ) : List γ :=
  l.takeWhile (notAbove key e) ++ e :: l.dropWhile (notAbove key e)

/-- Entries that are placed one after the other, the last one first. -/
def gather {γ : Type*} (key : γ → κ) (l : List γ) : List γ := l.foldr (place key) []

/-- A node that is cut in two, the second part of which is gathered. -/
def cutPlaced (key : γ → κ) (order : ℕ) (entries : List γ) : List γ × Option (γ × List γ) :=
  ((cut order entries).1, (cut order entries).2.map fun m => (m.1, gather key m.2))

/-- The tree for a value among a first tree and the trees of the entries. -/
def childFor (goRight : α → Bool) : β → List (α × β) → β
  | t, [] => t
  | t, (a, s) :: rest => if goRight a then childFor goRight s rest else t

/-- A node with a changed tree, and with what went up from below. -/
def regrow (key : α → κ) (x : α) (below : β × Option (α × β)) (t : β) (rest : List (α × β)) :
    β × List (α × β) :=
  let (first, rest) := graft (notAbove key x) (fun _ => (below.1, none)) t rest
  (first, below.2.elim rest fun e => place (fun e => key e.1) e rest)

/-- The insertion of `x` behind the values whose keys are not larger. -/
def insertPlaced (key : α → κ) (x : α) (order : ℕ) :
    (d : ℕ) → Tree α d → Tree α d × Option (α × Tree α d)
  | 0, vs => cutPlaced key order (place key x vs)
  | d + 1, t =>
    let below := insertPlaced key x order d (childFor (notAbove key x) t.1 t.2)
    let (first, rest) := regrow key x below t.1 t.2
    match cutPlaced (fun e => key e.1) order rest with
    | (rest, none) => ((first, rest), none)
    | (left, some ((a, s), right)) => ((first, left), some (a, (s, right)))

/-- What has the key `k` may be placed behind the entry: either the entry has another key, or all
values of its tree have the key too. -/
def Passable (key : α → κ) (values : β → List α) (k : κ) (f : α × β) : Prop :=
  key f.1 = k → ∀ y ∈ values f.2, key y = k

/-- No entry is placed behind a tree with larger keys: neither an entry that goes up, nor one that
is gathered in a node that is cut. -/
def Placeable (key : α → κ) (x : α) (order : ℕ) : (d : ℕ) → Tree α d → Prop
  | 0, _ => True
  | d + 1, t =>
    let s := childFor (notAbove key x) t.1 t.2
    let below := insertPlaced key x order d s
    Placeable key x order d s ∧
      (∀ e, below.2 = some e → ∀ f ∈ t.2, key x < key f.1 →
        Passable key (toList d) (key e.1) f) ∧
      ∀ left e right, cut order (regrow key x below t.1 t.2).2 = (left, some (e, right)) →
        right.Pairwise fun e f => Passable key (toList d) (key e.1) f

/-! ### Placing -/

theorem perm_place (key : γ → κ) (e : γ) (l : List γ) : (place key e l).Perm (e :: l) := by
  rw [place]
  exact List.perm_middle.trans (by rw [takeWhile_append_dropWhile])

theorem perm_gather (key : γ → κ) (l : List γ) : (gather key l).Perm l := by
  induction l with
  | nil => exact .refl _
  | cons e l ih => exact (perm_place key e _).trans (ih.cons e)

theorem notAbove_iff {key : γ → κ} {e f : γ} : notAbove key e f = true ↔ key f ≤ key e :=
  decide_eq_true_iff

theorem notAbove_eq_false_iff {key : γ → κ} {e f : γ} :
    notAbove key e f = false ↔ key e < key f :=
  decide_eq_false_iff_not.trans not_le

/-- Entries that are placed by the keys of their images. -/
theorem map_place {δ : Type*} (f : γ → δ) (key : δ → κ) (e : γ) (l : List γ) :
    (place (fun e => key (f e)) e l).map f = place key (f e) (l.map f) := by
  rw [place, place, map_append, map_cons, takeWhile_map, dropWhile_map]
  rfl

theorem map_gather {δ : Type*} (f : γ → δ) (key : δ → κ) (l : List γ) :
    (gather (fun e => key (f e)) l).map f = gather key (l.map f) := by
  induction l with
  | nil => rfl
  | cons e l ih =>
    have hcons : gather (fun e => key (f e)) (e :: l) =
        place (fun e => key (f e)) e (gather (fun e => key (f e)) l) := rfl
    rw [hcons, map_place, ih]
    rfl

variable {l : List γ}

theorem split_of_ascends {key : γ → κ} (e : γ) (hl : Ascends key l) :
    Split (notAbove key e) l :=
  hl.imp fun hab hb => notAbove_iff.mpr (hab.trans (notAbove_iff.mp hb))

theorem exists_place {key : γ → κ} (e : γ) (hl : Ascends key l) :
    ∃ a b, l = a ++ b ∧ place key e l = a ++ e :: b ∧ (∀ f ∈ a, key f ≤ key e) ∧
      ∀ f ∈ b, key e < key f := by
  refine ⟨_, _, List.takeWhile_append_dropWhile.symm, rfl,
    fun f hf => notAbove_iff.mp (mem_takeWhile_imp hf), fun f hf => ?_⟩
  exact notAbove_eq_false_iff.mp ((split_of_ascends e hl).false_of_dropWhile f hf)

theorem ascends_place {key : γ → κ} (e : γ) (hl : Ascends key l) :
    Ascends key (place key e l) := by
  obtain ⟨a, b, rfl, heq, ha, hb⟩ := exists_place e hl
  obtain ⟨hasc, hbsc, hab⟩ := List.pairwise_append.mp hl
  rw [heq]
  refine List.pairwise_append.mpr ⟨hasc, List.pairwise_cons.mpr ⟨fun f hf => (hb f hf).le, hbsc⟩,
    fun f hf g hg => ?_⟩
  rcases List.mem_cons.mp hg with rfl | hg
  · exact ha f hf
  · exact hab f hf g hg

theorem ascends_gather (key : γ → κ) (l : List γ) : Ascends key (gather key l) := by
  induction l with
  | nil => exact List.Pairwise.nil
  | cons e l ih => exact ascends_place e ih

/-! ### The values of placed entries -/

theorem mem_flat {entries : List (α × β)} {y : α} :
    y ∈ flat values entries ↔ ∃ f ∈ entries, y = f.1 ∨ y ∈ values f.2 := by
  simp [flat]

theorem perm_flat (values : β → List α) {entries entries' : List (α × β)}
    (h : entries.Perm entries') : (flat values entries).Perm (flat values entries') :=
  h.flatMap_right _

theorem ascends_keys {entries : List (α × β)} (h : Ascends key (flat values entries)) :
    Ascends (fun e : α × β => key e.1) entries :=
  (pairwise_map (f := Prod.fst)).mp (h.sublist (keys_sublist values entries))

theorem ascends_replace {left right : List (α × β)} {a : α} {s : β}
    (h : Ascends (fun e : α × β => key e.1) (left ++ (a, s) :: right)) (s' : β) :
    Ascends (fun e : α × β => key e.1) (left ++ (a, s') :: right) := by
  obtain ⟨hleft, hcons, hle⟩ := List.pairwise_append.mp h
  obtain ⟨ha, hright⟩ := List.pairwise_cons.mp hcons
  refine List.pairwise_append.mpr ⟨hleft, List.pairwise_cons.mpr ⟨ha, hright⟩, fun e he f hf => ?_⟩
  rcases List.mem_cons.mp hf with rfl | hf
  · exact hle e he (a, s) mem_cons_self
  · exact hle e he f (mem_cons_of_mem _ hf)

/-- **An entry is placed** in a node with no value below its own: what it passes has its key. -/
theorem ascends_flat_place {e : α × β} {rest : List (α × β)}
    (he : Ascends key (e.1 :: values e.2)) (hrest : Ascends key (flat values rest))
    (hle : ∀ y ∈ e.1 :: values e.2, ∀ z ∈ flat values rest, key y ≤ key z)
    (hpass : ∀ f ∈ rest, Passable key values (key e.1) f) :
    Ascends key (flat values (place (fun e => key e.1) e rest)) := by
  obtain ⟨a, b, rfl, heq, ha, hb⟩ := exists_place e (ascends_keys hrest)
  rw [flat_append] at hrest hle
  obtain ⟨hasc, hbsc, hab⟩ := List.pairwise_append.mp hrest
  -- the values that are passed have the key of the entry
  have hsame : ∀ y ∈ flat values a, key y = key e.1 := by
    intro y hy
    obtain ⟨f, hf, hyf⟩ := mem_flat.mp hy
    have hfe : key f.1 = key e.1 := le_antisymm (ha f hf)
      (hle e.1 mem_cons_self f.1 (mem_append_left _ (mem_flat.mpr ⟨f, hf, .inl rfl⟩)))
    rcases hyf with rfl | hyf
    · exact hfe
    · exact hpass f (mem_append_left _ hf) hfe y hyf
  have hcons : flat values (e :: b) = (e.1 :: values e.2) ++ flat values b := rfl
  rw [heq, flat_append, hcons]
  refine List.pairwise_append.mpr ⟨hasc, List.pairwise_append.mpr ⟨he, hbsc, fun y hy z hz => ?_⟩,
    fun y hy z hz => ?_⟩
  · exact hle y hy z (mem_append_right _ hz)
  · rcases List.mem_append.mp hz with hz | hz
    · rw [hsame y hy]
      rcases List.mem_cons.mp hz with rfl | hz
      · exact le_rfl
      · exact (List.pairwise_cons.mp he).1 z hz
    · exact hab y hy z hz

/-- **The second part of a node that is cut.** -/
theorem ascends_flat_gather {entries : List (α × β)} (h : Ascends key (flat values entries))
    (hpass : entries.Pairwise fun e f => Passable key values (key e.1) f) :
    Ascends key (flat values (gather (fun e => key e.1) entries)) := by
  induction entries with
  | nil => exact List.Pairwise.nil
  | cons e entries ih =>
    have hcons : flat values (e :: entries) = (e.1 :: values e.2) ++ flat values entries := rfl
    rw [hcons] at h
    obtain ⟨he, hentries, hle⟩ := List.pairwise_append.mp h
    obtain ⟨hpasse, hpass⟩ := List.pairwise_cons.mp hpass
    have hperm := perm_gather (fun e : α × β => key e.1) entries
    refine ascends_flat_place he (ih hentries hpass) (fun y hy z hz => ?_) fun f hf => ?_
    · exact hle y hy z ((perm_flat values hperm).mem_iff.mp hz)
    · exact hpasse f (hperm.mem_iff.mp hf)

/-! ### Insertion -/

/-- Where a value goes: the first tree, or that of the last entry whose key is not larger. -/
theorem regrow_cases {x : α} (t : β) {rest : List (α × β)}
    (hrest : Ascends (fun e : α × β => key e.1) rest) :
    ((∀ e ∈ rest, key x < key e.1) ∧ childFor (notAbove key x) t rest = t ∧
      ∀ below, regrow key x below t rest =
        (below.1, below.2.elim rest fun e => place (fun e => key e.1) e rest)) ∨
    ∃ left a s right, rest = left ++ (a, s) :: right ∧ (∀ e ∈ left, key e.1 ≤ key x) ∧
      key a ≤ key x ∧ (∀ e ∈ right, key x < key e.1) ∧ childFor (notAbove key x) t rest = s ∧
      ∀ below, regrow key x below t rest = (t, below.2.elim (left ++ (a, below.1) :: right)
        fun e => place (fun e => key e.1) e (left ++ (a, below.1) :: right)) := by
  have hsplit : Split (notAbove key x) (rest.map Prod.fst) :=
    split_of_ascends x (List.pairwise_map.mpr hrest)
  rcases hsplit.cases_last with hfalse | ⟨left, a, s, right, rfl, hleft, ha, hright⟩
  · refine .inl ⟨fun e he => notAbove_eq_false_iff.mp (hfalse e he), ?_, fun below => ?_⟩
    · rcases rest with _ | ⟨⟨a, s⟩, rest⟩
      · rfl
      · rw [childFor, if_neg (by simp [hfalse (a, s) mem_cons_self])]
    · rw [regrow, graft_first _ t hfalse]
      rfl
  · refine .inr ⟨left, a, s, right, rfl, fun e he => notAbove_iff.mp (hleft e he),
      notAbove_iff.mp ha, fun e he => notAbove_eq_false_iff.mp (hright e he), ?_, fun below => ?_⟩
    · clear hsplit hrest
      induction left generalizing t with
      | nil =>
        rw [nil_append, childFor, if_pos ha]
        rcases right with _ | ⟨⟨b, u⟩, right⟩
        · rfl
        · rw [childFor, if_neg (by simp [hright (b, u) mem_cons_self])]
      | cons e left ih =>
        rw [cons_append, childFor, if_pos (hleft e mem_cons_self)]
        exact ih e.2 fun e he => hleft e (mem_cons_of_mem _ he)
    · rw [regrow, graft_last _ t hleft ha hright]
      rfl

theorem childFor_sublist (x : α) {d : ℕ} {t : Tree α (d + 1)}
    (ht : Ascends key (toList (d + 1) t)) :
    (toList d (childFor (notAbove key x) t.1 t.2)).Sublist (toList (d + 1) t) := by
  rcases regrow_cases t.1 (ascends_keys (List.pairwise_append.mp ht).2.1) with
    ⟨-, hchild, -⟩ | ⟨left, a, s, right, heq, -, -, -, hchild, -⟩
  · rw [hchild]
    exact sublist_append_left _ _
  · have hmem : s ∈ t.2.map Prod.snd := by simp [heq]
    rw [hchild]
    exact (values_sublist (toList d) hmem).trans (sublist_append_right _ _)

theorem place_append {key : γ → κ} {e : γ} (hl : ∀ f ∈ l, key f ≤ key e) (l' : List γ) :
    place key e (l ++ l') = l ++ place key e l' := by
  have hall : ∀ f ∈ l, notAbove key e f = true := fun f hf => notAbove_iff.mpr (hl f hf)
  rw [place, place, takeWhile_append_of_pos hall, dropWhile_append_of_pos hall,
    append_assoc]

theorem lt_of_mem_flat {x : α} {rest : List (α × β)} (h : Ascends key (flat values rest))
    (hrest : ∀ e ∈ rest, key x < key e.1) : ∀ y ∈ flat values rest, key x < key y := by
  rcases rest with _ | ⟨e, rest⟩
  · nofun
  · intro y hy
    have he := hrest e mem_cons_self
    rw [flat_cons] at h hy
    rcases List.mem_cons.mp hy with rfl | hy
    · exact he
    · exact he.trans_le ((List.pairwise_cons.mp h).1 y hy)

/-- A changed tree, and what went up from it, before the entries on its right. -/
theorem ascends_placed {l : List α} {up : Option (α × β)} {rest : List (α × β)}
    (hl : Ascends key (l ++ flat values up.toList)) (hrest : Ascends key (flat values rest))
    (hle : ∀ y ∈ l ++ flat values up.toList, ∀ z ∈ flat values rest, key y ≤ key z)
    (hpass : ∀ e, up = some e → ∀ f ∈ rest, Passable key values (key e.1) f) :
    Ascends key (l ++ flat values (up.elim rest fun e => place (fun e => key e.1) e rest)) ∧
      (l ++ flat values (up.elim rest fun e => place (fun e => key e.1) e rest)).Perm
        (l ++ flat values up.toList ++ flat values rest) := by
  rcases up with _ | e
  · simp only [Option.toList_none, flat_nil, append_nil] at hl hle ⊢
    exact ⟨List.pairwise_append.mpr ⟨hl, hrest, hle⟩, .refl _⟩
  · have he : flat values (Option.some e).toList = e.1 :: values e.2 := by simp
    rw [he] at hl hle ⊢
    obtain ⟨hlsc, hesc, hlle⟩ := List.pairwise_append.mp hl
    have hperm : (flat values (place (fun e => key e.1) e rest)).Perm
        (e.1 :: values e.2 ++ flat values rest) :=
      perm_flat values (perm_place (fun e : α × β => key e.1) e rest)
    refine ⟨List.pairwise_append.mpr ⟨hlsc, ?_, fun y hy z hz => ?_⟩, ?_⟩
    · exact ascends_flat_place hesc hrest (fun y hy => hle y (mem_append_right _ hy))
        (hpass e rfl)
    · rcases List.mem_append.mp (hperm.mem_iff.mp hz) with hz | hz
      · exact hlle y hy z hz
      · exact hle y (mem_append_left _ hy) z hz
    · rw [append_assoc]
      exact hperm.append_left l

/-- **A node with a changed tree.** -/
theorem ascends_regrow {x : α} {d : ℕ} {t : Tree α (d + 1)}
    {below : Tree α d × Option (α × Tree α d)} (ht : Ascends key (toList (d + 1) t))
    (hbelow : Ascends key (grownList d below))
    (hperm : (grownList d below).Perm (x :: toList d (childFor (notAbove key x) t.1 t.2)))
    (hpass : ∀ e, below.2 = some e → ∀ f ∈ t.2, key x < key f.1 →
      Passable key (toList d) (key e.1) f) :
    Ascends key (toList d (regrow key x below t.1 t.2).1 ++
        flat (toList d) (regrow key x below t.1 t.2).2) ∧
      (toList d (regrow key x below t.1 t.2).1 ++
        flat (toList d) (regrow key x below t.1 t.2).2).Perm (x :: toList (d + 1) t) := by
  obtain ⟨first, rest⟩ := t
  obtain ⟨hfirst, hrest, hle⟩ := List.pairwise_append.mp ht
  rcases regrow_cases first (ascends_keys hrest) with
    ⟨hright, hchild, heq⟩ | ⟨left, a, s, right, rfl, hleft, ha, hright, hchild, heq⟩
  · -- the value goes into the first tree
    rw [hchild] at hperm
    have hlt := lt_of_mem_flat hrest hright
    obtain ⟨hasc, hperm'⟩ := ascends_placed hbelow hrest
      (fun y hy z hz => by
        rcases List.mem_cons.mp (hperm.mem_iff.mp hy) with rfl | hy
        · exact (hlt z hz).le
        · exact hle y hy z hz)
      fun e he f hf => hpass e he f hf (hright f hf)
    rw [heq]
    exact ⟨hasc, hperm'.trans (hperm.append_right _)⟩
  · -- the value goes into the tree of the last entry whose key is not larger
    rw [hchild] at hperm
    rw [flat_append, flat_cons] at hrest hle
    obtain ⟨hleftsc, hcons, hlle⟩ := List.pairwise_append.mp hrest
    obtain ⟨hale, htail⟩ := List.pairwise_cons.mp hcons
    obtain ⟨hs, hrightsc, hsle⟩ := List.pairwise_append.mp htail
    have hlt := lt_of_mem_flat hrightsc hright
    have hpre : Ascends key (toList d first ++ flat (toList d) left ++ [a]) := by
      have hsub : (toList d first ++ flat (toList d) left ++ [a]).Sublist
          (toList (d + 1) (first, left ++ (a, s) :: right)) := by
        simp [toList]
      exact ht.sublist hsub
    have hbefore : ∀ y ∈ toList d first ++ flat (toList d) left ++ [a],
        ∀ z ∈ a :: (toList d s ++ flat (toList d) right), key y ≤ key z := by
      intro y hy z hz
      rcases List.mem_append.mp hy with hy | hy
      · rcases List.mem_append.mp hy with hy | hy
        · exact hle y hy z (mem_append_right _ hz)
        · exact hlle y hy z hz
      · rw [List.mem_singleton.mp hy]
        rcases List.mem_cons.mp hz with rfl | hz
        · exact le_rfl
        · exact hale z hz
    have hgrown : ∀ y ∈ toList d first ++ flat (toList d) left ++ [a],
        ∀ z ∈ grownList d below, key y ≤ key z := by
      intro y hy z hz
      rcases List.mem_cons.mp (hperm.mem_iff.mp hz) with rfl | hz
      · exact (hbefore y hy a mem_cons_self).trans ha
      · exact hbefore y hy z (mem_cons_of_mem _ (mem_append_left _ hz))
    obtain ⟨hasc, hperm'⟩ := ascends_placed hbelow hrightsc
      (fun y hy z hz => by
        rcases List.mem_cons.mp (hperm.mem_iff.mp hy) with rfl | hy
        · exact (hlt z hz).le
        · exact hsle y hy z hz)
      fun e he f hf => hpass e he f (by simp [hf]) (hright f hf)
    -- what goes up comes behind the entries up to the one of the tree
    have hshape : toList d (regrow key x below first (left ++ (a, s) :: right)).1 ++
        flat (toList d) (regrow key x below first (left ++ (a, s) :: right)).2 =
        toList d first ++ flat (toList d) left ++ [a] ++ (toList d below.1 ++ flat (toList d)
          (below.2.elim right fun e => place (fun e => key e.1) e right)) := by
      rw [heq]
      rcases hup : below.2 with _ | e
      · simp
      · have hmem : e.1 ∈ grownList d below := by
          rw [grownList, hup]
          exact mem_append_right _ (by simp)
        have hplace : place (fun e : α × Tree α d => key e.1) e (left ++ (a, below.1) :: right) =
            left ++ [(a, below.1)] ++ place (fun e => key e.1) e right := by
          rw [← place_append, append_assoc, singleton_append]
          intro f hf
          rcases List.mem_append.mp hf with hf | hf
          · exact hgrown f.1 (mem_append_left _ (mem_append_right _
              (mem_flat.mpr ⟨f, hf, .inl rfl⟩))) e.1 hmem
          · rw [List.mem_singleton.mp hf]
            exact hgrown a (by simp) e.1 hmem
        simp only [Option.elim_some, hplace]
        simp
    rw [hshape]
    refine ⟨List.pairwise_append.mpr ⟨hpre, hasc, fun y hy z hz => ?_⟩, ?_⟩
    · rcases List.mem_append.mp (hperm'.mem_iff.mp hz) with hz | hz
      · exact hgrown y hy z hz
      · exact hbefore y hy z (mem_cons_of_mem _ (mem_append_right _ hz))
    · refine ((hperm'.trans (hperm.append_right _)).append_left _).trans ?_
      have hmiddle : (toList d first ++ flat (toList d) left ++ [a] ++
          x :: (toList d s ++ flat (toList d) right)).Perm (x :: (toList d first ++
            flat (toList d) left ++ [a] ++ (toList d s ++ flat (toList d) right))) :=
        perm_middle
      simpa [toList] using hmiddle

variable {order : ℕ}

theorem cutPlaced_of_lt {key : γ → κ} {entries : List γ} (h : entries.length < order) :
    cutPlaced key order entries = (entries, none) := by
  rw [cutPlaced, cut_of_lt h]
  rfl

theorem cutPlaced_of_le {entries : List γ} (h : order ≤ entries.length) (horder : 0 < order)
    (key : γ → κ) :
    ∃ left e right, cut order entries = (left, some (e, right)) ∧
      cutPlaced key order entries = (left, some (e, gather key right)) ∧
      entries = left ++ e :: right ∧ left.length = entries.length / 2 := by
  obtain ⟨left, e, right, hcut, heq, hlen⟩ := cut_of_le h horder
  exact ⟨left, e, right, hcut, by rw [cutPlaced, hcut]; rfl, heq, hlen⟩

/-- **The values after an insertion**, if no entry is placed behind a tree with larger keys. -/
theorem insertPlaced_spec (horder : 0 < order) (x : α) (d : ℕ) (t : Tree α d)
    (ht : Ascends key (toList d t)) (hplace : Placeable key x order d t) :
    Ascends key (grownList d (insertPlaced key x order d t)) ∧
      (grownList d (insertPlaced key x order d t)).Perm (x :: toList d t) := by
  induction d with
  | zero =>
    have hasc : Ascends key (place key x t) := ascends_place x ht
    have hperm := perm_place key x t
    rw [insertPlaced]
    rcases Nat.lt_or_ge (place key x t).length order with hlt | hge
    · rw [cutPlaced_of_lt hlt]
      change Ascends key (place key x t ++ []) ∧ (place key x t ++ []).Perm (x :: t)
      rw [append_nil]
      exact ⟨hasc, hperm⟩
    · obtain ⟨left, e, right, -, hcut, heq, -⟩ := cutPlaced_of_le hge horder key
      have hgrown : grownList 0 (cutPlaced key order (place key x t)) =
          left ++ e :: gather key right := by
        rw [hcut]
        exact congrArg (fun l => left ++ e :: l) (append_nil _)
      have hgather := perm_gather key right
      rw [heq] at hasc hperm
      rw [hgrown]
      obtain ⟨hleft, hcons, hle⟩ := List.pairwise_append.mp hasc
      refine ⟨List.pairwise_append.mpr ⟨hleft, List.pairwise_cons.mpr ⟨fun f hf => ?_,
        ascends_gather key right⟩, fun f hf g hg => ?_⟩, ?_⟩
      · exact (List.pairwise_cons.mp hcons).1 f (hgather.mem_iff.mp hf)
      · exact hle f hf g ((hgather.cons e).mem_iff.mp hg)
      · exact ((hgather.cons e).append_left left).trans hperm
  | succ d ih =>
    obtain ⟨hbelow, hup, hcutpass⟩ := hplace
    obtain ⟨hasc, hperm⟩ := ih _ (ht.sublist (childFor_sublist x ht)) hbelow
    obtain ⟨hasc', hperm'⟩ := ascends_regrow ht hasc hperm hup
    rw [insertPlaced]
    generalize regrow key x (insertPlaced key x order d (childFor (notAbove key x) t.1 t.2)) t.1
      t.2 = g at hasc' hperm' hcutpass ⊢
    obtain ⟨first, rest⟩ := g
    dsimp only at hasc' hperm' hcutpass ⊢
    rcases Nat.lt_or_ge rest.length order with hlt | hge
    · rw [cutPlaced_of_lt hlt]
      simpa [grownList, toList] using And.intro hasc' hperm'
    · obtain ⟨left, ⟨a, s⟩, right, hcut, hcutPlaced, rfl, -⟩ :=
        cutPlaced_of_le hge horder fun e : α × Tree α d => key e.1
      have hgather := perm_gather (fun e : α × Tree α d => key e.1) right
      have hflat : (flat (toList d) (gather (fun e => key e.1) right)).Perm
          (flat (toList d) right) := perm_flat _ hgather
      have hgrown : grownList (d + 1)
          ((first, left), some (a, (s, gather (fun e => key e.1) right))) =
            toList d first ++ flat (toList d) left ++
              (a :: toList d s ++ flat (toList d) (gather (fun e => key e.1) right)) := by
        simp [grownList, toList]
      have hshape : toList d first ++ flat (toList d) (left ++ (a, s) :: right) =
          toList d first ++ flat (toList d) left ++ (a :: toList d s ++ flat (toList d) right) := by
        simp
      rw [hshape] at hasc' hperm'
      rw [hcutPlaced]
      dsimp only
      rw [hgrown]
      obtain ⟨hleft, hcons, hle⟩ := List.pairwise_append.mp hasc'
      obtain ⟨ha, hright, hale⟩ := List.pairwise_append.mp hcons
      have htail := hflat.append_left (a :: toList d s)
      refine ⟨List.pairwise_append.mpr ⟨hleft, List.pairwise_append.mpr ⟨ha,
        ascends_flat_gather hright (hcutpass left (a, s) right hcut), fun y hy z hz => ?_⟩,
        fun y hy z hz => ?_⟩, ?_⟩
      · exact hale y hy z (hflat.mem_iff.mp hz)
      · exact hle y hy z (htail.mem_iff.mp hz)
      · exact (htail.append_left _).trans hperm'

/-! ### The bounds -/

theorem length_gather (key : γ → κ) (l : List γ) : (gather key l).length = l.length :=
  (perm_gather key l).length_eq

/-- A node with a changed tree has one entry more at most. -/
theorem filled_regrow {lo hi d : ℕ} {x : α} {t : Tree α d} {rest : List (α × Tree α d)}
    {below : Tree α d × Option (α × Tree α d)} (hkeys : Ascends (fun e => key e.1) rest)
    (ht : Filled lo hi lo d t) (hrest : ∀ e ∈ rest, Filled lo hi lo d e.2)
    (hbelow : GrownFilled lo hi lo d below) :
    Filled lo hi lo d (regrow key x below t rest).1 ∧
      (∀ e ∈ (regrow key x below t rest).2, Filled lo hi lo d e.2) ∧
      rest.length ≤ (regrow key x below t rest).2.length ∧
      (regrow key x below t rest).2.length ≤ rest.length + 1 := by
  have hfirst : Filled lo hi lo d below.1 := by
    rcases hup : below.2 with _ | e
    · simpa [GrownFilled, hup] using hbelow
    · rw [GrownFilled, hup] at hbelow
      exact hbelow.1
  have hup : ∀ e, below.2 = some e → Filled lo hi lo d e.2 := by
    intro e he
    rw [GrownFilled, he] at hbelow
    exact hbelow.2
  -- the entries with what went up
  have hplaced : ∀ es : List (α × Tree α d), (∀ e ∈ es, Filled lo hi lo d e.2) →
      (∀ e ∈ below.2.elim es fun e => place (fun e => key e.1) e es, Filled lo hi lo d e.2) ∧
        es.length ≤ (below.2.elim es fun e => place (fun e => key e.1) e es).length ∧
        (below.2.elim es fun e => place (fun e => key e.1) e es).length ≤ es.length + 1 := by
    intro es hes
    rcases hu : below.2 with _ | e
    · exact ⟨hes, Nat.le_refl _, Nat.le_succ _⟩
    · have hperm := perm_place (fun e : α × Tree α d => key e.1) e es
      have hlen := hperm.length_eq
      rw [length_cons] at hlen
      refine ⟨fun f hf => ?_, by rw [Option.elim_some]; omega, by rw [Option.elim_some]; omega⟩
      rcases List.mem_cons.mp (hperm.mem_iff.mp hf) with rfl | hf
      · exact hup f hu
      · exact hes f hf
  rcases regrow_cases t hkeys with ⟨-, -, heq⟩ | ⟨left, a, s, right, rfl, -, -, -, -, heq⟩
  · rw [heq]
    exact ⟨hfirst, hplaced rest hrest⟩
  · have hes : ∀ e ∈ left ++ (a, below.1) :: right, Filled lo hi lo d e.2 := by
      intro e he
      simp only [mem_append, mem_cons] at he hrest
      rcases he with he | rfl | he
      · exact hrest e (.inl he)
      · exact hfirst
      · exact hrest e (.inr (.inr he))
    rw [heq]
    simpa using And.intro ht (hplaced _ hes)

/-- **The bounds after an insertion.** -/
theorem filled_insertPlaced {root : ℕ} (horder : 0 < order) (x : α) (d : ℕ) (t : Tree α d)
    (hasc : Ascends key (toList d t)) (ht : Filled ((order - 1) / 2) (order - 1) root d t) :
    GrownFilled ((order - 1) / 2) (order - 1) root d (insertPlaced key x order d t) := by
  induction d generalizing root with
  | zero =>
    obtain ⟨hroot, hle⟩ := ht
    have hlen : (place key x t).length = List.length t + 1 := (perm_place key x t).length_eq
    rw [insertPlaced]
    generalize place key x t = vs at hlen ⊢
    have hroot' : root ≤ vs.length := by omega
    rcases length_cut horder hroot' (by omega) with
      ⟨hcut, hle'⟩ | ⟨left, e, right, hcut, -, hleft, hright⟩
    · rw [cutPlaced, hcut]
      exact ⟨hroot', hle'⟩
    · rw [cutPlaced, hcut]
      refine ⟨hleft, ?_⟩
      have hgather := length_gather key right
      exact ⟨hgather.symm ▸ hright.1, hgather.symm ▸ hright.2⟩
  | succ d ih =>
    obtain ⟨hroot, hle, hfirst, hrest⟩ := ht
    have hkeys := ascends_keys (List.pairwise_append.mp hasc).2.1
    have hchild : Filled ((order - 1) / 2) (order - 1) ((order - 1) / 2) d
        (childFor (notAbove key x) t.1 t.2) := by
      rcases regrow_cases t.1 hkeys with
        ⟨-, hchild, -⟩ | ⟨left, a, s, right, heq, -, -, -, hchild, -⟩
      · rw [hchild]
        exact hfirst
      · rw [hchild]
        exact hrest (a, s) (by simp [heq])
    obtain ⟨h₁, h₂, h₃, h₄⟩ :=
      filled_regrow (x := x) hkeys hfirst hrest
        (ih _ (hasc.sublist (childFor_sublist x hasc)) hchild)
    rw [insertPlaced]
    generalize regrow key x (insertPlaced key x order d (childFor (notAbove key x) t.1 t.2)) t.1
      t.2 = g at *
    obtain ⟨first, rest⟩ := g
    have hroot' : root ≤ rest.length := Nat.le_trans hroot h₃
    dsimp only at h₁ h₂ h₃ h₄ ⊢
    rcases length_cut horder hroot' (by omega) with
      ⟨hcut, hle'⟩ | ⟨left, ⟨a, s⟩, right, hcut, rfl, hleft, hright⟩
    · rw [cutPlaced, hcut]
      exact ⟨hroot', hle', h₁, h₂⟩
    · have hgather := length_gather (fun e : α × Tree α d => key e.1) right
      rw [cutPlaced, hcut]
      refine ⟨⟨hleft.1, hleft.2, h₁, fun e he => h₂ e (mem_append_left _ he)⟩,
        ⟨hgather.symm ▸ hright.1, hgather.symm ▸ hright.2, h₂ (a, s) (by simp), fun e he => ?_⟩⟩
      exact h₂ e (by simp [(perm_gather _ right).mem_iff.mp he])

/-! ### Different keys -/

/-- The keys ascend. -/
def Climbs (key : α → κ) (l : List α) : Prop := l.Pairwise fun a b => key a < key b

theorem Climbs.ascends {key : γ → κ} (h : Climbs key l) : Ascends key l :=
  h.imp le_of_lt

/-- A value with a new key comes between the smaller and the larger keys. -/
theorem Inserted.climbs {x : α} {l l' : List α} (h : Inserted (notAbove key x) x l l')
    (hl : Climbs key l) (hnew : ∀ a ∈ l, key a ≠ key x) : Climbs key l' := by
  obtain ⟨a, b, rfl, ha, hb, rfl⟩ := h
  obtain ⟨hasc, hbsc, hab⟩ := List.pairwise_append.mp hl
  have hlt : ∀ e ∈ a, key e < key x := fun e he =>
    lt_of_le_of_ne (notAbove_iff.mp (ha e he)) (hnew e (mem_append_left _ he))
  refine List.pairwise_append.mpr ⟨hasc, List.pairwise_cons.mpr ⟨fun e he => ?_, hbsc⟩, ?_⟩
  · exact notAbove_eq_false_iff.mp (hb e he)
  · intro e he e' he'
    rcases List.mem_cons.mp he' with rfl | he'
    · exact hlt e he
    · exact hab e he e' he'

theorem place_of_lt {key : γ → κ} {e : γ} (h : ∀ f ∈ l, key e < key f) :
    place key e l = e :: l := by
  cases l with
  | nil => rfl
  | cons f l =>
    have hf := notAbove_eq_false_iff.mpr (h f mem_cons_self)
    simp [place, hf]

theorem gather_of_climbs {key : γ → κ} (h : Climbs key l) : gather key l = l := by
  induction l with
  | nil => rfl
  | cons e l ih =>
    obtain ⟨he, hl⟩ := List.pairwise_cons.mp h
    change place key e (gather key l) = e :: l
    rw [ih hl, place_of_lt he]

theorem cutPlaced_eq_cut {key : γ → κ} (horder : 0 < order) {entries : List γ}
    (h : Climbs key entries) : cutPlaced key order entries = cut order entries := by
  rcases Nat.lt_or_ge entries.length order with hlt | hge
  · rw [cutPlaced_of_lt hlt, cut_of_lt hlt]
  · obtain ⟨left, e, right, hcut, hcutPlaced, rfl, -⟩ := cutPlaced_of_le hge horder key
    have hright := (List.pairwise_cons.mp (List.pairwise_append.mp h).2.1).2
    rw [hcutPlaced, hcut, gather_of_climbs hright]

theorem regrow_eq_graft {x : α} (ins : β → β × Option (α × β)) (t : β) {rest : List (α × β)}
    (hrest : Ascends (fun e : α × β => key e.1) rest)
    (hgraft : Climbs (fun e : α × β => key e.1) (graft (notAbove key x) ins t rest).2) :
    regrow key x (ins (childFor (notAbove key x) t rest)) t rest =
      graft (notAbove key x) ins t rest := by
  rcases regrow_cases t hrest with
    ⟨hright, hchild, heq⟩ | ⟨left, a, s, right, rfl, hleft, ha, hright, hchild, heq⟩
  · have hg := graft_first ins t fun e he => notAbove_eq_false_iff.mpr (hright e he)
    rw [hg] at hgraft ⊢
    rw [heq, hchild]
    rcases hup : (ins t).2 with _ | e
    · rfl
    · rw [hup] at hgraft
      exact congrArg (Prod.mk _) (place_of_lt (List.pairwise_cons.mp hgraft).1)
  · have hg : graft (notAbove key x) ins t (left ++ (a, s) :: right) =
        (t, left ++ (a, (ins s).1) :: ((ins s).2.toList ++ right)) :=
      graft_last ins t (fun e he => notAbove_iff.mpr (hleft e he)) (notAbove_iff.mpr ha)
        fun e he => notAbove_eq_false_iff.mpr (hright e he)
    rw [hg] at hgraft ⊢
    rw [heq, hchild]
    rcases hup : (ins s).2 with _ | e
    · rfl
    · -- what goes up comes right behind the entry of the tree
      have hcons : left ++ (a, (ins s).1) :: ((some e).toList ++ right) =
          left ++ [(a, (ins s).1)] ++ e :: right := by simp
      have happend : left ++ (a, (ins s).1) :: right = left ++ [(a, (ins s).1)] ++ right := by simp
      rw [hup, hcons] at hgraft
      obtain ⟨-, he, hle⟩ := List.pairwise_append.mp hgraft
      rw [hcons, happend, Option.elim_some,
        place_append fun f hf => (hle f hf e mem_cons_self).le,
        place_of_lt (List.pairwise_cons.mp he).1]

/-- **Among different keys** every entry that is placed is in order already. -/
theorem insertPlaced_eq_insert (horder : 0 < order) (x : α) (d : ℕ) (t : Tree α d)
    (ht : Climbs key (toList d t)) (hnew : ∀ a ∈ toList d t, key a ≠ key x) :
    insertPlaced key x order d t = insert (notAbove key x) x order d t := by
  induction d with
  | zero =>
    have hplace := (inserted_takeWhile (x := x) (split_of_ascends x ht.ascends)).climbs ht hnew
    exact cutPlaced_eq_cut horder hplace
  | succ d ih =>
    have hsub := childFor_sublist x ht.ascends
    have hbelow := ih (childFor (notAbove key x) t.1 t.2) (ht.sublist hsub)
      fun a ha => hnew a (hsub.subset ha)
    have hclimbs :=
      (inserted_insert horder (d + 1) t (split_of_ascends x ht.ascends)).climbs ht hnew
    rw [grownList_insert_succ horder] at hclimbs
    have hrest := ascends_keys (List.pairwise_append.mp ht.ascends).2.1
    have hkeys : Climbs (fun e : α × Tree α d => key e.1)
        (graft (notAbove key x) (insert (notAbove key x) x order d) t.1 t.2).2 :=
      (pairwise_map (f := Prod.fst)).mp
        ((List.pairwise_append.mp hclimbs).2.1.sublist (keys_sublist (toList d) _))
    rw [insertPlaced, insert, hbelow, regrow_eq_graft _ _ hrest hkeys]
    generalize graft (notAbove key x) (insert (notAbove key x) x order d) t.1 t.2 = g at hkeys ⊢
    obtain ⟨first, rest⟩ := g
    have hplaced := cutPlaced_eq_cut horder hkeys
    dsimp only at hplaced ⊢
    rcases hcut : cut order rest with ⟨left, _ | ⟨⟨a, s⟩, right⟩⟩
    · simp only [hplaced, hcut]
    · simp only [hplaced, hcut]

end RustExample.BTree
