import RustExample.FindDiff.Matches
import RustExample.Foundation.Components
import RustExample.Foundation.Run

/-!
# Groups of similar lines

The similar pairs are put together to groups of lines: the lines get numbers in the order in which
they first occur, the numbers form a forest of parents in which every pair joins two trees, and the
lines under one root are a group.

Source: `fs_workspace_example/find_diff/src/main.rs`.

* `find_root` is limited to a number of calls, beyond which there is no result. An index out of
  range is no result either.
* `intoValues` lists the values of a hash map in some order.
-/

namespace RustExample.FindDiff

open List

/-! ### The forest -/

/-- The root above an index; on the way back every index is pointed at it. -/
def findRoot : ℕ → List ℕ → ℕ → Option (ℕ × List ℕ)
  | 0, _, _ => none
  | fuel + 1, parents, index =>
    parents[index]?.bind fun parent =>
      if parent = index then some (index, parents)
      else (findRoot fuel parents parent).map fun (root, parents) => (root, parents.set index root)

/-- Joins the classes of two numbers. -/
def union (fuel : ℕ) (parents : List ℕ) (left right : ℕ) : Option (List ℕ) :=
  (findRoot fuel parents left).bind fun (leftRoot, parents) =>
    (findRoot fuel parents right).map fun (rightRoot, parents) =>
      if leftRoot ≠ rightRoot then parents.set rightRoot leftRoot else parents

/-! ### The lines of the pairs -/

/-- The lines that occurred so far, their numbers, and the parents of the numbers. -/
structure Numbering where
  indices : KeyStore ℕ ℕ
  lines : List ℕ
  parents : List ℕ

namespace Numbering

/-- No line is numbered. -/
def empty : Numbering := ⟨∅, [], []⟩

/-- The number of a line, which is a new one if the line did not occur before. -/
def matchLineIndex (n : Numbering) (line : ℕ) : ℕ × Numbering :=
  match n.indices[line]? with
  | some index => (index, n)
  | none =>
    let index := n.lines.length
    (index, ⟨n.indices.insert line index, n.lines ++ [line], n.parents ++ [index]⟩)

/-- One turn of the loop over the pairs. -/
def joinPair (fuel : ℕ) (n : Numbering) (item : LinePair) : Option Numbering :=
  let (leftIndex, n) := n.matchLineIndex item.left
  let (rightIndex, n) := n.matchLineIndex item.right
  (union fuel n.parents leftIndex rightIndex).map fun parents => { n with parents }

/-- One turn of the loop over the numbered lines. -/
def collectLine (fuel : ℕ) (acc : List ℕ × KeyStore ℕ (List ℕ)) (ref : ℕ × ℕ) :
    Option (List ℕ × KeyStore ℕ (List ℕ)) :=
  (findRoot fuel acc.1 ref.2).map fun (root, parents) => (parents, acc.2.pushTo root ref.1)

/-- The lines by their roots. -/
def groupsByRoot (fuel : ℕ) (n : Numbering) : Option (KeyStore ℕ (List ℕ)) :=
  (n.lines.zipIdx.foldlM (collectLine fuel) (n.parents, ∅)).map Prod.snd

end Numbering

/-- The groups of the pairs. -/
def groupMatches (intoValues : KeyStore ℕ (List ℕ) → List (List ℕ)) (fuel : ℕ)
    (pairs : List LinePair) : Option (List (List ℕ)) :=
  (pairs.foldlM (Numbering.joinPair fuel) .empty).bind fun n =>
    (n.groupsByRoot fuel).map intoValues

/-! ### Roots -/

/-- The second forest has the roots of the first one, and no longer ways to them. -/
structure Compressed (parents parents' : List ℕ) : Prop where
  length_eq : parents'.length = parents.length
  leads : ∀ i r d, Leads parents i r d → ∃ d' ≤ d, Leads parents' i r d'

theorem Compressed.refl (parents : List ℕ) : Compressed parents parents :=
  ⟨rfl, fun _ _ d h => ⟨d, Nat.le_refl d, h⟩⟩

theorem Compressed.trans {p p' p'' : List ℕ} (h : Compressed p p') (h' : Compressed p' p'') :
    Compressed p p'' := by
  refine ⟨h'.length_eq.trans h.length_eq, fun i r d hlead => ?_⟩
  obtain ⟨d', hle, hlead'⟩ := h.leads i r d hlead
  obtain ⟨d'', hle', hlead''⟩ := h'.leads i r d' hlead'
  exact ⟨d'', Nat.le_trans hle' hle, hlead''⟩

variable {parents : List ℕ} {i r d : ℕ}

/-- **The root above an index** is found in as many calls as there are steps to it. -/
theorem findRoot_of_leads (h : Leads parents i r d) :
    ∃ parents', Compressed parents parents' ∧
      ∀ fuel, d < fuel → findRoot fuel parents i = some (r, parents') := by
  induction h with
  | @root i h =>
    refine ⟨parents, .refl parents, fun fuel hfuel => ?_⟩
    obtain ⟨fuel, rfl⟩ := Nat.exists_eq_add_of_lt hfuel
    simp [findRoot, h]
  | @step i p r d h hne hlead ih =>
    obtain ⟨parents₁, hcomp, hfind⟩ := ih
    have hlead' : Leads parents i r (d + 1) := .step h hne hlead
    have hroot : i ≠ r := by
      rintro rfl
      exact absurd (hlead'.unique (.root hlead.parent_root)).2 (Nat.succ_ne_zero d)
    obtain ⟨e, -, hlead₁⟩ := hcomp.leads i r _ hlead'
    refine ⟨parents₁.set i r, hcomp.trans ⟨List.length_set, fun j r' d' hj => ?_⟩,
      fun fuel hfuel => ?_⟩
    · exact hlead₁.set_root hroot hj
    · obtain ⟨fuel, rfl⟩ : ∃ k, fuel = k + 1 := Nat.exists_eq_succ_of_ne_zero (by omega)
      simp [findRoot, h, hne, hfind fuel (by omega)]

/-- **Joining two indices**: what was under the right root is under the left one. -/
theorem union_of_leads {left right leftRoot rightRoot dl dr : ℕ}
    (hleft : Leads parents left leftRoot dl) (hright : Leads parents right rightRoot dr) :
    ∃ parents', parents'.length = parents.length ∧
      (∀ i r d, Leads parents i r d →
        ∃ d' ≤ d + 1, Leads parents' i (if r = rightRoot then leftRoot else r) d') ∧
      ∀ fuel, dl < fuel → dr < fuel → union fuel parents left right = some parents' := by
  obtain ⟨parents₁, hcomp₁, hfind₁⟩ := findRoot_of_leads hleft
  obtain ⟨e, he, hright₁⟩ := hcomp₁.leads _ _ _ hright
  obtain ⟨parents₂, hcomp₂, hfind₂⟩ := findRoot_of_leads hright₁
  have hcomp := hcomp₁.trans hcomp₂
  have hunion : ∀ fuel, dl < fuel → dr < fuel → union fuel parents left right =
      some (if leftRoot ≠ rightRoot then parents₂.set rightRoot leftRoot else parents₂) := by
    intro fuel hl hr
    simp [union, hfind₁ fuel hl, hfind₂ fuel (by omega)]
  refine ⟨_, ?_, fun i r d h => ?_, hunion⟩
  · split_ifs
    · exact List.length_set.trans hcomp.length_eq
    · exact hcomp.length_eq
  · obtain ⟨d', hle, h'⟩ := hcomp.leads i r d h
    by_cases hne : leftRoot = rightRoot
    · rw [if_neg (not_not.mpr hne)]
      refine ⟨d', by omega, ?_⟩
      split_ifs with hr
      · exact hne ▸ hr ▸ h'
      · exact h'
    · obtain ⟨_, -, hl'⟩ := hcomp.leads _ _ _ hleft
      obtain ⟨_, -, hr'⟩ := hcomp.leads _ _ _ hright
      rw [if_pos hne]
      obtain ⟨d'', hle', h''⟩ := h'.link hl'.parent_root hr'.parent_root hne
      exact ⟨d'', by omega, h''⟩

/-! ### Representatives -/

namespace Numbering

/-- The root of every line that occurred is the number of its representative, at most `k` steps
away; another line represents itself. -/
structure Shows (n : Numbering) (rep : ℕ → ℕ) (k : ℕ) : Prop where
  indexed : ∀ line index : ℕ, n.indices[line]? = some index ↔ n.lines[index]? = some line
  length_eq : n.parents.length = n.lines.length
  known : ∀ index line : ℕ, n.lines[index]? = some line →
    ∃ root d, d ≤ k ∧ Leads n.parents index root d ∧ n.lines[root]? = some (rep line)
  unknown : ∀ line, line ∉ n.lines → rep line = line

variable {n : Numbering} {rep : ℕ → ℕ} {k : ℕ}

theorem shows_empty : empty.Shows id 0 := by
  refine ⟨fun line index => ?_, rfl, fun index line h => ?_, fun _ _ => rfl⟩
  · simp [empty]
  · simp [empty] at h

namespace Shows

theorem index_unique (h : n.Shows rep k) {line i j : ℕ} (hi : n.lines[i]? = some line)
    (hj : n.lines[j]? = some line) : i = j :=
  Option.some.inj (((h.indexed line i).mpr hi).symm.trans ((h.indexed line j).mpr hj))

theorem nodup (h : n.Shows rep k) : n.lines.Nodup := by
  refine List.nodup_iff_getElem?_ne_getElem?.mpr fun i j hij hj heq => ?_
  have hget := getElem?_eq_getElem hj
  exact absurd (h.index_unique (heq.trans hget) hget) (Nat.ne_of_lt hij)

/-- A line represents itself or is represented by a line that occurred. -/
theorem rep_mem (h : n.Shows rep k) {line : ℕ} (hline : line ∈ n.lines) : rep line ∈ n.lines := by
  obtain ⟨index, hindex⟩ := List.mem_iff_getElem?.mp hline
  obtain ⟨root, -, -, -, hroot⟩ := h.known index line hindex
  exact mem_of_getElem? hroot

/-- **A line gets a number**, and the representatives stay. -/
theorem matchLineIndex (h : n.Shows rep k) (line : ℕ) :
    (n.matchLineIndex line).2.Shows rep k ∧
      (n.matchLineIndex line).2.lines[(n.matchLineIndex line).1]? = some line ∧
      (∀ index old : ℕ, n.lines[index]? = some old →
        (n.matchLineIndex line).2.lines[index]? = some old) ∧
      ∀ x, x ∈ (n.matchLineIndex line).2.lines ↔ x ∈ n.lines ∨ x = line := by
  cases hindex : n.indices[line]? with
  | some index =>
    have hget := (h.indexed line index).mp hindex
    have heq : n.matchLineIndex line = (index, n) := by simp [Numbering.matchLineIndex, hindex]
    rw [heq]
    refine ⟨h, hget, fun _ _ hold => hold, fun x => ⟨.inl, fun hx => hx.elim id ?_⟩⟩
    rintro rfl
    exact mem_of_getElem? hget
  | none =>
    have heq : n.matchLineIndex line = (n.lines.length, ⟨n.indices.insert line n.lines.length,
        n.lines ++ [line], n.parents ++ [n.lines.length]⟩) := by
      simp [Numbering.matchLineIndex, hindex]
    have hnew : line ∉ n.lines := by
      intro hmem
      obtain ⟨index, hget⟩ := List.mem_iff_getElem?.mp hmem
      rw [(h.indexed line index).mpr hget] at hindex
      cases hindex
    have hold {index old : ℕ} (hget : n.lines[index]? = some old) :
        (n.lines ++ [line])[index]? = some old :=
      getElem?_append_left (List.getElem?_eq_some_iff.mp hget).1 ▸ hget
    have hlast : (n.lines ++ [line])[n.lines.length]? = some line := getElem?_concat_length
    rw [heq]
    refine ⟨⟨fun x index => ?_, ?_, fun index x hget => ?_, fun x hx => ?_⟩, hlast,
      fun _ _ => hold, fun x => by simp⟩
    · rw [KeyStore.getElem?_put, getElem?_snoc, ← h.indexed x index]
      by_cases hx : line = x
      · subst hx
        simp [hindex, eq_comm]
      · simp [hx]
    · simp [h.length_eq]
    · rcases getElem?_snoc.mp hget with hget | ⟨rfl, rfl⟩
      · obtain ⟨root, d, hle, hlead, hroot⟩ := h.known index x hget
        exact ⟨root, d, hle, hlead.append _, hold hroot⟩
      · refine ⟨n.lines.length, 0, Nat.zero_le k, .root ?_, ?_⟩
        · rw [← h.length_eq]
          exact getElem?_concat_length
        · rw [h.unknown line hnew]
          exact hlast
    · exact h.unknown x fun hmem => hx (mem_append_left _ hmem)

/-- **A pair joins two classes**, and makes the ways to the roots longer by at most one. -/
theorem joinPair (h : n.Shows rep k) (item : LinePair) :
    ∃ n' : Numbering, n'.Shows (mergeClasses rep item.left item.right) (k + 1) ∧
      (∀ x, x ∈ n'.lines ↔ x ∈ n.lines ∨ x = item.left ∨ x = item.right) ∧
      ∀ fuel, k < fuel → n.joinPair fuel item = some n' := by
  obtain ⟨h₁, hleft, -, hmem₁⟩ := h.matchLineIndex item.left
  obtain ⟨h₂, hright, hold₂, hmem₂⟩ := h₁.matchLineIndex item.right
  obtain ⟨leftRoot, dl, hdl, hleadl, hrootl⟩ := h₂.known _ _ (hold₂ _ _ hleft)
  obtain ⟨rightRoot, dr, hdr, hleadr, hrootr⟩ := h₂.known _ _ hright
  obtain ⟨parents, hlen, hleads, hunion⟩ := union_of_leads hleadl hleadr
  refine ⟨{ ((n.matchLineIndex item.left).2.matchLineIndex item.right).2 with parents },
    ⟨h₂.indexed, hlen.trans h₂.length_eq, fun index line hget => ?_, fun line hline => ?_⟩,
    fun x => ?_, fun fuel hfuel => ?_⟩
  · obtain ⟨root, d, hle, hlead, hroot⟩ := h₂.known index line hget
    obtain ⟨d', hle', hlead'⟩ := hleads _ _ _ hlead
    have hiff : root = rightRoot ↔ rep line = rep item.right := by
      constructor
      · rintro rfl
        exact Option.some.inj (hroot.symm.trans hrootr)
      · exact fun heq => h₂.index_unique hroot (heq ▸ hrootr)
    refine ⟨_, d', by omega, hlead', ?_⟩
    by_cases hr : root = rightRoot
    · rw [if_pos hr, mergeClasses, if_pos (hiff.mp hr)]
      exact hrootl
    · rw [if_neg hr, mergeClasses, if_neg fun heq => hr (hiff.mpr heq)]
      exact hroot
  · have hne : rep line ≠ rep item.right := by
      rw [h₂.unknown line hline]
      rintro heq
      exact hline (heq ▸ mem_of_getElem? hrootr)
    rw [mergeClasses, if_neg hne, h₂.unknown line hline]
  · exact (hmem₂ x).trans ((or_congr_left (hmem₁ x)).trans or_assoc)
  · simp [Numbering.joinPair, hunion fuel (by omega) (by omega)]

end Shows

/-! ### All pairs -/

/-- **The loop over the pairs** leads to a forest for their components. -/
theorem foldlM_joinPair (pairs : List LinePair) :
    ∃ n : Numbering, n.Shows (components (pairs.map fun p => (p.left, p.right))) pairs.length ∧
      (∀ x, x ∈ n.lines ↔ ∃ p ∈ pairs, x = p.left ∨ x = p.right) ∧
      ∀ fuel, pairs.length ≤ fuel → pairs.foldlM (joinPair fuel) .empty = some n := by
  induction pairs using List.reverseRecOn with
  | nil => exact ⟨.empty, shows_empty, by simp [empty], fun _ _ => rfl⟩
  | append_singleton pairs p ih =>
    obtain ⟨n, hshows, hmem, hrun⟩ := ih
    obtain ⟨n', hshows', hmem', hstep⟩ := hshows.joinPair p
    refine ⟨n', ?_, fun x => ?_, fun fuel hfuel => ?_⟩
    · rw [map_append, map_singleton, components_snoc, length_append]
      exact hshows'
    · rw [hmem', hmem]
      simp [or_and_right, exists_or]
    · have hlen : pairs.length < fuel := by
        rw [length_append, length_singleton] at hfuel
        exact Nat.lt_of_succ_le hfuel
      rw [foldlM_append, hrun fuel (Nat.le_of_lt hlen)]
      simp [hstep fuel hlen]

/-- The loop over numbered lines puts every line under the root of its number. -/
theorem foldlM_collectLine {parents : List ℕ} {groups : KeyStore ℕ (List ℕ)} {label : ℕ → ℕ}
    {refs : List (ℕ × ℕ)}
    (h : ∀ ref ∈ refs, ∃ d ≤ k, Leads parents ref.2 (label ref.1) d) :
    ∃ parents', ∀ fuel, k < fuel → refs.foldlM (collectLine fuel) (parents, groups) =
      some (parents', (refs.map Prod.fst).foldl
        (fun groups line => groups.pushTo (label line) line) groups) := by
  induction refs generalizing parents groups with
  | nil => exact ⟨parents, fun _ _ => rfl⟩
  | cons ref refs ih =>
    obtain ⟨⟨d, hle, hlead⟩, hrefs⟩ := List.forall_mem_cons.mp h
    obtain ⟨parents₁, hcomp, hfind⟩ := findRoot_of_leads hlead
    have hrefs₁ : ∀ ref ∈ refs, ∃ d ≤ k, Leads parents₁ ref.2 (label ref.1) d := by
      intro ref hmem
      obtain ⟨d, hle, hlead⟩ := hrefs ref hmem
      obtain ⟨d', hle', hlead'⟩ := hcomp.leads _ _ _ hlead
      exact ⟨d', Nat.le_trans hle' hle, hlead'⟩
    obtain ⟨parents', hrun⟩ := @ih parents₁ (groups.pushTo (label ref.1) ref.1) hrefs₁
    refine ⟨parents', fun fuel hfuel => ?_⟩
    have hstep : collectLine fuel (parents, groups) ref =
        some (parents₁, groups.pushTo (label ref.1) ref.1) := by
      simp [collectLine, hfind fuel (by omega)]
    rw [foldlM_cons, hstep]
    exact hrun fuel hfuel

/-- **The groups** are the lines with one representative. -/
theorem Shows.groupsByRoot (h : n.Shows rep k) :
    ∃ label : ℕ → ℕ, (∀ x ∈ n.lines, ∀ y ∈ n.lines, label x = label y ↔ rep x = rep y) ∧
      ∀ fuel, k < fuel → n.groupsByRoot fuel = some (KeyStore.groupBy label n.lines) := by
  -- The number of the representative.
  let label : ℕ → ℕ := fun line => n.indices[rep line]?.getD 0
  have hlabel : ∀ line ∈ n.lines, n.lines[label line]? = some (rep line) := by
    intro line hline
    obtain ⟨index, hindex⟩ := List.mem_iff_getElem?.mp (h.rep_mem hline)
    have hget : label line = index := by
      simp [label, (h.indexed (rep line) index).mpr hindex]
    rw [hget, hindex]
  have hrefs : ∀ ref ∈ n.lines.zipIdx, ∃ d ≤ k, Leads n.parents ref.2 (label ref.1) d := by
    rintro ⟨line, index⟩ hmem
    have hget := List.mem_zipIdx_iff_getElem?.mp hmem
    obtain ⟨root, d, hle, hlead, hroot⟩ := h.known index line hget
    obtain rfl := h.index_unique (hlabel line (mem_of_getElem? hget)) hroot
    exact ⟨d, hle, hlead⟩
  obtain ⟨parents', hrun⟩ := foldlM_collectLine hrefs
  refine ⟨label, fun x hx y hy => ⟨fun heq => ?_, fun heq => congrArg
    (fun line => n.indices[line]?.getD 0) heq⟩, fun fuel hfuel => ?_⟩
  · have hx := hlabel x hx
    rw [heq, hlabel y hy] at hx
    exact (Option.some.inj hx).symm
  · rw [Numbering.groupsByRoot, hrun fuel hfuel, zipIdx_map_fst]
    rfl

end Numbering

/-- **Duplicate groups.** The groups have every line that occurs in a pair once, and no other one,
and two lines are in one group exactly if a chain of pairs connects them. -/
theorem groupMatches_spec {intoValues : KeyStore ℕ (List ℕ) → List (List ℕ)}
    (hvalues : ∀ groups, (intoValues groups).Perm groups.vals) (pairs : List LinePair) :
    ∃ groups,
      (∀ fuel, pairs.length < fuel → groupMatches intoValues fuel pairs = some groups) ∧
      groups.flatten.Nodup ∧
      (∀ line, line ∈ groups.flatten ↔ ∃ p ∈ pairs, line = p.left ∨ line = p.right) ∧
      ∀ left ∈ groups.flatten, ∀ right,
        (∃ group ∈ groups, left ∈ group ∧ right ∈ group) ↔
          Connected (pairs.map fun p => (p.left, p.right)) left right := by
  obtain ⟨n, hshows, hmem, hrun⟩ := Numbering.foldlM_joinPair pairs
  obtain ⟨label, hlabel, hgroups⟩ := hshows.groupsByRoot
  have hperm := hvalues (KeyStore.groupBy label n.lines)
  have hflat := hperm.flatten
  have hlines : ∀ line, line ∈ (intoValues (KeyStore.groupBy label n.lines)).flatten ↔
      line ∈ n.lines := fun line => hflat.mem_iff.trans KeyStore.mem_flatten_groupBy
  refine ⟨_, fun fuel hfuel => ?_,
    hflat.nodup_iff.mpr (KeyStore.nodup_flatten_groupBy hshows.nodup),
    fun line => (hlines line).trans (hmem line), fun left hleft right => ?_⟩
  · rw [groupMatches, hrun fuel (Nat.le_of_lt hfuel), Option.bind_some, hgroups fuel hfuel,
      Option.map_some]
  · have hleft := (hlines left).mp hleft
    have hgroup : (∃ group ∈ intoValues (KeyStore.groupBy label n.lines),
        left ∈ group ∧ right ∈ group) ↔
        left ∈ n.lines ∧ right ∈ n.lines ∧ label left = label right := by
      simp only [hperm.mem_iff]
      exact KeyStore.mem_group_iff
    rw [hgroup, ← components_eq_iff]
    constructor
    · rintro ⟨-, hright, heq⟩
      exact (hlabel left hleft right hright).mp heq
    · intro heq
      have hright : right ∈ n.lines := by
        by_contra hright
        exact hright (hshows.unknown right hright ▸ heq ▸ hshows.rep_mem hleft)
      exact ⟨hleft, hright, (hlabel left hleft right hright).mpr heq⟩

/-- A chain of pairs, and a pair of its own. -/
theorem groupMatches_spec_chain :
    ∃ groups, groupMatches KeyStore.vals 4 [⟨0, 1⟩, ⟨1, 2⟩, ⟨5, 4⟩] = some groups ∧
      ∃ group ∈ groups, 0 ∈ group ∧ 2 ∈ group := by
  obtain ⟨groups, hrun, -, hmem, hconn⟩ :=
    groupMatches_spec (fun _ => .refl _) [⟨0, 1⟩, ⟨1, 2⟩, ⟨5, 4⟩]
  have hzero : 0 ∈ groups.flatten := (hmem 0).mpr ⟨⟨0, 1⟩, by simp, .inl rfl⟩
  have hchain : Connected [((0 : ℕ), (1 : ℕ)), (1, 2), (5, 4)] 0 2 :=
    .trans 0 1 2 (.rel 0 1 (by simp)) (.rel 1 2 (by simp))
  exact ⟨groups, hrun 4 (by decide), (hconn 0 hzero 2).mpr hchain⟩

end RustExample.FindDiff
