import Mathlib.Data.Prod.Lex
import RustExample.Foundation.Chunks
import RustExample.Foundation.KeyStore
import RustExample.Foundation.Sorting

/-!
# Similar lines by an inverted index

Lines of documents that share a key are candidates for being similar. The keys are collected in an
index with the lines they occur in; keys with one line or with too many lines are left out. The
keys of the index are split over workers, every worker collects the similar pairs of its keys, and
the results are merged.

Source: `fs_workspace_example/find_diff/src/main.rs`.

* `iterate` lists the entries of a hash map in some order, and `nodeIter` the keys of a Merkle
  search tree into which the given keys were put. `isSimilarPair` is any predicate.
* A set of pairs that was seen is a list.
-/

namespace RustExample.FindDiff

open List

/-- Keys of more lines are left out. -/
def maxBroadKeyPostings : ℕ := 256

/-! ### Documents -/

/-- A line with its keys. -/
structure Line where
  text : String
  candidateKeys : List String

/-- A named list of lines. -/
structure Document where
  name : String
  lines : List Line

/-- The place of a line. -/
structure LineRef where
  document : ℕ
  line : ℕ

/-- The line at a place. -/
def Document.at (documents : List Document) (r : LineRef) : Option Line :=
  documents[r.document]?.bind fun item => item.lines[r.line]?

/-- Documents and references to their lines, all of which are lines of the documents. -/
structure IndexedDocuments where
  documents : List Document
  lines : List LineRef
  inBounds : ∀ r ∈ lines, (Document.at documents r).isSome

namespace IndexedDocuments

/-- Numbers the lines of documents. -/
def new (documents : List Document) : IndexedDocuments where
  documents := documents
  lines := documents.zipIdx.flatMap fun (item, document) =>
    (List.range item.lines.length).map fun line => ⟨document, line⟩
  inBounds := by
    intro r hr
    obtain ⟨⟨item, document⟩, hitem, hr⟩ := List.mem_flatMap.mp hr
    obtain ⟨line, hline, rfl⟩ := List.mem_map.mp hr
    have hget := List.mem_zipIdx_iff_getElem?.mp hitem
    have hlt := List.mem_range.mp hline
    simp only [Document.at] at hget ⊢
    simp [hget, hlt]

/-- The line with a number. -/
def line (d : IndexedDocuments) (lineIndex : ℕ) : Option Line :=
  d.lines[lineIndex]?.bind (Document.at d.documents)

/-- The candidate keys of a line. -/
def keysAt (d : IndexedDocuments) (lineIndex : ℕ) : List String :=
  (d.line lineIndex).elim [] (·.candidateKeys)

end IndexedDocuments

/-- A pair of line numbers. -/
structure LinePair where
  left : ℕ
  right : ℕ
  deriving DecidableEq

/-- Pairs are ordered by the left line, then by the right one. -/
instance : LinearOrder LinePair :=
  .lift' (fun p => toLex (p.left, p.right)) fun p q h => by
    obtain ⟨hleft, hright⟩ := Prod.mk.inj (toLex.injective h)
    cases p
    cases q
    simp_all

/-! ### The index -/

/-- The lines of each key. -/
abbrev CandidateIndex := KeyStore String (List ℕ)

/-- Adds a line to a key. -/
def pushLine (index : CandidateIndex) (key : String) (lineIndex : ℕ) : CandidateIndex :=
  index.insert key (index[key]?.getD [] ++ [lineIndex])

/-- The index before keys are left out. -/
def fullIndex (documents : IndexedDocuments) : CandidateIndex :=
  documents.lines.zipIdx.foldl (fun index (r, lineIndex) =>
    ((Document.at documents.documents r).elim [] (·.candidateKeys)).foldl
      (fun index key => pushLine index key lineIndex) index) ∅

/-- A hash map with the given entries. -/
def collectEntries (entries : List (String × List ℕ)) : CandidateIndex :=
  (∅ : CandidateIndex).writeAll (entries.map fun e => ⟨e.1, some e.2⟩)

/-- The lines of a key in order, if they are two or more, but not too many. -/
def sievePostings (entry : String × List ℕ) : Option (String × List ℕ) :=
  let lineIndices := sortDedup entry.2
  if 2 ≤ lineIndices.length ∧ lineIndices.length ≤ maxBroadKeyPostings then
    some (entry.1, lineIndices)
  else none

/-- The lines of all keys. -/
def buildGlobalCandidateIndex (iterate : CandidateIndex → List (String × List ℕ))
    (documents : IndexedDocuments) : CandidateIndex :=
  collectEntries ((iterate (fullIndex documents)).filterMap sievePostings)

/-- The quotient, rounded up. -/
def divCeil (n d : ℕ) : ℕ := (n + d - 1) / d

/-- Cuts a list into shards. -/
def splitEvenly {α : Type} (items : List α) (shardCount : ℕ) : List (List α) :=
  if items.isEmpty then [] else chunks (divCeil items.length (max shardCount 1)) items

/-! ### The pairs of a shard -/

/-- The pairs of a list of lines, an earlier one on the left. -/
def pairsOf : List ℕ → List LinePair
  | [] => []
  | left :: lineIndices => lineIndices.map (⟨left, ·⟩) ++ pairsOf lineIndices

/-- The pairs that were seen and those that are similar. -/
structure Found where
  seen : List LinePair
  pairs : List LinePair

/-- Takes a pair that is similar and new. -/
def Found.visit (similar : LinePair → Bool) (found : Found) (pair : LinePair) : Found :=
  if pair ∈ found.seen then found
  else if similar pair then ⟨pair :: found.seen, found.pairs ++ [pair]⟩
  else ⟨pair :: found.seen, found.pairs⟩

/-- The similar pairs of a shard. -/
def collectShardMatches (similar : LinePair → Bool) (shard : List (String × List ℕ)) :
    List LinePair :=
  (shard.foldl (fun (found : Found) entry => (pairsOf entry.2).foldl (Found.visit similar) found)
    ⟨[], []⟩).pairs

/-- The similar pairs of lines. -/
def findSimilarLines (iterate : CandidateIndex → List (String × List ℕ))
    (nodeIter : List String → List String)
    (isSimilarPair : IndexedDocuments → LinePair → Bool) (workerCount : ℕ)
    (documents : IndexedDocuments) : List LinePair :=
  let candidateIndex := buildGlobalCandidateIndex iterate documents
  let shardKeys := nodeIter ((iterate candidateIndex).map (·.1))
  let shardCount := min workerCount (max shardKeys.length 1)
  let shards := (splitEvenly shardKeys shardCount).map fun keys =>
    keys.filterMap fun key => candidateIndex[key]?.map fun indices => (key, indices)
  sortDedup (shards.flatMap (collectShardMatches (isSimilarPair documents)))

/-! ### What the index has -/

variable {documents : IndexedDocuments} {key : String}

/-- The lines in which a key occurs. -/
def postings (documents : IndexedDocuments) (key : String) : List ℕ :=
  (List.range documents.lines.length).filter fun lineIndex => key ∈ documents.keysAt lineIndex

/-- Two lines share a key that occurs in two or more lines, but not in too many. -/
def ShareKey (documents : IndexedDocuments) (left right : ℕ) : Prop :=
  ∃ key ∈ documents.keysAt left, key ∈ documents.keysAt right ∧
    2 ≤ (postings documents key).length ∧ (postings documents key).length ≤ maxBroadKeyPostings

theorem mem_postings {i : ℕ} : i ∈ postings documents key ↔ key ∈ documents.keysAt i := by
  simp only [postings, mem_filter, mem_range, decide_eq_true_eq, and_iff_right_iff_imp]
  intro h
  by_contra hlt
  simp [IndexedDocuments.keysAt, IndexedDocuments.line,
    getElem?_eq_none (Nat.le_of_not_lt hlt)] at h

theorem pairwise_postings : (postings documents key).Pairwise (· < ·) :=
  List.pairwise_lt_range.filter _

theorem mem_pushLine {index : CandidateIndex} {key' : String} {i j : ℕ} :
    i ∈ (pushLine index key' j)[key]?.getD [] ↔
      i ∈ index[key]?.getD [] ∨ key' = key ∧ i = j := by
  rw [pushLine, KeyStore.getElem?_put]
  split_ifs with h
  · subst h
    simp
  · simp [h]

theorem mem_foldl_pushLine {index : CandidateIndex} {keys : List String} {i j : ℕ} :
    i ∈ (keys.foldl (fun index key' => pushLine index key' j) index)[key]?.getD [] ↔
      i ∈ index[key]?.getD [] ∨ key ∈ keys ∧ i = j := by
  induction keys generalizing index with
  | nil => simp
  | cons key' keys ih =>
    rw [foldl_cons, ih, mem_pushLine, mem_cons, or_assoc, ← or_and_right,
      eq_comm (a := key')]

theorem mem_fullIndex {i : ℕ} :
    i ∈ (fullIndex documents)[key]?.getD [] ↔ key ∈ documents.keysAt i := by
  have hfold : ∀ (refs : List (LineRef × ℕ)) (index : CandidateIndex),
      i ∈ (refs.foldl (fun index (r, lineIndex) =>
        ((Document.at documents.documents r).elim [] (·.candidateKeys)).foldl
          (fun index key => pushLine index key lineIndex) index) index)[key]?.getD [] ↔
        i ∈ index[key]?.getD [] ∨ ∃ r, (r, i) ∈ refs ∧
          key ∈ (Document.at documents.documents r).elim [] (·.candidateKeys) := by
    intro refs index
    induction refs generalizing index with
    | nil => simp
    | cons ref refs ih =>
      rw [foldl_cons, ih, mem_foldl_pushLine, or_assoc]
      refine or_congr_right ⟨?_, ?_⟩
      · rintro (⟨hkey, rfl⟩ | ⟨r, hr, hkey⟩)
        · exact ⟨ref.1, mem_cons_self, hkey⟩
        · exact ⟨r, mem_cons_of_mem ref hr, hkey⟩
      · rintro ⟨r, hr, hkey⟩
        rcases List.mem_cons.mp hr with rfl | hr
        · exact .inl ⟨hkey, rfl⟩
        · exact .inr ⟨r, hr, hkey⟩
  rw [fullIndex, hfold]
  simp only [Std.ExtTreeMap.getElem?_empty, Option.getD_none, not_mem_nil, false_or,
    mem_zipIdx_iff_getElem?, IndexedDocuments.keysAt, IndexedDocuments.line]
  cases documents.lines[i]? <;> simp

variable {l : List ℕ}

theorem getElem?_collectEntries {entries : List (String × List ℕ)} (h : (entries.map (·.1)).Nodup) :
    (collectEntries entries)[key]? = some l ↔ (key, l) ∈ entries := by
  constructor
  · intro hl
    rcases KeyStore.mem_or_mem_of_getElem?_writeAll hl with ⟨w, hw, rfl, hvalue⟩ | hl
    · obtain ⟨⟨key, l'⟩, he, rfl⟩ := List.mem_map.mp hw
      obtain ⟨⟩ := hvalue
      exact he
    · simp at hl
  · intro he
    have hws : (entries.map fun e => (⟨e.1, some e.2⟩ : KeyStore.Write String (List ℕ))).Pairwise
        fun w w' => w.key ≠ w'.key := List.pairwise_map.mpr (List.pairwise_map.mp h)
    exact KeyStore.getElem?_writeAll_of_mem hws (mem_map_of_mem he) ∅

theorem sievePostings_eq_some {e s : String × List ℕ} :
    sievePostings e = some s ↔ s.1 = e.1 ∧ s.2 = sortDedup e.2 ∧
      2 ≤ (sortDedup e.2).length ∧ (sortDedup e.2).length ≤ maxBroadKeyPostings := by
  dsimp only [sievePostings]
  split_ifs with h
  · simp only [Option.some.injEq, Prod.ext_iff, h, and_self, and_true, eq_comm]
  · simp only [h, and_false]

section Iterate

variable {iterate : CandidateIndex → List (String × List ℕ)}
  (hiterate : ∀ index, (iterate index).Perm index.toList)

include hiterate

theorem mem_iterate {index : CandidateIndex} :
    (key, l) ∈ iterate index ↔ index[key]? = some l :=
  (hiterate index).mem_iff.trans Std.ExtTreeMap.mem_toList_iff_getElem?_eq_some

theorem nodup_iterate (index : CandidateIndex) : ((iterate index).map (·.1)).Nodup := by
  refine ((hiterate index).map _).nodup_iff.mpr (List.pairwise_map.mpr ?_)
  exact index.distinct_keys_toList.imp fun h heq => h (Std.LawfulEqOrd.compare_eq_iff_eq.mpr heq)

/-- **The index** has the keys with two or more lines, but not too many, and all their lines. -/
theorem getElem?_buildGlobalCandidateIndex :
    (buildGlobalCandidateIndex iterate documents)[key]? = some l ↔ l = postings documents key ∧
      2 ≤ (postings documents key).length ∧
        (postings documents key).length ≤ maxBroadKeyPostings := by
  have hnodup : (((iterate (fullIndex documents)).filterMap sievePostings).map (·.1)).Nodup := by
    refine List.pairwise_map.mpr ((List.pairwise_map.mp (nodup_iterate hiterate
      (fullIndex documents))).filterMap _ fun e e' hne s hs s' hs' => ?_)
    rw [(sievePostings_eq_some.mp hs).1, (sievePostings_eq_some.mp hs').1]
    exact hne
  have hpostings : ∀ l₀, (fullIndex documents)[key]? = some l₀ →
      sortDedup l₀ = postings documents key := fun l₀ hl₀ =>
    sortDedup_eq (fun i => by rw [mem_postings, ← mem_fullIndex, hl₀, Option.getD_some])
      pairwise_postings
  rw [buildGlobalCandidateIndex, getElem?_collectEntries hnodup, mem_filterMap]
  constructor
  · rintro ⟨⟨key', l₀⟩, he, hsieve⟩
    obtain ⟨hkey, hl, hlen⟩ := sievePostings_eq_some.mp hsieve
    obtain rfl : key = key' := hkey
    have hsort := hpostings l₀ ((mem_iterate hiterate).mp he)
    rw [show (key, l₀).2 = l₀ from rfl, hsort] at hl hlen
    exact ⟨hl, hlen⟩
  · rintro ⟨rfl, hlen⟩
    cases hl₀ : (fullIndex documents)[key]? with
    | some l₀ =>
      refine ⟨(key, l₀), (mem_iterate hiterate).mpr hl₀, sievePostings_eq_some.mpr ⟨rfl, ?_⟩⟩
      rw [show (key, l₀).2 = l₀ from rfl, hpostings l₀ hl₀]
      exact ⟨rfl, hlen⟩
    | none =>
      obtain ⟨i, hi⟩ := List.length_pos_iff_exists_mem.mp (Nat.lt_of_lt_of_le Nat.two_pos hlen.1)
      rw [mem_postings, ← mem_fullIndex, hl₀] at hi
      simp at hi

end Iterate

/-! ### What the shards find -/

/-- **The shards** are the list of keys, cut. -/
theorem flatten_splitEvenly {α : Type} (items : List α) (shardCount : ℕ) :
    (splitEvenly items shardCount).flatten = items := by
  unfold splitEvenly
  split_ifs with h
  · exact (List.isEmpty_iff.mp h).symm
  · refine flatten_chunks (Nat.div_pos ?_ (by omega)) items
    have := List.length_pos_iff.mpr (by simpa using h)
    omega

theorem mem_pairsOf (hl : l.Pairwise (· < ·)) {p : LinePair} :
    p ∈ pairsOf l ↔ p.left ∈ l ∧ p.right ∈ l ∧ p.left < p.right := by
  induction l with
  | nil => simp [pairsOf]
  | cons a l ih =>
    obtain ⟨ha, hl⟩ := List.pairwise_cons.mp hl
    rw [pairsOf, mem_append, ih hl, mem_map]
    constructor
    · rintro (⟨b, hb, rfl⟩ | ⟨hleft, hright, hlt⟩)
      · exact ⟨mem_cons_self, mem_cons_of_mem a hb, ha b hb⟩
      · exact ⟨mem_cons_of_mem a hleft, mem_cons_of_mem a hright, hlt⟩
    · rintro ⟨hleft, hright, hlt⟩
      rcases List.mem_cons.mp hleft with hleft | hleft <;>
        rcases List.mem_cons.mp hright with hright | hright
      · omega
      · exact .inl ⟨p.right, hright, hleft ▸ rfl⟩
      · have := ha p.left hleft
        omega
      · exact .inr ⟨hleft, hright, hlt⟩

/-- The pairs kept are the similar ones that were seen. -/
def Found.Exact (similar : LinePair → Bool) (found : Found) : Prop :=
  ∀ p, p ∈ found.pairs ↔ p ∈ found.seen ∧ similar p

variable {similar : LinePair → Bool}

theorem Found.mem_seen_visit {found : Found} {pair p : LinePair} :
    p ∈ (found.visit similar pair).seen ↔ p ∈ found.seen ∨ p = pair := by
  unfold visit
  split_ifs with hseen hsim
  · exact ⟨.inl, fun h => h.elim id fun heq => heq ▸ hseen⟩
  · rw [mem_cons, or_comm]
  · rw [mem_cons, or_comm]

theorem Found.Exact.visit {found : Found} (h : found.Exact similar) (pair : LinePair) :
    (found.visit similar pair).Exact similar := by
  intro p
  rw [mem_seen_visit, Found.visit]
  split_ifs with hseen hsim
  · rw [h p]
    refine and_congr_left' ⟨.inl, fun h => h.elim id fun heq => heq ▸ hseen⟩
  · rw [mem_append, mem_singleton, h p, or_and_right]
    exact or_congr_right ⟨fun heq => ⟨heq, heq ▸ hsim⟩, And.left⟩
  · rw [h p, or_and_right]
    exact ⟨.inl, fun h => h.elim id fun heq => absurd (heq.1 ▸ heq.2) hsim⟩

theorem Found.Exact.foldl {found : Found} (h : found.Exact similar) (ps : List LinePair) :
    (ps.foldl (Found.visit similar) found).Exact similar ∧
      ∀ p, p ∈ (ps.foldl (Found.visit similar) found).seen ↔ p ∈ found.seen ∨ p ∈ ps := by
  induction ps generalizing found with
  | nil => exact ⟨h, by simp⟩
  | cons pair ps ih =>
    refine (ih (h.visit pair)).imp id fun hseen p => ?_
    rw [foldl_cons, hseen, mem_seen_visit, mem_cons, or_assoc]

/-- **A worker** finds the similar pairs of the lists of its shard. -/
theorem mem_collectShardMatches {shard : List (String × List ℕ)} {p : LinePair} :
    p ∈ collectShardMatches similar shard ↔
      (∃ e ∈ shard, p ∈ pairsOf e.2) ∧ similar p := by
  have hflat : collectShardMatches similar shard =
      ((shard.flatMap fun e => pairsOf e.2).foldl (Found.visit similar) ⟨[], []⟩).pairs := by
    rw [collectShardMatches, foldl_flatMap]
  have hempty : (⟨[], []⟩ : Found).Exact similar := by simp [Found.Exact]
  obtain ⟨hexact, hseen⟩ := hempty.foldl (shard.flatMap fun e => pairsOf e.2)
  rw [hflat, hexact p, hseen p, mem_flatMap]
  simp

/-- **The merged result** has the similar pairs of the lists of all keys, however they are cut. -/
theorem mem_flatMap_collectShardMatches {index : CandidateIndex} {keys : List String}
    {shardCount : ℕ} {p : LinePair} :
    p ∈ ((splitEvenly keys shardCount).map fun keys => keys.filterMap fun key =>
        index[key]?.map fun indices => (key, indices)).flatMap (collectShardMatches similar) ↔
      (∃ key ∈ keys, ∃ l, index[key]? = some l ∧ p ∈ pairsOf l) ∧ similar p := by
  have hcut : ∀ key, key ∈ keys ↔ ∃ shard ∈ splitEvenly keys shardCount, key ∈ shard := by
    intro key
    rw [← mem_flatten, flatten_splitEvenly]
  simp only [mem_flatMap, mem_map, mem_collectShardMatches]
  constructor
  · rintro ⟨-, ⟨shard, hshard, rfl⟩, ⟨e, he, hp⟩, hsim⟩
    obtain ⟨key, hkey, hlookup⟩ := List.mem_filterMap.mp he
    obtain ⟨l, hl, rfl⟩ := Option.map_eq_some_iff.mp hlookup
    exact ⟨⟨key, (hcut key).mpr ⟨shard, hshard, hkey⟩, l, hl, hp⟩, hsim⟩
  · rintro ⟨⟨key, hkey, l, hl, hp⟩, hsim⟩
    obtain ⟨shard, hshard, hkey⟩ := (hcut key).mp hkey
    refine ⟨_, ⟨shard, hshard, rfl⟩, ⟨(key, l), List.mem_filterMap.mpr ⟨key, hkey, ?_⟩, hp⟩, hsim⟩
    rw [hl, Option.map_some]

/-! ### The result -/

/-- **Similar lines.** Whatever the order of the keys and the number of workers, the result is the
strictly increasing list of the similar pairs of lines that share a key; the shards are the list of
keys, cut. -/
theorem findSimilarLines_spec {iterate : CandidateIndex → List (String × List ℕ)}
    {nodeIter : List String → List String}
    (hiterate : ∀ index, (iterate index).Perm index.toList)
    (hnodeIter : ∀ keys, keys.Nodup → (nodeIter keys).Perm keys)
    (isSimilarPair : IndexedDocuments → LinePair → Bool) (workerCount : ℕ)
    (documents : IndexedDocuments) :
    (findSimilarLines iterate nodeIter isSimilarPair workerCount documents).Pairwise (· < ·) ∧
      (∀ p, p ∈ findSimilarLines iterate nodeIter isSimilarPair workerCount documents ↔
        p.left < p.right ∧ ShareKey documents p.left p.right ∧ isSimilarPair documents p) ∧
      ∀ (keys : List String) (shardCount : ℕ), (splitEvenly keys shardCount).flatten = keys := by
  refine ⟨pairwise_sortDedup _, fun p => ?_, flatten_splitEvenly⟩
  have hkeys : ∀ key, key ∈ nodeIter ((iterate (buildGlobalCandidateIndex iterate
      documents)).map (·.1)) ↔
      ∃ l, (buildGlobalCandidateIndex iterate documents)[key]? = some l := by
    intro key
    rw [(hnodeIter _ (nodup_iterate hiterate _)).mem_iff, mem_map]
    constructor
    · rintro ⟨⟨key, l⟩, he, rfl⟩
      exact ⟨l, (mem_iterate hiterate).mp he⟩
    · rintro ⟨l, hl⟩
      exact ⟨(key, l), (mem_iterate hiterate).mpr hl, rfl⟩
  dsimp only [findSimilarLines]
  rw [mem_sortDedup, mem_flatMap_collectShardMatches, ← and_assoc]
  refine and_congr_left' ⟨?_, ?_⟩
  · rintro ⟨key, -, l, hl, hp⟩
    obtain ⟨rfl, hlen⟩ := (getElem?_buildGlobalCandidateIndex hiterate).mp hl
    obtain ⟨hleft, hright, hlt⟩ := (mem_pairsOf pairwise_postings).mp hp
    exact ⟨hlt, key, mem_postings.mp hleft, mem_postings.mp hright, hlen⟩
  · rintro ⟨hlt, key, hleft, hright, hlen⟩
    have hl := (getElem?_buildGlobalCandidateIndex hiterate).mpr ⟨rfl, hlen⟩
    exact ⟨key, (hkeys key).mpr ⟨_, hl⟩, _, hl, (mem_pairsOf pairwise_postings).mpr
      ⟨mem_postings.mpr hleft, mem_postings.mpr hright, hlt⟩⟩

/-- Two documents with a line of the same key. -/
theorem findSimilarLines_spec_shared :
    (⟨0, 1⟩ : LinePair) ∈ findSimilarLines (·.toList) id (fun _ _ => true) 4
      (.new [⟨"a", [⟨"Some Book (1).pdf", ["full:some.book.#.pdf"]⟩]⟩,
        ⟨"b", [⟨"Some Book (2).pdf", ["full:some.book.#.pdf"]⟩]⟩]) := by
  refine ((findSimilarLines_spec (fun _ => .refl _) (fun _ _ => .refl _) _ _ _).2.1 _).mpr ?_
  refine ⟨Nat.zero_lt_one, ⟨"full:some.book.#.pdf", ?_⟩, rfl⟩
  decide +kernel

end RustExample.FindDiff
