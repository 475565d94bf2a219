import Mathlib.Algebra.Order.BigOperators.Group.List
import Mathlib.Data.List.Sort
import Mathlib.Data.Prod.Lex
import Mathlib.Data.String.Basic
import RustExample.Foundation.Loops
import RustExample.Foundation.Run
import RustExample.OpenraftCluster.WasmSync.Manifest

/-!
# The cache of compiled modules

The cache holds compiled components under the hashes of their modules, within a cap on their number
and one on the sum of their sizes. Hits and new entries are stamped by a clock. A new entry evicts
the entries with the least stamps until it fits, and every other entry if it is oversize.

Source: `openraft_libp2p_cluster/src/tasks/wasm_runtime.rs` (`CompiledWasm`, `WasmCompileCache`).

* Sums are those of 64 bits. Where one overflows a debug build panics, which is `none`, and a
  release build goes on with the wrapped sum.
* The hash map is the list of its entries in some order, which is read through a sorted set only.
* A component is of any type. Its size is the length of a vector, so below `2 ^ 63`.
* The log of an eviction, which cuts the hash at byte 12, is left out: hashes are hex digits.
-/

namespace RustExample.OpenraftCluster.CompileCache

open List

/-! ### Checked and wrapped sums -/

/-- Overflow checks are on in a debug build, and off in a release build. -/
inductive Build
  | debug
  | release

namespace Build

/-- The sum in a build. -/
def add (build : Build) (a b : ℕ) : Option ℕ :=
  match build with
  | debug => checkedNat 64 (a + b)
  | release => some ((a + b) % 2 ^ 64)

/-- The difference in a build. -/
def sub (build : Build) (a b : ℕ) : Option ℕ :=
  match build with
  | debug => checkedSub a b
  | release => some ((a + (2 ^ 64 - b)) % 2 ^ 64)

variable {a b n : ℕ} (build : Build)

theorem add_of_lt (h : a + b < 2 ^ 64) : build.add a b = some (a + b) := by
  cases build with
  | debug => exact checkedNat_of_lt h
  | release => exact congrArg some (Nat.mod_eq_of_lt h)

theorem sub_of_le (h : b ≤ a) (ha : a < 2 ^ 64) : build.sub a b = some (a - b) := by
  cases build with
  | debug => exact checkedSub_of_le h
  | release =>
    have hsum : a + (2 ^ 64 - b) = a - b + 2 ^ 64 := by omega
    rw [sub, hsum, Nat.add_mod_right, Nat.mod_eq_of_lt (by omega)]

end Build

/-! ### The cache -/

/-- The keys of the cache: texts of hex digits. -/
abbrev ModuleHash := {text : String // text.toList.all isAsciiHexdigit}

theorem isAsciiHexdigit_digitChar : ∀ n < 16, isAsciiHexdigit (Nat.digitChar n) := by decide

theorem all_moduleHash (h : ModuleHashes) (source : List UInt8) :
    (moduleHash h source).toList.all isAsciiHexdigit := by
  refine List.all_eq_true.mpr fun c hc => ?_
  rw [moduleHash, String.toList_ofList, mem_flatMap] at hc
  obtain ⟨byte, -, hc⟩ := hc
  have hlt := byte.toNat_lt
  rcases List.mem_pair.mp hc with rfl | rfl <;> exact isAsciiHexdigit_digitChar _ (by omega)

/-- The hash of a module. -/
def ModuleHash.of (h : ModuleHashes) (source : List UInt8) : ModuleHash :=
  ⟨moduleHash h source, all_moduleHash h source⟩

/-- A compiled component, with the size of its binary and the stamp of its last use. -/
structure CompiledWasm (C : Type) where
  component : C
  bytes : ℕ
  lastUsed : ℕ
  bytes_lt : bytes < 2 ^ 63

/-- A module with its hash. -/
abbrev CacheEntry (C : Type) := ModuleHash × CompiledWasm C

/-- The cache. -/
structure WasmCompileCache (C : Type) where
  entries : List (CacheEntry C)
  totalBytes : ℕ
  entryCap : ℕ
  byteCap : ℕ
  clock : ℕ

def wasmCompileCacheCap : ℕ := 64

def wasmCompileCacheByteCap : ℕ := 256 * 1024 * 1024

namespace WasmCompileCache

variable {C : Type} (build : Build)

/-- A cache without modules. -/
def new (entryCap byteCap : ℕ) : WasmCompileCache C := ⟨[], 0, entryCap, byteCap, 0⟩

/-- The cache of the process. -/
def wasmCompileCache : WasmCompileCache C := new wasmCompileCacheCap wasmCompileCacheByteCap

/-- `clock.fetch_add(1, Relaxed) + 1`. The counter itself wraps around in every build. -/
def tick (s : WasmCompileCache C) : Option (ℕ × WasmCompileCache C) := do
  let now ← build.add s.clock 1
  some (now, { s with clock := (s.clock + 1) % 2 ^ 64 })

/-- Notes the use of a module. -/
def stamp (hash : ModuleHash) (now : ℕ) (e : CacheEntry C) : CacheEntry C :=
  if e.1 = hash then (e.1, { e.2 with lastUsed := now }) else e

/-- Looks for a module. -/
def get (hash : ModuleHash) (s : WasmCompileCache C) :
    Option (Option C × WasmCompileCache C) :=
  match s.entries.lookup hash with
  | none => some (none, s)
  | some entry => do
    let (now, s) ← s.tick build
    some (some entry.component, { s with entries := s.entries.map (stamp hash now) })

/-- The condition under which an entry has to go before a new one comes. -/
def mustEvict (incoming : ℕ) (s : WasmCompileCache C) : Option Bool :=
  if s.entries = [] then some false
  else if s.entryCap ≤ s.entries.length then some true
  else do
    let total ← build.add s.totalBytes incoming
    some (s.byteCap < total)

/-- Earliest use first, then the hash. -/
def recency (e : CacheEntry C) : ℕ ×ₗ ModuleHash := toLex (e.2.lastUsed, e.1)

/-- The hashes, the latest used last. -/
def byRecency (s : WasmCompileCache C) : List (ℕ ×ₗ ModuleHash) :=
  (s.entries.map recency).insertionSort (· ≤ ·)

/-- Removes a module. -/
def evict (hash : ModuleHash) (s : WasmCompileCache C) : Option (WasmCompileCache C) :=
  match s.entries.lookup hash with
  | none => some s
  | some evicted => do
    let total ← build.sub s.totalBytes evicted.bytes
    some { s with entries := s.entries.filter fun e => e.1 ≠ hash, totalBytes := total }

/-- Removes modules until there is room. -/
def evictLoop (incoming : ℕ) :
    List (ℕ ×ₗ ModuleHash) → WasmCompileCache C → Option (WasmCompileCache C)
  | [], s => do
    -- The condition is evaluated once more before the loop breaks.
    let _ ← s.mustEvict build incoming
    some s
  | first :: byRecency, s => do
    if ← s.mustEvict build incoming then
      evictLoop incoming byRecency (← s.evict build (ofLex first).2)
    else some s

/-- The eviction of an insertion, which sorts the entries only if one of them has to go. -/
def makeRoom (incoming : ℕ) (s : WasmCompileCache C) : Option (WasmCompileCache C) := do
  if ← s.mustEvict build incoming then s.evictLoop build incoming s.byRecency else some s

/-- Adds a compiled module. -/
def insert (hash : ModuleHash) (compiled : CompiledWasm C) (s : WasmCompileCache C) :
    Option (WasmCompileCache C) :=
  if (s.entries.lookup hash).isSome then some s
  else do
    let s ← s.makeRoom build compiled.bytes
    let (now, s) ← s.tick build
    let total ← build.add s.totalBytes compiled.bytes
    some { s with
      entries := s.entries ++ [(hash, { compiled with lastUsed := now })], totalBytes := total }

end WasmCompileCache

/-! ### Calls and what they do -/

/-- The calls of the cache. -/
inductive Call (C : Type)
  | get (hash : ModuleHash)
  | insert (hash : ModuleHash) (compiled : CompiledWasm C)

/-- The hash of a call. -/
def Call.hash {C : Type} : Call C → ModuleHash
  | .get hash | .insert hash _ => hash

/-- A call, and whether it gave a stamp: a hit or a new entry did. -/
structure Event (C : Type) where
  call : Call C
  stamped : Bool

variable {C : Type} {build : Build} {es : List (Event C)} {s s' : WasmCompileCache C}
  {hash : ModuleHash} {compiled : CompiledWasm C}

/-- Performs a call. -/
def call (build : Build) (s : WasmCompileCache C) : Call C → Option (Bool × WasmCompileCache C)
  | .get hash => (s.get build hash).map fun r => (r.1.isSome, r.2)
  | .insert hash compiled =>
    (s.insert build hash compiled).map fun s' => ((s.entries.lookup hash).isNone, s')

/-- One call. -/
def Step (build : Build) (s : WasmCompileCache C) (e : Event C) (s' : WasmCompileCache C) : Prop :=
  call build s e.call = some (e.stamped, s')

/-- The event uses the hash. -/
def Event.Uses (hash : ModuleHash) (e : Event C) : Prop := e.stamped ∧ e.call.hash = hash

/-- The event adds the hash. -/
def Event.Adds (hash : ModuleHash) (e : Event C) : Prop :=
  e.stamped ∧ ∃ compiled, e.call = .insert hash compiled

/-- Event `i` is the last that used the entry. -/
abbrev LastUse (es : List (Event C)) (hash : ModuleHash) (i : ℕ) : Prop :=
  HeldSince (Event.Uses hash) (Event.Uses hash) es i

/-- No entry was added after that of the hash. -/
def IsNewest (es : List (Event C)) (hash : ModuleHash) : Prop :=
  ∃ i, HeldSince (Event.Adds hash) (fun e => ∃ hash', e.Adds hash') es i

namespace WasmCompileCache

/-- The hashes that are held, with the sizes of their entries. -/
def held (s : WasmCompileCache C) : List (ModuleHash × ℕ) :=
  s.entries.map fun e => (e.1, e.2.bytes)

/-- The sum of the sizes of some entries. -/
def bytesOf (l : List (CacheEntry C)) : ℕ := (l.map fun e => e.2.bytes).sum

end WasmCompileCache

open WasmCompileCache

/-- What is held, in the order of the last uses. -/
structure ByLastUse (es : List (Event C)) (s : WasmCompileCache C)
    (order : List (ModuleHash × ℕ)) : Prop where
  perm : order.Perm s.held
  earlier : order.Pairwise fun a b => ∃ i j, i < j ∧ LastUse es a.1 i ∧ LastUse es b.1 j

/-- Sizes within the caps. An entry that is alone may be of any size. -/
def Within (entryCap byteCap : ℕ) (sizes : List ℕ) : Prop :=
  sizes.length ≤ max entryCap 1 ∧ (sizes.sum ≤ byteCap ∨ sizes.length ≤ 1)

instance (entryCap byteCap : ℕ) : DecidablePred (Within entryCap byteCap) := fun sizes =>
  inferInstanceAs (Decidable (sizes.length ≤ max entryCap 1 ∧ (sizes.sum ≤ byteCap ∨ _)))

/-- The total is that of the entries, which keep the caps but for a new one that is alone. -/
structure Sound (entryCap byteCap : ℕ) (es : List (Event C)) (s : WasmCompileCache C) : Prop where
  caps : s.entryCap = entryCap ∧ s.byteCap = byteCap
  nodup : (s.entries.map Prod.fst).Nodup
  total : s.totalBytes = (s.held.map Prod.snd).sum
  count : s.entries.length ≤ max entryCap 1
  bytes : s.totalBytes ≤ byteCap ∨ ∃ hash size, s.held = [(hash, size)] ∧ IsNewest es hash

/-- An insertion leaves all but the shortest prefix, by last use, that keeps the caps. -/
def EvictsShortest (entryCap byteCap : ℕ) (es : List (Event C)) (s : WasmCompileCache C)
    (new : ModuleHash × ℕ) (s' : WasmCompileCache C) : Prop :=
  ∃ order n, ByLastUse es s order ∧
    IsLeast {n | Within entryCap byteCap ((order.drop n).map Prod.snd ++ [new.2])} n ∧
    s'.held.Perm (order.drop n ++ [new])

/-- The sizes of what is held and of a new entry add up to a number of 64 bits. -/
def SumFits (s : WasmCompileCache C) : Call C → Prop
  | .get _ => True
  | .insert hash compiled =>
    s.entries.lookup hash = none → s.totalBytes + compiled.bytes < 2 ^ 64

/-! ### What an insertion evicts -/

section Insertion

namespace WasmCompileCache

variable {l l' : List (CacheEntry C)} {e : CacheEntry C} {incoming : ℕ}

theorem bytesOf_perm (h : l.Perm l') : bytesOf l = bytesOf l' := (h.map _).sum_eq

@[simp] theorem bytesOf_cons (e : CacheEntry C) (l : List (CacheEntry C)) :
    bytesOf (e :: l) = e.2.bytes + bytesOf l := sum_cons

@[simp] theorem bytesOf_concat (l : List (CacheEntry C)) (e : CacheEntry C) :
    bytesOf (l ++ [e]) = bytesOf l + e.2.bytes := by
  simp [bytesOf]

theorem lookup_of_mem (hnodup : (l.map Prod.fst).Nodup) (he : e ∈ l) :
    l.lookup e.1 = some e.2 := by
  obtain ⟨before, after, rfl⟩ := append_of_mem he
  rw [map_append, map_cons, nodup_append] at hnodup
  refine List.lookup_eq_some_iff.mpr ⟨before, after, rfl, fun e' he' => bne_iff_ne.mpr ?_⟩
  exact (hnodup.2.2 _ (mem_map_of_mem he') _ mem_cons_self).symm

theorem mem_of_lookup {entry : CompiledWasm C} (h : l.lookup hash = some entry) :
    (hash, entry) ∈ l := by
  obtain ⟨before, after, rfl, -⟩ := List.lookup_eq_some_iff.mp h
  exact mem_append_right _ mem_cons_self

theorem notMem_of_lookup (h : l.lookup hash = none) : hash ∉ l.map Prod.fst := by
  rintro hmem
  obtain ⟨e, he, rfl⟩ := List.mem_map.mp hmem
  exact bne_iff_ne.mp (List.lookup_eq_none_iff.mp h e he) rfl

/-- The cache with other entries, and their total. -/
def holding (s : WasmCompileCache C) (l : List (CacheEntry C)) : WasmCompileCache C :=
  { s with entries := l, totalBytes := bytesOf l }

/-- Entries that leave room for a new one. -/
def RoomFor (s : WasmCompileCache C) (incoming : ℕ) (l : List (CacheEntry C)) : Prop :=
  Within s.entryCap s.byteCap ((l.map fun e => e.2.bytes) ++ [incoming])

instance (s : WasmCompileCache C) (incoming : ℕ) : DecidablePred (s.RoomFor incoming) := fun l =>
  inferInstanceAs (Decidable (Within _ _ ((l.map fun e => e.2.bytes) ++ [incoming])))

theorem roomFor_nil (s : WasmCompileCache C) (incoming : ℕ) : s.RoomFor incoming [] :=
  ⟨Nat.le_max_right _ _, .inr (Nat.le_refl 1)⟩

theorem roomFor_cons : s.RoomFor incoming (e :: l) ↔
    (e :: l).length < s.entryCap ∧ bytesOf (e :: l) + incoming ≤ s.byteCap := by
  rw [RoomFor, Within, bytesOf]
  simp only [length_append, length_map, length_cons, length_nil,
    sum_append, sum_cons, sum_nil]
  omega

theorem roomFor_perm (h : l.Perm l') : s.RoomFor incoming l ↔ s.RoomFor incoming l' := by
  rw [RoomFor, RoomFor, Within, Within, length_append, length_append, sum_append,
    sum_append, (h.map _).length_eq, (h.map _).sum_eq]

theorem mustEvict_holding (build : Build) (hfit : bytesOf l + incoming < 2 ^ 64) :
    (s.holding l).mustEvict build incoming = some (decide ¬s.RoomFor incoming l) := by
  cases l with
  | nil => simp [mustEvict, holding, roomFor_nil]
  | cons e l =>
    rw [mustEvict, if_neg (by simp [holding])]
    simp only [roomFor_cons]
    split_ifs with hcap
    · have hnot : ¬(e :: l).length < s.entryCap := Nat.not_lt_of_le hcap
      simp only [hnot, false_and, not_false_eq_true, decide_true]
    · have hlt : (e :: l).length < s.entryCap := Nat.lt_of_not_le hcap
      rw [holding, build.add_of_lt hfit]
      simp only [hlt, true_and, not_le]
      rfl

theorem evict_holding (build : Build) (hperm : l.Perm (e :: l')) (hnodup : (l.map Prod.fst).Nodup)
    (hfit : bytesOf l < 2 ^ 64) :
    ∃ rest, (s.holding l).evict build e.1 = some (s.holding rest) ∧ rest.Perm l' := by
  have hnodup' := ((hperm.map Prod.fst).nodup_iff.mp hnodup)
  rw [map_cons, nodup_cons] at hnodup'
  have hrest : (l.filter fun e' => e'.1 ≠ e.1).Perm l' := by
    refine (hperm.filter _).trans ?_
    rw [filter_cons_of_neg (by simp), List.filter_eq_self.mpr]
    intro e' he'
    have hne : e'.1 ≠ e.1 := fun heq => hnodup'.1 (heq ▸ mem_map_of_mem he')
    exact decide_eq_true hne
  have hsum : bytesOf l = e.2.bytes + bytesOf l' := by rw [bytesOf_perm hperm, bytesOf_cons]
  have hlookup : (s.holding l).entries.lookup e.1 = some e.2 :=
    lookup_of_mem hnodup (hperm.mem_iff.mpr mem_cons_self)
  have hsub : build.sub (s.holding l).totalBytes e.2.bytes =
      some (bytesOf (l.filter fun e' => e'.1 ≠ e.1)) := by
    rw [holding, build.sub_of_le (by omega) hfit, bytesOf_perm hrest, hsum, Nat.add_sub_cancel_left]
  refine ⟨_, ?_, hrest⟩
  rw [evict, hlookup]
  simp only [hsub]
  rfl

/-- **The loop drops entries until there is room**, in the order in which it is given them. -/
theorem exists_evictLoop (build : Build) (order : List (CacheEntry C)) (hperm : l.Perm order)
    (hnodup : (l.map Prod.fst).Nodup) (hfit : bytesOf l + incoming < 2 ^ 64) :
    ∃ rest, (s.holding l).evictLoop build incoming (order.map recency) = some (s.holding rest) ∧
      rest.Perm (dropUntil (s.RoomFor incoming) order) := by
  induction order generalizing l with
  | nil =>
    refine ⟨l, ?_, hperm⟩
    rw [map_nil, evictLoop, mustEvict_holding build hfit]
    rfl
  | cons e order ih =>
    rw [map_cons, evictLoop, mustEvict_holding build hfit, dropUntil]
    by_cases hroom : s.RoomFor incoming (e :: order)
    · refine ⟨l, ?_, by rwa [if_pos hroom]⟩
      simp [(roomFor_perm hperm).mpr hroom]
    · obtain ⟨rest, hevict, hrest⟩ := evict_holding (s := s) build hperm hnodup
        (Nat.lt_of_le_of_lt (Nat.le_add_right _ _) hfit)
      have hkeys := (hperm.map Prod.fst).nodup_iff.mp hnodup
      have hsum : bytesOf l = e.2.bytes + bytesOf rest := by
        rw [bytesOf_perm hperm, bytesOf_cons, bytesOf_perm hrest]
      obtain ⟨rest', hloop, hrest'⟩ := ih hrest
        ((hrest.map Prod.fst).nodup_iff.mpr (List.nodup_cons.mp hkeys).2) (by omega)
      refine ⟨rest', ?_, by rwa [if_neg hroom]⟩
      have hmust : (decide ¬s.RoomFor incoming l) = true :=
        decide_eq_true fun h => hroom ((roomFor_perm hperm).mp h)
      simp only [Option.bind_eq_bind, Option.bind_some, hmust, if_true]
      rw [show (ofLex (recency e)).2 = e.1 from rfl, hevict, Option.bind_some, hloop]

theorem tick_eq : s.tick build = (build.add s.clock 1).map fun now =>
    (now, { s with clock := (s.clock + 1) % 2 ^ 64 }) := by
  rw [tick]
  cases build.add s.clock 1 <;> rfl

/-- The entries from the least stamp to the greatest. -/
def recencyOrder (s : WasmCompileCache C) : List (CacheEntry C) :=
  s.entries.insertionSort fun a b => recency a ≤ recency b

theorem perm_recencyOrder : s.recencyOrder.Perm s.entries := perm_insertionSort _ _

theorem map_recencyOrder : s.recencyOrder.map recency = s.byRecency :=
  map_insertionSort _ _ recency _ fun _ _ _ _ => Iff.rfl

theorem evictLoop_of_not_mustEvict (h : s.mustEvict build incoming = some false)
    (order : List (ℕ ×ₗ ModuleHash)) : s.evictLoop build incoming order = some s := by
  cases order with
  | nil => rw [evictLoop, h]; rfl
  | cons first order => rw [evictLoop, h]; rfl

/-- **An insertion** drops entries from the least stamp on until there is room for the new one. -/
theorem exists_insert (build : Build) (hnew : s.entries.lookup hash = none)
    (hnodup : (s.entries.map Prod.fst).Nodup) (htotal : s.totalBytes = bytesOf s.entries)
    (hfit : s.totalBytes + compiled.bytes < 2 ^ 64) :
    ∃ kept, kept.Perm (dropUntil (s.RoomFor compiled.bytes) s.recencyOrder) ∧
      s.insert build hash compiled = (s.tick build).map fun r =>
        r.2.holding (kept ++ [(hash, { compiled with lastUsed := r.1 })]) := by
  have hs : s.holding s.entries = s := by rw [holding, ← htotal]
  rw [htotal] at hfit
  obtain ⟨kept, hloop, hkept⟩ := exists_evictLoop (s := s) build s.recencyOrder
    perm_recencyOrder.symm hnodup hfit
  rw [hs, map_recencyOrder] at hloop
  have hle : bytesOf kept ≤ bytesOf s.entries := by
    obtain ⟨n, hdrop, -⟩ := exists_isLeast_dropUntil
      (roomFor_nil s compiled.bytes) s.recencyOrder
    rw [bytesOf_perm hkept, hdrop, ← bytesOf_perm perm_recencyOrder]
    exact ((drop_sublist n _).map _).sum_le_sum fun _ _ => Nat.zero_le _
  have hroom : s.makeRoom build compiled.bytes = some (s.holding kept) := by
    have hmust := hs ▸ mustEvict_holding (s := s) build hfit
    by_cases hroom : s.RoomFor compiled.bytes s.entries
    · rw [decide_eq_false (not_not_intro hroom)] at hmust
      rw [makeRoom, hmust, ← hloop, evictLoop_of_not_mustEvict hmust]
      rfl
    · rw [decide_eq_true hroom] at hmust
      rw [makeRoom, hmust, ← hloop]
      rfl
  have hadd : build.add (bytesOf kept) compiled.bytes = some (bytesOf kept + compiled.bytes) :=
    build.add_of_lt (by omega)
  refine ⟨kept, hkept, ?_⟩
  rw [insert, hnew, Option.isSome_none, if_neg Bool.false_ne_true, hroom]
  simp only [tick_eq, holding, Option.bind_eq_bind, Option.bind_some]
  cases build.add s.clock 1 with
  | none => rfl
  | some now => simp [hadd]

end WasmCompileCache

end Insertion

/-! ### What a step does -/

section Steps

theorem held_map_stamp (l : List (CacheEntry C)) (hash : ModuleHash) (now : ℕ) :
    ((l.map (stamp hash now)).map fun e => (e.1, e.2.bytes)) = l.map fun e => (e.1, e.2.bytes) := by
  rw [map_map]
  refine map_congr_left fun e _ => ?_
  rw [Function.comp_apply, stamp]
  split_ifs <;> rfl

theorem total_held (s : WasmCompileCache C) : (s.held.map Prod.snd).sum = bytesOf s.entries := by
  rw [WasmCompileCache.held, map_map, bytesOf]
  rfl

theorem keys_held (s : WasmCompileCache C) : s.held.map Prod.fst = s.entries.map Prod.fst := by
  rw [WasmCompileCache.held, map_map]
  rfl

/-- The ways in which a call that returns changes the cache. -/
inductive Step.Effect (build : Build) (s : WasmCompileCache C) :
    Event C → WasmCompileCache C → Prop
  /-- A miss, or a hash that is held already. -/
  | same (c : Call C) : Effect build s ⟨c, false⟩ s
  | hit {hash : ModuleHash} {now : ℕ} (hheld : hash ∈ s.entries.map Prod.fst)
      (hnow : build.add s.clock 1 = some now) :
      Effect build s ⟨.get hash, true⟩ { s with
        clock := (s.clock + 1) % 2 ^ 64, entries := s.entries.map (stamp hash now) }
  | added {hash : ModuleHash} {compiled : CompiledWasm C} {now : ℕ} {kept : List (CacheEntry C)}
      (hnew : hash ∉ s.entries.map Prod.fst)
      (hkept : kept.Perm (dropUntil (s.RoomFor compiled.bytes) s.recencyOrder))
      (hnow : build.add s.clock 1 = some now) :
      Effect build s ⟨.insert hash compiled, true⟩
        ({ s with clock := (s.clock + 1) % 2 ^ 64 }.holding
          (kept ++ [(hash, { compiled with lastUsed := now })]))

theorem Step.effect {entryCap byteCap : ℕ} {e : Event C} (hs : Sound entryCap byteCap es s)
    (hfit : SumFits s e.call) (h : Step build s e s') : Step.Effect build s e s' := by
  obtain ⟨c, stamped⟩ := e
  rw [Step] at h
  cases c with
  | get hash =>
    rw [call, WasmCompileCache.get] at h
    cases hlookup : s.entries.lookup hash with
    | none =>
      simp only [hlookup, Option.map_some, Option.some.injEq, Prod.mk.injEq] at h
      obtain ⟨rfl, rfl⟩ := h
      exact .same _
    | some entry =>
      simp only [hlookup, tick_eq, Option.bind_eq_bind] at h
      cases hnow : build.add s.clock 1 with
      | none => simp [hnow] at h
      | some now =>
        simp only [hnow, Option.map_some, Option.bind_some, Option.some.injEq, Prod.mk.injEq] at h
        obtain ⟨rfl, rfl⟩ := h
        exact .hit (mem_map_of_mem (mem_of_lookup hlookup)) hnow
  | insert hash compiled =>
    rw [call] at h
    cases hlookup : s.entries.lookup hash with
    | none =>
      obtain ⟨kept, hkept, hinsert⟩ := exists_insert build hlookup hs.nodup
        (hs.total.trans (total_held s)) (hfit hlookup)
      rw [hinsert, hlookup, tick_eq] at h
      cases hnow : build.add s.clock 1 with
      | none => simp [hnow] at h
      | some now =>
        simp only [hnow, Option.map_some, Option.some.injEq, Prod.mk.injEq] at h
        obtain ⟨rfl, rfl⟩ := h
        exact .added (notMem_of_lookup hlookup) hkept hnow
    | some entry =>
      rw [WasmCompileCache.insert, hlookup] at h
      simp only [Option.isSome_some, if_true, Option.map_some, Option.some.injEq,
        Prod.mk.injEq] at h
      obtain ⟨rfl, rfl⟩ := h
      exact .same _

end Steps

/-! ### The caps and the total in every run -/

section Runs

variable {entryCap byteCap : ℕ} {e : Event C}

theorem IsNewest.snoc (h : IsNewest es hash) (he : ∀ hash', ¬e.Adds hash') :
    IsNewest (es ++ [e]) hash := by
  obtain ⟨i, hi⟩ := h
  exact ⟨i, hi.snoc fun ⟨hash', hadds⟩ => he hash' hadds⟩

theorem Sound.start (entryCap byteCap : ℕ) :
    Sound entryCap byteCap [] (WasmCompileCache.new (C := C) entryCap byteCap) where
  caps := ⟨rfl, rfl⟩
  nodup := nodup_nil
  total := rfl
  count := Nat.zero_le _
  bytes := .inl (Nat.zero_le _)

/-- What is held stays, and the newest entry remains so. -/
theorem Sound.of_held (hs : Sound entryCap byteCap es s) (he : ∀ hash, ¬e.Adds hash)
    (hcaps : s'.entryCap = s.entryCap ∧ s'.byteCap = s.byteCap) (hheld : s'.held = s.held)
    (htotal : s'.totalBytes = s.totalBytes) : Sound entryCap byteCap (es ++ [e]) s' where
  caps := ⟨hcaps.1.trans hs.caps.1, hcaps.2.trans hs.caps.2⟩
  nodup := by rw [← keys_held, hheld, keys_held]; exact hs.nodup
  total := by rw [htotal, hheld, hs.total]
  count := by
    have hlength : s'.entries.length = s.entries.length := by
      simpa only [WasmCompileCache.held, length_map] using congrArg List.length hheld
    exact hlength ▸ hs.count
  bytes := by
    rw [htotal, hheld]
    exact hs.bytes.imp_right fun ⟨hash, size, heq, hnewest⟩ => ⟨hash, size, heq, hnewest.snoc he⟩

/-- What an insertion keeps, in terms of what was there. -/
theorem Sound.kept (hs : Sound entryCap byteCap es s) {incoming : ℕ}
    {kept : List (CacheEntry C)}
    (hkept : kept.Perm (dropUntil (s.RoomFor incoming) s.recencyOrder)) :
    (∀ e ∈ kept, e ∈ s.entries) ∧ (kept.map Prod.fst).Nodup ∧
      Within entryCap byteCap ((kept.map fun e => e.2.bytes) ++ [incoming]) := by
  obtain ⟨n, hdrop, hroom, -⟩ := exists_isLeast_dropUntil
    (roomFor_nil s incoming) s.recencyOrder
  rw [hdrop] at hkept
  refine ⟨fun e he => ?_, ?_, ?_⟩
  · exact perm_recencyOrder.mem_iff.mp (mem_of_mem_drop (hkept.mem_iff.mp he))
  · rw [(hkept.map Prod.fst).nodup_iff]
    refine ((perm_recencyOrder.map Prod.fst).nodup_iff.mpr hs.nodup).sublist ?_
    exact (drop_sublist n _).map _
  · rw [← hs.caps.1, ← hs.caps.2]
    exact (roomFor_perm hkept).mpr hroom

/-- **A step keeps the total and the caps.** -/
theorem Sound.step (hs : Sound entryCap byteCap es s) (hfit : SumFits s e.call)
    (h : Step build s e s') : Sound entryCap byteCap (es ++ [e]) s' := by
  cases h.effect hs hfit with
  | same c => exact hs.of_held (fun _ ⟨h, _⟩ => Bool.false_ne_true h) ⟨rfl, rfl⟩ rfl rfl
  | hit hheld hnow =>
    exact hs.of_held (fun _ ⟨_, _, hc⟩ => nomatch hc) ⟨rfl, rfl⟩ (held_map_stamp _ _ _) rfl
  | @added hash compiled now kept hnew hkept hnow =>
    obtain ⟨hmem, hnodup, hlength, hbytes⟩ := hs.kept hkept
    refine ⟨hs.caps, ?_, by rw [total_held]; rfl, ?_, ?_⟩
    · have hnot : hash ∉ kept.map Prod.fst := by
        rintro hin
        obtain ⟨e, he, rfl⟩ := List.mem_map.mp hin
        exact hnew (mem_map_of_mem (hmem e he))
      rw [holding, map_append]
      refine List.nodup_append.mpr ⟨hnodup, nodup_singleton _, ?_⟩
      rintro _ ha b hb rfl
      obtain rfl := List.mem_singleton.mp hb
      exact hnot ha
    · simpa [holding] using hlength
    · rcases hbytes with hbytes | hbytes
      · refine .inl ?_
        rw [holding, bytesOf_concat]
        simpa [bytesOf] using hbytes
      · obtain rfl : kept = [] := by
          rw [length_append, length_map, length_singleton] at hbytes
          exact eq_nil_of_length_eq_zero (by omega)
        exact .inr ⟨hash, compiled.bytes, rfl, es.length, HeldSince.last ⟨rfl, compiled, rfl⟩⟩

/-- **The total and the caps in every run** in which the sums of sizes fit. -/
theorem sound_of_run (run : Run (Step build) (new entryCap byteCap) es s)
    (hfit : Run.AtEvents (Step build) (new entryCap byteCap) (fun s e => SumFits s e.call) es) :
    Sound entryCap byteCap es s :=
  (run.of_atEvents hfit).history (P := fun es s => Sound entryCap byteCap es s)
    (Sound.start entryCap byteCap) fun _ _ _ _ _ hs h => hs.step h.2 h.1

/-- The stamps are those of the last uses. -/
structure Stamped (es : List (Event C)) (s : WasmCompileCache C) : Prop where
  clock : s.clock = es.countP Event.stamped
  used : ∀ e ∈ s.entries, ∃ i, LastUse es e.1 i ∧ e.2.lastUsed = countUpTo Event.stamped es i

/-- An entry that the event does not use keeps its last use. -/
theorem Stamped.unused (ht : Stamped es s) {c : CacheEntry C} (hc : c ∈ s.entries)
    (he : ¬e.Uses c.1) :
    ∃ i, LastUse (es ++ [e]) c.1 i ∧ c.2.lastUsed = countUpTo Event.stamped (es ++ [e]) i := by
  obtain ⟨i, hi, hstamp⟩ := ht.used c hc
  exact ⟨i, hi.snoc he, by rw [hstamp, countUpTo_snoc hi.lt_length]⟩

/-- **A step keeps the stamps** until there are `2 ^ 64` of them. -/
theorem Stamped.step (ht : Stamped es s) (hs : Sound entryCap byteCap es s)
    (hfit : SumFits s e.call) (hcount : (es ++ [e]).countP Event.stamped < 2 ^ 64)
    (h : Step build s e s') : Stamped (es ++ [e]) s' := by
  have hlast (hash : ModuleHash) (he : e.Uses hash) (hstamped : e.stamped = true) (now : ℕ)
      (hnow : build.add s.clock 1 = some now) :
      LastUse (es ++ [e]) hash es.length ∧
        now = countUpTo Event.stamped (es ++ [e]) es.length := by
    refine ⟨HeldSince.last he, ?_⟩
    rw [countP_append, countP_singleton, if_pos hstamped, ← ht.clock] at hcount
    rw [countUpTo_last, countP_append, countP_singleton, if_pos hstamped, ← ht.clock]
    exact Option.some.inj (hnow.symm.trans (build.add_of_lt hcount))
  have hclock (hstamped : e.stamped = true) :
      (s.clock + 1) % 2 ^ 64 = (es ++ [e]).countP Event.stamped := by
    rw [countP_append, countP_singleton, if_pos hstamped, ← ht.clock] at hcount ⊢
    exact Nat.mod_eq_of_lt hcount
  cases h.effect hs hfit with
  | same c =>
    refine ⟨?_, fun c hc => ht.unused hc fun hu => Bool.false_ne_true hu.1⟩
    rw [ht.clock, countP_append, countP_singleton, if_neg Bool.false_ne_true, add_zero]
  | @hit hash now hheld hnow =>
    refine ⟨hclock rfl, fun c' hc' => ?_⟩
    obtain ⟨c, hc, rfl⟩ := List.mem_map.mp hc'
    rw [stamp]
    split_ifs with heq
    · exact ⟨es.length, hlast c.1 ⟨rfl, heq.symm⟩ rfl now hnow⟩
    · exact ht.unused hc fun hu => heq hu.2.symm
  | @added hash compiled now kept hnew hkept hnow =>
    refine ⟨hclock rfl, fun c hc => ?_⟩
    rcases List.mem_append.mp hc with hc | hc
    · have hmem := (hs.kept hkept).1 c hc
      refine ht.unused hmem fun hu => hnew ?_
      have hhash : hash = c.1 := hu.2
      exact hhash ▸ mem_map_of_mem hmem
    · obtain rfl := List.mem_singleton.mp hc
      exact ⟨es.length, hlast hash ⟨rfl, rfl⟩ rfl now hnow⟩

theorem stamped_of_run (run : Run (Step build) (new entryCap byteCap) es s)
    (hfit : Run.AtEvents (Step build) (new entryCap byteCap) (fun s e => SumFits s e.call) es)
    (hcount : es.countP Event.stamped < 2 ^ 64) : Stamped es s := by
  induction run with
  | nil => exact ⟨rfl, fun _ he => nomatch he⟩
  | @snoc es s s' e run h ih =>
    have hs := sound_of_run run hfit.of_append
    have hfit' : SumFits s e.call := hfit es.length s e (by rwa [take_left]) (by simp)
    refine (ih hfit.of_append ?_).step hs hfit' hcount h
    rw [countP_append] at hcount
    exact Nat.lt_of_le_of_lt (Nat.le_add_right _ _) hcount

/-- The order of the stamps is that of the last uses. -/
theorem Stamped.byLastUse (ht : Stamped es s) (hnodup : (s.entries.map Prod.fst).Nodup) :
    ByLastUse es s (s.recencyOrder.map fun e => (e.1, e.2.bytes)) where
  perm := perm_recencyOrder.map _
  earlier := by
    have hne : s.recencyOrder.Pairwise fun a b => a.1 ≠ b.1 :=
      List.pairwise_map.mp ((perm_recencyOrder.map Prod.fst).nodup_iff.mpr hnodup)
    have hsorted : s.recencyOrder.Pairwise fun a b => recency a ≤ recency b :=
      pairwise_insertionSort _ _
    refine List.pairwise_map.mpr ((hsorted.and hne).imp_of_mem fun {a b} ha hb hab => ?_)
    obtain ⟨i, hi, hstamp⟩ := ht.used a (perm_recencyOrder.mem_iff.mp ha)
    obtain ⟨j, hj, hstamp'⟩ := ht.used b (perm_recencyOrder.mem_iff.mp hb)
    have hle : a.2.lastUsed ≤ b.2.lastUsed := Prod.Lex.monotone_fst _ _ hab.1
    obtain ⟨e, he, hused, hhash⟩ := hi.event
    obtain ⟨e', he', -, hhash'⟩ := hj.event
    refine ⟨i, j, Nat.lt_of_not_le fun hji => ?_, hi, hj⟩
    rcases Nat.eq_or_lt_of_le hji with rfl | hlt
    · obtain ⟨⟩ := he.symm.trans he'
      exact hab.2 (hhash.symm.trans hhash')
    · have hstamps := countUpTo_lt hlt he hused
      omega

theorem Stamped.evictsShortest (ht : Stamped es s) (hs : Sound entryCap byteCap es s)
    (hfit : SumFits s (.insert hash compiled)) (h : Step build s ⟨.insert hash compiled, true⟩ s') :
    EvictsShortest entryCap byteCap es s (hash, compiled.bytes) s' := by
  cases h.effect hs hfit with
  | @added _ _ now kept hnew hkept hnow =>
    obtain ⟨n, hdrop, hleast⟩ := exists_isLeast_dropUntil
      (roomFor_nil s compiled.bytes) s.recencyOrder
    refine ⟨_, n, ht.byLastUse hs.nodup, ?_, ?_⟩
    · rw [← hs.caps.1, ← hs.caps.2]
      simpa only [RoomFor, ← map_drop, map_map, Function.comp_def] using hleast
    · rw [WasmCompileCache.held, holding, map_append, ← map_drop, ← hdrop]
      exact (hkept.map _).append_right _

theorem exists_step (hs : Sound entryCap byteCap es s) {c : Call C} (hfit : SumFits s c)
    (hclock : s.clock + 1 < 2 ^ 64) : ∃ stamped s', Step build s ⟨c, stamped⟩ s' := by
  have hnow := build.add_of_lt hclock
  cases c with
  | get hash =>
    simp only [Step, call, WasmCompileCache.get, tick_eq, hnow]
    cases s.entries.lookup hash <;> exact ⟨_, _, rfl⟩
  | insert hash compiled =>
    cases hlookup : s.entries.lookup hash with
    | none =>
      obtain ⟨kept, -, hinsert⟩ := exists_insert build hlookup hs.nodup
        (hs.total.trans (total_held s)) (hfit hlookup)
      simp only [Step, call, hinsert, tick_eq, hnow]
      exact ⟨_, _, rfl⟩
    | some entry =>
      simp only [Step, call, WasmCompileCache.insert, hlookup]
      exact ⟨_, _, rfl⟩

theorem Sound.sumFits (hs : Sound entryCap byteCap es s) (hcap : byteCap ≤ 2 ^ 63) (c : Call C) :
    SumFits s c := by
  cases c with
  | get hash => trivial
  | insert hash compiled =>
    have hlt := compiled.bytes_lt
    have htotal : s.totalBytes ≤ 2 ^ 63 := by
      rcases hs.bytes with hle | ⟨hash, size, hheld, -⟩
      · exact hle.trans hcap
      · obtain ⟨c, hc, -⟩ := List.map_eq_singleton_iff.mp hheld
        rw [hs.total, total_held, hc]
        exact Nat.le_of_lt c.2.bytes_lt
    exact fun _ => by omega

/-- **No sum of sizes overflows** under a byte cap of at most `2 ^ 63`. -/
theorem sumFits_of_run (hcap : byteCap ≤ 2 ^ 63)
    (run : Run (Step build) (new entryCap byteCap) es s) :
    Run.AtEvents (Step build) (new entryCap byteCap) (fun s e => SumFits s e.call) es := by
  induction run with
  | nil => exact fun n s e _ he => by simp at he
  | snoc run h ih => exact ih.snoc fun s run => (sound_of_run run ih).sumFits hcap _

/-- The cache of the program needs no assumption. -/
theorem sound_wasmCompileCache (run : Run (Step build) wasmCompileCache es s) :
    Sound wasmCompileCacheCap wasmCompileCacheByteCap es s :=
  sound_of_run run (sumFits_of_run (by decide) run)

/-- **The cache in every run** in which the sums of sizes fit. The total is that of the entries,
which keep the caps but for a new one that is alone, and a held hash is not inserted again. Until
`2 ^ 64` stamps are given every call returns, and an insertion evicts the shortest prefix by last
use. -/
theorem evicts_least_recent (run : Run (Step build) (new entryCap byteCap) es s)
    (hfit : Run.AtEvents (Step build) (new entryCap byteCap) (fun s e => SumFits s e.call) es) :
    Sound entryCap byteCap es s ∧
    (∀ hash compiled, hash ∈ s.held.map Prod.fst → s.insert build hash compiled = some s) ∧
    (es.countP Event.stamped + 1 < 2 ^ 64 → ∀ c, SumFits s c →
      ∃ stamped s', Step build s ⟨c, stamped⟩ s') ∧
    (es.countP Event.stamped < 2 ^ 64 → ∀ hash compiled s', SumFits s (.insert hash compiled) →
      Step build s ⟨.insert hash compiled, true⟩ s' →
      EvictsShortest entryCap byteCap es s (hash, compiled.bytes) s') := by
  have hs := sound_of_run run hfit
  refine ⟨hs, fun hash compiled hmem => ?_, fun hcount c hc => ?_,
    fun hcount hash compiled s' hc h => (stamped_of_run run hfit hcount).evictsShortest hs hc h⟩
  · rw [keys_held] at hmem
    obtain ⟨e, he, rfl⟩ := List.mem_map.mp hmem
    rw [WasmCompileCache.insert, lookup_of_mem hs.nodup he]
    rfl
  · have hclock := (stamped_of_run run hfit (Nat.lt_of_succ_lt hcount)).clock
    exact exists_step hs hc (hclock ▸ hcount)

end Runs

/-! ### Where the caches differ from what they should be -/

def hashA : ModuleHash := ⟨"a", by decide⟩

def hashB : ModuleHash := ⟨"b", by decide⟩

def hashC : ModuleHash := ⟨"c", by decide⟩

def exampleWasm : CompiledWasm Unit := ⟨(), 1, 0, by decide⟩

def exampleEvents : List (Event Unit) :=
  [⟨.insert hashA exampleWasm, true⟩, ⟨.insert hashB exampleWasm, true⟩, ⟨.get hashA, true⟩]

/-- A hit keeps `a`, so that `b` goes. -/
theorem evicts_least_recent_example : ∃ s s' : WasmCompileCache Unit,
    Run (Step .debug) (new 2 100) exampleEvents s ∧
      Step .debug s ⟨.insert hashC exampleWasm, true⟩ s' ∧
      EvictsShortest 2 100 exampleEvents s (hashC, 1) s' ∧ s'.held = [(hashA, 1), (hashC, 1)] := by
  obtain ⟨s, run, hcall⟩ : ∃ s : WasmCompileCache Unit,
      Run (Step .debug) (new 2 100) exampleEvents s ∧
      (call .debug s (.insert hashC exampleWasm)).map (fun r => (r.1, r.2.held)) =
        some (true, [(hashA, 1), (hashC, 1)]) :=
    ⟨_, Run.cons rfl (Run.cons rfl (Run.cons rfl Run.nil)), by decide +kernel⟩
  obtain ⟨⟨stamped, s'⟩, hstep, heq⟩ := Option.map_eq_some_iff.mp hcall
  obtain ⟨rfl, hheld⟩ := Prod.mk.injEq _ _ _ _ ▸ heq
  have hfit := sumFits_of_run (by decide) run
  have hcount : exampleEvents.countP Event.stamped < 2 ^ 64 := by decide
  have hs := (evicts_least_recent run hfit).1
  have htotal : SumFits s (.insert hashC exampleWasm) := hs.sumFits (by decide) _
  exact ⟨s, s', run, hstep, (evicts_least_recent run hfit).2.2.2 hcount _ _ _ htotal hstep, hheld⟩

def largestWasm : CompiledWasm Unit := ⟨(), 2 ^ 63 - 1, 0, by decide⟩

/-- `a` and `b` are held, and `b` was used by the last of `n` stamps. -/
def afterStamps (n : ℕ) : WasmCompileCache Unit where
  entries := [(hashA, { exampleWasm with lastUsed := 1 }),
    (hashB, { exampleWasm with lastUsed := n % 2 ^ 64 })]
  totalBytes := 2
  entryCap := 2
  byteCap := 100
  clock := n % 2 ^ 64

/-- The insertions of `a` and `b`, and hits of `b`. -/
def hitsOfB (n : ℕ) : List (Event Unit) :=
  [⟨.insert hashA exampleWasm, true⟩, ⟨.insert hashB exampleWasm, true⟩] ++
    List.replicate n ⟨.get hashB, true⟩

theorem hitsOfB_succ (n : ℕ) : hitsOfB (n + 1) = hitsOfB n ++ [⟨.get hashB, true⟩] := by
  rw [hitsOfB, replicate_succ', ← append_assoc, hitsOfB]

theorem step_afterStamps (n : ℕ) :
    Step .release (afterStamps n) ⟨.get hashB, true⟩ (afterStamps (n + 1)) := by
  have hmod : (n % 2 ^ 64 + 1) % 2 ^ 64 = (n + 1) % 2 ^ 64 := Nat.mod_add_mod _ _ _
  have hlookup : (afterStamps n).entries.lookup hashB =
      some { exampleWasm with lastUsed := n % 2 ^ 64 } := rfl
  have hstamp : (afterStamps n).entries.map (stamp hashB ((n + 1) % 2 ^ 64)) =
      (afterStamps (n + 1)).entries := rfl
  rw [Step, call, WasmCompileCache.get, hlookup]
  simp only [tick_eq, Build.add, show (afterStamps n).clock = n % 2 ^ 64 from rfl, hmod,
    Option.map_some, Option.bind_eq_bind, Option.bind_some, hstamp]
  rfl

theorem run_hitsOfB (n : ℕ) :
    Run (Step .release) (new 2 100) (hitsOfB n) (afterStamps (n + 2)) ∧
      LastUse (hitsOfB n) hashA 0 := by
  induction n with
  | zero =>
    refine ⟨Run.cons rfl (Run.cons rfl Run.nil), ?_⟩
    have hused : LastUse ([] ++ [⟨.insert hashA exampleWasm, true⟩]) hashA 0 :=
      HeldSince.last ⟨rfl, rfl⟩
    exact hused.snoc fun hu => absurd hu.2 (by decide)
  | succ n ih =>
    rw [hitsOfB_succ]
    exact ⟨ih.1.snoc (step_afterStamps _), ih.2.snoc fun hu => absurd hu.2 (by decide)⟩

/-- With an entry cap of zero a new entry exceeds it. Sizes that do not fit 64 bits wrap the total
around, and so does the clock with its `2 ^ 64`th stamp: the entry used last is evicted. -/
theorem caps_and_sums_exceeded :
    (∃ s : WasmCompileCache Unit,
      Run (Step .release) (new 0 100) [⟨.insert hashA exampleWasm, true⟩] s ∧
      s.entryCap < s.entries.length) ∧
    (∃ s : WasmCompileCache Unit,
      Run (Step .release) (new 64 (2 ^ 64 - 1)) [⟨.insert hashA largestWasm, true⟩,
        ⟨.insert hashB largestWasm, true⟩, ⟨.insert hashC largestWasm, true⟩] s ∧
      s.totalBytes ≠ (s.held.map Prod.snd).sum) ∧
    ∃ es i j, ∃ s s' : WasmCompileCache Unit, Run (Step .release) (new 2 100) es s ∧
      Step .release s ⟨.insert hashC exampleWasm, true⟩ s' ∧
      i < j ∧ LastUse es hashA i ∧ LastUse es hashB j ∧
      s.held = [(hashA, 1), (hashB, 1)] ∧ s'.held = [(hashA, 1), (hashC, 1)] := by
  refine ⟨⟨_, Run.cons rfl Run.nil, by decide⟩,
    ⟨_, Run.cons rfl (Run.cons rfl (Run.cons rfl Run.nil)), by decide⟩, ?_⟩
  obtain ⟨run, ha⟩ := run_hitsOfB (2 ^ 64 - 2)
  have hlast (n : ℕ) (hn : 0 < n) : ∃ j, 0 < j ∧ LastUse (hitsOfB n) hashB j := by
    obtain ⟨m, rfl⟩ := Nat.exists_eq_succ_of_ne_zero (Nat.ne_of_gt hn)
    rw [hitsOfB_succ]
    exact ⟨_, by simp [hitsOfB], HeldSince.last ⟨rfl, rfl⟩⟩
  obtain ⟨j, hj, hb⟩ := hlast (2 ^ 64 - 2) (by decide)
  have hcall : (call .release (afterStamps (2 ^ 64)) (.insert hashC exampleWasm)).map
      (fun r => (r.1, r.2.held)) = some (true, [(hashA, 1), (hashC, 1)]) := by decide +kernel
  obtain ⟨⟨stamped, s'⟩, hstep, heq⟩ := Option.map_eq_some_iff.mp hcall
  obtain ⟨rfl, hheld⟩ := Prod.mk.injEq _ _ _ _ ▸ heq
  exact ⟨_, 0, j, afterStamps (2 ^ 64), s', run, hstep, hj, ha, hb, rfl, hheld⟩

end RustExample.OpenraftCluster.CompileCache
