import Mathlib.Data.List.Nodup
import RustExample.Foundation.Run

/-!
# Linearizable histories

A history records the calls of concurrent clients and their returns, in the order in which they
happen. It is linearizable if its calls can be put in one order, in which each of them gives by
the sequential specification the result it returned, and in which no call comes before one that
had returned when it was made. A call that has not returned may take part or not.

The atomic object makes each call take effect at one moment between its call and its return. Its
histories are linearizable, and so are those of a system that it simulates.
-/

namespace RustExample

open List

variable {σ ι α β : Type*}

/-! ### Histories -/

/-- A client calls an operation, or is told its result. Each client makes one call. -/
inductive CallEvent (ι α β : Type*) where
  | call (i : ι) (op : α)
  | ret (i : ι) (res : β)

/-- A call with the result it has in a sequential order. -/
@[ext] structure Effect (ι α β : Type*) where
  id : ι
  op : α
  res : β

/-- The call of `i` had returned when `j` made its call. -/
def Precedes (h : List (CallEvent ι α β)) (i j : ι) : Prop :=
  ∃ m n : ℕ, m < n ∧ (∃ r, h[m]? = some (CallEvent.ret i r)) ∧
    ∃ op, h[n]? = some (CallEvent.call j op)

variable {h : List (CallEvent ι α β)}

theorem Precedes.of_snoc {e : CallEvent ι α β} {i j : ι} (hp : Precedes (h ++ [e]) i j) :
    Precedes h i j ∨ (∃ r, .ret i r ∈ h) ∧ ∃ op, e = .call j op := by
  obtain ⟨m, n, hmn, ⟨r, hm⟩, op, hn⟩ := hp
  rcases getElem?_snoc.mp hm with hm' | ⟨rfl, -⟩
  · rcases getElem?_snoc.mp hn with hn' | ⟨-, rfl⟩
    · exact .inl ⟨m, n, hmn, ⟨r, hm'⟩, op, hn'⟩
    · exact .inr ⟨⟨r, mem_of_getElem? hm'⟩, op, rfl⟩
  · have hlen : n < (h ++ [e]).length := (List.getElem?_eq_some_iff.mp hn).1
    rw [length_append, length_singleton] at hlen
    omega

/-! ### Sequential orders -/

section Sequential

variable (spec : σ → α → σ × β)

/-- The calls, one after the other, have the results of the specification. -/
def Legal (s : σ) : List (Effect ι α β) → Prop
  | [] => True
  | c :: l => (spec s c.op).2 = c.res ∧ Legal (spec s c.op).1 l

/-- The state after a sequence of calls. -/
def stateAfter (s : σ) (l : List (Effect ι α β)) : σ :=
  l.foldl (fun s c => (spec s c.op).1) s

theorem stateAfter_snoc (s : σ) (l : List (Effect ι α β)) (c : Effect ι α β) :
    stateAfter spec s (l ++ [c]) = (spec (stateAfter spec s l) c.op).1 := by
  rw [stateAfter, foldl_append, foldl_cons, foldl_nil, stateAfter]

variable {spec}

variable {l : List (Effect ι α β)}

theorem Legal.snoc {s : σ} {c : Effect ι α β} (h : Legal spec s l)
    (hc : (spec (stateAfter spec s l) c.op).2 = c.res) : Legal spec s (l ++ [c]) := by
  induction l generalizing s with
  | nil => exact ⟨hc, trivial⟩
  | cons d l ih => exact ⟨h.1, ih h.2 hc⟩

variable (spec) in
/-- A sequential order of the calls of a history that explains what they returned. -/
structure Linearization (s₀ : σ) (h : List (CallEvent ι α β)) (l : List (Effect ι α β)) :
    Prop where
  legal : Legal spec s₀ l
  nodup : (l.map Effect.id).Nodup
  called : ∀ c ∈ l, .call c.id c.op ∈ h
  returned : ∀ i r, .ret i r ∈ h → ∃ c ∈ l, c.id = i ∧ c.res = r
  order : l.Pairwise fun c d => ¬Precedes h d.id c.id

variable (spec) in
/-- The calls of the history can be explained by a sequential order. -/
def Linearizable (s₀ : σ) (h : List (CallEvent ι α β)) : Prop := ∃ l, Linearization spec s₀ h l

/-- A linearization is determined by the order of the clients, if `call` tells their calls. -/
theorem Linearization.eq_map {s₀ : σ} (hl : Linearization spec s₀ h l) {call : ι → Effect ι α β}
    (hid : ∀ i, (call i).id = i)
    (hcall : ∀ i op, .call i op ∈ h → (call i).op = op ∧ .ret i (call i).res ∈ h) :
    l = (l.map Effect.id).map call := by
  rw [map_map]
  refine (map_id l).symm.trans (map_congr_left fun c hc => ?_)
  obtain ⟨hop, hret⟩ := hcall c.id c.op (hl.called c hc)
  obtain ⟨d, hd, hdc, hres⟩ := hl.returned _ _ hret
  obtain rfl : d = c := inj_on_of_nodup_map hl.nodup hd hc hdc
  exact (Effect.ext (hid d.id) hop hres.symm).symm

end Sequential

/-! ### The atomic object -/

/-- How far a call of the atomic object is. -/
inductive CallStage (α β : Type*) where
  | called (op : α)
  | done (res : β)
  | returned

/-- An object whose calls take effect one at a time. -/
structure AtomicObject (σ ι α β : Type*) where
  state : σ
  stage : ι → Option (CallStage α β)

namespace AtomicObject

/-- The object in state `s`, not called yet. -/
def initial (s : σ) : AtomicObject σ ι α β := ⟨s, fun _ => none⟩

variable [DecidableEq ι]

/-- The stage of one call changes. -/
def setStage (o : AtomicObject σ ι α β) (i : ι) (c : CallStage α β) : AtomicObject σ ι α β :=
  { o with stage := Function.update o.stage i (some c) }

@[simp] theorem stage_setStage_self (o : AtomicObject σ ι α β) (i : ι) (c : CallStage α β) :
    (o.setStage i c).stage i = some c :=
  Function.update_self _ _ _

theorem stage_setStage_of_ne (o : AtomicObject σ ι α β) {i j : ι} (h : j ≠ i)
    (c : CallStage α β) : (o.setStage i c).stage j = o.stage j :=
  Function.update_of_ne h _ _

variable (spec : σ → α → σ × β)

/-- The steps of the atomic object: a call, its effect, which no client sees, and its return. -/
inductive Step (o : AtomicObject σ ι α β) :
    Option (CallEvent ι α β) → AtomicObject σ ι α β → Prop
  | call (i : ι) (op : α) (h : o.stage i = none) :
      Step o (some (.call i op)) (o.setStage i (.called op))
  | effect (i : ι) (op : α) (h : o.stage i = some (.called op)) :
      Step o none
        { o.setStage i (.done (spec o.state op).2) with state := (spec o.state op).1 }
  | ret (i : ι) (res : β) (h : o.stage i = some (.done res)) :
      Step o (some (.ret i res)) (o.setStage i .returned)

end AtomicObject

/-- What a history and an order of its effects say of a call at a given stage. -/
def CallStage.Recorded (h : List (CallEvent ι α β)) (l : List (Effect ι α β)) (i : ι) :
    Option (CallStage α β) → Prop
  | none => (∀ r, .ret i r ∉ h) ∧ ∀ c ∈ l, c.id ≠ i
  | some (.called op) => .call i op ∈ h ∧ (∀ r, .ret i r ∉ h) ∧ ∀ c ∈ l, c.id ≠ i
  | some (.done r) => ∃ c ∈ l, c.id = i ∧ c.res = r
  | some .returned => True

/-- What was recorded of a call does not change with the events and effects of others. -/
theorem CallStage.Recorded.frame {h' : List (CallEvent ι α β)} {l l' : List (Effect ι α β)} {j : ι}
    {stage : Option (CallStage α β)} (hj : Recorded h l j stage)
    (hcall : ∀ op, .call j op ∈ h' ↔ .call j op ∈ h) (hret : ∀ r, .ret j r ∈ h' ↔ .ret j r ∈ h)
    (heffect : ∀ c, c.id = j → (c ∈ l' ↔ c ∈ l)) : Recorded h' l' j stage := by
  have hnot (hid : ∀ c ∈ l, c.id ≠ j) : ∀ c ∈ l', c.id ≠ j :=
    fun c hc hcj => hid c ((heffect c hcj).mp hc) hcj
  cases stage with
  | none => exact ⟨fun r hr => hj.1 r ((hret r).mp hr), hnot hj.2⟩
  | some stage =>
    cases stage with
    | called op =>
      exact ⟨(hcall op).mpr hj.1, fun r hr => hj.2.1 r ((hret r).mp hr), hnot hj.2.2⟩
    | done r =>
      obtain ⟨c, hc, hcj, hr⟩ := hj
      exact ⟨c, (heffect c hcj).mpr hc, hcj, hr⟩
    | returned => trivial

namespace AtomicObject

variable [DecidableEq ι] (spec : σ → α → σ × β)

omit [DecidableEq ι] in
/-- The order in which the calls took effect explains the history and the object. -/
structure Explained (s₀ : σ) (o : AtomicObject σ ι α β) (h : List (CallEvent ι α β))
    (l : List (Effect ι α β)) : Prop extends Linearization spec s₀ h l where
  state : o.state = stateAfter spec s₀ l
  recorded : ∀ i, CallStage.Recorded h l i (o.stage i)

variable {spec} {s₀ : σ} {o o' : AtomicObject σ ι α β} {h h' : List (CallEvent ι α β)}
  {l l' : List (Effect ι α β)} {i : ι}

omit [DecidableEq ι] in
theorem explained_initial : Explained spec s₀ (initial s₀ : AtomicObject σ ι α β) [] [] where
  legal := trivial
  nodup := nodup_nil
  called := nofun
  returned := nofun
  order := List.Pairwise.nil
  state := rfl
  recorded := fun _ => ⟨nofun, nofun⟩

/-- One call changes its stage, and is recorded at the new one. -/
theorem recorded_setStage (hrec : ∀ j, CallStage.Recorded h l j (o.stage j)) {c : CallStage α β}
    (hi : CallStage.Recorded h' l' i (some c))
    (hframe : ∀ j, j ≠ i → (∀ op, .call j op ∈ h' ↔ .call j op ∈ h) ∧
      (∀ r, .ret j r ∈ h' ↔ .ret j r ∈ h) ∧ ∀ c, c.id = j → (c ∈ l' ↔ c ∈ l)) (j : ι) :
    CallStage.Recorded h' l' j ((o.setStage i c).stage j) := by
  by_cases hj : j = i
  · subst hj
    rwa [stage_setStage_self]
  · obtain ⟨hcall, hret, heffect⟩ := hframe j hj
    rw [stage_setStage_of_ne o hj]
    exact (hrec j).frame hcall hret heffect

theorem Explained.call (he : Explained spec s₀ o h l) (op : α) (hi : o.stage i = none) :
    Explained spec s₀ (o.setStage i (.called op)) (h ++ [.call i op]) l := by
  have hrec := he.recorded i
  rw [hi] at hrec
  obtain ⟨hret, hid⟩ := hrec
  refine ⟨⟨he.legal, he.nodup, fun c hc => ?_, fun j r hr => ?_, ?_⟩, he.state, ?_⟩
  · exact mem_append_left _ (he.called c hc)
  · exact he.returned j r (by simpa using hr)
  · refine he.order.imp_of_mem fun {c d} hc _ hcd hp => ?_
    rcases hp.of_snoc with hp | ⟨-, op', hop⟩
    · exact hcd hp
    · exact hid c hc (CallEvent.call.inj hop).1.symm
  · refine recorded_setStage he.recorded ⟨by simp, by simpa using hret, hid⟩ fun j hj => ?_
    simp [hj]

theorem Explained.effect (he : Explained spec s₀ o h l) {op : α}
    (hi : o.stage i = some (.called op)) :
    Explained spec s₀
      { o.setStage i (.done (spec o.state op).2) with state := (spec o.state op).1 } h
      (l ++ [⟨i, op, (spec o.state op).2⟩]) := by
  have hrec := he.recorded i
  rw [hi] at hrec
  obtain ⟨hcall, hret, hid⟩ := hrec
  refine ⟨⟨he.legal.snoc (by rw [he.state]), ?_, fun c hc => ?_, fun j r hr => ?_, ?_⟩, ?_, ?_⟩
  · rw [map_append, map_singleton, ← concat_eq_append]
    exact he.nodup.concat (by simpa using hid)
  · rcases List.mem_append.mp hc with hc | hc
    · exact he.called c hc
    · obtain rfl := List.mem_singleton.mp hc
      exact hcall
  · obtain ⟨c, hc, hcj⟩ := he.returned j r hr
    exact ⟨c, mem_append_left _ hc, hcj⟩
  · refine List.pairwise_append.mpr ⟨he.order, pairwise_singleton _ _, fun c _ d hd hp => ?_⟩
    obtain rfl := List.mem_singleton.mp hd
    obtain ⟨m, n, -, ⟨r, hm⟩, -⟩ := hp
    exact hret r (mem_of_getElem? hm)
  · rw [stateAfter_snoc, ← he.state]
  · refine recorded_setStage he.recorded ⟨_, mem_append_right _ (mem_singleton_self _),
      rfl, rfl⟩ fun j hj => ⟨fun _ => Iff.rfl, fun _ => Iff.rfl, fun c hc => ?_⟩
    subst hc
    simp [Effect.ext_iff, hj]

theorem Explained.ret (he : Explained spec s₀ o h l) {res : β}
    (hi : o.stage i = some (.done res)) :
    Explained spec s₀ (o.setStage i .returned) (h ++ [.ret i res]) l := by
  have hrec := he.recorded i
  rw [hi] at hrec
  obtain ⟨c, hc, hci, hres⟩ := hrec
  refine ⟨⟨he.legal, he.nodup, fun d hd => ?_, fun j r hr => ?_, ?_⟩, he.state, ?_⟩
  · exact mem_append_left _ (he.called d hd)
  · rcases List.mem_append.mp hr with hr | hr
    · exact he.returned j r hr
    · obtain ⟨rfl, rfl⟩ := CallEvent.ret.inj (List.mem_singleton.mp hr)
      exact ⟨c, hc, hci, hres⟩
  · refine he.order.imp fun hcd hp => ?_
    rcases hp.of_snoc with hp | ⟨-, op, hop⟩
    · exact hcd hp
    · cases hop
  · refine recorded_setStage he.recorded trivial fun j hj => ?_
    simp [hj]

variable {es : List (Option (CallEvent ι α β))}

/-- The order in which the calls of the atomic object take effect explains its history. -/
theorem exists_explained_of_run (run : Run (Step spec) (initial s₀) es o) :
    ∃ l, Explained spec s₀ o (es.filterMap id) l := by
  induction run with
  | nil => exact ⟨[], explained_initial⟩
  | @snoc es o o' e run h ih =>
    obtain ⟨l, he⟩ := ih
    rw [filterMap_append]
    cases h with
    | call i op hi => exact ⟨l, he.call op hi⟩
    | effect i op hi => exact ⟨_, by simpa using he.effect hi⟩
    | ret i res hi => exact ⟨l, he.ret hi⟩

/-- **The histories of the atomic object are linearizable.** -/
theorem linearizable_of_run (run : Run (Step spec) (initial s₀) es o) :
    Linearizable spec s₀ (es.filterMap id) := by
  obtain ⟨l, he⟩ := exists_explained_of_run run
  exact ⟨l, he.toLinearization⟩

end AtomicObject

/-- **A system that the atomic object simulates has linearizable histories.** Every step is
matched by steps of the atomic object that show the same call or return. -/
theorem linearizable_of_simulation [DecidableEq ι] {τ ε : Type*} {step : τ → ε → τ → Prop}
    {t₀ t : τ} {spec : σ → α → σ × β} {s₀ : σ} {R : τ → AtomicObject σ ι α β → Prop}
    (shown : ε → Option (CallEvent ι α β)) (h₀ : R t₀ (AtomicObject.initial s₀))
    (hstep : ∀ t o e t', R t o → step t e t' → ∃ es o', Run (AtomicObject.Step spec) o es o' ∧
      es.filterMap id = (shown e).toList ∧ R t' o')
    {es : List ε} (run : Run step t₀ es t) : Linearizable spec s₀ (es.filterMap shown) := by
  obtain ⟨es', o, run', hes, -⟩ := run.simulate_shown shown id h₀ hstep
  rw [← hes]
  exact AtomicObject.linearizable_of_run run'

end RustExample
