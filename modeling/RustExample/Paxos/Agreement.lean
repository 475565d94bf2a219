import RustExample.Foundation.Run
import RustExample.Paxos.Node

/-!
# Agreement

Two calls agree if an acceptor has promised and accepted for both: it promises to the second call
only a ballot that is not below the one that it has accepted, and tells the value with it. The
calls of the program do not always have such an acceptor. A proposer counts its own node, whose
acceptor it never asks, so that one reply is a majority; and as every node counts its ballots from
one, an acceptor may promise one ballot to two calls.
-/

namespace RustExample.Paxos

open Function List

/-- All calls that succeed give the same answer. -/
def Agreement (es : List Event) : Prop :=
  ∀ c c' r r', Event.answer c (.ok r) ∈ es → Event.answer c' (.ok r') ∈ es → r = r'

/-- The condition on a step. A call uses the reply of one node beside a failed exchange only if it
ends its hopes; and no acceptor without a value is asked for a promise that it has given. -/
def Heard (s : Cluster) : Event → Prop
  | .propose c => ∀ node value id outcomes, s.calls c = .preparing node value id outcomes →
      ∀ a ∈ others node, outcomes a = .failed →
        ∀ a' ∈ others node, ∀ v, outcomes a' = .received (.value v) → v.value ≠ none
  | .answer c _ => ∀ node value v outcomes, s.calls c = .proposing node value v false outcomes →
      ∀ a ∈ others node, outcomes a = .failed →
        ∀ a' ∈ others node, ∀ v, outcomes a' ≠ .received (.value v)
  | .handle ⟨_, target, .prepare prepareId⟩ _ =>
    (s.acceptor target).acceptedPropose = none → prepareId ≠ (s.acceptor target).maxId
  | .handle ⟨_, _, .propose _⟩ _ | .clientPropose _ _ _ | .receive _ _ | .fail _ => True

/-! ### What the handlers answer -/

/-- The acceptor `a` promised a ballot to a call, and had accepted nothing. -/
abbrev Event.promised (c : ℕ) (a : NodeId) (id : UInt64) : Event :=
  .handle ⟨c, a, .prepare id⟩ (.value ⟨id, none⟩)

/-- The acceptor `a` accepted the value of a call. -/
abbrev Event.accepted (c : ℕ) (a : NodeId) (v : Value) : Event :=
  .handle ⟨c, a, .propose v⟩ (.value v)

/-- What a handler does: it rejects, promises or accepts. -/
theorem Acceptor.handle_cases {a a' : Acceptor} {message : Message} {reply : Reply}
    (h : a.handle message = (a', reply)) :
    (∃ err, reply = .rejected err ∧ a' = a) ∨
      (∃ id, message = .prepare id ∧ a.maxId ≤ id ∧ a' = { a with maxId := id } ∧
        reply = .value ⟨id, a.acceptedPropose.bind (·.value)⟩) ∨
      ∃ v, message = .propose v ∧ a.maxId = v.id ∧ a' = { a with acceptedPropose := some v } ∧
        reply = .value v := by
  cases message with
  | prepare id =>
    rw [handle, handlePrepare] at h
    split_ifs at h with hlt
    · obtain ⟨⟩ := h
      exact .inl ⟨_, rfl, rfl⟩
    · obtain ⟨⟩ := h
      refine .inr (.inl ⟨id, rfl, UInt64.not_lt.mp hlt, rfl, ?_⟩)
      cases a.acceptedPropose <;> rfl
  | propose v =>
    rw [handle, handlePropose] at h
    split_ifs at h with hne
    · obtain ⟨⟩ := h
      exact .inl ⟨_, rfl, rfl⟩
    · obtain ⟨⟩ := h
      exact .inr (.inr ⟨v, rfl, not_ne_iff.mp hne, rfl, rfl⟩)

/-- The value that answers a message: it has the ballot asked for, or is the proposal. -/
def Message.Answers (v : Value) : Message → Prop
  | .prepare id => v.id = id
  | .propose v' => v = v'

/-! ### One acceptor -/

/-- What the acceptors have answered. A ballot promised before a value was accepted is not above
that of the value, and to one call only. -/
structure Promises (es : List Event) (acceptor : NodeId → Acceptor) : Prop where
  honest : ∀ c a message v, .handle ⟨c, a, message⟩ (.value v) ∈ es → message.Answers v
  stored : ∀ a v, (acceptor a).acceptedPropose = some v → v.value ≠ none
  promised : ∀ c a id, .promised c a id ∈ es → id ≤ (acceptor a).maxId
  kept : ∀ c a v, .accepted c a v ∈ es → (acceptor a).acceptedPropose ≠ none
  ordered : ∀ c c' a id v, .promised c a id ∈ es → .accepted c' a v ∈ es → id ≤ v.id
  owner : ∀ c c' a id, .promised c a id ∈ es → .promised c' a id ∈ es → c = c'

namespace Promises

variable {es : List Event} {acceptor : NodeId → Acceptor} {e : Event} {c : ℕ} {target : NodeId}

theorem snoc (h : Promises es acceptor)
    (he : ∀ request v, e ≠ .handle request (.value v)) : Promises (es ++ [e]) acceptor := by
  have hmem {request : Request} {v : Value} (hhandle : .handle request (.value v) ∈ es ++ [e]) :
      .handle request (.value v) ∈ es := by
    rcases List.mem_append.mp hhandle with hhandle | hhandle
    · exact hhandle
    · exact absurd (List.mem_singleton.mp hhandle).symm (he request v)
  exact ⟨fun c a message v hc => h.honest c a message v (hmem hc), h.stored,
    fun c a id hc => h.promised c a id (hmem hc), fun c a v hc => h.kept c a v (hmem hc),
    fun c c' a id v hc hc' => h.ordered c c' a id v (hmem hc) (hmem hc'),
    fun c c' a id hc hc' => h.owner c c' a id (hmem hc) (hmem hc')⟩

/-- An acceptor promises a ballot, with the value that it has accepted. -/
theorem prepare (h : Promises es acceptor) {id : UInt64} (hid : (acceptor target).maxId ≤ id)
    (hheard : (acceptor target).acceptedPropose = none → id ≠ (acceptor target).maxId) :
    Promises
      (es ++ [.handle ⟨c, target, .prepare id⟩
        (.value ⟨id, (acceptor target).acceptedPropose.bind (·.value)⟩)])
      (update acceptor target { acceptor target with maxId := id }) := by
  have hstate (a : NodeId) :
      (update acceptor target { acceptor target with maxId := id } a).acceptedPropose =
          (acceptor a).acceptedPropose ∧
        (acceptor a).maxId ≤
          (update acceptor target { acceptor target with maxId := id } a).maxId := by
    rw [update_apply]
    split_ifs with ha
    · exact ⟨ha ▸ rfl, ha ▸ hid⟩
    · exact ⟨rfl, UInt64.le_refl _⟩
  have hmem {c' : ℕ} {a : NodeId} {message : Message} {v : Value}
      (hc : .handle ⟨c', a, message⟩ (.value v) ∈ es ++ [.handle ⟨c, target, .prepare id⟩
        (.value ⟨id, (acceptor target).acceptedPropose.bind (·.value)⟩)]) :
      .handle ⟨c', a, message⟩ (.value v) ∈ es ∨ (c' = c ∧ a = target ∧ message = .prepare id ∧
        v = ⟨id, (acceptor target).acceptedPropose.bind (·.value)⟩) := by
    simpa [and_assoc] using hc
  -- a promise without a value is given before anything is accepted
  have hnew {c' : ℕ} {a : NodeId} {id' : UInt64}
      (hc : .promised c' a id' ∈ es ++ [.handle ⟨c, target, .prepare id⟩
        (.value ⟨id, (acceptor target).acceptedPropose.bind (·.value)⟩)]) :
      .promised c' a id' ∈ es ∨
        (c' = c ∧ a = target ∧ id' = id ∧ (acceptor target).acceptedPropose = none) := by
    refine (hmem hc).imp_right ?_
    rintro ⟨hcall, ha, hmessage, hv⟩
    refine ⟨hcall, ha, Message.prepare.inj hmessage, ?_⟩
    cases hstored : (acceptor target).acceptedPropose with
    | none => rfl
    | some v =>
      rw [hstored] at hv
      exact absurd (Value.mk.inj hv).2.symm (h.stored target v hstored)
  have hold {c' : ℕ} {a : NodeId} {v : Value}
      (hc : .accepted c' a v ∈ es ++ [.handle ⟨c, target, .prepare id⟩
        (.value ⟨id, (acceptor target).acceptedPropose.bind (·.value)⟩)]) :
      .accepted c' a v ∈ es :=
    (hmem hc).resolve_right fun hnew => by cases hnew.2.2.1
  refine ⟨fun c' a message v hc => ?_, fun a v hv => ?_, fun c' a id' hc => ?_, fun c' a v hc => ?_,
    fun c₁ c₂ a id' v h₁ h₂ => ?_, fun c₁ c₂ a id' h₁ h₂ => ?_⟩
  · rcases hmem hc with hc | ⟨-, -, rfl, rfl⟩
    · exact h.honest c' a message v hc
    · rfl
  · exact h.stored a v ((hstate a).1.symm.trans hv)
  · rcases hnew hc with hc | ⟨-, rfl, rfl, -⟩
    · exact UInt64.le_trans (h.promised c' a id' hc) (hstate a).2
    · rw [update_self]
      exact UInt64.le_refl _
  · rw [(hstate a).1]
    exact h.kept c' a v (hold hc)
  · rcases hnew h₁ with h₁ | ⟨-, rfl, -, hnone⟩
    · exact h.ordered c₁ c₂ a id' v h₁ (hold h₂)
    · exact absurd hnone (h.kept c₂ a v (hold h₂))
  · have hfresh {c' : ℕ} (hc : .promised c' target id ∈ es)
        (hnone : (acceptor target).acceptedPropose = none) : False :=
      hheard hnone (UInt64.le_antisymm (h.promised c' target id hc) hid)
    rcases hnew h₁ with hold₁ | ⟨rfl, rfl, rfl, hnone⟩
    · rcases hnew h₂ with hold₂ | ⟨rfl, rfl, rfl, hnone⟩
      · exact h.owner c₁ c₂ a id' hold₁ hold₂
      · exact (hfresh hold₁ hnone).elim
    · rcases hnew h₂ with hold₂ | ⟨rfl, -⟩
      · exact (hfresh hold₂ hnone).elim
      · rfl

/-- An acceptor accepts a value of the ballot that it has promised last. -/
theorem propose (h : Promises es acceptor) {v : Value} (hid : (acceptor target).maxId = v.id)
    (hv : v.value ≠ none) :
    Promises (es ++ [.accepted c target v])
      (update acceptor target { acceptor target with acceptedPropose := some v }) := by
  have hmax (a : NodeId) : (update acceptor target
      { acceptor target with acceptedPropose := some v } a).maxId = (acceptor a).maxId := by
    rw [update_apply]
    split_ifs with ha
    · exact ha ▸ rfl
    · rfl
  have hmem {c' : ℕ} {a : NodeId} {message : Message} {v' : Value}
      (hc : .handle ⟨c', a, message⟩ (.value v') ∈ es ++ [.accepted c target v]) :
      .handle ⟨c', a, message⟩ (.value v') ∈ es ∨
        (c' = c ∧ a = target ∧ message = .propose v ∧ v' = v) := by
    simpa [and_assoc] using hc
  have hold {c' : ℕ} {a : NodeId} {id : UInt64}
      (hc : .promised c' a id ∈ es ++ [.accepted c target v]) : .promised c' a id ∈ es :=
    (hmem hc).resolve_right fun hnew => by cases hnew.2.2.1
  refine ⟨fun c' a message v' hc => ?_, fun a v' hv' => ?_, fun c' a id hc => ?_,
    fun c' a v' hc => ?_, fun c₁ c₂ a id v' h₁ h₂ => ?_,
    fun c₁ c₂ a id h₁ h₂ => h.owner c₁ c₂ a id (hold h₁) (hold h₂)⟩
  · rcases hmem hc with hc | ⟨-, -, rfl, rfl⟩
    · exact h.honest c' a message v' hc
    · rfl
  · rw [update_apply] at hv'
    split_ifs at hv' with ha
    · obtain ⟨⟩ := hv'
      exact hv
    · exact h.stored a v' hv'
  · rw [hmax]
    exact h.promised c' a id (hold hc)
  · rw [update_apply]
    split_ifs with ha
    · exact Option.some_ne_none v
    · exact h.kept c' a v' ((hmem hc).resolve_right fun hnew => ha hnew.2.1)
  · rcases hmem h₂ with h₂ | ⟨-, rfl, -, rfl⟩
    · exact h.ordered c₁ c₂ a id v' (hold h₁) h₂
    · exact hid ▸ h.promised c₁ a id (hold h₁)

theorem handle (h : Promises es acceptor) {message : Message} {a : Acceptor} {reply : Reply}
    (hhandle : (acceptor target).handle message = (a, reply))
    (hheard : ∀ id, message = .prepare id → (acceptor target).acceptedPropose = none →
      id ≠ (acceptor target).maxId)
    (hvalue : ∀ v, message = .propose v → v.value ≠ none) :
    Promises (es ++ [.handle ⟨c, target, message⟩ reply]) (update acceptor target a) := by
  rcases Acceptor.handle_cases hhandle with ⟨err, rfl, rfl⟩ | ⟨id, rfl, hid, rfl, rfl⟩ |
    ⟨v, rfl, hid, rfl, rfl⟩
  · rw [update_eq_self]
    exact h.snoc (by simp)
  · exact h.prepare hid (hheard id rfl)
  · exact h.propose hid (hvalue v rfl)

end Promises

/-! ### Calls -/

theorem majority_others (node : NodeId) : majority (others node) = 2 := by
  revert node
  decide

theorem exists_mem_others (node node' : NodeId) : ∃ a, a ∈ others node ∧ a ∈ others node' := by
  revert node node'
  decide

/-- What is collected are the values received, and no reply was a rejection. -/
theorem collect_eq_ok {outcomes : List Outcome} {vs : List Value} (h : collect outcomes = .ok vs) :
    (∀ err, .received (.rejected err) ∉ outcomes) ∧
      ∀ v, v ∈ vs ↔ .received (.value v) ∈ outcomes := by
  induction outcomes generalizing vs with
  | nil =>
    obtain ⟨⟩ := h
    exact ⟨fun _ => not_mem_nil, fun _ => by simp⟩
  | cons outcome outcomes ih =>
    rcases outcome with _ | _ | ⟨v | err⟩
    · obtain ⟨hrejected, hvs⟩ := ih h
      exact ⟨by simpa using hrejected, by simpa using hvs⟩
    · obtain ⟨hrejected, hvs⟩ := ih h
      exact ⟨by simpa using hrejected, by simpa using hvs⟩
    · rw [collect] at h
      cases hrest : collect outcomes with
      | error err => simp [hrest, Except.map] at h
      | ok vs' =>
        rw [hrest] at h
        obtain ⟨⟩ := h
        obtain ⟨hrejected, hvs⟩ := ih hrest
        exact ⟨by simpa using hrejected, by simp [hvs]⟩
    · cases h

section Heard

variable {nodes : List NodeId} {outcomes : NodeId → Outcome}

/-- If no exchange has failed beside a reply that counts, all nodes have given one. -/
theorem all_received {P : Value → Prop} {vs : List Value}
    (hover : ∀ a ∈ nodes, outcomes a ≠ .waiting) (hcollect : collect (nodes.map outcomes) = .ok vs)
    (hlength : 2 ≤ vs.length + 1) (hvs : ∀ v ∈ vs, P v)
    (hheard : ∀ a ∈ nodes, outcomes a = .failed →
      ∀ a' ∈ nodes, ∀ v, outcomes a' = .received (.value v) → ¬P v) :
    ∀ a ∈ nodes, ∃ v, outcomes a = .received (.value v) ∧ P v := by
  obtain ⟨hrejected, hmem⟩ := collect_eq_ok hcollect
  have hvalue {a : NodeId} (ha : a ∈ nodes) {v : Value}
      (hv : outcomes a = .received (.value v)) : P v :=
    hvs v ((hmem v).mpr (hv ▸ mem_map_of_mem ha))
  intro a ha
  cases hout : outcomes a with
  | waiting => exact absurd hout (hover a ha)
  | failed =>
    cases vs with
    | nil =>
      rw [length_nil] at hlength
      omega
    | cons v vs =>
      obtain ⟨a', ha', hv⟩ := List.mem_map.mp ((hmem v).mp mem_cons_self)
      exact absurd (hvalue ha' hv) (hheard a ha hout a' ha' v hv)
  | received reply =>
    cases reply with
    | value v => exact ⟨v, rfl, hvalue ha hout⟩
    | rejected err => exact absurd (hout ▸ mem_map_of_mem ha) (hrejected err)

theorem mem_of_maxById {vs : List Value} {v : Value} (h : maxById vs = some v) : v ∈ vs := by
  induction vs using List.reverseRecOn with
  | nil => cases h
  | append_singleton vs w ih =>
    rw [maxById, foldl_concat] at h
    split_ifs at h
    · exact mem_append_left _ (ih h)
    · obtain ⟨⟩ := h
      exact mem_append_right _ (mem_singleton_self _)

theorem eq_nil_of_maxById {vs : List Value} (h : maxById vs = none) : vs = [] := by
  induction vs using List.reverseRecOn with
  | nil => rfl
  | append_singleton vs w ih =>
    rw [maxById, foldl_concat] at h
    split_ifs at h with hbest
    · have hnone : maxById vs = none := h
      rw [maxById] at hnone
      simp [hnone] at hbest

variable {hasAccepted : Bool}

/-- What a call proposes, and what it has collected then. -/
theorem of_afterPrepare {value : String} {v : Option String}
    (h : afterPrepare nodes value outcomes = .ok (hasAccepted, v)) :
    ∃ promises, collect (nodes.map outcomes) = .ok promises ∧
      majority nodes ≤ promises.length + 1 ∧ v ≠ none ∧
      (hasAccepted = false → v = some value ∧ ∀ p ∈ promises, p.value = none) := by
  cases hcollect : collect (nodes.map outcomes) with
  | error err => simp [afterPrepare, hcollect, Bind.bind, Except.bind] at h
  | ok promises =>
    refine ⟨promises, rfl, ?_⟩
    by_cases hlt : promises.length + 1 < majority nodes
    · simp [afterPrepare, hcollect, hlt, Bind.bind, Except.bind, throw, throwThe,
        MonadExceptOf.throw] at h
    · cases hmax : maxById (promises.filter (·.value.isSome)) with
      | some accepted =>
        simp [afterPrepare, hcollect, hlt, hmax, Bind.bind, Except.bind, Pure.pure,
          Except.pure] at h
        obtain ⟨rfl, rfl⟩ := h
        have hsome := of_mem_filter (mem_of_maxById hmax)
        exact ⟨Nat.le_of_not_lt hlt, Option.isSome_iff_ne_none.mp hsome, nofun⟩
      | none =>
        simp [afterPrepare, hcollect, hlt, hmax, Bind.bind, Except.bind, Pure.pure,
          Except.pure] at h
        obtain ⟨rfl, rfl⟩ := h
        refine ⟨Nat.le_of_not_lt hlt, nofun, fun _ => ⟨rfl, fun p hp => ?_⟩⟩
        have hnone := List.filter_eq_nil_iff.mp (eq_nil_of_maxById hmax) p hp
        simpa using hnone

theorem of_afterPropose {u : Unit} (h : afterPropose nodes hasAccepted outcomes = .ok u) :
    hasAccepted = false ∧ ∃ vs, collect (nodes.map outcomes) = .ok vs ∧
      majority nodes ≤ vs.length + 1 := by
  cases hcollect : collect (nodes.map outcomes) with
  | error err => simp [afterPropose, hcollect, Bind.bind, Except.bind] at h
  | ok vs =>
    by_cases hlt : vs.length + 1 < majority nodes
    · simp [afterPropose, hcollect, hlt, Bind.bind, Except.bind, throw, throwThe,
        MonadExceptOf.throw] at h
    · cases hasAccepted with
      | true =>
        simp [afterPropose, hcollect, hlt, Bind.bind, Except.bind, throw, throwThe,
          MonadExceptOf.throw] at h
      | false => exact ⟨rfl, vs, rfl, Nat.le_of_not_lt hlt⟩

end Heard

/-- What a call has received was answered, and it proposes its own value only if all that it asked
have promised without one. -/
def Call.Fits (es : List Event) (c : ℕ) : Call → Prop
  | .preparing _ _ id outcomes =>
    ∀ a reply, outcomes a = .received reply → .handle ⟨c, a, .prepare id⟩ reply ∈ es
  | .proposing node value v hasAccepted outcomes =>
    (∀ a reply, outcomes a = .received reply → .handle ⟨c, a, .propose v⟩ reply ∈ es) ∧
      v.value ≠ none ∧
      (hasAccepted = false → v.value = some value ∧ ∀ a ∈ others node, .promised c a v.id ∈ es)
  | .unused | .answered => True

/-- The invariant of the system. -/
structure Cluster.Invariant (es : List Event) (s : Cluster) : Prop where
  promises : Promises es s.acceptor
  requests : ∀ request ∈ s.requests, ∀ v, request.message = .propose v → v.value ≠ none
  replies : ∀ p ∈ s.replies, .handle p.1 p.2 ∈ es
  calls : ∀ c, (s.calls c).Fits es c
  answers : ∀ c r, .answer c (.ok r) ∈ es → s.calls c = .answered ∧
    ∃ node value id, r = "Accepted " ++ value ∧ ∀ a ∈ others node,
      .promised c a id ∈ es ∧ .accepted c a ⟨id, some value⟩ ∈ es
  once : ∀ c r r', .answer c (.ok r) ∈ es → .answer c (.ok r') ∈ es → r = r'

section Run

variable {es : List Event} {s s' : Cluster} {e : Event} {c : ℕ} {call call' : Call}

theorem Call.Fits.append (h : call.Fits es c) (rest : List Event) : call.Fits (es ++ rest) c := by
  cases call with
  | preparing => exact fun a reply hout => mem_append_left _ (h a reply hout)
  | proposing node value v hasAccepted outcomes =>
    obtain ⟨hreceived, hv, hown⟩ := h
    refine ⟨fun a reply hout => mem_append_left _ (hreceived a reply hout), hv, fun hnot => ?_⟩
    exact ⟨(hown hnot).1, fun a ha => mem_append_left _ ((hown hnot).2 a ha)⟩
  | unused | answered => trivial

theorem Call.Fits.settle (h : call.Fits es c) {target : NodeId} {message : Message}
    {outcome : Outcome} (hsettle : call.settle target message outcome = some call')
    (hout : ∀ reply, outcome = .received reply → .handle ⟨c, target, message⟩ reply ∈ es) :
    call'.Fits es c := by
  have hupdate {outcomes : NodeId → Outcome} {message' : Message} (hmessage : message' = message)
      (hreceived : ∀ a reply, outcomes a = .received reply →
        .handle ⟨c, a, message'⟩ reply ∈ es) (a : NodeId) (reply : Reply)
      (ha : update outcomes target outcome a = .received reply) :
      .handle ⟨c, a, message'⟩ reply ∈ es := by
    rw [update_apply] at ha
    split_ifs at ha with htarget
    · exact htarget ▸ hmessage ▸ hout reply ha
    · exact hreceived a reply ha
  cases call with
  | preparing node value id outcomes =>
    cases message with
    | propose v => cases hsettle
    | prepare id' =>
      rw [Call.settle] at hsettle
      split_ifs at hsettle with hcond
      obtain ⟨⟩ := hsettle
      exact hupdate (congrArg Message.prepare hcond.1) h
  | proposing node value v hasAccepted outcomes =>
    cases message with
    | prepare id => cases hsettle
    | propose v' =>
      rw [Call.settle] at hsettle
      split_ifs at hsettle with hcond
      obtain ⟨⟩ := hsettle
      exact ⟨hupdate (congrArg Message.propose hcond.1) h.1, h.2⟩
  | unused | answered => cases hsettle

namespace Cluster.Invariant

theorem initial : Cluster.initial.Invariant [] where
  promises := ⟨fun _ _ _ _ => nofun, fun _ _ => nofun, fun _ _ _ => nofun, fun _ _ _ => nofun,
    fun _ _ _ _ _ => nofun, fun _ _ _ _ => nofun⟩
  requests := fun _ => nofun
  replies := fun _ => nofun
  calls _ := trivial
  answers := fun _ _ => nofun
  once := fun _ _ _ => nofun

theorem snoc (h : s.Invariant es) (hpromises : Promises (es ++ [e]) s'.acceptor)
    (hanswer : ∀ c r, e ≠ .answer c (.ok r))
    (hrequests : ∀ request ∈ s'.requests, request ∈ s.requests ∨
      ∀ v, request.message = .propose v → v.value ≠ none)
    (hreplies : ∀ p ∈ s'.replies, .handle p.1 p.2 ∈ es ++ [e])
    (hcalls : ∀ c', s'.calls c' = s.calls c' ∨
      s.calls c' ≠ .answered ∧ (s'.calls c').Fits (es ++ [e]) c') : s'.Invariant (es ++ [e]) := by
  have hmem {c : ℕ} {r : String} (hc : .answer c (.ok r) ∈ es ++ [e]) : .answer c (.ok r) ∈ es := by
    rcases List.mem_append.mp hc with hc | hc
    · exact hc
    · exact absurd (List.mem_singleton.mp hc).symm (hanswer c r)
  refine ⟨hpromises, fun request hr v hv => ?_, hreplies, fun c' => ?_, fun c' r hc => ?_,
    fun c' r r' hc hc' => h.once c' r r' (hmem hc) (hmem hc')⟩
  · rcases hrequests request hr with hr | hr
    · exact h.requests request hr v hv
    · exact hr v hv
  · rcases hcalls c' with hsame | ⟨-, hfits⟩
    · exact hsame ▸ (h.calls c').append [e]
    · exact hfits
  · obtain ⟨hdone, node, value, id, hr, hheard⟩ := h.answers c' r (hmem hc)
    refine ⟨?_, node, value, id, hr, fun a ha => ?_⟩
    · rcases hcalls c' with hsame | ⟨hne, -⟩
      · exact hsame.trans hdone
      · exact absurd hdone hne
    · exact ⟨mem_append_left _ (hheard a ha).1, mem_append_left _ (hheard a ha).2⟩

/-- A call that succeeds was promised by all that it asked, and all accepted its own value. -/
theorem of_result (h : s.Invariant es) {r : String} (hover : (s.calls c).Over)
    (hresult : (s.calls c).result = some (.ok r)) (hheard : Heard s (.answer c (.ok r))) :
    ∃ node value id, r = "Accepted " ++ value ∧ ∀ a ∈ others node,
      .promised c a id ∈ es ∧ .accepted c a ⟨id, some value⟩ ∈ es := by
  have hfits := h.calls c
  cases hcall : s.calls c with
  | unused | answered =>
    rw [hcall] at hresult
    cases hresult
  | preparing node value id outcomes =>
    rw [hcall, Call.result] at hresult
    split at hresult <;> cases hresult
  | proposing node value v hasAccepted outcomes =>
    rw [hcall] at hfits hover hresult
    cases hpropose : afterPropose (others node) hasAccepted outcomes with
    | error err => simp [Call.result, hpropose, Except.map] at hresult
    | ok u =>
      simp only [Call.result, hpropose, Except.map, Option.some.injEq, Except.ok.injEq] at hresult
      obtain ⟨rfl, vs, hcollect, hlength⟩ := of_afterPropose hpropose
      rw [majority_others] at hlength
      obtain ⟨hreceived, -, hown⟩ := hfits
      obtain ⟨hv, hpromised⟩ := hown rfl
      have hall := all_received (P := fun _ => True) hover hcollect hlength (fun _ _ => trivial)
        fun a ha hfail a' ha' w hw _ => hheard node value v outcomes hcall a ha hfail a' ha' w hw
      refine ⟨node, value, v.id, hresult.symm, fun a ha => ⟨hpromised a ha, ?_⟩⟩
      obtain ⟨w, hw, -⟩ := hall a ha
      have haccepted := hreceived a _ hw
      obtain rfl : w = v := h.promises.honest _ _ _ _ haccepted
      obtain ⟨id, value'⟩ := w
      obtain rfl : value' = some value := hv
      exact haccepted

theorem answer (h : s.Invariant es) {node : NodeId} {result : Except String String}
    (hnode : (s.calls c).node? = some node) (hover : (s.calls c).Over)
    (hresult : (s.calls c).result = some result) (hheard : Heard s (.answer c result)) :
    (s.finish c node).Invariant (es ++ [.answer c result]) := by
  have hcalls (c' : ℕ) : (s.finish c node).calls c' = if c' = c then .answered else s.calls c' :=
    update_apply _ _ _ _
  have hlive : s.calls c ≠ .answered := by
    intro hc
    rw [hc] at hnode
    cases hnode
  have hold {c' : ℕ} {r : String} (hc : .answer c' (.ok r) ∈ es ++ [.answer c result]) :
      .answer c' (.ok r) ∈ es ∨ c' = c ∧ .ok r = result := by
    simpa using hc
  refine ⟨h.promises.snoc fun _ _ => nofun, h.requests,
    fun p hp => mem_append_left _ (h.replies p hp), fun c' => ?_, fun c' r hc => ?_,
    fun c' r r' hc hc' => ?_⟩
  · rw [hcalls]
    split_ifs
    · trivial
    · exact (h.calls c').append _
  · rcases hold hc with hmem | ⟨rfl, rfl⟩
    · obtain ⟨hdone, node', value, id, hr, hall⟩ := h.answers c' r hmem
      refine ⟨?_, node', value, id, hr, fun a ha => ?_⟩
      · rw [hcalls, hdone, ite_self]
      · exact ⟨mem_append_left _ (hall a ha).1, mem_append_left _ (hall a ha).2⟩
    · obtain ⟨node', value, id, hr, hall⟩ := h.of_result hover hresult hheard
      refine ⟨by rw [hcalls, if_pos rfl], node', value, id, hr, fun a ha => ?_⟩
      exact ⟨mem_append_left _ (hall a ha).1, mem_append_left _ (hall a ha).2⟩
  · rcases hold hc with hmem | ⟨rfl, hr⟩
    · rcases hold hc' with hmem' | ⟨rfl, -⟩
      · exact h.once c' r r' hmem hmem'
      · exact absurd (h.answers c' r hmem).1 hlive
    · rcases hold hc' with hmem' | ⟨-, hr'⟩
      · exact absurd (h.answers c' r' hmem').1 hlive
      · exact Except.ok.inj (hr.trans hr'.symm)

theorem mem_requests_send {node : NodeId} {message : Message} {request : Request}
    (h : request ∈ (s.send c node message).requests) :
    request ∈ s.requests ∨ request.message = message := by
  rcases List.mem_append.mp h with h | h
  · exact .inl h
  · obtain ⟨a, -, rfl⟩ := List.mem_map.mp h
    exact .inr rfl

/-- The call goes on with a proposal, of its own value only if both promises came without one. -/
theorem propose (h : s.Invariant es) {node : NodeId} {value : String} {id : UInt64}
    {outcomes : NodeId → Outcome} {hasAccepted : Bool} {v : Option String}
    (hcall : s.calls c = .preparing node value id outcomes) (hover : (s.calls c).Over)
    (hprepare : afterPrepare (others node) value outcomes = .ok (hasAccepted, v))
    (hheard : Heard s (.propose c)) :
    (s.propose c node value ⟨id, v⟩ hasAccepted).Invariant (es ++ [.propose c]) := by
  obtain ⟨promises, hcollect, hlength, hv, hown⟩ := of_afterPrepare hprepare
  have hfits := h.calls c
  rw [hcall] at hfits hover
  have hpromised (hnot : hasAccepted = false) : ∀ a ∈ others node, .promised c a id ∈ es := by
    rw [majority_others] at hlength
    have hall := all_received hover hcollect hlength (hown hnot).2
      (hheard node value id outcomes hcall)
    intro a ha
    obtain ⟨⟨id', value'⟩, hout, hnone⟩ := hall a ha
    have hmem := hfits a _ hout
    obtain rfl : id' = id := h.promises.honest _ _ _ _ hmem
    obtain rfl : value' = none := hnone
    exact hmem
  refine h.snoc (h.promises.snoc fun _ _ => nofun) (fun _ _ => nofun) (fun request hr => ?_)
    (fun p hp => mem_append_left _ (h.replies p hp)) fun c' => ?_
  · refine (mem_requests_send hr).imp_right fun hmessage w hw => ?_
    obtain rfl := Message.propose.inj (hmessage.symm.trans hw)
    exact hv
  · have hcalls : (s.propose c node value ⟨id, v⟩ hasAccepted).calls c' =
        if c' = c then .proposing node value ⟨id, v⟩ hasAccepted fun _ => .waiting
        else s.calls c' := update_apply _ _ _ _
    rw [hcalls]
    split_ifs with heq
    · subst heq
      refine .inr ⟨by simp [hcall], fun _ _ => nofun, hv, fun hnot => ⟨(hown hnot).1, ?_⟩⟩
      exact fun a ha => mem_append_left _ (hpromised hnot a ha)
    · exact .inl rfl

theorem settle (h : s.Invariant es) {request : Request} {outcome : Outcome}
    (hsettle : (s.calls request.call).settle request.target request.message outcome = some call)
    (hout : ∀ reply, outcome = .received reply → .handle request reply ∈ es)
    {replies : List (Request × Reply)} (hreplies : ∀ p ∈ replies, p ∈ s.replies)
    (he : ∀ request v, e ≠ .handle request (.value v)) (hanswer : ∀ c r, e ≠ .answer c (.ok r)) :
    Cluster.Invariant (es ++ [e]) { s.setCall request.call call with replies := replies } := by
  refine h.snoc (h.promises.snoc he) hanswer (fun _ => .inl)
    (fun p hp => mem_append_left _ (h.replies p (hreplies p hp))) fun c' => ?_
  have hcalls : (s.setCall request.call call).calls c' =
      if c' = request.call then call else s.calls c' := update_apply _ _ _ _
  rw [hcalls]
  split_ifs with heq
  · subst heq
    refine .inr ⟨fun hdone => ?_, ((h.calls _).settle hsettle hout).append _⟩
    rw [hdone] at hsettle
    cases hsettle
  · exact .inl rfl

/-- **One step.** Steps that meet the condition preserve the invariant. -/
theorem step (h : s.Invariant es) (hstep : Step s e s') (hheard : Heard s e) :
    s'.Invariant (es ++ [e]) := by
  cases e with
  | clientPropose c node value =>
    obtain ⟨hunused, -, rfl⟩ := hstep
    refine h.snoc (h.promises.snoc fun _ _ => nofun) (fun _ _ => nofun) (fun request hr => ?_)
      (fun p hp => mem_append_left _ (h.replies p hp)) fun c' => ?_
    · refine (mem_requests_send hr).imp_right fun hmessage w hw => ?_
      exact nomatch hmessage.symm.trans hw
    · have hcalls : (s.start c node value).calls c' =
          if c' = c then .preparing node value (s.proposerId node + 1) fun _ => .waiting
          else s.calls c' := update_apply _ _ _ _
      rw [hcalls]
      split_ifs with heq
      · exact .inr ⟨by simp [heq, hunused], fun _ _ => nofun⟩
      · exact .inl rfl
  | handle request reply =>
    obtain ⟨hmem, -, a, hhandle, rfl⟩ := hstep
    obtain ⟨c, target, message⟩ := request
    have hpromises := h.promises.handle (c := c) hhandle
      (fun id hid => by
        subst hid
        exact hheard)
      fun v hv => h.requests _ hmem v hv
    refine h.snoc hpromises (fun _ _ => nofun) (fun _ hr => .inl (mem_of_mem_erase hr))
      (fun p hp => ?_) fun _ => .inl rfl
    rcases List.mem_append.mp hp with hp | hp
    · exact mem_append_left _ (h.replies p hp)
    · obtain rfl := List.mem_singleton.mp hp
      exact mem_append_right _ (mem_singleton_self _)
  | receive request reply =>
    obtain ⟨hmem, call, hsettle, rfl⟩ := hstep
    exact h.settle hsettle (fun reply' hreply => Outcome.received.inj hreply ▸ h.replies _ hmem)
      (fun p hp => mem_of_mem_erase hp) (fun _ _ => nofun) fun _ _ => nofun
  | fail request =>
    obtain ⟨call, hsettle, rfl⟩ := hstep
    exact h.settle hsettle (fun _ => nofun) (fun _ => id) (fun _ _ => nofun) fun _ _ => nofun
  | propose c =>
    obtain ⟨node, value, id, outcomes, hasAccepted, v, hcall, hover, hprepare, rfl⟩ := hstep
    exact h.propose hcall hover hprepare hheard
  | answer c result =>
    obtain ⟨node, hnode, hover, hresult, rfl⟩ := hstep
    exact h.answer hnode hover hresult hheard

end Cluster.Invariant

/-- Two calls of which an acceptor in common has heard have the same answer. -/
theorem Cluster.Invariant.agreement (h : s.Invariant es) : Agreement es := by
  intro c c' r r' hr hr'
  obtain ⟨-, node, value, id, -, hall⟩ := h.answers c r hr
  obtain ⟨-, node', value', id', -, hall'⟩ := h.answers c' r' hr'
  obtain ⟨a, ha, ha'⟩ := exists_mem_others node node'
  obtain ⟨hpromised, haccepted⟩ := hall a ha
  obtain ⟨hpromised', haccepted'⟩ := hall' a ha'
  have hle : id ≤ id' := h.promises.ordered c c' a id _ hpromised haccepted'
  have hle' : id' ≤ id := h.promises.ordered c' c a id' _ hpromised' haccepted
  obtain rfl := UInt64.le_antisymm hle hle'
  obtain rfl := h.promises.owner c c' a id hpromised hpromised'
  exact h.once c r r' hr hr'

/-- **Agreement.** If no call uses the reply of one node beside a failed exchange, and no
acceptor promises a ballot twice before it has accepted a value, all calls that succeed give the
same answer. -/
theorem agreement_of_heard
    (run : Run (fun s e s' => Step s e s' ∧ Heard s e) Cluster.initial es s) : Agreement es := by
  refine Cluster.Invariant.agreement (s := s) ?_
  exact run.history .initial fun _ _ _ _ _ h hstep => h.step hstep.1 hstep.2

end Run

/-! ### Three runs -/

/-- The exchange of a message with a node: it is handled, and the reply received. -/
def exchange (c : ℕ) (target : NodeId) (message : Message) (reply : Reply) : List Event :=
  [.handle ⟨c, target, message⟩ reply, .receive ⟨c, target, message⟩ reply]

/-- A call of the first node that succeeds. -/
def agreedCall : List Event :=
  .clientPropose 0 0 "a" :: exchange 0 1 (.prepare 1) (.value ⟨1, none⟩) ++
    exchange 0 2 (.prepare 1) (.value ⟨1, none⟩) ++ .propose 0 ::
    exchange 0 1 (.propose ⟨1, some "a"⟩) (.value ⟨1, some "a"⟩) ++
    exchange 0 2 (.propose ⟨1, some "a"⟩) (.value ⟨1, some "a"⟩) ++ [.answer 0 (.ok "Accepted a")]

/-- Two nodes count their ballots from one; the second call is promised the ballot of the first
before that is accepted. -/
def equalBallots : List Event :=
  .clientPropose 0 0 "a" :: exchange 0 1 (.prepare 1) (.value ⟨1, none⟩) ++
    exchange 0 2 (.prepare 1) (.value ⟨1, none⟩) ++ .propose 0 ::
    exchange 0 1 (.propose ⟨1, some "a"⟩) (.value ⟨1, some "a"⟩) ++ .clientPropose 1 1 "b" ::
    exchange 1 2 (.prepare 1) (.value ⟨1, none⟩) ++
    exchange 0 2 (.propose ⟨1, some "a"⟩) (.value ⟨1, some "a"⟩) ++
    .answer 0 (.ok "Accepted a") :: exchange 1 0 (.prepare 1) (.value ⟨1, none⟩) ++ .propose 1 ::
    exchange 1 0 (.propose ⟨1, some "b"⟩) (.value ⟨1, some "b"⟩) ++
    exchange 1 2 (.propose ⟨1, some "b"⟩) (.value ⟨1, some "b"⟩) ++ [.answer 1 (.ok "Accepted b")]

/-- Two calls that hear of one node each. -/
def missingReplies : List Event :=
  .clientPropose 0 0 "a" :: exchange 0 1 (.prepare 1) (.value ⟨1, none⟩) ++
    .fail ⟨0, 2, .prepare 1⟩ :: .propose 0 ::
    exchange 0 1 (.propose ⟨1, some "a"⟩) (.value ⟨1, some "a"⟩) ++
    .fail ⟨0, 2, .propose ⟨1, some "a"⟩⟩ :: .answer 0 (.ok "Accepted a") ::
    .clientPropose 1 1 "b" :: exchange 1 0 (.prepare 1) (.value ⟨1, none⟩) ++
    .fail ⟨1, 2, .prepare 1⟩ :: .propose 1 ::
    exchange 1 0 (.propose ⟨1, some "b"⟩) (.value ⟨1, some "b"⟩) ++
    [.fail ⟨1, 2, .propose ⟨1, some "b"⟩⟩, .answer 1 (.ok "Accepted b")]

theorem heard_propose {s : Cluster} {c : ℕ} (h : ∀ a node value id outcomes,
    s.calls c = .preparing node value id outcomes → outcomes a ≠ .failed) :
    Heard s (.propose c) :=
  fun node value id outcomes hcall a _ hfail => absurd hfail (h a node value id outcomes hcall)

theorem heard_answer {s : Cluster} {c : ℕ} {result : Except String String}
    (h : ∀ a node value v hasAccepted outcomes,
      s.calls c = .proposing node value v hasAccepted outcomes → outcomes a ≠ .failed) :
    Heard s (.answer c result) :=
  fun node value v outcomes hcall a _ hfail =>
    absurd hfail (h a node value v false outcomes hcall)

/-- A call that succeeds, by steps that meet the condition. -/
theorem agreement_of_heard_call :
    (∃ s, Run (fun s e s' => Step s e s' ∧ Heard s e) Cluster.initial agreedCall s) ∧
      Agreement agreedCall := by
  have run : ∃ s, Run (fun s e s' => Step s e s' ∧ Heard s e) Cluster.initial agreedCall s :=
    ⟨_, .cons ⟨⟨rfl, rfl, rfl⟩, trivial⟩ <|
      .cons ⟨⟨by decide, rfl, _, rfl, rfl⟩, fun _ => by decide⟩ <|
      .cons ⟨⟨by decide, _, rfl, rfl⟩, trivial⟩ <|
      .cons ⟨⟨by decide, rfl, _, rfl, rfl⟩, fun _ => by decide⟩ <|
      .cons ⟨⟨by decide, _, rfl, rfl⟩, trivial⟩ <|
      .cons ⟨⟨_, _, _, _, _, _, rfl, by decide, rfl, rfl⟩,
        heard_propose fun a => by rintro _ _ _ _ ⟨⟩; revert a; decide⟩ <|
      .cons ⟨⟨by decide, rfl, _, rfl, rfl⟩, trivial⟩ <|
      .cons ⟨⟨by decide, _, rfl, rfl⟩, trivial⟩ <|
      .cons ⟨⟨by decide, rfl, _, rfl, rfl⟩, trivial⟩ <|
      .cons ⟨⟨by decide, _, rfl, rfl⟩, trivial⟩ <|
      .cons ⟨⟨_, rfl, by decide, rfl, rfl⟩, heard_answer fun a => by
        rintro _ _ _ _ _ ⟨⟩; revert a; decide⟩ .nil⟩
  obtain ⟨s, run⟩ := run
  exact ⟨⟨s, run⟩, agreement_of_heard run⟩

/-- **Equal ballots.** A node accepts the value of the first call after it has promised the same
ballot to the second one, and then accepts that value as well. -/
theorem equal_ballots_disagree :
    (∃ s, Run Step Cluster.initial equalBallots s) ∧ ¬Agreement equalBallots := by
  refine ⟨⟨_, .cons ⟨rfl, rfl, rfl⟩ <| .cons ⟨by decide, rfl, _, rfl, rfl⟩ <|
    .cons ⟨by decide, _, rfl, rfl⟩ <| .cons ⟨by decide, rfl, _, rfl, rfl⟩ <|
    .cons ⟨by decide, _, rfl, rfl⟩ <| .cons ⟨_, _, _, _, _, _, rfl, by decide, rfl, rfl⟩ <|
    .cons ⟨by decide, rfl, _, rfl, rfl⟩ <| .cons ⟨by decide, _, rfl, rfl⟩ <|
    .cons ⟨rfl, rfl, rfl⟩ <| .cons ⟨by decide, rfl, _, rfl, rfl⟩ <|
    .cons ⟨by decide, _, rfl, rfl⟩ <| .cons ⟨by decide, rfl, _, rfl, rfl⟩ <|
    .cons ⟨by decide, _, rfl, rfl⟩ <| .cons ⟨_, rfl, by decide, rfl, rfl⟩ <|
    .cons ⟨by decide, rfl, _, rfl, rfl⟩ <| .cons ⟨by decide, _, rfl, rfl⟩ <|
    .cons ⟨_, _, _, _, _, _, rfl, by decide, rfl, rfl⟩ <|
    .cons ⟨by decide, rfl, _, rfl, rfl⟩ <| .cons ⟨by decide, _, rfl, rfl⟩ <|
    .cons ⟨by decide, rfl, _, rfl, rfl⟩ <| .cons ⟨by decide, _, rfl, rfl⟩ <|
    .cons ⟨_, rfl, by decide, rfl, rfl⟩ .nil⟩, fun h => ?_⟩
  have hsame := h 0 1 "Accepted a" "Accepted b" (by simp [equalBallots]) (by simp [equalBallots])
  exact absurd hsame (by decide)

/-- **Missing replies.** Each call is answered by one node; that of the second is the proposer of
the first, whose acceptor has accepted nothing. -/
theorem missing_reply_disagrees :
    (∃ s, Run Step Cluster.initial missingReplies s) ∧ ¬Agreement missingReplies := by
  refine ⟨⟨_, .cons ⟨rfl, rfl, rfl⟩ <| .cons ⟨by decide, rfl, _, rfl, rfl⟩ <|
    .cons ⟨by decide, _, rfl, rfl⟩ <| .cons ⟨_, rfl, rfl⟩ <|
    .cons ⟨_, _, _, _, _, _, rfl, by decide, rfl, rfl⟩ <|
    .cons ⟨by decide, rfl, _, rfl, rfl⟩ <| .cons ⟨by decide, _, rfl, rfl⟩ <|
    .cons ⟨_, rfl, rfl⟩ <| .cons ⟨_, rfl, by decide, rfl, rfl⟩ <|
    .cons ⟨rfl, rfl, rfl⟩ <| .cons ⟨by decide, rfl, _, rfl, rfl⟩ <|
    .cons ⟨by decide, _, rfl, rfl⟩ <| .cons ⟨_, rfl, rfl⟩ <|
    .cons ⟨_, _, _, _, _, _, rfl, by decide, rfl, rfl⟩ <|
    .cons ⟨by decide, rfl, _, rfl, rfl⟩ <| .cons ⟨by decide, _, rfl, rfl⟩ <|
    .cons ⟨_, rfl, rfl⟩ <| .cons ⟨_, rfl, by decide, rfl, rfl⟩ .nil⟩, fun h => ?_⟩
  have hsame := h 0 1 "Accepted a" "Accepted b" (by simp [missingReplies])
    (by simp [missingReplies])
  exact absurd hsame (by decide)

end RustExample.Paxos
