import RustExample.Foundation.Run
import RustExample.GameSync.Map

/-!
# Players who reconnect

Entries, reports of failed connections and the ends of grace periods come to a map through one
mailbox, each with the id of its player only. Failures are reported by the tasks that push events
and by the monitor of the connections; any time may pass between a failure and its report.

Source: `kameo_workspace_example/kameo_game_sync/src/map.rs`.

* A connection of a player is an `EnterPlayer` that was sent; the first one is number 1.
* An abort stops a grace period that sleeps; one that has woken sends its message.
* `connection` and `entries` are a record of the run beside the program: the connection that a task
  or a message is about, and the number of times that a player has entered.
-/

namespace RustExample.GameSync

open List

/-! ### Messages and tasks -/

namespace MapMessage

/-- The message by which a player enters. -/
def enters (p : PlayerId) : MapMessage → Bool
  | .enterPlayer msg => msg.profile.id = p
  | _ => false

/-- The messages that may take a player down. -/
def ends (p : PlayerId) : MapMessage → Bool
  | .playerDisconnected q | .removePlayer q => q = p
  | _ => false

/-- The messages from outside of the map and its tasks. -/
def fromOutside : MapMessage → Bool
  | .playerDisconnected _ | .removePlayer _ => false
  | _ => true

end MapMessage

/-- A message in the mailbox, and the connection that it is about. -/
structure Envelope where
  message : MapMessage
  connection : ℕ
  deriving DecidableEq

/-- A task around the map, and the connection that it is about. -/
inductive Task where
  | push (playerId : PlayerId) (playerName : String) (event : MapEvent)
  /-- A push that found its player and waits for the answer. -/
  | ask (playerId : PlayerId) (event : MapEvent) (connection : ℕ)
  /-- A failure of which the map is to be told. -/
  | report (playerId : PlayerId) (connection : ℕ)
  | sleep (playerId : PlayerId) (handle : ℕ) (connection : ℕ)
  /-- A grace period that is over, of which the map is to be told. -/
  | remove (playerId : PlayerId) (connection : ℕ)
  deriving DecidableEq

/-- How a task goes on. -/
inductive Outcome where
  /-- The registry has the player, who uses this connection. -/
  | found (connection : ℕ)
  /-- The registry has no such player since this connection ended. -/
  | missing (connection : ℕ)
  | answered
  | failed
  | elapsed
  | told
  deriving DecidableEq

/-- What a task tells the map, and what follows it; `sent` counts a player's connections. -/
def Task.advance (sent : PlayerId → ℕ) : Task → Outcome → Option (List Task × List Envelope)
  | .push p _ event, .found c => if c ≤ sent p then some ([.ask p event c], []) else none
  | .push p _ _, .missing c => if c ≤ sent p then some ([.report p c], []) else none
  | .push _ _ _, .failed => some ([], [])
  | .ask _ _ _, .answered => some ([], [])
  | .ask p _ c, .failed => some ([.report p c], [])
  | .report p c, .told => some ([], [⟨.playerDisconnected p, c⟩])
  | .sleep p _ c, .elapsed => some ([.remove p c], [])
  | .remove p c, .told => some ([], [⟨.removePlayer p, c⟩])
  | _, _ => none

/-- The tasks that an abort leaves. -/
def Task.survives (aborted : Option ℕ) : Task → Bool
  | .sleep _ handle _ => aborted ≠ some handle
  | _ => true

/-! ### The system -/

/-- The map, its mailbox and its tasks. -/
structure World where
  map : MapActor
  mailbox : List Envelope
  tasks : List Task
  /-- The handle of the next task. -/
  nextHandle : ℕ
  entries : PlayerId → ℕ

/-- What may happen. -/
inductive Event where
  | send (msg : MapMessage)
  /-- The monitor sees a connection of a player fail. -/
  | connectionFailed (p : PlayerId) (connection : ℕ)
  | advance (i : ℕ) (outcome : Outcome)
  /-- The map takes the next message. -/
  | process

namespace World

/-- Nobody has entered. -/
def init (config : MapConfig) : World := ⟨.new config, [], [], 0, fun _ => 0⟩

/-- The entries of a player in the mailbox. -/
def waiting (w : World) (p : PlayerId) : ℕ := w.mailbox.countP (·.message.enters p)

/-- The connections that a player has had. -/
def sent (w : World) (p : PlayerId) : ℕ := w.entries p + w.waiting p

/-- The task of a handler. -/
def begin (w : World) : Spawn → Task
  | .push p name event => .push p name event
  | .grace p handle => .sleep p handle (w.entries p)

/-- The map handles a message. -/
def deliver (w : World) (msg : MapMessage) (rest : List Envelope) : World :=
  let handled := w.map.handle w.nextHandle msg
  { map := handled.map
    mailbox := rest
    tasks := w.tasks.filter (·.survives handled.aborted) ++ handled.spawned.map w.begin
    nextHandle := w.nextHandle + 1
    entries := fun p => if msg.enters p then w.entries p + 1 else w.entries p }

/-- What an event does, if it may happen. -/
def step (w : World) : Event → Option World
  | .send msg =>
    if msg.fromOutside then some { w with mailbox := w.mailbox ++ [⟨msg, 0⟩] } else none
  | .connectionFailed p connection =>
    if connection ≤ w.sent p then some { w with tasks := w.tasks ++ [.report p connection] }
    else none
  | .advance i outcome =>
    match w.tasks[i]? with
    | none => none
    | some task =>
      (task.advance w.sent outcome).map fun next =>
        { w with tasks := w.tasks.eraseIdx i ++ next.1, mailbox := w.mailbox ++ next.2 }
  | .process =>
    match w.mailbox with
    | [] => none
    | env :: rest => some (w.deliver env.message rest)

/-- One event. -/
def Step (w : World) (e : Event) (w' : World) : Prop := w.step e = some w'

/-! ### Late and timely messages -/

/-- A step that removes a player, or takes one offline who was online. -/
def TakesDown (w w' : World) (p : PlayerId) : Prop :=
  (w.map.status p ≠ none ∧ w'.map.status p = none) ∨
    (w.map.status p = some .online ∧ w'.map.status p ≠ some .online)

/-- The steps after which no message about a player comes behind the next entry of the player. -/
def Timely (w : World) : Event → Prop
  | .advance i .told => match w.tasks[i]? with
    | some (.report p connection) => w.sent p ≤ connection
    | some (.remove p _) => w.waiting p = 0
    | _ => True
  | .process => match w.mailbox with
    | ⟨.enterPlayer msg, _⟩ :: _ => ∀ connection, .remove msg.profile.id connection ∉ w.tasks
    | _ => True
  | _ => True

end World

/-! ### Messages that are not behind an entry -/

variable {p : PlayerId} {n : ℕ} {l : List Envelope} {env : Envelope}

/-- After `n` entries, no message is about a connection before the last entry ahead of it. -/
def Current (p : PlayerId) : ℕ → List Envelope → Prop
  | _, [] => True
  | n, env :: rest => (env.message.ends p → n ≤ env.connection) ∧
      Current p (if env.message.enters p then n + 1 else n) rest

theorem Current.snoc (h : Current p n l)
    (henv : env.message.ends p → n + l.countP (·.message.enters p) ≤ env.connection) :
    Current p n (l ++ [env]) := by
  induction l generalizing n with
  | nil => exact ⟨by simpa using henv, trivial⟩
  | cons c l ih =>
    refine ⟨h.1, ih h.2 fun hends => ?_⟩
    have := henv hends
    rw [countP_cons] at this
    split_ifs at this ⊢ <;> omega

theorem Current.le (h : Current p n l) (henv : env ∈ l) (hends : env.message.ends p) :
    n ≤ env.connection := by
  induction l generalizing n with
  | nil => simp at henv
  | cons c l ih =>
    rcases List.mem_cons.mp henv with rfl | henv
    · exact h.1 hends
    · have := ih h.2 henv
      split_ifs at this <;> omega

/-! ### Grace periods -/

/-- The connection after which a grace period of the player runs. -/
def Task.grace? (p : PlayerId) : Task → Option ℕ
  | .sleep q _ c | .remove q c => if q = p then some c else none
  | _ => none

/-- The connection after which a grace period of the player has ended. -/
def Envelope.grace? (p : PlayerId) : Envelope → Option ℕ
  | ⟨.removePlayer q, c⟩ => if q = p then some c else none
  | _ => none

/-- The grace periods of a player that have yet to take effect. -/
def World.graces (w : World) (p : PlayerId) : List ℕ :=
  w.tasks.filterMap (·.grace? p) ++ w.mailbox.filterMap (·.grace? p)

theorem Task.grace?_advance {sent : PlayerId → ℕ} {t : Task} {outcome : Outcome}
    {next : List Task × List Envelope} (h : t.advance sent outcome = some next) (p : PlayerId) :
    next.1.filterMap (·.grace? p) ++ next.2.filterMap (·.grace? p) = (t.grace? p).toList := by
  cases t <;> cases outcome <;> simp only [Task.advance, reduceCtorEq] at h
  case push.found | push.missing =>
    split_ifs at h
    obtain ⟨⟩ := h
    rfl
  case sleep.elapsed q _ c | remove.told q c =>
    obtain ⟨⟩ := h
    by_cases hq : q = p <;> simp [Task.grace?, Envelope.grace?, hq]
  all_goals
    obtain ⟨⟩ := h
    rfl

theorem Envelope.grace?_eq_none {p : PlayerId} {env : Envelope} (h : ¬env.message.ends p) :
    env.grace? p = none := by
  obtain ⟨msg, c⟩ := env
  cases msg with
  | removePlayer q => exact if_neg fun hq => h (by simp [MapMessage.ends, hq])
  | _ => rfl

theorem Envelope.grace?_eq_some {p : PlayerId} {env : Envelope} {c : ℕ} :
    env.grace? p = some c ↔ env = ⟨.removePlayer p, c⟩ := by
  obtain ⟨msg, c'⟩ := env
  cases msg <;> simp [Envelope.grace?]

theorem Task.grace?_eq_some {p : PlayerId} {t : Task} {c : ℕ} :
    t.grace? p = some c ↔ (∃ handle, t = .sleep p handle c) ∨ t = .remove p c := by
  cases t <;> simp [Task.grace?, and_comm]

/-! ### The invariant -/

/-- There is one grace period at most; its player is offline, and knows its handle while it runs. -/
structure Settled (w : World) (p : PlayerId) : Prop where
  single : (w.graces p).length ≤ 1
  graced : ∀ c ∈ w.graces p, c = w.entries p ∧ ∃ handle, w.map.status p = some (.offline handle)
  handle_eq : ∀ handle c, .sleep p handle c ∈ w.tasks →
    w.map.status p = some (.offline handle)
  current : Current p (w.entries p) w.mailbox

/-- What follows a task: no sleep, and a message of a report or of a grace period that is over. -/
theorem Task.advance_cases {sent : PlayerId → ℕ} {t : Task} {outcome : Outcome}
    {next : List Task × List Envelope} (h : t.advance sent outcome = some next) :
    (∀ q handle c, .sleep q handle c ∉ next.1) ∧
      (next.2 = [] ∨ outcome = .told ∧
        ((∃ q c, t = .report q c ∧ next.2 = [⟨.playerDisconnected q, c⟩]) ∨
          ∃ q c, t = .remove q c ∧ next.2 = [⟨.removePlayer q, c⟩])) := by
  cases t <;> cases outcome <;> simp only [Task.advance, reduceCtorEq] at h
  case push.found | push.missing =>
    split_ifs at h
    obtain ⟨⟩ := h
    simp
  all_goals
    obtain ⟨⟩ := h
    simp

variable {w : World} {rest : List Envelope}

namespace Settled

theorem advance (h : Settled w p) {i : ℕ} {outcome : Outcome} {t : Task}
    {next : List Task × List Envelope} (ht : w.Timely (.advance i outcome))
    (hi : w.tasks[i]? = some t) (hnext : t.advance w.sent outcome = some next) :
    Settled { w with tasks := w.tasks.eraseIdx i ++ next.1, mailbox := w.mailbox ++ next.2 } p := by
  obtain ⟨hlt, rfl⟩ := List.getElem?_eq_some_iff.mp hi
  have hperm : List.Perm (({ w with
      tasks := w.tasks.eraseIdx i ++ next.1, mailbox := w.mailbox ++ next.2 } : World).graces p)
      (w.graces p) := by
    refine List.perm_iff_count.mpr fun c => ?_
    have htasks := ((getElem_cons_eraseIdx_perm hlt).filterMap (·.grace? p)).count_eq c
    have hgrace := congrArg (List.count c) (Task.grace?_advance hnext p)
    rw [← singleton_append, filterMap_append] at htasks
    simp only [World.graces, filterMap_append, count_append, filterMap_cons,
      filterMap_nil] at htasks hgrace ⊢
    cases hg : Task.grace? p w.tasks[i] <;> simp only [hg, Option.toList] at htasks hgrace <;> omega
  obtain ⟨hsleep, htold⟩ := Task.advance_cases hnext
  refine ⟨hperm.length_eq ▸ h.single, fun c hc => h.graced c (hperm.subset hc), ?_, ?_⟩
  · intro handle c hc
    rcases List.mem_append.mp hc with hc | hc
    · exact h.handle_eq handle c (mem_of_mem_eraseIdx hc)
    · exact absurd hc (hsleep p handle c)
  · rcases htold with htold | ⟨rfl, ⟨q, c, hq, htold⟩ | ⟨q, c, hq, htold⟩⟩
    · simpa [htold] using h.current
    · simp only [World.Timely, hi, hq] at ht
      rw [htold]
      refine h.current.snoc fun hends => ?_
      obtain rfl : q = p := by simpa [MapMessage.ends] using hends
      exact ht
    · simp only [World.Timely, hi, hq] at ht
      rw [htold]
      refine h.current.snoc fun hends => ?_
      obtain rfl : q = p := by simpa [MapMessage.ends] using hends
      have hc : c ∈ w.graces q := mem_append_left _ (List.mem_filterMap.mpr
        ⟨_, getElem_mem hlt, by rw [hq]; simp [Task.grace?]⟩)
      rw [(h.graced c hc).1]
      exact Nat.le_of_eq (congrArg (w.entries q + ·) ht)

end Settled

/-- A message uses up its own grace period, and begins no other unless a task does. -/
theorem graces_deliver (hm : w.mailbox = env :: rest)
    (hspawn : ∀ handle, .grace p handle ∉ (w.map.handle w.nextHandle env.message).spawned) :
    ((w.deliver env.message rest).graces p ++ (env.grace? p).toList).Subperm (w.graces p) := by
  have hnew : ((w.map.handle w.nextHandle env.message).spawned.map w.begin).filterMap
      (·.grace? p) = [] := by
    refine List.filterMap_eq_nil_iff.mpr fun t ht => ?_
    obtain ⟨s, hs, rfl⟩ := List.mem_map.mp ht
    cases s with
    | push _ _ _ => rfl
    | grace q handle =>
      have hq : q ≠ p := fun hq => hspawn handle (hq ▸ hs)
      simp [World.begin, Task.grace?, hq]
  have htasks : ((w.deliver env.message rest).tasks.filterMap (·.grace? p)).Sublist
      (w.tasks.filterMap (·.grace? p)) := by
    simp only [World.deliver, filterMap_append, hnew, append_nil]
    exact List.filter_sublist.filterMap _
  have hmail : w.mailbox.filterMap (·.grace? p) =
      (env.grace? p).toList ++ rest.filterMap (·.grace? p) := by
    rw [hm, filterMap_cons]
    cases env.grace? p <;> rfl
  rw [World.graces, World.graces, hmail, append_assoc]
  exact htasks.subperm.append List.perm_append_comm.subperm

namespace Settled

/-- A message that changes nothing for a player. -/
theorem deliver_of_status (h : Settled w p) (hm : w.mailbox = env :: rest)
    (hstatus : (w.map.handle w.nextHandle env.message).map.status p = w.map.status p)
    (henters : ¬env.message.enters p)
    (hspawn : ∀ handle, .grace p handle ∉ (w.map.handle w.nextHandle env.message).spawned) :
    Settled (w.deliver env.message rest) p := by
  have hentries : (w.deliver env.message rest).entries p = w.entries p := if_neg henters
  have hsub : ((w.deliver env.message rest).graces p).Subperm (w.graces p) :=
    (sublist_append_left _ _).subperm.trans (graces_deliver hm hspawn)
  refine ⟨hsub.length_le.trans h.single, fun c hc => ?_, fun handle c hc => ?_, ?_⟩
  · rw [hentries]
    exact hstatus ▸ h.graced c (hsub.subset hc)
  · refine hstatus.trans ?_
    rcases List.mem_append.mp hc with hc | hc
    · exact h.handle_eq handle c (mem_of_mem_filter hc)
    · obtain ⟨s, hs, hbegin⟩ := List.mem_map.mp hc
      cases s with
      | push _ _ _ => simp [World.begin] at hbegin
      | grace q handle =>
        obtain ⟨rfl, -⟩ := by simpa [World.begin] using hbegin
        exact absurd hs (hspawn handle)
  · rw [hentries]
    have hcur := h.current
    rw [hm, Current, if_neg henters] at hcur
    exact hcur.2

variable {c₀ : ℕ}

/-- An entry ends every grace period of the player. -/
theorem deliver_enterPlayer (h : Settled w p) {msg : EnterPlayer}
    (hm : w.mailbox = ⟨.enterPlayer msg, c₀⟩ :: rest) (hp : msg.profile.id = p)
    (ht : ∀ c, .remove p c ∉ w.tasks) : Settled (w.deliver (.enterPlayer msg) rest) p := by
  have henters : (MapMessage.enterPlayer msg).enters p := by simp [MapMessage.enters, hp]
  have hpush : ∀ s ∈ (w.map.enterPlayer msg).spawned, ∃ q name event, s = .push q name event :=
    fun _ => MapActor.spawned_enterPlayer
  have hspawn : ∀ handle, Spawn.grace p handle ∉ (w.map.enterPlayer msg).spawned := by
    intro handle hs
    obtain ⟨q, name, event, hs⟩ := hpush _ hs
    simp at hs
  have hsub := (sublist_append_left _ _).subperm.trans (graces_deliver (p := p) hm hspawn)
  have hcur := h.current
  rw [hm, Current, if_pos henters] at hcur
  have hsleep : ∀ handle c, .sleep p handle c ∉ (w.deliver (.enterPlayer msg) rest).tasks := by
    intro handle c hc
    rcases List.mem_append.mp hc with hc | hc
    · obtain ⟨hc, hsurvives⟩ := List.mem_filter.mp hc
      have haborted := (MapActor.aborted_enterPlayer msg).mpr (hp ▸ h.handle_eq handle c hc)
      simp [Task.survives, MapActor.handle, haborted] at hsurvives
    · obtain ⟨s, hs, hbegin⟩ := List.mem_map.mp hc
      obtain ⟨q, name, event, rfl⟩ := hpush s hs
      simp [World.begin] at hbegin
  have hnil : (w.deliver (.enterPlayer msg) rest).graces p = [] := by
    refine List.eq_nil_iff_forall_not_mem.mpr fun c hc => ?_
    obtain ⟨rfl, -⟩ := h.graced c (hsub.subset hc)
    rcases List.mem_append.mp hc with hc | hc
    · obtain ⟨t, htasks, hgrace⟩ := List.mem_filterMap.mp hc
      rcases Task.grace?_eq_some.mp hgrace with ⟨handle, rfl⟩ | rfl
      · exact hsleep _ _ htasks
      · rcases List.mem_append.mp htasks with htasks | htasks
        · exact ht _ (mem_of_mem_filter htasks)
        · obtain ⟨s, hs, hbegin⟩ := List.mem_map.mp htasks
          cases s <;> simp [World.begin] at hbegin
    · -- A removal behind this entry would be about a later connection.
      obtain ⟨env, hrest, hgrace⟩ := List.mem_filterMap.mp hc
      obtain rfl := Envelope.grace?_eq_some.mp hgrace
      have hlt := hcur.2.le hrest (by simp [MapMessage.ends])
      exact absurd hlt (Nat.not_succ_le_self _)
  refine ⟨by simp [hnil], by simp [hnil], fun handle c hc => absurd hc (hsleep handle c), ?_⟩
  have hentries : (w.deliver (.enterPlayer msg) rest).entries p = w.entries p + 1 := if_pos henters
  rw [hentries]
  exact hcur.2

/-- A player who goes offline has one grace period. -/
theorem deliver_playerDisconnected (h : Settled w p)
    (hm : w.mailbox = ⟨.playerDisconnected p, c₀⟩ :: rest) (hp : w.map.status p = some .online) :
    Settled (w.deliver (.playerDisconnected p) rest) p := by
  have hnil : w.graces p = [] := by
    refine List.eq_nil_iff_forall_not_mem.mpr fun c hc => ?_
    obtain ⟨-, handle, hoff⟩ := h.graced c hc
    simp [hp] at hoff
  have hstatus : (w.deliver (.playerDisconnected p) rest).map.status p =
      some (.offline w.nextHandle) := by
    simp [World.deliver, MapActor.handle, hp]
  have htasks : (w.deliver (.playerDisconnected p) rest).tasks =
      w.tasks ++ [Task.sleep p w.nextHandle (w.entries p)] := by
    have hall : w.tasks.filter (·.survives none) = w.tasks :=
      List.filter_eq_self.mpr fun t _ => by cases t <;> simp [Task.survives]
    simp [World.deliver, MapActor.handle, MapActor.spawned_playerDisconnected, hp, hall,
      World.begin]
  obtain ⟨hsleeping, hmail⟩ := List.append_eq_nil_iff.mp hnil
  replace hmail : rest.filterMap (·.grace? p) = [] := by simpa [hm, Envelope.grace?] using hmail
  have hgraces : (w.deliver (.playerDisconnected p) rest).graces p = [w.entries p] := by
    rw [World.graces, htasks, filterMap_append, hsleeping]
    simp [World.deliver, Task.grace?, hmail]
  refine ⟨by simp [hgraces], fun c hc => ?_, fun handle c hc => ?_, ?_⟩
  · rw [hgraces, mem_singleton] at hc
    exact ⟨hc, _, hstatus⟩
  · rw [htasks, mem_append, mem_singleton] at hc
    rcases hc with hc | hc
    · have hoff := h.handle_eq handle c hc
      simp [hp] at hoff
    · obtain ⟨rfl, -⟩ := by simpa using hc
      exact hstatus
  · have hcur := h.current
    rw [hm] at hcur
    exact hcur.2

/-- A removal was the only grace period of the player. -/
theorem deliver_removePlayer (h : Settled w p) (hm : w.mailbox = ⟨.removePlayer p, c₀⟩ :: rest) :
    Settled (w.deliver (.removePlayer p) rest) p := by
  have hspawn : ∀ handle, Spawn.grace p handle ∉ (w.map.removePlayer p).spawned := by
    intro handle hs
    obtain ⟨q, name, event, hs⟩ := MapActor.spawned_removePlayer hs
    simp at hs
  have hnil : (w.deliver (.removePlayer p) rest).graces p = [] := by
    have hle := (graces_deliver (p := p) hm hspawn).length_le.trans h.single
    simpa [Envelope.grace?] using hle
  refine ⟨by simp [hnil], by simp [hnil], fun handle c hc => ?_, ?_⟩
  · have hgrace : c ∈ (w.deliver (.removePlayer p) rest).graces p :=
      mem_append_left _ (List.mem_filterMap.mpr ⟨_, hc, by simp [Task.grace?]⟩)
    simp [hnil] at hgrace
  · have hcur := h.current
    rw [hm] at hcur
    exact hcur.2

end Settled

/-! ### Steps and runs -/

variable {e : Event} {w' : World}

theorem Settled.deliver (h : Settled w p) (hm : w.mailbox = env :: rest)
    (ht : w.Timely .process) : Settled (w.deliver env.message rest) p := by
  by_cases hquiet : env.message.Quiet
  · obtain ⟨hstatus, -, hpush⟩ := w.map.quiet_handle w.nextHandle hquiet
    refine h.deliver_of_status hm (congrFun hstatus p) ?_ fun handle hs => ?_
    · cases hmsg : env.message <;> simp_all [MapMessage.Quiet, MapMessage.enters]
    · obtain ⟨q, name, event, hs⟩ := hpush _ hs
      simp at hs
  obtain ⟨msg, c₀⟩ := env
  cases msg with
  | enterPlayer msg =>
    by_cases hp : msg.profile.id = p
    · subst hp
      refine h.deliver_enterPlayer hm rfl ?_
      simpa only [World.Timely, hm] using ht
    · refine h.deliver_of_status hm (by simp [MapActor.handle, hp])
        (by simp [MapMessage.enters, hp]) fun handle hs => ?_
      obtain ⟨q, name, event, hs⟩ := MapActor.spawned_enterPlayer hs
      simp at hs
  | playerDisconnected q =>
    by_cases hp : q = p ∧ w.map.status p = some .online
    · obtain ⟨rfl, hp⟩ := hp
      exact h.deliver_playerDisconnected hm hp
    · refine h.deliver_of_status hm ?_ (by simp [MapMessage.enters]) fun handle hs => hp ?_
      · simp only [MapActor.handle, MapActor.status_playerDisconnected]
        refine if_neg ?_
        rintro ⟨rfl, honline⟩
        exact hp ⟨rfl, honline⟩
      · simp only [MapActor.handle, MapActor.spawned_playerDisconnected] at hs
        split_ifs at hs with honline
        · obtain ⟨rfl, -⟩ := by simpa using hs
          exact ⟨rfl, honline⟩
        · simp at hs
  | removePlayer q =>
    by_cases hp : q = p
    · subst hp
      exact h.deliver_removePlayer hm
    · refine h.deliver_of_status hm (by simp [MapActor.handle, hp]) (by simp [MapMessage.enters])
        fun handle hs => ?_
      obtain ⟨q, name, event, hs⟩ := MapActor.spawned_removePlayer hs
      simp at hs
  | givePlayerBuff _ _ | hitPlayer _ _ _ | getAllPlayers | getMapPlayer _ =>
    exact absurd trivial hquiet

theorem Settled.step (h : Settled w p) (ht : w.Timely e) (hstep : World.Step w e w') :
    Settled w' p := by
  cases e with
  | send msg =>
    simp only [World.Step, World.step] at hstep
    split_ifs at hstep with hmsg
    obtain ⟨⟩ := hstep
    have hends : ¬msg.ends p := by cases msg <;> simp_all [MapMessage.fromOutside, MapMessage.ends]
    have hgraces : World.graces { w with mailbox := w.mailbox ++ [⟨msg, 0⟩] } p = w.graces p := by
      have hgrace : Envelope.grace? p ⟨msg, 0⟩ = none := Envelope.grace?_eq_none hends
      simp [World.graces, hgrace]
    exact ⟨hgraces ▸ h.single, hgraces ▸ h.graced, h.handle_eq,
      h.current.snoc fun hp => absurd hp hends⟩
  | connectionFailed q c =>
    simp only [World.Step, World.step] at hstep
    split_ifs at hstep
    obtain ⟨⟩ := hstep
    have hgraces : World.graces { w with tasks := w.tasks ++ [.report q c] } p = w.graces p := by
      simp [World.graces, Task.grace?]
    refine ⟨hgraces ▸ h.single, hgraces ▸ h.graced, fun handle c' hc => ?_, h.current⟩
    exact h.handle_eq handle c' (by simpa using hc)
  | advance i outcome =>
    simp only [World.Step, World.step] at hstep
    cases hi : w.tasks[i]? with
    | none => simp [hi] at hstep
    | some t =>
      rw [hi] at hstep
      obtain ⟨next, hnext, rfl⟩ := Option.map_eq_some_iff.mp hstep
      exact h.advance ht hi hnext
  | process =>
    simp only [World.Step, World.step] at hstep
    cases hm : w.mailbox with
    | nil => simp [hm] at hstep
    | cons env rest =>
      rw [hm] at hstep
      obtain ⟨⟩ := hstep
      exact h.deliver hm ht

theorem Settled.init (config : MapConfig) (p : PlayerId) : Settled (.init config) p :=
  ⟨by simp [World.graces, World.init], by simp [World.graces, World.init], by simp [World.init],
    trivial⟩

theorem settled_of_run {config : MapConfig} {es : List Event}
    (run : Run (fun w e w' => World.Step w e w' ∧ w.Timely e) (.init config) es w)
    (p : PlayerId) : Settled w p :=
  run.invariant (P := (Settled · p)) (.init config p) fun _ _ _ h hstep => h.step hstep.2 hstep.1

/-- Only a report or a removal takes a player down. -/
theorem status_deliver (w : World) (rest : List Envelope) {msg : MapMessage}
    (hends : ¬msg.ends p) :
    (w.deliver msg rest).map.status p = w.map.status p ∨
      (w.deliver msg rest).map.status p = some .online := by
  by_cases hquiet : msg.Quiet
  · exact .inl (congrFun (w.map.quiet_handle w.nextHandle hquiet).1 p)
  cases msg with
  | enterPlayer msg =>
    by_cases hp : msg.profile.id = p
    · exact .inr (by simp [World.deliver, MapActor.handle, hp])
    · exact .inl (by simp [World.deliver, MapActor.handle, hp])
  | playerDisconnected q =>
    have hq : q ≠ p := by simpa [MapMessage.ends] using hends
    exact .inl (by simp [World.deliver, MapActor.handle, hq])
  | removePlayer q =>
    have hq : q ≠ p := by simpa [MapMessage.ends] using hends
    exact .inl (by simp [World.deliver, MapActor.handle, hq])
  | givePlayerBuff _ _ | hitPlayer _ _ _ | getAllPlayers | getMapPlayer _ =>
    exact absurd trivial hquiet

theorem ends_of_takesDown (hstep : World.Step w e w') (hp : w.TakesDown w' p) :
    ∃ env rest, w.mailbox = env :: rest ∧ e = .process ∧ env.message.ends p := by
  have hmap : w'.map ≠ w.map := by
    rintro hmap
    rcases hp with ⟨hin, hout⟩ | ⟨hon, hoff⟩
    · exact hin (hmap ▸ hout)
    · exact hoff (hmap ▸ hon)
  cases e with
  | process =>
    simp only [World.Step, World.step] at hstep
    cases hm : w.mailbox with
    | nil => simp [hm] at hstep
    | cons env rest =>
      rw [hm] at hstep
      obtain ⟨⟩ := hstep
      refine ⟨env, rest, rfl, rfl, ?_⟩
      by_contra hends
      rcases status_deliver w rest hends with hs | hs
      · rcases hp with ⟨hin, hout⟩ | ⟨hon, hoff⟩
        · exact hin (hs ▸ hout)
        · exact hoff (hs.trans hon)
      · rcases hp with ⟨-, hout⟩ | ⟨-, hoff⟩
        · simp [hs] at hout
        · exact hoff hs
  | send msg =>
    simp only [World.Step, World.step] at hstep
    split_ifs at hstep
    exact absurd (congrArg World.map (Option.some.inj hstep)).symm hmap
  | connectionFailed q c =>
    simp only [World.Step, World.step] at hstep
    split_ifs at hstep
    exact absurd (congrArg World.map (Option.some.inj hstep)).symm hmap
  | advance i outcome =>
    simp only [World.Step, World.step] at hstep
    cases hi : w.tasks[i]? with
    | none => simp [hi] at hstep
    | some t =>
      rw [hi] at hstep
      obtain ⟨next, -, rfl⟩ := Option.map_eq_some_iff.mp hstep
      exact absurd rfl hmap

/-- **A reconnected player is kept**, if no failure is reported after a later entry is sent, and no
grace period ends while an entry waits or is unreported when one is handled: what takes a player
down is about its last connection. -/
theorem reconnected_kept {config : MapConfig} {es : List Event}
    (run : Run (fun w e w' => World.Step w e w' ∧ w.Timely e) (.init config) es w)
    (hstep : World.Step w e w') (hp : w.TakesDown w' p) :
    ∃ env rest, w.mailbox = env :: rest ∧ e = .process ∧ env.message.ends p ∧
      w.entries p ≤ env.connection := by
  obtain ⟨env, rest, hm, he, hends⟩ := ends_of_takesDown hstep hp
  have hcur := (settled_of_run run p).current
  rw [hm] at hcur
  exact ⟨env, rest, hm, he, hends, hcur.1 hends⟩

section Knight

/-- A player of the map enters. -/
def knightEnters : Event :=
  .send (.enterPlayer ⟨⟨1001, "Knight"⟩, ⟨100, 80⟩, ⟨⟨8, 2⟩, ⟨6, 1⟩⟩⟩)

def greenFields : World := .init ⟨"green-fields", []⟩

/-- The connection fails while the player is in the map. -/
theorem reconnected_kept_knight : ∃ es w w', Run World.Step greenFields es w ∧
    World.Step w .process w' ∧ w.TakesDown w' 1001 ∧
    ∃ env rest, w.mailbox = env :: rest ∧ env.message.ends 1001 ∧
      w.entries 1001 ≤ env.connection := by
  have run : ∃ w w', Run (fun w e w' => World.Step w e w' ∧ w.Timely e) greenFields
      [knightEnters, .process, .connectionFailed 1001 1, .advance 0 .told] w ∧
      World.Step w .process w' ∧ w.TakesDown w' 1001 :=
    ⟨_, _, .cons ⟨rfl, trivial⟩ <| .cons ⟨rfl, fun _ => not_mem_nil⟩ <|
      .cons ⟨rfl, trivial⟩ <| .cons ⟨rfl, Nat.le_refl 1⟩ .nil, rfl,
      .inr ⟨by decide, by decide⟩⟩
  obtain ⟨w, w', run, hstep, hp⟩ := run
  obtain ⟨env, rest, hm, -, hends, hle⟩ := reconnected_kept run hstep hp
  exact ⟨_, w, w', run.imp fun _ _ _ h => h.1, hstep, hp, env, rest, hm, hends, hle⟩

/-- **Late messages take a player down**: first a grace period ends while the second entry waits,
then a report comes after that entry. -/
theorem late_messages_take_down :
    (∃ es w w' c, Run World.Step greenFields es w ∧ World.Step w .process w' ∧
      w.mailbox = [⟨.removePlayer 1001, c⟩] ∧ c < w.entries 1001 ∧ w.TakesDown w' 1001) ∧
    ∃ es w w' c, Run World.Step greenFields es w ∧ World.Step w .process w' ∧
      w.mailbox = [⟨.playerDisconnected 1001, c⟩] ∧ c < w.entries 1001 ∧ w.TakesDown w' 1001 := by
  constructor
  · exact ⟨[knightEnters, .process, .connectionFailed 1001 1, .advance 0 .told, .process,
      .advance 0 .elapsed, knightEnters, .advance 0 .told, .process], _, _, 1,
      .cons rfl <| .cons rfl <| .cons rfl <| .cons rfl <| .cons rfl <| .cons rfl <|
        .cons rfl <| .cons rfl <| .cons rfl .nil,
      rfl, rfl, by decide, .inl ⟨by decide, by decide⟩⟩
  · exact ⟨[knightEnters, .process, .connectionFailed 1001 1, knightEnters, .process,
      .advance 0 .told], _, _, 1,
      .cons rfl <| .cons rfl <| .cons rfl <| .cons rfl <| .cons rfl <| .cons rfl .nil,
      rfl, rfl, by decide, .inr ⟨by decide, by decide⟩⟩

end Knight

end RustExample.GameSync
