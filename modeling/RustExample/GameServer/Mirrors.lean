import RustExample.Foundation.News
import RustExample.GameServer.Broadcast

/-!
# Mirrors that converge to the map

Whatever the order in which events reach the players, a mirror is right about a player when the
last news about that player was handled. So mirrors are right once no event is on its way, if the
steps pass over no last news and take over nothing that comes after it.
-/

namespace RustExample.GameServer

open Function List

variable {F : Type}

/-! ### The entries of a map -/

/-- The entry leads to the player `q`. -/
structure MapPlayer.Linked (e : MapPlayer F) (q : PlayerId) : Prop where
  id : e.profile.id = q
  name : e.registryName = GameServer.registryName q
  link : e.link = none ∨ e.link = some q

/-- A message that names a player by its own name and actor. -/
def MapMessage.Proper : MapMessage F → Prop
  | .enterPlayer msg => msg.registryName = registryName msg.profile.id
  | .attachLocalPlayer playerId player => player = playerId
  | _ => True

namespace MapActor

/-- Every entry of the map leads to its player. -/
def Linked (m : MapActor F) : Prop :=
  ∀ (q : PlayerId) (e : MapPlayer F), m.players[q]? = some e → e.Linked q

variable {m m' : MapActor F} {msg : MapMessage F} {p q : PlayerId}

theorem fixed_entryOf (msg : EnterPlayer F) :
    (m.entryOf msg).profile = msg.profile ∧ (m.entryOf msg).registryName = msg.registryName ∧
      (m.entryOf msg).link = (m.players[msg.profile.id]?.getD
        ⟨msg.registryName, none, msg.profile, msg.vitals, m.entryBuffs⟩).link :=
  fixed_foldl_upsertBuff msg.portableBuffs _

theorem Linked.keyed (h : m.Linked) : m.Keyed := fun q e he => (h q e he).id

theorem notMem_leavePlayer : p ∉ (m.leavePlayer p).map.players := by
  rw [Std.ExtTreeMap.mem_iff_isSome_getElem?, players_leavePlayer, if_pos rfl]
  simp

theorem Linked.mem_broadcast (h : m.Linked) (p : PlayerId) :
    .direct p ∈ m.broadcast ∨ .spawned (registryName p) ∈ m.broadcast ↔ p ∈ m.players := by
  rw [Std.ExtTreeMap.mem_iff_isSome_getElem?, Option.isSome_iff_exists]
  constructor
  · rintro (hp | hp) <;> obtain ⟨e, he, hdelivery⟩ := List.mem_map.mp hp <;>
      obtain ⟨q, hq⟩ := KeyStore.mem_vals.mp he <;>
      rcases (h q e hq).link with hlink | hlink <;> rw [hlink] at hdelivery
    · simp at hdelivery
    · obtain rfl := Delivery.direct.inj hdelivery
      exact ⟨e, hq⟩
    · have hname := (Delivery.spawned.inj hdelivery).symm.trans (h q e hq).name
      exact ⟨e, registryName_injective hname ▸ hq⟩
    · simp at hdelivery
  · rintro ⟨e, he⟩
    have hmem := KeyStore.mem_vals.mpr ⟨p, he⟩
    rcases (h p e he).link with hlink | hlink
    · refine .inr (List.mem_map.mpr ⟨e, hmem, ?_⟩)
      rw [hlink, (h p e he).name]
    · refine .inl (List.mem_map.mpr ⟨e, hmem, ?_⟩)
      rw [hlink]

/-- A change of the map that keeps the addresses of its entries, or sets them right. -/
theorem Linked.of_lookup (h : m.Linked)
    (hm' : ∀ (q : PlayerId) (e' : MapPlayer F), m'.players[q]? = some e' → e'.Linked q ∨
      ∃ e, m.players[q]? = some e ∧ e'.profile = e.profile ∧
        e'.registryName = e.registryName ∧ (e'.link = e.link ∨ e'.link = some q)) :
    m'.Linked := by
  intro q e' he'
  rcases hm' q e' he' with hlinked | ⟨e, he, hprofile, hname, hlink⟩
  · exact hlinked
  · have hq := h q e he
    refine ⟨hprofile ▸ hq.id, hname ▸ hq.name, ?_⟩
    rcases hlink with hlink | hlink
    · rw [hlink]
      exact hq.link
    · exact .inr hlink

variable [Mul F] [One F]

theorem Linked.handle (h : m.Linked) (hmsg : msg.Proper) : (m.handle msg).map.Linked := by
  refine h.of_lookup fun q e' he' => ?_
  cases msg with
  | enterPlayer msg =>
    simp only [MapActor.handle, players_enterPlayer] at he'
    split_ifs at he' with hq
    · obtain ⟨⟩ := he'
      obtain ⟨hprofile, hname, hlink⟩ := fixed_entryOf (m := m) msg
      refine .inl ⟨(congrArg (·.id) hprofile).trans hq, hname.trans (hq ▸ hmsg), ?_⟩
      rw [hlink]
      cases he : m.players[msg.profile.id]? with
      | none => exact .inl rfl
      | some e => exact hq ▸ (h _ e he).link
    · exact .inr ⟨e', he', rfl, rfl, .inl rfl⟩
  | attachLocalPlayer playerId player =>
    obtain rfl : player = playerId := hmsg
    simp only [MapActor.handle, players_attachLocalPlayer] at he'
    split_ifs at he' with hq
    · obtain ⟨e, he, rfl⟩ := Option.map_eq_some_iff.mp he'
      exact .inr ⟨e, he, rfl, rfl, .inr (congrArg some hq)⟩
    · exact .inr ⟨e', he', rfl, rfl, .inl rfl⟩
  | applyCombatBuff playerId buff =>
    simp only [MapActor.handle, players_applyCombatBuff] at he'
    split_ifs at he' with hq
    · obtain ⟨e, he, rfl⟩ := Option.map_eq_some_iff.mp he'
      exact .inr ⟨e, he, rfl, rfl, .inl rfl⟩
    · exact .inr ⟨e', he', rfl, rfl, .inl rfl⟩
  | leavePlayer playerId =>
    simp only [MapActor.handle, players_leavePlayer] at he'
    split_ifs at he' with hq
    exact .inr ⟨e', he', rfl, rfl, .inl rfl⟩
  | updateVitals playerId vitals =>
    simp only [MapActor.handle, players_updateVitals] at he'
    split_ifs at he' with hq
    · obtain ⟨e, he, rfl⟩ := Option.map_eq_some_iff.mp he'
      exact .inr ⟨e, he, rfl, rfl, .inl rfl⟩
    · exact .inr ⟨e', he', rfl, rfl, .inl rfl⟩
  | advanceTick tick =>
    simp only [MapActor.handle, players_advanceTick] at he'
    split_ifs at he' with hdelta
    · exact .inr ⟨e', he', rfl, rfl, .inl rfl⟩
    · obtain ⟨e, he, rfl⟩ := Option.map_eq_some_iff.mp he'
      exact .inr ⟨e, he, rfl, rfl, .inl rfl⟩

theorem mapId_handle : (m.handle msg).map.mapId = m.mapId := by
  cases msg with
  | enterPlayer msg => rfl
  | attachLocalPlayer playerId player =>
    simp only [handle, attachLocalPlayer]
    split <;> rfl
  | applyCombatBuff playerId buff =>
    simp only [handle, applyCombatBuff]
    split <;> rfl
  | leavePlayer playerId =>
    simp only [handle, leavePlayer]
    split <;> rfl
  | updateVitals playerId vitals =>
    simp only [handle, updateVitals]
    split
    · split_ifs <;> rfl
    · rfl
  | advanceTick tick =>
    simp only [handle, advanceTick]
    split_ifs <;> rfl

theorem mem_players_of_handle (h : p ∈ (m.handle msg).map.players) :
    p ∈ m.players ∨ ∃ msg', msg = .enterPlayer msg' ∧ msg'.profile.id = p := by
  simp only [Std.ExtTreeMap.mem_iff_isSome_getElem?] at h ⊢
  cases msg with
  | enterPlayer msg =>
    simp only [handle, players_enterPlayer] at h
    split_ifs at h with hp
    · exact .inr ⟨msg, rfl, hp⟩
    · exact .inl h
  | _ =>
    left
    revert h
    simp only [handle, players_attachLocalPlayer, players_applyCombatBuff, players_leavePlayer,
      players_updateVitals, players_advanceTick]
    split_ifs <;> simp

end MapActor

/-! ### The other players of a map -/

namespace MapActor

variable {m : MapActor F} {p q : PlayerId} [Mul F] [One F]

/-- What a player who enters is told about the others. -/
def othersOf (m : MapActor F) (p : PlayerId) : List (MapPlayerView F) :=
  (m.players.vals.filter fun e => e.profile.id ≠ p).map MapPlayer.view

theorem nodup_othersOf (hm : m.Keyed) (p : PlayerId) :
    ((m.othersOf p).map (·.profile.id)).Nodup := by
  have hsub : ((m.othersOf p).map (·.profile.id)).Sublist (m.players.vals.map (·.profile.id)) := by
    rw [othersOf, map_map]
    exact List.filter_sublist.map _
  exact (KeyStore.nodup_map_vals hm).sublist hsub

theorem notMem_othersOf (p : PlayerId) : p ∉ (m.othersOf p).map (·.profile.id) := by
  simp only [othersOf, map_map, mem_map, mem_filter, decide_eq_true_eq]
  rintro ⟨e, ⟨-, hne⟩, he⟩
  exact hne he

theorem findBy_othersOf (hm : m.Keyed) (hq : q ≠ p) :
    findBy (·.profile.id) (m.othersOf p) q = m.views q := by
  cases hentry : m.players[q]? with
  | some e =>
    have hid := hm q e hentry
    have hmem : e.view ∈ m.othersOf p := mem_map_of_mem <|
      List.mem_filter.mpr ⟨KeyStore.mem_vals.mpr ⟨q, hentry⟩, by simpa [hid] using hq⟩
    rw [views, hentry, ← hid]
    exact findBy_of_mem (nodup_othersOf hm p) hmem
  | none =>
    rw [views, hentry, Option.map_none]
    by_contra hfind
    obtain ⟨view, hview⟩ := Option.ne_none_iff_exists'.mp hfind
    obtain ⟨e, he, rfl⟩ := List.mem_map.mp (mem_of_findBy hview)
    obtain ⟨k, hk⟩ := KeyStore.mem_vals.mp (mem_of_mem_filter he)
    have hkey : e.view.profile.id = q :=
      key_eq_of_findBy (fun v : MapPlayerView F => v.profile.id) hview
    obtain rfl : k = q := (hm k e hk).symm.trans hkey
    simp [hentry] at hk

end MapActor

/-! ### News on their way -/

namespace Game

variable {g g' : Game F} {p q : PlayerId} {post : Post F} {event : MapEvent F}

/-- A broadcast is on its way to every player in the map. -/
theorem inFlight_publish (hm : g.map.Linked) :
    (g.publish event).InFlight p post ↔
      g.InFlight p post ∨ p ∈ g.map.players ∧ post = ⟨g.clock, event⟩ := by
  have hmail : post ∈ (g.publish event).mailbox p ↔
      post ∈ g.mailbox p ∨ .direct p ∈ g.map.broadcast ∧ post = ⟨g.clock, event⟩ := by
    simp only [publish, mem_append, mem_map, mem_filter, decide_eq_true_eq]
    refine or_congr_right ⟨?_, fun ⟨hmem, hpost⟩ => ⟨_, ⟨hmem, rfl⟩, hpost.symm⟩⟩
    rintro ⟨_, ⟨hmem, rfl⟩, rfl⟩
    exact ⟨hmem, rfl⟩
  have htask : (registryName p, post) ∈ (g.publish event).tasks ↔ (registryName p, post) ∈ g.tasks ∨
      .spawned (registryName p) ∈ g.map.broadcast ∧ post = ⟨g.clock, event⟩ := by
    simp only [publish, mem_append, mem_filterMap]
    refine or_congr_right ⟨?_, fun ⟨hmem, hpost⟩ => ⟨_, hmem, hpost ▸ rfl⟩⟩
    rintro ⟨_ | name, hmem, hpost⟩
    · simp at hpost
    · obtain ⟨⟩ := hpost
      exact ⟨hmem, rfl⟩
  rw [InFlight, hmail, htask, ← hm.mem_broadcast p, or_and_right]
  exact or_or_or_comm

theorem underway_publish (hm : g.map.Linked) (hp : p ∈ g.map.players) (n : ℕ) (q : PlayerId)
    (shown : Option (MapPlayerView F)) :
    (g.publish event).Underway p n q shown ↔
      g.Underway p n q shown ∨ n = g.clock ∧ q = event.subject ∧ shown = event.shown := by
  simp only [Underway, inFlight_publish hm, hp, true_and]
  constructor
  · rintro ⟨post, h | rfl, hn, hq, hshown⟩
    · exact .inl ⟨post, h, hn, hq, hshown⟩
    · exact .inr ⟨hn.symm, hq.symm, hshown.symm⟩
  · rintro (⟨post, h, hn, hq, hshown⟩ | ⟨rfl, rfl, rfl⟩)
    · exact ⟨post, .inl h, hn, hq, hshown⟩
    · exact ⟨_, .inr rfl, rfl, rfl, rfl⟩

/-- What players know after an event. -/
def tell (views : PlayerId → Option (MapPlayerView F)) (event : MapEvent F) :
    PlayerId → Option (MapPlayerView F) :=
  update views event.subject event.shown

variable {events : List (MapEvent F)}

theorem foldl_tell {views views' : PlayerId → Option (MapPlayerView F)}
    (h : ∀ e ∈ events, e.shown = views' e.subject)
    (hother : ∀ q, (∀ e ∈ events, e.subject ≠ q) → views' q = views q) :
    events.foldl tell views = views' := by
  induction events generalizing views with
  | nil => exact funext fun q => (hother q nofun).symm
  | cons e events ih =>
    refine ih (fun e' he' => h e' (mem_cons_of_mem e he')) fun q hq => ?_
    by_cases hqe : q = e.subject
    · rw [hqe, tell, update_self, h e mem_cons_self]
    · rw [tell, update_of_ne hqe]
      exact hother q (List.forall_mem_cons.mpr ⟨Ne.symm hqe, hq⟩)

/-- A mirror in step stays so while events are published. -/
theorem inStep_publish {copy views : PlayerId → Option (MapPlayerView F)} (hm : g.map.Linked)
    (hp : p ∈ g.map.players) (hnewest : ∀ q, g.newest p q < g.clock)
    (h : News.InStep (g.Underway p) (g.newest p) copy views) (events : List (MapEvent F)) :
    News.InStep ((events.foldl publish g).Underway p) ((events.foldl publish g).newest p) copy
      (events.foldl tell views) := by
  induction events generalizing g views with
  | nil => exact h
  | cons e events ih =>
    refine ih (g := g.publish e) hm hp (fun q => ?_) ?_
    · simp only [publish]
      split_ifs
      · exact Nat.lt_succ_self _
      · exact Nat.lt_succ_of_lt (hnewest q)
    · refine h.publish (hnewest e.subject) (underway_publish hm hp) fun q => ?_
      simp only [publish, hp, true_and]

@[simp] theorem map_foldl_publish (events : List (MapEvent F)) :
    (events.foldl publish g).map = g.map := by
  induction events generalizing g with
  | nil => rfl
  | cons e events ih => exact ih

@[simp] theorem actor_foldl_publish (events : List (MapEvent F)) :
    (events.foldl publish g).actor = g.actor := by
  induction events generalizing g with
  | nil => rfl
  | cons e events ih => exact ih

@[simp] theorem ask_foldl_publish (events : List (MapEvent F)) :
    (events.foldl publish g).ask = g.ask := by
  induction events generalizing g with
  | nil => rfl
  | cons e events ih => exact ih

theorem map_perform [Mul F] [One F] (msg : MapMessage F) :
    (g.perform msg).map = (g.map.handle msg).map :=
  map_foldl_publish _

theorem ask_perform [Mul F] [One F] (msg : MapMessage F) : (g.perform msg).ask = g.ask :=
  ask_foldl_publish _

/-! ### The invariant -/

/-- The message is a question of the player. -/
def Asks (p : PlayerId) : MapMessage F → Prop
  | .enterPlayer msg => msg.profile.id = p ∧ msg.registryName = registryName p
  | .leavePlayer playerId => playerId = p
  | .applyCombatBuff _ _ => True
  | _ => False

/-- The mirror of a player, or what the answer to its entry will make of it. -/
def mirrorOf (g : Game F) (p : PlayerId) : Option (MapMirror F) :=
  match g.ask p with
  | some ⟨_, .enterPlayer _, some (some (.joined join))⟩ =>
    some ⟨join.mapId, join.tick, join.own, join.others⟩
  | _ => (g.actor p).mirror

theorem mirrorOf_congr (hask : g'.ask p = g.ask p) (hactor : g'.actor p = g.actor p) :
    g'.mirrorOf p = g.mirrorOf p := by
  unfold mirrorOf
  rw [hask, hactor]

theorem mirrorOf_eq (h : ∀ msg join,
    g.ask p ≠ some ⟨(), .enterPlayer msg, some (some (.joined join))⟩) :
    g.mirrorOf p = (g.actor p).mirror := by
  unfold mirrorOf
  split
  · rename_i msg join hask
    exact absurd hask (h msg join)
  · rfl

/-- Ids and links are those of their players. -/
structure Formed (g : Game F) : Prop where
  linked : g.map.Linked
  actor : ∀ p, (g.actor p).profile.id = p ∧ (g.actor p).registryName = registryName p
  asks : ∀ p request answer, g.ask p = some ⟨(), request, answer⟩ → Asks p request
  joined : ∀ p msg reply, g.ask p = some ⟨(), .enterPlayer msg, some reply⟩ →
    (∃ join, reply = some (.joined join)) ∧ ∃ shown, g.Underway p (g.newest p p) p shown
  left : ∀ p reply, g.ask p = some ⟨(), .leavePlayer p, some reply⟩ → p ∉ g.map.players
  post : ∀ p post, g.InFlight p post →
    post.stamp < g.clock ∧ post.event.mapId = g.map.mapId
  newest : ∀ p q, g.newest p q < g.clock

/-- The mirror of the player `p` is in step with the map. -/
def Follows [Mul F] [One F] (g : Game F) (p : PlayerId) : Prop :=
  ∃ mirror, g.mirrorOf p = some mirror ∧ mirror.Formed p g.map.mapId ∧
    News.InStep (g.Underway p) (g.newest p) (mirror.shows p) g.map.views

/-- What holds in runs in order. -/
structure Inv [Mul F] [One F] (g : Game F) : Prop extends g.Formed where
  follows : ∀ p, p ∈ g.map.players → g.Follows p

/-- What is on its way stays so while events are published. -/
theorem Pending.publish (hm : g.map.Linked)
    (h : ∃ shown, g.Underway p (g.newest p q) q shown) (events : List (MapEvent F)) :
    ∃ shown, (events.foldl publish g).Underway p ((events.foldl publish g).newest p q) q shown := by
  induction events generalizing g with
  | nil => exact h
  | cons e events ih =>
    refine ih (g := g.publish e) hm ?_
    simp only [Game.publish]
    split_ifs with hpq
    · obtain ⟨hp, rfl⟩ := hpq
      exact ⟨_, (underway_publish hm hp _ _ _).mpr (.inr ⟨rfl, rfl, rfl⟩)⟩
    · obtain ⟨shown, post, hpost, hn⟩ := h
      exact ⟨shown, post, (inFlight_publish hm).mpr (.inl hpost), hn⟩

/-- The numbers and maps of what is on its way, while events are published. -/
theorem post_publish (hm : g.map.Linked) {mapId : String} (hevents : ∀ e ∈ events, e.mapId = mapId)
    (h : ∀ p post, g.InFlight p post → post.stamp < g.clock ∧ post.event.mapId = mapId)
    (hpost : (events.foldl publish g).InFlight p post) :
    post.stamp < (events.foldl publish g).clock ∧ post.event.mapId = mapId := by
  induction events generalizing g with
  | nil => exact h p post hpost
  | cons e events ih =>
    refine ih (g := g.publish e) hm (fun e' he' => hevents e' (mem_cons_of_mem e he'))
      (fun p' post' hpost' => ?_) hpost
    rcases (inFlight_publish hm).mp hpost' with hold | ⟨-, rfl⟩
    · exact ⟨Nat.lt_succ_of_lt (h p' post' hold).1, (h p' post' hold).2⟩
    · exact ⟨Nat.lt_succ_self _, hevents e mem_cons_self⟩

theorem newest_publish (h : ∀ p q, g.newest p q < g.clock) :
    (events.foldl publish g).newest p q < (events.foldl publish g).clock := by
  induction events generalizing g with
  | nil => exact h p q
  | cons e events ih =>
    refine ih (g := g.publish e) fun p' q' => ?_
    simp only [publish]
    split_ifs
    · exact Nat.lt_succ_self _
    · exact Nat.lt_succ_of_lt (h p' q')

/-! ### The entry of a player -/

section Entry

variable [Mul F] [One F]

/-- The game after the map has handled an entry, before it tells the players. -/
def entering (g : Game F) (msg : EnterPlayer F) : Game F :=
  { g with
    map := (g.map.enterPlayer msg).map
    newest := update g.newest msg.profile.id fun _ => g.clock }

/-- What the map tells the players about an entry. -/
def entryEvent (g : Game F) (msg : EnterPlayer F) : MapEvent F :=
  .entered g.map.mapId g.map.serverTick (g.map.entryOf msg).view

variable {msg : EnterPlayer F} (hid : msg.profile.id = p)
include hid

theorem mem_players_entering : p ∈ (g.entering msg).map.players := by
  simp [entering, MapActor.enterPlayer, hid]

theorem mem_players_entering_of_ne (hq : q ≠ p) :
    q ∈ (g.entering msg).map.players ↔ q ∈ g.map.players := by
  simp [entering, MapActor.enterPlayer, hid, Ne.symm hq]

theorem newest_entering_self : (g.entering msg).newest p = fun _ => g.clock :=
  hid ▸ update_self _ _ _

theorem newest_entering_of_ne (hq : q ≠ p) : (g.entering msg).newest q = g.newest q :=
  update_of_ne (hid ▸ hq) _ _

theorem subject_entryEvent : (g.entryEvent msg).subject = p :=
  (congrArg PlayerProfile.id (MapActor.fixed_entryOf msg).1).trans hid

end Entry

/-! ### One step -/

section Steps

variable [Mul F] [One F] {msg : MapMessage F}

/-- The player does something by itself: it asks, or goes on with an answer. -/
theorem Inv.at_player (h : g.Inv) {a : PlayerActor Unit F} {ask : Option (Ask Unit F)}
    (ha : a.profile = (g.actor p).profile ∧ a.registryName = (g.actor p).registryName)
    (hask : ∀ request answer, ask = some ⟨(), request, answer⟩ → Asks p request ∧
      (∀ msg, request = .enterPlayer msg → answer = none) ∧
      (request = .leavePlayer p → answer ≠ none → p ∉ g.map.players))
    (hmirror : p ∈ g.map.players → a.mirror = g.mirrorOf p) :
    ((g.setActor p a).setAsk p ask).Inv := by
  have hothers : ∀ q, q ≠ p → ((g.setActor p a).setAsk p ask).ask q = g.ask q := fun q hq =>
    update_of_ne hq _ _
  have hself : ((g.setActor p a).setAsk p ask).ask p = ask := update_self _ _ _
  have hactor : ∀ q, q ≠ p → ((g.setActor p a).setAsk p ask).actor q = g.actor q := fun q hq =>
    update_of_ne hq _ _
  have hactor' : ((g.setActor p a).setAsk p ask).actor p = a := update_self _ _ _
  refine ⟨⟨h.linked, fun q => ?_, fun q request answer hq => ?_, fun q msg reply hq => ?_,
    fun q reply hq => ?_, h.post, h.newest⟩, fun q hq => ?_⟩
  · by_cases hqp : q = p
    · subst hqp
      rw [hactor', ha.1, ha.2]
      exact h.actor q
    · rw [hactor q hqp]
      exact h.actor q
  · by_cases hqp : q = p
    · subst hqp
      exact (hask request answer (hself ▸ hq)).1
    · exact h.asks q request answer (hothers q hqp ▸ hq)
  · by_cases hqp : q = p
    · subst hqp
      have := (hask _ _ (hself ▸ hq)).2.1 msg rfl
      simp at this
    · exact h.joined q msg reply (hothers q hqp ▸ hq)
  · by_cases hqp : q = p
    · subst hqp
      exact (hask _ _ (hself ▸ hq)).2.2 rfl (Option.some_ne_none reply)
    · exact h.left q reply (hothers q hqp ▸ hq)
  · obtain ⟨mirror, hm, hformed, hstep⟩ := h.follows q hq
    refine ⟨mirror, ?_, hformed, hstep⟩
    by_cases hqp : q = p
    · subst hqp
      rw [mirrorOf_eq fun msg join hjoin => ?_, hactor', hmirror hq, hm]
      have := (hask _ _ (hself ▸ hjoin)).2.1 msg rfl
      simp at this
    · rw [mirrorOf, hothers q hqp, hactor q hqp]
      exact hm

theorem Inv.of_setAsk (h : g.Inv) {ask : Option (Ask Unit F)}
    (hask : ∀ request answer, ask = some ⟨(), request, answer⟩ → Asks p request ∧
      (∀ msg, request = .enterPlayer msg → answer = none) ∧
      (request = .leavePlayer p → answer ≠ none → p ∉ g.map.players))
    (hold : ∀ msg join, g.ask p ≠ some ⟨(), .enterPlayer msg, some (some (.joined join))⟩) :
    (g.setAsk p ask).Inv := by
  have hsame : g.setActor p (g.actor p) = g := by
    rw [setActor, update_eq_self]
  have := h.at_player (a := g.actor p) ⟨rfl, rfl⟩ hask fun _ => (mirrorOf_eq hold).symm
  rwa [hsame] at this

theorem Inv.perform (h : g.Inv) (hmsg : msg.Proper) (hticks : g.map.TellsTicks msg)
    (hne : ∀ msg', msg ≠ .enterPlayer msg') : (g.perform msg).Inv := by
  have hperform : g.perform msg =
      (g.map.handle msg).events.foldl publish { g with map := (g.map.handle msg).map } := by
    cases msg with
    | enterPlayer msg => exact absurd rfl (hne msg)
    | _ => rfl
  have hlinked := h.linked.handle hmsg
  have hmapId : (g.map.handle msg).map.mapId = g.map.mapId := MapActor.mapId_handle
  have hplayers : ∀ p, p ∈ (g.map.handle msg).map.players → p ∈ g.map.players := fun p hp =>
    (MapActor.mem_players_of_handle hp).resolve_right fun ⟨msg', heq, _⟩ => hne msg' heq
  have hviews := foldl_tell (fun e he => (MapActor.shown_of_mem_events h.linked.keyed he).2)
    fun q => MapActor.views_handle_of_notMem h.linked.keyed hticks
  rw [hperform]
  refine ⟨⟨?_, ?_, ?_, fun p msg reply hp => ?_, fun p reply hp => ?_, fun p post hpost => ?_,
    fun p q => ?_⟩, fun p hp => ?_⟩
  · rwa [map_foldl_publish]
  · rw [actor_foldl_publish]
    exact h.actor
  · rw [ask_foldl_publish]
    exact h.asks
  · rw [ask_foldl_publish] at hp
    exact (h.joined p msg reply hp).imp id fun hpending => Pending.publish hlinked hpending _
  · rw [ask_foldl_publish] at hp
    rw [map_foldl_publish]
    exact fun hmem => h.left p reply hp (hplayers p hmem)
  · rw [map_foldl_publish]
    refine post_publish hlinked (fun e he => ?_) (fun p post hpost => ?_) hpost
    · exact (MapActor.shown_of_mem_events h.linked.keyed he).1.trans hmapId.symm
    · exact ⟨(h.post p post hpost).1, (h.post p post hpost).2.trans hmapId.symm⟩
  · exact newest_publish h.newest
  · rw [map_foldl_publish] at hp
    obtain ⟨mirror, hm, hformed, hstep⟩ := h.follows p (hplayers p hp)
    refine ⟨mirror, ?_, ?_, ?_⟩
    · simpa [mirrorOf] using hm
    · rw [map_foldl_publish]
      show mirror.Formed p (g.map.handle msg).map.mapId
      rwa [hmapId]
    · rw [map_foldl_publish]
      have := inStep_publish (g := { g with map := (g.map.handle msg).map }) hlinked hp
        (h.newest p) hstep (g.map.handle msg).events
      rwa [hviews] at this

theorem perform_enterPlayer (msg : EnterPlayer F) :
    g.perform (.enterPlayer msg) = (g.entering msg).publish (g.entryEvent msg) := rfl

theorem shown_entryEvent {msg : EnterPlayer F} (hm : g.map.Keyed) :
    (g.entryEvent msg).shown = (g.entering msg).map.views (g.entryEvent msg).subject :=
  (MapActor.shown_of_mem_events hm
    (show g.entryEvent msg ∈ (g.map.handle (.enterPlayer msg)).events from mem_cons_self)).2

/-- The news of an entry tells everything that changed. -/
theorem tell_entryEvent {msg : EnterPlayer F} (hm : g.map.Keyed) :
    tell g.map.views (g.entryEvent msg) = (g.entering msg).map.views := by
  have hshown : ∀ e ∈ [g.entryEvent msg], e.shown = (g.entering msg).map.views e.subject := by
    intro e he
    rw [List.mem_singleton.mp he]
    exact shown_entryEvent hm
  refine foldl_tell hshown fun q hq => ?_
  exact MapActor.views_handle_of_notMem hm
    (show g.map.TellsTicks (.enterPlayer msg) from trivial) hq

theorem shows_join (hm : g.map.Keyed) {msg : EnterPlayer F} (hid : msg.profile.id = p) (tick : ℕ) :
    (⟨g.map.mapId, tick, (g.map.entryOf msg).view, g.map.othersOf p⟩ : MapMirror F).shows p =
      (g.map.enterPlayer msg).map.views := by
  funext q
  by_cases hq : q = p
  · subst hq
    simp [MapMirror.shows, MapActor.views, hid]
  · rw [MapMirror.shows, if_neg hq, MapActor.findBy_othersOf hm hq]
    simp [MapActor.views, hid, Ne.symm hq]

/-- The player that enters knows everybody from the answer. -/
theorem Inv.follows_entered {msg : EnterPlayer F} (h : g.Inv) (hid : msg.profile.id = p)
    (hlinked : (g.entering msg).map.Linked) :
    (((g.entering msg).publish (g.entryEvent msg)).setAsk p
      (some ⟨(), .enterPlayer msg, some (some (g.map.enterPlayer msg).reply)⟩)).Follows p := by
  have hjoin : ((g.entering msg).publish (g.entryEvent msg)).newest p = fun _ => g.clock := by
    funext r
    simp only [publish, newest_entering_self hid]
    exact ite_self _
  refine ⟨⟨g.map.mapId, g.map.serverTick, (g.map.entryOf msg).view, g.map.othersOf p⟩, ?_,
    ⟨rfl, subject_entryEvent hid, MapActor.nodup_othersOf h.linked.keyed p,
      MapActor.notMem_othersOf p⟩, ?_⟩
  · simp [mirrorOf, setAsk, MapActor.enterPlayer, MapActor.othersOf, hid]
  · show News.InStep (((g.entering msg).publish (g.entryEvent msg)).Underway p)
      (((g.entering msg).publish (g.entryEvent msg)).newest p) _ _
    rw [hjoin]
    -- what is on its way is older than the answer, or is the news of the entry itself
    refine .join (k := (g.entryEvent msg).subject) (fun n r shown hnews => ?_)
      (shows_join h.linked.keyed hid _)
    rcases (underway_publish hlinked (mem_players_entering hid) n r shown).mp hnews with
      ⟨post, hpost, rfl, -, -⟩ | ⟨hn, hr, hshown⟩
    · exact .inl (h.post p post hpost).1
    · exact .inr ⟨hn, hr, hshown.trans (shown_entryEvent h.linked.keyed)⟩

/-- The others learn of an entry like of any other event. -/
theorem Inv.follows_entered_of_ne {msg : EnterPlayer F} {ask : Option (Ask Unit F)} (h : g.Inv)
    (hid : msg.profile.id = p) (hlinked : (g.entering msg).map.Linked) (hqp : q ≠ p)
    (hq : q ∈ (g.entering msg).map.players) :
    (((g.entering msg).publish (g.entryEvent msg)).setAsk p ask).Follows q := by
  have hask : (((g.entering msg).publish (g.entryEvent msg)).setAsk p ask).ask q = g.ask q :=
    update_of_ne hqp _ _
  have hnewest := newest_entering_of_ne (g := g) hid hqp
  obtain ⟨mirror, hm, hformed, hstep⟩ := h.follows q ((mem_players_entering_of_ne hid hqp).mp hq)
  refine ⟨mirror, ?_, hformed, ?_⟩
  · rw [mirrorOf, hask]
    exact hm
  · have hfollows := inStep_publish (g := g.entering msg) hlinked hq
      (fun r => hnewest ▸ h.newest q r) (hnewest ▸ hstep) [g.entryEvent msg]
    exact tell_entryEvent h.linked.keyed ▸ hfollows

theorem Inv.formed_entered {msg : EnterPlayer F} (h : g.Inv) (hid : msg.profile.id = p)
    (hname : msg.registryName = registryName p) (hlinked : (g.entering msg).map.Linked) :
    (((g.entering msg).publish (g.entryEvent msg)).setAsk p
      (some ⟨(), .enterPlayer msg, some (some (g.map.enterPlayer msg).reply)⟩)).Formed := by
  have hothers : ∀ q a, q ≠ p →
      (((g.entering msg).publish (g.entryEvent msg)).setAsk p a).ask q = g.ask q := fun q a hq =>
    update_of_ne hq _ _
  refine ⟨hlinked, h.actor, fun q request answer hq => ?_, fun q msg' reply hq => ?_,
    fun q reply hq => ?_, fun q post hpost => ?_, fun q r => ?_⟩
  · by_cases hqp : q = p
    · subst hqp
      obtain ⟨rfl, -⟩ : .enterPlayer msg = request ∧ _ = answer := by simpa [setAsk] using hq
      exact ⟨hid, hname⟩
    · exact h.asks q request answer (hothers q _ hqp ▸ hq)
  · by_cases hqp : q = p
    · subst hqp
      obtain ⟨-, rfl⟩ : _ ∧ some (g.map.enterPlayer msg).reply = reply := by
        simpa [setAsk] using hq
      refine ⟨⟨_, rfl⟩, (g.entryEvent msg).shown, ?_⟩
      have hmem := mem_players_entering (g := g) hid
      have hsubject := subject_entryEvent (g := g) hid
      exact (underway_publish hlinked hmem _ _ _).mpr
        (.inr ⟨if_pos ⟨hmem, hsubject.symm⟩, hsubject.symm, rfl⟩)
    · refine (h.joined q msg' reply (hothers q _ hqp ▸ hq)).imp id fun hold => ?_
      have hnewest := newest_entering_of_ne (g := g) hid hqp
      exact Pending.publish (g := g.entering msg) hlinked (hnewest ▸ hold) [g.entryEvent msg]
  · by_cases hqp : q = p
    · subst hqp
      simp [setAsk] at hq
    · exact fun hmem => h.left q reply (hothers q _ hqp ▸ hq)
        ((mem_players_entering_of_ne hid hqp).mp hmem)
  · have hevents : ∀ e ∈ [g.entryEvent msg], e.mapId = g.map.mapId := by
      simp [entryEvent, MapEvent.mapId]
    exact post_publish (g := g.entering msg) hlinked hevents h.post hpost
  · simp only [setAsk, publish]
    split_ifs
    · exact Nat.lt_succ_self _
    · by_cases hqp : q = p
      · subst hqp
        rw [newest_entering_self hid]
        exact Nat.lt_succ_self _
      · rw [newest_entering_of_ne hid hqp]
        exact Nat.lt_succ_of_lt (h.newest q r)

/-- The map handles the entry of a player, who is told about everybody. -/
theorem Inv.enter {msg : EnterPlayer F} (h : g.Inv)
    (hask : g.ask p = some ⟨(), .enterPlayer msg, none⟩) :
    ((g.perform (.enterPlayer msg)).setAsk p
      (some ⟨(), .enterPlayer msg, some (some (g.map.enterPlayer msg).reply)⟩)).Inv := by
  obtain ⟨hid, hname⟩ := h.asks p _ _ hask
  have hproper : (MapMessage.enterPlayer msg).Proper := hname.trans (congrArg _ hid.symm)
  have hlinked : (g.entering msg).map.Linked := h.linked.handle hproper
  rw [perform_enterPlayer]
  refine ⟨h.formed_entered hid hname hlinked, fun q hq => ?_⟩
  by_cases hqp : q = p
  · subst hqp
    exact h.follows_entered hid hlinked
  · exact h.follows_entered_of_ne hid hlinked hqp hq

omit [Mul F] [One F] in
/-- A task puts its event into the mailbox that it is for. -/
theorem inFlight_arrive {i : ℕ} {x : Post F} (h : g.tasks[i]? = some (registryName p, post)) :
    ({ g with tasks := g.tasks.eraseIdx i }.setMailbox p (g.mailbox p ++ [post])).InFlight q x ↔
      g.InFlight q x := by
  obtain ⟨hi, hget⟩ := List.getElem?_eq_some_iff.mp h
  have htasks : (registryName q, x) ∈ g.tasks ↔
      (registryName q, x) = (registryName p, post) ∨ (registryName q, x) ∈ g.tasks.eraseIdx i := by
    rw [← (getElem_cons_eraseIdx_perm hi).mem_iff, hget, mem_cons]
  simp only [InFlight, setMailbox, htasks]
  by_cases hq : q = p
  · subst hq
    simp only [update_self, mem_append, mem_singleton, Prod.mk.injEq, true_and]
    exact or_assoc
  · have hname : registryName q ≠ registryName p := fun h => hq (registryName_injective h)
    simp [update_of_ne hq, hname]

theorem Inv.arrive {i : ℕ} (h : g.Inv) (htask : g.tasks[i]? = some (registryName p, post)) :
    ({ g with tasks := g.tasks.eraseIdx i }.setMailbox p (g.mailbox p ++ [post])).Inv := by
  have hflight := fun (q : PlayerId) (x : Post F) => inFlight_arrive (q := q) (x := x) htask
  have hunderway : ∀ q n r shown, ({ g with tasks := g.tasks.eraseIdx i }.setMailbox p
      (g.mailbox p ++ [post])).Underway q n r shown ↔ g.Underway q n r shown := fun q n r shown =>
    exists_congr fun x => and_congr_left' (hflight q x)
  refine ⟨⟨h.linked, h.actor, h.asks, fun q msg reply hq => ?_, h.left,
    fun q x hx => h.post q x ((hflight q x).mp hx), h.newest⟩, fun q hq => ?_⟩
  · obtain ⟨hjoin, shown, hshown⟩ := h.joined q msg reply hq
    exact ⟨hjoin, shown, (hunderway _ _ _ _).mpr hshown⟩
  · obtain ⟨mirror, hm, hformed, hstep⟩ := h.follows q hq
    exact ⟨mirror, hm, hformed, hstep.congr (hunderway q)⟩

omit [Mul F] [One F] in
theorem inFlight_process {posts : List (Post F)} {a : PlayerActor Unit F} {x : Post F}
    (hmail : g.mailbox p = post :: posts) :
    g.InFlight q x ↔
      ((g.setActor p a).setMailbox p posts).InFlight q x ∨ q = p ∧ x = post := by
  by_cases hq : q = p
  · subst hq
    simp only [InFlight, setMailbox, setActor, update_self, hmail, mem_cons, true_and]
    tauto
  · simp [InFlight, setMailbox, setActor, hq]

theorem Inv.process {posts : List (Post F)} (h : g.Inv) (hidle : g.ask p = none)
    (hmail : g.mailbox p = post :: posts) (horder : g.InOrder (.process p)) :
    ((g.setActor p ((g.actor p).applyMapEvent post.event)).setMailbox p posts).Inv := by
  have hflight := fun (q : PlayerId) (x : Post F) =>
    inFlight_process (q := q) (x := x) (a := (g.actor p).applyMapEvent post.event) hmail
  have hunderway : ∀ q, q ≠ p → ∀ n r shown, ((g.setActor p ((g.actor p).applyMapEvent
      post.event)).setMailbox p posts).Underway q n r shown ↔ g.Underway q n r shown := by
    intro q hq n r shown
    exact exists_congr fun x => and_congr_left' (by simp [hflight q x, hq])
  have hactor : ∀ q, q ≠ p → ((g.setActor p ((g.actor p).applyMapEvent post.event)).setMailbox p
      posts).actor q = g.actor q := fun q hq => update_of_ne hq _ _
  have hself : ((g.setActor p ((g.actor p).applyMapEvent post.event)).setMailbox p posts).actor p =
      (g.actor p).applyMapEvent post.event := update_self _ _ _
  refine ⟨⟨h.linked, fun q => ?_, h.asks, fun q msg reply hq => ?_, h.left,
    fun q x hx => h.post q x ((hflight q x).mpr (.inl hx)), h.newest⟩, fun q hq => ?_⟩
  · by_cases hqp : q = p
    · subst hqp
      obtain ⟨hprofile, hname⟩ := PlayerActor.fixed_applyMapEvent (g.actor q) post.event
      rw [hself, hprofile, hname]
      exact h.actor q
    · rw [hactor q hqp]
      exact h.actor q
  · have hqp : q ≠ p := by
      rintro rfl
      simp [setMailbox, setActor, hidle] at hq
    obtain ⟨hjoin, shown, hshown⟩ := h.joined q msg reply hq
    exact ⟨hjoin, shown, (hunderway q hqp _ _ _).mpr hshown⟩
  · obtain ⟨mirror, hm, hformed, hstep⟩ := h.follows q hq
    by_cases hqp : q = p
    · subst hqp
      have hmirror : (g.actor q).mirror = some mirror := by
        rw [← hm, mirrorOf_eq (by simp [hidle])]
      have hpost : g.InFlight q post := (hflight q post).mpr (.inr ⟨rfl, rfl⟩)
      have hmapId : mirror.mapId = post.event.mapId :=
        hformed.mapId_eq.trans (h.post q post hpost).2.symm
      have htold := PlayerActor.applyMapEvent_eq hmirror hmapId
      rw [(h.actor q).1] at htold
      refine ⟨mirror.told q post.event, ?_, hformed.told, ?_⟩
      · rw [mirrorOf_eq (by simp [setMailbox, setActor, hidle]), hself, htold]
      · have horder := horder mirror post posts hmirror hmail
        refine hstep.handle ⟨post, hpost, rfl, rfl, rfl⟩ (fun n r shown hnews => ?_)
          (fun n r shown hnews => ?_) (fun r hr => MapMirror.shows_told_of_ne hr) (fun hlast => ?_)
          fun hne hlate => ?_
        · obtain ⟨x, hx, hnews⟩ := hnews
          exact ⟨x, (hflight q x).mpr (.inl hx), hnews⟩
        · obtain ⟨x, hx, hn, hr, hshown⟩ := hnews
          rcases (hflight q x).mp hx with hx | ⟨-, rfl⟩
          · exact .inl ⟨x, hx, hn, hr, hshown⟩
          · exact .inr ⟨hn.symm, hr.symm⟩
        · rcases horder with hshows | hdrops
          · exact MapMirror.shows_told_of_eq hshows
          · rw [if_pos hlast] at hdrops
            refine MapMirror.shows_told hdrops fun hsubject hnone => ?_
            -- the player is in the map, so the last news about it are not that it left
            have hview := hstep.last post.event.subject _ ⟨post, hpost, hlast, rfl, rfl⟩
            rw [hnone, hsubject, MapActor.views, eq_comm, Option.map_eq_none_iff] at hview
            rw [Std.ExtTreeMap.mem_iff_isSome_getElem?, setMailbox, setActor, hview] at hq
            simp at hq
        · rcases horder with hshows | hdrops
          · exact (MapMirror.shows_told_of_eq hshows).trans hshows.symm
          · rw [if_neg hne] at hdrops
            rw [MapMirror.told_of_drops (hdrops hlate)]
    · refine ⟨mirror, ?_, hformed, hstep.congr (hunderway q hqp)⟩
      rw [← hm]
      exact mirrorOf_congr rfl (hactor q hqp)

theorem Inv.init (mapId : String) (entryBuffs : List (CombatBuff F))
    (profile : PlayerId → String × Option String) :
    (Game.init mapId entryBuffs profile).Inv := by
  refine ⟨⟨?_, fun p => ⟨rfl, rfl⟩, nofun, nofun, nofun, ?_, fun p q => Nat.one_pos⟩, ?_⟩
  · intro q e he
    simp [Game.init, MapActor.new] at he
  · rintro p post (hpost | hpost) <;> simp [Game.init] at hpost
  · intro p hp
    simp [Game.init, MapActor.new] at hp

theorem Inv.step {e : Event F} (h : g.Inv) (hstep : Step g e g') (horder : g.InOrder e) :
    g'.Inv := by
  cases hstep with
  | @enterMap p hidle vitals =>
    refine h.at_player ⟨rfl, rfl⟩ ?_ fun _ => ?_
    · rintro request answer heq
      obtain ⟨rfl, rfl⟩ : .enterPlayer ((g.actor p).enterMap vitals).2 = request ∧
          none = answer := by simpa using heq
      exact ⟨h.actor p, fun _ _ => rfl, nofun⟩
    · rw [mirrorOf_eq (by simp [hidle])]
      rfl
  | @leaveMap p hidle =>
    refine h.at_player ⟨rfl, rfl⟩ ?_ fun _ => ?_
    · rintro request answer heq
      obtain ⟨-, rfl, rfl⟩ : _ ∧ .leavePlayer p = request ∧ none = answer := by simpa using heq
      exact ⟨rfl, nofun, fun _ hanswer => absurd rfl hanswer⟩
    · rw [mirrorOf_eq (by simp [hidle])]
      rfl
  | @requestCombatBuff p hidle buff =>
    refine h.of_setAsk (fun request answer heq => ?_) (by simp [hidle])
    obtain ⟨-, rfl, rfl⟩ : _ ∧ .applyCombatBuff p buff = request ∧ none = answer := by
      simpa using heq
    exact ⟨trivial, nofun, nofun⟩
  | @executed p request hask =>
    have hasks := h.asks p request none hask
    cases request with
    | enterPlayer msg => exact h.enter hask
    | leavePlayer playerId =>
      obtain rfl : playerId = p := hasks
      have hnew : (g.perform (.leavePlayer playerId)).Inv := h.perform trivial trivial nofun
      refine hnew.of_setAsk (fun request answer heq => ?_) (by simp [ask_perform, hask])
      obtain ⟨rfl, -⟩ : .leavePlayer playerId = request ∧ _ = answer := by simpa using heq
      refine ⟨rfl, nofun, fun _ _ => ?_⟩
      rw [map_perform]
      exact MapActor.notMem_leavePlayer
    | applyCombatBuff playerId buff =>
      have hnew : (g.perform (.applyCombatBuff playerId buff)).Inv :=
        h.perform trivial trivial nofun
      refine hnew.of_setAsk (fun request answer heq => ?_) (by simp [ask_perform, hask])
      obtain ⟨rfl, -⟩ : .applyCombatBuff playerId buff = request ∧ _ = answer := by
        simpa using heq
      exact ⟨trivial, nofun, nofun⟩
    | _ => exact hasks.elim
  | @resumed p request reply hask =>
    have hasks := h.asks p request _ hask
    refine h.at_player ⟨PlayerActor.profile_resume _ _ _ _, PlayerActor.registryName_resume _ _ _ _⟩
      nofun fun hp => ?_
    cases request with
    | enterPlayer msg =>
      obtain ⟨⟨join, rfl⟩, -⟩ := h.joined p msg reply hask
      simp only [mirrorOf, hask]
      rfl
    | leavePlayer playerId =>
      obtain rfl : playerId = p := hasks
      exact absurd hp (h.left playerId reply hask)
    | applyCombatBuff playerId buff =>
      rw [mirrorOf_eq (by simp [hask])]
      rfl
    | _ => exact hasks.elim
  | @other msg hlocal =>
    cases msg with
    | attachLocalPlayer playerId player => exact h.perform hlocal trivial nofun
    | applyCombatBuff playerId buff => exact h.perform trivial trivial nofun
    | updateVitals playerId vitals => exact h.perform trivial trivial nofun
    | advanceTick tick => exact h.perform trivial horder nofun
    | _ => exact hlocal.elim
  | @arrive i p name post htask hname =>
    rw [(h.actor p).2] at hname
    exact h.arrive (hname ▸ htask)
  | process hidle hmail => exact h.process hidle hmail horder

end Steps

end Game

open Game

variable [Mul F] [One F]

/-- **Mirrors converge.** In a run in order, whenever no event is on its way, every mirror shows the
player and exactly the other players as the map has them. -/
theorem mirrors_converge (mapId : String) (entryBuffs : List (CombatBuff F))
    (profile : PlayerId → String × Option String) {es : List (Event F)} {g : Game F}
    (run : Run (fun g e g' => Step g e g' ∧ g.InOrder e) (.init mapId entryBuffs profile) es g)
    (hquiet : g.tasks = [] ∧ ∀ p, g.mailbox p = []) {p : PlayerId} {entry : MapPlayer F}
    (hp : g.map.players[p]? = some entry) :
    ∃ mirror, (g.actor p).mirror = some mirror ∧ mirror.own = entry.view ∧
      mirror.others.Perm ((g.map.players.vals.filter fun e => e.profile.id ≠ p).map
        MapPlayer.view) := by
  have hinv : g.Inv := run.invariant (P := Inv) (.init mapId entryBuffs profile)
    fun g e g' h hstep => h.step hstep.1 hstep.2
  have hnone : ∀ n q shown, ¬g.Underway p n q shown := by
    rintro n q shown ⟨post, hpost | hpost, -⟩
    · simp [hquiet.2 p] at hpost
    · simp [hquiet.1] at hpost
  have hmem : p ∈ g.map.players := Std.ExtTreeMap.mem_iff_isSome_getElem?.mpr (by simp [hp])
  obtain ⟨mirror, hm, hformed, hstep⟩ := hinv.follows p hmem
  have hshows : mirror.shows p = g.map.views := hstep.copy_eq hnone
  refine ⟨mirror, ?_, ?_, ?_⟩
  · -- the event of an entry is on its way as long as the player waits for the answer
    rw [← hm, mirrorOf_eq fun msg join hask => ?_]
    obtain ⟨-, shown, hshown⟩ := hinv.joined p msg _ hask
    exact hnone _ _ _ hshown
  · have hown := congrFun hshows p
    rw [MapMirror.shows_self, MapActor.views, hp] at hown
    exact Option.some.inj hown
  · refine perm_of_findBy hformed.nodup (MapActor.nodup_othersOf hinv.linked.keyed p) fun q => ?_
    show findBy _ mirror.others q = findBy _ (g.map.othersOf p) q
    by_cases hq : q = p
    · subst hq
      rw [findBy_eq_none hformed.notMem, findBy_eq_none (MapActor.notMem_othersOf q)]
    · rw [MapActor.findBy_othersOf hinv.linked.keyed hq, ← hshows, MapMirror.shows, if_neg hq]

section Examples

def arenaGame : Game ℕ := .init "arena" [] fun p => ("Player " ++ toString p.toNat, none)

/-- Players 7 and 8 enter, player 7 loses health, and all events reach them. -/
def entryEvents : List (Event ℕ) :=
  [.enterMap 7 ⟨18, 140⟩, .executed 7, .resumed 7, .enterMap 8 ⟨90, 140⟩, .executed 8, .resumed 8,
    .other (.updateVitals 7 ⟨10, 140⟩), .arrive 0 7, .arrive 0 7, .arrive 0 8, .arrive 0 7,
    .arrive 0 8, .process 7, .process 7, .process 7, .process 8, .process 8]

/-- The first event of a mailbox is news that the mirror does not pass over. -/
theorem inOrder_process {g : Game ℕ} {p : PlayerId} {mirror : MapMirror ℕ} {post : Post ℕ}
    {posts : List (Post ℕ)} (hm : (g.actor p).mirror = some mirror)
    (hmail : g.mailbox p = post :: posts)
    (h : mirror.shows p post.event.subject = post.event.shown ∨
      post.stamp = g.newest p post.event.subject ∧ ¬mirror.Drops post.event) :
    g.InOrder (.process p) := by
  intro mirror' post' posts' hm' hmail'
  obtain ⟨⟩ := hm.symm.trans hm'
  obtain ⟨rfl, -⟩ := List.cons.inj (hmail.symm.trans hmail')
  refine h.imp_right fun ⟨hstamp, hdrops⟩ => ?_
  rwa [if_pos hstamp]

theorem entryEvents_run : ∃ g entry,
    Run (fun g e g' => Step g e g' ∧ g.InOrder e) arenaGame entryEvents g ∧
      (g.tasks = [] ∧ ∀ p, g.mailbox p = []) ∧ g.map.players[(7 : PlayerId)]? = some entry ∧
      entry.vitals = ⟨10, 140⟩ ∧ (8 : PlayerId) ∈ g.map.players := by
  refine ⟨_, _, .cons ⟨.enterMap rfl _, trivial⟩ <| .cons ⟨.executed rfl, trivial⟩ <|
    .cons ⟨.resumed rfl, trivial⟩ <| .cons ⟨.enterMap rfl _, trivial⟩ <|
    .cons ⟨.executed rfl, trivial⟩ <| .cons ⟨.resumed rfl, trivial⟩ <|
    .cons ⟨.other trivial, trivial⟩ <| .cons ⟨.arrive rfl rfl, trivial⟩ <|
    .cons ⟨.arrive rfl rfl, trivial⟩ <| .cons ⟨.arrive rfl rfl, trivial⟩ <|
    .cons ⟨.arrive rfl rfl, trivial⟩ <| .cons ⟨.arrive rfl rfl, trivial⟩ <|
    .cons ⟨.process rfl rfl, inOrder_process rfl rfl (.inl rfl)⟩ <|
    .cons ⟨.process rfl rfl, inOrder_process rfl rfl (.inr ⟨rfl, by decide +kernel⟩)⟩ <|
    .cons ⟨.process rfl rfl, inOrder_process rfl rfl (.inr ⟨rfl, by decide +kernel⟩)⟩ <|
    .cons ⟨.process rfl rfl, inOrder_process rfl rfl (.inl rfl)⟩ <|
    .cons ⟨.process rfl rfl, inOrder_process rfl rfl (.inr ⟨rfl, by decide +kernel⟩)⟩ .nil,
    ⟨rfl, fun p => ?_⟩, rfl, rfl, rfl⟩
  by_cases h7 : p = 7
  · subst h7
    rfl
  · by_cases h8 : p = 8
    · subst h8
      rfl
    · simp only [setMailbox, setActor, setAsk, update_of_ne h7, update_of_ne h8]
      rfl

theorem mirrors_converge_entry : ∃ g entry mirror, Run Step arenaGame entryEvents g ∧
    g.map.players[(7 : PlayerId)]? = some entry ∧ entry.vitals = ⟨10, 140⟩ ∧
    (8 : PlayerId) ∈ g.map.players ∧ (g.actor 7).mirror = some mirror ∧
    mirror.own = entry.view ∧ mirror.others.Perm ((g.map.players.vals.filter fun e =>
      e.profile.id ≠ 7).map MapPlayer.view) := by
  obtain ⟨g, entry, run, hquiet, hentry, hvitals, hother⟩ := entryEvents_run
  obtain ⟨mirror, hmirror⟩ := mirrors_converge _ _ _ run hquiet hentry
  exact ⟨g, entry, mirror, run.imp fun _ _ _ h => h.1, hentry, hvitals, hother, hmirror⟩

/-- **Events that overtake each other.** The vitals of player 7 change twice in one tick, and the
first change stays in the mirror. -/
theorem swapped_events_leave_old_mirror : ∃ es g entry mirror, Run Step arenaGame es g ∧
    (g.tasks = [] ∧ ∀ p, g.mailbox p = []) ∧ g.map.players[(7 : PlayerId)]? = some entry ∧
    (g.actor 7).mirror = some mirror ∧ mirror.own ≠ entry.view := by
  refine ⟨[.enterMap 7 ⟨18, 140⟩, .executed 7, .resumed 7, .other (.updateVitals 7 ⟨10, 140⟩),
    .other (.updateVitals 7 ⟨5, 140⟩), .arrive 0 7, .process 7, .arrive 1 7, .arrive 0 7,
    .process 7, .process 7], _, _, _, .cons (.enterMap rfl _) <| .cons (.executed rfl) <|
    .cons (.resumed rfl) <| .cons (.other trivial) <| .cons (.other trivial) <|
    .cons (.arrive rfl rfl) <| .cons (.process rfl rfl) <| .cons (.arrive rfl rfl) <|
    .cons (.arrive rfl rfl) <| .cons (.process rfl rfl) <| .cons (.process rfl rfl) .nil,
    ⟨rfl, fun p => ?_⟩, rfl, rfl, ?_⟩
  · by_cases hp : p = 7
    · subst hp
      rfl
    · simp only [setMailbox, setActor, setAsk, update_of_ne hp]
      rfl
  · decide +kernel

end Examples

end RustExample.GameServer
