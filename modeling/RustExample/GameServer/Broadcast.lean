import RustExample.Foundation.Run
import RustExample.GameServer.Actors
import Std.Data.String.ToNat

/-!
# A map, the players in it and the events on their way

One map tells the players in it what changed. An event to a player with a local link goes into the
mailbox of the player at once; another one is sent by a task of its own, which may take any time.
A player who waits for an answer of the map reads no mail.

Source: `bevy_workspace_example/game_server/src/actor/map.rs`, `player.rs`, `bridge.rs`.

* Every question of a player to the map is answered, and every task reaches the player.
* `clock` and `newest` are a record of the run beside the program: every broadcast has a number,
  and `newest p q` is the number of the last news about `q` that `p` was sent or got by entering.
-/

namespace RustExample.GameServer

variable {F : Type}

/-! ### Events and mirrors -/

namespace MapEvent

/-- The map of an event. -/
def mapId : MapEvent F → String
  | .entered mapId _ _ | .stateChanged mapId _ _ | .left mapId _ _ => mapId

/-- What an event tells about its subject. -/
def shown : MapEvent F → Option (MapPlayerView F)
  | .entered _ _ player | .stateChanged _ _ player => some player
  | .left _ _ _ => none

theorem subject_eq_of_shown {e : MapEvent F} {player : MapPlayerView F}
    (h : e.shown = some player) : e.subject = player.profile.id := by
  cases e with
  | left _ _ _ => simp [shown] at h
  | _ => exact congrArg (·.profile.id) (Option.some.inj h)

theorem eq_left_of_shown {e : MapEvent F} (h : e.shown = none) :
    ∃ mapId tick playerId, e = .left mapId tick playerId := by
  cases e with
  | left mapId tick playerId => exact ⟨mapId, tick, playerId, rfl⟩
  | _ => simp [shown] at h

end MapEvent

namespace MapMirror

/-- What the mirror of the player `p` shows of a player. -/
def shows (m : MapMirror F) (p q : PlayerId) : Option (MapPlayerView F) :=
  if q = p then some m.own else findBy (·.profile.id) m.others q

/-- The events that the mirror passes over as too old. -/
def Drops (m : MapMirror F) : MapEvent F → Prop
  | .entered _ tick _ | .stateChanged _ tick _ => tick < m.tick
  | .left _ _ _ => False

instance (m : MapMirror F) : (e : MapEvent F) → Decidable (m.Drops e)
  | .entered _ tick _ | .stateChanged _ tick _ => inferInstanceAs (Decidable (tick < m.tick))
  | .left _ _ _ => inferInstanceAs (Decidable False)

/-- A mirror of the player `p` and of the map. -/
structure Formed (m : MapMirror F) (p : PlayerId) (mapId : String) : Prop where
  mapId_eq : m.mapId = mapId
  own_id : m.own.profile.id = p
  nodup : (m.others.map (·.profile.id)).Nodup
  notMem : p ∉ m.others.map (·.profile.id)

/-- The mirror of the player `p` after an event of the map. -/
def told (m : MapMirror F) (p : PlayerId) : MapEvent F → MapMirror F
  | .entered _ tick player | .stateChanged _ tick player =>
    if tick < m.tick then m
    else if player.profile.id = p then { m with tick, own := player }
    else { m with tick, others := upsertBy (·.profile.id) m.others player }
  | .left _ _ playerId =>
    { m with others := m.others.filter fun view => view.profile.id ≠ playerId }

variable {m : MapMirror F} {p q : PlayerId} {e : MapEvent F} {mapId : String}

theorem told_of_drops (h : m.Drops e) : m.told p e = m := by
  cases e with
  | entered _ tick player => exact if_pos h
  | stateChanged _ tick player => exact if_pos h
  | left _ _ _ => exact h.elim

theorem told_of_not_drops {player : MapPlayerView F} (h : ¬m.Drops e) (he : e.shown = some player) :
    ∃ tick, m.told p e = if player.profile.id = p then { m with tick, own := player }
      else { m with tick, others := upsertBy (·.profile.id) m.others player } := by
  cases e with
  | entered _ tick _ =>
    obtain ⟨⟩ := he
    exact ⟨tick, if_neg h⟩
  | stateChanged _ tick _ =>
    obtain ⟨⟩ := he
    exact ⟨tick, if_neg h⟩
  | left _ _ _ => simp [MapEvent.shown] at he

theorem Formed.told (h : m.Formed p mapId) : (m.told p e).Formed p mapId := by
  by_cases hd : m.Drops e
  · rw [told_of_drops hd]
    exact h
  cases he : e.shown with
  | some player =>
    obtain ⟨tick, htold⟩ := told_of_not_drops (p := p) hd he
    rw [htold]
    split_ifs with hp
    · exact ⟨h.mapId_eq, hp, h.nodup, h.notMem⟩
    · refine ⟨h.mapId_eq, h.own_id, nodup_upsertBy h.nodup player, fun hmem => ?_⟩
      obtain ⟨view, hview, rfl⟩ := List.mem_map.mp hmem
      rcases eq_or_mem_of_mem_upsertBy hview with rfl | hview
      · exact hp rfl
      · exact h.notMem (List.mem_map_of_mem hview)
  | none =>
    obtain ⟨_, tick, playerId, rfl⟩ := MapEvent.eq_left_of_shown he
    have hsub := (List.filter_sublist (l := m.others)
      (p := fun view => decide (view.profile.id ≠ playerId))).map (·.profile.id)
    exact ⟨h.mapId_eq, h.own_id, h.nodup.sublist hsub, fun hmem => h.notMem (hsub.subset hmem)⟩

/-- An event changes what the mirror shows of its subject only. -/
theorem shows_told_of_ne (hq : q ≠ e.subject) : (m.told p e).shows p q = m.shows p q := by
  by_cases hd : m.Drops e
  · rw [told_of_drops hd]
  cases he : e.shown with
  | some player =>
    obtain ⟨tick, htold⟩ := told_of_not_drops (p := p) hd he
    rw [MapEvent.subject_eq_of_shown he] at hq
    rw [htold]
    split_ifs with hp
    · subst hp
      simp [shows, hq]
    · simp [shows, findBy_upsertBy, Ne.symm hq]
  | none =>
    obtain ⟨_, tick, playerId, rfl⟩ := MapEvent.eq_left_of_shown he
    have hq : q ≠ playerId := hq
    simp only [told, shows, findBy_filter_ne, if_neg hq]

/-- An event that is not passed over is shown; a player does not leave its own mirror. -/
theorem shows_told (hd : ¬m.Drops e) (hown : e.subject = p → e.shown ≠ none) :
    (m.told p e).shows p e.subject = e.shown := by
  cases he : e.shown with
  | some player =>
    obtain ⟨tick, htold⟩ := told_of_not_drops (p := p) hd he
    rw [MapEvent.subject_eq_of_shown he, htold]
    split_ifs with hp
    · simp [shows, hp]
    · simp [shows, findBy_upsertBy, hp]
  | none =>
    have hp : e.subject ≠ p := fun hp => hown hp he
    obtain ⟨_, tick, playerId, rfl⟩ := MapEvent.eq_left_of_shown he
    have hp : playerId ≠ p := hp
    simp only [MapEvent.subject, told, shows, findBy_filter_ne, if_neg hp, if_true]

theorem shows_self : m.shows p p = some m.own := if_pos rfl

/-- An event that tells what the mirror shows changes nothing that is shown. -/
theorem shows_told_of_eq (h : m.shows p e.subject = e.shown) :
    (m.told p e).shows p e.subject = e.shown := by
  by_cases hd : m.Drops e
  · rw [told_of_drops hd, h]
  · refine shows_told hd fun hp hnone => ?_
    rw [hp, shows_self, hnone] at h
    simp at h

end MapMirror

namespace PlayerActor

variable {κ : Type} {a : PlayerActor κ F} {m : MapMirror F}

/-- An event changes the mirror of a player only. -/
theorem fixed_applyMapEvent (a : PlayerActor κ F) (e : MapEvent F) :
    (a.applyMapEvent e).profile = a.profile ∧
      (a.applyMapEvent e).registryName = a.registryName := by
  unfold applyMapEvent refresh
  repeat' split
  all_goals exact ⟨rfl, rfl⟩

theorem refresh_eq (hm : a.mirror = some m) (tick : ℕ) (player : MapPlayerView F) :
    a.refresh m.mapId tick player =
      { a with mirror := some (m.told a.profile.id (.entered m.mapId tick player)) } := by
  simp only [refresh, hm, MapMirror.told]
  by_cases htick : tick < m.tick
  · rw [if_pos (.inr htick), if_pos htick, ← hm]
  · rw [if_neg (by simpa using htick), if_neg htick]
    split_ifs <;> rfl

theorem applyMapEvent_eq {e : MapEvent F} (hm : a.mirror = some m) (hmap : m.mapId = e.mapId) :
    a.applyMapEvent e = { a with mirror := some (m.told a.profile.id e) } := by
  cases e with
  | left mapId tick playerId =>
    obtain rfl : m.mapId = mapId := hmap
    simp only [applyMapEvent, hm, MapMirror.told, if_true]
  | entered mapId tick player =>
    obtain rfl : m.mapId = mapId := hmap
    exact refresh_eq hm tick player
  | stateChanged mapId tick player =>
    obtain rfl : m.mapId = mapId := hmap
    exact refresh_eq hm tick player

end PlayerActor

/-! ### What a map tells -/

namespace MapActor

variable [Mul F] [One F]

/-- What the players of a map look like. -/
def views (m : MapActor F) (q : PlayerId) : Option (MapPlayerView F) :=
  m.players[q]?.map MapPlayer.view

/-- Every entry of a map has the id of its player. -/
def Keyed (m : MapActor F) : Prop :=
  ∀ (q : PlayerId) (e : MapPlayer F), m.players[q]? = some e → e.profile.id = q

/-- The ticks that change no buff of a player without ending one. -/
def TellsTicks (m : MapActor F) : MapMessage F → Prop
  | .advanceTick tick => tick - m.serverTick = 0 ∨ ∀ (q : PlayerId) (e : MapPlayer F),
      m.players[q]? = some e → (e.elapse (tick - m.serverTick)).buffs = e.buffs ∨
        (e.elapse (tick - m.serverTick)).buffs.length ≠ e.buffs.length
  | _ => True

variable {m : MapActor F} {msg : MapMessage F} {e : MapEvent F} {q : PlayerId}

omit [Mul F] [One F] in
@[simp] theorem fixed_foldl_upsertBuff (buffs : List (CombatBuff F)) (p : MapPlayer F) :
    (buffs.foldl MapPlayer.upsertBuff p).profile = p.profile ∧
      (buffs.foldl MapPlayer.upsertBuff p).registryName = p.registryName ∧
      (buffs.foldl MapPlayer.upsertBuff p).link = p.link := by
  induction buffs generalizing p with
  | nil => exact ⟨rfl, rfl, rfl⟩
  | cons buff buffs ih => exact ih (p.upsertBuff buff)

theorem views_of_players {p : MapPlayer F} (h : m.players[p.profile.id]? = some p) :
    m.views p.profile.id = some p.view := by
  rw [views, h, Option.map_some]

/-- An event tells what the map has of its subject. -/
theorem shown_of_mem_events (hm : m.Keyed) (he : e ∈ (m.handle msg).events) :
    e.mapId = m.mapId ∧ e.shown = (m.handle msg).map.views e.subject := by
  cases msg with
  | enterPlayer msg =>
    obtain rfl := List.mem_singleton.mp he
    have hid : (m.entryOf msg).profile.id = msg.profile.id :=
      congrArg (·.id) (fixed_foldl_upsertBuff _ _).1
    exact ⟨rfl, (views_of_players (by simp [handle, hid])).symm⟩
  | attachLocalPlayer playerId player =>
    revert he
    simp only [handle, attachLocalPlayer]
    cases m.players[playerId]? <;> simp
  | applyCombatBuff playerId buff =>
    cases hentry : m.players[playerId]? with
    | none => simp [handle, applyCombatBuff, hentry] at he
    | some entry =>
      obtain rfl : e = .stateChanged m.mapId m.serverTick (entry.upsertBuff buff).view := by
        simpa [handle, applyCombatBuff, hentry] using he
      have hid : (entry.upsertBuff buff).profile.id = playerId := hm _ entry hentry
      exact ⟨rfl, (views_of_players (by simp [handle, hid, hentry])).symm⟩
  | leavePlayer playerId =>
    cases hentry : m.players[playerId]? with
    | none => simp [handle, leavePlayer, hentry] at he
    | some entry =>
      obtain rfl : e = .left m.mapId m.serverTick playerId := by
        simpa [handle, leavePlayer, hentry] using he
      exact ⟨rfl, by simp [handle, views, MapEvent.shown, MapEvent.subject]⟩
  | updateVitals playerId vitals =>
    cases hentry : m.players[playerId]? with
    | none => simp [handle, updateVitals, hentry] at he
    | some entry =>
      by_cases hv : entry.vitals = vitals
      · simp [handle, updateVitals, hentry, hv] at he
      · obtain rfl : e = .stateChanged m.mapId m.serverTick
            ({ entry with vitals } : MapPlayer F).view := by
          simpa [handle, updateVitals, hentry, hv] using he
        have hid : entry.profile.id = playerId := hm _ entry hentry
        exact ⟨rfl, (views_of_players (by simp [handle, hid, hentry])).symm⟩
  | advanceTick tick =>
    by_cases hdelta : tick - m.serverTick = 0
    · simp [handle, advanceTick, hdelta] at he
    · simp only [handle, advanceTick, if_neg hdelta] at he
      obtain ⟨p, hp, rfl⟩ := List.mem_map.mp he
      obtain ⟨k, hk⟩ := KeyStore.mem_vals.mp (List.mem_of_mem_filter hp)
      have hid : (p.elapse (tick - m.serverTick)).profile.id = k := hm _ p hk
      exact ⟨rfl, (views_of_players (by simp [handle, hdelta, hid, hk])).symm⟩

theorem views_handle_of_notMem (hm : m.Keyed) (hmsg : m.TellsTicks msg)
    (hq : ∀ e ∈ (m.handle msg).events, e.subject ≠ q) :
    (m.handle msg).map.views q = m.views q := by
  cases msg with
  | enterPlayer msg =>
    have hid : (m.entryOf msg).profile.id = msg.profile.id :=
      congrArg (·.id) (fixed_foldl_upsertBuff _ _).1
    have hne : msg.profile.id ≠ q := hid ▸ hq _ (List.mem_singleton_self _)
    simp [handle, views, hne]
  | attachLocalPlayer playerId player =>
    simp only [handle, views, players_attachLocalPlayer]
    split_ifs
    · cases m.players[q]? <;> rfl
    · rfl
  | applyCombatBuff playerId buff =>
    simp only [handle, views, players_applyCombatBuff]
    split_ifs with hp
    · subst hp
      cases hentry : m.players[playerId]? with
      | none => rfl
      | some entry =>
        refine absurd (hm _ _ hentry) (hq (.stateChanged m.mapId m.serverTick
          (entry.upsertBuff buff).view) ?_)
        simp [handle, applyCombatBuff, hentry]
    · rfl
  | leavePlayer playerId =>
    simp only [handle, views, players_leavePlayer]
    split_ifs with hp
    · subst hp
      cases hentry : m.players[playerId]? with
      | none => rfl
      | some entry =>
        refine absurd rfl (hq (.left m.mapId m.serverTick playerId) ?_)
        simp [handle, leavePlayer, hentry]
    · rfl
  | updateVitals playerId vitals =>
    simp only [handle, views, players_updateVitals]
    split_ifs with hp
    · subst hp
      cases hentry : m.players[playerId]? with
      | none => rfl
      | some entry =>
        by_cases hv : entry.vitals = vitals
        · rw [← hv]
          rfl
        · refine absurd (hm _ _ hentry) (hq (.stateChanged m.mapId m.serverTick
            ({ entry with vitals } : MapPlayer F).view) ?_)
          simp [handle, updateVitals, hentry, hv]
    · rfl
  | advanceTick tick =>
    simp only [handle, views, players_advanceTick]
    split_ifs with hdelta
    · rfl
    · cases hentry : m.players[q]? with
      | none => rfl
      | some entry =>
        -- the buffs are as many as before, so the condition leaves them as they were
        have hlen : (entry.elapse (tick - m.serverTick)).buffs.length = entry.buffs.length := by
          by_contra hlen
          refine absurd (hm _ _ hentry) (hq (.stateChanged m.mapId tick
            (entry.elapse (tick - m.serverTick)).view) ?_)
          simp only [handle, advanceTick, if_neg hdelta]
          exact List.mem_map.mpr ⟨entry, List.mem_filter.mpr
            ⟨KeyStore.mem_vals.mpr ⟨q, hentry⟩, by simpa using hlen⟩, rfl⟩
        have hbuffs := ((hmsg.resolve_left hdelta) q entry hentry).resolve_right
          (not_not_intro hlen)
        simp only [Option.map_some, MapPlayer.view, hbuffs]
        rfl

end MapActor

/-! ### The game -/

/-- The name under which the actor of a player is registered. -/
def registryName (clientId : PlayerId) : String := "player:" ++ toString clientId.toNat

theorem registryName_injective : Function.Injective registryName := by
  intro p q h
  exact UInt64.toNat_inj.mp (Nat.repr_injective (String.append_right_inj _ |>.mp h))

/-- An event with the number of its broadcast. -/
structure Post (F : Type) where
  stamp : ℕ
  event : MapEvent F

/-- The map with its players. -/
structure Game (F : Type) where
  map : MapActor F
  actor : PlayerId → PlayerActor Unit F
  ask : PlayerId → Option (Ask Unit F)
  /-- The events that a task of their own brings to the player of a name. -/
  tasks : List (String × Post F)
  mailbox : PlayerId → List (Post F)
  clock : ℕ
  newest : PlayerId → PlayerId → ℕ

namespace Game

/-- Nobody is in the map. -/
def init (mapId : String) (entryBuffs : List (CombatBuff F))
    (profile : PlayerId → String × Option String) : Game F where
  map := .new mapId entryBuffs
  actor p := .new ⟨p, (profile p).1, (profile p).2⟩ (registryName p)
  ask _ := none
  tasks := []
  mailbox _ := []
  clock := 1
  newest _ _ := 0

/-- Tell every player in the map about an event. -/
def publish (g : Game F) (event : MapEvent F) : Game F :=
  let post := ⟨g.clock, event⟩
  { g with
    tasks := g.tasks ++ g.map.broadcast.filterMap fun
      | .direct _ => none
      | .spawned name => some (name, post)
    mailbox := fun p => g.mailbox p ++
      (g.map.broadcast.filter (· = .direct p)).map fun _ => post
    clock := g.clock + 1
    newest := fun p q =>
      if p ∈ g.map.players ∧ q = event.subject then g.clock else g.newest p q }

/-- What may happen. -/
inductive Event (F : Type) where
  | enterMap (p : PlayerId) (vitals : MapVitals)
  | leaveMap (p : PlayerId)
  | requestCombatBuff (p : PlayerId) (buff : CombatBuff F)
  /-- The map handles the question of a player. -/
  | executed (p : PlayerId)
  | resumed (p : PlayerId)
  /-- The map handles a message of another actor. -/
  | other (msg : MapMessage F)
  /-- A task puts its event into the mailbox of the player. -/
  | arrive (i : ℕ) (p : PlayerId)
  /-- A player handles the first event of its mailbox. -/
  | process (p : PlayerId)

section Steps

variable [Mul F] [One F]

/-- The map handles a message; an entry tells the player about everybody. -/
def perform (g : Game F) (msg : MapMessage F) : Game F :=
  (g.map.handle msg).events.foldl publish
    { g with
      map := (g.map.handle msg).map
      newest := match msg with
        | .enterPlayer msg => Function.update g.newest msg.profile.id fun _ => g.clock
        | _ => g.newest }

end Steps

/-- Changes a player. -/
def setActor (g : Game F) (p : PlayerId) (a : PlayerActor Unit F) : Game F :=
  { g with actor := Function.update g.actor p a }

/-- Changes the question of a player. -/
def setAsk (g : Game F) (p : PlayerId) (ask : Option (Ask Unit F)) : Game F :=
  { g with ask := Function.update g.ask p ask }

/-- Changes the mailbox of a player. -/
def setMailbox (g : Game F) (p : PlayerId) (posts : List (Post F)) : Game F :=
  { g with mailbox := Function.update g.mailbox p posts }

/-- The messages that come from the node of the map, or from anyone. -/
def IsLocal (m : MapActor F) : MapMessage F → Prop
  | .attachLocalPlayer playerId player => player = playerId
  | .applyCombatBuff _ _ | .updateVitals _ _ => True
  | .advanceTick tick => m.serverTick ≤ tick
  | .enterPlayer _ | .leavePlayer _ => False

/-- One step of a player, of the map or of a task. -/
inductive Step [Mul F] [One F] : Game F → Event F → Game F → Prop
  | enterMap {g : Game F} {p : PlayerId} (hidle : g.ask p = none) (vitals : MapVitals) :
      Step g (.enterMap p vitals) ((g.setActor p ((g.actor p).enterMap vitals).1).setAsk p
        (some ⟨(), .enterPlayer ((g.actor p).enterMap vitals).2, none⟩))
  | leaveMap {g : Game F} {p : PlayerId} (hidle : g.ask p = none) :
      Step g (.leaveMap p) ((g.setActor p (g.actor p).leaveMap.1).setAsk p
        ((g.actor p).leaveMap.2.map fun _ => ⟨(), .leavePlayer p, none⟩))
  | requestCombatBuff {g : Game F} {p : PlayerId} (hidle : g.ask p = none)
      (buff : CombatBuff F) :
      Step g (.requestCombatBuff p buff) (g.setAsk p
        ((g.actor p).mapLink.map fun _ => ⟨(), .applyCombatBuff p buff, none⟩))
  | executed {g : Game F} {p : PlayerId} {request : MapMessage F}
      (h : g.ask p = some ⟨(), request, none⟩) :
      Step g (.executed p) ((g.perform request).setAsk p
        (some ⟨(), request, some (some (g.map.handle request).reply)⟩))
  | resumed {g : Game F} {p : PlayerId} {request : MapMessage F} {reply : Option (MapReply F)}
      (h : g.ask p = some ⟨(), request, some reply⟩) :
      Step g (.resumed p) ((g.setActor p ((g.actor p).resume () request reply)).setAsk p none)
  | other {g : Game F} {msg : MapMessage F} (h : IsLocal g.map msg) :
      Step g (.other msg) (g.perform msg)
  | arrive {g : Game F} {i : ℕ} {p : PlayerId} {name : String} {post : Post F}
      (h : g.tasks[i]? = some (name, post)) (hname : (g.actor p).registryName = name) :
      Step g (.arrive i p)
        ({ g with tasks := g.tasks.eraseIdx i }.setMailbox p (g.mailbox p ++ [post]))
  | process {g : Game F} {p : PlayerId} {post : Post F} {posts : List (Post F)}
      (hidle : g.ask p = none) (h : g.mailbox p = post :: posts) :
      Step g (.process p)
        ((g.setActor p ((g.actor p).applyMapEvent post.event)).setMailbox p posts)

/-! ### Events on their way -/

/-- The event is on its way to the player. -/
def InFlight (g : Game F) (p : PlayerId) (post : Post F) : Prop :=
  post ∈ g.mailbox p ∨ (registryName p, post) ∈ g.tasks

/-- Some news about `q` under the number `n` are on their way to the player `p`. -/
def Underway (g : Game F) (p : PlayerId) (n : ℕ) (q : PlayerId) (shown : Option (MapPlayerView F)) :
    Prop :=
  ∃ post, g.InFlight p post ∧ post.stamp = n ∧ post.event.subject = q ∧ post.event.shown = shown

/-- **The steps that keep mirrors right.** A tick changes no buff without ending one. An event that
the mirror does not show already: it is not passed over if it is the last news about its subject,
and it is if that was handled before. -/
def InOrder [Mul F] [One F] (g : Game F) : Event F → Prop
  | .other msg => g.map.TellsTicks msg
  | .process p => ∀ mirror post posts, (g.actor p).mirror = some mirror →
      g.mailbox p = post :: posts →
      mirror.shows p post.event.subject = post.event.shown ∨
        if post.stamp = g.newest p post.event.subject then ¬mirror.Drops post.event
        else (∀ shown, ¬g.Underway p (g.newest p post.event.subject) post.event.subject shown) →
          mirror.Drops post.event
  | _ => True

end Game

end RustExample.GameServer
