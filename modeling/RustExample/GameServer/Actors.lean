import RustExample.Foundation.KeyStore
import RustExample.Foundation.Upsert

/-!
# The player and map actors of the game server

A map actor owns the combat buffs of the players in it. A player actor keeps a copy of what its
map shows, and holds the portable buffs while it is on no map. The two ask each other by messages;
a map tells every player in it what changed.

Source: `bevy_workspace_example/game_server/src/actor/map.rs`, `player.rs`, `types.rs`.

* The multipliers are of any type with a product and a one.
* A handler that waits for the answer of another actor is two functions, one up to the `await` and
  one from it on.
* A link to an actor is the identity of the actor: `κ` for maps, `PlayerId` for players. A local
  and a remote link of a map are asked in the same way.
* The players of a map are listed in the order of their ids.
-/

namespace RustExample.GameServer

/-! ### Values -/

/-- The number of a player. -/
abbrev PlayerId := UInt64

/-- Who a player is. -/
structure PlayerProfile where
  id : PlayerId
  name : String
  room : Option String
  deriving DecidableEq

/-- A buff of the fight. -/
structure CombatBuff (F : Type) where
  id : String
  damageTakenMult : F
  moveSpeedMult : F
  /-- The duration left in ticks; without one the buff lasts until the player leaves the map. -/
  remainingTicks : Option ℕ
  /-- Whether the buff goes with the player to another map. -/
  portable : Bool
  deriving DecidableEq

/-- The modifiers of a player. -/
structure EffectiveModifiers (F : Type) where
  damageTakenMult : F
  moveSpeedMult : F
  deriving DecidableEq

/-- The vitals of a player. -/
structure MapVitals where
  red : Int32
  blue : Int32
  deriving DecidableEq

/-- A player as others see it. -/
structure MapPlayerView (F : Type) where
  profile : PlayerProfile
  vitals : MapVitals
  buffs : List (CombatBuff F)
  effective : EffectiveModifiers F
  deriving DecidableEq

/-- What a map tells its players. -/
inductive MapEvent (F : Type) where
  | entered (mapId : String) (tick : ℕ) (player : MapPlayerView F)
  | stateChanged (mapId : String) (tick : ℕ) (player : MapPlayerView F)
  | left (mapId : String) (tick : ℕ) (playerId : PlayerId)
  deriving DecidableEq

/-- The player that an event is about. -/
def MapEvent.subject {F : Type} : MapEvent F → PlayerId
  | .entered _ _ player | .stateChanged _ _ player => player.profile.id
  | .left _ _ playerId => playerId

variable {F : Type} [Mul F] [One F]

/-- The product of the buffs' modifiers. -/
def EffectiveModifiers.fromBuffs (buffs : List (CombatBuff F)) : EffectiveModifiers F :=
  buffs.foldl (fun acc buff => ⟨acc.damageTakenMult * buff.damageTakenMult,
    acc.moveSpeedMult * buff.moveSpeedMult⟩) ⟨1, 1⟩

/-! ### Maps -/

/-- A player in a map. -/
structure MapPlayer (F : Type) where
  registryName : String
  link : Option PlayerId
  profile : PlayerProfile
  vitals : MapVitals
  buffs : List (CombatBuff F)

namespace MapPlayer

/-- The view of a player. -/
def view (p : MapPlayer F) : MapPlayerView F :=
  ⟨p.profile, p.vitals, p.buffs, .fromBuffs p.buffs⟩

/-- The buff takes the place of the one with its id. -/
def upsertBuff (p : MapPlayer F) (buff : CombatBuff F) : MapPlayer F :=
  { p with buffs := upsertBy (·.id) p.buffs buff }

/-- The buffs after some more ticks, without those that have run out. -/
def elapse (p : MapPlayer F) (delta : ℕ) : MapPlayer F :=
  { p with
    buffs := (p.buffs.map fun buff =>
      { buff with remainingTicks := buff.remainingTicks.map (· - delta) }).filter fun buff =>
        buff.remainingTicks ≠ some 0 }

end MapPlayer

/-- The state of a map. -/
structure MapActor (F : Type) where
  mapId : String
  entryBuffs : List (CombatBuff F)
  serverTick : ℕ
  players : KeyStore PlayerId (MapPlayer F)

/-- The question to enter. -/
structure EnterPlayer (F : Type) where
  profile : PlayerProfile
  registryName : String
  vitals : MapVitals
  portableBuffs : List (CombatBuff F)

/-- What a player learns on entry. -/
structure MapJoinInfo (F : Type) where
  mapId : String
  tick : ℕ
  own : MapPlayerView F
  others : List (MapPlayerView F)
  deriving DecidableEq

/-- The messages that change a map. -/
inductive MapMessage (F : Type) where
  | enterPlayer (msg : EnterPlayer F)
  | attachLocalPlayer (playerId player : PlayerId)
  | applyCombatBuff (playerId : PlayerId) (buff : CombatBuff F)
  | leavePlayer (playerId : PlayerId)
  | updateVitals (playerId : PlayerId) (vitals : MapVitals)
  | advanceTick (tick : ℕ)

/-- The answers of a map. -/
inductive MapReply (F : Type) where
  | joined (join : MapJoinInfo F)
  | applied (view : Option (MapPlayerView F))
  | left (portable : Option (List (CombatBuff F)))
  | done

/-- What a handler of a map leaves, answers and tells the players, in this order. -/
structure Handled (F : Type) where
  map : MapActor F
  reply : MapReply F
  events : List (MapEvent F)

/-- The two ways of telling a player: directly, or by a task that looks its name up first. -/
inductive Delivery where
  | direct (player : PlayerId)
  | spawned (registryName : String)
  deriving DecidableEq

namespace MapActor

/-- A map without players. -/
def new (mapId : String) (entryBuffs : List (CombatBuff F)) : MapActor F :=
  ⟨mapId, entryBuffs, 0, ∅⟩

/-- Sends an event to all players. -/
def broadcast (m : MapActor F) : List Delivery :=
  m.players.vals.map fun p => match p.link with
    | some player => .direct player
    | none => .spawned p.registryName

/-- The entry of a player who enters: it is new, or it was there already. -/
def entryOf (m : MapActor F) (msg : EnterPlayer F) : MapPlayer F :=
  let entry := m.players[msg.profile.id]?.getD
    ⟨msg.registryName, none, msg.profile, msg.vitals, m.entryBuffs⟩
  msg.portableBuffs.foldl MapPlayer.upsertBuff
    { entry with registryName := msg.registryName, profile := msg.profile }

/-- A player enters. -/
def enterPlayer (m : MapActor F) (msg : EnterPlayer F) : Handled F :=
  let playerId := msg.profile.id
  let others := (m.players.vals.filter fun p => p.profile.id ≠ playerId).map MapPlayer.view
  let player := m.entryOf msg
  { map := { m with players := m.players.insert playerId player }
    reply := .joined ⟨m.mapId, m.serverTick, player.view, others⟩
    events := [.entered m.mapId m.serverTick player.view] }

/-- A player is linked to its actor. -/
def attachLocalPlayer (m : MapActor F) (playerId player : PlayerId) : Handled F :=
  match m.players[playerId]? with
  | some entry =>
    { map := { m with players := m.players.insert playerId { entry with link := some player } }
      reply := .done, events := [] }
  | none => ⟨m, .done, []⟩

/-- A player gets a buff. -/
def applyCombatBuff (m : MapActor F) (playerId : PlayerId) (buff : CombatBuff F) : Handled F :=
  match m.players[playerId]? with
  | some entry =>
    let player := entry.upsertBuff buff
    { map := { m with players := m.players.insert playerId player }
      reply := .applied (some player.view)
      events := [.stateChanged m.mapId m.serverTick player.view] }
  | none => ⟨m, .applied none, []⟩

/-- A player leaves. -/
def leavePlayer (m : MapActor F) (playerId : PlayerId) : Handled F :=
  match m.players[playerId]? with
  | some player =>
    { map := { m with players := m.players.erase playerId }
      reply := .left (some (player.buffs.filter (·.portable)))
      events := [.left m.mapId m.serverTick playerId] }
  | none => ⟨m, .left none, []⟩

/-- A player has new vitals. -/
def updateVitals (m : MapActor F) (playerId : PlayerId) (vitals : MapVitals) : Handled F :=
  match m.players[playerId]? with
  | some entry =>
    if entry.vitals = vitals then ⟨m, .done, []⟩
    else
      let player := { entry with vitals }
      { map := { m with players := m.players.insert playerId player }
        reply := .done
        events := [.stateChanged m.mapId m.serverTick player.view] }
  | none => ⟨m, .done, []⟩

/-- The players told about are those who lost a buff. -/
def advanceTick (m : MapActor F) (tick : ℕ) : Handled F :=
  let delta := tick - m.serverTick
  if delta = 0 then ⟨{ m with serverTick := tick }, .done, []⟩
  else
    let expired := m.players.vals.filter fun p =>
      (p.elapse delta).buffs.length ≠ p.buffs.length
    { map := { m with serverTick := tick, players := m.players.map fun _ p => p.elapse delta }
      reply := .done
      events := expired.map fun p => .stateChanged m.mapId tick (p.elapse delta).view }

/-- Handles a message. -/
def handle (m : MapActor F) : MapMessage F → Handled F
  | .enterPlayer msg => m.enterPlayer msg
  | .attachLocalPlayer playerId player => m.attachLocalPlayer playerId player
  | .applyCombatBuff playerId buff => m.applyCombatBuff playerId buff
  | .leavePlayer playerId => m.leavePlayer playerId
  | .updateVitals playerId vitals => m.updateVitals playerId vitals
  | .advanceTick tick => m.advanceTick tick

/-! What each handler does to the entry of a player. -/

section Lookup

variable (m : MapActor F) (playerId q : PlayerId)

@[simp] theorem players_enterPlayer (msg : EnterPlayer F) :
    (m.enterPlayer msg).map.players[q]? =
      if msg.profile.id = q then some (m.entryOf msg) else m.players[q]? := by
  simp [enterPlayer]

omit [Mul F] [One F] in
@[simp] theorem players_attachLocalPlayer (player : PlayerId) :
    (m.attachLocalPlayer playerId player).map.players[q]? =
      if playerId = q then m.players[q]?.map fun p => { p with link := some player }
      else m.players[q]? := by
  unfold attachLocalPlayer
  cases h : m.players[playerId]? with
  | none => exact KeyStore.getElem?_map_of_none h _ q
  | some entry => exact KeyStore.getElem?_put_map h (fun p => { p with link := some player }) q

@[simp] theorem players_applyCombatBuff (buff : CombatBuff F) :
    (m.applyCombatBuff playerId buff).map.players[q]? =
      if playerId = q then m.players[q]?.map (·.upsertBuff buff) else m.players[q]? := by
  unfold applyCombatBuff
  cases h : m.players[playerId]? with
  | none => exact KeyStore.getElem?_map_of_none h _ q
  | some entry => exact KeyStore.getElem?_put_map h (·.upsertBuff buff) q

omit [Mul F] [One F] in
@[simp] theorem players_leavePlayer :
    (m.leavePlayer playerId).map.players[q]? =
      if playerId = q then none else m.players[q]? := by
  unfold leavePlayer
  by_cases hq : playerId = q
  · subst hq
    cases h : m.players[playerId]? <;> simp [h]
  · cases m.players[playerId]? <;> simp [hq]

@[simp] theorem players_updateVitals (vitals : MapVitals) :
    (m.updateVitals playerId vitals).map.players[q]? =
      if playerId = q then m.players[q]?.map fun p => { p with vitals } else m.players[q]? := by
  unfold updateVitals
  cases h : m.players[playerId]? with
  | none => exact KeyStore.getElem?_map_of_none h _ q
  | some entry =>
    dsimp only
    split_ifs with hv hq hq
    · subst hv hq
      simp [h]
    · rfl
    · simp [← hq, h]
    · simp [hq]

@[simp] theorem players_advanceTick (tick : ℕ) :
    (m.advanceTick tick).map.players[q]? =
      if tick - m.serverTick = 0 then m.players[q]?
      else m.players[q]?.map (·.elapse (tick - m.serverTick)) := by
  dsimp only [advanceTick]
  split_ifs
  · rfl
  · simp [Std.ExtTreeMap.getElem?_map]

end Lookup

end MapActor

/-! ### Players -/

/-- What a player knows of its map. -/
structure MapMirror (F : Type) where
  mapId : String
  tick : ℕ
  own : MapPlayerView F
  others : List (MapPlayerView F)
  deriving DecidableEq

/-- The state of a player. -/
structure PlayerActor (κ F : Type) where
  profile : PlayerProfile
  registryName : String
  bankedBuffs : List (CombatBuff F)
  mapLink : Option κ
  mirror : Option (MapMirror F)

namespace PlayerActor

variable {κ : Type}

/-- A player outside of all maps. -/
def new (profile : PlayerProfile) (registryName : String) : PlayerActor κ F :=
  ⟨profile, registryName, [], none, none⟩

/-- `EnterMap` up to the question: the banked buffs go with the request. -/
def enterMap (a : PlayerActor κ F) (vitals : MapVitals) : PlayerActor κ F × EnterPlayer F :=
  ({ a with bankedBuffs := [] }, ⟨a.profile, a.registryName, vitals, a.bankedBuffs⟩)

/-- `EnterMap` from the answer on; without one nothing is undone. -/
def enteredMap (a : PlayerActor κ F) (map : κ) : Option (MapJoinInfo F) → PlayerActor κ F
  | some join =>
    { a with mapLink := some map, mirror := some ⟨join.mapId, join.tick, join.own, join.others⟩ }
  | none => a

/-- `LeaveMap` up to the question, to the map that is returned. -/
def leaveMap (a : PlayerActor κ F) : PlayerActor κ F × Option κ :=
  ({ a with mapLink := none }, a.mapLink)

/-- `LeaveMap` from the answer on. -/
def leftMap (a : PlayerActor κ F) : Option (List (CombatBuff F)) → PlayerActor κ F
  | some portable => { a with mirror := none, bankedBuffs := portable }
  | none => { a with mirror := none }

/-- `ApplyMapEvent` for what a player is in or has become. -/
def refresh (a : PlayerActor κ F) (mapId : String) (tick : ℕ) (player : MapPlayerView F) :
    PlayerActor κ F :=
  match a.mirror with
  | none => a
  | some mirror =>
    if mirror.mapId ≠ mapId ∨ tick < mirror.tick then a
    else if player.profile.id = a.profile.id then
      { a with mirror := some { mirror with tick, own := player } }
    else
      { a with
        mirror := some { mirror with
          tick, others := upsertBy (·.profile.id) mirror.others player } }

/-- Takes an event into the mirror. -/
def applyMapEvent (a : PlayerActor κ F) : MapEvent F → PlayerActor κ F
  | .entered mapId tick player | .stateChanged mapId tick player => a.refresh mapId tick player
  | .left mapId _ playerId =>
    match a.mirror with
    | none => a
    | some mirror =>
      if mirror.mapId = mapId then
        { a with
          mirror := some { mirror with
            others := mirror.others.filter fun view => view.profile.id ≠ playerId } }
      else a

/-- What the player makes of the answer to a question. -/
def resume (a : PlayerActor κ F) (map : κ) :
    MapMessage F → Option (MapReply F) → PlayerActor κ F
  | .enterPlayer _, some (.joined join) => a.enteredMap map (some join)
  | .enterPlayer _, _ => a.enteredMap map none
  | .leavePlayer _, some (.left portable) => a.leftMap portable
  | .leavePlayer _, _ => a.leftMap none
  | _, _ => a

omit [Mul F] [One F] in
@[simp] theorem profile_resume (a : PlayerActor κ F) (map : κ) (request : MapMessage F)
    (answer : Option (MapReply F)) : (a.resume map request answer).profile = a.profile := by
  cases request with
  | enterPlayer msg => rcases answer with _ | (_ | _ | _ | _) <;> rfl
  | leavePlayer p => rcases answer with _ | (_ | _ | (_ | _) | _) <;> rfl
  | _ => rfl

omit [Mul F] [One F] in
@[simp] theorem registryName_resume (a : PlayerActor κ F) (map : κ) (request : MapMessage F)
    (answer : Option (MapReply F)) :
    (a.resume map request answer).registryName = a.registryName := by
  cases request with
  | enterPlayer msg => rcases answer with _ | (_ | _ | _ | _) <;> rfl
  | leavePlayer p => rcases answer with _ | (_ | _ | (_ | _) | _) <;> rfl
  | _ => rfl

end PlayerActor

/-- A question to a map: unanswered, or with the answer, `none` for a failure. -/
structure Ask (κ F : Type) where
  map : κ
  request : MapMessage F
  answer : Option (Option (MapReply F))

end RustExample.GameServer
