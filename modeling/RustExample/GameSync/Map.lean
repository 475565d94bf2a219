import RustExample.Foundation.KeyStore

/-!
# The map actor of the game sync example

A map owns the combat state of its players. A player whose connection fails is offline for a grace
period, at whose end the map is told to remove the player; a player who enters again before that
is online with the state that was kept. A change of the map is pushed to every player by a task of
its own, which tells the map when it cannot reach the player.

Source: `kameo_workspace_example/kameo_game_sync/src/map.rs`, `player.rs`.

* Combat numbers wrap around, as in a release build.
* The players of a map are listed in the order of their ids.
* A handler that spawns a grace period gets the handle of the new task as an argument.
-/

namespace RustExample.GameSync

/-! ### Values -/

/-- The number of a player. -/
abbrev PlayerId := UInt64

/-- Who a player is. -/
structure PlayerProfile where
  id : PlayerId
  name : String
  deriving DecidableEq

/-- Damage of both kinds. -/
structure Damage where
  red : Int32
  blue : Int32
  deriving DecidableEq

/-- The sum of both. -/
def Damage.stack (d other : Damage) : Damage := ⟨d.red + other.red, d.blue + other.blue⟩

/-- The health of a player. -/
structure MapStats where
  red : Int32
  blue : Int32
  deriving DecidableEq

/-- The health after some damage. -/
def MapStats.applyDamage (s : MapStats) (damage : Damage) : MapStats :=
  ⟨max (s.red - damage.red) 0, max (s.blue - damage.blue) 0⟩

/-- The health on entry. -/
structure InitialMapStats where
  red : Int32
  blue : Int32
  deriving DecidableEq

/-- The health of a new player. -/
def InitialMapStats.into (s : InitialMapStats) : MapStats := ⟨s.red, s.blue⟩

/-- Attack and damage with buffs. -/
structure EffectiveCombat where
  attack : Damage
  damage : Damage
  deriving DecidableEq

/-- The damage of a hit. -/
def EffectiveCombat.totalDamage (c : EffectiveCombat) (bonusDamage : Damage) : Damage :=
  (c.attack.stack c.damage).stack bonusDamage

/-- A buff of a player. -/
structure PlayerBuff where
  name : String
  attackBonus : Damage
  damageBonus : Damage
  deriving DecidableEq

/-- Attack and damage on entry. -/
structure InitialCombatStats where
  baseAttack : Damage
  baseDamage : Damage
  deriving DecidableEq

/-- A player as others see it. -/
structure MapPlayerView where
  profile : PlayerProfile
  stats : MapStats
  baseAttack : Damage
  baseDamage : Damage
  effectiveCombat : EffectiveCombat
  buffs : List PlayerBuff
  deriving DecidableEq

/-- A player as the map keeps it. -/
structure MapPlayerState where
  profile : PlayerProfile
  stats : MapStats
  baseAttack : Damage
  baseDamage : Damage
  buffs : List PlayerBuff
  deriving DecidableEq

namespace MapPlayerState

/-- Adds up the buffs. -/
def effectiveCombat (s : MapPlayerState) : EffectiveCombat :=
  s.buffs.foldl (fun c buff => ⟨c.attack.stack buff.attackBonus, c.damage.stack buff.damageBonus⟩)
    ⟨s.baseAttack, s.baseDamage⟩

/-- The view of a player. -/
def view (s : MapPlayerState) : MapPlayerView :=
  ⟨s.profile, s.stats, s.baseAttack, s.baseDamage, s.effectiveCombat, s.buffs⟩

/-- The player gets a buff. -/
def addBuff (s : MapPlayerState) (buff : PlayerBuff) : MapPlayerState :=
  { s with buffs := s.buffs ++ [buff] }

end MapPlayerState

/-- What a map tells its players. -/
inductive MapEvent where
  | playerJoined (mapId : String) (player : MapPlayerView)
  | playerStateChanged (mapId : String) (player : MapPlayerView)
  | playerLeft (mapId : String) (playerId : PlayerId)
  deriving DecidableEq

/-! ### The map -/

/-- Whether a player is connected. -/
inductive PlayerStatus where
  | online
  | offline (abortHandle : ℕ)
  deriving DecidableEq

/-- A player in a map. -/
structure PlayerInMap where
  playerName : String
  state : MapPlayerState
  status : PlayerStatus
  deriving DecidableEq

/-- How a map is set up. -/
structure MapConfig where
  id : String
  entryBuffs : List PlayerBuff

/-- The state of a map. -/
structure MapActor where
  mapId : String
  entryBuffs : List PlayerBuff
  players : KeyStore PlayerId PlayerInMap

/-- The question to enter. -/
structure EnterPlayer where
  profile : PlayerProfile
  initialStats : InitialMapStats
  initialCombat : InitialCombatStats
  deriving DecidableEq

/-- What a player learns on entry. -/
structure MapJoinInfo where
  mapId : String
  ownState : MapPlayerView
  otherPlayers : List MapPlayerView
  deriving DecidableEq

/-- What became of a buff. -/
structure BuffReport where
  playerId : PlayerId
  stateAfterBuff : MapPlayerView
  deriving DecidableEq

/-- What became of a hit. -/
structure HitReport where
  attackerId : PlayerId
  targetId : PlayerId
  effectiveCombat : EffectiveCombat
  totalDamage : Damage
  stateAfterHit : MapPlayerView
  deriving DecidableEq

/-- The messages to a map. -/
inductive MapMessage where
  | enterPlayer (msg : EnterPlayer)
  | givePlayerBuff (playerId : PlayerId) (buff : PlayerBuff)
  | hitPlayer (attackerId targetId : PlayerId) (bonusDamage : Damage)
  | playerDisconnected (playerId : PlayerId)
  | removePlayer (playerId : PlayerId)
  | getAllPlayers
  | getMapPlayer (playerId : PlayerId)
  deriving DecidableEq

/-- The answers of a map. -/
inductive MapReply where
  | joined (join : MapJoinInfo)
  | buffed (report : Option BuffReport)
  | hit (report : Option HitReport)
  | players (views : List MapPlayerView)
  | player (view : Option MapPlayerView)
  | done
  deriving DecidableEq

/-- A task that a map spawns. -/
inductive Spawn where
  /-- Push an event to a player. -/
  | push (playerId : PlayerId) (playerName : String) (event : MapEvent)
  /-- Wait for 180 s, then tell the map to remove the player. -/
  | grace (playerId : PlayerId) (handle : ℕ)
  deriving DecidableEq

/-- What a handler leaves, answers, spawns and aborts. -/
structure Handled where
  map : MapActor
  reply : MapReply
  spawned : List Spawn := []
  aborted : Option ℕ := none

namespace MapActor

/-- A map without players. -/
def new (config : MapConfig) : MapActor := ⟨config.id, config.entryBuffs, ∅⟩

/-- A player who joins is not told about it. -/
def broadcastEvent (m : MapActor) (sourcePlayerId : PlayerId) (event : MapEvent) : List Spawn :=
  m.players.vals.filterMap fun p =>
    let push := Spawn.push p.state.profile.id p.playerName event
    match event with
    | .playerJoined _ _ => if p.state.profile.id = sourcePlayerId then none else some push
    | _ => some push

/-- A kept player comes back, and its grace period ends; else it is made from the message. -/
def enterPlayer (m : MapActor) (msg : EnterPlayer) : Handled :=
  let playerId := msg.profile.id
  let otherPlayers :=
    (m.players.vals.filter fun p => p.state.profile.id ≠ playerId).map fun p => p.state.view
  match m.players[playerId]? with
  | some existing =>
    let reply := .joined ⟨m.mapId, existing.state.view, otherPlayers⟩
    match existing.status with
    | .offline abortHandle =>
      { map := { m with players := m.players.insert playerId { existing with status := .online } }
        reply, aborted := some abortHandle }
    | .online => { map := m, reply }
  | none =>
    let state : MapPlayerState := ⟨msg.profile, msg.initialStats.into, msg.initialCombat.baseAttack,
      msg.initialCombat.baseDamage, m.entryBuffs⟩
    let entered := { m with
      players := m.players.insert playerId ⟨"player:" ++ toString playerId, state, .online⟩ }
    { map := entered
      reply := .joined ⟨m.mapId, state.view, otherPlayers⟩
      spawned := entered.broadcastEvent playerId (.playerJoined m.mapId state.view) }

/-- A player gets a buff. -/
def givePlayerBuff (m : MapActor) (playerId : PlayerId) (buff : PlayerBuff) : Handled :=
  match m.players[playerId]? with
  | none => { map := m, reply := .buffed none }
  | some player =>
    let state := player.state.addBuff buff
    let buffed := { m with players := m.players.insert playerId { player with state } }
    { map := buffed
      reply := .buffed (some ⟨playerId, state.view⟩)
      spawned := buffed.broadcastEvent playerId (.playerStateChanged m.mapId state.view) }

/-- A player hits another. -/
def hitPlayer (m : MapActor) (attackerId targetId : PlayerId) (bonusDamage : Damage) : Handled :=
  match m.players[attackerId]?, m.players[targetId]? with
  | some attacker, some target =>
    let effectiveCombat := attacker.state.effectiveCombat
    let totalDamage := effectiveCombat.totalDamage bonusDamage
    let state := { target.state with stats := target.state.stats.applyDamage totalDamage }
    let hurt := { m with players := m.players.insert targetId { target with state } }
    { map := hurt
      reply := .hit (some ⟨attackerId, targetId, effectiveCombat, totalDamage, state.view⟩)
      spawned := hurt.broadcastEvent targetId (.playerStateChanged m.mapId state.view) }
  | _, _ => { map := m, reply := .hit none }

/-- A player who is online goes offline, with a grace period under a new handle. -/
def playerDisconnected (m : MapActor) (playerId : PlayerId) (handle : ℕ) : Handled :=
  match m.players[playerId]? with
  | none => { map := m, reply := .done }
  | some player =>
    match player.status with
    | .online =>
      { map := { m with
          players := m.players.insert playerId { player with status := .offline handle } }
        reply := .done
        spawned := [.grace playerId handle] }
    | .offline _ => { map := m, reply := .done }

/-- A player is taken out. -/
def removePlayer (m : MapActor) (playerId : PlayerId) : Handled :=
  match m.players[playerId]? with
  | none => { map := m, reply := .done }
  | some _ =>
    let left := { m with players := m.players.erase playerId }
    { map := left
      reply := .done
      spawned := left.broadcastEvent playerId (.playerLeft m.mapId playerId) }

/-- The views of all players. -/
def getAllPlayers (m : MapActor) : Handled :=
  { map := m, reply := .players (m.players.vals.map fun p => p.state.view) }

/-- The view of one player. -/
def getMapPlayer (m : MapActor) (playerId : PlayerId) : Handled :=
  { map := m, reply := .player (m.players[playerId]?.map fun p => p.state.view) }

/-- Handles a message. -/
def handle (m : MapActor) (next : ℕ) : MapMessage → Handled
  | .enterPlayer msg => m.enterPlayer msg
  | .givePlayerBuff playerId buff => m.givePlayerBuff playerId buff
  | .hitPlayer attackerId targetId bonusDamage => m.hitPlayer attackerId targetId bonusDamage
  | .playerDisconnected playerId => m.playerDisconnected playerId next
  | .removePlayer playerId => m.removePlayer playerId
  | .getAllPlayers => m.getAllPlayers
  | .getMapPlayer playerId => m.getMapPlayer playerId

/-! ### Who is online -/

/-- The status of a player, `none` for one who is not in the map. -/
def status (m : MapActor) (p : PlayerId) : Option PlayerStatus := m.players[p]?.map (·.status)

variable {m : MapActor} {p q : PlayerId} {handle : ℕ}

theorem exists_push_of_mem_broadcastEvent {event : MapEvent} {s : Spawn}
    (h : s ∈ m.broadcastEvent p event) : ∃ q name, s = .push q name event := by
  obtain ⟨e, -, he⟩ := List.mem_filterMap.mp h
  cases event with
  | playerJoined _ _ =>
    obtain ⟨-, rfl⟩ := by simpa using he
    exact ⟨_, _, rfl⟩
  | _ => exact ⟨_, _, (Option.some.inj he).symm⟩

@[simp] theorem status_enterPlayer (msg : EnterPlayer) :
    (m.enterPlayer msg).map.status q =
      if msg.profile.id = q then some .online else m.status q := by
  simp only [enterPlayer, status]
  by_cases hq : msg.profile.id = q
  · subst hq
    cases h : m.players[msg.profile.id]? with
    | none => simp
    | some existing => cases hs : existing.status <;> simp [hs, h]
  · cases m.players[msg.profile.id]? with
    | none => simp [hq]
    | some existing => cases hs : existing.status <;> simp [hq, hs]

/-- The grace period that ends is the one of the player who enters. -/
theorem aborted_enterPlayer (msg : EnterPlayer) :
    (m.enterPlayer msg).aborted = some handle ↔
      m.status msg.profile.id = some (.offline handle) := by
  simp only [enterPlayer, status]
  cases m.players[msg.profile.id]? with
  | none => simp
  | some existing => cases hs : existing.status <;> simp [hs]

/-- Who enters for the first time is announced; no grace period begins. -/
theorem spawned_enterPlayer {msg : EnterPlayer} {s : Spawn}
    (h : s ∈ (m.enterPlayer msg).spawned) : ∃ q name event, s = .push q name event := by
  simp only [enterPlayer] at h
  cases hplayers : m.players[msg.profile.id]? with
  | none =>
    obtain ⟨q, name, rfl⟩ := exists_push_of_mem_broadcastEvent (by simpa [hplayers] using h)
    exact ⟨q, name, _, rfl⟩
  | some existing => cases hs : existing.status <;> simp [hplayers, hs] at h

@[simp] theorem status_playerDisconnected :
    (m.playerDisconnected p handle).map.status q =
      if p = q ∧ m.status p = some .online then some (.offline handle) else m.status q := by
  cases h : m.players[p]? with
  | none => simp [playerDisconnected, status, h]
  | some player =>
    cases hs : player.status with
    | offline _ => simp [playerDisconnected, status, h, hs]
    | online =>
      by_cases hq : p = q
      · subst hq
        simp [playerDisconnected, status, h, hs]
      · simp [playerDisconnected, status, h, hs, hq]

theorem spawned_playerDisconnected :
    (m.playerDisconnected p handle).spawned =
      if m.status p = some .online then [.grace p handle] else [] := by
  cases h : m.players[p]? with
  | none => simp [playerDisconnected, status, h]
  | some player => cases hs : player.status <;> simp [playerDisconnected, status, h, hs]

@[simp] theorem aborted_playerDisconnected : (m.playerDisconnected p handle).aborted = none := by
  unfold playerDisconnected
  cases m.players[p]? with
  | none => rfl
  | some player => cases hs : player.status <;> simp [hs]

@[simp] theorem status_removePlayer :
    (m.removePlayer p).map.status q = if p = q then none else m.status q := by
  simp only [removePlayer, status]
  by_cases hq : p = q
  · subst hq
    cases h : m.players[p]? <;> simp [h]
  · cases m.players[p]? <;> simp [hq]

theorem spawned_removePlayer {s : Spawn} (h : s ∈ (m.removePlayer p).spawned) :
    ∃ q name event, s = .push q name event := by
  unfold removePlayer at h
  cases hplayers : m.players[p]? with
  | none => simp [hplayers] at h
  | some player =>
    obtain ⟨q, name, rfl⟩ := exists_push_of_mem_broadcastEvent (by simpa [hplayers] using h)
    exact ⟨q, name, _, rfl⟩

@[simp] theorem aborted_removePlayer : (m.removePlayer p).aborted = none := by
  unfold removePlayer
  cases m.players[p]? <;> rfl

end MapActor

/-- The messages that neither enter, disconnect nor remove a player. -/
def MapMessage.Quiet : MapMessage → Prop
  | .enterPlayer _ | .playerDisconnected _ | .removePlayer _ => False
  | _ => True

namespace MapActor

variable {msg : MapMessage}

/-- Every other message leaves everybody's status as it is, and spawns pushes only. -/
theorem quiet_handle (m : MapActor) (handle : ℕ) (hmsg : msg.Quiet) :
    (m.handle handle msg).map.status = m.status ∧ (m.handle handle msg).aborted = none ∧
      ∀ s ∈ (m.handle handle msg).spawned, ∃ q name event, s = .push q name event := by
  have push {m : MapActor} {p : PlayerId} {event : MapEvent} :
      ∀ s ∈ m.broadcastEvent p event, ∃ q name event, s = .push q name event := fun s hs => by
    obtain ⟨q, name, rfl⟩ := exists_push_of_mem_broadcastEvent hs
    exact ⟨q, name, _, rfl⟩
  cases msg with
  | enterPlayer _ | playerDisconnected _ | removePlayer _ => exact hmsg.elim
  | getAllPlayers | getMapPlayer _ => exact ⟨rfl, rfl, by simp [MapActor.handle, getAllPlayers,
      getMapPlayer]⟩
  | givePlayerBuff playerId buff =>
    simp only [MapActor.handle, givePlayerBuff]
    cases h : m.players[playerId]? with
    | none => exact ⟨rfl, rfl, by simp⟩
    | some player =>
      dsimp only
      refine ⟨funext fun q => ?_, rfl, push⟩
      by_cases hq : playerId = q
      · subst hq
        simp [status, h]
      · simp [status, hq]
  | hitPlayer attackerId targetId bonusDamage =>
    simp only [MapActor.handle, hitPlayer]
    cases ha : m.players[attackerId]? with
    | none => exact ⟨rfl, rfl, by simp⟩
    | some attacker =>
      cases ht : m.players[targetId]? with
      | none => exact ⟨rfl, rfl, by simp⟩
      | some target =>
        dsimp only
        refine ⟨funext fun q => ?_, rfl, push⟩
        by_cases hq : targetId = q
        · subst hq
          simp [status, ht]
        · simp [status, hq]

end MapActor

end RustExample.GameSync
