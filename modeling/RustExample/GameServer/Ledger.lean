import RustExample.GameServer.Actors

/-!
# The buff ledger of a map

A map gives buffs to its players, counts their durations down by the ticks it is told, and sends
the world what the buffs of a player amount to.

Source: `bevy_workspace_example/game_server/src/actor/map.rs`, `types.rs`.

* A channel to the world is the list of the commands sent on it.
* What buffs amount to for the world is any function of them; `EffectiveModifiers.fromBuffs` is the
  one of the source.
-/

namespace RustExample.GameServer

open List

variable {F E : Type} [Mul F] [One F]

/-! ### Buffs and time -/

namespace CombatBuff

omit [Mul F] [One F]

/-- The buff some ticks after it was given, unless it has run out. -/
def after (b : CombatBuff F) (elapsed : ℕ) : Option (CombatBuff F) :=
  match b.remainingTicks with
  | none => some b
  | some n =>
    if elapsed = 0 then some b
    else if n ≤ elapsed then none
    else some { b with remainingTicks := some (n - elapsed) }

/-- The buff, its duration aside. -/
def withoutDuration (b : CombatBuff F) : CombatBuff F := { b with remainingTicks := none }

@[simp] theorem after_zero (b : CombatBuff F) : b.after 0 = some b := by
  unfold after
  split <;> rfl

/-- **Ticks add up**, in whatever portions they come. -/
theorem after_add (b : CombatBuff F) (d e : ℕ) :
    (b.after d).bind (·.after e) = b.after (d + e) := by
  by_cases hd : d = 0
  · simp [hd]
  by_cases he : e = 0
  · simp [he]
  obtain ⟨id, damage, speed, remaining, portable⟩ := b
  cases remaining with
  | none => rfl
  | some n =>
    by_cases hn : n ≤ d
    · have hsum : n ≤ d + e := by omega
      simp [after, hd, hn, hsum]
    · have hiff : n - d ≤ e ↔ n ≤ d + e := by omega
      simp [after, hd, hn, he, hiff, Nat.sub_sub]

theorem id_of_after {b c : CombatBuff F} {d : ℕ} (h : b.after d = some c) : c.id = b.id := by
  unfold after at h
  split at h
  · exact congrArg CombatBuff.id (Option.some.inj h).symm
  · split_ifs at h
    · exact congrArg CombatBuff.id (Option.some.inj h).symm
    · exact (congrArg CombatBuff.id (Option.some.inj h)).symm

theorem after_of_remaining {b : CombatBuff F} {n : ℕ} (h : b.remainingTicks = some n) (hn : 1 ≤ n)
    (d : ℕ) :
    b.after d = if d < n then some { b with remainingTicks := some (n - d) } else none := by
  obtain ⟨id, damage, speed, remaining, portable⟩ := b
  obtain rfl : remaining = some n := h
  by_cases hd : d = 0
  · simp [hd, Nat.lt_of_lt_of_le Nat.zero_lt_one hn]
  · by_cases hlt : d < n
    · simp [after, hd, hlt]
    · simp [after, hd, hlt, Nat.le_of_not_lt hlt]

end CombatBuff

/-- A function of buffs that does not look at their durations. -/
def Timeless (fromBuffs : List (CombatBuff F) → E) : Prop :=
  ∀ buffs buffs' : List (CombatBuff F),
    buffs.map CombatBuff.withoutDuration = buffs'.map CombatBuff.withoutDuration →
    fromBuffs buffs = fromBuffs buffs'

namespace EffectiveModifiers

/-- The modifiers of the source do not depend on durations. -/
theorem timeless_fromBuffs : Timeless (fromBuffs (F := F)) := by
  intro buffs buffs' h
  have hfold (l : List (CombatBuff F)) : fromBuffs l = fromBuffs (l.map (·.withoutDuration)) := by
    rw [fromBuffs, fromBuffs, foldl_map]
    rfl
  rw [hfold buffs, hfold buffs', h]

end EffectiveModifiers

namespace MapPlayer

omit [Mul F] [One F]

theorem buffs_elapse (p : MapPlayer F) {delta : ℕ} (hdelta : delta ≠ 0) :
    (p.elapse delta).buffs = p.buffs.filterMap (·.after delta) := by
  unfold elapse
  induction p.buffs with
  | nil => rfl
  | cons b buffs ih =>
    obtain ⟨id, damage, speed, remaining, portable⟩ := b
    cases remaining with
    | none => simpa [CombatBuff.after] using ih
    | some n =>
      by_cases hn : n ≤ delta
      · have hzero : n - delta = 0 := by omega
        simpa [CombatBuff.after, hdelta, hn, hzero] using ih
      · have hpos : n - delta ≠ 0 := by omega
        simpa [CombatBuff.after, hdelta, hn, hpos] using ih

/-- A player who lost no buff has the same buffs but for the durations. -/
theorem withoutDuration_elapse (p : MapPlayer F) {delta : ℕ}
    (h : (p.elapse delta).buffs.length = p.buffs.length) :
    (p.elapse delta).buffs.map CombatBuff.withoutDuration =
      p.buffs.map CombatBuff.withoutDuration := by
  unfold elapse at h ⊢
  have hall := List.filter_eq_self.mpr (List.length_filter_eq_length_iff.mp
    (h.trans (length_map ..).symm))
  rw [hall, map_map]
  rfl

theorem buffs_foldl_upsertBuff (buffs : List (CombatBuff F)) (p : MapPlayer F) :
    (buffs.foldl upsertBuff p).buffs = buffs.foldl (upsertBy (·.id)) p.buffs := by
  induction buffs generalizing p with
  | nil => rfl
  | cons buff buffs ih => exact ih (p.upsertBuff buff)

end MapPlayer

/-! ### What a map holds for a player -/

namespace MapMessage

omit [Mul F] [One F]

/-- The tick that a message forwards. -/
def tick : MapMessage F → Option ℕ
  | .advanceTick tick => some tick
  | _ => none

/-- The messages that bring the player `p` to the map. -/
def enters (p : PlayerId) : MapMessage F → Bool
  | .enterPlayer msg => msg.profile.id = p
  | _ => false

/-- The messages that give the player `p` a buff with the id, if the player is on the map. -/
def Regrants (p : PlayerId) (id : String) : MapMessage F → Prop
  | .enterPlayer msg => msg.profile.id = p ∧ id ∈ msg.portableBuffs.map (·.id)
  | .applyCombatBuff playerId buff => playerId = p ∧ buff.id = id
  | _ => False

end MapMessage

namespace MapActor

variable {m : MapActor F} {msg : MapMessage F} {p : PlayerId} {id : String}

/-- The buffs that a message gives the player `p`, in this order. -/
def grants (m : MapActor F) (p : PlayerId) : MapMessage F → List (CombatBuff F)
  | .enterPlayer msg =>
    if msg.profile.id = p then
      (if m.players[p]?.isSome then [] else m.entryBuffs) ++ msg.portableBuffs
    else []
  | .applyCombatBuff playerId buff =>
    if playerId = p ∧ m.players[p]?.isSome then [buff] else []
  | _ => []

/-- The last buff with the id that a message gives the player `p`. -/
def lastGrant (m : MapActor F) (p : PlayerId) (msg : MapMessage F) (id : String) :
    Option (CombatBuff F) :=
  ((m.grants p msg).filter fun buff => buff.id = id).getLast?

/-- The buffs of the player `p`, if the player is on the map. -/
def buffsOf (m : MapActor F) (p : PlayerId) : Option (List (CombatBuff F)) :=
  m.players[p]?.map MapPlayer.buffs

/-- The buff with the id that the player `p` has. -/
def buff (m : MapActor F) (p : PlayerId) (id : String) : Option (CombatBuff F) :=
  m.players[p]?.bind fun player : MapPlayer F => findBy (·.id) player.buffs id

/-- The buffs that come with an entry have distinct ids, and so have those of every player. -/
structure Distinct (m : MapActor F) : Prop where
  entry : (m.entryBuffs.map (·.id)).Nodup
  players : ∀ (p : PlayerId) (player : MapPlayer F), m.players[p]? = some player →
    (player.buffs.map (·.id)).Nodup

theorem fixed_handle (m : MapActor F) (msg : MapMessage F) :
    (m.handle msg).map.serverTick = msg.tick.getD m.serverTick ∧
      (m.handle msg).map.entryBuffs = m.entryBuffs := by
  cases msg with
  | enterPlayer => exact ⟨rfl, rfl⟩
  | attachLocalPlayer p link =>
    rw [handle, attachLocalPlayer]
    cases m.players[p]? <;> exact ⟨rfl, rfl⟩
  | applyCombatBuff p buff =>
    rw [handle, applyCombatBuff]
    cases m.players[p]? <;> exact ⟨rfl, rfl⟩
  | leavePlayer p =>
    rw [handle, leavePlayer]
    cases m.players[p]? <;> exact ⟨rfl, rfl⟩
  | updateVitals p vitals =>
    rw [handle, updateVitals]
    cases m.players[p]? with
    | none => exact ⟨rfl, rfl⟩
    | some entry =>
      dsimp only
      split_ifs <;> exact ⟨rfl, rfl⟩
  | advanceTick tick =>
    dsimp only [handle, advanceTick]
    split_ifs <;> exact ⟨rfl, rfl⟩

omit [Mul F] [One F] in
theorem buff_eq (m : MapActor F) (p : PlayerId) (id : String) :
    m.buff p id = (m.buffsOf p).bind fun buffs => findBy (·.id) buffs id := by
  rw [buff, buffsOf, Option.bind_map]
  rfl

omit [Mul F] [One F] in
theorem isSome_buffsOf : (m.buffsOf p).isSome = m.players[p]?.isSome := Option.isSome_map

omit [Mul F] [One F] in
theorem buffs_entryOf (m : MapActor F) (msg : EnterPlayer F) :
    (m.entryOf msg).buffs = msg.portableBuffs.foldl (upsertBy (·.id))
      ((m.buffsOf msg.profile.id).getD m.entryBuffs) := by
  rw [entryOf, MapPlayer.buffs_foldl_upsertBuff, buffsOf]
  cases m.players[msg.profile.id]? <;> rfl

theorem buffsOf_leavePlayer : (m.handle (.leavePlayer p)).map.buffsOf p = none := by
  simp [handle, buffsOf]

/-- **The buffs of a player after a message** are the ones before, older by the ticks that went by,
and the ones that the message gives. -/
theorem buffsOf_handle (h : m.Distinct) (hmsg : msg ≠ .leavePlayer p) :
    (m.handle msg).map.buffsOf p =
      if m.players[p]?.isSome || msg.enters p then
        some ((m.grants p msg).foldl (upsertBy (·.id)) (((m.buffsOf p).getD []).filterMap
          (·.after ((m.handle msg).map.serverTick - m.serverTick))))
      else none := by
  rw [(fixed_handle m msg).1]
  cases msg with
  | enterPlayer msg =>
    by_cases hp : msg.profile.id = p
    · subst hp
      rw [buffsOf, handle, players_enterPlayer, if_pos rfl, Option.map_some, buffs_entryOf]
      cases hplayer : m.players[msg.profile.id]? with
      | none =>
        have hentry := foldl_upsertBy_of_nodup (l := []) h.entry
        simp [MapMessage.enters, MapMessage.tick, grants, buffsOf, hplayer, hentry]
      | some player => simp [MapMessage.enters, MapMessage.tick, grants, buffsOf, hplayer]
    · cases hplayer : m.players[p]? <;>
        simp [buffsOf, handle, hp, hplayer, MapMessage.enters, MapMessage.tick, grants]
  | applyCombatBuff playerId buff =>
    rw [buffsOf, handle, players_applyCombatBuff]
    by_cases hp : playerId = p <;> cases hplayer : m.players[p]? <;>
      simp [buffsOf, hp, hplayer, MapMessage.enters, MapMessage.tick, grants,
        MapPlayer.upsertBuff]
  | attachLocalPlayer playerId link =>
    rw [buffsOf, handle, players_attachLocalPlayer]
    by_cases hp : playerId = p <;> cases hplayer : m.players[p]? <;>
      simp [buffsOf, hp, hplayer, MapMessage.enters, MapMessage.tick, grants]
  | leavePlayer playerId =>
    have hp : playerId ≠ p := fun hp => hmsg (congrArg _ hp)
    cases hplayer : m.players[p]? <;>
      simp [buffsOf, handle, hp, hplayer, MapMessage.enters, MapMessage.tick, grants]
  | updateVitals playerId vitals =>
    rw [buffsOf, handle, players_updateVitals]
    by_cases hp : playerId = p <;> cases hplayer : m.players[p]? <;>
      simp [buffsOf, hp, hplayer, MapMessage.enters, MapMessage.tick, grants]
  | advanceTick tick =>
    rw [buffsOf, handle, players_advanceTick]
    by_cases hdelta : tick - m.serverTick = 0 <;> cases hplayer : m.players[p]? <;>
      simp [buffsOf, hdelta, hplayer, MapMessage.enters, MapMessage.tick, grants,
        MapPlayer.buffs_elapse]

/-- **Distinct ids** stay distinct. -/
theorem Distinct.handle (h : m.Distinct) (msg : MapMessage F) : (m.handle msg).map.Distinct := by
  refine ⟨(fixed_handle m msg).2 ▸ h.entry, fun q player hq => ?_⟩
  have hbuffs : (m.handle msg).map.buffsOf q = some player.buffs := by rw [buffsOf, hq]; rfl
  by_cases hmsg : msg = .leavePlayer q
  · rw [hmsg, buffsOf_leavePlayer] at hbuffs
    cases hbuffs
  · rw [buffsOf_handle h hmsg] at hbuffs
    split_ifs at hbuffs
    rw [← Option.some.inj hbuffs]
    refine nodup_foldl_upsertBy (nodup_filterMap ?_ fun _ _ => CombatBuff.id_of_after) _
    cases hold : m.players[q]? with
    | none => simp [buffsOf, hold]
    | some old => simpa [buffsOf, hold] using h.players q old hold

theorem isSome_players_handle (h : m.Distinct) (hp : m.players[p]?.isSome || msg.enters p)
    (hmsg : msg ≠ .leavePlayer p) : (m.handle msg).map.players[p]?.isSome := by
  rw [← isSome_buffsOf, buffsOf_handle h hmsg, if_pos hp]
  rfl

omit [Mul F] [One F] in
/-- A buff is given to a player who is there, or who enters. -/
theorem present_of_mem_grants {b : CombatBuff F} (h : b ∈ m.grants p msg) :
    m.players[p]?.isSome || msg.enters p := by
  cases msg with
  | enterPlayer entry =>
    by_cases hp : entry.profile.id = p
    · simp [MapMessage.enters, hp]
    · simp [grants, hp] at h
  | applyCombatBuff playerId buff =>
    rw [grants] at h
    split_ifs at h with hp
    · simp [hp.2]
    · simp at h
  | attachLocalPlayer | leavePlayer | updateVitals | advanceTick => simp [grants] at h

omit [Mul F] [One F] in
theorem mem_grants_of_lastGrant {b : CombatBuff F} (h : m.lastGrant p msg id = some b) :
    b ∈ m.grants p msg :=
  (List.mem_filter.mp (mem_of_getLast? h)).1

/-- **One buff of a player after a message**: what the message gives last, else what the player
had, older by the ticks that went by. -/
theorem buff_handle (h : m.Distinct) (hmsg : msg ≠ .leavePlayer p) (id : String) :
    (m.handle msg).map.buff p id = (m.lastGrant p msg id).or
      ((m.buff p id).bind (·.after ((m.handle msg).map.serverTick - m.serverTick))) := by
  rw [buff_eq, buffsOf_handle h hmsg, buff_eq]
  split_ifs with hp
  · rw [Option.bind_some, findBy_foldl_upsertBy, lastGrant]
    congr 1
    cases hold : m.players[p]? with
    | none => simp [buffsOf, hold, findBy]
    | some old =>
      simpa [buffsOf, hold] using findBy_filterMap (h.players p old hold)
        (fun _ _ => CombatBuff.id_of_after) id
  · -- Nobody is there, and nothing is given.
    have hgrant : m.lastGrant p msg id = none :=
      Option.eq_none_iff_forall_ne_some.mpr fun b hb =>
        hp (present_of_mem_grants (mem_grants_of_lastGrant hb))
    have hnone : m.players[p]? = none :=
      Option.not_isSome_iff_eq_none.mp fun hsome => hp (by rw [hsome]; rfl)
    simp [hgrant, buffsOf, hnone]

omit [Mul F] [One F] in
/-- What a message that is not about the id gives a player who is there. -/
theorem lastGrant_eq_none (hp : m.players[p]?.isSome) (hmsg : ¬msg.Regrants p id) :
    m.lastGrant p msg id = none := by
  rw [lastGrant, getLast?_eq_none_iff, filter_eq_nil_iff]
  intro b hb hid
  have hid : b.id = id := by simpa using hid
  cases msg with
  | enterPlayer msg =>
    rw [grants, hp, if_pos rfl, nil_append] at hb
    split_ifs at hb with hprofile
    · exact hmsg ⟨hprofile, List.mem_map.mpr ⟨b, hb, hid⟩⟩
    · simp at hb
  | applyCombatBuff playerId buff =>
    rw [grants] at hb
    split_ifs at hb with hplayer
    · obtain rfl := List.mem_singleton.mp hb
      exact hmsg ⟨hplayer.1, hid⟩
    · simp at hb
  | attachLocalPlayer | leavePlayer | updateVitals | advanceTick => simp [grants] at hb

end MapActor

/-! ### A map and the world -/

/-- The commands of a map for the world. -/
inductive WorldCommand (E : Type) where
  | updateModifiers (playerId : PlayerId) (effective : E)
  deriving DecidableEq

/-- The modifiers that a command gives the player `p`. -/
def WorldCommand.modifiersOf (p : PlayerId) : WorldCommand E → Option E
  | .updateModifiers playerId effective => if playerId = p then some effective else none

/-- The last modifiers that were sent for the player `p`. -/
def lastModifiers (sent : List (WorldCommand E)) (p : PlayerId) : Option E :=
  (sent.filterMap (·.modifiersOf p)).getLast?

theorem lastModifiers_snoc (sent : List (WorldCommand E)) (q p : PlayerId) (effective : E) :
    lastModifiers (sent ++ [.updateModifiers q effective]) p =
      if q = p then some effective else lastModifiers sent p := by
  unfold lastModifiers
  rw [filterMap_append]
  by_cases hq : q = p <;> simp [WorldCommand.modifiersOf, hq]

/-- A map with the world behind it. -/
structure MapProcess (F E : Type) where
  map : MapActor F
  /-- The commands sent to the world so far, if there is a world. -/
  worldTx : Option (List (WorldCommand E))

/-- The players who lose a buff by a tick. -/
def MapActor.expired (m : MapActor F) (tick : ℕ) : List PlayerId :=
  let delta := tick - m.serverTick
  if delta = 0 then []
  else (m.players.toList.filter fun entry =>
    (entry.2.elapse delta).buffs.length ≠ entry.2.buffs.length).map Prod.fst

namespace MapProcess

/-- A map that was just started. -/
def new (mapId : String) (entryBuffs : List (CombatBuff F))
    (worldTx : Option (List (WorldCommand E))) : MapProcess F E :=
  ⟨.new mapId entryBuffs, worldTx⟩

variable (fromBuffs : List (CombatBuff F) → E)

/-- Sends the modifiers of a player. -/
def pushModifiers (s : MapProcess F E) (playerId : PlayerId) : MapProcess F E :=
  match s.worldTx with
  | none => s
  | some sent =>
    match s.map.players[playerId]? with
    | none => s
    | some player =>
      { s with worldTx := some (sent ++ [.updateModifiers playerId (fromBuffs player.buffs)]) }

/-- What a message leaves, and what it sends to the world. -/
def handle (s : MapProcess F E) (msg : MapMessage F) : MapProcess F E :=
  let handled := { s with map := (s.map.handle msg).map }
  match msg with
  | .enterPlayer msg => handled.pushModifiers fromBuffs msg.profile.id
  | .applyCombatBuff playerId _ =>
    match s.map.players[playerId]? with
    | none => handled
    | some _ => handled.pushModifiers fromBuffs playerId
  | .advanceTick tick => (s.map.expired tick).foldl (pushModifiers fromBuffs) handled
  | .attachLocalPlayer _ _ | .leavePlayer _ | .updateVitals _ _ => handled

/-- Handles some messages. -/
def after (s : MapProcess F E) (msgs : List (MapMessage F)) : MapProcess F E :=
  msgs.foldl (handle fromBuffs) s

/-! ### What the world knows -/

/-- The last modifiers sent for the player `p` are those of the buffs that the player has. -/
def Knows (s : MapProcess F E) (p : PlayerId) : Prop :=
  ∀ sent player, s.worldTx = some sent → s.map.players[p]? = some player →
    lastModifiers sent p = some (fromBuffs player.buffs)

variable {fromBuffs} {s s' : MapProcess F E} {p : PlayerId} {msg : MapMessage F}

omit [Mul F] [One F] in
@[simp] theorem map_pushModifiers (s : MapProcess F E) (q : PlayerId) :
    (s.pushModifiers fromBuffs q).map = s.map := by
  unfold pushModifiers
  split
  · rfl
  · split <;> rfl

omit [Mul F] [One F] in
@[simp] theorem map_foldl_pushModifiers (s : MapProcess F E) (qs : List PlayerId) :
    (qs.foldl (pushModifiers fromBuffs) s).map = s.map := by
  induction qs generalizing s with
  | nil => rfl
  | cons q qs ih => exact (ih _).trans (map_pushModifiers s q)

omit [Mul F] [One F] in
theorem worldTx_pushModifiers {sent : List (WorldCommand E)} {q : PlayerId} {player : MapPlayer F}
    (hs : s.worldTx = some sent) (hq : s.map.players[q]? = some player) :
    (s.pushModifiers fromBuffs q).worldTx =
      some (sent ++ [.updateModifiers q (fromBuffs player.buffs)]) := by
  simp [pushModifiers, hs, hq]

omit [Mul F] [One F] in
theorem knows_pushModifiers_self (s : MapProcess F E) (p : PlayerId) :
    (s.pushModifiers fromBuffs p).Knows fromBuffs p := by
  intro sent player hsent hp
  rw [map_pushModifiers] at hp
  cases hs : s.worldTx with
  | none => simp [pushModifiers, hs] at hsent
  | some before =>
    rw [worldTx_pushModifiers hs hp] at hsent
    obtain ⟨⟩ := hsent
    rw [lastModifiers_snoc, if_pos rfl]

omit [Mul F] [One F] in
theorem Knows.pushModifiers (h : s.Knows fromBuffs p) (q : PlayerId) :
    (s.pushModifiers fromBuffs q).Knows fromBuffs p := by
  by_cases hq : q = p
  · exact hq ▸ knows_pushModifiers_self s q
  intro sent player hsent hp
  rw [map_pushModifiers] at hp
  cases hs : s.worldTx with
  | none => simp [MapProcess.pushModifiers, hs] at hsent
  | some before =>
    cases hplayer : s.map.players[q]? with
    | none =>
      obtain rfl : before = sent := by simpa [MapProcess.pushModifiers, hs, hplayer] using hsent
      exact h _ player hs hp
    | some other =>
      rw [worldTx_pushModifiers hs hplayer] at hsent
      obtain ⟨⟩ := hsent
      rw [lastModifiers_snoc, if_neg hq]
      exact h _ player hs hp

omit [Mul F] [One F] in
theorem Knows.foldl_pushModifiers (h : s.Knows fromBuffs p) (qs : List PlayerId) :
    (qs.foldl (MapProcess.pushModifiers fromBuffs) s).Knows fromBuffs p := by
  induction qs generalizing s with
  | nil => exact h
  | cons q qs ih => exact ih (h.pushModifiers q)

omit [Mul F] [One F] in
theorem knows_foldl_pushModifiers {qs : List PlayerId} (hp : p ∈ qs) (s : MapProcess F E) :
    (qs.foldl (pushModifiers fromBuffs) s).Knows fromBuffs p := by
  induction qs generalizing s with
  | nil => simp at hp
  | cons q qs ih =>
    rcases List.mem_cons.mp hp with rfl | hp
    · exact (knows_pushModifiers_self s p).foldl_pushModifiers qs
    · exact ih hp _

omit [Mul F] [One F] in
/-- The player is not there or has buffs that amount to the same. -/
theorem Knows.of_same (h : s.Knows fromBuffs p) {m : MapActor F}
    (hp : ∀ player', m.players[p]? = some player' → ∃ player,
      s.map.players[p]? = some player ∧ fromBuffs player.buffs = fromBuffs player'.buffs) :
    MapProcess.Knows fromBuffs { s with map := m } p := by
  intro sent player' hsent hplayer'
  obtain ⟨player, hplayer, heq⟩ := hp player' hplayer'
  rw [h sent player hsent hplayer, heq]

omit [Mul F] [One F] in
theorem mem_expired {m : MapActor F} {tick : ℕ} :
    p ∈ m.expired tick ↔ tick - m.serverTick ≠ 0 ∧ ∃ player, m.players[p]? = some player ∧
      (player.elapse (tick - m.serverTick)).buffs.length ≠ player.buffs.length := by
  dsimp only [MapActor.expired]
  split_ifs with hdelta
  · simp [hdelta]
  · simp [hdelta]

/-- **What a message leaves known**: the world is told about whoever has other modifiers. -/
theorem Knows.handle (hfrom : Timeless fromBuffs) (h : s.Knows fromBuffs p)
    (msg : MapMessage F) : (s.handle fromBuffs msg).Knows fromBuffs p := by
  have hsame (hp : ∀ player', (s.map.handle msg).map.players[p]? = some player' → ∃ player,
      s.map.players[p]? = some player ∧ fromBuffs player.buffs = fromBuffs player'.buffs) :
      MapProcess.Knows fromBuffs { s with map := (s.map.handle msg).map } p := h.of_same hp
  cases msg with
  | enterPlayer msg =>
    by_cases hp : msg.profile.id = p
    · exact hp ▸ knows_pushModifiers_self _ _
    · refine (hsame fun player hplayer => ⟨player, ?_, rfl⟩).pushModifiers _
      simpa [MapActor.handle, hp] using hplayer
  | applyCombatBuff playerId buff =>
    rw [MapProcess.handle]
    by_cases hp : playerId = p
    · subst hp
      cases hplayer : s.map.players[playerId]? with
      | none =>
        refine hsame fun player' hplayer' => ?_
        simp [MapActor.handle, hplayer] at hplayer'
      | some player => exact knows_pushModifiers_self _ _
    · have hother : MapProcess.Knows fromBuffs
          { s with map := (s.map.handle (.applyCombatBuff playerId buff)).map } p := by
        refine hsame fun player hplayer => ⟨player, ?_, rfl⟩
        simpa [MapActor.handle, hp] using hplayer
      cases s.map.players[playerId]? with
      | none => exact hother
      | some player => exact hother.pushModifiers playerId
  | advanceTick tick =>
    rw [MapProcess.handle]
    by_cases hmem : p ∈ s.map.expired tick
    · exact knows_foldl_pushModifiers hmem _
    · refine (hsame fun player' hplayer' => ?_).foldl_pushModifiers _
      rw [MapActor.handle, MapActor.players_advanceTick] at hplayer'
      split_ifs at hplayer' with hdelta
      · exact ⟨player', hplayer', rfl⟩
      · obtain ⟨player, hplayer, rfl⟩ := Option.map_eq_some_iff.mp hplayer'
        have hlen : (player.elapse (tick - s.map.serverTick)).buffs.length =
            player.buffs.length := by
          by_contra hne
          exact hmem (mem_expired.mpr ⟨hdelta, player, hplayer, hne⟩)
        exact ⟨player, hplayer, (hfrom _ _ (player.withoutDuration_elapse hlen)).symm⟩
  | attachLocalPlayer playerId link =>
    refine hsame fun player' hplayer' => ?_
    rw [MapActor.handle, MapActor.players_attachLocalPlayer] at hplayer'
    split_ifs at hplayer'
    · obtain ⟨player, hplayer, rfl⟩ := Option.map_eq_some_iff.mp hplayer'
      exact ⟨player, hplayer, rfl⟩
    · exact ⟨player', hplayer', rfl⟩
  | leavePlayer playerId =>
    refine hsame fun player hplayer => ⟨player, ?_, rfl⟩
    rw [MapActor.handle, MapActor.players_leavePlayer] at hplayer
    split_ifs at hplayer
    exact hplayer
  | updateVitals playerId vitals =>
    refine hsame fun player' hplayer' => ?_
    rw [MapActor.handle, MapActor.players_updateVitals] at hplayer'
    split_ifs at hplayer'
    · obtain ⟨player, hplayer, rfl⟩ := Option.map_eq_some_iff.mp hplayer'
      exact ⟨player, hplayer, rfl⟩
    · exact ⟨player', hplayer', rfl⟩

@[simp] theorem map_handle (s : MapProcess F E) (msg : MapMessage F) :
    (s.handle fromBuffs msg).map = (s.map.handle msg).map := by
  cases msg with
  | enterPlayer | advanceTick => simp [handle]
  | applyCombatBuff playerId buff =>
    rw [handle]
    cases s.map.players[playerId]? <;> simp
  | attachLocalPlayer | leavePlayer | updateVitals => rfl

/-! ### Runs -/

theorem after_cons (s : MapProcess F E) (msg : MapMessage F) (msgs : List (MapMessage F)) :
    s.after fromBuffs (msg :: msgs) = (s.handle fromBuffs msg).after fromBuffs msgs :=
  rfl

theorem after_append (s : MapProcess F E) (msgs msgs' : List (MapMessage F)) :
    s.after fromBuffs (msgs ++ msgs') = (s.after fromBuffs msgs).after fromBuffs msgs' :=
  foldl_append

theorem distinct_after (h : s.map.Distinct) (msgs : List (MapMessage F)) :
    (s.after fromBuffs msgs).map.Distinct := by
  induction msgs generalizing s with
  | nil => exact h
  | cons msg msgs ih => exact ih (map_handle s msg ▸ h.handle msg)

theorem Knows.after (hfrom : Timeless fromBuffs) (h : s.Knows fromBuffs p)
    (msgs : List (MapMessage F)) : (s.after fromBuffs msgs).Knows fromBuffs p := by
  induction msgs generalizing s with
  | nil => exact h
  | cons msg msgs ih => exact ih (h.handle hfrom msg)

/-- The ticks of the messages do not go back, from the tick `now` on. -/
def InOrder (now : ℕ) (msgs : List (MapMessage F)) : Prop :=
  (now :: msgs.filterMap (·.tick)).Pairwise (· ≤ ·)

variable {msgs : List (MapMessage F)}

theorem InOrder.of_cons {m : MapActor F} (h : InOrder m.serverTick (msg :: msgs)) :
    m.serverTick ≤ (m.handle msg).map.serverTick ∧ InOrder (m.handle msg).map.serverTick msgs := by
  rw [(MapActor.fixed_handle _ _).1]
  unfold InOrder at h ⊢
  rw [filterMap_cons] at h
  cases htick : msg.tick with
  | none => exact ⟨Nat.le_refl _, by simpa [htick] using h⟩
  | some tick =>
    rw [htick] at h
    obtain ⟨hle, h⟩ := List.pairwise_cons.mp h
    exact ⟨hle tick mem_cons_self, h⟩

theorem InOrder.of_append {msgs' : List (MapMessage F)}
    (h : InOrder s.map.serverTick (msgs ++ msgs')) :
    InOrder (s.after fromBuffs msgs).map.serverTick msgs' := by
  induction msgs generalizing s with
  | nil => exact h
  | cons msg msgs ih => exact ih (map_handle s msg ▸ h.of_cons.2)

/-- **A buff ages with the ticks of its map**, however these come, as long as its player stays and
is given no other one with its id. -/
theorem buff_after {id : String} (h : s.map.Distinct) (hticks : InOrder s.map.serverTick msgs)
    (hp : s.map.players[p]?.isSome)
    (hkept : ∀ msg ∈ msgs, ¬msg.Regrants p id ∧ msg ≠ .leavePlayer p) :
    (s.after fromBuffs msgs).map.players[p]?.isSome ∧
      s.map.serverTick ≤ (s.after fromBuffs msgs).map.serverTick ∧
      (s.after fromBuffs msgs).map.buff p id = (s.map.buff p id).bind
        (·.after ((s.after fromBuffs msgs).map.serverTick - s.map.serverTick)) := by
  induction msgs generalizing s with
  | nil => exact ⟨hp, Nat.le_refl _, by simp [after]⟩
  | cons msg msgs ih =>
    obtain ⟨⟨hgrant, hleave⟩, hkept⟩ := List.forall_mem_cons.mp hkept
    obtain ⟨hle, hticks⟩ := hticks.of_cons
    have hmap : (s.handle fromBuffs msg).map = (s.map.handle msg).map := map_handle s msg
    have hstep : (s.handle fromBuffs msg).map.buff p id = (s.map.buff p id).bind
        (·.after ((s.handle fromBuffs msg).map.serverTick - s.map.serverTick)) := by
      rw [hmap, MapActor.buff_handle h hleave, MapActor.lastGrant_eq_none hp hgrant,
        Option.none_or]
    rw [← hmap] at hle hticks
    obtain ⟨hp', hle', hbuff⟩ := ih (hmap ▸ h.handle msg) hticks
      (hmap ▸ MapActor.isSome_players_handle h (by rw [hp]; rfl) hleave) hkept
    rw [after_cons]
    refine ⟨hp', Nat.le_trans hle hle', hbuff.trans ?_⟩
    rw [hstep, Option.bind_assoc]
    congr 1
    funext b
    rw [CombatBuff.after_add]
    congr 1
    omega

variable (fromBuffs) in
/-- A message gave the player `p` the buff at a tick, as the last one with its id, and the player
stayed since then. -/
def LastGranted (s : MapProcess F E) (msgs : List (MapMessage F)) (p : PlayerId)
    (buff : CombatBuff F) (tick : ℕ) : Prop :=
  ∃ before msg later, msgs = before ++ msg :: later ∧
    (s.after fromBuffs before).map.lastGrant p msg buff.id = some buff ∧
    (s.after fromBuffs before).map.serverTick = tick ∧
    ∀ msg' ∈ later, ¬msg'.Regrants p buff.id ∧ msg' ≠ .leavePlayer p

/-- A buff with a duration is there until the tick at which the duration is over. -/
theorem LastGranted.present {buff : CombatBuff F} {tick n : ℕ}
    (h : s.LastGranted fromBuffs msgs p buff tick) (hd : s.map.Distinct)
    (hticks : InOrder s.map.serverTick msgs) (hn : buff.remainingTicks = some n) (hpos : 1 ≤ n) :
    let now := (s.after fromBuffs msgs).map.serverTick
    ∃ player, (s.after fromBuffs msgs).map.players[p]? = some player ∧
      ((∃ b ∈ player.buffs, b.id = buff.id) ↔ now < tick + n) ∧
      ∀ b ∈ player.buffs, b.id = buff.id →
        b = { buff with remainingTicks := some (tick + n - now) } := by
  obtain ⟨before, msg, later, rfl, hgrant, htick, hkept⟩ := h
  have hd' : (s.after fromBuffs before).map.Distinct := distinct_after hd before
  have hticks' : InOrder (s.after fromBuffs before).map.serverTick (msg :: later) :=
    hticks.of_append
  rw [after_append, after_cons]
  generalize s.after fromBuffs before = s₁ at hgrant htick hd' hticks' ⊢
  -- The message that gives the buff is no tick and does not remove the player.
  have hmsg : msg ≠ .leavePlayer p := by
    rintro rfl
    simp [MapActor.lastGrant, MapActor.grants] at hgrant
  have hsame : (s₁.map.handle msg).map.serverTick = tick := by
    rw [(MapActor.fixed_handle _ _).1, ← htick]
    cases msg with
    | advanceTick => simp [MapActor.lastGrant, MapActor.grants] at hgrant
    | _ => rfl
  have hmap : (s₁.handle fromBuffs msg).map = (s₁.map.handle msg).map := map_handle s₁ msg
  have hplayer : (s₁.map.handle msg).map.players[p]?.isSome :=
    MapActor.isSome_players_handle hd'
      (MapActor.present_of_mem_grants (MapActor.mem_grants_of_lastGrant hgrant)) hmsg
  have hbuff : (s₁.map.handle msg).map.buff p buff.id = some buff := by
    rw [MapActor.buff_handle hd' hmsg, hgrant, Option.some_or]
  obtain ⟨hp, hle, hage⟩ := buff_after (hmap ▸ hd'.handle msg) (hmap ▸ hticks'.of_cons.2)
    (hmap ▸ hplayer) hkept
  rw [hmap, hsame] at hle
  rw [hmap, hsame, hbuff, Option.bind_some, CombatBuff.after_of_remaining hn hpos] at hage
  obtain ⟨player, hp⟩ := Option.isSome_iff_exists.mp hp
  rw [MapActor.buff, hp, Option.bind_some] at hage
  have hfind : ∀ b ∈ player.buffs, b.id = buff.id →
      findBy (·.id) player.buffs buff.id = some b := fun b hb hid =>
    hid ▸ findBy_of_mem ((distinct_after (hmap ▸ hd'.handle msg) later).players p player hp) hb
  refine ⟨player, hp, ⟨?_, fun hlt => ?_⟩, fun b hb hid => ?_⟩
  · rintro ⟨b, hb, hid⟩
    rw [hfind b hb hid] at hage
    by_contra hge
    rw [if_neg (by omega)] at hage
    cases hage
  · rw [if_pos (by omega)] at hage
    exact ⟨_, mem_of_findBy hage, rfl⟩
  · rw [hfind b hb hid] at hage
    split_ifs at hage with hlt
    rw [Option.some.inj hage]
    congr 2
    omega

/-- **The buff ledger.** If ticks do not go back, players have buffs with distinct ids; one with `n`
ticks is there until `n` ticks after it was last given; and the last modifiers sent are those of the
player's buffs. -/
theorem buff_ledger_sound (hfrom : Timeless fromBuffs) (mapId : String)
    {entryBuffs : List (CombatBuff F)} (hentry : (entryBuffs.map (·.id)).Nodup)
    (worldTx : Option (List (WorldCommand E))) {msgs : List (MapMessage F)}
    (hticks : (msgs.filterMap (·.tick)).Pairwise (· ≤ ·)) :
    let m := new mapId entryBuffs worldTx
    let s := m.after fromBuffs msgs
    (∀ (p : PlayerId) (player : MapPlayer F), s.map.players[p]? = some player →
      (player.buffs.map (·.id)).Nodup) ∧
    (∀ p buff tick n, m.LastGranted fromBuffs msgs p buff tick → buff.remainingTicks = some n →
      1 ≤ n → ∃ player, s.map.players[p]? = some player ∧
        ((∃ b ∈ player.buffs, b.id = buff.id) ↔ s.map.serverTick < tick + n) ∧
        ∀ b ∈ player.buffs, b.id = buff.id →
          b = { buff with remainingTicks := some (tick + n - s.map.serverTick) }) ∧
    (∀ sent (p : PlayerId) (player : MapPlayer F), s.worldTx = some sent →
      s.map.players[p]? = some player →
      lastModifiers sent p = some (fromBuffs player.buffs)) := by
  intro m s
  have hd : m.map.Distinct := ⟨hentry, fun p player hp => by simp [m, new, MapActor.new] at hp⟩
  refine ⟨(distinct_after hd msgs).players, fun p buff tick n hlast hn hpos => ?_,
    fun sent p => ?_⟩
  · have horder : InOrder 0 msgs := List.pairwise_cons.mpr ⟨fun _ _ => Nat.zero_le _, hticks⟩
    exact hlast.present hd horder hn hpos
  · have hknows : m.Knows fromBuffs p := fun _ player _ hp => by
      simp [m, new, MapActor.new] at hp
    exact hknows.after hfrom msgs sent

section Examples

/-- A buff that comes with every entry. -/
def ward : CombatBuff ℕ := ⟨"ward", 1, 1, some 5, false⟩

/-- The player with the id 7 enters a map. -/
def enterSeven : MapMessage ℕ :=
  .enterPlayer ⟨⟨7, "Player 7", none⟩, "player:7", ⟨18, 140⟩, []⟩

def quickness : CombatBuff ℕ := ⟨"quickness", 1, 2, some 3, true⟩

/-- The player gets a buff at the tick 1, for three ticks. -/
def quickMessages : List (MapMessage ℕ) :=
  [enterSeven, .advanceTick 1, .applyCombatBuff 7 quickness, .advanceTick 2, .advanceTick 4]

def wardedArena : MapProcess ℕ (EffectiveModifiers ℕ) := new "arena" [ward] (some [])

theorem lastGranted_quickness :
    wardedArena.LastGranted EffectiveModifiers.fromBuffs quickMessages 7 quickness 1 :=
  ⟨[enterSeven, .advanceTick 1], .applyCombatBuff 7 quickness, [.advanceTick 2, .advanceTick 4],
    rfl, by decide +kernel, by decide +kernel, by simp [MapMessage.Regrants]⟩

theorem buff_ledger_sound_quickness :
    ∃ player, (wardedArena.after EffectiveModifiers.fromBuffs quickMessages).map.players[
        (7 : PlayerId)]? = some player ∧
      ¬(∃ b ∈ player.buffs, b.id = "quickness") ∧
      lastModifiers [.updateModifiers 7 ⟨1, 1⟩, .updateModifiers 7 ⟨1, 2⟩,
        .updateModifiers 7 ⟨1, 1⟩] 7 = some (EffectiveModifiers.fromBuffs player.buffs) := by
  obtain ⟨-, hpresent, hknown⟩ := @buff_ledger_sound ℕ (EffectiveModifiers ℕ) _ _ _
    EffectiveModifiers.timeless_fromBuffs "arena" [ward] (by simp) (some []) quickMessages
    (by decide)
  obtain ⟨player, hp, hiff, -⟩ := hpresent 7 quickness 1 3 lastGranted_quickness rfl (by decide)
  have hnow : ¬(wardedArena.after EffectiveModifiers.fromBuffs
      quickMessages).map.serverTick < 1 + 3 := by decide +kernel
  have hsent : (wardedArena.after EffectiveModifiers.fromBuffs quickMessages).worldTx =
      some [.updateModifiers 7 ⟨1, 1⟩, .updateModifiers 7 ⟨1, 2⟩, .updateModifiers 7 ⟨1, 1⟩] := by
    decide +kernel
  exact ⟨player, hp, fun h => hnow (hiff.mp h), hknown _ 7 player hsent hp⟩

/-- All the ticks that buffs will still last. -/
def totalTicks (buffs : List (CombatBuff ℕ)) : ℕ := (buffs.filterMap (·.remainingTicks)).sum

/-- **Ticks that end no buff are not told.** A function of durations has another value than the last
one sent, and a buff is gone with its player. -/
theorem silent_countdown :
    let m : MapProcess ℕ ℕ := new "arena" [ward] (some [])
    let s := m.after totalTicks [enterSeven, .advanceTick 1]
    let s' := m.after totalTicks [enterSeven, .leavePlayer 7]
    s.worldTx = some [.updateModifiers 7 5] ∧
      s.map.players[(7 : PlayerId)]?.map (fun player => totalTicks player.buffs) = some 4 ∧
      m.map.lastGrant 7 enterSeven "ward" = some ward ∧ s'.map.serverTick < 0 + 5 ∧
      s'.map.buff 7 "ward" = none := by
  decide +kernel

end Examples

end MapProcess

end RustExample.GameServer
