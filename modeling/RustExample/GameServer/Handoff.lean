import RustExample.Foundation.Run
import RustExample.GameServer.Actors

/-!
# The handoff of portable buffs between a player and its maps

A player enters and leaves maps and asks them for buffs. A question to a map may fail before it
arrives, or be answered without the answer arriving. A portable buff is at one place at a time:
the bank of the player, or the list of one map. On the way to a map it counts as there, on the way
back as banked.

Source: `bevy_workspace_example/game_server/src/actor/player.rs`, `map.rs`.

* Other actors may send a map any message except the entry and the leaving of this player.
* `live` is a record of the run beside the program: the portable ids that maps granted, less those
  whose buff ran out or was replaced by one that is not portable.
-/

namespace RustExample.GameServer

/-! ### Portable buffs of a map -/

/-- The ids of the portable buffs. -/
def portableIds {F : Type} (buffs : List (CombatBuff F)) : List String :=
  (buffs.filter (·.portable)).map (·.id)

section PortableIds

variable {F : Type} {buffs : List (CombatBuff F)} {x : String}

theorem mem_portableIds : x ∈ portableIds buffs ↔ ∃ b ∈ buffs, b.portable ∧ b.id = x := by
  simp [portableIds, and_assoc]

theorem mem_of_mem_portableIds_upsert {b : CombatBuff F}
    (h : x ∈ portableIds (upsertBy (·.id) buffs b)) :
    x ∈ portableIds buffs ∨ b.portable ∧ b.id = x := by
  obtain ⟨c, hc, hport, hid⟩ := mem_portableIds.mp h
  rcases eq_or_mem_of_mem_upsertBy hc with rfl | hc
  · exact .inr ⟨hport, hid⟩
  · exact .inl (mem_portableIds.mpr ⟨c, hc, hport, hid⟩)

theorem mem_portableIds_upsert_self {b : CombatBuff F} (hb : b.portable) :
    b.id ∈ portableIds (upsertBy (·.id) buffs b) :=
  mem_portableIds.mpr ⟨b, mem_upsertBy_self buffs b, hb, rfl⟩

theorem mem_portableIds_upsert {b : CombatBuff F} (hb : b.portable) (h : x ∈ portableIds buffs) :
    x ∈ portableIds (upsertBy (·.id) buffs b) := by
  obtain ⟨c, hc, hport, rfl⟩ := mem_portableIds.mp h
  by_cases hid : c.id = b.id
  · rw [hid]
    exact mem_portableIds_upsert_self hb
  · exact mem_portableIds.mpr ⟨c, mem_upsertBy_of_ne hc hid, hport, rfl⟩

/-- The portable ids of an entry after portable buffs were put into it. -/
theorem mem_portableIds_foldl_upsertBuff {bs : List (CombatBuff F)} (hbs : ∀ b ∈ bs, b.portable)
    (p : MapPlayer F) :
    x ∈ portableIds (bs.foldl MapPlayer.upsertBuff p).buffs ↔
      x ∈ portableIds p.buffs ∨ x ∈ portableIds bs := by
  induction bs generalizing p with
  | nil => simp [portableIds]
  | cons b bs ih =>
    have hb := hbs b List.mem_cons_self
    have hcons : x ∈ portableIds (b :: bs) ↔ b.id = x ∨ x ∈ portableIds bs := by
      simp [mem_portableIds, hb]
    rw [List.foldl_cons, ih fun c hc => hbs c (List.mem_cons_of_mem b hc), hcons, ← or_assoc]
    refine or_congr_left ⟨fun h => ?_, fun h => ?_⟩
    · exact (mem_of_mem_portableIds_upsert h).imp_right And.right
    · rcases h with h | rfl
      · exact mem_portableIds_upsert hb h
      · exact mem_portableIds_upsert_self hb

theorem mem_of_mem_portableIds_elapse {p : MapPlayer F} {delta : ℕ}
    (h : x ∈ portableIds (p.elapse delta).buffs) : x ∈ portableIds p.buffs := by
  obtain ⟨b, hb, hport, rfl⟩ := mem_portableIds.mp h
  obtain ⟨c, hc, rfl⟩ := List.mem_map.mp (List.mem_of_mem_filter hb)
  exact mem_portableIds.mpr ⟨c, hc, hport, rfl⟩

end PortableIds

variable {κ F : Type}

namespace MapActor

variable {m : MapActor F} {p : PlayerId} {msg : MapMessage F} {x : String}

/-- The portable buffs that a map holds for a player. -/
def portableIds (m : MapActor F) (p : PlayerId) : List String :=
  match m.players[p]? with
  | some entry => GameServer.portableIds entry.buffs
  | none => []

/-- The portable buffs that a message creates for a player. -/
def granted (m : MapActor F) (p : PlayerId) : MapMessage F → List String
  | .enterPlayer msg =>
    if msg.profile.id = p ∧ m.players[p]? = none then GameServer.portableIds m.entryBuffs else []
  | .applyCombatBuff playerId buff =>
    if playerId = p ∧ p ∈ m.players then GameServer.portableIds [buff] else []
  | _ => []

variable [Mul F] [One F] in
/-- The portable buffs of a player that a message ends: they ran out or were replaced. -/
def lapsed (m : MapActor F) (p : PlayerId) : MapMessage F → List String
  | .leavePlayer _ => []
  | msg => (m.portableIds p).filter (· ∉ (m.handle msg).map.portableIds p)

end MapActor

/-- The messages by which a player enters and leaves. -/
def MapMessage.IsHandoff (p : PlayerId) : MapMessage F → Prop
  | .enterPlayer msg => msg.profile.id = p
  | .leavePlayer playerId => playerId = p
  | _ => False

namespace MapActor

variable {m : MapActor F} {p : PlayerId} {msg : MapMessage F} {x : String}

theorem mem_portableIds :
    x ∈ m.portableIds p ↔
      ∃ e, m.players[p]? = some e ∧ x ∈ GameServer.portableIds e.buffs := by
  unfold portableIds
  cases m.players[p]? <;> simp

theorem portableIds_leavePlayer : (m.leavePlayer p).map.portableIds p = [] := by
  simp [portableIds]

/-- A player who leaves takes the portable buffs along. -/
theorem mem_portableIds_iff_reply :
    x ∈ m.portableIds p ↔ ∃ buffs, (m.leavePlayer p).reply = .left (some buffs) ∧
      x ∈ GameServer.portableIds buffs := by
  unfold portableIds leavePlayer
  cases m.players[p]? with
  | none => simp
  | some e => simp [GameServer.portableIds]

theorem portable_of_reply {buffs : List (CombatBuff F)}
    (h : (m.leavePlayer p).reply = .left (some buffs)) : ∀ b ∈ buffs, b.portable := by
  unfold leavePlayer at h
  cases he : m.players[p]? with
  | none => simp [he] at h
  | some e =>
    obtain rfl : e.buffs.filter (·.portable) = buffs := by simpa [he] using h
    exact fun b hb => (List.mem_filter.mp hb).2

variable [Mul F] [One F]

/-- What a message other than a handoff makes of the entry of a player. -/
theorem players_handle (hmsg : ¬msg.IsHandoff p) :
    ∃ f : MapPlayer F → MapPlayer F, (m.handle msg).map.players[p]? = m.players[p]?.map f ∧
      ∀ e x, x ∈ GameServer.portableIds (f e).buffs → x ∈ GameServer.portableIds e.buffs ∨
        ∃ buff, msg = .applyCombatBuff p buff ∧ x ∈ GameServer.portableIds [buff] := by
  cases msg with
  | enterPlayer msg =>
    exact ⟨id, by simp [handle, show msg.profile.id ≠ p from hmsg], fun _ _ => .inl⟩
  | leavePlayer playerId =>
    exact ⟨id, by simp [handle, show playerId ≠ p from hmsg], fun _ _ => .inl⟩
  | attachLocalPlayer playerId player =>
    refine ⟨fun e => if playerId = p then { e with link := some player } else e, ?_, ?_⟩
    · by_cases hp : playerId = p <;> simp [handle, hp]
    · by_cases hp : playerId = p <;> simp +contextual [hp]
  | updateVitals playerId vitals =>
    refine ⟨fun e => if playerId = p then { e with vitals } else e, ?_, ?_⟩
    · by_cases hp : playerId = p <;> simp [handle, hp]
    · by_cases hp : playerId = p <;> simp +contextual [hp]
  | advanceTick tick =>
    by_cases hdelta : tick - m.serverTick = 0
    · exact ⟨id, by simp [handle, hdelta], fun _ _ => .inl⟩
    · exact ⟨(·.elapse (tick - m.serverTick)), by simp [handle, hdelta],
        fun _ _ h => .inl (mem_of_mem_portableIds_elapse h)⟩
  | applyCombatBuff playerId buff =>
    by_cases hp : playerId = p
    · subst hp
      refine ⟨(·.upsertBuff buff), by simp [handle], fun e x h => ?_⟩
      refine (mem_of_mem_portableIds_upsert h).imp_right fun hbuff => ⟨buff, rfl, ?_⟩
      exact GameServer.mem_portableIds.mpr ⟨buff, List.mem_singleton_self buff, hbuff⟩
    · exact ⟨id, by simp [handle, hp], fun _ _ => .inl⟩

/-- Any other message holds on to what was there or was granted. -/
theorem mem_of_mem_portableIds_handle (hmsg : ¬msg.IsHandoff p)
    (h : x ∈ (m.handle msg).map.portableIds p) : x ∈ m.portableIds p ∨ x ∈ m.granted p msg := by
  obtain ⟨f, hf, hbuffs⟩ := players_handle (m := m) hmsg
  obtain ⟨e', he', hx⟩ := mem_portableIds.mp h
  obtain ⟨e, he, rfl⟩ := Option.map_eq_some_iff.mp (hf ▸ he')
  rcases hbuffs e x hx with hx | ⟨buff, rfl, hx⟩
  · exact .inl (mem_portableIds.mpr ⟨e, he, hx⟩)
  · have hp : p ∈ m.players := Std.ExtTreeMap.mem_iff_isSome_getElem?.mpr (by simp [he])
    exact .inr (by simpa [granted, hp] using hx)

theorem mem_portableIds_of_granted (h : x ∈ m.granted p msg) (hmsg : ¬msg.IsHandoff p) :
    x ∈ (m.handle msg).map.portableIds p := by
  cases msg with
  | applyCombatBuff playerId buff =>
    rw [granted] at h
    split_ifs at h with hp
    · obtain ⟨rfl, hp⟩ := hp
      obtain ⟨e, he⟩ := Option.isSome_iff_exists.mp (Std.ExtTreeMap.mem_iff_isSome_getElem?.mp hp)
      obtain ⟨b, hb, hport, rfl⟩ := GameServer.mem_portableIds.mp h
      obtain rfl := List.mem_singleton.mp hb
      exact mem_portableIds.mpr ⟨e.upsertBuff b, by simp [handle, he],
        mem_portableIds_upsert_self hport⟩
    · simp at h
  | enterPlayer msg => simp [granted, show msg.profile.id ≠ p from hmsg] at h
  | _ => simp [granted] at h

theorem mem_portableIds_of_notMem_lapsed (hmsg : ¬msg.IsHandoff p) (h : x ∈ m.portableIds p)
    (hx : x ∉ m.lapsed p msg) : x ∈ (m.handle msg).map.portableIds p := by
  cases msg with
  | leavePlayer playerId => simpa [handle, portableIds, show playerId ≠ p from hmsg] using h
  | _ => simpa [lapsed, h] using hx

theorem mem_portableIds_enterPlayer {msg : EnterPlayer F} (hid : msg.profile.id = p)
    (hport : ∀ b ∈ msg.portableBuffs, b.portable) :
    x ∈ (m.enterPlayer msg).map.portableIds p ↔
      x ∈ m.portableIds p ∨ x ∈ m.granted p (.enterPlayer msg) ∨
        x ∈ GameServer.portableIds msg.portableBuffs := by
  have hentry : (m.enterPlayer msg).map.portableIds p =
      GameServer.portableIds (m.entryOf msg).buffs := by simp [portableIds, hid]
  rw [hentry, entryOf, mem_portableIds_foldl_upsertBuff hport, ← or_assoc]
  refine or_congr_left ?_
  cases he : m.players[p]? <;> simp [portableIds, granted, hid, he, GameServer.portableIds]

end MapActor

/-! ### The player and its maps -/

/-- A player with the maps. -/
structure World (κ F : Type) where
  player : PlayerActor κ F
  maps : κ → MapActor F
  ask : Option (Ask κ F)
  live : List String

namespace World

/-- The player is in no map. -/
def init (profile : PlayerProfile) (registryName : String) (mapIds : κ → String)
    (entryBuffs : κ → List (CombatBuff F)) : World κ F :=
  ⟨.new profile registryName, fun k => .new (mapIds k) (entryBuffs k), none, []⟩

/-- What may happen. -/
inductive Event (κ F : Type) where
  | enterMap (map : κ) (vitals : MapVitals)
  | leaveMap
  | requestCombatBuff (buff : CombatBuff F)
  /-- The question fails before it reaches the map. -/
  | unreached
  /-- The map handles the question; its answer may be lost. -/
  | executed (lost : Bool)
  | resumed
  /-- A map handles a message of another actor. -/
  | other (map : κ) (msg : MapMessage F)

/-- The number of the player. -/
def playerId (w : World κ F) : PlayerId := w.player.profile.id

/-- The player asks to enter. -/
def enterMap (w : World κ F) (map : κ) (vitals : MapVitals) : World κ F :=
  { w with
    player := (w.player.enterMap vitals).1
    ask := some ⟨map, .enterPlayer (w.player.enterMap vitals).2, none⟩ }

/-- The player asks to leave. -/
def leaveMap (w : World κ F) : World κ F :=
  { w with
    player := w.player.leaveMap.1
    ask := w.player.leaveMap.2.map fun map => ⟨map, .leavePlayer w.playerId, none⟩ }

/-- The player asks for a buff. -/
def requestCombatBuff (w : World κ F) (buff : CombatBuff F) : World κ F :=
  { w with ask := w.player.mapLink.map fun map => ⟨map, .applyCombatBuff w.playerId buff, none⟩ }

/-- A question is in flight. -/
def asking (w : World κ F) (ask : Option (Ask κ F)) : World κ F := { w with ask }

section Steps

variable [Mul F] [One F] [DecidableEq κ]

/-- A map handles a message. -/
def deliver (w : World κ F) (map : κ) (msg : MapMessage F) : World κ F :=
  { w with
    maps := Function.update w.maps map ((w.maps map).handle msg).map
    live := w.live.filter (· ∉ (w.maps map).lapsed w.playerId msg) ++
      (w.maps map).granted w.playerId msg }

/-- One step of the player, of a map or of the network. -/
inductive Step : World κ F → Event κ F → World κ F → Prop
  | enterMap {w : World κ F} (hidle : w.ask = none) (map : κ) (vitals : MapVitals) :
      Step w (.enterMap map vitals) (w.enterMap map vitals)
  | leaveMap {w : World κ F} (hidle : w.ask = none) : Step w .leaveMap w.leaveMap
  | requestCombatBuff {w : World κ F} (hidle : w.ask = none) (buff : CombatBuff F) :
      Step w (.requestCombatBuff buff) (w.requestCombatBuff buff)
  | unreached {w : World κ F} {map : κ} {request : MapMessage F}
      (h : w.ask = some ⟨map, request, none⟩) :
      Step w .unreached (w.asking (some ⟨map, request, some none⟩))
  | executed {w : World κ F} {map : κ} {request : MapMessage F}
      (h : w.ask = some ⟨map, request, none⟩) (lost : Bool) :
      Step w (.executed lost) ((w.deliver map request).asking (some ⟨map, request,
        some (if lost then none else some ((w.maps map).handle request).reply)⟩))
  | resumed {w : World κ F} {map : κ} {request : MapMessage F} {answer : Option (MapReply F)}
      (h : w.ask = some ⟨map, request, some answer⟩) :
      Step w .resumed { w with player := w.player.resume map request answer, ask := none }
  | other {w : World κ F} {map : κ} {msg : MapMessage F} (h : ¬msg.IsHandoff w.playerId) :
      Step w (.other map msg) (w.deliver map msg)

end Steps

/-! ### Places of a buff -/

/-- Where a buff may be. -/
inductive Place (κ : Type) where
  | banked
  | map (k : κ)

/-- The places that hold a portable buff. -/
def Holds (w : World κ F) : Place κ → String → Prop
  | .banked, x => x ∈ portableIds w.player.bankedBuffs
  | .map k, x => x ∈ (w.maps k).portableIds w.playerId

instance (w : World κ F) : (place : Place κ) → (x : String) → Decidable (w.Holds place x)
  | .banked, x => inferInstanceAs (Decidable (x ∈ portableIds w.player.bankedBuffs))
  | .map k, x => inferInstanceAs (Decidable (x ∈ (w.maps k).portableIds w.playerId))

/-- The buffs of a question in flight, with the place that they go to. -/
def underway : Option (Ask κ F) → Option (Place κ × List (CombatBuff F))
  | some ⟨k, .enterPlayer msg, none⟩ => some (.map k, msg.portableBuffs)
  | some ⟨_, .leavePlayer _, some (some (.left (some buffs)))⟩ => some (.banked, buffs)
  | _ => none

/-- The places that hold a portable buff or are about to get it. -/
def Reserves (w : World κ F) (place : Place κ) (x : String) : Prop :=
  w.Holds place x ∨ ∃ buffs, underway w.ask = some (place, buffs) ∧ x ∈ portableIds buffs

/-- A message grants no portable buff that another place has. -/
def GrantsNew (w : World κ F) (map : κ) (msg : MapMessage F) : Prop :=
  ∀ x ∈ (w.maps map).granted w.playerId msg, ∀ place, w.Reserves place x → place = .map map

/-- The steps that lose and copy no buff: a failing entry carries none, a leave whose answer is lost
finds none, and what is granted is nowhere else. -/
def Careful (w : World κ F) : Event κ F → Prop
  | .unreached => ∀ map msg, w.ask = some ⟨map, .enterPlayer msg, none⟩ → msg.portableBuffs = []
  | .executed lost => ∀ map request, w.ask = some ⟨map, request, none⟩ →
      w.GrantsNew map request ∧ (lost = true → ∀ p, request = .leavePlayer p →
        (w.maps map).portableIds p = [])
  | .other map msg => w.GrantsNew map msg
  | _ => True

/-! ### The invariant -/

/-- A portable buff is at one place at a time, and every live one is somewhere. -/
structure Kept (w : World κ F) : Prop where
  unique : ∀ x p p', w.Reserves p x → w.Reserves p' x → p = p'
  live : ∀ x ∈ w.live, ∃ p, w.Reserves p x

/-- What the bank and the question in flight say about each other. -/
structure Banked (w : World κ F) : Prop where
  portable : ∀ b ∈ w.player.bankedBuffs, b.portable
  underway_portable : ∀ place buffs, underway w.ask = some (place, buffs) → ∀ b ∈ buffs, b.portable
  empty : w.player.mapLink ≠ none ∨ w.ask ≠ none → w.player.bankedBuffs = []
  entering : ∀ k msg answer, w.ask = some ⟨k, .enterPlayer msg, answer⟩ →
    msg.profile.id = w.playerId
  leaving : ∀ k p answer, w.ask = some ⟨k, .leavePlayer p, answer⟩ →
    p = w.playerId ∧ w.player.mapLink = none

variable {w w' : World κ F}

@[simp] theorem ask_asking (w : World κ F) (ask : Option (Ask κ F)) : (w.asking ask).ask = ask :=
  rfl

@[simp] theorem underway_none : underway (none : Option (Ask κ F)) = none := rfl

/-- A step after which every place reserves what it did, or what was granted to it. -/
theorem Kept.grant (place : Place κ) {granted : List String} (hw : w.Kept)
    (hnew : ∀ x ∈ granted, ∀ p, w.Reserves p x → p = place)
    (hof : ∀ p x, w'.Reserves p x → w.Reserves p x ∨ p = place ∧ x ∈ granted)
    (hlive : ∀ x ∈ w'.live, ∃ p, w'.Reserves p x) : w'.Kept := by
  refine ⟨fun x p p' hp hp' => ?_, hlive⟩
  rcases hof p x hp with hp | ⟨rfl, hx⟩ <;> rcases hof p' x hp' with hp' | ⟨rfl, hx'⟩
  · exact hw.unique x p p' hp hp'
  · exact hnew x hx' p hp
  · exact (hnew x hx p' hp').symm
  · rfl

/-- A step that takes what one place reserves to another one. -/
theorem Kept.move {a b : Place κ} (hw : w.Kept)
    (hof : ∀ p x, w'.Reserves p x → p ≠ a ∧ w.Reserves p x ∨ p = b ∧ w.Reserves a x)
    (hlive : ∀ x ∈ w'.live, ∃ p, w'.Reserves p x) : w'.Kept := by
  refine ⟨fun x p p' hp hp' => ?_, hlive⟩
  rcases hof p x hp with ⟨hne, hp⟩ | ⟨rfl, hp⟩ <;>
    rcases hof p' x hp' with ⟨hne', hp'⟩ | ⟨rfl, hp'⟩
  · exact hw.unique x p p' hp hp'
  · exact absurd (hw.unique x p a hp hp') hne
  · exact absurd (hw.unique x p' a hp' hp) hne'
  · rfl

theorem Kept.same (hw : w.Kept) (hplace : ∀ p x, w'.Reserves p x ↔ w.Reserves p x)
    (hlive : ∀ x ∈ w'.live, x ∈ w.live) : w'.Kept := by
  refine ⟨fun x p p' hp hp' => ?_, fun x hx => ?_⟩
  · exact hw.unique x p p' ((hplace p x).mp hp) ((hplace p' x).mp hp')
  · obtain ⟨p, hp⟩ := hw.live x (hlive x hx)
    exact ⟨p, (hplace p x).mpr hp⟩

section Steps

variable [Mul F] [One F] [DecidableEq κ] {map : κ} {msg : MapMessage F}

variable {ask : Option (Ask κ F)} {place : Place κ} {x : String}

theorem holds_deliver_self :
    ((w.deliver map msg).asking ask).Holds (.map map) x ↔
      x ∈ ((w.maps map).handle msg).map.portableIds w.playerId := by
  simp only [Holds, asking, deliver, playerId, Function.update_self]

theorem holds_deliver_of_ne (hp : place ≠ .map map) :
    ((w.deliver map msg).asking ask).Holds place x ↔ w.Holds place x := by
  cases place with
  | banked => rfl
  | map k =>
    have hk : k ≠ map := fun h => hp (congrArg Place.map h)
    simp only [Holds, asking, deliver, playerId, Function.update_of_ne hk]

theorem Kept.deliver (hw : w.Kept) (hmsg : ¬msg.IsHandoff w.playerId) (hnew : w.GrantsNew map msg)
    (hask : underway ask = underway w.ask) : ((w.deliver map msg).asking ask).Kept := by
  refine hw.grant (.map map) hnew (fun p x hx => ?_) fun x hx => ?_
  · rcases hx with hx | hx
    · by_cases hp : p = .map map
      · subst hp
        exact (MapActor.mem_of_mem_portableIds_handle hmsg (holds_deliver_self.mp hx)).imp
          .inl fun h => ⟨rfl, h⟩
      · exact .inl (.inl ((holds_deliver_of_ne hp).mp hx))
    · exact .inl (.inr (hask ▸ hx))
  · rcases List.mem_append.mp hx with hx | hx
    · obtain ⟨hx, hlapsed⟩ := List.mem_filter.mp hx
      obtain ⟨p, hp⟩ := hw.live x hx
      refine ⟨p, hp.imp (fun hx => ?_) fun hx => hask ▸ hx⟩
      by_cases hp : p = .map map
      · subst hp
        exact holds_deliver_self.mpr
          (MapActor.mem_portableIds_of_notMem_lapsed hmsg hx (by simpa using hlapsed))
      · exact (holds_deliver_of_ne hp).mpr hx
    · exact ⟨.map map,
        .inl (holds_deliver_self.mpr (MapActor.mem_portableIds_of_granted hx hmsg))⟩

/-- The entry of the player: what was on its way has arrived. -/
theorem Kept.deliver_enter {msg : EnterPlayer F} (hw : w.Kept) (hid : msg.profile.id = w.playerId)
    (hport : ∀ b ∈ msg.portableBuffs, b.portable)
    (hunderway : underway w.ask = some (.map map, msg.portableBuffs))
    (hnew : w.GrantsNew map (.enterPlayer msg)) (hask : underway ask = none) :
    ((w.deliver map (.enterPlayer msg)).asking ask).Kept := by
  have hhere : ∀ x, ((w.deliver map (.enterPlayer msg)).asking ask).Reserves (.map map) x ↔
      w.Reserves (.map map) x ∨ x ∈ (w.maps map).granted w.playerId (.enterPlayer msg) := by
    intro x
    have hbefore : w.Reserves (.map map) x ↔
        x ∈ (w.maps map).portableIds w.playerId ∨ x ∈ portableIds msg.portableBuffs := by
      simp [Reserves, Holds, hunderway]
    have hafter : ((w.deliver map (.enterPlayer msg)).asking ask).Reserves (.map map) x ↔
        x ∈ ((w.maps map).enterPlayer msg).map.portableIds w.playerId := by
      simp only [Reserves, ask_asking, hask, holds_deliver_self, reduceCtorEq, false_and,
        exists_false, or_false]
      rfl
    rw [hbefore, hafter, MapActor.mem_portableIds_enterPlayer hid hport]
    tauto
  have hother : ∀ p x, p ≠ .map map →
      (((w.deliver map (.enterPlayer msg)).asking ask).Reserves p x ↔ w.Reserves p x) := by
    intro p x hp
    simp [Reserves, hask, hunderway, holds_deliver_of_ne hp, Ne.symm hp]
  refine hw.grant (.map map) hnew (fun p x hx => ?_) fun x hx => ?_
  · by_cases hp : p = .map map
    · subst hp
      exact ((hhere x).mp hx).imp_right fun h => ⟨rfl, h⟩
    · exact .inl ((hother p x hp).mp hx)
  · rcases List.mem_append.mp hx with hx | hx
    · obtain ⟨p, hp⟩ := hw.live x (List.mem_of_mem_filter hx)
      refine ⟨p, ?_⟩
      by_cases hne : p = .map map
      · subst hne
        exact (hhere x).mpr (.inl hp)
      · exact (hother p x hne).mpr hp
    · exact ⟨.map map, (hhere x).mpr (.inr hx)⟩

omit [Mul F] [One F] [DecidableEq κ] in
theorem underway_leave {q : PlayerId} {reply : MapReply F} {buffs : List (CombatBuff F)} :
    underway (some ⟨map, .leavePlayer q, some (some reply)⟩) = some (place, buffs) ↔
      place = .banked ∧ reply = .left (some buffs) := by
  rcases reply with _ | _ | (_ | l) | _ <;> simp [underway, eq_comm]

theorem live_deliver_leave (h : x ∈ ((w.deliver map (.leavePlayer w.playerId)).asking ask).live) :
    x ∈ w.live := by
  simpa [asking, World.deliver, MapActor.lapsed, MapActor.granted] using h

/-- The player leaves: what the map held is on its way back. -/
theorem Kept.deliver_leave (hw : w.Kept) (hunderway : underway w.ask = none)
    (hask : ask = some ⟨map, .leavePlayer w.playerId,
      some (some ((w.maps map).leavePlayer w.playerId).reply)⟩) :
    ((w.deliver map (.leavePlayer w.playerId)).asking ask).Kept := by
  have hback : ∀ x, x ∈ (w.maps map).portableIds w.playerId ↔
      ∃ buffs, underway ask = some (.banked, buffs) ∧ x ∈ portableIds buffs := by
    intro x
    simp only [hask, underway_leave, true_and]
    exact MapActor.mem_portableIds_iff_reply
  refine hw.move (a := .map map) (b := .banked) (fun p x hx => ?_) fun x hx => ?_
  · rcases hx with hx | ⟨buffs, hbuffs, hx⟩
    · by_cases hp : p = .map map
      · subst hp
        rw [holds_deliver_self] at hx
        simp [MapActor.handle, MapActor.portableIds_leavePlayer] at hx
      · exact .inl ⟨hp, .inl ((holds_deliver_of_ne hp).mp hx)⟩
    · obtain ⟨rfl, hreply⟩ := underway_leave.mp (hask ▸ hbuffs)
      exact .inr ⟨rfl, .inl ((hback x).mpr ⟨buffs, hbuffs, hx⟩)⟩
  · obtain ⟨p, hp | ⟨buffs, hbuffs, -⟩⟩ := hw.live x (live_deliver_leave hx)
    · by_cases hne : p = .map map
      · subst hne
        exact ⟨.banked, .inr ((hback x).mp hp)⟩
      · exact ⟨p, .inl ((holds_deliver_of_ne hne).mpr hp)⟩
    · simp [hunderway] at hbuffs

/-- The answer to a leave is lost; the map held nothing. -/
theorem Kept.deliver_lost_leave (hw : w.Kept) (hunderway : underway w.ask = none)
    (hnone : (w.maps map).portableIds w.playerId = []) (hask : underway ask = none) :
    ((w.deliver map (.leavePlayer w.playerId)).asking ask).Kept := by
  have hplace : ∀ p x, ((w.deliver map (.leavePlayer w.playerId)).asking ask).Reserves p x ↔
      w.Reserves p x := by
    intro p x
    simp only [Reserves, ask_asking, hask, hunderway, reduceCtorEq, false_and, exists_false,
      or_false]
    by_cases hp : p = .map map
    · subst hp
      rw [holds_deliver_self]
      simp [MapActor.handle, MapActor.portableIds_leavePlayer, Holds, hnone]
    · exact holds_deliver_of_ne hp
  exact hw.same hplace fun x => live_deliver_leave

omit [Mul F] [One F] [DecidableEq κ] in
/-- Once a question is answered, only a leave brings buffs. -/
theorem underway_answered {request : MapMessage F} {answer : Option (MapReply F)}
    {buffs : List (CombatBuff F)}
    (h : underway (some ⟨map, request, some answer⟩) = some (place, buffs)) :
    ∃ p, request = .leavePlayer p ∧ answer = some (.left (some buffs)) := by
  cases request with
  | leavePlayer p =>
    cases answer with
    | none => simp [underway] at h
    | some reply =>
      obtain ⟨-, rfl⟩ := underway_leave.mp h
      exact ⟨p, rfl, rfl⟩
  | _ => simp [underway] at h

omit [Mul F] [One F] [DecidableEq κ] in
/-- The answer to a question arrives or is known to be missing. -/
theorem Banked.answer {request : MapMessage F} {answer : Option (MapReply F)} (hw : w.Banked)
    (h : w.ask = some ⟨map, request, none⟩) (hplayer : w'.player = w.player)
    (hask : w'.ask = some ⟨map, request, some answer⟩)
    (hanswer : ∀ p buffs, request = .leavePlayer p → answer = some (.left (some buffs)) →
      ∀ b ∈ buffs, b.portable) : w'.Banked := by
  have hid : w'.playerId = w.playerId := congrArg (·.profile.id) hplayer
  have hempty := hw.empty (.inr (by simp [h]))
  refine ⟨hplayer ▸ hw.portable, fun place buffs hbuffs => ?_, fun _ => hplayer ▸ hempty, ?_, ?_⟩
  · obtain ⟨p, hrequest, hleft⟩ := underway_answered (hask ▸ hbuffs)
    exact hanswer p buffs hrequest hleft
  · rintro k msg a ha
    obtain ⟨rfl, rfl, -⟩ : map = k ∧ request = .enterPlayer msg ∧ some answer = a := by
      simpa [hask] using ha
    exact hid ▸ hw.entering _ _ _ h
  · rintro k p a ha
    obtain ⟨rfl, rfl, -⟩ : map = k ∧ request = .leavePlayer p ∧ some answer = a := by
      simpa [hask] using ha
    exact hid ▸ hplayer ▸ hw.leaving _ _ _ h

omit [Mul F] [One F] [DecidableEq κ] in
theorem resume_cases (player : PlayerActor κ F) (map : κ) (request : MapMessage F)
    (answer : Option (MapReply F)) :
    (player.resume map request answer).bankedBuffs = player.bankedBuffs ∧
        underway (some ⟨map, request, some answer⟩) = none ∨
      ∃ p buffs, request = .leavePlayer p ∧ answer = some (.left (some buffs)) := by
  cases request with
  | enterPlayer msg => rcases answer with _ | (_ | _ | _ | _) <;> exact .inl ⟨rfl, rfl⟩
  | leavePlayer p =>
    rcases answer with _ | (_ | _ | (_ | buffs) | _)
    case some.left.some => exact .inr ⟨p, buffs, rfl, rfl⟩
    all_goals exact .inl ⟨rfl, rfl⟩
  | _ => exact .inl ⟨rfl, rfl⟩

/-- One step keeps what the bank and the question say about each other. -/
theorem Banked.step {w w' : World κ F} {e : Event κ F} (hw : w.Banked) (h : Step w e w') :
    w'.Banked := by
  cases h with
  | enterMap hidle k vitals =>
    refine ⟨by simp [World.enterMap, PlayerActor.enterMap], ?_, fun _ => rfl, ?_, ?_⟩
    · rintro place buffs hbuffs
      obtain ⟨-, rfl⟩ : _ ∧ w.player.bankedBuffs = buffs := by
        simpa [World.enterMap, PlayerActor.enterMap, underway] using hbuffs
      exact hw.portable
    · rintro k' msg a ha
      obtain ⟨-, rfl, -⟩ : _ ∧ (w.player.enterMap vitals).2 = msg ∧ _ := by
        simpa [World.enterMap] using ha
      rfl
    · simp [World.enterMap]
  | leaveMap hidle =>
    refine ⟨hw.portable, ?_, fun h => hw.empty (.inl ?_), ?_, ?_⟩
    · rintro place buffs hbuffs
      cases hlink : w.player.mapLink <;>
        simp [World.leaveMap, PlayerActor.leaveMap, underway, hlink] at hbuffs
    · rintro hlink
      simp [World.leaveMap, PlayerActor.leaveMap, hlink] at h
    · rintro k msg a ha
      simp [World.leaveMap] at ha
    · rintro k p a ha
      obtain ⟨-, rfl, -⟩ : _ ∧ w.playerId = p ∧ none = a := by
        simpa [World.leaveMap] using ha
      exact ⟨rfl, rfl⟩
  | requestCombatBuff hidle buff =>
    refine ⟨hw.portable, ?_, fun h => hw.empty (.inl ?_), ?_, ?_⟩
    · rintro place buffs hbuffs
      cases hlink : w.player.mapLink <;>
        simp [World.requestCombatBuff, underway, hlink] at hbuffs
    · rintro hlink
      simp [World.requestCombatBuff, hlink] at h
    · rintro k msg a ha
      simp [World.requestCombatBuff] at ha
    · rintro k p a ha
      simp [World.requestCombatBuff] at ha
  | unreached h =>
    exact hw.answer h rfl rfl fun _ _ _ hleft => by simp at hleft
  | @executed k request h lost =>
    refine hw.answer h rfl rfl fun p buffs hrequest hleft => ?_
    subst hrequest
    cases lost with
    | true => simp at hleft
    | false => exact MapActor.portable_of_reply (by simpa [MapActor.handle] using hleft)
  | @resumed k request answer h =>
    have hempty := hw.empty (.inr (by simp [h]))
    rcases resume_cases w.player k request answer with ⟨hbank, -⟩ | ⟨p, buffs, rfl, rfl⟩
    · have hnil := hbank.trans hempty
      exact ⟨by simp [hnil], nofun, fun _ => hnil, nofun, nofun⟩
    · obtain ⟨-, hlink⟩ := hw.leaving _ _ _ h
      refine ⟨?_, nofun, ?_, nofun, nofun⟩
      · exact hw.underway_portable .banked buffs (by simp [h, underway])
      · simp [PlayerActor.resume, PlayerActor.leftMap, hlink]
  | other h => exact ⟨hw.portable, hw.underway_portable, hw.empty, hw.entering, hw.leaving⟩

/-- One careful step keeps every live buff at one place. -/
theorem Kept.step {w w' : World κ F} {e : Event κ F} (hw : w.Kept) (hb : w.Banked)
    (h : Step w e w') (hc : w.Careful e) : w'.Kept := by
  cases h with
  | enterMap hidle k vitals =>
    refine hw.move (a := .banked) (b := .map k) (fun p x hx => ?_) fun x hx => ?_
    · rcases hx with hx | ⟨buffs, hbuffs, hx⟩
      · cases p with
        | banked => simp [Holds, World.enterMap, PlayerActor.enterMap, portableIds] at hx
        | map j => exact .inl ⟨nofun, .inl hx⟩
      · obtain ⟨rfl, rfl⟩ : .map k = p ∧ w.player.bankedBuffs = buffs := by
          simpa [World.enterMap, PlayerActor.enterMap, underway] using hbuffs
        exact .inr ⟨rfl, .inl hx⟩
    · obtain ⟨p, hp | ⟨buffs, hbuffs, -⟩⟩ := hw.live x hx
      · cases p with
        | banked => exact ⟨.map k, .inr ⟨_, rfl, hp⟩⟩
        | map j => exact ⟨.map j, .inl hp⟩
      · simp [hidle, underway] at hbuffs
  | leaveMap hidle =>
    refine hw.same (fun p x => or_congr ?_ ?_) fun _ => id
    · cases p <;> rfl
    · cases hlink : w.player.mapLink <;>
        simp [World.leaveMap, PlayerActor.leaveMap, underway, hlink, hidle]
  | requestCombatBuff hidle buff =>
    refine hw.same (fun p x => or_congr ?_ ?_) fun _ => id
    · cases p <;> rfl
    · cases hlink : w.player.mapLink <;>
        simp [World.requestCombatBuff, underway, hlink, hidle]
  | @unreached k request h =>
    refine hw.same (fun p x => or_congr ?_ ?_) fun _ => id
    · cases p <;> rfl
    · cases request with
      | enterPlayer msg =>
        have hnil := hc k msg h
        simp [h, underway, hnil, portableIds]
      | _ => simp [h, underway]
  | @executed k request h lost =>
    obtain ⟨hnew, hlost⟩ := hc k request h
    cases request with
    | enterPlayer msg =>
      have hunderway : underway w.ask = some (.map k, msg.portableBuffs) := by simp [h, underway]
      exact hw.deliver_enter (hb.entering _ _ _ h) (hb.underway_portable _ _ hunderway) hunderway
        hnew rfl
    | leavePlayer p =>
      obtain ⟨rfl, -⟩ := hb.leaving _ _ _ h
      have hunderway : underway w.ask = none := by simp [h, underway]
      cases lost with
      | true => exact hw.deliver_lost_leave hunderway (hlost rfl _ rfl) rfl
      | false => exact hw.deliver_leave hunderway rfl
    | _ => exact hw.deliver id hnew (by simp [h, underway])
  | @resumed k request answer h =>
    refine hw.same (fun p x => ?_) fun _ => id
    rcases resume_cases w.player k request answer with
      ⟨hbank, hnone⟩ | ⟨q, buffs, rfl, rfl⟩
    · refine or_congr ?_ (by rw [h, hnone, underway_none])
      cases p <;> simp [Holds, playerId, hbank]
    · have hempty := hb.empty (.inr (by simp [h]))
      cases p <;> simp [Reserves, Holds, playerId, h, underway, hempty, PlayerActor.resume,
        PlayerActor.leftMap, portableIds]
  | other h => exact hw.deliver h hc rfl

end Steps

theorem Kept.init (profile : PlayerProfile) (registryName : String) (mapIds : κ → String)
    (entryBuffs : κ → List (CombatBuff F)) :
    (World.init profile registryName mapIds entryBuffs).Kept := by
  refine ⟨fun x p p' hp => ?_, by simp [World.init]⟩
  rcases hp with hp | ⟨_, hp, -⟩
  · cases p <;> simp [Holds, World.init, PlayerActor.new, MapActor.new, MapActor.portableIds,
      portableIds] at hp
  · simp [World.init] at hp

theorem Banked.init (profile : PlayerProfile) (registryName : String) (mapIds : κ → String)
    (entryBuffs : κ → List (CombatBuff F)) :
    (World.init profile registryName mapIds entryBuffs).Banked :=
  ⟨by simp [World.init, PlayerActor.new], nofun, fun _ => rfl, nofun, nofun⟩

end World

open World

variable [Mul F] [One F] [DecidableEq κ]

/-- **One place for every buff.** After careful steps, a live portable buff is in the bank or the
list of one map whenever no question is in flight. -/
theorem held_once_of_careful (profile : PlayerProfile) (registryName : String)
    (mapIds : κ → String) (entryBuffs : κ → List (CombatBuff F)) {es : List (Event κ F)}
    {w : World κ F}
    (run : Run (fun w e w' => Step w e w' ∧ w.Careful e)
      (World.init profile registryName mapIds entryBuffs) es w)
    (hidle : w.ask = none) : ∀ x ∈ w.live, ∃! place, w.Holds place x := by
  have hinv : w.Kept ∧ w.Banked := by
    refine run.invariant (P := fun w => w.Kept ∧ w.Banked) ⟨.init _ _ _ _, .init _ _ _ _⟩ ?_
    rintro w e w' ⟨hk, hb⟩ ⟨hstep, hc⟩
    exact ⟨hk.step hb hstep hc, hb.step hstep⟩
  have hholds : ∀ p x, w.Reserves p x ↔ w.Holds p x := by simp [Reserves, hidle]
  intro x hx
  obtain ⟨p, hp⟩ := hinv.1.live x hx
  refine ⟨p, (hholds p x).mp hp, fun p' hp' => ?_⟩
  exact hinv.1.unique x p' p ((hholds p' x).mpr hp') hp

section Examples

/-- A buff that goes with its player. -/
def haste : CombatBuff ℕ := ⟨"haste", 1, 2, some 10, true⟩

/-- A player and one map without entry buffs. -/
def arena : World Unit ℕ :=
  .init ⟨2, "Player 2", none⟩ "player:2" (fun _ => "arena") fun _ => []

/-- The player enters the map and asks for a buff. -/
def hasteEvents : List (Event Unit ℕ) :=
  [.enterMap () ⟨18, 140⟩, .executed false, .resumed, .requestCombatBuff haste, .executed false,
    .resumed]

/-- With one map and nothing in the bank, every grant is new. -/
theorem careful_executed {w : World Unit ℕ} {map : Unit} {request : MapMessage ℕ}
    (hbank : w.player.bankedBuffs = []) (_ : w.ask = some ⟨map, request, none⟩)
    (hunderway : ∀ buffs, underway w.ask ≠ some (.banked, buffs)) :
    w.Careful (.executed false) := by
  refine fun map' request' _ => ⟨fun x _ place hx => ?_, nofun⟩
  cases place with
  | banked =>
    rcases hx with hx | ⟨buffs, hbuffs, -⟩
    · simp [Holds, hbank, portableIds] at hx
    · exact absurd hbuffs (hunderway buffs)
  | map k => rfl

/-- The player then leaves the map with the buff and enters it again. -/
def returnEvents : List (Event Unit ℕ) :=
  hasteEvents ++ [.leaveMap, .executed false, .resumed, .enterMap () ⟨18, 140⟩, .executed false,
    .resumed]

theorem returnEvents_run : ∃ w, Run (fun w e w' => Step w e w' ∧ w.Careful e) arena returnEvents w ∧
    w.ask = none ∧ "haste" ∈ w.live ∧ w.Holds (.map ()) "haste" := by
  refine ⟨_, .cons ⟨.enterMap rfl () _, trivial⟩ <|
    .cons ⟨.executed rfl false, careful_executed rfl rfl (by simp [underway, World.enterMap])⟩ <|
    .cons ⟨.resumed rfl, trivial⟩ <| .cons ⟨.requestCombatBuff rfl _, trivial⟩ <|
    .cons ⟨.executed rfl false, careful_executed rfl rfl nofun⟩ <|
    .cons ⟨.resumed rfl, trivial⟩ <| .cons ⟨.leaveMap rfl, trivial⟩ <|
    .cons ⟨.executed rfl false, careful_executed rfl rfl nofun⟩ <|
    .cons ⟨.resumed rfl, trivial⟩ <| .cons ⟨.enterMap rfl () _, trivial⟩ <|
    .cons ⟨.executed rfl false, careful_executed rfl rfl (by simp [underway, World.enterMap])⟩ <|
    .cons ⟨.resumed rfl, trivial⟩ .nil, rfl, by decide +kernel, by decide +kernel⟩

theorem held_once_of_careful_haste : ∃ w, Run Step arena returnEvents w ∧ w.ask = none ∧
    "haste" ∈ w.live ∧ w.Holds (.map ()) "haste" ∧ ∃! place, w.Holds place "haste" := by
  obtain ⟨w, run, hidle, hlive, hmap⟩ := returnEvents_run
  exact ⟨w, run.imp fun _ _ _ h => h.1, hidle, hlive, hmap,
    held_once_of_careful _ _ _ _ run hidle "haste" hlive⟩

/-- **A failed entry loses its buffs.** The player leaves the map with a buff, and the next entry
fails before it reaches the map. -/
theorem failed_entry_loses_buff : ∃ es w, Run Step arena es w ∧ w.ask = none ∧
    "haste" ∈ w.live ∧ ∀ place, ¬w.Holds place "haste" := by
  refine ⟨hasteEvents ++ [Event.leaveMap, .executed false, .resumed, .enterMap () ⟨18, 140⟩,
    .unreached, .resumed], _, .cons (.enterMap rfl () _) <| .cons (.executed rfl false) <|
    .cons (.resumed rfl) <| .cons (.requestCombatBuff rfl _) <| .cons (.executed rfl false) <|
    .cons (.resumed rfl) <| .cons (.leaveMap rfl) <| .cons (.executed rfl false) <|
    .cons (.resumed rfl) <| .cons (.enterMap rfl () _) <| .cons (.unreached rfl) <|
    .cons (.resumed rfl) .nil, rfl, ?_, ?_⟩
  · decide +kernel
  · rintro (_ | ⟨⟨⟩⟩) <;> decide +kernel

end Examples

end RustExample.GameServer
