import RustExample.RedisUserCache.Sync

/-!
# Which writes of the cache are lost

What a reader of the cache and then of the table sees of an id should always be the last write of
it. A sync changes it when it deletes a key that holds a later write than the one it wrote into the
table, and when it writes what it read long ago into the row of a later write that another sync has
deleted by now. Time changes it when a key expires before its value is in the table. Nothing else
does.
-/

namespace RustExample.RedisUserCache

open Function

variable {W R : Type}

/-! ### What a history should keep -/

/-- The cached user, or else the row. -/
def State.visible (s : State W R) (id : Int32) : Option User := (s.cached id).or (s.table id)

/-- The last write of every id is visible. -/
def Kept (s : State W R) : Prop :=
  ∀ id user, s.last id = some user → s.visible id = some user

/-- A sync deletes a key only if its value is in the table, and writes a row without a key only with
what is there. A key expires only when its value is in the table. -/
def Harmless (s : State W R) : Event W R → Prop
  | .del r => ∀ user keys, s.rounds r = .written user keys →
      ∀ cached, s.cached user.id = some cached → s.table user.id = some cached
  | .write r => ∀ user isThere keys, s.rounds r = .counted user isThere keys →
      s.cached user.id = none → s.table user.id = some user
  | .pass secs => ∀ id cached, s.cached id = some cached →
      (s.redis id).get (s.now + secs) = none → s.table id = some cached
  | _ => True

section Histories

variable [DecidableEq W] [DecidableEq R]

/-- Whenever no write and no sync is in progress, the last writes are in redis or the table. -/
def NoWriteLost (table : Users) (es : List (Event W R)) : Prop :=
  ∀ n s, Run Step (.initial table) (es.take n) s → s.Quiet → ∀ id user,
    s.last id = some user → s.cached id = some user ∨ s.table id = some user

end Histories

/-! ### What writes and syncs hold -/

/-- The user of a round. -/
def Round.user? : Round → Option User
  | .read user _ | .counted user _ _ | .written user _ => some user
  | _ => none

/-- Every user in redis or held by a sync was written under its id. -/
structure State.Sane (s : State W R) : Prop where
  cached : ∀ id user, s.cached id = some user → user.id = id ∧ (s.last id).isSome
  held : ∀ r user, (s.rounds r).user? = some user → (s.last user.id).isSome

variable {s s' : State W R}

theorem sane_initial (table : Users) : (State.initial table : State W R).Sane :=
  ⟨nofun, nofun⟩

theorem kept_initial (table : Users) : Kept (State.initial table : State W R) := nofun

/-- A step that changes neither what is visible nor the last writes. -/
theorem Kept.of_visible (hk : Kept s) (hvisible : ∀ id, s'.visible id = s.visible id)
    (hlast : s'.last = s.last) : Kept s' := by
  intro id user hid
  rw [hvisible]
  exact hk id user (hlast ▸ hid)

namespace State

variable {r : R} {user cached : User} {id : Int32}

theorem visible_of_cached (h : s.cached id = some cached) : s.visible id = some cached := by
  rw [visible, h, Option.some_or]

theorem visible_of_not_cached (h : s.cached id = none) : s.visible id = s.table id := by
  rw [visible, h, Option.none_or]

theorem cached_setKey (key : ExpiringKey User) (id id' : Int32) :
    (s.setKey id key).cached id' = if id' = id then key.get s.now else s.cached id' := by
  rw [State.cached, setKey]
  dsimp only
  by_cases h : id' = id
  · rw [h, update_self, if_pos rfl]
  · rw [update_of_ne h, if_neg h]
    rfl

theorem cached_setUser [DecidableEq W] (w : W) (user : User) (id : Int32) :
    (s.setUser w user).cached id = if id = user.id then some user else s.cached id :=
  cached_setKey (.set user) user.id id

/-- The second command of a write changes no value. -/
theorem cached_expireUser [DecidableEq W] (w : W) (user : User) (id : Int32) :
    (s.expireUser w user).cached id = s.cached id := by
  have hset : (s.expireUser w user).cached id =
      if id = user.id then ((s.redis user.id).expire s.now userCacheTtlSecs).2.get s.now
      else s.cached id :=
    cached_setKey _ user.id id
  rw [hset]
  split_ifs with h
  · rw [ExpiringKey.get_expire _ _ (by decide), h]
    rfl
  · rfl

theorem kept_pass_iff {secs : ℕ} (hs : s.Sane) (hk : Kept s) :
    Kept { s with now := s.now + secs } ↔ ∀ id cached, s.cached id = some cached →
      (s.redis id).get (s.now + secs) = none → s.table id = some cached := by
  have hlater : ∀ id, State.cached { s with now := s.now + secs } id =
      (s.redis id).get (s.now + secs) := fun _ => rfl
  constructor
  · intro hk' id cached hc hexpired
    obtain ⟨last, hlast⟩ := Option.isSome_iff_exists.mp (hs.cached _ _ hc).2
    have hvisible := hk _ _ hlast
    rw [State.visible_of_cached hc] at hvisible
    have hvisible' := hk' _ _ hlast
    rw [State.visible_of_not_cached ((hlater id).trans hexpired)] at hvisible'
    exact hvisible'.trans hvisible.symm
  · intro hrow id last hlast
    have hvisible := hk id last hlast
    cases hkey : (s.redis id).get (s.now + secs) with
    | some cached =>
      rw [State.visible_of_cached (ExpiringKey.get_of_later hkey)] at hvisible
      rw [State.visible_of_cached ((hlater id).trans hkey)]
      exact hvisible
    | none =>
      rw [State.visible_of_not_cached ((hlater id).trans hkey)]
      cases hc : s.cached id with
      | none => exact (State.visible_of_not_cached hc).symm.trans hvisible
      | some cached =>
        rw [State.visible_of_cached hc] at hvisible
        exact (hrow id cached hc hkey).trans hvisible

variable [DecidableEq R]

theorem cached_del (keys : List Int32) (id id' : Int32) :
    ((s.setKey id none).setRound r (.next keys)).cached id' =
      if id' = id then none else s.cached id' :=
  cached_setKey none id id'

variable {isThere : Bool}

/-- The statement that writes a row writes no other one. -/
theorem table_writeRow_of_ne {keys : List Int32} (h : id ≠ user.id) :
    (s.writeRow r user isThere keys).table id = s.table id := by
  rw [writeRow]
  dsimp only
  split_ifs with hthere
  · rw [Users.update]
    split_ifs with hrow
    · exact update_of_ne h ..
    · rfl
  · exact update_of_ne h ..

theorem table_writeRow_self {keys : List Int32} (h : (s.table user.id).isSome) :
    (s.writeRow r user isThere keys).table user.id = some user := by
  rw [writeRow]
  dsimp only
  split_ifs with hthere
  · rw [Users.update, if_pos h, update_self]
  · exact update_self ..

theorem Sane.setRound {r : R} {round : Round} (hs : s.Sane)
    (h : ∀ user, round.user? = some user → (s.last user.id).isSome) :
    (s.setRound r round).Sane := by
  refine ⟨hs.cached, fun r' user huser => ?_⟩
  rw [State.setRound] at huser
  dsimp only at huser
  by_cases hr : r' = r
  · rw [hr, update_self] at huser
    exact h user huser
  · rw [update_of_ne hr] at huser
    exact hs.held r' user huser

theorem kept_del_iff {user : User} {keys : List Int32} {r : R} (hs : s.Sane) (hk : Kept s) :
    Kept ((s.setKey user.id none).setRound r (.next keys)) ↔
      ∀ cached, s.cached user.id = some cached → s.table user.id = some cached := by
  have hcached := State.cached_del (s := s) (r := r) keys user.id
  constructor
  · intro hk' cached hc
    obtain ⟨last, hlast⟩ := Option.isSome_iff_exists.mp (hs.cached _ _ hc).2
    have hvisible := hk _ _ hlast
    rw [State.visible_of_cached hc] at hvisible
    have hvisible' := hk' _ _ hlast
    rw [State.visible_of_not_cached (by rw [hcached, if_pos rfl])] at hvisible'
    exact hvisible'.trans hvisible.symm
  · intro hrow id last hlast
    have hvisible := hk id last hlast
    by_cases hid : id = user.id
    · rw [State.visible_of_not_cached (by rw [hcached, if_pos hid])]
      rw [hid] at hvisible ⊢
      cases hc : s.cached user.id with
      | none => exact (State.visible_of_not_cached hc).symm.trans hvisible
      | some cached =>
        rw [State.visible_of_cached hc] at hvisible
        exact (hrow cached hc).trans hvisible
    · rw [State.visible, hcached, if_neg hid]
      exact hvisible

theorem kept_writeRow_iff {user : User} {keys : List Int32} {r : R}
    (hlast : (s.last user.id).isSome) (hk : Kept s) :
    Kept (s.writeRow r user isThere keys) ↔
      (s.cached user.id = none → s.table user.id = some user) := by
  have hcached : ∀ id, (s.writeRow r user isThere keys).cached id = s.cached id := fun _ => rfl
  have hother : ∀ id, id ≠ user.id →
      (s.writeRow r user isThere keys).visible id = s.visible id := by
    intro id hid
    rw [State.visible, State.visible, hcached, State.table_writeRow_of_ne hid]
  obtain ⟨last, hlast⟩ := Option.isSome_iff_exists.mp hlast
  have hvisible := hk _ _ hlast
  cases hc : s.cached user.id with
  | some cached =>
    refine iff_of_true (hk.of_visible (fun id => ?_) rfl) nofun
    by_cases hid : id = user.id
    · rw [hid, State.visible_of_cached hc, State.visible_of_cached ((hcached _).trans hc)]
    · exact hother id hid
  | none =>
    rw [State.visible_of_not_cached hc] at hvisible
    have hrow : (s.writeRow r user isThere keys).visible user.id = some user := by
      rw [State.visible_of_not_cached ((hcached _).trans hc),
        State.table_writeRow_self (by rw [hvisible]; rfl)]
    constructor
    · intro hk' _
      exact hvisible.trans ((hk' _ _ hlast).symm.trans hrow)
    · intro hsame id last' hlast'
      by_cases hid : id = user.id
      · rw [hid] at hlast' ⊢
        rw [hrow, ← hsame rfl]
        exact hvisible.trans (hlast.symm.trans hlast')
      · rw [hother id hid]
        exact hk id last' hlast'

end State

/-! ### One command -/

namespace Step

variable [DecidableEq W] [DecidableEq R] {e : Event W R}

theorem deterministic {s₁ s₂ : State W R} (h₁ : Step s e s₁) (h₂ : Step s e s₂) : s₁ = s₂ := by
  cases e with
  | set => exact h₁.2.trans h₂.2.symm
  | expire =>
    obtain ⟨user, hw, rfl⟩ := h₁
    obtain ⟨user', hw', rfl⟩ := h₂
    obtain ⟨⟩ := hw.symm.trans hw'
    rfl
  | keys => exact h₁.2.2.2.trans h₂.2.2.2.symm
  | get =>
    obtain ⟨id, keys, hr, rfl⟩ := h₁
    obtain ⟨id', keys', hr', rfl⟩ := h₂
    cases hr.symm.trans hr'
    rfl
  | count =>
    obtain ⟨user, keys, hr, rfl⟩ := h₁
    obtain ⟨user', keys', hr', rfl⟩ := h₂
    cases hr.symm.trans hr'
    rfl
  | write =>
    obtain ⟨user, isThere, keys, hr, -, rfl⟩ := h₁
    obtain ⟨user', isThere', keys', hr', -, rfl⟩ := h₂
    cases hr.symm.trans hr'
    rfl
  | fail => exact h₁.2.trans h₂.2.symm
  | del =>
    obtain ⟨user, keys, hr, rfl⟩ := h₁
    obtain ⟨user', keys', hr', rfl⟩ := h₂
    cases hr.symm.trans hr'
    rfl
  | finish => exact h₁.2.trans h₂.2.symm
  | pass => exact h₁.trans h₂.symm

theorem sane (h : Step s e s') (hs : s.Sane) : s'.Sane := by
  cases e with
  | set w user =>
    obtain ⟨-, rfl⟩ := h
    have hlast : ∀ id, id = user.id ∨ (s.last id).isSome →
        ((s.setUser w user).last id).isSome := by
      intro id hid
      rw [State.setUser]
      dsimp only
      rw [update_apply]
      split_ifs with heq
      · rfl
      · exact hid.resolve_left heq
    refine ⟨fun id cached hcached => ?_,
      fun r held hheld => hlast _ (.inr (hs.held r held hheld))⟩
    rw [State.cached_setUser] at hcached
    split_ifs at hcached with hid
    · obtain ⟨⟩ := hcached
      exact ⟨hid.symm, hlast id (.inl hid)⟩
    · obtain ⟨heq, hsome⟩ := hs.cached id cached hcached
      exact ⟨heq, hlast id (.inr hsome)⟩
  | expire w =>
    obtain ⟨user, -, rfl⟩ := h
    refine ⟨fun id cached hcached => hs.cached id cached ?_, hs.held⟩
    rwa [State.cached_expireUser] at hcached
  | keys r keys =>
    obtain ⟨-, -, -, rfl⟩ := h
    exact hs.setRound nofun
  | get r =>
    obtain ⟨id, keys, -, rfl⟩ := h
    rw [State.getUser]
    split
    · rename_i user hcached
      obtain ⟨rfl, hsome⟩ := hs.cached id user hcached
      refine hs.setRound ?_
      rintro _ ⟨⟩
      exact hsome
    · exact hs.setRound nofun
  | count r =>
    obtain ⟨user, keys, hr, rfl⟩ := h
    refine hs.setRound ?_
    rintro _ ⟨⟩
    exact hs.held r user (by rw [hr]; rfl)
  | write r =>
    obtain ⟨user, isThere, keys, hr, -, rfl⟩ := h
    have hround : (s.setRound r (.written user keys)).Sane := by
      refine hs.setRound ?_
      rintro _ ⟨⟩
      exact hs.held r user (by rw [hr]; rfl)
    exact ⟨hround.cached, hround.held⟩
  | fail r =>
    obtain ⟨-, rfl⟩ := h
    exact hs.setRound nofun
  | del r =>
    obtain ⟨user, keys, -, rfl⟩ := h
    have hkey : (s.setKey user.id none).Sane := by
      refine ⟨fun id cached hcached => ?_, hs.held⟩
      rw [State.cached_setKey] at hcached
      split_ifs at hcached
      · cases hcached
      · exact hs.cached id cached hcached
    exact hkey.setRound nofun
  | finish r =>
    obtain ⟨-, rfl⟩ := h
    exact hs.setRound nofun
  | pass secs =>
    obtain rfl := h
    exact ⟨fun id cached hcached => hs.cached id cached (ExpiringKey.get_of_later hcached), hs.held⟩

/-- **One command.** The last writes stay visible exactly if it is harmless. -/
theorem kept_iff (h : Step s e s') (hs : s.Sane) (hk : Kept s) : Kept s' ↔ Harmless s e := by
  cases e with
  | set w user =>
    obtain ⟨-, rfl⟩ := h
    refine iff_of_true (fun id last hlast => ?_) trivial
    have hcached := State.cached_setUser (s := s) w user id
    rw [State.setUser] at hlast
    dsimp only at hlast
    rw [update_apply] at hlast
    split_ifs at hlast hcached with hid
    · rw [State.visible_of_cached hcached, hlast]
    · rw [State.visible, hcached]
      exact hk id last hlast
  | expire w =>
    obtain ⟨user, -, rfl⟩ := h
    refine iff_of_true (hk.of_visible (fun id => ?_) rfl) trivial
    rw [State.visible, State.cached_expireUser]
    rfl
  | get r =>
    obtain ⟨id, keys, -, rfl⟩ := h
    refine iff_of_true ?_ trivial
    rw [State.getUser]
    split <;> exact hk
  | write r =>
    obtain ⟨user, isThere, keys, hr, -, rfl⟩ := h
    rw [State.kept_writeRow_iff (hs.held r user (by rw [hr]; rfl)) hk]
    constructor
    · intro hrow user' isThere' keys' hr'
      cases hr.symm.trans hr'
      exact hrow
    · exact fun hharmless => hharmless user isThere keys hr
  | del r =>
    obtain ⟨user, keys, hr, rfl⟩ := h
    rw [State.kept_del_iff hs hk]
    constructor
    · intro hrow user' keys' hr'
      cases hr.symm.trans hr'
      exact hrow
    · exact fun hharmless => hharmless user keys hr
  | pass secs =>
    obtain rfl := h
    exact State.kept_pass_iff hs hk
  | keys r keys =>
    obtain ⟨-, -, -, rfl⟩ := h
    exact iff_of_true hk trivial
  | count r =>
    obtain ⟨user, keys, -, rfl⟩ := h
    exact iff_of_true hk trivial
  | fail r | finish r =>
    obtain ⟨-, rfl⟩ := h
    exact iff_of_true hk trivial

end Step

/-! ### Histories -/

section Runs

variable [DecidableEq W] [DecidableEq R] {table : Users} {es : List (Event W R)}

theorem sane_run (run : Run Step (.initial table) es s) : s.Sane :=
  run.invariant (sane_initial table) fun _ _ _ hs h => h.sane hs

/-- **The histories that keep the last writes visible** are those whose steps are harmless. -/
theorem kept_iff_harmless (run : Run Step (.initial table) es s) :
    Run.Always Step (.initial table) Kept es ↔
      Run.AtEvents Step (.initial table) Harmless es := by
  rw [Run.always_iff (fun _ _ _ _ h₁ h₂ => h₁.deterministic h₂)
    (fun _ _ _ _ run hk h => h.kept_iff (sane_run run) hk) run]
  exact and_iff_right (kept_initial table)

/-- **Harmless histories lose no write.** -/
theorem no_write_lost (run : Run Step (.initial table) es s)
    (h : Run.AtEvents Step (.initial table) Harmless es) : NoWriteLost table es := by
  intro n t ht _ id user hlast
  have hvisible := (kept_iff_harmless run).mpr h n t ht id user hlast
  cases hc : t.cached id with
  | none =>
    rw [State.visible_of_not_cached hc] at hvisible
    exact .inr hvisible
  | some cached =>
    rw [State.visible_of_cached hc] at hvisible
    exact .inl hvisible

end Runs

/-! ### Three histories -/

/-- A table without users. -/
def noUsers : Users := fun _ => none

def firstWrite : User := ⟨1, "a", "a@example.com"⟩

def secondWrite : User := ⟨1, "b", "b@example.com"⟩

def synced : List (Event Unit Unit) :=
  [.set () firstWrite, .expire (), .keys () [1], .get (), .count (), .write (), .del (),
    .finish ()]

/-- A second write while the sync holds the first one. -/
def overwritten : List (Event Unit Unit) :=
  [.set () firstWrite, .expire (), .keys () [1], .get (), .count (), .set () secondWrite,
    .expire (), .write (), .del (), .finish ()]

/-- Five minutes without a sync, or with one that fails. -/
def expired : List (Event Unit Unit) := [.set () firstWrite, .expire (), .pass 300]

theorem nodup_keys_firstWrite : [(1 : Int32)].Nodup := by simp

theorem mem_keys_firstWrite (id : Int32) : id ∈ [(1 : Int32)] ↔
    ((((State.initial noUsers : State Unit Unit).setUser () firstWrite).expireUser ()
      firstWrite).cached id).isSome := by
  rw [State.cached_expireUser, State.cached_setUser, List.mem_singleton]
  split_ifs with hid
  · exact iff_of_true hid rfl
  · exact iff_of_false hid nofun

theorem allowed_noUsers (user : User) : Allowed noUsers user false := ⟨nofun, fun _ => rfl⟩

/-- The sync deletes the second write, and time takes a write that no sync has seen. -/
theorem writes_lost :
    (∃ s, Run Step (.initial noUsers) overwritten s ∧ s.Quiet ∧ s.last 1 = some secondWrite ∧
      s.cached 1 = none ∧ s.table 1 = some firstWrite) ∧
    ¬NoWriteLost noUsers overwritten ∧ ¬NoWriteLost noUsers expired := by
  have run : Run Step (.initial noUsers) overwritten _ :=
    .cons ⟨rfl, rfl⟩ <| .cons ⟨_, rfl, rfl⟩ <|
    .cons ⟨rfl, nodup_keys_firstWrite, mem_keys_firstWrite, rfl⟩ <| .cons ⟨1, [], rfl, rfl⟩ <|
    .cons ⟨firstWrite, [], rfl, rfl⟩ <| .cons ⟨rfl, rfl⟩ <| .cons ⟨_, rfl, rfl⟩ <|
    .cons ⟨firstWrite, false, [], rfl, allowed_noUsers _, rfl⟩ <|
    .cons ⟨firstWrite, [], rfl, rfl⟩ <| .cons ⟨rfl, rfl⟩ .nil
  have run' : Run Step (.initial noUsers) expired _ :=
    .cons ⟨rfl, rfl⟩ <| .cons ⟨_, rfl, rfl⟩ <| .cons rfl .nil
  have hexpired : ExpiringKey.get (some ⟨firstWrite, some 300⟩) 300 = none := by decide
  refine ⟨⟨_, run, ⟨fun _ => rfl, fun _ => rfl⟩, rfl, rfl, rfl⟩, fun h => ?_, fun h => ?_⟩
  · have hdiff : some firstWrite ≠ some secondWrite := by decide
    rcases h 10 _ run ⟨fun _ => rfl, fun _ => rfl⟩ 1 secondWrite rfl with hcached | htable
    · cases hcached
    · exact hdiff htable
  · rcases h 3 _ run' ⟨fun _ => rfl, fun _ => rfl⟩ 1 firstWrite rfl with hcached | htable
    · cases hexpired.symm.trans hcached
    · cases htable

/-- A sync that nothing disturbs. -/
theorem no_write_lost_synced : NoWriteLost noUsers synced := by
  have hlive : ExpiringKey.get (some ⟨firstWrite, some 300⟩) 0 = some firstWrite := by decide
  have run : Run (fun s e s' => Step s e s' ∧ Harmless s e) (.initial noUsers) synced _ :=
    .cons ⟨⟨rfl, rfl⟩, trivial⟩ <| .cons ⟨⟨_, rfl, rfl⟩, trivial⟩ <|
    .cons ⟨⟨rfl, nodup_keys_firstWrite, mem_keys_firstWrite, rfl⟩, trivial⟩ <|
    .cons ⟨⟨1, [], rfl, rfl⟩, trivial⟩ <| .cons ⟨⟨firstWrite, [], rfl, rfl⟩, trivial⟩ <|
    .cons ⟨⟨firstWrite, false, [], rfl, allowed_noUsers _, rfl⟩,
      fun _ _ _ hr hc => by cases hr; exact absurd (hlive.symm.trans hc) nofun⟩ <|
    .cons ⟨⟨firstWrite, [], rfl, rfl⟩, fun _ _ hr _ hc => by cases hr; exact hlive.symm.trans hc⟩ <|
    .cons ⟨⟨rfl, rfl⟩, trivial⟩ .nil
  exact no_write_lost (run.imp fun _ _ _ h => h.1)
    (Run.atEvents_of_run (fun _ _ _ _ h₁ h₂ => h₁.deterministic h₂) run)

end RustExample.RedisUserCache
