import RustExample.Foundation.ExpiringKey
import RustExample.Foundation.Run

/-!
# A user cache that is written to the database later

A write puts a user into redis and then gives the key five minutes. A sync lists the keys, and for
each of them reads the user, counts the rows with its id, updates or inserts the row, and deletes
the key. The first command that fails ends it, and the next sync begins with a new list.

Source: `redis_cache_for_sqlx_example/src/main.rs` (`write_user_to_cache`,
`sync_redis_to_postgres`).

* Every command of redis and every statement of Postgres is one step. Commands of redis succeed. A
  statement may fail for any reason, and fails if it breaks a constraint of the table.
* The key `user:<id>` is known by the id, and its text by the user: users are read as they were
  written. Any number of writes and syncs run at a time.
-/

namespace RustExample.RedisUserCache

/-- How long a user is cached. -/
def userCacheTtlSecs : ℕ := 60 * 5

/-- A user. -/
structure User where
  id : Int32
  name : String
  email : String
  deriving DecidableEq

/-- The table `users`, by primary key. -/
abbrev Users := Int32 → Option User

/-- No row under another id has the email. -/
def EmailFree (table : Users) (user : User) : Prop :=
  ∀ id row, id ≠ user.id → table id = some row → row.email ≠ user.email

/-- `UPDATE users SET .. WHERE id = ..`. -/
def Users.update (table : Users) (user : User) : Users :=
  if (table user.id).isSome then Function.update table user.id (some user) else table

/-- `INSERT INTO users ..`. -/
def Users.insert (table : Users) (user : User) : Users :=
  Function.update table user.id (some user)

/-- A sync: between two keys, or at a command for one key with the keys that are left. -/
inductive Round where
  | idle
  | next (keys : List Int32)
  | read (user : User) (keys : List Int32)
  | counted (user : User) (isThere : Bool) (keys : List Int32)
  | written (user : User) (keys : List Int32)

/-- Redis, the table, the clock in seconds, the writes and the syncs. The last write of an id is the
last one put into redis. -/
structure State (W R : Type) where
  redis : Int32 → ExpiringKey User
  table : Users
  now : ℕ
  writes : W → Option User
  rounds : R → Round
  last : Int32 → Option User

variable {W R : Type}

namespace State

/-- Nothing is cached. -/
def initial (table : Users) : State W R where
  redis _ := none
  table := table
  now := 0
  writes _ := none
  rounds _ := .idle
  last _ := none

/-- The cached user. -/
def cached (s : State W R) (id : Int32) : Option User := (s.redis id).get s.now

/-- No write and no sync is in progress. -/
structure Quiet (s : State W R) : Prop where
  writes : ∀ w, s.writes w = none
  rounds : ∀ r, s.rounds r = .idle

variable [DecidableEq W] [DecidableEq R] (s : State W R)

/-- A round comes to a stage. -/
def setRound (r : R) (round : Round) : State W R :=
  { s with rounds := Function.update s.rounds r round }

/-- Sets the key of a user. -/
def setKey (id : Int32) (key : ExpiringKey User) : State W R :=
  { s with redis := Function.update s.redis id key }

/-- `SET user:<id>`. -/
def setUser (w : W) (user : User) : State W R :=
  { s.setKey user.id (.set user) with
    writes := Function.update s.writes w (some user)
    last := Function.update s.last user.id (some user) }

/-- `EXPIRE user:<id> 300`, with which a write returns. -/
def expireUser (w : W) (user : User) : State W R :=
  { s.setKey user.id ((s.redis user.id).expire s.now userCacheTtlSecs).2 with
    writes := Function.update s.writes w none }

/-- `GET user:<id>`. A key that is not there any more is an error. -/
def getUser (r : R) (id : Int32) (keys : List Int32) : State W R :=
  match s.cached id with
  | some user => s.setRound r (.read user keys)
  | none => s.setRound r .idle

/-- The statement that writes the row. -/
def writeRow (r : R) (user : User) (isThere : Bool) (keys : List Int32) : State W R :=
  { s.setRound r (.written user keys) with
    table := if isThere then s.table.update user else s.table.insert user }

end State

/-- A statement that breaks no constraint. -/
def Allowed (table : Users) (user : User) (isThere : Bool) : Prop :=
  EmailFree table user ∧ (isThere = false → table user.id = none)

/-- What may happen. -/
inductive Event (W R : Type) where
  | set (w : W) (user : User)
  | expire (w : W)
  | keys (r : R) (keys : List Int32)
  | get (r : R)
  | count (r : R)
  | write (r : R)
  | fail (r : R)
  | del (r : R)
  | finish (r : R)
  | pass (secs : ℕ)

/-- One command, or the passing of time. -/
def Step [DecidableEq W] [DecidableEq R] (s : State W R) (e : Event W R) (s' : State W R) : Prop :=
  match e with
  | .set w user => s.writes w = none ∧ s' = s.setUser w user
  | .expire w => ∃ user, s.writes w = some user ∧ s' = s.expireUser w user
  | .keys r keys => s.rounds r = .idle ∧ keys.Nodup ∧
      (∀ id, id ∈ keys ↔ (s.cached id).isSome) ∧ s' = s.setRound r (.next keys)
  | .get r => ∃ id keys, s.rounds r = .next (id :: keys) ∧ s' = s.getUser r id keys
  | .count r => ∃ user keys, s.rounds r = .read user keys ∧
      s' = s.setRound r (.counted user (s.table user.id).isSome keys)
  | .write r => ∃ user isThere keys, s.rounds r = .counted user isThere keys ∧
      Allowed s.table user isThere ∧ s' = s.writeRow r user isThere keys
  | .fail r => ((∃ user keys, s.rounds r = .read user keys) ∨
      ∃ user isThere keys, s.rounds r = .counted user isThere keys) ∧ s' = s.setRound r .idle
  | .del r => ∃ user keys, s.rounds r = .written user keys ∧
      s' = (s.setKey user.id none).setRound r (.next keys)
  | .finish r => s.rounds r = .next [] ∧ s' = s.setRound r .idle
  | .pass secs => s' = { s with now := s.now + secs }

end RustExample.RedisUserCache
