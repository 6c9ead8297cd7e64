/-
RecentMessages/Control/Cluster.lean

Cluster control (`cluster.rs`): the policy of channels and the sessions of users,
which one owner writes and its replicas copy.

Every mutation of the owner is one transaction that also counts the revision up
(`write`).  A snapshot holds both tables whole; `receive` checks it against the
replica's tables and replaces them.  A function here is one call on the database of
one node; what is sent and when is the subject of `Control/Push.lean`.
-/
import RecentMessages.Library.Fallible
import RecentMessages.Library.KeyTable
import RecentMessages.Library.Lists
import RecentMessages.Storage.Record
import Mathlib.Data.String.Basic
import Mathlib.Order.WithBot

namespace RecentMessages

/-- The errors that cluster control returns. -/
inductive ClusterError
  | unavailable
  | alwaysJoinLimit (maximum : ℕ)
  | sqlite (message : String)
  deriving DecidableEq, Repr

/-- A JSON value; `number` is one that no `i64` holds. -/
inductive Value
  | null
  | bool (b : Bool)
  | integer (n : ℤ)
  | number
  | string (s : String)
  | other
  deriving DecidableEq, Repr

/-- A value of a column. -/
inductive SqlValue
  | null
  | integer (n : ℤ)
  | real (text : String)
  | text (s : String)
  deriving DecidableEq, Repr

/-- `sql_value`. -/
def sqlValue : Value → Except ClusterError SqlValue
  | .null => .ok .null
  | .string s => .ok (.text s)
  | .bool b => .ok (.integer (if b then 1 else 0))
  | .integer n => .ok (.integer n)
  | .number => .error .unavailable
  | .other => .error .unavailable

/-- A column as `snapshot` reads it. -/
def jsonValue : SqlValue → Except ClusterError Value
  | .integer n => .ok (.integer n)
  | .text s => .ok (.string s)
  | .null => .error (.sqlite "Invalid query")
  | .real _ => .error (.sqlite "Invalid query")

/-- `string`. -/
def stringAt (row : List Value) (i : ℕ) : Except ClusterError String :=
  match row[i]? with
  | some (.string s) => .ok s
  | _ => .error .unavailable

/-- `integer`. -/
def integerAt (row : List Value) (i : ℕ) : Except ClusterError ℤ :=
  match row[i]? with
  | some (.integer n) => .ok n
  | _ => .error .unavailable

/-- The third-party code that cluster control rests on. -/
structure ClusterEnv where
  /-- `twitch_irc::validate::validate_login` succeeds. -/
  validateLogin : String → Bool
  /-- What SQLite stores for a text that looks like a number in an `INTEGER` column. -/
  numeric : String → Option SqlValue

/-- A row of `rm_channel`, whose flags are 0 or 1. -/
structure RmChannel where
  channelLogin : String
  ignored : Bool
  alwaysJoin : Bool
  purgeMs : ℤ
  deriving DecidableEq, Repr

/-- The policy of a channel; the default for one without a row. -/
structure ChannelPolicy where
  ignored : Bool
  alwaysJoin : Bool
  purgeMs : ℤ
  deriving DecidableEq, Repr

instance : Inhabited ChannelPolicy := ⟨⟨false, false, 0⟩⟩

namespace RmChannel

def policy (row : RmChannel) : ChannelPolicy := ⟨row.ignored, row.alwaysJoin, row.purgeMs⟩

/-- `SET ignored, purge_ms=MAX(…)`. -/
def ignore (ignored : Bool) (purgeMs : ℤ) (row : RmChannel) : RmChannel :=
  { row with ignored, purgeMs := max row.purgeMs purgeMs }

theorem channelLogin_ignore (ignored : Bool) (purgeMs : ℤ) (row : RmChannel) :
    (row.ignore ignored purgeMs).channelLogin = row.channelLogin := rfl

/-- `SET purge_ms=MAX(…)`. -/
def raise (purgeMs : ℤ) (row : RmChannel) : RmChannel :=
  { row with purgeMs := max row.purgeMs purgeMs }

theorem channelLogin_raise (purgeMs : ℤ) (row : RmChannel) :
    (row.raise purgeMs).channelLogin = row.channelLogin := rfl

/-- `SET always_join`. -/
def pin (enabled : Bool) (row : RmChannel) : RmChannel := { row with alwaysJoin := enabled }

theorem channelLogin_pin (enabled : Bool) (row : RmChannel) :
    (row.pin enabled).channelLogin = row.channelLogin := rfl

/-- A flag as a column. -/
def flag (b : Bool) : Value := .integer (if b then 1 else 0)

/-- The row in a snapshot. -/
def values (row : RmChannel) : List Value :=
  [.string row.channelLogin, flag row.ignored, flag row.alwaysJoin, .integer row.purgeMs]

end RmChannel

/-- `TwitchUserAccessToken`. -/
structure TwitchUserAccessToken where
  accessToken : String
  refreshToken : String
  deriving DecidableEq, Repr

/-- A session; times are in milliseconds. -/
structure UserAuthorization where
  accessToken : String
  twitchToken : TwitchUserAccessToken
  twitchAuthorizationLastValidated : ℤ
  validUntil : ℤ
  userId : String
  userLogin : String
  userName : String
  userProfileImageUrl : String
  deriving DecidableEq, Repr

/-- All columns of `rm_auth` but the first. -/
def UserAuthorization.details (auth : UserAuthorization) : List SqlValue :=
  [.text auth.twitchToken.accessToken, .text auth.twitchToken.refreshToken,
    .integer auth.twitchAuthorizationLastValidated, .integer auth.validUntil, .text auth.userId,
    .text auth.userLogin, .text auth.userName, .text auth.userProfileImageUrl]

/-- A snapshot, as it is sent. -/
structure Snapshot where
  epoch : String
  revision : ℤ
  channels : List (List Value)
  sessions : List (List Value)
  deriving DecidableEq, Repr

/-- A mutation of the owner. -/
inductive Mutation
  | ignore (channel : String) (ignored : Bool)
  | purge (channel : String) (cutoff : ℤ)
  | pin (channel : String) (enabled : Bool) (maximum : ℕ)
  | replacePins (channels : List String)
  | bootstrapPins (channels : List String)
  | saveAuth (auth : UserAuthorization) (insert : Bool)
  | revoke (token : String)
  deriving DecidableEq

/-- The database of cluster control: `rm_channel`, the rows of `rm_auth` with their
nine columns, and the keys of `rm_metadata`.  `revision` is an integer as text; only
at `i64::MAX` does SQLite's addition leave the integers. -/
structure ClusterDb where
  channels : KeyTable RmChannel.channelLogin
  sessions : List (List SqlValue)
  epoch : Option String
  revision : Option ℤ
  initialized : Bool
  pinsBootstrapped : Bool

namespace ClusterDb

/-- A new database. -/
def empty : ClusterDb := ⟨KeyTable.empty, [], none, none, false, false⟩

instance : Inhabited ClusterDb := ⟨empty⟩

variable (env : ClusterEnv) (db : ClusterDb)

/-! ### Sessions -/

/-- The affinity of a `TEXT` column. -/
def textAffinity : SqlValue → SqlValue
  | .integer n => .text (toString n)
  | .real text => .text text
  | .text s => .text s
  | .null => .null

/-- The affinity of an `INTEGER` column. -/
def integerAffinity : SqlValue → SqlValue
  | .text s => (env.numeric s).getD (.text s)
  | v => v

/-- The affinities of the columns of `rm_auth`, from the second on. -/
def detailAffinities : List (SqlValue → SqlValue) :=
  [textAffinity, textAffinity, integerAffinity env, integerAffinity env, textAffinity, textAffinity,
    textAffinity, textAffinity]

/-- Values as the columns of `rm_auth` store them, from the second on. -/
def storeDetails (values : List SqlValue) : List SqlValue :=
  (detailAffinities env).zipWith (fun affinity v => affinity v) values

/-- The row of a token; the tokens of two rows differ unless both are `NULL`. -/
def hasToken (token : SqlValue) (row : List SqlValue) : Bool :=
  token ≠ .null && row.head? = some token

/-- `INSERT INTO rm_auth`. -/
def insertSession (sessions : List (List SqlValue)) (token : SqlValue) (details : List SqlValue) :
    Except ClusterError (List (List SqlValue)) :=
  let row := textAffinity token :: storeDetails env details
  if row.tail.contains .null then
    .error (.sqlite "NOT NULL constraint failed: rm_auth")
  else if sessions.any (hasToken (textAffinity token)) then
    .error (.sqlite "UNIQUE constraint failed: rm_auth.access_token")
  else
    .ok (sessions ++ [row])

/-! ### Mutations of the owner -/

/-- `write`: the statements and the next revision, in one transaction. -/
def write {α : Type} (statements : ClusterDb → Except ClusterError (α × ClusterDb)) :
    Except ClusterError (α × ClusterDb) := do
  let (result, db) ← statements db
  return (result, { db with revision := db.revision.map (· + 1) })

/-- `INSERT INTO rm_channel(channel_login, always_join) … DO UPDATE SET always_join=1`. -/
def pinChannel (channel : String) : ClusterDb :=
  { db with
    channels := db.channels.upsert ⟨toAsciiLowercase channel, false, true, 0⟩ (RmChannel.pin true)
      (RmChannel.channelLogin_pin true) }

/-- `set_ignored_local`. -/
def setIgnoredLocal (channel : String) (ignored : Bool) (nowMs : ℕ) :
    Except ClusterError (Unit × ClusterDb) :=
  db.write fun db => .ok ((), { db with
    channels := db.channels.upsert ⟨toAsciiLowercase channel, ignored, false, nowMs⟩
      (RmChannel.ignore ignored nowMs) (RmChannel.channelLogin_ignore ignored nowMs) })

/-- `purge_local`. -/
def purgeLocal (channel : String) (cutoff : ℤ) : Except ClusterError (Unit × ClusterDb) :=
  db.write fun db => .ok ((), { db with
    channels := db.channels.upsert ⟨toAsciiLowercase channel, false, false, cutoff⟩
      (RmChannel.raise cutoff) (RmChannel.channelLogin_raise cutoff) })

/-- The channels that are pinned. -/
def pins : List RmChannel := db.channels.rows.filter (·.alwaysJoin)

/-- The statements of `set_pin_local`; the result is `rows_affected` of the first. -/
def setPin (channel : String) (enabled : Bool) (maximum : ℕ) :
    Except ClusterError (ℕ × ClusterDb) :=
  let login := toAsciiLowercase channel
  if enabled then
    if i64Max < maximum then
      .error .unavailable  -- `sql_value` of the parameter
    else if db.pins.length < maximum ∨ (db.channels.lookup login).any (·.alwaysJoin) then
      .ok (1, { db.pinChannel channel with pinsBootstrapped := true })
    else
      .ok (0, { db with pinsBootstrapped := true })
  else
    .ok (if (db.channels.lookup login).isSome then 1 else 0, { db with
      channels := db.channels.modify login (RmChannel.pin false) (RmChannel.channelLogin_pin false)
      pinsBootstrapped := true })

/-- `replace_pins_local`. -/
def replacePinsLocal (channels : List String) : Except ClusterError (Unit × ClusterDb) :=
  db.write fun db =>
    let db := { db with
      channels := db.channels.updateWhere (fun _ => true) (RmChannel.pin false)
        (RmChannel.channelLogin_pin false)
      pinsBootstrapped := true }
    .ok ((), channels.foldl pinChannel db)

/-- The statements of `bootstrap_pins_local`; the result says whether the marker is
new. -/
def bootstrapPinsLocal (channels : List String) : Except ClusterError (Bool × ClusterDb) :=
  if channels.isEmpty then
    .ok (false, db)
  else
    db.write fun db =>
      if db.pinsBootstrapped then .ok (false, db)
      else .ok (true, { channels.foldl pinChannel db with pinsBootstrapped := true })

/-- `save_auth_local`. -/
def saveAuthLocal (auth : UserAuthorization) (insert : Bool) :
    Except ClusterError (Unit × ClusterDb) :=
  db.write fun db =>
    if insert then do
      let sessions ← insertSession env db.sessions (.text auth.accessToken) auth.details
      return ((), { db with sessions })
    else
      .ok ((), { db with
        sessions := db.sessions.map fun row =>
          if hasToken (.text auth.accessToken) row then
            .text auth.accessToken :: storeDetails env auth.details
          else row })

/-- `revoke_local`. -/
def revokeLocal (token : String) : Except ClusterError (Unit × ClusterDb) :=
  db.write fun db => .ok ((), { db with
    sessions := db.sessions.filter fun row => !hasToken (.text token) row })

/-- The result of a call that returns nothing on success. -/
def done (result : Except ClusterError (Unit × ClusterDb)) : Except ClusterError Bool × ClusterDb :=
  match result with
  | .ok (_, db') => (.ok false, db')
  | .error e => (.error e, db)

/-- `mutate` on the owner, up to the push: the result and the database after it, which
may have changed although the result is an error. -/
def mutate (operation : Mutation) (nowMs : ℕ) : Except ClusterError Bool × ClusterDb :=
  if db.initialized then
    match operation with
    | .ignore channel ignored => db.done (db.setIgnoredLocal channel ignored nowMs)
    | .purge channel cutoff => db.done (db.purgeLocal channel cutoff)
    | .pin channel enabled maximum =>
      match db.write fun db => db.setPin channel enabled maximum with
      | .error e => (.error e, db)
      | .ok (affected, db') =>
        if enabled ∧ affected = 0 then (.error (.alwaysJoinLimit maximum), db') else (.ok false, db')
    | .replacePins channels => db.done (db.replacePinsLocal channels)
    | .bootstrapPins channels =>
      match db.bootstrapPinsLocal channels with
      | .error e => (.error e, db)
      | .ok (applied, db') => (.ok applied, db')
    | .saveAuth auth insert => db.done (db.saveAuthLocal env auth insert)
    | .revoke token => db.done (db.revokeLocal token)
  else (.error .unavailable, db)

/-- `policy`. -/
def policy (channel : String) : ChannelPolicy :=
  ((db.channels.lookup (toAsciiLowercase channel)).map RmChannel.policy).getD default

/-! ### Snapshots -/

/-- `ORDER BY access_token`, with `NULL` first. -/
def tokenOrder (row : List SqlValue) : WithBot String :=
  match row.head? with
  | some (.text s) => s
  | _ => ⊥

/-- `snapshot`. -/
def snapshot : Except ClusterError Snapshot :=
  match db.epoch, db.revision with
  | some epoch, some revision =>
    if i64Max < revision then
      .error .unavailable
    else do
      let sessions ← (sortByKey tokenOrder db.sessions).mapM fun row => row.mapM jsonValue
      return {
        epoch, revision
        channels := (sortByKey RmChannel.channelLogin db.channels.rows).map RmChannel.values
        sessions }
  | _, _ => .error (.sqlite "Query returned no rows")

/-- The checks of one channel row, and the row. -/
def checkChannel (row : List Value) : Except ClusterError RmChannel := do
  let name ← stringAt row 0
  let ignored ← integerAt row 1
  let alwaysJoin ← integerAt row 2
  let purgeMs ← integerAt row 3
  let old := ((db.channels.lookup name).map (·.purgeMs)).getD 0
  if row.length ≠ 4 ∨ env.validateLogin name = false ∨ ¬(ignored = 0 ∨ ignored = 1) ∨
      ¬(alwaysJoin = 0 ∨ alwaysJoin = 1) ∨ purgeMs < old then
    .error .unavailable
  else
    return ⟨name, ignored = 1, alwaysJoin = 1, purgeMs⟩

/-- `INSERT INTO rm_channel`. -/
def insertChannel (channels : KeyTable RmChannel.channelLogin) (row : RmChannel) :
    Except ClusterError (KeyTable RmChannel.channelLogin) :=
  match channels.insert? row with
  | none => .error (.sqlite "UNIQUE constraint failed: rm_channel.channel_login")
  | some channels => .ok channels

/-- `INSERT INTO rm_channel`, row by row. -/
def insertChannels (rows : List RmChannel) : Except ClusterError (KeyTable RmChannel.channelLogin) :=
  rows.foldlM insertChannel KeyTable.empty

/-- `INSERT INTO rm_auth` for one row of a snapshot. -/
def insertValues (sessions : List (List SqlValue)) (row : List Value) :
    Except ClusterError (List (List SqlValue)) :=
  if row.length ≠ 9 then
    .error .unavailable
  else do
    let values ← row.mapM sqlValue
    insertSession env sessions (values.head?.getD .null) values.tail

/-- `INSERT INTO rm_auth`, row by row. -/
def insertSessions (rows : List (List Value)) : Except ClusterError (List (List SqlValue)) :=
  rows.foldlM (insertValues env) []

/-- The rest of `receive`, for a snapshot of a new revision: check the channels, then
replace both tables. -/
def replaceTables (snapshot : Snapshot) : Except ClusterError (Bool × ClusterDb) := do
  let rows ← snapshot.channels.mapM (db.checkChannel env)
  if db.channels.rows.any fun row =>
      0 < row.purgeMs && !(rows.map RmChannel.channelLogin).contains row.channelLogin then
    .error .unavailable
  else
    let channels ← insertChannels rows
    let sessions ← insertSessions env snapshot.sessions
    return (true, ⟨channels, sessions, some snapshot.epoch, some snapshot.revision, false, true⟩)

/-- `receive` on a replica: an error rolls back; the result says whether the snapshot was
new. -/
def receive (snapshot : Snapshot) : Except ClusterError (Bool × ClusterDb) :=
  if snapshot.epoch = "" ∨ snapshot.revision < 0 then
    .error .unavailable
  else
    match db.epoch, db.revision with
    | none, _ => db.replaceTables env snapshot
    | some _, none => .error (.sqlite "Query returned no rows")
    | some epoch, some revision =>
      if epoch ≠ snapshot.epoch then .error .unavailable
      else if snapshot.revision < revision then .error .unavailable
      else if snapshot.revision = revision then .ok (false, db)
      else db.replaceTables env snapshot

/-- `mark_ready`. -/
def markReady : ClusterDb := { db with initialized := true }

end ClusterDb

end RecentMessages
